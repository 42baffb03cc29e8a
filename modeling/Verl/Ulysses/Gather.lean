import Verl.Ulysses.Model

/-! Slicing a packed row over the ranks, running a function of single tokens on the slices and
gathering its outputs. The empty row is special in the backward pass only: it splits into one piece,
not into one for each rank. -/
namespace Verl.Ulysses
open Tensor

variable {r : Nat} {α : Type} [Zero α]

section Collectives

variable {sp : Nat} {shape : Fin (r + 1) → Nat} {pieces : Nat → Tensor (r + 1) α}

theorem received_same {s : Nat} {shape : Fin s → Nat} {pieces : Nat → Tensor s α}
    (same : ∀ j < sp, (pieces j).shape = shape) {buffer : Tensor s α} (own : buffer.shape = shape) :
    received ((List.range sp).map pieces) buffer = .ok ((List.range sp).map pieces) := by
  apply if_pos
  rw [List.all_eq_true]
  intro x member
  obtain ⟨j, below, rfl⟩ := List.mem_map.mp member
  rw [decide_eq_true_iff]
  intro k
  rw [same j (List.mem_range.mp below), own]

theorem allGatherTensor_pieces (same : ∀ j < sp, (pieces j).shape = shape) {rank : Nat}
    (inside : rank < sp) :
    allGatherTensor ((List.range sp).map pieces) rank = .ok (joined 0 sp shape pieces) := by
  rw [allGatherTensor, pyGet_map_range pieces inside]
  simp only [ok_bind, received_same same (same rank inside)]
  exact cat_pieces (Nat.zero_lt_of_lt inside) same

/-- The pieces on the dimension that is gathered, whether it is the first one or not. -/
theorem forward_pieces (same : ∀ j < sp, (pieces j).shape = shape) {rank : Nat} (inside : rank < sp)
    (d : Fin (r + 1)) (leading : d = 0 ∨ shape 0 = 1) (gradScaler : Bool) :
    Gather.forward ((List.range sp).map pieces) rank d gradScaler =
      .ok (joined d sp shape pieces, ⟨d, gradScaler, sp, rank, shape d⟩) := by
  have positive := Nat.zero_lt_of_lt inside
  have gathered : (do
      let pieces ← (joined 0 sp shape pieces).split (shape 0) 0
      cat d pieces) = .ok (joined d sp shape pieces) := by
    by_cases empty : shape 0 = 0
    · have first : d = 0 := leading.resolve_right (by omega)
      subst first
      rw [empty, split_empty (by simp [joined, empty])]
      rfl
    · have whole : (joined 0 sp shape pieces).shape 0 = sp * shape 0 := by simp [joined]
      rw [split_shards (Nat.pos_of_ne_zero empty) positive whole, ok_bind]
      have back : (List.range sp).map (fun j => shard 0 (shape 0) j (joined 0 sp shape pieces)) =
          (List.range sp).map pieces := by
        apply List.map_congr_left
        intro j below
        exact shard_joined same (List.mem_range.mp below)
      rw [back]
      exact cat_pieces positive same
  rw [Gather.forward, pyGet_map_range pieces inside, ok_bind, allGatherTensor_pieces same inside,
    ok_bind, same rank inside, List.length_map, List.length_range]
  obtain ⟨output, split, joint⟩ := bind_ok_iff.mp gathered
  rw [split, ok_bind, joint]
  rfl

section Backward

variable [Mul α] [NatCast α] {d : Fin (r + 1)} {gradScaler : Bool} {m rank : Nat}
  {grad : Tensor (r + 1) α}

def scaledGrad (gradScaler : Bool) (sp : Nat) (grad : Tensor (r + 1) α) : Tensor (r + 1) α :=
  if gradScaler then grad.scale (sp : α) else grad

theorem shape_scaledGrad : (scaledGrad gradScaler sp grad).shape = grad.shape := by
  cases gradScaler <;> rfl

theorem backward_shard (positive : 0 < m) (inside : rank < sp) (whole : grad.shape d = sp * m) :
    Gather.backward ⟨d, gradScaler, sp, rank, m⟩ grad =
      .ok (shard d m rank (scaledGrad gradScaler sp grad)) := by
  have pieces := split_shards (x := scaledGrad gradScaler sp grad) positive
    (Nat.zero_lt_of_lt inside)
    ((congrFun shape_scaledGrad d).trans whole)
  rw [Gather.backward]
  change ((scaledGrad gradScaler sp grad).split m d >>= fun pieces => pyGet pieces rank) = _
  rw [pieces, ok_bind]
  exact pyGet_map_range _ inside

theorem backward_empty (empty : grad.shape d = 0) :
    Gather.backward ⟨d, gradScaler, sp, rank, 0⟩ grad =
      pyGet [scaledGrad gradScaler sp grad] rank := by
  have pieces := split_empty (x := scaledGrad gradScaler sp grad)
    ((congrFun shape_scaledGrad d).trans empty)
  rw [Gather.backward]
  change ((scaledGrad gradScaler sp grad).split 0 d >>= fun pieces => pyGet pieces rank) = _
  rw [pieces, ok_bind]

end Backward

end Collectives

section Tokens

def tokenAt (ids : Tensor 2 Nat) (positions : Option (Tensor 2 Nat)) (t : Nat) : Nat × Option Nat :=
  (ids.entry ![0, t], positions.map (fun positions => positions.entry ![0, t]))

/-- A function of single tokens, as a tensor with one dimension for the tokens. The packed row is a
batch of 1. -/
structure PerToken (r : Nat) (α : Type) where
  dim : Fin (r + 1)
  rest : Fin (r + 1) → Nat
  leading : dim = 0 ∨ rest 0 = 1
  value : Nat × Option Nat → (Fin (r + 1) → Nat) → α

def PerToken.run (f : PerToken r α) (ids : Tensor 2 Nat) (positions : Option (Tensor 2 Nat)) :
    Tensor (r + 1) α :=
  make (Function.update f.rest f.dim (ids.shape tokenDim))
    (fun i => f.value (tokenAt ids positions (i f.dim)) (Function.update i f.dim 0))

variable {ids : Tensor 2 Nat} {positions : Option (Tensor 2 Nat)}

def Matching (ids : Tensor 2 Nat) (positions : Option (Tensor 2 Nat)) : Prop :=
  ∀ p ∈ positions, p.shape batchDim = 1 ∧ p.shape tokenDim = ids.shape tokenDim

theorem entry_narrow_row {x : Tensor 2 Nat} {start stop t : Nat}
    (below : t < min stop (x.shape tokenDim) - start) :
    (narrow tokenDim start stop x).entry ![0, t] = x.entry ![0, start + t] := by
  have place : Function.update ![0, t] tokenDim (start + t) = ![0, start + t] := by
    funext k
    match k with
    | 0 => rfl
    | 1 => rfl
  have entry := entry_narrow (x := x) (d := tokenDim) (i := ![0, t]) below
  rw [entry]
  exact congrArg x.entry place

theorem tokenAt_narrow (matching : Matching ids positions) {start stop t : Nat}
    (below : t < min stop (ids.shape tokenDim) - start) :
    tokenAt (narrow tokenDim start stop ids) (positions.map (narrow tokenDim start stop)) t =
      tokenAt ids positions (start + t) := by
  rw [tokenAt, tokenAt, entry_narrow_row below]
  cases positions with
  | none => rfl
  | some p =>
    have same := (matching p rfl).2
    rw [Option.map_some, Option.map_some, Option.map_some, entry_narrow_row (same ▸ below)]

theorem narrow_run (f : PerToken r α) (matching : Matching ids positions) (start stop : Nat) :
    narrow f.dim start stop (f.run ids positions) =
      f.run (narrow tokenDim start stop ids) (positions.map (narrow tokenDim start stop)) := by
  have size : (narrow tokenDim start stop ids).shape tokenDim =
    min stop (ids.shape tokenDim) - start := by simp [narrow]
  apply make_eq
  · simp only [PerToken.run, shape_make, Function.update_idem, Function.update_self, size]
  · intro i inside
    simp only [PerToken.run, shape_make, Function.update_idem, Function.update_self] at inside
    have below := inside_self inside
    have place : Inside (Function.update f.rest f.dim (ids.shape tokenDim))
      (Function.update i f.dim (start + i f.dim)) :=
      inside_put (inside_off inside) (by omega)
    rw [PerToken.run, PerToken.run, entry_make place, entry_make (by rw [size]; exact inside),
      Function.update_self, Function.update_idem, tokenAt_narrow matching below]

end Tokens

section Slices

variable {ids : Tensor 2 Nat} {positions : Option (Tensor 2 Nat)}

structure PaddedRow (ids : Tensor 2 Nat) (positions : Option (Tensor 2 Nat)) (padSize : Nat)
    (paddedIds : Tensor 2 Nat) (paddedPositions : Option (Tensor 2 Nat)) : Prop where
  frontIds : narrow tokenDim 0 (ids.shape tokenDim) paddedIds = ids
  frontPositions : paddedPositions.map (narrow tokenDim 0 (ids.shape tokenDim)) = positions
  length : paddedIds.shape tokenDim = ids.shape tokenDim + padSize
  matching : Matching paddedIds paddedPositions

def sliceLength (n sp : Nat) : Nat := (n + sp - 1) / sp

theorem padded_length {sp : Nat} (positive : 0 < sp) (n : Nat) :
    n + (sp - n % sp) % sp = sp * sliceLength n sp := by
  have below := Nat.mod_lt n positive
  have whole := Nat.div_add_mod n sp
  by_cases even : n % sp = 0
  · have length : sliceLength n sp = n / sp := by
      rw [sliceLength, Nat.div_eq_of_lt_le]
      · rw [Nat.mul_comm]
        omega
      · rw [Nat.succ_mul, Nat.mul_comm]
        omega
    rw [even, Nat.sub_zero, Nat.mod_self, length]
    omega
  · have length : sliceLength n sp = n / sp + 1 := by
      rw [sliceLength, Nat.div_eq_of_lt_le]
      · rw [Nat.succ_mul, Nat.mul_comm]
        omega
      · rw [Nat.succ_mul, Nat.succ_mul, Nat.mul_comm]
        omega
    rw [Nat.mod_eq_of_lt (by omega : sp - n % sp < sp), length, Nat.mul_succ]
    omega

theorem append_front {x y : Tensor 2 Nat} {n pad : Nat} (length : x.shape tokenDim = n)
    (behind : y.shape tokenDim = pad) :
    narrow tokenDim 0 n (x.append tokenDim y) = x ∧ (x.append tokenDim y).shape tokenDim = n + pad ∧
      (x.append tokenDim y).shape batchDim = x.shape batchDim := by
  refine ⟨length ▸ narrow_append x y, ?_, ?_⟩
  · rw [append, shape_make, Function.update_self, length, behind]
  · rw [append, shape_make, Function.update_of_ne (by decide)]

theorem paddedRow_append (matching : Matching ids positions) (pad : Nat) :
    PaddedRow ids positions pad (padTensor ids tokenDim pad)
      (positions.map (fun p => p.append tokenDim (arangeRow pad))) := by
  have behind : (zeros (Function.update ids.shape tokenDim pad) : Tensor 2 Nat).shape tokenDim =
    pad := by simp [zeros]
  obtain ⟨front, length, -⟩ := append_front (x := ids) rfl behind
  refine ⟨front, ?_, length, ?_⟩
  · cases positions with
    | none => rfl
    | some p =>
      rw [Option.map_some, Option.map_some,
      (append_front (y := arangeRow pad) (matching p rfl).2 rfl).1]
  · intro q member
    obtain ⟨p, found, rfl⟩ := Option.map_eq_some_iff.mp member
    obtain ⟨-, long, wide⟩ := append_front (y := arangeRow pad) (matching p found).2 rfl
    exact ⟨wide.trans (matching p found).1, long.trans length.symm⟩

theorem paddedRow_self (matching : Matching ids positions) :
    PaddedRow ids positions 0 ids positions := by
  refine ⟨narrow_whole (Nat.le_refl _), ?_, rfl, matching⟩
  cases positions with
  | none => rfl
  | some p => rw [Option.map_some, narrow_whole (Nat.le_of_eq (matching p rfl).2)]

theorem sliceInputTensor_shard {sp m rank : Nat} (positive : 0 < sp) {x : Tensor 2 Nat}
    (whole : x.shape tokenDim = sp * m) :
    sliceInputTensor sp rank x tokenDim false = shard tokenDim m rank x := by
  simp only [sliceInputTensor, Bool.false_and, Bool.false_eq_true, if_false, whole,
    Nat.mul_div_cancel_left m positive]
  rfl

theorem slices_paddedRow {sp padSize : Nat} {paddedIds : Tensor 2 Nat}
    {paddedPositions : Option (Tensor 2 Nat)} (positive : 0 < sp)
    (row : PaddedRow ids positions padSize paddedIds paddedPositions)
    (whole : ids.shape tokenDim + padSize = sp * sliceLength (ids.shape tokenDim) sp) (rank : Nat) :
    (sliceInputTensor sp rank paddedIds tokenDim false,
      paddedPositions.map (fun p => sliceInputTensor sp rank p tokenDim false), padSize) =
      (shard tokenDim (sliceLength (ids.shape tokenDim) sp) rank paddedIds,
        paddedPositions.map (shard tokenDim (sliceLength (ids.shape tokenDim) sp) rank),
          padSize) := by
  rw [sliceInputTensor_shard positive (row.length.trans whole)]
  cases paddedPositions with
  | none => rfl
  | some p =>
    rw [Option.map_some, Option.map_some,
      sliceInputTensor_shard positive ((row.matching p rfl).2.trans (row.length.trans whole))]

theorem exists_slices {sp : Nat} (positive : 0 < sp) (matching : Matching ids positions) :
    ∃ paddedIds paddedPositions padSize, PaddedRow ids positions padSize paddedIds paddedPositions ∧
      ids.shape tokenDim + padSize = sp * sliceLength (ids.shape tokenDim) sp ∧
      ∀ rank < sp, ulyssesPadAndSliceInputs sp rank ids positions sp =
        .ok (shard tokenDim (sliceLength (ids.shape tokenDim) sp) rank paddedIds,
          paddedPositions.map (shard tokenDim (sliceLength (ids.shape tokenDim) sp) rank),
            padSize) := by
  have batch : positions.all (fun p => p.shape batchDim == 1) = true := by
    cases positions with
    | none => rfl
    | some p => simpa using (matching p rfl).1
  have length : positions.all (fun p => ids.shape tokenDim == p.shape tokenDim) = true := by
    cases positions with
    | none => rfl
    | some p => simpa using (matching p rfl).2.symm
  by_cases one : sp ≤ 1
  · have single : sp = 1 := by omega
    subst single
    have size : sliceLength (ids.shape tokenDim) 1 = ids.shape tokenDim := by simp [sliceLength]
    refine ⟨ids, positions, 0, paddedRow_self matching, by rw [size, Nat.one_mul]; rfl, ?_⟩
    · intro rank inside
      have first : rank = 0 := by omega
      subst first
      have same : positions.map (shard tokenDim (ids.shape tokenDim) 0) = positions := by
        cases positions with
        | none => rfl
        | some p => rw [Option.map_some, shard_whole (matching p rfl).2]
      simp only [ulyssesPadAndSliceInputs, batch, length, pyAssert_true, ok_bind, Nat.le_refl,
        if_true, size, shard_whole, same]
      rfl
  · have whole := padded_length positive (ids.shape tokenDim)
    generalize pad : (sp - ids.shape tokenDim % sp) % sp = padSize at whole
    by_cases some : padSize > 0
    · have row := paddedRow_append matching padSize
      refine ⟨_, _, padSize, row, whole, ?_⟩
      intro rank _
      rw [← slices_paddedRow positive row whole rank]
      simp only [ulyssesPadAndSliceInputs, batch, length, pyAssert_true, ok_bind, if_neg one,
        pad, if_pos some]
      rfl
    · have zero : padSize = 0 := Nat.eq_zero_of_not_pos some
      subst zero
      have row := paddedRow_self matching
      refine ⟨_, _, 0, row, whole, ?_⟩
      intro rank _
      rw [← slices_paddedRow positive row whole rank]
      simp only [ulyssesPadAndSliceInputs, batch, length, pyAssert_true, ok_bind, if_neg one,
        pad, if_neg some]
      rfl

end Slices

section RoundTrip

variable {sp : Nat} {ids : Tensor 2 Nat} {positions : Option (Tensor 2 Nat)} {f : PerToken r α}

def outputs (f : PerToken r α) (sp m : Nat) (paddedIds : Tensor 2 Nat)
    (paddedPositions : Option (Tensor 2 Nat)) :
    List (Tensor (r + 1) α) :=
  (List.range sp).map (fun rank =>
    f.run (shard tokenDim m rank paddedIds) (paddedPositions.map (shard tokenDim m rank)))

theorem joined_outputs {padSize m : Nat} {paddedIds : Tensor 2 Nat}
    {paddedPositions : Option (Tensor 2 Nat)}
    (row : PaddedRow ids positions padSize paddedIds paddedPositions)
    (whole : ids.shape tokenDim + padSize = sp * m) {rank : Nat}
    (inside : rank < sp) (gradScaler : Bool) :
    Gather.forward (outputs f sp m paddedIds paddedPositions) rank f.dim gradScaler =
      .ok (f.run paddedIds paddedPositions, ⟨f.dim, gradScaler, sp, rank, m⟩) := by
  have size : (f.run paddedIds paddedPositions).shape f.dim = sp * m := by
    rw [PerToken.run, shape_make, Function.update_self, row.length, whole]
  have pieces : ∀ j,
    f.run (shard tokenDim m j paddedIds) (paddedPositions.map (shard tokenDim m j)) =
      shard f.dim m j (f.run paddedIds paddedPositions) :=
        fun j => (narrow_run f row.matching _ _).symm
  have leading : f.dim = 0 ∨
      Function.update (f.run paddedIds paddedPositions).shape f.dim m 0 = 1 := by
    by_cases first : f.dim = 0
    · exact .inl first
    · rw [PerToken.run, shape_make, Function.update_idem, Function.update_of_ne (Ne.symm first)]
      exact .inr (f.leading.resolve_left first)
  have shapes : ∀ j < sp, (shard f.dim m j (f.run paddedIds paddedPositions)).shape =
      Function.update (f.run paddedIds paddedPositions).shape f.dim m :=
        fun j below => shape_shard size below
  have forward := forward_pieces shapes inside f.dim leading gradScaler
  rw [joined_shards size, Function.update_self] at forward
  rw [outputs]
  simp only [pieces]
  exact forward

theorem run_front {padSize : Nat} {paddedIds : Tensor 2 Nat}
    {paddedPositions : Option (Tensor 2 Nat)}
    (row : PaddedRow ids positions padSize paddedIds paddedPositions) :
    narrow f.dim 0 (ids.shape tokenDim) (f.run paddedIds paddedPositions) =
      f.run ids positions := by
  rw [narrow_run f row.matching, row.frontIds, row.frontPositions]

theorem shape_run : (f.run ids positions).shape f.dim = ids.shape tokenDim := by
  rw [PerToken.run, shape_make, Function.update_self]

theorem gatherOutpusAndUnpad_outputs {padSize m : Nat} {paddedIds : Tensor 2 Nat}
    {paddedPositions : Option (Tensor 2 Nat)}
    (row : PaddedRow ids positions padSize paddedIds paddedPositions)
    (whole : ids.shape tokenDim + padSize = sp * m) {rank : Nat}
    (inside : rank < sp) (gradScaler : Bool) :
    gatherOutpusAndUnpad true (outputs f sp m paddedIds paddedPositions) rank f.dim (some f.dim)
      padSize gradScaler = .ok (f.run ids positions) := by
  simp only [gatherOutpusAndUnpad, if_true, joined_outputs row whole inside, ok_bind]
  by_cases none : padSize = 0
  · subst none
    have size : (f.run paddedIds paddedPositions).shape f.dim ≤ ids.shape tokenDim :=
      Nat.le_of_eq (shape_run.trans row.length)
    have same : f.run paddedIds paddedPositions = f.run ids positions := by
      rw [← run_front row, narrow_whole size]
    rw [if_pos rfl, same]
    rfl
  · have front : (f.run paddedIds paddedPositions).shape f.dim - padSize = ids.shape tokenDim := by
      rw [shape_run, row.length, Nat.add_sub_cancel]
    have positive : (0 : Int) < padSize := by omega
    rw [if_neg none, unpadTensor, if_pos positive, Int.toNat_natCast, front, run_front row]
    rfl

theorem outputs_single {m : Nat} {paddedIds : Tensor 2 Nat}
    {paddedPositions : Option (Tensor 2 Nat)} {padSize : Nat}
    (row : PaddedRow ids positions padSize paddedIds paddedPositions)
    (size : m = ids.shape tokenDim) :
    outputs f 1 m paddedIds paddedPositions = [f.run ids positions] := by
  have front : shard tokenDim m 0 paddedIds = ids := by
    rw [shard, Nat.zero_mul, Nat.zero_add, Nat.one_mul, size, row.frontIds]
  have frontPositions : paddedPositions.map (shard tokenDim m 0) = positions := by
    have first : (shard tokenDim m 0 : Tensor 2 Nat → Tensor 2 Nat) =
        narrow tokenDim 0 (ids.shape tokenDim) := by
      funext x
      rw [shard, Nat.zero_mul, Nat.zero_add, Nat.one_mul, size]
    rw [first, row.frontPositions]
  rw [outputs, List.range_one, List.map_singleton, front, frontPositions]

theorem sliceLength_pos {n : Nat} (positive : 0 < sp) (some : 0 < n) : 0 < sliceLength n sp :=
  Nat.div_pos (by omega) positive

theorem sliceLength_one (n : Nat) : sliceLength n 1 = n := by simp [sliceLength]

theorem sliceLength_empty (positive : 0 < sp) : sliceLength 0 sp = 0 := Nat.div_eq_of_lt (by omega)

variable [Mul α] [NatCast α]

/-- Each rank gets the gradient of its own outputs, unless the row is empty and there are other
ranks. -/
theorem backward_own {d : Fin (r + 1)} {gradScaler : Bool} {n m rank : Nat}
    {grad : Tensor (r + 1) α} (inside : rank < sp)
    (size : m = sliceLength n sp) (some : 0 < n ∨ sp = 1) (whole : grad.shape d = sp * m) :
    Gather.backward ⟨d, gradScaler, sp, rank, m⟩ grad =
      .ok (shard d m rank (scaledGrad gradScaler sp grad)) := by
  by_cases empty : m = 0
  · subst empty
    have single : sp = 1 := some.resolve_left (fun token => by
      have slice := sliceLength_pos (Nat.zero_lt_of_lt inside) token
      omega)
    have first : rank = 0 := by omega
    subst first
    rw [Nat.mul_zero] at whole
    rw [backward_empty whole, shard_whole ((congrFun shape_scaledGrad d).trans whole)]
    rfl
  · exact backward_shard (Nat.pos_of_ne_zero empty) inside whole

/-- What one rank sees of the round trip of a row of tokens: its slices, cut where the others' are,
the gathered outputs without those of the padding, and the gradient of its own outputs. -/
structure OnRank (grouped : Bool) (sp : Nat) (ids : Tensor 2 Nat)
    (positions : Option (Tensor 2 Nat)) (f : PerToken r α)
    (gradScaler : Bool) (paddedIds : Tensor 2 Nat) (paddedPositions : Option (Tensor 2 Nat))
    (padSize rank : Nat) : Prop where
  slices : ulyssesPadAndSliceInputs sp rank ids positions sp =
    .ok (shard tokenDim (sliceLength (ids.shape tokenDim) sp) rank paddedIds,
      paddedPositions.map (shard tokenDim (sliceLength (ids.shape tokenDim) sp) rank), padSize)
  idsLength : (shard tokenDim (sliceLength (ids.shape tokenDim) sp) rank paddedIds).shape tokenDim =
    sliceLength (ids.shape tokenDim) sp
  positionsLength :
    ∀ p ∈ paddedPositions.map (shard tokenDim (sliceLength (ids.shape tokenDim) sp) rank),
    p.shape tokenDim = sliceLength (ids.shape tokenDim) sp
  gathered : gatherOutpusAndUnpad grouped
    (outputs f sp (sliceLength (ids.shape tokenDim) sp) paddedIds paddedPositions) rank f.dim
    (some f.dim) padSize gradScaler = .ok (f.run ids positions)
  gradient : grouped = true → ∃ x ctx,
    Gather.forward (outputs f sp (sliceLength (ids.shape tokenDim) sp) paddedIds paddedPositions)
    rank
      f.dim gradScaler = .ok (x, ctx) ∧
    ∀ grad : Tensor (r + 1) α, grad.shape = x.shape →
      Gather.backward ctx grad =
        .ok (shard f.dim (sliceLength (ids.shape tokenDim) sp) rank (scaledGrad gradScaler sp grad))

def RoundTrip (grouped : Bool) (sp : Nat) (ids : Tensor 2 Nat) (positions : Option (Tensor 2 Nat))
    (f : PerToken r α) (gradScaler : Bool) : Prop :=
  ∃ paddedIds paddedPositions padSize, PaddedRow ids positions padSize paddedIds paddedPositions ∧
    ∀ rank < sp, OnRank grouped sp ids positions f gradScaler paddedIds paddedPositions padSize rank

theorem not_roundTrip_empty (several : 1 < sp) (empty : ids.shape tokenDim = 0)
    (matching : Matching ids positions) {gradScaler : Bool} :
    ¬RoundTrip true sp ids positions f gradScaler := by
  rintro ⟨paddedIds, paddedPositions, padSize, row, each⟩
  obtain ⟨otherIds, otherPositions, otherSize, -, whole, run⟩ :=
    exists_slices (Nat.zero_lt_of_lt several) matching
  have same : padSize = otherSize := by
    have both := (each 1 several).slices.symm.trans (run 1 several)
    exact (Prod.mk.inj (Prod.mk.inj (Except.ok.inj both)).2).2
  subst same
  have none : sliceLength (ids.shape tokenDim) sp = 0 := by
    rw [empty]
    exact sliceLength_empty (Nat.zero_lt_of_lt several)
  obtain ⟨x, ctx, forward, backward⟩ := (each 1 several).gradient rfl
  rw [joined_outputs row whole several, none] at forward
  obtain ⟨rfl, rfl⟩ := Prod.mk.inj (Except.ok.inj forward)
  have nothing : (f.run paddedIds paddedPositions).shape f.dim = 0 := by
    rw [shape_run, row.length, whole, none, Nat.mul_zero]
  have own := backward (f.run paddedIds paddedPositions) rfl
  rw [backward_empty nothing] at own
  cases own

/-- The round trip of a packed row over the ranks of a group, or of one process without a group: it
fails for an empty row on two ranks or more, in the backward pass. -/
theorem ulysses_round_trip_iff {grouped : Bool} (positive : 0 < sp) (set : grouped = true ∨ sp = 1)
    (matching : Matching ids positions) (f : PerToken r α) (gradScaler : Bool) :
    RoundTrip grouped sp ids positions f gradScaler ↔ 0 < ids.shape tokenDim ∨ sp = 1 := by
  obtain ⟨paddedIds, paddedPositions, padSize, row, whole, run⟩ := exists_slices positive matching
  constructor
  · intro trip
    by_contra neither
    obtain ⟨empty, several⟩ := not_or.mp neither
    have many : grouped = true := set.resolve_right several
    subst many
    exact not_roundTrip_empty (by omega) (Nat.eq_zero_of_not_pos empty) matching trip
  · intro some
    refine ⟨paddedIds, paddedPositions, padSize, row, ?_⟩
    intro rank inside
    refine ⟨run rank inside, ?_, ?_, ?_, ?_⟩
    · rw [shape_shard (row.length.trans whole) inside, Function.update_self]
    · intro p member
      obtain ⟨q, found, rfl⟩ := Option.map_eq_some_iff.mp member
      rw [shape_shard ((row.matching q found).2.trans (row.length.trans whole)) inside,
        Function.update_self]
    · cases grouped with
      | true => exact gatherOutpusAndUnpad_outputs row whole inside gradScaler
      | false =>
        have single : sp = 1 := set.resolve_left Bool.false_ne_true
        subst single
        have first : rank = 0 := by omega
        subst first
        rw [outputs_single row (sliceLength_one _)]
        rfl
    · intro _
      refine ⟨_, _, joined_outputs row whole inside gradScaler, ?_⟩
      intro grad shape
      apply backward_own inside rfl some
      rw [shape, shape_run, row.length, whole]

def countedIds (n : Nat) : Tensor 2 Nat := make ![1, n] (fun i => 10 + i tokenDim)

def idAndPosition : PerToken 0 Nat where
  dim := Fin.last 0
  rest := fun _ => 0
  leading := .inl rfl
  value := fun token _ => 100 * token.1 + token.2.getD 0

theorem countedIds_matching (n : Nat) : Matching (countedIds n) (some (arangeRow n)) := by
  rintro p ⟨⟩
  exact ⟨rfl, rfl⟩

/-- Three tokens on two ranks, so with one entry of padding. -/
theorem ulysses_round_trip_threeTokens :
    RoundTrip true 2 (countedIds 3) (some (arangeRow 3)) idAndPosition true ↔ 0 < 3 ∨ 2 = 1 :=
  ulysses_round_trip_iff (by decide) (.inl rfl) (countedIds_matching 3) idAndPosition true

/-- An empty row on two ranks: the second one raises in the backward pass. -/
theorem ulysses_round_trip_empty :
    ¬RoundTrip true 2 (countedIds 0) (some (arangeRow 0)) idAndPosition true :=
  not_roundTrip_empty (by decide) rfl (countedIds_matching 0)

end RoundTrip

end Verl.Ulysses
