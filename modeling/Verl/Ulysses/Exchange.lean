import Verl.Ulysses.Gather

/-! The two exchanges around attention. An exchange turns the pieces of a tensor on one dimension
into its pieces on another one; so the second exchange, and the backward pass of each, undo the
first. -/
namespace Verl.Ulysses
open Tensor

variable {r s : Nat} {α : Type} [Zero α]

section AllToAll

variable {sp : Nat} {full : Tensor r α} {scatterDim gatherDim : Fin r} {k m : Nat}

theorem allToAllTensor_shards (other : scatterDim ≠ gatherDim)
    (gather : full.shape gatherDim = sp * m)
    (scatter : full.shape scatterDim = sp * k) {rank : Nat} (inside : rank < sp) :
    allToAllTensor ((List.range sp).map (fun j => shard gatherDim m j full)) rank
      scatterDim gatherDim = .ok (shard scatterDim k rank full) := by
  have positive := Nat.zero_lt_of_lt inside
  have pieces : ∀ j, tensorSplit sp scatterDim (shard gatherDim m j full) =
      (List.range sp).map (fun i => shard scatterDim k i (shard gatherDim m j full)) :=
    fun j => tensorSplit_even positive ((shape_shard_of_ne other m j).trans scatter)
  have sent : ((List.range sp).map (fun j =>
    (List.range sp).map (fun i => shard scatterDim k i (shard gatherDim m j full)))).mapM
      (fun inputList => pyGet inputList rank) =
      .ok ((List.range sp).map (fun j => shard gatherDim m j (shard scatterDim k rank full))) := by
    rw [List.mapM_map]
    apply mapM_ok
    intro j _
    rw [Function.comp_apply, pyGet_map_range _ inside, shard_comm other]
  have whole : ∀ i, (shard scatterDim k i full).shape gatherDim = sp * m := fun i =>
    (shape_shard_of_ne (Ne.symm other) k i).trans gather
  have shapes : ∀ j < sp, (shard gatherDim m j (shard scatterDim k rank full)).shape =
      Function.update (shard scatterDim k rank full).shape gatherDim m :=
        fun j below => shape_shard (whole rank) below
  have buffer : (shard scatterDim k 0 (shard gatherDim m rank full)).shape =
      Function.update (shard scatterDim k rank full).shape gatherDim m := by
    rw [shard_comm other, shape_shard (whole 0) inside, shape_shard scatter positive,
      shape_shard scatter inside]
  have collected := cat_pieces (d := gatherDim) positive shapes
  rw [joined_shards (whole rank)] at collected
  simp only [allToAllTensor, List.length_map, List.length_range, List.map_map, Function.comp_def,
    pieces, pyGet_map_range _ inside, pyGet_map_range _ positive, ok_bind, sent,
    received_same shapes buffer, collected]

end AllToAll

section Padding

variable {sp : Nat} {x : Tensor r α} {d : Fin r}

/-- The padding before a slice or an exchange: none where the ranks divide the size. -/
def padToRanks (sp : Nat) (d : Fin r) (x : Tensor r α) : Tensor r α :=
  if x.shape d % sp ≠ 0 then padTensor x d (sp - x.shape d % sp) else x

theorem shape_padTensor (paddingSize : Nat) :
    (padTensor x d paddingSize).shape = Function.update x.shape d (x.shape d + paddingSize) := by
  rw [padTensor, shape_append, zeros, shape_make, Function.update_self]

theorem shape_padToRanks (positive : 0 < sp) :
    (padToRanks sp d x).shape d = sp * sliceLength (x.shape d) sp := by
  have whole := padded_length positive (x.shape d)
  have below := Nat.mod_lt (x.shape d) positive
  rw [padToRanks]
  split
  · have rest : (sp - x.shape d % sp) % sp = sp - x.shape d % sp := Nat.mod_eq_of_lt (by omega)
    rw [shape_padTensor, Function.update_self, ← whole, rest]
  · rename_i none
    rw [← whole, not_not.mp none, Nat.sub_zero, Nat.mod_self, Nat.add_zero]

theorem shape_padToRanks_of_ne {e : Fin r} (other : e ≠ d) :
    (padToRanks sp d x).shape e = x.shape e := by
  rw [padToRanks]
  split
  · rw [shape_padTensor, Function.update_of_ne other]
  · rfl

theorem narrow_padToRanks : narrow d 0 (x.shape d) (padToRanks sp d x) = x := by
  rw [padToRanks]
  split
  · exact narrow_append x _
  · exact narrow_whole (Nat.le_refl _)

theorem sliceInputTensor_padded (positive : 0 < sp) (rank : Nat) :
    sliceInputTensor sp rank x d true =
      shard d (sliceLength (x.shape d) sp) rank (padToRanks sp d x) := by
  have padded : (if true && x.shape d % sp != 0 then padTensor x d (sp - x.shape d % sp) else x) =
      padToRanks sp d x := by
    simp [padToRanks]
  simp only [sliceInputTensor, padded, shape_padToRanks positive,
    Nat.mul_div_cancel_left _ positive]
  rfl

theorem narrow_zeros (shape : Fin r → Nat) (start stop : Nat) :
    narrow d start stop (zeros shape : Tensor r α) =
      zeros (Function.update shape d (min stop (shape d) - start)) := by
  apply eq_of_entries
  · rfl
  · intro i inside
    rw [entry_narrow (inside_self inside), entry_zeros, entry_zeros]

theorem narrow_padTensor {e : Fin r} (other : e ≠ d) (start stop paddingSize : Nat) :
    narrow e start stop (padTensor x d paddingSize) =
      padTensor (narrow e start stop x) d paddingSize := by
  have behind : Function.update (Function.update x.shape d paddingSize) e
    (min stop (x.shape e) - start) =
      Function.update (narrow e start stop x).shape d paddingSize := by
    rw [shape_narrow]
    exact Function.update_comm (Ne.symm other) _ _ _
  rw [padTensor, narrow_append_of_ne other x _ (by simp [zeros, other]), narrow_zeros,
    Function.update_of_ne other, behind, padTensor]

theorem shard_padToRanks {e : Fin r} (other : e ≠ d) (size j : Nat) :
    shard e size j (padToRanks sp d x) = padToRanks sp d (shard e size j x) := by
  have same : (shard e size j x).shape d = x.shape d := shape_shard_of_ne (Ne.symm other) size j
  rw [padToRanks, padToRanks, same]
  split
  · exact narrow_padTensor other _ _ _
  · rfl

end Padding

section Exchanges

variable {sp : Nat} {full : Tensor r α} {seqDim headDim : Fin r} {k : Nat}

def seqSlices (sp : Nat) (seqDim : Fin r) (full : Tensor r α) : List (Tensor r α) :=
  (List.range sp).map (fun rank => sliceInputTensor sp rank full seqDim true)

theorem length_seqSlices : (seqSlices sp seqDim full).length = sp := by simp [seqSlices]

theorem seqSlices_eq (positive : 0 < sp) :
    seqSlices sp seqDim full =
      (List.range sp).map
      (fun j => shard seqDim (sliceLength (full.shape seqDim) sp) j
      (padToRanks sp seqDim full)) := by
  apply List.map_congr_left
  intro rank _
  exact sliceInputTensor_padded positive rank

/-- The sequence length that is passed for unpadding: the true one, or none where the ranks divide
it. -/
def Unpads (sp unpaddedDimSize length : Nat) : Prop :=
  unpaddedDimSize = length ∨ unpaddedDimSize = 0 ∧ length % sp = 0

theorem gatherSeqScatterHeads_slices (other : headDim ≠ seqDim)
    (heads : full.shape headDim = sp * k) {unpaddedDimSize : Nat}
    (unpads : Unpads sp unpaddedDimSize (full.shape seqDim)) {rank : Nat} (inside : rank < sp) :
    gatherSeqScatterHeads true (seqSlices sp seqDim full) rank seqDim headDim unpaddedDimSize =
      .ok (shard headDim k rank full) := by
  have positive := Nat.zero_lt_of_lt inside
  have exchange : allToAllTensor (seqSlices sp seqDim full) rank headDim seqDim =
      .ok (shard headDim k rank (padToRanks sp seqDim full)) := by
    rw [seqSlices_eq positive]
    exact allToAllTensor_shards other (shape_padToRanks positive)
      ((shape_padToRanks_of_ne other).trans heads) inside
  simp only [gatherSeqScatterHeads, if_true, SeqAllToAll.forward, exchange, ok_bind, pure_eq_ok,
    length_seqSlices]
  by_cases even : full.shape seqDim % sp = 0
  · have same : padToRanks sp seqDim full = full := if_neg (not_not.mpr even)
    have kept : ¬(unpaddedDimSize ≠ 0 ∧ unpaddedDimSize % sp ≠ 0) := by
      rintro ⟨some, uneven⟩
      rcases unpads with rfl | ⟨zero, -⟩
      · exact uneven even
      · exact some zero
    rw [if_neg kept, same]
  · have unpadded : unpaddedDimSize = full.shape seqDim :=
      unpads.resolve_right (fun none => even none.2)
    subst unpadded
    have some : full.shape seqDim ≠ 0 := by
      intro zero
      rw [zero, Nat.zero_mod] at even
      exact even rfl
    have whole : (shard headDim k rank (padToRanks sp seqDim full)).shape seqDim =
        full.shape seqDim + (sp - full.shape seqDim % sp) := by
      rw [shape_shard_of_ne (Ne.symm other), padToRanks, if_pos even, shape_padTensor,
        Function.update_self]
    have below := Nat.mod_lt (full.shape seqDim) positive
    rw [if_pos ⟨some, even⟩, unpadTensor, whole, if_pos (by omega)]
    have front : full.shape seqDim + (sp - full.shape seqDim % sp) -
        (((full.shape seqDim + (sp - full.shape seqDim % sp) : Nat) : Int) - full.shape
          seqDim).toNat = full.shape seqDim := by omega
    rw [front, shard, narrow_comm (Ne.symm other), narrow_padToRanks]
    rfl

theorem gatherHeadsScatterSeq_shards (other : headDim ≠ seqDim)
    (heads : full.shape headDim = sp * k) {rank : Nat} (inside : rank < sp) :
    gatherHeadsScatterSeq true ((List.range sp).map (fun j => shard headDim k j full)) rank
      headDim seqDim = .ok (sliceInputTensor sp rank full seqDim true) := by
  have positive := Nat.zero_lt_of_lt inside
  have exchange : allToAllTensor
    ((List.range sp).map (fun j => shard headDim k j (padToRanks sp seqDim full))) rank
    seqDim headDim =
      .ok (shard seqDim (sliceLength (full.shape seqDim) sp) rank (padToRanks sp seqDim full)) :=
    allToAllTensor_shards (Ne.symm other) ((shape_padToRanks_of_ne other).trans heads)
      (shape_padToRanks positive) inside
  have padded : ((List.range sp).map (fun j => shard headDim k j full)).map (fun x =>
      if x.shape seqDim % sp ≠ 0 then padTensor x seqDim (sp - x.shape seqDim % sp) else x) =
      (List.range sp).map (fun j => shard headDim k j (padToRanks sp seqDim full)) := by
    rw [List.map_map]
    apply List.map_congr_left
    intro j _
    exact (shard_padToRanks other k j).symm
  simp only [gatherHeadsScatterSeq, if_true, List.length_map, List.length_range, padded,
    SeqAllToAll.forward, exchange, ok_bind, pure_eq_ok, sliceInputTensor_padded positive]

end Exchanges

section Headwise

/-- A function of query, key and value states that computes each head by itself, with `groups` heads
of the query for each one of the key and the value. -/
structure Headwise (attention : Tensor r α → Tensor r α → Tensor r α → Tensor s α) (headIn : Fin r)
    (headOut : Fin s) (groups : Nat) : Prop where
  heads : ∀ {q k v}, q.shape headIn = groups * k.shape headIn → v.shape headIn = k.shape headIn →
    (attention q k v).shape headOut = q.shape headIn
  shape : ∀ {q k v q' k' v'}, AgreeOff headIn q.shape q'.shape → AgreeOff headIn k.shape k'.shape →
    AgreeOff headIn v.shape v'.shape →
    AgreeOff headOut (attention q k v).shape (attention q' k' v').shape
  head : ∃ attend : Tensor r α → Tensor r α → Tensor r α → Tensor s α, ∀ {q k v},
    q.shape headIn = groups * k.shape headIn → v.shape headIn = k.shape headIn →
      ∀ h < q.shape headIn,
        narrow headOut h (h + 1) (attention q k v) = attend (narrow headIn h (h + 1) q)
        (narrow headIn (h / groups) (h / groups + 1) k)
          (narrow headIn (h / groups) (h / groups + 1) v)

variable {attention : Tensor r α → Tensor r α → Tensor r α → Tensor s α} {headIn : Fin r}
  {headOut : Fin s} {groups sp kvHeads : Nat} {query key value : Tensor r α}

theorem agreeOff_shard {x : Tensor r α} (d : Fin r) (size j : Nat) :
    AgreeOff d (shard d size j x).shape x.shape :=
  fun _ other => shape_shard_of_ne other size j

theorem headwise_shard (headwise : Headwise attention headIn headOut groups)
    (keyHeads : key.shape headIn = sp * kvHeads) (valueHeads : value.shape headIn = sp * kvHeads)
    (queryHeads : query.shape headIn = sp * (groups * kvHeads)) {rank : Nat} (inside : rank < sp) :
    attention (shard headIn (groups * kvHeads) rank query) (shard headIn kvHeads rank key)
      (shard headIn kvHeads rank value) =
      shard headOut (groups * kvHeads) rank (attention query key value) := by
  have own : ∀ {x : Tensor r α} {size}, x.shape headIn = sp * size →
      (shard headIn size rank x).shape headIn = size := by
    intro x size whole
    rw [shape_shard whole inside, Function.update_self]
  have grouped : query.shape headIn = groups * key.shape headIn := by
    rw [queryHeads, keyHeads, Nat.mul_left_comm]
  have ownGrouped : (shard headIn (groups * kvHeads) rank query).shape headIn =
      groups * (shard headIn kvHeads rank key).shape headIn := by
    rw [own queryHeads, own keyHeads]
  have same := valueHeads.trans keyHeads.symm
  have ownSame : (shard headIn kvHeads rank value).shape headIn =
    (shard headIn kvHeads rank key).shape headIn :=
    (own valueHeads).trans (own keyHeads).symm
  have wholeHeads : (attention query key value).shape headOut = sp * (groups * kvHeads) :=
    (headwise.heads grouped same).trans queryHeads
  have ownHeads := (headwise.heads ownGrouped ownSame).trans (own queryHeads)
  obtain ⟨attend, head⟩ := headwise.head
  apply eq_of_narrow (d := headOut)
  · funext d
    by_cases here : d = headOut
    · subst here
      rw [ownHeads, shape_shard wholeHeads inside, Function.update_self]
    · rw [shape_shard_of_ne here]
      exact headwise.shape (agreeOff_shard _ _ _) (agreeOff_shard _ _ _)
        (agreeOff_shard _ _ _) d here
  · intro h below
    rw [ownHeads] at below
    have positive : 0 < groups := Nat.pos_of_ne_zero (by rintro rfl; simp at below)
    have group : h / groups < kvHeads := Nat.div_lt_of_lt_mul below
    have place : (rank * (groups * kvHeads) + h) / groups = rank * kvHeads + h / groups := by
      rw [Nat.mul_left_comm, Nat.mul_add_div positive]
    have global : rank * (groups * kvHeads) + h < query.shape headIn := by
      have room := Nat.mul_le_mul_right (groups * kvHeads) inside
      rw [Nat.succ_mul] at room
      omega
    rw [narrow_shard wholeHeads inside below, head grouped same _ global, place,
      head ownGrouped ownSame h (by rw [own queryHeads]; exact below),
      narrow_shard queryHeads inside below,
      narrow_shard keyHeads inside group, narrow_shard valueHeads inside group]

/-- The exchanges around attention on the ranks, with the dimensions that the caller gives. -/
def attendExchanged (attention : Tensor r α → Tensor r α → Tensor r α → Tensor s α)
    (seqIn headIn : Fin r) (seqOut headOut : Fin s)
    (unpaddedDimSize : Nat) (query key value : List (Tensor r α)) (rank : Nat) :
    Py (Tensor s α) := do
  let attnOutput ← (List.range query.length).mapM (fun rank => do
    let queryStates ← gatherSeqScatterHeads true query rank seqIn headIn unpaddedDimSize
    let keyStates ← gatherSeqScatterHeads true key rank seqIn headIn unpaddedDimSize
    let valueStates ← gatherSeqScatterHeads true value rank seqIn headIn unpaddedDimSize
    return attention queryStates keyStates valueStates)
  gatherHeadsScatterSeq true attnOutput rank headOut seqOut

theorem attendExchanged_slices {seqIn : Fin r} {seqOut : Fin s}
    (headwise : Headwise attention headIn headOut groups) (otherIn : headIn ≠ seqIn)
    (otherOut : headOut ≠ seqOut) (keyHeads : key.shape headIn = sp * kvHeads)
    (valueHeads : value.shape headIn = sp * kvHeads)
    (queryHeads : query.shape headIn = sp * (groups * kvHeads)) {unpaddedDimSize : Nat}
    (queryUnpads : Unpads sp unpaddedDimSize (query.shape seqIn))
    (keyUnpads : Unpads sp unpaddedDimSize (key.shape seqIn))
    (valueUnpads : Unpads sp unpaddedDimSize (value.shape seqIn)) {rank : Nat}
    (inside : rank < sp) :
    attendExchanged attention seqIn headIn seqOut headOut unpaddedDimSize (seqSlices sp seqIn query)
      (seqSlices sp seqIn key)
      (seqSlices sp seqIn value) rank =
        .ok (sliceInputTensor sp rank (attention query key value) seqOut true) := by
  have attended : ((List.range sp).mapM fun rank => (do
      let queryStates ← gatherSeqScatterHeads true (seqSlices sp seqIn query) rank seqIn headIn
        unpaddedDimSize
      let keyStates ← gatherSeqScatterHeads true (seqSlices sp seqIn key) rank seqIn headIn
        unpaddedDimSize
      let valueStates ← gatherSeqScatterHeads true (seqSlices sp seqIn value) rank seqIn headIn
        unpaddedDimSize
      return attention queryStates keyStates valueStates)) =
      .ok ((List.range sp).map (fun rank =>
        shard headOut (groups * kvHeads) rank (attention query key value))) := by
    apply mapM_ok
    intro rank member
    have here := List.mem_range.mp member
    rw [gatherSeqScatterHeads_slices otherIn queryHeads queryUnpads here,
      gatherSeqScatterHeads_slices otherIn keyHeads keyUnpads here,
      gatherSeqScatterHeads_slices otherIn valueHeads valueUnpads here]
    simp only [ok_bind, pure_eq_ok, headwise_shard headwise keyHeads valueHeads queryHeads here]
  have heads : (attention query key value).shape headOut = sp * (groups * kvHeads) := by
    rw [headwise.heads (by rw [queryHeads, keyHeads, Nat.mul_left_comm])
      (valueHeads.trans keyHeads.symm), queryHeads]
  rw [attendExchanged, length_seqSlices, attended]
  exact gatherHeadsScatterSeq_shards otherOut heads inside

end Headwise

section Inverse

variable {sp m k : Nat} {shape : Fin r → Nat} {pieces : Nat → Tensor r α} {seqDim headDim : Fin r}

theorem sliceLength_mul (positive : 0 < sp) (m : Nat) : sliceLength (sp * m) sp = m := by
  have whole := padded_length positive (sp * m)
  rw [Nat.mul_mod_right, Nat.sub_zero, Nat.mod_self, Nat.add_zero] at whole
  exact (Nat.eq_of_mul_eq_mul_left positive whole).symm

theorem sliceInputTensor_even {d : Fin r} {x : Tensor r α} (positive : 0 < sp)
    (whole : x.shape d = sp * m) (rank : Nat) :
    sliceInputTensor sp rank x d true = shard d m rank x := by
  have kept : padToRanks sp d x = x := if_neg (by simp [whole])
  rw [sliceInputTensor_padded positive, kept, whole, sliceLength_mul positive]

theorem seqSlices_joined (positive : 0 < sp) (same : ∀ j < sp, (pieces j).shape = shape) :
    seqSlices sp seqDim (joined seqDim sp shape pieces) = (List.range sp).map pieces := by
  have whole : (joined seqDim sp shape pieces).shape seqDim = sp * shape seqDim := by simp [joined]
  apply List.map_congr_left
  intro j member
  rw [sliceInputTensor_even positive whole]
  exact shard_joined same (List.mem_range.mp member)

theorem shape_joined_of_ne {d e : Fin r} (other : e ≠ d) :
    (joined d sp shape pieces).shape e = shape e := Function.update_of_ne other _ _

/-- The exchange of tensors of one shape, and its undoing by the exchange with the dimensions
swapped. -/
theorem allToAllTensor_inverse {scatterDim gatherDim : Fin r} (other : scatterDim ≠ gatherDim)
    (same : ∀ j < sp, (pieces j).shape = shape) (scatter : shape scatterDim = sp * k) :
    ∃ outs : Nat → Tensor r α, (∀ rank, (outs rank).shape gatherDim = sp * shape gatherDim) ∧
      (∀ rank < sp, allToAllTensor ((List.range sp).map pieces) rank scatterDim gatherDim =
        .ok (outs rank)) ∧
      ∀ rank < sp, allToAllTensor ((List.range sp).map outs) rank gatherDim scatterDim =
        .ok (pieces rank) := by
  have gatherSize : (joined gatherDim sp shape pieces).shape gatherDim = sp * shape gatherDim := by
    simp [joined]
  have scatterSize : (joined gatherDim sp shape pieces).shape scatterDim = sp * k :=
    (shape_joined_of_ne other).trans scatter
  have locals : (List.range sp).map pieces =
      (List.range sp).map
      (fun j => shard gatherDim (shape gatherDim) j (joined gatherDim sp shape pieces)) := by
    apply List.map_congr_left
    intro j member
    exact (shard_joined same (List.mem_range.mp member)).symm
  refine ⟨fun rank => shard scatterDim k rank (joined gatherDim sp shape pieces), ?_, ?_, ?_⟩
  · intro rank
    rw [shape_shard_of_ne (Ne.symm other), gatherSize]
  · intro rank inside
    rw [locals]
    exact allToAllTensor_shards other gatherSize scatterSize inside
  · intro rank inside
    rw [← shard_joined (d := gatherDim) same inside]
    exact allToAllTensor_shards (Ne.symm other) scatterSize gatherSize inside

end Inverse

section Patched

variable {sp groups kvHeads m : Nat} {query key value : Tensor 4 α} {positionIds : Tensor 2 Nat}
  {flash : Tensor 4 α → Tensor 4 α → Tensor 4 α → Option (Tensor 2 Nat) → Tensor 4 α}

def slicedInputs (sp : Nat) (query key value : Tensor 4 α) (positionIds : Tensor 2 Nat) :
    AttentionInputs α :=
  ⟨seqSlices sp seqlenDim query, seqSlices sp seqlenDim key, seqSlices sp seqlenDim value,
    (seqSlices sp tokenDim positionIds).map some⟩

theorem sliceInputTensor_one {d : Fin r} {x : Tensor r α} : sliceInputTensor 1 0 x d true = x := by
  rw [sliceInputTensor_even Nat.one_pos (Nat.one_mul _).symm, shard_whole rfl]

theorem pyGet_seqSlices {d : Fin r} {x : Tensor r α} {rank : Nat} (inside : rank < sp) :
    pyGet (seqSlices sp d x) rank = .ok (sliceInputTensor sp rank x d true) :=
  pyGet_map_range _ inside

theorem cat_positionIds (positions : positionIds.shape tokenDim = sp * m) {rank : Nat}
    (inside : rank < sp) :
    (received (seqSlices sp tokenDim positionIds)
      (sliceInputTensor sp rank positionIds tokenDim true) >>= fun positionIdsList =>
      cat tokenDim positionIdsList) = .ok positionIds := by
  have positive := Nat.zero_lt_of_lt inside
  have slices : seqSlices sp tokenDim positionIds =
      (List.range sp).map (fun j => shard tokenDim m j positionIds) := by
    apply List.map_congr_left
    intro j _
    exact sliceInputTensor_even positive positions j
  have shapes : ∀ j < sp,
    (shard tokenDim m j positionIds).shape = Function.update positionIds.shape tokenDim m :=
    fun j below => shape_shard positions below
  rw [slices, sliceInputTensor_even positive positions,
    received_same shapes (shapes rank inside), ok_bind, cat_pieces positive shapes,
    joined_shards positions]

/-- The patched attention forward on the ranks is a slice of the attention over the whole
sequence. -/
theorem ulyssesFlashAttentionForward_slices
    (headwise : Headwise (fun q k v => flash q k v (some positionIds)) nheadsDim nheadsDim groups)
    (keyHeads : key.shape nheadsDim = sp * kvHeads)
    (valueHeads : value.shape nheadsDim = sp * kvHeads)
    (queryHeads : query.shape nheadsDim = sp * (groups * kvHeads))
    (queryLength : query.shape seqlenDim = sp * m)
    (keyLength : key.shape seqlenDim = sp * m) (valueLength : value.shape seqlenDim = sp * m)
    (positions : positionIds.shape tokenDim = sp * m) {rank : Nat} (inside : rank < sp) :
    ulyssesFlashAttentionForward flash true (slicedInputs sp query key value positionIds) rank =
      .ok (sliceInputTensor sp rank (flash query key value (some positionIds)) seqlenDim true) := by
  have size : (slicedInputs sp query key value positionIds).query.length = sp := length_seqSlices
  rw [ulyssesFlashAttentionForward, if_pos rfl, size]
  by_cases several : sp > 1
  · have other : nheadsDim ≠ seqlenDim := by decide
    have even : ∀ {x : Tensor 4 α}, x.shape seqlenDim = sp * m →
        Unpads sp 0 (x.shape seqlenDim) := by
      intro x length
      exact .inr ⟨rfl, by rw [length, Nat.mul_mod_right]⟩
    have whole := attendExchanged_slices headwise other other keyHeads valueHeads queryHeads
      (even queryLength) (even keyLength)
      (even valueLength) inside
    rw [attendExchanged, length_seqSlices] at whole
    have given : (slicedInputs sp query key value positionIds).positionIds.mapM requirePositionIds =
        .ok (seqSlices sp tokenDim positionIds) := by
      rw [slicedInputs, List.mapM_map]
      exact (mapM_ok _ id _ (fun _ _ => rfl)).trans (congrArg Except.ok (List.map_id _))
    have attended : ∀ j ∈ List.range sp,
      attendOnRank flash true (slicedInputs sp query key value positionIds) sp j = (do
        let queryStates ← gatherSeqScatterHeads true (seqSlices sp seqlenDim query) j
          seqlenDim nheadsDim 0
        let keyStates ← gatherSeqScatterHeads true (seqSlices sp seqlenDim key) j
          seqlenDim nheadsDim 0
        let valueStates ← gatherSeqScatterHeads true (seqSlices sp seqlenDim value) j
          seqlenDim nheadsDim 0
        return flash queryStates keyStates valueStates (some positionIds)) := by
      intro j member
      have here := List.mem_range.mp member
      obtain ⟨positionIdsList, filled, joint⟩ := bind_ok_iff.mp (cat_positionIds positions here)
      simp only [attendOnRank, if_pos several, given, ok_bind, pyGet_seqSlices here, filled, joint]
      rfl
    rw [if_pos several, mapM_congr attended]
    exact whole
  · have single : sp = 1 := by omega
    subst single
    have first : rank = 0 := by omega
    subst first
    have pyGet_slice : ∀ {r : Nat} {β : Type} [Zero β] {d : Fin r} {x : Tensor r β},
        pyGet (seqSlices 1 d x) 0 = .ok x := by
      intro r β _ d x
      rw [pyGet_seqSlices Nat.one_pos, sliceInputTensor_one]
    have own : pyGet ((seqSlices 1 tokenDim positionIds).map some) 0 = .ok (some positionIds) := by
      rw [seqSlices, List.range_one, List.map_singleton, sliceInputTensor_one]
      rfl
    rw [if_neg several, attendOnRank, if_neg several, sliceInputTensor_one]
    simp only [slicedInputs, pyGet_slice, own, ok_bind, pure_eq_ok]

end Patched

section RoundTrips

theorem exchanges_cancel {sp k unpaddedDimSize : Nat} {full : Tensor r α} {seqDim headDim : Fin r}
    (other : headDim ≠ seqDim)
    (heads : full.shape headDim = sp * k) (unpads : Unpads sp unpaddedDimSize (full.shape seqDim)) :
    ∃ outs : Nat → Tensor r α,
      (∀ rank < sp, gatherSeqScatterHeads true (seqSlices sp seqDim full) rank seqDim headDim
        unpaddedDimSize = .ok (outs rank)) ∧
      ∀ rank < sp, gatherHeadsScatterSeq true ((List.range sp).map outs) rank headDim seqDim =
        .ok (sliceInputTensor sp rank full seqDim true) :=
  ⟨fun rank => shard headDim k rank full, fun _ inside =>
    gatherSeqScatterHeads_slices other heads unpads inside, fun _ inside =>
      gatherHeadsScatterSeq_shards other heads inside⟩

/-- Slices that do not come from one tensor are given back as they are. -/
theorem exchanges_cancel_pieces {sp k : Nat} {shape : Fin r → Nat} {pieces : Nat → Tensor r α}
    {seqDim headDim : Fin r} (positive : 0 < sp) (other : headDim ≠ seqDim)
    (same : ∀ j < sp, (pieces j).shape = shape) (heads : shape headDim = sp * k) :
    ∃ outs : Nat → Tensor r α,
      (∀ rank < sp, gatherSeqScatterHeads true ((List.range sp).map pieces) rank seqDim headDim 0 =
        .ok (outs rank)) ∧
      ∀ rank < sp, gatherHeadsScatterSeq true ((List.range sp).map outs) rank headDim seqDim =
        .ok (pieces rank) := by
  have whole : (joined seqDim sp shape pieces).shape seqDim = sp * shape seqDim := by simp [joined]
  have unpads : Unpads sp 0 ((joined seqDim sp shape pieces).shape seqDim) :=
    .inr ⟨rfl, by rw [whole, Nat.mul_mod_right]⟩
  obtain ⟨outs, there, back⟩ :=
    exchanges_cancel other ((shape_joined_of_ne other).trans heads) unpads
  rw [seqSlices_joined positive same] at there
  refine ⟨outs, there, ?_⟩
  intro rank inside
  rw [back rank inside, sliceInputTensor_even positive whole, shard_joined same inside]

/-- `SeqAllToAll.backward` after `forward`, and `forward` after `backward`, give the ranks their
tensors back. -/
def BackwardInverts (sp : Nat) (scatterDim gatherDim : Fin r) (pieces : Nat → Tensor r α) : Prop :=
  ∃ (outs : Nat → Tensor r α) (ctx : SeqAllToAllCtx r),
    (∀ rank < sp, SeqAllToAll.forward ((List.range sp).map pieces) rank scatterDim gatherDim =
    .ok (outs rank, ctx)) ∧
    (∀ rank < sp, SeqAllToAll.backward ctx ((List.range sp).map outs) rank = .ok (pieces rank)) ∧
    ∀ grads : Nat → Tensor r α, (∀ rank < sp, (grads rank).shape = (outs 0).shape) →
      ∃ ins : Nat → Tensor r α,
        (∀ rank < sp, SeqAllToAll.backward ctx ((List.range sp).map grads) rank = .ok (ins rank)) ∧
        ∀ rank < sp, SeqAllToAll.forward ((List.range sp).map ins) rank scatterDim gatherDim =
          .ok (grads rank, ctx)

theorem backward_inverts {sp k : Nat} {shape : Fin r → Nat} {pieces : Nat → Tensor r α}
    {scatterDim gatherDim : Fin r} (other : scatterDim ≠ gatherDim)
    (same : ∀ j < sp, (pieces j).shape = shape) (scatter : shape scatterDim = sp * k) :
    BackwardInverts sp scatterDim gatherDim pieces := by
  obtain ⟨outs, size, there, back⟩ := allToAllTensor_inverse other same scatter
  refine ⟨outs, ⟨scatterDim, gatherDim⟩, ?_, back, ?_⟩
  · intro rank inside
    rw [SeqAllToAll.forward, there rank inside]
    rfl
  · intro grads shapes
    obtain ⟨ins, -, backward, forward⟩ := allToAllTensor_inverse (Ne.symm other) shapes (size 0)
    refine ⟨ins, backward, ?_⟩
    intro rank inside
    rw [SeqAllToAll.forward, forward rank inside]
    rfl

/-- Attention between the two exchanges: on each rank the slice of the attention over the whole
sequence. The second exchange undoes the first, and the backward pass of an exchange undoes its
forward pass. -/
theorem ulysses_exchange {attention : Tensor r α → Tensor r α → Tensor r α → Tensor s α}
    {seqIn headIn : Fin r} {seqOut headOut : Fin s} {sp groups kvHeads unpaddedDimSize : Nat}
    {query key value : Tensor r α} (positive : 0 < sp) (otherIn : headIn ≠ seqIn)
    (otherOut : headOut ≠ seqOut) (headwise : Headwise attention headIn headOut groups)
    (queryHeads : query.shape headIn = sp * (groups * kvHeads))
    (keyHeads : key.shape headIn = sp * kvHeads) (valueHeads : value.shape headIn = sp * kvHeads)
    (queryUnpads : Unpads sp unpaddedDimSize (query.shape seqIn))
    (keyUnpads : Unpads sp unpaddedDimSize (key.shape seqIn))
    (valueUnpads : Unpads sp unpaddedDimSize (value.shape seqIn)) :
    (∀ rank < sp, attendExchanged attention seqIn headIn seqOut headOut unpaddedDimSize
      (seqSlices sp seqIn query) (seqSlices sp seqIn key)
      (seqSlices sp seqIn value) rank =
        .ok (sliceInputTensor sp rank (attention query key value) seqOut true)) ∧
    (∃ outs : Nat → Tensor r α,
      (∀ rank < sp, gatherSeqScatterHeads true (seqSlices sp seqIn query) rank seqIn headIn
        unpaddedDimSize = .ok (outs rank)) ∧
      ∀ rank < sp, gatherHeadsScatterSeq true ((List.range sp).map outs) rank headIn seqIn =
        .ok (sliceInputTensor sp rank query seqIn true)) ∧
    (∀ (pieces : Nat → Tensor r α) (shape : Fin r → Nat) (k : Nat),
      (∀ j < sp, (pieces j).shape = shape) → shape headIn = sp * k → ∃ outs : Nat → Tensor r α,
        (∀ rank < sp, gatherSeqScatterHeads true ((List.range sp).map pieces) rank seqIn headIn 0 =
          .ok (outs rank)) ∧
        ∀ rank < sp, gatherHeadsScatterSeq true ((List.range sp).map outs) rank headIn seqIn =
          .ok (pieces rank)) ∧
    (∀ (pieces : Nat → Tensor r α) (shape : Fin r → Nat) (k : Nat) (scatterDim gatherDim : Fin r),
      scatterDim ≠ gatherDim →
      (∀ j < sp, (pieces j).shape = shape) → shape scatterDim = sp * k →
        BackwardInverts sp scatterDim gatherDim pieces) ∧
    ∀ (flash : Tensor 4 α → Tensor 4 α → Tensor 4 α → Option (Tensor 2 Nat) → Tensor 4 α) (positionIds : Tensor 2 Nat)
      (query key value : Tensor 4 α) (m : Nat), Headwise
        (fun q k v => flash q k v (some positionIds)) nheadsDim nheadsDim groups →
      query.shape nheadsDim = sp * (groups * kvHeads) → key.shape nheadsDim = sp * kvHeads →
        value.shape nheadsDim = sp * kvHeads →
      query.shape seqlenDim = sp * m → key.shape seqlenDim = sp * m →
        value.shape seqlenDim = sp * m →
      positionIds.shape tokenDim = sp * m → ∀ rank < sp,
      ulyssesFlashAttentionForward flash true (slicedInputs sp query key value positionIds) rank =
        .ok (sliceInputTensor sp rank (flash query key value (some positionIds))
          seqlenDim true) := by
  refine ⟨?_, exchanges_cancel otherIn queryHeads queryUnpads, ?_, ?_, ?_⟩
  · intro rank inside
    exact attendExchanged_slices headwise otherIn otherOut keyHeads valueHeads queryHeads
      queryUnpads keyUnpads valueUnpads inside
  · intro pieces shape k same heads
    exact exchanges_cancel_pieces positive otherIn same heads
  · intro pieces shape k scatterDim gatherDim other same scatter
    exact backward_inverts other same scatter
  · intro flash positionIds query key value m headwise queryHeads keyHeads valueHeads queryLength
      keyLength valueLength positions rank inside
    exact ulyssesFlashAttentionForward_slices headwise keyHeads valueHeads queryHeads queryLength
      keyLength valueLength positions inside

/-- A function that mixes the tokens of each head: the query times the sum of the products of keys
and values. -/
def mixTokens (query key value : Tensor 2 Nat) : Tensor 2 Nat :=
  make query.shape (fun i => query.entry i * ((List.range (key.shape batchDim)).map (fun t =>
    key.entry (Function.update i batchDim t) * value.entry (Function.update i batchDim t))).sum)

theorem entry_mixTokens {q k v : Tensor 2 Nat} {i : Fin 2 → Nat} (inside : Inside q.shape i) :
    (mixTokens q k v).entry i = q.entry i * ((List.range (k.shape batchDim)).map (fun t =>
      k.entry (Function.update i batchDim t) * v.entry (Function.update i batchDim t))).sum :=
  entry_make inside

theorem mixTokens_headwise : Headwise mixTokens tokenDim tokenDim 1 := by
  have other : batchDim ≠ tokenDim := by decide
  refine ⟨fun _ _ => rfl, fun same _ _ => same, mixTokens, ?_⟩
  intro q k v heads same h below
  rw [Nat.one_mul] at heads
  rw [Nat.div_one]
  apply eq_of_entries
  · rfl
  · intro i inside
    have single : i tokenDim < min (h + 1) (q.shape tokenDim) - h := inside_self inside
    have place : Inside q.shape (Function.update i tokenDim (h + i tokenDim)) := by
      have put : Inside (Function.update q.shape tokenDim (q.shape tokenDim))
        (Function.update i tokenDim (h + i tokenDim)) :=
        inside_put (inside_off inside) (by omega)
      rwa [Function.update_eq_self] at put
    have entry : ∀ {x : Tensor 2 Nat}, x.shape tokenDim = q.shape tokenDim → ∀ j : Fin 2 → Nat,
      j tokenDim = i tokenDim →
        (narrow tokenDim h (h + 1) x).entry j =
          x.entry (Function.update j tokenDim (h + i tokenDim)) := by
      intro x size j here
      rw [entry_narrow (by rw [here, size]; exact single), here]
    have products : ∀ t, (narrow tokenDim h (h + 1) k).entry (Function.update i batchDim t) *
        (narrow tokenDim h (h + 1) v).entry (Function.update i batchDim t) =
        k.entry (Function.update (Function.update i tokenDim (h + i tokenDim)) batchDim t) *
          v.entry (Function.update (Function.update i tokenDim (h + i tokenDim)) batchDim t) := by
      intro t
      have away : (Function.update i batchDim t) tokenDim = i tokenDim :=
        Function.update_of_ne (Ne.symm other) _ _
      rw [entry heads.symm _ away, entry (same.trans heads.symm) _ away, Function.update_comm other]
    have mixed : (mixTokens q k v).shape tokenDim = q.shape tokenDim := rfl
    have own : Inside (narrow tokenDim h (h + 1) q).shape i := inside
    rw [entry mixed i rfl, entry_mixTokens place, entry_mixTokens own, entry rfl i rfl,
      shape_narrow_of_ne other]
    simp only [products]

def threeByTwo : Tensor 2 Nat := make ![3, 2] (fun i => 10 * i batchDim + i tokenDim)

theorem ulysses_exchange_threeByTwo :
    (∀ rank < 2, attendExchanged mixTokens batchDim tokenDim batchDim tokenDim 3
      (seqSlices 2 batchDim threeByTwo)
      (seqSlices 2 batchDim threeByTwo) (seqSlices 2 batchDim threeByTwo) rank =
        .ok (sliceInputTensor 2 rank (mixTokens threeByTwo threeByTwo threeByTwo) batchDim true)) ∧
    ∃ outs : Nat → Tensor 2 Nat,
      (∀ rank < 2, gatherSeqScatterHeads true (seqSlices 2 batchDim threeByTwo) rank batchDim
        tokenDim 3 = .ok (outs rank)) ∧
      ∀ rank < 2, gatherHeadsScatterSeq true ((List.range 2).map outs) rank tokenDim batchDim =
        .ok (sliceInputTensor 2 rank threeByTwo batchDim true) := by
  have heads : threeByTwo.shape tokenDim = 2 * 1 := rfl
  have unpads : Unpads 2 3 (threeByTwo.shape batchDim) := .inl rfl
  have other : tokenDim ≠ batchDim := by decide
  obtain ⟨attended, cancelled, -⟩ :=
    ulysses_exchange Nat.two_pos other other mixTokens_headwise heads heads heads
      unpads unpads unpads
  exact ⟨attended, cancelled⟩

end RoundTrips

end Verl.Ulysses
