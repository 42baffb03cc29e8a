import Mathlib.Algebra.GroupWithZero.NeZero
import Mathlib.Algebra.Ring.Int.Defs
import Verl.SeqlenBalancing.MicroBatches

/-! The two forward passes that cut a batch into micro batches, run the module on
each, concatenate and put the rows back: `DataParallelPPOActor.compute_log_prob`
and `DataParallelPPOCritic.compute_values`. The module is a parameter. -/
namespace Verl.Workers
open SeqlenBalancing

structure MetaInfo where
  microBatchSize : Nat
  useDynamicBsz : Bool
  maxTokenLen : Nat

structure Data (α : Type) extends TokenBatch α where
  responseLength : Nat
  hasMultiModalInputs : Bool

variable {α β : Type}

def splitRows (size : Nat) (rows : List β) : Py (List (List β)) :=
  if size = 0 then .error (.runtime "split_size") else .ok (split size rows)

def chunkRows (chunks : Nat) (rows : List β) : Py (List (List β)) := do
  let n := rows.length
  let remainder ← pyMod n chunks
  pyAssert (remainder == 0)
    s!"only support equal chunk. Got size of DataProto {n} and chunk {chunks}."
  return blocks (n / chunks) chunks rows

/-- The three ways to cut the batch. `indices` is bound on the second only. -/
def microBatches (sp : Nat) (peers : Peers) (data : Data α) (info : MetaInfo) :
    Py (List (List (Row α)) × Option (List (List Nat))) := do
  if data.hasMultiModalInputs then
    let numMicroBatches ← pyFloorDiv data.rows.length info.microBatchSize
    let micro ← chunkRows numMicroBatches data.rows
    return (micro, none)
  else if info.useDynamicBsz then
    let (micro, indices) ← rearrangeMicroBatches data.toTokenBatch (info.maxTokenLen * sp) peers
    return (micro, some indices)
  else
    let micro ← splitRows info.microBatchSize data.rows
    return (micro, none)

/-- `values[torch.tensor(get_reverse_idx(indices))]`, on the dynamic path. -/
def revert (data : Data α) (info : MetaInfo) (indices : Option (List (List Nat)))
    (values : List β) :
    Py (List β) :=
  if info.useDynamicBsz then
    match indices with
    | none => .error (.unboundLocal "indices")
    | some indices => do
      let count := indices.flatten.length
      let n := values.length
      let width := data.responseLength
      pyAssert (count == n) s!"{count} vs. torch.Size([{n}, {width}])"
      let revertIndices ← getReverseIdx indices.flatten
      takeRows values revertIndices
  else .ok values

/-- `DataParallelPPOActor.compute_log_prob`, over the forward pass at the given temperature. -/
def computeLogProb (sp : Nat) (peers : Peers) (forwardMicroBatch : List (Row α) → List β)
    (data : Data α) (info : MetaInfo) : Py (List β) := do
  let (micro, indices) ← microBatches sp peers data info
  let logProbs := micro.flatMap forwardMicroBatch
  revert data info indices logProbs

def responseWindow (responseLength : Nat) (xs : List β) : List β :=
  slice (xs.length - (responseLength + 1)) (xs.length - 1) xs

section Critic

variable {K : Type} [MulZeroOneClass K]

def maskValue (b : Bool) : K := if b then 1 else 0

/-- `_forward_micro_batch` of a critic whose value at position `t` of a row depends on that row. -/
def forwardValues (critic : Row α → Nat → K) (responseLength : Nat) (micro : List (Row α)) :
    List (List K) :=
  micro.map (fun row => responseWindow responseLength
    ((List.range row.attentionMask.length).map (critic row)))

def mulMask (values : List (List K)) (masks : List (List Bool)) : List (List K) :=
  List.zipWith (List.zipWith (fun v b => v * maskValue b)) values masks

def responseMasks (data : Data α) : List (List Bool) :=
  data.rows.map (fun row => responseWindow data.responseLength row.attentionMask)

/-- `DataParallelPPOCritic.compute_values`. The mask is that of `data.batch`, in batch order. -/
def computeValues (sp : Nat) (peers : Peers) (critic : Row α → Nat → K) (data : Data α)
    (info : MetaInfo) : Py (List (List K)) := do
  let (micro, indices) ← microBatches sp peers data info
  let values := micro.flatMap (forwardValues critic data.responseLength)
  revert data info indices (mulMask values (responseMasks data))

def maskedValues (critic : Row α → Nat → K) (data : Data α) : List (List K) :=
  mulMask (forwardValues critic data.responseLength data.rows) (responseMasks data)

end Critic

theorem flatMap_map_flatten {γ : Type} (f : β → γ) (xss : List (List β)) :
    xss.flatMap (fun xs => xs.map f) = xss.flatten.map f := by
  simp [List.flatMap_def, List.map_flatten]

theorem microBatches_static (sp : Nat) (peers : Peers) (data : Data α) (info : MetaInfo)
    (text : data.hasMultiModalInputs = false) (fixed : info.useDynamicBsz = false)
    (positive : 0 < info.microBatchSize) :
    ∃ micro, microBatches sp peers data info = .ok (micro, none) ∧ micro.flatten = data.rows :=
  ⟨split info.microBatchSize data.rows,
    by simp [microBatches, text, fixed, splitRows, Nat.pos_iff_ne_zero.mp positive],
    flatten_split positive data.rows⟩

theorem microBatches_dynamic {sp : Nat} {peers : Peers} {data : Data α} {info : MetaInfo}
    (text : data.hasMultiModalInputs = false) (dynamic : info.useDynamicBsz = true)
    {micro : List (List (Row α))} {indices : List (List Nat)}
    (returned : rearrangeMicroBatches data.toTokenBatch (info.maxTokenLen * sp) peers =
      .ok (micro, indices)) :
    microBatches sp peers data info = .ok (micro, some indices) := by
  simp [microBatches, text, dynamic, returned]

/-- The multi-modal path binds no `indices`, so reverting raises there. -/
theorem microBatches_multiModal {sp : Nat} {peers : Peers} {data : Data α} {info : MetaInfo}
    (multi : data.hasMultiModalInputs = true) {micro : List (List (Row α))}
    {indices : Option (List (List Nat))}
    (cut : microBatches sp peers data info = .ok (micro, indices)) : indices = none := by
  simp only [microBatches, multi, if_true, bind_ok_iff, pure_eq_ok, Except.ok.injEq,
    Prod.mk.injEq] at cut
  obtain ⟨_, _, _, _, _, h⟩ := cut
  exact h.symm

theorem revert_perm {data : Data α} {info : MetaInfo} (dynamic : info.useDynamicBsz = true)
    {indices : List (List Nat)} {n : Nat} (perm : indices.flatten.Perm (List.range n))
    {rev : List Nat} (hrev : getReverseIdx indices.flatten = .ok rev)
    (order : rev.Perm (List.range n)) {values : List β} (length : values.length = n) :
    revert data info (some indices) values = .ok (pick values rev) := by
  have count : indices.flatten.length = n := perm_length perm
  simp only [revert, dynamic, if_true, count, length, beq_self_eq_true, pyAssert_true,
    ok_bind, hrev]
  exact takeRows_perm order length

/-- Splitting dynamically, applying a row-wise function and reverting is applying
the function to the rows in batch order, as the static split does. -/
theorem dynamic_row_order (sp : Nat) (peers : Peers) (g : Row α → β) (data : Data α)
    (text : data.hasMultiModalInputs = false) (maxTokenLen : Nat) :
    (∀ micro indices,
      rearrangeMicroBatches data.toTokenBatch (maxTokenLen * sp) peers = .ok (micro, indices) →
      (∃ rev, getReverseIdx indices.flatten = .ok rev ∧
        pick rev indices.flatten = List.range data.rows.length ∧
        pick indices.flatten rev = List.range data.rows.length ∧
        takeRows (micro.flatMap (fun rows => rows.map g)) rev = .ok (data.rows.map g)) ∧
      ∀ unused size, 0 < size →
        computeLogProb sp peers (fun rows => rows.map g) data ⟨unused, true, maxTokenLen⟩ =
          .ok (data.rows.map g) ∧
        computeLogProb sp peers (fun rows => rows.map g) data ⟨size, false, maxTokenLen⟩ =
          .ok (data.rows.map g)) ∧
    (data.maxSeqLen ≤ maxTokenLen * sp → 1 ≤ data.seqLens.sum → peers.Within data.rows.length →
      ∃ micro indices,
        rearrangeMicroBatches data.toTokenBatch (maxTokenLen * sp) peers =
          .ok (micro, indices)) := by
  refine ⟨?_, rearrangeMicroBatches_total data.toTokenBatch _ peers⟩
  intro micro indices returned
  obtain ⟨_, perm, rows⟩ := rearrangeMicroBatches_ok returned
  obtain ⟨rev, hrev, order, left, right⟩ := scatter_spec perm
  have mapped : micro.flatMap (fun rows => rows.map g) =
      pick (data.rows.map g) indices.flatten := by
    rw [flatMap_map_flatten, rows, pick_map]
  have length : (pick (data.rows.map g) indices.flatten).length = data.rows.length := by
    rw [length_pick (by simpa using perm_inside perm), perm_length perm]
  have back : pick (pick (data.rows.map g) indices.flatten) rev = data.rows.map g := by
    have whole := pick_range (data.rows.map g)
    rw [List.length_map] at whole
    rw [pick_pick (by simpa using perm_inside perm), right, whole]
  refine ⟨⟨rev, hrev, left, right, ?_⟩, ?_⟩
  · rw [mapped, takeRows_perm order length, back]
  · intro unused size positive
    constructor
    · rw [computeLogProb, microBatches_dynamic text rfl returned]
      simp only [ok_bind, mapped]
      rw [revert_perm rfl perm hrev order length, back]
    · obtain ⟨pieces, cut, whole⟩ :=
        microBatches_static sp peers data ⟨size, false, maxTokenLen⟩ text rfl positive
      rw [computeLogProb, cut]
      simp only [ok_bind, flatMap_map_flatten, whole]
      rfl

def paddedPair : Data Nat where
  maxSeqLen := 2
  rows := [⟨[false, true], 10⟩, ⟨[true, true], 20⟩]
  rect := by decide
  responseLength := 1
  hasMultiModalInputs := false

theorem dynamic_row_order_paddedPair :
    computeLogProb 1 none (fun rows => rows.map Row.cells) paddedPair ⟨1, true, 2⟩ = .ok [10, 20] :=
  (((dynamic_row_order 1 none Row.cells paddedPair rfl 2).1
    [[⟨[true, true], 20⟩], [⟨[false, true], 10⟩]] [[1], [0]] (by decide)).2 1 1 (by decide)).1

section Critic

variable {K : Type} [MulZeroOneClass K]

theorem responseWindow_map {γ : Type} (f : β → γ) (responseLength : Nat) (xs : List β) :
    responseWindow responseLength (xs.map f) = (responseWindow responseLength xs).map f := by
  simp [responseWindow, slice_map]

theorem length_responseWindow {γ : Type} {xs : List β} {ys : List γ} (same : xs.length = ys.length)
    (responseLength : Nat) :
    (responseWindow responseLength xs).length = (responseWindow responseLength ys).length := by
  simp [responseWindow, slice, same]

theorem zipWith_right {γ δ : Type} (f : γ → δ) (xs : List β) (ys : List γ)
    (same : xs.length = ys.length) : List.zipWith (fun _ y => f y) xs ys = ys.map f := by
  induction xs generalizing ys with
  | nil => cases ys <;> simp_all
  | cons x xs ih =>
    cases ys with
    | nil => simp at same
    | cons y ys => simp [ih ys (by simpa using same)]

theorem maskValue_injective [Nontrivial K] : Function.Injective (maskValue : Bool → K) := by
  intro a b h
  cases a <;> cases b <;> simp_all [maskValue]

theorem mulMask_one (data : Data α) (masks : List (List Bool))
    (count : masks.length = data.rows.length) (each : ∀ m ∈ masks, ∃ row ∈ data.rows,
      m.length = (responseWindow data.responseLength row.attentionMask).length) :
    mulMask (forwardValues (fun _ _ => (1 : K)) data.responseLength data.rows) masks =
      masks.map (fun m => m.map maskValue) := by
  apply List.ext_getElem
  · simp [mulMask, forwardValues, count]
  · intro i hi _
    have him : i < masks.length := by simp [mulMask, forwardValues] at hi; omega
    have hir : i < data.rows.length := count ▸ him
    obtain ⟨row, hrow, hlen⟩ := each masks[i] (List.getElem_mem him)
    have width : (responseWindow data.responseLength
        (List.range data.rows[i].attentionMask.length)).length = masks[i].length := by
      rw [hlen]
      apply length_responseWindow
      rw [List.length_range, data.rect _ (List.getElem_mem hir), data.rect _ hrow]
    simp only [mulMask, forwardValues, List.getElem_zipWith, List.getElem_map, responseWindow_map,
      List.zipWith_map_left, one_mul]
    exact zipWith_right maskValue _ _ width

/-- What the dynamic path returns on a text batch: the values are back in batch
order, but the masks they were multiplied by are read through the same table. -/
theorem computeValues_dynamic {sp : Nat} {peers : Peers} (critic : Row α → Nat → K) {data : Data α}
    (info : MetaInfo) (text : data.hasMultiModalInputs = false)
    (dynamic : info.useDynamicBsz = true)
    {micro : List (List (Row α))} {indices : List (List Nat)}
    (returned : rearrangeMicroBatches data.toTokenBatch (info.maxTokenLen * sp) peers =
      .ok (micro, indices)) :
    ∃ rev : List Nat, rev.Perm (List.range data.rows.length) ∧
      pick rev indices.flatten = List.range data.rows.length ∧
      pick indices.flatten rev = List.range data.rows.length ∧
      computeValues sp peers critic data info =
        .ok (mulMask (forwardValues critic data.responseLength data.rows)
          (pick (responseMasks data) rev)) := by
  obtain ⟨_, perm, rows⟩ := rearrangeMicroBatches_ok returned
  obtain ⟨rev, hrev, order, left, right⟩ := scatter_spec perm
  refine ⟨rev, order, left, right, ?_⟩
  have values : micro.flatMap (forwardValues critic data.responseLength) =
      pick (forwardValues critic data.responseLength data.rows) indices.flatten := by
    unfold forwardValues
    rw [flatMap_map_flatten, rows, pick_map]
  have inside : ∀ i ∈ indices.flatten,
      i < (forwardValues critic data.responseLength data.rows).length := by
    simpa [forwardValues] using perm_inside perm
  have length : (pick (forwardValues critic data.responseLength data.rows) indices.flatten).length =
      (responseMasks data).length := by
    rw [length_pick inside, perm_length perm]
    simp [responseMasks]
  have back : pick (pick (forwardValues critic data.responseLength data.rows) indices.flatten) rev =
      forwardValues critic data.responseLength data.rows := by
    have whole := pick_range (forwardValues critic data.responseLength data.rows)
    rw [pick_pick inside, right]
    simpa [forwardValues] using whole
  rw [computeValues, microBatches_dynamic text dynamic returned]
  simp only [ok_bind, values]
  rw [revert_perm dynamic perm hrev order (by simp [mulMask, length, responseMasks]), mulMask,
    pick_zipWith _ length, back]
  rfl

theorem computeValues_static (sp : Nat) (peers : Peers) (critic : Row α → Nat → K) (data : Data α)
    (text : data.hasMultiModalInputs = false) (maxTokenLen size : Nat) (positive : 0 < size) :
    computeValues sp peers critic data ⟨size, false, maxTokenLen⟩ =
      .ok (maskedValues critic data) := by
  obtain ⟨pieces, cut, whole⟩ :=
    microBatches_static sp peers data ⟨size, false, maxTokenLen⟩ text rfl positive
  have values : pieces.flatMap (forwardValues critic data.responseLength) =
      forwardValues critic data.responseLength data.rows := by
    unfold forwardValues
    rw [flatMap_map_flatten, whole]
  rw [computeValues, cut]
  simp only [ok_bind, values]
  rfl

/-- The rows' response masks are the same list in the order of the micro batches. -/
def MasksAligned (sp : Nat) (peers : Peers) (data : Data α) (maxTokenLen : Nat) : Prop :=
  ∃ count partitions,
    numMicroBatches data.toTokenBatch (maxTokenLen * sp) peers = .ok count ∧
    getSeqlenBalancedPartitions data.seqLens count false = .ok partitions ∧
    pick (responseMasks data) partitions.flatten = responseMasks data

/-- Reading through a permutation or through its inverse changes the same lists. -/
theorem pick_fixed_iff {n : Nat} {p q : List Nat} (hp : p.Perm (List.range n))
    (hq : q.Perm (List.range n)) (left : pick q p = List.range n) (right : pick p q = List.range n)
    {xs : List β} (length : xs.length = n) : pick xs q = xs ↔ pick xs p = xs := by
  have whole : pick xs (List.range n) = xs := length ▸ pick_range xs
  have insideP : ∀ i ∈ p, i < xs.length := fun i hi => length ▸ perm_inside hp i hi
  have insideQ : ∀ i ∈ q, i < xs.length := fun i hi => length ▸ perm_inside hq i hi
  constructor
  · intro fixed
    have h : pick (pick xs q) p = xs := by rw [pick_pick insideQ, left, whole]
    rwa [fixed] at h
  · intro fixed
    have h : pick (pick xs p) q = xs := by rw [pick_pick insideP, right, whole]
    rwa [fixed] at h

theorem masksAligned_iff {sp : Nat} {peers : Peers} {data : Data α} {maxTokenLen : Nat}
    {micro : List (List (Row α))} {indices : List (List Nat)}
    (returned : rearrangeMicroBatches data.toTokenBatch (maxTokenLen * sp) peers =
      .ok (micro, indices)) :
    MasksAligned sp peers data maxTokenLen ↔
      pick (responseMasks data) indices.flatten = responseMasks data := by
  obtain ⟨⟨count, hcount, hparts⟩, -, -⟩ := rearrangeMicroBatches_ok returned
  constructor
  · rintro ⟨c, partitions, hc, hp, h⟩
    rw [hcount] at hc
    cases Except.ok.inj hc
    rw [hparts] at hp
    cases Except.ok.inj hp
    exact h
  · exact fun h => ⟨count, indices, hcount, hparts, h⟩

theorem text_of_dynamic_values {sp : Nat} {peers : Peers} {critic : Row α → Nat → K} {data : Data α}
    {unused maxTokenLen : Nat} {values : List (List K)}
    (run : computeValues sp peers critic data ⟨unused, true, maxTokenLen⟩ = .ok values) :
    data.hasMultiModalInputs = false := by
  by_contra multi
  simp only [computeValues, bind_ok_iff] at run
  obtain ⟨⟨pieces, unbound⟩, cut, back⟩ := run
  cases microBatches_multiModal (by simpa using multi) cut
  simp [revert] at back

theorem pick_responseMasks_of_ones [Nontrivial K] {data : Data α} {order : List Nat}
    (perm : order.Perm (List.range data.rows.length))
    (same : maskedValues (fun _ _ => (1 : K)) data =
      mulMask (forwardValues (fun _ _ => (1 : K)) data.responseLength data.rows)
        (pick (responseMasks data) order)) :
    pick (responseMasks data) order = responseMasks data := by
  have masks : (responseMasks data).length = data.rows.length := by simp [responseMasks]
  have own : ∀ m ∈ responseMasks data, ∃ row ∈ data.rows,
      m.length = (responseWindow data.responseLength row.attentionMask).length := by
    intro m hm
    obtain ⟨row, hrow, rfl⟩ := List.mem_map.mp hm
    exact ⟨row, hrow, rfl⟩
  have read := pick_perm perm masks
  rw [maskedValues, mulMask_one data _ masks own,
    mulMask_one data _ (read.length_eq.trans masks)
    (fun m hm => own m (read.mem_iff.mp hm))] at same
  exact (List.map_injective_iff.mpr (List.map_injective_iff.mpr (maskValue_injective (K := K)))
    same).symm

/-- The dynamic path of `compute_values` agrees with the static one, for every
critic, exactly when the batch is text only and the response masks are aligned. -/
theorem dynamic_values_iff [Nontrivial K] (sp : Nat) (peers : Peers) (data : Data α)
    (maxTokenLen : Nat) (wide : data.maxSeqLen ≤ maxTokenLen * sp) (valid : 1 ≤ data.seqLens.sum)
    (within : peers.Within data.rows.length) :
    (∀ (critic : Row α → Nat → K) (unused size : Nat), 0 < size →
      computeValues sp peers critic data ⟨unused, true, maxTokenLen⟩ =
        .ok (maskedValues critic data) ∧
      computeValues sp peers critic data ⟨size, false, maxTokenLen⟩ =
        .ok (maskedValues critic data)) ↔
    data.hasMultiModalInputs = false ∧ MasksAligned sp peers data maxTokenLen := by
  obtain ⟨micro, indices, returned⟩ :=
    rearrangeMicroBatches_total data.toTokenBatch (maxTokenLen * sp) peers wide valid within
  obtain ⟨-, perm, -⟩ := rearrangeMicroBatches_ok returned
  have masks : (responseMasks data).length = data.rows.length := by simp [responseMasks]
  rw [masksAligned_iff returned]
  constructor
  · intro agrees
    have ones := (agrees (fun _ _ => 1) 0 1 (by decide)).1
    have text := text_of_dynamic_values ones
    refine ⟨text, ?_⟩
    obtain ⟨rev, order, left, right, dynamic⟩ :=
      computeValues_dynamic (fun _ _ => (1 : K)) ⟨0, true, maxTokenLen⟩ text rfl returned
    rw [ones] at dynamic
    exact (pick_fixed_iff perm order left right masks).mp
      (pick_responseMasks_of_ones order (Except.ok.inj dynamic))
  · rintro ⟨text, fixed⟩ critic unused size positive
    refine ⟨?_, computeValues_static sp peers critic data text maxTokenLen size positive⟩
    obtain ⟨rev, order, left, right, dynamic⟩ :=
      computeValues_dynamic critic ⟨unused, true, maxTokenLen⟩ text rfl returned
    rw [dynamic, (pick_fixed_iff perm order left right masks).mpr fixed]
    rfl

def sameMasks : Data Nat where
  maxSeqLen := 3
  rows := [⟨[false, true, true], 10⟩, ⟨[true, true, true], 20⟩]
  rect := by decide
  responseLength := 1
  hasMultiModalInputs := false

theorem dynamic_values_sameMasks : MasksAligned 1 none sameMasks 3 ∧
    ∀ (critic : Row Nat → Nat → Int) (unused size : Nat), 0 < size →
      computeValues 1 none critic sameMasks ⟨unused, true, 3⟩ =
        .ok (maskedValues critic sameMasks) ∧
      computeValues 1 none critic sameMasks ⟨size, false, 3⟩ =
        .ok (maskedValues critic sameMasks) := by
  have aligned : MasksAligned 1 none sameMasks 3 := ⟨2, [[1], [0]], by decide, by decide, by decide⟩
  exact ⟨aligned, (dynamic_values_iff 1 none sameMasks 3 (by decide) (by decide)
    (by simp [Peers.Within])).mpr
    ⟨rfl, aligned⟩⟩

/-- On the padded pair the longer row comes first in the micro batches, and each
row's value meets the other row's mask. -/
theorem paddedPair_values_mismatch :
    computeValues 1 none (fun _ _ => (1 : Int)) paddedPair ⟨1, true, 2⟩ = .ok [[1], [0]] ∧
    computeValues 1 none (fun _ _ => (1 : Int)) paddedPair ⟨1, false, 2⟩ = .ok [[0], [1]] ∧
    maskedValues (fun _ _ => (1 : Int)) paddedPair = [[0], [1]] := by decide

end Critic

end Verl.Workers
