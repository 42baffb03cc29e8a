import Verl.SeqlenBalancing.MicroBatches
import Verl.SeqlenBalancing.Spread

/-! Whether the micro batches of `rearrange_micro_batches` stay within `max_token_len`. Their
number is that of a perfect packing, and nothing looks at the packing that was found. -/
namespace Verl.SeqlenBalancing

variable {α : Type}

def microTokens (rows : List (Row α)) : Nat := (rows.map Row.seqLenEffective).sum

section Sums

theorem sum_slice_one (rows : List (Row α)) (i : Nat) :
    microTokens (slice i (i + 1) rows) = (rows.map Row.seqLenEffective)[i]?.getD 0 := by
  rw [List.getElem?_map]
  rcases Nat.lt_or_ge i rows.length with inside | past
  · have cut : slice i (i + 1) rows = [rows[i]] := by
      rw [slice, Nat.add_sub_cancel_left, List.drop_eq_getElem_cons inside]
      rfl
    rw [cut, List.getElem?_eq_getElem inside]
    simp [microTokens]
  · rw [List.getElem?_eq_none past, slice, List.drop_eq_nil_of_le past, List.take_nil]
    rfl

theorem microTokens_part (batch : TokenBatch α) (part : List Nat) :
    microTokens (part.flatMap (fun idx => slice idx (idx + 1) batch.rows)) =
      partitionSum batch.seqLens part := by
  induction part with
  | nil => rfl
  | cons i part ih =>
    rw [List.flatMap_cons, microTokens, List.map_append, List.sum_append]
    change microTokens (slice i (i + 1) batch.rows) +
      microTokens (part.flatMap (fun idx => slice idx (idx + 1) batch.rows)) = _
    rw [ih, sum_slice_one]
    rfl

theorem partitionSum_perm {lengths part part' : List Nat} (perm : part.Perm part') :
    partitionSum lengths part = partitionSum lengths part' := (perm.map _).sum_eq

theorem partitionSum_flatten (lengths : List Nat) (parts : List (List Nat)) :
    partitionSum lengths parts.flatten = (parts.map (partitionSum lengths)).sum := by
  induction parts with
  | nil => rfl
  | cons part parts ih =>
    rw [List.flatten_cons, partitionSum, List.map_append, List.sum_append, List.map_cons,
      List.sum_cons, ← ih]
    rfl

theorem map_getElem?_range (lengths : List Nat) :
    (List.range lengths.length).map (fun i => lengths[i]?.getD 0) = lengths := by
  apply List.ext_getElem
  · simp
  · intro i hi _
    simp at hi
    simp [hi]

theorem partitionSum_range (lengths : List Nat) :
    partitionSum lengths (List.range lengths.length) = lengths.sum := by
  rw [partitionSum, map_getElem?_range]

/-- One value is at most `gap` above each of the others, so it is not far above the mean. -/
theorem length_mul_le_of_close {xs : List Nat} {x gap : Nat} (member : x ∈ xs)
    (close : ∀ y ∈ xs, x ≤ y + gap) :
    xs.length * x ≤ xs.sum + (xs.length - 1) * gap := by
  have split := List.perm_cons_erase member
  have others : ∀ ys : List Nat, (∀ y ∈ ys, x ≤ y + gap) →
      ys.length * x ≤ ys.sum + ys.length * gap := by
    intro ys
    induction ys with
    | nil => simp
    | cons y ys ih =>
      intro close
      rw [List.forall_mem_cons] at close
      have tail := ih close.2
      rw [List.length_cons, List.sum_cons, Nat.succ_mul, Nat.succ_mul]
      omega
  have rest := others (xs.erase x) (fun y inside => close y (List.mem_of_mem_erase inside))
  rw [split.length_eq, split.sum_eq, List.length_cons, List.sum_cons, Nat.succ_mul,
    Nat.add_sub_cancel]
  omega

theorem sum_take_cons {y : Nat} {ys : List Nat} (sorted : (y :: ys).Pairwise (· ≥ ·)) (m : Nat) :
    (ys.take m).sum ≤ ((y :: ys).take m).sum := by
  induction m generalizing y ys with
  | zero => simp
  | succ m ih =>
    cases ys with
    | nil => simp
    | cons z zs =>
      have below : y ≥ z := (List.pairwise_cons.mp sorted).1 z List.mem_cons_self
      have tail := ih (List.pairwise_cons.mp sorted).2
      rw [List.take_succ_cons, List.take_succ_cons, List.sum_cons, List.sum_cons]
      omega

theorem sum_le_sum_take {xs ys : List Nat} (sub : xs.Sublist ys) (sorted : ys.Pairwise (· ≥ ·)) :
    xs.sum ≤ (ys.take xs.length).sum := by
  induction sub with
  | slnil => simp
  | @cons xs ys y sub ih =>
    exact (ih (List.pairwise_cons.mp sorted).2).trans (sum_take_cons sorted _)
  | @cons_cons xs ys y sub ih =>
    rw [List.sum_cons, List.length_cons, List.take_succ_cons, List.sum_cons]
    exact Nat.add_le_add_left (ih (List.pairwise_cons.mp sorted).2) y

def longest (lengths : List Nat) (m : Nat) : List Nat := (lengths.insertionSort (· ≥ ·)).take m

theorem sum_le_longest {xs lengths : List Nat} (sub : xs.Subperm lengths) {m : Nat}
    (few : xs.length ≤ m) :
    xs.sum ≤ (longest lengths m).sum := by
  have sorted := List.pairwise_insertionSort (· ≥ ·) lengths
  have ordered := List.pairwise_insertionSort (· ≥ ·) xs
  have inside : (xs.insertionSort (· ≥ ·)).Subperm (lengths.insertionSort (· ≥ ·)) :=
    ((List.perm_insertionSort _ xs).subperm_right.mpr sub).trans
      (List.perm_insertionSort _ lengths).symm.subperm
  have first := sum_le_sum_take (List.sublist_of_subperm_of_pairwise inside ordered sorted) sorted
  rw [(List.perm_insertionSort _ xs).sum_eq, List.length_insertionSort] at first
  refine first.trans ?_
  have more := (List.take_sublist_take_left few (l := lengths.insertionSort (· ≥ ·)))
  exact more.sum_le_sum (fun _ _ => Nat.zero_le _)

end Sums

theorem sorted_of_balanced {seqlenList : List Nat} {k : Nat} {equalSize : Bool}
    {partitions : List (List Nat)}
    (balanced : getSeqlenBalancedPartitions seqlenList k equalSize = .ok partitions) :
    ∃ raw, karmarkarKarp seqlenList k equalSize = .ok raw ∧
      partitions = raw.map (fun p => p.insertionSort (· ≤ ·)) := by
  simp only [getSeqlenBalancedPartitions, checkAndSortPartitions, bind_ok_iff, pure_eq_ok,
    Except.ok.injEq] at balanced
  obtain ⟨-, -, raw, returned, -, -, _, sorted, -, -, rfl⟩ := balanced
  refine ⟨raw, returned, ?_⟩
  have entries : ∀ e q, checkAndSort e = .ok q → e.1.insertionSort (· ≤ ·) = id q := by
    intro e q run
    simp only [checkAndSort, bind_ok_iff, pure_eq_ok, Except.ok.injEq] at run
    obtain ⟨-, -, rfl⟩ := run
    rfl
  have each := map_eq_of_forall₂ (fun e : List Nat × Nat => e.1.insertionSort (· ≤ ·)) id
    ((mapM_ok_iff.mp sorted).imp (fun e q run => entries e q run))
  rw [List.map_id] at each
  rw [← each]
  conv_rhs => rw [← List.zipIdx_map_fst 0 raw]
  rw [List.map_map]
  rfl

/-- The parts of the lengths: how many, how filled, and how far apart. -/
structure Packing (lengths : List Nat) (count : Nat) (parts : List (List Nat)) : Prop where
  length : parts.length = count
  perm : parts.flatten.Perm (List.range lengths.length)
  nonempty : ∀ part ∈ parts, part ≠ []
  close : ∀ part ∈ parts, ∀ other ∈ parts,
    partitionSum lengths part ≤ partitionSum lengths other + lengths.max?.getD 0

theorem packing_of_balanced {lengths : List Nat} {count : Nat} {parts : List (List Nat)}
    (balanced : getSeqlenBalancedPartitions lengths count false = .ok parts) :
    Packing lengths count parts := by
  obtain ⟨positive, enough⟩ := partitions_bounds balanced
  obtain ⟨s, run, flat, nonempty, -⟩ :=
    getSeqlenBalancedPartitions_spec lengths count false positive enough (by simp)
  obtain ⟨raw, returned, sorted⟩ := sorted_of_balanced balanced
  rw [balanced, Except.ok.injEq] at run
  constructor
  · rw [run, List.length_map, State.getPartitions, List.length_map, s.size]
  · rw [run]
    exact (sorted_flatten_perm s.getPartitions).trans flat
  · rw [run]
    intro part member
    obtain ⟨p, hp, rfl⟩ := List.mem_map.mp member
    intro none
    have length := List.length_insertionSort (· ≤ ·) p
    rw [none] at length
    exact nonempty p hp (List.length_eq_zero_iff.mp length.symm)
  · have spread := spread_of_initial returned (fun items member s made => within_single member made)
    rw [spreadOf_le_iff] at spread
    rw [sorted]
    intro part member other inside
    obtain ⟨p, hp, rfl⟩ := List.mem_map.mp member
    obtain ⟨q, hq, rfl⟩ := List.mem_map.mp inside
    rw [partitionSum_perm (List.perm_insertionSort _ p),
      partitionSum_perm (List.perm_insertionSort _ q)]
    exact spread _ (List.mem_map_of_mem hp) _ (List.mem_map_of_mem hq)

namespace Packing

variable {lengths : List Nat} {count : Nat} {parts : List (List Nat)}

theorem sum_eq (packing : Packing lengths count parts) :
    (parts.map (partitionSum lengths)).sum = lengths.sum := by
  rw [← partitionSum_flatten, partitionSum_perm packing.perm, partitionSum_range]

theorem mul_le (packing : Packing lengths count parts) {part : List Nat} (member : part ∈ parts) :
    count * partitionSum lengths part ≤ lengths.sum + (count - 1) * lengths.max?.getD 0 := by
  have close : ∀ y ∈ parts.map (partitionSum lengths),
      partitionSum lengths part ≤ y + lengths.max?.getD 0 := by
    intro y inside
    obtain ⟨other, listed, rfl⟩ := List.mem_map.mp inside
    exact packing.close part member other listed
  have bound := length_mul_le_of_close (List.mem_map_of_mem member) close
  rwa [List.length_map, packing.length, packing.sum_eq] at bound

theorem length_le (packing : Packing lengths count parts) {part : List Nat}
    (member : part ∈ parts) :
    part.length ≤ lengths.length - (count - 1) := by
  have total : (parts.map List.length).sum = lengths.length := by
    rw [← List.length_flatten, packing.perm.length_eq, List.length_range]
  have split := (List.perm_cons_erase member).map List.length
  have rest : (parts.erase part).length ≤ ((parts.erase part).map List.length).sum := by
    have one : ∀ n ∈ (parts.erase part).map List.length, 1 ≤ n := by
      intro n inside
      obtain ⟨other, listed, rfl⟩ := List.mem_map.mp inside
      exact List.length_pos_iff.mpr (packing.nonempty other (List.mem_of_mem_erase listed))
    have sum := List.card_nsmul_le_sum _ 1 one
    simpa using sum
  rw [split.sum_eq, List.map_cons, List.sum_cons] at total
  rw [List.length_erase_of_mem member, packing.length] at rest
  omega

theorem sum_le_longest (packing : Packing lengths count parts) {part : List Nat}
    (member : part ∈ parts) :
    partitionSum lengths part ≤ (longest lengths (lengths.length - (count - 1))).sum := by
  apply SeqlenBalancing.sum_le_longest
  · obtain ⟨listed, perm, sub⟩ : part.Subperm (List.range lengths.length) :=
      (List.sublist_flatten_of_mem member).subperm.trans packing.perm.subperm
    have mapped : (part.map (fun i => lengths[i]?.getD 0)).Subperm
        ((List.range lengths.length).map (fun i => lengths[i]?.getD 0)) :=
          ⟨_, perm.map _, sub.map _⟩
    rwa [map_getElem?_range] at mapped
  · rw [List.length_map]
    exact packing.length_le member

end Packing

/-- Lengths for which the packing is sure to fit: the longest one is short enough against the
slack of the budget, or the rows that can meet in one part fit together. -/
def FitsBudget (lengths : List Nat) (count budget : Nat) : Prop :=
  lengths.sum + (count - 1) * lengths.max?.getD 0 ≤ count * budget ∨
    (longest lengths (lengths.length - (count - 1))).sum ≤ budget

theorem micro_batches_within_budget (batch : TokenBatch α) (maxTokenLen : Nat)
    {micro : List (List (Row α))} {indices : List (List Nat)}
    (returned : rearrangeMicroBatches batch maxTokenLen none = .ok (micro, indices)) :
    ∃ count, ceildiv batch.seqLens.sum maxTokenLen = .ok count ∧
      ((∀ rows ∈ micro, microTokens rows ≤ maxTokenLen) ↔
        ∀ parts, getSeqlenBalancedPartitions batch.seqLens count false = .ok parts →
          ∀ part ∈ parts, partitionSum batch.seqLens part ≤ maxTokenLen) ∧
      (FitsBudget batch.seqLens count maxTokenLen → ∀ rows ∈ micro,
        microTokens rows ≤ maxTokenLen) := by
  simp only [rearrangeMicroBatches, numMicroBatches, Peers.allReduceMax, bind_ok_iff, pure_eq_ok,
    Except.ok.injEq, Prod.mk.injEq] at returned
  obtain ⟨-, -, _, ⟨count, counted, rfl⟩, -, -, parts, balanced, rfl, rfl⟩ := returned
  have packing := packing_of_balanced balanced
  have tokens : (∀ rows ∈ parts.map (fun partition => partition.flatMap (fun idx => slice idx (idx + 1) batch.rows)),
      microTokens rows ≤ maxTokenLen) ↔
      ∀ part ∈ parts, partitionSum batch.seqLens part ≤ maxTokenLen := by
    simp only [List.forall_mem_map, microTokens_part]
  refine ⟨count, counted, ?_, ?_⟩
  · rw [tokens, balanced]
    simp
  · rw [tokens]
    rintro (slack | few) part member
    · have bound := (packing.mul_le member).trans slack
      exact Nat.le_of_mul_le_mul_left bound (partitions_bounds balanced).1
    · exact (packing.sum_le_longest member).trans few

theorem micro_batches_within_budget_two_rows :
    ∃ count, ceildiv 4 2 = .ok count ∧
      ((∀ rows ∈ [[Row.mk [true, true] ()], [Row.mk [true, true] ()]], microTokens rows ≤ 2) ↔
        ∀ parts, getSeqlenBalancedPartitions [2, 2] count false = .ok parts → ∀ part ∈ parts,
          partitionSum [2, 2] part ≤ 2) ∧
      (FitsBudget [2, 2] count 2 → ∀ rows ∈ [[Row.mk [true, true] ()], [Row.mk [true, true] ()]],
        microTokens rows ≤ 2) := by
  have returned : rearrangeMicroBatches (twoRows [true, true] [true, true] ⟨rfl, rfl⟩) 2 none =
      .ok ([[⟨[true, true], ()⟩], [⟨[true, true], ()⟩]], [[1], [0]]) := by decide
  exact micro_batches_within_budget _ 2 returned

def threePairs : TokenBatch Unit where
  maxSeqLen := 2
  rows := List.replicate 3 ⟨[true, true], ()⟩
  rect row member := by rw [List.eq_of_mem_replicate member]; rfl

/-- With a budget of three tokens they go into two micro batches, one of them with four. -/
theorem micro_batch_over_budget : threePairs.maxSeqLen ≤ 3 ∧ ∃ micro indices,
    rearrangeMicroBatches threePairs 3 none = .ok (micro, indices) ∧ ∃ rows ∈ micro,
      microTokens rows = 4 := by
  refine ⟨by decide, [[⟨[true, true], ()⟩, ⟨[true, true], ()⟩], [⟨[true, true], ()⟩]],
    [[0, 1], [2]], ?_, ?_⟩
  · decide
  · exact ⟨_, List.mem_cons_self, rfl⟩

end Verl.SeqlenBalancing
