import Verl.SeqlenBalancing.KarmarkarKarp

/-! What the partitions are, for every list of lengths and every number of parts.
Nothing depends on the order in which the heap returns the states: the loop is
used only through `mergeLoop_rule`, which lets any two states be merged. -/
namespace Verl.SeqlenBalancing

theorem countP_le_window {α : Type} (p : α → Bool) (l : List α) (a b : Nat)
    (window : ∀ i (hi : i < l.length), p l[i] = true → a ≤ i ∧ i < b) : l.countP p ≤ b - a := by
  have before : (l.take a).countP p = 0 := by
    rw [List.countP_eq_zero]
    intro x hx
    obtain ⟨i, hi, rfl⟩ := List.mem_iff_getElem.mp hx
    simp only [List.length_take] at hi
    intro hp
    have := window i (by omega) (by simpa using hp)
    omega
  have after : ((l.drop a).drop (b - a)).countP p = 0 := by
    rw [List.countP_eq_zero]
    intro x hx
    obtain ⟨i, hi, rfl⟩ := List.mem_iff_getElem.mp hx
    simp only [List.length_drop] at hi
    intro hp
    have := window (a + (b - a) + i) (by omega) (by simpa using hp)
    omega
  have inside : ((l.drop a).take (b - a)).countP p ≤ b - a :=
    List.countP_le_length.trans (by simp)
  have split : l.countP p = (l.take a).countP p + (((l.drop a).take (b - a)).countP p +
      ((l.drop a).drop (b - a)).countP p) := by
    rw [← List.countP_append, List.take_append_drop, ← List.countP_append, List.take_append_drop]
  omega

namespace LenSet

def isEmpty (s : LenSet) : Bool := s.items.isEmpty

/-- An empty set has sum 0 and no items, so it is before every set with an item,
also before one whose items have length 0. -/
theorem lt_of_isEmpty {a b : LenSet} (ha : a.isEmpty = true) (hb : b.isEmpty = false) :
    a.lt b = true := by
  have hai : a.items = [] := by simpa [isEmpty] using ha
  have has : a.sum = 0 := by rw [a.sum_eq, hai]; rfl
  have hbi : 0 < b.items.length := by
    cases hc : b.items with
    | nil => simp [isEmpty, hc] at hb
    | cons x xs => simp
  have hlen : (compareOn (fun s => s.items.length) a b) = .lt := by
    simp [compareOn, hai, Nat.compare_eq_lt, hbi]
  have hsum : compareOn sum a b = .lt ∨ compareOn sum a b = .eq := by
    rcases Nat.eq_zero_or_pos b.sum with h | h
    · right; simp [compareOn, has, h]
    · left; simp [compareOn, has, Nat.compare_eq_lt, h]
  rcases hsum with h | h <;> simp [lt, cmp, compareLex, h, hlen]

theorem isEmpty_merge (a b : LenSet) : (a.merge b).isEmpty = (a.isEmpty && b.isEmpty) := by
  cases ha : a.items <;> cases hb : b.items <;> simp [isEmpty, ha, hb]

end LenSet

namespace State

variable {k : Nat}

def items (s : State k) : List Item := s.sets.flatMap LenSet.items

theorem ofSets_perm (sets : List LenSet) (size : sets.length = k) :
    (ofSets sets size).sets.Perm sets := List.perm_insertionSort _ _

theorem ofSets_items (sets : List LenSet) (size : sets.length = k) :
    (ofSets sets size).items.Perm (sets.flatMap LenSet.items) :=
  (ofSets_perm sets size).flatMap_right _

theorem flatMap_zipWith_merge (as bs : List LenSet) (same : as.length = bs.length) :
    ((List.zipWith LenSet.merge as bs).flatMap LenSet.items).Perm
      (as.flatMap LenSet.items ++ bs.flatMap LenSet.items) := by
  induction as generalizing bs with
  | nil => cases bs <;> simp_all
  | cons a as ih =>
    cases bs with
    | nil => simp at same
    | cons b bs =>
      have tail := ih bs (by simpa using same)
      simp only [List.zipWith_cons_cons, List.flatMap_cons, LenSet.merge_items, List.append_assoc]
      refine List.Perm.append_left _ ?_
      refine (List.Perm.append_left _ tail).trans ?_
      rw [← List.append_assoc, ← List.append_assoc]
      exact List.perm_append_comm.append_right _

theorem merge_items (s t : State k) : (s.merge t).items.Perm (s.items ++ t.items) := by
  refine (ofSets_items _ _).trans ?_
  refine (flatMap_zipWith_merge _ _ (by simp [s.size, t.size])).trans ?_
  exact List.Perm.append_left _ ((List.reverse_perm _).flatMap_right _)

/-- No state has more empty sets than it must: `k - m` with `m` items. -/
def Filled (s : State k) : Prop := s.sets.countP LenSet.isEmpty ≤ k - s.items.length

/-- Every set of the state has the same number of items. -/
def Even (s : State k) : Prop := ∃ m, ∀ set ∈ s.sets, set.items.length = m

theorem empty_from (s : State k) (i : Nat) (hi : i < s.sets.length)
    (empty : s.sets[i].isEmpty = true) (j : Nat) (hj : j < s.sets.length) (le : i ≤ j) :
    s.sets[j].isEmpty = true := by
  rcases Nat.eq_or_lt_of_le le with rfl | lt
  · exact empty
  · by_contra hne
    have order : s.sets[i].lt s.sets[j] = false :=
      List.pairwise_iff_getElem.mp s.descending i j hi hj lt
    rw [LenSet.lt_of_isEmpty empty (by simpa using hne)] at order
    contradiction

/-- In a filled state an empty set stands after as many sets as there are items. -/
theorem Filled.length_le {s : State k} (filled : s.Filled) (i : Nat) (hi : i < s.sets.length)
    (empty : s.sets[i].isEmpty = true) : s.items.length ≤ i := by
  have all : ((s.sets.drop i).countP LenSet.isEmpty) = (s.sets.drop i).length := by
    rw [List.countP_eq_length]
    intro x hx
    obtain ⟨j, hj, rfl⟩ := List.mem_iff_getElem.mp hx
    simp only [List.length_drop] at hj
    simpa using s.empty_from i hi empty (i + j) (by omega) (by omega)
  have total : (s.sets.drop i).countP LenSet.isEmpty ≤ s.sets.countP LenSet.isEmpty :=
    (List.drop_sublist i s.sets).countP_le
  have bound : s.sets.countP LenSet.isEmpty ≤ k - s.items.length := filled
  have size := s.size
  simp only [List.length_drop] at all
  omega

theorem Filled.merge {s t : State k} (hs : s.Filled) (ht : t.Filled) : (s.merge t).Filled := by
  have count : (s.merge t).sets.countP LenSet.isEmpty =
      (List.zipWith LenSet.merge s.sets t.sets.reverse).countP LenSet.isEmpty :=
    (ofSets_perm _ _).countP_eq _
  have items : (s.merge t).items.length = s.items.length + t.items.length := by
    simpa using (merge_items s t).length_eq
  have bound : (List.zipWith LenSet.merge s.sets t.sets.reverse).countP LenSet.isEmpty ≤
      (k - t.items.length) - s.items.length := by
    apply countP_le_window
    intro i hi hp
    have his : i < s.sets.length := by simp at hi; omega
    have hit : i < t.sets.reverse.length := by simp at hi ⊢; omega
    simp only [List.getElem_zipWith, LenSet.isEmpty_merge, Bool.and_eq_true,
      List.getElem_reverse] at hp
    have left := hs.length_le i his hp.1
    have right := ht.length_le _ _ hp.2
    have := t.size
    simp at hit
    omega
  unfold Filled
  omega

theorem Even.merge {s t : State k} (hs : s.Even) (ht : t.Even) : (s.merge t).Even := by
  obtain ⟨m, hm⟩ := hs
  obtain ⟨p, hp⟩ := ht
  refine ⟨m + p, fun set member => ?_⟩
  have unsorted : set ∈ List.zipWith LenSet.merge s.sets t.sets.reverse :=
    (ofSets_perm _ _).mem_iff.mp member
  obtain ⟨i, hi, rfl⟩ := List.mem_iff_getElem.mp unsorted
  simp only [List.getElem_zipWith, LenSet.merge_items, List.length_append]
  rw [hm _ (List.getElem_mem _), hp _ (List.mem_reverse.mp (List.getElem_mem _))]

end State

section Loop

variable {k : Nat} (Inv : List (State k) → Prop)
  (reorder : ∀ p q : List (State k), p.Perm q → Inv p → Inv q)
  (step : ∀ (s t : State k) rest, Inv (s :: t :: rest) → Inv (s.merge t :: rest))

include reorder step in
theorem mergeLoop_rule (fuel : Nat) (pq : List (State k)) (h : Inv pq) :
    Inv (mergeLoop fuel pq) := by
  induction fuel generalizing pq with
  | zero => exact h
  | succ fuel ih =>
    unfold mergeLoop
    split
    · split
      · exact h
      · rename_i state0 pq0 h0
        split
        · exact h
        · rename_i state1 pq1 h1
          have p0 := Heapq.heappop_perm State.lt h0
          have p1 := Heapq.heappop_perm State.lt h1
          have two := reorder _ (state0 :: state1 :: pq1) (p0.symm.trans (p1.symm.cons _)) h
          exact ih _ (reorder _ _ (Heapq.heappush_perm State.lt _ _).symm (step _ _ _ two))
    · exact h

end Loop

theorem mergeLoop_length {k : Nat} (fuel : Nat) (pq : List (State k)) (nonempty : pq ≠ [])
    (enough : pq.length ≤ fuel + 1) : (mergeLoop fuel pq).length = 1 := by
  induction fuel generalizing pq with
  | zero =>
    have := List.length_pos_iff.mpr nonempty
    simp only [mergeLoop]
    omega
  | succ fuel ih =>
    unfold mergeLoop
    split
    · rename_i more
      obtain ⟨⟨state0, pq0⟩, h0⟩ := Heapq.heappop_isSome State.lt nonempty
      have l0 := (Heapq.heappop_perm State.lt h0).length_eq
      have ne0 : pq0 ≠ [] := by
        rintro rfl
        simp at l0
        omega
      obtain ⟨⟨state1, pq1⟩, h1⟩ := Heapq.heappop_isSome State.lt ne0
      have l1 := (Heapq.heappop_perm State.lt h1).length_eq
      have l2 := (Heapq.heappush_perm State.lt pq1 (state0.merge state1)).length_eq
      simp only [List.length_cons] at l0 l1 l2
      simp only [h0, h1]
      apply ih
      · intro hn
        simp [hn] at l2
      · omega
    · have := List.length_pos_iff.mpr nonempty
      omega

namespace State

variable {k : Nat}

theorem initSets_items (items : List Item) (k : Nat) :
    (initSets items k).flatMap LenSet.items = items := by
  have none : (List.replicate (k - items.length) LenSet.empty).flatMap LenSet.items = [] := by
    simp
  simp [initSets, none, List.flatMap_map]

theorem initSets_countP (items : List Item) (k : Nat) :
    (initSets items k).countP LenSet.isEmpty = k - items.length := by
  have one : (items.map (fun item => LenSet.empty.add item.1 item.2)).countP LenSet.isEmpty =
      0 := by
    rw [List.countP_eq_zero]
    intro set member
    obtain ⟨item, _, rfl⟩ := List.mem_map.mp member
    simp [LenSet.isEmpty]
  rw [initSets, List.countP_append, one, List.countP_replicate]
  simp [LenSet.isEmpty]

theorem init_spec (items : List Item) (count : items.length = 1 ∨ items.length = k)
    (fits : items.length ≤ k) :
    ∃ s : State k, init items k = .ok s ∧
      (s.items.Perm items ∧ s.Filled ∧ (items.length = k → s.Even)) := by
  have size : (initSets items k).length = k := by simp [initSets]; omega
  refine ⟨ofSets (initSets items k) size, ?_, ?_, ?_, ?_⟩
  · have check : (items.length == 1 || items.length == k) = true := by simpa using count
    simp [init, check, fits]
  · exact (ofSets_items _ _).trans (.of_eq (initSets_items items k))
  · have same := (ofSets_items (initSets items k) size).length_eq
    rw [initSets_items] at same
    unfold Filled
    rw [(ofSets_perm _ _).countP_eq, initSets_countP, same]
  · intro full
    refine ⟨1, fun set member => ?_⟩
    have unsorted := (ofSets_perm _ size).mem_iff.mp member
    simp only [initSets, full, Nat.sub_self, List.replicate_zero, List.append_nil] at unsorted
    obtain ⟨item, _, rfl⟩ := List.mem_map.mp unsorted
    rfl

theorem Even.length_mul {s : State k} (even : s.Even) (set : LenSet) (member : set ∈ s.sets) :
    set.items.length * k = s.items.length := by
  obtain ⟨m, hm⟩ := even
  have total : s.items.length = (s.sets.map (fun set => set.items.length)).sum := by
    simp [items, List.length_flatMap]
  have const : s.sets.map (fun set => set.items.length) = List.replicate k m := by
    refine List.eq_replicate_iff.mpr ⟨by simp [s.size], fun n hn => ?_⟩
    obtain ⟨set, hs, rfl⟩ := List.mem_map.mp hn
    exact hm set hs
  rw [total, const, hm set member]
  simp [Nat.mul_comm]

theorem length_getPartitions (s : State k) : s.getPartitions.length = k := by
  rw [getPartitions, List.length_map, s.size]

theorem getPartitions_flatten (s : State k) : s.getPartitions.flatten = s.items.map Prod.fst := by
  simp [getPartitions, items, List.flatMap, List.map_flatten, Function.comp_def]

end State

theorem pushAll_perm {k : Nat} (states : List (State k)) : (pushAll states).Perm states := by
  have go : ∀ (states pq : List (State k)),
      (states.foldl (Heapq.heappush State.lt) pq).Perm (states ++ pq) := by
    intro states
    induction states with
    | nil => exact fun pq => .refl _
    | cons s states ih =>
      intro pq
      refine (ih _).trans ?_
      refine (List.Perm.append_left states (Heapq.heappush_perm State.lt pq s)).trans ?_
      exact List.perm_middle
  simpa [pushAll] using go states []

theorem initialItems_flatten (seqlenList : List Nat) (k : Nat) (equalSize : Bool)
    (divides : equalSize = true → k ∣ seqlenList.length) :
    (initialItems seqlenList k equalSize).flatten =
      (sortedSeqlenList seqlenList).map Prod.swap := by
  cases equalSize with
  | false => exact List.flatMap_singleton' _
  | true =>
    refine flatten_blocks _ _ _ ?_
    have length : ((sortedSeqlenList seqlenList).map Prod.swap).length = seqlenList.length := by
      simp [sortedSeqlenList]
    rw [length, Nat.div_mul_cancel (divides rfl)]

theorem sortedSeqlenList_indices (seqlenList : List Nat) :
    (((sortedSeqlenList seqlenList).map Prod.swap).map Prod.fst).Perm
      (List.range seqlenList.length) := by
  have same : ((sortedSeqlenList seqlenList).map Prod.swap).map Prod.fst =
      (sortedSeqlenList seqlenList).map Prod.snd := by simp [Function.comp_def]
  have indices : seqlenList.zipIdx.map Prod.snd = List.range seqlenList.length := by
    simp [List.zipIdx_map_snd, List.range_eq_range']
  rw [same, ← indices]
  exact (List.perm_insertionSort _ _).map _

theorem initialItems_length {seqlenList : List Nat} {k : Nat} {equalSize : Bool}
    (positive : 1 ≤ k) (items : List Item) (member : items ∈ initialItems seqlenList k equalSize) :
    (items.length = 1 ∨ items.length = k) ∧ items.length ≤ k ∧
      (equalSize = true → items.length = k) := by
  cases equalSize with
  | false =>
    obtain ⟨item, _, rfl⟩ := List.mem_map.mp member
    exact ⟨.inl rfl, positive, by simp⟩
  | true =>
    obtain ⟨j, hj, rfl⟩ := List.mem_map.mp member
    have inside : (j + 1) * k ≤ ((sortedSeqlenList seqlenList).map Prod.swap).length :=
      (Nat.mul_le_mul_right k (List.mem_range.mp hj)).trans (Nat.div_mul_le_self _ _)
    have h := length_block inside
    exact ⟨.inr h, h.le, fun _ => h⟩

structure Merging (k : Nat) (equalSize : Bool) (all : List Item) (pq : List (State k)) : Prop where
  items : (pq.flatMap State.items).Perm all
  filled : ∀ s ∈ pq, s.Filled
  even : equalSize = true → ∀ s ∈ pq, s.Even

theorem Merging.reorder {k : Nat} {equalSize : Bool} {all : List Item} (p q : List (State k))
    (perm : p.Perm q) (h : Merging k equalSize all p) : Merging k equalSize all q where
  items := (perm.symm.flatMap_right _).trans h.items
  filled s member := h.filled s (perm.mem_iff.mpr member)
  even eq s member := h.even eq s (perm.mem_iff.mpr member)

theorem Merging.step {k : Nat} {equalSize : Bool} {all : List Item} (s t : State k)
    (rest : List (State k)) (h : Merging k equalSize all (s :: t :: rest)) :
    Merging k equalSize all (s.merge t :: rest) where
  items := by
    refine List.Perm.trans ?_ h.items
    simp only [List.flatMap_cons, ← List.append_assoc]
    exact (State.merge_items s t).append_right _
  filled u member := by
    rcases List.mem_cons.mp member with rfl | member
    · exact (h.filled s (by simp)).merge (h.filled t (by simp))
    · exact h.filled u (by simp [member])
  even eq u member := by
    rcases List.mem_cons.mp member with rfl | member
    · exact (h.even eq s (by simp)).merge (h.even eq t (by simp))
    · exact h.even eq u (by simp [member])

theorem Merging.initial {k : Nat} {equalSize : Bool} {lists : List (List Item)}
    {states : List (State k)}
    (built : List.Forall₂ (fun items (s : State k) =>
      s.items.Perm items ∧ s.Filled ∧ (equalSize = true → s.Even)) lists states) :
    Merging k equalSize lists.flatten states := by
  induction built with
  | nil => exact ⟨.refl _, by simp, by simp⟩
  | cons head _ ih =>
    constructor
    · simp only [List.flatMap_cons, List.flatten_cons]
      exact head.1.append ih.items
    · simpa using ⟨head.2.1, ih.filled⟩
    · intro eq
      simpa using ⟨head.2.2 eq, ih.even eq⟩

/-- The loop ends with one state that holds every item. The item check of the
equal-size case passes on it. -/
theorem karmarkarKarp_spec (seqlenList : List Nat) (k : Nat) (equalSize : Bool) (positive : 1 ≤ k)
    (enough : k ≤ seqlenList.length) (divides : equalSize = true → k ∣ seqlenList.length) :
    ∃ s : State k, karmarkarKarp seqlenList k equalSize = .ok s.getPartitions ∧
      s.Filled ∧ (s.items.map Prod.fst).Perm (List.range seqlenList.length) ∧
      (equalSize = true → ∀ set ∈ s.sets, set.items.length * k = seqlenList.length) := by
  obtain ⟨states, hstates, built⟩ := mapM_forall₂ (fun items => State.init items k)
    (fun items s => s.items.Perm items ∧ s.Filled ∧ (equalSize = true → s.Even))
    (initialItems seqlenList k equalSize) (by
      intro items member
      obtain ⟨count, fits, full⟩ := initialItems_length positive items member
      obtain ⟨s, hs, h1, h2, h3⟩ := State.init_spec items count fits
      exact ⟨s, hs, h1, h2, fun eq => h3 (full eq)⟩)
  have start := (Merging.initial built).reorder _ (pushAll states) (pushAll_perm states).symm
  have done := mergeLoop_rule (Merging k equalSize _) Merging.reorder Merging.step
    states.length _ start
  have indices := sortedSeqlenList_indices seqlenList
  rw [← initialItems_flatten seqlenList k equalSize divides] at indices
  have nonempty : pushAll states ≠ [] := by
    intro none
    have empty := start.items
    rw [none] at empty
    have zero := (empty.map Prod.fst).length_eq
    rw [indices.length_eq] at zero
    simp at zero
    omega
  obtain ⟨s, hs⟩ := List.length_eq_one_iff.mp (mergeLoop_length states.length _ nonempty
    ((pushAll_perm states).length_eq.le.trans (Nat.le_succ _)))
  rw [hs] at done
  have items : (s.items.map Prod.fst).Perm (List.range seqlenList.length) := by
    refine List.Perm.trans ?_ indices
    simpa using done.items.map Prod.fst
  have length : s.items.length = seqlenList.length := by simpa using items.length_eq
  have even : equalSize = true → ∀ set ∈ s.sets, set.items.length * k = seqlenList.length := by
    intro eq set member
    rw [(done.even eq s (by simp)).length_mul set member, length]
  refine ⟨s, ?_, done.filled s (by simp), items, even⟩
  cases equalSize with
  | false => simp [karmarkarKarp, hstates, hs]
  | true =>
    have whole : (seqlenList.length % k == 0) = true := by
      simpa using Nat.mod_eq_zero_of_dvd (divides rfl)
    have checks := forM_ok (checkEqualSize seqlenList.length k) s.getPartitions (by
      intro partition member
      obtain ⟨set, hset, rfl⟩ := List.mem_map.mp member
      simp [checkEqualSize, even rfl set hset])
    rw [List.forM_eq_forM] at checks
    simp [karmarkarKarp, pyMod_pos positive, whole, hstates, hs, checks]

/-- The check passes on the partitions of a filled state that holds every index,
and the lists it returns are the sorted ones. -/
theorem checkAndSortPartitions_spec {n k : Nat} (s : State k) (enough : k ≤ n) (filled : s.Filled)
    (indices : (s.items.map Prod.fst).Perm (List.range n)) :
    checkAndSortPartitions n k s.getPartitions =
      .ok (s.getPartitions.map (fun p => p.insertionSort (· ≤ ·))) ∧
    ∀ p ∈ s.getPartitions, p ≠ [] := by
  have length : s.items.length = n := by simpa using indices.length_eq
  have nonempty : ∀ p ∈ s.getPartitions, p ≠ [] := by
    intro p member none
    obtain ⟨set, hset, rfl⟩ := List.mem_map.mp member
    have zero : s.sets.countP LenSet.isEmpty = 0 := by
      have bound : s.sets.countP LenSet.isEmpty ≤ k - s.items.length := filled
      omega
    have := List.countP_eq_zero.mp zero set hset
    simp_all [LenSet.isEmpty]
  have found : (s.getPartitions.length == k) = true := by simp [State.getPartitions, s.size]
  have seen : (s.getPartitions.flatten.all (· < n) &&
      (List.range n).all (s.getPartitions.flatten.contains ·)) = true := by
    rw [s.getPartitions_flatten]
    simp only [Bool.and_eq_true, List.all_eq_true, List.contains_iff_mem, decide_eq_true_eq]
    exact ⟨fun i hi => List.mem_range.mp (indices.mem_iff.mp hi), fun i hi =>
      indices.mem_iff.mpr hi⟩
  have sorted := mapM_ok checkAndSort (fun p => p.1.insertionSort (· ≤ ·))
      s.getPartitions.zipIdx (by
    intro p member
    have part : p.1.isEmpty = false := by
      simpa using nonempty p.1 (List.fst_mem_of_mem_zipIdx member)
    simp [checkAndSort, part])
  refine ⟨?_, nonempty⟩
  have first : s.getPartitions.zipIdx.map (fun p => p.1.insertionSort (· ≤ ·)) =
      (s.getPartitions.zipIdx.map Prod.fst).map (fun p => p.insertionSort (· ≤ ·)) := by
    rw [List.map_map]
    rfl
  rw [first, List.zipIdx_map_fst] at sorted
  simp only [checkAndSortPartitions, found, pyAssert_true, ok_bind, sorted, seen, pure_eq_ok]

theorem getSeqlenBalancedPartitions_spec (seqlenList : List Nat) (k : Nat) (equalSize : Bool)
    (positive : 1 ≤ k) (enough : k ≤ seqlenList.length)
    (divides : equalSize = true → k ∣ seqlenList.length) :
    ∃ s : State k,
      getSeqlenBalancedPartitions seqlenList k equalSize =
        .ok (s.getPartitions.map (fun p => p.insertionSort (· ≤ ·))) ∧
      s.getPartitions.flatten.Perm (List.range seqlenList.length) ∧
      (∀ p ∈ s.getPartitions, p ≠ []) ∧
      (equalSize = true → ∀ p ∈ s.getPartitions, p.length * k = seqlenList.length) := by
  obtain ⟨s, hs, filled, indices, even⟩ :=
    karmarkarKarp_spec seqlenList k equalSize positive enough divides
  obtain ⟨check, nonempty⟩ := checkAndSortPartitions_spec s enough filled indices
  refine ⟨s, by simp [getSeqlenBalancedPartitions, enough, hs, check], ?_, nonempty, ?_⟩
  · rw [s.getPartitions_flatten]
    exact indices
  · intro eq p member
    obtain ⟨set, hset, rfl⟩ := List.mem_map.mp member
    simpa using even eq set hset

theorem divides_of_balanced {seqlenList : List Nat} {k : Nat} {partitions : List (List Nat)}
    (balanced : getSeqlenBalancedPartitions seqlenList k true = .ok partitions) :
    1 ≤ k ∧ k ≤ seqlenList.length ∧ k ∣ seqlenList.length := by
  simp only [getSeqlenBalancedPartitions, karmarkarKarp, if_true, bind_ok_iff, pyAssert_ok_iff,
    decide_eq_true_eq] at balanced
  obtain ⟨-, enough, _, ⟨remainder, divided, -, none, -⟩, -⟩ := balanced
  unfold pyMod at divided
  split at divided
  case isTrue => cases divided
  case isFalse nonzero =>
    cases divided
    exact ⟨Nat.pos_of_ne_zero nonzero, enough, Nat.dvd_of_mod_eq_zero (by simpa using none)⟩

theorem sorted_flatten_perm (partitions : List (List Nat)) :
    (partitions.map (fun p => p.insertionSort (· ≤ ·))).flatten.Perm partitions.flatten :=
  List.Perm.flatten_congr (List.forall₂_map_left_iff.mpr
    (List.forall₂_same.mpr (fun p _ => List.perm_insertionSort _ p)))

/-- Every list of lengths is partitioned, zeros and ties included. The pieces are
non-empty and increasing, and every index is in exactly one place. -/
theorem balanced_partitions (seqlenList : List Nat) (k : Nat) (equalSize : Bool) (positive : 1 ≤ k)
    (enough : k ≤ seqlenList.length) (divides : equalSize = true → k ∣ seqlenList.length) :
    ∃ partitions, getSeqlenBalancedPartitions seqlenList k equalSize = .ok partitions ∧
      partitions.length = k ∧
      (∀ p ∈ partitions, p ≠ [] ∧ p.Pairwise (· < ·)) ∧
      partitions.flatten.Perm (List.range seqlenList.length) ∧
      (equalSize = true → ∀ p ∈ partitions, p.length = seqlenList.length / k) := by
  obtain ⟨s, hs, flat, nonempty, even⟩ :=
    getSeqlenBalancedPartitions_spec seqlenList k equalSize positive enough divides
  have distinct : s.getPartitions.flatten.Nodup := flat.nodup_iff.mpr List.nodup_range
  refine ⟨_, hs, by simp [State.getPartitions, s.size], ?_, (sorted_flatten_perm _).trans flat, ?_⟩
  · intro p member
    obtain ⟨q, hq, rfl⟩ := List.mem_map.mp member
    have sorted := List.pairwise_insertionSort (· ≤ ·) q
    have nodup : (q.insertionSort (· ≤ ·)).Nodup :=
      (List.perm_insertionSort _ q).nodup_iff.mpr ((List.nodup_flatten.mp distinct).1 q hq)
    refine ⟨?_, (sorted.and nodup).imp (fun h => lt_of_le_of_ne h.1 h.2)⟩
    rw [ne_eq, ← List.length_eq_zero_iff, List.length_insertionSort, List.length_eq_zero_iff]
    exact nonempty q hq
  · intro eq p member
    obtain ⟨q, hq, rfl⟩ := List.mem_map.mp member
    rw [List.length_insertionSort, ← even eq q hq, Nat.mul_div_cancel _ positive]

theorem balanced_partitions_with_zeros :
    ∃ partitions, getSeqlenBalancedPartitions [0, 3, 0, 3] 2 true = .ok partitions ∧
      partitions.length = 2 ∧
      (∀ p ∈ partitions, p ≠ [] ∧ p.Pairwise (· < ·)) ∧
      partitions.flatten.Perm (List.range 4) ∧
      (true = true → ∀ p ∈ partitions, p.length = 4 / 2) :=
  balanced_partitions [0, 3, 0, 3] 2 true (by decide) (by decide) (by decide)

end Verl.SeqlenBalancing
