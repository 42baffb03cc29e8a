import Verl.SeqlenBalancing.Partitions

/-! How well `karmarkar_karp` balances. A merge pairs the largest set of one state with the
smallest of the other, so the larger of the two spreads bounds the spread of the result, and
the heap only decides which states meet. -/
namespace Verl.SeqlenBalancing

def spreadOf (values : List Nat) : Nat := values.max?.getD 0 - values.min?.getD 0

theorem spreadOf_le_iff {values : List Nat} {bound : Nat} :
    spreadOf values ≤ bound ↔ ∀ x ∈ values, ∀ y ∈ values, x ≤ y + bound := by
  cases values with
  | nil => simp [spreadOf]
  | cons v vs =>
    obtain ⟨most, hmost⟩ : ∃ m, (v :: vs).max? = some m := ⟨_, rfl⟩
    obtain ⟨least, hleast⟩ : ∃ m, (v :: vs).min? = some m := ⟨_, rfl⟩
    obtain ⟨mostIn, above⟩ := List.max?_eq_some_iff.mp hmost
    obtain ⟨leastIn, below⟩ := List.min?_eq_some_iff.mp hleast
    rw [spreadOf, hmost, hleast, Option.getD_some, Option.getD_some]
    constructor
    · intro close x hx y hy
      have := above x hx
      have := below y hy
      omega
    · intro close
      have := close most mostIn least leastIn
      omega

namespace LenSet

theorem sum_le_of_notBefore {a b : LenSet} (order : NotBefore a b) : b.sum ≤ a.sum := by
  by_contra greater
  have first : compareOn sum a b = .lt := by
    simp only [compareOn, Nat.compare_eq_lt]
    omega
  have before : a.lt b = true := by simp [lt, cmp, compareLex, first]
  rw [order] at before
  cases before

end LenSet

namespace State

variable {k : Nat}

def Within (bound : Nat) (s : State k) : Prop := ∀ a ∈ s.sets, ∀ b ∈ s.sets, a.sum ≤ b.sum + bound

theorem sum_antitone (s : State k) {i j : Nat} (hi : i < s.sets.length) (hj : j < s.sets.length)
    (le : i ≤ j) :
    s.sets[j].sum ≤ s.sets[i].sum := by
  rcases Nat.eq_or_lt_of_le le with rfl | lt
  · exact Nat.le_refl _
  · exact LenSet.sum_le_of_notBefore (List.pairwise_iff_getElem.mp s.descending i j hi hj lt)

theorem Within.merge {bound : Nat} {s t : State k} (hs : s.Within bound) (ht : t.Within bound) :
    (s.merge t).Within bound := by
  intro a ha b hb
  obtain ⟨i, hi, rfl⟩ := List.mem_iff_getElem.mp ((ofSets_perm _ _).mem_iff.mp ha)
  obtain ⟨j, hj, rfl⟩ := List.mem_iff_getElem.mp ((ofSets_perm _ _).mem_iff.mp hb)
  simp only [List.length_zipWith, List.length_reverse, s.size, t.size, Nat.min_self] at hi hj
  simp only [List.getElem_zipWith, List.getElem_reverse, LenSet.merge]
  have sizeS := s.size
  have sizeT := t.size
  rcases Nat.le_total i j with le | le
  · have := hs s.sets[i] (List.getElem_mem _) s.sets[j] (List.getElem_mem _)
    have := t.sum_antitone (i := t.sets.length - 1 - j) (j := t.sets.length - 1 - i) (by omega)
      (by omega) (by omega)
    omega
  · have := s.sum_antitone (i := j) (j := i) (by omega) (by omega) le
    have := ht (t.sets[t.sets.length - 1 - i]) (List.getElem_mem _) (t.sets[t.sets.length - 1 - j])
      (List.getElem_mem _)
    omega

theorem mem_init {items : List Item} {s : State k} (made : init items k = .ok s) {set : LenSet}
    (member : set ∈ s.sets) :
    (∃ item ∈ items, set = LenSet.empty.add item.1 item.2) ∨
      (set = LenSet.empty ∧ items.length < k) := by
  simp only [init, bind_ok_iff] at made
  obtain ⟨-, -, made⟩ := made
  split at made
  case isFalse => cases made
  case isTrue fits =>
    cases made
    have unsorted := (ofSets_perm _ _).mem_iff.mp member
    rcases List.mem_append.mp unsorted with filled | empty
    · obtain ⟨item, inside, rfl⟩ := List.mem_map.mp filled
      exact .inl ⟨item, inside, rfl⟩
    · obtain ⟨some, rfl⟩ := List.mem_replicate.mp empty
      exact .inr ⟨rfl, by omega⟩

end State

theorem karmarkarKarp_rule {seqlenList : List Nat} {k : Nat} {equalSize : Bool}
    {partitions : List (List Nat)}
    (returned : karmarkarKarp seqlenList k equalSize = .ok partitions) (P : State k → Prop)
    (initial : ∀ items ∈ initialItems seqlenList k equalSize, ∀ s, State.init items k = .ok s → P s)
    (merge : ∀ s t, P s → P t → P (s.merge t)) :
    ∃ s : State k, partitions = s.getPartitions ∧ P s := by
  have body : ∃ states finalState,
    (initialItems seqlenList k equalSize).mapM (fun items => State.init items k) = .ok states ∧
      pyGet (mergeLoop states.length (pushAll states)) 0 = .ok finalState ∧
        partitions = finalState.getPartitions := by
    cases equalSize with
    | false =>
      simp only [karmarkarKarp, Bool.false_eq_true, if_false, bind_ok_iff, pure_eq_ok,
        Except.ok.injEq] at returned
      obtain ⟨states, built, final, last, rfl⟩ := returned
      exact ⟨states, final, built, last, rfl⟩
    | true =>
      simp only [karmarkarKarp, if_true, bind_ok_iff, pure_eq_ok, Except.ok.injEq] at returned
      obtain ⟨_, -, -, -, states, built, final, last, -, -, rfl⟩ := returned
      exact ⟨states, final, built, last, rfl⟩
  obtain ⟨states, final, built, last, rfl⟩ := body
  refine ⟨final, rfl, ?_⟩
  have start : ∀ s ∈ pushAll states, P s := by
    intro s member
    obtain ⟨items, inside, made⟩ := exists_source built ((pushAll_perm states).mem_iff.mp member)
    exact initial items inside s made
  have done := mergeLoop_rule (fun pq => ∀ s ∈ pq, P s) (fun p q perm all s member =>
    all s (perm.mem_iff.mpr member))
    (by
      intro s t rest all u member
      rcases List.mem_cons.mp member with rfl | member
      · exact merge s t (all s (by simp)) (all t (by simp))
      · exact all u (by simp [member]))
    states.length _ start
  exact done final (List.mem_of_getElem? (pyGet_ok_iff.mp last))

def partitionSum (seqlenList : List Nat) (partition : List Nat) : Nat :=
  (partition.map (fun i => seqlenList[i]?.getD 0)).sum

def Labelled (seqlenList : List Nat) (set : LenSet) : Prop :=
  ∀ item ∈ set.items, seqlenList[item.1]? = some item.2

theorem partitionSum_eq {seqlenList : List Nat} {set : LenSet}
    (labelled : Labelled seqlenList set) :
    partitionSum seqlenList (set.items.map Prod.fst) = set.sum := by
  rw [partitionSum, set.sum_eq, List.map_map]
  congr 1
  apply List.map_congr_left
  intro item member
  simp [labelled item member]

theorem labelled_initial {seqlenList : List Nat} {k : Nat} {equalSize : Bool} {items : List Item}
    (member : items ∈ initialItems seqlenList k equalSize) {item : Item} (inside : item ∈ items) :
    seqlenList[item.1]? = some item.2 := by
  have listed : item ∈ (sortedSeqlenList seqlenList).map Prod.swap := by
    cases equalSize with
    | false =>
      obtain ⟨one, there, rfl⟩ := List.mem_map.mp member
      cases List.mem_singleton.mp inside
      exact there
    | true =>
      obtain ⟨j, -, rfl⟩ := List.mem_map.mp member
      exact mem_of_mem_block inside
  obtain ⟨⟨len, i⟩, there, rfl⟩ := List.mem_map.mp listed
  have entry := (List.perm_insertionSort _ _).mem_iff.mp there
  simpa using List.mem_zipIdx_iff_getElem?.mp entry

theorem spread_of_initial {seqlenList : List Nat} {k : Nat} {equalSize : Bool}
    {partitions : List (List Nat)} {bound : Nat}
    (returned : karmarkarKarp seqlenList k equalSize = .ok partitions)
    (initial : ∀ items ∈ initialItems seqlenList k equalSize, ∀ s : State k,
      State.init items k = .ok s → s.Within bound) :
    spreadOf (partitions.map (partitionSum seqlenList)) ≤ bound := by
  obtain ⟨s, rfl, labelled, close⟩ := karmarkarKarp_rule returned
    (fun s => (∀ set ∈ s.sets, Labelled seqlenList set) ∧ s.Within bound)
    (by
      intro items member s made
      refine ⟨?_, initial items member s made⟩
      intro set inside item there
      rcases State.mem_init made inside with ⟨one, listed, rfl⟩ | ⟨rfl, -⟩
      · cases List.mem_singleton.mp there
        exact labelled_initial member listed
      · cases there)
    (by
      rintro s t ⟨labelledS, closeS⟩ ⟨labelledT, closeT⟩
      refine ⟨?_, closeS.merge closeT⟩
      intro set inside item there
      obtain ⟨i, hi, rfl⟩ := List.mem_iff_getElem.mp ((State.ofSets_perm _ _).mem_iff.mp inside)
      rw [List.getElem_zipWith, LenSet.merge_items] at there
      rcases List.mem_append.mp there with left | right
      · exact labelledS _ (List.getElem_mem _) item left
      · exact labelledT _ (List.mem_reverse.mp (List.getElem_mem _)) item right)
  rw [spreadOf_le_iff]
  have sums : (s.getPartitions.map (partitionSum seqlenList)) = s.sets.map LenSet.sum := by
    rw [State.getPartitions, List.map_map]
    exact List.map_congr_left (fun set member => partitionSum_eq (labelled set member))
  rw [sums]
  intro x hx y hy
  obtain ⟨a, ha, rfl⟩ := List.mem_map.mp hx
  obtain ⟨b, hb, rfl⟩ := List.mem_map.mp hy
  exact close a ha b hb

theorem le_longest {seqlenList : List Nat} {i len : Nat} (found : seqlenList[i]? = some len) :
    len ≤ seqlenList.max?.getD 0 := by
  have member := List.mem_of_getElem? found
  cases most : seqlenList.max? with
  | none => simp [List.max?_eq_none_iff.mp most] at member
  | some m => exact (List.max?_eq_some_iff.mp most).2 len member

theorem sortedSeqlenList_fst (seqlenList : List Nat) :
    (sortedSeqlenList seqlenList).map Prod.fst = seqlenList.insertionSort (· ≤ ·) := by
  let before : Nat × Nat → Nat × Nat → Prop := fun a b => a.1 < b.1 ∨ (a.1 = b.1 ∧ a.2 ≤ b.2)
  have total : Std.Total before := ⟨fun a b => by simp only [before]; omega⟩
  have trans : IsTrans (Nat × Nat) before :=
    ⟨fun a b c hab hbc => by simp only [before] at *; omega⟩
  have sorted : (sortedSeqlenList seqlenList).Pairwise before :=
    List.pairwise_insertionSort before seqlenList.zipIdx
  have lengths : ((sortedSeqlenList seqlenList).map Prod.fst).Pairwise (· ≤ ·) := by
    rw [List.pairwise_map]
    apply sorted.imp
    intro a b order
    simp only [before] at order
    omega
  have perm : ((sortedSeqlenList seqlenList).map Prod.fst).Perm
      (seqlenList.insertionSort (· ≤ ·)) := by
    have same : seqlenList.zipIdx.map Prod.fst = seqlenList := List.zipIdx_map_fst 0 seqlenList
    refine ((List.perm_insertionSort _ _).map Prod.fst).trans ?_
    rw [same]
    exact (List.perm_insertionSort _ seqlenList).symm
  exact perm.eq_of_pairwise (fun a b _ _ le ge => Nat.le_antisymm le ge) lengths
    (List.pairwise_insertionSort _ _)

theorem within_single {seqlenList : List Nat} {k : Nat} {items : List Item}
    (member : items ∈ initialItems seqlenList k false)
    {s : State k} (made : State.init items k = .ok s) : s.Within (seqlenList.max?.getD 0) := by
  intro a ha b hb
  have small : a.sum ≤ seqlenList.max?.getD 0 := by
    rcases State.mem_init made ha with ⟨item, listed, rfl⟩ | ⟨rfl, -⟩
    · have known := le_longest (labelled_initial member listed)
      simpa [LenSet.add, LenSet.empty] using known
    · exact Nat.zero_le _
  omega

theorem within_block {seqlenList : List Nat} {k : Nat} (positive : 1 ≤ k) {items : List Item}
    (member : items ∈ initialItems seqlenList k true) {s : State k}
    (made : State.init items k = .ok s) :
    s.Within (((blocks k (seqlenList.length / k) (seqlenList.insertionSort (· ≤ ·))).map
      spreadOf).max?.getD 0) := by
  have full := (initialItems_length positive items member).2.2 rfl
  have lengths : ∀ set ∈ s.sets, set.sum ∈ items.map Prod.snd := by
    intro set inside
    rcases State.mem_init made inside with ⟨item, listed, rfl⟩ | ⟨-, short⟩
    · have sum : (LenSet.empty.add item.1 item.2).sum = item.2 := by simp [LenSet.add, LenSet.empty]
      rw [sum]
      exact List.mem_map_of_mem listed
    · omega
  have cut : items.map Prod.snd ∈
      blocks k (seqlenList.length / k) (seqlenList.insertionSort (· ≤ ·)) := by
    obtain ⟨j, inside, rfl⟩ := List.mem_map.mp member
    have count : ((sortedSeqlenList seqlenList).map Prod.swap).length = seqlenList.length := by
      simp [sortedSeqlenList]
    rw [count] at inside
    refine List.mem_map.mpr ⟨j, inside, ?_⟩
    rw [← sortedSeqlenList_fst, block, block, ← slice_map, List.map_map]
    rfl
  have close : spreadOf (items.map Prod.snd) ≤
      ((blocks k (seqlenList.length / k) (seqlenList.insertionSort (· ≤ ·))).map spreadOf).max?.getD
        0 := by
    obtain ⟨i, there⟩ := List.mem_iff_getElem?.mp (List.mem_map_of_mem (f := spreadOf) cut)
    exact le_longest there
  intro a ha b hb
  exact spreadOf_le_iff.mp close _ (lengths a ha) _ (lengths b hb)

/-- The partitions differ by at most one length; with equal sizes, by at most the
widest of the blocks that the sorted lengths are dealt out in. -/
theorem karmarkarKarp_spread (seqlenList : List Nat) (k : Nat) (positive : 1 ≤ k)
    (enough : k ≤ seqlenList.length) :
    (∃ partitions, karmarkarKarp seqlenList k false = .ok partitions ∧ partitions.length = k ∧
      spreadOf (partitions.map (partitionSum seqlenList)) ≤ seqlenList.max?.getD 0) ∧
    (k ∣ seqlenList.length → ∃ partitions, karmarkarKarp seqlenList k true = .ok partitions ∧
      partitions.length = k ∧ spreadOf (partitions.map (partitionSum seqlenList)) ≤
        ((blocks k (seqlenList.length / k) (seqlenList.insertionSort (· ≤ ·))).map
          spreadOf).max?.getD 0) := by
  constructor
  · obtain ⟨s, returned, -⟩ := karmarkarKarp_spec seqlenList k false positive enough (by simp)
    exact ⟨_, returned, s.length_getPartitions,
      spread_of_initial returned (fun items member s made => within_single member made)⟩
  · intro divides
    obtain ⟨s, returned, -⟩ :=
      karmarkarKarp_spec seqlenList k true positive enough (fun _ => divides)
    exact ⟨_, returned, s.length_getPartitions,
      spread_of_initial returned (fun items member s made => within_block positive member made)⟩

theorem karmarkarKarp_spread_six :
    (∃ partitions, karmarkarKarp [7, 1, 4, 4, 2, 9] 3 false = .ok partitions ∧
      partitions.length = 3 ∧ spreadOf (partitions.map (partitionSum [7, 1, 4, 4, 2, 9])) ≤ 9) ∧
    ∃ partitions, karmarkarKarp [7, 1, 4, 4, 2, 9] 3 true = .ok partitions ∧ partitions.length = 3 ∧
      spreadOf (partitions.map (partitionSum [7, 1, 4, 4, 2, 9])) ≤ 5 := by
  have spread := karmarkarKarp_spread [7, 1, 4, 4, 2, 9] 3 (by decide) (by decide)
  exact ⟨spread.1, spread.2 (by decide)⟩

end Verl.SeqlenBalancing
