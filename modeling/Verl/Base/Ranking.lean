import Mathlib.Data.List.Nodup
import Verl.Base.Reindex

/-! Groups of equally many rows, brought into an order that puts the marked groups first, and what
stands in the first rows of that order. -/
namespace Verl

/-- What a descending argsort of a mask promises. The order of equal entries is left open. -/
structure MarkedFirst (mask : List Bool) (order : List Nat) : Prop where
  perm : order.Perm (List.range mask.length)
  sorted : order.Pairwise (fun a b => mask[b]? = some true → mask[a]? = some true)

variable {size : Nat}

theorem mem_blockIdx_iff_div (positive : 0 < size) {g i : Nat} :
    i ∈ blockIdx size g ↔ i / size = g := by
  rw [mem_blockIdx, Nat.div_eq_iff positive, Nat.succ_mul]
  omega

theorem length_flatMap_blockIdx (size : Nat) (order : List Nat) :
    (order.flatMap (blockIdx size)).length = order.length * size := by
  induction order with
  | nil => simp
  | cons g order ih =>
    rw [List.flatMap_cons, List.length_append, length_blockIdx, ih, List.length_cons,
      Nat.succ_mul, Nat.add_comm]

theorem take_whole_groups {k : Nat} (divides : size ∣ k) (order : List Nat) :
    (order.flatMap (blockIdx size)).take k = (order.take (k / size)).flatMap (blockIdx size) := by
  rw [← take_flatMap (n := size) (fun g _ => length_blockIdx size g), Nat.div_mul_cancel divides]

variable {mask : List Bool} {order : List Nat}

theorem exists_split {α : Type} {p : α → Prop} [DecidablePred p] {xs : List α}
    (sorted : xs.Pairwise (fun a b => p b → p a)) :
    ∃ front back, xs = front ++ back ∧ (∀ x ∈ front, p x) ∧ ∀ x ∈ back, ¬p x := by
  induction xs with
  | nil => exact ⟨[], [], rfl, by simp, by simp⟩
  | cons x xs ih =>
    obtain ⟨first, rest⟩ := List.pairwise_cons.mp sorted
    by_cases marked : p x
    · obtain ⟨front, back, rfl, all, none⟩ := ih rest
      exact ⟨x :: front, back, rfl, by simpa [marked] using all, none⟩
    · refine ⟨[], x :: xs, rfl, by simp, ?_⟩
      intro y member later
      rcases List.mem_cons.mp member with rfl | inside
      · exact marked later
      · exact marked (first y inside later)

theorem MarkedFirst.prioritized (ranked : MarkedFirst mask order) (positive : 0 < size)
    {k g other i : Nat} (taken : i ∈ (order.flatMap (blockIdx size)).take k) (own : i / size = g)
    (fails : mask[g]? = some false) (passes : mask[other]? = some true) :
    ∀ row ∈ blockIdx size other, row ∈ (order.flatMap (blockIdx size)).take k := by
  obtain ⟨front, back, rfl, all, none⟩ := exists_split ranked.sorted
  have early : ∀ row ∈ front.flatMap (blockIdx size), mask[row / size]? = some true := by
    intro row member
    obtain ⟨group, inside, here⟩ := List.mem_flatMap.mp member
    rw [(mem_blockIdx_iff_div positive).mp here]
    exact all group inside
  rw [List.flatMap_append, List.take_append] at taken ⊢
  have late : i ∉ front.flatMap (blockIdx size) := by
    intro member
    have marked := early i member
    rw [own, fails] at marked
    cases marked
  have enough : (front.flatMap (blockIdx size)).length < k := by
    rcases List.mem_append.mp taken with inFront | inBack
    · exact absurd (List.mem_of_mem_take inFront) late
    · by_contra short
      rw [Nat.sub_eq_zero_of_le (Nat.le_of_not_lt short), List.take_zero] at inBack
      cases inBack
  intro row member
  apply List.mem_append_left
  rw [List.take_of_length_le (Nat.le_of_lt enough)]
  have place : other ∈ front ++ back := by
    rw [ranked.perm.mem_iff, List.mem_range]
    exact (List.getElem?_eq_some_iff.mp passes).1
  rcases List.mem_append.mp place with inFront | inBack
  · exact List.mem_flatMap.mpr ⟨other, inFront, member⟩
  · exact absurd passes (none other inBack)

def markedOrder (mask : List Bool) : List Nat :=
  (List.range mask.length).filter (fun i => mask[i]? = some true) ++
    (List.range mask.length).filter (fun i => !decide (mask[i]? = some true))

theorem markedFirst_markedOrder (mask : List Bool) : MarkedFirst mask (markedOrder mask) := by
  constructor
  · exact List.filter_append_perm _ _
  · apply List.pairwise_append.mpr
    refine ⟨?_, ?_, ?_⟩
    · apply List.pairwise_of_forall_mem_list
      intro a member b _ _
      simpa using (List.mem_filter.mp member).2
    · apply List.pairwise_of_forall_mem_list
      intro a _ b member marked
      simp [marked] at member
    · intro a member b _ _
      simpa using (List.mem_filter.mp member).2

end Verl
