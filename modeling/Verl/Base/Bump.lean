import Mathlib.Algebra.BigOperators.Group.List.Basic
import Mathlib.Algebra.GroupWithZero.Nat
import Verl.Base.Blocks

/-! Requests that are served one behind the other, in an area for each key. Every request starts
where the padded requests before it in its area end, so the place of a request is decided by the
padding of the ones before it alone. -/
namespace Verl.Bump

variable {ι κ : Type} [DecidableEq κ]

section Model

variable (key : ι → κ) (pad : ι → Nat)

def after (free : κ → Nat) (x : ι) : κ → Nat :=
  fun k => if k = key x then free k + pad x else free k

def slots : (κ → Nat) → List ι → List (ι × Nat)
  | _, [] => []
  | free, x :: xs => (x, free (key x)) :: slots (after key pad free x) xs

def total (xs : List ι) (k : κ) : Nat := ((xs.filter (fun x => key x = k)).map pad).sum

end Model

variable {key : ι → κ} {pad pad' : ι → Nat} {free free' : κ → Nat} {xs : List ι}

theorem total_cons (x : ι) (xs : List ι) (k : κ) :
    total key pad (x :: xs) k = (if key x = k then pad x else 0) + total key pad xs k := by
  by_cases here : key x = k <;> simp [total, here]

@[simp] theorem map_fst_slots : (slots key pad free xs).map Prod.fst = xs := by
  induction xs generalizing free with
  | nil => rfl
  | cons x xs ih => rw [slots, List.map_cons, ih]

theorem fst_mem {slot : ι × Nat} (member : slot ∈ slots key pad free xs) : slot.1 ∈ xs := by
  have fsts : (slots key pad free xs).map Prod.fst = xs := map_fst_slots
  rw [← fsts]
  exact List.mem_map_of_mem member

theorem free_le {slot : ι × Nat} (member : slot ∈ slots key pad free xs) :
    free (key slot.1) ≤ slot.2 := by
  induction xs generalizing free with
  | nil => cases member
  | cons x xs ih =>
    rcases List.mem_cons.mp member with rfl | later
    · exact Nat.le_refl _
    · have above := ih later
      unfold after at above
      split at above
      · exact Nat.le_trans (Nat.le_add_right _ _) above
      · exact above

theorem add_pad_le {slot : ι × Nat} (member : slot ∈ slots key pad free xs) :
    slot.2 + pad slot.1 ≤ free (key slot.1) + total key pad xs (key slot.1) := by
  induction xs generalizing free with
  | nil => cases member
  | cons x xs ih =>
    rw [total_cons]
    rcases List.mem_cons.mp member with rfl | later
    · simp only [if_true]
      omega
    · have below := ih later
      unfold after at below
      split at below
      · rename_i same
        rw [if_pos same.symm]
        omega
      · omega

theorem pairwise_slots :
    (slots key pad free xs).Pairwise (fun a b => key a.1 = key b.1 → a.2 + pad a.1 ≤ b.2) := by
  induction xs generalizing free with
  | nil => exact .nil
  | cons x xs ih =>
    refine .cons ?_ ih
    intro b later same
    have above := free_le later
    rw [after, if_pos same.symm, ← same] at above
    exact above

theorem dvd_start (unit : κ → Nat) (starts : ∀ k, unit k ∣ free k)
    (pads : ∀ x ∈ xs, unit (key x) ∣ pad x) {slot : ι × Nat}
    (member : slot ∈ slots key pad free xs) : unit (key slot.1) ∣ slot.2 := by
  induction xs generalizing free with
  | nil => cases member
  | cons x xs ih =>
    rcases List.mem_cons.mp member with rfl | later
    · exact starts _
    · apply ih _ (fun y inside => pads y (List.mem_cons_of_mem x inside)) later
      intro k
      unfold after
      split
      · rename_i same
        exact Nat.dvd_add (starts k) (same ▸ pads x List.mem_cons_self)
      · exact starts k

theorem slots_eq_iff : slots key pad free xs = slots key pad' free' xs ↔
    (∀ x ∈ xs, free (key x) = free' (key x)) ∧
      xs.Pairwise (fun x y => key x = key y → pad x = pad' x) := by
  induction xs generalizing free free' with
  | nil => simp [slots]
  | cons x xs ih =>
    rw [slots, slots, List.cons.injEq, Prod.mk.injEq, ih, List.pairwise_cons, List.forall_mem_cons]
    constructor
    · rintro ⟨⟨-, first⟩, later, rest⟩
      refine ⟨⟨first, fun y member => ?_⟩, fun y member same => ?_, rest⟩
      · have agree := later y member
        by_cases same : key y = key x
        · rw [same]
          exact first
        · simpa only [after, if_neg same] using agree
      · have agree := later y member
        simp only [after, ← same, first] at agree
        exact Nat.add_left_cancel agree
    · rintro ⟨⟨first, frees⟩, pads, rest⟩
      refine ⟨⟨rfl, first⟩, fun y member => ?_, rest⟩
      by_cases same : key y = key x
      · simp only [after, same, first, pads y member same.symm]
      · simp only [after, if_neg same, frees y member]

/-- Two paddings give all requests the same places exactly when they agree on every request that is
followed by another of its area. -/
theorem slots_congr_iff : slots key pad free xs = slots key pad' free xs ↔
    xs.Pairwise (fun x y => key x = key y → pad x = pad' x) := by
  rw [slots_eq_iff]
  simp

end Verl.Bump
