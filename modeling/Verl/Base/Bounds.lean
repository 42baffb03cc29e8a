import Mathlib.Order.Bounds.Basic
import Mathlib.Order.Lattice

/-! Cumulative lengths: increasing bounds, the widths of the stretches between them, and what one
more stretch at the end does to them. Also the next multiple that a length is padded to. -/
namespace Verl

structure IsBounds (bounds : List Nat) (n : Nat) : Prop where
  first : bounds.head? = some 0
  last : bounds.getLast? = some n
  increasing : bounds.Pairwise (· < ·)

def widths : List Nat → List Nat
  | start :: stop :: bounds => (stop - start) :: widths (stop :: bounds)
  | _ => []

/-- The largest entry, and 0 where there is none. -/
def largest (xs : List Nat) : Nat := xs.foldr max 0

section Bounds

variable {bounds : List Nat} {n k : Nat}

theorem IsBounds.le (isBounds : IsBounds bounds n) {b : Nat} (member : b ∈ bounds) : b ≤ n := by
  obtain ⟨front, rfl⟩ := List.getLast?_eq_some_iff.mp isBounds.last
  rcases List.mem_append.mp member with inFront | atEnd
  · exact Nat.le_of_lt
      ((List.pairwise_append.mp isBounds.increasing).2.2 b inFront n (List.mem_singleton_self n))
  · exact Nat.le_of_eq (List.mem_singleton.mp atEnd)

theorem IsBounds.concat (isBounds : IsBounds bounds n) (wide : 0 < k) :
    IsBounds (bounds ++ [n + k]) (n + k) where
  first := by
    obtain ⟨tail, rfl⟩ := List.head?_eq_some_iff.mp isBounds.first
    rfl
  last := List.getLast?_concat
  increasing := by
    refine List.pairwise_append.mpr ⟨isBounds.increasing, List.pairwise_singleton _ _,
      fun b member c new => ?_⟩
    rw [List.mem_singleton.mp new]
    exact Nat.lt_of_le_of_lt (isBounds.le member) (Nat.lt_add_of_pos_right wide)

theorem widths_concat (last : bounds.getLast? = some n) :
    widths (bounds ++ [n + k]) = widths bounds ++ [k] := by
  induction bounds with
  | nil => cases last
  | cons start bounds ih =>
    cases bounds with
    | nil =>
      cases last
      simp [widths]
    | cons stop bounds => exact congrArg ((stop - start) :: ·) (ih (List.getLast?_cons_cons ▸ last))

end Bounds

section Largest

variable {xs : List Nat}

theorem largest_concat (x : Nat) : largest (xs ++ [x]) = max (largest xs) x := by
  induction xs with
  | nil => exact Nat.max_comm x 0
  | cons y xs ih =>
    rw [List.cons_append, largest, List.foldr_cons, ← largest, ih, ← Nat.max_assoc]
    rfl

theorem isGreatest_largest (some : xs ≠ []) : IsGreatest {x | x ∈ xs} (largest xs) := by
  induction xs with
  | nil => exact absurd rfl some
  | cons x xs ih =>
    have entries : {y | y ∈ x :: xs} = insert x {y | y ∈ xs} := Set.ext (fun y => List.mem_cons)
    cases xs with
    | nil =>
      exact ⟨List.mem_singleton.mpr (Nat.max_zero x), fun y member =>
      List.mem_singleton.mp member ▸ Nat.le_max_left x 0⟩
    | cons y xs =>
      rw [entries]
      exact (ih (List.cons_ne_nil y xs)).insert x

end Largest

theorem isLeast_padded {n k : Nat} (positive : 0 < k) (odd : ¬k ∣ n) :
    IsLeast {m | k ∣ m ∧ n ≤ m} (n + (k - n % k)) := by
  have below := Nat.mod_lt n positive
  have split := Nat.div_add_mod n k
  have next : n + (k - n % k) = k * (n / k + 1) := by
    rw [Nat.mul_add_one]
    omega
  constructor
  · exact ⟨next ▸ Nat.dvd_mul_right k _, Nat.le_add_right n _⟩
  · rintro m ⟨⟨q, rfl⟩, long⟩
    rw [next]
    apply Nat.mul_le_mul_left
    have different : n ≠ k * q := fun same => odd ⟨q, same⟩
    have beyond : n < k * q := Nat.lt_of_le_of_ne long different
    exact (Nat.div_lt_iff_lt_mul positive).mpr (Nat.mul_comm k q ▸ beyond)

end Verl
