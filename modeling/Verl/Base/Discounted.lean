import Mathlib.Algebra.BigOperators.Intervals
import Mathlib.Algebra.BigOperators.Ring.Finset
import Mathlib.Tactic.Ring

/-! Discounted sums over the rest of a finite horizon. A loop that runs backwards and carries
`total = f t + rate * total` computes them. -/
namespace Verl

open Finset

variable {K : Type} [CommSemiring K]

/-- The terms from `t` up to `n`, each `rate` times the one before. -/
def discounted (rate : K) (f : Nat → K) (n t : Nat) : K := ∑ l ∈ range (n - t), rate ^ l * f (t + l)

variable (rate : K) (f : Nat → K) {n t : Nat}

theorem discounted_past (past : n ≤ t) : discounted rate f n t = 0 := by
  rw [discounted, Nat.sub_eq_zero_of_le past, range_zero, sum_empty]

theorem discounted_step (inside : t < n) :
    discounted rate f n t = f t + rate * discounted rate f n (t + 1) := by
  have count : n - t = n - (t + 1) + 1 := by omega
  unfold discounted
  rw [count, sum_range_succ', mul_sum, add_comm]
  congr 1
  · rw [pow_zero, one_mul, Nat.add_zero]
  · apply sum_congr rfl
    intro l _
    rw [Nat.add_right_comm, Nat.add_assoc]
    ring

variable {rate f}

theorem discounted_unique {g : Nat → K} (last : g n = 0)
    (step : ∀ t < n, g t = f t + rate * g (t + 1)) (before : t ≤ n) :
    g t = discounted rate f n t := by
  induction before using Nat.decreasingInduction with
  | self => rw [last, discounted_past rate f (Nat.le_refl n)]
  | of_succ t inside ih => rw [step t inside, discounted_step rate f inside, ih]

theorem discounted_congr {g : Nat → K} (same : ∀ s, t ≤ s → s < n → f s = g s) :
    discounted rate f n t = discounted rate g n t := by
  apply sum_congr rfl
  intro l member
  have inside := mem_range.mp member
  rw [same (t + l) (Nat.le_add_right t l) (by omega)]

theorem discounted_zero (none : ∀ s, t ≤ s → s < n → f s = 0) : discounted rate f n t = 0 := by
  rw [discounted_congr none]
  simp [discounted]

theorem discounted_truncate {m : Nat} (shorter : m ≤ n) (none : ∀ s, m ≤ s → s < n → f s = 0)
    (before : t ≤ m) :
    discounted rate f n t = discounted rate f m t := by
  apply discounted_unique (g := discounted rate f n) _ _ before
  · exact discounted_zero none
  · intro s inside
    exact discounted_step rate f (Nat.lt_of_lt_of_le inside shorter)

theorem discounted_single {k : Nat} (before : t ≤ k) (inside : k < n)
    (only : ∀ s, t ≤ s → s < n → s ≠ k → f s = 0) :
    discounted rate f n t = rate ^ (k - t) * f k := by
  unfold discounted
  rw [sum_eq_single (k - t), Nat.add_sub_cancel' before]
  · intro l member other
    have below := mem_range.mp member
    rw [only (t + l) (Nat.le_add_right t l) (by omega) (by omega), mul_zero]
  · intro absent
    exact absurd (mem_range.mpr (by omega)) absent

theorem discounted_succ :
    discounted rate f (n + 1) (t + 1) = discounted rate (fun s => f (s + 1)) n t := by
  unfold discounted
  rw [Nat.add_sub_add_right]
  apply sum_congr rfl
  intro l _
  rw [Nat.add_right_comm]

theorem discounted_eq_sum_Ico : discounted rate f n t = ∑ s ∈ Ico t n, rate ^ (s - t) * f s := by
  rw [sum_Ico_eq_sum_range]
  apply sum_congr rfl
  intro l _
  rw [Nat.add_sub_cancel_left]

section Cumsum

def cumsum (total : K) : List K → List K
  | [] => []
  | x :: xs => (total + x) :: cumsum (total + x) xs

def flipCumsumFlip (xs : List K) : List K := (cumsum 0 xs.reverse).reverse

theorem cumsum_concat (total : K) (xs : List K) (x : K) :
    cumsum total (xs ++ [x]) = cumsum total xs ++ [total + xs.sum + x] := by
  induction xs generalizing total with
  | nil => simp [cumsum]
  | cons y xs ih => simp [cumsum, ih, add_assoc]

theorem flipCumsumFlip_cons (x : K) (xs : List K) :
    flipCumsumFlip (x :: xs) = (x :: xs).sum :: flipCumsumFlip xs := by
  unfold flipCumsumFlip
  rw [List.reverse_cons, cumsum_concat, List.reverse_append, List.sum_reverse, zero_add,
    List.sum_cons, add_comm]
  rfl

theorem getD_flipCumsumFlip (xs : List K) (t : Nat) :
    (flipCumsumFlip xs).getD t 0 = discounted 1 (xs.getD · 0) xs.length t := by
  induction xs generalizing t with
  | nil => exact (discounted_past 1 _ (Nat.zero_le t)).symm
  | cons x xs ih =>
    rw [flipCumsumFlip_cons]
    cases t with
    | zero =>
      have tail : xs.sum = discounted 1 (xs.getD · 0) xs.length 0 := by
        rw [← ih]
        cases xs with
        | nil => rfl
        | cons y xs => rw [flipCumsumFlip_cons]; rfl
      rw [List.length_cons, discounted_step _ _ (Nat.zero_lt_succ _), discounted_succ, one_mul]
      simp only [List.getD_cons_zero, List.getD_cons_succ, List.sum_cons, tail]
    | succ t =>
      rw [List.length_cons, discounted_succ]
      simpa only [List.getD_cons_succ] using ih t

end Cumsum

end Verl
