import Mathlib.Data.List.Infix
import Mathlib.Tactic.Common

/-! Nesting of one pair of brackets in a word, by counting. -/
namespace Verl

structure Brackets (α : Type u) where
  left : α
  right : α
  apart : left ≠ right

namespace Brackets

variable {α : Type u} [DecidableEq α] (b : Brackets α)

def height (s : List α) : Int := s.count b.left - s.count b.right

def Balanced (s : List α) : Prop := b.height s = 0 ∧ ∀ w, w <+: s → 0 ≤ b.height w

instance : DecidablePred b.Balanced := fun s =>
  decidable_of_iff (b.height s = 0 ∧ ∀ w ∈ s.inits,
    0 ≤ b.height w) (by simp only [Balanced, List.mem_inits])

/-- Started at depth `d`, a closing bracket right behind `body` is the first one to reach depth
0. -/
def Closes (d : Int) (body : List α) : Prop :=
  d + b.height body = 1 ∧ ∀ w z, body = w ++ b.right :: z → d + b.height w ≠ 1

variable {b}

theorem height_append (s t : List α) : b.height (s ++ t) = b.height s + b.height t := by
  simp only [height, List.count_append]
  push_cast
  omega

theorem height_cons (x : α) (s : List α) : b.height (x :: s) = b.height [x] + b.height s :=
  height_append [x] s

@[simp] theorem height_nil : b.height [] = 0 := rfl

@[simp] theorem height_left : b.height [b.left] = 1 := by
  simp [height, b.apart]

@[simp] theorem height_right : b.height [b.right] = -1 := by
  simp [height, b.apart.symm]

theorem height_other {x : α} (notLeft : x ≠ b.left) (notRight : x ≠ b.right) :
    b.height [x] = 0 := by
  simp [height, notLeft, notRight]

theorem closes_nil_iff {d : Int} : b.Closes d [] ↔ d = 1 := by
  simp [Closes]

theorem closes_cons_iff {d : Int} {x : α} {body : List α} :
    b.Closes d (x :: body) ↔ (x = b.right → d ≠ 1) ∧ b.Closes (d + b.height [x]) body := by
  have later : ∀ w, d + b.height (x :: w) = d + b.height [x] + b.height w := by
    intro w
    rw [height_cons, Int.add_assoc]
  constructor
  · rintro ⟨ends, first⟩
    refine ⟨?_, ?_, ?_⟩
    · rintro rfl
      simpa using first [] body rfl
    · rw [← later, ends]
    · rintro w z rfl
      rw [← later]
      exact first (x :: w) z rfl
  · rintro ⟨here, ends, first⟩
    refine ⟨by rw [later, ends], ?_⟩
    intro w z same
    cases w with
    | nil =>
      obtain ⟨rfl, -⟩ := List.cons.inj same
      simpa using here rfl
    | cons y w =>
      obtain ⟨rfl, rest⟩ := List.cons.inj same
      rw [later]
      exact first w z rest

theorem closes_of_balanced {s : List α} (balanced : b.Balanced s) : b.Closes 0 (b.left :: s) := by
  rw [closes_cons_iff, height_left]
  refine ⟨fun same => absurd same b.apart, ?_, ?_⟩
  · rw [balanced.1]
    rfl
  · rintro w z rfl
    have below := balanced.2 (w ++ [b.right]) ⟨z, by simp⟩
    rw [height_append, height_right] at below
    omega

theorem left_mem_of_closes {body : List α} (closes : b.Closes 0 body) : b.left ∈ body := by
  have ends := closes.1
  by_contra absent
  simp only [height, List.count_eq_zero_of_not_mem absent] at ends
  omega

end Brackets

end Verl
