import Mathlib.Data.List.Induction
import Mathlib.Logic.Function.Basic

/-! A table of names in which the value of a name is copied to a shorter name, one name
after the other: what each name holds in the end, and where it comes from. -/
namespace Verl

variable {N : Type u} [DecidableEq N] {V : Type v} (strip : N → Option N)

def move (table : N → V) (name : N) : N → V :=
  match strip name with
  | some short => Function.update table short (table name)
  | none => table

def moveAll (table : N → V) (names : List N) : N → V := names.foldl (move strip) table

variable {strip} {table : N → V}

theorem move_target {x y : N} (short : strip x = some y) : move strip table x y = table x := by
  simp [move, short]

theorem move_other {x y : N} (other : strip x ≠ some y) : move strip table x y = table y := by
  cases found : strip x with
  | none => simp [move, found]
  | some short =>
    have different : y ≠ short := by
      rintro rfl
      exact other found
    simp [move, found, different]

theorem moveAll_append (front back : List N) (table : N → V) :
    moveAll strip table (front ++ back) = moveAll strip (moveAll strip table front) back := by
  simp [moveAll]

theorem moveAll_untouched {names : List N} {y : N} (never : ∀ x ∈ names, strip x ≠ some y) :
    moveAll strip table names y = table y := by
  induction names generalizing table with
  | nil => rfl
  | cons x names ih =>
    have rest : ∀ x ∈ names, strip x ≠ some y :=
      fun x later => never x (List.mem_cons_of_mem _ later)
    exact (ih rest).trans (move_other (never x List.mem_cons_self))

theorem moveAll_read {front back : List N} {x y : N} (short : strip x = some y)
    (once : ∀ z ∈ back, strip z ≠ some y) :
    moveAll strip table (front ++ x :: back) y = moveAll strip table front x := by
  rw [moveAll_append]
  exact (moveAll_untouched once).trans (move_target short)

section Origin

variable {size : N → Nat} (smaller : ∀ {x y}, strip x = some y → size y < size x)

include smaller

theorem moveAll_origin (names : List N) (y : N) :
    ∃ z, moveAll strip table names y = table z ∧ (z = y ∨ size y < size z) := by
  induction names using List.reverseRecOn generalizing y with
  | nil => exact ⟨y, rfl, .inl rfl⟩
  | append_singleton names x ih =>
    rw [moveAll_append]
    by_cases short : strip x = some y
    · obtain ⟨z, value, source⟩ := ih x
      refine ⟨z, (move_target short).trans value, .inr ?_⟩
      rcases source with rfl | longer
      · exact smaller short
      · exact Nat.lt_trans (smaller short) longer
    · obtain ⟨z, value, source⟩ := ih y
      exact ⟨z, (move_other short).trans value, source⟩

theorem moveAll_copied {names : List N} {x y : N} (member : x ∈ names) (short : strip x = some y) :
    ∃ z, moveAll strip table names y = table z ∧ size y < size z := by
  induction names using List.reverseRecOn with
  | nil => cases member
  | append_singleton names last ih =>
    rw [moveAll_append]
    by_cases now : strip last = some y
    · obtain ⟨z, value, source⟩ := moveAll_origin smaller names last
      refine ⟨z, (move_target now).trans value, ?_⟩
      rcases source with rfl | longer
      · exact smaller now
      · exact Nat.lt_trans (smaller now) longer
    · have before : x ∈ names := by
        rcases List.mem_append.mp member with before | same
        · exact before
        · rw [List.mem_singleton.mp same] at short
          exact absurd short now
      obtain ⟨z, value, longer⟩ := ih before
      exact ⟨z, (move_other now).trans value, longer⟩

end Origin

end Verl
