import Mathlib.Data.List.Infix

/-! `re.sub`: what a rule puts in the place of the matches, from left to right and none inside
another. A rule gives, for the text from a position on, the replacement and what stands behind the
match. -/
namespace Verl

variable {α : Type u}

abbrev Rule (α : Type u) := List α → Option (List α × List α)

def subFrom (rule : Rule α) : Nat → List α → List α
  | 0, s => s
  | fuel + 1, s =>
    match rule s with
    | some (new, rest) => new ++ subFrom rule fuel rest
    | none =>
      match s with
      | [] => []
      | c :: s => c :: subFrom rule fuel s

/-- `re.sub` for a pattern that matches no empty text. -/
def sub (rule : Rule α) (s : List α) : List α := subFrom rule (s.length + 1) s

def Shortens (rule : Rule α) : Prop :=
  ∀ s new rest : List α, rule s = some (new, rest) → new.length + rest.length < s.length

section Sub

variable {rule : Rule α} {s new rest : List α}

theorem subFrom_match (found : rule s = some (new, rest)) (fuel : Nat) :
    subFrom rule (fuel + 1) s = new ++ subFrom rule fuel rest := by
  rw [subFrom.eq_def]
  simp only [found]

theorem subFrom_skip {c : α} (none : rule (c :: s) = none) (fuel : Nat) :
    subFrom rule (fuel + 1) (c :: s) = c :: subFrom rule fuel s := by
  rw [subFrom.eq_def]
  simp only [none]

theorem sub_nil (none : rule [] = none) : sub rule [] = [] := by
  rw [sub, subFrom.eq_def]
  simp only [none]

theorem sub_of_kept
    (kept : ∀ b, b <:+ s → ∀ new rest, rule b = some (new, rest) → b = new ++ rest) :
    sub rule s = s := by
  have each : ∀ fuel, ∀ b, b <:+ s → subFrom rule fuel b = b := by
    intro fuel
    induction fuel with
    | zero => exact fun b _ => rfl
    | succ fuel ih =>
      intro b inside
      cases found : rule b with
      | some cut =>
        obtain ⟨new, rest⟩ := cut
        have same := kept b inside new rest found
        rw [subFrom_match found,
          ih rest ((List.suffix_append new rest).trans (same ▸ inside)), ← same]
      | none =>
        cases b with
        | nil =>
          rw [subFrom.eq_def]
          simp only [found]
        | cons c b => rw [subFrom_skip found, ih b ((List.suffix_cons c b).trans inside)]
  exact each _ s (List.suffix_refl s)

theorem sub_of_nowhere (nowhere : ∀ b, b <:+ s → rule b = none) : sub rule s = s := by
  refine sub_of_kept (fun b inside new rest found => ?_)
  rw [nowhere b inside] at found
  cases found

variable (shortens : Shortens rule)
include shortens

theorem subFrom_enough {fuel : Nat} (enough : s.length < fuel) :
    subFrom rule fuel s = sub rule s := by
  induction h : s.length using Nat.strongRecOn generalizing s fuel with
  | ind len ih =>
    subst h
    obtain ⟨fuel, rfl⟩ := Nat.exists_eq_succ_of_ne_zero (Nat.ne_of_gt (Nat.zero_lt_of_lt enough))
    cases found : rule s with
    | none =>
      cases s with
      | nil =>
        rw [sub_nil found, subFrom.eq_def]
        simp only [found]
      | cons c s =>
        have shorter : s.length < (c :: s).length := Nat.lt_succ_self _
        rw [sub, subFrom_skip found, subFrom_skip found,
          ih _ shorter (Nat.lt_of_succ_lt_succ enough) rfl, ih _ shorter shorter rfl]
    | some cut =>
      obtain ⟨new, rest⟩ := cut
      have shorter := shortens _ _ _ found
      rw [sub, subFrom_match found, subFrom_match found, ih _ (by omega) (by omega) rfl,
        ih _ (by omega) (by omega) rfl]

theorem sub_match (found : rule s = some (new, rest)) : sub rule s = new ++ sub rule rest := by
  have shorter := shortens _ _ _ found
  rw [sub, subFrom_match found, subFrom_enough shortens (by omega)]

theorem sub_skip {c : α} (none : rule (c :: s) = none) : sub rule (c :: s) = c :: sub rule s := by
  rw [sub, subFrom_skip none, subFrom_enough shortens (by simp)]

theorem sub_subset (copies : ∀ s new rest, rule s = some (new, rest) → new ⊆ s ∧ rest ⊆ s)
    (s : List α) : sub rule s ⊆ s := by
  induction h : s.length using Nat.strongRecOn generalizing s with
  | ind len ih =>
    subst h
    cases found : rule s with
    | none =>
      cases s with
      | nil => rw [sub_nil found]
               exact List.Subset.refl []
      | cons c s =>
        rw [sub_skip shortens found]
        exact List.cons_subset_cons c (ih s.length (Nat.lt_succ_self _) s rfl)
    | some cut =>
      obtain ⟨new, rest⟩ := cut
      have shorter := shortens _ _ _ found
      obtain ⟨fromNew, fromRest⟩ := copies s new rest found
      rw [sub_match shortens found]
      exact List.append_subset.mpr ⟨fromNew,
        List.Subset.trans (ih rest.length (by omega) rest rfl) fromRest⟩

theorem sub_eq_or_shorter (s : List α) : sub rule s = s ∨ (sub rule s).length < s.length := by
  induction h : s.length using Nat.strongRecOn generalizing s with
  | ind len ih =>
    subst h
    cases found : rule s with
    | none =>
      cases s with
      | nil => exact .inl (sub_nil found)
      | cons c s =>
        rw [sub_skip shortens found]
        rcases ih s.length (Nat.lt_succ_self _) s rfl with same | less
        · rw [same]
          exact .inl rfl
        · exact .inr (Nat.succ_lt_succ less)
    | some cut =>
      obtain ⟨new, rest⟩ := cut
      have shorter := shortens _ _ _ found
      right
      rw [sub_match shortens found, List.length_append]
      rcases ih rest.length (by omega) rest rfl with same | less
      · rw [same]
        exact shorter
      · omega

theorem length_sub_le (s : List α) : (sub rule s).length ≤ s.length := by
  rcases sub_eq_or_shorter shortens s with same | less
  · rw [same]
  · exact Nat.le_of_lt less

theorem sub_eq_self_iff : sub rule s = s ↔ ∀ b, b <:+ s → rule b = none := by
  constructor
  · intro fixed
    induction s with
    | nil =>
      intro b inside
      obtain rfl := List.suffix_nil.mp inside
      cases found : rule [] with
      | none => rfl
      | some cut => exact absurd (shortens _ _ _ found) (Nat.not_lt_zero _)
    | cons c s ih =>
      cases found : rule (c :: s) with
      | some cut =>
        obtain ⟨new, rest⟩ := cut
        have shorter := shortens _ _ _ found
        have less : (sub rule (c :: s)).length < (c :: s).length := by
          rw [sub_match shortens found, List.length_append]
          have bound := length_sub_le shortens rest
          omega
        exact absurd (congrArg List.length fixed) (Nat.ne_of_lt less)
      | none =>
        rw [sub_skip shortens found] at fixed
        intro b inside
        rcases List.suffix_cons_iff.mp inside with rfl | within
        · exact found
        · exact ih (List.cons.inj fixed).2 b within
  · exact sub_of_nowhere

end Sub

section Repeat

/-- `while True` around a substitution, until a round changes nothing. -/
def subUntil [DecidableEq α] (rule : Rule α) : Nat → List α → List α
  | 0, s => s
  | fuel + 1, s => if sub rule s = s then s else subUntil rule fuel (sub rule s)

def subAll [DecidableEq α] (rule : Rule α) (s : List α) : List α := subUntil rule (s.length + 1) s

variable [DecidableEq α] {rule : Rule α}

theorem subUntil_of_fixed {s : List α} (fixed : sub rule s = s) (fuel : Nat) :
    subUntil rule fuel s = s := by
  cases fuel with
  | zero => rfl
  | succ fuel => rw [subUntil, if_pos fixed]

theorem sub_subUntil (shortens : Shortens rule) {fuel : Nat} {s : List α}
    (enough : s.length < fuel) :
    sub rule (subUntil rule fuel s) = subUntil rule fuel s := by
  induction fuel generalizing s with
  | zero => exact absurd enough (Nat.not_lt_zero _)
  | succ fuel ih =>
    rw [subUntil]
    split
    · assumption
    · rename_i changed
      have less := (sub_eq_or_shorter shortens s).resolve_left changed
      exact ih (by omega)

/-- The runs of the loop that end: the last round is the first one that changes nothing. -/
inductive Loops (rule : Rule α) : List α → List α → Prop
  | leave {s : List α} (same : sub rule s = s) : Loops rule s s
  | round {s t : List α} (changed : sub rule s ≠ s) (later : Loops rule (sub rule s) t) :
    Loops rule s t

theorem loops_subUntil (shortens : Shortens rule) {fuel : Nat} {s : List α}
    (enough : s.length < fuel) :
    Loops rule s (subUntil rule fuel s) := by
  induction fuel generalizing s with
  | zero => exact absurd enough (Nat.not_lt_zero _)
  | succ fuel ih =>
    rw [subUntil]
    split
    · exact .leave ‹_›
    · rename_i changed
      have less := (sub_eq_or_shorter shortens s).resolve_left changed
      exact .round changed (ih (by omega))

theorem loops_subAll (shortens : Shortens rule) (s : List α) : Loops rule s (subAll rule s) :=
  loops_subUntil shortens (Nat.lt_succ_self _)

theorem subAll_eq_self_iff (shortens : Shortens rule) {s : List α} :
    subAll rule s = s ↔ sub rule s = s := by
  constructor
  · intro kept
    have fixed := sub_subUntil shortens (Nat.lt_succ_self s.length)
    rwa [← subAll, kept] at fixed
  · exact fun fixed => subUntil_of_fixed fixed _

theorem subUntil_induction {P : List α → Prop} (step : ∀ s, P s → P (sub rule s)) {s : List α}
    (start : P s) (fuel : Nat) :
    P (subUntil rule fuel s) := by
  induction fuel generalizing s with
  | zero => exact start
  | succ fuel ih =>
    rw [subUntil]
    split
    · exact start
    · exact ih (step s start)

theorem subUntil_succ {s t : List α} (once : sub rule s = t) (fuel : Nat) (changed : t ≠ s) :
    subUntil rule (fuel + 1) s = subUntil rule fuel t := by
  rw [subUntil, once, if_neg changed]

end Repeat

end Verl
