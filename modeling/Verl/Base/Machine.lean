import Mathlib.Data.List.Induction

/-! Machines that take one event at a time, and what holds along all their runs. -/
namespace Verl

/-- `none` where the event is not possible. -/
structure Machine (σ : Type u) (ε : Type v) where
  step : σ → ε → Option σ

namespace Machine

variable {σ : Type u} {ε : Type v} (m : Machine σ ε)

def run (s : σ) : List ε → Option σ
  | [] => some s
  | e :: es => (m.step s e).bind (fun s => run s es)

variable {m}

theorem run_append (s : σ) (es later : List ε) :
    m.run s (es ++ later) = (m.run s es).bind (fun s => m.run s later) := by
  induction es generalizing s with
  | nil => rfl
  | cons e es ih =>
    rw [List.cons_append, run, run, Option.bind_assoc]
    exact congrArg _ (funext ih)

def Along (m : Machine σ ε) (ok : σ → ε → Prop) (s : σ) : List ε → Prop
  | [] => True
  | e :: es => ok s e ∧
    match m.step s e with
    | none => True
    | some next => Along m ok next es

theorem run_invariant_along {ok : σ → ε → Prop} {P : List ε → σ → Prop}
    (keeps : ∀ es s e s', P es s → ok s e → m.step s e = some s' → P (es ++ [e]) s')
    {s s' : σ} {es : List ε}
    (start : P [] s) (along : m.Along ok s es) (ran : m.run s es = some s') : P es s' := by
  suffices seen : ∀ before s, P before s → m.Along ok s es → m.run s es = some s' →
      P (before ++ es) s' by
    exact seen [] s start along ran
  clear start along ran
  induction es with
  | nil =>
    intro before s here _ ran
    cases ran
    rwa [List.append_nil]
  | cons e es ih =>
    intro before s here along ran
    obtain ⟨allowed, later⟩ := along
    rw [run, Option.bind_eq_some_iff] at ran
    obtain ⟨next, stepped, ran⟩ := ran
    rw [stepped] at later
    rw [List.append_cons]
    exact ih (before ++ [e]) next (keeps before s e next here allowed stepped) later ran

section Termination

variable {μ : σ → Nat} (decreases : ∀ s e s', m.step s e = some s' → μ s' < μ s)
include decreases

end Termination

end Machine

end Verl
