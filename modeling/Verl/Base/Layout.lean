import Mathlib.Data.List.Chain

/-! Pieces laid one after another: each is placed from a start that the piece before it leaves. -/
namespace Verl

variable {β : Type u} {σ : Type v} {γ : Type w}

def layFrom (place : β → σ → γ) (next : β → σ → σ) (start : σ) : List β → List γ
  | [] => []
  | b :: bs => place b start :: layFrom place next (next b start) bs

def endFrom (next : β → σ → σ) (start : σ) (bs : List β) : σ := bs.foldl (fun s b => next b s) start

variable {place : β → σ → γ} {next : β → σ → σ} {start : σ} {bs : List β}

@[simp] theorem endFrom_cons (b : β) :
    endFrom next start (b :: bs) = endFrom next (next b start) bs := rfl

theorem layFrom_append (more : List β) :
    layFrom place next start (bs ++ more) = layFrom place next start bs ++
      layFrom place next (endFrom next start bs) more := by
  induction bs generalizing start with
  | nil => rfl
  | cons b bs ih => exact congrArg (place b start :: ·) ih

theorem flatMap_layFrom {δ : Type x} {f : γ → List δ} {g : β → List δ}
    (same : ∀ b s, f (place b s) = g b) :
    (layFrom place next start bs).flatMap f = bs.flatMap g := by
  induction bs generalizing start with
  | nil => rfl
  | cons b bs ih =>
    rw [layFrom, List.flatMap_cons, List.flatMap_cons, same, ih]

theorem filterMap_layFrom {δ : Type x} {f : γ → Option δ} {g : β → Option δ}
    (same : ∀ b s, f (place b s) = g b) :
    (layFrom place next start bs).filterMap f = bs.filterMap g := by
  induction bs generalizing start with
  | nil => rfl
  | cons b bs ih =>
    rw [layFrom, List.filterMap_cons, List.filterMap_cons, same, ih]

/-- What holds of the start and is kept by each piece holds where each piece is placed. -/
theorem exists_of_mem_layFrom {P : σ → Prop} (keeps : ∀ b ∈ bs, ∀ s, P s → P (next b s))
    (first : P start) {c : γ}
    (member : c ∈ layFrom place next start bs) : ∃ b ∈ bs, ∃ s, P s ∧ c = place b s := by
  induction bs generalizing start with
  | nil => cases member
  | cons b bs ih =>
    cases member with
    | head => exact ⟨b, List.mem_cons_self, start, first, rfl⟩
    | tail _ later =>
      obtain ⟨b', there, s, holds, rfl⟩ :=
        ih (fun b' there => keeps b' (List.mem_cons_of_mem b there))
        (keeps b List.mem_cons_self start first) later
      exact ⟨b', List.mem_cons_of_mem b there, s, holds, rfl⟩

/-- Neighbours are related when a piece is related to whatever is placed from where it ends. -/
theorem isChain_layFrom {R : γ → γ → Prop}
    (step : ∀ b ∈ bs, ∀ s, ∀ b' ∈ bs, R (place b s) (place b' (next b s))) :
    (layFrom place next start bs).IsChain R := by
  induction bs generalizing start with
  | nil => exact .nil
  | cons b bs ih =>
    have later : (layFrom place next (next b start) bs).IsChain R :=
      ih (fun c there s c' there' =>
        step c (List.mem_cons_of_mem b there) s c' (List.mem_cons_of_mem b there'))
    cases bs with
    | nil => exact .singleton _
    | cons b' bs =>
      refine .cons_cons ?_ later
      exact step b List.mem_cons_self start b' (List.mem_cons_of_mem b List.mem_cons_self)

end Verl
