import Verl.Base.Python

/-! Programs of ranks that run one source text and meet in broadcasts. A rank hands
in its own object or tensor and goes on with the one of the source rank. The ranks of
a group complete together when they are always at the same kind of broadcast, with
the same source and, for tensors, the same shape. -/
namespace Verl

/-- `S` are the objects, `X` the tensors that are broadcast. -/
inductive Spmd (S X α : Type) where
  | pure (a : α)
  | raise (e : PyError)
  | object (src : Nat) (mine : S) (next : S → Spmd S X α)
  | tensor (src : Nat) (mine : X) (next : X → Spmd S X α)

namespace Spmd

variable {S X H α β : Type}

def bind (p : Spmd S X α) (f : α → Spmd S X β) : Spmd S X β :=
  match p with
  | .pure a => f a
  | .raise e => .raise e
  | .object src mine next => .object src mine (fun s => (next s).bind f)
  | .tensor src mine next => .tensor src mine (fun x => (next x).bind f)

instance : Monad (Spmd S X) where
  pure := .pure
  bind := bind

def broadcastObject (src : Nat) (mine : S) : Spmd S X S := .object src mine .pure

def broadcastTensor (src : Nat) (mine : X) : Spmd S X X := .tensor src mine .pure

def lift : Py α → Spmd S X α
  | .ok a => .pure a
  | .error e => .raise e

@[simp] theorem lift_ok (a : α) : (lift (.ok a) : Spmd S X α) = .pure a := rfl

theorem bind_return (p : Spmd S X α) : p.bind .pure = p := by
  induction p with
  | pure a => rfl
  | raise e => rfl
  | object src mine next ih => exact congrArg (Spmd.object src mine) (funext ih)
  | tensor src mine next ih => exact congrArg (Spmd.tensor src mine) (funext ih)

theorem bind_bind {γ : Type} (p : Spmd S X α) (f : α → Spmd S X β) (g : β → Spmd S X γ) :
    (p.bind f).bind g = p.bind (fun a => (f a).bind g) := by
  induction p with
  | pure a => rfl
  | raise e => rfl
  | object src mine next ih => exact congrArg (Spmd.object src mine) (funext ih)
  | tensor src mine next ih => exact congrArg (Spmd.tensor src mine) (funext ih)

instance : LawfulMonad (Spmd S X) :=
  LawfulMonad.mk' (Spmd S X) bind_return (fun _ _ => rfl) bind_bind

@[simp] theorem return_bind (a : α) (f : α → Spmd S X β) :
    ((.pure a : Spmd S X α) >>= f) = f a := rfl

@[simp] theorem pure_eq (a : α) : (Pure.pure a : Spmd S X α) = .pure a := rfl

section Joint

variable (shape : X → H) (group : Nat → Prop)

/-- All ranks of the group run to their end, rank `r` with the result `out r`. -/
inductive Joint {α : Type} : (Nat → Spmd S X α) → (Nat → α) → Prop where
  | done {progs : Nat → Spmd S X α} {out : Nat → α} (all : ∀ r, group r → progs r = .pure (out r)) :
    Joint progs out
  | object {progs : Nat → Spmd S X α} {out : Nat → α} (src : Nat) (mine : Nat → S) (next : Nat →
    S → Spmd S X α)
      (member : group src) (all : ∀ r, group r → progs r = .object src (mine r) (next r))
      (rest : Joint (fun r => next r (mine src)) out) : Joint progs out
  | tensor {progs : Nat → Spmd S X α} {out : Nat → α} (src : Nat) (mine : Nat → X) (next : Nat →
    X → Spmd S X α)
      (member : group src) (all : ∀ r, group r → progs r = .tensor src (mine r) (next r))
      (shapes : ∀ r, group r → shape (mine r) = shape (mine src))
      (rest : Joint (fun r => next r (mine src)) out) : Joint progs out

end Joint

variable {shape : X → H} {group : Nat → Prop}

theorem Joint.congr {p q : Nat → Spmd S X α} {out : Nat → α} (joint : Joint shape group p out)
    (same : ∀ r, group r → q r = p r) : Joint shape group q out := by
  cases joint with
  | done all => exact .done (fun r member => (same r member).trans (all r member))
  | object src mine next member all rest =>
    exact .object src mine next member (fun r hr => (same r hr).trans (all r hr)) rest
  | tensor src mine next member all shapes rest =>
    exact .tensor src mine next member (fun r hr => (same r hr).trans (all r hr)) shapes rest

theorem Joint.pure (out : Nat → α) :
    Joint shape group (fun r => (.pure (out r) : Spmd S X α)) out :=
  .done (fun _ _ => rfl)

theorem Joint.bind {p : Nat → Spmd S X α} {middle : Nat → α} {f : Nat → α → Spmd S X β}
    {out : Nat → β} (first : Joint shape group p middle)
    (second : Joint shape group (fun r => f r (middle r)) out) :
    Joint shape group (fun r => p r >>= f r) out := by
  induction first with
  | done all => exact second.congr (fun r member => by rw [all r member]; rfl)
  | object src mine next member all rest ih =>
    exact .object src mine (fun r s => next r s >>=
      f r) member (fun r hr => by rw [all r hr]; rfl) (ih second)
  | tensor src mine next member all shapes rest ih =>
    exact .tensor src mine (fun r x => next r x >>= f r) member (fun r hr => by rw [all r hr]; rfl)
      shapes (ih second)

theorem Joint.broadcastObject {src : Nat} (member : group src) (mine : Nat → S) :
    Joint shape group (fun r => (broadcastObject src (mine r) : Spmd S X S)) (fun _ => mine src) :=
  .object src mine (fun _ => .pure) member (fun _ _ => rfl) (.pure _)

theorem Joint.broadcastTensor {src : Nat} (member : group src) (mine : Nat → X)
    (shapes : ∀ r, group r → shape (mine r) = shape (mine src)) :
    Joint shape group (fun r => (broadcastTensor src (mine r) : Spmd S X X)) (fun _ => mine src) :=
  .tensor src mine (fun _ => .pure) member (fun _ _ => rfl) shapes (.pure _)

theorem Joint.lift {code : Nat → Py α} (out : Nat → α)
    (runs : ∀ r, group r → code r = .ok (out r)) :
    Joint shape group (fun r => (Spmd.lift (code r) : Spmd S X α)) out :=
  .done (fun r member => by rw [runs r member, lift_ok])

theorem Joint.foldlM {f : Nat → α → Nat → Spmd S X α} {n : Nat} (invariant : Nat → (Nat → α) → Prop)
    {init : Nat → α} (start : invariant 0 init)
    (pass : ∀ i < n, ∀ state, invariant i state →
      ∃ next, Joint shape group (fun r => f r (state r) i) next ∧ invariant (i + 1) next) :
    ∃ out, Joint shape group (fun r => (List.range n).foldlM (f r) (init r)) out ∧
      invariant n out := by
  have upTo : ∀ k ≤ n, ∃ out,
    Joint shape group (fun r => (List.range k).foldlM (f r) (init r)) out ∧
      invariant k out := by
    intro k
    induction k with
    | zero => exact fun _ => ⟨init, .pure _, start⟩
    | succ k ih =>
      intro inside
      obtain ⟨state, front, held⟩ := ih (Nat.le_of_succ_le inside)
      obtain ⟨next, last, holds⟩ := pass k inside state held
      have both : Joint shape group (fun r => (List.range k).foldlM (f r) (init r) >>= fun a =>
        f r a k) next :=
        front.bind last
      refine ⟨next, both.congr (fun r _ => ?_), holds⟩
      simp only [List.range_succ, List.foldlM_append, List.foldlM_cons, List.foldlM_nil, bind_pure]
  exact upTo n (Nat.le_refl n)

theorem Joint.results {p : Nat → Spmd S X α} {out other : Nat → α} (joint : Joint shape group p out)
    (same : ∀ r, group r → out r = other r) : Joint shape group p other := by
  induction joint generalizing other with
  | done all => exact .done (fun r member => by rw [all r member, same r member])
  | object src mine next member all rest ih => exact .object src mine next member all (ih same)
  | tensor src mine next member all shapes rest ih =>
    exact .tensor src mine next member all shapes (ih same)

theorem Joint.mapM {f : α → Spmd S X α} {alike : α → α → Prop} {src : Nat}
    (each : ∀ x : Nat → α, (∀ r, group r → alike (x r) (x src)) →
      Joint shape group (fun r => f (x r)) (fun _ => x src))
    {xs : Nat → List α} (lists : ∀ r, group r → List.Forall₂ alike (xs r) (xs src)) :
    Joint shape group (fun r => (xs r).mapM f) (fun _ => xs src) := by
  generalize source : xs src = zs at lists
  induction zs generalizing xs with
  | nil =>
    refine (Joint.pure (fun _ => [])).congr (fun r hr => ?_)
    have empty := lists r hr
    generalize xs r = ys at empty ⊢
    cases empty
    rfl
  | cons z zs ih =>
    have heads : ∀ r, group r → ∃ y ys, xs r = y :: ys ∧ alike y z ∧ List.Forall₂ alike ys zs := by
      intro r hr
      have pair := lists r hr
      generalize xs r = ys at pair ⊢
      cases pair with
      | cons first rest => exact ⟨_, _, rfl, first, rest⟩
    have first : Joint shape group (fun r => f ((xs r).headD z)) (fun _ => z) := by
      have joint := each (fun r => (xs r).headD z) (by
        intro r hr
        obtain ⟨y, ys, same, hy, _⟩ := heads r hr
        simpa [same, source] using hy)
      simpa [source] using joint
    have rest : Joint shape group (fun r => (xs r).tail.mapM f) (fun _ => zs) := by
      refine ih (by rw [source, List.tail_cons]) ?_
      intro r hr
      obtain ⟨y, ys, same, _, hys⟩ := heads r hr
      simpa [same] using hys
    have both : Joint shape group (fun r => f ((xs r).headD z) >>= fun y =>
      (xs r).tail.mapM f >>= fun ys =>
        (.pure (y :: ys) : Spmd S X (List α))) (fun _ => z :: zs) := by
      refine Joint.bind first ?_
      exact Joint.bind rest (Joint.pure _)
    refine both.congr (fun r hr => ?_)
    obtain ⟨y, ys, same, _, _⟩ := heads r hr
    rw [same, List.mapM_cons]
    rfl

theorem Joint.mapM_option {f : α → Spmd S X α} {alike : α → α → Prop} {src : Nat}
    (each : ∀ x : Nat → α, (∀ r, group r → alike (x r) (x src)) →
      Joint shape group (fun r => f (x r)) (fun _ => x src))
    {xs : Nat → Option α} (options : ∀ r, group r → Option.Rel alike (xs r) (xs src)) :
    Joint shape group (fun r => (xs r).mapM f) (fun _ => xs src) := by
  cases source : xs src with
  | none =>
    refine (Joint.pure (fun _ => none)).congr (fun r hr => ?_)
    have same := options r hr
    rw [source] at same
    cases own : xs r with
    | none => rfl
    | some y =>
      rw [own] at same
      cases same
  | some z =>
    have inner : Joint shape group (fun r => f ((xs r).getD z)) (fun _ => z) := by
      have joint := each (fun r => (xs r).getD z) (by
        intro r hr
        have same := options r hr
        rw [source] at same ⊢
        cases own : xs r with
        | none =>
          rw [own] at same
          cases same
        | some y =>
          rw [own] at same
          cases same with
          | some hy => exact hy)
      simpa [source] using joint
    have both : Joint shape group (fun r => f ((xs r).getD z) >>= fun y =>
      (.pure (some y) : Spmd S X (Option α)))
        (fun _ => some z) := Joint.bind inner (Joint.pure _)
    refine both.congr (fun r hr => ?_)
    have same := options r hr
    rw [source] at same
    cases own : xs r with
    | none =>
      rw [own] at same
      cases same
    | some y => rfl

theorem Joint.unique {p : Nat → Spmd S X α} {out other : Nat → α} (one : Joint shape group p out)
    (two : Joint shape group p other) : ∀ r, group r → out r = other r := by
  induction one generalizing other with
  | done all =>
    cases two with
    | done all' =>
      intro r member
      have same := (all r member).symm.trans (all' r member)
      injection same
    | object src mine next member all' rest => cases (all src member).symm.trans (all' src member)
    | tensor src mine next member all' shapes rest =>
      cases (all src member).symm.trans (all' src member)
  | object src mine next member all rest ih =>
    cases two with
    | done all' => cases (all src member).symm.trans (all' src member)
    | object src' mine' next' member' all' rest' =>
      obtain ⟨rfl, sent, -⟩ := Spmd.object.inj ((all src member).symm.trans (all' src member))
      refine ih (rest'.congr (fun r hr => ?_))
      obtain ⟨-, -, same⟩ := Spmd.object.inj ((all r hr).symm.trans (all' r hr))
      rw [same, sent]
    | tensor src' mine' next' member' all' shapes' rest' =>
      cases (all src member).symm.trans (all' src member)
  | tensor src mine next member all shapes rest ih =>
    cases two with
    | done all' => cases (all src member).symm.trans (all' src member)
    | object src' mine' next' member' all' rest' =>
      cases (all src member).symm.trans (all' src member)
    | tensor src' mine' next' member' all' shapes' rest' =>
      obtain ⟨rfl, sent, -⟩ := Spmd.tensor.inj ((all src member).symm.trans (all' src member))
      refine ih (rest'.congr (fun r hr => ?_))
      obtain ⟨-, -, same⟩ := Spmd.tensor.inj ((all r hr).symm.trans (all' r hr))
      rw [same, sent]

theorem Joint.rest {p : Nat → Spmd S X α} {middle : Nat → α} {f : Nat → α → Spmd S X β}
    {out : Nat → β}
    (first : Joint shape group p middle) (whole : Joint shape group (fun r => p r >>= f r) out) :
    Joint shape group (fun r => f r (middle r)) out := by
  induction first with
  | done all => exact whole.congr (fun r member => by rw [all r member]; rfl)
  | object src mine next member all rest ih =>
    have goesOn : ∀ r, group r → _ >>= f r = Spmd.object src (mine r) (fun s => next r s >>= f r) :=
      fun r hr => congrArg (· >>= f r) (all r hr)
    cases whole with
    | done all' => cases (goesOn src member).symm.trans (all' src member)
    | object src' mine' next' member' all' rest' =>
      obtain ⟨rfl, sent, -⟩ := Spmd.object.inj ((goesOn src member).symm.trans (all' src member))
      refine ih (rest'.congr (fun r hr => ?_))
      obtain ⟨-, -, same⟩ := Spmd.object.inj ((goesOn r hr).symm.trans (all' r hr))
      rw [← same, sent]
    | tensor src' mine' next' member' all' shapes' rest' =>
      cases (goesOn src member).symm.trans (all' src member)
  | tensor src mine next member all shapes rest ih =>
    have goesOn : ∀ r, group r → _ >>= f r = Spmd.tensor src (mine r) (fun x => next r x >>= f r) :=
      fun r hr => congrArg (· >>= f r) (all r hr)
    cases whole with
    | done all' => cases (goesOn src member).symm.trans (all' src member)
    | object src' mine' next' member' all' rest' =>
      cases (goesOn src member).symm.trans (all' src member)
    | tensor src' mine' next' member' all' shapes' rest' =>
      obtain ⟨rfl, sent, -⟩ := Spmd.tensor.inj ((goesOn src member).symm.trans (all' src member))
      refine ih (rest'.congr (fun r hr => ?_))
      obtain ⟨-, -, same⟩ := Spmd.tensor.inj ((goesOn r hr).symm.trans (all' r hr))
      rw [← same, sent]

/-- A rank that is through takes no part in the broadcast that another one is at. -/
theorem Joint.blocked {p : Nat → Spmd S X α} {out : Nat → α} {through waiting : Nat}
    (first : group through) (ended : ∃ a, p through = .pure a) (second : group waiting)
    (waits : ∃ src mine next, p waiting = .object src mine next) : ¬Joint shape group p out := by
  obtain ⟨a, ended⟩ := ended
  obtain ⟨src, mine, next, waits⟩ := waits
  intro joint
  cases joint with
  | done all => cases waits.symm.trans (all waiting second)
  | object src' mine' next' member all rest => cases ended.symm.trans (all through first)
  | tensor src' mine' next' member all shapes rest => cases ended.symm.trans (all through first)

end Spmd

end Verl
