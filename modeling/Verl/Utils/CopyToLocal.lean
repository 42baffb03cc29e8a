import Mathlib.Logic.Function.Basic
import Verl.Base.Machine

/-! `copy_to_local` of `verl/utils/fs.py`: any number of processes that call it with the same remote
path and the same cache directory, in any order, and die at any point. -/
namespace Verl.Utils.CopyToLocal

variable {C : Type}

/-- The copy of the remote path: what stands at the destination after each of its steps. -/
structure Transfer (C : Type) where
  visible : List (Option C)
  whole : C
  ends : visible.getLast? = some (some whole)

inductive Status where
  | idle
  /-- Before the lock. -/
  | waiting
  /-- In the lock, before the test whether the destination exists. -/
  | holding
  | copying (steps : Nat)
  /-- At the end of the lock. -/
  | leaving
  | returned
  | dead
  /-- The process is dead, but the command that it has started goes on. -/
  | detached (steps : Nat)
  deriving DecidableEq

structure State (C : Type) where
  status : Nat → Status
  lock : Option Nat
  /-- What stands at `local_path`. -/
  destination : Option C

inductive Event where
  | call (p : Nat)
  | acquire (p : Nat)
  | test (p : Nat)
  | copy (p : Nat)
  /-- The command ends with another code than 0; what `copy` returns is not looked at. -/
  | fail (p : Nat)
  | release (p : Nat)
  /-- The process dies with its command. -/
  | kill (p : Nat)
  /-- The process dies without its command. -/
  | detach (p : Nat)
  deriving DecidableEq

def State.become (s : State C) (p : Nat) (status : Status) : State C :=
  { s with status := Function.update s.status p status }

def State.unlock (s : State C) (p : Nat) : State C :=
  { s with lock := if s.lock = some p then none else s.lock }

def step (t : Transfer C) (s : State C) : Event → Option (State C)
  | .call p =>
    if s.status p = .idle ∨ s.status p = .returned then some (s.become p .waiting) else none
  | .acquire p =>
    if s.status p = .waiting ∧ s.lock = none then
    some { s.become p .holding with lock := some p } else none
  | .test p =>
    if s.status p = .holding then
      some (s.become p (if s.destination.isSome then .leaving else .copying 0))
    else none
  | .copy p =>
    match s.status p with
    | .copying steps => t.visible[steps]?.map (fun shown =>
        { s.become p (if steps + 1 < t.visible.length then .copying (steps + 1) else .leaving) with
          destination := shown })
    | .detached steps => t.visible[steps]?.map (fun shown =>
        { s.become p (if steps + 1 < t.visible.length then .detached (steps + 1) else .dead) with
          destination := shown })
    | _ => none
  | .fail p =>
    match s.status p with
    | .copying _ => some (s.become p .leaving)
    | _ => none
  | .release p =>
    if s.status p = .leaving then some { s.become p .returned with lock := none } else none
  | .kill p => if s.status p = .dead then none else some ((s.become p .dead).unlock p)
  | .detach p =>
    match s.status p with
    | .copying steps => some ((s.become p (.detached steps)).unlock p)
    | _ => none

def copyMachine (t : Transfer C) : Machine (State C) Event := ⟨step t⟩

/-- Nobody has called yet; the cache is empty, or holds the copy of an earlier call. -/
def State.start (t : Transfer C) (cached : Bool) : State C :=
  ⟨fun _ => .idle, none, if cached then some t.whole else none⟩

/-- The event leaves no unfinished copy behind: while a process copies, it dies only with its
command and when nothing or everything stands at the destination, and its command fails only when
everything does. -/
def LeavesNoPart (t : Transfer C) (s : State C) : Event → Prop
  | .kill p =>
    ∀ steps, s.status p = .copying steps → s.destination = none ∨ s.destination = some t.whole
  | .fail _ => s.destination = some t.whole
  | .detach _ => False
  | _ => True

def ReturnedWhole (t : Transfer C) (s : State C) : Prop :=
  ∀ p, s.status p = .returned → s.destination = some t.whole

section Invariant

variable {t : Transfer C} {s s' : State C}

def Status.inside : Status → Bool
  | .holding => true
  | .copying _ => true
  | .leaving => true
  | _ => false

structure Inv (t : Transfer C) (s : State C) : Prop where
  lock : ∀ p, (s.status p).inside = true → s.lock = some p
  attached : ∀ p steps, s.status p ≠ .detached steps
  copying : ∀ p steps, s.status p = .copying steps → ∀ q, s.status q ≠ .returned
  settled : ∀ p, s.status p = .leaving ∨ s.status p = .returned → s.destination = some t.whole
  unfinished : (∀ p steps, s.status p ≠ .copying steps) → s.destination = none ∨
    s.destination = some t.whole

theorem inv_start (t : Transfer C) (cached : Bool) : Inv t (State.start t cached) := by
  refine ⟨?_, ?_, ?_, ?_, ?_⟩
  · simp [State.start, Status.inside]
  · simp [State.start]
  · simp [State.start]
  · simp [State.start]
  · intro _
    cases cached
    · exact .inl rfl
    · exact .inr rfl

theorem Inv.alone (inv : Inv t s) {p q : Nat} (here : (s.status p).inside = true) (other : q ≠ p) :
    (s.status q).inside = false := by
  cases there : (s.status q).inside with
  | false => rfl
  | true =>
    have same := (inv.lock q there).symm.trans (inv.lock p here)
    exact absurd (Option.some.inj same) other

/-- A process that is not in the lock any more, or not yet, and has not returned; it leaves nothing
unfinished. -/
theorem Inv.outside (inv : Inv t s) {p : Nat} {status : Status}
    (out : status = .waiting ∨ status = .dead)
    (part : ∀ steps, s.status p = .copying steps → s.destination = none ∨
      s.destination = some t.whole) {lock : Option Nat}
    (others : ∀ q, q ≠ p → s.lock = some q → lock = some q) :
    Inv t { s.become p status with lock := lock } := by
  obtain ⟨held, attached, copying, settled, unfinished⟩ := inv
  constructor <;> simp only [State.become, Function.update_apply]
  case lock =>
    intro q inside
    split at inside
    · rcases out with rfl | rfl <;> cases inside
    · rename_i other
      exact others q other (held q inside)
  case attached => grind
  case copying => grind
  case settled => grind
  case unfinished =>
    intro idle
    by_cases was : ∃ steps, s.status p = .copying steps
    · obtain ⟨steps, was⟩ := was
      exact part steps was
    · apply unfinished
      intro q steps there
      by_cases same : q = p
      · exact was ⟨steps, same ▸ there⟩
      · exact idle q steps (by rw [if_neg same, there])

theorem Inv.acquire (inv : Inv t s) {p : Nat} (waiting : s.status p = .waiting)
    (free : s.lock = none) :
    Inv t { s.become p .holding with lock := some p } := by
  have nobody : ∀ q, (s.status q).inside = false := by
    intro q
    cases there : (s.status q).inside with
    | false => rfl
    | true =>
      have held := inv.lock q there
      rw [free] at held
      cases held
  obtain ⟨held, attached, copying, settled, unfinished⟩ := inv
  constructor <;> simp only [State.become, Function.update_apply]
  case lock => grind
  case attached => grind
  case copying => grind
  case settled => grind
  case unfinished => grind

/-- What exists is whole, since nobody copies; and when nothing exists, nobody has returned. -/
theorem Inv.test (inv : Inv t s) {p : Nat} (holding : s.status p = .holding) :
    Inv t (s.become p (if s.destination.isSome then .leaving else .copying 0)) := by
  have here : (s.status p).inside = true := by rw [holding, Status.inside]
  have idle : ∀ q steps, s.status q ≠ .copying steps := by
    intro q steps there
    have other : q ≠ p := by
      rintro rfl
      cases holding.symm.trans there
    have outside := inv.alone here other
    rw [there] at outside
    cases outside
  have known := inv.unfinished idle
  have locked := inv.lock p here
  obtain ⟨held, attached, copying, settled, unfinished⟩ := inv
  rcases known with absent | whole
  · have unsettled : ∀ q, s.status q ≠ .leaving ∧ s.status q ≠ .returned := by
      intro q
      have contents := settled q
      rw [absent] at contents
      exact ⟨fun leaving => (nomatch contents (.inl leaving)), fun returned =>
        (nomatch contents (.inr returned))⟩
    rw [absent]
    constructor <;> simp only [State.become, Function.update_apply] <;> grind [Status.inside]
  · rw [whole]
    constructor <;> simp only [State.become, Function.update_apply] <;> grind [Status.inside]

theorem Inv.copy (inv : Inv t s) {p steps : Nat} {shown : Option C}
    (working : s.status p = .copying steps) (visible : t.visible[steps]? = some shown) :
    Inv t { s.become p (if steps + 1 < t.visible.length then .copying (steps + 1) else .leaving) with destination := shown } := by
  have here : (s.status p).inside = true := by rw [working, Status.inside]
  have alone : ∀ q, q ≠ p → (s.status q).inside = false := fun q other => inv.alone here other
  have unreturned := inv.copying p steps working
  have last : ¬steps + 1 < t.visible.length → shown = some t.whole := by
    intro finished
    have inside := (List.getElem?_eq_some_iff.mp visible).1
    have ends := t.ends
    rw [List.getLast?_eq_getElem?, show t.visible.length - 1 = steps by omega, visible] at ends
    exact Option.some.inj ends
  obtain ⟨held, attached, copying, settled, unfinished⟩ := inv
  constructor <;> simp only [State.become, Function.update_apply] <;> grind [Status.inside]

theorem Inv.fail (inv : Inv t s) {p steps : Nat} (working : s.status p = .copying steps)
    (whole : s.destination = some t.whole) :
    Inv t (s.become p .leaving) := by
  obtain ⟨held, attached, copying, settled, unfinished⟩ := inv
  constructor <;> simp only [State.become, Function.update_apply] <;> grind [Status.inside]

theorem Inv.release (inv : Inv t s) {p : Nat} (leaving : s.status p = .leaving) :
    Inv t { s.become p .returned with lock := none } := by
  have here : (s.status p).inside = true := by rw [leaving, Status.inside]
  have alone : ∀ q, q ≠ p → (s.status q).inside = false := fun q other => inv.alone here other
  have whole := inv.settled p (.inl leaving)
  obtain ⟨held, attached, copying, settled, unfinished⟩ := inv
  constructor <;> simp only [State.become, Function.update_apply] <;> grind [Status.inside]

theorem Inv.step {e : Event} (inv : Inv t s) (spared : LeavesNoPart t s e)
    (stepped : step t s e = some s') : Inv t s' := by
  cases e with
  | call p =>
    obtain ⟨free, same⟩ := Option.ite_none_right_eq_some.mp stepped
    cases same
    exact inv.outside (.inl rfl) (by grind) (fun _ _ held => held)
  | acquire p =>
    obtain ⟨⟨waiting, free⟩, same⟩ := Option.ite_none_right_eq_some.mp stepped
    cases same
    exact inv.acquire waiting free
  | test p =>
    obtain ⟨holding, same⟩ := Option.ite_none_right_eq_some.mp stepped
    cases same
    exact inv.test holding
  | copy p =>
    simp only [CopyToLocal.step] at stepped
    split at stepped
    · rename_i steps working
      obtain ⟨shown, visible, rfl⟩ := Option.map_eq_some_iff.mp stepped
      exact inv.copy working visible
    · rename_i steps detached
      exact absurd detached (inv.attached p steps)
    · cases stepped
  | fail p =>
    simp only [CopyToLocal.step] at stepped
    split at stepped
    · rename_i steps working
      obtain rfl := Option.some.inj stepped
      exact inv.fail working spared
    · cases stepped
  | release p =>
    obtain ⟨leaving, same⟩ := Option.ite_none_right_eq_some.mp stepped
    cases same
    exact inv.release leaving
  | kill p =>
    obtain ⟨-, same⟩ := Option.ite_none_left_eq_some.mp stepped
    cases same
    refine inv.outside (.inr rfl) spared ?_
    intro q other held
    have different : s.lock ≠ some p := by
      rw [held]
      exact fun same => other (Option.some.inj same)
    exact (if_neg different).trans held
  | detach p => exact absurd spared id

/-- In every run whose events leave no unfinished copy behind, what any call has returned is
whole. -/
theorem returnedWhole_of_run (t : Transfer C) (cached : Bool) {events : List Event} {s : State C}
    (spared : (copyMachine t).Along (LeavesNoPart t) (State.start t cached) events)
    (ran : (copyMachine t).run (State.start t cached) events = some s) : ReturnedWhole t s := by
  have inv := Machine.run_invariant_along (P := fun _ s => Inv t s)
    (fun _ _ _ _ inv spared stepped => inv.step spared stepped) (inv_start t cached) spared ran
  exact fun p returned => inv.settled p (.inr returned)

theorem part_returned {p : Nat} {part : C} (unfinished : s.destination = some part)
    (free : s.lock = none) (idle : s.status p = .idle) :
    ∃ s', (copyMachine t).run s [.call p, .acquire p, .test p, .release p] = some s' ∧
      s'.status p = .returned ∧ s'.destination = some part := by
  refine ⟨⟨Function.update s.status p .returned, none, s.destination⟩, ?_, by simp, unfinished⟩
  simp [Machine.run, copyMachine, CopyToLocal.step, State.become, unfinished, free, idle]

end Invariant

section TwoFiles

def twoFiles : Transfer (List String) :=
  ⟨[some [], some ["config.json"], some ["config.json", "model.safetensors"]],
    ["config.json", "model.safetensors"], rfl⟩

def undisturbed : List Event :=
  [.call 0, .acquire 0, .call 1, .test 0, .copy 0, .copy 0, .copy 0, .release 0, .acquire 1,
    .test 1, .kill 1]

def killedHalfway : List Event :=
  [.call 0, .acquire 0, .test 0, .copy 0, .copy 0, .kill 0, .call 1, .acquire 1,
    .test 1, .release 1]

theorem undisturbed_whole :
    ∃ s, (copyMachine twoFiles).run (State.start twoFiles false) undisturbed = some s ∧
    s.status 0 = .returned ∧ ReturnedWhole twoFiles s := by
  have spared : (copyMachine twoFiles).Along (LeavesNoPart twoFiles) (State.start twoFiles false)
    undisturbed :=
    ⟨trivial, trivial, trivial, trivial, trivial, trivial, trivial, trivial, trivial, trivial,
      fun _ _ => .inr rfl, trivial⟩
  exact ⟨_, rfl, rfl, returnedWhole_of_run twoFiles false spared rfl⟩

theorem killedHalfway_part :
    ∃ s, (copyMachine twoFiles).run (State.start twoFiles false) killedHalfway = some s ∧
    s.status 1 = .returned ∧ s.destination = some ["config.json"] ∧ ¬ReturnedWhole twoFiles s := by
  refine ⟨_, rfl, rfl, rfl, ?_⟩
  intro whole
  have same := whole 1 rfl
  revert same
  decide

end TwoFiles

end Verl.Utils.CopyToLocal
