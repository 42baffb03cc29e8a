import Mathlib.Data.Finset.Card
import Mathlib.Data.Fintype.Basic
import Mathlib.Algebra.Order.BigOperators.Group.Finset
import Mathlib.Algebra.GroupWithZero.Nat
import Verl.Base.Machine
import Verl.Base.Python

/-! `parallel_compute_score_async` of `verl/workers/reward_manager/prime.py` with the process pool
it runs on: evaluations start, finish and pass their deadline in any order. -/
namespace Verl.ParallelScore

section Model

/-- What an evaluation does when a process runs it. A number stands for its `float`, and of a tuple
only the first element is read. `exits` raises `SystemExit` or `KeyboardInterrupt`, which are no
`Exception`; an `endless` one never comes back. -/
inductive Evaluation (F : Type u) where
  | number (x : F)
  | tuple (first : F)
  | raises
  | exits
  | endless

variable {F : Type u}

/-- What `single_compute_score` returns for an evaluation that came back: the list with its value,
or `None` for an `Exception`. -/
inductive Value (F : Type u) where
  | number (x : F)
  | tuple (first : F)

def Evaluation.value : Evaluation F → Option (Value F)
  | .number x => some (.number x)
  | .tuple first => some (.tuple first)
  | _ => none

inductive Job where
  | queued
  | running
  | ended
  deriving DecidableEq

/-- One row: its work item in the pool, and what its `single_compute_score` has returned. -/
structure Slot (F : Type u) where
  job : Job
  result : Option (Option (Value F))

inductive Phase (F : Type u) where
  | gathering
  | returned (scores : List F)
  | raised

structure Pool (n : Nat) (F : Type u) where
  slots : Fin n → Slot F
  phase : Phase F

inductive Event (n : Nat) where
  | start (i : Fin n)
  | finish (i : Fin n)
  | deadline (i : Fin n)
  | leave
  deriving DecidableEq

variable {n : Nat}

def Pool.setSlot (pool : Pool n F) (i : Fin n) (slot : Slot F) : Pool n F :=
  { pool with slots := Function.update pool.slots i slot }

def score [Zero F] : Option (Value F) → F
  | none => 0
  | some (.number x) => x
  | some (.tuple first) => first

def running (pool : Pool n F) : Nat :=
  (Finset.univ.filter (fun i => (pool.slots i).job = .running)).card

def start (workers : Nat) (pool : Pool n F) (i : Fin n) : Option (Pool n F) :=
  if (pool.slots i).job = .queued ∧ running pool < workers then
    some (pool.setSlot i { pool.slots i with job := .running })
  else none

/-- An evaluation comes back. Where its row is no longer waited for, the result is dropped. -/
def finish (rows : Fin n → Evaluation F) (pool : Pool n F) (i : Fin n) : Option (Pool n F) :=
  match (pool.slots i).job, rows i, (pool.slots i).result with
  | .running, .endless, _ => none
  | .running, .exits, none =>
    some { pool.setSlot i { job := .ended, result := none } with phase := .raised }
  | .running, evaluation, none =>
    some (pool.setSlot i { job := .ended, result := some evaluation.value })
  | .running, _, some result => some (pool.setSlot i { job := .ended, result := some result })
  | _, _, _ => none

/-- `wait_for` gives up on a row. A work item that still waits is cancelled, a running one goes
on. -/
def deadline (pool : Pool n F) (i : Fin n) : Option (Pool n F) :=
  match (pool.slots i).result with
  | none =>
    let job := if (pool.slots i).job = .queued then .ended else (pool.slots i).job
    some (pool.setSlot i { job := job, result := some none })
  | some _ => none

/-- The gather is complete and `shutdown(wait=True)` comes back, when no work item is left. -/
def leave [Zero F] (pool : Pool n F) : Option (Pool n F) :=
  if ∀ i, (pool.slots i).result.isSome ∧ (pool.slots i).job = .ended then
    some { pool with
      phase := .returned (List.ofFn (fun i => score ((pool.slots i).result.getD none))) }
  else none

def step [Zero F] (workers : Nat) (rows : Fin n → Evaluation F) (pool : Pool n F)
    (event : Event n) : Option (Pool n F) :=
  match pool.phase with
  | .gathering =>
    match event with
    | .start i => start workers pool i
    | .finish i => finish rows pool i
    | .deadline i => deadline pool i
    | .leave => leave pool
  | _ => none

structure Call (C R T E F : Type) where
  evaluationFunc : T → C → R → Option E → Evaluation F
  completions : List C
  references : List R
  tasks : List T
  extraInfo : Option (List E)
  numProcesses : Nat
  references_length : references.length = completions.length
  tasks_length : tasks.length = completions.length
  extraInfo_length : ∀ infos ∈ extraInfo, infos.length = completions.length
  positive : 0 < numProcesses

variable {C R T E : Type} {F : Type}

def Call.extras (call : Call C R T E F) : List (Option E) :=
  match call.extraInfo with
  | none => call.tasks.map (fun _ => none)
  | some infos => infos.map some

def Call.rows (call : Call C R T E F) : List (Evaluation F) :=
  (call.completions.zip (call.references.zip (call.tasks.zip call.extras))).map
    (fun (completion, reference, task, taskExtraInfo) =>
      call.evaluationFunc task completion reference taskExtraInfo)

end Model

section Steps

variable {F : Type} {n workers : Nat} {rows : Fin n → Evaluation F} {pool next : Pool n F}
  {event : Event n}

@[simp] theorem setSlot_self (pool : Pool n F) (i : Fin n) (slot : Slot F) :
    (pool.setSlot i slot).slots i = slot := by
  simp [Pool.setSlot]

theorem setSlot_other (pool : Pool n F) {i j : Fin n} (other : j ≠ i) (slot : Slot F) :
    (pool.setSlot i slot).slots j = pool.slots j := by
  simp [Pool.setSlot, other]

@[simp] theorem setSlot_phase (pool : Pool n F) (i : Fin n) (slot : Slot F) :
    (pool.setSlot i slot).phase = pool.phase := rfl

end Steps

section Termination

variable {F : Type} {n workers : Nat} {rows : Fin n → Evaluation F} {pool next : Pool n F}
  {event : Event n}

def jobsLeft : Job → Nat
  | .queued => 2
  | .running => 1
  | .ended => 0

def Slot.left (slot : Slot F) : Nat := jobsLeft slot.job + if slot.result.isNone then 1 else 0

def Phase.left : Phase F → Nat
  | .gathering => 1
  | _ => 0

end Termination

section Runs

variable {F : Type} [Zero F] {n workers : Nat} {rows : Fin n → Evaluation F} {pool next : Pool n F}
  {event : Event n} {events : List (Event n)}

/-- What the loop makes of a row in a run: 0 where its deadline passed before it came back. -/
def rowScore (rows : Fin n → Evaluation F) (events : List (Event n)) (i : Fin n) : F :=
  if .deadline i ∈ events then 0 else score (rows i).value

/-- What the events so far say about the pool. -/
structure Tracks (rows : Fin n → Evaluation F) (events : List (Event n)) (pool : Pool n F) :
    Prop where
  waiting : ∀ i, (pool.slots i).job = .queued → (pool.slots i).result = none
  timedOut : ∀ i, .deadline i ∈ events → (pool.slots i).result = some none
  cameBack : ∀ i result, (pool.slots i).result = some result → .deadline i ∉ events →
    result = (rows i).value
  returned : ∀ scores, pool.phase = .returned scores → scores = List.ofFn (rowScore rows events)
  raised : pool.phase = .raised → ∃ i, rows i = .exits

theorem mem_deadline_append {i : Fin n} (other : event ≠ .deadline i) :
    .deadline i ∈ events ++ [event] ↔ .deadline i ∈ events := by
  simp [other.symm]

theorem Tracks.setSlot (tracks : Tracks rows events pool) (gathering : pool.phase = .gathering)
    (i : Fin n) (slot : Slot F)
    (others : ∀ j, j ≠ i → event ≠ .deadline j) (waiting : slot.job = .queued → slot.result = none)
    (timedOut : .deadline i ∈ events ++ [event] → slot.result = some none)
    (cameBack : ∀ result, slot.result = some result → .deadline i ∉ events ++ [event] →
      result = (rows i).value) :
    Tracks rows (events ++ [event]) (pool.setSlot i slot) := by
  refine ⟨?_, ?_, ?_, ?_, ?_⟩
  · intro j
    by_cases same : j = i
    · subst same
      rwa [setSlot_self]
    · rw [setSlot_other pool same]
      exact tracks.waiting j
  · intro j
    by_cases same : j = i
    · subst same
      rwa [setSlot_self]
    · rw [setSlot_other pool same, mem_deadline_append (others j same)]
      exact tracks.timedOut j
  · intro j
    by_cases same : j = i
    · subst same
      rwa [setSlot_self]
    · rw [setSlot_other pool same, mem_deadline_append (others j same)]
      exact tracks.cameBack j
  · intro scores phase
    rw [setSlot_phase, gathering] at phase
    cases phase
  · intro phase
    rw [setSlot_phase, gathering] at phase
    cases phase

end Runs

section Returns

variable {F : Type} [Zero F] {n workers : Nat} {rows : Fin n → Evaluation F} {pool : Pool n F}
  {events : List (Event n)}

def Evaluation.Ends : Evaluation F → Prop
  | .exits => False
  | .endless => False
  | _ => True

theorem Tracks.final (tracks : Tracks rows events pool) (ends : ∀ i, (rows i).Ends)
    (final : ∀ event, step workers rows pool event = none) :
    pool.phase = .returned (List.ofFn (rowScore rows events)) := by
  cases phase : pool.phase with
  | returned scores => rw [tracks.returned scores phase]
  | raised =>
    obtain ⟨i, exits⟩ := tracks.raised phase
    have comes := ends i
    rw [exits] at comes
    exact comes.elim
  | gathering =>
    have settled : ∀ i, (pool.slots i).result.isSome := by
      intro i
      have stuck := final (.deadline i)
      cases result : (pool.slots i).result with
      | some value => rfl
      | none => simp [step, phase, deadline, result] at stuck
    have ended : ∀ i, (pool.slots i).job = .ended := by
      intro i
      obtain ⟨value, result⟩ := Option.isSome_iff_exists.mp (settled i)
      cases job : (pool.slots i).job with
      | ended => rfl
      | queued =>
        rw [tracks.waiting i job] at result
        cases result
      | running =>
        have stuck := final (.finish i)
        have comes := ends i
        cases row : rows i <;> simp [step, phase, finish, job, result, row] at stuck
        rw [row] at comes
        exact comes.elim
    have stuck := final .leave
    simp [step, phase, leave, settled, ended] at stuck

variable {C R T E : Type} {call : Call C R T E F}

end Returns

section OwnScores

variable {F : Type} [Zero F] {n workers : Nat} {rows : Fin n → Evaluation F} {pool next : Pool n F}
  {event : Event n} {events : List (Event n)}

/-- The row's own evaluation took too long: a process had it when the deadline passed. -/
def TimedOut (events : List (Event n)) (i : Fin n) : Prop :=
  ∃ before after, events = before ++ .deadline i :: after ∧ .start i ∈ before

/-- The rows that a process has had, and the deadlines that passed. -/
structure InTime (events : List (Event n)) (pool : Pool n F) : Prop where
  started : ∀ i, (pool.slots i).job ≠ .queued → .start i ∈ events
  timedOut : ∀ i, .deadline i ∈ events → TimedOut events i

omit [Zero F] in
theorem TimedOut.append {i : Fin n} (late : TimedOut events i) (later : List (Event n)) :
    TimedOut (events ++ later) i := by
  obtain ⟨before, after, rfl, started⟩ := late
  exact ⟨before, after ++ later, by simp, started⟩

omit [Zero F] in
/-- An event that is no deadline, of a row that a process has after it. -/
theorem InTime.keep (inTime : InTime events pool) (other : ∀ i, event ≠ .deadline i)
    (started : ∀ i, (next.slots i).job ≠ .queued → (pool.slots i).job ≠ .queued ∨
      event = .start i) :
    InTime (events ++ [event]) next := by
  constructor
  · intro i had
    rcases started i had with before | rfl
    · exact List.mem_append_left _ (inTime.started i before)
    · simp
  · intro i member
    rw [mem_deadline_append (other i)] at member
    exact (inTime.timedOut i member).append _

variable {C R T E : Type}

end OwnScores

end Verl.ParallelScore
