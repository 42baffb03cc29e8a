import Verl.Checkpoint.Resume
import Verl.Trainer.Fit

/-! Histories of a training job: lives of `RayPPOTrainer.fit`, each ended by a crash at
any point or by its return, and each started with auto-resume. -/
namespace Verl.Trainer
open Checkpoint

structure Process where
  todo : List Action
  remembered : Role → Manager.Saved
  saving : Option Saving

structure State where
  fs : FileSystem Nat
  process : Option Process
  /-- `global_steps` of the actor updates so far, the last one first. -/
  updated : List Nat
  /-- The steps of the checkpoints that the tracker has named, the last one first. -/
  saved : List Nat
  calls : Nat

def State.init : State := ⟨.empty, none, [], [], 0⟩

inductive Event where
  /-- A life begins; its dataloader will give that many batches. -/
  | start (batches : Nat)
  /-- The next action of `fit`, or its return. -/
  | proceed
  /-- A file-system operation of the save in progress. -/
  | operation (rank : Nat)
  | crash

def nameSaved (op : FileOp Nat) (saved : List Nat) : List Nat :=
  match op with
  | .writeTracker step => step :: saved
  | _ => saved

def perform (config : TrainerConfig) (s : State) (process : Process) : State :=
  match process.todo with
  | [] => { s with process := none }
  | ⟨kind, step⟩ :: todo =>
    match kind with
    | .updateActor =>
      { s with updated := step :: s.updated, process := some { process with todo := todo } }
    | .saveCheckpoint =>
      { s with
        calls := s.calls + 1
        process := some { process with
          todo := todo
          saving := some ⟨⟨s.calls, step⟩,
            saveProgram config.checkpoint process.remembered step s.calls, []⟩ } }
    | _ => { s with process := some { process with todo := todo } }

def next (config : TrainerConfig) : Event → State → Option State
  | .start batches, s =>
    match s.process, autoResume config.checkpoint s.fs with
    | none, .ok found =>
      some { s with process := some ⟨ppoFit config (found.getD 0) batches, fun _ => ⟨none, none⟩, none⟩ }
    | _, _ => none
  | .proceed, s => do
    let process ← s.process
    if process.saving.isSome then none else some (perform config s process)
  | .operation rank, s => do
    let process ← s.process
    let saving ← process.saving
    let (op, pending) ← saving.pending.pop rank
    let process :=
      if Staged.ops pending = [] then
        { process with remembered := rememberAll config.checkpoint saving.record.step process.remembered, saving := none }
      else
        { process with saving := some { saving with pending := pending, log := op :: saving.log } }
    some { s with fs := op.exec s.fs, saved := nameSaved op s.saved, process := some process }
  | .crash, s => do
    let _ ← s.process
    some { s with process := none }

def runFrom (config : TrainerConfig) : State → List Event → Option State
  | s, [] => some s
  | s, event :: events => (next config event s).bind (fun s' => runFrom config s' events)

/-- Before a start: the latest checkpoint, if there is one, is of a step before the last. -/
def early (config : TrainerConfig) (s : State) : Event → Bool
  | .start _ => s.saved.headD 0 < config.totalTrainingSteps
  | _ => true

def earlyStarts (config : TrainerConfig) : State → List Event → Bool
  | _, [] => true
  | s, event :: events =>
    early config s event && (next config event s).all (fun s' => earlyStarts config s' events)

structure Within (config : TrainerConfig) (s : State) : Prop where
  updated : ∀ step ∈ s.updated, step ≤ config.totalTrainingSteps
  todo : ∀ process, s.process = some process → ∀ action ∈ process.todo,
    action.globalSteps ≤ config.totalTrainingSteps
  tracker : s.fs.tracker = none ∨ s.fs.tracker = some [] ∨ ∃ step, s.saved.head? = some step ∧
    s.fs.tracker = some (Text.ofNat step)

section Steps

variable {config : TrainerConfig} {s s' : State}

theorem within_init (config : TrainerConfig) : Within config State.init where
  updated := by simp [State.init]
  todo := by simp [State.init]
  tracker := .inl rfl

theorem autoResume_le (within : Within config s) {found : Option Nat}
    (resumed : autoResume config.checkpoint s.fs = .ok found) : found.getD 0 ≤ s.saved.headD 0 := by
  cases found with
  | none => exact Nat.zero_le _
  | some step =>
    have named : findLatestCkptPath s.fs = .ok (some step) := by
      unfold autoResume at resumed
      obtain ⟨latest, hlatest, rest⟩ := bind_ok_iff.mp resumed
      cases latest with
      | none => cases rest
      | some other =>
        obtain ⟨_, -, same⟩ := bind_ok_iff.mp rest
        cases same
        exact hlatest
    rcases within.tracker with nothing | empty | ⟨latest, head, tracker⟩
    · simp [findLatestCkptPath, nothing] at named
    · simp [findLatestCkptPath, empty, Text.toInt_nil] at named
    · have step_eq : step = latest := by
        simp only [findLatestCkptPath, tracker, Text.toInt_ofNat, ok_bind, pure_eq_ok,
          Except.ok.injEq] at named
        split at named
        · exact (Option.some.inj named).symm
        · cases named
      rw [step_eq, List.headD_eq_head?_getD, head, Option.getD_some]

theorem within_perform (within : Within config s) {process : Process}
    (running : s.process = some process) :
    Within config (perform config s process) := by
  have bounded := within.todo process running
  unfold perform
  cases htodo : process.todo with
  | nil => exact ⟨within.updated, by simp, within.tracker⟩
  | cons action todo =>
    obtain ⟨kind, step⟩ := action
    rw [htodo] at bounded
    have now : step ≤ config.totalTrainingSteps := bounded _ List.mem_cons_self
    have later : ∀ action ∈ todo, action.globalSteps ≤ config.totalTrainingSteps :=
      fun action member => bounded action (List.mem_cons_of_mem _ member)
    cases kind with
    | updateActor =>
      refine ⟨?_, ?_, within.tracker⟩
      · intro other member
        rcases List.mem_cons.mp member with rfl | before
        · exact now
        · exact within.updated other before
      · rintro _ ⟨⟩
        exact later
    | saveCheckpoint =>
      refine ⟨within.updated, ?_, within.tracker⟩
      rintro _ ⟨⟩
      exact later
    | updateCritic =>
      refine ⟨within.updated, ?_, within.tracker⟩
      rintro _ ⟨⟩
      exact later
    | updateRm =>
      refine ⟨within.updated, ?_, within.tracker⟩
      rintro _ ⟨⟩
      exact later

/-- The tracker after an operation: as before, empty, or the step named last. -/
theorem tracker_exec (op : FileOp Nat) (within : Within config s) :
    (op.exec s.fs).tracker = none ∨ (op.exec s.fs).tracker = some [] ∨
      ∃ step, (nameSaved op s.saved).head? = some step ∧
        (op.exec s.fs).tracker = some (Text.ofNat step) := by
  cases op with
  | truncateTracker => exact .inr (.inl rfl)
  | writeTracker step => exact .inr (.inr ⟨step, rfl, rfl⟩)
  | rmtree dir => exact within.tracker
  | mkdir dir => exact within.tracker
  | write path content => exact within.tracker

theorem within_next {event : Event} (moved : next config event s = some s')
    (inTime : early config s event = true) (within : Within config s) : Within config s' := by
  cases event with
  | start batches =>
    simp only [next] at moved
    split at moved
    · rename_i found dead resumed
      cases moved
      have before := autoResume_le within resumed
      have latest : s.saved.headD 0 < config.totalTrainingSteps := of_decide_eq_true inTime
      refine ⟨within.updated, ?_, within.tracker⟩
      rintro _ ⟨⟩ action member
      change action ∈ ppoFit config (found.getD 0) batches at member
      unfold ppoFit at member
      split at member
      · cases member
      · exact mem_ppoLoop (Nat.lt_of_le_of_lt before latest) member
    · contradiction
  | proceed =>
    simp only [next, Option.bind_eq_bind, Option.bind_eq_some_iff] at moved
    obtain ⟨process, running, moved⟩ := moved
    split at moved
    · contradiction
    · cases moved
      exact within_perform within running
  | operation rank =>
    simp only [next, Option.bind_eq_bind, Option.bind_eq_some_iff, Prod.exists] at moved
    obtain ⟨process, running, saving, busy, op, pending, popped, moved⟩ := moved
    cases moved
    refine ⟨within.updated, ?_, tracker_exec op within⟩
    rintro _ ⟨⟩ action member
    refine within.todo process running action ?_
    split at member
    · exact member
    · exact member
  | crash =>
    simp only [next, Option.bind_eq_bind, Option.bind_eq_some_iff] at moved
    obtain ⟨process, running, moved⟩ := moved
    cases moved
    exact ⟨within.updated, by simp, within.tracker⟩

theorem within_runFrom {events : List Event} (inTime : earlyStarts config s events = true)
    (reached : runFrom config s events = some s') (within : Within config s) :
    Within config s' := by
  induction events generalizing s with
  | nil =>
    cases reached
    exact within
  | cons event events ih =>
    obtain ⟨middle, moved, rest⟩ := Option.bind_eq_some_iff.mp reached
    unfold earlyStarts at inTime
    rw [moved, Option.all_some, Bool.and_eq_true] at inTime
    exact ih inTime.2 rest (within_next moved inTime.1 within)

/-- In every history whose starts find no checkpoint of the last step, no actor update
goes beyond the last step. -/
theorem updates_within_total (config : TrainerConfig) {events : List Event}
    (inTime : earlyStarts config State.init events = true)
    (reached : runFrom config State.init events = some s) :
    ∀ step ∈ s.updated, step ≤ config.totalTrainingSteps :=
  (within_runFrom inTime reached (within_init config)).updated

end Steps

/-- One FSDP rank and no critic, a save after every step. -/
def everyStep (totalTrainingSteps : Nat) : TrainerConfig :=
  ⟨fsdpActor, totalTrainingSteps, 0, 1, false, none⟩

def wholePass : List Event := .proceed :: .proceed :: List.replicate 7 (.operation 0)

/-- The job runs to its end and is started again: the update has step number 2 of 1. -/
theorem restart_beyond_total : ∃ events s, runFrom (everyStep 1) State.init events = some s ∧
    ∃ step ∈ s.updated, (everyStep 1).totalTrainingSteps < step := by
  let events := .start 2 :: wholePass ++ [.proceed, .start 1, .proceed]
  have ends : (runFrom (everyStep 1) State.init events).map State.updated = some [2, 1] := by
    decide +kernel
  obtain ⟨s, reached, updated⟩ := Option.map_eq_some_iff.mp ends
  exact ⟨events, s, reached, 2, by simp [updated], by decide⟩

/-- A crash in the save of the last step, and a restart from the one before. -/
theorem updates_within_total_crash :
    ∃ events s, runFrom (everyStep 2) State.init events = some s ∧ s.updated = [2, 2, 1] ∧
    ∀ step ∈ s.updated, step ≤ 2 := by
  let events := .start 5 :: wholePass ++ [.proceed, .proceed, .operation 0, .operation 0, .crash,
    .start 4, .proceed]
  have ends : (runFrom (everyStep 2) State.init events).map State.updated = some [2, 2, 1] := by
    decide +kernel
  obtain ⟨s, reached, updated⟩ := Option.map_eq_some_iff.mp ends
  exact ⟨events, s, reached, updated,
    updates_within_total (everyStep 2) (by decide +kernel) reached⟩

end Verl.Trainer
