import Verl.Checkpoint.Managers

/-! `RayPPOTrainer` and its checkpoints over several lives of the process:
`_save_checkpoint` in the training loop, a crash between any two file-system
operations, and auto-resume. The content of a file is the number of the save that
wrote it. -/
namespace Verl.Checkpoint

structure Config where
  actor : Manager
  /-- Present with `use_critic`. -/
  critic : Option Manager
  removePreviousCkptInSave : Bool

def Config.managers (config : Config) : List (Role × Manager) :=
  (.actor, config.actor) :: (config.critic.toList.map (fun manager => (.critic, manager)))

/-- The ranks of all managers save one after the other, then the driver writes `data.pt`
and the tracker. -/
def saveProgram (config : Config) (saved : Role → Manager.Saved) (step id : Nat) :
    Staged (FileOp Nat) :=
  config.managers.flatMap (fun e =>
    e.2.saveCheckpoint config.removePreviousCkptInSave (saved e.1) ⟨step, e.1⟩ (fun _ _ => id)) ++
  [[[.write (.data step) id]]] ++ [[[.truncateTracker, .writeTracker step]]]

def findLatestCkptPath (fs : FileSystem Nat) : Py (Option Nat) :=
  match fs.tracker with
  | none => .ok none
  | some text => do
    let iteration ← Text.toInt text
    return if fs.folders iteration then some iteration else none

/-- `_load_checkpoint` with `resume_mode` auto: the step to go on from. A missing
`data.pt` is only warned about. -/
def autoResume (config : Config) (fs : FileSystem Nat) : Py (Option Nat) := do
  match ← findLatestCkptPath fs with
  | none => .ok none
  | some step =>
    let _ ← config.managers.mapM (fun e =>
      (List.range e.2.worldSize).mapM (e.2.loadCheckpoint fs ⟨step, e.1⟩))
    .ok (some step)

structure Record where
  id : Nat
  step : Nat
  deriving DecidableEq

structure Saving where
  record : Record
  pending : Staged (FileOp Nat)
  log : List (FileOp Nat)

structure Life where
  globalSteps : Nat
  saved : Role → Manager.Saved
  saving : Option Saving

structure State where
  fs : FileSystem Nat
  life : Option Life
  /-- The saves that have written the tracker, the last one first. -/
  completed : List Record
  calls : Nat

def Life.start (globalSteps : Nat) : Life := ⟨globalSteps, fun _ => ⟨none, none⟩, none⟩

def State.init : State := ⟨.empty, none, [], 0⟩

inductive Event where
  /-- One pass of the training loop, with a save at its end or without. -/
  | iterate (save : Bool)
  | operation (rank : Nat)
  | crash
  | resume

/-- All managers remember the directory; they read it in the next save at the earliest. -/
def rememberAll (config : Config) (step : Nat) (saved : Role → Manager.Saved) :
    Role → Manager.Saved := fun role =>
  match config.managers.lookup role with
  | some manager => manager.remember ⟨step, role⟩ (saved role)
  | none => saved role

def next (config : Config) : Event → State → Option State
  | .iterate save, s => do
    let life ← s.life
    if life.saving.isSome then none else
    let step := life.globalSteps + 1
    if save then
      some { s with
        calls := s.calls + 1
        life := some { life with
          globalSteps := step
          saving := some ⟨⟨s.calls, step⟩, saveProgram config life.saved step s.calls, []⟩ } }
    else some { s with life := some { life with globalSteps := step } }
  | .operation rank, s => do
    let life ← s.life
    let saving ← life.saving
    let (op, pending) ← saving.pending.pop rank
    if Staged.ops pending = [] then
      some { s with
        fs := op.exec s.fs
        completed := saving.record :: s.completed
        life := some { life with
          saved := rememberAll config saving.record.step life.saved, saving := none } }
    else
      some { s with
        fs := op.exec s.fs
        life := some { life with
          saving := some { saving with pending := pending, log := op :: saving.log } } }
  | .crash, s => do
    let _ ← s.life
    some { s with life := none }
  | .resume, s =>
    match s.life, autoResume config s.fs with
    | none, .ok found => some { s with life := some (Life.start (found.getD 0)) }
    | _, _ => none

def run (config : Config) (events : List Event) : Option State :=
  events.foldlM (fun s e => next config e s) State.init

def Complete (config : Config) (fs : FileSystem Nat) (record : Record) : Prop :=
  ∀ e ∈ config.managers, ∀ name ∈ e.2.names,
    fs.files (.shard ⟨record.step, e.1⟩ name) = some record.id

/-- Auto-resume does not fail, finds the directory of a completed save with all its
files, and starts from scratch only if no save has completed. -/
def ResumeOk (config : Config) (s : State) : Prop :=
  match autoResume config s.fs with
  | .error _ => False
  | .ok none => s.completed = []
  | .ok (some step) => ∃ record ∈ s.completed, record.step = step ∧ Complete config s.fs record

/-- The save in progress has truncated the tracker, or removed a directory with files in it. -/
def Saving.Exposed (config : Config) (saving : Saving) : Prop :=
  .truncateTracker ∈ saving.log ∨
    ∃ dir, .rmtree dir ∈ saving.log ∧ ∃ manager, (dir.role, manager) ∈ config.managers ∧
      manager.names ≠ []

def State.Exposed (config : Config) (s : State) : Prop :=
  ∃ life saving, s.life = some life ∧ life.saving = some saving ∧ saving.Exposed config

def SafeCrashes (config : Config) (events : List Event) : Prop :=
  ∀ before after, events = before ++ .crash :: after → ∀ s, run config before = some s →
    ¬s.Exposed config

end Verl.Checkpoint
