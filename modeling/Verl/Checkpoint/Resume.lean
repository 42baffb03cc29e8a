import Verl.Checkpoint.Trainer

/-! Where a crash is harmless: the invariant of a save in progress, one operation at
a time, and what auto-resume finds in every state of a run. -/
namespace Verl.Checkpoint

variable {config : Config}

/-- The operations of the save `record`, before the tracker: they touch its own folder
and the directories of the latest completed save. -/
def Belongs (latest : Option Record) (record : Record) : FileOp Nat → Prop
  | .rmtree dir => ∃ r, latest = some r ∧ dir.step = r.step
  | .mkdir dir => dir.step = record.step
  | .write path content => path.step = record.step ∧ content = record.id
  | .truncateTracker => False
  | .writeTracker _ => False

section Operations

variable {latest : Option Record} {record : Record} {op : FileOp Nat}
  (belongs : Belongs latest record op) {fs : FileSystem Nat}

include belongs

theorem exec_tracker : (op.exec fs).tracker = fs.tracker := by
  cases op with
  | truncateTracker => exact belongs.elim
  | writeTracker step => exact belongs.elim
  | rmtree dir => rfl
  | mkdir dir => rfl
  | write path content => rfl

/-- An operation of the save leaves a file of another folder, unless it removes its directory. -/
theorem exec_other {dir : Dir} (other : dir.step ≠ record.step) (name : Text) :
    (op.exec fs).files (.shard dir name) = if op = .rmtree dir then none
      else fs.files (.shard dir name) := by
  cases op with
  | truncateTracker => exact belongs.elim
  | writeTracker step => exact belongs.elim
  | mkdir d => simp [FileOp.exec]
  | rmtree d =>
    by_cases same : d = dir
    · simp [FileOp.exec, Path.within, same]
    · simp [FileOp.exec, Path.within, same, Ne.symm same]
  | write path content =>
    have different : Path.shard dir name ≠ path := by
      rintro rfl
      exact other belongs.1
    simp [FileOp.exec, different]

theorem exec_own (older : ∀ r, latest = some r → r.step ≠ record.step) {path : Path}
    (own : path.step = record.step)
    (written : fs.files path = some record.id) : (op.exec fs).files path = some record.id := by
  cases op with
  | truncateTracker => exact belongs.elim
  | writeTracker step => exact belongs.elim
  | mkdir dir => exact written
  | rmtree dir =>
    obtain ⟨r, hr, same⟩ := belongs
    have outside : path.within dir = false := by
      cases path with
      | data step => rfl
      | shard d name =>
        simp only [Path.within, beq_eq_false_iff_ne, ne_eq]
        rintro rfl
        exact older r hr (same.symm.trans own)
    simpa [FileOp.exec, outside] using written
  | write p content =>
    simp only [FileOp.exec]
    split
    · rw [belongs.2]
    · exact written

end Operations

theorem exec_folders (op : FileOp Nat) {fs : FileSystem Nat} {step : Nat}
    (made : fs.folders step = true) : (op.exec fs).folders step = true := by
  cases op with
  | mkdir dir => simp [FileOp.exec, made]
  | rmtree dir => exact made
  | write path content => exact made
  | truncateTracker => exact made
  | writeTracker n => exact made

/-- Between two saves the tracker names the latest completed save, and its directory is complete. -/
structure Settled (config : Config) (fs : FileSystem Nat) (completed : List Record) : Prop where
  tracker : fs.tracker = completed.head?.map (fun r => Text.ofNat r.step)
  complete : ∀ r, completed.head? = some r → Complete config fs r
  folder : ∀ r, completed.head? = some r → fs.folders r.step = true

theorem autoResume_complete {fs : FileSystem Nat} {record : Record}
    (tracker : fs.tracker = some (Text.ofNat record.step))
    (folder : fs.folders record.step = true) (complete : Complete config fs record) :
    autoResume config fs = .ok (some record.step) := by
  have found : findLatestCkptPath fs = .ok (some record.step) := by
    simp [findLatestCkptPath, tracker, Text.toInt_ofNat, folder]
  have loaded : ∀ e ∈ config.managers, ∃ ys, (List.range e.2.worldSize).mapM
      (e.2.loadCheckpoint fs ⟨record.step, e.1⟩) = .ok ys ∧ True := by
    intro e member
    obtain ⟨ys, run, -⟩ := mapM_forall₂ (e.2.loadCheckpoint fs ⟨record.step, e.1⟩) (fun _ _ => True)
      (List.range e.2.worldSize) (by
        intro rank hrank
        refine ⟨_, mapM_ok _ (fun _ => record.id) _ ?_, trivial⟩
        intro name hname
        have there := complete e member name (e.2.reads_subset (List.mem_range.mp hrank) name hname)
        simp [FileSystem.read, there])
    exact ⟨ys, run, trivial⟩
  obtain ⟨all, run, -⟩ := mapM_forall₂ _ (fun _ _ => True) config.managers loaded
  simp [autoResume, found, run]

theorem Settled.resumeOk {s : State} (settled : Settled config s.fs s.completed) :
    ResumeOk config s := by
  obtain ⟨fs, life, completed, calls⟩ := s
  cases completed with
  | nil =>
    have tracker : fs.tracker = none := settled.tracker
    have scratch : autoResume config fs = .ok none := by
      simp [autoResume, findLatestCkptPath, tracker]
    simp [ResumeOk, scratch]
  | cons r rest =>
    have resumed := autoResume_complete settled.tracker (settled.folder r rfl)
      (settled.complete r rfl)
    simp only [ResumeOk, resumed]
    exact ⟨r, List.mem_cons_self, rfl, settled.complete r rfl⟩

/-- A save in progress: what it has still to do, what it has done, and what is left of
the latest completed save. -/
structure SavingInv (config : Config) (fs : FileSystem Nat) (completed : List Record)
    (saving : Saving) : Prop where
  newer : ∀ r ∈ completed, r.step < saving.record.step
  /-- The tracker is the last thing that a save touches. -/
  program : ∃ stages tail, saving.pending = stages ++ [[tail]] ∧
    (∀ op ∈ Staged.ops stages, Belongs completed.head? saving.record op) ∧
    (tail = [.truncateTracker, .writeTracker saving.record.step] ∧ .truncateTracker ∉ saving.log ∨
      tail = [.writeTracker saving.record.step] ∧ Staged.ops stages = [] ∧
        .truncateTracker ∈ saving.log)
  logged : ∀ op ∈ saving.log, op = .truncateTracker ∨ Belongs completed.head? saving.record op
  written : ∀ e ∈ config.managers, ∀ name ∈ e.2.names,
    .write (.shard ⟨saving.record.step, e.1⟩ name) saving.record.id ∈ Staged.ops saving.pending ∨
      fs.files (.shard ⟨saving.record.step, e.1⟩ name) = some saving.record.id
  folder : (∃ role, .mkdir ⟨saving.record.step, role⟩ ∈ Staged.ops saving.pending) ∨
    fs.folders saving.record.step = true
  tracker : fs.tracker = if .truncateTracker ∈ saving.log then some []
    else completed.head?.map (fun r => Text.ofNat r.step)
  kept : ∀ r, completed.head? = some r → ∀ e ∈ config.managers, ∀ name ∈ e.2.names,
    fs.files (.shard ⟨r.step, e.1⟩ name) = if .rmtree ⟨r.step, e.1⟩ ∈ saving.log then none
    else some r.id
  keptFolder : ∀ r, completed.head? = some r → fs.folders r.step = true

namespace SavingInv

variable {fs : FileSystem Nat} {completed : List Record} {saving : Saving}

theorem settled (inv : SavingInv config fs completed saving) (safe : ¬saving.Exposed config) :
    Settled config fs completed where
  tracker := by
    rw [inv.tracker, if_neg (fun truncated => safe (.inl truncated))]
  complete := by
    intro r latest e member name hname
    rw [inv.kept r latest e member name hname, if_neg]
    exact fun removed => safe (.inr ⟨_, removed, e.2, member, List.ne_nil_of_mem hname⟩)
  folder := inv.keptFolder

/-- In the exposed part a resume raises, or finds a directory with a file missing. -/
theorem not_resumeOk (inv : SavingInv config fs completed saving) (exposed : saving.Exposed config)
    (life : Option Life) (calls : Nat) : ¬ResumeOk config ⟨fs, life, completed, calls⟩ := by
  have tracker := inv.tracker
  by_cases truncated : .truncateTracker ∈ saving.log
  · rw [if_pos truncated] at tracker
    have fails : autoResume config fs =
        .error (.value "invalid literal for int() with base 10") := by
      simp [autoResume, findLatestCkptPath, tracker, Text.toInt_nil]
    simp [ResumeOk, fails]
  · obtain ⟨dir, removed, manager, member, some⟩ := exposed.resolve_left truncated
    rw [if_neg truncated] at tracker
    obtain ⟨r, latest, same⟩ := (inv.logged _ removed).resolve_left (by simp)
    obtain ⟨name, hname⟩ := List.exists_mem_of_ne_nil _ some
    have gone : fs.files (.shard ⟨r.step, dir.role⟩ name) = none := by
      rw [inv.kept r latest _ member name hname, if_pos]
      rwa [← same]
    have found : findLatestCkptPath fs = .ok (Option.some r.step) := by
      simp [findLatestCkptPath, tracker, latest, Text.toInt_ofNat, inv.keptFolder r latest]
    intro ok
    simp only [ResumeOk] at ok
    split at ok
    · exact ok
    · rename_i resumed
      simp only [autoResume, found, ok_bind, bind_ok_iff] at resumed
      obtain ⟨_, _, impossible⟩ := resumed
      cases impossible
    · rename_i step resumed
      simp only [autoResume, found, ok_bind, bind_ok_iff, Except.ok.injEq,
        Option.some.injEq] at resumed
      obtain ⟨_, _, rfl⟩ := resumed
      obtain ⟨record, _, hstep, complete⟩ := ok
      have held := complete _ member name hname
      rw [hstep, gone] at held
      cases held

theorem older (inv : SavingInv config fs completed saving) :
    ∀ r, completed.head? = some r → r.step ≠ saving.record.step :=
  fun r latest => Nat.ne_of_lt (inv.newer r (List.mem_of_head? latest))

/-- Every write that is not pending is in its file, also after the next operation. -/
theorem written_exec (inv : SavingInv config fs completed saving) {op : FileOp Nat}
    {pending : Staged (FileOp Nat)}
    (popped : (Staged.ops saving.pending).Perm (op :: Staged.ops pending))
    (stays : ∀ path, path.step = saving.record.step → fs.files path = some saving.record.id →
      (op.exec fs).files path = some saving.record.id) :
    ∀ e ∈ config.managers, ∀ name ∈ e.2.names,
      .write (.shard ⟨saving.record.step, e.1⟩ name) saving.record.id ∈ Staged.ops pending ∨
        (op.exec fs).files (.shard ⟨saving.record.step, e.1⟩ name) = some saving.record.id := by
  intro e member name hname
  rcases inv.written e member name hname with waiting | done
  · rcases List.mem_cons.mp (popped.mem_iff.mp waiting) with now | later
    · right
      simp [← now, FileOp.exec]
    · exact .inl later
  · exact .inr (stays _ rfl done)

theorem folder_exec (inv : SavingInv config fs completed saving) {op : FileOp Nat}
    {pending : Staged (FileOp Nat)}
    (popped : (Staged.ops saving.pending).Perm (op :: Staged.ops pending)) :
    (∃ role, .mkdir ⟨saving.record.step, role⟩ ∈ Staged.ops pending) ∨
      (op.exec fs).folders saving.record.step = true := by
  rcases inv.folder with ⟨role, waiting⟩ | done
  · rcases List.mem_cons.mp (popped.mem_iff.mp waiting) with now | later
    · right
      simp [← now, FileOp.exec]
    · exact .inl ⟨role, later⟩
  · exact .inr (exec_folders op done)

theorem ordinary (inv : SavingInv config fs completed saving) {op : FileOp Nat}
    {stages : Staged (FileOp Nat)} (popped : (Staged.ops saving.pending).Perm
      (op :: Staged.ops (stages ++ [[[.truncateTracker, .writeTracker saving.record.step]]])))
    (belongs : Belongs completed.head? saving.record op)
    (later : ∀ o ∈ Staged.ops stages, Belongs completed.head? saving.record o)
    (untouched : .truncateTracker ∉ saving.log) :
    SavingInv config (op.exec fs) completed { saving with
      pending := stages ++ [[[.truncateTracker, .writeTracker saving.record.step]]], log :=
        op :: saving.log } := by
  have ordinary : op ≠ .truncateTracker := by
    rintro rfl
    exact belongs
  have still : .truncateTracker ∉ op :: saving.log := by
    simp only [List.mem_cons, not_or]
    exact ⟨ordinary.symm, untouched⟩
  refine ⟨inv.newer, ⟨stages, _, rfl, later, .inl ⟨rfl, still⟩⟩, ?_,
    inv.written_exec popped (fun path own => exec_own belongs inv.older own),
    inv.folder_exec popped, ?_, ?_, ?_⟩
  · intro o member
    rcases List.mem_cons.mp member with rfl | before
    · exact .inr belongs
    · exact inv.logged o before
  · rw [if_neg still, exec_tracker belongs, inv.tracker, if_neg untouched]
  · intro r latest e member name hname
    rw [exec_other belongs (inv.older r latest), inv.kept r latest e member name hname]
    by_cases now : op = .rmtree ⟨r.step, e.1⟩
    · simp [now]
    · simp [now, Ne.symm now]
  · exact fun r latest => exec_folders op (inv.keptFolder r latest)

theorem truncate (inv : SavingInv config fs completed saving)
    (popped : (Staged.ops saving.pending).Perm [.truncateTracker,
      .writeTracker saving.record.step]) :
    SavingInv config (FileOp.truncateTracker.exec fs) completed { saving with
      pending := [[[.writeTracker saving.record.step]]], log :=
        .truncateTracker :: saving.log } := by
  refine ⟨inv.newer, ⟨[], _, rfl, by simp, .inr ⟨rfl, rfl, List.mem_cons_self⟩⟩, ?_,
    inv.written_exec popped (fun _ _ held => held), inv.folder_exec popped, ?_, ?_, ?_⟩
  · intro o member
    rcases List.mem_cons.mp member with rfl | before
    · exact .inl rfl
    · exact inv.logged o before
  · rw [if_pos List.mem_cons_self]
    rfl
  · intro r latest e member name hname
    simpa [FileOp.exec] using inv.kept r latest e member name hname
  · exact fun r latest => exec_folders _ (inv.keptFolder r latest)

theorem finish (inv : SavingInv config fs completed saving)
    (popped : (Staged.ops saving.pending).Perm [.writeTracker saving.record.step]) :
    Settled config ((FileOp.writeTracker saving.record.step).exec fs)
      (saving.record :: completed) := by
  have nothing : Staged.ops ([] : Staged (FileOp Nat)) = [] := rfl
  rw [← nothing] at popped
  refine ⟨rfl, ?_, ?_⟩
  · rintro r ⟨⟩ e member name hname
    exact (inv.written_exec popped (fun _ _ held => held) e member name hname).resolve_left
      (by simp)
  · rintro r ⟨⟩
    exact (inv.folder_exec popped).resolve_left (by simp)

theorem pop_last {op o : FileOp Nat} {os : List (FileOp Nat)} {rank : Nat}
    {pending : Staged (FileOp Nat)}
    (popped : Staged.pop rank [[o :: os]] = some (op, pending)) : op = o ∧ pending = [[os]] := by
  cases rank with
  | zero =>
    simp only [Staged.pop, List.flatten_cons, List.flatten_nil, List.append_nil,
      reduceCtorEq, if_false, List.getElem?_cons_zero, Option.some.injEq, Prod.mk.injEq,
      List.set_cons_zero] at popped
    exact ⟨popped.1.symm, popped.2.symm⟩
  | succ rank => simp [Staged.pop] at popped

theorem step (inv : SavingInv config fs completed saving) {rank : Nat} {op : FileOp Nat}
    {pending : Staged (FileOp Nat)} (popped : saving.pending.pop rank = some (op, pending)) :
    (Staged.ops pending ≠ [] ∧
      SavingInv config (op.exec fs) completed
        { saving with pending := pending, log := op :: saving.log }) ∨
    (Staged.ops pending = [] ∧ Settled config (op.exec fs) (saving.record :: completed)) := by
  have perm := Staged.pop_perm popped
  obtain ⟨stages, tail, hpending, belongs, shape⟩ := inv.program
  rw [hpending] at popped
  by_cases allDone : Staged.ops stages = []
  · rw [Staged.pop_append_right allDone] at popped
    rcases shape with ⟨rfl, untouched⟩ | ⟨rfl, -, truncated⟩
    · obtain ⟨rfl, rfl⟩ := pop_last popped
      exact .inl ⟨by simp, inv.truncate perm⟩
    · obtain ⟨rfl, rfl⟩ := pop_last popped
      exact .inr ⟨rfl, inv.finish perm⟩
  · rw [Staged.pop_append_left allDone] at popped
    obtain ⟨⟨o, rest⟩, hpop, same⟩ := Option.map_eq_some_iff.mp popped
    obtain ⟨rfl, rfl⟩ := Prod.mk.inj same
    have sub := Staged.pop_perm hpop
    rcases shape with ⟨rfl, untouched⟩ | ⟨-, empty, -⟩
    · refine .inl ⟨by simp,
        inv.ordinary perm (belongs o (sub.mem_iff.mpr List.mem_cons_self)) ?_ untouched⟩
      exact fun o' member => belongs o' (sub.mem_iff.mpr (List.mem_cons_of_mem _ member))
    · exact absurd empty allDone

end SavingInv

/-- Only Megatron's manager remembers a directory, the one of the latest completed save. -/
def SavedOk (config : Config) (completed : List Record) (saved : Role → Manager.Saved) : Prop :=
  ∀ role dir, (saved role).previousSavedPath = some dir →
    (∃ layout contents, config.managers.lookup role = some (.megatron layout contents)) ∧
    ∃ r, completed.head? = some r ∧ dir = ⟨r.step, role⟩

theorem savedOk_rememberAll {completed : List Record} {saved : Role → Manager.Saved}
    (ok : SavedOk config completed saved) (record : Record) :
    SavedOk config (record :: completed) (rememberAll config record.step saved) := by
  intro role dir remembered
  simp only [rememberAll] at remembered
  split at remembered
  · rename_i manager found
    cases manager with
    | fsdp worldSize positive hfModel =>
      obtain ⟨⟨layout, contents, other⟩, -⟩ := ok role dir remembered
      rw [found] at other
      cases other
    | megatron layout contents =>
      simp only [Manager.remember, Option.some.injEq] at remembered
      exact ⟨⟨layout, contents, found⟩, record, rfl, remembered.symm⟩
  · rename_i missing
    obtain ⟨⟨layout, contents, other⟩, -⟩ := ok role dir remembered
    rw [missing] at other
    cases other

theorem SavingInv.start {fs : FileSystem Nat} {completed : List Record}
    {saved : Role → Manager.Saved}
    (settled : Settled config fs completed) (ok : SavedOk config completed saved) {record : Record}
    (newer : ∀ r ∈ completed, r.step < record.step) :
    SavingInv config fs completed ⟨record, saveProgram config saved record.step record.id, []⟩ := by
  have listed : ∀ op, op ∈ Staged.ops (config.managers.flatMap (fun e => e.2.saveCheckpoint
      config.removePreviousCkptInSave (saved e.1) ⟨record.step, e.1⟩ (fun _ _ => record.id))) ↔
      ∃ e ∈ config.managers,
        op ∈ Staged.ops (e.2.saveCheckpoint config.removePreviousCkptInSave (saved e.1)
        ⟨record.step, e.1⟩ (fun _ _ => record.id)) := by
    intro op
    simp only [Staged.ops, List.mem_flatten, List.mem_flatMap]
    constructor
    · rintro ⟨program, ⟨stage, ⟨e, member, hstage⟩, hprogram⟩, hop⟩
      exact ⟨e, member, program, ⟨stage, hstage, hprogram⟩, hop⟩
    · rintro ⟨e, member, program, ⟨stage, hstage, hprogram⟩, hop⟩
      exact ⟨program, ⟨stage, ⟨e, member, hstage⟩, hprogram⟩, hop⟩
  have pending : ∀ e ∈ config.managers,
    ∀ op ∈ Staged.ops (e.2.saveCheckpoint config.removePreviousCkptInSave
      (saved e.1) ⟨record.step, e.1⟩ (fun _ _ => record.id)),
      op ∈ Staged.ops (saveProgram config saved record.step record.id) := by
    intro e member op hop
    simp only [saveProgram, Staged.ops_append]
    exact List.mem_append_left _ (List.mem_append_left _ ((listed op).mpr ⟨e, member, hop⟩))
  refine ⟨newer, ⟨_, _, rfl, ?_, .inl ⟨rfl, by simp⟩⟩, by simp, ?_, ?_, ?_, ?_, settled.folder⟩
  · intro op member
    rw [Staged.ops_append, List.mem_append] at member
    rcases member with role | data
    · obtain ⟨e, -, hop⟩ := (listed op).mp role
      rcases Manager.mem_saveCheckpoint.mp hop with rfl | ⟨-, previous, hprevious,
        rfl⟩ | ⟨w, -, rfl⟩
      · rfl
      · obtain ⟨-, r, latest, rfl⟩ := ok e.1 previous hprevious
        exact ⟨r, latest, rfl⟩
      · exact ⟨rfl, rfl⟩
    · simp only [Staged.ops_cons, Staged.ops_nil, List.flatten_cons, List.flatten_nil,
        List.append_nil, List.mem_singleton] at data
      subst data
      exact ⟨rfl, rfl⟩
  · intro e member name hname
    obtain ⟨w, hw, rfl⟩ := List.mem_map.mp hname
    exact .inl (pending e member _ (Manager.mem_saveCheckpoint.mpr (.inr (.inr ⟨w, hw, rfl⟩))))
  · have actor : (Role.actor, config.actor) ∈ config.managers := List.mem_cons_self
    exact .inl ⟨.actor, pending _ actor _ (Manager.mem_saveCheckpoint.mpr (.inl rfl))⟩
  · rw [if_neg (by simp)]
    exact settled.tracker
  · intro r latest e member name hname
    rw [if_neg (by simp)]
    exact settled.complete r latest e member name hname

/-- What holds in every state of a run whose crashes are safe. -/
structure Inv (config : Config) (s : State) : Prop where
  ordered : ∀ latest, s.completed.head? = some latest → ∀ r ∈ s.completed, r.step ≤ latest.step
  dead : s.life = none → Settled config s.fs s.completed
  steps : ∀ life, s.life = some life → ∀ r ∈ s.completed, r.step ≤ life.globalSteps
  saved : ∀ life, s.life = some life → SavedOk config s.completed life.saved
  idle : ∀ life, s.life = some life → life.saving = none → Settled config s.fs s.completed
  busy : ∀ life saving, s.life = some life → life.saving = some saving →
    SavingInv config s.fs s.completed saving ∧ saving.record.step = life.globalSteps

theorem Inv.settled {s : State} (inv : Inv config s) (safe : ¬s.Exposed config) :
    Settled config s.fs s.completed := by
  cases hlife : s.life with
  | none => exact inv.dead hlife
  | some life =>
    cases hsaving : life.saving with
    | none => exact inv.idle life hlife hsaving
    | some saving =>
      exact (inv.busy life saving hlife hsaving).1.settled (fun exposed =>
        safe ⟨life, saving, hlife, hsaving, exposed⟩)

/-- Auto-resume works exactly outside the exposed part of a save. -/
theorem Inv.resume_iff {s : State} (inv : Inv config s) :
    ResumeOk config s ↔ ¬s.Exposed config := by
  constructor
  · rintro ok ⟨life, saving, hlife, hsaving, exposed⟩
    exact (inv.busy life saving hlife hsaving).1.not_resumeOk exposed s.life s.calls ok
  · exact fun safe => (inv.settled safe).resumeOk

inductive Step (config : Config) (s : State) : Event → State → Prop where
  | train (life : Life) (running : s.life = some life) (idle : life.saving = none) :
    Step config s (.iterate false)
      { s with life := some { life with globalSteps := life.globalSteps + 1 } }
  | save (life : Life) (running : s.life = some life) (idle : life.saving = none) :
    Step config s (.iterate true) { s with
      calls := s.calls + 1
      life := some { life with
        globalSteps := life.globalSteps + 1
        saving := some ⟨⟨s.calls, life.globalSteps + 1⟩,
          saveProgram config life.saved (life.globalSteps + 1) s.calls, []⟩ } }
  | operation (life : Life) (saving : Saving) (rank : Nat) (op : FileOp Nat)
    (pending : Staged (FileOp Nat))
      (running : s.life = some life) (busy : life.saving = some saving)
      (popped : saving.pending.pop rank = some (op, pending)) (more : Staged.ops pending ≠ []) :
    Step config s (.operation rank) { s with
      fs := op.exec s.fs
      life := some { life with
        saving := some { saving with pending := pending, log := op :: saving.log } } }
  | finish (life : Life) (saving : Saving) (rank : Nat) (op : FileOp Nat)
    (pending : Staged (FileOp Nat))
      (running : s.life = some life) (busy : life.saving = some saving)
      (popped : saving.pending.pop rank = some (op, pending)) (allDone : Staged.ops pending = []) :
    Step config s (.operation rank) { s with
      fs := op.exec s.fs
      completed := saving.record :: s.completed
      life := some { life with
        saved := rememberAll config saving.record.step life.saved, saving := none } }
  | crash (life : Life) (running : s.life = some life) :
    Step config s .crash { s with life := none }
  | resume (found : Option Nat) (dead : s.life = none)
    (resumed : autoResume config s.fs = .ok found) :
    Step config s .resume { s with life := some (Life.start (found.getD 0)) }

theorem next_step {event : Event} {s s' : State} (moved : next config event s = some s') :
    Step config s event s' := by
  cases event with
  | iterate save =>
    simp only [next, Option.bind_eq_bind, Option.bind_eq_some_iff] at moved
    obtain ⟨life, running, moved⟩ := moved
    cases hsaving : life.saving with
    | some saving => simp [hsaving] at moved
    | none =>
      rw [if_neg (by simp [hsaving])] at moved
      cases save with
      | true =>
        cases moved
        exact .save life running hsaving
      | false =>
        cases moved
        exact .train life running hsaving
  | operation rank =>
    simp only [next, Option.bind_eq_bind, Option.bind_eq_some_iff, Prod.exists] at moved
    obtain ⟨life, running, saving, busy, op, pending, popped, moved⟩ := moved
    split at moved
    · rename_i allDone
      cases moved
      exact .finish life saving rank op pending running busy popped allDone
    · rename_i more
      cases moved
      exact .operation life saving rank op pending running busy popped more
  | crash =>
    simp only [next, Option.bind_eq_bind, Option.bind_eq_some_iff] at moved
    obtain ⟨life, running, moved⟩ := moved
    cases moved
    exact .crash life running
  | resume =>
    simp only [next] at moved
    split at moved
    · rename_i found dead resumed
      cases moved
      exact .resume found dead resumed
    · contradiction

theorem Settled.resumed {fs : FileSystem Nat} {completed : List Record}
    (settled : Settled config fs completed)
    {found : Option Nat} (resumed : autoResume config fs = .ok found) :
    ∀ r, completed.head? = some r → found.getD 0 = r.step := by
  intro r latest
  have tracker := settled.tracker
  rw [latest] at tracker
  have known := autoResume_complete tracker (settled.folder r latest) (settled.complete r latest)
  rw [known] at resumed
  cases resumed
  rfl

theorem Inv.of_running {s : State} {life : Life} (running : s.life = some life)
    (ordered : ∀ latest, s.completed.head? = some latest → ∀ r ∈ s.completed, r.step ≤ latest.step)
    (steps : ∀ r ∈ s.completed, r.step ≤ life.globalSteps)
    (saved : SavedOk config s.completed life.saved)
    (idle : life.saving = none → Settled config s.fs s.completed)
    (busy : ∀ saving, life.saving = some saving →
      SavingInv config s.fs s.completed saving ∧ saving.record.step = life.globalSteps) :
      Inv config s := by
  have own : ∀ other, s.life = some other → other = life :=
    fun other here => Option.some.inj (here.symm.trans running)
  constructor
  · exact ordered
  · intro dead
    rw [running] at dead
    cases dead
  · intro other here
    rw [own other here]
    exact steps
  · intro other here
    rw [own other here]
    exact saved
  · intro other here
    rw [own other here]
    exact idle
  · intro other saving here
    rw [own other here]
    exact busy saving

theorem inv_finish {s : State} {life : Life} {saving : Saving} {rank : Nat} {op : FileOp Nat}
    {pending : Staged (FileOp Nat)} (running : s.life = some life)
    (busy : life.saving = some saving) (popped : saving.pending.pop rank = some (op, pending))
    (allDone : Staged.ops pending = []) (inv : Inv config s) :
    Inv config { s with
      fs := op.exec s.fs
      completed := saving.record :: s.completed
      life := some { life with
        saved := rememberAll config saving.record.step life.saved, saving := none } } := by
  obtain ⟨saveInv, same⟩ := inv.busy life saving running busy
  have newest : ∀ r ∈ saving.record :: s.completed, r.step ≤ saving.record.step := by
    intro r member
    rcases List.mem_cons.mp member with rfl | before
    · exact Nat.le_refl _
    · exact Nat.le_of_lt (saveInv.newer r before)
  apply Inv.of_running rfl
  · rintro _ ⟨⟩
    exact newest
  · exact fun r member => same ▸ newest r member
  · exact savedOk_rememberAll (inv.saved life running) saving.record
  · intro _
    rcases saveInv.step popped with ⟨more, -⟩ | ⟨-, settled⟩
    · exact absurd allDone more
    · exact settled
  · rintro _ ⟨⟩

theorem inv_resume {s : State} {found : Option Nat} (dead : s.life = none)
    (resumed : autoResume config s.fs = .ok found)
    (inv : Inv config s) : Inv config { s with life := some (Life.start (found.getD 0)) } := by
  have settled := inv.dead dead
  apply Inv.of_running rfl
  · exact inv.ordered
  · intro r member
    obtain ⟨latest, hlatest⟩ : ∃ latest, s.completed.head? = some latest := by
      cases h : s.completed with
      | nil => simp [h] at member
      | cons first rest => exact ⟨first, rfl⟩
    have here : (Life.start (found.getD 0)).globalSteps = latest.step :=
      settled.resumed resumed latest hlatest
    rw [here]
    exact inv.ordered latest hlatest r member
  · rintro role dir remembered
    cases remembered
  · exact fun _ => settled
  · rintro _ ⟨⟩

theorem inv_step {event : Event} {s s' : State} (moved : Step config s event s')
    (safe : event = .crash → ¬s.Exposed config) (inv : Inv config s) : Inv config s' := by
  cases moved with
  | train life running idle =>
    apply Inv.of_running rfl
    · exact inv.ordered
    · exact fun r member => Nat.le_succ_of_le (inv.steps life running r member)
    · exact inv.saved life running
    · exact fun _ => inv.idle life running idle
    · intro saving busy
      rw [idle] at busy
      cases busy
  | save life running idle =>
    apply Inv.of_running rfl
    · exact inv.ordered
    · exact fun r member => Nat.le_succ_of_le (inv.steps life running r member)
    · exact inv.saved life running
    · rintro ⟨⟩
    · rintro saving ⟨⟩
      have newer : ∀ r ∈ s.completed, r.step < life.globalSteps + 1 :=
        fun r member => Nat.lt_succ_of_le (inv.steps life running r member)
      exact ⟨SavingInv.start (inv.idle life running idle) (inv.saved life running) newer, rfl⟩
  | operation life saving rank op pending running busy popped more =>
    obtain ⟨saveInv, same⟩ := inv.busy life saving running busy
    apply Inv.of_running rfl
    · exact inv.ordered
    · exact inv.steps life running
    · exact inv.saved life running
    · rintro ⟨⟩
    · rintro _ ⟨⟩
      rcases saveInv.step popped with ⟨-, after⟩ | ⟨allDone, -⟩
      · exact ⟨after, same⟩
      · exact absurd allDone more
  | finish life saving rank op pending running busy popped allDone =>
    exact inv_finish running busy popped allDone inv
  | crash life running =>
    have settled := inv.settled (safe rfl)
    exact ⟨inv.ordered, fun _ => settled, by simp, by simp, by simp, by simp⟩
  | resume found dead resumed => exact inv_resume dead resumed inv

theorem inv_init : Inv config State.init where
  ordered := by simp [State.init]
  dead := fun _ => ⟨rfl, by simp [State.init], by simp [State.init]⟩
  steps := by simp [State.init]
  saved := by simp [State.init]
  idle := by simp [State.init]
  busy := by simp [State.init]

theorem run_append (config : Config) (before : List Event) (event : Event) :
    run config (before ++ [event]) = (run config before).bind (next config event) := by
  simp [run, List.foldlM_append]

theorem inv_run {events : List Event} {s : State} (safe : SafeCrashes config events)
    (reached : run config events = some s) : Inv config s := by
  induction events using List.reverseRecOn generalizing s with
  | nil =>
    cases reached
    exact inv_init
  | append_singleton before event ih =>
    rw [run_append, Option.bind_eq_some_iff] at reached
    obtain ⟨middle, hmiddle, moved⟩ := reached
    have earlier : SafeCrashes config before := by
      intro front back split
      exact safe front (back ++ [event]) (by rw [split]; simp)
    refine inv_step (next_step moved) ?_ (ih earlier hmiddle)
    rintro rfl
    exact safe before [] rfl middle hmiddle

/-- In every run whose crashes are safe auto-resume works, and at every point of it a
crash would do harm exactly in the exposed part of a save. -/
theorem resume_after_safe_crashes (config : Config) {events : List Event} {s : State}
    (safe : SafeCrashes config events) (reached : run config events = some s) :
    (s.life = none → ResumeOk config s) ∧ (ResumeOk config s ↔ ¬s.Exposed config) := by
  have inv := inv_run safe reached
  exact ⟨fun dead => (inv.dead dead).resumeOk, inv.resume_iff⟩

def fsdpActor : Config := ⟨.fsdp 1 Nat.one_pos false, none, false⟩

def megatronActor : Config :=
  ⟨.megatron ⟨1, 1, 1, Nat.one_pos, Nat.one_pos, Nat.one_pos⟩ ⟨true, false, true, true⟩, none, true⟩

def secondSave (first operations : Nat) : List Event :=
  .resume :: .iterate true :: List.replicate first (.operation 0) ++
    .iterate true :: List.replicate operations (.operation 0)

theorem truncated_fails : (run fsdpActor (secondSave 7 6 ++ [.crash])).map
    (fun s => (s.life.isNone, s.completed, autoResume fsdpActor s.fs)) =
    some (true, [⟨0, 1⟩], .error (.value "invalid literal for int() with base 10")) := by
  decide +kernel

theorem removed_fails : (run megatronActor (secondSave 8 1 ++ [.crash])).map
    (fun s => (s.life.isNone, s.completed, autoResume megatronActor s.fs)) =
    some (true, [⟨0, 1⟩], .error .fileNotFound) := by
  decide +kernel

theorem not_resumeOk_of_error {events : List Event} {completed : List Record} {error : PyError}
    (fails : (run config events).map
      (fun s => (s.life.isNone, s.completed, autoResume config s.fs)) =
      some (true, completed, .error error)) :
    ∃ s, run config events = some s ∧ s.life = none ∧ s.completed = completed ∧
      ¬ResumeOk config s := by
  obtain ⟨s, reached, same⟩ := Option.map_eq_some_iff.mp fails
  obtain ⟨dead, done, raised⟩ : s.life.isNone = true ∧ s.completed = completed ∧
      autoResume config s.fs = .error error := by simpa using same
  exact ⟨s, reached, Option.isNone_iff_eq_none.mp dead, done, by simp [ResumeOk, raised]⟩

/-- A crash between truncation and write of the tracker makes `int('')` raise; a crash
after the removal of the previous checkpoint leaves the tracker at a directory that
has lost its files. -/
theorem crash_breaks_resume :
    (∃ s, run fsdpActor (secondSave 7 6 ++ [.crash]) = some s ∧ s.life = none ∧
      s.completed = [⟨0, 1⟩] ∧ ¬ResumeOk fsdpActor s) ∧
    (∃ s, run megatronActor (secondSave 8 1 ++ [.crash]) = some s ∧ s.life = none ∧
      s.completed = [⟨0, 1⟩] ∧ ¬ResumeOk megatronActor s) :=
  ⟨not_resumeOk_of_error truncated_fails, not_resumeOk_of_error removed_fails⟩

theorem safeCrashes_secondSave : SafeCrashes fsdpActor (secondSave 7 3 ++ [.crash]) := by
  have quiet : ∀ e ∈ secondSave 7 3, e ≠ .crash := by
    simp [secondSave]
  have log : (run fsdpActor (secondSave 7 3)).bind
    (fun s => s.life.bind (fun life => life.saving.map Saving.log)) =
      some [.write (.shard ⟨2, .actor⟩ (Manager.fsdpName "optim" 1 0)) 1,
        .write (.shard ⟨2, .actor⟩ (Manager.fsdpName "model" 1 0)) 1, .mkdir ⟨2, .actor⟩] := by
    decide +kernel
  intro before after split s reached
  have same : before = secondSave 7 3 := by
    rcases List.append_eq_append_iff.mp split with ⟨extra, rfl, tail⟩ | ⟨extra, shorter, tail⟩
    · cases extra with
      | nil => simp
      | cons e extra => simp at tail
    · cases extra with
      | nil => simp [shorter]
      | cons e extra =>
        simp only [List.cons_append, List.cons.injEq] at tail
        exact absurd tail.1.symm (quiet e (by simp [shorter]))
  subst same
  rintro ⟨life, saving, hlife, hsaving, exposed⟩
  simp only [reached, Option.bind_some, hlife, hsaving, Option.map_some, Option.some.injEq] at log
  rcases exposed with truncated | ⟨dir, removed, -⟩
  · simp [log] at truncated
  · simp [log] at removed

theorem resume_after_safe_crashes_secondSave :
    ∃ s, run fsdpActor (secondSave 7 3 ++ [.crash]) = some s ∧
      (s.life = none → ResumeOk fsdpActor s) ∧ (ResumeOk fsdpActor s ↔ ¬s.Exposed fsdpActor) := by
  have ends : (run fsdpActor (secondSave 7 3 ++ [.crash])).isSome = true := by decide +kernel
  obtain ⟨s, reached⟩ := Option.isSome_iff_exists.mp ends
  exact ⟨s, reached, resume_after_safe_crashes fsdpActor safeCrashes_secondSave reached⟩

end Verl.Checkpoint
