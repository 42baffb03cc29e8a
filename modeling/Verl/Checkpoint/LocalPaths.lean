import Verl.Base.FileTree
import Verl.Checkpoint.Managers

/-! `save_checkpoint` called again and again with `remove_previous_ckpt=True`, on any local paths:
which of the paths are left on the disk. -/
namespace Verl.Checkpoint.LocalPaths
open FileTree

abbrev Location := List Text

variable {κ : Type}

/-- The attributes that the managers set after a save, as in `Manager.Saved`. -/
structure Saved where
  previousSavedPath : Option Location
  previousSavePath : Option Location

section Model

def remember (path : Location) : Manager → Saved → Saved
  | .fsdp _ _ _, saved => { saved with previousSavePath := some path }
  | .megatron _ _, saved => { saved with previousSavedPath := some path }

def removePreviousSaveLocalPath (saved : Saved) : List (Op Text κ) :=
  match saved.previousSavedPath with
  | none => []
  | some path => [.rmtree path]

def folder (w : Write) : Location := (w.name.splitOn '/').dropLast

/-- The names in the folder. Which files `save_pretrained` writes is up to the tokenizer and the
model. -/
def files (pretrained : Part → List Text) (w : Write) : List Text :=
  match w.part with
  | .tokenizer | .hfModel => pretrained w.part
  | _ => (w.name.splitOn '/').getLast?.toList

def writeOps (pretrained : Part → List Text) (path : Location) (content : Nat → Part → κ)
    (w : Write) : List (Op Text κ) :=
  .makedirs (path ++ folder w) :: (files pretrained w).map (fun file =>
    .write (path ++ folder w ++ [file]) (content w.rank w.part))

/-- `save_checkpoint`, with its stages as in `Manager.saveCheckpoint`. -/
def saveCheckpoint (manager : Manager) (pretrained : Part → List Text) (removePrevious : Bool)
    (saved : Saved) (path : Location) (content : Nat → Part → κ) : Staged (Op Text κ) :=
  Manager.ranks manager.worldSize (fun _ =>
    (if removePrevious then removePreviousSaveLocalPath saved else []) ++ [.makedirs path]) ::
  manager.writes.map (fun stage =>
    stage.map (fun program => program.flatMap (writeOps pretrained path content)))

structure State (κ : Type) where
  disk : Tree Text κ
  saved : Saved

/-- A call on all ranks, which run in the order of the schedule; no result when one of them fails or
is not done. -/
def saveWith (manager : Manager) (pretrained : Part → List Text) (path : Location)
    (content : Nat → Part → κ) (schedule : List Nat) (s : State κ) : Option (State κ) := do
  let (ops, rest) ← Staged.trace schedule
    (saveCheckpoint manager pretrained true s.saved path content)
  if (Staged.ops rest).isEmpty then
    let disk ← execAll ops s.disk
    return ⟨disk, remember path manager s.saved⟩
  else none

def Completes (manager : Manager) (pretrained : Part → List Text) (path : Location)
    (s s' : State κ) : Prop :=
  ∃ content schedule, saveWith manager pretrained path content schedule s = some s'

def Runs (manager : Manager) (pretrained : Part → List Text) :
    State κ → List (Location × State κ) → Prop
  | _, [] => True
  | s, (path, s') :: calls =>
    Completes manager pretrained path s s' ∧ Runs manager pretrained s' calls

def State.start (disk : Tree Text κ) : State κ := ⟨disk, none, none⟩

end Model

/-- After each call, of the paths saved to the last one is there and no other. -/
def Retained (calls : List (Location × State κ)) : Prop :=
  ∀ before path s after, calls = before ++ (path, s) :: after →
    ∀ p ∈ before.map Prod.fst ++ [path], (s.disk p).isSome ↔ p = path

def targets (manager : Manager) (pretrained : Part → List Text) (path : Location) : List Location :=
  path :: (Staged.ops manager.writes).flatMap (fun w =>
    (path ++ folder w) :: (files pretrained w).map (fun file => path ++ folder w ++ [file]))

def Makes (manager : Manager) (pretrained : Part → List Text) (path location : Location) : Prop :=
  ∃ target ∈ targets manager pretrained path, location <+: target

/-- FSDP saves once at most; Megatron makes no earlier path again. -/
def KeepsOne (pretrained : Part → List Text) (paths : List Location) : Manager → Prop
  | .fsdp _ _ _ => paths.length ≤ 1
  | .megatron layout contents =>
    paths.Pairwise (fun earlier later =>
    ¬Makes (.megatron layout contents) pretrained later earlier)

section Call

variable {manager : Manager} {pretrained : Part → List Text} {path l : Location}
  {content : Nat → Part → κ} {s s' : State κ}

theorem ops_writes (pretrained : Part → List Text) (path : Location) (content : Nat → Part → κ) :
    Staged.ops (manager.writes.map (fun stage =>
      stage.map (fun program => program.flatMap (writeOps pretrained path content)))) =
      (Staged.ops manager.writes).flatMap (writeOps pretrained path content) := by
  simp [Staged.ops, List.flatMap, List.map_flatten, List.flatten_flatten, Function.comp_def]

theorem completes_cases (completes : Completes manager pretrained path s s') :
    ∃ content before after, execAll ((before ++ [.makedirs path]) ++ after) s.disk = some s'.disk ∧
      s'.saved = remember path manager s.saved ∧
      (∀ op ∈ before, op = .makedirs path ∨ ∃ r, s.saved.previousSavedPath = some r ∧
        op = .rmtree r) ∧
      (∀ r, s.saved.previousSavedPath = some r → .rmtree r ∈ before) ∧
      after.Perm ((Staged.ops manager.writes).flatMap (writeOps pretrained path content)) := by
  obtain ⟨content, schedule, call⟩ := completes
  simp only [saveWith, Option.bind_eq_bind, Option.bind_eq_some_iff, Prod.exists] at call
  obtain ⟨ops, rest, run, call⟩ := call
  split at call
  · rename_i allDone
    obtain ⟨disk, exec, same⟩ := Option.bind_eq_some_iff.mp call
    cases same
    have rank : (removePreviousSaveLocalPath s.saved : List (Op Text κ)) ++ [.makedirs path] ∈
        Manager.ranks manager.worldSize (fun _ => (if true then removePreviousSaveLocalPath s.saved
          else []) ++ [.makedirs path]) :=
      List.mem_map.mpr ⟨0, List.mem_range.mpr manager.worldSize_pos, rfl⟩
    have made : (Op.makedirs path : Op Text κ) ∈
        (Manager.ranks manager.worldSize (fun _ =>
          (if true then removePreviousSaveLocalPath s.saved else []) ++
          [.makedirs path])).flatten :=
      List.mem_flatten.mpr ⟨_, rank, List.mem_append_right _ List.mem_cons_self⟩
    obtain ⟨before, last, after, rfl, rfl, stage, writes⟩ :=
      Staged.trace_stage (fun op => op = .makedirs path) run
      (List.isEmpty_iff.mp allDone) (List.ne_nil_of_mem made) (by
        intro program member own last ends
        obtain ⟨_, _, rfl⟩ := List.mem_map.mp member
        have same := congrArg List.getLast? ends
        simpa using same.symm)
    rw [ops_writes] at writes
    refine ⟨content, before, after, by simpa using exec, rfl, ?_, ?_, writes⟩
    · intro op member
      have inside := stage.mem_iff.mp (List.mem_append_left _ member)
      obtain ⟨_, _, inside⟩ := Manager.mem_ranks.mp inside
      rcases List.mem_append.mp inside with removal | same
      · right
        simp only [if_true, removePreviousSaveLocalPath] at removal
        split at removal
        · cases removal
        · rename_i r previous
          exact ⟨r, previous, List.mem_singleton.mp removal⟩
      · exact .inl (List.mem_singleton.mp same)
    · intro r previous
      have inside : (Op.rmtree r : Op Text κ) ∈ before ++ [.makedirs path] := by
        apply stage.mem_iff.mpr
        refine List.mem_flatten.mpr ⟨_, rank, List.mem_append_left _ ?_⟩
        rw [removePreviousSaveLocalPath, previous]
        exact List.mem_cons_self
      rcases List.mem_append.mp inside with here | other
      · exact here
      · cases List.mem_singleton.mp other
  · cases call

theorem mem_writes {op : Op Text κ}
    (member : op ∈ (Staged.ops manager.writes).flatMap (writeOps pretrained path content)) :
    ∃ w ∈ Staged.ops manager.writes, op = .makedirs (path ++ folder w) ∨
      ∃ file ∈ files pretrained w,
        op = .write (path ++ folder w ++ [file]) (content w.rank w.part) := by
  obtain ⟨w, hw, inside⟩ := List.mem_flatMap.mp member
  refine ⟨w, hw, ?_⟩
  rcases List.mem_cons.mp inside with rfl | written
  · exact .inl rfl
  · obtain ⟨file, hfile, rfl⟩ := List.mem_map.mp written
    exact .inr ⟨file, hfile, rfl⟩

theorem not_removes_of_mem_writes {op : Op Text κ}
    (member : op ∈ (Staged.ops manager.writes).flatMap (writeOps pretrained path content)) :
    ¬op.removes l := by
  obtain ⟨w, -, rfl | ⟨file, -, rfl⟩⟩ := mem_writes member
  · exact id
  · exact id

theorem makes_of_mem_writes {op : Op Text κ}
    (member : op ∈ (Staged.ops manager.writes).flatMap (writeOps pretrained path content))
    (makes : op.makes l) : Makes manager pretrained path l := by
  obtain ⟨w, hw, rfl | ⟨file, hfile, rfl⟩⟩ := mem_writes member
  · exact ⟨_, List.mem_cons_of_mem _ (List.mem_flatMap.mpr ⟨w, hw, List.mem_cons_self⟩), makes⟩
  · refine ⟨path ++ folder w ++ [file],
      List.mem_cons_of_mem _ (List.mem_flatMap.mpr ⟨w, hw, List.mem_cons_of_mem _ ?_⟩), ?_⟩
    · exact List.mem_map_of_mem hfile
    · rw [show l = _ from makes]

theorem exists_of_makes (makes : Makes manager pretrained path l) (content : Nat → Part → κ) :
    l <+: path ∨
    ∃ op ∈ (Staged.ops manager.writes).flatMap (writeOps pretrained path content), op.makes l := by
  obtain ⟨target, member, below⟩ := makes
  rcases List.mem_cons.mp member with rfl | member
  · exact .inl below
  right
  obtain ⟨w, hw, inside⟩ := List.mem_flatMap.mp member
  have folderOp : Op.makedirs (path ++ folder w) ∈
    (Staged.ops manager.writes).flatMap (writeOps pretrained path content) :=
    List.mem_flatMap.mpr ⟨w, hw, List.mem_cons_self⟩
  rcases List.mem_cons.mp inside with rfl | written
  · exact ⟨_, folderOp, below⟩
  · obtain ⟨file, hfile, rfl⟩ := List.mem_map.mp written
    rcases List.prefix_concat_iff.mp below with rfl | above
    · exact ⟨.write (path ++ folder w ++ [file]) (content w.rank w.part),
        List.mem_flatMap.mpr ⟨w, hw, List.mem_cons_of_mem _ (List.mem_map_of_mem hfile)⟩, rfl⟩
    · exact ⟨_, folderOp, above⟩

theorem folder_of_completes (completes : Completes manager pretrained path s s')
    (above : l <+: path) : s'.disk l = some .folder := by
  obtain ⟨content, before, after, exec, -, -, -, writes⟩ := completes_cases completes
  obtain ⟨middle, first, rest⟩ := execAll_append.mp exec
  obtain ⟨_, -, made⟩ := execAll_append.mp first
  obtain ⟨next, made, nothing⟩ := execAll_cons.mp made
  cases nothing
  apply folder_execAll rest (fun op member => not_removes_of_mem_writes (writes.mem_iff.mp member))
  rw [exec_makedirs made l, if_pos above]

theorem isSome_of_completes (completes : Completes manager pretrained path s s')
    (makes : Makes manager pretrained path l) : (s'.disk l).isSome := by
  obtain ⟨content, before, after, exec, -, -, -, writes⟩ := completes_cases completes
  rcases exists_of_makes makes content with above | ⟨op, member, makes⟩
  · rw [folder_of_completes completes above]
    rfl
  · obtain ⟨middle, -, rest⟩ := execAll_append.mp exec
    exact isSome_of_mem rest (fun op member => not_removes_of_mem_writes (writes.mem_iff.mp member))
      (writes.mem_iff.mpr member) makes

theorem not_makes_of_completes {before after : List (Op Text κ)}
    (removals : ∀ op ∈ before, op = .makedirs path ∨ ∃ r, s.saved.previousSavedPath = some r ∧
      op = .rmtree r)
    (writes : after.Perm ((Staged.ops manager.writes).flatMap (writeOps pretrained path content)))
    (other : ¬Makes manager pretrained path l) : ∀ op ∈ (before ++ [.makedirs path]) ++ after,
      ¬op.makes l := by
  have path_not : ¬(Op.makedirs path : Op Text κ).makes l :=
    fun above => other ⟨path, List.mem_cons_self, above⟩
  intro op member
  simp only [List.mem_append, List.mem_singleton] at member
  rcases member with (early | rfl) | late
  · rcases removals op early with rfl | ⟨r, -, rfl⟩
    · exact path_not
    · exact id
  · exact path_not
  · exact fun makes => other (makes_of_mem_writes (writes.mem_iff.mp late) makes)

theorem none_of_completes (completes : Completes manager pretrained path s s')
    (other : ¬Makes manager pretrained path l)
    (absent : s.disk l = none ∨ (s.saved.previousSavedPath = some l ∧ s.disk l = some .folder)) :
    s'.disk l = none := by
  obtain ⟨content, before, after, exec, -, removals, removed, writes⟩ := completes_cases completes
  have others := not_makes_of_completes removals writes other
  rcases absent with absent | ⟨previous, folder⟩
  · exact none_execAll exec others absent
  · refine none_of_rmtree_mem exec others (.inl folder) ?_
    exact List.mem_append_left _ (List.mem_append_left _ (removed l previous))

/-- Nothing is taken away while `previous_saved_path` is not set. -/
theorem kept_of_completes (completes : Completes manager pretrained path s s')
    (unset : s.saved.previousSavedPath = none)
    (there : (s.disk l).isSome) : (s'.disk l).isSome := by
  obtain ⟨content, before, after, exec, -, removals, -, writes⟩ := completes_cases completes
  refine isSome_execAll exec ?_ there
  intro op member
  simp only [List.mem_append, List.mem_singleton] at member
  rcases member with (early | rfl) | late
  · rcases removals op early with rfl | ⟨r, previous, rfl⟩
    · exact id
    · rw [unset] at previous
      cases previous
  · exact id
  · exact not_removes_of_mem_writes (writes.mem_iff.mp late)

theorem saved_of_completes (completes : Completes manager pretrained path s s') :
    s'.saved = remember path manager s.saved := by
  obtain ⟨_, _, _, _, saved, -⟩ := completes_cases completes
  exact saved

end Call

section Runs

variable {manager : Manager} {pretrained : Part → List Text} {s : State κ}
  {calls : List (Location × State κ)}

theorem runs_concat {call : Location × State κ} : Runs manager pretrained s (calls ++ [call]) ↔
    Runs manager pretrained s calls ∧
      Completes manager pretrained call.1 ((calls.map Prod.snd).getLastD s) call.2 := by
  induction calls generalizing s with
  | nil => simp [Runs]
  | cons first calls ih =>
    rw [List.cons_append, Runs, Runs, ih, and_assoc, List.map_cons, List.getLastD_cons]

theorem Retained.of_concat {call : Location × State κ} (retained : Retained (calls ++ [call])) :
    Retained calls := by
  rintro before path s' after rfl
  exact retained before path s' (after ++ [call]) (by simp)

/-- A path that the last call makes again is there, so it cannot be an earlier one. -/
theorem pairwise_of_retained (runs : Runs manager pretrained s calls)
    (distinct : (calls.map Prod.fst).Nodup) (retained : Retained calls) :
    (calls.map Prod.fst).Pairwise
      (fun earlier later => ¬Makes manager pretrained later earlier) := by
  induction calls using List.reverseRecOn with
  | nil => exact .nil
  | append_singleton calls call ih =>
    obtain ⟨earlier, last⟩ := runs_concat.mp runs
    rw [List.map_append, List.nodup_append] at distinct
    rw [List.map_append, List.pairwise_append]
    refine ⟨ih earlier distinct.1 retained.of_concat, List.pairwise_singleton _ _, ?_⟩
    intro p member q here makes
    obtain rfl : q = call.1 := List.mem_singleton.mp here
    have there := isSome_of_completes last makes
    have same := (retained calls call.1 call.2 [] rfl p (List.mem_append_left _ member)).mp there
    exact distinct.2.2 p member call.1 List.mem_cons_self same

/-- What a Megatron manager has left of the paths that it saved to. -/
structure Kept (past : List Location) (s : State κ) : Prop where
  only : ∀ p ∈ past, (s.disk p).isSome ↔ past.getLast? = some p
  saved : s.saved.previousSavedPath = past.getLast?
  folder : ∀ last, past.getLast? = some last → s.disk last = some .folder

section Megatron

variable {layout : Megatron.Layout} {contents : Contents} {past : List Location}

theorem Kept.save {path : Location} {s' : State κ} (kept : Kept past s)
    (completes : Completes (.megatron layout contents) pretrained path s s')
    (others : ∀ p ∈ past, ¬Makes (.megatron layout contents) pretrained path p) :
    Kept (past ++ [path]) s' := by
  have here : s'.disk path = some .folder := folder_of_completes completes (List.prefix_refl path)
  refine ⟨?_, ?_, ?_⟩
  · intro p member
    rw [List.getLast?_concat, Option.some.injEq]
    rcases List.mem_append.mp member with earlier | last
    · have other := others p earlier
      have gone : s'.disk p = none := by
        apply none_of_completes completes other
        by_cases previous : past.getLast? = some p
        · exact .inr ⟨kept.saved.trans previous, kept.folder p previous⟩
        · left
          rw [← Option.not_isSome_iff_eq_none, kept.only p earlier]
          exact previous
      constructor
      · intro there
        rw [gone] at there
        cases there
      · rintro rfl
        exact absurd ⟨path, List.mem_cons_self, List.prefix_refl path⟩ other
    · obtain rfl := List.mem_singleton.mp last
      simp [here]
  · rw [saved_of_completes completes, List.getLast?_concat]
    rfl
  · intro last isLast
    rw [List.getLast?_concat, Option.some.injEq] at isLast
    exact isLast ▸ here

theorem Kept.run (kept : Kept past s) (runs : Runs (.megatron layout contents) pretrained s calls)
    (apart : (past ++ calls.map Prod.fst).Pairwise (fun earlier later =>
      ¬Makes (.megatron layout contents) pretrained later earlier))
    {before after : List (Location × State κ)} {path : Location} {s' : State κ}
    (split : calls = before ++ (path, s') :: after) :
    Kept (past ++ before.map Prod.fst ++ [path]) s' := by
  induction calls generalizing past s before with
  | nil => simp at split
  | cons call calls ih =>
    obtain ⟨completes, runs⟩ := runs
    rw [List.map_cons, ← List.singleton_append, ← List.append_assoc] at apart
    have others : ∀ p ∈ past, ¬Makes (.megatron layout contents) pretrained call.1 p := by
      intro p member
      exact (List.pairwise_append.mp (List.pairwise_append.mp apart).1).2.2 p member call.1
        List.mem_cons_self
    have saved := kept.save completes others
    cases before with
    | nil =>
      obtain ⟨rfl, -⟩ := List.cons.inj split
      simpa using saved
    | cons first before =>
      obtain ⟨rfl, rest⟩ := List.cons.inj split
      simpa using ih saved runs apart rest

end Megatron

/-- FSDP does not set the attribute that the removal reads, so the first path stays. -/
theorem length_of_retained {worldSize : Nat} {positive : 0 < worldSize} {hfModel : Bool}
    (runs : Runs (.fsdp worldSize positive hfModel) pretrained s calls)
    (unset : s.saved.previousSavedPath = none)
    (distinct : (calls.map Prod.fst).Nodup) (retained : Retained calls) : calls.length ≤ 1 := by
  cases calls with
  | nil => exact Nat.zero_le 1
  | cons first calls =>
    cases calls with
    | nil => exact Nat.le_refl 1
    | cons second calls =>
      obtain ⟨one, two, -⟩ := runs
      have there : (first.2.disk first.1).isSome := by
        rw [folder_of_completes one (List.prefix_refl _)]
        rfl
      have still : first.2.saved.previousSavedPath = none := by
        rw [saved_of_completes one]
        exact unset
      have same := (retained [first] second.1 second.2 calls rfl first.1 List.mem_cons_self).mp
        (kept_of_completes two still there)
      simp [same] at distinct

/-- Only the last path is left after each call exactly when Megatron's manager makes no earlier path
again; FSDP's leaves all of them. -/
theorem retained_iff_keepsOne (manager : Manager) (pretrained : Part → List Text)
    (disk : Tree Text κ) (calls : List (Location × State κ))
    (runs : Runs manager pretrained (State.start disk) calls)
    (distinct : (calls.map Prod.fst).Nodup) :
    Retained calls ↔ KeepsOne pretrained (calls.map Prod.fst) manager := by
  cases manager with
  | fsdp worldSize positive hfModel =>
    rw [KeepsOne, List.length_map]
    constructor
    · exact length_of_retained runs rfl distinct
    · rintro short before path s' after rfl p member
      obtain rfl : before = [] := by
        rw [List.length_append, List.length_cons] at short
        exact List.length_eq_zero_iff.mp (by omega)
      obtain ⟨completes, -⟩ := runs
      obtain rfl := List.mem_singleton.mp member
      simp [folder_of_completes completes (List.prefix_refl p)]
  | megatron layout contents =>
    constructor
    · exact pairwise_of_retained runs distinct
    · intro apart before path s' after split p member
      have start : Kept [] (State.start disk) := ⟨by simp, rfl, by simp⟩
      have kept := start.run runs apart split
      have only := kept.only p (by simpa using member)
      rw [only, List.nil_append, List.getLast?_concat, Option.some.injEq, eq_comm]

end Runs

theorem keepsOne_of_sameLength (layout : Megatron.Layout) (contents : Contents)
    (pretrained : Part → List Text) {paths : List Location}
    (depth : Nat) (sameLength : ∀ path ∈ paths, path.length = depth) (distinct : paths.Nodup) :
    KeepsOne pretrained paths (.megatron layout contents) := by
  refine distinct.imp_of_mem ?_
  intro earlier later first second different
  rintro ⟨target, member, above⟩
  have below : later <+: target := by
    rcases List.mem_cons.mp member with rfl | member
    · exact List.prefix_refl _
    · obtain ⟨w, -, inside⟩ := List.mem_flatMap.mp member
      rcases List.mem_cons.mp inside with rfl | written
      · exact List.prefix_append _ _
      · obtain ⟨file, -, rfl⟩ := List.mem_map.mp written
        rw [List.append_assoc]
        exact List.prefix_append _ _
  have lengths := (sameLength earlier first).trans (sameLength later second).symm
  exact different ((List.prefix_of_prefix_length_le above below (Nat.le_of_eq lengths)).eq_of_length
    lengths)

section Trainer

def location (root : Location) (dir : Dir) : Location :=
  root ++ ["global_step_".toList ++ Text.ofNat dir.step,
    match dir.role with | .actor => "actor".toList | .critic => "critic".toList]

def located (root : Location) : FileOp κ → List (Op Text κ)
  | .rmtree dir => [.rmtree (location root dir)]
  | .mkdir dir => [.makedirs (location root dir)]
  | .write (.shard dir name) content =>
    .makedirs (location root dir ++ (name.splitOn '/').dropLast) ::
      (name.splitOn '/').getLast?.toList.map (fun file =>
        .write (location root dir ++ (name.splitOn '/').dropLast ++ [file]) content)
  | _ => []

def oneFile : Part → List Text
  | .hfModel => ["model".toList]
  | _ => ["tokenizer".toList]

theorem files_oneFile {manager : Manager} {w : Write} (member : w ∈ Staged.ops manager.writes) :
    files oneFile w = (w.name.splitOn '/').getLast?.toList := by
  have names : (w.part = .tokenizer → w.name = Manager.tokenizerName) ∧
      (w.part = .hfModel → w.name = Manager.hfModelName) := by
    cases manager with
    | fsdp worldSize positive hfModel =>
      simp only [Manager.writes, Staged.ops_cons, List.mem_append, Manager.mem_ranks,
        Manager.mem_optionalStage] at member
      rcases member with ⟨rank, -, inside⟩ | ⟨-, rank, -, inside⟩
      · simp only [List.mem_cons, List.not_mem_nil, or_false] at inside
        rcases inside with rfl | rfl | rfl <;> simp
      · split at inside
        · obtain rfl := List.mem_singleton.mp inside
          simp
        · cases inside
    | megatron layout contents =>
      simp only [Manager.writes, Staged.ops_append, List.mem_append,
        Manager.mem_optionalStage] at member
      rcases member with ((⟨-, rank, -, inside⟩ | ⟨-, rank, -, inside⟩) | ⟨-, rank, -,
        inside⟩) | ⟨-, rank, -, inside⟩
      · split at inside
        · simp only [List.mem_cons, List.not_mem_nil, or_false] at inside
          rcases inside with rfl | rfl <;> simp
        · cases inside
      · split at inside
        · obtain rfl := List.mem_singleton.mp inside
          simp
        · cases inside
      · split at inside
        · obtain rfl := List.mem_singleton.mp inside
          simp
        · cases inside
      · obtain rfl := List.mem_singleton.mp inside
        simp
  unfold files
  split
  · rename_i tokenizer
    rw [names.1 tokenizer, tokenizer]
    rfl
  · rename_i hfModel
    rw [names.2 hfModel, hfModel]
    rfl
  · rfl

/-- The saves of `Manager.saveCheckpoint`, by step and role, are these saves at the directories of
the trainer. -/
theorem saveCheckpoint_location (root : Location) (manager : Manager) (removePrevious : Bool)
    (saved : Manager.Saved) (dir : Dir) (content : Nat → Part → κ) :
    saveCheckpoint manager oneFile removePrevious
        ⟨saved.previousSavedPath.map (location root),
          saved.previousSavePath.map (location root)⟩ (location root dir) content =
      (manager.saveCheckpoint removePrevious saved dir content).map
        (fun stage => stage.map (fun program => program.flatMap (located root))) := by
  rw [saveCheckpoint, Manager.saveCheckpoint, List.map_cons, List.map_map]
  congr 1
  · simp only [Manager.ranks, List.map_map]
    apply List.map_congr_left
    intro rank _
    cases removePrevious with
    | false => rfl
    | true =>
      cases previous : saved.previousSavedPath with
      | none =>
        simp [removePreviousSaveLocalPath, Manager.removePreviousSaveLocalPath, previous, located]
      | some r =>
        simp [removePreviousSaveLocalPath, Manager.removePreviousSaveLocalPath, previous, located]
  · apply List.map_congr_left
    intro stage hstage
    rw [Function.comp_apply, List.map_map]
    apply List.map_congr_left
    intro program hprogram
    rw [Function.comp_apply, List.flatMap_map]
    apply List.flatMap_congr
    intro w hw
    have member : w ∈ Staged.ops manager.writes :=
      List.mem_flatten.mpr ⟨program, List.mem_flatten.mpr ⟨stage, hstage, hprogram⟩, hw⟩
    rw [writeOps, files_oneFile member]
    rfl

end Trainer

section TwoSaves

def onlyRoot : Tree Text Unit := fun l => if l = [] then some .folder else none

def savedBy (manager : Manager) (step : Nat) (operations : Nat) (s : State Unit) : State Unit :=
  (saveWith manager (fun _ => []) ["global_step_".toList ++ Text.ofNat step] (fun _ _ => ())
    (List.replicate operations 0) s).getD s

/-- The saves of steps 1 and 2; the second has a removal more if a path is remembered. -/
def twoSaves (manager : Manager) (operations removals : Nat) : List (Location × State Unit) :=
  [(["global_step_1".toList], savedBy manager 1 operations (State.start onlyRoot)),
    (["global_step_2".toList],
    savedBy manager 2 (operations + removals)
    (savedBy manager 1 operations (State.start onlyRoot)))]

def singleMegatron : Manager :=
  .megatron ⟨1, 1, 1, by decide, by decide, by decide⟩ ⟨false, false, false, true⟩

def singleFsdp : Manager := .fsdp 1 (by decide) false

theorem runs_megatron :
    Runs singleMegatron (fun _ => []) (State.start onlyRoot) (twoSaves singleMegatron 3 1) := by
  refine ⟨⟨fun _ _ => (), List.replicate 3 0, ?_⟩, ⟨fun _ _ => (), List.replicate 4 0, ?_⟩, trivial⟩
  · rfl
  · rfl

theorem runs_fsdp :
    Runs singleFsdp (fun _ => []) (State.start onlyRoot) (twoSaves singleFsdp 7 0) := by
  refine ⟨⟨fun _ _ => (), List.replicate 7 0, ?_⟩, ⟨fun _ _ => (), List.replicate 7 0, ?_⟩, trivial⟩
  · rfl
  · rfl

theorem megatron_retains_last : Retained (twoSaves singleMegatron 3 1) :=
  (retained_iff_keepsOne singleMegatron (fun _ => []) onlyRoot (twoSaves singleMegatron 3 1)
    runs_megatron (by decide)).mpr
    (keepsOne_of_sameLength _ _ _ 1 (by decide) (by decide))

/-- After the second save the directory of the first is still there. -/
theorem fsdp_keeps_both :
    ∃ calls : List (Location × State Unit),
    Runs singleFsdp (fun _ => []) (State.start onlyRoot) calls ∧
    calls.map Prod.fst = [["global_step_1".toList], ["global_step_2".toList]] ∧
      ¬Retained calls := by
  refine ⟨twoSaves singleFsdp 7 0, runs_fsdp, rfl, ?_⟩
  intro retained
  have same := (retained [_] _ _ [] rfl ["global_step_1".toList] List.mem_cons_self).mp rfl
  revert same
  decide

end TwoSaves

end Verl.Checkpoint.LocalPaths
