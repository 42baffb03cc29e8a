import Verl.Base.Staged
import Verl.Base.Text
import Verl.Megatron.Layout

/-! `FSDPCheckpointManager` and `MegatronCheckpointManager`: the files that the ranks
of a role write, between which barriers, and the files that they read back. A
directory removal, a shard write, the truncation and the write of the tracker are
the file-system operations. -/
namespace Verl.Checkpoint
open Megatron

inductive Role where
  | actor
  | critic
  deriving DecidableEq

structure Dir where
  step : Nat
  role : Role
  deriving DecidableEq

inductive Path where
  | shard (dir : Dir) (name : Text)
  | data (step : Nat)
  deriving DecidableEq

def Path.step : Path → Nat
  | .shard dir _ => dir.step
  | .data step => step

def Path.within (dir : Dir) : Path → Bool
  | .shard d _ => d == dir
  | .data _ => false

variable {κ : Type}

structure FileSystem (κ : Type) where
  files : Path → Option κ
  /-- The `global_step_{step}` folders. -/
  folders : Nat → Bool
  tracker : Option Text

def FileSystem.empty : FileSystem κ := ⟨fun _ => none, fun _ => false, none⟩

def FileSystem.read (fs : FileSystem κ) (path : Path) : Py κ :=
  match fs.files path with
  | some content => .ok content
  | none => .error .fileNotFound

inductive FileOp (κ : Type) where
  | rmtree (dir : Dir)
  | mkdir (dir : Dir)
  | write (path : Path) (content : κ)
  | truncateTracker
  | writeTracker (step : Nat)
  deriving DecidableEq

def FileOp.exec : FileOp κ → FileSystem κ → FileSystem κ
  | .rmtree dir, fs =>
    { fs with files := fun path => if path.within dir then none else fs.files path }
  | .mkdir dir, fs => { fs with folders := fun step => step == dir.step || fs.folders step }
  | .write path content, fs =>
    { fs with files := fun p => if p = path then some content else fs.files p }
  | .truncateTracker, fs => { fs with tracker := some [] }
  | .writeTracker step, fs => { fs with tracker := some (Text.ofNat step) }

structure Contents where
  model : Bool
  hfModel : Bool
  optimizer : Bool
  extra : Bool
  deriving DecidableEq

inductive Part where
  | model
  | optimizer
  | extra
  | tokenizer
  | hfModel
  deriving DecidableEq

structure Write where
  name : Text
  rank : Nat
  part : Part
  deriving DecidableEq

inductive Manager where
  /-- FSDP asserts that model, optimizer and extra are among the contents. -/
  | fsdp (worldSize : Nat) (positive : 0 < worldSize) (hfModel : Bool)
  | megatron (layout : Layout) (contents : Contents)

namespace Manager

def worldSize : Manager → Nat
  | .fsdp worldSize _ _ => worldSize
  | .megatron layout _ => layout.worldSize

def fsdpName (kind : String) (worldSize rank : Nat) : Text :=
  kind.toList ++ "_world_size_".toList ++ Text.ofNat worldSize ++ "_rank_".toList ++
    Text.ofNat rank ++ ".pt".toList

/-- `get_checkpoint_name`, below `get_model_checkpoint_path`, without expert parallelism. -/
def checkpointName (layout : Layout) (info : RankInfo) : Text :=
  if 1 < layout.ppSize then
    "model/mp_rank_".toList ++ Text.padded 2 info.tpRank ++ "_".toList ++
      Text.padded 3 info.ppRank ++ "/model.pt".toList
  else "model/mp_rank_".toList ++ Text.padded 2 info.tpRank ++ "/model.pt".toList

/-- `get_optimizer_checkpoint_path`, called with its default `use_distributed_optimizer=True`. -/
def optimizerName (info : RankInfo) : Text :=
  "optim/distrib_optim_pp".toList ++ Text.ofNat info.ppRank ++ "_tp".toList ++
    Text.ofNat info.tpRank ++ ".pt".toList

/-- `get_rng_states_checkpoint_path`, called with its default `data_parallel_random_init=False`. -/
def rngName : Text := "rng_states/rng_states.pt".toList

def tokenizerName : Text := "huggingface/tokenizer".toList

def hfModelName : Text := "huggingface/model".toList

def ranks {O : Type} (worldSize : Nat) (program : Nat → List O) : List (List O) :=
  (List.range worldSize).map program

def optionalStage {O : Type} (on : Bool) (stage : List (List O)) : Staged O :=
  if on then [stage] else []

/-- The files that the ranks write, a stage between two barriers. `save_parameter_state`
of the distributed optimizer writes on data parallel rank 0. -/
def writes : Manager → Staged Write
  | .fsdp worldSize _ hfModel =>
    ranks worldSize (fun rank => [⟨fsdpName "model" worldSize rank, rank, .model⟩,
      ⟨fsdpName "optim" worldSize rank, rank, .optimizer⟩,
      ⟨fsdpName "extra_state" worldSize rank, rank, .extra⟩]) ::
    optionalStage hfModel
      (ranks worldSize (fun rank => if rank = 0 then [⟨tokenizerName, rank, .tokenizer⟩] else []))
  | .megatron layout contents =>
    optionalStage contents.model
      (ranks layout.worldSize (fun rank => if (layout.rankInfo rank).dpRank = 0 then
      [⟨checkpointName layout (layout.rankInfo rank), rank, .model⟩,
        ⟨tokenizerName, rank, .tokenizer⟩] else [])) ++
    optionalStage contents.hfModel (ranks layout.worldSize (fun rank => if rank = 0 then
      [⟨hfModelName, rank, .hfModel⟩] else [])) ++
    optionalStage contents.optimizer
      (ranks layout.worldSize (fun rank => if (layout.rankInfo rank).dpRank = 0 then
      [⟨optimizerName (layout.rankInfo rank), rank, .optimizer⟩] else [])) ++
    optionalStage contents.extra (ranks layout.worldSize (fun rank => [⟨rngName, rank, .extra⟩]))

def names (manager : Manager) : List Text := (Staged.ops manager.writes).map Write.name

/-- The files that `load_checkpoint` reads on a rank; `load_parameter_state` reads on
data parallel rank 0. -/
def reads : Manager → Nat → List Text
  | .fsdp worldSize _ _, rank =>
    [fsdpName "model" worldSize rank, fsdpName "optim" worldSize rank,
      fsdpName "extra_state" worldSize rank]
  | .megatron layout contents, rank =>
    (if contents.model then [checkpointName layout (layout.rankInfo rank)] else []) ++
    (if contents.optimizer ∧ (layout.rankInfo rank).dpRank = 0 then
      [optimizerName (layout.rankInfo rank)] else []) ++
    (if contents.extra then [rngName] else [])

/-- The attributes that the managers set after a save: Megatron's `previous_saved_path`
is the one that `remove_previous_save_local_path` reads, FSDP's `previous_save_path` is not. -/
structure Saved where
  previousSavedPath : Option Dir
  previousSavePath : Option Dir

def remember (dir : Dir) : Manager → Saved → Saved
  | .fsdp _ _ _, saved => { saved with previousSavePath := some dir }
  | .megatron _ _, saved => { saved with previousSavedPath := some dir }

def removePreviousSaveLocalPath (saved : Saved) : List (FileOp κ) :=
  match saved.previousSavedPath with
  | none => []
  | some dir => [.rmtree dir]

def saveCheckpoint (manager : Manager) (removePrevious : Bool) (saved : Saved) (dir : Dir)
    (content : Nat → Part → κ) :
    Staged (FileOp κ) :=
  ranks manager.worldSize (fun _ =>
    (if removePrevious then removePreviousSaveLocalPath saved else []) ++ [.mkdir dir]) ::
  manager.writes.map (fun stage => stage.map (fun program => program.map (fun w =>
    .write (.shard dir w.name) (content w.rank w.part))))

def loadCheckpoint (manager : Manager) (fs : FileSystem κ) (dir : Dir) (rank : Nat) : Py (List κ) :=
  (manager.reads rank).mapM (fun name => fs.read (.shard dir name))

theorem mem_ranks {O : Type} {worldSize : Nat} {program : Nat → List O} {o : O} :
    o ∈ (ranks worldSize program).flatten ↔ ∃ rank < worldSize, o ∈ program rank := by
  simp [ranks, List.mem_flatten]

theorem mem_optionalStage {O : Type} {on : Bool} {worldSize : Nat}
    {program : Nat → List O} {o : O} :
    o ∈ Staged.ops (optionalStage on (ranks worldSize program)) ↔ on = true ∧ ∃ rank < worldSize,
      o ∈ program rank := by
  cases on with
  | false => simp [optionalStage]
  | true =>
    simp only [optionalStage, if_true, Staged.ops_cons, Staged.ops_nil, List.append_nil,
    mem_ranks, true_and]

theorem mem_names {manager : Manager} {w : Write} (member : w ∈ Staged.ops manager.writes) :
    w.name ∈ manager.names :=
  List.mem_map_of_mem member

theorem exists_writer (layout : Layout) {rank : Nat} (inside : rank < layout.worldSize) :
    ∃ writer < layout.worldSize, (layout.rankInfo writer).dpRank = 0 ∧
      (layout.rankInfo writer).tpRank = (layout.rankInfo rank).tpRank ∧
      (layout.rankInfo writer).ppRank = (layout.rankInfo rank).ppRank := by
  have valid := Layout.valid_rankInfo inside
  have there : layout.Valid ⟨(layout.rankInfo rank).tpRank, 0, (layout.rankInfo rank).ppRank⟩ :=
    ⟨valid.tp, layout.dpPositive, valid.pp⟩
  refine ⟨_, Layout.globalRank_lt there, ?_⟩
  rw [Layout.rankInfo_globalRank _ there]
  exact ⟨rfl, rfl, rfl⟩

theorem checkpointName_congr {layout : Layout} {a b : RankInfo} (tp : a.tpRank = b.tpRank)
    (pp : a.ppRank = b.ppRank) : checkpointName layout a = checkpointName layout b := by
  simp only [checkpointName, tp, pp]

theorem optimizerName_congr {a b : RankInfo} (tp : a.tpRank = b.tpRank) (pp : a.ppRank = b.ppRank) :
    optimizerName a = optimizerName b := by
  unfold optimizerName
  rw [tp, pp]

section MegatronWrites

variable {layout : Layout} {contents : Contents} {rank : Nat}

theorem model_mem_writes (on : contents.model = true) (inside : rank < layout.worldSize)
    (zero : (layout.rankInfo rank).dpRank = 0) :
    ⟨checkpointName layout (layout.rankInfo rank), rank, .model⟩ ∈
      Staged.ops (Manager.megatron layout contents).writes := by
  simp only [writes, Staged.ops_append, List.mem_append, mem_optionalStage]
  exact .inl (.inl (.inl ⟨on, rank, inside, by rw [if_pos zero]; exact List.mem_cons_self⟩))

theorem optimizer_mem_writes (on : contents.optimizer = true) (inside : rank < layout.worldSize)
    (zero : (layout.rankInfo rank).dpRank = 0) :
    ⟨optimizerName (layout.rankInfo rank), rank, .optimizer⟩ ∈
      Staged.ops (Manager.megatron layout contents).writes := by
  simp only [writes, Staged.ops_append, List.mem_append, mem_optionalStage]
  exact .inl (.inr ⟨on, rank, inside, by rw [if_pos zero]; exact List.mem_cons_self⟩)

theorem extra_mem_writes (on : contents.extra = true) (inside : rank < layout.worldSize) :
    ⟨rngName, rank, .extra⟩ ∈ Staged.ops (Manager.megatron layout contents).writes := by
  simp only [writes, Staged.ops_append, List.mem_append, mem_optionalStage]
  exact .inr ⟨on, rank, inside, List.mem_cons_self⟩

end MegatronWrites

theorem reads_subset (manager : Manager) {rank : Nat} (inside : rank < manager.worldSize) :
    ∀ name ∈ manager.reads rank, name ∈ manager.names := by
  intro name member
  cases manager with
  | fsdp worldSize positive hfModel =>
    have listed : name ∈ ([⟨fsdpName "model" worldSize rank, rank, .model⟩,
        ⟨fsdpName "optim" worldSize rank, rank, .optimizer⟩,
        ⟨fsdpName "extra_state" worldSize rank, rank, .extra⟩] :
        List Write).map Write.name := member
    obtain ⟨w, hw, rfl⟩ := List.mem_map.mp listed
    apply mem_names
    rw [writes, Staged.ops_cons]
    exact List.mem_append_left _ (mem_ranks.mpr ⟨rank, inside, hw⟩)
  | megatron layout contents =>
    simp only [reads, List.append_assoc, List.mem_append, List.mem_ite_nil_right,
      List.mem_singleton] at member
    rcases member with ⟨on, rfl⟩ | ⟨⟨on, zero⟩, rfl⟩ | ⟨on, rfl⟩
    · obtain ⟨writer, hwriter, zero, tp, pp⟩ := exists_writer layout inside
      rw [checkpointName_congr tp.symm pp.symm]
      exact mem_names (model_mem_writes on hwriter zero)
    · exact mem_names (optimizer_mem_writes on inside zero)
    · exact mem_names (extra_mem_writes on inside)

theorem worldSize_pos (manager : Manager) : 0 < manager.worldSize := by
  cases manager with
  | fsdp worldSize positive hfModel => exact positive
  | megatron layout contents =>
    exact Nat.mul_pos layout.ppPositive (Nat.mul_pos layout.dpPositive layout.tpPositive)

theorem ops_map_write {κ : Type} (manager : Manager) (f : Write → FileOp κ) :
    Staged.ops (manager.writes.map (fun stage => stage.map (fun program => program.map f))) =
      (Staged.ops manager.writes).map f := by
  simp [Staged.ops, List.map_flatten]

theorem mem_saveCheckpoint {κ : Type} {manager : Manager} {removePrevious : Bool}
    {saved : Saved} {dir : Dir} {content : Nat → Part → κ} {op : FileOp κ} :
    op ∈ Staged.ops (manager.saveCheckpoint removePrevious saved dir content) ↔
      op = .mkdir dir ∨ (removePrevious = true ∧ ∃ previous,
        saved.previousSavedPath = some previous ∧ op = .rmtree previous) ∨
      ∃ w ∈ Staged.ops manager.writes, op = .write (.shard dir w.name) (content w.rank w.part) := by
  have positive := manager.worldSize_pos
  rw [saveCheckpoint, Staged.ops_cons, List.mem_append, mem_ranks, ops_map_write]
  constructor
  · rintro (⟨_, _, member⟩ | member)
    · rcases List.mem_append.mp member with removal | made
      · refine .inr (.inl ?_)
        cases removePrevious with
        | false => simp at removal
        | true =>
          simp only [if_true, removePreviousSaveLocalPath] at removal
          split at removal
          · simp at removal
          · rename_i previous h
            exact ⟨rfl, previous, h, List.mem_singleton.mp removal⟩
      · exact .inl (List.mem_singleton.mp made)
    · obtain ⟨w, hw, rfl⟩ := List.mem_map.mp member
      exact .inr (.inr ⟨w, hw, rfl⟩)
  · rintro (rfl | ⟨rfl, previous, h, rfl⟩ | ⟨w, hw, rfl⟩)
    · exact .inl ⟨0, positive, by simp⟩
    · exact .inl ⟨0, positive, by simp [removePreviousSaveLocalPath, h]⟩
    · exact .inr (List.mem_map_of_mem hw)

end Manager

end Verl.Checkpoint
