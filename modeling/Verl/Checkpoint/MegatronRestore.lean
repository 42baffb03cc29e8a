import Verl.Checkpoint.Managers

/-! A save and a load of `MegatronCheckpointManager` on one layout, with the writes of
the ranks in any order that the barriers allow: whether every rank gets its own state
back. -/
namespace Verl.Checkpoint
open Megatron

structure RngState (R : Type) where
  randomRngState : R
  npRngState : R
  torchRngState : R
  cudaRngState : R
  rngTrackerStates : List (String × R)
  deriving DecidableEq

/-- The states that a rank saves: the state dicts of its model chunks, its shard of the
optimizer's parameter state, its random number generators. -/
structure RankState (M O R : Type) where
  model : List M
  optimizer : O
  rng : RngState R
  deriving DecidableEq

inductive Content (M K R : Type) where
  | stateDicts (chunks : List M)
  | parameterState (state : K)
  | rngStates (states : List (RngState R))
  | pretrained
  deriving DecidableEq

/-- `save_parameter_state` gathers the shards of a data parallel group on its rank 0,
`load_parameter_state` scatters them. -/
structure DistributedOptimizer (O K : Type) where
  gather : List O → K
  scatter : K → Nat → O

def DistributedOptimizer.Restores {O K : Type} (optimizer : DistributedOptimizer O K) : Prop :=
  ∀ shards dp shard, shards[dp]? = some shard →
    optimizer.scatter (optimizer.gather shards) dp = shard

section Save

variable {M O K R : Type} (layout : Layout) (optimizer : DistributedOptimizer O K) (hfModel : Bool)
  (states : Nat → RankState M O R)

/-- The contents are model, optimizer and extra, with or without `hf_model`. -/
def megatronManager : Manager := .megatron layout ⟨true, hfModel, true, true⟩

def groupShards (info : RankInfo) : List O :=
  (List.range layout.dpSize).map (fun dp =>
    (states (layout.globalRank { info with dpRank := dp })).optimizer)

def getRngState (rank : Nat) : List (RngState R) := [(states rank).rng]

def contentOf (rank : Nat) : Part → Content M K R
  | .model => .stateDicts (states rank).model
  | .optimizer =>
    .parameterState (optimizer.gather (groupShards layout states (layout.rankInfo rank)))
  | .extra => .rngStates (getRngState states rank)
  | .tokenizer => .pretrained
  | .hfModel => .pretrained

def megatronSave (removePrevious : Bool) (saved : Manager.Saved) (dir : Dir) :
    Staged (FileOp (Content M K R)) :=
  (megatronManager layout hfModel).saveCheckpoint removePrevious saved dir
    (contentOf layout optimizer states)

end Save

section Load

variable {M O K R : Type} (layout : Layout) (optimizer : DistributedOptimizer O K)
  (fs : FileSystem (Content M K R)) (dir : Dir) (rank : Nat)

def loadModel (chunks : Nat) : Py (List M) := do
  match ← fs.read (.shard dir (Manager.checkpointName layout (layout.rankInfo rank))) with
  | .stateDicts stateDicts =>
    pyAssert (stateDicts.length == chunks) "state_dicts length mismatch with model length"
    return stateDicts
  | _ => .error (.runtime "not a list of state dicts")

def loadOptimizer : Py O := do
  match ← fs.read (.shard dir (Manager.optimizerName (layout.rankInfo rank))) with
  | .parameterState state => return optimizer.scatter state (layout.rankInfo rank).dpRank
  | _ => .error (.runtime "not a parameter state")

def loadRngStates : Py (RngState R) := do
  match ← fs.read (.shard dir Manager.rngName) with
  | .rngStates rngState =>
    let rngState ← pyGet rngState 0
    if rngState.rngTrackerStates = [] then .error (.key "") else return rngState
  | _ => .error (.runtime "not a list of rng states")

def megatronLoad (chunks : Nat) : Py (RankState M O R) := do
  let model ← loadModel layout fs dir rank chunks
  let parameterState ← loadOptimizer layout optimizer fs dir rank
  let rng ← loadRngStates fs dir
  return ⟨model, parameterState, rng⟩

end Load

section Restoring

variable {M O K R : Type} (layout : Layout) (optimizer : DistributedOptimizer O K) (hfModel : Bool)
  (states : Nat → RankState M O R) (dir : Dir)

def Restored (fs : FileSystem (Content M K R)) : Prop :=
  ∀ rank < layout.worldSize,
    megatronLoad layout optimizer fs dir rank (states rank).model.length = .ok (states rank)

def NotOverwritten (fs : FileSystem (Content M K R)) : Prop :=
  ∀ w ∈ Staged.ops (megatronManager layout hfModel).writes,
    fs.files (.shard dir w.name) = some (contentOf layout optimizer states w.rank w.part)

def execAll {κ : Type} (os : List (FileOp κ)) (fs : FileSystem κ) : FileSystem κ :=
  os.foldl (fun fs op => op.exec fs) fs

def SaveRestores (removePrevious : Bool) (saved : Manager.Saved) : Prop :=
  ∀ fs schedule os rest,
    Staged.trace schedule (megatronSave layout optimizer hfModel states removePrevious saved dir) =
      some (os, rest) → Staged.ops rest = [] →
    Restored layout optimizer states dir (execAll os fs) ∧
      NotOverwritten layout optimizer hfModel states dir (execAll os fs)

end Restoring

theorem files_execAll {κ : Type} {os : List (FileOp κ)}
    (writes : ∀ op ∈ os, ∃ path content, op = .write path content)
    {path : Path} {content : κ} (member : .write path content ∈ os)
    (same : ∀ other, .write path other ∈ os → other = content) (fs : FileSystem κ) :
    (execAll os fs).files path = some content := by
  induction os using List.reverseRecOn with
  | nil => simp at member
  | append_singleton os op ih =>
    obtain ⟨p, c, rfl⟩ := writes op (by simp)
    simp only [execAll, List.foldl_append, List.foldl_cons, List.foldl_nil, FileOp.exec]
    split
    · rename_i here
      subst here
      rw [same c (by simp)]
    · rename_i elsewhere
      refine ih (fun o ho => writes o (by simp [ho])) ?_ (fun other ho => same other (by simp [ho]))
      rcases List.mem_append.mp member with before | now
      · exact before
      · simp only [List.mem_singleton, FileOp.write.injEq] at now
        exact absurd now.1 elsewhere

namespace Manager

theorem separator_not_mem_padded (width n : Nat) : '_' ∉ Text.padded width n := by
  intro member
  have digit := Text.isDigit_of_mem_padded member
  revert digit
  decide

theorem separator_not_mem_ofNat (n : Nat) : '_' ∉ Text.ofNat n := Nat.underscore_not_in_toDigits

theorem checkpointName_injective {layout : Layout} {a b : RankInfo} (validA : layout.Valid a)
    (validB : layout.Valid b) (same : checkpointName layout a = checkpointName layout b) :
    a.tpRank = b.tpRank ∧ a.ppRank = b.ppRank := by
  have separator : "_".toList = ['_'] := rfl
  unfold checkpointName at same
  split at same
  · simp only [List.append_assoc, List.append_cancel_left_eq, separator, List.cons_append,
      List.nil_append] at same
    obtain ⟨tp, pp⟩ := Text.append_injective (separator_not_mem_padded 2 a.tpRank)
      (separator_not_mem_padded 2 b.tpRank) same
    rw [List.append_cancel_right_eq] at pp
    exact ⟨Text.padded_injective tp, Text.padded_injective pp⟩
  · rename_i single
    simp only [List.append_assoc, List.append_cancel_left_eq, List.append_cancel_right_eq] at same
    have one : layout.ppSize ≤ 1 := Nat.le_of_not_lt single
    have pa := validA.pp
    have pb := validB.pp
    exact ⟨Text.padded_injective same, by omega⟩

theorem optimizerName_injective {a b : RankInfo} (same : optimizerName a = optimizerName b) :
    a.tpRank = b.tpRank ∧ a.ppRank = b.ppRank := by
  have separator : "_tp".toList = '_' :: "tp".toList := rfl
  unfold optimizerName at same
  simp only [List.append_assoc, separator] at same
  rw [List.append_cancel_left_eq, List.cons_append, List.cons_append] at same
  obtain ⟨pp, tp⟩ :=
    Text.append_injective (separator_not_mem_ofNat a.ppRank) (separator_not_mem_ofNat b.ppRank) same
  rw [List.append_cancel_left_eq, List.append_cancel_right_eq] at tp
  exact ⟨Text.ofNat_injective tp, Text.ofNat_injective pp⟩

def label : Part → Text
  | .model => "model/mp_rank".toList
  | .optimizer => "optim/distrib".toList
  | .extra => "rng_states/rn".toList
  | .tokenizer => "huggingface/t".toList
  | .hfModel => "huggingface/m".toList

theorem label_injective : ∀ a b : Part, label a = label b → a = b := by
  intro a b
  cases a <;> cases b <;> decide

structure WriteOk (layout : Layout) (w : Write) : Prop where
  inside : w.rank < layout.worldSize
  label : w.name.take 13 = Manager.label w.part
  model : w.part = .model → (layout.rankInfo w.rank).dpRank = 0 ∧
    w.name = checkpointName layout (layout.rankInfo w.rank)
  optimizer : w.part = .optimizer → (layout.rankInfo w.rank).dpRank = 0 ∧
    w.name = optimizerName (layout.rankInfo w.rank)

theorem take_checkpointName (layout : Layout) (info : RankInfo) :
    (checkpointName layout info).take 13 = label .model := by
  unfold checkpointName
  split
  · rfl
  · rfl

theorem writeOk_of_mem {layout : Layout} {contents : Contents} {w : Write}
    (member : w ∈ Staged.ops (Manager.megatron layout contents).writes) : WriteOk layout w := by
  simp only [writes, Staged.ops_append, List.mem_append, mem_optionalStage, List.mem_ite_nil_right,
    List.mem_cons, List.not_mem_nil, or_false] at member
  rcases member with ((⟨-, rank, inside, zero, rfl | rfl⟩ | ⟨-, rank, inside, -, rfl⟩) |
    ⟨-, rank, inside, zero, rfl⟩) | ⟨-, rank, inside, rfl⟩
  · exact ⟨inside, take_checkpointName layout _, fun _ => ⟨zero, rfl⟩, by simp⟩
  · exact ⟨inside, rfl, by simp, by simp⟩
  · exact ⟨inside, rfl, by simp, by simp⟩
  · exact ⟨inside, rfl, by simp, fun _ => ⟨zero, rfl⟩⟩
  · exact ⟨inside, rfl, by simp, by simp⟩

end Manager

section Restore

variable {M O K R : Type} {layout : Layout} {optimizer : DistributedOptimizer O K} {hfModel : Bool}
  {states : Nat → RankState M O R} {dir : Dir}

theorem rank_eq {a b : Nat} (zeroA : (layout.rankInfo a).dpRank = 0)
    (zeroB : (layout.rankInfo b).dpRank = 0)
    (same : (layout.rankInfo a).tpRank = (layout.rankInfo b).tpRank ∧
      (layout.rankInfo a).ppRank = (layout.rankInfo b).ppRank) : a = b := by
  rw [← Layout.globalRank_rankInfo layout a, ← Layout.globalRank_rankInfo layout b]
  simp only [Layout.globalRank, zeroA, zeroB, same.1, same.2]

theorem contentOf_congr (rngs : ∀ rank < layout.worldSize, (states rank).rng = (states 0).rng)
    {v w : Write}
    (okV : Manager.WriteOk layout v) (okW : Manager.WriteOk layout w) (same : v.name = w.name) :
    contentOf layout optimizer states v.rank v.part =
      contentOf layout optimizer states w.rank w.part := by
  have part : v.part = w.part :=
    Manager.label_injective _ _ (by rw [← okV.label, ← okW.label, same])
  cases h : w.part with
  | tokenizer =>
    rw [part, h]
    rfl
  | hfModel =>
    rw [part, h]
    rfl
  | extra =>
    rw [part, h]
    simp only [contentOf, getRngState, rngs v.rank okV.inside, rngs w.rank okW.inside]
  | model =>
    obtain ⟨zeroV, nameV⟩ := okV.model (part.trans h)
    obtain ⟨zeroW, nameW⟩ := okW.model h
    have ranks := rank_eq zeroV zeroW
      (Manager.checkpointName_injective (Layout.valid_rankInfo okV.inside)
      (Layout.valid_rankInfo okW.inside) (nameV.symm.trans (same.trans nameW)))
    rw [part, h, ranks]
  | optimizer =>
    obtain ⟨zeroV, nameV⟩ := okV.optimizer (part.trans h)
    obtain ⟨zeroW, nameW⟩ := okW.optimizer h
    have ranks := rank_eq zeroV zeroW
      (Manager.optimizerName_injective (nameV.symm.trans (same.trans nameW)))
    rw [part, h, ranks]

theorem notOverwritten_of_rngs
    (rngs : ∀ rank < layout.worldSize, (states rank).rng = (states 0).rng)
    {removePrevious : Bool} {saved : Manager.Saved} {schedule : List Nat}
    {os : List (FileOp (Content M K R))}
    {rest : Staged (FileOp (Content M K R))}
    (run : Staged.trace schedule
      (megatronSave layout optimizer hfModel states removePrevious saved dir) =
      some (os, rest)) (allDone : Staged.ops rest = []) (fs : FileSystem (Content M K R)) :
    NotOverwritten layout optimizer hfModel states dir (execAll os fs) := by
  rw [megatronSave, Manager.saveCheckpoint, ← List.singleton_append] at run
  obtain ⟨before, after, rfl, -, perm⟩ := Staged.trace_append run allDone
  rw [Manager.ops_map_write] at perm
  intro w member
  have split : execAll (before ++ after) fs = execAll after (execAll before fs) := List.foldl_append
  rw [split]
  apply files_execAll
  · intro op hop
    obtain ⟨v, _, rfl⟩ := List.mem_map.mp (perm.mem_iff.mp hop)
    exact ⟨_, _, rfl⟩
  · exact perm.mem_iff.mpr (List.mem_map_of_mem member)
  · intro other hother
    obtain ⟨v, hv, same⟩ := List.mem_map.mp (perm.mem_iff.mp hother)
    simp only [FileOp.write.injEq, Path.shard.injEq, true_and] at same
    rw [← same.2]
    exact contentOf_congr rngs (Manager.writeOk_of_mem hv) (Manager.writeOk_of_mem member) same.1

def Replicated (layout : Layout) (states : Nat → RankState M O R) : Prop :=
  ∀ a < layout.worldSize, ∀ b < layout.worldSize,
    (layout.rankInfo a).tpRank = (layout.rankInfo b).tpRank →
    (layout.rankInfo a).ppRank = (layout.rankInfo b).ppRank → (states a).model = (states b).model

theorem groupShards_own (layout : Layout) (states : Nat → RankState M O R) (rank : Nat) :
    (groupShards layout states (layout.rankInfo rank))[(layout.rankInfo rank).dpRank]? =
      some (states rank).optimizer := by
  have inside : (layout.rankInfo rank).dpRank < layout.dpSize := Nat.mod_lt _ layout.dpPositive
  rw [groupShards, List.getElem?_map, List.getElem?_range inside]
  exact congrArg (fun r => some (states r).optimizer) (Layout.globalRank_rankInfo layout rank)

theorem groupShards_congr {a b : RankInfo} (tp : a.tpRank = b.tpRank) (pp : a.ppRank = b.ppRank) :
    groupShards layout states a = groupShards layout states b := by
  simp only [groupShards, tp, pp]

theorem restored_of_notOverwritten (replicated : Replicated layout states)
    (restores : optimizer.Restores)
    (tracker : ∀ rank < layout.worldSize, (states rank).rng.rngTrackerStates ≠ [])
    {fs : FileSystem (Content M K R)}
    (held : NotOverwritten layout optimizer hfModel states dir fs) :
    Restored layout optimizer states dir fs := by
  intro rank inside
  obtain ⟨writer, hwriter, zero, tp, pp⟩ := Manager.exists_writer layout inside
  have modelFile := held _ (Manager.model_mem_writes rfl hwriter zero)
  have optimizerFile := held _ (Manager.optimizer_mem_writes rfl hwriter zero)
  have rngFile := held _ (Manager.extra_mem_writes rfl inside)
  have sameModel := replicated writer hwriter rank inside tp pp
  simp only [contentOf] at modelFile optimizerFile rngFile
  rw [Manager.checkpointName_congr tp pp, sameModel] at modelFile
  rw [Manager.optimizerName_congr tp pp, groupShards_congr tp pp] at optimizerFile
  have model : loadModel layout fs dir rank (states rank).model.length =
      .ok (states rank).model := by
    simp [loadModel, FileSystem.read, modelFile]
  have shard : loadOptimizer layout optimizer fs dir rank = .ok (states rank).optimizer := by
    simp [loadOptimizer, FileSystem.read, optimizerFile,
      restores _ _ _ (groupShards_own layout states rank)]
  have rng : loadRngStates fs dir = .ok (states rank).rng := by
    simp [loadRngStates, FileSystem.read, rngFile, getRngState, pyGet, tracker rank inside]
  simp only [megatronLoad, model, shard, rng, ok_bind]
  rfl

theorem exists_rng_last (layout : Layout) (optimizer : DistributedOptimizer O K) (hfModel : Bool)
    (states : Nat → RankState M O R) (dir : Dir) (removePrevious : Bool) (saved : Manager.Saved)
    {rank : Nat} (inside : rank < layout.worldSize) :
    ∃ schedule os rest,
      Staged.trace schedule
      (megatronSave layout optimizer hfModel states removePrevious saved dir) =
        some (os ++ [.write (.shard dir Manager.rngName) (.rngStates (getRngState states rank))],
          rest) ∧
      Staged.ops rest = [] := by
  have there : ((Manager.ranks layout.worldSize (fun r =>
    [(⟨Manager.rngName, r, .extra⟩ : Write)])).map
      (fun program => program.map (fun w =>
        FileOp.write (.shard dir w.name)
          (contentOf layout optimizer states w.rank w.part))))[rank]? =
      some ([] ++ [.write (.shard dir Manager.rngName)
        (.rngStates (getRngState states rank))]) := by
    rw [List.getElem?_map, Manager.ranks, List.getElem?_map, List.getElem?_range inside]
    rfl
  simp only [megatronSave, Manager.saveCheckpoint, megatronManager, Manager.writes, List.map_append,
    ← List.cons_append]
  exact Staged.exists_trace_last _ _ there

theorem rng_of_load {fs : FileSystem (Content M K R)} {rank chunks : Nat} {state : RankState M O R}
    {rng : RngState R} (file : fs.files (.shard dir Manager.rngName) = some (.rngStates [rng]))
    (loaded : megatronLoad layout optimizer fs dir rank chunks = .ok state) :
    state.rng = rng ∧ rng.rngTrackerStates ≠ [] := by
  simp only [megatronLoad, bind_ok_iff, pure_eq_ok, Except.ok.injEq] at loaded
  obtain ⟨_, _, _, _, read, hread, rfl⟩ := loaded
  have got : pyGet [rng] 0 = .ok rng := rfl
  simp only [loadRngStates, FileSystem.read, file, ok_bind, got] at hread
  split at hread
  · cases hread
  · rename_i some
    cases hread
    exact ⟨rfl, some⟩

theorem model_of_load {fs : FileSystem (Content M K R)} {rank chunks : Nat}
    {state : RankState M O R} {model : List M}
    (file : fs.files (.shard dir (Manager.checkpointName layout (layout.rankInfo rank))) =
      some (.stateDicts model))
    (loaded : megatronLoad layout optimizer fs dir rank chunks = .ok state) :
    state.model = model := by
  simp only [megatronLoad, bind_ok_iff, pure_eq_ok, Except.ok.injEq] at loaded
  obtain ⟨read, hread, _, _, _, _, rfl⟩ := loaded
  simp only [loadModel, FileSystem.read, file, ok_bind, bind_ok_iff, pure_eq_ok,
    Except.ok.injEq] at hread
  obtain ⟨_, _, rfl⟩ := hread
  rfl

theorem replicated_of_restored {fs : FileSystem (Content M K R)}
    (restored : Restored layout optimizer states dir fs)
    (held : NotOverwritten layout optimizer hfModel states dir fs) : Replicated layout states := by
  have own : ∀ writer < layout.worldSize, (layout.rankInfo writer).dpRank = 0 →
      ∀ rank < layout.worldSize, (layout.rankInfo writer).tpRank = (layout.rankInfo rank).tpRank →
      (layout.rankInfo writer).ppRank = (layout.rankInfo rank).ppRank →
      (states rank).model = (states writer).model := by
    intro writer hwriter zero rank inside tp pp
    have file := held _ (Manager.model_mem_writes rfl hwriter zero)
    simp only [contentOf] at file
    rw [Manager.checkpointName_congr tp pp] at file
    exact model_of_load file (restored rank inside)
  intro a ha b hb tp pp
  obtain ⟨writer, hwriter, zero, tpA, ppA⟩ := Manager.exists_writer layout ha
  rw [own writer hwriter zero a ha tpA ppA,
    own writer hwriter zero b hb (tpA.trans tp) (ppA.trans pp)]

/-- Every rank gets its own state back, whatever the order of the writes, exactly when
the ranks of a data parallel group hold one model and all ranks share one state of
the generators, with tracker states in it. -/
theorem megatron_restores_iff (layout : Layout) (hfModel : Bool) (states : Nat → RankState M O R)
    (dir : Dir) (removePrevious : Bool) (saved : Manager.Saved) (restores : optimizer.Restores) :
    SaveRestores layout optimizer hfModel states dir removePrevious saved ↔
      Replicated layout states ∧ (∀ rank < layout.worldSize, (states rank).rng = (states 0).rng) ∧
        (states 0).rng.rngTrackerStates ≠ [] := by
  constructor
  · intro restored
    have zero : 0 < layout.worldSize := (megatronManager layout hfModel).worldSize_pos
    have loads : ∀ last < layout.worldSize, (states 0).rng = (states last).rng ∧
        (states last).rng.rngTrackerStates ≠ [] := by
      intro last inside
      obtain ⟨schedule, os, rest, run, allDone⟩ :=
        exists_rng_last layout optimizer hfModel states dir removePrevious saved inside
      have loaded := (restored .empty schedule _ rest run allDone).1 0 zero
      refine rng_of_load ?_ loaded
      simp [execAll, List.foldl_append, FileOp.exec, getRngState]
    obtain ⟨schedule, os, rest, run, allDone⟩ :=
      exists_rng_last layout optimizer hfModel states dir removePrevious saved zero
    obtain ⟨everywhere, held⟩ := restored .empty schedule _ rest run allDone
    exact ⟨replicated_of_restored everywhere held, fun rank inside => (loads rank inside).1.symm,
      (loads 0 zero).2⟩
  · rintro ⟨replicated, rngs, tracker⟩ fs schedule os rest run allDone
    have held := notOverwritten_of_rngs rngs run allDone fs
    refine ⟨restored_of_notOverwritten replicated restores ?_ held, held⟩
    intro rank inside
    rw [rngs rank inside]
    exact tracker

end Restore

def listOptimizer : DistributedOptimizer Nat (List Nat) := ⟨id, fun shards dp => shards.getD dp 0⟩

theorem listOptimizer_restores : listOptimizer.Restores := by
  intro shards dp shard there
  simp [listOptimizer, there]

def twoTensorRanks : Layout := ⟨2, 1, 1, Nat.two_pos, Nat.one_pos, Nat.one_pos⟩

/-- The states of two ranks whose generators were seeded with `seed rank`. -/
def seeded (seed : Nat → Nat) (rank : Nat) : RankState Nat Nat Nat :=
  ⟨[100 + rank], 200 + rank, ⟨1, 1, 1, 1, [("model-parallel-rng", seed rank)]⟩⟩

def stepOneActor : Dir := ⟨1, .actor⟩

theorem megatron_restores_iff_sameSeed :
    SaveRestores twoTensorRanks listOptimizer false (seeded (fun _ => 7)) stepOneActor false ⟨none,
      none⟩ ↔ Replicated twoTensorRanks (seeded (fun _ => 7)) ∧
        (∀ rank < twoTensorRanks.worldSize,
          (seeded (fun _ => 7) rank).rng = (seeded (fun _ => 7) 0).rng) ∧
        (seeded (fun _ => 7) 0).rng.rngTrackerStates ≠ [] :=
  megatron_restores_iff twoTensorRanks false _ stepOneActor false ⟨none,
    none⟩ listOptimizer_restores

/-- With one tracker seed for each tensor parallel rank, rank 0 resumes with the generators of rank
1. -/
theorem rng_states_overwritten :
    ¬SaveRestores twoTensorRanks listOptimizer false (seeded (fun rank => 7 + rank)) stepOneActor
      false ⟨none, none⟩ := by
  have run : (Staged.trace [0, 1, 0, 0, 1, 1, 0, 1, 0, 1]
      (megatronSave twoTensorRanks listOptimizer false (seeded (fun rank => 7 + rank)) false ⟨none,
        none⟩ stepOneActor)).map
      (fun r => (Staged.ops r.2,
        megatronLoad twoTensorRanks listOptimizer (execAll r.1 .empty) stepOneActor 0 1)) =
      some ([], .ok ⟨[100], 200, ⟨1, 1, 1, 1, [("model-parallel-rng", 8)]⟩⟩) := by
    decide +kernel
  obtain ⟨⟨os, rest⟩, traced, result⟩ := Option.map_eq_some_iff.mp run
  obtain ⟨allDone, loaded⟩ := Prod.mk.inj result
  intro restored
  have own := (restored .empty _ os rest traced allDone).1 0 (by decide)
  rw [show (seeded (fun rank => 7 + rank) 0).model.length = 1 from rfl, loaded] at own
  exact absurd own (by decide)

end Verl.Checkpoint
