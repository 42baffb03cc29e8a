import Verl.Llama.MergeShards
import Verl.Llama.Replicas

/-! Loading a state dict over the ranks and merging the shards again. -/
namespace Verl.Llama

open Megatron

variable {α : Type} {job : Job α}

def Merges (job : Job α) (isValueModel : Bool) (models : Nat → List (ModelChunk α))
    (merged : Nat → StateDict α) : Prop :=
  ∀ dp < job.layout.dpSize, Spmd.Joint shape (job.layout.modelParallelGroup dp)
    (fun r => Saver.mergeMegatronCkptLlama (job.process r) isValueModel (models r)) merged

theorem merges_of_group {isValueModel : Bool} {models : Nat → List (ModelChunk α)}
    (sized : ∀ r < job.layout.worldSize, Sized job (models r))
    (divides : job.layout.ppSize * job.virtualPpSize ∣ job.config.numHiddenLayers)
    {out : Nat → StateDict α}
    (joint : Spmd.Joint shape (job.layout.modelParallelGroup 0)
      (fun r => Saver.mergeMegatronCkptLlama (job.process r) isValueModel (models r)) out) :
    ∃ merged, Merges job isValueModel models merged ∧ merged 0 = out 0 := by
  have rankZero : (job.layout.rankInfo 0).dpRank = 0 := Layout.modelParallelGroup_zero.2
  refine ⟨fun r => if (job.layout.rankInfo r).dpRank = 0 then out r else StateDict.empty,
    fun dp _ => ?_, if_pos rankZero⟩
  by_cases zero : dp = 0
  · subst zero
    exact joint.results (fun r member => (if_pos member.2).symm)
  · refine Spmd.Joint.done (fun r member => ?_)
    have replica : ¬(job.layout.rankInfo r).dpRank = 0 := by rw [member.2]; exact zero
    have checked := (sized r member.1).checkModels r divides
    simp only [Saver.mergeMegatronCkptLlama, checked, if_neg replica]
    rfl

theorem merges_shards (fits : job.config.Fits job.layout.tpSize) {stateDict : StateDict α}
    (full : stateDict.Full job.config) (vpp : 0 < job.virtualPpSize)
    (divides : job.layout.ppSize * job.virtualPpSize ∣ job.config.numHiddenLayers)
    {models : Nat → List (ModelChunk α)}
    (holds : ∀ r < job.layout.worldSize,
      Holds job stateDict ⟨true, job.config.numHiddenLayers, true, true⟩ r (models r)) :
    ∃ merged, Merges job false models merged ∧
      Saver.Collected stateDict ⟨true, job.config.numHiddenLayers, true, true⟩ merged := by
  have all : AllHold job stateDict ⟨true, job.config.numHiddenLayers, true, true⟩ models :=
    fun r member => holds r member.1
  obtain ⟨out, joint, collected⟩ := Saver.mergeMegatronCkptLlama_joint fits full vpp all divides
  obtain ⟨merged, merges, same⟩ :=
    merges_of_group (fun r inside => (holds r inside).sized) divides joint
  refine ⟨merged, merges, fun param => ?_⟩
  rw [same]
  exact collected param

/-- The loader and the saver run to their ends, and every tensor of the state dict that rank 0
loads comes back. -/
theorem merge_after_load (stateDicts : Nat → StateDict α) (fits : job.config.Fits job.layout.tpSize)
    (vpp : 0 < job.virtualPpSize)
    (divides : job.layout.ppSize * job.virtualPpSize ∣ job.config.numHiddenLayers)
    (full : (stateDicts 0).Full job.config) {models : Nat → List (ModelChunk α)}
    (built : ∀ r < job.layout.worldSize, Built job r (models r)) :
    (∃ loaded merged, Loader.Loads job stateDicts false models loaded ∧
      Merges job false loaded merged) ∧
    ∀ loaded merged, Loader.Loads job stateDicts false models loaded →
      Merges job false loaded merged →
      ∀ param, (job.config.paramShape param).isSome →
        merged 0 param.name = stateDicts 0 param.name := by
  obtain ⟨sharded, loads, holds⟩ := Loader.loads_state_dict fits full vpp divides built
  obtain ⟨collected, merges, whole⟩ := merges_shards fits full vpp divides holds
  refine ⟨⟨sharded, collected, loads, merges⟩, fun loaded merged hloads hmerges param there => ?_⟩
  have zero : job.layout.modelParallelGroup 0 0 := Layout.modelParallelGroup_zero
  have same : collected 0 = merged 0 := by
    refine (merges 0 job.layout.dpPositive).unique
      ((hmerges 0 job.layout.dpPositive).congr (fun r member => ?_)) 0 zero
    rw [loads.unique hloads r member.1]
  obtain ⟨size, hsize⟩ := Option.isSome_iff_exists.mp there
  rw [← same, whole param, full.found hsize]
  cases param with
  | layer index part =>
    have inside : index < job.config.numHiddenLayers := by
      by_contra outside
      simp [Config.paramShape, outside] at hsize
    simp [Saver.merged, inside]
  | rewardHead => cases hsize
  | _ => rfl

/-- Two tensor parallel ranks that share one key-value head, two stages with two chunks each. -/
def tinyJob : Job Nat where
  layout := ⟨2, 2, 2, Nat.two_pos, Nat.two_pos, Nat.two_pos⟩
  config := ⟨4, 2, 1, 2, 2, 4⟩
  virtualPpSize := 2
  garbage := id

def countingDict (config : Config) : StateDict Nat := fun name =>
  (config.params.find? (fun param => param.name == name)).map (fun param =>
    let (rows, cols) := (config.paramShape param).getD (0, 0)
    (List.range rows).map (fun i => (List.range cols).map (fun j => i * cols + j)))

theorem countingDict_full (config : Config) : (countingDict config).Full config := by
  intro param size there
  have member : param ∈ config.params := config.mem_params.mpr (by rw [there]; rfl)
  obtain ⟨found, hfound⟩ :
      ∃ found, config.params.find? (fun p => p.name == param.name) = some found := by
    rw [← Option.isSome_iff_exists, List.find?_isSome]
    exact ⟨param, member, by simp⟩
  obtain rfl := Param.name_injective (by simpa using List.find?_some hfound)
  refine ⟨_, by rw [countingDict, hfound]; rfl, ?_⟩
  simp only [there, Option.getD_some]
  refine ⟨by simp, fun row member => ?_⟩
  obtain ⟨i, _, rfl⟩ := List.mem_map.mp member
  simp

theorem merge_after_load_tinyJob :
    ∃ loaded merged, Loader.Loads tinyJob (fun _ => countingDict tinyJob.config) false
      (initModels tinyJob) loaded ∧ Merges tinyJob false loaded merged ∧
      merged 0 (Param.layer 3 .kProj).name = some [[0, 1, 2, 3], [4, 5, 6, 7]] := by
  have fits : tinyJob.config.Fits tinyJob.layout.tpSize := by
    constructor <;> decide
  obtain ⟨⟨loaded, merged, loads, merges⟩, same⟩ :=
    merge_after_load (fun _ => countingDict tinyJob.config) fits
    (by decide) (by decide) (countingDict_full tinyJob.config) (fun r _ =>
      built_initModels tinyJob r)
  refine ⟨loaded, merged, loads, merges, ?_⟩
  rw [same loaded merged loads merges _ (by decide)]
  decide +kernel

end Verl.Llama
