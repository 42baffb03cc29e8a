import Verl.Llama.LoadShards

/-! The loader on all ranks: after the barrier the parameters of data parallel rank 0
are copied to its replicas, so every rank of the job ends with its shards. -/
namespace Verl.Llama

open Megatron

variable {α : Type}

/-- The same parameters up to their entries. -/
structure LayerWeights.Alike (a b : LayerWeights α) : Prop where
  qkvProj : shape a.qkvProj = shape b.qkvProj
  oProj : shape a.oProj = shape b.oProj
  gateUpProj : shape a.gateUpProj = shape b.gateUpProj
  downProj : shape a.downProj = shape b.downProj
  inputLayernorm : shape a.inputLayernorm = shape b.inputLayernorm
  postAttentionLayernorm : shape a.postAttentionLayernorm = shape b.postAttentionLayernorm

structure ModelChunk.Alike (a b : ModelChunk α) : Prop where
  embedTokens : Option.Rel (fun v w => shape v = shape w) a.embedTokens b.embedTokens
  layers : List.Forall₂ LayerWeights.Alike a.layers b.layers
  norm : Option.Rel (fun v w => shape v = shape w) a.norm b.norm
  lmHead : Option.Rel (fun v w => shape v = shape w) a.lmHead b.lmHead
  rewardHead : Option.Rel (fun v w => shape v = shape w) a.rewardHead b.rewardHead

section Alike

variable {job : Job α} (fits : job.config.Fits job.layout.tpSize)

theorem alike_of_rect {rows cols : Nat} (positive : 0 < rows) {a b : Option (Weight α)}
    (there : a.isSome ↔ b.isSome)
    (first : ∀ w ∈ a, Rect rows cols w) (second : ∀ w ∈ b, Rect rows cols w) :
    Option.Rel (fun v w => shape v = shape w) a b := by
  cases a with
  | none =>
    cases b with
    | none => exact .none
    | some w => simp at there
  | some v =>
    cases b with
    | none => simp at there
    | some w =>
      exact .some ((shape_eq (first v rfl) positive).trans (shape_eq (second w rfl) positive).symm)

include fits

theorem LayerShape.alike {a b : LayerWeights α} (first : LayerShape job.config job.layout.tpSize a)
    (second : LayerShape job.config job.layout.tpSize b) : a.Alike b := by
  have same : ∀ {rows cols : Nat} {v w : Weight α}, 0 < rows → Rect rows cols v → Rect rows cols w →
    shape v = shape w :=
    fun positive hv hw => (shape_eq hv positive).trans (shape_eq hw positive).symm
  exact
    { qkvProj := same (Nat.add_pos_left fits.qSize_pos _) first.qkvProj second.qkvProj
      oProj := same fits.hiddenPositive first.oProj second.oProj
      gateUpProj := same (Nat.mul_pos fits.intermediateSize_pos Nat.two_pos) first.gateUpProj
        second.gateUpProj
      downProj := same fits.hiddenPositive first.downProj second.downProj
      inputLayernorm := same Nat.one_pos first.inputLayernorm second.inputLayernorm
      postAttentionLayernorm :=
        same Nat.one_pos first.postAttentionLayernorm second.postAttentionLayernorm }

theorem ModelChunk.Built.alike {a b : ModelChunk α} {infoA infoB : RankInfo} {v : Nat}
    (first : a.Built job infoA v)
    (second : b.Built job infoB v) (stage : infoA.ppRank = infoB.ppRank) : a.Alike b where
  embedTokens := alike_of_rect fits.vocabSize_pos
    (by rw [first.preProcess, second.preProcess, stage])
    first.embedTokens second.embedTokens
  layers := by
    rw [List.forall₂_iff_get]
    refine ⟨first.numLayers.trans second.numLayers.symm, fun i hi hj => ?_⟩
    exact (first.layers _ (List.get_mem _ _)).alike fits (second.layers _ (List.get_mem _ _))
  norm := alike_of_rect Nat.one_pos (by rw [first.normPostProcess, second.normPostProcess, stage])
    first.norm second.norm
  lmHead := alike_of_rect fits.vocabSize_pos
    (by rw [first.headPostProcess, second.headPostProcess, stage])
    first.lmHead second.lmHead
  rewardHead := by rw [first.rewardHead, second.rewardHead]; exact .none

theorem Built.alike {a b : List (ModelChunk α)} {rankA rankB : Nat} (first : Built job rankA a)
    (second : Built job rankB b)
    (stage : (job.layout.rankInfo rankA).ppRank = (job.layout.rankInfo rankB).ppRank) :
    List.Forall₂ ModelChunk.Alike a b := by
  rw [List.forall₂_iff_get]
  refine ⟨first.count.trans second.count.symm, fun i hi hj => ?_⟩
  exact (first.each i _ (List.getElem?_eq_getElem hi)).alike fits
    (second.each i _ (List.getElem?_eq_getElem hj)) stage

end Alike

namespace Loader

section Broadcast

variable {group : Nat → Prop} {src : Nat} (member : group src)

include member

theorem weight_joint (w : Nat → Weight α) (same : ∀ r, group r → shape (w r) = shape (w src)) :
    Spmd.Joint shape group (fun r => (Spmd.broadcastTensor src (w r) : Program α (Weight α)))
      (fun _ => w src) :=
  Spmd.Joint.broadcastTensor member w same

theorem layerWeights_joint (layer : Nat → LayerWeights α)
    (alike : ∀ r, group r → (layer r).Alike (layer src)) :
    Spmd.Joint shape group (fun r =>
      (layer r).mapM (Spmd.broadcastTensor src : Weight α → Program α (Weight α)))
      (fun _ => layer src) := by
  unfold LayerWeights.mapM
  refine Spmd.Joint.bind (weight_joint member _ (fun r hr => (alike r hr).qkvProj)) ?_
  refine Spmd.Joint.bind (weight_joint member _ (fun r hr => (alike r hr).oProj)) ?_
  refine Spmd.Joint.bind (weight_joint member _ (fun r hr => (alike r hr).gateUpProj)) ?_
  refine Spmd.Joint.bind (weight_joint member _ (fun r hr => (alike r hr).downProj)) ?_
  refine Spmd.Joint.bind (weight_joint member _ (fun r hr => (alike r hr).inputLayernorm)) ?_
  refine Spmd.Joint.bind (weight_joint member _ (fun r hr => (alike r hr).postAttentionLayernorm))
    ?_
  exact Spmd.Joint.pure _

theorem modelChunk_joint (model : Nat → ModelChunk α)
    (alike : ∀ r, group r → (model r).Alike (model src)) :
    Spmd.Joint shape group (fun r =>
      (model r).mapM (Spmd.broadcastTensor src : Weight α → Program α (Weight α)))
      (fun _ => model src) := by
  unfold ModelChunk.mapM
  refine Spmd.Joint.bind
    (Spmd.Joint.mapM_option (weight_joint member) (fun r hr => (alike r hr).embedTokens)) ?_
  refine Spmd.Joint.bind
    (Spmd.Joint.mapM (layerWeights_joint member) (fun r hr => (alike r hr).layers)) ?_
  refine Spmd.Joint.bind
    (Spmd.Joint.mapM_option (weight_joint member) (fun r hr => (alike r hr).norm)) ?_
  refine Spmd.Joint.bind
    (Spmd.Joint.mapM_option (weight_joint member) (fun r hr => (alike r hr).lmHead)) ?_
  refine Spmd.Joint.bind
    (Spmd.Joint.mapM_option (weight_joint member) (fun r hr => (alike r hr).rewardHead)) ?_
  exact Spmd.Joint.pure _

end Broadcast

/-- A run of `load_state_dict_to_megatron_llama` on all ranks: first the model parallel groups,
after the barrier the data parallel groups. -/
def Loads (job : Job α) (stateDicts : Nat → StateDict α) (isValueModel : Bool)
    (models loaded : Nat → List (ModelChunk α)) : Prop :=
  ∃ sharded : Nat → List (ModelChunk α),
    (∀ dp < job.layout.dpSize, Spmd.Joint shape (job.layout.modelParallelGroup dp)
      (fun r => loadModelParallel (job.process r) (stateDicts r) isValueModel (models r)) sharded) ∧
    ∀ tp < job.layout.tpSize, ∀ pp < job.layout.ppSize,
      Spmd.Joint shape (job.layout.dataParallelGroup tp pp)
      (fun r => broadcastParams (job.process r) (sharded r)) loaded

variable {job : Job α} {stateDicts : Nat → StateDict α}

theorem Loads.unique {isValueModel : Bool} {models loaded other : Nat → List (ModelChunk α)}
    (one : Loads job stateDicts isValueModel models loaded)
    (two : Loads job stateDicts isValueModel models other) :
    ∀ r < job.layout.worldSize, loaded r = other r := by
  obtain ⟨sharded, first, second⟩ := one
  obtain ⟨sharded', first', second'⟩ := two
  have shards : ∀ r < job.layout.worldSize, sharded r = sharded' r := fun r inside =>
    have valid := Layout.valid_rankInfo inside
    (first _ valid.dp).unique (first' _ valid.dp) r ⟨inside, rfl⟩
  intro r inside
  have valid := Layout.valid_rankInfo inside
  refine (second _ valid.tp _ valid.pp).unique
    ((second' _ valid.tp _ valid.pp).congr (fun s member => ?_)) r
    ⟨inside, rfl, rfl⟩
  rw [shards s member.1]

theorem broadcastParams_joint (fits : job.config.Fits job.layout.tpSize)
    {models : Nat → List (ModelChunk α)}
    (built : ∀ r < job.layout.worldSize, Built job r (models r)) {tp pp : Nat}
    (htp : tp < job.layout.tpSize) (hpp : pp < job.layout.ppSize) :
    Spmd.Joint shape (job.layout.dataParallelGroup tp pp) (fun r =>
      broadcastParams (job.process r) (models r))
      (fun _ => models (job.layout.globalRank ⟨tp, 0, pp⟩)) := by
  have valid : job.layout.Valid ⟨tp, 0, pp⟩ := ⟨htp, job.layout.dpPositive, hpp⟩
  have member := Layout.dataParallelGroup_globalRank valid
  have joint := Spmd.Joint.mapM (modelChunk_joint member) (fun r hr =>
    (built r hr.1).alike fits (built _ member.1)
    (hr.2.2.trans member.2.2.symm))
  refine joint.congr (fun r hr => ?_)
  obtain ⟨-, tensorRank, stage⟩ := hr
  simp only [broadcastParams, tensorRank, stage]

theorem loads_state_dict (fits : job.config.Fits job.layout.tpSize)
    (full : (stateDicts 0).Full job.config) (vpp : 0 < job.virtualPpSize)
    (divides : job.layout.ppSize * job.virtualPpSize ∣ job.config.numHiddenLayers)
    {models : Nat → List (ModelChunk α)}
    (built : ∀ r < job.layout.worldSize, Built job r (models r)) :
    ∃ loaded, Loads job stateDicts false models loaded ∧ ∀ r < job.layout.worldSize,
      Holds job (stateDicts 0) ⟨true, job.config.numHiddenLayers, true, true⟩ r (loaded r) := by
  obtain ⟨first, joint, held⟩ :=
    loadModelParallel_joint fits full vpp divides (fun r member => built r member.1)
  let sharded : Nat → List (ModelChunk α) := fun r =>
    if (job.layout.rankInfo r).dpRank = 0 then first r else models r
  let source : Nat → Nat := fun r =>
    job.layout.globalRank ⟨(job.layout.rankInfo r).tpRank, 0, (job.layout.rankInfo r).ppRank⟩
  have shards : ∀ dp < job.layout.dpSize, Spmd.Joint shape (job.layout.modelParallelGroup dp)
      (fun r => loadModelParallel (job.process r) (stateDicts r) false (models r)) sharded := by
    intro dp _
    by_cases zero : dp = 0
    · subst zero
      exact joint.results (fun r member => (if_pos member.2).symm)
    · refine Spmd.Joint.done (fun r member => ?_)
      have replica : ¬(job.layout.rankInfo r).dpRank = 0 := by rw [member.2]; exact zero
      have checked := ((built r member.1).holds (stateDicts 0)).sized.checkModels r divides
      simp only [loadModelParallel, checked, sharded, if_neg replica]
      rfl
  have kept : ∀ r < job.layout.worldSize, Built job r (sharded r) := by
    intro r inside
    by_cases zero : (job.layout.rankInfo r).dpRank = 0
    · simp only [sharded, if_pos zero]
      exact (held r ⟨inside, zero⟩).rankBuilt
    · simp only [sharded, if_neg zero]
      exact built r inside
  refine ⟨fun r => sharded (source r), ⟨sharded, shards, fun tp htp pp hpp => ?_⟩,
    fun r inside => ?_⟩
  · refine (broadcastParams_joint fits kept htp hpp).results (fun r member => ?_)
    simp only [source, member.2.1, member.2.2]
  · have valid := Layout.valid_rankInfo inside
    have there : job.layout.Valid ⟨(job.layout.rankInfo r).tpRank, 0,
      (job.layout.rankInfo r).ppRank⟩ :=
      ⟨valid.tp, job.layout.dpPositive, valid.pp⟩
    have info : job.layout.rankInfo (source r) = ⟨_, 0, _⟩ := Layout.rankInfo_globalRank _ there
    have zero : (job.layout.rankInfo (source r)).dpRank = 0 := by rw [info]
    have whole := held (source r) ⟨Layout.globalRank_lt there, zero⟩
    simp only [sharded, if_pos zero]
    exact whole.replica (by rw [info]) (by rw [info])

end Loader

end Verl.Llama
