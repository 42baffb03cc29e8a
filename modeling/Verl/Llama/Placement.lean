import Verl.Llama.Model
import Verl.Llama.Shards

/-! Which tensors a causal LM has, which of them a rank holds, and how far a rank's
modules have been filled with the shards of a state dict. -/
namespace Verl.Llama

open Megatron

variable {α : Type}

def LayerParam.shape (config : Config) : LayerParam → Nat × Nat
  | .inputLayernorm => (1, config.hiddenSize)
  | .qProj => (config.hiddenSize, config.hiddenSize)
  | .kProj => (config.numKeyValueHeads * config.hiddenSizePerHead, config.hiddenSize)
  | .vProj => (config.numKeyValueHeads * config.hiddenSizePerHead, config.hiddenSize)
  | .oProj => (config.hiddenSize, config.hiddenSize)
  | .postAttentionLayernorm => (1, config.hiddenSize)
  | .gateProj => (config.intermediateSize, config.hiddenSize)
  | .upProj => (config.intermediateSize, config.hiddenSize)
  | .downProj => (config.hiddenSize, config.intermediateSize)

/-- The tensors of a causal LM with their shapes; `none` for what it does not have. -/
def Config.paramShape (config : Config) : Param → Option (Nat × Nat)
  | .embedTokens => some (config.vocabSize, config.hiddenSize)
  | .layer index part => if index < config.numHiddenLayers then some (part.shape config) else none
  | .norm => some (1, config.hiddenSize)
  | .lmHead => some (config.vocabSize, config.hiddenSize)
  | .rewardHead => none

def LayerParam.all : List LayerParam :=
  [.inputLayernorm, .qProj, .kProj, .vProj, .oProj, .postAttentionLayernorm, .gateProj,
    .upProj, .downProj]

def Config.params (config : Config) : List Param :=
  [.embedTokens, .norm, .lmHead] ++ (List.range config.numHiddenLayers).flatMap (fun index =>
    LayerParam.all.map (Param.layer index))

theorem Config.mem_params {config : Config} {param : Param} :
    param ∈ config.params ↔ (config.paramShape param).isSome := by
  cases param with
  | layer index part =>
    have known : part ∈ LayerParam.all := by cases part <;> decide
    by_cases inside : index < config.numHiddenLayers <;> simp [params, paramShape, inside, known]
  | _ => simp [params, paramShape]

def StateDict.Full (config : Config) (stateDict : StateDict α) : Prop :=
  ∀ param size, config.paramShape param = some size →
    ∃ weight, stateDict param.name = some weight ∧ Rect size.1 size.2 weight

def StateDict.weight (stateDict : StateDict α) (param : Param) : Weight α :=
  (stateDict param.name).getD []

section Full

variable {config : Config} {stateDict : StateDict α} (full : stateDict.Full config) {param : Param}
  {size : Nat × Nat} (there : config.paramShape param = some size)

include full there

theorem StateDict.Full.found : stateDict param.name = some (stateDict.weight param) := by
  obtain ⟨weight, found, _⟩ := full param size there
  rw [StateDict.weight, found]
  rfl

theorem StateDict.Full.rect : Rect size.1 size.2 (stateDict.weight param) := by
  obtain ⟨weight, found, rect⟩ := full param size there
  rw [StateDict.weight, found]
  exact rect

end Full

def vocabSizeTp (config : Config) (tpSize : Nat) : Nat := config.vocabSize / tpSize

def layerShard (config : Config) (tpSize : Nat) (stateDict : StateDict α) (index tpRank : Nat) :
    LayerWeights α :=
  let weight := fun part => stateDict.weight (.layer index part)
  { qkvProj := qkvPart config tpSize (weight .qProj) (weight .kProj) (weight .vProj) tpRank
    oProj := (weight .oProj).map (block (qSizeTp config tpSize) tpRank)
    gateUpProj := gateUpPart config tpSize (weight .gateProj) (weight .upProj) tpRank
    downProj := (weight .downProj).map (block (intermediateSizeTp config tpSize) tpRank)
    inputLayernorm := weight .inputLayernorm
    postAttentionLayernorm := weight .postAttentionLayernorm }

def vocabShard (config : Config) (tpSize : Nat) (stateDict : StateDict α) (param : Param)
    (tpRank : Nat) : Weight α :=
  block (vocabSizeTp config tpSize) tpRank (stateDict.weight param)

/-- The shapes that `ParallelLlamaDecoderLayerRmPad` gives its weights. -/
structure LayerShape (config : Config) (tpSize : Nat) (layer : LayerWeights α) : Prop where
  qkvProj : Rect (totalSize config tpSize) config.hiddenSize layer.qkvProj
  oProj : Rect config.hiddenSize (qSizeTp config tpSize) layer.oProj
  gateUpProj : Rect (intermediateSizeTp config tpSize * 2) config.hiddenSize layer.gateUpProj
  downProj : Rect config.hiddenSize (intermediateSizeTp config tpSize) layer.downProj
  inputLayernorm : Rect 1 config.hiddenSize layer.inputLayernorm
  postAttentionLayernorm : Rect 1 config.hiddenSize layer.postAttentionLayernorm

theorem Rect.columns {rows count size i : Nat} {w : Weight α} (rect : Rect rows (count * size) w)
    (hi : i < count) :
    Rect rows size (w.map (Verl.block size i)) where
  rows := by rw [List.length_map, rect.rows]
  cols := by
    intro row member
    obtain ⟨whole, inside, rfl⟩ := List.mem_map.mp member
    refine length_block ?_
    rw [rect.cols whole inside]
    exact Nat.mul_le_mul_right size hi

section Shapes

variable {config : Config} {tpSize : Nat} (fits : config.Fits tpSize) {stateDict : StateDict α}
  (full : stateDict.Full config)

include fits

theorem Config.Fits.vocab_eq : config.vocabSize = tpSize * vocabSizeTp config tpSize :=
  (Nat.mul_div_cancel' fits.vocab).symm

theorem Config.Fits.vocabSize_pos : 0 < vocabSizeTp config tpSize :=
  Nat.div_pos (Nat.le_of_dvd fits.vocabPositive fits.vocab) fits.tp

theorem Config.Fits.oProj_shape :
    LayerParam.oProj.shape config = (config.hiddenSize, tpSize * qSizeTp config tpSize) := by
  rw [← fits.hidden_eq]
  rfl

theorem Config.Fits.downProj_shape :
    LayerParam.downProj.shape config =
      (config.hiddenSize, tpSize * intermediateSizeTp config tpSize) := by
  rw [← fits.intermediate_eq]
  rfl

include full

theorem layerShard_shape {index tpRank : Nat} (inside : index < config.numHiddenLayers)
    (hi : tpRank < tpSize) :
    LayerShape config tpSize (layerShard config tpSize stateDict index tpRank) := by
  have rect : ∀ part : LayerParam,
      Rect (part.shape config).1 (part.shape config).2 (stateDict.weight (.layer index part)) :=
    fun part => full.rect (if_pos inside)
  have oRect : Rect config.hiddenSize (tpSize * qSizeTp config tpSize)
    (stateDict.weight (.layer index .oProj)) :=
    fits.hidden_eq ▸ rect .oProj
  have downRect : Rect config.hiddenSize (tpSize * intermediateSizeTp config tpSize)
      (stateDict.weight (.layer index .downProj)) := fits.intermediate_eq ▸ rect .downProj
  exact
    { qkvProj := fits.rect_qkvPart (rect .qProj) (rect .kProj) (rect .vProj) hi
      oProj := oRect.columns hi
      gateUpProj := fits.rect_gateUpPart (rect .gateProj) (rect .upProj) hi
      downProj := downRect.columns hi
      inputLayernorm := rect .inputLayernorm
      postAttentionLayernorm := rect .postAttentionLayernorm }

theorem vocabShard_rect {param : Param} {tpRank : Nat}
    (there : config.paramShape param = some (config.vocabSize, config.hiddenSize))
    (hi : tpRank < tpSize) :
    Rect (vocabSizeTp config tpSize) config.hiddenSize
      (vocabShard config tpSize stateDict param tpRank) := by
  have rect := full.rect there
  simp only [fits.vocab_eq] at rect
  exact rect.block hi

end Shapes

def Job.layerOffset (job : Job α) (info : RankInfo) (virtualPpRank : Nat) : Nat :=
  Megatron.layerOffset job.config.numHiddenLayers job.layout.ppSize job.virtualPpSize
    info.ppRank virtualPpRank

/-- A module as `ParallelLlamaForCausalLMRmPadPP` builds it: `pre_process` on the first chunk
of the first stage, `post_process` on the last chunk of the last one. -/
structure ModelChunk.Built (job : Job α) (info : RankInfo) (virtualPpRank : Nat)
    (model : ModelChunk α) : Prop where
  preProcess : model.embedTokens.isSome ↔ info.ppRank = 0 ∧ virtualPpRank = 0
  embedTokens : ∀ w ∈ model.embedTokens,
    Rect (vocabSizeTp job.config job.layout.tpSize) job.config.hiddenSize w
  numLayers : model.layers.length =
    numLayersPerModel job.config.numHiddenLayers job.layout.ppSize job.virtualPpSize
  layers : ∀ layer ∈ model.layers, LayerShape job.config job.layout.tpSize layer
  normPostProcess : model.norm.isSome ↔
    info.ppRank + 1 = job.layout.ppSize ∧ virtualPpRank + 1 = job.virtualPpSize
  norm : ∀ w ∈ model.norm, Rect 1 job.config.hiddenSize w
  headPostProcess : model.lmHead.isSome ↔
    info.ppRank + 1 = job.layout.ppSize ∧ virtualPpRank + 1 = job.virtualPpSize
  lmHead : ∀ w ∈ model.lmHead,
    Rect (vocabSizeTp job.config job.layout.tpSize) job.config.hiddenSize w
  rewardHead : model.rewardHead = none

def ModelChunk.init (job : Job α) (info : RankInfo) (garbage : α) (virtualPpRank : Nat) :
    ModelChunk α :=
  let config := job.config
  let tpSize := job.layout.tpSize
  let tensor := fun rows cols => List.replicate rows (List.replicate cols garbage)
  let layer : LayerWeights α :=
    { qkvProj := tensor (totalSize config tpSize) config.hiddenSize
      oProj := tensor config.hiddenSize (qSizeTp config tpSize)
      gateUpProj := tensor (intermediateSizeTp config tpSize * 2) config.hiddenSize
      downProj := tensor config.hiddenSize (intermediateSizeTp config tpSize)
      inputLayernorm := tensor 1 config.hiddenSize
      postAttentionLayernorm := tensor 1 config.hiddenSize }
  let preProcess := info.ppRank = 0 ∧ virtualPpRank = 0
  let postProcess := info.ppRank + 1 = job.layout.ppSize ∧ virtualPpRank + 1 = job.virtualPpSize
  { embedTokens := if preProcess then some (tensor (vocabSizeTp config tpSize) config.hiddenSize) else none
    layers := List.replicate
      (numLayersPerModel config.numHiddenLayers job.layout.ppSize job.virtualPpSize) layer
    norm := if postProcess then some (tensor 1 config.hiddenSize) else none
    lmHead := if postProcess then some (tensor (vocabSizeTp config tpSize) config.hiddenSize)
      else none
    rewardHead := none }

def initModels (job : Job α) (rank : Nat) : List (ModelChunk α) :=
  (List.range job.virtualPpSize).map
    (ModelChunk.init job (job.layout.rankInfo rank) (job.garbage rank))

theorem rect_of_ite {c : Prop} [Decidable c] {rows cols : Nat} {x : α} :
    ∀ w ∈ (if c then some (List.replicate rows (List.replicate cols x)) else none),
      Rect rows cols w := by
  intro w member
  split at member
  · cases member
    exact Rect.replicate rows cols x
  · cases member

theorem built_init (job : Job α) (info : RankInfo) (garbage : α) (virtualPpRank : Nat) :
    (ModelChunk.init job info garbage virtualPpRank).Built job info virtualPpRank where
  preProcess := by simp [ModelChunk.init]
  embedTokens := rect_of_ite
  numLayers := List.length_replicate
  layers := by
    intro layer member
    rw [List.eq_of_mem_replicate member]
    exact
      { qkvProj := Rect.replicate _ _ _
        oProj := Rect.replicate _ _ _
        gateUpProj := Rect.replicate _ _ _
        downProj := Rect.replicate _ _ _
        inputLayernorm := Rect.replicate _ _ _
        postAttentionLayernorm := Rect.replicate _ _ _ }
  normPostProcess := by simp [ModelChunk.init]
  norm := rect_of_ite
  headPostProcess := by simp [ModelChunk.init]
  lmHead := rect_of_ite
  rewardHead := rfl

structure Progress where
  embedTokens : Bool
  layers : Nat
  norm : Bool
  lmHead : Bool

structure ModelChunk.Holds (job : Job α) (stateDict : StateDict α) (progress : Progress)
    (info : RankInfo) (virtualPpRank : Nat) (model : ModelChunk α) : Prop where
  built : model.Built job info virtualPpRank
  embedTokens : progress.embedTokens → ∀ w ∈ model.embedTokens,
    w = vocabShard job.config job.layout.tpSize stateDict .embedTokens info.tpRank
  layers : ∀ l layer, model.layers[l]? = some layer →
    job.layerOffset info virtualPpRank + l < progress.layers →
    layer = layerShard job.config job.layout.tpSize stateDict
      (job.layerOffset info virtualPpRank + l) info.tpRank
  norm : progress.norm → ∀ w ∈ model.norm, w = stateDict.weight .norm
  lmHead : progress.lmHead → ∀ w ∈ model.lmHead,
    w = vocabShard job.config job.layout.tpSize stateDict .lmHead info.tpRank

structure Built (job : Job α) (rank : Nat) (models : List (ModelChunk α)) : Prop where
  count : models.length = job.virtualPpSize
  each : ∀ v (model : ModelChunk α), models[v]? = some model →
    model.Built job (job.layout.rankInfo rank) v

structure Holds (job : Job α) (stateDict : StateDict α) (progress : Progress) (rank : Nat)
    (models : List (ModelChunk α)) : Prop where
  count : models.length = job.virtualPpSize
  each : ∀ v (model : ModelChunk α), models[v]? = some model →
    model.Holds job stateDict progress (job.layout.rankInfo rank) v

section Holds

variable {job : Job α} {stateDict : StateDict α} {progress further : Progress} {rank : Nat}
  {models : List (ModelChunk α)}

theorem Built.holds (built : Built job rank models) (stateDict : StateDict α) :
    Holds job stateDict ⟨false, 0, false, false⟩ rank models where
  count := built.count
  each := fun v model found =>
    { built := built.each v model found
      embedTokens := fun loaded => absurd loaded Bool.false_ne_true
      layers := fun _ _ _ below => absurd below (Nat.not_lt_zero _)
      norm := fun loaded => absurd loaded Bool.false_ne_true
      lmHead := fun loaded => absurd loaded Bool.false_ne_true }

theorem Holds.rankBuilt (holds : Holds job stateDict progress rank models) :
    Built job rank models where
  count := holds.count
  each := fun v model found => (holds.each v model found).built

theorem Holds.replica (holds : Holds job stateDict progress rank models) {other : Nat}
    (tp : (job.layout.rankInfo rank).tpRank = (job.layout.rankInfo other).tpRank)
    (pp : (job.layout.rankInfo rank).ppRank = (job.layout.rankInfo other).ppRank) :
    Holds job stateDict progress other models where
  count := holds.count
  each := by
    intro v model found
    have held := holds.each v model found
    generalize job.layout.rankInfo rank = info at held tp pp
    generalize job.layout.rankInfo other = infoOther at tp pp ⊢
    obtain ⟨t, d, p⟩ := info
    obtain ⟨t', d', p'⟩ := infoOther
    obtain rfl : t = t' := tp
    obtain rfl : p = p' := pp
    exact
      { built := { held.built with }
        embedTokens := held.embedTokens
        layers := held.layers
        norm := held.norm
        lmHead := held.lmHead }

theorem built_initModels (job : Job α) (rank : Nat) : Built job rank (initModels job rank) where
  count := by rw [initModels, List.length_map, List.length_range]
  each := by
    intro v model found
    simp only [initModels, List.getElem?_map, Option.map_eq_some_iff] at found
    obtain ⟨u, hu, rfl⟩ := found
    obtain ⟨-, rfl⟩ := List.getElem?_eq_some_iff.mp hu
    rw [List.getElem_range]
    exact built_init job _ _ v

theorem Holds.set (holds : Holds job stateDict progress rank models) {v : Nat}
    {model : ModelChunk α}
    (written : model.Holds job stateDict further (job.layout.rankInfo rank) v)
    (others : ∀ u (other : ModelChunk α), u ≠ v →
      other.Holds job stateDict progress (job.layout.rankInfo rank) u →
      other.Holds job stateDict further (job.layout.rankInfo rank) u) :
    Holds job stateDict further rank (models.set v model) where
  count := by rw [List.length_set, holds.count]
  each := by
    intro u other found
    rw [List.getElem?_set] at found
    by_cases same : v = u
    · subst same
      rw [if_pos rfl] at found
      split at found
      · cases found
        exact written
      · cases found
    · rw [if_neg same] at found
      exact others u other (fun h => same h.symm) (holds.each u other found)

theorem ModelChunk.Holds.skip {m v : Nat} {info : RankInfo} {model : ModelChunk α}
    (holds : model.Holds job stateDict { progress with layers := m } info v)
    (elsewhere : ∀ l < model.layers.length, job.layerOffset info v + l ≠ m) :
    model.Holds job stateDict { progress with layers := m + 1 } info v where
  built := holds.built
  embedTokens := holds.embedTokens
  layers := by
    intro l layer found below
    have inside := (List.getElem?_eq_some_iff.mp found).1
    refine holds.layers l layer found ?_
    have other := elsewhere l inside
    simp only at below ⊢
    omega
  norm := holds.norm
  lmHead := holds.lmHead

theorem ModelChunk.Holds.skipElsewhere (vpp : 0 < job.virtualPpSize)
    (divides : job.layout.ppSize * job.virtualPpSize ∣ job.config.numHiddenLayers) {layer : Nat}
    {place : LayerPlace}
    (stage : place.ppRank < job.layout.ppSize)
    (index : place.layerIdx <
      numLayersPerModel job.config.numHiddenLayers job.layout.ppSize job.virtualPpSize)
    (same : layerOffset job.config.numHiddenLayers job.layout.ppSize job.virtualPpSize place.ppRank
      place.virtualPpRank +
      place.layerIdx = layer) {info : RankInfo} (valid : info.ppRank < job.layout.ppSize) {u : Nat}
        {other : ModelChunk α}
    (elsewhere : place.ppRank = info.ppRank → u ≠ place.virtualPpRank)
    (held : other.Holds job stateDict { progress with layers := layer } info u) :
    other.Holds job stateDict { progress with layers := layer + 1 } info u := by
  apply held.skip
  intro k inside here
  rw [held.built.numLayers] at inside
  have place_eq : (⟨info.ppRank, u, k⟩ : LayerPlace) = place :=
    place_unique divides vpp job.layout.ppPositive valid stage inside index (here.trans same.symm)
  rw [← place_eq] at elsewhere
  exact elsewhere rfl rfl

theorem ModelChunk.Holds.load {m v l : Nat} {info : RankInfo} {model : ModelChunk α}
    (holds : model.Holds job stateDict { progress with layers := m } info v)
    (here : job.layerOffset info v + l = m)
    (shaped : LayerShape job.config job.layout.tpSize
      (layerShard job.config job.layout.tpSize stateDict m info.tpRank)) :
    ModelChunk.Holds job stateDict { progress with layers := m + 1 } info v
      { model with layers := model.layers.set l (layerShard job.config job.layout.tpSize stateDict m info.tpRank) } where
  built :=
    { holds.built with
      numLayers := by rw [List.length_set, holds.built.numLayers]
      layers := by
        intro layer member
        rcases List.mem_or_eq_of_mem_set member with old | rfl
        · exact holds.built.layers layer old
        · exact shaped }
  embedTokens := holds.embedTokens
  layers := by
    intro k layer found below
    simp only [List.getElem?_set] at found below
    by_cases same : l = k
    · subst same
      rw [if_pos rfl] at found
      split at found
      · rw [here]
        exact (Option.some.inj found).symm
      · cases found
    · rw [if_neg same] at found
      refine holds.layers k layer found ?_
      simp only
      omega
  norm := holds.norm
  lmHead := holds.lmHead

theorem isSome_replace (own : Option (Weight α)) (w : Weight α) :
    (own.map (fun _ => w)).isSome ↔ own.isSome := by
  simp

theorem eq_of_replace {own : Option (Weight α)} {w v : Weight α}
    (member : v ∈ own.map (fun _ => w)) : v = w := by
  obtain ⟨_, _, rfl⟩ := Option.map_eq_some_iff.mp member
  rfl

section Ends

variable {v : Nat} {info : RankInfo} {model : ModelChunk α}
  (holds : model.Holds job stateDict progress info v)

include holds

theorem ModelChunk.Holds.loadEmbed {w : Weight α}
    (shard : w = vocabShard job.config job.layout.tpSize stateDict .embedTokens info.tpRank)
    (rect : Rect (vocabSizeTp job.config job.layout.tpSize) job.config.hiddenSize w) :
    ModelChunk.Holds job stateDict { progress with embedTokens := true } info v
      { model with embedTokens := model.embedTokens.map (fun _ => w) } where
  built :=
    { holds.built with
      preProcess := (isSome_replace _ _).trans holds.built.preProcess
      embedTokens := fun _ member => eq_of_replace member ▸ rect }
  embedTokens := fun _ _ member => (eq_of_replace member).trans shard
  layers := holds.layers
  norm := holds.norm
  lmHead := holds.lmHead

theorem ModelChunk.Holds.loadNorm {w : Weight α} (shard : w = stateDict.weight .norm)
    (rect : Rect 1 job.config.hiddenSize w) :
    ModelChunk.Holds job stateDict { progress with norm := true } info v
      { model with norm := model.norm.map (fun _ => w) } where
  built :=
    { holds.built with
      normPostProcess := (isSome_replace _ _).trans holds.built.normPostProcess
      norm := fun _ member => eq_of_replace member ▸ rect }
  embedTokens := holds.embedTokens
  layers := holds.layers
  norm := fun _ _ member => (eq_of_replace member).trans shard
  lmHead := holds.lmHead

theorem ModelChunk.Holds.loadHead {w : Weight α}
    (shard : w = vocabShard job.config job.layout.tpSize stateDict .lmHead info.tpRank)
    (rect : Rect (vocabSizeTp job.config job.layout.tpSize) job.config.hiddenSize w) :
    ModelChunk.Holds job stateDict { progress with lmHead := true } info v
      { model with lmHead := model.lmHead.map (fun _ => w) } where
  built :=
    { holds.built with
      headPostProcess := (isSome_replace _ _).trans holds.built.headPostProcess
      lmHead := fun _ member => eq_of_replace member ▸ rect }
  embedTokens := holds.embedTokens
  layers := holds.layers
  norm := holds.norm
  lmHead := fun _ _ member => (eq_of_replace member).trans shard

theorem ModelChunk.Holds.skipEmbed (other : v ≠ 0) :
    model.Holds job stateDict { progress with embedTokens := true } info v :=
  { holds with
    embedTokens := fun _ _ member =>
      absurd (holds.built.preProcess.mp (Option.isSome_of_mem member)).2 other }

theorem ModelChunk.Holds.skipNorm (other : v + 1 ≠ job.virtualPpSize) :
    model.Holds job stateDict { progress with norm := true } info v :=
  { holds with
    norm := fun _ _ member =>
      absurd (holds.built.normPostProcess.mp (Option.isSome_of_mem member)).2 other }

theorem ModelChunk.Holds.skipHead (other : v + 1 ≠ job.virtualPpSize) :
    model.Holds job stateDict { progress with lmHead := true } info v :=
  { holds with
    lmHead := fun _ _ member =>
      absurd (holds.built.headPostProcess.mp (Option.isSome_of_mem member)).2 other }

end Ends

/-- As many modules and layers as the loader and the saver assert. -/
structure Sized (job : Job α) (models : List (ModelChunk α)) : Prop where
  count : models.length = job.virtualPpSize
  numLayers : ∀ model ∈ models,
    model.layers.length =
    numLayersPerModel job.config.numHiddenLayers job.layout.ppSize job.virtualPpSize

theorem Holds.sized (holds : Holds job stateDict progress rank models) : Sized job models where
  count := holds.count
  numLayers := by
    intro model member
    obtain ⟨v, found⟩ := List.mem_iff_getElem?.mp member
    exact (holds.each v model found).built.numLayers

theorem Sized.checkModels (sized : Sized job models) (rank : Nat)
    (divides : job.layout.ppSize * job.virtualPpSize ∣ job.config.numHiddenLayers) :
    (job.process rank).checkModels models = .ok () := by
  have counts : models.forM (fun model =>
    pyAssert (model.layers.length == (job.process rank).numLayersPerModel)
      "len(gpt_model_module.model.layers) == num_layers_per_model") = .ok ⟨⟩ := by
    apply forM_ok
    intro model member
    simp [Process.numLayersPerModel, sized.numLayers model member]
  have asserted := layers_asserted divides
    "num_layers_per_model * pp_size * virtual_pp_size == config.num_hidden_layers"
  simp only [Process.checkModels, sized.count, Process.numLayersPerModel, asserted,
    beq_self_eq_true, pyAssert_true, ok_bind]
  exact counts

end Holds

theorem handed_ok {c : Prop} [Decidable c] {own : Option (Weight α)} (there : own.isSome ↔ c)
    (name : String) :
    (if c then some <$> weightOf name own else .ok none) =
      (.ok (if c then own else none) : Py (Option (Weight α))) := by
  by_cases here : c
  · obtain ⟨w, rfl⟩ := Option.isSome_iff_exists.mp (there.mpr here)
    simp only [if_pos here]
    rfl
  · simp only [if_neg here]

section AllHold

variable {job : Job α}

def AllHold (job : Job α) (stateDict : StateDict α) (progress : Progress)
    (models : Nat → List (ModelChunk α)) : Prop :=
  ∀ r, job.layout.modelParallelGroup 0 r → Holds job stateDict progress r (models r)

theorem AllHold.sized {stateDict : StateDict α} {progress : Progress}
    {models : Nat → List (ModelChunk α)}
    (holds : AllHold job stateDict progress models) : ∀ r, job.layout.modelParallelGroup 0 r →
      Sized job (models r) :=
  fun r member => (holds r member).sized

variable {models : Nat → List (ModelChunk α)}
  (sized : ∀ r, job.layout.modelParallelGroup 0 r → Sized job (models r))

include sized

theorem model_at {v : Nat} (hv : v < job.virtualPpSize) :
    ∃ model : Nat → ModelChunk α, ∀ r, job.layout.modelParallelGroup 0 r →
      (models r)[v]? = some (model r) := by
  refine ⟨fun r => (models r)[v]?.getD default, fun r member => ?_⟩
  have there : v < (models r).length := by rw [(sized r member).count]; exact hv
  simp only [List.getElem?_eq_getElem there, Option.getD_some]

theorem last_at (vpp : 0 < job.virtualPpSize) :
    ∃ model : Nat → ModelChunk α,
      (∀ r, job.layout.modelParallelGroup 0 r →
        (models r)[job.virtualPpSize - 1]? = some (model r)) ∧
      ∀ r, job.layout.modelParallelGroup 0 r → lastModel (models r) = .ok (model r) := by
  obtain ⟨model, found⟩ := model_at sized (Nat.sub_lt vpp Nat.one_pos)
  refine ⟨model, found, fun r member => ?_⟩
  rw [lastModel, (sized r member).count]
  exact pyGet_ok_iff.mpr (found r member)

theorem layer_at {v l : Nat} {model : Nat → ModelChunk α}
    (found : ∀ r, job.layout.modelParallelGroup 0 r → (models r)[v]? = some (model r))
    (hl : l < numLayersPerModel job.config.numHiddenLayers job.layout.ppSize job.virtualPpSize) :
    ∃ layer : Nat → LayerWeights α, ∀ r, job.layout.modelParallelGroup 0 r →
      (model r).layers[l]? = some (layer r) := by
  refine ⟨fun r => (model r).layers[l]?.getD default, fun r member => ?_⟩
  have there : l < (model r).layers.length := by
    rw [(sized r member).numLayers _ (List.mem_of_getElem? (found r member))]
    exact hl
  simp only [List.getElem?_eq_getElem there, Option.getD_some]

end AllHold

end Verl.Llama
