import Verl.Llama.Saver
import Verl.Llama.Placement

/-! What rank 0 has after the saver when the ranks hold the shards of a state dict:
that state dict. -/
namespace Verl.Llama.Saver

open Megatron

variable {α : Type} {job : Job α}

def written (entries : List (Text × Weight α)) (stateDicts : Nat → StateDict α) (rank : Nat) :
    StateDict α :=
  if rank = 0 then
    entries.foldl (fun dict e => dict.set e.1 e.2) (stateDicts rank)
  else stateDicts rank

theorem store_ok {rank : Nat} {entries : List (Text × Weight α)}
    {code : Py (List (Text × Weight α))}
    (stateDicts : Nat → StateDict α) (runs : rank = 0 → code = .ok entries) :
    store (job.process rank) (stateDicts rank) code = .ok (written entries stateDicts rank) := by
  by_cases first : rank = 0
  · simp only [store, written, if_pos first, runs first]
    rfl
  · simp only [store, written, if_neg first]

theorem concat_shards {count rows cols : Nat} {part : Nat → Weight α} (some : 0 < count)
    (positive : 0 < rows) (rects : ∀ i < count, Rect rows cols (part i)) :
    concat .rows ((List.range count).map part) = .ok ((List.range count).map part).flatten := by
  refine concat_rows cols ?_ ?_
  · simpa using Nat.pos_iff_ne_zero.mp some
  · intro w member
    obtain ⟨i, hi, rfl⟩ := List.mem_map.mp member
    exact width_eq (rects i (List.mem_range.mp hi)) positive

section Broadcasts

variable {rows cols : Nat} (positive : 0 < rows) {srcPpRank : Nat}
  (stage : srcPpRank < job.layout.ppSize)

include stage

theorem source_mem {i : Nat} (hi : i < job.layout.tpSize) :
    job.layout.modelParallelGroup 0 (job.layout.globalRank ⟨i, 0, srcPpRank⟩) :=
  Layout.modelParallelGroup_globalRank ⟨hi, job.layout.dpPositive, stage⟩

include positive

theorem broadcastTensor_joint {tensor : Nat → Option (Weight α)} {weight : Weight α} (name : Text)
    (stateDicts : Nat → StateDict α)
    (found : tensor (job.layout.globalRank ⟨0, 0, srcPpRank⟩) = some weight)
    (rect : Rect rows cols weight) :
    Spmd.Joint shape (job.layout.modelParallelGroup 0)
      (fun r => broadcastTensor (job.process r) (tensor r) name srcPpRank (stateDicts r))
      (written [(name, weight)] stateDicts) := by
  have member := source_mem stage job.layout.tpPositive
  refine Spmd.Joint.bind (Spmd.Joint.broadcastObject member _) ?_
  simp only [if_true, found, Option.map_some, shape_eq rect positive]
  refine Spmd.Joint.bind (Spmd.Joint.broadcastTensor member _ ?_) ?_
  · intro r _
    by_cases source : r = job.layout.globalRank ⟨0, 0, srcPpRank⟩
    · rw [source]
    · simp only [if_neg source, if_true, found, Option.getD_none, Option.getD_some,
        shape_eq rect positive]
      exact shape_eq (Rect.replicate rows cols _) positive
  · simp only [if_true, found, Option.getD_some]
    exact Spmd.Joint.lift _ (fun r _ => store_ok stateDicts (fun _ => rfl))

variable {part : Nat → Weight α} (rects : ∀ i < job.layout.tpSize, Rect rows cols (part i))
  {tensor : Nat → Option (Weight α)}
  (found : ∀ i < job.layout.tpSize,
    tensor (job.layout.globalRank ⟨i, 0, srcPpRank⟩) = some (part i))

include rects found

theorem broadcastShard_joint {i : Nat} (hi : i < job.layout.tpSize) :
    Spmd.Joint shape (job.layout.modelParallelGroup 0)
      (fun r => broadcastShard (job.process r) (tensor r) (rows, cols) srcPpRank
        (if r = 0 then (List.range i).map part else []) i)
      (fun r => if r = 0 then (List.range (i + 1)).map part else []) := by
  refine Spmd.Joint.bind
    (Spmd.Joint.lift (fun r => if r = job.layout.globalRank ⟨i, 0, srcPpRank⟩ then part i
    else (job.process r).empty (rows, cols)) ?_) ?_
  · intro r _
    by_cases source : r = job.layout.globalRank ⟨i, 0, srcPpRank⟩
    · subst source
      simp only [if_true, found i hi]
      rfl
    · simp only [if_neg source]
  refine Spmd.Joint.bind (Spmd.Joint.broadcastTensor (source_mem stage hi) _ ?_) ?_
  · intro r _
    by_cases source : r = job.layout.globalRank ⟨i, 0, srcPpRank⟩
    · rw [source]
    · rw [if_neg source, if_pos rfl, shape_eq (rects i hi) positive]
      exact shape_eq (Rect.replicate rows cols _) positive
  refine Spmd.Joint.done (fun r _ => ?_)
  by_cases first : r = 0
  · simp [first, List.range_succ]
  · simp [first]

theorem gatherShards_joint (stateDicts : Nat → StateDict α)
    {put : List (Weight α) → Py (List (Text × Weight α))} {entries : List (Text × Weight α)}
    (puts : put ((List.range job.layout.tpSize).map part) = .ok entries) :
    Spmd.Joint shape (job.layout.modelParallelGroup 0)
      (fun r => gatherShards (job.process r) (tensor r) srcPpRank (stateDicts r) put)
        (written entries stateDicts) := by
  have tp := job.layout.tpPositive
  refine Spmd.Joint.bind
    (Spmd.Joint.lift (fun r => if r = job.layout.globalRank ⟨0, 0, srcPpRank⟩ then some (rows, cols)
    else none) ?_) ?_
  · intro r _
    by_cases source : r = job.layout.globalRank ⟨0, 0, srcPpRank⟩
    · subst source
      simp only [if_true, found 0 tp, ← shape_eq (rects 0 tp) positive]
      rfl
    · simp only [if_neg source]
  refine Spmd.Joint.bind (Spmd.Joint.broadcastObject (source_mem stage tp) _) ?_
  simp only [if_true]
  have start : (fun _ => []) = fun r : Nat => if r = 0 then (List.range 0).map part else [] := by
    funext r
    simp
  obtain ⟨chunks, loop, same⟩ := Spmd.Joint.foldlM
    (fun i chunks => chunks = fun r => if r = 0 then (List.range i).map part else []) start (by
      intro i hi state held
      subst held
      exact ⟨_, broadcastShard_joint positive stage rects found hi, rfl⟩)
  refine Spmd.Joint.bind loop (Spmd.Joint.lift _ (fun r _ => store_ok stateDicts (fun first => ?_)))
  simp only [same, if_pos first, puts]

end Broadcasts

section Weights

variable (fits : job.config.Fits job.layout.tpSize) {stateDict : StateDict α}
  (full : stateDict.Full job.config) {srcPpRank : Nat} (stage : srcPpRank < job.layout.ppSize)
  (stateDicts : Nat → StateDict α) {tensor : Nat → Option (Weight α)}

include fits full stage

theorem vocab_joint {param : Param}
    (there : job.config.paramShape param = some (job.config.vocabSize, job.config.hiddenSize))
    (found : ∀ i < job.layout.tpSize, tensor (job.layout.globalRank ⟨i, 0, srcPpRank⟩) =
      some (vocabShard job.config job.layout.tpSize stateDict param i)) :
    Spmd.Joint shape (job.layout.modelParallelGroup 0)
      (fun r => broadcastTpShardTensor (job.process r) (tensor r) param.name srcPpRank .rows
        (stateDicts r))
      (written [(param.name, stateDict.weight param)] stateDicts) := by
  have rect := full.rect there
  simp only [fits.vocab_eq] at rect
  refine gatherShards_joint fits.vocabSize_pos stage
    (fun i hi => vocabShard_rect fits full there hi) found stateDicts ?_
  have whole := concat_blocks rect fits.tp fits.vocabSize_pos
  simp only [blocks] at whole
  simp only [vocabShard, whole, ok_bind, pure_eq_ok]

variable {layer : Nat} (inside : layer < job.config.numHiddenLayers)

include inside

theorem columns_joint {part : LayerParam} {size : Nat}
    (size_eq : part.shape job.config = (job.config.hiddenSize, job.layout.tpSize * size))
    (found : ∀ i < job.layout.tpSize, tensor (job.layout.globalRank ⟨i, 0, srcPpRank⟩) =
      some ((stateDict.weight (.layer layer part)).map (block size i))) :
    Spmd.Joint shape (job.layout.modelParallelGroup 0)
      (fun r => broadcastTpShardTensor (job.process r) (tensor r) (Param.layer layer part).name
        srcPpRank .columns (stateDicts r))
      (written [((Param.layer layer part).name, stateDict.weight (.layer layer part))]
        stateDicts) := by
  have there : job.config.paramShape (.layer layer part) =
      some (job.config.hiddenSize, job.layout.tpSize * size) := by
    rw [Config.paramShape, if_pos inside, size_eq]
  have rect := full.rect there
  refine gatherShards_joint fits.hiddenPositive stage (fun i hi => rect.columns hi)
    found stateDicts ?_
  simp only [concat_columns rect fits.tp, ok_bind, pure_eq_ok]

theorem gateUp_joint
    (found : ∀ i < job.layout.tpSize, tensor (job.layout.globalRank ⟨i, 0, srcPpRank⟩) =
      some (layerShard job.config job.layout.tpSize stateDict layer i).gateUpProj) :
    Spmd.Joint shape (job.layout.modelParallelGroup 0)
      (fun r => broadcastTpShardTensorGateUp (job.process r) (tensor r)
        (Param.layer layer .gateProj).name
        (Param.layer layer .upProj).name srcPpRank (stateDicts r))
      (written [((Param.layer layer .gateProj).name, stateDict.weight (.layer layer .gateProj)),
        ((Param.layer layer .upProj).name,
          stateDict.weight (.layer layer .upProj))] stateDicts) := by
  have there : ∀ part : LayerParam,
    job.config.paramShape (.layer layer part) = some (part.shape job.config) :=
    fun part => if_pos inside
  have positive : 0 < intermediateSizeTp job.config job.layout.tpSize * 2 :=
    Nat.mul_pos fits.intermediateSize_pos Nat.two_pos
  have shard := fun i (hi : i < job.layout.tpSize) =>
    fits.rect_gateUpPart (full.rect (there .gateProj)) (full.rect (there .upProj)) hi
  dsimp only [broadcastTpShardTensorGateUp]
  refine gatherShards_joint positive stage shard found stateDicts ?_
  have merged := fits.mergeGateUp_eq (full.rect (there .gateProj)) (full.rect (there .upProj))
  simp only [concat_shards fits.tp positive shard, ok_bind, merged, pure_eq_ok]

theorem qkv_joint (found : ∀ i < job.layout.tpSize,
    tensor (job.layout.globalRank ⟨i, 0, srcPpRank⟩) =
      some (layerShard job.config job.layout.tpSize stateDict layer i).qkvProj) :
    Spmd.Joint shape (job.layout.modelParallelGroup 0)
      (fun r => broadcastTpShardTensorQkv (job.process r) (tensor r) (Param.layer layer .qProj).name
        (Param.layer layer .kProj).name (Param.layer layer .vProj).name srcPpRank (stateDicts r))
      (written [((Param.layer layer .qProj).name, stateDict.weight (.layer layer .qProj)),
        ((Param.layer layer .kProj).name, stateDict.weight (.layer layer .kProj)),
        ((Param.layer layer .vProj).name, stateDict.weight (.layer layer .vProj))] stateDicts) := by
  have there : ∀ part : LayerParam,
    job.config.paramShape (.layer layer part) = some (part.shape job.config) :=
    fun part => if_pos inside
  have positive : 0 < totalSize job.config job.layout.tpSize := Nat.add_pos_left fits.qSize_pos _
  have shard := fun i (hi : i < job.layout.tpSize) =>
    fits.rect_qkvPart (full.rect (there .qProj)) (full.rect (there .kProj))
      (full.rect (there .vProj)) hi
  dsimp only [broadcastTpShardTensorQkv]
  refine gatherShards_joint positive stage shard found stateDicts ?_
  have merged := fits.mergeQkv_eq (full.rect (there .qProj)) (full.rect (there .kProj))
    (full.rect (there .vProj))
  simp only [concat_shards fits.tp positive shard, ok_bind, merged, pure_eq_ok]

end Weights

def merged (progress : Progress) : Param → Bool
  | .embedTokens => progress.embedTokens
  | .layer index _ => index < progress.layers
  | .norm => progress.norm
  | .lmHead => progress.lmHead
  | .rewardHead => false

/-- Rank 0 has these parameters of the state dict and no others. -/
def Collected (stateDict : StateDict α) (progress : Progress) (stateDicts : Nat → StateDict α) :
    Prop :=
  ∀ param : Param, stateDicts 0 param.name = bif merged progress param then
    some (stateDict.weight param) else none

theorem parts_joint {isValueModel : Bool} {models : Nat → List (ModelChunk α)}
    (sized : ∀ r, job.layout.modelParallelGroup 0 r → Sized job (models r))
    (divides : job.layout.ppSize * job.virtualPpSize ∣ job.config.numHiddenLayers)
    {embedded layered normed headed : Nat → StateDict α}
    (embedding : Spmd.Joint shape (job.layout.modelParallelGroup 0)
      (fun r => mergeEmbeddings (job.process r) (models r) StateDict.empty) embedded)
    (layers : Spmd.Joint shape (job.layout.modelParallelGroup 0)
      (fun r => (List.range job.config.numHiddenLayers).foldlM
        (mergeLayer (job.process r) (models r)) (embedded r)) layered)
    (norm : Spmd.Joint shape (job.layout.modelParallelGroup 0)
      (fun r => mergeNorm (job.process r) (models r) (layered r)) normed)
    (head : Spmd.Joint shape (job.layout.modelParallelGroup 0)
      (fun r => mergeLmHead (job.process r) isValueModel (models r) (normed r)) headed) :
    Spmd.Joint shape (job.layout.modelParallelGroup 0)
      (fun r => mergeMegatronCkptLlama (job.process r) isValueModel (models r)) headed := by
  refine Spmd.Joint.bind
    (Spmd.Joint.lift (fun _ => ()) (fun r member => (sized r member).checkModels r divides)) ?_
  have whole : Spmd.Joint shape (job.layout.modelParallelGroup 0)
      (fun r => do
        let embedded ← mergeEmbeddings (job.process r) (models r) StateDict.empty
        let layered ← (List.range job.config.numHiddenLayers).foldlM
          (mergeLayer (job.process r) (models r)) embedded
        let normed ← mergeNorm (job.process r) (models r) layered
        mergeLmHead (job.process r) isValueModel (models r) normed) headed := by
    refine Spmd.Joint.bind embedding ?_
    refine Spmd.Joint.bind layers ?_
    exact Spmd.Joint.bind norm head
  exact whole.congr (fun r member => if_pos member.2)

theorem layerShard_of_owner {stateDict : StateDict α} {models : Nat → List (ModelChunk α)}
    (holds : AllHold job stateDict ⟨true, job.config.numHiddenLayers, true, true⟩ models)
    {layer pp v index : Nat} (hpp : pp < job.layout.ppSize)
    {model : Nat → ModelChunk α}
    (hmodel : ∀ r, job.layout.modelParallelGroup 0 r → (models r)[v]? = some (model r))
    {syncLayer : Nat → LayerWeights α}
    (hlayer : ∀ r, job.layout.modelParallelGroup 0 r →
      (model r).layers[index]? = some (syncLayer r))
    (same : job.layerOffset ⟨0, 0, pp⟩ v + index = layer)
    (inside : layer < job.config.numHiddenLayers) :
    ∀ i < job.layout.tpSize,
      syncLayer (job.layout.globalRank ⟨i, 0, pp⟩) =
      layerShard job.config job.layout.tpSize stateDict layer i := by
  intro i hi
  have member := source_mem hpp hi
  have info := Layout.rankInfo_globalRank ⟨i, 0, pp⟩ ⟨hi, job.layout.dpPositive, hpp⟩
  have here : job.layerOffset (job.layout.rankInfo (job.layout.globalRank ⟨i, 0, pp⟩)) v +
      index = layer := by
    rw [info]
    exact same
  have shard := ((holds _ member).each _ _ (hmodel _ member)).layers _ _ (hlayer _ member)
    (here ▸ inside)
  rw [shard, here, info]

section Whole

variable (fits : job.config.Fits job.layout.tpSize) {stateDict : StateDict α}
  (full : stateDict.Full job.config) (vpp : 0 < job.virtualPpSize)
  {models : Nat → List (ModelChunk α)}
  (holds : AllHold job stateDict ⟨true, job.config.numHiddenLayers, true, true⟩ models)
  (progress : Progress) {stateDicts : Nat → StateDict α}

include fits full vpp holds

theorem mergeLayer_joint
    (divides : job.layout.ppSize * job.virtualPpSize ∣ job.config.numHiddenLayers) {layer : Nat}
    (inside : layer < job.config.numHiddenLayers)
    (collected : Collected stateDict { progress with layers := layer } stateDicts) :
    ∃ next, Spmd.Joint shape (job.layout.modelParallelGroup 0)
      (fun r => mergeLayer (job.process r) (models r) (stateDicts r) layer) next ∧
      Collected stateDict { progress with layers := layer + 1 } next := by
  obtain ⟨place, placed, hpp, hv, hl, same⟩ := layerMap_eq divides vpp job.layout.ppPositive inside
  obtain ⟨model, hmodel⟩ := model_at holds.sized hv
  obtain ⟨syncLayer, hlayer⟩ := layer_at holds.sized hmodel hl
  have there : ∀ part : LayerParam,
    job.config.paramShape (.layer layer part) = some (part.shape job.config) :=
    fun part => if_pos inside
  have owned := layerShard_of_owner holds hpp hmodel hlayer same inside
  have field : ∀ (f : LayerWeights α → Weight α), ∀ i < job.layout.tpSize,
      some (f (syncLayer (job.layout.globalRank ⟨i, 0, place.ppRank⟩))) =
        some (f (layerShard job.config job.layout.tpSize stateDict layer i)) :=
    fun f i hi => by rw [owned i hi]
  have tp := job.layout.tpPositive
  refine ⟨?_, ?_, ?_⟩
  rotate_left
  · refine Spmd.Joint.bind (Spmd.Joint.lift (fun _ => place) (fun _ _ => placed)) ?_
    refine Spmd.Joint.bind
      (Spmd.Joint.lift model (fun r member => pyGet_ok_iff.mpr (hmodel r member))) ?_
    refine Spmd.Joint.bind
      (Spmd.Joint.lift syncLayer (fun r member => pyGet_ok_iff.mpr (hlayer r member))) ?_
    refine Spmd.Joint.bind
      (broadcastTensor_joint Nat.one_pos hpp _ stateDicts (field LayerWeights.inputLayernorm 0 tp)
      (full.rect (there .inputLayernorm))) ?_
    refine Spmd.Joint.bind (qkv_joint fits full hpp _ inside (field LayerWeights.qkvProj)) ?_
    refine Spmd.Joint.bind
      (columns_joint fits full hpp _ inside (fits.oProj_shape) (field LayerWeights.oProj)) ?_
    refine Spmd.Joint.bind
      (broadcastTensor_joint Nat.one_pos hpp _ _ (field LayerWeights.postAttentionLayernorm 0 tp)
      (full.rect (there .postAttentionLayernorm))) ?_
    refine Spmd.Joint.bind (gateUp_joint fits full hpp _ inside (field LayerWeights.gateUpProj)) ?_
    refine columns_joint fits full hpp _ inside fits.downProj_shape ?_
    exact field LayerWeights.downProj
  · intro param
    simp only [written, if_true, List.foldl_cons, List.foldl_nil, StateDict.set_name,
      collected param]
    cases param with
    | layer index part =>
      by_cases current : index = layer
      · subst current
        cases part <;> simp [merged, layerShard]
      · have earlier : index < layer + 1 ↔ index < layer := by omega
        simp [merged, current, earlier]
    | _ => simp [merged]

theorem mergeEmbeddings_joint
    (collected : Collected stateDict { progress with embedTokens := false } stateDicts) :
    ∃ next, Spmd.Joint shape (job.layout.modelParallelGroup 0)
      (fun r => mergeEmbeddings (job.process r) (models r) (stateDicts r)) next ∧
      Collected stateDict { progress with embedTokens := true } next := by
  obtain ⟨model, hmodel⟩ := model_at holds.sized vpp
  have held := fun r member => (holds r member).each _ _ (hmodel r member)
  have there : ∀ r, job.layout.modelParallelGroup 0 r →
      ((model r).embedTokens.isSome ↔ (job.layout.rankInfo r).ppRank = 0) :=
    fun r member => (held r member).built.preProcess.trans (and_iff_left rfl)
  have param : job.config.paramShape .embedTokens =
    some (job.config.vocabSize, job.config.hiddenSize) := rfl
  refine ⟨_, Spmd.Joint.bind
    (Spmd.Joint.lift model (fun r member => pyGet_ok_iff.mpr (hmodel r member)))
    (Spmd.Joint.bind (Spmd.Joint.lift _ (fun r member => handed_ok (there r member) _))
      (vocab_joint fits full job.layout.ppPositive stateDicts param ?_)), ?_⟩
  · intro i hi
    have member := source_mem job.layout.ppPositive hi
    have info := Layout.rankInfo_globalRank ⟨i, 0, 0⟩ ⟨hi, job.layout.dpPositive,
      job.layout.ppPositive⟩
    have first : (job.layout.rankInfo (job.layout.globalRank ⟨i, 0, 0⟩)).ppRank = 0 := by rw [info]
    obtain ⟨w, own⟩ := Option.isSome_iff_exists.mp ((there _ member).mpr first)
    have shard := (held _ member).embedTokens rfl w own
    rw [info] at shard
    simp only [if_pos first, own, shard]
  · intro other
    simp only [written, if_true, List.foldl_cons, List.foldl_nil, StateDict.set_name,
      collected other]
    cases other <;> simp [merged]

omit fits in
theorem mergeNorm_joint
    (collected : Collected stateDict { progress with norm := false } stateDicts) :
    ∃ next, Spmd.Joint shape (job.layout.modelParallelGroup 0)
      (fun r => mergeNorm (job.process r) (models r) (stateDicts r)) next ∧
      Collected stateDict { progress with norm := true } next := by
  obtain ⟨model, hmodel, last⟩ := last_at holds.sized vpp
  have stage : job.layout.ppSize - 1 < job.layout.ppSize :=
    Nat.sub_lt job.layout.ppPositive Nat.one_pos
  have param : job.config.paramShape .norm = some (1, job.config.hiddenSize) := rfl
  have member := source_mem stage job.layout.tpPositive
  have info := Layout.rankInfo_globalRank ⟨0, 0, job.layout.ppSize - 1⟩ ⟨job.layout.tpPositive,
    job.layout.dpPositive, stage⟩
  have held := (holds _ member).each _ _ (hmodel _ member)
  obtain ⟨w, own⟩ := Option.isSome_iff_exists.mp (held.built.normPostProcess.mpr
    ⟨by rw [info]; exact Nat.sub_add_cancel job.layout.ppPositive, Nat.sub_add_cancel vpp⟩)
  obtain rfl := held.norm rfl w own
  refine ⟨_, Spmd.Joint.bind (Spmd.Joint.lift model last)
    (broadcastTensor_joint Nat.one_pos stage _ stateDicts own (full.rect param)), ?_⟩
  intro other
  simp only [written, if_true, List.foldl_cons, List.foldl_nil, StateDict.set_name, collected other]
  cases other <;> simp [merged]

theorem mergeLmHead_joint
    (collected : Collected stateDict { progress with lmHead := false } stateDicts) :
    ∃ next, Spmd.Joint shape (job.layout.modelParallelGroup 0)
      (fun r => mergeLmHead (job.process r) false (models r) (stateDicts r)) next ∧
      Collected stateDict { progress with lmHead := true } next := by
  obtain ⟨model, hmodel, last⟩ := last_at holds.sized vpp
  have stage : job.layout.ppSize - 1 < job.layout.ppSize :=
    Nat.sub_lt job.layout.ppPositive Nat.one_pos
  have param : job.config.paramShape .lmHead = some (job.config.vocabSize, job.config.hiddenSize) :=
    rfl
  have held := fun r member => (holds r member).each _ _ (hmodel r member)
  have there : ∀ r, job.layout.modelParallelGroup 0 r →
      ((model r).lmHead.isSome ↔ (job.layout.rankInfo r).ppRank = job.layout.ppSize - 1) := by
    intro r member
    have positive := job.layout.ppPositive
    rw [(held r member).built.headPostProcess]
    omega
  refine ⟨_, Spmd.Joint.bind (Spmd.Joint.lift model last)
    (Spmd.Joint.bind (Spmd.Joint.lift _ (fun r member => handed_ok (there r member) _))
      (vocab_joint fits full stage stateDicts param ?_)), ?_⟩
  · intro i hi
    have member := source_mem stage hi
    have info := Layout.rankInfo_globalRank ⟨i, 0, job.layout.ppSize - 1⟩ ⟨hi,
      job.layout.dpPositive, stage⟩
    have final : (job.layout.rankInfo
      (job.layout.globalRank ⟨i, 0, job.layout.ppSize - 1⟩)).ppRank =
        job.layout.ppSize - 1 := by rw [info]
    obtain ⟨w, own⟩ := Option.isSome_iff_exists.mp ((there _ member).mpr final)
    have shard := (held _ member).lmHead rfl w own
    rw [info] at shard
    simp only [if_pos final, own, shard]
  · intro other
    simp only [written, if_true, List.foldl_cons, List.foldl_nil, StateDict.set_name,
      collected other]
    cases other <;> simp [merged]

theorem mergeMegatronCkptLlama_joint
    (divides : job.layout.ppSize * job.virtualPpSize ∣ job.config.numHiddenLayers) :
    ∃ out, Spmd.Joint shape (job.layout.modelParallelGroup 0)
      (fun r => mergeMegatronCkptLlama (job.process r) false (models r)) out ∧
      Collected stateDict ⟨true, job.config.numHiddenLayers, true, true⟩ out := by
  have start : Collected stateDict ⟨false, 0, false, false⟩ (fun _ => StateDict.empty) := by
    intro param
    cases param <;> simp [merged, StateDict.empty]
  obtain ⟨embedded, embedding, hasEmbed⟩ :=
    mergeEmbeddings_joint fits full vpp holds ⟨false, 0, false, false⟩ start
  obtain ⟨layered, layers, hasLayers⟩ := Spmd.Joint.foldlM
    (fun layer dicts => Collected stateDict ⟨true, layer, false, false⟩ dicts) hasEmbed
    (fun layer inside _ has =>
      mergeLayer_joint fits full vpp holds ⟨true, 0, false, false⟩ divides inside has)
  obtain ⟨normed, norm, hasNorm⟩ := mergeNorm_joint full vpp holds
    ⟨true, job.config.numHiddenLayers, false, false⟩ hasLayers
  obtain ⟨headed, head, hasHead⟩ := mergeLmHead_joint fits full vpp holds
    ⟨true, job.config.numHiddenLayers, true, false⟩ hasNorm
  exact ⟨headed, parts_joint holds.sized divides embedding layers norm head, hasHead⟩

end Whole

end Verl.Llama.Saver
