import Verl.Llama.Model

/-! `merge_megatron_ckpt_llama`: the shards are broadcast over the model parallel group,
and rank 0 puts them together to a merged state dict. -/
namespace Verl.Llama.Saver

variable {α : Type} (process : Process α)

/-- `_megatron_calc_global_rank` with `dp_rank=0`. -/
@[reducible] def sourceRank (tpRank srcPpRank : Nat) : Nat :=
  process.layout.globalRank ⟨tpRank, 0, srcPpRank⟩

def store (stateDict : StateDict α) (entries : Py (List (Text × Weight α))) : Py (StateDict α) :=
  if process.rank = 0 then
    return (← entries).foldl (fun dict e => dict.set e.1 e.2) stateDict
  else .ok stateDict

def broadcastTensor (tensor : Option (Weight α)) (name : Text) (srcPpRank : Nat)
    (stateDict : StateDict α) :
    Program α (StateDict α) := do
  let srcRank := sourceRank process 0 srcPpRank
  let weight := if process.rank = srcRank then tensor else none
  let tensorShape ← Spmd.broadcastObject srcRank (weight.map shape)
  match tensorShape with
  | none => return stateDict
  | some tensorShape =>
    let received ← Spmd.broadcastTensor srcRank (weight.getD (process.empty tensorShape))
    Spmd.lift (store process stateDict (.ok [(name, received)]))

/-- One pass of the loop over the shards. The buffer is overwritten before it is read, so its
contents are not carried from pass to pass. -/
def broadcastShard (tensor : Option (Weight α)) (chunkShape : Nat × Nat) (srcPpRank : Nat)
    (chunkTensors : List (Weight α)) (i : Nat) : Program α (List (Weight α)) := do
  let curSrcRank := sourceRank process i srcPpRank
  let mine ← Spmd.lift (if process.rank = curSrcRank then weightOf "device" tensor
    else .ok (process.empty chunkShape))
  let syncTensor ← Spmd.broadcastTensor curSrcRank mine
  return if process.rank = 0 then chunkTensors ++ [syncTensor] else chunkTensors

/-- The common start of the `_broadcast_tp_shard_tensor` functions; `put` is what rank 0 makes
of the chunks. -/
def gatherShards (tensor : Option (Weight α)) (srcPpRank : Nat) (stateDict : StateDict α)
    (put : List (Weight α) → Py (List (Text × Weight α))) : Program α (StateDict α) := do
  let srcRank := sourceRank process 0 srcPpRank
  let mine ← Spmd.lift (if process.rank = srcRank then some <$> shape <$> weightOf "shape" tensor
    else .ok none)
  let chunkShape ← Spmd.broadcastObject srcRank mine
  match chunkShape with
  | none => return stateDict
  | some chunkShape =>
    let chunkTensors ← (List.range process.layout.tpSize).foldlM
      (broadcastShard process tensor chunkShape srcPpRank) []
    Spmd.lift (store process stateDict (put chunkTensors))

def broadcastTpShardTensor (tensor : Option (Weight α)) (name : Text) (srcPpRank : Nat)
    (concatDim : Dim) (stateDict : StateDict α) : Program α (StateDict α) :=
  gatherShards process tensor srcPpRank stateDict (fun chunks => do
    let full ← concat concatDim chunks
    return [(name, full)])

def broadcastTpShardTensorGateUp (tensor : Option (Weight α)) (gateName upName : Text)
    (srcPpRank : Nat) (stateDict : StateDict α) : Program α (StateDict α) :=
  gatherShards process tensor srcPpRank stateDict (fun chunks => do
    let full ← concat .rows chunks
    let (gate, up) ← mergeGateUp process.config process.layout.tpSize full
    return [(gateName, gate), (upName, up)])

def broadcastTpShardTensorQkv (tensor : Option (Weight α)) (qName kName vName : Text)
    (srcPpRank : Nat) (stateDict : StateDict α) : Program α (StateDict α) :=
  gatherShards process tensor srcPpRank stateDict (fun chunks => do
    let full ← concat .rows chunks
    let (q, k, v) ← mergeQkv process.config process.layout.tpSize full
    return [(qName, q), (kName, k), (vName, v)])

/-- A pass of the loop over the layers. Every rank has a layer at the place, only the stage that
owns it hands it over. -/
def mergeLayer (models : List (ModelChunk α)) (stateDict : StateDict α) (layer : Nat) :
    Program α (StateDict α) := do
  let place ← Spmd.lift (process.layerMap layer)
  let model ← Spmd.lift (pyGet models place.virtualPpRank)
  let syncLayer ← Spmd.lift (pyGet model.layers place.layerIdx)
  let name := fun part => (Param.layer layer part).name
  let src := place.ppRank
  let withInputLayernorm ← broadcastTensor process (some syncLayer.inputLayernorm)
    (name .inputLayernorm) src stateDict
  let withQkv ← broadcastTpShardTensorQkv process (some syncLayer.qkvProj) (name .qProj)
    (name .kProj) (name .vProj) src
    withInputLayernorm
  let withO ← broadcastTpShardTensor process (some syncLayer.oProj) (name .oProj) src
    .columns withQkv
  let withPostAttentionLayernorm ← broadcastTensor process (some syncLayer.postAttentionLayernorm)
    (name .postAttentionLayernorm) src withO
  let withGateUp ← broadcastTpShardTensorGateUp process (some syncLayer.gateUpProj) (name .gateProj)
    (name .upProj) src
    withPostAttentionLayernorm
  broadcastTpShardTensor process (some syncLayer.downProj) (name .downProj) src .columns withGateUp

def mergeEmbeddings (models : List (ModelChunk α)) (stateDict : StateDict α) :
    Program α (StateDict α) := do
  let model ← Spmd.lift (pyGet models 0)
  let weight ← Spmd.lift (if process.info.ppRank = 0 then
    some <$> weightOf "embed_tokens" model.embedTokens
    else .ok none)
  broadcastTpShardTensor process weight Param.embedTokens.name 0 .rows stateDict

def mergeNorm (models : List (ModelChunk α)) (stateDict : StateDict α) :
    Program α (StateDict α) := do
  let model ← Spmd.lift (lastModel models)
  broadcastTensor process model.norm Param.norm.name (process.layout.ppSize - 1) stateDict

/-- A head of a value model is asked for on every rank, and a rank without it skips the
broadcast. -/
def mergeValueHead (weight : Option (Weight α)) (name : Text) (stateDict : StateDict α) :
    Program α (StateDict α) :=
  match weight with
  | none => return stateDict
  | some weight =>
    broadcastTensor process (if process.info.ppRank = process.layout.ppSize - 1 then some weight
      else none) name
      (process.layout.ppSize - 1) stateDict

def mergeLmHead (isValueModel : Bool) (models : List (ModelChunk α)) (stateDict : StateDict α) :
    Program α (StateDict α) := do
  let model ← Spmd.lift (lastModel models)
  if isValueModel then
    let withLmHead ← mergeValueHead process model.lmHead Param.lmHead.name stateDict
    mergeValueHead process model.rewardHead Param.rewardHead.name withLmHead
  else
    let weight ← Spmd.lift (if process.info.ppRank = process.layout.ppSize - 1 then
      some <$> weightOf "lm_head" model.lmHead
      else .ok none)
    broadcastTpShardTensor process weight Param.lmHead.name (process.layout.ppSize - 1)
      .rows stateDict

def mergeMegatronCkptLlama (isValueModel : Bool) (models : List (ModelChunk α)) :
    Program α (StateDict α) := do
  Spmd.lift (process.checkModels models)
  if process.info.dpRank = 0 then
    let embedded ← mergeEmbeddings process models StateDict.empty
    let layered ← (List.range process.config.numHiddenLayers).foldlM
      (mergeLayer process models) embedded
    let normed ← mergeNorm process models layered
    mergeLmHead process isValueModel models normed
  else return StateDict.empty

end Verl.Llama.Saver
