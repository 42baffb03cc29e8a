import Verl.Llama.Model

/-! `load_state_dict_to_megatron_llama`: rank 0 cuts the weights of a merged state dict
and broadcasts them over the model parallel group; every rank keeps its shards. -/
namespace Verl.Llama.Loader

variable {α : Type}

def copyInto (target source : Weight α) : Py (Weight α) :=
  if shape target = shape source then .ok source
  else .error (.runtime "The size of tensor a must match the size of tensor b")

variable (process : Process α) (stateDict : StateDict α)

/-- `_broadcast_tensor`. The result is what `tensor` holds afterwards. -/
def broadcastTensor (tensor : Option (Weight α)) (name : Text) : Program α (Option (Weight α)) := do
  let weight := if process.rank = 0 then stateDict name else none
  let tensorShape ← Spmd.broadcastObject 0 (weight.map shape)
  match tensorShape with
  | none => return tensor
  | some tensorShape =>
    let buffer := tensor.getD (process.empty tensorShape)
    let mine ← Spmd.lift (match weight with
      | some weight => copyInto buffer weight
      | none => .ok buffer)
    let received ← Spmd.broadcastTensor 0 mine
    return tensor.map (fun _ => received)

/-- One pass of the loop over the chunks; the state is `sync_tensor` and `tensor`. -/
def broadcastChunk (tensorChunk : Option (List (Weight α)))
    (state : Weight α × Option (Weight α)) (i : Nat) :
    Program α (Weight α × Option (Weight α)) := do
  let mine ← Spmd.lift (match tensorChunk with
    | some chunks => pyGet chunks i >>= copyInto state.1
    | none => .ok state.1)
  let syncTensor ← Spmd.broadcastTensor 0 mine
  if i = process.info.tpRank then
    let tensor ← Spmd.lift (state.2.mapM (fun own => copyInto own syncTensor))
    return (syncTensor, tensor)
  else return (syncTensor, state.2)

/-- The common end of the `_broadcast_tp_shard_tensor` functions: `tensor_chunk` is there on
rank 0 only. -/
def broadcastChunks (tensor : Option (Weight α)) (tensorChunk : Option (List (Weight α))) :
    Program α (Option (Weight α)) := do
  let chunkShape ← Spmd.broadcastObject 0 (tensorChunk.bind (fun chunks => chunks.head?.map shape))
  match chunkShape with
  | none => return tensor
  | some chunkShape =>
    let syncTensor ← Spmd.lift (match tensor with
      | none => .ok (process.empty chunkShape)
      | some own => do
        pyAssert (shape own == chunkShape) "tensor.shape == chunk_shape"
        return process.empty (shape own))
    let final ← (List.range process.layout.tpSize).foldlM (broadcastChunk process tensorChunk)
      (syncTensor, tensor)
    return final.2

def broadcastTpShardTensor (tensor : Option (Weight α)) (name : Text) (chunkDim : Dim) :
    Program α (Option (Weight α)) :=
  broadcastChunks process tensor
    (if process.rank = 0 then (stateDict name).map (chunk chunkDim process.layout.tpSize) else none)

def broadcastTpShardTensorVocab (tensor : Option (Weight α)) (name : Text) :
    Program α (Option (Weight α)) :=
  broadcastTpShardTensor process stateDict tensor name .rows

def broadcastTpShardTensorGateUp (tensor : Option (Weight α)) (gateName upName : Text) :
    Program α (Option (Weight α)) := do
  let tensorChunk ← Spmd.lift (if process.rank = 0 then do
      let gate ← stateDict.getItem gateName
      let up ← stateDict.getItem upName
      some <$> chunkGateUp process.config process.layout.tpSize process.garbage gate up
    else .ok none)
  broadcastChunks process tensor tensorChunk

def broadcastTpShardTensorQkv (tensor : Option (Weight α)) (qName kName vName : Text) :
    Program α (Option (Weight α)) := do
  let tensorChunk ← Spmd.lift (if process.rank = 0 then do
      pyAssert ((stateDict qName).isSome && (stateDict kName).isSome && (stateDict vName).isSome)
        "q_name in state_dict and k_name in state_dict and v_name in state_dict"
      let q ← stateDict.getItem qName
      let k ← stateDict.getItem kName
      let v ← stateDict.getItem vName
      some <$> chunkQkv process.config process.layout.tpSize process.garbage q k v
    else .ok none)
  broadcastChunks process tensor tensorChunk

/-- A pass of the loop over the layers. The weights of the layer are handed over on the
stage that owns it and written in place there. -/
def loadLayer (models : List (ModelChunk α)) (layer : Nat) : Program α (List (ModelChunk α)) := do
  let place ← Spmd.lift (process.layerMap layer)
  let model ← Spmd.lift (pyGet models place.virtualPpRank)
  let syncLayer ← Spmd.lift (pyGet model.layers place.layerIdx)
  let own := fun weight : Weight α => if place.ppRank = process.info.ppRank then
    some weight else none
  let name := fun part => (Param.layer layer part).name
  let inputLayernorm ← broadcastTensor process stateDict (own syncLayer.inputLayernorm)
    (name .inputLayernorm)
  let qkvProj ← broadcastTpShardTensorQkv process stateDict (own syncLayer.qkvProj)
    (name .qProj) (name .kProj)
    (name .vProj)
  let oProj ← broadcastTpShardTensor process stateDict (own syncLayer.oProj) (name .oProj) .columns
  let postAttentionLayernorm ← broadcastTensor process stateDict
    (own syncLayer.postAttentionLayernorm)
    (name .postAttentionLayernorm)
  let gateUpProj ← broadcastTpShardTensorGateUp process stateDict (own syncLayer.gateUpProj)
    (name .gateProj)
    (name .upProj)
  let downProj ← broadcastTpShardTensor process stateDict (own syncLayer.downProj)
    (name .downProj) .columns
  let loaded : LayerWeights α :=
    { qkvProj := qkvProj.getD syncLayer.qkvProj
      oProj := oProj.getD syncLayer.oProj
      gateUpProj := gateUpProj.getD syncLayer.gateUpProj
      downProj := downProj.getD syncLayer.downProj
      inputLayernorm := inputLayernorm.getD syncLayer.inputLayernorm
      postAttentionLayernorm := postAttentionLayernorm.getD syncLayer.postAttentionLayernorm }
  return models.set place.virtualPpRank
    { model with layers := model.layers.set place.layerIdx loaded }

def loadEmbeddings (models : List (ModelChunk α)) : Program α (List (ModelChunk α)) := do
  let model ← Spmd.lift (pyGet models 0)
  let embedTokensWeight ← Spmd.lift (if process.info.ppRank = 0 then
    some <$> weightOf "embed_tokens" model.embedTokens
    else .ok none)
  let loaded ← broadcastTpShardTensorVocab process stateDict embedTokensWeight
    Param.embedTokens.name
  return models.set 0 { model with embedTokens := loaded.or model.embedTokens }

def loadNorm (models : List (ModelChunk α)) : Program α (List (ModelChunk α)) := do
  let model ← Spmd.lift (lastModel models)
  let loaded ← broadcastTensor process stateDict model.norm Param.norm.name
  return models.set (models.length - 1) { model with norm := loaded }

def isValueHead (name : Text) : Bool :=
  match stateDict name with
  | some weight => weight.length == 1
  | none => false

def broadcastLmHead (isValueModel : Bool) (lmHeadWeight : Option (Weight α)) :
    Program α (Option (Weight α)) :=
  if isValueModel then
    -- every rank asks its own `state_dict`
    if isValueHead stateDict Param.lmHead.name then
      broadcastTensor process stateDict lmHeadWeight Param.lmHead.name
    else if isValueHead stateDict Param.rewardHead.name then
      broadcastTensor process stateDict lmHeadWeight Param.rewardHead.name
    else (fun _ => lmHeadWeight) <$> broadcastTensor process stateDict none Param.lmHead.name
  else broadcastTpShardTensor process stateDict lmHeadWeight Param.lmHead.name .rows

def loadLmHead (isValueModel : Bool) (models : List (ModelChunk α)) :
    Program α (List (ModelChunk α)) := do
  let model ← Spmd.lift (lastModel models)
  let lmHeadWeight ← Spmd.lift (if process.info.ppRank + 1 = process.layout.ppSize then
    some <$> weightOf "lm_head" model.lmHead else .ok none)
  let loaded ← broadcastLmHead process stateDict isValueModel lmHeadWeight
  return models.set (models.length - 1) { model with lmHead := loaded.or model.lmHead }

def loadModelParallel (isValueModel : Bool) (models : List (ModelChunk α)) :
    Program α (List (ModelChunk α)) := do
  Spmd.lift (process.checkModels models)
  if process.info.dpRank = 0 then
    let embedded ← loadEmbeddings process stateDict models
    let layered ← (List.range process.config.numHiddenLayers).foldlM
      (loadLayer process stateDict) embedded
    let normed ← loadNorm process stateDict layered
    loadLmHead process stateDict isValueModel normed
  else return models

/-- `broadcast_params`, after the barrier: over the data parallel group, from its first rank. -/
def broadcastParams (models : List (ModelChunk α)) : Program α (List (ModelChunk α)) :=
  let src := process.layout.globalRank ⟨process.info.tpRank, 0, process.info.ppRank⟩
  models.mapM (fun model => model.mapM (Spmd.broadcastTensor src))

end Verl.Llama.Loader
