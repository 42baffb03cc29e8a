import Verl.Base.Spmd
import Verl.Base.Text
import Verl.Llama.Weights
import Verl.Megatron.Layout
import Verl.Megatron.LayerMap

/-! What the loader and the saver work on: the merged state dict by parameter names,
and the modules `ParallelLlamaForCausalLMRmPadPP` that a rank holds, one for each
virtual pipeline stage. -/
namespace Verl.Llama

variable {α : Type}

inductive LayerParam where
  | inputLayernorm
  | qProj
  | kProj
  | vProj
  | oProj
  | postAttentionLayernorm
  | gateProj
  | upProj
  | downProj
  deriving DecidableEq

inductive Param where
  | embedTokens
  | layer (index : Nat) (part : LayerParam)
  | norm
  | lmHead
  | rewardHead
  deriving DecidableEq

def LayerParam.name : LayerParam → Text
  | .inputLayernorm => "input_layernorm.weight".toList
  | .qProj => "self_attn.q_proj.weight".toList
  | .kProj => "self_attn.k_proj.weight".toList
  | .vProj => "self_attn.v_proj.weight".toList
  | .oProj => "self_attn.o_proj.weight".toList
  | .postAttentionLayernorm => "post_attention_layernorm.weight".toList
  | .gateProj => "mlp.gate_proj.weight".toList
  | .upProj => "mlp.up_proj.weight".toList
  | .downProj => "mlp.down_proj.weight".toList

def Param.name : Param → Text
  | .embedTokens => "model.embed_tokens.weight".toList
  | .layer index part => "model.layers.".toList ++ (Text.ofNat index ++ '.' :: part.name)
  | .norm => "model.norm.weight".toList
  | .lmHead => "lm_head.weight".toList
  | .rewardHead => "reward_head.weight".toList

theorem LayerParam.name_injective {a b : LayerParam} (same : a.name = b.name) : a = b := by
  revert same
  cases a <;> cases b <;> decide

theorem Param.name_injective {a b : Param} (same : a.name = b.name) : a = b := by
  have length : "model.layers.".toList.length = 13 := by decide
  have start : ∀ index part, (Param.layer index part).name.take 13 = "model.layers.".toList :=
    fun _ _ => List.take_left' length
  cases a with
  | layer i p =>
    cases b with
    | layer j q =>
      obtain ⟨digits, rest⟩ :=
        Text.append_injective (Text.dot_notMem_ofNat i) (Text.dot_notMem_ofNat j)
        (List.append_cancel_left same)
      rw [Text.ofNat_injective digits, LayerParam.name_injective rest]
    | _ => exact absurd ((start i p).symm.trans (congrArg (List.take 13) same)) (by decide)
  | _ =>
    cases b with
    | layer j q =>
      exact absurd ((start j q).symm.trans (congrArg (List.take 13) same.symm)) (by decide)
    | _ => first | rfl | exact absurd same (by decide)

abbrev StateDict (α : Type) := Text → Option (Weight α)

namespace StateDict

def empty : StateDict α := fun _ => none

def set (stateDict : StateDict α) (name : Text) (weight : Weight α) : StateDict α :=
  fun other => if other = name then some weight else stateDict other

def getItem (stateDict : StateDict α) (name : Text) : Py (Weight α) :=
  match stateDict name with
  | some weight => .ok weight
  | none => .error (.key (String.ofList name))

@[simp] theorem set_name (stateDict : StateDict α) (a b : Param) (weight : Weight α) :
    stateDict.set a.name weight b.name = if b = a then some weight else stateDict b.name := by
  by_cases same : b = a
  · simp [set, same]
  · rw [set, if_neg (fun h => same (Param.name_injective h)), if_neg same]

theorem getItem_some {stateDict : StateDict α} {name : Text} {weight : Weight α}
    (found : stateDict name = some weight) : stateDict.getItem name = .ok weight := by
  rw [getItem, found]

end StateDict

structure LayerWeights (α : Type) where
  qkvProj : Weight α
  oProj : Weight α
  gateUpProj : Weight α
  downProj : Weight α
  inputLayernorm : Weight α
  postAttentionLayernorm : Weight α
  deriving DecidableEq, Inhabited

/-- A module of a rank. The embedding is there with `pre_process`, the final norm and
the head with `post_process`. -/
structure ModelChunk (α : Type) where
  embedTokens : Option (Weight α)
  layers : List (LayerWeights α)
  norm : Option (Weight α)
  lmHead : Option (Weight α)
  rewardHead : Option (Weight α)
  deriving DecidableEq, Inhabited

/-- A loop over `module.parameters()`, which come in the order of the fields. -/
def LayerWeights.mapM {m : Type → Type} [Monad m] (f : Weight α → m (Weight α))
    (layer : LayerWeights α) :
    m (LayerWeights α) := do
  let qkvProj ← f layer.qkvProj
  let oProj ← f layer.oProj
  let gateUpProj ← f layer.gateUpProj
  let downProj ← f layer.downProj
  let inputLayernorm ← f layer.inputLayernorm
  let postAttentionLayernorm ← f layer.postAttentionLayernorm
  return { qkvProj, oProj, gateUpProj, downProj, inputLayernorm, postAttentionLayernorm }

def ModelChunk.mapM {m : Type → Type} [Monad m] (f : Weight α → m (Weight α))
    (model : ModelChunk α) :
    m (ModelChunk α) := do
  let embedTokens ← model.embedTokens.mapM f
  let layers ← model.layers.mapM (LayerWeights.mapM f)
  let norm ← model.norm.mapM f
  let lmHead ← model.lmHead.mapM f
  let rewardHead ← model.rewardHead.mapM f
  return { embedTokens, layers, norm, lmHead, rewardHead }

def weightOf (name : String) (weight : Option (Weight α)) : Py (Weight α) :=
  match weight with
  | some w => .ok w
  | none => .error (.attribute name)

abbrev Program (α β : Type) := Spmd (Option (Nat × Nat)) (Weight α) β

/-- What `mpu` and the arguments tell a rank; `garbage` is what it finds in fresh memory. -/
structure Process (α : Type) where
  layout : Megatron.Layout
  config : Config
  virtualPpSize : Nat
  rank : Nat
  garbage : α

namespace Process

variable (process : Process α)

@[reducible] def info : Megatron.RankInfo := process.layout.rankInfo process.rank

def empty (shape : Nat × Nat) : Weight α :=
  List.replicate shape.1 (List.replicate shape.2 process.garbage)

def numLayersPerModel : Nat :=
  Megatron.numLayersPerModel process.config.numHiddenLayers process.layout.ppSize
    process.virtualPpSize

def checkModels (models : List (ModelChunk α)) : Py Unit := do
  pyAssert (models.length == process.virtualPpSize) "len(wrapped_models) == virtual_pp_size"
  pyAssert (process.numLayersPerModel * process.layout.ppSize * process.virtualPpSize ==
    process.config.numHiddenLayers)
    "num_layers_per_model * pp_size * virtual_pp_size == config.num_hidden_layers"
  models.forM (fun model => pyAssert (model.layers.length == process.numLayersPerModel)
    "len(gpt_model_module.model.layers) == num_layers_per_model")

def layerMap (layer : Nat) : Py Megatron.LayerPlace :=
  Megatron.layerMap process.config.numHiddenLayers process.layout.ppSize process.virtualPpSize layer

end Process

structure Job (α : Type) where
  layout : Megatron.Layout
  config : Config
  virtualPpSize : Nat
  garbage : Nat → α

@[reducible] def Job.process (job : Job α) (rank : Nat) : Process α where
  layout := job.layout
  config := job.config
  virtualPpSize := job.virtualPpSize
  rank := rank
  garbage := job.garbage rank

def lastModel (models : List (ModelChunk α)) : Py (ModelChunk α) := pyGet models (models.length - 1)

end Verl.Llama
