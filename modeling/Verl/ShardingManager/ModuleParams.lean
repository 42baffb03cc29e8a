import Mathlib.Data.List.Infix
import Verl.Llama.Placement

/-! The parameters of the modules by their names in `named_parameters()`, and the shards
of them that the loader hands out. -/
namespace Verl.ShardingManager

open Llama

variable {α : Type}

inductive LayerModule where
  | qkvProj
  | oProj
  | gateUpProj
  | downProj
  | inputLayernorm
  | postAttentionLayernorm
  deriving DecidableEq

def LayerModule.all : List LayerModule :=
  [.qkvProj, .oProj, .gateUpProj, .downProj, .inputLayernorm, .postAttentionLayernorm]

inductive ModuleParam where
  | embedTokens
  | layer (index : Nat) (part : LayerModule)
  | norm
  | lmHead
  deriving DecidableEq

def LayerModule.name : LayerModule → Text
  | .qkvProj => "self_attn.qkv_proj.weight".toList
  | .oProj => "self_attn.o_proj.weight".toList
  | .gateUpProj => "mlp.gate_up_proj.weight".toList
  | .downProj => "mlp.down_proj.weight".toList
  | .inputLayernorm => "input_layernorm.weight".toList
  | .postAttentionLayernorm => "post_attention_layernorm.weight".toList

def ModuleParam.name : ModuleParam → Text
  | .embedTokens => "model.embed_tokens.weight".toList
  | .layer index part => "model.layers.".toList ++ (Text.ofNat index ++ '.' :: part.name)
  | .norm => "model.norm.weight".toList
  | .lmHead => "lm_head.weight".toList

theorem ModuleParam.layer_name (index : Nat) (part : LayerModule) :
    (ModuleParam.layer index part).name =
      "model.layers.".toList ++ (Text.ofNat index ++ '.' :: part.name) := rfl

theorem LayerModule.name_injective {a b : LayerModule} (same : a.name = b.name) : a = b := by
  revert same
  cases a <;> cases b <;> decide

theorem ModuleParam.name_injective {a b : ModuleParam} (same : a.name = b.name) : a = b := by
  have start : ∀ index part, (ModuleParam.layer index part).name.take 13 = "model.layers.".toList :=
    fun _ _ => List.take_left' (by decide)
  cases a with
  | layer i p =>
    cases b with
    | layer j q =>
      obtain ⟨digits, rest⟩ :=
        Text.append_injective (Text.dot_notMem_ofNat i) (Text.dot_notMem_ofNat j)
        (List.append_cancel_left same)
      rw [Text.ofNat_injective digits, LayerModule.name_injective rest]
    | _ => exact absurd ((start i p).symm.trans (congrArg (List.take 13) same)) (by decide)
  | _ =>
    cases b with
    | layer j q =>
      exact absurd ((start j q).symm.trans (congrArg (List.take 13) same.symm)) (by decide)
    | _ => first | rfl | exact absurd same (by decide)

/-- `param.partition_dim` of a parameter with `tensor_model_parallel`: column parallel layers
and embeddings are cut along dimension 0, row parallel layers along dimension 1. -/
def ModuleParam.partitionDim : ModuleParam → Option Dim
  | .embedTokens | .lmHead | .layer _ .qkvProj | .layer _ .gateUpProj => some .rows
  | .layer _ .oProj | .layer _ .downProj => some .columns
  | _ => none

def ModuleParam.InModel (config : Config) : ModuleParam → Prop
  | .layer index _ => index < config.numHiddenLayers
  | _ => True

/-- What the tensor parallel ranks get of a parameter when the loader runs with `tpSize`. -/
def loaderShards (config : Config) (tpSize : Nat) (garbage : α) (stateDict : StateDict α) :
    ModuleParam → Py (List (Weight α))
  | .embedTokens => .ok (chunk .rows tpSize (stateDict.weight .embedTokens))
  | .lmHead => .ok (chunk .rows tpSize (stateDict.weight .lmHead))
  | .norm => .ok (List.replicate tpSize (stateDict.weight .norm))
  | .layer index .qkvProj => chunkQkv config tpSize garbage (stateDict.weight (.layer index .qProj))
      (stateDict.weight (.layer index .kProj)) (stateDict.weight (.layer index .vProj))
  | .layer index .gateUpProj =>
    chunkGateUp config tpSize garbage (stateDict.weight (.layer index .gateProj))
      (stateDict.weight (.layer index .upProj))
  | .layer index .oProj => .ok (chunk .columns tpSize (stateDict.weight (.layer index .oProj)))
  | .layer index .downProj =>
    .ok (chunk .columns tpSize (stateDict.weight (.layer index .downProj)))
  | .layer index .inputLayernorm =>
    .ok (List.replicate tpSize (stateDict.weight (.layer index .inputLayernorm)))
  | .layer index .postAttentionLayernorm =>
    .ok (List.replicate tpSize (stateDict.weight (.layer index .postAttentionLayernorm)))

def LayerModule.weight (layer : LayerWeights α) : LayerModule → Weight α
  | .qkvProj => layer.qkvProj
  | .oProj => layer.oProj
  | .gateUpProj => layer.gateUpProj
  | .downProj => layer.downProj
  | .inputLayernorm => layer.inputLayernorm
  | .postAttentionLayernorm => layer.postAttentionLayernorm

def moduleShard (config : Config) (tpSize : Nat) (stateDict : StateDict α) (tpRank : Nat) :
    ModuleParam → Weight α
  | .embedTokens => vocabShard config tpSize stateDict .embedTokens tpRank
  | .layer index part => part.weight (layerShard config tpSize stateDict index tpRank)
  | .norm => stateDict.weight .norm
  | .lmHead => vocabShard config tpSize stateDict .lmHead tpRank

section Shards

variable {config : Config} {tpSize : Nat} (fits : config.Fits tpSize) {stateDict : StateDict α}
  (full : stateDict.Full config) (garbage : α)

include fits full

theorem chunk_vocab {param : Param}
    (there : config.paramShape param = some (config.vocabSize, config.hiddenSize)) :
    chunk .rows tpSize (stateDict.weight param) =
      (List.range tpSize).map (vocabShard config tpSize stateDict param) := by
  have rect := full.rect there
  exact chunk_rows fits.tp fits.vocabSize_pos (rect.rows.trans fits.vocab_eq)

theorem chunk_columns_layer {index size : Nat} {part : LayerParam}
    (inside : index < config.numHiddenLayers)
    (positive : 0 < size) (cut : part.shape config = (config.hiddenSize, tpSize * size)) :
    chunk .columns tpSize (stateDict.weight (.layer index part)) =
      (List.range tpSize).map
        (fun i => (stateDict.weight (.layer index part)).map (block size i)) := by
  have there : config.paramShape (.layer index part) = some (config.hiddenSize, tpSize * size) := by
    rw [Config.paramShape, if_pos inside, cut]
  exact chunk_columns fits.tp positive (width_eq (full.rect there) fits.hiddenPositive)

theorem loaderShards_eq {param : ModuleParam} (inside : param.InModel config) :
    loaderShards config tpSize garbage stateDict param =
      .ok ((List.range tpSize).map (fun i => moduleShard config tpSize stateDict i param)) := by
  have whole : ∀ w : Weight α, List.replicate tpSize w = (List.range tpSize).map (fun _ => w) := by
    intro w
    rw [List.map_const', List.length_range]
  cases param with
  | embedTokens => exact congrArg _ (chunk_vocab fits full rfl)
  | lmHead => exact congrArg _ (chunk_vocab fits full rfl)
  | norm => exact congrArg _ (whole _)
  | layer index part =>
    have inLayer : index < config.numHiddenLayers := inside
    have rect : ∀ part : LayerParam,
        Rect (part.shape config).1 (part.shape config).2 (stateDict.weight (.layer index part)) :=
      fun part => full.rect (if_pos inLayer)
    cases part with
    | qkvProj => exact fits.chunkQkv_eq (rect .qProj) (rect .kProj) (rect .vProj) garbage
    | gateUpProj => exact fits.chunkGateUp_eq (rect .gateProj) (rect .upProj) garbage
    | oProj =>
      exact congrArg _ (chunk_columns_layer fits full inLayer fits.qSize_pos fits.oProj_shape)
    | downProj =>
      exact congrArg _ (chunk_columns_layer fits full inLayer fits.intermediateSize_pos
      fits.downProj_shape)
    | inputLayernorm => exact congrArg _ (whole _)
    | postAttentionLayernorm => exact congrArg _ (whole _)

end Shards

end Verl.ShardingManager
