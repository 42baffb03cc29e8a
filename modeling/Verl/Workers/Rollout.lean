import Verl.Protocol.Collectives
import Verl.SingleController.Dispatch

/-! `vLLMRollout.generate_sequences` between `preprocess_data` and
`postprocess_data` of `FSDPVLLMShardingManager`, on all ranks of the worker group.
The engine is a parameter, one for each inference group: a call returns, for each
input, the token ids of its responses. -/
namespace Verl.Rollout
open Protocol SingleController

inductive Cell where
  | vec (xs : List Int)
  | mat (xss : List (List Int))
  deriving DecidableEq

inductive Obj (Ω : Type) where
  | tokens (ids : List Int)
  | object (o : Ω)
  deriving DecidableEq

inductive MetaValue where
  | flag (b : Bool)
  | tokens (ids : List Int)
  deriving DecidableEq

def MetaValue.truthy : MetaValue → Bool
  | .flag b => b
  | .tokens ids => !ids.isEmpty

variable {Ω : Type}

abbrev Prompts (Ω : Type) := DataProto Cell (Obj Ω) MetaValue

structure RolloutConfig where
  n : Nat
  responseLength : Nat
  padTokenId : Int
  /-- What the worker writes to `meta_info`. -/
  eosTokenId : List Int

abbrev VllmInput (Ω : Type) := Obj Ω × Option (Obj Ω)

/-- `inference_engine.generate(inputs, sampling_params)` with `n` samples. -/
abbrev Engine (Ω : Type) := Nat → List (VllmInput Ω) → List (List (List Int))

def Cell.asVec : Cell → Py (List Int)
  | .vec xs => .ok xs
  | .mat _ => .error (.runtime "expected a 2-D tensor")

/-- `_pre_process_inputs`: the row without its left padding. -/
def preProcessInputs (padTokenId : Int) (promptTokenIds : Cell) : Py (Obj Ω) := do
  let row ← promptTokenIds.asVec
  match row.findIdx? (· ≠ padTokenId) with
  | none => .error .index
  | some nonPadIndex => .ok (.tokens (row.drop nonPadIndex))

def pad2dListToLength (padTokenId : Int) (maxLength : Nat) (response : List (List Int)) :
    Py (List (List Int)) :=
  match (response.map List.length).max? with
  | none => .error (.value "max() arg is an empty sequence")
  | some responseLength =>
    let targetLength := if maxLength > responseLength then maxLength else responseLength
    .ok (response.map (fun ids => ids ++ List.replicate (targetLength - ids.length) padTokenId))

def eosMask (eosToken : List Int) (response : List Int) : List Int :=
  (List.range response.length).map (fun t => if (response.take t).any (· ∈ eosToken) then 0 else 1)

def broadcastAdd (a b : List Int) : Py (List Int) :=
  if a.length = b.length then .ok (List.zipWith (· + ·) a b)
  else if a.length = 1 then .ok (b.map (a.headD 0 + ·))
  else if b.length = 1 then .ok (a.map (· + b.headD 0))
  else .error (.runtime "The size of tensor a must match the size of tensor b")

def deltaPositionId (responseLength : Nat) : List Int :=
  (List.range responseLength).map (fun t : Nat => (t : Int) + 1)

/-- `position_ids[:, -1:] + delta_position_id` on one row. For a 3-D tensor the
slice takes the last channel, not the last position. -/
def responsePositionIds (responseLength : Nat) : Cell → Py Cell
  | .vec xs => do
    let positions ← broadcastAdd (xs.drop (xs.length - 1)) (deltaPositionId responseLength)
    return .vec positions
  | .mat xss => do
    match xss.getLast? with
    | none => .error (.runtime "expected a channel")
    | some last =>
      let positions ← broadcastAdd last (deltaPositionId responseLength)
      return .mat (List.replicate 3 positions)

def Cell.cat : Cell → Cell → Py Cell
  | .vec xs, .vec ys => .ok (.vec (xs ++ ys))
  | .mat xss, .mat yss =>
    if xss.length = yss.length then .ok (.mat (List.zipWith (· ++ ·) xss yss))
    else .error (.runtime "Sizes of tensors must match")
  | _, _ => .error (.runtime "Tensors must have same number of dimensions")

def catShape (shape : List Nat) (width : Nat) : List Nat :=
  shape.dropLast ++ [shape.getLastD 0 + width]

/-- Row by row over two columns with the same number of rows. -/
def zipRows (f : Cell → List Int → Py Cell) (rows : List Cell) (response : List (List Int)) :
    Py (List Cell) :=
  if rows.length = response.length then (rows.zip response).mapM (fun entry => f entry.1 entry.2)
  else .error (.runtime "Sizes of tensors must match except in dimension 1")

/-- `seq`, `attention_mask` and `position_ids` of one sample. -/
def seqRow (prompt : Cell) (response : List Int) : Py Cell := prompt.cat (.vec response)

def maskRow (eosToken : List Int) (mask : Cell) (response : List Int) : Py Cell :=
  mask.cat (.vec (eosMask eosToken response))

def positionRow (positions : Cell) (response : List Int) : Py Cell := do
  let later ← responsePositionIds response.length positions
  positions.cat later

/-- The number of samples: `n`, but 1 for greedy decoding and for validation. -/
def samples (config : RolloutConfig) (metaInfo : Dict MetaValue) : Nat :=
  let doSample := ((metaInfo.get? "do_sample").map MetaValue.truthy).getD true
  let isValidate := ((metaInfo.get? "validate").map MetaValue.truthy).getD false
  if !doSample then 1 else if isValidate then 1 else config.n

def vllmInputs (padTokenId : Int) (idx : Column Cell) (nonTensorBatch : Dict (Column (Obj Ω))) :
    Py (List (VllmInput Ω) × Dict (Column (Obj Ω))) := do
  let nonTensorBatch ← if nonTensorBatch.contains "raw_prompt_ids" then .ok nonTensorBatch else do
    let rows ← idx.rows.mapM (preProcessInputs padTokenId)
    Except.ok (nonTensorBatch.set "raw_prompt_ids" ⟨[], rows⟩)
  let raw ← nonTensorBatch.getItem "raw_prompt_ids"
  if idx.rows.length ≠ raw.rows.length then
    .error (.runtime "vllm sharding manager is not work properly.") else
  let nonTensorBatch := nonTensorBatch.erase "raw_prompt_ids"
  match nonTensorBatch.get? "multi_modal_data" with
  | some data =>
    .ok ((raw.rows.zip data.rows).map (fun e => (e.1, some e.2)),
    nonTensorBatch.erase "multi_modal_data")
  | none => .ok (raw.rows.map (fun ids => (ids, none)), nonTensorBatch)

def interleave {α : Type} (n : Nat) (column : Column α) : Column α :=
  if n > 1 then DataProto.repeatInterleave n column else column

def tensor (prompts : Prompts Ω) (key : String) : Py (Column Cell) :=
  match prompts.batch with
  | none => .error (.attribute key)
  | some batch => batch.tensors.getItem key

/-- The tensors of the samples, from the repeated prompt tensors and the padded responses. -/
def assemble (config : RolloutConfig) (idx attentionMask positionIds : Column Cell)
    (response : List (List Int)) :
    Py (TensorDict Cell) := do
  let width := (response.head?.map List.length).getD 0
  let seq ← zipRows seqRow idx.rows response
  let positions ← zipRows positionRow positionIds.rows response
  let masks ← zipRows (maskRow config.eosTokenId) attentionMask.rows response
  TensorDict.new ⟨[
    ("prompts", idx),
    ("responses", ⟨[width], response.map .vec⟩),
    ("input_ids", ⟨catShape idx.shape width, seq⟩),
    ("attention_mask", ⟨catShape attentionMask.shape width, masks⟩),
    ("position_ids", ⟨catShape positionIds.shape width, positions⟩)], by simp⟩ idx.rows.length

def generateSequences (config : RolloutConfig) (engine : Engine Ω) (prompts : Prompts Ω) :
    Py (Prompts Ω) := do
  let idx ← tensor prompts "input_ids"
  let attentionMask ← tensor prompts "attention_mask"
  let positionIds ← tensor prompts "position_ids"
  let (inputs, nonTensorBatch) ← vllmInputs config.padTokenId idx prompts.nonTensorBatch
  let n := samples config prompts.metaInfo
  let response := (engine n inputs).flatten
  let response ← pad2dListToLength config.padTokenId config.responseLength response
  let nonTensorBatch := nonTensorBatch.mapKV (fun key column =>
    if key = "multi_modal_inputs" then interleave n column else column)
  let batch ← assemble config (interleave n idx) (interleave n attentionMask)
    (interleave n positionIds) response
  DataProto.new (some batch) nonTensorBatch .empty

section Ranks

variable (tpSize : Nat)

/-- `FSDPVLLMShardingManager.preprocess_data` on one rank; the groups are runs of `tp_size`
ranks. -/
def preprocessData (inputs : List (Prompts Ω)) (rank : Nat) : Py (Prompts Ω) := do
  let data ← pyGet inputs rank
  if tpSize = 1 then .ok data else
  let group ← ((List.range tpSize).map (fun j => rank / tpSize * tpSize + j)).mapM (pyGet inputs)
  allGatherDataProto data group

def postprocessData (rank : Nat) (data : Prompts Ω) : Py (Prompts Ω) :=
  if tpSize = 1 then .ok data else DataProtoFuture.chunkAt tpSize (rank % tpSize) data

/-- `generate_sequences` of the worker on all ranks. The ranks of a group run one engine. -/
def generateOnRanks (config : RolloutConfig) (worldSize : Nat) (engines : Nat → Engine Ω)
    (prompts : List (Prompts Ω)) : Py (List (Prompts Ω)) := do
  let inputs ← (List.range worldSize).mapM (preprocessData tpSize prompts)
  (List.range worldSize).mapM (fun rank => do
    let data ← pyGet inputs rank
    let output ← generateSequences config (engines (rank / tpSize)) data
    postprocessData tpSize rank output)

end Ranks

end Verl.Rollout
