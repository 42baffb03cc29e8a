import Verl.Base.Blocks
import Verl.Base.Python
import Verl.Base.Reindex

/-! The weights of a Llama model and how they are cut over tensor parallel ranks: the
slice arithmetic of `llama_loader.py` and of `llama_saver.py`. Tensors are lists of
rows, a 1-D weight is one row; a cast to `params_dtype` changes no entry. -/
namespace Verl.Llama

variable {α : Type}

abbrev Weight (α : Type) := List (List α)

def width (w : Weight α) : Nat := (w.head?.map List.length).getD 0

def shape (w : Weight α) : Nat × Nat := (w.length, width w)

structure Rect (rows cols : Nat) (w : Weight α) : Prop where
  rows : w.length = rows
  cols : ∀ row ∈ w, row.length = cols

inductive Dim where
  | rows
  | columns
  deriving DecidableEq

def chunk (dim : Dim) (chunks : Nat) (w : Weight α) : List (Weight α) :=
  match dim with
  | .rows => split ((w.length + chunks - 1) / chunks) w
  | .columns =>
    let size := (width w + chunks - 1) / chunks
    (List.range (max 1 ((width w + size - 1) / size))).map (fun i => w.map (block size i))

def concat (dim : Dim) (ws : List (Weight α)) : Py (Weight α) :=
  match ws with
  | [] => .error (.runtime "expected a non-empty list of Tensors")
  | first :: rest =>
    match dim with
    | .rows =>
      if rest.all (fun w => width w == width first) then .ok (first :: rest).flatten
      else .error (.runtime "Sizes of tensors must match except in dimension 0")
    | .columns =>
      if rest.all (fun w => w.length == first.length) then
        .ok (rest.foldl (List.zipWith (· ++ ·)) first)
      else .error (.runtime "Sizes of tensors must match except in dimension 1")

def copyRows (start stop : Nat) (part buffer : Weight α) : Py (Weight α) :=
  if part.length = (slice start stop buffer).length then
    .ok (buffer.take start ++ part ++ buffer.drop stop)
  else .error (.runtime "The size of tensor a must match the size of tensor b")

structure Config where
  hiddenSize : Nat
  numAttentionHeads : Nat
  numKeyValueHeads : Nat
  intermediateSize : Nat
  vocabSize : Nat
  numHiddenLayers : Nat

def Config.hiddenSizePerHead (config : Config) : Nat := config.hiddenSize / config.numAttentionHeads

section Cut

variable (config : Config) (tpSize : Nat)

def qSizeTp : Nat := config.hiddenSize / tpSize

def kvSizeTp : Nat :=
  if config.numKeyValueHeads ≥ tpSize then
    config.hiddenSizePerHead * config.numKeyValueHeads / tpSize
  else config.hiddenSizePerHead

def totalSize : Nat := qSizeTp config tpSize + 2 * kvSizeTp config tpSize

def kvStart (i : Nat) : Nat :=
  if config.numKeyValueHeads ≥ tpSize then i * kvSizeTp config tpSize
  else i * config.numKeyValueHeads / tpSize * config.hiddenSizePerHead

def kvStop (i : Nat) : Nat :=
  if config.numKeyValueHeads ≥ tpSize then (i + 1) * kvSizeTp config tpSize
  else (i * config.numKeyValueHeads / tpSize + 1) * config.hiddenSizePerHead

/-- `torch.cat([q_part, k_part, v_part], dim=0)` of rank `i`. -/
def qkvPart (q k v : Weight α) (i : Nat) : Weight α :=
  slice (i * qSizeTp config tpSize) ((i + 1) * qSizeTp config tpSize) q ++
    slice (kvStart config tpSize i) (kvStop config tpSize i) k ++
    slice (kvStart config tpSize i) (kvStop config tpSize i) v

/-- A buffer of `total * tp_size` rows, filled block by block and cut again. -/
def fillAndChunk (garbage : α) (total : Nat) (part : Nat → Weight α) : Py (List (Weight α)) := do
  let empty := List.replicate (total * tpSize) (List.replicate config.hiddenSize garbage)
  let full ← (List.range tpSize).foldlM (fun buffer i =>
    copyRows (i * total) ((i + 1) * total) (part i) buffer) empty
  return chunk .rows tpSize full

/-- `tensor_chunk` of `_broadcast_tp_shard_tensor_qkv` in the loader. -/
def chunkQkv (garbage : α) (q k v : Weight α) : Py (List (Weight α)) :=
  fillAndChunk config tpSize garbage (totalSize config tpSize) (qkvPart config tpSize q k v)

def intermediateSizeTp : Nat := config.intermediateSize / tpSize

def gateUpPart (gate up : Weight α) (i : Nat) : Weight α :=
  slice (i * intermediateSizeTp config tpSize) ((i + 1) * intermediateSizeTp config tpSize) gate ++
    slice (i * intermediateSizeTp config tpSize) ((i + 1) * intermediateSizeTp config tpSize) up

/-- `tensor_chunk` of `_broadcast_tp_shard_tensor_gate_up` in the loader. -/
def chunkGateUp (garbage : α) (gate up : Weight α) : Py (List (Weight α)) :=
  fillAndChunk config tpSize garbage (intermediateSizeTp config tpSize * 2)
    (gateUpPart config tpSize gate up)

/-- The ranks whose key and value heads the saver takes: a head that several ranks hold
is taken from the first of them. -/
def keptRanks : List Nat :=
  if config.numKeyValueHeads ≥ tpSize then List.range tpSize
  else (List.range tpSize).filter (fun i => i * config.numKeyValueHeads % tpSize = 0)

/-- The three lists of `_broadcast_tp_shard_tensor_qkv` in the saver, put together. -/
def mergeQkv (full : Weight α) : Py (Weight α × Weight α × Weight α) := do
  let qSize := qSizeTp config tpSize
  let kvSize := kvSizeTp config tpSize
  let total := totalSize config tpSize
  let part := fun i => slice (i * total) ((i + 1) * total) full
  let q ← concat .rows ((List.range tpSize).map (fun i => slice 0 qSize (part i)))
  let k ← concat .rows
    ((keptRanks config tpSize).map (fun i => slice qSize (qSize + kvSize) (part i)))
  let v ← concat .rows
    ((keptRanks config tpSize).map (fun i => slice (qSize + kvSize) total (part i)))
  return (q, k, v)

/-- `gate_weight_list` and `up_weight_list` of the saver, put together. -/
def mergeGateUp (full : Weight α) : Py (Weight α × Weight α) := do
  let size := intermediateSizeTp config tpSize
  let part := fun i => slice (size * 2 * i) (size * 2 * (i + 1)) full
  let gate ← concat .rows ((List.range tpSize).map (fun i => (part i).take size))
  let up ← concat .rows ((List.range tpSize).map (fun i => (part i).drop size))
  return (gate, up)

end Cut

end Verl.Llama
