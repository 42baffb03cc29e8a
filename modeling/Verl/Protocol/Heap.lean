import Mathlib.Logic.Relation
import Verl.Protocol.Invariant

/-! The objects behind `DataProto`. Two of them may hold one `TensorDict`, one
`non_tensor_batch` or one `meta_info`, and `pop`, `rename`, `union` and the collectives
write through such references, so a run is followed on a heap for each rank. -/
namespace Verl.Protocol

/-- The three attributes of a `DataProto` object, as references. -/
structure Proto where
  batch : Option Nat
  nonTensorBatch : Nat
  metaInfo : Nat
  deriving DecidableEq

structure Heap (τ ω μ : Type) where
  batches : List (TensorDict τ)
  columns : List (Dict (Column ω))
  metas : List (Dict μ)
  protos : List Proto
  deriving DecidableEq

/-- An attribute that a constructor call receives: an object that exists, or a new one. -/
inductive Part (α : Type) where
  | shared (ref : Nat)
  | fresh (value : α)

def Part.place {α : Type} (objects : List α) : Part α → List α × Nat
  | .shared ref => (objects, ref)
  | .fresh value => (objects ++ [value], objects.length)

def Part.placeOption {α : Type} (objects : List α) : Option (Part α) → List α × Option Nat
  | none => (objects, none)
  | some part => ((part.place objects).1, some (part.place objects).2)

namespace Heap

variable {τ ω μ : Type}

def loadBatch (h : Heap τ ω μ) (batch : Option Nat) : Py (Option (TensorDict τ)) :=
  match batch with
  | none => .ok none
  | some ref => do
    let td ← pyGet h.batches ref
    return some td

def load (h : Heap τ ω μ) (p : Proto) : Py (DataProto τ ω μ) := do
  let batch ← h.loadBatch p.batch
  let nonTensorBatch ← pyGet h.columns p.nonTensorBatch
  let metaInfo ← pyGet h.metas p.metaInfo
  return ⟨batch, nonTensorBatch, metaInfo⟩

/-- A new `DataProto` object with the given attributes, and the heap that has it. -/
def attach (h : Heap τ ω μ) (batch : Option (Part (TensorDict τ)))
    (nonTensorBatch : Part (Dict (Column ω))) (metaInfo : Part (Dict μ)) : Heap τ ω μ × Proto :=
  let (batches, batch) := Part.placeOption h.batches batch
  let (columns, nonTensorBatch) := nonTensorBatch.place h.columns
  let (metas, metaInfo) := metaInfo.place h.metas
  let p : Proto := ⟨batch, nonTensorBatch, metaInfo⟩
  (⟨batches, columns, metas, h.protos ++ [p]⟩, p)

/-- `DataProto(batch=.., non_tensor_batch=.., meta_info=..)`, with `__post_init__`. -/
def newProto (h : Heap τ ω μ) (batch : Option (Part (TensorDict τ)))
    (nonTensorBatch : Part (Dict (Column ω))) (metaInfo : Part (Dict μ)) : Py (Heap τ ω μ) := do
  let (h, p) := h.attach batch nonTensorBatch metaInfo
  let self ← h.load p
  self.checkConsistency
  return h

def ofProtos (data : List (DataProto τ ω μ)) : Heap τ ω μ :=
  data.foldl (fun h d =>
    (h.attach (d.batch.map .fresh) (.fresh d.nonTensorBatch) (.fresh d.metaInfo)).1) ⟨[], [], [],
    []⟩

/-- `self.batch = ..; self.non_tensor_batch = ..`, both new objects. -/
def assignParts (h : Heap τ ω μ) (self : Nat) (p : Proto) (data : DataProto τ ω μ) : Heap τ ω μ :=
  let (batches, batch) := Part.placeOption h.batches (data.batch.map .fresh)
  { h with
    batches := batches
    columns := h.columns ++ [data.nonTensorBatch]
    protos := h.protos.set self { p with batch := batch, nonTensorBatch := h.columns.length } }

def selectBatch (p : Proto) (batch : Option (TensorDict τ)) (batchKeys : Option (List String)) :
    Py (Option (Part (TensorDict τ))) :=
  match batchKeys, batch with
  | none, _ => .ok (p.batch.map .shared)
  | some _, none => .error (.attribute "select")
  | some batchKeys, some batch => do
    let subBatch ← batch.select batchKeys
    return some (.fresh subBatch)

def select (h : Heap τ ω μ) (self : Nat)
    (batchKeys nonTensorBatchKeys metaInfoKeys : Option (List String))
    (deepcopy : Bool) : Py (Heap τ ω μ) := do
  let p ← pyGet h.protos self
  let data ← h.load p
  let subBatch ← selectBatch p data.batch batchKeys
  let nonTensorBatch := match nonTensorBatchKeys with
    | some nonTensorBatchKeys => .fresh (filterKeys data.nonTensorBatch nonTensorBatchKeys)
    | none => if deepcopy then .fresh data.nonTensorBatch else .shared p.nonTensorBatch
  let subMetaInfo := match metaInfoKeys with
    | some metaInfoKeys => .fresh (filterKeys data.metaInfo metaInfoKeys)
    | none => if deepcopy then .fresh data.metaInfo else .shared p.metaInfo
  h.newProto subBatch nonTensorBatch subMetaInfo

def pop (h : Heap τ ω μ) (self : Nat)
    (batchKeys nonTensorBatchKeys metaInfoKeys : Option (List String)) :
    Py (Heap τ ω μ) := do
  pyAssert batchKeys.isSome ""
  let p ← pyGet h.protos self
  let data ← h.load p
  match p.batch, data.batch with
  | some ref, some batch => do
    let (leftTensors, tensors) ← popKeys batch.tensors (batchKeys.getD [])
    let (leftColumns, nonTensors) ← popKeys data.nonTensorBatch (nonTensorBatchKeys.getD [])
    let (leftMeta, metaInfo) ← popKeys data.metaInfo (metaInfoKeys.getD [])
    let left ← TensorDict.new leftTensors batch.batchSize
    let popped ← DataProto.fromDict tensors nonTensors metaInfo
    let h : Heap τ ω μ := { h with
      batches := h.batches.set ref left
      columns := h.columns.set p.nonTensorBatch leftColumns
      metas := h.metas.set p.metaInfo leftMeta }
    h.newProto (popped.batch.map .fresh) (.fresh popped.nonTensorBatch) (.fresh popped.metaInfo)
  | _, _ => .error (.attribute "keys")

def rename (h : Heap τ ω μ) (self : Nat) (oldKeys newKeys : List String) : Py (Heap τ ω μ) := do
  let p ← pyGet h.protos self
  let data ← h.load p
  let (new, old) := (newKeys.length, oldKeys.length)
  if new ≠ old then
    .error (.value s!"new_keys and old_keys must have the same length, but got {new} and {old}")
  else match p.batch, data.batch with
    | some ref, some batch => do
      let batch ← batch.renameKey oldKeys newKeys
      return { h with batches := h.batches.set ref batch }
    | _, _ => .error (.attribute "rename_key_")

/-- `union`: the three objects of `self` take what those of `other` have. -/
def union [DecidableEq τ] [DecidableEq μ] (equals : Column ω → Column ω → Bool) (h : Heap τ ω μ)
    (self other : Nat) :
    Py (Heap τ ω μ) := do
  let p ← pyGet h.protos self
  let data ← h.load p
  let q ← pyGet h.protos other
  let otherData ← h.load q
  match p.batch, data.batch, otherData.batch with
  | some ref, some batch, some otherBatch => do
    let batch ← unionTensorDict batch otherBatch
    let nonTensorBatch ← unionNumpyDict equals data.nonTensorBatch otherData.nonTensorBatch
    let metaInfo ← unionTwoDict data.metaInfo otherData.metaInfo
    return { h with
      batches := h.batches.set ref batch
      columns := h.columns.set p.nonTensorBatch nonTensorBatch
      metas := h.metas.set p.metaInfo metaInfo }
  | _, _, _ => .error (.attribute "batch_size")

def newResult (h : Heap τ ω μ) (p : Proto) (data : DataProto τ ω μ) : Py (Heap τ ω μ) :=
  h.newProto (data.batch.map .fresh) (.fresh data.nonTensorBatch) (.shared p.metaInfo)

def getSlice (h : Heap τ ω μ) (self : Nat) (start stop step : Option Int) : Py (Heap τ ω μ) := do
  let p ← pyGet h.protos self
  let data ← h.load p
  let result ← data.getSlice start stop step
  h.newResult p result

def chunk (h : Heap τ ω μ) (self chunks : Nat) : Py (Heap τ ω μ) := do
  let p ← pyGet h.protos self
  let data ← h.load p
  let output ← data.chunk chunks
  output.foldlM (fun h piece => h.newResult p piece) h

def repeatRows (h : Heap τ ω μ) (self repeatTimes : Nat) (interleave : Bool) : Py (Heap τ ω μ) := do
  let p ← pyGet h.protos self
  let data ← h.load p
  let result ← data.repeat repeatTimes interleave
  h.newResult p result

def concat (h : Heap τ ω μ) (data : List Nat) : Py (Heap τ ω μ) := do
  let protos ← data.mapM (fun self => pyGet h.protos self)
  let operands ← protos.mapM h.load
  match protos with
  | [] => .error .index
  | first :: _ => do
    let result ← DataProto.concat operands
    h.newResult first result

def reorder (h : Heap τ ω μ) (self : Nat) (indices : List Nat) : Py (Heap τ ω μ) := do
  let p ← pyGet h.protos self
  let data ← h.load p
  let result ← data.reorder indices
  return h.assignParts self p result

def allGather (h : Heap τ ω μ) (self : Nat) (peers : List (DataProto τ ω μ)) : Py (Heap τ ω μ) := do
  let p ← pyGet h.protos self
  let data ← h.load p
  let result ← allGatherDataProto data peers
  return h.assignParts self p result

/-- `FSDPSGLangShardingManager.preprocess_data`: `data.batch` is gathered, `non_tensor_batch` is
not. -/
def gatherBatch (h : Heap τ ω μ) (self : Nat) (peers : List (DataProto τ ω μ)) :
    Py (Heap τ ω μ) := do
  let p ← pyGet h.protos self
  let data ← h.load p
  let batch ← allgatherDictTensors data.batch (peers.map DataProto.batch)
  let (batches, batch) := Part.placeOption h.batches (batch.map .fresh)
  return { h with batches := batches, protos := h.protos.set self { p with batch := batch } }

/-- `broadcast_dict_tensor(data.batch, src, group)`: the tensors of `data.batch` are overwritten. -/
def broadcast (h : Heap τ ω μ) (self : Nat) (src : DataProto τ ω μ) : Py (Heap τ ω μ) := do
  let p ← pyGet h.protos self
  let data ← h.load p
  match p.batch, (← broadcastDictTensor data.batch src.batch) with
  | some ref, some batch => return { h with batches := h.batches.set ref batch }
  | _, _ => .error (.attribute "sorted_keys")

end Heap

inductive Op where
  | select (self : Nat) (batchKeys nonTensorBatchKeys metaInfoKeys : Option (List String))
    (deepcopy : Bool)
  | pop (self : Nat) (batchKeys nonTensorBatchKeys metaInfoKeys : Option (List String))
  | rename (self : Nat) (oldKeys newKeys : List String)
  | union (self other : Nat)
  | getSlice (self : Nat) (start stop step : Option Int)
  | chunk (self chunks : Nat)
  | concat (data : List Nat)
  | reorder (self : Nat) (indices : List Nat)
  | repeatRows (self repeatTimes : Nat) (interleave : Bool)

/-- The calls that all ranks of a process group make together: the gather itself and
`preprocess_data` of the sharding managers. -/
inductive Collective where
  | allGatherDataProto
  | base
  | fsdpVllm
  | fsdpUlysses (deviceMesh : Bool)
  | fsdpSglang
  | megatronVllm (microDpSize : Nat) (microDpRank : Nat → Nat)

section Run

variable {τ ω μ : Type}

def Op.run [DecidableEq τ] [DecidableEq μ] (equals : Column ω → Column ω → Bool) (h : Heap τ ω μ) :
    Op → Py (Heap τ ω μ)
  | .select self batchKeys nonTensorBatchKeys metaInfoKeys deepcopy =>
    h.select self batchKeys nonTensorBatchKeys metaInfoKeys deepcopy
  | .pop self batchKeys nonTensorBatchKeys metaInfoKeys =>
    h.pop self batchKeys nonTensorBatchKeys metaInfoKeys
  | .rename self oldKeys newKeys => h.rename self oldKeys newKeys
  | .union self other => h.union equals self other
  | .getSlice self start stop step => h.getSlice self start stop step
  | .chunk self chunks => h.chunk self chunks
  | .concat data => h.concat data
  | .reorder self indices => h.reorder self indices
  | .repeatRows self repeatTimes interleave => h.repeatRows self repeatTimes interleave

/-- The call on one rank; `peers` is what the ranks of the group pass, in group order. -/
def Collective.run (h : Heap τ ω μ) (rank self : Nat) (peers : List (DataProto τ ω μ)) :
    Collective → Py (Heap τ ω μ)
  | .allGatherDataProto => h.allGather self peers
  | .base => .ok h
  | .fsdpVllm => if peers.length = 1 then .ok h else h.allGather self peers
  | .fsdpUlysses deviceMesh => if deviceMesh then h.allGather self peers else .ok h
  | .fsdpSglang => h.gatherBatch self peers
  | .megatronVllm microDpSize microDpRank => do
    let src ← pyGet peers 0
    let received ← h.broadcast self src
    if 1 < microDpSize then
      let chunked ← received.chunk self microDpSize
      let _ ← pyGet (chunked.protos.drop received.protos.length) (microDpRank rank)
      return chunked
    else return received

def peersOf (ranks : Nat → Heap τ ω μ) (group : List Nat) (data : Nat → Nat) :
    Py (List (DataProto τ ω μ)) :=
  group.mapM (fun rank => do
    let p ← pyGet (ranks rank).protos (data rank)
    (ranks rank).load p)

inductive Event where
  | single (rank : Nat) (op : Op)
  | collective (call : Collective) (group : List Nat) (data : Nat → Nat)

/-- One call that returns normally: on one rank, or on all ranks of a group. -/
inductive Step [DecidableEq τ] [DecidableEq μ] (equals : Column ω → Column ω → Bool)
    (ranks : Nat → Heap τ ω μ) :
    Event → (Nat → Heap τ ω μ) → Prop where
  | single {rank : Nat} {op : Op} {h : Heap τ ω μ} (run : op.run equals (ranks rank) = .ok h) :
    Step equals ranks (.single rank op) (Function.update ranks rank h)
  | collective {call : Collective} {group : List Nat} {data : Nat → Nat}
    {peers : List (DataProto τ ω μ)}
    {after : Nat → Heap τ ω μ} (passed : peersOf ranks group data = .ok peers)
    (run : ∀ rank ∈ group, call.run (ranks rank) rank (data rank) peers = .ok (after rank))
    (others : ∀ rank, rank ∉ group → after rank = ranks rank) :
    Step equals ranks (.collective call group data) after

/-- Every `DataProto` object on every rank has one number of rows in all its columns. -/
def AllAligned (ranks : Nat → Heap τ ω μ) : Prop :=
  ∀ rank, ∀ p ∈ (ranks rank).protos, ∃ d n, (ranks rank).load p = .ok d ∧ d.Aligned n

end Run

end Verl.Protocol
