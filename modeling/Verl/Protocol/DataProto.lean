import Mathlib.Algebra.GroupWithZero.Nat
import Verl.Base.Dict
import Verl.Base.Reindex

/-! `verl/protocol.py`: `DataProto`, a `TensorDict` with object columns beside it.
A column is read along dim 0; the trailing shape is what concatenation compares.
Tensor cells and object cells are type parameters, and so is a `meta_info` value. -/
namespace Verl.Protocol

/-- A tensor or an object array: one entry of `rows` for each index of dim 0. -/
structure Column (α : Type) where
  shape : List Nat
  rows : List α
  deriving DecidableEq

def Column.pickRows {α : Type} (idx : List Nat) (column : Column α) : Column α :=
  ⟨column.shape, pick column.rows idx⟩

def Column.concat {α : Type} (columns : List (Column α)) : Py (Column α) :=
  match columns with
  | [] => .error (.value "need at least one array to concatenate")
  | first :: rest =>
    if rest.all (fun column => column.shape = first.shape) then
      .ok ⟨first.shape, columns.flatMap Column.rows⟩
    else .error (.value
      "all the input array dimensions except for the concatenation axis must match exactly")

/-- `np.array_split(val, sections)`: the first `len % sections` pieces are one longer. -/
def Column.arraySplit {α : Type} (sections : Nat) (column : Column α) : List (Column α) :=
  let n := column.rows.length
  (List.range sections).map (fun i =>
    ⟨column.shape, slice (i * (n / sections) + min i (n % sections))
      ((i + 1) * (n / sections) + min (i + 1) (n % sections)) column.rows⟩)

structure TensorDict (τ : Type) where
  batchSize : Nat
  tensors : Dict (Column τ)
  aligned : ∀ e ∈ tensors.entries, e.2.rows.length = batchSize
  deriving DecidableEq

namespace TensorDict

variable {τ : Type}

@[ext] theorem ext {a b : TensorDict τ} (size : a.batchSize = b.batchSize)
    (tensors : a.tensors = b.tensors) :
    a = b := by
  cases a
  cases b
  cases size
  cases tensors
  rfl

def new (tensors : Dict (Column τ)) (batchSize : Nat) : Py (TensorDict τ) :=
  if aligned : ∀ e ∈ tensors.entries, e.2.rows.length = batchSize then
    .ok ⟨batchSize, tensors, aligned⟩
  else .error (.runtime "batch dimension mismatch")

theorem length_pick_filter {α : Type} (xs : List α) (idx : List Nat) :
    (pick xs idx).length = (idx.filter (· < xs.length)).length := by
  induction idx with
  | nil => rfl
  | cons i idx ih =>
    by_cases hi : i < xs.length
    · simp [pick_cons hi, hi, ih]
    · simp [pick_skip (Nat.le_of_not_lt hi), hi, ih]

def pickRows (idx : List Nat) (td : TensorDict τ) : TensorDict τ where
  batchSize := (idx.filter (· < td.batchSize)).length
  tensors := td.tensors.mapKV (fun _ column => column.pickRows idx)
  aligned e member := by
    obtain ⟨source, hsource, rfl⟩ := List.mem_map.mp member
    rw [← td.aligned source hsource]
    exact length_pick_filter source.2.rows idx

def slice (td : TensorDict τ) (start stop : Nat) : TensorDict τ :=
  td.pickRows (List.range' start (stop - start))

def split (td : TensorDict τ) (splitSize : Nat) : List (TensorDict τ) :=
  (List.range (max 1 ((td.batchSize + splitSize - 1) / splitSize))).map (fun j =>
    td.slice (j * splitSize) ((j + 1) * splitSize))

/-- `td.chunk(chunks, dim=0)`, which splits by the rounded-up size. -/
def chunk (td : TensorDict τ) (chunks : Nat) : Py (List (TensorDict τ)) :=
  if chunks = 0 then .error (.value "chunks must be a strictly positive integer")
  else .ok (td.split ((td.batchSize + chunks - 1) / chunks))

def catKey (tds : List (TensorDict τ)) (key : String) : Py (Column τ) := do
  let columns ← tds.mapM (fun td => td.tensors.getItem key)
  Column.concat columns

/-- `torch.cat(tds, dim=0)`: the keys must be the same in all of them. -/
def cat (tds : List (TensorDict τ)) : Py (TensorDict τ) :=
  match tds with
  | [] => .error (.runtime "expected a non-empty list of tensordicts")
  | first :: rest => do
    if rest.all (fun td => td.tensors.keys.all first.tensors.contains &&
        first.tensors.keys.all td.tensors.contains) then
      let tensors ← first.tensors.mapKVM (fun key _ => catKey tds key)
      new tensors (tds.map batchSize).sum
    else .error (.key "keys")

def setItem (td : TensorDict τ) (key : String) (column : Column τ) : Py (TensorDict τ) :=
  if length : column.rows.length = td.batchSize then
    .ok ⟨td.batchSize, td.tensors.set key column, fun e member => by
      rcases Dict.mem_set member with old | rfl
      · exact td.aligned e old
      · exact length⟩
  else .error (.runtime "batch dimension mismatch")

end TensorDict

structure DataProto (τ ω μ : Type) where
  batch : Option (TensorDict τ)
  nonTensorBatch : Dict (Column ω)
  metaInfo : Dict μ
  deriving DecidableEq

namespace DataProto

variable {τ ω μ : Type}

def len (self : DataProto τ ω μ) : Nat :=
  match self.batch, self.nonTensorBatch.entries with
  | some batch, _ => batch.batchSize
  | none, (_, column) :: _ => column.rows.length
  | none, [] => 0

def checkConsistency (self : DataProto τ ω μ) : Py PUnit :=
  match self.batch with
  | none => .ok ⟨⟩
  | some batch => self.nonTensorBatch.entries.forM (fun (key, column) =>
      let length := column.rows.length
      let batchSize := batch.batchSize
      pyAssert (length == batchSize)
        s!"key {key} length {length} is not equal to batch size {batchSize}")

/-- `DataProto(batch=.., non_tensor_batch=.., meta_info=..)`, with `__post_init__`. -/
def new (batch : Option (TensorDict τ)) (nonTensorBatch : Dict (Column ω)) (metaInfo : Dict μ) :
    Py (DataProto τ ω μ) := do
  let self : DataProto τ ω μ := ⟨batch, nonTensorBatch, metaInfo⟩
  self.checkConsistency
  return self

def chunkBatch (batch : Option (TensorDict τ)) (chunks : Nat) : Py (List (Option (TensorDict τ))) :=
  match batch with
  | some batch => do
    let pieces ← batch.chunk chunks
    return pieces.map some
  | none => .ok (List.replicate chunks none)

def chunkColumn (chunks i : Nat) (val : Column ω) : Py (Column ω) := do
  let nonTensorLst := val.arraySplit chunks
  pyAssert (nonTensorLst.length == chunks) ""
  pyGet nonTensorLst i

def chunkPiece (self : DataProto τ ω μ) (chunks : Nat)
    (batchLst : List (Option (TensorDict τ))) (i : Nat) :
    Py (DataProto τ ω μ) := do
  let nonTensorBatch ← self.nonTensorBatch.mapKVM (fun _ val => chunkColumn chunks i val)
  let batch ← pyGet batchLst i
  new batch nonTensorBatch self.metaInfo

def chunk (self : DataProto τ ω μ) (chunks : Nat) : Py (List (DataProto τ ω μ)) := do
  let n := self.len
  let remainder ← pyMod n chunks
  pyAssert (remainder == 0)
    s!"only support equal chunk. Got size of DataProto {n} and chunk {chunks}."
  let batchLst ← chunkBatch self.batch chunks
  (List.range chunks).mapM (self.chunkPiece chunks batchLst)

def requireBatch (batch : Option (TensorDict τ)) : Py (TensorDict τ) :=
  match batch with
  | some batch => .ok batch
  | none => .error (.runtime "expected a TensorDict but got None")

/-- `new_batch` of `concat`: `torch.cat` unless the first batch is `None`. -/
def catBatch (batchLst : List (Option (TensorDict τ))) : Py (Option (TensorDict τ)) :=
  match batchLst with
  | some _ :: _ => do
    let batches ← batchLst.mapM requireBatch
    let newBatch ← TensorDict.cat batches
    return some newBatch
  | _ => .ok none

def concatColumns (dicts : List (Dict (Column ω))) : Py (Dict (Column ω)) := do
  let lists ← listOfDictToDictOfList dicts
  lists.mapKVM (fun _ val => Column.concat val)

def concat (data : List (DataProto τ ω μ)) : Py (DataProto τ ω μ) :=
  match data with
  | [] => .error .index
  | first :: _ => do
    let newBatch ← catBatch (data.map batch)
    let nonTensorBatch ← concatColumns (data.map nonTensorBatch)
    new newBatch nonTensorBatch first.metaInfo

def repeatInterleave {α : Type} (n : Nat) (column : Column α) : Column α :=
  ⟨column.shape, column.rows.flatMap (List.replicate n)⟩

def tile {α : Type} (n : Nat) (column : Column α) : Column α :=
  ⟨column.shape, (List.replicate n column.rows).flatten⟩

def repeatColumn {α : Type} (repeatTimes : Nat) (interleave : Bool) (column : Column α) :
    Column α :=
  if interleave then repeatInterleave repeatTimes column else tile repeatTimes column

/-- `tensor.unsqueeze(0).expand(n, *tensor.shape).reshape(-1, *tensor.shape[1:])`. When the trailing
shape has no elements, nothing determines the -1. -/
def expandReshape {α : Type} (n : Nat) (tensor : Column α) : Py (Column α) :=
  if 0 ∈ tensor.shape then
    .error (.runtime "the unspecified dimension size -1 can be any value and is ambiguous")
  else .ok (tile n tensor)

def repeatTensor {α : Type} (repeatTimes : Nat) (interleave : Bool) (tensor : Column α) :
    Py (Column α) :=
  if interleave then .ok (repeatInterleave repeatTimes tensor) else expandReshape repeatTimes tensor

def repeatBatch (batch : Option (TensorDict τ)) (repeatTimes : Nat) (interleave : Bool) :
    Py (Option (TensorDict τ)) :=
  match batch with
  | none => .ok none
  | some batch => do
    let repeatedTensors ← batch.tensors.mapKVM (fun _ tensor =>
      repeatTensor repeatTimes interleave tensor)
    let repeated ← TensorDict.new repeatedTensors (batch.batchSize * repeatTimes)
    return some repeated

/-- `self.reorder(indices)`: indexing on dim 0 of every tensor and every object column. -/
def reorder (self : DataProto τ ω μ) (indices : List Nat) : Py (DataProto τ ω μ) :=
  match self.batch with
  | none => .error (.type "'NoneType' object is not subscriptable")
  | some batch =>
    if indices.all (· < batch.batchSize) then do
      let nonTensorBatch ← self.nonTensorBatch.mapKVM (fun _ val => do
        let rows ← takeRows val.rows indices
        return ⟨val.shape, rows⟩)
      return ⟨some (batch.pickRows indices), nonTensorBatch, self.metaInfo⟩
    else .error .index

end DataProto

def DataProto.repeat {τ ω μ : Type} (self : DataProto τ ω μ) (repeatTimes : Nat)
    (interleave : Bool) :
    Py (DataProto τ ω μ) := do
  let repeatedBatch ← repeatBatch self.batch repeatTimes interleave
  new repeatedBatch
    (self.nonTensorBatch.mapKV (fun _ column => repeatColumn repeatTimes interleave column))
      self.metaInfo

end Verl.Protocol
