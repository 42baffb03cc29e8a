import Verl.Protocol.Collectives

/-! `select`, `pop`, `rename`, `union` and slicing of `verl/protocol.py`, on the parts they
touch: the tensors, the object columns and `meta_info` are three dictionaries. -/
namespace Verl.Protocol

variable {β τ ω μ : Type}

/-- `for key in keys: assert key in d.keys(); out[key] = d.pop(key)`: what is left and `out`. -/
def popKeys (d : Dict β) (keys : List String) : Py (Dict β × Dict β) :=
  keys.foldlM (fun (left, out) key => do
    pyAssert (left.contains key) ""
    let (value, left) ← left.pop key
    return (left, out.set key value)) (d, .empty)

def filterKeys (d : Dict β) (keys : List String) : Dict β :=
  ⟨d.entries.filter (fun e => keys.contains e.1),
    d.distinct.sublist (List.filter_sublist.map Prod.fst)⟩

def unionTwoDict [DecidableEq β] (dict1 dict2 : Dict β) : Py (Dict β) :=
  dict2.entries.foldlM (fun dict1 (key, val) => do
    pyAssert (dict1.get? key = none || dict1.get? key = some val)
      s!"{key} in meta_dict1 and meta_dict2 are not the same object"
    return dict1.set key val) dict1

def unionTensorDict [DecidableEq τ] (tensorDict1 tensorDict2 : TensorDict τ) :
    Py (TensorDict τ) := do
  let size1 := tensorDict1.batchSize
  let size2 := tensorDict2.batchSize
  pyAssert (size1 == size2)
    s!"Two tensor dict must have identical batch size. Got {size1} and {size2}"
  tensorDict2.tensors.entries.foldlM (fun tensorDict1 (key, tensor) =>
    match tensorDict1.tensors.get? key with
    | none => tensorDict1.setItem key tensor
    | some own => do
      pyAssert (own = tensor) s!"{key} in tensor_dict1 and tensor_dict2 are not the same object"
      return tensorDict1) tensorDict1

def unionNumpyDict (equals : Column ω → Column ω → Bool)
    (tensorDict1 tensorDict2 : Dict (Column ω)) :
    Py (Dict (Column ω)) :=
  tensorDict2.entries.foldlM (fun tensorDict1 (key, val) => do
    match tensorDict1.get? key with
    | some own =>
      pyAssert (equals val own) s!"{key} in tensor_dict1 and tensor_dict2 are not the same object"
    | none => .ok ()
    return tensorDict1.set key val) tensorDict1

namespace TensorDict

def select (td : TensorDict τ) (keys : List String) : Py (TensorDict τ) := do
  let tensors ← keys.foldlM (fun (out : Dict (Column τ)) key => do
    let tensor ← td.tensors.getItem key
    return out.set key tensor) .empty
  new tensors td.batchSize

/-- `td.rename_key_(old_keys, new_keys)`: a tuple is one key, and one of several strings
names a nested entry, which a flat `TensorDict` does not have. -/
def renameKey (td : TensorDict τ) (oldKeys newKeys : List String) : Py (TensorDict τ) :=
  if oldKeys = newKeys then .ok td else
  match oldKeys, newKeys with
  | [oldKey], [newKey] => do
    let tensor ← td.tensors.getItem oldKey
    new ((td.tensors.set newKey tensor).erase oldKey) td.batchSize
  | _, _ => .error (.key "nested")

end TensorDict

/-- The positions of `[start:stop:step]` in a sequence of `n` entries. -/
def pySlice (start stop step : Option Int) (n : Nat) : Py (List Nat) :=
  let clamp := fun (i : Int) => if i < 0 then (i + n).toNat else min i.toNat n
  let lower := (start.map clamp).getD 0
  let upper := (stop.map clamp).getD n
  let stride := step.getD 1
  if stride ≤ 0 then .error (.value "step must be greater than zero")
  else .ok (List.range' lower ((upper - lower + stride.toNat - 1) / stride.toNat) stride.toNat)

namespace DataProto

def fromDict (tensors : Dict (Column τ)) (nonTensors : Dict (Column ω)) (metaInfo : Dict μ) :
    Py (DataProto τ ω μ) :=
  match tensors.entries with
  | [] => .error (.assertion "tensors must not be empty")
  | (pivotKey, pivot) :: rest => do
    let batchSize := pivot.rows.length
    rest.forM (fun (key, tensor) =>
      let currentBatch := tensor.rows.length
      pyAssert (batchSize == currentBatch)
        s!"Not all the tensor in tensors have the same batch size with batch_dims=1. Got {pivotKey} has {batchSize}, {key} has {currentBatch}")
    let tensorDict ← TensorDict.new tensors batchSize
    new (some tensorDict) nonTensors metaInfo

def getSlice (self : DataProto τ ω μ) (start stop step : Option Int) : Py (DataProto τ ω μ) :=
  match self.batch with
  | none => .error (.type "'NoneType' object is not subscriptable")
  | some batch => do
    let item ← pySlice start stop step batch.batchSize
    let nonTensorData ← self.nonTensorBatch.mapKVM (fun _ val => do
      let item ← pySlice start stop step val.rows.length
      return val.pickRows item)
    new (some (batch.pickRows item)) nonTensorData self.metaInfo

end DataProto

end Verl.Protocol
