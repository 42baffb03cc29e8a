import Verl.Protocol.Rows

/-! The collectives that move a `DataProto` between ranks, seen from one rank of a
group: what it holds itself, and what the group holds in rank order. -/
namespace Verl.Protocol

variable {τ ω μ : Type}

def broadcastDictTensor (own src : Option (TensorDict τ)) : Py (Option (TensorDict τ)) :=
  match own, src with
  | some own, some src =>
    if own.batchSize = src.batchSize ∧
        own.tensors.mapKV (fun _ column => column.shape) = src.tensors.mapKV (fun _ column =>
          column.shape) then
      .ok (some src)
    else .error (.runtime "broadcast of tensors of different shapes")
  | _, _ => .error (.attribute "sorted_keys")

def allgatherDictTensors (own : Option (TensorDict τ)) (group : List (Option (TensorDict τ))) :
    Py (Option (TensorDict τ)) :=
  match own with
  | none => .error (.attribute "contiguous")
  | some own => do
    let members ← group.mapM DataProto.requireBatch
    let output ← own.tensors.mapKVM (fun key _ => TensorDict.catKey members key)
    let output ← TensorDict.new output (own.batchSize * members.length)
    return some output

def allGatherDataProto (own : DataProto τ ω μ) (group : List (DataProto τ ω μ)) :
    Py (DataProto τ ω μ) := do
  let batch ← allgatherDictTensors own.batch (group.map DataProto.batch)
  let nonTensorBatch ← own.nonTensorBatch.mapKVM (fun key _ => do
    let columns ← group.mapM (fun data => data.nonTensorBatch.getItem key)
    Column.concat columns)
  return { own with batch := batch, nonTensorBatch := nonTensorBatch }

theorem broadcastDictTensor_self (batch : TensorDict τ) :
    broadcastDictTensor (some batch) (some batch) = .ok (some batch) := by
  simp [broadcastDictTensor]

theorem allgather_pickRows (batch : TensorDict τ) (idxs : List (List Nat)) (own : List Nat)
    (nonempty : idxs ≠ []) (insideOwn : ∀ i ∈ own, i < batch.batchSize)
    (inside : ∀ idx ∈ idxs, ∀ i ∈ idx, i < batch.batchSize)
    (equal : ∀ idx ∈ idxs, idx.length = own.length) :
    allgatherDictTensors (some (batch.pickRows own))
      (idxs.map (fun idx => some (batch.pickRows idx))) =
      .ok (some (batch.pickRows idxs.flatten)) := by
  have members : (idxs.map (fun idx => some (batch.pickRows idx))).mapM DataProto.requireBatch =
      .ok (idxs.map (fun idx => batch.pickRows idx)) := by
    rw [List.mapM_map]
    exact mapM_ok _ _ _ (fun _ _ => rfl)
  have columns : (batch.pickRows own).tensors.mapKVM
      (fun key _ => TensorDict.catKey (idxs.map (fun idx => batch.pickRows idx)) key) =
      .ok (batch.pickRows idxs.flatten).tensors := by
    simp only [TensorDict.pickRows, Dict.mapKVM_mapKV]
    apply Dict.mapKVM_ok
    exact fun e member => TensorDict.catKey_pickRows batch nonempty member
  have all : ∀ i ∈ idxs.flatten, i < batch.batchSize := by
    intro i member
    obtain ⟨idx, hidx, hi⟩ := List.mem_flatten.mp member
    exact inside idx hidx i hi
  have size : (batch.pickRows own).batchSize * (idxs.map (fun idx => batch.pickRows idx)).length =
      (batch.pickRows idxs.flatten).batchSize := by
    rw [TensorDict.batchSize_pickRows insideOwn, TensorDict.batchSize_pickRows all,
      List.length_flatten, List.map_congr_left equal]
    simp [Nat.mul_comm]
  simp only [allgatherDictTensors, members, ok_bind, columns, size]
  rw [TensorDict.new, dif_pos (batch.pickRows idxs.flatten).aligned]
  rfl

theorem allGatherDataProto_pickRows {n : Nat} {x : DataProto τ ω μ} (aligned : x.Aligned n)
    (tensors : x.batch.isSome = true) {idxs : List (List Nat)} {own : List Nat}
    (nonempty : idxs ≠ []) (insideOwn : ∀ i ∈ own, i < n) (inside : ∀ idx ∈ idxs, ∀ i ∈ idx, i < n)
    (equal : ∀ idx ∈ idxs, idx.length = own.length) :
    allGatherDataProto (x.pickRows own) (idxs.map (fun idx => x.pickRows idx)) =
      .ok (x.pickRows idxs.flatten) := by
  obtain ⟨batch, present⟩ := Option.isSome_iff_exists.mp tensors
  have size : batch.batchSize = n := aligned.batch batch present
  have gathered := allgather_pickRows batch idxs own nonempty (size ▸ insideOwn)
    (size ▸ inside) equal
  have batches : (idxs.map (fun idx => x.pickRows idx)).map DataProto.batch =
      idxs.map (fun idx => some (batch.pickRows idx)) := by
    simp [DataProto.pickRows, present]
  have columns : (x.pickRows own).nonTensorBatch.mapKVM (fun key _ => do
      let columns ← (idxs.map (fun idx => x.pickRows idx)).mapM (fun data =>
        data.nonTensorBatch.getItem key)
      Column.concat columns) = .ok (x.pickRows idxs.flatten).nonTensorBatch := by
    simp only [DataProto.pickRows, Dict.mapKVM_mapKV]
    apply Dict.mapKVM_ok
    intro e member
    have items : (idxs.map (fun idx => x.pickRows idx)).mapM
      (fun data => data.nonTensorBatch.getItem e.1) =
        .ok (idxs.map (fun idx => e.2.pickRows idx)) := by
      rw [List.mapM_map]
      apply mapM_ok
      intro idx _
      simp [Dict.getItem, DataProto.pickRows, Dict.get?_of_mem member]
    simp only [DataProto.pickRows] at items
    rw [items, ok_bind, Column.concat_pickRows e.2 nonempty]
  have cut : (x.pickRows own).batch = some (batch.pickRows own) := by
    simp [DataProto.pickRows, present]
  rw [allGatherDataProto, cut, batches, gathered, ok_bind, columns]
  simp [DataProto.pickRows, present]

end Verl.Protocol
