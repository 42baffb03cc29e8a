import Verl.Protocol.Rows

/-! A registered method of a worker group: `dispatch_fn` cuts the arguments, every
worker runs the method on its share, `collect_fn` puts the outputs together
(`decorator.py`, `func_generator`, `execute_all`), eagerly or through a
`DataProtoFuture`. Keyword arguments are treated as further positional ones. -/
namespace Verl.SingleController
open Protocol

variable {τ ω μ : Type}

abbrev ObjectRef (τ ω μ : Type) := Py (DataProto τ ω μ)

def rayGet (refs : List (ObjectRef τ ω μ)) : Py (List (DataProto τ ω μ)) := refs.mapM id

structure DataProtoFuture (τ ω μ : Type) where
  collectFn : List (DataProto τ ω μ) → Py (DataProto τ ω μ)
  futures : List (ObjectRef τ ω μ)
  dispatchFn : Option (DataProto τ ω μ → Py (DataProto τ ω μ))

namespace DataProtoFuture

def concat (data : List (ObjectRef τ ω μ)) : DataProtoFuture τ ω μ := ⟨DataProto.concat, data, none⟩

def chunkAt (chunks i : Nat) (x : DataProto τ ω μ) : Py (DataProto τ ω μ) := do
  let pieces ← x.chunk chunks
  pyGet pieces i

def chunk (self : DataProtoFuture τ ω μ) (chunks : Nat) : List (DataProtoFuture τ ω μ) :=
  (List.range chunks).map (fun i => { self with dispatchFn := some (chunkAt chunks i) })

def get (self : DataProtoFuture τ ω μ) : Py (DataProto τ ω μ) := do
  let output ← rayGet self.futures
  let output ← self.collectFn output
  match self.dispatchFn with
  | none => .ok output
  | some dispatchFn => dispatchFn output

end DataProtoFuture

inductive Arg (τ ω μ : Type) where
  | proto (x : DataProto τ ω μ)
  | future (x : DataProtoFuture τ ω μ)

def Arg.chunk (chunks : Nat) : Arg τ ω μ → Py (List (Arg τ ω μ))
  | .proto x => do
    let pieces ← x.chunk chunks
    return pieces.map .proto
  | .future x => .ok ((x.chunk chunks).map .future)

def Arg.materialize : Arg τ ω μ → Py (DataProto τ ω μ)
  | .proto x => .ok x
  | .future x => x.get

def splitArgs (chunks : Nat) (args : List (Arg τ ω μ)) : Py (List (List (Arg τ ω μ))) :=
  args.mapM (Arg.chunk chunks)

/-- A `dispatch_fn` with its `collect_fn`, up to the concatenation of the outputs. -/
structure DispatchMode (τ ω μ : Type) where
  dispatch : List (Arg τ ω μ) → Py (List (List (Arg τ ω μ)))
  collect : {O : Type} → List O → Py (List O)

def dpComputeProto (worldSize : Nat) : DispatchMode τ ω μ where
  dispatch := splitArgs worldSize
  collect output := do
    pyAssert (output.length == worldSize) ""
    return output

/-- `execute_all_async`: lists of the group's length are handed out entry by entry,
anything else goes to every worker as it is. -/
def executeAll {A R : Type} (worldSize : Nat) (call : List (A ⊕ List A) → R)
    (args : List (List A)) : List R :=
  if args.all (fun arg => arg.length == worldSize) then
    (List.range worldSize).map (fun i => call (args.filterMap (fun arg => arg[i]?.map .inl)))
  else List.replicate worldSize (call (args.map .inr))

/-- The wrapper that `register` puts around a method on `DataProto`s. -/
def registered (func : List (DataProto τ ω μ) → Py (DataProto τ ω μ))
    (args : List (Arg τ ω μ ⊕ List (Arg τ ω μ))) :
    Py (DataProto τ ω μ) := do
  let args ← args.mapM (fun arg => match arg with
    | .inl arg => arg.materialize
    | .inr _ => .error (.attribute "batch"))
  func args

section Call

variable (mode : DispatchMode τ ω μ) (worldSize : Nat)
  (func : List (DataProto τ ω μ) → Py (DataProto τ ω μ))

def call (args : List (Arg τ ω μ)) : Py (DataProto τ ω μ) := do
  let args ← mode.dispatch args
  let output ← rayGet (executeAll worldSize (registered func) args)
  let output ← mode.collect output
  DataProto.concat output

def callAsync (args : List (Arg τ ω μ)) : Py (DataProtoFuture τ ω μ) := do
  let args ← mode.dispatch args
  let output ← mode.collect (executeAll worldSize (registered func) args)
  if output.isEmpty then .error .index else .ok (DataProtoFuture.concat output)

end Call

/-- A blocking call of a method whose ranks communicate: `run` is the joint run of
all ranks on their arguments. -/
def callJoint (mode : DispatchMode τ ω μ)
    (run : List (DataProto τ ω μ) → Py (List (DataProto τ ω μ)))
    (arg : Arg τ ω μ) : Py (DataProto τ ω μ) := do
  let args ← mode.dispatch [arg]
  let inputs ← args.flatten.mapM Arg.materialize
  let output ← run inputs
  let output ← mode.collect output
  DataProto.concat output

def unary (f : DataProto τ ω μ → Py (DataProto τ ω μ)) :
    List (DataProto τ ω μ) → Py (DataProto τ ω μ)
  | [x] => f x
  | _ => .error (.value "takes 1 positional argument")

/-- On the rows of `x`, the output has one row for each input row and commutes with
selecting rows: each output row depends on its input row alone, and the columns are
always the same. -/
def RowWise (f : DataProto τ ω μ → Py (DataProto τ ω μ)) (x : DataProto τ ω μ) : Prop :=
  ∃ y, f x = .ok y ∧ y.Aligned x.len ∧
    ∀ idx, idx ≠ [] → (∀ i ∈ idx, i < x.len) → ∃ z, f (x.pickRows idx) = .ok z ∧
      z.SameColumns (y.pickRows idx)

theorem executeAll_single {A R : Type} {worldSize : Nat} (call : List (A ⊕ List A) → R)
    {arg : List A} (length : arg.length = worldSize) :
    executeAll worldSize call [arg] = arg.map (fun a => call [.inl a]) := by
  subst length
  simp only [executeAll, List.all_cons, beq_self_eq_true, List.all_nil, Bool.and_self, if_true]
  apply List.ext_getElem (by simp)
  intro i hi _
  have inside : i < arg.length := by simpa using hi
  simp [List.getElem?_eq_getElem inside]

theorem registered_inl (func : List (DataProto τ ω μ) → Py (DataProto τ ω μ)) (arg : Arg τ ω μ) :
    registered func [.inl arg] = arg.materialize >>= fun x => func [x] := by
  simp only [registered, List.mapM_cons, List.mapM_nil]
  cases arg.materialize with
  | error e => rfl
  | ok x => rfl

theorem rayGet_ok (outputs : List (DataProto τ ω μ)) : rayGet (outputs.map .ok) = .ok outputs := by
  rw [rayGet, List.mapM_map]
  simpa using mapM_ok (fun x : DataProto τ ω μ => (.ok x : Py _)) id outputs (fun _ _ => rfl)

theorem outputs_of_rowWise {f : DataProto τ ω μ → Py (DataProto τ ω μ)} {x y : DataProto τ ω μ}
    (each : ∀ idx, idx ≠ [] → (∀ i ∈ idx, i < x.len) →
      ∃ z, f (x.pickRows idx) = .ok z ∧ z.SameColumns (y.pickRows idx))
    (idxs : List (List Nat)) (nonempty : ∀ idx ∈ idxs, idx ≠ [])
    (inside : ∀ idx ∈ idxs, ∀ i ∈ idx, i < x.len) :
    ∃ outputs, idxs.map (fun idx => f (x.pickRows idx)) = outputs.map .ok ∧
      List.Forall₂ DataProto.SameColumns outputs (idxs.map (fun idx => y.pickRows idx)) := by
  induction idxs with
  | nil => exact ⟨[], rfl, .nil⟩
  | cons idx idxs ih =>
    obtain ⟨z, hz, same⟩ := each idx (nonempty idx (by simp)) (inside idx (by simp))
    obtain ⟨outputs, houtputs, later⟩ :=
      ih (fun i hi => nonempty i (by simp [hi])) (fun i hi => inside i (by simp [hi]))
    exact ⟨z :: outputs, by simp [hz, houtputs], .cons same later⟩

theorem concat_outputs {n : Nat} {y : DataProto τ ω μ} (aligned : y.Aligned n)
    {idxs : List (List Nat)}
    (whole : idxs.flatten = List.range n) (nonempty : idxs ≠ []) {outputs : List (DataProto τ ω μ)}
    (same : List.Forall₂ DataProto.SameColumns outputs (idxs.map (fun idx => y.pickRows idx))) :
    ∃ out, DataProto.concat outputs = .ok out ∧ out.SameColumns y := by
  have inside : ∀ idx ∈ idxs, ∀ i ∈ idx, i < n := by
    intro idx hidx i hi
    have member : i ∈ idxs.flatten := List.mem_flatten.mpr ⟨idx, hidx, hi⟩
    rw [whole] at member
    exact List.mem_range.mp member
  cases outputs with
  | nil => exact absurd (by simpa using same) nonempty
  | cons first rest =>
    refine ⟨_, DataProto.concat_pickRows aligned inside same, ?_⟩
    rw [whole, DataProto.pickRows_range aligned]
    exact ⟨rfl, rfl⟩

theorem length_chunk {x : DataProto τ ω μ} {chunks : Nat} {pieces : List (DataProto τ ω μ)}
    (returned : x.chunk chunks = .ok pieces) : pieces.length = chunks := by
  simp only [DataProto.chunk, bind_ok_iff] at returned
  obtain ⟨_, _, _, _, batchLst, _, run⟩ := returned
  have length := length_mapM_ok run
  simpa using length

theorem chunkAt_eq {n : Nat} {x : DataProto τ ω μ} (aligned : x.Aligned n) (len : x.len = n)
    {chunks size i : Nat} (hi : i < chunks) (nonempty : 0 < size) (length : n = chunks * size) :
    DataProtoFuture.chunkAt chunks i x = .ok (x.pickRows (blockIdx size i)) := by
  simp only [DataProtoFuture.chunkAt,
    DataProto.chunk_eq aligned len (Nat.zero_lt_of_lt hi) nonempty length, ok_bind]
  exact pyGet_map_range _ hi

theorem get_chunk {x : DataProtoFuture τ ω μ} {out : DataProto τ ω μ}
    (undispatched : x.dispatchFn = none) (got : x.get = .ok out) (chunks : Nat) :
    (x.chunk chunks).map DataProtoFuture.get =
      (List.range chunks).map (fun i => DataProtoFuture.chunkAt chunks i out) := by
  simp only [DataProtoFuture.chunk, List.map_map]
  apply List.map_congr_left
  intro i _
  simp only [DataProtoFuture.get, undispatched, bind_ok_iff, Except.ok.injEq] at got
  obtain ⟨outputs, fetched, collected, hcollected, rfl⟩ := got
  simp [DataProtoFuture.get, fetched, hcollected]

theorem call_future {x : DataProtoFuture τ ω μ} {out : DataProto τ ω μ}
    (undispatched : x.dispatchFn = none) (got : x.get = .ok out) {worldSize : Nat}
    (positive : 0 < worldSize) (func : List (DataProto τ ω μ) → Py (DataProto τ ω μ)) :
    call (dpComputeProto worldSize) worldSize func [.future x] =
      call (dpComputeProto worldSize) worldSize func [.proto out] := by
  have lazy : splitArgs worldSize [.future x] = .ok [(x.chunk worldSize).map .future] := rfl
  have pieces : executeAll worldSize (registered func) [(x.chunk worldSize).map .future] =
      (List.range worldSize).map (fun i => DataProtoFuture.chunkAt worldSize i out >>=
        fun x => func [x]) := by
    rw [executeAll_single _ (by simp [DataProtoFuture.chunk]), List.map_map]
    have each : (fun a => registered func [.inl a]) ∘ Arg.future =
        (fun piece : Py (DataProto τ ω μ) => piece >>= fun x => func [x]) ∘
          DataProtoFuture.get := by
      funext piece
      exact registered_inl func (.future piece)
    rw [each, ← List.map_map, get_chunk undispatched got, List.map_map]
    rfl
  simp only [call, dpComputeProto, lazy, ok_bind, pieces]
  cases hchunk : out.chunk worldSize with
  | error e =>
    obtain ⟨count, rfl⟩ := Nat.exists_eq_succ_of_ne_zero (Nat.pos_iff_ne_zero.mp positive)
    have fails : splitArgs (count + 1) [.proto out] = .error e := by
      simp [splitArgs, Arg.chunk, hchunk]
    simp [fails, rayGet, List.range_succ_eq_map, DataProtoFuture.chunkAt, hchunk]
  | ok parts =>
    have eager : splitArgs worldSize [.proto out] = .ok [parts.map .proto] := by
      simp [splitArgs, Arg.chunk, hchunk]
    have count : parts.length = worldSize := length_chunk hchunk
    have same : (List.range worldSize).map (fun i => DataProtoFuture.chunkAt worldSize i out >>=
      fun x => func [x]) =
        executeAll worldSize (registered func) [parts.map .proto] := by
      rw [executeAll_single _ (by simpa using count)]
      apply List.ext_getElem (by simp [count])
      intro i hi _
      have inside : i < parts.length := by simpa [count] using hi
      simp [DataProtoFuture.chunkAt, hchunk, inside, registered_inl, Arg.materialize]
    simp only [eager, ok_bind, same]

section DpCompute

variable {f : DataProto τ ω μ → Py (DataProto τ ω μ)} {x : DataProto τ ω μ} {worldSize : Nat}

theorem dpCompute_refs (rowWise : RowWise f x) (aligned : x.Aligned x.len) (nonempty : 0 < x.len)
    (divides : worldSize ∣ x.len) :
    ∃ y outputs args, f x = .ok y ∧ y.Aligned x.len ∧
      (dpComputeProto worldSize).dispatch [.proto x] = .ok args ∧
      executeAll worldSize (registered (unary f)) args = outputs.map .ok ∧
        outputs.length = worldSize ∧
      0 < worldSize ∧ ∃ out, DataProto.concat outputs = .ok out ∧ out.SameColumns y := by
  obtain ⟨size, length⟩ := divides
  have positive : 0 < worldSize := Nat.pos_of_ne_zero (by rintro rfl; simp at length; omega)
  have rows : 0 < size := Nat.pos_of_ne_zero (by rintro rfl; simp at length; omega)
  obtain ⟨y, hy, alignedY, each⟩ := rowWise
  have pieces := DataProto.chunk_eq aligned rfl positive rows length
  obtain ⟨outputs, houtputs, same⟩ :=
    outputs_of_rowWise each ((List.range worldSize).map (blockIdx size))
    (by
      intro idx member
      obtain ⟨j, _, rfl⟩ := List.mem_map.mp member
      exact List.ne_nil_of_length_pos (by simpa using rows))
    (by
      intro idx member
      obtain ⟨j, hj, rfl⟩ := List.mem_map.mp member
      exact length ▸ blockIdx_inside (List.mem_range.mp hj))
  have count : outputs.length = worldSize := by simpa using same.length_eq
  refine ⟨y, outputs,
    [((List.range worldSize).map (fun i => x.pickRows (blockIdx size i))).map .proto], hy,
    alignedY, by simp [dpComputeProto, splitArgs, Arg.chunk, pieces], ?_, count, positive, ?_⟩
  · rw [executeAll_single _ (by simp), ← houtputs]
    simp only [List.map_map]
    apply List.map_congr_left
    intro i _
    exact registered_inl (unary f) (.proto _)
  · refine concat_outputs alignedY ?_ ?_ same
    · rw [flatten_blockIdx, length]
    · simpa using Nat.pos_iff_ne_zero.mp positive

/-- `DP_COMPUTE_PROTO` on a row-wise method is the method on the whole batch, and a
future of its result gives each worker of a second call the chunk it would get of
the collected batch. -/
theorem dp_compute_row_wise (rowWise : RowWise f x) (aligned : x.Aligned x.len)
    (nonempty : 0 < x.len) (divides : worldSize ∣ x.len) :
    ∃ y out fut, f x = .ok y ∧ y.Aligned x.len ∧
      call (dpComputeProto worldSize) worldSize (unary f) [.proto x] = .ok out ∧ out.SameColumns y ∧
      callAsync (dpComputeProto worldSize) worldSize (unary f) [.proto x] = .ok fut ∧
        fut.get = .ok out ∧
      (∀ next, (fut.chunk next).map DataProtoFuture.get =
        (List.range next).map (fun i => DataProtoFuture.chunkAt next i out)) ∧
      ∀ next func, 0 < next →
        call (dpComputeProto next) next func [.future fut] =
          call (dpComputeProto next) next func [.proto out] := by
  obtain ⟨y, outputs, args, hy, alignedY, dispatched, refs, count, positive, out, joined, same⟩ :=
    dpCompute_refs rowWise aligned nonempty divides
  have got : (DataProtoFuture.concat (outputs.map .ok)).get = .ok out := by
    simp [DataProtoFuture.get, DataProtoFuture.concat, rayGet_ok, joined]
  have some : (outputs.map .ok : List (ObjectRef τ ω μ)).isEmpty = false := by
    cases outputs with
    | nil => simp at count; omega
    | cons first rest => rfl
  refine ⟨y, out, DataProtoFuture.concat (outputs.map .ok), hy, alignedY, ?_, same, ?_, got,
    get_chunk rfl got, fun next func hnext => call_future rfl got hnext func⟩
  · rw [call, dispatched]
    simp only [ok_bind, refs, rayGet_ok, dpComputeProto, count, beq_self_eq_true, pyAssert_true,
      pure_eq_ok, joined]
  · rw [callAsync, dispatched]
    simp only [ok_bind, refs, dpComputeProto, List.length_map, count, beq_self_eq_true,
      pyAssert_true, pure_eq_ok, some]
    rfl

end DpCompute

def mapCells (g : τ → τ) (x : DataProto τ ω μ) : DataProto τ ω μ :=
  { x with batch := x.batch.map (fun batch =>
      { batchSize := batch.batchSize
        tensors := batch.tensors.mapKV (fun _ column => ⟨column.shape, column.rows.map g⟩)
        aligned := by
          intro e member
          obtain ⟨source, hsource, rfl⟩ := List.mem_map.mp member
          simpa using batch.aligned source hsource }) }

theorem rowWise_mapCells (g : τ → τ) {x : DataProto τ ω μ} (aligned : x.Aligned x.len) :
    RowWise (fun x => .ok (mapCells g x)) x := by
  refine ⟨mapCells g x, rfl, ⟨?_, aligned.nonTensorBatch⟩, fun idx _ _ => ⟨_, rfl, ⟨?_, rfl⟩⟩⟩
  · intro batch present
    obtain ⟨source, hsource, rfl⟩ := Option.map_eq_some_iff.mp present
    exact aligned.batch source hsource
  · simp only [mapCells, DataProto.pickRows, Option.map_map]
    congr 1
    funext batch
    ext1
    · rfl
    · simp [TensorDict.pickRows, Dict.mapKV_mapKV, Column.pickRows, pick_map]

def fourRows : DataProto Nat String Nat where
  batch := some ⟨4, ⟨[("ids", ⟨[], [10, 20, 30, 40]⟩)], by decide⟩, by decide⟩
  nonTensorBatch := ⟨[("uid", ⟨[], ["a", "b", "c", "d"]⟩)], by decide⟩
  metaInfo := .empty

theorem fourRows_aligned : fourRows.Aligned fourRows.len where
  batch := by
    rintro batch ⟨⟩
    rfl
  nonTensorBatch := by decide

theorem dp_compute_fourRows : ∃ y out fut, (.ok (mapCells (· + 1) fourRows) : Py _) = .ok y ∧
    y.Aligned fourRows.len ∧
    call (dpComputeProto 2) 2 (unary (fun x => .ok (mapCells (· + 1) x))) [.proto fourRows] =
      .ok out ∧
    out.SameColumns y ∧
    callAsync (dpComputeProto 2) 2 (unary (fun x => .ok (mapCells (· + 1) x))) [.proto fourRows] =
      .ok fut ∧
    fut.get = .ok out ∧
    (∀ next, (fut.chunk next).map DataProtoFuture.get =
      (List.range next).map (fun i => DataProtoFuture.chunkAt next i out)) ∧
    ∀ next func, 0 < next →
      call (dpComputeProto next) next func [.future fut] =
        call (dpComputeProto next) next func [.proto out] :=
  dp_compute_row_wise (rowWise_mapCells (· + 1) fourRows_aligned) fourRows_aligned
    (by decide) (by decide)

end Verl.SingleController
