import Mathlib.Algebra.BigOperators.Ring.List
import Verl.Base.NdArray
import Verl.Protocol.Invariant

/-! `repeat` and `reorder` on the arrays as they are stored. Each kind of column has primitives of
its own there; read along dim 0 they are the operations on columns of rows. -/
namespace Verl.Protocol

structure NdDict (τ : Type) where
  batchSize : Nat
  tensors : Dict (NdArray τ)
  aligned : ∀ e ∈ tensors.entries, e.2.shape.head? = some batchSize

def NdDict.new {τ : Type} (tensors : Dict (NdArray τ)) (batchSize : Nat) : Py (NdDict τ) :=
  if aligned : ∀ e ∈ tensors.entries, e.2.shape.head? = some batchSize then
    .ok ⟨batchSize, tensors, aligned⟩
  else .error (.runtime "batch dimension mismatch")

structure NdProto (τ ω μ : Type) where
  batch : Option (NdDict τ)
  nonTensorBatch : Dict (NdArray ω)
  metaInfo : Dict μ

namespace NdProto

variable {τ ω μ : Type}

section Model

def checkConsistency (self : NdProto τ ω μ) : Py PUnit :=
  match self.batch with
  | none => .ok ⟨⟩
  | some batch => self.nonTensorBatch.entries.forM (fun (key, val) =>
      match val.shape with
      | [] => .error .index
      | length :: _ =>
        let batchSize := batch.batchSize
        pyAssert (length == batchSize)
          s!"key {key} length {length} is not equal to batch size {batchSize}")

/-- `DataProto(batch=.., non_tensor_batch=.., meta_info=..)`, with `__post_init__`. -/
def new (batch : Option (NdDict τ)) (nonTensorBatch : Dict (NdArray ω)) (metaInfo : Dict μ) :
    Py (NdProto τ ω μ) := do
  let self : NdProto τ ω μ := ⟨batch, nonTensorBatch, metaInfo⟩
  self.checkConsistency
  return self

/-- `tensor.repeat_interleave(n, dim=0)`, or
`tensor.unsqueeze(0).expand(n, *tensor.shape).reshape(-1, *tensor.shape[1:])`. -/
def repeatTensor (repeatTimes : Nat) (interleave : Bool) (tensor : NdArray τ) : Py (NdArray τ) :=
  if interleave then tensor.repeat0 repeatTimes
  else do
    let expanded ← tensor.unsqueeze0.expand0 repeatTimes
    expanded.reshapeRows tensor.shape.tail

/-- `np.repeat(val, n, axis=0)`, or `np.tile(val, (n,) + (1,) * (val.ndim - 1))`. -/
def repeatColumn (repeatTimes : Nat) (interleave : Bool) (val : NdArray ω) : Py (NdArray ω) :=
  if interleave then val.repeat0 repeatTimes
  else .ok (val.tile (repeatTimes :: List.replicate (val.shape.length - 1) 1))

def repeatBatch (batch : Option (NdDict τ)) (repeatTimes : Nat) (interleave : Bool) :
    Py (Option (NdDict τ)) :=
  match batch with
  | none => .ok none
  | some batch => do
    let repeatedTensors ← batch.tensors.mapKVM (fun _ tensor =>
      repeatTensor repeatTimes interleave tensor)
    let repeated ← NdDict.new repeatedTensors (batch.batchSize * repeatTimes)
    return some repeated

def reorder (self : NdProto τ ω μ) (indices : List Nat) : Py (NdProto τ ω μ) :=
  match self.batch with
  | none => .error (.type "'NoneType' object is not subscriptable")
  | some batch =>
    if indices.all (· < batch.batchSize) then do
      let tensors ← batch.tensors.mapKVM (fun _ tensor => tensor.take0 indices)
      let taken ← NdDict.new tensors indices.length
      let nonTensorBatch ← self.nonTensorBatch.mapKVM (fun _ val => val.take0 indices)
      return ⟨some taken, nonTensorBatch, self.metaInfo⟩
    else .error .index

end Model

end NdProto

def NdProto.repeat {τ ω μ : Type} (self : NdProto τ ω μ) (repeatTimes : Nat) (interleave : Bool) :
    Py (NdProto τ ω μ) := do
  let repeatedBatch ← repeatBatch self.batch repeatTimes interleave
  let repeatedNonTensorBatch ← self.nonTensorBatch.mapKVM (fun _ val =>
    repeatColumn repeatTimes interleave val)
  new repeatedBatch repeatedNonTensorBatch self.metaInfo

section Columns

variable {α : Type}

def Column.ofArray (x : NdArray α) : Column (List α) := ⟨x.shape.tail, x.rows⟩

variable {x : NdArray α} {n : Nat} {rest : List Nat}

theorem shape_of_head? (head : x.shape.head? = some n) : x.shape = n :: x.shape.tail := by
  cases shape : x.shape with
  | nil =>
    rw [shape] at head
    cases head
  | cons k rest =>
    rw [shape] at head
    cases head
    rfl

theorem length_ofArray (head : x.shape.head? = some n) : (Column.ofArray x).rows.length = n :=
  NdArray.length_rows (shape_of_head? head)

theorem repeatTensor_refines (head : x.shape.head? = some n) (m : Nat) (interleave : Bool) :
    (NdProto.repeatTensor m interleave x).map Column.ofArray =
      DataProto.repeatTensor m interleave (Column.ofArray x) := by
  have shape := shape_of_head? head
  cases interleave with
  | true =>
    obtain ⟨y, run, shaped, rows⟩ := NdArray.repeat0_eq shape m
    simp [NdProto.repeatTensor, DataProto.repeatTensor, run, Except.map, DataProto.repeatInterleave,
      Column.ofArray, shaped, rows]
  | false =>
    obtain ⟨expanded, expand, copies⟩ := NdArray.expand_unsqueeze x m
    have steps : NdProto.repeatTensor m false x = expanded.reshapeRows x.shape.tail := by
      rw [NdProto.repeatTensor, if_neg Bool.false_ne_true, expand, ok_bind]
    have plain : DataProto.repeatTensor m false (Column.ofArray x) =
      DataProto.expandReshape m (Column.ofArray x) := if_neg Bool.false_ne_true
    rw [steps, plain, DataProto.expandReshape]
    by_cases empty : 0 ∈ x.shape.tail
    · rw [NdArray.reshapeRows_ambiguous (List.prod_eq_zero empty)]
      exact (if_pos empty).symm
    · obtain ⟨y, reshape, shaped, rows⟩ :=
        NdArray.reshapeRows_copies shape copies (List.prod_ne_zero empty)
      rw [reshape]
      simp [Except.map, Column.ofArray, empty, shaped, rows, DataProto.tile]

theorem repeatColumn_refines (head : x.shape.head? = some n) (m : Nat) (interleave : Bool) :
    (NdProto.repeatColumn m interleave x).map Column.ofArray =
      .ok (DataProto.repeatColumn m interleave (Column.ofArray x)) := by
  have shape := shape_of_head? head
  cases interleave with
  | true =>
    obtain ⟨y, run, shaped, rows⟩ := NdArray.repeat0_eq shape m
    simp [NdProto.repeatColumn, DataProto.repeatColumn, run, Except.map, DataProto.repeatInterleave,
      Column.ofArray, shaped, rows]
  | false =>
    obtain ⟨shaped, rows⟩ := NdArray.tile_eq shape m
    rw [List.length_tail] at shaped rows
    simp [NdProto.repeatColumn, DataProto.repeatColumn, Except.map, DataProto.tile,
      Column.ofArray, shaped, rows]

theorem take0_refines (head : x.shape.head? = some n) {idx : List Nat} (inside : ∀ i ∈ idx, i < n) :
    (x.take0 idx).map Column.ofArray = .ok ((Column.ofArray x).pickRows idx) := by
  have shape := shape_of_head? head
  obtain ⟨y, run, shaped, rows⟩ := NdArray.take0_eq shape inside
  simp [run, Except.map, Column.ofArray, Column.pickRows, shaped, rows]

theorem head?_of_repeatTensor (head : x.shape.head? = some n) {m : Nat} {interleave : Bool}
    {y : NdArray α}
    (run : NdProto.repeatTensor m interleave x = .ok y) : y.shape.head? = some (n * m) := by
  have shape := shape_of_head? head
  cases interleave with
  | true =>
    obtain ⟨out, made, shaped, -⟩ := NdArray.repeat0_eq shape m
    cases made.symm.trans run
    rw [shaped, List.head?_cons]
  | false =>
    obtain ⟨expanded, expand, copies⟩ := NdArray.expand_unsqueeze x m
    rw [NdProto.repeatTensor, if_neg Bool.false_ne_true, expand, ok_bind] at run
    by_cases empty : 0 ∈ x.shape.tail
    · rw [NdArray.reshapeRows_ambiguous (List.prod_eq_zero empty)] at run
      cases run
    · obtain ⟨out, reshape, shaped, -⟩ :=
        NdArray.reshapeRows_copies shape copies (List.prod_ne_zero empty)
      cases reshape.symm.trans run
      rw [shaped, List.head?_cons, Nat.mul_comm]

theorem head?_of_repeatColumn (head : x.shape.head? = some n) {m : Nat} {interleave : Bool}
    {y : NdArray α}
    (run : NdProto.repeatColumn m interleave x = .ok y) : y.shape.head? = some (n * m) := by
  have shape := shape_of_head? head
  cases interleave with
  | true =>
    obtain ⟨out, made, shaped, -⟩ := NdArray.repeat0_eq shape m
    cases made.symm.trans run
    rw [shaped, List.head?_cons]
  | false =>
    cases run
    obtain ⟨shaped, -⟩ := NdArray.tile_eq shape m
    rw [List.length_tail] at shaped
    rw [shaped, List.head?_cons]

theorem head?_of_take0 (head : x.shape.head? = some n) {idx : List Nat} (inside : ∀ i ∈ idx, i < n)
    {y : NdArray α} (run : x.take0 idx = .ok y) : y.shape.head? = some idx.length := by
  obtain ⟨out, made, shaped, -⟩ := NdArray.take0_eq (shape_of_head? head) inside
  cases made.symm.trans run
  rw [shaped, List.head?_cons]

end Columns

section Refinement

variable {τ ω μ : Type}

def NdDict.toDict (td : NdDict τ) : TensorDict (List τ) where
  batchSize := td.batchSize
  tensors := td.tensors.mapKV (fun _ x => .ofArray x)
  aligned e member := by
    obtain ⟨source, inside, rfl⟩ := List.mem_map.mp member
    exact length_ofArray (td.aligned source inside)

namespace NdProto

def toProto (self : NdProto τ ω μ) : DataProto (List τ) (List ω) μ :=
  ⟨self.batch.map NdDict.toDict, self.nonTensorBatch.mapKV (fun _ x => .ofArray x), self.metaInfo⟩

structure Aligned (n : Nat) (data : NdProto τ ω μ) : Prop where
  batch : ∀ batch, data.batch = some batch → batch.batchSize = n
  nonTensorBatch : ∀ e ∈ data.nonTensorBatch.entries, e.2.shape.head? = some n

variable {self : NdProto τ ω μ} {n m : Nat} {interleave : Bool}

theorem Aligned.toProto (aligned : self.Aligned n) : self.toProto.Aligned n := by
  constructor
  · intro td present
    obtain ⟨source, own, rfl⟩ := Option.map_eq_some_iff.mp present
    exact aligned.batch source own
  · intro e member
    obtain ⟨source, inside, rfl⟩ := List.mem_map.mp member
    exact length_ofArray (aligned.nonTensorBatch source inside)

theorem ndDict_new_ok {tensors : Dict (NdArray τ)}
    (heads : ∀ e ∈ tensors.entries, e.2.shape.head? = some n) :
    NdDict.new tensors n = .ok ⟨n, tensors, heads⟩ := dif_pos heads

theorem tensorDict_new_ok {tensors : Dict (NdArray τ)}
    (heads : ∀ e ∈ tensors.entries, e.2.shape.head? = some n) :
    TensorDict.new (tensors.mapKV (fun _ x => Column.ofArray x)) n =
      .ok (NdDict.toDict ⟨n, tensors, heads⟩) :=
  dif_pos (NdDict.toDict ⟨n, tensors, heads⟩).aligned

theorem new_ok (aligned : self.Aligned n) :
    new self.batch self.nonTensorBatch self.metaInfo = .ok self := by
  have checked : self.checkConsistency = .ok ⟨⟩ := by
    unfold checkConsistency
    cases present : self.batch with
    | none => rfl
    | some batch =>
      apply forM_ok
      rintro ⟨key, val⟩ member
      have shape := shape_of_head? (aligned.nonTensorBatch (key, val) member)
      simp only
      rw [shape]
      simp [aligned.batch batch present]
  simp [new, checked]

theorem repeatBatch_refines {batch : Option (NdDict τ)} :
    (repeatBatch batch m interleave).map (Option.map NdDict.toDict) =
      DataProto.repeatBatch (batch.map NdDict.toDict) m interleave := by
  cases batch with
  | none => rfl
  | some td =>
    have tensors : (td.tensors.mapKVM (fun _ tensor => repeatTensor m interleave tensor)).map
      (fun out => out.mapKV (fun _ x => .ofArray x)) =
        (td.tensors.mapKV (fun _ x => .ofArray x)).mapKVM
          (fun _ tensor => DataProto.repeatTensor m interleave tensor) :=
      Dict.map_mapKVM (fun e member => repeatTensor_refines (td.aligned e member) m interleave)
    cases run : td.tensors.mapKVM (fun _ tensor => repeatTensor m interleave tensor) with
    | error e =>
      rw [run] at tensors
      simp only [repeatBatch, DataProto.repeatBatch, Option.map_some, run, NdDict.toDict, ← tensors]
      rfl
    | ok out =>
      rw [run] at tensors
      have heads : ∀ e ∈ out.entries, e.2.shape.head? = some (td.batchSize * m) := by
        intro e member
        obtain ⟨source, inside, made⟩ := mem_mapKVM run member
        exact head?_of_repeatTensor (td.aligned _ inside) made
      simp only [repeatBatch, DataProto.repeatBatch, Option.map_some, run, NdDict.toDict, ← tensors,
        ok_bind, ndDict_new_ok heads, Except.map, tensorDict_new_ok heads]
      rfl

theorem batchSize_of_repeatBatch {batch repeated : Option (NdDict τ)}
    (run : repeatBatch batch m interleave = .ok repeated) :
    ∀ td, repeated = some td → ∃ source, batch = some source ∧
      td.batchSize = source.batchSize * m := by
  rintro td rfl
  cases batch with
  | none => cases run
  | some source =>
    obtain ⟨tensors, -, made⟩ := bind_ok_iff.mp run
    obtain ⟨made', new, same⟩ := bind_ok_iff.mp made
    cases same
    unfold NdDict.new at new
    split at new
    case isTrue =>
      cases new
      exact ⟨source, rfl, rfl⟩
    case isFalse => cases new

theorem columns_refine {α : Type} {f : NdArray α → Py (NdArray α)}
    {g : Column (List α) → Column (List α)} {k : Nat}
    (rows : ∀ x : NdArray α, x.shape.head? = some n →
      (f x).map Column.ofArray = .ok (g (.ofArray x)))
    (head : ∀ x y : NdArray α, x.shape.head? = some n → f x = .ok y → y.shape.head? = some k)
    {columns : Dict (NdArray α)} (heads : ∀ e ∈ columns.entries, e.2.shape.head? = some n) :
    ∃ out, columns.mapKVM (fun _ val => f val) = .ok out ∧
      (∀ e ∈ out.entries, e.2.shape.head? = some k) ∧
      out.mapKV (fun _ x => Column.ofArray x) =
        (columns.mapKV (fun _ x => Column.ofArray x)).mapKV (fun _ column => g column) := by
  have simulated : (columns.mapKVM (fun _ val => f val)).map
    (fun out => out.mapKV (fun _ x => Column.ofArray x)) =
      (columns.mapKV (fun _ x => Column.ofArray x)).mapKVM (fun _ column => .ok (g column)) :=
    Dict.map_mapKVM (fun e member => rows e.2 (heads e member))
  have total : (columns.mapKV (fun _ x => Column.ofArray x)).mapKVM
    (fun _ column => .ok (g column)) =
      .ok ((columns.mapKV (fun _ x => Column.ofArray x)).mapKV (fun _ column => g column)) :=
        Dict.mapKVM_ok (fun _ _ => rfl)
  rw [total] at simulated
  cases run : columns.mapKVM (fun _ val => f val) with
  | error e =>
    rw [run] at simulated
    cases simulated
  | ok out =>
    rw [run] at simulated
    refine ⟨out, rfl, ?_, Except.ok.inj simulated⟩
    intro e member
    obtain ⟨source, inside, made⟩ := mem_mapKVM run member
    exact head source e.2 (heads _ inside) made

theorem repeat_refines (aligned : self.Aligned n) (m : Nat) (interleave : Bool) :
    (self.repeat m interleave).map toProto = self.toProto.repeat m interleave ∧
    ∀ out, self.repeat m interleave = .ok out → out.Aligned (n * m) := by
  obtain ⟨columns, columnsRun, heads, columnRows⟩ :=
    columns_refine (fun _ head => repeatColumn_refines head m interleave)
    (fun _ _ head => head?_of_repeatColumn head) aligned.nonTensorBatch
  have simulated : (repeatBatch self.batch m interleave).map (Option.map NdDict.toDict) =
    DataProto.repeatBatch self.toProto.batch m interleave := repeatBatch_refines
  cases run : repeatBatch self.batch m interleave with
  | error e =>
    rw [run] at simulated
    simp only [NdProto.repeat, DataProto.repeat, run, ← simulated]
    exact ⟨rfl, fun out made => by cases made⟩
  | ok repeated =>
    rw [run] at simulated
    have own : (⟨repeated, columns, self.metaInfo⟩ : NdProto τ ω μ).Aligned (n * m) := by
      constructor
      · intro td present
        obtain ⟨source, there, size⟩ := batchSize_of_repeatBatch run td present
        rw [size, aligned.batch source there]
      · exact heads
    have made := new_ok own
    have rows := DataProto.new_ok own.toProto
    have steps : self.repeat m interleave = .ok ⟨repeated, columns, self.metaInfo⟩ := by
      simp only [NdProto.repeat, run, columnsRun, ok_bind]
      exact made
    constructor
    · rw [steps, DataProto.repeat, ← simulated]
      simp only [toProto, Except.map, ok_bind, ← columnRows]
      exact rows.symm
    · intro out same
      cases steps.symm.trans same
      exact own

theorem reorder_refines (aligned : self.Aligned n) (tensors : self.batch.isSome = true)
    {idx : List Nat} (inside : ∀ i ∈ idx, i < n) :
    ∃ out, self.reorder idx = .ok out ∧ out.Aligned idx.length ∧
      out.toProto = self.toProto.pickRows idx := by
  obtain ⟨td, present⟩ := Option.isSome_iff_exists.mp tensors
  have size := aligned.batch td present
  have tensorHeads : ∀ e ∈ td.tensors.entries, e.2.shape.head? = some n := size ▸ td.aligned
  obtain ⟨taken, takenRun, takenHeads, takenRows⟩ :=
    columns_refine (fun _ head => take0_refines head inside) (fun _ _ head =>
      head?_of_take0 head inside) tensorHeads
  obtain ⟨columns, columnsRun, heads, columnRows⟩ :=
    columns_refine (fun _ head => take0_refines head inside) (fun _ _ head =>
      head?_of_take0 head inside) aligned.nonTensorBatch
  have below : idx.all (· < td.batchSize) = true := by
    rw [size]
    simpa using inside
  refine ⟨⟨some ⟨idx.length, taken, takenHeads⟩, columns, self.metaInfo⟩, ?_, ⟨?_, heads⟩, ?_⟩
  · simp only [reorder, present, below, if_true, takenRun, ok_bind,
      ndDict_new_ok takenHeads, columnsRun]
    rfl
  · rintro _ ⟨⟩
    rfl
  · have batch : NdDict.toDict ⟨idx.length, taken, takenHeads⟩ = td.toDict.pickRows idx := by
      ext1
      · have within : ∀ i ∈ idx, i < td.toDict.batchSize :=
          fun i member => Nat.lt_of_lt_of_eq (inside i member) size.symm
        rw [TensorDict.batchSize_pickRows within]
        rfl
      · exact takenRows
    simp only [toProto, DataProto.pickRows, present, Option.map_some, batch, columnRows]

end NdProto

end Refinement

end Verl.Protocol
