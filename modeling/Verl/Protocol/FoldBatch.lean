import Verl.Base.Effects
import Verl.Protocol.RowMaps

/-! `fold_batch_dim` and `unfold_batch_dim`. They view the tensors under other batch dims, in a
tensordict of its own; the object columns are reshaped in the dict of the argument. -/
namespace Verl.Protocol

structure BatchedDict (τ : Type) where
  batchSize : List Nat
  tensors : Dict (NdArray τ)
  aligned : ∀ e ∈ tensors.entries, batchSize <+: e.2.shape

structure BatchedProto (τ ω μ : Type) where
  batch : Option (BatchedDict τ)
  nonTensorBatch : Dict (NdArray ω)
  metaInfo : Dict μ

variable {τ ω μ : Type}

section Model

namespace BatchedDict

def new (tensors : Dict (NdArray τ)) (batchSize : List Nat) : Py (BatchedDict τ) :=
  if aligned : ∀ e ∈ tensors.entries, batchSize <+: e.2.shape then .ok ⟨batchSize, tensors, aligned⟩
  else .error (.runtime "batch dimension mismatch")

def numel (td : BatchedDict τ) : Nat := max 1 td.batchSize.prod

def view (shape : List (Option Nat)) (td : BatchedDict τ) : Py (BatchedDict τ) :=
  match NdArray.inferSize shape td.numel with
  | none => .error (.assertion "invalid shape")
  | some shape => do
    let tensors ← td.tensors.mapKVM (fun _ tensor =>
      tensor.view (shape ++ tensor.shape.drop td.batchSize.length))
    new tensors shape

def sharedDims : Nat → List Nat → List (List Nat) → List Nat
  | dims + 1, size :: shape, others =>
    if others.all (fun other => other.head? = some size) then
      size :: sharedDims dims shape (others.map List.tail)
    else []
  | _, _, _ => []

theorem sharedDims_prefix (dims : Nat) (shape : List Nat) (others : List (List Nat)) :
    sharedDims dims shape others <+: shape ∧ ∀ other ∈ others,
      sharedDims dims shape others <+: other := by
  induction dims generalizing shape others with
  | zero => simp [sharedDims]
  | succ dims ih =>
    cases shape with
    | nil => simp [sharedDims]
    | cons size shape =>
      rw [sharedDims]
      split
      case isFalse => simp
      case isTrue same =>
        obtain ⟨own, rest⟩ := ih shape (others.map List.tail)
        refine ⟨List.cons_prefix_cons.mpr ⟨rfl, own⟩, ?_⟩
        intro other member
        have head := List.all_eq_true.mp same other member
        cases other with
        | nil => simp at head
        | cons first later =>
          obtain rfl : first = size := by simpa using head
          exact List.cons_prefix_cons.mpr ⟨rfl, rest later (List.mem_map.mpr ⟨_, member, rfl⟩)⟩

def autoBatchSize (batchDims : Nat) (td : BatchedDict τ) : BatchedDict τ :=
  match entries : td.tensors.entries with
  | [] => ⟨td.batchSize.take batchDims, td.tensors, by simp [entries]⟩
  | first :: rest => ⟨sharedDims batchDims first.2.shape (rest.map (·.2.shape)), td.tensors, by
      obtain ⟨own, others⟩ := sharedDims_prefix batchDims first.2.shape (rest.map (·.2.shape))
      intro e member
      rw [entries] at member
      rcases List.mem_cons.mp member with rfl | later
      · exact own
      · exact others _ (List.mem_map.mpr ⟨e, later, rfl⟩)⟩

end BatchedDict

namespace BatchedProto

def checkConsistency (self : BatchedProto τ ω μ) : Py Unit :=
  match self.batch with
  | none => .ok ()
  | some batch => do
    pyAssert (batch.batchSize.length == 1) "only support num_batch_dims=1"
    self.nonTensorBatch.entries.forM (fun (key, val) => do
      let batchSize ← pyGet batch.batchSize 0
      let length ← pyGet val.shape 0
      pyAssert (length == batchSize)
        s!"key {key} length {length} is not equal to batch size {batchSize}")

def new (batch : Option (BatchedDict τ)) (nonTensorBatch : Dict (NdArray ω)) (metaInfo : Dict μ) :
    Py (BatchedProto τ ω μ) := do
  let self : BatchedProto τ ω μ := ⟨batch, nonTensorBatch, metaInfo⟩
  self.checkConsistency
  return self

def foldTensors (newBatchSize : Nat) (batch : Option (BatchedDict τ)) : Py (BatchedDict τ) :=
  match batch with
  | none => .error (.attribute "batch_size")
  | some tensor => do
    let batchSize ← pyGet tensor.batchSize 0
    let remainder ← pyMod batchSize newBatchSize
    pyAssert (remainder == 0) ""
    let tensor ← tensor.view [some newBatchSize, none]
    return tensor.autoBatchSize 1

def foldColumn (newBatchSize : Nat) (nonTensor : Dict (NdArray ω)) (entry : String × NdArray ω) :
    Py (Dict (NdArray ω)) := do
  let folded ← entry.2.reshape (some newBatchSize :: none :: entry.2.shape.tail.map some)
  return nonTensor.set entry.1 folded

def withColumns (data : BatchedProto τ ω μ) (nonTensorBatch : Dict (NdArray ω)) :
    BatchedProto τ ω μ :=
  { data with nonTensorBatch := nonTensorBatch }

def foldColumns (newBatchSize : Nat) (nonTensor : Dict (NdArray ω)) :
    Effect (BatchedProto τ ω μ) Unit :=
  nonTensor.entries.forM (fun entry data =>
    match foldColumn newBatchSize data.nonTensorBatch entry with
    | .ok nonTensorBatch => (.ok (), data.withColumns nonTensorBatch)
    | .error e => (.error e, data))

/-- `fold_batch_dim(data, new_batch_size)`, with `data` as it is afterwards. -/
def foldBatchDim (newBatchSize : Nat) : Effect (BatchedProto τ ω μ) (BatchedProto τ ω μ) :=
  fun data =>
  let run : Effect (BatchedProto τ ω μ) (BatchedProto τ ω μ) := do
    let tensor ← Effect.attempt (foldTensors newBatchSize data.batch)
    foldColumns newBatchSize data.nonTensorBatch
    fun data => (new (some tensor) data.nonTensorBatch data.metaInfo, data)
  run data

/-- `unfold_batch_dim(data, batch_dims)`. The batch of `data` keeps the batch dims it is given
first. -/
def unfoldBatchDim (batchDims : Nat) : Effect (BatchedProto τ ω μ) (BatchedProto τ ω μ) :=
  fun data =>
  match data.batch with
  | none => (.error (.attribute "auto_batch_size_"), data)
  | some tensor =>
    let tensor := tensor.autoBatchSize batchDims
    let unfolded : Py (BatchedProto τ ω μ) := do
      let tensor ← tensor.view [none]
      let batchSize ← pyGet tensor.batchSize 0
      let nonTensorNew ← data.nonTensorBatch.mapKVM (fun _ val =>
        val.reshape (some batchSize :: (val.shape.drop batchDims).map some))
      new (some tensor) nonTensorNew data.metaInfo
    (unfolded, { data with batch := some tensor })

end BatchedProto

def NdDict.batched (td : NdDict τ) : BatchedDict τ where
  batchSize := [td.batchSize]
  tensors := td.tensors
  aligned e member := by
    rw [shape_of_head? (td.aligned e member)]
    exact ⟨e.2.shape.tail, rfl⟩

@[simp] theorem NdDict.batchSize_batched (td : NdDict τ) :
    td.batched.batchSize = [td.batchSize] := rfl

@[simp] theorem NdDict.tensors_batched (td : NdDict τ) : td.batched.tensors = td.tensors := rfl

def NdProto.batched (self : NdProto τ ω μ) : BatchedProto τ ω μ :=
  ⟨self.batch.map NdDict.batched, self.nonTensorBatch, self.metaInfo⟩

end Model

namespace BatchedDict

theorem ext {a b : BatchedDict τ} (size : a.batchSize = b.batchSize)
    (tensors : a.tensors = b.tensors) : a = b := by
  cases a
  cases b
  cases size
  cases tensors
  rfl

variable {td : BatchedDict τ} {sizes : List Nat} {dims : Nat}

theorem prod_regrouped (same : sizes.prod = td.batchSize.prod) {e : String × NdArray τ}
    (member : e ∈ td.tensors.entries) :
    (sizes ++ e.2.shape.drop td.batchSize.length).prod = e.2.shape.prod := by
  obtain ⟨rest, shape⟩ := td.aligned e member
  rw [← shape, List.drop_left, List.prod_append, List.prod_append, same]

theorem view_eq {shape : List (Option Nat)}
    (inferred : NdArray.inferSize shape td.numel = some sizes)
    (same : sizes.prod = td.batchSize.prod) :
    ∃ out, td.view shape = .ok out ∧ out.batchSize = sizes ∧
      out.tensors = td.tensors.mapKV
        (fun _ x => x.withShape (sizes ++ x.shape.drop td.batchSize.length)) := by
  have each : td.tensors.mapKVM
    (fun _ tensor => tensor.view (sizes ++ tensor.shape.drop td.batchSize.length)) =
      .ok (td.tensors.mapKV (fun _ x => x.withShape (sizes ++ x.shape.drop td.batchSize.length))) :=
    Dict.mapKVM_ok (fun e member => NdArray.view_eq (prod_regrouped same member))
  have aligned : ∀ e ∈ (td.tensors.mapKV (fun _ x => x.withShape (sizes ++ x.shape.drop td.batchSize.length))).entries, sizes <+: e.2.shape := by
    intro e member
    obtain ⟨source, inside, rfl⟩ := List.mem_map.mp member
    rw [NdArray.shape_withShape (prod_regrouped same inside)]
    exact List.prefix_append _ _
  refine ⟨⟨sizes, _, aligned⟩, ?_, rfl, rfl⟩
  simp only [view, inferred, each, ok_bind, new, dif_pos aligned]

theorem sharedDims_eq {shape : List Nat} {others : List (List Nat)} (own : sizes <+: shape)
    (shared : ∀ other ∈ others, sizes <+: other)
    (long : dims ≤ sizes.length) : sharedDims dims shape others = sizes.take dims := by
  induction dims generalizing sizes shape others with
  | zero => rfl
  | succ dims ih =>
    cases sizes with
    | nil => cases long
    | cons size sizes =>
      obtain ⟨rest, rfl⟩ := own
      have heads : others.all (fun other => other.head? = some size) = true := by
        rw [List.all_eq_true]
        intro other member
        obtain ⟨later, rfl⟩ := shared other member
        simp
      rw [List.cons_append, sharedDims, if_pos heads, List.take_succ_cons]
      congr 1
      apply ih (List.prefix_append _ _) _ (Nat.le_of_succ_le_succ long)
      intro other member
      obtain ⟨source, inside, rfl⟩ := List.mem_map.mp member
      obtain ⟨later, rfl⟩ := shared source inside
      exact List.prefix_append _ _

@[simp] theorem tensors_autoBatchSize : (td.autoBatchSize dims).tensors = td.tensors := by
  unfold autoBatchSize
  split <;> rfl

theorem autoBatchSize_eq (shared : ∀ e ∈ td.tensors.entries, sizes <+: e.2.shape)
    (some : td.tensors.entries ≠ []) (long : dims ≤ sizes.length) :
    (td.autoBatchSize dims).batchSize = sizes.take dims := by
  unfold autoBatchSize
  split
  case h_1 none => exact absurd none some
  case h_2 first rest entries =>
    rw [entries] at shared
    apply sharedDims_eq (shared first List.mem_cons_self) _ long
    intro other member
    obtain ⟨source, inside, rfl⟩ := List.mem_map.mp member
    exact shared source (List.mem_cons_of_mem first inside)

theorem autoBatchSize_empty (none : td.tensors.entries = []) :
    (td.autoBatchSize dims).batchSize = td.batchSize.take dims := by
  unfold autoBatchSize
  split
  case h_1 => rfl
  case h_2 first rest entries => cases none.symm.trans entries

end BatchedDict

section Folding

open BatchedProto

variable {k m n g j : Nat} {d : NdProto τ ω μ}

theorem new_batched (aligned : d.Aligned n) :
    BatchedProto.new d.batched.batch d.nonTensorBatch d.metaInfo = .ok d.batched := by
  have checked : d.batched.checkConsistency = .ok () := by
    unfold checkConsistency NdProto.batched
    cases present : d.batch with
    | none => rfl
    | some td =>
      apply forM_ok
      rintro ⟨key, val⟩ member
      have shape := shape_of_head? (aligned.nonTensorBatch (key, val) member)
      simp only
      rw [shape]
      simp [NdDict.batched, pyGet, aligned.batch td present]
  have same : (⟨d.batched.batch, d.nonTensorBatch, d.metaInfo⟩ : BatchedProto τ ω μ) = d.batched :=
    rfl
  simp only [BatchedProto.new, same, checked, ok_bind, pure_eq_ok]

theorem foldTensors_eq {td : NdDict τ} (size : td.batchSize = k * m) (positive : 0 < k * m) :
    ∃ folded : NdDict τ, foldTensors k (some td.batched) = .ok folded.batched ∧
      folded.batchSize = k ∧
      folded.tensors = td.tensors.mapKV (fun _ x => x.withShape (k :: m :: x.shape.tail)) := by
  have groups : 0 < k := Nat.pos_of_mul_pos_right positive
  have numel : td.batched.numel = k * m := by
    simp [BatchedDict.numel, NdDict.batched, size, Nat.max_eq_right positive]
  have inferred : NdArray.inferSize [some k, none] td.batched.numel = some [k, m] := by
    rw [numel]
    exact NdArray.inferSize_leading groups
  obtain ⟨viewed, run, sizes, tensors⟩ :=
    BatchedDict.view_eq inferred (by simp [NdDict.batched, size])
  have reshaped : viewed.tensors =
      td.tensors.mapKV (fun _ x => x.withShape (k :: m :: x.shape.tail)) := by
    rw [tensors]
    apply Dict.mapKV_congr
    intro e _
    simp [List.drop_one]
  have one : (viewed.autoBatchSize 1).batchSize = [k] := by
    cases entries : viewed.tensors.entries with
    | nil =>
      rw [BatchedDict.autoBatchSize_empty entries, sizes, List.take_succ_cons, List.take_zero]
    | cons first rest =>
      rw [BatchedDict.autoBatchSize_eq viewed.aligned (by simp [entries]) (by simp [sizes]), sizes,
        List.take_succ_cons, List.take_zero]
  have aligned : ∀ e ∈ viewed.tensors.entries, e.2.shape.head? = some k := by
    intro e member
    obtain ⟨rest, shape⟩ := viewed.aligned e member
    rw [← shape, sizes]
    rfl
  refine ⟨⟨k, viewed.tensors, aligned⟩, ?_, rfl, reshaped⟩
  have same : viewed.autoBatchSize 1 = NdDict.batched ⟨k, viewed.tensors, aligned⟩ :=
    BatchedDict.ext one BatchedDict.tensors_autoBatchSize
  have remainder : td.batchSize % k = 0 := by rw [size, Nat.mul_mod_right]
  simp [foldTensors, groups, remainder, run, same]

theorem shape_grouped {td : NdDict τ} (size : td.batchSize = k)
    (groups : ∀ e ∈ td.tensors.entries, e.2.shape.tail.head? = some m)
    {e : String × NdArray τ} (member : e ∈ td.tensors.entries) :
    e.2.shape = k :: m :: e.2.shape.drop 2 := by
  have outer := shape_of_head? (td.aligned e member)
  have head := groups e member
  cases inner : e.2.shape.tail with
  | nil =>
    rw [inner] at head
    cases head
  | cons m' rest =>
    rw [inner] at head
    cases head
    rw [outer, inner, size, List.drop_succ_cons, List.drop_succ_cons, List.drop_zero]

theorem unfoldTensors_eq {td : NdDict τ} (size : td.batchSize = k)
    (groups : ∀ e ∈ td.tensors.entries, e.2.shape.tail.head? = some m)
    (known : td.tensors.entries ≠ [] ∨ m = 1) (positive : 0 < k * m) :
    ∃ out : NdDict τ, (td.batched.autoBatchSize 2).view [none] = .ok out.batched ∧
      out.batchSize = k * m ∧
      out.tensors = td.tensors.mapKV (fun _ y => y.withShape (k * m :: y.shape.drop 2)) := by
  obtain ⟨dims, two⟩ : ∃ dims, (td.batched.autoBatchSize 2).batchSize = dims ∧ dims.prod = k * m ∧
      ∀ e ∈ td.tensors.entries, e.2.shape.drop dims.length = e.2.shape.drop 2 := by
    by_cases empty : td.tensors.entries = []
    · refine ⟨[k], ?_, ?_, by simp [empty]⟩
      · rw [BatchedDict.autoBatchSize_empty empty, NdDict.batchSize_batched, size,
          List.take_of_length_le (by simp)]
      · rcases known with some | one
        · exact absurd empty some
        · simp [one]
    · refine ⟨[k, m], ?_, by simp, by simp⟩
      have shared : ∀ e ∈ td.batched.tensors.entries, [k, m] <+: e.2.shape := by
        intro e member
        rw [shape_grouped size groups member]
        exact ⟨e.2.shape.drop 2, rfl⟩
      exact BatchedDict.autoBatchSize_eq shared empty (by simp)
  have numel : (td.batched.autoBatchSize 2).numel = k * m := by
    rw [BatchedDict.numel, two.1, two.2.1, Nat.max_eq_right positive]
  have inferred : NdArray.inferSize [none] (td.batched.autoBatchSize 2).numel = some [k * m] := by
    rw [numel]
    exact NdArray.inferSize_flat (k * m)
  obtain ⟨viewed, run, sizes, tensors⟩ :=
    BatchedDict.view_eq inferred (by rw [two.1, two.2.1]; simp)
  have aligned : ∀ e ∈ viewed.tensors.entries, e.2.shape.head? = some (k * m) := by
    intro e member
    obtain ⟨rest, shape⟩ := viewed.aligned e member
    rw [← shape, sizes]
    rfl
  refine ⟨⟨k * m, viewed.tensors, aligned⟩, ?_, rfl, ?_⟩
  · rw [run]
    exact congrArg Except.ok (BatchedDict.ext sizes rfl)
  · have flat : viewed.tensors =
        td.tensors.mapKV (fun _ y => y.withShape (k * m :: y.shape.drop 2)) := by
      rw [tensors, BatchedDict.tensors_autoBatchSize, two.1, NdDict.tensors_batched]
      apply Dict.mapKV_congr
      intro e member
      rw [two.2.2 e member]
      rfl
    exact flat

end Folding

section Rows

variable {α : Type}

def splitRow (j : Nat) : List Nat × Option (List α) → List Nat × Option (List α)
  | (m :: rest, cells) => (rest, cells.bind (fun cells => (blocks rest.prod m cells)[j]?))
  | ([], _) => ([], none)

namespace NdProto

def entry (self : NdProto τ ω μ) (g j : Nat) :
    Option (Dict (List Nat × Option (List τ))) × Dict (List Nat × Option (List ω)) :=
  ((self.row g).1.map (fun columns => columns.mapKV (fun _ x => splitRow j x)),
    (self.row g).2.mapKV (fun _ x => splitRow j x))

theorem row_eq (self : NdProto τ ω μ) (i : Nat) :
    self.row i = (self.batch.map (fun td =>
      td.tensors.mapKV (fun _ x => (x.shape.tail, x.rows[i]?))),
        self.nonTensorBatch.mapKV (fun _ x => (x.shape.tail, x.rows[i]?))) := by
  unfold row toProto DataProto.row
  simp only [Option.map_map, Dict.mapKV_mapKV]
  congr 2
  funext td
  exact Dict.mapKV_mapKV (fun _ (column : Column (List τ)) => (column.shape, column.rows[i]?))
    (fun _ x => Column.ofArray x) td.tensors

end NdProto

theorem splitRow_rows {x y : NdArray α} {k m g j : Nat} {rest : List Nat}
    (flat : x.shape = k * m :: rest) (grouped : y.shape = k :: m :: rest)
    (same : y.data = x.data) (hg : g < k) (hj : j < m) :
    splitRow j (y.shape.tail, y.rows[g]?) = (x.shape.tail, x.rows[g * m + j]?) := by
  have group : y.rows[g]? = some (block (m * rest.prod) g x.data) := by
    have inside : g < (blocks (m * rest.prod) k x.data).length := by simpa using hg
    rw [NdArray.rows, grouped, same]
    simp only [List.prod_cons]
    rw [List.getElem?_eq_getElem inside, getElem_blocks]
  have cells : x.rows = blocks rest.prod (k * m) x.data := by rw [NdArray.rows, flat]
  rw [group, grouped, flat, cells]
  simp only [List.tail_cons, splitRow, Option.bind_some]
  rw [NdArray.getElem?_blocks_block hg hj]

end Rows

namespace NdProto

open BatchedProto

section Tensors

variable {k m n : Nat} {d out : NdProto τ ω μ} {td : NdDict τ}

/-- What folding leaves of a batch whose only columns are tensors. -/
theorem foldBatchDim_tensors (present : d.batch = some td) (plain : d.nonTensorBatch.entries = [])
    (size : td.batchSize = k * m) (positive : 0 < k * m) : ∃ tensors : NdDict τ,
      foldBatchDim k d.batched = (.ok (batched ⟨some tensors, d.nonTensorBatch, d.metaInfo⟩),
        d.batched) ∧ tensors.batchSize = k ∧
      tensors.tensors = td.tensors.mapKV (fun _ x => x.withShape (k :: m :: x.shape.tail)) := by
  obtain ⟨tensors, run, groups, shapes⟩ := foldTensors_eq size positive
  have aligned : (⟨some tensors, d.nonTensorBatch, d.metaInfo⟩ : NdProto τ ω μ).Aligned k :=
    ⟨fun _ own => Option.some.inj own ▸ groups, by simp [plain]⟩
  refine ⟨tensors, ?_, groups, shapes⟩
  have batch : d.batched.batch = some td.batched := by rw [batched, present, Option.map_some]
  have first : Effect.attempt (foldTensors k d.batched.batch) d.batched =
      (.ok tensors.batched, d.batched) := by
    rw [Effect.attempt, batch, run]
  have second : foldColumns k d.batched.nonTensorBatch d.batched = (.ok (), d.batched) := by
    have none : d.batched.nonTensorBatch.entries = [] := plain
    rw [foldColumns, none]
    rfl
  refine (Effect.bind_ok first).trans ((Effect.bind_ok second).trans ?_)
  exact congrArg (·, d.batched) (new_batched aligned)

theorem unfoldBatchDim_tensors (present : d.batch = some td) (plain : d.nonTensorBatch.entries = [])
    (size : td.batchSize = k) (groups : ∀ e ∈ td.tensors.entries, e.2.shape.tail.head? = some m)
    (known : td.tensors.entries ≠ [] ∨ m = 1) (positive : 0 < k * m) :
    ∃ (tensors : NdDict τ) (after : BatchedProto τ ω μ),
      unfoldBatchDim 2 d.batched = (.ok (batched ⟨some tensors, d.nonTensorBatch, d.metaInfo⟩),
        after) ∧ tensors.batchSize = k * m ∧
        tensors.tensors = td.tensors.mapKV (fun _ y => y.withShape (k * m :: y.shape.drop 2)) := by
  obtain ⟨tensors, run, rows, shapes⟩ := unfoldTensors_eq size groups known positive
  have aligned : (⟨some tensors, d.nonTensorBatch, d.metaInfo⟩ : NdProto τ ω μ).Aligned (k * m) :=
    ⟨fun _ own => Option.some.inj own ▸ rows, by simp [plain]⟩
  have made := new_batched aligned
  have columns : d.nonTensorBatch.mapKVM
      (fun _ val => val.reshape (some (k * m) :: (val.shape.drop 2).map some)) =
      .ok d.nonTensorBatch := by
    have each : d.nonTensorBatch.mapKVM
      (fun _ val => val.reshape (some (k * m) :: (val.shape.drop 2).map some)) =
        .ok (d.nonTensorBatch.mapKV (fun _ val => val)) := Dict.mapKVM_ok (by simp [plain])
    rw [each, Dict.mapKV_id (fun _ _ => rfl)]
  have batch : d.batched.batch = some td.batched := by rw [batched, present, Option.map_some]
  refine ⟨tensors, { d.batched with batch := some (td.batched.autoBatchSize 2) }, ?_, rows, shapes⟩
  have first : pyGet tensors.batched.batchSize 0 = .ok (k * m) := by simp [pyGet, rows]
  unfold unfoldBatchDim
  rw [batch]
  simp only [run, ok_bind, first]
  congr 1
  have own : d.batched.nonTensorBatch = d.nonTensorBatch := rfl
  rw [own, columns, ok_bind]
  exact made

theorem shape_groups {α : Type} {x : NdArray α} (outer : x.shape.head? = some k)
    (inner : x.shape.tail.head? = some m) :
    x.shape = k :: m :: x.shape.drop 2 := by
  obtain ⟨ys, shape⟩ := List.head?_eq_some_iff.mp outer
  rw [shape, List.tail_cons] at inner
  obtain ⟨zs, rfl⟩ := List.head?_eq_some_iff.mp inner
  rw [shape]
  rfl

theorem shape_tensor (aligned : d.Aligned n) (present : d.batch = some td) {e : String × NdArray τ}
    (member : e ∈ td.tensors.entries) :
    e.2.shape = n :: e.2.shape.tail :=
  shape_of_head? (aligned.batch td present ▸ td.aligned e member)

theorem prod_folded (aligned : d.Aligned (k * m)) (present : d.batch = some td)
    {e : String × NdArray τ} (member : e ∈ td.tensors.entries) :
    (k :: m :: e.2.shape.tail).prod = e.2.shape.prod := by
  rw [shape_tensor aligned present member, List.tail_cons, List.prod_cons, List.prod_cons,
    List.prod_cons, Nat.mul_assoc]

theorem unfolded_folded (aligned : d.Aligned (k * m)) (present : d.batch = some td) :
    (td.tensors.mapKV (fun _ x => x.withShape (k :: m :: x.shape.tail))).mapKV
      (fun _ y => y.withShape (k * m :: y.shape.drop 2)) = td.tensors := by
  rw [Dict.mapKV_mapKV]
  apply Dict.mapKV_id
  intro e member
  have shaped : (e.2.withShape (k :: m :: e.2.shape.tail)).shape = k :: m :: e.2.shape.tail :=
    NdArray.shape_withShape (prod_folded aligned present member)
  have fits : (k * m :: e.2.shape.tail).prod =
      (e.2.withShape (k :: m :: e.2.shape.tail)).shape.prod := by
    rw [shaped, List.prod_cons, List.prod_cons, List.prod_cons, Nat.mul_assoc]
  have dropped : (e.2.withShape (k :: m :: e.2.shape.tail)).shape.drop 2 = e.2.shape.tail := by
    rw [shaped]
    rfl
  apply NdArray.ext_data
  · rw [dropped, NdArray.shape_withShape fits]
    exact (shape_tensor aligned present member).symm
  · simp

theorem entry_folded {tensors : NdDict τ} (aligned : d.Aligned (k * m))
    (present : d.batch = some td) (plain : d.nonTensorBatch.entries = [])
    (same : tensors.tensors = td.tensors.mapKV (fun _ x => x.withShape (k :: m :: x.shape.tail)))
    {g j : Nat} (hg : g < k) (hj : j < m) :
    (⟨some tensors, d.nonTensorBatch, d.metaInfo⟩ : NdProto τ ω μ).entry g j = d.row
      (g * m + j) := by
  rw [entry, row_eq, row_eq, present]
  simp only [Option.map_some, same, Dict.mapKV_mapKV]
  congr 1
  · congr 1
    apply Dict.mapKV_congr
    intro e member
    have flat := shape_tensor aligned present member
    have prod : (k :: m :: e.2.shape.tail).prod = e.2.shape.prod := by
      rw [flat, List.tail_cons, List.prod_cons, List.prod_cons, List.prod_cons, Nat.mul_assoc]
    exact splitRow_rows flat (NdArray.shape_withShape prod) (NdArray.data_withShape _ _) hg hj
  · apply Dict.mapKV_congr
    simp [plain]

theorem row_unfolded {tensors : NdDict τ} (aligned : d.Aligned k) (present : d.batch = some td)
    (plain : d.nonTensorBatch.entries = [])
    (groups : ∀ e ∈ td.tensors.entries, e.2.shape.tail.head? = some m)
    (same : tensors.tensors = td.tensors.mapKV (fun _ y => y.withShape (k * m :: y.shape.drop 2)))
    {g j : Nat} (hg : g < k) (hj : j < m) :
    (⟨some tensors, d.nonTensorBatch, d.metaInfo⟩ : NdProto τ ω μ).row
      (g * m + j) = d.entry g j := by
  rw [entry, row_eq, row_eq, present]
  simp only [Option.map_some, same, Dict.mapKV_mapKV]
  congr 1
  · congr 1
    apply Dict.mapKV_congr
    intro e member
    have grouped : e.2.shape = k :: m :: e.2.shape.drop 2 :=
      shape_groups (aligned.batch td present ▸ td.aligned e member) (groups e member)
    have prod : (k * m :: e.2.shape.drop 2).prod = e.2.shape.prod := by
      rw [grouped, List.prod_cons, List.prod_cons, List.prod_cons, List.drop_succ_cons,
        List.drop_succ_cons, List.drop_zero, Nat.mul_assoc]
    exact (splitRow_rows (NdArray.shape_withShape prod) grouped
      (NdArray.data_withShape _ _).symm hg hj).symm
  · apply Dict.mapKV_congr
    simp [plain]

theorem reorder_groups (aligned : d.Aligned k) (present : d.batch = some td)
    (plain : d.nonTensorBatch.entries = [])
    (groups : ∀ e ∈ td.tensors.entries, e.2.shape.tail.head? = some m) {perm : List Nat}
    (perms : perm.Perm (List.range k)) :
    ∃ out taken, d.reorder perm = .ok out ∧ out.Aligned k ∧ out.batch = some taken ∧
      out.nonTensorBatch.entries = [] ∧
      (taken.tensors.entries = [] ↔ td.tensors.entries = []) ∧
        (∀ e ∈ taken.tensors.entries, e.2.shape.tail.head? = some m) ∧
      ∀ g source, perm[g]? = some source → ∀ j, out.entry g j = d.entry source j := by
  obtain ⟨out, run, own, same⟩ := reorder_refines aligned (by simp [present]) (perm_inside perms)
  rw [perm_length perms] at own
  have batch : out.batch.map NdDict.toDict = some (td.toDict.pickRows perm) := by
    have parts := congrArg DataProto.batch same
    simpa [toProto, DataProto.pickRows, present] using parts
  obtain ⟨taken, there, rows⟩ := Option.map_eq_some_iff.mp batch
  have entries : taken.tensors.entries.map (fun e => (e.1, Column.ofArray e.2)) =
      td.tensors.entries.map (fun e => (e.1, (Column.ofArray e.2).pickRows perm)) := by
    have dicts := congrArg (fun t : TensorDict (List τ) => t.tensors.entries) rows
    simpa [NdDict.toDict, TensorDict.pickRows, Dict.mapKV, Function.comp_def] using dicts
  refine ⟨out, taken, run, own, there, ?_, ?_, ?_, ?_⟩
  · have columns := congrArg (fun p : DataProto (List τ) (List ω) μ =>
      p.nonTensorBatch.entries) same
    simpa [toProto, DataProto.pickRows, Dict.mapKV, plain] using columns
  · rw [← List.map_eq_nil_iff (f := fun e => (e.1, Column.ofArray e.2)), entries,
      List.map_eq_nil_iff]
  · intro e member
    have image : (e.1, Column.ofArray e.2) ∈
        td.tensors.entries.map (fun e => (e.1, (Column.ofArray e.2).pickRows perm)) := by
      rw [← entries]
      exact List.mem_map.mpr ⟨e, member, rfl⟩
    obtain ⟨source, inside, made⟩ := List.mem_map.mp image
    have shapes : e.2.shape.tail = source.2.shape.tail := (congrArg (fun x => x.2.shape) made).symm
    rw [shapes]
    exact groups source inside
  · intro g source read j
    have moved : out.row g = d.row source := by
      rw [row, same]
      exact DataProto.row_pickRows aligned.toProto (perm_inside perms) read
    rw [entry, entry, moved]

end Tensors

section Columns

variable {k : Nat}

theorem get?_foldlM_foldColumn {entries : List (String × NdArray ω)}
    (distinct : (entries.map Prod.fst).Nodup) {columns out : Dict (NdArray ω)}
    (run : entries.foldlM (foldColumn k) columns = .ok out) :
    (∀ key, key ∉ entries.map Prod.fst → out.get? key = columns.get? key) ∧
    ∀ e ∈ entries, ∃ y, e.2.reshape (some k :: none :: e.2.shape.tail.map some) = .ok y ∧
      out.get? e.1 = some y := by
  induction entries generalizing columns with
  | nil =>
    cases run
    exact ⟨fun _ _ => rfl, by simp⟩
  | cons e entries ih =>
    obtain ⟨fresh, rest⟩ := List.nodup_cons.mp distinct
    rw [List.foldlM_cons] at run
    obtain ⟨next, first, run⟩ := bind_ok_iff.mp run
    obtain ⟨y, reshaped, same⟩ := bind_ok_iff.mp first
    cases same
    obtain ⟨others, each⟩ := ih rest run
    constructor
    · intro key missing
      rw [List.map_cons, List.mem_cons, not_or] at missing
      rw [others key missing.2, Dict.get?_set, if_neg missing.1]
    · intro f member
      rcases List.mem_cons.mp member with rfl | later
      · exact ⟨y, reshaped, by rw [others _ fresh, Dict.get?_set, if_pos rfl]⟩
      · exact each f later

theorem foldColumns_ok_iff {data after : BatchedProto τ ω μ} {columns : Dict (NdArray ω)} :
    foldColumns k columns data = (.ok (), after) ↔
    ∃ out, columns.entries.foldlM (foldColumn k) data.nonTensorBatch = .ok out ∧
      after = data.withColumns out := by
  have start : data = data.withColumns data.nonTensorBatch := rfl
  rw [start]
  refine Effect.forM_eq_ok_iff ?_ columns.entries data.nonTensorBatch after
  intro own entry s'
  have read : (data.withColumns own).nonTensorBatch = own := rfl
  rw [read]
  cases foldColumn k own entry with
  | error e => simp
  | ok out => simp [withColumns, eq_comm]

theorem foldBatchDim_changes {data : BatchedProto τ ω μ} {folded : BatchedProto τ ω μ}
    (run : foldBatchDim k data = (.ok folded, data)) :
    data.nonTensorBatch.entries = [] := by
  obtain ⟨tensor, s, first, run⟩ := Effect.bind_eq_ok_iff.mp run
  obtain ⟨-, rfl⟩ := Prod.mk.inj first
  obtain ⟨⟨⟩, after, loop, last⟩ := Effect.bind_eq_ok_iff.mp run
  obtain ⟨out, folds, rfl⟩ := foldColumns_ok_iff.mp loop
  have same : out = data.nonTensorBatch := congrArg (fun x => x.nonTensorBatch) (Prod.mk.inj last).2
  subst same
  obtain ⟨-, each⟩ := get?_foldlM_foldColumn data.nonTensorBatch.distinct folds
  cases entries : data.nonTensorBatch.entries with
  | nil => rfl
  | cons e rest =>
    have member : e ∈ data.nonTensorBatch.entries := by simp [entries]
    obtain ⟨y, reshaped, found⟩ := each e member
    rw [Dict.get?_of_mem member] at found
    cases found
    have longer := NdArray.length_shape_of_reshape reshaped
    simp only [List.length_cons, List.length_map, List.length_tail] at longer
    omega

end Columns

/-- Folding `n` rows into `k` groups puts consecutive rows together and leaves the argument as it
was; unfolding gives the data back, with its rows moved group by group when the groups were
reordered. -/
def FoldsRows (d : NdProto τ ω μ) (n k : Nat) : Prop :=
  ∃ folded : NdProto τ ω μ, foldBatchDim k d.batched = (.ok folded.batched, d.batched) ∧
    folded.Aligned k ∧ (∀ g < k, ∀ j < n / k, folded.entry g j = d.row (g * (n / k) + j)) ∧
    (∃ after, unfoldBatchDim 2 folded.batched = (.ok d.batched, after)) ∧
    ∀ perm, perm.Perm (List.range k) →
      ∃ (reordered out : NdProto τ ω μ) (after : BatchedProto τ ω μ),
        folded.reorder perm = .ok reordered ∧
        unfoldBatchDim 2 reordered.batched = (.ok out.batched, after) ∧ out.Aligned n ∧
      ∀ g source, perm[g]? = some source → ∀ j < n / k,
        out.row (g * (n / k) + j) = d.row (source * (n / k) + j)

section FoldAndReorder

variable {k n : Nat} {d : NdProto τ ω μ} {td : NdDict τ}

theorem foldsRows_of_tensors (aligned : d.Aligned n) (divides : k ∣ n) (present : d.batch = some td)
    (positive : 0 < n)
    (plain : d.nonTensorBatch.entries = []) (known : td.tensors.entries ≠ [] ∨ k = n) :
    FoldsRows d n k := by
  obtain ⟨m, rfl⟩ := divides
  have groups : 0 < k := Nat.pos_of_mul_pos_right positive
  have quotient : k * m / k = m := Nat.mul_div_cancel_left m groups
  have size := aligned.batch td present
  obtain ⟨tensors, run, count, shapes⟩ := foldBatchDim_tensors present plain size positive
  have inner : ∀ e ∈ tensors.tensors.entries, e.2.shape.tail.head? = some m := by
    rw [shapes]
    intro e member
    obtain ⟨source, inside, rfl⟩ := List.mem_map.mp member
    rw [NdArray.shape_withShape (prod_folded aligned present inside)]
    rfl
  have own : (⟨some tensors, d.nonTensorBatch, d.metaInfo⟩ : NdProto τ ω μ).Aligned k :=
    ⟨fun _ same => Option.some.inj same ▸ count, by simp [plain]⟩
  have nonempty : tensors.tensors.entries ≠ [] ∨ m = 1 := by
    rcases known with some | whole
    · left
      rw [shapes]
      simpa [Dict.mapKV] using some
    · right
      exact Nat.eq_of_mul_eq_mul_left groups (by rw [Nat.mul_one]; exact whole.symm)
  refine ⟨_, run, own, ?_, ?_, ?_⟩
  · rw [quotient]
    exact fun g hg j hj => entry_folded aligned present plain shapes hg hj
  · obtain ⟨flat, after, back, rows, same⟩ :=
      unfoldBatchDim_tensors (d := ⟨some tensors, d.nonTensorBatch, d.metaInfo⟩) rfl plain count
      inner nonempty positive
    refine ⟨after, back.trans ?_⟩
    have restored : flat = td := by
      have columns : flat.tensors = td.tensors := by
        rw [same, shapes, unfolded_folded aligned present]
      cases flat
      cases td
      cases columns
      cases rows.trans size.symm
      rfl
    rw [restored, ← present]
  · intro perm perms
    obtain ⟨reordered, taken, moved, ownMoved, there, plainMoved, empty, innerMoved, entries⟩ :=
      reorder_groups own rfl plain inner perms
    have nonemptyMoved : taken.tensors.entries ≠ [] ∨ m = 1 :=
      nonempty.imp_left (fun some none => some (empty.mp none))
    obtain ⟨flat, after, back, rows, same⟩ :=
      unfoldBatchDim_tensors there plainMoved (ownMoved.batch taken there) innerMoved
      nonemptyMoved positive
    refine ⟨reordered, _, after, moved, back,
      ⟨fun _ own => Option.some.inj own ▸ rows, by simp [plainMoved]⟩, ?_⟩
    rw [quotient]
    intro g source read j hj
    have hg : g < k := by
      have inside := (List.getElem?_eq_some_iff.mp read).1
      rwa [perm_length perms] at inside
    have from_group : source < k := perm_inside perms source (List.mem_of_getElem? read)
    rw [row_unfolded ownMoved there plainMoved innerMoved same hg hj, entries g source read j,
      entry_folded aligned present plain shapes from_group hj]

theorem one_le_of_unfoldBatchDim {data out after : BatchedProto τ ω μ} {batchDims : Nat}
    (run : unfoldBatchDim batchDims data = (.ok out, after)) :
    ∃ flat size, out.batch = some flat ∧ flat.batchSize = [size] ∧ 1 ≤ size := by
  unfold unfoldBatchDim at run
  cases present : data.batch with
  | none =>
    rw [present] at run
    cases run
  | some tensor =>
    rw [present] at run
    obtain ⟨flat, viewed, run⟩ := bind_ok_iff.mp (Prod.mk.inj run).1
    obtain ⟨batchSize, first, run⟩ := bind_ok_iff.mp run
    obtain ⟨columns, -, run⟩ := bind_ok_iff.mp run
    obtain ⟨u, -, same⟩ := bind_ok_iff.mp run
    cases same
    refine ⟨flat, max 1 (tensor.autoBatchSize batchDims).batchSize.prod, rfl, ?_,
      Nat.le_max_left _ _⟩
    rw [BatchedDict.view, NdArray.inferSize_flat] at viewed
    obtain ⟨tensors, -, made⟩ := bind_ok_iff.mp viewed
    unfold BatchedDict.new at made
    split at made
    · cases made
      rfl
    · cases made

/-- Folding leaves its argument alone, and can be undone, for data with a row, a tensordict, no
object column, and a tensor that holds the size of the groups. -/
theorem foldsRows_iff (aligned : d.Aligned n) (divides : k ∣ n) :
    FoldsRows d n k ↔ ∃ td, d.batch = some td ∧ 0 < n ∧ d.nonTensorBatch.entries = [] ∧
      (td.tensors.entries ≠ [] ∨ k = n) := by
  constructor
  · rintro ⟨folded, run, -, -, ⟨after, back⟩, -⟩
    have plain : d.nonTensorBatch.entries = [] := foldBatchDim_changes run
    obtain ⟨flat, size, there, sizes, one⟩ := one_le_of_unfoldBatchDim back
    obtain ⟨td, present, rfl⟩ := Option.map_eq_some_iff.mp there
    have rows := aligned.batch td present
    rw [NdDict.batchSize_batched, List.cons.injEq] at sizes
    have positive : 0 < n := by
      rw [← rows, sizes.1]
      exact one
    refine ⟨td, present, positive, plain, ?_⟩
    by_cases empty : td.tensors.entries = []
    · right
      obtain ⟨m, rfl⟩ := divides
      have groups : 0 < k * 1 := by
        rw [Nat.mul_one]
        exact Nat.pos_of_mul_pos_right positive
      obtain ⟨tensors, again, count, shapes⟩ := foldBatchDim_tensors present plain rows positive
      have same : folded.batched = batched ⟨some tensors, d.nonTensorBatch, d.metaInfo⟩ :=
        Except.ok.inj (Prod.mk.inj (run.symm.trans again)).1
      have none : tensors.tensors.entries = [] := by
        rw [shapes]
        simp [Dict.mapKV, empty]
      obtain ⟨out, after', flat, outRows, -⟩ :=
        unfoldBatchDim_tensors (d := ⟨some tensors, d.nonTensorBatch, d.metaInfo⟩)
          (m := 1) rfl plain
        count (by simp [none]) (.inr rfl) groups
      rw [← same] at flat
      have returned := Except.ok.inj (Prod.mk.inj (back.symm.trans flat)).1
      have batches := congrArg (fun p : BatchedProto τ ω μ =>
        p.batch.map BatchedDict.batchSize) returned
      simp only [batched, present, Option.map_some, NdDict.batchSize_batched, Option.some.injEq,
        List.cons.injEq, and_true] at batches
      rw [rows, outRows, Nat.mul_one] at batches
      exact batches.symm
    · exact .inl empty
  · rintro ⟨td, present, positive, plain, known⟩
    exact foldsRows_of_tensors aligned divides present positive plain known

end FoldAndReorder

section Groups

def fourObs : NdProto Nat Nat Nat :=
  ⟨some ⟨4, ⟨[("obs", ⟨[4, 2], [1, 2, 3, 4, 5, 6, 7, 8], rfl⟩)], by simp⟩, by simp⟩, .empty, .empty⟩

theorem fourObs_foldsRows : FoldsRows fourObs 4 2 := by
  have aligned : fourObs.Aligned 4 := ⟨by rintro td ⟨⟩; rfl, by simp [fourObs, Dict.empty]⟩
  exact (foldsRows_iff aligned ⟨2, rfl⟩).mpr ⟨_, rfl, by decide, rfl, .inl (by simp)⟩

/-- With a column of labels, the labels of the argument are folded too, and no longer fit its
tensors. -/
theorem not_foldsRows_labels :
    (matrices (some obs)).Aligned 2 ∧ 1 ∣ 2 ∧ ¬FoldsRows (matrices (some obs)) 2 1 ∧
    ∃ folded after, foldBatchDim 1 (matrices (some obs)).batched = (.ok folded, after) ∧
      after.nonTensorBatch.get? "labels" = some ⟨[1, 2, 1], [8, 9], rfl⟩ ∧
      after.checkConsistency =
        .error (.assertion "key labels length 1 is not equal to batch size 2") := by
  refine ⟨aligned_matrices (by rintro td ⟨⟩; rfl), ⟨2, rfl⟩, ?_, _, _, rfl, rfl, rfl⟩
  rintro ⟨folded, run, -⟩
  have none := foldBatchDim_changes run
  simp [batched, matrices] at none

end Groups

end NdProto

end Verl.Protocol
