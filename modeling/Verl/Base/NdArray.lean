import Mathlib.Algebra.BigOperators.Group.List.Basic
import Verl.Base.Reindex

/-! Arrays of any number of dimensions, as numpy and torch keep them: a shape, and the cells in
row-major order. The operations here act on dim 0, and are read through the rows along it. -/
namespace Verl

structure NdArray (α : Type) where
  shape : List Nat
  data : List α
  size : data.length = shape.prod
  deriving DecidableEq

namespace NdArray

variable {α : Type}

section Model

def rows (x : NdArray α) : List (List α) :=
  match x.shape with
  | [] => []
  | n :: rest => blocks rest.prod n x.data

theorem length_flatten {rows : List (List α)} {w : Nat} (width : ∀ row ∈ rows, row.length = w) :
    rows.flatten.length = rows.length * w := by
  induction rows with
  | nil => simp
  | cons row rows ih =>
    rw [List.flatten_cons, List.length_append,
      ih (fun other member => width other (List.mem_cons_of_mem row member)),
      width row List.mem_cons_self, List.length_cons, Nat.add_one_mul, Nat.add_comm]

def ofRows (rest : List Nat) (rows : List (List α)) (width : ∀ row ∈ rows, row.length = rest.prod) :
    NdArray α :=
  ⟨rows.length :: rest, rows.flatten, by rw [length_flatten width, List.prod_cons]⟩

theorem width_rows {x : NdArray α} {n : Nat} {rest : List Nat} (shape : x.shape = n :: rest) :
    ∀ row ∈ x.rows, row.length = rest.prod := by
  have size := x.size
  rw [shape, List.prod_cons] at size
  rw [rows, shape]
  exact length_of_mem_blocks size

def repeat0 (m : Nat) (x : NdArray α) : Py (NdArray α) :=
  match shape : x.shape with
  | [] => .error (.value "axis 0 is out of bounds for array of dimension 0")
  | _ :: rest => .ok (ofRows rest (x.rows.flatMap (List.replicate m)) (by
      intro row member
      obtain ⟨source, inside, copy⟩ := List.mem_flatMap.mp member
      rw [List.eq_of_mem_replicate copy]
      exact width_rows shape source inside))

def take0 (idx : List Nat) (x : NdArray α) : Py (NdArray α) :=
  match shape : x.shape with
  | [] => .error .index
  | n :: rest =>
    if idx.all (· < n) then
      .ok (ofRows rest (pick x.rows idx) (fun row member =>
        width_rows shape row (mem_of_mem_pick member)))
    else .error .index

def unsqueeze0 (x : NdArray α) : NdArray α :=
  ⟨1 :: x.shape, x.data, by rw [List.prod_cons, Nat.one_mul, x.size]⟩

/-- `x.expand(m, *x.shape[1:])`: a dim of length 1 is read `m` times. -/
def expand0 (m : Nat) (x : NdArray α) : Py (NdArray α) :=
  match shape : x.shape with
  | [] => .error (.runtime "expand")
  | n :: rest =>
    if one : n = 1 then
      .ok ⟨m :: rest, (List.replicate m x.data).flatten, by
        have size := x.size
        rw [shape, one, List.prod_cons, Nat.one_mul] at size
        simp [size]⟩
    else if n = m then .ok x
    else .error (.runtime
      "The expanded size of the tensor must match the existing size at non-singleton dimension 0")

def reshapeRows (rest : List Nat) (x : NdArray α) : Py (NdArray α) :=
  if rest.prod = 0 then
    .error (.runtime "the unspecified dimension size -1 can be any value and is ambiguous")
  else if fits : rest.prod ∣ x.data.length then
    .ok ⟨x.data.length / rest.prod :: rest, x.data, by rw [List.prod_cons, Nat.div_mul_cancel fits]⟩
  else .error (.runtime "shape is invalid for input")

def tileData : List Nat → List Nat → List α → List α
  | n :: shape, r :: reps, data =>
    (List.replicate r ((blocks shape.prod n data).flatMap (tileData shape reps))).flatten
  | _, _, data => data

theorem length_tileData {shape reps : List Nat} (same : shape.length = reps.length) {data : List α}
    (size : data.length = shape.prod) :
    (tileData shape reps data).length = (List.zipWith (· * ·) shape reps).prod := by
  induction shape generalizing reps data with
  | nil => cases reps <;> simpa [tileData] using size
  | cons n shape ih =>
    cases reps with
    | nil => cases same
    | cons r reps =>
      rw [List.prod_cons] at size
      have each : ∀ part ∈ blocks shape.prod n data,
          (tileData shape reps part).length = (List.zipWith (· * ·) shape reps).prod := by
        intro part member
        exact ih (Nat.succ.inj same) (length_of_mem_blocks size part member)
      have once : ((blocks shape.prod n data).flatMap (tileData shape reps)).length =
          n * (List.zipWith (· * ·) shape reps).prod := by
        rw [List.flatMap_def, length_flatten (List.forall_mem_map.mpr each), List.length_map,
          length_blocks]
      have copies : ∀ row ∈ List.replicate r ((blocks shape.prod n data).flatMap (tileData shape reps)),
          row.length = n * (List.zipWith (· * ·) shape reps).prod := by
        intro row member
        rw [List.eq_of_mem_replicate member, once]
      rw [tileData, length_flatten copies, List.length_replicate, List.zipWith_cons_cons,
        List.prod_cons, Nat.mul_left_comm, Nat.mul_assoc]

/-- `np.tile(x, reps)`: the shorter of shape and `reps` is filled up with ones in front. -/
def tile (reps : List Nat) (x : NdArray α) : NdArray α :=
  let shape := List.replicate (reps.length - x.shape.length) 1 ++ x.shape
  let reps := List.replicate (x.shape.length - reps.length) 1 ++ reps
  ⟨List.zipWith (· * ·) shape reps, tileData shape reps x.data, by
    apply length_tileData
    · simp only [shape, reps, List.length_append, List.length_replicate]
      omega
    · simp [shape, x.size]⟩

/-- `x.view(shape)`: the same cells under another shape. -/
def view (shape : List Nat) (x : NdArray α) : Py (NdArray α) :=
  if size : x.data.length = shape.prod then .ok ⟨shape, x.data, size⟩
  else .error (.runtime "shape is invalid for input")

def inferSize (shape : List (Option Nat)) (numel : Nat) : Option (List Nat) :=
  let newsize := (shape.filterMap id).prod
  if none ∈ shape then
    if 0 < newsize ∧ newsize ∣ numel then
      some (shape.map (fun dim => dim.getD (numel / newsize)))
    else none
  else if numel = newsize then some (shape.filterMap id) else none

def reshape (newshape : List (Option Nat)) (x : NdArray α) : Py (NdArray α) :=
  match inferSize newshape x.data.length with
  | some shape => x.view shape
  | none => .error (.value "cannot reshape array")

end Model

variable {x : NdArray α} {n : Nat} {rest : List Nat}

theorem length_rows (shape : x.shape = n :: rest) : x.rows.length = n := by
  rw [rows, shape]
  exact length_blocks rest.prod n x.data

theorem flatten_rows (shape : x.shape = n :: rest) : x.rows.flatten = x.data := by
  have size := x.size
  rw [shape, List.prod_cons] at size
  rw [rows, shape]
  exact flatten_blocks rest.prod n x.data (Nat.le_of_eq size)

theorem rows_eq {rs : List (List α)} (shape : x.shape = n :: rest) (count : rs.length = n)
    (width : ∀ row ∈ rs, row.length = rest.prod) (cells : x.data = rs.flatten) : x.rows = rs := by
  subst count
  rw [rows, shape, cells]
  exact blocks_flatten rest.prod rs width

theorem rows_ofRows {rs : List (List α)} (width : ∀ row ∈ rs, row.length = rest.prod) :
    (ofRows rest rs width).rows = rs :=
  rows_eq rfl rfl width rfl

theorem repeat0_eq (shape : x.shape = n :: rest) (m : Nat) :
    ∃ y, x.repeat0 m = .ok y ∧ y.shape = n * m :: rest ∧
      y.rows = x.rows.flatMap (List.replicate m) := by
  unfold repeat0
  split
  case h_1 none => cases shape.symm.trans none
  case h_2 n' rest' same =>
    cases shape.symm.trans same
    refine ⟨_, rfl, ?_, rows_ofRows _⟩
    simp [ofRows, List.length_flatMap, length_rows shape]

theorem take0_eq (shape : x.shape = n :: rest) {idx : List Nat} (inside : ∀ i ∈ idx, i < n) :
    ∃ y, x.take0 idx = .ok y ∧ y.shape = idx.length :: rest ∧ y.rows = pick x.rows idx := by
  have below : idx.all (· < n) = true := by simpa using inside
  unfold take0
  split
  case h_1 none => cases shape.symm.trans none
  case h_2 n' rest' same =>
    cases shape.symm.trans same
    rw [if_pos below]
    refine ⟨_, rfl, ?_, rows_ofRows _⟩
    have count : (pick x.rows idx).length = idx.length := by
      apply length_pick
      rwa [length_rows shape]
    exact congrArg (· :: rest) count

theorem width_replicate (shape : x.shape = n :: rest) (m : Nat) :
    ∀ row ∈ (List.replicate m x.rows).flatten, row.length = rest.prod := by
  intro row member
  obtain ⟨copy, inside, here⟩ := List.mem_flatten.mp member
  rw [List.eq_of_mem_replicate inside] at here
  exact width_rows shape row here

theorem flatten_replicate_rows (shape : x.shape = n :: rest) (m : Nat) :
    (List.replicate m x.rows).flatten.flatten = (List.replicate m x.data).flatten := by
  rw [List.flatten_flatten, List.map_replicate, flatten_rows shape]

theorem expand_unsqueeze (x : NdArray α) (m : Nat) :
    ∃ expanded, x.unsqueeze0.expand0 m = .ok expanded ∧
    expanded.data = (List.replicate m x.data).flatten :=
  ⟨⟨m :: x.shape, _, by simp [unsqueeze0, x.size]⟩, rfl, rfl⟩

theorem reshapeRows_copies {expanded : NdArray α} {m : Nat} (shape : x.shape = n :: rest)
    (copies : expanded.data = (List.replicate m x.data).flatten)
    (cells : rest.prod ≠ 0) : ∃ y, expanded.reshapeRows rest = .ok y ∧ y.shape = m * n :: rest ∧
      y.rows = (List.replicate m x.rows).flatten := by
  have size := x.size
  rw [shape, List.prod_cons] at size
  have length : expanded.data.length = m * n * rest.prod := by
    simp [copies, size, Nat.mul_assoc]
  have fits : rest.prod ∣ expanded.data.length := length ▸ Nat.dvd_mul_left rest.prod (m * n)
  have count : expanded.data.length / rest.prod = m * n := by
    rw [length, Nat.mul_div_cancel _ (Nat.pos_of_ne_zero cells)]
  refine ⟨⟨m * n :: rest, expanded.data, by rw [length, List.prod_cons]⟩, ?_, rfl, ?_⟩
  · simp only [reshapeRows, if_neg cells, dif_pos fits, count]
  · apply rows_eq rfl
    · simp [length_rows shape]
    · exact width_replicate shape m
    · exact copies.trans (flatten_replicate_rows shape m).symm

theorem reshapeRows_ambiguous (none : rest.prod = 0) :
    x.reshapeRows rest =
      .error (.runtime "the unspecified dimension size -1 can be any value and is ambiguous") :=
  if_pos none

theorem tileData_ones (shape : List Nat) {data : List α} (size : data.length = shape.prod) :
    tileData shape (List.replicate shape.length 1) data = data := by
  induction shape generalizing data with
  | nil => rfl
  | cons n shape ih =>
    rw [List.prod_cons] at size
    have same : (blocks shape.prod n data).flatMap
        (tileData shape (List.replicate shape.length 1)) =
        (blocks shape.prod n data).flatMap id := by
      apply List.flatMap_congr
      intro part member
      exact ih (length_of_mem_blocks size part member)
    rw [List.length_cons, List.replicate_succ, tileData, same, List.flatMap_id]
    simp [flatten_blocks shape.prod n data (Nat.le_of_eq size)]

theorem zipWith_ones (shape : List Nat) :
    List.zipWith (· * ·) shape (List.replicate shape.length 1) = shape := by
  induction shape with
  | nil => rfl
  | cons n shape ih => simp [List.replicate_succ, ih]

theorem tile_eq (shape : x.shape = n :: rest) (m : Nat) :
    (x.tile (m :: List.replicate rest.length 1)).shape = n * m :: rest ∧
    (x.tile (m :: List.replicate rest.length 1)).rows = (List.replicate m x.rows).flatten := by
  have size := x.size
  rw [shape, List.prod_cons] at size
  have shaped : (x.tile (m :: List.replicate rest.length 1)).shape = n * m :: rest := by
    simp [tile, shape, zipWith_ones]
  have cells : (x.tile (m :: List.replicate rest.length 1)).data =
      (List.replicate m x.data).flatten := by
    have same : (blocks rest.prod n x.data).flatMap (tileData rest (List.replicate rest.length 1)) =
        (blocks rest.prod n x.data).flatMap id := by
      apply List.flatMap_congr
      intro part member
      exact tileData_ones rest (length_of_mem_blocks size part member)
    simp [tile, shape, tileData, same, flatten_blocks rest.prod n x.data (Nat.le_of_eq size)]
  refine ⟨shaped, rows_eq shaped ?_ (width_replicate shape m) ?_⟩
  · simp [length_rows shape, Nat.mul_comm]
  · rw [cells, flatten_replicate_rows shape m]

section Views

theorem view_ok {y : NdArray α} {shape : List Nat} :
    x.view shape = .ok y ↔ y.shape = shape ∧ y.data = x.data := by
  unfold view
  constructor
  · intro run
    split at run
    · cases run
      exact ⟨rfl, rfl⟩
    · cases run
  · rintro ⟨rfl, cells⟩
    rw [dif_pos (cells ▸ y.size)]
    obtain ⟨shape, data, size⟩ := y
    cases cells
    rfl

def withShape (shape : List Nat) (x : NdArray α) : NdArray α :=
  if size : x.data.length = shape.prod then ⟨shape, x.data, size⟩ else x

@[simp] theorem data_withShape (shape : List Nat) (x : NdArray α) :
    (x.withShape shape).data = x.data := by
  unfold withShape
  split <;> rfl

theorem shape_withShape {shape : List Nat} (same : shape.prod = x.shape.prod) :
    (x.withShape shape).shape = shape := by
  rw [withShape, dif_pos (x.size.trans same.symm)]

theorem view_eq {shape : List Nat} (same : shape.prod = x.shape.prod) :
    x.view shape = .ok (x.withShape shape) :=
  view_ok.mpr ⟨shape_withShape same, data_withShape shape x⟩

theorem inferSize_leading {k m : Nat} (positive : 0 < k) :
    inferSize [some k, none] (k * m) = some [k, m] := by
  simp [inferSize, positive]

theorem inferSize_flat (numel : Nat) : inferSize [none] numel = some [numel] := by
  simp [inferSize]

theorem length_filterMap_id {shape : List (Option Nat)} (given : none ∉ shape) :
    (shape.filterMap id).length = shape.length := by
  induction shape with
  | nil => rfl
  | cons dim shape ih =>
    cases dim with
    | none => exact absurd List.mem_cons_self given
    | some k => exact congrArg (· + 1) (ih (fun member => given (List.mem_cons_of_mem _ member)))

theorem length_of_inferSize {shape : List (Option Nat)} {numel : Nat} {out : List Nat}
    (run : inferSize shape numel = some out) :
    out.length = shape.length := by
  unfold inferSize at run
  simp only at run
  split at run
  · split at run
    · cases run
      exact List.length_map _
    · cases run
  · rename_i given
    split at run
    · cases run
      exact length_filterMap_id given
    · cases run

theorem length_shape_of_reshape {newshape : List (Option Nat)} {y : NdArray α}
    (run : x.reshape newshape = .ok y) :
    y.shape.length = newshape.length := by
  unfold reshape at run
  split at run
  case h_1 shape found => rw [(view_ok.mp run).1, length_of_inferSize found]
  case h_2 => cases run

theorem ext_data {y : NdArray α} (shape : x.shape = y.shape) (data : x.data = y.data) : x = y := by
  cases x
  cases y
  cases shape
  cases data
  rfl

end Views

/-- Cell `j` of the rows when each of them is cut into `m`, as a row of the array whose dim 0 is
cut. -/
theorem getElem?_blocks_block {w m k g j : Nat} {data : List α} (hg : g < k) (hj : j < m) :
    (blocks w m (block (m * w) g data))[j]? = (blocks w (k * m) data)[g * m + j]? := by
  have inside : g * m + j < k * m := by
    have room : (g + 1) * m ≤ k * m := Nat.mul_le_mul_right m hg
    rw [Nat.succ_mul] at room
    omega
  rw [List.getElem?_eq_getElem (by simpa using hj),
    List.getElem?_eq_getElem (by simpa using inside), getElem_blocks, getElem_blocks, block_eq,
    block_eq, block_eq]
  have cut : min w (m * w - j * w) = w := by
    have room : (j + 1) * w ≤ m * w := Nat.mul_le_mul_right w hj
    rw [Nat.succ_mul] at room
    omega
  rw [List.drop_take, List.drop_drop, List.take_take, cut, ← Nat.mul_assoc, ← Nat.add_mul]

end NdArray

end Verl
