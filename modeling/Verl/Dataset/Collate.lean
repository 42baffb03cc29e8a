import Verl.Dataset.Rlhf
import Verl.Protocol.Flow

/-! `collate_fn` of `rl_dataset.py`, and the batch that the trainer makes of its result. `np.array`
looks for a shape in the values it is given: sequences of one length become a dimension of the
array. -/
namespace Verl.Dataset
open Rollout (Cell)
open Protocol

variable {Ω : Type}

section NumPy

/-- `len(value)`, of a value that numpy takes for a sequence. -/
def PyValue.len? : PyValue Ω → Option Nat
  | .list items => some items.length
  | .array items => some items.length
  | _ => none

def commonPrefix₂ : List Nat → List Nat → List Nat
  | a :: as, b :: bs => if a = b then a :: commonPrefix₂ as bs else []
  | _, _ => []

def commonPrefix : List (List Nat) → List Nat
  | [] => []
  | [shape] => shape
  | shape :: shapes => commonPrefix₂ shape (commonPrefix shapes)

/-- The shape that numpy discovers in one value, with at most `dims` dimensions. It does not look
into an array, whose shape it knows. -/
def discover : Nat → PyValue Ω → List Nat
  | 0, _ => []
  | dims + 1, .list items => items.length :: commonPrefix (items.map (discover dims))
  | _ + 1, .array items => [items.length]
  | _ + 1, _ => []

/-- The value as it is stored in an array: `ndim` dimensions of it belong to the array. -/
def asArray : Nat → PyValue Ω → PyValue Ω
  | 0, value => value
  | ndim + 1, .list items => .array (items.map (asArray ndim))
  | _ + 1, value => value

/-- `np.array(val, dtype=object)` of a non-empty list, with at most 32 dimensions. -/
def npArray (val : List (PyValue Ω)) : Column (PyValue Ω) :=
  let shape := commonPrefix (val.map (discover 31))
  ⟨shape, val.map (asArray shape.length)⟩

end NumPy

section Collate

def appendTo {α : Type} (d : Dict (List α)) (key : String) (val : α) : Dict (List α) :=
  d.set key ((d.get? key).getD [] ++ [val])

structure Collected (Ω : Type) where
  tensors : Dict (List Cell)
  nonTensors : Dict (List (PyValue Ω))

def collectField (s : Collected Ω) (entry : String × Field Ω) : Collected Ω :=
  match entry.2 with
  | .tensor cell => { s with tensors := appendTo s.tensors entry.1 cell }
  | .value value => { s with nonTensors := appendTo s.nonTensors entry.1 value }

def collect (dataList : List (Dict (Field Ω))) : Collected Ω :=
  dataList.foldl (fun s data => data.entries.foldl collectField s) ⟨.empty, .empty⟩

def cellShape : Cell → List Nat
  | .vec xs => [xs.length]
  | .mat xss => [xss.length, (xss.headD []).length]

def stackCells (val : List Cell) : Py (Column Cell) :=
  match val with
  | [] => .error (.runtime "stack expects a non-empty TensorList")
  | first :: rest =>
    if rest.all (fun cell => cellShape cell = cellShape first) then .ok ⟨cellShape first, val⟩
    else .error (.runtime "stack expects each tensor to be equal size")

inductive BatchValue (Ω : Type) where
  | tensor (column : Column Cell)
  | array (column : Column (PyValue Ω))

def mergeDicts (tensors : Dict (Column Cell)) (nonTensors : Dict (Column (PyValue Ω))) :
    Dict (BatchValue Ω) :=
  nonTensors.entries.foldl (fun d entry => d.set entry.1 (.array entry.2))
    (tensors.mapKV (fun _ column => .tensor column))

def collateFn (dataList : List (Dict (Field Ω))) : Py (Dict (BatchValue Ω)) := do
  let collected := collect dataList
  let tensors ← collected.tensors.mapKVM (fun _ val => stackCells val)
  return mergeDicts tensors (collected.nonTensors.mapKV (fun _ val => npArray val))

def selectValues {α β : Type} (f : α → Option β) (d : Dict α) : Dict β where
  entries := d.entries.filterMap (fun e => (f e.2).map (Prod.mk e.1))
  distinct := by
    have names : ((d.entries.filterMap (fun e => (f e.2).map (Prod.mk e.1))).map Prod.fst).Sublist
        (d.entries.map Prod.fst) := by
      induction d.entries with
      | nil => simp
      | cons e entries ih =>
        cases found : f e.2 with
        | none => simpa [found] using ih.cons e.1
        | some value => simpa [found] using ih.cons_cons e.1
    exact d.distinct.sublist names

def fromSingleDict {μ : Type} (data : Dict (BatchValue Ω)) (metaInfo : Dict μ) :
    Py (DataProto Cell (PyValue Ω) μ) :=
  let tensors := selectValues (fun value => match value with
    | .tensor column => some column
    | .array _ => none) data
  let nonTensors := selectValues (fun value => match value with
    | .tensor _ => none
    | .array column => some column) data
  -- `np.array` of an array is a copy of it
  DataProto.fromDict tensors nonTensors metaInfo

end Collate

section Shape

variable {val : List (PyValue Ω)}

theorem head?_commonPrefix₂ (a b : List Nat) (k : Nat) :
    (commonPrefix₂ a b).head? = some k ↔ a.head? = some k ∧ b.head? = some k := by
  cases a with
  | nil => simp [commonPrefix₂]
  | cons x a =>
    cases b with
    | nil => simp [commonPrefix₂]
    | cons y b =>
      by_cases same : x = y
      · subst same
        simp [commonPrefix₂]
      · simp only [commonPrefix₂, if_neg same, List.head?_nil, List.head?_cons, Option.some.injEq,
          reduceCtorEq, false_iff]
        omega

theorem head?_commonPrefix {shapes : List (List Nat)} (nonempty : shapes ≠ []) (k : Nat) :
    (commonPrefix shapes).head? = some k ↔ ∀ shape ∈ shapes, shape.head? = some k := by
  induction shapes with
  | nil => exact absurd rfl nonempty
  | cons shape shapes ih =>
    cases shapes with
    | nil => simp [commonPrefix]
    | cons next rest =>
      rw [commonPrefix, head?_commonPrefix₂, ih (by simp)]
      · simp
      · simp

theorem head?_discover (dims : Nat) (value : PyValue Ω) :
    (discover (dims + 1) value).head? = value.len? := by
  cases value <;> rfl

theorem npArray_shape_iff (nonempty : val ≠ []) :
    (npArray val).shape = [] ↔ ¬∃ k, ∀ v ∈ val, v.len? = some k := by
  have first : ∀ k, (npArray val).shape.head? = some k ↔ ∀ v ∈ val, v.len? = some k := by
    intro k
    rw [npArray, head?_commonPrefix (by simpa using nonempty)]
    simp [head?_discover]
  simp only [← first, ← Option.isSome_iff_exists]
  cases (npArray val).shape <;> simp

theorem npArray_rows (flat : (npArray val).shape = []) : npArray val = ⟨[], val⟩ := by
  have rows : (npArray val).rows = val.map (asArray (npArray val).shape.length) := rfl
  rw [flat] at rows
  have plain : val.map (asArray ([] : List Nat).length) = val := by
    conv => rhs; rw [← List.map_id val]
    rfl
  rw [plain] at rows
  cases column : npArray val with
  | mk shape values =>
    rw [column] at flat rows
    cases flat
    cases rows
    rfl

end Shape

section Keys

variable {key : String}

theorem get?_collectField (s : Collected Ω) (entry : String × Field Ω) :
    (collectField s entry).nonTensors.get? key = match entry.2 with
      | .value v =>
        if key = entry.1 then some ((s.nonTensors.get? key).getD [] ++ [v])
        else s.nonTensors.get? key
      | .tensor _ => s.nonTensors.get? key := by
  unfold collectField
  cases entry.2 with
  | tensor cell => rfl
  | value v =>
    simp only [appendTo, Dict.get?_set]
    split
    · rename_i same
      rw [same]
    · rfl

theorem get?_collectRow_missing {entries : List (String × Field Ω)}
    (missing : key ∉ entries.map Prod.fst) (s : Collected Ω) :
    (entries.foldl collectField s).nonTensors.get? key = s.nonTensors.get? key := by
  induction entries generalizing s with
  | nil => rfl
  | cons entry entries ih =>
    simp only [List.map_cons, List.mem_cons, not_or] at missing
    rw [List.foldl_cons, ih missing.2, get?_collectField]
    cases entry.2 with
    | tensor cell => rfl
    | value v => exact if_neg missing.1

theorem get?_collectRow {entries : List (String × Field Ω)}
    (distinct : (entries.map Prod.fst).Nodup) {v : PyValue Ω}
    (member : (key, Field.value v) ∈ entries) (s : Collected Ω) :
    (entries.foldl collectField s).nonTensors.get? key =
      some ((s.nonTensors.get? key).getD [] ++ [v]) := by
  induction entries generalizing s with
  | nil => cases member
  | cons entry entries ih =>
    simp only [List.map_cons, List.nodup_cons] at distinct
    rw [List.foldl_cons]
    rcases List.mem_cons.mp member with rfl | later
    · rw [get?_collectRow_missing distinct.1, get?_collectField]
      exact if_pos rfl
    · have other : key ≠ entry.1 := by
        rintro rfl
        exact distinct.1 (List.mem_map.mpr ⟨_, later, rfl⟩)
      rw [ih distinct.2 later, get?_collectField]
      cases entry.2 with
      | tensor cell => rfl
      | value w => simp [other]

theorem get?_collect {dataList : List (Dict (Field Ω))} {vals : List (PyValue Ω)}
    (values : List.Forall₂ (fun row v => row.get? key = some (.value v)) dataList vals)
    (s : Collected Ω) (nonempty : dataList ≠ []) :
    (dataList.foldl (fun s data => data.entries.foldl collectField s) s).nonTensors.get? key =
      some ((s.nonTensors.get? key).getD [] ++ vals) := by
  induction values generalizing s with
  | nil => exact absurd rfl nonempty
  | @cons row v rows vals found rest ih =>
    have first := get?_collectRow row.distinct (Dict.mem_of_get? found) s
    rw [List.foldl_cons]
    by_cases last : rows = []
    · subst last
      cases rest
      simpa using first
    · rw [ih _ last, first]
      simp

theorem get?_mergeDicts (tensors : Dict (Column Cell)) {nonTensors : Dict (Column (PyValue Ω))}
    {column : Column (PyValue Ω)} (found : nonTensors.get? key = some column) :
    (mergeDicts tensors nonTensors).get? key = some (.array column) := by
  have kept : ∀ (entries : List (String × Column (PyValue Ω))) (d : Dict (BatchValue Ω)),
    (entries.map Prod.fst).Nodup →
      (d.get? key = some (.array column) ∧ key ∉ entries.map Prod.fst ∨ (key, column) ∈ entries) →
      (entries.foldl (fun d entry => d.set entry.1 (.array entry.2)) d).get? key =
        some (.array column) := by
    intro entries
    induction entries with
    | nil =>
      rintro d - (⟨here, -⟩ | absent)
      · exact here
      · cases absent
    | cons entry entries ih =>
      intro d distinct where_
      simp only [List.map_cons, List.nodup_cons] at distinct
      rw [List.foldl_cons]
      apply ih _ distinct.2
      rcases where_ with ⟨here, missing⟩ | member
      · simp only [List.map_cons, List.mem_cons, not_or] at missing
        left
        exact ⟨by rw [Dict.get?_set, if_neg missing.1, here], missing.2⟩
      · rcases List.mem_cons.mp member with rfl | later
        · left
          exact ⟨by rw [Dict.get?_set, if_pos rfl], distinct.1⟩
        · right
          exact later
  exact kept nonTensors.entries _ nonTensors.distinct (.inr (Dict.mem_of_get? found))

theorem get?_selectValues {α β : Type} {f : α → Option β} {d : Dict α} {value : α} {chosen : β}
    (found : d.get? key = some value)
    (selected : f value = some chosen) : (selectValues f d).get? key = some chosen := by
  have member : (key, chosen) ∈ (selectValues f d).entries :=
    List.mem_filterMap.mpr ⟨(key, value), Dict.mem_of_get? found, by simp [selected]⟩
  exact Dict.get?_of_mem member

end Keys

section Own

variable {dataList : List (Dict (Field Ω))} {collated : Dict (BatchValue Ω)} {key : String}
  {vals : List (PyValue Ω)} {μ : Type} {metaInfo : Dict μ} {source : DataProto Cell (PyValue Ω) μ}

theorem fromSingleDict_column (run : collateFn dataList = .ok collated)
    (made : fromSingleDict collated metaInfo = .ok source)
    (values : List.Forall₂ (fun row v => row.get? key = some (.value v)) dataList vals)
    (nonempty : dataList ≠ []) :
    source.nonTensorBatch.get? key = some (npArray vals) := by
  obtain ⟨tensors, -, run⟩ := bind_ok_iff.mp run
  cases run
  have listed : (collect dataList).nonTensors.get? key = some vals :=
    get?_collect values ⟨.empty, .empty⟩ nonempty
  have stored : ((collect dataList).nonTensors.mapKV (fun _ val => npArray val)).get? key =
      some (npArray vals) := by
    rw [Dict.get?_mapKV, listed]
    rfl
  have merged := get?_mergeDicts tensors stored
  unfold fromSingleDict DataProto.fromDict at made
  simp only at made
  split at made
  · cases made
  · obtain ⟨done, -, made⟩ := bind_ok_iff.mp made
    obtain ⟨td, -, made⟩ := bind_ok_iff.mp made
    rw [(DataProto.of_new made).1]
    exact get?_selectValues merged rfl

/-- At a worker, row `j` of the column is the own value of the row of the list that its other
columns come from. -/
def OwnValues (key : String) (vals : List (PyValue Ω)) (source d : DataProto Cell (PyValue Ω) μ) :
    Prop :=
  ∃ idx, (∀ i ∈ idx, i < vals.length) ∧ d = source.pickRows idx ∧
    d.nonTensorBatch.get? key = some ⟨[], pick vals idx⟩

theorem of_fromDict {τ ω : Type} {tensors : Dict (Column τ)} {nonTensors : Dict (Column ω)}
    {d : DataProto τ ω μ} (made : DataProto.fromDict tensors nonTensors metaInfo = .ok d) :
    ∃ td n, d.batch = some td ∧ d.Aligned n := by
  obtain ⟨n, aligned⟩ := DataProto.aligned_of_fromDict made
  unfold DataProto.fromDict at made
  split at made
  · cases made
  · obtain ⟨done, -, made⟩ := bind_ok_iff.mp made
    obtain ⟨td, -, made⟩ := bind_ok_iff.mp made
    refine ⟨td, n, ?_, aligned⟩
    rw [(DataProto.of_new made).1]

/-- The rows keep their own values all the way to the rollout, unless all of them are sequences of
one length. -/
theorem collateFn_ownValues_iff (run : collateFn dataList = .ok collated)
    (made : fromSingleDict collated metaInfo = .ok source)
    (values : List.Forall₂ (fun row v => row.get? key = some (.value v)) dataList vals)
    (nonempty : dataList ≠ []) :
    (∀ d, source.Flow d → OwnValues key vals source d) ↔ ¬∃ k, ∀ v ∈ vals, v.len? = some k := by
  have column := fromSingleDict_column run made values nonempty
  have rowsLeft : vals ≠ [] := by
    rintro rfl
    cases values
    exact nonempty rfl
  rw [← npArray_shape_iff rowsLeft]
  constructor
  · intro own
    obtain ⟨idx, -, -, stored⟩ := own source .start
    rw [column] at stored
    exact congrArg Column.shape (Option.some.inj stored)
  · intro flat d flow
    obtain ⟨td, n, present, aligned⟩ := of_fromDict made
    have length : vals.length = n := by
      have rows := aligned.nonTensorBatch _ (Dict.mem_of_get? column)
      rwa [npArray_rows flat] at rows
    obtain ⟨idx, inside, rfl⟩ := flow.rows present aligned
    refine ⟨idx, length ▸ inside, rfl, ?_⟩
    rw [DataProto.pickRows, Dict.get?_mapKV, column, npArray_rows flat]
    rfl

end Own

section RawPromptIds

theorem len?_tokenIds (ids : List Int) :
    (PyValue.tokenIds ids : PyValue Ω).len? = some ids.length := by
  simp [PyValue.tokenIds, PyValue.len?]

def promptRows (prompts : List (List Int)) : List (Dict (Field Unit)) :=
  prompts.map (fun ids =>
    ⟨[("input_ids", .tensor (.vec [0])), ("raw_prompt_ids", .value (.tokenIds ids))], by simp⟩)

def promptBatch (prompts : List (List Int)) (column : Column (PyValue Unit)) :
    DataProto Cell (PyValue Unit) Unit where
  batch := some ⟨prompts.length,
    ⟨[("input_ids", ⟨[1], prompts.map (fun _ => .vec [0])⟩)], by simp⟩, by simp⟩
  nonTensorBatch := ⟨[("raw_prompt_ids", column)], by simp⟩
  metaInfo := .empty

def raggedBatch : DataProto Cell (PyValue Unit) Unit :=
  promptBatch [[5], [6, 7]] ⟨[], [.tokenIds [5], .tokenIds [6, 7]]⟩

def raggedCollated : Dict (BatchValue Unit) where
  entries := [("input_ids", .tensor ⟨[1], [.vec [0], .vec [0]]⟩),
    ("raw_prompt_ids", .array ⟨[], [.tokenIds [5], .tokenIds [6, 7]]⟩)]
  distinct := by simp

/-- Two prompts of different lengths, after a repetition. -/
theorem collateFn_ownValues_ragged : ∃ d, raggedBatch.repeat 2 true = .ok d ∧
    OwnValues "raw_prompt_ids" [.tokenIds [5], .tokenIds [6, 7]] raggedBatch d := by
  have run : collateFn (promptRows [[5], [6, 7]]) = .ok raggedCollated := rfl
  have made : fromSingleDict raggedCollated .empty = .ok raggedBatch := rfl
  refine ⟨_, rfl, (collateFn_ownValues_iff run made (.cons rfl (.cons rfl .nil))
    (by simp [promptRows])).mpr ?_ _ (.repeat 2 true .start rfl)⟩
  rintro ⟨k, each⟩
  have one := each (.tokenIds [5]) (by simp)
  have two := each (.tokenIds [6, 7]) (by simp)
  rw [len?_tokenIds] at one two
  cases one.trans two.symm

/-- Two prompts of one length become a matrix, and the engine gets a row of it for a list. -/
theorem collateFn_ownValues_equal :
    ∃ collated, collateFn (promptRows [[5, 6], [7, 8]]) = .ok collated ∧
    fromSingleDict collated .empty =
      .ok (promptBatch [[5, 6], [7, 8]] ⟨[2], [.array [.int 5, .int 6], .array [.int 7, .int 8]]⟩) ∧
    ¬∀ d, (promptBatch [[5, 6], [7, 8]] ⟨[2],
      [.array [.int 5, .int 6], .array [.int 7, .int 8]]⟩).Flow d →
      OwnValues "raw_prompt_ids" [.tokenIds [5, 6], .tokenIds [7, 8]]
        (promptBatch [[5, 6], [7, 8]] ⟨[2], [.array [.int 5, .int 6], .array [.int 7, .int 8]]⟩)
          d := by
  refine ⟨⟨[("input_ids", .tensor ⟨[1], [.vec [0], .vec [0]]⟩),
    ("raw_prompt_ids", .array ⟨[2], [.array [.int 5, .int 6], .array [.int 7, .int 8]]⟩)], by
    simp⟩, rfl, rfl, ?_⟩
  intro own
  obtain ⟨idx, -, -, stored⟩ := own _ .start
  cases congrArg (Option.map Column.shape) stored

end RawPromptIds

end Verl.Dataset
