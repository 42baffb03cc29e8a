import Verl.Base.Bump
import Verl.Base.Dict

/-! `verl/utils/memory_buffer.py`: the parameters of a module as views into one buffer for each
dtype. -/
namespace Verl.Utils

inductive DType where
  | float64
  | float32
  | float16
  | bfloat16
  | float8E4m3fn
  | float8E5m2
  | float8E4m3fnuz
  | float8E5m2fnuz
  deriving DecidableEq

def DType.bits : DType → Nat
  | .float64 => 64
  | .float32 => 32
  | .float16 | .bfloat16 => 16
  | .float8E4m3fn | .float8E5m2 | .float8E4m3fnuz | .float8E5m2fnuz => 8

def calcPaddedNumel (shape : List Nat) (dtype : DType) : Nat :=
  let alignNumel := 128 / dtype.bits
  let numel := shape.prod
  (numel + alignNumel - 1) / alignNumel * alignNumel

structure WeightMeta where
  shape : List Nat
  dtype : DType

/-- An `nn.Parameter`, with its elements in row-major order. -/
structure Parameter (V : Type) where
  shape : List Nat
  dtype : DType
  data : List V
  size : data.length = shape.prod

def Parameter.meta {V : Type} (param : Parameter V) : WeightMeta := ⟨param.shape, param.dtype⟩

structure Slice where
  dtype : DType
  start : Nat
  shape : List Nat
  deriving DecidableEq

def Slice.stop (slice : Slice) : Nat := slice.start + slice.shape.prod

structure MemoryBuffer (V : Type) where
  numel : Nat
  data : List V

abbrev MemoryBuffers (V : Type) := List (DType × MemoryBuffer V)

variable {V : Type}

section Model

def sortedItems {β : Type} (d : Dict β) : List (String × β) :=
  d.entries.mergeSort (fun a b => a.1 ≤ b.1)

def MemoryBuffer.get (self : MemoryBuffer V) (dtype : DType) (shape : List Nat) (startIndex : Nat) :
    Py Slice := do
  let endIndex := startIndex + shape.prod
  pyAssert (endIndex ≤ self.numel) "requested tensor is out of the buffer range."
  return ⟨dtype, startIndex, shape⟩

theorem perm_sortedItems {β : Type} (d : Dict β) : (sortedItems d).Perm d.entries :=
  List.mergeSort_perm _ _

def getWeightBufferMetaFromModule (module : Dict (Parameter V)) : Dict WeightMeta :=
  ⟨(sortedItems module).map (fun (name, param) => (name, param.meta)), by
    rw [List.map_map]
    exact ((perm_sortedItems module).map Prod.fst).nodup_iff.mpr module.distinct⟩

def addTotal (totalNumelMap : List (DType × Nat)) (dtype : DType) (n : Nat) : List (DType × Nat) :=
  if dtype ∈ totalNumelMap.map Prod.fst then
    totalNumelMap.map (fun e => (e.1, if e.1 = dtype then e.2 + n else e.2))
  else totalNumelMap ++ [(dtype, n)]

def totalNumelMap (items : List (String × WeightMeta)) : List (DType × Nat) :=
  items.foldl (fun totals (_, info) => addTotal totals info.dtype
    (calcPaddedNumel info.shape info.dtype)) []

def buildMemoryBuffer (zero : V) (weightBufferMeta : Dict WeightMeta) : MemoryBuffers V :=
  (totalNumelMap (sortedItems weightBufferMeta)).map (fun (dtype, totalNumel) =>
    (dtype, ⟨totalNumel, List.replicate totalNumel zero⟩))

def bufferOf (buffers : MemoryBuffers V) (dtype : DType) : Py (MemoryBuffer V) :=
  match buffers.lookup dtype with
  | some buffer => .ok buffer
  | none => .error (.key "dtype")

def advance (startIndex : DType → Nat) (dtype : DType) (n : Nat) : DType → Nat :=
  fun d => if d = dtype then startIndex d + n else startIndex d

def copyTo (buffers : MemoryBuffers V) (slice : Slice) (data : List V) : MemoryBuffers V :=
  buffers.map (fun e =>
    (e.1, if e.1 = slice.dtype then { e.2 with data := overwrite slice.start data e.2.data }
    else e.2))

def read (buffers : MemoryBuffers V) (slice : Slice) : Option (List V) :=
  (buffers.lookup slice.dtype).map (fun buffer => Verl.slice slice.start slice.stop buffer.data)

structure ReferenceState (V : Type) where
  startIndex : DType → Nat
  buffers : MemoryBuffers V
  slices : List (String × Slice)

/-- One parameter of `build_memory_reference_from_module`. The name `dtype` is still bound by the
loop that fills `start_index`: it is the last of the keys. -/
def moduleStep (lastKey : Option DType) (maintainWeight : Bool) (s : ReferenceState V)
    (entry : String × Parameter V) :
    Py (ReferenceState V) := do
  let param := entry.2
  let memoryBuffer ← bufferOf s.buffers param.dtype
  let buffer ← memoryBuffer.get param.dtype param.shape (s.startIndex param.dtype)
  match lastKey with
  | none => .error (.unboundLocal "dtype")
  | some dtype =>
    return { startIndex := advance s.startIndex param.dtype (calcPaddedNumel param.shape dtype)
             buffers := if maintainWeight then copyTo s.buffers buffer param.data else s.buffers
             slices := s.slices ++ [(entry.1, buffer)] }

/-- `build_memory_reference_from_module`: the views that the parameters become, and the buffers
behind them. -/
def buildMemoryReferenceFromModule (module : Dict (Parameter V)) (memoryBuffers : MemoryBuffers V)
    (maintainWeight : Bool) :
    Py (ReferenceState V) :=
  (sortedItems module).foldlM (moduleStep (memoryBuffers.getLast?.map Prod.fst) maintainWeight)
    ⟨fun _ => 0, memoryBuffers, []⟩

def referenceStep (s : ReferenceState V) (entry : String × WeightMeta) : Py (ReferenceState V) := do
  let dtype := entry.2.dtype
  let memoryBuffer ← bufferOf s.buffers dtype
  let buffer ← memoryBuffer.get dtype entry.2.shape (s.startIndex dtype)
  return { s with
    startIndex := advance s.startIndex dtype (calcPaddedNumel entry.2.shape dtype)
    slices := s.slices ++ [(entry.1, buffer)] }

def buildMemoryReference (weightBufferMeta : Dict WeightMeta) (memoryBuffers : MemoryBuffers V) :
    Py (List (String × Slice)) := do
  let s ← (sortedItems weightBufferMeta).foldlM referenceStep ⟨fun _ => 0, memoryBuffers, []⟩
  return s.slices

end Model

section Padding

theorem align_mul_bits (dtype : DType) : 128 / dtype.bits * dtype.bits = 128 := by
  cases dtype <;> rfl

theorem align_pos (dtype : DType) : 0 < 128 / dtype.bits := by
  cases dtype <;> decide

theorem align_dvd_calcPaddedNumel (shape : List Nat) (dtype : DType) :
    128 / dtype.bits ∣ calcPaddedNumel shape dtype :=
  Nat.dvd_mul_left _ _

theorem prod_le_calcPaddedNumel (shape : List Nat) (dtype : DType) :
    shape.prod ≤ calcPaddedNumel shape dtype := by
  have positive := align_pos dtype
  have quotient := Nat.div_add_mod (shape.prod + 128 / dtype.bits - 1) (128 / dtype.bits)
  have remainder := Nat.mod_lt (shape.prod + 128 / dtype.bits - 1) positive
  rw [Nat.mul_comm] at quotient
  unfold calcPaddedNumel
  simp only
  omega

end Padding

section Totals

def seenDtypes (items : List (String × WeightMeta)) : List DType :=
  items.foldl (fun seen (_, info) => if info.dtype ∈ seen then seen else seen ++ [info.dtype]) []

def metaDtype (e : String × WeightMeta) : DType := e.2.dtype

def metaPad (e : String × WeightMeta) : Nat := calcPaddedNumel e.2.shape e.2.dtype

theorem keys_addTotal (totals : List (DType × Nat)) (dtype : DType) (n : Nat) :
    (addTotal totals dtype n).map Prod.fst = if dtype ∈ totals.map Prod.fst then totals.map Prod.fst
      else totals.map Prod.fst ++ [dtype] := by
  unfold addTotal
  split
  · rw [List.map_map]
    rfl
  · rw [List.map_append]
    rfl

theorem keys_totalNumelMap (items : List (String × WeightMeta)) :
    (totalNumelMap items).map Prod.fst = seenDtypes items := by
  have each : ∀ (items : List (String × WeightMeta)) (totals : List (DType × Nat)),
      (items.foldl (fun totals (_, info) => addTotal totals info.dtype
      (calcPaddedNumel info.shape info.dtype)) totals).map Prod.fst =
        items.foldl (fun seen (_, info) => if info.dtype ∈ seen then seen
          else seen ++ [info.dtype]) (totals.map Prod.fst) := by
    intro items
    induction items with
    | nil => intro totals; rfl
    | cons e items ih =>
      intro totals
      rw [List.foldl_cons, List.foldl_cons, ih, keys_addTotal]
  exact each items []

theorem lookup_eq_none_of_not_mem {totals : List (DType × Nat)} {dtype : DType}
    (missing : dtype ∉ totals.map Prod.fst) :
    totals.lookup dtype = none := by
  rw [List.lookup_eq_none_iff]
  intro e member
  rw [bne_iff_ne]
  rintro rfl
  exact missing (List.mem_map_of_mem member)

theorem lookup_addTotal (totals : List (DType × Nat)) (dtype d : DType) (n : Nat) :
    (addTotal totals dtype n).lookup d = if d = dtype then some ((totals.lookup dtype).getD 0 + n)
      else totals.lookup d := by
  unfold addTotal
  split
  case isTrue present =>
    rw [Dict.lookup_map (fun k total => if k = dtype then total + n else total)]
    by_cases here : d = dtype
    · subst here
      have some : totals.lookup d ≠ none := by
        intro none
        obtain ⟨e, member, rfl⟩ := List.mem_map.mp present
        have differ := List.lookup_eq_none_iff.mp none e member
        simp at differ
      obtain ⟨total, found⟩ := Option.ne_none_iff_exists'.mp some
      simp [found]
    · simp [here]
  case isFalse missing =>
    rw [List.lookup_append]
    by_cases here : d = dtype
    · subst here
      simp [lookup_eq_none_of_not_mem missing]
    · have other : ([(dtype, n)] : List (DType × Nat)).lookup d = none := by
        rw [List.lookup_cons, beq_eq_false_iff_ne.mpr here]
        rfl
      rw [other, if_neg here, Option.or_none]

theorem lookup_foldl_addTotal (items : List (String × WeightMeta))
    (totals : List (DType × Nat)) (d : DType) :
    (items.foldl (fun totals (_, info) => addTotal totals info.dtype
      (calcPaddedNumel info.shape info.dtype)) totals).lookup d =
      if (totals.lookup d).isSome ∨ d ∈ items.map metaDtype then
        some ((totals.lookup d).getD 0 + Bump.total metaDtype metaPad items d)
      else none := by
  induction items generalizing totals with
  | nil => cases found : totals.lookup d <;> simp [found, Bump.total]
  | cons e items ih =>
    simp only [List.foldl_cons, ih, lookup_addTotal, Bump.total_cons, List.map_cons, List.mem_cons]
    by_cases here : d = e.2.dtype
    · subst here
      simp [metaDtype, metaPad, Nat.add_assoc]
    · have other : metaDtype e ≠ d := fun same => here same.symm
      have skipped : (d = metaDtype e ∨ d ∈ items.map metaDtype) ↔ d ∈ items.map metaDtype :=
        or_iff_right (Ne.symm other)
      simp only [if_neg here, if_neg other, skipped, Nat.zero_add]

theorem lookup_totalNumelMap {items : List (String × WeightMeta)} {e : String × WeightMeta}
    (member : e ∈ items) :
    (totalNumelMap items).lookup e.2.dtype =
      some (Bump.total metaDtype metaPad items e.2.dtype) := by
  have here : e.2.dtype ∈ items.map metaDtype := List.mem_map_of_mem (f := metaDtype) member
  rw [totalNumelMap, lookup_foldl_addTotal, if_pos (.inr here), List.lookup_nil,
    Option.getD_none, Nat.zero_add]

end Totals

section Copies

variable {buffers : MemoryBuffers V} {slice other : Slice} {data : List V} {buffer : MemoryBuffer V}

theorem lookup_copyTo (d : DType) : (copyTo buffers slice data).lookup d =
    (buffers.lookup d).map (fun buffer => if d = slice.dtype then
      { buffer with data := overwrite slice.start data buffer.data } else buffer) :=
  Dict.lookup_map (fun k (buffer : MemoryBuffer V) =>
    if k = slice.dtype then
      ({ buffer with data := overwrite slice.start data buffer.data } : MemoryBuffer V)
    else buffer) d buffers

variable (found : buffers.lookup slice.dtype = some buffer)
  (length : data.length = slice.shape.prod)
include found length

theorem read_copyTo (inside : slice.stop ≤ buffer.data.length) :
    read (copyTo buffers slice data) slice = some data := by
  have stop : slice.stop = slice.start + data.length := by rw [Slice.stop, length]
  rw [read, lookup_copyTo, found, stop]
  simp only [if_true, Option.map_some]
  rw [slice_overwrite (stop ▸ inside)]

theorem read_copyTo_apart (inside : slice.stop ≤ buffer.data.length)
    (apart : slice.dtype = other.dtype → other.stop ≤ slice.start ∨ slice.stop ≤ other.start) :
    read (copyTo buffers slice data) other = read buffers other := by
  have stop : slice.stop = slice.start + data.length := by rw [Slice.stop, length]
  rw [read, read, lookup_copyTo]
  by_cases here : other.dtype = slice.dtype
  · rw [here, found]
    simp only [if_true, Option.map_some]
    rw [slice_overwrite_apart (stop ▸ inside) (stop ▸ apart here.symm)]
  · simp only [if_neg here, Option.map_id']

end Copies

section Runs

def paramDtype (e : String × Parameter V) : DType := e.2.dtype

def padUnder (last : DType) (e : String × Parameter V) : Nat := calcPaddedNumel e.2.shape last

def ownPad (e : String × Parameter V) : Nat := calcPaddedNumel e.2.shape e.2.dtype

def viewAt (slot : (String × Parameter V) × Nat) : Slice := ⟨slot.1.2.dtype, slot.2, slot.1.2.shape⟩

def namedView (slot : (String × Parameter V) × Nat) : String × Slice := (slot.1.1, viewAt slot)

variable {items : List (String × Parameter V)} {s s' : ReferenceState V} {last : DType}
  {maintainWeight : Bool}

theorem slices_moduleRun (run : items.foldlM (moduleStep (some last) maintainWeight) s = .ok s') :
    s'.slices = s.slices ++ (Bump.slots paramDtype (padUnder last) s.startIndex items).map
      namedView := by
  induction items generalizing s with
  | nil =>
    cases run
    simp [Bump.slots]
  | cons e items ih =>
    rw [List.foldlM_cons] at run
    obtain ⟨next, first, run⟩ := bind_ok_iff.mp run
    obtain ⟨memoryBuffer, -, first⟩ := bind_ok_iff.mp first
    obtain ⟨buffer, got, same⟩ := bind_ok_iff.mp first
    obtain ⟨_, -, made⟩ := bind_ok_iff.mp got
    cases made
    cases same
    rw [ih run, List.append_assoc]
    rfl

def Fits (buffers : MemoryBuffers V) (slots : List ((String × Parameter V) × Nat)) : Prop :=
  ∀ slot ∈ slots, ∃ buffer, buffers.lookup slot.1.2.dtype = some buffer ∧
    buffer.numel = buffer.data.length ∧ (viewAt slot).stop ≤ buffer.numel

theorem fits_copyTo {buffers : MemoryBuffers V} {slots : List ((String × Parameter V) × Nat)}
    (fits : Fits buffers slots)
    {slot : (String × Parameter V) × Nat}
    (inside : ∃ buffer, buffers.lookup slot.1.2.dtype = some buffer ∧
      (viewAt slot).stop ≤ buffer.data.length) :
    Fits (copyTo buffers (viewAt slot) slot.1.2.data) slots := by
  intro later member
  obtain ⟨buffer, found, whole, room⟩ := fits later member
  obtain ⟨own, foundOwn, roomOwn⟩ := inside
  by_cases here : later.1.2.dtype = (viewAt slot).dtype
  · have shared : later.1.2.dtype = slot.1.2.dtype := here
    rw [← shared, found] at foundOwn
    cases foundOwn
    refine ⟨{ buffer with data := overwrite (viewAt slot).start slot.1.2.data buffer.data }, ?_, ?_,
      room⟩
    · rw [lookup_copyTo, found, Option.map_some, if_pos here]
    · rw [length_overwrite]
      · exact whole
      · rw [slot.1.2.size]
        exact roomOwn
  · exact ⟨buffer, by rw [lookup_copyTo, found, Option.map_some, if_neg here], whole, room⟩

variable (maintainWeight) in
/-- A step with enough room: it copies into its own view and leaves everything apart from it
alone. -/
theorem moduleStep_ok {e : String × Parameter V}
    (fits : Fits s.buffers [(e, s.startIndex e.2.dtype)]) :
    ∃ next, moduleStep (some last) maintainWeight s e = .ok next ∧
      next.startIndex = Bump.after paramDtype (padUnder last) s.startIndex e ∧
      (∀ slots, Fits s.buffers slots → Fits next.buffers slots) ∧
      (∀ slice : Slice, (e.2.dtype = slice.dtype → slice.stop ≤ s.startIndex e.2.dtype ∨
          (viewAt (e, s.startIndex e.2.dtype)).stop ≤ slice.start) →
            read next.buffers slice = read s.buffers slice) ∧
      (maintainWeight = true →
        read next.buffers (viewAt (e, s.startIndex e.2.dtype)) = some e.2.data) := by
  obtain ⟨memoryBuffer, found, whole, room⟩ :=
    fits (e, s.startIndex e.2.dtype) (List.mem_singleton_self _)
  have view : viewAt (e, s.startIndex e.2.dtype) = ⟨e.2.dtype, s.startIndex e.2.dtype, e.2.shape⟩ :=
    rfl
  have got : memoryBuffer.get e.2.dtype e.2.shape (s.startIndex e.2.dtype) =
      .ok (viewAt (e, s.startIndex e.2.dtype)) := by
    have below : s.startIndex e.2.dtype + e.2.shape.prod ≤ memoryBuffer.numel := room
    simp [MemoryBuffer.get, below, view]
  have foundAt : s.buffers.lookup (viewAt (e, s.startIndex e.2.dtype)).dtype = some memoryBuffer :=
    found
  have within : (viewAt (e, s.startIndex e.2.dtype)).stop ≤ memoryBuffer.data.length := whole ▸ room
  obtain ⟨next, step, starts, kept⟩ : ∃ next, moduleStep (some last) maintainWeight s e = .ok next ∧
      next.startIndex = Bump.after paramDtype (padUnder last) s.startIndex e ∧
      next.buffers = if maintainWeight then
        copyTo s.buffers (viewAt (e, s.startIndex e.2.dtype)) e.2.data else s.buffers := by
    have buffer : bufferOf s.buffers e.2.dtype = .ok memoryBuffer := by rw [bufferOf, found]
    exact ⟨_, by simp only [moduleStep, buffer, ok_bind, got]; rfl, rfl, rfl⟩
  refine ⟨next, step, starts, ?_, ?_, ?_⟩
  · intro slots good
    rw [kept]
    split
    · exact fits_copyTo good ⟨memoryBuffer, found, within⟩
    · exact good
  · intro slice disjoint
    rw [kept]
    split
    · exact read_copyTo_apart foundAt e.2.size within disjoint
    · rfl
  · intro maintain
    rw [kept, maintain]
    exact read_copyTo foundAt e.2.size within

variable (maintainWeight) in
theorem moduleRun_ok
    (fits : Fits s.buffers (Bump.slots paramDtype (padUnder last) s.startIndex items)) :
    ∃ s', items.foldlM (moduleStep (some last) maintainWeight) s = .ok s' ∧
      (∀ slots, Fits s.buffers slots → Fits s'.buffers slots) ∧
      (∀ slice : Slice, (∀ slot ∈ Bump.slots paramDtype (padUnder last) s.startIndex items,
        slot.1.2.dtype = slice.dtype →
          slice.stop ≤ slot.2 ∨ (viewAt slot).stop ≤ slice.start) →
            read s'.buffers slice = read s.buffers slice) ∧
      (maintainWeight = true → ∀ slot ∈ Bump.slots paramDtype (padUnder last) s.startIndex items,
        read s'.buffers (viewAt slot) = some slot.1.2.data) := by
  induction items generalizing s with
  | nil => exact ⟨s, rfl, fun _ fits => fits, fun _ _ => rfl, by simp [Bump.slots]⟩
  | cons e items ih =>
    have own : Fits s.buffers [(e, s.startIndex e.2.dtype)] := by
      intro slot member
      rw [List.mem_singleton.mp member]
      exact fits _ List.mem_cons_self
    obtain ⟨next, step, starts, keeps, apart, copied⟩ := moduleStep_ok maintainWeight own
    have rest : Fits s.buffers (Bump.slots paramDtype (padUnder last) next.startIndex items) :=
      starts ▸ fun slot member => fits slot (List.mem_cons_of_mem _ member)
    obtain ⟨s', run, keepsAll, apartAll, values⟩ := ih (keeps _ rest)
    rw [starts] at apartAll values
    refine ⟨s', ?_, fun slots good => keepsAll slots (keeps slots good), ?_, ?_⟩
    · rw [List.foldlM_cons, step, ok_bind, run]
    · intro slice disjoint
      rw [apartAll slice (fun slot member => disjoint slot (List.mem_cons_of_mem _ member))]
      exact apart slice (disjoint _ List.mem_cons_self)
    · intro maintain slot member
      rcases List.mem_cons.mp member with rfl | later
      · rw [apartAll]
        · exact copied maintain
        · intro later there same
          left
          have shared : paramDtype later.1 = paramDtype e := same
          have above := Bump.free_le there
          rw [Bump.after, if_pos shared, shared] at above
          exact Nat.le_trans (Nat.add_le_add_left (prod_le_calcPaddedNumel e.2.shape last) _) above
      · exact values maintain slot later

def metaItem (e : String × Parameter V) : String × WeightMeta := (e.1, e.2.meta)

theorem slices_referenceRun (run : (items.map metaItem).foldlM referenceStep s = .ok s') :
    s'.slices = s.slices ++ (Bump.slots paramDtype ownPad s.startIndex items).map namedView := by
  induction items generalizing s with
  | nil =>
    cases run
    simp [Bump.slots]
  | cons e items ih =>
    rw [List.map_cons, List.foldlM_cons] at run
    obtain ⟨next, first, run⟩ := bind_ok_iff.mp run
    obtain ⟨memoryBuffer, -, first⟩ := bind_ok_iff.mp first
    obtain ⟨buffer, got, same⟩ := bind_ok_iff.mp first
    obtain ⟨_, -, made⟩ := bind_ok_iff.mp got
    cases made
    cases same
    rw [ih run, List.append_assoc]
    rfl

theorem referenceRun_ok (fits : Fits s.buffers (Bump.slots paramDtype ownPad s.startIndex items)) :
    ∃ s', (items.map metaItem).foldlM referenceStep s = .ok s' := by
  induction items generalizing s with
  | nil => exact ⟨s, rfl⟩
  | cons e items ih =>
    obtain ⟨memoryBuffer, found, -, room⟩ := fits (e, s.startIndex e.2.dtype) List.mem_cons_self
    obtain ⟨next, step, starts, kept⟩ : ∃ next, referenceStep s (metaItem e) = .ok next ∧
        next.startIndex = Bump.after paramDtype ownPad s.startIndex e ∧
          next.buffers = s.buffers := by
      have buffer : bufferOf s.buffers e.2.dtype = .ok memoryBuffer := by rw [bufferOf, found]
      have got : memoryBuffer.get e.2.dtype e.2.shape (s.startIndex e.2.dtype) =
          .ok (viewAt (e, s.startIndex e.2.dtype)) := by
        have below : s.startIndex e.2.dtype + e.2.shape.prod ≤ memoryBuffer.numel := room
        simp [MemoryBuffer.get, below, viewAt]
      refine ⟨{ s with
        startIndex := advance s.startIndex e.2.dtype (calcPaddedNumel e.2.shape e.2.dtype)
        slices := s.slices ++ [(e.1, viewAt (e, s.startIndex e.2.dtype))] }, ?_, rfl, rfl⟩
      simp only [referenceStep, metaItem, Parameter.meta, buffer, ok_bind, got]
      rfl
    have rest : Fits next.buffers (Bump.slots paramDtype ownPad next.startIndex items) := by
      rw [kept, starts]
      exact fun slot member => fits slot (List.mem_cons_of_mem _ member)
    obtain ⟨s', run⟩ := ih rest
    exact ⟨s', by rw [List.map_cons, List.foldlM_cons, step, ok_bind, run]⟩

end Runs

section Module

variable {module : Dict (Parameter V)} {zero : V} {maintainWeight : Bool}

/-- The dtype of the last buffer: of all dtypes, the one that is met last in the order of the
names. -/
def lastDtype (module : Dict (Parameter V)) : Option DType :=
  (seenDtypes ((sortedItems module).map metaItem)).getLast?

/-- What the rollout relies on when the parameters have become views. -/
structure Referenced (zero : V) (maintainWeight : Bool) (module : Dict (Parameter V))
    (s : ReferenceState V) : Prop where
  /-- Every parameter has a view of its dtype and shape, with its value in it. -/
  views : ∀ e ∈ module.entries, ∃ slice, s.slices.lookup e.1 = some slice ∧
    slice.dtype = e.2.dtype ∧ slice.shape = e.2.shape ∧
    (maintainWeight = true → read s.buffers slice = some e.2.data)
  names : s.slices.map Prod.fst = (sortedItems module).map Prod.fst
  inside : ∀ e ∈ s.slices, ∃ buffer, s.buffers.lookup e.2.dtype = some buffer ∧
    e.2.stop ≤ buffer.data.length
  aligned : ∀ e ∈ s.slices, 128 ∣ e.2.start * e.2.dtype.bits
  disjoint : s.slices.Pairwise (fun a b => a.2.dtype = b.2.dtype → a.2.stop ≤ b.2.start ∨
    b.2.stop ≤ a.2.start)
  reference : buildMemoryReference (getWeightBufferMetaFromModule module)
    (buildMemoryBuffer zero (getWeightBufferMetaFromModule module)) = .ok s.slices

theorem sortedItems_meta :
    sortedItems (getWeightBufferMetaFromModule module) = (sortedItems module).map metaItem := by
  have sorted : (sortedItems module).Pairwise (fun a b => a.1 ≤ b.1) := by
    have pairwise : (sortedItems module).Pairwise (fun a b => decide (a.1 ≤ b.1) = true) := by
      apply List.pairwise_mergeSort
      · intro a b c ab bc
        simp only [decide_eq_true_eq] at ab bc ⊢
        exact String.le_trans ab bc
      · intro a b
        simpa using String.le_total a.1 b.1
    exact pairwise.imp (fun below => of_decide_eq_true below)
  have same : (getWeightBufferMetaFromModule module).entries = (sortedItems module).map metaItem :=
    rfl
  rw [sortedItems, same]
  apply List.mergeSort_of_pairwise
  rw [List.pairwise_map]
  exact sorted.imp (fun below => decide_eq_true below)

theorem lookup_buildMemoryBuffer (d : DType) :
    (buildMemoryBuffer zero (getWeightBufferMetaFromModule module)).lookup d =
    ((totalNumelMap ((sortedItems module).map metaItem)).lookup d).map
      (fun total => ⟨total, List.replicate total zero⟩) := by
  rw [buildMemoryBuffer, sortedItems_meta]
  exact Dict.lookup_map (fun _ total => (⟨total, List.replicate total zero⟩ : MemoryBuffer V)) d _

theorem lastKey_buildMemoryBuffer :
    (buildMemoryBuffer zero (getWeightBufferMetaFromModule module)).getLast?.map Prod.fst =
      lastDtype module := by
  have keys : (buildMemoryBuffer zero (getWeightBufferMetaFromModule module)).map Prod.fst =
      seenDtypes ((sortedItems module).map metaItem) := by
    rw [buildMemoryBuffer, sortedItems_meta, List.map_map, ← keys_totalNumelMap]
    rfl
  rw [lastDtype, ← keys, List.getLast?_map]

theorem total_metaItem (items : List (String × Parameter V)) (d : DType) :
    Bump.total metaDtype metaPad (items.map metaItem) d = Bump.total paramDtype ownPad items d := by
  rw [Bump.total, Bump.total, List.filter_map, List.map_map]
  rfl

/-- The buffers hold every parameter where its own dtype puts it. -/
theorem fits_buildMemoryBuffer :
    Fits (buildMemoryBuffer zero (getWeightBufferMetaFromModule module))
    (Bump.slots paramDtype ownPad (fun _ => 0) (sortedItems module)) := by
  intro slot member
  have item : metaItem slot.1 ∈ (sortedItems module).map metaItem :=
    List.mem_map_of_mem (Bump.fst_mem member)
  have found := lookup_totalNumelMap item
  have numel : Bump.total metaDtype metaPad ((sortedItems module).map metaItem) slot.1.2.dtype =
      (List.replicate (Bump.total metaDtype metaPad ((sortedItems module).map metaItem)
        slot.1.2.dtype) zero).length := List.length_replicate.symm
  refine ⟨⟨_, _⟩, ?_, numel, ?_⟩
  · rw [lookup_buildMemoryBuffer]
    exact congrArg (Option.map _) found
  · have room := Bump.add_pad_le member
    rw [Nat.zero_add, ← total_metaItem] at room
    exact Nat.le_trans
      (Nat.add_le_add_left (prod_le_calcPaddedNumel slot.1.2.shape slot.1.2.dtype) slot.2) room

theorem lastDtype_some {e : String × Parameter V} (member : e ∈ sortedItems module) :
    ∃ last, lastDtype module = some last := by
  have found := lookup_totalNumelMap (List.mem_map_of_mem (f := metaItem) member)
  rw [← Option.isSome_iff_exists, lastDtype, ← keys_totalNumelMap, List.getLast?_isSome]
  intro none
  rw [List.map_eq_nil_iff.mp none] at found
  cases found

theorem slots_eq_of_views {items : List (String × Parameter V)}
    {pad pad' : String × Parameter V → Nat} {free : DType → Nat}
    (same : (Bump.slots paramDtype pad free items).map namedView =
      (Bump.slots paramDtype pad' free items).map namedView) :
    Bump.slots paramDtype pad free items = Bump.slots paramDtype pad' free items := by
  have starts := congrArg (List.map (fun e : String × Slice => e.2.start)) same
  rw [List.map_map, List.map_map] at starts
  have fsts : (Bump.slots paramDtype pad free items).map Prod.fst = items := Bump.map_fst_slots
  have fsts' : (Bump.slots paramDtype pad' free items).map Prod.fst = items := Bump.map_fst_slots
  exact (List.zip_of_prod fsts starts).trans (List.zip_of_prod fsts' rfl).symm

theorem nodup_items : ((sortedItems module).map Prod.fst).Nodup :=
  ((perm_sortedItems module).map Prod.fst).nodup_iff.mpr module.distinct

/-- A run that puts the parameters where their own dtypes put them. -/
theorem referenced_of_slots {last : DType} (key : lastDtype module = some last)
    (same : Bump.slots paramDtype (padUnder last) (fun _ => 0) (sortedItems module) =
      Bump.slots paramDtype ownPad (fun _ => 0) (sortedItems module)) :
    ∃ s, buildMemoryReferenceFromModule module
      (buildMemoryBuffer zero (getWeightBufferMetaFromModule module)) maintainWeight = .ok s ∧
      Referenced zero maintainWeight module s := by
  have room : Fits (buildMemoryBuffer zero (getWeightBufferMetaFromModule module))
      (Bump.slots paramDtype ownPad (fun _ => 0) (sortedItems module)) := fits_buildMemoryBuffer
  obtain ⟨s, run, keeps, -, values⟩ :=
    moduleRun_ok (s := ⟨fun _ => 0, buildMemoryBuffer zero (getWeightBufferMetaFromModule module),
      []⟩)
    maintainWeight (same ▸ room)
  rw [same] at values
  have slices : s.slices =
      (Bump.slots paramDtype ownPad (fun _ => 0) (sortedItems module)).map namedView := by
    rw [slices_moduleRun run, List.nil_append, same]
  have slots : ∀ e ∈ s.slices,
      ∃ slot ∈ Bump.slots paramDtype ownPad (fun _ => 0) (sortedItems module),
      namedView slot = e := by
    intro e member
    rw [slices] at member
    exact List.mem_map.mp member
  have names : s.slices.map Prod.fst = (sortedItems module).map Prod.fst := by
    rw [slices, List.map_map]
    have fsts : (Bump.slots paramDtype ownPad (fun _ => 0) (sortedItems module)).map Prod.fst =
      sortedItems module := Bump.map_fst_slots
    conv_rhs => rw [← fsts, List.map_map]
    rfl
  refine ⟨s, ?_, ?_, names, ?_, ?_, ?_, ?_⟩
  · rw [buildMemoryReferenceFromModule, lastKey_buildMemoryBuffer, key]
    exact run
  · intro e member
    have listed : e ∈ (Bump.slots paramDtype ownPad (fun _ => 0) (sortedItems module)).map
        Prod.fst := by
      rw [Bump.map_fst_slots]
      exact (perm_sortedItems module).mem_iff.mpr member
    obtain ⟨slot, inside, rfl⟩ := List.mem_map.mp listed
    have view : namedView slot ∈ s.slices := by
      rw [slices]
      exact List.mem_map_of_mem inside
    exact ⟨viewAt slot, Dict.lookup_of_mem (names ▸ nodup_items) view, rfl, rfl, fun maintain =>
      values maintain slot inside⟩
  · intro e member
    obtain ⟨slot, inside, rfl⟩ := slots e member
    obtain ⟨buffer, found, whole, below⟩ := keeps _ room slot inside
    exact ⟨buffer, found, whole ▸ below⟩
  · intro e member
    obtain ⟨slot, inside, rfl⟩ := slots e member
    have unit : 128 / (paramDtype slot.1).bits ∣ slot.2 :=
      Bump.dvd_start (fun d : DType => 128 / d.bits) (fun _ => Nat.dvd_zero _) (fun x _ =>
        align_dvd_calcPaddedNumel x.2.shape x.2.dtype) inside
    have scaled := Nat.mul_dvd_mul_right unit (paramDtype slot.1).bits
    rw [align_mul_bits] at scaled
    exact scaled
  · rw [slices, List.pairwise_map]
    have apart : (Bump.slots paramDtype ownPad (fun _ => 0) (sortedItems module)).Pairwise
        (fun a b => paramDtype a.1 = paramDtype b.1 → a.2 + ownPad a.1 ≤ b.2) := Bump.pairwise_slots
    apply apart.imp
    intro a b before dtypes
    left
    exact Nat.le_trans (Nat.add_le_add_left (prod_le_calcPaddedNumel a.1.2.shape a.1.2.dtype) a.2)
      (before dtypes)
  · obtain ⟨s', reference⟩ :=
      referenceRun_ok (s := ⟨fun _ => 0,
        buildMemoryBuffer zero (getWeightBufferMetaFromModule module), []⟩) room
    have same' := slices_referenceRun reference
    rw [buildMemoryReference, sortedItems_meta, reference, ok_bind, same', slices]
    rfl

/-- The views are right exactly when no parameter that is followed by another of its dtype is padded
differently under the dtype of the last buffer. -/
theorem referenced_iff (module : Dict (Parameter V)) (zero : V) (maintainWeight : Bool) :
    (∃ s, buildMemoryReferenceFromModule module
      (buildMemoryBuffer zero (getWeightBufferMetaFromModule module)) maintainWeight = .ok s ∧
      Referenced zero maintainWeight module s) ↔
    ∀ last, lastDtype module = some last →
      (sortedItems module).Pairwise (fun a b => a.2.dtype = b.2.dtype →
      calcPaddedNumel a.2.shape last = calcPaddedNumel a.2.shape a.2.dtype) := by
  constructor
  · rintro ⟨s, run, referenced⟩ last key
    rw [buildMemoryReferenceFromModule, lastKey_buildMemoryBuffer, key] at run
    obtain ⟨s', reference, slices⟩ := bind_ok_iff.mp referenced.reference
    rw [sortedItems_meta] at reference
    have views := (slices_moduleRun run).symm.trans
      ((Except.ok.inj slices).symm.trans (slices_referenceRun reference))
    rw [List.nil_append, List.nil_append] at views
    exact Bump.slots_congr_iff.mp (slots_eq_of_views views)
  · intro agree
    cases items : sortedItems module with
    | nil =>
      have none : lastDtype module = none := by
        rw [lastDtype, items]
        rfl
      refine ⟨⟨fun _ => 0, buildMemoryBuffer zero (getWeightBufferMetaFromModule module), []⟩, ?_,
        ?_, ?_, by simp, by simp, .nil, ?_⟩
      · rw [buildMemoryReferenceFromModule, items]
        rfl
      · intro e member
        have listed := (perm_sortedItems module).mem_iff.mpr member
        rw [items] at listed
        cases listed
      · rw [items]
        rfl
      · rw [buildMemoryReference, sortedItems_meta, items]
        rfl
    | cons e rest =>
      have first : e ∈ sortedItems module := by
        rw [items]
        exact List.mem_cons_self
      obtain ⟨last, key⟩ := lastDtype_some first
      exact referenced_of_slots key (Bump.slots_congr_iff.mpr (agree last key))

section Mixed

/-- Two half precision parameters of four elements, and one in single precision. -/
def mixedModule : Dict (Parameter Nat) :=
  ⟨[("a", ⟨[4], .float16, [4, 3, 2, 1], rfl⟩), ("b", ⟨[4], .float16, [5, 6, 7, 8], rfl⟩),
    ("c", ⟨[4], .float32, [9, 10, 11, 12], rfl⟩)], by simp⟩

theorem sortedItems_mixedModule : sortedItems mixedModule = mixedModule.entries := by
  apply List.mergeSort_of_pairwise
  simp only [mixedModule, List.pairwise_cons]
  decide

theorem buffers_mixedModule : buildMemoryBuffer 0 (getWeightBufferMetaFromModule mixedModule) =
    [(.float16, ⟨16, List.replicate 16 0⟩), (.float32, ⟨4, List.replicate 4 0⟩)] := by
  rw [buildMemoryBuffer, sortedItems_meta, sortedItems_mixedModule]
  rfl

/-- The second parameter starts at element 4 of its buffer, off the 128-bit boundary, where
`build_memory_reference` has it start at element 8. -/
theorem mixedModule_misaligned :
    (∃ s, buildMemoryReferenceFromModule mixedModule
      (buildMemoryBuffer 0 (getWeightBufferMetaFromModule mixedModule)) true = .ok s ∧
      s.slices = [("a", ⟨.float16, 0, [4]⟩), ("b", ⟨.float16, 4, [4]⟩), ("c", ⟨.float32, 0, [4]⟩)] ∧
        ¬Referenced 0 true mixedModule s) ∧
    buildMemoryReference (getWeightBufferMetaFromModule mixedModule)
      (buildMemoryBuffer 0 (getWeightBufferMetaFromModule mixedModule)) =
      .ok [("a", ⟨.float16, 0, [4]⟩), ("b", ⟨.float16, 8, [4]⟩), ("c", ⟨.float32, 0, [4]⟩)] := by
  constructor
  · rw [buildMemoryReferenceFromModule, buffers_mixedModule, sortedItems_mixedModule]
    refine ⟨_, rfl, rfl, ?_⟩
    intro referenced
    have boundary : 128 ∣ 4 * DType.float16.bits :=
      referenced.aligned ("b", ⟨.float16, 4, [4]⟩) (List.mem_cons_of_mem _ List.mem_cons_self)
    revert boundary
    decide
  · rw [buildMemoryReference, buffers_mixedModule, sortedItems_meta, sortedItems_mixedModule]
    rfl

end Mixed

end Module

end Verl.Utils
