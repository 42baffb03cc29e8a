import Verl.Protocol.Heap

/-! No call breaks the one number of rows of a `DataProto`, unless it is one of three. The
invariant of the heap gives each `non_tensor_batch` a number of rows, which a dict without
columns keeps for the columns that a later `union` may bring. -/
namespace Verl.Protocol

variable {τ ω μ : Type}

theorem Part.getElem?_place {α : Type} (part : Part α) {objects : List α} {ref : Nat} {value : α}
    (found : objects[ref]? = some value) : (part.place objects).1[ref]? = some value := by
  cases part with
  | shared => exact found
  | fresh => exact (List.getElem?_append_left (List.getElem?_eq_some_iff.mp found).1).trans found

theorem Part.getElem?_placeOption {α : Type} (part : Option (Part α)) {objects : List α} {ref : Nat}
    {value : α} (found : objects[ref]? = some value) :
    (Part.placeOption objects part).1[ref]? = some value := by
  cases part with
  | none => exact found
  | some part => exact part.getElem?_place found

theorem Part.length_place {α : Type} (part : Part α) (objects : List α) :
    objects.length ≤ (part.place objects).1.length := by
  cases part with
  | shared => exact le_rfl
  | fresh value => simp [Part.place]

namespace Heap

/-- The references of an object, with a batch of as many rows as its dict is given. -/
structure Valid (rows : Nat → Nat) (h : Heap τ ω μ) (p : Proto) : Prop where
  batch : ∀ ref, p.batch = some ref → ∃ td : TensorDict τ, h.batches[ref]? = some td ∧
    td.batchSize = rows p.nonTensorBatch
  nonTensorBatch : p.nonTensorBatch < h.columns.length
  metaInfo : p.metaInfo < h.metas.length

structure Tracks (rows : Nat → Nat) (h : Heap τ ω μ) : Prop where
  columns : ∀ ref dict, h.columns[ref]? = some dict → HasRows (rows ref) dict
  protos : ∀ p ∈ h.protos, h.Valid rows p

/-- All objects that existed are still there, with the same number of rows. -/
structure Keeps (h h' : Heap τ ω μ) : Prop where
  batches : ∀ (ref : Nat) (td : TensorDict τ), h.batches[ref]? = some td →
    ∃ td' : TensorDict τ, h'.batches[ref]? = some td' ∧ td'.batchSize = td.batchSize
  columns : h.columns.length ≤ h'.columns.length
  metas : h.metas.length ≤ h'.metas.length

theorem Valid.keep {rows rows' : Nat → Nat} {h h' : Heap τ ω μ} {p : Proto} (valid : h.Valid rows p)
    (keeps : Keeps h h')
    (same : rows' p.nonTensorBatch = rows p.nonTensorBatch) : h'.Valid rows' p := by
  constructor
  · intro ref held
    obtain ⟨td, found, size⟩ := valid.batch ref held
    obtain ⟨td', found', size'⟩ := keeps.batches ref td found
    exact ⟨td', found', by rw [size', size, same]⟩
  · exact Nat.lt_of_lt_of_le valid.nonTensorBatch keeps.columns
  · exact Nat.lt_of_lt_of_le valid.metaInfo keeps.metas

section Load

theorem loadBatch_ok_iff {h : Heap τ ω μ} {batch : Option Nat} {td : Option (TensorDict τ)} :
    h.loadBatch batch = .ok td ↔
      (batch = none ∧ td = none) ∨ ∃ ref value, batch = some ref ∧ td = some value ∧
        h.batches[ref]? = some value := by
  cases batch with
  | none => simp [loadBatch, eq_comm]
  | some ref =>
    simp only [loadBatch, bind_ok_iff, pyGet_ok_iff, pure_eq_ok, Except.ok.injEq, reduceCtorEq,
      false_and, false_or, Option.some.injEq]
    constructor
    · rintro ⟨value, found, rfl⟩
      exact ⟨ref, value, rfl, rfl, found⟩
    · rintro ⟨_, value, rfl, rfl, found⟩
      exact ⟨value, found, rfl⟩

theorem load_ok_iff {h : Heap τ ω μ} {p : Proto} {d : DataProto τ ω μ} :
    h.load p = .ok d ↔
      h.loadBatch p.batch = .ok d.batch ∧ h.columns[p.nonTensorBatch]? = some d.nonTensorBatch ∧
      h.metas[p.metaInfo]? = some d.metaInfo := by
  simp only [load, bind_ok_iff, pyGet_ok_iff, pure_eq_ok, Except.ok.injEq]
  constructor
  · rintro ⟨batch, loaded, columns, foundColumns, metaInfo, foundMeta, rfl⟩
    exact ⟨loaded, foundColumns, foundMeta⟩
  · rintro ⟨loaded, foundColumns, foundMeta⟩
    exact ⟨_, loaded, _, foundColumns, _, foundMeta, rfl⟩

theorem batch_of_load {h : Heap τ ω μ} {p : Proto} {d : DataProto τ ω μ} (loaded : h.load p = .ok d)
    {td : TensorDict τ}
    (present : d.batch = some td) : ∃ ref, p.batch = some ref ∧ h.batches[ref]? = some td := by
  have inside := loadBatch_ok_iff.mp (load_ok_iff.mp loaded).1
  rw [present] at inside
  rcases inside with ⟨-, absurd⟩ | ⟨ref, value, held, same, found⟩
  · cases absurd
  · cases same
    exact ⟨ref, held, found⟩

theorem Tracks.aligned {rows : Nat → Nat} {h : Heap τ ω μ} (tracks : h.Tracks rows) {p : Proto}
    (member : p ∈ h.protos)
    {d : DataProto τ ω μ} (loaded : h.load p = .ok d) : d.Aligned (rows p.nonTensorBatch) := by
  constructor
  · intro td present
    obtain ⟨ref, held, found⟩ := batch_of_load loaded present
    obtain ⟨td', found', size⟩ := (tracks.protos p member).batch ref held
    rw [found, Option.some.injEq] at found'
    rw [found', size]
  · exact tracks.columns _ _ (load_ok_iff.mp loaded).2.1

theorem Tracks.loads {rows : Nat → Nat} {h : Heap τ ω μ} (tracks : h.Tracks rows) {p : Proto}
    (member : p ∈ h.protos) :
    ∃ d, h.load p = .ok d := by
  have valid := tracks.protos p member
  have columns := List.getElem?_eq_getElem valid.nonTensorBatch
  have metaInfo := List.getElem?_eq_getElem valid.metaInfo
  cases held : p.batch with
  | none =>
    exact ⟨⟨none, _, _⟩,
    load_ok_iff.mpr ⟨loadBatch_ok_iff.mpr (.inl ⟨held, rfl⟩), columns, metaInfo⟩⟩
  | some ref =>
    obtain ⟨td, found, -⟩ := valid.batch ref held
    exact ⟨⟨some td, _, _⟩,
      load_ok_iff.mpr ⟨loadBatch_ok_iff.mpr (.inr ⟨ref, td, held, rfl, found⟩), columns, metaInfo⟩⟩

end Load

section Primitives

def BatchPart (h : Heap τ ω μ) (n : Nat) : Option (Part (TensorDict τ)) → Prop
  | none => True
  | some (.shared ref) => ∃ td : TensorDict τ, h.batches[ref]? = some td ∧ td.batchSize = n
  | some (.fresh td) => td.batchSize = n

def ColumnsPart (h : Heap τ ω μ) (rows : Nat → Nat) (n : Nat) : Part (Dict (Column ω)) → Prop
  | .shared ref => ref < h.columns.length ∧ rows ref = n
  | .fresh dict => HasRows n dict

def MetaPart (h : Heap τ ω μ) : Part (Dict μ) → Prop
  | .shared ref => ref < h.metas.length
  | .fresh _ => True

def extendRows (rows : Nat → Nat) (count n : Nat) : Nat → Nat :=
  fun ref => if ref < count then rows ref else n

theorem extendRows_of_lt {rows : Nat → Nat} {count n ref : Nat} (old : ref < count) :
    extendRows rows count n ref = rows ref := if_pos old

theorem extendRows_length {rows : Nat → Nat} {count n : Nat} : extendRows rows count n count = n :=
  if_neg (lt_irrefl _)

theorem Tracks.columns_place {rows : Nat → Nat} {h : Heap τ ω μ} (tracks : h.Tracks rows) {n : Nat}
    {columns : Part (Dict (Column ω))} (hasColumns : h.ColumnsPart rows n columns) {ref : Nat}
    {dict : Dict (Column ω)} (found : (columns.place h.columns).1[ref]? = some dict) :
    HasRows (extendRows rows h.columns.length n ref) dict := by
  have old : ∀ {dict}, ref < h.columns.length → h.columns[ref]? = some dict →
      HasRows (extendRows rows h.columns.length n ref) dict := by
    intro dict inside there
    rw [extendRows_of_lt inside]
    exact tracks.columns ref dict there
  cases columns with
  | shared own => exact old (List.getElem?_eq_some_iff.mp found).1 found
  | fresh value =>
    rcases Nat.lt_or_ge ref h.columns.length with inside | past
    · exact old inside ((List.getElem?_append_left inside).symm.trans found)
    · have last : (h.columns ++ [value])[ref]? = some dict := found
      rw [List.getElem?_append_right past, List.getElem?_singleton] at last
      split at last
      case isFalse => cases last
      case isTrue here =>
        cases last
        have same : ref = h.columns.length := by omega
        rw [same, extendRows_length]
        exact hasColumns

theorem extendRows_place {rows : Nat → Nat} {h : Heap τ ω μ} {n : Nat}
    {columns : Part (Dict (Column ω))} (hasColumns : h.ColumnsPart rows n columns) :
    (columns.place h.columns).2 < (columns.place h.columns).1.length ∧
      extendRows rows h.columns.length n (columns.place h.columns).2 = n := by
  cases columns with
  | shared ref => exact ⟨hasColumns.1, (extendRows_of_lt hasColumns.1).trans hasColumns.2⟩
  | fresh value => exact ⟨by simp [Part.place], extendRows_length⟩

theorem BatchPart.placed {h : Heap τ ω μ} {n : Nat} {batch : Option (Part (TensorDict τ))}
    (hasBatch : h.BatchPart n batch)
    {ref : Nat} (held : (Part.placeOption h.batches batch).2 = some ref) :
    ∃ td : TensorDict τ, (Part.placeOption h.batches batch).1[ref]? = some td ∧
      td.batchSize = n := by
  cases batch with
  | none => cases held
  | some part =>
    cases held
    cases part with
    | shared ref => exact hasBatch
    | fresh td => exact ⟨td, by simp [Part.placeOption, Part.place], hasBatch⟩

theorem MetaPart.placed {h : Heap τ ω μ} {metaInfo : Part (Dict μ)}
    (hasMeta : h.MetaPart metaInfo) :
    (metaInfo.place h.metas).2 < (metaInfo.place h.metas).1.length := by
  cases metaInfo with
  | shared ref => exact hasMeta
  | fresh value => simp [Part.place]

theorem Tracks.attach {rows : Nat → Nat} {h : Heap τ ω μ} (tracks : h.Tracks rows) {n : Nat}
    {batch : Option (Part (TensorDict τ))} {columns : Part (Dict (Column ω))}
    {metaInfo : Part (Dict μ)} (hasBatch : h.BatchPart n batch)
    (hasColumns : h.ColumnsPart rows n columns) (hasMeta : h.MetaPart metaInfo) :
    (h.attach batch columns metaInfo).1.Tracks (extendRows rows h.columns.length n) := by
  constructor
  · exact fun ref dict found => tracks.columns_place hasColumns found
  · intro p member
    rcases List.mem_append.mp member with old | new
    · apply (tracks.protos p old).keep _ (extendRows_of_lt (tracks.protos p old).nonTensorBatch)
      exact ⟨fun ref td found => ⟨td, Part.getElem?_placeOption batch found, rfl⟩,
        columns.length_place _, metaInfo.length_place _⟩
    · cases List.mem_singleton.mp new
      obtain ⟨inside, given⟩ := extendRows_place hasColumns
      constructor
      · intro ref held
        obtain ⟨td, found, size⟩ := hasBatch.placed held
        exact ⟨td, found, size.trans given.symm⟩
      · exact inside
      · exact hasMeta.placed

theorem Tracks.newProto {rows : Nat → Nat} {h h' : Heap τ ω μ} (tracks : h.Tracks rows) {n : Nat}
    {batch : Option (Part (TensorDict τ))} {columns : Part (Dict (Column ω))}
    {metaInfo : Part (Dict μ)} (hasBatch : h.BatchPart n batch)
    (hasColumns : h.ColumnsPart rows n columns) (hasMeta : h.MetaPart metaInfo)
    (made : h.newProto batch columns metaInfo = .ok h') : ∃ rows', h'.Tracks rows' := by
  simp only [Heap.newProto, bind_ok_iff, pure_eq_ok, Except.ok.injEq] at made
  obtain ⟨self, -, done, -, rfl⟩ := made
  exact ⟨_, tracks.attach hasBatch hasColumns hasMeta⟩

theorem batchPart_fresh {h : Heap τ ω μ} {n : Nat} {d : DataProto τ ω μ} (aligned : d.Aligned n) :
    h.BatchPart n (d.batch.map .fresh) := by
  cases present : d.batch with
  | none => trivial
  | some td => exact aligned.batch td present

theorem Tracks.assignParts {rows : Nat → Nat} {h : Heap τ ω μ} (tracks : h.Tracks rows)
    {n self : Nat} {p : Proto}
    (member : p ∈ h.protos) {d : DataProto τ ω μ} (aligned : d.Aligned n) :
    (h.assignParts self p d).Tracks (extendRows rows h.columns.length n) := by
  have hasColumns : h.ColumnsPart rows n (.fresh d.nonTensorBatch) := aligned.nonTensorBatch
  have keeps : Keeps h (h.assignParts self p d) := by
    refine ⟨fun ref td found => ⟨td, Part.getElem?_placeOption _ found, rfl⟩, ?_, le_rfl⟩
    simp [Heap.assignParts]
  constructor
  · exact fun ref dict found => tracks.columns_place hasColumns found
  · intro q inside
    rcases List.mem_or_eq_of_mem_set inside with old | rfl
    · exact (tracks.protos q old).keep keeps (extendRows_of_lt (tracks.protos q old).nonTensorBatch)
    · obtain ⟨below, given⟩ := extendRows_place hasColumns
      constructor
      · intro ref held
        obtain ⟨td, found, size⟩ := (batchPart_fresh aligned).placed held
        exact ⟨td, found, size.trans given.symm⟩
      · exact below
      · exact (tracks.protos p member).metaInfo

/-- A new batch for one object, with other rows given to the dicts where that is consistent. -/
theorem Tracks.assignBatch {rows rows' : Nat → Nat} {h : Heap τ ω μ} (tracks : h.Tracks rows)
    {self : Nat} {p : Proto}
    (here : h.protos[self]? = some p) {td : TensorDict τ}
    (size : td.batchSize = rows' p.nonTensorBatch)
    (columns : ∀ ref dict, h.columns[ref]? = some dict → HasRows (rows' ref) dict)
    (others : ∀ i q, h.protos[i]? = some q → i ≠ self →
      rows' q.nonTensorBatch = rows q.nonTensorBatch) :
    Tracks rows' { h with
      batches := h.batches ++ [td], protos :=
        h.protos.set self { p with batch := some h.batches.length } } := by
  have valid := tracks.protos p (List.mem_of_getElem? here)
  constructor
  · exact columns
  · intro q member
    obtain ⟨i, there⟩ := List.mem_iff_getElem?.mp member
    by_cases same : self = i
    · subst same
      rw [List.getElem?_set_self (List.getElem?_eq_some_iff.mp here).1, Option.some.injEq] at there
      subst there
      constructor
      · rintro _ ⟨⟩
        exact ⟨td, by simp, size⟩
      · exact valid.nonTensorBatch
      · exact valid.metaInfo
    · rw [List.getElem?_set_ne same] at there
      apply (tracks.protos q (List.mem_of_getElem? there)).keep _ (others i q there (Ne.symm same))
      exact ⟨fun ref td found => ⟨td, Part.getElem?_place (.fresh _) found, rfl⟩, le_rfl, le_rfl⟩

/-- Writes into the objects behind a `DataProto` that change no number of rows. -/
theorem Tracks.write {rows : Nat → Nat} {h h' : Heap τ ω μ} (tracks : h.Tracks rows)
    (keeps : Keeps h h')
    (columns : ∀ ref dict, h'.columns[ref]? = some dict → h.columns[ref]? = some dict ∨
      HasRows (rows ref) dict)
    (protos : h'.protos = h.protos) : h'.Tracks rows := by
  constructor
  · intro ref dict found
    rcases columns ref dict found with old | new
    · exact tracks.columns ref dict old
    · exact new
  · intro p member
    rw [protos] at member
    exact (tracks.protos p member).keep keeps rfl

theorem keeps_set {h : Heap τ ω μ} {ref : Nat} {old td : TensorDict τ}
    (found : h.batches[ref]? = some old) (size : td.batchSize = old.batchSize) (other : Nat)
    (x : TensorDict τ) (there : h.batches[other]? = some x) :
    ∃ td' : TensorDict τ, (h.batches.set ref td)[other]? = some td' ∧
      td'.batchSize = x.batchSize := by
  by_cases same : ref = other
  · subst same
    rw [found, Option.some.injEq] at there
    subst there
    exact ⟨td, List.getElem?_set_self (List.getElem?_eq_some_iff.mp found).1, size⟩
  · exact ⟨x, (List.getElem?_set_ne same).trans there, rfl⟩

theorem columns_set {rows : Nat → Nat} {objects : List (Dict (Column ω))} {ref : Nat}
    {new : Dict (Column ω)} (length : HasRows (rows ref) new) (other : Nat) (dict : Dict (Column ω))
    (found : (objects.set ref new)[other]? = some dict) :
    objects[other]? = some dict ∨ HasRows (rows other) dict := by
  rw [List.getElem?_set] at found
  split at found
  case isTrue same =>
    split at found
    case isTrue =>
      cases found
      exact .inr (same ▸ length)
    case isFalse => cases found
  case isFalse => exact .inl found

end Primitives

section Operations

def Inv (h : Heap τ ω μ) : Prop := ∃ rows, h.Tracks rows

theorem inv_newResult {h h' : Heap τ ω μ} (inv : h.Inv) {p : Proto}
    (valid : p.metaInfo < h.metas.length) {n : Nat}
    {d : DataProto τ ω μ} (aligned : d.Aligned n) (made : h.newResult p d = .ok h') : h'.Inv := by
  obtain ⟨rows, tracks⟩ := inv
  apply tracks.newProto (batchPart_fresh aligned) _ _ made
  · exact aligned.nonTensorBatch
  · exact valid

theorem Tracks.operand {rows : Nat → Nat} {h : Heap τ ω μ} (tracks : h.Tracks rows)
    {self : Nat} {p : Proto}
    (here : pyGet h.protos self = .ok p) {d : DataProto τ ω μ} (loaded : h.load p = .ok d) :
    p ∈ h.protos ∧ h.Valid rows p ∧ d.Aligned (rows p.nonTensorBatch) := by
  have member := List.mem_of_getElem? (pyGet_ok_iff.mp here)
  exact ⟨member, tracks.protos p member, tracks.aligned member loaded⟩

theorem inv_select {h h' : Heap τ ω μ} (inv : h.Inv) {self : Nat}
    {batchKeys nonTensorBatchKeys metaInfoKeys : Option (List String)} {deepcopy : Bool}
    (run : h.select self batchKeys nonTensorBatchKeys metaInfoKeys deepcopy = .ok h') : h'.Inv := by
  obtain ⟨rows, tracks⟩ := inv
  simp only [Heap.select, bind_ok_iff] at run
  obtain ⟨p, here, d, loaded, sub, selected, made⟩ := run
  obtain ⟨member, valid, aligned⟩ := tracks.operand here loaded
  refine tracks.newProto (n := rows p.nonTensorBatch) ?_ ?_ ?_ made
  · unfold selectBatch at selected
    split at selected
    case h_1 =>
      cases selected
      cases held : p.batch with
      | none => trivial
      | some ref => exact valid.batch ref held
    case h_2 => cases selected
    case h_3 batchKeys td present =>
      obtain ⟨td', chosen, done⟩ := bind_ok_iff.mp selected
      cases done
      exact (TensorDict.batchSize_select chosen).trans (aligned.batch td present)
  · cases nonTensorBatchKeys with
    | some keys => exact HasRows.filterKeys aligned.nonTensorBatch keys
    | none =>
      cases deepcopy with
      | true => exact aligned.nonTensorBatch
      | false => exact ⟨valid.nonTensorBatch, rfl⟩
  · cases metaInfoKeys with
    | some keys => trivial
    | none =>
      cases deepcopy with
      | true => trivial
      | false => exact valid.metaInfo

theorem inv_pop {h h' : Heap τ ω μ} (inv : h.Inv) {self : Nat}
    {batchKeys nonTensorBatchKeys metaInfoKeys : Option (List String)}
    (run : h.pop self batchKeys nonTensorBatchKeys metaInfoKeys = .ok h') : h'.Inv := by
  obtain ⟨rows, tracks⟩ := inv
  simp only [Heap.pop, bind_ok_iff] at run
  obtain ⟨-, -, p, here, d, loaded, run⟩ := run
  obtain ⟨member, valid, aligned⟩ := tracks.operand here loaded
  split at run
  case h_2 => cases run
  case h_1 ref td held present =>
    simp only [bind_ok_iff] at run
    obtain ⟨⟨leftTensors, tensors⟩, -, ⟨leftColumns, nonTensors⟩, poppedColumns,
      ⟨leftMeta, metaInfo⟩, -, left, made, popped, fromDict, run⟩ := run
    obtain ⟨_, same, found⟩ := batch_of_load loaded present
    cases held.symm.trans same
    have written : Tracks rows { h with
        batches := h.batches.set ref left
        columns := h.columns.set p.nonTensorBatch leftColumns
        metas := h.metas.set p.metaInfo leftMeta } := by
      refine tracks.write ⟨keeps_set found (TensorDict.batchSize_new made), ?_, ?_⟩ ?_ rfl
      · simp
      · simp
      · apply columns_set
        exact HasRows.subset aligned.nonTensorBatch (popKeys_subset poppedColumns).1
    obtain ⟨n, alignedPopped⟩ := DataProto.aligned_of_fromDict fromDict
    apply written.newProto (batchPart_fresh alignedPopped) _ _ run
    · exact alignedPopped.nonTensorBatch
    · trivial

theorem inv_rename {h h' : Heap τ ω μ} (inv : h.Inv) {self : Nat} {oldKeys newKeys : List String}
    (run : h.rename self oldKeys newKeys = .ok h') : h'.Inv := by
  obtain ⟨rows, tracks⟩ := inv
  simp only [Heap.rename, bind_ok_iff] at run
  obtain ⟨p, here, d, loaded, run⟩ := run
  split at run
  case isTrue => cases run
  case isFalse =>
    split at run
    case h_2 => cases run
    case h_1 ref td held present =>
      obtain ⟨td', renamed, done⟩ := bind_ok_iff.mp run
      cases done
      obtain ⟨_, same, found⟩ := batch_of_load loaded present
      cases held.symm.trans same
      refine ⟨rows, tracks.write ⟨keeps_set found (TensorDict.batchSize_renameKey renamed), le_rfl,
        le_rfl⟩ ?_ rfl⟩
      exact fun ref dict => .inl

theorem inv_union [DecidableEq τ] [DecidableEq μ] {equals : Column ω → Column ω → Bool}
    {h h' : Heap τ ω μ} (inv : h.Inv)
    {self other : Nat} (run : h.union equals self other = .ok h') : h'.Inv := by
  obtain ⟨rows, tracks⟩ := inv
  simp only [Heap.union, bind_ok_iff] at run
  obtain ⟨p, here, d, loaded, q, hereOther, o, loadedOther, run⟩ := run
  obtain ⟨-, -, aligned⟩ := tracks.operand here loaded
  obtain ⟨-, -, alignedOther⟩ := tracks.operand hereOther loadedOther
  split at run
  case h_2 => cases run
  case h_1 ref td tdOther held present presentOther =>
    simp only [bind_ok_iff] at run
    obtain ⟨batch, joined, columns, joinedColumns, metaInfo, -, done⟩ := run
    cases done
    obtain ⟨_, same, found⟩ := batch_of_load loaded present
    cases held.symm.trans same
    obtain ⟨size, equalSizes⟩ := batchSize_unionTensorDict joined
    have otherRows : HasRows (rows p.nonTensorBatch) o.nonTensorBatch := by
      rw [← aligned.batch td present, equalSizes, alignedOther.batch tdOther presentOther]
      exact alignedOther.nonTensorBatch
    refine ⟨rows, tracks.write ⟨keeps_set found size, ?_, ?_⟩ ?_ rfl⟩
    · simp
    · simp
    · exact columns_set (HasRows.unionNumpyDict aligned.nonTensorBatch otherRows joinedColumns)

theorem inv_getSlice {h h' : Heap τ ω μ} (inv : h.Inv) {self : Nat} {start stop step : Option Int}
    (run : h.getSlice self start stop step = .ok h') : h'.Inv := by
  have ⟨rows, tracks⟩ := inv
  simp only [Heap.getSlice, bind_ok_iff] at run
  obtain ⟨p, here, d, loaded, result, sliced, made⟩ := run
  obtain ⟨-, valid, -⟩ := tracks.operand here loaded
  obtain ⟨n, aligned⟩ := DataProto.aligned_of_getSlice sliced
  exact inv_newResult inv valid.metaInfo aligned made

theorem inv_repeatRows {h h' : Heap τ ω μ} (inv : h.Inv) {self repeatTimes : Nat}
    {interleave : Bool} (run : h.repeatRows self repeatTimes interleave = .ok h') : h'.Inv := by
  have ⟨rows, tracks⟩ := inv
  simp only [Heap.repeatRows, bind_ok_iff] at run
  obtain ⟨p, here, d, loaded, result, repeated, made⟩ := run
  obtain ⟨-, valid, aligned⟩ := tracks.operand here loaded
  obtain ⟨n, alignedResult⟩ := DataProto.aligned_of_repeat aligned repeated
  exact inv_newResult inv valid.metaInfo alignedResult made

theorem metas_newResult {h h' : Heap τ ω μ} {p : Proto} {d : DataProto τ ω μ}
    (made : h.newResult p d = .ok h') :
    h'.metas = h.metas := by
  simp only [Heap.newResult, Heap.newProto, bind_ok_iff, pure_eq_ok, Except.ok.injEq] at made
  obtain ⟨self, -, done, -, rfl⟩ := made
  rfl

theorem inv_chunk {h h' : Heap τ ω μ} (inv : h.Inv) {self chunks : Nat}
    (run : h.chunk self chunks = .ok h') : h'.Inv := by
  have ⟨rows, tracks⟩ := inv
  simp only [Heap.chunk, bind_ok_iff] at run
  obtain ⟨p, here, d, loaded, output, chunked, run⟩ := run
  obtain ⟨-, valid, aligned⟩ := tracks.operand here loaded
  refine (foldlM_invariant (fun h' : Heap τ ω μ => h'.Inv ∧ h'.metas = h.metas) ?_ ⟨inv, rfl⟩ run).1
  rintro before piece after member ⟨invBefore, metas⟩ made
  obtain ⟨n, alignedPiece⟩ := DataProto.aligned_of_chunk aligned chunked member
  refine ⟨inv_newResult invBefore ?_ alignedPiece made, (metas_newResult made).trans metas⟩
  rw [metas]
  exact valid.metaInfo

theorem inv_reorder {h h' : Heap τ ω μ} (inv : h.Inv) {self : Nat} {indices : List Nat}
    (run : h.reorder self indices = .ok h') : h'.Inv := by
  obtain ⟨rows, tracks⟩ := inv
  simp only [Heap.reorder, bind_ok_iff, pure_eq_ok, Except.ok.injEq] at run
  obtain ⟨p, here, d, loaded, result, reordered, rfl⟩ := run
  obtain ⟨member, -, -⟩ := tracks.operand here loaded
  exact ⟨_, tracks.assignParts member (DataProto.aligned_of_reorder reordered)⟩

theorem inv_concat {h h' : Heap τ ω μ} (inv : h.Inv) {data : List Nat} {protos : List Proto}
    {operands : List (DataProto τ ω μ)}
    (found : data.mapM (fun self => pyGet h.protos self) = .ok protos)
    (loaded : protos.mapM h.load = .ok operands)
    (whole : ∀ first ∈ operands.head?, first.batch = none →
      WholeKeys (operands.map DataProto.nonTensorBatch))
    (run : h.concat data = .ok h') : h'.Inv := by
  have ⟨rows, tracks⟩ := inv
  simp only [Heap.concat, found, ok_bind, loaded] at run
  have members : ∀ p ∈ protos, p ∈ h.protos := by
    intro p member
    obtain ⟨self, -, here⟩ := exists_source found member
    exact List.mem_of_getElem? (pyGet_ok_iff.mp here)
  have aligned : ∀ d ∈ operands, ∃ n, d.Aligned n := by
    intro d member
    obtain ⟨p, inside, here⟩ := exists_source loaded member
    exact ⟨_, tracks.aligned (members p inside) here⟩
  split at run
  case h_1 => cases run
  case h_2 first rest =>
    obtain ⟨result, joined, made⟩ := bind_ok_iff.mp run
    obtain ⟨n, alignedResult⟩ := DataProto.aligned_of_concat aligned whole joined
    exact inv_newResult inv (tracks.protos first (members first List.mem_cons_self)).metaInfo
      alignedResult made

theorem inv_allGather {h h' : Heap τ ω μ} (inv : h.Inv) {self : Nat}
    {peers : List (DataProto τ ω μ)} (aligned : ∀ d ∈ peers, ∃ n, d.Aligned n)
    (even : ∀ p own, pyGet h.protos self = .ok p → h.load p = .ok own → own.EvenRows peers)
    (run : h.allGather self peers = .ok h') : h'.Inv := by
  obtain ⟨rows, tracks⟩ := inv
  simp only [Heap.allGather, bind_ok_iff, pure_eq_ok, Except.ok.injEq] at run
  obtain ⟨p, here, d, loaded, result, gathered, rfl⟩ := run
  obtain ⟨member, -, -⟩ := tracks.operand here loaded
  obtain ⟨n, alignedResult⟩ :=
    DataProto.aligned_of_allGather aligned (even p d here loaded) gathered
  exact ⟨_, tracks.assignParts member alignedResult⟩

theorem inv_broadcast {h h' : Heap τ ω μ} (inv : h.Inv) {self : Nat} {src : DataProto τ ω μ}
    (run : h.broadcast self src = .ok h') : h'.Inv := by
  obtain ⟨rows, tracks⟩ := inv
  simp only [Heap.broadcast, bind_ok_iff] at run
  obtain ⟨p, here, d, loaded, out, sent, run⟩ := run
  split at run
  case h_2 => cases run
  case h_1 ref td held =>
    cases run
    unfold broadcastDictTensor at sent
    split at sent
    case h_2 => cases sent
    case h_1 own srcBatch present _ =>
      split at sent
      case isFalse => cases sent
      case isTrue same =>
        cases sent
        obtain ⟨_, ref', found⟩ := batch_of_load loaded present
        cases held.symm.trans ref'
        exact ⟨rows, tracks.write ⟨keeps_set found same.1.symm, le_rfl,
          le_rfl⟩ (fun ref dict => .inl) rfl⟩

/-- Where the gathered batch has the rows of the dict that stays: one rank, no rows, or no
column in a dict that no other object holds. -/
def SafeGatherBatch (h : Heap τ ω μ) (self : Nat) (peers : List (DataProto τ ω μ)) : Prop :=
  ∀ p own, pyGet h.protos self = .ok p → h.load p = .ok own →
    peers.length = 1 ∨ own.len = 0 ∨
      (own.nonTensorBatch.entries = [] ∧
        ∀ i q, h.protos[i]? = some q → i ≠ self → q.nonTensorBatch ≠ p.nonTensorBatch)

theorem inv_gatherBatch {h h' : Heap τ ω μ} (inv : h.Inv) {self : Nat}
    {peers : List (DataProto τ ω μ)}
    (safe : h.SafeGatherBatch self peers) (run : h.gatherBatch self peers = .ok h') : h'.Inv := by
  obtain ⟨rows, tracks⟩ := inv
  simp only [Heap.gatherBatch, bind_ok_iff] at run
  obtain ⟨p, here, d, loaded, out, gathered, done⟩ := run
  obtain ⟨member, -, aligned⟩ := tracks.operand here loaded
  cases present : d.batch with
  | none =>
    rw [present] at gathered
    cases gathered
  | some own =>
    rw [present] at gathered
    obtain ⟨td, rfl, size⟩ := batchSize_allgather gathered
    cases done
    rw [List.length_map, aligned.batch own present] at size
    have kept : rows p.nonTensorBatch * peers.length = rows p.nonTensorBatch →
        ∃ rows', Tracks rows' { h with
          batches := h.batches ++ [td], protos :=
            h.protos.set self { p with batch := some h.batches.length } } := by
      intro same
      refine ⟨rows, tracks.assignBatch (pyGet_ok_iff.mp here) (size.trans same) tracks.columns ?_⟩
      exact fun _ _ _ _ => rfl
    rcases safe p d here loaded with one | empty | ⟨noColumns, unshared⟩
    · exact kept (by rw [one, Nat.mul_one])
    · rw [DataProto.len_of_batch aligned present] at empty
      exact kept (by rw [empty, Nat.zero_mul])
    · refine ⟨Function.update rows p.nonTensorBatch (rows p.nonTensorBatch * peers.length),
        tracks.assignBatch (pyGet_ok_iff.mp here) ?_ ?_ ?_⟩
      · rw [size, Function.update_self]
      · intro ref dict found
        by_cases same : ref = p.nonTensorBatch
        · subst same
          have empty : dict = d.nonTensorBatch :=
            Option.some.inj (found.symm.trans (load_ok_iff.mp loaded).2.1)
          intro e inside
          rw [empty, noColumns] at inside
          cases inside
        · rw [Function.update_of_ne same]
          exact tracks.columns ref dict found
      · intro i q there different
        exact Function.update_of_ne (unshared i q there different) ..

end Operations

theorem inv_ofProtos {data : List (DataProto τ ω μ)} (aligned : ∀ d ∈ data, ∃ n, d.Aligned n) :
    (ofProtos data).Inv := by
  have loop : ∀ (data : List (DataProto τ ω μ)) (h : Heap τ ω μ),
    (∀ d ∈ data, ∃ n, d.Aligned n) → h.Inv →
      (data.foldl (fun h d =>
        (h.attach (d.batch.map .fresh) (.fresh d.nonTensorBatch) (.fresh d.metaInfo)).1)
        h).Inv := by
    intro data
    induction data with
    | nil => exact fun h _ inv => inv
    | cons d data ih =>
      rintro h aligned ⟨rows, tracks⟩
      rw [List.forall_mem_cons] at aligned
      obtain ⟨n, alignedD⟩ := aligned.1
      apply ih _ aligned.2
      exact ⟨_, tracks.attach (batchPart_fresh alignedD) alignedD.nonTensorBatch trivial⟩
  apply loop data _ aligned
  exact ⟨fun _ => 0, by simp, by simp⟩

end Heap

/-- Each rank's gather finds the same number of rows everywhere, or has a tensor to tell. -/
def EvenGather (h : Heap τ ω μ) (self : Nat) (peers : List (DataProto τ ω μ)) : Prop :=
  ∀ p own, pyGet h.protos self = .ok p → h.load p = .ok own → own.EvenRows peers

/-- A `concat` whose first operand has no batch meets no operand with only some of its keys. -/
def Op.Safe (h : Heap τ ω μ) : Op → Prop
  | .concat data => ∀ protos operands, data.mapM (fun self => pyGet h.protos self) = .ok protos →
      protos.mapM h.load = .ok operands → ∀ first ∈ operands.head?, first.batch = none →
        WholeKeys (operands.map DataProto.nonTensorBatch)
  | _ => True

def Collective.Safe (h : Heap τ ω μ) (self : Nat) (peers : List (DataProto τ ω μ)) :
    Collective → Prop
  | .allGatherDataProto => EvenGather h self peers
  | .base => True
  | .fsdpVllm => peers.length ≠ 1 → EvenGather h self peers
  | .fsdpUlysses deviceMesh => deviceMesh = true → EvenGather h self peers
  | .fsdpSglang => h.SafeGatherBatch self peers
  | .megatronVllm _ _ => True

def Event.Safe (ranks : Nat → Heap τ ω μ) : Event → Prop
  | .single rank op => op.Safe (ranks rank)
  | .collective call group data => ∀ peers, peersOf ranks group data = .ok peers →
      ∀ rank ∈ group, call.Safe (ranks rank) (data rank) peers

theorem inv_op [DecidableEq τ] [DecidableEq μ] {equals : Column ω → Column ω → Bool}
    {h h' : Heap τ ω μ} (inv : h.Inv)
    {op : Op} (safe : op.Safe h) (run : op.run equals h = .ok h') : h'.Inv := by
  cases op with
  | select => exact Heap.inv_select inv run
  | pop => exact Heap.inv_pop inv run
  | rename => exact Heap.inv_rename inv run
  | union => exact Heap.inv_union inv run
  | getSlice => exact Heap.inv_getSlice inv run
  | chunk => exact Heap.inv_chunk inv run
  | reorder => exact Heap.inv_reorder inv run
  | repeatRows => exact Heap.inv_repeatRows inv run
  | concat data =>
    obtain ⟨protos, found, rest⟩ := bind_ok_iff.mp run
    obtain ⟨operands, loaded, -⟩ := bind_ok_iff.mp rest
    exact Heap.inv_concat inv found loaded (safe protos operands found loaded) run

theorem inv_collective {h h' : Heap τ ω μ} (inv : h.Inv) {call : Collective} {rank self : Nat}
    {peers : List (DataProto τ ω μ)} (aligned : ∀ d ∈ peers, ∃ n, d.Aligned n)
    (safe : call.Safe h self peers) (run : call.run h rank self peers = .ok h') :
    h'.Inv := by
  cases call with
  | allGatherDataProto => exact Heap.inv_allGather inv aligned safe run
  | base =>
    cases run
    exact inv
  | fsdpVllm =>
    simp only [Collective.run] at run
    split at run
    case isTrue =>
      cases run
      exact inv
    case isFalse several => exact Heap.inv_allGather inv aligned (safe several) run
  | fsdpUlysses deviceMesh =>
    cases deviceMesh with
    | false =>
      cases run
      exact inv
    | true => exact Heap.inv_allGather inv aligned (safe rfl) run
  | fsdpSglang => exact Heap.inv_gatherBatch inv safe run
  | megatronVllm microDpSize microDpRank =>
    simp only [Collective.run, bind_ok_iff] at run
    obtain ⟨src, -, received, sent, run⟩ := run
    have invReceived := Heap.inv_broadcast inv sent
    split at run
    case isTrue =>
      simp only [bind_ok_iff, pure_eq_ok, Except.ok.injEq] at run
      obtain ⟨chunked, cut, -, -, rfl⟩ := run
      exact Heap.inv_chunk invReceived cut
    case isFalse =>
      cases run
      exact invReceived

theorem aligned_peersOf {ranks : Nat → Heap τ ω μ} (inv : ∀ rank, (ranks rank).Inv)
    {group : List Nat} {data : Nat → Nat}
    {peers : List (DataProto τ ω μ)} (passed : peersOf ranks group data = .ok peers) :
    ∀ d ∈ peers, ∃ n, d.Aligned n := by
  intro d member
  obtain ⟨rank, -, read⟩ := exists_source passed member
  obtain ⟨p, here, loaded⟩ := bind_ok_iff.mp read
  obtain ⟨rows, tracks⟩ := inv rank
  exact ⟨_, (tracks.operand here loaded).2.2⟩

theorem inv_step [DecidableEq τ] [DecidableEq μ] {equals : Column ω → Column ω → Bool}
    {before after : Nat → Heap τ ω μ} (inv : ∀ rank, (before rank).Inv) {event : Event}
    (safe : event.Safe before) (step : Step equals before event after) :
    ∀ rank, (after rank).Inv := by
  intro rank
  cases step with
  | @single own op h run =>
    by_cases same : rank = own
    · subst same
      rw [Function.update_self]
      exact inv_op (inv rank) safe run
    · rw [Function.update_of_ne same]
      exact inv rank
  | @collective call group data peers _ passed run others =>
    by_cases inside : rank ∈ group
    · exact inv_collective (inv rank) (aligned_peersOf inv passed) (safe peers passed rank inside)
        (run rank inside)
    · rw [others rank inside]
      exact inv rank

theorem aligned_of_safe_run [DecidableEq τ] [DecidableEq μ] (equals : Column ω → Column ω → Bool)
    (data : Nat → List (DataProto τ ω μ)) (aligned : ∀ rank, ∀ d ∈ data rank, ∃ n, d.Aligned n)
    {ranks : Nat → Heap τ ω μ}
    (run : Relation.ReflTransGen (fun before after => ∃ event : Event,
      event.Safe before ∧ Step equals before event after)
      (fun rank => Heap.ofProtos (data rank)) ranks) : AllAligned ranks := by
  have inv : ∀ rank, (ranks rank).Inv := by
    induction run with
    | refl => exact fun rank => Heap.inv_ofProtos (aligned rank)
    | tail _ last ih =>
      obtain ⟨event, safe, step⟩ := last
      exact inv_step ih safe step
  intro rank p member
  obtain ⟨rows, tracks⟩ := inv rank
  obtain ⟨d, loaded⟩ := tracks.loads member
  exact ⟨d, _, loaded, tracks.aligned member loaded⟩

def onePrompt : DataProto Nat Nat Nat where
  batch := some ⟨1, ⟨[("input_ids", ⟨[], [7]⟩)], List.nodup_singleton _⟩, by simp⟩
  nonTensorBatch := ⟨[("raw_prompt_ids", ⟨[], [7]⟩)], List.nodup_singleton _⟩
  metaInfo := .empty

theorem aligned_onePrompt : onePrompt.Aligned 1 := by
  constructor
  · rintro _ ⟨⟩
    rfl
  · simp [onePrompt]

/-- `x = data.select()` and then `data.pop(["input_ids"], ["raw_prompt_ids"])`, which empties the
parts of `x`. -/
def selectPopHeap : Heap Nat Nat Nat where
  batches := [⟨1, .empty, fun _ member => absurd member List.not_mem_nil⟩] ++ onePrompt.batch.toList
  columns := [.empty, onePrompt.nonTensorBatch]
  metas := [.empty, .empty]
  protos := [⟨some 0, 0, 0⟩, ⟨some 0, 0, 0⟩, ⟨some 1, 1, 1⟩]

theorem aligned_select_pop :
    AllAligned (Function.update (fun _ => Heap.ofProtos [onePrompt]) 0 selectPopHeap) := by
  apply aligned_of_safe_run (fun _ _ => true) (fun _ => [onePrompt])
  · intro rank d member
    cases List.mem_singleton.mp member
    exact ⟨1, aligned_onePrompt⟩
  · have shared : (Op.select 0 none none none false).run (fun _ _ => true)
      (Heap.ofProtos [onePrompt]) =
        .ok { Heap.ofProtos [onePrompt] with protos := [⟨some 0, 0, 0⟩, ⟨some 0, 0, 0⟩] } := rfl
    apply Relation.ReflTransGen.head ⟨.single 0 (.select 0 none none none false), trivial,
      Step.single shared⟩
    have popped : (Op.pop 0 (some ["input_ids"]) (some ["raw_prompt_ids"]) none).run (fun _ _ =>
      true)
        (Function.update (fun _ => Heap.ofProtos [onePrompt]) 0
          { Heap.ofProtos [onePrompt] with protos := [⟨some 0, 0, 0⟩, ⟨some 0, 0, 0⟩] } 0) =
            .ok selectPopHeap := rfl
    apply Relation.ReflTransGen.single
    refine ⟨.single 0 (.pop 0 (some ["input_ids"]) (some ["raw_prompt_ids"]) none), trivial, ?_⟩
    have step := Step.single popped
    rwa [Function.update_idem] at step

/-- After the SGLang gather on two ranks: two rows of tokens beside one row of objects. -/
def sglangHeap : Heap Nat Nat Nat :=
  { Heap.ofProtos [onePrompt] with
    batches := onePrompt.batch.toList ++
      [⟨2, ⟨[("input_ids", ⟨[], [7, 7]⟩)], List.nodup_singleton _⟩, by simp⟩]
    protos := [⟨some 1, 0, 0⟩] }

theorem sglang_preprocess_misaligned : onePrompt.Aligned 1 ∧ ∃ ranks : Nat → Heap Nat Nat Nat,
    Relation.ReflTransGen (fun before after => ∃ event : Event,
      Step (fun _ _ => true) before event after)
      (fun _ => Heap.ofProtos [onePrompt]) ranks ∧ ¬ AllAligned ranks := by
  refine ⟨aligned_onePrompt, fun rank => if rank < 2 then sglangHeap
    else Heap.ofProtos [onePrompt], ?_, ?_⟩
  · apply Relation.ReflTransGen.single
    have passed : peersOf (fun _ => Heap.ofProtos [onePrompt]) [0, 1] (fun _ => 0) =
      .ok [onePrompt, onePrompt] := rfl
    refine ⟨.collective .fsdpSglang [0, 1] (fun _ => 0), Step.collective passed ?_ ?_⟩
    · intro rank member
      have small : rank < 2 := by
        simp at member
        omega
      rw [if_pos small]
      rfl
    · intro rank outside
      have large : ¬ rank < 2 := by
        simp at outside
        omega
      exact if_neg large
  · intro all
    obtain ⟨d, n, loaded, aligned⟩ := all 0 ⟨some 1, 0, 0⟩ List.mem_cons_self
    cases Except.ok.inj loaded
    have two : 2 = n := aligned.batch _ rfl
    have one : 1 = n := aligned.nonTensorBatch ("raw_prompt_ids", ⟨[], [7]⟩) List.mem_cons_self
    omega

end Verl.Protocol
