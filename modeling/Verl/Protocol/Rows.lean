import Verl.Protocol.DataProto

/-! Row selection on a `DataProto`. `chunk`, `concat` and `repeat` of aligned data
all read rows at a list of positions, so their compositions reduce to the algebra
of position lists. -/
namespace Verl.Protocol

section Columns

variable {α : Type}

theorem Column.pickRows_pickRows {column : Column α} {p : List Nat}
    (inside : ∀ i ∈ p, i < column.rows.length) (q : List Nat) :
    (column.pickRows p).pickRows q = column.pickRows (pick p q) := by
  simp [Column.pickRows, pick_pick inside]

theorem Column.pickRows_range {column : Column α} {n : Nat} (length : column.rows.length = n) :
    column.pickRows (List.range n) = column := by
  subst length
  simp [Column.pickRows, pick_range]

theorem Column.concat_pickRows (column : Column α) {idxs : List (List Nat)} (nonempty : idxs ≠ []) :
    Column.concat (idxs.map (fun idx => column.pickRows idx)) =
      .ok (column.pickRows idxs.flatten) := by
  obtain ⟨idx, rest, rfl⟩ := List.exists_cons_of_ne_nil nonempty
  have rows : ∀ idxs : List (List Nat),
      (idxs.map (fun idx => column.pickRows idx)).flatMap Column.rows =
      pick column.rows idxs.flatten := by
    intro idxs
    induction idxs with
    | nil => rfl
    | cons idx idxs ih =>
      rw [List.map_cons, List.flatMap_cons, ih, List.flatten_cons, pick_append]
      rfl
  have shapes : (rest.map (fun idx => column.pickRows idx)).all
      (fun c => decide (c.shape = (column.pickRows idx).shape)) = true := by
    simp [Column.pickRows]
  have gathered := rows (idx :: rest)
  rw [List.map_cons] at gathered ⊢
  simp only [Column.concat]
  rw [if_pos shapes, gathered]
  rfl

/-- `np.array_split` cuts where the blocks end when the pieces are equally long. -/
theorem Column.arraySplit_eq (column : Column α) {sections size : Nat} (positive : 0 < sections)
    (length : column.rows.length = sections * size) :
    column.arraySplit sections =
      (List.range sections).map (fun i => column.pickRows (blockIdx size i)) := by
  have each : column.rows.length / sections = size := by
    rw [length, Nat.mul_div_cancel_left _ positive]
  have extras : column.rows.length % sections = 0 := by rw [length, Nat.mul_mod_right]
  simp only [Column.arraySplit, each, extras, Nat.min_zero, Nat.add_zero]
  apply List.map_congr_left
  intro i _
  have width : (i + 1) * size - i * size = size := by
    rw [Nat.succ_mul]
    omega
  rw [slice_eq_pick, width]
  rfl

end Columns

namespace TensorDict

variable {τ : Type}

theorem filter_inside {n : Nat} {idx : List Nat} (inside : ∀ i ∈ idx, i < n) :
    idx.filter (· < n) = idx := by
  rw [List.filter_eq_self]
  simpa using inside

theorem batchSize_pickRows {td : TensorDict τ} {idx : List Nat}
    (inside : ∀ i ∈ idx, i < td.batchSize) : (td.pickRows idx).batchSize = idx.length := by
  simp only [pickRows]
  rw [filter_inside inside]

theorem pickRows_pickRows {td : TensorDict τ} {p : List Nat} (inside : ∀ i ∈ p, i < td.batchSize)
    (q : List Nat) : (td.pickRows p).pickRows q = td.pickRows (pick p q) := by
  have below : ∀ i ∈ pick p q, i < td.batchSize := by
    intro i member
    obtain ⟨j, _, hj⟩ := List.mem_filterMap.mp member
    exact inside i (List.mem_of_getElem? hj)
  ext1
  · have outer : ((td.pickRows p).pickRows q).batchSize =
        (q.filter (· < (td.pickRows p).batchSize)).length := rfl
    rw [batchSize_pickRows below, length_pick_filter, outer]
    simp only [batchSize_pickRows inside]
  · simp only [pickRows, Dict.mapKV_mapKV]
    apply Dict.mapKV_congr
    intro e member
    exact Column.pickRows_pickRows (fun i hi => (td.aligned e member).symm ▸ inside i hi) q

theorem pickRows_range (td : TensorDict τ) : td.pickRows (List.range td.batchSize) = td := by
  ext1
  · rw [batchSize_pickRows (by simp), List.length_range]
  · simp only [pickRows]
    apply Dict.mapKV_id
    exact fun e member => Column.pickRows_range (td.aligned e member)

theorem chunk_eq {td : TensorDict τ} {chunks size : Nat} (positive : 0 < chunks)
    (nonempty : 0 < size) (length : td.batchSize = chunks * size) :
    td.chunk chunks = .ok ((List.range chunks).map (fun i => td.pickRows (blockIdx size i))) := by
  have rounded : (td.batchSize + chunks - 1) / chunks = size := by
    rw [length, Nat.add_sub_assoc positive, Nat.mul_add_div positive,
      Nat.div_eq_of_lt (by omega), Nat.add_zero]
  have count : max 1 ((td.batchSize + size - 1) / size) = chunks := by
    rw [length, Nat.add_sub_assoc nonempty, Nat.mul_comm, Nat.mul_add_div nonempty,
      Nat.div_eq_of_lt (by omega), Nat.add_zero]
    omega
  simp only [chunk, Nat.pos_iff_ne_zero.mp positive, if_false, rounded, split, count]
  congr 1
  apply List.map_congr_left
  intro i _
  have width : (i + 1) * size - i * size = size := by
    rw [Nat.succ_mul]
    omega
  simp only [slice, width, blockIdx]

theorem sum_batchSize (td : TensorDict τ) (idxs : List (List Nat)) :
    ((idxs.map (fun idx => td.pickRows idx)).map batchSize).sum =
      (td.pickRows idxs.flatten).batchSize := by
  induction idxs with
  | nil => rfl
  | cons idx idxs ih =>
    simp only [List.map_cons, List.sum_cons, ih]
    simp [pickRows]

theorem catKey_pickRows (td : TensorDict τ) {idxs : List (List Nat)} (nonempty : idxs ≠ [])
    {e : String × Column τ} (member : e ∈ td.tensors.entries) :
    catKey (idxs.map (fun idx => td.pickRows idx)) e.1 = .ok (e.2.pickRows idxs.flatten) := by
  have items : (idxs.map (fun idx => td.pickRows idx)).mapM (fun td => td.tensors.getItem e.1) =
      .ok (idxs.map (fun idx => e.2.pickRows idx)) := by
    rw [List.mapM_map]
    apply mapM_ok
    intro other _
    simp [Dict.getItem, pickRows, Dict.get?_of_mem member]
  rw [catKey, items, ok_bind, Column.concat_pickRows e.2 nonempty]

theorem cat_pickRows (td : TensorDict τ) {idxs : List (List Nat)} (nonempty : idxs ≠ []) :
    cat (idxs.map (fun idx => td.pickRows idx)) = .ok (td.pickRows idxs.flatten) := by
  obtain ⟨idx, rest, rfl⟩ := List.exists_cons_of_ne_nil nonempty
  have keys : (rest.map (fun idx => td.pickRows idx)).all (fun other =>
      other.tensors.keys.all (td.pickRows idx).tensors.contains &&
      (td.pickRows idx).tensors.keys.all other.tensors.contains) = true := by
    simp only [List.all_map, List.all_eq_true, Function.comp_apply, Bool.and_eq_true]
    intro other _
    simp [pickRows, Dict.contains_iff]
  have columns : (td.pickRows idx).tensors.mapKVM
      (fun key _ => catKey ((idx :: rest).map (fun idx => td.pickRows idx)) key) =
      .ok (td.pickRows (idx :: rest).flatten).tensors := by
    simp only [pickRows, Dict.mapKVM_mapKV]
    apply Dict.mapKVM_ok
    exact fun e member => catKey_pickRows td nonempty member
  have size := sum_batchSize td (idx :: rest)
  rw [List.map_cons] at columns size ⊢
  simp only [cat]
  rw [if_pos keys, columns, ok_bind, size, new, dif_pos (td.pickRows (idx :: rest).flatten).aligned]

theorem setItem_pickRows {td : TensorDict τ} {key : String} {column : Column τ}
    (length : column.rows.length = td.batchSize)
    {p : List Nat} (inside : ∀ i ∈ p, i < td.batchSize) :
    (td.pickRows p).setItem key (column.pickRows p) =
      (td.setItem key column).map (fun td => td.pickRows p) := by
  have picked : (column.pickRows p).rows.length = (td.pickRows p).batchSize := by
    rw [batchSize_pickRows inside]
    exact length_pick (length ▸ inside)
  unfold setItem
  rw [dif_pos length, dif_pos picked]
  simp only [Except.map, pickRows, Except.ok.injEq]
  ext1
  · rfl
  · exact (Dict.mapKV_set (fun column => column.pickRows p) td.tensors key column).symm

end TensorDict

namespace DataProto

variable {τ ω μ : Type}

structure Aligned (n : Nat) (data : DataProto τ ω μ) : Prop where
  batch : ∀ batch, data.batch = some batch → batch.batchSize = n
  nonTensorBatch : ∀ e ∈ data.nonTensorBatch.entries, e.2.rows.length = n

/-- The same tensor and object columns; `meta_info` may differ. -/
structure SameColumns (a b : DataProto τ ω μ) : Prop where
  batch : a.batch = b.batch
  nonTensorBatch : a.nonTensorBatch = b.nonTensorBatch

def pickRows (idx : List Nat) (self : DataProto τ ω μ) : DataProto τ ω μ where
  batch := self.batch.map (fun batch => batch.pickRows idx)
  nonTensorBatch := self.nonTensorBatch.mapKV (fun _ column => column.pickRows idx)
  metaInfo := self.metaInfo

theorem Aligned.pickRows {n : Nat} {self : DataProto τ ω μ} (aligned : self.Aligned n)
    {idx : List Nat} (inside : ∀ i ∈ idx, i < n) : (self.pickRows idx).Aligned idx.length := by
  constructor
  · intro batch present
    obtain ⟨source, hsource, rfl⟩ := Option.map_eq_some_iff.mp present
    exact TensorDict.batchSize_pickRows (aligned.batch source hsource ▸ inside)
  · intro e member
    obtain ⟨source, hsource, rfl⟩ := List.mem_map.mp member
    exact length_pick (aligned.nonTensorBatch source hsource ▸ inside)

theorem pickRows_pickRows {n : Nat} {self : DataProto τ ω μ} (aligned : self.Aligned n)
    {p : List Nat} (inside : ∀ i ∈ p, i < n) (q : List Nat) :
    (self.pickRows p).pickRows q = self.pickRows (pick p q) := by
  have batch : (self.batch.map (fun batch => batch.pickRows p)).map
    (fun batch => batch.pickRows q) =
      self.batch.map (fun batch => batch.pickRows (pick p q)) := by
    cases h : self.batch with
    | none => rfl
    | some source =>
      simp only [Option.map_some, Option.some.injEq]
      exact TensorDict.pickRows_pickRows (aligned.batch source h ▸ inside) q
  simp only [DataProto.pickRows, batch, Dict.mapKV_mapKV]
  congr 1
  apply Dict.mapKV_congr
  intro e member
  exact Column.pickRows_pickRows (aligned.nonTensorBatch e member ▸ inside) q

theorem pickRows_range {n : Nat} {self : DataProto τ ω μ} (aligned : self.Aligned n) :
    self.pickRows (List.range n) = self := by
  have batch : self.batch.map (fun batch => batch.pickRows (List.range n)) = self.batch := by
    cases h : self.batch with
    | none => rfl
    | some source =>
      simp only [Option.map_some, Option.some.injEq]
      rw [← aligned.batch source h]
      exact TensorDict.pickRows_range source
  have columns : self.nonTensorBatch.mapKV (fun _ column => column.pickRows (List.range n)) =
      self.nonTensorBatch :=
    Dict.mapKV_id (f := fun _ column => column.pickRows (List.range n))
      (fun e member => Column.pickRows_range (aligned.nonTensorBatch e member))
  rw [DataProto.pickRows, batch, columns]

theorem len_pickRows {n : Nat} {self : DataProto τ ω μ} {td : TensorDict τ}
    (present : self.batch = some td) (aligned : self.Aligned n)
    {idx : List Nat} (inside : ∀ i ∈ idx, i < n) : (self.pickRows idx).len = idx.length := by
  simp only [len, pickRows, present, Option.map_some]
  exact TensorDict.batchSize_pickRows (aligned.batch td present ▸ inside)

theorem SameColumns.pickRows {a b : DataProto τ ω μ} (same : a.SameColumns b) (idx : List Nat) :
    (a.pickRows idx).SameColumns (b.pickRows idx) := by
  constructor
  · simp [DataProto.pickRows, same.batch]
  · simp [DataProto.pickRows, same.nonTensorBatch]

theorem SameColumns.aligned {a b : DataProto τ ω μ} (same : a.SameColumns b) {n : Nat}
    (aligned : b.Aligned n) :
    a.Aligned n := by
  constructor
  · exact fun batch present => aligned.batch batch (same.batch ▸ present)
  · exact fun e member => aligned.nonTensorBatch e (same.nonTensorBatch ▸ member)

theorem SameColumns.len {a b : DataProto τ ω μ} (same : a.SameColumns b) : a.len = b.len := by
  simp [DataProto.len, same.batch, same.nonTensorBatch]

theorem new_ok {batch : Option (TensorDict τ)} {nonTensorBatch : Dict (Column ω)}
    {metaInfo : Dict μ} {n : Nat}
    (aligned : (⟨batch, nonTensorBatch, metaInfo⟩ : DataProto τ ω μ).Aligned n) :
    new batch nonTensorBatch metaInfo = .ok ⟨batch, nonTensorBatch, metaInfo⟩ := by
  have checked : (⟨batch, nonTensorBatch, metaInfo⟩ : DataProto τ ω μ).checkConsistency =
      .ok ⟨⟩ := by
    cases batch with
    | none => rfl
    | some batch =>
      apply forM_ok
      rintro ⟨key, column⟩ member
      have length : column.rows.length = batch.batchSize :=
        (aligned.nonTensorBatch (key, column) member).trans (aligned.batch batch rfl).symm
      simp [length]
  simp [new, checked]

theorem chunkBatch_eq {n : Nat} {self : DataProto τ ω μ} (aligned : self.Aligned n)
    {chunks size : Nat} (positive : 0 < chunks) (nonempty : 0 < size) (length : n = chunks * size) :
    chunkBatch self.batch chunks =
      .ok ((List.range chunks).map (fun i =>
        self.batch.map (fun batch => batch.pickRows (blockIdx size i)))) := by
  cases h : self.batch with
  | none => simp [chunkBatch, List.map_const']
  | some batch =>
    have pieces := TensorDict.chunk_eq positive nonempty ((aligned.batch batch h).trans length)
    simp [chunkBatch, pieces, Function.comp_def]

theorem chunk_eq {n : Nat} {self : DataProto τ ω μ} (aligned : self.Aligned n) (len : self.len = n)
    {chunks size : Nat} (positive : 0 < chunks) (nonempty : 0 < size) (length : n = chunks * size) :
    self.chunk chunks =
      .ok ((List.range chunks).map (fun i => self.pickRows (blockIdx size i))) := by
  have remainder : pyMod self.len chunks = .ok 0 := by
    rw [pyMod_pos positive, len, length, Nat.mul_mod_right]
  have each : ∀ i ∈ List.range chunks, self.chunkPiece chunks
      ((List.range chunks).map
        (fun i => self.batch.map (fun batch => batch.pickRows (blockIdx size i)))) i =
      .ok (self.pickRows (blockIdx size i)) := by
    intro i member
    have hi : i < chunks := List.mem_range.mp member
    have columns : self.nonTensorBatch.mapKVM (fun _ val => chunkColumn chunks i val) =
        .ok (self.nonTensorBatch.mapKV (fun _ column => column.pickRows (blockIdx size i))) := by
      apply Dict.mapKVM_ok
      intro e he
      have pieces := Column.arraySplit_eq e.2 positive ((aligned.nonTensorBatch e he).trans length)
      simp [chunkColumn, pieces, hi]
    have inside : ∀ j ∈ blockIdx size i, j < n := length ▸ blockIdx_inside hi
    rw [chunkPiece, columns, ok_bind, pyGet_of_lt (by simpa using hi)]
    simp only [ok_bind, List.getElem_map, List.getElem_range]
    exact new_ok (aligned.pickRows inside)
  simp only [chunk, remainder, ok_bind, beq_self_eq_true, pyAssert_true,
    chunkBatch_eq aligned positive nonempty length]
  exact mapM_ok _ _ _ each

theorem catBatch_pickRows (batch : Option (TensorDict τ)) {idxs : List (List Nat)}
    (nonempty : idxs ≠ []) :
    catBatch (idxs.map (fun idx => batch.map (fun batch => batch.pickRows idx))) =
      .ok (batch.map (fun batch => batch.pickRows idxs.flatten)) := by
  cases batch with
  | none =>
    obtain ⟨idx, rest, rfl⟩ := List.exists_cons_of_ne_nil nonempty
    rfl
  | some td =>
    have unwrapped : (idxs.map (fun idx => (some td).map (fun batch => batch.pickRows idx))).mapM
        requireBatch = .ok (idxs.map (fun idx => td.pickRows idx)) := by
      rw [List.mapM_map]
      exact mapM_ok _ _ _ (fun _ _ => rfl)
    obtain ⟨idx, rest, rfl⟩ := List.exists_cons_of_ne_nil nonempty
    have joined := TensorDict.cat_pickRows td nonempty
    simp only [List.map_cons, Option.map_some] at unwrapped joined ⊢
    simp only [catBatch, unwrapped, ok_bind, joined]
    rfl

theorem concatColumns_pickRows (columns : Dict (Column ω)) {idxs : List (List Nat)}
    (nonempty : idxs ≠ []) :
    concatColumns (idxs.map (fun idx => columns.mapKV (fun _ column => column.pickRows idx))) =
      .ok (columns.mapKV (fun _ column => column.pickRows idxs.flatten)) := by
  obtain ⟨idx, rest, rfl⟩ := List.exists_cons_of_ne_nil nonempty
  rw [concatColumns, List.map_cons, listOfDictToDictOfList_ok (by simp), ok_bind, Dict.mapKV_mapKV,
    Dict.mapKVM_mapKV]
  apply Dict.mapKVM_ok
  intro e member
  have gathered : ((idx :: rest).map (fun idx =>
    columns.mapKV (fun _ column => column.pickRows idx))).filterMap
      (fun d => d.get? e.1) = (idx :: rest).map (fun idx => e.2.pickRows idx) := by
    rw [List.filterMap_map]
    simp [Dict.get?_of_mem member]
  rw [List.map_cons] at gathered
  rw [gathered]
  exact Column.concat_pickRows e.2 nonempty

theorem concat_pickRows {n : Nat} {self : DataProto τ ω μ} (aligned : self.Aligned n)
    {idxs : List (List Nat)} (inside : ∀ idx ∈ idxs, ∀ i ∈ idx, i < n) {first : DataProto τ ω μ}
    {rest : List (DataProto τ ω μ)}
    (same : List.Forall₂ SameColumns (first :: rest) (idxs.map (fun idx => self.pickRows idx))) :
    concat (first :: rest) =
      .ok { self.pickRows idxs.flatten with metaInfo := first.metaInfo } := by
  have nonempty : idxs ≠ [] := by
    rintro rfl
    simp at same
  have batches : (first :: rest).map batch =
      idxs.map (fun idx => self.batch.map (fun batch => batch.pickRows idx)) := by
    have mapped := map_eq_of_forall₂ batch batch (same.imp (fun _ _ h => h.batch))
    rwa [List.map_map] at mapped
  have dicts : (first :: rest).map nonTensorBatch =
      idxs.map (fun idx => self.nonTensorBatch.mapKV (fun _ column => column.pickRows idx)) := by
    have mapped := map_eq_of_forall₂ nonTensorBatch nonTensorBatch
      (same.imp (fun _ _ h => h.nonTensorBatch))
    rwa [List.map_map] at mapped
  have all : ∀ i ∈ idxs.flatten, i < n := by
    intro i member
    obtain ⟨idx, hidx, hi⟩ := List.mem_flatten.mp member
    exact inside idx hidx i hi
  simp only [concat, batches, dicts, catBatch_pickRows self.batch nonempty, ok_bind]
  rw [concatColumns_pickRows self.nonTensorBatch nonempty]
  exact new_ok ⟨(aligned.pickRows all).batch, (aligned.pickRows all).nonTensorBatch⟩

/-- The positions that repeating `n` rows `times` times reads. -/
def repeatIdx (n times : Nat) (interleave : Bool) : List Nat :=
  if interleave then
    (List.range n).flatMap (List.replicate times)
  else (List.replicate times (List.range n)).flatten

theorem repeatIdx_inside (n times : Nat) (interleave : Bool) :
    ∀ i ∈ repeatIdx n times interleave, i < n := by
  intro i member
  cases interleave with
  | true =>
    obtain ⟨j, hj, hi⟩ := List.mem_flatMap.mp member
    rw [List.eq_of_mem_replicate hi]
    exact List.mem_range.mp hj
  | false =>
    obtain ⟨row, hrow, hi⟩ := List.mem_flatten.mp member
    rw [List.eq_of_mem_replicate hrow] at hi
    exact List.mem_range.mp hi

theorem length_repeatIdx (n times : Nat) (interleave : Bool) :
    (repeatIdx n times interleave).length = n * times := by
  cases interleave with
  | true => simp [repeatIdx, List.length_flatMap]
  | false => simp [repeatIdx, Nat.mul_comm]

theorem pick_repeatIdx {rows n i j : Nat} (hi : i < rows) (hj : j < n) :
    pick (repeatIdx rows n true) [i * n + j] = [i] := by
  have read : (repeatIdx rows n true)[i * n + j]? = some i := by
    rw [repeatIdx, if_pos rfl, getElem?_flatMap (fun _ _ => List.length_replicate) hj,
      List.getElem?_range hi]
    simp [hj]
  simp [pick, read]

theorem repeatColumn_eq {α : Type} {column : Column α} {n : Nat} (length : column.rows.length = n)
    (times : Nat) (interleave : Bool) :
    repeatColumn times interleave column = column.pickRows (repeatIdx n times interleave) := by
  subst length
  cases interleave with
  | true =>
    simp [repeatColumn, repeatIdx, repeatInterleave, Column.pickRows,
    pick_flatMap_replicate, pick_range]
  | false =>
    simp [repeatColumn, repeatIdx, tile, Column.pickRows, pick_replicate_flatten, pick_range]

theorem repeatTensor_eq {α : Type} {tensor : Column α} {n : Nat} (length : tensor.rows.length = n)
    (times : Nat) {interleave : Bool} (shaped : interleave = true ∨ 0 ∉ tensor.shape) :
    repeatTensor times interleave tensor =
      .ok (tensor.pickRows (repeatIdx n times interleave)) := by
  rw [← repeatColumn_eq length times interleave]
  cases interleave with
  | true => rfl
  | false =>
    simp [repeatTensor, expandReshape, repeatColumn, shaped.resolve_left Bool.false_ne_true]

/-- No tensor has a trailing shape without elements. -/
def Expandable (self : DataProto τ ω μ) : Prop :=
  ∀ td, self.batch = some td → ∀ e ∈ td.tensors.entries, 0 ∉ e.2.shape

theorem repeatBatch_eq {n : Nat} {batch : Option (TensorDict τ)}
    (size : ∀ td, batch = some td → td.batchSize = n) (times : Nat) {interleave : Bool}
    (shaped : interleave = true ∨ ∀ td, batch = some td → ∀ e ∈ td.tensors.entries, 0 ∉ e.2.shape) :
    repeatBatch batch times interleave =
      .ok (batch.map (fun td => td.pickRows (repeatIdx n times interleave))) := by
  cases batch with
  | none => rfl
  | some td =>
    have hn : td.batchSize = n := size td rfl
    have columns : td.tensors.mapKVM (fun _ tensor => repeatTensor times interleave tensor) =
        .ok (td.pickRows (repeatIdx n times interleave)).tensors := by
      simp only [TensorDict.pickRows]
      apply Dict.mapKVM_ok
      intro e member
      exact repeatTensor_eq ((td.aligned e member).trans hn) times
        (shaped.imp_right (fun each => each td rfl e member))
    have count : td.batchSize * times = (td.pickRows (repeatIdx n times interleave)).batchSize := by
      rw [TensorDict.batchSize_pickRows (hn ▸ repeatIdx_inside n times interleave),
        length_repeatIdx, hn]
    simp only [repeatBatch, columns, count, ok_bind]
    rw [TensorDict.new, dif_pos (td.pickRows (repeatIdx n times interleave)).aligned]
    rfl

theorem repeat_eq {n : Nat} {self : DataProto τ ω μ} (aligned : self.Aligned n) (times : Nat)
    {interleave : Bool} (shaped : interleave = true ∨ self.Expandable) :
    self.repeat times interleave = .ok (self.pickRows (repeatIdx n times interleave)) := by
  have columns : self.nonTensorBatch.mapKV (fun _ column => repeatColumn times interleave column) =
      self.nonTensorBatch.mapKV (fun _ column => column.pickRows (repeatIdx n times interleave)) :=
    Dict.mapKV_congr (fun e member =>
      repeatColumn_eq (aligned.nonTensorBatch e member) times interleave)
  simp only [DataProto.repeat, repeatBatch_eq aligned.batch times shaped, columns, ok_bind]
  exact new_ok (aligned.pickRows (repeatIdx_inside n times interleave))

/-- A repetition that does not interleave fails on a tensor that cannot be expanded, and only
there. -/
theorem repeat_ok_iff {n : Nat} {self d : DataProto τ ω μ} (aligned : self.Aligned n) {times : Nat}
    {interleave : Bool} :
    self.repeat times interleave = .ok d ↔
      (interleave = true ∨ self.Expandable) ∧ d = self.pickRows (repeatIdx n times interleave) := by
  constructor
  · intro run
    have shaped : interleave = true ∨ self.Expandable := by
      cases interleave with
      | true => exact .inl rfl
      | false =>
        right
        intro td present e member empty
        obtain ⟨repeated, made, -⟩ := bind_ok_iff.mp run
        rw [present] at made
        obtain ⟨tensors, each, -⟩ := bind_ok_iff.mp made
        obtain ⟨values, each, -⟩ := bind_ok_iff.mp each
        obtain ⟨tensor, made⟩ := exists_of_mapM_ok each member
        simp [repeatTensor, expandReshape, empty] at made
    rw [repeat_eq aligned times shaped] at run
    cases run
    exact ⟨shaped, rfl⟩
  · rintro ⟨shaped, rfl⟩
    exact repeat_eq aligned times shaped

theorem reorder_pickRows {n : Nat} {self : DataProto τ ω μ} (aligned : self.Aligned n)
    (tensors : self.batch.isSome = true)
    {idx : List Nat} (inside : ∀ i ∈ idx, i < n) : self.reorder idx = .ok (self.pickRows idx) := by
  obtain ⟨batch, present⟩ := Option.isSome_iff_exists.mp tensors
  have below : idx.all (· < batch.batchSize) = true := by
    rw [aligned.batch batch present]
    simpa using inside
  have columns : self.nonTensorBatch.mapKVM (fun _ val => do
      let rows ← takeRows val.rows idx
      return (⟨val.shape, rows⟩ : Column ω)) =
        .ok (self.nonTensorBatch.mapKV (fun _ val => val.pickRows idx)) := by
    apply Dict.mapKVM_ok
    intro e member
    have fits : idx.all (· < e.2.rows.length) = true := by
      rw [aligned.nonTensorBatch e member]
      simpa using inside
    rw [takeRows, if_pos fits]
    rfl
  simp only [reorder, present, below, if_true, columns, ok_bind, pickRows, Option.map_some]
  rfl

theorem reorder_eq {n : Nat} {self : DataProto τ ω μ} (aligned : self.Aligned n)
    (tensors : self.batch.isSome = true)
    {p : List Nat} (perm : p.Perm (List.range n)) : self.reorder p = .ok (self.pickRows p) :=
  reorder_pickRows aligned tensors (perm_inside perm)

end DataProto

end Verl.Protocol
