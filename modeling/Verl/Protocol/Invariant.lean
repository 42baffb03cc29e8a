import Verl.Base.Grouping
import Verl.Protocol.Operations

/-! What the operations of `DataProto` do to the number of rows: the parts of their results
have one number of rows again, with `concat` and the gathers under a condition. -/
namespace Verl.Protocol

variable {β τ ω μ : Type}

def HasRows (n : Nat) (columns : Dict (Column ω)) : Prop :=
  ∀ e ∈ columns.entries, e.2.rows.length = n

section Parts

theorem mem_mapKVM {γ : Type} {f : String → β → Py γ} {d : Dict β} {out : Dict γ}
    (run : d.mapKVM f = .ok out) {e : String × γ} (member : e ∈ out.entries) :
    ∃ value, (e.1, value) ∈ d.entries ∧ f e.1 value = .ok e.2 := by
  simp only [Dict.mapKVM, bind_ok_iff, pure_eq_ok, Except.ok.injEq] at run
  obtain ⟨values, run, rfl⟩ := run
  have related := mapM_ok_iff.mp run
  clear run
  unfold Dict.keys at member
  dsimp only at member
  generalize d.entries = entries at related member
  induction related with
  | nil => cases member
  | cons head _ ih =>
    rw [List.map_cons, List.zip_cons_cons] at member
    cases member with
    | head => exact ⟨_, List.mem_cons_self, head⟩
    | tail _ inside =>
      obtain ⟨value, old, made⟩ := ih inside
      exact ⟨value, List.mem_cons_of_mem _ old, made⟩

theorem TensorDict.batchSize_new {tensors : Dict (Column τ)} {n : Nat} {td : TensorDict τ}
    (made : TensorDict.new tensors n = .ok td) : td.batchSize = n := by
  unfold TensorDict.new at made
  split at made
  case isTrue => cases made; rfl
  case isFalse => cases made

theorem TensorDict.batchSize_setItem {td td' : TensorDict τ} {key : String} {column : Column τ}
    (set : td.setItem key column = .ok td') : td'.batchSize = td.batchSize := by
  unfold TensorDict.setItem at set
  split at set
  case isTrue => cases set; rfl
  case isFalse => cases set

theorem popKeys_subset {d left out : Dict β} {keys : List String}
    (popped : popKeys d keys = .ok (left, out)) :
    (∀ e ∈ left.entries, e ∈ d.entries) ∧ ∀ e ∈ out.entries, e ∈ d.entries := by
  refine foldlM_invariant (fun (parts : Dict β × Dict β) =>
    (∀ e ∈ parts.1.entries, e ∈ d.entries) ∧ ∀ e ∈ parts.2.entries, e ∈ d.entries) ?_ ?_ popped
  · rintro ⟨left, out⟩ key _ - ⟨leftIn, outIn⟩ step
    simp only [Dict.pop, bind_ok_iff, pure_eq_ok, Except.ok.injEq] at step
    obtain ⟨-, -, _, ⟨value, found, rfl⟩, rfl⟩ := step
    constructor
    · intro e member
      exact leftIn e (Dict.mem_erase.mp member).1
    · intro e member
      rcases Dict.mem_set member with old | rfl
      · exact outIn e old
      · exact leftIn _ (Dict.mem_of_getItem found)
  · exact ⟨fun _ member => member, fun _ member => absurd member List.not_mem_nil⟩

theorem HasRows.subset {n : Nat} {a b : Dict (Column ω)} (rows : HasRows n a)
    (inside : ∀ e ∈ b.entries, e ∈ a.entries) :
    HasRows n b := fun e member => rows e (inside e member)

theorem HasRows.filterKeys {n : Nat} {columns : Dict (Column ω)} (rows : HasRows n columns)
    (keys : List String) :
    HasRows n (filterKeys columns keys) := by
  apply rows.subset
  intro e member
  exact (List.mem_filter.mp member).1

theorem HasRows.set {n : Nat} {columns : Dict (Column ω)} (rows : HasRows n columns) {key : String}
    {column : Column ω} (length : column.rows.length = n) : HasRows n (columns.set key column) := by
  intro e member
  rcases Dict.mem_set member with old | rfl
  · exact rows e old
  · exact length

theorem HasRows.unionNumpyDict {n : Nat} {equals : Column ω → Column ω → Bool}
    {a b c : Dict (Column ω)}
    (rowsA : HasRows n a) (rowsB : HasRows n b) (joined : unionNumpyDict equals a b = .ok c) :
    HasRows n c := by
  apply foldlM_invariant (HasRows n) _ rowsA joined
  rintro d ⟨key, val⟩ d' member rows step
  have set : d' = d.set key val := by
    dsimp only at step
    cases found : d.get? key with
    | none =>
      rw [found] at step
      exact (Except.ok.inj step).symm
    | some own =>
      rw [found] at step
      obtain ⟨-, -, done⟩ := bind_ok_iff.mp step
      exact (Except.ok.inj done).symm
  rw [set]
  exact rows.set (rowsB _ member)

theorem batchSize_unionTensorDict [DecidableEq τ] {a b c : TensorDict τ}
    (joined : unionTensorDict a b = .ok c) :
    c.batchSize = a.batchSize ∧ a.batchSize = b.batchSize := by
  simp only [unionTensorDict, bind_ok_iff, pyAssert_ok_iff, beq_iff_eq] at joined
  obtain ⟨-, same, joined⟩ := joined
  constructor
  · apply foldlM_invariant (fun td : TensorDict τ => td.batchSize = a.batchSize) _ rfl joined
    intro td e td' _ size step
    split at step
    case h_1 => exact (TensorDict.batchSize_setItem step).trans size
    case h_2 =>
      simp only [bind_ok_iff, pure_eq_ok, Except.ok.injEq] at step
      obtain ⟨-, -, rfl⟩ := step
      exact size
  · exact same

theorem TensorDict.batchSize_select {td td' : TensorDict τ} {keys : List String}
    (selected : td.select keys = .ok td') :
    td'.batchSize = td.batchSize := by
  obtain ⟨_, -, made⟩ := bind_ok_iff.mp selected
  exact TensorDict.batchSize_new made

theorem TensorDict.batchSize_renameKey {td td' : TensorDict τ} {oldKeys newKeys : List String}
    (renamed : td.renameKey oldKeys newKeys = .ok td') : td'.batchSize = td.batchSize := by
  unfold TensorDict.renameKey at renamed
  split at renamed
  · cases renamed
    rfl
  · split at renamed
    · obtain ⟨_, -, made⟩ := bind_ok_iff.mp renamed
      exact TensorDict.batchSize_new made
    · cases renamed

end Parts

namespace DataProto

theorem of_new {batch : Option (TensorDict τ)} {columns : Dict (Column ω)} {metaInfo : Dict μ}
    {d : DataProto τ ω μ} (made : new batch columns metaInfo = .ok d) :
    d = ⟨batch, columns, metaInfo⟩ ∧ ∀ td, batch = some td → HasRows td.batchSize columns := by
  simp only [new, bind_ok_iff, pure_eq_ok, Except.ok.injEq] at made
  obtain ⟨done, checked, rfl⟩ := made
  refine ⟨rfl, ?_⟩
  rintro td rfl e member
  have same := of_forM_ok checked e member
  simpa [pyAssert_ok_iff] using same

theorem aligned_of_new {td : TensorDict τ} {columns : Dict (Column ω)} {metaInfo : Dict μ}
    {d : DataProto τ ω μ}
    (made : new (some td) columns metaInfo = .ok d) : d.Aligned td.batchSize := by
  obtain ⟨rfl, rows⟩ := of_new made
  constructor
  · rintro _ ⟨⟩
    rfl
  · exact rows td rfl

theorem aligned_of_fromDict {tensors : Dict (Column τ)} {columns : Dict (Column ω)}
    {metaInfo : Dict μ} {d : DataProto τ ω μ} (made : fromDict tensors columns metaInfo = .ok d) :
    ∃ n, d.Aligned n := by
  unfold fromDict at made
  split at made
  case h_1 => cases made
  case h_2 =>
    obtain ⟨done, -, made⟩ := bind_ok_iff.mp made
    obtain ⟨td, -, made⟩ := bind_ok_iff.mp made
    exact ⟨_, aligned_of_new made⟩

theorem aligned_of_getSlice {self d : DataProto τ ω μ} {start stop step : Option Int}
    (sliced : self.getSlice start stop step = .ok d) : ∃ n, d.Aligned n := by
  unfold getSlice at sliced
  split at sliced
  case h_1 => cases sliced
  case h_2 =>
    obtain ⟨item, -, sliced⟩ := bind_ok_iff.mp sliced
    obtain ⟨columns, -, made⟩ := bind_ok_iff.mp sliced
    exact ⟨_, aligned_of_new made⟩

theorem aligned_of_reorder {self d : DataProto τ ω μ} {indices : List Nat}
    (reordered : self.reorder indices = .ok d) :
    d.Aligned indices.length := by
  unfold reorder at reordered
  split at reordered
  case h_1 => cases reordered
  case h_2 batch present =>
    split at reordered
    case isFalse => cases reordered
    case isTrue inside =>
      obtain ⟨columns, taken, made⟩ := bind_ok_iff.mp reordered
      cases made
      constructor
      · rintro _ ⟨⟩
        exact TensorDict.batchSize_pickRows (by simpa using inside)
      · intro e member
        obtain ⟨value, -, made⟩ := mem_mapKVM taken member
        obtain ⟨rows, read, made⟩ := bind_ok_iff.mp made
        rw [← Except.ok.inj made]
        unfold takeRows at read
        split at read
        case isFalse => cases read
        case isTrue below =>
          cases read
          exact length_pick (by simpa using below)

theorem aligned_of_repeat {n : Nat} {self d : DataProto τ ω μ} (aligned : self.Aligned n)
    {times : Nat} {interleave : Bool}
    (repeated : self.repeat times interleave = .ok d) : ∃ n, d.Aligned n := by
  obtain ⟨-, rfl⟩ := (repeat_ok_iff aligned).mp repeated
  exact ⟨_, aligned.pickRows (repeatIdx_inside n times interleave)⟩

/-- The length of piece `i` of `np.array_split` depends on the length of the array alone. -/
def splitLength (n sections i : Nat) : Nat :=
  min ((i + 1) * (n / sections) +
    min (i + 1) (n % sections) - (i * (n / sections) + min i (n % sections)))
    (n - (i * (n / sections) + min i (n % sections)))

theorem length_chunkColumn {chunks i : Nat} {val piece : Column ω}
    (cut : chunkColumn chunks i val = .ok piece) :
    piece.rows.length = splitLength val.rows.length chunks i := by
  simp only [chunkColumn, bind_ok_iff, pyGet_ok_iff] at cut
  obtain ⟨done, -, cut⟩ := cut
  unfold Column.arraySplit at cut
  dsimp only at cut
  rw [List.getElem?_map] at cut
  obtain ⟨j, here, rfl⟩ := Option.map_eq_some_iff.mp cut
  have same : j = i := by
    obtain ⟨_, there⟩ := List.getElem?_eq_some_iff.mp here
    simpa using there.symm
  subst same
  simp [slice, splitLength]

theorem aligned_of_chunk {n : Nat} {self d : DataProto τ ω μ} (aligned : self.Aligned n)
    {chunks : Nat} {pieces : List (DataProto τ ω μ)} (chunked : self.chunk chunks = .ok pieces)
    (member : d ∈ pieces) :
    ∃ n, d.Aligned n := by
  simp only [chunk, bind_ok_iff] at chunked
  obtain ⟨remainder, -, done, -, batchLst, -, cut⟩ := chunked
  obtain ⟨i, -, piece⟩ := exists_source cut member
  simp only [chunkPiece, bind_ok_iff] at piece
  obtain ⟨columns, split, batch, -, made⟩ := piece
  cases batch with
  | some td => exact ⟨_, aligned_of_new made⟩
  | none =>
    obtain ⟨rfl, -⟩ := of_new made
    refine ⟨splitLength n chunks i, by simp, ?_⟩
    intro e inside
    obtain ⟨value, old, cutColumn⟩ := mem_mapKVM split inside
    rw [length_chunkColumn cutColumn, aligned.nonTensorBatch _ old]

end DataProto

section Gathered

theorem Column.length_concat {columns : List (Column ω)} {out : Column ω}
    (joined : Column.concat columns = .ok out) :
    out.rows.length = (columns.map (fun column => column.rows.length)).sum := by
  unfold Column.concat at joined
  split at joined
  case h_1 => cases joined
  case h_2 =>
    split at joined
    case isFalse => cases joined
    case isTrue =>
      cases joined
      exact List.length_flatMap

theorem length_concat_getItem {α : Type} {group : List α} {dict : α → Dict (Column ω)}
    {rows : α → Nat} (aligned : ∀ x ∈ group, HasRows (rows x) (dict x)) {key : String}
    {columns : List (Column ω)} {out : Column ω}
    (found : group.mapM (fun x => (dict x).getItem key) = .ok columns)
    (joined : Column.concat columns = .ok out) :
    out.rows.length = (group.map rows).sum := by
  rw [Column.length_concat joined]
  congr 1
  have related := mapM_ok_iff.mp found
  clear found joined
  induction related with
  | nil => rfl
  | cons read _ ih =>
    rw [List.forall_mem_cons] at aligned
    rw [List.map_cons, List.map_cons, ih aligned.2, aligned.1 _ (Dict.mem_of_getItem read)]

/-- Every dict has all keys of the first one or none of them. -/
def WholeKeys (dicts : List (Dict (Column ω))) : Prop :=
  ∀ first ∈ dicts.head?, ∀ d ∈ dicts, (∀ key ∈ first.keys, d.contains key = true) ∨
    ∀ key ∈ first.keys, d.contains key = false

theorem length_concat_get? {dicts : List (Dict (Column ω))} {rows : Dict (Column ω) → Nat}
    (aligned : ∀ d ∈ dicts, HasRows (rows d) d) {key : String} {out : Column ω}
    (joined : Column.concat (dicts.filterMap (fun d => d.get? key)) = .ok out) :
    out.rows.length = (dicts.map (fun d => if d.contains key then rows d else 0)).sum := by
  rw [Column.length_concat joined]
  clear joined
  induction dicts with
  | nil => rfl
  | cons d dicts ih =>
    rw [List.forall_mem_cons] at aligned
    rw [List.map_cons, List.sum_cons, ← ih aligned.2]
    cases found : d.get? key with
    | none => simp [found, Dict.contains]
    | some column => simp [found, Dict.contains, aligned.1 _ (Dict.mem_of_get? found)]

/-- Without a batch nothing checks the lengths: they agree when no dict misses only some of the
keys. -/
theorem hasRows_of_concatColumns {dicts : List (Dict (Column ω))} {rows : Dict (Column ω) → Nat}
    (aligned : ∀ d ∈ dicts, HasRows (rows d) d) (whole : WholeKeys dicts) {out : Dict (Column ω)}
    (joined : DataProto.concatColumns dicts = .ok out) : ∃ n, HasRows n out := by
  cases dicts with
  | nil =>
    cases joined
    exact ⟨0, fun e member => absurd member List.not_mem_nil⟩
  | cons first rest =>
    obtain ⟨lists, gathered, joined⟩ := bind_ok_iff.mp joined
    have known := keys_subset_of_listOfDict gathered
    rw [listOfDictToDictOfList_ok known] at gathered
    obtain rfl := Except.ok.inj gathered
    rw [Dict.mapKVM_mapKV] at joined
    have length : ∀ e ∈ out.entries, e.1 ∈ first.keys ∧ e.2.rows.length =
        ((first :: rest).map (fun d => if d.contains e.1 then rows d else 0)).sum := by
      intro e member
      obtain ⟨value, old, cat⟩ := mem_mapKVM joined member
      exact ⟨List.mem_map.mpr ⟨_, old, rfl⟩, length_concat_get? aligned cat⟩
    have same : ∀ e ∈ out.entries, ∀ e' ∈ out.entries, e.2.rows.length = e'.2.rows.length := by
      intro e member e' member'
      rw [(length e member).2, (length e' member').2]
      congr 1
      apply List.map_congr_left
      intro d inside
      rcases whole first rfl d inside with all | none
      · rw [all _ (length e member).1, all _ (length e' member').1]
      · rw [none _ (length e member).1, none _ (length e' member').1]
    cases entries : out.entries with
    | nil => exact ⟨0, fun e member => by simp [entries] at member⟩
    | cons e es =>
      refine ⟨e.2.rows.length, fun e' member => ?_⟩
      exact same e' member e (by simp [entries])

-- one dict misses a key of the first: two rows beside one
example : DataProto.concatColumns (ω := Nat) [⟨[("a", ⟨[], [1]⟩), ("b", ⟨[], [2]⟩)], by decide⟩,
    ⟨[("a", ⟨[], [3]⟩)], by decide⟩] =
    .ok ⟨[("a", ⟨[], [1, 3]⟩), ("b", ⟨[], [2]⟩)], by decide⟩ := rfl

theorem batchSize_allgather {own : TensorDict τ} {group : List (Option (TensorDict τ))}
    {out : Option (TensorDict τ)} (gathered : allgatherDictTensors (some own) group = .ok out) :
    ∃ td, out = some td ∧ td.batchSize = own.batchSize * group.length := by
  simp only [allgatherDictTensors, bind_ok_iff, pure_eq_ok, Except.ok.injEq] at gathered
  obtain ⟨members, present, _, -, td, made, rfl⟩ := gathered
  exact ⟨td, rfl, by rw [TensorDict.batchSize_new made, length_mapM_ok present]⟩

end Gathered

namespace DataProto

/-- A column of the batch, or the same number of rows on every rank. -/
def EvenRows (own : DataProto τ ω μ) (group : List (DataProto τ ω μ)) : Prop :=
  (∃ td, own.batch = some td ∧ td.tensors.entries ≠ []) ∨ ∀ d ∈ group, d.len = own.len

theorem aligned_of_concat {data : List (DataProto τ ω μ)} {out : DataProto τ ω μ}
    (aligned : ∀ d ∈ data, ∃ n, d.Aligned n)
    (whole : ∀ first ∈ data.head?, first.batch = none → WholeKeys (data.map nonTensorBatch))
    (joined : concat data = .ok out) : ∃ n, out.Aligned n := by
  cases data with
  | nil => cases joined
  | cons first rest =>
    obtain ⟨batch, catted, joined⟩ := bind_ok_iff.mp joined
    obtain ⟨columns, gathered, made⟩ := bind_ok_iff.mp joined
    cases batch with
    | some td => exact ⟨_, aligned_of_new made⟩
    | none =>
      have absent : first.batch = none := by
        cases present : first.batch with
        | none => rfl
        | some td =>
          rw [List.map_cons, present] at catted
          simp [catBatch, bind_ok_iff] at catted
      have rows : ∀ d ∈ (first :: rest).map nonTensorBatch, ∃ n, HasRows n d := by
        intro d member
        obtain ⟨x, inside, rfl⟩ := List.mem_map.mp member
        obtain ⟨n, alignedX⟩ := aligned x inside
        exact ⟨n, alignedX.nonTensorBatch⟩
      choose! rows hasRows using rows
      obtain ⟨n, same⟩ := hasRows_of_concatColumns hasRows (whole first rfl absent) gathered
      obtain ⟨rfl, -⟩ := of_new made
      exact ⟨n, by simp, same⟩

theorem len_of_batch {n : Nat} {d : DataProto τ ω μ} (aligned : d.Aligned n) {td : TensorDict τ}
    (present : d.batch = some td) : d.len = n := by
  unfold len
  rw [present]
  exact aligned.batch td present

theorem batchSize_of_catKey {own out : TensorDict τ} {members : List (TensorDict τ)}
    {tensors : Dict (Column τ)} {size : Nat} (nonempty : own.tensors.entries ≠ [])
    (catted : own.tensors.mapKVM (fun key _ => TensorDict.catKey members key) = .ok tensors)
    (made : TensorDict.new tensors size = .ok out) :
    size = (members.map TensorDict.batchSize).sum := by
  unfold TensorDict.new at made
  split at made
  case isFalse => cases made
  case isTrue aligned =>
    have entry : ∃ e, e ∈ tensors.entries := by
      simp only [Dict.mapKVM, bind_ok_iff, pure_eq_ok, Except.ok.injEq] at catted
      obtain ⟨values, run, rfl⟩ := catted
      have count := length_mapM_ok run
      apply List.exists_mem_of_length_pos
      have positive := List.length_pos_iff.mpr nonempty
      simp [Dict.keys, count, positive]
    obtain ⟨e, member⟩ := entry
    obtain ⟨_, -, cat⟩ := mem_mapKVM catted member
    obtain ⟨columns, found, joined⟩ := bind_ok_iff.mp cat
    rw [← aligned e member]
    exact length_concat_getItem (fun td _ => td.aligned) found joined

theorem requireBatch_ok_iff {batch : Option (TensorDict τ)} {td : TensorDict τ} :
    requireBatch batch = .ok td ↔ batch = some td := by
  cases batch <;> simp [requireBatch]

theorem aligned_of_allGather {own out : DataProto τ ω μ} {group : List (DataProto τ ω μ)}
    (aligned : ∀ d ∈ group, ∃ n, d.Aligned n) (even : own.EvenRows group)
    (gathered : allGatherDataProto own group = .ok out) : ∃ n, out.Aligned n := by
  simp only [allGatherDataProto, bind_ok_iff, pure_eq_ok, Except.ok.injEq] at gathered
  obtain ⟨batch, gatheredBatch, columns, gatheredColumns, rfl⟩ := gathered
  cases present : own.batch with
  | none =>
    rw [present] at gatheredBatch
    cases gatheredBatch
  | some td =>
    rw [present] at gatheredBatch
    simp only [allgatherDictTensors, bind_ok_iff, pure_eq_ok, Except.ok.injEq] at gatheredBatch
    obtain ⟨members, required, tensors, catted, outTd, made, rfl⟩ := gatheredBatch
    rw [List.mapM_map] at required
    have rows : ∀ d ∈ group, HasRows d.len d.nonTensorBatch := by
      intro d member
      obtain ⟨n, alignedD⟩ := aligned d member
      obtain ⟨tdD, presentD⟩ := exists_of_mapM_ok required member
      rw [len_of_batch alignedD (requireBatch_ok_iff.mp presentD)]
      exact alignedD.nonTensorBatch
    have sizes : members.map TensorDict.batchSize = group.map len := by
      have related := mapM_ok_iff.mp required
      clear * - related
      induction related with
      | nil => rfl
      | cons read _ ih =>
        rw [List.map_cons, List.map_cons, ih]
        simp [len, requireBatch_ok_iff.mp read]
    have total : td.batchSize * members.length = (group.map len).sum := by
      rcases even with ⟨_, same, nonempty⟩ | equal
      · obtain rfl := Option.some.inj (present.symm.trans same)
        rw [batchSize_of_catKey nonempty catted made, sizes]
      · rw [List.map_congr_left equal, length_mapM_ok required]
        simp [len, present, Nat.mul_comm]
    refine ⟨(group.map len).sum, ?_, ?_⟩
    · rintro _ ⟨⟩
      rw [TensorDict.batchSize_new made, total]
    · intro e member
      obtain ⟨_, -, cat⟩ := mem_mapKVM gatheredColumns member
      obtain ⟨found, read, joined⟩ := bind_ok_iff.mp cat
      exact length_concat_getItem rows read joined

end DataProto

end Verl.Protocol
