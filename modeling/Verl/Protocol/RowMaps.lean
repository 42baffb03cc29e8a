import Verl.Protocol.NdProto

/-! Which row of the data every row of a repeated or reordered batch is. -/
namespace Verl.Protocol

namespace DataProto

variable {τ ω μ : Type} {n m : Nat}

def row (self : DataProto τ ω μ) (i : Nat) :
    Option (Dict (List Nat × Option τ)) × Dict (List Nat × Option ω) :=
  (self.batch.map (fun batch =>
    batch.tensors.mapKV (fun _ column => (column.shape, column.rows[i]?))),
      self.nonTensorBatch.mapKV (fun _ column => (column.shape, column.rows[i]?)))

theorem row_pickRows {self : DataProto τ ω μ} (aligned : self.Aligned n) {idx : List Nat}
    (inside : ∀ i ∈ idx, i < n) {k i : Nat}
    (read : idx[k]? = some i) : (self.pickRows idx).row k = self.row i := by
  have each : ∀ {α : Type} (column : Column α), column.rows.length = n →
      (column.pickRows idx).rows[k]? = column.rows[i]? := by
    intro α column length
    rw [Column.pickRows, getElem?_pick (length ▸ inside), read, Option.bind_some]
  unfold row pickRows
  congr 1
  · cases present : self.batch with
    | none => rfl
    | some td =>
      simp only [Option.map_some, Option.some.injEq, TensorDict.pickRows, Dict.mapKV_mapKV]
      apply Dict.mapKV_congr
      intro e member
      exact congrArg (Prod.mk e.2.shape)
        (each e.2 ((td.aligned e member).trans (aligned.batch td present)))
  · rw [Dict.mapKV_mapKV]
    apply Dict.mapKV_congr
    intro e member
    exact congrArg (Prod.mk e.2.shape) (each e.2 (aligned.nonTensorBatch e member))

theorem rows_pickRows {self : DataProto τ ω μ} (aligned : self.Aligned n) {idx : List Nat}
    (inside : ∀ i ∈ idx, i < n) :
    (List.range idx.length).map (self.pickRows idx).row = idx.map self.row := by
  apply List.ext_getElem
  · simp
  · intro k hk _
    have below : k < idx.length := by simpa using hk
    simpa using row_pickRows aligned inside (List.getElem?_eq_getElem below)

theorem repeatIdx_interleave {i j : Nat} (hi : i < n) (hj : j < m) :
    (repeatIdx n m true)[i * m + j]? = some i := by
  rw [repeatIdx, if_pos rfl, getElem?_flatMap (fun _ _ => List.length_replicate) hj,
    List.getElem?_range hi]
  simp [hj]

theorem repeatIdx_stack {i j : Nat} (hi : i < n) (hj : j < m) :
    (repeatIdx n m false)[j * n + i]? = some i := by
  have copies : (List.replicate m (List.range n)).flatten =
      (List.range m).flatMap (fun _ => List.range n) := by
    rw [List.flatMap_def, List.map_const', List.length_range]
  rw [repeatIdx, if_neg Bool.false_ne_true, copies,
    getElem?_flatMap (fun _ _ => List.length_range) hi, List.getElem?_range hj]
  simp [hi]

theorem repeatIdx_perm (n m : Nat) (interleave : Bool) :
    (repeatIdx n m interleave).Perm (List.replicate m (List.range n)).flatten := by
  cases interleave with
  | false => exact List.Perm.refl _
  | true =>
    rw [repeatIdx, if_pos rfl]
    induction m with
    | zero => simp
    | succ m ih =>
      have apart := List.flatMap_append_perm (List.range n) (fun i => [i]) (List.replicate m)
      rw [List.flatMap_singleton'] at apart
      rw [List.replicate_succ, List.flatten_cons]
      exact apart.symm.trans (ih.append_left _)

end DataProto

namespace NdProto

variable {τ ω μ : Type} {n m : Nat} {self out : NdProto τ ω μ} {interleave : Bool}

def row (self : NdProto τ ω μ) (i : Nat) :
    Option (Dict (List Nat × Option (List τ))) × Dict (List Nat × Option (List ω)) :=
  self.toProto.row i

/-- No tensor has a trailing shape without elements. -/
def Expandable (self : NdProto τ ω μ) : Prop :=
  ∀ td, self.batch = some td → ∀ e ∈ td.tensors.entries, 0 ∉ e.2.shape.tail

theorem expandable_toProto : self.toProto.Expandable ↔ self.Expandable := by
  constructor
  · intro expandable td present e member
    exact expandable td.toDict (by rw [toProto, present]; rfl) (e.1,
      Column.ofArray e.2) (List.mem_map.mpr ⟨e, member, rfl⟩)
  · intro expandable td present e member
    obtain ⟨source, own, rfl⟩ := Option.map_eq_some_iff.mp present
    obtain ⟨entry, inside, rfl⟩ := List.mem_map.mp member
    exact expandable source own entry inside

theorem repeat_ok (aligned : self.Aligned n) (m : Nat) (interleave : Bool)
    (shaped : interleave = true ∨ self.Expandable) : ∃ out, self.repeat m interleave = .ok out ∧
    out.Aligned (n * m) ∧
      out.toProto = self.toProto.pickRows (DataProto.repeatIdx n m interleave) := by
  obtain ⟨simulated, own⟩ := repeat_refines aligned m interleave
  rw [DataProto.repeat_eq aligned.toProto m (shaped.imp_right expandable_toProto.mpr)] at simulated
  cases run : self.repeat m interleave with
  | error e =>
    rw [run] at simulated
    cases simulated
  | ok out =>
    rw [run] at simulated
    exact ⟨out, rfl, own out run, Except.ok.inj simulated⟩

theorem expandable_of_repeat (aligned : self.Aligned n) (run : self.repeat m false = .ok out) :
    self.Expandable := by
  obtain ⟨simulated, -⟩ := repeat_refines aligned m false
  rw [run] at simulated
  obtain ⟨shaped, -⟩ := (DataProto.repeat_ok_iff aligned.toProto).mp simulated.symm
  exact expandable_toProto.mp (shaped.resolve_left Bool.false_ne_true)

theorem rows_repeat (aligned : self.Aligned n)
    (same : out.toProto = self.toProto.pickRows (DataProto.repeatIdx n m interleave)) :
    ((List.range (n * m)).map out.row).Perm
      (List.replicate m ((List.range n).map self.row)).flatten := by
  have rows := DataProto.rows_pickRows aligned.toProto (DataProto.repeatIdx_inside n m interleave)
  rw [DataProto.length_repeatIdx, ← same] at rows
  have all : (List.range (n * m)).map out.row = (DataProto.repeatIdx n m interleave).map self.row :=
    rows
  have copies : (List.replicate m ((List.range n).map self.row)).flatten =
      (List.replicate m (List.range n)).flatten.map self.row := by
    rw [List.map_flatten, List.map_replicate]
  rw [all, copies]
  exact (DataProto.repeatIdx_perm n m interleave).map self.row

/-- Both repetitions and `reorder` move whole rows, in every tensor and every object column alike:
for every batch with tensors, none of which has an empty trailing shape. -/
theorem repeat_reorder_rows_iff (aligned : self.Aligned n) :
    ((∀ m, 1 ≤ m → ∃ out, self.repeat m true = .ok out ∧ out.Aligned (n * m) ∧
      (∀ i < n, ∀ j < m, out.row (i * m + j) = self.row i) ∧
        ((List.range (n * m)).map out.row).Perm
          (List.replicate m ((List.range n).map self.row)).flatten) ∧
      (∀ m, 1 ≤ m → ∃ out, self.repeat m false = .ok out ∧ out.Aligned (n * m) ∧
        (∀ i < n, ∀ j < m, out.row (j * n + i) = self.row i) ∧
        ((List.range (n * m)).map out.row).Perm
          (List.replicate m ((List.range n).map self.row)).flatten) ∧
      (∀ perm, perm.Perm (List.range n) → ∃ out, self.reorder perm = .ok out ∧ out.Aligned n ∧
        (∀ i source, perm[i]? = some source → out.row i = self.row source) ∧
        ((List.range n).map out.row).Perm ((List.range n).map self.row))) ↔
    self.batch.isSome = true ∧ self.Expandable := by
  constructor
  · rintro ⟨-, stacked, reordered⟩
    constructor
    · obtain ⟨out, run, -⟩ := reordered (List.range n) (List.Perm.refl _)
      cases present : self.batch with
      | none =>
        rw [reorder, present] at run
        cases run
      | some td => rfl
    · obtain ⟨out, run, -⟩ := stacked 1 (Nat.le_refl 1)
      exact expandable_of_repeat aligned run
  · rintro ⟨tensors, expandable⟩
    refine ⟨?_, ?_, ?_⟩
    · intro m _
      obtain ⟨out, run, own, same⟩ := repeat_ok aligned m true (.inl rfl)
      refine ⟨out, run, own, ?_, rows_repeat aligned same⟩
      intro i hi j hj
      rw [row, same]
      exact DataProto.row_pickRows aligned.toProto (DataProto.repeatIdx_inside n m true)
        (DataProto.repeatIdx_interleave hi hj)
    · intro m _
      obtain ⟨out, run, own, same⟩ := repeat_ok aligned m false (.inr expandable)
      refine ⟨out, run, own, ?_, rows_repeat aligned same⟩
      intro i hi j hj
      rw [row, same]
      exact DataProto.row_pickRows aligned.toProto (DataProto.repeatIdx_inside n m false)
        (DataProto.repeatIdx_stack hi hj)
    · intro perm perms
      obtain ⟨out, run, own, same⟩ := reorder_refines aligned tensors (perm_inside perms)
      rw [perm_length perms] at own
      refine ⟨out, run, own, ?_, ?_⟩
      · intro i source read
        rw [row, same]
        exact DataProto.row_pickRows aligned.toProto (perm_inside perms) read
      · have rows := DataProto.rows_pickRows aligned.toProto (perm_inside perms)
        rw [perm_length perms, ← same] at rows
        have all : (List.range n).map out.row = perm.map self.row := rows
        rw [all]
        exact perms.map self.row

section Matrices

def matrices (batch : Option (NdDict Nat)) : NdProto Nat Nat Nat :=
  ⟨batch, ⟨[("labels", ⟨[2, 1], [8, 9], rfl⟩)], by simp⟩, .empty⟩

def obs : NdDict Nat := ⟨2, ⟨[("obs", ⟨[2, 2], [1, 2, 3, 4], rfl⟩)], by simp⟩, by simp⟩

def emptyObs : NdDict Nat := ⟨2, ⟨[("obs", ⟨[2, 0], [], rfl⟩)], by simp⟩, by simp⟩

theorem aligned_matrices {batch : Option (NdDict Nat)}
    (size : ∀ td, batch = some td → td.batchSize = 2) : (matrices batch).Aligned 2 :=
  ⟨size, by simp [matrices]⟩

theorem repeat_reorder_matrices :
    ∃ interleaved stacked reordered, (matrices (some obs)).repeat 3 true = .ok interleaved ∧
    (matrices (some obs)).repeat 3 false = .ok stacked ∧
      (matrices (some obs)).reorder [1, 0] = .ok reordered ∧
    interleaved.row 5 = (matrices (some obs)).row 1 ∧ stacked.row 5 = (matrices (some obs)).row 1 ∧
      reordered.row 0 = (matrices (some obs)).row 1 := by
  have size : ∀ td, some obs = some td → td.batchSize = 2 := by
    rintro td ⟨⟩
    rfl
  have expandable : (matrices (some obs)).Expandable := by
    rintro td ⟨⟩
    simp [obs]
  obtain ⟨each, every, all⟩ :=
    (repeat_reorder_rows_iff (aligned_matrices size)).mpr ⟨rfl, expandable⟩
  obtain ⟨interleaved, interleavedRun, -, interleavedRow, -⟩ := each 3 (by decide)
  obtain ⟨stacked, stackedRun, -, stackedRow, -⟩ := every 3 (by decide)
  obtain ⟨reordered, reorderedRun, -, reorderedRow, -⟩ := all [1, 0] (List.Perm.swap 0 1 [])
  exact ⟨interleaved, stacked, reordered, interleavedRun, stackedRun, reorderedRun,
    interleavedRow 1 (by decide) 2 (by decide), stackedRow 1 (by decide) 2 (by decide),
    reorderedRow 0 1 rfl⟩

/-- Rows without cells cannot be stacked, and rows without tensors cannot be reordered. -/
theorem repeat_reorder_fails : (¬∃ out, (matrices (some emptyObs)).repeat 2 false = .ok out) ∧
    ¬∃ out, (matrices none).reorder [1, 0] = .ok out := by
  constructor
  · rintro ⟨out, run⟩
    have size : ∀ td, some emptyObs = some td → td.batchSize = 2 := by
      rintro td ⟨⟩
      rfl
    have expandable := expandable_of_repeat (aligned_matrices size) run
    exact expandable emptyObs rfl _ List.mem_cons_self (by simp)
  · rintro ⟨out, run⟩
    cases run

end Matrices

end NdProto

end Verl.Protocol
