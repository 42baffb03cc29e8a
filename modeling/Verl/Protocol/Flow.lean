import Verl.Protocol.Invariant

/-! What a batch can become on its way through the workers: pieces of `chunk`, concatenations and
repetitions, in any order. All of it reads rows of the batch at the start. -/
namespace Verl.Protocol.DataProto

variable {τ ω μ : Type} {n : Nat} {source d : DataProto τ ω μ}

inductive Flow (source : DataProto τ ω μ) : DataProto τ ω μ → Prop
  | start : Flow source source
  | chunk {d piece : DataProto τ ω μ} {pieces : List (DataProto τ ω μ)} (chunks : Nat)
    (before : Flow source d)
      (run : d.chunk chunks = .ok pieces) (member : piece ∈ pieces) : Flow source piece
  | concat {d : DataProto τ ω μ} {data : List (DataProto τ ω μ)} (before : ∀ x ∈ data,
    Flow source x)
      (run : concat data = .ok d) : Flow source d
  | repeat {d d' : DataProto τ ω μ} (times : Nat) (interleave : Bool) (before : Flow source d)
      (run : d.repeat times interleave = .ok d') : Flow source d'

section Empty

theorem pick_of_empty {α : Type} {xs : List α} (empty : xs.length = 0) (idx : List Nat) :
    pick xs idx = [] := by
  rw [List.length_eq_zero_iff.mp empty]
  simp [pick]

theorem TensorDict.pickRows_of_empty {td : TensorDict τ} (empty : td.batchSize = 0)
    (idx : List Nat) : td.pickRows idx = td.pickRows [] := by
  ext1
  · simp [TensorDict.pickRows, empty]
  · simp only [TensorDict.pickRows]
    apply Dict.mapKV_congr
    intro e member
    simp [Column.pickRows, pick_of_empty ((td.aligned e member).trans empty)]

theorem chunkColumn_of_empty {chunks i : Nat} {val piece : Column ω} (empty : val.rows.length = 0)
    (cut : chunkColumn chunks i val = .ok piece) : piece = val.pickRows [] := by
  obtain ⟨-, -, got⟩ := bind_ok_iff.mp cut
  have member := List.mem_of_getElem? (pyGet_ok_iff.mp got)
  obtain ⟨j, -, rfl⟩ := List.mem_map.mp member
  simp [Column.pickRows, Verl.slice, List.length_eq_zero_iff.mp empty]

theorem chunkBatch_of_empty {batch piece : Option (TensorDict τ)} {chunks i : Nat}
    {pieces : List (Option (TensorDict τ))}
    (empty : ∀ td, batch = some td → td.batchSize = 0) (cut : chunkBatch batch chunks = .ok pieces)
    (got : pyGet pieces i = .ok piece) : piece = batch.map (fun td => td.pickRows []) := by
  have member := List.mem_of_getElem? (pyGet_ok_iff.mp got)
  cases batch with
  | none =>
    cases cut
    exact List.eq_of_mem_replicate member
  | some td =>
    obtain ⟨parts, split, cut⟩ := bind_ok_iff.mp cut
    cases cut
    obtain ⟨part, inside, rfl⟩ := List.mem_map.mp member
    unfold TensorDict.chunk at split
    split at split
    · cases split
    · cases split
      obtain ⟨j, -, rfl⟩ := List.mem_map.mp inside
      exact congrArg some (TensorDict.pickRows_of_empty (empty td rfl) _)

theorem chunk_of_empty {piece : DataProto τ ω μ} {pieces : List (DataProto τ ω μ)} {chunks : Nat}
    (aligned : d.Aligned 0)
    (run : d.chunk chunks = .ok pieces) (member : piece ∈ pieces) : piece = d.pickRows [] := by
  obtain ⟨remainder, -, run⟩ := bind_ok_iff.mp run
  obtain ⟨-, -, run⟩ := bind_ok_iff.mp run
  obtain ⟨batches, cut, run⟩ := bind_ok_iff.mp run
  obtain ⟨i, inside, made⟩ := exists_source run member
  obtain ⟨columns, taken, made⟩ := bind_ok_iff.mp made
  obtain ⟨batch, got, made⟩ := bind_ok_iff.mp made
  have none : d.nonTensorBatch.mapKVM (fun _ val => chunkColumn chunks i val) =
      .ok (d.nonTensorBatch.mapKV (fun _ val => val.pickRows [])) := by
    apply Dict.mapKVM_ok
    intro e inside
    obtain ⟨values, each, -⟩ := bind_ok_iff.mp taken
    obtain ⟨value, cut⟩ := exists_of_mapM_ok each inside
    rw [← chunkColumn_of_empty (aligned.nonTensorBatch e inside) cut]
    exact cut
  rw [none] at taken
  cases taken
  rw [(of_new made).1, chunkBatch_of_empty aligned.batch cut got]
  rfl

end Empty

theorem chunk_pickRows (aligned : d.Aligned n) (len : d.len = n) {piece : DataProto τ ω μ}
    {pieces : List (DataProto τ ω μ)}
    {chunks : Nat} (run : d.chunk chunks = .ok pieces) (member : piece ∈ pieces) :
    ∃ idx, (∀ i ∈ idx, i < n) ∧ piece = d.pickRows idx := by
  by_cases empty : n = 0
  · subst empty
    exact ⟨[], by simp, chunk_of_empty aligned run member⟩
  have even : 0 < chunks ∧ n % chunks = 0 := by
    obtain ⟨remainder, divided, run⟩ := bind_ok_iff.mp run
    obtain ⟨_, checked, -⟩ := bind_ok_iff.mp run
    rw [len] at divided
    unfold pyMod at divided
    split at divided
    · cases divided
    · cases divided
      exact ⟨by omega, by simpa using pyAssert_ok_iff.mp checked⟩
  have size : n = chunks * (n / chunks) :=
    (Nat.mul_div_cancel' (Nat.dvd_of_mod_eq_zero even.2)).symm
  have positive : 0 < n / chunks := Nat.pos_of_ne_zero (by
    intro zero
    rw [zero] at size
    omega)
  rw [chunk_eq aligned len even.1 positive size] at run
  cases run
  obtain ⟨i, inside, rfl⟩ := List.mem_map.mp member
  exact ⟨blockIdx (n / chunks) i, fun j hj =>
    size ▸ blockIdx_inside (List.mem_range.mp inside) j hj, rfl⟩

theorem inside_pick {p q : List Nat} (inside : ∀ i ∈ p, i < n) : ∀ i ∈ pick p q, i < n :=
  fun i member => inside i (mem_of_mem_pick member)

theorem exists_rows {data : List (DataProto τ ω μ)}
    (each : ∀ x ∈ data, ∃ idx, (∀ i ∈ idx, i < n) ∧ x = source.pickRows idx) :
    ∃ idxs : List (List Nat), (∀ idx ∈ idxs, ∀ i ∈ idx, i < n) ∧
      data = idxs.map (fun idx => source.pickRows idx) := by
  induction data with
  | nil => exact ⟨[], by simp, rfl⟩
  | cons x data ih =>
    obtain ⟨idx, inside, first⟩ := each x List.mem_cons_self
    obtain ⟨idxs, insides, rest⟩ := ih (fun y member => each y (List.mem_cons_of_mem x member))
    refine ⟨idx :: idxs, ?_, ?_⟩
    · intro other member
      rcases List.mem_cons.mp member with rfl | later
      · exact inside
      · exact insides other later
    · rw [List.map_cons, ← first, ← rest]

/-- Whatever it went through, a batch holds rows of the start, in all columns at the same
positions. -/
theorem Flow.rows {td : TensorDict τ} (present : source.batch = some td)
    (aligned : source.Aligned n) (flow : Flow source d) :
    ∃ idx, (∀ i ∈ idx, i < n) ∧ d = source.pickRows idx := by
  induction flow with
  | start => exact ⟨List.range n, by simp, (pickRows_range aligned).symm⟩
  | chunk chunks _ run member ih =>
    obtain ⟨p, inside, rfl⟩ := ih
    obtain ⟨q, -, rfl⟩ :=
      chunk_pickRows (aligned.pickRows inside) (len_pickRows present aligned inside) run member
    exact ⟨pick p q, inside_pick inside, pickRows_pickRows aligned inside q⟩
  | @concat d data _ run ih =>
    obtain ⟨idxs, insides, rfl⟩ := exists_rows ih
    cases idxs with
    | nil => cases run
    | cons idx idxs =>
      rw [List.map_cons,
        concat_pickRows aligned insides (List.forall₂_same.mpr (fun x _ => ⟨rfl, rfl⟩))] at run
      cases run
      refine ⟨(idx :: idxs).flatten, ?_, rfl⟩
      intro i member
      obtain ⟨other, there, hi⟩ := List.mem_flatten.mp member
      exact insides other there i hi
  | «repeat» times interleave _ run ih =>
    obtain ⟨p, inside, rfl⟩ := ih
    obtain ⟨-, rfl⟩ := (repeat_ok_iff (aligned.pickRows inside)).mp run
    exact ⟨_, inside_pick inside, pickRows_pickRows aligned inside _⟩

end Verl.Protocol.DataProto
