import Verl.Workers.RmpadLogProbs

/-! How flash attention finds the sequences of a packed row: `prepare_fa2_from_position_ids` and the
guard of `flash_attention_forward` in `verl/models/transformers/qwen2_vl.py`. A position id 0 starts
a sequence. -/
namespace Verl.Workers

section Model

variable {β : Type}

/-- `cu_seqlens` and `max_length` of `prepare_fa2_from_position_ids`. -/
def prepareFa2FromPositionIds (positionIds : List Nat) : List Nat × Option Nat :=
  let indicesQ := List.range positionIds.length
  let cuSeqlens := indicesQ.filter (fun i => positionIds[i]? == some 0) ++ [positionIds.length]
  (cuSeqlens, (List.zipWith (· - ·) cuSeqlens.tail cuSeqlens).max?)

def cut : List Nat → List β → List (List β)
  | start :: stop :: bounds, xs => slice start stop xs :: cut (stop :: bounds) xs
  | _, _ => []

def nondecreasing (positionIds : List Nat) : Bool :=
  (List.zipWith (fun next position => (next : Int) - position) positionIds.tail positionIds).all
    (0 ≤ ·)

/-- The sequences that `flash_attention_forward` attends over, in a row of `query_length` tokens. -/
def attentionSequences (positionIds : List Nat) (states : List β) : List (List β) :=
  if states.length ≠ 1 ∧ nondecreasing positionIds = false then
    cut (prepareFa2FromPositionIds positionIds).1 states
  else [states]

end Model

section Runs

variable {α β : Type}

/-- The position ids of one sequence: 0 at its start only. -/
def IsRun (positions : List Nat) : Prop := ∃ later, positions = 0 :: later ∧ ∀ p ∈ later, p ≠ 0

theorem IsRun.starts {run : List Nat} (isRun : IsRun run) :
    (List.range run.length).filter (fun i => run[i]? == some 0) = [0] := by
  obtain ⟨later, rfl, nonzero⟩ := isRun
  rw [List.length_cons, List.range_succ_eq_map, List.filter_cons_of_pos (by simp), List.filter_map]
  have none : (List.range later.length).filter ((fun i => (0 :: later)[i]? == some 0) ∘ Nat.succ) =
      [] := by
    apply List.filter_eq_nil_iff.mpr
    intro i inside
    have below := List.mem_range.mp inside
    have there := nonzero _ (List.getElem_mem below)
    simp [below, there]
  rw [none]
  rfl

theorem cuSeqlens_append {run : List Nat} (isRun : IsRun run) (rest : List Nat) :
    (prepareFa2FromPositionIds (run ++ rest)).1 =
      0 :: (prepareFa2FromPositionIds rest).1.map (run.length + ·) := by
  have inRun : (List.range run.length).filter (fun i => (run ++ rest)[i]? == some 0) = [0] := by
    rw [← isRun.starts]
    apply List.filter_congr
    intro i inside
    rw [List.getElem?_append_left (List.mem_range.mp inside)]
  have behind : ((List.range rest.length).map (run.length + ·)).filter
    (fun i => (run ++ rest)[i]? == some 0) =
      ((List.range rest.length).filter (fun i => rest[i]? == some 0)).map (run.length + ·) := by
    rw [List.filter_map]
    congr 1
    apply List.filter_congr
    intro i _
    rw [Function.comp_apply, List.getElem?_append_right (Nat.le_add_right _ _),
      Nat.add_sub_cancel_left]
  simp only [prepareFa2FromPositionIds, List.length_append, List.range_add, List.filter_append,
    inRun, behind, List.map_append, List.map_cons, List.map_nil, List.cons_append, List.nil_append]

theorem cut_shift (front : List β) (bounds : List Nat) (rest : List β) :
    cut (bounds.map (front.length + ·)) (front ++ rest) = cut bounds rest := by
  induction bounds with
  | nil => rfl
  | cons start bounds ih =>
    cases bounds with
    | nil => rfl
    | cons stop bounds =>
      have first : slice (front.length + start) (front.length + stop) (front ++ rest) =
          slice start stop rest := by
        rw [slice, slice, List.drop_append, Nat.add_sub_cancel_left,
          List.drop_of_length_le (Nat.le_add_right _ _), List.nil_append]
        congr 1
        omega
      simp only [List.map_cons, cut, first] at ih ⊢
      rw [ih]

theorem cuSeqlens_head {runs : List (List Nat)} (each : ∀ run ∈ runs, IsRun run) :
    ∃ bounds, (prepareFa2FromPositionIds runs.flatten).1 = 0 :: bounds := by
  cases runs with
  | nil => exact ⟨[], rfl⟩
  | cons run runs => exact ⟨_, cuSeqlens_append (each run List.mem_cons_self) runs.flatten⟩

theorem cuSeqlens_runs {runs : List (List Nat)} (each : ∀ run ∈ runs, IsRun run) (start : Nat) :
    (prepareFa2FromPositionIds runs.flatten).1.map (start + ·) =
      (runs.map List.length).scanl (· + ·) start := by
  induction runs generalizing start with
  | nil => rfl
  | cons run runs ih =>
    have later := ih (fun other member => each other (List.mem_cons_of_mem _ member))
      (start + run.length)
    rw [List.flatten_cons, cuSeqlens_append (each run List.mem_cons_self), List.map_cons,
      List.map_map, List.map_cons, List.scanl_cons, ← later]
    congr 1
    apply List.map_congr_left
    intro bound _
    exact (Nat.add_assoc _ _ _).symm

theorem cut_cuSeqlens {runs : List (List Nat)} {states : List (List β)}
    (each : ∀ run ∈ runs, IsRun run)
    (same : List.Forall₂ (fun run states => run.length = states.length) runs states) :
    cut (prepareFa2FromPositionIds runs.flatten).1 states.flatten = states := by
  induction same with
  | nil => rfl
  | @cons run state runs states length rest ih =>
    have later : ∀ other ∈ runs, IsRun other :=
      fun other member => each other (List.mem_cons_of_mem _ member)
    obtain ⟨bounds, starts⟩ := cuSeqlens_head later
    have tail := ih later
    rw [starts] at tail
    rw [List.flatten_cons, List.flatten_cons, cuSeqlens_append (each run List.mem_cons_self),
      starts, List.map_cons, cut, length]
    have shifted := cut_shift state (0 :: bounds) states.flatten
    rw [List.map_cons] at shifted
    rw [shifted, tail, slice]
    simp

theorem nondecreasing_of_runs {first second : List Nat} {rest : List Nat} (isFirst : IsRun first)
    (two : 2 ≤ first.length)
    (isSecond : IsRun second) : nondecreasing (first ++ (second ++ rest)) = false := by
  obtain ⟨later, rfl, nonzero⟩ := isFirst
  obtain ⟨others, rfl, -⟩ := isSecond
  obtain ⟨front, last, rfl⟩ :=
    List.eq_nil_or_concat later |>.resolve_left (by rintro rfl; simp at two)
  have drop : last ≠ 0 := nonzero last (by simp)
  rw [nondecreasing, List.all_eq_false]
  refine ⟨((0 : Nat) : Int) - last, ?_, by simp; omega⟩
  apply List.mem_of_getElem? (i := front.length + 1)
  rw [List.getElem?_zipWith_eq_some]
  exact ⟨0, last, by simp, by simp, rfl⟩

/-- What flash attention makes of a stream of sequences, each but the last of at least two
tokens. -/
theorem attentionSequences_runs {runs : List (List Nat)} {states : List (List β)} (some : runs ≠ [])
    (each : ∀ run ∈ runs, IsRun run) (two : ∀ run ∈ runs.dropLast, 2 ≤ run.length)
    (same : List.Forall₂ (fun run states => run.length = states.length) runs states) :
    attentionSequences runs.flatten states.flatten = states := by
  rw [attentionSequences]
  split
  · exact cut_cuSeqlens each same
  · rename_i whole
    cases same with
    | nil => exact absurd rfl some
    | @cons first state runs states length rest =>
      cases rest with
      | nil => simp
      | @cons second other runs states length' rest =>
        refine absurd ⟨?_, ?_⟩ whole
        · have long := two first (by simp)
          simp only [List.flatten_cons, List.length_append]
          omega
        · exact nondecreasing_of_runs (each first (by simp)) (two first (by simp))
            (each second (by simp))

end Runs

section Batch

variable {batch : MicroBatch}

theorem packedTokens_flatten :
    batch.packedTokens = (batch.rows.map (fun row => keep row.attentionMask row.tokens)).flatten :=
  keep_flatten (fun row member => (batch.maskShape row member).trans (length_tokens member).symm)

theorem isRun_range {n : Nat} (positive : 0 < n) : IsRun (List.range n) := by
  obtain ⟨m, rfl⟩ := Nat.exists_eq_add_of_lt positive
  refine ⟨(List.range m).map Nat.succ, by rw [Nat.zero_add, List.range_succ_eq_map], ?_⟩
  intro p member
  obtain ⟨q, -, rfl⟩ := List.mem_map.mp member
  exact Nat.succ_ne_zero q

theorem Packable.isRun {r : Nat} {row : SequenceRow} (found : batch.rows[r]? = some row)
    {left valid right : Nat} (packable : row.Packable left valid right) :
    IsRun ((keep row.attentionMask row.tokens).map Prod.snd) ∧
      2 ≤ ((keep row.attentionMask row.tokens).map Prod.snd).length := by
  obtain ⟨x, xs, kept, count, start, none⟩ := keep_row_run found packable.runs
  have two := packable.two
  rw [kept, List.length_map, List.length_cons]
  refine ⟨⟨xs.map Prod.snd, ?_, ?_⟩, by omega⟩
  · rw [List.map_cons, beq_iff_eq.mp start]
  · intro p member
    obtain ⟨y, inside, rfl⟩ := List.mem_map.mp member
    exact beq_eq_false_iff_ne.mp (none y inside)

variable (batch)

/-- The ids and position ids of the valid tokens, as `_forward_micro_batch` packs them. -/
def MicroBatch.inputIdsRmpad : List Nat :=
  (unpadInput (batch.rows.map SequenceRow.inputIds) (batch.rows.map SequenceRow.attentionMask)).1

def MicroBatch.positionIdsRmpad : List Nat :=
  pick (batch.rows.map SequenceRow.positionIds).flatten
    (unpadInput (batch.rows.map SequenceRow.inputIds) (batch.rows.map SequenceRow.attentionMask)).2

def tailSequence (padSize : Nat) : List (List (Nat × Nat)) :=
  if padSize = 0 then [] else [(List.replicate padSize 0).zip (List.range padSize)]

theorem zip_rmpad : batch.inputIdsRmpad.length = batch.positionIdsRmpad.length ∧
    batch.inputIdsRmpad.zip batch.positionIdsRmpad = batch.packedTokens := by
  have ids : batch.inputIdsRmpad = _ := pick_nonzero (length_mask_inputIds batch)
  have positions : batch.positionIdsRmpad = _ := pick_nonzero (length_mask_positionIds batch)
  rw [ids, positions]
  exact ⟨(length_keep (length_mask_inputIds batch)).trans
    (length_keep (length_mask_positionIds batch)).symm, (packedTokens_eq batch).symm⟩

theorem tailSequence_flatten (padSize : Nat) :
    (tailSequence padSize).flatten = (List.replicate padSize 0).zip (List.range padSize) := by
  rw [tailSequence]
  split
  · rename_i zero
    simp [zero]
  · simp

theorem tailSequence_isRun {padSize : Nat} {tail : List (Nat × Nat)}
    (member : tail ∈ tailSequence padSize) :
    IsRun (tail.map Prod.snd) := by
  rw [tailSequence] at member
  split at member
  · cases member
  · rename_i some
    rw [List.mem_singleton.mp member, List.map_snd_zip (by simp)]
    exact isRun_range (Nat.pos_of_ne_zero some)

theorem mem_of_mem_dropLast_tail {padSize : Nat} {rows : List (List (Nat × Nat))}
    {state : List (Nat × Nat)}
    (member : state ∈ (rows ++ tailSequence padSize).dropLast) : state ∈ rows := by
  rw [tailSequence] at member
  split at member
  · rw [List.append_nil] at member
    exact (List.dropLast_sublist rows).subset member
  · rwa [List.dropLast_concat] at member

variable {batch}

theorem packed_sequences (some : batch.rows ≠ [])
    (packable : ∀ row ∈ batch.rows, ∃ left valid right, row.Packable left valid right)
    (spSize : Nat) :
    ∃ ids positions padSize,
      ulyssesPadAndSliceInputs batch.inputIdsRmpad (.some batch.positionIdsRmpad) spSize =
        .ok (ids, .some positions, padSize) ∧
      (prepareFa2FromPositionIds positions.flatten).1 =
        ((batch.rows.map (fun row => keep row.attentionMask row.tokens) ++ tailSequence padSize).map
          List.length).scanl (· + ·) 0 ∧
      attentionSequences positions.flatten (ids.flatten.zip positions.flatten) =
        batch.rows.map (fun row => keep row.attentionMask row.tokens) ++ tailSequence padSize := by
  obtain ⟨same, zipped⟩ := zip_rmpad batch
  obtain ⟨ids, positions, padSize, run, flatIds, flatPositions⟩ :=
    ulyssesPadAndSliceInputs_flatten spSize same
  let states := batch.rows.map (fun row => keep row.attentionMask row.tokens) ++
    tailSequence padSize
  have tokens : ids.flatten.zip positions.flatten = states.flatten := by
    rw [flatIds, flatPositions, List.zip_append same, zipped, packedTokens_flatten,
      List.flatten_append, tailSequence_flatten]
  have places : positions.flatten = (states.map (List.map Prod.snd)).flatten := by
    rw [← List.map_flatten, ← tokens, List.map_snd_zip]
    simp [flatIds, flatPositions, same]
  have rowRuns : ∀ row ∈ batch.rows, IsRun ((keep row.attentionMask row.tokens).map Prod.snd) ∧
      2 ≤ ((keep row.attentionMask row.tokens).map Prod.snd).length := by
    intro row member
    obtain ⟨r, found⟩ := List.mem_iff_getElem?.mp member
    obtain ⟨left, valid, right, shape⟩ := packable row member
    exact Packable.isRun found shape
  have each : ∀ run ∈ states.map (List.map Prod.snd), IsRun run := by
    intro run member
    obtain ⟨state, inside, rfl⟩ := List.mem_map.mp member
    rcases List.mem_append.mp inside with ofRow | ofTail
    · obtain ⟨row, inBatch, rfl⟩ := List.mem_map.mp ofRow
      exact (rowRuns row inBatch).1
    · exact tailSequence_isRun ofTail
  refine ⟨ids, positions, padSize, run, ?_, ?_⟩
  · have bounds := cuSeqlens_runs each 0
    have lengths : (states.map (List.map Prod.snd)).map List.length = states.map List.length := by
      simp
    rw [lengths] at bounds
    rw [places, ← bounds]
    simp
  · rw [tokens, places]
    apply attentionSequences_runs (by simp [states, some]) each
    · intro run member
      rw [← List.map_dropLast] at member
      obtain ⟨state, inside, rfl⟩ := List.mem_map.mp member
      obtain ⟨row, inBatch, rfl⟩ := List.mem_map.mp (mem_of_mem_dropLast_tail inside)
      exact (rowRuns row inBatch).2
    · rw [List.forall₂_map_left_iff, List.forall₂_same]
      exact fun state _ => List.length_map _

end Batch

end Verl.Workers
