import Mathlib.Tactic.IntervalCases
import Verl.Workers.RemovePadding

/-! The two paths of `_forward_micro_batch` agree on the valid response tokens. -/
namespace Verl.Workers

variable {K : Type} {α β γ : Type}

section Lists

theorem flatten_zipWith (f : α → β → γ) {xss : List (List α)} {yss : List (List β)}
    (same : xss.map List.length = yss.map List.length) :
    (List.zipWith (List.zipWith f) xss yss).flatten = List.zipWith f xss.flatten yss.flatten := by
  induction xss generalizing yss with
  | nil =>
    cases yss with
    | nil => rfl
    | cons ys yss => cases same
  | cons xs xss ih =>
    cases yss with
    | nil => cases same
    | cons ys yss =>
      obtain ⟨first, rest⟩ := List.cons.inj same
      simp only [List.zipWith_cons_cons, List.flatten_cons, ih rest]
      exact (List.zipWith_append first).symm

theorem length_zipWith_rows (f : α → β → γ) {xss : List (List α)} {yss : List (List β)}
    (same : xss.map List.length = yss.map List.length) :
    (List.zipWith (List.zipWith f) xss yss).map List.length = xss.map List.length := by
  induction xss generalizing yss with
  | nil => rfl
  | cons xs xss ih =>
    cases yss with
    | nil => cases same
    | cons ys yss =>
      obtain ⟨first, rest⟩ := List.cons.inj same
      simp [ih rest, first]

theorem getElem?_rollBack {xs : List α} {k : Nat} (inside : k + 1 < xs.length) :
    (rollBack xs)[k]? = xs[k + 1]? := by
  cases xs with
  | nil => cases inside
  | cons x xs => simp [rollBack, List.getElem?_append_left (Nat.lt_of_succ_lt_succ inside)]

theorem length_rollBack (xs : List α) : (rollBack xs).length = xs.length := by
  cases xs with
  | nil => rfl
  | cons x xs => simp [rollBack]

theorem getElem?_responseWindow {responseLength : Nat} {xs : List α} {promptLength t : Nat}
    (length : xs.length = promptLength + responseLength) (prompt : 0 < promptLength)
    (inside : t < responseLength) :
    (responseWindow responseLength xs)[t]? = xs[promptLength - 1 + t]? := by
  rw [responseWindow, slice, List.getElem?_take_of_lt (by omega), List.getElem?_drop]
  congr 1
  omega

theorem positions_of_run (left valid right : Nat) :
    computePositionIdWithMask
      (List.replicate left false ++ (List.replicate valid true ++ List.replicate right false)) =
      List.replicate left 0 ++ (List.range valid ++ List.replicate right (valid - 1)) := by
  have seen : ∀ j, ((List.replicate left false ++
    (List.replicate valid true ++ List.replicate right false)).take (j + 1)).count true =
      min (j + 1 - left) valid := by
    intro j
    simp [List.take_append, List.take_replicate, List.count_replicate]
  apply List.ext_getElem
  · simp [computePositionIdWithMask]
  · intro j _ inside
    simp only [computePositionIdWithMask, List.getElem_map, List.getElem_range, seen,
      List.getElem_append, List.length_replicate, List.length_range, List.getElem_replicate]
    split
    · omega
    · split <;> omega

end Lists

section Pack

theorem padded_divides {spSize : Nat} (positive : 0 < spSize) (n : Nat) :
    spSize ∣ n + (spSize - n % spSize) % spSize := by
  have below := Nat.mod_lt n positive
  rw [Nat.dvd_iff_mod_eq_zero, Nat.add_mod_mod, Nat.add_mod]
  by_cases even : n % spSize = 0
  · simp [even]
  · have rest : (spSize - n % spSize) % spSize = spSize - n % spSize := Nat.mod_eq_of_lt (by omega)
    rw [rest, Nat.add_sub_cancel' (Nat.le_of_lt below), Nat.mod_self]

theorem flatten_sliceInputTensor {spSize : Nat} {x : List β} (divides : spSize ∣ x.length) :
    (sliceInputTensor spSize x).flatten = x :=
  flatten_blocks _ _ _ (Nat.le_of_eq (Nat.mul_div_cancel' divides).symm)

theorem length_sliceInputTensor {spSize : Nat} {x : List β} (divides : spSize ∣ x.length) :
    (sliceInputTensor spSize x).map List.length = List.replicate spSize (x.length / spSize) := by
  rw [sliceInputTensor, blocks, List.map_map, List.eq_replicate_iff]
  refine ⟨by simp, ?_⟩
  intro n member
  obtain ⟨j, hj, rfl⟩ := List.mem_map.mp member
  refine length_block ?_
  have room := Nat.mul_le_mul_right (x.length / spSize) (List.mem_range.mp hj)
  rwa [Nat.mul_div_cancel' divides] at room

theorem ulyssesPadAndSliceInputs_flatten (spSize : Nat) {inputIds positionIds : List Nat}
    (same : inputIds.length = positionIds.length) :
    ∃ ids positions padSize,
      ulyssesPadAndSliceInputs inputIds (some positionIds) spSize =
      .ok (ids, some positions, padSize) ∧
      ids.flatten = inputIds ++ List.replicate padSize 0 ∧
        positions.flatten = positionIds ++ List.range padSize := by
  have equal : (inputIds.length == positionIds.length) = true := by simp [same]
  by_cases one : spSize ≤ 1
  · refine ⟨[inputIds], [positionIds], 0, ?_, by simp, by simp⟩
    simp only [ulyssesPadAndSliceInputs, equal, Option.all_some, pyAssert_true, ok_bind, if_pos one]
    rfl
  · have divides := padded_divides (Nat.zero_lt_of_lt (Nat.lt_of_not_le one)) inputIds.length
    refine ⟨_, _, (spSize - inputIds.length % spSize) % spSize, ?_,
      flatten_sliceInputTensor (by simpa using divides),
      flatten_sliceInputTensor (by simpa [← same] using divides)⟩
    simp only [ulyssesPadAndSliceInputs, equal, Option.all_some, pyAssert_true, ok_bind, if_neg one]
    rfl

theorem packInputs_spec (spSize : Nat) {inputIds positionIds : List Nat}
    (same : inputIds.length = positionIds.length) :
    ∃ tokens labels padSize padTokens padLabels,
      packInputs spSize inputIds positionIds = .ok (tokens, labels, padSize) ∧
      tokens.flatten = inputIds.zip positionIds ++ padTokens ∧
        labels.flatten = rollBack inputIds ++ padLabels ∧
      padTokens.length = padSize ∧ padLabels.length = padSize ∧
        tokens.map List.length = labels.map List.length ∧
      ∃ n, ∀ s ∈ tokens, s.length = n := by
  unfold packInputs
  by_cases several : spSize > 1
  · have some : 0 < spSize := Nat.zero_lt_of_lt several
    have many : ¬spSize ≤ 1 := Nat.not_le_of_gt several
    have divides := padded_divides some inputIds.length
    generalize hpad : (spSize - inputIds.length % spSize) % spSize = padSize at divides
    have ids : spSize ∣ (inputIds ++ List.replicate padSize 0).length := by simpa using divides
    have positions : spSize ∣ (positionIds ++ List.range padSize).length := by
      simpa [← same] using divides
    have rolled : spSize ∣ (rollBack inputIds ++ List.replicate padSize 0).length := by
      simpa [length_rollBack] using divides
    have shapes : (sliceInputTensor spSize (inputIds ++ List.replicate padSize 0)).map List.length =
        (sliceInputTensor spSize (positionIds ++ List.range padSize)).map List.length := by
      rw [length_sliceInputTensor ids, length_sliceInputTensor positions]
      simp [same]
    have equal : (inputIds.length == positionIds.length) = true := by simp [same]
    simp only [if_pos several, ulyssesPadAndSliceInputs, equal, Option.all_some, Option.all_none,
      pyAssert_true, ok_bind, if_neg many, pure_eq_ok, length_rollBack, hpad, Option.map_some,
      Option.map_none, Option.getD_some]
    have zipped := length_zipWith_rows Prod.mk shapes
    have tokens := flatten_zipWith Prod.mk shapes
    rw [flatten_sliceInputTensor ids, flatten_sliceInputTensor positions] at tokens
    refine ⟨_, _, padSize, (List.replicate padSize 0).zip (List.range padSize),
      List.replicate padSize 0, rfl, tokens.trans (List.zip_append same),
      flatten_sliceInputTensor rolled, by simp, by simp, ?_,
      (inputIds ++ List.replicate padSize 0).length / spSize, fun s member => ?_⟩
    · refine zipped.trans ?_
      rw [length_sliceInputTensor ids, length_sliceInputTensor rolled]
      simp [length_rollBack]
    · have length := List.mem_map_of_mem (f := List.length) member
      exact List.eq_of_mem_replicate (zipped.trans (length_sliceInputTensor ids) ▸ length)
  · rw [if_neg several]
    refine ⟨_, _, 0, [], [], rfl, by simp, by simp, rfl, rfl, ?_, inputIds.length, ?_⟩
    · simp [length_rollBack, same]
    · simp [same]

end Pack

section Packed

variable (batch : MicroBatch)

def MicroBatch.mask : List Bool := (batch.rows.map SequenceRow.attentionMask).flatten

def MicroBatch.tokens : List (Nat × Nat) := (batch.rows.map SequenceRow.tokens).flatten

def MicroBatch.packedTokens : List (Nat × Nat) := keep batch.mask batch.tokens

variable {batch} {row : SequenceRow} (member : row ∈ batch.rows)

include member

theorem length_inputIds : row.inputIds.length = batch.seqlen := by
  rw [SequenceRow.inputIds, List.length_append, batch.promptsShape row member,
    batch.responsesShape row member]
  rfl

theorem length_tokens : row.tokens.length = batch.seqlen := by
  rw [SequenceRow.tokens, List.length_zip, length_inputIds member, batch.positionShape row member]
  exact Nat.min_self _

omit member

theorem lengths_eq {f : SequenceRow → List α} {g : SequenceRow → List β} {rows : List SequenceRow}
    (same : ∀ row ∈ rows, (f row).length = (g row).length) :
    (rows.map f).flatten.length = (rows.map g).flatten.length := by
  simp only [List.length_flatten, List.map_map]
  exact congrArg List.sum (List.map_congr_left same)

theorem flatten_tokens :
    batch.tokens = (batch.rows.map SequenceRow.inputIds).flatten.zip
      (batch.rows.map SequenceRow.positionIds).flatten := by
  have rowWise : ∀ rows : List SequenceRow, (∀ row ∈ rows, row ∈ batch.rows) →
    (rows.map SequenceRow.tokens).flatten =
      (rows.map SequenceRow.inputIds).flatten.zip (rows.map SequenceRow.positionIds).flatten := by
    intro rows
    induction rows with
    | nil => intro _; rfl
    | cons row rows ih =>
      intro inside
      have first := inside row List.mem_cons_self
      simp only [List.map_cons, List.flatten_cons]
      rw [List.zip_append ((length_inputIds first).trans (batch.positionShape row first).symm),
        ih (fun other later => inside other (List.mem_cons_of_mem row later))]
      rfl
  exact rowWise batch.rows (fun _ h => h)

variable (batch)

theorem length_mask_inputIds :
    batch.mask.length = (batch.rows.map SequenceRow.inputIds).flatten.length :=
  lengths_eq (fun row member => (batch.maskShape row member).trans (length_inputIds member).symm)

theorem length_mask_positionIds :
    batch.mask.length = (batch.rows.map SequenceRow.positionIds).flatten.length :=
  lengths_eq (fun row member =>
    (batch.maskShape row member).trans (batch.positionShape row member).symm)

theorem packedTokens_eq :
    batch.packedTokens = (keep batch.mask (batch.rows.map SequenceRow.inputIds).flatten).zip
      (keep batch.mask (batch.rows.map SequenceRow.positionIds).flatten) := by
  rw [MicroBatch.packedTokens, flatten_tokens,
    keep_zip _ ((length_mask_inputIds batch).symm.trans (length_mask_positionIds batch))]

theorem length_packedTokens :
    batch.packedTokens.length =
      (keep batch.mask (batch.rows.map SequenceRow.inputIds).flatten).length := by
  rw [packedTokens_eq, List.length_zip, length_keep (length_mask_inputIds batch),
    length_keep (length_mask_positionIds batch), Nat.min_self]

end Packed

section Spec

variable [Zero K] [Div K] (actor : ActorModule K) (fns : LogitsFns K) (temperature : K)

def packedLogits (actor : ActorModule K) (temperature : K) (batch : MicroBatch)
    (padTokens : List (Nat × Nat)) :
    List (List K) :=
  ((actor.packed (batch.packedTokens ++ padTokens)).take batch.packedTokens.length).map
    (List.map (· / temperature))

theorem gather_take {n padSize : Nat} {outputs : List (List β)}
    (length : outputs.flatten.length = n + padSize) :
    gatherOutputsAndUnpad outputs padSize = outputs.flatten.take n := by
  unfold gatherOutputsAndUnpad
  by_cases whole : padSize = 0
  · rw [if_pos whole, List.take_of_length_le (by omega)]
  · rw [if_neg whole, length, Nat.add_sub_cancel]

theorem forwardRmpad_eq (spSize : Nat) (batch : MicroBatch) : ∃ padTokens,
    forwardRmpad actor fns temperature spSize batch = .ok
      ((padInput ((packedLogits actor temperature batch padTokens).map fns.entropyFromLogits)
        (nonzero batch.mask)
          batch.rows.length batch.seqlen).map (responseWindow batch.responseLength),
        (padInput (List.zipWith fns.logprobsFromLogits
          (packedLogits actor temperature batch padTokens)
            (rollBack (keep batch.mask (batch.rows.map SequenceRow.inputIds).flatten)))
              (nonzero batch.mask)
          batch.rows.length batch.seqlen).map (responseWindow batch.responseLength)) := by
  have ids := pick_nonzero (length_mask_inputIds batch)
  have positions := pick_nonzero (length_mask_positionIds batch)
  obtain ⟨tokens, labels, padSize, padTokens, padLabels, packs, htokens, hlabels, lengthTokens,
    lengthLabels, shapes, n, equal⟩ :=
    packInputs_spec spSize
      ((length_keep (length_mask_inputIds batch)).trans
      (length_keep (length_mask_positionIds batch)).symm)
  refine ⟨padTokens, ?_⟩
  rw [← packedTokens_eq] at htokens
  let logits := (actor.onRanks tokens).map (List.map (List.map (· / temperature)))
  have whole : logits.flatten =
      (actor.packed (batch.packedTokens ++ padTokens)).map (List.map (· / temperature)) := by
    rw [← htokens, ← actor.onRanksFlatten equal, List.map_flatten]
  have total : logits.flatten.length = batch.packedTokens.length + padSize := by
    rw [whole, List.length_map, actor.packedLength, List.length_append, lengthTokens]
  have rows : logits.map List.length = labels.map List.length := by
    rw [← shapes, ← actor.onRanksShape equal, List.map_map]
    exact List.map_congr_left (fun _ _ => List.length_map _)
  have labelled : labels.flatten.length = batch.packedTokens.length + padSize := by
    rw [hlabels, List.length_append, length_rollBack, lengthLabels, length_packedTokens]
  have front : labels.flatten.take batch.packedTokens.length =
      rollBack (keep batch.mask (batch.rows.map SequenceRow.inputIds).flatten) := by
    rw [hlabels, List.take_left' (by rw [length_rollBack, length_packedTokens])]
  have entropy : gatherOutputsAndUnpad (logits.map (List.map fns.entropyFromLogits)) padSize =
      (packedLogits actor temperature batch padTokens).map fns.entropyFromLogits := by
    have flat : (logits.map (List.map fns.entropyFromLogits)).flatten =
      logits.flatten.map fns.entropyFromLogits :=
      List.map_flatten.symm
    rw [gather_take (by rw [flat, List.length_map, total]), flat, whole, packedLogits,
      List.map_take, List.map_take]
  have logProbs : gatherOutputsAndUnpad
    (List.zipWith (List.zipWith fns.logprobsFromLogits) logits labels) padSize =
      List.zipWith fns.logprobsFromLogits (packedLogits actor temperature batch padTokens)
        (rollBack (keep batch.mask (batch.rows.map SequenceRow.inputIds).flatten)) := by
    have flat := flatten_zipWith fns.logprobsFromLogits rows
    rw [gather_take (by rw [flat, List.length_zipWith, total, labelled, Nat.min_self]), flat,
      List.take_zipWith, front, whole, packedLogits, List.map_take]
  have masked : (batch.rows.map SequenceRow.attentionMask).flatten = batch.mask := rfl
  simp only [forwardRmpad, unpadInput, masked, ids, positions, packs, ok_bind, pure_eq_ok]
  simp only [logits] at entropy logProbs
  rw [entropy, logProbs]

end Spec

section Rows

variable {batch : MicroBatch} {r : Nat} {row : SequenceRow} (found : batch.rows[r]? = some row)

include found

theorem mem_rows : row ∈ batch.rows := List.mem_of_getElem? found

theorem getElem?_flatten {f : SequenceRow → List α}
    (shape : ∀ row ∈ batch.rows, (f row).length = batch.seqlen) {p : Nat}
    (inside : p < batch.seqlen) :
    (batch.rows.map f).flatten[r * batch.seqlen + p]? = (f row)[p]? := by
  rw [← List.flatMap_def, getElem?_flatMap shape inside, found]
  rfl

theorem rows_split : batch.rows = batch.rows.take r ++ (row :: batch.rows.drop (r + 1)) := by
  obtain ⟨inside, rfl⟩ := List.getElem?_eq_some_iff.mp found
  rw [List.getElem_cons_drop, List.take_append_drop]

variable {left valid right : Nat} (runs : row.Runs left valid right)

include runs

theorem runs_length : left + (valid + right) = batch.seqlen := by
  have length := batch.maskShape row (mem_rows found)
  rw [runs.mask] at length
  unfold MicroBatch.seqlen
  simpa using length

omit found in
theorem mask_valid {k : Nat} (hk : k < valid) : row.attentionMask[left + k]? = some true := by
  rw [runs.mask, List.getElem?_append_right (by simp),
    List.getElem?_append_left (by simpa using hk)]
  simp [hk]

theorem keep_row : keep row.attentionMask row.tokens = (row.tokens.drop left).take valid := by
  have length := length_tokens (mem_rows found)
  have sizes := runs_length found runs
  have split : row.tokens = row.tokens.take left ++
      ((row.tokens.drop left).take valid ++ (row.tokens.drop left).drop valid) := by
    rw [List.take_append_drop, List.take_append_drop]
  rw [runs.mask]
  conv => lhs; rw [split]
  rw [keep_append (by simp; omega), keep_append (by simp; omega), keep_false (by simp; omega),
    keep_true (by simp; omega), keep_false (by simp; omega)]
  simp

theorem getElem?_keep_row {k : Nat} (hk : k < valid) :
    (keep row.attentionMask row.tokens)[k]? = row.tokens[left + k]? := by
  rw [keep_row found runs, List.getElem?_take_of_lt hk, List.getElem?_drop]

theorem packedTokens_split :
    ∃ before after, batch.packedTokens = before ++ (keep row.attentionMask row.tokens ++ after) ∧
    ∀ k < valid, rank batch.mask (r * batch.seqlen + (left + k)) = before.length + k := by
  let front := batch.rows.take r
  have inFront : ∀ other ∈ front, other ∈ batch.rows :=
    fun _ earlier => List.mem_of_mem_take earlier
  have shapes : ∀ other ∈ batch.rows, other.attentionMask.length = other.tokens.length :=
    fun other member => (batch.maskShape other member).trans (length_tokens member).symm
  have masks : batch.mask = (front.map SequenceRow.attentionMask).flatten ++
      (row.attentionMask ++ ((batch.rows.drop (r + 1)).map SequenceRow.attentionMask).flatten) := by
    unfold MicroBatch.mask
    conv => lhs; rw [rows_split found]
    simp [front]
  have tokens : batch.tokens = (front.map SequenceRow.tokens).flatten ++
      (row.tokens ++ ((batch.rows.drop (r + 1)).map SequenceRow.tokens).flatten) := by
    unfold MicroBatch.tokens
    conv => lhs; rw [rows_split found]
    simp [front]
  have same : (front.map SequenceRow.attentionMask).flatten.length =
    (front.map SequenceRow.tokens).flatten.length :=
    lengths_eq (fun other earlier => shapes other (inFront other earlier))
  refine ⟨keep (front.map SequenceRow.attentionMask).flatten (front.map SequenceRow.tokens).flatten,
    keep ((batch.rows.drop (r + 1)).map SequenceRow.attentionMask).flatten
      ((batch.rows.drop (r + 1)).map SequenceRow.tokens).flatten, ?_, ?_⟩
  · unfold MicroBatch.packedTokens
    rw [masks, tokens, keep_append same, keep_append (shapes row (mem_rows found))]
  · intro k hk
    have start : (front.map SequenceRow.attentionMask).flatten.length = r * batch.seqlen := by
      have count : front.length = r :=
        List.length_take_of_le (List.getElem?_eq_some_iff.mp found).1.le
      rw [← List.flatMap_def, List.length_flatMap, List.map_congr_left (g := fun _ => batch.seqlen)
        (fun other earlier => batch.maskShape other (inFront other earlier))]
      simp [count]
    have inside : rank
        (row.attentionMask ++ ((batch.rows.drop (r + 1)).map SequenceRow.attentionMask).flatten)
        (left + k) = k := by
      rw [runs.mask, List.append_assoc]
      have shift := rank_append (a := List.replicate left false) (b := List.replicate valid true ++
        List.replicate right false ++
          ((batch.rows.drop (r + 1)).map SequenceRow.attentionMask).flatten) k
      rw [List.length_replicate] at shift
      rw [shift, rank, List.append_assoc, List.take_append_of_le_length (by simpa using hk.le)]
      simp [List.count_replicate, hk.le]
    rw [masks, ← start, rank_append, inside, length_keep same]

theorem keep_row_run : ∃ x xs, keep row.attentionMask row.tokens = x :: xs ∧ xs.length + 1 = valid ∧
    startsSequence x = true ∧ ∀ y ∈ xs, startsSequence y = false := by
  have shape := (batch.maskShape row (mem_rows found)).trans (length_tokens (mem_rows found)).symm
  have count : (keep row.attentionMask row.tokens).length = valid := by
    rw [length_keep shape, runs.mask]
    simp [List.count_replicate]
  have entries := fun k (hk : k < valid) => getElem?_keep_row found runs hk
  have position : ∀ {k : Nat} {token : Nat × Nat}, row.tokens[k]? = some token →
      row.positionIds[k]? = some token.2 := by
    intro k token entry
    obtain ⟨-, position⟩ := List.getElem?_zip_eq_some.mp entry
    exact position
  cases kept : keep row.attentionMask row.tokens with
  | nil =>
    rw [kept] at count
    have some := runs.one
    simp at count
    omega
  | cons x xs =>
    rw [kept] at count entries
    refine ⟨x, xs, rfl, count, ?_, ?_⟩
    · have first := position (entries 0 runs.one).symm
      rw [Nat.add_zero, runs.first] at first
      exact beq_iff_eq.mpr (Option.some.inj first).symm
    · intro y member
      obtain ⟨k, inside, rfl⟩ := List.mem_iff_getElem.mp member
      have bound : k + 1 < valid := count ▸ Nat.succ_lt_succ inside
      have later := position ((entries (k + 1) bound).symm.trans
        ((List.getElem?_cons_succ).trans (List.getElem?_eq_getElem inside)))
      have nonzero := runs.later (k + 1) (Nat.succ_pos k) bound
      rw [later] at nonzero
      exact beq_eq_false_iff_ne.mpr (fun zero => nonzero (congrArg some zero))

theorem packed_seen (padTokens : List (Nat × Nat)) {k : Nat} (hk : k < valid) :
    (segmentPrefixes startsSequence (batch.packedTokens ++ padTokens))[rank batch.mask
      (r * batch.seqlen + (left + k))]? =
        some ((keep row.attentionMask row.tokens).take (k + 1)) ∧
      (segmentPrefixes startsSequence (keep row.attentionMask row.tokens))[k]? =
        some ((keep row.attentionMask row.tokens).take (k + 1)) := by
  obtain ⟨before, after, packed, place⟩ := packedTokens_split found runs
  obtain ⟨x, xs, kept, count, start, none⟩ := keep_row_run found runs
  have inside : k < (x :: xs).length := by rwa [List.length_cons, count]
  rw [place k hk, packed, kept, List.append_assoc, List.append_assoc]
  constructor
  · exact segmentPrefixes_run start none inside before (after ++ padTokens)
  · have run := segmentPrefixes_run start none inside [] []
    simpa using run

theorem rank_lt_packed {k : Nat} (hk : k < valid) :
    rank batch.mask (r * batch.seqlen + (left + k)) < batch.packedTokens.length := by
  obtain ⟨before, after, split, position⟩ := packedTokens_split found runs
  obtain ⟨x, xs, kept, count, -⟩ := keep_row_run found runs
  rw [position k hk, split, List.length_append, List.length_append, kept, List.length_cons, count]
  omega

theorem padInput_entry [Zero β] {values : List β} {v : β} {k : Nat} (hk : k < valid)
    (value : values[rank batch.mask (r * batch.seqlen + (left + k))]? = some v) :
    ∃ out, (padInput values (nonzero batch.mask) batch.rows.length batch.seqlen)[r]? = some out ∧
      out[left + k]? = some v ∧ out.length = batch.seqlen := by
  have hr : r < batch.rows.length := (List.getElem?_eq_some_iff.mp found).1
  have inside : left + k < batch.seqlen := by
    have sizes := runs_length found runs
    omega
  have kept : batch.mask[r * batch.seqlen + (left + k)]? = some true :=
    (getElem?_flatten found batch.maskShape inside).trans (mask_valid runs hk)
  have fits : (r + 1) * batch.seqlen ≤ batch.rows.length * batch.seqlen := Nat.mul_le_mul_right _ hr
  let out := put (nonzero batch.mask) values (List.replicate (batch.rows.length * batch.seqlen) 0)
  have outLength : out.length = batch.rows.length * batch.seqlen := by simp [out]
  refine ⟨block batch.seqlen r out, ?_, ?_, length_block (by rwa [outLength])⟩
  · rw [List.getElem?_eq_getElem (by simpa [padInput] using hr)]
    simp [padInput, out]
  · rw [block_eq, List.getElem?_take_of_lt inside, List.getElem?_drop]
    refine getElem?_put (nodup_nonzero _) (getElem?_nonzero kept) value ?_
    rw [Nat.succ_mul] at fits
    rw [List.length_replicate]
    omega

omit runs

variable (packable : row.Packable left valid right)

include packable

theorem packed_eq_padded (actor : ActorModule K) (padTokens : List (Nat × Nat)) {k : Nat}
    (hk : k < valid) :
    (actor.packed (batch.packedTokens ++ padTokens))[rank batch.mask
      (r * batch.seqlen + (left + k))]? =
      (actor.padded batch)[r]?.bind (fun logits => logits[left + k]?) := by
  obtain ⟨inBatch, alone⟩ := packed_seen found packable.runs padTokens hk
  rw [actor.agrees found packable k hk]
  exact actor.causal inBatch alone

theorem label_eq {k : Nat} (hk : k + 1 < valid) :
    (rollBack (keep batch.mask (batch.rows.map SequenceRow.inputIds).flatten))[rank batch.mask
      (r * batch.seqlen + (left + k))]? = row.inputIds[left + (k + 1)]? := by
  have sizes := runs_length found packable.runs
  obtain ⟨before, after, -, place⟩ := packedTokens_split found packable.runs
  have kept : ∀ j < valid, batch.mask[r * batch.seqlen + (left + j)]? = some true := by
    intro j hj
    exact (getElem?_flatten found batch.maskShape (by omega)).trans (mask_valid packable.runs hj)
  have next : (keep batch.mask (batch.rows.map SequenceRow.inputIds).flatten)[rank batch.mask
      (r * batch.seqlen + (left + (k + 1)))]? = _ := getElem?_keep (kept (k + 1) hk)
  rw [getElem?_flatten found (fun _ => length_inputIds) (by omega), place (k + 1) hk] at next
  have there : left + (k + 1) < row.inputIds.length := by
    rw [length_inputIds (mem_rows found)]
    omega
  have room := (List.getElem?_eq_some_iff.mp (next.trans (List.getElem?_eq_getElem there))).1
  rw [place k (Nat.lt_of_succ_lt hk)]
  exact (getElem?_rollBack (k := before.length + k) room).trans next

theorem padInput_window [Zero β] {values : List β} {v : β} {t k : Nat}
    (prompt : 0 < batch.promptLength)
    (ht : t < batch.responseLength) (place : batch.promptLength - 1 + t = left + k) (hk : k < valid)
    (value : values[rank batch.mask (r * batch.seqlen + (left + k))]? = some v) :
    ((padInput values (nonzero batch.mask) batch.rows.length batch.seqlen).map
      (responseWindow batch.responseLength))[r]?.bind (fun xs => xs[t]?) = some v := by
  obtain ⟨out, row, entry, length⟩ := padInput_entry found packable.runs hk value
  rw [List.getElem?_map, row, Option.map_some, Option.bind_some,
    getElem?_responseWindow length prompt ht, place, entry]

omit packable in
theorem forwardPadded_entry [Div K] (actor : ActorModule K) (fns : LogitsFns K) (temperature : K)
    {t : Nat} {label : Nat}
    {logits : List K} (prompt : 0 < batch.promptLength) (ht : t < batch.responseLength)
    (token : row.responses[t]? = some label)
    (out : (actor.padded batch)[r]?.bind (fun logits => logits[batch.promptLength - 1 + t]?) =
      some logits) :
    (forwardPadded actor fns temperature batch).2[r]?.bind (fun xs => xs[t]?) =
      some (fns.logprobsFromLogits (logits.map (· / temperature)) label) := by
  obtain ⟨whole, there, entry⟩ := Option.bind_eq_some_iff.mp out
  have length := actor.paddedRowShape batch whole (List.mem_of_getElem? there)
  have window : (responseWindow batch.responseLength (whole.map (List.map (· / temperature))))[t]? =
      some (logits.map (· / temperature)) := by
    rw [getElem?_responseWindow (by rw [List.length_map, length]; rfl) prompt ht,
      List.getElem?_map, entry]
    rfl
  unfold forwardPadded
  simp only [List.getElem?_zipWith, List.getElem?_map, there, found, Option.map_some,
    Option.bind_some, window, token]

end Rows

/-- Entry `t` of row `r` of a tensor. -/
@[reducible] def entryAt (rows : List (List β)) (r t : Nat) : Option β :=
  rows[r]?.bind (fun row => row[t]?)

/-- Both paths give every valid response token the same log-prob. -/
theorem rmpad_log_probs_eq [Zero K] [Div K] (actor : ActorModule K) (fns : LogitsFns K)
    (temperature : K) (spSize : Nat)
    (batch : MicroBatch)
    (packable : ∀ row ∈ batch.rows, ∃ left valid right, row.Packable left valid right ∧
      left < batch.promptLength) :
    ∃ out, forwardRmpad actor fns temperature spSize batch = .ok out ∧
      ∀ r (row : SequenceRow) t, batch.rows[r]? = some row →
        row.attentionMask[batch.promptLength + t]? = some true →
        ∃ logProb, entryAt out.2 r t = some logProb ∧
          entryAt (forwardPadded actor fns temperature batch).2 r t = some logProb := by
  obtain ⟨padTokens, runs⟩ := forwardRmpad_eq actor fns temperature spSize batch
  refine ⟨_, runs, fun r row t found kept => ?_⟩
  obtain ⟨left, valid, right, shape, prompt⟩ := packable row (mem_rows found)
  have sizes := runs_length found shape.runs
  have length : batch.promptLength + t < batch.seqlen := by
    obtain ⟨inside, -⟩ := List.getElem?_eq_some_iff.mp kept
    rwa [batch.maskShape row (mem_rows found)] at inside
  have ht : t < batch.responseLength := Nat.lt_of_add_lt_add_left length
  have last : batch.promptLength + t < left + valid := by
    by_contra past
    rw [shape.mask, List.getElem?_append_right (by simp; omega),
      List.getElem?_append_right (by simp; omega)] at kept
    simp [List.getElem?_replicate] at kept
  obtain ⟨k, place⟩ : ∃ k, batch.promptLength - 1 + t = left + k :=
    ⟨batch.promptLength - 1 + t - left, by omega⟩
  have hk : k + 1 < valid := by omega
  have next : batch.promptLength + t = left + (k + 1) := by omega
  have response : row.inputIds[left + (k + 1)]? = row.responses[t]? := by
    have prompts := batch.promptsShape row (mem_rows found)
    rw [← next, SequenceRow.inputIds, List.getElem?_append_right (by omega), prompts,
      Nat.add_sub_cancel_left]
  have there : t < row.responses.length := by rwa [batch.responsesShape row (mem_rows found)]
  have label := (label_eq found shape hk).trans response
  rw [List.getElem?_eq_getElem there] at label
  have logits := packed_eq_padded found shape actor padTokens (Nat.lt_of_succ_lt hk)
  have packed := rank_lt_packed found shape.runs (Nat.lt_of_succ_lt hk)
  have some : rank batch.mask (r * batch.seqlen + (left + k)) <
      (actor.packed (batch.packedTokens ++ padTokens)).length := by
    rw [actor.packedLength, List.length_append]
    omega
  rw [List.getElem?_eq_getElem some] at logits
  refine ⟨_, padInput_window found shape (Nat.zero_lt_of_lt prompt) ht place
    (Nat.lt_of_succ_lt hk) ?_,
      forwardPadded_entry found actor fns temperature (Nat.zero_lt_of_lt prompt) ht
      (List.getElem?_eq_getElem there)
      (by rw [place]; exact logits.symm)⟩
  rw [List.getElem?_zipWith, label, packedLogits, List.getElem?_map,
    List.getElem?_take_of_lt packed, List.getElem?_eq_getElem some]
  rfl

section VisiblePrefix

variable (logitsOf : List (Nat × Nat) → List K)

theorem keep_take_row {batch : MicroBatch} {r : Nat} {row : SequenceRow}
    (found : batch.rows[r]? = some row)
    {left valid right : Nat} (runs : row.Runs left valid right) {k : Nat} (hk : k < valid) :
    keep (row.attentionMask.take (left + (k + 1))) (row.tokens.take (left + (k + 1))) =
      (keep row.attentionMask row.tokens).take (k + 1) := by
  have length := length_tokens (mem_rows found)
  have sizes := runs_length found runs
  have masks : row.attentionMask.take (left + (k + 1)) =
      List.replicate left false ++ List.replicate (k + 1) true := by
    rw [runs.mask, List.take_append, List.take_append]
    have none : k + 1 - valid = 0 := Nat.sub_eq_zero_of_le hk
    simp [none, Nat.min_eq_left hk]
  rw [keep_row found runs, masks, List.take_add, keep_append (by simp; omega),
    keep_false (by simp; omega), keep_true (by simp; omega), List.nil_append, List.take_take,
    Nat.min_eq_left hk]

def prefixLogits (batch : MicroBatch) : List (List (List K)) :=
  batch.rows.map (fun row => (List.range batch.seqlen).map (fun p =>
    logitsOf (keep (row.attentionMask.take (p + 1)) (row.tokens.take (p + 1)))))

theorem prefixLogits_agrees {batch : MicroBatch} {r : Nat} {row : SequenceRow}
    {left valid right : Nat} (found : batch.rows[r]? = some row) (runs : row.Runs left valid right)
    (k : Nat) (hk : k < valid) :
    (prefixLogits logitsOf batch)[r]?.bind (fun logits => logits[left + k]?) =
      ((segmentPrefixes startsSequence (keep row.attentionMask row.tokens)).map logitsOf)[k]? := by
  have sizes := runs_length found runs
  obtain ⟨x, xs, kept, count, start, none⟩ := keep_row_run found runs
  have run := segmentPrefixes_run start none (k := k) (by rwa [List.length_cons, count]) [] []
  have seen := keep_take_row found runs hk
  rw [List.nil_append, List.append_nil, List.length_nil, Nat.zero_add] at run
  rw [kept] at seen
  rw [prefixLogits, List.getElem?_map, found, Option.map_some, Option.bind_some, List.getElem?_map,
    List.getElem?_range (by omega), Option.map_some, Nat.add_assoc, seen, kept, List.getElem?_map,
    run, Option.map_some]

def slicedLogits (slices : List (List (Nat × Nat))) : List (List (List K)) :=
  blocks ((slices.head?.map List.length).getD 0) slices.length
    ((segmentPrefixes startsSequence slices.flatten).map logitsOf)

theorem blocks_like {slices : List (List α)} {n : Nat} (equal : ∀ s ∈ slices, s.length = n)
    {values : List β} (length : values.length = slices.flatten.length) :
    (blocks ((slices.head?.map List.length).getD 0) slices.length values).map List.length =
      slices.map List.length ∧
      (blocks ((slices.head?.map List.length).getD 0) slices.length values).flatten = values := by
  have total : values.length = slices.length * n := by
    rw [length, List.length_flatten, List.map_congr_left equal]
    simp
  cases slices with
  | nil =>
    have none : values = [] := List.eq_nil_of_length_eq_zero (by simpa using length)
    exact ⟨rfl, none.symm⟩
  | cons s slices =>
    have first := equal s List.mem_cons_self
    rw [List.head?_cons, Option.map_some, Option.getD_some, first]
    refine ⟨?_, flatten_blocks _ _ _ (Nat.le_of_eq total)⟩
    rw [List.map_congr_left equal, List.map_const', List.eq_replicate_iff]
    refine ⟨by simp, fun m member => ?_⟩
    obtain ⟨xs, cut, rfl⟩ := List.mem_map.mp member
    obtain ⟨j, hj, rfl⟩ := List.mem_map.mp cut
    exact length_block (by rw [total]; exact Nat.mul_le_mul_right n (List.mem_range.mp hj))

theorem slicedLogits_spec {slices : List (List (Nat × Nat))} {n : Nat}
    (equal : ∀ s ∈ slices, s.length = n) :
    (slicedLogits logitsOf slices).map List.length = slices.map List.length ∧
      (slicedLogits logitsOf slices).flatten =
        (segmentPrefixes startsSequence slices.flatten).map logitsOf := by
  apply blocks_like equal
  rw [List.length_map, segmentPrefixes, length_segmentsFrom]

def prefixActor : ActorModule K where
  packed tokens := (segmentPrefixes startsSequence tokens).map logitsOf
  onRanks := slicedLogits logitsOf
  padded := prefixLogits logitsOf
  packedLength _ := (List.length_map _).trans (length_segmentsFrom _ _ _)
  causal here there := by rw [List.getElem?_map, List.getElem?_map, here, there]
  onRanksShape equal := (slicedLogits_spec logitsOf equal).1
  onRanksFlatten equal := (slicedLogits_spec logitsOf equal).2
  paddedShape _ := List.length_map _
  paddedRowShape batch row member := by
    obtain ⟨_, -, rfl⟩ := List.mem_map.mp member
    simp
  agrees found packable := prefixLogits_agrees logitsOf found packable.runs

end VisiblePrefix

def twoRows : MicroBatch where
  promptLength := 2
  responseLength := 2
  rows := [⟨[0, 5], [6, 7], [false, true, true, true], [0, 0, 1, 2]⟩,
    ⟨[3, 4], [8, 0], [true, true, true, false], [0, 1, 2, 2]⟩]
  promptsShape := by simp
  responsesShape := by simp
  maskShape := by simp
  positionShape := by simp

theorem twoRows_packable : ∀ row ∈ twoRows.rows, ∃ left valid right, row.Packable left valid right ∧
    left < twoRows.promptLength := by
  intro row member
  simp only [twoRows, List.mem_cons, List.not_mem_nil, or_false] at member
  obtain rfl | rfl := member
  · exact ⟨1, 3, 0, ⟨rfl, by decide, rfl,
      fun k some bound => by interval_cases k <;> simp⟩, by decide⟩
  · exact ⟨0, 3, 1, ⟨rfl, by decide, rfl,
      fun k some bound => by interval_cases k <;> simp⟩, by decide⟩

def countingActor : ActorModule Int :=
  prefixActor (fun seen =>
    (List.range 9).map (fun token => ((seen.map Prod.fst).count token : Int) - seen.length))

def countingFns : LogitsFns Int where
  logprobsFromLogits logits label := logits.getD label 0 - logits.sum
  entropyFromLogits logits := logits.sum

theorem rmpad_log_probs_two_rows :
    ∃ out, forwardRmpad countingActor countingFns 1 4 twoRows = .ok out ∧
    ∃ logProb, entryAt out.2 0 1 = some logProb ∧
      entryAt (forwardPadded countingActor countingFns 1 twoRows).2 0 1 = some logProb := by
  obtain ⟨out, runs, equal⟩ :=
    rmpad_log_probs_eq countingActor countingFns 1 4 twoRows twoRows_packable
  exact ⟨out, runs, equal 0 _ 1 rfl rfl⟩

end Verl.Workers
