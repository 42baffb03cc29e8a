import Verl.Workers.PackedAttention
import Verl.Workers.RolloutOrder

/-! The rows that `vLLMRollout.generate_sequences` returns for left-padded prompts: where their
attention masks are 1 and what their position ids count. The double negation of `get_eos_mask` is
written out here and shown to be the mask that the rollout's model uses. -/
namespace Verl.Rollout
open Protocol SingleController Workers

section EosMask

inductive EosToken where
  | single (token : Int)
  | many (tokens : List Int)

def EosToken.tokens : EosToken → List Int
  | .single token => [token]
  | .many tokens => tokens

def cumsum (xs : List Int) : List Int := (List.range xs.length).map (fun t => (xs.take (t + 1)).sum)

def getEosMask (eosToken : EosToken) (responseId : List Int) : List Int :=
  let hits := responseId.map (fun id =>
    eosToken.tokens.foldl (fun hit token => hit || id == token) false)
  let eosMask := hits.map (fun hit => if hit then (1 : Int) else 0)
  let later := (List.zipWith (· - ·) (cumsum eosMask) eosMask).map (fun count => decide (count ≠ 0))
  later.map (fun later => if !later then 1 else 0)

theorem foldl_hit (id : Int) (tokens : List Int) (hit : Bool) :
    tokens.foldl (fun hit token => hit || id == token) hit = (hit || decide (id ∈ tokens)) := by
  induction tokens generalizing hit with
  | nil => simp
  | cons token tokens ih =>
    rw [List.foldl_cons, ih]
    by_cases same : id = token
    · simp [same]
    · have other : (id == token) = false := beq_eq_false_iff_ne.mpr same
      simp [other, same]

theorem sum_hits (eos : List Int) (ids : List Int) :
    (ids.map (fun id => if id ∈ eos then (1 : Int) else 0)).sum = (ids.countP (· ∈ eos) : Int) := by
  induction ids with
  | nil => rfl
  | cons id ids ih =>
    rw [List.map_cons, List.sum_cons, ih]
    by_cases hit : id ∈ eos
    · simp [hit, Int.add_comm]
    · simp [hit]

theorem getEosMask_eq (eosToken : EosToken) (responseId : List Int) :
    getEosMask eosToken responseId = eosMask eosToken.tokens responseId := by
  have indicator : (responseId.map (fun id =>
    eosToken.tokens.foldl (fun hit token => hit || id == token) false)).map
      (fun hit => if hit then (1 : Int) else 0) =
        responseId.map (fun id => if id ∈ eosToken.tokens then (1 : Int) else 0) := by
    rw [List.map_map]
    apply List.map_congr_left
    intro id _
    simp [foldl_hit]
  apply List.ext_getElem
  · simp [getEosMask, eosMask, cumsum]
  · intro t inside _
    have bound : t < responseId.length := by simpa [getEosMask, cumsum] using inside
    have before : ((responseId.map (fun id => if id ∈ eosToken.tokens then (1 : Int) else 0)).take
      (t + 1)).sum -
        (if responseId[t] ∈ eosToken.tokens then 1 else 0) =
          ((responseId.take t).countP (· ∈ eosToken.tokens) : Int) := by
      rw [← List.map_take, List.take_succ_eq_append_getElem bound, List.map_append,
        List.sum_append, sum_hits]
      simp
    simp only [getEosMask, indicator, cumsum, eosMask, List.getElem_map, List.getElem_zipWith,
      List.getElem_range, before]
    have none : ((responseId.take t).countP (· ∈ eosToken.tokens) : Int) = 0 ↔
        (responseId.take t).any (· ∈ eosToken.tokens) = false := by
      rw [Int.natCast_eq_zero, List.countP_eq_zero, List.any_eq_false]
    cases seen : (responseId.take t).any (· ∈ eosToken.tokens) with
    | false => simp [none.mpr seen]
    | true =>
      have some := mt none.mp (by rw [seen]; simp)
      rw [decide_eq_true some]
      rfl

/-- A response that ends with its only eos token, or has full length. -/
structure Stops (config : RolloutConfig) (ids : List Int) : Prop where
  short : ids.length ≤ config.responseLength
  inside : ∀ id ∈ ids.dropLast, id ∉ config.eosTokenId
  ends : (∃ id ∈ ids.getLast?, id ∈ config.eosTokenId) ∨ ids.length = config.responseLength

variable {config : RolloutConfig} {ids : List Int}

/-- The mask of a response covers what was generated, also where the padding id is an eos id. -/
theorem eosMask_padded (stops : Stops config ids) :
    eosMask config.eosTokenId (padded config ids) =
      List.replicate ids.length 1 ++ List.replicate (config.responseLength - ids.length) 0 := by
  have width := length_padded stops.short
  apply List.ext_getElem
  · simp [eosMask, padded]
  · intro t inside _
    have bound : t < config.responseLength := by simpa [eosMask, width] using inside
    simp only [eosMask, List.getElem_map, List.getElem_range, List.getElem_append,
      List.length_replicate, List.getElem_replicate]
    by_cases generated : t < ids.length
    · have none : ((padded config ids).take t).any (· ∈ config.eosTokenId) = false := by
        rw [List.any_eq_false]
        intro id member
        rw [padded, List.take_append_of_le_length generated.le] at member
        have early : id ∈ ids.dropLast := by
          rw [List.dropLast_eq_take]
          exact List.take_subset_take_left ids (Nat.le_sub_one_of_lt generated) member
        simpa using stops.inside id early
      rw [none, if_neg Bool.false_ne_true, dif_pos generated]
    · have seen : ((padded config ids).take t).any (· ∈ config.eosTokenId) = true := by
        rw [List.any_eq_true]
        obtain ⟨id, last, eos⟩ := stops.ends.resolve_right (by omega)
        refine ⟨id, ?_, by simpa using eos⟩
        rw [padded, List.take_append]
        apply List.mem_append_left
        rw [List.take_of_length_le (Nat.le_of_not_lt generated)]
        exact List.mem_of_getLast? last
      rw [seen, if_pos rfl, dif_neg generated]

end EosMask

section Rows

/-- The mask `0^left 1^valid 0^right` as the tensors hold it. -/
def runMask (left valid right : Nat) : List Int :=
  List.replicate left 0 ++ (List.replicate valid 1 ++ List.replicate right 0)

def maskCell (mask : List Bool) : Cell := .vec (mask.map (fun valid => if valid then 1 else 0))

def idsCell (ids : List Nat) : Cell := .vec (ids.map (fun id : Nat => (id : Int)))

/-- The mask of a prompt of `promptLength` entries with `left` entries of padding. -/
def promptMask (promptLength left : Nat) : List Bool :=
  List.replicate left false ++ List.replicate (promptLength - left) true

variable {Ω : Type} {x : Prompts Ω} {config : RolloutConfig}

/-- Prompts of at least one token, padded on the left, with the position ids of their masks. -/
structure LeftPadded {responseLength : Nat} (prompts : PromptBatch responseLength x)
    (promptLength : Nat) (lefts : List Nat) :
    Prop where
  attentionMask : prompts.attentionMask.rows =
    lefts.map (fun left => maskCell (promptMask promptLength left))
  positionIds : prompts.positionIds.rows =
    lefts.map (fun left => idsCell (computePositionIdWithMask (promptMask promptLength left)))
  token : ∀ left ∈ lefts, left < promptLength

theorem maskCell_promptMask (promptLength left : Nat) :
    maskCell (promptMask promptLength left) =
      .vec (List.replicate left 0 ++ List.replicate (promptLength - left) 1) := by
  simp [maskCell, promptMask]

theorem positions_promptMask (promptLength left : Nat) :
    computePositionIdWithMask (promptMask promptLength left) =
      List.replicate left 0 ++ List.range (promptLength - left) := by
  have run := positions_of_run left (promptLength - left) 0
  simpa [promptMask] using run

theorem runMask_of_maskCell {mask : List Bool} {left valid right : Nat}
    (same : maskCell mask = .vec (runMask left valid right)) :
    mask = List.replicate left false ++
      (List.replicate valid true ++ List.replicate right false) := by
  have back : ∀ mask : List Bool,
      (mask.map (fun valid => if valid then (1 : Int) else 0)).map (fun entry => entry == 1) =
      mask := by
    intro mask
    rw [List.map_map]
    have same : (fun entry => entry == 1) ∘ (fun valid => if valid then (1 : Int) else 0) = id := by
      funext valid
      cases valid <;> rfl
    rw [same, List.map_id]
  have ints := congrArg (List.map (fun entry => entry == (1 : Int))) (Cell.vec.inj same)
  rw [back] at ints
  simpa [runMask] using ints

theorem idsCell_inj {xs ys : List Nat} (same : idsCell xs = idsCell ys) : xs = ys := by
  have injective : Function.Injective (fun id : Nat => (id : Int)) := fun _ _ => Int.ofNat.inj
  exact List.map_injective_iff.mpr injective (Cell.vec.inj same)

theorem maskRow_promptMask {ids : List Int} (stops : Stops config ids) (promptLength left : Nat) :
    maskRow config.eosTokenId (maskCell (promptMask promptLength left)) (padded config ids) =
      .ok (.vec (runMask left (promptLength - left + ids.length)
        (config.responseLength - ids.length))) := by
  rw [maskRow, eosMask_padded stops, maskCell_promptMask, Cell.cat, runMask, List.replicate_add]
  simp only [List.append_assoc]

/-- The position ids of a sample count on from those of its prompt, past the end of the response. -/
theorem positionRow_promptMask (response : List Int) {promptLength left : Nat}
    (token : left < promptLength) :
    positionRow (idsCell (computePositionIdWithMask (promptMask promptLength left))) response =
      .ok (idsCell (List.replicate left 0 ++
        List.range (promptLength - left + response.length))) := by
  obtain ⟨before, valid⟩ := Nat.exists_eq_add_of_lt token
  have tokens : promptLength - left = before + 1 := by omega
  have last : ((List.replicate left 0 ++ List.range (before + 1)).map (fun id : Nat =>
    (id : Int))) =
      (List.replicate left 0 ++ List.range before).map (fun id : Nat => (id : Int)) ++
        [(before : Int)] := by
    simp [List.range_succ]
  have front : ((List.replicate left 0 ++ List.range before).map (fun id : Nat => (id : Int)) ++
    [(before : Int)]).length - 1 =
      ((List.replicate left 0 ++ List.range before).map (fun id : Nat => (id : Int))).length := by
        simp
  have later : broadcastAdd [(before : Int)] (deltaPositionId response.length) =
      .ok (((List.range response.length).map (before + 1 + ·)).map (fun id : Nat =>
        (id : Int))) := by
    have each : (deltaPositionId response.length).map ((before : Int) + ·) =
        ((List.range response.length).map (before + 1 + ·)).map (fun id : Nat => (id : Int)) := by
      rw [deltaPositionId, List.map_map, List.map_map]
      apply List.map_congr_left
      intro t _
      simp only [Function.comp_apply]
      push_cast
      omega
    rw [broadcastAdd, ← each]
    split
    · rename_i one
      have single : response.length = 1 := by simpa [deltaPositionId] using one.symm
      simp [deltaPositionId, single]
    · rfl
  rw [positions_promptMask, tokens, idsCell, last, positionRow, responsePositionIds, front,
    List.drop_left, later, ← last]
  simp only [ok_bind, pure_eq_ok, Cell.cat]
  rw [← List.map_append, List.append_assoc, ← List.range_add]
  rfl

/-- A row of a micro batch that is row `k` of a rollout's output. -/
structure ReadsRow (out : Prompts Ω) (k : Nat) (row : SequenceRow) : Prop where
  inputIds : cellAt out "input_ids" k = some (idsCell row.inputIds)
  attentionMask : cellAt out "attention_mask" k = some (maskCell row.attentionMask)
  positionIds : cellAt out "position_ids" k = some (idsCell row.positionIds)

def responseOf (engine : Engine Ω) (config : RolloutConfig) (x : Prompts Ω) (i j : Nat) :
    Option (List Int) :=
  ((engine (samples config x.metaInfo) (inputsOf x))[i]?).bind (·[j]?)

/-- The mask and the position ids of row `k`: `left` entries of padding, a prompt, a response of
`generated` tokens. -/
structure SampleRun (out : Prompts Ω) (k left prompt generated responseLength : Nat) : Prop where
  attentionMask : cellAt out "attention_mask" k =
    some (.vec (runMask left (prompt + generated) (responseLength - generated)))
  positionIds : cellAt out "position_ids" k =
    some (idsCell (List.replicate left 0 ++ List.range (prompt + responseLength)))

section Generate

variable {rows promptLength : Nat} {engine : Engine Ω} {lefts : List Nat}
    {prompts : PromptBatch config.responseLength x}
  (aligned : x.Aligned rows) (positive : 0 < samples config x.metaInfo)
  (answers : Answers config.responseLength (samples config x.metaInfo) (inputsOf x)
    (engine (samples config x.metaInfo) (inputsOf x)))
  (stops : ∀ i j ids, responseOf engine config x i j = some ids → Stops config ids)
  (leftPadded : LeftPadded prompts promptLength lefts) {td : TensorDict Cell}
  (tensors : td.tensors = sampleTensors config (interleave (samples config x.metaInfo) prompts.idx)
    (interleave (samples config x.metaInfo) prompts.attentionMask)
      (interleave (samples config x.metaInfo) prompts.positionIds)
    ((engine (samples config x.metaInfo) (inputsOf x)).flatten.map (padded config)))

include answers in
theorem padded_response {i j : Nat} (sample : j < samples config x.metaInfo) {ids : List Int}
    (response : responseOf engine config x i j = some ids) :
    ((engine (samples config x.metaInfo) (inputsOf x)).flatten.map (padded config))[i *
      samples config x.metaInfo + j]? = some (padded config ids) := by
  rw [List.getElem?_map, ← List.flatMap_id,
    getElem?_flatMap (f := id) (fun o member => (answers.2 o member).1) sample]
  rw [responseOf] at response
  simp [response]

include aligned answers in
theorem exists_responseOf {i j : Nat} (inside : i < rows) (sample : j < samples config x.metaInfo)
    (prompts : PromptBatch config.responseLength x) :
    ∃ ids, responseOf engine config x i j = some ids := by
  have there : i < (engine (samples config x.metaInfo) (inputsOf x)).length := by
    rw [answers.1, length_inputsOf prompts aligned]
    exact inside
  have output := sample.trans_eq (answers.2 _ (List.getElem_mem there)).1.symm
  exact ⟨_, by rw [responseOf, List.getElem?_eq_getElem there, Option.bind_some, List.getElem?_eq_getElem output]⟩

include positive answers stops leftPadded tensors in
theorem sampleRun_of_tensors {out : Prompts Ω} (made : out.batch = some td) {i j left : Nat}
    (found : lefts[i]? = some left) (sample : j < samples config x.metaInfo) {ids : List Int}
    (response : responseOf engine config x i j = some ids) :
    SampleRun out (i * samples config x.metaInfo + j) left (promptLength - left) ids.length
      config.responseLength := by
  have there := padded_response answers sample response
  have ends := stops i j ids response
  have token := leftPadded.token left (List.mem_of_getElem? found)
  constructor
  · have source : prompts.attentionMask.rows[i]? =
        some (maskCell (promptMask promptLength left)) := by
      rw [leftPadded.attentionMask, List.getElem?_map, found]
      rfl
    have column : td.tensors.get? "attention_mask" =
      some ⟨catShape (interleave (samples config x.metaInfo) prompts.attentionMask).shape
        config.responseLength, List.zipWith (cellOf (maskRow config.eosTokenId))
          (interleave (samples config x.metaInfo) prompts.attentionMask).rows
          ((engine (samples config x.metaInfo) (inputsOf x)).flatten.map (padded config))⟩ := by
      rw [tensors]
      rfl
    simp only [cellAt, made, Option.bind_some, column, List.getElem?_zipWith,
      interleave_row positive _ sample, source, there, cellOf, maskRow_promptMask ends]
  · have source : prompts.positionIds.rows[i]? =
        some (idsCell (computePositionIdWithMask (promptMask promptLength left))) := by
      rw [leftPadded.positionIds, List.getElem?_map, found]
      rfl
    have column : td.tensors.get? "position_ids" =
      some ⟨catShape (interleave (samples config x.metaInfo) prompts.positionIds).shape
        config.responseLength,
          List.zipWith (cellOf positionRow)
          (interleave (samples config x.metaInfo) prompts.positionIds).rows
          ((engine (samples config x.metaInfo) (inputsOf x)).flatten.map (padded config))⟩ := by
      rw [tensors]
      rfl
    simp only [cellAt, made, Option.bind_some, column, List.getElem?_zipWith,
      interleave_row positive _ sample, source, there, cellOf, positionRow_promptMask _ token,
      length_padded ends.short]

end Generate

theorem Stops.token {ids : List Int} (stops : Stops config ids) (room : 0 < config.responseLength) :
    1 ≤ ids.length := by
  rcases stops.ends with ⟨id, last, -⟩ | full
  · exact List.length_pos_of_mem (List.mem_of_getLast? last)
  · omega

theorem SampleRun.packable {out : Prompts Ω} {k left prompt generated responseLength : Nat}
    {row : SequenceRow} (sample : SampleRun out k left prompt generated responseLength)
    (reads : ReadsRow out k row) (short : generated ≤ responseLength) (token : 1 ≤ prompt)
    (some : 1 ≤ generated) :
    row.Packable left (prompt + generated) (responseLength - generated) := by
  have mask := runMask_of_maskCell
    (Option.some.inj (reads.attentionMask.symm.trans sample.attentionMask))
  have positions := idsCell_inj (Option.some.inj (reads.positionIds.symm.trans sample.positionIds))
  have entry : ∀ k < prompt + generated, row.positionIds[left + k]? = Option.some k := by
    intro k inside
    rw [positions, List.getElem?_append_right (by simp), List.length_replicate,
      Nat.add_sub_cancel_left]
    exact List.getElem?_range (by omega)
  refine ⟨mask, by omega, entry 0 (by omega), ?_⟩
  intro k later inside
  rw [entry k inside]
  simp
  omega

/-- Row `k` of a column that was made for `n` samples of `rows` prompts belongs to a prompt and a
sample. -/
theorem exists_sample {rows n k : Nat} (inside : k < rows * n) :
    ∃ i < rows, ∃ j < n, k = i * n + j := by
  have positive : 0 < n := Nat.pos_of_ne_zero (by rintro rfl; simp at inside)
  exact ⟨k / n, Nat.div_lt_of_lt_mul (by rwa [Nat.mul_comm]), k % n, Nat.mod_lt k positive,
    (Nat.div_add_mod' k n).symm⟩

theorem lt_of_cellAt {out : Prompts Ω} {td : TensorDict Cell} (made : out.batch = some td)
    {key : String} {k : Nat} {cell : Cell}
    (found : cellAt out key k = some cell) : k < td.batchSize := by
  simp only [cellAt, made, Option.bind_some] at found
  obtain ⟨column, there, here⟩ := Option.bind_eq_some_iff.mp found
  rw [← td.aligned _ (Dict.mem_of_get? there)]
  exact (List.getElem?_eq_some_iff.mp here).1

/-- A rollout over left-padded prompts: each mask is one run of ones, over the prompt and what was
generated, and the position ids count along it. So the position ids 0 of a packed micro batch are
the starts of its rows. -/
theorem rollout_rows_packed {rows promptLength : Nat} {lefts : List Nat}
    (prompts : PromptBatch config.responseLength x)
    (aligned : x.Aligned rows) (nonempty : 0 < rows) (positive : 1 ≤ config.n)
    (room : 1 ≤ config.responseLength)
    {eosToken : EosToken} (eos : config.eosTokenId = eosToken.tokens)
    (leftPadded : LeftPadded prompts promptLength lefts)
    {engine : Engine Ω}
    (answers : Answers config.responseLength (samples config x.metaInfo) (inputsOf x)
      (engine (samples config x.metaInfo) (inputsOf x)))
    (stops : ∀ i j ids, responseOf engine config x i j = some ids → Stops config ids) :
    ∃ out, generateSequences config engine x = .ok out ∧
      (∀ i < rows, ∀ j < samples config x.metaInfo, ∃ left ids, lefts[i]? = some left ∧
        responseOf engine config x i j = some ids ∧ 1 ≤ ids.length ∧
        getEosMask eosToken (padded config ids) =
          List.replicate ids.length 1 ++ List.replicate (config.responseLength - ids.length) 0 ∧
        SampleRun out (i * samples config x.metaInfo + j) left (promptLength - left) ids.length
          config.responseLength) ∧
      ∀ batch : MicroBatch, batch.rows ≠ [] →
        (∀ row ∈ batch.rows, ∃ k, ReadsRow out k row) → ∀ spSize, ∃ ids positions padSize,
          ulyssesPadAndSliceInputs batch.inputIdsRmpad (some batch.positionIdsRmpad) spSize =
            .ok (ids, some positions, padSize) ∧
          (prepareFa2FromPositionIds positions.flatten).1 =
            ((batch.rows.map (fun row => keep row.attentionMask row.tokens) ++
            tailSequence padSize).map List.length).scanl (· + ·) 0 ∧
          attentionSequences positions.flatten (ids.flatten.zip positions.flatten) =
            batch.rows.map (fun row => keep row.attentionMask row.tokens) ++
              tailSequence padSize := by
  have sampled := samples_pos positive x.metaInfo
  obtain ⟨td, run, batchSize, tensors⟩ :=
    generateSequences_eq prompts aligned nonempty sampled answers
  have count : lefts.length = rows := by
    rw [← (prompts.length_idx aligned).2.1, leftPadded.attentionMask, List.length_map]
  have each : ∀ i < rows, ∀ j < samples config x.metaInfo, ∃ left ids, lefts[i]? = some left ∧
      responseOf engine config x i j = some ids ∧
        SampleRun ⟨some td, (leftColumns x).mapKV (fun _ column =>
        interleave (samples config x.metaInfo) column),
          .empty⟩ (i * samples config x.metaInfo + j) left (promptLength - left)
        ids.length config.responseLength := by
    intro i inside j sample
    obtain ⟨left, found⟩ : ∃ left, lefts[i]? = some left :=
      ⟨_, List.getElem?_eq_getElem (count.symm ▸ inside)⟩
    obtain ⟨ids, response⟩ := exists_responseOf aligned answers inside sample prompts
    exact ⟨left, ids, found, response,
      sampleRun_of_tensors sampled answers stops leftPadded tensors rfl found sample response⟩
  refine ⟨_, run, ?_, ?_⟩
  · intro i inside j sample
    obtain ⟨left, ids, found, response, row⟩ := each i inside j sample
    have ends := stops i j ids response
    exact ⟨left, ids, found, response,
      ends.token room, by rw [getEosMask_eq, ← eos, eosMask_padded ends], row⟩
  · intro batch some reads spSize
    apply packed_sequences some
    intro row member
    obtain ⟨k, read⟩ := reads row member
    have below := lt_of_cellAt rfl read.attentionMask
    rw [batchSize] at below
    obtain ⟨i, inside, j, sample, rfl⟩ := exists_sample below
    obtain ⟨left, ids, found, response, run⟩ := each i inside j sample
    have ends := stops i j ids response
    have token := leftPadded.token left (List.mem_of_getElem? found)
    exact ⟨_, _, _, run.packable read ends.short (Nat.sub_pos_of_lt token) (ends.token room)⟩

def twoPrompts : Prompts String where
  batch := some ⟨2, ⟨[
    ("input_ids", ⟨[3], [.vec [2, 11, 12], .vec [13, 14, 15]]⟩),
    ("attention_mask", ⟨[3], [.vec [0, 1, 1], .vec [1, 1, 1]]⟩),
    ("position_ids", ⟨[3], [.vec [0, 0, 1], .vec [0, 1, 2]]⟩)], by decide⟩, by decide⟩
  nonTensorBatch := ⟨[("raw_prompt_ids",
    ⟨[], [.tokens [11, 12], .tokens [13, 14, 15]]⟩)], by decide⟩
  metaInfo := .empty

def twoPromptsBatch : PromptBatch 3 twoPrompts where
  batch := _
  present := rfl
  idx := _
  attentionMask := _
  positionIds := _
  raw := _
  hidx := rfl
  hmask := rfl
  hpositions := rfl
  hraw := rfl
  keys := by decide
  idxRows := by simp
  maskRows := by simp
  positionRows := by simp [PositionsFit]

def eosPadding : RolloutConfig := ⟨2, 3, 2, [2]⟩

/-- An engine that stops early in the first sample of each prompt only. -/
def stoppingEngine : Engine String := fun _ inputs => inputs.map (fun _ => [[7, 2], [7, 7, 7]])

theorem twoPrompts_leftPadded : LeftPadded twoPromptsBatch 3 [1, 0] where
  attentionMask := rfl
  positionIds := rfl
  token := by decide

theorem twoPrompts_aligned : twoPrompts.Aligned 2 where
  batch := by
    rintro batch ⟨⟩
    rfl
  nonTensorBatch := by decide

theorem stoppingEngine_answers :
    Answers 3 2 (inputsOf twoPrompts) (stoppingEngine 2 (inputsOf twoPrompts)) := by
  refine ⟨rfl, ?_⟩
  intro o member
  obtain ⟨input, -, rfl⟩ := List.mem_map.mp member
  simp

theorem stoppingEngine_stops (i j : Nat) (ids : List Int)
    (response : responseOf stoppingEngine eosPadding twoPrompts i j = some ids) :
    Stops eosPadding ids := by
  obtain ⟨output, answered, found⟩ := Option.bind_eq_some_iff.mp response
  obtain ⟨input, -, rfl⟩ := List.mem_map.mp (List.mem_of_getElem? answered)
  rcases List.mem_pair.mp (List.mem_of_getElem? found) with rfl | rfl
  · exact ⟨by decide, by decide, .inl ⟨2, rfl, by decide⟩⟩
  · exact ⟨by decide, by decide, .inr rfl⟩

theorem rollout_rows_packed_twoPrompts :
    ∃ out, generateSequences eosPadding stoppingEngine twoPrompts = .ok out ∧
      (∀ i < 2, ∀ j < 2, ∃ left ids, [1, 0][i]? = some left ∧
        responseOf stoppingEngine eosPadding twoPrompts i j = some ids ∧
        1 ≤ ids.length ∧ getEosMask (.single 2) (padded eosPadding ids) =
          List.replicate ids.length 1 ++ List.replicate (3 - ids.length) 0 ∧
        SampleRun out (i * 2 + j) left (3 - left) ids.length 3) ∧
      ∀ batch : MicroBatch, batch.rows ≠ [] →
        (∀ row ∈ batch.rows, ∃ k, ReadsRow out k row) → ∀ spSize, ∃ ids positions padSize,
          ulyssesPadAndSliceInputs batch.inputIdsRmpad (some batch.positionIdsRmpad) spSize =
            .ok (ids, some positions, padSize) ∧
          (prepareFa2FromPositionIds positions.flatten).1 =
            ((batch.rows.map (fun row => keep row.attentionMask row.tokens) ++
            tailSequence padSize).map List.length).scanl (· + ·) 0 ∧
          attentionSequences positions.flatten (ids.flatten.zip positions.flatten) =
            batch.rows.map (fun row => keep row.attentionMask row.tokens) ++ tailSequence padSize :=
  @rollout_rows_packed String twoPrompts eosPadding 2 3 [1,
    0] twoPromptsBatch twoPrompts_aligned (by decide) (by decide) (by decide)
    (.single 2) rfl twoPrompts_leftPadded stoppingEngine stoppingEngine_answers stoppingEngine_stops

end Rows

end Verl.Rollout
