import Verl.Workers.RolloutOrder

/-! `SGLangRollout.generate_sequences` beside that of `vLLMRollout`: the engines are
parameters, and the shapes of the two results are compared. -/
namespace Verl.Rollout
open Protocol SingleController

variable {Ω : Type}

def doSample (metaInfo : Dict MetaValue) : Bool :=
  ((metaInfo.get? "do_sample").map MetaValue.truthy).getD true

def isValidate (metaInfo : Dict MetaValue) : Bool :=
  ((metaInfo.get? "validate").map MetaValue.truthy).getD false

/-- The sampling parameters that bound the shape of the output. -/
structure SamplingParams where
  n : Nat
  maxNewTokens : Nat

/-- `inference_engine.generate(sampling_params=.., input_ids=..)`: the token ids of all
responses. -/
abbrev SglangEngine (Ω : Type) := SamplingParams → List (Obj Ω) → List (List Int)

def samplingParams (config : RolloutConfig) (metaInfo : Dict MetaValue) : SamplingParams :=
  if !doSample metaInfo then ⟨1, 4096⟩ else ⟨config.n, config.responseLength⟩

def postProcessOutputs (padTokenId : Int) (output : List (List Int)) : Py (List (List Int)) :=
  match (output.map List.length).max? with
  | none => .error (.runtime "received an empty list of sequences")
  | some longest =>
    .ok (output.map (fun ids => ids ++ List.replicate (longest - ids.length) padTokenId))

def padSequenceToLength (maxSeqLen : Nat) (padTokenId : Int) (tensors : List (List Int)) :
    List (List Int) :=
  let width := (tensors.head?.map List.length).getD 0
  if width ≥ maxSeqLen then
    tensors
  else tensors.map (· ++ List.replicate (maxSeqLen - width) padTokenId)

def padResponse (config : RolloutConfig) (response : List (List Int)) : List (List Int) :=
  if (response.head?.map List.length).getD 0 < config.responseLength then
    padSequenceToLength config.responseLength config.padTokenId response
  else response

/-- `position_ids[:, -1:] + delta_position_id` on one row. There is no case for a 3-D tensor:
the last channel broadcasts against all rows of `delta_position_id`, one channel for each. -/
def responsePositionIdsSglang (batchSize responseLength : Nat) : Cell → Py Cell
  | .vec xs => responsePositionIds responseLength (.vec xs)
  | .mat xss => do
    match xss.getLast? with
    | none => .error (.runtime "expected a channel")
    | some last =>
      let positions ← broadcastAdd last (deltaPositionId responseLength)
      return .mat (List.replicate batchSize positions)

def positionRowSglang (batchSize : Nat) (positions : Cell) (response : List Int) : Py Cell := do
  let later ← responsePositionIdsSglang batchSize response.length positions
  positions.cat later

def sampleDict (prompts responses inputIds attentionMask positionIds : Column Cell) :
    Dict (Column Cell) :=
  ⟨[("prompts", prompts), ("responses", responses), ("input_ids", inputIds),
    ("attention_mask", attentionMask), ("position_ids", positionIds)], by simp⟩

def assembleSglang (config : RolloutConfig) (idx attentionMask positionIds : Column Cell)
    (response : List (List Int)) :
    Py (TensorDict Cell) := do
  let width := (response.head?.map List.length).getD 0
  let seq ← zipRows seqRow idx.rows response
  let positions ← zipRows (positionRowSglang idx.rows.length) positionIds.rows response
  let masks ← zipRows (maskRow config.eosTokenId) attentionMask.rows response
  TensorDict.new (sampleDict idx ⟨[width], response.map .vec⟩ ⟨catShape idx.shape width, seq⟩
    ⟨catShape attentionMask.shape width, masks⟩ ⟨catShape positionIds.shape width,
      positions⟩) idx.rows.length

/-- `SGLangRollout.generate_sequences`; it does not read `validate`. -/
def generateSequencesSglang (config : RolloutConfig) (engine : SglangEngine Ω)
    (prompts : Prompts Ω) : Py (Prompts Ω) := do
  let idx ← tensor prompts "input_ids"
  let attentionMask ← tensor prompts "attention_mask"
  let positionIds ← tensor prompts "position_ids"
  let idxList ← idx.rows.mapM (preProcessInputs config.padTokenId)
  let output := engine (samplingParams config prompts.metaInfo) idxList
  let response ← postProcessOutputs config.padTokenId output
  let response := padResponse config response
  let expand := fun column : Column Cell =>
    if config.n > 1 && doSample prompts.metaInfo then
      DataProto.repeatInterleave config.n column
    else column
  let batch ← assembleSglang config (expand idx) (expand attentionMask)
    (expand positionIds) response
  DataProto.new (some batch) .empty .empty

/-- `n` responses to each prompt, none longer than `max_new_tokens`. -/
def SglangEngine.Returns (engine : SglangEngine Ω) : Prop :=
  ∀ params inputs, (engine params inputs).length = inputs.length * params.n ∧
    ∀ ids ∈ engine params inputs, ids.length ≤ params.maxNewTokens

section Shape

def shapeOf (td : TensorDict Cell) : Nat × List (String × List Nat) :=
  (td.batchSize, td.tensors.entries.map (fun e => (e.1, e.2.shape)))

def rowsWanted (config : RolloutConfig) (metaInfo : Dict MetaValue) (rows : Nat) : Nat :=
  if doSample metaInfo = false ∨ isValidate metaInfo = true then rows else rows * config.n

/-- With engines that keep to their parameters both backends return, and with the same
shape: the rows wanted, and responses of the configured length. -/
def SameShape (config : RolloutConfig) (x : Prompts Ω) (rows : Nat) : Prop :=
  ∀ (vllm : Engine Ω) (sglang : SglangEngine Ω), vllm.Returns config.responseLength →
    sglang.Returns →
    ∃ out td ref refTd, generateSequencesSglang config sglang x = .ok out ∧ out.batch = some td ∧
      generateSequences config vllm x = .ok ref ∧ ref.batch = some refTd ∧
      shapeOf td = shapeOf refTd ∧ td.batchSize = rowsWanted config x.metaInfo rows ∧
      (td.tensors.get? "responses").map Column.shape = some [config.responseLength]

end Shape

/-- The batches and configurations on which the backends can be exchanged. -/
structure Exchangeable (config : RolloutConfig) (x : Prompts Ω)
    (prompts : PromptBatch config.responseLength x) (rows : Nat) : Prop where
  nonempty : 0 < rows
  filled : ∀ xs, .vec xs ∈ prompts.idx.rows → ∃ token ∈ xs, token ≠ config.padTokenId
  channels : ∀ xss, .mat xss ∈ prompts.positionIds.rows →
    rows * (samplingParams config x.metaInfo).n = 3
  greedy : doSample x.metaInfo = false → 4096 ≤ config.responseLength
  validating : doSample x.metaInfo = true → isValidate x.metaInfo = true → config.n = 1

section Engines

def verboseEngine : SglangEngine Ω := fun params inputs =>
  List.replicate (inputs.length * params.n) (List.replicate params.maxNewTokens 7)

theorem verboseEngine_returns : (verboseEngine : SglangEngine Ω).Returns := by
  intro params inputs
  constructor
  · exact List.length_replicate
  · intro ids inside
    rw [List.eq_of_mem_replicate inside, List.length_replicate]

def silentEngine : Engine Ω := fun n inputs => inputs.map (fun _ => List.replicate n [])

theorem silentEngine_returns (responseLength : Nat) :
    (silentEngine : Engine Ω).Returns responseLength := by
  intro n inputs
  constructor
  · exact List.length_map _
  · intro o member
    obtain ⟨_, -, rfl⟩ := List.mem_map.mp member
    constructor
    · exact List.length_replicate
    · intro ids inside
      rw [List.eq_of_mem_replicate inside]
      exact Nat.zero_le _

end Engines

theorem Exchangeable.maxNewTokens_le {config : RolloutConfig} {x : Prompts Ω}
    {prompts : PromptBatch config.responseLength x} {rows : Nat}
    (exchangeable : Exchangeable config x prompts rows) :
    (samplingParams config x.metaInfo).maxNewTokens ≤ config.responseLength := by
  unfold samplingParams
  cases flag : doSample x.metaInfo with
  | true => exact Nat.le_refl _
  | false => exact exchangeable.greedy flag

section Padding

variable (config : RolloutConfig)

theorem samples_eq (metaInfo : Dict MetaValue) : samples config metaInfo =
    if !doSample metaInfo then 1 else if isValidate metaInfo then 1 else config.n := rfl

theorem postProcessOutputs_total (padTokenId : Int) {output : List (List Int)}
    (some : output ≠ []) :
    ∃ response, postProcessOutputs padTokenId output = .ok response := by
  unfold postProcessOutputs
  cases most : (output.map List.length).max? with
  | none => exact absurd (List.map_eq_nil_iff.mp (List.max?_eq_none_iff.mp most)) some
  | some longest => exact ⟨_, rfl⟩

theorem postProcessOutputs_width {padTokenId : Int} {output response : List (List Int)}
    (post : postProcessOutputs padTokenId output = .ok response) :
    response.length = output.length ∧ ∃ longest ∈ output, ∀ ids ∈ response,
      ids.length = longest.length := by
  unfold postProcessOutputs at post
  cases most : (output.map List.length).max? with
  | none =>
    rw [most] at post
    cases post
  | some width =>
    rw [most] at post
    cases post
    obtain ⟨member, above⟩ := List.max?_eq_some_iff.mp most
    obtain ⟨longest, inside, rfl⟩ := List.mem_map.mp member
    refine ⟨List.length_map _, longest, inside, ?_⟩
    intro ids padded
    obtain ⟨source, among, rfl⟩ := List.mem_map.mp padded
    have short := above _ (List.mem_map_of_mem (f := List.length) among)
    rw [List.length_append, List.length_replicate]
    omega

theorem padResponse_width {response : List (List Int)} {width : Nat} (some : response ≠ [])
    (equal : ∀ ids ∈ response, ids.length = width) :
    (padResponse config response).length = response.length ∧
      ∀ ids ∈ padResponse config response, ids.length = max width config.responseLength := by
  obtain ⟨first, rest, rfl⟩ := List.exists_cons_of_ne_nil some
  have head : (((first :: rest).head?).map List.length).getD 0 = width :=
    equal first List.mem_cons_self
  unfold padResponse padSequenceToLength
  simp only [head]
  by_cases below : width < config.responseLength
  · rw [if_pos below, if_neg (Nat.not_le.mpr below)]
    constructor
    · exact List.length_map _
    · intro ids member
      obtain ⟨source, inside, rfl⟩ := List.mem_map.mp member
      rw [List.length_append, List.length_replicate, equal source inside]
      omega
  · rw [if_neg below]
    constructor
    · rfl
    · intro ids member
      rw [equal ids member]
      omega

omit config in
theorem preProcessInputs_ok_iff {padTokenId : Int} {xs : List Int} :
    (∃ input : Obj Ω, preProcessInputs padTokenId (.vec xs) = .ok input) ↔
      ∃ token ∈ xs, token ≠ padTokenId := by
  simp only [preProcessInputs, Cell.asVec, ok_bind]
  cases found : xs.findIdx? (· ≠ padTokenId) with
  | none =>
    have none := List.findIdx?_eq_none_iff.mp found
    simpa using none
  | some index =>
    obtain ⟨bound, token, -⟩ := List.findIdx?_eq_some_iff_getElem.mp found
    constructor
    · intro _
      exact ⟨_, List.getElem_mem bound, by simpa using token⟩
    · intro _
      exact ⟨_, rfl⟩

end Padding

section Assembly

variable {config : RolloutConfig} {idx attentionMask positionIds : Column Cell}
  {response : List (List Int)}

theorem assembleSglang_shape {td : TensorDict Cell}
    (made : assembleSglang config idx attentionMask positionIds response = .ok td) :
    td.batchSize = idx.rows.length ∧
      (td.tensors.get? "responses").map Column.shape =
        some [(response.head?.map List.length).getD 0] := by
  simp only [assembleSglang, bind_ok_iff] at made
  obtain ⟨seq, -, positions, -, masks, -, made⟩ := made
  unfold TensorDict.new at made
  split at made
  · cases made
    exact ⟨rfl, rfl⟩
  · cases made

theorem assembleSglang_eq (channels : ∀ xss, .mat xss ∈ positionIds.rows → idx.rows.length = 3) :
    assembleSglang config idx attentionMask positionIds response =
      assemble config idx attentionMask positionIds response := by
  have each : ∀ entry ∈ positionIds.rows.zip response,
      positionRowSglang idx.rows.length entry.1 entry.2 = positionRow entry.1 entry.2 := by
    rintro ⟨cell, ids⟩ member
    cases cell with
    | vec xs => rfl
    | mat xss =>
      rw [channels xss (List.of_mem_zip member).1]
      rfl
  have same : zipRows (positionRowSglang idx.rows.length) positionIds.rows response =
      zipRows positionRow positionIds.rows response := by
    unfold zipRows
    rw [mapM_congr each]
  simp only [assembleSglang, assemble, same]
  rfl

theorem channels_of_assembled {td : TensorDict Cell}
    (made : assembleSglang config idx attentionMask positionIds response = .ok td)
    {xss : List (List Int)}
    (member : .mat xss ∈ positionIds.rows) (three : xss.length = 3) : idx.rows.length = 3 := by
  simp only [assembleSglang, bind_ok_iff] at made
  obtain ⟨-, -, positions, zipped, -⟩ := made
  unfold zipRows at zipped
  split at zipped
  case isFalse => cases zipped
  case isTrue same =>
    have member : .mat xss ∈ (positionIds.rows.zip response).map Prod.fst := by
      rwa [List.map_fst_zip (Nat.le_of_eq same)]
    obtain ⟨⟨cell, ids⟩, entry, rfl⟩ := List.mem_map.mp member
    obtain ⟨out, extended⟩ := exists_of_mapM_ok zipped entry
    simp only [positionRowSglang, responsePositionIdsSglang, bind_ok_iff] at extended
    obtain ⟨later, broadcast, joined⟩ := extended
    cases last : xss.getLast? with
    | none =>
      rw [last] at broadcast
      cases broadcast
    | some channel =>
      simp only [last, bind_ok_iff] at broadcast
      obtain ⟨positions, -, broadcast⟩ := broadcast
      cases broadcast
      simp only [Cell.cat, List.length_replicate] at joined
      split at joined
      case isFalse => cases joined
      case isTrue equal => exact equal.symm.trans three

end Assembly

section Sglang

variable {config : RolloutConfig} {x : Prompts Ω} {rows : Nat} (positive : 1 ≤ config.n)

include positive

theorem samplingParams_n : 0 < (samplingParams config x.metaInfo).n ∧
    ∀ column : Column Cell,
      (if (config.n > 1 && doSample x.metaInfo) = true then
      DataProto.repeatInterleave config.n column
      else column) = interleave (samplingParams config x.metaInfo).n column := by
  unfold samplingParams interleave
  cases doSample x.metaInfo with
  | true => exact ⟨positive, fun column => by simp⟩
  | false => exact ⟨Nat.one_pos, fun column => by simp⟩

variable (prompts : PromptBatch config.responseLength x)

theorem generateSequencesSglang_eq (engine : SglangEngine Ω) :
    generateSequencesSglang config engine x = (do
    let idxList ← prompts.idx.rows.mapM (preProcessInputs config.padTokenId)
    let response ← postProcessOutputs config.padTokenId
      (engine (samplingParams config x.metaInfo) idxList)
    let batch ← assembleSglang config (interleave (samplingParams config x.metaInfo).n prompts.idx)
      (interleave (samplingParams config x.metaInfo).n prompts.attentionMask)
      (interleave (samplingParams config x.metaInfo).n prompts.positionIds)
        (padResponse config response)
    DataProto.new (some batch) .empty .empty) := by
  obtain ⟨inputIds, masks, positions⟩ := prompts.tensors
  simp only [generateSequencesSglang, inputIds, masks, positions, ok_bind,
    (samplingParams_n (x := x) positive).2]

variable (aligned : x.Aligned rows)

include aligned

theorem sglang_run {engine : SglangEngine Ω} (returns : engine.Returns) {out : Prompts Ω}
    (run : generateSequencesSglang config engine x = .ok out) : ∃ inputs td, out.batch = some td ∧
      td.batchSize = rows * (samplingParams config x.metaInfo).n ∧
      (∃ ids ∈ engine (samplingParams config x.metaInfo) inputs,
        (td.tensors.get? "responses").map Column.shape =
          some [max ids.length config.responseLength]) ∧
      0 < rows ∧ (∀ xs, .vec xs ∈ prompts.idx.rows → ∃ token ∈ xs, token ≠ config.padTokenId) ∧
      ∀ xss, .mat xss ∈ prompts.positionIds.rows →
        rows * (samplingParams config x.metaInfo).n = 3 := by
  obtain ⟨least, -⟩ := samplingParams_n (x := x) positive
  rw [generateSequencesSglang_eq positive prompts] at run
  obtain ⟨inputs, pre, run⟩ := bind_ok_iff.mp run
  obtain ⟨response, post, run⟩ := bind_ok_iff.mp run
  obtain ⟨td, made, new⟩ := bind_ok_iff.mp run
  cases new
  obtain ⟨count, longest, member, widths⟩ := postProcessOutputs_width post
  have size : (interleave (samplingParams config x.metaInfo).n prompts.idx).rows.length =
      rows * (samplingParams config x.metaInfo).n := by
    rw [length_interleave least, (prompts.length_idx aligned).1]
  have some : response ≠ [] := by
    rw [← List.length_pos_iff, count]
    exact List.length_pos_of_mem member
  obtain ⟨batchSize, width⟩ := assembleSglang_shape made
  obtain ⟨kept, wide⟩ := padResponse_width config some widths
  refine ⟨inputs, td, rfl, batchSize.trans size, ⟨longest, member, ?_⟩, ?_, ?_, ?_⟩
  · cases padded : padResponse config response with
    | nil =>
      rw [padded] at kept
      exact absurd (List.length_eq_zero_iff.mp kept.symm) some
    | cons first rest =>
      rw [width, padded, List.head?_cons, Option.map_some, Option.getD_some,
        wide first (by simp [padded])]
  · have some_rows := List.length_pos_of_mem member
    rw [(returns _ inputs).1, length_mapM_ok pre, (prompts.length_idx aligned).1] at some_rows
    exact Nat.pos_of_mul_pos_right some_rows
  · intro xs inside
    exact preProcessInputs_ok_iff.mp (exists_of_mapM_ok pre inside)
  · intro xss inside
    have among : .mat xss ∈
        (interleave (samplingParams config x.metaInfo).n prompts.positionIds).rows := by
      rw [interleave_eq least]
      exact List.mem_flatMap.mpr ⟨_, inside, List.mem_replicate.mpr ⟨Nat.ne_of_gt least, rfl⟩⟩
    rw [← size]
    exact channels_of_assembled made among (prompts.positionRows _ inside).1

theorem sglang_ok {engine : SglangEngine Ω} (returns : engine.Returns)
    (exchangeable : Exchangeable config x prompts rows) :
    ∃ td response, generateSequencesSglang config engine x = .ok ⟨some td, .empty, .empty⟩ ∧
      td.batchSize = rows * (samplingParams config x.metaInfo).n ∧
      td.tensors = sampleTensors config
        (interleave (samplingParams config x.metaInfo).n prompts.idx)
        (interleave (samplingParams config x.metaInfo).n prompts.attentionMask)
        (interleave (samplingParams config x.metaInfo).n prompts.positionIds) response := by
  obtain ⟨least, -⟩ := samplingParams_n (x := x) positive
  have short := exchangeable.maxNewTokens_le
  have each : ∀ cell ∈ prompts.idx.rows, ∃ input : Obj Ω,
      preProcessInputs config.padTokenId cell = .ok input ∧ True := by
    intro cell member
    obtain ⟨xs, rfl⟩ := prompts.idxRows cell member
    obtain ⟨input, found⟩ := preProcessInputs_ok_iff.mpr (exchangeable.filled xs member)
    exact ⟨input, found, trivial⟩
  obtain ⟨inputs, pre, -⟩ := mapM_forall₂ _ (fun _ _ => True) _ each
  obtain ⟨count, bounded⟩ := returns (samplingParams config x.metaInfo) inputs
  rw [length_mapM_ok pre, (prompts.length_idx aligned).1] at count
  have many : engine (samplingParams config x.metaInfo) inputs ≠ [] := by
    rw [← List.length_pos_iff, count]
    exact Nat.mul_pos exchangeable.nonempty least
  obtain ⟨response, post⟩ := postProcessOutputs_total config.padTokenId many
  obtain ⟨size, longest, member, widths⟩ := postProcessOutputs_width post
  have some : response ≠ [] := by
    rw [← List.length_pos_iff, size]
    exact List.length_pos_iff.mpr many
  obtain ⟨kept, wide⟩ := padResponse_width config some widths
  have exact_width : ∀ ids ∈ padResponse config response, ids.length = config.responseLength := by
    intro ids inside
    rw [wide ids inside]
    exact Nat.max_eq_right (Nat.le_trans (bounded longest member) short)
  obtain ⟨td, made, rowsMade, tensors⟩ :=
    assemble_ok prompts least (padResponse config response) aligned
    (by rw [kept, size, count])
      (by rw [← List.length_pos_iff, kept]; exact List.length_pos_iff.mpr some) exact_width
  refine ⟨td, padResponse config response, ?_, rowsMade, tensors⟩
  have channels : ∀ xss,
    .mat xss ∈ (interleave (samplingParams config x.metaInfo).n prompts.positionIds).rows →
      (interleave (samplingParams config x.metaInfo).n prompts.idx).rows.length = 3 := by
    intro xss inside
    rw [length_interleave least, (prompts.length_idx aligned).1]
    exact exchangeable.channels xss (mem_interleave least inside)
  simp only [generateSequencesSglang_eq positive prompts, pre, post, ok_bind,
    assembleSglang_eq channels, made]
  rfl

omit aligned positive in
theorem shapeOf_samples {td ref : TensorDict Cell} {idx attentionMask positionIds : Column Cell}
    {response response' : List (List Int)} (size : td.batchSize = ref.batchSize)
    (made : td.tensors = sampleTensors config idx attentionMask positionIds response)
    (reference : ref.tensors = sampleTensors config idx attentionMask positionIds response') :
    shapeOf td = shapeOf ref := by
  unfold shapeOf
  rw [size, made, reference]
  simp [sampleTensors]

theorem exchangeable_of_same (same : SameShape config x rows) :
    Exchangeable config x prompts rows := by
  obtain ⟨out, td, _, _, returned, batch, -, -, -, size, width⟩ :=
    same silentEngine verboseEngine (silentEngine_returns _) verboseEngine_returns
  obtain ⟨inputs, td', batch', size', ⟨ids, member, width'⟩, nonempty, filled, channels⟩ :=
    sglang_run positive prompts aligned verboseEngine_returns returned
  cases batch.symm.trans batch'
  have narrow : max (samplingParams config x.metaInfo).maxNewTokens config.responseLength =
      config.responseLength := by
    rw [width', List.eq_of_mem_replicate member, List.length_replicate] at width
    simpa using width
  rw [size'] at size
  unfold samplingParams at narrow size
  unfold rowsWanted at size
  refine ⟨nonempty, filled, channels, ?_, ?_⟩
  · intro greedy
    simp only [greedy, Bool.not_false, if_true] at narrow
    omega
  · intro sampling validating
    simp only [sampling, validating, Bool.not_true, Bool.false_eq_true, if_false, or_true,
      if_true] at size
    exact Nat.eq_of_mul_eq_mul_left nonempty (size.trans (Nat.mul_one rows).symm)

omit aligned positive in
theorem samples_wanted (exchangeable : Exchangeable config x prompts rows) :
    (samplingParams config x.metaInfo).n = samples config x.metaInfo ∧
      rows * samples config x.metaInfo = rowsWanted config x.metaInfo rows := by
  rw [samples_eq]
  unfold samplingParams rowsWanted
  cases flag : doSample x.metaInfo with
  | false => simp
  | true =>
    cases validate : isValidate x.metaInfo with
    | false => simp
    | true => simp [exchangeable.validating flag validate]

theorem same_of_exchangeable (exchangeable : Exchangeable config x prompts rows) :
    SameShape config x rows := by
  intro vllm sglang vllmReturns sglangReturns
  obtain ⟨asked, wanted⟩ := samples_wanted prompts exchangeable
  obtain ⟨td, response, runs, size, tensors⟩ :=
    sglang_ok positive prompts aligned sglangReturns exchangeable
  obtain ⟨ref, reference, refSize, refTensors⟩ :=
    generateSequences_eq prompts aligned exchangeable.nonempty
    (samples_pos positive x.metaInfo) (vllmReturns (samples config x.metaInfo) (inputsOf x))
  rw [asked] at size tensors
  refine ⟨_, td, _, ref, runs, rfl, reference, rfl,
    shapeOf_samples (size.trans refSize.symm) tensors refTensors, size.trans wanted, ?_⟩
  rw [tensors]
  rfl

/-- The two backends have the same shape exactly on the exchangeable batches. -/
theorem same_shape_iff : SameShape config x rows ↔ Exchangeable config x prompts rows := by
  constructor
  · exact exchangeable_of_same positive prompts aligned
  · exact same_of_exchangeable positive prompts aligned

end Sglang

def PromptBatch.withMeta {responseLength : Nat} {x : Prompts Ω}
    (prompts : PromptBatch responseLength x)
    (metaInfo : Dict MetaValue) : PromptBatch responseLength { x with metaInfo := metaInfo } where
  batch := prompts.batch
  present := prompts.present
  idx := prompts.idx
  attentionMask := prompts.attentionMask
  positionIds := prompts.positionIds
  raw := prompts.raw
  hidx := prompts.hidx
  hmask := prompts.hmask
  hpositions := prompts.hpositions
  hraw := prompts.hraw
  keys := prompts.keys
  idxRows := prompts.idxRows
  maskRows := prompts.maskRows
  positionRows := prompts.positionRows

section FourPrompts

def asked (metaInfo : Dict MetaValue) : Prompts String := { fourPrompts with metaInfo := metaInfo }

def askedBatch (metaInfo : Dict MetaValue) :
    PromptBatch twoSamples.responseLength (asked metaInfo) :=
  fourPromptsBatch.withMeta metaInfo

theorem asked_aligned (metaInfo : Dict MetaValue) : (asked metaInfo).Aligned 4 where
  batch := fourPrompts_aligned.batch
  nonTensorBatch := fourPrompts_aligned.nonTensorBatch

theorem same_shape_training : SameShape twoSamples (asked .empty) 4 :=
  (same_shape_iff (by decide) (askedBatch .empty) (asked_aligned .empty)).mpr
    { nonempty := by decide
      filled := by simp [askedBatch, PromptBatch.withMeta, fourPromptsBatch, twoSamples]
      channels := by simp [askedBatch, PromptBatch.withMeta, fourPromptsBatch]
      greedy := by decide
      validating := by decide }

/-- Sampled validation is repeated twice more, and a greedy response has 4096 tokens. -/
theorem validation_differs :
    ¬SameShape twoSamples (asked ⟨[("validate", .flag true)], by decide⟩) 4 ∧
      ¬SameShape twoSamples
        (asked ⟨[("do_sample", .flag false), ("validate", .flag true)], by decide⟩) 4 := by
  constructor
  · intro same
    obtain ⟨out, td, _, _, returned, batch, -, -, -, size, -⟩ :=
      same countingEngine verboseEngine countingEngine_returns verboseEngine_returns
    obtain ⟨_, _, batch', size', -⟩ :=
      sglang_run (by decide) (askedBatch _) (asked_aligned _) verboseEngine_returns returned
    cases batch.symm.trans batch'
    exact absurd (size'.symm.trans size) (by decide)
  · intro same
    obtain ⟨out, td, _, _, returned, batch, -, -, -, -, width⟩ :=
      same countingEngine verboseEngine countingEngine_returns verboseEngine_returns
    obtain ⟨_, _, batch', -, ⟨ids, member, width'⟩, -⟩ :=
      sglang_run (by decide) (askedBatch _) (asked_aligned _) verboseEngine_returns returned
    cases batch.symm.trans batch'
    rw [width, List.eq_of_mem_replicate member, List.length_replicate] at width'
    exact absurd width' (by decide)

end FourPrompts

end Verl.Rollout
