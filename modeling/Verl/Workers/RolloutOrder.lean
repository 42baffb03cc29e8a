import Verl.Workers.Rollout

/-! Row order of a rollout: the rows of the samples follow the rows of the prompts,
through the gather in an inference group, the repetition by `n`, the chunk of the
rank and the concatenation on the driver. -/
namespace Verl.Rollout
open Protocol SingleController

variable {Ω : Type}

/-- Positions that `position_ids[:, -1:] + delta_position_id` extends: a 2-D row, or
three channels whose width broadcasts. -/
def PositionsFit (responseLength : Nat) : Cell → Prop
  | .vec xs => xs ≠ []
  | .mat xss => xss.length = 3 ∧ ∃ last, xss.getLast? = some last ∧
      (last.length = responseLength ∨ last.length = 1 ∨ responseLength = 1)

/-- The columns of a generation batch, as the trainer pops them. -/
structure PromptBatch (responseLength : Nat) (x : Prompts Ω) where
  batch : TensorDict Cell
  present : x.batch = some batch
  idx : Column Cell
  attentionMask : Column Cell
  positionIds : Column Cell
  raw : Column (Obj Ω)
  hidx : batch.tensors.get? "input_ids" = some idx
  hmask : batch.tensors.get? "attention_mask" = some attentionMask
  hpositions : batch.tensors.get? "position_ids" = some positionIds
  hraw : x.nonTensorBatch.get? "raw_prompt_ids" = some raw
  keys : ∀ key ∈ x.nonTensorBatch.keys,
    key = "raw_prompt_ids" ∨ key = "multi_modal_data" ∨ key = "multi_modal_inputs"
  idxRows : ∀ cell ∈ idx.rows, ∃ xs, cell = .vec xs
  maskRows : ∀ cell ∈ attentionMask.rows, ∃ xs, cell = .vec xs
  positionRows : ∀ cell ∈ positionIds.rows, PositionsFit responseLength cell

/-- For each input `n` responses of at most `responseLength` tokens. -/
def Answers (responseLength n : Nat) (inputs : List (VllmInput Ω))
    (outputs : List (List (List Int))) : Prop :=
  outputs.length = inputs.length ∧ ∀ o ∈ outputs, o.length = n ∧ ∀ ids ∈ o,
    ids.length ≤ responseLength

/-- What `SamplingParams(n, max_tokens=response_length)` makes an engine return. -/
def Engine.Returns (responseLength : Nat) (engine : Engine Ω) : Prop :=
  ∀ n inputs, Answers responseLength n inputs (engine n inputs)

def padded (config : RolloutConfig) (ids : List Int) : List Int :=
  ids ++ List.replicate (config.responseLength - ids.length) config.padTokenId

theorem length_padded {config : RolloutConfig} {ids : List Int}
    (short : ids.length ≤ config.responseLength) :
    (padded config ids).length = config.responseLength := by
  simp [padded]
  omega

theorem pad2dListToLength_ok {config : RolloutConfig} {response : List (List Int)}
    (nonempty : response ≠ []) (short : ∀ ids ∈ response, ids.length ≤ config.responseLength) :
    pad2dListToLength config.padTokenId config.responseLength response =
      .ok (response.map (padded config)) := by
  obtain ⟨longest, hlongest⟩ := Option.isSome_iff_exists.mp
    (List.isSome_max?_iff.mpr (by simpa using nonempty : response.map List.length ≠ []))
  have below : longest ≤ config.responseLength := by
    obtain ⟨ids, member, rfl⟩ := List.mem_map.mp (List.max?_eq_some_iff.mp hlongest).1
    exact short ids member
  have target : (if config.responseLength > longest then config.responseLength else longest) =
      config.responseLength := by
    split
    · rfl
    · omega
  simp only [pad2dListToLength, hlongest, target]
  rfl

theorem broadcastAdd_fits (xs ys : List Int)
    (fits : xs.length = ys.length ∨ xs.length = 1 ∨ ys.length = 1) :
    ∃ zs, broadcastAdd xs ys = .ok zs := by
  unfold broadcastAdd
  split
  · exact ⟨_, rfl⟩
  · split
    · exact ⟨_, rfl⟩
    · rename_i different wide
      have one : ys.length = 1 := by omega
      exact ⟨_, if_pos one⟩

theorem positionRow_total {cell : Cell} {response : List Int}
    (fits : PositionsFit response.length cell) :
    ∃ out, positionRow cell response = .ok out := by
  cases cell with
  | vec xs =>
    have one : (xs.drop (xs.length - 1)).length = 1 := by
      have positive := List.length_pos_iff.mpr fits
      simp
      omega
    obtain ⟨zs, hzs⟩ := broadcastAdd_fits _ (deltaPositionId response.length) (.inr (.inl one))
    exact ⟨.vec (xs ++ zs), by simp [positionRow, responsePositionIds, hzs, Cell.cat]⟩
  | mat xss =>
    obtain ⟨three, last, hlast, wide⟩ := fits
    obtain ⟨zs, hzs⟩ := broadcastAdd_fits last (deltaPositionId response.length)
      (by simpa [deltaPositionId] using wide)
    exact ⟨.mat (List.zipWith (· ++ ·) xss (List.replicate 3 zs)),
      by simp [positionRow, responsePositionIds, hlast, hzs, Cell.cat, three]⟩

/-- The value of a row operation that does not raise. -/
def cellOf (f : Cell → List Int → Py Cell) (cell : Cell) (response : List Int) : Cell :=
  match f cell response with
  | .ok out => out
  | .error _ => cell

theorem cellOf_ok {f : Cell → List Int → Py Cell} {cell : Cell} {response : List Int}
    (total : ∃ out, f cell response = .ok out) :
    f cell response = .ok (cellOf f cell response) := by
  obtain ⟨out, h⟩ := total
  simp [cellOf, h]

theorem zipRows_ok {f : Cell → List Int → Py Cell} {rows : List Cell} {response : List (List Int)}
    (same : rows.length = response.length)
    (each : ∀ cell ∈ rows, ∀ ids ∈ response, ∃ out, f cell ids = .ok out) :
    zipRows f rows response = .ok (List.zipWith (cellOf f) rows response) := by
  rw [zipRows, if_pos same, mapM_ok _ (fun entry => cellOf f entry.1 entry.2)]
  · rw [List.zip, List.map_zipWith]
  · rintro ⟨cell, ids⟩ member
    obtain ⟨hcell, hids⟩ := List.of_mem_zip member
    exact cellOf_ok (each cell hcell ids hids)

theorem interleave_eq {α : Type} {n : Nat} (positive : 0 < n) (column : Column α) :
    interleave n column = ⟨column.shape, column.rows.flatMap (List.replicate n)⟩ := by
  unfold interleave
  split
  · rfl
  · have one : n = 1 := by omega
    subst one
    have same : column.rows.flatMap (List.replicate 1) = column.rows := by
      rw [show List.replicate 1 = fun x : α => [x] from rfl, List.flatMap_singleton']
    rw [same]

theorem interleave_pickRows {α : Type} {n : Nat} (positive : 0 < n) (column : Column α)
    (size j : Nat) :
    (interleave n column).pickRows (blockIdx (size * n) j) =
      interleave n (column.pickRows (blockIdx size j)) := by
  rw [interleave_eq positive, interleave_eq positive]
  simp only [Column.pickRows, Column.mk.injEq, true_and]
  exact pick_flatMap_block (by simp) size j

def sampleTensors (config : RolloutConfig) (idx attentionMask positionIds : Column Cell)
    (response : List (List Int)) : Dict (Column Cell) :=
  ⟨[("prompts", idx),
    ("responses", ⟨[config.responseLength], response.map .vec⟩),
    ("input_ids", ⟨catShape idx.shape config.responseLength,
    List.zipWith (cellOf seqRow) idx.rows response⟩),
    ("attention_mask", ⟨catShape attentionMask.shape config.responseLength,
      List.zipWith (cellOf (maskRow config.eosTokenId)) attentionMask.rows response⟩),
    ("position_ids", ⟨catShape positionIds.shape config.responseLength,
      List.zipWith (cellOf positionRow) positionIds.rows response⟩)], by simp⟩

theorem sampleTensors_pickRows (config : RolloutConfig)
    {idx attentionMask positionIds : Column Cell} {response : List (List Int)}
    (hidx : idx.rows.length = response.length) (hmask : attentionMask.rows.length = response.length)
    (hpositions : positionIds.rows.length = response.length) (p : List Nat) :
    (sampleTensors config idx attentionMask positionIds response).mapKV
      (fun _ column => column.pickRows p) =
      sampleTensors config (idx.pickRows p) (attentionMask.pickRows p) (positionIds.pickRows p)
        (pick response p) := by
  ext1
  simp [sampleTensors, Dict.mapKV, Column.pickRows, pick_map, pick_zipWith, hidx, hmask, hpositions]

def inputsOf (x : Prompts Ω) : List (VllmInput Ω) :=
  match x.nonTensorBatch.get? "raw_prompt_ids", x.nonTensorBatch.get? "multi_modal_data" with
  | some raw, some data => (raw.rows.zip data.rows).map (fun e => (e.1, some e.2))
  | some raw, none => raw.rows.map (fun ids => (ids, none))
  | none, _ => []

def leftColumns (x : Prompts Ω) : Dict (Column (Obj Ω)) :=
  (x.nonTensorBatch.erase "raw_prompt_ids").erase "multi_modal_data"

section Generate

variable {config : RolloutConfig} {x : Prompts Ω} {rows : Nat}

theorem PromptBatch.length_idx (prompts : PromptBatch config.responseLength x)
    (aligned : x.Aligned rows) :
    prompts.idx.rows.length = rows ∧ prompts.attentionMask.rows.length = rows ∧
    prompts.positionIds.rows.length = rows ∧ prompts.raw.rows.length = rows := by
  have size := aligned.batch _ prompts.present
  refine ⟨?_, ?_, ?_, ?_⟩
  · rw [prompts.batch.aligned _ (Dict.mem_of_get? prompts.hidx), size]
  · rw [prompts.batch.aligned _ (Dict.mem_of_get? prompts.hmask), size]
  · rw [prompts.batch.aligned _ (Dict.mem_of_get? prompts.hpositions), size]
  · exact aligned.nonTensorBatch _ (Dict.mem_of_get? prompts.hraw)

theorem PromptBatch.tensors (prompts : PromptBatch config.responseLength x) :
    tensor x "input_ids" = .ok prompts.idx ∧ tensor x "attention_mask" = .ok prompts.attentionMask ∧
    tensor x "position_ids" = .ok prompts.positionIds := by
  simp [tensor, prompts.present, Dict.getItem, prompts.hidx, prompts.hmask, prompts.hpositions]

theorem length_inputsOf (prompts : PromptBatch config.responseLength x) (aligned : x.Aligned rows) :
    (inputsOf x).length = rows := by
  have raw := (prompts.length_idx aligned).2.2.2
  simp only [inputsOf, prompts.hraw]
  cases h : x.nonTensorBatch.get? "multi_modal_data" with
  | none => simpa using raw
  | some data =>
    have length : data.rows.length = rows := aligned.nonTensorBatch _ (Dict.mem_of_get? h)
    simp [raw, length]

theorem vllmInputs_eq (prompts : PromptBatch config.responseLength x) (aligned : x.Aligned rows) :
    vllmInputs config.padTokenId prompts.idx x.nonTensorBatch =
      .ok (inputsOf x, leftColumns x) := by
  obtain ⟨hidx, _, _, hraw⟩ := prompts.length_idx aligned
  have contains : x.nonTensorBatch.contains "raw_prompt_ids" = true := by
    simp [Dict.contains, prompts.hraw]
  have item : x.nonTensorBatch.getItem "raw_prompt_ids" = .ok prompts.raw := by
    simp [Dict.getItem, prompts.hraw]
  have data : (x.nonTensorBatch.erase "raw_prompt_ids").get? "multi_modal_data" =
      x.nonTensorBatch.get? "multi_modal_data" := Dict.get?_erase (by decide)
  simp only [vllmInputs, contains, if_true, ok_bind, item, hidx, hraw, ne_eq, not_true_eq_false,
    if_false, data, inputsOf, prompts.hraw, leftColumns]
  cases h : x.nonTensorBatch.get? "multi_modal_data" with
  | none => simp [Dict.erase_of_missing (data.trans h)]
  | some column => rfl

theorem leftColumns_key (prompts : PromptBatch config.responseLength x) :
    ∀ e ∈ (leftColumns x).entries, e ∈ x.nonTensorBatch.entries ∧ e.1 = "multi_modal_inputs" := by
  intro e member
  obtain ⟨member, notData⟩ := Dict.mem_erase.mp member
  obtain ⟨member, notRaw⟩ := Dict.mem_erase.mp member
  refine ⟨member, ?_⟩
  rcases prompts.keys e.1 (List.mem_map_of_mem member) with h | h | h
  · exact absurd h notRaw
  · exact absurd h notData
  · exact h

theorem length_interleave {α : Type} {n : Nat} (positive : 0 < n) (column : Column α) :
    (interleave n column).rows.length = column.rows.length * n := by
  simp [interleave_eq positive, List.length_flatMap]

theorem mem_interleave {α : Type} {n : Nat} (positive : 0 < n) {column : Column α} {cell : α}
    (member : cell ∈ (interleave n column).rows) : cell ∈ column.rows := by
  rw [interleave_eq positive] at member
  obtain ⟨source, hsource, hcell⟩ := List.mem_flatMap.mp member
  rwa [List.eq_of_mem_replicate hcell]

theorem assemble_ok (prompts : PromptBatch config.responseLength x) {n : Nat} (positive : 0 < n)
    (response : List (List Int)) (aligned : x.Aligned rows) (count : response.length = rows * n)
    (nonempty : response ≠ []) (wide : ∀ ids ∈ response, ids.length = config.responseLength) :
    ∃ td, assemble config (interleave n prompts.idx) (interleave n prompts.attentionMask)
        (interleave n prompts.positionIds) response = .ok td ∧ td.batchSize = rows * n ∧
      td.tensors = sampleTensors config (interleave n prompts.idx)
        (interleave n prompts.attentionMask) (interleave n prompts.positionIds) response := by
  obtain ⟨hidx, hmask, hpositions, _⟩ := prompts.length_idx aligned
  have idxRows : (interleave n prompts.idx).rows.length = response.length := by
    rw [length_interleave positive, hidx, count]
  have maskRows : (interleave n prompts.attentionMask).rows.length = response.length := by
    rw [length_interleave positive, hmask, count]
  have positionRows : (interleave n prompts.positionIds).rows.length = response.length := by
    rw [length_interleave positive, hpositions, count]
  have width : (response.head?.map List.length).getD 0 = config.responseLength := by
    obtain ⟨first, rest, rfl⟩ := List.exists_cons_of_ne_nil nonempty
    exact wide first (by simp)
  have seq := zipRows_ok (f := seqRow) idxRows (fun cell hcell ids _ => by
    obtain ⟨xs, rfl⟩ := prompts.idxRows cell (mem_interleave positive hcell)
    exact ⟨_, rfl⟩)
  have masks := zipRows_ok (f := maskRow config.eosTokenId) maskRows (fun cell hcell ids _ => by
    obtain ⟨xs, rfl⟩ := prompts.maskRows cell (mem_interleave positive hcell)
    exact ⟨_, rfl⟩)
  have positions := zipRows_ok (f := positionRow) positionRows (fun cell hcell ids hids =>
    positionRow_total (by
      rw [wide ids hids]
      exact prompts.positionRows cell (mem_interleave positive hcell)))
  have lengths : ∀ e ∈ (sampleTensors config (interleave n prompts.idx) (interleave n prompts.attentionMask)
      (interleave n prompts.positionIds) response).entries,
      e.2.rows.length = (interleave n prompts.idx).rows.length := by
    simp [sampleTensors, idxRows, maskRows, positionRows]
  refine ⟨⟨_, _, lengths⟩, ?_, idxRows.trans count, rfl⟩
  simp only [assemble, seq, positions, masks, ok_bind, width, TensorDict.new]
  exact dif_pos lengths

theorem generateSequences_eq (prompts : PromptBatch config.responseLength x)
    (aligned : x.Aligned rows)
    (nonempty : 0 < rows) (positive : 0 < samples config x.metaInfo) {engine : Engine Ω}
    (answers : Answers config.responseLength (samples config x.metaInfo) (inputsOf x)
      (engine (samples config x.metaInfo) (inputsOf x))) :
    ∃ td, generateSequences config engine x = .ok ⟨some td,
        (leftColumns x).mapKV (fun _ column => interleave (samples config x.metaInfo) column),
          .empty⟩ ∧
      td.batchSize = rows * samples config x.metaInfo ∧
      td.tensors = sampleTensors config (interleave (samples config x.metaInfo) prompts.idx)
        (interleave (samples config x.metaInfo) prompts.attentionMask)
        (interleave (samples config x.metaInfo) prompts.positionIds)
        ((engine (samples config x.metaInfo) (inputsOf x)).flatten.map (padded config)) := by
  generalize hn : samples config x.metaInfo = n at positive answers ⊢
  obtain ⟨outputs, each⟩ := answers
  have count : (engine n (inputsOf x)).flatten.length = rows * n := by
    rw [List.length_flatten, List.map_congr_left (fun o member => (each o member).1)]
    simp [outputs, length_inputsOf prompts aligned]
  have some : (engine n (inputsOf x)).flatten ≠ [] := by
    rw [← List.length_pos_iff, count]
    exact Nat.mul_pos nonempty positive
  have short : ∀ ids ∈ (engine n (inputsOf x)).flatten, ids.length ≤ config.responseLength := by
    intro ids member
    obtain ⟨o, ho, hids⟩ := List.mem_flatten.mp member
    exact (each o ho).2 ids hids
  obtain ⟨td, htd, size, tensors⟩ := assemble_ok prompts positive
    ((engine n (inputsOf x)).flatten.map (padded config)) aligned (by rw [List.length_map, count])
    (by simpa using some) (by
      intro ids member
      obtain ⟨source, hsource, rfl⟩ := List.mem_map.mp member
      exact length_padded (short source hsource))
  have objects : (leftColumns x).mapKV (fun key column => if key = "multi_modal_inputs" then
    interleave n column
      else column) = (leftColumns x).mapKV (fun _ column => interleave n column) := by
    apply Dict.mapKV_congr
    intro e member
    rw [if_pos (leftColumns_key prompts e member).2]
  have alignedOut : (⟨Option.some td, (leftColumns x).mapKV (fun _ column => interleave n column),
    .empty⟩ :
      Prompts Ω).Aligned (rows * n) := by
    constructor
    · rintro _ ⟨⟩
      exact size
    · intro e member
      obtain ⟨source, hsource, rfl⟩ := List.mem_map.mp member
      rw [length_interleave positive,
        aligned.nonTensorBatch _ (leftColumns_key prompts source hsource).1]
  obtain ⟨inputIds, masks, positions⟩ := prompts.tensors
  refine ⟨td, ?_, size, tensors⟩
  simp only [generateSequences, inputIds, masks, positions, ok_bind,
    vllmInputs_eq prompts aligned, hn, pad2dListToLength_ok some short, htd, objects]
  exact DataProto.new_ok alignedOut

end Generate

section Groups

variable {responseLength : Nat} {config : RolloutConfig} {x : Prompts Ω} {rows : Nat}

def PromptBatch.pickRows (prompts : PromptBatch responseLength x) (p : List Nat) :
    PromptBatch responseLength (x.pickRows p) where
  batch := prompts.batch.pickRows p
  present := by simp [DataProto.pickRows, prompts.present]
  idx := prompts.idx.pickRows p
  attentionMask := prompts.attentionMask.pickRows p
  positionIds := prompts.positionIds.pickRows p
  raw := prompts.raw.pickRows p
  hidx := by simp [TensorDict.pickRows, prompts.hidx]
  hmask := by simp [TensorDict.pickRows, prompts.hmask]
  hpositions := by simp [TensorDict.pickRows, prompts.hpositions]
  hraw := by simp [DataProto.pickRows, prompts.hraw]
  keys := by simpa [DataProto.pickRows] using prompts.keys
  idxRows := fun cell member => prompts.idxRows cell (mem_of_mem_pick member)
  maskRows := fun cell member => prompts.maskRows cell (mem_of_mem_pick member)
  positionRows := fun cell member => prompts.positionRows cell (mem_of_mem_pick member)

theorem inputsOf_pickRows (aligned : x.Aligned rows) (p : List Nat) :
    inputsOf (x.pickRows p) = pick (inputsOf x) p := by
  simp only [inputsOf, DataProto.pickRows, Dict.get?_mapKV]
  cases hraw : x.nonTensorBatch.get? "raw_prompt_ids" with
  | none => simp [pick]
  | some raw =>
    cases hdata : x.nonTensorBatch.get? "multi_modal_data" with
    | none => simp [Column.pickRows, pick_map]
    | some data =>
      have same : raw.rows.length = data.rows.length :=
        (aligned.nonTensorBatch _ (Dict.mem_of_get? hraw)).trans
          (aligned.nonTensorBatch _ (Dict.mem_of_get? hdata)).symm
      simp [Column.pickRows, List.zip, pick_zipWith _ same]

theorem leftColumns_pickRows (x : Prompts Ω) (p : List Nat) :
    leftColumns (x.pickRows p) = (leftColumns x).mapKV (fun _ column => column.pickRows p) := by
  simp only [leftColumns, DataProto.pickRows, Dict.erase_mapKV]

def jointEngine (engines : Nat → Engine Ω) (groups size : Nat) : Engine Ω := fun n inputs =>
  (List.range groups).flatMap (fun g => engines g n (pick inputs (blockIdx size g)))

section Joint

variable {engines : Nat → Engine Ω} (returns : ∀ g, (engines g).Returns responseLength)
  {groups size : Nat} (n : Nat) {inputs : List (VllmInput Ω)}
  (length : inputs.length = groups * size)

include returns length

theorem length_group {g : Nat} (hg : g < groups) :
    (engines g n (pick inputs (blockIdx size g))).length = size := by
  rw [(returns g n _).1, length_pick (length ▸ blockIdx_inside hg), length_blockIdx]

theorem jointEngine_answers :
    Answers responseLength n inputs (jointEngine engines groups size n inputs) := by
  constructor
  · have each : ∀ g ∈ List.range groups,
      (engines g n (pick inputs (blockIdx size g))).length = size :=
      fun g member => length_group returns n length (List.mem_range.mp member)
    rw [jointEngine, List.length_flatMap, List.map_congr_left each]
    simp [length]
  · intro o member
    obtain ⟨g, _, ho⟩ := List.mem_flatMap.mp member
    exact (returns g n _).2 o ho

theorem getElem?_jointEngine {g l : Nat} (hg : g < groups) (hl : l < size) :
    (jointEngine engines groups size n inputs)[g * size + l]? =
      (engines g n (pick inputs (blockIdx size g)))[l]? := by
  rw [jointEngine, getElem?_flatMap (fun g member =>
    length_group returns n length (List.mem_range.mp member)) hl, List.getElem?_range hg]
  rfl

theorem pick_jointEngine {g : Nat} (hg : g < groups) :
    pick (jointEngine engines groups size n inputs) (blockIdx size g) =
      engines g n (pick inputs (blockIdx size g)) := by
  have block := pick_flatMap_block
    (fun g member => length_group returns n length (List.mem_range.mp member)) 1 g
  have single : pick (List.range groups) (blockIdx 1 g) = [g] := by
    simp [blockIdx, pick, List.getElem?_range hg]
  rw [Nat.one_mul, single] at block
  rw [jointEngine, block]
  simp

end Joint

end Groups

section Generation

variable {x : Prompts Ω} {config : RolloutConfig} {engines : Nat → Engine Ω} {groups size : Nat}
  (prompts : PromptBatch config.responseLength x) (aligned : x.Aligned (groups * size))
  (returns : ∀ g, (engines g).Returns config.responseLength)

structure Generated (x : Prompts Ω) (config : RolloutConfig) (engines : Nat → Engine Ω)
    (groups size : Nat)
    (prompts : PromptBatch config.responseLength x) (td : TensorDict Cell) : Prop where
  batchSize : td.batchSize = groups * size * samples config x.metaInfo
  tensors : td.tensors = sampleTensors config (interleave (samples config x.metaInfo) prompts.idx)
    (interleave (samples config x.metaInfo) prompts.attentionMask)
    (interleave (samples config x.metaInfo) prompts.positionIds)
    ((jointEngine engines groups size (samples config x.metaInfo) (inputsOf x)).flatten.map
      (padded config))

def sampled (x : Prompts Ω) (config : RolloutConfig) (td : TensorDict Cell) : Prompts Ω :=
  ⟨some td, (leftColumns x).mapKV (fun _ column => interleave (samples config x.metaInfo) column),
    .empty⟩

theorem sampled_pickRows (td : TensorDict Cell)
    (positive : 0 < samples config x.metaInfo) (g : Nat) :
    (sampled x config td).pickRows (blockIdx (size * samples config x.metaInfo) g) =
      sampled (x.pickRows (blockIdx size g)) config
        (td.pickRows (blockIdx (size * samples config x.metaInfo) g)) := by
  rw [sampled, sampled, leftColumns_pickRows]
  simp only [DataProto.pickRows, Dict.mapKV_mapKV, interleave_pickRows positive, Option.map_some]

include aligned returns

theorem exists_generated (nonempty : 0 < groups * size) (positive : 0 < samples config x.metaInfo) :
    ∃ td, Generated x config engines groups size prompts td ∧
      (sampled x config td).Aligned (groups * size * samples config x.metaInfo) := by
  obtain ⟨td, -, batchSize, tensors⟩ := generateSequences_eq prompts aligned nonempty positive
    (jointEngine_answers returns _ (length_inputsOf prompts aligned))
  refine ⟨td, ⟨batchSize, tensors⟩, ⟨?_, ?_⟩⟩
  · rintro _ ⟨⟩
    exact batchSize
  · intro e member
    obtain ⟨source, hsource, rfl⟩ := List.mem_map.mp member
    rw [length_interleave positive,
      aligned.nonTensorBatch _ (leftColumns_key prompts source hsource).1]

theorem generate_group {td : TensorDict Cell}
    (generated : Generated x config engines groups size prompts td)
    (nonempty : 0 < size) (positive : 0 < samples config x.metaInfo) {g : Nat} (hg : g < groups) :
    generateSequences config (engines g) (x.pickRows (blockIdx size g)) =
      .ok ((sampled x config td).pickRows (blockIdx (size * samples config x.metaInfo) g)) := by
  have inside : ∀ i ∈ blockIdx size g, i < groups * size := blockIdx_inside hg
  have alignedGroup := aligned.pickRows inside
  rw [length_blockIdx] at alignedGroup
  obtain ⟨part, run, partSize, partTensors⟩ :=
    generateSequences_eq (prompts.pickRows (blockIdx size g)) alignedGroup
    nonempty positive (returns g _ _)
  rw [sampled_pickRows td positive]
  have inputs := length_inputsOf prompts aligned
  obtain ⟨hidx, hmask, hpositions, -⟩ := prompts.length_idx aligned
  have answers := jointEngine_answers returns (samples config x.metaInfo) inputs
  have count : ((jointEngine engines groups size (samples config x.metaInfo)
    (inputsOf x)).flatten.map
      (padded config)).length = groups * size * samples config x.metaInfo := by
    rw [List.length_map, List.length_flatten,
      List.map_congr_left (fun o member => (answers.2 o member).1)]
    simp [answers.1, inputs]
  have response : pick
    ((jointEngine engines groups size (samples config x.metaInfo) (inputsOf x)).flatten.map
      (padded config)) (blockIdx (size * samples config x.metaInfo) g) =
      (engines g (samples config x.metaInfo) (inputsOf (x.pickRows (blockIdx size g)))).flatten.map
        (padded config) := by
    rw [pick_map, ← List.flatMap_id,
      pick_flatMap_block (f := id) (fun o member => (answers.2 o member).1),
      pick_jointEngine returns _ inputs hg, inputsOf_pickRows aligned, List.flatMap_id]
  have same : part = td.pickRows (blockIdx (size * samples config x.metaInfo) g) := by
    ext1
    · rw [TensorDict.batchSize_pickRows, length_blockIdx]
      · exact partSize
      · rw [generated.batchSize, Nat.mul_assoc]
        exact blockIdx_inside hg
    · rw [partTensors]
      simp only [TensorDict.pickRows, generated.tensors]
      rw [sampleTensors_pickRows config (by rw [length_interleave positive, hidx, count])
        (by rw [length_interleave positive, hmask, count])
          (by rw [length_interleave positive, hpositions, count]),
        response, interleave_pickRows positive, interleave_pickRows positive,
        interleave_pickRows positive]
      rfl
  rw [run, same]
  rfl

end Generation

section Ranks

variable {x : Prompts Ω} {config : RolloutConfig} {engines : Nat → Engine Ω} {groups tpSize b : Nat}
  (prompts : PromptBatch config.responseLength x) (aligned : x.Aligned (groups * (tpSize * b)))
  (returns : ∀ g, (engines g).Returns config.responseLength) (tp : 0 < tpSize) (rows : 0 < b)

include aligned tp

theorem preprocessData_eq (tensors : x.batch.isSome = true) {rank : Nat}
    (hrank : rank < groups * tpSize) :
    preprocessData tpSize ((List.range (groups * tpSize)).map (fun r => x.pickRows (blockIdx b r)))
      rank = .ok (x.pickRows (blockIdx (tpSize * b) (rank / tpSize))) := by
  have total : groups * (tpSize * b) = groups * tpSize * b := (Nat.mul_assoc _ _ _).symm
  have group : rank / tpSize < groups := Nat.div_lt_of_lt_mul (by rwa [Nat.mul_comm])
  have member : ∀ j < tpSize, rank / tpSize * tpSize + j < groups * tpSize := by
    intro j hj
    calc rank / tpSize * tpSize + j < (rank / tpSize + 1) * tpSize := by rw [Nat.succ_mul]; omega
      _ ≤ groups * tpSize := Nat.mul_le_mul_right _ group
  simp only [preprocessData, pyGet_map_range _ hrank, ok_bind]
  split
  · rename_i one
    subst one
    simp
  · have gathered : ((List.range tpSize).map (fun j => rank / tpSize * tpSize + j)).mapM
        (pyGet ((List.range (groups * tpSize)).map (fun r => x.pickRows (blockIdx b r)))) =
        .ok (((List.range tpSize).map (fun j => blockIdx b (rank / tpSize * tpSize + j))).map
          (fun idx => x.pickRows idx)) := by
      rw [List.mapM_map, List.map_map]
      apply mapM_ok
      intro j hj
      exact pyGet_map_range _ (member j (List.mem_range.mp hj))
    rw [gathered, ok_bind, allGatherDataProto_pickRows aligned tensors, flatten_blockIdx_block]
    · simpa using Nat.pos_iff_ne_zero.mp tp
    · rw [total]
      exact blockIdx_inside hrank
    · intro idx hidx
      obtain ⟨j, hj, rfl⟩ := List.mem_map.mp hidx
      rw [total]
      exact blockIdx_inside (member j (List.mem_range.mp hj))
    · intro idx hidx
      obtain ⟨j, _, rfl⟩ := List.mem_map.mp hidx
      simp

omit aligned in
include rows in
theorem postprocessData_eq {y : Prompts Ω} {n : Nat} (positive : 0 < n)
    (tensors : y.batch.isSome = true) (alignedY : y.Aligned (groups * (tpSize * b) * n))
    {rank : Nat} (hrank : rank < groups * tpSize) :
    postprocessData tpSize rank (y.pickRows (blockIdx (tpSize * b * n) (rank / tpSize))) =
      .ok (y.pickRows (blockIdx (b * n) rank)) := by
  have group : rank / tpSize < groups := Nat.div_lt_of_lt_mul (by rwa [Nat.mul_comm])
  simp only [postprocessData]
  split
  · rename_i one
    subst one
    simp
  · have inside : ∀ i ∈ blockIdx (tpSize * b * n) (rank / tpSize),
        i < groups * (tpSize * b) * n := by
      rw [Nat.mul_assoc groups]
      exact blockIdx_inside group
    have alignedPart := alignedY.pickRows inside
    rw [length_blockIdx] at alignedPart
    have len : (y.pickRows (blockIdx (tpSize * b * n) (rank / tpSize))).len = tpSize * b * n := by
      obtain ⟨batch, present⟩ := Option.isSome_iff_exists.mp tensors
      simp only [DataProto.len, DataProto.pickRows, present, Option.map_some]
      rw [TensorDict.batchSize_pickRows (alignedY.batch batch present ▸ inside), length_blockIdx]
    rw [chunkAt_eq alignedPart len (Nat.mod_lt rank tp) (Nat.mul_pos rows positive)
      (Nat.mul_assoc tpSize b n), DataProto.pickRows_pickRows alignedY inside, Nat.mul_assoc tpSize,
        pick_blockIdx (Nat.mod_lt rank tp),
      Nat.div_add_mod']

include returns rows

theorem generateOnRanks_eq (positive : 0 < samples config x.metaInfo) {td : TensorDict Cell}
    (generated : Generated x config engines groups (tpSize * b) prompts td)
    (alignedY : (sampled x config td).Aligned (groups * (tpSize * b) * samples config x.metaInfo)) :
    generateOnRanks tpSize config (groups * tpSize) engines
      ((List.range (groups * tpSize)).map (fun r => x.pickRows (blockIdx b r))) =
      .ok ((List.range (groups * tpSize)).map
        (fun r => (sampled x config td).pickRows
          (blockIdx (b * samples config x.metaInfo) r))) := by
  have gathered : (List.range (groups * tpSize)).mapM (preprocessData tpSize
      ((List.range (groups * tpSize)).map (fun r => x.pickRows (blockIdx b r)))) =
      .ok ((List.range (groups * tpSize)).map (fun rank =>
        x.pickRows (blockIdx (tpSize * b) (rank / tpSize)))) :=
    mapM_ok _ _ _ (fun rank member =>
      preprocessData_eq aligned tp (by simp [prompts.present]) (List.mem_range.mp member))
  simp only [generateOnRanks, gathered, ok_bind]
  apply mapM_ok
  intro rank member
  have hrank := List.mem_range.mp member
  have group : rank / tpSize < groups := Nat.div_lt_of_lt_mul (by rwa [Nat.mul_comm])
  rw [pyGet_map_range _ hrank, ok_bind,
    generate_group prompts aligned returns generated (Nat.mul_pos tp rows) positive group, ok_bind]
  exact postprocessData_eq tp rows positive rfl alignedY hrank

theorem callJoint_eq (groupsPositive : 0 < groups) (positive : 0 < samples config x.metaInfo) :
    ∃ td out, Generated x config engines groups (tpSize * b) prompts td ∧
      (sampled x config td).Aligned (groups * (tpSize * b) * samples config x.metaInfo) ∧
      callJoint (dpComputeProto (groups * tpSize))
        (generateOnRanks tpSize config (groups * tpSize) engines)
        (.proto x) = .ok out ∧ out.SameColumns (sampled x config td) := by
  have world : 0 < groups * tpSize := Nat.mul_pos groupsPositive tp
  have size : 0 < tpSize * b := Nat.mul_pos tp rows
  obtain ⟨td, generated, alignedY⟩ :=
    exists_generated prompts aligned returns (Nat.mul_pos groupsPositive size) positive
  have len : x.len = groups * (tpSize * b) := by
    simp only [DataProto.len, prompts.present]
    exact aligned.batch _ prompts.present
  have pieces := DataProto.chunk_eq aligned len world rows (Nat.mul_assoc _ _ _).symm
  have dispatched : (dpComputeProto (groups * tpSize)).dispatch [.proto x] =
      .ok [(List.range (groups * tpSize)).map (fun r =>
        Arg.proto (x.pickRows (blockIdx b r)))] := by
    simp [dpComputeProto, splitArgs, Arg.chunk, pieces]
  have inputs : ([(List.range (groups * tpSize)).map
      (fun r => Arg.proto (x.pickRows (blockIdx b r)))].flatten).mapM Arg.materialize =
      .ok ((List.range (groups * tpSize)).map (fun r => x.pickRows (blockIdx b r))) := by
    rw [List.flatten_cons, List.flatten_nil, List.append_nil, List.mapM_map]
    exact mapM_ok _ _ _ (fun _ _ => rfl)
  have whole : ((List.range (groups * tpSize)).map
    (blockIdx (b * samples config x.metaInfo))).flatten =
      List.range (groups * (tpSize * b) * samples config x.metaInfo) := by
    rw [flatten_blockIdx]
    simp only [Nat.mul_assoc]
  obtain ⟨out, joined, same⟩ :=
    concat_outputs alignedY whole (by simpa using Nat.pos_iff_ne_zero.mp world)
    (by
      rw [List.map_map, List.forall₂_map_right_iff, List.forall₂_map_left_iff, List.forall₂_same]
      exact fun r _ => ⟨rfl, rfl⟩)
  refine ⟨td, out, generated, alignedY, ?_, same⟩
  rw [callJoint, dispatched]
  simp only [ok_bind, inputs,
    generateOnRanks_eq prompts aligned returns tp rows positive generated alignedY, dpComputeProto,
    List.length_map, List.length_range, beq_self_eq_true, pyAssert_true, pure_eq_ok]
  rw [← joined]
  rfl

end Ranks

section Rows

def cellAt (x : Prompts Ω) (key : String) (i : Nat) : Option Cell :=
  (x.batch.bind (fun batch => batch.tensors.get? key)).bind (fun column => column.rows[i]?)

def objectAt (x : Prompts Ω) (key : String) (i : Nat) : Option (Obj Ω) :=
  (x.nonTensorBatch.get? key).bind (fun column => column.rows[i]?)

/-- Row `k` of `out` holds under `key` what `f` makes of row `i` of `x` and the response. -/
def Extends (f : Cell → List Int → Py Cell) (key : String) (x out : Prompts Ω) (i k : Nat)
    (response : List Int) : Prop :=
  ∃ source cell, cellAt x key i = some source ∧ f source response = .ok cell ∧
    cellAt out key k = some cell

/-- Row `k` of `out` is the sample with the tokens `ids` of the prompt in row `i` of `x`. -/
structure SampleRow (config : RolloutConfig) (x out : Prompts Ω) (i k : Nat) (ids : List Int) :
    Prop where
  prompts : ∃ prompt, cellAt x "input_ids" i = some prompt ∧ cellAt out "prompts" k = some prompt
  responses : cellAt out "responses" k = some (.vec (padded config ids))
  inputIds : Extends seqRow "input_ids" x out i k (padded config ids)
  attentionMask : Extends (maskRow config.eosTokenId) "attention_mask" x out i k (padded config ids)
  positionIds : Extends positionRow "position_ids" x out i k (padded config ids)
  objects : ∀ key, key ≠ "raw_prompt_ids" → key ≠ "multi_modal_data" →
    objectAt out key k = objectAt x key i

theorem SampleRow.of_same {config : RolloutConfig} {x y out : Prompts Ω} {i k : Nat}
    {ids : List Int} (row : SampleRow config x y i k ids) (same : out.SameColumns y) :
    SampleRow config x out i k ids := by
  have cells : ∀ key, cellAt out key k = cellAt y key k := fun key => by
    rw [cellAt, same.batch, cellAt]
  have objects : ∀ key, objectAt out key k = objectAt y key k := fun key => by
    rw [objectAt, same.nonTensorBatch, objectAt]
  constructor
  · simpa only [cells] using row.prompts
  · simpa only [cells] using row.responses
  · simpa only [Extends, cells] using row.inputIds
  · simpa only [Extends, cells] using row.attentionMask
  · simpa only [Extends, cells] using row.positionIds
  · simpa only [objects] using row.objects

theorem interleave_row {α : Type} {n : Nat} (positive : 0 < n) (column : Column α) {i j : Nat}
    (hj : j < n) : (interleave n column).rows[i * n + j]? = column.rows[i]? := by
  rw [interleave_eq positive]
  simp only
  rw [getElem?_flatMap (fun _ _ => List.length_replicate) hj]
  cases column.rows[i]? with
  | none => rfl
  | some cell => simp [hj]

theorem extends_row {f : Cell → List Int → Py Cell} {key : String} {x out : Prompts Ω}
    {batch td : TensorDict Cell}
    (present : x.batch = some batch) (made : out.batch = some td) {source : Column Cell}
    {shape : List Nat} {n : Nat}
    {response : List (List Int)} (hsource : batch.tensors.get? key = some source)
    (hcolumn : td.tensors.get? key =
      some ⟨shape, List.zipWith (cellOf f) (interleave n source).rows response⟩)
    (positive : 0 < n) {i j : Nat} {ids : List Int} (hi : i < source.rows.length) (hj : j < n)
    (hids : response[i * n + j]? = some ids)
    (total : ∀ cell ∈ source.rows, ∃ out, f cell ids = .ok out) :
    Extends f key x out i (i * n + j) ids := by
  obtain ⟨cell, hcell⟩ : ∃ cell, source.rows[i]? = some cell := ⟨_, List.getElem?_eq_getElem hi⟩
  refine ⟨cell, cellOf f cell ids, by simp [cellAt, present, hsource, hcell],
    cellOf_ok (total cell (List.mem_of_getElem? hcell)), ?_⟩
  simp [cellAt, made, hcolumn, List.getElem?_zipWith,
    interleave_row positive source hj, hcell, hids]

variable {x : Prompts Ω} {config : RolloutConfig} {engines : Nat → Engine Ω} {groups size n : Nat}
  {prompts : PromptBatch config.responseLength x} {td : TensorDict Cell}

/-- Response `i * n + j` of the joint run is the `j`-th one that the group of prompt `i` gives to
it. -/
theorem exists_response (returns : ∀ g, (engines g).Returns config.responseLength)
    {inputs : List (VllmInput Ω)} (length : inputs.length = groups * size) {g l j : Nat}
    (hg : g < groups) (hl : l < size) (hj : j < n) :
    ∃ ids, ((engines g n (pick inputs (blockIdx size g)))[l]?).bind (·[j]?) = some ids ∧
      ids.length ≤ config.responseLength ∧
      ((jointEngine engines groups size n inputs).flatten.map (padded config))[(g * size + l) * n +
        j]? = some (padded config ids) := by
  have answers := jointEngine_answers returns n length
  have there : l < (engines g n (pick inputs (blockIdx size g))).length := by
    rw [length_group returns n length hg]
    exact hl
  obtain ⟨outputs, houtputs⟩ : ∃ o, (engines g n (pick inputs (blockIdx size g)))[l]? = some o :=
    ⟨_, List.getElem?_eq_getElem there⟩
  obtain ⟨count, short⟩ := (returns g n _).2 outputs (List.mem_of_getElem? houtputs)
  obtain ⟨ids, hids⟩ : ∃ ids, outputs[j]? = some ids := ⟨_, List.getElem?_eq_getElem (count ▸ hj)⟩
  refine ⟨ids, by simp [houtputs, hids], short ids (List.mem_of_getElem? hids), ?_⟩
  rw [List.getElem?_map, ← List.flatMap_id,
    getElem?_flatMap (f := id) (fun o member => (answers.2 o member).1) hj,
    getElem?_jointEngine returns n length hg hl, houtputs]
  simp [hids]

theorem objectAt_sampled (positive : 0 < samples config x.metaInfo) {i j : Nat}
    (hj : j < samples config x.metaInfo)
    {key : String} (notRaw : key ≠ "raw_prompt_ids") (notData : key ≠ "multi_modal_data") :
    objectAt (sampled x config td) key (i * samples config x.metaInfo + j) = objectAt x key i := by
  simp only [objectAt, sampled, Dict.get?_mapKV, leftColumns, Dict.get?_erase notData,
    Dict.get?_erase notRaw]
  cases x.nonTensorBatch.get? key with
  | none => rfl
  | some column => exact interleave_row positive column hj

theorem sampleRow_of_generated (aligned : x.Aligned (groups * size))
    (returns : ∀ g, (engines g).Returns config.responseLength)
    (positive : 0 < samples config x.metaInfo)
    (generated : Generated x config engines groups size prompts td) {g l j : Nat} (hg : g < groups)
    (hl : l < size) (hj : j < samples config x.metaInfo) :
    ∃ ids, ((engines g (samples config x.metaInfo)
      (inputsOf (x.pickRows (blockIdx size g))))[l]?).bind (·[j]?) =
        some ids ∧
      SampleRow config x (sampled x config td) (g * size + l)
        ((g * size + l) * samples config x.metaInfo + j) ids := by
  have hi : g * size + l < groups * size := by
    calc g * size + l < (g + 1) * size := by rw [Nat.succ_mul]; omega
      _ ≤ groups * size := Nat.mul_le_mul_right _ hg
  obtain ⟨ids, hids, short, response⟩ := exists_response (n := samples config x.metaInfo) returns
    (length_inputsOf prompts aligned) hg hl hj
  have wide := length_padded short
  obtain ⟨hidx, hmask, hpositions, -⟩ := prompts.length_idx aligned
  obtain ⟨prompt, hprompt⟩ : ∃ cell, prompts.idx.rows[g * size + l]? = some cell :=
    ⟨_, List.getElem?_eq_getElem (hidx ▸ hi)⟩
  refine ⟨ids, by rw [inputsOf_pickRows aligned]; exact hids,
    ⟨⟨prompt, ?_, ?_⟩, ?_, ?_, ?_, ?_, ?_⟩⟩
  · simp [cellAt, prompts.present, prompts.hidx, hprompt]
  · have column : td.tensors.get? "prompts" =
        some (interleave (samples config x.metaInfo) prompts.idx) := by
      rw [generated.tensors]
      rfl
    simp [cellAt, sampled, column, interleave_row positive prompts.idx hj, hprompt]
  · have column : td.tensors.get? "responses" = some ⟨[config.responseLength],
        ((jointEngine engines groups size (samples config x.metaInfo) (inputsOf x)).flatten.map
          (padded config)).map .vec⟩ := by
      rw [generated.tensors]
      rfl
    simp only [cellAt, sampled, Option.bind_some, column]
    rw [List.getElem?_map, response]
    rfl
  · refine extends_row prompts.present rfl prompts.hidx (by rw [generated.tensors]; rfl) positive
      (hidx ▸ hi) hj
      response ?_
    intro cell member
    obtain ⟨xs, rfl⟩ := prompts.idxRows cell member
    exact ⟨_, rfl⟩
  · refine extends_row prompts.present rfl prompts.hmask (by rw [generated.tensors]; rfl) positive
      (hmask ▸ hi) hj
      response ?_
    intro cell member
    obtain ⟨xs, rfl⟩ := prompts.maskRows cell member
    exact ⟨_, rfl⟩
  · refine extends_row prompts.present rfl prompts.hpositions
      (by rw [generated.tensors]; rfl) positive
      (hpositions ▸ hi) hj response ?_
    intro cell member
    exact positionRow_total (wide ▸ prompts.positionRows cell member)
  · exact fun key notRaw notData => objectAt_sampled positive hj notRaw notData

end Rows

theorem samples_pos {config : RolloutConfig} (positive : 1 ≤ config.n) (metaInfo : Dict MetaValue) :
    0 < samples config metaInfo := by
  unfold samples
  dsimp only
  split
  · decide
  · split
    · decide
    · exact positive

/-- Row `i * n + j` of a rollout is the `j`-th response to prompt `i`, with the tensors
and objects of prompt `i`, as in `batch.repeat(n, interleave=True)`. -/
theorem rollout_row_order {τ ω μ : Type} {x : Prompts Ω} (config : RolloutConfig)
    (prompts : PromptBatch config.responseLength x) (engines : Nat → Engine Ω)
    (returns : ∀ g, (engines g).Returns config.responseLength) {groups tpSize b : Nat}
    (group : 0 < groups) (tp : 0 < tpSize) (rows : 0 < b) (positive : 1 ≤ config.n)
    (aligned : x.Aligned (groups * (tpSize * b))) (batch : DataProto τ ω μ)
    (alignedBatch : batch.Aligned (groups * (tpSize * b))) :
    ∃ out rep,
      callJoint (dpComputeProto (groups * tpSize))
        (generateOnRanks tpSize config (groups * tpSize) engines) (.proto x) = .ok out ∧
      batch.repeat (samples config x.metaInfo) true = .ok rep ∧
      out.Aligned (groups * (tpSize * b) * samples config x.metaInfo) ∧
      rep.Aligned (groups * (tpSize * b) * samples config x.metaInfo) ∧
      ∀ g < groups, ∀ l < tpSize * b, ∀ j < samples config x.metaInfo,
        (inputsOf (x.pickRows (blockIdx (tpSize * b) g)))[l]? =
          (inputsOf x)[g * (tpSize * b) + l]? ∧
        (∃ ids, ((engines g (samples config x.metaInfo)
            (inputsOf (x.pickRows (blockIdx (tpSize * b) g))))[l]?).bind (·[j]?) = some ids ∧
          SampleRow config x out (g * (tpSize * b) + l)
            ((g * (tpSize * b) + l) * samples config x.metaInfo + j) ids) ∧
        rep.pickRows [(g * (tpSize * b) + l) * samples config x.metaInfo + j] =
          batch.pickRows [g * (tpSize * b) + l] := by
  have some := samples_pos positive x.metaInfo
  obtain ⟨td, out, generated, alignedY, run, same⟩ :=
    callJoint_eq prompts aligned returns tp rows group some
  have alignedRep :=
    alignedBatch.pickRows (DataProto.repeatIdx_inside _ (samples config x.metaInfo) true)
  rw [DataProto.length_repeatIdx] at alignedRep
  refine ⟨out, _, run, DataProto.repeat_eq alignedBatch _ (.inl rfl), same.aligned alignedY,
    alignedRep, ?_⟩
  intro g hg l hl j hj
  have hi : g * (tpSize * b) + l < groups * (tpSize * b) := by
    calc g * (tpSize * b) + l < (g + 1) * (tpSize * b) := by rw [Nat.succ_mul]; omega
      _ ≤ groups * (tpSize * b) := Nat.mul_le_mul_right _ hg
  refine ⟨?_, ?_, ?_⟩
  · rw [inputsOf_pickRows aligned, getElem?_pick (by
      rw [length_inputsOf prompts aligned]
      exact blockIdx_inside hg), blockIdx_eq_map, List.getElem?_map, List.getElem?_range hl]
    rfl
  · obtain ⟨ids, answer, row⟩ := sampleRow_of_generated aligned returns some generated hg hl hj
    exact ⟨ids, answer, row.of_same same⟩
  · rw [DataProto.pickRows_pickRows alignedBatch (DataProto.repeatIdx_inside _ _ true),
      DataProto.pick_repeatIdx hi hj]

def fourPrompts : Prompts String where
  batch := some ⟨4, ⟨[
    ("input_ids", ⟨[1], [.vec [11], .vec [12], .vec [13], .vec [14]]⟩),
    ("attention_mask", ⟨[1], [.vec [1], .vec [1], .vec [1], .vec [1]]⟩),
    ("position_ids", ⟨[1], [.vec [0], .vec [0], .vec [0], .vec [0]]⟩)], by decide⟩, by decide⟩
  nonTensorBatch := ⟨[
    ("raw_prompt_ids", ⟨[], [.tokens [11], .tokens [12], .tokens [13], .tokens [14]]⟩),
    ("multi_modal_inputs", ⟨[], [.object "a", .object "b", .object "c", .object "d"]⟩)], by decide⟩
  metaInfo := .empty

def fourPromptsBatch : PromptBatch 2 fourPrompts where
  batch := _
  present := rfl
  idx := _
  attentionMask := _
  positionIds := _
  raw := _
  hidx := rfl
  hmask := rfl
  hpositions := rfl
  hraw := rfl
  keys := by decide
  idxRows := by simp
  maskRows := by simp
  positionRows := by simp [PositionsFit]

def twoSamples : RolloutConfig := ⟨2, 2, 0, [2]⟩

def countingEngine : Engine String := fun n inputs =>
  inputs.map (fun _ => (List.range n).map (fun j : Nat => [(j : Int)]))

theorem countingEngine_returns : countingEngine.Returns 2 := by
  intro n inputs
  constructor
  · simp [countingEngine]
  · intro o member
    obtain ⟨_, _, rfl⟩ := List.mem_map.mp member
    constructor
    · simp
    · intro ids hids
      obtain ⟨j, _, rfl⟩ := List.mem_map.mp hids
      simp

theorem fourPrompts_aligned : fourPrompts.Aligned 4 where
  batch := by
    rintro batch ⟨⟩
    rfl
  nonTensorBatch := by decide

theorem rollout_row_order_fourPrompts : ∃ out rep,
    callJoint (dpComputeProto (2 * 2))
      (generateOnRanks 2 twoSamples (2 * 2) (fun _ => countingEngine))
      (.proto fourPrompts) = .ok out ∧
    fourRows.repeat 2 true = .ok rep ∧ out.Aligned (2 * (2 * 1) * 2) ∧
      rep.Aligned (2 * (2 * 1) * 2) ∧
    ∀ g < 2, ∀ l < 2 * 1, ∀ j < 2,
      (inputsOf (fourPrompts.pickRows (blockIdx (2 * 1) g)))[l]? =
        (inputsOf fourPrompts)[g * (2 * 1) + l]? ∧
      (∃ ids, ((countingEngine 2 (inputsOf (fourPrompts.pickRows (blockIdx (2 * 1) g))))[l]?).bind
        (·[j]?) = some ids ∧
        SampleRow twoSamples fourPrompts out (g * (2 * 1) + l) ((g * (2 * 1) + l) * 2 + j) ids) ∧
      rep.pickRows [(g * (2 * 1) + l) * 2 + j] = fourRows.pickRows [g * (2 * 1) + l] :=
  rollout_row_order twoSamples fourPromptsBatch (fun _ => countingEngine) (fun _ =>
    countingEngine_returns)
    (by decide) (by decide) (by decide) (by decide) fourPrompts_aligned fourRows fourRows_aligned

end Verl.Rollout
