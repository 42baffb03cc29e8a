import Verl.Base.Replace
import Verl.Base.Text
import Verl.Dataset.Fit
import Verl.Dataset.RopeIndex
import Verl.Workers.Rollout

/-! `RLHFDataset.__getitem__`. A row of the data frame is a dict, and the method adds its tensors
and token ids to that dict. `process_image`, the image processor and the tokenizer are
parameters. -/
namespace Verl.Dataset
open Rollout (Cell)

/-- A Python object. `array` is the one-dimensional array in which pandas keeps a list, and `object`
is anything that numpy does not look into. -/
inductive PyValue (Ω : Type) where
  | object (o : Ω)
  | int (i : Int)
  | str (s : String)
  | list (items : List (PyValue Ω))
  | array (items : List (PyValue Ω))
  | dict (entries : List (String × PyValue Ω))

inductive Field (Ω : Type) where
  | tensor (cell : Cell)
  | value (v : PyValue Ω)

variable {Ω : Type}

def PyValue.tokenIds (ids : List Int) : PyValue Ω := .list (ids.map .int)

theorem PyValue.tokenIds_injective {a b : List Int}
    (same : (PyValue.tokenIds a : PyValue Ω) = .tokenIds b) : a = b := by
  injection same with same
  exact List.map_injective_iff.mpr (fun x y equal => by injection equal) same

def PyValue.getKey (key : String) : PyValue Ω → Py (PyValue Ω)
  | .dict entries => match entries.lookup key with
    | some value => .ok value
    | none => .error (.key key)
  | _ => .error (.type "object is not subscriptable")

def PyValue.get (self : PyValue Ω) (key : String) (default : PyValue Ω) : Py (PyValue Ω) :=
  match self with
  | .dict entries => .ok ((entries.lookup key).getD default)
  | _ => .error (.attribute "get")

def PyValue.items : PyValue Ω → Py (List (PyValue Ω))
  | .list items => .ok items
  | .array items => .ok items
  | _ => .error (.type "object is not iterable")

def PyValue.tolist : PyValue Ω → Py (PyValue Ω)
  | .array items => .ok (.list items)
  | _ => .error (.attribute "tolist")

def PyValue.asStr : PyValue Ω → Py String
  | .str s => .ok s
  | _ => .error (.type "expected a string")

def PyValue.messages (chat : PyValue Ω) : Py (List Message) := do
  let items ← chat.items
  items.mapM (fun message => do
    let role ← message.getKey "role"
    let content ← message.getKey "content"
    let role ← role.asStr
    let content ← content.asStr
    return ⟨role, content⟩)

structure ImageInputs (Ω : Type) where
  inputs : List (String × PyValue Ω)
  imageGridThw : Option (List GridThw)

structure Processor (Ω : Type) where
  processImage : PyValue Ω → PyValue Ω
  imageProcessor : List (PyValue Ω) → ImageInputs Ω
  imageToken : String
  tokens : RopeTokens

structure RLHFDataset (Ω : Type) where
  dataframe : List (Dict (PyValue Ω))
  tokenizer : Tokenizer
  processor : Option (Processor Ω)
  promptKey : String
  imageKey : String
  maxPromptLength : Nat
  returnRawChat : Bool
  truncation : Truncation

def expandImages (mergeLength : Nat) : List GridThw → Text → Py Text
  | [], prompt => match prompt.dropInfix? "<image>".toList with
    | none => .ok prompt
    | some _ => .error .index
  | grid :: grids, prompt => match prompt.dropInfix? "<image>".toList with
    | none => .ok prompt
    | some (before, after) => do
      let count ← pyFloorDiv (grid.t * grid.h * grid.w) mergeLength
      expandImages mergeLength grids (before ++ "<|vision_start|>".toList ++
        (List.replicate count "<|placeholder|>".toList).flatten ++ "<|vision_end|>".toList ++ after)

/-- `prompt_with_chat_template` after the branch on `image_grid_thw`. -/
def promptTokens (processor : Processor Ω) (imageGridThw : Option (List GridThw)) (prompt : Text) :
    Py Text :=
  match imageGridThw with
  | none => .ok prompt
  | some grids => do
    let expanded ← expandImages (processor.tokens.mergeSize ^ 2) grids prompt
    return replace "<|placeholder|>".toList processor.imageToken.toList expanded

/-- `tokenize_and_postprocess_data`, on the single row of the batch that the tokenizer returns. -/
def tokenizeAndPostprocessData (prompt : String) (tokenizer : Tokenizer) (maxLength : Nat)
    (padTokenId : Int) (leftPad : Bool) (truncation : Truncation) : Py (List Int × List Nat) := do
  let inputIds := tokenizer.encode false prompt
  let attentionMask := onesLike inputIds
  let inputIds ← fit maxLength truncation leftPad padTokenId inputIds
  let attentionMask ← fit maxLength truncation leftPad 0 attentionMask
  return (inputIds, attentionMask)

/-- The prompt that is tokenized, the raw prompt, and what the images add: their columns and
grid. -/
structure PromptTexts (Ω : Type) where
  prompt : String
  rawPrompt : String
  rowDict : Dict (Field Ω)
  /-- Of a multi-modal prompt: the processor's tokens and `image_grid_thw`. -/
  images : Option (RopeTokens × Option (List GridThw))

def RLHFDataset.promptTexts (dataset : RLHFDataset Ω) (rowDict : Dict (PyValue Ω))
    (template : String) : Py (PromptTexts Ω) :=
  if rowDict.contains dataset.imageKey then do
    let rawPrompt := replace "<image>".toList "<|vision_start|><|image_pad|><|vision_end|>".toList
      template.toList
    let (images, rowDict) ← rowDict.pop dataset.imageKey
    let images ← images.items
    match dataset.processor with
    | none => .error (.attribute "image_processor")
    | some processor =>
      let images := images.map processor.processImage
      let imageInputs := processor.imageProcessor images
      let rowDict := (rowDict.set "multi_modal_data" (.dict [("image", .list images)])).set
        "multi_modal_inputs" (.dict imageInputs.inputs)
      let prompt ← promptTokens processor imageInputs.imageGridThw template.toList
      return ⟨String.ofList prompt, String.ofList rawPrompt,
        rowDict.mapKV (fun _ value => .value value),
        some (processor.tokens, imageInputs.imageGridThw)⟩
  else .ok ⟨template, template, rowDict.mapKV (fun _ value => .value value), none⟩

/-- `position_ids[0]`: the row of a text prompt, and of a multi-modal one the first of the three
channels. -/
def positionIds (images : Option (RopeTokens × Option (List GridThw))) (inputIds : List Int)
    (attentionMask : List Nat) : Py Cell :=
  match images with
  | some (tokens, imageGridThw) => do
    let rope ← getRopeIndex tokens inputIds imageGridThw attentionMask
    let channel ← pyGet rope 0
    return .vec channel
  | none => .ok (.vec ((computePositionIdWithMask attentionMask).map Int.ofNat))

def rowIndex (rowDict : Dict (Field Ω)) : Py (PyValue Ω) :=
  match (rowDict.get? "extra_info").getD (.value (.dict [])) with
  | .value extra => extra.get "index" (.int 0)
  | .tensor _ => .error (.attribute "get")

def RLHFDataset.popChat (dataset : RLHFDataset Ω) (item : Nat) :
    Py (PyValue Ω × Dict (PyValue Ω)) := do
  let rowDict ← pyGet dataset.dataframe item
  rowDict.pop dataset.promptKey

def RLHFDataset.promptWithChatTemplate (dataset : RLHFDataset Ω) (chat : PyValue Ω) :
    Py String := do
  let messages ← chat.messages
  return dataset.tokenizer.applyChatTemplate messages

def fillRow (returnRawChat : Bool) (chat : PyValue Ω) (inputIds : List Int)
    (attentionMask : List Nat) (positions : Cell)
    (rawPromptIds : List Int) (rowDict : Dict (Field Ω)) : Py (Dict (Field Ω)) := do
  let rowDict := rowDict.set "input_ids" (.tensor (.vec inputIds))
  let rowDict := rowDict.set "attention_mask" (.tensor (.vec (attentionMask.map Int.ofNat)))
  let rowDict := rowDict.set "position_ids" (.tensor positions)
  let rowDict := rowDict.set "raw_prompt_ids" (.value (.tokenIds rawPromptIds))
  let rowDict ← if returnRawChat then (fun rawChat => rowDict.set "raw_prompt" (.value rawChat)) <$>
    chat.tolist else pure rowDict
  let index ← rowIndex rowDict
  return rowDict.set "index" (.value index)

def RLHFDataset.getItem (dataset : RLHFDataset Ω) (item : Nat) : Py (Dict (Field Ω)) := do
  let (chat, rowDict) ← dataset.popChat item
  let template ← dataset.promptWithChatTemplate chat
  let texts ← dataset.promptTexts rowDict template
  let (inputIds, attentionMask) ← tokenizeAndPostprocessData texts.prompt dataset.tokenizer
    dataset.maxPromptLength
    dataset.tokenizer.padTokenId true dataset.truncation
  let positions ← positionIds texts.images inputIds attentionMask
  let rawPromptIds := dataset.tokenizer.encode false texts.rawPrompt
  fillRow dataset.returnRawChat chat inputIds attentionMask positions rawPromptIds texts.rowDict

section Columns

variable {dataset : RLHFDataset Ω} {item : Nat} {row : Dict (Field Ω)}

theorem fillRow_columns {returnRawChat : Bool} {chat : PyValue Ω} {inputIds rawPromptIds : List Int}
    {attentionMask : List Nat} {positions : Cell} {rowDict : Dict (Field Ω)}
    (run : fillRow returnRawChat chat inputIds attentionMask positions rawPromptIds rowDict =
      .ok row) :
    row.get? "input_ids" = some (.tensor (.vec inputIds)) ∧
    row.get? "attention_mask" = some (.tensor (.vec (attentionMask.map Int.ofNat))) ∧
    row.get? "position_ids" = some (.tensor positions) ∧
    row.get? "raw_prompt_ids" = some (.value (.tokenIds rawPromptIds)) := by
  unfold fillRow at run
  cases returnRawChat with
  | false =>
    obtain ⟨withoutChat, same, run⟩ := bind_ok_iff.mp run
    obtain ⟨index, -, run⟩ := bind_ok_iff.mp run
    cases same
    cases run
    simp [Dict.get?_set]
  | true =>
    obtain ⟨withChat, chatRun, run⟩ := bind_ok_iff.mp run
    obtain ⟨index, -, run⟩ := bind_ok_iff.mp run
    cases run
    cases chat with
    | array items =>
      cases chatRun
      simp [Dict.get?_set]
    | _ => cases chatRun

theorem getItem_steps {chat : PyValue Ω} {rowDict : Dict (PyValue Ω)} {template : String}
    (run : dataset.getItem item = .ok row) (popped : dataset.popChat item = .ok (chat, rowDict))
    (templated : dataset.promptWithChatTemplate chat = .ok template) :
    ∃ texts inputIds attentionMask positions, dataset.promptTexts rowDict template = .ok texts ∧
      fit dataset.maxPromptLength dataset.truncation true dataset.tokenizer.padTokenId
        (dataset.tokenizer.encode false texts.prompt) = .ok inputIds ∧
      fit dataset.maxPromptLength dataset.truncation true 0
        (onesLike (dataset.tokenizer.encode false texts.prompt)) = .ok attentionMask ∧
      positionIds texts.images inputIds attentionMask = .ok positions ∧
      fillRow dataset.returnRawChat chat inputIds attentionMask positions
        (dataset.tokenizer.encode false texts.rawPrompt) texts.rowDict = .ok row := by
  simp only [RLHFDataset.getItem, popped, templated, ok_bind] at run
  obtain ⟨texts, found, run⟩ := bind_ok_iff.mp run
  obtain ⟨⟨inputIds, attentionMask⟩, tokenized, run⟩ := bind_ok_iff.mp run
  obtain ⟨positions, positioned, run⟩ := bind_ok_iff.mp run
  obtain ⟨ids, fitted, tokenized⟩ := bind_ok_iff.mp tokenized
  obtain ⟨mask, masked, tokenized⟩ := bind_ok_iff.mp tokenized
  cases tokenized
  exact ⟨texts, inputIds, attentionMask, positions, found, fitted, masked, positioned, run⟩

end Columns

section RawPrompt

/-- The ids for the engine are the ids under the mask, which the actor scores as the prompt. -/
def RawPromptMatches (row : Dict (Field Ω)) : Prop :=
  ∃ inputIds mask rawPromptIds : List Int, row.get? "input_ids" = some (.tensor (.vec inputIds)) ∧
    row.get? "attention_mask" = some (.tensor (.vec mask)) ∧
    row.get? "raw_prompt_ids" = some (.value (.tokenIds rawPromptIds)) ∧
      rawPromptIds = keep (mask.map (· == 1)) inputIds

variable {maxLength : Nat} {truncation : Truncation} {pad : Int} {ids inputIds : List Int}
  {attentionMask : List Nat}

theorem keep_ones (ids : List Int) :
    keep (((onesLike ids).map Int.ofNat).map (· == 1)) ids = ids := by
  have all : ((onesLike ids).map Int.ofNat).map (· == 1) = List.replicate ids.length true := by
    simp [onesLike, List.map_const']
  rw [all]
  exact keep_true rfl

theorem keep_fit (fitted : fit maxLength truncation true pad ids = .ok inputIds)
    (masked : fit maxLength truncation true 0 (onesLike ids) = .ok attentionMask) :
    keep ((attentionMask.map Int.ofNat).map (· == 1)) inputIds =
      if ids.length ≤ maxLength then ids else if truncation = .left then lastItems maxLength ids
        else ids.take maxLength := by
  unfold fit at fitted masked
  have length : (onesLike ids).length = ids.length := by simp [onesLike]
  rw [length] at masked
  by_cases short : ids.length < maxLength
  · rw [if_pos short] at fitted masked
    cases fitted
    cases masked
    rw [if_pos (by omega)]
    simp only [padSequenceToLength, length, if_neg (show ¬ids.length ≥ maxLength by omega), if_true,
      List.map_append]
    rw [keep_append (by simp), keep_ones]
    simp [keep_false]
  · rw [if_neg short] at fitted masked
    by_cases long : ids.length > maxLength
    · rw [if_pos long] at fitted masked
      rw [if_neg (by omega)]
      cases truncation with
      | left =>
        cases fitted
        cases masked
        have cut : lastItems maxLength (onesLike ids) = onesLike (lastItems maxLength ids) :=
          lastItems_map _ _ _
        rw [cut, keep_ones]
        rfl
      | right =>
        cases fitted
        cases masked
        have cut : (onesLike ids).take maxLength = onesLike (ids.take maxLength) :=
          List.map_take.symm
        rw [cut, keep_ones]
        rfl
      | error => cases fitted
    · rw [if_neg long] at fitted masked
      cases fitted
      cases masked
      rw [if_pos (by omega), keep_ones]

theorem eq_truncated_iff (long : maxLength < ids.length) :
    ids = (if truncation = .left then lastItems maxLength ids else ids.take maxLength) ↔
      truncation = .left ∧ maxLength = 0 := by
  constructor
  · intro same
    have lengths := congrArg List.length same
    by_cases left : truncation = .left
    · rw [if_pos left] at lengths
      refine ⟨left, ?_⟩
      unfold lastItems at lengths
      split at lengths
      · assumption
      · rw [List.length_drop] at lengths
        omega
    · rw [if_neg left, List.length_take] at lengths
      omega
  · rintro ⟨rfl, rfl⟩
    rfl

/-- The raw prompt is tokenized apart and never truncated. -/
theorem getItem_rawPromptIds_iff {dataset : RLHFDataset Ω} {item : Nat} {row : Dict (Field Ω)}
    {chat : PyValue Ω} {rowDict : Dict (PyValue Ω)} {prompt : String}
    (run : dataset.getItem item = .ok row) (popped : dataset.popChat item = .ok (chat, rowDict))
    (templated : dataset.promptWithChatTemplate chat = .ok prompt)
    (textOnly : rowDict.contains dataset.imageKey = false) :
    RawPromptMatches row ↔
      (dataset.tokenizer.encode false prompt).length ≤ dataset.maxPromptLength ∨
      (dataset.truncation = .left ∧ dataset.maxPromptLength = 0) := by
  obtain ⟨texts, inputIds, attentionMask, positions, found, fitted, masked, -, filled⟩ :=
    getItem_steps run popped templated
  rw [RLHFDataset.promptTexts, if_neg (by simp [textOnly])] at found
  cases found
  obtain ⟨idsColumn, maskColumn, -, rawColumn⟩ := fillRow_columns filled
  have kept := keep_fit fitted masked
  have matched : RawPromptMatches row ↔
      dataset.tokenizer.encode false prompt =
        keep ((attentionMask.map Int.ofNat).map (· == 1)) inputIds := by
    constructor
    · rintro ⟨ids, mask, raw, hids, hmask, hraw, same⟩
      rw [idsColumn] at hids
      rw [maskColumn] at hmask
      rw [rawColumn] at hraw
      cases hids
      cases hmask
      injection Option.some.inj hraw with hraw
      rw [PyValue.tokenIds_injective hraw]
      exact same
    · intro same
      exact ⟨_, _, _, idsColumn, maskColumn, rawColumn, same⟩
  rw [matched, kept]
  by_cases short : (dataset.tokenizer.encode false prompt).length ≤ dataset.maxPromptLength
  · simp [short]
  · rw [if_neg short, eq_truncated_iff (by omega)]
    simp [short]

/-- A prompt of three tokens, read by a tokenizer that gives each text the same three. -/
def samplePrompt (maxPromptLength : Nat) (truncation : Truncation) : RLHFDataset Unit where
  dataframe := [⟨[("prompt",
    .array [.dict [("role", .str "user"), ("content", .str "question")]])], by simp⟩]
  tokenizer := ⟨fun _ => "chat", fun _ _ => [5, 6, 7], "", 0, 0⟩
  processor := none
  promptKey := "prompt"
  imageKey := "images"
  maxPromptLength := maxPromptLength
  returnRawChat := false
  truncation := truncation

def sampleRow (inputIds attentionMask positionIds : List Int) : Dict (Field Unit) where
  entries := [("input_ids", .tensor (.vec inputIds)),
    ("attention_mask", .tensor (.vec attentionMask)), ("position_ids", .tensor (.vec positionIds)),
    ("raw_prompt_ids", .value (.tokenIds [5, 6, 7])), ("index", .value (.int 0))]
  distinct := by simp

theorem getItem_rawPromptIds_padded :
    ∃ row, (samplePrompt 4 .error).getItem 0 = .ok row ∧ RawPromptMatches row := by
  have run : (samplePrompt 4 .error).getItem 0 =
    .ok (sampleRow [0, 5, 6, 7] [0, 1, 1, 1] [0, 0, 1, 2]) := rfl
  exact ⟨_, run, (getItem_rawPromptIds_iff run rfl rfl rfl).mpr (.inl (by decide))⟩

/-- The engine answers the prompt `[5, 6, 7]`, and the actor scores the answer under `[6, 7]`. -/
theorem getItem_rawPromptIds_truncated :
    ∃ row, (samplePrompt 2 .left).getItem 0 = .ok row ∧ ¬RawPromptMatches row := by
  refine ⟨sampleRow [6, 7] [1, 1] [0, 1], rfl, ?_⟩
  rintro ⟨ids, mask, raw, hids, hmask, hraw, same⟩
  cases hids
  cases hmask
  injection Option.some.inj hraw with hraw
  rw [← PyValue.tokenIds_injective hraw] at same
  cases same

end RawPrompt

end Verl.Dataset
