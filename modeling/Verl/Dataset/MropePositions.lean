import Verl.Dataset.Rlhf

/-! The positions of a multi-modal prompt between the dataset and the consumers that read three
channels: the rollout and the actor switch to them on a tensor with three dimensions. -/
namespace Verl.Dataset
open Rollout (Cell positionRow responsePositionIds)

variable {Ω : Type}

/-- What a consumer of `(batch, 3, length)` positions reads at token `t`. -/
def tripleAt (cell : Cell) (t : Nat) : Option (List Int) :=
  match cell with
  | .vec _ => none
  | .mat channels => channels.mapM (·[t]?)

/-- The batch holds all channels of `rope`, and on every valid token the rollout and the actor read
the triple of that token. -/
structure ReceivesRope (row : Dict (Field Ω)) (mask : List Nat) (rope : List (List Int)) :
    Prop where
  stored : row.get? "position_ids" = some (.tensor (.mat rope))
  read : ∀ cell response positions, row.get? "position_ids" = some (.tensor cell) →
    positionRow cell response = .ok positions →
    ∀ t : Nat, mask[t]? = some 1 → tripleAt positions t = rope.mapM (·[t]?)

section Consumers

theorem positionRow_vec {channel response : List Int} {positions : Cell}
    (run : positionRow (.vec channel) response = .ok positions) :
    ∃ row, positions = .vec row := by
  obtain ⟨later, found, run⟩ := bind_ok_iff.mp run
  obtain ⟨ids, -, found⟩ := bind_ok_iff.mp found
  cases found
  cases run
  exact ⟨_, rfl⟩

variable {dataset : RLHFDataset Ω} {rowDict : Dict (PyValue Ω)} {template : String}
  {texts : PromptTexts Ω}

theorem promptTexts_images (run : dataset.promptTexts rowDict template = .ok texts) :
    texts.images.isSome = rowDict.contains dataset.imageKey := by
  unfold RLHFDataset.promptTexts at run
  by_cases multiModal : rowDict.contains dataset.imageKey = true
  · rw [if_pos multiModal] at run
    obtain ⟨⟨images, others⟩, -, run⟩ := bind_ok_iff.mp run
    obtain ⟨list, -, run⟩ := bind_ok_iff.mp run
    cases processing : dataset.processor with
    | none =>
      rw [processing] at run
      cases run
    | some processor =>
      rw [processing] at run
      obtain ⟨prompt, -, run⟩ := bind_ok_iff.mp run
      cases run
      exact multiModal.symm
  · rw [if_neg multiModal] at run
    cases run
    exact (Bool.eq_false_iff.mpr multiModal).symm

end Consumers

/-- For every multi-modal prompt the row gets the temporal channel alone, and every consumer takes
it for the positions of a text. -/
theorem getItem_not_receivesRope {dataset : RLHFDataset Ω} {item : Nat} {row : Dict (Field Ω)}
    {chat : PyValue Ω} {rowDict : Dict (PyValue Ω)} {template : String}
    (run : dataset.getItem item = .ok row) (popped : dataset.popChat item = .ok (chat, rowDict))
    (templated : dataset.promptWithChatTemplate chat = .ok template)
    (multiModal : rowDict.contains dataset.imageKey = true) :
    ∃ texts tokens imageGridThw inputIds attentionMask rope,
      dataset.promptTexts rowDict template = .ok texts ∧
      texts.images = some (tokens, imageGridThw) ∧
        row.get? "input_ids" = some (.tensor (.vec inputIds)) ∧
      row.get? "attention_mask" = some (.tensor (.vec (attentionMask.map Int.ofNat))) ∧
      getRopeIndex tokens inputIds imageGridThw attentionMask = .ok rope ∧
      rope.length = 3 ∧ (∀ channel ∈ rope, channel.length = inputIds.length) ∧
      (∃ temporal, rope[0]? = some temporal ∧
        row.get? "position_ids" = some (.tensor (.vec temporal)) ∧
        ∀ response positions, positionRow (.vec temporal) response = .ok positions → ∀ t,
          tripleAt positions t = none) ∧
      ¬ReceivesRope row attentionMask rope := by
  obtain ⟨texts, inputIds, attentionMask, positions, found, fitted, masked, positioned, filled⟩ :=
    getItem_steps run popped templated
  have images := promptTexts_images found
  rw [multiModal] at images
  obtain ⟨⟨tokens, imageGridThw⟩, present⟩ := Option.isSome_iff_exists.mp images
  obtain ⟨idsColumn, maskColumn, positionColumn, -⟩ := fillRow_columns filled
  rw [present] at positioned
  obtain ⟨rope, roped, positioned⟩ := bind_ok_iff.mp positioned
  obtain ⟨temporal, first, positioned⟩ := bind_ok_iff.mp positioned
  cases positioned
  have same : attentionMask.length = inputIds.length :=
    length_fit_congr (by simp [onesLike]) masked fitted
  obtain ⟨three, lengths⟩ := getRopeIndex_channels same roped
  refine ⟨texts, tokens, imageGridThw, inputIds, attentionMask, rope, found, present, idsColumn,
    maskColumn, roped, three, lengths, ⟨temporal, pyGet_ok_iff.mp first, positionColumn, ?_⟩, ?_⟩
  · intro response positions rolled t
    obtain ⟨channel, rfl⟩ := positionRow_vec rolled
    rfl
  · intro received
    have stored := received.stored
    rw [positionColumn] at stored
    cases stored

section Samples

/-- One image of two by two merged patches: a vision start, four image tokens, a vision end and a
token of text. -/
def sampleImagePrompt : RLHFDataset Unit where
  dataframe := [⟨[("prompt", .array [.dict [("role", .str "user"), ("content", .str "question")]]),
    ("images", .array [.object ()])], by simp⟩]
  tokenizer := ⟨fun _ => "<image>", fun _ _ => [1, 2, 2, 2, 2, 3, 9], "", 0, 0⟩
  processor := some ⟨id, fun _ => ⟨[], some [⟨1, 4, 4⟩]⟩, "<|image_pad|>", ⟨2, 2, 4, 1⟩⟩
  promptKey := "prompt"
  imageKey := "images"
  maxPromptLength := 8
  returnRawChat := false
  truncation := .error

def sampleRope : List (List Int) :=
  [[1, 0, 1, 1, 1, 1, 3, 4], [1, 0, 1, 1, 2, 2, 3, 4], [1, 0, 1, 2, 1, 2, 3, 4]]

theorem getItem_not_receivesRope_sample :
    ∃ row mask rope, sampleImagePrompt.getItem 0 = .ok row ∧ rope.length = 3 ∧
    ¬ReceivesRope row mask rope := by
  obtain ⟨row, run⟩ : ∃ row, sampleImagePrompt.getItem 0 = .ok row := ⟨_, rfl⟩
  obtain ⟨_, _, _, _, mask, rope, _, _, _, _, _, three, _, _, lost⟩ :=
    getItem_not_receivesRope run rfl rfl rfl
  exact ⟨row, mask, rope, run, three, lost⟩

/-- On the image the channels differ, and the row holds the first of them. -/
theorem getItem_temporal_only : ∃ row, sampleImagePrompt.getItem 0 = .ok row ∧
    getRopeIndex ⟨2, 2, 4, 1⟩ [0, 1, 2, 2, 2, 2, 3, 9] (some [⟨1, 4, 4⟩]) [0, 1, 1, 1, 1, 1, 1, 1] =
      .ok sampleRope ∧
    row.get? "input_ids" = some (.tensor (.vec [0, 1, 2, 2, 2, 2, 3, 9])) ∧
    row.get? "position_ids" = some (.tensor (.vec [1, 0, 1, 1, 1, 1, 3, 4])) ∧
    ¬ReceivesRope row [0, 1, 1, 1, 1, 1, 1, 1] sampleRope := by
  obtain ⟨row, run, ids, positions⟩ : ∃ row, sampleImagePrompt.getItem 0 = .ok row ∧
      row.get? "input_ids" = some (.tensor (.vec [0, 1, 2, 2, 2, 2, 3, 9])) ∧
      row.get? "position_ids" = some (.tensor (.vec [1, 0, 1, 1, 1, 1, 3, 4])) := ⟨_, rfl, rfl, rfl⟩
  refine ⟨row, run, rfl, ids, positions, ?_⟩
  intro received
  have stored := received.stored
  rw [positions] at stored
  cases stored

end Samples

end Verl.Dataset
