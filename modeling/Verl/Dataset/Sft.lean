import Verl.Dataset.Fit

/-! `SFTDataset.__getitem__`. The lengths of the prompt and of the response are taken before the
truncation and index the loss mask after it. -/
namespace Verl.Dataset

structure SFTDataset where
  prompts : List String
  responses : List String
  tokenizer : Tokenizer
  maxLength : Nat
  truncation : Truncation

structure SFTItem where
  inputIds : List Int
  attentionMask : List Nat
  positionIds : List Nat
  lossMask : List Nat
  deriving DecidableEq

def SFTDataset.tokenIds (dataset : SFTDataset) (item : Nat) : Py (List Int × List Int) := do
  let tokenizer := dataset.tokenizer
  let prompt ← pyGet dataset.prompts item
  let response ← pyGet dataset.responses item
  let promptChatStr := tokenizer.applyChatTemplate [⟨"user", prompt⟩]
  let responseChatStr := response ++ tokenizer.eosToken
  return (tokenizer.encode false promptChatStr, tokenizer.encode false responseChatStr)

def zeroUpTo (stop : Nat) (mask : List Nat) : List Nat :=
  List.replicate (min stop mask.length) 0 ++ mask.drop stop

/-- The loss mask of a row with this attention mask. On an empty mask the slice that ends at -1 is
empty too. -/
def lossMask (promptLength responseLength : Nat) (attentionMask : List Nat) : Py (List Nat) :=
  let size := attentionMask.length
  let mask := if promptLength > 1 then zeroUpTo (min promptLength size - 1) attentionMask
    else attentionMask
  -- without any token the index is -1, the last place of the padding
  pySetItem mask ((min (promptLength + responseLength) size : Nat) - 1 : Int) 0

def SFTDataset.getItem (dataset : SFTDataset) (item : Nat) : Py SFTItem := do
  let (promptIds, responseIds) ← dataset.tokenIds item
  let inputIds ← fit dataset.maxLength dataset.truncation false dataset.tokenizer.padTokenId
    (promptIds ++ responseIds)
  let attentionMask ← fit dataset.maxLength dataset.truncation false 0
    (onesLike promptIds ++ onesLike responseIds)
  let mask ← lossMask promptIds.length responseIds.length attentionMask
  return ⟨inputIds, attentionMask, computePositionIdWithMask attentionMask, mask⟩

inductive Source where
  | prompt
  | response
  | padding
  deriving DecidableEq

def sourceAt (promptLength responseLength j : Nat) : Source :=
  if j < promptLength then .prompt else if j < promptLength + responseLength then
    .response else .padding

/-- The tokens of the row, each with the part of the example that it comes from. -/
def keptTokens (dataset : SFTDataset) (promptIds responseIds : List Int) :
    Py (List (Source × Int)) :=
  fit dataset.maxLength dataset.truncation false (.padding, dataset.tokenizer.padTokenId)
    (promptIds.map (Prod.mk .prompt) ++ responseIds.map (Prod.mk .response))

/-- The loss mask marks the positions before the response tokens of the row, and what the trainer
leaves of it, `loss_mask[:, :-1]`, selects these tokens among the shifted labels. -/
structure TrainsResponse (maxLength : Nat) (kept : List (Source × Int)) (mask : List Nat) :
    Prop where
  marks : ∀ t < mask.length, mask[t]? = some 1 ↔
    t + 1 < maxLength ∧ (kept[t + 1]?).map Prod.fst = some Source.response
  trained : mask.dropLast = kept.tail.map (fun token => if token.1 = .response then 1 else 0)

section LossMask

variable {promptLength responseLength : Nat} {attentionMask mask : List Nat}

theorem length_zeroUpTo (stop : Nat) (mask : List Nat) :
    (zeroUpTo stop mask).length = mask.length := by
  simp [zeroUpTo]
  omega

theorem getElem?_zeroUpTo (stop t : Nat) (mask : List Nat) (inside : t < mask.length) :
    (zeroUpTo stop mask)[t]? = if t < stop then some 0 else mask[t]? := by
  unfold zeroUpTo
  split
  · rename_i below
    rw [List.getElem?_append_left (by simp; omega), List.getElem?_replicate, if_pos (by omega)]
  · rename_i above
    rw [List.getElem?_append_right (by simp; omega), List.getElem?_drop, List.length_replicate]
    congr 1
    omega

theorem pySetItem_last {mask result : List Nat} {n : Nat}
    (run : pySetItem mask ((min n mask.length : Nat) - 1 : Int) 0 = .ok result) :
    0 < mask.length ∧ result = mask.set (if n = 0 then mask.length - 1
      else min n mask.length - 1) 0 := by
  unfold pySetItem pySet at run
  split at run
  · rename_i nonneg
    have index : ((min n mask.length : Nat) - 1 : Int).toNat = min n mask.length - 1 := by omega
    rw [index] at run
    rw [if_pos (by omega)] at run
    injection run with run
    refine ⟨by omega, ?_⟩
    rw [if_neg (by omega), run]
  · rename_i negative
    have zero : min n mask.length = 0 := by omega
    rw [zero] at run
    simp at run
    split at run
    · rename_i nonempty
      rw [if_pos (by omega)] at run
      injection run with run
      refine ⟨by omega, ?_⟩
      rw [if_pos (by omega), run]
    · cases run

/-- Without padding or truncation in the way, a place keeps its attention unless it is before the
last prompt token or holds the last token. -/
theorem lossMask_spec (run : lossMask promptLength responseLength attentionMask = .ok mask) :
    0 < attentionMask.length ∧ mask.length = attentionMask.length ∧
      ∀ t < attentionMask.length, mask[t]? =
      if (1 < promptLength ∧ t + 1 < min promptLength attentionMask.length) ∨
          t + 1 = min (promptLength + responseLength) attentionMask.length ∨
          (promptLength + responseLength = 0 ∧ t + 1 = attentionMask.length) then some 0
      else attentionMask[t]? := by
  unfold lossMask at run
  simp only at run
  generalize cleared :
    (if promptLength > 1 then zeroUpTo (min promptLength attentionMask.length - 1) attentionMask
    else attentionMask) = before at run
  have size : before.length = attentionMask.length := by
    rw [← cleared]
    split
    · exact length_zeroUpTo _ _
    · rfl
  rw [← size] at run
  obtain ⟨nonempty, rfl⟩ := pySetItem_last run
  rw [size] at nonempty ⊢
  refine ⟨nonempty, by rw [List.length_set, size], ?_⟩
  intro t inside
  rw [List.getElem?_set]
  have entry : before[t]? = if 1 < promptLength ∧ t + 1 < min promptLength attentionMask.length then
      some 0 else attentionMask[t]? := by
    rw [← cleared]
    by_cases long : promptLength > 1
    · rw [if_pos long, getElem?_zeroUpTo _ _ _ inside]
      congr 1
      apply propext
      omega
    · rw [if_neg long, if_neg (by omega)]
  by_cases last : (if promptLength + responseLength = 0 then attentionMask.length - 1
      else min (promptLength + responseLength) attentionMask.length - 1) = t
  · rw [if_pos last, if_pos (by omega), if_pos]
    split at last <;> omega
  · rw [if_neg last, entry]
    congr 1
    apply propext
    split at last <;> omega

end LossMask

section Row

variable {dataset : SFTDataset} {promptIds responseIds : List Int}

theorem sourceAt_min (promptLength responseLength j : Nat) :
    sourceAt promptLength responseLength (min j (promptLength + responseLength)) =
      sourceAt promptLength responseLength j := by
  by_cases inside : j ≤ promptLength + responseLength
  · rw [Nat.min_eq_left inside]
  · rw [Nat.min_eq_right (by omega)]
    simp [sourceAt, show ¬j < promptLength by omega,
      show ¬j < promptLength + responseLength by omega]

theorem sourceAt_eq_response_iff (promptLength responseLength j : Nat) :
    sourceAt promptLength responseLength j = .response ↔
      promptLength ≤ j ∧ j < promptLength + responseLength := by
  unfold sourceAt
  split
  · simp
    omega
  · split
    · simp
      omega
    · simp
      omega

theorem getD_tokens (promptIds responseIds : List Int) (pad : Int) (j : Nat) :
    ((promptIds.map (Prod.mk Source.prompt) ++ responseIds.map (Prod.mk Source.response)).getD j
      (.padding, pad)).1 = sourceAt promptIds.length responseIds.length j := by
  unfold sourceAt
  rw [List.getD_eq_getElem?_getD]
  by_cases first : j < promptIds.length
  · rw [if_pos first, List.getElem?_append_left (by simpa using first)]
    simp [first]
  · rw [if_neg first, List.getElem?_append_right (by simpa using first)]
    by_cases second : j < promptIds.length + responseIds.length
    · rw [if_pos second]
      simp [show j - promptIds.length < responseIds.length by omega]
    · rw [if_neg second]
      simp [show responseIds.length ≤ j - promptIds.length by omega]

/-- The columns of a row that did not raise, over the window of kept positions. -/
theorem getItem_window {item : Nat} {row : SFTItem} (run : dataset.getItem item = .ok row)
    (encoded : dataset.tokenIds item = .ok (promptIds, responseIds)) :
    ∃ kept offset size, keptTokens dataset promptIds responseIds = .ok kept ∧
      row.inputIds = kept.map Prod.snd ∧
      Window dataset.maxLength dataset.truncation
        (promptIds.length + responseIds.length) offset size ∧
      kept.length = size ∧
      (∀ t < size, (kept[t]?).map Prod.fst =
        some (sourceAt promptIds.length responseIds.length (offset + t))) ∧
      row.attentionMask = (List.range size).map
        (fun t => if offset + t < promptIds.length + responseIds.length then 1 else 0) ∧
      lossMask promptIds.length responseIds.length row.attentionMask = .ok row.lossMask := by
  simp only [SFTDataset.getItem, encoded, ok_bind] at run
  obtain ⟨inputIds, ids, run⟩ := bind_ok_iff.mp run
  obtain ⟨attentionMask, attention, run⟩ := bind_ok_iff.mp run
  obtain ⟨mask, loss, run⟩ := bind_ok_iff.mp run
  cases run
  rw [fit_eq_positions] at attention
  have lengths : (onesLike promptIds ++ onesLike responseIds).length =
    promptIds.length + responseIds.length := by simp [onesLike]
  rw [lengths] at attention
  cases positions : fit dataset.maxLength dataset.truncation false
    (promptIds.length + responseIds.length)
      (List.range (promptIds.length + responseIds.length)) with
  | error e =>
    rw [positions] at attention
    cases attention
  | ok places =>
    obtain ⟨offset, size, window, rfl⟩ := fit_positions positions
    rw [positions] at attention
    injection attention with attention
    have tokens : keptTokens dataset promptIds responseIds = .ok ((List.range size).map (fun t =>
        (promptIds.map (Prod.mk Source.prompt) ++ responseIds.map (Prod.mk Source.response)).getD
          (min (offset + t) (promptIds.length + responseIds.length)) (.padding,
            dataset.tokenizer.padTokenId))) := by
      unfold keptTokens
      rw [fit_eq_positions]
      simp [positions, Except.map]
    have plain : promptIds ++ responseIds =
        (promptIds.map (Prod.mk Source.prompt) ++ responseIds.map (Prod.mk Source.response)).map
          Prod.snd := by
      simp [Function.comp_def]
    rw [plain, fit_map Prod.snd _ _ _ (Source.padding, dataset.tokenizer.padTokenId)] at ids
    unfold keptTokens at tokens
    rw [tokens] at ids
    injection ids with ids
    refine ⟨_, offset, size, tokens, ids.symm, window, by simp, ?_, ?_, loss⟩
    · intro t inside
      rw [List.getElem?_map, List.getElem?_range inside, Option.map_some,
        Option.map_some, getD_tokens]
      exact congrArg some (sourceAt_min _ _ _)
    · rw [← attention, List.map_map]
      apply List.map_congr_left
      intro t _
      by_cases inside : offset + t < promptIds.length + responseIds.length
      · simp [onesLike, inside, Nat.min_eq_left (Nat.le_of_lt inside)]
      · simp [onesLike, inside, Nat.min_eq_right (Nat.not_lt.mp inside)]

section Window

variable {promptLength responseLength maxLength offset size : Nat} {kept : List (Source × Int)}
  {mask : List Nat}

def Marked (promptLength responseLength offset size t : Nat) : Prop :=
  offset + t < promptLength + responseLength ∧ ¬(1 < promptLength ∧ t + 1 < min promptLength size) ∧
    t + 1 ≠ min (promptLength + responseLength) size

theorem lossMask_entry (loss : lossMask promptLength responseLength ((List.range size).map
      (fun t => if offset + t < promptLength + responseLength then 1 else 0)) = .ok mask) :
    0 < size ∧ mask.length = size ∧ ∀ t < size,
      (Marked promptLength responseLength offset size t ∧ mask[t]? = some 1) ∨
      (¬Marked promptLength responseLength offset size t ∧ mask[t]? = some 0) := by
  obtain ⟨nonempty, length, entries⟩ := lossMask_spec loss
  simp only [List.length_map, List.length_range] at nonempty length entries
  refine ⟨nonempty, length, ?_⟩
  intro t inside
  rw [entries t inside]
  simp only [List.getElem?_map, List.getElem?_range inside, Option.map_some, Marked]
  split
  · right
    exact ⟨by omega, rfl⟩
  · split
    · left
      exact ⟨by omega, rfl⟩
    · right
      exact ⟨by omega, rfl⟩

theorem dropLast_eq_map_tail_iff {α β : Type} {f : α → β} {xs : List β} {ys : List α}
    (same : xs.length = ys.length) :
    xs.dropLast = ys.tail.map f ↔ ∀ t, t + 1 < ys.length → xs[t]? = (ys[t + 1]?).map f := by
  constructor
  · intro equal t inside
    have entry := congrArg (fun zs => zs[t]?) equal
    simp only [List.getElem?_map, List.getElem?_tail] at entry
    rw [← entry, List.getElem?_dropLast, if_pos (by omega)]
  · intro entries
    apply List.ext_getElem?
    intro t
    rw [List.getElem?_dropLast, List.getElem?_map, List.getElem?_tail]
    split
    · exact entries t (by omega)
    · rw [List.getElem?_eq_none (by omega), Option.map_none]

theorem trainsResponse_iff_marked (length : kept.length = size)
    (sources : ∀ t < size,
      (kept[t]?).map Prod.fst = some (sourceAt promptLength responseLength (offset + t)))
    (loss : lossMask promptLength responseLength ((List.range size).map
      (fun t => if offset + t < promptLength + responseLength then 1 else 0)) = .ok mask) :
    TrainsResponse maxLength kept mask ↔
      (∀ t < size, Marked promptLength responseLength offset size t ↔
        t + 1 < maxLength ∧ t + 1 < size ∧
        promptLength ≤ offset + (t + 1) ∧ offset + (t + 1) < promptLength + responseLength) ∧
      ∀ t, t + 1 < size → (Marked promptLength responseLength offset size t ↔
        promptLength ≤ offset + (t + 1) ∧ offset + (t + 1) < promptLength + responseLength) := by
  obtain ⟨nonempty, same, entries⟩ := lossMask_entry loss
  have one : ∀ t < size, mask[t]? = some 1 ↔ Marked promptLength responseLength offset size t := by
    intro t inside
    rcases entries t inside with ⟨marked, entry⟩ | ⟨unmarked, entry⟩
    · simp [entry, marked]
    · simp [entry, unmarked]
  have response : ∀ t, (kept[t + 1]?).map Prod.fst = some Source.response ↔ t + 1 < size ∧
      promptLength ≤ offset + (t + 1) ∧ offset + (t + 1) < promptLength + responseLength := by
    intro t
    by_cases inside : t + 1 < size
    · rw [sources _ inside, Option.some.injEq, sourceAt_eq_response_iff]
      simp [inside]
    · rw [List.getElem?_eq_none (by omega)]
      simp [inside]
  have marks : (∀ t < mask.length, mask[t]? = some 1 ↔
    t + 1 < maxLength ∧ (kept[t + 1]?).map Prod.fst = some Source.response) ↔
      ∀ t < size, Marked promptLength responseLength offset size t ↔
        t + 1 < maxLength ∧ t + 1 < size ∧
        promptLength ≤ offset + (t + 1) ∧ offset + (t + 1) < promptLength + responseLength := by
    rw [same]
    apply forall₂_congr
    intro t inside
    rw [one t inside, response t]
  have trained : mask.dropLast = kept.tail.map (fun token => if token.1 = .response then 1 else 0) ↔
      ∀ t, t + 1 < size → (Marked promptLength responseLength offset size t ↔
        promptLength ≤ offset + (t + 1) ∧ offset + (t + 1) < promptLength + responseLength) := by
    rw [dropLast_eq_map_tail_iff (same.trans length.symm), length]
    apply forall₂_congr
    intro t inside
    obtain ⟨token, entry⟩ : ∃ token, kept[t + 1]? = some token :=
      ⟨_, List.getElem?_eq_getElem (by omega)⟩
    have source := response t
    rw [entry] at source
    simp only [Option.map_some, Option.some.injEq, inside, true_and] at source
    rw [entry, Option.map_some, ← source]
    rcases entries t (by omega) with ⟨marked, value⟩ | ⟨unmarked, value⟩
    · simp [value, marked]
    · simp [value, unmarked]
  rw [← marks, ← trained]
  exact ⟨fun law => ⟨law.marks, law.trained⟩, fun both => ⟨both.1, both.2⟩⟩

/-- Both parts of the law fail together: left truncation shifts the response under a mask that still
counts from the start of the prompt. -/
theorem marked_iff
    (window : Window maxLength truncation (promptLength + responseLength) offset size)
    (nonempty : 0 < size) :
    ((∀ t < size, Marked promptLength responseLength offset size t ↔
      t + 1 < maxLength ∧ t + 1 < size ∧
        promptLength ≤ offset + (t + 1) ∧ offset + (t + 1) < promptLength + responseLength) ∧
      ∀ t, t + 1 < size → (Marked promptLength responseLength offset size t ↔
        promptLength ≤ offset + (t + 1) ∧ offset + (t + 1) < promptLength + responseLength)) ↔
    ¬(truncation = .left ∧ maxLength < promptLength + responseLength ∧ 1 ≤ responseLength ∧
      ((2 ≤ maxLength ∧ 2 ≤ promptLength) ∨
        (maxLength = 0 ∧ 2 ≤ promptLength + responseLength))) := by
  constructor
  · rintro ⟨marks, -⟩ ⟨rfl, long, some, ⟨two, prompt⟩ | ⟨rfl, tokens⟩⟩
    · obtain ⟨rfl, rfl⟩ := window.left rfl long (by omega)
      have here := marks (min promptLength size - 2) (by omega)
      unfold Marked at here
      omega
    · obtain ⟨rfl, rfl⟩ := window.whole rfl long rfl
      have here := marks (promptLength - 1) (by omega)
      unfold Marked at here
      omega
  · intro fine
    by_cases cut : truncation = .left ∧ maxLength < promptLength + responseLength
    · obtain ⟨rfl, long⟩ := cut
      by_cases zero : maxLength = 0
      · obtain ⟨rfl, rfl⟩ := window.whole rfl long zero
        simp [long] at fine
        constructor <;> intro t inside <;> unfold Marked <;> omega
      · obtain ⟨rfl, rfl⟩ := window.left rfl long (by omega)
        simp [long] at fine
        constructor <;> intro t inside <;> unfold Marked <;> omega
    · obtain ⟨rfl, rfl⟩ := window.plain cut
      constructor <;> intro t inside <;> unfold Marked <;> omega

end Window

/-- For an example that does not raise, the mask is right unless left truncation cuts tokens off. It
then still clears one place for each prompt token but the last, although fewer of them are left. -/
theorem getItem_trainsResponse_iff {item : Nat} {row : SFTItem}
    (run : dataset.getItem item = .ok row)
    (encoded : dataset.tokenIds item = .ok (promptIds, responseIds)) :
    (∃ kept, keptTokens dataset promptIds responseIds = .ok kept ∧
      row.inputIds = kept.map Prod.snd ∧ TrainsResponse dataset.maxLength kept row.lossMask) ↔
    ¬(dataset.truncation = .left ∧ dataset.maxLength < promptIds.length + responseIds.length ∧
      1 ≤ responseIds.length ∧ ((2 ≤ dataset.maxLength ∧ 2 ≤ promptIds.length) ∨
        (dataset.maxLength = 0 ∧ 2 ≤ promptIds.length + responseIds.length))) := by
  obtain ⟨kept, offset, size, tokens, ids, window, length, sources, attention, loss⟩ :=
    getItem_window run encoded
  rw [attention] at loss
  rw [← marked_iff window (lossMask_entry loss).1, ← trainsResponse_iff_marked length sources loss]
  constructor
  · rintro ⟨other, found, -, law⟩
    rw [tokens] at found
    cases found
    exact law
  · intro law
    exact ⟨kept, tokens, ids, law⟩

end Row

section Samples

def sampleTokenizer : Tokenizer where
  applyChatTemplate := fun _ => "chat"
  encode := fun _ text => if text = "chat" then [1, 2, 3] else [4, 5]
  eosToken := "."
  eosTokenId := 5
  padTokenId := 0

def sampleDataset (truncation : Truncation) : SFTDataset :=
  ⟨["question"], ["answer"], sampleTokenizer, 4, truncation⟩

theorem getItem_trainsResponse_right : ∃ row, (sampleDataset .right).getItem 0 = .ok row ∧ ∃ kept,
    keptTokens (sampleDataset .right) [1, 2, 3] [4, 5] = .ok kept ∧
      row.inputIds = kept.map Prod.snd ∧ TrainsResponse 4 kept row.lossMask := by
  have run : (sampleDataset .right).getItem 0 = .ok ⟨[1, 2, 3, 4], [1, 1, 1, 1], [0, 1, 2, 3],
    [0, 0, 1, 0]⟩ := rfl
  have encoded : (sampleDataset .right).tokenIds 0 = .ok ([1, 2, 3], [4, 5]) := rfl
  exact ⟨_, run, (getItem_trainsResponse_iff run encoded).mpr (by simp [sampleDataset])⟩

/-- The first token of the response is kept at position 2 and is not trained on. -/
theorem getItem_trainsResponse_left : ∃ row, (sampleDataset .left).getItem 0 = .ok row ∧ ¬∃ kept,
    keptTokens (sampleDataset .left) [1, 2, 3] [4, 5] = .ok kept ∧
      row.inputIds = kept.map Prod.snd ∧ TrainsResponse 4 kept row.lossMask := by
  refine ⟨⟨[2, 3, 4, 5], [1, 1, 1, 1], [0, 1, 2, 3], [0, 0, 1, 0]⟩, rfl, ?_⟩
  rintro ⟨kept, tokens, -, law⟩
  have cut : keptTokens (sampleDataset .left) [1, 2, 3] [4, 5] = .ok [(.prompt, 2), (.prompt, 3),
    (.response, 4), (.response, 5)] := rfl
  rw [cut] at tokens
  cases tokens
  have here := law.marks 1 (by decide)
  simp at here

end Samples

end Verl.Dataset
