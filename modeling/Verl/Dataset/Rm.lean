import Verl.Dataset.Fit

/-! `RMDataset.__getitem__`: the two sequences of a preference pair, each padded or cut to the same
length, and the two tensors that are stacked from them. -/
namespace Verl.Dataset

structure RMDataset where
  prompts : List String
  chosenResponses : List String
  rejectedResponses : List String
  tokenizer : Tokenizer
  maxLength : Nat
  addEos : Bool

structure RMItem where
  inputIds : List (List Int)
  attentionMask : List (List Int)
  deriving DecidableEq

def padToLength (maxLength : Nat) (inputIds attentionMask : List Int) : List Int × List Int :=
  let currLength := inputIds.length
  if currLength < maxLength then
    (inputIds ++ List.replicate (maxLength - currLength) 0,
      attentionMask ++ List.replicate (maxLength - currLength) 0)
  else if currLength > maxLength then (inputIds.take maxLength, attentionMask.take maxLength)
  else (inputIds, attentionMask)

def stack (a b : List Int) : Py (List (List Int)) :=
  if a.length = b.length then
    .ok [a, b]
  else .error (.runtime "stack expects each tensor to be equal size")

/-- `chosen_input_ids` and `rejected_input_ids` before they are padded. -/
def RMDataset.sequences (dataset : RMDataset) (item : Nat) : Py (List Int × List Int) := do
  let prompt ← pyGet dataset.prompts item
  let chosenResponse ← pyGet dataset.chosenResponses item
  let rejectedResponse ← pyGet dataset.rejectedResponses item
  let encode := dataset.tokenizer.encode true
  let eos := if dataset.addEos then [dataset.tokenizer.eosTokenId] else []
  return (encode prompt ++ (encode chosenResponse ++ eos),
    encode prompt ++ (encode rejectedResponse ++ eos))

def RMDataset.getItem (dataset : RMDataset) (item : Nat) : Py RMItem := do
  let (chosen, rejected) ← dataset.sequences item
  let (chosenInputIds, _) := padToLength dataset.maxLength chosen (chosen.map (fun _ => 1))
  let (rejectedInputIds, rejectedAttentionMask) :=
    padToLength dataset.maxLength rejected (rejected.map (fun _ => 1))
  let inputIds ← stack chosenInputIds rejectedInputIds
  -- the second stack takes the rejected ids where the chosen mask belongs
  let attentionMask ← stack rejectedInputIds rejectedAttentionMask
  return ⟨inputIds, attentionMask⟩

/-- A row of ids holds the sequence, and the row of the mask marks its tokens. -/
structure MasksSequence (maxLength : Nat) (sequence ids mask : List Int) : Prop where
  idsLength : ids.length = maxLength
  maskLength : mask.length = maxLength
  tokens : ∀ t < maxLength, t < sequence.length → ids[t]? = sequence[t]?
  real : ∀ t < maxLength, mask[t]? = some 1 ↔ t < sequence.length
  padding : ∀ t < maxLength, sequence.length ≤ t → mask[t]? = some 0

/-- Both tensors have two rows of `maxLength`, and each row of the mask belongs to its own ids. -/
def MasksPair (maxLength : Nat) (chosen rejected : List Int) (row : RMItem) : Prop :=
  ∃ ids₀ ids₁ mask₀ mask₁, row.inputIds = [ids₀, ids₁] ∧ row.attentionMask = [mask₀, mask₁] ∧
    MasksSequence maxLength chosen ids₀ mask₀ ∧ MasksSequence maxLength rejected ids₁ mask₁

section Pad

variable (maxLength : Nat) (sequence : List Int)

theorem padToLength_eq (mask : List Int) (same : mask.length = sequence.length) :
    padToLength maxLength sequence mask =
      ((List.range maxLength).map (fun t => sequence.getD t 0),
        (List.range maxLength).map (fun t => mask.getD t 0)) := by
  have row : ∀ xs : List Int, xs.length < maxLength →
      xs ++ List.replicate (maxLength - xs.length) 0 =
        (List.range maxLength).map (fun t => xs.getD t 0) := by
    intro xs short
    apply List.ext_getElem
    · simp
      omega
    · intro t _ _
      by_cases inside : t < xs.length
      · simp [inside]
      · simp [List.getElem_append, inside]
  have cut : ∀ xs : List Int, maxLength ≤ xs.length →
      xs.take maxLength = (List.range maxLength).map (fun t => xs.getD t 0) := by
    intro xs long
    apply List.ext_getElem
    · simp [long]
    · intro t _ inside
      simp at inside
      simp [show t < xs.length by omega]
  unfold padToLength
  simp only
  split
  · rename_i short
    rw [row sequence short, ← row mask (same ▸ short), same]
  · split
    · rename_i long
      rw [cut sequence (by omega), cut mask (by omega)]
    · rw [← cut sequence (by omega), ← cut mask (by omega), List.take_of_length_le (by omega),
        List.take_of_length_le (by omega)]

theorem getD_ones (t : Nat) :
    (sequence.map (fun _ => (1 : Int))).getD t 0 = if t < sequence.length then 1 else 0 := by
  by_cases inside : t < sequence.length
  · simp [inside]
  · simp [inside]

end Pad

section Pair

variable {dataset : RMDataset} {item : Nat} {chosen rejected : List Int}

theorem getItem_pair (encoded : dataset.sequences item = .ok (chosen, rejected)) :
    dataset.getItem item = .ok
      ⟨[(List.range dataset.maxLength).map (fun t => chosen.getD t 0),
        (List.range dataset.maxLength).map (fun t => rejected.getD t 0)],
          [(List.range dataset.maxLength).map (fun t => rejected.getD t 0),
            (List.range dataset.maxLength).map (fun t => if t < rejected.length then 1
            else 0)]⟩ := by
  simp only [RMDataset.getItem, encoded, ok_bind]
  rw [padToLength_eq _ chosen _ (List.length_map _),
    padToLength_eq _ rejected _ (List.length_map _)]
  simp only [stack, List.length_map, List.length_range, if_true, ok_bind, getD_ones]
  rfl

variable {maxLength : Nat} {sequence : List Int} {mask : Nat → Int}

theorem masksSequence_iff :
    MasksSequence maxLength sequence ((List.range maxLength).map (fun t => sequence.getD t 0))
    ((List.range maxLength).map mask) ↔ ∀ t < maxLength, mask t = if t < sequence.length then
      1 else 0 := by
  constructor
  · intro law t inside
    have real := law.real t inside
    have padding := law.padding t inside
    simp only [List.getElem?_map, List.getElem?_range inside, Option.map_some,
      Option.some.injEq] at real padding
    split
    · rename_i token
      exact real.mpr token
    · rename_i past
      exact padding (Nat.not_lt.mp past)
  · intro entries
    have entry : ∀ t < maxLength,
        ((List.range maxLength).map mask)[t]? = some (if t < sequence.length then 1 else 0) := by
      intro t inside
      rw [List.getElem?_map, List.getElem?_range inside, Option.map_some, entries t inside]
    constructor
    · simp
    · simp
    · intro t inside token
      simp [inside, token]
    · intro t inside
      rw [entry t inside]
      split <;> simp [*]
    · intro t inside past
      rw [entry t inside, if_neg (Nat.not_lt.mpr past)]

theorem getD_eq_mark_iff (rejected : List Int) (length t : Nat) :
    rejected.getD t 0 = (if t < length then 1 else 0) ↔
      (t < length → rejected[t]? = some 1) ∧
        (length ≤ t → t < rejected.length → rejected[t]? = some 0) := by
  rw [List.getD_eq_getElem?_getD]
  by_cases token : t < rejected.length
  · rw [List.getElem?_eq_getElem token]
    split
    · rename_i inside
      simp [inside, Nat.not_le.mpr inside]
    · rename_i past
      simp [past, token, Nat.not_lt.mp past]
  · rw [List.getElem?_eq_none (Nat.not_lt.mp token)]
    split <;> simp [*]

/-- The item always has its shape. Its masks are right only for a pair whose rejected ids, read as a
mask, happen to mark the chosen sequence. -/
theorem getItem_masksPair_iff (encoded : dataset.sequences item = .ok (chosen, rejected)) :
    (∃ row, dataset.getItem item = .ok row ∧ MasksPair dataset.maxLength chosen rejected row) ↔
      (∀ t < dataset.maxLength, t < chosen.length → rejected[t]? = some 1) ∧
      ∀ t < dataset.maxLength, chosen.length ≤ t → t < rejected.length → rejected[t]? = some 0 := by
  have own : MasksSequence dataset.maxLength rejected
    ((List.range dataset.maxLength).map (fun t => rejected.getD t 0))
      ((List.range dataset.maxLength).map (fun t => if t < rejected.length then 1 else 0)) :=
    masksSequence_iff.mpr (fun _ _ => rfl)
  have crossed : MasksSequence dataset.maxLength chosen
    ((List.range dataset.maxLength).map (fun t => chosen.getD t 0))
      ((List.range dataset.maxLength).map (fun t => rejected.getD t 0)) ↔
        (∀ t < dataset.maxLength, t < chosen.length → rejected[t]? = some 1) ∧
        ∀ t < dataset.maxLength, chosen.length ≤ t → t < rejected.length →
          rejected[t]? = some 0 := by
    rw [masksSequence_iff, ← forall₂_and]
    apply forall₂_congr
    intro t _
    exact getD_eq_mark_iff rejected chosen.length t
  rw [getItem_pair encoded, ← crossed]
  constructor
  · rintro ⟨row, found, ids₀, ids₁, mask₀, mask₁, ids, masks, first, -⟩
    cases found
    cases ids
    cases masks
    exact first
  · intro first
    exact ⟨_, rfl, _, _, _, _, rfl, rfl, first, own⟩

end Pair

section Samples

def pairTokenizer : Tokenizer where
  applyChatTemplate := fun _ => ""
  encode := fun _ text => if text = "prompt" then [1] else if text = "short" then [] else [7, 8]
  eosToken := ""
  eosTokenId := 9
  padTokenId := 0

def samplePair (chosen rejected : String) : RMDataset :=
  ⟨["prompt"], [chosen], [rejected], pairTokenizer, 4, false⟩

/-- A prompt of the single token 1 with empty responses. -/
theorem getItem_masksPair_ones :
    ∃ row, (samplePair "short" "short").getItem 0 = .ok row ∧ MasksPair 4 [1] [1] row := by
  have encoded : (samplePair "short" "short").sequences 0 = .ok ([1], [1]) := rfl
  apply (getItem_masksPair_iff encoded).mpr
  constructor
  · intro t _ token
    have zero : t = 0 := by simpa using token
    simp [zero]
  · intro t _ past token
    simp at past token
    omega

theorem getItem_masksPair_crossed :
    ∃ row, (samplePair "long" "short").getItem 0 = .ok row ∧ ¬MasksPair 4 [1, 7, 8] [1] row := by
  refine ⟨⟨[[1, 7, 8, 0], [1, 0, 0, 0]], [[1, 0, 0, 0], [1, 0, 0, 0]]⟩, rfl, ?_⟩
  rintro ⟨ids₀, ids₁, mask₀, mask₁, ids, masks, first, -⟩
  cases ids
  cases masks
  have here := first.real 1 (by decide)
  simp at here

end Samples

end Verl.Dataset
