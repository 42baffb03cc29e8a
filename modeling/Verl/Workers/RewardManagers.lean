import Mathlib.Algebra.BigOperators.Group.List.Basic
import Mathlib.Data.List.MinMax
import Mathlib.Order.Nat
import Verl.Trainer.TokenTensors
import Verl.Workers.RemovePadding

/-! The three places that turn one score for each row into token level rewards: the `__call__` of
`verl/workers/reward_manager/naive.py` and `prime.py`, and
`RewardModelWorker._expand_to_token_level` of `verl/workers/fsdp_workers.py`. The managers count the
valid tokens of the response, the worker looks for the largest position id. -/
namespace Verl.Workers

open Trainer (oneAt oneAt_eq_append length_oneAt HasShape)

section Model

variable {β : Type}

def lastEntries (n : Nat) (row : List β) : List β :=
  if n = 0 then row else row.drop (row.length - n)

def setEntry (row : List β) (i : Int) (value : β) : Py (List β) :=
  if 0 ≤ i then pySet row i.toNat value
  else if 0 ≤ row.length + i then pySet row (row.length + i).toNat value
  else .error .index

def argmax (xs : List Nat) : Nat := xs.idxOf (xs.foldr max 0)

def expandTo (n : Nat) (values : List β) : Py (List β) :=
  if values.length = n then .ok values
  else match values with
    | [value] => .ok (List.replicate n value)
    | _ => .error (.runtime "shape mismatch: value tensor cannot be broadcast to indexing result")

/-- The row's entry of `torch.argmax(position_ids * attention_mask, dim=-1)`. -/
def SequenceRow.eosMaskIdx (row : SequenceRow) : Nat :=
  argmax (List.zipWith (fun position valid => if valid then position
    else 0) row.positionIds row.attentionMask)

def SequenceRow.validResponseLength (row : SequenceRow) (promptLength : Nat) : Nat :=
  (row.attentionMask.drop promptLength).count true

variable {K : Type} [Zero K]

def expandToTokenLevel (batch : MicroBatch) (scores : List K) : Py (List (List K)) := do
  let values ← expandTo batch.rows.length scores
  (batch.rows.zip values).mapM (fun (row, score) => do
    let tokenLevelScores ← pySet (List.replicate row.attentionMask.length 0) row.eosMaskIdx score
    return lastEntries batch.responseLength tokenLevelScores)

structure NonTensor (D G E : Type) where
  dataSource : D
  groundTruth : G
  extraInfo : Option E

structure RewardData (D G E : Type) where
  batch : MicroBatch
  nonTensor : List (NonTensor D G E)
  aligned : nonTensor.length = batch.rows.length

variable {D G E : Type}

structure NaiveRewardManager (D G E K : Type) where
  decode : List Nat → String
  computeScore : D → String → G → Option E → Py K

/-- `parallel_compute_score_async` gives one score for each row, or `none` where it raises an
`Exception`. -/
structure PrimeRewardManager (D G E K : Type) where
  decode : List Nat → String
  parallelComputeScore : List (String × NonTensor D G E) → Option (List K)
  oneEach : ∀ rows scores, parallelComputeScore rows = some scores → scores.length = rows.length

omit [Zero K] in
def NaiveRewardManager.score (manager : NaiveRewardManager D G E K) (promptLength : Nat)
    (row : SequenceRow) (item : NonTensor D G E) : Py K :=
  manager.computeScore item.dataSource
    (manager.decode (row.responses.take (row.validResponseLength promptLength)))
    item.groundTruth item.extraInfo

def NaiveRewardManager.scores (manager : NaiveRewardManager D G E K) (data : RewardData D G E) :
    Py (List K) :=
  (data.batch.rows.zip data.nonTensor).mapM (fun (row, item) =>
    manager.score data.batch.promptLength row item)

def NaiveRewardManager.call (manager : NaiveRewardManager D G E K) (data : RewardData D G E)
    (rmScores : Option (List (List K))) : Py (List (List K)) :=
  match rmScores with
  | some rmScores => .ok rmScores
  | none => (data.batch.rows.zip data.nonTensor).mapM (fun (row, item) => do
      let score ← manager.score data.batch.promptLength row item
      setEntry (List.replicate data.batch.responseLength 0)
        ((row.validResponseLength data.batch.promptLength : Int) - 1) score)

/-- `PrimeRewardManager.verify`. It decodes the whole response, with its padding. -/
def PrimeRewardManager.verify (manager : PrimeRewardManager D G E K) (data : RewardData D G E) :
    List K :=
  let sequences := data.batch.rows.map (fun row => manager.decode row.responses)
  (manager.parallelComputeScore (sequences.zip data.nonTensor)).getD
    (List.replicate sequences.length 0)

def PrimeRewardManager.call (manager : PrimeRewardManager D G E K) (data : RewardData D G E)
    (rmScores : Option (List (List K))) : Py (List (List K)) :=
  match rmScores with
  | some rmScores => .ok rmScores
  | none =>
    let scores := manager.verify data
    (data.batch.rows.zipIdx).mapM (fun (row, i) => do
      let score ← pyGet scores i
      setEntry (List.replicate data.batch.responseLength 0)
        ((row.validResponseLength data.batch.promptLength : Int) - 1) score)

end Model

section Rows

/-- Mask `0^left 1^valid 0^right` with a valid token in the prompt and one in the response. The
position ids count the valid tokens, from any first value; at a masked token they may be
anything. -/
structure SequenceRow.IsText (row : SequenceRow) (promptLength left valid right first : Nat) :
    Prop where
  mask : row.attentionMask =
    List.replicate left false ++ (List.replicate valid true ++ List.replicate right false)
  prompt : left < promptLength
  response : promptLength < left + valid
  counts : ∀ k < valid, row.positionIds[left + k]? = some (first + k)

/-- The last valid token of the response, counted from the response's start. -/
structure SequenceRow.LastResponseToken (row : SequenceRow) (promptLength last : Nat) : Prop where
  valid : row.attentionMask[promptLength + last]? = some true
  later : ∀ k, last < k → row.attentionMask[promptLength + k]? ≠ some true

theorem argmax_eq {xs : List Nat} {m top : Nat} (here : xs[m]? = some top)
    (less : ∀ (j : Nat) x, j < m → xs[j]? = some x → x < top) (bound : ∀ x ∈ xs, x ≤ top) :
    argmax xs = m := by
  have largest : xs.foldr max 0 = top := by
    apply Nat.le_antisymm
    · exact List.max_le_of_forall_le xs top bound
    · exact List.le_max_of_le' 0 (List.mem_of_getElem? here) (Nat.le_refl _)
  have found : xs[xs.idxOf top]? = some top := List.getElem?_idxOf (List.mem_of_getElem? here)
  rw [argmax, largest]
  apply Nat.le_antisymm
  · by_contra later
    obtain ⟨inside, value⟩ := List.getElem?_eq_some_iff.mp here
    have missed : (xs[m] == top) = false := List.not_of_lt_findIdx (Nat.lt_of_not_le later)
    simp [value] at missed
  · by_contra earlier
    exact Nat.lt_irrefl _ (less _ _ (Nat.lt_of_not_le earlier) found)

variable {row : SequenceRow} {promptLength left valid right first : Nat}

namespace SequenceRow.IsText

theorem mask_at (text : row.IsText promptLength left valid right first) (j : Nat) :
    row.attentionMask[j]? =
      if left ≤ j ∧ j < left + valid then some true else if j < left + valid + right then some false
        else none := by
  rw [text.mask]
  simp only [List.getElem?_append, List.length_replicate, List.getElem?_replicate]
  grind

theorem validResponseLength_eq (text : row.IsText promptLength left valid right first) :
    row.validResponseLength promptLength = left + valid - promptLength := by
  have before := text.prompt
  simp only [validResponseLength, text.mask, List.drop_append, List.drop_replicate,
    List.length_replicate, List.count_append, List.count_replicate]
  simp
  omega

theorem eosMaskIdx_eq (text : row.IsText promptLength left valid right first) :
    row.eosMaskIdx = left + valid - 1 := by
  have before := text.prompt
  have behind := text.response
  have counted := text.counts (valid - 1) (by omega)
  have place : left + (valid - 1) = left + valid - 1 := by omega
  rw [place] at counted
  have below : ∀ (j : Nat) x, j ≠ left + valid - 1 →
      (List.zipWith (fun position valid => if valid then position
        else 0) row.positionIds row.attentionMask)[j]? = some x →
      x < first + (valid - 1) := by
    intro j x other there
    obtain ⟨position, flag, placed, masked, rfl⟩ := List.getElem?_zipWith_eq_some.mp there
    rw [text.mask_at] at masked
    split at masked
    · rename_i run
      have here := text.counts (j - left) (by omega)
      rw [Nat.add_sub_cancel' run.1, placed] at here
      obtain rfl := Option.some.inj masked
      obtain rfl := Option.some.inj here
      rw [if_pos rfl]
      omega
    · split at masked
      · obtain rfl := Option.some.inj masked
        rw [if_neg Bool.false_ne_true]
        omega
      · cases masked
  have last : (List.zipWith (fun position valid => if valid then position else 0) row.positionIds
      row.attentionMask)[left + valid - 1]? = some (first + (valid - 1)) :=
    List.getElem?_zipWith_eq_some.mpr ⟨_, true,
      counted, by rw [text.mask_at, if_pos (by omega)], if_pos rfl⟩
  refine argmax_eq last (fun j x earlier => below j x (by omega)) (fun x member => ?_)
  obtain ⟨j, there⟩ := List.mem_iff_getElem?.mp member
  by_cases same : j = left + valid - 1
  · rw [same, last] at there
    exact (Option.some.inj there).ge
  · exact (below j x same there).le

theorem lastResponseToken (text : row.IsText promptLength left valid right first) :
    row.LastResponseToken promptLength (left + valid - promptLength - 1) := by
  have before := text.prompt
  have behind := text.response
  constructor
  · rw [text.mask_at, if_pos (by omega)]
  · intro k later
    rw [text.mask_at, if_neg (by omega)]
    split <;> simp

end SequenceRow.IsText

end Rows

section Placing

variable {K : Type} {batch : MicroBatch} {row : SequenceRow}

def lastTokenReward [Zero K] (batch : MicroBatch) (row : SequenceRow) (score : K) : List K :=
  oneAt batch.responseLength (row.validResponseLength batch.promptLength - 1) 0 score

def lastTokenRewards [Zero K] (batch : MicroBatch) (scores : List K) : List (List K) :=
  List.zipWith (lastTokenReward batch) batch.rows scores

theorem setEntry_zeros [Zero K] {length m : Nat} (positive : 0 < m)
    (inside : m ≤ length) (score : K) :
    setEntry (List.replicate length 0) ((m : Int) - 1) score =
      .ok (oneAt length (m - 1) 0 score) := by
  have index : ((m : Int) - 1).toNat = m - 1 := by omega
  rw [setEntry, if_pos (by omega), index, pySet_of_lt (by simp; omega)]
  rfl

theorem lastEntries_set [Zero K] {before length k : Nat} (inside : k < length) (score : K) :
    lastEntries length ((List.replicate (before + length) 0).set (before + k) score) =
      oneAt length k 0 score := by
  rw [lastEntries, if_neg (by omega), List.length_set, List.length_replicate, Nat.add_sub_cancel,
    List.replicate_add, List.set_append_right _ _ (by simp)]
  simp [oneAt]

theorem expandTo_same {n : Nat} {values : List K} (same : values.length = n) :
    expandTo n values = .ok values := by
  simp [expandTo, same]

/-- `rewards` holds each row's score at its last valid response token and zeros elsewhere. -/
structure AtLastTokens [AddMonoid K] (batch : MicroBatch) (scores : List K)
    (rewards : List (List K)) : Prop where
  shape : HasShape batch.rows.length batch.responseLength rewards
  rows : ∀ (i : Nat) row score reward, batch.rows[i]? = some row → scores[i]? = some score →
    rewards[i]? = some reward →
    ∃ last < batch.responseLength, row.LastResponseToken batch.promptLength last ∧
      reward = oneAt batch.responseLength last 0 score ∧ reward.sum = score

theorem sum_oneAt [AddMonoid K] {length k : Nat} (inside : k < length) (score : K) :
    (oneAt length k 0 score).sum = score := by
  rw [oneAt_eq_append inside]
  simp

def MicroBatch.IsText (batch : MicroBatch) : Prop :=
  ∀ row ∈ batch.rows, ∃ left valid right first, row.IsText batch.promptLength left valid right first

theorem validResponseLength_pos (text : batch.IsText) (member : row ∈ batch.rows) :
    0 < row.validResponseLength batch.promptLength ∧
      row.validResponseLength batch.promptLength ≤ batch.responseLength := by
  obtain ⟨left, valid, right, first, isText⟩ := text row member
  have width := batch.maskShape row member
  have behind := isText.response
  rw [isText.mask] at width
  simp only [List.length_append, List.length_replicate] at width
  rw [isText.validResponseLength_eq]
  omega

theorem atLastTokens [AddMonoid K] (text : batch.IsText) {scores : List K}
    (oneEach : scores.length = batch.rows.length) :
    AtLastTokens batch scores (lastTokenRewards batch scores) := by
  refine ⟨Trainer.hasShape_zipWith rfl oneEach (fun row _ score _ => length_oneAt _ _ _ _), ?_⟩
  intro i row score reward found given there
  have member := List.mem_of_getElem? found
  obtain ⟨left, valid, right, first, isText⟩ := text row member
  have inside := validResponseLength_pos text member
  rw [lastTokenRewards, List.getElem?_zipWith, found, given] at there
  obtain rfl := Option.some.inj there
  refine ⟨_, by omega, ?_, rfl, sum_oneAt (by omega) score⟩
  rw [isText.validResponseLength_eq]
  exact isText.lastResponseToken

theorem expandToTokenLevel_eq [Zero K] (text : batch.IsText) {scores : List K}
    (oneEach : scores.length = batch.rows.length) :
    expandToTokenLevel batch scores = .ok (lastTokenRewards batch scores) := by
  rw [expandToTokenLevel, expandTo_same oneEach, ok_bind,
    lastTokenRewards, ← List.map_uncurry_zip_eq_zipWith]
  apply mapM_ok
  rintro ⟨row, score⟩ pair
  have member := (List.of_mem_zip pair).1
  obtain ⟨left, valid, right, first, isText⟩ := text row member
  have inside := validResponseLength_pos text member
  have width := batch.maskShape row member
  have index : row.eosMaskIdx =
      batch.promptLength + (row.validResponseLength batch.promptLength - 1) := by
    rw [isText.eosMaskIdx_eq, isText.validResponseLength_eq]
    have behind := isText.response
    omega
  simp only [width, index]
  rw [pySet_of_lt (by simp; omega), ok_bind, lastEntries_set (by omega)]
  rfl

variable {D G E : Type} [Zero K] {data : RewardData D G E}

theorem naive_eq (text : data.batch.IsText) (manager : NaiveRewardManager D G E K) :
    manager.call data none = (manager.scores data).map (lastTokenRewards data.batch) := by
  have rows : (data.batch.rows.zip data.nonTensor).map Prod.fst = data.batch.rows :=
    List.map_fst_zip data.aligned.ge
  have placed : List.zipWith (fun pair : SequenceRow × NonTensor D G E =>
    lastTokenReward (K := K) data.batch pair.1)
      (data.batch.rows.zip data.nonTensor) = lastTokenRewards data.batch := by
    funext scores
    rw [lastTokenRewards, ← List.zipWith_map_left, rows]
  rw [NaiveRewardManager.call, NaiveRewardManager.scores, ← placed]
  apply mapM_bind_ok
  rintro ⟨row, item⟩ pair score
  have inside := validResponseLength_pos text (List.of_mem_zip pair).1
  exact setEntry_zeros inside.1 inside.2 score

theorem length_verify (manager : PrimeRewardManager D G E K) :
    (manager.verify data).length = data.batch.rows.length := by
  rw [PrimeRewardManager.verify]
  cases computed : manager.parallelComputeScore _ with
  | none => simp
  | some scores => simpa [data.aligned] using manager.oneEach _ _ computed

theorem prime_eq (text : data.batch.IsText) (manager : PrimeRewardManager D G E K) :
    manager.call data none = .ok (lastTokenRewards data.batch (manager.verify data)) := by
  have oneEach : (manager.verify data).length = data.batch.rows.length := length_verify manager
  have read : data.batch.rows.zipIdx.mapM (fun pair => pyGet (manager.verify data) pair.2) =
      .ok (manager.verify data) := by
    rw [mapM_ok_iff, List.forall₂_iff_get]
    refine ⟨by simp [oneEach], fun i _ inside => ?_⟩
    simp [pyGet_of_lt inside]
  have placed : List.zipWith (fun pair : SequenceRow × Nat =>
    lastTokenReward (K := K) data.batch pair.1) data.batch.rows.zipIdx =
      lastTokenRewards data.batch := by
    funext scores
    rw [lastTokenRewards, ← List.zipWith_map_left, List.zipIdx_map_fst]
  have run : manager.call data none =
    (data.batch.rows.zipIdx.mapM (fun pair => pyGet (manager.verify data) pair.2)).map
      (lastTokenRewards data.batch) := by
    rw [← placed]
    apply mapM_bind_ok
    rintro ⟨row, i⟩ pair score
    have inside := validResponseLength_pos text (List.fst_mem_of_mem_zipIdx pair)
    exact setEntry_zeros inside.1 inside.2 score
  rw [run, read]
  rfl

end Placing

section Agreement

variable {D G E K : Type} [AddMonoid K]

/-- The managers and the worker put a row's score at one and the same token, the last valid one of
its response; a manager hands on the reward model's tensor when there is one. -/
theorem rewards_at_last_tokens (data : RewardData D G E) (text : data.batch.IsText)
    (naive : NaiveRewardManager D G E K) (prime : PrimeRewardManager D G E K) :
    ∃ place : List K → List (List K),
      (∀ scores, scores.length = data.batch.rows.length →
        AtLastTokens data.batch scores (place scores) ∧
        expandToTokenLevel data.batch scores = .ok (place scores) ∧
        naive.call data (some (place scores)) = .ok (place scores) ∧
          prime.call data (some (place scores)) = .ok (place scores)) ∧
      (∀ scores, naive.scores data = .ok scores → scores.length = data.batch.rows.length) ∧
      naive.call data none = (naive.scores data).map place ∧
      (prime.verify data).length = data.batch.rows.length ∧
        prime.call data none = .ok (place (prime.verify data)) := by
  refine ⟨lastTokenRewards data.batch, ?_, ?_, naive_eq text naive, length_verify prime,
    prime_eq text prime⟩
  · intro scores oneEach
    exact ⟨atLastTokens text oneEach, expandToTokenLevel_eq text oneEach, rfl, rfl⟩
  · intro scores computed
    have lengths := length_mapM_ok computed
    rwa [List.length_zip, data.aligned, Nat.min_self] at lengths

def twoAnswers : RewardData String Nat Unit where
  batch :=
    { promptLength := 2, responseLength := 3,
      rows := [⟨[0, 5], [6, 7, 0], [false, true, true, true, false], [0, 0, 1, 2, 3]⟩,
        ⟨[4, 5], [6, 0, 0], [true, true, true, false, false], [0, 1, 2, 3, 4]⟩],
      promptsShape := by decide, responsesShape := by decide, maskShape := by decide,
      positionShape := by decide }
  nonTensor := [⟨"math", 6, none⟩, ⟨"math", 7, none⟩]
  aligned := rfl

theorem twoAnswers_isText : twoAnswers.batch.IsText := by
  intro row member
  simp only [twoAnswers, List.mem_cons, List.not_mem_nil, or_false] at member
  rcases member with rfl | rfl
  · exact ⟨1, 3, 1, 0, rfl, by decide, by decide, by decide⟩
  · exact ⟨0, 3, 2, 0, rfl, by decide, by decide, by decide⟩

def truthNaive : NaiveRewardManager String Nat Unit ℤ := ⟨fun _ => "", fun _ _ truth _ => .ok truth⟩

def truthPrime : PrimeRewardManager String Nat Unit ℤ :=
  ⟨fun _ => "", fun rows => some (rows.map (fun row => (row.2.groundTruth : ℤ))), by
    intro rows scores computed
    rw [← Option.some.inj computed, List.length_map]⟩

theorem rewards_at_last_tokens_twoAnswers :
    ∃ place : List ℤ → List (List ℤ), AtLastTokens twoAnswers.batch [6, 7] (place [6, 7]) ∧
      expandToTokenLevel twoAnswers.batch [6, 7] = .ok (place [6, 7]) ∧
        truthNaive.call twoAnswers none = .ok (place [6, 7]) ∧
      truthPrime.call twoAnswers none = .ok (place [6, 7]) := by
  obtain ⟨place, spread, -, naive, -, prime⟩ :=
    rewards_at_last_tokens twoAnswers twoAnswers_isText truthNaive truthPrime
  obtain ⟨placed, worker, -, -⟩ := spread [6, 7] rfl
  exact ⟨place, placed, worker, naive, prime⟩

end Agreement

end Verl.Workers
