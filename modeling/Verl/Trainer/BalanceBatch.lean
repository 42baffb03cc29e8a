import Mathlib.Algebra.Field.Rat
import Mathlib.Data.Rat.Sqrt
import Verl.Protocol.Rows
import Verl.SeqlenBalancing.Partitions
import Verl.Trainer.Advantage

/-! `RayPPOTrainer._balance_batch`, and `compute_advantage` for the two estimators that
compare the responses to one prompt. The logged statistics are left out. -/
namespace Verl.Trainer
open Protocol SeqlenBalancing

inductive Cell (K : Type) where
  | bits (mask : List Bool)
  | tokens (ids : List Int)
  | values (xs : List K)
  deriving DecidableEq

inductive GroupEstimator where
  | grpo
  | rloo
  deriving DecidableEq

section Model

variable {K U μ : Type}

def Cell.asBits : Cell K → Py (List Bool)
  | .bits mask => .ok mask
  | _ => .error (.runtime "expected a mask")

def Cell.asValues : Cell K → Py (List K)
  | .values xs => .ok xs
  | _ => .error (.runtime "expected floating point values")

abbrev TrainBatch (K U μ : Type) := DataProto (Cell K) U μ

def tensor (data : TrainBatch K U μ) (key : String) : Py (Column (Cell K)) :=
  match data.batch with
  | none => .error (.attribute key)
  | some batch => batch.tensors.getItem key

def balanceBatch (worldSize : Nat) (batch : TrainBatch K U μ) : Py (TrainBatch K U μ) := do
  let attentionMask ← tensor batch "attention_mask"
  let masks ← attentionMask.rows.mapM Cell.asBits
  let globalSeqlenLst := masks.map (fun mask => mask.count true)
  let globalPartitionLst ← getSeqlenBalancedPartitions globalSeqlenLst worldSize true
  let globalIdx := globalPartitionLst.flatten
  batch.reorder globalIdx

def lastColumns {α : Type} (width : Nat) (row : List α) : List α :=
  if width = 0 then row else row.drop (row.length - width)

variable [Field K] [DecidableEq U] [ToString U]

def responseMaskRow (responseLength : Nat) (cell : Cell K) : Py (List K) := do
  let mask ← cell.asBits
  return (lastColumns responseLength mask).map (fun valid => if valid then 1 else 0)

def outcomeAdvantage (estimator : GroupEstimator) (std : List K → K) (epsilon : K)
    (tokenLevelRewards eosMask : List (List K)) (index : List U) :
    Py (List (List K) × List (List K)) :=
  match estimator with
  | .grpo => computeGrpoOutcomeAdvantage std epsilon tokenLevelRewards eosMask index
  | .rloo => computeRlooOutcomeAdvantage tokenLevelRewards eosMask index

def broadcastWidth (a b : Nat) : Nat := if a = 1 then b else a

/-- `data.batch['advantages'] = advantages`, and the returns. -/
def storeAdvantages (data : TrainBatch K U μ) (width : Nat)
    (results : List (List K) × List (List K)) :
    Py (TrainBatch K U μ) :=
  match data.batch with
  | none => .error (.type "'NoneType' object does not support item assignment")
  | some batch => do
    let batch ← batch.setItem "advantages" ⟨[width], results.1.map .values⟩
    let batch ← batch.setItem "returns" ⟨[width], results.2.map .values⟩
    return { data with batch := some batch }

def computeAdvantage (estimator : GroupEstimator) (std : List K → K) (epsilon : K)
    (data : TrainBatch K U μ) :
    Py (TrainBatch K U μ) := do
  let tokenLevelRewards ← tensor data "token_level_rewards"
  let index ← data.nonTensorBatch.getItem "uid"
  let responses ← tensor data "responses"
  let responseLength := responses.shape.getLastD 0
  let attentionMask ← tensor data "attention_mask"
  let rewards ← tokenLevelRewards.rows.mapM Cell.asValues
  let responseMask ← attentionMask.rows.mapM (responseMaskRow responseLength)
  let results ← outcomeAdvantage estimator std epsilon rewards responseMask index.rows
  let maskWidth := if responseLength = 0 then attentionMask.shape.getLastD 0
    else min responseLength (attentionMask.shape.getLastD 0)
  storeAdvantages data (broadcastWidth (tokenLevelRewards.shape.getLastD 0) maskWidth) results

end Model

section Balance

variable {K U μ : Type}

theorem tensor_ok {batch : TrainBatch K U μ} {key : String} {column : Column (Cell K)}
    (found : tensor batch key = .ok column) :
    ∃ td, batch.batch = some td ∧ (key, column) ∈ td.tensors.entries := by
  unfold tensor at found
  cases present : batch.batch with
  | none =>
    rw [present] at found
    cases found
  | some td =>
    rw [present] at found
    exact ⟨td, rfl, Dict.mem_of_getItem found⟩

theorem tensor_rows {n : Nat} {batch : TrainBatch K U μ} (aligned : batch.Aligned n) {key : String}
    {column : Column (Cell K)} (found : tensor batch key = .ok column) :
    column.rows.length = n := by
  obtain ⟨td, present, member⟩ := tensor_ok found
  rw [← aligned.batch td present]
  exact td.aligned _ member

theorem balanceBatch_reorders {worldSize n : Nat} {batch balanced : TrainBatch K U μ}
    (aligned : batch.Aligned n) (run : balanceBatch worldSize batch = .ok balanced) :
    ∃ p : List Nat, p.Perm (List.range n) ∧ balanced = batch.pickRows p := by
  simp only [balanceBatch, bind_ok_iff] at run
  obtain ⟨attentionMask, found, masks, read, partitions, partitioned, reordered⟩ := run
  have count : (masks.map (fun mask => mask.count true)).length = n := by
    rw [List.length_map, length_mapM_ok read, tensor_rows aligned found]
  obtain ⟨positive, enough, divides⟩ := divides_of_balanced partitioned
  obtain ⟨state, returned, flat, -, -⟩ :=
    getSeqlenBalancedPartitions_spec _ worldSize true positive enough (fun _ => divides)
  have perm : partitions.flatten.Perm (List.range n) := by
    cases Except.ok.inj (partitioned.symm.trans returned)
    rw [← count]
    exact (sorted_flatten_perm _).trans flat
  obtain ⟨td, present, -⟩ := tensor_ok found
  rw [DataProto.reorder_eq aligned (by simp [present]) perm] at reordered
  exact ⟨_, perm, (Except.ok.inj reordered).symm⟩

end Balance

section Permuted

variable {K U μ : Type} {n : Nat} {p : List Nat} (perm : p.Perm (List.range n))

theorem tensor_pickRows (data : TrainBatch K U μ) (key : String) :
    tensor (data.pickRows p) key = (tensor data key).map (Column.pickRows p) := by
  unfold tensor DataProto.pickRows
  cases data.batch with
  | none => rfl
  | some batch => exact Dict.getItem_mapKV _ _ key

theorem asValues_error (cell : Cell K) {error : PyError} (raised : cell.asValues = .error error) :
    error = .runtime "expected floating point values" := by
  cases cell with
  | bits mask => cases raised; rfl
  | tokens ids => cases raised; rfl
  | values xs => cases raised

variable [Field K]

theorem responseMaskRow_error (responseLength : Nat) (cell : Cell K) {error : PyError}
    (raised : responseMaskRow responseLength cell = .error error) :
    error = .runtime "expected a mask" := by
  cases cell with
  | bits mask => cases raised
  | tokens ids => cases raised; rfl
  | values xs => cases raised; rfl

variable [DecidableEq U] [ToString U] {std : List K → K}
  (symmetric : ∀ a b : List K, a.Perm b → std a = std b) (estimator : GroupEstimator) (epsilon : K)

include perm symmetric

theorem outcomeAdvantage_pick {tokenLevelRewards eosMask : List (List K)} {index : List U}
    (rewardRows : tokenLevelRewards.length = n) (maskRows : eosMask.length = n)
    (indexRows : index.length = n) :
    outcomeAdvantage estimator std epsilon (pick tokenLevelRewards p) (pick eosMask p)
      (pick index p) = (outcomeAdvantage estimator std epsilon tokenLevelRewards eosMask index).map
        (fun results => (pick results.1 p, pick results.2 p)) := by
  have inside := perm_inside perm
  have picked : (pick index p).length = (pick tokenLevelRewards p).length := by
    rw [length_pick (indexRows ▸ inside), length_pick (rewardRows ▸ inside)]
  cases estimator with
  | grpo =>
    unfold outcomeAdvantage
    rw [computeGrpoOutcomeAdvantage_eq picked,
      computeGrpoOutcomeAdvantage_eq (indexRows.trans rewardRows.symm)]
    exact advantages_pick perm (fun a b same => grpoScore_perm symmetric epsilon same) rewardRows
      maskRows indexRows
  | rloo =>
    unfold outcomeAdvantage
    rw [computeRlooOutcomeAdvantage_eq picked,
      computeRlooOutcomeAdvantage_eq (indexRows.trans rewardRows.symm)]
    exact advantages_pick perm (fun a b same => rlooScore_perm same) rewardRows maskRows indexRows

omit perm symmetric in
theorem length_outcomeAdvantage {tokenLevelRewards eosMask : List (List K)} {index : List U}
    (indexRows : index.length = tokenLevelRewards.length) {results : List (List K) × List (List K)}
    (computed : outcomeAdvantage estimator std epsilon tokenLevelRewards eosMask index =
      .ok results) :
    results.1.length = eosMask.length ∧ results.2.length = eosMask.length := by
  have tiled : ∃ scores,
      (tileScores tokenLevelRewards scores eosMask).map (fun rows => (rows, rows)) =
      .ok results := by
    cases estimator with
    | grpo =>
      exact ⟨_, (computeGrpoOutcomeAdvantage_eq indexRows std epsilon eosMask).symm.trans computed⟩
    | rloo => exact ⟨_, (computeRlooOutcomeAdvantage_eq indexRows eosMask).symm.trans computed⟩
  obtain ⟨scores, tiled⟩ := tiled
  cases run : tileScores tokenLevelRewards scores eosMask with
  | error raised =>
    rw [run] at tiled
    cases tiled
  | ok rows =>
    rw [run] at tiled
    cases tiled
    exact ⟨length_tileScores run, length_tileScores run⟩

omit symmetric [DecidableEq U] [ToString U] [Field K] in
theorem storeAdvantages_pickRows {data : TrainBatch K U μ} (aligned : data.Aligned n) (width : Nat)
    {results : List (List K) × List (List K)} (advantages : results.1.length = n)
    (returns : results.2.length = n) :
    storeAdvantages (data.pickRows p) width (pick results.1 p, pick results.2 p) =
      (storeAdvantages data width results).map (fun data => data.pickRows p) := by
  have inside := perm_inside perm
  unfold storeAdvantages DataProto.pickRows
  cases present : data.batch with
  | none => rfl
  | some batch =>
    have size := aligned.batch batch present
    have column : ∀ rows : List (List K), (⟨[width], (pick rows p).map .values⟩ : Column (Cell K)) =
        (⟨[width], rows.map .values⟩ : Column (Cell K)).pickRows p := fun rows => by
      rw [Column.pickRows, pick_map]
    dsimp only [Option.map_some]
    rw [column, column,
      TensorDict.setItem_pickRows (by rw [List.length_map, advantages, size]) (size ▸ inside)]
    apply map_bind_eq
    intro stored set
    have kept : stored.batchSize = n := by
      unfold TensorDict.setItem at set
      split at set
      case isTrue => cases set; exact size
      case isFalse => cases set
    rw [TensorDict.setItem_pickRows (by rw [List.length_map, returns, kept]) (kept ▸ inside)]
    apply map_bind_eq
    intro _ _
    rfl

theorem computeAdvantage_pickRows {data : TrainBatch K U μ} (aligned : data.Aligned n) :
    computeAdvantage estimator std epsilon (data.pickRows p) =
      (computeAdvantage estimator std epsilon data).map (fun data => data.pickRows p) := by
  unfold computeAdvantage
  rw [tensor_pickRows, tensor_pickRows, tensor_pickRows]
  apply map_bind_eq
  intro tokenLevelRewards rewardsFound
  have rewardRows := tensor_rows aligned rewardsFound
  rw [show (data.pickRows p).nonTensorBatch =
    data.nonTensorBatch.mapKV (fun _ column => column.pickRows p) from rfl, Dict.getItem_mapKV]
  apply map_bind_eq
  intro index indexFound
  have indexRows : index.rows.length = n :=
    aligned.nonTensorBatch _ (Dict.mem_of_getItem indexFound)
  apply map_bind_eq
  intro responses _
  apply map_bind_eq
  intro attentionMask maskFound
  have maskRows := tensor_rows aligned maskFound
  dsimp only [Column.pickRows]
  rw [mapM_pick (fun cell _ error raised => asValues_error cell raised) (rewardRows ▸ perm)]
  apply map_bind_eq
  intro rewards read
  rw [mapM_pick (fun cell _ error raised => responseMaskRow_error _ cell raised) (maskRows ▸ perm)]
  apply map_bind_eq
  intro responseMask masked
  have rewardCount := (length_mapM_ok read).trans rewardRows
  have maskCount := (length_mapM_ok masked).trans maskRows
  rw [outcomeAdvantage_pick perm symmetric estimator epsilon rewardCount maskCount indexRows]
  apply map_bind_eq
  intro results computed
  obtain ⟨advantages, returns⟩ :=
    length_outcomeAdvantage estimator epsilon (indexRows.trans rewardCount.symm) computed
  exact storeAdvantages_pickRows perm aligned _ (advantages.trans maskCount)
    (returns.trans maskCount)

end Permuted

section Balanced

variable {K U μ : Type} [Field K] [DecidableEq U] [ToString U]

/-- Permuting the rows of a batch permutes its advantages, however the groups are mixed,
and balancing is such a permutation. -/
theorem balancing_keeps_advantages (std : List K → K)
    (symmetric : ∀ a b : List K, a.Perm b → std a = std b) (epsilon : K) :
    (∀ (tokenLevelRewards eosMask : List (List K)) (index : List U) (p : List Nat),
      eosMask.length = tokenLevelRewards.length → index.length = tokenLevelRewards.length →
      p.Perm (List.range tokenLevelRewards.length) →
      computeGrpoOutcomeAdvantage std epsilon (pick tokenLevelRewards p) (pick eosMask p)
        (pick index p) =
        (computeGrpoOutcomeAdvantage std epsilon tokenLevelRewards eosMask index).map
          (fun results => (pick results.1 p, pick results.2 p)) ∧
      computeRlooOutcomeAdvantage (pick tokenLevelRewards p) (pick eosMask p) (pick index p) =
        (computeRlooOutcomeAdvantage tokenLevelRewards eosMask index).map
          (fun results => (pick results.1 p, pick results.2 p))) ∧
    ∀ (estimator : GroupEstimator) (n worldSize : Nat) (batch balanced : TrainBatch K U μ),
      batch.Aligned n →
      balanceBatch worldSize batch = .ok balanced → ∃ p : List Nat, p.Perm (List.range n) ∧
        balanced = batch.pickRows p ∧
        computeAdvantage estimator std epsilon balanced =
          (computeAdvantage estimator std epsilon batch).map (fun data => data.pickRows p) := by
  constructor
  · intro tokenLevelRewards eosMask index p maskRows indexRows perm
    constructor
    · exact outcomeAdvantage_pick perm symmetric .grpo epsilon rfl maskRows indexRows
    · exact outcomeAdvantage_pick perm symmetric .rloo epsilon rfl maskRows indexRows
  · intro estimator n worldSize batch balanced aligned run
    obtain ⟨p, perm, rfl⟩ := balanceBatch_reorders aligned run
    exact ⟨p, perm, rfl, computeAdvantage_pickRows perm symmetric estimator epsilon aligned⟩

/-- `torch.std`, where the variance is a square. -/
def sampleStd (scores : List ℚ) : ℚ :=
  Rat.sqrt ((scores.map (fun score => (score - mean scores) ^ 2)).sum / (scores.length - 1))

theorem sampleStd_perm (a b : List ℚ) (same : a.Perm b) : sampleStd a = sampleStd b := by
  unfold sampleStd
  rw [mean_perm same, (same.map _).sum_eq, same.length_eq]

def mixedBatch : TrainBatch ℚ String Unit where
  batch := some ⟨4, ⟨[
    ("attention_mask",
      ⟨[3], [.bits [true, true, true], .bits [false, true, false], .bits [true, true, false],
      .bits [false, true, true]]⟩),
    ("responses", ⟨[2], [.tokens [5, 6], .tokens [5, 0], .tokens [7, 0], .tokens [8, 9]]⟩),
    ("token_level_rewards",
    ⟨[2], [.values [0, 1], .values [5, 0], .values [2, 0], .values [0, 3]]⟩)], by decide⟩,
    by decide⟩
  nonTensorBatch := ⟨[("uid", ⟨[], ["a", "b", "a", "a"]⟩)], by decide⟩
  metaInfo := .empty

theorem mixedBatch_aligned : mixedBatch.Aligned 4 where
  batch := by
    rintro batch ⟨⟩
    rfl
  nonTensorBatch := by decide

theorem balancing_keeps_advantages_mixed :
    (computeGrpoOutcomeAdvantage sampleStd (1 / 1000000)
      (pick [[0, 1], [5, 0], [2, 0], [0, 3]] [2, 3, 0, 1])
        (pick [[1, 1], [1, 0], [1, 0], [1, 1]] [2, 3, 0, 1])
          (pick ["a", "b", "a", "a"] [2, 3, 0, 1]) =
      (computeGrpoOutcomeAdvantage sampleStd (1 / 1000000) [[0, 1], [5, 0], [2, 0], [0, 3]]
        [[1, 1], [1, 0], [1, 0], [1, 1]] ["a", "b", "a", "a"]).map
          (fun results => (pick results.1 [2, 3, 0, 1], pick results.2 [2, 3, 0, 1])) ∧
      computeRlooOutcomeAdvantage (K := ℚ) (pick [[0, 1], [5, 0], [2, 0], [0, 3]] [2, 3, 0, 1])
        (pick [[1, 1], [1, 0], [1, 0], [1, 1]] [2, 3, 0, 1])
          (pick ["a", "b", "a", "a"] [2, 3, 0, 1]) =
      (computeRlooOutcomeAdvantage [[0, 1], [5, 0], [2, 0], [0, 3]]
        [[1, 1], [1, 0], [1, 0], [1, 1]] ["a", "b", "a", "a"]).map
          (fun results => (pick results.1 [2, 3, 0, 1], pick results.2 [2, 3, 0, 1]))) ∧
    ∃ p : List Nat, p.Perm (List.range 4) ∧
      mixedBatch.pickRows [2, 3, 0, 1] = mixedBatch.pickRows p ∧
      computeAdvantage .grpo sampleStd (1 / 1000000) (mixedBatch.pickRows [2, 3, 0, 1]) =
        (computeAdvantage .grpo sampleStd (1 / 1000000) mixedBatch).map
          (fun data => data.pickRows p) :=
  ⟨(balancing_keeps_advantages (μ := Unit) sampleStd sampleStd_perm (1 / 1000000)).1 _ _ _ _ rfl
    rfl (by decide), (balancing_keeps_advantages sampleStd sampleStd_perm (1 / 1000000)).2 .grpo 4 2
      mixedBatch _ mixedBatch_aligned
      (by decide +kernel)⟩

end Balanced

end Verl.Trainer
