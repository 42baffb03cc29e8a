import Mathlib.Algebra.Field.Rat
import Mathlib.Algebra.BigOperators.Group.List.Basic
import Verl.Base.Discounted
import Verl.Base.Python

/-! `DataParallelPRIMERewardModel._forward_micro_batch` from the two models' log probabilities on:
the difference `q`, the process reward `r` and the token-level score. Every tensor operation acts
on the rows one by one, so it is written for one row. -/
namespace Verl.Prime

section Model

variable {K : Type} [Field K]

inductive Granularity where
  | token
  | whole
  | other
  deriving DecidableEq, Repr

structure ScoreConfig (K : Type) where
  lambda : K
  betaTrain : K
  primeUseGt : Bool
  primeGranularity : Granularity

/-- One row of the micro batch. The log probabilities of the labels have `num_actions` columns
where the padding was removed and `seqlen - 1` where it was not. -/
structure MicroRow (K : Type) where
  attentionMask : List Nat
  acc : K
  rmLogLabels : List K
  refLogLabels : List K

structure MicroBatch (K : Type) where
  promptLength : Nat
  numActions : Nat
  rows : List (MicroRow K)

def maxPosition (promptLength : Nat) (row : MicroRow K) : Nat :=
  (row.attentionMask.drop promptLength).sum

def lastColumns (n : Nat) (row : List K) : List K :=
  if n = 0 then row else row.drop (row.length - n)

def zeroFrom (m : Nat) (row : List K) : List K := row.take m ++ List.replicate (row.length - m) 0

/-- Where the index `m - 1` points in a row of `n` columns: -1 is the last column. -/
def lastIndex (n m : Nat) : Nat := if m = 0 then n - 1 else m - 1

def logRatio (numActions : Nat) (row : MicroRow K) : Py (List K) :=
  let rm := lastColumns numActions row.rmLogLabels
  let ref := lastColumns numActions row.refLogLabels
  if rm.length = ref.length then .ok (List.zipWith (· - ·) rm ref)
  else .error (.runtime "The size of tensor a must match the size of tensor b")

def trimmedQ (promptLength numActions : Nat) (row : MicroRow K) : Py (List K) := do
  let q ← logRatio numActions row
  return zeroFrom (maxPosition promptLength row) q

/-- `q_[i, m - 1] = acc[i] - q_[i, :m - 1].sum()` under `prime_use_gt`. -/
def overwriteLast (primeUseGt : Bool) (m : Nat) (acc : K) (q : List K) : Py (List K) :=
  if primeUseGt then
    pySet q (lastIndex q.length m) (acc - (q.take (lastIndex q.length m)).sum)
  else .ok q

def lambdaStep (lam : K) (q : List K) (state : K × List K) (t : Nat) : Py (K × List K) := do
  let delta ← pyGet q t
  let lastgaelam := delta + lam * state.1
  let r ← pySet state.2 t lastgaelam
  return (lastgaelam, r)

def processReward [DecidableEq K] (config : ScoreConfig K) (numActions m : Nat) (acc : K)
    (q : List K) : Py (List K) :=
  if config.lambda = 0 then .ok (q.map (· * config.betaTrain))
  else do
    let scaled ← overwriteLast config.primeUseGt m acc (q.map (· * config.betaTrain))
    let (_, r) ← (List.range numActions).reverse.foldlM
      (lambdaStep config.lambda (zeroFrom m scaled))
      (0, List.replicate q.length 0)
    return r

/-- `score[i, k] = values`: one value fits one entry, and torch expands no vector to it. -/
def assignEntry (score : List K) (k : Nat) (values : List K) : Py (List K) :=
  match values with
  | [value] => pySet score k value
  | _ =>
    .error (.runtime
    "expand: the number of sizes provided must be greater or equal to the number of dimensions")

def scoreEntries (granularity : Granularity) (m : Nat) (r : List K) : Py (List K) :=
  let zeros := List.replicate r.length 0
  let last := lastIndex r.length m
  match granularity with
  | .token => .ok (r.take last ++ zeros.drop last)
  | .whole => assignEntry zeros last (r.take m)
  | .other => .error .notImplemented

def processRewards [DecidableEq K] (config : ScoreConfig K) (batch : MicroBatch K) :
    Py (List (List K)) :=
  batch.rows.mapM (fun row => do
    let q ← trimmedQ batch.promptLength batch.numActions row
    processReward config batch.numActions (maxPosition batch.promptLength row) row.acc q)

def forwardMicroBatch [DecidableEq K] (config : ScoreConfig K) (batch : MicroBatch K) :
    Py (List (List K) × List (List K)) := do
  let q ← batch.rows.mapM (trimmedQ batch.promptLength batch.numActions)
  let r ← processRewards config batch
  if config.primeGranularity = .other then .error .notImplemented else
  let tokenLevelScore ← (batch.rows.zip r).mapM (fun (row, r) =>
    scoreEntries config.primeGranularity (maxPosition batch.promptLength row) r)
  return (tokenLevelScore, q)

end Model

section Rewards

variable {K : Type} [Field K]

@[simp] theorem length_zeroFrom (m : Nat) (row : List K) :
    (zeroFrom m row).length = row.length := by
  simp only [zeroFrom, List.length_append, List.length_take, List.length_replicate]
  omega

theorem getD_zeroFrom_of_lt {m t : Nat} (inside : t < m) (row : List K) :
    (zeroFrom m row).getD t 0 = row.getD t 0 := by
  by_cases short : t < row.length
  · simp [zeroFrom, List.getElem?_append, inside, short]
  · have past : ((zeroFrom m row)[t]?) = none :=
      List.getElem?_eq_none (by simpa using Nat.le_of_not_lt short)
    simp [past, List.getElem?_eq_none (Nat.le_of_not_lt short)]

theorem getD_zeroFrom_of_le {m t : Nat} (past : m ≤ t) (row : List K) :
    (zeroFrom m row).getD t 0 = 0 := by
  simp only [zeroFrom, List.getD_eq_getElem?_getD, List.getElem?_append, List.length_take,
    List.getElem?_replicate]
  split
  · omega
  · split <;> rfl

theorem lastIndex_of_pos {m : Nat} (n : Nat) (positive : 0 < m) : lastIndex n m = m - 1 :=
  if_neg (Nat.pos_iff_ne_zero.mp positive)

def shaped (config : ScoreConfig K) (m : Nat) (acc : K) (q : List K) : List K :=
  let scaled := q.map (· * config.betaTrain)
  zeroFrom m (if config.primeUseGt then scaled.set (m - 1) (acc - (scaled.take (m - 1)).sum)
    else scaled)

def rewardAt [DecidableEq K] (config : ScoreConfig K) (m : Nat) (acc : K) (q : List K) (t : Nat) :
    K :=
  if config.lambda = 0 then q.getD t 0 * config.betaTrain
  else discounted config.lambda (fun s => (shaped config m acc q).getD s 0) q.length t

theorem length_shaped (config : ScoreConfig K) (m : Nat) (acc : K) (q : List K) :
    (shaped config m acc q).length = q.length := by
  cases gt : config.primeUseGt <;> simp [shaped, gt]

theorem overwriteLast_ok (config : ScoreConfig K) {m : Nat} (acc : K) {q : List K}
    (positive : 0 < m) (inside : m ≤ q.length) :
    ∃ scaled, overwriteLast config.primeUseGt m acc (q.map (· * config.betaTrain)) = .ok scaled ∧
      zeroFrom m scaled = shaped config m acc q := by
  cases gt : config.primeUseGt with
  | false => exact ⟨_, rfl, by simp [shaped, gt]⟩
  | true =>
    refine ⟨_, ?_, by simp only [shaped, gt, if_true]; rfl⟩
    rw [overwriteLast, if_pos rfl, lastIndex_of_pos _ positive, pySet_of_lt (by simp; omega)]

def lambdaState (lam : K) (f : Nat → K) (n t : Nat) : K × List K :=
  (discounted lam f n t, (List.range n).map (fun s => if t ≤ s then discounted lam f n s else 0))

theorem lambdaStep_state (lam : K) {q : List K} {t : Nat} (inside : t < q.length) :
    lambdaStep lam q (lambdaState lam (fun s => q.getD s 0) q.length (t + 1)) t =
      .ok (lambdaState lam (fun s => q.getD s 0) q.length t) := by
  have entry : q.getD t 0 = q[t] := by simp [inside]
  have total := discounted_step lam (fun s => q.getD s 0) inside
  simp only [entry] at total
  simp only [lambdaStep, lambdaState, pyGet_of_lt inside, ok_bind, pySet_map_range _ inside,
    pure_eq_ok, ← total]
  congr 3
  funext s
  by_cases here : s = t
  · simp [here]
  · have same : (t + 1 ≤ s) = (t ≤ s) := by
      apply propext
      omega
    simp [here, same]

theorem lambda_loop (lam : K) (q : List K) :
    (List.range q.length).reverse.foldlM (lambdaStep lam q) (0, List.replicate q.length 0) =
      .ok (lambdaState lam (fun s => q.getD s 0) q.length 0) := by
  have begins : ((0 : K), List.replicate q.length (0 : K)) =
      lambdaState lam (fun s => q.getD s 0) q.length q.length := by
    rw [lambdaState, discounted_past _ _ (Nat.le_refl _)]
    congr 1
    apply List.ext_getElem
    · simp
    · intro s inside _
      have below : s < q.length := by simpa using inside
      simp [Nat.not_le_of_lt below]
  rw [begins]
  exact foldlM_down (lambdaState lam (fun s => q.getD s 0) q.length) (fun t inside =>
    lambdaStep_state lam inside)

theorem processReward_eq [DecidableEq K] (config : ScoreConfig K) {n m : Nat} (acc : K) {q : List K}
    (columns : q.length = n) (positive : 0 < m) (inside : m ≤ n) :
    processReward config n m acc q = .ok ((List.range n).map (rewardAt config m acc q)) := by
  subst columns
  by_cases zero : config.lambda = 0
  · simp only [processReward, zero, if_true]
    congr 1
    apply List.ext_getElem
    · simp
    · intro t below _
      have column : t < q.length := by simpa using below
      simp [rewardAt, zero, column]
  · obtain ⟨scaled, done, same⟩ := overwriteLast_ok config acc positive inside
    have loop := lambda_loop config.lambda (shaped config m acc q)
    rw [length_shaped] at loop
    rw [processReward, if_neg zero, done, ok_bind, same, loop, ok_bind]
    simp [lambdaState, rewardAt, zero]

theorem rewardAt_last [DecidableEq K] (config : ScoreConfig K) {m : Nat} (acc : K) {q : List K}
    (positive : 0 < m) (inside : m ≤ q.length) :
    rewardAt config m acc q (m - 1) =
      if config.lambda ≠ 0 ∧ config.primeUseGt = true then
        acc - ((q.map (· * config.betaTrain)).take (m - 1)).sum
      else q.getD (m - 1) 0 * config.betaTrain := by
  by_cases zero : config.lambda = 0
  · simp [rewardAt, zero]
  · have below : m - 1 < q.length := by omega
    have after : discounted config.lambda (fun s => (shaped config m acc q).getD s 0) q.length
        (m - 1 + 1) = 0 := by
      apply discounted_zero
      intro s past _
      exact getD_zeroFrom_of_le (by omega) _
    rw [rewardAt, if_neg zero, discounted_step _ _ below, after, mul_zero, add_zero, shaped,
      getD_zeroFrom_of_lt (by omega)]
    cases gt : config.primeUseGt <;> simp [zero, below]

theorem scoreEntries_token {m : Nat} (positive : 0 < m) (r : List K) :
    scoreEntries .token m r = .ok (zeroFrom (m - 1) r) := by
  simp [scoreEntries, lastIndex_of_pos _ positive, zeroFrom]

theorem getElem?_zeroFrom {m t : Nat} {xs : List K} (inside : t < xs.length) :
    (zeroFrom m xs)[t]? = if t < m then xs[t]? else some 0 := by
  have length := length_zeroFrom m xs
  have entry : (zeroFrom m xs)[t]? = some ((zeroFrom m xs).getD t 0) := by simp [length, inside]
  rw [entry]
  split
  · rw [getD_zeroFrom_of_lt ‹_›]
    simp [inside]
  · rw [getD_zeroFrom_of_le (Nat.le_of_not_lt ‹_›)]

end Rewards

section Spec

variable {K : Type} [Field K]

def Valid (promptLength : Nat) (row : MicroRow K) (t : Nat) : Prop :=
  (row.attentionMask.drop promptLength)[t]? = some 1

def LastValid (promptLength : Nat) (row : MicroRow K) (t : Nat) : Prop :=
  Valid promptLength row t ∧ ∀ s, Valid promptLength row s → s ≤ t

/-- A row as the rollout leaves it: its response tokens, at least one, and then padding. -/
structure ValidRow (promptLength numActions : Nat) (row : MicroRow K) : Prop where
  responseMask : ∃ m, 0 < m ∧ m ≤ numActions ∧
    row.attentionMask.drop promptLength = List.replicate m 1 ++ List.replicate (numActions - m) 0
  rmColumns : numActions ≤ row.rmLogLabels.length
  refColumns : numActions ≤ row.refLogLabels.length

/-- What the score of one row is to be, given its process rewards. -/
structure RowSpec (granularity : Granularity) (promptLength : Nat) (row : MicroRow K)
    (r score : List K) : Prop where
  columns : score.length = r.length
  past : ∀ t < score.length, (∀ s, Valid promptLength row s → s < t) → score[t]? = some 0
  token : granularity = .token → ∀ t, Valid promptLength row t → score[t]? = r[t]?
  whole : granularity = .whole → ∀ t < score.length,
    (¬LastValid promptLength row t → score[t]? = some 0) ∧
    (LastValid promptLength row t → score[t]? = some (r.take (t + 1)).sum)

def ScoreSpec [DecidableEq K] (config : ScoreConfig K) (batch : MicroBatch K) : Prop :=
  ∃ tokenLevelScore q rewards, forwardMicroBatch config batch = .ok (tokenLevelScore, q) ∧
    processRewards config batch = .ok rewards ∧
    List.Forall₂ (fun (row, r) score =>
      RowSpec config.primeGranularity batch.promptLength row r score)
      (batch.rows.zip rewards) tokenLevelScore

def scaledRatio (config : ScoreConfig K) (numActions : Nat) (row : MicroRow K) (t : Nat) : K :=
  ((lastColumns numActions row.rmLogLabels).getD t
    0 - (lastColumns numActions row.refLogLabels).getD t 0) *
    config.betaTrain

/-- What the log probabilities and the outcome of a row leave for its last token, the `m`-th. -/
def lastTerm [DecidableEq K] (config : ScoreConfig K) (numActions m : Nat) (row : MicroRow K) : K :=
  if config.lambda ≠ 0 ∧ config.primeUseGt = true then
    row.acc - ((List.range (m - 1)).map (scaledRatio config numActions row)).sum
  else scaledRatio config numActions row (m - 1)

/-- Rows on which the score is right: with `token` nothing is left for the last token, which the
slice `[:max_positions - 1]` misses; with `whole` that token is the only one. -/
def Served [DecidableEq K] (config : ScoreConfig K) (promptLength numActions : Nat)
    (row : MicroRow K) : Prop :=
  match config.primeGranularity with
  | .token => lastTerm config numActions (maxPosition promptLength row) row = 0
  | .whole => maxPosition promptLength row = 1
  | .other => False

variable {promptLength numActions : Nat} {row : MicroRow K}

omit [Field K] in
theorem ValidRow.maxPosition_eq (valid : ValidRow promptLength numActions row) :
    0 < maxPosition promptLength row ∧ maxPosition promptLength row ≤ numActions ∧
      ∀ t, Valid promptLength row t ↔ t < maxPosition promptLength row := by
  obtain ⟨m, positive, inside, mask⟩ := valid.responseMask
  have count : maxPosition promptLength row = m := by simp [maxPosition, mask]
  rw [count]
  refine ⟨positive, inside, fun t => ?_⟩
  rw [Valid, mask, List.getElem?_append]
  by_cases below : t < m
  · simp [below]
  · simp [below, List.getElem?_replicate]

omit [Field K] in
theorem ValidRow.lastValid_iff (valid : ValidRow promptLength numActions row) (t : Nat) :
    LastValid promptLength row t ↔ t + 1 = maxPosition promptLength row := by
  obtain ⟨positive, _, tokens⟩ := valid.maxPosition_eq
  simp only [LastValid, tokens]
  constructor
  · rintro ⟨below, greatest⟩
    have := greatest (maxPosition promptLength row - 1) (by omega)
    omega
  · intro last
    exact ⟨by omega, fun s below => by omega⟩

omit [Field K] in
theorem length_lastColumns {n : Nat} {xs : List K} (positive : 0 < n) (enough : n ≤ xs.length) :
    (lastColumns n xs).length = n := by
  rw [lastColumns, if_neg (Nat.pos_iff_ne_zero.mp positive), List.length_drop]
  omega

def ratio (numActions : Nat) (row : MicroRow K) : List K :=
  List.zipWith (· - ·) (lastColumns numActions row.rmLogLabels)
    (lastColumns numActions row.refLogLabels)

omit [Field K] in
theorem ValidRow.length_columns (valid : ValidRow promptLength numActions row) :
    (lastColumns numActions row.rmLogLabels).length = numActions ∧
      (lastColumns numActions row.refLogLabels).length = numActions := by
  obtain ⟨positive, inside, _⟩ := valid.maxPosition_eq
  have wide : 0 < numActions := Nat.lt_of_lt_of_le positive inside
  exact ⟨length_lastColumns wide valid.rmColumns, length_lastColumns wide valid.refColumns⟩

theorem ValidRow.length_ratio (valid : ValidRow promptLength numActions row) :
    (ratio numActions row).length = numActions := by
  obtain ⟨rm, ref⟩ := valid.length_columns
  simp [ratio, rm, ref]

theorem ValidRow.trimmedQ_eq (valid : ValidRow promptLength numActions row) :
    trimmedQ promptLength numActions row =
      .ok (zeroFrom (maxPosition promptLength row) (ratio numActions row)) := by
  obtain ⟨rm, ref⟩ := valid.length_columns
  simp [trimmedQ, logRatio, ratio, rm, ref]

theorem ValidRow.ratio_getD (valid : ValidRow promptLength numActions row)
    (config : ScoreConfig K) (t : Nat) :
    (ratio numActions row).getD t 0 * config.betaTrain = scaledRatio config numActions row t := by
  obtain ⟨rm, ref⟩ := valid.length_columns
  rw [scaledRatio, ratio]
  by_cases below : t < numActions
  · simp [rm, ref, below]
  · simp [rm, ref, Nat.le_of_not_lt below]

variable [DecidableEq K] (config : ScoreConfig K)

def rowRewards (promptLength numActions : Nat) (row : MicroRow K) : List K :=
  let m := maxPosition promptLength row
  (List.range numActions).map (rewardAt config m row.acc (zeroFrom m (ratio numActions row)))

theorem processRewards_eq {batch : MicroBatch K}
    (valid : ∀ row ∈ batch.rows, ValidRow batch.promptLength batch.numActions row) :
    processRewards config batch =
      .ok (batch.rows.map (rowRewards config batch.promptLength batch.numActions)) := by
  apply mapM_ok
  intro row member
  obtain ⟨positive, inside, _⟩ := (valid row member).maxPosition_eq
  rw [(valid row member).trimmedQ_eq, ok_bind]
  apply processReward_eq config row.acc _ positive inside
  rw [length_zeroFrom, (valid row member).length_ratio]

theorem ValidRow.rowRewards_last (valid : ValidRow promptLength numActions row) :
    (rowRewards config promptLength numActions row)[maxPosition promptLength row - 1]? =
      some (lastTerm config numActions (maxPosition promptLength row) row) := by
  obtain ⟨positive, inside, _⟩ := valid.maxPosition_eq
  have below : maxPosition promptLength row - 1 < numActions := by omega
  have columns := valid.length_ratio
  have entries : ((zeroFrom (maxPosition promptLength row) (ratio numActions row)).map
    (· * config.betaTrain)).take
      (maxPosition promptLength row - 1) =
        (List.range (maxPosition promptLength row - 1)).map
          (scaledRatio config numActions row) := by
    apply List.ext_getElem
    · simp [columns]
      omega
    · intro t before _
      have early : t < maxPosition promptLength row ∧ t < numActions := by
        simp [columns] at before
        omega
      have entry := getD_zeroFrom_of_lt early.1 (ratio numActions row)
      have column : t < (zeroFrom (maxPosition promptLength row)
          (ratio numActions row)).length := by
        rw [length_zeroFrom, columns]
        exact early.2
      have value : (zeroFrom (maxPosition promptLength row) (ratio numActions row))[t] =
          (ratio numActions row).getD t 0 := by
        rw [← entry, List.getD_eq_getElem?_getD, List.getElem?_eq_getElem column, Option.getD_some]
      simp only [List.getElem_take, List.getElem_map, List.getElem_range, value, valid.ratio_getD]
  have trimmed := getD_zeroFrom_of_lt (Nat.sub_lt positive Nat.one_pos) (ratio numActions row)
  have wide : maxPosition promptLength row ≤
      (zeroFrom (maxPosition promptLength row) (ratio numActions row)).length := by
    rw [length_zeroFrom, columns]
    exact inside
  simp only [rowRewards, List.getElem?_map, List.getElem?_range below, Option.map_some,
    rewardAt_last config row.acc positive wide, entries, trimmed, valid.ratio_getD, lastTerm]

theorem ValidRow.token_iff (valid : ValidRow promptLength numActions row)
    (token : config.primeGranularity = .token) :
    (∃ score, scoreEntries .token (maxPosition promptLength row)
      (rowRewards config promptLength numActions row) = .ok score ∧
      RowSpec .token promptLength row (rowRewards config promptLength numActions row) score) ↔
      Served config promptLength numActions row := by
  obtain ⟨positive, inside, tokens⟩ := valid.maxPosition_eq
  have last := valid.rowRewards_last config
  have columns : (rowRewards config promptLength numActions row).length = numActions := by
    simp [rowRewards]
  simp only [Served, token]
  generalize rowRewards config promptLength numActions row = r at *
  generalize maxPosition promptLength row = m at *
  have entry : (zeroFrom (m - 1) r)[m - 1]? = some 0 := by
    rw [getElem?_zeroFrom (by omega), if_neg (Nat.lt_irrefl _)]
  simp only [scoreEntries_token positive, Except.ok.injEq, exists_eq_left']
  constructor
  · intro spec
    have same := spec.token rfl (m - 1) ((tokens _).mpr (by omega))
    rw [entry, last] at same
    exact (Option.some.inj same).symm
  · intro nothing
    refine ⟨by rw [length_zeroFrom], ?_, ?_, nofun⟩
    · intro t below past
      rw [length_zeroFrom] at below
      have := past (m - 1) ((tokens _).mpr (by omega))
      rw [getElem?_zeroFrom below, if_neg (by omega)]
    · intro _ t here
      have := (tokens t).mp here
      rw [getElem?_zeroFrom (by omega)]
      split
      · rfl
      · have at_last : t = m - 1 := by omega
        rw [at_last, last, nothing]

theorem ValidRow.whole_iff (valid : ValidRow promptLength numActions row)
    (whole : config.primeGranularity = .whole) :
    (∃ score, scoreEntries .whole (maxPosition promptLength row)
      (rowRewards config promptLength numActions row) = .ok score ∧
      RowSpec .whole promptLength row (rowRewards config promptLength numActions row) score) ↔
      Served config promptLength numActions row := by
  obtain ⟨positive, inside, tokens⟩ := valid.maxPosition_eq
  have lastToken := valid.lastValid_iff
  have columns : (rowRewards config promptLength numActions row).length = numActions := by
    simp [rowRewards]
  simp only [Served, whole]
  generalize rowRewards config promptLength numActions row = r at *
  generalize maxPosition promptLength row = m at *
  constructor
  · rintro ⟨score, returned, -⟩
    by_contra several
    have vector : 2 ≤ (r.take m).length := by
      rw [List.length_take]
      omega
    match values : r.take m with
    | [] => simp [values] at vector
    | [_] => simp [values] at vector
    | _ :: _ :: _ => simp [scoreEntries, assignEntry, values] at returned
  · rintro rfl
    obtain ⟨value, rest, rfl⟩ := List.exists_cons_of_length_pos (show 0 < r.length by omega)
    refine ⟨value :: List.replicate rest.length
      0, by simp [scoreEntries, assignEntry, lastIndex, List.replicate_succ],
        by simp, ?_, nofun, ?_⟩
    · intro t below past
      have := past 0 ((tokens 0).mpr Nat.one_pos)
      obtain ⟨s, rfl⟩ := Nat.exists_eq_succ_of_ne_zero (Nat.pos_iff_ne_zero.mp this)
      simpa [List.getElem?_replicate] using below
    · intro _ t below
      cases t with
      | zero => simp [lastToken]
      | succ s =>
        have zero : s < rest.length := by simpa using below
        simp [lastToken, zero]

/-- The score is as specified on exactly the micro batches all of whose rows are served. -/
theorem forwardMicroBatch_scores_iff (batch : MicroBatch K)
    (known : config.primeGranularity ≠ .other)
    (valid : ∀ row ∈ batch.rows, ValidRow batch.promptLength batch.numActions row) :
    ScoreSpec config batch ↔
      ∀ row ∈ batch.rows, Served config batch.promptLength batch.numActions row := by
  have rewards := processRewards_eq config valid
  have q : batch.rows.mapM (trimmedQ batch.promptLength batch.numActions) = .ok _ :=
    mapM_ok _ _ _ (fun row member => (valid row member).trimmedQ_eq)
  have pairs : batch.rows.zip
    (batch.rows.map (rowRewards config batch.promptLength batch.numActions)) =
      batch.rows.map (fun row => (row,
        rowRewards config batch.promptLength batch.numActions row)) :=
    List.map_prod_left_eq_zip.symm
  have rowwise : ∀ row ∈ batch.rows, (∃ score,
      scoreEntries config.primeGranularity (maxPosition batch.promptLength row)
        (rowRewards config batch.promptLength batch.numActions row) = .ok score ∧
      RowSpec config.primeGranularity batch.promptLength row
        (rowRewards config batch.promptLength batch.numActions row) score) ↔
      Served config batch.promptLength batch.numActions row := by
    intro row member
    cases granularity : config.primeGranularity with
    | token => exact (valid row member).token_iff config granularity
    | whole => exact (valid row member).whole_iff config granularity
    | other => exact absurd granularity known
  have returned : ScoreSpec config batch ↔ ∃ scores,
      (batch.rows.map (fun row =>
      (row, rowRewards config batch.promptLength batch.numActions row))).mapM
        (fun (row, r) => scoreEntries config.primeGranularity (maxPosition batch.promptLength row)
          r) = .ok scores ∧
      List.Forall₂ (fun (row, r) score =>
        RowSpec config.primeGranularity batch.promptLength row r score)
        (batch.rows.map (fun row => (row,
          rowRewards config batch.promptLength batch.numActions row))) scores := by
    simp only [ScoreSpec, forwardMicroBatch, q, rewards, ok_bind, if_neg known, pairs,
      bind_ok_iff, pure_eq_ok, Except.ok.injEq, Prod.mk.injEq]
    constructor
    · rintro ⟨scores, _, _, ⟨_, done, rfl, -⟩, rfl, spec⟩
      exact ⟨_, done, pairs ▸ spec⟩
    · rintro ⟨scores, done, spec⟩
      exact ⟨scores, _, _, ⟨scores, done, rfl, rfl⟩, rfl, pairs ▸ spec⟩
  rw [returned, mapM_ok_and_forall₂_iff, List.forall_mem_map]
  exact forall₂_congr rowwise

end Spec

section Samples

def sampleBatch : MicroBatch ℚ where
  promptLength := 1
  numActions := 3
  rows := [⟨[1, 1, 1, 0], 1, [2, 3, 5], [1, 1, 1]⟩]

def sampleConfig (granularity : Granularity) : ScoreConfig ℚ := ⟨0, 1, true, granularity⟩

/-- The rewards are 1 and 2; the score with `token` is 1 and 0, and `whole` raises. -/
theorem sampleBatch_scores :
    processRewards (sampleConfig .token) sampleBatch = .ok [[1, 2, 0]] ∧
      (forwardMicroBatch (sampleConfig .token) sampleBatch).map Prod.fst = .ok [[1, 0, 0]] ∧
      (forwardMicroBatch (sampleConfig .whole) sampleBatch).toOption = none := by
  decide +kernel

theorem forwardMicroBatch_fails_on_sample :
    ¬ScoreSpec (sampleConfig .token) sampleBatch ∧
      ¬ScoreSpec (sampleConfig .whole) sampleBatch := by
  obtain ⟨rewarded, scored, raised⟩ := sampleBatch_scores
  constructor
  · rintro ⟨scores, q, rewards, returned, given, spec⟩
    cases Except.ok.inj (rewarded.symm.trans given)
    rw [returned] at scored
    cases Except.ok.inj scored
    have row := (List.forall₂_cons.mp spec).1
    have entry := row.token rfl 1 rfl
    simp at entry
  · rintro ⟨scores, q, rewards, returned, -⟩
    rw [returned] at raised
    cases raised

/-- The models agree on the last token, and the score with `token` is right. -/
theorem forwardMicroBatch_scores_agreeing :
    ScoreSpec (sampleConfig .token) ⟨1, 3, [⟨[1, 1, 1, 0], 1, [2, 1, 5], [1, 1, 1]⟩]⟩ := by
  apply (forwardMicroBatch_scores_iff (sampleConfig .token) _ (by decide) _).mpr
  · intro row member
    obtain rfl := List.mem_singleton.mp member
    simp [Served, sampleConfig, lastTerm, scaledRatio, lastColumns, maxPosition]
  · intro row member
    obtain rfl := List.mem_singleton.mp member
    exact ⟨⟨2, by decide⟩, by decide, by decide⟩

end Samples

end Verl.Prime
