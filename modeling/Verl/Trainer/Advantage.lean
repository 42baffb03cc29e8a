import Mathlib.Algebra.BigOperators.Group.List.Basic
import Mathlib.Algebra.Field.Basic
import Verl.Base.Grouping

/-! `compute_grpo_outcome_advantage` and `compute_rloo_outcome_advantage` of
`verl/trainer/ppo/core_algos.py` over an exact field. A 2-D tensor is the list of its
rows, and `torch.std` is a parameter. -/
namespace Verl.Trainer

section Model

variable {K U : Type} [Field K] [DecidableEq U] [ToString U]

/-- `id2score`. What is appended is `scores[i]`, a view into `scores` and not a copy, so
the table holds the positions. -/
def id2score (index : List U) (bsz : Nat) : Py (List (U × List Nat)) :=
  (List.range bsz).foldlM (fun table i => do
    let uid ← pyGet index i
    return appendTo table uid i) []

def mean (scores : List K) : K := scores.sum / scores.length

def groupStatistics {β : Type} (single : β) (many : List K → β) (scores : List K)
    (entry : U × List Nat) :
    Py (U × β) := do
  let group ← entry.2.mapM (pyGet scores)
  if group.length = 1 then .ok (entry.1, single)
  else if group.length > 1 then .ok (entry.1, many group)
  else .error (.value s!"no score in prompt index: {entry.1}")

def broadcastMul (a b : List K) : Py (List K) :=
  if a.length = b.length then .ok (List.zipWith (· * ·) a b)
  else if a.length = 1 then .ok (b.map (a.headD 0 * ·))
  else if b.length = 1 then .ok (a.map (· * b.headD 0))
  else .error (.runtime "The size of tensor a must match the size of tensor b")

def tileScores (tokenLevelRewards : List (List K)) (scores : List K) (eosMask : List (List K)) :
    Py (List (List K)) :=
  let tiled := List.zipWith (fun row score => List.replicate row.length score)
    tokenLevelRewards scores
  if tiled.length = eosMask.length then
    (tiled.zip eosMask).mapM (fun rows => broadcastMul rows.1 rows.2)
  else .error (.runtime "The size of tensor a must match the size of tensor b")

def grpoStep (index : List U) (epsilon : K) (id2stat : List (U × K × K)) (scores : List K)
    (i : Nat) : Py (List K) := do
  let score ← pyGet scores i
  let uid ← pyGet index i
  let stat ← itemOf id2stat uid
  pySet scores i ((score - stat.1) / (stat.2 + epsilon))

/-- `compute_grpo_outcome_advantage`. `id2mean` and `id2std` are filled together, and
before the scores are overwritten. -/
def computeGrpoOutcomeAdvantage (std : List K → K) (epsilon : K)
    (tokenLevelRewards eosMask : List (List K))
    (index : List U) : Py (List (List K) × List (List K)) := do
  let scores := tokenLevelRewards.map List.sum
  let bsz := scores.length
  let groups ← id2score index bsz
  let id2stat ← groups.mapM (groupStatistics (0, 1) (fun group => (mean group, std group)) scores)
  let scores ← (List.range bsz).foldlM (grpoStep index epsilon id2stat) scores
  let scores ← tileScores tokenLevelRewards scores eosMask
  return (scores, scores)

def rlooStep (index : List U) (groups : List (U × List Nat)) (id2mean : List (U × K))
    (scores : List K) (i : Nat) :
    Py (List K) := do
  let uid ← pyGet index i
  let responseNum := ((groups.lookup uid).getD []).length
  if responseNum > 1 then
    let score ← pyGet scores i
    let groupMean ← itemOf id2mean uid
    pySet scores i (score * responseNum / (responseNum - 1) - groupMean * responseNum /
      (responseNum - 1))
  else .ok scores

def computeRlooOutcomeAdvantage (tokenLevelRewards eosMask : List (List K)) (index : List U) :
    Py (List (List K) × List (List K)) := do
  let scores := tokenLevelRewards.map List.sum
  let bsz := scores.length
  let groups ← id2score index bsz
  let id2mean ← groups.mapM (groupStatistics 0 mean scores)
  let scores ← (List.range bsz).foldlM (rlooStep index groups id2mean) scores
  let scores ← tileScores tokenLevelRewards scores eosMask
  return (scores, scores)

end Model

section Groups

variable {K U : Type} [Field K] [DecidableEq U]

def groupOf (index : List U) (scores : List K) (uid : U) : List K := valuesOf uid (index.zip scores)

/-- What `groupStatistics` gives for a group that is not empty. -/
def statisticsOf {β : Type} (single : β) (many : List K → β) (group : List K) : β :=
  if group.length = 1 then single else many group

theorem id2score_ok {index : List U} {bsz : Nat} (same : index.length = bsz) :
    id2score index bsz = .ok (collect (index.zip (List.range index.length))) := by
  subst same
  suffices from_here : ∀ (later : List U) (start : Nat) (table : List (U × List Nat)),
    later = index.drop start →
      (List.range' start later.length).foldlM (fun table i => do
        let uid ← pyGet index i
        return appendTo table uid i) table =
      .ok ((later.zip (List.range' start later.length)).foldl (fun table entry =>
        appendTo table entry.1 entry.2) table) by
    unfold id2score collect
    rw [List.range_eq_range']
    exact from_here index 0 [] rfl
  intro later
  induction later with
  | nil =>
    intro start table _
    rfl
  | cons uid later ih =>
    intro start table place
    have here : pyGet index start = .ok uid := by
      rw [pyGet_ok_iff, ← List.head?_drop, ← place]
      rfl
    have next : later = index.drop (start + 1) := by
      rw [← List.drop_drop, ← place]
      rfl
    rw [List.length_cons, List.range'_succ, List.foldlM_cons, here, ok_bind, pure_eq_ok,
      ok_bind, ih _ _ next]
    rfl

variable {index : List U} {scores : List K} (same : index.length = scores.length)

include same

theorem read_group (uid : U) :
    (valuesOf uid (index.zip (List.range index.length))).mapM (pyGet scores) =
      .ok (groupOf index scores uid) := by
  have pairs : index.zip scores =
      (index.zip (List.range index.length)).map
      (fun entry => (entry.1, scores.getD entry.2 0)) := by
    apply List.ext_getElem
    · simp [same]
    · intro i left right
      have inside : i < scores.length := by
        rw [List.length_zip] at left
        omega
      simp [List.getElem?_eq_getElem inside]
  rw [groupOf, pairs, valuesOf_map (fun i => scores.getD i 0)]
  apply mapM_ok
  intro i member
  have inside := List.mem_range.mp (List.of_mem_zip (mem_of_mem_valuesOf member)).2
  rw [same] at inside
  rw [pyGet_of_lt inside, List.getD_eq_getElem?_getD, List.getElem?_eq_getElem inside]
  rfl

variable [ToString U]

theorem statistics_ok {β : Type} (single : β) (many : List K → β) :
    ∃ table, (collect (index.zip (List.range index.length))).mapM
      (groupStatistics single many scores) = .ok table ∧
      ∀ uid ∈ index, itemOf table uid =
        .ok (statisticsOf single many (groupOf index scores uid)) := by
  refine ⟨_, mapM_ok
    _ (fun entry => (entry.1, statisticsOf single many (groupOf index scores entry.1))) _ ?_, ?_⟩
  · intro entry member
    obtain ⟨views, some⟩ := entry_collect member
    have read := read_group same entry.1
    rw [← views] at read
    have positive : 0 < (groupOf index scores entry.1).length := by
      rw [length_mapM_ok read]
      exact List.length_pos_iff.mpr some
    unfold groupStatistics statisticsOf
    rw [read, ok_bind]
    by_cases one : (groupOf index scores entry.1).length = 1
    · rw [if_pos one, if_pos one]
    · rw [if_neg one, if_neg one, if_pos (by omega)]
  · intro uid member
    have some : valuesOf uid (index.zip (List.range index.length)) ≠ [] :=
      valuesOf_zip_ne_nil (by simp) member
    unfold itemOf
    rw [Dict.lookup_map (fun uid _ => statisticsOf single many (groupOf index scores uid)),
      lookup_collect, if_neg some]
    rfl

end Groups

section Advantages

variable {K U : Type} [Field K] [DecidableEq U] [ToString U]

def grpoScore (std : List K → K) (epsilon : K) (group : List K) (score : K) : K :=
  let stat := statisticsOf (0, 1) (fun group => (mean group, std group)) group
  (score - stat.1) / (stat.2 + epsilon)

def rlooScore (group : List K) (score : K) : K :=
  if group.length > 1 then
    score * group.length / (group.length - 1) - mean group * group.length / (group.length - 1)
  else score

def scoreRows (rowScore : List K → K → K) (index : List U) (scores : List K) : List K :=
  List.zipWith (fun uid score => rowScore (groupOf index scores uid) score) index scores

variable {index : List U} {scores : List K} (same : index.length = scores.length)

include same

theorem grpo_loop (std : List K → K) (epsilon : K) {id2stat : List (U × K × K)}
    (items : ∀ uid ∈ index, itemOf id2stat uid =
      .ok (statisticsOf (0, 1) (fun group => (mean group, std group)) (groupOf index scores uid))) :
    (List.range scores.length).foldlM (grpoStep index epsilon id2stat) scores =
      .ok (scoreRows (grpoScore std epsilon) index scores) := by
  apply foldlM_overwrite same
  intro done x rest uid here
  have item := items uid (List.mem_of_getElem? here)
  have read : pyGet (done ++ x :: rest) done.length = .ok x := by simp
  unfold grpoStep
  rw [read, ok_bind, pyGet_ok_iff.mpr here, ok_bind, item, ok_bind, pySet_of_lt (by simp)]
  simp [grpoScore]

theorem rloo_loop {id2mean : List (U × K)}
    (items : ∀ uid ∈ index,
      itemOf id2mean uid = .ok (statisticsOf 0 mean (groupOf index scores uid))) :
    (List.range scores.length).foldlM
      (rlooStep index (collect (index.zip (List.range index.length))) id2mean) scores =
      .ok (scoreRows rlooScore index scores) := by
  apply foldlM_overwrite same
  intro done x rest uid here
  have member := List.mem_of_getElem? here
  have item := items uid member
  have read : pyGet (done ++ x :: rest) done.length = .ok x := by simp
  have group : (((collect (index.zip (List.range index.length))).lookup uid).getD []).length =
      (groupOf index scores uid).length := by
    rw [lookup_collect, if_neg (valuesOf_zip_ne_nil (by simp) member), Option.getD_some]
    exact (length_mapM_ok (read_group same uid)).symm
  unfold rlooStep rlooScore
  rw [pyGet_ok_iff.mpr here, ok_bind, group]
  by_cases many : (groupOf index scores uid).length > 1
  · have several : (groupOf index scores uid).length ≠ 1 := by omega
    simp only [many, if_true, read, ok_bind, item, statisticsOf, several, if_false]
    rw [pySet_of_lt (by simp)]
    simp
  · simp only [many, if_false]

omit same

variable {tokenLevelRewards : List (List K)} (indexRows : index.length = tokenLevelRewards.length)

include indexRows

theorem computeGrpoOutcomeAdvantage_eq (std : List K → K) (epsilon : K) (eosMask : List (List K)) :
    computeGrpoOutcomeAdvantage std epsilon tokenLevelRewards eosMask index =
      (tileScores tokenLevelRewards
        (scoreRows (grpoScore std epsilon) index (tokenLevelRewards.map List.sum)) eosMask).map
        (fun scores => (scores, scores)) := by
  have same : index.length = (tokenLevelRewards.map List.sum).length := by
    rw [List.length_map, indexRows]
  obtain ⟨table, filled, items⟩ :=
    statistics_ok same (0, 1) (fun group : List K => (mean group, std group))
  unfold computeGrpoOutcomeAdvantage
  dsimp only
  rw [id2score_ok same, ok_bind, filled, ok_bind, grpo_loop same std epsilon items, ok_bind]
  rfl

theorem computeRlooOutcomeAdvantage_eq (eosMask : List (List K)) :
    computeRlooOutcomeAdvantage tokenLevelRewards eosMask index =
      (tileScores tokenLevelRewards (scoreRows rlooScore index (tokenLevelRewards.map List.sum))
        eosMask).map (fun scores => (scores, scores)) := by
  have same : index.length = (tokenLevelRewards.map List.sum).length := by
    rw [List.length_map, indexRows]
  obtain ⟨table, filled, items⟩ := statistics_ok same 0 (mean : List K → K)
  unfold computeRlooOutcomeAdvantage
  dsimp only
  rw [id2score_ok same, ok_bind, filled, ok_bind, rloo_loop same items, ok_bind]
  rfl

end Advantages

section Rows

variable {K : Type} [Field K]

theorem mean_perm {a b : List K} (same : a.Perm b) : mean a = mean b := by
  unfold mean
  rw [same.sum_eq, same.length_eq]

theorem grpoScore_perm {std : List K → K} (symmetric : ∀ a b : List K, a.Perm b → std a = std b)
    (epsilon : K)
    {a b : List K} (same : a.Perm b) : grpoScore std epsilon a = grpoScore std epsilon b := by
  funext score
  simp only [grpoScore, statisticsOf, same.length_eq, mean_perm same, symmetric a b same]

theorem rlooScore_perm {a b : List K} (same : a.Perm b) : rlooScore a = rlooScore b := by
  funext score
  simp only [rlooScore, same.length_eq, mean_perm same]

theorem broadcastMul_error {a b : List K} {error : PyError}
    (raised : broadcastMul a b = .error error) :
    error = .runtime "The size of tensor a must match the size of tensor b" := by
  unfold broadcastMul at raised
  split at raised
  · cases raised
  · split at raised
    · cases raised
    · split at raised
      · cases raised
      · cases raised
        rfl

theorem length_tileScores {tokenLevelRewards eosMask rows : List (List K)} {scores : List K}
    (tiled : tileScores tokenLevelRewards scores eosMask = .ok rows) :
    rows.length = eosMask.length := by
  unfold tileScores at tiled
  dsimp only at tiled
  split at tiled
  case isTrue same => rw [length_mapM_ok tiled, List.length_zip, same, Nat.min_self]
  case isFalse => cases tiled

theorem tileScores_pick {tokenLevelRewards eosMask : List (List K)} {scores : List K} {n : Nat}
    {p : List Nat} (perm : p.Perm (List.range n)) (rewardRows : tokenLevelRewards.length = n)
    (scoreCount : scores.length = n) (maskRows : eosMask.length = n) :
    tileScores (pick tokenLevelRewards p) (pick scores p) (pick eosMask p) =
      (tileScores tokenLevelRewards scores eosMask).map (fun rows => pick rows p) := by
  unfold tileScores
  dsimp only
  rw [← pick_zipWith _ (rewardRows.trans scoreCount.symm)]
  generalize tiles :
    List.zipWith (fun row score => List.replicate row.length score) tokenLevelRewards scores = tiled
  have count : tiled.length = n := by
    rw [← tiles, List.length_zipWith, rewardRows, scoreCount, Nat.min_self]
  have inside := perm_inside perm
  rw [length_pick (count ▸ inside), length_pick (maskRows ▸ inside), if_pos rfl,
    if_pos (count.trans maskRows.symm)]
  rw [← pick_zip (count.trans maskRows.symm)]
  apply mapM_pick (fun rows _ _ raised => broadcastMul_error raised)
  rw [List.length_zip, count, maskRows, Nat.min_self]
  exact perm

end Rows

section Permuted

variable {K U : Type} [DecidableEq U] {scores : List K} {index : List U} {n : Nat} {p : List Nat}
  (perm : p.Perm (List.range n))

include perm

theorem groupOf_pick (indexRows : index.length = n) (scoreCount : scores.length = n) (uid : U) :
    (groupOf (pick index p) (pick scores p) uid).Perm (groupOf index scores uid) := by
  unfold groupOf
  rw [← pick_zip (indexRows.trans scoreCount.symm)]
  apply valuesOf_perm
  exact pick_perm perm (by rw [List.length_zip, indexRows, scoreCount, Nat.min_self])

theorem scoreRows_pick {rowScore : List K → K → K}
    (symmetric : ∀ a b : List K, a.Perm b → rowScore a = rowScore b)
    (indexRows : index.length = n) (scoreCount : scores.length = n) :
    scoreRows rowScore (pick index p) (pick scores p) =
      pick (scoreRows rowScore index scores) p := by
  unfold scoreRows
  rw [pick_zipWith _ (indexRows.trans scoreCount.symm)]
  congr 1
  funext uid
  exact symmetric _ _ (groupOf_pick perm indexRows scoreCount uid)

variable [Field K] {tokenLevelRewards eosMask : List (List K)}

theorem advantages_pick {rowScore : List K → K → K}
    (symmetric : ∀ a b : List K, a.Perm b → rowScore a = rowScore b)
    (rewardRows : tokenLevelRewards.length = n) (maskRows : eosMask.length = n)
    (indexRows : index.length = n) :
    (tileScores (pick tokenLevelRewards p)
      (scoreRows rowScore (pick index p) ((pick tokenLevelRewards p).map List.sum))
        (pick eosMask p)).map (fun scores => (scores, scores)) =
      ((tileScores tokenLevelRewards (scoreRows rowScore index (tokenLevelRewards.map List.sum))
        eosMask).map
        (fun scores => (scores, scores))).map
          (fun results => (pick results.1 p, pick results.2 p)) := by
  have scoreCount : (tokenLevelRewards.map List.sum).length = n := by
    rw [List.length_map, rewardRows]
  have rowCount : (scoreRows rowScore index (tokenLevelRewards.map List.sum)).length = n := by
    rw [scoreRows, List.length_zipWith, indexRows, scoreCount, Nat.min_self]
  rw [← pick_map, scoreRows_pick perm symmetric indexRows scoreCount,
    tileScores_pick perm rewardRows rowCount maskRows]
  cases tileScores tokenLevelRewards (scoreRows rowScore index (tokenLevelRewards.map List.sum))
    eosMask with
  | ok rows => rfl
  | error raised => rfl

end Permuted

end Verl.Trainer
