import Mathlib.Order.Interval.Finset.Nat
import Verl.Base.Grouping
import Verl.Trainer.Advantage
import Verl.Trainer.TokenTensors

/-! The numbers `compute_rloo_outcome_advantage` gives to the rows of a group: each score against
the mean of the others. -/
namespace Verl.Trainer

section Groups

open Finset

variable {K U : Type} [DecidableEq U]

def sameGroup (index : List U) (i : Nat) : Finset Nat :=
  (range index.length).filter (fun j => index[j]? = index[i]?)

theorem mem_sameGroup {index : List U} {i : Nat} (inside : i < index.length) :
    i ∈ sameGroup index i := by
  simp [sameGroup, inside]

theorem sameGroup_of_mem {index : List U} {i j : Nat} (member : j ∈ sameGroup index i) :
    j < index.length ∧ sameGroup index j = sameGroup index i := by
  unfold sameGroup at member ⊢
  obtain ⟨inside, same⟩ := mem_filter.mp member
  rw [same]
  exact ⟨mem_range.mp inside, rfl⟩

theorem groupOf_eq [Zero K] {index : List U} {scores : List K}
    (same : index.length = scores.length) (uid : U) :
    groupOf index scores uid =
      ((List.range index.length).filter (fun j => index[j]? = some uid)).map (scores.getD · 0) := by
  induction index generalizing scores with
  | nil => rfl
  | cons first index ih =>
    cases scores with
    | nil => cases same
    | cons score scores =>
      have tail := ih (Nat.succ.inj same)
      rw [groupOf, valuesOf] at tail ⊢
      rw [List.length_cons, List.range_succ_eq_map, List.zip_cons_cons, List.filter_cons,
        List.filter_cons, List.filter_map]
      by_cases here : first = uid
      · simp [here, tail, Function.comp_def]
      · simp [here, tail, Function.comp_def]

variable [Field K] {index : List U} {scores : List K} (same : index.length = scores.length)
  {i : Nat} {uid : U} (here : index[i]? = some uid)

include same here

theorem length_groupOf : (groupOf index scores uid).length = (sameGroup index i).card := by
  rw [groupOf_eq same, List.length_map, sameGroup, here]
  rfl

theorem sum_groupOf : (groupOf index scores uid).sum = ∑ j ∈ sameGroup index i,
    scores.getD j 0 := by
  rw [groupOf_eq same, sameGroup, here]
  rfl

theorem rlooScore_of_many [CharZero K] (many : 2 ≤ (sameGroup index i).card) :
    rlooScore (groupOf index scores uid) (scores.getD i 0) =
      leaveOneOut (scores.getD · 0) (sameGroup index i) i := by
  have inside : i < index.length := (List.getElem?_eq_some_iff.mp here).1
  have others := cast_sub_one_ne_zero (K := K) many
  have some : ((sameGroup index i).card : K) ≠ 0 := by
    rw [Nat.cast_ne_zero]
    omega
  rw [leaveOneOut_eq many (mem_sameGroup inside), rlooScore, mean, length_groupOf same here,
    sum_groupOf same here, if_pos (by omega)]
  field_simp

theorem rlooScore_of_single (single : (sameGroup index i).card = 1) (score : K) :
    rlooScore (groupOf index scores uid) score = score := by
  rw [rlooScore, length_groupOf same here, if_neg (by omega)]

end Groups

section Rows

variable {K U : Type} {bs len : Nat} {rewards eosMask : List (List K)} {scores : List K}

def tiled (rewards : List (List K)) (scores : List K) : List (List K) :=
  List.zipWith (fun row score => List.replicate row.length score) rewards scores

theorem hasShape_tiled (rewardShape : HasShape bs len rewards) (rows : scores.length = bs) :
    HasShape bs len (tiled rewards scores) := by
  apply hasShape_zipWith rewardShape.1 rows
  intro row member score _
  rw [List.length_replicate, rewardShape.2 row member]

theorem length_scoreRows [DecidableEq U] {index : List U} (rowScore : List K → K → K)
    (same : index.length = scores.length) :
    (scoreRows rowScore index scores).length = scores.length := by
  rw [scoreRows, List.length_zipWith, same, Nat.min_self]

variable [Field K]

theorem entry_tiled (rewardShape : HasShape bs len rewards) (rows : scores.length = bs) {i t : Nat}
    (row : i < bs) (column : t < len) : entry (tiled rewards scores) i t = scores.getD i 0 := by
  unfold entry tiled
  rw [rowAt_zipWith _ rewardShape.1 rows row [] 0, ← rowAt, length_rowAt rewardShape row,
    List.getD_replicate _ column]

theorem tileScores_eq (rewardShape : HasShape bs len rewards) (maskShape : HasShape bs len eosMask)
    (rows : scores.length = bs) :
    tileScores rewards scores eosMask =
      .ok (elementwise (· * ·) (tiled rewards scores) eosMask) := by
  have shape := hasShape_tiled rewardShape rows
  unfold tileScores
  dsimp only
  rw [← tiled, if_pos (shape.1.trans maskShape.1.symm),
    elementwise, ← List.map_uncurry_zip_eq_zipWith]
  apply mapM_ok
  intro pair member
  obtain ⟨inTiled, inMask⟩ := List.of_mem_zip (a := pair.1) (b := pair.2) member
  rw [broadcastMul, if_pos ((shape.2 _ inTiled).trans (maskShape.2 _ inMask).symm)]
  rfl

theorem getD_scoreRows [DecidableEq U] {index : List U} (rowScore : List K → K → K)
    (same : index.length = scores.length) {i : Nat} {uid : U} (here : index[i]? = some uid) :
    (scoreRows rowScore index scores).getD i 0 =
      rowScore (groupOf index scores uid) (scores.getD i 0) := by
  obtain ⟨inside, rfl⟩ := List.getElem?_eq_some_iff.mp here
  rw [List.getD_eq_getElem _ _ (by rw [length_scoreRows rowScore same]; omega),
    List.getD_eq_getElem _ _ (by omega)]
  simp only [scoreRows, List.getElem_zipWith]

end Rows

section Advantages

open Finset

variable {K U : Type} [Field K] [DecidableEq U] {index : List U} {scores : List K}

theorem rloo_of_single (same : index.length = scores.length) {i : Nat} (row : i < index.length)
    (single : (sameGroup index i).card = 1) :
    (scoreRows rlooScore index scores).getD i 0 = scores.getD i 0 := by
  have here := List.getElem?_eq_getElem row
  rw [getD_scoreRows rlooScore same here, rlooScore_of_single same here single]

variable [CharZero K]

theorem rloo_of_many (same : index.length = scores.length) {i : Nat} (row : i < index.length)
    (many : 2 ≤ (sameGroup index i).card) :
    (scoreRows rlooScore index scores).getD i 0 =
      leaveOneOut (scores.getD · 0) (sameGroup index i) i := by
  have here := List.getElem?_eq_getElem row
  rw [getD_scoreRows rlooScore same here, rlooScore_of_many same here many]

theorem sum_rloo (same : index.length = scores.length) {i : Nat}
    (many : 2 ≤ (sameGroup index i).card) :
    ∑ j ∈ sameGroup index i, (scoreRows rlooScore index scores).getD j 0 = 0 := by
  have each : ∀ j ∈ sameGroup index i,
      (scoreRows rlooScore index scores).getD j 0 =
      leaveOneOut (scores.getD · 0) (sameGroup index i) j := by
    intro j member
    obtain ⟨inside, group⟩ := sameGroup_of_mem member
    rw [rloo_of_many same inside (by rwa [group]), group]
  rw [sum_congr rfl each, sum_leaveOneOut many]

def Consecutive (n : Nat) (index : List U) : Prop :=
  ∀ i < index.length, ∀ j < index.length, index[i]? = index[j]? ↔ i / n = j / n

theorem sameGroup_consecutive {n groups : Nat} (positive : 0 < n) (rows : index.length = groups * n)
    (consecutive : Consecutive n index) {i : Nat} (row : i < index.length) :
    sameGroup index i = Ico (i / n * n) (i / n * n + n) := by
  have last : (i / n + 1) * n ≤ index.length := by
    rw [rows]
    apply Nat.mul_le_mul_right
    exact (Nat.div_lt_iff_lt_mul positive).mpr (rows ▸ row)
  rw [Nat.succ_mul] at last
  ext j
  rw [sameGroup, mem_filter, mem_range, mem_Ico]
  have same : i / n * n ≤ j ∧ j < i / n * n + n ↔ j / n = i / n := by
    rw [Nat.div_eq_iff positive]
    omega
  rw [same]
  constructor
  · rintro ⟨inside, uid⟩
    exact (consecutive j inside i row).mp uid
  · intro group
    have inside : j < index.length := by
      have := same.mpr group
      omega
    exact ⟨inside, (consecutive j inside i row).mpr group⟩

end Advantages

end Verl.Trainer
