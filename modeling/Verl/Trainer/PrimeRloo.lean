import Verl.Base.Blocks
import Verl.Base.Discounted
import Verl.Base.Masked
import Verl.Trainer.Rloo

/-! `compute_rloo_advantage_return` of `recipe/prime/prime_core_algos.py` over an exact field. The
groups are strides of `n_samples` rows, and each source of rewards marks its own positions. -/
namespace Verl.Trainer

section Model

variable {K : Type} [Field K]

def gatherMasked (x : List (List K)) (mask : List (List Bool)) : List K :=
  (x.zip mask).flatMap (fun rows => keep rows.2 rows.1)

def updateMasked (f : K → K) (x : List (List K)) (mask : List (List Bool)) : List (List K) :=
  List.zipWith (List.zipWith (fun value marked => if marked then f value else value)) x mask

/-- The mean over the marked entries of one row. Of no entries it is NaN, which an exact field
does not have. -/
def markedMean (rewardTensor : List (List K)) (maskTensor : List (List Bool)) (pos : Nat) : Py K :=
  let marked := gatherMasked (slice pos (pos + 1) rewardTensor) (slice pos (pos + 1) maskTensor)
  if marked.isEmpty then .error (.value "nan") else .ok (mean marked)

def rlooGroup (nSamples : Nat) (maskTensor : List (List Bool)) (rewardTensor : List (List K))
    (startPos : Nat) :
    Py (List (List K)) := do
  let curRewardsMean ← (List.range' startPos nSamples).mapM (markedMean rewardTensor maskTensor)
  let curRewardBaseline := curRewardsMean.sum / (nSamples - 1)
  -- `n_samples / (n_samples - 1)` divides Python numbers, not tensors
  if nSamples = 1 then .error .zeroDivision
  else
    let group := updateMasked (fun reward =>
      reward * (nSamples / (nSamples - 1)) - curRewardBaseline)
      (slice startPos (startPos + nSamples) rewardTensor)
        (slice startPos (startPos + nSamples) maskTensor)
    .ok (rewardTensor.take startPos ++ group ++ rewardTensor.drop (startPos + nSamples))

def maskedRloo (nSamples : Nat) (rewardTensorOriginal : List (List K))
    (maskTensor : List (List Bool)) : Py (List (List K)) :=
  if rewardTensorOriginal.map List.length = maskTensor.map List.length then
    let rewardTensor :=
      List.zipWith (List.zipWith (fun reward marked => if marked then reward else 0))
      rewardTensorOriginal maskTensor
    if nSamples = 0 then .error (.value "range() arg 3 must not be zero")
    else
      let passes := (rewardTensor.length + nSamples - 1) / nSamples
      (List.range passes).foldlM (fun rewardTensor pass =>
        rlooGroup nSamples maskTensor rewardTensor (pass * nSamples))
        rewardTensor
  else .error .index

/-- The column `valid_response_length - 1`, where -1 is the last one. -/
def lastColumn (width validResponseLength : Nat) : Py Nat :=
  if validResponseLength = 0 then if width = 0 then .error .index else .ok (width - 1)
  else if validResponseLength ≤ width then .ok (validResponseLength - 1)
  else .error .index

def putLast {α : Type} (validResponseLength : List Nat) (values : List α) (x : List (List α)) :
    Py (List (List α)) :=
  if values.length = validResponseLength.length then
    (List.range validResponseLength.length).foldlM (fun x i => do
      let row ← pyGet x i
      let valid ← pyGet validResponseLength i
      let column ← lastColumn row.length valid
      let value ← pyGet values i
      pySet x i (row.set column value)) x
  else .error (.runtime "shape mismatch: value tensor cannot be broadcast to indexing result")

/-- The keys of `data.batch` that are read; `prompts` by its length only. -/
structure PrimeBatch (K : Type) where
  rmScores : Option (List (List K))
  acc : Option (List K)
  promptLength : Nat
  attentionMask : List (List Nat)

structure PrimeCoefs (K : Type) where
  rewardDpoCoef : K
  rewardGtCoef : K

/-- The argument of `masked_rloo` in the branch of `acc`, and its result. -/
def accRloo (nSamples : Nat) (data : PrimeBatch K) (acc : List K) (eosMask : List (List K)) :
    Py (List (List K)) := do
  let rewardTensor := eosMask.map (fun row => row.map (fun _ => 0))
  let rewardMask := eosMask.map (fun row => row.map (fun _ => false))
  let validResponseLength := data.attentionMask.map (fun row => (row.drop data.promptLength).sum)
  let rewardMask ← putLast validResponseLength
    (List.replicate validResponseLength.length true) rewardMask
  let rewardTensor ← putLast validResponseLength acc rewardTensor
  maskedRloo nSamples rewardTensor rewardMask

variable [DecidableEq K]

def weighted {α : Type} (source : Option α) (coef : K) (rloo : α → Py (List (List K))) :
    Py (List (List (List K))) :=
  match source with
  | some value =>
    if coef ≠ 0 then do
      let tensor ← rloo value
      return [tensor.map (fun row => row.map (· * coef))]
    else .ok []
  | none => .ok []

def computeRlooAdvantageReturn (rsqrt : K → K) (data : PrimeBatch K) (eosMask : List (List K))
    (nSamples : Nat) (config : PrimeCoefs K) : Py (List (List K) × List (List K)) := do
  let dpo ← weighted data.rmScores config.rewardDpoCoef (fun rmScores =>
    maskedRloo nSamples rmScores
      (eosMask.map (fun row => row.map (fun marked => decide (marked ≠ 0)))))
  let gt ← weighted data.acc config.rewardGtCoef (fun acc => accRloo nSamples data acc eosMask)
  let finalRewardTensor :=
    (dpo ++ gt).foldl (elementwise (· + ·)) (eosMask.map (fun row => row.map (fun _ => 0)))
  let returns := (elementwise (· * ·) finalRewardTensor eosMask).map flipCumsumFlip
  let advantages ← maskedWhiten rsqrt returns eosMask
  return (advantages, returns)

end Model

section MarkedRows

variable {K α : Type}

def markedRows (bs len : Nat) (column : Nat → Nat) (rest : α) (value : Nat → α) : List (List α) :=
  (List.range bs).map (fun i => oneAt len (column i) rest (value i))

theorem keep_oneAt {len position : Nat} (inside : position < len) (rest value : α) :
    keep (oneAt len position false true) (oneAt len position rest value) = [value] := by
  rw [oneAt_eq_append inside, oneAt_eq_append inside, keep_append (by simp), keep_false (by simp),
    List.nil_append, keep, keep_false (by simp)]

theorem markedRows_congr {bs len : Nat} {column : Nat → Nat} {rest : α} {f g : Nat → α}
    (same : ∀ i < bs, f i = g i) :
    markedRows bs len column rest f = markedRows bs len column rest g := by
  apply List.map_congr_left
  intro i member
  rw [same i (List.mem_range.mp member)]

variable [Field K] {bs len : Nat} {column : Nat → Nat} (inside : ∀ i < bs, column i < len)

def strideRloo (nSamples : Nat) (value : Nat → K) (i : Nat) : K :=
  value i * (nSamples / (nSamples - 1)) - ((List.range' (i / nSamples * nSamples) nSamples).map
    value).sum / (nSamples - 1)

theorem strideRloo_pass {nSamples : Nat} (value : Nat → K) (k i : Nat) :
    (if k * nSamples ≤ i ∧ i < k * nSamples + nSamples then
        (if i < k * nSamples then strideRloo nSamples value i
          else value i) * (nSamples / (nSamples - 1)) - ((List.range' (k * nSamples) nSamples).map
            (fun i => if i < k * nSamples then strideRloo nSamples value i
              else value i)).sum / (nSamples - 1)
      else if i < k * nSamples then strideRloo nSamples value i else value i) =
      if i < (k + 1) * nSamples then strideRloo nSamples value i else value i := by
  have rest : (List.range' (k * nSamples) nSamples).map
      (fun i => if i < k * nSamples then strideRloo nSamples value i else value i) =
      (List.range' (k * nSamples) nSamples).map value := by
    apply List.map_congr_left
    intro j member
    rw [if_neg (Nat.not_lt.mpr (List.mem_range'_1.mp member).1)]
  rw [rest, Nat.succ_mul]
  by_cases here : k * nSamples ≤ i ∧ i < k * nSamples + nSamples
  · have group : i / nSamples = k := by
      apply Nat.div_eq_of_lt_le here.1
      rw [Nat.succ_mul]
      exact here.2
    rw [if_pos here, if_neg (Nat.not_lt.mpr here.1), if_pos here.2, strideRloo, group]
  · rw [if_neg here]
    by_cases earlier : i < k * nSamples
    · rw [if_pos earlier, if_pos (by omega)]
    · rw [if_neg earlier, if_neg (by omega)]

include inside

theorem markedMean_markedRows (value : Nat → K) {pos : Nat} (row : pos < bs) :
    markedMean (markedRows bs len column 0 value) (markedRows bs len column false (fun _ => true))
      pos = .ok (value pos) := by
  unfold markedMean markedRows
  have one : pos + 1 ≤ bs := row
  rw [slice_map_range one, slice_map_range one, Nat.add_sub_cancel_left]
  simp [gatherMasked, keep_oneAt (inside pos row), mean]

theorem rlooGroup_markedRows {nSamples : Nat} (several : nSamples ≠ 1) (value : Nat → K)
    {start : Nat} (fits : start + nSamples ≤ bs) :
    rlooGroup nSamples (markedRows bs len column false (fun _ => true))
      (markedRows bs len column 0 value) start = .ok (markedRows bs len column 0 (fun i =>
        if start ≤ i ∧ i < start + nSamples then
          value i * (nSamples / (nSamples - 1)) - ((List.range' start nSamples).map value).sum /
            (nSamples - 1)
        else value i)) := by
  have means : (List.range' start nSamples).mapM
      (markedMean (markedRows bs len column 0 value)
        (markedRows bs len column false (fun _ => true))) =
      .ok ((List.range' start nSamples).map value) := by
    apply mapM_ok
    intro pos member
    have place := List.mem_range'_1.mp member
    exact markedMean_markedRows inside value (by omega)
  obtain ⟨rest, rfl⟩ := Nat.exists_eq_add_of_le fits
  unfold rlooGroup
  rw [means, ok_bind, if_neg several]
  dsimp only [markedRows]
  rw [slice_map_range (Nat.le_add_right _ _), slice_map_range (Nat.le_add_right _ _),
    Nat.add_sub_cancel_left, updateMasked, List.zipWith_map, List.zipWith_self]
  simp only [zipWith_oneAt, if_true, Bool.false_eq_true, if_false]
  rw [splice_map_range]
  congr 1
  apply List.map_congr_left
  intro i _
  split <;> rfl

theorem maskedRloo_markedRows {nSamples groups : Nat} (several : 2 ≤ nSamples)
    (rows : bs = groups * nSamples) (value : Nat → K) :
    maskedRloo nSamples (markedRows bs len column 0 value)
      (markedRows bs len column false (fun _ => true)) =
      .ok (markedRows bs len column 0 (strideRloo nSamples value)) := by
  have lengths : (markedRows bs len column 0 value).map List.length =
      (markedRows bs len column false (fun _ => true)).map List.length := by
    simp [markedRows, Function.comp_def]
  have cleared : List.zipWith (List.zipWith (fun reward marked => if marked then reward else 0))
      (markedRows bs len column 0 value) (markedRows bs len column false (fun _ => true)) =
        markedRows bs len column 0 value := by
    unfold markedRows
    rw [List.zipWith_map, List.zipWith_self]
    simp only [zipWith_oneAt, if_true, Bool.false_eq_true, if_false]
  have passes : ((markedRows bs len column 0 value).length + nSamples - 1) / nSamples = groups := by
    have count : (markedRows bs len column 0 value).length + nSamples - 1 =
        nSamples - 1 + groups * nSamples := by
      simp only [markedRows, List.length_map, List.length_range]
      omega
    rw [count, Nat.add_mul_div_right _ _ (by omega), Nat.div_eq_of_lt (by omega), Nat.zero_add]
  -- before pass `k` the rows of the first `k` groups are done
  have loop := foldlM_up (n := groups)
    (f := fun rewardTensor pass =>
      rlooGroup nSamples (markedRows bs len column false (fun _ => true)) rewardTensor
      (pass * nSamples))
    (fun k => markedRows bs len column 0 (fun i => if i < k * nSamples then
      strideRloo nSamples value i else value i))
    (by
      intro k pass
      have bound : (k + 1) * nSamples ≤ groups * nSamples := Nat.mul_le_mul_right _ pass
      rw [Nat.succ_mul] at bound
      rw [rlooGroup_markedRows inside (by omega) _ (by omega)]
      congr 1
      apply markedRows_congr
      intro i _
      exact strideRloo_pass value k i)
  rw [maskedRloo, if_pos lengths, cleared, if_neg (by omega), passes]
  simp only [Nat.zero_mul, Nat.not_lt_zero, if_false] at loop
  rw [loop]
  congr 1
  apply markedRows_congr
  intro i row
  rw [if_pos (by omega)]

end MarkedRows

section LastToken

variable {α : Type} {len : Nat} {valid : List Nat}

theorem lastColumn_ok {width count : Nat} (some : 1 ≤ count) (fits : count ≤ width) :
    lastColumn width count = .ok (count - 1) := by
  rw [lastColumn, if_neg (by omega), if_pos fits]

theorem putLast_eq {values : List α} (same : values.length = valid.length)
    (fits : ∀ count ∈ valid, 1 ≤ count ∧ count ≤ len) (rest default : α) :
    putLast valid values (List.replicate valid.length (List.replicate len rest)) =
      .ok (markedRows valid.length len (fun i => valid.getD i 0 - 1) rest (fun i =>
        values.getD i default)) := by
  let row (k i : Nat) : List α :=
    if i < k then
      oneAt len (valid.getD i 0 - 1) rest (values.getD i default)
    else List.replicate len rest
  have loop := foldlM_up (n := valid.length) (f := fun x i => do
      let row ← pyGet x i
      let count ← pyGet valid i
      let column ← lastColumn row.length count
      let value ← pyGet values i
      pySet x i (row.set column value)) (fun k => (List.range valid.length).map (row k))
    (by
      intro k inside
      have count := fits _ (List.getElem_mem inside)
      have below : k < values.length := by omega
      have fresh : row k k = List.replicate len rest := if_neg (Nat.lt_irrefl k)
      rw [pyGet_map_range _ inside, ok_bind, pyGet_of_lt inside, ok_bind, fresh,
        List.length_replicate, lastColumn_ok count.1 count.2, ok_bind, pyGet_of_lt below, ok_bind,
        pySet_map_range _ inside]
      congr 1
      apply List.map_congr_left
      intro i _
      rcases Nat.lt_trichotomy i k with before | rfl | after
      · rw [if_neg (by omega)]
        simp only [row, before, Nat.lt_succ_of_lt before, if_true]
      · rw [if_pos rfl]
        simp only [row, Nat.lt_succ_self, if_true, oneAt, List.getD_eq_getElem _ _ inside,
          List.getD_eq_getElem _ _ below]
      · rw [if_neg (by omega)]
        simp only [row, Nat.not_lt_of_lt after, show ¬i < k + 1 by omega, if_false])
  have start : (List.range valid.length).map (row 0) =
      List.replicate valid.length (List.replicate len rest) := by
    simp [row, List.map_const']
  rw [putLast, if_pos same, ← start, loop]
  congr 1
  apply List.map_congr_left
  intro i member
  exact if_pos (List.mem_range.mp member)

end LastToken

section OutcomeRewards

open Finset

variable {K U : Type} {len : Nat} {valid : List Nat} {data : PrimeBatch K}

def RightPadded (data : PrimeBatch K) (len : Nat) (valid : List Nat) : Prop :=
  data.attentionMask.map (List.drop data.promptLength) =
    valid.map (fun count => List.replicate count 1 ++ List.replicate (len - count) 0)

theorem validResponseLength_eq (padded : RightPadded data len valid) :
    data.attentionMask.map (fun row => (row.drop data.promptLength).sum) = valid := by
  have sums := congrArg (List.map List.sum) padded
  simpa [Function.comp_def] using sums

theorem map_const_rows {α : Type} {bs : Nat} {x : List (List K)}
    (shape : HasShape bs len x) (rest : α) :
    x.map (fun row => row.map (fun _ => rest)) = List.replicate bs (List.replicate len rest) := by
  rw [List.eq_replicate_iff, List.length_map]
  refine ⟨shape.1, ?_⟩
  intro row member
  obtain ⟨source, inside, rfl⟩ := List.mem_map.mp member
  rw [List.map_const', shape.2 source inside]

theorem sum_Ico_add [AddCommMonoid K] (f : Nat → K) (start size : Nat) :
    ∑ j ∈ Ico start (start + size), f j = ((List.range' start size).map f).sum := by
  change ((List.range' start (start + size - start)).map f).sum = _
  rw [Nat.add_sub_cancel_left]

variable [Field K]

theorem accRloo_eq {nSamples groups : Nat} (several : 2 ≤ nSamples)
    (rows : valid.length = groups * nSamples) (padded : RightPadded data len valid)
    (fits : ∀ count ∈ valid, 1 ≤ count ∧ count ≤ len) {acc : List K}
    (same : acc.length = valid.length) {eosMask : List (List K)}
    (maskShape : HasShape valid.length len eosMask) :
    accRloo nSamples data acc eosMask =
      .ok (markedRows valid.length len (fun i => valid.getD i 0 - 1) 0
        (strideRloo nSamples (acc.getD · 0))) := by
  have inside : ∀ i < valid.length, valid.getD i 0 - 1 < len := by
    intro i row
    have count := fits _ (List.getElem_mem row)
    rw [List.getD_eq_getElem _ _ row]
    omega
  have marks := putLast_eq (List.length_replicate (n := valid.length) (a := true)) fits false true
  unfold accRloo
  dsimp only
  rw [validResponseLength_eq padded, map_const_rows maskShape, map_const_rows maskShape,
    marks, ok_bind, putLast_eq same fits 0 0, ok_bind]
  have always : ∀ i, (List.replicate valid.length true).getD i true = true := by
    intro i
    rw [List.getD_eq_getElem?_getD, List.getElem?_getD_replicate_default_eq]
  simp only [always]
  exact maskedRloo_markedRows inside several rows _

theorem entry_markedRows {bs i t : Nat} (row : i < bs) (column : Nat → Nat) (value : Nat → K) :
    entry (markedRows bs len column 0 value) i t = if t = column i ∧ column i < len then
      value i else 0 := by
  have here : i < (List.range bs).length := by rwa [List.length_range]
  rw [entry, markedRows, rowAt_map _ here 0, List.getD_eq_getElem _ _ here,
    List.getElem_range, getD_oneAt]

/-- `final_reward_tensor * eos_mask` when one source of rewards is used. -/
def weightedRewards (coef : K) (tensor eosMask : List (List K)) : List (List K) :=
  elementwise (· * ·) (elementwise (· + ·) (eosMask.map (fun row => row.map (fun _ => 0)))
    (tensor.map (fun row => row.map (· * coef)))) eosMask

theorem hasShape_weightedRewards {tensor eosMask : List (List K)} {bs : Nat} (coef : K)
    (shape : HasShape bs len tensor)
    (mask : HasShape bs len eosMask) : HasShape bs len (weightedRewards coef tensor eosMask) :=
  hasShape_elementwise
    _ (hasShape_elementwise _ (hasShape_mapEntries _ mask) (hasShape_mapEntries _ shape)) mask

theorem entry_weightedRewards {tensor eosMask : List (List K)} {bs i s : Nat} (coef : K)
    (shape : HasShape bs len tensor)
    (mask : HasShape bs len eosMask) (row : i < bs) (column : s < len) :
    entry (weightedRewards coef tensor eosMask) i s =
      entry tensor i s * coef * entry eosMask i s := by
  have zeros := hasShape_mapEntries (fun _ => (0 : K)) mask
  have scaled := hasShape_mapEntries (· * coef) shape
  unfold weightedRewards
  rw [entry_elementwise _ (hasShape_elementwise _ zeros scaled) mask row column,
    entry_elementwise _ zeros scaled row column, entry_mapEntries _ mask row column,
    entry_mapEntries _ shape row column, zero_add]

/-- The only reward still to come at a valid token is the one at the last of them. -/
theorem entry_weightedReturns {tensor : List (List K)} {value : K} {i t : Nat}
    (short : ∀ count ∈ valid, count ≤ len) (shape : HasShape valid.length len tensor) (coef : K)
    (entries : ∀ s < len, entry tensor i s = if s + 1 = valid.getD i 0 then value else 0)
    (here : t < valid.getD i 0) :
    entry ((weightedRewards coef tensor (responseMask len valid)).map flipCumsumFlip) i t =
      value * coef := by
  obtain ⟨row, below, -⟩ := valid_inside short here
  have mask := hasShape_responseMask (K := K) short
  have rewards := hasShape_weightedRewards coef shape mask
  have marked : ∀ s < len, entry (weightedRewards coef tensor (responseMask len valid)) i s =
      if s + 1 = valid.getD i 0 then value * coef else 0 := by
    intro s inside
    rw [entry_weightedRewards coef shape mask row inside, entries s inside, entry_responseMask]
    by_cases last : s + 1 = valid.getD i 0
    · rw [if_pos last, if_pos last, if_pos (by omega), mul_one]
    · rw [if_neg last, if_neg last, zero_mul, zero_mul]
  have only : discounted 1 (entry (weightedRewards coef tensor (responseMask len valid)) i) len t =
      1 ^ (valid.getD i 0 - 1 - t) * (value * coef) := by
    rw [discounted_single (k := valid.getD i 0 - 1) (by omega) (by omega), marked _ (by omega),
      if_pos (by omega)]
    intro s _ inside other
    rw [marked s inside, if_neg (by omega)]
  rw [one_pow, one_mul] at only
  rw [entry, rowAt_map _ (rewards.1.symm ▸ row) [], ← rowAt, getD_flipCumsumFlip,
    length_rowAt rewards row]
  exact only

theorem score_getD (rewards : List (List K)) (i : Nat) :
    (rewards.map List.sum).getD i 0 = (rowAt rewards i).sum :=
  List.getD_map rewards [] List.sum

variable [CharZero K] [DecidableEq U]

theorem strideRloo_eq {index : List U} {nSamples groups : Nat} (several : 2 ≤ nSamples)
    (rows : index.length = groups * nSamples) (consecutive : Consecutive nSamples index)
    (score : Nat → K) {i : Nat} (row : i < index.length) :
    strideRloo nSamples score i = leaveOneOut score (sameGroup index i) i := by
  have group := sameGroup_consecutive (by omega) rows consecutive row
  have size : (sameGroup index i).card = nSamples := by
    rw [group, Nat.card_Ico, Nat.add_sub_cancel_left]
  have sum : ∑ j ∈ sameGroup index i,
      score j = ((List.range' (i / nSamples * nSamples) nSamples).map score).sum := by
    rw [group, sum_Ico_add]
  rw [leaveOneOut_eq (by omega) (mem_sameGroup row), size, sum, strideRloo]
  ring

theorem accRloo_places {index : List U} {nSamples groups : Nat} (several : 2 ≤ nSamples)
    (consecutive : Consecutive nSamples index) (indexRows : index.length = groups * nSamples)
    (validRows : valid.length = groups * nSamples) (fits : ∀ count ∈ valid, 1 ≤ count ∧ count ≤ len)
    (padded : RightPadded data len valid) {acc : List K} (accRows : acc.length = groups * nSamples)
    {eosMask : List (List K)} (maskShape : HasShape (groups * nSamples) len eosMask) :
    ∃ tensor, accRloo nSamples data acc eosMask = .ok tensor ∧
      HasShape (groups * nSamples) len tensor ∧
      ∀ i < groups * nSamples, ∀ t < len, entry tensor i t =
        if t + 1 = valid.getD i 0 then (scoreRows rlooScore index acc).getD i 0 else 0 := by
  rw [← validRows] at maskShape
  have run := accRloo_eq several validRows padded fits (accRows.trans validRows.symm) maskShape
  refine ⟨_, run, ?_, ?_⟩
  · rw [← validRows]
    constructor
    · simp [markedRows]
    · intro row member
      obtain ⟨i, -, rfl⟩ := List.mem_map.mp member
      exact length_oneAt _ _ _ _
  · intro i row t column
    have inside : i < index.length := by omega
    have here : i < valid.length := by omega
    have count := fits _ (List.getElem_mem here)
    rw [← List.getD_eq_getElem _ 0 here] at count
    have size : 2 ≤ (sameGroup index i).card := by
      rw [sameGroup_consecutive (by omega) indexRows consecutive inside, Nat.card_Ico]
      omega
    have place : t = valid.getD i 0 - 1 ∧ valid.getD i 0 - 1 < len ↔
      t + 1 = valid.getD i 0 := by omega
    rw [entry_markedRows here, strideRloo_eq several indexRows consecutive _ inside,
      rloo_of_many (indexRows.trans accRows.symm) inside size]
    simp only [place]

theorem computeRlooAdvantageReturn_acc [DecidableEq K] (rsqrt : K → K) {index : List U}
    {nSamples groups : Nat} (several : 2 ≤ nSamples) (consecutive : Consecutive nSamples index)
    (indexRows : index.length = groups * nSamples) (validRows : valid.length = groups * nSamples)
    (fits : ∀ count ∈ valid, 1 ≤ count ∧ count ≤ len) (padded : RightPadded data len valid)
    {acc : List K} (accRows : acc.length = groups * nSamples)
    (outcomes : data.rmScores = none ∧ data.acc = some acc) {coefs : PrimeCoefs K}
    (used : coefs.rewardGtCoef ≠ 0) :
    ∃ returns, computeRlooAdvantageReturn rsqrt data (responseMask len valid) nSamples coefs =
        (maskedWhiten rsqrt returns (responseMask len valid)).map
          (fun whitened => (whitened, returns)) ∧
      ∀ i t, t < valid.getD i 0 →
        entry returns i t = (scoreRows rlooScore index acc).getD i 0 * coefs.rewardGtCoef := by
  have short : ∀ count ∈ valid, count ≤ len := fun count member => (fits count member).2
  have mask : HasShape valid.length len (responseMask len valid : List (List K)) :=
    hasShape_responseMask short
  obtain ⟨tensor, run, shape, entries⟩ :=
    accRloo_places several consecutive indexRows validRows fits padded accRows (validRows ▸ mask)
  rw [← validRows] at shape entries
  refine ⟨(weightedRewards coefs.rewardGtCoef tensor (responseMask len valid)).map flipCumsumFlip,
    ?_, ?_⟩
  · rw [computeRlooAdvantageReturn, outcomes.1, outcomes.2]
    simp only [weighted, used, ne_eq, not_false_eq_true, if_true, ok_bind, run, pure_eq_ok,
      List.nil_append, List.foldl_cons, List.foldl_nil]
    rfl
  · intro i t here
    exact entry_weightedReturns short shape _ (entries i (valid_inside short here).1) here

/-- RLOO gives each row of a group its score less the mean of the others, and on groups of `n` rows
in a row the branch of `acc` puts the same number at the last valid token. -/
theorem rloo_advantages [ToString U] {bs : Nat} {rewards eosMask : List (List K)} {index : List U}
    (rewardShape : HasShape bs len rewards) (maskShape : HasShape bs len eosMask)
    (indexRows : index.length = bs) :
    ∃ (rows : List (List K)) (advantage : Nat → K),
      computeRlooOutcomeAdvantage rewards eosMask index = .ok (rows, rows) ∧ HasShape bs len rows ∧
      (∀ i < bs, ∀ t < len, entry rows i t = advantage i * entry eosMask i t) ∧
      (∀ i < bs, 2 ≤ (sameGroup index i).card →
        advantage i = (rowAt rewards i).sum -
          (∑ j ∈ (sameGroup index i).erase i,
            (rowAt rewards j).sum) / ((sameGroup index i).card - 1) ∧
        ∑ j ∈ sameGroup index i, advantage j = 0) ∧
      (∀ i < bs, (sameGroup index i).card = 1 → advantage i = (rowAt rewards i).sum) ∧
      ∀ (nSamples groups : Nat) (data : PrimeBatch K) (valid : List Nat), 2 ≤ nSamples →
        bs = groups * nSamples →
        Consecutive nSamples index → valid.length = bs →
          (∀ count ∈ valid, 1 ≤ count ∧ count ≤ len) →
        RightPadded data len valid →
        ∃ tensor, accRloo nSamples data (rewards.map List.sum) eosMask = .ok tensor ∧
          HasShape bs len tensor ∧
          ∀ i < bs, ∀ t < len, entry tensor i t = if t + 1 = valid.getD i 0 then
            advantage i else 0 := by
  have same : index.length = (rewards.map List.sum).length := by
    rw [List.length_map, rewardShape.1, indexRows]
  have scoreCount : (scoreRows rlooScore index (rewards.map List.sum)).length = bs := by
    rw [length_scoreRows rlooScore same, List.length_map, rewardShape.1]
  have tiles := hasShape_tiled rewardShape scoreCount
  refine ⟨elementwise (· * ·) (tiled rewards (scoreRows rlooScore index (rewards.map List.sum)))
    eosMask, fun i => (scoreRows rlooScore index (rewards.map List.sum)).getD i 0, ?_,
      hasShape_elementwise _ tiles maskShape, ?_, ?_, ?_, ?_⟩
  · rw [computeRlooOutcomeAdvantage_eq (indexRows.trans rewardShape.1.symm),
      tileScores_eq rewardShape maskShape scoreCount]
    rfl
  · intro i row t column
    rw [entry_elementwise _ tiles maskShape row column,
      entry_tiled rewardShape scoreCount row column]
  · intro i row many
    refine ⟨?_, sum_rloo same many⟩
    simp only [← score_getD]
    exact rloo_of_many same (by omega) many
  · intro i row single
    rw [← score_getD]
    exact rloo_of_single same (by omega) single
  · rintro nSamples groups data valid several rfl consecutive validRows fits padded
    exact accRloo_places several consecutive indexRows validRows fits padded
      (same.symm.trans indexRows) maskShape

end OutcomeRewards

def twoGroups : PrimeBatch ℚ where
  rmScores := none
  acc := some [1, 0, 1, 1]
  promptLength := 1
  attentionMask := [[1, 1, 1], [0, 1, 0], [1, 1, 0], [1, 1, 1]]

theorem rloo_advantages_two_groups :
    ∃ (rows : List (List ℚ)) (advantage : Nat → ℚ),
      computeRlooOutcomeAdvantage [[0, 1], [0, 0], [1, 0], [0, 1]] [[1, 1], [1, 0], [1, 0],
        [1, 1]] ["a", "a", "b", "b"] = .ok (rows, rows) ∧
      ∑ j ∈ sameGroup ["a", "a", "b", "b"] 0, advantage j = 0 ∧
      ∃ tensor, accRloo 2 twoGroups [1, 0, 1, 1] [[1, 1], [1, 0], [1, 0], [1, 1]] = .ok tensor ∧
        entry tensor 0 1 = advantage 0 := by
  have rewardShape : HasShape 4 2 [[(0 : ℚ), 1], [0, 0], [1, 0], [0, 1]] := ⟨rfl, by simp⟩
  have maskShape : HasShape 4 2 [[(1 : ℚ), 1], [1, 0], [1, 0], [1, 1]] := ⟨rfl, by simp⟩
  have consecutive : Consecutive 2 ["a", "a", "b", "b"] := by
    unfold Consecutive
    decide
  have scores : [[(0 : ℚ), 1], [0, 0], [1, 0], [0, 1]].map List.sum = [1, 0, 1, 1] := by
    decide +kernel
  obtain ⟨rows, advantage, run, -, -, many, -, prime⟩ :=
    rloo_advantages rewardShape maskShape (show ["a", "a", "b", "b"].length = 4 from rfl)
  obtain ⟨tensor, acc, -, entries⟩ :=
    prime 2 2 twoGroups [2, 1, 1, 2] (by decide) rfl consecutive rfl (by decide) rfl
  rw [scores] at acc
  exact ⟨rows, advantage, run, (many 0 (by decide) (by decide)).2, tensor, acc,
    entries 0 (by decide) 1 (by decide)⟩

end Verl.Trainer
