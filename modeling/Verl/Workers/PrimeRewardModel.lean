import Mathlib.Algebra.Field.Rat
import Mathlib.Algebra.Order.Field.Basic
import Mathlib.Algebra.Order.Ring.Rat
import Mathlib.Algebra.BigOperators.Group.List.Basic
import Verl.Workers.Forward

/-! `DataParallelPRIMERewardModel.compute_rm_score` and `update_rm`. The forward
pass is a row-wise parameter that gives a token-level score and a `q` for every
response position; the losses, `backward()` and the optimizer are one parameter
step on the module's state. -/
namespace Verl.Prime
open SeqlenBalancing Workers

variable {α : Type} {K : Type} [Field K] [LinearOrder K]

/-- `torch.cumsum(scores.flip(dims=[1]), dim=-1).flip(dims=[1])` on one row. -/
def reverseCumsum (row : List K) : List K :=
  (List.range row.length).map (fun t => (row.drop t).sum)

/-- `reverse_cumsum.abs().max() + 1e-6`; `max()` of an empty tensor raises. -/
def normDivisor (scores : List (List K)) : Py K :=
  match (scores.flatMap (fun row => (reverseCumsum row).map abs)).max? with
  | some largest => .ok (largest + 1 / 1000000)
  | none => .error (.runtime "max()")

def primeNorm (batchNorm : Bool) (scores : List (List K)) : Py (List (List K)) :=
  if batchNorm then do
    let divisor ← normDivisor scores
    return scores.map (fun row => row.map (· / divisor))
  else .ok scores

/-- The `reward_model` config. Its last two keys are in no default file of the
recipe, and reading one that is not set raises. -/
structure RmConfig where
  useDynamicBsz : Bool
  batchNorm : Bool
  miniBatchSize : Nat
  microBatchSizePerGpu : Nat
  forwardMaxTokenLenPerGpu : Nat
  ppoMaxTokenLenPerGpu : Option Nat
  ppoMiniBatchSize : Option Nat

/-- The `meta_info` that the worker's `compute_rm_score` sets. -/
def RmConfig.metaInfo (config : RmConfig) : MetaInfo :=
  ⟨config.microBatchSizePerGpu, config.useDynamicBsz, config.forwardMaxTokenLenPerGpu⟩

def configGet (name : String) (value : Option Nat) : Py Nat :=
  match value with
  | none => .error (.attribute name)
  | some value => .ok value

abbrev Forward (α K : Type) := Row α → Nat → K × K

def scoreRow (numActions : Nat) (forward : Forward α K) (row : Row α) : List K :=
  (List.range numActions).map (fun t => (forward row t).1)

def qRow (numActions : Nat) (forward : Forward α K) (row : Row α) : List K :=
  (List.range numActions).map (fun t => (forward row t).2)

def meanSum (scores : List (List K)) : K := (scores.map List.sum).sum / scores.length

structure RmScores (K : Type) where
  rmScores : List (List K)
  q : List (List K)
  reward : K
  rawReward : K

def rmOutput (rmScores q : List (List K)) : RmScores K := ⟨rmScores, q, meanSum rmScores, meanSum q⟩

/-- `compute_rm_score`: both tensors are gathered, `rm_scores` is reverted. -/
def computeRmScore (sp : Nat) (peers : Peers) (config : RmConfig) (forward : Forward α K)
    (data : Data α) : Py (RmScores K) := do
  let info := config.metaInfo
  let (micro, indices) ← microBatches sp peers { data with hasMultiModalInputs := false } info
  let rmScores := micro.flatMap (fun rows => rows.map (scoreRow data.responseLength forward))
  let q := micro.flatMap (fun rows => rows.map (qRow data.responseLength forward))
  let rmScores ← primeNorm config.batchNorm rmScores
  let rmScores ← revert data info indices rmScores
  return rmOutput rmScores q

/-- The micro batches of one mini batch of `update_rm`; the indices are dropped. -/
def cutMiniBatch (sp : Nat) (peers : Peers) (config : RmConfig) (mini : TokenBatch α) :
    Py (List (List (Row α))) := do
  if config.useDynamicBsz then
    let maxTokenLen ← configGet "ppo_max_token_len_per_gpu" config.ppoMaxTokenLenPerGpu
    let (micro, _) ← rearrangeMicroBatches mini (maxTokenLen * sp) peers
    return micro
  else splitRows config.microBatchSizePerGpu mini.rows

/-- The factor of a micro batch's loss, as far as it can raise. -/
def lossScale (config : RmConfig) : Py PUnit := do
  if config.useDynamicBsz then
    let size ← configGet "ppo_mini_batch_size" config.ppoMiniBatchSize
    if size = 0 then .error .zeroDivision else .ok ⟨⟩
  else .ok ⟨⟩

def runMiniBatch (sp : Nat) (peers : Peers) (config : RmConfig) (mini : TokenBatch α) :
    Py (List (List (Row α))) := do
  let micro ← cutMiniBatch sp peers config mini
  micro.forM (fun _ => lossScale config)
  return micro

section Update

variable {Θ : Type}

/-- The loop over the mini batches: the module's state at each of them, and the
micro batches it ran on. -/
def updateTrace (sp : Nat) (peers : Nat → Peers) (config : RmConfig)
    (trainStep : Θ → List (List (Row α)) → Θ) :
    Nat → Θ → List (TokenBatch α) → Py (List (Θ × List (List (Row α))))
  | _, _, [] => .ok []
  | batchIdx, state, mini :: rest => do
    let micro ← runMiniBatch sp (peers batchIdx) config mini
    let later ← updateTrace sp peers config trainStep (batchIdx + 1) (trainStep state micro) rest
    return (state, micro) :: later

def miniBatches (config : RmConfig) (data : Data α) : List (TokenBatch α) :=
  data.toTokenBatch.split config.miniBatchSize

def updateRm (sp : Nat) (peers : Nat → Peers) (config : RmConfig) (forward : Θ → Forward α K)
    (trainStep : Θ → List (List (Row α)) → Θ) (state : Θ) (data : Data α) : Py (RmScores K) := do
  if config.miniBatchSize = 0 then .error (.runtime "split_size") else
  let trace ← updateTrace sp peers config trainStep 0 state (miniBatches config data)
  let rmScores := trace.flatMap (fun (state, micro) =>
    micro.flatMap (fun rows => rows.map (scoreRow data.responseLength (forward state))))
  let q := trace.flatMap (fun (state, micro) =>
    micro.flatMap (fun rows => rows.map (qRow data.responseLength (forward state))))
  let rmScores ← primeNorm config.batchNorm rmScores
  return rmOutput rmScores q

end Update

section Norm

theorem normDivisor_perm {xs ys : List (List K)} (perm : xs.Perm ys) :
    normDivisor xs = normDivisor ys := by
  have entries := perm.flatMap_right (fun row => (reverseCumsum row).map abs)
  have largest : (xs.flatMap (fun row => (reverseCumsum row).map abs)).max? =
      (ys.flatMap (fun row => (reverseCumsum row).map abs)).max? := by
    generalize xs.flatMap _ = as at entries
    generalize ys.flatMap _ = bs at entries
    apply Option.ext
    intro m
    rw [List.max?_eq_some_iff, List.max?_eq_some_iff]
    simp only [entries.mem_iff]
  rw [normDivisor, normDivisor, largest]

theorem primeNorm_total (batchNorm : Bool) (xs : List (List K)) (row : List K) (member : row ∈ xs)
    (nonempty : row ≠ []) : ∃ ys, primeNorm batchNorm xs = .ok ys := by
  cases batchNorm with
  | false => exact ⟨xs, rfl⟩
  | true =>
    have entries : xs.flatMap (fun row => (reverseCumsum row).map abs) ≠ [] := by
      intro none
      have := List.flatMap_eq_nil_iff.mp none row member
      simp [reverseCumsum, nonempty] at this
    obtain ⟨m, hm⟩ := Option.isSome_iff_exists.mp (List.isSome_max?_iff.mpr entries)
    exact ⟨_, by simp [primeNorm, normDivisor, hm]; rfl⟩

/-- Normalising acts on each row with one divisor that the row order does not change. -/
theorem primeNorm_pick {batchNorm : Bool} {xs ys : List (List K)} {p : List Nat}
    (perm : p.Perm (List.range xs.length)) (h : primeNorm batchNorm xs = .ok ys) :
    primeNorm batchNorm (pick xs p) = .ok (pick ys p) ∧ ys.length = xs.length := by
  cases batchNorm with
  | false =>
    cases Except.ok.inj h
    exact ⟨rfl, rfl⟩
  | true =>
    simp only [primeNorm, if_true, bind_ok_iff, pure_eq_ok, Except.ok.injEq] at h
    obtain ⟨c, hc, rfl⟩ := h
    have same : normDivisor (pick xs p) = .ok c := (normDivisor_perm (pick_perm perm rfl)).trans hc
    simp [primeNorm, same, pick_map]

theorem normDivisor_pos [IsStrictOrderedRing K] {xs : List (List K)} {c : K}
    (h : normDivisor xs = .ok c) : 0 < c := by
  unfold normDivisor at h
  split at h
  · rename_i m hm
    cases Except.ok.inj h
    have member := (List.max?_eq_some_iff.mp hm).1
    obtain ⟨row, _, hrow⟩ := List.mem_flatMap.mp member
    obtain ⟨x, _, rfl⟩ := List.mem_map.mp hrow
    exact add_pos_of_nonneg_of_pos (abs_nonneg x) (one_div_pos.mpr Nat.ofNat_pos)
  · contradiction

/-- Two orders of the same rows with the same normalised tensor are the same order. -/
theorem primeNorm_inj [IsStrictOrderedRing K] {batchNorm : Bool} {xs ys zs : List (List K)}
    (perm : xs.Perm ys)
    (hx : primeNorm batchNorm xs = .ok zs) (hy : primeNorm batchNorm ys = .ok zs) : xs = ys := by
  cases batchNorm with
  | false => exact (Except.ok.inj hx).trans (Except.ok.inj hy).symm
  | true =>
    simp only [primeNorm, if_true, bind_ok_iff, pure_eq_ok, Except.ok.injEq] at hx hy
    obtain ⟨c, hc, hxz⟩ := hx
    obtain ⟨d, hd, hyz⟩ := hy
    have same : c = d := Except.ok.inj (hc.symm.trans ((normDivisor_perm perm).trans hd))
    subst same
    have nonzero := (normDivisor_pos hc).ne'
    have injective : Function.Injective (fun x : K => x / c) := fun a b h => by
      simpa [div_left_inj' nonzero] using h
    exact List.map_injective_iff.mpr (List.map_injective_iff.mpr injective) (hxz.trans hyz.symm)

end Norm

def RowsAligned (sp : Nat) (peers : Peers) (batch : TokenBatch α) (maxTokenLen : Nat) : Prop :=
  batch.maxSeqLen ≤ maxTokenLen * sp ∧ ∃ count partitions,
    numMicroBatches batch (maxTokenLen * sp) peers = .ok count ∧
    getSeqlenBalancedPartitions batch.seqLens count false = .ok partitions ∧
    pick batch.rows partitions.flatten = batch.rows

theorem rowsAligned_iff {sp : Nat} {peers : Peers} {batch : TokenBatch α} {maxTokenLen : Nat} :
    RowsAligned sp peers batch maxTokenLen ↔ ∃ micro indices,
      rearrangeMicroBatches batch (maxTokenLen * sp) peers = .ok (micro, indices) ∧
      micro.flatten = batch.rows := by
  constructor
  · rintro ⟨wide, count, partitions, hcount, hparts, fixed⟩
    have enough : count ≤ batch.rows.length := by
      simpa [TokenBatch.seqLens] using (partitions_bounds hparts).2
    have returned : rearrangeMicroBatches batch (maxTokenLen * sp) peers =
        .ok (partitions.map (fun part => part.flatMap (fun idx => slice idx (idx + 1) batch.rows)),
          partitions) := by
      simp [rearrangeMicroBatches, wide, hcount, enough, hparts]
    exact ⟨_, _, returned, (rearrangeMicroBatches_ok returned).2.2.trans fixed⟩
  · rintro ⟨micro, indices, returned, fixed⟩
    obtain ⟨⟨count, hcount, hparts⟩, _, rows⟩ := rearrangeMicroBatches_ok returned
    have wide : batch.maxSeqLen ≤ maxTokenLen * sp := by
      simp only [rearrangeMicroBatches, bind_ok_iff, pyAssert_ok_iff, decide_eq_true_eq] at returned
      obtain ⟨_, wide, _⟩ := returned
      exact wide
    exact ⟨wide, count, indices, hcount, hparts, rows.symm.trans fixed⟩

def ownScores {Θ : Type} (responseLength : Nat) (forward : Θ → Forward α K) (states : List Θ)
    (minis : List (TokenBatch α)) : List (List K) :=
  (states.zip minis).flatMap (fun (state, mini) =>
    mini.rows.map (scoreRow responseLength (forward state)))

def InOrder (sp : Nat) (peers : Peers) (config : RmConfig) (mini : TokenBatch α) : Prop :=
  ∃ micro, runMiniBatch sp peers config mini = .ok micro ∧ micro.flatten = mini.rows

theorem inOrder_static {sp : Nat} {peers : Peers} {config : RmConfig} (mini : TokenBatch α)
    (fixed : config.useDynamicBsz = false) (positive : 0 < config.microBatchSizePerGpu) :
    InOrder sp peers config mini := by
  refine ⟨split config.microBatchSizePerGpu mini.rows, ?_, flatten_split positive mini.rows⟩
  have free : lossScale config = .ok ⟨⟩ := by simp [lossScale, fixed]
  have run := forM_ok (fun _ => lossScale config) (split config.microBatchSizePerGpu mini.rows)
    (fun _ _ => free)
  rw [List.forM_eq_forM] at run
  simp [runMiniBatch, cutMiniBatch, fixed, splitRows, Nat.pos_iff_ne_zero.mp positive, run]

theorem rearranged_nonempty {batch : TokenBatch α} {maxTokenLen : Nat} {peers : Peers}
    {micro : List (List (Row α))} {indices : List (List Nat)}
    (returned : rearrangeMicroBatches batch maxTokenLen peers = .ok (micro, indices)) :
    micro ≠ [] := by
  obtain ⟨⟨count, _, hparts⟩, perm, rows⟩ := rearrangeMicroBatches_ok returned
  obtain ⟨positive, enough⟩ := partitions_bounds hparts
  rintro rfl
  have length := (pick_perm perm rfl).length_eq
  rw [← rows] at length
  simp only [TokenBatch.seqLens, List.length_map] at enough
  simp at length
  omega

theorem forM_lossScale {config : RmConfig} (dynamic : config.useDynamicBsz = true)
    {micro : List (List (Row α))} (nonempty : micro ≠ []) :
    micro.forM (fun _ => lossScale config) = .ok ⟨⟩ ↔ ∃ size, config.ppoMiniBatchSize = some size ∧
      0 < size := by
  have one : lossScale config = .ok ⟨⟩ ↔ ∃ size, config.ppoMiniBatchSize = some size ∧
      0 < size := by
    cases hsize : config.ppoMiniBatchSize with
    | none => simp [lossScale, dynamic, configGet, hsize]
    | some size =>
      rcases Nat.eq_zero_or_pos size with rfl | positive
      · simp [lossScale, dynamic, configGet, hsize]
      · simp [lossScale, dynamic, configGet, hsize, positive, Nat.pos_iff_ne_zero.mp positive]
  rw [← one]
  constructor
  · intro all
    obtain ⟨rows, rest, rfl⟩ := List.exists_cons_of_ne_nil nonempty
    simp only [List.forM_eq_forM, List.forM_cons, bind_ok_iff] at all
    obtain ⟨_, first, _⟩ := all
    exact first
  · exact fun free => forM_ok _ micro (fun _ _ => free)

theorem runMiniBatch_dynamic {sp : Nat} {peers : Peers} {config : RmConfig} {mini : TokenBatch α}
    {micro : List (List (Row α))} (dynamic : config.useDynamicBsz = true) :
    runMiniBatch sp peers config mini = .ok micro ↔
      ∃ maxTokenLen size indices, config.ppoMaxTokenLenPerGpu = some maxTokenLen ∧
        config.ppoMiniBatchSize = some size ∧ 0 < size ∧
        rearrangeMicroBatches mini (maxTokenLen * sp) peers = .ok (micro, indices) := by
  constructor
  · intro run
    simp only [runMiniBatch, cutMiniBatch, dynamic, if_true, bind_ok_iff, pure_eq_ok,
      Except.ok.injEq] at run
    obtain ⟨_, ⟨maxTokenLen, hlen, ⟨_, indices⟩, returned, rfl⟩, _, scaled, rfl⟩ := run
    obtain ⟨size, hsize, positive⟩ :=
      (forM_lossScale dynamic (rearranged_nonempty returned)).mp scaled
    refine ⟨maxTokenLen, size, indices, ?_, hsize, positive, returned⟩
    unfold configGet at hlen
    split at hlen
    · contradiction
    · rename_i value hvalue
      rw [hvalue, Except.ok.inj hlen]
  · rintro ⟨maxTokenLen, size, indices, hlen, hsize, positive, returned⟩
    have scaled := (forM_lossScale dynamic (rearranged_nonempty returned)).mpr ⟨size,
      hsize, positive⟩
    rw [List.forM_eq_forM] at scaled
    simp [runMiniBatch, cutMiniBatch, dynamic, configGet, hlen, returned, scaled]

theorem inOrder_dynamic_iff {sp : Nat} {peers : Peers} {config : RmConfig} {mini : TokenBatch α}
    (dynamic : config.useDynamicBsz = true) :
    InOrder sp peers config mini ↔
      ∃ maxTokenLen size, config.ppoMaxTokenLenPerGpu = some maxTokenLen ∧
        config.ppoMiniBatchSize = some size ∧ 0 < size ∧ RowsAligned sp peers mini maxTokenLen := by
  simp only [InOrder, runMiniBatch_dynamic dynamic, rowsAligned_iff]
  constructor
  · rintro ⟨micro, ⟨maxTokenLen, size, indices, hlen, hsize, positive, returned⟩, fixed⟩
    exact ⟨maxTokenLen, size, hlen, hsize, positive, micro, indices, returned, fixed⟩
  · rintro ⟨maxTokenLen, size, hlen, hsize, positive, micro, indices, returned, fixed⟩
    exact ⟨micro, ⟨maxTokenLen, size, indices, hlen, hsize, positive, returned⟩, fixed⟩

theorem runMiniBatch_perm {sp : Nat} {peers : Peers} {config : RmConfig} {mini : TokenBatch α}
    {micro : List (List (Row α))} (run : runMiniBatch sp peers config mini = .ok micro) :
    micro.flatten.Perm mini.rows := by
  cases dynamic : config.useDynamicBsz with
  | true =>
    obtain ⟨_, _, _, _, _, _, returned⟩ := (runMiniBatch_dynamic dynamic).mp run
    obtain ⟨_, perm, rows⟩ := rearrangeMicroBatches_ok returned
    exact rows ▸ pick_perm perm rfl
  | false =>
    simp only [runMiniBatch, cutMiniBatch, dynamic, splitRows, bind_ok_iff, pure_eq_ok,
      Except.ok.injEq] at run
    obtain ⟨_, cut, _, _, rfl⟩ := run
    simp only [Bool.false_eq_true, if_false] at cut
    split at cut
    · contradiction
    · rename_i positive
      cases Except.ok.inj cut
      exact .of_eq (flatten_split (Nat.pos_of_ne_zero positive) mini.rows)

section Update

variable {Θ : Type} {sp : Nat} {peers : Nat → Peers} {config : RmConfig}
  {trainStep : Θ → List (List (Row α)) → Θ}

theorem updateTrace_ok {batchIdx : Nat} {state : Θ} {minis : List (TokenBatch α)}
    {steps : List (Θ × List (List (Row α)))}
    (returned : updateTrace sp peers config trainStep batchIdx state minis = .ok steps) :
    List.Forall₂ (fun entry step => runMiniBatch sp (peers entry.2) config entry.1 = .ok step.2)
      (minis.zipIdx batchIdx) steps := by
  induction minis generalizing batchIdx state steps with
  | nil =>
    cases Except.ok.inj returned
    exact .nil
  | cons mini rest ih =>
    simp only [updateTrace, bind_ok_iff, pure_eq_ok, Except.ok.injEq] at returned
    obtain ⟨micro, run, later, hlater, rfl⟩ := returned
    exact .cons run (ih hlater)

theorem updateTrace_total (trainStep : Θ → List (List (Row α)) → Θ) {minis : List (TokenBatch α)}
    (batchIdx : Nat) (state : Θ)
    (each : ∀ entry ∈ minis.zipIdx batchIdx, InOrder sp (peers entry.2) config entry.1) :
    ∃ steps, updateTrace sp peers config trainStep batchIdx state minis = .ok steps := by
  induction minis generalizing batchIdx state with
  | nil => exact ⟨[], rfl⟩
  | cons mini rest ih =>
    obtain ⟨micro, run, _⟩ := each (mini, batchIdx) (by simp [List.zipIdx_cons])
    obtain ⟨later, hlater⟩ := ih (batchIdx + 1) (trainStep state micro)
      (fun entry member => each entry (by simp [List.zipIdx_cons, member]))
    exact ⟨(state, micro) :: later, by simp [updateTrace, run, hlater]⟩

omit [Field K] [LinearOrder K] in
theorem ownScores_eq {batchIdx : Nat} {minis : List (TokenBatch α)}
    {steps : List (Θ × List (List (Row α)))}
    (inOrder : List.Forall₂ (fun entry step => step.2.flatten = entry.1.rows)
      (minis.zipIdx batchIdx) steps)
    (responseLength : Nat) (forward : Θ → Forward α K) :
    ownScores responseLength forward (steps.map Prod.fst) minis =
      steps.flatMap (fun (state, micro) =>
      micro.flatMap (fun rows => rows.map (scoreRow responseLength (forward state)))) := by
  induction minis generalizing batchIdx steps with
  | nil =>
    cases inOrder
    rfl
  | cons mini rest ih =>
    cases inOrder with
    | cons first later =>
      rename_i step steps
      simp only [ownScores, List.map_cons, List.zip_cons_cons, List.flatMap_cons,
        flatMap_map_flatten, first]
      exact congrArg (mini.rows.map (scoreRow responseLength (forward step.1)) ++ ·)
        ((ih later).trans (by simp only [flatMap_map_flatten]))

end Update

omit [LinearOrder K] in
theorem eq_of_map_eq {β : Type} {rows others : List β} {n : Nat} (positive : 0 < n)
    (same : ∀ f : β → K, rows.map (fun row => (List.range n).map (fun _ => f row)) =
      others.map (fun row => (List.range n).map (fun _ => f row))) : rows = others := by
  classical
  have length : rows.length = others.length := by
    simpa using congrArg List.length (same (fun _ => 0))
  apply List.ext_getElem length
  intro i hi hi'
  have marked := congrArg (fun l => l[i]?) (same (fun row => if row = rows[i] then 1 else 0))
  simp only [List.getElem?_map, List.getElem?_eq_getElem hi, List.getElem?_eq_getElem hi',
    Option.map_some, Option.some.injEq] at marked
  by_contra different
  have head := congrArg (fun l => l[0]?) marked
  simp [Ne.symm different, positive] at head

section Scores

variable {sp : Nat} {config : RmConfig} {data : Data α}

theorem scores_total (rows : List (Row α)) (n : Nat) (positive : 0 < n) (nonempty : rows ≠ [])
    (batchNorm : Bool) (forward : Forward α K) :
    ∃ ys, primeNorm batchNorm (rows.map (scoreRow n forward)) = .ok ys := by
  obtain ⟨row, rest, rfl⟩ := List.exists_cons_of_ne_nil nonempty
  exact primeNorm_total batchNorm _ (scoreRow n forward row) (by simp)
    (by simp [scoreRow, Nat.pos_iff_ne_zero.mp positive])

theorem computeRmScore_static (peers : Peers) (forward : Forward α K)
    (fixed : config.useDynamicBsz = false) (positive : 0 < config.microBatchSizePerGpu)
    (nonempty : data.rows ≠ []) (response : 0 < data.responseLength) :
    ∃ out, computeRmScore sp peers config forward data = .ok out ∧
      primeNorm config.batchNorm (data.rows.map (scoreRow data.responseLength forward)) =
        .ok out.rmScores ∧
      out.q = data.rows.map (qRow data.responseLength forward) := by
  obtain ⟨micro, cut, whole⟩ :=
    microBatches_static sp peers { data with hasMultiModalInputs := false }
    config.metaInfo rfl fixed positive
  obtain ⟨ys, hys⟩ :=
    scores_total data.rows data.responseLength response nonempty config.batchNorm forward
  refine ⟨rmOutput ys (data.rows.map (qRow data.responseLength forward)), ?_, hys, rfl⟩
  have back : revert data config.metaInfo none ys = .ok ys := by
    simp [revert, RmConfig.metaInfo, fixed]
  simp only [computeRmScore, cut, ok_bind, flatMap_map_flatten, whole, hys, back, pure_eq_ok]

theorem computeRmScore_dynamic {peers : Peers} (forward : Forward α K)
    (dynamic : config.useDynamicBsz = true) (nonempty : data.rows ≠ [])
    (response : 0 < data.responseLength)
    {micro : List (List (Row α))} {indices : List (List Nat)}
    (returned : rearrangeMicroBatches data.toTokenBatch
      (config.forwardMaxTokenLenPerGpu * sp) peers = .ok (micro, indices)) :
    ∃ out, computeRmScore sp peers config forward data = .ok out ∧
      primeNorm config.batchNorm (data.rows.map (scoreRow data.responseLength forward)) =
        .ok out.rmScores ∧
      out.q = micro.flatten.map (qRow data.responseLength forward) := by
  obtain ⟨_, perm, rows⟩ := rearrangeMicroBatches_ok returned
  obtain ⟨rev, hrev, order, _, right⟩ := scatter_spec perm
  obtain ⟨ys, hys⟩ :=
    scores_total data.rows data.responseLength response nonempty config.batchNorm forward
  obtain ⟨normed, length⟩ := primeNorm_pick (by simpa using perm) hys
  have count : ys.length = data.rows.length := by simpa using length
  have inside : ∀ i ∈ indices.flatten, i < ys.length := count ▸ perm_inside perm
  have back : pick (pick ys indices.flatten) rev = ys := by
    rw [pick_pick inside, right, ← count, pick_range]
  have reverted : revert data config.metaInfo (some indices) (pick ys indices.flatten) =
      .ok ys := by
    rw [revert_perm dynamic perm hrev order (by rw [length_pick inside, perm_length perm]), back]
  have cut : microBatches sp peers { data with hasMultiModalInputs := false } config.metaInfo =
      .ok (micro, some indices) := microBatches_dynamic rfl dynamic returned
  refine ⟨rmOutput ys (micro.flatten.map (qRow data.responseLength forward)), ?_, hys, rfl⟩
  have scores : micro.flatten.map (scoreRow data.responseLength forward) =
      pick (data.rows.map (scoreRow data.responseLength forward)) indices.flatten := by
        rw [rows, pick_map]
  simp only [computeRmScore, cut, ok_bind, flatMap_map_flatten, scores, normed,
    reverted, pure_eq_ok]

theorem computeRmScore_rearranged {peers : Peers} {forward : Forward α K} {out : RmScores K}
    (dynamic : config.useDynamicBsz = true)
    (run : computeRmScore sp peers config forward data = .ok out) :
    ∃ micro indices, rearrangeMicroBatches data.toTokenBatch
      (config.forwardMaxTokenLenPerGpu * sp) peers = .ok (micro, indices) := by
  simp only [computeRmScore, bind_ok_iff] at run
  obtain ⟨cut, hcut, _⟩ := run
  simp only [microBatches, RmConfig.metaInfo, dynamic, Bool.false_eq_true, if_false, if_true,
    bind_ok_iff] at hcut
  obtain ⟨⟨micro, indices⟩, returned, _⟩ := hcut
  exact ⟨micro, indices, returned⟩

def ScoresOwnRows (K : Type) [Field K] [LinearOrder K] (sp : Nat) (peers : Peers)
    (config : RmConfig) (data : Data α) : Prop :=
  ∀ forward : Forward α K, ∃ out, computeRmScore sp peers config forward data = .ok out ∧
    primeNorm config.batchNorm (data.rows.map (scoreRow data.responseLength forward)) =
      .ok out.rmScores ∧
    out.q = data.rows.map (qRow data.responseLength forward)

theorem scoresOwnRows_iff [IsStrictOrderedRing K] (peers : Peers) (nonempty : data.rows ≠ [])
    (response : 0 < data.responseLength) (positive : 0 < config.microBatchSizePerGpu) :
    ScoresOwnRows K sp peers config data ↔
      (config.useDynamicBsz = true →
        RowsAligned sp peers data.toTokenBatch config.forwardMaxTokenLenPerGpu) := by
  constructor
  · intro own dynamic
    obtain ⟨_, run, _⟩ := own (fun _ _ => (0, 0))
    obtain ⟨micro, indices, returned⟩ := computeRmScore_rearranged dynamic run
    refine rowsAligned_iff.mpr ⟨micro, indices, returned, eq_of_map_eq (K := K) response ?_⟩
    intro f
    obtain ⟨out, run, _, hq⟩ := own (fun row _ => (0, f row))
    obtain ⟨out', run', _, hq'⟩ :=
      computeRmScore_dynamic (fun row _ => (0, f row)) dynamic nonempty response returned
    cases Except.ok.inj (run.symm.trans run')
    exact hq'.symm.trans hq
  · intro aligned forward
    cases dynamic : config.useDynamicBsz with
    | false => exact computeRmScore_static peers forward dynamic positive nonempty response
    | true =>
      obtain ⟨micro, indices, returned, fixed⟩ := rowsAligned_iff.mp (aligned dynamic)
      obtain ⟨out, run, scores, q⟩ :=
        computeRmScore_dynamic forward dynamic nonempty response returned
      exact ⟨out, run, scores, fixed ▸ q⟩

end Scores

section Updates

variable {sp : Nat} {peers : Nat → Peers} {config : RmConfig} {data : Data α}

/-- `rm_scores` of `update_rm` is in batch order, for every module and training step. -/
def UpdatesOwnRows (K : Type) [Field K] [LinearOrder K] (sp : Nat) (peers : Nat → Peers)
    (config : RmConfig) (data : Data α) : Prop :=
  ∀ (Θ : Type) (forward : Θ → Forward α K) (trainStep : Θ → List (List (Row α)) → Θ) (state : Θ),
    ∃ steps out, updateTrace sp peers config trainStep 0 state (miniBatches config data) =
    .ok steps ∧
      updateRm sp peers config forward trainStep state data = .ok out ∧
      primeNorm config.batchNorm (ownScores data.responseLength forward (steps.map Prod.fst)
        (miniBatches config data)) = .ok out.rmScores

theorem miniBatches_rows (positive : 0 < config.miniBatchSize) :
    ((miniBatches config data).map TokenBatch.rows).flatten = data.rows := by
  rw [miniBatches, TokenBatch.split_rows, flatten_split positive]

omit [Field K] [LinearOrder K] in
theorem length_ownScores {Θ : Type} (responseLength : Nat) (forward : Θ → Forward α K)
    {states : List Θ} {minis : List (TokenBatch α)} (same : states.length = minis.length) :
    (ownScores responseLength forward states minis).length =
      (minis.map TokenBatch.rows).flatten.length := by
  induction states generalizing minis with
  | nil =>
    cases minis with
    | nil => rfl
    | cons mini minis => simp at same
  | cons state states ih =>
    cases minis with
    | nil => simp at same
    | cons mini minis =>
      have tail := ih (by simpa using same)
      simp only [ownScores] at tail
      simp [ownScores, tail]

theorem updates_of_inOrder (mini : 0 < config.miniBatchSize) (nonempty : data.rows ≠ [])
    (response : 0 < data.responseLength)
    (each : ∀ entry ∈ (miniBatches config data).zipIdx, InOrder sp (peers entry.2) config entry.1) :
    UpdatesOwnRows K sp peers config data := by
  intro Θ forward trainStep state
  obtain ⟨steps, hsteps⟩ := updateTrace_total trainStep 0 state each
  have runs := updateTrace_ok hsteps
  have inOrder : List.Forall₂ (fun entry step => step.2.flatten = entry.1.rows)
      ((miniBatches config data).zipIdx) steps := by
    refine List.forall₂_iff_zip.mpr ⟨runs.length_eq, ?_⟩
    intro entry step member
    obtain ⟨micro, run, fixed⟩ := each entry (List.of_mem_zip member).1
    have same := List.forall₂_iff_zip.mp runs |>.2 member
    cases Except.ok.inj (run.symm.trans same)
    exact fixed
  have count : (steps.map Prod.fst).length = (miniBatches config data).length := by
    simpa using runs.length_eq.symm
  have some : ownScores data.responseLength forward (steps.map Prod.fst) (miniBatches config data) ≠
      [] := by
    rw [← List.length_pos_iff, length_ownScores _ _ count, miniBatches_rows mini]
    exact List.length_pos_iff.mpr nonempty
  obtain ⟨row, member⟩ := List.exists_mem_of_ne_nil _ some
  have filled : row ≠ [] := by
    obtain ⟨entry, _, hrow⟩ := List.mem_flatMap.mp member
    obtain ⟨source, _, rfl⟩ := List.mem_map.mp hrow
    simp [scoreRow, Nat.pos_iff_ne_zero.mp response]
  obtain ⟨ys, hys⟩ := primeNorm_total config.batchNorm _ row member filled
  have actual := hys
  rw [ownScores_eq inOrder] at actual
  exact ⟨steps, _, hsteps, by simp [updateRm, Nat.pos_iff_ne_zero.mp mini, hsteps, actual]; rfl,
    hys⟩

omit [Field K] [LinearOrder K] in
theorem ownScores_const (responseLength : Nat) (forward : Forward α K) {states : List Unit}
    {minis : List (TokenBatch α)} (same : states.length = minis.length) :
    ownScores responseLength (fun _ => forward) states minis =
      (minis.map TokenBatch.rows).flatten.map (scoreRow responseLength forward) := by
  have seconds : (states.zip minis).map Prod.snd = minis := List.map_snd_zip same.ge
  conv => rhs; rw [← seconds]
  simp [ownScores, List.flatMap_def, List.map_flatten, Function.comp_def]

theorem updateRm_scores {Θ : Type} {forward : Θ → Forward α K}
    {trainStep : Θ → List (List (Row α)) → Θ}
    {state : Θ} {steps : List (Θ × List (List (Row α)))} {out : RmScores K}
    (hsteps : updateTrace sp peers config trainStep 0 state (miniBatches config data) = .ok steps)
    (run : updateRm sp peers config forward trainStep state data = .ok out) :
    primeNorm config.batchNorm (steps.flatMap (fun step =>
      step.2.flatten.map (scoreRow data.responseLength (forward step.1)))) = .ok out.rmScores := by
  unfold updateRm at run
  split at run
  · contradiction
  · simp only [hsteps, ok_bind, flatMap_map_flatten, bind_ok_iff, pure_eq_ok,
      Except.ok.injEq] at run
    obtain ⟨scores, normed, rfl⟩ := run
    exact normed

theorem inOrder_of_updates [IsStrictOrderedRing K]
    (response : 0 < data.responseLength) (own : UpdatesOwnRows K sp peers config data) :
    ∀ entry ∈ (miniBatches config data).zipIdx, InOrder sp (peers entry.2) config entry.1 := by
  obtain ⟨steps, _, hsteps, _⟩ := own Unit (fun _ _ _ => (0, 0)) (fun _ _ => ()) ()
  have runs := updateTrace_ok hsteps
  have perms : List.Forall₂ List.Perm (steps.map (fun step => step.2.flatten))
      ((miniBatches config data).zipIdx.map (fun entry => entry.1.rows)) := by
    rw [List.forall₂_map_left_iff, List.forall₂_map_right_iff]
    exact runs.flip.imp (fun _ _ run => runMiniBatch_perm run)
  have rows : (miniBatches config data).zipIdx.map (fun entry => entry.1.rows) =
      (miniBatches config data).map TokenBatch.rows := by
    rw [← List.zipIdx_map_fst 0 (miniBatches config data), List.map_map]
    simp [Function.comp_def]
  have same : steps.map (fun step => step.2.flatten) =
      (miniBatches config data).zipIdx.map (fun entry => entry.1.rows) := by
    apply eq_of_flatten_eq (perms.imp (fun _ _ perm => perm.length_eq))
    apply eq_of_map_eq (K := K) response
    intro f
    obtain ⟨steps', out, hsteps', run, normed⟩ :=
      own Unit (fun _ row _ => (f row, 0)) (fun _ _ => ()) ()
    cases Except.ok.inj (hsteps.symm.trans hsteps')
    have count : (steps.map Prod.fst).length = (miniBatches config data).length := by
      simpa using runs.length_eq.symm
    have actual := updateRm_scores hsteps run
    have gathered : steps.flatMap (fun step =>
        step.2.flatten.map (scoreRow data.responseLength (fun row _ => (f row, 0)))) =
        (steps.map (fun step => step.2.flatten)).flatten.map
          (scoreRow data.responseLength (fun row _ => (f row, 0))) := by
      simp [List.flatMap_def, List.map_flatten, Function.comp_def]
    rw [ownScores_const _ _ count, ← rows] at normed
    rw [gathered] at actual
    exact primeNorm_inj ((List.Perm.flatten_congr perms).map _) actual normed
  intro entry member
  obtain ⟨j, hj, rfl⟩ := List.mem_iff_getElem.mp member
  have hjs : j < steps.length := runs.length_eq ▸ hj
  refine ⟨steps[j].2, List.forall₂_iff_get.mp runs |>.2 j hj hjs, ?_⟩
  have step := congrArg (fun l => l[j]?) same
  simpa [List.getElem?_eq_getElem hjs, List.getElem?_eq_getElem hj] using step

end Updates

/-- When every returned tensor is in batch order: the split is static, or the
balanced partitions of the batch and of each mini batch leave the rows in place. -/
def PrimeAligned (sp : Nat) (scorePeers : Peers) (peers : Nat → Peers) (config : RmConfig)
    (data : Data α) : Prop :=
  config.useDynamicBsz = false ∨
    RowsAligned sp scorePeers data.toTokenBatch config.forwardMaxTokenLenPerGpu ∧
    ∃ maxTokenLen size, config.ppoMaxTokenLenPerGpu = some maxTokenLen ∧
      config.ppoMiniBatchSize = some size ∧ 0 < size ∧
      ∀ entry ∈ (miniBatches config data).zipIdx, RowsAligned sp (peers entry.2) entry.1 maxTokenLen

theorem prime_rows_iff [IsStrictOrderedRing K] (sp : Nat) (scorePeers : Peers) (peers : Nat → Peers)
    (config : RmConfig) (data : Data α) (mini : 0 < config.miniBatchSize)
    (micro : 0 < config.microBatchSizePerGpu) (nonempty : data.rows ≠ [])
    (response : 0 < data.responseLength) :
    ScoresOwnRows K sp scorePeers config data ∧ UpdatesOwnRows K sp peers config data ↔
      PrimeAligned sp scorePeers peers config data := by
  have updates : UpdatesOwnRows K sp peers config data ↔
      ∀ entry ∈ (miniBatches config data).zipIdx, InOrder sp (peers entry.2) config entry.1 :=
    ⟨inOrder_of_updates response, updates_of_inOrder mini nonempty response⟩
  rw [scoresOwnRows_iff scorePeers nonempty response micro, updates]
  constructor
  · rintro ⟨aligned, inOrder⟩
    cases dynamic : config.useDynamicBsz with
    | false => exact .inl dynamic
    | true =>
      have first : 0 < ((miniBatches config data).zipIdx).length := by
        simp [miniBatches, TokenBatch.split, splitCount]
      obtain ⟨maxTokenLen, size, hlen, hsize, positive, _⟩ :=
        (inOrder_dynamic_iff dynamic).mp (inOrder _ (List.getElem_mem first))
      refine .inr ⟨aligned dynamic, maxTokenLen, size, hlen, hsize, positive, ?_⟩
      intro entry member
      obtain ⟨other, _, hother, _, _, rowsAligned⟩ :=
        (inOrder_dynamic_iff dynamic).mp (inOrder entry member)
      cases Option.some.inj (hlen.symm.trans hother)
      exact rowsAligned
  · rintro (fixed | ⟨aligned, maxTokenLen, size, hlen, hsize, positive, each⟩)
    · exact ⟨by simp [fixed], fun entry _ => inOrder_static entry.1 fixed micro⟩
    · refine ⟨fun _ => aligned, fun entry member => ?_⟩
      cases dynamic : config.useDynamicBsz with
      | false => exact inOrder_static entry.1 dynamic micro
      | true =>
        exact (inOrder_dynamic_iff dynamic).mpr ⟨maxTokenLen, size, hlen, hsize, positive,
          each entry member⟩

def oneRowEach : RmConfig where
  useDynamicBsz := true
  batchNorm := false
  miniBatchSize := 2
  microBatchSizePerGpu := 1
  forwardMaxTokenLenPerGpu := 2
  ppoMaxTokenLenPerGpu := some 2
  ppoMiniBatchSize := some 2

def longFirst : Data Nat where
  maxSeqLen := 2
  rows := [⟨[true, true], 20⟩, ⟨[false, true], 10⟩]
  rect := by decide
  responseLength := 1
  hasMultiModalInputs := false

theorem prime_rows_longFirst :
    ScoresOwnRows ℚ 1 none oneRowEach longFirst ∧
      UpdatesOwnRows ℚ 1 (fun _ => none) oneRowEach longFirst :=
  (prime_rows_iff 1 none (fun _ => none) oneRowEach longFirst (by decide) (by decide) (by decide)
    (by decide)).mpr
    (.inr ⟨⟨by decide, 2, [[0], [1]], by decide, by decide, by decide⟩,
      2, 2, rfl, rfl, by decide, by
        intro entry member
        have only : entry = (longFirst.toTokenBatch.block 2 0, 0) := by
          simpa [miniBatches, TokenBatch.split, splitCount, longFirst, oneRowEach] using member
        subst only
        exact ⟨by decide, 2, [[0], [1]], by decide, by decide, by decide⟩⟩)

def readCells : Forward Nat ℚ := fun row _ => (row.cells, row.cells)

/-- With the longer row second, `q` and the scores of the update come back swapped. -/
theorem prime_rows_swapped :
    (paddedPair.rows.map (scoreRow 1 readCells), paddedPair.rows.map (qRow 1 readCells)) =
      ([[10], [20]], [[10], [20]]) ∧
    (computeRmScore 1 none oneRowEach readCells paddedPair).map (fun out => (out.rmScores, out.q)) =
      .ok ([[10], [20]], [[20], [10]]) ∧
    (updateRm 1 (fun _ => none) oneRowEach (fun _ => readCells) (fun (_ : Unit) _ => ()) ()
      paddedPair).map
      RmScores.rmScores = .ok [[20], [10]] := by
  decide +kernel

end Verl.Prime
