import Mathlib.Tactic.FieldSimp
import Mathlib.Tactic.Linarith
import Verl.Workers.PrimeRewardModel

/-! The factors that `update_policy`, `update_critic` and PRIME's `update_rm` put on the loss of
each micro batch before `backward()`. They are meant to sum to 1 over a mini batch. -/
namespace Verl.Workers
open SeqlenBalancing Verl.Prime

variable {α : Type}

structure UpdateConfig where
  ppoMiniBatchSize : Nat
  ppoMicroBatchSizePerGpu : Option Nat
  useDynamicBsz : Bool
  ppoMaxTokenLenPerGpu : Nat
  ppoEpochs : Nat

/-- `a / b` as the factor of a loss; a tensor divided by the integer 0 is infinite. -/
def ratio (a b : Nat) : Option ℚ := if b = 0 then none else some (a / b)

def SumsToOne (weights : List (Option ℚ)) : Prop :=
  ∃ ws : List ℚ, weights = ws.map some ∧ ws.sum = 1

def requireInt (value : Option Nat) : Py Nat :=
  match value with
  | some value => .ok value
  | none => .error (.value "unsupported operand type(s) for //: 'int' and 'NoneType'")

def chunkBatch (chunks : Nat) (batch : TokenBatch α) : Py (List (TokenBatch α)) := do
  let n := batch.rows.length
  let remainder ← pyMod n chunks
  pyAssert (remainder == 0)
    s!"only support equal chunk. Got size of DataProto {n} and chunk {chunks}."
  return (List.range chunks).map (batch.block (n / chunks))

def dataloader (config : UpdateConfig) (data : Data α) : Py (List (TokenBatch α)) :=
  if data.hasMultiModalInputs then do
    let numMiniBatches ← pyFloorDiv data.rows.length config.ppoMiniBatchSize
    chunkBatch numMiniBatches data.toTokenBatch
  else if config.ppoMiniBatchSize = 0 then .error (.runtime "split_size")
  else .ok (data.toTokenBatch.split config.ppoMiniBatchSize)

def policyKeys (useKlLoss : Bool) : List String :=
  ["responses", "input_ids", "attention_mask", "position_ids", "old_log_probs", "advantages"] ++
    if useKlLoss then ["ref_log_prob"] else []

def criticKeys : List String :=
  ["input_ids", "responses", "attention_mask", "position_ids", "values", "returns"]

/-- `len(data)` of a multi-modal micro batch, which by then is a dict of columns. -/
def dictLen (selectKeys : List String) : Nat := (selectKeys ++ ["multi_modal_inputs"]).length

def policyMiniBatch (config : UpdateConfig) (useKlLoss : Bool) (sp : Nat) (peers : Peers)
    (multiModal : Bool) (mini : TokenBatch α) : Py (List (Option ℚ)) := do
  if multiModal then
    let size ← requireInt config.ppoMicroBatchSizePerGpu
    let gradientAccumulation ← pyFloorDiv config.ppoMiniBatchSize size
    let numMicroBatches ← pyFloorDiv mini.rows.length size
    let micro ← chunkRows numMicroBatches mini.rows
    return micro.map (fun _ =>
      if config.useDynamicBsz then ratio (dictLen (policyKeys useKlLoss)) config.ppoMiniBatchSize
      else ratio 1 gradientAccumulation)
  else if config.useDynamicBsz then
    let (micro, _) ← rearrangeMicroBatches mini (config.ppoMaxTokenLenPerGpu * sp) peers
    return micro.map (fun rows => ratio rows.length config.ppoMiniBatchSize)
  else
    let size ← requireInt config.ppoMicroBatchSizePerGpu
    let gradientAccumulation ← pyFloorDiv config.ppoMiniBatchSize size
    let micro ← splitRows size mini.rows
    return micro.map (fun _ => ratio 1 gradientAccumulation)

/-- One mini batch of `update_critic`. The multi-modal branch does not assign
`self.gradient_accumulation`; it reads what an earlier call left, if any. -/
def criticMiniBatch (config : UpdateConfig) (gradientAccumulation : Option Nat) (sp : Nat)
    (peers : Peers) (multiModal : Bool) (mini : TokenBatch α) : Py (List (Option ℚ)) := do
  if multiModal then
    let size ← requireInt config.ppoMicroBatchSizePerGpu
    let numMicroBatches ← pyFloorDiv mini.rows.length size
    let micro ← chunkRows numMicroBatches mini.rows
    micro.mapM (fun _ =>
      if config.useDynamicBsz then .ok (ratio (dictLen criticKeys) config.ppoMiniBatchSize)
      else do
        let held ← configGet "gradient_accumulation" gradientAccumulation
        return ratio 1 held)
  else if config.useDynamicBsz then
    let (micro, _) ← rearrangeMicroBatches mini (config.ppoMaxTokenLenPerGpu * sp) peers
    return micro.map (fun rows => ratio rows.length config.ppoMiniBatchSize)
  else
    let size ← requireInt config.ppoMicroBatchSizePerGpu
    let micro ← splitRows size mini.rows
    let gradientAccumulation ← pyFloorDiv config.ppoMiniBatchSize size
    return micro.map (fun _ => ratio 1 gradientAccumulation)

/-- One mini batch of `update_rm`. `data` is the dict of the metric when `len(data)` is read. -/
def rmMiniBatch (config : RmConfig) (sp : Nat) (peers : Peers) (mini : TokenBatch α) :
    Py (List (Option ℚ)) := do
  let micro ← cutMiniBatch sp peers config mini
  if config.useDynamicBsz then
    micro.mapM (fun _ => do
      let size ← configGet "ppo_mini_batch_size" config.ppoMiniBatchSize
      if size = 0 then .error .zeroDivision else return ratio 1 size)
  else return micro.map (fun _ => ratio 1 (config.miniBatchSize / config.microBatchSizePerGpu))

def overEpochs (epochs : Nat) (minis : List (TokenBatch α))
    (run : Nat → Nat → TokenBatch α → Py (List (Option ℚ))) :
    Py (List (List (Option ℚ))) := do
  let weights ← (List.range epochs).mapM (fun epoch =>
    minis.zipIdx.mapM (fun (mini, batchIdx) => run epoch batchIdx mini))
  return weights.flatten

def updatePolicyWeights (config : UpdateConfig) (useKlLoss : Bool) (sp : Nat)
    (peers : Nat → Nat → Peers) (data : Data α) :
    Py (List (List (Option ℚ))) := do
  let minis ← dataloader config data
  overEpochs config.ppoEpochs minis (fun epoch batchIdx =>
    policyMiniBatch config useKlLoss sp (peers epoch batchIdx) data.hasMultiModalInputs)

def updateCriticWeights (config : UpdateConfig) (gradientAccumulation : Option Nat) (sp : Nat)
    (peers : Nat → Nat → Peers) (data : Data α) : Py (List (List (Option ℚ))) := do
  let minis ← dataloader config data
  overEpochs config.ppoEpochs minis (fun epoch batchIdx =>
    criticMiniBatch config gradientAccumulation sp (peers epoch batchIdx) data.hasMultiModalInputs)

def updateRmWeights (config : RmConfig) (sp : Nat) (peers : Nat → Peers) (data : Data α) :
    Py (List (List (Option ℚ))) := do
  if config.miniBatchSize = 0 then .error (.runtime "split_size") else
  (miniBatches config data).zipIdx.mapM (fun (mini, batchIdx) =>
    rmMiniBatch config sp (peers batchIdx) mini)

section Sums

variable {β : Type}

theorem sumsToOne_some_iff {ws : List ℚ} : SumsToOne (ws.map some) ↔ ws.sum = 1 := by
  constructor
  · rintro ⟨vs, same, one⟩
    rwa [List.map_injective_iff.mpr (Option.some_injective ℚ) same]
  · exact fun one => ⟨ws, rfl, one⟩

theorem map_ratio {b : Nat} (nonzero : b ≠ 0) (micro : List β) (f : β → Nat) :
    micro.map (fun x => ratio (f x) b) = (micro.map (fun x => (f x : ℚ) / b)).map some := by
  simp [ratio, nonzero]

theorem sum_div (micro : List β) (f : β → Nat) (b : Nat) :
    (micro.map (fun x => (f x : ℚ) / b)).sum = ((micro.map f).sum : ℚ) / b := by
  induction micro with
  | nil => simp
  | cons x micro ih =>
    rw [List.map_cons, List.sum_cons, ih, List.map_cons, List.sum_cons, Nat.cast_add, add_div]

theorem sumsToOne_map_iff (micro : List β) (f : β → Nat) (b : Nat) :
    SumsToOne (micro.map (fun x => ratio (f x) b)) ↔ b ≠ 0 ∧ (micro.map f).sum = b := by
  by_cases nonzero : b = 0
  · have infinite : micro.map (fun x => ratio (f x) b) = micro.map (fun _ => none) := by
      simp [ratio, nonzero]
    simp only [nonzero, ne_eq, not_true, false_and, iff_false]
    rintro ⟨ws, same, one⟩
    rw [← nonzero, infinite] at same
    cases ws with
    | nil => simp at one
    | cons w ws =>
      cases micro with
      | nil => cases same
      | cons x micro => simp at same
  · have cast : (b : ℚ) ≠ 0 := Nat.cast_ne_zero.mpr nonzero
    rw [map_ratio nonzero, sumsToOne_some_iff, sum_div, div_eq_one_iff_eq cast, Nat.cast_inj]
    exact (and_iff_right nonzero).symm

theorem sumsToOne_const_iff (micro : List β) (a b : Nat) :
    SumsToOne (micro.map (fun _ => ratio a b)) ↔ b ≠ 0 ∧ micro.length * a = b := by
  rw [sumsToOne_map_iff micro (fun _ => a) b]
  simp

theorem forall_zipIdx_iff {xs : List β} {Q : β → Prop} :
    (∀ x ∈ xs.zipIdx, Q x.1) ↔ ∀ x ∈ xs, Q x := by
  conv_rhs => rw [← List.zipIdx_map_fst 0 xs]
  simp only [List.forall_mem_map]

end Sums

theorem overEpochs_iff {epochs : Nat} {minis : List (TokenBatch α)}
    {run : Nat → Nat → TokenBatch α → Py (List (Option ℚ))}
    {weights : List (List (Option ℚ))} (returned : overEpochs epochs minis run = .ok weights)
    {Q : TokenBatch α → Prop}
    (each : ∀ epoch batchIdx, ∀ mini ∈ minis, ∀ w, run epoch batchIdx mini = .ok w →
      (SumsToOne w ↔ Q mini)) :
    (∀ w ∈ weights, SumsToOne w) ↔ epochs = 0 ∨ ∀ mini ∈ minis, Q mini := by
  simp only [overEpochs, bind_ok_iff, pure_eq_ok, Except.ok.injEq] at returned
  obtain ⟨perEpoch, returned, rfl⟩ := returned
  have inner : (∀ ws ∈ perEpoch, ∀ w ∈ ws, SumsToOne w) ↔ ∀ _epoch ∈ List.range epochs,
      ∀ mini ∈ minis, Q mini := by
    apply forall_mapM_iff returned
    intro epoch _ ws ran
    refine (forall_mapM_iff ran ?_).trans forall_zipIdx_iff
    intro x member w done
    exact each epoch x.2 x.1 (List.fst_mem_of_mem_zipIdx member) w done
  have flat : (∀ w ∈ perEpoch.flatten, SumsToOne w) ↔ ∀ ws ∈ perEpoch, ∀ w ∈ ws, SumsToOne w := by
    simp only [List.mem_flatten, forall_exists_index, and_imp]
    exact ⟨fun all ws inside w member => all w ws inside member, fun all w ws inside member =>
      all ws inside w member⟩
  rw [flat, inner]
  cases epochs with
  | zero => simp
  | succ epochs =>
    constructor
    · exact fun all => .inr (all 0 (by simp))
    · rintro (none | all)
      · cases none
      · exact fun _ _ => all

section Branches

theorem length_of_chunkRows {β : Type} {chunks : Nat} {rows : List β} {pieces : List (List β)}
    (cut : chunkRows chunks rows = .ok pieces) : pieces.length = chunks ∧ chunks ≠ 0 := by
  simp only [chunkRows, bind_ok_iff, pure_eq_ok, Except.ok.injEq] at cut
  obtain ⟨remainder, divided, -, -, rfl⟩ := cut
  refine ⟨by simp, ?_⟩
  rintro rfl
  cases divided

theorem length_of_splitRows {β : Type} {size : Nat} {rows : List β} {pieces : List (List β)}
    (cut : splitRows size rows = .ok pieces) :
    pieces.length = splitCount size rows.length ∧ 0 < size := by
  unfold splitRows at cut
  split at cut
  case isTrue => cases cut
  case isFalse nonzero =>
    cases cut
    exact ⟨by simp [Verl.split, splitCount], Nat.pos_of_ne_zero nonzero⟩

theorem pyFloorDiv_ok_iff {a b q : Nat} : pyFloorDiv a b = .ok q ↔ b ≠ 0 ∧ a / b = q := by
  unfold pyFloorDiv
  split
  case isTrue zero => simp [zero]
  case isFalse nonzero => simp [nonzero]

theorem requireInt_ok_iff {value : Option Nat} {n : Nat} :
    requireInt value = .ok n ↔ value = some n := by
  cases value <;> simp [requireInt]

theorem sum_length_rearrange {mini : TokenBatch α} {maxTokenLen : Nat} {peers : Peers}
    {micro : List (List (Row α))} {indices : List (List Nat)}
    (cut : rearrangeMicroBatches mini maxTokenLen peers = .ok (micro, indices)) :
    (micro.map List.length).sum = mini.rows.length := by
  obtain ⟨-, perm, flat⟩ := rearrangeMicroBatches_ok cut
  rw [← List.length_flatten, flat, length_pick]
  · simpa using perm.length_eq
  · exact fun i member => List.mem_range.mp (perm.mem_iff.mp member)

theorem splitCount_eq_iff {size r q : Nat} (positive : 0 < size) :
    splitCount size r = q ↔ (q - 1) * size < max 1 r ∧ max 1 r ≤ q * size := by
  have same : splitCount size r = (max 1 r + size - 1) / size := by
    unfold splitCount
    rcases Nat.eq_zero_or_pos r with rfl | some
    · have one : (1 + size - 1) / size = 1 := by rw [Nat.add_sub_cancel_left, Nat.div_self positive]
      have zero : (0 + size - 1) / size = 0 := Nat.div_eq_of_lt (by omega)
      rw [zero, max_eq_left (Nat.zero_le 1), one]
    · have one : 1 ≤ (r + size - 1) / size := (Nat.one_le_div_iff positive).mpr (by omega)
      rw [max_eq_right one, max_eq_right some]
  rw [same]
  have one : 1 ≤ max 1 r := le_max_left _ _
  generalize max 1 r = n at *
  rw [Nat.div_eq_iff positive]
  cases q with
  | zero => simp; omega
  | succ q =>
    rw [Nat.add_sub_cancel, Nat.succ_mul]
    omega

end Branches

/-- When `⌈r / micro⌉ = mini // micro` for the rows `r` of every mini batch of a split. -/
def StaticFit (rows mini micro : Nat) : Prop :=
  (mini ≤ rows → micro ∣ mini) ∧
    (¬ mini ∣ rows ∨ rows = 0 →
      (mini / micro - 1) * micro < max 1 (rows % mini) ∧ max 1 (rows % mini) ≤ mini / micro * micro)

theorem splitCount_eq_div_iff {mini micro r : Nat} : splitCount micro r = mini / micro ↔
    (mini / micro - 1) * micro < max 1 r ∧ max 1 r ≤ mini / micro * micro := by
  rcases Nat.eq_zero_or_pos micro with rfl | positive
  · simp [splitCount]
  · exact splitCount_eq_iff positive

theorem staticFit_iff {mini : Nat} (positive : 0 < mini) (micro : Nat) (rows : List (Row α)) :
    (∀ piece ∈ Verl.split mini rows, splitCount micro piece.length = mini / micro) ↔
      StaticFit rows.length mini micro := by
  rw [forall_split_iff positive rows (fun r => splitCount micro r = mini / micro)]
  unfold StaticFit
  rw [splitCount_eq_div_iff, splitCount_eq_div_iff]
  have full : ((mini / micro - 1) * micro < max 1 mini ∧ max 1 mini ≤ mini / micro * micro) ↔
      micro ∣ mini := by
    rw [max_eq_right positive]
    have below := Nat.div_mul_le_self mini micro
    constructor
    · rintro ⟨-, above⟩
      exact ⟨mini / micro, by rw [Nat.mul_comm]; omega⟩
    · intro divides
      have same := Nat.div_mul_cancel divides
      have size := Nat.pos_of_dvd_of_pos divides positive
      refine ⟨?_, same.ge⟩
      rw [Nat.sub_mul, same]
      omega
  rw [full]

/-- What the configured sizes have to satisfy for a batch of this many rows. `len` is the number of
columns of a multi-modal micro batch, `held` the divisor of the static case there. -/
def UpdateConfig.Fits (config : UpdateConfig) (len : Nat) (held : Nat → Option Nat)
    (multiModal : Bool) (rows : Nat) : Prop :=
  let mini := config.ppoMiniBatchSize
  match multiModal, config.useDynamicBsz with
  | false, true => rows ≠ 0 ∧ mini ∣ rows
  | false, false => ∀ micro, config.ppoMicroBatchSizePerGpu = some micro → StaticFit rows mini micro
  | true, true =>
    ∀ micro, config.ppoMicroBatchSizePerGpu = some micro → rows / (rows / mini) / micro * len = mini
  | true, false =>
    ∀ micro, config.ppoMicroBatchSizePerGpu = some micro →
    held micro = some (rows / (rows / mini) / micro)

def UpdateConfig.FitsMini (config : UpdateConfig) (len : Nat) (held : Nat → Option Nat)
    (multiModal : Bool) (r : Nat) : Prop :=
  match multiModal, config.useDynamicBsz with
  | false, true => r = config.ppoMiniBatchSize
  | false, false =>
    ∀ micro, config.ppoMicroBatchSizePerGpu = some micro →
    splitCount micro r = config.ppoMiniBatchSize / micro
  | true, true =>
    ∀ micro, config.ppoMicroBatchSizePerGpu = some micro → r / micro * len = config.ppoMiniBatchSize
  | true, false =>
    ∀ micro, config.ppoMicroBatchSizePerGpu = some micro → held micro = some (r / micro)

theorem sumsToOne_unit_iff {β : Type} {micro : List β} {count g : Nat}
    (length : micro.length = count) (nonzero : count ≠ 0) :
    SumsToOne (micro.map (fun _ => ratio 1 g)) ↔ count = g := by
  rw [sumsToOne_const_iff, length, Nat.mul_one]
  constructor
  · exact fun both => both.2
  · rintro rfl
    exact ⟨nonzero, rfl⟩

theorem splitCount_ne_zero (size r : Nat) : splitCount size r ≠ 0 :=
  Nat.pos_iff_ne_zero.mp (le_max_left 1 _)

theorem dynamicText_iff {mini : TokenBatch α} {maxTokenLen target : Nat} {peers : Peers}
    {micro : List (List (Row α))} {indices : List (List Nat)} (positive : target ≠ 0)
    (cut : rearrangeMicroBatches mini maxTokenLen peers = .ok (micro, indices)) :
    SumsToOne (micro.map (fun rows => ratio rows.length target)) ↔ mini.rows.length = target := by
  rw [sumsToOne_map_iff, sum_length_rearrange cut]
  exact and_iff_right positive

theorem staticText_iff {mini : TokenBatch α} {size gradientAccumulation : Nat}
    {micro : List (List (Row α))} (cut : splitRows size mini.rows = .ok micro) :
    SumsToOne (micro.map (fun _ => ratio 1 gradientAccumulation)) ↔
      splitCount size mini.rows.length = gradientAccumulation :=
  sumsToOne_unit_iff (length_of_splitRows cut).1 (splitCount_ne_zero _ _)

theorem policyMiniBatch_iff {config : UpdateConfig} {useKlLoss : Bool} {sp : Nat} {peers : Peers}
    {multiModal : Bool}
    {mini : TokenBatch α} {weights : List (Option ℚ)} (positive : config.ppoMiniBatchSize ≠ 0)
    (run : policyMiniBatch config useKlLoss sp peers multiModal mini = .ok weights) :
    SumsToOne weights ↔ config.FitsMini (dictLen (policyKeys useKlLoss))
      (fun micro => some (config.ppoMiniBatchSize / micro)) multiModal mini.rows.length := by
  unfold policyMiniBatch at run
  unfold UpdateConfig.FitsMini
  cases multiModal with
  | true =>
    simp only [if_true, bind_ok_iff, requireInt_ok_iff, pyFloorDiv_ok_iff, pure_eq_ok,
      Except.ok.injEq] at run
    obtain ⟨size, given, _, ⟨-, rfl⟩, _, ⟨-, rfl⟩, micro, cut, rfl⟩ := run
    obtain ⟨length, nonzero⟩ := length_of_chunkRows cut
    simp only [given, Option.some.injEq, forall_eq']
    cases config.useDynamicBsz with
    | true =>
      simp only [if_true]
      rw [sumsToOne_const_iff, length]
      exact and_iff_right positive
    | false =>
      simp only [Bool.false_eq_true, if_false]
      rw [sumsToOne_unit_iff length nonzero]
      exact eq_comm
  | false =>
    cases dynamic : config.useDynamicBsz with
    | true =>
      simp only [dynamic, Bool.false_eq_true, if_false, if_true, bind_ok_iff, pure_eq_ok,
        Except.ok.injEq] at run
      obtain ⟨⟨micro, indices⟩, cut, rfl⟩ := run
      exact dynamicText_iff positive cut
    | false =>
      simp only [dynamic, Bool.false_eq_true, if_false, bind_ok_iff, requireInt_ok_iff,
        pyFloorDiv_ok_iff, pure_eq_ok, Except.ok.injEq] at run
      obtain ⟨size, given, _, ⟨-, rfl⟩, micro, cut, rfl⟩ := run
      simp only [given, Option.some.injEq, forall_eq']
      exact staticText_iff cut

theorem criticMiniBatch_iff {config : UpdateConfig} {gradientAccumulation : Option Nat} {sp : Nat}
    {peers : Peers} {multiModal : Bool} {mini : TokenBatch α} {weights : List (Option ℚ)}
    (positive : config.ppoMiniBatchSize ≠ 0)
    (run : criticMiniBatch config gradientAccumulation sp peers multiModal mini = .ok weights) :
    SumsToOne weights ↔
      config.FitsMini (dictLen criticKeys) (fun _ => gradientAccumulation) multiModal
        mini.rows.length := by
  unfold criticMiniBatch at run
  unfold UpdateConfig.FitsMini
  cases multiModal with
  | true =>
    simp only [if_true, bind_ok_iff, requireInt_ok_iff, pyFloorDiv_ok_iff] at run
    obtain ⟨size, given, _, ⟨-, rfl⟩, micro, cut, run⟩ := run
    obtain ⟨length, nonzero⟩ := length_of_chunkRows cut
    simp only [given, Option.some.injEq, forall_eq']
    cases dynamic : config.useDynamicBsz with
    | true =>
      simp only [dynamic, if_true] at run
      rw [mapM_ok _ (fun _ => ratio (dictLen criticKeys) config.ppoMiniBatchSize)
        _ (fun _ _ => rfl), Except.ok.injEq] at run
      rw [← run, sumsToOne_const_iff, length]
      exact and_iff_right positive
    | false =>
      simp only [dynamic, Bool.false_eq_true, if_false] at run
      cases gradientAccumulation with
      | none =>
        -- the first micro batch reads an attribute that nothing has set
        obtain ⟨rows, member⟩ :=
          List.exists_mem_of_length_pos (Nat.pos_of_ne_zero (length ▸ nonzero))
        obtain ⟨_, fails⟩ := exists_of_mapM_ok run member
        cases fails
      | some held =>
        simp only [configGet, ok_bind, pure_eq_ok] at run
        rw [mapM_ok _ (fun _ => ratio 1 held) _ (fun _ _ => rfl), Except.ok.injEq] at run
        rw [← run, sumsToOne_unit_iff length nonzero, Option.some.injEq]
        exact eq_comm
  | false =>
    cases dynamic : config.useDynamicBsz with
    | true =>
      simp only [dynamic, Bool.false_eq_true, if_false, if_true, bind_ok_iff, pure_eq_ok,
        Except.ok.injEq] at run
      obtain ⟨⟨micro, indices⟩, cut, rfl⟩ := run
      exact dynamicText_iff positive cut
    | false =>
      simp only [dynamic, Bool.false_eq_true, if_false, bind_ok_iff, requireInt_ok_iff,
        pyFloorDiv_ok_iff, pure_eq_ok, Except.ok.injEq] at run
      obtain ⟨size, given, micro, cut, _, ⟨-, rfl⟩, rfl⟩ := run
      simp only [given, Option.some.injEq, forall_eq']
      exact staticText_iff cut

theorem chunkBatch_lengths {chunks : Nat} {batch : TokenBatch α} {pieces : List (TokenBatch α)}
    (cut : chunkBatch chunks batch = .ok pieces) :
    pieces ≠ [] ∧ ∀ piece ∈ pieces, piece.rows.length = batch.rows.length / chunks := by
  simp only [chunkBatch, pyMod, bind_ok_iff, pyAssert_ok_iff, pure_eq_ok, Except.ok.injEq,
    beq_iff_eq] at cut
  obtain ⟨remainder, divided, -, zero, rfl⟩ := cut
  split at divided
  case isTrue => cases divided
  case isFalse nonzero =>
    cases divided
    constructor
    · simpa using nonzero
    · intro piece member
      obtain ⟨j, inside, rfl⟩ := List.mem_map.mp member
      apply length_block
      have fits : (j + 1) * (batch.rows.length / chunks) ≤ chunks * (batch.rows.length / chunks) :=
        Nat.mul_le_mul_right _ (List.mem_range.mp inside)
      rwa [Nat.mul_div_cancel' (Nat.dvd_of_mod_eq_zero zero)] at fits

theorem forall_split_rows {batch : TokenBatch α} {size : Nat} {P : Nat → Prop} :
    (∀ piece ∈ batch.split size, P piece.rows.length) ↔ ∀ piece ∈ Verl.split size batch.rows,
      P piece.length := by
  rw [← TokenBatch.split_rows, List.forall_mem_map]

theorem forall_dataloader_iff {config : UpdateConfig} {data : Data α} {minis : List (TokenBatch α)}
    (len : Nat) (held : Nat → Option Nat) (loaded : dataloader config data = .ok minis) :
    config.ppoMiniBatchSize ≠ 0 ∧
      ((∀ mini ∈ minis, config.FitsMini len held data.hasMultiModalInputs mini.rows.length) ↔
        config.Fits len held data.hasMultiModalInputs data.rows.length) := by
  unfold dataloader at loaded
  unfold UpdateConfig.Fits UpdateConfig.FitsMini
  cases multi : data.hasMultiModalInputs with
  | true =>
    simp only [multi, if_true, bind_ok_iff, pyFloorDiv_ok_iff] at loaded
    obtain ⟨_, ⟨nonzero, rfl⟩, cut⟩ := loaded
    obtain ⟨nonempty, lengths⟩ := chunkBatch_lengths cut
    refine ⟨nonzero, ?_⟩
    have all := forall_const_iff nonempty lengths
    cases config.useDynamicBsz with
    | true =>
      exact all (fun r => ∀ micro, config.ppoMicroBatchSizePerGpu = some micro →
        r / micro * len = config.ppoMiniBatchSize)
    | false =>
      exact all (fun r => ∀ micro, config.ppoMicroBatchSizePerGpu = some micro →
      held micro = some (r / micro))
  | false =>
    simp only [multi, Bool.false_eq_true, if_false] at loaded
    split at loaded
    case isTrue => cases loaded
    case isFalse nonzero =>
      cases loaded
      have positive := Nat.pos_of_ne_zero nonzero
      refine ⟨nonzero, ?_⟩
      cases config.useDynamicBsz with
      | true =>
        simp only
        rw [forall_split_rows (P := fun r => r = config.ppoMiniBatchSize),
          forall_split_full_iff positive]
      | false =>
        have each : ∀ size, (∀ piece ∈ data.toTokenBatch.split config.ppoMiniBatchSize,
            splitCount size piece.rows.length = config.ppoMiniBatchSize / size) ↔
            StaticFit data.rows.length config.ppoMiniBatchSize size := by
          intro size
          rw [forall_split_rows (P := fun r => splitCount size r = config.ppoMiniBatchSize / size)]
          exact staticFit_iff positive size data.rows
        constructor
        · exact fun fits size given =>
            (each size).mp (fun piece member => fits piece member size given)
        · exact fun fits piece member size given => (each size).mpr (fits size given) piece member

/-- What the reward model's config has to satisfy. In the dynamic case `len(data)` is 1, so the
mini batches have to be cut into as many micro batches as `ppo_mini_batch_size` says. -/
def rmFits (config : RmConfig) (sp : Nat) (peers : Nat → Peers) (data : Data α) : Prop :=
  if config.useDynamicBsz then
    ∀ mini ∈ (miniBatches config data).zipIdx, ∀ maxTokenLen size,
      config.ppoMaxTokenLenPerGpu = some maxTokenLen →
      config.ppoMiniBatchSize = some size →
        numMicroBatches mini.1 (maxTokenLen * sp) (peers mini.2) = .ok size
  else StaticFit data.rows.length config.miniBatchSize config.microBatchSizePerGpu

theorem configGet_ok_iff {name : String} {value : Option Nat} {n : Nat} :
    configGet name value = .ok n ↔ value = some n := by
  cases value <;> simp [configGet]

theorem length_rearrange {mini : TokenBatch α} {maxTokenLen : Nat} {peers : Peers}
    {micro : List (List (Row α))} {indices : List (List Nat)}
    (cut : rearrangeMicroBatches mini maxTokenLen peers = .ok (micro, indices)) :
    numMicroBatches mini maxTokenLen peers = .ok micro.length ∧ micro.length ≠ 0 := by
  obtain ⟨⟨count, counted, parts⟩, -, -⟩ := rearrangeMicroBatches_ok cut
  have wide : mini.maxSeqLen ≤ maxTokenLen := by
    simp only [rearrangeMicroBatches, bind_ok_iff, pyAssert_ok_iff, decide_eq_true_eq] at cut
    obtain ⟨-, wide, -⟩ := cut
    exact wide
  obtain ⟨one, enough⟩ := partitions_bounds parts
  obtain ⟨_, _, run, length, -⟩ :=
    rearrangeMicroBatches_of_count wide counted one (by simpa [TokenBatch.seqLens] using enough)
  rw [cut, Except.ok.injEq, Prod.mk.injEq] at run
  rw [← run.1] at length
  exact ⟨length.symm ▸ counted, by omega⟩

theorem rmMiniBatch_dynamic_iff {config : RmConfig} {sp : Nat} {peers : Peers} {mini : TokenBatch α}
    {weights : List (Option ℚ)} (dynamic : config.useDynamicBsz = true)
    (run : rmMiniBatch config sp peers mini = .ok weights) :
    SumsToOne weights ↔ ∀ maxTokenLen size, config.ppoMaxTokenLenPerGpu = some maxTokenLen →
      config.ppoMiniBatchSize = some size →
        numMicroBatches mini (maxTokenLen * sp) peers = .ok size := by
  simp only [rmMiniBatch, cutMiniBatch, dynamic, if_true, bind_ok_iff, configGet_ok_iff, pure_eq_ok,
    Except.ok.injEq] at run
  obtain ⟨_, ⟨maxTokenLen, given, ⟨micro, indices⟩, cut, rfl⟩, run⟩ := run
  obtain ⟨counted, nonzero⟩ := length_rearrange cut
  obtain ⟨rows, member⟩ := List.exists_mem_of_length_pos (Nat.pos_of_ne_zero nonzero)
  obtain ⟨_, first⟩ := exists_of_mapM_ok run member
  obtain ⟨size, read, first⟩ := bind_ok_iff.mp first
  have held := configGet_ok_iff.mp read
  have same : weights = micro.map (fun _ => ratio 1 size) := by
    split at first
    case isTrue => cases first
    case isFalse positive =>
      have each : micro.mapM (fun _ => do
          let size ← configGet "ppo_mini_batch_size" config.ppoMiniBatchSize
          if size = 0 then
            .error .zeroDivision
          else .ok (ratio 1 size)) = .ok (micro.map (fun _ => ratio 1 size)) := by
        apply mapM_ok
        intro _ _
        simp [read, positive]
      rw [each] at run
      exact (Except.ok.inj run).symm
  rw [same, sumsToOne_unit_iff rfl nonzero]
  simp [given, held, counted]

theorem updateRmWeights_iff {config : RmConfig} {sp : Nat} {peers : Nat → Peers} {data : Data α}
    {weights : List (List (Option ℚ))} (run : updateRmWeights config sp peers data = .ok weights) :
    (∀ w ∈ weights, SumsToOne w) ↔ rmFits config sp peers data := by
  unfold updateRmWeights at run
  split at run
  case isTrue => cases run
  case isFalse nonzero =>
    unfold rmFits
    cases dynamic : config.useDynamicBsz with
    | true =>
      rw [if_pos rfl]
      exact forall_mapM_iff run (fun x _ w done => rmMiniBatch_dynamic_iff dynamic done)
    | false =>
      rw [if_neg Bool.false_ne_true, ← staticFit_iff
        (Nat.pos_of_ne_zero nonzero), ← forall_split_rows
        (P := fun r => splitCount config.microBatchSizePerGpu r =
          config.miniBatchSize / config.microBatchSizePerGpu)]
      refine (forall_mapM_iff run ?_).trans forall_zipIdx_iff
      intro x _ w done
      simp only [rmMiniBatch, cutMiniBatch, dynamic, Bool.false_eq_true, if_false,
        bind_ok_iff, pure_eq_ok, Except.ok.injEq] at done
      obtain ⟨micro, cut, rfl⟩ := done
      exact sumsToOne_unit_iff (length_of_splitRows cut).1 (splitCount_ne_zero _ _)

/-- Exactly when the factors of every mini batch sum to 1, in the three functions. -/
theorem loss_weights_sum_iff (config : UpdateConfig) (useKlLoss : Bool)
    (gradientAccumulation : Option Nat) (rmConfig : RmConfig)
    (sp : Nat) (peers : Nat → Nat → Peers) (rmPeers : Nat → Peers) (data : Data α) :
    (∀ weights, updatePolicyWeights config useKlLoss sp peers data = .ok weights →
      ((∀ w ∈ weights, SumsToOne w) ↔ config.ppoEpochs = 0 ∨
        config.Fits (dictLen (policyKeys useKlLoss)) (fun micro =>
          some (config.ppoMiniBatchSize / micro))
          data.hasMultiModalInputs data.rows.length)) ∧
    (∀ weights, updateCriticWeights config gradientAccumulation sp peers data = .ok weights →
      ((∀ w ∈ weights, SumsToOne w) ↔ config.ppoEpochs = 0 ∨
        config.Fits (dictLen criticKeys) (fun _ => gradientAccumulation) data.hasMultiModalInputs
          data.rows.length)) ∧
    (∀ weights, updateRmWeights rmConfig sp rmPeers data = .ok weights →
      ((∀ w ∈ weights, SumsToOne w) ↔ rmFits rmConfig sp rmPeers data)) := by
  refine ⟨?_, ?_, fun weights run => updateRmWeights_iff run⟩
  · intro weights run
    obtain ⟨minis, loaded, run⟩ := bind_ok_iff.mp run
    obtain ⟨positive, fits⟩ := forall_dataloader_iff (dictLen (policyKeys useKlLoss))
      (fun micro => some (config.ppoMiniBatchSize / micro)) loaded
    rw [overEpochs_iff run (fun _ _ _ _ _ done => policyMiniBatch_iff positive done), fits]
  · intro weights run
    obtain ⟨minis, loaded, run⟩ := bind_ok_iff.mp run
    obtain ⟨positive, fits⟩ :=
      forall_dataloader_iff (dictLen criticKeys) (fun _ => gradientAccumulation) loaded
    rw [overEpochs_iff run (fun _ _ _ _ _ done => criticMiniBatch_iff positive done), fits]

def oneTokenRows (count : Nat) (multiModal : Bool) : Data Unit where
  maxSeqLen := 1
  rows := List.replicate count ⟨[true], ()⟩
  rect row member := by rw [List.eq_of_mem_replicate member]; rfl
  responseLength := 1
  hasMultiModalInputs := multiModal

theorem loss_weights_sum_full_batch :
    ∀ w ∈ [[some (1 / 2 : ℚ), some (1 / 2 : ℚ)]], SumsToOne w := by
  have holds := loss_weights_sum_iff ⟨2, some 1, false, 1, 1⟩ false none ⟨false, false, 2, 1,
    1, none, none⟩ 1
    (fun _ _ => none) (fun _ => none) (oneTokenRows 2 false)
  apply (holds.1 _ rfl).mpr
  right
  rintro _ ⟨⟩
  exact ⟨fun _ => by decide, by decide⟩

/-- Three rows in mini batches of two; a multi-modal batch with dynamic sizes; PRIME with dynamic
sizes. -/
theorem loss_weights_off :
    (updatePolicyWeights ⟨2, some 1, false, 1, 1⟩ false 1 (fun _ _ => none) (oneTokenRows 3 false) =
        .ok [[some (1 / 2), some (1 / 2)], [some (1 / 2)]] ∧ ¬ SumsToOne [some (1 / 2)]) ∧
    (updatePolicyWeights ⟨2, some 1, true, 1, 1⟩ false 1 (fun _ _ => none) (oneTokenRows 2 true) =
        .ok [[some (7 / 2), some (7 / 2)]] ∧ ¬ SumsToOne [some (7 / 2), some (7 / 2)]) ∧
    (updateRmWeights ⟨true, false, 2, 1, 2, some 2,
      some 2⟩ 1 (fun _ => none) (oneTokenRows 2 false) =
        .ok [[some (1 / 2)]] ∧ ¬ SumsToOne [some (1 / 2)]) := by
  have half : ¬ SumsToOne [some (1 / 2)] := by
    rw [show [some (1 / 2 : ℚ)] = [1 / 2].map some from rfl, sumsToOne_some_iff]
    norm_num
  have seven : ¬ SumsToOne [some (7 / 2), some (7 / 2)] := by
    rw [show [some (7 / 2 : ℚ), some (7 / 2)] = [7 / 2, 7 / 2].map some from rfl,
      sumsToOne_some_iff]
    norm_num
  exact ⟨⟨rfl, half⟩, ⟨rfl, seven⟩, rfl, half⟩

end Verl.Workers
