import Verl.Checkpoint.Trainer

/-! `RayPPOTrainer.fit` and `RayPRIMETrainer.fit` as the actions they perform, each with
the value of `global_steps` at that moment. How many batches the epochs of the dataloader
give is a parameter; validation changes nothing and is left out. -/
namespace Verl.Trainer

inductive UpdateStyle where
  | none
  | after
  | before
  | reverse
  deriving DecidableEq

structure TrainerConfig where
  checkpoint : Checkpoint.Config
  totalTrainingSteps : Nat
  criticWarmup : Nat
  saveFreq : Int
  /-- Validation before training, and nothing else. -/
  valOnly : Bool
  /-- Present with `use_rm`. -/
  rewardModel : Option UpdateStyle

inductive Kind where
  | updateCritic
  | updateRm
  | updateActor
  | saveCheckpoint
  deriving DecidableEq

structure Action where
  kind : Kind
  globalSteps : Nat
  deriving DecidableEq

/-- An action that is performed only under a condition. -/
def act (on : Bool) (kind : Kind) (globalSteps : Nat) : List Action :=
  if on then [⟨kind, globalSteps⟩] else []

section Fit

variable (config : TrainerConfig)

def ppoStep (globalSteps : Nat) : List Action :=
  let isLastStep := decide (globalSteps ≥ config.totalTrainingSteps)
  act config.checkpoint.critic.isSome .updateCritic globalSteps ++
  act (config.criticWarmup ≤ globalSteps) .updateActor globalSteps ++
  act (config.saveFreq > 0 && (isLastStep || globalSteps % config.saveFreq == 0))
    .saveCheckpoint globalSteps

def ppoLoop : Nat → Nat → List Action
  | 0, _ => []
  | batches + 1, globalSteps =>
    ppoStep config globalSteps ++
      if globalSteps ≥ config.totalTrainingSteps then [] else ppoLoop batches (globalSteps + 1)

/-- `RayPPOTrainer.fit` after `_load_checkpoint` has set `global_steps`. -/
def ppoFit (resumed batches : Nat) : List Action :=
  if config.valOnly then [] else ppoLoop config batches (resumed + 1)

def primeStep (globalSteps : Nat) : List Action :=
  act (config.rewardModel.any (· ≠ .none)) .updateRm globalSteps ++ [⟨.updateActor, globalSteps⟩] ++
  act (config.saveFreq > 0 && globalSteps % config.saveFreq == 0) .saveCheckpoint globalSteps

def primeFinal (globalSteps : Nat) : List Action :=
  act (config.saveFreq > 0 && ((globalSteps : Int) - 1) % config.saveFreq != 0)
    .saveCheckpoint globalSteps

def primeLoop : Nat → Nat → List Action
  | 0, _ => []
  | batches + 1, globalSteps =>
    primeStep config globalSteps ++
      if globalSteps + 1 ≥ config.totalTrainingSteps then primeFinal config (globalSteps + 1)
      else primeLoop batches (globalSteps + 1)

/-- The constructor hands on one argument too few, so `self.val_reward_fn` is `None` and `val_only`
is not read. -/
def primeFit (resumed batches : Nat) : List Action := primeLoop config batches (resumed + 1)

end Fit

def actorUpdates (actions : List Action) : List Nat :=
  (actions.filter (·.kind = .updateActor)).map Action.globalSteps

def checkpoints : Nat → List Action → List (Nat × Nat)
  | _, [] => []
  | updates, action :: actions =>
    match action.kind with
    | .updateActor => checkpoints (updates + 1) actions
    | .saveCheckpoint => (action.globalSteps, updates) :: checkpoints updates actions
    | _ => checkpoints updates actions

section Actions

theorem mem_act {on : Bool} {kind : Kind} {globalSteps : Nat} {action : Action} :
    action ∈ act on kind globalSteps ↔ on = true ∧ action = ⟨kind, globalSteps⟩ := by
  cases on with
  | true => simp [act]
  | false => simp [act]

theorem actorUpdates_append (xs ys : List Action) :
    actorUpdates (xs ++ ys) = actorUpdates xs ++ actorUpdates ys := by
  simp [actorUpdates]

theorem actorUpdates_act (on : Bool) (kind : Kind) (globalSteps : Nat) :
    actorUpdates (act on kind globalSteps) = if on = true ∧ kind = .updateActor then
      [globalSteps] else [] := by
  cases on with
  | false => rfl
  | true =>
    by_cases actor : kind = .updateActor
    · simp [act, actorUpdates, actor]
    · simp [act, actorUpdates, actor]

theorem mem_actorUpdates {actions : List Action} {globalSteps : Nat} :
    globalSteps ∈ actorUpdates actions ↔ ⟨.updateActor, globalSteps⟩ ∈ actions := by
  constructor
  · intro member
    obtain ⟨action, kept, rfl⟩ := List.mem_map.mp member
    obtain ⟨inside, kind⟩ := List.mem_filter.mp kept
    obtain ⟨_, _⟩ := action
    obtain rfl := of_decide_eq_true kind
    exact inside
  · intro member
    exact List.mem_map.mpr ⟨_, List.mem_filter.mpr ⟨member, rfl⟩, rfl⟩

theorem checkpoints_append (updates : Nat) (xs ys : List Action) :
    checkpoints updates (xs ++ ys) =
      checkpoints updates xs ++ checkpoints (updates + (actorUpdates xs).length) ys := by
  induction xs generalizing updates with
  | nil => rfl
  | cons x xs ih =>
    obtain ⟨kind, globalSteps⟩ := x
    cases kind with
    | updateActor =>
      have shift : updates + 1 + (actorUpdates xs).length =
          updates + (actorUpdates (⟨.updateActor, globalSteps⟩ :: xs)).length := by
        simp [actorUpdates]
        omega
      rw [← shift]
      exact ih (updates + 1)
    | saveCheckpoint => exact congrArg ((globalSteps, updates) :: ·) (ih updates)
    | updateCritic => exact ih updates
    | updateRm => exact ih updates

end Actions

section Loops

variable {config : TrainerConfig}

theorem mem_ppoStep {globalSteps : Nat} {action : Action}
    (member : action ∈ ppoStep config globalSteps) :
    action.globalSteps = globalSteps := by
  simp only [ppoStep, List.mem_append, mem_act] at member
  rcases member with (⟨-, rfl⟩ | ⟨-, rfl⟩) | ⟨-, rfl⟩
  · rfl
  · rfl
  · rfl

theorem mem_ppoLoop {batches globalSteps : Nat} (start : globalSteps ≤ config.totalTrainingSteps)
    {action : Action} (member : action ∈ ppoLoop config batches globalSteps) :
    action.globalSteps ≤ config.totalTrainingSteps := by
  induction batches generalizing globalSteps with
  | zero => cases member
  | succ batches ih =>
    rcases List.mem_append.mp member with now | later
    · exact mem_ppoStep now ▸ start
    · split at later
      · cases later
      · exact ih (by omega) later

/-- One life of `fit` updates the actor beyond the last step exactly if it is resumed there. -/
theorem ppoFit_beyond_iff (resumed batches : Nat) :
    (∃ step ∈ actorUpdates (ppoFit config resumed batches), config.totalTrainingSteps < step) ↔
      config.totalTrainingSteps ≤ resumed ∧ config.valOnly = false ∧ 0 < batches ∧
        config.criticWarmup ≤ resumed + 1 := by
  unfold ppoFit
  constructor
  · rintro ⟨step, member, beyond⟩
    rw [mem_actorUpdates] at member
    split at member
    · cases member
    · rename_i training
      have resumedLate : config.totalTrainingSteps ≤ resumed := by
        by_contra early
        exact absurd (mem_ppoLoop (by omega) member) (Nat.not_le_of_gt beyond)
      cases batches with
      | zero => cases member
      | succ batches =>
        refine ⟨resumedLate, by simpa using training, Nat.succ_pos _, ?_⟩
        rw [ppoLoop, if_pos (by omega), List.append_nil] at member
        simp only [ppoStep, List.mem_append, mem_act, Action.mk.injEq, reduceCtorEq, false_and,
          and_false, or_false, false_or, decide_eq_true_eq] at member
        exact member.1
  · rintro ⟨late, training, some, warm⟩
    refine ⟨resumed + 1, ?_, by omega⟩
    obtain ⟨batches, rfl⟩ := Nat.exists_eq_succ_of_ne_zero (Nat.ne_of_gt some)
    rw [mem_actorUpdates, if_neg (by simp [training]), ppoLoop]
    simp [ppoStep, mem_act, warm]

end Loops

end Verl.Trainer
