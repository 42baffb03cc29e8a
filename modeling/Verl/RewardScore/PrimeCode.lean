import Mathlib.Algebra.Field.Rat
import Mathlib.Algebra.Order.Ring.Rat
import Mathlib.Tactic.Linarith
import Verl.Base.Python
import Verl.Base.Search
import Verl.Base.Text

/-! `compute_score` of `verl/utils/reward_score/prime_code/__init__.py`, `check_correctness` and
`_temp_run` of its `utils.py`, and the loop of `run_test` over the tests. A parameter are the
loading of the solution, its run on one test, which may change what it finds on the next one, and
when the child process is lost. -/
namespace Verl.PrimeCode

section Harness

inductive Verdict where
  | passed
  | wrong
  | failed
  | notCompiled
  deriving DecidableEq, Repr

inductive TestRun (M : Type) where
  | result (verdict : Verdict) (metadata : M)
  | raises (error : PyError)

/-- A dictionary of tests; a missing key is `none`. -/
structure Cases (Input Output : Type) where
  fnName : Option Text
  inputs : Option (List Input)
  outputs : Option (List Output)

/-- How far the child process gets before it is killed or dies. -/
inductive Exit where
  | finished
  | beforeMetadata
  | beforeResult
  deriving DecidableEq, Repr

/-- `other` is no dictionary, or the empty one. -/
inductive TestCases (Input Output : Type) where
  | dict (cases : Cases Input Output)
  | other

/-- What a child process does; `Solution` is the state of the loaded program. -/
structure Sandbox (Input Output M Solution : Type) where
  loads : Text → Py (TestCases Input Output)
  /-- The solution for this function name, or the metadata where it cannot be loaded. -/
  load : Option Text → Text → Except M Solution
  /-- One test, and the solution that is left for the next one. -/
  runOne : Option Text → Solution → Input → Output → TestRun M × Solution
  exit : Cases Input Output → Text → Exit
  empty : M

variable {Input Output M Solution : Type} (box : Sandbox Input Output M Solution)

def item {α : Type} (name : String) : Option α → Py α
  | some value => .ok value
  | none => .error (.key name)

/-- The loop of `run_test`, which stops at the first test that does not pass. -/
def runLoop (cases : Cases Input Output) : Solution → List Input → Nat → Py (List Verdict × M)
  | _, [], _ => .ok ([], box.empty)
  | solution, input :: rest, index => do
    let outputs ← item "outputs" cases.outputs
    let output ← pyGet outputs index
    match box.runOne cases.fnName solution input output with
    | (.raises error, _) => .error error
    | (.result .passed _, next) => do
      let (results, metadata) ← runLoop cases next rest (index + 1)
      return (.passed :: results, metadata)
    | (.result verdict metadata, _) => return ([verdict], metadata)

def runTest (cases : Cases Input Output) (test : Text) : Py (List Verdict × M) :=
  match box.load cases.fnName test with
  | .error metadata => .ok ([.notCompiled], metadata)
  | .ok solution => do
    let inputs ← item "inputs" cases.inputs
    runLoop box cases solution inputs 0

def allFailed (cases : Cases Input Output) : Py (List Verdict) := do
  let inputs ← item "inputs" cases.inputs
  return List.replicate inputs.length .failed

/-- What `_temp_run` appends to `result` and to `metadata_list`; its handler may raise in turn. -/
def tempRun (cases : Cases Input Output) (generation : Text) : Option (List Verdict) × Option M :=
  match runTest box cases generation with
  | .ok (results, metadata) => (some results, some metadata)
  | .error _ =>
    match allFailed cases with
    | .ok results => (some results, some box.empty)
    | .error _ => (none, none)

def collected (cases : Cases Input Output) (generation : Text) : Option (List Verdict) × Option M :=
  match box.exit cases generation with
  | .finished => tempRun box cases generation
  | .beforeMetadata => ((tempRun box cases generation).1, none)
  | .beforeResult => (none, none)

def checkCorrectness (inOuts : TestCases Input Output) (generation : Text) :
    Py (List Verdict × Option M) :=
  match inOuts with
  | .other => .error (.type "string indices must be integers")
  | .dict cases =>
    match collected box cases generation with
    | (some results, metadata) => .ok (results, metadata)
    | (none, metadata) => do return (← allFailed cases, metadata)

end Harness

section Score

-- every check has a child process of its own, the complete check the first one
variable {Input Output M Solution : Type} (box : Nat → Sandbox Input Output M Solution)

inductive RawCases (Input Output : Type) where
  | value (tests : TestCases Input Output)
  | text (json : Text)

def parsed : RawCases Input Output → TestCases Input Output
  | .value tests => tests
  | .text json =>
    match (box 0).loads json with
    | .ok tests => tests
    | .error _ => .other

def solution (completion : Text) : Text :=
  let behind := (splitOn "```python".toList completion).getLast (splitOn_ne_nil _ _)
  (splitOn "```".toList behind).head (splitOn_ne_nil _ _)

inductive Success where
  | flag (success : Bool)
  | ratio (success : ℚ)
  deriving DecidableEq

/-- An entry of `metadata_list`: the metadata of the run and its `test_case`. -/
structure SampleMetadata (Input Output M : Type) where
  metadata : M
  input : Input
  output : Output
  res : List Verdict

inductive Returned (Input Output M : Type) where
  | metadata (whole : M)
  | metadataList (samples : List (SampleMetadata Input Output M))
  | none

def testCasesList : TestCases Input Output → Py (List (Input × Output))
  | .other => .error (.type "string indices must be integers")
  | .dict cases => do
    let inputs ← item "inputs" cases.inputs
    let outputs ← item "outputs" cases.outputs
    (List.range inputs.length).mapM (fun i => do return (← pyGet inputs i, ← pyGet outputs i))

/-- A single test as its own dictionary, which has no function name. -/
def single (sample : Input × Output) : TestCases Input Output :=
  .dict ⟨none, some [sample.1], some [sample.2]⟩

/-- The loop over the samples: `metadata_list` and `res_list`. -/
def sampleLoop (generation : Text) :
    List (Input × Output) → Nat → Py (List (SampleMetadata Input Output M) × List Verdict)
  | [], _ => .ok ([], [])
  | sample :: rest, testCaseId => do
    let (res, metadata) ← checkCorrectness (box (testCaseId + 1)) (single sample) generation
    let entry : SampleMetadata Input Output M :=
      ⟨metadata.getD (box (testCaseId + 1)).empty, sample.1, sample.2, res⟩
    if testCaseId ≥ 9 then return ([entry], res)
    else do
      let (metadataList, resList) ← sampleLoop generation rest (testCaseId + 1)
      return (entry :: metadataList, res ++ resList)

def sampleRatio (resList : List Verdict) : ℚ :=
  let resCount := if resList.length > 0 then resList.length else 1
  (resList.count .passed : ℚ) / (resCount : ℚ)

/-- The complete check: `success` and `metadata`, where they are assigned. -/
def completeCheck (box : Sandbox Input Output M Solution) (tests : TestCases Input Output)
    (generation : Text) :
    Option (Bool × M) :=
  match checkCorrectness box tests generation with
  | .ok (res, some metadata) => some (res.all (· == .passed), metadata)
  | _ => none

/-- What follows the complete check when it does not return; `assigned` tells whether `success` has
a value. -/
def perSample (assigned : Bool) (tests : TestCases Input Output) (generation : Text)
    (continuous : Bool) :
    Py (Success × Returned Input Output M) :=
  match testCasesList tests with
  | .error _ => .ok (.flag false, .none)
  | .ok samples =>
    if continuous then
      match sampleLoop box generation samples 0 with
      | .error _ => .ok (.flag false, .none)
      | .ok (metadataList, resList) =>
        .ok (.ratio (sampleRatio resList), .metadataList metadataList)
    else .error (.unboundLocal (if assigned then "metadata_list" else "success"))

def computeScore (completion : Text) (testCases : RawCases Input Output) (continuous : Bool) :
    Py (Success × Returned Input Output M) :=
  let generation := solution completion
  let tests := parsed box testCases
  match completeCheck (box 0) tests generation with
  | some (true, metadata) => .ok (.flag true, .metadata metadata)
  | some (false, _) => perSample box true tests generation continuous
  | none => perSample box false tests generation continuous

end Score

section Contract

variable {Input Output M Solution : Type}

def TestCases.inputs : TestCases Input Output → List Input
  | .dict cases => cases.inputs.getD []
  | .other => []

def TestCases.outputs : TestCases Input Output → List Output
  | .dict cases => cases.outputs.getD []
  | .other => []

def TestCases.fnName : TestCases Input Output → Option Text
  | .dict cases => cases.fnName
  | .other => none

def Passes (box : Sandbox Input Output M Solution) (fnName : Option Text) (solution : Solution)
    (input : Input) (output : Output) (next : Solution) : Prop :=
  ∃ metadata, box.runOne fnName solution input output = (.result .passed metadata, next)

def PassInTurn (box : Sandbox Input Output M Solution) (fnName : Option Text)
    (outputs : List Output) :
    Solution → List Input → Nat → Prop
  | _, [], _ => True
  | solution, input :: rest, index => ∃ output, outputs[index]? = some output ∧
      ∃ next, Passes box fnName solution input output next ∧
        PassInTurn box fnName outputs next rest (index + 1)

theorem PassInTurn.passes {box : Sandbox Input Output M Solution} {fnName : Option Text}
    {outputs : List Output}
    {solution : Solution} {inputs : List Input} {index i : Nat} {input : Input}
    (pass : PassInTurn box fnName outputs solution inputs index) (found : inputs[i]? = some input) :
    ∃ output, outputs[index + i]? = some output ∧ ∃ before after,
      Passes box fnName before input output after := by
  induction inputs generalizing solution index i with
  | nil => cases found
  | cons first rest ih =>
    obtain ⟨output, expected, next, passed, later⟩ := pass
    cases i with
    | zero =>
      cases found
      exact ⟨output, expected, solution, next, passed⟩
    | succ i =>
      rw [Nat.add_comm i 1, ← Nat.add_assoc]
      exact ih later found

def AllPass (box : Sandbox Input Output M Solution) (tests : TestCases Input Output)
    (generation : Text) : Prop :=
  tests.inputs = [] ∨ ∃ solution, box.load tests.fnName generation = .ok solution ∧
    PassInTurn box tests.fnName tests.outputs solution tests.inputs 0

def Success.full : Success → Prop
  | .flag success => success = true
  | .ratio success => success = 1

/-- The function returns, and a full score is only given when every test passes. -/
def Sound (box : Nat → Sandbox Input Output M Solution) (completion : Text)
    (testCases : RawCases Input Output) (continuous : Bool) : Prop :=
  ∃ score returned, computeScore box completion testCases continuous = .ok (score, returned) ∧
    (score.full → AllPass (box 0) (parsed box testCases) (solution completion))

end Contract

section Complete

variable {Input Output M Solution : Type} {box : Sandbox Input Output M Solution}

/-- The loop runs through, and only passed tests are recorded. -/
def LoopPasses (box : Sandbox Input Output M Solution) (cases : Cases Input Output)
    (solution : Solution) (inputs : List Input) (index : Nat) : Prop :=
  ∃ results metadata, runLoop box cases solution inputs index = .ok (results, metadata) ∧
    ∀ v ∈ results, v = .passed

variable {cases : Cases Input Output}

theorem loopPasses_cons_iff {solution : Solution} {input : Input} {rest : List Input}
    {index : Nat} :
    LoopPasses box cases solution (input :: rest) index ↔
      ∃ output, (cases.outputs.getD [])[index]? = some output ∧
        ∃ next, Passes box cases.fnName solution input output next ∧
          LoopPasses box cases next rest (index + 1) := by
  cases keyed : cases.outputs with
  | none => simp [LoopPasses, runLoop, keyed, item]
  | some outputs =>
    cases found : outputs[index]? with
    | none => simp [LoopPasses, runLoop, keyed, item, pyGet, found]
    | some output =>
      rcases ran : box.runOne cases.fnName solution input output with ⟨run, next⟩
      cases run with
      | raises error => simp [LoopPasses, Passes, runLoop, keyed, item, pyGet, found, ran]
      | result verdict metadata =>
        cases verdict with
        | passed =>
          simp only [LoopPasses, Passes, runLoop, keyed, item, pyGet, found, ran, ok_bind,
            bind_ok_iff, pure_eq_ok, Except.ok.injEq, Option.getD_some]
          constructor
          · rintro ⟨_, _, ⟨⟨results, last⟩, tail, same⟩, every⟩
            obtain ⟨rfl, rfl⟩ := Prod.mk.inj same
            exact ⟨output, rfl, next, ⟨metadata, ran⟩, results, last, tail, fun v there =>
              every v (List.mem_cons_of_mem _ there)⟩
          · rintro ⟨_, same, _, ⟨_, again⟩, results, last, tail, every⟩
            obtain rfl := Option.some.inj same
            obtain rfl := (Prod.mk.inj (ran.symm.trans again)).2
            refine ⟨.passed :: results, last, ⟨(results, last), tail, rfl⟩, ?_⟩
            simpa using every
        | wrong => simp [LoopPasses, Passes, runLoop, keyed, item, pyGet, found, ran]
        | failed => simp [LoopPasses, Passes, runLoop, keyed, item, pyGet, found, ran]
        | notCompiled => simp [LoopPasses, Passes, runLoop, keyed, item, pyGet, found, ran]

theorem loopPasses_iff {solution : Solution} {inputs : List Input} {index : Nat} :
    LoopPasses box cases solution inputs index ↔
      PassInTurn box cases.fnName (cases.outputs.getD []) solution inputs index := by
  induction inputs generalizing solution index with
  | nil => simp [LoopPasses, PassInTurn, runLoop]
  | cons input rest ih => simp only [loopPasses_cons_iff, PassInTurn, ih]

def ReportsPassed (box : Sandbox Input Output M Solution) (cases : Cases Input Output)
    (generation : Text) : Prop :=
  ∃ results metadata, tempRun box cases generation = (some results, some metadata) ∧
    ∀ v ∈ results, v = .passed

theorem reportsPassed_iff {generation : Text} :
    ReportsPassed box cases generation ↔
      ∃ solution, box.load cases.fnName generation = .ok solution ∧
      ∃ inputs, cases.inputs = some inputs ∧ LoopPasses box cases solution inputs 0 := by
  cases loaded : box.load cases.fnName generation with
  | error metadata => simp [ReportsPassed, tempRun, runTest, loaded]
  | ok solution =>
    cases keyed : cases.inputs with
    | none => simp [ReportsPassed, tempRun, runTest, loaded, keyed, item, allFailed]
    | some inputs =>
      cases ran : runLoop box cases solution inputs 0 with
      | ok report =>
        obtain ⟨results, metadata⟩ := report
        simp [ReportsPassed, LoopPasses, tempRun, runTest, loaded, keyed, item, ran]
      | error e =>
        have some : inputs ≠ [] := by
          rintro rfl
          cases ran
        simp [ReportsPassed, LoopPasses, tempRun, runTest, loaded, keyed, item, ran,
          allFailed, some]

theorem tempRun_cases (box : Sandbox Input Output M Solution) (cases : Cases Input Output)
    (generation : Text) :
    (∃ results metadata, tempRun box cases generation = (some results, some metadata)) ∨
      tempRun box cases generation = (none, none) := by
  unfold tempRun
  split
  · exact .inl ⟨_, _, rfl⟩
  · split
    · exact .inl ⟨_, _, rfl⟩
    · exact .inr rfl

theorem completeCheck_no_metadata {generation : Text}
    (lost : (collected box cases generation).2 = none) :
    completeCheck box (.dict cases) generation = none := by
  rcases found : collected box cases generation with ⟨result, metadata⟩
  obtain rfl : metadata = none := by rw [found] at lost; exact lost
  cases result with
  | some results => simp [completeCheck, checkCorrectness, found]
  | none =>
    cases failed : allFailed cases with
    | ok results => simp [completeCheck, checkCorrectness, found, failed]
    | error e => simp [completeCheck, checkCorrectness, found, failed]

theorem completeCheck_dict_iff {generation : Text} :
    (∃ metadata, completeCheck box (.dict cases) generation = some (true, metadata)) ↔
      box.exit cases generation = .finished ∧ ReportsPassed box cases generation := by
  cases exit : box.exit cases generation with
  | beforeMetadata =>
    have lost : (collected box cases generation).2 = none := by simp [collected, exit]
    simp [completeCheck_no_metadata lost]
  | beforeResult =>
    have lost : (collected box cases generation).2 = none := by simp [collected, exit]
    simp [completeCheck_no_metadata lost]
  | finished =>
    rcases tempRun_cases box cases generation with ⟨results, metadata, report⟩ | report
    · simp [completeCheck, checkCorrectness, collected, exit, ReportsPassed, report]
    · have lost : (collected box cases generation).2 = none := by simp [collected, exit, report]
      simp [completeCheck_no_metadata lost, ReportsPassed, report]

/-- The complete check succeeds: the solution is loaded, the check is not cut short and every test
passes. -/
def CompleteRun (box : Sandbox Input Output M Solution) (tests : TestCases Input Output)
    (generation : Text) : Prop :=
  ∃ cases inputs solution, tests = .dict cases ∧ cases.inputs = some inputs ∧
    box.exit cases generation = .finished ∧ box.load cases.fnName generation = .ok solution ∧
    PassInTurn box cases.fnName (cases.outputs.getD []) solution inputs 0

theorem completeCheck_iff {tests : TestCases Input Output} {generation : Text} :
    (∃ metadata, completeCheck box tests generation = some (true, metadata)) ↔
      CompleteRun box tests generation := by
  cases tests with
  | other => simp [completeCheck, checkCorrectness, CompleteRun]
  | dict cases =>
    simp only [completeCheck_dict_iff, reportsPassed_iff, loopPasses_iff]
    constructor
    · rintro ⟨exit, solution, loaded, inputs, keyed, pass⟩
      exact ⟨cases, inputs, solution, rfl, keyed, exit, loaded, pass⟩
    · rintro ⟨_, inputs, solution, same, keyed, exit, loaded, pass⟩
      obtain rfl := TestCases.dict.inj same
      exact ⟨exit, solution, loaded, inputs, keyed, pass⟩

theorem CompleteRun.allPass {tests : TestCases Input Output} {generation : Text}
    (run : CompleteRun box tests generation) :
    AllPass box tests generation := by
  obtain ⟨cases, inputs, solution, rfl, keyed, -, loaded, pass⟩ := run
  refine .inr ⟨solution, loaded, ?_⟩
  simpa [TestCases.inputs, TestCases.outputs, TestCases.fnName, keyed] using pass

end Complete

section Samples

variable {Input Output M Solution : Type}

def aloneVerdict (box : Sandbox Input Output M Solution) (generation : Text)
    (sample : Input × Output) : Verdict :=
  if box.exit ⟨none, some [sample.1], some [sample.2]⟩ generation = .beforeResult then .failed
  else
    match box.load none generation with
    | .error _ => .notCompiled
    | .ok solution =>
      match (box.runOne none solution sample.1 sample.2).1 with
      | .raises _ => .failed
      | .result verdict _ => verdict

theorem tempRun_single (box : Sandbox Input Output M Solution) (generation : Text)
    (sample : Input × Output)
    (alive : box.exit ⟨none, some [sample.1], some [sample.2]⟩ generation ≠ .beforeResult) :
    (tempRun box ⟨none, some [sample.1], some [sample.2]⟩ generation).1 =
      some [aloneVerdict box generation sample] := by
  cases loaded : box.load none generation with
  | error metadata => simp [tempRun, runTest, loaded, aloneVerdict, alive]
  | ok solution =>
    rcases ran : box.runOne none solution sample.1 sample.2 with ⟨run, next⟩
    cases run with
    | raises error =>
      simp [tempRun, runTest, runLoop, loaded, aloneVerdict, alive, item, pyGet, ran, allFailed]
    | result verdict metadata =>
      cases verdict <;> simp [tempRun, runTest, runLoop, loaded, aloneVerdict, alive,
        item, pyGet, ran]

theorem checkCorrectness_single (box : Sandbox Input Output M Solution) (generation : Text)
    (sample : Input × Output) :
    ∃ metadata, checkCorrectness box (single sample) generation =
      .ok ([aloneVerdict box generation sample], metadata) := by
  cases exit : box.exit ⟨none, some [sample.1], some [sample.2]⟩ generation with
  | beforeResult =>
    refine ⟨none, ?_⟩
    simp [checkCorrectness, single, collected, exit, allFailed, item, aloneVerdict]
  | beforeMetadata =>
    refine ⟨none, ?_⟩
    have result := tempRun_single box generation sample (by simp [exit])
    simp [checkCorrectness, single, collected, exit, result]
  | finished =>
    refine ⟨(tempRun box ⟨none, some [sample.1], some [sample.2]⟩ generation).2, ?_⟩
    have result := tempRun_single box generation sample (by simp [exit])
    rcases report : tempRun box ⟨none, some [sample.1],
      some [sample.2]⟩ generation with ⟨results, metadata⟩
    rw [report] at result
    obtain rfl := result
    simp [checkCorrectness, single, collected, exit, report]

variable {box : Nat → Sandbox Input Output M Solution}

def aloneVerdicts (box : Nat → Sandbox Input Output M Solution) (generation : Text)
    (testCaseId : Nat) (samples : List (Input × Output)) : List Verdict :=
  samples.mapIdx (fun i sample => aloneVerdict (box (testCaseId + i + 1)) generation sample)

theorem aloneVerdicts_cons (generation : Text) (testCaseId : Nat) (sample : Input × Output)
    (rest : List (Input × Output)) :
    aloneVerdicts box generation testCaseId (sample :: rest) =
      aloneVerdict (box (testCaseId + 1)) generation sample ::
        aloneVerdicts box generation (testCaseId + 1) rest := by
  rw [aloneVerdicts, List.mapIdx_cons, aloneVerdicts]
  simp only [Nat.add_zero, Nat.add_assoc, Nat.add_comm 1]

theorem sampleLoop_results {generation : Text} (samples : List (Input × Output)) {testCaseId : Nat}
    (early : testCaseId ≤ 9) :
    ∃ metadataList, sampleLoop box generation samples testCaseId =
      .ok (metadataList,
        aloneVerdicts box generation testCaseId (samples.take (10 - testCaseId))) := by
  induction samples generalizing testCaseId with
  | nil => exact ⟨[], by simp [sampleLoop, aloneVerdicts]⟩
  | cons sample rest ih =>
    obtain ⟨metadata, checked⟩ := checkCorrectness_single (box (testCaseId + 1)) generation sample
    obtain ⟨left, room⟩ : ∃ left, 10 - testCaseId = left + 1 := ⟨9 - testCaseId, by omega⟩
    let entry : SampleMetadata Input Output M :=
      ⟨metadata.getD (box (testCaseId + 1)).empty, sample.1, sample.2,
        [aloneVerdict (box (testCaseId + 1)) generation sample]⟩
    rw [room, List.take_succ_cons, aloneVerdicts_cons]
    by_cases last : testCaseId ≥ 9
    · obtain rfl : left = 0 := by omega
      refine ⟨[entry], ?_⟩
      simp only [sampleLoop, checked, ok_bind, if_pos last]
      rfl
    · obtain ⟨metadataList, later⟩ := @ih (testCaseId + 1) (by omega)
      refine ⟨entry :: metadataList, ?_⟩
      simp only [sampleLoop, checked, ok_bind, if_neg last, later]
      rw [show 10 - (testCaseId + 1) = left by omega]
      rfl

theorem sampleRatio_eq_one_iff {resList : List Verdict} :
    sampleRatio resList = 1 ↔ resList ≠ [] ∧ ∀ v ∈ resList, v = .passed := by
  cases resList with
  | nil => simp [sampleRatio]
  | cons v rest =>
    have counted : ((v :: rest).length : ℚ) ≠ 0 := by
      rw [Nat.cast_ne_zero]
      exact Nat.succ_ne_zero _
    have more : (v :: rest).length > 0 := Nat.succ_pos _
    rw [sampleRatio, if_pos more, div_eq_one_iff_eq counted, Nat.cast_inj, List.count_eq_length]
    simp [eq_comm]

/-- The test passes when it is run again by itself: as a program on standard input. -/
def PassesAlone (box : Sandbox Input Output M Solution) (generation : Text) (input : Input)
    (output : Output) : Prop :=
  box.exit ⟨none, some [input], some [output]⟩ generation ≠ .beforeResult ∧
    ∃ solution next, box.load none generation = .ok solution ∧
      Passes box none solution input output next

theorem aloneVerdict_passed_iff {box : Sandbox Input Output M Solution} {generation : Text}
    {sample : Input × Output} :
    aloneVerdict box generation sample = .passed ↔
      PassesAlone box generation sample.1 sample.2 := by
  by_cases lost : box.exit ⟨none, some [sample.1], some [sample.2]⟩ generation = .beforeResult
  · simp [aloneVerdict, PassesAlone, lost]
  · cases loaded : box.load none generation with
    | error metadata => simp [aloneVerdict, PassesAlone, lost, loaded]
    | ok solution =>
      rcases ran : box.runOne none solution sample.1 sample.2 with ⟨run, next⟩
      cases run with
      | raises error => simp [aloneVerdict, PassesAlone, Passes, lost, loaded, ran]
      | result verdict metadata => simp [aloneVerdict, PassesAlone, Passes, lost, loaded, ran]

end Samples

section Soundness

variable {Input Output M Solution : Type} {box : Nat → Sandbox Input Output M Solution}

def Malformed : TestCases Input Output → Prop
  | .other => True
  | .dict cases =>
    ∀ inputs outputs, cases.inputs = some inputs → cases.outputs = some outputs →
    outputs.length < inputs.length

theorem item_ok_iff {α : Type} {name : String} {entry : Option α} {value : α} :
    item name entry = .ok value ↔ entry = some value := by
  cases entry with
  | none => simp [item]
  | some other => simp [item]

theorem pairs_ok_iff {inputs : List Input} {outputs : List Output}
    {samples : List (Input × Output)} :
    (List.range inputs.length).mapM (fun i => do return (← pyGet inputs i, ← pyGet outputs i)) =
      (.ok samples : Py _) ↔ inputs.length ≤ outputs.length ∧ samples = inputs.zip outputs := by
  rw [mapM_ok_iff, List.forall₂_iff_get]
  simp only [bind_ok_iff, pyGet_ok_iff, pure_eq_ok, Except.ok.injEq, List.get_eq_getElem,
    List.getElem_range, List.length_range]
  constructor
  · rintro ⟨len, each⟩
    have fits : inputs.length ≤ outputs.length := by
      by_contra short
      obtain ⟨_, -, output, beyond, -⟩ := each outputs.length (by omega) (by omega)
      simp at beyond
    refine ⟨fits, List.ext_getElem (by simp; omega) ?_⟩
    intro i inside _
    obtain ⟨input, foundInput, output, foundOutput, same⟩ := each i (by omega) inside
    rw [List.getElem_zip, ← same, (List.getElem?_eq_some_iff.mp foundInput).2,
      (List.getElem?_eq_some_iff.mp foundOutput).2]
  · rintro ⟨fits, rfl⟩
    refine ⟨by simp [fits], fun i inside _ => ?_⟩
    have reaches : i < outputs.length := Nat.lt_of_lt_of_le inside fits
    exact ⟨inputs[i], List.getElem?_eq_getElem inside, outputs[i],
      List.getElem?_eq_getElem reaches, by simp⟩

theorem testCasesList_ok_iff {cases : Cases Input Output} {samples : List (Input × Output)} :
    testCasesList (.dict cases) = .ok samples ↔ ∃ inputs outputs, cases.inputs = some inputs ∧
      cases.outputs = some outputs ∧
      inputs.length ≤ outputs.length ∧ samples = inputs.zip outputs := by
  simp only [testCasesList, bind_ok_iff, item_ok_iff, pairs_ok_iff]
  constructor
  · rintro ⟨inputs, keyedInputs, outputs, keyedOutputs, fits, same⟩
    exact ⟨inputs, outputs, keyedInputs, keyedOutputs, fits, same⟩
  · rintro ⟨inputs, outputs, keyedInputs, keyedOutputs, fits, same⟩
    exact ⟨inputs, keyedInputs, outputs, keyedOutputs, fits, same⟩

/-- Some test among the first ten fails when it is run again by itself. -/
def EarlyFailure (box : Nat → Sandbox Input Output M Solution) (tests : TestCases Input Output)
    (generation : Text) : Prop :=
  ∃ i, i < 10 ∧ ∃ input output, tests.inputs[i]? = some input ∧ tests.outputs[i]? = some output ∧
    ¬PassesAlone (box (i + 1)) generation input output

theorem mem_aloneVerdicts_iff {inputs : List Input} {outputs : List Output} {generation : Text}
    {n : Nat} {v : Verdict} :
    v ∈ aloneVerdicts box generation 0 ((inputs.zip outputs).take n) ↔ ∃ i, i < n ∧ ∃ input output,
      inputs[i]? = some input ∧ outputs[i]? = some output ∧
        v = aloneVerdict (box (i + 1)) generation (input, output) := by
  rw [List.mem_iff_getElem?]
  simp only [aloneVerdicts, List.getElem?_mapIdx, List.getElem?_take,
    Option.map_eq_some_iff, Nat.zero_add]
  constructor
  · rintro ⟨i, sample, found, rfl⟩
    split at found
    · obtain ⟨foundInput, foundOutput⟩ := List.getElem?_zip_eq_some.mp found
      exact ⟨i, ‹_›, sample.1, sample.2, foundInput, foundOutput, rfl⟩
    · cases found
  · rintro ⟨i, inside, input, output, foundInput, foundOutput, rfl⟩
    refine ⟨i, (input, output), ?_, rfl⟩
    rw [if_pos inside]
    exact List.getElem?_zip_eq_some.mpr ⟨foundInput, foundOutput⟩

section Ratio

variable {cases : Cases Input Output} {inputs : List Input} {outputs : List Output}
  {generation : Text} (keyedInputs : cases.inputs = some inputs)
  (keyedOutputs : cases.outputs = some outputs)
include keyedInputs

theorem allPass_of_no_inputs (empty : inputs = []) : AllPass (box 0) (.dict cases) generation :=
  .inl (by simp [TestCases.inputs, keyedInputs, empty])

include keyedOutputs

theorem earlyFailure_iff :
    EarlyFailure box (.dict cases) generation ↔
      ∃ v ∈ aloneVerdicts box generation 0 ((inputs.zip outputs).take 10), v ≠ .passed := by
  have readInputs : (TestCases.dict cases).inputs = inputs := by
    simp [TestCases.inputs, keyedInputs]
  have readOutputs : (TestCases.dict cases).outputs = outputs := by
    simp [TestCases.outputs, keyedOutputs]
  rw [EarlyFailure, readInputs, readOutputs]
  constructor
  · rintro ⟨i, inside, input, output, foundInput, foundOutput, fails⟩
    exact ⟨_, mem_aloneVerdicts_iff.mpr ⟨i, inside, input, output, foundInput, foundOutput, rfl⟩,
      fun passed =>
      fails (aloneVerdict_passed_iff.mp passed)⟩
  · rintro ⟨v, member, fails⟩
    obtain ⟨i, inside, input, output, foundInput, foundOutput, rfl⟩ :=
      mem_aloneVerdicts_iff.mp member
    exact ⟨i, inside, input, output, foundInput, foundOutput, fun alone =>
      fails (aloneVerdict_passed_iff.mpr alone)⟩

theorem ratio_eq_one_iff (fits : inputs.length ≤ outputs.length) :
    sampleRatio (aloneVerdicts box generation 0 ((inputs.zip outputs).take 10)) = 1 ↔
      inputs ≠ [] ∧ ¬EarlyFailure box (.dict cases) generation := by
  have sampled : aloneVerdicts box generation 0 ((inputs.zip outputs).take 10) = [] ↔
      inputs = [] := by
    rw [aloneVerdicts, List.mapIdx_eq_nil_iff, List.take_eq_nil_iff, List.zip_eq_nil_iff]
    constructor
    · rintro (ten | empty | empty)
      · cases ten
      · exact empty
      · rw [empty] at fits
        exact List.length_eq_zero_iff.mp (Nat.le_zero.mp fits)
    · intro empty
      exact .inr (.inl empty)
  rw [sampleRatio_eq_one_iff, ne_eq, sampled, earlyFailure_iff keyedInputs keyedOutputs]
  simp only [not_exists, not_and, not_not]

theorem ratio_sound_iff (fits : inputs.length ≤ outputs.length) :
    (sampleRatio (aloneVerdicts box generation 0 ((inputs.zip outputs).take 10)) = 1 →
        AllPass (box 0) (.dict cases) generation) ↔
      AllPass (box 0) (.dict cases) generation ∨ EarlyFailure box (.dict cases) generation := by
  rw [ratio_eq_one_iff keyedInputs keyedOutputs fits]
  constructor
  · intro sound
    by_cases early : EarlyFailure box (.dict cases) generation
    · exact .inr early
    · left
      by_cases empty : inputs = []
      · exact allPass_of_no_inputs keyedInputs empty
      · exact sound ⟨empty, early⟩
  · rintro (pass | early) ⟨-, none⟩
    · exact pass
    · exact absurd early none

end Ratio

theorem testCasesList_of_malformed {tests : TestCases Input Output} (malformed : Malformed tests) :
    ∃ e, testCasesList tests = .error e := by
  cases made : testCasesList tests with
  | error e => exact ⟨e, rfl⟩
  | ok samples =>
    cases tests with
    | other => cases made
    | dict cases =>
      obtain ⟨inputs, outputs, keyedInputs, keyedOutputs, fits, -⟩ := testCasesList_ok_iff.mp made
      exact absurd (malformed inputs outputs keyedInputs keyedOutputs) (Nat.not_lt.mpr fits)

theorem perSample_sound_iff {tests : TestCases Input Output} {generation : Text}
    {assigned continuous : Bool} :
    (∃ score returned, perSample box assigned tests generation continuous = .ok (score, returned) ∧
        (score.full → AllPass (box 0) tests generation)) ↔
      Malformed tests ∨ continuous = true ∧
        (AllPass (box 0) tests generation ∨ EarlyFailure box tests generation) := by
  by_cases malformed : Malformed tests
  · obtain ⟨e, failed⟩ := testCasesList_of_malformed malformed
    refine iff_of_true ⟨.flag false, .none, ?_, ?_⟩ (.inl malformed)
    · simp only [perSample, failed]
    · intro full
      cases full
  · cases tests with
    | other => exact absurd trivial malformed
    | dict cases =>
      simp only [Malformed, not_forall, Nat.not_lt] at malformed
      obtain ⟨inputs, outputs, keyedInputs, keyedOutputs, fits⟩ := malformed
      have made : testCasesList (.dict cases) = .ok (inputs.zip outputs) :=
        testCasesList_ok_iff.mpr ⟨inputs, outputs, keyedInputs, keyedOutputs, fits, rfl⟩
      have wellFormed : ¬Malformed (.dict cases) := fun malformed =>
        Nat.not_lt.mpr fits (malformed inputs outputs keyedInputs keyedOutputs)
      rw [or_iff_right wellFormed]
      cases continuous with
      | false => simp [perSample, made]
      | true =>
        obtain ⟨metadataList, ran⟩ :=
          @sampleLoop_results _ _ _ _ box generation (inputs.zip outputs) 0 (by decide)
        rw [← ratio_sound_iff keyedInputs keyedOutputs fits]
        simp only [perSample, made, ran, if_true, Except.ok.injEq, Prod.mk.injEq, true_and]
        constructor
        · rintro ⟨_, _, ⟨rfl, -⟩, sound⟩
          exact sound
        · intro sound
          exact ⟨_, _, ⟨rfl, rfl⟩, sound⟩

/-- When the score can be trusted. Otherwise the function raises at its last line, or it has looked
only at the first ten tests. -/
theorem computeScore_sound_iff {completion : Text} {testCases : RawCases Input Output}
    {continuous : Bool} :
    Sound box completion testCases continuous ↔
      CompleteRun (box 0) (parsed box testCases) (solution completion) ∨
        Malformed (parsed box testCases) ∨
      continuous = true ∧ (AllPass (box 0) (parsed box testCases) (solution completion) ∨
        EarlyFailure box (parsed box testCases) (solution completion)) := by
  have complete := @completeCheck_iff _ _ _ _ (box 0) (parsed box testCases) (solution completion)
  cases checked : completeCheck (box 0) (parsed box testCases) (solution completion) with
  | none =>
    have notComplete : ¬CompleteRun (box 0) (parsed box testCases) (solution completion) := by
      simp [← complete, checked]
    rw [or_iff_right notComplete, Sound, ← @perSample_sound_iff _ _ _ _ box _ _ false]
    simp only [computeScore, checked]
  | some outcome =>
    obtain ⟨success, metadata⟩ := outcome
    cases success with
    | false =>
      have notComplete : ¬CompleteRun (box 0) (parsed box testCases) (solution completion) := by
        simp [← complete, checked]
      rw [or_iff_right notComplete, Sound, ← @perSample_sound_iff _ _ _ _ box _ _ true]
      simp only [computeScore, checked]
    | true =>
      have run := complete.mp ⟨metadata, checked⟩
      refine iff_of_true ⟨.flag true, .metadata metadata, ?_, fun _ => run.allPass⟩ (.inl run)
      simp only [computeScore, checked]

def counting : Sandbox Text Nat Unit Nat where
  loads _ := .error (.value "no JSON")
  load _ _ := .ok 0
  runOne _ calls _ output := (.result (if output = calls then .passed else .wrong) (), calls + 1)
  exit _ _ := .finished
  empty := ()

theorem computeScore_sound_counting :
    Sound (fun _ => counting) "count()".toList
      (.value (.dict ⟨none, some ["".toList, "".toList], some [0, 1]⟩)) false :=
  computeScore_sound_iff.mpr (.inl ⟨_, _, 0, rfl, rfl, rfl, rfl, 0, rfl, 1, ⟨(), rfl⟩, 1, rfl, 2,
    ⟨(), rfl⟩, trivial⟩)

def printZero : Sandbox Text Text Unit Unit where
  loads _ := .error (.value "no JSON")
  load _ _ := .ok ()
  runOne _ _ _ output := (.result (if output = "0".toList then .passed else .wrong) (), ())
  exit _ _ := .finished
  empty := ()

def elevenTests : RawCases Text Text :=
  .value (.dict ⟨none, some (List.replicate 11 "5".toList),
    some (List.replicate 10 "0".toList ++ ["1".toList])⟩)

theorem computeScore_late_failure :
    (computeScore (fun _ => printZero) "print(0)".toList elevenTests true).map Prod.fst =
      .ok (.ratio 1) ∧
    ¬AllPass printZero (parsed (fun _ => printZero) elevenTests) (solution "print(0)".toList) ∧
    ¬Sound (fun _ => printZero) "print(0)".toList elevenTests true ∧
    (computeScore (fun _ => printZero) "print(0)".toList elevenTests false).map Prod.fst =
      .error (.unboundLocal "metadata_list") ∧
    ¬Sound (fun _ => printZero) "print(0)".toList elevenTests false := by
  have full : (computeScore (fun _ => printZero) "print(0)".toList elevenTests true).map Prod.fst =
      .ok (.ratio 1) := by
    decide +kernel
  have raised : (computeScore (fun _ => printZero) "print(0)".toList elevenTests false).map
    Prod.fst =
      .error (.unboundLocal "metadata_list") := by decide +kernel
  have fails : ¬AllPass printZero (parsed (fun _ => printZero) elevenTests)
      (solution "print(0)".toList) := by
    rintro (empty | ⟨state, -, pass⟩)
    · cases empty
    · have last : (List.replicate 11 "5".toList)[10]? = some "5".toList := rfl
      obtain ⟨output, found, _, _, metadata, ran⟩ := pass.passes last
      obtain rfl : "1".toList = output := Option.some.inj found
      cases ran
  refine ⟨full, fails, ?_, raised, ?_⟩
  · rintro ⟨score, returned, ran, sound⟩
    rw [ran] at full
    obtain rfl : score = .ratio 1 := Except.ok.inj full
    exact fails (sound rfl)
  · rintro ⟨score, returned, ran, -⟩
    rw [ran] at raised
    cases raised

end Soundness

end Verl.PrimeCode
