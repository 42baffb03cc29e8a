import Mathlib.Algebra.Field.Rat
import Mathlib.Algebra.Order.Ring.Rat
import Mathlib.Tactic.Linarith
import Verl.Base.Reindex
import Verl.RewardScore.Coder1

/-! `_compute_score` of `verl/utils/reward_score/coder1/__init__.py` and the default executor
`code_exec_firejail`. The sandboxed process is a parameter: what it does with an invocation is not
decided here. -/
namespace Verl.Coder1
open Text

section Executors

/-- A test is run by a thread of its own, so that equal tests may come out differently. -/
inductive Thread where
  | main
  | worker (test : Nat)
  deriving DecidableEq, Repr

/-- A value of the ground truth: a text, or a JSON value of which only the truth value is read. -/
inductive Value where
  | text (t : Text)
  | other (truthy : Bool)
  deriving DecidableEq, Repr

def Value.truthy : Value → Bool
  | .text t => !t.isEmpty
  | .other truthy => truthy

abbrev CodeExec := Thread → Text → Option Text → Option Value → Py (Bool × Text)

def errorMsgPrefix : Text := "Failed to execute program: ".toList

def cliArgSizeLimit : Nat := 1024 * 3

/-- A call of `subprocess.run`, with the files written for it. -/
structure Invocation where
  command : List Text
  files : List (Text × Text)
  input : Option Text

structure Completed where
  returncode : Int
  stdout : Text
  stderr : Text

def firejailCommand : List Text :=
  ["firejail".toList, "--private".toList, "--quiet".toList, "--seccomp=socket".toList,
    "--profile=pip".toList, "--rlimit-nproc=32".toList, "--rlimit-nofile=32".toList,
    "--rlimit-fsize=2m".toList, "--rlimit-as=4096m".toList,
    "--timeout=00:00:20".toList]

def whitelisted (path : Text) : List Text :=
  firejailCommand.take 4 ++ ("--whitelist=".toList ++ path) :: firejailCommand.drop 4

/-- What `code_exec_firejail` starts; `tmp` is the name of its temporary directory or file. -/
def firejailInvocation (tmp code : Text) (stdin : Option Text) (pytest : Option Value) :
    Py Invocation :=
  match pytest.filter Value.truthy with
  | some test => do
    pyAssert stdin.isNone "STDIN is not supported with pytest"
    match test with
    | .text test =>
      return ⟨whitelisted tmp ++ ["python3".toList, "-m".toList, "pytest".toList, tmp],
        [("solution.py".toList, code), ("test_solution.py".toList, test)], none⟩
    | .other _ => .error (.value "write() argument must be str")
  | none =>
    -- an empty `stdin` is no input either
    let input := stdin.filter (fun s => !s.isEmpty)
    if code.length < cliArgSizeLimit then
      .ok ⟨firejailCommand ++ ["python3".toList, "-c".toList, code], [], input⟩
    else .ok ⟨whitelisted tmp ++ ["python3".toList, tmp], [(tmp, code)], input⟩

/-- `code_exec_firejail` under its `timeout` wrapper, which sets a signal handler first. -/
def codeExecFirejail (run : Invocation → Py Completed) (tmp : Text) : CodeExec :=
  fun thread code stdin pytest =>
  match thread with
  | .worker _ => .error (.value "signal only works in main thread of the main interpreter")
  | .main => do
    let invocation ← firejailInvocation tmp code stdin pytest
    let result ← run invocation
    if result.returncode = 0 then return (true, result.stdout)
    else return (false,
      errorMsgPrefix ++ "STDOUT:\n".toList ++ result.stdout ++ "\n\nSTDERR:\n".toList ++
      strip result.stderr)

end Executors

section Score

structure GroundTruth where
  functional : Option Value
  pytest : Option Value
  inputs : Option (List Text)
  outputs : Option (List Text)

structure ScoreEnv where
  codeExec : CodeExec
  wordClass : WordClass
  /-- `repr` of a text. -/
  repr : Text → Text
  /-- The seconds since `t_start`, as the log shows them. -/
  elapsed : Text
  formatReward : ℚ
  answerReward : ℚ
  /-- `extra_info["prompt"]`, if there is one. -/
  prompt : Option Text

structure StdioResult where
  succ : Bool
  output : Text
  stdin : Text
  stdout : Text

def remoteCheckStdio (exec : CodeExec) (test : Nat) (code stdin stdout : Text) :
    Py StdioResult := do
  let (succ, output) ← exec (.worker test) code (some stdin) none
  return ⟨succ, output, stdin, stdout⟩

def StdioResult.passed (r : StdioResult) : Bool := r.succ && strip r.output == strip r.stdout

def rule (c : Char) (n : Nat) : Text := List.replicate n c

def badFormatLog (solutionStr : Text) : List Text :=
  ["\nBad format detected!".toList, "Original Model Output:".toList, rule '-' 32,
    solutionStr, rule '-' 32]

def collapseBlankLines : Text → Text
  | '\n' :: '\n' :: s => '\n' :: collapseBlankLines s
  | c :: s => c :: collapseBlankLines s
  | [] => []

def withFunctional (code : Text) : Value → Py Text
  | .text test => .ok (code ++ '\n' :: test)
  | .other _ => .error (.value "can only concatenate str to str")

def executionFailed (env : ScoreEnv) (log : List Text) (output : Text) : Py (ℚ × List Text) :=
  match env.prompt with
  | none => .error (.key "prompt")
  | some prompt => .ok (env.formatReward, log ++
      [rule '!' 16 ++ "⚠️ Test Execution Failed in ".toList ++ env.elapsed ++ "s".toList ++
        rule '!' 16, output.take 2048, rule '-' 16 ++ "Failed Prompt".toList ++ rule '-' 16,
          collapseBlankLines prompt])

def executionPassed (env : ScoreEnv) (log : List Text) (output : Text) : ℚ × List Text :=
  (env.formatReward + env.answerReward,
    log ++ [rule '+' 16 ++ "Test Execution Passed! (Output)".toList ++ rule '+' 16, output])

def testFailed (env : ScoreEnv) (log : List Text) (r : StdioResult) : ℚ × List Text :=
  let actual := if errorMsgPrefix <+: r.output then r.output else env.repr (strip r.output)
  (env.formatReward,
    log ++ ["---Error---".toList, "Expected: ".toList ++ env.repr (strip r.stdout),
    "Actual: ".toList ++ actual])

/-- The loop over `as_completed(futures)`, with the last `output` for the lines behind it. -/
def collect (env : ScoreEnv) (log : List Text) :
    List (Py StdioResult) → Option Text → Py (ℚ × List Text)
  | [], none => .error (.unboundLocal "output")
  | [], some output => .ok (executionPassed env log output)
  | future :: futures, _ => do
    let r ← future
    if r.passed then collect env log futures (some r.output) else return testFailed env log r

/-- `_compute_score`; the futures complete in the order `asCompleted` of their indices. -/
def computeScore (env : ScoreEnv) (asCompleted : List Nat) (solutionStr : Text)
    (groundTruth : GroundTruth) :
    Py (ℚ × List Text) :=
  match executedCode env.wordClass solutionStr with
  | none => .ok (-env.answerReward - env.formatReward, badFormatLog solutionStr)
  | some code =>
    match groundTruth.functional, groundTruth.pytest with
    | some functional, _ => do
      let program ← withFunctional code functional
      let (succ, output) ← env.codeExec .main program none none
      if succ then
        return executionPassed env [program] output
      else executionFailed env [program] output
    | none, some pytest => do
      let (succ, output) ← env.codeExec .main code none (some pytest)
      if succ then return executionPassed env [code] output else executionFailed env [code] output
    | none, none =>
      match groundTruth.inputs, groundTruth.outputs with
      | some inputs, some outputs =>
        if inputs.length = 0 then .error (.value "max_workers must be greater than 0")
        else
          let futures := (inputs.zip outputs).zipIdx.map
            (fun ((stdin, stdout), test) => remoteCheckStdio env.codeExec test code stdin stdout)
          collect env [code] (pick futures asCompleted) none
      | _, _ =>
        .error (.value "Current supports for ground-truth are ['functional', 'inputs/outputs']")

end Score

section Stdio

variable (env : ScoreEnv)

def stdioTruth (inputs outputs : List Text) : GroundTruth := ⟨none, none, some inputs, some outputs⟩

def Passes (code : Text) (test : (Text × Text) × Nat) : Prop :=
  ∃ output, env.codeExec (.worker test.2) code (some test.1.1) none = .ok (true, output) ∧
    strip output = strip test.1.2

def TestsPassed (solutionStr : Text) (inputs outputs : List Text) : Prop :=
  ∃ code, executedCode env.wordClass solutionStr = some code ∧
    ∀ (i : Nat) (stdin : Text), inputs[i]? = some stdin → ∃ stdout, outputs[i]? = some stdout ∧
      Passes env code ((stdin, stdout), i)

/-- One score for every order of completion, the full one exactly if the tests passed. -/
def StdioSpec (solutionStr : Text) (inputs outputs : List Text) : Prop :=
  ∃ score, (∀ asCompleted : List Nat, asCompleted.Perm (List.range (inputs.zip outputs).length) →
      ∃ log, computeScore env asCompleted solutionStr (stdioTruth inputs outputs) =
        .ok (score, log)) ∧
    (score = env.formatReward + env.answerReward ↔ TestsPassed env solutionStr inputs outputs)

/-- Nothing is executed, or the tests can be run: no list is empty, the executor returns for
every pair, and an input without an output does not go unnoticed. -/
def Runnable (solutionStr : Text) (inputs outputs : List Text) : Prop :=
  ∀ code, executedCode env.wordClass solutionStr = some code →
    inputs ≠ [] ∧ outputs ≠ [] ∧
    (∀ test ∈ (inputs.zip outputs).zipIdx, ∃ r,
      env.codeExec (.worker test.2) code (some test.1.1) none = .ok r) ∧
    (inputs.length ≤ outputs.length ∨ ∃ test ∈ (inputs.zip outputs).zipIdx, ¬Passes env code test)

variable {env}

theorem collect_passed {log : List Text} {rs : List StdioResult} (all : ∀ r ∈ rs, r.passed = true)
    (output : Option Text) (bound : rs ≠ [] ∨ output.isSome) :
    ∃ last, collect env log (rs.map .ok) output = .ok (executionPassed env log last) := by
  induction rs generalizing output with
  | nil =>
    cases output with
    | none => simp at bound
    | some last => exact ⟨last, rfl⟩
  | cons r rs ih =>
    obtain ⟨last, done⟩ :=
      ih (fun r there => all r (List.mem_cons_of_mem _ there)) (some r.output) (.inr rfl)
    exact ⟨last, by simpa [collect, all r List.mem_cons_self] using done⟩

theorem collect_failed {log : List Text} {rs : List StdioResult}
    (failing : ∃ r ∈ rs, r.passed = false) (output : Option Text) :
    ∃ lines, collect env log (rs.map .ok) output = .ok (env.formatReward, lines) := by
  induction rs generalizing output with
  | nil => simp at failing
  | cons r rs ih =>
    cases first : r.passed with
    | false => exact ⟨_, by simp [collect, first]; rfl⟩
    | true =>
      obtain ⟨s, there, failed⟩ := failing
      obtain rfl | later := List.mem_cons.mp there
      · rw [first] at failed
        cases failed
      · obtain ⟨lines, done⟩ := ih ⟨s, later, failed⟩ (some r.output)
        exact ⟨lines, by simpa [collect, first] using done⟩

theorem stdio_results {code : Text} {tests : List ((Text × Text) × Nat)}
    (returns : ∀ test ∈ tests, ∃ r,
      env.codeExec (.worker test.2) code (some test.1.1) none = .ok r) :
    ∃ rs : List StdioResult,
      tests.map (fun ((stdin, stdout), test) => remoteCheckStdio env.codeExec test code stdin
        stdout) = rs.map .ok ∧
      ((∀ r ∈ rs, r.passed = true) ↔ ∀ test ∈ tests, Passes env code test) := by
  induction tests with
  | nil => exact ⟨[], rfl, by simp⟩
  | cons test tests ih =>
    obtain ⟨rs, rest, all⟩ := ih (fun t there => returns t (List.mem_cons_of_mem _ there))
    obtain ⟨⟨succ, output⟩, first⟩ := returns test List.mem_cons_self
    refine ⟨⟨succ, output, test.1.1, test.1.2⟩ :: rs, ?_, ?_⟩
    · rw [List.map_cons, List.map_cons, rest]
      simp [remoteCheckStdio, first]
    · rw [List.forall_mem_cons, List.forall_mem_cons, all]
      simp [Passes, first, StdioResult.passed]

theorem mem_tests_iff {inputs outputs : List Text} {test : (Text × Text) × Nat} :
    test ∈ (inputs.zip outputs).zipIdx ↔
      inputs[test.2]? = some test.1.1 ∧ outputs[test.2]? = some test.1.2 := by
  rw [List.mem_zipIdx_iff_getElem?, List.getElem?_zip_eq_some]

theorem testsPassed_iff {solutionStr code : Text}
    (gate : executedCode env.wordClass solutionStr = some code) (inputs outputs : List Text) :
    TestsPassed env solutionStr inputs outputs ↔
      inputs.length ≤ outputs.length ∧ ∀ test ∈ (inputs.zip outputs).zipIdx,
        Passes env code test := by
  constructor
  · rintro ⟨_, same, passed⟩
    cases Option.some.inj (gate.symm.trans same)
    constructor
    · by_contra short
      obtain ⟨stdout, expected, -⟩ :=
        passed outputs.length inputs[outputs.length] (List.getElem?_eq_getElem (by omega))
      simp at expected
    · intro test there
      obtain ⟨given, expected⟩ := mem_tests_iff.mp there
      obtain ⟨stdout, same, passes⟩ := passed test.2 test.1.1 given
      cases Option.some.inj (expected.symm.trans same)
      exact passes
  · rintro ⟨enough, passed⟩
    refine ⟨code, gate, fun i stdin given => ?_⟩
    have below : i < outputs.length :=
      Nat.lt_of_lt_of_le (List.getElem?_eq_some_iff.mp given).1 enough
    have expected := List.getElem?_eq_getElem below
    exact ⟨outputs[i], expected,
      passed ((stdin, outputs[i]), i) (mem_tests_iff.mpr ⟨given, expected⟩)⟩

theorem computeScore_stdio {solutionStr code : Text}
    (gate : executedCode env.wordClass solutionStr = some code)
    (asCompleted : List Nat) {inputs outputs : List Text} (listed : inputs ≠ []) :
    computeScore env asCompleted solutionStr (stdioTruth inputs outputs) =
      collect env [code] (pick ((inputs.zip outputs).zipIdx.map (fun ((stdin, stdout), test) =>
        remoteCheckStdio env.codeExec test code stdin stdout)) asCompleted) none := by
  have some : inputs.length ≠ 0 := by simpa using listed
  simp [computeScore, gate, stdioTruth, some]

theorem computeScore_raises {solutionStr code : Text}
    (gate : executedCode env.wordClass solutionStr = some code) {inputs outputs : List Text}
    {test : (Text × Text) × Nat} (there : test ∈ (inputs.zip outputs).zipIdx) {e : PyError}
    (raised : env.codeExec (.worker test.2) code (some test.1.1) none = .error e) :
    ∃ asCompleted : List Nat, asCompleted.Perm (List.range (inputs.zip outputs).length) ∧
      computeScore env asCompleted solutionStr (stdioTruth inputs outputs) = .error e := by
  obtain ⟨i, inside, here⟩ := List.mem_iff_getElem.mp there
  have listed : inputs ≠ [] := by
    rintro rfl
    simp at inside
  have place : i < (inputs.zip outputs).length := by rwa [List.length_zipIdx] at inside
  refine ⟨i :: (List.range (inputs.zip outputs).length).erase i,
    (List.perm_cons_erase (List.mem_range.mpr place)).symm, ?_⟩
  rw [computeScore_stdio gate _ listed, pick, List.filterMap_cons, List.getElem?_map,
    List.getElem?_eq_getElem inside, here]
  simp only [Option.map_some, collect, remoteCheckStdio, raised, error_bind]

/-- Where every call returns, the order of completion does not reach the score. -/
theorem computeScore_returns {solutionStr code : Text}
    (gate : executedCode env.wordClass solutionStr = some code)
    {inputs outputs : List Text} (listed : inputs ≠ []) (expected : outputs ≠ [])
    (returns : ∀ test ∈ (inputs.zip outputs).zipIdx, ∃ r,
      env.codeExec (.worker test.2) code (some test.1.1) none = .ok r)
    {asCompleted : List Nat} (perm : asCompleted.Perm (List.range (inputs.zip outputs).length)) :
    ((∀ test ∈ (inputs.zip outputs).zipIdx, Passes env code test) → ∃ log,
      computeScore env asCompleted solutionStr (stdioTruth inputs outputs) =
        .ok (env.formatReward + env.answerReward, log)) ∧
    ((∃ test ∈ (inputs.zip outputs).zipIdx, ¬Passes env code test) → ∃ log,
      computeScore env asCompleted solutionStr (stdioTruth inputs outputs) =
        .ok (env.formatReward, log)) := by
  obtain ⟨rs, futures, all⟩ := stdio_results returns
  have count : rs.length = (inputs.zip outputs).length := by
    have lengths := congrArg List.length futures
    rw [List.length_map, List.length_map, List.length_zipIdx] at lengths
    exact lengths.symm
  have picked : (pick rs asCompleted).Perm rs := pick_perm perm count
  have nonempty : pick rs asCompleted ≠ [] := by
    intro none
    rw [none] at picked
    have length := picked.length_eq
    have := List.length_pos_of_ne_nil listed
    have := List.length_pos_of_ne_nil expected
    rw [count, List.length_nil, List.length_zip] at length
    omega
  rw [computeScore_stdio gate _ listed, futures, pick_map]
  constructor
  · intro passed
    obtain ⟨last, done⟩ :=
      collect_passed (fun r there => all.mpr passed r (picked.mem_iff.mp there)) none
        (.inl nonempty)
    exact ⟨_, done⟩
  · intro failing
    apply collect_failed
    have notAll : ¬∀ r ∈ rs, r.passed = true := by
      rw [all]
      rintro passed
      obtain ⟨test, there, failed⟩ := failing
      exact failed (passed test there)
    push Not at notAll
    obtain ⟨r, there, failed⟩ := notAll
    exact ⟨r, picked.mem_iff.mpr there, by simpa using failed⟩

theorem stdioSpec_of_none (answer : 0 < env.answerReward) (format : 0 < env.formatReward)
    {solutionStr : Text}
    (gate : executedCode env.wordClass solutionStr = none) (inputs outputs : List Text) :
    StdioSpec env solutionStr inputs outputs := by
  refine ⟨-env.answerReward - env.formatReward, fun _ _ =>
    ⟨badFormatLog solutionStr, by rw [computeScore, gate]⟩, ?_⟩
  apply iff_of_false
  · intro same
    linarith
  · rintro ⟨code, run, -⟩
    rw [gate] at run
    cases run

theorem runnable_of_stdioSpec {solutionStr code : Text}
    (gate : executedCode env.wordClass solutionStr = some code)
    {inputs outputs : List Text} (spec : StdioSpec env solutionStr inputs outputs) :
    Runnable env solutionStr inputs outputs := by
  intro _ run
  cases Option.some.inj (gate.symm.trans run)
  obtain ⟨score, returned, full⟩ := spec
  have listed : inputs ≠ [] := by
    rintro rfl
    obtain ⟨log, impossible⟩ := returned [] (by simp)
    simp [computeScore, gate, stdioTruth] at impossible
  have expected : outputs ≠ [] := by
    rintro rfl
    obtain ⟨log, impossible⟩ := returned [] (by simp)
    rw [computeScore_stdio gate _ listed, List.zip_nil_right] at impossible
    cases impossible
  have returns : ∀ test ∈ (inputs.zip outputs).zipIdx, ∃ r,
      env.codeExec (.worker test.2) code (some test.1.1) none = .ok r := by
    intro test there
    cases result : env.codeExec (.worker test.2) code (some test.1.1) none with
    | ok r => exact ⟨r, rfl⟩
    | error e =>
      obtain ⟨order, perm, raised⟩ := computeScore_raises gate there result
      obtain ⟨log, value⟩ := returned order perm
      rw [raised] at value
      cases value
  refine ⟨listed, expected, returns, ?_⟩
  by_contra unnoticed
  push Not at unnoticed
  obtain ⟨log, value⟩ := returned _ (List.Perm.refl _)
  obtain ⟨log', scored⟩ :=
    (computeScore_returns gate listed expected returns (List.Perm.refl _)).1 unnoticed.2
  have same : score = env.formatReward + env.answerReward :=
    (Prod.mk.inj (Except.ok.inj (value.symm.trans scored))).1
  have tested := (testsPassed_iff gate inputs outputs).mp (full.mp same)
  exact absurd tested.1 (Nat.not_le_of_lt unnoticed.1)

theorem stdioSpec_of_runnable (answer : 0 < env.answerReward) {solutionStr code : Text}
    (gate : executedCode env.wordClass solutionStr = some code) {inputs outputs : List Text}
    (runnable : Runnable env solutionStr inputs outputs) :
    StdioSpec env solutionStr inputs outputs := by
  obtain ⟨listed, expected, returns, noticed⟩ := runnable code gate
  have scores := fun order perm =>
    @computeScore_returns env solutionStr code gate inputs outputs listed expected
    returns order perm
  have passed := testsPassed_iff gate inputs outputs
  by_cases all : ∀ test ∈ (inputs.zip outputs).zipIdx, Passes env code test
  · have enough : inputs.length ≤ outputs.length := by
      rcases noticed with enough | ⟨test, there, failed⟩
      · exact enough
      · exact absurd (all test there) failed
    exact ⟨_, fun order perm => (scores order perm).1 all,
      iff_of_true rfl (passed.mpr ⟨enough, all⟩)⟩
  · have failing : ∃ test ∈ (inputs.zip outputs).zipIdx, ¬Passes env code test := by
      push Not at all
      exact all
    refine ⟨env.formatReward, fun order perm => (scores order perm).2 failing,
      iff_of_false (fun same => by linarith) ?_⟩
    exact fun tested => all (passed.mp tested).2

/-- Whatever the executor is, the score is as it should be exactly if the tests are runnable. -/
theorem stdioSpec_iff (answer : 0 < env.answerReward) (format : 0 < env.formatReward)
    (solutionStr : Text) (inputs outputs : List Text) : StdioSpec env solutionStr inputs outputs ↔
      Runnable env solutionStr inputs outputs := by
  cases gate : executedCode env.wordClass solutionStr with
  | none =>
    apply iff_of_true
    · exact stdioSpec_of_none answer format gate inputs outputs
    · intro code run
      rw [gate] at run
      cases run
  | some code => exact ⟨runnable_of_stdioSpec gate, stdioSpec_of_runnable answer gate⟩

/-- With the default executor every test raises, so nothing is ever scored. -/
theorem runnable_firejail_iff (run : Invocation → Py Completed) (tmp : Text)
    (firejail : env.codeExec = codeExecFirejail run tmp)
    (solutionStr : Text) (inputs outputs : List Text) :
    Runnable env solutionStr inputs outputs ↔ executedCode env.wordClass solutionStr = none := by
  constructor
  · intro runnable
    cases gate : executedCode env.wordClass solutionStr with
    | none => rfl
    | some code =>
      obtain ⟨listed, expected, returns, -⟩ := runnable code gate
      obtain ⟨stdin, inputs, rfl⟩ := List.exists_cons_of_ne_nil listed
      obtain ⟨stdout, outputs, rfl⟩ := List.exists_cons_of_ne_nil expected
      obtain ⟨r, impossible⟩ := returns ((stdin, stdout), 0) (by simp)
      rw [firejail] at impossible
      cases impossible
  · intro gate code run
    rw [gate] at run
    cases run

/-- For every executor, the score of a ground truth in inputs/outputs form is as it should be
exactly if the tests are runnable; with firejail they are not, once there is code to execute. -/
theorem computeScore_stdio_iff (env : ScoreEnv) (answer : 0 < env.answerReward)
    (format : 0 < env.formatReward) (solutionStr : Text) (inputs outputs : List Text) :
    (StdioSpec env solutionStr inputs outputs ↔ Runnable env solutionStr inputs outputs) ∧
      ∀ run tmp, StdioSpec { env with codeExec := codeExecFirejail run tmp } solutionStr
        inputs outputs ↔ executedCode env.wordClass solutionStr = none := by
  refine ⟨stdioSpec_iff answer format solutionStr inputs outputs, fun run tmp => ?_⟩
  have firejail := @stdioSpec_iff { env with codeExec := codeExecFirejail run tmp } answer format
    solutionStr inputs outputs
  rw [firejail, runnable_firejail_iff run tmp rfl]

def echoEnv : ScoreEnv where
  codeExec := fun _ _ stdin _ => .ok (true, stdin.getD [])
  wordClass := asciiWord
  repr := id
  elapsed := "0.0".toList
  formatReward := 1 / 10
  answerReward := 1
  prompt := none

theorem echoEnv_gate :
    executedCode echoEnv.wordClass (sampleResponse []).text = some "y".toList := by decide +kernel

theorem computeScore_stdio_echo :
    StdioSpec echoEnv (sampleResponse []).text ["1".toList, "2".toList] ["1\n".toList,
    "2\n".toList] := by
  apply (computeScore_stdio_iff echoEnv (by decide +kernel) (by decide +kernel) _ _ _).1.mpr
  intro code run
  exact ⟨by simp, by simp, fun test _ => ⟨_, rfl⟩, .inl (by simp)⟩

/-- Under firejail one test raises; with an executor that returns, no tests and missing outputs
raise, and an input without an output is passed over. -/
theorem computeScore_stdio_fails :
    ¬StdioSpec { echoEnv with
      codeExec := codeExecFirejail (fun _ => .ok ⟨0, "1".toList, []⟩) "/tmp/t".toList }
        (sampleResponse []).text ["1".toList] ["1".toList] ∧
      ¬StdioSpec echoEnv (sampleResponse []).text [] [] ∧
      ¬StdioSpec echoEnv (sampleResponse []).text ["1".toList] [] ∧
      ¬StdioSpec echoEnv (sampleResponse []).text ["1".toList, "2".toList] ["1".toList] := by
  have positive : (0 : ℚ) < echoEnv.answerReward ∧ (0 : ℚ) < echoEnv.formatReward := by
    decide +kernel
  refine ⟨?_, ?_, ?_, ?_⟩
  · rw [@stdioSpec_iff { echoEnv with codeExec := codeExecFirejail _ _ } positive.1 positive.2]
    intro runnable
    obtain ⟨-, -, returns, -⟩ := runnable _ echoEnv_gate
    obtain ⟨r, impossible⟩ := returns _ List.mem_cons_self
    cases impossible
  · rw [stdioSpec_iff positive.1 positive.2]
    exact fun runnable => (runnable _ echoEnv_gate).1 rfl
  · rw [stdioSpec_iff positive.1 positive.2]
    exact fun runnable => (runnable _ echoEnv_gate).2.1 rfl
  · rw [stdioSpec_iff positive.1 positive.2]
    intro runnable
    rcases (runnable _ echoEnv_gate).2.2.2 with short | ⟨test, there, failed⟩
    · simp at short
    · obtain rfl : test = (("1".toList, "1".toList), 0) := by simpa using there
      exact failed ⟨_, rfl, rfl⟩

end Stdio

section Tests

def Invocation.runsProgram (inv : Invocation) (program : Text) : Prop :=
  (∃ start, inv.command = start ++ ["python3".toList, "-c".toList, program]) ∨
    ∃ start file, inv.command = start ++ ["python3".toList, file] ∧ (file, program) ∈ inv.files

def Invocation.runsPytest (inv : Invocation) (solution test : Text) : Prop :=
  (∃ start dir, inv.command = start ++ ["python3".toList, "-m".toList, "pytest".toList, dir]) ∧
    ("solution.py".toList, solution) ∈ inv.files ∧ ("test_solution.py".toList, test) ∈ inv.files

def Succeeded (run : Invocation → Py Completed) (kind : Invocation → Prop) : Prop :=
  ∃ inv result, kind inv ∧ run inv = .ok result ∧ result.returncode = 0

/-- Whatever the sandboxed processes do: a full reward means that the solution was run with the test
text of every field that is there, and that the run succeeded. -/
def TestedSpec (env : ScoreEnv) (solutionStr : Text) (groundTruth : GroundTruth) : Prop :=
  ∀ run tmp asCompleted log,
    computeScore { env with codeExec := codeExecFirejail run tmp } asCompleted
    solutionStr groundTruth =
      .ok (env.formatReward + env.answerReward, log) →
    ∃ code, executedCode env.wordClass solutionStr = some code ∧
      (∀ value, groundTruth.functional = some value → ∃ test, value = .text test ∧
        Succeeded run (·.runsProgram (code ++ '\n' :: test))) ∧
      (∀ value, groundTruth.pytest = some value → ∃ test, value = .text test ∧
        Succeeded run (·.runsPytest code test))

/-- One test field alone, which is not an empty or false `pytest`. -/
def GroundTruth.tested (groundTruth : GroundTruth) : Bool :=
  match groundTruth.functional, groundTruth.pytest with
  | some (.text _), some _ => false
  | some _, _ => true
  | none, some value => value.truthy
  | none, none => true

theorem firejailInvocation_plain (tmp code : Text) {pytest : Option Value}
    (falsy : pytest.filter Value.truthy = none) :
    ∃ inv, firejailInvocation tmp code none pytest = .ok inv ∧ inv.runsProgram code ∧
      inv.files.length ≤ 1 := by
  rw [firejailInvocation, falsy]
  by_cases short : code.length < cliArgSizeLimit
  · exact ⟨_, if_pos short, .inl ⟨firejailCommand, rfl⟩, Nat.zero_le 1⟩
  · exact ⟨_, if_neg short, .inr ⟨whitelisted tmp, tmp, rfl, List.mem_cons_self⟩, Nat.le_refl 1⟩

theorem firejailInvocation_pytest (tmp code : Text) {value : Value} (truthy : value.truthy = true) :
    (∃ test inv, value = .text test ∧ firejailInvocation tmp code none (some value) = .ok inv ∧
      inv.runsPytest code test) ∨
      ∃ e, firejailInvocation tmp code none (some value) = .error e := by
  have kept : (some value).filter Value.truthy = some value := by
    rw [Option.filter_some, if_pos truthy]
  rw [firejailInvocation, kept]
  cases value with
  | text test =>
    left
    exact ⟨test, _, rfl, rfl, ⟨whitelisted tmp, tmp, rfl⟩, List.mem_cons_self,
      List.mem_cons_of_mem _ List.mem_cons_self⟩
  | other b => exact .inr ⟨_, rfl⟩

/-- The executor reports success for the process it started, and for no other reason. -/
theorem codeExecFirejail_main {run : Invocation → Py Completed} {tmp code : Text}
    {stdin : Option Text} {pytest : Option Value} {inv : Invocation}
    (started : firejailInvocation tmp code stdin pytest = .ok inv) {output : Text}
    (done : codeExecFirejail run tmp .main code stdin pytest = .ok (true, output)) :
    ∃ result, run inv = .ok result ∧ result.returncode = 0 := by
  simp only [codeExecFirejail, started, ok_bind, bind_ok_iff] at done
  obtain ⟨result, finished, reported⟩ := done
  by_cases zero : result.returncode = 0
  · exact ⟨result, finished, zero⟩
  · simp [zero] at reported

/-- The reward is full only through a successful call of the executor. -/
theorem computeScore_full {env : ScoreEnv} (answer : 0 < env.answerReward)
    (format : 0 < env.formatReward)
    {asCompleted : List Nat} {solutionStr : Text} {groundTruth : GroundTruth} {log : List Text}
    (field : groundTruth.functional.isSome ∨ groundTruth.pytest.isSome)
    (full : computeScore env asCompleted solutionStr groundTruth =
      .ok (env.formatReward + env.answerReward, log)) :
    ∃ code, executedCode env.wordClass solutionStr = some code ∧
      ((∃ test output, groundTruth.functional = some (.text test) ∧
          env.codeExec .main (code ++ '\n' :: test) none none = .ok (true, output)) ∨
        ∃ value output, groundTruth.functional = none ∧ groundTruth.pytest = some value ∧
          env.codeExec .main code none (some value) = .ok (true, output)) := by
  cases gate : executedCode env.wordClass solutionStr with
  | none =>
    simp only [computeScore, gate, Except.ok.injEq, Prod.mk.injEq] at full
    linarith [full.1]
  | some code =>
    refine ⟨code, rfl, ?_⟩
    have failed : ∀ program output log', executionFailed env [program] output ≠
        .ok (env.formatReward + env.answerReward, log') := by
      intro program output log' same
      unfold executionFailed at same
      split at same
      · cases same
      · simp only [Except.ok.injEq, Prod.mk.injEq] at same
        linarith [same.1]
    simp only [computeScore, gate] at full
    cases functional : groundTruth.functional with
    | some value =>
      left
      cases value with
      | other b => simp [functional, withFunctional] at full
      | text test =>
        simp only [functional, withFunctional, ok_bind, bind_ok_iff] at full
        obtain ⟨⟨succ, output⟩, call, reward⟩ := full
        cases succ with
        | true => exact ⟨test, output, rfl, call⟩
        | false => exact absurd reward (failed _ _ _)
    | none =>
      cases pytest : groundTruth.pytest with
      | none => simp [functional, pytest] at field
      | some value =>
        simp only [functional, pytest, bind_ok_iff] at full
        obtain ⟨⟨succ, output⟩, call, reward⟩ := full
        cases succ with
        | true => exact .inr ⟨value, output, rfl, rfl, call⟩
        | false => exact absurd reward (failed _ _ _)

theorem runsPytest_files {inv : Invocation} {solution test : Text}
    (runs : inv.runsPytest solution test) :
    ¬inv.files.length ≤ 1 := by
  obtain ⟨-, first, second⟩ := runs
  intro few
  match files : inv.files with
  | [] => simp [files] at first
  | [file] =>
    rw [files, List.mem_singleton] at first second
    have names : "solution.py".toList = "test_solution.py".toList :=
      congrArg Prod.fst (first.trans second.symm)
    exact absurd names (by decide)
  | _ :: _ :: _ => simp [files] at few

/-- A sandbox where programs succeed and pytest does not. -/
def plainOnly (inv : Invocation) : Py Completed :=
  .ok ⟨if inv.files.length ≤ 1 then 0 else 1, [], []⟩

theorem not_succeeded_plainOnly (code test : Text) :
    ¬Succeeded plainOnly (·.runsPytest code test) := by
  rintro ⟨inv, result, runs, finished, zero⟩
  cases Except.ok.inj finished
  simp [runsPytest_files runs] at zero

theorem codeExecFirejail_plainOnly (tmp code : Text) {pytest : Option Value}
    (falsy : pytest.filter Value.truthy = none) :
    codeExecFirejail plainOnly tmp .main code none pytest = .ok (true, []) := by
  obtain ⟨inv, started, -, few⟩ := firejailInvocation_plain tmp code falsy
  simp [codeExecFirejail, started, plainOnly, few]

/-- In a sandbox where pytest fails, the reward is full nevertheless. -/
theorem not_testedSpec_of_plainOnly {env : ScoreEnv} {solutionStr : Text}
    {groundTruth : GroundTruth} {value : Value}
    {log : List Text} (given : groundTruth.pytest = some value)
    (full : computeScore { env with codeExec := codeExecFirejail plainOnly "/tmp/t".toList } []
      solutionStr groundTruth =
      .ok (env.formatReward + env.answerReward, log)) :
        ¬TestedSpec env solutionStr groundTruth := by
  intro spec
  obtain ⟨code, -, -, pytest⟩ := spec plainOnly _ [] log full
  obtain ⟨test, -, succeeded⟩ := pytest value given
  exact not_succeeded_plainOnly code test succeeded

theorem not_testedSpec_of_untested {env : ScoreEnv} {solutionStr code : Text}
    {groundTruth : GroundTruth} (gate : executedCode env.wordClass solutionStr = some code)
    (field : groundTruth.functional.isSome ∨ groundTruth.pytest.isSome)
    (untested : ¬groundTruth.tested = true) :
    ¬TestedSpec env solutionStr groundTruth := by
  cases functional : groundTruth.functional with
  | some value =>
    cases value with
    | other b => simp [GroundTruth.tested, functional] at untested
    | text test =>
      cases pytest : groundTruth.pytest with
      | none => simp [GroundTruth.tested, functional, pytest] at untested
      | some value =>
        apply not_testedSpec_of_plainOnly pytest
        simp only [computeScore, gate, functional, withFunctional, ok_bind]
        rw [codeExecFirejail_plainOnly _ _ rfl, ok_bind]
        rfl
  | none =>
    cases pytest : groundTruth.pytest with
    | none => simp [functional, pytest] at field
    | some value =>
      have falsy : value.truthy = false := by
        simpa [GroundTruth.tested, functional, pytest] using untested
      apply not_testedSpec_of_plainOnly pytest
      simp only [computeScore, gate, functional, pytest]
      rw [codeExecFirejail_plainOnly _ _ (by simp [Option.filter_some, falsy]), ok_bind]
      rfl

theorem succeeded_of_functional {run : Invocation → Py Completed} {tmp program output : Text}
    (call : codeExecFirejail run tmp .main program none none = .ok (true, output)) :
    Succeeded run (·.runsProgram program) := by
  obtain ⟨inv, started, runs, -⟩ := @firejailInvocation_plain tmp program none rfl
  obtain ⟨result, finished, zero⟩ := codeExecFirejail_main started call
  exact ⟨inv, result, runs, finished, zero⟩

theorem succeeded_of_pytest {run : Invocation → Py Completed} {tmp code output : Text}
    {value : Value} (truthy : value.truthy = true)
    (call : codeExecFirejail run tmp .main code none (some value) = .ok (true, output)) :
    ∃ test, value = .text test ∧ Succeeded run (·.runsPytest code test) := by
  rcases firejailInvocation_pytest tmp code truthy with ⟨test, inv, rfl, started,
    runs⟩ | ⟨e, raised⟩
  · obtain ⟨result, finished, zero⟩ := codeExecFirejail_main started call
    exact ⟨test, rfl, inv, result, runs, finished, zero⟩
  · simp [codeExecFirejail, raised] at call

/-- A full reward means that the test was run, exactly if nothing is executed or the ground truth
has one test field, which is not an empty or false `pytest`. -/
theorem computeScore_tested_iff (env : ScoreEnv) (answer : 0 < env.answerReward)
    (format : 0 < env.formatReward) (solutionStr : Text) (groundTruth : GroundTruth)
    (field : groundTruth.functional.isSome ∨ groundTruth.pytest.isSome) :
    TestedSpec env solutionStr groundTruth ↔
      executedCode env.wordClass solutionStr = none ∨ groundTruth.tested = true := by
  constructor
  · intro spec
    cases gate : executedCode env.wordClass solutionStr with
    | none => exact .inl rfl
    | some code =>
      right
      by_contra untested
      exact not_testedSpec_of_untested gate field untested spec
  · intro tested run tmp asCompleted log full
    obtain ⟨code, gate, calls⟩ :=
      @computeScore_full { env with codeExec := codeExecFirejail run tmp }
      answer format asCompleted solutionStr groundTruth log field full
    have tested : groundTruth.tested = true :=
      tested.resolve_left (fun none => by rw [gate] at none; cases none)
    refine ⟨code, gate, ?_⟩
    rcases calls with ⟨test, output, functional, call⟩ | ⟨value, output, functional, pytest, call⟩
    · have alone : groundTruth.pytest = none := by
        cases pytest : groundTruth.pytest with
        | none => rfl
        | some value => simp [GroundTruth.tested, functional, pytest] at tested
      constructor
      · intro value given
        cases Option.some.inj (functional.symm.trans given)
        exact ⟨test, rfl, succeeded_of_functional call⟩
      · intro value given
        rw [alone] at given
        cases given
    · have truthy : value.truthy = true := by
        simpa [GroundTruth.tested, functional, pytest] using tested
      constructor
      · intro other given
        rw [functional] at given
        cases given
      · intro other given
        cases Option.some.inj (pytest.symm.trans given)
        exact succeeded_of_pytest truthy call

theorem computeScore_tested_functional :
    TestedSpec echoEnv (sampleResponse []).text ⟨some (.text "assert y".toList), none,
    none, none⟩ :=
  (computeScore_tested_iff echoEnv (by decide +kernel) (by decide +kernel) _ _ (.inl rfl)).mpr
    (.inr rfl)

/-- With an empty `pytest` the solution runs alone, and running without an error is a pass. -/
theorem computeScore_untested :
    (computeScore { echoEnv with codeExec := codeExecFirejail plainOnly "/tmp/t".toList } []
      (sampleResponse []).text
        ⟨none, some (.text []), none, none⟩).map Prod.fst =
          .ok (echoEnv.formatReward + echoEnv.answerReward) ∧
      ¬TestedSpec echoEnv (sampleResponse []).text ⟨none, some (.text []), none, none⟩ := by
  have full : (computeScore { echoEnv with codeExec := codeExecFirejail plainOnly "/tmp/t".toList }
    [] (sampleResponse []).text
      ⟨none, some (.text []), none, none⟩).map Prod.fst =
        .ok (echoEnv.formatReward + echoEnv.answerReward) := by decide +kernel
  refine ⟨full, fun spec => ?_⟩
  cases returned : computeScore
    { echoEnv with codeExec := codeExecFirejail plainOnly "/tmp/t".toList } []
    (sampleResponse []).text
      ⟨none, some (.text []), none, none⟩ with
  | error e =>
    rw [returned] at full
    cases full
  | ok result =>
    rw [returned] at full
    obtain ⟨code, -, -, pytest⟩ :=
      spec plainOnly _ [] result.2 (returned.trans (by rw [← Except.ok.inj full]))
    obtain ⟨test, -, succeeded⟩ := pytest _ rfl
    exact not_succeeded_plainOnly code test succeeded

end Tests

end Verl.Coder1
