import Mathlib.Algebra.Field.Rat
import Verl.Base.Dict

/-! `update_sampling_params` of `vLLMRollout` and `SGLangRollout`, over any sequence of
`generate_sequences` calls. The parameters are the attributes of the vLLM object, or the keys of the
SGLang dict, and outlive every call. Preparing the inputs, the engine and the assembling of the
responses are parameters that may raise. -/
namespace Verl.Rollout

inductive ParamValue where
  | num (q : ℚ)
  | flag (b : Bool)
  | text (s : String)
  | null
  deriving DecidableEq

abbrev Params := Dict ParamValue

/-- The loop before `yield`: the overridden parameters, and `old_sampling_params_args`. -/
def overrideParam (s : Params × Params) (entry : String × ParamValue) : Params × Params :=
  match s.1.get? entry.1 with
  | some oldValue => (s.1.set entry.1 entry.2, s.2.set entry.1 oldValue)
  | none => s

def overrideParams (kwargs params : Params) : Params × Params :=
  kwargs.entries.foldl overrideParam (params, .empty)

def rollBack (old params : Params) : Params :=
  old.entries.foldl (fun params entry => params.set entry.1 entry.2) params

/-- `with self.update_sampling_params(**kwargs)`, and the parameters it leaves. An exception of the
body is thrown into the generator at `yield`, which has no `finally`. -/
def updateSamplingParams {R : Type} (kwargs : Params) (body : Params → Py R) (params : Params) :
    Py R × Params :=
  let (overridden, old) := overrideParams kwargs params
  match body overridden with
  | .error e => (.error e, overridden)
  | .ok result => (.ok result, rollBack old overridden)

structure ValKwargs where
  topK : ParamValue
  topP : ParamValue
  temperature : ParamValue

structure Call where
  doSample : Bool
  isValidate : Bool
  kwargs : Params
  prepare : Py Unit
  /-- The engine's outputs, under the sampling parameters it is given. -/
  engine : Params → Py (List (List Int))
  /-- Padding, repeating and concatenating the responses. -/
  assemble : Params → List (List Int) → Py (List (List Int))

inductive Backend where
  | vllm (valKwargs : ValKwargs)
  | sglang

/-- The `kwargs` that the call hands to `update_sampling_params`. -/
def Backend.kwargs (backend : Backend) (call : Call) : Params :=
  match backend with
  | .vllm valKwargs =>
    if !call.doSample then
      ⟨[("best_of", .num 1), ("top_p", .num 1), ("top_k", .num (-1)), ("min_p", .num 0),
        ("temperature", .num 0), ("n", .num 1)], by simp⟩
    else if call.isValidate then
      ⟨[("top_k", valKwargs.topK), ("top_p", valKwargs.topP),
        ("temperature", valKwargs.temperature), ("n", .num 1)], by simp⟩
    else call.kwargs
  | .sglang =>
    if !call.doSample then
      ⟨[("n", .num 1), ("presence_penalty", .num 0), ("frequency_penalty", .num 0),
        ("repetition_penalty", .num 1), ("temperature", .num 0), ("top_p", .num 1),
        ("top_k", .num (-1)), ("ignore_eos", .flag false), ("min_new_tokens", .num 0),
        ("max_new_tokens", .num 4096), ("skip_special_tokens", .flag true),
        ("spaces_between_special_tokens", .flag true)], by simp⟩
    else call.kwargs

/-- The body of the `with` statement. vLLM assembles the responses inside it, SGLang after it. -/
def Backend.body (backend : Backend) (call : Call) (params : Params) : Py (List (List Int)) := do
  let outputs ← call.engine params
  match backend with
  | .vllm _ => call.assemble params outputs
  | .sglang => return outputs

def Backend.generateSequences (backend : Backend) (call : Call) (params : Params) :
    Py (List (List Int)) × Params :=
  match call.prepare with
  | .error e => (.error e, params)
  | .ok _ =>
    let (outputs, params) := updateSamplingParams (backend.kwargs call) (backend.body call) params
    match backend with
    | .vllm _ => (outputs, params)
    | .sglang => (outputs >>= call.assemble params, params)

/-- A call of a run, with the parameters before and after it. -/
structure Step where
  before : Params
  call : Call
  after : Params

/-- The run of a sequence of calls; a call that raises does not end it. -/
def Backend.steps (backend : Backend) (params : Params) : List Call → List Step
  | [] => []
  | call :: calls =>
    let after := (backend.generateSequences call params).2
    ⟨params, call, after⟩ :: backend.steps after calls

/-- The call does not raise in the body of the `with` statement while a parameter has another value
than before. -/
def Backend.Safe (backend : Backend) (before : Params) (call : Call) : Prop :=
  call.prepare = .ok () →
    (∃ e, backend.body call (overrideParams (backend.kwargs call) before).1 = .error e) →
    ∀ entry ∈ (backend.kwargs call).entries, ∀ old, before.get? entry.1 = some old → old = entry.2

section Override

variable {params old : Params}

/-- After the loop a key has its new value and its old one is kept, or the key was not concerned. -/
theorem foldl_overrideParam {entries : List (String × ParamValue)}
    (distinct : (entries.map Prod.fst).Nodup) (key : String)
    {s r : Params × Params} (run : entries.foldl overrideParam s = r) : r.1.keys = s.1.keys ∧
    ((∃ v oldValue, (key, v) ∈ entries ∧ s.1.get? key = some oldValue ∧ r.1.get? key = some v ∧
      r.2.get? key = some oldValue) ∨
      ((s.1.get? key = none ∨ key ∉ entries.map Prod.fst) ∧ r.1.get? key = s.1.get? key ∧
        r.2.get? key = s.2.get? key)) := by
  induction entries generalizing s with
  | nil =>
    subst run
    exact ⟨rfl, .inr ⟨.inr (by simp), rfl, rfl⟩⟩
  | cons entry entries ih =>
    simp only [List.map_cons, List.nodup_cons] at distinct
    rw [List.foldl_cons] at run
    obtain ⟨keys, values⟩ := ih distinct.2 run
    unfold overrideParam at keys values
    cases found : s.1.get? entry.1 with
    | none =>
      simp only [found] at keys values
      refine ⟨keys, ?_⟩
      rcases values with ⟨v, oldValue, member, had, new, kept⟩ | ⟨missing, same, kept⟩
      · exact .inl ⟨v, oldValue, List.mem_cons_of_mem _ member, had, new, kept⟩
      · refine .inr ⟨?_, same, kept⟩
        by_cases here : key = entry.1
        · exact .inl (here ▸ found)
        · simpa [here] using missing
    | some oldValue =>
      simp only [found] at keys values
      have present : entry.1 ∈ s.1.keys := Dict.contains_iff.mp (by simp [Dict.contains, found])
      refine ⟨keys.trans (Dict.keys_set_of_mem present _), ?_⟩
      by_cases here : key = entry.1
      · left
        subst here
        rcases values with ⟨v, _, member, -⟩ | ⟨-, new, kept⟩
        · exact absurd (List.mem_map.mpr ⟨_, member, rfl⟩) distinct.1
        · rw [Dict.get?_set, if_pos rfl] at new kept
          exact ⟨entry.2, oldValue, List.mem_cons_self, found, new, kept⟩
      · simp only [Dict.get?_set, if_neg here] at values
        rcases values with ⟨v, oldValue, member, had, new, kept⟩ | ⟨missing, same, kept⟩
        · exact .inl ⟨v, oldValue, List.mem_cons_of_mem _ member, had, new, kept⟩
        · exact .inr ⟨missing.imp_right (by simp [here]), same, kept⟩

theorem overrideParams_spec (kwargs params : Params) (key : String) :
    (overrideParams kwargs params).1.keys = params.keys ∧
    ((∃ v oldValue, (key, v) ∈ kwargs.entries ∧ params.get? key = some oldValue ∧
        (overrideParams kwargs params).1.get? key = some v ∧
          (overrideParams kwargs params).2.get? key = some oldValue) ∨
      ((params.get? key = none ∨ key ∉ kwargs.keys) ∧
        (overrideParams kwargs params).1.get? key = params.get? key ∧
        (overrideParams kwargs params).2.get? key = none)) :=
  foldl_overrideParam kwargs.distinct key rfl

theorem foldl_set_keys {entries : List (String × ParamValue)} {d : Params}
    (known : ∀ entry ∈ entries, entry.1 ∈ d.keys) :
    (entries.foldl (fun params entry => params.set entry.1 entry.2) d).keys = d.keys := by
  induction entries generalizing d with
  | nil => rfl
  | cons entry entries ih =>
    have same := Dict.keys_set_of_mem (known entry List.mem_cons_self) entry.2
    rw [List.foldl_cons, ih]
    · exact same
    · intro later member
      rw [same]
      exact known later (List.mem_cons_of_mem entry member)

theorem rollBack_overrideParams (kwargs params : Params) :
    rollBack (overrideParams kwargs params).2 (overrideParams kwargs params).1 = params := by
  have spec := overrideParams_spec kwargs params
  have keys := (spec "").1
  apply Dict.ext_get?
  · rw [rollBack, foldl_set_keys, keys]
    intro entry member
    rw [keys]
    rcases (spec entry.1).2 with ⟨v, oldValue, -, had, -⟩ | ⟨-, -, kept⟩
    · exact Dict.contains_iff.mp (by simp [Dict.contains, had])
    · rw [Dict.get?_of_mem member] at kept
      cases kept
  · intro key
    rw [rollBack, Dict.get?_foldl_set (overrideParams kwargs params).2.distinct]
    have lookup : (overrideParams kwargs params).2.entries.lookup key =
      (overrideParams kwargs params).2.get? key := rfl
    rw [lookup]
    rcases (spec key).2 with ⟨v, oldValue, -, had, -, kept⟩ | ⟨-, same, kept⟩
    · rw [kept, had]
      rfl
    · rw [kept, same]
      rfl

/-- What an exception leaves is the old state only when no keyword changed it. -/
theorem overrideParams_eq_self_iff (kwargs params : Params) :
    (overrideParams kwargs params).1 = params ↔
    ∀ entry ∈ kwargs.entries, ∀ oldValue, params.get? entry.1 = some oldValue →
      oldValue = entry.2 := by
  have spec := overrideParams_spec kwargs params
  constructor
  · intro same entry member oldValue had
    rcases (spec entry.1).2 with ⟨v, _, inside, -, new, -⟩ | ⟨missing | absent, -⟩
    · rw [same, had] at new
      have value : some entry.2 = some v :=
        (Dict.get?_of_mem member).symm.trans (Dict.get?_of_mem inside)
      exact Option.some.inj (new.trans value.symm)
    · rw [missing] at had
      cases had
    · exact absurd (List.mem_map_of_mem member) absent
  · intro unchanged
    apply Dict.ext_get? (spec "").1
    intro key
    rcases (spec key).2 with ⟨v, oldValue, inside, had, new, -⟩ | ⟨-, same, -⟩
    · rw [new, had, unchanged _ inside oldValue had]
    · exact same

end Override

section Runs

/-- One call: every way out of it but an exception of the body passes the roll-back. -/
theorem generateSequences_params_iff (backend : Backend) (call : Call) (params : Params) :
    (backend.generateSequences call params).2 = params ↔ backend.Safe params call := by
  unfold Backend.generateSequences Backend.Safe
  cases prepared : call.prepare with
  | error e => simp
  | ok u =>
    have restored := rollBack_overrideParams (backend.kwargs call) params
    have unchanged := overrideParams_eq_self_iff (backend.kwargs call) params
    cases ran : backend.body call (overrideParams (backend.kwargs call) params).1 with
    | error e =>
      have left : updateSamplingParams (backend.kwargs call) (backend.body call) params =
          (.error e, (overrideParams (backend.kwargs call) params).1) := by
        simp [updateSamplingParams, ran]
      rw [left]
      cases backend <;> simpa using unchanged
    | ok outputs =>
      have left : updateSamplingParams (backend.kwargs call) (backend.body call) params =
          (.ok outputs, params) := by
        simp [updateSamplingParams, ran, restored]
      rw [left]
      cases backend <;> simp

theorem steps_before (backend : Backend) {params : Params} {calls : List Call}
    (safe : ∀ step ∈ backend.steps params calls, backend.Safe step.before step.call) :
    ∀ step ∈ backend.steps params calls, step.before = params := by
  induction calls with
  | nil => simp [Backend.steps]
  | cons call calls ih =>
    have same := (generateSequences_params_iff backend call params).mpr (safe _ List.mem_cons_self)
    intro step member
    rcases List.mem_cons.mp member with rfl | later
    · rfl
    · have rest : backend.steps (backend.generateSequences call params).2 calls =
        backend.steps params calls := by rw [same]
      rw [rest] at later
      apply ih _ step later
      intro other inside
      exact safe other (List.mem_cons_of_mem _ (rest ▸ inside))

/-- Over any sequence of calls, failed ones included, each call leaves the parameters as it found
them exactly when no call fails inside its override; then every call starts from the parameters of
the start. -/
theorem steps_params_iff (backend : Backend) (params : Params) (calls : List Call) :
    ((∀ step ∈ backend.steps params calls, step.after = step.before) ↔
      ∀ step ∈ backend.steps params calls, backend.Safe step.before step.call) ∧
    ((∀ step ∈ backend.steps params calls, backend.Safe step.before step.call) →
      ∀ step ∈ backend.steps params calls, step.before = params) := by
  refine ⟨?_, steps_before backend⟩
  induction calls generalizing params with
  | nil => simp [Backend.steps]
  | cons call calls ih =>
    simp only [Backend.steps, List.mem_cons, forall_eq_or_imp]
    exact and_congr (generateSequences_params_iff backend call params) (ih _)

/-- A greedy call whose engine raises, and a training call after it. -/
def failedGreedy : List Call :=
  [⟨false, false, .empty, .ok (), fun _ => .error (.runtime "engine"),
    fun _ outputs => .ok outputs⟩,
    ⟨true, false, .empty, .ok (), fun _ => .ok [[1]], fun _ outputs => .ok outputs⟩]

def trainingParams : Params := ⟨[("n", .num 4), ("temperature", .num 1)], by simp⟩

/-- The training call draws one sample at temperature 0 instead of four at temperature 1. -/
theorem steps_params_failedGreedy :
    ((Backend.sglang.steps trainingParams failedGreedy).map (fun step => step.before.entries)) =
      [[("n", .num 4), ("temperature", .num 1)], [("n", .num 1), ("temperature", .num 0)]] ∧
    ¬∀ step ∈ Backend.sglang.steps trainingParams failedGreedy, step.after = step.before := by
  have run : (Backend.sglang.steps trainingParams failedGreedy).map
    (fun step => (step.before.entries, step.after.entries)) =
      [([("n", .num 4), ("temperature", .num 1)], [("n", .num 1), ("temperature", .num 0)]),
        ([("n", .num 1), ("temperature", .num 0)], [("n", .num 1), ("temperature", .num 0)])] := rfl
  refine ⟨rfl, ?_⟩
  intro keeps
  have equal : ∀ pair ∈ (Backend.sglang.steps trainingParams failedGreedy).map (fun step => (step.before.entries, step.after.entries)),
      pair.2 = pair.1 := by
    intro pair member
    obtain ⟨step, inside, rfl⟩ := List.mem_map.mp member
    exact congrArg Dict.entries (keeps step inside)
  rw [run] at equal
  have first := equal _ List.mem_cons_self
  simp at first

end Runs

end Verl.Rollout
