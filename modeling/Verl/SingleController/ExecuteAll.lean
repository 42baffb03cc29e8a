import Verl.Megatron.Layout

/-! `RayWorkerGroup.execute_all_async` behind the dispatch functions that take data for each worker.
Both sides look at the type and the length of an argument, each in its own way. -/
namespace Verl.SingleController
open Megatron

variable {A : Type}

/-- An argument by its type. Of another object only `len` matters here, when it has one. -/
inductive Container (A : Type) where
  | list (items : List A)
  | tuple (items : List A)
  | object (length : Option Nat)
  deriving DecidableEq

namespace Container

def items : Container A → List A
  | .list items => items
  | .tuple items => items
  | .object _ => []

def admitted (size : Nat) : Container A → Bool
  | .list items => items.length == size
  | .tuple items => items.length == size
  | .object _ => false

def isList : Container A → Bool
  | .list _ => true
  | _ => false

def len : Container A → Py Nat
  | .list items => .ok items.length
  | .tuple items => .ok items.length
  | .object (some length) => .ok length
  | .object none => .error (.type "object has no len()")

end Container

structure Arguments (C : Type) where
  args : List C
  kwargs : List (String × C)

def Arguments.values {C : Type} (a : Arguments C) : List C := a.args ++ a.kwargs.map Prod.snd

section Dispatch

def assertAdmitted (size : Nat) (arg : Container A) : Py Unit := pyAssert (arg.admitted size) ""

/-- The same, with `f'expect len(v)=={size}, got {len(v)}'` as its message. -/
def assertAdmittedLen (size : Nat) (v : Container A) : Py Unit :=
  if v.admitted size then .ok ()
  else do
    let length ← v.len
    .error (.assertion s!"expect len(v)=={size}, got {length}")

def dispatchDpComputeArgs (worldSize : Nat) (a : Arguments (Container A)) :
    Py (Arguments (Container A)) := do
  a.args.forM (assertAdmitted worldSize)
  a.kwargs.forM (fun (_, v) => assertAdmitted worldSize v)
  return a

def transformedArgs (layout : Layout) (argRank : RankInfo → Nat) (arg : Container A) :
    Py (Container A) := do
  let transformed ← (List.range layout.worldSize).mapM (fun i =>
    pyGet arg.items (argRank (layout.rankInfo i)))
  return .list transformed

def dispatchMegatronComputeArgs (layout : Layout) (a : Arguments (Container A)) :
    Py (Arguments (Container A)) := do
  let allArgs ← a.args.mapM (fun arg => do
    assertAdmitted layout.dpSize arg
    transformedArgs layout RankInfo.dpRank arg)
  let allKwargs ← a.kwargs.mapM (fun (k, v) => do
    assertAdmitted layout.dpSize v
    let transformed ← transformedArgs layout RankInfo.dpRank v
    return (k, transformed))
  return ⟨allArgs, allKwargs⟩

def dispatchMegatronPpAsDpArgs (layout : Layout) (a : Arguments (Container A)) :
    Py (Arguments (Container A)) := do
  let ppDpSize := layout.ppSize * layout.dpSize
  let argRank := fun info : RankInfo => info.dpRank * layout.ppSize + info.ppRank
  let allArgs ← a.args.mapM (fun arg => do
    assertAdmitted ppDpSize arg
    transformedArgs layout argRank arg)
  let allKwargs ← a.kwargs.mapM (fun (k, v) => do
    assertAdmittedLen ppDpSize v
    let transformed ← transformedArgs layout argRank v
    return (k, transformed))
  return ⟨allArgs, allKwargs⟩

end Dispatch

/-- What a worker gets for an argument: one of its elements, or the argument itself. -/
inductive Sent (A : Type) where
  | item (x : A)
  | whole (arg : Container A)
  deriving DecidableEq

def slicedAt (a : Arguments (Container A)) (i : Nat) : Py (Arguments (Sent A)) := do
  let slicedArgs ← a.args.mapM (fun arg => do
    let x ← pyGet arg.items i
    return Sent.item x)
  let slicedKwargs ← a.kwargs.mapM (fun (k, v) => do
    let x ← pyGet v.items i
    return (k, Sent.item x))
  return ⟨slicedArgs, slicedKwargs⟩

def executeAllAsync (length : Nat) (a : Arguments (Container A)) : Py (List (Arguments (Sent A))) :=
  if a.args.all Container.isList && a.kwargs.all (fun (_, kwarg) => kwarg.isList) then
    if a.args.all (fun arg => arg.items.length == length) && a.kwargs.all (fun (_, kwarg) => kwarg.items.length == length) then
      (List.range length).mapM (slicedAt a)
    else .ok (List.replicate length ⟨a.args.map .whole, a.kwargs.map (fun (k, v) => (k, .whole v))⟩)
  else .ok (List.replicate length ⟨a.args.map .whole, a.kwargs.map (fun (k, v) => (k, .whole v))⟩)

inductive PerWorker where
  | dpCompute (worldSize : Nat)
  | megatronCompute (layout : Layout)
  | megatronPpAsDp (layout : Layout)

namespace PerWorker

def workers : PerWorker → Nat
  | .dpCompute worldSize => worldSize
  | .megatronCompute layout => layout.worldSize
  | .megatronPpAsDp layout => layout.worldSize

def required : PerWorker → Nat
  | .dpCompute worldSize => worldSize
  | .megatronCompute layout => layout.dpSize
  | .megatronPpAsDp layout => layout.ppSize * layout.dpSize

def dispatch : PerWorker → Arguments (Container A) → Py (Arguments (Container A))
  | .dpCompute worldSize => dispatchDpComputeArgs worldSize
  | .megatronCompute layout => dispatchMegatronComputeArgs layout
  | .megatronPpAsDp layout => dispatchMegatronPpAsDpArgs layout

end PerWorker

def Elementwise (length : Nat) (a : Arguments (Container A)) : Prop :=
  ∃ calls, executeAllAsync length a = .ok calls ∧ calls.length = length ∧
    ∀ i < length, ∃ call, calls[i]? = some call ∧
      List.Forall₂ (fun (arg : Container A) sent => ∃ x, arg.items[i]? = some x ∧
        sent = .item x) a.args call.args ∧
      List.Forall₂ (fun (kwarg : String × Container A) (sent : String × Sent A) =>
        sent.1 = kwarg.1 ∧ ∃ x, kwarg.2.items[i]? = some x ∧ sent.2 = .item x) a.kwargs call.kwargs

section Execute

variable {a : Arguments (Container A)} {length : Nat}

theorem slicedAt_ok {i : Nat} (lengths : ∀ arg ∈ a.values, i < arg.items.length) :
    ∃ call, slicedAt a i = .ok call ∧
    List.Forall₂ (fun (arg : Container A) sent => ∃ x, arg.items[i]? = some x ∧
      sent = .item x) a.args call.args ∧
    List.Forall₂ (fun (kwarg : String × Container A) (sent : String × Sent A) =>
      sent.1 = kwarg.1 ∧ ∃ x, kwarg.2.items[i]? = some x ∧
        sent.2 = .item x) a.kwargs call.kwargs := by
  obtain ⟨args, argsRun, argsEach⟩ := mapM_forall₂ (fun arg : Container A => do
      let x ← pyGet arg.items i
      return Sent.item x) (fun arg sent => ∃ x, arg.items[i]? = some x ∧ sent = .item x) a.args (by
    intro arg member
    have inside := lengths arg (List.mem_append_left _ member)
    exact ⟨.item arg.items[i], by simp [inside], arg.items[i],
      List.getElem?_eq_getElem inside, rfl⟩)
  obtain ⟨kwargs, kwargsRun, kwargsEach⟩ := mapM_forall₂ (fun kwarg : String × Container A => do
      let x ← pyGet kwarg.2.items i
      return (kwarg.1, Sent.item x))
      (fun kwarg sent => sent.1 = kwarg.1 ∧ ∃ x, kwarg.2.items[i]? = some x ∧
        sent.2 = .item x) a.kwargs (by
    intro kwarg member
    have inside := lengths kwarg.2 (List.mem_append_right _ (List.mem_map_of_mem member))
    exact ⟨(kwarg.1, .item kwarg.2.items[i]), by simp [inside], rfl, kwarg.2.items[i],
      List.getElem?_eq_getElem inside, rfl⟩)
  refine ⟨⟨args, kwargs⟩, ?_, argsEach, kwargsEach⟩
  rw [slicedAt, argsRun, ok_bind, kwargsRun, ok_bind]
  rfl

theorem all_values_iff {p : Container A → Bool} :
    (a.args.all p && a.kwargs.all (fun (_, kwarg) => p kwarg)) = true ↔
    ∀ arg ∈ a.values, p arg = true := by
  simp only [Bool.and_eq_true, List.all_eq_true, Arguments.values, List.mem_append, List.mem_map,
    or_imp, forall_and]
  apply and_congr_right
  intro _
  constructor
  · rintro each _ ⟨kwarg, member, rfl⟩
    exact each kwarg member
  · exact fun each kwarg member => each kwarg.2 ⟨kwarg, member, rfl⟩

theorem elementwise_of_lists (lists : ∀ arg ∈ a.values, arg.isList = true)
    (lengths : ∀ arg ∈ a.values, arg.items.length = length) :
    Elementwise length a := by
  obtain ⟨calls, run, each⟩ := mapM_forall₂ (slicedAt a) (fun i call =>
      List.Forall₂ (fun (arg : Container A) sent => ∃ x, arg.items[i]? = some x ∧
        sent = .item x) a.args call.args ∧
      List.Forall₂ (fun (kwarg : String × Container A) (sent : String × Sent A) =>
        sent.1 = kwarg.1 ∧ ∃ x, kwarg.2.items[i]? = some x ∧
          sent.2 = .item x) a.kwargs call.kwargs) (List.range length) (by
    intro i inside
    exact slicedAt_ok (fun arg member => lengths arg member ▸ List.mem_range.mp inside))
  have count : calls.length = length := by simpa using each.length_eq.symm
  refine ⟨calls, ?_, count, ?_⟩
  · have long : ∀ arg ∈ a.values, (arg.items.length == length) = true := fun arg member => by
      simp [lengths arg member]
    rw [executeAllAsync, if_pos (all_values_iff.mpr lists)]
    exact (if_pos (all_values_iff (p := fun arg => arg.items.length == length) |>.mpr long)).trans
      run
  · intro i inside
    have there : i < calls.length := count.symm ▸ inside
    refine ⟨calls[i], List.getElem?_eq_getElem there, ?_⟩
    have related := (List.forall₂_iff_get.mp each).2 i (by simpa using inside) there
    simpa only [List.get_eq_getElem, List.getElem_range] using related

theorem elementwise_zero : Elementwise 0 a := by
  unfold Elementwise executeAllAsync
  refine ⟨[], ?_, rfl, fun i below => absurd below (Nat.not_lt_zero i)⟩
  split
  · split
    · rfl
    · rfl
  · rfl

theorem not_elementwise_of_tuple (positive : 0 < length) {arg : Container A}
    (member : arg ∈ a.values) (tuple : arg.isList = false) :
    ¬Elementwise length a := by
  rintro ⟨calls, run, -, each⟩
  have lists : ¬(a.args.all Container.isList && a.kwargs.all (fun (_, kwarg) => kwarg.isList)) =
      true := by
    intro all
    have list := all_values_iff.mp all arg member
    rw [tuple] at list
    cases list
  rw [executeAllAsync, if_neg lists] at run
  cases run
  obtain ⟨call, first, args, kwargs⟩ := each 0 positive
  rw [List.getElem?_replicate_of_lt positive] at first
  cases first
  rcases List.mem_append.mp member with here | here
  · obtain ⟨sent, inside, x, -, same⟩ := exists_right_of_forall₂ args here
    obtain ⟨_, -, rfl⟩ := List.mem_map.mp inside
    cases same
  · obtain ⟨kwarg, there, rfl⟩ := List.mem_map.mp here
    obtain ⟨sent, inside, -, x, -, same⟩ := exists_right_of_forall₂ kwargs there
    obtain ⟨_, -, rfl⟩ := List.mem_map.mp inside
    cases same

end Execute

section Admission

variable {layout : Layout} {argRank : RankInfo → Nat} {size : Nat} {arg : Container A}

theorem length_of_admitted (admitted : arg.admitted size = true) : arg.items.length = size := by
  cases arg with
  | list items => exact beq_iff_eq.mp admitted
  | tuple items => exact beq_iff_eq.mp admitted
  | object length => cases admitted

theorem assertAdmitted_ok (admitted : arg.admitted size = true) :
    assertAdmitted size arg = .ok () := by
  rw [assertAdmitted, admitted, pyAssert_true]

theorem assertAdmittedLen_ok (admitted : arg.admitted size = true) :
    assertAdmittedLen size arg = .ok () := if_pos admitted

theorem transformedArgs_ok (inside : ∀ info, layout.Valid info → argRank info < size)
    (admitted : arg.admitted size = true) :
    ∃ out, transformedArgs layout argRank arg = .ok out ∧ out.isList = true ∧
      out.items.length = layout.worldSize := by
  obtain ⟨items, run, each⟩ :=
    mapM_forall₂ (fun i => pyGet arg.items (argRank (layout.rankInfo i))) (fun _ _ => True)
    (List.range layout.worldSize) (by
      intro i member
      have below : argRank (layout.rankInfo i) < arg.items.length := by
        rw [length_of_admitted admitted]
        exact inside _ (Layout.valid_rankInfo (List.mem_range.mp member))
      exact ⟨_, pyGet_of_lt below, trivial⟩)
  have count : items.length = layout.worldSize := by simpa using each.length_eq.symm
  refine ⟨.list items, ?_, rfl, count⟩
  rw [transformedArgs, run, ok_bind, pure_eq_ok]

variable {check : Container A → Py Unit} {a : Arguments (Container A)}

theorem transformed_args (inside : ∀ info, layout.Valid info → argRank info < size)
    (checked : ∀ arg : Container A, arg.admitted size = true → check arg = .ok ())
    (admitted : ∀ arg ∈ a.args, arg.admitted size = true) :
    ∃ out, a.args.mapM (fun arg => do check arg; transformedArgs layout argRank arg) = .ok out ∧
      ∀ arg ∈ out, arg.isList = true ∧ arg.items.length = layout.worldSize := by
  obtain ⟨out, run, each⟩ :=
    mapM_forall₂ (fun arg => do check arg; transformedArgs layout argRank arg)
    (fun _ out => out.isList = true ∧ out.items.length = layout.worldSize) a.args (by
      intro arg member
      rw [checked arg (admitted arg member), ok_bind]
      exact transformedArgs_ok inside (admitted arg member))
  refine ⟨out, run, ?_⟩
  intro arg member
  obtain ⟨_, -, good⟩ := exists_left_of_forall₂ each member
  exact good

theorem transformed_kwargs (inside : ∀ info, layout.Valid info → argRank info < size)
    (checked : ∀ arg : Container A, arg.admitted size = true → check arg = .ok ())
    (admitted : ∀ e ∈ a.kwargs, e.2.admitted size = true) :
    ∃ out, a.kwargs.mapM (fun (k, v) => do
        check v
        let transformed ← transformedArgs layout argRank v
        return (k, transformed)) = .ok out ∧
      ∀ e ∈ out, e.2.isList = true ∧ e.2.items.length = layout.worldSize := by
  obtain ⟨out, run, each⟩ := mapM_forall₂ (fun (e : String × Container A) => do
      check e.2
      let transformed ← transformedArgs layout argRank e.2
      return (e.1, transformed)) (fun _ out => out.2.isList = true ∧
        out.2.items.length = layout.worldSize) a.kwargs (by
    rintro ⟨k, v⟩ member
    obtain ⟨out, run, good⟩ := transformedArgs_ok inside (admitted (k, v) member)
    exact ⟨(k, out), by simp [checked v (admitted (k, v) member), run], good⟩)
  refine ⟨out, run, ?_⟩
  intro e member
  obtain ⟨_, -, good⟩ := exists_left_of_forall₂ each member
  exact good

theorem dpRank_inside {info : RankInfo} (valid : layout.Valid info) :
    info.dpRank < layout.dpSize := valid.dp

theorem ppAsDp_inside {info : RankInfo} (valid : layout.Valid info) :
    info.dpRank * layout.ppSize + info.ppRank < layout.ppSize * layout.dpSize :=
  calc info.dpRank * layout.ppSize + info.ppRank < (info.dpRank + 1) * layout.ppSize := by
        rw [Nat.succ_mul]
        exact Nat.add_lt_add_left valid.pp _
    _ ≤ layout.dpSize * layout.ppSize := Nat.mul_le_mul_right _ valid.dp
    _ = layout.ppSize * layout.dpSize := Nat.mul_comm _ _

theorem forall_values {p : Container A → Prop} (args : ∀ arg ∈ a.args, p arg)
    (kwargs : ∀ e ∈ a.kwargs, p e.2) : ∀ arg ∈ a.values, p arg := by
  intro arg member
  rcases List.mem_append.mp member with here | here
  · exact args arg here
  · obtain ⟨e, inside, rfl⟩ := List.mem_map.mp here
    exact kwargs e inside

variable (admitted : ∀ arg ∈ a.values, arg.admitted size = true)
include admitted

theorem admitted_args : ∀ arg ∈ a.args, arg.admitted size = true :=
  fun arg member => admitted arg (List.mem_append_left _ member)

theorem admitted_kwargs : ∀ e ∈ a.kwargs, e.2.admitted size = true :=
  fun _ member => admitted _ (List.mem_append_right _ (List.mem_map_of_mem member))

end Admission

section Modes

variable {a : Arguments (Container A)}

theorem dispatchDpComputeArgs_ok {worldSize : Nat}
    (admitted : ∀ arg ∈ a.values, arg.admitted worldSize = true) :
    dispatchDpComputeArgs worldSize a = .ok a := by
  have args : a.args.forM (assertAdmitted worldSize) = .ok ⟨⟩ :=
    forM_ok _ _ (fun arg member => assertAdmitted_ok (admitted_args admitted arg member))
  have kwargs : a.kwargs.forM (fun (_, v) => assertAdmitted worldSize v) = .ok ⟨⟩ :=
    forM_ok _ _ (fun e member => assertAdmitted_ok (admitted_kwargs admitted e member))
  rw [dispatchDpComputeArgs, args, ok_bind, kwargs, ok_bind, pure_eq_ok]

theorem dispatchMegatronComputeArgs_ok {layout : Layout}
    (admitted : ∀ arg ∈ a.values, arg.admitted layout.dpSize = true) :
    ∃ out, dispatchMegatronComputeArgs layout a = .ok out ∧ ∀ arg ∈ out.values,
      arg.isList = true ∧ arg.items.length = layout.worldSize := by
  obtain ⟨args, argsRun, argsEach⟩ :=
    transformed_args (fun _ => dpRank_inside) (fun _ => assertAdmitted_ok) (admitted_args admitted)
  obtain ⟨kwargs, kwargsRun, kwargsEach⟩ :=
    transformed_kwargs (fun _ => dpRank_inside) (fun _ => assertAdmitted_ok)
      (admitted_kwargs admitted)
  refine ⟨⟨args, kwargs⟩, ?_, forall_values argsEach kwargsEach⟩
  rw [dispatchMegatronComputeArgs, argsRun, ok_bind, kwargsRun, ok_bind, pure_eq_ok]

theorem dispatchMegatronPpAsDpArgs_ok {layout : Layout}
    (admitted : ∀ arg ∈ a.values, arg.admitted (layout.ppSize * layout.dpSize) = true) :
    ∃ out, dispatchMegatronPpAsDpArgs layout a = .ok out ∧ ∀ arg ∈ out.values,
      arg.isList = true ∧ arg.items.length = layout.worldSize := by
  obtain ⟨args, argsRun, argsEach⟩ :=
    transformed_args (fun _ => ppAsDp_inside) (fun _ => assertAdmitted_ok) (admitted_args admitted)
  obtain ⟨kwargs, kwargsRun, kwargsEach⟩ :=
    transformed_kwargs (fun _ => ppAsDp_inside) (fun _ => assertAdmittedLen_ok)
      (admitted_kwargs admitted)
  refine ⟨⟨args, kwargs⟩, ?_, forall_values argsEach kwargsEach⟩
  simp only [dispatchMegatronPpAsDpArgs]
  rw [argsRun, ok_bind, kwargsRun, ok_bind, pure_eq_ok]

/-- The Megatron functions always dispatch lists; `dispatch_dp_compute` hands on what it is
given. -/
theorem elementwise_dispatched_iff (mode : PerWorker)
    (admitted : ∀ arg ∈ a.values, arg.admitted mode.required = true) :
    ∃ dispatched, mode.dispatch a = .ok dispatched ∧
      (Elementwise mode.workers dispatched ↔
        ∀ worldSize, mode = .dpCompute worldSize → worldSize = 0 ∨ ∀ arg ∈ a.values,
          arg.isList = true) := by
  cases mode with
  | dpCompute worldSize =>
    have lengths : ∀ arg ∈ a.values, arg.items.length = worldSize :=
      fun arg member => length_of_admitted (admitted arg member)
    refine ⟨a, dispatchDpComputeArgs_ok admitted, ?_⟩
    constructor
    · rintro elementwise _ ⟨⟩
      by_cases empty : worldSize = 0
      · exact .inl empty
      · right
        intro arg member
        by_contra tuple
        exact not_elementwise_of_tuple (Nat.pos_of_ne_zero empty) member
          (Bool.not_eq_true _ ▸ tuple) elementwise
    · intro condition
      rcases condition worldSize rfl with rfl | lists
      · exact elementwise_zero
      · exact elementwise_of_lists lists lengths
  | megatronCompute layout =>
    obtain ⟨out, run, good⟩ := dispatchMegatronComputeArgs_ok admitted
    refine ⟨out, run, ?_⟩
    have elementwise :=
      elementwise_of_lists (fun arg member => (good arg member).1) (fun arg member =>
        (good arg member).2)
    exact iff_of_true elementwise (by rintro _ ⟨⟩)
  | megatronPpAsDp layout =>
    obtain ⟨out, run, good⟩ := dispatchMegatronPpAsDpArgs_ok admitted
    refine ⟨out, run, ?_⟩
    have elementwise :=
      elementwise_of_lists (fun arg member => (good arg member).1) (fun arg member =>
        (good arg member).2)
    exact iff_of_true elementwise (by rintro _ ⟨⟩)

section Workers

def twoLists : Arguments (Container Nat) := ⟨[.list [10, 20]], [("scale", .list [1, 2])]⟩

theorem twoLists_elementwise :
    ∃ dispatched, (PerWorker.dpCompute 2).dispatch twoLists = .ok dispatched ∧
    Elementwise 2 dispatched := by
  obtain ⟨dispatched, run, same⟩ :=
    elementwise_dispatched_iff (.dpCompute 2) (a := twoLists) (by decide)
  refine ⟨dispatched, run, same.mpr ?_⟩
  rintro _ ⟨⟩
  exact .inr (by decide)

/-- The same two elements in a tuple: both workers get the tuple, and the list beside it. -/
def tupleAndList : Arguments (Container Nat) := ⟨[.tuple [10, 20]], [("scale", .list [1, 2])]⟩

theorem tuple_is_broadcast : (∀ arg ∈ tupleAndList.values, arg.admitted 2 = true) ∧
    (PerWorker.dpCompute 2).dispatch tupleAndList = .ok tupleAndList ∧
    executeAllAsync 2 tupleAndList =
      .ok (List.replicate 2 ⟨[.whole (.tuple [10, 20])], [("scale", .whole (.list [1, 2]))]⟩) ∧
    ¬Elementwise 2 tupleAndList := by
  refine ⟨by decide, rfl, rfl, ?_⟩
  have member : Container.tuple [10, 20] ∈ tupleAndList.values := by decide
  exact not_elementwise_of_tuple (by decide) member rfl

end Workers

end Modes

end Verl.SingleController
