import Mathlib.Data.List.Dedup
import Mathlib.Data.List.Sort
import Verl.Base.Rebind
import Verl.Base.Text

/-! Roles that share their processes: `create_colocated_worker_cls` flattens the registered
methods of all roles into one class, `RayWorkerGroup` binds them, and `spawn` binds those
of one role back to their own names. Attributes that Python gives every object, and those
of the worker class that are not registered, are left out. -/
namespace Verl.SingleController

inductive Execute where
  | all
  | rankZero
  deriving DecidableEq

def Execute.fnName : Execute → Text
  | .all => "execute_all".toList
  | .rankZero => "execute_rank_zero".toList

def Execute.asyncName : Execute → Text
  | .all => "execute_all_async".toList
  | .rankZero => "execute_rank_zero_async".toList

/-- A registered method; `reads` are the attributes of the group that its dispatch and
collect functions use. -/
structure Method where
  name : Text
  execute : Execute
  reads : List Text
  deriving DecidableEq

def Method.vital (method : Method) : List Text :=
  "_workers".toList :: method.execute.asyncName :: method.reads

/-- A function of `WorkerDict`: it calls the method on `worker_dict[key]`, or it is one of
the base class. -/
structure Bound where
  key : Option Text
  method : Method
  deriving DecidableEq

abbrev WorkerDict := List (Text × Bound)

def joined (key method : Text) : Text := key ++ '_' :: method

def bindWorkersMethodToParent (cls : WorkerDict) (key : Text) (methods : List Method) :
    WorkerDict :=
  methods.foldl (fun cls method => (joined key method.name, ⟨some key, method⟩) :: cls) cls

/-- The argument of `create_colocated_worker_cls`: the roles with the registered methods of
their classes, and those of the base class they share. -/
structure ClassDict where
  base : List Method
  classes : List (Text × List Method)
  keys : (classes.map Prod.fst).Nodup
  methods : ∀ entry ∈ classes, (entry.2.map Method.name).Nodup

def createColocatedWorkerCls (dict : ClassDict) : WorkerDict :=
  dict.classes.foldl (fun cls entry => bindWorkersMethodToParent cls entry.1 entry.2)
    (dict.base.map (fun method => (method.name, ⟨none, method⟩)))

/-- The properties of `RayWorkerGroup`; none has a setter. -/
def properties : List Text :=
  ["worker_names", "master_address", "master_port", "workers", "world_size"].map String.toList

def ownNames : List Text :=
  properties ++ ["_is_worker_alive", "_block_until_all_workers_alive",
    "start_worker_aliveness_check", "_bind_worker_method", "_init_with_detached_workers",
    "_init_with_resource_pool", "from_detached", "spawn",
    "execute_rank_zero_sync", "execute_rank_zero_async", "execute_rank_zero", "execute_all",
    "execute_all_sync",
    "execute_all_async", "_is_init_with_detached_workers", "_procecss_dispatch_config", "_workers",
    "_worker_names",
    "_master_addr", "_master_port", "_checker_thread", "ray_cls_with_init", "name_prefix",
    "_world_size"].map String.toList

/-- What an attribute of a group holds: one of its own, or a function that runs a method of
the workers; `execute` says whether it got hold of the group's own execute function. -/
inductive Value where
  | own (name : Text)
  | method (name : Text) (method : Method) (execute : Bool)
  deriving DecidableEq

/-- A group: what has been assigned to it, the last assignment first. -/
structure Group where
  assigned : List (Text × Value)

def Group.getattr (group : Group) (name : Text) : Option Value :=
  match group.assigned.lookup name with
  | some value => some value
  | none => if ownNames.contains name then some (.own name) else none

def Group.setattr (group : Group) (name : Text) (value : Value) : Py Group :=
  if properties.contains name then
    .error (.attribute (String.ofList name))
  else .ok ⟨(name, value) :: group.assigned⟩

def dirOf (names : List Text) : List Text :=
  names.dedup.insertionSort (fun a b => Text.le a b = true)

def Group.dir (group : Group) : List Text := dirOf (ownNames ++ group.assigned.map Prod.fst)

def bindOne (cls : WorkerDict) (group : Group) (name : Text) : Py Group :=
  match cls.lookup name with
  | none => .ok group
  | some bound =>
    let execute := group.getattr bound.method.execute.fnName =
      some (.own bound.method.execute.fnName)
    match group.setattr name (.method name bound.method execute) with
    | .ok group => .ok group
    | .error _ =>
      let methodName := String.ofList name
      .error (.value s!"Fail to set method_name {methodName}")

def bindWorkerMethod (cls : WorkerDict) : Py Group :=
  (dirOf (cls.map Prod.fst)).foldlM (bindOne cls) ⟨[]⟩

def stripKey (key name : Text) : Option Text := (key ++ ['_']).isPrefixOf? name

def rebindOne (key : Text) (group : Group) (name : Text) : Py Group :=
  match stripKey key name with
  | none => .ok group
  | some original =>
    match group.getattr name with
    | some value => group.setattr original value
    | none => .error (.attribute (String.ofList name))

def rebindActorMethods (group : Group) (key : Text) : Py Group :=
  group.dir.foldlM (rebindOne key) group

def spawnOne (cls : WorkerDict) (key : Text) : Py Group := do
  let group ← bindWorkerMethod cls
  rebindActorMethods group key

def spawn (cls : WorkerDict) (keys : List Text) : Py (List (Text × Group)) :=
  keys.mapM (fun key => do
    let group ← spawnOne cls key
    return (key, group))

def spawnAll (dict : ClassDict) : Py (List (Text × Group)) := do
  let cls := createColocatedWorkerCls dict
  let _ ← bindWorkerMethod cls
  spawn cls (dict.classes.map Prod.fst)

def Group.call (cls : WorkerDict) (group : Group) (name : Text) : Option Bound :=
  match group.getattr name with
  | some (.method method info true) =>
    if ∀ attr ∈ info.vital, group.getattr attr = some (.own attr) then cls.lookup method else none
  | _ => none

section Names

theorem joined_injective {key a b : Text} (same : joined key a = joined key b) : a = b :=
  (List.cons.inj (List.append_cancel_left same)).2

theorem length_joined (key method : Text) : method.length < (joined key method).length := by
  simp [joined]
  omega

theorem isPrefixOf?_eq_some {front name rest : Text} :
    front.isPrefixOf? name = some rest ↔ name = front ++ rest := by
  induction front generalizing name with
  | nil => simp [List.isPrefixOf?, eq_comm]
  | cons c front ih =>
    cases name with
    | nil => simp [List.isPrefixOf?]
    | cons d name =>
      by_cases same : c = d
      · simp [List.isPrefixOf?, same, ih]
      · simp [List.isPrefixOf?, same, Ne.symm same]

theorem stripKey_iff {key name original : Text} :
    stripKey key name = some original ↔ name = joined key original := by
  rw [stripKey, isPrefixOf?_eq_some, joined, List.append_assoc, List.singleton_append]

theorem stripKey_shorter {key x y : Text} (short : stripKey key x = some y) : y.length < x.length :=
  stripKey_iff.mp short ▸ length_joined key y

theorem mem_dirOf {names : List Text} {name : Text} : name ∈ dirOf names ↔ name ∈ names := by
  rw [dirOf, List.mem_insertionSort, List.mem_dedup]

theorem dirOf_nodup (names : List Text) : (dirOf names).Nodup :=
  (List.perm_insertionSort _ _).nodup_iff.mpr (List.nodup_dedup names)

theorem mem_front_iff {names front back : List Text} {name other : Text}
    (split : dirOf names = front ++ name :: back) :
    other ∈ front ↔ other ∈ names ∧ Text.before other name = true := by
  have sorted : (dirOf names).Pairwise (fun a b => Text.le a b = true) :=
    List.pairwise_insertionSort _ _
  have distinct := dirOf_nodup names
  have inside : other ∈ names ↔ other ∈ front ++ name :: back := by rw [← split, mem_dirOf]
  rw [split] at sorted distinct
  rw [inside]
  obtain ⟨-, later, before⟩ := List.pairwise_append.mp sorted
  obtain ⟨-, -, different⟩ := List.nodup_append.mp distinct
  constructor
  · intro member
    refine ⟨List.mem_append_left _ member,
      Text.before_of_le_of_ne (before other member name List.mem_cons_self) ?_⟩
    exact different other member name List.mem_cons_self
  · rintro ⟨member, smaller⟩
    rcases List.mem_append.mp member with here | rest
    · exact here
    · rcases List.mem_cons.mp rest with rfl | behind
      · rw [Text.before_irrefl] at smaller
        cases smaller
      · exact absurd ((List.pairwise_cons.mp later).1 other behind) (Text.not_le_of_before smaller)

end Names

end Verl.SingleController
