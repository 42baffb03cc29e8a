import Verl.Base.Dict
import Verl.SingleController.Colocated

/-! When a call on the group of a role runs the method of that role: what the class of all
roles, a new group and a spawned group hold under each name. -/
namespace Verl.SingleController

section WorkerDict

variable (dict : ClassDict)

/-- The registered pairs of key and method, in the order in which they are bound. -/
def ClassDict.pairs : List (Text × Method) :=
  dict.classes.flatMap (fun entry => entry.2.map (fun method => (entry.1, method)))

def entryOf (pair : Text × Method) : Text × Bound :=
  (joined pair.1 pair.2.name, ⟨some pair.1, pair.2⟩)

def baseEntries : WorkerDict := dict.base.map (fun method => (method.name, ⟨none, method⟩))

theorem bindWorkersMethodToParent_eq (cls : WorkerDict) (key : Text) (methods : List Method) :
    bindWorkersMethodToParent cls key methods =
      (methods.map (fun method => entryOf (key, method))).reverse ++ cls := by
  induction methods generalizing cls with
  | nil => rfl
  | cons method methods ih =>
    have rest := ih (entryOf (key, method) :: cls)
    rw [List.map_cons, List.reverse_cons, List.append_assoc]
    exact rest

theorem createColocatedWorkerCls_eq :
    createColocatedWorkerCls dict = (dict.pairs.map entryOf).reverse ++ baseEntries dict := by
  have all : ∀ (classes : List (Text × List Method)) (cls : WorkerDict),
      classes.foldl (fun cls entry => bindWorkersMethodToParent cls entry.1 entry.2) cls =
        ((classes.flatMap (fun entry => entry.2.map (fun method => (entry.1, method)))).map
          entryOf).reverse ++ cls := by
    intro classes
    induction classes with
    | nil => intro cls; rfl
    | cons entry classes ih =>
      intro cls
      rw [List.foldl_cons, ih, bindWorkersMethodToParent_eq, List.flatMap_cons, List.map_append,
        List.reverse_append, List.map_map, List.append_assoc]
      rfl
  exact all dict.classes (baseEntries dict)

variable {dict}

theorem mem_pairs {key : Text} {method : Method} :
    (key, method) ∈ dict.pairs ↔ ∃ entry ∈ dict.classes, entry.1 = key ∧ method ∈ entry.2 := by
  simp only [ClassDict.pairs, List.mem_flatMap, List.mem_map, Prod.mk.injEq]
  constructor
  · rintro ⟨entry, inside, _, there, rfl, rfl⟩
    exact ⟨entry, inside, rfl, there⟩
  · rintro ⟨entry, inside, rfl, there⟩
    exact ⟨entry, inside, method, there, rfl, rfl⟩

theorem pairs_nodup (dict : ClassDict) : dict.pairs.Nodup := by
  unfold ClassDict.pairs
  rw [List.nodup_flatMap]
  constructor
  · intro entry inside
    refine List.Nodup.map ?_ (List.Nodup.of_map _ (dict.methods entry inside))
    intro a b same
    exact (Prod.mk.inj same).2
  · refine (List.pairwise_map.mp dict.keys).imp ?_
    intro a b different pair first second
    obtain ⟨_, -, rfl⟩ := List.mem_map.mp first
    obtain ⟨_, -, same⟩ := List.mem_map.mp second
    exact different (Prod.mk.inj same).1.symm

theorem lookup_pair {name key : Text} {method : Method}
    (found : (createColocatedWorkerCls dict).lookup name = some ⟨some key, method⟩) :
    name = joined key method.name ∧ (key, method) ∈ dict.pairs := by
  obtain ⟨front, back, split, -⟩ := List.lookup_eq_some_iff.mp found
  have member : (name, Bound.mk (some key) method) ∈ createColocatedWorkerCls dict := by
    simp [split]
  rw [createColocatedWorkerCls_eq, List.mem_append, List.mem_reverse] at member
  rcases member with pair | base
  · obtain ⟨⟨key', method'⟩, inside, same⟩ := List.mem_map.mp pair
    obtain ⟨rfl, bound⟩ := Prod.mk.inj same
    obtain ⟨rfl, rfl⟩ : key' = key ∧ method' = method := by simpa using bound
    exact ⟨rfl, inside⟩
  · obtain ⟨_, -, same⟩ := List.mem_map.mp base
    cases (Prod.mk.inj same).2

theorem mem_names_of_pair {key : Text} {method : Method} (member : (key, method) ∈ dict.pairs) :
    joined key method.name ∈ (createColocatedWorkerCls dict).map Prod.fst := by
  rw [createColocatedWorkerCls_eq, List.map_append, List.mem_append]
  exact .inl (List.mem_map.mpr ⟨entryOf (key, method),
    List.mem_reverse.mpr (List.mem_map_of_mem member), rfl⟩)

theorem lookup_of_pair (distinct : (dict.pairs.map (fun pair => joined pair.1 pair.2.name)).Nodup)
    {key : Text} {method : Method} (member : (key, method) ∈ dict.pairs) :
    (createColocatedWorkerCls dict).lookup (joined key method.name) = some ⟨some key, method⟩ := by
  have own : ((dict.pairs.map entryOf).reverse).lookup (joined key method.name) =
      some ⟨some key, method⟩ := by
    have names : ((dict.pairs.map entryOf).reverse.map Prod.fst).Nodup := by
      rw [List.map_reverse, List.map_map, List.nodup_reverse]
      exact distinct
    exact Dict.lookup_of_mem names
      (List.mem_reverse.mpr (List.mem_map_of_mem (f := entryOf) member))
  rw [createColocatedWorkerCls_eq, List.lookup_append, own, Option.some_or]

end WorkerDict

section Bind

theorem setattr_ok_iff {group group' : Group} {name : Text} {value : Value} :
    group.setattr name value = .ok group' ↔
      name ∉ properties ∧ group' = ⟨(name, value) :: group.assigned⟩ := by
  unfold Group.setattr
  by_cases readOnly : name ∈ properties
  · simp [readOnly]
  · simp [readOnly, eq_comm]

theorem getattr_assign (group : Group) (name : Text) (value : Value) :
    (Group.mk ((name, value) :: group.assigned)).getattr =
      Function.update group.getattr name (some value) := by
  funext other
  unfold Group.getattr
  by_cases same : other = name
  · simp [same]
  · simp [List.lookup_cons, beq_eq_false_iff_ne.mpr same, same]

theorem fnName_own (execute : Execute) : execute.fnName ∈ ownNames := by
  cases execute with
  | all => exact List.mem_append_right _ (List.mem_map_of_mem (by simp))
  | rankZero => exact List.mem_append_right _ (List.mem_map_of_mem (by simp))

variable {cls : WorkerDict}

theorem bindOne_ok_iff {group group' : Group} {name : Text} {bound : Bound}
    (found : cls.lookup name = some bound) :
    bindOne cls group name = .ok group' ↔
      name ∉ properties ∧ group' = ⟨(name, .method name bound.method
      (group.getattr bound.method.execute.fnName = some (.own bound.method.execute.fnName))) ::
        group.assigned⟩ := by
  unfold bindOne
  rw [found]
  simp only
  rw [← setattr_ok_iff]
  split
  · rename_i made set
    rw [set]
  · rename_i error set
    rw [set]
    simp

/-- What a new group holds after the names of `names` are bound. -/
structure BoundTo (cls : WorkerDict) (names : List Text) (group : Group) : Prop where
  assigned : group.assigned.map Prod.fst = names.reverse
  other : ∀ name ∉ names, group.getattr name = (Group.mk []).getattr name
  bound : ∀ front name back, names = front ++ name :: back → ∃ bound, cls.lookup name = some bound ∧
    group.getattr name = some (.method name bound.method (bound.method.execute.fnName ∉ front))

theorem bind_step {names : List Text} {group group' : Group} (sofar : BoundTo cls names group)
    {name : Text} {bound : Bound} (found : cls.lookup name = some bound) (fresh : name ∉ names)
    (binds : bindOne cls group name = .ok group') : BoundTo cls (names ++ [name]) group' := by
  obtain ⟨-, rfl⟩ := (bindOne_ok_iff found).mp binds
  have execute : (group.getattr bound.method.execute.fnName =
    some (.own bound.method.execute.fnName)) ↔
      bound.method.execute.fnName ∉ names := by
    constructor
    · intro own member
      obtain ⟨front, back, split⟩ := List.append_of_mem member
      obtain ⟨_, -, value⟩ := sofar.bound front _ back split
      rw [own] at value
      cases value
    · intro absent
      rw [sofar.other _ absent]
      simp [Group.getattr, fnName_own]
  refine ⟨by simp [sofar.assigned], ?_, ?_⟩
  · intro other absent
    rw [List.mem_append, not_or, List.mem_singleton] at absent
    rw [getattr_assign, Function.update_of_ne absent.2, sofar.other other absent.1]
  · intro front other back split
    rcases List.append_eq_append_iff.mp split with ⟨rest, rfl, tail⟩ | ⟨rest, longer, tail⟩
    · cases rest with
      | nil =>
        obtain ⟨rfl, -⟩ := List.cons.inj tail
        refine ⟨bound, found, ?_⟩
        rw [getattr_assign, Function.update_self, List.append_nil, decide_eq_decide.mpr execute]
      | cons c rest => simp at tail
    · cases rest with
      | nil =>
        obtain ⟨rfl, -⟩ := List.cons.inj tail
        rw [List.append_nil] at longer
        refine ⟨bound, found, ?_⟩
        rw [getattr_assign, Function.update_self, ← longer, decide_eq_decide.mpr execute]
      | cons c rest =>
        rw [List.cons_append] at tail
        obtain ⟨rfl, rfl⟩ := List.cons.inj tail
        obtain ⟨b, hb, value⟩ := sofar.bound front other rest longer
        refine ⟨b, hb, ?_⟩
        have different : other ≠ name := by
          rintro rfl
          exact fresh (by simp [longer])
        rw [getattr_assign, Function.update_of_ne different, value]

theorem bind_run {names : List Text} (distinct : names.Nodup)
    (known : ∀ name ∈ names, ∃ bound, cls.lookup name = some bound)
    (settable : ∀ name ∈ names, name ∉ properties) :
    ∃ group, names.foldlM (bindOne cls) ⟨[]⟩ = .ok group ∧ BoundTo cls names group := by
  induction names using List.reverseRecOn with
  | nil => exact ⟨⟨[]⟩, rfl, rfl, fun _ _ => rfl, fun front name back split => by simp at split⟩
  | append_singleton names name ih =>
    rw [List.nodup_append] at distinct
    obtain ⟨group, runs, sofar⟩ :=
      ih distinct.1 (fun n member => known n (List.mem_append_left _ member))
      (fun n member => settable n (List.mem_append_left _ member))
    obtain ⟨bound, found⟩ := known name (by simp)
    have binds : bindOne cls group name = .ok _ :=
      (bindOne_ok_iff found).mpr ⟨settable name (by simp), rfl⟩
    refine ⟨_, ?_, bind_step sofar found (fun member =>
      distinct.2.2 name member name List.mem_cons_self rfl) binds⟩
    rw [List.foldlM_append, runs, ok_bind, List.foldlM_cons, binds]
    rfl

theorem bind_settable {names : List Text} {group group' : Group}
    (known : ∀ name ∈ names, ∃ bound, cls.lookup name = some bound)
    (runs : names.foldlM (bindOne cls) group = .ok group') : ∀ name ∈ names, name ∉ properties := by
  induction names generalizing group with
  | nil => simp
  | cons first names ih =>
    rw [List.foldlM_cons] at runs
    obtain ⟨middle, binds, rest⟩ := bind_ok_iff.mp runs
    obtain ⟨bound, found⟩ := known first List.mem_cons_self
    intro name member
    rcases List.mem_cons.mp member with rfl | later
    · exact ((bindOne_ok_iff found).mp binds).1
    · exact ih (fun n inside => known n (List.mem_cons_of_mem _ inside)) rest name later

theorem known_of_dir {name : Text} (member : name ∈ dirOf (cls.map Prod.fst)) :
    ∃ bound, cls.lookup name = some bound := by
  obtain ⟨entry, inside, rfl⟩ := List.mem_map.mp (mem_dirOf.mp member)
  cases found : cls.lookup entry.1 with
  | some bound => exact ⟨bound, rfl⟩
  | none =>
    have missing := List.lookup_eq_none_iff.mp found entry inside
    simp at missing

end Bind

section Rebind

variable {key : Text}

theorem rebindOne_ok {group group' : Group} {name : Text}
    (runs : rebindOne key group name = .ok group') :
    (∀ original, stripKey key name = some original → original ∉ properties) ∧
      group'.getattr = move (stripKey key) group.getattr name := by
  unfold rebindOne at runs
  cases short : stripKey key name with
  | none =>
    rw [short] at runs
    cases runs
    exact ⟨by simp, by simp [move, short]⟩
  | some original =>
    rw [short] at runs
    cases value : group.getattr name with
    | none => simp [value] at runs
    | some v =>
      simp only [value] at runs
      obtain ⟨writable, rfl⟩ := setattr_ok_iff.mp runs
      refine ⟨fun other same => Option.some.inj same ▸ writable, ?_⟩
      rw [getattr_assign]
      simp [move, short, value]

theorem rebind_ok {names : List Text} {group group' : Group}
    (runs : names.foldlM (rebindOne key) group = .ok group') :
    (∀ name ∈ names, ∀ original, stripKey key name = some original → original ∉ properties) ∧
      group'.getattr = moveAll (stripKey key) group.getattr names := by
  induction names generalizing group with
  | nil =>
    cases runs
    exact ⟨by simp, rfl⟩
  | cons name names ih =>
    rw [List.foldlM_cons] at runs
    obtain ⟨middle, first, rest⟩ := bind_ok_iff.mp runs
    obtain ⟨writable, here⟩ := rebindOne_ok first
    obtain ⟨later, table⟩ := ih rest
    constructor
    · intro other member
      rcases List.mem_cons.mp member with rfl | behind
      · exact writable
      · exact later other behind
    · rw [table, here]
      rfl

theorem rebind_runs {names : List Text} {group : Group}
    (there : ∀ name ∈ names, group.getattr name ≠ none)
    (writable : ∀ name ∈ names, ∀ original, stripKey key name = some original →
      original ∉ properties) :
    ∃ group', names.foldlM (rebindOne key) group = .ok group' := by
  induction names generalizing group with
  | nil => exact ⟨group, rfl⟩
  | cons name names ih =>
    have first : ∃ middle, rebindOne key group name = .ok middle := by
      unfold rebindOne
      cases short : stripKey key name with
      | none => exact ⟨group, rfl⟩
      | some original =>
        obtain ⟨value, found⟩ := Option.ne_none_iff_exists'.mp (there name List.mem_cons_self)
        simp only [found]
        exact ⟨_, setattr_ok_iff.mpr ⟨writable name List.mem_cons_self original short, rfl⟩⟩
    obtain ⟨middle, runs⟩ := first
    have still : ∀ other ∈ names, middle.getattr other ≠ none := by
      intro other later
      rw [(rebindOne_ok runs).2]
      by_cases target : stripKey key name = some other
      · rw [move_target target]
        exact there name List.mem_cons_self
      · rw [move_other target]
        exact there other (List.mem_cons_of_mem _ later)
    obtain ⟨last, rest⟩ :=
      ih still (fun other later => writable other (List.mem_cons_of_mem _ later))
    exact ⟨last, by rw [List.foldlM_cons, runs, ok_bind, rest]⟩

theorem mem_dir {group : Group} {name : Text} :
    name ∈ group.dir ↔ name ∈ ownNames ∨ name ∈ group.assigned.map Prod.fst := by
  rw [Group.dir, mem_dirOf, List.mem_append]

theorem getattr_of_dir {group : Group} {name : Text} (member : name ∈ group.dir) :
    group.getattr name ≠ none := by
  unfold Group.getattr
  rcases mem_dir.mp member with own | assigned
  · cases group.assigned.lookup name with
    | none => simp [own]
    | some value => simp
  · cases found : group.assigned.lookup name with
    | some value => simp
    | none =>
      obtain ⟨entry, inside, rfl⟩ := List.mem_map.mp assigned
      have missing := List.lookup_eq_none_iff.mp found entry inside
      simp at missing

end Rebind

section Spawned

variable (dict : ClassDict)

def ClassDict.boundNames : List Text := (createColocatedWorkerCls dict).map Prod.fst

def ClassDict.allNames : List Text := ownNames ++ dict.boundNames

/-- The methods of the roles can be told apart by their joined names and bound back. -/
structure Unambiguous : Prop where
  /-- No two pairs of key and method have the same joined name. -/
  distinct : (dict.pairs.map (fun pair => joined pair.1 pair.2.name)).Nodup
  /-- Neither a bound name nor what is left of a name without a key is a property. -/
  settable : ∀ name ∈ dict.boundNames, name ∉ properties
  writable : ∀ entry ∈ dict.classes, ∀ rest, joined entry.1 rest ∈ dict.allNames → rest ∉ properties
  /-- A joined name is read before it is overwritten. -/
  ordered : ∀ pair ∈ dict.pairs, joined pair.1 (joined pair.1 pair.2.name) ∈ dict.allNames →
    Text.before (joined pair.1 (joined pair.1 pair.2.name)) (joined pair.1 pair.2.name) = false
  /-- The execute function is not overwritten before it is bound, and what a call needs stays. -/
  executes : ∀ pair ∈ dict.pairs, pair.2.execute.fnName ∈ dict.boundNames →
    Text.before pair.2.execute.fnName (joined pair.1 pair.2.name) = false
  vital : ∀ pair ∈ dict.pairs, ∀ attr ∈ pair.2.vital,
    attr ∈ ownNames ∧ attr ∉ dict.boundNames ∧ joined pair.1 attr ∉ dict.allNames

def PairClear (key : Text) (method : Method) : Prop :=
  (createColocatedWorkerCls dict).lookup (joined key method.name) = some ⟨some key, method⟩ ∧
  ¬(joined key (joined key method.name) ∈ dict.allNames ∧
    Text.before (joined key (joined key method.name)) (joined key method.name) = true) ∧
  ¬(method.execute.fnName ∈ dict.boundNames ∧
    Text.before method.execute.fnName (joined key method.name) = true) ∧
  ∀ attr ∈ method.vital, attr ∈ ownNames ∧ attr ∉ dict.boundNames ∧ joined key attr ∉ dict.allNames

theorem bindWorkerMethod_ok (settable : ∀ name ∈ dict.boundNames, name ∉ properties) :
    ∃ group, bindWorkerMethod (createColocatedWorkerCls dict) = .ok group ∧
      BoundTo (createColocatedWorkerCls dict) (dirOf dict.boundNames) group :=
  bind_run (dirOf_nodup _) (fun _ => known_of_dir) (fun name member =>
    settable name (mem_dirOf.mp member))

variable {dict} {group : Group}
  (new : BoundTo (createColocatedWorkerCls dict) (dirOf dict.boundNames) group)

include new

theorem mem_newDir {name : Text} : name ∈ group.dir ↔ name ∈ dict.allNames := by
  rw [mem_dir, new.assigned, List.mem_reverse, mem_dirOf, ClassDict.allNames, List.mem_append]

theorem getattr_bound {name : Text} {bound : Bound}
    (found : (createColocatedWorkerCls dict).lookup name = some bound) :
    ∃ execute, group.getattr name = some (.method name bound.method execute) ∧
      (execute = true ↔ ¬(bound.method.execute.fnName ∈ dict.boundNames ∧
        Text.before bound.method.execute.fnName name = true)) := by
  have member : name ∈ dirOf dict.boundNames := by
    obtain ⟨front, back, split, -⟩ := List.lookup_eq_some_iff.mp found
    rw [mem_dirOf, ClassDict.boundNames, split]
    simp
  obtain ⟨front, back, split⟩ := List.append_of_mem member
  obtain ⟨bound', found', value⟩ := new.bound front name back split
  obtain rfl : bound' = bound := Option.some.inj (found'.symm.trans found)
  refine ⟨_, value, ?_⟩
  rw [decide_eq_true_eq, mem_front_iff split]

theorem getattr_new {name : Text} (value : Value) (holds : group.getattr name = some value) :
    (name ∈ ownNames ∧ name ∉ dict.boundNames ∧ value = .own name) ∨
      ∃ bound execute, (createColocatedWorkerCls dict).lookup name = some bound ∧
        value = .method name bound.method execute := by
  by_cases member : name ∈ dirOf dict.boundNames
  · obtain ⟨front, back, split⟩ := List.append_of_mem member
    obtain ⟨bound, found, here⟩ := new.bound front name back split
    exact .inr ⟨bound, _, found, Option.some.inj (holds.symm.trans here)⟩
  · rw [new.other name member] at holds
    left
    unfold Group.getattr at holds
    simp only [List.lookup_nil] at holds
    split at holds
    · rename_i own
      exact ⟨List.contains_iff_mem.mp own, fun bound => member (mem_dirOf.mpr bound),
        (Option.some.inj holds).symm⟩
    · cases holds

theorem getattr_own {name attr : Text} (holds : group.getattr name = some (.own attr)) :
    name = attr ∧ name ∈ ownNames ∧ name ∉ dict.boundNames := by
  rcases getattr_new new _ holds with ⟨own, free, same⟩ | ⟨_, _, _, impossible⟩
  · cases same
    exact ⟨rfl, own, free⟩
  · cases impossible

theorem getattr_method {name method : Text} {info : Method} {execute : Bool}
    (holds : group.getattr name = some (.method method info execute)) : name = method := by
  rcases getattr_new new _ holds with ⟨-, -, impossible⟩ | ⟨_, _, _, same⟩
  · cases impossible
  · cases same
    rfl

variable {key : Text} {spawned : Group} (runs : rebindActorMethods group key = .ok spawned)

include runs

theorem spawned_untouched {name : Text} (never : joined key name ∉ dict.allNames) :
    spawned.getattr name = group.getattr name := by
  rw [(rebind_ok runs).2]
  refine moveAll_untouched (fun other member short => never ?_)
  rw [← stripKey_iff.mp short]
  exact (mem_newDir new).mp member

theorem spawned_copied {name : Text} (copied : joined key name ∈ dict.allNames) :
    ∃ longer, spawned.getattr name = group.getattr longer ∧ name.length < longer.length := by
  rw [(rebind_ok runs).2]
  exact moveAll_copied stripKey_shorter ((mem_newDir new).mpr copied) (stripKey_iff.mpr rfl)

/-- It is the form itself exactly if that is not overwritten before. -/
theorem spawned_read {name : Text} (copied : joined key name ∈ dict.allNames) :
    if joined key (joined key name) ∈ dict.allNames ∧
        Text.before (joined key (joined key name)) (joined key name) = true then
      ∃ longer, spawned.getattr name = group.getattr longer ∧
        (joined key name).length < longer.length
    else spawned.getattr name = group.getattr (joined key name) := by
  obtain ⟨front, back, split⟩ := List.append_of_mem ((mem_newDir new).mpr copied)
  have distinct : (front ++ joined key name :: back).Nodup := split ▸ dirOf_nodup _
  have once : ∀ other ∈ back, stripKey key other ≠ some name := by
    intro other later short
    rw [stripKey_iff.mp short] at later
    exact (List.nodup_cons.mp (List.nodup_append.mp distinct).2.1).1 later
  have value : spawned.getattr name =
      moveAll (stripKey key) group.getattr front (joined key name) := by
    rw [(rebind_ok runs).2, split]
    exact moveAll_read (stripKey_iff.mpr rfl) once
  have earlier : joined key (joined key name) ∈ front ↔
    joined key (joined key name) ∈ dict.allNames ∧
      Text.before (joined key (joined key name)) (joined key name) = true := by
    rw [mem_front_iff split, ← mem_dirOf, ← Group.dir, mem_newDir new]
  rw [value]
  split
  · rename_i overwritten
    exact moveAll_copied stripKey_shorter (earlier.mpr overwritten) (stripKey_iff.mpr rfl)
  · rename_i first
    refine moveAll_untouched (fun other member short => first (earlier.mp ?_))
    rwa [← stripKey_iff.mp short]

theorem pairClear_of_call {method : Method} (member : (key, method) ∈ dict.pairs)
    (calls : spawned.call (createColocatedWorkerCls dict) method.name = some ⟨some key, method⟩) :
    PairClear dict key method := by
  have read := spawned_read new runs (List.mem_append_right _ (mem_names_of_pair member))
  unfold Group.call at calls
  split at calls
  · rename_i name info holds
    split at calls
    · rename_i intact
      obtain ⟨rfl, -⟩ := lookup_pair calls
      have clean : ¬(joined key (joined key method.name) ∈ dict.allNames ∧
          Text.before (joined key (joined key method.name)) (joined key method.name) = true) := by
        intro overwritten
        rw [if_pos overwritten] at read
        obtain ⟨longer, value, size⟩ := read
        rw [value] at holds
        rw [getattr_method new holds] at size
        exact Nat.lt_irrefl _ size
      rw [if_neg clean] at read
      obtain ⟨execute, value, hit⟩ := getattr_bound new calls
      rw [read, value] at holds
      cases holds
      refine ⟨calls, clean, hit.mp rfl, ?_⟩
      intro attr needed
      have own := intact attr needed
      by_cases copied : joined key attr ∈ dict.allNames
      · obtain ⟨longer, source, size⟩ := spawned_copied new runs copied
        rw [source] at own
        rw [(getattr_own new own).1] at size
        exact absurd size (Nat.lt_irrefl _)
      · rw [spawned_untouched new runs copied] at own
        obtain ⟨-, there, free⟩ := getattr_own new own
        exact ⟨there, free, copied⟩
    · cases calls
  · cases calls

theorem call_of_pairClear {method : Method} (member : (key, method) ∈ dict.pairs)
    (clear : PairClear dict key method) :
    spawned.call (createColocatedWorkerCls dict) method.name = some ⟨some key, method⟩ := by
  have read := spawned_read new runs (List.mem_append_right _ (mem_names_of_pair member))
  obtain ⟨found, clean, executes, vital⟩ := clear
  rw [if_neg clean] at read
  obtain ⟨execute, value, hit⟩ := getattr_bound new found
  obtain rfl : execute = true := hit.mpr executes
  have intact : ∀ attr ∈ method.vital, spawned.getattr attr = some (.own attr) := by
    intro attr needed
    obtain ⟨own, free, never⟩ := vital attr needed
    rw [spawned_untouched new runs never, new.other attr (fun bound => free (mem_dirOf.mp bound))]
    simp [Group.getattr, own]
  unfold Group.call
  rw [read, value]
  simp only
  rw [if_pos intact, found]

theorem call_iff {method : Method} (member : (key, method) ∈ dict.pairs) :
    spawned.call (createColocatedWorkerCls dict) method.name = some ⟨some key, method⟩ ↔
      PairClear dict key method :=
  ⟨pairClear_of_call new runs member, call_of_pairClear new runs member⟩

end Spawned

section Dispatch

variable {dict : ClassDict}

/-- Calling a registered method on the group of its role runs it on the worker of that role. -/
def Dispatches (dict : ClassDict) : Prop :=
  ∃ groups, spawnAll dict = .ok groups ∧ ∀ entry ∈ dict.classes, ∃ group,
    (entry.1, group) ∈ groups ∧
    ∀ method ∈ entry.2,
      group.call (createColocatedWorkerCls dict) method.name = some ⟨some entry.1, method⟩

theorem mem_spawn {cls : WorkerDict} {keys : List Text} {groups : List (Text × Group)}
    (spawns : spawn cls keys = .ok groups)
    {key : Text} {group : Group} (member : (key, group) ∈ groups) :
    spawnOne cls key = .ok group := by
  unfold spawn at spawns
  induction keys generalizing groups with
  | nil =>
    cases spawns
    cases member
  | cons first keys ih =>
    simp only [List.mapM_cons, bind_ok_iff, pure_eq_ok, Except.ok.injEq] at spawns
    obtain ⟨_, ⟨made, one, rfl⟩, rest, others, rfl⟩ := spawns
    rcases List.mem_cons.mp member with same | later
    · obtain ⟨rfl, rfl⟩ := Prod.mk.inj same
      exact one
    · exact ih others later

theorem Dispatches.clear (right : Dispatches dict) :
    (∀ name ∈ dict.boundNames, name ∉ properties) ∧
      (∀ entry ∈ dict.classes, ∀ rest, joined entry.1 rest ∈ dict.allNames → rest ∉ properties) ∧
      ∀ pair ∈ dict.pairs, PairClear dict pair.1 pair.2 := by
  obtain ⟨groups, spawns, calls⟩ := right
  obtain ⟨outer, binds, spawns⟩ := bind_ok_iff.mp spawns
  have settable : ∀ name ∈ dict.boundNames, name ∉ properties := fun name member =>
    bind_settable (fun _ => known_of_dir) binds name (mem_dirOf.mpr member)
  obtain ⟨new, made, holds⟩ := bindWorkerMethod_ok dict settable
  have rebinds : ∀ {key group}, (key, group) ∈ groups → rebindActorMethods new key = .ok group := by
    intro key group member
    have one := mem_spawn spawns member
    rwa [spawnOne, made, ok_bind] at one
  refine ⟨settable, ?_, ?_⟩
  · intro entry inside rest member
    obtain ⟨group, returned, -⟩ := calls entry inside
    exact (rebind_ok (rebinds returned)).1 _ ((mem_newDir holds).mpr member) rest
      (stripKey_iff.mpr rfl)
  · intro pair member
    obtain ⟨entry, inside, same, there⟩ :=
      mem_pairs.mp (show (pair.1, pair.2) ∈ dict.pairs from member)
    obtain ⟨group, returned, right⟩ := calls entry inside
    have call := right pair.2 there
    rw [same] at call returned
    exact (call_iff holds (rebinds returned) member).mp call

theorem Dispatches.joined_injective (right : Dispatches dict) {a b : Text × Method}
    (first : a ∈ dict.pairs)
    (second : b ∈ dict.pairs) (same : joined a.1 a.2.name = joined b.1 b.2.name) : a = b := by
  obtain ⟨k, m⟩ := a
  obtain ⟨k', m'⟩ := b
  have found := (right.clear.2.2 _ first).1
  rw [same, (right.clear.2.2 _ second).1] at found
  cases found
  rfl

theorem dispatches_iff (dict : ClassDict) : Dispatches dict ↔ Unambiguous dict := by
  constructor
  · intro right
    obtain ⟨settable, writable, conditions⟩ := right.clear
    refine ⟨?_, settable, writable, ?_, ?_, ?_⟩
    · exact List.Nodup.map_on
        (fun a first b second same => right.joined_injective first second same) (pairs_nodup dict)
    · intro pair member there
      exact Bool.eq_false_iff.mpr (fun first => (conditions pair member).2.1 ⟨there, first⟩)
    · intro pair member there
      exact Bool.eq_false_iff.mpr (fun first => (conditions pair member).2.2.1 ⟨there, first⟩)
    · exact fun pair member => (conditions pair member).2.2.2
  · intro clear
    obtain ⟨new, made, holds⟩ := bindWorkerMethod_ok dict clear.settable
    have spawnsOne : ∀ key ∈ dict.classes.map Prod.fst, ∃ entry : Text × Group,
        (do let group ← spawnOne (createColocatedWorkerCls dict) key;
            return (key, group) : Py (Text × Group)) = .ok entry ∧
        (entry.1 = key ∧ rebindActorMethods new key = .ok entry.2) := by
      intro key member
      obtain ⟨entry, inside, rfl⟩ := List.mem_map.mp member
      obtain ⟨group, runs⟩ :=
        rebind_runs (fun name => getattr_of_dir) (fun name there original short =>
        clear.writable entry inside original (by
          rw [← stripKey_iff.mp short]
          exact (mem_newDir holds).mp there))
      refine ⟨(entry.1, group), ?_, rfl, runs⟩
      rw [spawnOne, made, ok_bind, rebindActorMethods, runs]
      rfl
    obtain ⟨groups, spawns, each⟩ := mapM_forall₂ _ _ _ spawnsOne
    refine ⟨groups, ?_, ?_⟩
    · rw [spawnAll, made, ok_bind]
      exact spawns
    · intro entry inside
      obtain ⟨i, hi, atKey⟩ := List.mem_iff_getElem.mp (List.mem_map_of_mem (f := Prod.fst) inside)
      obtain ⟨same, runs⟩ :=
        (List.forall₂_iff_get.mp each).2 i hi ((List.Forall₂.length_eq each) ▸ hi)
      simp only [List.get_eq_getElem] at same runs
      rw [atKey] at same runs
      refine ⟨_, by rw [← same]; exact List.getElem_mem _, ?_⟩
      intro method there
      have member : (entry.1, method) ∈ dict.pairs := mem_pairs.mpr ⟨entry, inside, rfl, there⟩
      refine (call_iff holds runs member).mpr ⟨lookup_of_pair clear.distinct member, ?_, ?_,
        clear.vital _ member⟩
      · rintro ⟨known, first⟩
        rw [clear.ordered _ member known] at first
        cases first
      · rintro ⟨known, first⟩
        rw [clear.executes _ member known] at first
        cases first

def workerMethods : List Method :=
  [⟨"execute_func_rank_zero".toList, .rankZero, []⟩,
    ⟨"execute_with_func_generator".toList, .all, ["_world_size".toList]⟩]

def withWorker (name : String) : List Method :=
  workerMethods ++ [⟨name.toList, .all, ["_world_size".toList]⟩]

theorem withWorker_nodup {name : String} (fresh : name.toList ∉ workerMethods.map Method.name) :
    ((withWorker name).map Method.name).Nodup := by
  rw [withWorker, List.map_append, List.nodup_append]
  refine ⟨by decide +kernel, List.nodup_singleton _, ?_⟩
  rintro a inside b same rfl
  rw [List.map_singleton, List.mem_singleton] at same
  rw [same] at inside
  exact fresh inside

theorem overlapping_keys : (["actor".toList, "actor_rollout".toList]).Nodup := by decide +kernel

theorem overlapping_fresh : "rollout_init_model".toList ∉ workerMethods.map Method.name ∧
    "init_model".toList ∉ workerMethods.map Method.name := by decide +kernel

/-- Two roles with methods that get the same joined name. -/
def overlapping : ClassDict where
  base := workerMethods
  classes := [("actor".toList, withWorker "rollout_init_model"),
    ("actor_rollout".toList, withWorker "init_model")]
  keys := overlapping_keys
  methods entry inside := by
    rcases List.mem_cons.mp inside with rfl | rest
    · exact withWorker_nodup overlapping_fresh.1
    · rw [List.mem_singleton.mp rest]
      exact withWorker_nodup overlapping_fresh.2

/-- Of `rollout_init_model` on `actor` and `init_model` on `actor_rollout` one runs in place of the
other. -/
theorem overlapping_misdirected : ¬Dispatches overlapping := by
  intro right
  have first : ("actor".toList, Method.mk "rollout_init_model".toList .all ["_world_size".toList]) ∈
    overlapping.pairs :=
    mem_pairs.mpr ⟨_, List.mem_cons_self, rfl, by simp [withWorker]⟩
  have second : ("actor_rollout".toList,
    Method.mk "init_model".toList .all ["_world_size".toList]) ∈ overlapping.pairs :=
    mem_pairs.mpr ⟨_, List.mem_cons_of_mem _ List.mem_cons_self, rfl, by simp [withWorker]⟩
  have same := right.joined_injective first second (by decide +kernel)
  exact absurd (congrArg Prod.fst same) (by decide +kernel)

end Dispatch

end Verl.SingleController
