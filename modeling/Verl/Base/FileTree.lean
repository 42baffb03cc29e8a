import Mathlib.Data.List.Basic
import Mathlib.Data.List.Infix

/-! Trees of folders and files. A location is the list of the names that lead to it from the root.
An operation that the file system refuses has no result. -/
namespace Verl.FileTree

inductive Node (κ : Type) where
  | folder
  | file (content : κ)

abbrev Tree (N κ : Type) := List N → Option (Node κ)

variable {N κ : Type}

def isFolder : Option (Node κ) → Bool
  | some .folder => true
  | _ => false

def isFile : Option (Node κ) → Bool
  | some (.file _) => true
  | _ => false

@[simp] theorem isFolder_iff {node : Option (Node κ)} :
    isFolder node = true ↔ node = some .folder := by
  unfold isFolder
  split <;> simp_all

@[simp] theorem isFile_folder : isFile (some (.folder : Node κ)) = false := rfl

inductive Op (N κ : Type) where
  /-- With everything below the folder; what is not a folder stays. -/
  | rmtree (location : List N)
  /-- With the folders above it; those that are there stay. -/
  | makedirs (location : List N)
  | write (location : List N) (content : κ)

variable [DecidableEq N]

namespace Op

def exec : Op N κ → Tree N κ → Option (Tree N κ)
  | .rmtree location, tree =>
    if isFolder (tree location) then
      some (fun l => if location <+: l then none else tree l)
    else some tree
  | .makedirs location, tree =>
    if location.inits.any (fun l => isFile (tree l)) then none
    else some (fun l => if l <+: location then some .folder else tree l)
  | .write location content, tree =>
    if isFolder (tree location.dropLast) ∧ ¬isFolder (tree location) then
      some (fun l => if l = location then some (.file content) else tree l)
    else none

def removes (l : List N) : Op N κ → Prop
  | .rmtree location => location <+: l
  | .makedirs _ => False
  | .write _ _ => False

def makes (l : List N) : Op N κ → Prop
  | .rmtree _ => False
  | .makedirs location => l <+: location
  | .write location _ => l = location

end Op

def execAll (ops : List (Op N κ)) (tree : Tree N κ) : Option (Tree N κ) :=
  ops.foldlM (fun tree op => op.exec tree) tree

section Step

variable {op : Op N κ} {tree tree' : Tree N κ} {location l : List N} {content : κ}

theorem exec_rmtree (run : (Op.rmtree location).exec tree = some tree') (keeps : ¬location <+: l) :
    tree' l = tree l := by
  rw [Op.exec] at run
  split at run
  · obtain rfl := Option.some.inj run
    exact if_neg keeps
  · obtain rfl := Option.some.inj run
    rfl

theorem exec_makedirs (run : (Op.makedirs location).exec tree = some tree') (l : List N) :
    tree' l = if l <+: location then some .folder else tree l := by
  rw [Op.exec] at run
  split at run
  · cases run
  · exact congrFun (Option.some.inj run).symm l

theorem exec_write (run : (Op.write location content).exec tree = some tree') (l : List N) :
    tree location ≠ some .folder ∧ tree' l = if l = location then some (.file content)
      else tree l := by
  rw [Op.exec] at run
  split at run
  · rename_i allowed
    exact ⟨fun folder => allowed.2 (isFolder_iff.mpr folder), congrFun (Option.some.inj run).symm l⟩
  · cases run

theorem isSome_of_makes (run : op.exec tree = some tree') (makes : op.makes l) :
    (tree' l).isSome := by
  cases op with
  | rmtree location => cases makes
  | makedirs location =>
    rw [exec_makedirs run l, if_pos (show l <+: location from makes), Option.isSome_some]
  | write location content =>
    rw [(exec_write run l).2, if_pos (show l = location from makes), Option.isSome_some]

theorem isSome_exec (run : op.exec tree = some tree') (keeps : ¬op.removes l)
    (there : (tree l).isSome) : (tree' l).isSome := by
  cases op with
  | rmtree location => rwa [exec_rmtree run keeps]
  | makedirs location =>
    rw [exec_makedirs run l]
    split
    · rfl
    · exact there
  | write location content =>
    rw [(exec_write run l).2]
    split
    · rfl
    · exact there

theorem folder_exec (run : op.exec tree = some tree') (keeps : ¬op.removes l)
    (there : tree l = some .folder) :
    tree' l = some .folder := by
  cases op with
  | rmtree location => rwa [exec_rmtree run keeps]
  | makedirs location =>
    rw [exec_makedirs run l]
    split
    · rfl
    · exact there
  | write location content =>
    obtain ⟨free, same⟩ := exec_write run l
    rw [same]
    split
    · rename_i here
      exact absurd (here ▸ there) free
    · exact there

/-- Nothing but the operations that make a location changes it for anything else than nothing. -/
theorem exec_of_not_makes (run : op.exec tree = some tree') (other : ¬op.makes l) :
    tree' l = none ∨ tree' l = tree l := by
  cases op with
  | rmtree location =>
    rw [Op.exec] at run
    split at run
    · obtain rfl := Option.some.inj run
      exact (ite_eq_or_eq _ _ _)
    · exact .inr (congrFun (Option.some.inj run).symm l)
  | makedirs location =>
    rw [exec_makedirs run l]
    exact .inr (if_neg other)
  | write location content =>
    rw [(exec_write run l).2]
    exact .inr (if_neg other)

theorem rmtree_folder (run : (Op.rmtree location).exec tree = some tree')
    (folder : tree location = some .folder ∨ tree location = none) :
    tree' location = none := by
  rw [Op.exec] at run
  rcases folder with folder | absent
  · rw [if_pos (isFolder_iff.mpr folder)] at run
    obtain rfl := Option.some.inj run
    exact if_pos (List.prefix_refl location)
  · rw [absent] at run
    obtain rfl := Option.some.inj run
    exact absent

end Step

section Run

variable {ops : List (Op N κ)} {tree tree' : Tree N κ} {location l : List N} {content : κ}

theorem execAll_cons {op : Op N κ} :
    execAll (op :: ops) tree = some tree' ↔
    ∃ next, op.exec tree = some next ∧ execAll ops next = some tree' := by
  simp [execAll, Option.bind_eq_some_iff]

theorem execAll_append {before after : List (Op N κ)} :
    execAll (before ++ after) tree = some tree' ↔ ∃ middle, execAll before tree = some middle ∧
      execAll after middle = some tree' := by
  simp [execAll, List.foldlM_append, Option.bind_eq_some_iff]

theorem isSome_execAll (run : execAll ops tree = some tree') (keeps : ∀ op ∈ ops, ¬op.removes l)
    (there : (tree l).isSome) : (tree' l).isSome := by
  induction ops generalizing tree with
  | nil =>
    cases run
    exact there
  | cons op ops ih =>
    obtain ⟨next, first, rest⟩ := execAll_cons.mp run
    exact ih rest (fun o member => keeps o (List.mem_cons_of_mem op member))
      (isSome_exec first (keeps op List.mem_cons_self) there)

theorem folder_execAll (run : execAll ops tree = some tree') (keeps : ∀ op ∈ ops, ¬op.removes l)
    (there : tree l = some .folder) :
    tree' l = some .folder := by
  induction ops generalizing tree with
  | nil =>
    cases run
    exact there
  | cons op ops ih =>
    obtain ⟨next, first, rest⟩ := execAll_cons.mp run
    exact ih rest (fun o member => keeps o (List.mem_cons_of_mem op member))
      (folder_exec first (keeps op List.mem_cons_self) there)

theorem isSome_of_mem (run : execAll ops tree = some tree') (keeps : ∀ op ∈ ops, ¬op.removes l)
    {op : Op N κ} (member : op ∈ ops) (makes : op.makes l) : (tree' l).isSome := by
  obtain ⟨before, after, rfl⟩ := List.append_of_mem member
  obtain ⟨middle, -, rest⟩ := execAll_append.mp run
  obtain ⟨next, made, rest⟩ := execAll_cons.mp rest
  exact isSome_execAll rest
    (fun o later => keeps o (List.mem_append_right _ (List.mem_cons_of_mem op later)))
    (isSome_of_makes made makes)

theorem none_execAll (run : execAll ops tree = some tree') (others : ∀ op ∈ ops, ¬op.makes l)
    (absent : tree l = none) : tree' l = none := by
  induction ops generalizing tree with
  | nil =>
    cases run
    exact absent
  | cons op ops ih =>
    obtain ⟨next, first, rest⟩ := execAll_cons.mp run
    refine ih rest (fun o member => others o (List.mem_cons_of_mem op member)) ?_
    rcases exec_of_not_makes first (others op List.mem_cons_self) with gone | same
    · exact gone
    · rw [same, absent]

/-- A folder that is removed and not made again is gone, whatever is done before and after. -/
theorem none_of_rmtree_mem (run : execAll ops tree = some tree')
    (others : ∀ op ∈ ops, ¬op.makes location)
    (folder : tree location = some .folder ∨ tree location = none)
    (member : Op.rmtree location ∈ ops) : tree' location = none := by
  induction ops generalizing tree with
  | nil => cases member
  | cons op ops ih =>
    obtain ⟨next, first, rest⟩ := execAll_cons.mp run
    have later : ∀ o ∈ ops, ¬o.makes location :=
      fun o inside => others o (List.mem_cons_of_mem op inside)
    rcases List.mem_cons.mp member with rfl | inside
    · exact none_execAll rest later (rmtree_folder first folder)
    · refine ih rest later ?_ inside
      rcases exec_of_not_makes first (others op List.mem_cons_self) with gone | same
      · exact .inr gone
      · rwa [same]

end Run

end Verl.FileTree
