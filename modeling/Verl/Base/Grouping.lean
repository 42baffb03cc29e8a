import Mathlib.Algebra.BigOperators.Field
import Mathlib.Algebra.CharZero.Defs
import Mathlib.Tactic.FieldSimp
import Mathlib.Tactic.Ring
import Verl.Base.Dict
import Verl.Base.Reindex

/-! Values collected under their keys, as in a `defaultdict(list)`, and lists that are
overwritten entry by entry. What is collected under a key depends on the order of the
entries only up to a permutation. The members of a group are scored against the mean of the
others. -/
namespace Verl

section Collect

variable {κ α β : Type} [DecidableEq κ]

def appendTo (table : List (κ × List α)) (key : κ) (value : α) : List (κ × List α) :=
  match table with
  | [] => [(key, [value])]
  | (name, values) :: rest =>
    if key = name then
      (name, values ++ [value]) :: rest
    else (name, values) :: appendTo rest key value

def collect (entries : List (κ × α)) : List (κ × List α) :=
  entries.foldl (fun table entry => appendTo table entry.1 entry.2) []

def valuesOf (key : κ) (entries : List (κ × α)) : List α :=
  (entries.filter (fun entry => entry.1 = key)).map Prod.snd

def itemOf [ToString κ] (table : List (κ × β)) (key : κ) : Py β :=
  match table.lookup key with
  | some value => .ok value
  | none => .error (.key (toString key))

theorem lookup_appendTo (table : List (κ × List α)) (key other : κ) (value : α) :
    (appendTo table key value).lookup other =
      if other = key then
        some ((table.lookup other).getD [] ++ [value])
      else table.lookup other := by
  induction table with
  | nil =>
    by_cases same : other = key
    · simp [appendTo, same]
    · simp [appendTo, same, List.lookup_cons, beq_eq_false_iff_ne.mpr same]
  | cons first rest ih =>
    obtain ⟨name, values⟩ := first
    unfold appendTo
    by_cases here : key = name
    · subst here
      by_cases same : other = key
      · simp [same]
      · simp [same, List.lookup_cons, beq_eq_false_iff_ne.mpr same]
    · rw [if_neg here]
      by_cases first : other = name
      · subst first
        simp [Ne.symm here]
      · rw [List.lookup_cons, List.lookup_cons, beq_eq_false_iff_ne.mpr first]
        exact ih

theorem valuesOf_append (key : κ) (front back : List (κ × α)) :
    valuesOf key (front ++ back) = valuesOf key front ++ valuesOf key back := by
  simp [valuesOf]

theorem valuesOf_map (f : α → β) (key : κ) (entries : List (κ × α)) :
    valuesOf key (entries.map (fun entry => (entry.1, f entry.2))) =
      (valuesOf key entries).map f := by
  simp [valuesOf, List.filter_map, Function.comp_def]

theorem valuesOf_perm (key : κ) {a b : List (κ × α)} (perm : a.Perm b) :
    (valuesOf key a).Perm (valuesOf key b) :=
  (perm.filter _).map _

theorem mem_of_mem_valuesOf {key : κ} {entries : List (κ × α)} {value : α}
    (member : value ∈ valuesOf key entries) : (key, value) ∈ entries := by
  obtain ⟨entry, kept, rfl⟩ := List.mem_map.mp member
  obtain ⟨inside, same⟩ := List.mem_filter.mp kept
  rw [← of_decide_eq_true same]
  exact inside

theorem valuesOf_zip_ne_nil {key : κ} {keys : List κ} {xs : List α} (same : keys.length = xs.length)
    (member : key ∈ keys) : valuesOf key (keys.zip xs) ≠ [] := by
  rw [← List.map_fst_zip (Nat.le_of_eq same)] at member
  obtain ⟨entry, inside, rfl⟩ := List.mem_map.mp member
  apply List.ne_nil_of_mem (a := entry.2)
  exact List.mem_map.mpr ⟨entry, List.mem_filter.mpr ⟨inside, by simp⟩, rfl⟩

theorem lookup_collect (key : κ) (entries : List (κ × α)) :
    (collect entries).lookup key = if valuesOf key entries = [] then none
      else some (valuesOf key entries) := by
  induction entries using List.reverseRecOn with
  | nil => rfl
  | append_singleton front entry ih =>
    have last : collect (front ++ [entry]) = appendTo (collect front) entry.1 entry.2 := by
      simp [collect]
    rw [last, lookup_appendTo, valuesOf_append, ih]
    by_cases same : key = entry.1
    · have own : valuesOf key [entry] = [entry.2] := by simp [valuesOf, same]
      have before : ((if valuesOf key front = [] then none
        else some (valuesOf key front)).getD []) =
          valuesOf key front := by
        split
        case isTrue none => exact none.symm
        case isFalse => rfl
      rw [if_pos same, own, before]
      simp
    · have other : valuesOf key [entry] = [] := by simp [valuesOf, Ne.symm same]
      rw [if_neg same, other, List.append_nil]

theorem keys_appendTo (table : List (κ × List α)) (key : κ) (value : α) :
    (appendTo table key value).map Prod.fst =
    if key ∈ table.map Prod.fst then table.map Prod.fst else table.map Prod.fst ++ [key] := by
  induction table with
  | nil => rfl
  | cons first rest ih =>
    obtain ⟨name, values⟩ := first
    unfold appendTo
    by_cases here : key = name
    · simp [here]
    · rw [if_neg here, List.map_cons, ih]
      by_cases later : key ∈ rest.map Prod.fst
      · simp only [List.map_cons, List.mem_cons, later, or_true, if_true]
      · simp only [List.map_cons, List.mem_cons, later, here, or_self, if_false, List.cons_append]

theorem nodup_collect (entries : List (κ × α)) : ((collect entries).map Prod.fst).Nodup := by
  induction entries using List.reverseRecOn with
  | nil => exact List.nodup_nil
  | append_singleton front entry ih =>
    have last : collect (front ++ [entry]) = appendTo (collect front) entry.1 entry.2 := by
      simp [collect]
    rw [last, keys_appendTo]
    split
    case isTrue => exact ih
    case isFalse absent =>
      exact List.nodup_append.mpr ⟨ih, List.nodup_singleton _, fun a member b hb h => by
        rw [h, List.mem_singleton.mp hb] at member
        exact absent member⟩

theorem entry_collect {entries : List (κ × α)} {entry : κ × List α}
    (member : entry ∈ collect entries) :
    entry.2 = valuesOf entry.1 entries ∧ entry.2 ≠ [] := by
  have found := Dict.lookup_of_mem (nodup_collect entries) member
  rw [lookup_collect] at found
  split at found
  case isTrue => cases found
  case isFalse some =>
    have values := Option.some.inj found
    exact ⟨values.symm, values ▸ some⟩

end Collect

section Overwrite

variable {κ α : Type}

/-- A loop that rewrites each entry of a list with the help of the key that stands at the
same place. -/
theorem foldlM_overwrite {body : List α → Nat → Py (List α)} {f : κ → α → α}
    {keys : List κ} {xs : List α} (same : keys.length = xs.length)
    (step : ∀ done x rest key, keys[done.length]? = some key →
      body (done ++ x :: rest) done.length = .ok (done ++ f key x :: rest)) :
    (List.range xs.length).foldlM body xs = .ok (List.zipWith f keys xs) := by
  suffices from_here : ∀ (rest : List α) (later : List κ) (done : List α),
    later = keys.drop done.length →
      later.length = rest.length →
      (List.range' done.length rest.length).foldlM body (done ++ rest) =
        .ok (done ++ List.zipWith f later rest) by
    rw [List.range_eq_range']
    exact from_here xs keys [] rfl same
  intro rest
  induction rest with
  | nil =>
    intro later done _ _
    simp
  | cons x rest ih =>
    intro later done place length
    cases later with
    | nil => cases length
    | cons key later =>
      have here : keys[done.length]? = some key := by
        rw [← List.head?_drop, ← place]
        rfl
      have next : later = keys.drop (done ++ [f key x]).length := by
        rw [List.length_append, List.length_singleton, ← List.drop_drop, ← place]
        rfl
      have tail := ih later (done ++ [f key x]) next (Nat.succ.inj length)
      rw [List.length_append, List.length_singleton, List.append_assoc, List.append_assoc] at tail
      rw [List.length_cons, List.range'_succ, List.foldlM_cons, step done x rest key here, ok_bind]
      exact tail

end Overwrite

section Permuted

variable {α β : Type u} {f : α → Py β} {xs : List α}

theorem mapM_error {error : PyError} (uniform : ∀ x ∈ xs, ∀ e, f x = .error e → e = error)
    (fails : ¬∀ x ∈ xs, ∃ y, f x = .ok y) : xs.mapM f = .error error := by
  cases run : xs.mapM f with
  | ok ys => exact absurd (fun x member => exists_of_mapM_ok run member) fails
  | error e =>
    induction xs with
    | nil => cases run
    | cons x xs ih =>
      rw [List.mapM_cons] at run
      cases head : f x with
      | error first =>
        rw [head] at run
        cases run
        exact congrArg Except.error (uniform x List.mem_cons_self _ head)
      | ok y =>
        rw [head, ok_bind] at run
        cases tail : xs.mapM f with
        | ok ys =>
          rw [tail] at run
          cases run
        | error later =>
          rw [tail] at run
          cases run
          apply ih (fun x member => uniform x (List.mem_cons_of_mem _ member)) _ tail
          intro all
          apply fails
          intro x' member
          cases member with
          | head => exact ⟨y, head⟩
          | tail _ inside => exact all x' inside

theorem forall₂_pick {R : α → β → Prop} {ys : List β} (related : List.Forall₂ R xs ys)
    (p : List Nat) :
    List.Forall₂ R (pick xs p) (pick ys p) := by
  have same := related.length_eq
  induction p with
  | nil => exact .nil
  | cons i p ih =>
    by_cases inside : i < xs.length
    · rw [pick_cons inside, pick_cons (same ▸ inside)]
      exact .cons (related.get inside (same ▸ inside)) ih
    · have past := Nat.le_of_not_lt inside
      rwa [pick_skip past, pick_skip (same ▸ past)]

theorem mapM_pick {error : PyError} (uniform : ∀ x ∈ xs, ∀ e, f x = .error e → e = error)
    {p : List Nat} (perm : p.Perm (List.range xs.length)) :
    (pick xs p).mapM f = (xs.mapM f).map (fun ys => pick ys p) := by
  have members : (pick xs p).Perm xs := pick_perm perm rfl
  by_cases total : ∀ x ∈ xs, ∃ y, f x = .ok y
  · obtain ⟨ys, run, -⟩ := mapM_forall₂ f (fun _ _ => True) xs (by
      intro x member
      obtain ⟨y, value⟩ := total x member
      exact ⟨y, value, trivial⟩)
    rw [run]
    exact mapM_ok_iff.mpr (forall₂_pick (mapM_ok_iff.mp run) p)
  · have partly : ¬∀ x ∈ pick xs p, ∃ y, f x = .ok y := by
      intro all
      exact total (fun x member => all x (members.mem_iff.mpr member))
    rw [mapM_error uniform total,
      mapM_error (fun x member => uniform x (members.mem_iff.mp member)) partly]
    rfl

end Permuted

section LeaveOneOut

open Finset

theorem cast_sub_one_ne_zero {K : Type} [Field K] [CharZero K] {n : Nat} (many : 2 ≤ n) :
    (n : K) - 1 ≠ 0 := by
  intro single
  have one : (n : K) = 1 := sub_eq_zero.mp single
  rw [Nat.cast_eq_one] at one
  omega

variable {ι K : Type} [DecidableEq ι] [Field K]

def leaveOneOut (score : ι → K) (group : Finset ι) (i : ι) : K :=
  score i - (∑ j ∈ group.erase i, score j) / (group.card - 1)

variable [CharZero K] {score : ι → K} {group : Finset ι}

theorem leaveOneOut_eq (many : 2 ≤ group.card) {i : ι} (member : i ∈ group) :
    leaveOneOut score group i = (score i * group.card - ∑ j ∈ group,
      score j) / (group.card - 1) := by
  have others := cast_sub_one_ne_zero (K := K) many
  rw [leaveOneOut, ← add_sum_erase group score member]
  field_simp
  ring

theorem sum_leaveOneOut (many : 2 ≤ group.card) : ∑ i ∈ group, leaveOneOut score group i = 0 := by
  have each : ∑ i ∈ group, leaveOneOut score group i =
      ∑ i ∈ group, (score i * group.card - ∑ j ∈ group, score j) / (group.card - 1) :=
    sum_congr rfl (fun i member => leaveOneOut_eq many member)
  rw [each, ← sum_div, sum_sub_distrib, ← sum_mul, sum_const, nsmul_eq_mul, mul_comm,
    sub_self, zero_div]

end LeaveOneOut

end Verl
