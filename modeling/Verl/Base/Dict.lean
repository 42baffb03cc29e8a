import Mathlib.Data.List.Nodup
import Verl.Base.Python

/-! Python's `dict` with string keys: entries in insertion order, no key twice. -/
namespace Verl

theorem zip_fst_sublist {α : Type u} {β : Type v} (xs : List α) (ys : List β) :
    ((xs.zip ys).map Prod.fst).Sublist xs := by
  induction xs generalizing ys with
  | nil => simp
  | cons x xs ih =>
    cases ys with
    | nil => simp
    | cons y ys => simpa using ih ys

structure Dict (β : Type) where
  entries : List (String × β)
  distinct : (entries.map Prod.fst).Nodup
  deriving DecidableEq

namespace Dict

variable {β γ δ : Type}

@[ext] theorem ext {d e : Dict β} (same : d.entries = e.entries) : d = e := by
  cases d
  cases e
  cases same
  rfl

def empty : Dict β := ⟨[], List.nodup_nil⟩

def keys (d : Dict β) : List String := d.entries.map Prod.fst

def get? (d : Dict β) (key : String) : Option β := d.entries.lookup key

def getItem (d : Dict β) (key : String) : Py β :=
  match d.get? key with
  | some value => .ok value
  | none => .error (.key key)

def contains (d : Dict β) (key : String) : Bool := (d.get? key).isSome

def mapKV (f : String → β → γ) (d : Dict β) : Dict γ :=
  ⟨d.entries.map (fun e => (e.1, f e.1 e.2)), by simpa [Function.comp_def] using d.distinct⟩

/-- `mapKV` with values whose evaluation can raise. -/
def mapKVM (f : String → β → Py γ) (d : Dict β) : Py (Dict γ) := do
  let values ← d.entries.mapM (fun e => f e.1 e.2)
  return ⟨d.keys.zip values, d.distinct.sublist (zip_fst_sublist _ _)⟩

def set (d : Dict β) (key : String) (value : β) : Dict β :=
  if missing : key ∉ d.keys then
    ⟨d.entries ++ [(key, value)], by
      rw [List.map_append]
      exact List.nodup_append.mpr ⟨d.distinct, by simp, fun a member b hb h => by
        rw [h, List.mem_singleton.mp hb] at member
        exact missing member⟩⟩
  else d.mapKV (fun k old => if k = key then value else old)

/-- `del d[key]`, of a key that may be missing. -/
def erase (d : Dict β) (key : String) : Dict β :=
  ⟨d.entries.filter (fun e => e.1 ≠ key), d.distinct.sublist (List.filter_sublist.map Prod.fst)⟩

def pop (d : Dict β) (key : String) : Py (β × Dict β) := do
  let value ← d.getItem key
  return (value, d.erase key)

theorem mapKV_mapKV (g : String → γ → δ) (f : String → β → γ) (d : Dict β) :
    (d.mapKV f).mapKV g = d.mapKV (fun key value => g key (f key value)) := by
  simp [mapKV, Function.comp_def]

theorem mapKV_congr {f g : String → β → γ} {d : Dict β}
    (each : ∀ e ∈ d.entries, f e.1 e.2 = g e.1 e.2) :
    d.mapKV f = d.mapKV g := by
  ext1
  exact List.map_congr_left (fun e member => by rw [each e member])

theorem mapKV_id {f : String → β → β} {d : Dict β} (each : ∀ e ∈ d.entries, f e.1 e.2 = e.2) :
    d.mapKV f = d := by
  ext1
  simp only [mapKV]
  conv => rhs; rw [← List.map_id d.entries]
  exact List.map_congr_left (fun e member => by rw [each e member]; rfl)

@[simp] theorem keys_mapKV (f : String → β → γ) (d : Dict β) : (d.mapKV f).keys = d.keys := by
  simp [keys, mapKV, Function.comp_def]

theorem lookup_map {κ : Type} [BEq κ] [LawfulBEq κ] (f : κ → β → γ) (key : κ)
    (entries : List (κ × β)) :
    (entries.map (fun e => (e.1, f e.1 e.2))).lookup key = (entries.lookup key).map (f key) := by
  induction entries with
  | nil => rfl
  | cons e entries ih =>
    obtain ⟨name, value⟩ := e
    by_cases h : key = name
    · subst h
      simp
    · simp [List.lookup_cons, beq_eq_false_iff_ne.mpr h, ih]

@[simp] theorem get?_mapKV (f : String → β → γ) (d : Dict β) (key : String) :
    (d.mapKV f).get? key = (d.get? key).map (f key) := lookup_map f key d.entries

@[simp] theorem getItem_mapKV (f : String → β → γ) (d : Dict β) (key : String) :
    (d.mapKV f).getItem key = (d.getItem key).map (f key) := by
  unfold getItem
  rw [get?_mapKV]
  cases d.get? key with
  | none => rfl
  | some value => rfl

theorem mem_set {d : Dict β} {key : String} {value : β} {e : String × β}
    (member : e ∈ (d.set key value).entries) :
    e ∈ d.entries ∨ e = (key, value) := by
  unfold set at member
  split at member
  case isTrue => simpa using member
  case isFalse =>
    obtain ⟨source, inside, rfl⟩ := List.mem_map.mp member
    by_cases same : source.1 = key
    · exact .inr (by simp [same])
    · exact .inl (by simpa [same] using inside)

theorem mapKV_set (f : β → γ) (d : Dict β) (key : String) (value : β) :
    (d.set key value).mapKV (fun _ old => f old) =
      (d.mapKV (fun _ old => f old)).set key (f value) := by
  have keys := keys_mapKV (fun _ old => f old) d
  unfold set
  by_cases missing : key ∉ d.keys
  · rw [dif_pos missing, dif_pos (keys ▸ missing)]
    ext1
    simp [mapKV]
  · rw [dif_neg missing, dif_neg (keys ▸ missing), mapKV_mapKV, mapKV_mapKV]
    apply mapKV_congr
    intro e _
    split
    · rfl
    · rfl

theorem lookup_of_mem {κ : Type} [BEq κ] [LawfulBEq κ] {entries : List (κ × β)}
    (distinct : (entries.map Prod.fst).Nodup)
    {e : κ × β} (member : e ∈ entries) : entries.lookup e.1 = some e.2 := by
  induction entries with
  | nil => simp at member
  | cons first rest ih =>
    obtain ⟨name, value⟩ := first
    simp only [List.map_cons, List.nodup_cons] at distinct
    rcases List.mem_cons.mp member with rfl | later
    · simp
    · have different : e.1 ≠ name := fun h => distinct.1 (h ▸ List.mem_map_of_mem later)
      simp [List.lookup_cons, beq_eq_false_iff_ne.mpr different, ih distinct.2 later]

theorem get?_of_mem {d : Dict β} {e : String × β} (member : e ∈ d.entries) :
    d.get? e.1 = some e.2 :=
  lookup_of_mem d.distinct member

theorem lookup_eq_none {entries : List (String × β)} {key : String}
    (missing : key ∉ entries.map Prod.fst) : entries.lookup key = none := by
  rw [List.lookup_eq_none_iff]
  intro e member
  simp only [bne_iff_ne]
  exact fun same => missing (same ▸ List.mem_map_of_mem member)

theorem contains_iff {d : Dict β} {key : String} : d.contains key = true ↔ key ∈ d.keys := by
  constructor
  · intro found
    by_contra missing
    simp [contains, get?, lookup_eq_none missing] at found
  · intro member
    obtain ⟨e, he, rfl⟩ := List.mem_map.mp member
    simp [contains, get?_of_mem he]

theorem mapKVM_ok {f : String → β → Py γ} {g : String → β → γ} {d : Dict β}
    (each : ∀ e ∈ d.entries, f e.1 e.2 = .ok (g e.1 e.2)) : d.mapKVM f = .ok (d.mapKV g) := by
  have values := mapM_ok (fun e : String × β => f e.1 e.2) (fun e => g e.1 e.2) d.entries each
  simp only [mapKVM, values, ok_bind, pure_eq_ok]
  congr 1
  ext1
  simp [mapKV, keys, List.zip_map']

theorem mapKVM_succeeds_iff {f : String → β → Py γ} {d : Dict β} :
    (∃ out, d.mapKVM f = .ok out) ↔ ∀ e ∈ d.entries, ∃ value, f e.1 e.2 = .ok value := by
  constructor
  · rintro ⟨out, run⟩ e member
    obtain ⟨values, loop, -⟩ := bind_ok_iff.mp run
    exact exists_of_mapM_ok loop member
  · intro each
    obtain ⟨values, loop, -⟩ :=
      (mapM_ok_and_forall₂_iff (f := fun e : String × β => f e.1 e.2) (R := fun _ _ => True)).mpr
      (fun e member => (each e member).imp (fun _ value => ⟨value, trivial⟩))
    exact ⟨_, by rw [mapKVM, loop, ok_bind, pure_eq_ok]⟩

theorem get?_of_mapKVM {f : String → β → Py γ} {d : Dict β} {out : Dict γ}
    (run : d.mapKVM f = .ok out) {key : String} {old : β} (found : d.get? key = some old) :
    ∃ value, f key old = .ok value ∧ out.get? key = some value := by
  obtain ⟨values, loop, made⟩ := bind_ok_iff.mp run
  cases made
  have lookup : ∀ (entries : List (String × β)) (values : List γ),
    entries.mapM (fun e => f e.1 e.2) = .ok values →
      entries.lookup key = some old → ∃ value, f key old = .ok value ∧
        ((entries.map Prod.fst).zip values).lookup key = some value := by
    intro entries
    induction entries with
    | nil => simp
    | cons e entries ih =>
      intro values loop found
      obtain ⟨name, content⟩ := e
      rw [mapM_ok_iff] at loop
      cases loop with
      | @cons _ value _ values first rest =>
        rw [List.map_cons, List.zip_cons_cons, List.lookup_cons]
        rw [List.lookup_cons] at found
        split at found
        · rename_i here
          cases found
          obtain rfl : key = name := by simpa using here
          exact ⟨value, first, by simp⟩
        · rename_i other
          rw [other]
          exact ih values (mapM_ok_iff.mpr rest) found
  exact lookup d.entries values loop found

theorem mapKVM_mapKV (f : String → γ → Py δ) (g : String → β → γ) (d : Dict β) :
    (d.mapKV g).mapKVM f = d.mapKVM (fun key value => f key (g key value)) := by
  simp only [mapKVM, mapKV, keys, List.mapM_map, List.map_map]
  rfl

theorem map_mapKVM {ε : Type} {f : String → β → Py γ} {f' : String → δ → Py ε} {g : β → δ}
    {h : γ → ε} {d : Dict β} (each : ∀ e ∈ d.entries, (f e.1 e.2).map h = f' e.1 (g e.2)) :
    (d.mapKVM f).map (fun out => out.mapKV (fun _ value => h value)) =
      (d.mapKV (fun _ value => g value)).mapKVM f' := by
  have loop : (d.entries.mapM (fun e => f e.1 e.2)).map (List.map h) =
      d.entries.mapM (fun e => f' e.1 (g e.2)) := by
    generalize d.entries = entries at each
    induction entries with
    | nil => rfl
    | cons e entries ih =>
      have first := each e List.mem_cons_self
      have rest := ih (fun other member => each other (List.mem_cons_of_mem e member))
      rw [List.mapM_cons, List.mapM_cons, ← first, ← rest]
      cases f e.1 e.2 with
      | error => rfl
      | ok value =>
        cases entries.mapM (fun e => f e.1 e.2) with
        | error => rfl
        | ok values => rfl
  rw [mapKVM_mapKV, mapKVM, mapKVM, ← loop]
  cases d.entries.mapM (fun e => f e.1 e.2) with
  | error => rfl
  | ok values =>
    simp only [ok_bind, pure_eq_ok, Except.map, Except.ok.injEq]
    ext1
    simp only [mapKV]
    rw [List.zip_map_right]
    rfl

theorem mem_of_get? {d : Dict β} {key : String} {value : β} (found : d.get? key = some value) :
    (key, value) ∈ d.entries := by
  have present : key ∈ d.keys := contains_iff.mp (by simp [contains, found])
  obtain ⟨e, member, rfl⟩ := List.mem_map.mp present
  cases (get?_of_mem member).symm.trans found
  exact member

theorem mem_of_getItem {d : Dict β} {key : String} {value : β} (found : d.getItem key = .ok value) :
    (key, value) ∈ d.entries := by
  unfold getItem at found
  split at found
  case h_1 old here =>
    cases found
    exact mem_of_get? here
  case h_2 => cases found

theorem erase_mapKV (f : String → β → γ) (d : Dict β) (key : String) :
    (d.mapKV f).erase key = (d.erase key).mapKV f := by
  ext1
  simp [erase, mapKV, List.filter_map, Function.comp_def]

theorem erase_of_missing {d : Dict β} {key : String} (missing : d.get? key = none) :
    d.erase key = d := by
  ext1
  simp only [erase]
  rw [List.filter_eq_self]
  intro e member
  simp only [ne_eq, decide_eq_true_eq]
  rintro rfl
  rw [get?_of_mem member] at missing
  contradiction

theorem get?_erase {d : Dict β} {key other : String} (different : other ≠ key) :
    (d.erase key).get? other = d.get? other := by
  obtain ⟨entries, distinct⟩ := d
  simp only [erase, get?]
  clear distinct
  induction entries with
  | nil => rfl
  | cons e entries ih =>
    obtain ⟨name, value⟩ := e
    by_cases h : name = key
    · subst h
      simpa [List.lookup_cons, beq_eq_false_iff_ne.mpr different] using ih
    · by_cases same : other = name
      · subst same
        simp [h]
      · simpa [h, List.lookup_cons, beq_eq_false_iff_ne.mpr same] using ih

theorem get?_erase_self (d : Dict β) (key : String) : (d.erase key).get? key = none := by
  simp only [erase, get?, List.lookup_eq_none_iff]
  intro e member
  have different : e.1 ≠ key := by simpa using (List.mem_filter.mp member).2
  simpa using Ne.symm different

theorem get?_eq_none_iff {d : Dict β} {key : String} : d.get? key = none ↔ key ∉ d.keys := by
  rw [← contains_iff, contains]
  cases d.get? key <;> simp

theorem get?_set (d : Dict β) (key : String) (value : β) (other : String) :
    (d.set key value).get? other = if other = key then some value else d.get? other := by
  unfold set
  by_cases missing : key ∉ d.keys
  · rw [dif_pos missing]
    simp only [get?, List.lookup_append]
    by_cases same : other = key
    · subst same
      have none : d.entries.lookup other = none := get?_eq_none_iff.mpr missing
      simp [none]
    · simp [same, List.lookup_cons, beq_eq_false_iff_ne.mpr same]
  · rw [dif_neg missing, get?_mapKV]
    by_cases same : other = key
    · subst same
      have present : d.contains other = true := contains_iff.mpr (not_not.mp missing)
      obtain ⟨old, found⟩ := Option.isSome_iff_exists.mp present
      simp [found]
    · simp [same]

theorem keys_set_of_mem {d : Dict β} {key : String} (present : key ∈ d.keys) (value : β) :
    (d.set key value).keys = d.keys := by
  rw [set, dif_neg (not_not.mpr present), keys_mapKV]

theorem ext_get? {d e : Dict β} (keys : d.keys = e.keys) (values : ∀ key, d.get? key = e.get? key) :
    d = e := by
  ext1
  have pairs : ∀ c : Dict β,
      c.entries = c.keys.filterMap (fun key => (c.get? key).map (Prod.mk key)) := by
    intro c
    rw [Dict.keys, List.filterMap_map]
    conv => lhs; rw [← List.filterMap_some (l := c.entries)]
    apply List.filterMap_congr
    intro entry member
    simp [get?_of_mem member]
  rw [pairs d, pairs e, keys]
  simp only [values]

theorem get?_foldl_set {entries : List (String × β)} (distinct : (entries.map Prod.fst).Nodup)
    (d : Dict β) (key : String) :
    (entries.foldl (fun d e => d.set e.1 e.2) d).get? key =
      (entries.lookup key).or (d.get? key) := by
  induction entries generalizing d with
  | nil => rfl
  | cons e entries ih =>
    obtain ⟨name, value⟩ := e
    obtain ⟨fresh, rest⟩ := List.nodup_cons.mp distinct
    rw [List.foldl_cons, ih rest, get?_set, List.lookup_cons]
    by_cases same : key = name
    · subst same
      simp [lookup_eq_none fresh]
    · simp [same, beq_eq_false_iff_ne.mpr same]

theorem set_of_get? {d : Dict β} {key : String} {value : β} (found : d.get? key = some value) :
    d.set key value = d := by
  have present : key ∈ d.keys := contains_iff.mp (by simp [contains, found])
  unfold set
  rw [dif_neg (not_not.mpr present)]
  apply mapKV_id
  intro e member
  split
  case isTrue same =>
    have own := get?_of_mem member
    rw [same, found] at own
    exact Option.some.inj own
  case isFalse => rfl

theorem mem_erase {d : Dict β} {key : String} {e : String × β} :
    e ∈ (d.erase key).entries ↔ e ∈ d.entries ∧ e.1 ≠ key := by
  simp [erase]

end Dict

variable {β : Type}

def appendItem (output : Dict (List β)) (entry : String × β) : Py (Dict (List β)) := do
  pyAssert (output.contains entry.1) ""
  return output.mapKV (fun key items => if key = entry.1 then items ++ [entry.2] else items)

def appendItems (output : Dict (List β)) (data : Dict β) : Py (Dict (List β)) :=
  data.entries.foldlM appendItem output

def listOfDictToDictOfList (listOfDict : List (Dict β)) : Py (Dict (List β)) :=
  match listOfDict with
  | [] => .ok .empty
  | first :: _ => listOfDict.foldlM appendItems (first.mapKV (fun _ _ => []))

theorem foldlM_appendItems (entries : List (String × β)) (distinct : (entries.map Prod.fst).Nodup)
    (output : Dict (List β)) (known : ∀ e ∈ entries, e.1 ∈ output.keys) :
    entries.foldlM appendItem output =
      .ok (output.mapKV (fun key items => items ++ (entries.lookup key).toList)) := by
  induction entries generalizing output with
  | nil =>
    simp only [List.foldlM_nil, pure_eq_ok, Except.ok.injEq]
    exact (Dict.mapKV_id (by simp)).symm
  | cons e entries ih =>
    obtain ⟨name, value⟩ := e
    simp only [List.map_cons, List.nodup_cons] at distinct
    have found : output.contains name = true :=
      Dict.contains_iff.mpr (known (name, value) (by simp))
    have one : appendItem output (name, value) =
        .ok (output.mapKV (fun key items => if key = name then items ++ [value] else items)) := by
      simp [appendItem, found]
    rw [List.foldlM_cons, one, ok_bind,
      ih distinct.2 _ (fun f member => by simpa using known f (by simp [member])), Dict.mapKV_mapKV]
    congr 1
    apply Dict.mapKV_congr
    rintro ⟨key, items⟩ _
    by_cases h : key = name
    · simp [h, Dict.lookup_eq_none distinct.1]
    · simp [h, List.lookup_cons, beq_eq_false_iff_ne.mpr h]

theorem listOfDictToDictOfList_ok {first : Dict β} {rest : List (Dict β)}
    (known : ∀ d ∈ rest, d.keys ⊆ first.keys) :
    listOfDictToDictOfList (first :: rest) =
      .ok (first.mapKV (fun key _ => (first :: rest).filterMap (fun d => d.get? key))) := by
  have loop : ∀ (dicts : List (Dict β)) (output : Dict (List β)),
      (∀ d ∈ dicts, d.keys ⊆ output.keys) →
      dicts.foldlM appendItems output =
        .ok (output.mapKV (fun key items => items ++ dicts.filterMap (fun d => d.get? key))) := by
    intro dicts
    induction dicts with
    | nil =>
      intro output _
      simp only [List.foldlM_nil, pure_eq_ok, Except.ok.injEq]
      exact (Dict.mapKV_id (by simp)).symm
    | cons d dicts ih =>
      intro output inside
      have one : appendItems output d =
          .ok (output.mapKV (fun key items => items ++ (d.get? key).toList)) :=
        foldlM_appendItems d.entries d.distinct output
          (fun e member => inside d (by simp) (List.mem_map_of_mem member))
      rw [List.foldlM_cons, one, ok_bind,
        ih _ (fun d' member => by simpa using inside d' (by simp [member])), Dict.mapKV_mapKV]
      congr 1
      apply Dict.mapKV_congr
      rintro ⟨key, items⟩ _
      cases h : d.get? key <;> simp [h]
  simp only [listOfDictToDictOfList]
  rw [loop _ _ (by simpa using known), Dict.mapKV_mapKV]
  simp

theorem keys_of_appendItems {output out : Dict (List β)} {data : Dict β}
    (appended : appendItems output data = .ok out) :
    out.keys = output.keys ∧ data.keys ⊆ output.keys := by
  unfold appendItems at appended
  unfold Dict.keys
  generalize data.entries = entries at appended
  induction entries generalizing output with
  | nil =>
    cases appended
    simp
  | cons e entries ih =>
    rw [List.foldlM_cons] at appended
    obtain ⟨next, one, rest⟩ := bind_ok_iff.mp appended
    simp only [appendItem, bind_ok_iff, pyAssert_ok_iff, pure_eq_ok, Except.ok.injEq] at one
    obtain ⟨-, known, rfl⟩ := one
    obtain ⟨same, inside⟩ := ih rest
    have kept := Dict.keys_mapKV (fun key items => if key = e.1 then items ++ [e.2]
      else items) output
    unfold Dict.keys at kept
    rw [kept] at same inside
    exact ⟨same, List.cons_subset.mpr ⟨Dict.contains_iff.mp known, inside⟩⟩

theorem keys_subset_of_listOfDict {first : Dict β} {rest : List (Dict β)} {out : Dict (List β)}
    (returned : listOfDictToDictOfList (first :: rest) = .ok out) :
    ∀ d ∈ rest, d.keys ⊆ first.keys := by
  have loop : ∀ (dicts : List (Dict β)) (output : Dict (List β)),
      dicts.foldlM appendItems output = .ok out → ∀ d ∈ dicts, d.keys ⊆ output.keys := by
    intro dicts
    induction dicts with
    | nil => exact fun _ _ d member => absurd member List.not_mem_nil
    | cons d dicts ih =>
      intro output run
      rw [List.foldlM_cons] at run
      obtain ⟨next, one, run⟩ := bind_ok_iff.mp run
      obtain ⟨same, inside⟩ := keys_of_appendItems one
      rw [List.forall_mem_cons]
      exact ⟨inside, same ▸ ih next run⟩
  intro d member
  have inside := loop _ _ returned d (List.mem_cons_of_mem _ member)
  rwa [Dict.keys_mapKV] at inside

end Verl
