import Mathlib.Data.List.ReduceOption
import Verl.Firejail.Installed

/-! Lists in profiles (`profile.c`): items separated by commas that add to a list, take from it or
start it anew. The list of a sandbox is put together line by line. -/
namespace Verl.Firejail

open Bpf CText

section Edits

variable {α : Type} [DecidableEq α]

/-- What an item does to a list without repetitions. -/
inductive Edit (α : Type) where
  | keep
  | add (item : α)
  | remove (item : α)
  | clear
  | only (item : α)
deriving DecidableEq

def Edit.brings : Edit α → Option α
  | .add item | .only item => some item
  | _ => none

def Edit.apply (list : List α) : Edit α → List α
  | .keep => list
  | .add item => if item ∈ list then list else list ++ [item]
  | .remove item => list.erase item
  | .clear => []
  | .only item => [item]

theorem Edit.remove_cons (item first : α) (list : List α) :
    (Edit.remove item).apply (first :: list) = if first = item then list
      else first :: (Edit.remove item).apply list := by
  rw [Edit.apply, Edit.apply, List.erase_cons]
  by_cases here : first = item <;> simp [here]

theorem Edit.apply_nodup {list : List α} (distinct : list.Nodup) (edit : Edit α) :
    (edit.apply list).Nodup := by
  cases edit with
  | keep => exact distinct
  | add item =>
    rw [Edit.apply]
    split
    · exact distinct
    · rename_i fresh
      exact List.nodup_append.mpr ⟨distinct, List.nodup_singleton item, by
        rintro a inside b member rfl
        exact fresh (List.mem_singleton.mp member ▸ inside)⟩
  | remove item => exact distinct.erase item
  | clear => exact List.nodup_nil
  | only item => exact List.nodup_singleton item

theorem Edit.mem_apply {list : List α} {edit : Edit α} {x : α} (member : x ∈ edit.apply list) :
    x ∈ list ∨ edit.brings = some x := by
  cases edit with
  | keep => exact .inl member
  | add item =>
    rw [Edit.apply] at member
    split at member
    · exact .inl member
    · rcases List.mem_append.mp member with inside | new
      · exact .inl inside
      · exact .inr (by rw [List.mem_singleton.mp new, Edit.brings])
  | remove item => exact .inl (List.mem_of_mem_erase member)
  | clear => exact absurd member List.not_mem_nil
  | only item => exact .inr (by rw [List.mem_singleton.mp member, Edit.brings])

def edited (list : List α) (edits : List (Edit α)) : List α := edits.foldl Edit.apply list

theorem edited_append (list : List α) (a b : List (Edit α)) :
    edited list (a ++ b) = edited (edited list a) b :=
  List.foldl_append

theorem edited_nodup {list : List α} (distinct : list.Nodup) (edits : List (Edit α)) :
    (edited list edits).Nodup := by
  induction edits generalizing list with
  | nil => exact distinct
  | cons edit edits ih => exact ih (edit.apply_nodup distinct)

theorem mem_edited {list : List α} {edits : List (Edit α)} {x : α}
    (member : x ∈ edited list edits) :
    x ∈ list ∨ ∃ edit ∈ edits, edit.brings = some x := by
  induction edits generalizing list with
  | nil => exact .inl member
  | cons edit edits ih =>
    rcases ih member with inside | ⟨other, later, brought⟩
    · rcases Edit.mem_apply inside with before | brought
      · exact .inl before
      · exact .inr ⟨edit, List.mem_cons_self, brought⟩
    · exact .inr ⟨other, List.mem_cons_of_mem edit later, brought⟩

/-- Adding the items of a list without repetitions gives that list. -/
theorem edited_add {list items : List α} (distinct : (list ++ items).Nodup) :
    edited list (items.map .add) = list ++ items := by
  induction items generalizing list with
  | nil => exact (List.append_nil list).symm
  | cons item items ih =>
    have fresh : item ∉ list :=
      fun inside => (List.nodup_append.mp distinct).2.2 item inside item List.mem_cons_self rfl
    have grown : (list ++ [item] ++ items).Nodup := by rwa [List.append_assoc]
    rw [List.map_cons, edited, List.foldl_cons, Edit.apply, if_neg fresh]
    exact (ih grown).trans (List.append_assoc list [item] items)

end Edits

section Code

/-- The loop of `profile_list_normalize`: a comma is only copied in front of what follows it. -/
def collapse : Bool → Text → Text
  | _, [] => []
  | comma, c :: rest =>
    if c = ',' then collapse true rest
    else (if comma then [','] else []) ++ c :: collapse false rest

def profileListNormalize (list : Text) : Text := collapse false (list.dropWhile (· = ','))

/-- The item is included unless it is empty or already there. -/
def including (before : List (Option Text)) (item : Text) : Option Text :=
  if item = [] ∨ some item ∈ before then none else some item

def takeOut (item : Text) : List (Option Text) → List (Option Text)
  | [] => []
  | entry :: rest => if entry = some item then none :: rest else entry :: takeOut item rest

def filterItem (before : List (Option Text)) (item : Text) : List (Option Text) :=
  match item with
  | '-' :: name => takeOut name before ++ [none]
  | '+' :: name => before ++ [including before name]
  | '=' :: name => before.map (fun _ => none) ++ [if name = [] then none else some name]
  | name => before ++ [including before name]

/-- `Copying back`: a comma in front of every item but the first. -/
def copyBack (items : List Text) : Text :=
  items.foldl (fun list item => if list = [] then item else list ++ ',' :: item) []

def profileListCompress (list : Text) : Text :=
  copyBack (((profileListNormalize list).splitOn ',').foldl filterItem []).reduceOption

def maxList : Nat := 16384

def profileListAugment (list : Option Text) (items : Text) : Exits Text :=
  let combined := profileListCompress (list.getD [] ++ ',' :: items)
  if maxList < combined.length then
    .error "Error: argument list is too long".toList
  else .ok combined

def augmentLines (list : Option Text) (lines : List Text) : Exits (Option Text) :=
  lines.foldlM (fun list items => some <$> profileListAugment list items) list

end Code

section Meaning

def edit (item : Text) : Edit Text :=
  match item with
  | '-' :: name => .remove name
  | '+' :: name => if name = [] then .keep else .add name
  | '=' :: name => if name = [] then .clear else .only name
  | name => if name = [] then .keep else .add name

def isNonempty (item : Text) : Bool := !item.isEmpty

theorem intercalate_cons (item : Text) (items : List Text) :
    List.intercalate [','] (item :: items) = item ++ items.flatMap (',' :: ·) := by
  induction items generalizing item with
  | nil => simp [List.intercalate]
  | cons next items ih =>
    have rest := ih next
    simp only [List.intercalate, List.intersperse_cons_cons, List.flatten_cons] at rest ⊢
    rw [rest]
    simp

theorem collapse_eq (s : Text) :
    collapse true s = ((s.splitOn ',').filter isNonempty).flatMap (',' :: ·) ∧
    collapse false s = (s.splitOn ',').head (List.splitOn_ne_nil ',' s) ++
      ((s.splitOn ',').tail.filter isNonempty).flatMap (',' :: ·) := by
  induction s with
  | nil => exact ⟨rfl, rfl⟩
  | cons c s ih =>
    obtain ⟨head, tail, pieces⟩ := List.exists_cons_of_ne_nil (List.splitOn_ne_nil ',' s)
    simp only [pieces, List.head_cons, List.tail_cons] at ih
    by_cases comma : c = ','
    · subst comma
      have split : (',' :: s).splitOn ',' = [] :: head :: tail := by
        rw [List.splitOn_cons_eq_if_modifyHead, pieces]; rfl
      simp only [split, collapse, if_true, ih.1, List.head_cons, List.tail_cons]
      exact ⟨rfl, rfl⟩
    · have split : (c :: s).splitOn ',' = (c :: head) :: tail := by
        rw [List.splitOn_cons_eq_if_modifyHead, if_neg (by simpa using comma), pieces]
        rfl
      simp only [split, collapse, if_neg comma, ih.2, List.head_cons, List.tail_cons]
      exact ⟨by simp [isNonempty], by simp⟩

theorem strtok_append (a b : Text) : strtok ',' (a ++ ',' :: b) = strtok ',' a ++ strtok ',' b := by
  rw [strtok, List.splitOn_append_cons_self, List.filter_append]
  rfl

theorem profileListNormalize_eq (list : Text) :
    profileListNormalize list = List.intercalate [','] (strtok ',' list) := by
  induction list with
  | nil => rfl
  | cons c list ih =>
    rw [profileListNormalize]
    by_cases comma : c = ','
    · subst comma
      have same : strtok ',' (',' :: list) = strtok ',' list := strtok_append [] list
      rw [same, ← ih, List.dropWhile_cons_of_pos (by simp), profileListNormalize]
    · obtain ⟨head, tail, pieces⟩ := List.exists_cons_of_ne_nil (List.splitOn_ne_nil ',' list)
      have split : (c :: list).splitOn ',' = (c :: head) :: tail := by
        rw [List.splitOn_cons_eq_if_modifyHead, if_neg (by simpa using comma), pieces]
        rfl
      rw [List.dropWhile_cons_of_neg (by simpa using comma), (collapse_eq _).2]
      simp only [split, List.head_cons, List.tail_cons]
      rw [strtok, split, List.filter_cons_of_pos (by simp), intercalate_cons]
      rfl

theorem reduceOption_takeOut (item : Text) (before : List (Option Text)) :
    (takeOut item before).reduceOption = (Edit.remove item).apply before.reduceOption := by
  induction before with
  | nil => rfl
  | cons entry before ih =>
    rw [takeOut]
    by_cases here : entry = some item
    · subst here
      rw [if_pos rfl, List.reduceOption_cons_of_none, List.reduceOption_cons_of_some,
        Edit.remove_cons, if_pos rfl]
    · rw [if_neg here]
      cases entry with
      | none => rw [List.reduceOption_cons_of_none, List.reduceOption_cons_of_none, ih]
      | some other =>
        rw [List.reduceOption_cons_of_some, List.reduceOption_cons_of_some, Edit.remove_cons,
          if_neg (fun same => here (congrArg some same)), ih]

theorem reduceOption_including (before : List (Option Text)) (name : Text) :
    (before ++ [including before name]).reduceOption =
    (if name = [] then Edit.keep else Edit.add name).apply before.reduceOption := by
  rw [List.reduceOption_append, including]
  by_cases empty : name = []
  · rw [if_pos (.inl empty), if_pos empty]
    exact List.append_nil _
  · rw [if_neg empty, Edit.apply]
    by_cases there : some name ∈ before
    · rw [if_pos (.inr there), if_pos (List.reduceOption_mem_iff.mpr there)]
      exact List.append_nil _
    · rw [if_neg (not_or.mpr ⟨empty, there⟩),
        if_neg (fun inside => there (List.reduceOption_mem_iff.mp inside))]
      rfl

theorem reduceOption_map_none (before : List (Option Text)) :
    (before.map (fun _ => (none : Option Text))).reduceOption = [] := by
  induction before with
  | nil => rfl
  | cons entry before ih => rw [List.map_cons, List.reduceOption_cons_of_none, ih]

theorem reduceOption_filterItem (before : List (Option Text)) (item : Text) :
    (filterItem before item).reduceOption = (edit item).apply before.reduceOption := by
  rw [filterItem.eq_def, edit.eq_def]
  split
  · rw [List.reduceOption_append, reduceOption_takeOut]
    exact List.append_nil _
  · exact reduceOption_including before _
  · rename_i name
    rw [List.reduceOption_append, reduceOption_map_none]
    by_cases empty : name = []
    · rw [if_pos empty, if_pos empty]
      rfl
    · rw [if_neg empty, if_neg empty]
      rfl
  · rename_i minus plus equal
    exact reduceOption_including before item

theorem copyBack_eq {items : List Text} (nonempty : [] ∉ items) :
    copyBack items = List.intercalate [','] items := by
  have grows : ∀ (items : List Text) (list : Text), list ≠ [] →
    items.foldl (fun list item => if list = [] then item else list ++ ',' :: item) list =
      list ++ items.flatMap (',' :: ·) := by
    intro items
    induction items with
    | nil => exact fun list _ => (List.append_nil list).symm
    | cons item items ih =>
      intro list some
      rw [List.foldl_cons, if_neg some, ih _ (by simp), List.flatMap_cons, List.append_assoc]
  cases items with
  | nil => rfl
  | cons item items =>
    have some : item ≠ [] := fun empty => nonempty (empty ▸ List.mem_cons_self)
    rw [intercalate_cons]
    exact grows items item some

theorem brings_edit {item name : Text} (brought : (edit item).brings = some name) :
    name ≠ [] ∧ (name = item ∨ ∃ c, item = c :: name) := by
  rw [edit.eq_def] at brought
  split at brought
  · cases brought
  · split at brought
    · cases brought
    · rename_i some
      exact ⟨Option.some.inj brought ▸ some, .inr ⟨'+', by rw [Option.some.inj brought]⟩⟩
  · split at brought
    · cases brought
    · rename_i some
      exact ⟨Option.some.inj brought ▸ some, .inr ⟨'=', by rw [Option.some.inj brought]⟩⟩
  · split at brought
    · cases brought
    · rename_i some
      exact ⟨Option.some.inj brought ▸ some, .inl (Option.some.inj brought).symm⟩

theorem isToken_edited {items : List Text} (tokens : ∀ item ∈ items, IsToken ',' item) {name : Text}
    (member : name ∈ edited [] (items.map edit)) :
    IsToken ',' name := by
  rcases mem_edited member with inside | ⟨_, brings, brought⟩
  · exact absurd inside List.not_mem_nil
  · obtain ⟨item, token, rfl⟩ := List.mem_map.mp brings
    obtain ⟨some, rfl | ⟨c, rfl⟩⟩ := brings_edit brought
    · exact tokens name token
    · exact ⟨some, fun comma => (tokens _ token).2 (List.mem_cons_of_mem c comma)⟩

theorem profileListCompress_eq (list : Text) :
    profileListCompress list = List.intercalate [','] (edited [] ((strtok ',' list).map edit)) := by
  have folded : ∀ (items : List Text) (before : List (Option Text)),
      (items.foldl filterItem before).reduceOption =
      edited before.reduceOption (items.map edit) := by
    intro items
    induction items with
    | nil => exact fun _ => rfl
    | cons item items ih =>
      intro before
      rw [List.foldl_cons, ih, reduceOption_filterItem, List.map_cons]
      rfl
  have pieces : (profileListNormalize list).splitOn ',' = if strtok ',' list = [] then [[]]
      else strtok ',' list := by
    rw [profileListNormalize_eq]
    split
    · rename_i none
      rw [none]
      rfl
    · rename_i some
      exact List.splitOn_intercalate ',' (fun item member => (isToken_of_mem_strtok member).2) some
  rw [profileListCompress, folded, pieces]
  split
  · rename_i none
    rw [none]
    rfl
  · exact copyBack_eq fun empty => (isToken_edited (fun item => isToken_of_mem_strtok) empty).1 rfl

def lineEdits (lines : List Text) : List (Edit Text) := (lines.flatMap (strtok ',')).map edit

theorem lineEdits_cons (line : Text) (lines : List Text) :
    lineEdits (line :: lines) = (strtok ',' line).map edit ++ lineEdits lines := by
  rw [lineEdits, List.flatMap_cons, List.map_append, lineEdits]

theorem strtok_profileListCompress (list : Text) :
    strtok ',' (profileListCompress list) = edited [] ((strtok ',' list).map edit) ∧
    (strtok ',' (profileListCompress list)).Nodup := by
  have read : strtok ',' (profileListCompress list) = edited [] ((strtok ',' list).map edit) := by
    rw [profileListCompress_eq]
    by_cases none : edited [] ((strtok ',' list).map edit) = []
    · rw [none]
      rfl
    · exact strtok_intercalate none fun name => isToken_edited fun item => isToken_of_mem_strtok
  exact ⟨read, read ▸ edited_nodup List.nodup_nil _⟩

end Meaning

section Lines

/-- A name that does not look like an edit when it is read again. -/
def Plain (name : Text) : Prop :=
  name.head? ≠ some '-' ∧ name.head? ≠ some '+' ∧ name.head? ≠ some '='

instance (name : Text) : Decidable (Plain name) := by unfold Plain; infer_instance

def PlainLine (line : Text) : Prop :=
  ∀ item ∈ strtok ',' line, ∀ name ∈ (edit item).brings, Plain name

instance (line : Text) : Decidable (PlainLine line) := by unfold PlainLine; infer_instance

theorem edit_of_plain {name : Text} (plain : Plain name) (some : name ≠ []) :
    edit name = .add name := by
  rw [edit.eq_def]
  split
  · exact absurd rfl plain.1
  · exact absurd rfl plain.2.1
  · exact absurd rfl plain.2.2
  · rw [if_neg some]

theorem edited_combined (line : Text) {list : Text} {names : List Text}
    (read : strtok ',' list = names) (distinct : names.Nodup) (known : ∀ name ∈ names, Plain name) :
    edited [] ((strtok ',' (list ++ ',' :: line)).map edit) =
      edited names ((strtok ',' line).map edit) := by
  have same : names.map edit = names.map .add := List.map_congr_left fun name member =>
    edit_of_plain (known name member) (isToken_of_mem_strtok (read ▸ member)).1
  have start : edited [] (names.map .add) = names := edited_add (by simpa using distinct)
  rw [strtok_append, read, List.map_append, edited_append, same, start]

theorem plain_edited {names : List Text} {line : Text} (known : ∀ name ∈ names, Plain name)
    (plain : PlainLine line) :
    ∀ name ∈ edited names ((strtok ',' line).map edit), Plain name := by
  intro name member
  rcases mem_edited member with inside | ⟨_, brings, brought⟩
  · exact known name inside
  · obtain ⟨item, token, rfl⟩ := List.mem_map.mp brings
    exact plain item token name brought

/-- The list of some lines is put together out of the edits of all of them, and each list on the way
is short enough. -/
theorem augmentLines_from {lines : List Text} (plain : ∀ line ∈ lines, PlainLine line)
    {list : Option Text} {names : List Text} (read : strtok ',' (list.getD []) = names)
    (distinct : names.Nodup) (known : ∀ name ∈ names, Plain name) {out : Option Text} :
    augmentLines list lines = .ok out ↔
      (∀ before, before ≠ [] → before <+: lines →
        (List.intercalate [','] (edited names (lineEdits before))).length ≤ maxList) ∧
        out = if lines = [] then list
          else some (List.intercalate [','] (edited names (lineEdits lines))) := by
  induction lines generalizing list names with
  | nil =>
    rw [augmentLines, List.foldlM_nil, Exits.pure_iff, if_pos rfl, eq_comm]
    exact ⟨fun same =>
      ⟨fun before some prefixed => absurd (List.prefix_nil.mp prefixed) some, same⟩, And.right⟩
  | cons line lines ih =>
    have combined := edited_combined line read distinct known
    have made : profileListCompress (list.getD [] ++ ',' :: line) =
        List.intercalate [','] (edited names ((strtok ',' line).map edit)) := by
      rw [profileListCompress_eq, combined]
    have next : strtok ','
      ((some (List.intercalate [','] (edited names ((strtok ',' line).map edit)))).getD []) =
        edited names ((strtok ',' line).map edit) := by
      rw [Option.getD_some, ← made, (strtok_profileListCompress _).1, combined]
    have later := ih (fun other member => plain other (List.mem_cons_of_mem line member))
      next (edited_nodup distinct _)
      (plain_edited known (plain line List.mem_cons_self))
    have joins : ∀ lines,
        edited names (lineEdits (line :: lines)) =
        edited (edited names ((strtok ',' line).map edit)) (lineEdits lines) := by
      intro lines
      rw [lineEdits_cons, edited_append]
    rw [if_neg (List.cons_ne_nil line lines), joins, augmentLines, List.foldlM_cons,
      profileListAugment, made]
    by_cases long : maxList <
      (List.intercalate [','] (edited names ((strtok ',' line).map edit))).length
    · rw [if_pos long]
      refine iff_of_false (fun done => by cases done) (fun both => ?_)
      have first := both.1 [line] (by simp) (by simp)
      rw [joins] at first
      exact absurd first (Nat.not_le_of_lt long)
    · rw [if_neg long]
      refine Iff.trans later (and_congr ?_ ?_)
      · constructor
        · intro short before some prefixed
          obtain rfl | ⟨rest, rfl, inner⟩ := List.prefix_cons_iff.mp prefixed
          · exact absurd rfl some
          · rw [joins]
            by_cases none : rest = []
            · rw [none]
              exact Nat.le_of_not_lt long
            · exact short rest none inner
        · intro short before _ prefixed
          have whole := short (line :: before) (List.cons_ne_nil line before)
            (List.cons_prefix_cons.mpr ⟨rfl, prefixed⟩)
          rwa [joins] at whole
      · split
        · rename_i none
          rw [none]
          rfl
        · rfl

/-- The list of a sandbox, for all lines of its profiles in their order. -/
theorem augmentLines_ok_iff {lines : List Text} (plain : ∀ line ∈ lines, PlainLine line)
    {out : Option Text} :
    augmentLines none lines = .ok out ↔
      (∀ before, before ≠ [] → before <+: lines →
        (List.intercalate [','] (edited [] (lineEdits before))).length ≤ maxList) ∧
        out = if lines = [] then none
          else some (List.intercalate [','] (edited [] (lineEdits lines))) :=
  augmentLines_from plain (show strtok ',' ((none : Option Text).getD []) = []
    from rfl) List.nodup_nil
    (fun _ member => absurd member List.not_mem_nil)

theorem augmentLines_protocols :
    augmentLines none ["unix,inet".toList, "-unix,inet6".toList] = .ok (some "inet,inet6".toList) ↔
    (∀ before, before ≠ [] → before <+: ["unix,inet".toList, "-unix,inet6".toList] →
      (List.intercalate [','] (edited [] (lineEdits before))).length ≤ maxList) ∧
      some "inet,inet6".toList = if ["unix,inet".toList, "-unix,inet6".toList] = [] then none
        else some (List.intercalate [',']
          (edited [] (lineEdits ["unix,inet".toList, "-unix,inet6".toList]))) :=
  augmentLines_ok_iff (by decide)

end Lines

section Filters

variable {errorAction : BitVec 32}

theorem length_le_of_protocols {tokens : List Text} (distinct : tokens.Nodup)
    (known : ∀ token ∈ tokens, (protocol.lookup token).isSome) :
    tokens.length ≤ 6 := by
  have inside : tokens ⊆ protocol.map Prod.fst := by
    intro token member
    obtain ⟨domain, found⟩ := Option.isSome_iff_exists.mp (known token member)
    obtain ⟨before, behind, same, -⟩ := List.lookup_eq_some_iff.mp found
    rw [same]
    simp
  exact (List.subperm_of_subset distinct inside).length_le

/-- The known protocols that are still to come decide whether there is room, also in front of an
unknown one. -/
theorem foldlM_addProtocol_ends {tokens : List Text} {filter : List SockFilter}
    (room : filter.length +
      2 * (tokens.filter (fun token => (protocol.lookup token).isSome)).length < protocolRoom) :
    (∃ token, tokens.foldlM addProtocol filter =
      .error ("Error fseccomp: ".toList ++ token ++ " is not a valid protocol".toList)) ∨
      ∃ built, tokens.foldlM addProtocol filter = .ok built ∧ built.length < protocolRoom := by
  induction tokens generalizing filter with
  | nil => exact .inr ⟨filter, rfl, room⟩
  | cons token tokens ih =>
    rw [List.foldlM_cons]
    cases found : protocol.lookup token with
    | none =>
      have here : addProtocol filter token =
          .error ("Error fseccomp: ".toList ++ token ++ " is not a valid protocol".toList) := by
        rw [addProtocol, findProtocolDomain, found, Option.map_none]
      exact .inl ⟨token, by rw [here]; rfl⟩
    | some domain =>
      rw [List.filter_cons_of_pos (by rw [found]; rfl), List.length_cons] at room
      rw [addProtocol_eq found (by omega), Exits.ok_bind]
      refine ih ?_
      simp only [List.length_append, whitelist, entry, List.length_cons, List.length_nil]
      omega

theorem augmentLines_cons {start out : Option Text} {line : Text} {lines : List Text}
    (done : augmentLines start (line :: lines) = .ok out) :
    augmentLines (some (profileListCompress (start.getD [] ++ ',' :: line))) lines = .ok out := by
  rw [augmentLines, List.foldlM_cons, Exits.bind_iff] at done
  obtain ⟨next, made, rest⟩ := done
  rw [Exits.map_iff] at made
  obtain ⟨combined, made, rfl⟩ := made
  rw [profileListAugment] at made
  split at made
  · cases made
  · obtain rfl := Except.ok.inj made
    exact rest

theorem nodup_of_augmentLines {lines : List Text} {start : Option Text}
    (distinct : (strtok ',' (start.getD [])).Nodup) {list : Text}
    (done : augmentLines start lines = .ok (some list)) : (strtok ',' list).Nodup := by
  induction lines generalizing start with
  | nil =>
    obtain rfl := Exits.pure_iff.mp done
    exact distinct
  | cons line lines ih =>
    refine ih ?_ (augmentLines_cons done)
    exact (strtok_profileListCompress _).2

/-- The list of protocols that the lines of the profiles come to never needs more room than the
filter has. -/
theorem protocolBuildFilter_ne_overrun {lines : List Text} {list : Text}
    (done : augmentLines none lines = .ok (some list)) :
    protocolBuildFilter errorAction list ≠ .error "stack overrun".toList := by
  have start : (strtok ',' ((none : Option Text).getD [])).Nodup := List.nodup_nil
  have distinct := nodup_of_augmentLines start done
  by_cases none : strtok ',' list = []
  · rw [protocolBuildFilter, if_pos none]
    exact fun same => absurd (Except.error.inj same) (by decide)
  · have few := length_le_of_protocols
      (distinct.filter (fun token => (protocol.lookup token).isSome)) fun token member =>
      (List.mem_filter.mp member).2
    have room : (protocolStart errorAction).length +
      2 * ((strtok ',' list).filter (fun token => (protocol.lookup token).isSome)).length <
        protocolRoom := by
      rw [length_protocolStart, protocolRoom]
      omega
    rw [protocolBuildFilter, if_neg none]
    change ((strtok ',' list).foldlM _ _ >>= _) ≠ _
    obtain ⟨token, failed⟩ | ⟨built, made, short⟩ := foldlM_addProtocol_ends room
    · rw [failed]
      exact fun same => absurd (congrArg List.head? (Except.error.inj same)) (by simp)
    · have fits : built.length + [returnErrno enotsup].length ≤ protocolRoom :=
        Nat.succ_le_of_lt short
      rw [made, Exits.ok_bind, copyBehind_eq fits]
      exact fun same => by cases same

/-- Three lines of ten names come to six protocols. -/
theorem protocolBuildFilter_inet :
    protocolBuildFilter 0x00050001 "unix,inet,inet6,netlink,packet,bluetooth".toList ≠
      .error "stack overrun".toList :=
  protocolBuildFilter_ne_overrun (show augmentLines none ["unix,inet,inet6".toList,
    "inet,unix,netlink,packet".toList,
    "bluetooth,inet6,unix".toList] = .ok (some "unix,inet,inet6,netlink,packet,bluetooth".toList) by
    rfl)

theorem strtok_augmentLines {lines : List Text} (plain : ∀ line ∈ lines, PlainLine line)
    {start : Option Text} {names : List Text} (read : strtok ',' (start.getD []) = names)
    (distinct : names.Nodup) (known : ∀ name ∈ names, Plain name) {list : Text}
    (done : augmentLines start lines = .ok (some list)) :
    strtok ',' list = edited names (lineEdits lines) := by
  induction lines generalizing start names with
  | nil =>
    obtain rfl := Exits.pure_iff.mp done
    exact read
  | cons line lines ih =>
    have next : strtok ',' ((some (profileListCompress (start.getD [] ++ ',' :: line))).getD []) =
        edited names ((strtok ',' line).map edit) := by
      rw [Option.getD_some, (strtok_profileListCompress _).1,
        edited_combined line read distinct known]
    rw [lineEdits_cons, edited_append]
    exact ih (fun other member => plain other (List.mem_cons_of_mem line member))
      next (edited_nodup distinct _)
      (plain_edited known (plain line List.mem_cons_self)) (augmentLines_cons done)

theorem strtok_sandboxList {lines : List Text} {list : Text}
    (plain : ∀ line ∈ lines, PlainLine line) (done : augmentLines none lines = .ok (some list)) :
    strtok ',' list = edited [] (lineEdits lines) :=
  strtok_augmentLines plain (show strtok ',' ((none : Option Text).getD []) = []
    from rfl) List.nodup_nil
    (fun _ member => absurd member List.not_mem_nil) done

/-- The sockets that the `protocol` lines of the profiles leave, for all lines in their order. -/
theorem protocolLines_allows_iff {lines : List Text} {list : Text}
    (plain : ∀ line ∈ lines, PlainLine line)
    (done : augmentLines none lines = .ok (some list)) (nonempty : edited [] (lineEdits lines) ≠ [])
    (valid : ∀ token ∈ edited [] (lineEdits lines), (protocol.lookup token).isSome)
    (denies : errorAction ≠ seccompRetAllow) :
    ∃ file, protocolBuildFilter errorAction list = .ok file ∧ ∀ d : SeccompData,
      verdict d.load file = some seccompRetAllow ↔
      ¬(d.arch = archNr ∧ x32SyscallBit ≤ d.nr) ∧
        SocketAllowed (edited [] (lineEdits lines)) d := by
  have few := length_le_of_protocols (edited_nodup List.nodup_nil (lineEdits lines)) valid
  rw [← strtok_sandboxList plain done] at *
  exact protocolBuildFilter_allows_iff nonempty valid (few.trans (by decide)) denies

/-- `protocol unix,inet`, then `protocol -unix,inet6`. -/
theorem protocolLines_inet : ∃ file, protocolBuildFilter 0x00050001 "inet,inet6".toList = .ok file ∧
    ∀ d : SeccompData, verdict d.load file = some seccompRetAllow ↔
      ¬(d.arch = archNr ∧ x32SyscallBit ≤ d.nr) ∧
      SocketAllowed (edited [] (lineEdits ["unix,inet".toList, "-unix,inet6".toList])) d :=
  protocolLines_allows_iff (by decide)
    (show augmentLines none ["unix,inet".toList, "-unix,inet6".toList] =
    .ok (some "inet,inet6".toList) by rfl)
    (by decide) (by decide) (by decide)

/-- The namespaces that the `restrict-namespaces` lines leave, where the filters are built for the
sandbox. -/
theorem namespaceLines_passes_iff {lines : List Text} {list : Text} {c : FilterConfig}
    (plain : ∀ line ∈ lines, PlainLine line) (done : augmentLines none lines = .ok (some list))
    (valid : ∀ name ∈ edited [] (lineEdits lines), (nsFlags.lookup name).isSome)
    (denies : c.seccompErrorAction ≠ seccompRetAllow) :
    ∃ files, seccompFilterNamespaces c list = .ok files ∧ ∀ d : SeccompData, Passes files d ↔
      ∀ native, d.arch ≠ archOf native ∨ (native = true → ¬x32SyscallBit ≤ d.nr) ∧
        NsAllowed native (edited [] (lineEdits lines)) d := by
  rw [← strtok_sandboxList plain done] at *
  obtain ⟨own, builtOwn, allowsOwn⟩ := denyNs_allows_iff true valid denies
  obtain ⟨other, builtOther, allowsOther⟩ := denyNs_allows_iff false valid denies
  refine ⟨[own, other], ?_, fun d => ?_⟩
  · rw [seccompFilterNamespaces, builtOwn, builtOther]
    rfl
  · rw [passes_pair, allowsOwn, allowsOther, Bool.forall_bool, and_comm]

/-- `restrict-namespaces net,time`, then `restrict-namespaces -time,user`. -/
theorem namespaceLines_net_user :
    ∃ files, seccompFilterNamespaces (codeExecConfig true none) "net,user".toList = .ok files ∧
    ∀ d : SeccompData, Passes files d ↔
      ∀ native, d.arch ≠ archOf native ∨ (native = true → ¬x32SyscallBit ≤ d.nr) ∧
      NsAllowed native (edited [] (lineEdits ["net,time".toList, "-time,user".toList])) d :=
  namespaceLines_passes_iff (by decide)
    (show augmentLines none ["net,time".toList, "-time,user".toList] =
    .ok (some "net,user".toList) by rfl) (by decide)
    (show eperm ≠ seccompRetAllow by decide)

end Filters

end Verl.Firejail
