import Verl.Base.CText
import Verl.Firejail.SeccompFile

/-! Lists of system calls (`lib/syscall.c`): how a list is read, and how it is split into what the
filter before `exec` and the filter behind it get. What is printed on the way is left out. -/
namespace Verl.Firejail

open Bpf CText

def syscallError : Int := intMax

def errnoKill : Int := -2

def unknownName : Text := "unknown".toList

def IsName (name : Text) : Prop :=
  name.head?.any (fun c => c ≠ '@' ∧ c ≠ '!' ∧ c ≠ '$') ∧ ',' ∉ name ∧ ':' ∉ name

instance (name : Text) : Decidable (IsName name) := by unfold IsName; infer_instance

/-- The system calls of one architecture, each once under one name. -/
structure SyscallEntries where
  entries : List (Text × Nat)
  names : (entries.map Prod.fst).Nodup
  numbers : (entries.map Prod.snd).Nodup
  each : ∀ entry ∈ entries, IsName entry.1 ∧ entry.1 ≠ unknownName ∧ entry.2 < intMax

/-- `errnolist`: the names differ also where the case of letters does not count. -/
structure ErrnoEntries where
  entries : List (Text × Nat)
  names : (entries.map (fun entry => entry.1.map Char.toLower)).Nodup
  each : ∀ entry ∈ entries, ',' ∉ entry.1 ∧ entry.1 ≠ "kill".toList ∧ 0 < entry.2 ∧ entry.2 < intMax

structure SyscallTables where
  syslist : SyscallEntries
  syslist32 : SyscallEntries
  sysgroups : List (Text × Text)
  errnolist : ErrnoEntries

def SyscallEntries.findName (list : SyscallEntries) (name : Text) : Int :=
  match list.entries.lookup name with
  | some nr => nr
  | none => syscallError

def SyscallEntries.findNr (list : SyscallEntries) (nr : Int) : Text :=
  match list.entries.find? (fun entry => entry.2 == nr) with
  | some entry => entry.1
  | none => unknownName

def ErrnoEntries.findName (list : ErrnoEntries) (name : Text) : Int :=
  match list.entries.find? (fun entry => caseEqual name entry.1) with
  | some entry => entry.2
  | none => -1

def ErrnoEntries.findNr (list : ErrnoEntries) (nr : Int) : Text :=
  match list.entries.find? (fun entry => entry.2 == nr) with
  | some entry => entry.1
  | none => unknownName

/-- One call that a list names: its number, negative where the list excepts it, and the `errno` that
it is to fail with, `-1` where none is given. -/
structure Entry where
  syscall : Int
  error : Int
deriving DecidableEq, Repr

namespace SyscallTables

variable (t : SyscallTables) (native : Bool)

def calls : SyscallEntries := if native then t.syslist else t.syslist32

def syscallFindGroup (name : Text) : Option Text := t.sysgroups.lookup name

def callNr (syscallName : Text) : Int :=
  if syscallName.head? = some '$' then
    toInt (strtol syscallName.tail)
  else (t.calls native).findName syscallName

def errorNr (errorName : Text) : Int :=
  if errorName = "kill".toList then errnoKill else t.errnolist.findName errorName

def syscallProcessName (name : Text) : Exits Entry :=
  let syscallName := name.takeWhile (· ≠ ':')
  if syscallName = [] then .error ("Error fseccomp: invalid syscall list entry ".toList ++ name)
  else
    match name.dropWhile (· ≠ ':') with
    | [] => .ok ⟨t.callNr native syscallName, -1⟩
    | _ :: errorName =>
      .ok ⟨if t.errorNr errorName = -1 then syscallError else t.callNr native syscallName,
      t.errorNr errorName⟩

/-- One element of a list that is no group. A call that is not known is left out. -/
def processElement (element : Text) : Exits (List Entry) := do
  let negate := element.head? = some '!'
  let entry ← t.syscallProcessName native (if negate then element.tail else element)
  return if entry.syscall = syscallError then []
    else [⟨if negate then toInt (-entry.syscall) else entry.syscall, entry.error⟩]

/-- The entries for which `syscall_check_list` calls its callback, in this order, with groups inside
groups to the given depth. -/
def entriesTo : Nat → Text → Exits (List Entry)
  | 0, _ => .error "syscall groups nested too deeply".toList
  | depth + 1, slist =>
    match strtok ',' slist with
    | [] => .error "Error fseccomp: empty syscall lists are not allowed".toList
    | elements =>
      List.flatten <$> elements.mapM (fun element =>
        if element.head? = some '@' then
          match t.syscallFindGroup element with
          | none => .error ("Error fseccomp: unknown syscall group ".toList ++ element)
          | some newList => entriesTo depth newList
        else t.processElement native element)

/-- `syscall_check_list`. The groups of the tables do not contain themselves, so that no list nests
deeper than there are groups. -/
def syscallCheckList (slist : Text) : Exits (List Entry) :=
  t.entriesTo native (t.sysgroups.length + 1) slist

end SyscallTables

def Entry.write (callback : Int → List SockFilter) (e : Entry) : List SockFilter :=
  if 0 ≤ e.error then filterAddErrno e.syscall e.error
  else if e.error = errnoKill then filterAddBlacklistOverride e.syscall
  else callback e.syscall

namespace SyscallTables

variable (t : SyscallTables) (native : Bool)

def writeList (slist : Text) (callback : Int → List SockFilter) : Exits (List SockFilter) := do
  return (← t.syscallCheckList native slist).flatMap (Entry.write callback)

/-- The text of an entry in the list before `exec`: an `errno` is written out again, `kill` is
lost. -/
def newcall (e : Entry) : Text :=
  (t.calls native).findNr e.syscall ++ if 0 < e.error then ':' :: t.errnolist.findNr e.error else []

def found (problems : List Entry) (e : Entry) : Bool :=
  problems.any (fun problem => (problem.syscall.natAbs : Int) == e.syscall)

def syscallInList (problems : List Entry) (lists : Option Text × Option Text) (e : Entry) :
    Option Text × Option Text :=
  if found problems e then (lists.1, extend ',' lists.2 ((t.calls native).findNr e.syscall))
  else (extend ',' lists.1 (t.newcall native e), lists.2)

def syscallsInList (list slist : Text) : Exits (Option Text × Option Text) := do
  (← t.syscallCheckList native list).foldlM
    (fun lists e => return t.syscallInList native (← t.syscallCheckList native slist) lists e)
      (none, none)

end SyscallTables

section Tables

theorem SyscallEntries.findName_of_mem (list : SyscallEntries) {name : Text} {nr : Nat}
    (member : (name, nr) ∈ list.entries) :
    list.findName name = nr := by
  have found : list.entries.lookup name = some nr := by
    obtain ⟨before, behind, same⟩ := List.append_of_mem member
    have apart : name ∉ before.map Prod.fst := by
      have names := list.names
      rw [same, List.map_append, List.map_cons, List.nodup_append] at names
      exact fun inside => names.2.2 name inside name List.mem_cons_self rfl
    have absent : before.lookup name = none := by
      rw [List.lookup_eq_none_iff]
      intro entry inside
      rw [bne_iff_ne]
      rintro rfl
      exact apart (List.mem_map_of_mem inside)
    rw [same, List.lookup_append, absent, Option.none_or, List.lookup_cons_self]
  rw [SyscallEntries.findName, found]

theorem SyscallEntries.findNr_of_mem (list : SyscallEntries) {name : Text} {nr : Nat}
    (member : (name, nr) ∈ list.entries) :
    list.findNr nr = name := by
  have found : list.entries.find? (fun entry => (entry.2 : Int) == nr) = some (name, nr) := by
    have unique := List.inj_on_of_nodup_map list.numbers
    cases search : list.entries.find? (fun entry => (entry.2 : Int) == nr) with
    | none => exact absurd (List.find?_eq_none.mp search _ member) (by simp)
    | some entry =>
      have same : entry.2 = nr := by simpa using List.find?_some search
      rw [unique (List.mem_of_find?_eq_some search) member same]
  rw [SyscallEntries.findNr, found]

def SyscallEntries.Known (list : SyscallEntries) (nr : Int) : Prop :=
  ∃ entry ∈ list.entries, (entry.2 : Int) = nr

instance (list : SyscallEntries) (nr : Int) :
    Decidable (list.Known nr) := by unfold SyscallEntries.Known; infer_instance

theorem SyscallEntries.findNr_of_not_known (list : SyscallEntries) {nr : Int}
    (unknown : ¬list.Known nr) : list.findNr nr = unknownName := by
  have absent : list.entries.find? (fun entry => (entry.2 : Int) == nr) = none := by
    rw [List.find?_eq_none]
    intro entry member
    simpa using fun same => unknown ⟨entry, member, same⟩
  rw [SyscallEntries.findNr, absent]

theorem SyscallEntries.findName_unknownName (list : SyscallEntries) :
    list.findName unknownName = syscallError := by
  have absent : list.entries.lookup unknownName = none := by
    rw [List.lookup_eq_none_iff]
    intro entry member
    simpa using (list.each entry member).2.1.symm
  rw [SyscallEntries.findName, absent]

theorem SyscallEntries.findName_findNr (list : SyscallEntries) (nr : Int) :
    list.findName (list.findNr nr) = if list.Known nr then nr else syscallError := by
  by_cases known : list.Known nr
  · obtain ⟨⟨name, number⟩, member, rfl⟩ := known
    rw [if_pos ⟨_, member, rfl⟩, list.findNr_of_mem member, list.findName_of_mem member]
  · rw [if_neg known, list.findNr_of_not_known known, list.findName_unknownName]

theorem SyscallEntries.isName_findNr (list : SyscallEntries) (nr : Int) :
    IsName (list.findNr nr) := by
  by_cases known : list.Known nr
  · obtain ⟨⟨name, number⟩, member, rfl⟩ := known
    rw [list.findNr_of_mem member]
    exact (list.each _ member).1
  · rw [list.findNr_of_not_known known]
    decide

theorem ErrnoEntries.findName_findNr (list : ErrnoEntries) {entry : Text × Nat}
    (member : entry ∈ list.entries) :
    list.findName (list.findNr entry.2) = entry.2 ∧ ',' ∉ list.findNr entry.2 ∧
      list.findNr entry.2 ≠ "kill".toList := by
  cases search : list.entries.find? (fun other => (other.2 : Int) == entry.2) with
  | none => exact absurd (List.find?_eq_none.mp search _ member) (by simp)
  | some first =>
    have inside := List.mem_of_find?_eq_some search
    have number : first.2 = entry.2 := by simpa using List.find?_some search
    have named : list.findNr entry.2 = first.1 := by rw [ErrnoEntries.findNr, search]
    have back : list.entries.find? (fun other => caseEqual first.1 other.1) = some first := by
      cases again : list.entries.find? (fun other => caseEqual first.1 other.1) with
      | none => exact absurd (List.find?_eq_none.mp again _ inside) (by simp [caseEqual])
      | some other =>
        have same : other.1.map Char.toLower = first.1.map Char.toLower := by
          have equal := List.find?_some again
          rw [caseEqual, beq_iff_eq] at equal
          exact equal.symm
        rw [List.inj_on_of_nodup_map list.names (List.mem_of_find?_eq_some again) inside same]
    rw [named, ErrnoEntries.findName, back]
    exact ⟨congrArg _ number, (list.each first inside).1, (list.each first inside).2.1⟩

theorem ErrnoEntries.findName_cases (list : ErrnoEntries) (name : Text) :
    list.findName name = -1 ∨ ∃ entry ∈ list.entries, list.findName name = entry.2 := by
  rw [ErrnoEntries.findName]
  split
  · rename_i entry search
    exact .inr ⟨entry, List.mem_of_find?_eq_some search, rfl⟩
  · exact .inl rfl

end Tables

section Read

variable {t : SyscallTables} {native : Bool}

def Entry.Sound (t : SyscallTables) (e : Entry) : Prop :=
  e.error = -1 ∨ e.error = errnoKill ∨ ∃ entry ∈ t.errnolist.entries, e.error = entry.2

theorem takeWhile_name {name : Text} (rest : Text) (colonless : ':' ∉ name)
    (colon : rest = [] ∨ rest.head? = some ':') :
    (name ++ rest).takeWhile (· ≠ ':') = name ∧ (name ++ rest).dropWhile (· ≠ ':') = rest := by
  have inside : ∀ c ∈ name, (decide (c ≠ ':')) = true := fun c member => by
    simpa using fun (same : c = ':') => colonless (same ▸ member)
  have stop : rest.takeWhile (· ≠ ':') = [] ∧ rest.dropWhile (· ≠ ':') = rest := by
    rcases colon with rfl | head
    · exact ⟨rfl, rfl⟩
    · obtain ⟨tail, rfl⟩ := List.head?_eq_some_iff.mp head
      exact ⟨rfl, rfl⟩
  rw [List.takeWhile_append_of_pos inside, List.dropWhile_append_of_pos inside, stop.1, stop.2,
    List.append_nil]
  exact ⟨rfl, rfl⟩

theorem IsName.head_ne {name : Text} (named : IsName name) :
    name ≠ [] ∧ name.head? ≠ some '@' ∧ name.head? ≠ some '!' ∧ name.head? ≠ some '$' := by
  obtain ⟨head, -, -⟩ := named
  cases name with
  | nil => cases head
  | cons c name =>
    simp only [List.head?_cons, Option.any_some, decide_eq_true_eq] at head
    simpa using head

theorem errorNr_cases (errorName : Text) :
    t.errorNr errorName = -1 ∨ t.errorNr errorName = errnoKill ∨ ∃ entry ∈ t.errnolist.entries,
      t.errorNr errorName = entry.2 := by
  rw [SyscallTables.errorNr]
  split
  · exact .inr (.inl rfl)
  · exact (t.errnolist.findName_cases errorName).imp_right .inr

theorem syscallProcessName_sound {name : Text} {e : Entry}
    (read : t.syscallProcessName native name = .ok e) : e.Sound t := by
  rw [SyscallTables.syscallProcessName] at read
  split at read
  · cases read
  · split at read
    · cases Except.ok.inj read
      exact .inl rfl
    · cases Except.ok.inj read
      exact errorNr_cases _

theorem processElement_sound {element : Text} {es : List Entry}
    (read : t.processElement native element = .ok es) :
    ∀ e ∈ es, e.Sound t := by
  rw [SyscallTables.processElement, Exits.bind_iff] at read
  obtain ⟨e, named, read⟩ := read
  rw [Exits.pure_iff] at read
  subst read
  intro e' member
  split at member
  · cases member
  · have sound := syscallProcessName_sound named
    rw [List.mem_singleton.mp member]
    exact sound

theorem entriesTo_sound {depth : Nat} {slist : Text} {es : List Entry}
    (read : t.entriesTo native depth slist = .ok es) :
    ∀ e ∈ es, e.Sound t := by
  induction depth generalizing slist es with
  | zero => cases read
  | succ depth ih =>
    rw [SyscallTables.entriesTo] at read
    split at read
    · cases read
    · rw [Exits.map_iff] at read
      obtain ⟨parts, each, rfl⟩ := read
      intro e member
      obtain ⟨part, inside, member⟩ := List.mem_flatten.mp member
      obtain ⟨element, -, made⟩ := exists_left_of_forall₂ (Exits.mapM_iff.mp each) inside
      split at made
      · split at made
        · cases made
        · exact ih made e member
      · exact processElement_sound made e member

def Entry.reread (t : SyscallTables) (native : Bool) (e : Entry) : List Entry :=
  if (t.calls native).Known e.syscall then
    [⟨e.syscall, if 0 < e.error then e.error else -1⟩]
  else []

theorem newcall_cases (native : Bool) {e : Entry} (sound : e.Sound t) :
    (¬0 < e.error ∧ t.newcall native e = (t.calls native).findNr e.syscall) ∨
      (0 < e.error ∧ ∃ entry ∈ t.errnolist.entries, e.error = entry.2 ∧
        t.newcall native e = (t.calls native).findNr e.syscall ++
          ':' :: t.errnolist.findNr entry.2) := by
  by_cases errno : 0 < e.error
  · obtain ⟨entry, member, same⟩ : ∃ entry ∈ t.errnolist.entries, e.error = entry.2 := by
      rcases sound with none | kill | given
      · omega
      · rw [kill, errnoKill] at errno
        omega
      · exact given
    exact .inr ⟨errno, entry, member, same, by rw [SyscallTables.newcall, if_pos errno, same]⟩
  · exact .inl ⟨errno, by rw [SyscallTables.newcall, if_neg errno, List.append_nil]⟩

theorem isToken_newcall {e : Entry} (sound : e.Sound t) : IsToken ',' (t.newcall native e) := by
  obtain ⟨head, comma, -⟩ := (t.calls native).isName_findNr e.syscall
  have nonempty := (IsName.head_ne ((t.calls native).isName_findNr e.syscall)).1
  rcases newcall_cases native sound with ⟨-, text⟩ | ⟨-, entry, member, -, text⟩
  · rw [text]
    exact ⟨nonempty, comma⟩
  · rw [text]
    refine ⟨by simp [nonempty], ?_⟩
    simp [comma, (t.errnolist.findName_findNr member).2.1]

theorem head_newcall {e : Entry} :
    (t.newcall native e).head? = ((t.calls native).findNr e.syscall).head? := by
  have nonempty := (IsName.head_ne ((t.calls native).isName_findNr e.syscall)).1
  rw [SyscallTables.newcall, List.head?_append_of_ne_nil _ nonempty]

theorem known_ne_error {nr : Int} (known : (t.calls native).Known nr) : nr ≠ syscallError := by
  obtain ⟨entry, member, rfl⟩ := known
  exact ((t.calls native).each entry member).2.2.ne

theorem syscallProcessName_newcall (native : Bool) {e : Entry} (sound : e.Sound t) :
    ∃ error, t.syscallProcessName native (t.newcall native e) =
      .ok ⟨if (t.calls native).Known e.syscall then e.syscall else syscallError, error⟩ ∧
        error = if 0 < e.error then e.error else -1 := by
  have named := (t.calls native).isName_findNr e.syscall
  obtain ⟨nonempty, -, -, dollar⟩ := IsName.head_ne named
  refine ⟨_, ?_, rfl⟩
  rcases newcall_cases native sound with ⟨none, text⟩ | ⟨some, entry, member, same, text⟩
  · obtain ⟨name, rest⟩ := takeWhile_name [] named.2.2 (.inl rfl)
    rw [List.append_nil] at name rest
    rw [text, SyscallTables.syscallProcessName]
    simp only [name, rest, if_neg nonempty, SyscallTables.callNr, if_neg dollar,
      SyscallEntries.findName_findNr, if_neg none]
  · obtain ⟨name, rest⟩ := takeWhile_name (':' :: t.errnolist.findNr entry.2) named.2.2 (.inr rfl)
    obtain ⟨back, -, kill⟩ := t.errnolist.findName_findNr member
    have given : (entry.2 : Int) ≠ -1 := by omega
    rw [same] at some ⊢
    rw [text, SyscallTables.syscallProcessName]
    simp only [name, rest, if_neg nonempty, SyscallTables.callNr, if_neg dollar,
      SyscallEntries.findName_findNr, if_pos some, SyscallTables.errorNr, if_neg kill,
      back, if_neg given]

theorem processElement_newcall {e : Entry} (sound : e.Sound t) :
    t.processElement native (t.newcall native e) = .ok (e.reread t native) := by
  obtain ⟨-, -, bang, -⟩ := IsName.head_ne ((t.calls native).isName_findNr e.syscall)
  obtain ⟨error, named, same⟩ := syscallProcessName_newcall native sound
  have plain : ¬(t.newcall native e).head? = some '!' := by rwa [head_newcall]
  rw [SyscallTables.processElement]
  simp only [plain, if_false, named, Exits.ok_bind]
  rw [Entry.reread, ← same]
  by_cases known : (t.calls native).Known e.syscall
  · rw [if_pos known, if_neg (known_ne_error known), if_pos known]
    rfl
  · rw [if_neg known, if_pos rfl, if_neg known]
    rfl

theorem syscallCheckList_newcalls {es : List Entry} (some : es ≠ []) (sound : ∀ e ∈ es, e.Sound t) :
    t.syscallCheckList native (List.intercalate [','] (es.map (t.newcall native))) =
      .ok (es.flatMap (Entry.reread t native)) := by
  have tokens : strtok ',' (List.intercalate [','] (es.map (t.newcall native))) =
      es.map (t.newcall native) := by
    refine strtok_intercalate (by simpa using some) ?_
    intro item member
    obtain ⟨e, inside, rfl⟩ := List.mem_map.mp member
    exact isToken_newcall (sound e inside)
  rw [SyscallTables.syscallCheckList, SyscallTables.entriesTo, tokens]
  split
  · rename_i empty
    exact absurd (List.map_eq_nil_iff.mp empty) some
  · rw [Exits.map_iff]
    refine ⟨es.map (Entry.reread t native), ?_, rfl⟩
    rw [Exits.mapM_iff, List.forall₂_map_left_iff, List.forall₂_map_right_iff, List.forall₂_same]
    intro e member
    have name : ¬(t.newcall native e).head? = Option.some '@' := by
      rw [head_newcall]
      exact (IsName.head_ne ((t.calls native).isName_findNr e.syscall)).2.1
    rw [if_neg name]
    exact processElement_newcall (sound e member)

def fewCalls : SyscallTables where
  syslist := ⟨[("read".toList, 0), ("socket".toList, 41), ("execve".toList, 59),
    ("ptrace".toList, 101), ("prctl".toList, 157), ("mount".toList, 165)], by
    decide, by decide, by decide⟩
  syslist32 := ⟨[("read".toList, 3), ("execve".toList, 11), ("ptrace".toList, 26),
    ("socket".toList, 359)], by decide, by decide, by decide⟩
  sysgroups := [("@mount".toList, "mount".toList), ("@default".toList, "@mount".toList),
    ("@default-nodebuggers".toList, "@default,ptrace".toList),
    ("@default-keep".toList, "execve,prctl".toList)]
  errnolist := ⟨[("EPERM".toList, 1), ("ENOSYS".toList, 38)], by decide, by decide⟩

end Read

section Split

variable {t : SyscallTables} {native : Bool}

/-- The items joined to one list, none where there are no items. -/
def joined (items : List Text) : Option Text :=
  if items = [] then none else some (List.intercalate [','] items)

/-- An entry of the list behind `exec`: its `errno` is not kept. -/
def Entry.plain (e : Entry) : Entry := ⟨e.syscall, -1⟩

theorem Entry.plain_sound (e : Entry) : e.plain.Sound t := .inl rfl

theorem newcall_plain (e : Entry) :
    t.newcall native e.plain = (t.calls native).findNr e.syscall := by
  rw [SyscallTables.newcall, if_neg (by simp [Entry.plain]), List.append_nil, Entry.plain]

theorem foldl_syscallInList (problems es : List Entry) (lists : Option Text × Option Text) :
    es.foldl (t.syscallInList native problems) lists =
      (((es.filter (fun e => !SyscallTables.found problems e)).map (t.newcall native)).foldl
        (extend ',') lists.1,
          ((es.filter (SyscallTables.found problems)).map (fun e => t.newcall native e.plain)).foldl
          (extend ',') lists.2) := by
  induction es generalizing lists with
  | nil => rfl
  | cons e es ih =>
    rw [List.foldl_cons, ih, SyscallTables.syscallInList]
    cases among : SyscallTables.found problems e with
    | true => simp [among, newcall_plain]
    | false => simp [among]

/-- The entries that are no problem stay before `exec`, the others go behind it. -/
theorem syscallsInList_eq {list slist : Text} {es problems : List Entry}
    (read : t.syscallCheckList native list = .ok es)
    (known : t.syscallCheckList native slist = .ok problems) : t.syscallsInList native list slist =
      .ok (joined ((es.filter (fun e => !SyscallTables.found problems e)).map (t.newcall native)),
        joined ((es.filter (SyscallTables.found problems)).map (fun e =>
          t.newcall native e.plain))) := by
  rw [SyscallTables.syscallsInList, read, Exits.ok_bind, known]
  refine (Exits.foldlM_foldl (g := t.syscallInList native problems) (fun _ _ => rfl) es (none,
    none)).trans ?_
  rw [foldl_syscallInList, foldl_extend, foldl_extend]
  rfl

end Split

section Depth

variable {t : SyscallTables} {native : Bool}

def SyscallTables.Ranked (t : SyscallTables) (rank : Text → Nat) : Prop :=
  ∀ name list, t.syscallFindGroup name = some list → rank name < t.sysgroups.length ∧
    ∀ element ∈ strtok ',' list, (t.syscallFindGroup element).isSome → rank element < rank name

theorem entriesTo_congr {rank : Text → Nat} (ranked : t.Ranked rank) {bound depth depth' : Nat}
    (first : bound < depth) (second : bound < depth')
    {slist : Text} (below : ∀ element ∈ strtok ',' slist, (t.syscallFindGroup element).isSome →
      rank element < bound) :
    t.entriesTo native depth slist = t.entriesTo native depth' slist := by
  induction bound generalizing depth depth' slist with
  | zero =>
    obtain ⟨depth, rfl⟩ := Nat.exists_eq_succ_of_ne_zero first.ne'
    obtain ⟨depth', rfl⟩ := Nat.exists_eq_succ_of_ne_zero second.ne'
    rw [SyscallTables.entriesTo, SyscallTables.entriesTo]
    split
    · rfl
    · refine congrArg _ (Exits.mapM_congr fun element member => ?_)
      split
      · split
        · rfl
        · rename_i list found
          exact absurd (below element member (by rw [found]; rfl)) (Nat.not_lt_zero _)
      · rfl
  | succ bound ih =>
    obtain ⟨depth, rfl⟩ := Nat.exists_eq_succ_of_ne_zero (Nat.ne_zero_of_lt first)
    obtain ⟨depth', rfl⟩ := Nat.exists_eq_succ_of_ne_zero (Nat.ne_zero_of_lt second)
    rw [SyscallTables.entriesTo, SyscallTables.entriesTo]
    split
    · rfl
    · refine congrArg _ (Exits.mapM_congr fun element member => ?_)
      split
      · split
        · rfl
        · rename_i list found
          have less := below element member (by rw [found]; rfl)
          refine ih (by omega) (by omega) fun inner inside some => ?_
          have falls := (ranked element list found).2 inner inside some
          omega
      · rfl

/-- Where the groups are ranked, no list is cut off at the depth that `syscallCheckList` goes to. -/
theorem entriesTo_eq_syscallCheckList {rank : Text → Nat} (ranked : t.Ranked rank) {depth : Nat}
    (deep : t.sysgroups.length < depth)
    (slist : Text) : t.entriesTo native depth slist = t.syscallCheckList native slist := by
  refine entriesTo_congr ranked deep (Nat.lt_succ_self _) fun element _ some => ?_
  obtain ⟨list, found⟩ := Option.isSome_iff_exists.mp some
  exact (ranked element list found).1

end Depth

end Verl.Firejail
