import Verl.Firejail.SyscallList

/-! The filters for lists of system calls (`fseccomp/seccomp.c`): what each of them answers to a
call, read off the entries of the list. -/
namespace Verl.Firejail

open Bpf CText

def defaultKeep : Text := "@default-keep".toList

def defaultGroup (allowDebuggers : Bool) : Text :=
  if allowDebuggers then "@default".toList else "@default-nodebuggers".toList

section Build

variable (t : SyscallTables) (errorAction : BitVec 32)

def addPrelist (native : Bool) : Option Text → Exits (List SockFilter)
  | none => return []
  | some prelist => t.writeList native prelist (filterAddBlacklist errorAction)

/-- The file behind `exec` is only written where the list has something for it. -/
def addPostlist (native : Bool) : Option Text → Exits (Option (List SockFilter))
  | none => return none
  | some postlist => do
    return some (filterInit errorAction native ++
      (← t.writeList native postlist (filterAddBlacklist errorAction)) ++ filterEndBlacklist)

/-- The two files of `seccomp_drop` and `seccomp_default_drop`, with what is written between the
exceptions and the list. -/
def dropFiles (between : Exits (List SockFilter)) (list : Text) (native : Bool) :
    Exits (List SockFilter × Option (List SockFilter)) := do
  let excluded ← t.writeList native list filterAddWhitelistForExcluded
  let default ← between
  let (prelist, postlist) ← t.syscallsInList native list defaultKeep
  let pre ← addPrelist t errorAction native prelist
  let post ← addPostlist t errorAction native postlist
  return (filterInit errorAction native ++ (excluded ++ default ++ pre) ++ filterEndBlacklist, post)

def seccompDrop (list : Text) (native : Bool) :
    Exits (List SockFilter × Option (List SockFilter)) :=
  dropFiles t errorAction (return []) list native

def seccompKeep (list : Text) (native : Bool) : Exits (List SockFilter) := do
  let excluded ← t.writeList native list (filterAddBlacklistForExcluded errorAction)
  let keep ← t.writeList native defaultKeep filterAddWhitelist
  let listed ← t.writeList native list filterAddWhitelist
  return filterInit errorAction native ++ (excluded ++ keep ++ listed) ++
    filterEndWhitelist errorAction

end Build

section Rules

/-- The number and the value of each pair of instructions that is written for an entry. -/
def Entry.rules (callback : Int → List (BitVec 32 × BitVec 32)) (e : Entry) :
    List (BitVec 32 × BitVec 32) :=
  if 0 ≤ e.error then [(BitVec.ofInt 32 e.syscall, seccompRetErrno ||| BitVec.ofInt 32 e.error)]
  else if e.error = errnoKill then if 0 ≤ e.syscall then
    [(BitVec.ofInt 32 e.syscall, seccompRetKill)] else []
  else callback e.syscall

def listed (value : BitVec 32) (syscall : Int) : List (BitVec 32 × BitVec 32) :=
  if 0 ≤ syscall then [(BitVec.ofInt 32 syscall, value)] else []

def excepted (value : BitVec 32) (syscall : Int) : List (BitVec 32 × BitVec 32) :=
  if syscall < 0 then [(BitVec.ofInt 32 (-syscall), value)] else []

theorem chain_listed (value : BitVec 32) (syscall : Int) :
    chain (listed value syscall) = if 0 ≤ syscall then
      entry (BitVec.ofInt 32 syscall) value else [] := by
  rw [listed]
  split <;> simp [chain]

theorem chain_excepted (value : BitVec 32) (syscall : Int) :
    chain (excepted value syscall) = if syscall < 0 then
      entry (BitVec.ofInt 32 (-syscall)) value else [] := by
  rw [excepted]
  split <;> simp [chain]

theorem filterAddBlacklist_eq (errorAction : BitVec 32) (syscall : Int) :
    filterAddBlacklist errorAction syscall = chain (listed errorAction syscall) :=
  (chain_listed errorAction syscall).symm

theorem filterAddWhitelist_eq (syscall : Int) :
    filterAddWhitelist syscall = chain (listed seccompRetAllow syscall) :=
  (chain_listed seccompRetAllow syscall).symm

theorem filterAddBlacklistForExcluded_eq (errorAction : BitVec 32) (syscall : Int) :
    filterAddBlacklistForExcluded errorAction syscall = chain (excepted errorAction syscall) :=
  (chain_excepted errorAction syscall).symm

theorem filterAddWhitelistForExcluded_eq (syscall : Int) :
    filterAddWhitelistForExcluded syscall = chain (excepted seccompRetAllow syscall) :=
  (chain_excepted seccompRetAllow syscall).symm

theorem write_eq_chain {callback : Int → List SockFilter}
    {rules : Int → List (BitVec 32 × BitVec 32)}
    (plain : ∀ syscall, callback syscall = chain (rules syscall)) (e : Entry) :
    e.write callback = chain (e.rules rules) := by
  rw [Entry.write, Entry.rules]
  split
  · simp [chain, filterAddErrno, blacklistErrno]
  · split
    · exact filterAddBlacklist_eq seccompRetKill e.syscall
    · exact plain e.syscall

theorem flatMap_write {callback : Int → List SockFilter}
    {rules : Int → List (BitVec 32 × BitVec 32)}
    (plain : ∀ syscall, callback syscall = chain (rules syscall)) (es : List Entry) :
    es.flatMap (Entry.write callback) = chain (es.flatMap (Entry.rules rules)) := by
  induction es with
  | nil => rfl
  | cons e es ih =>
    rw [List.flatMap_cons, List.flatMap_cons, chain_append, ih, write_eq_chain plain]

theorem writeList_chain {t : SyscallTables} {native : Bool} {slist : Text}
    {callback : Int → List SockFilter} {rules : Int → List (BitVec 32 × BitVec 32)}
    (plain : ∀ syscall, callback syscall = chain (rules syscall)) {es : List Entry}
    (read : t.syscallCheckList native slist = .ok es) :
    t.writeList native slist callback = .ok (chain (es.flatMap (Entry.rules rules))) := by
  rw [SyscallTables.writeList, read, Exits.ok_bind, flatMap_write plain]
  rfl

end Rules

section Answers

/-- The answer of a filter to a call, for the calls that the rest of the filter sees. -/
def guarded (errorAction : BitVec 32) (native : Bool) (answer : BitVec 32 → BitVec 32)
    (d : SeccompData) : BitVec 32 :=
  if d.arch ≠ archOf native then seccompRetAllow
  else if native ∧ x32SyscallBit ≤ d.nr then errorAction
  else answer d.nr

theorem verdict_of_exec {d : SeccompData} {errorAction answer : BitVec 32} {rest : List SockFilter}
    (native : Bool) (answers : exec d.load rest 0 d.nr = .ret answer) :
    verdict d.load (filterInit errorAction native ++ rest) =
      some (guarded errorAction native (fun _ => answer) d) := by
  refine verdict_eq ?_
  rw [exec_filterInit, guarded, answers]
  split
  · rfl
  · split <;> rfl

theorem verdict_guarded (d : SeccompData) (errorAction last : BitVec 32) (native : Bool)
    (rules : List (BitVec 32 × BitVec 32)) :
    verdict d.load (filterInit errorAction native ++ chain rules ++ [stmt retK last]) =
      some (guarded errorAction native (fun nr => (rules.lookup nr).getD last) d) := by
  rw [List.append_assoc]
  refine verdict_of_exec native ?_
  rw [exec_chain]
  cases rules.lookup d.nr with
  | none => exact exec_ret last [] d.nr
  | some value => rfl

/-- What the entries of a list say about a call, the first one that says anything. -/
def answers (callback : Int → List (BitVec 32 × BitVec 32)) (es : List Entry) (nr : BitVec 32) :
    Option (BitVec 32) :=
  es.findSome? (fun e => (e.rules callback).lookup nr)

theorem lookup_flatMap_rules (callback : Int → List (BitVec 32 × BitVec 32)) (es : List Entry)
    (nr : BitVec 32) : (es.flatMap (Entry.rules callback)).lookup nr = answers callback es nr := by
  induction es with
  | nil => rfl
  | cons e es ih =>
    rw [List.flatMap_cons, List.lookup_append, ih, answers, answers, List.findSome?_cons]
    cases (e.rules callback).lookup nr <;> rfl

theorem answers_append (callback : Int → List (BitVec 32 × BitVec 32)) (a b : List Entry)
    (nr : BitVec 32) :
    answers callback (a ++ b) nr = (answers callback a nr).or (answers callback b nr) :=
  List.findSome?_append

variable {value nr : BitVec 32}

theorem lookup_listed (syscall : Int) :
    (listed value syscall).lookup nr = if 0 ≤ syscall ∧ nr = BitVec.ofInt 32 syscall then some value
      else none := by
  rw [listed]
  by_cases positive : 0 ≤ syscall
  · by_cases here : nr = BitVec.ofInt 32 syscall
    · simp [positive, here]
    · simp [positive, here, List.lookup_cons, beq_eq_false_iff_ne.mpr here]
  · simp [positive]

theorem lookup_excepted (syscall : Int) :
    (excepted value syscall).lookup nr = if syscall < 0 ∧ nr = BitVec.ofInt 32 (-syscall) then
      some value else none := by
  rw [excepted]
  by_cases negative : syscall < 0
  · by_cases here : nr = BitVec.ofInt 32 (-syscall)
    · simp [negative, here]
    · simp [negative, here, List.lookup_cons, beq_eq_false_iff_ne.mpr here]
  · simp [negative]

/-- Entries without an `errno` answer with the one value of the list. -/
theorem answers_plain {callback : Int → List (BitVec 32 × BitVec 32)} {P : Int → Prop}
    [DecidablePred P]
    (each : ∀ syscall, (callback syscall).lookup nr = if P syscall then some value else none)
    {es : List Entry}
    (plain : ∀ e ∈ es, e.error = -1) : answers callback es nr = if ∃ e ∈ es, P e.syscall then
      some value else none := by
  induction es with
  | nil => simp [answers]
  | cons e es ih =>
    have single : e.rules callback = callback e.syscall := by
      rw [Entry.rules, plain e List.mem_cons_self, errnoKill]
      rfl
    have rest := ih fun e' member => plain e' (List.mem_cons_of_mem e member)
    rw [answers] at rest ⊢
    rw [List.findSome?_cons, single, each, rest]
    by_cases here : P e.syscall
    · rw [if_pos here]
      exact (if_pos ⟨e, List.mem_cons_self, here⟩).symm
    · rw [if_neg here]
      simp only [List.mem_cons, exists_eq_or_imp, here, false_or]

end Answers

section Drop

variable {t : SyscallTables} {native : Bool} {errorAction nr : BitVec 32}
  {es problems defaults : List Entry}

/-- An entry for a call answers at its first reading, unless it only lists the call. -/
theorem only_lists {e : Entry} (silent : (e.rules (excepted seccompRetAllow)).lookup nr = none)
    (positive : 0 ≤ e.syscall)
    (here : nr = BitVec.ofInt 32 e.syscall) : ¬0 ≤ e.error ∧ e.error ≠ errnoKill := by
  constructor
  · intro errno
    rw [Entry.rules, if_pos errno, here, List.lookup_cons_self] at silent
    cases silent
  · intro kill
    have negative : ¬0 ≤ e.error := by
      rw [kill, errnoKill]
      decide
    rw [Entry.rules, if_neg negative, if_pos kill, if_pos positive, here,
      List.lookup_cons_self] at silent
    cases silent

theorem nonneg_of_known {syscall : Int} (known : (t.calls native).Known syscall) : 0 ≤ syscall := by
  obtain ⟨entry, -, rfl⟩ := known
  exact Int.natCast_nonneg _

theorem lookup_rules_of_ne {callback : Int → List (BitVec 32 × BitVec 32)} {e : Entry}
    (apart : nr ≠ BitVec.ofInt 32 e.syscall)
    (plain : (callback e.syscall).lookup nr = none) : (e.rules callback).lookup nr = none := by
  have other : ∀ value : BitVec 32, List.lookup nr [(BitVec.ofInt 32 e.syscall, value)] = none := by
    intro value
    rw [List.lookup_cons, beq_eq_false_iff_ne.mpr apart]
    rfl
  rw [Entry.rules]
  split
  · exact other _
  · split
    · split
      · exact other _
      · rfl
    · exact plain

theorem answers_reread_single {e : Entry}
    (silent : (e.rules (excepted seccompRetAllow)).lookup nr = none) :
    answers (listed errorAction) (e.reread t native) nr =
      if (t.calls native).Known e.syscall ∧ nr = BitVec.ofInt 32 e.syscall then
        some errorAction
      else none := by
  rw [Entry.reread]
  by_cases known : (t.calls native).Known e.syscall
  · have positive := nonneg_of_known known
    rw [if_pos known]
    by_cases here : nr = BitVec.ofInt 32 e.syscall
    · have plain : ¬0 < e.error := fun errno => (only_lists silent positive here).1 errno.le
      rw [if_neg plain, answers_plain lookup_listed (by simp), if_pos (⟨known, here⟩ : _ ∧ _)]
      exact if_pos ⟨_, List.mem_cons_self, positive, here⟩
    · rw [if_neg (fun (both : _ ∧ _) => here both.2), answers, List.findSome?_singleton]
      refine lookup_rules_of_ne here ?_
      rw [lookup_listed, if_neg (fun both => here both.2)]
  · rw [if_neg known, if_neg (fun (both : _ ∧ _) => known both.1)]
    rfl

/-- What the list before `exec` adds where the entries say nothing themselves. -/
theorem answers_reread (native : Bool) (errorAction : BitVec 32) (p : Entry → Bool)
    (silent : answers (excepted seccompRetAllow) es nr = none) :
    answers (listed errorAction) ((es.filter p).flatMap (Entry.reread t native)) nr =
      if ∃ e ∈ es, p e = true ∧ (t.calls native).Known e.syscall ∧
          nr = BitVec.ofInt 32 e.syscall then some errorAction else none := by
  induction es with
  | nil => rfl
  | cons e es ih =>
    rw [answers, List.findSome?_cons] at silent
    cases first : (e.rules (excepted seccompRetAllow)).lookup nr with
    | some value =>
      rw [first] at silent
      cases silent
    | none =>
      rw [first] at silent
      have rest := ih silent
      simp only [List.mem_cons, exists_eq_or_imp]
      cases chosen : p e with
      | false => simpa [List.filter_cons_of_neg, chosen] using rest
      | true =>
        rw [List.filter_cons_of_pos chosen, List.flatMap_cons, answers_append,
          answers_reread_single first, rest]
        by_cases here : (t.calls native).Known e.syscall ∧ nr = BitVec.ofInt 32 e.syscall
        · simp [here]
        · simp [here]

/-- The answer before `exec`: what an entry says itself, then the default list, then the rest of the
list as far as it is no problem for what firejail still has to do. -/
def preAnswer (t : SyscallTables) (native : Bool) (errorAction : BitVec 32)
    (defaults problems es : List Entry) (nr : BitVec 32) : BitVec 32 :=
  ((answers (excepted seccompRetAllow) es nr).or (answers (listed errorAction) defaults nr)).getD
    (if ∃ e ∈ es, (!SyscallTables.found problems e) = true ∧ (t.calls native).Known e.syscall ∧
        nr = BitVec.ofInt 32 e.syscall
      then errorAction else seccompRetAllow)

def postAnswer (t : SyscallTables) (native : Bool) (errorAction : BitVec 32)
    (problems es : List Entry) (nr : BitVec 32) : BitVec 32 :=
  if ∃ e ∈ es, SyscallTables.found problems e = true ∧ (t.calls native).Known e.syscall ∧
      nr = BitVec.ofInt 32 e.syscall
    then errorAction else seccompRetAllow

theorem addPrelist_joined (native : Bool) (errorAction : BitVec 32) (sound : ∀ e ∈ es, e.Sound t) :
    addPrelist t errorAction native (joined (es.map (t.newcall native))) =
    .ok (chain ((es.flatMap (Entry.reread t native)).flatMap
      (Entry.rules (listed errorAction)))) := by
  rw [joined]
  split
  · rename_i none
    rw [List.map_eq_nil_iff.mp none]
    rfl
  · rename_i some
    rw [addPrelist]
    exact writeList_chain (filterAddBlacklist_eq errorAction)
      (syscallCheckList_newcalls (by simpa using some) sound)

theorem addPostlist_joined (native : Bool) (errorAction : BitVec 32) (sound : ∀ e ∈ es, e.Sound t) :
    addPostlist t errorAction native (joined (es.map (t.newcall native))) =
    .ok (if es = [] then none else some (filterInit errorAction native ++
      chain ((es.flatMap (Entry.reread t native)).flatMap (Entry.rules (listed errorAction))) ++
        filterEndBlacklist)) := by
  rw [joined]
  by_cases none : es = []
  · rw [if_pos (by simpa using none), if_pos none]
    rfl
  · rw [if_neg (by simpa using none), if_neg none, addPostlist,
      writeList_chain (filterAddBlacklist_eq errorAction) (syscallCheckList_newcalls none sound)]
    rfl

theorem syscallCheckList_sound {list : Text} (read : t.syscallCheckList native list = .ok es) :
    ∀ e ∈ es, e.Sound t :=
  entriesTo_sound read

def preRules (t : SyscallTables) (native : Bool) (errorAction : BitVec 32)
    (defaults problems es : List Entry) : List (BitVec 32 × BitVec 32) :=
  es.flatMap (Entry.rules (excepted seccompRetAllow)) ++
    defaults.flatMap (Entry.rules (listed errorAction)) ++
    ((es.filter (fun e => !SyscallTables.found problems e)).flatMap (Entry.reread t native)).flatMap
      (Entry.rules (listed errorAction))

def postRules (t : SyscallTables) (native : Bool) (errorAction : BitVec 32)
    (problems es : List Entry) : List (BitVec 32 × BitVec 32) :=
  (((es.filter (SyscallTables.found problems)).map Entry.plain).flatMap
    (Entry.reread t native)).flatMap (Entry.rules (listed errorAction))

/-- A filter that lets through what it has no rule for. -/
def listFile (errorAction : BitVec 32) (native : Bool) (rules : List (BitVec 32 × BitVec 32)) :
    List SockFilter :=
  filterInit errorAction native ++ chain rules ++ filterEndBlacklist

theorem getD_lookup_preRules (nr : BitVec 32) :
    ((preRules t native errorAction defaults problems es).lookup nr).getD seccompRetAllow =
    preAnswer t native errorAction defaults problems es nr := by
  rw [preRules, List.lookup_append, List.lookup_append, lookup_flatMap_rules, lookup_flatMap_rules,
    lookup_flatMap_rules, preAnswer]
  cases own : answers (excepted seccompRetAllow) es nr with
  | some value => rfl
  | none =>
    rw [answers_reread _ _ _ own, Option.none_or]
    cases answers (listed errorAction) defaults nr with
    | some value => rfl
    | none =>
      rw [Option.none_or, Option.getD_none]
      split <;> rfl

theorem nonneg_of_found {e : Entry} (problem : SyscallTables.found problems e = true) :
    0 ≤ e.syscall := by
  rw [SyscallTables.found, List.any_eq_true] at problem
  obtain ⟨other, -, same⟩ := problem
  rw [← beq_iff_eq.mp same]
  exact Int.natCast_nonneg _

theorem getD_lookup_postRules (nr : BitVec 32) :
    ((postRules t native errorAction problems es).lookup nr).getD seccompRetAllow =
    postAnswer t native errorAction problems es nr := by
  have silent : answers (excepted seccompRetAllow)
      ((es.filter (SyscallTables.found problems)).map Entry.plain) nr = none := by
    rw [answers, List.findSome?_eq_none_iff]
    intro plain member
    obtain ⟨e, inside, rfl⟩ := List.mem_map.mp member
    have positive := nonneg_of_found (List.mem_filter.mp inside).2
    have nothing : e.plain.rules (excepted seccompRetAllow) = [] := by
      rw [Entry.rules, if_neg (by simp [Entry.plain]), if_neg (by simp [Entry.plain, errnoKill]),
        excepted, if_neg (by simpa [Entry.plain] using positive)]
    rw [nothing]
    rfl
  have all : ∀ fs : List Entry, fs.filter (fun _ => true) = fs :=
    fun fs => List.filter_eq_self.mpr (fun _ _ => rfl)
  have reread := answers_reread (t := t) native errorAction (fun _ => true) silent
  rw [all] at reread
  have same : (∃ e ∈ (es.filter (SyscallTables.found problems)).map Entry.plain,
      true = true ∧ (t.calls native).Known e.syscall ∧ nr = BitVec.ofInt 32 e.syscall) ↔
      ∃ e ∈ es, SyscallTables.found problems e = true ∧ (t.calls native).Known e.syscall ∧
        nr = BitVec.ofInt 32 e.syscall := by
    constructor
    · rintro ⟨_, member, -, here⟩
      obtain ⟨e, inside, rfl⟩ := List.mem_map.mp member
      exact ⟨e, List.mem_of_mem_filter inside, (List.mem_filter.mp inside).2, here⟩
    · rintro ⟨e, member, problem, here⟩
      exact ⟨e.plain, List.mem_map_of_mem (List.mem_filter.mpr ⟨member, problem⟩), rfl, here⟩
  rw [postRules, lookup_flatMap_rules, reread, postAnswer, if_congr same rfl rfl]
  split <;> rfl

/-- Both files of a drop list, where the list and the group for firejail itself can be read. -/
theorem dropFiles_eq {list : Text} (read : t.syscallCheckList native list = .ok es)
    (keep : t.syscallCheckList native defaultKeep = .ok problems)
    {between : Exits (List SockFilter)}
    (middle : between = .ok (chain (defaults.flatMap (Entry.rules (listed errorAction))))) :
    dropFiles t errorAction between list native =
      .ok (listFile errorAction native (preRules t native errorAction defaults problems es),
        if es.filter (SyscallTables.found problems) = [] then none
        else some (listFile errorAction native (postRules t native errorAction problems es))) := by
  have sound := syscallCheckList_sound read
  have before := addPrelist_joined native errorAction
    fun e (member : e ∈ es.filter (fun e => !SyscallTables.found problems e)) =>
      sound e (List.mem_of_mem_filter member)
  have behind := addPostlist_joined native errorAction
    fun e (member : e ∈ (es.filter (SyscallTables.found problems)).map Entry.plain) => by
      obtain ⟨f, -, rfl⟩ := List.mem_map.mp member
      exact f.plain_sound (t := t)
  rw [List.map_map] at behind
  have lists := syscallsInList_eq read keep
  rw [show (fun e => t.newcall native e.plain) = t.newcall native ∘ Entry.plain from rfl] at lists
  rw [dropFiles, writeList_chain filterAddWhitelistForExcluded_eq read, Exits.ok_bind, middle,
    Exits.ok_bind, lists, Exits.ok_bind]
  dsimp only
  rw [before, Exits.ok_bind, behind, Exits.ok_bind]
  simp only [List.map_eq_nil_iff]
  rw [listFile, preRules, chain_append, chain_append]
  rfl

theorem verdict_listFile (d : SeccompData) (rules : List (BitVec 32 × BitVec 32)) :
    verdict d.load (listFile errorAction native rules) =
    some (guarded errorAction native (fun nr => (rules.lookup nr).getD seccompRetAllow) d) :=
  verdict_guarded d errorAction seccompRetAllow native rules

theorem eq_of_ofInt_eq {a b : Int} (first : (t.calls native).Known a)
    (second : (t.calls native).Known b) (same : BitVec.ofInt 32 a = BitVec.ofInt 32 b) : a = b := by
  obtain ⟨⟨name, m⟩, member, rfl⟩ := first
  obtain ⟨⟨name', n⟩, member', rfl⟩ := second
  have small := ((t.calls native).each _ member).2.2
  have small' := ((t.calls native).each _ member').2.2
  have words := congrArg BitVec.toNat same
  simp only [BitVec.ofInt_natCast, BitVec.toNat_ofNat, intMax] at words small small'
  omega

theorem found_of_known {p e : Entry} (member : p ∈ problems)
    (own : (t.calls native).Known p.syscall) (known : (t.calls native).Known e.syscall)
    (same : BitVec.ofInt 32 p.syscall = BitVec.ofInt 32 e.syscall) :
    SyscallTables.found problems e = true := by
  rw [SyscallTables.found, List.any_eq_true]
  refine ⟨p, member, ?_⟩
  rw [beq_iff_eq, Int.natAbs_of_nonneg (nonneg_of_known own)]
  exact eq_of_ofInt_eq own known same

theorem guarded_own {answer : BitVec 32 → BitVec 32} {d : SeccompData}
    (arch : d.arch = archOf native) (low : native = true → ¬x32SyscallBit ≤ d.nr) :
    guarded errorAction native answer d = answer d.nr := by
  rw [guarded, if_neg (not_not_intro arch), if_neg (fun both => low both.1 both.2)]

theorem guarded_allows_iff {d : SeccompData} {errorAction : BitVec 32} {native : Bool}
    (answer : BitVec 32 → BitVec 32) (denies : errorAction ≠ seccompRetAllow) :
    guarded errorAction native answer d = seccompRetAllow ↔
      d.arch ≠ archOf native ∨ (native = true → ¬x32SyscallBit ≤ d.nr) ∧
        answer d.nr = seccompRetAllow := by
  by_cases arch : d.arch = archOf native
  · by_cases x32 : native = true ∧ x32SyscallBit ≤ d.nr
    · rw [guarded, if_neg (not_not_intro arch), if_pos x32]
      exact iff_of_false denies (fun either =>
        either.elim (fun other => other arch) (fun low => low.1 x32.1 x32.2))
    · have low : native = true → ¬x32SyscallBit ≤ d.nr := fun isNative high => x32 ⟨isNative, high⟩
      rw [guarded_own arch low]
      exact ⟨fun answered => .inr ⟨low, answered⟩, fun either =>
        either.elim (fun other => absurd arch other) And.right⟩
  · rw [guarded, if_pos arch]
    exact iff_of_true rfl (.inl arch)

/-- A call that firejail itself still has to make is only denied before `exec` where an entry of its
own says so; what is listed is denied before `exec` or behind it. -/
theorem seccompDrop_splits {list : Text} (read : t.syscallCheckList native list = .ok es)
    (keep : t.syscallCheckList native defaultKeep = .ok problems)
    (own : ∀ p ∈ problems, (t.calls native).Known p.syscall)
    (denies : errorAction ≠ seccompRetAllow) :
    ∃ pre post, seccompDrop t errorAction list native = .ok (pre, post) ∧
      ∀ d : SeccompData, d.arch = archOf native → (native = true → ¬x32SyscallBit ≤ d.nr) →
        ((∃ p ∈ problems, d.nr = BitVec.ofInt 32 p.syscall) →
          verdict d.load pre =
            some ((answers (excepted seccompRetAllow) es d.nr).getD seccompRetAllow)) ∧
        (answers (excepted seccompRetAllow) es d.nr = none →
          ((verdict d.load pre = some seccompRetAllow ∧ ∀ file, post = some file →
            verdict d.load file = some seccompRetAllow) ↔
            ¬∃ e ∈ es, (t.calls native).Known e.syscall ∧ d.nr = BitVec.ofInt 32 e.syscall)) := by
  have none : (return [] : Exits (List SockFilter)) =
    .ok (chain (([] : List Entry).flatMap (Entry.rules (listed errorAction)))) := rfl
  refine ⟨_, _, dropFiles_eq read keep none, fun d arch low => ⟨?_, ?_⟩⟩
  · rintro ⟨p, member, here⟩
    have spared : ¬∃ e ∈ es, (!SyscallTables.found problems e) = true ∧
        (t.calls native).Known e.syscall ∧ d.nr = BitVec.ofInt 32 e.syscall := by
      rintro ⟨e, -, free, known, there⟩
      rw [found_of_known member (own p member) known (here.symm.trans there)] at free
      cases free
    rw [verdict_listFile, guarded_own arch low, getD_lookup_preRules, preAnswer, if_neg spared]
    cases answers (excepted seccompRetAllow) es d.nr <;> rfl
  · intro silent
    have first : verdict d.load
      (listFile errorAction native (preRules t native errorAction [] problems es)) = some
        (if ∃ e ∈ es, (!SyscallTables.found problems e) = true ∧ (t.calls native).Known e.syscall ∧
            d.nr = BitVec.ofInt 32 e.syscall
          then errorAction else seccompRetAllow) := by
      rw [verdict_listFile, guarded_own arch low, getD_lookup_preRules, preAnswer, silent]
      rfl
    have second : verdict d.load
      (listFile errorAction native (postRules t native errorAction problems es)) =
        some (postAnswer t native errorAction problems es d.nr) := by
      rw [verdict_listFile, guarded_own arch low, getD_lookup_postRules]
    constructor
    · rintro ⟨before, behind⟩ ⟨e, member, known, here⟩
      cases problem : SyscallTables.found problems e with
      | false =>
        rw [first, if_pos ⟨e, member, by simp [problem], known, here⟩, Option.some.injEq] at before
        exact denies before
      | true =>
        have filed : es.filter (SyscallTables.found problems) ≠ [] :=
          List.ne_nil_of_mem (List.mem_filter.mpr ⟨member, problem⟩)
        have passed := behind _ (if_neg filed)
        rw [second, postAnswer, if_pos ⟨e, member, problem, known, here⟩,
          Option.some.injEq] at passed
        exact denies passed
    · intro unlisted
      constructor
      · rw [first, if_neg]
        rintro ⟨e, member, -, listed⟩
        exact unlisted ⟨e, member, listed⟩
      · intro file some
        rw [Option.ite_none_left_eq_some, Option.some.injEq] at some
        obtain ⟨-, rfl⟩ := some
        rw [second, postAnswer, if_neg]
        rintro ⟨e, member, -, listed⟩
        exact unlisted ⟨e, member, listed⟩

/-- `execve` is listed, and passes before `exec`. -/
theorem seccompDrop_few :
    ∃ pre post, seccompDrop fewCalls 0x00050001 "socket,execve".toList true = .ok (pre, post) ∧
    verdict (nativeCall 59 (fun _ => 0)).load pre = some seccompRetAllow := by
  have read : fewCalls.syscallCheckList true "socket,execve".toList = .ok [⟨41, -1⟩, ⟨59, -1⟩] :=
    rfl
  have keep : fewCalls.syscallCheckList true defaultKeep = .ok [⟨59, -1⟩, ⟨157, -1⟩] := rfl
  have denies : (0x00050001 : BitVec 32) ≠ seccompRetAllow := by decide
  obtain ⟨pre, post, made, splits⟩ := seccompDrop_splits read keep (by decide) denies
  exact ⟨pre, post, made,
    (splits (nativeCall 59 (fun _ => 0)) rfl (by decide)).1 ⟨⟨59, -1⟩, by decide, by decide⟩⟩

end Drop

section Keep

variable {t : SyscallTables} {native : Bool} {errorAction : BitVec 32} {es problems : List Entry}

theorem seccompKeep_eq {list : Text} (read : t.syscallCheckList native list = .ok es)
    (keep : t.syscallCheckList native defaultKeep = .ok problems) :
    seccompKeep t errorAction list native =
      .ok (filterInit errorAction native ++
        chain (es.flatMap (Entry.rules (excepted errorAction)) ++
        problems.flatMap (Entry.rules (listed seccompRetAllow)) ++
          es.flatMap (Entry.rules (listed seccompRetAllow))) ++ [stmt retK errorAction]) := by
  rw [seccompKeep, writeList_chain (filterAddBlacklistForExcluded_eq errorAction) read,
    Exits.ok_bind, writeList_chain filterAddWhitelist_eq keep, Exits.ok_bind,
    writeList_chain filterAddWhitelist_eq read, Exits.ok_bind,
    chain_append, chain_append]
  rfl

/-- A list without `errno`s lets through what it names, and what firejail itself needs, except for
the exceptions. An exception of call 0 is read as its name. -/
theorem seccompKeep_allows_iff {list : Text} (read : t.syscallCheckList native list = .ok es)
    (keep : t.syscallCheckList native defaultKeep = .ok problems)
    (plain : ∀ e ∈ es ++ problems, e.error = -1) (denies : errorAction ≠ seccompRetAllow) :
    ∃ file, seccompKeep t errorAction list native = .ok file ∧
      ∀ d : SeccompData, verdict d.load file = some seccompRetAllow ↔ d.arch ≠ archOf native ∨
        (native = true → ¬x32SyscallBit ≤ d.nr) ∧
          (∃ e ∈ es ++ problems, 0 ≤ e.syscall ∧ d.nr = BitVec.ofInt 32 e.syscall) ∧
          ¬∃ e ∈ es, e.syscall < 0 ∧ d.nr = BitVec.ofInt 32 (-e.syscall) := by
  refine ⟨_, seccompKeep_eq read keep, fun d => ?_⟩
  have plainList : ∀ e ∈ es, e.error = -1 := fun e member => plain e (List.mem_append_left _ member)
  have plainKeep : ∀ e ∈ problems, e.error = -1 :=
    fun e member => plain e (List.mem_append_right _ member)
  rw [verdict_guarded, Option.some.injEq, guarded_allows_iff _ denies]
  refine or_congr Iff.rfl (and_congr Iff.rfl ?_)
  rw [List.lookup_append, List.lookup_append, lookup_flatMap_rules, lookup_flatMap_rules,
    lookup_flatMap_rules, answers_plain lookup_excepted plainList,
    answers_plain lookup_listed plainKeep, answers_plain lookup_listed plainList]
  simp only [List.mem_append, or_and_right, exists_or]
  by_cases out : ∃ e ∈ es, e.syscall < 0 ∧ d.nr = BitVec.ofInt 32 (-e.syscall)
  · simp [out, denies]
  · by_cases own : ∃ e ∈ problems, 0 ≤ e.syscall ∧ d.nr = BitVec.ofInt 32 e.syscall
    · simp [out, own]
    · by_cases named : ∃ e ∈ es, 0 ≤ e.syscall ∧ d.nr = BitVec.ofInt 32 e.syscall
        <;> simp [out, own, named, denies]

/-- `execve` is needed by firejail itself, and excepted. -/
theorem seccompKeep_few :
    ∃ file, seccompKeep fewCalls 0x00050001 "read,!execve".toList true = .ok file ∧
    verdict (nativeCall 0 (fun _ => 0)).load file = some seccompRetAllow ∧
    verdict (nativeCall 59 (fun _ => 0)).load file ≠ some seccompRetAllow := by
  have read : fewCalls.syscallCheckList true "read,!execve".toList = .ok [⟨0, -1⟩, ⟨-59, -1⟩] := rfl
  have keep : fewCalls.syscallCheckList true defaultKeep = .ok [⟨59, -1⟩, ⟨157, -1⟩] := rfl
  have denies : (0x00050001 : BitVec 32) ≠ seccompRetAllow := by decide
  obtain ⟨file, made, allows⟩ := seccompKeep_allows_iff read keep (by decide) denies
  refine ⟨file, made, (allows _).mpr (.inr ⟨by decide, by decide, by decide⟩), fun allowed => ?_⟩
  exact absurd ((allows _).mp allowed) (by decide)

end Keep

end Verl.Firejail
