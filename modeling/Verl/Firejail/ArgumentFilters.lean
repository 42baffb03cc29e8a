import Verl.Firejail.DropKeep

/-! The filters that look at the arguments of calls: sockets by their domain (`protocol.c`),
namespaces (`namespaces.c`), memory that is both written and executed (`seccomp.c`), and the filters
against other architectures (`seccomp_secondary.c`). -/
namespace Verl.Firejail

open Bpf CText

section Files

variable (errorAction : BitVec 32)

def cloneNewtime : BitVec 32 := 0x00000080

def nsFlags : List (Text × BitVec 32) :=
  [("cgroup".toList, 0x02000000), ("ipc".toList, 0x08000000), ("net".toList, 0x40000000),
    ("mnt".toList, 0x00020000), ("pid".toList, 0x20000000), ("time".toList, cloneNewtime),
    ("user".toList, 0x10000000), ("uts".toList, 0x04000000)]

def addNsFlag (mask : BitVec 32) (token : Text) : Exits (BitVec 32) :=
  match nsFlags.lookup token with
  | some flag => .ok (mask ||| flag)
  | none => .error ("Error fseccomp: ".toList ++ token ++ " is not a valid namespace".toList)

def buildNsMask (list : Text) : Exits (BitVec 32) := (strtok ',' list).foldlM addNsFlag 0

structure NsCalls where
  clone : BitVec 32
  clone3 : BitVec 32
  unshare : BitVec 32
  setns : BitVec 32

def nsCalls (native : Bool) : NsCalls :=
  if native then ⟨56, 435, 272, 308⟩ else ⟨120, 435, 310, 346⟩

def enosys : BitVec 32 := 38

def nsFilter (c : NsCalls) (mask : BitVec 32) : List SockFilter :=
  [jump jmpJeqK c.clone 0 4, examineArgument 0, jump jmpJsetK (mask &&& ~~~cloneNewtime) 0 1,
    killOrReturnErrno errorAction, returnAllow, jump jmpJeqK c.clone3 0 1, returnErrno enosys,
    jump jmpJeqK c.unshare 0 4, examineArgument 0, jump jmpJsetK mask 0 1,
    killOrReturnErrno errorAction, returnAllow,
    jump jmpJeqK c.setns 0 4, examineArgument 1, jump jmpJeqK 0 1 0, jump jmpJsetK mask 0 1,
    killOrReturnErrno errorAction, returnAllow]

def denyNs (list : Text) (native : Bool) : Exits (List SockFilter) := do
  let mask ← buildNsMask list
  return filterInit errorAction native ++ nsFilter errorAction (nsCalls native) mask ++
    filterEndBlacklist

def protocol : List (Text × BitVec 32) :=
  [("unix".toList, 1), ("inet".toList, 2), ("inet6".toList, 10), ("netlink".toList, 16),
    ("packet".toList, 17), ("bluetooth".toList, 31)]

def findProtocolDomain (p : Text) : Option (List SockFilter) := (protocol.lookup p).map whitelist

def sysSocket : BitVec 32 := 41

def sysSocket32 : BitVec 32 := 359

def enotsup : BitVec 32 := 95

def protocolStart : List SockFilter :=
  [stmt ldWAbs archOffset, jump jmpJeqK archNr 4 0, examineSyscall] ++ only sysSocket32 ++
    [jump jmpJa 9 0 0] ++
    validateArchitecture archNr ++ [examineSyscall] ++ handleX32 errorAction ++ only sysSocket ++
      [examineArgument 0]

def protocolRoom : Nat := 32

/-- Instructions that do not fit behind those there are write over the stack: nothing is said of it
then. -/
def copyBehind (filter part : List SockFilter) : Exits (List SockFilter) :=
  if protocolRoom < filter.length + part.length then
    .error "stack overrun".toList
  else .ok (filter ++ part)

def addProtocol (filter : List SockFilter) (token : Text) : Exits (List SockFilter) :=
  match findProtocolDomain token with
  | some domain => copyBehind filter domain
  | none => .error ("Error fseccomp: ".toList ++ token ++ " is not a valid protocol".toList)

def protocolBuildFilter (prlist : Text) : Exits (List SockFilter) := do
  if strtok ',' prlist = [] then .error "Error: strtok".toList
  let filter ← (strtok ',' prlist).foldlM addProtocol (protocolStart errorAction)
  copyBehind filter [returnErrno enotsup]

def protWrite : BitVec 32 := 2

def protExec : BitVec 32 := 4

def shmExec : BitVec 32 := 0x8000

/-- A call is denied where its third argument has all the bits. -/
def denyBits (syscallNr bits : BitVec 32) : List SockFilter :=
  [jump jmpJeqK syscallNr 0 5, examineArgument 2, stmt aluAndK bits, jump jmpJeqK bits 0 1,
    killOrReturnErrno errorAction, returnAllow]

def sysMmap : BitVec 32 := 9
def sysMprotect : BitVec 32 := 10
def sysPkeyMprotect : BitVec 32 := 329
def sysShmat : BitVec 32 := 30
def sysMemfdCreate : BitVec 32 := 319

def memoryDenyWriteExecute : List SockFilter :=
  filterInit errorAction true ++
    (denyBits errorAction sysMmap (protWrite ||| protExec) ++
      denyBits errorAction sysMprotect protExec ++
      denyBits errorAction sysPkeyMprotect protExec ++ denyBits errorAction sysShmat shmExec ++
      [jump jmpJeqK sysMemfdCreate 0 1, killOrReturnErrno errorAction, returnAllow]) ++
        filterEndBlacklist

end Files

section Blocks

variable (d : SeccompData) (errorAction acc : BitVec 32) (rest : List SockFilter)

def flagAnswer (errorAction mask word : BitVec 32) : BitVec 32 :=
  if word &&& mask = 0 then seccompRetAllow else errorAction

theorem exec_flags (mask : BitVec 32) :
    exec d.load (jump jmpJsetK mask 0 1 :: killOrReturnErrno errorAction :: returnAllow :: rest) 0
      acc = .ret (flagAnswer errorAction mask acc) := by
  rw [exec_jset, flagAnswer]
  split
  · exact exec_ret seccompRetAllow rest acc
  · exact exec_ret errorAction _ acc

theorem exec_guard_ret {d : SeccompData} {k acc answer later : BitVec 32} {jf : BitVec 8}
    (body rest : List SockFilter)
    (whole : jf.toNat = body.length) (inside : exec d.load (body ++ rest) 0 acc = .ret answer)
    (behind : exec d.load rest 0 acc = .ret later) :
    exec d.load (jump jmpJeqK k 0 jf :: (body ++ rest)) 0 acc =
      .ret (if acc = k then answer else later) := by
  rw [exec_guard body rest whole, inside, behind]
  split <;> rfl

end Blocks

section Namespaces

variable {errorAction : BitVec 32}

theorem and_or_and_eq_zero (w a b keep : BitVec 32) :
    w &&& ((a ||| b) &&& keep) = 0 ↔ w &&& (a &&& keep) = 0 ∧ w &&& (b &&& keep) = 0 := by
  rw [BitVec.and_or_distrib_right, BitVec.and_or_distrib_left]
  exact BitVec.or_eq_zero_iff

def Names (tokens : List Text) (flag : BitVec 32) : Prop :=
  ∃ token ∈ tokens, nsFlags.lookup token = some flag

theorem names_cons {token : Text} {flag : BitVec 32} (found : nsFlags.lookup token = some flag)
    (tokens : List Text) (other : BitVec 32) :
    Names (token :: tokens) other ↔ flag = other ∨ Names tokens other := by
  simp only [Names, List.mem_cons, exists_eq_or_imp, found, Option.some.injEq]

theorem foldlM_nsFlags {tokens : List Text}
    (valid : ∀ token ∈ tokens, (nsFlags.lookup token).isSome) (init : BitVec 32) :
    ∃ mask, tokens.foldlM addNsFlag init = .ok mask ∧
      ∀ w keep : BitVec 32, w &&& (mask &&& keep) = 0 ↔ w &&& (init &&& keep) = 0 ∧ ∀ flag,
        Names tokens flag → w &&& (flag &&& keep) = 0 := by
  induction tokens generalizing init with
  | nil => exact ⟨init, rfl, fun w keep => by simp [Names]⟩
  | cons token tokens ih =>
    obtain ⟨flag, found⟩ := Option.isSome_iff_exists.mp (valid token List.mem_cons_self)
    obtain ⟨mask, made, clear⟩ :=
      ih (fun other member => valid other (List.mem_cons_of_mem token member)) (init ||| flag)
    refine ⟨mask, ?_, fun w keep => ?_⟩
    · rw [List.foldlM_cons, addNsFlag, found]
      exact made
    · rw [clear, and_or_and_eq_zero, and_assoc]
      simp only [names_cons found, or_imp, forall_and, forall_eq']

theorem names_cloneNewtime {tokens : List Text} {flag : BitVec 32} (named : Names tokens flag) :
    flag &&& ~~~cloneNewtime = if flag = cloneNewtime then 0 else flag := by
  have each : ∀ entry ∈ nsFlags, entry.2 &&& ~~~cloneNewtime = if entry.2 = cloneNewtime then 0
    else entry.2 := by decide
  obtain ⟨name, -, found⟩ := named
  obtain ⟨before, behind, same, -⟩ := List.lookup_eq_some_iff.mp found
  exact each (name, flag) (by rw [same]; simp)

def nsAnswer (errorAction : BitVec 32) (c : NsCalls) (mask : BitVec 32) (d : SeccompData) :
    BitVec 32 :=
  if d.nr = c.clone then flagAnswer errorAction (mask &&& ~~~cloneNewtime) (d.word 0)
  else if d.nr = c.clone3 then seccompRetErrno ||| enosys
  else if d.nr = c.unshare then flagAnswer errorAction mask (d.word 0)
  else if d.nr = c.setns then if d.word 1 = 0 then errorAction
    else flagAnswer errorAction mask (d.word 1)
  else seccompRetAllow

theorem exec_nsFilter (c : NsCalls) (mask : BitVec 32) (d : SeccompData) :
    exec d.load (nsFilter errorAction c mask ++ filterEndBlacklist) 0 d.nr =
      .ret (nsAnswer errorAction c mask d) := by
  have flags : ∀ (n : Nat) (inside : n < 6) (mask acc : BitVec 32) (rest : List SockFilter),
      exec d.load (examineArgument n :: jump jmpJsetK mask 0 1 :: killOrReturnErrno errorAction ::
      returnAllow :: rest) 0 acc =
        .ret (flagAnswer errorAction mask (d.word ⟨n, inside⟩)) := fun n inside mask acc rest =>
    (exec_examineArgument d acc _ inside).trans (exec_flags d errorAction _ rest mask)
  rw [nsAnswer]
  refine exec_guard_ret [examineArgument 0, jump jmpJsetK (mask &&& ~~~cloneNewtime) 0 1,
    killOrReturnErrno errorAction, returnAllow] _ rfl
    (flags 0 (by decide) _ d.nr _) ?_
  refine exec_guard_ret [returnErrno enosys] _ rfl (exec_ret _ _ d.nr) ?_
  refine exec_guard_ret [examineArgument 0, jump jmpJsetK mask 0 1, killOrReturnErrno errorAction,
    returnAllow] _ rfl
    (flags 0 (by decide) _ d.nr _) ?_
  refine exec_guard_ret [examineArgument 1, jump jmpJeqK 0 1 0, jump jmpJsetK mask 0 1,
    killOrReturnErrno errorAction] _ rfl ?_
    (exec_ret _ _ d.nr)
  refine (exec_examineArgument d d.nr _ (by decide)).trans ((exec_jeq 0 1 0 _ _).trans ?_)
  by_cases zero : lowWord (d.args ⟨1, by decide⟩) = 0
  · rw [if_pos zero, if_pos (show d.word 1 = 0 from zero)]
    exact exec_ret errorAction _ _
  · rw [if_neg zero, if_neg (show ¬d.word 1 = 0 from zero)]
    exact exec_flags d errorAction _ _ mask

theorem flagAnswer_allows_iff (denies : errorAction ≠ seccompRetAllow) (mask word : BitVec 32) :
    flagAnswer errorAction mask word = seccompRetAllow ↔ word &&& mask = 0 := by
  rw [flagAnswer]
  split
  · rename_i clear
    exact iff_of_true rfl clear
  · rename_i set
    exact iff_of_false denies set

theorem nsCalls_distinct (native : Bool) :
    [(nsCalls native).clone, (nsCalls native).clone3, (nsCalls native).unshare,
    (nsCalls native).setns].Nodup := by
  cases native <;> decide

theorem nsAnswer_allows_iff (denies : errorAction ≠ seccompRetAllow) (native : Bool)
    (mask : BitVec 32) (d : SeccompData) :
    nsAnswer errorAction (nsCalls native) mask d = seccompRetAllow ↔
      d.nr ≠ (nsCalls native).clone3 ∧
      (d.nr = (nsCalls native).clone → d.word 0 &&& (mask &&& ~~~cloneNewtime) = 0) ∧
      (d.nr = (nsCalls native).unshare → d.word 0 &&& mask = 0) ∧
      (d.nr = (nsCalls native).setns → d.word 1 ≠ 0 ∧ d.word 1 &&& mask = 0) := by
  have distinct := nsCalls_distinct native
  generalize nsCalls native = c at distinct ⊢
  simp only [List.nodup_cons, List.mem_cons, List.not_mem_nil, or_false, not_or, List.nodup_nil,
    not_false_eq_true, and_true] at distinct
  obtain ⟨⟨clone3, unshare, setns⟩, ⟨unshare', setns'⟩, setns''⟩ := distinct
  rw [nsAnswer]
  by_cases atClone : d.nr = c.clone
  · rw [if_pos atClone, flagAnswer_allows_iff denies, atClone]
    simp [clone3, unshare, setns]
  · rw [if_neg atClone]
    by_cases atClone3 : d.nr = c.clone3
    · rw [if_pos atClone3]
      exact iff_of_false (by decide) (fun both => both.1 atClone3)
    · rw [if_neg atClone3]
      by_cases atUnshare : d.nr = c.unshare
      · rw [if_pos atUnshare, flagAnswer_allows_iff denies, atUnshare]
        simp [Ne.symm unshare, Ne.symm unshare', setns'']
      · rw [if_neg atUnshare]
        by_cases atSetns : d.nr = c.setns
        · rw [if_pos atSetns, atSetns]
          by_cases zero : d.word 1 = 0
          · simp [zero, denies]
          · have nonzero : d.word 1 ≠ 0#32 := zero
            rw [if_neg zero, flagAnswer_allows_iff denies]
            simp [nonzero, Ne.symm setns, Ne.symm setns', Ne.symm setns'']
        · simp [atSetns, atClone, atClone3, atUnshare]

/-- A call makes and enters none of the namespaces that are named. For `clone` the bit of the time
namespace means something else. -/
def NsAllowed (native : Bool) (tokens : List Text) (d : SeccompData) : Prop :=
  d.nr ≠ (nsCalls native).clone3 ∧
    (d.nr = (nsCalls native).clone → ∀ flag, Names tokens flag → flag ≠ cloneNewtime →
      d.word 0 &&& flag = 0) ∧
    (d.nr = (nsCalls native).unshare → ∀ flag, Names tokens flag → d.word 0 &&& flag = 0) ∧
    (d.nr = (nsCalls native).setns → d.word 1 ≠ 0 ∧ ∀ flag, Names tokens flag →
      d.word 1 &&& flag = 0)

theorem denyNs_allows_iff {list : Text} (native : Bool)
    (valid : ∀ name ∈ strtok ',' list, (nsFlags.lookup name).isSome)
    (denies : errorAction ≠ seccompRetAllow) : ∃ file, denyNs errorAction list native = .ok file ∧
      ∀ d : SeccompData, verdict d.load file = some seccompRetAllow ↔
        d.arch ≠ archOf native ∨ (native = true → ¬x32SyscallBit ≤ d.nr) ∧
          NsAllowed native (strtok ',' list) d := by
  obtain ⟨mask, made, clear⟩ := foldlM_nsFlags valid 0
  have all : ∀ w : BitVec 32, w &&& mask = 0 ↔ ∀ flag, Names (strtok ',' list) flag →
      w &&& flag = 0 := by
    intro w
    simpa only [BitVec.ofNat_eq_ofNat, BitVec.and_allOnes, BitVec.zero_and, BitVec.and_zero,
      true_and] using clear w (BitVec.allOnes 32)
  have timeless : ∀ w : BitVec 32, w &&& (mask &&& ~~~cloneNewtime) = 0 ↔
      ∀ flag, Names (strtok ',' list) flag → flag ≠ cloneNewtime → w &&& flag = 0 := by
    intro w
    rw [clear]
    simp only [BitVec.ofNat_eq_ofNat, BitVec.zero_and, BitVec.and_zero, true_and]
    refine forall₂_congr fun flag named => ?_
    rw [names_cloneNewtime named]
    by_cases time : flag = cloneNewtime <;> simp [time]
  refine ⟨filterInit errorAction native ++ nsFilter errorAction (nsCalls native) mask ++
    filterEndBlacklist, ?_, fun d => ?_⟩
  · rw [denyNs, buildNsMask, made]
    rfl
  · rw [List.append_assoc, verdict_of_exec native (exec_nsFilter (nsCalls native) mask d),
      Option.some.injEq, guarded_allows_iff _ denies, nsAnswer_allows_iff denies,
      timeless, all, all]
    rfl

end Namespaces

section WriteExecute

variable {errorAction : BitVec 32}

end WriteExecute

section Secondary

variable {errorAction : BitVec 32}

end Secondary

section Protocol

variable {errorAction : BitVec 32}

def Speaks (tokens : List Text) (domain : BitVec 32) : Prop :=
  ∃ token ∈ tokens, protocol.lookup token = some domain

theorem exec_only {data : BitVec 32 → Option (BitVec 32)} (nr acc : BitVec 32)
    (rest : List SockFilter) :
    exec data (only nr ++ rest) 0 acc = if acc = nr then exec data rest 0 acc
      else .ret seccompRetAllow := by
  rw [only, List.cons_append, exec_jeq]
  split
  · rfl
  · exact exec_ret seccompRetAllow rest acc

/-- A call for a socket reaches the domains with its first argument, whatever architecture it is
of. -/
theorem exec_protocolStart (errorAction : BitVec 32) (d : SeccompData) (rest : List SockFilter) :
    exec d.load (protocolStart errorAction ++ rest) 0 0 =
      if d.arch = archNr ∧ x32SyscallBit ≤ d.nr then .ret errorAction
      else if d.nr = (if d.arch = archNr then sysSocket else sysSocket32) then
        exec d.load rest 0 (d.word 0)
      else .ret seccompRetAllow := by
  let own := validateArchitecture archNr ++ [examineSyscall] ++
    handleX32 errorAction ++ only sysSocket
  have argument : ∀ acc,
    exec d.load (examineArgument 0 :: rest) 0 acc = exec d.load rest 0 (d.word 0) := fun acc =>
    exec_examineArgument d acc rest (by decide)
  have start : exec d.load (protocolStart errorAction ++ rest) 0 0 = if d.arch = archNr then
    exec d.load (own ++ examineArgument 0 :: rest) 0 d.arch
      else exec d.load (examineSyscall ::
        (only sysSocket32 ++ jump jmpJa 9 0 0 :: (own ++ examineArgument 0 :: rest))) 0 d.arch := by
    refine (exec_ld (load_arch d) _ _).trans ((exec_jeq archNr 4 0 _ _).trans ?_)
    split <;> rfl
  rw [start]
  by_cases native : d.arch = archNr
  · rw [if_pos native, if_pos native, List.append_assoc, List.append_assoc, List.append_assoc,
      exec_validateArchitecture, if_pos native, List.singleton_append, exec_examineSyscall,
      exec_handleX32]
    by_cases x32 : x32SyscallBit ≤ d.nr
    · rw [if_pos x32, if_pos ⟨native, x32⟩]
    · rw [if_neg x32, if_neg (fun both => x32 both.2), exec_only, argument]
  · have passed : exec d.load (own ++ examineArgument 0 :: rest) own.length d.nr =
      exec d.load (examineArgument 0 :: rest) 0 d.nr :=
      exec_length_append own _ d.nr
    rw [if_neg native, if_neg native, if_neg (fun both => native both.1), exec_examineSyscall,
      exec_only, exec_ja]
    rw [argument] at passed
    exact if_congr Iff.rfl passed rfl

theorem exec_domains {data : BitVec 32 → Option (BitVec 32)} (domains : List (BitVec 32))
    (acc : BitVec 32) :
    exec data ((domains.map whitelist).flatten ++ [returnErrno enotsup]) 0 acc =
      .ret (if acc ∈ domains then seccompRetAllow else seccompRetErrno ||| enotsup) := by
  induction domains with
  | nil => rfl
  | cons domain domains ih =>
    rw [List.map_cons, List.flatten_cons, List.append_assoc, whitelist, exec_entry, ih]
    by_cases here : acc = domain <;> simp [here]

theorem length_whitelists (domains : List (BitVec 32)) :
    (domains.map whitelist).flatten.length = 2 * domains.length := by
  induction domains with
  | nil => rfl
  | cons domain domains ih =>
    rw [List.map_cons, List.flatten_cons, List.length_append, ih, List.length_cons]
    simp only [whitelist, entry, List.length_cons, List.length_nil]
    omega

theorem length_protocolStart : (protocolStart errorAction).length = 16 := rfl

theorem copyBehind_eq {filter part : List SockFilter}
    (room : filter.length + part.length ≤ protocolRoom) :
    copyBehind filter part = .ok (filter ++ part) := if_neg (Nat.not_lt.mpr room)

theorem addProtocol_eq {token : Text} {domain : BitVec 32}
    (found : protocol.lookup token = some domain) {filter : List SockFilter}
    (room : filter.length + 2 ≤ protocolRoom) :
    addProtocol filter token = .ok (filter ++ whitelist domain) := by
  rw [addProtocol, findProtocolDomain, found, Option.map_some]
  exact copyBehind_eq room

theorem foldlM_addProtocol {tokens : List Text}
    (valid : ∀ token ∈ tokens, (protocol.lookup token).isSome) {filter : List SockFilter}
    (room : filter.length + 2 * tokens.length ≤ protocolRoom) :
    ∃ domains : List (BitVec 32), domains.length = tokens.length ∧
      (∀ domain, domain ∈ domains ↔ Speaks tokens domain) ∧
      tokens.foldlM addProtocol filter = .ok (filter ++ (domains.map whitelist).flatten) := by
  induction tokens generalizing filter with
  | nil =>
    exact ⟨[], rfl, fun domain => by simp [Speaks],
    congrArg Except.ok (List.append_nil filter).symm⟩
  | cons token tokens ih =>
    rw [List.length_cons] at room
    obtain ⟨domain, found⟩ := Option.isSome_iff_exists.mp (valid token List.mem_cons_self)
    have here : addProtocol filter token = .ok (filter ++ whitelist domain) :=
      addProtocol_eq found (by omega)
    have rest : (filter ++ whitelist domain).length + 2 * tokens.length ≤ protocolRoom := by
      simp only [List.length_append, whitelist, entry, List.length_cons, List.length_nil]
      omega
    obtain ⟨domains, same, spoken, made⟩ :=
      ih (fun other member => valid other (List.mem_cons_of_mem token member)) rest
    refine ⟨domain :: domains, by rw [List.length_cons, List.length_cons, same],
      fun other => ?_, ?_⟩
    · simp only [List.mem_cons, spoken, Speaks, exists_eq_or_imp, found, Option.some.injEq]
      exact or_congr_left eq_comm
    · rw [List.foldlM_cons, here, Exits.ok_bind, made, List.map_cons, List.flatten_cons,
        List.append_assoc]

/-- A list of protocols that are all known is built, where it has room. -/
theorem protocolBuildFilter_eq (errorAction : BitVec 32) {prlist : Text}
    (nonempty : strtok ',' prlist ≠ [])
    (valid : ∀ token ∈ strtok ',' prlist, (protocol.lookup token).isSome)
    (room : (strtok ',' prlist).length ≤ 7) :
    ∃ domains : List (BitVec 32), (∀ domain, domain ∈ domains ↔ Speaks (strtok ',' prlist) domain) ∧
      protocolBuildFilter errorAction prlist =
        .ok (protocolStart errorAction ++ (domains.map whitelist).flatten ++
        [returnErrno enotsup]) := by
  have start : (protocolStart errorAction).length + 2 * (strtok ',' prlist).length ≤
      protocolRoom := by
    rw [length_protocolStart, protocolRoom]
    omega
  obtain ⟨domains, same, spoken, made⟩ := foldlM_addProtocol valid start
  have fits : (protocolStart errorAction ++ (domains.map whitelist).flatten).length +
      [returnErrno enotsup].length ≤ protocolRoom := by
    rw [List.length_append, length_whitelists, length_protocolStart, protocolRoom, same,
      List.length_singleton]
    omega
  refine ⟨domains, spoken, ?_⟩
  rw [protocolBuildFilter, if_neg nonempty]
  change ((strtok ',' prlist).foldlM _ _ >>= _) = _
  rw [made, Exits.ok_bind, copyBehind_eq fits]

/-- A call for a socket, native or of i386, is for one of the domains that are named. -/
def SocketAllowed (tokens : List Text) (d : SeccompData) : Prop :=
  d.nr = (if d.arch = archNr then sysSocket else sysSocket32) → Speaks tokens (d.word 0)

/-- Which sockets pass the filter of a list of protocols, for native calls and for those of i386. -/
theorem protocolBuildFilter_allows_iff {prlist : Text} (nonempty : strtok ',' prlist ≠ [])
    (valid : ∀ token ∈ strtok ',' prlist, (protocol.lookup token).isSome)
    (room : (strtok ',' prlist).length ≤ 7) (denies : errorAction ≠ seccompRetAllow) :
    ∃ file, protocolBuildFilter errorAction prlist = .ok file ∧
      ∀ d : SeccompData, verdict d.load file = some seccompRetAllow ↔
        ¬(d.arch = archNr ∧ x32SyscallBit ≤ d.nr) ∧ SocketAllowed (strtok ',' prlist) d := by
  obtain ⟨domains, spoken, built⟩ := protocolBuildFilter_eq errorAction nonempty valid room
  refine ⟨_, built, fun d => ?_⟩
  have answered := exec_protocolStart errorAction d
    ((domains.map whitelist).flatten ++ [returnErrno enotsup])
  rw [exec_domains, ← List.append_assoc] at answered
  rw [SocketAllowed]
  generalize (if d.arch = archNr then sysSocket else sysSocket32) = socket at answered ⊢
  rw [verdict, answered]
  by_cases x32 : d.arch = archNr ∧ x32SyscallBit ≤ d.nr
  · rw [if_pos x32]
    exact iff_of_false (fun same => denies (Option.some.inj same)) (fun both => both.1 x32)
  · rw [if_neg x32]
    by_cases asks : d.nr = socket
    · rw [if_pos asks]
      by_cases spoke : d.word 0 ∈ domains
      · rw [if_pos spoke]
        exact iff_of_true rfl ⟨x32, fun _ => (spoken _).mp spoke⟩
      · rw [if_neg spoke]
        exact iff_of_false (by decide) (fun both => spoke ((spoken _).mpr (both.2 asks)))
    · rw [if_neg asks]
      exact iff_of_true rfl ⟨x32, fun same => absurd same asks⟩

end Protocol

end Verl.Firejail
