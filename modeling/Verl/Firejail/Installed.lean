import Verl.Firejail.ArgumentFilters
import Verl.Firejail.Optimizer

/-! The filters of a sandbox (`sandbox.c` and `firejail/seccomp.c`): which files are built and
installed for a configuration before `exec`, and what all of them answer with
`SECCOMP_RET_ALLOW`. -/
namespace Verl.Firejail

open Bpf CText

/-- The error action that the filters are built with when firejail is made. -/
def eperm : BitVec 32 := seccompRetErrno ||| 1

def allNamespaces : Text := "cgroup,ipc,net,mnt,pid,time,user,uts".toList

/-- What the command line and the profiles ask of the filters. `restrict-namespaces` without a list
also fills the list. -/
structure FilterConfig where
  seccomp : Bool
  seccompList : Option Text
  seccompListDrop : Option Text
  seccompListKeep : Option Text
  seccomp32 : Bool
  seccompList32 : Option Text
  seccompListDrop32 : Option Text
  seccompListKeep32 : Option Text
  seccompBlockSecondary : Bool
  seccompErrorAction : BitVec 32
  allowDebuggers : Bool
  memoryDenyWriteExecute : Bool
  restrictNamespaces : Bool
  namespaces : Option Text
  protocol : Option Text
  filled : restrictNamespaces = true → namespaces.isSome = true

section Build

variable (t : SyscallTables)

def FilterConfig.list (c : FilterConfig) (native : Bool) : Text :=
  (if native then c.seccompList else c.seccompList32).getD []

def seccompFilterNamespaces (c : FilterConfig) (list : Text) : Exits (List (List SockFilter)) := do
  return [← denyNs c.seccompErrorAction list true, ← denyNs c.seccompErrorAction list false]

end Build

def Passes (filters : List (List SockFilter)) (d : SeccompData) : Prop :=
  ∀ file ∈ filters, verdict d.load file = some seccompRetAllow

theorem passes_pair (a b : List SockFilter) (d : SeccompData) :
    Passes [a, b] d ↔ verdict d.load a = some seccompRetAllow ∧
      verdict d.load b = some seccompRetAllow := by
  simp [Passes]

section Parts

variable {t : SyscallTables} {c : FilterConfig}

end Parts

section Seccomp

variable {t : SyscallTables} {c : FilterConfig} {native : Bool} {es problems defaults : List Entry}

def FilterConfig.added (t : SyscallTables) (c : FilterConfig) (native : Bool) :
    Exits (List Entry) :=
  if c.list native = [] then .ok [] else t.syscallCheckList native (c.list native)

/-- The lists for the calls of one architecture can be read. -/
structure FilterConfig.Reads (t : SyscallTables) (c : FilterConfig) (native : Bool)
    (es problems defaults : List Entry) : Prop where
  added : c.added t native = .ok es
  keep : t.syscallCheckList native defaultKeep = .ok problems
  default : t.syscallCheckList native (defaultGroup c.allowDebuggers) = .ok defaults

def FilterConfig.rules (t : SyscallTables) (c : FilterConfig) (native : Bool)
    (es problems defaults : List Entry) : List (BitVec 32 × BitVec 32) :=
  preRules t native c.seccompErrorAction defaults problems es

/-- The lists of a configuration that are read for native calls, for sockets and for namespaces. -/
structure FilterConfig.Readable (t : SyscallTables) (c : FilterConfig)
    (es problems defaults : List Entry) : Prop where
  native : c.Reads t true es problems defaults
  protocols : ∀ prlist, c.protocol = some prlist → strtok ',' prlist ≠ [] ∧
    (strtok ',' prlist).length ≤ 7 ∧
    ∀ token ∈ strtok ',' prlist, (Firejail.protocol.lookup token).isSome
  names : ∀ list, c.namespaces = some list → ∀ name ∈ strtok ',' list, (nsFlags.lookup name).isSome

def codeExecConfig (block : Bool) (list32 : Option Text) : FilterConfig where
  seccomp := true
  seccompList := some "socket".toList
  seccompListDrop := none
  seccompListKeep := none
  seccomp32 := list32.isSome
  seccompList32 := list32
  seccompListDrop32 := none
  seccompListKeep32 := none
  seccompBlockSecondary := block
  seccompErrorAction := eperm
  allowDebuggers := false
  memoryDenyWriteExecute := false
  restrictNamespaces := true
  namespaces := some allNamespaces
  protocol := some "unix,inet,inet6".toList
  filled _ := rfl

end Seccomp

end Verl.Firejail
