import Verl.Base.ClassicBpf

/-! The filters that `fseccomp` writes, instruction by instruction, as on x86_64: the macros of
`seccomp.h` and the functions of `seccomp_file.c`. A file is the list of its instructions. -/
namespace Verl.Firejail

open Bpf

def seccompRetKill : BitVec 32 := 0x00000000
def seccompRetErrno : BitVec 32 := 0x00050000
def seccompRetAllow : BitVec 32 := 0x7fff0000

/-- `AUDIT_ARCH_X86_64`, the `ARCH_NR` and `ARCH_64` of the machine. -/
def archNr : BitVec 32 := 0xc000003e

def arch32 : BitVec 32 := 0x40000003

def archOf (native : Bool) : BitVec 32 := if native then archNr else arch32

def x32SyscallBit : BitVec 32 := 0x40000000

def archOffset : BitVec 32 := 4

def nrOffset : BitVec 32 := 0

def argOffset (n : Nat) : BitVec 32 := BitVec.ofNat 32 (16 + 8 * n)

def validateArchitecture (arch : BitVec 32) : List SockFilter :=
  [stmt ldWAbs archOffset, jump jmpJeqK arch 1 0, stmt retK seccompRetAllow]

def handleX32 (errorAction : BitVec 32) : List SockFilter :=
  [jump jmpJgeK x32SyscallBit 1 0, jump jmpJgeK 0 1 0, stmt retK errorAction]

def examineSyscall : SockFilter := stmt ldWAbs nrOffset

def examineArgument (n : Nat) : SockFilter := stmt ldWAbs (argOffset n)

def only (syscallNr : BitVec 32) : List SockFilter :=
  [jump jmpJeqK syscallNr 1 0, stmt retK seccompRetAllow]

def blacklist (errorAction syscallNr : BitVec 32) : List SockFilter := entry syscallNr errorAction

def whitelist (syscallNr : BitVec 32) : List SockFilter := entry syscallNr seccompRetAllow

def blacklistErrno (syscallNr nr : BitVec 32) : List SockFilter :=
  entry syscallNr (seccompRetErrno ||| nr)

def returnAllow : SockFilter := stmt retK seccompRetAllow

def returnErrno (nr : BitVec 32) : SockFilter := stmt retK (seccompRetErrno ||| nr)

def killOrReturnErrno (errorAction : BitVec 32) : SockFilter := stmt retK errorAction

def filterInit (errorAction : BitVec 32) (native : Bool) : List SockFilter :=
  if native then validateArchitecture archNr ++ examineSyscall :: handleX32 errorAction
  else validateArchitecture arch32 ++ [examineSyscall]

/-- The numbers are C `int`s; as the `k` of an instruction they are unsigned. -/
def filterAddWhitelist (syscall : Int) : List SockFilter :=
  if 0 ≤ syscall then whitelist (BitVec.ofInt 32 syscall) else []

def filterAddWhitelistForExcluded (syscall : Int) : List SockFilter :=
  if syscall < 0 then whitelist (BitVec.ofInt 32 (-syscall)) else []

def filterAddBlacklist (errorAction : BitVec 32) (syscall : Int) : List SockFilter :=
  if 0 ≤ syscall then blacklist errorAction (BitVec.ofInt 32 syscall) else []

def filterAddBlacklistOverride (syscall : Int) : List SockFilter :=
  filterAddBlacklist seccompRetKill syscall

def filterAddBlacklistForExcluded (errorAction : BitVec 32) (syscall : Int) : List SockFilter :=
  if syscall < 0 then blacklist errorAction (BitVec.ofInt 32 (-syscall)) else []

def filterAddErrno (syscall error : Int) : List SockFilter :=
  blacklistErrno (BitVec.ofInt 32 syscall) (BitVec.ofInt 32 error)

def filterEndBlacklist : List SockFilter := [returnAllow]

def filterEndWhitelist (errorAction : BitVec 32) : List SockFilter :=
  [killOrReturnErrno errorAction]

def nativeCall (nr : BitVec 32) (args : Fin 6 → BitVec 64) : SeccompData := ⟨nr, archNr, 0, args⟩

section Init

variable (d : SeccompData) (errorAction acc : BitVec 32) (rest : List SockFilter)

@[simp] theorem load_arch : d.load archOffset = some d.arch := rfl

@[simp] theorem load_nr : d.load nrOffset = some d.nr := rfl

theorem load_arg {n : Nat} (inside : n < 6) :
    d.load (argOffset n) = some (lowWord (d.args ⟨n, inside⟩)) := by
  match n, inside with
  | 0, _ | 1, _ | 2, _ | 3, _ | 4, _ | 5, _ => rfl

theorem exec_validateArchitecture (arch : BitVec 32) :
    exec d.load (validateArchitecture arch ++ rest) 0 acc =
    if d.arch = arch then exec d.load rest 0 d.arch else .ret seccompRetAllow := by
  rw [validateArchitecture, List.cons_append, exec_ld (load_arch d), List.cons_append, exec_jeq]
  split
  · rfl
  · exact exec_ret seccompRetAllow _ _

theorem exec_examineSyscall :
    exec d.load (examineSyscall :: rest) 0 acc = exec d.load rest 0 d.nr := by
  rw [examineSyscall, exec_ld (load_nr d)]

theorem exec_examineArgument {n : Nat} (inside : n < 6) :
    exec d.load (examineArgument n :: rest) 0 acc =
      exec d.load rest 0 (lowWord (d.args ⟨n, inside⟩)) := by
  rw [examineArgument, exec_ld (load_arg d inside)]

theorem exec_handleX32 : exec d.load (handleX32 errorAction ++ rest) 0 acc =
    if x32SyscallBit ≤ acc then .ret errorAction else exec d.load rest 0 acc := by
  rw [handleX32, List.cons_append, exec_jge]
  split
  · exact exec_ret errorAction _ _
  · have low : (0 : BitVec 32) ≤ acc := Nat.zero_le acc.toNat
    change exec d.load (jump jmpJgeK 0 1 0 :: stmt retK errorAction :: rest) 0 acc = _
    rw [exec_jge, if_pos low]
    rfl

theorem exec_filterInit (native : Bool) :
    exec d.load (filterInit errorAction native ++ rest) 0 acc =
    if d.arch ≠ archOf native then .ret seccompRetAllow
    else if native ∧ x32SyscallBit ≤ d.nr then .ret errorAction
    else exec d.load rest 0 d.nr := by
  cases native with
  | true =>
    rw [filterInit, if_pos rfl, List.append_assoc, exec_validateArchitecture, List.cons_append,
      exec_examineSyscall, exec_handleX32]
    simp [archOf]
  | false =>
    rw [filterInit, if_neg (by simp), List.append_assoc, exec_validateArchitecture,
      List.cons_append, exec_examineSyscall]
    simp [archOf]

end Init

end Verl.Firejail
