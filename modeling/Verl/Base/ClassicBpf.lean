import Mathlib.Data.List.Basic
import Mathlib.Data.BitVec

/-! Classic BPF, as far as seccomp filters use it: what a block of instructions does, and how
blocks compose. A block ends with a value, or goes on behind its end with some instructions
still to skip. -/
namespace Verl.Bpf

structure SockFilter where
  code : BitVec 16
  jt : BitVec 8
  jf : BitVec 8
  k : BitVec 32
deriving DecidableEq, Repr

def ldWAbs : BitVec 16 := 0x20

def aluAndK : BitVec 16 := 0x54

def jmpJa : BitVec 16 := 0x05

def jmpJeqK : BitVec 16 := 0x15

def jmpJgeK : BitVec 16 := 0x35

def jmpJsetK : BitVec 16 := 0x45

def retK : BitVec 16 := 0x06

def stmt (code : BitVec 16) (k : BitVec 32) : SockFilter := ⟨code, 0, 0, k⟩

def jump (code : BitVec 16) (k : BitVec 32) (jt jf : BitVec 8) : SockFilter := ⟨code, jt, jf, k⟩

inductive Outcome where
  | ret (value : BitVec 32)
  | next (skip : Nat) (acc : BitVec 32)
  | invalid
deriving DecidableEq, Repr

namespace Outcome

def bind : Outcome → (Nat → BitVec 32 → Outcome) → Outcome
  | .ret value, _ => .ret value
  | .next skip acc, later => later skip acc
  | .invalid, _ => .invalid

@[simp] theorem ret_bind (value : BitVec 32) (later : Nat → BitVec 32 → Outcome) :
    (ret value).bind later = ret value := rfl

@[simp] theorem next_bind (skip : Nat) (acc : BitVec 32) (later : Nat → BitVec 32 → Outcome) :
    (next skip acc).bind later = later skip acc := rfl

@[simp] theorem invalid_bind (later : Nat → BitVec 32 → Outcome) :
    invalid.bind later = invalid := rfl

theorem bind_assoc (o : Outcome) (f g : Nat → BitVec 32 → Outcome) :
    (o.bind f).bind g = o.bind (fun skip acc => (f skip acc).bind g) := by
  cases o <;> rfl

end Outcome

def SockFilter.step (data : BitVec 32 → Option (BitVec 32)) (i : SockFilter) (acc : BitVec 32) :
    Outcome :=
  let branch (taken : Bool) : Outcome := .next (if taken then i.jt else i.jf).toNat acc
  if i.code = ldWAbs then
    match data i.k with
    | none => .invalid
    | some word => .next 0 word
  else if i.code = aluAndK then .next 0 (acc &&& i.k)
  else if i.code = jmpJa then .next i.k.toNat acc
  else if i.code = jmpJeqK then branch (acc == i.k)
  else if i.code = jmpJgeK then branch (i.k ≤ acc)
  else if i.code = jmpJsetK then branch (acc &&& i.k != 0)
  else if i.code = retK then .ret i.k
  else .invalid

section Exec

variable (data : BitVec 32 → Option (BitVec 32))

def exec : List SockFilter → Nat → BitVec 32 → Outcome
  | [], skip, acc => .next skip acc
  | _ :: rest, skip + 1, acc => exec rest skip acc
  | i :: rest, 0, acc => (i.step data acc).bind (exec rest)

/-- The value of a whole filter, none where it runs into an instruction that is not modelled or over
its end. -/
def verdict (filter : List SockFilter) : Option (BitVec 32) :=
  match exec data filter 0 0 with
  | .ret value => some value
  | _ => none

variable {data}

@[simp] theorem exec_nil (skip : Nat) (acc : BitVec 32) :
    exec data [] skip acc = .next skip acc := rfl

@[simp] theorem exec_skip (i : SockFilter) (rest : List SockFilter) (skip : Nat) (acc : BitVec 32) :
    exec data (i :: rest) (skip + 1) acc = exec data rest skip acc := rfl

theorem exec_cons (i : SockFilter) (rest : List SockFilter) (acc : BitVec 32) :
    exec data (i :: rest) 0 acc = (i.step data acc).bind (exec data rest) := rfl

/-- A block behind another one takes over where that one goes on. -/
theorem exec_append (p q : List SockFilter) (skip : Nat) (acc : BitVec 32) :
    exec data (p ++ q) skip acc = (exec data p skip acc).bind (exec data q) := by
  induction p generalizing skip acc with
  | nil => rfl
  | cons i p ih =>
    cases skip with
    | succ skip => exact ih skip acc
    | zero =>
      rw [List.cons_append, exec_cons, exec_cons, Outcome.bind_assoc]
      exact congrArg _ (funext fun skip => funext fun acc => ih skip acc)

theorem exec_length_add (p : List SockFilter) (skip : Nat) (acc : BitVec 32) :
    exec data p (p.length + skip) acc = .next skip acc := by
  induction p with
  | nil => simp
  | cons i p ih => rw [List.length_cons, Nat.add_right_comm, exec_skip, ih]

theorem exec_length_append (p q : List SockFilter) (acc : BitVec 32) :
    exec data (p ++ q) p.length acc = exec data q 0 acc := by
  have passed : exec data p (p.length + 0) acc = .next 0 acc := exec_length_add p 0 acc
  rw [Nat.add_zero] at passed
  rw [exec_append, passed, Outcome.next_bind]

theorem verdict_eq {filter : List SockFilter} {value : BitVec 32}
    (done : exec data filter 0 0 = .ret value) :
    verdict data filter = some value := by
  rw [verdict, done]

@[simp] theorem exec_ret (k : BitVec 32) (rest : List SockFilter) (acc : BitVec 32) :
    exec data (stmt retK k :: rest) 0 acc = .ret k := rfl

@[simp] theorem exec_ja (k : BitVec 32) (jt jf : BitVec 8) (rest : List SockFilter)
    (acc : BitVec 32) :
    exec data (jump jmpJa k jt jf :: rest) 0 acc = exec data rest k.toNat acc := rfl

theorem exec_ld {k word : BitVec 32} (there : data k = some word) (rest : List SockFilter)
    (acc : BitVec 32) :
    exec data (stmt ldWAbs k :: rest) 0 acc = exec data rest 0 word := by
  rw [exec_cons, SockFilter.step]
  simp only [stmt, if_true, there, Outcome.next_bind]

@[simp] theorem exec_jeq (k : BitVec 32) (jt jf : BitVec 8) (rest : List SockFilter)
    (acc : BitVec 32) :
    exec data (jump jmpJeqK k jt jf :: rest) 0 acc = exec data rest (if acc = k then jt
      else jf).toNat acc := by
  rw [exec_cons, SockFilter.step]
  simp [jump, jmpJeqK, ldWAbs, aluAndK, jmpJa]

@[simp] theorem exec_jge (k : BitVec 32) (jt jf : BitVec 8) (rest : List SockFilter)
    (acc : BitVec 32) :
    exec data (jump jmpJgeK k jt jf :: rest) 0 acc = exec data rest (if k ≤ acc then jt
      else jf).toNat acc := by
  rw [exec_cons, SockFilter.step]
  by_cases above : k ≤ acc <;> simp [jump, jmpJgeK, ldWAbs, aluAndK, jmpJa, jmpJeqK, above]

@[simp] theorem exec_jset (k : BitVec 32) (jt jf : BitVec 8) (rest : List SockFilter)
    (acc : BitVec 32) :
    exec data (jump jmpJsetK k jt jf :: rest) 0 acc = exec data rest (if acc &&& k = 0 then jf
      else jt).toNat acc := by
  rw [exec_cons, SockFilter.step]
  by_cases clear : acc &&& k = 0
    <;> simp [jump, jmpJsetK, ldWAbs, aluAndK, jmpJa, jmpJeqK, jmpJgeK, clear]

/-- The test for one number in front of a block that is only for it. -/
theorem exec_guard {k acc : BitVec 32} {jf : BitVec 8} (body rest : List SockFilter)
    (whole : jf.toNat = body.length) :
    exec data (jump jmpJeqK k 0 jf :: (body ++ rest)) 0 acc = if acc = k then
      exec data (body ++ rest) 0 acc else exec data rest 0 acc := by
  rw [exec_jeq]
  split
  · rfl
  · rw [whole, exec_length_append]

end Exec

section Chain

variable {data : BitVec 32 → Option (BitVec 32)}

def entry (k value : BitVec 32) : List SockFilter := [jump jmpJeqK k 0 1, stmt retK value]

def chain (rules : List (BitVec 32 × BitVec 32)) : List SockFilter :=
  rules.flatMap (fun rule => entry rule.1 rule.2)

theorem exec_entry (k value acc : BitVec 32) (rest : List SockFilter) :
    exec data (entry k value ++ rest) 0 acc = if acc = k then .ret value
      else exec data rest 0 acc := by
  rw [entry, List.cons_append, exec_jeq]
  split
  · exact exec_ret value _ acc
  · rfl

theorem exec_chain (rules : List (BitVec 32 × BitVec 32)) (acc : BitVec 32)
    (rest : List SockFilter) :
    exec data (chain rules ++ rest) 0 acc =
      match rules.lookup acc with
      | some value => .ret value
      | none => exec data rest 0 acc := by
  induction rules with
  | nil => rfl
  | cons rule rules ih =>
    rw [chain, List.flatMap_cons, List.append_assoc, exec_entry, List.lookup_cons]
    by_cases here : acc = rule.1
    · rw [if_pos here, beq_iff_eq.mpr here]
    · rw [if_neg here, beq_eq_false_iff_ne.mpr here]
      exact ih

theorem chain_append (a b : List (BitVec 32 × BitVec 32)) : chain (a ++ b) = chain a ++ chain b :=
  List.flatMap_append

end Chain

section Seccomp

structure SeccompData where
  nr : BitVec 32
  arch : BitVec 32
  instructionPointer : BitVec 64
  args : Fin 6 → BitVec 64

def lowWord (x : BitVec 64) : BitVec 32 := x.setWidth 32

def highWord (x : BitVec 64) : BitVec 32 := (x >>> 32).setWidth 32

def SeccompData.word (d : SeccompData) (n : Fin 6) : BitVec 32 := lowWord (d.args n)

def SeccompData.load (d : SeccompData) (offset : BitVec 32) : Option (BitVec 32) :=
  match offset.toNat with
  | 0 => some d.nr
  | 4 => some d.arch
  | 8 => some (lowWord d.instructionPointer)
  | 12 => some (highWord d.instructionPointer)
  | n =>
    if aligned : n % 4 = 0 ∧ 16 ≤ n ∧ n < 64 then
      let arg := d.args ⟨(n - 16) / 8, by omega⟩
      some (if n % 8 = 0 then lowWord arg else highWord arg)
    else none

end Seccomp

end Verl.Bpf
