import Verl.Firejail.DropKeep

/-! `fsec-optimize`: the pairs of instructions that deny a call share one `ret` behind the end of
the filter, to which their tests jump. A jump is one byte long. -/
namespace Verl.Firejail

open Bpf

section Code

variable (errorAction : BitVec 32)

def isBlacklist (a b : SockFilter) : Bool :=
  a.code == jmpJeqK && b.code == retK && b.k == errorAction

def countBlacklists : List SockFilter → Nat
  | a :: b :: rest => (if isBlacklist errorAction a b then 1 else 0) + countBlacklists (b :: rest)
  | _ => 0

structure Action where
  toRemove : Bool
  toFixJumps : Bool

def actions : List SockFilter → List Action
  | a :: b :: rest =>
    if isBlacklist errorAction a b then ⟨false, true⟩ :: ⟨true, false⟩ :: actions rest
    else ⟨false, false⟩ :: actions (b :: rest)
  | [_] => [⟨false, false⟩]
  | [] => []

def kept (filter : List SockFilter) : List (SockFilter × Action) :=
  (filter.zip (actions errorAction filter)).filter (fun line => !line.2.toRemove)

/-- Steps 3 and 4. Only the code and the value of the new last instruction are set: its jumps are
those of the instruction that stood at its place. -/
def optimizeBlacklists (filter : List SockFilter) : List SockFilter :=
  let lines := kept errorAction filter
  let entries := lines.length + 1
  let last := { filter.getD lines.length (stmt retK 0) with code := retK, k := errorAction }
  lines.mapIdx (fun i line =>
    if line.2.toFixJumps then
      { line.1 with jt := BitVec.ofNat 8 (entries - i - 2), jf := 0 }
    else line.1) ++ [last]

def limitBlacklists : Nat := 4

def optimize (filter : List SockFilter) : List SockFilter :=
  if limitBlacklists < countBlacklists errorAction filter then
    optimizeBlacklists errorAction filter
  else filter

end Code

section Rewire

variable {errorAction : BitVec 32} {data : BitVec 32 → Option (BitVec 32)}

/-- The instructions that stay, each test with a jump over all that stand behind it. -/
def rewire (errorAction : BitVec 32) : List SockFilter → List SockFilter
  | a :: b :: rest =>
    if isBlacklist errorAction a b then
      { a with jt := BitVec.ofNat 8 (rewire errorAction rest).length, jf := 0 } ::
        rewire errorAction rest
    else a :: rewire errorAction (b :: rest)
  | short => short

theorem kept_cons_cons_of_isBlacklist {a b : SockFilter} (rest : List SockFilter)
    (denies : isBlacklist errorAction a b = true) :
    kept errorAction (a :: b :: rest) = (a, ⟨false, true⟩) :: kept errorAction rest := by
  rw [kept, actions, if_pos denies]
  rfl

theorem kept_cons_cons_of_not {a b : SockFilter} (rest : List SockFilter)
    (other : ¬isBlacklist errorAction a b = true) :
    kept errorAction (a :: b :: rest) = (a, ⟨false, false⟩) :: kept errorAction (b :: rest) := by
  rw [kept, actions, if_neg other]
  rfl

def fixed : List (SockFilter × Action) → List SockFilter
  | [] => []
  | line :: lines =>
    (if line.2.toFixJumps then { line.1 with jt := BitVec.ofNat 8 lines.length, jf := 0 }
    else line.1) :: fixed lines

theorem length_fixed (lines : List (SockFilter × Action)) :
    (fixed lines).length = lines.length := by
  induction lines with
  | nil => rfl
  | cons line lines ih => rw [fixed, List.length_cons, ih, List.length_cons]

theorem mapIdx_fixed (lines : List (SockFilter × Action)) : lines.mapIdx (fun i line =>
      if line.2.toFixJumps then
        { line.1 with jt := BitVec.ofNat 8 (lines.length + 1 - i - 2), jf := 0 }
      else line.1) = fixed lines := by
  induction lines with
  | nil => rfl
  | cons line lines ih =>
    rw [List.mapIdx_cons, fixed, ← ih, List.length_cons]
    have shift : ∀ i, lines.length + 1 + 1 - (i + 1) - 2 = lines.length + 1 - i - 2 :=
      fun i => by omega
    simp only [shift]
    rfl

theorem fixed_kept (filter : List SockFilter) :
    fixed (kept errorAction filter) = rewire errorAction filter := by
  fun_induction rewire errorAction filter with
  | case1 a b rest denies ih =>
    rw [kept_cons_cons_of_isBlacklist rest denies, fixed, ih, ← ih, length_fixed]
    rfl
  | case2 a b rest other ih =>
    rw [kept_cons_cons_of_not rest other, fixed, ih]
    rfl
  | case3 short none =>
    match short with
    | [] => rfl
    | [a] => rfl
    | a :: b :: rest => exact (none a b rest rfl).elim

theorem optimizeBlacklists_eq (errorAction : BitVec 32) (filter : List SockFilter) :
    ∃ last : SockFilter, last.code = retK ∧ last.k = errorAction ∧
    optimizeBlacklists errorAction filter = rewire errorAction filter ++ [last] := by
  refine ⟨{ filter.getD (kept errorAction filter).length (stmt retK 0) with
    code := retK, k := errorAction }, rfl, rfl, ?_⟩
  rw [optimizeBlacklists, ← fixed_kept, ← mapIdx_fixed]

theorem exec_last {last : SockFilter} (code : last.code = retK) (acc : BitVec 32) :
    exec data [last] 0 acc = .ret last.k := by
  rw [exec_cons, SockFilter.step]
  simp [code, retK, ldWAbs, aluAndK, jmpJa, jmpJeqK, jmpJgeK, jmpJsetK]

theorem rewire_cons {i : SockFilter} (other : i.code ≠ jmpJeqK) (rest : List SockFilter) :
    rewire errorAction (i :: rest) = i :: rewire errorAction rest := by
  cases rest with
  | nil => rfl
  | cons next rest => rw [rewire, if_neg (by simp [isBlacklist, other])]

theorem rewire_jeq_ret {value : BitVec 32} (other : value ≠ errorAction) (k : BitVec 32)
    (jt jf : BitVec 8) (rest : List SockFilter) :
    rewire errorAction (jump jmpJeqK k jt jf :: stmt retK value :: rest) =
      jump jmpJeqK k jt jf :: stmt retK value :: rewire errorAction rest := by
  rw [rewire, if_neg (by simp [isBlacklist, stmt, other]),
    rewire_cons (by simp [stmt, retK, jmpJeqK])]

theorem rewire_deny (k : BitVec 32) (jt jf : BitVec 8) (rest : List SockFilter) :
    rewire errorAction (jump jmpJeqK k jt jf :: stmt retK errorAction :: rest) =
      jump jmpJeqK k (BitVec.ofNat 8 (rewire errorAction rest).length) 0 ::
        rewire errorAction rest := by
  rw [rewire, if_pos (by simp [isBlacklist, jump, stmt])]
  rfl

theorem rewire_filterInit (denies : errorAction ≠ seccompRetAllow) (native : Bool)
    (rest : List SockFilter) :
    rewire errorAction (filterInit errorAction native ++ rest) = filterInit errorAction native ++
      rewire errorAction rest := by
  cases native with
  | true =>
    rw [filterInit, if_pos rfl]
    change rewire errorAction
      (stmt ldWAbs archOffset :: jump jmpJeqK archNr 1 0 :: stmt retK seccompRetAllow ::
      examineSyscall ::
      jump jmpJgeK x32SyscallBit 1 0 :: jump jmpJgeK 0 1 0 :: stmt retK errorAction :: rest) = _
    rw [rewire_cons (by decide), rewire_jeq_ret denies.symm, rewire_cons (by decide),
      rewire_cons (by decide), rewire_cons (by decide), rewire_cons (by simp [stmt, retK, jmpJeqK])]
    rfl
  | false =>
    rw [filterInit, if_neg (by simp)]
    change rewire errorAction
      (stmt ldWAbs archOffset :: jump jmpJeqK arch32 1 0 :: stmt retK seccompRetAllow ::
      examineSyscall :: rest) = _
    rw [rewire_cons (by decide), rewire_jeq_ret denies.symm, rewire_cons (by decide)]
    rfl

end Rewire

section Rules

variable {errorAction : BitVec 32} {data : BitVec 32 → Option (BitVec 32)}

def sharedLength (errorAction : BitVec 32) (rules : List (BitVec 32 × BitVec 32)) : Nat :=
  (rules.map (fun rule => if rule.2 = errorAction then 1 else 2)).sum

def shared (errorAction : BitVec 32) (rules : List (BitVec 32 × BitVec 32)) : List SockFilter :=
  rewire errorAction (chain rules ++ filterEndBlacklist)

theorem shared_deny (k : BitVec 32) (rules : List (BitVec 32 × BitVec 32)) :
    shared errorAction ((k, errorAction) :: rules) =
    jump jmpJeqK k (BitVec.ofNat 8 (shared errorAction rules).length) 0 ::
      shared errorAction rules :=
  rewire_deny k 0 1 _

theorem shared_other {value : BitVec 32} (other : value ≠ errorAction) (k : BitVec 32)
    (rules : List (BitVec 32 × BitVec 32)) :
    shared errorAction ((k, value) :: rules) = entry k value ++ shared errorAction rules :=
  rewire_jeq_ret other k 0 1 _

theorem length_shared (rules : List (BitVec 32 × BitVec 32)) :
    (shared errorAction rules).length = sharedLength errorAction rules + 1 := by
  induction rules with
  | nil => rfl
  | cons rule rules ih =>
    obtain ⟨k, value⟩ := rule
    rw [sharedLength, List.map_cons, List.sum_cons]
    by_cases deny : value = errorAction
    · subst deny
      rw [shared_deny, List.length_cons, ih, if_pos rfl, sharedLength]
      omega
    · rw [shared_other deny, List.length_append, ih, if_neg deny, sharedLength]
      simp only [entry, List.length_cons, List.length_nil]
      omega

def Reaches (errorAction : BitVec 32) (rules : List (BitVec 32 × BitVec 32)) : Prop :=
  ∀ before k behind, rules = before ++ (k, errorAction) :: behind →
    sharedLength errorAction behind < 255

theorem Reaches.tail {rule : BitVec 32 × BitVec 32} {rules : List (BitVec 32 × BitVec 32)}
    (reaches : Reaches errorAction (rule :: rules)) :
    Reaches errorAction rules := by
  intro before k behind same
  exact reaches (rule :: before) k behind (by rw [same, List.cons_append])

end Rules

section Denials

variable {errorAction : BitVec 32} {data : BitVec 32 → Option (BitVec 32)} {last : SockFilter}

def denials (errorAction : BitVec 32) (nrs : List (BitVec 32)) : List (BitVec 32 × BitVec 32) :=
  nrs.map (fun nr => (nr, errorAction))

theorem lookup_denials (nrs : List (BitVec 32)) (nr : BitVec 32) :
    (denials errorAction nrs).lookup nr = if nr ∈ nrs then some errorAction else none := by
  induction nrs with
  | nil => rfl
  | cons first nrs ih =>
    rw [denials, List.map_cons, List.lookup_cons]
    by_cases here : nr = first
    · simp [here]
    · rw [beq_eq_false_iff_ne.mpr here,
        if_congr (by simp [here] : nr ∈ first :: nrs ↔ nr ∈ nrs) rfl rfl]
      exact ih

theorem sharedLength_denials (errorAction : BitVec 32) (nrs : List (BitVec 32)) :
    sharedLength errorAction (denials errorAction nrs) = nrs.length := by
  induction nrs with
  | nil => rfl
  | cons nr nrs ih =>
    rw [sharedLength, denials, List.map_cons, List.map_cons, List.sum_cons,
      if_pos rfl, Nat.add_comm]
    exact congrArg (· + 1) ih

theorem countBlacklists_cons_le (errorAction : BitVec 32) (i : SockFilter)
    (rest : List SockFilter) :
    countBlacklists errorAction rest ≤ countBlacklists errorAction (i :: rest) := by
  cases rest with
  | nil => exact Nat.zero_le _
  | cons next rest =>
    rw [countBlacklists.eq_1 errorAction i next rest]
    omega

theorem countBlacklists_append_le (errorAction : BitVec 32) (front rest : List SockFilter) :
    countBlacklists errorAction rest ≤ countBlacklists errorAction (front ++ rest) := by
  induction front with
  | nil => exact Nat.le_refl _
  | cons i front ih => exact ih.trans (countBlacklists_cons_le errorAction i _)

theorem length_le_countBlacklists (errorAction : BitVec 32) (nrs : List (BitVec 32))
    (rest : List SockFilter) :
    nrs.length ≤ countBlacklists errorAction (chain (denials errorAction nrs) ++ rest) := by
  induction nrs with
  | nil => exact Nat.zero_le _
  | cons nr nrs ih =>
    have pair : countBlacklists errorAction (chain (denials errorAction (nr :: nrs)) ++ rest) =
      1 + countBlacklists errorAction
        (stmt retK errorAction :: (chain (denials errorAction nrs) ++ rest)) := by
      change countBlacklists errorAction
        (jump jmpJeqK nr 0 1 :: stmt retK errorAction ::
        (chain (denials errorAction nrs) ++ rest)) = _
      rw [countBlacklists, if_pos (by simp [isBlacklist, jump, stmt])]
    have later := countBlacklists_cons_le errorAction (stmt retK errorAction)
      (chain (denials errorAction nrs) ++ rest)
    rw [pair, List.length_cons]
    omega

theorem shared_denials_cons (nr : BitVec 32) (nrs : List (BitVec 32)) :
    shared errorAction (denials errorAction (nr :: nrs)) =
    jump jmpJeqK nr (BitVec.ofNat 8 (nrs.length + 1)) 0 ::
      shared errorAction (denials errorAction nrs) := by
  rw [← sharedLength_denials errorAction nrs, ← length_shared]
  exact shared_deny nr _

theorem landing_le {behind : Nat} (long : 255 < behind + 1) :
    (behind + 1) % 2 ^ 8 ≤ behind - 255 := by
  have split := Nat.div_add_mod (behind + 1) (2 ^ 8)
  have turn : 1 ≤ (behind + 1) / 2 ^ 8 := Nat.div_pos long (by decide)
  omega

theorem mem_drop_cons {nr acc : BitVec 32} (other : acc ≠ nr) (nrs : List (BitVec 32)) (n : Nat) :
    acc ∈ (nr :: nrs).drop (nrs.length + 1 - n) ↔ acc ∈ nrs.drop (nrs.length - n) := by
  by_cases short : nrs.length + 1 ≤ n
  · rw [Nat.sub_eq_zero_of_le short, Nat.sub_eq_zero_of_le (by omega), List.drop_zero,
      List.drop_zero, List.mem_cons, or_iff_right other]
  · rw [show nrs.length + 1 - n = nrs.length - n + 1 by omega, List.drop_succ_cons]

theorem exec_shared_denials {nrs : List (BitVec 32)} (code : last.code = retK)
    (value : last.k = errorAction)
    (acc : BitVec 32) {skip : Nat} (before : skip ≤ nrs.length - 255) :
    exec data (shared errorAction (denials errorAction nrs) ++ [last]) skip acc =
      .ret (if acc ∈ nrs.drop (nrs.length - 255) then errorAction else seccompRetAllow) := by
  induction nrs generalizing skip with
  | nil =>
    obtain rfl := Nat.le_zero.mp before
    rfl
  | cons nr nrs ih =>
    rw [List.length_cons] at before ⊢
    rw [shared_denials_cons, List.cons_append]
    cases skip with
    | zero =>
      rw [exec_jeq]
      by_cases here : acc = nr
      · subst here
        rw [if_pos rfl, BitVec.toNat_ofNat]
        by_cases short : nrs.length + 1 ≤ 255
        · have passed : exec data (shared errorAction (denials errorAction nrs) ++ [last])
              (shared errorAction (denials errorAction nrs)).length acc = exec data [last] 0 acc :=
                exec_length_append _ _ acc
          rw [length_shared, sharedLength_denials, exec_last code, value] at passed
          rw [Nat.mod_eq_of_lt (by omega), passed, Nat.sub_eq_zero_of_le short, List.drop_zero,
            if_pos List.mem_cons_self]
        · rw [ih (landing_le (Nat.lt_of_not_le short)),
            show nrs.length + 1 - 255 = nrs.length - 255 + 1 by omega, List.drop_succ_cons]
      · rw [if_neg here, if_congr (mem_drop_cons here nrs 255) rfl rfl]
        exact ih (Nat.zero_le _)
    | succ skip =>
      have later : nrs.length + 1 - 255 = nrs.length - 255 + 1 := by omega
      rw [later, List.drop_succ_cons]
      exact ih (by omega)

/-- The optimized filter denies what the last 255 entries of its list name, and lets all other calls
through. -/
theorem verdict_optimize_denials {native : Bool} {nrs : List (BitVec 32)}
    (denies : errorAction ≠ seccompRetAllow) {d : SeccompData} (arch : d.arch = archOf native)
    (low : native = true → ¬x32SyscallBit ≤ d.nr) :
    verdict d.load (optimize errorAction (listFile errorAction native (denials errorAction nrs))) =
      some (if d.nr ∈ nrs.drop (nrs.length - 255) then errorAction else seccompRetAllow) := by
  by_cases many : 4 <
    countBlacklists errorAction (listFile errorAction native (denials errorAction nrs))
  · obtain ⟨last, code, value, made⟩ :=
      optimizeBlacklists_eq errorAction (listFile errorAction native (denials errorAction nrs))
    rw [optimize, limitBlacklists, if_pos many, made]
    refine verdict_eq ?_
    rw [listFile, List.append_assoc, rewire_filterInit denies, List.append_assoc, exec_filterInit,
      if_neg (not_not_intro arch), if_neg (fun both => low both.1 both.2)]
    exact exec_shared_denials code value d.nr (Nat.zero_le _)
  · have short : nrs.length ≤ 4 := by
      have counted := length_le_countBlacklists errorAction nrs filterEndBlacklist
      have whole := countBlacklists_append_le errorAction (filterInit errorAction native)
        (chain (denials errorAction nrs) ++ filterEndBlacklist)
      rw [listFile, List.append_assoc] at many
      omega
    rw [optimize, limitBlacklists, if_neg many, verdict_listFile, guarded_own arch low,
      lookup_denials, Nat.sub_eq_zero_of_le (by omega), List.drop_zero]
    split <;> rfl

theorem drop_two_cons (a b : BitVec 32) {last : List (BitVec 32)} (size : last.length = 255) :
    (a :: b :: last).drop ((a :: b :: last).length - 255) = last := by
  rw [List.length_cons, List.length_cons, size]
  rfl

/-- Of 257 entries the first two are out of reach. The call of the second one stands in the list
again. -/
theorem verdict_optimize_denials_long :
    verdict (nativeCall 0 (fun _ => 0)).load
        (optimize 0x00050001
          (listFile 0x00050001 true
          (denials 0x00050001 (0 :: 1 :: (List.replicate 254 2 ++ [1]))))) =
      some seccompRetAllow ∧
    verdict (nativeCall 1 (fun _ => 0)).load
        (optimize 0x00050001
          (listFile 0x00050001 true
          (denials 0x00050001 (0 :: 1 :: (List.replicate 254 2 ++ [1]))))) =
      some 0x00050001 := by
  have denies : (0x00050001 : BitVec 32) ≠ seccompRetAllow := by decide
  have size : (List.replicate 254 2 ++ [1] : List (BitVec 32)).length = 255 := by
    rw [List.length_append, List.length_replicate]
    rfl
  constructor
  · rw [verdict_optimize_denials denies rfl (fun _ => by decide), drop_two_cons 0 1 size, if_neg]
    change (0 : BitVec 32) ∉ List.replicate 254 2 ++ [1]
    rw [List.mem_append, List.mem_replicate, List.mem_singleton]
    decide
  · rw [verdict_optimize_denials denies rfl (fun _ => by decide), drop_two_cons 0 1 size, if_pos]
    exact List.mem_append_right _ List.mem_cons_self

end Denials

end Verl.Firejail
