import Mathlib.Data.List.Perm.Basic

/-! Programs of several parties with barriers between the stages. A program lists
its stages, a stage the operations of each party. Within a stage the parties run in
any order; a stage is over when every party has done all its operations. -/
namespace Verl

universe u

abbrev Staged (O : Type u) := List (List (List O))

namespace Staged

variable {O : Type u}

def ops (program : Staged O) : List O := program.flatten.flatten

@[simp] theorem ops_nil : ops ([] : Staged O) = [] := rfl

@[simp] theorem ops_cons (stage : List (List O)) (rest : Staged O) :
    ops (stage :: rest) = stage.flatten ++ ops rest := by
  simp [ops]

@[simp] theorem ops_append (p q : Staged O) : ops (p ++ q) = ops p ++ ops q := by simp [ops]

/-- The next operation of a party, if the party is not waiting. -/
def pop (party : Nat) : Staged O → Option (O × Staged O)
  | [] => none
  | stage :: rest =>
    if stage.flatten = [] then pop party rest
    else match stage[party]? with
      | some (o :: os) => some (o, stage.set party os :: rest)
      | _ => none

def trace : List Nat → Staged O → Option (List O × Staged O)
  | [], program => some ([], program)
  | party :: schedule, program => do
    let (o, program) ← pop party program
    let (os, program) ← trace schedule program
    return (o :: os, program)

theorem flatten_set_perm {stage : List (List O)} {party : Nat} {o : O} {os : List O}
    (there : stage[party]? = some (o :: os)) :
    stage.flatten.Perm (o :: (stage.set party os).flatten) := by
  induction stage generalizing party with
  | nil => simp at there
  | cons first rest ih =>
    cases party with
    | zero =>
      simp only [List.getElem?_cons_zero, Option.some.injEq] at there
      simp [there]
    | succ party =>
      simp only [List.getElem?_cons_succ] at there
      simp only [List.set_cons_succ, List.flatten_cons]
      exact ((ih there).append_left first).trans List.perm_middle

theorem pop_perm {party : Nat} {p q : Staged O} {o : O} (popped : pop party p = some (o, q)) :
    (ops p).Perm (o :: ops q) := by
  induction p with
  | nil => simp [pop] at popped
  | cons stage rest ih =>
    unfold pop at popped
    split at popped
    · rename_i allDone
      simpa [allDone] using ih popped
    · split at popped
      · rename_i o' os there
        cases popped
        rw [ops_cons, ops_cons]
        exact (flatten_set_perm there).append_right (ops rest)
      · contradiction

theorem pop_append_left {p : Staged O} (busy : ops p ≠ []) (party : Nat) (q : Staged O) :
    pop party (p ++ q) = (pop party p).map (fun r => (r.1, r.2 ++ q)) := by
  induction p with
  | nil => simp at busy
  | cons stage rest ih =>
    simp only [List.cons_append, pop]
    split
    · rename_i allDone
      exact ih (by simpa [allDone] using busy)
    · split
      · rfl
      · rfl

theorem pop_append_right {p : Staged O} (allDone : ops p = []) (party : Nat) (q : Staged O) :
    pop party (p ++ q) = pop party q := by
  induction p with
  | nil => rfl
  | cons stage rest ih =>
    simp only [ops_cons, List.append_eq_nil_iff] at allDone
    simp only [List.cons_append, pop, allDone.1, if_true]
    exact ih allDone.2

theorem exists_pop {p : Staged O} (busy : ops p ≠ []) : ∃ party o q, pop party p = some (o, q) := by
  induction p with
  | nil => simp at busy
  | cons stage rest ih =>
    by_cases allDone : stage.flatten = []
    · obtain ⟨party, o, q, popped⟩ := ih (by simpa [allDone] using busy)
      exact ⟨party, o, q, by simpa [pop, allDone] using popped⟩
    · obtain ⟨o, member⟩ := List.exists_mem_of_ne_nil _ allDone
      obtain ⟨program, hprogram, ho⟩ := List.mem_flatten.mp member
      obtain ⟨party, inside, rfl⟩ := List.mem_iff_getElem.mp hprogram
      obtain ⟨first, os, hfirst⟩ := List.exists_cons_of_ne_nil (List.ne_nil_of_mem ho)
      refine ⟨party, first, stage.set party os :: rest, ?_⟩
      simp [pop, allDone, List.getElem?_eq_getElem inside, hfirst]

theorem trace_perm {schedule : List Nat} {p q : Staged O} {os : List O}
    (run : trace schedule p = some (os, q)) : (ops p).Perm (os ++ ops q) := by
  induction schedule generalizing p os with
  | nil =>
    cases run
    rfl
  | cons party schedule ih =>
    simp only [trace, Option.bind_eq_bind, Option.bind_eq_some_iff, Option.pure_def,
      Option.some.injEq, Prod.mk.injEq, Prod.exists] at run
    obtain ⟨o, p', popped, rest, q', later, rfl, rfl⟩ := run
    exact (pop_perm popped).trans ((ih later).cons o)

theorem trace_cons {party : Nat} {schedule : List Nat} {p p' q : Staged O} {o : O} {os : List O}
    (popped : pop party p = some (o, p')) (later : trace schedule p' = some (os, q)) :
    trace (party :: schedule) p = some (o :: os, q) := by
  simp [trace, popped, later]

theorem trace_append {schedule : List Nat} {p q rest : Staged O} {os : List O}
    (run : trace schedule (p ++ q) = some (os, rest)) (allDone : ops rest = []) :
    ∃ before after, os = before ++ after ∧ before.Perm (ops p) ∧ after.Perm (ops q) := by
  have perm := trace_perm run
  rw [allDone, List.append_nil] at perm
  by_cases busy : ops p = []
  · refine ⟨[], os, rfl, by rw [busy], ?_⟩
    rw [ops_append, busy] at perm
    exact perm.symm
  · induction schedule generalizing p os with
    | nil =>
      cases run
      simp [(List.append_eq_nil_iff.mp (ops_append p q ▸ allDone)).1] at busy
    | cons party schedule ih =>
      simp only [trace, pop_append_left busy, Option.bind_eq_bind, Option.bind_eq_some_iff,
        Option.pure_def, Option.some.injEq, Prod.mk.injEq, Prod.exists,
        Option.map_eq_some_iff] at run
      obtain ⟨o, _, ⟨first, p', popped, rfl, rfl⟩, later, q', run, rfl, rfl⟩ := run
      have sub := pop_perm popped
      have perm' := trace_perm run
      rw [allDone, List.append_nil] at perm'
      by_cases last : ops p' = []
      · rw [last] at sub
        rw [ops_append, last] at perm'
        exact ⟨[first], later, rfl, sub.symm, perm'.symm⟩
      · obtain ⟨before, after, rfl, hbefore, hafter⟩ := ih run perm' last
        exact ⟨first :: before, after, rfl, (hbefore.cons first).trans sub.symm, hafter⟩

theorem flatten_ne_nil {stage : List (List O)} {party : Nat} {own : List O}
    (there : stage[party]? = some own) (some : own ≠ []) : stage.flatten ≠ [] := by
  intro empty
  exact some (List.flatten_eq_nil_iff.mp empty own (List.mem_of_getElem? there))

theorem flatten_set_nil {stage : List (List O)} {party : Nat} (inside : party < stage.length)
    (others : ∀ i, i ≠ party → ∀ program, stage[i]? = some program → program = []) :
    (stage.set party []).flatten = [] := by
  rw [List.flatten_eq_nil_iff]
  intro program member
  obtain ⟨i, hi⟩ := List.mem_iff_getElem?.mp member
  by_cases same : i = party
  · subst same
    rw [List.getElem?_set_self inside] at hi
    exact (Option.some.inj hi).symm
  · rw [List.getElem?_set_ne (fun h => same h.symm)] at hi
    exact others i same program hi

theorem trace_stage (Last : O → Prop) {stage : List (List O)} {rest q : Staged O}
    {schedule : List Nat} {os : List O} (run : trace schedule (stage :: rest) = some (os, q))
    (allDone : ops q = []) (busy : stage.flatten ≠ [])
    (lasts : ∀ program ∈ stage, ∀ own last, program = own ++ [last] → Last last) :
    ∃ before last after, os = before ++ last :: after ∧ Last last ∧
      (before ++ [last]).Perm stage.flatten ∧ after.Perm (ops rest) := by
  induction schedule generalizing stage os with
  | nil =>
    cases run
    rw [ops_cons, List.append_eq_nil_iff] at allDone
    exact absurd allDone.1 busy
  | cons party schedule ih =>
    simp only [trace, pop, if_neg busy, Option.bind_eq_bind, Option.bind_eq_some_iff,
      Option.pure_def, Option.some.injEq, Prod.mk.injEq, Prod.exists] at run
    obtain ⟨o, p', popped, later, q', run, rfl, rfl⟩ := run
    split at popped
    · rename_i o' own there
      simp only [Option.some.injEq, Prod.mk.injEq] at popped
      obtain ⟨rfl, rfl⟩ := popped
      have member := List.mem_of_getElem? there
      have perm := flatten_set_perm there
      by_cases empty : (stage.set party own).flatten = []
      · have others := trace_perm run
        rw [allDone, List.append_nil, ops_cons, empty, List.nil_append] at others
        have alone : own = [] := by
          have inside : party < stage.length := (List.getElem?_eq_some_iff.mp there).1
          exact List.flatten_eq_nil_iff.mp empty own
            (List.mem_iff_getElem?.mpr ⟨party, List.getElem?_set_self inside⟩)
        rw [empty] at perm
        exact ⟨[], o', later, rfl, lasts _ member [] o' (by rw [alone]; rfl),
          perm.symm, others.symm⟩
      · have lasts' : ∀ program ∈ stage.set party own, ∀ own last, program = own ++ [last] →
            Last last := by
          intro program inside
          rcases List.mem_or_eq_of_mem_set inside with old | rfl
          · exact lasts program old
          · intro own' last ends
            exact lasts _ member (o' :: own') last (by rw [ends]; rfl)
        obtain ⟨before, last, after, rfl, is, hbefore, hafter⟩ := ih run empty lasts'
        exact ⟨o' :: before, last, after, rfl, is, (hbefore.cons o').trans perm.symm, hafter⟩
    · contradiction

theorem exists_trace_last (p : Staged O) (stage : List (List O)) {party : Nat}
    {own : List O} {last : O} (there : stage[party]? = some (own ++ [last])) :
    ∃ schedule os q, trace schedule (p ++ [stage]) = some (os ++ [last], q) ∧ ops q = [] := by
  induction length : (ops (p ++ [stage])).length generalizing p stage own with
  | zero =>
    have all := List.length_eq_zero_iff.mp length
    simp only [ops_append, ops_cons, ops_nil, List.append_nil, List.append_eq_nil_iff] at all
    exact absurd all.2 (flatten_ne_nil there (by simp))
  | succ size ih =>
    have go : ∀ (mover : Nat) (o : O) (p' : Staged O) (stage' : List (List O)) (own' : List O),
        pop mover (p ++ [stage]) = some (o, p' ++ [stage']) →
        stage'[party]? = some (own' ++ [last]) →
        ∃ schedule os q, trace schedule (p ++ [stage]) = some (os ++ [last], q) ∧ ops q = [] := by
      intro mover o p' stage' own' popped there'
      have smaller : (ops (p' ++ [stage'])).length = size := by
        have shorter := (pop_perm popped).length_eq
        rw [length] at shorter
        simpa using shorter.symm
      obtain ⟨schedule, os, q, run, allDone⟩ := ih p' stage' there' smaller
      exact ⟨mover :: schedule, o :: os, q, trace_cons popped run, allDone⟩
    have inside : party < stage.length := (List.getElem?_eq_some_iff.mp there).1
    by_cases busy : ops p = []
    · by_cases others : ∀ i, i ≠ party → ∀ program, stage[i]? = some program → program = []
      · have nonempty := flatten_ne_nil there (by simp)
        cases own with
        | nil =>
          have popped : pop party (p ++ [stage]) = some (last, [stage.set party []]) := by
            rw [pop_append_right busy]
            simp only [pop, nonempty, if_false, there, List.nil_append]
          refine ⟨[party], [], [stage.set party []], trace_cons popped rfl, ?_⟩
          simpa using flatten_set_nil inside others
        | cons o own =>
          refine go party o [] (stage.set party (own ++ [last])) own ?_ ?_
          · rw [pop_append_right busy]
            simp only [pop, nonempty, if_false, there, List.cons_append, List.nil_append]
          · rw [List.getElem?_set_self inside]
      · push Not at others
        obtain ⟨mover, different, program, hmover, some⟩ := others
        obtain ⟨o, os, rfl⟩ := List.exists_cons_of_ne_nil some
        refine go mover o [] (stage.set mover os) own ?_ ?_
        · rw [pop_append_right busy]
          simp only [pop, flatten_ne_nil hmover (by simp), if_false, hmover, List.nil_append]
        · rw [List.getElem?_set_ne different, there]
    · obtain ⟨mover, o, q, popped⟩ := exists_pop busy
      refine go mover o q stage own ?_ there
      rw [pop_append_left busy, popped]
      rfl

end Staged

end Verl
