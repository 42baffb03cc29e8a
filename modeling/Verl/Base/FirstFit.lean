import Mathlib.Algebra.BigOperators.Group.Finset.Piecewise
import Mathlib.Algebra.GroupWithZero.Nat
import Mathlib.Algebra.Order.BigOperators.Group.List
import Mathlib.Algebra.Order.Group.Basic
import Mathlib.Data.List.Nodup
import Mathlib.Data.List.Range

/-! Jobs on nodes with capacities. The demands of a job go to distinct nodes, and what all jobs put
on a node stays within its capacity. First fit gives a job with equal demands the first nodes that
have room. -/
namespace Verl.FirstFit

variable {α : Type} [AddCommGroup α] [LinearOrder α]

section Model

def load (job : List α) (nodes : List Nat) (n : Nat) : α :=
  ((job.zip nodes).map (fun e => if e.2 = n then e.1 else 0)).sum

structure Assigns (count : Nat) (job : List α) (nodes : List Nat) : Prop where
  length : nodes.length = job.length
  distinct : nodes.Nodup
  inside : ∀ n ∈ nodes, n < count

def Placeable (capacities : List α) (jobs : List (List α)) : Prop :=
  ∃ placement : List (List Nat), List.Forall₂ (Assigns capacities.length) jobs placement ∧
    ∀ n (_ : n < capacities.length),
      ((jobs.zip placement).map (fun e => load e.1 e.2 n)).sum ≤ capacities[n]

def remaining (capacities : List α) (job : List α) (nodes : List Nat) : List α :=
  capacities.mapIdx (fun n c => c - load job nodes n)

/-- `k` nodes, the first ones with room for `g`: how many are missing, and the capacities that are
left. -/
def firstFit (g : α) : Nat → List α → Nat × List α
  | 0, capacities => (0, capacities)
  | k + 1, [] => (k + 1, [])
  | k + 1, c :: capacities =>
    if g ≤ c then ((firstFit g k capacities).1, (c - g) :: (firstFit g k capacities).2)
    else ((firstFit g (k + 1) capacities).1, c :: (firstFit g (k + 1) capacities).2)

def Passes : List α → List (α × Nat) → Prop
  | _, [] => True
  | capacities, (g, k) :: jobs =>
    (firstFit g k capacities).1 = 0 ∧ Passes (firstFit g k capacities).2 jobs

def roomy (bound : α) (capacities : List α) : Nat := capacities.countP (fun c => decide (bound ≤ c))

/-- A job finds enough nodes beside all that came before, or it is the only one that its nodes have
room for, and no larger than those before. -/
def Undisputed (capacities : List α) (before : List (α × Nat)) (job : α × Nat) : Prop :=
  job.2 ≤ roomy ((before.map Prod.fst).sum + job.1) capacities ∨ ∀ b ∈ before,
    job.1 ≤ b.1 ∧ ∀ c ∈ capacities, c < b.1 + job.1

instance (capacities : List α) (before : List (α × Nat)) (job : α × Nat) :
    Decidable (Undisputed capacities before job) :=
  inferInstanceAs (Decidable (_ ∨ _))

end Model

section Placing

variable {capacities : List α} {job : List α} {jobs : List (List α)} {nodes : List Nat}

omit [LinearOrder α] in
@[simp] theorem length_remaining : (remaining capacities job nodes).length = capacities.length :=
  List.length_mapIdx

omit [LinearOrder α] in
theorem getElem_remaining {n : Nat} (inside : n < (remaining capacities job nodes).length) :
    (remaining capacities job nodes)[n] =
      capacities.get ⟨n, by simpa using inside⟩ - load job nodes n := by
  simp [remaining]

theorem placeable_nil : Placeable capacities [] ↔ ∀ c ∈ capacities, 0 ≤ c := by
  constructor
  · rintro ⟨placement, -, within⟩ c member
    obtain ⟨n, inside, rfl⟩ := List.mem_iff_getElem.mp member
    simpa using within n inside
  · intro nonneg
    exact ⟨[], .nil, fun n inside => by simpa using nonneg _ (List.getElem_mem inside)⟩

variable [IsOrderedAddMonoid α]

theorem placeable_cons : Placeable capacities (job :: jobs) ↔
    ∃ nodes, Assigns capacities.length job nodes ∧
      Placeable (remaining capacities job nodes) jobs := by
  constructor
  · rintro ⟨placement, assigns, within⟩
    cases assigns with
    | @cons _ nodes _ placement first rest =>
      refine ⟨nodes, first, placement, by rwa [length_remaining], ?_⟩
      intro n inside
      have total := within n (by simpa using inside)
      rw [List.zip_cons_cons, List.map_cons, List.sum_cons] at total
      rw [getElem_remaining, le_sub_iff_add_le']
      exact total
  · rintro ⟨nodes, first, placement, rest, within⟩
    rw [length_remaining] at rest
    refine ⟨nodes :: placement, .cons first rest, ?_⟩
    intro n inside
    have left := within n (by simpa using inside)
    rw [getElem_remaining, le_sub_iff_add_le'] at left
    rw [List.zip_cons_cons, List.map_cons, List.sum_cons]
    exact left

theorem load_nonneg (nonneg : ∀ d ∈ job, 0 ≤ d) (nodes : List Nat) (n : Nat) :
    0 ≤ load job nodes n := by
  apply List.sum_nonneg
  intro x member
  obtain ⟨e, inside, rfl⟩ := List.mem_map.mp member
  split
  · exact nonneg e.1 (List.of_mem_zip inside).1
  · exact le_refl 0

theorem nonneg_of_placeable (nonneg : ∀ job ∈ jobs, ∀ d ∈ job, 0 ≤ d)
    (placeable : Placeable capacities jobs) :
    ∀ c ∈ capacities, 0 ≤ c := by
  obtain ⟨placement, -, within⟩ := placeable
  intro c member
  obtain ⟨n, inside, rfl⟩ := List.mem_iff_getElem.mp member
  refine le_trans (List.sum_nonneg ?_) (within n inside)
  intro x listed
  obtain ⟨e, here, rfl⟩ := List.mem_map.mp listed
  exact load_nonneg (nonneg e.1 (List.of_mem_zip here).1) e.2 n

omit [LinearOrder α] [IsOrderedAddMonoid α] in
theorem load_cons (d : α) (job : List α) (node : Nat) (nodes : List Nat) (n : Nat) :
    load (d :: job) (node :: nodes) n = (if node = n then d else 0) + load job nodes n := by
  simp [load]

omit [LinearOrder α] [IsOrderedAddMonoid α] in
theorem sum_load {count : Nat} (same : nodes.length = job.length)
    (inside : ∀ n ∈ nodes, n < count) :
    ((List.range count).map (load job nodes)).sum = job.sum := by
  induction job generalizing nodes with
  | nil =>
    have nothing : load ([] : List α) nodes = fun _ => 0 := by
      funext n
      simp [load]
    simp [nothing]
  | cons d job ih =>
    cases nodes with
    | nil => cases same
    | cons node nodes =>
      have rest := ih (Nat.succ.inj same) (fun n member =>
        inside n (List.mem_cons_of_mem node member))
      have here : ((List.range count).map (fun n => if node = n then d else 0)).sum = d := by
        change ∑ n ∈ Finset.range count, (if node = n then d else 0) = d
        rw [Finset.sum_ite_eq, if_pos (Finset.mem_range.mpr (inside node List.mem_cons_self))]
      have split : (List.range count).map (load (d :: job) (node :: nodes)) =
          (List.range count).map (fun n => (if node = n then d else 0) + load job nodes n) :=
        List.map_congr_left (fun n _ => load_cons d job node nodes n)
      rw [split, List.sum_map_add, here, rest, List.sum_cons]

omit [LinearOrder α] [IsOrderedAddMonoid α] in
theorem sum_mapIdx_sub (capacities : List α) (f : Nat → α) :
    (capacities.mapIdx (fun n c => c - f n)).sum =
      capacities.sum - ((List.range capacities.length).map f).sum := by
  induction capacities generalizing f with
  | nil => simp
  | cons c capacities ih =>
    have rest := ih (fun n => f (n + 1))
    rw [List.mapIdx_cons, List.sum_cons, rest, List.length_cons, List.range_succ_eq_map,
      List.map_cons, List.map_map, List.sum_cons, List.sum_cons]
    exact sub_add_sub_comm c (f 0) capacities.sum _

theorem sum_le_of_placeable (placeable : Placeable capacities jobs) :
    (jobs.map List.sum).sum ≤ capacities.sum := by
  induction jobs generalizing capacities with
  | nil => exact List.sum_nonneg (placeable_nil.mp placeable)
  | cons job jobs ih =>
    obtain ⟨nodes, assigns, rest⟩ := placeable_cons.mp placeable
    have left := ih rest
    have total : (remaining capacities job nodes).sum = capacities.sum - job.sum := by
      rw [remaining, sum_mapIdx_sub, sum_load assigns.length assigns.inside]
    rw [total, le_sub_iff_add_le'] at left
    rwa [List.map_cons, List.sum_cons]

omit [LinearOrder α] [IsOrderedAddMonoid α] in
@[simp] theorem load_nil (job : List α) (n : Nat) : load job [] n = 0 := by
  simp [load]

theorem load_mono {job' : List α} (smaller : List.Forall₂ (· ≤ ·) job job')
    (nodes : List Nat) (n : Nat) :
    load job nodes n ≤ load job' nodes n := by
  induction smaller generalizing nodes with
  | nil => exact le_refl _
  | cons here _ ih =>
    cases nodes with
    | nil => rw [load_nil, load_nil]
    | cons node nodes =>
      rw [load_cons, load_cons]
      refine add_le_add ?_ (ih nodes)
      split
      · exact here
      · exact le_refl 0

theorem Placeable.mono {jobs' : List (List α)}
    (smaller : List.Forall₂ (List.Forall₂ (· ≤ ·)) jobs jobs')
    (placeable : Placeable capacities jobs') : Placeable capacities jobs := by
  obtain ⟨placement, assigns, within⟩ := placeable
  have loads : ∀ n, ((jobs.zip placement).map (fun e => load e.1 e.2 n)).sum ≤
      ((jobs'.zip placement).map (fun e => load e.1 e.2 n)).sum := by
    intro n
    clear assigns within
    induction smaller generalizing placement with
    | nil => exact le_refl _
    | cons here _ ih =>
      cases placement with
      | nil => exact le_refl _
      | cons nodes placement => exact add_le_add (load_mono here nodes n) (ih placement)
  refine ⟨placement, ?_, fun n inside => (loads n).trans (within n inside)⟩
  clear loads within
  induction smaller generalizing placement with
  | nil => exact assigns
  | cons here _ ih =>
    cases assigns with
    | cons first rest =>
      exact .cons ⟨first.length.trans here.length_eq.symm, first.distinct, first.inside⟩ (ih _ rest)

end Placing

section Loads

variable {capacities : List α} {nodes : List Nat}

omit [LinearOrder α] in
theorem load_map_succ (job : List α) (nodes : List Nat) (n : Nat) :
    load job (nodes.map (· + 1)) (n + 1) = load job nodes n := by
  simp only [load, List.zip_map_right, List.map_map]
  congr 1
  apply List.map_congr_left
  intro e _
  simp

omit [LinearOrder α] in
theorem load_map_succ_zero (job : List α) (nodes : List Nat) :
    load job (nodes.map (· + 1)) 0 = 0 := by
  apply List.sum_eq_zero
  intro x member
  simp only [List.zip_map_right, List.map_map, List.mem_map, Function.comp_apply, Prod.map_snd,
    Nat.succ_ne_zero, if_false] at member
  obtain ⟨_, -, rfl⟩ := member
  rfl

omit [LinearOrder α] in
theorem load_replicate_of_notMem {k n : Nat} (g : α) (missing : n ∉ nodes) :
    load (List.replicate k g) nodes n = 0 := by
  apply List.sum_eq_zero
  intro x member
  obtain ⟨e, inside, rfl⟩ := List.mem_map.mp member
  have other : e.2 ≠ n := fun same => missing (same ▸ (List.of_mem_zip inside).2)
  exact if_neg other

omit [LinearOrder α] in
theorem load_replicate {n : Nat} (g : α) (distinct : nodes.Nodup) (used : n ∈ nodes) :
    load (List.replicate nodes.length g) nodes n = g := by
  induction nodes with
  | nil => cases used
  | cons node nodes ih =>
    obtain ⟨fresh, distinct⟩ := List.nodup_cons.mp distinct
    rw [List.length_cons, List.replicate_succ, load_cons]
    by_cases here : node = n
    · rw [if_pos here, load_replicate_of_notMem g (here ▸ fresh), add_zero]
    · have later : n ∈ nodes := (List.mem_cons.mp used).resolve_left (fun same => here same.symm)
      rw [if_neg here, zero_add, ih distinct later]

omit [AddCommGroup α] [LinearOrder α] in
theorem countP_eq_length_filter_range (p : α → Bool) (capacities : List α) :
    capacities.countP p =
      ((List.range capacities.length).filter (fun n => capacities[n]?.any p)).length := by
  have listed : capacities.map some =
      (List.range capacities.length).map (fun n => capacities[n]?) := by
    apply List.ext_getElem
    · simp
    · intro n _ _
      simp
  have options : (capacities.map some).countP (Option.any p) = capacities.countP p := by
    rw [List.countP_map]
    rfl
  rw [← options, listed, List.countP_map, List.countP_eq_length_filter]
  rfl

omit [AddCommGroup α] [LinearOrder α] in
theorem length_le_countP {p : α → Bool} (distinct : nodes.Nodup)
    (room : ∀ n ∈ nodes, ∃ c, capacities[n]? = some c ∧ p c = true) :
    nodes.length ≤ capacities.countP p := by
  rw [countP_eq_length_filter_range]
  apply List.Subperm.length_le
  apply distinct.subperm
  intro n member
  obtain ⟨c, here, fits⟩ := room n member
  rw [List.mem_filter, List.mem_range]
  exact ⟨(List.getElem?_eq_some_iff.mp here).1, by rw [here]; exact fits⟩

end Loads

section FirstFit

variable {capacities : List α} {g : α} {k : Nat}

theorem firstFit_left (g : α) (k : Nat) (capacities : List α) :
    (firstFit g k capacities).1 = k - roomy g capacities := by
  unfold roomy
  induction capacities generalizing k with
  | nil => cases k <;> rfl
  | cons c capacities ih =>
    cases k with
    | zero => rw [firstFit, Nat.zero_sub]
    | succ k =>
      rw [firstFit]
      split
      · rename_i room
        rw [ih, List.countP_cons_of_pos (by simpa using room)]
        omega
      · rename_i full
        rw [ih, List.countP_cons_of_neg (by simpa using full)]

theorem firstFit_eq_zero_iff : (firstFit g k capacities).1 = 0 ↔ k ≤ roomy g capacities := by
  rw [firstFit_left]
  omega

theorem exists_nodes (enough : k ≤ roomy g capacities) : ∃ nodes,
    Assigns capacities.length (List.replicate k g) nodes ∧
      (firstFit g k capacities).2 = remaining capacities (List.replicate k g) nodes := by
  unfold roomy at enough
  induction capacities generalizing k with
  | nil =>
    obtain rfl : k = 0 := Nat.le_zero.mp enough
    exact ⟨[], ⟨rfl, .nil, by simp⟩, rfl⟩
  | cons c capacities ih =>
    cases k with
    | zero =>
      refine ⟨[], ⟨rfl, .nil, by simp⟩, ?_⟩
      apply List.ext_getElem
      · simp [firstFit]
      · intro n _ _
        rw [getElem_remaining]
        simp [firstFit, load]
    | succ k =>
      rw [firstFit]
      split
      · rename_i room
        rw [List.countP_cons_of_pos (by simpa using room)] at enough
        obtain ⟨nodes, assigns, left⟩ := ih (Nat.le_of_succ_le_succ enough)
        refine ⟨0 :: nodes.map (· + 1), ⟨?_, ?_, ?_⟩, ?_⟩
        · simpa using assigns.length
        · rw [List.nodup_cons]
          exact ⟨by simp, assigns.distinct.map (Nat.succ_injective)⟩
        · intro n member
          rcases List.mem_cons.mp member with rfl | later
          · exact Nat.succ_pos _
          · obtain ⟨m, inside, rfl⟩ := List.mem_map.mp later
            exact Nat.succ_lt_succ (assigns.inside m inside)
        · rw [remaining, List.mapIdx_cons, left, remaining]
          simp only [List.replicate_succ, load_cons, load_map_succ_zero, load_map_succ, if_true,
            add_zero, zero_add, (Nat.succ_ne_zero _).symm, if_false]
      · rename_i full
        rw [List.countP_cons_of_neg (by simpa using full)] at enough
        obtain ⟨nodes, assigns, left⟩ := ih enough
        refine ⟨nodes.map (· + 1), ⟨?_, ?_, ?_⟩, ?_⟩
        · simpa using assigns.length
        · exact assigns.distinct.map Nat.succ_injective
        · intro n member
          obtain ⟨m, inside, rfl⟩ := List.mem_map.mp member
          exact Nat.succ_lt_succ (assigns.inside m inside)
        · rw [remaining, List.mapIdx_cons, left, remaining]
          simp only [load_map_succ_zero, load_map_succ, sub_zero]

variable [IsOrderedAddMonoid α]

theorem nonneg_firstFit (nonneg : ∀ c ∈ capacities, 0 ≤ c) :
    ∀ c ∈ (firstFit g k capacities).2, 0 ≤ c := by
  induction capacities generalizing k with
  | nil =>
    cases k with
    | zero => simp [firstFit]
    | succ k => simp [firstFit]
  | cons c capacities ih =>
    obtain ⟨here, later⟩ := List.forall_mem_cons.mp nonneg
    cases k with
    | zero => exact nonneg
    | succ k =>
      rw [firstFit]
      split
      · rename_i room
        exact List.forall_mem_cons.mpr ⟨sub_nonneg.mpr room, ih later⟩
      · exact List.forall_mem_cons.mpr ⟨here, ih later⟩

/-- A job with equal demands that can be placed together with others finds enough nodes with
room. -/
theorem enough_of_placeable {jobs : List (List α)} (nonneg : ∀ job ∈ jobs, ∀ d ∈ job, 0 ≤ d)
    (placeable : Placeable capacities (List.replicate k g :: jobs)) : k ≤ roomy g capacities := by
  obtain ⟨nodes, assigns, rest⟩ := placeable_cons.mp placeable
  have left := nonneg_of_placeable nonneg rest
  have same : nodes.length = k := by simpa using assigns.length
  rw [← same] at left ⊢
  rw [roomy]
  apply length_le_countP assigns.distinct
  intro n member
  have inside := assigns.inside n member
  refine ⟨capacities[n], List.getElem?_eq_getElem inside, decide_eq_true ?_⟩
  have inside' : n < (remaining capacities (List.replicate nodes.length g) nodes).length := by
    rwa [length_remaining]
  have here := left _ (List.getElem_mem inside')
  rw [getElem_remaining, load_replicate g assigns.distinct member] at here
  exact sub_nonneg.mp here

theorem placeable_of_passes {jobs : List (α × Nat)} (nonneg : ∀ c ∈ capacities, 0 ≤ c)
    (passes : Passes capacities jobs) :
    Placeable capacities (jobs.map (fun e => List.replicate e.2 e.1)) := by
  induction jobs generalizing capacities with
  | nil => exact placeable_nil.mpr nonneg
  | cons job jobs ih =>
    obtain ⟨found, later⟩ := passes
    obtain ⟨nodes, assigns, left⟩ := exists_nodes (firstFit_eq_zero_iff.mp found)
    have rest := ih (nonneg_firstFit nonneg) later
    rw [left] at rest
    exact placeable_cons.mpr ⟨nodes, assigns, rest⟩

end FirstFit

section Disputes

variable [IsOrderedAddMonoid α] {capacities : List α} {g x : α} {k : Nat}

omit [AddCommGroup α] [IsOrderedAddMonoid α] in
theorem roomy_cons (c : α) : roomy x (c :: capacities) = roomy x capacities + if x ≤ c then
    1 else 0 := by
  simp [roomy, List.countP_cons]

/-- First fit takes the nodes away from `x` that it takes for `g`, where no node has room for
both. -/
theorem roomy_firstFit (below : x ≤ g) (single : ∀ c ∈ capacities, c < g + x)
    (enough : k ≤ roomy g capacities) :
    roomy x (firstFit g k capacities).2 + k = roomy x capacities := by
  induction capacities generalizing k with
  | nil =>
    obtain rfl : k = 0 := Nat.le_zero.mp enough
    rfl
  | cons c capacities ih =>
    obtain ⟨here, later⟩ := List.forall_mem_cons.mp single
    cases k with
    | zero => rfl
    | succ k =>
      rw [firstFit]
      rw [roomy_cons] at enough ⊢
      split
      · rename_i room
        have used : ¬x ≤ c - g := by
          rw [le_sub_iff_add_le', not_le]
          exact here
        rw [if_pos room] at enough
        rw [roomy_cons, if_neg used,
          if_pos (below.trans room), ← ih later (Nat.le_of_succ_le_succ enough)]
        omega
      · rename_i full
        rw [if_neg full] at enough
        rw [roomy_cons, ← ih later enough]
        omega

theorem roomy_add_le (nonneg : 0 ≤ g) :
    roomy (g + x) capacities ≤ roomy x (firstFit g k capacities).2 := by
  induction capacities generalizing k with
  | nil => exact Nat.zero_le _
  | cons c capacities ih =>
    have keeps : g + x ≤ c → x ≤ c := (le_add_of_nonneg_left nonneg).trans
    cases k with
    | zero =>
      rw [firstFit]
      exact List.countP_mono_left fun d _ room =>
        decide_eq_true ((le_add_of_nonneg_left nonneg).trans (of_decide_eq_true room))
    | succ k =>
      rw [firstFit, roomy_cons]
      by_cases room : g ≤ c
      · rw [if_pos room, roomy_cons]
        simp only [le_sub_iff_add_le']
        exact Nat.add_le_add_right ih _
      · rw [if_neg room, roomy_cons]
        refine Nat.add_le_add ih ?_
        split <;> rename_i both
        · rw [if_pos (keeps both)]
        · exact Nat.zero_le _

theorem lt_firstFit (nonneg : 0 ≤ g) {bound : α} (below : ∀ c ∈ capacities, c < bound) :
    ∀ c ∈ (firstFit g k capacities).2, c < bound := by
  induction capacities generalizing k with
  | nil => cases k <;> simp [firstFit]
  | cons c capacities ih =>
    obtain ⟨here, later⟩ := List.forall_mem_cons.mp below
    cases k with
    | zero => exact below
    | succ k =>
      rw [firstFit]
      split
      · exact List.forall_mem_cons.mpr ⟨(sub_le_self c nonneg).trans_lt here, ih later⟩
      · exact List.forall_mem_cons.mpr ⟨here, ih later⟩

theorem roomy_remaining {nodes : List Nat}
    (assigns : Assigns capacities.length (List.replicate k g) nodes)
    (left : ∀ c ∈ remaining capacities (List.replicate k g) nodes, 0 ≤ c) (nonneg : 0 ≤ g)
    (below : x ≤ g) (single : ∀ c ∈ capacities, c < g + x) :
    roomy x (remaining capacities (List.replicate k g) nodes) + k ≤ roomy x capacities := by
  obtain rfl : nodes.length = k := by simpa using assigns.length
  let free := (List.range capacities.length).filter (fun n =>
    (remaining capacities (List.replicate nodes.length g) nodes)[n]?.any
    (fun c => decide (x ≤ c)))
  have counted : roomy x (remaining capacities (List.replicate nodes.length g) nodes) =
      free.length := by
    rw [roomy, countP_eq_length_filter_range, length_remaining]
  have placed : ∀ n (inside : n < capacities.length),
    (remaining capacities (List.replicate nodes.length g) nodes)[n]? =
      some (capacities[n] - load (List.replicate nodes.length g) nodes n) := by
    intro n inside
    have inside' : n < (remaining capacities (List.replicate nodes.length g) nodes).length := by
      rwa [length_remaining]
    rw [List.getElem?_eq_getElem inside', getElem_remaining]
    rfl
  have room : ∀ n ∈ free, ∃ inside : n < capacities.length,
      x ≤ capacities[n] - load (List.replicate nodes.length g) nodes n := by
    intro n member
    obtain ⟨inside, fits⟩ := List.mem_filter.mp member
    rw [List.mem_range] at inside
    rw [placed n inside] at fits
    exact ⟨inside, of_decide_eq_true fits⟩
  have apart : free.Disjoint nodes := by
    intro n member used
    obtain ⟨inside, fits⟩ := room n member
    rw [load_replicate g assigns.distinct used, le_sub_iff_add_le'] at fits
    exact absurd (single _ (List.getElem_mem inside)) (not_lt.mpr fits)
  rw [counted, ← List.length_append]
  refine length_le_countP ((List.nodup_range.filter _).append assigns.distinct apart) ?_
  intro n member
  rcases List.mem_append.mp member with unused | used
  · obtain ⟨inside, fits⟩ := room n unused
    refine ⟨capacities[n], List.getElem?_eq_getElem inside,
      decide_eq_true (fits.trans (sub_le_self _ ?_))⟩
    exact load_nonneg (fun d listed => (List.eq_of_mem_replicate listed).symm ▸ nonneg) nodes n
  · have inside := assigns.inside n used
    have kept := left _ (List.mem_of_getElem? (placed n inside))
    rw [load_replicate g assigns.distinct used, sub_nonneg] at kept
    exact ⟨capacities[n], List.getElem?_eq_getElem inside, decide_eq_true (below.trans kept)⟩

/-- No two of these jobs share a node, so that they need as many nodes as they have demands. -/
theorem sum_le_roomy {before after : List (α × Nat)} {job : α × Nat}
    (nonneg : ∀ e ∈ before ++ job :: after, 0 ≤ e.1)
    (single : ∀ b ∈ before, job.1 ≤ b.1 ∧ ∀ c ∈ capacities, c < b.1 + job.1)
    (placeable : Placeable capacities
      ((before ++ job :: after).map (fun e => List.replicate e.2 e.1))) :
    (before.map Prod.snd).sum + job.2 ≤ roomy job.1 capacities := by
  have demands : ∀ {es : List (α × Nat)}, (∀ e ∈ es, 0 ≤ e.1) →
      ∀ job ∈ es.map (fun e => List.replicate e.2 e.1), ∀ d ∈ job, 0 ≤ d := by
    intro es nonneg job member d inside
    obtain ⟨e, listed, rfl⟩ := List.mem_map.mp member
    exact (List.eq_of_mem_replicate inside).symm ▸ nonneg e listed
  induction before generalizing capacities with
  | nil =>
    rw [List.map_nil, List.sum_nil, Nat.zero_add]
    exact enough_of_placeable (demands (fun e member => nonneg e (List.mem_cons_of_mem job member)))
      placeable
  | cons b before ih =>
    obtain ⟨here, later⟩ := List.forall_mem_cons.mp single
    obtain ⟨first, others⟩ := List.forall_mem_cons.mp nonneg
    obtain ⟨nodes, assigns, rest⟩ := placeable_cons.mp placeable
    have left := nonneg_of_placeable (demands others) rest
    have smaller : ∀ {bound : α}, (∀ c ∈ capacities, c < bound) →
        ∀ c ∈ remaining capacities (List.replicate b.2 b.1) nodes, c < bound := by
      intro bound below c member
      obtain ⟨n, inside, rfl⟩ := List.mem_iff_getElem.mp member
      rw [getElem_remaining]
      refine (sub_le_self _ ?_).trans_lt (below _ (List.getElem_mem _))
      exact load_nonneg (fun d listed => (List.eq_of_mem_replicate listed).symm ▸ first) nodes n
    have more := ih others (fun e member => ⟨(later e member).1, smaller (later e member).2⟩) rest
    have taken := roomy_remaining assigns left first here.1 here.2
    rw [List.map_cons, List.sum_cons]
    omega

/-- What first fit has left of the capacities after some jobs. -/
structure Leaves (capacities : List α) (before : List (α × Nat)) (left : List α) : Prop where
  ample : ∀ x, roomy ((before.map Prod.fst).sum + x) capacities ≤ roomy x left
  single : ∀ x, (∀ b ∈ before, x ≤ b.1 ∧ ∀ c ∈ capacities, c < b.1 + x) →
    roomy x left + (before.map Prod.snd).sum = roomy x capacities
  below : ∀ bound, (∀ c ∈ capacities, c < bound) → ∀ c ∈ left, c < bound

omit [IsOrderedAddMonoid α] in
theorem leaves_nil (capacities : List α) : Leaves capacities [] capacities where
  ample x := by rw [List.map_nil, List.sum_nil, zero_add]
  single _ _ := rfl
  below _ below := below

theorem Leaves.step {before : List (α × Nat)} {left : List α}
    (leaves : Leaves capacities before left) (nonneg : 0 ≤ g)
    (enough : k ≤ roomy g left) : Leaves capacities (before ++ [(g, k)]) (firstFit g k left).2 where
  ample x := by
    have more := leaves.ample (g + x)
    rw [← add_assoc] at more
    rw [List.map_append, List.sum_append, List.map_singleton, List.sum_singleton]
    exact more.trans (roomy_add_le nonneg)
  single x single := by
    obtain ⟨earlier, here⟩ := List.forall_mem_append.mp single
    obtain ⟨small, alone⟩ := here (g, k) List.mem_cons_self
    have now : roomy x (firstFit g k left).2 + k = roomy x left :=
      roomy_firstFit small (leaves.below _ alone) enough
    have earlier := leaves.single x earlier
    rw [List.map_append, List.sum_append, List.map_singleton, List.sum_singleton]
    omega
  below bound below := lt_firstFit nonneg (leaves.below bound below)

def Served (capacities : List α) (before : List (α × Nat)) (job : α × Nat) : Prop :=
  job.2 ≤ roomy ((before.map Prod.fst).sum + job.1) capacities ∨
    (∀ b ∈ before, job.1 ≤ b.1 ∧ ∀ c ∈ capacities, c < b.1 + job.1) ∧
      (before.map Prod.snd).sum + job.2 ≤ roomy job.1 capacities

theorem passes_of_served {before jobs : List (α × Nat)} {left : List α}
    (leaves : Leaves capacities before left) (nonneg : ∀ job ∈ jobs, 0 ≤ job.1)
    (served : ∀ early job late, jobs = early ++ job :: late →
      Served capacities (before ++ early) job) : Passes left jobs := by
  induction jobs generalizing before left with
  | nil => trivial
  | cons job jobs ih =>
    obtain ⟨first, later⟩ := List.forall_mem_cons.mp nonneg
    have enough : job.2 ≤ roomy job.1 left := by
      have here := served [] job jobs rfl
      rw [List.append_nil] at here
      rcases here with ample | ⟨single, total⟩
      · exact ample.trans (leaves.ample job.1)
      · have taken := leaves.single job.1 single
        omega
    refine ⟨firstFit_eq_zero_iff.mpr enough, ih (leaves.step first enough) later ?_⟩
    rintro early next late rfl
    rw [List.append_assoc]
    exact served (job :: early) next late rfl

omit [AddCommGroup α] [LinearOrder α] [IsOrderedAddMonoid α] in
theorem forall_getElem_iff {P : List (α × Nat) → α × Nat → Prop} {jobs : List (α × Nat)} :
    (∀ i (inside : i < jobs.length), P (jobs.take i) jobs[i]) ↔
      ∀ early job late, jobs = early ++ job :: late → P early job := by
  constructor
  · rintro each early job late rfl
    have here := each early.length (by simp)
    simpa using here
  · intro each i inside
    exact each _ _ (jobs.drop (i + 1)) (by rw [List.getElem_cons_drop, List.take_append_drop])

theorem passes_of_roomy {jobs : List (α × Nat)} (nonneg : ∀ job ∈ jobs, 0 ≤ job.1)
    (room : ∀ i (inside : i < jobs.length),
      jobs[i].2 ≤ roomy (((jobs.take i).map Prod.fst).sum + jobs[i].1) capacities) :
    Passes capacities jobs := by
  refine passes_of_served (leaves_nil capacities) nonneg fun early job late same => .inl ?_
  exact forall_getElem_iff
    (P := fun early job => job.2 ≤ roomy ((early.map Prod.fst).sum + job.1) capacities) |>.mp room
    early job late same

theorem passes_of_placeable {jobs : List (α × Nat)} (nonneg : ∀ job ∈ jobs, 0 ≤ job.1)
    (undisputed : ∀ i (inside : i < jobs.length), Undisputed capacities (jobs.take i) jobs[i])
    (placeable : Placeable capacities (jobs.map (fun e => List.replicate e.2 e.1))) :
    Passes capacities jobs := by
  refine passes_of_served (leaves_nil capacities) nonneg ?_
  rintro early job late rfl
  rcases forall_getElem_iff.mp undisputed early job late rfl with ample | single
  · exact .inl ample
  · exact .inr ⟨single, sum_le_roomy nonneg single placeable⟩

omit [AddCommGroup α] [IsOrderedAddMonoid α] in
theorem roomy_antitone (below : x ≤ g) : roomy g capacities ≤ roomy x capacities :=
  List.countP_mono_left fun _ _ room => decide_eq_true (below.trans (of_decide_eq_true room))

theorem roomy_remaining_le {job : List α} (nonneg : ∀ d ∈ job, 0 ≤ d) (nodes : List Nat) :
    roomy x (remaining capacities job nodes) ≤ roomy x capacities := by
  rw [roomy, roomy, countP_eq_length_filter_range, countP_eq_length_filter_range _ capacities,
    length_remaining]
  refine (List.monotone_filter_right _ fun n fits => ?_).length_le
  rw [remaining, List.getElem?_mapIdx] at fits
  cases here : capacities[n]? with
  | none =>
    rw [here] at fits
    cases fits
  | some c =>
    rw [here] at fits
    exact decide_eq_true
      ((of_decide_eq_true fits).trans (sub_le_self c (load_nonneg nonneg nodes n)))

theorem length_le_roomy {job : List α} {jobs : List (List α)}
    (nonneg : ∀ job ∈ jobs, ∀ d ∈ job, 0 ≤ d)
    (placeable : Placeable capacities jobs) (member : job ∈ jobs) (least : ∀ d ∈ job, x ≤ d) :
    job.length ≤ roomy x capacities := by
  induction jobs generalizing capacities with
  | nil => cases member
  | cons first jobs ih =>
    obtain ⟨here, later⟩ := List.forall_mem_cons.mp nonneg
    rcases List.mem_cons.mp member with rfl | inside
    · refine enough_of_placeable later
        (placeable.mono (.cons ?_ (List.forall₂_same.mpr fun job _ =>
        List.forall₂_same.mpr fun d _ => le_refl d)))
      rw [List.forall₂_iff_get]
      refine ⟨List.length_replicate, fun i _ inside => ?_⟩
      simpa using least _ (List.get_mem job ⟨i, inside⟩)
    · obtain ⟨nodes, -, rest⟩ := placeable_cons.mp placeable
      exact (ih later rest inside).trans (roomy_remaining_le here nodes)

end Disputes

end Verl.FirstFit
