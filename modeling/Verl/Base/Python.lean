import Mathlib.Data.List.Basic
import Mathlib.Data.List.Forall2
import Mathlib.Data.Nat.Basic

/-! The exceptions that modelled Python code raises, and the few built-in
operations whose failure is observable. A run that raises is an `Except.error`;
no default value stands in for a failed index or assertion. -/
namespace Verl

inductive PyError where
  | assertion (message : String)
  | index
  | key (name : String)
  | fileNotFound
  | attribute (name : String)
  | zeroDivision
  | overflow
  | unboundLocal (name : String)
  | value (message : String)
  | type (message : String)
  | runtime (message : String)
  | notImplemented
  deriving DecidableEq, Repr

abbrev Py := Except PyError

def pyAssert (condition : Bool) (message : String) : Py Unit :=
  if condition then .ok () else .error (.assertion message)

@[simp] theorem pyAssert_true (message : String) : pyAssert true message = .ok () := rfl

theorem pyAssert_ok_iff {condition : Bool} {message : String} {u : Unit} :
    pyAssert condition message = .ok u ↔ condition = true := by
  cases condition <;> simp [pyAssert]

def pyGet {α : Type u} (xs : List α) (i : Nat) : Py α :=
  match xs[i]? with
  | some x => .ok x
  | none => .error .index

@[simp] theorem pyGet_of_lt {α : Type u} {xs : List α} {i : Nat} (inside : i < xs.length) :
    pyGet xs i = .ok xs[i] := by
  simp [pyGet, List.getElem?_eq_getElem inside]

theorem pyGet_map_range {α : Type u} {n i : Nat} (f : Nat → α) (inside : i < n) :
    pyGet ((List.range n).map f) i = .ok (f i) := by
  rw [pyGet_of_lt (by simpa using inside)]
  simp

theorem pyGet_ok_iff {α : Type u} {xs : List α} {i : Nat} {x : α} :
    pyGet xs i = .ok x ↔ xs[i]? = some x := by
  unfold pyGet
  split
  · rename_i y hy
    simp [hy]
  · rename_i hn
    simp [hn]

def pySet {α : Type u} (xs : List α) (i : Nat) (x : α) : Py (List α) :=
  if i < xs.length then .ok (xs.set i x) else .error .index

@[simp] theorem pySet_of_lt {α : Type u} {xs : List α} {i : Nat} (inside : i < xs.length) (x : α) :
    pySet xs i x = .ok (xs.set i x) := if_pos inside

theorem pySet_map_range {α : Type u} {n k : Nat} (f : Nat → α) (inside : k < n) (x : α) :
    pySet ((List.range n).map f) k x =
      .ok ((List.range n).map (fun i => if i = k then x else f i)) := by
  rw [pySet_of_lt (by simpa using inside)]
  congr 1
  apply List.ext_getElem
  · simp
  · intro i _ _
    simp [List.getElem_set, eq_comm]

def pySetItem {α : Type u} (xs : List α) (i : Int) (x : α) : Py (List α) :=
  if 0 ≤ i then pySet xs i.toNat x
  else if i.natAbs ≤ xs.length then pySet xs (xs.length - i.natAbs) x
  else .error .index

def pyFloorDiv (a b : Nat) : Py Nat := if b = 0 then .error .zeroDivision else .ok (a / b)

def pyMod (a b : Nat) : Py Nat := if b = 0 then .error .zeroDivision else .ok (a % b)

@[simp] theorem pyFloorDiv_pos {a b : Nat} (positive : 0 < b) : pyFloorDiv a b = .ok (a / b) :=
  if_neg (Nat.pos_iff_ne_zero.mp positive)

@[simp] theorem pyMod_pos {a b : Nat} (positive : 0 < b) : pyMod a b = .ok (a % b) :=
  if_neg (Nat.pos_iff_ne_zero.mp positive)

theorem bind_ok_iff {α : Type u} {β : Type u} {x : Py α} {f : α → Py β} {b : β} :
    (x >>= f) = .ok b ↔ ∃ a, x = .ok a ∧ f a = .ok b := by
  cases x with
  | error e => simp [bind, Except.bind]
  | ok a => simp [bind, Except.bind]

@[simp] theorem ok_bind {α : Type u} {β : Type u} (a : α) (f : α → Py β) :
    ((Except.ok a : Py α) >>= f) = f a := rfl

@[simp] theorem error_bind {α : Type u} {β : Type u} (e : PyError) (f : α → Py β) :
    ((Except.error e : Py α) >>= f) = .error e := rfl

@[simp] theorem pure_eq_ok {α : Type u} (a : α) : (pure a : Py α) = .ok a := rfl

theorem map_bind_eq {α α' β β' : Type u} {x : Py α} {f : α → α'} {g : α' → Py β'}
    {k : α → Py β} {h : β → β'}
    (each : ∀ a, x = .ok a → g (f a) = (k a).map h) : (x.map f >>= g) = (x >>= k).map h := by
  cases x with
  | error e => rfl
  | ok a => exact each a rfl

theorem mapM_ok {α : Type u} {β : Type u} (f : α → Py β) (g : α → β) (xs : List α)
    (each : ∀ x ∈ xs, f x = .ok (g x)) : xs.mapM f = .ok (xs.map g) := by
  induction xs with
  | nil => rfl
  | cons x xs ih =>
    rw [List.mapM_cons, each x (by simp), ih (fun y hy => each y (by simp [hy]))]
    rfl

theorem mapM_bind_ok {α β γ : Type u} {f : α → Py β} {g : α → β → Py γ} {h : α → β → γ}
    {xs : List α} (each : ∀ x ∈ xs, ∀ y, g x y = .ok (h x y)) :
    xs.mapM (fun x => f x >>= g x) = (xs.mapM f).map (List.zipWith h xs) := by
  induction xs with
  | nil => rfl
  | cons x xs ih =>
    rw [List.mapM_cons, List.mapM_cons, ih (fun y later => each y (List.mem_cons_of_mem x later))]
    cases f x with
    | error e => rfl
    | ok y =>
      rw [ok_bind, each x List.mem_cons_self y, ok_bind, ok_bind]
      cases xs.mapM f <;> rfl

theorem mapM_map_ok {ι α β : Type u} {f : α → Py β} {g : ι → α} {h : ι → β} (is : List ι)
    (each : ∀ i ∈ is, f (g i) = .ok (h i)) : (is.map g).mapM f = .ok (is.map h) := by
  induction is with
  | nil => rfl
  | cons i is ih =>
    rw [List.map_cons, List.mapM_cons, each i (by simp), ih (fun j hj => each j (by simp [hj]))]
    rfl

theorem exists_right_of_forall₂ {α : Type u} {β : Type v} {R : α → β → Prop} {xs : List α}
    {ys : List β} (related : List.Forall₂ R xs ys) {x : α} (member : x ∈ xs) : ∃ y ∈ ys, R x y := by
  induction related with
  | nil => cases member
  | @cons head other _ _ first _ ih =>
    cases member with
    | head => exact ⟨other, List.mem_cons_self, first⟩
    | tail _ inside =>
      obtain ⟨y, hy, there⟩ := ih inside
      exact ⟨y, List.mem_cons_of_mem _ hy, there⟩

theorem exists_left_of_forall₂ {α : Type u} {β : Type v} {R : α → β → Prop} {xs : List α}
    {ys : List β} (related : List.Forall₂ R xs ys) {y : β} (member : y ∈ ys) : ∃ x ∈ xs, R x y :=
  exists_right_of_forall₂ related.flip member

theorem mapM_ok_iff {α : Type u} {β : Type u} {f : α → Py β} {xs : List α} {ys : List β} :
    xs.mapM f = .ok ys ↔ List.Forall₂ (fun x y => f x = .ok y) xs ys := by
  induction xs generalizing ys with
  | nil =>
    cases ys with
    | nil => simp
    | cons y ys => simp
  | cons x xs ih =>
    simp only [List.mapM_cons, bind_ok_iff, pure_eq_ok, Except.ok.injEq,
      List.forall₂_cons_left_iff, ih]
    constructor
    · rintro ⟨y, head, rest, tail, rfl⟩
      exact ⟨y, rest, head, tail, rfl⟩
    · rintro ⟨y, rest, head, tail, rfl⟩
      exact ⟨y, head, rest, tail, rfl⟩

theorem mapM_zip_ok {α β γ : Type u} {f : α × β → Py γ} {g : α → γ} {xs : List α} {ys : List β}
    (same : ys.length = xs.length)
    (each : ∀ (i : Nat) x y, xs[i]? = some x → ys[i]? = some y → f (x, y) = .ok (g x)) :
    (xs.zip ys).mapM f = .ok (xs.map g) := by
  rw [mapM_ok_iff, List.forall₂_iff_get]
  refine ⟨by simp [same], fun i inside there => ?_⟩
  rw [List.length_map] at there
  simp only [List.get_eq_getElem, List.getElem_zip, List.getElem_map]
  exact each i _ _ (List.getElem?_eq_getElem there) (List.getElem?_eq_getElem (same ▸ there))

theorem length_mapM_ok {α : Type u} {β : Type u} {f : α → Py β} {xs : List α} {ys : List β}
    (returned : xs.mapM f = .ok ys) : ys.length = xs.length :=
  (mapM_ok_iff.mp returned).length_eq.symm

theorem exists_of_mapM_ok {α : Type u} {β : Type u} {f : α → Py β} {xs : List α} {ys : List β}
    (returned : xs.mapM f = .ok ys) {x : α} (member : x ∈ xs) : ∃ y, f x = .ok y := by
  obtain ⟨y, -, value⟩ := exists_right_of_forall₂ (mapM_ok_iff.mp returned) member
  exact ⟨y, value⟩

theorem mapM_ok_and_forall₂_iff {α β : Type u} {f : α → Py β} {R : α → β → Prop} {xs : List α} :
    (∃ ys, xs.mapM f = .ok ys ∧ List.Forall₂ R xs ys) ↔ ∀ x ∈ xs, ∃ y, f x = .ok y ∧ R x y := by
  simp only [mapM_ok_iff]
  induction xs with
  | nil => simp
  | cons x xs ih =>
    simp only [List.forall_mem_cons, ← ih]
    constructor
    · rintro ⟨_, returned, related⟩
      cases returned with
      | cons value rest =>
        cases related with
        | cons first others => exact ⟨⟨_, value, first⟩, _, rest, others⟩
    · rintro ⟨⟨y, value, first⟩, ys, rest, others⟩
      exact ⟨y :: ys, .cons value rest, .cons first others⟩

theorem foldlM_invariant {α β : Type u} (inv : β → Prop) {f : β → α → Py β} {xs : List α}
    (step : ∀ b x b', x ∈ xs → inv b → f b x = .ok b' → inv b') {start out : β} (begins : inv start)
    (run : xs.foldlM f start = .ok out) : inv out := by
  induction xs generalizing start with
  | nil =>
    cases run
    exact begins
  | cons x xs ih =>
    rw [List.foldlM_cons] at run
    obtain ⟨next, first, rest⟩ := bind_ok_iff.mp run
    apply ih _ (step start x next List.mem_cons_self begins first) rest
    exact fun b y b' member => step b y b' (List.mem_cons_of_mem _ member)

theorem foldlM_down {β : Type} {f : β → Nat → Py β} {n : Nat} (state : Nat → β)
    (step : ∀ t < n, f (state (t + 1)) t = .ok (state t)) :
    (List.range n).reverse.foldlM f (state n) = .ok (state 0) := by
  induction n with
  | zero => rfl
  | succ n ih =>
    rw [List.range_succ, List.reverse_append, List.reverse_singleton, List.singleton_append,
      List.foldlM_cons, step n (Nat.lt_succ_self n), ok_bind]
    exact ih (fun t below => step t (Nat.lt_succ_of_lt below))

theorem foldlM_up {β : Type} {f : β → Nat → Py β} {n : Nat} (state : Nat → β)
    (step : ∀ k < n, f (state k) k = .ok (state (k + 1))) :
    (List.range n).foldlM f (state 0) = .ok (state n) := by
  induction n with
  | zero => rfl
  | succ n ih =>
    rw [List.range_succ, List.foldlM_append, ih (fun k below => step k (Nat.lt_succ_of_lt below)),
      ok_bind, List.foldlM_cons, step n (Nat.lt_succ_self n)]
    rfl

theorem mapM_congr {α : Type u} {β : Type u} {f g : α → Py β} {xs : List α}
    (each : ∀ x ∈ xs, f x = g x) :
    xs.mapM f = xs.mapM g := by
  induction xs with
  | nil => rfl
  | cons x xs ih =>
    rw [List.mapM_cons, List.mapM_cons, each x (by simp), ih (fun y hy => each y (by simp [hy]))]

theorem forM_ok {α : Type u} (f : α → Py PUnit) (xs : List α) (each : ∀ x ∈ xs, f x = .ok ⟨⟩) :
    xs.forM f = .ok ⟨⟩ := by
  induction xs with
  | nil => rfl
  | cons x xs ih =>
    have tail := ih (fun y hy => each y (by simp [hy]))
    simpa [List.forM, each x (by simp)] using tail

theorem of_forM_ok {α : Type u} {f : α → Py PUnit} {xs : List α} {u : PUnit}
    (run : xs.forM f = .ok u) :
    ∀ x ∈ xs, f x = .ok ⟨⟩ := by
  induction xs with
  | nil => exact fun x member => absurd member List.not_mem_nil
  | cons x xs ih =>
    obtain ⟨done, first, rest⟩ := bind_ok_iff.mp run
    intro y member
    cases member with
    | head => exact first
    | tail _ inside => exact ih rest y inside

theorem mapM_forall₂ {α : Type u} {β : Type u} (f : α → Py β) (P : α → β → Prop) (xs : List α)
    (each : ∀ x ∈ xs, ∃ y, f x = .ok y ∧ P x y) :
    ∃ ys, xs.mapM f = .ok ys ∧ List.Forall₂ P xs ys := by
  induction xs with
  | nil => exact ⟨[], rfl, .nil⟩
  | cons x xs ih =>
    obtain ⟨y, hy, py⟩ := each x (by simp)
    obtain ⟨ys, hys, pys⟩ := ih (fun z hz => each z (by simp [hz]))
    refine ⟨y :: ys, ?_, .cons py pys⟩
    rw [List.mapM_cons, hy, hys]
    rfl

theorem exists_source {α : Type u} {β : Type u} {f : α → Py β} {xs : List α} {ys : List β}
    (run : xs.mapM f = .ok ys) {y : β} (member : y ∈ ys) : ∃ x ∈ xs, f x = .ok y :=
  exists_left_of_forall₂ (mapM_ok_iff.mp run) member

theorem forall_mapM_iff {α : Type u} {β : Type u} {f : α → Py β} {xs : List α} {ys : List β}
    (run : xs.mapM f = .ok ys)
    {P : β → Prop} {Q : α → Prop} (each : ∀ x ∈ xs, ∀ y, f x = .ok y → (P y ↔ Q x)) :
    (∀ y ∈ ys, P y) ↔ ∀ x ∈ xs, Q x := by
  have related := mapM_ok_iff.mp run
  clear run
  induction related with
  | nil => simp
  | cons first _ ih =>
    rw [List.forall_mem_cons] at each
    rw [List.forall_mem_cons, List.forall_mem_cons]
    exact and_congr (each.1 _ first) (ih each.2)

end Verl
