import Mathlib.Data.List.TakeWhile
import Verl.Base.Dict

/-! Computations that change an object and may raise. The changes before an exception stay, so it
can be asked what a failed call leaves behind. -/
namespace Verl

def Effect (σ α : Type) := σ → Py α × σ

namespace Effect

variable {σ α β γ W : Type}

instance : Monad (Effect σ) where
  pure a := fun s => (.ok a, s)
  bind x f := fun s => match x s with
    | (.ok a, s') => f a s'
    | (.error e, s') => (.error e, s')

def raise (e : PyError) : Effect σ α := fun s => (.error e, s)

/-- A computation that does not touch the object. -/
def attempt (x : Py α) : Effect σ α := fun s => (x, s)

theorem pure_apply (a : α) (s : σ) : (pure a : Effect σ α) s = (.ok a, s) := rfl

theorem bind_ok {x : Effect σ α} {f : α → Effect σ β} {s s' : σ} {a : α} (run : x s = (.ok a, s')) :
    (x >>= f) s = f a s' := by
  change (match x s with | (.ok a, s') => f a s' | (.error e, s') => (.error e, s')) = f a s'
  rw [run]

theorem bind_error {x : Effect σ α} {f : α → Effect σ β} {s s' : σ} {e : PyError}
    (run : x s = (.error e, s')) : (x >>= f) s = (.error e, s') := by
  change (match x s with | (.ok a, s') => f a s' | (.error e, s') => (.error e, s')) =
    (.error e, s')
  rw [run]

theorem bind_pure_id (x : Effect σ α) : (x >>= fun a => pure (id a)) = x := by
  funext s
  cases run : x s with
  | mk result s' =>
    cases result with
    | ok a => exact bind_ok run
    | error e => exact bind_error run

theorem bind_assoc (x : Effect σ α) (f : α → Effect σ β) (g : β → Effect σ γ) :
    (x >>= f) >>= g = x >>= fun a => f a >>= g := by
  funext s
  cases run : x s with
  | mk result s' =>
    cases result with
    | ok a =>
      rw [bind_ok run]
      cases next : f a s' with
      | mk result s'' =>
        cases result with
        | ok b => rw [bind_ok next, bind_ok ((bind_ok run).trans next)]
        | error e => rw [bind_error next, bind_error ((bind_ok run).trans next)]
    | error e => rw [bind_error run, bind_error (bind_error run)]

instance : LawfulMonad (Effect σ) := .mk' (Effect σ) bind_pure_id (fun _ _ => rfl) bind_assoc

theorem bind_eq_ok_iff {x : Effect σ α} {f : α → Effect σ β} {s s'' : σ} {b : β} :
    (x >>= f) s = (.ok b, s'') ↔ ∃ a s', x s = (.ok a, s') ∧ f a s' = (.ok b, s'') := by
  constructor
  · intro run
    cases ran : x s with
    | mk result s' =>
      cases result with
      | ok a => exact ⟨a, s', rfl, (bind_ok ran).symm.trans run⟩
      | error e => cases (bind_error ran).symm.trans run
  · rintro ⟨a, s', ran, rest⟩
    exact (bind_ok ran).trans rest

theorem forM_eq_ok_iff {ρ : Type} {f : W → Effect σ Unit} {step : ρ → W → Py ρ} {put : ρ → σ}
    (each : ∀ r w s', f w (put r) = (.ok (), s') ↔ ∃ r', step r w = .ok r' ∧ s' = put r')
    (ws : List W) (r : ρ) (s' : σ) :
    ws.forM f (put r) = (.ok (), s') ↔ ∃ r', ws.foldlM step r = .ok r' ∧ s' = put r' := by
  induction ws generalizing r with
  | nil =>
    constructor
    · rintro ⟨⟩
      exact ⟨r, rfl, rfl⟩
    · rintro ⟨r', same, rfl⟩
      cases same
      rfl
  | cons w ws ih =>
    have unfolded : (w :: ws).forM f (put r) = (.ok (), s') ↔
      ∃ u s'', f w (put r) = (.ok u, s'') ∧ ws.forM f s'' = (.ok (), s') := bind_eq_ok_iff
    rw [unfolded, List.foldlM_cons]
    constructor
    · rintro ⟨⟨⟩, s'', first, rest⟩
      obtain ⟨r', one, rfl⟩ := (each r w s'').mp first
      obtain ⟨r'', later, same⟩ := (ih r').mp rest
      exact ⟨r'', by rw [one, ok_bind, later], same⟩
    · rintro ⟨r'', run, same⟩
      obtain ⟨r', one, later⟩ := bind_ok_iff.mp run
      exact ⟨(), put r', (each r w _).mpr ⟨r', one, rfl⟩, (ih r').mpr ⟨r'', later, same⟩⟩

/-- A call that raises leaves the object as it was. -/
def Atomic (x : Effect σ α) (s : σ) : Prop := ∀ e s', x s = (.error e, s') → s' = s

section Writes

variable (check : σ → W → Py Unit) (write : σ → W → σ)

def store (w : W) : Effect σ Unit := fun s =>
  match check s w with
  | .error e => (.error e, s)
  | .ok _ => (.ok (), write s w)

def Passes (s : σ) (w : W) : Bool := (check s w).isOk

/-- The laws of updates whose entries are separate: each sees and leaves its own place. -/
structure Separate (present : σ → W → Prop) (apart : W → W → Prop) : Prop where
  check_write : ∀ {s v w}, apart v w → Passes check s v = true →
    Passes check (write s v) w = Passes check s w
  present_write : ∀ {s v w}, apart v w → Passes check s v = true → present s w →
    present (write s v) w
  written : ∀ {s w}, Passes check s w = true → present (write s w) w
  write_present : ∀ {s w}, present s w → write s w = s

variable {check write} {present : σ → W → Prop} {apart : W → W → Prop}

theorem takeWhile_eq_of_forall {p q : W → Bool} {ws : List W} (same : ∀ w ∈ ws, p w = q w) :
    ws.takeWhile p = ws.takeWhile q := by
  induction ws with
  | nil => rfl
  | cons w ws ih =>
    rw [List.takeWhile_cons, List.takeWhile_cons, same w List.mem_cons_self,
    ih (fun v member => same v (List.mem_cons_of_mem w member))]

theorem store_pass {s : σ} {w : W} (pass : Passes check s w = true) :
    store check write w s = (.ok (), write s w) := by
  unfold Passes at pass
  unfold store
  cases checked : check s w with
  | error e =>
    rw [checked] at pass
    cases pass
  | ok u => rfl

theorem store_fail {s : σ} {w : W} (fail : Passes check s w = false) :
    ∃ e, store check write w s = (.error e, s) := by
  unfold Passes at fail
  unfold store
  cases checked : check s w with
  | error e => exact ⟨e, rfl⟩
  | ok u =>
    rw [checked] at fail
    cases fail

/-- An update runs to its first entry that does not pass at the start. -/
theorem forM_store (laws : Separate check write present apart) {ws : List W}
    (separate : ws.Pairwise apart) (s : σ) :
    (ws.all (Passes check s) = true ∧ ws.forM (store check write) s = (.ok (), ws.foldl write s)) ∨
    (ws.all (Passes check s) = false ∧ ∃ e,
      ws.forM (store check write) s =
      (.error e, (ws.takeWhile (Passes check s)).foldl write s)) := by
  induction ws generalizing s with
  | nil => exact .inl ⟨rfl, rfl⟩
  | cons w ws ih =>
    obtain ⟨first, rest⟩ := List.pairwise_cons.mp separate
    by_cases pass : Passes check s w = true
    · have later : ∀ v ∈ ws, Passes check (write s w) v = Passes check s v :=
        fun v member => laws.check_write (first v member) pass
      have same : ws.all (Passes check (write s w)) = ws.all (Passes check s) := by
        rw [Bool.eq_iff_iff, List.all_eq_true, List.all_eq_true]
        exact forall₂_congr (fun v member => by rw [later v member])
      have cut : ws.takeWhile (Passes check (write s w)) = ws.takeWhile (Passes check s) :=
        takeWhile_eq_of_forall later
      have run : (w :: ws).forM (store check write) s = ws.forM (store check write) (write s w) :=
        bind_ok (store_pass pass)
      rw [run, List.all_cons, pass, Bool.true_and, List.takeWhile_cons_of_pos pass, List.foldl_cons,
        List.foldl_cons, ← same, ← cut]
      exact ih rest (write s w)
    · rw [Bool.not_eq_true] at pass
      have stopped : ∃ e, store check write w s = (.error e, s) := store_fail pass
      obtain ⟨e, failed⟩ := stopped
      right
      refine ⟨by simp [pass], e, ?_⟩
      rw [List.takeWhile_cons_of_neg (by simp [pass])]
      exact bind_error failed

theorem present_foldl (laws : Separate check write present apart) {ws : List W}
    (separate : ws.Pairwise apart) {s : σ} (pass : ∀ w ∈ ws, Passes check s w = true) {v : W}
    (others : ∀ w ∈ ws, apart w v) (here : present s v) :
    present (ws.foldl write s) v := by
  induction ws generalizing s with
  | nil => exact here
  | cons w ws ih =>
    obtain ⟨first, rest⟩ := List.pairwise_cons.mp separate
    have passed := pass w List.mem_cons_self
    rw [List.foldl_cons]
    apply ih rest
    · intro u member
      rw [laws.check_write (first u member) passed]
      exact pass u (List.mem_cons_of_mem w member)
    · exact fun u member => others u (List.mem_cons_of_mem w member)
    · exact laws.present_write (others w List.mem_cons_self) passed here

theorem foldl_write_eq_iff (laws : Separate check write present apart)
    (symm : ∀ {v w}, apart v w → apart w v) {ws : List W}
    (separate : ws.Pairwise apart) {s : σ} (pass : ∀ w ∈ ws, Passes check s w = true) :
    ws.foldl write s = s ↔ ∀ w ∈ ws, present s w := by
  constructor
  · intro same
    have all : ∀ w ∈ ws, present (ws.foldl write s) w := by
      clear same
      induction ws generalizing s with
      | nil => simp
      | cons v ws ih =>
        obtain ⟨first, rest⟩ := List.pairwise_cons.mp separate
        have passed := pass v List.mem_cons_self
        have later : ∀ u ∈ ws, Passes check (write s v) u = true := by
          intro u member
          rw [laws.check_write (first u member) passed]
          exact pass u (List.mem_cons_of_mem v member)
        intro w member
        rw [List.foldl_cons]
        rcases List.mem_cons.mp member with rfl | inside
        · exact present_foldl laws rest later (fun u there => symm (first u there))
            (laws.written passed)
        · exact ih rest later w inside
    rw [same] at all
    exact all
  · intro there
    clear pass separate
    induction ws with
    | nil => rfl
    | cons w ws ih =>
      rw [List.foldl_cons, laws.write_present (there w List.mem_cons_self)]
      exact ih (fun v member => there v (List.mem_cons_of_mem w member))

/-- A failed update leaves no trace exactly when the entries before the failing one were there. -/
theorem atomic_forM_store_iff (laws : Separate check write present apart)
    (symm : ∀ {v w}, apart v w → apart w v) {ws : List W}
    (separate : ws.Pairwise apart) (s : σ) : Atomic (ws.forM (store check write)) s ↔
      ws.all (Passes check s) = true ∨ ∀ w ∈ ws.takeWhile (Passes check s), present s w := by
  have unchanged := foldl_write_eq_iff laws symm
    (separate.sublist (List.takeWhile_sublist (Passes check s)))
    (fun w member => List.mem_takeWhile_imp member)
  rcases forM_store laws separate s with ⟨all, run⟩ | ⟨some, e, run⟩
  · simp only [all, true_or, iff_true]
    intro e s' failed
    rw [run] at failed
    cases failed
  · rw [some, ← unchanged]
    simp only [Bool.false_eq_true, false_or]
    constructor
    · intro atomic
      exact atomic e _ run
    · intro same e' s' failed
      rw [run] at failed
      cases failed
      exact same

end Writes

section Pops

variable (dict : σ → Dict β) (del : String → σ → σ) (missing : σ → String → PyError)

def popOne (key : String) : Effect σ β := fun s =>
  match (dict s).get? key with
  | none => (.error (missing s key), s)
  | some value => (.ok value, del key s)

def popInto (out : Dict β) (keys : List String) : Effect σ (Dict β) :=
  keys.foldlM (fun out key => do
    let value ← popOne dict del missing key
    return out.set key value) out

def popAll (keys : List String) : Effect σ (Dict β) := popInto dict del missing .empty keys

variable {dict del missing}

theorem popInto_cons_none {out : Dict β} {key : String} {keys : List String} {s : σ}
    (absent : (dict s).get? key = none) :
    popInto dict del missing out (key :: keys) s = (.error (missing s key), s) := by
  have one : popOne dict del missing key s = (.error (missing s key), s) := by rw [popOne, absent]
  exact bind_error (bind_error one)

theorem popInto_cons_some {out : Dict β} {key : String} {keys : List String} {s : σ} {value : β}
    (found : (dict s).get? key = some value) :
    popInto dict del missing out (key :: keys) s =
      popInto dict del missing (out.set key value) keys (del key s) := by
  have one : popOne dict del missing key s = (.ok value, del key s) := by rw [popOne, found]
  exact bind_ok ((bind_ok one).trans (pure_apply _ _))

variable (law : ∀ key s, dict (del key s) = (dict s).erase key)
include law

theorem get?_foldl_del (keys : List String) (s : σ) (key : String) :
    (dict (keys.foldl (fun s key => del key s) s)).get? key = if key ∈ keys then none
      else (dict s).get? key := by
  induction keys generalizing s with
  | nil => simp
  | cons k keys ih =>
    rw [List.foldl_cons, ih, law]
    by_cases here : key = k
    · subst here
      simp [Dict.get?_erase_self]
    · simp [here, Dict.get?_erase here]

theorem popInto_ok {keys : List String} (distinct : keys.Nodup) (out : Dict β) {s : σ}
    (there : ∀ key ∈ keys, key ∈ (dict s).keys) :
    ∃ out', popInto dict del missing out keys s =
      (.ok out', keys.foldl (fun s key => del key s) s) ∧
      ∀ key, out'.get? key = if key ∈ keys then (dict s).get? key else out.get? key := by
  induction keys generalizing out s with
  | nil => exact ⟨out, rfl, by simp⟩
  | cons k keys ih =>
    obtain ⟨fresh, rest⟩ := List.nodup_cons.mp distinct
    obtain ⟨value, found⟩ :=
      Option.isSome_iff_exists.mp (Dict.contains_iff.mpr (there k List.mem_cons_self))
    have later : ∀ key ∈ keys, key ∈ (dict (del k s)).keys := by
      intro key member
      have different : key ≠ k := fun same => fresh (same ▸ member)
      rw [← Dict.contains_iff, Dict.contains, law, Dict.get?_erase different]
      exact Dict.contains_iff.mpr (there key (List.mem_cons_of_mem k member))
    obtain ⟨out', run, values⟩ := ih rest (out.set k value) later
    refine ⟨out', (popInto_cons_some found).trans run, ?_⟩
    intro key
    rw [values, law, Dict.get?_set]
    by_cases here : key = k
    · subst here
      simp [fresh, found]
    · simp [here, Dict.get?_erase here]

/-- A key is missing, or asked for twice: the keys before it are gone. -/
theorem popInto_error {keys : List String} (out : Dict β) {s : σ}
    (bad : ¬(keys.Nodup ∧ ∀ key ∈ keys, key ∈ (dict s).keys)) :
    ∃ e popped, popInto dict del missing out keys s =
      (.error e, popped.foldl (fun s key => del key s) s) ∧
      (∀ key ∈ popped, key ∈ (dict s).keys) ∧
        (popped = [] ↔ ∃ key, keys.head? = some key ∧ key ∉ (dict s).keys) := by
  induction keys generalizing out s with
  | nil => exact absurd ⟨List.nodup_nil, by simp⟩ bad
  | cons k keys ih =>
    cases found : (dict s).get? k with
    | none =>
      refine ⟨missing s k, [], popInto_cons_none found, by simp, ?_⟩
      simpa using Dict.get?_eq_none_iff.mp found
    | some value =>
      have here : k ∈ (dict s).keys := Dict.contains_iff.mp (by simp [Dict.contains, found])
      have still : ∀ {key : String}, key ∈ (dict (del k s)).keys ↔
          key ∈ (dict s).keys ∧ key ≠ k := by
        intro key
        rw [← Dict.contains_iff, ← Dict.contains_iff, Dict.contains, Dict.contains, law]
        by_cases same : key = k
        · subst same
          simp [Dict.get?_erase_self]
        · simp [same, Dict.get?_erase same]
      have worse : ¬(keys.Nodup ∧ ∀ key ∈ keys, key ∈ (dict (del k s)).keys) := by
        rintro ⟨rest, there⟩
        apply bad
        have fresh : k ∉ keys := fun member => (still.mp (there k member)).2 rfl
        refine ⟨List.nodup_cons.mpr ⟨fresh, rest⟩, ?_⟩
        intro key member
        rcases List.mem_cons.mp member with rfl | later
        · exact here
        · exact (still.mp (there key later)).1
      obtain ⟨e, popped, run, known, -⟩ := ih (out.set k value) worse
      refine ⟨e, k :: popped, (popInto_cons_some found).trans run, ?_, ?_⟩
      · intro key member
        rcases List.mem_cons.mp member with rfl | later
        · exact here
        · exact (still.mp (known key later)).1
      · simp [here]

end Pops

end Effect

end Verl
