/-
`error.rs`: what a store operation answers with.

Every operation of the store is modelled as `Db → Except BusError (α × Db)`.
The error side carries no database: an operation that fails rolls its
transaction back, and every statement it ran before that is undone with it.

The two guards below are the shapes the source repeats everywhere: *refuse
unless* (`if !ok { return Err(…) }`) and *the row, or an error*
(`let Some(row) = … else { return Err(…) }`). With them an operation is a
straight line, and the fact that it succeeded unfolds into the facts it
checked.
-/
import Mathlib.Init

set_option autoImplicit false

namespace CrewSync.Error

/-- `BusError`. The text is what the caller reads. -/
inductive BusError where
  | NotFound (msg : String)
  | Invalid (msg : String)
  | Conflict (msg : String)
  | Unauthenticated (msg : String)
  | Forbidden (msg : String)
  | Db (msg : String)
  deriving DecidableEq, Repr

/-- `Result<T, BusError>`. -/
abbrev BusResult (α : Type) := Except BusError α

/-- `if !c { return Err(e) }`. -/
def ensure (c : Prop) [Decidable c] (e : BusError) : BusResult Unit :=
  if c then .ok () else .error e

/-- `let Some(a) = o else { return Err(e) }`. -/
def fetch {α : Type} (o : Option α) (e : BusError) : BusResult α :=
  match o with
  | some a => .ok a
  | none => .error e

/-! ## What a success says -/

variable {e : BusError} {α : Type} {o : Option α} {β : Type} {x : BusResult α} {f : α → BusResult β} {l : List α}
  {e' : BusError}

@[simp] theorem ensure_eq_ok {c : Prop} [Decidable c] {u : Unit} : ensure c e = .ok u ↔ c := by
  unfold ensure
  split <;> simp_all

@[simp] theorem fetch_eq_ok {a : α} : fetch o e = .ok a ↔ o = some a := by
  cases o <;> simp [fetch]

/-- A computation in two parts succeeds when both parts do. -/
theorem bind_eq_ok {b : β} : (x >>= f) = .ok b ↔ ∃ a, x = .ok a ∧ f a = .ok b := by
  cases x with
  | error e | ok a => simp [bind, Except.bind]

@[simp] theorem pure_eq_ok {a b : α} : (pure a : BusResult α) = .ok b ↔ a = b := by
  simp [pure, Except.pure]

theorem map_eq_ok {f : α → β} {b : β} :
    x.map f = .ok b ↔ ∃ a, x = .ok a ∧ f a = b := by
  cases x <;> simp [Except.map]

theorem isOk_iff_exists : x.isOk = true ↔ ∃ a, x = .ok a := by
  cases x <;> simp [Except.isOk, Except.toBool]

theorem isOk_iff {x : BusResult Unit} : x.isOk = true ↔ x = .ok () := by
  cases x <;> simp [Except.isOk, Except.toBool]

/-- A computation over a list answers with one result for each element. -/
theorem mem_of_mapM_ok :
    ∀ {r : List β}, l.mapM f = .ok r → ∀ y ∈ r, ∃ x ∈ l, f x = .ok y := by
  induction l with
  | nil =>
    intro r h y hy
    simp only [List.mapM_nil, pure_eq_ok] at h
    rw [← h] at hy
    exact absurd hy List.not_mem_nil
  | cons a l ih =>
    intro r h y hy
    simp only [List.mapM_cons, bind_eq_ok, pure_eq_ok] at h
    obtain ⟨b, hb, rest, hrest, rfl⟩ := h
    rcases List.mem_cons.mp hy with rfl | hy
    · exact ⟨a, List.mem_cons_self, hb⟩
    · obtain ⟨x, hx, hfx⟩ := ih hrest y hy
      exact ⟨x, List.mem_cons_of_mem _ hx, hfx⟩

/-- And every element has its result in the answer. -/
theorem mapM_ok_of_mem :
    ∀ {r : List β}, l.mapM f = .ok r → ∀ x ∈ l, ∃ y ∈ r, f x = .ok y := by
  induction l with
  | nil => exact fun _ x hx => absurd hx List.not_mem_nil
  | cons a l ih =>
    intro r h x hx
    simp only [List.mapM_cons, bind_eq_ok, pure_eq_ok] at h
    obtain ⟨b, hb, rest, hrest, rfl⟩ := h
    rcases List.mem_cons.mp hx with rfl | hx
    · exact ⟨b, List.mem_cons_self, hb⟩
    · obtain ⟨y, hy, hfx⟩ := ih hrest x hx
      exact ⟨y, List.mem_cons_of_mem _ hy, hfx⟩

/-- The answer is as long as the list. -/
theorem length_of_mapM_ok :
    ∀ {r : List β}, l.mapM f = .ok r → r.length = l.length := by
  induction l with
  | nil =>
    intro r h
    simp only [List.mapM_nil, pure_eq_ok] at h
    rw [← h]
    rfl
  | cons a l ih =>
    intro r h
    simp only [List.mapM_cons, bind_eq_ok, pure_eq_ok] at h
    obtain ⟨b, -, rest, hrest, rfl⟩ := h
    rw [List.length_cons, List.length_cons, ih hrest]

/-! ## What a refusal says -/

@[simp] theorem ensure_eq_error {c : Prop} [Decidable c] :
    ensure c e = .error e' ↔ ¬c ∧ e = e' := by
  unfold ensure
  split <;> simp_all

@[simp] theorem fetch_eq_error :
    fetch o e = .error e' ↔ o = none ∧ e = e' := by
  cases o <;> simp [fetch]

/-- A computation in two parts is refused by the first, or, the first done, by the second. -/
theorem bind_eq_error : (x >>= f) = .error e ↔ x = .error e ∨ ∃ a, x = .ok a ∧ f a = .error e := by
  cases x with
  | error e' | ok a => simp [bind, Except.bind]

end CrewSync.Error
