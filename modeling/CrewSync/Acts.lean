/-
Steps over a state that may fail.

A step that fails has still done what it did before it failed, so the state comes back in both
cases. A composition is run from what its first part does, by `bind_of_ok` and `bind_of_error`.
-/
import Mathlib.Init

set_option autoImplicit false

namespace CrewSync.Acts

/-- A step over a state of type `σ`: a value or a failure, and the state after. -/
def Act (σ ε α : Type) : Type := σ → Except ε α × σ

section Steps

variable {σ ε ε' α β : Type}

/-- The first part, and the second where the first did not fail. -/
def Act.bind (x : Act σ ε α) (f : α → Act σ ε β) : Act σ ε β := fun s =>
  match x s with
  | (.ok a, s') => f a s'
  | (.error e, s') => (.error e, s')

instance : Monad (Act σ ε) where
  pure a := fun s => (.ok a, s)
  bind := Act.bind

/-- A failure, and nothing done. -/
def fail (e : ε) : Act σ ε α := fun s => (.error e, s)

/-- The state. -/
def state : Act σ ε σ := fun s => (.ok s, s)

/-- A change of the state. -/
def update (f : σ → σ) : Act σ ε Unit := fun s => (.ok (), f s)

/-- What is computed without the state. -/
def of_except (x : Except ε α) : Act σ ε α := fun s => (x, s)

/-- The failures under other words. -/
def map_error (g : ε → ε') (x : Act σ ε α) : Act σ ε' α := fun s =>
  match x s with
  | (.ok a, s') => (.ok a, s')
  | (.error e, s') => (.error (g e), s')

variable {x : Act σ ε α} {f : α → Act σ ε β} {a : α} {e : ε} {s s' : σ}

@[simp] theorem state_run : (state : Act σ ε σ) s = (.ok s, s) := rfl

@[simp] theorem update_run (g : σ → σ) : (update g : Act σ ε Unit) s = (.ok (), g s) := rfl

@[simp] theorem of_except_run (v : Except ε α) : (of_except v : Act σ ε α) s = (v, s) := rfl

theorem bind_of_ok (h : x s = (.ok a, s')) : (x >>= f) s = f a s' := by
  change Act.bind x f s = f a s'
  unfold Act.bind
  rw [h]

theorem bind_of_error (h : x s = (.error e, s')) : (x >>= f) s = (.error e, s') := by
  change Act.bind x f s = (.error e, s')
  unfold Act.bind
  rw [h]

theorem map_error_of_ok {g : ε → ε'} (h : x s = (.ok a, s')) : map_error g x s = (.ok a, s') := by
  unfold map_error
  rw [h]

theorem map_error_of_error {g : ε → ε'} (h : x s = (.error e, s')) : map_error g x s = (.error (g e), s') := by
  unfold map_error
  rw [h]

end Steps

end CrewSync.Acts
