/-
Transaction ids and **snapshots**, as a multi-version store hands them out.

A transaction gets its id when it first writes, and ids are handed out in order;
transactions end in any order. A snapshot therefore cannot be one number. It is
three things: the least id that was still running (`xmin`), one past the greatest
id that had ended (`xmax`), and the ids between them that were still running
(`xip`). What it sees is what had ended by then.

The one fact everything rests on is that a store only moves forward: what a
snapshot sees, every later snapshot of the same store sees (`Seen.visible`). Two
snapshots of one store therefore cut its transactions into three parts, and the
parts of a chain of snapshots are disjoint (`due_add`).
-/
import Mathlib.Data.List.Basic

set_option autoImplicit false

namespace CrewSync.Mvcc

/-- A snapshot. -/
structure Snapshot where
  xmin : ℕ
  xmax : ℕ
  xip : List ℕ
  deriving DecidableEq, Repr

/-- Whether a snapshot sees a transaction. -/
def visible (tx : ℕ) (p : Snapshot) : Bool :=
  if tx < p.xmin then true
  else if p.xmax ≤ tx then false
  else !p.xip.contains tx

/-- The ids of a store: the next one, one past the greatest that has ended, and
those that are running. -/
structure Xids where
  next : ℕ
  completed : ℕ
  running : List ℕ
  deriving DecidableEq, Repr

/-- A transaction gets its id. -/
def Xids.assign (x : Xids) : Xids := { x with next := x.next + 1, running := x.next :: x.running }

/-- A transaction ends. -/
def Xids.finish (x : Xids) (tx : ℕ) : Xids :=
  { x with completed := max x.completed (tx + 1), running := x.running.filter fun r => r != tx }

/-- The snapshot of a store as it is. -/
def Xids.current (x : Xids) : Snapshot :=
  let xip := x.running.filter fun r => r < x.completed
  ⟨xip.foldr min x.completed, x.completed, xip⟩

/-- The ids a store can have. -/
structure Xids.Good (x : Xids) : Prop where
  completed : x.completed ≤ x.next
  running : ∀ tx ∈ x.running, tx < x.next

/-- A transaction has ended. -/
def Xids.over (x : Xids) (tx : ℕ) : Prop := tx < x.completed ∧ tx ∉ x.running

section Snapshots

variable {x : Xids} {p q : Snapshot} {tx : ℕ}

theorem foldr_min_le {l : List ℕ} {n : ℕ} : l.foldr min n ≤ n ∧ ∀ a ∈ l, l.foldr min n ≤ a := by
  induction l with
  | nil => exact ⟨Nat.le_refl _, fun a ha => absurd ha List.not_mem_nil⟩
  | cons b l ih =>
    rw [List.foldr_cons]
    refine ⟨Nat.le_trans (Nat.min_le_right _ _) ih.1, fun a ha => ?_⟩
    rcases List.mem_cons.mp ha with rfl | ha
    · exact Nat.min_le_left _ _
    · exact Nat.le_trans (Nat.min_le_right _ _) (ih.2 a ha)

/-- The current snapshot sees what has ended. -/
theorem visible_current : visible tx x.current = true ↔ x.over tx := by
  unfold visible Xids.over
  have hmin := foldr_min_le (l := x.running.filter fun r => r < x.completed) (n := x.completed)
  have hxip : tx ∈ x.current.xip ↔ tx ∈ x.running ∧ tx < x.completed := by
    simp [Xids.current]
  have hxmin : x.current.xmin = (x.running.filter fun r => r < x.completed).foldr min x.completed :=
    rfl
  have hxmax : x.current.xmax = x.completed := rfl
  rw [hxmin, hxmax]
  by_cases hlt : tx < (x.running.filter fun r => r < x.completed).foldr min x.completed
  · -- below every running id
    rw [if_pos hlt]
    refine ⟨fun _ => ⟨by omega, fun hrun => ?_⟩, fun _ => rfl⟩
    have := hmin.2 tx (List.mem_filter.mpr ⟨hrun, by simp; omega⟩)
    omega
  · rw [if_neg hlt]
    by_cases hmax : x.completed ≤ tx
    · rw [if_pos hmax]
      refine ⟨fun h => absurd h (by decide), fun h => ?_⟩
      have := h.1
      omega
    · rw [if_neg hmax]
      simp only [Bool.not_eq_true', List.contains_eq_mem, decide_eq_false_iff_not, hxip]
      refine ⟨fun h => ⟨by omega, fun hrun => h ⟨hrun, by omega⟩⟩, fun h hin => h.2 hin.1⟩

/-- Snapshot `p` was taken of this store, or of an earlier state of it. -/
def Seen (p : Snapshot) (x : Xids) : Prop := ∀ tx, visible tx p = true → x.over tx

theorem Seen.current : Seen x.current x := fun _ h => visible_current.mp h

/-- What a snapshot sees, a later one sees. -/
theorem Seen.visible (h : Seen p x) (htx : Mvcc.visible tx p = true) :
    Mvcc.visible tx x.current = true :=
  visible_current.mpr (h tx htx)

theorem over_assign (hx : x.Good) (h : x.over tx) : x.assign.over tx := by
  refine ⟨h.1, fun hrun => ?_⟩
  rcases List.mem_cons.mp hrun with rfl | hrun
  · have := hx.completed
    have := h.1
    omega
  · exact h.2 hrun

theorem over_finish (h : x.over tx) (n : ℕ) : (x.finish n).over tx :=
  ⟨Nat.lt_of_lt_of_le h.1 (Nat.le_max_left _ _), fun hrun => h.2 (List.mem_filter.mp hrun).1⟩

/-- A transaction that ends has ended. -/
theorem finish_over : (x.finish tx).over tx :=
  ⟨Nat.lt_of_lt_of_le (Nat.lt_succ_self tx) (Nat.le_max_right _ _), fun hrun => by
    simp [Xids.finish] at hrun⟩

theorem Seen.assign (h : Seen p x) (hx : x.Good) : Seen p x.assign :=
  fun tx htx => over_assign hx (h tx htx)

theorem Seen.finish (h : Seen p x) (n : ℕ) : Seen p (x.finish n) :=
  fun tx htx => over_finish (h tx htx) n

theorem Xids.Good.assign (hx : x.Good) : x.assign.Good := by
  refine ⟨Nat.le_succ_of_le hx.completed, fun tx htx => ?_⟩
  rcases List.mem_cons.mp htx with rfl | htx
  · exact Nat.lt_succ_self _
  · exact Nat.lt_succ_of_lt (hx.running tx htx)

theorem Xids.Good.finish (hx : x.Good) (hrun : tx ∈ x.running) : (x.finish tx).Good := by
  have hlt := hx.running tx hrun
  refine ⟨?_, fun r hr => hx.running r (List.mem_filter.mp hr).1⟩
  have := hx.completed
  simp only [Xids.finish]
  omega

/-- A running transaction is seen by no snapshot. -/
theorem Seen.not_running (h : Seen p x) (hrun : tx ∈ x.running) : Mvcc.visible tx p = false := by
  by_contra hv
  exact (h tx (by simpa using hv)).2 hrun

/-! ## What lies between two snapshots -/

/-- 1 for a transaction that ended between the two, else 0. -/
def due (p q : Snapshot) (tx : ℕ) : ℕ := if visible tx q = true ∧ visible tx p = false then 1 else 0

theorem due_self : due p p tx = 0 := by
  unfold due
  split
  · rename_i h
    rw [h.1] at h
    exact absurd h.2 (by decide)
  · rfl

/-- The parts of a chain of snapshots add up. -/
theorem due_add {r : Snapshot} (hpq : visible tx p = true → visible tx q = true)
    (hqr : visible tx q = true → visible tx r = true) : due p q tx + due q r tx = due p r tx := by
  unfold due
  cases hp : visible tx p with
  | true =>
    have hq := hpq hp
    simp [hq, hqr hq]
  | false =>
    cases hq : visible tx q with
    | true => simp [hqr hq]
    | false => simp

end Snapshots

end CrewSync.Mvcc
