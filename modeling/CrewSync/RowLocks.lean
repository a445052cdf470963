/-
Row locks, held to the end of a transaction.

A transaction reads a row **shared** (`SELECT … FOR SHARE`) or takes it for
itself (`FOR UPDATE`, or the `DELETE` of the row), and lets go of nothing before
it ends. What a lock is good for is one fact: a row a transaction has locked is
in the table until that transaction ends. It rests on another: what one
transaction has taken no other transaction has locked at all.

Nothing here knows what a row or a transaction is. A row has a key, under which
it is locked; a transaction has a number and the rows it has locked.
-/
import CrewSync.Rows

set_option autoImplicit false

namespace CrewSync.RowLocks

open Rows

/-- The rows one transaction has locked. -/
structure Locks (ρ : Type*) where
  shared : List ρ
  taken : List ρ

variable {ρ κ τ : Type*} {l : Locks ρ}

/-- All of them. -/
def Locks.rows (l : Locks ρ) : List ρ := l.shared ++ l.taken

/-- No lock. -/
def Locks.none : Locks ρ := ⟨[], []⟩

/-- The locks with one more row read shared. -/
def Locks.share (l : Locks ρ) (r : ρ) : Locks ρ := { l with shared := l.shared ++ [r] }

/-- The locks with one more row taken. -/
def Locks.take (l : Locks ρ) (r : ρ) : Locks ρ := { l with taken := l.taken ++ [r] }

theorem mem_rows {r : ρ} : r ∈ l.rows ↔ r ∈ l.shared ∨ r ∈ l.taken := by
  unfold Locks.rows
  exact List.mem_append

theorem mem_rows_share {r x : ρ} : x ∈ (l.share r).rows ↔ x ∈ l.rows ∨ x = r := by
  rw [mem_rows, mem_rows, Locks.share, List.mem_append, List.mem_singleton]
  tauto

theorem mem_rows_take {r x : ρ} : x ∈ (l.take r).rows ↔ x ∈ l.rows ∨ x = r := by
  rw [mem_rows, mem_rows, Locks.take, List.mem_append, List.mem_singleton]
  tauto

section Table

variable (key : ρ → κ) (xid : τ → ℕ) (locks : τ → Locks ρ)

/-- What one transaction has taken, the other has not locked. -/
def Apart (a b : Locks ρ) : Prop := ∀ r ∈ a.taken, ∀ r' ∈ b.rows, key r ≠ key r'

/-- What locks are good for: the locked rows are there, and those one transaction
has taken are its own. -/
structure Held (t : List ρ) (txs : List τ) : Prop where
  there : ∀ a ∈ txs, ∀ r ∈ (locks a).rows, r ∈ t
  apart : ∀ a ∈ txs, ∀ b ∈ txs, xid a ≠ xid b → Apart key (locks a) (locks b)

variable [DecidableEq κ]

/-- A row of this key may be read shared by transaction `x`. -/
def free_to_share (k : κ) (x : ℕ) (txs : List τ) : Bool :=
  txs.all fun b => xid b == x || (locks b).taken.all fun r => key r != k

/-- A row of this key may be taken by transaction `x`. -/
def free_to_take (k : κ) (x : ℕ) (txs : List τ) : Bool :=
  txs.all fun b => xid b == x || (locks b).rows.all fun r => key r != k

end Table

variable {key : ρ → κ} {xid : τ → ℕ} {locks : τ → Locks ρ} {t t' : List ρ} {txs txs' : List τ}
  {a a' : τ} {r : ρ} {x : ℕ}

/-! ## The locks as transactions come and go -/

theorem Held.start : Held key xid locks t [] :=
  ⟨fun _ ha => absurd ha List.not_mem_nil, fun _ ha => absurd ha List.not_mem_nil⟩

/-- Transactions may end, and any row that is not locked may go. -/
theorem Held.mono (h : Held key xid locks t txs) (hsub : ∀ b ∈ txs', b ∈ txs)
    (hthere : ∀ b ∈ txs', ∀ r ∈ (locks b).rows, r ∈ t → r ∈ t') : Held key xid locks t' txs' :=
  ⟨fun b hb r hr => hthere b hb r hr (h.there b (hsub b hb) r hr),
    fun b hb c hc hne => h.apart b (hsub b hb) c (hsub c hc) hne⟩

/-- A transaction that ends takes its own rows with it. -/
theorem Held.ended (h : Held key xid locks t txs) (ha : a ∈ txs) {p : ρ → Bool}
    (hp : ∀ r, p r = true → ∃ r' ∈ (locks a).taken, key r' = key r) :
    Held key xid locks (delete p t) (delete (fun b => xid b == xid a) txs) := by
  refine h.mono (fun b hb => (mem_delete.mp hb).1) ?_
  intro b hb r hr hin
  obtain ⟨hbin, hbne⟩ := mem_delete.mp hb
  refine mem_delete.mpr ⟨hin, ?_⟩
  by_contra hgone
  -- the row goes under a key this transaction has taken, and `b` has locked it too
  obtain ⟨r', hr', hkey⟩ := hp r (by simpa using hgone)
  have hne : xid a ≠ xid b := by
    intro heq
    rw [heq] at hbne
    simp at hbne
  exact h.apart a ha b hbin hne r' hr' r hr hkey

/-- One transaction gets the locks it may have. -/
theorem Held.replace (h : Held key xid locks t txs) (hthere : ∀ r ∈ (locks a').rows, r ∈ t)
    (hapart : ∀ b ∈ txs, xid b ≠ x → Apart key (locks a') (locks b) ∧ Apart key (locks b) (locks a')) :
    Held key xid locks t (update (fun b => xid b == x) (fun _ => a') txs) := by
  have hcases : ∀ b ∈ Rows.update (fun b => xid b == x) (fun _ => a') txs,
      b = a' ∨ b ∈ txs ∧ xid b ≠ x := by
    intro b hb
    obtain ⟨c, hc, rfl⟩ := mem_update.mp hb
    by_cases hcx : xid c = x
    · left
      simp [hcx]
    · right
      simpa [hcx] using hc
  constructor
  · intro b hb
    rcases hcases b hb with heq | ⟨hin, -⟩
    · rw [heq]
      exact hthere
    · exact h.there b hin
  · intro b hb c hc hne
    rcases hcases b hb with hb | ⟨hb, hbx⟩ <;> rcases hcases c hc with hc | ⟨hc, hcx⟩
    · exact absurd (by rw [hb, hc]) hne
    · rw [hb]
      exact (hapart c hc hcx).1
    · rw [hc]
      exact (hapart b hb hbx).2
    · exact h.apart b hb c hc hne

/-- A transaction gets no new lock. -/
theorem Held.same (h : Held key xid locks t txs) (ha : a ∈ txs) (hl : locks a' = locks a) :
    Held key xid locks t (update (fun b => xid b == xid a) (fun _ => a') txs) := by
  refine h.replace ?_ ?_
  · rw [hl]
    exact h.there a ha
  · intro b hb hne
    rw [hl]
    exact ⟨h.apart a ha b hb (Ne.symm hne), h.apart b hb a ha hne⟩

theorem Held.begin (h : Held key xid locks t txs) (hl : locks a = Locks.none) :
    Held key xid locks t (insert_into a txs) := by
  have hnone : ∀ r, r ∉ (locks a).rows := by
    intro r hr
    rw [hl] at hr
    exact absurd hr List.not_mem_nil
  constructor
  · intro b hb r hr
    rcases mem_insert_into.mp hb with hb | rfl
    · exact h.there b hb r hr
    · exact absurd hr (hnone r)
  · intro b hb c hc hne r hr r' hr'
    rcases mem_insert_into.mp hb with hb | rfl <;> rcases mem_insert_into.mp hc with hc | rfl
    · exact h.apart b hb c hc hne r hr r' hr'
    · exact absurd hr' (hnone r')
    · exact absurd (mem_rows.mpr (Or.inr hr)) (hnone r)
    · exact absurd rfl hne

variable [DecidableEq κ]

/-- A row that is there, and that no other transaction has taken, is read shared. -/
theorem Held.share (h : Held key xid locks t txs) (ha : a ∈ txs) (hl : locks a' = (locks a).share r) (hr : r ∈ t)
    (hfree : free_to_share key xid locks (key r) (xid a) txs = true) :
    Held key xid locks t (update (fun b => xid b == xid a) (fun _ => a') txs) := by
  refine h.replace ?_ ?_
  · rw [hl]
    intro r' hr'
    rcases mem_rows_share.mp hr' with hr' | rfl
    · exact h.there a ha r' hr'
    · exact hr
  · intro b hb hne
    rw [hl]
    refine ⟨h.apart a ha b hb (Ne.symm hne), fun y hy r' hr' => ?_⟩
    rcases mem_rows_share.mp hr' with hr' | rfl
    · exact h.apart b hb a ha hne y hy r' hr'
    · have hb := List.all_eq_true.mp hfree b hb
      simp only [Bool.or_eq_true, beq_iff_eq, List.all_eq_true, bne_iff_ne] at hb
      exact hb.resolve_left hne y hy

/-- A row that is there, and that no other transaction has locked, is taken. -/
theorem Held.take (h : Held key xid locks t txs) (ha : a ∈ txs) (hl : locks a' = (locks a).take r) (hr : r ∈ t)
    (hfree : free_to_take key xid locks (key r) (xid a) txs = true) :
    Held key xid locks t (update (fun b => xid b == xid a) (fun _ => a') txs) := by
  have hothers : ∀ b ∈ txs, xid b ≠ xid a → ∀ y ∈ (locks b).rows, key y ≠ key r := by
    intro b hb hne
    have hb := List.all_eq_true.mp hfree b hb
    simp only [Bool.or_eq_true, beq_iff_eq, List.all_eq_true, bne_iff_ne] at hb
    exact hb.resolve_left hne
  refine h.replace ?_ ?_
  · rw [hl]
    intro r' hr'
    rcases mem_rows_take.mp hr' with hr' | rfl
    · exact h.there a ha r' hr'
    · exact hr
  · intro b hb hne
    rw [hl]
    constructor
    · intro y hy r' hr'
      rcases List.mem_append.mp hy with hy | hy
      · exact h.apart a ha b hb (Ne.symm hne) y hy r' hr'
      · rw [List.mem_singleton.mp hy]
        exact Ne.symm (hothers b hb hne r' hr')
    · intro y hy r' hr'
      rcases mem_rows_take.mp hr' with hr' | rfl
      · exact h.apart b hb a ha hne y hy r' hr'
      · exact hothers b hb hne y (mem_rows.mpr (Or.inr hy))

end CrewSync.RowLocks
