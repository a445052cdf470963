/-
Tables as **lists of rows**, and the handful of statements a relational store
runs over them.

Nothing here knows what a row is. A table is a `List ρ`, a `WHERE` clause is a
`ρ → Bool`, and the four statements are `update`, `insert_into`, `delete` and
`upsert` (`INSERT … ON CONFLICT … DO UPDATE`). What a proof about a program
needs from them is always the same three facts, and they are stated once:

* which rows a statement leaves behind (`mem_update`, `mem_delete`, …), so that
  an invariant of the shape "every row satisfies `P`" is carried through a
  statement by looking at one row;
* that a unique key stays unique (`Keyed`), which is what lets `UPDATE … WHERE
  id = $1` be read as "exactly this row changes";
* what a lookup sees afterwards.
-/
import Mathlib.Data.List.Nodup
import Mathlib.Data.List.Sort

set_option autoImplicit false

namespace CrewSync.Rows

variable {ρ κ : Type*} {p : ρ → Bool} {f : ρ → ρ} {t : List ρ} {a : ρ} {key : ρ → κ} {r : ρ} {P : ρ → Prop}
  {q : ρ → Bool}

/-- `limit.clamp(1, most)`, of a page. -/
def clamp (limit most : ℤ) : ℕ := (max 1 (min limit most)).toNat

theorem clamp_pos (limit most : ℤ) : 0 < clamp limit most := by
  unfold clamp
  omega

/-! ## The statements -/

/-- `UPDATE t SET f WHERE p`. -/
def update (p : ρ → Bool) (f : ρ → ρ) (t : List ρ) : List ρ :=
  t.map fun r => if p r then f r else r

/-- `INSERT INTO t VALUES (r)`. -/
def insert_into (r : ρ) (t : List ρ) : List ρ := t ++ [r]

/-- `DELETE FROM t WHERE p`. -/
def delete (p : ρ → Bool) (t : List ρ) : List ρ := t.filter fun r => !p r

/-- `INSERT INTO t VALUES (r) ON CONFLICT (p) DO UPDATE SET f`. -/
def upsert (p : ρ → Bool) (f : ρ → ρ) (r : ρ) (t : List ρ) : List ρ :=
  if t.any p then update p f t else insert_into r t

/-- `SELECT … WHERE p ORDER BY k`. -/
def select (p : ρ → Bool) (k : ρ → ℕ) (t : List ρ) : List ρ :=
  (t.filter p).insertionSort fun a b => k a ≤ k b

/-! ## Which rows are left -/

theorem mem_update : r ∈ update p f t ↔ ∃ a ∈ t, r = if p a then f a else a := by
  simp only [update, List.mem_map, eq_comm]

theorem mem_update_of_mem (h : a ∈ t) : (if p a then f a else a) ∈ update p f t :=
  mem_update.mpr ⟨a, h, rfl⟩

/-- A row the `WHERE` clause does not match stays as it is. -/
theorem mem_update_of_not (h : a ∈ t) (hp : p a = false) : a ∈ update p f t := by
  simpa [hp] using mem_update_of_mem (p := p) (f := f) h

theorem mem_update_of_pos (h : a ∈ t) (hp : p a = true) : f a ∈ update p f t := by
  simpa [hp] using mem_update_of_mem (p := p) (f := f) h

@[simp] theorem mem_insert_into : a ∈ insert_into r t ↔ a ∈ t ∨ a = r := by
  simp [insert_into]

@[simp] theorem mem_delete : a ∈ delete p t ↔ a ∈ t ∧ p a = false := by
  simp [delete]

theorem mem_upsert (h : a ∈ upsert p f r t) :
    (∃ b ∈ t, a = if p b then f b else b) ∨ (a = r ∧ ∀ b ∈ t, p b = false) := by
  unfold upsert at h
  split at h
  · exact Or.inl (mem_update.mp h)
  · rename_i hany
    rcases mem_insert_into.mp h with h | h
    · have hb : ∀ b ∈ t, p b = false := by simpa using hany
      exact Or.inl ⟨a, h, by simp [hb a h]⟩
    · exact Or.inr ⟨h, by simpa using hany⟩

theorem mem_upsert_of_not (h : a ∈ t) (hp : p a = false) : a ∈ upsert p f r t := by
  unfold upsert
  split
  · exact mem_update_of_not h hp
  · exact mem_insert_into.mpr (Or.inl h)

@[simp] theorem mem_select {k : ρ → ℕ} : a ∈ select p k t ↔ a ∈ t ∧ p a = true := by
  unfold select
  rw [List.mem_insertionSort, List.mem_filter]

theorem perm_select (p : ρ → Bool) (k : ρ → ℕ) (t : List ρ) : (select p k t).Perm (t.filter p) :=
  List.perm_insertionSort _ _

theorem pairwise_select (p : ρ → Bool) (k : ρ → ℕ) (t : List ρ) : (select p k t).Pairwise fun a b => k a ≤ k b := by
  have : Std.Total (fun a b : ρ => k a ≤ k b) := ⟨fun a b => Nat.le_total (k a) (k b)⟩
  have : IsTrans ρ (fun a b => k a ≤ k b) := ⟨fun _ _ _ => Nat.le_trans⟩
  exact List.pairwise_insertionSort _ _

/-- A statement whose `WHERE` clause matches nothing changes nothing. -/
theorem update_eq_self (h : ∀ a ∈ t, p a = false) : update p f t = t := by
  unfold update
  calc t.map (fun r => if p r then f r else r) = t.map id := by
        refine List.map_congr_left fun a ha => ?_
        simp [h a ha]
    _ = t := List.map_id t

/-- An invariant of single rows survives an `UPDATE` that keeps it on the rows
it touches. -/
theorem forall_update (h : ∀ a ∈ t, P a) (hf : ∀ a ∈ t, p a = true → P a → P (f a)) :
    ∀ a ∈ update p f t, P a := by
  intro a ha
  obtain ⟨b, hb, rfl⟩ := mem_update.mp ha
  by_cases hp : p b = true
  · rw [if_pos hp]; exact hf b hb hp (h b hb)
  · rw [if_neg hp]; exact h b hb

theorem forall_insert_into (h : ∀ a ∈ t, P a) (hr : P r) :
    ∀ a ∈ insert_into r t, P a := by
  intro a ha
  rcases mem_insert_into.mp ha with ha | rfl
  · exact h a ha
  · exact hr

/-! ## Unique keys -/

/-- `UNIQUE (key)`. -/
def Keyed (key : ρ → κ) (t : List ρ) : Prop := (t.map key).Nodup

instance [DecidableEq κ] (key : ρ → κ) (t : List ρ) : Decidable (Keyed key t) :=
  inferInstanceAs (Decidable (t.map key).Nodup)

theorem Keyed.nil (key : ρ → κ) : Keyed key [] := List.nodup_nil

/-- Two rows of a keyed table with one key are one row. -/
theorem Keyed.eq (h : Keyed key t) {b : ρ} (ha : a ∈ t) (hb : b ∈ t) (hk : key a = key b) : a = b :=
  List.inj_on_of_nodup_map h ha hb hk

/-- Rewriting rows without touching their keys keeps them unique. -/
theorem Keyed.map (h : Keyed key t) {g : ρ → ρ} (hg : ∀ a ∈ t, key (g a) = key a) : Keyed key (t.map g) := by
  unfold Keyed
  rw [List.map_map]
  have heq : t.map (key ∘ g) = t.map key := List.map_congr_left fun a ha => hg a ha
  rw [heq]
  exact h

/-- A row of a table that shows the same as another is shown there as well. -/
theorem of_map_eq {β : Type*} {f : ρ → β} {l l' : List ρ} (h : l'.map f = l.map f) :
    ∀ a ∈ l', ∃ b ∈ l, f b = f a := by
  intro a ha
  have hin : f a ∈ l.map f := by
    rw [← h]
    exact List.mem_map_of_mem ha
  obtain ⟨b, hb, heq⟩ := List.mem_map.mp hin
  exact ⟨b, hb, heq⟩

theorem map_key_update (hf : ∀ a, key (f a) = key a) : (update p f t).map key = t.map key := by
  unfold update
  rw [List.map_map]
  refine List.map_congr_left fun a _ => ?_
  simp only [Function.comp]
  split
  · exact hf a
  · rfl

/-- An `UPDATE` that leaves the key alone keeps it unique. -/
theorem Keyed.update (h : Keyed key t) (hf : ∀ a, key (f a) = key a) : Keyed key (update p f t) := by
  unfold Keyed
  rw [map_key_update hf]
  exact h

/-- An `UPDATE` of at most one row that gives it a key no other row has keeps
keys unique. -/
theorem Keyed.update_one (h : Keyed key t) (hone : ∀ a ∈ t, ∀ b ∈ t, p a = true → p b = true → a = b)
    (hf : ∀ a ∈ t, p a = true → ∀ b ∈ t, p b = false → key (f a) ≠ key b) :
    Keyed key (Rows.update p f t) := by
  have hnd : t.Nodup := List.Nodup.of_map key h
  unfold Keyed Rows.update
  rw [List.map_map, List.nodup_map_iff_inj_on hnd]
  intro a ha b hb hk
  simp only [Function.comp] at hk
  by_cases hpa : p a = true <;> by_cases hpb : p b = true
  · exact hone a ha b hb hpa hpb
  · rw [if_pos hpa, if_neg hpb] at hk
    exact absurd hk (hf a ha hpa b hb (by simpa using hpb))
  · rw [if_neg hpa, if_pos hpb] at hk
    exact absurd hk.symm (hf b hb hpb a ha (by simpa using hpa))
  · rw [if_neg hpa, if_neg hpb] at hk
    exact h.eq ha hb hk

theorem Keyed.insert_into (h : Keyed key t) (hr : ∀ a ∈ t, key a ≠ key r) : Keyed key (insert_into r t) := by
  unfold Keyed Rows.insert_into
  rw [List.map_append, List.nodup_append]
  refine ⟨h, by simp, ?_⟩
  intro x hx y hy hxy
  obtain ⟨a, ha, rfl⟩ := List.mem_map.mp hx
  simp only [List.map_cons, List.map_nil, List.mem_singleton] at hy
  exact hr a ha (hxy.trans hy)

/-- Two tables that share a key space. -/
theorem keyed_append {a b : List ρ} :
    Keyed key (a ++ b) ↔ Keyed key a ∧ Keyed key b ∧ ∀ x ∈ a, ∀ y ∈ b, key x ≠ key y := by
  unfold Keyed
  rw [List.map_append, List.nodup_append]
  simp only [List.mem_map, forall_exists_index, and_imp, forall_apply_eq_imp_iff₂]

theorem Keyed.delete (h : Keyed key t) (p : ρ → Bool) : Keyed key (delete p t) :=
  List.Nodup.sublist (List.Sublist.map key List.filter_sublist) h

theorem Keyed.upsert (h : Keyed key t) (hf : ∀ a, key (f a) = key a) (hp : ∀ a, key a = key r → p a = true) :
    Keyed key (upsert p f r t) := by
  unfold Rows.upsert
  split
  · exact h.update hf
  · rename_i hany
    refine h.insert_into fun a ha hk => ?_
    have hb : ∀ b ∈ t, p b = false := by simpa using hany
    exact absurd (hp a hk) (by simp [hb a ha])

/-! ## Lookups -/

/-- `SELECT … WHERE p` on a unique key: at most one row. -/
def one (p : ρ → Bool) (t : List ρ) : Option ρ := t.find? p

theorem mem_of_one (h : one p t = some a) : a ∈ t :=
  List.mem_of_find?_eq_some h

theorem pos_of_one (h : one p t = some a) : p a = true :=
  List.find?_some h

theorem one_eq_none : one p t = none ↔ ∀ a ∈ t, p a = false := by
  simp [one]

/-- On a unique key the lookup finds the row it is asked for. -/
theorem one_eq_some (ha : a ∈ t) (hp : p a = true) (huniq : ∀ b ∈ t, p b = true → b = a) : one p t = some a := by
  cases hf : one p t with
  | none => exact absurd hp (by simp [one_eq_none.mp hf a ha])
  | some b => rw [huniq b (mem_of_one hf) (pos_of_one hf)]

/-- Of two counts of one table, of which one asks for more, the greater counts something else. -/
theorem countP_eq_iff (h : ∀ a ∈ t, q a = true → p a = true) :
    t.countP p = t.countP q ↔ ∀ a ∈ t, p a = true → q a = true := by
  have hsub : (t.filter q).Sublist (t.filter p) := by
    have heq : t.filter q = (t.filter p).filter q := by
      rw [List.filter_filter]
      refine List.filter_congr fun a ha => ?_
      have hqp := h a ha
      cases hq : q a <;> simp_all
    rw [heq]
    exact List.filter_sublist
  constructor
  · intro hcount a ha hp
    rw [List.countP_eq_length_filter, List.countP_eq_length_filter] at hcount
    have hin := List.mem_filter.mpr ⟨ha, hp⟩
    rw [← hsub.eq_of_length hcount.symm] at hin
    exact (List.mem_filter.mp hin).2
  · exact fun hpq => List.countP_congr fun a ha => ⟨hpq a ha, h a ha⟩

/-- The rows under some of the keys are as many as those keys. -/
theorem Keyed.countP_contains [DecidableEq κ] (h : Keyed key t) {l : List κ}
    (hl : l.Nodup) (hin : ∀ k ∈ l, ∃ a ∈ t, key a = k) : t.countP (fun a => l.contains (key a)) = l.length := by
  have hperm : ((t.filter fun a => l.contains (key a)).map key).Perm l := by
    refine (List.perm_ext_iff_of_nodup (List.Nodup.sublist (List.Sublist.map key List.filter_sublist) h)
      hl).mpr fun k => ?_
    simp only [List.mem_map, List.mem_filter, List.contains_iff_mem]
    constructor
    · rintro ⟨a, ⟨-, hk⟩, rfl⟩
      exact hk
    · intro hk
      obtain ⟨a, ha, rfl⟩ := hin k hk
      exact ⟨a, ⟨ha, hk⟩, rfl⟩
  rw [List.countP_eq_length_filter, ← hperm.length_eq, List.length_map]

/-- A lookup by a unique key. -/
theorem Keyed.one_iff [DecidableEq κ] (h : Keyed key t) {k : κ} :
    one (fun r => key r == k) t = some a ↔ a ∈ t ∧ key a = k := by
  constructor
  · intro ha
    have hk := pos_of_one ha
    exact ⟨mem_of_one ha, by simpa using hk⟩
  · rintro ⟨ha, hk⟩
    refine one_eq_some ha (by simpa using hk) fun b hb hp => ?_
    exact h.eq hb ha (by rw [hk]; simpa using hp)

/-- A lookup through an `UPDATE` that does not decide the lookup. -/
theorem one_update (h : ∀ a, q (f a) = q a) :
    one q (update p f t) = (one q t).map fun a => if p a then f a else a := by
  have hq : (q ∘ fun a => if p a then f a else a) = q := by
    funext a
    simp only [Function.comp]
    split
    · exact h a
    · rfl
  unfold one update
  rw [List.find?_map, hq]

theorem one_insert_into :
    one q (insert_into r t) = (one q t).or (if q r then some r else none) := by
  unfold one insert_into
  rw [List.find?_append]
  cases hq : q r <;> simp [hq]

end CrewSync.Rows
