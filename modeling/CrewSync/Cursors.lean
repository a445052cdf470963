/-
Reading what is new while others write: the **system** of the incremental read.

A message takes its id when its row is inserted and becomes visible when its
transaction commits. In between it is in `posting`, and a message inserted later
may well be committed first. A reading is one call of `read_messages` with
`only_new`: it has read its cursor, or its page, or it is over.

`returned` is not a table. It records which messages each cursor's readings have
handed to their callers, and is what "returned to the window" means below.

The law is that nothing is left behind a cursor. It holds as long as no page is
taken over the head of an uncommitted message (`page_clear`): then everything of
the view up to the page's end is on the page, and moving the cursor there leaves
nothing behind. When a page does end past an uncommitted message, that message is
behind the cursor the moment it appears, and no later reading looks there.
-/
import CrewSync.Messaging
import CrewSync.Runs

set_option autoImplicit false

namespace CrewSync.Cursors

open Error Schema Rows Sessions Messaging

/-! ## The system -/

/-- Where a reading stands. -/
inductive Phase where
  | selected (since : ℕ)
  | paged (since : ℕ) (page : List Message)
  | returned (page : List Message)
  | failed
  deriving DecidableEq, Repr

/-- One call of `read_messages` with `only_new`. -/
structure Reading where
  auth : AuthCtx
  view : View
  limit : ℕ
  phase : Phase
  deriving DecidableEq, Repr

/-- The state of the system. -/
structure Sys where
  db : Db
  /-- The next value of the sequence behind `messages.id`. -/
  next_id : ℕ
  /-- Inserted, not committed. -/
  posting : List Message
  readings : ℕ → Option Reading
  /-- Agent, cursor key and message of everything a reading has returned. -/
  returned : List (Uuid × String × ℕ)

/-- What can happen next. -/
inductive Act where
  /-- A posting transaction passes `guard` and inserts its row. -/
  | insert (auth : AuthCtx) (target : Target) (body : String) (now : ℕ)
  | commit (id : ℕ)
  | rollback (id : ℕ)
  /-- Reading `r` begins and reads its cursor. -/
  | read_cursor (r : ℕ) (auth : AuthCtx) (scope : Scope) (all_sessions : Bool) (limit : ℤ)
  | read_page (r : ℕ)
  /-- Reading `r` moves its cursor, and returns. -/
  | advance (r now : ℕ)
  /-- The process of reading `r` goes away. -/
  | abandon (r : ℕ)
  /-- Any other part of the server commits. -/
  | other (db' : Db)

/-- A reading in its next phase. -/
def Sys.phase (s : Sys) (r : ℕ) (rd : Reading) (ph : Phase) : Sys :=
  { s with readings := Function.update s.readings r (some { rd with phase := ph }) }

/-- What a returned page adds to the record. -/
def handed (rd : Reading) (p : List Message) : List (Uuid × String × ℕ) :=
  p.map fun m => (rd.view.agent_id, rd.view.cursor_key, m.id)

section Steps

-- `team_of` is the team of an agent, which no statement of the source changes
variable (team_of : Uuid → Uuid)

/-- One step. -/
def step (s : Sys) : Act → Option Sys
  | .insert auth target body now =>
    match guard now auth s.db with
    | .error _ => some s
    | .ok _ => some { s with
        posting := message_row auth target body s.next_id :: s.posting
        next_id := s.next_id + 1 }
  | .commit id =>
    match one (fun m => m.id == id) s.posting with
    | none => none
    | some m => some { s with
        db := { s.db with messages := insert_into m s.db.messages }
        posting := delete (fun m => m.id == id) s.posting }
  | .rollback id => some { s with posting := delete (fun m => m.id == id) s.posting }
  | .read_cursor r auth scope all_sessions limit =>
    if s.readings r ≠ none ∨ auth.team_id ≠ team_of auth.agent_id then none
    else
      let v := view_of auth scope all_sessions
      some { s with
        readings := Function.update s.readings r
          (some ⟨auth, v, clamp_limit limit, .selected (cursor_of v s.db)⟩) }
  | .read_page r =>
    match s.readings r with
    | some rd =>
      match rd.phase with
      | .selected since => some (s.phase r rd (.paged since (page rd.view since rd.limit s.db)))
      | _ => none
    | none => none
  | .advance r now =>
    match s.readings r with
    | some rd =>
      match rd.phase with
      | .paged since p =>
        if since < new_cursor since p then
          match advance_cursor now rd.auth rd.view (new_cursor since p) s.db with
          | .error _ => some (s.phase r rd .failed)
          | .ok (_, db') => some { s.phase r rd (.returned p) with
              db := db', returned := s.returned ++ handed rd p }
        else some { s.phase r rd (.returned p) with returned := s.returned ++ handed rd p }
      | _ => none
    | none => none
  | .abandon r =>
    match s.readings r with
    | some rd => some (s.phase r rd .failed)
    | none => none
  | .other db' =>
    if db'.messages = s.db.messages ∧ db'.read_cursors = s.db.read_cursors then
      some { s with db := db' }
    else none

end Steps

/-- A committed or an uncommitted message: one that is visible or can still
become so. -/
def Pending (s : Sys) (m : Message) : Prop := m ∈ s.db.messages ∨ m ∈ s.posting

/-- Message `m` was returned to the window and scope of `v`. -/
def Returned (s : Sys) (v : View) (m : Message) : Prop :=
  (v.agent_id, v.cursor_key, m.id) ∈ s.returned

/-- No page is taken over the head of an uncommitted message: of the messages of
the view among the next `limit` past the cursor, none has a larger id than one
that is inserted and not committed. -/
def page_clear (s : Sys) : Act → Bool
  | .read_page r =>
    (s.readings r).all fun rd =>
      match rd.phase with
      | .selected since => s.posting.all fun p => !(rd.view.sees p && since < p.id) ||
          s.db.messages.all fun m => !(rd.view.sees m && p.id < m.id) ||
            rd.limit ≤
              (s.db.messages.filter fun x => rd.view.sees x && since < x.id && x.id < m.id).length
      | _ => true
  | _ => true

/-! ## Cursors -/

variable {now r : ℕ}

/-- Moving a cursor moves that one forward, and no other. -/
theorem cursor_of_advance {auth : AuthCtx} {v : View} {c : ℕ} {db db' : Db} {u : Unit}
    (h : advance_cursor now auth v c db = .ok (u, db')) (w : View) :
    db'.messages = db.messages ∧
      cursor_of w db' = if w.agent_id = v.agent_id ∧ w.cursor_key = v.cursor_key
        then max (cursor_of w db) c else cursor_of w db := by
  simp only [advance_cursor, bind_eq_ok, pure_eq_ok, Prod.mk.injEq] at h
  obtain ⟨_, -, -, rfl⟩ := h
  refine ⟨rfl, ?_⟩
  simp only [cursor_of, upsert]
  by_cases hkey : w.agent_id = v.agent_id ∧ w.cursor_key = v.cursor_key
  · have howns : w.owns = v.owns := by
      funext x
      simp only [View.owns, hkey.1, hkey.2]
    rw [if_pos hkey, howns]
    cases hone : one v.owns db.read_cursors with
    | none =>
      have hany : db.read_cursors.any v.owns = false :=
        List.any_eq_false.mpr fun x hx => by simp [one_eq_none.mp hone x hx]
      rw [hany, if_neg (by simp), one_insert_into, hone]
      simp [View.owns]
    | some x =>
      have hany : db.read_cursors.any v.owns = true :=
        List.any_eq_true.mpr ⟨x, mem_of_one hone, pos_of_one hone⟩
      have hfwd : ∀ y, v.owns (forward c y) = v.owns y := fun _ => rfl
      rw [hany, if_pos rfl, one_update hfwd, hone]
      simp only [Option.map_some, Option.getD_some]
      rw [if_pos (pos_of_one hone)]
      rfl
  · rw [if_neg hkey]
    have hother : ∀ x, v.owns x = true → w.owns x = false := by
      intro x hx
      by_contra hne
      simp only [View.owns, Bool.not_eq_false, Bool.and_eq_true, beq_iff_eq] at hx hne
      exact hkey ⟨hne.1.symm.trans hx.1, hne.2.symm.trans hx.2⟩
    split
    · have hfwd : ∀ y, w.owns (forward c y) = w.owns y := fun _ => rfl
      rw [one_update hfwd]
      cases hone : one w.owns db.read_cursors with
      | none => rfl
      | some x =>
        have hx : ¬ v.owns x = true := fun hx => absurd (pos_of_one hone) (by simp [hother x hx])
        simp only [Option.map_some, Option.getD_some]
        rw [if_neg hx]
    · have hnew : w.owns ⟨v.agent_id, v.cursor_key, c⟩ = false := hother _ (by simp [View.owns])
      rw [one_insert_into, hnew]
      simp

/-! ## What holds in every state -/

variable {team_of : Uuid → Uuid} {s t : Sys} {a : Act} {rd : Reading}

/-- What a reading may rely on in each phase. With its page in hand, everything
of the view between the cursor it read and the end of the page is on the page. -/
def PhaseOk (s : Sys) (rd : Reading) : Prop :=
  match rd.phase with
  | .selected since => since ≤ cursor_of rd.view s.db
  | .paged since p => since ≤ cursor_of rd.view s.db ∧ new_cursor since p < s.next_id ∧
      ∀ m, Pending s m → rd.view.sees m = true → since < m.id → m.id ≤ new_cursor since p → m ∈ p
  | _ => True

/-- The invariant of the system. -/
structure Inv (team_of : Uuid → Uuid) (s : Sys) : Prop where
  fresh : ∀ m, Pending s m → m.id < s.next_id
  keyed : Keyed Message.id (s.db.messages ++ s.posting)
  cursors : ∀ v, cursor_of v s.db < s.next_id
  behind : ∀ v m, v.team_id = team_of v.agent_id → Pending s m → v.sees m = true →
    m.id ≤ cursor_of v s.db → Returned s v m
  readings : ∀ r rd, s.readings r = some rd →
    rd.view.team_id = team_of rd.view.agent_id ∧ PhaseOk s rd

/-- A phase survives while cursors and the sequence only move forward and only
new ids appear. -/
theorem PhaseOk.mono (h : PhaseOk s rd)
    (hcur : ∀ v, cursor_of v s.db ≤ cursor_of v t.db) (hnext : s.next_id ≤ t.next_id)
    (hpend : ∀ m, Pending t m → Pending s m ∨ s.next_id ≤ m.id) : PhaseOk t rd := by
  unfold PhaseOk at h ⊢
  split
  · rename_i since hph
    rw [hph] at h
    exact h.trans (hcur rd.view)
  · rename_i since p hph
    rw [hph] at h
    obtain ⟨h₁, h₂, h₃⟩ := h
    refine ⟨h₁.trans (hcur rd.view), by omega, fun m hm hsees hlt hle => ?_⟩
    rcases hpend m hm with hm | hnew
    · exact h₃ m hm hsees hlt hle
    · omega
  · trivial

/-- A step that leaves the cursors where they are. -/
theorem Inv.keep (h : Inv team_of s) (hnext : s.next_id ≤ t.next_id) (hfresh : ∀ m, Pending t m → m.id < t.next_id)
    (hkeyed : Keyed Message.id (t.db.messages ++ t.posting)) (hpend : ∀ m, Pending t m → Pending s m ∨ s.next_id ≤ m.id)
    (hcur : ∀ v, cursor_of v t.db = cursor_of v s.db) (hret : t.returned = s.returned)
    (hread : ∀ r rd, t.readings r = some rd → s.readings r = some rd ∨
      rd.view.team_id = team_of rd.view.agent_id ∧ PhaseOk t rd) : Inv team_of t := by
  refine ⟨hfresh, hkeyed, fun v => ?_, fun v m hteam hm hsees hle => ?_, fun r rd hrd => ?_⟩
  · rw [hcur v]
    exact Nat.lt_of_lt_of_le (h.cursors v) hnext
  · rw [hcur v] at hle
    unfold Returned
    rw [hret]
    rcases hpend m hm with hold | hnew
    · exact h.behind v m hteam hold hsees hle
    · have := h.cursors v
      omega
  · rcases hread r rd hrd with hold | hnew
    · obtain ⟨hteam, hph⟩ := h.readings r rd hold
      exact ⟨hteam, hph.mono (fun v => (hcur v).ge) hnext hpend⟩
    · exact hnew

/-- A reading in its next phase changes nothing else. -/
theorem Inv.rephase (h : Inv team_of s) {ph : Phase} (hteam : rd.view.team_id = team_of rd.view.agent_id)
    (hph : PhaseOk s { rd with phase := ph }) : Inv team_of (s.phase r rd ph) := by
  refine h.keep (Nat.le_refl _) h.fresh h.keyed (fun m hm => Or.inl hm) (fun v => rfl) rfl ?_
  intro r' rd' hrd'
  simp only [Sys.phase] at hrd'
  by_cases hr : r' = r
  · subst hr
    rw [Function.update_self, Option.some.injEq] at hrd'
    subst hrd'
    exact Or.inr ⟨hteam, hph⟩
  · rw [Function.update_of_ne hr] at hrd'
    exact Or.inl hrd'

/-- **The page is complete up to its end**, when it was taken over no uncommitted
message of the view. -/
theorem page_complete (h : Inv team_of s) {since : ℕ}
    (hclear : s.posting.all (fun p => !(rd.view.sees p && decide (since < p.id)) ||
      s.db.messages.all fun m => !(rd.view.sees m && decide (p.id < m.id)) ||
        decide (rd.limit ≤ (s.db.messages.filter fun x =>
          rd.view.sees x && decide (since < x.id) && decide (x.id < m.id)).length)) = true)
    {m : Message} (hm : Pending s m) (hsees : rd.view.sees m = true) (hlt : since < m.id)
    (hle : m.id ≤ new_cursor since (page rd.view since rd.limit s.db)) :
    m ∈ page rd.view since rd.limit s.db := by
  have hne : page rd.view since rd.limit s.db ≠ [] := by
    intro hnil
    rw [hnil] at hle
    simp only [new_cursor] at hle
    omega
  obtain ⟨last, hlast, hid⟩ := new_cursor_mem since hne
  obtain ⟨hlm, hls, -⟩ := mem_page hlast
  obtain ⟨hk₁, hk₂, hk₃⟩ := keyed_append.mp h.keyed
  rcases hm with hm | hm
  · -- committed: on the page, or it is the last of a full one
    rcases mem_page_or_full rd.limit hm hsees hlt with hp | ⟨-, hall⟩
    · exact hp
    · have heq : m.id = last.id := by have := hall last hlast; omega
      rw [hk₁.eq hm hlm heq]
      exact hlast
  · -- uncommitted: the last of the page would have been taken over its head
    exfalso
    have hne' : last.id ≠ m.id := hk₃ last hlm m hm
    have hahead := ahead_of_mem_page hlast
    have h₁ := List.all_eq_true.mp hclear m hm
    simp only [hsees, hlt, decide_true, Bool.and_self, Bool.not_true, Bool.false_or] at h₁
    have h₂ := List.all_eq_true.mp h₁ last hlm
    have hlt' : m.id < last.id := by omega
    simp only [hls, hlt', decide_true, Bool.and_self, Bool.not_true, Bool.false_or,
      decide_eq_true_eq] at h₂
    omega

/-! ## The steps -/

theorem read_page_cases (h : step team_of s (.read_page r) = some t) :
    ∃ rd since, s.readings r = some rd ∧ rd.phase = .selected since ∧
      t = s.phase r rd (.paged since (page rd.view since rd.limit s.db)) := by
  simp only [step] at h
  split at h
  · rename_i rd hrd
    split at h
    · rename_i since hph
      exact ⟨rd, since, hrd, hph, (Option.some.inj h).symm⟩
    · cases h
  · cases h

/-- A reading that moves on from its page fails its guard and returns nothing, or
returns its page with its cursor at least at the page's end. -/
theorem advance_cases (h : step team_of s (.advance r now) = some t) :
    ∃ rd since p, s.readings r = some rd ∧ rd.phase = .paged since p ∧
      (t = s.phase r rd .failed ∨
        t.readings = (s.phase r rd (.returned p)).readings ∧ t.posting = s.posting ∧
          t.next_id = s.next_id ∧ t.returned = s.returned ++ handed rd p ∧
          t.db.messages = s.db.messages ∧
          ∀ w, cursor_of w t.db =
            if since < new_cursor since p ∧ w.agent_id = rd.view.agent_id ∧
                w.cursor_key = rd.view.cursor_key
              then max (cursor_of w s.db) (new_cursor since p) else cursor_of w s.db) := by
  simp only [step] at h
  split at h
  swap
  · cases h
  rename_i rd hrd
  split at h
  swap
  · cases h
  rename_i since p hph
  refine ⟨rd, since, p, hrd, hph, ?_⟩
  split at h
  · rename_i hlt
    split at h
    · exact Or.inl (Option.some.inj h).symm
    · rename_i u db' hadv
      obtain rfl := Option.some.inj h
      refine Or.inr ⟨rfl, rfl, rfl, rfl, (cursor_of_advance hadv rd.view).1, fun w => ?_⟩
      rw [(cursor_of_advance hadv w).2]
      simp only [hlt, true_and]
  · rename_i hge
    obtain rfl := Option.some.inj h
    refine Or.inr ⟨rfl, rfl, rfl, rfl, rfl, fun w => ?_⟩
    rw [if_neg fun hc => hge hc.1]
    rfl

/-- Step law of the cursor: with its page complete, moving it leaves nothing
behind. -/
theorem Inv.advance (h : Inv team_of s) (hstep : step team_of s (.advance r now) = some t) : Inv team_of t := by
  obtain ⟨rd, since, p, hrd, hph, rfl | ⟨hread, hpost, hnext, hret, hmsg, hcur⟩⟩ :=
    advance_cases hstep
  · exact h.rephase (h.readings r rd hrd).1 trivial
  obtain ⟨hteam, hok⟩ := h.readings r rd hrd
  unfold PhaseOk at hok
  rw [hph] at hok
  obtain ⟨hsince, hend, hcomplete⟩ := hok
  have hpend : ∀ m, Pending t m ↔ Pending s m := fun m => by rw [Pending, Pending, hmsg, hpost]
  have hmono : ∀ v, cursor_of v s.db ≤ cursor_of v t.db := by
    intro v
    rw [hcur v]
    split <;> omega
  refine ⟨fun m hm => ?_, ?_, fun v => ?_, fun v m hv hm hsees hle => ?_, fun r' rd' hrd' => ?_⟩
  · rw [hnext]; exact h.fresh m ((hpend m).mp hm)
  · rw [hmsg, hpost]; exact h.keyed
  · have := h.cursors v
    rw [hcur v, hnext]
    split <;> omega
  · -- `m` was behind the old cursor, or is on the page that is returned
    have hm' := (hpend m).mp hm
    unfold Returned
    rw [hret]
    by_cases hold : m.id ≤ cursor_of v s.db
    · exact List.mem_append_left _ (h.behind v m hv hm' hsees hold)
    rw [hcur v] at hle
    split at hle
    · rename_i hown
      obtain ⟨-, hagent, hkey⟩ := hown
      have hcv : cursor_of v s.db = cursor_of rd.view s.db := by
        have howns : v.owns = rd.view.owns := by
          funext x
          simp only [View.owns, hagent, hkey]
        simp only [cursor_of, howns]
      have hsees' : rd.view.sees m = true := by
        rw [← sees_eq_of_key (by rw [hv, hteam, hagent]) hagent hkey]
        exact hsees
      have hmem := hcomplete m hm' hsees' (by omega) (by omega)
      refine List.mem_append_right _ (List.mem_map.mpr ⟨m, hmem, ?_⟩)
      rw [hagent, hkey]
    · exact absurd hle hold
  · rw [hread] at hrd'
    simp only [Sys.phase] at hrd'
    by_cases hr : r' = r
    · subst hr
      rw [Function.update_self, Option.some.injEq] at hrd'
      subst hrd'
      exact ⟨hteam, trivial⟩
    · rw [Function.update_of_ne hr] at hrd'
      obtain ⟨hteam', hok'⟩ := h.readings r' rd' hrd'
      exact ⟨hteam', hok'.mono hmono hnext.ge fun m hm => Or.inl ((hpend m).mp hm)⟩

/-- **The step law.** A step that takes no page over an uncommitted message keeps
the invariant. -/
theorem Inv.step (h : Inv team_of s) (hC : page_clear s a = true)
    (hstep : step team_of s a = some t) : Inv team_of t := by
  obtain ⟨hk₁, hk₂, hk₃⟩ := keyed_append.mp h.keyed
  cases a with
  | insert auth target body now =>
    simp only [Cursors.step] at hstep
    split at hstep
    · rw [← Option.some.inj hstep]; exact h
    obtain rfl := Option.some.inj hstep
    -- the new row has the id nobody has had, so it is fresh and pending
    have hid : (message_row auth target body s.next_id).id = s.next_id := by
      cases target <;> rfl
    have hpend : ∀ m, (m ∈ s.db.messages ∨
        m ∈ message_row auth target body s.next_id :: s.posting) →
        Pending s m ∨ m.id = s.next_id := by
      rintro m (hm | hm)
      · exact Or.inl (Or.inl hm)
      rcases List.mem_cons.mp hm with rfl | hm
      · exact Or.inr hid
      · exact Or.inl (Or.inr hm)
    refine h.keep (Nat.le_succ _) (fun m hm => ?_) ?_ (fun m hm => ?_) (fun _ => rfl) rfl
      fun _ _ hrd => Or.inl hrd
    · rcases hpend m hm with hold | hnew
      · exact Nat.lt_succ_of_lt (h.fresh m hold)
      · simp only [hnew]; omega
    · refine keyed_append.mpr ⟨hk₁, ?_, fun x hx y hy => ?_⟩
      · refine List.nodup_cons.mpr ⟨fun hmem => ?_, hk₂⟩
        obtain ⟨x, hx, hxid⟩ := List.mem_map.mp hmem
        have := h.fresh x (Or.inr hx)
        omega
      · rcases List.mem_cons.mp hy with rfl | hy
        · have := h.fresh x (Or.inl hx)
          omega
        · exact hk₃ x hx y hy
    · rcases hpend m hm with hold | hnew
      · exact Or.inl hold
      · exact Or.inr hnew.ge
  | commit id =>
    simp only [Cursors.step] at hstep
    split at hstep
    · cases hstep
    rename_i m hone
    obtain rfl := Option.some.inj hstep
    have hm := mem_of_one hone
    have hmid : m.id = id := by simpa using pos_of_one hone
    have hpend : ∀ x, (x ∈ insert_into m s.db.messages ∨
        x ∈ delete (fun m => m.id == id) s.posting) → Pending s x := by
      rintro x (hx | hx)
      · rcases mem_insert_into.mp hx with hx | rfl
        · exact Or.inl hx
        · exact Or.inr hm
      · exact Or.inr (mem_delete.mp hx).1
    refine h.keep (Nat.le_refl _) (fun x hx => h.fresh x (hpend x hx)) ?_
      (fun x hx => Or.inl (hpend x hx)) (fun _ => rfl) rfl fun _ _ hrd => Or.inl hrd
    refine keyed_append.mpr ⟨hk₁.insert_into fun x hx => hk₃ x hx m hm, hk₂.delete _,
      fun x hx y hy => ?_⟩
    obtain ⟨hy, hne⟩ := mem_delete.mp hy
    rcases mem_insert_into.mp hx with hx | rfl
    · exact hk₃ x hx y hy
    · rw [hmid]
      exact fun heq => absurd hne (by simp [heq])
  | rollback id =>
    obtain rfl := Option.some.inj hstep
    have hpend : ∀ x, (x ∈ s.db.messages ∨ x ∈ delete (fun m => m.id == id) s.posting) →
        Pending s x := by
      rintro x (hx | hx)
      · exact Or.inl hx
      · exact Or.inr (mem_delete.mp hx).1
    refine h.keep (Nat.le_refl _) (fun x hx => h.fresh x (hpend x hx)) ?_
      (fun x hx => Or.inl (hpend x hx)) (fun _ => rfl) rfl fun _ _ hrd => Or.inl hrd
    exact keyed_append.mpr ⟨hk₁, hk₂.delete _, fun x hx y hy => hk₃ x hx y (mem_delete.mp hy).1⟩
  | read_cursor r auth scope all_sessions limit =>
    simp only [Cursors.step] at hstep
    split at hstep
    · cases hstep
    rename_i hcond
    rw [not_or, not_not, not_not] at hcond
    obtain rfl := Option.some.inj hstep
    refine h.keep (Nat.le_refl _) h.fresh h.keyed (fun m hm => Or.inl hm) (fun _ => rfl) rfl
      fun r' rd' hrd' => ?_
    simp only at hrd'
    by_cases hr : r' = r
    · subst hr
      rw [Function.update_self, Option.some.injEq] at hrd'
      subst hrd'
      exact Or.inr ⟨hcond.2, Nat.le_refl _⟩
    · rw [Function.update_of_ne hr] at hrd'
      exact Or.inl hrd'
  | read_page r =>
    obtain ⟨rd, since, hrd, hph, rfl⟩ := read_page_cases hstep
    obtain ⟨hteam, hok⟩ := h.readings r rd hrd
    unfold PhaseOk at hok
    rw [hph] at hok
    simp only [page_clear, hrd, hph, Option.all_some] at hC
    refine h.rephase hteam ⟨hok, ?_, fun m hm hsees hlt hle => page_complete h hC hm hsees hlt hle⟩
    by_cases hnil : page rd.view since rd.limit s.db = []
    · have := h.cursors rd.view
      rw [hnil]
      simp only [new_cursor]
      omega
    · obtain ⟨m, hm, hid⟩ := new_cursor_mem since hnil
      rw [← hid]
      exact h.fresh m (Or.inl (mem_page hm).1)
  | advance r now => exact h.advance hstep
  | abandon r =>
    simp only [Cursors.step] at hstep
    split at hstep
    · rename_i rd hrd
      obtain rfl := Option.some.inj hstep
      exact h.rephase (h.readings r rd hrd).1 trivial
    · cases hstep
  | other db' =>
    simp only [Cursors.step] at hstep
    split at hstep
    · rename_i hsame
      obtain rfl := Option.some.inj hstep
      have hcur : ∀ v, cursor_of v db' = cursor_of v s.db := fun v => by
        simp only [cursor_of, hsame.2]
      refine h.keep (Nat.le_refl _) (fun m hm => ?_) ?_ (fun m hm => ?_) hcur rfl
        fun _ _ hrd => Or.inl hrd
      · simp only [Pending, hsame.1] at hm
        exact h.fresh m hm
      · simp only [hsame.1]; exact h.keyed
      · simp only [Pending, hsame.1] at hm
        exact Or.inl hm
    · cases hstep

/-! ## Nothing is taken back -/

/-- The reading an action begins. -/
def begun : Act → Option ℕ
  | .read_cursor r .. => some r
  | _ => none

/-- What a step does to the readings: they stay, one begins at the cursor of its view, or
one takes its page or is over. -/
inductive Moved (s t : Sys) (a : Act) : Prop where
  | stay (h : t.readings = s.readings)
  | start (r : ℕ) (rd : Reading) (h : t.readings = Function.update s.readings r (some rd))
      (hnone : s.readings r = none) (hbegun : begun a = some r)
      (hphase : rd.phase = .selected (cursor_of rd.view s.db))
  | next (r : ℕ) (rd : Reading) (ph : Phase) (hrd : s.readings r = some rd)
      (h : t.readings = Function.update s.readings r (some { rd with phase := ph }))
      (hphase : (∃ since, rd.phase = .selected since ∧
        ph = .paged since (page rd.view since rd.limit s.db)) ∨ ph = .failed ∨ ∃ p, ph = .returned p)

variable (hstep : step team_of s a = some t)
include hstep

/-- What a step changes: the messages grow, and only `advance` moves a cursor. -/
theorem step_cases : Moved s t a ∧ (∀ m ∈ s.db.messages, m ∈ t.db.messages) ∧
      ((t.returned = s.returned ∧ ∀ v, cursor_of v t.db = cursor_of v s.db) ∨
        ∃ r now, a = .advance r now) := by
  cases a with
  | insert auth target body now =>
    simp only [Cursors.step] at hstep
    split at hstep <;> obtain rfl := Option.some.inj hstep <;>
      exact ⟨.stay rfl, fun _ h => h, Or.inl ⟨rfl, fun _ => rfl⟩⟩
  | commit id =>
    simp only [Cursors.step] at hstep
    split at hstep
    · cases hstep
    · obtain rfl := Option.some.inj hstep
      exact ⟨.stay rfl, fun _ h => mem_insert_into.mpr (Or.inl h), Or.inl ⟨rfl, fun _ => rfl⟩⟩
  | rollback id =>
    obtain rfl := Option.some.inj hstep
    exact ⟨.stay rfl, fun _ h => h, Or.inl ⟨rfl, fun _ => rfl⟩⟩
  | read_cursor r auth scope all_sessions limit =>
    simp only [Cursors.step] at hstep
    split at hstep
    · cases hstep
    rename_i hcond
    rw [not_or, not_not] at hcond
    obtain rfl := Option.some.inj hstep
    exact ⟨.start r _ rfl hcond.1 rfl rfl, fun _ h => h, Or.inl ⟨rfl, fun _ => rfl⟩⟩
  | read_page r =>
    obtain ⟨rd, since, hrd, hph, rfl⟩ := read_page_cases hstep
    exact ⟨.next r rd _ hrd rfl (Or.inl ⟨since, hph, rfl⟩), fun _ h => h, Or.inl ⟨rfl, fun _ => rfl⟩⟩
  | advance r now =>
    obtain ⟨rd, since, p, hrd, -, rfl | ⟨hread, -, -, -, hmsg, -⟩⟩ := advance_cases hstep
    · exact ⟨.next r rd _ hrd rfl (Or.inr (Or.inl rfl)), fun _ h => h, Or.inr ⟨r, now, rfl⟩⟩
    · exact ⟨.next r rd _ hrd hread (Or.inr (Or.inr ⟨p, rfl⟩)), fun _ h => hmsg ▸ h, Or.inr ⟨r, now, rfl⟩⟩
  | abandon r =>
    simp only [Cursors.step] at hstep
    split at hstep
    · rename_i rd hrd
      obtain rfl := Option.some.inj hstep
      exact ⟨.next r rd _ hrd rfl (Or.inr (Or.inl rfl)), fun _ h => h, Or.inl ⟨rfl, fun _ => rfl⟩⟩
    · cases hstep
  | other db' =>
    simp only [Cursors.step] at hstep
    split at hstep
    · rename_i hsame
      obtain rfl := Option.some.inj hstep
      refine ⟨.stay rfl, fun m h => hsame.1 ▸ h, Or.inl ⟨rfl, fun v => ?_⟩⟩
      simp only [cursor_of, hsame.2]
    · cases hstep

/-- One reading through one step: it stays, takes its page, or is over. -/
theorem reading_step (hrd : s.readings r = some rd) :
    t.readings r = some rd ∨
      (∃ since, rd.phase = .selected since ∧ t.readings r =
        some { rd with phase := .paged since (page rd.view since rd.limit s.db) }) ∨
      ∃ ph, t.readings r = some { rd with phase := ph } ∧ (ph = .failed ∨ ∃ p, ph = .returned p) := by
  rcases (step_cases hstep).1 with h | ⟨r', rd', h, hnone, -, -⟩ | ⟨r', rd', ph, hrd', h, hphase⟩
  · exact Or.inl (h ▸ hrd)
  · have hne : r ≠ r' := fun hr => absurd ((hr ▸ hnone).symm.trans hrd) (by simp)
    exact Or.inl (by rw [h, Function.update_of_ne hne, hrd])
  · by_cases hr : r = r'
    · subst hr
      obtain rfl := Option.some.inj (hrd.symm.trans hrd')
      rw [h, Function.update_self]
      rcases hphase with ⟨since, hph, rfl⟩ | hover
      · exact Or.inr (Or.inl ⟨since, hph, rfl⟩)
      · exact Or.inr (Or.inr ⟨ph, rfl, hover⟩)
    · exact Or.inl (by rw [h, Function.update_of_ne hr, hrd])

/-- A reading that is there after a step and not before it has just begun, at the
cursor of its view. -/
theorem reading_begins (hnone : s.readings r = none) (hrd : t.readings r = some rd) :
    begun a = some r ∧ rd.phase = .selected (cursor_of rd.view s.db) := by
  rcases (step_cases hstep).1 with h | ⟨r', rd', h, -, hbegun, hphase⟩ | ⟨r', rd', ph, hrd', h, -⟩
  · exact absurd ((h ▸ hrd).symm.trans hnone) (by simp)
  · by_cases hr : r = r'
    · subst hr
      rw [h, Function.update_self, Option.some.injEq] at hrd
      exact ⟨hbegun, hrd ▸ hphase⟩
    · rw [h, Function.update_of_ne hr, hnone] at hrd
      cases hrd
  · have hne : r ≠ r' := fun hr => absurd (hnone.symm.trans (hr ▸ hrd')) (by simp)
    rw [h, Function.update_of_ne hne, hnone] at hrd
    cases hrd

theorem step_frame : (∀ m ∈ s.db.messages, m ∈ t.db.messages) ∧
      ((t.returned = s.returned ∧ ∀ v, cursor_of v t.db = cursor_of v s.db) ∨
        ∃ r now, a = .advance r now) :=
  (step_cases hstep).2

theorem returned_step {v : View} {m : Message} (h : Returned s v m) : Returned t v m := by
  unfold Returned at h ⊢
  obtain ⟨-, ⟨hret, -⟩ | ⟨r, now, rfl⟩⟩ := step_frame hstep
  · rw [hret]; exact h
  · obtain ⟨rd, since, p, -, -, rfl | ⟨-, -, -, hret, -⟩⟩ := advance_cases hstep
    · exact h
    · rw [hret]; exact List.mem_append_left _ h

theorem cursor_of_le_step (v : View) :
    cursor_of v s.db ≤ cursor_of v t.db := by
  obtain ⟨-, ⟨-, hcur⟩ | ⟨r, now, rfl⟩⟩ := step_frame hstep
  · exact (hcur v).ge
  · obtain ⟨rd, since, p, -, -, rfl | ⟨-, -, -, -, -, hcur⟩⟩ := advance_cases hstep
    · exact Nat.le_refl _
    · rw [hcur v]
      split <;> omega

end CrewSync.Cursors
