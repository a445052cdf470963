/-
The session fence: a mutation that commits was made by the window that was
authenticated, not by one that has been replaced since.

The argument has two halves that meet in the open transaction. Looking forward
from the authentication, the epoch of a row only grows, and a window that was
revoked comes back only with a larger epoch: once *fenced*, the epoch a request
carries stays fenced (`passed`). Looking at the transaction itself, `guard` found
the row *intact* at that epoch, and the share lock it took keeps the row as it
was until the commit. A row cannot be both.
-/
import CrewSync.Windows

set_option autoImplicit false

namespace CrewSync.Fence

open Error Schema Rows Auth Sessions Runs
open Windows

variable {sha256 : String → String} {s t : Sys} {a : Act} {x : AgentSession} {sid : Uuid} {y : AgentSession}
  {e : Trans Sys Act} {ep : ℕ} {db : Db}

/-! ## What happened in a transition -/

/-- A registration or a resume succeeded in this transition and handed out `i`. -/
def issued (sha256 : String → String) (e : Trans Sys Act) (i : Issued) : Prop :=
  (∃ r label ttl entropy id now auth parent,
    e.act = .register r label ttl entropy id now ∧ e.pre.admitted r = some auth ∧
      auth.token_id = some parent ∧
      register sha256 now auth parent label ttl (generate_session_token entropy) id e.pre.db =
        .ok (i, e.post.db)) ∨
  ∃ r ttl entropy now auth,
    e.act = .resume r ttl entropy now ∧ e.pre.admitted r = some auth ∧
      resume sha256 now auth ttl (generate_session_token entropy) e.pre.db = .ok (i, e.post.db)

/-- The window `sid` was revoked in this transition, itself or with its token. -/
def revokes (sid : Uuid) (e : Trans Sys Act) : Prop :=
  ∃ x ∈ e.pre.db.agent_sessions, ∃ y ∈ e.post.db.agent_sessions,
    x.id = sid ∧ y.id = sid ∧ x.revoked_at = none ∧ y.revoked_at ≠ none

/-- A resume, a revocation or a re-registration of the window `sid` committed. -/
def fences (sha256 : String → String) (sid : Uuid) (e : Trans Sys Act) : Prop :=
  (∃ i, issued sha256 e i ∧ i.id = sid) ∨ revokes sid e

/-- A mutation of request `r` that calls `guard` in its transaction committed:
any guarded write, or the revocation of a window, which calls it too. -/
def mutates (r : ℕ) (e : Trans Sys Act) : Prop :=
  (∃ db', e.act = .commit r db') ∨
  ∃ label now auth target, e.act = .revoke r label now ∧ e.pre.admitted r = some auth ∧
    revoke now auth label e.pre.db = .ok (target, e.post.db)

/-! ## Epochs -/

theorem epoch_eq_of_change (h : Change sha256 s a x y) (ha : ¬ Issues a) :
    y.epoch = x.epoch := by
  cases h with
  | used => rfl
  | taken_over => exact absurd (Or.inl ⟨_, _, _, _, _, _, rfl⟩) ha
  | rotated => exact absurd (Or.inr ⟨_, _, _, _, rfl⟩) ha
  | extended => rfl
  | closed => rfl

theorem epoch_le_of_change (h : Change sha256 s a x y) : x.epoch ≤ y.epoch := by
  cases h with
  | used | extended | closed => exact Nat.le_refl _
  | taken_over | rotated => exact Nat.le_succ _

/-- A secret handed out belongs to the row it names, at the epoch it names; and
if that window existed before, its epoch has grown by one. -/
theorem issued_epoch {i : Issued} (hw : WF e.pre.db) (hi : issued sha256 e i) :
    ∃ y ∈ e.post.db.agent_sessions, y.id = i.id ∧ y.epoch = i.epoch ∧
      ∀ x ∈ e.pre.db.agent_sessions, x.id = i.id → y.epoch = x.epoch + 1 := by
  rcases hi with ⟨r, label, ttl, entropy, id, now, auth, parent, -, -, -, hreg⟩ |
    ⟨r, ttl, entropy, now, auth, -, -, hres⟩
  · obtain ⟨lab, -, -, -, ⟨-, hid, hiid, hie, hdb⟩ | ⟨x, hone, -, hiid, hie, hdb⟩⟩ :=
      register_ok hreg
    · refine ⟨fresh_row sha256 now auth parent lab ttl (generate_session_token entropy) id, ?_,
        hiid.symm, hie.symm, fun x hx hxi => ?_⟩
      · rw [hdb]; exact mem_insert_into.mpr (Or.inr rfl)
      · exact absurd (hxi.trans hiid) (hid x hx)
    · have hp := pos_of_one hone
      refine ⟨taken_over sha256 now parent ttl (generate_session_token entropy) x, ?_, hiid.symm,
        hie.symm, fun y hy hyi => ?_⟩
      · rw [hdb]; exact mem_update_of_pos (mem_of_one hone) hp
      · rw [hw.ids.eq hy (mem_of_one hone) (hyi.trans hiid)]; rfl
  · obtain ⟨sid, x, -, hone, -, hiid, hie, hdb⟩ := resume_ok hres
    have hxid : x.id = sid := by
      have hp := pos_of_one hone
      simp only [resumable, Bool.and_eq_true, beq_iff_eq] at hp
      exact hp.1.1.1
    refine ⟨rotated sha256 now ttl (generate_session_token entropy) x, ?_, hxid.trans hiid.symm,
      hie.symm, fun y hy hyi => ?_⟩
    · rw [hdb]; exact mem_update_of_pos (mem_of_one hone) (pos_of_one hone)
    · rw [hw.ids.eq hy (mem_of_one hone) (hyi.trans (hiid.trans hxid.symm))]; rfl

/-- An epoch changes in a registration or a resume of that very window only. -/
theorem epoch_changed (hw : WF s.db) (hstep : step sha256 s a = some t) (hx : x ∈ s.db.agent_sessions) :
    ∃ y ∈ t.db.agent_sessions, y.id = x.id ∧
      (y.epoch ≠ x.epoch → ∃ i, issued sha256 ⟨s, a, t⟩ i ∧ i.id = x.id) := by
  by_cases ha : Issues a
  swap
  · obtain ⟨f, heq, hf⟩ | ⟨new, -, -, -, -, -, hreg⟩ := step_changed hw hstep
    · refine ⟨f x, ?_, (hf x hx).id_eq, fun hne => absurd (epoch_eq_of_change (hf x hx) ha) hne⟩
      rw [heq]; exact List.mem_map_of_mem hx
    · exact absurd (Or.inl hreg) ha
  rcases ha with ⟨r, label, ttl, entropy, id, now, rfl⟩ | ⟨r, ttl, entropy, now, rfl⟩
  · obtain ⟨auth, parent, hadm, hpar, -, hc⟩ := register_cases hstep
    obtain rfl | ⟨i, db', hreg, rfl, -, -⟩ := commits_cases hc
    · exact ⟨x, hx, rfl, fun hne => absurd rfl hne⟩
    have hi : issued sha256
        ⟨s, .register r label ttl entropy id now, { s with db := db' }⟩ i :=
      Or.inl ⟨r, label, ttl, entropy, id, now, auth, parent, rfl, hadm, hpar, hreg⟩
    obtain ⟨lab, -, -, -, ⟨-, hid, hiid, hie, rfl⟩ | ⟨z, hone, -, hiid, hie, rfl⟩⟩ :=
      register_ok hreg
    · exact ⟨x, mem_insert_into.mpr (Or.inl hx), rfl, fun hne => absurd rfl hne⟩
    · by_cases hp : (x.agent_id == auth.agent_id && x.label == lab) = true
      · refine ⟨_, mem_update_of_pos hx hp, rfl, fun _ => ⟨i, hi, ?_⟩⟩
        rw [hiid, hw.window_eq hone hx hp]
      · exact ⟨x, mem_update_of_not hx (by simpa using hp), rfl, fun hne => absurd rfl hne⟩
  · obtain ⟨auth, hadm, -, hc⟩ := lifecycle_cases (fun auth => (· == auth.agent_id))
      (fun auth => resume sha256 now auth ttl (generate_session_token entropy) s.db) hstep
    obtain rfl | ⟨i, db', hres, rfl, -, -⟩ := commits_cases hc
    · exact ⟨x, hx, rfl, fun hne => absurd rfl hne⟩
    have hi : issued sha256 ⟨s, .resume r ttl entropy now, { s with db := db' }⟩ i :=
      Or.inr ⟨r, ttl, entropy, now, auth, rfl, hadm, hres⟩
    obtain ⟨sid, z, -, -, -, hiid, -, rfl⟩ := resume_ok hres
    by_cases hp : resumable auth sid s.db.api_tokens x = true
    · refine ⟨_, mem_update_of_pos hx hp, rfl, fun _ => ⟨i, hi, ?_⟩⟩
      simp only [resumable, Bool.and_eq_true, beq_iff_eq] at hp
      rw [hiid, hp.1.1.1]
    · exact ⟨x, mem_update_of_not hx (by simpa using hp), rfl, fun hne => absurd rfl hne⟩

/-! ## Fenced once, fenced for good -/

/-- The row is there and its epoch has reached `ep`. -/
def known (sid : Uuid) (ep : ℕ) (db : Db) : Prop :=
  ∃ x ∈ db.agent_sessions, x.id = sid ∧ ep ≤ x.epoch

/-- The epoch `ep` of the window `sid` is fenced: overtaken, or revoked. -/
def passed (sid : Uuid) (ep : ℕ) (db : Db) : Prop :=
  ∃ x ∈ db.agent_sessions, x.id = sid ∧ (ep < x.epoch ∨ (x.epoch = ep ∧ x.revoked_at ≠ none))

theorem not_intact_of_passed (hw : WF db) (h : passed sid ep db) : ¬ intact sid ep db := by
  rintro ⟨y, hy, hyid, hye, hyr⟩
  obtain ⟨x, hx, hxid, hlt | ⟨-, hr⟩⟩ := h
  all_goals obtain rfl := hw.ids.eq hx hy (hxid.trans hyid.symm)
  · omega
  · exact hr hyr

theorem known_of_intact (h : intact sid ep db) : known sid ep db := by
  obtain ⟨x, hx, hid, hep, -⟩ := h
  exact ⟨x, hx, hid, by omega⟩

theorem known_step (hw : WF s.db) (hstep : step sha256 s a = some t) (h : known sid ep s.db) : known sid ep t.db := by
  obtain ⟨x, hx, hid, hle⟩ := h
  obtain ⟨f, heq, hf⟩ | ⟨new, -, -, -, -, heq, -⟩ := step_changed hw hstep
  · refine ⟨f x, ?_, (hf x hx).id_eq.trans hid, hle.trans (epoch_le_of_change (hf x hx))⟩
    rw [heq]; exact List.mem_map_of_mem hx
  · refine ⟨x, ?_, hid, hle⟩
    rw [heq]; exact mem_insert_into.mpr (Or.inl hx)

/-- A revoked window leaves its epoch behind only upwards. -/
theorem passed_of_change (h : Change sha256 s a x y) (hx : ep < x.epoch ∨ (x.epoch = ep ∧ x.revoked_at ≠ none)) :
    ep < y.epoch ∨ (y.epoch = ep ∧ y.revoked_at ≠ none) := by
  cases h with
  | used u => exact hx
  | taken_over hdead =>
    simp only [taken_over]
    omega
  | rotated _ _ hr =>
    simp only [rotated]
    omega
  | extended _ _ hr =>
    simp only [renewable, Bool.and_eq_true, Option.isNone_iff_eq_none] at hr
    rcases hx with hx | ⟨-, hx⟩
    · exact Or.inl hx
    · exact absurd hr.1.2 hx
  | closed hr =>
    rcases hx with hx | ⟨-, hx⟩
    · exact Or.inl hx
    · exact absurd hr hx

theorem passed_step (hw : WF s.db) (hstep : step sha256 s a = some t)
    (h : passed sid ep s.db) : passed sid ep t.db := by
  obtain ⟨x, hx, hid, hp⟩ := h
  obtain ⟨f, heq, hf⟩ | ⟨new, -, -, -, -, heq, -⟩ := step_changed hw hstep
  · refine ⟨f x, ?_, (hf x hx).id_eq.trans hid, passed_of_change (hf x hx) hp⟩
    rw [heq]; exact List.mem_map_of_mem hx
  · refine ⟨x, ?_, hid, hp⟩
    rw [heq]; exact mem_insert_into.mpr (Or.inl hx)

/-- A resume, a revocation or a re-registration fences every epoch the window has
had so far. -/
theorem passed_of_fences (hw : WF e.pre.db) (hstep : step sha256 e.pre e.act = some e.post) (hk : known sid ep e.pre.db)
    (h : fences sha256 sid e) : passed sid ep e.post.db := by
  obtain ⟨x, hx, hid, hle⟩ := hk
  rcases h with ⟨i, hi, hisid⟩ | ⟨x', hx', y, hy, hx'id, hyid, hxr, hyr⟩
  · obtain ⟨y, hy, hyi, -, hgrow⟩ := issued_epoch hw hi
    have hye := hgrow x hx (hid.trans hisid.symm)
    exact ⟨y, hy, hyi.trans hisid, Or.inl (by omega)⟩
  · obtain ⟨f, heq, hf⟩ | ⟨new, -, -, -, -, heq, -⟩ := step_changed hw hstep
    · have hfx : f x ∈ e.post.db.agent_sessions := by rw [heq]; exact List.mem_map_of_mem hx
      have hyx : y = f x :=
        (hw.step hstep).ids.eq hy hfx (hyid.trans ((hf x hx).id_eq.trans hid).symm)
      have hep := epoch_le_of_change (hf x hx)
      refine ⟨y, hy, hyid, ?_⟩
      rw [hyx] at hyr ⊢
      rcases Nat.lt_or_ge ep (f x).epoch with hlt | hge
      · exact Or.inl hlt
      · exact Or.inr ⟨by omega, hyr⟩
    · have hxt : x' ∈ e.post.db.agent_sessions := by
        rw [heq]; exact mem_insert_into.mpr (Or.inl hx')
      have hyx : y = x' := (hw.step hstep).ids.eq hy hxt (hyid.trans hx'id.symm)
      rw [hyx] at hyr
      exact absurd hxr hyr

/-! ## The open transaction -/

/-- A share lock keeps its row exactly as it is. -/
theorem locked_row_kept (hstep : step sha256 s a = some t)
    (hx : x ∈ s.db.agent_sessions) (hl : s.share_locked x.id = true) : x ∈ t.db.agent_sessions := by
  have hkeep : ∀ {α : Type} {agents : Uuid → Bool} {res : BusResult (α × Db)},
      s.commits agents res = some t → x ∈ t.db.agent_sessions := by
    intro α agents res hc
    obtain rfl | ⟨b, db', -, rfl, -, hlocked⟩ := commits_cases hc
    · exact hx
    · exact hlocked x hx hl
  cases a with
  | tick d | rollback r | recovered r => rw [← Option.some.inj hstep]; exact hx
  | authenticate r raw headers now =>
    obtain ⟨-, -, rfl | ⟨ctx, -, rfl⟩⟩ := authenticate_cases hstep
    · exact hx
    · simp only [touch]
      split
      · exact mem_update_of_not hx (by simp [hl])
      · exact hx
      · exact hx
  | guard r now => obtain ⟨auth, -, rfl | ⟨-, rfl⟩⟩ := guard_cases hstep <;> exact hx
  | commit r db' =>
    obtain ⟨-, hses, -, rfl⟩ := commit_cases hstep
    rw [← hses] at hx
    exact hx
  | issue_token k => rw [issue_token_cases hstep]; exact hx
  | recover r now => obtain ⟨-, rfl | ⟨auth, -, -, rfl⟩⟩ := recover_cases hstep <;> exact hx
  | _ =>
    obtain ⟨α, agents, res, hc⟩ := commits_of_lifecycle rfl hstep
    exact hkeep hc

/-- What `step` does outside the database: a request is admitted once and keeps
its context, and a transaction is opened by a `guard` that passed. -/
theorem step_requests (hstep : step sha256 s a = some t) :
    (∀ r auth, s.admitted r = some auth → t.admitted r = some auth) ∧
    (∀ r auth, t.admitted r = some auth → s.admitted r = some auth ∨
      ∃ raw headers now, require_bearer sha256 now raw headers s.db = .ok auth) ∧
    ∀ h ∈ t.held, h ∈ s.held ∨ ∃ now auth, s.admitted h.1 = some auth ∧
      h.2 = auth.session_id ∧ guard now auth s.db = .ok () ∧ t.db = s.db := by
  have hkeep : ∀ {α : Type} {agents : Uuid → Bool} {res : BusResult (α × Db)},
      s.commits agents res = some t → t.admitted = s.admitted ∧ t.held = s.held := by
    intro α agents res hc
    obtain rfl | ⟨b, db', -, rfl, -, -⟩ := commits_cases hc <;> exact ⟨rfl, rfl⟩
  have hsame : t.admitted = s.admitted → (∀ h ∈ t.held, h ∈ s.held) →
      (∀ r auth, s.admitted r = some auth → t.admitted r = some auth) ∧
      (∀ r auth, t.admitted r = some auth → s.admitted r = some auth ∨
        ∃ raw headers now, require_bearer sha256 now raw headers s.db = .ok auth) ∧
      ∀ h ∈ t.held, h ∈ s.held ∨ ∃ now auth, s.admitted h.1 = some auth ∧
        h.2 = auth.session_id ∧ guard now auth s.db = .ok () ∧ t.db = s.db := by
    intro had hheld
    rw [had]
    exact ⟨fun _ _ h => h, fun _ _ h => Or.inl h, fun h hh => Or.inl (hheld h hh)⟩
  cases a with
  | tick d | recovered r => rw [← Option.some.inj hstep] at hsame ⊢; exact hsame rfl fun _ h => h
  | authenticate r raw headers now =>
    obtain ⟨hfree, -, rfl | ⟨ctx, hctx, rfl⟩⟩ := authenticate_cases hstep
    · exact hsame rfl fun _ h => h
    refine ⟨fun r' auth h => ?_, fun r' auth h => ?_, fun h hh => Or.inl hh⟩
    · have hne : r' ≠ r := by
        rintro rfl
        exact absurd (hfree.symm.trans h) (by simp)
      simpa [Function.update_of_ne hne] using h
    · by_cases hr : r' = r
      · subst hr
        simp only [Function.update_self, Option.some.injEq] at h
        subst h
        exact Or.inr ⟨raw, headers, now, hctx⟩
      · exact Or.inl (by simpa [Function.update_of_ne hr] using h)
  | guard r now =>
    obtain ⟨auth, hadm, rfl | ⟨hg, rfl⟩⟩ := guard_cases hstep
    · exact hsame rfl fun _ h => h
    refine ⟨fun _ _ h => h, fun _ _ h => Or.inl h, fun h hh => ?_⟩
    rcases List.mem_cons.mp hh with rfl | hh
    · exact Or.inr ⟨now, auth, hadm, rfl, hg, rfl⟩
    · exact Or.inl hh
  | commit r db' =>
    obtain ⟨-, -, -, rfl⟩ := commit_cases hstep
    exact hsame rfl fun h hh => (List.mem_filter.mp hh).1
  | rollback r =>
    rw [← Option.some.inj hstep] at hsame ⊢
    exact hsame rfl fun h hh => (List.mem_filter.mp hh).1
  | issue_token k =>
    rw [issue_token_cases hstep] at hsame ⊢
    exact hsame rfl fun _ h => h
  | recover r now =>
    obtain ⟨-, rfl | ⟨auth, -, -, rfl⟩⟩ := recover_cases hstep <;> exact hsame rfl fun _ h => h
  | _ =>
    obtain ⟨α, agents, res, hc⟩ := commits_of_lifecycle rfl hstep
    exact hsame (hkeep hc).1 fun h hh => by rwa [(hkeep hc).2] at hh

/-- What every reachable state satisfies: a context proves the window it names at
an epoch the row has reached, and an open transaction found it intact. -/
structure Sound (s : Sys) : Prop where
  wf : WF s.db
  proven : ∀ r auth sid, s.admitted r = some auth → auth.session_id = some sid →
    ∃ ep, auth.session_epoch = some ep ∧ known sid ep s.db
  open_tx : ∀ h ∈ s.held, ∃ auth, s.admitted h.1 = some auth ∧ h.2 = auth.session_id ∧
    ∀ sid ep, auth.session_id = some sid → auth.session_epoch = some ep → intact sid ep s.db

theorem intact_of_authenticated {now : ℕ} {raw : String} {headers : Headers}
    {ctx : AuthCtx} (h : require_bearer sha256 now raw headers db = .ok ctx)
    (hsid : ctx.session_id = some sid) : ∃ ep, ctx.session_epoch = some ep ∧ intact sid ep db := by
  obtain ⟨x, hx, -, hrev, -, -, -, -, hid, hep, -⟩ :=
    resolve_session_token_ok sha256 (require_bearer_session sha256 h hsid)
  rw [hsid, Option.some.injEq] at hid
  exact ⟨x.epoch, hep, x, hx, hid.symm, rfl, hrev⟩

theorem share_locked_of_held {r : ℕ} (h : (r, some sid) ∈ s.held) : s.share_locked sid = true :=
  List.any_eq_true.mpr ⟨_, h, by simp⟩

theorem Sound.step (hs : Sound s) (hstep : step sha256 s a = some t) : Sound t := by
  obtain ⟨hkept, hnew, hheld⟩ := step_requests hstep
  refine ⟨hs.wf.step hstep, fun r auth sid hadm hsid => ?_, fun h hh => ?_⟩
  · rcases hnew r auth hadm with hold | ⟨raw, headers, now, hreq⟩
    · obtain ⟨ep, hep, hk⟩ := hs.proven r auth sid hold hsid
      exact ⟨ep, hep, known_step hs.wf hstep hk⟩
    · obtain ⟨ep, hep, hi⟩ := intact_of_authenticated hreq hsid
      exact ⟨ep, hep, known_step hs.wf hstep (known_of_intact hi)⟩
  · rcases hheld h hh with hold | ⟨now, auth, hadm, h2, hg, hdb⟩
    · obtain ⟨auth, hadm, h2, hint⟩ := hs.open_tx h hold
      refine ⟨auth, hkept h.1 auth hadm, h2, fun sid ep hsid hep => ?_⟩
      obtain ⟨x, hx, hxid, hxe, hxr⟩ := hint sid ep hsid hep
      have hl : s.share_locked x.id = true := by
        rw [hxid]
        refine share_locked_of_held (?_ : (h.1, some sid) ∈ s.held)
        rw [← hsid, ← h2]
        exact hold
      exact ⟨x, locked_row_kept hstep hx hl, hxid, hxe, hxr⟩
    · refine ⟨auth, hkept h.1 auth hadm, h2, fun sid ep hsid hep => ?_⟩
      rw [hdb]
      exact guard_ok hg hsid hep

/-- The start: any database whose keys are unique, and nothing in flight. -/
def Sys.start (db : Db) (clock : ℕ) : Sys :=
  { db := db, clock := clock, admitted := fun _ => none, held := [], recovering := [] }

theorem Sound.start (hw : WF db) (clock : ℕ) : Sound (Sys.start db clock) :=
  ⟨hw, fun _ _ _ h => absurd h (by simp [Sys.start]), fun _ h => absurd h (by simp [Sys.start])⟩

/-- A mutation that commits finds its window as it was authenticated. -/
theorem intact_of_mutates {r : ℕ} {auth : AuthCtx}
    (hs : Sound e.pre) (hstep : step sha256 e.pre e.act = some e.post) (hm : mutates r e)
    (hadm : e.pre.admitted r = some auth) (hsid : auth.session_id = some sid)
    (hep : auth.session_epoch = some ep) : intact sid ep e.pre.db := by
  rcases hm with ⟨db', hact⟩ | ⟨label, now, auth', target, -, hadm', hrev⟩
  · rw [hact] at hstep
    obtain ⟨⟨lock, hmem⟩, -⟩ := commit_cases hstep
    obtain ⟨auth', hadm', -, hint⟩ := hs.open_tx _ hmem
    rw [hadm, Option.some.injEq] at hadm'
    subst hadm'
    exact hint sid ep hsid hep
  · rw [hadm, Option.some.injEq] at hadm'
    subst hadm'
    exact guard_ok (revoke_ok hrev).1 hsid hep

/-! ## The law -/

/-- What the fence promises of a run `tr` that ends in `s`. -/
structure FencingLaw (sha256 : String → String) (tr : List (Trans Sys Act)) (s : Sys) : Prop where
  /-- The epoch of a window grows by one with every secret handed out for it, and
  changes in no other way. -/
  epochs : ∀ e ∈ tr,
    (∀ i, issued sha256 e i → ∃ y ∈ e.post.db.agent_sessions, y.id = i.id ∧ y.epoch = i.epoch ∧
      ∀ x ∈ e.pre.db.agent_sessions, x.id = i.id → y.epoch = x.epoch + 1) ∧
    ∀ x ∈ e.pre.db.agent_sessions, ∃ y ∈ e.post.db.agent_sessions, y.id = x.id ∧
      (y.epoch ≠ x.epoch → ∃ i, issued sha256 e i ∧ i.id = x.id)
  /-- Two credentials that authenticate one window are one secret, or a collision
  of SHA-256. -/
  one_secret : ∀ now₁ now₂ raw₁ raw₂ headers₁ headers₂ ctx₁ ctx₂,
    require_bearer sha256 now₁ raw₁ headers₁ s.db = .ok ctx₁ →
    require_bearer sha256 now₂ raw₂ headers₂ s.db = .ok ctx₂ →
    ctx₁.session_id ≠ none → ctx₂.session_id ≠ none →
    ctx₁.agent_id = ctx₂.agent_id → ctx₁.session = ctx₂.session →
    trim raw₁ = trim raw₂ ∨ (trim raw₁ ≠ trim raw₂ ∧ sha256 (trim raw₁) = sha256 (trim raw₂))
  /-- Between the authentication of a request and the commit of a mutation it
  makes, its window was not resumed, revoked or registered again. -/
  fence : ∀ tr₁ tr₂ tr₃ a e r raw headers now auth sid,
    tr = tr₁ ++ a :: (tr₂ ++ e :: tr₃) → a.act = .authenticate r raw headers now →
    a.post.admitted r = some auth → auth.session_id = some sid → mutates r e →
    ∀ x ∈ tr₂, ¬ fences sha256 sid x

theorem one_secret_of_wf (hw : WF db) {now₁ now₂ : ℕ} {raw₁ raw₂ : String}
    {headers₁ headers₂ : Headers} {ctx₁ ctx₂ : AuthCtx} (h₁ : require_bearer sha256 now₁ raw₁ headers₁ db = .ok ctx₁)
    (h₂ : require_bearer sha256 now₂ raw₂ headers₂ db = .ok ctx₂)
    (hs₁ : ctx₁.session_id ≠ none) (hs₂ : ctx₂.session_id ≠ none)
    (hagent : ctx₁.agent_id = ctx₂.agent_id) (hlabel : ctx₁.session = ctx₂.session) :
    hash_token sha256 raw₁ = hash_token sha256 raw₂ := by
  obtain ⟨sid₁, hsid₁⟩ := Option.ne_none_iff_exists'.mp hs₁
  obtain ⟨sid₂, hsid₂⟩ := Option.ne_none_iff_exists'.mp hs₂
  obtain ⟨x, hx, hxh, -, -, -, hxa, hxl, -⟩ :=
    resolve_session_token_ok sha256 (require_bearer_session sha256 h₁ hsid₁)
  obtain ⟨y, hy, hyh, -, -, -, hya, hyl, -⟩ :=
    resolve_session_token_ok sha256 (require_bearer_session sha256 h₂ hsid₂)
  have hxy : x = y := by
    refine hw.windows.eq hx hy ?_
    rw [← hxa, ← hxl, ← hya, ← hyl, hagent, hlabel]
  rw [← hxh, ← hyh, hxy]

/-- **Session fencing.** Every run of the system, from any database with unique
keys, keeps the law: epochs grow with the secrets and only with them, at most one
secret authenticates a window, and no mutation lands behind a fence. -/
theorem session_fencing {db : Db} (hw : WF db) (clock : ℕ) {tr : List (Trans Sys Act)} {s : Sys}
    (h : Run (Rel (step sha256)) (Sys.start db clock) tr s) : FencingLaw sha256 tr s := by
  have hsound : ∀ {tr s}, Run (Rel (step sha256)) (Sys.start db clock) tr s → Sound s :=
    fun h => h.invariant' (Sound.start hw clock) fun _ _ _ hs hr => hs.step hr
  refine ⟨fun e he => ?_, fun now₁ now₂ raw₁ raw₂ _ _ ctx₁ ctx₂ h₁ h₂ hs₁ hs₂ ha hl => ?_, ?_⟩
  · obtain ⟨tr₁, hrun, -⟩ := h.pre he
    have hwf := (hsound hrun).wf
    exact ⟨fun i hi => issued_epoch hwf hi, fun x hx => epoch_changed hwf (h.rel e he) hx⟩
  · have hhash := one_secret_of_wf (hsound h).wf h₁ h₂ hs₁ hs₂ ha hl
    by_cases htrim : trim raw₁ = trim raw₂
    · exact Or.inl htrim
    · exact Or.inr ⟨htrim, hhash⟩
  · rintro tr₁ tr₂ tr₃ a e r raw headers now auth sid rfl hact hadm hsid hmut x hx hfence
    obtain ⟨hrun₁, hrel, hrest⟩ := h.split
    obtain ⟨hrun₂, hrel_e, -⟩ := hrest.split
    have hsa : Sound a.post := (hsound hrun₁).step hrel
    -- the context keeps its epoch, and the row has reached it from here on
    obtain ⟨ep, hep, hk⟩ := hsa.proven r auth sid hadm hsid
    have hadm_e : e.pre.admitted r = some auth :=
      hrun₂.invariant' (I := fun s => s.admitted r = some auth) hadm
        fun _ _ _ hs hr => (step_requests hr).1 r auth hs
    obtain ⟨tr₂₁, tr₂₂, rfl⟩ := List.append_of_mem hx
    obtain ⟨hrun_x, hrel_x, hrun_xe⟩ := hrun₂.split
    have hstate : ∀ {tr s}, Run (Rel (step sha256)) a.post tr s → Sound s ∧ known sid ep s.db :=
      fun h => h.invariant' (I := fun s => Sound s ∧ known sid ep s.db) ⟨hsa, hk⟩
        fun _ _ _ hs hr => ⟨hs.1.step hr, known_step hs.1.wf hr hs.2⟩
    -- fenced at `x`, therefore still fenced when `e` commits
    obtain ⟨hsx, hkx⟩ := hstate hrun_x
    have hpassed : passed sid ep e.pre.db :=
      (hrun_xe.invariant' (I := fun s => Sound s ∧ passed sid ep s.db)
        ⟨hsx.step hrel_x, passed_of_fences hsx.wf hrel_x hkx hfence⟩
        fun _ _ _ hs hr => ⟨hs.1.step hr, passed_step hs.1.wf hr hs.2⟩).2
    have hse : Sound e.pre := (hstate hrun₂).1
    exact not_intact_of_passed hse.wf hpassed (intact_of_mutates hse hrel_e hmut hadm_e hsid hep)

/-! ## A run -/

/-- SHA-256 on the three credentials of the run below. -/
def digest : String → String
  | "acs_owner" => "9dc3eae19ee273ebc2bf03edf7df1a3d8d76d4a093bd38edefec582eb004d973"
  | "acss_first" => "da9b737086b839cc9dcf3f67ae8dbe6d8e87237b071b1bf947c2a024a6f5c86f"
  | "acss_second" => "1d13d70e74671dee9f9a0eab42c755032c1db31de0f8a2cae4710329f35ec898"
  | _ => ""

/-- One agent with one token and one live window, `desk`. -/
def desk : Db :=
  { teams := [⟨1, "crew", true, .postgres⟩]
    agents := [⟨2, 1, "ana", none⟩]
    api_tokens := [⟨3, 2, digest "acs_owner", none, none⟩]
    agent_sessions :=
      [⟨4, 2, 3, "desk", digest "acss_first", 1, some 0, secs 86400, none⟩] }

theorem desk_wf : WF desk := ⟨by decide, by decide, by decide⟩

/-- The window writes, and is then resumed by a second request. -/
def desk_acts : List Act :=
  [.authenticate 1 "acss_first" {} 0, .guard 1 0, .commit 1 desk,
    .authenticate 2 "acss_first" {} 0, .resume 2 none "second" 0]

theorem desk_run : (exec (step digest) (Sys.start desk 0) desk_acts).isSome = true := by decide

theorem session_fencing_desk :
    FencingLaw digest ((exec (step digest) (Sys.start desk 0) desk_acts).get desk_run).1
      ((exec (step digest) (Sys.start desk 0) desk_acts).get desk_run).2 :=
  session_fencing desk_wf 0 (exec_get desk_run)

end CrewSync.Fence
