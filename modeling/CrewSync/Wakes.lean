/-
What wakes a wait, and what counts as its backlog.

A committed message is seen twice. Its insert trigger sends a notification, and a wait
decides on the payload whether to wake (`tools/events.rs`: `visible_to`, `in_scope`,
`in_focus`, and the test that it is not the window's own). Its row is what
`unread_in_scope` counts by a `WHERE` clause of its own for each scope.

The two agree. They do not test the same things: the clauses for an inbox and for a
channel say nothing of the team, and the filter asks for it first. The schema makes up
for that: a message, its recipient and its channel are of one team by the composite
foreign keys of `migrations/0004_team_consistency.sql`, and a message has a channel or a
recipient and never both (`messages_target_check`).
-/
import CrewSync.EventLog
import CrewSync.Posts
import CrewSync.Unread

set_option autoImplicit false

namespace CrewSync.Wakes

open Error Schema Rows LowerCase Messaging EventLog
open Channels Conversations Posts Unread Crew

/-! ## The notification -/

/-- `notify_message`. A NULL column is a `null` in the payload, which reads as absent. -/
def notify_message (m : Post) : Payload :=
  { kind := some "message", team_id := some m.team_id, id := some m.id, channel_id := m.channel_id,
    recipient_agent_id := m.recipient_agent_id, recipient_session := m.recipient_session,
    sender_agent_id := some m.sender_agent_id, sender_session := m.sender_session,
    announce := some m.announce }

/-- What a wait for messages asks of a notification. -/
def wakes (auth : AuthCtx) (scope : Scope) (focus : Option Uuid) (e : BusEvent) : Bool :=
  e.visible_to auth.team_id auth.agent_id auth.session && in_scope e scope focus auth && !own_message e auth

/-! ## What the schema keeps -/

/-- The rows a message points at are of its team, and it has one target. -/
structure Consistent (db : PostDb) (m : Message) : Prop where
  targeted : Targeted m
  recipient : ∀ a, m.recipient_agent_id = some a → ∃ x ∈ db.db.agents, x.id = a ∧ x.team_id = m.team_id
  channel : ∀ c, m.channel_id = some c → ∃ x ∈ db.channels, x.id = c ∧ x.team_id = m.team_id

/-- A window of a team, and a scope it may watch. -/
structure Window (db : PostDb) (auth : AuthCtx) (scope : Scope) : Prop where
  agent : ∃ x ∈ db.db.agents, x.id = auth.agent_id ∧ x.team_id = auth.team_id
  channel : ∀ id name, scope = .Channel id name → ∃ x ∈ db.channels, x.id = id ∧ x.team_id = auth.team_id

/-- `PRIMARY KEY (id)`, of agents and of channels. -/
structure Keys (db : PostDb) : Prop where
  agents : Keyed Agent.id db.db.agents
  channels : Keyed Channel.id db.channels

section Committed

variable {t : CaseTable} {now id : ℕ} {auth : AuthCtx} {input : PostInput} {db : PostDb} {scope : Scope}
  {m : Message} {raw name : String} {team_id : Uuid}

theorem channel_of_team {channel : Uuid} (h : channel_id_by_name t team_id raw db.channels = .ok channel) :
    ∃ x ∈ db.channels, x.id = channel ∧ x.team_id = team_id := by
  unfold channel_id_by_name at h
  simp only [bind_eq_ok, fetch_eq_ok, pure_eq_ok] at h
  obtain ⟨c, hc, rfl⟩ := h
  refine ⟨c, mem_of_one hc, rfl, ?_⟩
  exact congrArg Prod.fst (at_name_iff.mp (pos_of_one hc))

theorem agent_of_team {agent : Uuid} (h : agent_id_by_name team_id name db.db = .ok agent) :
    ∃ x ∈ db.db.agents, x.id = agent ∧ x.team_id = team_id := by
  unfold agent_id_by_name at h
  simp only [bind_eq_ok, fetch_eq_ok, pure_eq_ok] at h
  obtain ⟨a, ha, rfl⟩ := h
  have hpos := pos_of_one ha
  rw [Bool.and_eq_true, beq_iff_eq, beq_iff_eq] at hpos
  exact ⟨a, mem_of_one ha, rfl, hpos.1⟩

theorem default_channel_of_team {r : Uuid × String} (h : default_channel t auth db.presence db.channels = some r) :
    ∃ x ∈ db.channels, x.id = r.1 ∧ x.team_id = auth.team_id := by
  unfold default_channel at h
  by_cases hs : auth.session = ""
  · rw [if_pos hs] at h
    cases h
  · rw [if_neg hs] at h
    obtain ⟨name, -, hname⟩ := List.exists_of_findSome?_eq_some h
    obtain ⟨c, hc, rfl⟩ := Option.map_eq_some_iff.mp hname
    exact ⟨c, mem_of_one hc, rfl, congrArg Prod.fst (at_name_iff.mp (pos_of_one hc))⟩

/-- Where a message may go is of the sender's team. -/
theorem target_of_team {channel to_ : Option String} {target : Target} {names : List String}
    (h : post_target t auth channel to_ db = .ok (target, names)) :
    (∀ c, target = .channel c → ∃ x ∈ db.channels, x.id = c ∧ x.team_id = auth.team_id) ∧
    (∀ a s, target = .direct a s → ∃ x ∈ db.db.agents, x.id = a ∧ x.team_id = auth.team_id) := by
  unfold post_target at h
  rcases channel with _ | channel <;> rcases to_ with _ | to_
  · -- The channel the window works in.
    by_cases hnone : default_channel t auth db.presence db.channels = none
    · simp only [hnone] at h
      split at h
      · cases h
      · cases h
    · rcases Option.ne_none_iff_exists'.mp hnone with ⟨r, hr⟩
      simp only [hr] at h
      have htarget : Target.channel r.1 = target := congrArg Prod.fst (Except.ok.inj h)
      refine ⟨fun c hc => ?_, fun a s hd => ?_⟩
      · rw [← htarget] at hc
        rw [← Target.channel.inj hc]
        exact default_channel_of_team hr
      · rw [← htarget] at hd
        cases hd
  · simp only [bind_eq_ok, pure_eq_ok, ensure_eq_ok] at h
    obtain ⟨⟨agent, session⟩, -, a, ha, _, -, heq⟩ := h
    have htarget : Target.direct a session = target := congrArg Prod.fst heq
    refine ⟨fun c hc => ?_, fun a' s hd => ?_⟩
    · rw [← htarget] at hc
      cases hc
    · rw [← htarget] at hd
      rw [← (Target.direct.inj hd).1]
      exact agent_of_team ha
  · simp only [bind_eq_ok, pure_eq_ok] at h
    obtain ⟨c, hc, heq⟩ := h
    have htarget : Target.channel c = target := congrArg Prod.fst heq
    refine ⟨fun c' hc' => ?_, fun a s hd => ?_⟩
    · rw [← htarget] at hc'
      rw [← Target.channel.inj hc']
      exact channel_of_team hc
    · rw [← htarget] at hd
      cases hd
  · cases h

/-- What `post_message` writes is consistent. -/
theorem posted_consistent {r : Post × List String} (h : post_message t now id auth input db = .ok r) :
    Consistent db r.1.toMessage := by
  obtain ⟨target, htarget, hrow⟩ := post_message_ok h
  have hteam := target_of_team htarget
  rw [hrow]
  refine ⟨targeted_row target _ id, fun a ha => ?_, fun c hc => ?_⟩
  · cases target with
    | channel c => exact absurd ha (by simp [message_row])
    | direct b s =>
      have hab : b = a := Option.some.inj ha
      rw [← hab]
      exact hteam.2 b s rfl
  · cases target with
    | channel b =>
      have hbc : b = c := Option.some.inj hc
      rw [← hbc]
      exact hteam.1 b rfl
    | direct b s => exact absurd hc (by simp [message_row])

/-- A scope that was resolved may be watched. -/
theorem resolved_window (hagent : ∃ x ∈ db.db.agents, x.id = auth.agent_id ∧ x.team_id = auth.team_id)
    (h : resolve_scope t auth raw db.channels = .ok scope) : Window db auth scope := by
  refine ⟨hagent, fun id name hscope => ?_⟩
  subst hscope
  unfold resolve_scope at h
  simp only at h
  split at h
  · cases h
  · split at h
    · cases h
    · simp only [bind_eq_ok, pure_eq_ok] at h
      obtain ⟨c, hc, heq⟩ := h
      rw [← (ScopeOf.Channel.inj heq).1]
      exact channel_of_team hc

/-- A message to the window's agent is of the window's team, and so is one in a channel
it watches. -/
theorem recipient_team (hk : Keys db) (hm : Consistent db m) (hw : Window db auth scope)
    (h : m.recipient_agent_id = some auth.agent_id) : m.team_id = auth.team_id := by
  obtain ⟨x, hx, hid, hteam⟩ := hm.recipient _ h
  obtain ⟨y, hy, hid', hteam'⟩ := hw.agent
  have hxy : x = y := hk.agents.eq hx hy (hid.trans hid'.symm)
  rw [← hteam, ← hteam', hxy]

theorem channel_team (hk : Keys db) (hm : Consistent db m) {c : Uuid}
    (hw : Window db auth (.Channel c name)) (h : m.channel_id = some c) : m.team_id = auth.team_id := by
  obtain ⟨x, hx, hid, hteam⟩ := hm.channel _ h
  obtain ⟨y, hy, hid', hteam'⟩ := hw.channel c name rfl
  have hxy : x = y := hk.channels.eq hx hy (hid.trans hid'.symm)
  rw [← hteam, ← hteam', hxy]

end Committed

/-! ## The payload and the row -/

section Payload

variable {announce : Message → Bool} {auth : AuthCtx} {scope : Scope} {focus : Option Uuid} {db : PostDb} {m : Post}
  {names : Names} {kinds : Option (List String)} {d : WaitEvent}

theorem direct_payload (m : Post) :
    BusEvent.is_direct_message ⟨notify_message m⟩ = m.recipient_agent_id.isSome := by
  unfold BusEvent.is_direct_message BusEvent.kind notify_message
  simp only [Option.getD_some, beq_self_eq_true, Bool.true_and]

/-- The filter's window is the one of the `WHERE` clause. -/
theorem window_payload (scope : Scope) :
    for_this_window ⟨notify_message m⟩ auth = (view_of auth scope false).addressed m.toMessage := by
  unfold for_this_window View.addressed
  cases hs : m.recipient_session with
  | none => simp only [notify_message, hs, view_of, beq_self_eq_true, Bool.false_or, Bool.true_or]
  | some s => simp [notify_message, hs, view_of]

/-- So is the filter's sender. An unnamed window is `null` in the payload and NULL in the
row, and the empty text to both. -/
theorem own_payload : own_message ⟨notify_message m⟩ auth = own auth m.toMessage := by
  unfold own_message own notify_message
  simp only [Option.some_beq_some]

theorem focus_payload_direct (hchannel : m.channel_id = none) : in_focus ⟨notify_message m⟩ focus = true := by
  unfold in_focus
  split
  · rfl
  · simp only [notify_message, hchannel]

theorem focus_payload_channel (hchannel : m.channel_id.isSome = true) (ha : announce m.toMessage = m.announce) :
    in_focus ⟨notify_message m⟩ focus = (focus.isNone || m.channel_id == focus || announce m.toMessage) := by
  obtain ⟨c, hc⟩ := Option.isSome_iff_exists.mp hchannel
  unfold in_focus BusEvent.is_announcement
  simp only [notify_message, Option.getD_some, ha, hc]
  by_cases hloud : m.announce = true
  · rw [if_pos hloud, hloud, Bool.or_true]
  · rw [if_neg hloud, Bool.eq_false_iff.mpr hloud, Bool.or_false]
    cases focus with
    | none => rfl
    | some f => rw [Option.isNone_some, Bool.false_or, Option.some_beq_some, Bool.beq_comm]

/-- What is for everyone is visible to its team, and so is what is for this window. -/
theorem visible_payload (scope : Scope)
    (h : m.recipient_agent_id = none ∨ (view_of auth scope false).addressed m.toMessage = true) :
    BusEvent.visible_to ⟨notify_message m⟩ auth.team_id auth.agent_id auth.session =
      (m.team_id == auth.team_id) := by
  unfold BusEvent.visible_to
  by_cases hteam : m.team_id = auth.team_id
  · rw [if_neg (by simp [notify_message, hteam]), direct_payload, hteam, beq_self_eq_true]
    rcases h with hnone | hmine
    · rw [hnone]
      rfl
    · rw [← window_payload] at hmine
      -- Past the sender's own copy, what is left of the filter is the window's.
      unfold for_this_window at hmine
      rw [Bool.and_eq_true, beq_iff_eq] at hmine
      split
      · split
        · rfl
        · have hto : (notify_message m).recipient_agent_id = some auth.agent_id := hmine.1
          rw [if_neg (by simp [hto])]
          exact hmine.2
      · rfl
  · rw [if_pos (by simp [notify_message, hteam]), beq_eq_false_iff_ne.mpr hteam]

theorem wakes_eq : wakes auth scope focus ⟨notify_message m⟩ =
    (BusEvent.visible_to ⟨notify_message m⟩ auth.team_id auth.agent_id auth.session &&
      in_scope ⟨notify_message m⟩ scope focus auth && !own auth m.toMessage) := by
  rw [wakes, own_payload]

/-- Under `all`. -/
theorem wakes_all (hm : Targeted m.toMessage) (ha : announce m.toMessage = m.announce) :
    wakes auth .All focus ⟨notify_message m⟩ = counted announce auth .All focus m.toMessage := by
  rw [wakes_eq]
  unfold in_scope counted
  simp only [direct_payload, window_payload .All]
  have hone := hm.one
  by_cases hdirect : m.recipient_agent_id = none
  · have hchannel : m.channel_id.isSome = true := by rw [hone, hdirect]; rfl
    have hmine : (view_of auth .All false).addressed m.toMessage = false := by simp [View.addressed, hdirect]
    rw [visible_payload .All (Or.inl hdirect), focus_payload_channel hchannel ha, hmine, hdirect, hchannel]
    simp only [Option.isSome_none, Bool.not_false, Bool.true_and, Bool.or_false]
    rw [Bool.and_right_comm]
  · have hsome : m.recipient_agent_id.isSome = true := Option.isSome_iff_ne_none.mpr hdirect
    have hchannel : m.channel_id = none := by
      rw [← Option.not_isSome_iff_eq_none, hone, hsome]
      exact Bool.false_ne_true
    rw [focus_payload_direct hchannel, hsome, hchannel]
    by_cases hmine : (view_of auth .All false).addressed m.toMessage = true
    · rw [visible_payload _ (Or.inr hmine), hmine]
      simp only [Bool.or_true, Bool.and_true]
    · rw [Bool.eq_false_iff.mpr hmine]
      simp only [Bool.not_true, Bool.or_self, Bool.false_and, Bool.and_false, Option.isSome_none]

/-- Under `inbox`. -/
theorem wakes_inbox (hk : Keys db) (hm : Consistent db m.toMessage) (hw : Window db auth .Inbox) :
    wakes auth .Inbox focus ⟨notify_message m⟩ = counted announce auth .Inbox focus m.toMessage := by
  rw [wakes_eq]
  unfold in_scope counted
  simp only [direct_payload, window_payload .Inbox]
  by_cases hmine : (view_of auth .Inbox false).addressed m.toMessage = true
  · have hto := hmine
    unfold View.addressed at hto
    rw [Bool.and_eq_true, beq_iff_eq] at hto
    rw [visible_payload _ (Or.inr hmine), hmine, recipient_team hk hm hw hto.1, hto.1]
    simp only [beq_self_eq_true, Option.isSome_some, Bool.and_self]
  · rw [Bool.eq_false_iff.mpr hmine]
    simp only [Bool.and_false, Bool.false_and]

/-- In a channel. -/
theorem wakes_channel {c : Uuid} {name : String} (hk : Keys db) (hm : Consistent db m.toMessage)
    (hw : Window db auth (.Channel c name)) :
    wakes auth (.Channel c name) focus ⟨notify_message m⟩ =
      counted announce auth (.Channel c name) focus m.toMessage := by
  rw [wakes_eq]
  unfold in_scope counted
  by_cases hin : m.channel_id = some c
  · have hone := hm.targeted.one
    have hdirect : m.recipient_agent_id = none := by
      rw [hin, Option.isSome_some] at hone
      rw [← Option.not_isSome_iff_eq_none]
      intro hsome
      rw [hsome] at hone
      cases hone
    rw [visible_payload .All (Or.inl hdirect), channel_team hk hm hw hin]
    simp only [notify_message, beq_self_eq_true, Bool.true_and]
  · have hout : (m.channel_id == some c) = false := beq_eq_false_iff_ne.mpr hin
    simp only [notify_message, hout, Bool.and_false, Bool.false_and]

/-- The filter is the clause. -/
theorem wakes_counted (hk : Keys db) (hm : Consistent db m.toMessage) (hw : Window db auth scope)
    (ha : announce m.toMessage = m.announce) :
    wakes auth scope focus ⟨notify_message m⟩ = counted announce auth scope focus m.toMessage := by
  cases scope with
  | All => exact wakes_all hm.targeted ha
  | Inbox => exact wakes_inbox hk hm hw
  | Channel c name => exact wakes_channel hk hm hw

/-- The loop reports what the filter lets through, -/
theorem hear_message (hwants : wants kinds "message" = true) (hdescribe : describe names ⟨notify_message m⟩ = some d) :
    hear ⟨auth, scope, focus, kinds⟩ names ⟨notify_message m⟩ =
      (if wakes auth scope focus ⟨notify_message m⟩ = true then .message d else .skip) := by
  have hkind : BusEvent.kind ⟨notify_message m⟩ = "message" := rfl
  unfold hear wakes
  simp only [hkind, hwants, hdescribe, bne_self_eq_false, beq_self_eq_true]
  cases BusEvent.visible_to ⟨notify_message m⟩ auth.team_id auth.agent_id auth.session <;>
    cases in_scope ⟨notify_message m⟩ scope focus auth <;> cases own_message ⟨notify_message m⟩ auth <;> rfl

/-- and so does the grace window. -/
theorem batched_message
    (hwants : wants kinds "message" = true) (hdescribe : describe names ⟨notify_message m⟩ = some d) :
    batched ⟨auth, scope, focus, kinds⟩ names ⟨notify_message m⟩ =
      (if wakes auth scope focus ⟨notify_message m⟩ = true then some d else none) := by
  have hkind : BusEvent.kind ⟨notify_message m⟩ = "message" := rfl
  unfold batched wakes
  rw [hkind, hwants, hdescribe, beq_self_eq_true, Bool.true_and, Bool.and_true]

/-- A message that was just posted, and a scope that was just resolved. -/
theorem wakes_posted {t : CaseTable} {now id : ℕ} {sender : AuthCtx} {input : PostInput} {names : List String}
    {raw : String} (hk : Keys db) (hagent : ∃ x ∈ db.db.agents, x.id = auth.agent_id ∧ x.team_id = auth.team_id)
    (hpost : post_message t now id sender input db = .ok (m, names))
    (hscope : resolve_scope t auth raw db.channels = .ok scope) (ha : announce m.toMessage = m.announce) :
    wakes auth scope focus ⟨notify_message m⟩ = counted announce auth scope focus m.toMessage :=
  wakes_counted hk (posted_consistent hpost) (resolved_window hagent hscope) ha

/-! ## What wakes is what is counted -/

/-- **What wakes a wait is what counts as its backlog.** A message past the cursor is one
that the wake filter lets through just where its row is one of those `unread_in_scope`
counts, so that the count is one more with it; and the wait, in its loop and in its grace
window, reports it just there. -/
theorem backlog_is_what_wakes {names : Names} {kinds : Option (List String)} {d : WaitEvent} {rows : Db}
    (hk : Keys db) (hm : Consistent db m.toMessage) (hw : Window db auth scope)
    (ha : announce m.toMessage = m.announce) (hpast : cursor_of (view_of auth scope false) rows < m.id) :
    (wakes auth scope focus ⟨notify_message m⟩ = true ↔
      counted announce auth scope focus m.toMessage = true) ∧
    unread_in_scope announce auth scope focus { rows with messages := insert_into m.toMessage rows.messages } =
      unread_in_scope announce auth scope focus rows +
        (if wakes auth scope focus ⟨notify_message m⟩ = true then 1 else 0) ∧
    (wants kinds "message" = true → describe names ⟨notify_message m⟩ = some d →
      hear ⟨auth, scope, focus, kinds⟩ names ⟨notify_message m⟩ =
        (if counted announce auth scope focus m.toMessage = true then .message d else .skip) ∧
      batched ⟨auth, scope, focus, kinds⟩ names ⟨notify_message m⟩ =
        (if counted announce auth scope focus m.toMessage = true then some d else none)) := by
  have heq : wakes auth scope focus ⟨notify_message m⟩ = counted announce auth scope focus m.toMessage :=
    wakes_counted hk hm hw ha
  refine ⟨by rw [heq], ?_, fun hwants hdescribe => ?_⟩
  · unfold unread_in_scope insert_into
    -- The cursor is not among the messages.
    have hcursor : cursor_of (view_of auth scope false) { rows with messages := rows.messages ++ [m.toMessage] } =
        cursor_of (view_of auth scope false) rows := rfl
    rw [hcursor, List.filter_append, List.length_append, heq, List.filter_singleton, decide_eq_true hpast,
      Bool.and_true]
    by_cases hc : counted announce auth scope focus m.toMessage = true
    · rw [if_pos hc, hc]
      rfl
    · rw [if_neg hc, Bool.eq_false_iff.mpr hc]
      rfl
  · rw [← heq]
    exact ⟨hear_message hwants hdescribe, batched_message hwants hdescribe⟩

end Payload

/-! ## A call from the hall -/

/-- A crew of one, with a channel. -/
def crew : PostDb :=
  { db := { agents := [⟨1, 1, "ada", none⟩] }, channels := [⟨5, 1, "dev", none, none, 0⟩] }

/-- Ada announces in `#dev`, from the hall. -/
def call : Post :=
  { message_row hall (.channel 5) "release at noon" 7 with
    reply_to := none, question := false, announce := true, created_at := 0 }

/-- How it is told. -/
def told_call : Names := ⟨fun _ => some ("ada", some "dev", none, "release at noon"), fun _ => none⟩

/-- At her desk, busy with another channel, it wakes her and is one more unread. -/
theorem backlog_is_what_wakes_call :
    wakes ada_at_desk .All (some 9) ⟨notify_message call⟩ = true ∧
    unread_in_scope (fun _ => true) ada_at_desk .All (some 9) { messages := [call.toMessage] } = 1 ∧
    hear ⟨ada_at_desk, .All, some 9, none⟩ told_call ⟨notify_message call⟩ =
      .message ⟨"message", "ada → #dev: release at noon"⟩ := by
  have hconsistent : Consistent crew call.toMessage :=
    ⟨targeted_row (.channel 5) "release at noon" 7, fun a h => absurd h (by simp [call, message_row]),
      fun c h => ⟨⟨5, 1, "dev", none, none, 0⟩, by decide, Option.some.inj h, rfl⟩⟩
  have hwindow : Window crew ada_at_desk .All := ⟨⟨⟨1, 1, "ada", none⟩, by decide, rfl, rfl⟩, fun _ _ h => absurd h (by simp)⟩
  have hboth := @backlog_is_what_wakes (fun _ => true) ada_at_desk .All (some 9) crew call told_call none
    ⟨"message", "ada → #dev: release at noon"⟩ {}
    ⟨by decide, by decide⟩ hconsistent hwindow rfl (by decide)
  have hcounted : counted (fun _ => true) ada_at_desk .All (some 9) call.toMessage = true := by decide
  have hwakes := hboth.1.mpr hcounted
  have hcount := hboth.2.1
  rw [if_pos hwakes] at hcount
  refine ⟨hwakes, hcount, ?_⟩
  have hhear := (hboth.2.2 (by decide) (by decide)).1
  rw [if_pos hcounted] at hhear
  exact hhear

end CrewSync.Wakes
