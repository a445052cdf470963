/-
`unread_in_scope`: how much a wait says is unread, against what the read it points
to would return.

The two are written apart. The read takes the messages of its view past its
cursor. The count takes those past the same cursor again, by a predicate of its
own, and leaves out what its very window sent. For the inbox and for a channel the
two predicates are one. For `all` they are not: the read returns whatever the
caller's agent sent, from whichever of its windows, and the count only looks at
channels and at what is addressed to this window. A direct message that another
window of the agent sent to somebody else is returned by the read and was never
counted.

`announce` stands for the column of that name, which nothing else here reads.
-/
import CrewSync.Incremental

set_option autoImplicit false

namespace CrewSync.Unread

open Schema Rows Messaging Cursors Runs Crew

/-! ## The count -/

/-- `m.sender_agent_id = $1 AND COALESCE(m.sender_session, '') = $3`: what this very
window sent. -/
def own (auth : AuthCtx) (m : Message) : Bool :=
  m.sender_agent_id == auth.agent_id && m.sender_session.getD "" == auth.session

section Count

variable (announce : Message → Bool)

/-- The `WHERE` clause of the count, but for the cursor. -/
def counted (auth : AuthCtx) (scope : Scope) (focus : Option Uuid) (m : Message) : Bool :=
  match scope with
  | .All => m.team_id == auth.team_id && !own auth m &&
      (m.channel_id.isSome && (focus.isNone || m.channel_id == focus || announce m) ||
        (view_of auth .All false).addressed m)
  | .Inbox => (view_of auth .Inbox false).addressed m && !own auth m
  | .Channel id _ => m.channel_id == some id && !own auth m

/-- `unread_in_scope`. -/
def unread_in_scope (auth : AuthCtx) (scope : Scope) (focus : Option Uuid) (db : Db) : ℕ :=
  (db.messages.filter fun m =>
    counted announce auth scope focus m && cursor_of (view_of auth scope false) db < m.id).length

end Count

/-- What `read_messages` with `only_new` would return now, were its page as long as the
table. -/
def backlog (auth : AuthCtx) (scope : Scope) (db : Db) : List Message :=
  page (view_of auth scope false) (cursor_of (view_of auth scope false) db) db.messages.length db

/-- A direct message that another window of the caller's sent, and not to this one. -/
def sent_elsewhere (auth : AuthCtx) (m : Message) : Bool :=
  m.team_id == auth.team_id && m.channel_id.isNone && m.sender_agent_id == auth.agent_id &&
    !own auth m && !(view_of auth .All false).addressed m

/-- One of these is ahead of the cursor of `all`. -/
def speaks_elsewhere (auth : AuthCtx) (scope : Scope) (db : Db) : Bool :=
  scope == .All && db.messages.any fun m =>
    sent_elsewhere auth m && cursor_of (view_of auth .All false) db < m.id

/-! ## The two predicates -/

section Agreement

variable {announce : Message → Bool} {auth : AuthCtx} {scope : Scope} {db : Db} {m : Message}

/-- What is counted is returned, and is not the window's own. -/
theorem counted_sees (h : counted announce auth scope none m = true) :
    (view_of auth scope false).sees m = true ∧ own auth m = false := by
  cases scope with
  | All =>
    simp only [counted, Bool.and_eq_true, Bool.or_eq_true, Bool.not_eq_true'] at h
    refine ⟨?_, h.1.2⟩
    simp only [View.sees, view_of, Bool.and_eq_true, Bool.or_eq_true]
    refine ⟨h.1.1, Or.inl ?_⟩
    rcases h.2 with ⟨hchannel, -⟩ | haddressed
    · exact Or.inl hchannel
    · exact Or.inr haddressed
  | Inbox | Channel id name => simpa [counted, View.sees, view_of] using h

/-- What is returned is counted, unless the window sent it, or another window did and to
somebody else. -/
theorem counted_or_elsewhere (h : (view_of auth scope false).sees m = true) (hown : own auth m = false) :
    counted announce auth scope none m = true ∨ scope = .All ∧ sent_elsewhere auth m = true := by
  cases scope with
  | All =>
    by_cases hc : counted announce auth .All none m = true
    · exact Or.inl hc
    · simp only [View.sees, view_of, Bool.and_eq_true, Bool.or_eq_true] at h
      simp only [counted, view_of, Option.isNone_none, Bool.true_or, Bool.and_true, Bool.and_eq_true,
        Bool.or_eq_true, hown, Bool.not_false, not_and, not_or, Bool.not_eq_true] at hc
      obtain ⟨hchannel, haddressed⟩ := hc h.1
      have hsender : (m.sender_agent_id == auth.agent_id) = true := by
        rcases h.2 with (hin | hin) | hin
        · exact absurd (hin.symm.trans hchannel) (by decide)
        · exact absurd (hin.symm.trans haddressed) (by decide)
        · exact hin
      have hdirect : m.channel_id.isNone = true := by simpa using hchannel
      refine Or.inr ⟨rfl, ?_⟩
      simp only [sent_elsewhere, view_of, h.1, hdirect, hsender, hown, haddressed, Bool.not_false, Bool.and_self]
  | Inbox | Channel id name => exact Or.inl (by simpa [counted, View.sees, view_of, hown] using h)

/-- What another window sent to somebody else is returned. -/
theorem sent_elsewhere_sees (h : sent_elsewhere auth m = true) :
    (view_of auth .All false).sees m = true ∧ own auth m = false ∧
      counted announce auth .All none m = false := by
  simp only [sent_elsewhere, Bool.and_eq_true, Bool.not_eq_true'] at h
  obtain ⟨⟨⟨⟨hteam, hdirect⟩, hsender⟩, hown⟩, haddressed⟩ := h
  refine ⟨?_, hown, ?_⟩
  · simp only [View.sees, view_of, hteam, hsender, Bool.or_true, Bool.and_self]
  · have hchannel : m.channel_id.isSome = false := by simpa using hdirect
    simp only [counted, hchannel, haddressed, Bool.false_and, Bool.or_self, Bool.and_false]

/-- The backlog, less the window's own, counted over the table. -/
theorem length_backlog : ((backlog auth scope db).filter fun m => !own auth m).length =
    (db.messages.filter fun m => (view_of auth scope false).sees m && !own auth m &&
      cursor_of (view_of auth scope false) db < m.id).length := by
  unfold backlog page
  have hperm := perm_select (fun m => (view_of auth scope false).sees m &&
    decide (cursor_of (view_of auth scope false) db < m.id)) Message.id db.messages
  rw [List.take_of_length_le (hperm.length_eq.le.trans (List.length_filter_le _ _)),
    (hperm.filter _).length_eq, List.filter_filter]
  refine congrArg List.length (List.filter_congr fun m _ => ?_)
  rw [← Bool.and_assoc, Bool.and_comm (!own auth m)]

/-- **The unread count is what the read would return**, less what this very window sent, just
where no other window of its agent has sent a direct message to somebody else that is still
ahead of the cursor of `all`. -/
theorem unread_is_what_is_returned :
    unread_in_scope announce auth scope none db = ((backlog auth scope db).filter fun m => !own auth m).length ↔
      speaks_elsewhere auth scope db = false := by
  rw [length_backlog, unread_in_scope, ← List.countP_eq_length_filter, ← List.countP_eq_length_filter,
    eq_comm, countP_eq_iff]
  · constructor
    · intro hall
      by_contra hspeaks
      simp only [Bool.not_eq_false, speaks_elsewhere, Bool.and_eq_true, beq_iff_eq, List.any_eq_true] at hspeaks
      obtain ⟨rfl, m, hm, helse, hlt⟩ := hspeaks
      obtain ⟨hsees, hown, hnot⟩ := sent_elsewhere_sees helse
      have hc := hall m hm (by simp only [hsees, hown, hlt, Bool.not_false, Bool.and_self])
      rw [hnot] at hc
      exact absurd hc (by simp)
    · intro hspeaks m hm hq
      simp only [Bool.and_eq_true, Bool.not_eq_true'] at hq
      obtain ⟨⟨hsees, hown⟩, hlt⟩ := hq
      rcases counted_or_elsewhere hsees hown with hc | ⟨rfl, helse⟩
      · rw [hc, hlt]
        rfl
      · rw [Bool.eq_false_iff] at hspeaks
        refine absurd ?_ hspeaks
        simp only [speaks_elsewhere, beq_self_eq_true, Bool.true_and, List.any_eq_true]
        exact ⟨m, hm, by rw [helse, hlt]; rfl⟩
  · intro m _ hp
    rw [Bool.and_eq_true] at hp
    obtain ⟨hsees, hown⟩ := counted_sees hp.1
    rw [hsees, hown, hp.2]
    rfl

end Agreement

/-! ## A word to somebody else -/

/-- Ada in the hall. -/
def hall : AuthCtx := caller 1 "ada" "hall"

/-- Ada writes to Bob, from the hall. -/
def word : List Cursors.Act := [.insert hall (.direct 2 none) "lunch?" 0, .commit 1]

theorem word_run : (exec (Cursors.step fun _ => 1) (Incremental.Sys.start {} 1) word).isSome = true := by
  decide

/-- The run, and where it ends. -/
def word_end : List (Trans Cursors.Sys Cursors.Act) × Cursors.Sys :=
  (exec (Cursors.step fun _ => 1) (Incremental.Sys.start {} 1) word).get word_run

/-- At her desk nothing is unread, and the read returns what she said in the hall. -/
theorem unread_is_not_what_is_returned :
    Run (Rel (Cursors.step fun _ => 1)) (Incremental.Sys.start {} 1) word_end.1 word_end.2 ∧
      unread_in_scope (fun _ => false) ada_at_desk .All none word_end.2.db = 0 ∧
      ((backlog ada_at_desk .All word_end.2.db).filter fun m => !own ada_at_desk m).length = 1 ∧
      unread_in_scope (fun _ => false) ada_at_desk .All none word_end.2.db ≠
        ((backlog ada_at_desk .All word_end.2.db).filter fun m => !own ada_at_desk m).length :=
  ⟨exec_get word_run, by decide, by decide, by decide⟩

end CrewSync.Unread
