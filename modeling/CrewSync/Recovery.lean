/-
Recovering the history of an agent whose windows are gone, over whole runs.

What an agent could once read is a matter of the past: at some moment one of its
seats was taken, its history began before the message, and the message was there.
`recover_history` has only the row as it is now. It asks that the seat was taken
once (`accepted_at`), that it is not removed, and that its present boundary lies
before the message. It does not ask when the seat was last active. So a seat that
has been left since recovers what was said after it, and one that has been offered
again, and not answered, recovers from the boundary of the offer.

The law holds where neither matters (`kept_up`): each seat that counts was active,
not removed since, with a boundary no later than its present one, when the thread
had already come as far as it has now.
-/
import CrewSync.History
import CrewSync.Invitations
import CrewSync.Sequence

set_option autoImplicit false

namespace CrewSync.Recovery

open Error Schema Rows
open Conversations Send History
open Runs Seats Sequence Crew

/-! ## The system -/

/-- One call of `recover_history`. `served` is the pool after its commit. -/
structure Recover where
  seen : ℕ
  now : ℕ
  auth : AuthCtx
  id : Uuid
  after_seq : Option ℤ
  limit : Option ℤ
  served : Db

/-- What can happen next. The state is that of the seats: the database, and every
database committed before it. -/
inductive Act where
  /-- A seat is offered, taken, given up, taken away or handed over, a thread is
  opened, or another part of the server commits. -/
  | seats (a : Seats.Act)
  | send (c : SendCall)
  | recover_history (r : Recover)

/-- No other part of the server adds or deletes a message, or counts. -/
def outside (s : Seats.Sys) : Seats.Act → Bool
  | .other db' => leaves_messages s.db db'
  | _ => true

section Steps

variable (sha256 : String → String) (fetched : Backend → Locator → Uuid → Fetched)

/-- What a recovery answers. It writes nothing but an audit row. -/
def recovered (s : Seats.Sys) (r : Recover) : Option (BusResult ConversationRead) :=
  (s.view r.seen).map fun v =>
    recover_history fetched r.now v s.db r.served r.auth r.id r.after_seq r.limit

/-- One step. -/
def step (s : Seats.Sys) : Act → Option Seats.Sys
  | .seats a => if outside s a then Seats.step s a else none
  | .send c => do
    let v ← s.view c.seen
    pure (s.commit (send sha256 c.now v c.auth c.id c.input c.message_id c.publish_key s.db)
      fun _ ps => ps)
  | .recover_history r => (recovered fetched s r).map fun _ => s

end Steps

/-! ## What could once be read -/

/-- How far thread `id` has come. -/
def thread_seq (id : Uuid) (db : Db) : ℕ :=
  ((one (fun c => c.id == id) db.conversations).map Conversation.last_seq).getD 0

/-- In this database, seat `m` of the agent lets it read message `seq` of thread `id`. -/
structure Reads (id agent_id : Uuid) (seq : ℕ) (m : ConversationMembership) (db : Db) : Prop where
  seat : m ∈ db.conversation_memberships
  thread : m.conversation_id = id
  agent : m.agent_id = agent_id
  taken : m.accepted_at.isSome = true ∧ m.state = .active
  there : seq ≤ thread_seq id db
  floor : floor m < seq

/-- At some moment up to now a seat of the agent could read the message, and that seat
has not been removed since. -/
def ReadOnce (s : Seats.Sys) (id agent_id : Uuid) (seq : ℕ) : Prop :=
  ∃ newer db older m, s.db :: s.past = newer ++ db :: older ∧ Reads id agent_id seq m db ∧
    ∀ x ∈ newer, ∀ m' ∈ x.conversation_memberships, m'.id = m.id → m'.state ≠ .removed

/-- The boundary of seat `k` and how far its thread had come, at each moment it was
active, from the latest back to its last removal. -/
def seatings (k : Uuid) : List Db → List (ℕ × ℕ)
  | [] => []
  | db :: older =>
    match seat k db with
    | none => []
    | some m =>
      match m.state with
      | .removed => []
      | .active =>
        if m.accepted_at.isSome then (floor m, thread_seq m.conversation_id db) :: seatings k older
        else seatings k older
      | _ => seatings k older

/-- A seat of the agent that `recover_history` goes through. -/
def counts (id agent_id : Uuid) (me : ConversationMembership) : Bool :=
  me.conversation_id == id && me.agent_id == agent_id && me.state != .removed &&
    me.accepted_at.isSome

/-- Nothing lies above the seat's boundary, or the seat was active, not removed since,
with a boundary no later than now, when the thread had come as far as now. -/
def kept_up (s : Seats.Sys) (id : Uuid) (me : ConversationMembership) : Bool :=
  thread_seq id s.db ≤ floor me ||
    (seatings me.id (s.db :: s.past)).any fun p => p.1 ≤ floor me && thread_seq id s.db ≤ p.2

/-- A recovery finds every seat it goes through kept up. -/
def heeds_the_past (s : Seats.Sys) : Act → Bool
  | .recover_history r =>
    s.db.conversation_memberships.all fun me => !counts r.id r.auth.agent_id me || kept_up s r.id me
  | _ => true

section Past

variable {k : Uuid} {p : ℕ × ℕ}

/-- A seating was a moment, and the seat has not been removed since. -/
theorem seatings_spec : ∀ {dbs : List Db}, (∀ db ∈ dbs, Keyed ConversationMembership.id
      db.conversation_memberships) → p ∈ seatings k dbs →
    ∃ newer db older m, dbs = newer ++ db :: older ∧ seat k db = some m ∧
      m.accepted_at.isSome = true ∧ m.state = .active ∧
      p = (floor m, thread_seq m.conversation_id db) ∧
      ∀ x ∈ newer, ∀ m' ∈ x.conversation_memberships, m'.id = k → m'.state ≠ .removed := by
  intro dbs
  induction dbs with
  | nil => exact fun _ hp => absurd hp List.not_mem_nil
  | cons db dbs ih =>
    intro hkeys hp
    have hkeyed := hkeys db List.mem_cons_self
    have hrest := fun x hx => hkeys x (List.mem_cons_of_mem _ hx)
    -- an older moment stays one, if the seat is not removed in this database
    have holder : ∀ m, seat k db = some m → m.state ≠ .removed → p ∈ seatings k dbs →
        ∃ newer x older m, db :: dbs = newer ++ x :: older ∧ seat k x = some m ∧
          m.accepted_at.isSome = true ∧ m.state = .active ∧
          p = (floor m, thread_seq m.conversation_id x) ∧
          ∀ y ∈ newer, ∀ m' ∈ y.conversation_memberships, m'.id = k → m'.state ≠ .removed := by
      intro m hm hne hp
      obtain ⟨newer, x, older, m₀, rfl, h1, h2, h3, h4, h5⟩ := ih hrest hp
      refine ⟨db :: newer, x, older, m₀, rfl, h1, h2, h3, h4, fun y hy => ?_⟩
      rcases List.mem_cons.mp hy with rfl | hy
      · intro m' hm' hid
        have heq : m' = m := Option.some.inj ((hkeyed.one_iff.mpr ⟨hm', hid⟩).symm.trans hm)
        rw [heq]
        exact hne
      · exact h5 y hy
    unfold seatings at hp
    cases hm : seat k db with
    | none =>
      rw [hm] at hp
      exact absurd hp List.not_mem_nil
    | some m =>
      rw [hm] at hp
      simp only at hp
      cases hst : m.state with
      | removed =>
        rw [hst] at hp
        exact absurd hp List.not_mem_nil
      | active =>
        rw [hst] at hp
        simp only at hp
        split at hp
        · rename_i hacc
          rcases List.mem_cons.mp hp with rfl | hp
          · exact ⟨[], db, dbs, m, rfl, hm, hacc, hst, rfl, fun x hx => absurd hx List.not_mem_nil⟩
          · exact holder m hm (by rw [hst]; decide) hp
        · exact holder m hm (by rw [hst]; decide) hp
      | invited | left =>
        rw [hst] at hp
        exact holder m hm (by rw [hst]; decide) hp

end Past

/-! ## The invariant -/

/-- What holds in every reachable state: the seats are in order, now and in the past,
and the threads have counted their messages. -/
structure Good (s : Seats.Sys) : Prop where
  seats : Seats.Inv s
  past : ∀ db ∈ s.past, Tidy db.conversation_memberships
  messages : Sequence.Inv s.db

section Invariant

variable {sha256 : String → String} {fetched : Backend → Locator → Uuid → Fetched}
  {s t : Seats.Sys}

/-- A send leaves the seats alone. -/
theorem send_seats {now : ℕ} {v db db' : Db} {auth : AuthCtx} {id message_id key : Uuid}
    {input : SendInput} {r : SentMessage} (h : send sha256 now v auth id input message_id key db = .ok (r, db')) :
    db'.conversation_memberships = db.conversation_memberships := by
  rcases send_ok h with rfl | ⟨c, body, -, -, -, -, ⟨-, rfl⟩ | ⟨-, hq⟩⟩
  · rfl
  · rfl
  · rw [enqueue_ok hq]
    rfl

/-- Seats change hands without a message being written. -/
theorem messages_step {a : Seats.Act} (hs : Sequence.Inv s.db) (hout : outside s a = true)
    (h : Did s a t) : Sequence.Inv t.db := by
  cases h with
  | refused => exact hs
  | create_conversation hok =>
    obtain ⟨hacc, hcount, hnew⟩ := opens_thread hok
    exact hs.opened hacc hcount hnew
  | invite _ hok =>
    obtain ⟨r, agent_id, session, c, inviter, -, -, -, -, -, rfl⟩ := invite_ok hok
    exact hs.congr rfl rfl
  | join hok =>
    obtain ⟨m, -, -, rfl⟩ := join_ok hok
    exact hs.congr rfl rfl
  | leave hok =>
    rw [leave_ok hok]
    exact hs.congr rfl rfl
  | remove_member _ hok =>
    obtain ⟨agent_id, session, m, -, -, -, -, rfl⟩ := remove_member_ok hok
    exact hs.congr rfl rfl
  | transfer_membership _ hok =>
    obtain ⟨acc, mine, m, session, -, -, -, -, -, -, -, -, -, rfl⟩ := transfer_membership_ok hok
    exact hs.congr rfl rfl
  | other _ =>
    simp only [outside, leaves_messages, Bool.and_eq_true, beq_iff_eq] at hout
    exact hs.congr hout.1 hout.2

theorem Good.step (hs : Good s) {a : Act} (h : Rel (step sha256 fetched) s a t) : Good t := by
  unfold Runs.Rel at h
  cases a with
  | seats a =>
    simp only [Recovery.step, Option.ite_none_right_eq_some] at h
    obtain ⟨hout, hstep⟩ := h
    have hdid := step_did hstep
    refine ⟨hs.seats.step hstep, ?_, messages_step hs.messages hout hdid⟩
    rcases hdid.past with rfl | hpast
    · exact hs.past
    · rw [hpast]
      intro db hdb
      rcases List.mem_cons.mp hdb with rfl | hdb
      · exact hs.seats.tidy
      · exact hs.past db hdb
  | send c =>
    rcases commit_cases h with rfl | ⟨v, r, db', -, hok, rfl⟩
    · exact hs
    · have hsame := send_seats hok
      refine ⟨⟨?_, ?_⟩, ?_, ?_⟩
      · show Tidy db'.conversation_memberships
        rw [hsame]
        exact hs.seats.tidy
      · intro db hdb
        show Kept db.conversation_memberships db'.conversation_memberships
        rw [hsame]
        rcases List.mem_cons.mp hdb with rfl | hdb
        · exact Kept.refl _
        · exact hs.seats.past db hdb
      · intro db hdb
        rcases List.mem_cons.mp hdb with rfl | hdb
        · exact hs.seats.tidy
        · exact hs.past db hdb
      · exact hs.messages.sent (send_did hok)
  | recover_history r =>
    obtain ⟨_, -, rfl⟩ := Option.map_eq_some_iff.mp h
    exact hs

/-- A message of a thread is no further than the thread has come. -/
theorem seq_le_thread {db : Db} (hs : Sequence.Inv db) {x : ConversationMessage}
    (hx : x ∈ db.conversation_messages) : x.seq ≤ thread_seq x.conversation_id db := by
  obtain ⟨k, hk, hhome⟩ := hs.homes (ident x) (List.mem_map_of_mem hx)
  obtain ⟨c, hc, rfl⟩ := List.mem_map.mp hk
  have hin : x.seq ∈ seqs c.id (accepted db) := by
    refine List.mem_map.mpr ⟨ident x, List.mem_filter.mpr ⟨List.mem_map_of_mem hx, ?_⟩, rfl⟩
    exact beq_iff_eq.mpr hhome.symm
  have hrange := (hs.gapless _ hk).mem_iff.mp hin
  rw [List.mem_range'_1] at hrange
  have hkeyed : Keyed Conversation.id db.conversations := by
    have hthreads := hs.threads
    unfold Keyed counters at hthreads
    rw [List.map_map] at hthreads
    exact hthreads
  have hone : one (fun c => c.id == x.conversation_id) db.conversations = some c :=
    hkeyed.one_iff.mpr ⟨hc, hhome⟩
  rw [thread_seq, hone, Option.map_some, Option.getD_some]
  simp only at hrange
  omega

end Invariant

/-! ## The law -/

/-- Every message a recovery of the run returned was once readable. -/
def RecoveryLaw (fetched : Backend → Locator → Uuid → Fetched)
    (tr : List (Trans Seats.Sys Act)) : Prop :=
  ∀ e ∈ tr, ∀ r, e.act = .recover_history r → ∀ res, recovered fetched e.pre r = some (.ok res) →
    ∀ m ∈ res.messages, ReadOnce e.pre r.id r.auth.agent_id m.seq

section Law

variable {sha256 : String → String} {fetched : Backend → Locator → Uuid → Fetched}
  {s₀ s : Seats.Sys} {tr : List (Trans Seats.Sys Act)}

/-- **Recovery returns what was once readable**, in every run whose recoveries find the
seats they go through kept up. -/
theorem recovery_was_readable (h₀ : Good s₀) (h : Run (Rel (step sha256 fetched)) s₀ tr s)
    (hC : ∀ e ∈ tr, heeds_the_past e.pre e.act = true) : RecoveryLaw fetched tr := by
  have hpre : ∀ e ∈ tr, Good e.pre :=
    h.invariant_pre (C := fun _ _ => True) h₀ (fun _ _ _ hs _ hr => hs.step hr) fun _ _ => trivial
  intro e he r hact res hres m hm
  have hs := hpre e he
  have hc := hC e he
  rw [hact] at hc
  obtain ⟨v, -, hok⟩ := Option.map_eq_some_iff.mp hres
  obtain ⟨x, hx, hthread, hseq, me, hme, hrec⟩ := recover_history_rows hok m hm
  rw [hseq]
  have hle := seq_le_thread hs.messages hx
  rw [hthread] at hle
  simp only [recovers, Bool.and_eq_true, beq_iff_eq, bne_iff_ne, decide_eq_true_eq] at hrec
  obtain ⟨⟨⟨⟨hmeid, hmeagent⟩, hmestate⟩, hmeacc⟩, hfloor⟩ := hrec
  have hcounts : counts r.id r.auth.agent_id me = true := by
    simp [counts, hmeid, hmeagent, hmestate, hmeacc]
  have hkept := List.all_eq_true.mp hc me hme
  simp only [hcounts, Bool.not_true, Bool.false_or, kept_up, Bool.or_eq_true, decide_eq_true_eq,
    List.any_eq_true, Bool.and_eq_true] at hkept
  rcases hkept with hnone | ⟨p, hp, hbefore, hfar⟩
  · -- nothing lies above the boundary
    have : floor me < x.seq := hfloor
    omega
  · have hkeys : ∀ db ∈ e.pre.db :: e.pre.past,
        Keyed ConversationMembership.id db.conversation_memberships := by
      intro db hdb
      rcases List.mem_cons.mp hdb with rfl | hdb
      · exact hs.seats.tidy.ids
      · exact (hs.past db hdb).ids
    obtain ⟨newer, db, older, y, hsplit, hy, hacc, hactive, rfl, hstays⟩ := seatings_spec hkeys hp
    obtain ⟨hyin, hyid⟩ := (hkeys db (by rw [hsplit]; simp)).one_iff.mp hy
    -- the seat then is the seat now
    have hsame : Same y me := by
      have hkept : Kept db.conversation_memberships e.pre.db.conversation_memberships := by
        have hin : db ∈ e.pre.db :: e.pre.past := by
          rw [hsplit]
          simp
        rcases List.mem_cons.mp hin with rfl | hin
        · exact Kept.refl _
        · exact hs.seats.past db hin
      obtain ⟨y', hy', hsame⟩ := hkept y hyin
      rw [← hs.seats.tidy.ids.eq hy' hme (hsame.1.trans hyid)]
      exact hsame
    have hhome := hsame.2
    simp only [home, Prod.mk.injEq] at hhome
    have hythread : y.conversation_id = r.id := hhome.1.symm.trans hmeid
    rw [hythread] at hfar
    refine ⟨newer, db, older, y, hsplit, ⟨hyin, hythread, hhome.2.1.symm.trans hmeagent,
      ⟨hacc, hactive⟩, Nat.le_trans hle hfar, ?_⟩, ?_⟩
    · have : floor me < x.seq := hfloor
      simp only at hbefore
      omega
    · rw [hyid]
      exact hstays

end Law

/-! ## A run -/

/-- A team of two agents. -/
def crew : Db := pair .postgres

theorem crew_good : Good (Sys.start crew) :=
  ⟨start_inv ⟨by decide, by decide⟩, fun _ hdb => absurd hdb List.not_mem_nil,
    ⟨by decide, by decide, by decide, by decide⟩⟩

/-- A broker that holds nothing. -/
def no_broker (_ : Backend) (_ : Locator) (_ : Uuid) : Fetched := .gone

/-- Ada opens a thread with Bob, who joins. -/
def opens : List Act :=
  [.seats (.create_conversation 0 0 ada ⟨none, true, ["bob/hall"]⟩ 7 10 [11]),
    .seats (.join 0 0 bob_in_hall 7)]

/-- Ada says hello to the thread. -/
def hello : Act := .send ⟨0, 0, ada, 7, ⟨"hello", 1, none⟩, 1, 0⟩

/-- Bob's caller leaves it. -/
def leaves : Act := .seats (.leave 0 0 bob_in_hall 7)

/-- The pool in which the body is looked up again. -/
def pool : Db :=
  { conversation_messages := [⟨1, 7, 1, 1, "", "hello", none, 1, 0, none, .stored, none, none, none,
      none, some "hello", .postgres⟩] }

/-- Bob recovers the thread. -/
def bobs_call : Recover := ⟨0, 0, caller 2 "bob" "", 7, none, none, pool⟩

theorem left_after_run : (exec (step digest no_broker) (Sys.start crew)
    (opens ++ [hello, leaves, .recover_history bobs_call])).isSome = true := by decide

theorem recovery_was_readable_left_after : RecoveryLaw no_broker
    ((exec (step digest no_broker) (Sys.start crew)
      (opens ++ [hello, leaves, .recover_history bobs_call])).get left_after_run).1 :=
  recovery_was_readable crew_good (exec_get left_after_run) (by decide)

/-! ## What was said after -/

theorem left_before_run : (exec (step digest no_broker) (Sys.start crew)
    (opens ++ [leaves, hello, .recover_history bobs_call])).isSome = true := by decide

/-- The run in which Bob leaves before anything is said, and where it ends. -/
def left_before : List (Trans Seats.Sys Act) × Seats.Sys :=
  (exec (step digest no_broker) (Sys.start crew)
    (opens ++ [leaves, hello, .recover_history bobs_call])).get left_before_run

/-- What came back holds the message under this number. -/
def returns_seq (seq : ℕ) (res : Option (BusResult ConversationRead)) : Bool :=
  match res with
  | some (.ok r) => r.messages.any fun m => m.seq == seq
  | _ => false

/-- Bob recovers what was said after he left. -/
theorem recovers_what_was_never_readable :
    Run (Rel (step digest no_broker)) (Sys.start crew) left_before.1 left_before.2 ∧
      ¬ RecoveryLaw no_broker left_before.1 := by
  refine ⟨exec_get left_before_run, fun hlaw => ?_⟩
  have hlast : ∃ e, left_before.1 = left_before.1.take 4 ++ [e] ∧ e.act = .recover_history bobs_call ∧
      returns_seq 1 (recovered no_broker e.pre bobs_call) = true ∧
      (e.pre.db :: e.pre.past).all (fun db => db.conversation_memberships.all fun m =>
        !(m.agent_id == 2 && m.state == .active && 1 ≤ thread_seq 7 db)) = true :=
    ⟨_, rfl, rfl, by decide, by decide⟩
  obtain ⟨e, hsplit, hact, hres, hnever⟩ := hlast
  have he : e ∈ left_before.1 := by
    rw [hsplit]
    simp
  unfold returns_seq at hres
  split at hres
  · rename_i res hok
    obtain ⟨m, hm, hseq⟩ := List.any_eq_true.mp hres
    obtain ⟨newer, db, older, y, hpast, hreads, -⟩ := hlaw e he bobs_call hact res hok m hm
    rw [beq_iff_eq.mp hseq] at hreads
    have hdb : db ∈ e.pre.db :: e.pre.past := by
      rw [hpast]
      simp
    have hnot := List.all_eq_true.mp (List.all_eq_true.mp hnever db hdb) y hreads.seat
    have hagent : y.agent_id = 2 := hreads.agent
    have hthere : 1 ≤ thread_seq 7 db := hreads.there
    simp [hagent, hreads.taken.2, hthere] at hnot
  · exact absurd hres (by decide)

end CrewSync.Recovery
