/-
Whether the views of a thread agree on what its reader may see.

Who may see a thread is said twice: in `access`, and again in SQL where
`list_candidates` looks for the threads of a caller. Where a reader's history begins is
said three times, in `read`, `get_message` and `receipts`. They agree, in every state
the server reaches, and with two provisos that the code makes on purpose. A thread that
is archived is left out of the list, and told to whoever asks for it by name. And the
pages of `read` do not go on behind a message that still awaits publication: a caller who
follows `next_after_seq` comes to it again and again, and to no more than one page from
there.

A run is one of `Reach`, in which nothing else counts a thread, adds a message to it or
changes who opened it.
-/
import CrewSync.Listing
import CrewSync.Paging
import CrewSync.Reach

set_option autoImplicit false

namespace CrewSync.ThreadViews

open Error Schema Rows Sessions
open Conversations History Listing Runs
open Seats (seat_caller)
open Sequence (accepted counters leaves_messages)
open Reach (Act genuine)

/-! ## The system -/

/-- Who opened each thread. -/
def creators (db : Db) : List (Uuid × Uuid) := db.conversations.map fun c => (c.id, c.created_by)

/-- No statement outside this system adds a message, counts, or opens a thread. -/
def leaves_threads (db db' : Db) : Bool := leaves_messages db db' && creators db' == creators db

section Steps

variable (sha256 : String → String)

/-- One step. -/
def step (s : Seats.Sys) (a : Act) : Option Seats.Sys :=
  match a with
  | .other db' => if leaves_threads s.db db' then Reach.step sha256 s (.other db') else none
  | a => Reach.step sha256 s a

end Steps

/-! ## The threads -/

/-- Messages are numbered, and a thread was opened by an agent there is. -/
structure Threads (db : Db) : Prop where
  numbered : Sequence.Inv db
  opened : ∀ c ∈ db.conversations, ∃ a ∈ db.agents, a.id = c.created_by

section Threads

variable {sha256 : String → String} {s t : Seats.Sys} {a : Act} {db db' : Db} {now : ℕ} {v : Db} {auth : AuthCtx}
  {id : Uuid}

theorem step_reach (h : Rel (step sha256) s a t) : Rel (Reach.step sha256) s a t := by
  simp only [Runs.Rel, step] at h ⊢
  split at h
  · split at h
    · exact h
    · cases h
  · exact h

/-- Whoever opened a thread is an agent as long as agents stay. -/
theorem opened_of_creators (h : ∀ c ∈ db.conversations, ∃ a ∈ db.agents, a.id = c.created_by)
    (hcreators : creators db' = creators db) (hagents : ∀ a ∈ db.agents, ∃ a' ∈ db'.agents, a'.id = a.id) :
    ∀ c ∈ db'.conversations, ∃ a ∈ db'.agents, a.id = c.created_by := by
  intro c hc
  have hin : (c.id, c.created_by) ∈ creators db := by
    rw [← hcreators]
    exact List.mem_map_of_mem hc
  obtain ⟨x, hx, heq⟩ := List.mem_map.mp hin
  obtain ⟨a, ha, hid⟩ := h x hx
  obtain ⟨a', ha', hid'⟩ := hagents a ha
  exact ⟨a', ha', hid'.trans (hid.trans (Prod.mk.inj heq).2)⟩

/-- What leaves the messages, the counters and the threads alone keeps them. -/
theorem Threads.still (h : Threads db) (hacc : accepted db' = accepted db)
    (hcount : counters db' = counters db) (hcreators : creators db' = creators db)
    (hagents : ∀ a ∈ db.agents, ∃ a' ∈ db'.agents, a'.id = a.id) : Threads db' :=
  ⟨h.numbered.congr hacc hcount, opened_of_creators h.opened hcreators hagents⟩

theorem Threads.of_creation {input : CreateInput} {k n : Uuid}
    {seats : List Uuid} (h : Threads db) (hgen : genuine auth db = true)
    (hok : create_conversation now v auth input id k seats db = .ok (n, db')) : Threads db' := by
  obtain ⟨hacc, hcount, hnew⟩ := Sequence.opens_thread hok
  refine ⟨h.numbered.opened hacc hcount hnew, ?_⟩
  simp only [genuine, Bool.and_eq_true, Reach.member_of, List.any_eq_true, beq_iff_eq] at hgen
  obtain ⟨-, a, ha, haid, -⟩ := hgen
  simp only [create_conversation, bind_eq_ok, ensure_eq_ok, fetch_eq_ok, pure_eq_ok, Prod.mk.injEq] at hok
  obtain ⟨_, -, _, -, _, -, _, -, _, -, _, -, _, -, _, -, _, -, _, -, _, -, -, rfl⟩ := hok
  exact forall_insert_into h.opened ⟨a, ha, haid⟩

/-- Seats change hands, and threads stay what they are. -/
theorem Threads.seats {a : Seats.Act} (h : Threads s.db)
    (hgen : (seat_caller a).any (fun auth => genuine auth s.db) = true)
    (hstep : Seats.step s a = some t) : Threads t.db := by
  obtain ⟨auth, hcaller, hgen⟩ := (Option.any_eq_true _ _).mp hgen
  rcases Seats.step_seats hstep hcaller with ⟨m, hm⟩ | ⟨now, v, input, id, k, seats, n, hok⟩
  · rw [hm]
    exact h.still rfl rfl rfl fun a ha => ⟨a, ha, rfl⟩
  · exact h.of_creation hgen hok

theorem Threads.send {message_id key : Uuid} {input : Send.SendInput} {r : Send.SentMessage} (h : Threads db)
    (hok : Send.send sha256 now v auth id input message_id key db = .ok (r, db')) : Threads db' := by
  refine ⟨h.numbered.sent (Sequence.send_did hok), ?_⟩
  have hcreators (c : Conversation) (body : String) :
      creators (Send.with_message sha256 now auth c input body message_id db) = creators db := by
    exact map_key_update fun _ => rfl
  rcases Send.send_ok hok with rfl | ⟨c, body, -, -, -, -, ⟨-, rfl⟩ | ⟨-, hqueued⟩⟩
  · exact h.opened
  · exact opened_of_creators h.opened (hcreators c body) fun a ha => ⟨a, ha, rfl⟩
  · obtain rfl := Send.enqueue_ok hqueued
    exact opened_of_creators h.opened (hcreators c body) fun a ha => ⟨a, ha, rfl⟩

theorem Threads.step (h : Threads s.db) (hstep : Rel (step sha256) s a t) : Threads t.db := by
  cases a with
  | seats a =>
    simp only [Runs.Rel, ThreadViews.step, Reach.step] at hstep
    split at hstep
    · exact h.seats ‹_› hstep
    · cases hstep
  | send c =>
    simp only [Runs.Rel, ThreadViews.step, Reach.step] at hstep
    split at hstep
    · cases hstep
    · obtain rfl := Option.some.inj hstep
      unfold Reach.Sys.commit
      split
      · exact h
      · exact h.send ‹_›
  | fetch seen now b answer auth limit =>
    simp only [Runs.Rel, ThreadViews.step, Reach.step] at hstep
    split at hstep
    · cases hstep
    · split at hstep
      · obtain rfl := Option.some.inj hstep
        unfold Reach.Sys.commit
        split
        · exact h
        · rename_i hok
          obtain ⟨q, hq, heq⟩ := map_eq_ok.mp hok
          obtain ⟨l, hl⟩ := Inbox.fetch_delivers hq
          have hdb := (Prod.mk.inj heq).2
          rw [hl] at hdb
          rw [Seats.Sys.after, ← hdb]
          exact h.still rfl rfl rfl fun a ha => ⟨a, ha, rfl⟩
      · cases hstep
  | other db' =>
    simp only [Runs.Rel, ThreadViews.step, Reach.step] at hstep
    split at hstep
    · rename_i hleaves
      split at hstep
      · rename_i haddresses
        obtain rfl := Option.some.inj hstep
        simp only [leaves_threads, leaves_messages, Bool.and_eq_true, beq_iff_eq] at hleaves
        refine h.still hleaves.1.1 hleaves.1.2 hleaves.2 fun a ha => ?_
        simp only [Reach.leaves_addresses, Bool.and_eq_true, List.all_eq_true, List.contains_iff_mem]
          at haddresses
        obtain ⟨x, hx, heq⟩ := List.mem_map.mp (haddresses.1.1.1.2 _ (List.mem_map_of_mem ha))
        exact ⟨x, hx, (Prod.mk.inj heq).1⟩
      · cases hstep
    · cases hstep

end Threads

/-! ## Which threads there are -/

/-- The caller may see the thread. -/
def Sees (auth : AuthCtx) (id : Uuid) (db : Db) (a : Access) : Prop :=
  access auth id db = .ok a ∧ a.can_read = true

/-- The lists of a caller's threads agree with `access`. -/
structure Listed (auth : AuthCtx) (db : Db) : Prop where
  /-- Asked for by name, every thread it may see is told. -/
  told : ∀ id, (∃ i, conversation_info db db auth id = .ok i) ↔ ∃ a, Sees auth id db a
  /-- The list has those that are not archived, or all of them. -/
  listed : require_capability auth db = .ok () → ∀ include_archived, ∃ l,
    list_conversations db (fun _ => (db, db)) auth include_archived = .ok l ∧
      (l.map fun i => i.id).Nodup ∧ ∀ id, id ∈ l.map (fun i => i.id) ↔
        ∃ a, Sees auth id db a ∧ (include_archived = true ∨ a.archived = false)
  /-- A team without conversations lists none. -/
  closed : require_capability auth db ≠ .ok () → ∀ include_archived,
    (list_conversations db (fun _ => (db, db)) auth include_archived).isOk = false

section Lists

variable {auth : AuthCtx} {db : Db} {id : Uuid} {c : Conversation} {a : Access} {include_archived : Bool}

theorem access_iff : access auth id db = .ok a ↔
    ∃ c, one (fun c => c.id == id && c.team_id == auth.team_id) db.conversations = some c ∧
      a = ⟨id, c.visibility, c.archived_at.isSome, c.last_seq,
        (one (is_callers auth id) db.conversation_memberships).map membership_of,
        c.visibility == .project && granted c auth.agent_id db⟩ := by
  simp only [access, bind_eq_ok, fetch_eq_ok, pure_eq_ok]
  constructor
  · rintro ⟨c, hc, rfl⟩
    exact ⟨c, hc, rfl⟩
  · rintro ⟨c, hc, rfl⟩
    exact ⟨c, hc, rfl⟩

theorem readable_iff : readable auth id db = .ok a ↔ Sees auth id db a := by
  simp only [readable, bind_eq_ok, ensure_eq_ok, pure_eq_ok]
  constructor
  · rintro ⟨x, hx, _, hread, rfl⟩
    exact ⟨hx, hread⟩
  · rintro ⟨ha, hread⟩
    exact ⟨a, ha, (), hread, rfl⟩

theorem told_iff (hdb : Reach.Addressed db) (hthreads : Threads db) :
    (∃ i, conversation_info db db auth id = .ok i) ↔ ∃ a, Sees auth id db a := by
  simp only [conversation_info, bind_eq_ok, fetch_eq_ok, pure_eq_ok, readable_iff]
  constructor
  · rintro ⟨i, a, hsees, -⟩
    exact ⟨a, hsees⟩
  · rintro ⟨a, hsees⟩
    obtain ⟨c, hc, -⟩ := access_iff.mp hsees.1
    have hat := pos_of_one hc
    simp only [Bool.and_eq_true, beq_iff_eq] at hat
    have hone : one (fun c => c.id == id) db.conversations = some c :=
      hdb.threads.one_iff.mpr ⟨mem_of_one hc, hat.1⟩
    obtain ⟨x, hx, hid⟩ := hthreads.opened c (mem_of_one hc)
    have hcreator : one (fun a => a.id == c.created_by) db.agents = some x :=
      hdb.agents.one_iff.mpr ⟨hx, hid⟩
    exact ⟨_, a, hsees, c, hone, x, hcreator, rfl⟩

/-- The caller has one seat in a thread. -/
theorem sits_in_iff (hdb : Reach.Addressed db) : sits_in auth db c =
    ((one (is_callers auth c.id) db.conversation_memberships).map membership_of).any
      fun m => m.state == .invited || m.state == .active := by
  rw [Bool.eq_iff_iff, sits_in, List.any_eq_true, Option.any_map, Option.any_eq_true]
  constructor
  · rintro ⟨m, hm, hat⟩
    rw [Bool.and_eq_true] at hat
    exact ⟨m, hdb.tidy.callers_eq hm hat.1, hat.2⟩
  · rintro ⟨m, hm, hopen⟩
    exact ⟨m, mem_of_one hm, by rw [pos_of_one hm]; exact hopen⟩

/-- What SQL says of a thread is what `access` says. -/
theorem is_candidate_iff (hdb : Reach.Addressed db) (hc : c ∈ db.conversations) :
    is_candidate auth include_archived db c = true ↔
      ∃ a, Sees auth c.id db a ∧ (include_archived = true ∨ a.archived = false) := by
  have hrule (seat : Option Membership) : ((seat.any (fun m => m.state == .invited || m.state == .active) &&
        (c.visibility != .project || granted c auth.agent_id db)) ||
      (c.visibility == .project && granted c auth.agent_id db)) =
      Access.can_read ⟨c.id, c.visibility, c.archived_at.isSome, c.last_seq, seat,
        c.visibility == .project && granted c auth.agent_id db⟩ := by
    have hseated : seat.any (fun m => m.state == .invited || m.state == .active) =
        (seat.any (fun m => m.state == .active) || seat.any fun m => m.state == .invited) := by
      cases seat with
      | none => rfl
      | some m => simp [Bool.or_comm]
    simp only [Access.can_read, Access.project_open, Access.seated, hseated, bne]
    -- whether it is a project's thread, and whether the caller has the project
    cases c.visibility == .project with
    | false => simp
    | true =>
      cases granted c auth.agent_id db with
      | false => simp
      | true => simp
  rw [is_candidate, sits_in_iff hdb, Bool.and_eq_true, Bool.and_eq_true, hrule]
  constructor
  · rintro ⟨⟨hteam, harchived⟩, hread⟩
    rw [beq_iff_eq] at hteam
    refine ⟨_, ⟨access_iff.mpr ⟨c, hdb.thread hc hteam, rfl⟩, hread⟩, ?_⟩
    simpa using harchived
  · rintro ⟨a, ⟨ha, hread⟩, harchived⟩
    obtain ⟨x, hx, rfl⟩ := access_iff.mp ha
    have hat := pos_of_one hx
    simp only [Bool.and_eq_true, beq_iff_eq] at hat
    obtain rfl := hdb.threads.eq (mem_of_one hx) hc hat.1
    exact ⟨⟨by simpa using hat.2, by simpa using harchived⟩, hread⟩

theorem mem_list_candidates (hdb : Reach.Addressed db) :
    id ∈ list_candidates auth include_archived db ↔
      ∃ a, Sees auth id db a ∧ (include_archived = true ∨ a.archived = false) := by
  simp only [list_candidates, List.mem_map, mem_select]
  constructor
  · rintro ⟨c, ⟨hc, hcand⟩, rfl⟩
    exact (is_candidate_iff hdb hc).mp hcand
  · rintro ⟨a, hsees, harchived⟩
    obtain ⟨c, hc, -⟩ := access_iff.mp hsees.1
    have hat := pos_of_one hc
    simp only [Bool.and_eq_true, beq_iff_eq] at hat
    obtain ⟨rfl, -⟩ := hat
    exact ⟨c, ⟨mem_of_one hc, (is_candidate_iff hdb (mem_of_one hc)).mpr ⟨a, hsees, harchived⟩⟩, rfl⟩

/-- Threads that are all told are all listed. -/
theorem listed_among {looks : Uuid → Db × Db} {ids : List Uuid}
    (h : ∀ id ∈ ids, ∃ i, conversation_info (looks id).1 (looks id).2 auth id = .ok i) :
    ∃ l, list_conversations_among looks auth ids = .ok l ∧ l.map (fun i => i.id) = ids := by
  induction ids with
  | nil => exact ⟨[], rfl, rfl⟩
  | cons id ids ih =>
    obtain ⟨i, hi⟩ := h id List.mem_cons_self
    obtain ⟨l, hl, hids⟩ := ih fun x hx => h x (List.mem_cons_of_mem _ hx)
    have hid : i.id = id := by
      simp only [conversation_info, bind_eq_ok, fetch_eq_ok, pure_eq_ok] at hi
      obtain ⟨a, -, c, hc, x, -, rfl⟩ := hi
      simpa [thread_info] using pos_of_one hc
    refine ⟨i :: l, ?_, by rw [List.map_cons, hid, hids]⟩
    rw [list_conversations_among]
    simp only [hi, hl, bind, Except.bind]
    rfl

theorem listed_of_reached (hdb : Reach.Addressed db) (hthreads : Threads db) : Listed auth db := by
  refine ⟨fun id => told_iff hdb hthreads, fun hcap include_archived => ?_, fun hcap include_archived => ?_⟩
  · have hall : ∀ id ∈ list_candidates auth include_archived db,
        ∃ i, conversation_info db db auth id = .ok i := by
      intro id hid
      obtain ⟨a, hsees, -⟩ := (mem_list_candidates hdb).mp hid
      exact (told_iff hdb hthreads).mpr ⟨a, hsees⟩
    obtain ⟨l, hl, hids⟩ : ∃ l, list_conversations_among (fun _ => (db, db)) auth
        (list_candidates auth include_archived db) = .ok l ∧
        l.map (fun i => i.id) = list_candidates auth include_archived db := listed_among hall
    refine ⟨l, ?_, ?_, fun id => ?_⟩
    · simp only [list_conversations, hcap, bind, Except.bind]
      exact hl
    · rw [hids, list_candidates]
      have hperm := perm_select (is_candidate auth include_archived db) (fun c => c.id) db.conversations
      rw [(hperm.map fun c => c.id).nodup_iff]
      exact List.Nodup.sublist (List.Sublist.map _ List.filter_sublist) hdb.threads
    · rw [hids]
      exact mem_list_candidates hdb
  · cases hrefused : require_capability auth db with
    | ok => exact absurd hrefused hcap
    | error e =>
      simp only [list_conversations, hrefused, bind, Except.bind]
      rfl

end Lists

/-! ## What is shown of a thread -/

/-- The messages of a thread that are not deleted. -/
def thread (id : Uuid) (db : Db) : List ConversationMessage :=
  db.conversation_messages.filter fun m => m.conversation_id == id && m.deleted_at.isNone

/-- The message is handed out as still awaiting its publication. -/
def awaits (m : ConversationMessage) : Bool :=
  m.publication_state == .pending_publication && m.tombstoned_at.isNone

/-- Where the caller's history begins. -/
def begins (a : Access) : ℕ := (Access.floor a).getD 0

section Reads

variable (fetched : Backend → Locator → Uuid → Fetched)

/-- The `after_seq` a caller comes to that reads from the start and goes on where it is
told to. -/
inductive Cursor (auth : AuthCtx) (id : Uuid) (limit : Option ℤ) (db : Db) : Option ℤ → Prop
  | start : Cursor auth id limit db none
  | next {c : Option ℤ} {r : ConversationRead} {d : ℤ} : Cursor auth id limit db c →
      read fetched db db db auth id c limit = .ok r → r.next_after_seq = some d →
      Cursor auth id limit db (some d)

/-- A page of `read` has the message. -/
def OnPage (auth : AuthCtx) (after_seq limit : Option ℤ) (db : Db) (m : ConversationMessage) : Prop :=
  ∃ r, read fetched db db db auth m.conversation_id after_seq limit = .ok r ∧
    ∃ x ∈ r.messages, x.message_id = m.id

/-- `get_message` serves it. -/
def Serves (auth : AuthCtx) (db : Db) (m : ConversationMessage) : Prop :=
  ∃ y, get_message fetched db db db auth m.id = .ok y

/-- The message stands a page or more behind one that awaits its publication, counted from
that one on. -/
def Behind (a : Access) (limit : Option ℤ) (db : Db) (m : ConversationMessage) : Prop :=
  ∃ p ∈ thread m.conversation_id db, begins a < p.seq ∧ awaits p = true ∧
    page_limit limit ≤ Paging.between (fun x : ConversationMessage => x.seq) p.seq m.seq
      (thread m.conversation_id db)

/-- The three ways to a message agree on it. -/
structure Shown (auth : AuthCtx) (a : Access) (db : Db) (m : ConversationMessage) : Prop where
  /-- Some page has what `get_message` serves. -/
  read : (∃ after_seq limit, OnPage fetched auth after_seq limit db m) ↔ Serves fetched auth db m
  receipts : (∃ r, receipts db db db auth m.id = .ok r) ↔ Serves fetched auth db m
  /-- Paging from the start comes to it, if nothing that awaits publication is in the way. -/
  paged : ∀ limit, (∃ c, Cursor fetched auth m.conversation_id limit db c ∧
    OnPage fetched auth c limit db m) ↔ Serves fetched auth db m ∧ ¬ Behind a limit db m

end Reads

section Messages

variable {fetched : Backend → Locator → Uuid → Fetched} {auth : AuthCtx} {db : Db} {id : Uuid}
  {a : Access} {m : ConversationMessage} {limit : Option ℤ}

/-- What a message is handed out as. -/
theorem serve_awaits (r : Option MessageReceipt) :
    ((serve m m.publication_state (resolve_body fetched m.id (body_row m)) r).publication ==
      "pending_publication") = awaits m := by
  unfold resolve_body body_row awaits
  cases htomb : m.tombstoned_at with
  | some x => simp [serve]
  | none =>
    simp only [Option.isSome_none, Bool.false_eq_true, if_false, Option.isNone_none, Bool.and_true]
    split
    · cases m.publication_state <;> simp [serve, state_text]
    · cases m.publication_state with
      | pending_publication | failed => simp [serve]
      | stored =>
        cases m.canonical_locator with
        | none => simp [serve]
        | some l =>
          simp only
          cases fetched m.backend l m.id <;> simp [serve, state_text]

theorem numbers_of_thread (hnumbered : Sequence.Inv db) {k : Uuid × ℕ} (hk : k ∈ counters db) (hid : k.1 = id) :
    (∀ x ∈ thread id db, 0 < x.seq ∧ x.seq ≤ k.2) ∧
      Keyed (fun x : ConversationMessage => x.seq) (thread id db) := by
  have hperm := hnumbered.gapless k hk
  have hsub : ((thread id db).map fun x => x.seq).Sublist (Sequence.seqs k.1 (accepted db)) := by
    have heq : Sequence.seqs k.1 (accepted db) =
        ((db.conversation_messages.filter fun m => m.conversation_id == id).map fun x => x.seq) := by
      rw [hid, Sequence.seqs, Sequence.accepted, List.filter_map, List.map_map]
      rfl
    rw [heq]
    refine List.Sublist.map _ ?_
    unfold thread
    rw [← List.filter_filter]
    exact List.Sublist.filter _ List.filter_sublist
  refine ⟨fun x hx => ?_, (hperm.nodup_iff.mpr List.nodup_range').sublist hsub⟩
  have hin := hperm.subset (hsub.subset (List.mem_map_of_mem hx))
  rw [List.mem_range'_1] at hin
  omega

/-- A page is a page of the thread. -/
theorem page_rows_eq {c : ℤ} (hc : 0 ≤ c) (n : ℕ) : page_rows id c n db =
    Paging.numbered (fun x : ConversationMessage => x.seq) n (thread id db) c.toNat := by
  have hwhere : (fun m : ConversationMessage =>
      m.conversation_id == id && decide (c < m.seq) && m.deleted_at.isNone) =
      fun m => ((some c.toNat).all fun k => decide (k < m.seq)) &&
        (m.conversation_id == id && m.deleted_at.isNone) := by
    funext m
    have hlt : decide (c < (m.seq : ℤ)) = decide (c.toNat < m.seq) := by
      rw [decide_eq_decide]
      omega
    rw [hlt, Option.all_some]
    cases m.conversation_id == id <;> cases decide (c.toNat < m.seq) <;> simp
  unfold page_rows select Paging.numbered Paging.rest thread
  rw [List.filter_filter, hwhere]

/-- And goes on where the list with a hold does. -/
theorem next_after_eq {t : List ConversationMessage} (hpos : ∀ x ∈ t, 0 < x.seq) {n c top : ℕ}
    {f : ConversationMessage → Served} (hseq : ∀ x, (f x).seq = x.seq)
    (hawaits : ∀ x, ((f x).publication == "pending_publication") = awaits x) :
    next_after ((Paging.numbered (fun x : ConversationMessage => x.seq) n t c).map f) top =
      (Paging.resume (fun x : ConversationMessage => x.seq) awaits n top t c).map fun d : ℕ => (d : ℤ) := by
  have hfind : (fun x : Served => x.publication == "pending_publication") ∘ f = awaits :=
    funext hawaits
  have hrows : ∀ x ∈ Paging.numbered (fun x : ConversationMessage => x.seq) n t c, 0 < x.seq := by
    intro x hx
    exact hpos x (Paging.mem_rest.mp (List.mem_of_mem_take hx)).1
  unfold next_after Paging.resume
  generalize Paging.numbered (fun x : ConversationMessage => x.seq) n t c = rows at hrows
  have hcast (d : ℕ) : (some (d : ℤ)).filter (fun s : ℤ => decide (s < top) && decide (0 < s)) =
      ((some d).filter fun d : ℕ => decide (d < top) && decide (0 < d)).map fun d : ℕ => (d : ℤ) := by
    rw [Option.filter_some, Option.filter_some]
    by_cases hin : d < top ∧ 0 < d
    · rw [if_pos (by simpa using hin), if_pos (by simpa using hin)]
      rfl
    · rw [if_neg (by simpa using hin), if_neg (by simpa using hin)]
      rfl
  rw [List.find?_map, List.getLast?_map, hfind, Option.map_map]
  cases rows.getLast? with
  | none => rfl
  | some r =>
    cases hp : rows.find? awaits with
    | none =>
      simp only [Option.map_some, Option.map_none, hseq, Option.elim_none]
      exact hcast _
    | some p =>
      have hppos := hrows p (List.mem_of_find?_eq_some hp)
      have hmin : min (r.seq : ℤ) ((p.seq : ℤ) - 1) = ((min r.seq (p.seq - 1) : ℕ) : ℤ) := by omega
      simp only [Option.map_some, Function.comp, hseq, Option.elim_some, hmin]
      exact hcast _

/-- The place a page starts behind. -/
def behind_of (a : Access) (after_seq : Option ℤ) : ℕ := (max (after_seq.getD 0) (begins a)).toNat

/-- A message with its body and the caller's receipt. -/
def shown (fetched : Backend → Locator → Uuid → Fetched) (a : Access) (db : Db) (m : ConversationMessage) :
    Served :=
  serve m m.publication_state (resolve_body fetched m.id (body_row m))
    (a.membership.bind fun s => receipt_of m.id s.id db)

/-- Who may read what is said in a thread may see the thread. -/
theorem readable_of_messages (ha : access auth id db = .ok a) (hread : a.can_read_messages = true) :
    readable auth id db = .ok a := by
  refine readable_iff.mpr ⟨ha, ?_⟩
  simp only [Access.can_read_messages, Bool.and_eq_true, Bool.or_eq_true] at hread
  simp only [Access.can_read, Bool.and_eq_true, Bool.or_eq_true]
  exact ⟨hread.1, Or.inl hread.2⟩

/-- What `read` answers to a caller that is let in. -/
theorem read_eq (hcap : require_capability auth db = .ok ()) (ha : access auth id db = .ok a)
    (hread : a.can_read_messages = true) (hpos : ∀ x ∈ thread id db, 0 < x.seq)
    (after_seq limit : Option ℤ) : read fetched db db db auth id after_seq limit = .ok
      ⟨id, (Paging.numbered (fun x : ConversationMessage => x.seq) (page_limit limit) (thread id db)
          (behind_of a after_seq)).map (shown fetched a db),
        (Paging.resume (fun x : ConversationMessage => x.seq) awaits (page_limit limit) a.last_seq
          (thread id db) (behind_of a after_seq)).map fun d : ℕ => (d : ℤ), Access.floor a⟩ := by
  have hreadable := readable_of_messages ha hread
  have haccepted : require_accepted a = .ok () := ensure_eq_ok.mpr hread
  have hnext : next_after ((Paging.numbered (fun x : ConversationMessage => x.seq) (page_limit limit)
      (thread id db) (behind_of a after_seq)).map (shown fetched a db)) a.last_seq = _ :=
    next_after_eq hpos (fun _ => rfl) fun _ => serve_awaits _
  rw [← hnext]
  unfold behind_of
  rw [← page_rows_eq (by omega)]
  simp only [History.read, hcap, hreadable, haccepted, bind, Except.bind]
  rfl

/-- What `get_message` and `receipts` ask is that the message comes after where the
caller's history begins. -/
theorem serves_iff (hdb : Reach.Addressed db) (hcap : require_capability auth db = .ok ())
    (ha : access auth m.conversation_id db = .ok a) (hread : a.can_read_messages = true)
    (hm : m ∈ db.conversation_messages) (hkept : m.deleted_at = none) (hpos : 0 < m.seq) :
    (Serves fetched auth db m ↔ begins a < m.seq) ∧
      ((∃ r, receipts db db db auth m.id = .ok r) ↔ begins a < m.seq) := by
  have hreadable := readable_of_messages ha hread
  have haccepted : require_accepted a = .ok () := ensure_eq_ok.mpr hread
  have hfloor : before_seat a m.seq = false ↔ begins a < m.seq := by
    unfold before_seat begins
    cases Access.floor a with
    | none => simpa using hpos
    | some f => simp
  have hget : one (fun x => x.id == m.id && x.deleted_at.isNone) db.conversation_messages = some m :=
    Reach.message_found hdb (hdb.messages.one_iff.mpr ⟨hm, rfl⟩) hkept
  have hfind : one (fun x => x.id == m.id) db.conversation_messages = some m :=
    hdb.messages.one_iff.mpr ⟨hm, rfl⟩
  constructor
  on_goal 1 => simp only [Serves, get_message, bind_eq_ok, fetch_eq_ok, ensure_eq_ok, pure_eq_ok, hget]
  on_goal 2 => simp only [History.receipts, bind_eq_ok, fetch_eq_ok, ensure_eq_ok, pure_eq_ok, hfind]
  all_goals
    constructor
    · rintro ⟨y, -, -, x, hx, b, hb, -, -, -, hsince, -⟩
      obtain rfl := Option.some.inj hx
      obtain rfl := Except.ok.inj (hreadable.symm.trans hb)
      exact hfloor.mp (by simpa using hsince)
    · intro hlt
      exact ⟨_, (), hcap, m, rfl, a, hreadable, (), haccepted, (), by simpa using hfloor.mpr hlt, rfl⟩

/-- A page has a message of the thread that is among its rows. -/
theorem on_page_iff (hdb : Reach.Addressed db) (hcap : require_capability auth db = .ok ())
    (ha : access auth m.conversation_id db = .ok a) (hread : a.can_read_messages = true)
    (hm : m ∈ db.conversation_messages) (hpos : ∀ x ∈ thread m.conversation_id db, 0 < x.seq)
    {after_seq : Option ℤ} : OnPage fetched auth after_seq limit db m ↔
      m ∈ Paging.numbered (fun x : ConversationMessage => x.seq) (page_limit limit)
        (thread m.conversation_id db) (behind_of a after_seq) := by
  unfold OnPage
  simp only [read_eq hcap ha hread hpos, Except.ok.injEq, exists_eq_left', List.mem_map]
  constructor
  · rintro ⟨x, ⟨y, hy, rfl⟩, hid⟩
    have hyin := (Paging.mem_rest.mp (List.mem_of_mem_take hy)).1
    obtain rfl := hdb.messages.eq (List.mem_filter.mp hyin).1 hm hid
    exact hy
  · intro hin
    exact ⟨_, ⟨m, hin, rfl⟩, rfl⟩

/-- The cursors of `read` are those of a list with a hold. -/
theorem cursor_iff (hcap : require_capability auth db = .ok ()) (ha : access auth id db = .ok a)
    (hread : a.can_read_messages = true) (hpos : ∀ x ∈ thread id db, 0 < x.seq)
    (hkeyed : Keyed (fun x : ConversationMessage => x.seq) (thread id db)) {d : ℕ} :
    (∃ c, Cursor fetched auth id limit db c ∧ behind_of a c = d) ↔
      Paging.Reached (fun x : ConversationMessage => x.seq) awaits (page_limit limit) a.last_seq
        (thread id db) (begins a) d := by
  constructor
  · rintro ⟨c, hc, rfl⟩
    induction hc with
    | start =>
      have hfirst : behind_of a none = begins a := by
        unfold behind_of
        rw [Option.getD_none]
        omega
      rw [hfirst]
      exact .first
    | @next c r d hc hr hd ih =>
      rw [read_eq hcap ha hread hpos] at hr
      obtain rfl := Except.ok.inj hr
      obtain ⟨x, hx, rfl⟩ := Option.map_eq_some_iff.mp hd
      have hreached := ih.next hx
      have hle := (hreached.before_held hkeyed).1
      have hplace : behind_of a (some (x : ℤ)) = x := by
        unfold behind_of
        rw [Option.getD_some]
        omega
      rw [hplace]
      exact hreached
  · intro hreached
    induction hreached with
    | first =>
      refine ⟨none, .start, ?_⟩
      unfold behind_of
      rw [Option.getD_none]
      omega
    | @next c d hc hd ih =>
      obtain ⟨x, hx, rfl⟩ := ih
      have hle := ((hc.next hd).before_held hkeyed).1
      refine ⟨some (d : ℤ), .next hx (read_eq hcap ha hread hpos x limit) (by rw [hd]; rfl), ?_⟩
      unfold behind_of
      rw [Option.getD_some]
      omega

/-- The three ways to a message agree on it, in a thread whose messages the caller may
read. -/
theorem shown_of_reached (hdb : Reach.Addressed db) (hthreads : Threads db)
    (hm : m ∈ db.conversation_messages) (hkept : m.deleted_at = none)
    (ha : access auth m.conversation_id db = .ok a) (hread : a.can_read_messages = true) :
    Shown fetched auth a db m := by
  have hmin : m ∈ thread m.conversation_id db := List.mem_filter.mpr ⟨hm, by simp [hkept]⟩
  obtain ⟨c, hc, hac⟩ := access_iff.mp ha
  have hcid := pos_of_one hc
  simp only [Bool.and_eq_true, beq_iff_eq] at hcid
  obtain ⟨hnumbers, hkeyed⟩ := numbers_of_thread hthreads.numbered
    (List.mem_map_of_mem (mem_of_one hc) : (c.id, c.last_seq) ∈ counters db) hcid.1
  have hpos : ∀ x ∈ thread m.conversation_id db, 0 < x.seq := fun x hx => (hnumbers x hx).1
  have hlast : ∀ x ∈ thread m.conversation_id db, x.seq ≤ a.last_seq := by
    intro x hx
    rw [hac]
    exact (hnumbers x hx).2
  have hsize (limit : Option ℤ) : 0 < page_limit limit := clamp_pos _ _
  by_cases hcap : require_capability auth db = .ok ()
  · have hviews : (Serves fetched auth db m ↔ begins a < m.seq) ∧
        ((∃ r, receipts db db db auth m.id = .ok r) ↔ begins a < m.seq) :=
      serves_iff hdb hcap ha hread hm hkept (hnumbers m hmin).1
    obtain ⟨hserves, hreceipts⟩ := hviews
    refine ⟨?_, hreceipts.trans hserves.symm, fun limit => ?_⟩
    · rw [hserves]
      simp only [on_page_iff hdb hcap ha hread hm hpos]
      constructor
      · rintro ⟨after_seq, limit, hin⟩
        have hlt := ((Paging.mem_numbered hkeyed).mp hin).2.1
        unfold behind_of at hlt
        omega
      · intro hlt
        -- the page that starts right before it
        refine ⟨some ((m.seq : ℤ) - 1), none, (Paging.mem_numbered hkeyed).mpr ⟨hmin, ?_, ?_⟩⟩
        · unfold behind_of
          rw [Option.getD_some]
          omega
        · refine lt_of_eq_of_lt ?_ (hsize none)
          unfold Paging.between
          rw [List.countP_eq_zero]
          intro x _
          simp only [Bool.and_eq_true, decide_eq_true_eq, not_and, not_lt]
          unfold behind_of
          rw [Option.getD_some]
          omega
    · rw [hserves]
      simp only [on_page_iff hdb hcap ha hread hm hpos]
      constructor
      · rintro ⟨x, hx, hin⟩
        have hreached := (cursor_iff hcap ha hread hpos hkeyed).mp ⟨x, hx, rfl⟩
        have hlt := ((Paging.mem_numbered hkeyed).mp hin).2.1
        have hbegins : begins a < m.seq := lt_of_le_of_lt (hreached.before_held hkeyed).1 hlt
        refine ⟨hbegins, ?_⟩
        rintro ⟨p, hp, hplt, hpawaits, hmany⟩
        have hfew := (Paging.reached_iff hkeyed (hsize limit) hlast hmin hbegins).mp ⟨_, hreached, hin⟩
          p hp hplt hpawaits
        omega
      · rintro ⟨hbegins, hnot⟩
        have hcomes : ∃ d, Paging.Reached (fun x : ConversationMessage => x.seq) awaits (page_limit limit)
            a.last_seq (thread m.conversation_id db) (begins a) d ∧
              m ∈ Paging.numbered (fun x : ConversationMessage => x.seq) (page_limit limit)
                (thread m.conversation_id db) d := by
          refine (Paging.reached_iff hkeyed (hsize limit) hlast hmin hbegins).mpr fun p hp hplt hpawaits => ?_
          by_contra hmany
          exact hnot ⟨p, hp, hplt, hpawaits, by omega⟩
        obtain ⟨d, hd, hin⟩ := hcomes
        obtain ⟨x, hx, rfl⟩ := (cursor_iff hcap ha hread hpos hkeyed).mpr hd
        exact ⟨x, hx, hin⟩
  · -- a team without conversations is refused by all of them
    obtain ⟨e, he⟩ : ∃ e, require_capability auth db = .error e := by
      cases h : require_capability auth db with
      | error e => exact ⟨e, rfl⟩
      | ok u => exact absurd h hcap
    have hnone : ¬ Serves fetched auth db m := by
      rintro ⟨y, hy⟩
      rw [get_message, he] at hy
      exact absurd hy (by simp [bind, Except.bind])
    have hpage (after_seq limit : Option ℤ) : ¬ OnPage fetched auth after_seq limit db m := by
      rintro ⟨r, hr, -⟩
      rw [History.read, he] at hr
      exact absurd hr (by simp [bind, Except.bind])
    refine ⟨?_, ?_, fun limit => ?_⟩
    · refine ⟨?_, fun h => absurd h hnone⟩
      rintro ⟨after_seq, limit, h⟩
      exact absurd h (hpage _ _)
    · refine ⟨?_, fun h => absurd h hnone⟩
      rintro ⟨r, hr⟩
      rw [History.receipts, he] at hr
      exact absurd hr (by simp [bind, Except.bind])
    · refine ⟨?_, fun h => absurd h.1 hnone⟩
      rintro ⟨x, -, h⟩
      exact absurd h (hpage _ _)

end Messages

/-! ## The law -/

section Law

variable {sha256 : String → String} {db : Db} {tr : List (Trans Seats.Sys Act)} {t : Seats.Sys}

/-- **The views of a thread agree**, in every state of every run and for every caller. -/
theorem views_agree (fetched : Backend → Locator → Uuid → Fetched) (hdb : Reach.Addressed db)
    (hthreads : Threads db) (hrun : Run (Rel (step sha256)) (Seats.Sys.start db) tr t) (auth : AuthCtx) :
    Listed auth t.db ∧ ∀ m ∈ t.db.conversation_messages, m.deleted_at = none →
      ∀ a, access auth m.conversation_id t.db = .ok a → a.can_read_messages = true →
        Shown fetched auth a t.db m := by
  have hstart : Reach.Inv (Seats.Sys.start db) ∧ Threads db :=
    ⟨⟨hdb, fun _ hv => absurd hv List.not_mem_nil⟩, hthreads⟩
  have hstate : Reach.Inv t ∧ Threads t.db :=
    hrun.invariant' (I := fun s => Reach.Inv s ∧ Threads s.db) hstart
      fun _ _ _ hs hr => ⟨hs.1.step (step_reach hr), hs.2.step hr⟩
  exact ⟨listed_of_reached hstate.1.addressed hstate.2, fun m hm hkept a ha hread =>
    shown_of_reached hstate.1.addressed hstate.2 hm hkept ha hread⟩

end Law

/-! ### A thread that waits -/

/-- The crew, on a broker. -/
def crew : Db := { Reach.crew with teams := [⟨1, "crew", true, .jetstream⟩] }

theorem crew_addressed : Reach.Addressed crew :=
  ⟨⟨by decide, by decide⟩, by decide, by decide, by decide, fun _ hw => absurd hw List.not_mem_nil,
    fun _ hp => absurd hp List.not_mem_nil, fun _ hm => absurd hm List.not_mem_nil,
    fun _ hm => absurd hm List.not_mem_nil⟩

theorem crew_threads : Threads crew :=
  ⟨⟨by decide, fun _ hx => absurd hx List.not_mem_nil, fun _ hk => absurd hk List.not_mem_nil, by decide⟩,
    fun _ hc => absurd hc List.not_mem_nil⟩

/-- Ada opens a thread and writes to it twice, and the broker has not confirmed either. -/
def written : List Act :=
  [.seats (.create_conversation 0 0 Crew.ada ⟨none, true, []⟩ 7 10 []),
    .send ⟨0, 0, Crew.ada, 7, ⟨"hello", 100, none⟩, 50, 60⟩,
    .send ⟨0, 0, Crew.ada, 7, ⟨"anyone there?", 101, none⟩, 51, 61⟩]

theorem written_run : (exec (step Crew.digest) (Seats.Sys.start crew) written).isSome = true := by
  decide

/-- The state then. -/
def waiting : Seats.Sys := ((exec (step Crew.digest) (Seats.Sys.start crew) written).get written_run).2

theorem views_agree_written : Listed Crew.ada waiting.db ∧
    ∀ m ∈ waiting.db.conversation_messages, m.deleted_at = none →
      ∀ a, access Crew.ada m.conversation_id waiting.db = .ok a → a.can_read_messages = true →
        Shown Reach.bodiless Crew.ada a waiting.db m :=
  views_agree Reach.bodiless crew_addressed crew_threads (exec_get written_run) Crew.ada

/-- The thread is archived, and the team's conversations are turned off. -/
def archived_db : Db :=
  { waiting.db with conversations := waiting.db.conversations.map fun c => { c with archived_at := some 5 } }

def closed_db : Db := { archived_db with teams := [⟨1, "crew", false, .jetstream⟩] }

theorem closed_run : (exec (step Crew.digest) (Seats.Sys.start crew)
    (written ++ [.other archived_db, .other closed_db])).isSome = true := by
  decide

/-- Paging by one, Ada is shown the first message for as long as it waits, and never the
second, which `get_message` serves her; archived, the thread is told and not listed; and
where conversations are off it is told, and the list refused. -/
theorem paging_waits :
    (∃ tr, Run (Rel (step Crew.digest)) (Seats.Sys.start crew) tr waiting ∧
      (get_message Reach.bodiless waiting.db waiting.db waiting.db Crew.ada 51).isOk = true ∧
      ∀ c r, Cursor Reach.bodiless Crew.ada 7 (some 1) waiting.db c →
        read Reach.bodiless waiting.db waiting.db waiting.db Crew.ada 7 c (some 1) = .ok r →
        ∀ x ∈ r.messages, x.message_id ≠ 51) ∧
    ∃ tr s, Run (Rel (step Crew.digest)) (Seats.Sys.start crew) tr s ∧
      (∃ e ∈ tr, e.post.db = archived_db) ∧ s.db = closed_db ∧
      (conversation_info archived_db archived_db Crew.ada 7).isOk = true ∧
      list_conversations archived_db (fun _ => (archived_db, archived_db)) Crew.ada false = .ok [] ∧
      (conversation_info closed_db closed_db Crew.ada 7).isOk = true ∧
      (list_conversations closed_db (fun _ => (closed_db, closed_db)) Crew.ada true).isOk = false := by
  refine ⟨⟨_, exec_get written_run, by decide, fun c r hc hr x hx => ?_⟩,
    _, _, exec_get closed_run, ⟨_, List.mem_of_getElem? (i := 3) rfl, rfl⟩, rfl, by decide,
    by decide, by decide, by decide⟩
  have hpage : ∃ y, read Reach.bodiless waiting.db waiting.db waiting.db Crew.ada 7 none (some 1) = .ok y ∧
      y.next_after_seq = none ∧ ∀ x ∈ y.messages, x.message_id ≠ 51 :=
    ⟨_, rfl, by decide, by decide⟩
  obtain ⟨y, hy, hlast, hother⟩ := hpage
  have hfirst : c = none := by
    clear hr
    induction hc with
    | start => rfl
    | next _ hread hd ih =>
      subst ih
      obtain rfl := Except.ok.inj (hy.symm.trans hread)
      rw [hlast] at hd
      exact absurd hd (by simp)
  subst hfirst
  obtain rfl := Except.ok.inj (hy.symm.trans hr)
  exact hother x hx

end CrewSync.ThreadViews
