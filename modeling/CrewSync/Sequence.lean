/-
A thread's messages as a sequence: `send` over whole runs.

A send is one transaction. It may be refused anywhere, also after it has counted
the thread up, and a refused one rolls back; one that dies before its commit leaves
nothing and is no step. Two sends to one thread are in order: each takes the
thread's row lock before it looks for its `request_id`.

What identifies a message (`Ident`) is written once, by the send that makes it. The
rest of its row changes later: a body is released, a publication settles, a move
rewrites its place. None of that is asked when a retry is recognised.
-/
import CrewSync.Runs
import CrewSync.Send

set_option autoImplicit false

namespace CrewSync.Sequence

open Error Schema Rows Auth
open Conversations Send Runs Crew

/-! ## The system -/

/-- What identifies a message. -/
structure Ident where
  id : Uuid
  conversation_id : Uuid
  seq : ℕ
  request_id : Uuid
  body_sha256 : Option String
  deriving DecidableEq, Repr

/-- The identity of a row. -/
def ident (m : ConversationMessage) : Ident :=
  ⟨m.id, m.conversation_id, m.seq, m.request_id, m.body_sha256⟩

/-- The messages that were accepted, oldest first. -/
def accepted (db : Db) : List Ident := db.conversation_messages.map ident

/-- How far each thread has counted. -/
def counters (db : Db) : List (Uuid × ℕ) := db.conversations.map fun c => (c.id, c.last_seq)

/-- The state: the database, and every database committed before it. -/
structure Sys extends Committed Db

/-- One call of `send`. -/
structure SendCall where
  seen : ℕ
  now : ℕ
  auth : AuthCtx
  id : Uuid
  input : SendInput
  message_id : Uuid
  publish_key : Uuid
  deriving DecidableEq, Repr

/-- What can happen next. -/
inductive Act where
  | create_conversation (seen now : ℕ) (auth : AuthCtx) (input : CreateInput) (id seat : Uuid)
      (seats : List Uuid)
  | send (c : SendCall)
  /-- Any other part of the server commits: a grant or a seat is taken away, a thread
  is archived or paused, a publication settles, a body is released or moved. -/
  | other (db' : Db)

/-- No other statement adds or deletes a message or a thread, writes what identifies
a message, or counts. -/
def leaves_messages (db db' : Db) : Bool :=
  accepted db' == accepted db && counters db' == counters db

/-- `db` is committed. -/
def Sys.commit (s : Sys) (db : Db) : Sys := ⟨s.push db⟩

section Steps

variable (sha256 : String → String)

/-- What a send answers. -/
def answer (s : Sys) (c : SendCall) : Option (BusResult (SentMessage × Db)) :=
  (s.view c.seen).map fun v =>
    send sha256 c.now v c.auth c.id c.input c.message_id c.publish_key s.db

/-- One step. -/
def step (s : Sys) : Act → Option Sys
  | .create_conversation seen now auth input id seat seats =>
    (s.view seen).map fun v =>
      match create_conversation now v auth input id seat seats s.db with
      | .ok (_, db') => s.commit db'
      | .error _ => s
  | .send c =>
    (answer sha256 s c).map fun r =>
      match r with
      | .ok (_, db') => s.commit db'
      | .error _ => s
  | .other db' => if leaves_messages s.db db' then some (s.commit db') else none

end Steps

/-! ## What a send writes -/

section Specs

variable {sha256 : String → String} {now : ℕ} {seen db db' : Db} {auth : AuthCtx}
  {id message_id key : Uuid} {input : SendInput} {r : SentMessage}

/-- What a successful send did: it found its message, or made it. -/
inductive Did (sha256 : String → String) (db : Db) (id : Uuid) (input : SendInput)
    (r : SentMessage) : Db → Prop
  | again {m : ConversationMessage} {db' : Db} : db' = db → m ∈ db.conversation_messages →
      ident m = ⟨r.message_id, id, r.seq, input.request_id, some (sha256 (trim input.body))⟩ →
      Did sha256 db id input r db'
  | first {c : Conversation} {db' : Db} : one (fun c => c.id == id) db.conversations = some c →
      (∀ x ∈ accepted db, ¬(x.conversation_id = id ∧ x.request_id = input.request_id)) →
      r.seq = c.last_seq + 1 →
      accepted db' = accepted db ++
        [⟨r.message_id, id, r.seq, input.request_id, some (sha256 (trim input.body))⟩] →
      counters db' = (counters db).map (fun k => if k.1 = id then (k.1, k.2 + 1) else k) →
      Did sha256 db id input r db'

theorem ident_update {p : ConversationMessage → Bool} {f : ConversationMessage → ConversationMessage}
    {t : List ConversationMessage} (hf : ∀ m, ident (f m) = ident m) : (update p f t).map ident = t.map ident :=
  map_key_update hf

/-- The message a send makes is at the end, and its thread has counted. -/
theorem with_message_accepted {c : Conversation} {body : String} (hid : c.id = id) :
    accepted (with_message sha256 now auth c input body message_id db) = accepted db ++
        [⟨message_id, id, c.last_seq + 1, input.request_id, some (sha256 body)⟩] ∧
      counters (with_message sha256 now auth c input body message_id db) =
        (counters db).map fun k => if k.1 = id then (k.1, k.2 + 1) else k := by
  constructor
  · simp only [accepted, with_message, insert_into, List.map_append, List.map_cons, List.map_nil]
    rw [← hid]
    rfl
  · simp only [counters, with_message, update, List.map_map]
    refine List.map_congr_left fun x _ => ?_
    simp only [Function.comp_apply, hid, beq_iff_eq]
    split <;> rfl

theorem send_did (h : send sha256 now seen auth id input message_id key db = .ok (r, db')) :
    Did sha256 db id input r db' := by
  simp only [send, bind_eq_ok, ensure_eq_ok, fetch_eq_ok] at h
  obtain ⟨_, -, a, -, _, -, _, -, body, hbody, _, -, _, -, c, hc, _, -, _, -, _, -, _, -, h⟩ := h
  obtain rfl := check_text_ok hbody
  have hcid : c.id = id := by simpa using pos_of_one hc
  split at h
  · -- a retry
    rename_i m hm
    simp only [bind_eq_ok, ensure_eq_ok, pure_eq_ok, Prod.mk.injEq] at h
    obtain ⟨_, hdigest, rfl, rfl⟩ := h
    have hp := pos_of_one hm
    simp only [Bool.and_eq_true, beq_iff_eq] at hp
    refine .again rfl (mem_of_one hm) ?_
    rw [ident, hp.1, hp.2, hdigest]
    rfl
  · -- the first
    rename_i hnone
    have hnew : ∀ x ∈ accepted db, ¬(x.conversation_id = id ∧ x.request_id = input.request_id) := by
      intro x hx hboth
      obtain ⟨m, hm, rfl⟩ := List.mem_map.mp hx
      have hno := one_eq_none.mp hnone m hm
      simp only [Bool.and_eq_false_imp, beq_iff_eq, beq_eq_false_iff_ne] at hno
      exact hno hboth.1 hboth.2
    simp only [bind_eq_ok, ensure_eq_ok] at h
    obtain ⟨_, -, _, -, h⟩ := h
    obtain ⟨hacc, hcount⟩ :
        accepted (with_message sha256 now auth c input (trim input.body) message_id db) = _ ∧
          counters (with_message sha256 now auth c input (trim input.body) message_id db) = _ :=
      with_message_accepted hcid
    split at h
    · simp only [bind_eq_ok, pure_eq_ok, Prod.mk.injEq] at h
      obtain ⟨queued, hq, rfl, rfl⟩ := h
      obtain rfl := enqueue_ok hq
      refine .first hc hnew rfl ?_ hcount
      rw [← hacc]
      exact ident_update fun _ => rfl
    · simp only [pure_eq_ok, Prod.mk.injEq] at h
      obtain ⟨rfl, rfl⟩ := h
      exact .first hc hnew rfl hacc hcount

/-- A thread that is opened is new, and has counted nothing. -/
theorem opens_thread {create : CreateInput} {seat n : Uuid} {seats : List Uuid}
    (h : create_conversation now seen auth create id seat seats db = .ok (n, db')) :
    accepted db' = accepted db ∧ counters db' = counters db ++ [(id, 0)] ∧
      ∀ k ∈ counters db, k.1 ≠ id := by
  simp only [create_conversation, bind_eq_ok, ensure_eq_ok, fetch_eq_ok, pure_eq_ok,
    Prod.mk.injEq] at h
  obtain ⟨_, -, _, -, _, -, invites, -, _, -, _, -, _, -, team, -, _, hfresh, _, -, _, -, -, rfl⟩ := h
  refine ⟨rfl, by simp [counters, insert_into], fun k hk => ?_⟩
  obtain ⟨c, hc, rfl⟩ := List.mem_map.mp hk
  simpa using List.all_eq_true.mp hfresh c hc

/-- A send under a `request_id` that made another message is refused. -/
theorem send_conflict {m : ConversationMessage} (hm : m ∈ db.conversation_messages)
    (hreq : Keyed (fun x : Ident => (x.conversation_id, x.request_id)) (accepted db))
    (hid : m.conversation_id = id ∧ m.request_id = input.request_id)
    (hne : m.body_sha256 ≠ some (sha256 (trim input.body))) :
    ∃ e, send sha256 now seen auth id input message_id key db = .error e := by
  cases hsend : send sha256 now seen auth id input message_id key db with
  | error e => exact ⟨e, rfl⟩
  | ok q =>
    exfalso
    obtain ⟨r, db'⟩ := q
    have hin : ident m ∈ accepted db := List.mem_map_of_mem hm
    cases send_did hsend with
    | again _ hm' hident =>
      -- there is one message of that request
      have hkey : (ident m).conversation_id = id ∧ (ident m).request_id = input.request_id := hid
      have heq := hreq.eq hin (List.mem_map_of_mem hm') (by rw [hident, hkey.1, hkey.2])
      refine hne ?_
      show (ident m).body_sha256 = _
      rw [heq, hident]
    | first _ hnew => exact hnew _ hin hid

end Specs

/-! ## The invariant -/

/-- The sequence numbers of a thread's messages. -/
def seqs (k : Uuid) (l : List Ident) : List ℕ :=
  (l.filter fun x => x.conversation_id == k).map Ident.seq

/-- The key of a request. -/
def request (x : Ident) : Uuid × Uuid := (x.conversation_id, x.request_id)

/-- Each thread has counted its messages, and no request made two. -/
structure Inv (db : Db) : Prop where
  threads : Keyed Prod.fst (counters db)
  homes : ∀ x ∈ accepted db, ∃ k ∈ counters db, k.1 = x.conversation_id
  gapless : ∀ k ∈ counters db, (seqs k.1 (accepted db)).Perm (List.range' 1 k.2)
  requests : Keyed request (accepted db)

section Invariant

variable {db db' : Db} {id : Uuid}

theorem Inv.congr (h : Inv db) (hacc : accepted db' = accepted db) (hcount : counters db' = counters db) : Inv db' := by
  refine ⟨?_, ?_, ?_, ?_⟩
  · rw [hcount]
    exact h.threads
  · rw [hacc, hcount]
    exact h.homes
  · rw [hacc, hcount]
    exact h.gapless
  · rw [hacc]
    exact h.requests

/-- A thread that is opened has counted nothing, and no message is in it. -/
theorem Inv.opened (h : Inv db) (hacc : accepted db' = accepted db)
    (hcount : counters db' = counters db ++ [(id, 0)]) (hnew : ∀ k ∈ counters db, k.1 ≠ id) :
    Inv db' := by
  refine ⟨?_, ?_, ?_, ?_⟩
  · rw [hcount]
    exact Keyed.insert_into h.threads hnew
  · rw [hacc, hcount]
    intro x hx
    obtain ⟨k, hk, hhome⟩ := h.homes x hx
    exact ⟨k, List.mem_append_left _ hk, hhome⟩
  · rw [hacc, hcount]
    intro k hk
    rcases List.mem_append.mp hk with hk | hk
    · exact h.gapless k hk
    · obtain rfl := List.mem_singleton.mp hk
      have hnone : (accepted db).filter (fun x => x.conversation_id == id) = [] := by
        refine List.filter_eq_nil_iff.mpr fun x hx => ?_
        obtain ⟨k, hk, hhome⟩ := h.homes x hx
        simpa [← hhome] using hnew k hk
      simp [seqs, hnone]
  · rw [hacc]
    exact h.requests

/-- A message is added under the next number of its thread. -/
theorem Inv.counted (h : Inv db) {x : Ident} {n : ℕ} (hthread : (x.conversation_id, n) ∈ counters db)
    (hseq : x.seq = n + 1) (hnew : ∀ y ∈ accepted db, request y ≠ request x)
    (hacc : accepted db' = accepted db ++ [x]) (hcount : counters db' =
      (counters db).map fun k => if k.1 = x.conversation_id then (k.1, k.2 + 1) else k) : Inv db' := by
  have hfst : ∀ k : Uuid × ℕ,
      (if k.1 = x.conversation_id then (k.1, k.2 + 1) else k).1 = k.1 := by
    intro k
    split <;> rfl
  refine ⟨?_, ?_, ?_, ?_⟩
  · rw [hcount]
    exact h.threads.map fun k _ => hfst k
  · rw [hacc, hcount]
    intro y hy
    have hhome : ∃ k ∈ counters db, k.1 = y.conversation_id := by
      rcases List.mem_append.mp hy with hy | hy
      · exact h.homes y hy
      · rw [List.mem_singleton.mp hy]
        exact ⟨_, hthread, rfl⟩
    obtain ⟨k, hk, hky⟩ := hhome
    exact ⟨_, List.mem_map_of_mem hk, (hfst k).trans hky⟩
  · rw [hacc, hcount]
    intro k' hk'
    obtain ⟨k, hk, rfl⟩ := List.mem_map.mp hk'
    rw [hfst]
    have hperm := h.gapless k hk
    unfold seqs at hperm ⊢
    rw [List.filter_append, List.map_append]
    by_cases hhere : k.1 = x.conversation_id
    · -- the thread that counted
      obtain rfl : k = (x.conversation_id, n) := h.threads.eq hk hthread hhere
      rw [if_pos rfl, List.filter_cons_of_pos (by simp), List.filter_nil, List.map_singleton,
        List.range'_concat]
      refine hperm.append ?_
      rw [hseq]
      simp [Nat.add_comm]
    · rw [if_neg hhere, List.filter_cons_of_neg (by simpa using fun hc => hhere hc.symm),
        List.filter_nil, List.map_nil, List.append_nil]
      exact hperm
  · rw [hacc]
    exact Keyed.insert_into h.requests hnew

/-- A send keeps the sequence. -/
theorem Inv.sent {sha256 : String → String} {input : SendInput} {r : SentMessage}
    (h : Inv db) (hdid : Did sha256 db id input r db') : Inv db' := by
  cases hdid with
  | again hsame =>
    rw [hsame]
    exact h
  | first hc hnew hseq hacc hcount =>
    rename_i c
    have hid : c.id = id := by simpa using pos_of_one hc
    have hthread : (id, c.last_seq) ∈ counters db :=
      List.mem_map.mpr ⟨c, mem_of_one hc, by rw [hid]⟩
    refine h.counted hthread hseq ?_ hacc hcount
    intro y hy hreq
    simp only [request, Prod.mk.injEq] at hreq
    exact hnew y hy hreq

end Invariant

section Steps

variable {sha256 : String → String} {s t : Sys} {a : Act}

/-- What a step did to the messages: nothing, a thread was opened, or a send
succeeded. -/
inductive Moved (sha256 : String → String) (s : Sys) : Act → Sys → Prop
  | still {a : Act} {t : Sys} : accepted t.db = accepted s.db → counters t.db = counters s.db →
      Moved sha256 s a t
  | opened {a : Act} {t : Sys} {id : Uuid} : accepted t.db = accepted s.db →
      counters t.db = counters s.db ++ [(id, 0)] → (∀ k ∈ counters s.db, k.1 ≠ id) →
      Moved sha256 s a t
  | sent {c : SendCall} {t : Sys} {r : SentMessage} :
      answer sha256 s c = some (.ok (r, t.db)) → Did sha256 s.db c.id c.input r t.db →
      Moved sha256 s (.send c) t

theorem step_moved (h : Rel (step sha256) s a t) : Moved sha256 s a t := by
  unfold Runs.Rel at h
  cases a with
  | create_conversation seen now auth input id seat seats =>
    simp only [step, Option.map_eq_some_iff] at h
    obtain ⟨v, -, h⟩ := h
    split at h
    · rename_i n db' hok
      obtain rfl := h.symm
      obtain ⟨hacc, hcount, hnew⟩ := opens_thread hok
      exact .opened hacc hcount hnew
    · obtain rfl := h
      exact .still rfl rfl
  | send c =>
    simp only [step, Option.map_eq_some_iff] at h
    obtain ⟨r, hr, h⟩ := h
    have hsent := hr
    obtain ⟨v, -, hv⟩ := Option.map_eq_some_iff.mp hr
    split at h
    · obtain rfl := h.symm
      exact .sent hsent (send_did hv)
    · obtain rfl := h
      exact .still rfl rfl
  | other db' =>
    simp only [step, Option.ite_none_right_eq_some, Option.some.injEq] at h
    obtain ⟨hleaves, rfl⟩ := h
    simp only [leaves_messages, Bool.and_eq_true, beq_iff_eq] at hleaves
    exact .still hleaves.1 hleaves.2

/-- **One step** keeps the sequence. -/
theorem Inv.step (hs : Inv s.db) (h : Rel (step sha256) s a t) : Inv t.db := by
  cases step_moved h with
  | still hacc hcount => exact hs.congr hacc hcount
  | opened hacc hcount hnew => exact hs.opened hacc hcount hnew
  | sent _ hdid => exact hs.sent hdid

/-- A message stays, as what it is. -/
theorem accepted_step (h : Rel (step sha256) s a t) : ∀ x ∈ accepted s.db, x ∈ accepted t.db := by
  intro x hx
  cases step_moved h with
  | still hacc _ => rwa [hacc]
  | opened hacc _ _ => rwa [hacc]
  | sent _ hdid =>
    cases hdid with
    | again hsame => rwa [hsame]
    | first _ _ _ hacc _ =>
      rw [hacc]
      exact List.mem_append_left _ hx

end Steps

/-! ## The law -/

/-- What a run's sends have done, up to its last state `s`. -/
structure SendLaw (sha256 : String → String) (tr : List (Trans Sys Act)) (s : Sys) : Prop where
  /-- A thread's numbers are 1 to `last_seq`, each once. -/
  gapless : ∀ c ∈ s.db.conversations,
    ((s.db.conversation_messages.filter fun m => m.conversation_id == c.id).map
      ConversationMessage.seq).Perm (List.range' 1 c.last_seq)
  /-- A request made one message. -/
  once : Keyed (fun m : ConversationMessage => (m.conversation_id, m.request_id))
    s.db.conversation_messages
  /-- Every successful send was told the id and number of the message its request
  made, and had the body that made it. -/
  answered : ∀ e ∈ tr, ∀ c, e.act = .send c → ∀ r db', answer sha256 e.pre c = some (.ok (r, db')) →
    ∃ m ∈ s.db.conversation_messages, m.conversation_id = c.id ∧ m.request_id = c.input.request_id ∧
      m.id = r.message_id ∧ m.seq = r.seq ∧ m.body_sha256 = some (sha256 (trim c.input.body))
  /-- A send with another body is refused. -/
  conflict : ∀ e ∈ tr, ∀ c, e.act = .send c → ∀ m ∈ e.pre.db.conversation_messages,
    m.conversation_id = c.id → m.request_id = c.input.request_id →
    m.body_sha256 ≠ some (sha256 (trim c.input.body)) →
    ∃ err, answer sha256 e.pre c = some (.error err)
  /-- A refused send changes nothing. -/
  refused : ∀ e ∈ tr, ∀ c, e.act = .send c → ∀ err, answer sha256 e.pre c = some (.error err) →
    e.post.db = e.pre.db

section Law

variable {sha256 : String → String} {s₀ s t : Sys} {tr : List (Trans Sys Act)}

/-- A message stays through a run. -/
theorem accepted_run (h : Run (Rel (step sha256)) s tr t) : ∀ x ∈ accepted s.db, x ∈ accepted t.db := by
  intro x hx
  exact h.invariant' (I := fun u => x ∈ accepted u.db) hx fun _ _ _ hu hr => accepted_step hr x hu

/-- **Send is exactly-once and gap-free**, in every run from a database whose threads
have counted their messages. -/
theorem sends_exactly_once (h₀ : Inv s₀.db) (h : Run (Rel (step sha256)) s₀ tr s) :
    SendLaw sha256 tr s := by
  have hinv : Inv s.db := h.invariant' (I := fun u => Inv u.db) h₀ fun _ _ _ hu hr => hu.step hr
  have hpre : ∀ e ∈ tr, Inv e.pre.db :=
    h.invariant_pre (I := fun u => Inv u.db) (C := fun _ _ => True) h₀
      (fun _ _ _ hu _ hr => hu.step hr) fun _ _ => trivial
  refine ⟨?_, ?_, ?_, ?_, ?_⟩
  · intro c hc
    have hperm := hinv.gapless (c.id, c.last_seq) (List.mem_map.mpr ⟨c, hc, rfl⟩)
    unfold seqs accepted at hperm
    rw [List.filter_map, List.map_map] at hperm
    exact hperm
  · have hkeys := hinv.requests
    unfold Keyed accepted at hkeys
    rw [List.map_map] at hkeys
    exact hkeys
  · intro e he c hact r db' hans
    obtain ⟨tr₁, tr₂, rfl⟩ := List.append_of_mem he
    obtain ⟨-, hrel, hafter⟩ := h.split
    -- the message is there after the send, and stays
    have hin : ⟨r.message_id, c.id, r.seq, c.input.request_id, some (sha256 (trim c.input.body))⟩ ∈
        accepted s.db := by
      refine accepted_run hafter _ ?_
      rw [hact] at hrel
      have hpost : e.post = e.pre.commit db' := by
        unfold Runs.Rel at hrel
        simpa [step, hans] using hrel.symm
      obtain ⟨v, -, hv⟩ := Option.map_eq_some_iff.mp hans
      rw [hpost]
      cases send_did hv with
      | again hsame hm hident =>
        rw [← hident]
        exact List.mem_map_of_mem (hsame ▸ hm)
      | first _ _ _ hacc _ =>
        show _ ∈ accepted db'
        rw [hacc]
        exact List.mem_append_right _ (List.mem_singleton.mpr rfl)
    obtain ⟨m, hm, hident⟩ := List.mem_map.mp hin
    simp only [ident, Ident.mk.injEq] at hident
    obtain ⟨hid, hconv, hseq, hreq, hbody⟩ := hident
    exact ⟨m, hm, hconv, hreq, hid, hseq, hbody⟩
  · intro e he c hact m hm hconv hreq hne
    have hrel := h.rel e he
    rw [hact] at hrel
    unfold Runs.Rel at hrel
    simp only [step, Option.map_eq_some_iff] at hrel
    obtain ⟨res, hres, -⟩ := hrel
    obtain ⟨v, hv, hsend⟩ := Option.map_eq_some_iff.mp hres
    obtain ⟨err, herr⟩ := send_conflict hm (hpre e he).requests ⟨hconv, hreq⟩ hne
    refine ⟨err, ?_⟩
    unfold answer
    rw [hv, Option.map_some, herr]
  · intro e he c hact err herr
    have hrel := h.rel e he
    rw [hact] at hrel
    unfold Runs.Rel at hrel
    simp only [step, herr, Option.map_some, Option.some.injEq] at hrel
    rw [← hrel]

end Law

/-! ## A run -/

/-- A team with no thread yet. -/
def crew : Db := pair .postgres

/-- A call of Ada's to thread 7. -/
def call (body : String) (request_id message_id : Uuid) : SendCall :=
  ⟨0, 0, ada, 7, ⟨body, request_id, none⟩, message_id, 0⟩

/-- Ada sends, retries with blanks around the body, sends something else under the
same request, and then a second message. -/
def retries : List Act :=
  [.create_conversation 0 0 ada ⟨none, true, []⟩ 7 10 [], .send (call "hello" 1 100),
    .send (call " hello " 1 101), .send (call "bye" 1 102), .send (call "bye" 2 103)]

theorem retries_run : (exec (step digest) ⟨crew, []⟩ retries).isSome = true := by decide

theorem sends_exactly_once_retries :
    SendLaw digest ((exec (step digest) ⟨crew, []⟩ retries).get retries_run).1
      ((exec (step digest) ⟨crew, []⟩ retries).get retries_run).2 :=
  sends_exactly_once ⟨by decide, by decide, by decide, by decide⟩ (exec_get retries_run)

example : ((exec (step digest) ⟨crew, []⟩ retries).get retries_run).2.db.conversation_messages.map
    (fun m => (m.seq, m.body)) = [(1, "hello"), (2, "bye")] := by decide

end CrewSync.Sequence
