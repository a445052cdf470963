/-
Questions: `ask_agent` of `tools/messaging.rs`, with `find_answer` and
`verify_question`, and `pending_questions`, the count the other side is shown.

Neither side keeps a state for a question. It is a direct message with a mark in its
metadata, and whether it is answered is read off the messages after it, twice and by
different statements: the asker looks for the first message that would do, and the one
who was asked counts the questions that have none. The roles are the other way round in
the two, and a NULL session is the whole person where it says to whom a message goes and
the unnamed window where it says from which one it came.

`Answers` says once what an answer is. Both statements are about it, and they agree on
every question but one: a question that a window asks its own agent reaches that window
too, which does not wait on itself.

Left out: how a resumed call knows when to look again, which is only ever a reason to
read the table once more, and the state of the recipient it reports with what it found.
-/
import CrewSync.Posts

set_option autoImplicit false

namespace CrewSync.Questions

open Error Schema Rows Auth LowerCase
open Conversations Posts Crew

/-! ## The asker's side -/

/-- The `WHERE` clause of `find_answer`. -/
def would_answer (auth : AuthCtx) (target_id : Uuid) (target_session : Option String) (question_id : ℕ)
    (m : Post) : Bool :=
  m.sender_agent_id == target_id && m.recipient_agent_id == some auth.agent_id && question_id < m.id &&
    (m.recipient_session == none || m.recipient_session == some auth.session) &&
    (target_session == none || target_session == some (m.sender_session.getD ""))

/-- `(m.reply_to = $3) DESC NULLS LAST`: a reply to the question, then a reply to
something else, then what replies to nothing. -/
def reply_rank (question_id : ℕ) (m : Post) : ℕ :=
  match m.reply_to with
  | some r => if r = question_id then 0 else 1
  | none => 2

/-- `ORDER BY (m.reply_to = $3) DESC NULLS LAST, m.id`. -/
def answer_order (question_id : ℕ) (a b : Post) : Prop :=
  reply_rank question_id a < reply_rank question_id b ∨
    reply_rank question_id a = reply_rank question_id b ∧ a.id ≤ b.id

instance (question_id : ℕ) (a b : Post) : Decidable (answer_order question_id a b) :=
  inferInstanceAs (Decidable (_ ∨ _ ∧ _))

/-- `find_answer`. -/
def find_answer (auth : AuthCtx) (target_id : Uuid) (target_session : Option String) (question_id : ℕ)
    (posts : List Post) : Option Post :=
  ((posts.filter (would_answer auth target_id target_session question_id)).insertionSort
    (answer_order question_id)).head?

/-- The `WHERE` clause of `verify_question`. -/
def asked_it (auth : AuthCtx) (target_id : Uuid) (target_session : Option String) (question_id : ℕ)
    (m : Post) : Bool :=
  m.id == question_id && m.sender_agent_id == auth.agent_id && m.recipient_agent_id == some target_id &&
    m.sender_session.getD "" == auth.session && m.recipient_session == target_session

/-- `verify_question`. -/
def verify_question (auth : AuthCtx) (target_id : Uuid) (target_session : Option String) (question_id : ℕ)
    (posts : List Post) : BusResult Unit :=
  ensure ((one (asked_it auth target_id target_session question_id) posts).isSome = true) (.Invalid
    (s!"message {question_id} is not a question this session sent to that exact " ++
      "address; pass the question_message_id returned by ask_agent in this " ++
      "session, with the same `to`"))

/-- `has_another_live_session`. -/
def has_another_live_session (now : ℕ) (auth : AuthCtx) (presence : List Presence.AgentPresence) : Bool :=
  presence.any fun p => p.agent_id == auth.agent_id && p.session != auth.session && (now : ℤ) < p.expires_at

/-- `AskAgentArgs`. -/
structure AskAgentArgs where
  to_ : String
  question : Option String := none
  resume_message_id : Option ℕ := none
  deriving DecidableEq, Repr

/-- `AskResult`. -/
structure AskResult where
  answered : Bool
  to_ : String
  question_message_id : ℕ
  answer : Option Post
  question_stored : Bool
  deriving DecidableEq, Repr

/-- `metadata: Some(json!({ "question": true }))`. -/
def question_metadata : Metadata := ⟨17, true⟩

/-- What `ask_agent` posts. -/
def question_input (to_ question : String) : PostInput :=
  { to_ := some to_, body := question, metadata := some question_metadata }

/-- The question a call is about: one it asked before, or the one it asks now. -/
def question_of (t : CaseTable) (now id : ℕ) (auth : AuthCtx) (args : AskAgentArgs) (target_id : Uuid)
    (target_session : Option String) (db : PostDb) : BusResult ℕ :=
  match args.resume_message_id with
  | some id => do
    verify_question auth target_id target_session id db.posts
    pure id
  | none => do
    let question ← fetch ((args.question.map trim).filter (· ≠ "")) (.Invalid
      "provide `question`, or `resume_message_id` to keep waiting on an earlier one")
    let (posted, _) ← post_message t now id auth (question_input (trim args.to_) question) db
    pure posted.id

/-- `ask_agent`. The tables it finds each time it looks are `looks`; it returns with the
first answer, and without one when it has looked for the last time. -/
def ask_agent (t : CaseTable) (now id : ℕ) (auth : AuthCtx) (args : AskAgentArgs) (db : PostDb)
    (looks : List (List Post)) : BusResult AskResult := do
  let (target_name, target_session) ← parse_address (trim args.to_)
  let target_id ← agent_id_by_name auth.team_id target_name db.db
  let only_me := match target_session with
    | some s => s == auth.session
    | none => !has_another_live_session now auth db.presence
  ensure (¬ (target_id = auth.agent_id ∧ only_me = true)) (.Invalid
    ("nothing would ever read that question: the address resolves to this " ++
      "session and no other window of yours is live. Ask a teammate, or " ++
      "another of your own sessions as 'you/<session>' — list_agents shows " ++
      "which are open."))
  let question_id ← question_of t now id auth args target_id target_session db
  let answer := looks.findSome? (find_answer auth target_id target_session question_id)
  pure ⟨answer.isSome, trim args.to_, question_id, answer, true⟩

/-! ## The other side -/

/-- `PENDING_QUESTION_HOURS`. -/
def PENDING_QUESTION_HOURS : ℕ := 24

/-- `created_at > now() - make_interval(hours => $3)`. -/
def recent (now : ℕ) (q : Post) : Bool := now < q.created_at + secs (PENDING_QUESTION_HOURS * 3600)

/-- The `EXISTS` of `pending_questions`. -/
def answers (auth : AuthCtx) (q a : Post) : Bool :=
  a.sender_agent_id == auth.agent_id && a.recipient_agent_id == some q.sender_agent_id && q.id < a.id &&
    (a.recipient_session == none || a.recipient_session == some (q.sender_session.getD "")) &&
    (q.recipient_session == none || q.recipient_session == some (a.sender_session.getD ""))

/-- `q.recipient_agent_id = $1 AND (q.recipient_session IS NULL OR q.recipient_session = $2)`. -/
def receives (auth : AuthCtx) (q : Post) : Bool :=
  q.recipient_agent_id == some auth.agent_id &&
    (q.recipient_session == none || q.recipient_session == some auth.session)

/-- `q.sender_agent_id = $1 AND COALESCE(q.sender_session, '') = $2`. -/
def asked_by (auth : AuthCtx) (q : Post) : Bool :=
  q.sender_agent_id == auth.agent_id && q.sender_session.getD "" == auth.session

/-- The `WHERE` clause of `pending_questions`. -/
def pending (now : ℕ) (auth : AuthCtx) (posts : List Post) (q : Post) : Bool :=
  receives auth q && q.question && recent now q && !asked_by auth q && !posts.any (answers auth q)

/-- The questions a window has still to answer. -/
def waiting (now : ℕ) (auth : AuthCtx) (posts : List Post) : List Post := posts.filter (pending now auth posts)

/-- `pending_questions`. -/
def pending_questions (now : ℕ) (auth : AuthCtx) (posts : List Post) : ℕ := (waiting now auth posts).length

/-! ## What an answer is -/

/-- `a` answers `q`: it comes after it, from the agent that was asked, and from the window
where the question named one; it goes to the agent that asked, and not to another window
of theirs than the one that did. -/
structure Answers (q a : Post) : Prop where
  sender : q.recipient_agent_id = some a.sender_agent_id
  recipient : a.recipient_agent_id = some q.sender_agent_id
  later : q.id < a.id
  asking : a.recipient_session = none ∨ a.recipient_session = some (q.sender_session.getD "")
  asked : q.recipient_session = none ∨ q.recipient_session = some (a.sender_session.getD "")

section Agreement

variable {now : ℕ} {A B : AuthCtx} {q a : Post} {posts : List Post} {target_id : Uuid}
  {target_session : Option String} {question_id : ℕ}

theorem asked_by_iff : asked_by A q = true ↔ q.sender_agent_id = A.agent_id ∧ q.sender_session.getD "" = A.session := by
  unfold asked_by
  rw [Bool.and_eq_true, beq_iff_eq, beq_iff_eq]

/-- To the window that asked, an answer is what `find_answer` takes, -/
theorem would_answer_iff (hasked : asked_by A q = true) (hto : q.recipient_agent_id = some target_id) :
    would_answer A target_id q.recipient_session q.id a = true ↔ Answers q a := by
  obtain ⟨hagent, hsession⟩ := asked_by_iff.mp hasked
  unfold would_answer
  simp only [Bool.and_eq_true, Bool.or_eq_true, beq_iff_eq, decide_eq_true_eq]
  rw [← hagent, ← hsession]
  constructor
  · rintro ⟨⟨⟨⟨hsender, hrecipient⟩, hlater⟩, hasking⟩, hwindow⟩
    exact ⟨hto.trans (congrArg some hsender.symm), hrecipient, hlater, hasking, hwindow⟩
  · intro h
    have hsender : a.sender_agent_id = target_id := Option.some.inj (h.sender.symm.trans hto)
    exact ⟨⟨⟨⟨hsender, h.recipient⟩, h.later⟩, h.asking⟩, h.asked⟩

/-- and to a window that was asked it is what the count's `EXISTS` finds. -/
theorem answers_iff (hto : q.recipient_agent_id = some B.agent_id) : answers B q a = true ↔ Answers q a := by
  unfold answers
  simp only [Bool.and_eq_true, Bool.or_eq_true, beq_iff_eq, decide_eq_true_eq]
  constructor
  · rintro ⟨⟨⟨⟨hsender, hrecipient⟩, hlater⟩, hasking⟩, hwindow⟩
    exact ⟨hto.trans (congrArg some hsender.symm), hrecipient, hlater, hasking, hwindow⟩
  · intro h
    have hsender : a.sender_agent_id = B.agent_id := Option.some.inj (h.sender.symm.trans hto)
    exact ⟨⟨⟨⟨hsender, h.recipient⟩, h.later⟩, h.asking⟩, h.asked⟩

theorem mem_find_answer (h : find_answer A target_id target_session question_id posts = some a) :
    a ∈ posts ∧ would_answer A target_id target_session question_id a = true := by
  have hmem := List.mem_of_mem_head? h
  rw [List.mem_insertionSort, List.mem_filter] at hmem
  exact hmem

/-- `find_answer` finds nothing only where there is nothing. -/
theorem find_answer_none_iff :
    find_answer A target_id target_session question_id posts = none ↔
      ∀ a ∈ posts, would_answer A target_id target_session question_id a = false := by
  unfold find_answer
  rw [List.head?_eq_none_iff]
  constructor
  · intro hnil a ha
    by_contra hwould
    have hin : a ∈ (posts.filter (would_answer A target_id target_session question_id)).insertionSort
        (answer_order question_id) :=
      (List.mem_insertionSort _).mpr (List.mem_filter.mpr ⟨ha, Bool.not_eq_false _ |>.mp hwould⟩)
    rw [hnil] at hin
    exact absurd hin List.not_mem_nil
  · intro hall
    rw [List.filter_eq_nil_iff.mpr fun a ha => Bool.eq_false_iff.mp (hall a ha)]
    rfl

/-- The asker finds nothing just where nothing answers. -/
theorem unanswered_iff (hasked : asked_by A q = true) (hto : q.recipient_agent_id = some target_id) :
    find_answer A target_id q.recipient_session q.id posts = none ↔ ∀ a ∈ posts, ¬ Answers q a := by
  rw [find_answer_none_iff]
  refine forall₂_congr fun a _ => ?_
  rw [← would_answer_iff hasked hto, Bool.not_eq_true]

/-- A question that reaches a window is counted there while nothing answers it, unless the
window is the one that asked. -/
theorem pending_iff (hreceives : receives B q = true) (hquestion : q.question = true) (hrecent : recent now q = true) :
    pending now B posts q = true ↔ asked_by B q = false ∧ ∀ a ∈ posts, ¬ Answers q a := by
  have hto : q.recipient_agent_id = some B.agent_id := by
    unfold receives at hreceives
    rw [Bool.and_eq_true, beq_iff_eq] at hreceives
    exact hreceives.1
  unfold pending
  rw [hreceives, hquestion, hrecent, Bool.true_and, Bool.true_and, Bool.true_and, Bool.and_eq_true,
    Bool.not_eq_true', Bool.not_eq_true', List.any_eq_false]
  refine and_congr_right fun _ => forall₂_congr fun a _ => ?_
  rw [answers_iff hto]

/-- The two sides of a question. -/
theorem mem_waiting_iff (hq : q ∈ posts) (hasked : asked_by A q = true) (hreceives : receives B q = true)
    (hquestion : q.question = true) (hrecent : recent now q = true) :
    q ∈ waiting now B posts ↔
      ¬ (A.agent_id = B.agent_id ∧ A.session = B.session) ∧
        find_answer A B.agent_id q.recipient_session q.id posts = none := by
  have hto : q.recipient_agent_id = some B.agent_id := by
    unfold receives at hreceives
    rw [Bool.and_eq_true, beq_iff_eq] at hreceives
    exact hreceives.1
  obtain ⟨hagent, hsession⟩ := asked_by_iff.mp hasked
  have hown : asked_by B q = false ↔ ¬ (A.agent_id = B.agent_id ∧ A.session = B.session) := by
    rw [← Bool.not_eq_true, asked_by_iff, hagent, hsession]
  unfold waiting
  rw [List.mem_filter, and_iff_right hq, pending_iff hreceives hquestion hrecent, unanswered_iff hasked hto, hown]

end Agreement

/-! ## A resumed call -/

section Resumed

variable {t : CaseTable} {now id question_id : ℕ} {auth : AuthCtx} {args : AskAgentArgs} {db : PostDb}
  {looks : List (List Post)} {r : AskResult}

/-- The address a call writes to: an agent, and a window of theirs if it names one. -/
def addresses (auth : AuthCtx) (args : AskAgentArgs) (db : PostDb) (target_id : Uuid)
    (target_session : Option String) : Prop :=
  ∃ name, parse_address (trim args.to_) = .ok (name, target_session) ∧
    agent_id_by_name auth.team_id name db.db = .ok target_id

/-- A call that was taken looks for the answer to one question, at the address it was given. -/
theorem ask_agent_ok (h : ask_agent t now id auth args db looks = .ok r) :
    ∃ target_id target_session, addresses auth args db target_id target_session ∧
      question_of t now id auth args target_id target_session db = .ok r.question_message_id ∧
      r.answer = looks.findSome? (find_answer auth target_id target_session r.question_message_id) := by
  unfold ask_agent at h
  simp only [bind_eq_ok, pure_eq_ok, ensure_eq_ok] at h
  obtain ⟨⟨name, target_session⟩, haddress, target_id, htarget, _, -, question_id, hquestion, rfl⟩ := h
  exact ⟨target_id, target_session, ⟨name, haddress, htarget⟩, hquestion, rfl⟩

/-- A call resumes a question its window sent to that very address. -/
theorem resumed_question {target_id : Uuid} {target_session : Option String}
    (hresume : args.resume_message_id = some question_id) {asked : ℕ}
    (h : question_of t now id auth args target_id target_session db = .ok asked) :
    asked = question_id ∧ ∃ q ∈ db.posts, q.id = question_id ∧ asked_by auth q = true ∧
      q.recipient_agent_id = some target_id ∧ q.recipient_session = target_session := by
  unfold question_of verify_question at h
  simp only [hresume, bind_eq_ok, pure_eq_ok, ensure_eq_ok] at h
  obtain ⟨_, hsome, rfl⟩ := h
  obtain ⟨q, hone⟩ := Option.isSome_iff_exists.mp hsome
  have hpos := pos_of_one hone
  unfold asked_it at hpos
  simp only [Bool.and_eq_true, beq_iff_eq] at hpos
  obtain ⟨⟨⟨⟨hid, hsender⟩, hto⟩, hwindow⟩, hsession⟩ := hpos
  exact ⟨rfl, q, mem_of_one hone, hid, asked_by_iff.mpr ⟨hsender, hwindow⟩, hto, hsession⟩

/-- What a resumed call returns answers the question it resumed. -/
theorem resumed_answer {m : Post} (h : ask_agent t now id auth args db looks = .ok r)
    (hresume : args.resume_message_id = some question_id) (hm : r.answer = some m) :
    ∃ target_id target_session, addresses auth args db target_id target_session ∧
      ∃ q ∈ db.posts, q.id = question_id ∧ asked_by auth q = true ∧
        q.recipient_agent_id = some target_id ∧ q.recipient_session = target_session ∧ Answers q m := by
  obtain ⟨target_id, target_session, haddress, hquestion, hanswer⟩ := ask_agent_ok h
  obtain ⟨hid, q, hq, hqid, hasked, hto, hsession⟩ := resumed_question hresume hquestion
  refine ⟨target_id, target_session, haddress, q, hq, hqid, hasked, hto, hsession, ?_⟩
  rw [hm] at hanswer
  obtain ⟨posts, -, hfound⟩ := List.exists_of_findSome?_eq_some hanswer.symm
  have hwould := (mem_find_answer hfound).2
  rw [hid, ← hqid, ← hsession] at hwould
  exact (would_answer_iff hasked hto).mp hwould

end Resumed

/-! ## Both sides -/

/-- **Both sides of a question agree on whether it is answered**, unless they are one: the
window that was asked counts the question just while the asker finds nothing, and a window
that asked itself, with the rest of its agent, never does. What a resumed call returns is
from the address it was given, and from no other window of it. -/
theorem both_sides_agree (t : CaseTable) :
    (∀ (now : ℕ) (A B : AuthCtx) (q : Post) (posts : List Post), q ∈ posts → asked_by A q = true →
      receives B q = true → q.question = true → recent now q = true →
      (q ∈ waiting now B posts ↔
        ¬ (A.agent_id = B.agent_id ∧ A.session = B.session) ∧
          find_answer A B.agent_id q.recipient_session q.id posts = none)) ∧
    (∀ (now id question_id : ℕ) (auth : AuthCtx) (args : AskAgentArgs) (db : PostDb) (looks : List (List Post))
      (r : AskResult) (m : Post), ask_agent t now id auth args db looks = .ok r →
      args.resume_message_id = some question_id → r.answer = some m →
      ∃ target_id target_session, addresses auth args db target_id target_session ∧
        m.sender_agent_id = target_id ∧
        (target_session = none ∨ target_session = some (m.sender_session.getD "")) ∧
        m.recipient_agent_id = some auth.agent_id ∧
        (m.recipient_session = none ∨ m.recipient_session = some auth.session)) := by
  refine ⟨fun now A B q posts hq hasked hreceives hquestion hrecent => ?_,
    fun now id question_id auth args db looks r m h hresume hm => ?_⟩
  · exact mem_waiting_iff hq hasked hreceives hquestion hrecent
  · obtain ⟨target_id, target_session, haddress, q, -, -, hasked, hto, hsession, hanswers⟩ :=
      resumed_answer h hresume hm
    obtain ⟨hagent, hwindow⟩ := asked_by_iff.mp hasked
    refine ⟨target_id, target_session, haddress, ?_, ?_, ?_, ?_⟩
    · exact Option.some.inj (hanswers.sender.symm.trans hto)
    · rw [← hsession]
      exact hanswers.asked
    · rw [← hagent]
      exact hanswers.recipient
    · rw [← hwindow]
      exact hanswers.asking

/-! ## Two questions -/

/-- A crew of two. -/
def crew : PostDb :=
  { db := pair .postgres }

/-- Bob in his other window. -/
def bob : AuthCtx := caller 2 "bob" "api"

/-- A question Ada asked from her desk, as it is stored. -/
def question (id : ℕ) (to_ : Uuid) : Post :=
  ⟨⟨id, 1, none, some to_, none, 1, some "desk", "who has the key?"⟩, none, true, false, 0⟩

/-- Bob's reply, from his window. -/
def reply : Post := ⟨⟨9, 1, none, some 1, some "desk", 2, some "api", "I do"⟩, some 7, false, false, 1⟩

/-- Ada's question to Bob is one he has to answer, and it is no more when he has: a call that
resumes it returns his reply. -/
theorem both_sides_agree_bob :
    question 7 2 ∈ waiting 0 bob [question 7 2] ∧
    question 7 2 ∉ waiting 0 bob [question 7 2, reply] ∧
    ∃ target_id target_session, addresses ada_at_desk ⟨" bob", none, some 7⟩ { crew with posts := [question 7 2] }
        target_id target_session ∧ reply.sender_agent_id = target_id := by
  have hboth := both_sides_agree ascii
  refine ⟨?_, ?_, ?_⟩
  · exact (hboth.1 0 ada_at_desk bob (question 7 2) [question 7 2] (by decide) (by decide) (by decide) rfl
      (by decide)).mpr ⟨by decide, by decide⟩
  · intro hin
    have hnone := ((hboth.1 0 ada_at_desk bob (question 7 2) [question 7 2, reply] (by decide) (by decide) (by decide) rfl
      (by decide)).mp hin).2
    exact absurd hnone (by decide)
  · obtain ⟨target_id, target_session, haddress, hsender, -⟩ := hboth.2 1 10 7 ada_at_desk ⟨" bob", none, some 7⟩
      { crew with posts := [question 7 2] } [[question 7 2], [question 7 2, reply]]
      ⟨true, "bob", 7, some reply, true⟩ reply (by decide) rfl rfl
    exact ⟨target_id, target_session, haddress, hsender⟩

/-- Ada asks whoever of her windows reads it, and nobody answers. The window she asked from
receives the question and finds no answer to it, and does not count it. -/
theorem own_question_is_not_counted :
    post_message ascii 0 7 ada_at_desk (question_input "ada" "who has the key?") crew = .ok (question 7 1, ["ada"]) ∧
    asked_by ada_at_desk (question 7 1) = true ∧ receives ada_at_desk (question 7 1) = true ∧
    (question 7 1).question = true ∧ recent 0 (question 7 1) = true ∧
    find_answer ada_at_desk ada_at_desk.agent_id (question 7 1).recipient_session (question 7 1).id [question 7 1] = none ∧
    question 7 1 ∉ waiting 0 ada_at_desk [question 7 1] ∧ pending_questions 0 ada_at_desk [question 7 1] = 0 := by
  decide

end CrewSync.Questions
