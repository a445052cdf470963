/-
`watch` of `hook.rs`: the hook that waits on the bus as an idle window, and wakes it.

A watcher reads what is waiting with three calls: how many direct messages are unread, which is the
newest one, and how many conversation messages are undelivered. It compares this with the mark that
the last reading left, and leaves its own. Watchers follow one another, and the mark passes from
each to the next in a file, under a lock.

The three calls are answered at three moments, and two of the three figures are counts. A direct
message that arrives between the first two calls of a reading that counted none moves the mark and
wakes nobody. A conversation message that arrives after the window has taken one leaves the count as
it was. Where none of this happens (`undisturbed`), each message that is unread when a reading
starts is in a wake when it ends, and every wake has something that the wakes before did not have.

A watcher's token is its place in the list of all that were started. A reading keeps the messages
that its figures stand for. `wakes`, `marked` and `later` only keep what has happened. Left out:
what a watcher says of itself on the bus, the file that cannot be written, and the waits between two
readings.
-/
import Mathlib.Data.List.Perm.Subperm
import CrewSync.CodexWake

set_option autoImplicit false

namespace CrewSync.Watch

open Runs
open CodexWake (Reading WatchState watch_step primed wake_text)

/-! ## What is waiting for the window -/

/-- A message for the window. -/
inductive Msg where
  | direct (id : ℕ)
  | conversation (id : ℕ)
  deriving DecidableEq, Repr

/-- The window's mail: the direct messages that can be seen, up to where it has read them, and the
conversation messages that were not delivered to it yet, and that were. -/
structure Mailbox where
  direct : List ℕ
  cursor : ℕ
  inbox : List ℕ
  delivered : List ℕ
  deriving DecidableEq, Repr

/-- What `unread_direct_messages` counts. -/
def Mailbox.unread (b : Mailbox) : List ℕ := b.direct.filter fun id => b.cursor < id

/-- The `id` of the first message of a history, or 0. -/
def newest (ids : List ℕ) : ℕ := ids.foldr max 0

/-- What a reading has seen: the unread direct messages and the undelivered conversation messages at
its first call, the direct messages at its second, the conversation messages at its third, and
whether that one was answered. -/
structure Look where
  counted : List ℕ
  began : List ℕ
  listed : List ℕ
  waiting : List ℕ
  known : Bool
  deriving DecidableEq, Repr

/-- `pending_for_window`. -/
def Look.reading (l : Look) : Reading :=
  ⟨l.counted.length, newest l.listed, if l.known then some (l.waiting.length : ℤ) else none⟩

/-- The message was unread, or undelivered, when the reading began. -/
def Look.has (l : Look) : Msg → Prop
  | .direct id => id ∈ l.counted
  | .conversation id => id ∈ l.began

instance (l : Look) (m : Msg) : Decidable (l.has m) :=
  match m with
  | .direct id => inferInstanceAs (Decidable (id ∈ l.counted))
  | .conversation id => inferInstanceAs (Decidable (id ∈ l.began))

/-! ## The watchers -/

/-- Where a watcher is in `watch`. -/
inductive Phase where
  /-- At the top of the loop, or waiting to come there. -/
  | looking (seen : Option WatchState)
  | counting (seen : Option WatchState)
  | listing (seen : Option WatchState) (counted began : List ℕ)
  | asking (seen : Option WatchState) (counted began listed : List ℕ)
  | deciding (seen : Option WatchState) (look : Look)
  | ended (notice : Option String)
  deriving DecidableEq, Repr

/-- A wake: the mark, and the reading that decided it. -/
structure Wake where
  seen : WatchState
  look : Look
  deriving DecidableEq, Repr

/-- The wake's figures have the message in them, or it is among the direct messages that were news. -/
def Wake.of (w : Wake) : Msg → Prop
  | .direct id => id ∈ w.look.counted ∨ (id ∈ w.look.listed ∧ w.seen.newest_direct < id)
  | .conversation id => w.look.known = true ∧ id ∈ w.look.waiting

instance (w : Wake) (m : Msg) : Decidable (w.of m) :=
  match m with
  | .direct id => inferInstanceAs (Decidable (id ∈ w.look.counted ∨ (id ∈ w.look.listed ∧ w.seen.newest_direct < id)))
  | .conversation id => inferInstanceAs (Decidable (w.look.known = true ∧ id ∈ w.look.waiting))

/-- The state. `marked` are the conversation messages that the mark's figure stands for, `later` the
messages that have arrived since there is a mark. -/
structure Sys where
  bus : Mailbox
  file : Option WatchState
  watchers : List Phase
  wakes : List Wake
  marked : List ℕ
  later : List Msg
  deriving DecidableEq, Repr

/-- Whose the file is. -/
def Sys.owner (s : Sys) : Option ℕ := s.file.bind WatchState.token

/-- The mark, once a watcher has read the counts. -/
def Sys.mark (s : Sys) : Option WatchState := s.file.filter WatchState.primed

def Sys.put (s : Sys) (i : ℕ) (ph : Phase) : Sys := { s with watchers := s.watchers.set i ph }

/-- What can happen next. -/
inductive Act where
  | arrive (m : Msg)
  /-- The window reads its direct messages, or takes conversation messages. -/
  | read (to_ : ℕ)
  | deliver (ids : List ℕ)
  /-- A watcher starts, and claims the window. -/
  | start
  | look (i : ℕ)
  /-- The three calls. -/
  | whoami (i : ℕ)
  | newest (i : ℕ)
  | status (i : ℕ) (known : Bool)
  /-- One of the first two fails. -/
  | fail (i : ℕ)
  | decide (i : ℕ)
  /-- Its time is over, or the binding is closed. -/
  | stop (i : ℕ)
  deriving DecidableEq, Repr

/-- A message arrives, under an id of its own. -/
def Mailbox.take (b : Mailbox) : Msg → Option Mailbox
  | .direct id => if id ∈ b.direct then none else some { b with direct := b.direct ++ [id] }
  | .conversation id =>
    if id ∈ b.inbox ∨ id ∈ b.delivered then none else some { b with inbox := b.inbox ++ [id] }

/-- The window takes conversation messages. -/
def Mailbox.deliver (b : Mailbox) (ids : List ℕ) : Mailbox :=
  { b with
    inbox := b.inbox.filter fun id => !ids.contains id
    delivered := b.delivered ++ b.inbox.filter fun id => ids.contains id }

/-- What a watcher claims the window with. -/
def claim (token : ℕ) (prior : Option WatchState) : WatchState :=
  match prior with
  | some m => { m with token := some token }
  | none => { token := some token }

/-- What a reading comes to: whether to wake, and the new mark. -/
def decided (i : ℕ) (seen : Option WatchState) (look : Look) : Bool × WatchState :=
  match seen with
  | some m => watch_step m look.reading
  | none => (false, primed i look.reading)

/-- The mark is written, and the watcher wakes the window or goes on. -/
def Sys.decide (s : Sys) (i : ℕ) (seen : Option WatchState) (look : Look) : Sys :=
  let (wake, next) := decided i seen look
  let s := { s with file := some next, marked := if look.known then look.waiting else s.marked }
  if wake then
    { s with
      wakes := s.wakes ++ [⟨seen.getD {}, look⟩]
      watchers := s.watchers.set i (.ended (some (wake_text next.direct next.inbox))) }
  else s.put i (.looking (some next))

/-- One step. -/
def step (s : Sys) : Act → Option Sys
  | .arrive m =>
    (s.bus.take m).map fun bus =>
      { s with bus := bus, later := if s.mark.isSome then s.later ++ [m] else s.later }
  | .read n => some { s with bus := { s.bus with cursor := max s.bus.cursor n } }
  | .deliver ids => some { s with bus := s.bus.deliver ids }
  | .start =>
    let m := claim s.watchers.length s.mark
    some { s with file := some m, watchers := s.watchers ++ [.looking (s.mark.map fun _ => m)] }
  | .look i =>
    match s.watchers[i]? with
    | some (.looking seen) => some (s.put i (if s.owner = some i then .counting seen else .ended none))
    | _ => none
  | .whoami i =>
    match s.watchers[i]? with
    | some (.counting seen) => some (s.put i (.listing seen s.bus.unread s.bus.inbox))
    | _ => none
  | .newest i =>
    match s.watchers[i]? with
    | some (.listing seen counted began) => some (s.put i (.asking seen counted began s.bus.direct))
    | _ => none
  | .status i known =>
    match s.watchers[i]? with
    | some (.asking seen counted began listed) =>
      some (s.put i (.deciding seen ⟨counted, began, listed, s.bus.inbox, known⟩))
    | _ => none
  | .fail i =>
    match s.watchers[i]? with
    | some (.counting seen) | some (.listing seen _ _) => some (s.put i (.looking seen))
    | _ => none
  | .decide i =>
    match s.watchers[i]? with
    | some (.deciding seen look) =>
      if s.owner = some i then some (s.decide i seen look) else some (s.put i (.ended none))
    | _ => none
  | .stop i =>
    match s.watchers[i]? with
    | some (.looking _) => some (s.put i (.ended none))
    | _ => none

/-! ## The law -/

/-- The later wake's reading had a message that was not there at the earlier one's. -/
def News (w₁ w₂ : Wake) : Prop :=
  (∃ id ∈ w₂.look.listed, id ∉ w₁.look.listed) ∨ ∃ id ∈ w₂.look.waiting, id ∉ w₁.look.waiting

/-- What the watchers of a window come to. -/
structure WatchLaw (tr : List (Trans Sys Act)) (s : Sys) : Prop where
  /-- A message that has arrived since there is a mark, and that was unread when a reading began, is
  in a wake when it ends. -/
  woken : ∀ e ∈ tr, ∀ i seen look, e.act = .decide i → e.pre.watchers[i]? = some (.deciding seen look) →
    ∀ m ∈ e.pre.later, look.has m → ∃ w ∈ e.post.wakes, w.of m
  /-- Between two wakes a message has arrived. -/
  once : s.wakes.Pairwise News

/-- What the reading has listed. -/
def Phase.listed : Phase → List ℕ
  | .asking _ _ _ listed => listed
  | .deciding _ look => look.listed
  | _ => []

/-- The mark, and the reading that may replace it, are below this id. -/
def Sys.below (s : Sys) (id : ℕ) : Bool :=
  s.mark.all (fun m => m.newest_direct < (id : ℤ)) &&
    (s.owner.bind fun i => s.watchers[i]?).all fun ph => newest ph.listed < id

/-- Where a watcher may not be disturbed:
* a direct message does not become visible behind the mark, or behind what is listed for the next
  one, unless the window has read on from there;
* none arrives between the first two calls of a reading that has counted none;
* by the third call the window has not taken what arrived since the mark was counted, and where
  something has arrived, more is waiting than was then; and an unanswered call misses nothing;
* no watcher is replaced in the middle of a reading. -/
def undisturbed (s : Sys) : Act → Bool
  | .arrive (.direct id) => s.mark.isNone || id ≤ s.bus.cursor || s.below id
  | .newest i =>
    match s.watchers[i]? with
    | some (.listing (some m) [] _) => s.owner != some i || s.bus.unread.all fun id => (id : ℤ) ≤ m.newest_direct
    | _ => true
  | .status i known =>
    match s.watchers[i]? with
    | some (.asking (some m) _ began _) => s.owner != some i ||
      if known then
        (began.all fun id => s.marked.contains id || s.bus.inbox.contains id) &&
          (s.bus.inbox.all s.marked.contains || m.inbox < (s.bus.inbox.length : ℤ))
      else (began ++ s.bus.inbox).all s.marked.contains
    | _ => true
  | .decide i => s.owner == some i
  | _ => true

/-! ## The invariant -/

/-- The mark that a phase goes on from. -/
def Phase.seen : Phase → Option (Option WatchState)
  | .looking seen | .counting seen | .listing seen _ _ | .asking seen _ _ _ | .deciding seen _ => some seen
  | .ended _ => none

/-- The conversation messages that a phase has found. -/
def Phase.waiting : Phase → List ℕ
  | .deciding _ look => look.waiting
  | _ => []

/-- The message is in a wake. -/
def Woken (s : Sys) (m : Msg) : Prop := ∃ w ∈ s.wakes, w.of m

/-- What the mark stands for has been woken for, or read. -/
structure Marked (s : Sys) (m : WatchState) : Prop where
  positive : 0 ≤ m.newest_direct
  direct : ∀ id : ℕ, .direct id ∈ s.later → (id : ℤ) ≤ m.newest_direct → id ≤ s.bus.cursor ∨ Woken s (.direct id)
  count : m.inbox = s.marked.length
  conversation : ∀ id ∈ s.marked, .conversation id ∈ s.later → Woken s (.conversation id)
  listed : ∀ w ∈ s.wakes, ∀ id ∈ w.look.listed, (id : ℤ) ≤ m.newest_direct
  waiting : ∀ w ∈ s.wakes, ∀ id ∈ s.bus.inbox, id ∈ w.look.waiting → id ∈ s.marked

/-- What the first call has counted. -/
structure Counted (s : Sys) (m : WatchState) (counted : List ℕ) : Prop where
  direct : ∀ id ∈ counted, id ∈ s.bus.direct
  old : ∀ id ∈ counted, .direct id ∈ s.later → (id : ℤ) ≤ m.newest_direct → Woken s (.direct id)

/-- What the second one has listed: what is news in it is read by now, or will be in a wake. -/
structure Listed (s : Sys) (m : WatchState) (counted listed : List ℕ) : Prop extends Counted s m counted where
  kept : ∀ id ∈ counted, id ∈ listed
  news : ∀ id : ℕ, .direct id ∈ s.later → m.newest_direct < (id : ℤ) → id ≤ newest listed →
    id ≤ s.bus.cursor ∨ (counted ≠ [] ∧ id ∈ listed)

/-- What the third one has found. -/
structure Waits (s : Sys) (m : WatchState) (look : Look) : Prop where
  known : look.known = true → (∀ id ∈ look.waiting, id ∈ s.marked ∨ m.inbox < (look.waiting.length : ℤ)) ∧
    ∀ id ∈ look.began, id ∈ s.marked ∨ id ∈ look.waiting
  unknown : look.known = false → ∀ id, id ∈ look.began ∨ id ∈ look.waiting → id ∈ s.marked
  still : ∀ id ∈ s.bus.inbox, id ∈ s.marked → id ∈ look.waiting
  past : ∀ w ∈ s.wakes, ∀ id ∈ look.waiting, id ∈ w.look.waiting → id ∈ s.marked
  nodup : look.waiting.Nodup

/-- Where the owner of the window is with its reading. -/
def Fits (s : Sys) (m : WatchState) : Phase → Prop
  | .listing _ counted _ => Counted s m counted
  | .asking _ counted _ listed => Listed s m counted listed
  | .deciding _ look => Listed s m look.counted look.listed ∧ Waits s m look
  | _ => True

/-- The invariant. -/
structure Inv (s : Sys) : Prop where
  nodup : s.bus.inbox.Nodup
  later_direct : ∀ id, .direct id ∈ s.later → id ∈ s.bus.direct
  arrived : ∀ id ∈ s.marked, id ∈ s.bus.inbox ∨ id ∈ s.bus.delivered
  token : ∀ i, s.owner = some i → i < s.watchers.length
  unprimed : s.mark = none → s.later = [] ∧ s.marked = [] ∧ s.wakes = []
  mark : ∀ m, s.mark = some m → Marked s m
  seen : ∀ (i : ℕ) ph seen, s.owner = some i → s.watchers[i]? = some ph → ph.seen = some seen → seen = s.mark
  fits : ∀ (i : ℕ) ph m, s.owner = some i → s.watchers[i]? = some ph → s.mark = some m → Fits s m ph
  waiting : ∀ (i : ℕ) ph, s.watchers[i]? = some ph → ∀ id ∈ ph.waiting, id ∈ s.bus.inbox ∨ id ∈ s.bus.delivered
  past : ∀ w ∈ s.wakes, ∀ id ∈ w.look.waiting, id ∈ s.bus.inbox ∨ id ∈ s.bus.delivered

section Keeping

variable {s t : Sys} {i : ℕ} {ph : Phase} {m : WatchState} {look : Look} {ids counted listed began : List ℕ} {id : ℕ}
  {ph' : Phase} {bus : Mailbox} {later : List Msg} {msg : Msg} {seen : Option WatchState} {w : Wake} {a : Act}

theorem le_newest (h : id ∈ ids) : id ≤ newest ids := by
  induction ids with
  | nil => exact absurd h List.not_mem_nil
  | cons a ids ih =>
    show id ≤ max a (newest ids)
    rcases List.mem_cons.mp h with rfl | h
    · exact Nat.le_max_left _ _
    · exact Nat.le_trans (ih h) (Nat.le_max_right _ _)

theorem newest_mem (h : newest ids ≠ 0) : newest ids ∈ ids := by
  induction ids with
  | nil => exact absurd rfl h
  | cons a ids ih =>
    have hmax : newest (a :: ids) = max a (newest ids) := rfl
    rw [hmax] at h ⊢
    by_cases hle : newest ids ≤ a
    · rw [Nat.max_eq_left hle]
      exact List.mem_cons_self
    · rw [Nat.max_eq_right (by omega)] at h ⊢
      exact List.mem_cons_of_mem _ (ih h)

/-- A watcher goes on; the mark and the mail are as they were. -/
theorem Inv.put (hs : Inv s) (hseen : ∀ seen, s.owner = some i → ph.seen = some seen → seen = s.mark)
    (hfits : ∀ m, s.owner = some i → s.mark = some m → Fits s m ph)
    (hwaiting : ∀ id ∈ ph.waiting, id ∈ s.bus.inbox ∨ id ∈ s.bus.delivered) : Inv (s.put i ph) := by
  have hmoved : ∀ m ph', Fits s m ph' → Fits (s.put i ph) m ph' := by
    intro m ph' h
    cases ph' with
    | looking | counting | ended => trivial
    | listing seen counted began => exact ⟨h.direct, h.old⟩
    | asking seen counted began listed => exact ⟨⟨h.direct, h.old⟩, h.kept, h.news⟩
    | deciding seen look =>
      obtain ⟨h, h'⟩ := h
      exact ⟨⟨⟨h.direct, h.old⟩, h.kept, h.news⟩, h'.known, h'.unknown, h'.still, h'.past, h'.nodup⟩
  refine ⟨hs.nodup, hs.later_direct, hs.arrived, fun j hj => ?_, hs.unprimed, fun m hm => ?_, ?_, ?_, ?_, hs.past⟩
  · show j < (s.watchers.set i ph).length
    rw [List.length_set]
    exact hs.token j hj
  · have h := hs.mark m hm
    exact ⟨h.positive, h.direct, h.count, h.conversation, h.listed, h.waiting⟩
  · intro j ph' seen hj hph' hseen'
    rcases set_at hph' with ⟨rfl, rfl⟩ | ⟨-, hph'⟩
    · exact hseen seen hj hseen'
    · exact hs.seen j ph' seen hj hph' hseen'
  · intro j ph' m hj hph' hm
    apply hmoved
    rcases set_at hph' with ⟨rfl, rfl⟩ | ⟨-, hph'⟩
    · exact hfits m hj hm
    · exact hs.fits j ph' m hj hph' hm
  · intro j ph' hph' id hid
    rcases set_at hph' with ⟨-, rfl⟩ | ⟨-, hph'⟩
    · exact hwaiting id hid
    · exact hs.waiting j ph' hph' id hid

/-- What arrivals and the window may do to the mail. -/
structure Mails (s : Sys) (bus : Mailbox) (later : List Msg) : Prop where
  nodup : bus.inbox.Nodup
  cursor : s.bus.cursor ≤ bus.cursor
  direct : ∀ id ∈ s.bus.direct, id ∈ bus.direct
  kept : ∀ id, id ∈ s.bus.inbox ∨ id ∈ s.bus.delivered → id ∈ bus.inbox ∨ id ∈ bus.delivered
  /-- What is undelivered was, or is new. -/
  inbox : ∀ id ∈ bus.inbox, id ∈ s.bus.inbox ∨ ¬(id ∈ s.bus.inbox ∨ id ∈ s.bus.delivered)
  unprimed : s.mark = none → later = []
  later_direct : ∀ id : ℕ, .direct id ∈ later → .direct id ∈ s.later ∨
    (id ∉ s.bus.direct ∧ id ∈ bus.direct ∧ (id ≤ s.bus.cursor ∨ s.below id = true))
  later_conversation : ∀ id : ℕ, .conversation id ∈ later → .conversation id ∈ s.later ∨
    ¬(id ∈ s.bus.inbox ∨ id ∈ s.bus.delivered)

theorem below_mark (h : s.below id = true) (hm : s.mark = some m) : m.newest_direct < (id : ℤ) := by
  simp only [Sys.below, Bool.and_eq_true, hm, Option.all_some, decide_eq_true_eq] at h
  exact h.1

theorem below_listed (h : s.below id = true) (hi : s.owner = some i) (hph : s.watchers[i]? = some ph) :
    newest ph.listed < id := by
  simp only [Sys.below, Bool.and_eq_true, hi, Option.bind_some, hph, Option.all_some, decide_eq_true_eq] at h
  exact h.2

theorem Counted.mail (h : Counted s m counted)
    (hm : Mails s bus later) : Counted { s with bus := bus, later := later } m counted := by
  refine ⟨fun id hid => hm.direct id (h.direct id hid), fun id hid hlater hle => ?_⟩
  rcases hm.later_direct id hlater with hold | ⟨hnew, -⟩
  · exact h.old id hid hold hle
  · exact absurd (h.direct id hid) hnew

theorem Listed.mail (h : Listed s m counted listed) (hm : Mails s bus later)
    (hbelow : ∀ id : ℕ, s.below id = true → newest listed < id) :
    Listed { s with bus := bus, later := later } m counted listed := by
  refine ⟨h.toCounted.mail hm, h.kept, fun id hlater hlt hle => ?_⟩
  rcases hm.later_direct id hlater with hold | ⟨-, -, hread | habove⟩
  · rcases h.news id hold hlt hle with hread | hnews
    · exact .inl (Nat.le_trans hread hm.cursor)
    · exact .inr hnews
  · exact .inl (Nat.le_trans hread hm.cursor)
  · have := hbelow id habove
    omega

/-- **The mail changes** beside the watchers. -/
theorem Inv.mail (hs : Inv s) (hm : Mails s bus later) : Inv { s with bus := bus, later := later } := by
  refine ⟨hm.nodup, fun id hid => ?_, fun id hid => hm.kept id (hs.arrived id hid), hs.token, fun hnone => ?_,
    fun m hmark => ?_, hs.seen, fun i ph m hi hph hmark => ?_, fun i ph hph id hid => ?_, fun w hw id hid => ?_⟩
  · rcases hm.later_direct id hid with hold | ⟨-, hin, -⟩
    · exact hm.direct id (hs.later_direct id hold)
    · exact hin
  · exact ⟨hm.unprimed hnone, (hs.unprimed hnone).2⟩
  · have h := hs.mark m hmark
    refine ⟨h.positive, fun id hlater hle => ?_, h.count, fun id hid hlater => ?_, h.listed, ?_⟩
    · rcases hm.later_direct id hlater with hold | ⟨-, -, hread | habove⟩
      · rcases h.direct id hold hle with hread | hwoken
        · exact .inl (Nat.le_trans hread hm.cursor)
        · exact .inr hwoken
      · exact .inl (Nat.le_trans hread hm.cursor)
      · have := below_mark habove hmark
        omega
    · rcases hm.later_conversation id hlater with hold | hnew
      · exact h.conversation id hid hold
      · exact absurd (hs.arrived id hid) hnew
    · intro w hw id hid hwaiting
      rcases hm.inbox id hid with hold | hnew
      · exact h.waiting w hw id hold hwaiting
      · exact absurd (hs.past w hw id hwaiting) hnew
  · have h := hs.fits i ph m hi hph hmark
    have hbelow : ∀ id : ℕ, s.below id = true → newest ph.listed < id := fun id hb => below_listed hb hi hph
    cases ph with
    | looking | counting | ended => trivial
    | listing seen counted began => exact Counted.mail h hm
    | asking seen counted began listed => exact Listed.mail h hm hbelow
    | deciding seen look =>
      refine ⟨Listed.mail h.1 hm hbelow, h.2.known, h.2.unknown, fun id hid hmarked => ?_, h.2.past, h.2.nodup⟩
      rcases hm.inbox id hid with hold | hnew
      · exact h.2.still id hold hmarked
      · exact absurd (hs.arrived id hmarked) hnew
  · exact hm.kept id (hs.waiting i ph hph id hid)
  · exact hm.kept id (hs.past w hw id hid)

theorem Inv.arrive (hs : Inv s) (hbus : s.bus.take msg = some bus) (hcalm : undisturbed s (.arrive msg) = true) :
    Inv { s with bus := bus, later := if s.mark.isSome then s.later ++ [msg] else s.later } := by
  have hprimed : s.mark = none → (if s.mark.isSome then s.later ++ [msg] else s.later) = [] := by
    intro hnone
    rw [hnone]
    exact (hs.unprimed hnone).1
  have hlater : ∀ x ∈ (if s.mark.isSome then s.later ++ [msg] else s.later),
      x ∈ s.later ∨ (x = msg ∧ s.mark.isSome = true) := by
    intro x hx
    split at hx
    · rename_i hsome
      rcases List.mem_append.mp hx with hx | hx
      · exact .inl hx
      · exact .inr ⟨List.mem_singleton.mp hx, hsome⟩
    · exact .inl hx
  apply hs.mail
  cases msg with
  | direct id =>
    obtain ⟨hnew, hbus⟩ := Option.ite_none_left_eq_some.mp hbus
    obtain rfl := Option.some.inj hbus
    refine ⟨hs.nodup, Nat.le_refl _, fun _ h => List.mem_append_left _ h, fun _ h => h, fun _ h => .inl h, hprimed,
      fun id' hid' => ?_, fun id' hid' => ?_⟩
    · rcases hlater _ hid' with hold | ⟨heq, hsome⟩
      · exact .inl hold
      · obtain rfl := Msg.direct.inj heq
        refine .inr ⟨hnew, List.mem_append_right _ (List.mem_singleton.mpr rfl), ?_⟩
        simp only [undisturbed, Bool.or_eq_true, decide_eq_true_eq] at hcalm
        rcases hcalm with (hnone | hread) | hbelow
        · rw [Option.isNone_iff_eq_none.mp hnone] at hsome
          cases hsome
        · exact .inl hread
        · exact .inr hbelow
    · rcases hlater _ hid' with hold | ⟨heq, -⟩
      · exact .inl hold
      · cases heq
  | conversation id =>
    obtain ⟨hnew, hbus⟩ := Option.ite_none_left_eq_some.mp hbus
    obtain rfl := Option.some.inj hbus
    refine ⟨?_, Nat.le_refl _, fun _ h => h, fun id' h => ?_, fun id' h => ?_, hprimed, fun id' hid' => ?_,
      fun id' hid' => ?_⟩
    · rw [List.nodup_append]
      refine ⟨hs.nodup, List.nodup_singleton _, fun a ha b hb heq => hnew (.inl ?_)⟩
      rw [← List.mem_singleton.mp hb, ← heq]
      exact ha
    · rcases h with h | h
      · exact .inl (List.mem_append_left _ h)
      · exact .inr h
    · rcases List.mem_append.mp h with h | h
      · exact .inl h
      · rw [List.mem_singleton.mp h]
        exact .inr hnew
    · rcases hlater _ hid' with hold | ⟨heq, -⟩
      · exact .inl hold
      · cases heq
    · rcases hlater _ hid' with hold | ⟨heq, -⟩
      · exact .inl hold
      · rw [Msg.conversation.inj heq]
        exact .inr hnew

theorem Inv.deliver (hs : Inv s) (ids : List ℕ) : Inv { s with bus := s.bus.deliver ids } := by
  have hmails : Mails s (s.bus.deliver ids) s.later := by
    refine ⟨hs.nodup.filter _, Nat.le_refl _, fun _ h => h, fun id h => ?_, fun id h => ?_,
      fun hnone => (hs.unprimed hnone).1, fun _ h => .inl h, fun _ h => .inl h⟩
    · rcases h with h | h
      · by_cases hin : ids.contains id = true
        · exact .inr (List.mem_append_right _ (List.mem_filter.mpr ⟨h, hin⟩))
        · exact .inl (List.mem_filter.mpr ⟨h, by simpa using hin⟩)
      · exact .inr (List.mem_append_left _ h)
    · exact .inl (List.mem_filter.mp h).1
  exact hs.mail hmails

theorem Inv.read (hs : Inv s) (n : ℕ) : Inv { s with bus := { s.bus with cursor := max s.bus.cursor n } } := by
  have hmails : Mails s { s.bus with cursor := max s.bus.cursor n } s.later :=
    ⟨hs.nodup, Nat.le_max_left _ _, fun _ h => h, fun _ h => h, fun _ h => .inl h,
      fun hnone => (hs.unprimed hnone).1, fun _ h => .inl h, fun _ h => .inl h⟩
  exact hs.mail hmails

/-! ### A reading against the mark -/

theorem wakes_iff : (watch_step m look.reading).1 = true ↔
    (look.counted ≠ [] ∧ m.newest_direct < (newest look.listed : ℤ)) ∨
      (look.known = true ∧ m.inbox < (look.waiting.length : ℤ)) := by
  cases hknown : look.known <;> simp [watch_step, Look.reading, hknown, List.length_pos_iff]

theorem step_inbox : (watch_step m look.reading).2.inbox =
    if look.known then (look.waiting.length : ℤ) else m.inbox := by
  cases hknown : look.known <;> simp [watch_step, Look.reading, hknown]

theorem decide_wakes (seen : Option WatchState) : (s.decide i seen look).wakes =
    s.wakes ++ if (decided i seen look).1 then [⟨seen.getD {}, look⟩] else [] := by
  unfold Sys.decide
  by_cases hwake : (decided i seen look).1 = true
  · simp [hwake]
  · simp [hwake, Sys.put]

theorem decide_rest (seen : Option WatchState) : (s.decide i seen look).file = some (decided i seen look).2 ∧
    (s.decide i seen look).marked = (if look.known then look.waiting else s.marked) ∧
    (s.decide i seen look).bus = s.bus ∧ (s.decide i seen look).later = s.later := by
  unfold Sys.decide
  by_cases hwake : (decided i seen look).1 = true
  · simp [hwake]
  · simp [hwake, Sys.put]

/-- The watcher has ended, or is back at the top of the loop with the new mark. -/
theorem decide_watchers (seen : Option WatchState) : ∃ ph, (s.decide i seen look).watchers = s.watchers.set i ph ∧
    (∀ seen', ph.seen = some seen' → seen' = some (decided i seen look).2) ∧ ph.waiting = [] ∧
    ∀ t m, Fits t m ph := by
  unfold Sys.decide
  by_cases hwake : (decided i seen look).1 = true
  · simp only [hwake, if_true]
    exact ⟨_, rfl, fun seen' h => absurd h (by simp [Phase.seen]), rfl, fun _ _ => trivial⟩
  · simp only [hwake, Bool.false_eq_true, if_false]
    exact ⟨_, rfl, fun seen' h => (Option.some.inj h).symm, rfl, fun _ _ => trivial⟩

/-- What a wake's figures have is in it. -/
theorem woken_now (hwake : (watch_step m look.reading).1 = true) (hof : Wake.of ⟨m, look⟩ msg) :
    Woken (s.decide i (some m) look) msg := by
  refine ⟨⟨m, look⟩, ?_, hof⟩
  have hdecided : (decided i (some m) look).1 = true := hwake
  rw [decide_wakes, hdecided]
  exact List.mem_append_right _ (List.mem_singleton.mpr rfl)

theorem woken_before (h : Woken s msg) : Woken (s.decide i seen look) msg := by
  obtain ⟨w, hw, hof⟩ := h
  refine ⟨w, ?_, hof⟩
  rw [decide_wakes]
  exact List.mem_append_left _ hw

/-- Direct messages up to the new mark are read, or in a wake. -/
theorem Marked.direct_next (hm : Marked s m) (h : Listed s m look.counted look.listed)
    (hlater : .direct id ∈ s.later) (hle : (id : ℤ) ≤ max (newest look.listed : ℤ) m.newest_direct) :
    id ≤ s.bus.cursor ∨ Woken (s.decide i (some m) look) (.direct id) := by
  by_cases hold : (id : ℤ) ≤ m.newest_direct
  · rcases hm.direct id hlater hold with hread | hwoken
    · exact .inl hread
    · exact .inr (woken_before hwoken)
  · have hnew : id ≤ newest look.listed := by omega
    rcases h.news id hlater (by omega) hnew with hread | ⟨hcounted, hin⟩
    · exact .inl hread
    · refine .inr (woken_now (wakes_iff.mpr (.inl ⟨hcounted, by omega⟩)) ?_)
      exact .inr ⟨hin, by show m.newest_direct < (id : ℤ); omega⟩

/-- So are the conversation messages that the new mark stands for. -/
theorem Marked.conversation_next (hm : Marked s m) (h : Waits s m look)
    (hlater : .conversation id ∈ s.later) (hid : id ∈ if look.known then look.waiting else s.marked) :
    Woken (s.decide i (some m) look) (.conversation id) := by
  split at hid
  · rename_i hknown
    rcases (h.known hknown).1 id hid with hmarked | hmore
    · exact woken_before (hm.conversation id hmarked hlater)
    · exact woken_now (wakes_iff.mpr (.inr ⟨hknown, hmore⟩)) ⟨hknown, hid⟩
  · exact woken_before (hm.conversation id hid hlater)

/-- **What was unread when the reading began** is in a wake when it ends. -/
theorem Marked.woken (hm : Marked s m) (h : Listed s m look.counted look.listed) (h' : Waits s m look)
    (hlater : msg ∈ s.later) (hhas : look.has msg) : Woken (s.decide i (some m) look) msg := by
  cases msg with
  | direct id =>
    by_cases hold : (id : ℤ) ≤ m.newest_direct
    · exact woken_before (h.old id hhas hlater hold)
    · -- it is listed, and above the mark
      have hle := le_newest (h.kept id hhas)
      refine woken_now (wakes_iff.mpr (.inl ⟨List.ne_nil_of_mem hhas, by omega⟩)) (.inl hhas)
  | conversation id =>
    by_cases hknown : look.known = true
    · rcases (h'.known hknown).2 id hhas with hmarked | hwaiting
      · exact woken_before (hm.conversation id hmarked hlater)
      · exact hm.conversation_next h' hlater (by rw [if_pos hknown]; exact hwaiting)
    · have hmarked := h'.unknown (Bool.eq_false_iff.mpr hknown) id (.inl hhas)
      exact woken_before (hm.conversation id hmarked hlater)

/-- **A wake is news** to every wake before it. -/
theorem Marked.news (hm : Marked s m) (h' : Waits s m look) (hwake : (watch_step m look.reading).1 = true)
    (hw : w ∈ s.wakes) : News w ⟨m, look⟩ := by
  rcases wakes_iff.mp hwake with ⟨-, hnewer⟩ | ⟨-, hmore⟩
  · -- the newest direct message was not there
    have hpositive := hm.positive
    have hne : newest look.listed ≠ 0 := by omega
    refine .inl ⟨newest look.listed, newest_mem hne, fun hin => ?_⟩
    have hle : (newest look.listed : ℤ) ≤ m.newest_direct := hm.listed w hw _ hin
    omega
  · -- more are waiting than the mark stands for
    right
    by_contra hnone
    have hsub : look.waiting ⊆ s.marked := by
      intro id hid
      apply h'.past w hw id hid
      by_contra hnot
      exact hnone ⟨id, hid, hnot⟩
    have hle := (List.subperm_of_subset h'.nodup hsub).length_le
    have hcount := hm.count
    omega

/-! ### The steps -/

theorem owner_of_mark (hm : s.mark = some m) : s.file = some m ∧ m.primed = true :=
  Option.filter_eq_some_iff.mp hm

/-- A watcher claims the window, and goes on from the mark. -/
theorem Inv.start (hs : Inv s) : Inv { s with
    file := some (claim s.watchers.length s.mark)
    watchers := s.watchers ++ [.looking (s.mark.map fun _ => claim s.watchers.length s.mark)] } := by
  have hmark : (some (claim s.watchers.length s.mark)).filter WatchState.primed =
      s.mark.map fun _ => claim s.watchers.length s.mark := by
    cases hm : s.mark with
    | none => rfl
    | some m =>
      rw [Option.filter_some]
      exact if_pos (owner_of_mark hm).2
  have howner : (claim s.watchers.length s.mark).token = some s.watchers.length := by
    unfold claim
    split <;> rfl
  have hlast : ∀ (j : ℕ) ph, some j = some s.watchers.length →
      (s.watchers ++ [Phase.looking (s.mark.map fun _ => claim s.watchers.length s.mark)])[j]? = some ph →
      ph = .looking (s.mark.map fun _ => claim s.watchers.length s.mark) := by
    intro j ph hj hph
    rw [Option.some.inj hj, List.getElem?_concat_length] at hph
    exact (Option.some.inj hph).symm
  refine ⟨hs.nodup, hs.later_direct, hs.arrived, fun j hj => ?_, fun hnone => ?_, fun m' hm' => ?_,
    fun j ph seen hj hph hseen => ?_, fun j ph m' hj hph _ => ?_, fun j ph hph id hid => ?_, hs.past⟩
  · have hj : (claim s.watchers.length s.mark).token = some j := hj
    rw [howner] at hj
    rw [← Option.some.inj hj, List.length_append]
    exact Nat.lt_succ_self _
  · have hnone : (s.mark.map fun _ => claim s.watchers.length s.mark) = none := hmark.symm.trans hnone
    exact hs.unprimed (Option.map_eq_none_iff.mp hnone)
  · have hm' : (s.mark.map fun _ => claim s.watchers.length s.mark) = some m' := hmark.symm.trans hm'
    obtain ⟨m, hm, rfl⟩ := Option.map_eq_some_iff.mp hm'
    have h := hs.mark m hm
    rw [hm]
    exact ⟨h.positive, h.direct, h.count, h.conversation, h.listed, h.waiting⟩
  · have hj : (claim s.watchers.length s.mark).token = some j := hj
    obtain rfl := hlast j ph (hj.symm.trans howner) hph
    exact (Option.some.inj hseen).symm.trans hmark.symm
  · have hj : (claim s.watchers.length s.mark).token = some j := hj
    obtain rfl := hlast j ph (hj.symm.trans howner) hph
    trivial
  · rcases List.getElem?_append.symm ▸ hph with hph
    split at hph
    · exact hs.waiting j ph hph id hid
    · have hin := List.mem_of_getElem? hph
      rw [List.mem_singleton.mp hin] at hid
      exact absurd hid List.not_mem_nil

/-! #### The mark that a reading writes -/

/-- The mark that is written is a mark, and the file stays its owner's. -/
theorem decide_marks (howner : s.owner = some i) :
    (s.decide i s.mark look).mark = some (decided i s.mark look).2 ∧ (s.decide i s.mark look).owner = some i := by
  have hprimed : (decided i s.mark look).2.primed = true := by
    unfold decided
    split <;> rfl
  have htoken : (decided i s.mark look).2.token = some i := by
    unfold decided
    split
    · rename_i m hm
      have htoken : s.file.bind WatchState.token = some i := howner
      rw [(owner_of_mark hm).1] at htoken
      exact htoken
    · rfl
  obtain ⟨hfile, -⟩ := @decide_rest s i look s.mark
  refine ⟨?_, ?_⟩
  · rw [Sys.mark, hfile, Option.filter_some, if_pos hprimed]
  · rw [Sys.owner, hfile]
    exact htoken

/-- What does not depend on whether there was a mark. -/
theorem Inv.marks (hs : Inv s) (hi : s.watchers[i]? = some (.deciding s.mark look)) (howner : s.owner = some i)
    (hnext : Marked (s.decide i s.mark look) (decided i s.mark look).2)
    (hpast : ∀ w ∈ (s.decide i s.mark look).wakes, ∀ id ∈ w.look.waiting, id ∈ s.bus.inbox ∨ id ∈ s.bus.delivered) :
    Inv (s.decide i s.mark look) := by
  obtain ⟨-, hmarked, hbus, hlater⟩ := @decide_rest s i look s.mark
  obtain ⟨ph, hwatchers, hseen, hwaiting, hfits⟩ := @decide_watchers s i look s.mark
  obtain ⟨hmark, hown⟩ := @decide_marks s i look howner
  have hlt := hs.token i howner
  refine ⟨by rw [hbus]; exact hs.nodup, by rw [hbus, hlater]; exact hs.later_direct, fun id hid => ?_,
    fun j hj => ?_, fun hnone => ?_, fun m' hm' => ?_, fun j ph' seen' hj hph' hseen' => ?_,
    fun j ph' m' hj hph' _ => ?_, fun j ph' hph' id hid => ?_, by rw [hbus]; exact hpast⟩
  · rw [hbus]
    rw [hmarked] at hid
    split at hid
    · exact hs.waiting i _ hi id hid
    · exact hs.arrived id hid
  · rw [hown] at hj
    rw [← Option.some.inj hj, hwatchers, List.length_set]
    exact hlt
  · rw [hmark] at hnone
    cases hnone
  · rw [hmark] at hm'
    rw [← Option.some.inj hm']
    exact hnext
  · rw [hown] at hj
    obtain rfl := Option.some.inj hj
    rw [hwatchers, List.getElem?_set_self hlt] at hph'
    obtain rfl := Option.some.inj hph'
    rw [hmark]
    exact hseen seen' hseen'
  · rw [hown] at hj
    obtain rfl := Option.some.inj hj
    rw [hwatchers, List.getElem?_set_self hlt] at hph'
    obtain rfl := Option.some.inj hph'
    exact hfits _ _
  · rw [hbus]
    rw [hwatchers] at hph'
    rcases set_at hph' with ⟨-, rfl⟩ | ⟨-, hph'⟩
    · rw [hwaiting] at hid
      exact absurd hid List.not_mem_nil
    · exact hs.waiting j ph' hph' id hid

/-- The first mark: nothing has arrived since, and there was no wake. -/
theorem Inv.first_mark (hs : Inv s) (hm : s.mark = none) :
    Marked (s.decide i none look) (decided i none look).2 ∧ (s.decide i none look).wakes = [] := by
  obtain ⟨hnolater, hnomarked, hnowakes⟩ := hs.unprimed hm
  obtain ⟨-, hmarked, -, hlater⟩ := @decide_rest s i look none
  have hwakes : (s.decide i none look).wakes = [] := by
    rw [decide_wakes, hnowakes]
    rfl
  refine ⟨⟨?_, ?_, ?_, ?_, ?_, ?_⟩, hwakes⟩
  · show (0 : ℤ) ≤ (newest look.listed : ℤ)
    omega
  · intro id hid
    rw [hlater, hnolater] at hid
    exact absurd hid List.not_mem_nil
  · show look.reading.inbox.getD 0 = _
    rw [hmarked, hnomarked]
    cases hknown : look.known <;> simp [Look.reading, hknown]
  · intro id _ hid
    rw [hlater, hnolater] at hid
    exact absurd hid List.not_mem_nil
  · intro w hw
    rw [hwakes] at hw
    exact absurd hw List.not_mem_nil
  · intro w hw
    rw [hwakes] at hw
    exact absurd hw List.not_mem_nil

theorem mem_decide_wakes (hw : w ∈ (s.decide i (some m) look).wakes) : w ∈ s.wakes ∨ w = ⟨m, look⟩ := by
  rw [decide_wakes] at hw
  rcases List.mem_append.mp hw with hw | hw
  · exact .inl hw
  · split at hw
    · exact .inr (List.mem_singleton.mp hw)
    · exact absurd hw List.not_mem_nil

/-- The next mark stands for more. -/
theorem Marked.next (hold : Marked s m) (hlisted : Listed s m look.counted look.listed) (hwaits : Waits s m look) :
    Marked (s.decide i (some m) look) (decided i (some m) look).2 := by
  obtain ⟨-, hmarked, hbus, hlater⟩ := @decide_rest s i look (some m)
  refine ⟨?_, ?_, ?_, ?_, ?_, ?_⟩
  · have hpositive := hold.positive
    show (0 : ℤ) ≤ max (newest look.listed : ℤ) m.newest_direct
    omega
  · intro id hid hle
    rw [hlater] at hid
    rw [hbus]
    exact hold.direct_next hlisted hid hle
  · show (watch_step m look.reading).2.inbox = _
    rw [step_inbox, hmarked]
    split
    · rfl
    · exact hold.count
  · intro id hid hconversation
    rw [hlater] at hconversation
    rw [hmarked] at hid
    exact hold.conversation_next hwaits hconversation hid
  · intro w hw id hid
    show (id : ℤ) ≤ max (newest look.listed : ℤ) m.newest_direct
    rcases mem_decide_wakes hw with hw | rfl
    · have := hold.listed w hw id hid
      omega
    · have hle : id ≤ newest look.listed := le_newest hid
      omega
  · intro w hw id hin hid
    rw [hbus] at hin
    rw [hmarked]
    rcases mem_decide_wakes hw with hw | rfl
    · have hstill := hold.waiting w hw id hin hid
      split
      · exact hwaits.still id hin hstill
      · exact hstill
    · split
      · exact hid
      · rename_i hknown
        exact hwaits.unknown (Bool.eq_false_iff.mpr hknown) id (.inr hid)

/-- **A reading ends**, and its mark is written. -/
theorem Inv.decide (hs : Inv s) (hi : s.watchers[i]? = some (.deciding seen look))
    (howner : s.owner = some i) : Inv (s.decide i seen look) ∧
      ∀ msg ∈ s.later, look.has msg → Woken (s.decide i seen look) msg := by
  obtain rfl : seen = s.mark := hs.seen i _ seen howner hi rfl
  have hwhole := hs.marks hi howner
  cases hm : s.mark with
  | none =>
    obtain ⟨hfirst, hwakes⟩ := @Inv.first_mark s i look hs hm
    rw [hm] at hwhole
    refine ⟨hwhole hfirst fun w hw => ?_, fun msg hmsg => ?_⟩
    · rw [hwakes] at hw
      exact absurd hw List.not_mem_nil
    · rw [(hs.unprimed hm).1] at hmsg
      exact absurd hmsg List.not_mem_nil
  | some m =>
    have hold := hs.mark m hm
    obtain ⟨hlisted, hwaits⟩ : Listed s m look.counted look.listed ∧ Waits s m look := hs.fits i _ m howner hi hm
    rw [hm] at hwhole
    refine ⟨hwhole (hold.next hlisted hwaits) fun w hw id hid => ?_,
      fun msg hmsg hhas => hold.woken hlisted hwaits hmsg hhas⟩
    rcases mem_decide_wakes hw with hw | rfl
    · exact hs.past w hw id hid
    · exact hs.waiting i _ hi id hid

/-- A watcher goes on from the mark it had. -/
theorem Inv.goes (hs : Inv s) (hi : s.watchers[i]? = some ph) (hseen : ph'.seen = ph.seen ∨ ph'.seen = none)
    (hfits : ∀ m, s.owner = some i → s.mark = some m → Fits s m ph')
    (hwaiting : ∀ id ∈ ph'.waiting, id ∈ s.bus.inbox ∨ id ∈ s.bus.delivered) : Inv (s.put i ph') := by
  refine hs.put (fun seen howner hph' => ?_) hfits hwaiting
  rcases hseen with hsame | hnone
  · exact hs.seen i ph seen howner hi (hsame ▸ hph')
  · rw [hnone] at hph'
    cases hph'

theorem Inv.whoami (hs : Inv s) (hi : s.watchers[i]? = some (.counting seen)) :
    Inv (s.put i (.listing seen s.bus.unread s.bus.inbox)) := by
  refine hs.goes hi (.inl rfl) (fun m _ hm => ⟨fun id hid => (List.mem_filter.mp hid).1, fun id hid hlater hle => ?_⟩)
    fun id hid => absurd hid List.not_mem_nil
  rcases (hs.mark m hm).direct id hlater hle with hread | hwoken
  · have hunread := (List.mem_filter.mp hid).2
    simp only [decide_eq_true_eq] at hunread
    omega
  · exact hwoken

theorem Inv.newest (hs : Inv s)
    (hi : s.watchers[i]? = some (.listing seen counted began)) (hcalm : undisturbed s (.newest i) = true) :
    Inv (s.put i (.asking seen counted began s.bus.direct)) := by
  refine hs.goes hi (.inl rfl) (fun m howner hm => ?_) fun id hid => absurd hid List.not_mem_nil
  have h : Counted s m counted := hs.fits i _ m howner hi hm
  obtain rfl : seen = some m := (hs.seen i _ seen howner hi rfl).trans hm
  refine ⟨h, h.direct, fun id hlater hlt _ => ?_⟩
  have hin := hs.later_direct id hlater
  by_cases hread : id ≤ s.bus.cursor
  · exact .inl hread
  · refine .inr ⟨fun hnil => ?_, hin⟩
    -- nothing was counted, so nothing is there that is news
    subst hnil
    have hunread : id ∈ s.bus.unread := List.mem_filter.mpr ⟨hin, by simpa using hread⟩
    simp only [undisturbed, hi, howner, bne_self_eq_false, Bool.false_or, List.all_eq_true, decide_eq_true_eq] at hcalm
    have := hcalm id hunread
    omega

theorem Inv.status (hs : Inv s) {known : Bool} (hi : s.watchers[i]? = some (.asking seen counted began listed))
    (hcalm : undisturbed s (.status i known) = true) :
    Inv (s.put i (.deciding seen ⟨counted, began, listed, s.bus.inbox, known⟩)) := by
  refine hs.goes hi (.inl rfl) (fun m howner hm => ?_) fun id hid => .inl hid
  have h : Listed s m counted listed := hs.fits i _ m howner hi hm
  obtain rfl : seen = some m := (hs.seen i _ seen howner hi rfl).trans hm
  simp only [undisturbed, hi, howner, bne_self_eq_false, Bool.false_or] at hcalm
  refine ⟨h, fun hknown => ?_, fun hunknown id hid => ?_, fun id hid _ => hid, fun w hw id hid hpast => ?_, hs.nodup⟩
  · have hknown : known = true := hknown
    simp only [hknown, if_true, Bool.and_eq_true, Bool.or_eq_true, List.all_eq_true, List.contains_eq_mem,
      decide_eq_true_eq] at hcalm
    refine ⟨fun id hid => ?_, hcalm.1⟩
    rcases hcalm.2 with hall | hmore
    · exact .inl (hall id hid)
    · exact .inr hmore
  · have hunknown : known = false := hunknown
    simp only [hunknown, Bool.false_eq_true, if_false, List.all_eq_true, List.contains_eq_mem, decide_eq_true_eq] at hcalm
    exact hcalm id (List.mem_append.mpr hid)
  · exact (hs.mark m hm).waiting w hw id hid hpast

/-- **One step** keeps the invariant, where no watcher is disturbed. -/
theorem Inv.step (hs : Inv s) (hcalm : undisturbed s a = true) (h : Rel step s a t) : Inv t := by
  unfold Runs.Rel at h
  cases a with
  | arrive msg =>
    obtain ⟨bus, hbus, rfl⟩ := Option.map_eq_some_iff.mp h
    exact hs.arrive hbus hcalm
  | read n =>
    obtain rfl := Option.some.inj h
    exact hs.read n
  | deliver ids =>
    obtain rfl := Option.some.inj h
    exact hs.deliver ids
  | start =>
    obtain rfl := Option.some.inj h
    exact hs.start
  | look i =>
    simp only [Watch.step] at h
    split at h
    · rename_i seen hi
      obtain rfl := Option.some.inj h
      by_cases howner : s.owner = some i
      · rw [if_pos howner]
        exact hs.goes hi (.inl rfl) (fun _ _ _ => trivial) fun id hid => absurd hid List.not_mem_nil
      · rw [if_neg howner]
        exact hs.goes hi (.inr rfl) (fun _ _ _ => trivial) fun id hid => absurd hid List.not_mem_nil
    · cases h
  | whoami i =>
    simp only [Watch.step] at h
    split at h
    · rename_i seen hi
      obtain rfl := Option.some.inj h
      exact hs.whoami hi
    · cases h
  | newest i =>
    simp only [Watch.step] at h
    split at h
    · rename_i seen counted began hi
      obtain rfl := Option.some.inj h
      exact hs.newest hi hcalm
    · cases h
  | status i known =>
    simp only [Watch.step] at h
    split at h
    · rename_i seen counted began listed hi
      obtain rfl := Option.some.inj h
      exact hs.status hi hcalm
    · cases h
  | fail i =>
    simp only [Watch.step] at h
    split at h
    · rename_i seen hi
      obtain rfl := Option.some.inj h
      exact hs.goes hi (.inl rfl) (fun _ _ _ => trivial) fun id hid => absurd hid List.not_mem_nil
    · rename_i seen counted began hi
      obtain rfl := Option.some.inj h
      exact hs.goes hi (.inl rfl) (fun _ _ _ => trivial) fun id hid => absurd hid List.not_mem_nil
    · cases h
  | decide i =>
    simp only [Watch.step] at h
    split at h
    · rename_i seen look hi
      have howner : s.owner = some i := by simpa [undisturbed] using hcalm
      rw [if_pos howner] at h
      obtain rfl := Option.some.inj h
      exact (hs.decide hi howner).1
    · cases h
  | stop i =>
    simp only [Watch.step] at h
    split at h
    · rename_i seen hi
      obtain rfl := Option.some.inj h
      exact hs.goes hi (.inr rfl) (fun _ _ _ => trivial) fun id hid => absurd hid List.not_mem_nil
    · cases h

/-- The wakes are those before, and one that is news to them. -/
theorem once_step (hs : Inv s) (hcalm : undisturbed s a = true) (h : Rel step s a t)
    (honce : s.wakes.Pairwise News) : t.wakes.Pairwise News := by
  unfold Runs.Rel at h
  cases a with
  | decide i =>
    simp only [Watch.step] at h
    split at h
    · rename_i seen look hi
      have howner : s.owner = some i := by simpa [undisturbed] using hcalm
      rw [if_pos howner] at h
      obtain rfl := Option.some.inj h
      obtain rfl : seen = s.mark := hs.seen i _ seen howner hi rfl
      rw [decide_wakes]
      refine List.pairwise_append.mpr ⟨honce, by split <;> simp, fun w hw w' hw' => ?_⟩
      split at hw'
      · rename_i hwake
        rw [List.mem_singleton.mp hw']
        cases hm : s.mark with
        | none =>
          rw [(hs.unprimed hm).2.2] at hw
          exact absurd hw List.not_mem_nil
        | some m =>
          have hfits : Listed s m look.counted look.listed ∧ Waits s m look := hs.fits i _ m howner hi hm
          rw [hm] at hwake
          exact (hs.mark m hm).news hfits.2 hwake hw
      · exact absurd hw' List.not_mem_nil
    · cases h
  | arrive msg =>
    obtain ⟨bus, -, rfl⟩ := Option.map_eq_some_iff.mp h
    exact honce
  | read | deliver | start =>
    obtain rfl := Option.some.inj h
    exact honce
  | look | whoami | newest | status | fail | stop =>
    simp only [Watch.step] at h
    split at h <;> simp only [Option.some.injEq, reduceCtorEq] at h <;> subst h <;> exact honce

end Keeping

/-! ## Runs -/

/-- No watcher has started. -/
structure Starts (s : Sys) : Prop where
  inbox : s.bus.inbox.Nodup
  file : s.file = none
  watchers : s.watchers = []
  wakes : s.wakes = []
  marked : s.marked = []
  later : s.later = []

section Law

variable {s₀ s : Sys} {tr : List (Trans Sys Act)}

theorem Starts.inv (h : Starts s₀) : Inv s₀ := by
  have hmark : s₀.mark = none := by
    unfold Sys.mark
    rw [h.file]
    rfl
  refine ⟨h.inbox, fun id hid => ?_, fun id hid => ?_, fun i hi => ?_, fun _ => ⟨h.later, h.marked, h.wakes⟩,
    fun m hm => ?_, fun i ph seen _ hph => ?_, fun i ph m _ hph => ?_, fun i ph hph => ?_, fun w hw => ?_⟩
  · rw [h.later] at hid
    exact absurd hid List.not_mem_nil
  · rw [h.marked] at hid
    exact absurd hid List.not_mem_nil
  · rw [Sys.owner, h.file] at hi
    cases hi
  · rw [hmark] at hm
    cases hm
  · rw [h.watchers] at hph
    cases hph
  · rw [h.watchers] at hph
    cases hph
  · rw [h.watchers] at hph
    cases hph
  · rw [h.wakes] at hw
    exact absurd hw List.not_mem_nil

/-- **A window is woken for every arrival, once**, in every run in which no watcher is disturbed. -/
theorem woken_once_for_each (h₀ : Starts s₀) (h : Run (Rel step) s₀ tr s)
    (hcalm : ∀ e ∈ tr, undisturbed e.pre e.act = true) : WatchLaw tr s := by
  refine ⟨fun e he i seen look hact hi msg hmsg hhas => ?_, ?_⟩
  · have hs : Inv e.pre := h.invariant_pre h₀.inv (fun _ _ _ hs hc hstep => hs.step hc hstep) hcalm e he
    have hstep := h.rel e he
    have hquiet := hcalm e he
    rw [hact] at hstep hquiet
    have howner : e.pre.owner = some i := by simpa [undisturbed] using hquiet
    simp only [Runs.Rel, step, hi, howner, if_true, Option.some.injEq] at hstep
    rw [← hstep]
    exact (hs.decide hi howner).2 msg hmsg hhas
  · have hboth : Inv s ∧ s.wakes.Pairwise News := by
      refine h.invariant (I := fun s => Inv s ∧ s.wakes.Pairwise News)
        (C := fun s a => undisturbed s a = true) ⟨h₀.inv, ?_⟩ (fun _ _ _ hs hc hstep => ?_) hcalm
      · rw [h₀.wakes]
        exact List.Pairwise.nil
      · exact ⟨hs.1.step hc hstep, once_step hs.1 hc hstep hs.2⟩
    exact hboth.2

end Law

/-! ## Three runs -/

/-- No mail, and no watcher. -/
def quiet : Sys := ⟨⟨[], 0, [], []⟩, none, [], [], [], []⟩

theorem quiet_starts : Starts quiet := ⟨List.nodup_nil, rfl, rfl, rfl, rfl, rfl⟩

/-- A reading of the `i`-th watcher. -/
def reads (i : ℕ) : List Act := [.look i, .whoami i, .newest i, .status i true, .decide i]

/-- A direct message wakes the window; it reads it, a conversation message arrives, and the next
watcher wakes the window again. -/
def two_wakes : List Act :=
  .start :: reads 0 ++ .arrive (.direct 1) :: reads 0 ++ .read 1 :: .arrive (.conversation 1) :: .start :: reads 1

theorem two_wakes_run : (exec step quiet two_wakes).isSome = true := by decide

theorem woken_once_for_each_twice :
    WatchLaw ((exec step quiet two_wakes).get two_wakes_run).1 ((exec step quiet two_wakes).get two_wakes_run).2 :=
  woken_once_for_each quiet_starts (exec_get two_wakes_run) (by decide)

/-- A direct message arrives after the unread ones are counted, and before the newest one is asked
for. -/
def direct_between : List Act :=
  .start :: reads 0 ++ [.look 0, .whoami 0, .arrive (.direct 1), .newest 0, .status 0 true, .decide 0] ++ reads 0

theorem direct_between_run : (exec step quiet direct_between).isSome = true := by decide

def direct_end : List (Trans Sys Act) × Sys := (exec step quiet direct_between).get direct_between_run

theorem direct_length : direct_end.1.length = 17 := exec_length direct_between_run

/-- A conversation message wakes the window, the window takes it, and another one arrives. -/
def one_for_one : List Act :=
  .start :: reads 0 ++ .arrive (.conversation 1) :: reads 0 ++
    .deliver [1] :: .arrive (.conversation 2) :: .start :: reads 1

theorem one_for_one_run : (exec step quiet one_for_one).isSome = true := by decide

def conversation_end : List (Trans Sys Act) × Sys := (exec step quiet one_for_one).get one_for_one_run

theorem conversation_length : conversation_end.1.length = 20 := exec_length one_for_one_run

/-- The last reading of each run begins with the message unread, and ends without a wake for it. -/
theorem arrivals_are_missed :
    (Starts quiet ∧ Run (Rel step) quiet direct_end.1 direct_end.2 ∧ ¬WatchLaw direct_end.1 direct_end.2) ∧
      Run (Rel step) quiet conversation_end.1 conversation_end.2 ∧
        ¬WatchLaw conversation_end.1 conversation_end.2 := by
  refine ⟨⟨quiet_starts, exec_get direct_between_run, fun h => ?_⟩, exec_get one_for_one_run, fun h => ?_⟩
  · obtain ⟨w, hw, hof⟩ := h.woken (direct_end.1.get ⟨16, by rw [direct_length]; omega⟩) (List.get_mem _ _) 0 _ _ rfl rfl
      (.direct 1) (by decide) (by decide)
    revert w
    decide
  · obtain ⟨w, hw, hof⟩ := h.woken (conversation_end.1.get ⟨19, by rw [conversation_length]; omega⟩)
      (List.get_mem _ _) 1 _ _ rfl rfl (.conversation 2) (by decide) (by decide)
    revert w
    decide

end CrewSync.Watch
