/-
How many seats a thread has: never more than `MAX_MEMBERS`, and nobody who has one
already is turned away for lack of room.

A seat is never deleted, so a thread's rows are counted and not its members: one
that was left or taken away still takes up room. Three operations add rows, and
each looks at the room in its own way.

* `create_conversation` counts the invitations it is given, and then seats the
  creator as well; an address named twice is one seat.
* `invite` counts the rows of the thread before it has looked whether the address
  is one of them.
* `transfer_membership` does not count.

So the law holds of the runs in which every one of them finds room (`finds_room`):
a creation for no more addresses than a thread holds, its creator's among them, a
repeated invitation into a thread that is not full, and a transfer to a new window
the same.
-/
import Mathlib.Data.List.Dedup
import CrewSync.Removal

set_option autoImplicit false

namespace CrewSync.Room

open Error Schema Rows Sessions
open Conversations Seats Runs

/-! ## Room -/

/-- The rows of thread `id`. -/
def seats_of (id : Uuid) (t : List ConversationMembership) : ℕ :=
  (t.filter fun m => m.conversation_id == id).length

/-- `SELECT count(*) FROM conversation_memberships WHERE conversation_id = $1`. -/
def seats_in (id : Uuid) (db : Db) : ℕ := seats_of id db.conversation_memberships

/-- What a caller is told for lack of room. -/
def full : BusError := .Conflict s!"this conversation already holds {MAX_MEMBERS} members"

/-- The operation is refused for lack of room. -/
def refused_full (s : Sys) : Act → Bool
  | .invite seen now auth id address role history_from_start seat =>
    (s.view seen).any fun v =>
      match invite now v auth id address role history_from_start seat s.db with
      | .error e => e == full
      | .ok _ => false
  | .transfer_membership seen now auth id address seat =>
    (s.view seen).any fun v =>
      match transfer_membership now v auth id address seat s.db with
      | .error e => e == full
      | .ok _ => false
  | _ => false

/-- There is a seat at the address, whatever became of it. -/
def seated_at (auth : AuthCtx) (id : Uuid) (address : String) (seen db : Db) : Bool :=
  match resolve_address auth address seen with
  | .ok (agent_id, session) => (seat_at id agent_id session db).isSome
  | .error _ => false

/-- The operation only offers again what is in the thread already. -/
def reoffers (s : Sys) : Act → Bool
  | .invite seen _ auth id address _ _ _ => (s.view seen).any fun v => seated_at auth id address v s.db
  | .transfer_membership seen _ auth id address _ =>
    (s.view seen).any fun v => seated_at auth id address v s.db
  | _ => false

/-- The addresses a creation invites. -/
def invited (auth : AuthCtx) (input : CreateInput) (seen : Db) : List (Uuid × String) :=
  input.invite.filterMap fun raw => (resolve_address auth raw seen).toOption

/-- The step finds the room it needs. -/
def finds_room (s : Sys) (a : Act) : Bool :=
  match a with
  | .create_conversation seen _ auth input _ _ _ => (s.view seen).all fun v =>
    ((auth.agent_id, auth.session) :: invited auth input v).dedup.length ≤ MAX_MEMBERS
  | .invite _ _ _ id _ _ _ _ => !reoffers s a || seats_in id s.db < MAX_MEMBERS
  | .transfer_membership _ _ _ id _ _ => reoffers s a || seats_in id s.db < MAX_MEMBERS
  | _ => true

/-- What a transition leaves of the cap, and whom it turns away. -/
structure Roomy (e : Trans Sys Act) : Prop where
  capped : ∀ id, seats_in id e.post.db ≤ MAX_MEMBERS
  welcome : reoffers e.pre e.act = true → refused_full e.pre e.act = false

/-! ## Counting seats -/

section Counting

variable {id : Uuid} {t : List ConversationMembership} {p : ConversationMembership → Bool}
  {f : ConversationMembership → ConversationMembership} {r : ConversationMembership}

theorem seats_of_update (hf : InPlace f) : seats_of id (update p f t) = seats_of id t := by
  -- a seat that is rewritten stays in its thread
  have hthread : ∀ m, (if p m then f m else m).conversation_id = m.conversation_id := by
    intro m
    split
    · exact congrArg Prod.fst (hf.same m).2
    · rfl
  unfold seats_of update
  rw [List.filter_map, List.length_map]
  simp only [Function.comp_def, hthread]

theorem seats_of_insert_into :
    seats_of id (insert_into r t) = seats_of id t + if r.conversation_id == id then 1 else 0 := by
  unfold seats_of insert_into
  rw [List.filter_append, List.length_append, List.filter_singleton]
  cases r.conversation_id == id <;> rfl

/-- An offer takes up room where no seat is rewritten. -/
theorem seats_of_upsert (hf : InPlace f) :
    seats_of id (upsert p f r t) =
      seats_of id t + if !t.any p && r.conversation_id == id then 1 else 0 := by
  unfold upsert
  by_cases hany : t.any p = true
  · rw [if_pos hany, seats_of_update hf, hany]
    rfl
  · rw [if_neg hany, seats_of_insert_into]
    simp only [hany, Bool.not_false, Bool.true_and]

theorem seats_of_upsert_le (hf : InPlace f) {n : ℕ} (hle : seats_of id t ≤ n)
    (hroom : r.conversation_id = id → t.any p = true ∨ seats_of id t < n) :
    seats_of id (upsert p f r t) ≤ n := by
  rw [seats_of_upsert hf]
  split
  · rename_i hnew
    simp only [Bool.and_eq_true, Bool.not_eq_true', beq_iff_eq] at hnew
    rcases hroom hnew.2 with hany | hlt
    · rw [hany] at hnew
      exact absurd hnew.1 (by decide)
    · omega
  · omega

/-- A thread has no more seats than there are addresses for them. -/
theorem seats_of_le (ht : Tidy t) {l : List (Uuid × Uuid × String)}
    (hl : ∀ m ∈ t, m.conversation_id = id → home m ∈ l) : seats_of id t ≤ l.length := by
  have hnd : ((t.filter fun m => m.conversation_id == id).map home).Nodup :=
    List.Nodup.sublist (List.Sublist.map home List.filter_sublist) ht.homes
  have hsub : (t.filter fun m => m.conversation_id == id).map home ⊆ l := by
    intro h hh
    obtain ⟨m, hm, rfl⟩ := List.mem_map.mp hh
    obtain ⟨hmem, hid⟩ := List.mem_filter.mp hm
    exact hl m hmem (by simpa using hid)
  have hle := (List.subperm_of_subset hnd hsub).length_le
  rw [List.length_map] at hle
  exact hle

end Counting

/-! ## Who is told that there is no room -/

section Refusals

variable {now : ℕ} {seen db : Db} {auth : AuthCtx} {id seat : Uuid} {address : String} {l : List Char}
  {role : Option String}

theorem prefix_append {a b : String} (h : l <+: a.toList) : l <+: (a ++ b).toList := by
  rw [String.toList_append]
  exact h.trans (List.prefix_append _ _)

/-- A text that starts otherwise is another text. -/
theorem conflict_ne_full {msg : String} (h : l <+: msg.toList)
    (hl : ¬ l <+: "this conversation already holds ".toList) (hlen : l.length ≤ 32) :
    BusError.Conflict msg ≠ full := by
  intro heq
  rw [full, BusError.Conflict.injEq] at heq
  rw [heq] at h
  refine hl (List.prefix_of_prefix_length_le h (prefix_append (prefix_append List.prefix_rfl)) ?_)
  exact hlen

theorem guard_not_full : Sessions.guard now auth db ≠ .error full := by
  unfold Sessions.guard
  split
  · split
    · simp [full]
    · split
      · simp [full]
      · split
        · rw [Ne, Except.error.injEq]
          refine conflict_ne_full (l := "this conn".toList) ?_ (by decide) (by decide)
          iterate 6 apply prefix_append
          decide
        · simp
  · simp

theorem require_capability_not_full : require_capability auth db ≠ .error full := by
  intro h
  obtain ⟨-, h⟩ := ensure_eq_error.mp h
  rw [full] at h
  cases h

theorem readable_not_full : readable auth id db ≠ .error full := by
  intro h
  simp only [readable, access, bind_eq_error, ensure_eq_error, fetch_eq_error] at h
  simp [full, pure, Except.pure] at h

theorem require_project_open_not_full : require_project_open auth id db ≠ .error full := by
  intro h
  simp only [require_project_open, bind_eq_error, ensure_eq_error, fetch_eq_error] at h
  simp [full] at h

theorem parse_address_not_full : parse_address address ≠ .error full := by
  intro h
  simp only [parse_address] at h
  split at h
  · cases h
  · simp only [bind_eq_error, ensure_eq_error] at h
    rcases h with ⟨-, h⟩ | ⟨_, -, h⟩
    · exact absurd h (by simp [full])
    · split at h
      · exact absurd h (by simp [full])
      · simp only [bind_eq_error, ensure_eq_error] at h
        simp [full, pure, Except.pure] at h

theorem resolve_address_not_full : resolve_address auth address db ≠ .error full := by
  intro h
  simp only [resolve_address, agent_id_by_name, bind_eq_error, fetch_eq_error] at h
  rcases h with h | ⟨_, -, (⟨-, h⟩ | ⟨_, -, h⟩) | ⟨_, -, h⟩⟩
  · exact parse_address_not_full h
  all_goals simp [full, pure, Except.pure] at h

theorem role_of_not_full : role_of role ≠ .error full := by
  intro h
  unfold role_of at h
  simp only at h
  repeat' split at h
  all_goals simp [full] at h

/-- An invitation that is told so finds the thread full. -/
theorem invite_refused_full {history_from_start : Bool}
    (h : invite now seen auth id address role history_from_start seat db = .error full) :
    MAX_MEMBERS ≤ seats_in id db := by
  simp only [invite, bind_eq_error, ensure_eq_error, fetch_eq_error] at h
  rcases h with h | ⟨_, -, h | ⟨_, -, ⟨-, h⟩ | ⟨_, -, ⟨-, h⟩ | ⟨_, -, h | ⟨_, -, h | ⟨_, -, h | ⟨_, -,
    ⟨-, h⟩ | ⟨_, -, h | ⟨_, -, ⟨-, h⟩ | ⟨_, -, ⟨hroom, -⟩ | ⟨_, -, ⟨-, h⟩ | ⟨_, -, ⟨-, h⟩ | ⟨_, -, h⟩⟩⟩⟩⟩⟩⟩⟩⟩⟩⟩⟩⟩
  · exact absurd h require_capability_not_full
  · exact absurd h readable_not_full
  · exact absurd h (by simp [full])
  · exact nomatch h
  · exact absurd h role_of_not_full
  · exact absurd h resolve_address_not_full
  · exact absurd h guard_not_full
  · exact absurd h (by simp [full])
  · exact absurd h require_project_open_not_full
  · exact absurd h (by simp [full])
  · exact not_lt.mp hroom
  · exact absurd h (by simp [full])
  · exact absurd h (by simp [full])
  · exact absurd h (by simp [pure, Except.pure])

theorem target_refused_not_full {target : Option ConversationMembership} :
    target_refused address target ≠ some full := by
  unfold target_refused
  split
  · rw [Ne, Option.some.injEq]
    refine conflict_ne_full (l := "'".toList) ?_ (by decide) (by decide)
    iterate 4 apply prefix_append
    decide
  · rw [Ne, Option.some.injEq]
    refine conflict_ne_full (l := "'".toList) ?_ (by decide) (by decide)
    iterate 3 apply prefix_append
    decide
  · simp [full]
  · simp

/-- A transfer is never told so. -/
theorem transfer_membership_not_full :
    transfer_membership now seen auth id address seat db ≠ .error full := by
  intro h
  simp only [transfer_membership, bind_eq_error, ensure_eq_error, fetch_eq_error] at h
  rcases h with h | ⟨_, -, h | ⟨_, -, ⟨-, h⟩ | ⟨_, -, h | ⟨_, -, ⟨-, h⟩ | ⟨_, -, ⟨-, h⟩ | ⟨_, -, h |
    ⟨_, -, h | ⟨_, -, ⟨-, h⟩ | ⟨_, -, h⟩⟩⟩⟩⟩⟩⟩⟩⟩
  · exact absurd h require_capability_not_full
  · exact absurd h readable_not_full
  · exact absurd h (by simp [full])
  · exact absurd h resolve_address_not_full
  · exact absurd h (by simp [full])
  · exact absurd h (by simp [full])
  · exact absurd h guard_not_full
  · exact absurd h require_project_open_not_full
  · exact absurd h (conflict_ne_full (l := "your".toList) (prefix_append (by decide)) (by decide) (by decide))
  · split at h
    · rename_i why hrefused
      rw [Except.error.injEq] at h
      rw [h] at hrefused
      exact target_refused_not_full hrefused
    · simp only [bind_eq_error, ensure_eq_error] at h
      simp [full, pure, Except.pure] at h

end Refusals

/-! ## What every step keeps -/

/-- Every seat is in a thread there is. -/
def Homed (db : Db) : Prop :=
  ∀ m ∈ db.conversation_memberships, ∃ c ∈ db.conversations, c.id = m.conversation_id

section Steps

variable {s t : Sys} {a : Act} {now : ℕ} {seen db db' : Db} {auth : AuthCtx} {id k u : Uuid}
  {input : CreateInput} {seats : List Uuid} {p : ConversationMembership → Bool}
  {f : ConversationMembership → ConversationMembership} {address : String}

/-- The seats of a new thread are its creator's and those of the addresses it was given. -/
theorem create_conversation_homes (h : create_conversation now seen auth input id k seats db = .ok (u, db')) :
    ∀ m ∈ db'.conversation_memberships, m ∈ db.conversation_memberships ∨
      home m ∈ ((auth.agent_id, auth.session) :: invited auth input seen).dedup.map fun x => (id, x) := by
  simp only [create_conversation, bind_eq_ok, ensure_eq_ok, fetch_eq_ok, pure_eq_ok,
    Prod.mk.injEq] at h
  obtain ⟨_, -, _, -, _, -, invites, hinvites, _, -, _, -, _, -, team, -, _, -, _, -, _, -, -, rfl⟩ := h
  intro m hm
  rcases mem_seat_invitees hm with hm | ⟨x, hx, rfl⟩
  · rcases mem_insert_into.mp hm with hm | rfl
    · exact Or.inl hm
    · exact Or.inr (List.mem_map.mpr ⟨_, List.mem_dedup.mpr List.mem_cons_self, rfl⟩)
  · obtain ⟨raw, hraw, haddr⟩ := mem_of_mapM_ok hinvites x.1 (List.of_mem_zip hx).1
    have hin : x.1 ∈ invited auth input seen :=
      List.mem_filterMap.mpr ⟨raw, hraw, by rw [haddr]; rfl⟩
    exact Or.inr (List.mem_map.mpr ⟨x.1, List.mem_dedup.mpr (List.mem_cons_of_mem _ hin), rfl⟩)

theorem Homed.update (h : Homed db) (hf : InPlace f) :
    Homed { db with conversation_memberships := update p f db.conversation_memberships } := by
  intro m hm
  obtain ⟨x, hx, rfl⟩ := mem_update.mp hm
  obtain ⟨c, hc, hid⟩ := h x hx
  refine ⟨c, hc, ?_⟩
  split
  · exact hid.trans (congrArg Prod.fst (hf.same x).2).symm
  · exact hid

theorem Homed.upsert {r : ConversationMembership} (h : Homed db) (hf : InPlace f)
    (hr : ∃ c ∈ db.conversations, c.id = r.conversation_id) :
    Homed { db with conversation_memberships := upsert p f r db.conversation_memberships } := by
  unfold Rows.upsert
  split
  · exact h.update hf
  · intro m hm
    rcases mem_insert_into.mp hm with hm | rfl
    · exact h m hm
    · exact hr

theorem homed_join {n : Uuid} (h : Homed db) (hok : join now seen auth id db = .ok (n, db')) :
    Homed db' := by
  obtain ⟨m, -, -, rfl⟩ := join_ok hok
  exact ((h.update (accepted_in_place _ _)).update (superseded_in_place _ _)).update
    (links_in_place fun _ => Or.inr rfl)

theorem did_homed (h : Did s a t) (hs : Homed s.db) : Homed t.db := by
  cases h with
  | refused => exact hs
  | create_conversation hok =>
    obtain ⟨hopen, -, c, hid, hthreads⟩ := create_conversation_ok hok
    intro m hm
    rw [Sys.after, hthreads]
    rcases hopen.fresh m hm with hm | ⟨hm, -⟩
    · obtain ⟨c', hc', hid'⟩ := hs m hm
      exact ⟨c', mem_insert_into.mpr (Or.inl hc'), hid'⟩
    · exact ⟨c, mem_insert_into.mpr (Or.inr rfl), hid.trans hm.symm⟩
  | invite _ hok =>
    obtain ⟨r, agent_id, session, c, inviter, -, -, hc, -, -, rfl⟩ := invite_ok hok
    have hid := pos_of_one hc
    simp only [beq_iff_eq] at hid
    exact hs.upsert (reinvited_in_place _ _ _) ⟨c, mem_of_one hc, hid⟩
  | join hok => exact homed_join hs hok
  | leave hok =>
    rw [leave_ok hok]
    exact hs.update (put_out_in_place _ _)
  | remove_member _ hok =>
    obtain ⟨agent_id, session, m, -, -, -, -, rfl⟩ := remove_member_ok hok
    exact hs.update (put_out_in_place _ _)
  | transfer_membership _ hok =>
    obtain ⟨c, hc, hid, -⟩ := transfer_membership_team hok
    obtain ⟨a, mine, m, session, -, -, -, -, -, -, -, -, -, rfl⟩ := transfer_membership_ok hok
    exact (hs.upsert (proposed_in_place _ _ _) ⟨c, hc, hid⟩).update (links_in_place fun _ => Or.inl rfl)
  | other hleaves =>
    simp only [leaves_seats, Bool.and_eq_true, beq_iff_eq, List.all_eq_true, List.any_eq_true] at hleaves
    intro m hm
    rw [Sys.after, hleaves.1.1] at hm
    obtain ⟨c, hc, hid⟩ := hs m hm
    obtain ⟨c', hc', hid', -⟩ := hleaves.2 c hc
    exact ⟨c', hc', hid'.trans hid⟩

/-- What holds of the seats in every state of a run that finds room. -/
structure Within (s : Sys) : Prop where
  seats : Seats.Inv s
  homed : Homed s.db
  capped : ∀ id, seats_in id s.db ≤ MAX_MEMBERS

/-- A creation adds seats to its own thread only, and no more than it has addresses. -/
theorem create_conversation_capped (hs : Within s)
    (hok : create_conversation now seen auth input id k seats s.db = .ok (u, db'))
    (hroom : ((auth.agent_id, auth.session) :: invited auth input seen).dedup.length ≤ MAX_MEMBERS) :
    ∀ j, seats_in j db' ≤ MAX_MEMBERS := by
  obtain ⟨hopen, hnew, -⟩ := create_conversation_ok hok
  have hhomes := create_conversation_homes hok
  have htidy := hopen.tidy hs.seats.tidy
  intro j
  by_cases hj : j = id
  · rw [hj]
    refine le_trans (seats_of_le htidy fun m hm hid => (hhomes m hm).resolve_left fun hold => ?_) ?_
    · -- no seat was waiting for the thread
      obtain ⟨c, hc, hcid⟩ := hs.homed m hold
      exact hnew c hc (hcid.trans hid)
    · rw [List.length_map]
      exact hroom
  · refine le_trans (seats_of_le htidy fun m hm hid => ?_) ((List.length_map home).le.trans (hs.capped j))
    rcases hopen.fresh m hm with hold | ⟨hthread, -⟩
    · exact List.mem_map_of_mem (List.mem_filter.mpr ⟨hold, by simpa using hid⟩)
    · exact absurd (hid.symm.trans hthread) hj

/-- An invitation that succeeds had room. -/
theorem invite_room {role : Option String} {history_from_start : Bool} {v : Unit}
    (hok : invite now seen auth id address role history_from_start k db = .ok (v, db')) :
    seats_in id db < MAX_MEMBERS := by
  simp only [invite, bind_eq_ok, ensure_eq_ok] at hok
  obtain ⟨_, -, _, -, _, -, _, -, _, -, _, -, _, -, _, -, _, -, _, -, _, hroom, -⟩ := hok
  exact hroom

/-- A seat that is only offered again takes up no more room. -/
theorem seated_any {session : String} {v : Db} {agent_id : Uuid}
    (haddr : resolve_address auth address v = .ok (agent_id, session)) (h : seated_at auth id address v db = true) :
    db.conversation_memberships.any (at_address id agent_id session) = true := by
  simp only [seated_at, haddr, seat_at] at h
  obtain ⟨m, hm⟩ := Option.isSome_iff_exists.mp h
  exact List.any_eq_true.mpr ⟨m, mem_of_one hm, pos_of_one hm⟩

/-- The step lemma for the cap. -/
theorem capped_step (hs : Within s) (hc : finds_room s a = true) (h : step s a = some t) :
    ∀ j, seats_in j t.db ≤ MAX_MEMBERS := by
  cases a with
  | create_conversation =>
    rcases commit_cases h with rfl | ⟨v, k, db', hv, hok, rfl⟩
    · exact hs.capped
    · simp only [finds_room, hv, Option.all_some, decide_eq_true_eq] at hc
      exact create_conversation_capped hs hok hc
  | invite =>
    rcases commit_cases h with rfl | ⟨v, u, db', -, hok, rfl⟩
    · exact hs.capped
    -- the count was taken in the same transaction
    · have hroom := invite_room hok
      obtain ⟨r, agent_id, session, c, inviter, -, -, -, -, -, rfl⟩ := invite_ok hok
      intro j
      refine seats_of_upsert_le (reinvited_in_place _ _ _) (hs.capped j) fun hj => Or.inr ?_
      rw [← hj]
      exact hroom
  | join =>
    rcases commit_cases h with rfl | ⟨v, n, db', -, hok, rfl⟩
    · exact hs.capped
    · intro j
      rw [seats_in, Sys.after, (join_table hok).1, after_join, taken,
        seats_of_update (links_in_place fun _ => Or.inr rfl), seats_of_update (superseded_in_place _ _),
        seats_of_update (accepted_in_place _ _)]
      exact hs.capped j
  | leave =>
    rcases commit_cases h with rfl | ⟨v, n, db', -, hok, rfl⟩
    · exact hs.capped
    · intro j
      rw [seats_in, Sys.after, leave_ok hok, seats_of_update (put_out_in_place _ _)]
      exact hs.capped j
  | remove_member =>
    rcases commit_cases h with rfl | ⟨v, n, db', -, hok, rfl⟩
    · exact hs.capped
    · obtain ⟨agent_id, session, m, -, -, -, -, rfl⟩ := remove_member_ok hok
      intro j
      rw [seats_in, Sys.after, seats_of_update (put_out_in_place _ _)]
      exact hs.capped j
  | transfer_membership seen now auth id address k =>
    rcases commit_cases h with rfl | ⟨v, q, db', hv, hok, rfl⟩
    · exact hs.capped
    · obtain ⟨a, mine, m, session, -, -, haddr, -, -, -, -, -, -, rfl⟩ := transfer_membership_ok hok
      simp only [finds_room, reoffers, hv, Option.any_some, Bool.or_eq_true, decide_eq_true_eq] at hc
      intro j
      rw [seats_in, Sys.after, seats_of_update (links_in_place fun _ => Or.inl rfl)]
      refine seats_of_upsert_le (proposed_in_place _ _ _) (hs.capped j) fun hj => ?_
      rcases hc with hseated | hroom
      · exact Or.inl (seated_any haddr hseated)
      · rw [← hj]
        exact Or.inr hroom
  | other db' =>
    simp only [Seats.step] at h
    split at h
    · rename_i hleaves
      simp only [leaves_seats, Bool.and_eq_true, beq_iff_eq] at hleaves
      intro j
      rw [← Option.some.inj h, seats_in, Sys.after, hleaves.1.1]
      exact hs.capped j
    · cases h

theorem Within.step (hs : Within s) (hc : finds_room s a = true) (h : step s a = some t) : Within t :=
  ⟨hs.seats.step h, did_homed (step_did h) hs.homed, capped_step hs hc h⟩

/-- Who is told that there is no room asks for a new seat. -/
theorem welcomed (hc : finds_room s a = true) (hre : reoffers s a = true) : refused_full s a = false := by
  by_contra hfull
  rw [Bool.not_eq_false] at hfull
  cases a with
  | invite seen now auth id address role history_from_start k =>
    simp only [finds_room, hre, Bool.not_true, Bool.false_or, decide_eq_true_eq] at hc
    simp only [refused_full, Option.any_eq_true] at hfull
    obtain ⟨v, -, hv⟩ := hfull
    split at hv
    · rename_i why hrefused
      rw [beq_iff_eq.mp hv] at hrefused
      exact absurd (invite_refused_full hrefused) (by omega)
    · cases hv
  | transfer_membership seen now auth id address k =>
    simp only [refused_full, Option.any_eq_true] at hfull
    obtain ⟨v, -, hv⟩ := hfull
    split at hv
    · rename_i why hrefused
      rw [beq_iff_eq.mp hv] at hrefused
      exact transfer_membership_not_full hrefused
    · cases hv
  | _ => exact absurd hfull (by simp [refused_full])

end Steps

/-! ## The law -/

/-- **A thread never outgrows its cap**, and whoever has a seat is offered it again, in every
run whose steps find room. -/
theorem conversation_size_is_capped {db : Db} (h₀ : Tidy db.conversation_memberships) (h₁ : Homed db)
    (h₂ : ∀ id, seats_in id db ≤ MAX_MEMBERS) {tr : List (Trans Sys Act)} {s : Sys}
    (hrun : Run (Rel step) (Sys.start db) tr s)
    (hC : ∀ e ∈ tr, finds_room e.pre e.act = true) : ∀ e ∈ tr, Roomy e := by
  have hwithin : ∀ e ∈ tr, Within e.pre :=
    hrun.invariant_pre (C := fun s a => finds_room s a = true) ⟨start_inv h₀, h₁, h₂⟩
      (fun _ _ _ hs hc hr => hs.step hc hr) hC
  intro e he
  exact ⟨capped_step (hwithin e he) (hC e he) (hrun.rel e he), welcomed (hC e he)⟩

/-! ## A thread of three -/

/-- Ada at her desk. -/
def ada : AuthCtx := { Crew.ada_at_desk with agent_id := 0 }

/-- Ada and Bob, who have no thread yet. -/
def crew : Db :=
  { teams := [⟨1, "crew", true, .postgres⟩]
    agents := [⟨0, 1, "ada", none⟩, ⟨1, 1, "bob", none⟩] }

/-- Ada opens a thread with Bob, invites him once more, and hands her seat to her window in
the hall. -/
def opening : List Act :=
  [.create_conversation 0 0 ada ⟨none, true, ["bob"]⟩ 7 0 [1], .invite 0 0 ada 7 "bob" none false 2,
    .transfer_membership 0 0 ada 7 "ada/hall" 2]

theorem opening_run : (exec step (Sys.start crew) opening).isSome = true := by decide

/-- The run, and where it ends. -/
def opening_end : List (Trans Sys Act) × Sys := (exec step (Sys.start crew) opening).get opening_run

theorem conversation_size_is_capped_opening :
    seats_in 7 opening_end.2.db = 3 ∧ ∀ e ∈ opening_end.1, Roomy e :=
  ⟨by decide, conversation_size_is_capped ⟨by decide, by decide⟩ (fun _ hm => absurd hm List.not_mem_nil)
    (fun _ => Nat.zero_le _) (exec_get opening_run) (by decide)⟩

/-! ## A full thread -/

/-- Ada's thread with all the seats it may have. -/
def crowd : Db :=
  { crew with
    conversations := [⟨7, 1, none, .private, 0, "desk", none, 0, .postgres, .sync, none⟩]
    conversation_memberships := owners_seat 0 ada 7 0 :: (List.range 199).map fun n =>
      offered_row 7 (n + 1) "" .participant (some 0) 0 none (n + 1) }

/-- Ada invites Bob, who has a seat, and offers her own to her window in the hall. -/
def overflow : List Act :=
  [.invite 0 0 ada 7 "bob" none false 1000, .transfer_membership 0 0 ada 7 "ada/hall" 1000]

theorem overflow_run : (exec step (Sys.start crowd) overflow).isSome = true := by decide

/-- The run, and where it ends. -/
def overflow_end : List (Trans Sys Act) × Sys := (exec step (Sys.start crowd) overflow).get overflow_run

theorem crowd_tidy : Tidy crowd.conversation_memberships := by
  refine ⟨?_, ?_⟩
  · unfold Keyed crowd
    rw [List.map_cons, List.map_map, List.nodup_cons]
    refine ⟨by simp [offered_row, owners_seat], List.nodup_range.map fun i j hij => ?_⟩
    simpa [offered_row] using hij
  · unfold Keyed crowd
    rw [List.map_cons, List.map_map, List.nodup_cons]
    refine ⟨by simp [offered_row, owners_seat, home, ada], List.nodup_range.map fun i j hij => ?_⟩
    simpa [offered_row, home] using hij

theorem crowd_homed : Homed crowd := by
  intro m hm
  rcases List.mem_cons.mp hm with rfl | hm
  · exact ⟨_, List.mem_singleton.mpr rfl, rfl⟩
  · obtain ⟨n, -, rfl⟩ := List.mem_map.mp hm
    exact ⟨_, List.mem_singleton.mpr rfl, rfl⟩

theorem crowd_capped (id : Uuid) : seats_in id crowd ≤ MAX_MEMBERS := by
  refine (List.length_filter_le _ _).trans ?_
  simp [crowd, MAX_MEMBERS]

/-- Bob is told that there is no room for the seat he has, and Ada's transfer makes a seat
more than there may be. -/
theorem conversation_outgrows_its_cap :
    Tidy crowd.conversation_memberships ∧ Homed crowd ∧ (∀ id, seats_in id crowd ≤ MAX_MEMBERS) ∧
      Run (Rel step) (Sys.start crowd) overflow_end.1 overflow_end.2 ∧
      (∃ e ∈ overflow_end.1, reoffers e.pre e.act = true ∧ refused_full e.pre e.act = true) ∧
      ∃ e ∈ overflow_end.1, ¬ seats_in 7 e.post.db ≤ MAX_MEMBERS :=
  ⟨crowd_tidy, crowd_homed, crowd_capped, exec_get overflow_run,
    ⟨_, List.mem_of_getElem? (i := 0) rfl, by decide +kernel⟩,
    ⟨_, List.mem_of_getElem? (i := 1) rfl, by decide +kernel⟩⟩

end CrewSync.Room
