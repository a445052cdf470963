/-
Where a secret is that the bus still accepts.

The bus hands a secret out once, and from then on the window's label is nobody's who does not have
it. Who was handed one has it in hand until it is in the state, and nothing else takes it from
there but the resume or the revocation that ends it (`Inv`). That fails where a connection is given
up between the answer and the state, where the identity that is left behind is not revoked, where a
connection is put over a stranded credential, and where a record is written over one that nobody
holds any more. `adopt_resumed` is the one path that provides for it.
-/
import CrewSync.Rebinding

set_option autoImplicit false

namespace CrewSync.Custody

open Rows Runs Proxy
open Rebinding (go opened_window opened_starts steps connects found)

/-! ## The law -/

/-- The secret is in the window's state. -/
def Held (st : State) (n : ℕ) : Prop := ∃ p, st.proof = some p ∧ p.token = n

/-- It is in this record on disk. -/
def FiledAt (net : World) (path : String) (n : ℕ) : Prop :=
  ∃ r p, net.files path = some r ∧ r.proof = some p ∧ p.token = n

/-- It is in one. -/
def Filed (net : World) (n : ℕ) : Prop := ∃ path, FiledAt net path n

/-- It is in the hands of a call. -/
def carries (n : ℕ) : Task → Bool
  | .opening m | .checking m | .defaulting m | .taking m | .committing m => m.proof.any fun p => p.token == n
  | .revoking m old => (m.proof.any fun p => p.token == n) || old.proof.any fun p => p.token == n
  | .reopening p _ | .adopt_resumed p _ _ => p.token == n
  | _ => false

/-- The window is handed the secret in this step. -/
def Handed (e : Trans Sys Event) (n : ℕ) : Prop :=
  (∃ a, e.act = .act a) ∧ n = e.pre.net.bus.issued.length ∧ n < e.post.net.bus.issued.length

/-- It was on disk when the window began, or the window was handed it. -/
def Given (s : Sys) (tr : List (Trans Sys Event)) (n : ℕ) : Prop := Filed s.net n ∨ ∃ e ∈ tr, Handed e n

/-- It is in the record of a conversation that the window has been, or where it was at first. -/
def OnRecord (binding_path : String → String) (s : Sys) (tr : List (Trans Sys Event)) (t : Sys) (n : ℕ) : Prop :=
  ∃ path, FiledAt t.net path n ∧ (FiledAt s.net path n ∨ ∃ e ∈ tr, path = binding_path e.pre.window.st.key)

/-- What a window promises of a secret that it was given and that the bus accepts. -/
structure CustodyLaw (binding_path : String → String) (s : Sys) (tr : List (Trans Sys Event)) (t : Sys) : Prop where
  /-- It is in the state or on record, unless a connection or a resume is under way that has it. -/
  kept : ∀ n, Given s tr n → t.net.bus.accepts n = true →
    Held t.window.st n ∨ OnRecord binding_path s tr t n ∨
      ∃ (i : ℕ) (task : Task), t.window.tasks[i]? = some task ∧ carries n task = true
  /-- When none is, it is in the state or on record. -/
  settled : t.window.switch = none → ∀ n, Given s tr n → t.net.bus.accepts n = true →
    Held t.window.st n ∨ OnRecord binding_path s tr t n

/-! ## When it holds -/

/-- The bus does not accept the credential, if there is one. -/
def Dead (net : World) (proof : Option SessionProof) : Prop :=
  ∀ p, proof = some p → net.bus.accepts p.token = false

/-- It does not, or it is on disk. -/
def Saved (net : World) (proof : Option SessionProof) : Prop :=
  ∀ p, proof = some p → net.bus.accepts p.token = true → Filed net p.token

/-- A step at which no secret is lost: a connection on a credential that was answered opens, lists its
tools and is of the window's team; an identity that is left behind is revoked; a connection is not
put over a stranded credential that is nowhere else; and a record is not written over one whose
credential the bus accepts and nobody else has. No answer with a credential is lost. -/
def Spares (s : Sys) : Event → Prop
  | .act (.run t o) =>
    match s.window.tasks[t]?, o with
    | some (.resuming _ _), .lost _ _ | some (.registering _), .lost _ _ | some (.rotating _ _), .lost _ _ => False
    | some (.opening m), .refused _ => Dead s.net m.proof
    | some (.checking m), .done => Dead s.net m.proof ∨ ∀ old, s.window.st.identity = some old → old.team = m.team
    | some (.revoking _ old), .refused _ => Saved s.net old.proof
    | some (.committing _), .done => ∀ i, s.window.st.stranded = some i → Saved s.net i.proof
    | some (.writing path r _), .done =>
      ∀ old p, s.net.files path = some old → old.proof = some p → s.net.bus.accepts p.token = true →
        Held s.window.st p.token ∨ (∃ q, r.proof = some q ∧ q.token = p.token) ∨
          ∃ (i : ℕ) (task : Task), s.window.tasks[i]? = some task ∧ carries p.token task = true
    | _, _ => True
  | _ => True

/-! ## The bus -/

/-- No two sessions have one id or one secret, and what was issued is counted. -/
structure Sound (b : Bus) : Prop where
  ids : Keyed Session.id b.sessions
  tokens : Keyed Session.token b.sessions
  below : ∀ s ∈ b.sessions, s.id < b.issued.length ∧ s.token < b.issued.length

/-- The bus goes on: no secret that was issued before is accepted anew. -/
structure Goes (b b' : Bus) : Prop where
  sound : Sound b → Sound b'
  issued : b.issued.length ≤ b'.issued.length
  accepts : Sound b → ∀ n, n < b.issued.length → b'.accepts n = true → b.accepts n = true

section Bus

variable {b b' : Bus} {s : Session} {p prior : SessionProof} {e n : ℕ}

theorem accepts_iff : b.accepts n = true ↔ ∃ s ∈ b.sessions, s.token = n ∧ s.live = true := by
  rw [Bus.accepts, List.any_eq_true]
  refine exists_congr fun s => and_congr_right fun _ => ?_
  rw [Bool.and_eq_true, beq_iff_eq]

theorem Goes.refl (b : Bus) : Goes b b := ⟨id, Nat.le_refl _, fun _ _ _ h => h⟩

theorem sound_rotate (h : Sound b) (e : ℕ) : Sound (b.rotate s e).2 := by
  have hlt : b.issued.length < (b.rotate s e).2.issued.length := by
    rw [Bus.rotate, List.length_append, List.length_singleton]
    exact Nat.lt_succ_self _
  have hone : ∀ r ∈ b.sessions, ∀ r' ∈ b.sessions, (r.id == s.id) = true → (r'.id == s.id) = true → r = r' :=
    fun r hr r' hr' hid hid' => h.ids.eq hr hr' ((beq_iff_eq.mp hid).trans (beq_iff_eq.mp hid').symm)
  refine ⟨h.ids.update fun _ => rfl, h.tokens.update_one hone fun r hr _ r' hr' _ heq => ?_, fun r hr => ?_⟩
  · have heq : b.issued.length = r'.token := heq
    exact absurd (h.below r' hr').2 (by rw [← heq]; exact Nat.lt_irrefl _)
  · obtain ⟨r', hr', rfl⟩ := mem_update.mp hr
    split
    · exact ⟨(h.below r' hr').1.trans hlt, hlt⟩
    · exact ⟨(h.below r' hr').1.trans hlt, (h.below r' hr').2.trans hlt⟩

/-- What a session accepted before it got its secret, it accepts no more. -/
theorem rotate_accepts (h : Sound b) (hs : s ∈ b.sessions) (hn : n < b.issued.length)
    (haccepts : (b.rotate s e).2.accepts n = true) : b.accepts n = true ∧ n ≠ s.token := by
  obtain ⟨r, hr, htoken, hlive⟩ := accepts_iff.mp haccepts
  obtain ⟨r', hr', rfl⟩ := mem_update.mp hr
  by_cases hid : (r'.id == s.id) = true
  · rw [if_pos hid] at htoken
    have htoken : b.issued.length = n := htoken
    exact absurd hn (by rw [htoken]; exact Nat.lt_irrefl _)
  · rw [if_neg hid] at htoken hlive
    refine ⟨accepts_iff.mpr ⟨r', hr', htoken, hlive⟩, fun heq => hid ?_⟩
    rw [h.tokens.eq hr' hs (htoken.trans heq)]
    exact beq_self_eq_true _

theorem goes_rotate (hs : s ∈ b.sessions) (e : ℕ) : Goes b (b.rotate s e).2 where
  sound := fun h => sound_rotate h e
  issued := by
    rw [Bus.rotate, List.length_append]
    exact Nat.le_add_right _ _
  accepts := fun h _ hn haccepts => (rotate_accepts h hs hn haccepts).1

/-- A resume ends the secret it was made with. -/
theorem resume_spec (h : b.resume prior e = some (p, b')) :
    Goes b b' ∧ p.token = b.issued.length ∧ b.issued.length < b'.issued.length ∧
      (Sound b → prior.token < b.issued.length ∧ b'.accepts prior.token = false) := by
  obtain ⟨s, hs, heq⟩ := Option.map_eq_some_iff.mp h
  have hmem := mem_of_one hs
  have hp := pos_of_one hs
  rw [Bool.and_eq_true, Bool.and_eq_true, Bool.and_eq_true, beq_iff_eq, beq_iff_eq] at hp
  have hb : (b.rotate s e).2 = b' := congrArg Prod.snd heq
  have htoken : (b.rotate s e).1 = p := congrArg Prod.fst heq
  rw [← hb, ← htoken]
  refine ⟨goes_rotate hmem e, rfl, ?_, fun hsound => ?_⟩
  · rw [Bus.rotate, List.length_append, List.length_singleton]
    exact Nat.lt_succ_self _
  · have hlt : prior.token < b.issued.length := hp.1.1.2 ▸ (hsound.below s hmem).2
    refine ⟨hlt, Bool.eq_false_iff.mpr fun haccepts => ?_⟩
    exact (rotate_accepts hsound hmem hlt haccepts).2 hp.1.1.2.symm

theorem register_spec {agent team label : String} (h : b.register agent team label e = some (p, b')) :
    Goes b b' ∧ p.token = b.issued.length ∧ b.issued.length < b'.issued.length := by
  simp only [Bus.register] at h
  split at h
  · obtain ⟨rfl, rfl⟩ := Prod.mk.inj (Option.some.inj h)
    have hlt : b.issued.length < (b.issued ++ [(b.issued.length, 1)]).length := by
      rw [List.length_append, List.length_singleton]
      exact Nat.lt_succ_self _
    refine ⟨⟨fun hs => ⟨?_, ?_, fun r hr => ?_⟩, hlt.le, fun _ n hn haccepts => ?_⟩, rfl, hlt⟩
    · exact hs.ids.insert_into fun r hr heq => Nat.lt_irrefl _ (heq ▸ (hs.below r hr).1)
    · exact hs.tokens.insert_into fun r hr heq => Nat.lt_irrefl _ (heq ▸ (hs.below r hr).2)
    · rcases mem_insert_into.mp hr with hr | rfl
      · exact ⟨(hs.below r hr).1.trans hlt, (hs.below r hr).2.trans hlt⟩
      · exact ⟨hlt, hlt⟩
    · obtain ⟨r, hr, htoken, hlive⟩ := accepts_iff.mp haccepts
      rcases mem_insert_into.mp hr with hr | rfl
      · exact accepts_iff.mpr ⟨r, hr, htoken, hlive⟩
      · exact absurd hn (by rw [← htoken]; exact Nat.lt_irrefl _)
  · rename_i s hs
    split at h
    · cases h
    · have heq := Option.some.inj h
      have hb : (b.rotate s e).2 = b' := congrArg Prod.snd heq
      have htoken : (b.rotate s e).1 = p := congrArg Prod.fst heq
      rw [← hb, ← htoken]
      refine ⟨goes_rotate (mem_of_one hs) e, rfl, ?_⟩
      rw [Bus.rotate, List.length_append, List.length_singleton]
      exact Nat.lt_succ_self _

/-- A session that is closed accepts nothing. -/
theorem goes_close {q : Session → Bool} :
    Goes b { b with sessions := update q (fun s => { s with live := false }) b.sessions } := by
  refine ⟨fun h => ⟨h.ids.update fun _ => rfl, h.tokens.update fun _ => rfl, ?_⟩, Nat.le_refl _, fun _ n _ haccepts => ?_⟩
  · exact forall_update h.below fun _ _ _ h => h
  · obtain ⟨r, hr, htoken, hlive⟩ := accepts_iff.mp haccepts
    obtain ⟨r', hr', rfl⟩ := mem_update.mp hr
    by_cases hq : q r' = true
    · rw [if_pos hq] at hlive
      exact Bool.noConfusion hlive
    · rw [if_neg hq] at htoken hlive
      exact accepts_iff.mpr ⟨r', hr', htoken, hlive⟩

theorem goes_revoke (n : ℕ) : Goes b (b.revoke n) := goes_close

theorem revoke_accepts : (b.revoke n).accepts n = false := by
  refine Bool.eq_false_iff.mpr fun haccepts => ?_
  obtain ⟨r, hr, htoken, hlive⟩ := accepts_iff.mp haccepts
  obtain ⟨r', hr', rfl⟩ := mem_update.mp hr
  by_cases hq : (r'.token == n) = true
  · rw [if_pos hq] at hlive
    exact Bool.noConfusion hlive
  · rw [if_neg hq] at htoken
    exact hq (beq_iff_eq.mpr htoken)

theorem goes_elsewhere (x : Elsewhere) : Goes b (b.elsewhere x) := by
  cases x with
  | lapsed id => exact goes_close
  | resumed id =>
    simp only [Bus.elsewhere]
    split
    · rename_i s hs
      exact goes_rotate (mem_of_one hs) 0
    · exact .refl b

end Bus

/-! ## The window -/

/-- The secret of the connection, if there is a connection and it has one. -/
def secret (st : State) : Option (Option ℕ) := st.connected.map fun c => c.proof.map SessionProof.token

/-- What whoever has `switch` has found in the state, and nobody else changes. -/
def Phase (bus : Bus) (own : Option (Option ℕ)) : Task → Prop
  | .rotating prior _ => own = some (some prior.token)
  | .reopening _ _ | .adopt_resumed _ _ _ => ∃ n, own = some (some n) ∧ n < bus.issued.length ∧ bus.accepts n = false
  | .revoking _ _ | .committing _ => own = none
  | _ => True

/-- What holds of a window and of its bus. -/
structure Inv (s : Sys) : Prop where
  locked : Locked s.window
  sound : Sound s.net.bus
  alone : s.window.st.connected = none ∨ s.window.st.stranded = none
  phase : ∀ (t : ℕ) task, s.window.tasks[t]? = some task → Phase s.net.bus (secret s.window.st) task

/-- Where a secret is. -/
inductive Kept (s : Sys) (n : ℕ) : Prop
  | held (h : Held s.window.st n)
  | filed (h : Filed s.net n)
  | carried (i : ℕ) (task : Task) (h : s.window.tasks[i]? = some task) (hcarries : carries n task = true)

section Window

variable {session_for binding_path : String → String} {s : Sys} {net net' : World} {w w' : Window} {a : Act} {n : ℕ}
  {task task' : Task} {t : ℕ} {o : Outcome} {st : State}

theorem phase_of_works {bus : Bus} {own : Option (Option ℕ)} (h : task.works = none) :
    Phase bus own task := by
  cases task with
  | rotating | reopening | adopt_resumed | revoking | committing => exact nomatch h
  | _ => trivial

theorem carries_works (h : carries n task = true) : task.works ≠ none := by
  cases task with
  | opening | checking | defaulting | taking | committing | revoking | reopening | adopt_resumed =>
    exact Option.some_ne_none _
  | _ => exact Bool.noConfusion h

theorem secret_relabelled (st : State) (dir : String) (r : Resolved) : secret (st.relabelled dir r) = secret st := by
  unfold secret State.relabelled
  cases hc : st.connected with
  | none => rfl
  | some c => rfl

/-- Who does not work on a connection leaves its secret where it is. -/
theorem ran_apart (h : Ran session_for binding_path net w t task o net' w') (hnone : task.works = none) :
    net'.bus = net.bus ∧ secret w'.st = secret w.st ∧ w'.st.stranded = w.st.stranded := by
  cases h with
  | relabelled dir r hsame =>
    exact ⟨rfl, secret_relabelled w.st dir r, rfl⟩
  | extended p expires_at c q hc hq =>
    refine ⟨rfl, ?_, rfl⟩
    rw [secret, secret, hc, Option.map_some, hq]
    rfl
  | failed c why =>
    cases c with
    | _ => exact ⟨rfl, rfl, rfl⟩
  | connecting | resuming_in_place | forwarded | labelling | unadopted | rooted | rebinding | staging | snapshot
  | writing | unwritten | renewing | stamping | stamped | unstamped | closing | closed | idle =>
    exact ⟨rfl, rfl, rfl⟩
  | _ => exact nomatch hnone

theorem secret_of_proof {p : SessionProof} (h : st.connected.bind Connected.proof = some p) :
    secret st = some (some p.token) := by
  obtain ⟨c, hc, hp⟩ := Option.bind_eq_some_iff.mp h
  rw [secret, hc, Option.map_some, hp, Option.map_some]

theorem secret_eq (h : secret st = some (some n)) :
    ∃ c p, st.connected = some c ∧ c.proof = some p ∧ p.token = n := by
  obtain ⟨c, hc, hmap⟩ := Option.map_eq_some_iff.mp h
  obtain ⟨p, hp, hn⟩ := Option.map_eq_some_iff.mp hmap
  exact ⟨c, p, hc, hp, hn⟩

/-- A step of the call that goes on: what it finds next. -/
theorem Inv.ran (h : Inv ⟨net, w⟩) (htask : w.tasks[t]? = some task)
    (hran : Ran session_for binding_path net w t task o net' w') :
    Goes net.bus net'.bus ∧ (w'.st.connected = none ∨ w'.st.stranded = none) ∧
      ∃ task', w'.tasks = w.tasks.set t task' ∧ Phase net'.bus (secret w'.st) task' := by
  have hphase := h.phase t task htask
  have hrefl : Goes net.bus net.bus := .refl _
  cases hran with
  | resuming_in_place p hfree hproof => exact ⟨hrefl, h.alone, _, rfl, secret_of_proof hproof⟩
  | resumed m prior expires_at p bus hbus | resumed_lost m prior expires_at why p bus hbus => exact ⟨(resume_spec hbus).1, h.alone, _, rfl, trivial⟩
  | registered m expires_at p bus hbus | registered_lost m expires_at why p bus hbus => exact ⟨(register_spec hbus).1, h.alone, _, rfl, trivial⟩
  | rotated prior session expires_at p bus hbus =>
    obtain ⟨hgoes, -, -, hprior⟩ := resume_spec hbus
    obtain ⟨hlt, hdead⟩ := hprior h.sound
    exact ⟨hgoes, h.alone, _, rfl, prior.token, hphase, hlt.trans_le hgoes.issued, hdead⟩
  | rotated_lost prior session expires_at why p bus hbus => exact ⟨(resume_spec hbus).1, h.alone, _, rfl, trivial⟩
  | reopening p session o failed | unrevoked m old why => exact ⟨hrefl, h.alone, _, rfl, hphase⟩
  | taking m old hold =>
    refine ⟨hrefl, .inl rfl, _, rfl, ?_⟩
    split
    · exact rfl
    · exact rfl
  | taking_none m hnone =>
    refine ⟨hrefl, h.alone, _, rfl, ?_⟩
    exact Option.map_eq_none_iff.mpr hnone
  | revoked m old =>
    refine ⟨?_, h.alone, _, rfl, hphase⟩
    cases hproof : old.proof with
    | none => exact .refl _
    | some p => exact goes_revoke p.token
  | committing m => exact ⟨hrefl, .inr rfl, _, rfl, trivial⟩
  | adopted p session c hc | extended p expires_at c q hc hq =>
    refine ⟨hrefl, .inr ?_, _, rfl, trivial⟩
    exact h.alone.resolve_left fun hnone => Option.some_ne_none c (hc.symm.trans hnone)
  | stranded p session why said c hc => exact ⟨hrefl, .inl rfl, _, rfl, trivial⟩
  | failed c why =>
    refine ⟨hrefl, ?_, _, rfl, trivial⟩
    cases c with
    | _ => exact h.alone
  | relabelled dir r hsame =>
    refine ⟨hrefl, h.alone.imp_left fun hnone => ?_, _, rfl, trivial⟩
    exact Option.map_eq_none_iff.mpr hnone
  | writing path r next | unwritten path r next => exact ⟨hrefl, h.alone, _, rfl, phase_of_works (next_works next)⟩
  | _ => exact ⟨hrefl, h.alone, _, rfl, trivial⟩

theorem Inv.step (h : Inv ⟨net, w⟩) (hacted : Acted session_for binding_path net w a net' w') :
    Inv ⟨net', w'⟩ ∧ Goes net.bus net'.bus := by
  have hlocked : Locked w' := h.locked.step hacted
  cases hacted with
  | called w' hw =>
    obtain ⟨task₀, htask₀, rfl⟩ := begin_task hw
    refine ⟨⟨hlocked, h.sound, h.alone, fun t task htask => ?_⟩, .refl _⟩
    rcases append_at htask with htask | ⟨-, rfl⟩
    · exact h.phase t task htask
    · exact phase_of_works (task_works htask₀)
  | unauthorized reason => exact ⟨⟨hlocked, h.sound, h.alone, h.phase⟩, .refl _⟩
  | @ran i o task _ _ htask hran =>
    obtain ⟨hgoes, halone, task', htasks, hown⟩ := h.ran htask hran
    refine ⟨⟨hlocked, hgoes.sound h.sound, halone, fun t x hx => ?_⟩, hgoes⟩
    have hx : w'.tasks[t]? = some x := hx
    rw [htasks] at hx
    rcases set_at hx with ⟨-, rfl⟩ | ⟨hne, hx⟩
    · exact hown
    · by_cases hworks : x.works = none
      · exact phase_of_works hworks
      · -- the other has `switch`, so that this one does not
        have hidle : task.works = none := by
          by_contra hboth
          have hi := h.locked i task htask hboth
          exact hne (Option.some.inj (hi.symm.trans (h.locked t x hx hworks)))
        obtain ⟨hbus, hsecret, -⟩ := ran_apart hran hidle
        have hphase : Phase net'.bus (secret w'.st) x := by
          rw [hbus, hsecret]
          exact h.phase t x hx
        exact hphase

theorem held_iff : Held st n ↔ secret st = some (some n) ∨
    st.connected = none ∧ ∃ i p, st.stranded = some i ∧ i.proof = some p ∧ p.token = n := by
  unfold Held State.proof State.identity secret
  cases hc : st.connected with
  | some c =>
    refine ⟨fun ⟨p, hp, hn⟩ => .inl ?_, ?_⟩
    · have hp : c.proof = some p := hp
      rw [Option.map_some, hp, Option.map_some, hn]
    · rintro (hsome | ⟨hnone, -⟩)
      · obtain ⟨p, hp, hn⟩ := Option.map_eq_some_iff.mp (Option.some.inj hsome)
        exact ⟨p, hp, hn⟩
      · cases hnone
  | none =>
    cases hi : st.stranded with
    | none =>
      refine ⟨fun ⟨p, (hp : none = some p), _⟩ => (nomatch hp), ?_⟩
      rintro (hsome | ⟨-, i, p, hstranded, -⟩)
      · cases hsome
      · cases hstranded
    | some i =>
      refine ⟨fun ⟨p, hp, hn⟩ => .inr ⟨rfl, i, p, rfl, hp, hn⟩, ?_⟩
      rintro (hsome | ⟨-, j, p, hstranded, hp, hn⟩)
      · cases hsome
      · rw [← Option.some.inj hstranded] at hp
        exact ⟨p, hp, hn⟩

theorem Held.same {st' : State} (h : Held st n) (hsecret : secret st' = secret st)
    (hstranded : st'.stranded = st.stranded) : Held st' n := by
  have hnone : st.connected = none → st'.connected = none := fun hnone => by
    have hmap : secret st = none := Option.map_eq_none_iff.mpr hnone
    exact Option.map_eq_none_iff.mp (hsecret.trans hmap)
  rw [held_iff] at h ⊢
  rw [hsecret, hstranded]
  exact h.imp_right (And.imp_left hnone)

theorem carries_proof {proof : Option SessionProof} :
    (proof.any fun p => p.token == n) = true ↔ ∃ p, proof = some p ∧ p.token = n := by
  rw [Option.any_eq_true]
  exact exists_congr fun p => and_congr_right fun _ => beq_iff_eq

/-- A secret that is with another call stays there. -/
theorem Kept.goes (h : Kept ⟨net, w⟩ n) (htask : w.tasks[t]? = some task)
    (htasks : w'.tasks = w.tasks.set t task') (hheld : Held w.st n → Kept ⟨net', w'⟩ n)
    (hfiled : Filed net n → Kept ⟨net', w'⟩ n) (hown : carries n task = true → Kept ⟨net', w'⟩ n) :
    Kept ⟨net', w'⟩ n := by
  cases h with
  | held h => exact hheld h
  | filed h => exact hfiled h
  | carried j x hx hcarries =>
    have hx : w.tasks[j]? = some x := hx
    rcases eq_or_ne j t with rfl | hne
    · rw [Option.some.inj (hx.symm.trans htask)] at hcarries
      exact hown hcarries
    · refine .carried j x ?_ hcarries
      have hother : w'.tasks[j]? = some x := by rw [htasks, List.getElem?_set_ne hne.symm, hx]
      exact hother

/-- One that the call has. -/
theorem Kept.own (htask : w.tasks[t]? = some task)
    (htasks : w'.tasks = w.tasks.set t task') (hcarries : carries n task' = true) : Kept ⟨net', w'⟩ n := by
  have hlt : t < w.tasks.length := (List.getElem?_eq_some_iff.mp htask).1
  have htask' : w'.tasks[t]? = some task' := by rw [htasks, List.getElem?_set_self hlt]
  exact .carried t task' htask' hcarries

/-- And so does one that is in the state or on disk, where the call leaves these. -/
theorem Kept.quiet (h : Kept ⟨net, w⟩ n) (htask : w.tasks[t]? = some task)
    (htasks : w'.tasks = w.tasks.set t task') (hheld : Held w.st n → Held w'.st n)
    (hfiled : Filed net n → Filed net' n) (hown : carries n task = true → carries n task' = true) :
    Kept ⟨net', w'⟩ n := by
  exact h.goes htask htasks (fun h => .held (hheld h)) (fun h => .filed (hfiled h)) fun h => .own htask htasks (hown h)

theorem filed_write {path : String} {r r' : Record} (hr : net.files path = some r)
    (hsame : r'.proof.map SessionProof.token = r.proof.map SessionProof.token) (h : Filed net n) :
    Filed (net.write path r') n := by
  obtain ⟨path', r₀, p, hr₀, hp, hn⟩ := h
  by_cases heq : path' = path
  · rw [heq, hr] at hr₀
    rw [← Option.some.inj hr₀] at hp
    have htoken : r'.proof.map SessionProof.token = some n := by rw [hsame, hp, Option.map_some, hn]
    obtain ⟨q, hq, hn'⟩ := Option.map_eq_some_iff.mp htoken
    exact ⟨path, r', q, World.write_self .., hq, hn'⟩
  · exact ⟨path', r₀, p, (World.write_of_ne net heq r').trans hr₀, hp, hn⟩

/-- A step of a call at which no secret is lost. -/
theorem Kept.ran (h : Kept ⟨net, w⟩ n) (hinv : Inv ⟨net, w⟩)
    (htask : w.tasks[t]? = some task) (hran : Ran session_for binding_path net w t task o net' w')
    (haccepts : net.bus.accepts n = true) (haccepts' : net'.bus.accepts n = true)
    (hspares : Spares ⟨net, w⟩ (.act (.run t o))) : Kept ⟨net', w'⟩ n := by
  have hphase := hinv.phase t task htask
  simp only [Spares, htask] at hspares
  -- it is in the hands of this call, and the bus does not accept it
  have hdead : ∀ {proof : Option SessionProof}, Dead net proof → (proof.any fun p => p.token == n) = true → False := by
    intro proof hdead hcarries
    obtain ⟨p, hp, hn⟩ := carries_proof.mp hcarries
    have hnot := hdead p hp
    rw [hn, haccepts] at hnot
    exact Bool.noConfusion hnot
  have hsaved : ∀ {proof : Option SessionProof}, Saved net proof → (proof.any fun p => p.token == n) = true →
      Filed net n := by
    intro proof hsaved hcarries
    obtain ⟨p, hp, hn⟩ := carries_proof.mp hcarries
    rw [← hn] at haccepts ⊢
    exact hsaved p hp haccepts
  -- it was the connection's until this was resumed
  have hreplaced : ∀ {c : Connected}, w.st.connected = some c →
      (∃ k, secret w.st = some (some k) ∧ k < net.bus.issued.length ∧ net.bus.accepts k = false) → Held w.st n → False := by
    rintro c hc ⟨k, hk, -, hnot⟩ hheld
    rcases held_iff.mp hheld with hsecret | ⟨hnone, -⟩
    · rw [Option.some.inj (Option.some.inj (hk.symm.trans hsecret)), haccepts] at hnot
      exact Bool.noConfusion hnot
    · exact Option.some_ne_none c (hc.symm.trans hnone)
  cases hran with
  | unopened m why => exact h.quiet htask rfl id id fun hcarries => (hdead hspares hcarries).elim
  | other_team m old hold hteam =>
    refine h.quiet htask rfl id id fun hcarries => ?_
    rcases hspares with hspares | hsame
    · exact (hdead hspares hcarries).elim
    · exact absurd (hsame old hold) hteam
  | taking m old hold =>
    have hproof : carries n (.taking m) = true → carries n (if old.proof.isSome then .revoking m old else .committing m) = true := by
      intro hcarries
      split
      · exact (Bool.or_eq_true _ _).mpr (.inl hcarries)
      · exact hcarries
    refine h.goes htask rfl (fun hheld => ?_) (fun hfiled => .filed hfiled) fun hcarries => .own htask rfl (hproof hcarries)
    rcases held_iff.mp hheld with hsecret | ⟨hnone, -⟩
    · obtain ⟨c, p, hc, hp, hn⟩ := secret_eq hsecret
      rw [← Option.some.inj (hold.symm.trans hc)] at hp
      refine .own htask rfl ?_
      rw [if_pos (by rw [hp]; rfl)]
      exact (Bool.or_eq_true _ _).mpr (.inr (carries_proof.mpr ⟨p, hp, hn⟩))
    · exact absurd (hold.symm.trans hnone) (Option.some_ne_none old)
  | committing m =>
    refine h.goes htask rfl (fun hheld => ?_) (fun hfiled => .filed hfiled) fun hcarries => ?_
    · have hnone : secret w.st = none := hphase
      rcases held_iff.mp hheld with hsecret | ⟨-, i, p, hi, hp, hn⟩
      · exact nomatch hnone.symm.trans hsecret
      · exact .filed (hsaved (hspares i hi) (carries_proof.mpr ⟨p, hp, hn⟩))
    · obtain ⟨p, hp, hn⟩ := carries_proof.mp hcarries
      exact .held ⟨p, hp, hn⟩
  | revoked m old =>
    refine h.quiet htask rfl id id fun hcarries => ?_
    rcases (Bool.or_eq_true _ _).mp hcarries with hmine | hold
    · exact hmine
    · -- it is what was revoked
      obtain ⟨p, hp, hn⟩ := carries_proof.mp hold
      rw [hp, ← hn] at haccepts'
      exact absurd (haccepts'.symm.trans revoke_accepts) (by decide)
  | unrevoked m old why =>
    refine h.goes htask rfl (fun hheld => .held hheld) (fun hfiled => .filed hfiled) fun hcarries => ?_
    rcases (Bool.or_eq_true _ _).mp hcarries with hmine | hold
    · exact .own htask rfl hmine
    · exact .filed (hsaved hspares hold)
  | unconnected p session failed hnone =>
    obtain ⟨k, hk, -⟩ := hphase
    have hk : secret w.st = some (some k) := hk
    obtain ⟨c, -, hc, -⟩ := secret_eq hk
    exact absurd (hc.symm.trans hnone) (Option.some_ne_none c)
  | adopted p session c hc | stranded p session why said c hc =>
    refine h.goes htask rfl (fun hheld => (hreplaced hc hphase hheld).elim) (fun hfiled => .filed hfiled) fun hcarries => ?_
    exact .held ⟨p, rfl, beq_iff_eq.mp hcarries⟩
  | writing path r next =>
    refine h.goes htask rfl (fun hheld => .held hheld) (fun hfiled => ?_) fun hcarries => Bool.noConfusion hcarries
    obtain ⟨path', r₀, p, hr₀, hp, hn⟩ := hfiled
    by_cases heq : path' = path
    · -- it was in the record that is written over
      rw [heq] at hr₀
      rw [← hn] at haccepts ⊢
      rcases hspares r₀ p hr₀ hp haccepts with hheld | ⟨q, hq, hsame⟩ | ⟨j, x, hx, hcarries⟩
      · exact .held hheld
      · exact .filed ⟨path, r, q, World.write_self .., hq, hsame⟩
      · have hother : j ≠ t := by
          rintro rfl
          rw [Option.some.inj (hx.symm.trans htask)] at hcarries
          exact Bool.noConfusion hcarries
        refine .carried j x ?_ hcarries
        exact (List.getElem?_set_ne hother.symm).trans hx
    · exact .filed ⟨path', r₀, p, (World.write_of_ne net heq r).trans hr₀, hp, hn⟩
  | stamped path p expires_at r hr his =>
    refine h.quiet htask rfl id (filed_write hr ?_) fun hcarries => Bool.noConfusion hcarries
    unfold Record.stamped
    cases r.proof with
    | none => rfl
    | some q => rfl
  | closed path mine r hr his => exact h.quiet htask rfl id (filed_write hr rfl) fun hcarries => Bool.noConfusion hcarries
  | relabelled dir r hsame =>
    exact h.quiet htask rfl (fun hheld => hheld.same (secret_relabelled w.st dir r) rfl) id fun hcarries =>
      Bool.noConfusion hcarries
  | extended p expires_at c q hc hq =>
    refine h.quiet htask rfl (fun hheld => hheld.same ?_ rfl) id fun hcarries => Bool.noConfusion hcarries
    rw [secret, secret, hc, Option.map_some, hq]
    rfl
  | failed c why =>
    refine h.quiet htask rfl (fun hheld => hheld.same ?_ ?_) id fun hcarries => Bool.noConfusion hcarries
    · cases c with
      | _ => rfl
    · cases c with
      | _ => rfl
  | opened m | checked m hteam | defaulting m | taking_none m hnone => exact h.quiet htask rfl id id id
  | reopening p session o failed => exact h.quiet htask rfl id id id
  | idle task o hidle =>
    refine h.quiet htask rfl id id fun hcarries => ?_
    cases hidle with
    | _ => exact Bool.noConfusion hcarries
  | _ => exact h.quiet htask rfl id id fun hcarries => Bool.noConfusion hcarries

/-- A secret that the window is handed is in the hands of the call that asked for it. -/
theorem handed_kept (htask : w.tasks[t]? = some task)
    (hran : Ran session_for binding_path net w t task o net' w') (hn : n = net.bus.issued.length)
    (hlt : n < net'.bus.issued.length) (hspares : Spares ⟨net, w⟩ (.act (.run t o))) : Kept ⟨net', w'⟩ n := by
  simp only [Spares, htask] at hspares
  cases hran with
  | resumed m prior expires_at p bus hbus | rotated prior session expires_at p bus hbus =>
    exact .own htask rfl (beq_iff_eq.mpr ((resume_spec hbus).2.1.trans hn.symm))
  | registered m expires_at p bus hbus =>
    exact .own htask rfl (beq_iff_eq.mpr ((register_spec hbus).2.1.trans hn.symm))
  | resumed_lost | registered_lost | rotated_lost => exact hspares.elim
  | revoked m old =>
    have hsame : (old.proof.elim net.bus fun p => net.bus.revoke p.token).issued = net.bus.issued := by
      cases old.proof with
      | none => rfl
      | some p => rfl
    exact absurd hlt (by rw [hn, hsame]; exact Nat.lt_irrefl _)
  | _ => exact absurd hlt (by rw [hn]; exact Nat.lt_irrefl _)

/-! ## Its records -/

/-- The path that is going to be written. -/
def writes : Task → Option String
  | .writing path _ _ | .stamp path _ _ | .closed path _ => some path
  | _ => none

/-- The records that have changed, and those that are going to, are the window's. -/
structure Located (own : String → Prop) (files : String → Option Record) (s : Sys) : Prop where
  tasks : ∀ (t : ℕ) task path, s.window.tasks[t]? = some task → writes task = some path → own path
  files : ∀ path, s.net.files path = files path ∨ own path

theorem writes_next (next : Next) : writes next.task = none := by
  cases next with
  | _ => rfl

theorem writes_begin {c : Call} (h : c.task w = some task) : writes task = none := by
  cases task_begun h with
  | _ => rfl

theorem Located.step {own : String → Prop} {files : String → Option Record} (h : Located own files ⟨net, w⟩)
    (hacted : Acted session_for binding_path net w a net' w') (hown : own (binding_path w.st.key)) :
    Located own files ⟨net', w'⟩ := by
  cases hacted with
  | called w' hw =>
    obtain ⟨task₀, htask₀, rfl⟩ := begin_task hw
    refine ⟨fun t task path htask hpath => ?_, h.files⟩
    rcases append_at htask with htask | ⟨-, rfl⟩
    · exact h.tasks t task path htask hpath
    · exact nomatch (writes_begin htask₀).symm.trans hpath
  | unauthorized reason => exact ⟨h.tasks, h.files⟩
  | @ran i o task _ _ htask hran =>
    have hgoes : ∀ task', w'.tasks = w.tasks.set i task' → (∀ path, writes task' = some path → own path) →
        (∀ path, net'.files path = net.files path ∨ own path) → Located own files ⟨net', w'⟩ := by
      intro task' htasks hnext hfiles
      refine ⟨fun t x path hx hpath => ?_, fun path => ?_⟩
      · have hx : w'.tasks[t]? = some x := hx
        rw [htasks] at hx
        rcases set_at hx with ⟨-, rfl⟩ | ⟨-, hx⟩
        · exact hnext path hpath
        · exact h.tasks t x path hx hpath
      · rcases hfiles path with hsame | hmine
        · exact (h.files path).imp_left hsame.trans
        · exact .inr hmine
    have hwrite : ∀ path r, own path → ∀ path', (net.write path r).files path' = net.files path' ∨ own path' := by
      intro path r hpath path'
      by_cases heq : path' = path
      · exact .inr (heq ▸ hpath)
      · exact .inl (World.write_of_ne net heq r)
    have hmine : ∀ path, writes task = some path → own path := fun path => h.tasks i task path htask
    have hkey : ∀ path, some (binding_path w.st.key) = some path → own path := fun path heq => Option.some.inj heq ▸ hown
    cases hran with
    | snapshot next | stamping p expires_at | closing identity hi => exact hgoes _ rfl hkey fun _ => .inl rfl
    | writing path r next =>
      exact hgoes _ rfl (fun _ hpath => nomatch (writes_next next).symm.trans hpath) (hwrite path r (hmine path rfl))
    | unwritten path r next why =>
      exact hgoes _ rfl (fun _ hpath => nomatch (writes_next next).symm.trans hpath) fun _ => .inl rfl
    | stamped path p expires_at r hr his | closed path mine r hr his => exact hgoes _ rfl (fun _ hpath => nomatch hpath) (hwrite path _ (hmine path rfl))
    | taking m old hold =>
      refine hgoes _ rfl (fun path hpath => ?_) fun _ => .inl rfl
      split at hpath
      · cases hpath
      · cases hpath
    | _ => exact hgoes _ rfl (fun _ hpath => nomatch hpath) fun _ => .inl rfl

end Window

/-! ## Runs -/

/-- The secret was issued, and is somewhere while the bus accepts it. -/
structure Safe (n : ℕ) (s : Sys) : Prop where
  inv : Inv s
  below : n < s.net.bus.issued.length
  kept : s.net.bus.accepts n = true → Kept s n

section Runs

variable {session_for binding_path : String → String} {s t : Sys} {a : Event} {tr : List (Trans Sys Event)} {n : ℕ}

theorem Inv.start (h : s.window.Starts) (hsound : Sound s.net.bus) : Inv s where
  locked := fun t task htask => absurd htask (by rw [h.tasks]; simp)
  sound := hsound
  alone := .inl h.connected
  phase := fun t task htask => absurd htask (by rw [h.tasks]; simp)

/-- What the bus does besides leaves a window as it was. -/
theorem Inv.around {net net' : World} {w : Window} (h : Inv ⟨net, w⟩) (hgoes : Goes net.bus net'.bus) :
    Inv ⟨net', w⟩ := by
  refine ⟨h.locked, hgoes.sound h.sound, h.alone, fun i task htask => ?_⟩
  have hphase := h.phase i task htask
  cases task with
  | reopening | adopt_resumed =>
    obtain ⟨k, hk, hlt, hdead⟩ := hphase
    refine ⟨k, hk, hlt.trans_le hgoes.issued, Bool.eq_false_iff.mpr fun haccepts => ?_⟩
    exact Bool.eq_false_iff.mp hdead (hgoes.accepts h.sound k hlt haccepts)
  | _ => exact hphase

theorem Inv.next (h : Inv s) (hr : Rel (Proxy.step session_for binding_path) s a t) : Inv t ∧ Goes s.net.bus t.net.bus := by
  rcases step_did hr with ⟨act, rfl, hacted⟩ | ⟨b, rfl, rfl⟩
  · have hstep : Inv ⟨t.net, t.window⟩ ∧ Goes s.net.bus t.net.bus := h.step hacted
    exact hstep
  · have hgoes : Goes s.net.bus (s.net.bus.elsewhere b) := goes_elsewhere b
    have haround : Inv ⟨{ s.net with bus := s.net.bus.elsewhere b }, s.window⟩ := h.around hgoes
    exact ⟨haround, hgoes⟩

/-- The step lemma. -/
theorem Safe.next (h : Safe n s) (hspares : Spares s a) (hr : Rel (Proxy.step session_for binding_path) s a t) : Safe n t := by
  obtain ⟨hinv, hgoes⟩ := h.inv.next hr
  refine ⟨hinv, h.below.trans_le hgoes.issued, fun haccepts' => ?_⟩
  have haccepts := hgoes.accepts h.inv.sound n h.below haccepts'
  have hkept := h.kept haccepts
  rcases step_did hr with ⟨act, rfl, hacted⟩ | ⟨b, rfl, rfl⟩
  · obtain ⟨net', w'⟩ := t
    cases hacted with
    | called w' hw =>
      obtain ⟨task, -, rfl⟩ := begin_task hw
      cases hkept with
      | held hheld => exact .held hheld
      | filed hfiled => exact .filed hfiled
      | carried i x hx hcarries =>
        refine .carried i x ?_ hcarries
        exact (List.getElem?_append_left (List.getElem?_eq_some_iff.mp hx).1).trans hx
    | unauthorized reason =>
      cases hkept with
      | held hheld => exact .held hheld
      | filed hfiled => exact .filed hfiled
      | carried i x hx hcarries => exact .carried i x hx hcarries
    | ran task _ _ htask hran => exact hkept.ran h.inv htask hran haccepts haccepts' hspares
  · cases hkept with
    | held hheld => exact .held hheld
    | filed hfiled => exact .filed hfiled
    | carried i x hx hcarries => exact .carried i x hx hcarries

/-- What the window is handed is safe. -/
theorem safe_handed {e : Trans Sys Event} (hinv : Inv e.pre) (hr : Rel (Proxy.step session_for binding_path) e.pre e.act e.post)
    (hspares : Spares e.pre e.act) (h : Handed e n) : Safe n e.post := by
  obtain ⟨⟨act, hact⟩, hn, hlt⟩ := h
  refine ⟨(hinv.next hr).1, hlt, fun _ => ?_⟩
  rcases step_did hr with ⟨act, heq, hacted⟩ | ⟨b, heq, -⟩
  · rw [heq] at hspares
    generalize hpost : e.post = t at hacted hlt ⊢
    obtain ⟨net', w'⟩ := t
    cases hacted with
    | called w' hw | unauthorized reason => exact absurd hlt (by rw [hn]; exact Nat.lt_irrefl _)
    | ran task _ _ htask hran => exact handed_kept htask hran hn hlt hspares
  · exact Event.noConfusion (heq.symm.trans hact)

/-- **No secret is lost.** In a run whose steps spare what the window was given, for every interleaving of its
connections, resumes, renewals and records and of what others do on the bus: what it was given and
the bus accepts is in its state or on record, or in the hands of a connection or a resume. -/
theorem secrets_are_kept (hstart : s.window.Starts) (hsound : Sound s.net.bus)
    (hissued : ∀ n, Filed s.net n → n < s.net.bus.issued.length)
    (hrun : Run (Rel (Proxy.step session_for binding_path)) s tr t) (hspares : ∀ e ∈ tr, Spares e.pre e.act) :
    CustodyLaw binding_path s tr t := by
  have hinv : Inv s := .start hstart hsound
  have hsafe : ∀ n, Given s tr n → Safe n t := by
    rintro n (hfiled | ⟨e, he, hhanded⟩)
    · exact hrun.invariant (I := Safe n) (C := Spares) ⟨hinv, hissued n hfiled, fun _ => .filed hfiled⟩
        (fun _ _ _ h hspares hr => h.next hspares hr) hspares
    · obtain ⟨tr₁, tr₂, rfl⟩ := List.append_of_mem he
      obtain ⟨hfirst, hr, hrest⟩ := hrun.split
      have hpre : Inv e.pre := hfirst.invariant' (I := Inv) hinv fun _ _ _ h hr => (h.next hr).1
      have hpost : Safe n e.post := safe_handed hpre hr (hspares e he) hhanded
      exact hrest.invariant (I := Safe n) (C := Spares) hpost (fun _ _ _ h hspares hr => h.next hspares hr)
        fun x hx => hspares x (List.mem_append_right _ (List.mem_cons_of_mem _ hx))
  -- what has been written since is the window's
  have hlocated : Located (fun path => ∃ e ∈ tr, path = binding_path e.pre.window.st.key) s.net.files t := by
    refine hrun.invariant (I := Located (fun path => ∃ e ∈ tr, path = binding_path e.pre.window.st.key) s.net.files)
      (C := fun u _ => ∃ e ∈ tr, binding_path u.window.st.key = binding_path e.pre.window.st.key) ?_ ?_ ?_
    · exact ⟨fun t task path htask => absurd htask (by rw [hstart.tasks]; simp), fun _ => .inl rfl⟩
    · intro u a v h hown hr
      rcases step_did hr with ⟨act, rfl, hacted⟩ | ⟨b, rfl, rfl⟩
      · have hstep : Located _ s.net.files ⟨v.net, v.window⟩ := h.step hacted hown
        exact hstep
      · exact ⟨h.tasks, h.files⟩
    · exact fun e he => ⟨e, he, rfl⟩
  have hrecord : ∀ n, Filed t.net n → OnRecord binding_path s tr t n := by
    rintro n ⟨path, r, p, hr, hp, hn⟩
    refine ⟨path, ⟨r, p, hr, hp, hn⟩, ?_⟩
    rcases hlocated.files path with hsame | hmine
    · exact .inl ⟨r, p, hsame ▸ hr, hp, hn⟩
    · exact .inr hmine
  refine ⟨fun n hgiven haccepts => ?_, fun hfree n hgiven haccepts => ?_⟩
  · cases (hsafe n hgiven).kept haccepts with
    | held hheld => exact .inl hheld
    | filed hfiled => exact .inr (.inl (hrecord n hfiled))
    | carried i task htask hcarries => exact .inr (.inr ⟨i, task, htask, hcarries⟩)
  · cases (hsafe n hgiven).kept haccepts with
    | held hheld => exact .inl hheld
    | filed hfiled => exact .inr (hrecord n hfiled)
    | carried i task htask hcarries =>
      have hswitch := (hsafe n hgiven).inv.locked i task htask (carries_works hcarries)
      exact absurd (hswitch.symm.trans hfree) (Option.some_ne_none i)

end Runs

/-! ## Closed runs -/

/-- Enough for a step to spare: nothing is refused, and no record is written over a credential that
the bus accepts and the state has not. -/
def spares (s : Sys) : Event → Bool
  | .act (.run t o) =>
    match s.window.tasks[t]?, o with
    | some (.resuming _ _), .lost _ _ | some (.registering _), .lost _ _ | some (.rotating _ _), .lost _ _ => false
    | some (.opening _), .refused _ | some (.revoking _ _), .refused _ => false
    | some (.checking m), .done => s.window.st.identity.all fun old => old.team == m.team
    | some (.committing _), .done => s.window.st.stranded.isNone
    | some (.writing path _ _), .done =>
      (s.net.files path).all fun old => old.proof.all fun p => !s.net.bus.accepts p.token
    | _, _ => true
  | _ => true

theorem spares_of {s : Sys} {a : Event} (h : spares s a = true) : Spares s a := by
  unfold Spares
  split
  · rename_i t o
    simp only [spares] at h
    split
    · rename_i htask
      simp only [htask] at h
      exact Bool.noConfusion h
    · rename_i htask
      simp only [htask] at h
      exact Bool.noConfusion h
    · rename_i htask
      simp only [htask] at h
      exact Bool.noConfusion h
    · rename_i htask
      simp only [htask] at h
      exact Bool.noConfusion h
    · rename_i m htask
      simp only [htask] at h
      refine .inr fun old hold => ?_
      rw [hold] at h
      exact beq_iff_eq.mp h
    · rename_i htask
      simp only [htask] at h
      exact Bool.noConfusion h
    · rename_i htask
      simp only [htask] at h
      exact fun i hi => absurd (hi.symm.trans (Option.isNone_iff_eq_none.mp h)) (Option.some_ne_none i)
    · rename_i htask
      simp only [htask] at h
      intro old p hold hp haccepts
      rw [hold, Option.all_some, hp, Option.all_some, haccepts] at h
      exact Bool.noConfusion h
    · trivial
  · trivial

/-- The window connects, and is resumed; the new secret opens no connection. -/
def resumed : List Event :=
  .act (.call .initial) :: connects 0 ++ .act (.call .resume) :: steps 1 1 ++
    [.act (.run 1 (.issued 200)), .act (.run 1 (.refused "reset"))] ++ steps 1 3

theorem resumed_run : (exec go opened_window resumed).isSome = true := by decide

/-- The run, and where it ends. -/
def resumed_end : List (Trans Sys Event) × Sys := (exec go opened_window resumed).get resumed_run

theorem opened_sound : Sound opened_window.net.bus := ⟨.nil _, .nil _, fun _ hs => nomatch hs⟩

/-- The window is off the bus, and has its secret. -/
theorem secrets_are_kept_resumed :
    (resumed_end.2.window.switch = none ∧ resumed_end.2.window.st.connected = none ∧
      resumed_end.2.net.bus.accepts 1 = true ∧ resumed_end.2.window.st.proof.map SessionProof.token = some 1) ∧
      CustodyLaw id opened_window resumed_end.1 resumed_end.2 :=
  ⟨by decide, secrets_are_kept opened_starts opened_sound (fun _ ⟨_, _, _, hr, _⟩ => nomatch hr)
    (exec_get resumed_run) fun e he => spares_of
      (List.all_eq_true.mp (by decide : (resumed_end.1.all fun e => spares e.pre e.act) = true) e he)⟩

/-- The window registers, and the new secret opens no connection. -/
def dropped : List Event :=
  .act (.call .initial) :: steps 0 2 ++
    [.act (.run 0 (.resolved found)), .act (.run 0 (.whoami "ada" "crew")), .act (.run 0 (.issued 100)),
      .act (.run 0 (.refused "reset"))] ++ steps 0 1

theorem dropped_run : (exec go opened_window dropped).isSome = true := by decide

/-- The run, and where it ends. -/
def dropped_end : List (Trans Sys Event) × Sys := (exec go opened_window dropped).get dropped_run

theorem dropped_length : dropped_end.1.length = 8 := exec_length dropped_run

/-- The step in which the window is handed its secret. -/
def handed_step : Trans Sys Event := dropped_end.1.get ⟨5, by rw [dropped_length]; omega⟩

/-- The call has returned, the bus accepts the secret, and it is nowhere. -/
theorem secret_is_dropped :
    (dropped_end.2.window.tasks = [.returned (.error "reset")] ∧ dropped_end.2.window.switch = none ∧
      Handed handed_step 0 ∧ dropped_end.2.net.bus.accepts 0 = true) ∧
      ¬ CustodyLaw id opened_window dropped_end.1 dropped_end.2 := by
  have hhanded : Handed handed_step 0 := ⟨⟨.run 0 (.issued 100), by decide⟩, by decide, by decide⟩
  have haccepts : dropped_end.2.net.bus.accepts 0 = true := by decide
  refine ⟨⟨by decide, by decide, hhanded, haccepts⟩, fun h => ?_⟩
  have hgiven : Given opened_window dropped_end.1 0 := .inr ⟨handed_step, List.get_mem _ _, hhanded⟩
  rcases h.settled (by decide) 0 hgiven haccepts with ⟨p, hp, -⟩ | ⟨path, ⟨r, p, hr, -⟩, -⟩
  · have hnone : dropped_end.2.window.st.proof = none := by decide
    exact nomatch hnone.symm.trans hp
  · have hnone : dropped_end.2.net.files path = none := rfl
    exact nomatch hnone.symm.trans hr

end CrewSync.Custody
