/-
Whether the record of a conversation describes the window that connected for it last.

What a window is, is read under one lock and written to disk under another, and any number of calls,
of this process and of its successors, wait for the second. A renewal and a close look whether the
record is still theirs; `write_binding` does not. So the last connection's record is safe while
nobody who has read before it writes after it (`Orderly`): the call that connects has `switch` until
its record is written (`Pend`), and from then on the record is of that connection, and its expiry is
the state's or is about to be (`Done`).
-/
import CrewSync.Custody

set_option autoImplicit false

namespace CrewSync.Bindings

open Rows Runs Proxy

/-! ## The windows of a host -/

/-- A window has connected: for the record at this path, with this secret. -/
structure Connection where
  who : ℕ
  path : String
  token : Option ℕ
  deriving DecidableEq, Repr

/-- The windows, what is around them, and who has connected, in order, which nobody reads. -/
structure Host where
  net : World
  windows : List Window
  connections : List Connection

/-- What happens: a process begins, a window does something, or others do on the bus. -/
inductive Host.Event where
  | start (st : State)
  | act (i : ℕ) (a : Act)
  | bus (e : Elsewhere)
  deriving DecidableEq, Repr

/-- A process that has just begun. -/
def started (st : State) : Window := ⟨{ st with connected := none, stranded := none }, none, []⟩

/-- Every connection is another generation. -/
def connected (binding_path : String → String) (i : ℕ) (w w' : Window) : List Connection :=
  if w'.st.generation = w.st.generation then []
  else [⟨i, binding_path w'.st.key, w'.st.proof.map SessionProof.token⟩]

/-- One step. -/
def Host.step (session_for binding_path : String → String) (s : Host) : Host.Event → Option Host
  | .start st => some { s with windows := s.windows ++ [started st] }
  | .act i a => s.windows[i]?.bind fun w => (w.step session_for binding_path s.net a).map fun (net, w') =>
      ⟨net, s.windows.set i w', s.connections ++ connected binding_path i w w'⟩
  | .bus e => some { s with net := { s.net with bus := s.net.bus.elsewhere e } }

/-- The last connection of a kind. -/
def latest (p : Connection → Bool) (l : List Connection) : Option Connection := l.reverse.find? p

/-! ## The law -/

/-- The call has returned. -/
def is_over : Task → Bool
  | .returned _ => true
  | _ => false

/-- All have. -/
def Finished (w : Window) : Prop := ∀ task ∈ w.tasks, is_over task = true

instance (w : Window) : Decidable (Finished w) := inferInstanceAs (Decidable (∀ task ∈ w.tasks, is_over task = true))

/-- The record with this secret is of a connection of another window, which has not connected since. -/
def MovedOn (l : List Connection) (path : String) (i n : ℕ) : Prop :=
  ∃ l₁ k l₂, l = l₁ ++ ⟨k, path, some n⟩ :: l₂ ∧ k ≠ i ∧ ∀ y ∈ l₂, y.who = i → y.path ≠ path

/-- What the windows of a host promise of a run. -/
structure BindingLaw (binding_path : String → String) (tr : List (Trans Host Host.Event)) : Prop where
  /-- When all calls have returned, the record of a conversation has the credential of the window
  that connected for it last, with the expiry of its last renewal. -/
  described : ∀ e ∈ tr, (∀ w ∈ e.post.windows, Finished w) → ∀ path x w,
    latest (fun c => c.path == path) e.post.connections = some x → e.post.windows[x.who]? = some w →
      binding_path w.st.key = path → ∃ r, e.post.net.files path = some r ∧ r.proof = w.st.proof
  /-- A window leaves a record alone that has moved on. -/
  guarded : ∀ e ∈ tr, ∀ i a, e.act = .act i a → ∀ path old q, e.pre.net.files path = some old →
    old.proof = some q → MovedOn e.pre.connections path i q.token → e.post.net.files path = e.pre.net.files path

/-! ## When it holds -/

/-- The record with `old` is of a connection after each that the window has made with `new`. -/
def Overtaken (l : List Connection) (path : String) (i : ℕ) (new old : Option ℕ) : Prop :=
  new ≠ old ∧ ∃ l₁ k l₂, l = l₁ ++ ⟨k, path, old⟩ :: l₂ ∧ (⟨i, path, new⟩ : Connection) ∉ l₂

/-- A renewal of this credential is about to reach the record. -/
def Stamps (q : SessionProof) (e : ℕ) (task : Task) : Prop := task = .stamping q e ∨ ∃ path, task = .stamp path q e

def Stamping (w : Window) (n : ℕ) : Prop :=
  ∃ (t : ℕ) (task : Task) (q : SessionProof) (e : ℕ), w.tasks[t]? = some task ∧ Stamps q e task ∧ q.token = n

/-- A step of a window at which no record falls behind: `write_binding` does not overwrite the record
of a later connection, nor a later expiry; what is to be written is; a renewal is of the window's
conversation; a window with no credential closes no other's record; and a window that is bound to
another conversation is making no connection, and goes back to the one that it connected for. -/
def Orderly (binding_path : String → String) (net : World) (l : List Connection) (i : ℕ) (w : Window) : Act → Prop
  | .run t o =>
    match w.tasks[t]?, o with
    | some (.writing path r _), .done =>
      (∀ old, net.files path = some old →
        ¬ Overtaken l path i (r.proof.map SessionProof.token) (old.proof.map SessionProof.token)) ∧
      ∀ p q, r.proof = some p → w.st.proof = some q → p.token = q.token →
        p.expires_at = q.expires_at ∨ Stamping w q.token
    | some (.writing _ _ _), .refused _ => False
    | some (.stamp _ _ _), o => o = .done
    | some (.stamping p _), _ => ∀ x ∈ l, x.token = some p.token → x.path = binding_path w.st.key
    | some (.closed path none), .done =>
      ∀ old q, net.files path = some old → old.proof = some q → ¬ MovedOn l path i q.token
    | some (.staging _ _ _), _ => w.switch = none
    | some (.failed (.rebind host_id binding session bound_by_request) why), _ =>
      ∀ x, latest (fun c => c.who == i) l = some x →
        x.path = binding_path (w.st.restored (.rebind host_id binding session bound_by_request) why).key
    | _, _ => True
  | _ => True

/-- And of a host. -/
def Host.Orderly (binding_path : String → String) (s : Host) : Host.Event → Prop
  | .act i a => ∀ w, s.windows[i]? = some w → Bindings.Orderly binding_path s.net s.connections i w a
  | _ => True

/-! ## The last connection -/

section Latest

variable {l : List Connection} {p q : Connection → Bool} {x y : Connection}

theorem latest_append : latest p (l ++ [x]) = if p x then some x else latest p l := by
  rw [latest, List.reverse_append, List.reverse_singleton, List.singleton_append, List.find?_cons]
  by_cases hp : p x = true
  · rw [if_pos hp, hp]
  · rw [if_neg hp, Bool.eq_false_iff.mpr hp]
    rfl

theorem latest_append_of_not {l' : List Connection} (h : ∀ y ∈ l', p y = false) : latest p (l ++ l') = latest p l := by
  have hnone : l'.reverse.find? p = none :=
    List.find?_eq_none.mpr fun y hy => Bool.eq_false_iff.mp (h y (List.mem_reverse.mp hy))
  rw [latest, List.reverse_append, List.find?_append, hnone, Option.none_or]
  rfl

theorem mem_of_latest (h : latest p l = some x) : x ∈ l ∧ p x = true :=
  ⟨List.mem_reverse.mp (List.mem_of_find?_eq_some h), List.find?_some h⟩

theorem latest_ne_none (hx : x ∈ l) (hp : p x = true) : ∃ y, latest p l = some y := by
  cases h : latest p l with
  | some y => exact ⟨y, rfl⟩
  | none => exact absurd hp (List.find?_eq_none.mp h x (List.mem_reverse.mpr hx))

/-- There is none of the kind after it. -/
theorem latest_split (h : latest p l = some x) : ∃ l₁ l₂, l = l₁ ++ x :: l₂ ∧ ∀ y ∈ l₂, p y = false := by
  obtain ⟨-, as, bs, hl, hnone⟩ := List.find?_eq_some_iff_append.mp h
  refine ⟨bs.reverse, as.reverse, ?_, fun y hy => ?_⟩
  · rw [← List.reverse_reverse l, hl, List.reverse_append, List.reverse_cons, List.append_assoc]
    rfl
  · have hnot := hnone y (List.mem_reverse.mp hy)
    rw [Bool.not_eq_true'] at hnot
    exact hnot

/-- Two kinds have one last connection where the last of each is of the other. -/
theorem latest_eq (hx : latest p l = some x) (hqx : q x = true) (hy : latest q l = some y) (hpy : p y = true) : x = y := by
  induction l using List.reverseRecOn with
  | nil => exact nomatch hx
  | append_singleton l a ih =>
    rw [latest_append] at hx hy
    by_cases hp : p a = true
    · rw [if_pos hp] at hx
      have hax := Option.some.inj hx
      rw [if_pos (hax ▸ hqx)] at hy
      exact hax.symm.trans (Option.some.inj hy)
    · rw [if_neg hp] at hx
      have hq : ¬ q a = true := by
        intro hq
        rw [if_pos hq] at hy
        exact hp (Option.some.inj hy ▸ hpy)
      rw [if_neg hq] at hy
      exact ih hx hy

end Latest

/-! ## What was issued -/

/-- No session has had one epoch twice. -/
structure Ledger (b : Bus) : Prop where
  nodup : b.issued.Nodup
  ids : ∀ x ∈ b.issued, x.1 < b.issued.length
  sessions : ∀ s ∈ b.sessions, s.id < b.issued.length ∧ ∀ x ∈ b.issued, x.1 = s.id → x.2 ≤ s.epoch

/-- It was issued as it stands. -/
def Genuine (b : Bus) (p : SessionProof) : Prop := b.issued[p.token]? = some (p.session_id, p.epoch)

/-- The bus goes on: what was issued stays so. -/
structure Grows (b b' : Bus) : Prop where
  ledger : Ledger b → Ledger b'
  issued : b.issued <+: b'.issued

section Issued

variable {b b' : Bus} {s : Session} {p q prior : SessionProof} {e : ℕ}

theorem Grows.refl (b : Bus) : Grows b b := ⟨id, List.prefix_rfl⟩

theorem Genuine.mono (h : Genuine b p) (hgrows : Grows b b') : Genuine b' p := by
  obtain ⟨l, hl⟩ := hgrows.issued
  have hlt : p.token < b.issued.length := (List.getElem?_eq_some_iff.mp h).1
  rw [Genuine, ← hl, List.getElem?_append_left hlt]
  exact h

/-- A session and an epoch have one secret. -/
theorem Genuine.eq (hledger : Ledger b) (hp : Genuine b p) (hq : Genuine b q) (hid : p.session_id = q.session_id)
    (hepoch : p.epoch = q.epoch) : p.token = q.token := by
  have hlt : p.token < b.issued.length := (List.getElem?_eq_some_iff.mp hp).1
  refine (List.getElem?_inj hlt hledger.nodup).mp ?_
  rw [hp, hq, hid, hepoch]

theorem grows_rotate (hs : s ∈ b.sessions) : Grows b (b.rotate s e).2 := by
  refine ⟨fun h => ?_, List.prefix_append _ _⟩
  have hlength : (b.rotate s e).2.issued.length = b.issued.length + 1 := by
    rw [Bus.rotate, List.length_append, List.length_singleton]
  obtain ⟨hid, hepoch⟩ := h.sessions s hs
  refine ⟨?_, fun x hx => ?_, fun r hr => ?_⟩
  · refine List.nodup_append.mpr ⟨h.nodup, List.nodup_singleton _, fun x hx y hy heq => ?_⟩
    rw [List.mem_singleton.mp hy] at heq
    have hle := hepoch x hx (congrArg Prod.fst heq)
    rw [heq] at hle
    exact absurd hle (Nat.not_succ_le_self _)
  · rw [hlength]
    rcases List.mem_append.mp hx with hx | hx
    · exact (h.ids x hx).trans (Nat.lt_succ_self _)
    · rw [List.mem_singleton.mp hx]
      exact hid.trans (Nat.lt_succ_self _)
  · rw [hlength]
    obtain ⟨r', hr', rfl⟩ := mem_update.mp hr
    obtain ⟨hrid, hrepoch⟩ := h.sessions r' hr'
    by_cases hsame : (r'.id == s.id) = true
    · rw [if_pos hsame]
      refine ⟨hrid.trans (Nat.lt_succ_self _), fun x hx heq => ?_⟩
      rcases List.mem_append.mp hx with hx | hx
      · exact (hepoch x hx (heq.trans (beq_iff_eq.mp hsame))).trans (Nat.le_succ _)
      · rw [List.mem_singleton.mp hx]
    · rw [if_neg hsame]
      refine ⟨hrid.trans (Nat.lt_succ_self _), fun x hx heq => ?_⟩
      rcases List.mem_append.mp hx with hx | hx
      · exact hrepoch x hx heq
      · rw [List.mem_singleton.mp hx] at heq
        exact absurd (beq_iff_eq.mpr heq.symm) hsame

theorem genuine_rotate : Genuine (b.rotate s e).2 (b.rotate s e).1 := by
  rw [Genuine, Bus.rotate]
  exact List.getElem?_concat_length

/-- What a resume issues. -/
theorem resume_issues (h : b.resume prior e = some (p, b')) :
    Grows b b' ∧ Genuine b' p ∧ p.token = b.issued.length ∧ b.issued.length < b'.issued.length := by
  obtain ⟨-, htoken, hlt, -⟩ := Custody.resume_spec h
  obtain ⟨s, hs, heq⟩ := Option.map_eq_some_iff.mp h
  have hb : (b.rotate s e).2 = b' := congrArg Prod.snd heq
  have hp : (b.rotate s e).1 = p := congrArg Prod.fst heq
  subst hb hp
  exact ⟨grows_rotate (mem_of_one hs), genuine_rotate, htoken, hlt⟩

theorem register_issues {agent team label : String} (h : b.register agent team label e = some (p, b')) :
    Grows b b' ∧ Genuine b' p ∧ p.token = b.issued.length ∧ b.issued.length < b'.issued.length := by
  obtain ⟨-, htoken, hlt⟩ := Custody.register_spec h
  simp only [Bus.register] at h
  split at h
  · obtain ⟨rfl, rfl⟩ := Prod.mk.inj (Option.some.inj h)
    refine ⟨⟨fun hledger => ⟨?_, fun x hx => ?_, fun r hr => ?_⟩, List.prefix_append _ _⟩, List.getElem?_concat_length, rfl, hlt⟩
    · refine List.nodup_append.mpr ⟨hledger.nodup, List.nodup_singleton _, fun x hx y hy heq => ?_⟩
      rw [List.mem_singleton.mp hy] at heq
      exact absurd (hledger.ids x hx) (by rw [heq]; exact Nat.lt_irrefl _)
    · rcases List.mem_append.mp hx with hx | hx
      · exact (hledger.ids x hx).trans hlt
      · rw [List.mem_singleton.mp hx]
        exact hlt
    · rcases mem_insert_into.mp hr with hr | rfl
      · obtain ⟨hid, hepoch⟩ := hledger.sessions r hr
        refine ⟨hid.trans hlt, fun x hx heq => ?_⟩
        rcases List.mem_append.mp hx with hx | hx
        · exact hepoch x hx heq
        · rw [List.mem_singleton.mp hx] at heq
          have heq : b.issued.length = r.id := heq
          exact absurd hid (by rw [heq]; exact Nat.lt_irrefl _)
      · refine ⟨hlt, fun x hx heq => ?_⟩
        rcases List.mem_append.mp hx with hx | hx
        · exact absurd (hledger.ids x hx) (by rw [heq]; exact Nat.lt_irrefl _)
        · rw [List.mem_singleton.mp hx]
  · rename_i s hs
    split at h
    · cases h
    · have heq := Option.some.inj h
      have hb : (b.rotate s e).2 = b' := congrArg Prod.snd heq
      have hp : (b.rotate s e).1 = p := congrArg Prod.fst heq
      subst hb hp
      exact ⟨grows_rotate (mem_of_one hs), genuine_rotate, htoken, hlt⟩

/-- A session that is closed has what it had. -/
theorem grows_close {r : Session → Bool} :
    Grows b { b with sessions := update r (fun s => { s with live := false }) b.sessions } := by
  refine ⟨fun h => ⟨h.nodup, h.ids, ?_⟩, List.prefix_rfl⟩
  exact forall_update h.sessions fun _ _ _ h => h

theorem grows_elsewhere (x : Elsewhere) : Grows b (b.elsewhere x) := by
  cases x with
  | lapsed id => exact grows_close
  | resumed id =>
    simp only [Bus.elsewhere]
    split
    · rename_i s hs
      exact grows_rotate (mem_of_one hs)
    · exact .refl b

end Issued

/-! ## What a step of a call does to the window -/

/-- The credentials that a call has read. -/
def known : Task → Option SessionProof
  | .renewing p _ | .renewed p _ _ | .stamping p _ | .stamp _ p _ => some p
  | .closed _ mine => mine
  | .writing _ r _ => r.proof
  | _ => none

/-- The one that it was answered, if it was. -/
def fresh : Task → Option SessionProof
  | .resuming m _ | .registering m | .opening m | .checking m | .defaulting m | .taking m | .revoking m _
  | .committing m => m.proof
  | .reopening p _ | .adopt_resumed p _ _ => some p
  | _ => none

/-- It has taken the old connection, and has not put the new one in its place. -/
def parts : Task → Bool
  | .revoking _ _ | .committing _ => true
  | _ => false

/-- `rebind` has it in hand what it is to put back. -/
def returns : Caller → Bool
  | .rebind _ _ _ _ => true
  | _ => false

/-- It is the connection of a `rebind`. -/
def rebinds : Task → Bool
  | .connecting c _ | .reading c _ _ _ | .resolving c _ _ _ | .verifying c _ _ _ _ | .failed c _ => returns c
  | .resuming m _ | .registering m | .opening m | .checking m | .defaulting m | .taking m | .revoking m _
  | .committing m => returns m.caller
  | _ => false

/-- What a step of a call does to the window's credential and to its key. -/
inductive Change (w w' : Window) : Task → Task → Prop
  | same (task task' : Task) (hproof : w'.st.proof = w.st.proof)
      (hidentity : w'.st.identity.isSome = w.st.identity.isSome) (hgeneration : w'.st.generation = w.st.generation)
      (hkey : w'.st.key = w.st.key) (hparts : parts task = true → parts task' = true)
      (hrebinds : rebinds task = true → rebinds task' = true) (hstamping : ∀ q e, task' ≠ .stamping q e) :
      Change w w' task task'
  | staged (host_id : String) (source : Binding) (previous : Caller) (hproof : w'.st.proof = w.st.proof)
      (hidentity : w'.st.identity.isSome = w.st.identity.isSome) (hgeneration : w'.st.generation = w.st.generation) :
      Change w w' (.staging host_id source previous) (.connecting previous true)
  | restored (host_id : Option String) (binding : Binding) (session : String) (bound_by_request : Bool) (why : String)
      (hst : w'.st = w.st.restored (.rebind host_id binding session bound_by_request) why) :
      Change w w' (.failed (.rebind host_id binding session bound_by_request) why) (.returned (.error why))
  | took (m : Making) (task' : Task) (hidentity : w'.st.identity = none)
      (hgeneration : w'.st.generation = w.st.generation) (hkey : w'.st.key = w.st.key) (hparts : parts task' = true)
      (hrebinds : rebinds task' = returns m.caller) : Change w w' (.taking m) task'
  | renewed (p q : SessionProof) (e : ℕ) (hproof : w.st.proof = some q)
      (hproof' : w'.st.proof = some { q with expires_at := e }) (hid : q.session_id = p.session_id)
      (hepoch : q.epoch = p.epoch) (hidentity : w'.st.identity.isSome = w.st.identity.isSome)
      (hgeneration : w'.st.generation = w.st.generation) (hkey : w'.st.key = w.st.key) :
      Change w w' (.renewed p w.st.generation e) (.stamping p e)
  | connected (task : Task) (i : Identity) (next : Next) (hworks : task.works ≠ none)
      (hidentity : w'.st.identity = some i) (hproof : i.proof = fresh task)
      (hgeneration : w'.st.generation = w.st.generation + 1) (hkey : w'.st.key = w.st.key)
      (hswitch : w'.switch = w.switch) : Change w w' task (.snapshot next)

section Change

variable {session_for binding_path : String → String} {net net' : World} {w w' : Window} {t : ℕ} {task : Task}
  {o : Outcome} {st : State} {task' : Task}

theorem identity_of_connected {c : Connected} (h : st.connected = some c) : st.identity = some c.identity := by
  rw [State.identity, h]

theorem proof_of_identity {i : Identity} (h : st.identity = some i) : st.proof = i.proof := by
  rw [State.proof, h]
  rfl

theorem next_stamping (next : Next) (q : SessionProof) (e : ℕ) : next.task ≠ .stamping q e := by
  cases next with
  | _ => exact fun h => nomatch h

theorem idle_task (h : Idle task) : parts task = false ∧ rebinds task = false := by
  cases h with
  | _ => exact ⟨rfl, rfl⟩

theorem ran_change (hinv : Custody.Inv ⟨net, w⟩) (hran : Ran session_for binding_path net w t task o net' w') :
    ∃ task', w'.tasks = w.tasks.set t task' ∧ Change w w' task task' := by
  cases hran with
  | staging host_id source previous => exact ⟨_, rfl, .staged _ _ _ rfl rfl rfl⟩
  | failed c why =>
    cases c with
    | rebind => exact ⟨_, rfl, .restored _ _ _ _ _ rfl⟩
    | initial | configure | adopt => exact ⟨_, rfl, .same _ _ rfl rfl rfl rfl id id fun _ _ h => nomatch h⟩
  | taking m old hold =>
    refine ⟨_, rfl, .took m _ ?_ rfl rfl ?_ ?_⟩
    · have hstranded := hinv.alone.resolve_left fun hnone => Option.some_ne_none old (hold.symm.trans hnone)
      have hstranded : w.st.stranded = none := hstranded
      simp only [Window.sets, State.identity, hstranded]
    · split
      · rfl
      · rfl
    · split
      · rfl
      · rfl
  | committing m => exact ⟨_, rfl, .connected _ m.connected.identity _ (Option.some_ne_none _) rfl rfl rfl rfl rfl⟩
  | adopted p session c hc => exact ⟨_, rfl, .connected _ _ _ (Option.some_ne_none _) rfl rfl rfl rfl rfl⟩
  | stranded p session why said c hc =>
    exact ⟨_, rfl, .connected _ { c.identity with proof := some p } _ (Option.some_ne_none _) rfl rfl rfl rfl rfl⟩
  | extended p expires_at c q hc hq hid hepoch =>
    refine ⟨_, rfl, .renewed p q expires_at ?_ rfl hid hepoch ?_ rfl rfl⟩
    · exact (proof_of_identity (identity_of_connected hc)).trans hq
    · rw [identity_of_connected hc]
      rfl
  | relabelled dir r hsame =>
    obtain ⟨c, hc, -⟩ := (Option.any_eq_true ..).mp hsame
    have hc' : (w.st.relabelled dir r).connected = some { c with resolved := { c.resolved with project_root := r.project_root } } := by
      rw [State.relabelled, hc]
      rfl
    have hst : (w.sets t (w.st.relabelled dir r) (.snapshot (.reply .ok))).st = w.st.relabelled dir r := rfl
    refine ⟨_, rfl, .same _ _ ?_ ?_ rfl rfl id id fun _ _ h => nomatch h⟩
    · rw [hst, proof_of_identity (identity_of_connected hc), proof_of_identity (identity_of_connected hc')]
      rfl
    · rw [hst, identity_of_connected hc, identity_of_connected hc']
      rfl
  | writing path r next | unwritten path r next =>
    exact ⟨_, rfl, .same _ _ rfl rfl rfl rfl (fun h => nomatch h) (fun h => nomatch h) (next_stamping next)⟩
  | idle task o hidle =>
    obtain ⟨hparts, hrebinds⟩ := idle_task hidle
    exact ⟨_, rfl, .same _ _ rfl rfl rfl rfl (fun h => Bool.noConfusion (hparts.symm.trans h))
      (fun h => Bool.noConfusion (hrebinds.symm.trans h)) fun _ _ h => nomatch h⟩
  | _ =>
    exact ⟨_, rfl, .same _ _ rfl rfl rfl rfl (by first | exact id | exact fun h => nomatch h) id
      fun _ _ h => nomatch h⟩

/-- What a call has in hand next. -/
structure Hands (binding_path : String → String) (net net' : World) (w : Window) (task task' : Task) : Prop where
  bus : Grows net.bus net'.bus
  known : ∀ p, known task' = some p → known task = some p ∨ w.st.proof = some p
  fresh : ∀ p, fresh task' = some p → fresh task = some p ∨
    Genuine net'.bus p ∧ p.token = net.bus.issued.length ∧ net.bus.issued.length < net'.bus.issued.length
  renews : task'.renews = true → task.renews = true
  stamp : ∀ path q e, task' = .stamp path q e → task = .stamping q e ∧ path = binding_path w.st.key
  staging : ∀ host_id source c, task' = .staging host_id source c → returns c = true

/-- It has nothing in hand. -/
def plain : Task → Bool
  | .renewing _ _ | .renewed _ _ _ | .stamping _ _ | .stamp _ _ _ | .closed _ _ | .writing _ _ _ => false
  | .resuming _ _ | .registering _ | .opening _ | .checking _ | .defaulting _ | .taking _ => false
  | .revoking _ _ | .committing _ | .reopening _ _ | .adopt_resumed _ _ _ | .staging _ _ _ => false
  | _ => true

theorem Hands.plain (hbus : Grows net.bus net'.bus) (h : Bindings.plain task' = true) :
    Hands binding_path net net' w task task' := by
  cases task' with
  | renewing | renewed | stamping | stamp | closed | writing | resuming | registering | opening | checking | defaulting
  | taking | revoking | committing | reopening | adopt_resumed | staging => exact Bool.noConfusion h
  | _ =>
    exact ⟨hbus, (fun _ hp => nomatch hp), (fun _ hp => nomatch hp), (fun h => nomatch h),
      (fun _ _ _ h => nomatch h), fun _ _ _ h => nomatch h⟩

/-- It has a credential that it was answered, and goes on with it. -/
theorem Hands.carried (hbus : Grows net.bus net'.bus)
    (hfresh : ∀ p, Bindings.fresh task' = some p → Bindings.fresh task = some p ∨
      Genuine net'.bus p ∧ p.token = net.bus.issued.length ∧ net.bus.issued.length < net'.bus.issued.length)
    (hknown : Bindings.known task' = none) (hrenews : task'.renews = false) (hworks : task'.works ≠ none) :
    Hands binding_path net net' w task task' := by
  refine ⟨hbus, (fun p hp => nomatch hknown.symm.trans hp), hfresh,
    fun h => Bool.noConfusion (hrenews.symm.trans h), ?_, ?_⟩
  · rintro path q e rfl
    cases hknown
  · rintro host_id source c rfl
    exact absurd rfl hworks

theorem ran_hands (hran : Ran session_for binding_path net w t task o net' w') :
    ∃ task', w'.tasks = w.tasks.set t task' ∧ Hands binding_path net net' w task task' := by
  have hrefl : Grows net.bus net.bus := .refl _
  have hissued : ∀ {q p : SessionProof}, Genuine net'.bus q → q.token = net.bus.issued.length →
      net.bus.issued.length < net'.bus.issued.length → some q = some p → Genuine net'.bus p ∧
        p.token = net.bus.issued.length ∧ net.bus.issued.length < net'.bus.issued.length := by
    rintro q p hgenuine htoken hlt heq
    rw [← Option.some.inj heq]
    exact ⟨hgenuine, htoken, hlt⟩
  have hsome : ∀ {x : String × Option String}, some x ≠ none := fun {x} => Option.some_ne_none x
  cases hran with
  | resumed m prior expires_at p bus hbus | rotated prior session expires_at p bus hbus =>
    obtain ⟨hgrows, hgenuine, htoken, hlt⟩ := resume_issues hbus
    exact ⟨_, rfl, .carried hgrows (fun _ heq => .inr (hissued hgenuine htoken hlt heq)) rfl rfl hsome⟩
  | registered m expires_at p bus hbus =>
    obtain ⟨hgrows, hgenuine, htoken, hlt⟩ := register_issues hbus
    exact ⟨_, rfl, .carried hgrows (fun _ heq => .inr (hissued hgenuine htoken hlt heq)) rfl rfl hsome⟩
  | resumed_lost m prior expires_at why p bus hbus => exact ⟨_, rfl, .plain (resume_issues hbus).1 rfl⟩
  | registered_lost m expires_at why p bus hbus => exact ⟨_, rfl, .plain (register_issues hbus).1 rfl⟩
  | rotated_lost prior session expires_at why p bus hbus => exact ⟨_, rfl, .plain (resume_issues hbus).1 rfl⟩
  | verified_stored c session key prior r agent team =>
    exact ⟨_, rfl, .carried hrefl (fun _ hp => nomatch hp) rfl rfl hsome⟩
  | verified_new c session key r agent team => exact ⟨_, rfl, .carried hrefl (fun _ hp => nomatch hp) rfl rfl hsome⟩
  | rejected m prior hdead | legacy m | opened m | checked m hteam | defaulting m => exact ⟨_, rfl, .carried hrefl (fun _ hp => .inl hp) rfl rfl hsome⟩
  | taking m old hold =>
    cases hproof : old.proof with
    | none | some q => exact ⟨_, rfl, .carried hrefl (fun _ hp => .inl hp) rfl rfl hsome⟩
  | taking_none m hnone | unrevoked m old why | reopening p session o failed => exact ⟨_, rfl, .carried hrefl (fun _ hp => .inl hp) rfl rfl hsome⟩
  | revoked m old =>
    refine ⟨_, rfl, .carried ?_ (fun _ hp => .inl hp) rfl rfl hsome⟩
    cases old.proof with
    | none => exact .refl _
    | some q => exact grows_close
  | snapshot next =>
    exact ⟨_, rfl, hrefl, fun p hp => .inr hp, (fun _ hp => nomatch hp), (fun h => nomatch h),
      (fun _ _ _ h => nomatch h), fun _ _ _ h => nomatch h⟩
  | writing path r next | unwritten path r next => exact ⟨_, rfl, .plain hrefl (by cases next with | _ => rfl)⟩
  | closing i hi =>
    refine ⟨_, rfl, hrefl, fun p hp => .inr ?_, (fun _ hp => nomatch hp), (fun h => nomatch h),
      (fun _ _ _ h => nomatch h), fun _ _ _ h => nomatch h⟩
    exact (proof_of_identity hi).trans hp
  | rebinding host_id source =>
    refine ⟨_, rfl, hrefl, (fun _ hp => nomatch hp), (fun _ hp => nomatch hp), (fun h => nomatch h),
      (fun _ _ _ h => nomatch h), fun _ _ c h => ?_⟩
    rw [← (Task.staging.inj h).2.2]
    rfl
  | renewing p generation expires_at | extended p expires_at c q hc hq hid hepoch =>
    exact ⟨_, rfl, hrefl, fun p hp => .inl hp, (fun _ hp => nomatch hp), fun h => h,
      (fun _ _ _ h => nomatch h), fun _ _ _ h => nomatch h⟩
  | stamping p expires_at =>
    refine ⟨_, rfl, hrefl, fun p hp => .inl hp, (fun _ hp => nomatch hp), fun h => h,
      fun _ _ _ h => ?_, fun _ _ _ h => nomatch h⟩
    obtain ⟨rfl, rfl, rfl⟩ := Task.stamp.inj h
    exact ⟨rfl, rfl⟩
  | _ => exact ⟨_, rfl, .plain hrefl rfl⟩

/-- What it does to the disk. -/
inductive Filing (net net' : World) : Task → Outcome → Prop
  | kept (task : Task) (o : Outcome) (hfiles : net'.files = net.files) (hstamp : ∀ path p e, task ≠ .stamp path p e)
      (hwriting : ∀ path r next, task ≠ .writing path r next) : Filing net net' task o
  | wrote (path : String) (r : Record) (next : Next) (hnet : net' = net.write path r) :
      Filing net net' (.writing path r next) .done
  | unwritten (path : String) (r : Record) (next : Next) (why : String) (hfiles : net'.files = net.files) :
      Filing net net' (.writing path r next) (.refused why)
  | stamped (path : String) (p : SessionProof) (e : ℕ) (r : Record) (hr : net.files path = some r)
      (his : r.is_of p = true) (hnet : net' = net.write path (r.stamped e)) : Filing net net' (.stamp path p e) .done
  | unstamped (path : String) (p : SessionProof) (e : ℕ) (o : Outcome) (hfiles : net'.files = net.files)
      (hnot : o = .done → ∀ r, net.files path = some r → r.is_of p = false) : Filing net net' (.stamp path p e) o
  | closed (path : String) (mine : Option SessionProof) (r : Record) (hr : net.files path = some r)
      (his : ∀ p, mine = some p → r.is_of p = true) (hnet : net' = net.write path { r with closed := true }) :
      Filing net net' (.closed path mine) .done

theorem ran_filing (hran : Ran session_for binding_path net w t task o net' w') : Filing net net' task o := by
  cases hran with
  | writing path r next => exact .wrote path r next rfl
  | unwritten path r next why => exact .unwritten path r next why rfl
  | stamped path p e r hr his => exact .stamped path p e r hr his rfl
  | unstamped path p e o hnot => exact .unstamped path p e o rfl hnot
  | closed path mine r hr his => exact .closed path mine r hr his rfl
  | idle task o hidle =>
    cases hidle with
    | _ => exact .kept _ _ rfl (fun _ _ _ h => nomatch h) fun _ _ _ h => nomatch h
  | _ => exact .kept _ _ rfl (fun _ _ _ h => nomatch h) fun _ _ _ h => nomatch h

end Change

/-! ## One window of a host -/

/-- The credential was issued as it stands, and the window has connected with it. -/
structure Known (b : Bus) (l : List Connection) (j : ℕ) (p : SessionProof) : Prop where
  genuine : Genuine b p
  made : ∃ path, (⟨j, path, some p.token⟩ : Connection) ∈ l

/-- What holds of a window, its bus and its connections. -/
structure Sane (binding_path : String → String) (net : World) (l : List Connection) (j : ℕ) (w : Window) : Prop where
  custody : Custody.Inv ⟨net, w⟩
  read : ∀ (t : ℕ) task p, w.tasks[t]? = some task → known task = some p → Known net.bus l j p
  /-- A credential that is new has made no connection. -/
  answered : ∀ (t : ℕ) task p, w.tasks[t]? = some task → fresh task = some p →
    Genuine net.bus p ∧ ∀ x ∈ l, x.token ≠ some p.token
  state : ∀ p, w.st.proof = some p → Known net.bus l j p
  /-- The window is what it connected as last, but for while it puts another connection in its place. -/
  last : ∀ x, latest (fun c => c.who == j) l = some x →
    (∃ i, w.st.identity = some i ∧ x.token = i.proof.map SessionProof.token) ∨
      ∃ (t : ℕ) (task : Task), w.tasks[t]? = some task ∧ parts task = true
  /-- It is of the conversation it connected for last, but for while `rebind` connects. -/
  place : ∀ x, latest (fun c => c.who == j) l = some x → x.path = binding_path w.st.key ∨
    ∃ (t : ℕ) (task : Task), w.tasks[t]? = some task ∧ rebinds task = true
  /-- The renewal that is to reach the record is the last. -/
  stamps : ∀ (t : ℕ) task q e, w.tasks[t]? = some task → Stamps q e task →
    ∀ p, w.st.proof = some p → p.token = q.token → p.expires_at = e
  paths : ∀ (t : ℕ) path q e, w.tasks[t]? = some (.stamp path q e) → ∀ x ∈ l, x.token = some q.token → x.path = path
  sole : ∀ (t t' : ℕ) task task', w.tasks[t]? = some task → w.tasks[t']? = some task' → task.renews = true →
    task'.renews = true → t = t'
  staged : ∀ (t : ℕ) host_id source c, w.tasks[t]? = some (.staging host_id source c) → returns c = true

section Sane

variable {session_for binding_path : String → String} {net net' : World} {w w' : Window} {l l' : List Connection}
  {i j t : ℕ} {task : Task} {o : Outcome} {a : Act} {p : SessionProof} {task' : Task}

theorem Known.mono {b b' : Bus} (h : Known b l j p) (hgrows : Grows b b') (hl : ∀ x ∈ l, x ∈ l') :
    Known b' l' j p :=
  ⟨h.genuine.mono hgrows, h.made.imp fun _ => hl _⟩

theorem fresh_works (h : fresh task = some p) : task.works ≠ none := by
  cases task with
  | resuming | registering | opening | checking | defaulting | taking | revoking | committing | reopening
  | adopt_resumed => exact Option.some_ne_none _
  | _ => exact nomatch h

theorem stamps_known {q : SessionProof} {e : ℕ} (h : Stamps q e task) : known task = some q ∧ task.renews = true := by
  rcases h with rfl | ⟨path, rfl⟩
  · exact ⟨rfl, rfl⟩
  · exact ⟨rfl, rfl⟩

/-- Two calls that have `switch` are one. -/
theorem Sane.one (h : Sane binding_path net l j w) {t' : ℕ} (htask : w.tasks[t]? = some task)
    (htask' : w.tasks[t']? = some task') (hworks : task.works ≠ none) (hworks' : task'.works ≠ none) : t = t' :=
  Option.some.inj ((h.custody.locked t task htask hworks).symm.trans (h.custody.locked t' task' htask' hworks'))

/-- What others do leaves a window sane. -/
theorem Sane.others (h : Sane binding_path net l j w) (hgoes : Custody.Goes net.bus net'.bus)
    (hgrows : Grows net.bus net'.bus) (hl : ∀ x ∈ l, x ∈ l')
    (hlatest : latest (fun c => c.who == j) l' = latest (fun c => c.who == j) l)
    (hnew : ∀ x ∈ l', x ∈ l ∨ ∀ n, x.token = some n → (∀ path, (⟨j, path, some n⟩ : Connection) ∉ l) ∧
      ∀ (t : ℕ) task p, w.tasks[t]? = some task → fresh task = some p → p.token ≠ n) :
    Sane binding_path net' l' j w where
  custody := h.custody.around hgoes
  read := fun t task p htask hp => (h.read t task p htask hp).mono hgrows hl
  answered := fun t task p htask hp => by
    obtain ⟨hgenuine, hnot⟩ := h.answered t task p htask hp
    refine ⟨hgenuine.mono hgrows, fun x hx heq => ?_⟩
    rcases hnew x hx with hx | hother
    · exact hnot x hx heq
    · exact (hother p.token heq).2 t task p htask hp rfl
  state := fun p hp => (h.state p hp).mono hgrows hl
  last := fun x hx => h.last x (hlatest ▸ hx)
  place := fun x hx => h.place x (hlatest ▸ hx)
  stamps := h.stamps
  paths := fun t path q e htask x hx heq => by
    rcases hnew x hx with hx | hother
    · exact h.paths t path q e htask x hx heq
    · obtain ⟨path', hmade⟩ := (h.read t _ q htask rfl).made
      exact absurd hmade ((hother q.token heq).1 path')
  sole := h.sole
  staged := h.staged

theorem connected_same (h : w'.st.generation = w.st.generation) : connected binding_path j w w' = [] := if_pos h

theorem connected_new (h : w'.st.generation = w.st.generation + 1) :
    connected binding_path j w w' = [⟨j, binding_path w'.st.key, w'.st.proof.map SessionProof.token⟩] :=
  if_neg (by omega)

/-- A window connects with the credential that it was answered, and is to write its record. -/
theorem connected_cases {x : Connection} (hchange : Change w w' task task') (hx : x ∈ connected binding_path j w w') :
    connected binding_path j w w' = [x] ∧ task.works ≠ none ∧ (∃ next, task' = .snapshot next) ∧
      w'.switch = w.switch ∧ x = ⟨j, binding_path w'.st.key, (fresh task).map SessionProof.token⟩ := by
  cases hchange with
  | connected _ identity next hworks hidentity hproof hgeneration hkey hswitch =>
    rw [connected_new hgeneration, proof_of_identity hidentity, hproof] at hx ⊢
    rw [List.mem_singleton.mp hx]
    exact ⟨rfl, hworks, ⟨next, rfl⟩, hswitch, rfl⟩
  | same _ _ _ _ hgeneration | staged _ _ _ _ _ hgeneration | took _ _ _ hgeneration
  | renewed _ _ _ _ _ _ _ _ hgeneration =>
    rw [connected_same hgeneration] at hx
    cases hx
  | restored host_id binding session bound why hst =>
    rw [connected_same (by rw [hst]; rfl)] at hx
    cases hx

/-- The step of call `t` of a window, which was at `task` and is at `task'` after it. -/
structure Turn (binding_path : String → String) (net net' : World) (w w' : Window) (t : ℕ) (task task' : Task) : Prop where
  was : w.tasks[t]? = some task
  tasks : w'.tasks = w.tasks.set t task'
  hands : Hands binding_path net net' w task task'
  change : Change w w' task task'

section Turn

variable {task' : Task} {x : Task} {p q : SessionProof} {e : ℕ}

theorem ran_turn (hcustody : Custody.Inv ⟨net, w⟩) (htask : w.tasks[t]? = some task)
    (hran : Ran session_for binding_path net w t task o net' w') :
    ∃ task', Turn binding_path net net' w w' t task task' := by
  obtain ⟨task', htasks, hhands⟩ := ran_hands hran
  obtain ⟨task'', htasks', hchange⟩ := ran_change hcustody hran
  have hlt : t < w.tasks.length := (List.getElem?_eq_some_iff.mp htask).1
  have hsame : task'' = task' := by
    have heq : (w.tasks.set t task'')[t]? = (w.tasks.set t task')[t]? := by rw [← htasks, ← htasks']
    rw [List.getElem?_set_self hlt, List.getElem?_set_self hlt] at heq
    exact Option.some.inj heq
  rw [hsame] at hchange
  exact ⟨task', htask, htasks, hhands, hchange⟩

variable (ht : Turn binding_path net net' w w' t task task')
include ht

theorem Turn.own : w'.tasks[t]? = some task' := by
  rw [ht.tasks, List.getElem?_set_self (List.getElem?_eq_some_iff.mp ht.was).1]

theorem Turn.back (hx : w'.tasks[i]? = some x) :
    (i = t ∧ x = task') ∨ (i ≠ t ∧ w.tasks[i]? = some x) := by
  rw [ht.tasks] at hx
  exact (set_at hx).imp (And.imp_left Eq.symm) (And.imp_left Ne.symm)

/-- What a call was at is what some call is at, when the step keeps it. -/
theorem Turn.keeps {f : Task → Bool}
    (hf : f task = true → f task' = true) (h : ∃ (i : ℕ) (y : Task), w.tasks[i]? = some y ∧ f y = true) :
    ∃ (i : ℕ) (y : Task), w'.tasks[i]? = some y ∧ f y = true := by
  obtain ⟨i, y, hy, hfy⟩ := h
  rcases eq_or_ne i t with rfl | hne
  · rw [Option.some.inj (hy.symm.trans ht.was)] at hfy
    exact ⟨i, task', ht.own, hf hfy⟩
  · refine ⟨i, y, ?_, hfy⟩
    rw [ht.tasks, List.getElem?_set_ne hne.symm]
    exact hy

/-- A connection that the step makes is with the credential that was answered. -/
theorem Turn.made {x : Connection}
    (hx : x ∈ l ++ connected binding_path j w w') :
    x ∈ l ∨ task.works ≠ none ∧ fresh task' = none ∧ x.token = (fresh task).map SessionProof.token := by
  rcases List.mem_append.mp hx with hx | hx
  · exact .inl hx
  · obtain ⟨-, hworks, ⟨next, hnext⟩, -, rfl⟩ := connected_cases ht.change hx
    exact .inr ⟨hworks, by rw [hnext]; rfl, rfl⟩

theorem Turn.read (h : Sane binding_path net l j w)
    (hl : ∀ x ∈ l, x ∈ l') (hx : w'.tasks[i]? = some x) (hp : known x = some p) : Known net'.bus l' j p := by
  rcases ht.back hx with ⟨-, rfl⟩ | ⟨-, hx⟩
  · rcases ht.hands.known p hp with hp | hp
    · exact (h.read t task p ht.was hp).mono ht.hands.bus hl
    · exact (h.state p hp).mono ht.hands.bus hl
  · exact (h.read i x p hx hp).mono ht.hands.bus hl

theorem Turn.answered (h : Sane binding_path net l j w)
    (hbelow : ∀ x ∈ l, ∀ n, x.token = some n → n < net.bus.issued.length)
    (hx : w'.tasks[i]? = some x) (hp : fresh x = some p) :
    Genuine net'.bus p ∧ ∀ y ∈ l ++ connected binding_path j w w', y.token ≠ some p.token := by
  rcases ht.back hx with ⟨-, rfl⟩ | ⟨hne, hx⟩
  · rcases ht.hands.fresh p hp with hp' | ⟨hgenuine, htoken, -⟩
    · obtain ⟨hgenuine, hnot⟩ := h.answered t task p ht.was hp'
      refine ⟨hgenuine.mono ht.hands.bus, fun y hy => ?_⟩
      rcases ht.made hy with hy | ⟨-, hnone, -⟩
      · exact hnot y hy
      · exact nomatch hnone.symm.trans hp
    · refine ⟨hgenuine, fun y hy heq => ?_⟩
      rcases ht.made hy with hy | ⟨-, hnone, -⟩
      · exact absurd (hbelow y hy p.token heq) (by rw [htoken]; exact Nat.lt_irrefl _)
      · exact nomatch hnone.symm.trans hp
  · obtain ⟨hgenuine, hnot⟩ := h.answered i x p hx hp
    refine ⟨hgenuine.mono ht.hands.bus, fun y hy => ?_⟩
    rcases ht.made hy with hy | ⟨hworks, -, -⟩
    · exact hnot y hy
    · exact absurd (h.one hx ht.was (fresh_works hp) hworks) hne

theorem Turn.state (h : Sane binding_path net l j w)
    (hp : w'.st.proof = some p) :
    Known net'.bus (l ++ connected binding_path j w w') j p := by
  have hmem : ∀ x ∈ l, x ∈ l ++ connected binding_path j w w' := fun x hx => List.mem_append_left _ hx
  have hbus := ht.hands.bus
  cases ht.change with
  | same _ _ hproof | staged _ _ _ hproof => exact (h.state p (hproof ▸ hp)).mono hbus hmem
  | restored host_id binding session bound why hst =>
    rw [hst] at hp
    exact (h.state p hp).mono hbus hmem
  | took m _ hidentity =>
    rw [State.proof, hidentity] at hp
    cases hp
  | renewed p₀ q e hproof hproof' =>
    have hknown := (h.state q hproof).mono hbus hmem
    rw [hproof'] at hp
    rw [← Option.some.inj hp]
    exact ⟨hknown.genuine, hknown.made⟩
  | connected _ identity next hworks hidentity hproof hgeneration hkey =>
    have hfresh : fresh task = some p := by rw [← hproof, ← proof_of_identity hidentity, hp]
    refine ⟨(h.answered t task p ht.was hfresh).1.mono hbus, binding_path w'.st.key, ?_⟩
    rw [connected_new hgeneration, hp]
    exact List.mem_append_right _ (List.mem_singleton_self _)

theorem Turn.last (h : Sane binding_path net l j w)
    {x : Connection} (hx : latest (fun c => c.who == j) (l ++ connected binding_path j w w') = some x) :
    (∃ i, w'.st.identity = some i ∧ x.token = i.proof.map SessionProof.token) ∨
      ∃ (t : ℕ) (task : Task), w'.tasks[t]? = some task ∧ parts task = true := by
  have hstay : w'.st.proof.map SessionProof.token = w.st.proof.map SessionProof.token →
      w'.st.identity.isSome = w.st.identity.isSome → (parts task = true → parts task' = true) →
      latest (fun c => c.who == j) l = some x →
      (∃ i, w'.st.identity = some i ∧ x.token = i.proof.map SessionProof.token) ∨
        ∃ (t : ℕ) (task : Task), w'.tasks[t]? = some task ∧ parts task = true := by
    intro hproof hidentity hgoes hx
    rcases h.last x hx with ⟨identity, hi, htoken⟩ | hparts
    · obtain ⟨identity', hi'⟩ := Option.isSome_iff_exists.mp (hidentity.trans (by rw [hi]; rfl))
      refine .inl ⟨identity', hi', ?_⟩
      rw [htoken, ← proof_of_identity hi, ← proof_of_identity hi', hproof]
    · exact .inr (ht.keeps hgoes hparts)
  cases ht.change with
  | same _ _ hproof hidentity hgeneration hkey hgoes =>
    rw [connected_same hgeneration, List.append_nil] at hx
    exact hstay (by rw [hproof]) hidentity hgoes hx
  | staged _ _ _ hproof hidentity hgeneration =>
    rw [connected_same hgeneration, List.append_nil] at hx
    exact hstay (by rw [hproof]) hidentity (fun h => nomatch h) hx
  | restored host_id binding session bound why hst =>
    rw [connected_same (by rw [hst]; rfl), List.append_nil] at hx
    exact hstay (by rw [hst]; rfl) (by rw [hst]; rfl) (fun h => nomatch h) hx
  | took m _ hidentity hgeneration hkey hparts => exact .inr ⟨t, task', ht.own, hparts⟩
  | renewed p₀ q e hproof hproof' hid hepoch hidentity hgeneration =>
    rw [connected_same hgeneration, List.append_nil] at hx
    exact hstay (by rw [hproof, hproof']; rfl) hidentity (fun h => nomatch h) hx
  | connected _ identity next hworks hidentity hproof hgeneration hkey =>
    rw [connected_new hgeneration, latest_append, if_pos (beq_self_eq_true j)] at hx
    refine .inl ⟨identity, hidentity, ?_⟩
    rw [← Option.some.inj hx, proof_of_identity hidentity]

theorem Turn.place (h : Sane binding_path net l j w)
    (horderly : Orderly binding_path net l j w (.run t o)) {x : Connection}
    (hx : latest (fun c => c.who == j) (l ++ connected binding_path j w w') = some x) :
    x.path = binding_path w'.st.key ∨ ∃ (t : ℕ) (task : Task), w'.tasks[t]? = some task ∧ rebinds task = true := by
  simp only [Orderly, ht.was] at horderly
  have hown := ht.own
  have hstaged := h.staged t
  rw [ht.was] at hstaged
  have hstay : w'.st.key = w.st.key → (rebinds task = true → rebinds task' = true) →
      latest (fun c => c.who == j) l = some x →
      x.path = binding_path w'.st.key ∨ ∃ (t : ℕ) (task : Task), w'.tasks[t]? = some task ∧ rebinds task = true := by
    intro hkey hgoes hx
    rcases h.place x hx with hpath | hrebinds
    · exact .inl (by rw [hpath, hkey])
    · exact .inr (ht.keeps hgoes hrebinds)
  cases ht.change with
  | same _ _ hproof hidentity hgeneration hkey hgoes hrebinds =>
    rw [connected_same hgeneration, List.append_nil] at hx
    exact hstay hkey hrebinds hx
  | staged host_id source previous => exact .inr ⟨t, _, hown, hstaged host_id source previous rfl⟩
  | restored host_id binding session bound why hst =>
    rw [connected_same (by rw [hst]; rfl), List.append_nil] at hx
    rw [hst]
    exact .inl (horderly x hx)
  | took m _ hidentity hgeneration hkey hparts hrebinds =>
    rw [connected_same hgeneration, List.append_nil] at hx
    exact hstay hkey (fun hreturns => hrebinds.trans hreturns) hx
  | renewed p₀ q e hproof hproof' hid hepoch hidentity hgeneration hkey =>
    rw [connected_same hgeneration, List.append_nil] at hx
    exact hstay hkey (fun h => nomatch h) hx
  | connected _ identity next hworks hidentity hproof hgeneration hkey =>
    rw [connected_new hgeneration, latest_append, if_pos (beq_self_eq_true j)] at hx
    rw [← Option.some.inj hx]
    exact .inl rfl

theorem Turn.stamps (h : Sane binding_path net l j w)
    (hx : w'.tasks[i]? = some x) (hstamps : Stamps q e x)
    (hp : w'.st.proof = some p) (hq : p.token = q.token) : p.expires_at = e := by
  have hat := ht.back hx
  have hwas := ht.was
  have hstamp := ht.hands.stamp
  cases ht.change with
  | same _ _ hproof hidentity hgeneration hkey hgoes hrebinds hnot =>
    rw [hproof] at hp
    rcases hat with ⟨-, rfl⟩ | ⟨-, hx⟩
    · rcases hstamps with rfl | ⟨path, rfl⟩
      · exact absurd rfl (hnot q e)
      · exact h.stamps t task q e hwas (.inl (hstamp path q e rfl).1) p hp hq
    · exact h.stamps i x q e hx hstamps p hp hq
  | staged _ _ _ hproof =>
    rw [hproof] at hp
    rcases hat with ⟨-, rfl⟩ | ⟨-, hx⟩
    · exact nomatch (stamps_known hstamps).1
    · exact h.stamps i x q e hx hstamps p hp hq
  | restored host_id binding session bound why hst =>
    rw [hst] at hp
    rcases hat with ⟨-, rfl⟩ | ⟨-, hx⟩
    · exact nomatch (stamps_known hstamps).1
    · exact h.stamps i x q e hx hstamps p hp hq
  | took m _ hidentity =>
    rw [State.proof, hidentity] at hp
    cases hp
  | renewed p₀ q₀ e₀ hproof hproof' =>
    rcases hat with ⟨-, rfl⟩ | ⟨hne, hx⟩
    · rcases hstamps with heq | ⟨path, heq⟩
      · rw [hproof'] at hp
        rw [← Option.some.inj hp]
        exact (Task.stamping.inj heq).2
      · cases heq
    · exact absurd (h.sole i t x _ hx hwas (stamps_known hstamps).2 rfl) hne
  | connected _ identity next hworks hidentity hproof hgeneration hkey =>
    rcases hat with ⟨-, rfl⟩ | ⟨-, hx⟩
    · exact nomatch (stamps_known hstamps).1
    · -- the credential is new, and no renewal is of it
      have hfresh : fresh task = some p := by rw [← hproof, ← proof_of_identity hidentity, hp]
      obtain ⟨path, hmade⟩ := (h.read i x q hx (stamps_known hstamps).1).made
      exact absurd (congrArg some hq).symm ((h.answered t task p hwas hfresh).2 _ hmade)

theorem Turn.paths (h : Sane binding_path net l j w)
    (horderly : Orderly binding_path net l j w (.run t o)) {path : String} {y : Connection}
    (hx : w'.tasks[i]? = some (.stamp path q e)) (hy : y ∈ l ++ connected binding_path j w w')
    (heq : y.token = some q.token) : y.path = path := by
  simp only [Orderly, ht.was] at horderly
  have hmade : ∃ path, (⟨j, path, some q.token⟩ : Connection) ∈ l := by
    rcases ht.back hx with ⟨-, hown⟩ | ⟨-, hx⟩
    · have htask' := (ht.hands.stamp path q e hown.symm).1
      exact (h.read t task q ht.was (by rw [htask']; rfl)).made
    · exact (h.read i _ q hx rfl).made
  rcases ht.made hy with hy | ⟨-, -, htoken⟩
  · rcases ht.back hx with ⟨-, hown⟩ | ⟨-, hx⟩
    · obtain ⟨rfl, rfl⟩ := ht.hands.stamp path q e hown.symm
      exact horderly y hy heq
    · exact h.paths i path q e hx y hy heq
  · rw [heq] at htoken
    obtain ⟨p, hp, hq⟩ := Option.map_eq_some_iff.mp htoken.symm
    obtain ⟨path', hmade⟩ := hmade
    exact absurd (congrArg some hq).symm ((h.answered t task p ht.was hp).2 _ hmade)

theorem Turn.renews (hx : w'.tasks[i]? = some x)
    (hrenews : x.renews = true) : ∃ y, w.tasks[i]? = some y ∧ Task.renews y = true := by
  rcases ht.back hx with ⟨rfl, rfl⟩ | ⟨-, hx⟩
  · exact ⟨task, ht.was, ht.hands.renews hrenews⟩
  · exact ⟨x, hx, hrenews⟩

end Turn

/-- The step of a call leaves its window sane. -/
theorem Sane.ran (h : Sane binding_path net l j w) (hbelow : ∀ x ∈ l, ∀ n, x.token = some n → n < net.bus.issued.length)
    (htask : w.tasks[t]? = some task) (hran : Ran session_for binding_path net w t task o net' w')
    (hcustody : Custody.Inv ⟨net', w'⟩) (horderly : Orderly binding_path net l j w (.run t o)) :
    Sane binding_path net' (l ++ connected binding_path j w w') j w' := by
  obtain ⟨task', ht⟩ := ran_turn h.custody htask hran
  refine ⟨hcustody, ?_, ?_, ?_, ?_, ?_, ?_, ?_, ?_, ?_⟩
  · intro i x p hx hp
    exact ht.read h (fun y hy => List.mem_append_left _ hy) hx hp
  · intro i x p hx hp
    exact ht.answered h hbelow hx hp
  · intro p hp
    exact ht.state h hp
  · intro x hx
    exact ht.last h hx
  · intro x hx
    exact ht.place h horderly hx
  · intro i x q e hx hstamps p hp hq
    exact ht.stamps h hx hstamps hp hq
  · intro i path q e hx y hy heq
    exact ht.paths h horderly hx hy heq
  · intro i i' x x' hx hx' hrenews hrenews'
    obtain ⟨y, hy, hy'⟩ := ht.renews hx hrenews
    obtain ⟨z, hz, hz'⟩ := ht.renews hx' hrenews'
    exact h.sole i i' y z hy hz hy' hz'
  · intro i host_id source c hx
    rcases ht.back hx with ⟨-, heq⟩ | ⟨-, hx⟩
    · exact ht.hands.staging host_id source c heq.symm
    · exact h.staged i host_id source c hx

/-- A call that begins has read no credential but the connection's, to renew it, and nobody else does. -/
theorem call_renews {c : Call} (h : c.task w = some task) :
    (∀ p, known task = some p → w.st.proof = some p) ∧ fresh task = none ∧ parts task = false ∧
      (task.renews = true → ∀ x ∈ w.tasks, Task.renews x = false) ∧
      (∀ q e, ¬ Stamps q e task) ∧ ∀ host_id source c, task ≠ .staging host_id source c := by
  cases task_begun h with
  | renewing p hproof hnone =>
    obtain ⟨c, hc, hp⟩ := Option.bind_eq_some_iff.mp hproof
    refine ⟨fun q hq => ?_, rfl, rfl, fun _ x hx => Bool.eq_false_iff.mpr (List.any_eq_false.mp hnone x hx), ?_,
      fun _ _ _ h => nomatch h⟩
    · rw [proof_of_identity (identity_of_connected hc), ← Option.some.inj hq]
      exact hp
    · rintro q e (heq | ⟨path, heq⟩)
      · cases heq
      · cases heq
  | _ =>
    refine ⟨fun _ hp => (nomatch hp), rfl, rfl, fun h => (nomatch h), ?_, fun _ _ _ h => nomatch h⟩
    rintro q e (heq | ⟨path, heq⟩)
    · cases heq
    · cases heq

/-- The step lemma of a window. -/
theorem Sane.step (h : Sane binding_path net l j w)
    (hbelow : ∀ x ∈ l, ∀ n, x.token = some n → n < net.bus.issued.length)
    (hacted : Acted session_for binding_path net w a net' w') (horderly : Orderly binding_path net l j w a) :
    Sane binding_path net' (l ++ connected binding_path j w w') j w' := by
  have hcustody : Custody.Inv ⟨net', w'⟩ := (h.custody.step hacted).1
  cases hacted with
  | ran task _ _ htask hran => exact h.ran hbelow htask hran hcustody horderly
  | unauthorized reason =>
    rw [connected_same (by rfl), List.append_nil]
    exact ⟨hcustody, h.read, h.answered, h.state, h.last, h.place, h.stamps, h.paths, h.sole, h.staged⟩
  | called w' hw =>
    obtain ⟨task₀, htask₀, rfl⟩ := begin_task hw
    obtain ⟨hknown, hfresh, hparts, hrenews, hstamps, hstaging⟩ := call_renews htask₀
    rw [connected_same (by rfl), List.append_nil]
    have hkept : ∀ {i x}, w.tasks[i]? = some x → (w.tasks ++ [task₀])[i]? = some x := fun {i x} hx =>
      (List.getElem?_append_left (List.getElem?_eq_some_iff.mp hx).1).trans hx
    refine ⟨hcustody, ?_, ?_, h.state, ?_, ?_, ?_, ?_, ?_, ?_⟩
    · intro i x p hx hp
      rcases append_at hx with hx | ⟨-, rfl⟩
      · exact h.read i x p hx hp
      · exact h.state p (hknown p hp)
    · intro i x p hx hp
      rcases append_at hx with hx | ⟨-, rfl⟩
      · exact h.answered i x p hx hp
      · exact nomatch hfresh.symm.trans hp
    · exact fun x hx => (h.last x hx).imp_right fun ⟨i, y, hy, hparts⟩ => ⟨i, y, hkept hy, hparts⟩
    · exact fun x hx => (h.place x hx).imp_right fun ⟨i, y, hy, hrebinds⟩ => ⟨i, y, hkept hy, hrebinds⟩
    · intro i x q e hx hx'
      rcases append_at hx with hx | ⟨-, rfl⟩
      · exact h.stamps i x q e hx hx'
      · exact absurd hx' (hstamps q e)
    · intro i path q e hx
      rcases append_at hx with hx | ⟨-, rfl⟩
      · exact h.paths i path q e hx
      · exact absurd (.inr ⟨path, rfl⟩) (hstamps q e)
    · intro i i' x x' hx hx' hr hr'
      rcases append_at hx with hold | ⟨rfl, rfl⟩
      · rcases append_at hx' with hold' | ⟨rfl, rfl⟩
        · exact h.sole i i' x x' hold hold' hr hr'
        · exact Bool.noConfusion ((hrenews hr' x (List.mem_of_getElem? hold)).symm.trans hr)
      · rcases append_at hx' with hold' | ⟨rfl, rfl⟩
        · exact Bool.noConfusion ((hrenews hr x' (List.mem_of_getElem? hold')).symm.trans hr')
        · rfl
    · intro i host_id source c hx
      rcases append_at hx with hx | ⟨-, heq⟩
      · exact h.staged i host_id source c hx
      · exact absurd heq.symm (hstaging host_id source c)

end Sane

/-! ## The host -/

/-- The window that has connected has not written its record yet, and has `switch`. -/
def Pend (binding_path : String → String) (l : List Connection) (w : Window) (x : Connection) : Prop :=
  ∃ t, w.switch = some t ∧
    ((∃ next, w.tasks[t]? = some (.snapshot next) ∧ latest (fun c => c.who == x.who) l = some x ∧
      binding_path w.st.key = x.path) ∨
      ∃ r next, w.tasks[t]? = some (.writing x.path r next) ∧ r.proof.map SessionProof.token = x.token)

/-- It has, and the record has the expiry of the state, or is about to. -/
def Done (net : World) (w : Window) (x : Connection) : Prop :=
  ∃ r, net.files x.path = some r ∧ r.proof.map SessionProof.token = x.token ∧
    ∀ p, w.st.proof = some p → x.token = some p.token → r.proof = some p ∨ Stamping w p.token

/-- What holds of the windows and of the disk. -/
structure Inv (binding_path : String → String) (s : Host) : Prop where
  sound : Custody.Sound s.net.bus
  ledger : Ledger s.net.bus
  windows : ∀ (j : ℕ) w, s.windows[j]? = some w → Sane binding_path s.net s.connections j w
  who : ∀ x ∈ s.connections, x.who < s.windows.length
  below : ∀ x ∈ s.connections, ∀ n, x.token = some n → n < s.net.bus.issued.length
  owners : ∀ x ∈ s.connections, ∀ y ∈ s.connections, ∀ n, x.token = some n → y.token = some n → x.who = y.who
  /-- No two windows were answered one credential. -/
  apart : ∀ (j k : ℕ) w w' (t t' : ℕ) task task' p p', s.windows[j]? = some w → s.windows[k]? = some w' →
    w.tasks[t]? = some task → w'.tasks[t']? = some task' → fresh task = some p → fresh task' = some p' →
      p.token = p'.token → j = k
  files : ∀ path r p, s.net.files path = some r → r.proof = some p → Genuine s.net.bus p
  /-- The record of a conversation is of the window that connected for it last, or is going to be. -/
  filed : ∀ x, latest (fun c => c.path == x.path) s.connections = some x → ∀ w, s.windows[x.who]? = some w →
    Pend binding_path s.connections w x ∨ Done s.net w x

section Inv

variable {session_for binding_path : String → String} {s : Host} {net' : World} {w w' : Window} {i t : ℕ}
  {task : Task} {o : Outcome} {a : Act} {x : Connection} {b : Bus} {p q : SessionProof} {r : Record} {v : Window}
  {task' y : Task} {j t₀ : ℕ} {path : String} {s' : Host} {e : Host.Event}

theorem Genuine.congr (hp : Genuine b p) (hq : Genuine b q) (h : p.token = q.token) :
    p.session_id = q.session_id ∧ p.epoch = q.epoch := by
  rw [Genuine, h, hq] at hp
  obtain ⟨hid, hepoch⟩ := Prod.mk.inj (Option.some.inj hp)
  exact ⟨hid.symm, hepoch.symm⟩

/-- Whose record it is, is told by its session and its epoch. -/
theorem is_of_iff (hledger : Ledger b) (hr : r.proof = some q)
    (hq : Genuine b q) (hp : Genuine b p) : r.is_of p = true ↔ q.token = p.token := by
  rw [Record.is_of, hr, Option.any_some, Bool.and_eq_true, beq_iff_eq, beq_iff_eq]
  exact ⟨fun ⟨hid, hepoch⟩ => hq.eq hledger hp hid hepoch, fun h => hq.congr hp h⟩

/-- The record of the last connection stays so, whoever writes. -/
theorem refiled (htask : w.tasks[t]? = some task)
    (hfiling : Filing s.net net' task o) (horderly : Orderly binding_path s.net s.connections i w (.run t o))
    (hlatest : latest (fun c => c.path == x.path) s.connections = some x)
    (hr : s.net.files x.path = some r) (hproof : r.proof.map SessionProof.token = x.token) :
    ∃ r', net'.files x.path = some r' ∧ r'.proof.map SessionProof.token = x.token ∧
      ((r'.proof = r.proof ∧ ∀ p e, task = .stamp x.path p e → r.is_of p = false) ∨
        (∃ next, task = .writing x.path r' next ∧ o = .done) ∨
        ∃ p e, task = .stamp x.path p e ∧ r' = r.stamped e ∧ r.is_of p = true) := by
  simp only [Orderly, htask] at horderly
  cases hfiling with
  | kept _ _ hfiles hstamp => exact ⟨r, by rw [hfiles, hr], hproof, .inl ⟨rfl, fun p e heq => absurd heq (hstamp _ p e)⟩⟩
  | unwritten path r₀ next why hfiles => exact horderly.elim
  | unstamped path p e o hfiles hnot =>
    refine ⟨r, by rw [hfiles, hr], hproof, .inl ⟨rfl, fun q e' heq => ?_⟩⟩
    obtain ⟨rfl, rfl, rfl⟩ := Task.stamp.inj heq
    exact hnot horderly r hr
  | wrote path r' next hnet =>
    rw [hnet]
    by_cases hpath : x.path = path
    · refine ⟨r', by rw [hpath, World.write_self], ?_, .inr (.inl ⟨next, by rw [hpath], rfl⟩)⟩
      rw [hpath] at hr
      have hnot := horderly.1 r hr
      by_contra hne
      obtain ⟨l₁, l₂, hl, hnone⟩ := latest_split hlatest
      refine hnot ⟨by rw [hproof]; exact hne, l₁, x.who, l₂, ?_, fun hmem => ?_⟩
      · rw [hl, hproof, ← hpath]
      · have hother := hnone _ hmem
        rw [← hpath, beq_self_eq_true] at hother
        exact Bool.noConfusion hother
    · exact ⟨r, by rw [World.write_of_ne _ hpath, hr], hproof, .inl ⟨rfl, fun _ _ heq => nomatch heq⟩⟩
  | stamped path p e r₀ hr₀ his hnet =>
    rw [hnet]
    by_cases hpath : x.path = path
    · rw [← hpath, hr] at hr₀
      rw [← Option.some.inj hr₀] at his ⊢
      refine ⟨r.stamped e, by rw [hpath, World.write_self], ?_, .inr (.inr ⟨p, e, by rw [hpath], rfl, his⟩)⟩
      rw [← hproof, Record.stamped, Option.map_map]
      rfl
    · refine ⟨r, by rw [World.write_of_ne _ hpath, hr], hproof, .inl ⟨rfl, fun _ _ heq => ?_⟩⟩
      exact absurd (Task.stamp.inj heq).1.symm hpath
  | closed path mine r₀ hr₀ his hnet =>
    rw [hnet]
    by_cases hpath : x.path = path
    · rw [← hpath, hr] at hr₀
      rw [← Option.some.inj hr₀]
      exact ⟨{ r with closed := true }, by rw [hpath, World.write_self], hproof, .inl ⟨rfl, fun _ _ heq => nomatch heq⟩⟩
    · exact ⟨r, by rw [World.write_of_ne _ hpath, hr], hproof, .inl ⟨rfl, fun _ _ heq => nomatch heq⟩⟩

/-- A credential that a window has read is of its connections alone. -/
theorem Inv.mine (h : Inv binding_path s) (hw : s.windows[i]? = some w) (htask : w.tasks[t]? = some task)
    (hp : known task = some p) (hx : x ∈ s.connections) (htoken : x.token = some p.token) : x.who = i := by
  obtain ⟨path, hmade⟩ := ((h.windows i w hw).read t task p htask hp).made
  exact h.owners x hx ⟨i, path, some p.token⟩ hmade p.token htoken rfl

/-- Another window leaves the record of the last connection alone. -/
theorem Inv.done_other (h : Inv binding_path s) (hw : s.windows[i]? = some w) (htask : w.tasks[t]? = some task)
    (hfiling : Filing s.net net' task o) (horderly : Orderly binding_path s.net s.connections i w (.run t o))
    (hlatest : latest (fun c => c.path == x.path) s.connections = some x) (hne : x.who ≠ i)
    (hdone : Done s.net v x) : Done net' v x := by
  obtain ⟨r, hr, hproof, hexpiry⟩ := hdone
  obtain ⟨r', hr', hproof', hkind⟩ := refiled htask hfiling horderly hlatest hr hproof
  have hx := (mem_of_latest hlatest).1
  refine ⟨r', hr', hproof', fun p hp htoken => ?_⟩
  rcases hkind with ⟨hsame, -⟩ | ⟨next, rfl, -⟩ | ⟨q, e, rfl, -, his⟩
  · rw [hsame]
    exact hexpiry p hp htoken
  · rw [htoken] at hproof'
    obtain ⟨q, hq, hq'⟩ := Option.map_eq_some_iff.mp hproof'
    exact absurd (h.mine hw htask hq hx (by rw [htoken, hq'])) hne
  · rw [htoken] at hproof
    obtain ⟨q', hq, hq'⟩ := Option.map_eq_some_iff.mp hproof
    have hgenuine := ((h.windows i w hw).read t _ q htask rfl).genuine
    have hsame := (is_of_iff h.ledger hq (h.files _ r q' hr hq) hgenuine).mp his
    exact absurd (h.mine hw htask rfl hx (by rw [htoken, ← hq', hsame])) hne

/-- A renewal that is on its way stays so, but for the step in which it arrives. -/
theorem stamping_stays {n : ℕ} (htask : w.tasks[t]? = some task) (htasks : w'.tasks = w.tasks.set t task')
    (hown : ∀ q e, Stamps q e task → q.token = n → Stamps q e task') (h : Stamping w n) : Stamping w' n := by
  obtain ⟨i, y, q, e, hy, hstamps, hq⟩ := h
  rcases eq_or_ne i t with rfl | hne
  · have hlt : i < w.tasks.length := (List.getElem?_eq_some_iff.mp htask).1
    rw [Option.some.inj (hy.symm.trans htask)] at hstamps
    exact ⟨i, task', q, e, by rw [htasks, List.getElem?_set_self hlt], hown q e hstamps hq, hq⟩
  · exact ⟨i, y, q, e, by rw [htasks, List.getElem?_set_ne hne.symm, hy], hstamps, hq⟩

/-- So does the window that made it, whose record keeps up with its renewals. -/
theorem Inv.done_own (h : Inv binding_path s) (hw : s.windows[x.who]? = some w) (htask : w.tasks[t]? = some task)
    (hran : Ran session_for binding_path s.net w t task o net' w')
    (horderly : Orderly binding_path s.net s.connections x.who w (.run t o))
    (hlatest : latest (fun c => c.path == x.path) s.connections = some x) (hdone : Done s.net w x) : Done net' w' x := by
  have hsane := h.windows _ w hw
  have hx := (mem_of_latest hlatest).1
  obtain ⟨r, hr, hproof, hexpiry⟩ := hdone
  obtain ⟨r', hr', hproof', hkind⟩ := refiled htask (ran_filing hran) horderly hlatest hr hproof
  obtain ⟨task', htasks, hchange⟩ := ran_change hsane.custody hran
  have hlt : t < w.tasks.length := (List.getElem?_eq_some_iff.mp htask).1
  have hown : w'.tasks[t]? = some task' := by rw [htasks, List.getElem?_set_self hlt]
  refine ⟨r', hr', hproof', fun p hp htoken => ?_⟩
  have hquiet : w'.st.proof = w.st.proof → r'.proof = some p ∨ Stamping w' p.token := by
    intro hst
    rw [hst] at hp
    have hgenuine := (hsane.state p hp).genuine
    simp only [Orderly, htask] at horderly
    rcases hkind with ⟨hsame, hnot⟩ | ⟨next, rfl, rfl⟩ | ⟨q, e, rfl, rfl, his⟩
    · rcases hexpiry p hp htoken with hfiled | hstamping
      · exact .inl (hsame.trans hfiled)
      · refine .inr (stamping_stays htask htasks (fun q e hstamps hq => ?_) hstamping)
        rcases hstamps with rfl | ⟨path, rfl⟩
        · cases hran with
          | stamping =>
            rw [← Option.some.inj ((List.getElem?_set_self hlt).symm.trans hown)]
            exact .inr ⟨_, rfl⟩
          | idle _ _ hidle => exact nomatch hidle
        · -- it arrives: the record is its own
          have hpath := hsane.paths t path q e htask x hx (by rw [htoken, hq])
          subst hpath
          have hfiled : r.proof.map SessionProof.token = some q.token := by rw [hproof, htoken, hq]
          obtain ⟨q', hq', htoken'⟩ := Option.map_eq_some_iff.mp hfiled
          have his := (is_of_iff h.ledger hq' (h.files _ r q' hr hq') (hsane.read t _ q htask rfl).genuine).mpr htoken'
          exact Bool.noConfusion (his.symm.trans (hnot q e rfl))
    · rw [htoken] at hproof'
      obtain ⟨q, hq, hq'⟩ := Option.map_eq_some_iff.mp hproof'
      rcases horderly.2 q p hq hp hq' with hexpires | hstamping
      · obtain ⟨hid, hepoch⟩ := (hsane.read t _ q htask hq).genuine.congr hgenuine hq'
        refine .inl (hq.trans (congrArg some ?_))
        exact SessionProof.ext hq' hid hepoch hexpires
      · refine .inr (stamping_stays htask htasks (fun q e hstamps _ => ?_) hstamping)
        exact nomatch (stamps_known hstamps).2
    · rw [htoken] at hproof
      obtain ⟨q', hq, hq'⟩ := Option.map_eq_some_iff.mp hproof
      have hgenuine' := h.files _ r q' hr hq
      have hsame := (is_of_iff h.ledger hq hgenuine' (hsane.read t _ q htask rfl).genuine).mp his
      have hexpires := hsane.stamps t _ q e htask (.inr ⟨_, rfl⟩) p hp (hq'.symm.trans hsame)
      obtain ⟨hid, hepoch⟩ := hgenuine'.congr hgenuine hq'
      refine .inl ?_
      rw [Record.stamped, hq, Option.map_some]
      exact congrArg some (SessionProof.ext hq' hid hepoch hexpires.symm)
  cases hchange with
  | same _ _ hst | staged _ _ _ hst => exact hquiet hst
  | restored host_id binding session bound why hst => exact hquiet (by rw [hst]; rfl)
  | took m _ hidentity =>
    rw [State.proof, hidentity] at hp
    cases hp
  | renewed p₀ q e hst hst' hid hepoch =>
    rw [hst'] at hp
    refine .inr ⟨t, _, p₀, e, hown, .inl rfl, ?_⟩
    rw [← Option.some.inj hp]
    exact (hsane.read t _ p₀ htask rfl).genuine.eq h.ledger (hsane.state q hst).genuine hid.symm hepoch.symm
  | connected _ identity next hworks hidentity hst =>
    have hfresh : fresh task = some p := by rw [← hst, ← proof_of_identity hidentity, hp]
    exact absurd htoken ((hsane.answered t task p htask hfresh).2 x hx)

/-- A window that has yet to write its record does, before it does anything else with a connection. -/
theorem Inv.pend_own (h : Inv binding_path s) (hw : s.windows[x.who]? = some w) (htask : w.tasks[t]? = some task)
    (hran : Ran session_for binding_path s.net w t task o net' w')
    (horderly : Orderly binding_path s.net s.connections x.who w (.run t o))
    (hpend : Pend binding_path s.connections w x) :
    connected binding_path x.who w w' = [] ∧ (Pend binding_path s.connections w' x ∨ Done net' w' x) := by
  have hsane := h.windows _ w hw
  have hlt : t < w.tasks.length := (List.getElem?_eq_some_iff.mp htask).1
  obtain ⟨t₀, hswitch, hkind⟩ := hpend
  rcases eq_or_ne t t₀ with rfl | hne
  · -- it is its step
    simp only [Orderly, htask] at horderly
    rcases hkind with ⟨next, hnext, hlast, hkey⟩ | ⟨r, next, hnext, hproof⟩
    · rw [Option.some.inj (htask.symm.trans hnext)] at hran
      cases hran with
      | snapshot next =>
        refine ⟨connected_same rfl, .inl ⟨t, hswitch, .inr ⟨w.st.record, next, ?_, ?_⟩⟩⟩
        · rw [← hkey]
          exact List.getElem?_set_self hlt
        · rcases hsane.last x hlast with ⟨identity, hi, htoken⟩ | ⟨i, y, hy, hparts⟩
          · rw [htoken, ← proof_of_identity hi]
            rfl
          · have hworks : y.works ≠ none := by
              cases y with
              | revoking | committing => exact Option.some_ne_none _
              | _ => exact Bool.noConfusion hparts
            have hsame := hsane.custody.locked i y hy hworks
            rw [← Option.some.inj (hswitch.symm.trans hsame), hnext] at hy
            rw [← Option.some.inj hy] at hparts
            exact Bool.noConfusion hparts
      | idle _ _ hidle => cases hidle
    · obtain rfl := Option.some.inj (htask.symm.trans hnext)
      cases hran with
      | writing =>
        refine ⟨connected_same rfl, .inr ⟨r, World.write_self .., hproof, fun p hp htoken => ?_⟩⟩
        rw [htoken] at hproof
        obtain ⟨q, hq, hq'⟩ := Option.map_eq_some_iff.mp hproof
        rcases horderly.2 q p hq hp hq' with hexpires | hstamping
        · obtain ⟨hid, hepoch⟩ := (hsane.read t _ q htask hq).genuine.congr (hsane.state p hp).genuine hq'
          exact .inl (hq.trans (congrArg some (SessionProof.ext hq' hid hepoch hexpires)))
        · refine .inr (stamping_stays htask rfl (fun q e hstamps _ => ?_) hstamping)
          cases (stamps_known hstamps).2
      | unwritten => exact horderly.elim
      | idle _ _ hidle => cases hidle
  · obtain ⟨task', htasks, hchange⟩ := ran_change hsane.custody hran
    obtain ⟨task'', -, hkeeps⟩ := hran.goes
    have hidle : ¬ task.works ≠ none := fun hworks =>
      hne (Option.some.inj ((hsane.custody.locked t task htask hworks).symm.trans hswitch))
    have hswitch' : w'.switch = some t₀ := by
      cases hkeeps with
      | same hsame => exact hsame.trans hswitch
      | took hfree => cases hfree.symm.trans hswitch
      | left hleft => rw [hleft, Window.freed, hswitch, if_neg fun heq => hne (Option.some.inj heq).symm]
      | gave hworks => exact absurd hworks hidle
    have hkept : ∀ {y}, w.tasks[t₀]? = some y → w'.tasks[t₀]? = some y := fun {y} hy => by
      rw [htasks, List.getElem?_set_ne hne, hy]
    simp only [Orderly, htask] at horderly
    refine ⟨?_, .inl ⟨t₀, hswitch', ?_⟩⟩
    · cases hchange with
      | connected _ _ _ hworks => exact absurd hworks hidle
      | same _ _ _ _ hgeneration | staged _ _ _ _ _ hgeneration | took _ _ _ hgeneration
      | renewed _ _ _ _ _ _ _ _ hgeneration => exact connected_same hgeneration
      | restored host_id binding session bound why hst => exact connected_same (by rw [hst]; rfl)
    · rcases hkind with ⟨next, hnext, hlast, hkey⟩ | ⟨r, next, hnext, hproof⟩
      · refine .inl ⟨next, hkept hnext, hlast, ?_⟩
        cases hchange with
        | connected _ _ _ hworks => exact absurd hworks hidle
        | same _ _ _ _ _ hsame | took _ _ _ _ hsame | renewed _ _ _ _ _ _ _ _ _ hsame => rw [hsame, hkey]
        | staged => cases horderly.symm.trans hswitch
        | restored host_id binding session bound why hst =>
          rw [hst]
          exact (horderly x hlast).symm
      · exact .inr ⟨r, next, hkept hnext, hproof⟩

/-- A call that begins changes nothing of this. -/
theorem Inv.quiet (h : Inv binding_path s) (hw : s.windows[i]? = some w)
    (hsane : Sane binding_path s.net s.connections i w') (hproof : w'.st.proof = w.st.proof)
    (hkey : w'.st.key = w.st.key) (hswitch : w'.switch = w.switch)
    (hkept : ∀ (t : ℕ) x, w.tasks[t]? = some x → w'.tasks[t]? = some x)
    (hfresh : ∀ (t : ℕ) x p, w'.tasks[t]? = some x → fresh x = some p → w.tasks[t]? = some x) :
    Inv binding_path { s with windows := s.windows.set i w' } := by
  have hlt : i < s.windows.length := (List.getElem?_eq_some_iff.mp hw).1
  refine ⟨h.sound, h.ledger, fun j v hv => ?_, fun x hx => ?_, h.below, h.owners, ?_, h.files, fun x hlatest v hv => ?_⟩
  · rcases set_at hv with ⟨rfl, rfl⟩ | ⟨-, hv⟩
    · exact hsane
    · exact h.windows j v hv
  · exact (h.who x hx).trans_eq (List.length_set ..).symm
  · have hback : ∀ {j : ℕ} {v : Window} {t : ℕ} {x : Task} {p : SessionProof}, (s.windows.set i w')[j]? = some v →
        v.tasks[t]? = some x → fresh x = some p → ∃ u, s.windows[j]? = some u ∧ u.tasks[t]? = some x := by
      intro j v t x p hv hx hp
      rcases set_at hv with ⟨rfl, rfl⟩ | ⟨-, hv⟩
      · exact ⟨w, hw, hfresh t x p hx hp⟩
      · exact ⟨v, hv, hx⟩
    intro j k v v' t t' x x' p p' hv hv' hx hx' hp hp' heq
    obtain ⟨u, hu, hu'⟩ := hback hv hx hp
    obtain ⟨u₁, hu₁, hu₁'⟩ := hback hv' hx' hp'
    exact h.apart j k u u₁ t t' x x' p p' hu hu₁ hu' hu₁' hp hp' heq
  · rcases set_at hv with ⟨rfl, rfl⟩ | ⟨-, hv⟩
    · rcases h.filed x hlatest w hw with ⟨t, ht, hkind⟩ | ⟨r, hr, htoken, hexpiry⟩
      · refine .inl ⟨t, hswitch.trans ht, hkind.imp ?_ ?_⟩
        · rintro ⟨next, hnext, hlast, hpath⟩
          exact ⟨next, hkept t _ hnext, hlast, by rw [hkey, hpath]⟩
        · rintro ⟨r, next, hnext, htoken⟩
          exact ⟨r, next, hkept t _ hnext, htoken⟩
      · refine .inr ⟨r, hr, htoken, fun p hp hp' => (hexpiry p (hproof ▸ hp) hp').imp_right ?_⟩
        rintro ⟨t, y, q, e, hy, hstamps⟩
        exact ⟨t, y, q, e, hkept t y hy, hstamps⟩
    · exact h.filed x hlatest v hv

/-- A record of the last connection is, after a step of any window, that of the last connection. -/
theorem Inv.filed_ran (h : Inv binding_path s) (hw : s.windows[i]? = some w)
    (htask : w.tasks[t]? = some task) (hran : Ran session_for binding_path s.net w t task o net' w')
    (htasks : w'.tasks = w.tasks.set t task') (hchange : Change w w' task task')
    (horderly : Orderly binding_path s.net s.connections i w (.run t o))
    (hlatest : latest (fun c => c.path == x.path) (s.connections ++ connected binding_path i w w') = some x)
    (hv : (s.windows.set i w')[x.who]? = some v) :
    Pend binding_path (s.connections ++ connected binding_path i w w') v x ∨ Done net' v x := by
  by_cases hx : x ∈ connected binding_path i w w'
  · -- the window has just connected
    obtain ⟨hone, hworks, ⟨next, rfl⟩, hswitch, hmade⟩ := connected_cases hchange hx
    have hwho : x.who = i := by rw [hmade]
    have hpath : x.path = binding_path w'.st.key := by rw [hmade]
    have hlt : t < w.tasks.length := (List.getElem?_eq_some_iff.mp htask).1
    rw [hwho, List.getElem?_set_self (List.getElem?_eq_some_iff.mp hw).1] at hv
    rw [← Option.some.inj hv]
    refine .inl ⟨t, hswitch.trans ((h.windows i w hw).custody.locked t task htask hworks), .inl ⟨next, ?_, ?_, hpath.symm⟩⟩
    · rw [htasks, List.getElem?_set_self hlt]
    · rw [hone, latest_append, if_pos (beq_self_eq_true _)]
  · have hold : latest (fun c => c.path == x.path) s.connections = some x := by
      rw [← hlatest, eq_comm]
      refine latest_append_of_not fun y hy => Bool.eq_false_iff.mpr fun hpath => hx ?_
      obtain ⟨hone, -⟩ := connected_cases hchange hy
      rw [hone, latest_append, if_pos hpath] at hlatest
      rw [← Option.some.inj hlatest]
      exact hy
    by_cases hwho : x.who = i
    · rw [hwho, List.getElem?_set_self (List.getElem?_eq_some_iff.mp hw).1] at hv
      subst hwho
      rw [← Option.some.inj hv]
      rcases h.filed x hold w hw with hpend | hdone
      · obtain ⟨hnone, hnext⟩ := h.pend_own hw htask hran horderly hpend
        rw [hnone, List.append_nil]
        exact hnext
      · exact .inr (h.done_own hw htask hran horderly hold hdone)
    · rw [List.getElem?_set_ne (Ne.symm hwho)] at hv
      rcases h.filed x hold v hv with ⟨t₀, hswitch, hkind⟩ | hdone
      · refine .inl ⟨t₀, hswitch, hkind.imp_left ?_⟩
        rintro ⟨next, hnext, hlast, hpath⟩
        refine ⟨next, hnext, ?_, hpath⟩
        rw [latest_append_of_not fun y hy => ?_, hlast]
        obtain ⟨-, -, -, -, hmade⟩ := connected_cases hchange hy
        rw [hmade]
        exact Bool.eq_false_iff.mpr fun heq => hwho (beq_iff_eq.mp heq).symm
      · exact .inr (h.done_other hw htask (ran_filing hran) horderly hold hwho hdone)

/-- A credential that is new is below what the bus has issued. -/
theorem Inv.fresh_lt (h : Inv binding_path s)
    (hv : s.windows[j]? = some v) (hy : v.tasks[t₀]? = some y) (hp : fresh y = some p) :
    p.token < s.net.bus.issued.length :=
  (List.getElem?_eq_some_iff.mp ((h.windows _ _ hv).answered _ _ _ hy hp).1).1

/-- After the step of a call, a credential that is new was so before or is what the bus has just issued. -/
theorem Turn.fresh (ht : Turn binding_path s.net net' w w' t task task') (hw : s.windows[i]? = some w)
    (hv : (s.windows.set i w')[j]? = some v) (hy : v.tasks[t₀]? = some y) (hp : fresh y = some p) :
    (∃ (u : Window) (t₁ : ℕ) (z : Task), s.windows[j]? = some u ∧ u.tasks[t₁]? = some z ∧ Bindings.fresh z = some p) ∨
      j = i ∧ p.token = s.net.bus.issued.length := by
  rcases set_at hv with ⟨rfl, rfl⟩ | ⟨-, hv⟩
  · rcases ht.back hy with ⟨-, rfl⟩ | ⟨-, hy⟩
    · rcases ht.hands.fresh p hp with hp | ⟨-, htoken, -⟩
      · exact .inl ⟨w, t, task, hw, ht.was, hp⟩
      · exact .inr ⟨rfl, htoken⟩
    · exact .inl ⟨w, t₀, y, hw, hy, hp⟩
  · exact .inl ⟨v, t₀, y, hv, hy, hp⟩

/-- What is in a record after the step of a call was issued as it stands. -/
theorem Inv.files_ran (h : Inv binding_path s) (hw : s.windows[i]? = some w) (htask : w.tasks[t]? = some task)
    (hran : Ran session_for binding_path s.net w t task o net' w') (hbus : Grows s.net.bus net'.bus)
    (hr : net'.files path = some r) (hp : r.proof = some p) : Genuine net'.bus p := by
  have hold : net'.files = s.net.files → Genuine net'.bus p := fun hfiles =>
    (h.files path r p (by rw [← hfiles]; exact hr) hp).mono hbus
  have hwrite : ∀ path' r', net' = s.net.write path' r' → (∀ q, r'.proof = some q → Genuine s.net.bus q) →
      Genuine net'.bus p := by
    intro path' r' hnet hgenuine
    rw [hnet] at hr
    by_cases heq : path = path'
    · rw [heq, World.write_self] at hr
      exact (hgenuine p (Option.some.inj hr ▸ hp)).mono hbus
    · rw [World.write_of_ne _ heq] at hr
      exact (h.files path r p hr hp).mono hbus
  cases ran_filing hran with
  | kept _ _ hfiles | unwritten _ _ _ _ hfiles | unstamped _ _ _ _ hfiles => exact hold hfiles
  | wrote path' r' next hnet => exact hwrite path' r' hnet fun q hq => ((h.windows i w hw).read t _ q htask hq).genuine
  | stamped path' q e r₀ hr₀ his hnet =>
    refine hwrite path' _ hnet fun q' hq' => ?_
    obtain ⟨q₀, hq₀, rfl⟩ := Option.map_eq_some_iff.mp hq'
    exact h.files path' r₀ q₀ hr₀ hq₀
  | closed path' mine r₀ hr₀ his hnet => exact hwrite path' _ hnet fun q hq => h.files path' r₀ q hr₀ hq

/-- The step lemma, of a call. -/
theorem Inv.ran (h : Inv binding_path s) (hw : s.windows[i]? = some w) (htask : w.tasks[t]? = some task)
    (hran : Ran session_for binding_path s.net w t task o net' w')
    (horderly : Orderly binding_path s.net s.connections i w (.run t o)) :
    Inv binding_path ⟨net', s.windows.set i w', s.connections ++ connected binding_path i w w'⟩ := by
  have hsane := h.windows i w hw
  obtain ⟨hcustody, hgoes⟩ := hsane.custody.step (.ran task net' w' htask hran)
  have hsane' := hsane.ran h.below htask hran hcustody horderly
  obtain ⟨task', ht⟩ := ran_turn hsane.custody htask hran
  have hbus := ht.hands.bus
  -- a connection is with a credential that is nobody's yet
  have hnew : ∀ x ∈ connected binding_path i w w', x.who = i ∧ ∀ n, x.token = some n →
      ∃ p, fresh task = some p ∧ p.token = n := by
    intro x hx
    obtain ⟨-, -, -, -, hmade⟩ := connected_cases ht.change hx
    rw [hmade]
    exact ⟨rfl, fun n hn => Option.map_eq_some_iff.mp hn⟩
  refine ⟨hgoes.sound h.sound, hbus.ledger h.ledger, fun j v hv => ?_, fun x hx => ?_, fun x hx n hn => ?_, ?_, ?_,
    fun path r p hr hp => h.files_ran hw htask hran hbus hr hp,
    fun x hlatest v hv => h.filed_ran hw htask hran ht.tasks ht.change horderly hlatest hv⟩
  · rcases set_at hv with ⟨rfl, rfl⟩ | ⟨hne, hv⟩
    · exact hsane'
    · refine (h.windows j v hv).others hgoes hbus (fun x hx => List.mem_append_left _ hx) ?_ fun x hx => ?_
      · refine latest_append_of_not fun y hy => Bool.eq_false_iff.mpr fun heq => hne ?_
        rw [← beq_iff_eq.mp heq, (hnew y hy).1]
      · rcases List.mem_append.mp hx with hx | hx
        · exact .inl hx
        · refine .inr fun n hn => ?_
          obtain ⟨p, hp, rfl⟩ := (hnew x hx).2 n hn
          refine ⟨fun path hmade => (hsane.answered t task p htask hp).2 _ hmade rfl, fun t' y q hy hq heq => hne ?_⟩
          exact (h.apart j i v w t' t y task q p hv hw hy htask hq hp heq).symm
  · rw [List.length_set]
    rcases List.mem_append.mp hx with hx | hx
    · exact h.who x hx
    · rw [(hnew x hx).1]
      exact (List.getElem?_eq_some_iff.mp hw).1
  · have hlength : s.net.bus.issued.length ≤ net'.bus.issued.length := hbus.issued.length_le
    rcases List.mem_append.mp hx with hx | hx
    · exact (h.below x hx n hn).trans_le hlength
    · obtain ⟨p, hp, rfl⟩ := (hnew x hx).2 n hn
      exact (h.fresh_lt hw htask hp).trans_le hlength
  · intro x hx y hy n hn hn'
    rcases List.mem_append.mp hx with hx | hx
    · rcases List.mem_append.mp hy with hy | hy
      · exact h.owners x hx y hy n hn hn'
      · obtain ⟨p, hp, rfl⟩ := (hnew y hy).2 n hn'
        exact absurd hn ((hsane.answered t task p htask hp).2 x hx)
    · rcases List.mem_append.mp hy with hy | hy
      · obtain ⟨p, hp, rfl⟩ := (hnew x hx).2 n hn
        exact absurd hn' ((hsane.answered t task p htask hp).2 y hy)
      · rw [(hnew x hx).1, (hnew y hy).1]
  · intro j k v v' t₀ t₁ y y' p p' hv hv' hy hy' hp hp' heq
    rcases ht.fresh hw hv hy hp with ⟨u, t₂, z, hu, hz, hz'⟩ | ⟨rfl, htoken⟩
    · rcases ht.fresh hw hv' hy' hp' with ⟨u', t₃, z', hu', hz₁, hz₂⟩ | ⟨rfl, htoken'⟩
      · exact h.apart j k u u' t₂ t₃ z z' p p' hu hu' hz hz₁ hz' hz₂ heq
      · exact absurd (h.fresh_lt hu hz hz') (by rw [heq, htoken']; exact Nat.lt_irrefl _)
    · rcases ht.fresh hw hv' hy' hp' with ⟨u', t₃, z', hu', hz₁, hz₂⟩ | ⟨rfl, -⟩
      · exact absurd (h.fresh_lt hu' hz₁ hz₂) (by rw [← heq, htoken]; exact Nat.lt_irrefl _)
      · rfl

/-- What a step of a host does. -/
theorem host_step (h : s.step session_for binding_path e = some s') :
    (∃ st, e = .start st ∧ s' = { s with windows := s.windows ++ [started st] }) ∨
      (∃ i a w net' w', e = .act i a ∧ s.windows[i]? = some w ∧ Acted session_for binding_path s.net w a net' w' ∧
        s' = ⟨net', s.windows.set i w', s.connections ++ connected binding_path i w w'⟩) ∨
      ∃ b, e = .bus b ∧ s' = { s with net := { s.net with bus := s.net.bus.elsewhere b } } := by
  cases e with
  | start st => exact .inl ⟨st, rfl, (Option.some.inj h).symm⟩
  | act i a =>
    obtain ⟨w, hw, h⟩ := Option.bind_eq_some_iff.mp h
    obtain ⟨⟨net', w'⟩, hstep, rfl⟩ := Option.map_eq_some_iff.mp h
    exact .inr (.inl ⟨i, a, w, net', w', rfl, hw, step_acted hstep, rfl⟩)
  | bus b => exact .inr (.inr ⟨b, rfl, (Option.some.inj h).symm⟩)

/-- A process that begins has done nothing. -/
theorem Inv.starts (h : Inv binding_path s) (st : State) :
    Inv binding_path { s with windows := s.windows ++ [started st] } := by
  have hnone : ∀ {t : ℕ} {x : Task}, (started st).tasks[t]? = some x → False := fun hx => nomatch hx
  refine ⟨h.sound, h.ledger, fun j v hv => ?_, fun x hx => ?_, h.below, h.owners, ?_, h.files, fun x hlatest v hv => ?_⟩
  · rcases append_at hv with hv | ⟨rfl, rfl⟩
    · exact h.windows j v hv
    · have hfresh : ∀ x, latest (fun c => c.who == s.windows.length) s.connections = some x → False := by
        intro x hx
        obtain ⟨hmem, hwho⟩ := mem_of_latest hx
        exact absurd (h.who x hmem) (by rw [beq_iff_eq.mp hwho]; exact Nat.lt_irrefl _)
      refine ⟨.start ⟨rfl, rfl, rfl, rfl⟩ h.sound, ?_, ?_, fun _ hp => ?_, ?_, ?_, ?_, ?_, ?_, ?_⟩
      · exact fun _ _ _ hx => (hnone hx).elim
      · exact fun _ _ _ hx => (hnone hx).elim
      · cases hp
      · exact fun x hx => (hfresh x hx).elim
      · exact fun x hx => (hfresh x hx).elim
      · exact fun _ _ _ _ hx => (hnone hx).elim
      · exact fun _ _ _ _ hx => (hnone hx).elim
      · exact fun _ _ _ _ hx => (hnone hx).elim
      · exact fun _ _ _ _ hx => (hnone hx).elim
  · rw [List.length_append]
    exact (h.who x hx).trans_le (Nat.le_add_right _ _)
  · intro j k v v' t t' x x' p p' hv hv' hx hx' hp hp' heq
    rcases append_at hv with hv | ⟨-, rfl⟩
    · rcases append_at hv' with hv' | ⟨-, rfl⟩
      · exact h.apart j k v v' t t' x x' p p' hv hv' hx hx' hp hp' heq
      · exact (hnone hx').elim
    · exact (hnone hx).elim
  · rcases append_at hv with hv | ⟨hwho, -⟩
    · exact h.filed x hlatest v hv
    · exact absurd (h.who x (mem_of_latest hlatest).1) (by rw [hwho]; exact Nat.lt_irrefl _)

/-- What others do on the bus is nothing to the records. -/
theorem Inv.elsewhere (h : Inv binding_path s) (b : Elsewhere) :
    Inv binding_path { s with net := { s.net with bus := s.net.bus.elsewhere b } } := by
  have hgoes : Custody.Goes s.net.bus (s.net.bus.elsewhere b) := Custody.goes_elsewhere b
  have hgrows : Grows s.net.bus (s.net.bus.elsewhere b) := grows_elsewhere b
  refine ⟨hgoes.sound h.sound, hgrows.ledger h.ledger, fun j v hv => ?_, h.who, fun x hx n hn => ?_, h.owners, h.apart, ?_, h.filed⟩
  · exact (h.windows j v hv).others hgoes hgrows (fun x hx => hx) rfl fun x hx => .inl hx
  · exact (h.below x hx n hn).trans_le hgrows.issued.length_le
  · exact fun path r p hr hp => (h.files path r p hr hp).mono hgrows

/-- The step lemma. -/
theorem Inv.next (h : Inv binding_path s) (horderly : s.Orderly binding_path e)
    (hr : Rel (Host.step session_for binding_path) s e s') : Inv binding_path s' := by
  rcases host_step hr with ⟨st, rfl, rfl⟩ | ⟨i, a, w, net', w', rfl, hw, hacted, rfl⟩ | ⟨b, rfl, rfl⟩
  · exact h.starts st
  · have hsane' := (h.windows i w hw).step h.below hacted (horderly w hw)
    cases hacted with
    | ran task _ _ htask hran => exact h.ran hw htask hran (horderly w hw)
    | unauthorized reason =>
      rw [connected_same (by rfl), List.append_nil] at hsane' ⊢
      exact h.quiet hw hsane' rfl rfl rfl (fun _ _ hx => hx) fun _ _ _ hx _ => hx
    | called w' hbegin =>
      obtain ⟨task₀, htask₀, rfl⟩ := begin_task hbegin
      rw [connected_same (by rfl), List.append_nil] at hsane' ⊢
      refine h.quiet hw hsane' rfl rfl rfl (fun t x hx => ?_) fun t x p hx hp => ?_
      · exact (List.getElem?_append_left (List.getElem?_eq_some_iff.mp hx).1).trans hx
      · rcases append_at hx with hx | ⟨-, rfl⟩
        · exact hx
        · exact nomatch (call_renews htask₀).2.1.symm.trans hp
  · exact h.elsewhere b

theorem of_is_over (h : is_over task = true) : ∃ r, task = .returned r := by
  cases task with
  | returned r => exact ⟨r, rfl⟩
  | _ => exact Bool.noConfusion h

/-- When all has returned, the record is of the window that connected last. -/
theorem Inv.described (h : Inv binding_path s) (hfinished : ∀ w ∈ s.windows, Finished w)
    (hlatest : latest (fun c => c.path == path) s.connections = some x) (hw : s.windows[x.who]? = some w)
    (hkey : binding_path w.st.key = path) : ∃ r, s.net.files path = some r ∧ r.proof = w.st.proof := by
  have hdone : ∀ {t : ℕ} {y : Task}, w.tasks[t]? = some y → ∃ r, y = .returned r := fun hy =>
    of_is_over (hfinished w (List.mem_of_getElem? hw) _ (List.mem_of_getElem? hy))
  obtain ⟨hx, hpath⟩ := mem_of_latest hlatest
  obtain rfl := beq_iff_eq.mp hpath
  have hsane := h.windows _ w hw
  -- it has not connected since for another conversation
  have hlast : latest (fun c => c.who == x.who) s.connections = some x := by
    obtain ⟨y, hy⟩ := latest_ne_none (p := fun c => c.who == x.who) hx (beq_self_eq_true _)
    rcases hsane.place y hy with hplace | ⟨t, task, htask, hrebinds⟩
    · rw [hy, latest_eq (q := fun c => c.who == x.who) hlatest (beq_self_eq_true _) hy
        (beq_iff_eq.mpr (hplace.trans hkey))]
    · obtain ⟨r, rfl⟩ := hdone htask
      cases hrebinds
  have htoken : x.token = w.st.proof.map SessionProof.token := by
    rcases hsane.last x hlast with ⟨identity, hi, htoken⟩ | ⟨t, task, htask, hparts⟩
    · rw [htoken, proof_of_identity hi]
    · obtain ⟨r, rfl⟩ := hdone htask
      cases hparts
  rcases h.filed x hlatest w hw with ⟨t, -, ⟨next, hnext, -⟩ | ⟨r, next, hnext, -⟩⟩ | ⟨r, hr, hproof, hexpiry⟩
  · obtain ⟨r, hr⟩ := hdone hnext
    cases hr
  · obtain ⟨r, hr⟩ := hdone hnext
    cases hr
  · refine ⟨r, hr, ?_⟩
    cases hst : w.st.proof with
    | none =>
      rw [htoken, hst] at hproof
      exact Option.map_eq_none_iff.mp hproof
    | some p =>
      rcases hexpiry p hst (by rw [htoken, hst]; rfl) with hfiled | ⟨t, task, q, e, htask, hstamps, -⟩
      · exact hfiled
      · obtain ⟨r, rfl⟩ := hdone htask
        exact nomatch (stamps_known hstamps).2

/-- A record that has moved on is left alone. -/
theorem Inv.guarded (h : Inv binding_path s) (hw : s.windows[i]? = some w)
    (hacted : Acted session_for binding_path s.net w a net' w')
    (horderly : Orderly binding_path s.net s.connections i w a) {old : Record}
    (hold : s.net.files path = some old) (hq : old.proof = some q) (hmoved : MovedOn s.connections path i q.token) :
    net'.files path = s.net.files path := by
  have hkeep := hmoved
  obtain ⟨l₁, k, l₂, hl, hk, hsince⟩ := hmoved
  have hmem : (⟨k, path, some q.token⟩ : Connection) ∈ s.connections := by
    rw [hl]
    exact List.mem_append_right _ List.mem_cons_self
  cases hacted with
  | called | unauthorized => rfl
  | @ran t o task _ _ htask hran =>
    simp only [Orderly, htask] at horderly
    have hother : ∀ p, known task = some p → q.token ≠ p.token := fun p hp heq =>
      hk (h.mine hw htask hp hmem (congrArg some heq))
    have hnot : ∀ p, known task = some p → old.is_of p = true → False := fun p hp his =>
      hother p hp ((is_of_iff h.ledger hq (h.files path old q hold hq)
        ((h.windows i w hw).read t task p htask hp).genuine).mp his)
    cases ran_filing hran with
    | kept _ _ hfiles | unwritten _ _ _ _ hfiles | unstamped _ _ _ _ hfiles => rw [hfiles]
    | wrote path' r next hnet =>
      rw [hnet]
      refine World.write_of_ne _ (fun hpath => ?_) r
      subst hpath
      refine horderly.1 old hold ⟨fun heq => ?_, l₁, k, l₂, by rw [hq]; exact hl, fun hmade => ?_⟩
      · rw [hq] at heq
        obtain ⟨p, hp, hsame⟩ := Option.map_eq_some_iff.mp heq
        exact hother p hp hsame.symm
      · exact hsince _ hmade rfl rfl
    | stamped path' p e r hr his hnet =>
      rw [hnet]
      refine World.write_of_ne _ (fun hpath => ?_) _
      subst hpath
      rw [← Option.some.inj (hold.symm.trans hr)] at his
      exact hnot p rfl his
    | closed path' mine r hr his hnet =>
      rw [hnet]
      refine World.write_of_ne _ (fun hpath => ?_) _
      subst hpath
      cases mine with
      | none => exact horderly old q hold hq hkeep
      | some p =>
        rw [← Option.some.inj (hold.symm.trans hr)] at his
        exact hnot p rfl (his p rfl)

end Inv

/-! ## Runs -/

/-- Nobody has connected yet, and there is no record. -/
structure Host.Begins (s : Host) : Prop where
  windows : s.windows = []
  connections : s.connections = []
  files : ∀ path, s.net.files path = none
  sound : Custody.Sound s.net.bus
  ledger : Ledger s.net.bus

section Runs

variable {session_for binding_path : String → String} {s t : Host} {tr : List (Trans Host Host.Event)}

theorem Inv.start (h : s.Begins) : Inv binding_path s where
  sound := h.sound
  ledger := h.ledger
  windows := fun j w hw => absurd hw (by rw [h.windows]; simp)
  who := fun x hx => absurd hx (by rw [h.connections]; simp)
  below := fun x hx => absurd hx (by rw [h.connections]; simp)
  owners := fun x hx => absurd hx (by rw [h.connections]; simp)
  apart := fun j k w w' t t' task task' p p' hw => absurd hw (by rw [h.windows]; simp)
  files := fun path r p hr => absurd hr (by rw [h.files]; simp)
  filed := fun x hx => absurd (mem_of_latest hx).1 (by rw [h.connections]; simp)

/-- **A record describes the window.** In an orderly run of any number of processes, for every
interleaving of their calls: when all have returned, the record of a conversation has the
credential of the window that connected for it last, with the expiry of its last renewal; and at no
step does a window touch a record that is another's since. -/
theorem records_describe_windows (hbegins : s.Begins) (hrun : Run (Rel (Host.step session_for binding_path)) s tr t)
    (horderly : ∀ e ∈ tr, e.pre.Orderly binding_path e.act) : BindingLaw binding_path tr := by
  have hstep : ∀ s a t, Inv binding_path s → Host.Orderly binding_path s a →
      Rel (Host.step session_for binding_path) s a t → Inv binding_path t := fun _ _ _ h horderly hr => h.next horderly hr
  refine ⟨fun e he hfinished path x w hlatest hw hkey => ?_, fun e he i a hact path old q hold hq hmoved => ?_⟩
  · exact (hrun.invariant_post (I := Inv binding_path) (.start hbegins) hstep horderly e he).described hfinished
      hlatest hw hkey
  · have hinv := hrun.invariant_pre (I := Inv binding_path) (.start hbegins) hstep horderly e he
    have hr := hrun.rel e he
    have ho := horderly e he
    rw [hact] at hr ho
    rcases host_step hr with ⟨st, heq, -⟩ | ⟨j, b, w, net', w', heq, hw, hacted, hpost⟩ | ⟨b, heq, -⟩
    · exact nomatch heq
    · obtain ⟨rfl, rfl⟩ := Host.Event.act.inj heq
      rw [hpost]
      exact hinv.guarded hw hacted (ho w hw) hold hq hmoved
    · exact nomatch heq

end Runs

/-! ## Closed runs -/

/-- Enough for a step of a window to be orderly: what it writes is what it is, over a record of its
own or as the window that connected last. -/
def orderly (binding_path : String → String) (net : World) (l : List Connection) (i : ℕ) (w : Window) : Act → Bool
  | .run t o =>
    match w.tasks[t]?, o with
    | some (.writing path r _), .done =>
      ((net.files path).all fun old => r.proof.map SessionProof.token == old.proof.map SessionProof.token ||
        latest (fun c => c.path == path) l == some ⟨i, path, r.proof.map SessionProof.token⟩) && r.proof == w.st.proof
    | some (.writing _ _ _), .refused _ => false
    | some (.stamp _ _ _), o => o == .done
    | some (.stamping p _), _ => l.all fun x => x.token != some p.token || x.path == binding_path w.st.key
    | some (.closed _ none), _ | some (.staging _ _ _), _ | some (.failed (.rebind _ _ _ _) _), _ => false
    | _, _ => true
  | _ => true

def Host.orderly (binding_path : String → String) (s : Host) : Host.Event → Bool
  | .act i a => (s.windows[i]?).all fun w => Bindings.orderly binding_path s.net s.connections i w a
  | _ => true

/-- After an earlier connection comes the last, or it is the last. -/
theorem latest_after {p : Connection → Bool} {l₁ l₂ : List Connection} {x y : Connection} (hp : p y = true)
    (h : latest p (l₁ ++ y :: l₂) = some x) : x = y ∨ x ∈ l₂ := by
  rw [latest, List.reverse_append, List.reverse_cons, List.append_assoc, List.find?_append] at h
  cases hfind : l₂.reverse.find? p with
  | some z =>
    rw [hfind, Option.some_or] at h
    rw [← Option.some.inj h]
    exact .inr (List.mem_reverse.mp (List.mem_of_find?_eq_some hfind))
  | none =>
    rw [hfind, Option.none_or, List.singleton_append, List.find?_cons, hp] at h
    exact .inl (Option.some.inj h).symm

variable {binding_path : String → String}

theorem orderly_of {net : World} {l : List Connection} {i : ℕ} {w : Window} {a : Act}
    (h : orderly binding_path net l i w a = true) : Orderly binding_path net l i w a := by
  unfold Orderly
  split
  · rename_i t o
    simp only [orderly] at h
    split
    · rename_i path r next htask
      simp only [htask, Bool.and_eq_true] at h
      refine ⟨fun old hold => ?_, fun p q hp hq _ => .inl ?_⟩
      · rintro ⟨hne, l₁, k, l₂, hl, hnone⟩
        rw [hold, Option.all_some, Bool.or_eq_true, beq_iff_eq, beq_iff_eq] at h
        have hlast := h.1.resolve_left hne
        rw [hl] at hlast
        rcases latest_after (p := fun c => c.path == path) (beq_self_eq_true path) hlast with heq | hmem
        · exact hne (Connection.mk.inj heq).2.2
        · exact hnone hmem
      · have heq := beq_iff_eq.mp h.2
        rw [hp, hq] at heq
        rw [Option.some.inj heq]
    · rename_i htask
      simp only [htask] at h
      exact Bool.noConfusion h
    · rename_i htask
      simp only [htask] at h
      exact beq_iff_eq.mp h
    · rename_i p e o htask
      simp only [htask] at h
      intro x hx heq
      have hone := List.all_eq_true.mp h x hx
      rw [heq, Bool.or_eq_true, bne_self_eq_false] at hone
      exact beq_iff_eq.mp (hone.resolve_left Bool.noConfusion)
    · rename_i htask
      simp only [htask] at h
      exact Bool.noConfusion h
    · rename_i htask
      simp only [htask] at h
      exact Bool.noConfusion h
    · rename_i htask
      simp only [htask] at h
      exact Bool.noConfusion h
    · trivial
  · trivial

theorem host_orderly_of {s : Host} {e : Host.Event}
    (h : s.orderly binding_path e = true) : s.Orderly binding_path e := by
  cases e with
  | act i a =>
    intro w hw
    refine orderly_of ?_
    simp only [Host.orderly, hw, Option.all_some] at h
    exact h
  | start | bus => trivial

/-- The steps, with ids that are their own sessions and paths. -/
def go : Host → Host.Event → Option Host := Host.step id id

/-- Before anybody has begun. -/
def fresh_host : Host := ⟨⟨⟨[], []⟩, fun _ => none⟩, [], []⟩

theorem fresh_begins : fresh_host.Begins :=
  ⟨rfl, rfl, fun _ => rfl, ⟨.nil _, .nil _, fun _ hs => nomatch hs⟩, ⟨List.nodup_nil, fun _ hx => (nomatch hx), fun _ hs => nomatch hs⟩⟩

/-- A process whose host names the conversation. -/
def talk : State := { Rebinding.opened_state with session := "t-1", host_id := some "t-1", binding := .ClaudeCode }

/-- The `t`-th call of a window does as many steps that meet nothing. -/
def does (i t n : ℕ) : List Host.Event := List.replicate n (.act i (.run t .done))

/-- A process begins, and connects. -/
def joins (i : ℕ) : List Host.Event :=
  [.start talk, .act i (.call .initial)] ++ does i 0 2 ++
    [.act i (.run 0 (.resolved Rebinding.found)), .act i (.run 0 (.whoami "ada" "crew")),
      .act i (.run 0 (.issued 100))] ++ does i 0 7

/-- It renews its credential, and gets a label. -/
def settles (i : ℕ) : List Host.Event :=
  .act i (.call .renew) :: .act i (.run 1 (.renewed 300)) :: does i 1 3 ++
    .act i (.call (.configure ⟨some (some "dev"), none, none⟩ false)) :: does i 2 3

/-- A window has a successor. -/
def succeeded : List Host.Event := joins 0 ++ settles 0 ++ joins 1 ++ settles 1

theorem succeeded_run : (exec go fresh_host succeeded).isSome = true := by decide

/-- The run, and where it ends. -/
def succeeded_end : List (Trans Host Host.Event) × Host := (exec go fresh_host succeeded).get succeeded_run

/-- The record is the successor's, as it was renewed. -/
theorem records_describe_windows_succeeded :
    ((succeeded_end.2.net.files "t-1").bind Record.proof).map (fun p => (p.token, p.expires_at)) = some (1, 300) ∧
      BindingLaw id succeeded_end.1 :=
  ⟨by decide, records_describe_windows fresh_begins (exec_get succeeded_run) fun e he => host_orderly_of
    (List.all_eq_true.mp (by decide : (succeeded_end.1.all fun e => e.pre.orderly id e.act) = true) e he)⟩

/-- A window has read what it is, and waits to write it, while its successor connects. -/
def overwritten : List Host.Event :=
  joins 0 ++ .act 0 (.call (.configure ⟨some (some "dev"), none, none⟩ false)) :: does 0 1 2 ++ joins 1 ++ does 0 1 1

theorem overwritten_run : (exec go fresh_host overwritten).isSome = true := by decide

/-- The run, and where it ends. -/
def overwritten_end : List (Trans Host Host.Event) × Host := (exec go fresh_host overwritten).get overwritten_run

theorem overwritten_length : overwritten_end.1.length = 32 := exec_length overwritten_run

/-- Its last step. -/
def last_write : Trans Host Host.Event := overwritten_end.1.get ⟨31, by rw [overwritten_length]; omega⟩

/-- All has returned, the successor has connected last, and the record is not its. -/
theorem record_is_overwritten :
    (latest (fun c => c.path == "t-1") last_write.post.connections = some ⟨1, "t-1", some 1⟩ ∧
      (last_write.post.windows[1]?.bind fun w => w.st.proof).map SessionProof.token = some 1 ∧
      ((last_write.post.net.files "t-1").bind Record.proof).map SessionProof.token = some 0) ∧
      ¬ BindingLaw id overwritten_end.1 := by
  have hlatest : latest (fun c => c.path == "t-1") last_write.post.connections = some ⟨1, "t-1", some 1⟩ := by decide
  have hstate : (last_write.post.windows[1]?.bind fun w => w.st.proof).map SessionProof.token = some 1 := by decide
  have hfile : ((last_write.post.net.files "t-1").bind Record.proof).map SessionProof.token = some 0 := by decide
  refine ⟨⟨hlatest, hstate, hfile⟩, fun h => ?_⟩
  obtain ⟨p, hp, hp'⟩ := Option.map_eq_some_iff.mp hstate
  obtain ⟨w, hw, hst⟩ := Option.bind_eq_some_iff.mp hp
  have hkey : (last_write.post.windows[1]?.all fun w => w.st.key == "t-1") = true := by decide
  rw [hw, Option.all_some, beq_iff_eq] at hkey
  obtain ⟨r, hr, hproof⟩ := h.described last_write (List.get_mem _ _) (by decide) "t-1" _ w hlatest hw hkey
  rw [hr, Option.bind_some, hproof, hst, Option.map_some, hp'] at hfile
  exact absurd (Option.some.inj hfile) (by decide)

end CrewSync.Bindings
