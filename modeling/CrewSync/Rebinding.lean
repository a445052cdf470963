/-
Whether a window answers as the window it says it is, and what is left of a change that failed.

The session and the conversation that `status` reports, that name the spool and that the record is
of are read from the state; what a forwarded call says is on its connection. `connect_with` reads
the state under `switch` and swaps the connection when it is verified, and nothing else opens one,
so that the two agree while nobody changes the session meanwhile. `rebind` does: it replaces the
conversation before the new connection is there, and leaves the old one in place until then.

`configure` stages its labels and has nothing to undo. `adopt_project_dir` undoes its directory by
clearing it, which is what it was where there was none. And what `rebind` puts back is not all:
it leaves its error as the reason why there is no connection.
-/
import CrewSync.Proxy

set_option autoImplicit false

namespace CrewSync.Rebinding

open Runs Proxy

/-! ## The law -/

/-- What the window says of itself is what its connection says. -/
structure Speaks (st : State) (c : Connected) : Prop where
  status : st.status.session = c.remote.session
  spool : st.spool_session = c.remote.session
  record : st.record.session = c.remote.session
  key : st.key = c.binding_key

/-- A change that may fail: `configure` with a profile, `adopt_project_dir` and `rebind`. -/
def changes : Call → Bool
  | .configure _ profile => profile
  | .adopt _ | .rebind _ _ => true
  | _ => false

/-- The `t`-th call begins, as such a change. -/
def Begins (e : Trans Sys Event) (t : ℕ) : Prop :=
  ∃ c, e.act = .act (.call c) ∧ changes c = true ∧ t = e.pre.window.tasks.length

/-- The window does nothing but its `t`-th call. -/
def Alone (t : ℕ) (tr : List (Trans Sys Event)) : Prop :=
  ∀ x ∈ tr, (∃ o, x.act = .act (.run t o)) ∨ ∃ b, x.act = .bus b

/-- The `t`-th call returns an error. -/
def Fails (e : Trans Sys Event) (t : ℕ) : Prop :=
  (∃ o, e.act = .act (.run t o)) ∧ ∃ why, e.post.window.tasks[t]? = some (.returned (.error why))

/-- What a window promises of a run. -/
structure WindowLaw (tr : List (Trans Sys Event)) : Prop where
  /-- It never says that it is another window than it speaks as. -/
  speaks : ∀ e ∈ tr, ∀ c, e.post.window.st.connected = some c → Speaks e.post.window.st c
  /-- A change that fails changes nothing, where the window does nothing else meanwhile. -/
  undone : ∀ tr₁ e tr₂ f tr₃ t, tr = tr₁ ++ e :: (tr₂ ++ f :: tr₃) → Begins e t → Alone t tr₂ → Fails f t →
    f.post.window.st = e.pre.window.st

/-! ## When it holds -/

/-- `rebind` replaces the conversation of a window that has no connection and is making none, and
does not fail; and `adopt_project_dir` fails only where it has replaced no directory. -/
def steady (s : Sys) : Event → Bool
  | .act (.run t _) =>
    match s.window.tasks[t]? with
    | some (.staging _ _ _) => s.window.st.connected.isNone && s.window.switch.isNone
    | some (.failed (.rebind _ _ _ _) _) => false
    | some (.failed (.adopt roots_dir) _) => roots_dir.isNone
    | _ => true
  | _ => true

/-! ## What the window says -/

/-- Whoever makes a connection makes it for what the window is, and so was the one it has made. -/
structure Inv (w : Window) : Prop where
  locked : Locked w
  works : ∀ (t : ℕ) task session key, w.tasks[t]? = some task → task.works = some (session, key) →
    session = w.st.session ∧ ∀ k, key = some k → k = w.st.key
  connected : ∀ c, w.st.connected = some c → c.remote.session = w.st.session ∧ c.binding_key = w.st.key

section Inv

variable {session_for binding_path : String → String} {net net' : World} {w w' : Window} {a : Act}

/-- The window is who it was. -/
structure Same (st st' : State) : Prop where
  session : st'.session = st.session
  host_id : st'.host_id = st.host_id
  connected : ∀ c', st'.connected = some c' → ∃ c, st.connected = some c ∧ c'.remote.session = c.remote.session ∧
    c'.binding_key = c.binding_key

theorem Same.key {st st' : State} (h : Same st st') : st'.key = st.key := by
  rw [State.key, State.key, h.session, h.host_id]

theorem Same.refl (st : State) : Same st st := ⟨rfl, rfl, fun c hc => ⟨c, hc, rfl, rfl⟩⟩

/-- A window that stays who it was goes on with what it was doing. -/
theorem Inv.same (h : Inv w) (hlocked : Locked w') (hsame : Same w.st w'.st)
    (hworks : ∀ (t : ℕ) task session key, w'.tasks[t]? = some task → task.works = some (session, key) →
      session = w.st.session ∧ ∀ k, key = some k → k = w.st.key) : Inv w' := by
  refine ⟨hlocked, fun t task session key htask hw => ?_, fun c' hc' => ?_⟩
  · rw [hsame.session, hsame.key]
    exact hworks t task session key htask hw
  · obtain ⟨c, hc, hsession, hkey⟩ := hsame.connected c' hc'
    rw [hsame.session, hsame.key, hsession, hkey]
    exact h.connected c hc

theorem making_session (m : Making) : m.connected.remote.session = m.session := by
  unfold Making.connected Making.remote
  split
  · rfl
  · rfl

/-- The call that goes on works for what it worked for, or for what the window is. -/
theorem Inv.goes (h : Inv w) {i : ℕ} {task task' : Task} (htask : w.tasks[i]? = some task)
    (htasks : w'.tasks = w.tasks.set i task')
    (hnext : ∀ x, task'.works = some x → task.works = some x ∨ x.1 = w.st.session ∧ ∀ k, x.2 = some k → k = w.st.key) :
    ∀ (t : ℕ) task session key, w'.tasks[t]? = some task → task.works = some (session, key) →
      session = w.st.session ∧ ∀ k, key = some k → k = w.st.key := by
  intro t x session key hx hw
  rw [htasks] at hx
  rcases set_at hx with ⟨rfl, rfl⟩ | ⟨-, hx⟩
  · rcases hnext _ hw with hold | hnew
    · exact h.works i task session key htask hold
    · exact hnew
  · exact h.works t x session key hx hw

theorem Inv.step (h : Inv w) (hacted : Acted session_for binding_path net w a net' w')
    (hsteady : steady ⟨net, w⟩ (.act a) = true) : Inv w' := by
  have hlocked : Locked w' := h.locked.step hacted
  cases hacted with
  | called w' hw =>
    obtain ⟨task₀, htask₀, rfl⟩ := begin_task hw
    refine h.same hlocked (.refl _) fun t task session key htask hworks => ?_
    rcases append_at htask with htask | ⟨-, rfl⟩
    · exact h.works t task session key htask hworks
    · rw [task_works htask₀] at hworks
      cases hworks
  | unauthorized reason => exact h.same hlocked ⟨rfl, rfl, fun c hc => ⟨c, hc, rfl, rfl⟩⟩ h.works
  | @ran i o task _ _ htask hran =>
    have hkept : ∀ {st : State} {task' : Task}, w' = w.sets i st task' → Same w.st st →
        (∀ x, task'.works = some x → task.works = some x) → Inv w' := by
      rintro st task' rfl hsame hworks
      exact h.same hlocked hsame (h.goes htask rfl fun x hx => .inl (hworks x hx))
    have hgoes : ∀ {task' : Task}, w'.st = w.st → w'.tasks = w.tasks.set i task' →
        (∀ x, task'.works = some x → task.works = some x) → Inv w' := by
      intro task' hst htasks hworks
      exact h.same hlocked (hst ▸ .refl _) (h.goes htask htasks fun x hx => .inl (hworks x hx))
    simp only [steady, htask] at hsteady
    cases hran with
    | connecting c reuse_proof hfree =>
      refine h.same hlocked (.refl _) (h.goes htask rfl fun x hx => .inr ?_)
      rw [← Option.some.inj hx]
      exact ⟨rfl, fun k hk => (Option.some.inj hk).symm⟩
    | resuming_in_place p hfree hproof =>
      refine h.same hlocked (.refl _) (h.goes htask rfl fun x hx => .inr ?_)
      rw [← Option.some.inj hx]
      exact ⟨rfl, fun k hk => nomatch hk⟩
    | defaulting m => exact hkept rfl ⟨rfl, rfl, fun c hc => ⟨c, hc, rfl, rfl⟩⟩ fun x hx => hx
    | taking m old hold =>
      refine hkept rfl ⟨rfl, rfl, fun c hc => nomatch hc⟩ fun x hx => ?_
      split at hx
      · exact hx
      · exact hx
    | committing m =>
      obtain ⟨hsession, hkey⟩ := h.works i _ _ _ htask rfl
      refine ⟨hlocked, h.goes htask rfl (fun x hx => nomatch hx), fun c hc => ?_⟩
      rw [← Option.some.inj hc]
      exact ⟨(making_session m).trans hsession, hkey _ rfl⟩
    | failed c why =>
      cases c with
      | initial | configure labels | adopt roots_dir => exact hkept rfl ⟨rfl, rfl, fun c hc => ⟨c, hc, rfl, rfl⟩⟩ fun x hx => nomatch hx
      | rebind => exact Bool.noConfusion hsteady
    | labelling l | rooted dir r hother => exact hkept rfl ⟨rfl, rfl, fun c hc => ⟨c, hc, rfl, rfl⟩⟩ fun x hx => nomatch hx
    | relabelled dir r hsame =>
      refine hkept rfl ⟨rfl, rfl, fun c hc => ?_⟩ fun x hx => nomatch hx
      obtain ⟨c', hc', rfl⟩ := Option.map_eq_some_iff.mp hc
      exact ⟨c', hc', rfl, rfl⟩
    | staging host_id source previous =>
      rw [Bool.and_eq_true, Option.isNone_iff_eq_none, Option.isNone_iff_eq_none] at hsteady
      refine ⟨hlocked, fun t x session key hx hw => ?_, fun c hc => ?_⟩
      · -- nobody is making a connection
        have hswitch := hlocked t x hx (hw ▸ Option.some_ne_none _)
        exact absurd (hswitch.symm.trans hsteady.2) (Option.some_ne_none t)
      · exact absurd (hc.symm.trans hsteady.1) (Option.some_ne_none c)
    | adopted p session c hc =>
      obtain ⟨hsession, -⟩ := h.works i _ _ _ htask rfl
      obtain ⟨-, hkey⟩ := h.connected c hc
      refine ⟨hlocked, h.goes htask rfl (fun x hx => nomatch hx), fun c' hc' => ?_⟩
      rw [← Option.some.inj hc']
      exact ⟨hsession, hkey⟩
    | stranded p session why said c hc => exact hkept rfl ⟨rfl, rfl, fun c hc => nomatch hc⟩ fun x hx => nomatch hx
    | extended p expires_at c q hc hq =>
      refine hkept rfl ⟨rfl, rfl, fun c' hc' => ⟨c, hc, ?_⟩⟩ fun x hx => nomatch hx
      rw [← Option.some.inj hc']
      exact ⟨rfl, rfl⟩
    | writing path r next | unwritten path r next => exact hgoes rfl rfl fun x hx => absurd hx (by rw [next_works]; simp)
    | _ => exact hgoes rfl rfl (by simp [Task.works])

end Inv

/-! ## What a failed change leaves -/

/-- What the caller of `connect_with` has done to the state, and can undo. -/
def Left (st₀ st : State) : Caller → Prop
  | .configure _ => st = st₀
  | .adopt roots_dir => (∃ dir, st = { st₀ with roots_dir := some dir }) ∧ roots_dir = st₀.roots_dir
  | .rebind _ _ _ _ => True
  | .initial => False

/-- What follows is not an error. -/
def Fine : Next → Prop
  | .reply (.error _) => False
  | _ => True

/-- How far a change is, and what it has left of the state until then. -/
def Stage (st₀ st : State) : Task → Prop
  | .adopting _ => st = st₀
  | .connecting c _ | .reading c _ _ _ | .resolving c _ _ _ | .verifying c _ _ _ _ | .failed c _ => Left st₀ st c
  | .resuming m _ | .registering m | .opening m | .checking m => Left st₀ st m.caller
  | .staging _ _ previous => ∀ st, Left st₀ st previous
  | .snapshot next | .writing _ _ next => Fine next
  | .returned (.error _) => st = st₀
  | .defaulting _ | .taking _ | .revoking _ _ | .committing _ | .labelling _ | .rebinding _ _ | .returned _ => True
  | .resuming_in_place | .rotating _ _ | .reopening _ _ | .adopt_resumed _ _ _ | .renewing _ _ | .renewed _ _ _
  | .stamping _ _ | .stamp _ _ _ | .closing | .closed _ _ => False

section Stage

variable {session_for binding_path : String → String} {net net' : World} {w w' : Window} {st₀ : State}

theorem fine_next (c : Caller) : Fine c.next := by
  cases c with
  | _ => trivial

theorem fine_task {next : Next} {st : State} (h : Fine next) : Stage st₀ st next.task := by
  cases next with
  | labels l => trivial
  | reply r =>
    cases r with
    | error why => exact h.elim
    | _ => trivial

/-- A step of the change. -/
theorem Stage.step {t : ℕ} {task : Task} {o : Outcome} (h : Stage st₀ w.st task) (htask : w.tasks[t]? = some task)
    (hran : Ran session_for binding_path net w t task o net' w') (hsteady : steady ⟨net, w⟩ (.act (.run t o)) = true) :
    ∃ task', w'.tasks[t]? = some task' ∧ Stage st₀ w'.st task' := by
  have hlt : t < w.tasks.length := (List.getElem?_eq_some_iff.mp htask).1
  have hset : ∀ {task'}, (w.tasks.set t task')[t]? = some task' := fun {task'} => by
    rw [List.getElem?_set_self hlt]
  simp only [steady, htask] at hsteady
  cases hran with
  | failed c why =>
    refine ⟨_, hset, ?_⟩
    cases c with
    | initial => exact h.elim
    | configure labels => exact h
    | adopt roots_dir =>
      obtain ⟨⟨dir, hst⟩, hdir⟩ := h
      rw [Option.isNone_iff_eq_none.mp hsteady] at hdir
      have hback : (w.st.restored (.adopt roots_dir) why) = st₀ := by
        rw [State.restored, hst, hdir]
      exact hback
    | rebind => exact Bool.noConfusion hsteady
  | rooted dir r hother =>
    have hst : w.st = st₀ := h
    exact ⟨_, hset, ⟨dir, by rw [hst]; rfl⟩, by rw [hst]⟩
  | rebinding host_id source => exact ⟨_, hset, fun _ => trivial⟩
  | staging host_id source previous => exact ⟨_, hset, h _⟩
  | committing m => exact ⟨_, hset, fine_next m.caller⟩
  | writing path r next | unwritten path r next => exact ⟨_, hset, fine_task h⟩
  | taking m old hold =>
    refine ⟨_, hset, ?_⟩
    split
    · trivial
    · trivial
  | connecting | reading | resolving | unresolved | unexpected | verified_stored | verified_new | unverified
  | resumed | resumed_lost | rejected | unresumed | registered | registered_lost | legacy | unregistered
  | opened | unopened | other_team | unadopted | snapshot => exact ⟨_, hset, h⟩
  | checked | defaulting | taking_none | revoked | unrevoked | labelling | relabelled => exact ⟨_, hset, trivial⟩
  | resuming_in_place | forwarded | rotated | rotated_lost | unrotated | reopening | unconnected | adopted | stranded
  | renewing | extended | stamping | stamped | unstamped | closing | closed => exact h.elim
  | idle task o hidle =>
    cases hidle with
    | _ => exact h.elim

end Stage

section Runs

variable {session_for binding_path : String → String} {s t : Sys} {tr : List (Trans Sys Event)} {w : Window}

theorem Inv.start (h : w.Starts) : Inv w where
  locked := fun t task htask => absurd htask (by rw [h.tasks]; simp)
  works := fun t task session key htask => absurd htask (by rw [h.tasks]; simp)
  connected := fun c hc => absurd hc (by rw [h.connected]; simp)

theorem Inv.speaks (h : Inv w) {c : Connected} (hc : w.st.connected = some c) : Speaks w.st c := by
  obtain ⟨hsession, hkey⟩ := h.connected c hc
  exact ⟨hsession.symm, hsession.symm, hsession.symm, hkey.symm⟩

/-- Steps of one call, and of the bus, take it from stage to stage. -/
theorem stage_run {st₀ : State} {i : ℕ} {u v : Sys} (hrun : Run (Rel (step session_for binding_path)) u tr v)
    (hsteady : ∀ e ∈ tr, steady e.pre e.act = true) (halone : Alone i tr)
    (h : ∃ task, u.window.tasks[i]? = some task ∧ Stage st₀ u.window.st task) :
    ∃ task, v.window.tasks[i]? = some task ∧ Stage st₀ v.window.st task := by
  have hstep : ∀ s a t, (∃ task, s.window.tasks[i]? = some task ∧ Stage st₀ s.window.st task) →
      (steady s a = true ∧ ((∃ o, a = .act (.run i o)) ∨ ∃ b, a = .bus b)) →
      Rel (step session_for binding_path) s a t →
      ∃ task, t.window.tasks[i]? = some task ∧ Stage st₀ t.window.st task := by
    rintro s a t ⟨task, htask, hstage⟩ ⟨hsteady, hone⟩ hr
    rcases step_did hr with ⟨act, rfl, hacted⟩ | ⟨b, rfl, rfl⟩
    · rcases hone with ⟨o, heq⟩ | ⟨b, heq⟩
      · rw [Event.act.inj heq] at hacted hsteady
        cases hacted with
        | ran task' net' w' htask' hran =>
          rw [Option.some.inj (htask.symm.trans htask')] at hstage
          exact hstage.step htask' hran hsteady
      · exact Event.noConfusion heq
    · exact ⟨task, htask, hstage⟩
  exact hrun.invariant (I := fun s => ∃ task, s.window.tasks[i]? = some task ∧ Stage st₀ s.window.st task)
    (C := fun s a => steady s a = true ∧ ((∃ o, a = .act (.run i o)) ∨ ∃ b, a = .bus b)) h hstep
    fun e he => ⟨hsteady e he, halone e he⟩

/-- A change that has just begun has done nothing. -/
theorem stage_begin {c : Call} {task : Task} (hchanges : changes c = true) (htask : c.task w = some task) :
    Stage w.st w.st task := by
  cases c with
  | configure labels profile =>
    have hprofile : profile = true := hchanges
    rw [← Option.some.inj htask, hprofile]
    exact rfl
  | adopt dir =>
    rw [← Option.some.inj htask]
    exact rfl
  | rebind host_id source =>
    simp only [Call.task] at htask
    split at htask
    · rw [← Option.some.inj htask]
      trivial
    · cases htask
  | initial | resume | renew | close => exact Bool.noConfusion hchanges

/-- **A window says who it is.** In a run whose steps are `steady`, what it reports, what names its
spool and what its record is of are at every moment what its connection says; and `configure` with
a profile, `adopt_project_dir` and `rebind` leave the state as it was where they fail. -/
theorem windows_are_steady (hstart : s.window.Starts) (hrun : Run (Rel (step session_for binding_path)) s tr t)
    (hsteady : ∀ e ∈ tr, steady e.pre e.act = true) : WindowLaw tr := by
  refine ⟨fun e he c hc => ?_, fun tr₁ e tr₂ f tr₃ i htr hbegins halone hfails => ?_⟩
  · have hstep : ∀ s a t, Inv s.window → steady s a = true → Rel (step session_for binding_path) s a t →
        Inv t.window := by
      intro s a t h hsteady hr
      rcases step_did hr with ⟨act, rfl, hacted⟩ | ⟨b, rfl, rfl⟩
      · exact h.step hacted hsteady
      · exact h
    have hinv := hrun.invariant_post (I := fun s => Inv s.window) (C := fun s a => steady s a = true)
      (.start hstart) hstep hsteady e he
    exact hinv.speaks hc
  · rw [htr] at hrun hsteady
    obtain ⟨-, hbegin, hrest⟩ := hrun.split
    obtain ⟨hmiddle, hfail, -⟩ := hrest.split
    obtain ⟨c, hact, hchanges, hi⟩ := hbegins
    -- the call is there, and has done nothing
    have hfirst : ∃ task, e.post.window.tasks[i]? = some task ∧ Stage e.pre.window.st e.post.window.st task := by
      rw [hact] at hbegin
      rcases step_did hbegin with ⟨act, heq, hacted⟩ | ⟨b, heq, -⟩
      · rw [← Event.act.inj heq] at hacted
        generalize e.post.net = net', e.post.window = w' at hacted
        cases hacted with
        | called w' hw =>
          obtain ⟨task, htask, rfl⟩ := begin_task hw
          refine ⟨task, ?_, stage_begin hchanges htask⟩
          rw [hi, List.getElem?_concat_length]
      · exact Event.noConfusion heq
    have hsteady₂ : ∀ x ∈ tr₂, steady x.pre x.act = true := fun x hx =>
      hsteady x (List.mem_append_right _ (List.mem_cons_of_mem _ (List.mem_append_left _ hx)))
    obtain ⟨task, htask, hstage⟩ := stage_run hmiddle hsteady₂ halone hfirst
    obtain ⟨⟨o, ho⟩, why, hwhy⟩ := hfails
    have hsteady₃ := hsteady f (List.mem_append_right _ (List.mem_cons_of_mem _ (List.mem_append_right _
      List.mem_cons_self)))
    rw [ho] at hfail hsteady₃
    rcases step_did hfail with ⟨act, heq, hacted⟩ | ⟨b, heq, -⟩
    · rw [← Event.act.inj heq] at hacted
      cases hacted with
      | ran task' net' w' htask' hran =>
        rw [Option.some.inj (htask.symm.trans htask')] at hstage
        obtain ⟨task'', htask'', hstage''⟩ := hstage.step htask' hran hsteady₃
        rw [Option.some.inj (htask''.symm.trans hwhy)] at hstage''
        exact hstage''
    · exact Event.noConfusion heq

end Runs

/-! ## Closed runs -/

/-- The steps, with ids that are their own sessions and paths. -/
def go : Sys → Event → Option Sys := step id id

/-- A process whose host names no conversation. -/
def opened_state : State :=
  ⟨none, none, "s-9f", .Instance, none, false, none, none, none, 0, none, none⟩

def opened_window : Sys := ⟨⟨⟨[], []⟩, fun _ => none⟩, ⟨opened_state, none, []⟩⟩

theorem opened_starts : opened_window.window.Starts := ⟨rfl, rfl, rfl, rfl⟩

/-- What its directory resolves to. -/
def found : Resolved := ⟨"bus", "acs_1", some "crew", none, none, none, none⟩

/-- The `t`-th call does as many steps that meet nothing. -/
def steps (t n : ℕ) : List Event := List.replicate n (.act (.run t .done))

/-- The `t`-th call connects, from where it waits for `switch` to where its record is written. -/
def connects (t : ℕ) : List Event :=
  steps t 2 ++ [.act (.run t (.resolved found)), .act (.run t (.whoami "ada" "crew")), .act (.run t (.issued 100))] ++
    steps t 7

/-- There is no profile at first, then a request names the conversation, and then a profile that
the bus does not accept is asked for. -/
def bound : List Event :=
  .act (.call .initial) :: steps 0 2 ++ [.act (.run 0 (.refused "no profile"))] ++ steps 0 1 ++
    .act (.call (.rebind "t-1" .RequestMeta)) :: steps 1 2 ++ connects 1 ++
    .act (.call (.configure ⟨none, none, none⟩ true)) :: steps 2 2 ++
      [.act (.run 2 (.resolved found)), .act (.run 2 (.refused "not accepted"))] ++ steps 2 1

theorem bound_run : (exec go opened_window bound).isSome = true := by decide

/-- The run, and where it ends. -/
def bound_end : List (Trans Sys Event) × Sys := (exec go opened_window bound).get bound_run

/-- The window answers as the conversation's. -/
theorem windows_are_steady_bound :
    (bound_end.2.window.st.status.session = "t-1" ∧
      bound_end.2.window.st.connected.map (fun c => c.remote.session) = some "t-1" ∧
      bound_end.2.window.tasks[2]? = some (.returned (.error "not accepted"))) ∧ WindowLaw bound_end.1 :=
  ⟨by decide, windows_are_steady opened_starts (exec_get bound_run)
    (List.all_eq_true.mp (by decide : (bound_end.1.all fun e => steady e.pre e.act) = true))⟩

/-- The window is connected, and is bound to a conversation while it is. -/
def rebound : List Event :=
  .act (.call .initial) :: connects 0 ++ .act (.call (.rebind "t-1" .RequestMeta)) :: steps 1 2

theorem rebound_run : (exec go opened_window rebound).isSome = true := by decide

/-- The run, and where it ends. -/
def rebound_end : List (Trans Sys Event) × Sys := (exec go opened_window rebound).get rebound_run

theorem rebound_length : rebound_end.1.length = 16 := exec_length rebound_run

/-- Its last step. -/
def staged_step : Trans Sys Event := rebound_end.1.get ⟨15, by rw [rebound_length]; omega⟩

/-- It says that it is the conversation's window, and speaks as another. -/
theorem window_misreports :
    staged_step ∈ rebound_end.1 ∧ staged_step.post.window.st.status.session = "t-1" ∧
      staged_step.post.window.st.connected.map (fun c => c.remote.session) = some "s-9f" :=
  ⟨List.get_mem _ _, by decide, by decide⟩

end CrewSync.Rebinding
