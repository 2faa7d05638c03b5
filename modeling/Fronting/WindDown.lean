import Fronting.Lifetimes

/-!
# The server left alone

When its clients and upstream fall silent, the server frees by itself what it holds: the
timeouts end every session, `Drop` stops the timers and streams, and each request that waits
for its session is answered. A session that is connecting ends when its attempt does, in
whichever way.
-/

namespace Fronting

open Function (update)

/-- What the server does when nothing comes in from outside but the end of each attempt to
connect: with an error, or with a connection that has these buffers. -/
def ServerEvent.own (ends : ActorRef → Option (Nat × Nat)) : ServerEvent → Bool
  | .tick _ | .askFailed _ | .reply _ | .dropAborts _ | .dropRemove _ | .pollAborted _
  | .actor _ .start | .actor _ .abort | .actor _ (.fire _) => true
  | .actor a .connectError => ends a = none
  | .actor a (.connect txCap rxCap) => ends a = some (txCap, rxCap)
  | _ => false

/-- Only the client can move the request, if anyone can. -/
def Handler.rests : Handler → Bool
  | .nextChunk _ | .done _ | .cancelled => true
  | _ => false

/-- How far an actor that has begun is from its end; the end of a connection attempt may set
another timer. -/
def Life.rank : Life → Nat
  | .starting => 5
  | .running | .stopping => 3
  | .closed => 2
  | .dropping => 1
  | .spawned | .failed | .dropped => 0

def ServerEnv.longestTimeout (env : ServerEnv) : Nat := max env.totalTimeout env.idleTimeout

namespace Session

variable {env : ServerEnv} {now : Nat} {A A' : Session} {L L' : TimerLog}

/-- An actor that never had a connection never had a stream. -/
theorem opened_of_reachable {s : Server} {a : ActorRef} (hs : (Server.machine env).Reachable s)
    (ha : s.actors a = some A) (hup : A.hasUpstream = false) : A.opened = [] := by
  refine Server.actor_invariant (I := fun A => A.hasUpstream = false → A.opened = [])
    (fun _ _ => rfl) ?_ hs ha hup
  intro A A' h hmove hup
  cases hmove with
  | own hstep =>
      cases Own.of_step hstep with
      | start hlife | connectError hlife => exact h (by simp [hasUpstream, hlife])
      | connect | connectKilled | close | abort => cases hup
      | _ => exact h hup
  | grant rest r hm hlife => simp [hasUpstream, hlife] at hup
  | writeErr | dropAborts | dropRemove => cases hup
  | _ => exact h hup

theorem deadlines_fire (A : Session) (i : Nat) :
    (A.timers.modify i fun t => { t with status := .fired }).map Timer.deadline = A.deadlines := by
  refine List.ext_getElem? fun k => ?_
  by_cases hik : i = k <;> simp [hik, Function.comp_def, deadlines]

theorem deadlines_dropAborts (A : Session) : A.dropAborts.deadlines = A.deadlines :=
  (deadlines_abortTimer (A.abortTimer A.totalTimeoutTask) A.idleTimeoutTask).trans
    (deadlines_abortTimer A A.totalTimeoutTask)

theorem deadlines_le (hmove : TimerMove env now A L A' L')
    (h : ∀ d ∈ A.deadlines, d ≤ now + env.longestTimeout) :
    ∀ d ∈ A'.deadlines, d ≤ now + env.longestTimeout := by
  have htotal : env.totalTimeout ≤ env.longestTimeout := le_max_left _ _
  have hidle : env.idleTimeout ≤ env.longestTimeout := le_max_right _ _
  have hreset : ∀ B : Session, B.deadlines = A.deadlines →
      ∀ d ∈ (B.resetIdleTimeout env now).deadlines, d ≤ now + env.longestTimeout := by
    intro B hB d hd
    rw [deadlines_reset, hB, List.mem_append, List.mem_singleton] at hd
    rcases hd with hd | rfl
    · exact h d hd
    · omega
  cases hmove with
  | frame htimers =>
      unfold deadlines at h ⊢
      rwa [htimers]
  | start =>
      intro d hd
      have hmem : d ∈ A.deadlines ∨ d = now + env.totalTimeout ∨ d = now + env.idleTimeout := by
        simpa [deadlines, onStart, actorTimeout, or_assoc] using hd
      rcases hmem with hd | rfl | rfl
      · exact h d hd
      · omega
      · omega
  | connect u | connectKilled u => exact hreset { A with life := .running, upstream := u } rfl
  | close => exact h
  | reset rest => exact hreset { A with mailbox := rest } rfl
  | fire i timer =>
      unfold deadlines
      rwa [deadlines_fire]
  | dropAborts => rwa [deadlines_dropAborts]

theorem countP_modify_le {α : Type*} {p : α → Bool} {f : α → α} (hf : ∀ x, p (f x) → p x)
    (l : List α) (i : Nat) : (l.modify i f).countP p ≤ l.countP p := by
  induction l generalizing i with
  | nil => simp
  | cons x l ih =>
      cases i with
      | zero =>
          have hx := hf x
          simp only [List.modify_zero_cons, List.countP_cons]
          split
          next hp => simp [hx hp]
          next => omega
      | succ i =>
          have hl := ih i
          simp only [List.modify_succ_cons, List.countP_cons]
          omega

theorem countP_modify_lt {α : Type*} {p : α → Bool} {f : α → α} {l : List α} {i : Nat} {x : α}
    (hx : l[i]? = some x) (hp : p x = true) (hf : p (f x) = false) :
    (l.modify i f).countP p < l.countP p := by
  induction l generalizing i with
  | nil => simp at hx
  | cons y l ih =>
      cases i with
      | zero =>
          obtain rfl : y = x := by simpa using hx
          simp [hp, hf]
      | succ i =>
          have hl := ih (by simpa using hx)
          simp only [List.modify_succ_cons, List.countP_cons]
          omega

/-- A bound on the steps that an actor is from its end, with a step for each armed timer. -/
def rank (A : Session) : Nat := Life.rank A.life + A.timers.countP (·.status = .armed)

theorem rank_fire {i : Nat} {timer : Timer} (htimer : A.timers[i]? = some timer)
    (harmed : timer.status = .armed) :
    ({ A with timers := A.timers.modify i fun t => { t with status := .fired }
              killed := true } : Session).rank < A.rank := by
  have hless : (A.timers.modify i fun t => { t with status := .fired }).countP
      (·.status = .armed) < A.timers.countP (·.status = .armed) :=
    countP_modify_lt htimer (by simpa using harmed) (by simp)
  exact Nat.add_lt_add_left hless _

theorem countP_abortTimer (A : Session) (task : Option Nat) :
    (A.abortTimer task).timers.countP (·.status = .armed) ≤
      A.timers.countP (·.status = .armed) := by
  cases task with
  | none => exact le_rfl
  | some i =>
      refine countP_modify_le (fun t ht => ?_) A.timers i
      by_contra hne
      simp only [decide_eq_true_eq] at ht hne
      rw [Timer.abort, if_neg hne] at ht
      exact hne ht

/-- A connection attempt that was killed ends with the session's idle timer set anew. -/
theorem rank_connectKilled (hlife : A.life = .starting) (u : Upstream) :
    ((A.connected env now u).closeMailbox .closed).rank < A.rank := by
  have hidle := countP_abortTimer A A.idleTimeoutTask
  have hrank : ((A.connected env now u).closeMailbox .closed).rank = 2 +
      ((A.abortTimer A.idleTimeoutTask).timers ++
        ([⟨now + env.idleTimeout, .armed⟩] : List Timer)).countP (·.status = .armed) := rfl
  rw [hrank, rank, hlife, Life.rank, List.countP_append]
  simp only [List.countP_singleton, decide_true, if_true]
  omega

theorem rank_closeMailbox {life : Life} (h : life.rank < A.life.rank) :
    (A.closeMailbox life).rank < A.rank :=
  Nat.add_lt_add_right h _

theorem rank_dropAborts (hlife : A.life = .closed) : A.dropAborts.rank < A.rank := by
  have htotal := countP_abortTimer A A.totalTimeoutTask
  have hidle := countP_abortTimer (A.abortTimer A.totalTimeoutTask) A.idleTimeoutTask
  have hrank : A.dropAborts.rank = 1 +
      ((A.abortTimer A.totalTimeoutTask).abortTimer A.idleTimeoutTask).timers.countP
        (·.status = .armed) := rfl
  rw [hrank, rank, hlife, Life.rank]
  omega

/-- The actor has begun, and its timers are due, those aside that `Drop` aborts. -/
def Due (A : Session) (now : Nat) : Prop :=
  A.life ≠ .spawned ∧ (A.isAlive ∨ A.life = .failed → ∀ d ∈ A.deadlines, d ≤ now)

theorem due_of_life {life : Life} (hlife : A.life = life) (hbegun : life ≠ .spawned)
    (hdead : life.mailboxOpen = false) (hbuilt : life ≠ .failed) : A.Due now := by
  subst hlife
  refine ⟨hbegun, fun hor => ?_⟩
  rcases hor with halive | hfailed
  · exact absurd (hdead.symm.trans halive) Bool.false_ne_true
  · exact absurd hfailed hbuilt

end Session

namespace Server

variable {env : ServerEnv} {ends : ActorRef → Option (Nat × Nat)} {s t : Server} {e : ServerEvent}
  {a : ActorRef} {A : Session} {r : ReqId} {R : Call} {st : ReadStream}

/-- No timer is set for longer than the longer of the two timeouts. -/
theorem deadlines_of_reachable (hs : (machine env).Reachable s) (ha : s.actors a = some A) :
    ∀ d ∈ A.deadlines, d ≤ s.now + env.longestTimeout := by
  refine hs.invariant (I := fun s => ∀ a A, s.actors a = some A →
    ∀ d ∈ A.deadlines, d ≤ s.now + env.longestTimeout) ?_ ?_ a A ha
  · intro a A ha
    simp [machine, init] at ha
  · intro s e t _ hI hstep b B' hB' d hd
    have hcases := Step.of_step hstep
    have hnow := hcases.now_le
    rcases hcases.move hB' with ⟨B, hB, _⟩ | ⟨x, rfl, _⟩
    · have hle := Session.deadlines_le (hcases.timerMove (L := .empty) hB hB') (hI b B hB) d hd
      omega
    · simp [Session.deadlines, Session.spawn] at hd

/-- The table does not name a session that has been dropped. -/
theorem no_entry_of_dropped (hs : (machine env).Reachable s) (ha : s.actors a = some A)
    (hlife : A.life = .dropped) (x : Uuid) : s.sessions x ≠ some a := by
  refine hs.invariant (I := fun s => ∀ a A, s.actors a = some A → A.life = .dropped →
    ∀ x, s.sessions x ≠ some a) ?_ ?_ a A ha hlife x
  · intro a A ha
    simp [machine, init] at ha
  · intro s e t hs hI hstep b B' hB' hdropped x hx
    have hcases := Step.of_step hstep
    rcases hcases.move hB' with ⟨B, hB, _⟩ | ⟨y, rfl, _⟩
    · rcases hcases.life hB hB' with hsame | hlife
      · exact hI b B hB (hsame.symm.trans hdropped) x (hcases.entry hB hx)
      · cases hlife with
        | own ev B' hown =>
            cases Session.Own.of_step hown with
            | start | connect | connectKilled | connectError | close | abort => cases hdropped
            | _ => exact hI b B hB hdropped x (hcases.entry hB hx)
        | writeErr | dropAborts => cases hdropped
        | dropRemove => exact hcases.dropRemove_entry (coherent_of_reachable hs) x hx
    · cases hdropped

theorem timed_of_reachable (hs : (machine env).Reachable s) (ha : s.actors a = some A) :
    ∃ L, Session.Timed env s.now A L := by
  obtain ⟨es, hrun⟩ := hs
  obtain ⟨H, hH⟩ := hrun.record (fun _ => TimerLog.empty) TimerLog.next
  have hreach : (clocked env).Reachable (s, H) := hH.reachable
  exact ⟨H a, (clocked_of_reachable hreach).timed a A ha⟩

/-- Every actor is due. -/
def Due (s : Server) : Prop := ∀ a A, s.actors a = some A → A.Due s.now

/-- A step that brings the actor closer to its end. -/
structure Shrinks (env : ServerEnv) (ends : ActorRef → Option (Nat × Nat)) (s : Server)
    (a : ActorRef) (A : Session) (e : ServerEvent) (t : Server) (B : Session) : Prop where
  own : e.own ends = true
  step : Server.step env s e = some t
  now : t.now = s.now
  actors : t.actors = update s.actors a (some B)
  rank : B.rank < A.rank
  due : B.Due s.now

theorem shrinks_own {ev : ActorEvent} {B : Session} (ha : s.actors a = some A)
    (hB : A.step env s.now ev = some B) (hown : ServerEvent.own ends (.actor a ev) = true)
    (hrank : B.rank < A.rank) (hdue : B.Due s.now) :
    Shrinks env ends s a A (.actor a ev) (s.setActor a B) B :=
  ⟨hown, by simp [Server.step, ha, hB], rfl, rfl, hrank, hdue⟩

theorem shrinks_fire {i : Nat} {timer : Timer} (ha : s.actors a = some A) (hdue : A.Due s.now)
    (hleft : A.isAlive ∨ A.life = .failed) (htimer : A.timers[i]? = some timer)
    (harmed : timer.status = .armed) : ∃ e t B, Shrinks env ends s a A e t B := by
  have hd : timer.deadline ≤ s.now :=
    hdue.2 hleft _ (List.mem_map_of_mem (List.mem_of_getElem? htimer))
  have hown : Session.Own env s.now A (.fire i) _ := .fire i timer htimer harmed hd
  refine ⟨_, _, _, shrinks_own ha hown.step_eq rfl (Session.rank_fire htimer harmed) ?_⟩
  refine ⟨hdue.1, fun _ d hmem => hdue.2 hleft d ?_⟩
  rwa [← Session.deadlines_fire A i]

/-- A connection attempt that was killed ends, and the actor with it. -/
theorem shrinks_attempt (ends : ActorRef → Option (Nat × Nat)) (ha : s.actors a = some A)
    (hdue : A.Due s.now) (hlife : A.life = .starting) (hkilled : A.killed) :
    ∃ e t B, Shrinks env ends s a A e t B := by
  cases hend : ends a with
  | none =>
      have hown : Session.Own env s.now A .connectError _ := .connectError hlife
      have hrank : (A.closeMailbox .failed).rank < A.rank :=
        Session.rank_closeMailbox (by simp [hlife, Life.rank])
      refine ⟨_, _, _, shrinks_own ha hown.step_eq (by simp [ServerEvent.own, hend]) hrank ?_⟩
      refine ⟨Life.noConfusion, fun _ => hdue.2 (.inl ?_)⟩
      simp [Session.isAlive, hlife, Life.mailboxOpen]
  | some caps =>
      have hown : Session.Own env s.now A (.connect caps.1 caps.2) _ :=
        .connectKilled caps.1 caps.2 hlife hkilled
      exact ⟨_, _, _, shrinks_own ha hown.step_eq (by simp [ServerEvent.own, hend])
        (Session.rank_connectKilled hlife _)
        (Session.due_of_life rfl Life.noConfusion rfl Life.noConfusion)⟩

/-- An actor that has not ended, or left a timer, comes closer to its end. -/
theorem exists_shrinks (ends : ActorRef → Option (Nat × Nat)) (hs : (machine env).Reachable s)
    (hdue : Due s) (ha : s.actors a = some A) (hleft : ¬ (A.ended ∧ ¬ A.armed)) :
    ∃ e t B, Shrinks env ends s a A e t B := by
  have hdueA := hdue a A ha
  have halive : A.isAlive → ∃ e t B, Shrinks env ends s a A e t B := by
    intro halive
    have hholding := Session.holding_of_alive halive hdueA.1
    obtain ⟨L, htimed⟩ := timed_of_reachable hs ha
    obtain ⟨idle, total, x, _, hx, htotal, _⟩ := htimed.held hholding
    have hpast := hdueA.2 (.inl halive) _ (List.mem_of_getElem? htotal)
    rcases htimed.due hholding hx hpast with hkilled | ⟨i, B, _, hB, _⟩
    · cases hlife : A.life with
      | starting => exact shrinks_attempt ends ha hdueA hlife hkilled
      | running | stopping =>
          have hown : Session.Own env s.now A .abort _ := .abort hkilled (by simp [hlife])
          have hrank : (A.closeMailbox .closed).rank < A.rank :=
            Session.rank_closeMailbox (by simp [hlife, Life.rank])
          exact ⟨_, _, _, shrinks_own ha hown.step_eq rfl hrank
            (Session.due_of_life rfl Life.noConfusion rfl Life.noConfusion)⟩
      | spawned => exact absurd hlife hdueA.1
      | _ => simp [Session.isAlive, hlife, Life.mailboxOpen] at halive
    · cases Session.Own.of_step hB with
      | fire i timer htimer harmed => exact shrinks_fire ha hdueA (.inl halive) htimer harmed
  cases hlife : A.life with
  | spawned => exact absurd hlife hdueA.1
  | starting | running | stopping =>
      exact halive (by simp [Session.isAlive, hlife, Life.mailboxOpen])
  | closed =>
      exact ⟨.dropAborts a, s.dropAbortsStep a A, A.dropAborts, rfl,
        by simp [Server.step, ha, hlife], dropAbortsStep_now, by simp,
        Session.rank_dropAborts hlife,
        Session.due_of_life rfl Life.noConfusion rfl Life.noConfusion⟩
  | dropping =>
      refine ⟨.dropRemove a, s.dropRemoveStep a A, { A with life := .dropped }, rfl,
        by simp [Server.step, ha, hlife], rfl, rfl, ?_,
        Session.due_of_life rfl Life.noConfusion rfl Life.noConfusion⟩
      exact Nat.add_lt_add_right (by simp [hlife, Life.rank]) _
  | failed =>
      have harmed : A.armed := by
        by_contra harmed
        exact hleft ⟨.inl hlife, harmed⟩
      obtain ⟨timer, hmem, hstatus⟩ := harmed
      obtain ⟨i, hi⟩ := List.getElem?_of_mem hmem
      exact shrinks_fire ha hdueA (.inr hlife) hi hstatus
  | dropped =>
      have hknown := Session.timersKnown_of_reachable hs ha
      exact absurd ⟨.inr hlife, Session.not_armed_of_closing hknown (.inr hlife)⟩ hleft

/-- What the server comes to by itself. -/
abbrev LeadsAlone (env : ServerEnv) (ends : ActorRef → Option (Nat × Nat)) (s t : Server) : Prop :=
  (machine env).Leads (fun e => e.own ends = true) s t

theorem leadsAlone_of_step (hown : e.own ends = true) (h : Server.step env s e = some t) :
    LeadsAlone env ends s t := .of_step hown h

theorem unknown_of_leadsAlone (h : LeadsAlone env ends s t) :
    (∀ r, s.calls r = none → t.calls r = none) ∧ ∀ a, s.actors a = none → t.actors a = none := by
  refine Machine.Leads.invariant (I := fun u => (∀ r, s.calls r = none → u.calls r = none) ∧
    ∀ a, s.actors a = none → u.actors a = none) ?_ h ⟨fun _ h => h, fun _ h => h⟩
  rintro u e v ⟨hcalls, hactors⟩ hown hstep
  have hrequest : ∀ r req fresh, e ≠ .request r req fresh := by
    rintro r req fresh rfl
    cases hown
  obtain ⟨hcalls', hactors'⟩ := (Step.of_step hstep).unknown hrequest
  exact ⟨fun r hr => hcalls' r (hcalls r hr), fun a ha => hactors' a (hactors a ha)⟩

/-- The actor, if there is one, has `P`. -/
def ActorHas (P : Session → Prop) (a : ActorRef) (s : Server) : Prop :=
  ∀ A, s.actors a = some A → P A

theorem actorHas_update {P : Session → Prop} {B : Session}
    (h : t.actors = update s.actors a (some B)) (hB : P B) :
    ActorHas P a t ∧ ∀ b, ActorHas P b s → ActorHas P b t := by
  have ha : ActorHas P a t := by
    intro A hA
    rw [h, Function.update_self] at hA
    obtain rfl := Option.some.inj hA
    exact hB
  refine ⟨ha, fun b hb A hA => ?_⟩
  by_cases hba : b = a
  · exact ha A (hba ▸ hA)
  · rw [h, Function.update_of_ne hba] at hA
    exact hb A hA

def Begun : ActorRef → Server → Prop := ActorHas fun A => A.life ≠ .spawned

/-- The actor has ended, and its timers are over. -/
def Spent : ActorRef → Server → Prop := ActorHas fun A => A.ended ∧ ¬ A.armed

theorem Shrinks.all_due {B : Session} (h : Shrinks env ends s a A e t B) (hdue : Due s) :
    Due t := by
  intro b B' hB'
  rw [h.actors] at hB'
  rw [h.now]
  by_cases hb : b = a
  · rw [hb, Function.update_self] at hB'
    exact Option.some.inj hB' ▸ h.due
  · rw [Function.update_of_ne hb] at hB'
    exact hdue b B' hB'

theorem exists_spent (ends : ActorRef → Option (Nat × Nat)) (hs : (machine env).Reachable s)
    (hdue : Due s) (a : ActorRef) : ∃ t, LeadsAlone env ends s t ∧
      ((machine env).Reachable t ∧ Due t ∧ t.now = s.now ∧
        ∀ b, b ≠ a → t.actors b = s.actors b) ∧ Spent a t := by
  refine Machine.Leads.of_measure (I := fun u => (machine env).Reachable u ∧ Due u ∧
    u.now = s.now ∧ ∀ b, b ≠ a → u.actors b = s.actors b)
    (fun u => (u.actors a).elim 0 Session.rank) ?_ ⟨hs, hdue, rfl, fun _ _ => rfl⟩
  rintro u ⟨hu, hdue, hnow, hothers⟩ hleft
  simp only [Spent, ActorHas, not_forall] at hleft
  obtain ⟨A, ha, hleft⟩ := hleft
  obtain ⟨e, t, B, h⟩ := exists_shrinks ends hu hdue ha hleft
  refine ⟨t, .of_step h.own h.step, ⟨hu.step h.step, h.all_due hdue, h.now.trans hnow, ?_⟩, ?_⟩
  · intro b hb
    rw [h.actors, Function.update_of_ne hb]
    exact hothers b hb
  · simp only [h.actors, Function.update_self, ha, Option.elim_some]
    exact h.rank

/-- What can be met for one actor after the other is met for all. -/
theorem forall_actors {I : Server → Prop} {Q : ActorRef → Server → Prop}
    (hreach : ∀ u, I u → (machine env).Reachable u)
    (hnone : ∀ a u, u.actors a = none → Q a u)
    (hmeet : ∀ a u, I u → ∃ t, LeadsAlone env ends u t ∧ I t ∧ Q a t ∧ ∀ b, Q b u → Q b t)
    (hs : I s) : ∃ t, LeadsAlone env ends s t ∧ I t ∧ ∀ a, Q a t := by
  obtain ⟨n, hn⟩ := exists_bound (hreach s hs)
  obtain ⟨t, hleads, ht, hall⟩ := Machine.Leads.forall_mem hmeet (List.range n) hs
  refine ⟨t, hleads, ht, fun a => ?_⟩
  by_cases hlt : a < n
  · exact hall a (List.mem_range.mpr hlt)
  · exact hnone a t ((unknown_of_leadsAlone hleads).2 a (hn a (Nat.le_of_not_lt hlt)).2)

/-- All actors begin. -/
theorem exists_begun (ends : ActorRef → Option (Nat × Nat)) (hs : (machine env).Reachable s) :
    ∃ t, LeadsAlone env ends s t ∧
    ((machine env).Reachable t ∧ t.now = s.now) ∧ ∀ a, Begun a t := by
  refine forall_actors (fun u hu => hu.1) ?_ ?_ ⟨hs, rfl⟩
  · intro a u hnone A ha
    exact absurd (hnone.symm.trans ha) (by simp)
  · rintro a u ⟨hu, hnow⟩
    by_cases hbegun : Begun a u
    · exact ⟨u, .refl _ u, ⟨hu, hnow⟩, hbegun, fun _ h => h⟩
    · simp only [Begun, ActorHas, not_forall, not_not] at hbegun
      obtain ⟨A, ha, hlife⟩ := hbegun
      have hstep : (machine env).step u (.actor a .start) =
          some (u.setActor a (A.onStart env u.now)) := by
        simp [machine, Server.step, ha, Session.step, hlife]
      exact ⟨_, .of_step rfl hstep, ⟨hu.step hstep, hnow⟩,
        actorHas_update (P := fun A => A.life ≠ .spawned) rfl (by simp [Session.onStart])⟩

/-- All actors end. -/
theorem exists_all_spent (ends : ActorRef → Option (Nat × Nat)) (hs : (machine env).Reachable s)
    (hdue : Due s) : ∃ t, LeadsAlone env ends s t ∧
      ((machine env).Reachable t ∧ Due t ∧ t.now = s.now) ∧ ∀ a, Spent a t := by
  refine forall_actors (fun u hu => hu.1) ?_ ?_ ⟨hs, hdue, rfl⟩
  · intro a u hnone A ha
    exact absurd (hnone.symm.trans ha) (by simp)
  · rintro a u ⟨hu, hdue, hnow⟩
    obtain ⟨t, hleads, ⟨ht, hdue', hnow', hothers⟩, hspent⟩ := exists_spent ends hu hdue a
    refine ⟨t, hleads, ⟨ht, hdue', hnow'.trans hnow⟩, hspent, fun b hb A hA => ?_⟩
    by_cases hba : b = a
    · exact hspent A (hba ▸ hA)
    · exact hb A (hothers b hba ▸ hA)

/-- The stream of the request is over. -/
def StreamOver (r : ReqId) (s : Server) : Prop :=
  ∀ st, s.streams r = some st → st.ended ∨ st.dropped

/-- Nothing but the client can move the request. -/
def Resting (r : ReqId) (s : Server) : Prop := ∀ R, s.calls r = some R → R.handler.rests = true

theorem exists_streamOver (ends : ActorRef → Option (Nat × Nat)) (hs : (machine env).Reachable s)
    (hspent : ∀ a, Spent a s) (r : ReqId) :
    ∃ t, LeadsAlone env ends s t ∧ t.now = s.now ∧ t.actors = s.actors ∧ StreamOver r t ∧
      ∀ q, StreamOver q s → StreamOver q t := by
  by_cases hover : StreamOver r s
  · exact ⟨s, .refl _ s, rfl, rfl, hover, fun _ h => h⟩
  · simp only [StreamOver, not_forall, not_or, Bool.not_eq_true] at hover
    obtain ⟨st, hst, hended, hdropped⟩ := hover
    obtain ⟨A, ha⟩ := (coherent_of_reachable hs).actor_of_stream hst
    have hclosing : A.closing := by
      rcases (hspent st.session A ha).1 with hlife | hlife
      · have hnone := Session.opened_of_reachable hs ha (by simp [Session.hasUpstream, hlife])
        have hmem := (download_of_reachable hs).listed hst ha
        rw [hnone] at hmem
        cases hmem
      · exact .inr hlife
    have hsilent := silenced_of_reachable hs r st A hst ha hclosing
    have haborted : st.aborted = true := by
      simpa [ReadStream.active, hended, hdropped] using hsilent
    have hstep : (machine env).step s (.pollAborted r) =
        some (s.setStream r { st with ended := true }) := by
      simp [machine, Server.step, hst, haborted, hended, hdropped]
    have hr : StreamOver r (s.setStream r { st with ended := true }) := by
      intro st' hst'
      obtain rfl : { st with ended := true } = st' := by simpa using hst'
      exact .inl rfl
    refine ⟨_, .of_step rfl hstep, rfl, rfl, hr, fun q hq st' hst' => ?_⟩
    by_cases hqr : q = r
    · exact hr st' (hqr ▸ hst')
    · exact hq st' (by simpa [hqr] using hst')

theorem resting_update {t : Server} {R' : Call} (h : t.calls = update s.calls r (some R'))
    (hrests : R'.handler.rests = true) : Resting r t ∧ ∀ q, Resting q s → Resting q t := by
  have hr : Resting r t := by
    intro R hR
    rw [h, Function.update_self] at hR
    obtain rfl := Option.some.inj hR
    exact hrests
  refine ⟨hr, fun q hq R hR => ?_⟩
  by_cases hqr : q = r
  · exact hr R (hqr ▸ hR)
  · rw [h, Function.update_of_ne hqr] at hR
    exact hq R hR

theorem exists_resting (ends : ActorRef → Option (Nat × Nat)) (hs : (machine env).Reachable s)
    (hspent : ∀ a, Spent a s) (r : ReqId) :
    ∃ t, LeadsAlone env ends s t ∧ t.now = s.now ∧ t.actors = s.actors ∧
      t.streams = s.streams ∧ Resting r t ∧ ∀ q, Resting q s → Resting q t := by
  by_cases hresting : Resting r s
  · exact ⟨s, .refl _ s, rfl, rfl, rfl, hresting, fun _ h => h⟩
  · simp only [Resting, not_forall, Bool.not_eq_true] at hresting
    obtain ⟨R, hR, hbusy⟩ := hresting
    have hfailed : ∀ err, askError R.handler = some err →
        ∃ t, LeadsAlone env ends s t ∧ t.now = s.now ∧ t.actors = s.actors ∧
          t.streams = s.streams ∧
          Resting r t ∧ ∀ q, Resting q s → Resting q t := by
      intro err herr
      obtain ⟨a, ha⟩ := Option.ne_none_iff_exists'.mp fun hnone : R.session = none => by
        obtain ⟨err', hdone⟩ := refused_of_reachable hs hR hnone
        rw [hdone] at herr
        cases herr
      obtain ⟨A, hA, _⟩ := (coherent_of_reachable hs).call hR ha
      have hdead : A.isAlive = false := by
        rcases (hspent a A hA).1 with hlife | hlife <;>
          simp [Session.isAlive, hlife, Life.mailboxOpen]
      have hstep : Step env s (.askFailed r) _ := .askFailed R a A err hR ha hA herr hdead
      have hleads : LeadsAlone env ends s _ := leadsAlone_of_step rfl (hstep.step_eq (by simp))
      exact ⟨_, hleads, rfl, rfl, rfl, resting_update rfl rfl⟩
    cases hh : R.handler with
    | sendWrite | awaitWrite | sendRead | awaitRead => exact hfailed _ (by rw [hh]; rfl)
    | wrote total data =>
        have hstep : Step env s (.reply r) _ := .replyWrote R total data hR hh
        have hleads : LeadsAlone env ends s _ := leadsAlone_of_step rfl (hstep.step_eq (by simp))
        exact ⟨_, hleads, rfl, rfl, rfl, resting_update rfl rfl⟩
    | readReply granted =>
        cases granted with
        | true =>
            have hstep : Step env s (.reply r) _ := .replyGranted R hR hh
            have hleads : LeadsAlone env ends s _ :=
              leadsAlone_of_step rfl (hstep.step_eq (by simp))
            exact ⟨_, hleads, rfl, rfl, rfl, resting_update rfl rfl⟩
        | false =>
            have hstep : Step env s (.reply r) _ := .replyRefused R hR hh
            have hleads : LeadsAlone env ends s _ :=
              leadsAlone_of_step rfl (hstep.step_eq (by simp))
            exact ⟨_, hleads, rfl, rfl, rfl, resting_update rfl rfl⟩
    | _ => simp [hh, Handler.rests] at hbusy

/-- The server holds nothing but the entries of sessions that failed to start, and requests
that are up to their clients. -/
structure WoundDown (s : Server) : Prop where
  actor : ∀ a A, s.actors a = some A → A.ended ∧ ¬ A.armed
  table : ∀ x a A, s.sessions x = some a → s.actors a = some A → A.life = .failed
  stream : ∀ r st, s.streams r = some st → st.ended ∨ st.dropped
  call : ∀ r R, s.calls r = some R → R.handler.rests = true

/-- All streams end. -/
theorem exists_all_streamOver (ends : ActorRef → Option (Nat × Nat))
    (hs : (machine env).Reachable s) (hspent : ∀ a, Spent a s) :
    ∃ t, LeadsAlone env ends s t ∧ ((machine env).Reachable t ∧ t.now = s.now ∧ ∀ a, Spent a t) ∧
      ∀ r, StreamOver r t := by
  obtain ⟨n, hn⟩ := exists_bound hs
  have hmeet : ∀ (r : ReqId) (u : Server),
      ((machine env).Reachable u ∧ u.now = s.now ∧ ∀ a, Spent a u) →
      ∃ t, LeadsAlone env ends u t ∧ ((machine env).Reachable t ∧ t.now = s.now ∧ ∀ a, Spent a t) ∧
        StreamOver r t ∧ ∀ q, StreamOver q u → StreamOver q t := by
    rintro r u ⟨hu, hnow, hspent⟩
    obtain ⟨t, hleads, hnow', hactors, hr, hkeep⟩ := exists_streamOver ends hu hspent r
    refine ⟨t, hleads, ⟨hu.leads hleads, hnow'.trans hnow, fun a A ha => ?_⟩, hr, hkeep⟩
    exact hspent a A (hactors ▸ ha)
  obtain ⟨t, hleads, ht, hall⟩ :=
    Machine.Leads.forall_mem hmeet (List.range n) ⟨hs, rfl, hspent⟩
  refine ⟨t, hleads, ht, fun r st hst => ?_⟩
  obtain ⟨R, hR, _⟩ := (coherent_of_reachable ht.1).stream hst
  by_cases hlt : r < n
  · exact hall r (List.mem_range.mpr hlt) st hst
  · have hnone := (unknown_of_leadsAlone hleads).1 r (hn r (Nat.le_of_not_lt hlt)).1
    exact absurd (hnone.symm.trans hR) (by simp)

/-- All requests that wait for their sessions go on. -/
theorem exists_all_resting (ends : ActorRef → Option (Nat × Nat)) (hs : (machine env).Reachable s)
    (hspent : ∀ a, Spent a s) (hover : ∀ r, StreamOver r s) :
    ∃ t, LeadsAlone env ends s t ∧ ((machine env).Reachable t ∧ t.now = s.now ∧ (∀ a, Spent a t) ∧
      ∀ r, StreamOver r t) ∧ ∀ r, Resting r t := by
  obtain ⟨n, hn⟩ := exists_bound hs
  have hmeet : ∀ (r : ReqId) (u : Server), ((machine env).Reachable u ∧ u.now = s.now ∧
        (∀ a, Spent a u) ∧ ∀ r, StreamOver r u) →
      ∃ t, LeadsAlone env ends u t ∧ ((machine env).Reachable t ∧ t.now = s.now ∧ (∀ a, Spent a t) ∧
        ∀ r, StreamOver r t) ∧ Resting r t ∧ ∀ q, Resting q u → Resting q t := by
    rintro r u ⟨hu, hnow, hspent, hover⟩
    obtain ⟨t, hleads, hnow', hactors, hstreams, hr, hkeep⟩ := exists_resting ends hu hspent r
    refine ⟨t, hleads, ⟨hu.leads hleads, hnow'.trans hnow, fun a A ha => ?_, fun q st hst => ?_⟩,
      hr, hkeep⟩
    · exact hspent a A (hactors ▸ ha)
    · exact hover q st (hstreams ▸ hst)
  obtain ⟨t, hleads, ht, hall⟩ :=
    Machine.Leads.forall_mem hmeet (List.range n) ⟨hs, rfl, hspent, hover⟩
  refine ⟨t, hleads, ht, fun r R hR => ?_⟩
  by_cases hlt : r < n
  · exact hall r (List.mem_range.mpr hlt) R hR
  · have hnone := (unknown_of_leadsAlone hleads).1 r (hn r (Nat.le_of_not_lt hlt)).1
    exact absurd (hnone.symm.trans hR) (by simp)

/-- Left alone, the server gets rid of all sessions within the longer of its timeouts, in
whichever way the attempts to connect end. -/
theorem winds_down (ends : ActorRef → Option (Nat × Nat)) (hs : (machine env).Reachable s) :
    ∃ t, LeadsAlone env ends s t ∧ WoundDown t ∧ t.now = s.now + env.longestTimeout := by
  obtain ⟨u, hbegin, ⟨hu, hnow⟩, hbegun⟩ := exists_begun ends hs
  have htick : LeadsAlone env ends u { u with now := u.now + env.longestTimeout } :=
    leadsAlone_of_step (e := .tick env.longestTimeout) rfl rfl
  have hdue : Due { u with now := u.now + env.longestTimeout } := fun a A ha =>
    ⟨hbegun a A ha, fun _ => deadlines_of_reachable hu ha⟩
  obtain ⟨v, hend, ⟨hv, _, hnow_v⟩, hspent⟩ := exists_all_spent ends (hu.leads htick) hdue
  obtain ⟨w, hstop, ⟨hw, hnow_w, hspent⟩, hover⟩ := exists_all_streamOver ends hv hspent
  obtain ⟨t, hgo, ⟨ht, hnow_t, hspent, hover⟩, hresting⟩ := exists_all_resting ends hw hspent hover
  have hnow_eq : t.now = s.now + env.longestTimeout := by
    rw [hnow_t, hnow_w, hnow_v, hnow]
  refine ⟨t, hbegin.trans (htick.trans (hend.trans (hstop.trans hgo))),
    ⟨hspent, fun x a A hx ha => ?_, hover, hresting⟩, hnow_eq⟩
  rcases (hspent a A ha).1 with hlife | hlife
  · exact hlife
  · exact absurd hx (no_entry_of_dropped ht ha hlife x)

/-- A read waits for upstream, and a write for room there. -/
def midway : List ServerEvent :=
  [.request 0 (sampleRequest .get) 0, .actor 0 .start, .actor 0 (.connect 1 8), .ask 0,
    .handle 0, .reply 0, .poll 0 .pending, .request 1 (sampleRequest .post) 1,
    .body 1 (.chunk [1, 2]), .ask 1, .handle 0, .actor 0 (.write 1)]

theorem midway_winds_down :
    ∃ s t, (machine sampleEnv).Run (fun _ _ => True) midway s ∧
      (s.actors 0).map (fun A => (A.life, A.handling)) = some (.running, some ⟨1, [1, 2], 1⟩) ∧
      (s.streams 0).map ReadStream.turn = some .reading ∧
      LeadsAlone sampleEnv (fun _ => none) s t ∧ WoundDown t ∧ t.now = 60 := by
  obtain ⟨s, hrun, hnow, hactor, hstream⟩ := Machine.exists_run (M := machine sampleEnv)
    (P := fun s => s.now = 0 ∧ (s.actors 0).map (fun A => (A.life, A.handling)) =
      some (.running, some ⟨1, [1, 2], 1⟩) ∧ (s.streams 0).map ReadStream.turn = some .reading)
    midway (by decide)
  obtain ⟨t, hleads, hwound, ht⟩ := winds_down (fun _ => none) hrun.reachable
  exact ⟨s, t, hrun, hactor, hstream, hleads, hwound, by rw [ht, hnow]; rfl⟩

end Server
end Fronting
