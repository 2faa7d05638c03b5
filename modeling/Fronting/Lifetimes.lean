import Mathlib.Data.List.Perm.Subperm
import Fronting.Timers

/-!
# How long a session lives

When the timers end and the kills take effect on time, a session is gone `total_timeout`
after the request that opened it, and `idle_timeout` after its idle timer was last set. So the
requests of the last `total_timeout` bound the sessions that are alive, and no request waits
longer for its session. The exception is a connection attempt that outlasts a timer: `kill`
does not interrupt it.
-/

namespace Fronting

open Function (update)

/-- When the requests, the actors and the waits began. -/
structure Visits where
  born : ActorRef → Nat
  /-- When the request arrived, or the last item of its body. -/
  since : ReqId → Nat
  /-- The requests that may open a session: when each arrived, and the actor for it. -/
  openers : List (Nat × ActorRef)

namespace Visits

def empty : Visits := ⟨fun _ => 0, fun _ => 0, []⟩

def next (p : Server × (ActorRef → TimerLog)) (e : ServerEvent) (v : Visits) : Visits :=
  match e with
  | .request r req fresh =>
    { born := update v.born fresh p.1.now, since := update v.since r p.1.now
      openers := if req.method = .get ∨ req.method = .post then v.openers ++ [(p.1.now, fresh)]
                 else v.openers }
  | .body r _ => { v with since := update v.since r p.1.now }
  | _ => v

end Visits

theorem TimerLog.next_tick (s : Server) (d : Nat) (H : ActorRef → TimerLog) :
    TimerLog.next s (.tick d) H = H := by
  funext a
  cases ha : s.actors a <;> simp [TimerLog.next, TimerLog.note, ha]

/-- The request waits for its session to take a message, or to answer it. -/
def Handler.waits (h : Handler) : Bool := (Server.askError h).isSome

namespace Session

variable {env : ServerEnv} {now x : Nat} {A A' : Session} {L L' : TimerLog}

/-- A timer has killed the actor, which goes on connecting. -/
def overdue (A : Session) : Bool := A.life = .starting ∧ A.killed

/-- Time may pass until `later`: the actor has begun, no kill is outstanding unless it waits
for a connection attempt, and no timer ends before. -/
structure Rests (A : Session) (later : Nat) : Prop where
  begun : A.life ≠ .spawned
  notKilled : A.killed → A.life = .starting
  timers : ∀ timer ∈ A.timers, timer.status = .armed → later ≤ timer.deadline

/-- An actor that was spawned at `x`. -/
structure Aged (env : ServerEnv) (now : Nat) (A : Session) (L : TimerLog) (x : Nat) : Prop where
  past : x ≤ now
  fresh : A.life = .spawned → x = now
  started : A.isAlive → A.life ≠ .spawned → L.started = some x
  total : A.isAlive → A.overdue = false → now ≤ x + env.totalTimeout
  idle : A.isAlive → A.overdue = false → now ≤ L.idleSet x + env.idleTimeout

theorem holding_of_alive (halive : A.isAlive) (hbegun : A.life ≠ .spawned) : A.holding := by
  unfold holding
  cases hlife : A.life <;> simp_all [isAlive, Life.mailboxOpen]

theorem begun_of_holding (h : A.holding) : A.life ≠ .spawned := by
  rcases h with h | h | h | h <;> simp [h]

theorem aged_spawn (now : Nat) (y : Uuid) (hL : L.built = none) :
    Aged env now (.spawn y) L now := by
  refine ⟨le_rfl, fun _ => rfl, fun _ hbegun => absurd rfl hbegun,
    fun _ _ => Nat.le_add_right now _, fun _ _ => ?_⟩
  rw [TimerLog.idleSet, hL, Option.elim_none]
  exact Nat.le_add_right now _

/-- A step that does not kill the actor ends its waiting only with the connection attempt. -/
theorem overdue_of_frame (hkilled : A'.killed = A.killed) (hup : A'.hasUpstream = A.hasUpstream)
    (hfresh : A'.life = .spawned → A.life = .spawned) (halive : A'.isAlive)
    (h : A'.overdue = false) : A.overdue = false := by
  by_contra hover
  simp only [overdue, Bool.not_eq_false, decide_eq_true_eq] at hover
  obtain ⟨hlife, hA⟩ := hover
  cases hlife' : A'.life with
  | spawned => exact absurd (hlife.symm.trans (hfresh hlife')) Life.noConfusion
  | starting => simp [overdue, hlife', hkilled, hA] at h
  | running | stopping => simp [hasUpstream, hlife, hlife'] at hup
  | closed | dropping | dropped | failed => simp [isAlive, hlife', Life.mailboxOpen] at halive

theorem Aged.move (h : Aged env now A L x) (ht : Timed env now A L)
    (hmove : TimerMove env now A L A' L') (halive : A'.isAlive → A.isAlive) :
    Aged env now A' L' x := by
  cases hmove with
  | frame htimers hidle htotal hkilled hup hfresh hholding hclosing =>
      have hover : A'.isAlive → A'.overdue = false → A.overdue = false :=
        overdue_of_frame hkilled hup hfresh
      refine ⟨h.past, fun hl => h.fresh (hfresh hl), fun ha hbegun => ?_,
        fun ha hnot => h.total (halive ha) (hover ha hnot),
        fun ha hnot => h.idle (halive ha) (hover ha hnot)⟩
      exact h.started (halive ha) (begun_of_holding (hholding (holding_of_alive ha hbegun)))
  | start hlife =>
      obtain rfl := h.fresh hlife
      have hnone := (ht.unbuilt (by simp [hasUpstream, hlife])).1
      refine ⟨h.past, fun hl => (by cases hl), fun _ _ => rfl, fun _ _ => Nat.le_add_right x _,
        fun _ _ => ?_⟩
      simp [TimerLog.idleSet, hnone]
  | connect u hlife hspared =>
      have hA : A.isAlive := by simp [isAlive, hlife, Life.mailboxOpen]
      have hnone := (ht.unbuilt (by simp [hasUpstream, hlife])).2
      refine ⟨h.past, fun hl => (by cases hl), fun _ _ => h.started hA (by simp [hlife]),
        fun _ _ => h.total hA (by simp [overdue, hspared]), fun _ _ => ?_⟩
      simp [TimerLog.idleSet, TimerLog.idleFrom, TimerLog.abort, hnone]
  | reset rest hlife =>
      have hA : A.isAlive := isAlive_of_running hlife
      obtain ⟨b, hb, _⟩ := ht.built (by simp [hasUpstream, hlife])
      refine ⟨h.past, fun hl => ?_, fun _ _ => h.started hA (by simp [hlife]),
        fun _ _ => h.total hA (by simp [overdue, hlife]), fun _ _ => ?_⟩
      · exact absurd (hlife.symm.trans hl) (by simp)
      · have hlast : now ≤ TimerLog.idleSet
            { L.abort A.idleTimeoutTask with resets := L.resets ++ [now] } x := by
          have hset : TimerLog.idleSet { L.abort A.idleTimeoutTask with
              resets := L.resets ++ [now] } x = max b now := by
            simp [TimerLog.idleSet, TimerLog.idleFrom, TimerLog.abort, hb]
          exact hset ▸ le_max_right b now
        exact hlast.trans (Nat.le_add_right _ _)
  | fire i timer htimer =>
      have hover : A.life ≠ .starting → A.overdue = false := fun hlife => by simp [overdue, hlife]
      refine ⟨h.past, h.fresh, h.started, fun ha hnot => h.total ha (hover ?_),
        fun ha hnot => h.idle ha (hover ?_)⟩
      · simpa [overdue] using hnot
      · simpa [overdue] using hnot
  | connectKilled | close | dropAborts =>
      exact ⟨h.past, fun hl => (by cases hl), fun ha => (by cases ha), fun ha => (by cases ha),
        fun ha => (by cases ha)⟩

/-- A timer that the session holds is armed while nobody has killed it. -/
theorem Timed.armed (h : Timed env now A L) (hkilled : A.killed = false) {k deadline : Nat}
    (hk : k ∉ L.aborts) (hdeadline : A.deadlines[k]? = some deadline) :
    ∃ timer ∈ A.timers, timer.status = .armed ∧ timer.deadline = deadline := by
  simp only [deadlines, List.getElem?_map, Option.map_eq_some_iff] at hdeadline
  obtain ⟨timer, htimer, hd⟩ := hdeadline
  have hexplained := h.explained k timer htimer
  refine ⟨timer, List.mem_of_getElem? htimer, ?_, hd⟩
  cases hstatus : timer.status with
  | armed => rfl
  | fired =>
      rw [hstatus] at hexplained
      exact absurd (hkilled.symm.trans hexplained) Bool.noConfusion
  | aborted =>
      rw [hstatus] at hexplained
      exact absurd hexplained hk

theorem Aged.pass {d : Nat} (h : Aged env now A L x) (ht : Timed env now A L)
    (hrests : A.isAlive → A.Rests (now + d)) : Aged env (now + d) A L x := by
  have hdeadline : A.isAlive → A.overdue = false → now + d ≤ x + env.totalTimeout ∧
      now + d ≤ L.idleSet x + env.idleTimeout := by
    intro ha hnot
    obtain ⟨hbegun, hstarting, htimers⟩ := hrests ha
    have hkilled : A.killed = false := by
      by_contra hkilled
      rw [Bool.not_eq_false] at hkilled
      simp [overdue, hkilled, hstarting hkilled] at hnot
    obtain ⟨idle, total, y, hstanding, hy, htotal, hidle⟩ := ht.held (holding_of_alive ha hbegun)
    obtain rfl : x = y := Option.some.inj ((h.started ha hbegun).symm.trans hy)
    obtain ⟨timer, hmem, harmed, hd⟩ :=
      ht.armed hkilled ((hstanding.only total).mpr (.inr rfl)).2 htotal
    refine ⟨hd ▸ htimers timer hmem harmed, ?_⟩
    obtain ⟨timer, hmem, harmed, hd⟩ :=
      ht.armed hkilled ((hstanding.only idle).mpr (.inl rfl)).2 hidle
    exact hd ▸ htimers timer hmem harmed
  refine ⟨h.past.trans (Nat.le_add_right now d), fun hl => ?_, h.started,
    fun ha hnot => (hdeadline ha hnot).1, fun ha hnot => (hdeadline ha hnot).2⟩
  exact absurd hl (hrests (by simp [isAlive, hl, Life.mailboxOpen])).begun

end Session

namespace Server

variable {env : ServerEnv} {s t : Server} {e : ServerEvent} {a : ActorRef} {A : Session}
  {r : ReqId} {R R' : Call} {H : ActorRef → TimerLog} {v : Visits} {es : List ServerEvent}

/-- Nothing that is due is put off: time passes when each session that is alive rests. -/
def Timely (s : Server) : ServerEvent → Prop
  | .tick d => 0 < d → ∀ a A, s.actors a = some A → A.isAlive → A.Rests (s.now + d)
  | _ => True

theorem dropAbortsStep_now : (s.dropAbortsStep a A).now = s.now := by
  unfold dropAbortsStep
  dsimp only
  split <;> [rfl; split] <;> rfl

theorem Step.time (h : Step env s e t) :
    t.now = s.now ∨ ∃ d, e = .tick d ∧ t = { s with now := s.now + d } := by
  cases h with
  | tick d => exact .inr ⟨d, rfl, rfl⟩
  | dropAborts => exact .inl dropAbortsStep_now
  | handleGranted | handleRefused | writeOk | writeErr => exact .inl (by rw [replyTo_now]; rfl)
  | _ => exact .inl rfl

/-- The server, with the times of its actors and requests on record. -/
def visited (env : ServerEnv) :
    Machine ((Server × (ActorRef → TimerLog)) × Visits) ServerEvent :=
  (clocked env).record .empty Visits.next

/-- What the record says of the actors and the requests. -/
structure Aging (env : ServerEnv) (s : Server) (H : ActorRef → TimerLog) (v : Visits) : Prop where
  actor : ∀ a A, s.actors a = some A → Session.Aged env s.now A (H a) (v.born a)
  opener : ∀ a A, s.actors a = some A → (v.born a, a) ∈ v.openers
  since : ∀ r R a, s.calls r = some R → R.session = some a →
    v.born a ≤ v.since r ∧ v.since r ≤ s.now

theorem Aging.init : Aging env Server.init (fun _ => .empty) .empty := by
  constructor <;> intros <;> simp_all [Server.init]

/-- Time passes. -/
theorem Aging.tick {d : Nat} (h : Aging env s H v) (hclocked : Clocked env s H)
    (htimely : Timely s (.tick d)) : Aging env { s with now := s.now + d } H v := by
  rcases Nat.eq_zero_or_pos d with rfl | hpos
  · exact h
  · refine ⟨fun a A ha => ?_, h.opener, fun r R a hR hsession => ?_⟩
    · exact (h.actor a A ha).pass (hclocked.timed a A ha) (htimely hpos a A ha)
    · obtain ⟨hborn, hsince⟩ := h.since r R a hR hsession
      exact ⟨hborn, hsince.trans (Nat.le_add_right _ d)⟩

/-- Something happens at the server. -/
theorem Aging.act (h : Aging env s H v) (hs : (machine env).Reachable s)
    (hclocked : Clocked env s H) (hstep : Server.step env s e = some t) (hnow : t.now = s.now) :
    Aging env t (TimerLog.next s e H) (Visits.next (s, H) e v) := by
  have hcases := Step.of_step hstep
  have hcoherent := coherent_of_reachable (hs.step hstep)
  have hborn : ∀ a A, s.actors a = some A → (Visits.next (s, H) e v).born a = v.born a := by
    intro a A ha
    cases e with
    | request q req fresh =>
        refine Function.update_of_ne ?_ _ _
        rintro rfl
        simp only [Server.step, Option.ite_none_right_eq_some] at hstep
        exact absurd (hstep.1.2.symm.trans ha) (by simp)
    | _ => rfl
  have hopener : ∀ {p}, p ∈ v.openers → p ∈ (Visits.next (s, H) e v).openers := by
    intro p hp
    cases e with
    | request q req fresh =>
        simp only [Visits.next]
        split
        · exact List.mem_append_left _ hp
        · exact hp
    | _ => exact hp
  have hactor : ∀ a A', t.actors a = some A' → Session.Aged env t.now A' (TimerLog.next s e H a)
      ((Visits.next (s, H) e v).born a) ∧
        ((Visits.next (s, H) e v).born a, a) ∈ (Visits.next (s, H) e v).openers := by
    intro a A' ha'
    rw [hnow]
    rcases hcases.move ha' with ⟨A, ha, hmove⟩ | ⟨y, rfl, hnew⟩
    · rw [hborn a A ha, TimerLog.next, ha, Option.elim_some]
      exact ⟨(h.actor a A ha).move (hclocked.timed a A ha) (hcases.timerMove ha ha') hmove.alive,
        hopener (h.opener a A ha)⟩
    · obtain ⟨q, req, rfl, _, hmethod⟩ := hnew.event
      have hbuilt := ((hclocked.step hstep).timed a _ ha').unbuilt rfl
      simp only [Visits.next, Function.update_self, hmethod, if_true]
      exact ⟨Session.aged_spawn s.now y hbuilt.1, by simp⟩
  have hsince : ∀ r R', t.calls r = some R' → (Visits.next (s, H) e v).since r = s.now ∨
      (Visits.next (s, H) e v).since r = v.since r ∧
        ∃ R, s.calls r = some R ∧ R'.session = R.session := by
    intro r R' hR'
    rcases hcases.call_cases hR' with ⟨R, hR, hgrows⟩ | ⟨_, req, fresh, rfl, _⟩
    · by_cases hbody : ∃ b, e = .body r b
      · obtain ⟨b, rfl⟩ := hbody
        exact .inl (Function.update_self ..)
      · refine .inr ⟨?_, R, hR, hgrows.session⟩
        cases e with
        | request q req fresh =>
            refine Function.update_of_ne ?_ _ _
            rintro rfl
            exact absurd (hcases.arrives.1.symm.trans hR) (by simp)
        | body q b =>
            refine Function.update_of_ne ?_ _ _
            rintro rfl
            exact hbody ⟨b, rfl⟩
        | _ => rfl
    · exact .inl (Function.update_self ..)
  refine ⟨fun a A ha => (hactor a A ha).1, fun a A ha => (hactor a A ha).2, ?_⟩
  intro r R' a hR' hsession
  obtain ⟨A, ha, _⟩ := hcoherent.call hR' hsession
  rcases hsince r R' hR' with hsame | ⟨hsame, R, hR, hold⟩
  · rw [hsame, ← hnow]
    exact ⟨(hactor a A ha).1.past, le_rfl⟩
  · have hsession' := hold.symm.trans hsession
    obtain ⟨B, hB, _⟩ := (coherent_of_reachable hs).call hR hsession'
    rw [hsame, hnow, hborn a B hB]
    exact h.since r R a hR hsession'

variable {p : (Server × (ActorRef → TimerLog)) × Visits}

theorem aging_of_run (h : (visited env).Run (fun p e => Timely p.1.1 e) es p) :
    Aging env p.1.1 p.1.2 p.2 := by
  have hrun : ((clocked env).record Visits.empty Visits.next).Run
      (fun p e => Timely p.1.1 e) es p := h
  refine Machine.Run.record_invariant (M := clocked env) (C := fun q e => Timely q.1 e)
    (I := fun q v => Aging env q.1 q.2 v) hrun .init ?_
  rintro ⟨s, H⟩ e ⟨t, K⟩ v hq hI htimely hstep
  obtain ⟨hstep, rfl⟩ := Machine.record_step hstep
  have hs : (machine env).Reachable s := hq.of_record
  have hclocked := clocked_of_reachable hq
  rcases (Step.of_step hstep).time with hnow | ⟨d, rfl, rfl⟩
  · exact hI.act hs hclocked hstep hnow
  · dsimp only
    rw [TimerLog.next_tick]
    exact hI.tick hclocked htimely

/-- When nothing that is due is put off, a session that is alive was opened at most
`total_timeout` ago, and its idle timer was last set at most `idle_timeout` ago, unless its
connection attempt has outlasted one of the two. -/
theorem lifetimes (h : (visited env).Run (fun p e => Timely p.1.1 e) es p)
    (ha : p.1.1.actors a = some A) (halive : A.isAlive) (hover : A.overdue = false) :
    p.1.1.now ≤ p.2.born a + env.totalTimeout ∧
      p.1.1.now ≤ (p.1.2 a).idleSet (p.2.born a) + env.idleTimeout := by
  have haged := (aging_of_run h).actor a A ha
  exact ⟨haged.total halive hover, haged.idle halive hover⟩

/-- A `GET` request waits for its session from 0 on. -/
def heldUp : List ServerEvent :=
  [.request 0 (sampleRequest .get) 0, .actor 0 .start, .actor 0 (.connect 8 8), .ask 0]

theorem heldUp_timely : ∃ p, (visited sampleEnv).Run (fun p e => Timely p.1.1 e)
    (heldUp ++ [.tick 20]) p ∧ p.1.1.now = 20 ∧ p.2.born 0 = 0 ∧ p.2.since 0 = 0 ∧
    p.2.openers = [(0, 0)] ∧ (p.1.2 0).built = some 0 ∧
    (∃ A, p.1.1.actors 0 = some A ∧ A.isAlive = true ∧ A.overdue = false) ∧
    ∃ R, p.1.1.calls 0 = some R ∧ R.session = some 0 ∧ R.handler.waits = true := by
  obtain ⟨⟨⟨s, H⟩, v⟩, hrun, hnow, hborn, hsince, hopeners, hbuilt, hcall, hactor⟩ :=
    Machine.exists_run (M := visited sampleEnv)
      (P := fun p => p.1.1.now = 0 ∧ p.2.born 0 = 0 ∧ p.2.since 0 = 0 ∧ p.2.openers = [(0, 0)] ∧
        (p.1.2 0).built = some 0 ∧
        (p.1.1.calls 0).any (fun R => decide (R.session = some 0 ∧ R.handler.waits)) = true ∧
        (p.1.1.actors 0).any (fun A => decide (A.isAlive ∧ A.life ≠ .spawned ∧ A.killed = false ∧
          ∀ timer ∈ A.timers, timer.status = .armed → 20 ≤ timer.deadline)) = true)
      heldUp (by decide +kernel)
  obtain ⟨R, hR, hcall⟩ := (Option.any_eq_true _ _).mp hcall
  obtain ⟨hsession, hwaits⟩ := of_decide_eq_true hcall
  obtain ⟨A, hA, hfacts⟩ := (Option.any_eq_true _ _).mp hactor
  obtain ⟨halive, hbegun, hkilled, htimers⟩ := of_decide_eq_true hfacts
  have htimely : (visited sampleEnv).Run (fun p e => Timely p.1.1 e) heldUp ((s, H), v) :=
    hrun.of_forall fun p e he => by
      simp only [heldUp, List.mem_cons, List.not_mem_nil, or_false] at he
      rcases he with rfl | rfl | rfl | rfl <;> trivial
  have honly : ∀ a B, s.actors a = some B → B = A := by
    intro a B hB
    have hopener := (aging_of_run htimely).opener a B hB
    rw [hopeners, List.mem_singleton, Prod.mk.injEq] at hopener
    obtain rfl := hopener.2
    exact Option.some.inj (hB.symm.trans hA)
  have hrests : ∀ a B, s.actors a = some B → B.isAlive → B.Rests (s.now + 20) := by
    intro a B hB _
    rw [honly a B hB, hnow]
    exact ⟨hbegun, fun hbad => absurd (hkilled.symm.trans hbad) Bool.false_ne_true, htimers⟩
  have htick : (visited sampleEnv).Run (fun p e => Timely p.1.1 e) (heldUp ++ [.tick 20])
      (({ s with now := s.now + 20 }, TimerLog.next s (.tick 20) H), v) :=
    htimely.snoc (fun _ : 0 < 20 => hrests) rfl
  rw [TimerLog.next_tick] at htick
  exact ⟨_, htick, congrArg (· + 20) hnow, hborn, hsince, hopeners, hbuilt,
    ⟨A, hA, halive, by simp [Session.overdue, hkilled]⟩, R, hR, hsession, hwaits⟩

theorem heldUp_lifetimes : ∃ p A, (visited sampleEnv).Run (fun p e => Timely p.1.1 e)
    (heldUp ++ [.tick 20]) p ∧ p.1.1.now = 20 ∧ p.1.1.actors 0 = some A ∧ A.isAlive = true ∧
    (p.1.2 0).built = some 0 ∧ p.1.1.now ≤ p.2.born 0 + 60 ∧
    p.1.1.now ≤ (p.1.2 0).idleSet (p.2.born 0) + 30 := by
  obtain ⟨p, hrun, hnow, _, _, _, hbuilt, ⟨A, hA, halive, hover⟩, _⟩ := heldUp_timely
  obtain ⟨htotal, hidle⟩ := lifetimes hrun hA halive hover
  exact ⟨p, A, hrun, hnow, hA, halive, hbuilt, htotal, hidle⟩

/-- There are never more sessions alive than `GET` and `POST` requests have arrived in the
last `total_timeout`, those aside whose connection attempt has outlasted a timer. -/
theorem live_le_openers (h : (visited env).Run (fun p e => Timely p.1.1 e) es p)
    {as : List ActorRef} (hnodup : as.Nodup)
    (halive : ∀ a ∈ as, ∃ A, p.1.1.actors a = some A ∧ A.isAlive ∧ A.overdue = false) :
    as.length ≤ (p.2.openers.filter fun k => p.1.1.now ≤ k.1 + env.totalTimeout).length := by
  have haging := aging_of_run h
  have hsub : as ⊆ (p.2.openers.filter fun k => p.1.1.now ≤ k.1 + env.totalTimeout).map
      Prod.snd := by
    intro a ha
    obtain ⟨A, hA, hlive, hover⟩ := halive a ha
    refine List.mem_map.mpr ⟨(p.2.born a, a), List.mem_filter.mpr ⟨haging.opener a A hA, ?_⟩, rfl⟩
    exact decide_eq_true ((haging.actor a A hA).total hlive hover)
  have hlength := (List.subperm_of_subset hnodup hsub).length_le
  rwa [List.length_map] at hlength

theorem heldUp_live : ∃ p, (visited sampleEnv).Run (fun p e => Timely p.1.1 e)
    (heldUp ++ [.tick 20]) p ∧ p.1.1.isAlive 0 = true ∧
    [0].length ≤ (p.2.openers.filter fun k => p.1.1.now ≤ k.1 + 60).length := by
  obtain ⟨p, hrun, _, _, _, _, _, ⟨A, hA, halive, hover⟩, _⟩ := heldUp_timely
  have hlive : p.1.1.isAlive 0 = true := by
    rw [isAlive, hA, Option.any_some, halive]
  have hnodup : ([0] : List ActorRef).Nodup := by simp
  refine ⟨p, hrun, hlive, live_le_openers hrun hnodup fun a ha => ?_⟩
  obtain rfl : a = 0 := by simpa using ha
  exact ⟨A, hA, halive, hover⟩

/-- The end of a session releases the requests that wait for it. -/
theorem released_of_dead (hr : s.calls r = some R) (hsession : R.session = some a)
    (ha : s.actors a = some A) (hwaits : R.handler.waits = true) (hdead : A.isAlive = false) :
    ∃ t R', step env s (.askFailed r) = some t ∧ t.calls r = some R' ∧
      R'.response = some ⟨.badRequest, []⟩ := by
  obtain ⟨err, herr⟩ := Option.isSome_iff_exists.mp hwaits
  have hfailed : Step env s (.askFailed r) _ := .askFailed R a A err hr hsession ha herr hdead
  have hcode : err.code = .badRequest := by
    cases hh : R.handler <;> simp only [askError, hh, reduceCtorEq, Option.some.injEq] at herr <;>
      exact herr ▸ rfl
  refine ⟨_, _, hfailed.step_eq (by simp), Function.update_self .., ?_⟩
  exact congrArg (fun code => some (⟨code, []⟩ : Response)) hcode

/-- A request waits at most `total_timeout` for a session that is alive, if the session does not
wait for its connection attempt past a timer, and is answered once its session has ended. -/
theorem waits_le (h : (visited env).Run (fun p e => Timely p.1.1 e) es p)
    (hr : p.1.1.calls r = some R) (hwaits : R.handler.waits = true) :
    ∃ a A, R.session = some a ∧ p.1.1.actors a = some A ∧
      (A.isAlive → A.overdue = false → p.1.1.now ≤ p.2.since r + env.totalTimeout) ∧
      (A.isAlive = false → ∃ t R', step env p.1.1 (.askFailed r) = some t ∧
        t.calls r = some R' ∧ R'.response = some ⟨.badRequest, []⟩) := by
  have hs : (machine env).Reachable p.1.1 := h.reachable.of_record.of_record
  obtain ⟨a, ha⟩ := Option.ne_none_iff_exists'.mp fun hnone : R.session = none => by
    obtain ⟨err, herr⟩ := refused_of_reachable hs hr hnone
    rw [herr] at hwaits
    cases hwaits
  obtain ⟨A, hA, _⟩ := (coherent_of_reachable hs).call hr ha
  have haging := aging_of_run h
  refine ⟨a, A, ha, hA, fun halive hover => ?_, released_of_dead hr ha hA hwaits⟩
  have htotal := (haging.actor a A hA).total halive hover
  exact htotal.trans (Nat.add_le_add_right (haging.since r R a hr ha).1 _)

theorem heldUp_waits : ∃ p R, (visited sampleEnv).Run (fun p e => Timely p.1.1 e)
    (heldUp ++ [.tick 20]) p ∧ p.1.1.now = 20 ∧ p.1.1.calls 0 = some R ∧
    R.handler.waits = true ∧ p.1.1.now ≤ p.2.since 0 + 60 := by
  obtain ⟨p, hrun, hnow, _, _, _, _, ⟨A, hA, halive, hover⟩, R, hR, hsession, hwaits⟩ :=
    heldUp_timely
  obtain ⟨a, B, ha, hB, hle, _⟩ := waits_le hrun hR hwaits
  obtain rfl : 0 = a := Option.some.inj (hsession.symm.trans ha)
  obtain rfl : A = B := Option.some.inj (hA.symm.trans hB)
  exact ⟨p, R, hrun, hnow, hR, hwaits, hle halive hover⟩

end Server
end Fronting
