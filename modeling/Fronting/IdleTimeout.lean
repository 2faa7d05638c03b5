import Fronting.Cancellation
import Fronting.Leftovers

/-!
# What the idle timeout means

Activity does not reset the idle timer itself: it sends the actor a message to do so. While
that message is on its way the timer still counts from an older activity, and a write that
finds the mailbox full sends none. `KeepsReset` says what a run has to avoid.
-/

namespace Fronting

open Function (update update_self)

namespace Session

variable {env : ServerEnv} {now : Nat} {A A' : Session} {e : ActorEvent}

/-- When the idle timer kills the session. -/
def idleDeadline (A : Session) : Option Nat :=
  A.idleTimeoutTask.bind fun i => A.timers[i]?.map Timer.deadline

theorem idleDeadline_resetIdleTimeout (env : ServerEnv) (now : Nat) (A : Session) :
    (A.resetIdleTimeout env now).idleDeadline = some (now + env.idleTimeout) := by
  simp [idleDeadline, resetIdleTimeout, actorTimeout]

/-- A live session keeps the idle timer and the resets in its mailbox, or the timer has just
been set. -/
def ResetKept (env : ServerEnv) (now : Nat) (A A' : Session) : Prop :=
  A'.isAlive → A'.idleDeadline = some (now + env.idleTimeout) ∨
    A'.idleDeadline = A.idleDeadline ∧
      (.resetIdleTimeout ∈ A.mailbox → .resetIdleTimeout ∈ A'.mailbox)

theorem ResetKept.refl (A : Session) : ResetKept env now A A := fun _ => .inr ⟨rfl, id⟩

theorem ResetKept.of_dead (hdead : A'.isAlive = false) : ResetKept env now A A' :=
  fun halive => absurd (hdead.symm.trans halive) Bool.false_ne_true

/-- The actor takes another message than a reset. -/
theorem ResetKept.rest {m : Message} {rest : List Message} (hm : A.mailbox = m :: rest)
    (hne : m ≠ .resetIdleTimeout) (hidle : A'.idleDeadline = A.idleDeadline)
    (hrest : A'.mailbox = rest) : ResetKept env now A A' := by
  refine fun _ => .inr ⟨hidle, fun hreset => ?_⟩
  rw [hm] at hreset
  rw [hrest]
  exact (List.mem_cons.mp hreset).resolve_left hne.symm

theorem ResetKept.step (h : A.step env now e = some A') : ResetKept env now A A' := by
  cases Own.of_step h with
  | start hlife =>
      intro _
      exact .inl (by simp [idleDeadline, onStart, actorTimeout])
  | connect txCap rxCap hlife =>
      intro _
      exact .inl (idleDeadline_resetIdleTimeout env now _)
  | connectKilled | connectError | close | abort => exact .of_dead rfl
  | fire i =>
      refine fun _ => .inr ⟨?_, id⟩
      unfold idleDeadline
      congr 1
      funext j
      simp only [List.getElem?_modify, Option.map_eq_map, Option.map_map]
      congr 1
      funext timer
      by_cases hij : i = j <;> simp [hij]
  | _ => exact .refl A

end Session

namespace Server

variable {env : ServerEnv} {s t : Server} {e : ServerEvent} {a b : ActorRef} {A A' B B' : Session}
  {r : ReqId} {st : ReadStream}

theorem resetKept_setActor (ha : s.actors a = some A) (hb : s.actors b = some B)
    (hB' : update s.actors a (some A') b = some B') (hA : Session.ResetKept env s.now A A') :
    Session.ResetKept env s.now B B' := by
  rcases cases_update ha hb hB' with ⟨_, rfl, rfl⟩ | ⟨_, rfl⟩
  · exact hA
  · exact .refl B'

theorem Step.resetKept (h : Step env s e t) (hb : s.actors b = some B)
    (hB' : t.actors b = some B') : Session.ResetKept env s.now B B' := by
  have henqueue : ∀ A m, Session.ResetKept env s.now A (A.enqueue m) := fun A m _ =>
    .inr ⟨rfl, fun hreset => List.mem_append_left _ hreset⟩
  cases h with
  | create x hr hfresh | replace x d hr hfresh =>
      obtain rfl : B' = B := Option.some.inj (hB'.symm.trans (newSession_kept x hfresh hb))
      exact .refl B'
  | askWrite R a A total data hr hR ha =>
      exact resetKept_setActor ha hb hB' (henqueue A _)
  | askRead R a A hr hR ha => exact resetKept_setActor ha hb hB' (henqueue A _)
  | actor A A' ha hA => exact resetKept_setActor ha hb hB' (.step hA)
  | handleGranted A rest r ha hm | handleRefused A rest r q ha hm =>
      rw [replyTo_actors] at hB'
      exact resetKept_setActor ha hb hB' (.rest hm (by simp) rfl rfl)
  | handleWrite A rest r bytes ha hm =>
      exact resetKept_setActor ha hb hB' (.rest hm (by simp) rfl rfl)
  | handleReset A rest ha =>
      refine resetKept_setActor ha hb hB' fun _ => .inl ?_
      exact Session.idleDeadline_resetIdleTimeout env s.now _
  | writeOk A w ha =>
      rw [replyTo_actors] at hB'
      refine resetKept_setActor ha hb hB' fun _ => .inr ⟨rfl, fun hreset => ?_⟩
      rcases Session.mailbox_writeOk env A w with he | he
      · rwa [he]
      · rw [he]
        exact List.mem_append_left _ hreset
  | writeErr A w ha =>
      rw [replyTo_actors] at hB'
      exact resetKept_setActor ha hb hB' fun _ => .inr ⟨rfl, id⟩
  | dropAborts A ha =>
      rw [dropAbortsStep_actors] at hB'
      exact resetKept_setActor ha hb hB' (.of_dead rfl)
  | dropRemove A ha => exact resetKept_setActor ha hb hB' (.of_dead rfl)
  | pollEnd st R A hst hr ha | pollData st R A hst hr ha | dropStream st A hst ha =>
      exact resetKept_setActor ha hb hB' fun _ => .inr ⟨rfl, id⟩
  | tellSent st A bytes hst ha => exact resetKept_setActor ha hb hB' (henqueue A _)
  | _ =>
      obtain rfl : B' = B := Option.some.inj (hB'.symm.trans hb)
      exact .refl B'

/-- A reset that the actor has yet to handle is in its mailbox, or a stream is about to send
it. -/
def ResetPending (s : Server) (a : ActorRef) (A : Session) : Prop :=
  .resetIdleTimeout ∈ A.mailbox ∨
    ∃ r st, s.streams r = some st ∧ st.session = a ∧ st.active ∧ st.inHand ≠ []

/-- What a write reports gets into the mailbox, no stream is dropped with a report to make,
and an idle timer that fires has none ahead of it. -/
def KeepsReset (env : ServerEnv) (s : Server) : ServerEvent → Prop
  | .writeOk a => ∀ A w, s.actors a = some A → A.handling = some w → w.bytes ≠ [] →
      A.mailbox.length < env.mailboxCapacity ∨ s.ResetPending a A
  | .dropStream r => ∀ st A, s.streams r = some st → s.actors st.session = some A → A.isAlive →
      st.inHand ≠ [] → .resetIdleTimeout ∈ A.mailbox
  | .actor a (.fire i) => ∀ A, s.actors a = some A → A.isAlive → A.totalTimeoutTask ≠ some i →
      ¬ s.ResetPending a A
  | _ => True

/-- The report of a stream in hand stays on its way. -/
theorem resetPending_of_inHand (hs : (machine env).Reachable s) (hkeeps : KeepsReset env s e)
    (hstep : Server.step env s e = some t) (hst : s.streams r = some st)
    (hA : s.actors st.session = some A) (hB : t.actors st.session = some B) (halive : B.isAlive)
    (hactive : st.active) (hne : st.inHand ≠ [])
    (hmail : .resetIdleTimeout ∈ A.mailbox → .resetIdleTimeout ∈ B.mailbox) :
    t.ResetPending st.session B := by
  have ht : (machine env).Reachable t := hs.step hstep
  have hcases := Step.of_step hstep
  have hcoherent := coherent_of_reachable hs
  obtain ⟨st', hst', hgrows⟩ := hcases.stream_grows hcoherent hst
  rcases hcases.stream hcoherent hst' with ⟨st₀, hst₀, hmove⟩ | ⟨hnone, _⟩
  · obtain rfl : st = st₀ := Option.some.inj (hst.symm.trans hst₀)
    cases hmove with
    | stay => exact .inr ⟨r, st, hst', rfl, hactive, hne⟩
    | wait _ hturn | data _ _ _ hturn | finish _ _ hturn =>
        exact absurd (inHand_of_betweenReads hturn) hne
    | yield bytes =>
        cases hcases with
        | tellSent u A' bytes' hu hA' =>
            obtain rfl : st = u := Option.some.inj (hst.symm.trans hu)
            obtain rfl : A'.enqueue .resetIdleTimeout = B := by simpa using hB
            exact .inl (by simp [Session.enqueue])
        | tellSkipped u A' bytes' hu hA' _ _ hdead =>
            obtain rfl : st = u := Option.some.inj (hst.symm.trans hu)
            obtain rfl : A' = B := Option.some.inj (hA'.symm.trans hB)
            exact absurd (hdead.symm.trans halive) Bool.false_ne_true
    | abort =>
        have hclosing := (download_of_reachable ht).aborted hst' hB rfl
        exact absurd ((not_alive_of_closing hclosing).symm.trans halive) Bool.false_ne_true
    | stop habort =>
        simp [ReadStream.active, habort] at hactive
    | drop =>
        have halive' := (move_of_step hA hstep hB).alive halive
        exact .inl (hmail (hkeeps st A hst hA halive' hne))
  · exact absurd (hnone.symm.trans hst) (by simp)

/-- A reset on its way stays there until it sets the timer. -/
theorem ResetPending.step (h : s.ResetPending a A) (hs : (machine env).Reachable s)
    (hkeeps : KeepsReset env s e) (hstep : Server.step env s e = some t)
    (hA : s.actors a = some A) (hB : t.actors a = some B) (halive : B.isAlive) :
    t.ResetPending a B ∨ B.idleDeadline = some (s.now + env.idleTimeout) := by
  rcases (Step.of_step hstep).resetKept hA hB halive with hnew | ⟨_, hmail⟩
  · exact .inr hnew
  · left
    rcases h with hmem | ⟨r, st, hst, rfl, hactive, hne⟩
    · exact .inl (hmail hmem)
    · exact resetPending_of_inHand hs hkeeps hstep hst hA hB halive hactive hne hmail

/-- The session that completes a write of bytes, or whose upstream bytes are read from. -/
def activeSession (s : Server) : ServerEvent → Option ActorRef
  | .writeOk a =>
    if (s.actors a).any fun A => A.handling.any fun w => w.bytes ≠ [] then some a else none
  | .poll r (.data _) => (s.streams r).map ReadStream.session
  | _ => none

/-- The live session that is killed by another timer than that of its total timeout. -/
def idleKilled (s : Server) : ServerEvent → Option ActorRef
  | .actor a (.fire i) =>
    if (s.actors a).any fun A => A.isAlive ∧ A.totalTimeoutTask ≠ some i then some a else none
  | _ => none

/-- Activity leaves a reset on its way. -/
theorem resetPending_of_active (hs : (machine env).Reachable s) (hkeeps : KeepsReset env s e)
    (hstep : Server.step env s e = some t) (hactive : s.activeSession e = some a)
    (hB : t.actors a = some B) (halive : B.isAlive) :
    t.ResetPending a B ∨ B.idleDeadline = some (s.now + env.idleTimeout) := by
  cases e with
  | writeOk b =>
      simp only [activeSession, Option.ite_none_right_eq_some, Option.some.injEq,
        Option.any_eq_true, decide_eq_true_eq] at hactive
      obtain ⟨⟨A, hA, w, hw, hne⟩, rfl⟩ := hactive
      rcases hkeeps A w hA hw hne with hroom | hpending
      · cases Step.of_step hstep with
        | writeOk A' w' hA' hw' =>
            obtain rfl : A = A' := Option.some.inj (hA.symm.trans hA')
            rw [replyTo_actors, setActor_actors, update_self] at hB
            obtain rfl : A.writeOk env w' = B := Option.some.inj hB
            exact .inl (.inl (by simp [Session.writeOk, Session.tryResetIdleTimeout, hroom]))
      · exact hpending.step hs hkeeps hstep hA hB halive
  | poll r res =>
      cases res with
      | data n =>
          obtain ⟨st, hst, rfl⟩ := Option.map_eq_some_iff.mp hactive
          cases Step.of_step hstep with
          | pollEnd u R A hu hr hA hopen hresp hturn hres => simp at hres
          | pollData u R A hu hr hA hopen hresp hturn hpos hcap hlen =>
              obtain rfl : st = u := Option.some.inj (hst.symm.trans hu)
              refine .inl (.inr ⟨r, _, update_self .., rfl, hopen, ?_⟩)
              change A.upstream.rx.take n ≠ []
              rw [← List.length_pos_iff, List.length_take]
              omega
      | _ => cases hactive
  | _ => cases hactive

structure IdleKill where
  session : ActorRef
  time : Nat
  /-- When the session had been active. -/
  active : List Nat
deriving DecidableEq

/-- When each session was active, and the sessions that were killed for being idle. -/
structure IdleHistory where
  active : ActorRef → List Nat
  kills : List IdleKill

def IdleHistory.next (s : Server) (e : ServerEvent) (H : IdleHistory) : IdleHistory where
  active a := if s.activeSession e = some a then H.active a ++ [s.now] else H.active a
  kills :=
    match s.idleKilled e with
    | some a => H.kills ++ [⟨a, s.now, H.active a⟩]
    | none => H.kills

/-- The server, with its sessions' activity on record. -/
def timed (env : ServerEnv) : Machine (Server × IdleHistory) ServerEvent :=
  (machine env).record ⟨fun _ => [], []⟩ IdleHistory.next

/-- No session has been active within the idle timeout before it is killed for being idle. -/
def MeansIdle (env : ServerEnv) (H : IdleHistory) : Prop :=
  ∀ k ∈ H.kills, ∀ x ∈ k.active, x + env.idleTimeout ≤ k.time

/-- The idle timer of a live session counts from its last activity, or a reset is on its
way. -/
structure Punctual (env : ServerEnv) (s : Server) (H : IdleHistory) : Prop where
  known : ∀ a, ∀ x ∈ H.active a, x ≤ s.now ∧ ∃ A, s.actors a = some A
  covered : ∀ a A x, s.actors a = some A → A.isAlive → x ∈ H.active a →
    s.ResetPending a A ∨ ∃ d, A.idleDeadline = some d ∧ x + env.idleTimeout ≤ d
  idle : MeansIdle env H

theorem Step.now_le (h : Step env s e t) : s.now ≤ t.now := by
  cases h with
  | tick d => exact Nat.le_add_right s.now d
  | handleGranted | handleRefused | writeOk | writeErr =>
      rw [replyTo_now]
      exact le_rfl
  | dropAborts =>
      unfold dropAbortsStep
      dsimp only
      split <;> [exact le_rfl; split] <;> exact le_rfl
  | _ => exact le_rfl

theorem Step.active_known (h : Step env s e t) (hactive : s.activeSession e = some a) :
    ∃ A, s.actors a = some A := by
  cases h with
  | writeOk A w hA =>
      simp only [activeSession, Option.ite_none_right_eq_some, Option.some.injEq] at hactive
      obtain ⟨_, rfl⟩ := hactive
      exact ⟨A, hA⟩
  | pollData st R A hst hr hA =>
      obtain rfl : st.session = a := by simpa [activeSession, hst] using hactive
      exact ⟨A, hA⟩
  | pollEnd st R A hst hr hA hopen hresp hturn hres =>
      rcases hres with ⟨rfl, _⟩ | ⟨rfl, _⟩ | rfl <;> cases hactive
  | _ => cases hactive

/-- A timer of a live session that fires and is not that of its total timeout is its idle
timer. -/
theorem idleDeadline_of_fire {i : Nat} (hs : (machine env).Reachable s)
    (hA : s.actors a = some A) (htotal : A.totalTimeoutTask ≠ some i)
    (hstep : A.step env s.now (.fire i) = some B) :
    ∃ d, A.idleDeadline = some d ∧ d ≤ s.now := by
  cases Session.Own.of_step hstep with
  | fire i timer htimer harmed hdue =>
      have hidle : A.idleTimeoutTask = some i :=
        ((Session.timersKnown_of_reachable hs hA).known i timer htimer harmed).resolve_left htotal
      refine ⟨timer.deadline, ?_, hdue⟩
      simp [Session.idleDeadline, hidle, htimer]

variable {H : IdleHistory} {x : Nat}

theorem mem_next_active :
    x ∈ (H.next s e).active a ↔ x ∈ H.active a ∨ s.activeSession e = some a ∧ x = s.now := by
  by_cases hactive : s.activeSession e = some a <;> simp [IdleHistory.next, hactive]

/-- A session that is killed for being idle has no reset on its way, so that its idle timer
counts from its last activity. -/
theorem Punctual.meansIdle (h : Punctual env s H) (hs : (machine env).Reachable s)
    (hkeeps : KeepsReset env s e) (hstep : Server.step env s e = some t) :
    MeansIdle env (H.next s e) := by
  intro k hk
  cases hkilled : s.idleKilled e with
  | none => exact h.idle k (by simpa [IdleHistory.next, hkilled] using hk)
  | some a =>
      have hmem : k ∈ H.kills ∨ k = ⟨a, s.now, H.active a⟩ := by
        simpa [IdleHistory.next, hkilled] using hk
      rcases hmem with hk | rfl
      · exact h.idle k hk
      · intro x hx
        cases Step.of_step hstep with
        | @actor b e A A' hA hA' =>
            cases e with
            | fire i =>
                simp only [idleKilled, hA, Option.any_some, Option.ite_none_right_eq_some,
                  Option.some.injEq, decide_eq_true_eq] at hkilled
                obtain ⟨⟨halive, htotal⟩, rfl⟩ := hkilled
                have hnone : ¬ s.ResetPending b A := hkeeps A hA halive htotal
                obtain ⟨d, hd, hle⟩ := (h.covered b A x hA halive hx).resolve_left hnone
                obtain ⟨d', hd', hdue⟩ := idleDeadline_of_fire hs hA htotal hA'
                obtain rfl : d = d' := Option.some.inj (hd.symm.trans hd')
                exact hle.trans hdue
            | _ => cases hkilled
        | _ => cases hkilled

theorem Punctual.step (h : Punctual env s H) (hs : (machine env).Reachable s)
    (hkeeps : KeepsReset env s e) (hstep : Server.step env s e = some t) :
    Punctual env t (H.next s e) := by
  have hcases := Step.of_step hstep
  have hnow : s.now ≤ t.now := hcases.now_le
  have hknown : ∀ a, ∀ x ∈ (H.next s e).active a, x ≤ s.now ∧ ∃ A, s.actors a = some A := by
    intro a x hx
    rcases mem_next_active.mp hx with hx | ⟨hactive, rfl⟩
    · exact h.known a x hx
    · exact ⟨le_rfl, hcases.active_known hactive⟩
  constructor
  · intro a x hx
    obtain ⟨hle, A, hA⟩ := hknown a x hx
    exact ⟨hle.trans hnow, hcases.actor_kept hA⟩
  · intro a B x hB halive hx
    obtain ⟨hle, A, hA⟩ := hknown a x hx
    have hset : ∀ d, d = s.now + env.idleTimeout → x + env.idleTimeout ≤ d := by
      intro d hd
      omega
    rcases mem_next_active.mp hx with hx | ⟨hactive, rfl⟩
    · have halive' : A.isAlive := (move_of_step hA hstep hB).alive halive
      rcases h.covered a A x hA halive' hx with hpending | ⟨d, hd, hcovered⟩
      · rcases hpending.step hs hkeeps hstep hA hB halive with hpending' | hnew
        · exact .inl hpending'
        · exact .inr ⟨_, hnew, hset _ rfl⟩
      · rcases hcases.resetKept hA hB halive with hnew | ⟨hsame, _⟩
        · exact .inr ⟨_, hnew, hset _ rfl⟩
        · exact .inr ⟨d, hsame.trans hd, hcovered⟩
    · rcases resetPending_of_active hs hkeeps hstep hactive hB halive with hpending | hnew
      · exact .inl hpending
      · exact .inr ⟨_, hnew, hset _ rfl⟩
  · exact h.meansIdle hs hkeeps hstep

/-- In a run that keeps the resets, no session is ever killed for being idle within the idle
timeout of a write of bytes or of a read. -/
theorem run_meansIdle {es : List ServerEvent} (h : (machine env).Run (KeepsReset env) es s) :
    ∀ fs p, fs <+: es → (timed env).Run (fun _ _ => True) fs p → MeansIdle env p.2 := by
  intro fs p hfs hp
  have hpunctual : Punctual env p.1 p.2 := by
    refine (h.record_prefix hfs hp).record_invariant (I := Punctual env) ?_ ?_
    · constructor
      · intro a x hx
        cases hx
      · intro a A x hA
        cases hA
      · intro k hk
        cases hk
    · intro s e t H hs hpunctual hkeeps hstep
      exact hpunctual.step hs hkeeps hstep
  exact hpunctual.idle

/-- Bytes are read at 10, the actor resets the timer, and 30 later it kills the session. -/
def readThenIdle : List ServerEvent :=
  [.request 0 (sampleRequest .get) 0, .actor 0 .start, .actor 0 (.connect 8 8), .ask 0,
    .handle 0, .reply 0, .tick 10, .actor 0 (.upstreamSend [7]), .poll 0 (.data 1), .tell 0,
    .handle 0, .tick 30]

/-- A write waits for room at upstream. Bytes are read at 29, their reset waits behind the
write, and the timer fires at 30. -/
def blockedReset : List ServerEvent :=
  [.request 0 (sampleRequest .get) 0, .actor 0 .start, .actor 0 (.connect 1 8), .ask 0,
    .handle 0, .reply 0, .request 1 (sampleRequest .post) 1, .body 1 (.chunk [1, 2]), .ask 1,
    .handle 0, .actor 0 (.write 1), .tick 29, .actor 0 (.upstreamSend [7]), .poll 0 (.data 1),
    .tell 0, .tick 1, .actor 0 (.fire 2)]

/-- The one stream that is open has nothing to report. -/
theorem not_resetPending (hs : (machine env).Reachable s) (hA : s.actors a = some A)
    (hbox : .resetIdleTimeout ∉ A.mailbox) (hreader : A.reader = some r)
    (hst : s.streams r = some st) (hhand : st.inHand = []) : ¬ s.ResetPending a A := by
  rintro (hmem | ⟨q, u, hu, rfl, hactive, hne⟩)
  · exact hbox hmem
  · simp only [ReadStream.active, Bool.and_eq_true, Bool.not_eq_true'] at hactive
    have hlock : A.reader = some q := (download_of_reachable hs).lock hu hA hactive.1.1 hactive.1.2
    obtain rfl : q = r := Option.some.inj (hlock.symm.trans hreader)
    obtain rfl : u = st := Option.some.inj (hu.symm.trans hst)
    exact hne hhand

theorem readThenIdle_meansIdle :
    ∃ p, (timed sampleEnv).Run (fun _ _ => True) (readThenIdle ++ [.actor 0 (.fire 3)]) p ∧
      p.2.kills = [⟨0, 40, [10]⟩] ∧ MeansIdle sampleEnv p.2 := by
  obtain ⟨s, hrun, hactor, hstream⟩ := Machine.exists_run (M := machine sampleEnv)
    (P := fun s => (s.actors 0).map (fun A => (A.mailbox, A.reader)) = some ([], some 0) ∧
      s.streams 0 = some ⟨0, false, .idle, false, false, false, [[7]]⟩) readThenIdle (by decide)
  obtain ⟨p, hp, hkills⟩ := Machine.exists_run (M := timed sampleEnv)
    (P := fun p => p.2.kills = [⟨0, 40, [10]⟩]) (readThenIdle ++ [.actor 0 (.fire 3)])
    (by decide +kernel)
  obtain ⟨A, hA, hvalues⟩ := Option.map_eq_some_iff.mp hactor
  obtain ⟨hbox, hreader⟩ := Prod.mk.inj hvalues
  have hkeeps : (machine sampleEnv).Run (KeepsReset sampleEnv) readThenIdle s :=
    hrun.of_forall (by simp [readThenIdle, KeepsReset])
  have hnone : ¬ s.ResetPending 0 A :=
    not_resetPending hrun.reachable hA (by simp [hbox]) hreader hstream rfl
  have hfire : KeepsReset sampleEnv s (.actor 0 (.fire 3)) := by
    intro A' hA' _ _
    obtain rfl : A = A' := Option.some.inj (hA.symm.trans hA')
    exact hnone
  obtain ⟨t, htrun, _⟩ := Machine.exists_run (M := machine sampleEnv) (P := fun _ => True)
    (readThenIdle ++ [.actor 0 (.fire 3)]) (by decide)
  exact ⟨p, hp, hkills,
    run_meansIdle (hkeeps.snoc_of_run hfire htrun) _ p (List.prefix_refl _) hp⟩

theorem blockedReset_not_meansIdle :
    ∃ p, (timed sampleEnv).Run (fun _ _ => True) blockedReset p ∧
      p.2.kills = [⟨0, 30, [29]⟩] ∧ ¬ MeansIdle sampleEnv p.2 := by
  obtain ⟨p, hrun, hkills⟩ := Machine.exists_run (M := timed sampleEnv)
    (P := fun p => p.2.kills = [⟨0, 30, [29]⟩]) blockedReset (by decide +kernel)
  refine ⟨p, hrun, hkills, fun hidle => ?_⟩
  have hle := hidle ⟨0, 30, [29]⟩ (by simp [hkills]) 29 (by simp)
  exact absurd hle (by decide)

end Server
end Fronting
