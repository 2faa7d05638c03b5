import Fronting.SessionTable
import Fronting.Statuses
import Fronting.TunnelGets

/-!
# A session that nothing disturbs

No request of an id fails as long as its session is not ended from outside, its requests are
not cancelled and their bodies are whole: the session stays open, and it answers what it is
asked.
-/

namespace Fronting

open Function (update)

/-- The actor has not begun to end. -/
def Life.opens : Life → Bool
  | .spawned | .starting | .running => true
  | _ => false

theorem Life.alive_of_opens {l : Life} (h : l.opens = true) : l.mailboxOpen = true := by
  cases l <;> simp_all [opens, mailboxOpen]

theorem Session.Move.txCap {env : ServerEnv} {A A' : Session} (h : Move env A A') :
    A'.upstream.txCap = A.upstream.txCap ∨ A'.life ≠ .starting ∧ A.life = .starting := by
  cases h with
  | @own now e A' h =>
      cases Own.of_step h with
      | connect txCap rxCap hlife | connectKilled txCap rxCap hlife =>
          exact .inr ⟨Life.noConfusion, hlife⟩
      | _ => exact .inl rfl
  | _ => exact .inl rfl

namespace Server

variable {env : ServerEnv} {s t : Server} {e : ServerEvent} {x : Uuid} {r : ReqId} {R R' : Call}

/-- The step does not fail the requests of `x`, and does not end its session. -/
def Spares (s : Server) (x : Uuid) : ServerEvent → Prop
  | .actor b e => ∀ A, s.actors b = some A → A.sessionId = x →
      (∀ i, e ≠ .fire i) ∧ e ≠ .connectError ∧
        ∀ txCap rxCap, e = .connect txCap rxCap → 0 < txCap
  | .writeErr b => ∀ A, s.actors b = some A → A.sessionId ≠ x
  | .cancel r | .body r (.error _) => ∀ R, s.calls r = some R → R.sessionId ≠ some x
  | .body r .finished =>
    ∀ R, s.calls r = some R → R.sessionId = some x → R.chunks.flatten ≠ []
  | .dropStream r => ∀ R st, s.calls r = some R → R.sessionId = some x →
      s.streams r = some st → st.ended = true
  | _ => True

/-- The session of `x`, once there is one, is open, and no request of `x` has failed. -/
structure Sound (s : Server) (x : Uuid) : Prop where
  session : ∀ a A, s.actors a = some A → A.sessionId = x →
    s.sessions x = some a ∧ A.life.opens = true ∧ A.killed = false ∧
      (A.life = .running → 0 < A.upstream.txCap)
  call : ∀ r R, s.calls r = some R → R.sessionId = some x → R.handler.broken = false
  stream : ∀ r R st, s.calls r = some R → R.sessionId = some x → s.streams r = some st →
    st.dropped = true → st.ended = true

theorem Sound.init : Sound init x := by
  constructor <;> intros <;> simp_all [Server.init]

/-- What makes a request fail. -/
theorem Step.broken_cause (h : Step env s e t) (hcounts : Counts R) (hR : s.calls r = some R)
    (hR' : t.calls r = some R') (hbroken : R'.handler.broken = true) :
    R.handler.broken = true ∨ R.Refused ∨ e = .cancel r ∨
      (∃ message, e = .body r (.error message)) ∨
      (e = .body r .finished ∧ R.chunks.flatten = []) ∨
      ∃ a A, R.session = some a ∧ s.actors a = some A ∧ A.isAlive = false := by
  have hsame : R = R' → R.handler.broken = true := by
    rintro rfl
    exact hbroken
  have hnew : ∀ {q Q}, s.calls q = none → update s.calls q (some Q) r = some R' → R = R' := by
    intro q Q hq hupdate
    have hne : r ≠ q := by
      rintro rfl
      exact absurd (hq.symm.trans hR) (by simp)
    rw [Function.update_of_ne hne] at hupdate
    exact Option.some.inj (hR.symm.trans hupdate)
  have hreply : ∀ {u : Server} {q : ReqId} {b : Bool}, u.calls = s.calls →
      (u.replyTo q b).calls r = some R' → R.handler.broken = true := by
    intro u q b hcalls hR'
    obtain ⟨Q, hQ, heq⟩ := broken_replyTo hcalls hR'
    obtain rfl : R = Q := Option.some.inj (hR.symm.trans hQ)
    exact heq.symm.trans hbroken
  cases h with
  | reject y e hr | join y b hr | create y hr | replace y b hr => exact .inl (hsame (hnew hr hR'))
  | @cancel q Q hq =>
      rcases cases_update hq hR hR' with ⟨rfl, rfl, rfl⟩ | ⟨_, rfl⟩
      · exact .inr (.inr (.inl rfl))
      · exact .inl hbroken
  | askWrite Q a A total data hq | askRead Q a A hq | replyWrote Q total data hq
  | replyGranted Q hq =>
      rcases cases_update hq hR hR' with ⟨rfl, rfl, rfl⟩ | ⟨_, rfl⟩
      · cases hbroken
      · exact .inl hbroken
  | askFailed Q a A err hq hQ ha he hdead =>
      rcases cases_update hq hR hR' with ⟨rfl, rfl, rfl⟩ | ⟨_, rfl⟩
      · exact .inr (.inr (.inr (.inr (.inr ⟨a, A, hQ, ha, hdead⟩))))
      · exact .inl hbroken
  | replyRefused Q hq hh =>
      rcases cases_update hq hR hR' with ⟨rfl, rfl, rfl⟩ | ⟨_, rfl⟩
      · exact .inr (.inl (.inl hh))
      · exact .inl hbroken
  | @body q b Q total hq hh =>
      rcases cases_update hq hR hR' with ⟨rfl, rfl, rfl⟩ | ⟨_, rfl⟩
      · cases b with
        | chunk data => cases hbroken
        | finished =>
            have htotal : total = R.chunks.flatten.length := by simpa [Counts, hh] using hcounts
            refine .inr (.inr (.inr (.inr (.inl ⟨rfl, List.length_eq_zero_iff.mp ?_⟩))))
            by_contra hne
            have hpos : total ≠ 0 := fun hzero => hne (htotal.symm.trans hzero)
            simp [bodyStep, hpos, Handler.broken] at hbroken
        | error message => exact .inr (.inr (.inr (.inl ⟨message, rfl⟩)))
      · exact .inl hbroken
  | handleGranted | handleRefused | writeOk | writeErr =>
      refine .inl (hreply ?_ hR')
      rfl
  | dropAborts =>
      rw [dropAbortsStep_calls] at hR'
      exact .inl (hsame (Option.some.inj (hR.symm.trans hR')))
  | _ => exact .inl (hsame (Option.some.inj (hR.symm.trans hR')))

/-- Only a timer kills an actor. -/
theorem Step.killed (h : Step env s e t) {a : ActorRef} {A A' : Session}
    (ha : s.actors a = some A) (ha' : t.actors a = some A')
    (hfire : ∀ i, e ≠ .actor a (.fire i)) : A'.killed = A.killed := by
  cases h with
  | create x hr hfresh | replace x d hr hfresh =>
      exact congrArg Session.killed (Option.some.inj (ha'.symm.trans (newSession_kept x hfresh ha)))
  | actor B B' hB hB' =>
      rcases cases_update hB ha ha' with ⟨rfl, rfl, rfl⟩ | ⟨_, rfl⟩
      · cases Session.Own.of_step hB' with
        | fire i => exact absurd rfl (hfire i)
        | _ => rfl
      · rfl
  | handleGranted B rest r hB | handleRefused B rest r q hB | writeOk B w hB | writeErr B w hB =>
      rw [replyTo_actors] at ha'
      exact same_setActor Session.killed hB ha ha' rfl
  | dropAborts B hB =>
      rw [dropAbortsStep_actors] at ha'
      exact same_setActor Session.killed hB ha ha' rfl
  | askWrite R b B total data hr hR hB | askRead R b B hr hR hB | handleWrite B rest r bytes hB
  | handleReset B rest hB | dropRemove B hB | pollEnd u R B hu hr hB | pollData u R B hu hr hB
  | tellSent u B bytes hu hB | dropStream u B hu hB =>
      exact same_setActor Session.killed hB ha ha' rfl
  | _ => exact congrArg Session.killed (Option.some.inj (ha'.symm.trans ha))

/-- An open session stays open, and in the table. -/
theorem Sound.step_session (h : Sound s x) (hspares : s.Spares x e) (hstep : Step env s e t)
    {a : ActorRef} {A' : Session} (ha' : t.actors a = some A') (hx : A'.sessionId = x) :
    t.sessions x = some a ∧ A'.life.opens = true ∧ A'.killed = false ∧
      (A'.life = .running → 0 < A'.upstream.txCap) := by
  rcases hstep.move ha' with ⟨A, ha, hmove⟩ | ⟨y, rfl, hnew⟩
  · have hxA : A.sessionId = x := hmove.sessionId.symm.trans hx
    obtain ⟨hentry, hopens, hkilled, hcap⟩ := h.session a A ha hxA
    have hspared : A'.killed = false := by
      refine (hstep.killed ha ha' ?_).trans hkilled
      rintro i rfl
      exact (hspares A ha hxA).1 i rfl
    have hlife : A'.life.opens = true ∧ (A'.life = .running → 0 < A'.upstream.txCap) := by
      rcases hstep.life ha ha' with hsame | hnext
      · rcases hmove.txCap with htx | ⟨hrun, hstart⟩
        · rw [hsame, htx]
          exact ⟨hopens, hcap⟩
        · exact absurd (hsame.trans hstart) hrun
      · cases hnext with
        | own e A' hown =>
            obtain ⟨_, hconnect, hroom⟩ := hspares A ha hxA
            cases Session.Own.of_step hown with
            | connect txCap rxCap => exact ⟨rfl, fun _ => hroom txCap rxCap rfl⟩
            | start => exact ⟨rfl, fun hrun => by cases hrun⟩
            | connectError => exact absurd rfl hconnect
            | connectKilled _ _ _ hbad | abort hbad =>
                exact absurd (hkilled.symm.trans hbad) Bool.false_ne_true
            | close hlife => simp [hlife, Life.opens] at hopens
            | _ => exact ⟨hopens, hcap⟩
        | writeErr w => exact absurd hxA (hspares A ha)
        | dropAborts hlife | dropRemove hlife => simp [hlife, Life.opens] at hopens
    refine ⟨?_, hlife.1, hspared, hlife.2⟩
    rcases hstep.sessions_cases with
      hsame | ⟨y, b, habsent, _, hsame⟩ | ⟨b, B, _, hB, hlifeB, hsame⟩
    · rw [hsame, hentry]
    · rw [hsame, Function.update_of_ne, hentry]
      rintro rfl
      have hdead := habsent a hentry
      rw [isAlive_of ha (Life.alive_of_opens hopens)] at hdead
      cases hdead
    · rw [hsame, Function.update_of_ne, hentry]
      rintro rfl
      have hopensB := (h.session b B hB rfl).2.1
      simp [hlifeB, Life.opens] at hopensB
  · obtain rfl : y = x := hx
    rw [hnew.sessions, Function.update_self]
    exact ⟨rfl, rfl, rfl, fun hrun => by cases hrun⟩

/-- A response body is dropped only when it has ended. -/
theorem Sound.step_stream (h : Sound s x) (hs : (machine env).Reachable s) (hspares : s.Spares x e)
    (hstep : Step env s e t) {st' : ReadStream} (hr : s.calls r = some R)
    (hx : R.sessionId = some x) (hst' : t.streams r = some st') (hdropped : st'.dropped = true) :
    st'.ended = true := by
  rcases hstep.stream (coherent_of_reachable hs) hst' with ⟨st, hst, hmove⟩ | hnew
  · have hold := h.stream r R st hr hx hst
    cases hmove with
    | stay | wait | data | yield | abort => exact hold hdropped
    | finish | stop => rfl
    | drop => exact hspares R st hr hx hst
  · rw [hnew.start] at hdropped
    cases hdropped

/-- A request with a known method and a session id is handed over, or its session is missing. -/
theorem handleRequestInner_eq {req : Request} {fresh : ActorRef}
    (hx : req.sessionId env.http env.sessionKey = some x)
    (hmethod : ∀ name, req.method ≠ .other name) :
    s.handleRequestInner env r req fresh = s.dispatch r req x fresh := by
  unfold handleRequestInner
  split
  next name hname => exact absurd hname (hmethod name)
  next => simp only [hx]

/-- A request finds its session. -/
theorem step_join {req : Request} {fresh b : ActorRef} (hr : s.calls r = none)
    (hfresh : s.actors fresh = none) (hx : req.sessionId env.http env.sessionKey = some x)
    (hb : s.sessions x = some b) (halive : s.isAlive b = true)
    (hmethod : ∀ name, req.method ≠ .other name) :
    step env s (.request r req fresh) =
      some (s.setCall r ⟨some x, req.method, some b, startHandler req.method, []⟩) := by
  simp [step, hr, hfresh, handleRequestInner_eq hx hmethod, dispatch, getOrCreate, hb, halive]

/-- Only a `PATCH` is refused for want of a session. -/
theorem call_of_request {req : Request} {fresh : ActorRef}
    (hstep : step env s (.request r req fresh) = some t)
    (hx : req.sessionId env.http env.sessionKey = some x)
    (hmethod : ∀ name, req.method ≠ .other name) (hpatch : req.method = .patch → ¬ s.Absent x) :
    ∃ a, t.calls r = some ⟨some x, req.method, some a, startHandler req.method, []⟩ := by
  simp only [step, Option.ite_none_right_eq_some, Option.some.injEq,
    handleRequestInner_eq hx hmethod] at hstep
  obtain ⟨_, rfl⟩ := hstep
  rcases getOrCreate_cases s x (req.method ≠ .patch) fresh with
    ⟨b, _, _, heq⟩ | ⟨b, _, _, _, heq⟩ | ⟨_, _, heq⟩ | ⟨habsent, hnot, _⟩
  · refine ⟨b, ?_⟩
    rw [dispatch, heq]
    exact Function.update_self ..
  · refine ⟨b, ?_⟩
    rw [dispatch, heq]
    exact Function.update_self ..
  · refine ⟨fresh, ?_⟩
    rw [dispatch, heq]
    exact Function.update_self ..
  · exact absurd habsent (hpatch (by simpa using hnot))

/-- A step that spares `x`, refuses no request of `x`, and rejects none that arrives. -/
theorem Sound.step (h : Sound s x) (hs : (machine env).Reachable s) (hspares : s.Spares x e)
    (hstep : Step env s e t)
    (hrefused : ∀ r R, s.calls r = some R → R.sessionId = some x → ¬ R.Refused)
    (harrives : ∀ r req fresh R, e = .request r req fresh → t.calls r = some R →
      R.sessionId = some x → R.handler.broken = false) : Sound t x := by
  have hcoherent := coherent_of_reachable hs
  constructor
  · exact fun a A ha hx => h.step_session hspares hstep ha hx
  · intro r R' hr' hx
    rcases hstep.call_cases hr' with ⟨R, hR, hgrows⟩ | ⟨_, req, fresh, rfl, _⟩
    · have hxR : R.sessionId = some x := hgrows.sessionId.symm.trans hx
      by_contra hbroken
      have hcounts := counts_of_reachable hs hR
      rcases hstep.broken_cause hcounts hR hr' (eq_true_of_ne_false hbroken) with
        hold | hno | rfl | ⟨message, rfl⟩ | ⟨rfl, hempty⟩ | ⟨a, A, hsession, ha, hdead⟩
      · exact absurd (hold.symm.trans (h.call r R hR hxR)) Bool.noConfusion
      · exact hrefused r R hR hxR hno
      · exact hspares R hR hxR
      · exact hspares R hR hxR
      · exact hspares R hR hxR hempty
      · obtain ⟨B, hB, hid⟩ := hcoherent.call hR hsession
        obtain rfl : A = B := Option.some.inj (ha.symm.trans hB)
        obtain ⟨_, hopens, _⟩ := h.session a A ha (Option.some.inj (hid.symm.trans hxR))
        exact absurd (hdead.symm.trans (Life.alive_of_opens hopens)) Bool.noConfusion
    · exact harrives r req fresh R' rfl hr' hx
  · intro r R' st' hr' hx hst' hdropped
    rcases hstep.call_cases hr' with ⟨R, hR, hgrows⟩ | ⟨hnone, req, fresh, rfl, _⟩
    · exact h.step_stream hs hspares hstep hR (hgrows.sessionId.symm.trans hx) hst' hdropped
    · rcases hstep.stream hcoherent hst' with ⟨st, hst, _⟩ | hnew
      · obtain ⟨R, hR, _⟩ := hcoherent.stream hst
        exact absurd (hnone.symm.trans hR) (by simp)
      · cases hnew.event

end Server
end Fronting
