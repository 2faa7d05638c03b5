import Fronting.EmptyWrites
import Fronting.Isolation
import Fronting.Readers

/-!
# What the answers mean

A request is answered once. Its status says what has become of it: a `GET` has been granted
the stream of its session, or refused it, a write request has been handed over to its session
in full, or the request has failed. Only a `GET` that is granted has a stream.
-/

namespace Fronting

open Function (update)

/-- The method of a request and where its handler is. -/
def Call.Fits (R : Call) : Prop :=
  match R.handler with
  | .sendRead | .awaitRead | .readReply _ => R.method = .get ∧ R.session.isSome
  | .nextChunk _ | .sendWrite .. | .awaitWrite .. | .wrote .. => R.method ≠ .get
  | .done (.ok resp) => resp = Server.streamResponse ↔ R.method = .get
  | .done (.error e) => e.code = .tooManyRequests → R.method = .get ∧ R.session.isSome
  | .cancelled => True

/-- The session has returned a stream. -/
def Handler.Granted (h : Handler) : Prop :=
  h = .readReply true ∨ h = .done (.ok Server.streamResponse)

/-- The request is to have no stream. -/
def Handler.Denied (h : Handler) : Prop :=
  h = .readReply false ∨ ∃ result, h = .done result ∧ result ≠ .ok Server.streamResponse

theorem broken_onReply (b : Bool) (h : Handler) : (Server.onReply b h).broken = h.broken := by
  cases h <;> rfl

namespace Server

variable {env : ServerEnv} {s t : Server} {e : ServerEvent} {q r : ReqId} {Q Q' R R' : Call}

theorem broken_replyTo {q : ReqId} {b : Bool} (hcalls : t.calls = s.calls)
    (hR : (t.replyTo q b).calls r = some R) :
    ∃ R₀, s.calls r = some R₀ ∧ R.handler.broken = R₀.handler.broken := by
  rw [replyTo_calls, hcalls] at hR
  split at hR
  next hr =>
      subst hr
      obtain ⟨R₀, hR₀, rfl⟩ := Option.map_eq_some_iff.mp hR
      exact ⟨R₀, hR₀, broken_onReply b R₀.handler⟩
  next => exact ⟨R, hR, rfl⟩

theorem Call.Fits.onReply (h : R.Fits) (b : Bool) :
    Call.Fits { R with handler := Server.onReply b R.handler } := by
  unfold Call.Fits at h ⊢
  cases hh : R.handler <;> simp_all [Server.onReply]

theorem fits_of_reachable (hs : (machine env).Reachable s) (hr : s.calls r = some R) : R.Fits := by
  refine call_invariant (I := Call.Fits) ?_ ?_ hs hr
  · intro r req R harrived
    cases harrived with
    | refused x e hcode =>
        intro hmany
        rw [hcode] at hmany
        cases hmany
    | started x a hx => by_cases hm : req.method = .get <;> simp [Call.Fits, startHandler, hm]
  · intro R R' h hmove
    cases hmove with
    | stay => exact h
    | cancel => trivial
    | body total e hh =>
        have hput : R.method ≠ .get := by simpa [Call.Fits, hh] using h
        cases e with
        | chunk data => exact hput
        | finished =>
            by_cases htotal : total = 0
            · simp [Call.Fits, bodyStep, htotal, HttpError.badRequest, StatusCode.badRequest,
                StatusCode.tooManyRequests]
            · simp [Call.Fits, bodyStep, htotal, hput, noContent, streamResponse]
        | error message =>
            intro hmany
            cases hmany
    | askWrite total data hh | wrote total data hh => simpa [Call.Fits, hh] using h
    | askRead hh | refused hh => simpa [Call.Fits, hh] using h
    | granted hh =>
        have hget : R.method = .get ∧ R.session.isSome := by simpa [Call.Fits, hh] using h
        simpa [Call.Fits] using hget.1
    | askFailed e he =>
        intro hmany
        rw [code_of_askError he] at hmany
        cases hmany
    | reply b => exact Call.Fits.onReply h b

/-- Only requests with a known method are handed over to a session. -/
theorem method_of_session (hs : (machine env).Reachable s) (hr : s.calls r = some R)
    {a : ActorRef} (hR : R.session = some a) (name : String) : R.method ≠ .other name := by
  refine hs.invariant (I := fun s => ∀ r R a, s.calls r = some R → R.session = some a →
    R.method ≠ .other name) ?_ ?_ r R a hr hR
  · intro r R a hr
    simp [machine, init] at hr
  · intro s e t _ hI hstep r R a hr hR
    rcases (Step.of_step hstep).call_cases hr with
      ⟨R₀, hR₀, hgrows⟩ | ⟨_, req, fresh, rfl, harrived⟩
    · rw [hgrows.method]
      exact hI r R₀ a hR₀ (hgrows.session.symm.trans hR)
    · intro hother
      obtain ⟨_, hmethod, _⟩ := harrived.head
      simp only [machine, step, Option.ite_none_right_eq_some, Option.some.injEq] at hstep
      obtain ⟨_, rfl⟩ := hstep
      have hname : req.method = .other name := hmethod.symm.trans hother
      simp only [handleRequestInner, hname, reject, setCall, Function.update_self,
        Option.some.injEq] at hr
      rw [← hr] at hR
      cases hR

/-- A request has a stream if and only if it has been granted one, or been cancelled. -/
structure Grants (s : Server) : Prop where
  granted : ∀ {r R}, s.calls r = some R → R.handler.Granted → ∃ st, s.streams r = some st
  denied : ∀ {r R}, s.calls r = some R → R.handler.Denied → s.streams r = none

theorem Grants.init : Grants Server.init := by
  constructor <;> intros <;> simp_all [Server.init]

/-- The requests are the same, and no stream is new. -/
theorem Grants.congr (h : Grants s) (hcalls : t.calls = s.calls)
    (hkept : ∀ r st, s.streams r = some st → ∃ st', t.streams r = some st')
    (hnew : ∀ r, s.streams r = none → t.streams r = none) : Grants t := by
  constructor
  · intro r R hr hgranted
    obtain ⟨st, hst⟩ := h.granted (hcalls ▸ hr) hgranted
    exact hkept r st hst
  · intro r R hr hdenied
    exact hnew r (h.denied (hcalls ▸ hr) hdenied)

/-- One request has changed. -/
theorem Grants.setCall (h : Grants s) (hcalls : t.calls = update s.calls q (some Q))
    (hstreams : t.streams = s.streams)
    (hgranted : Q.handler.Granted → ∃ st, s.streams q = some st)
    (hdenied : Q.handler.Denied → s.streams q = none) : Grants t := by
  constructor
  · intro r R hr hR
    rw [hstreams]
    rw [hcalls] at hr
    by_cases hrq : r = q
    · subst hrq
      obtain rfl : Q = R := by simpa using hr
      exact hgranted hR
    · exact h.granted (by simpa [hrq] using hr) hR
  · intro r R hr hR
    rw [hstreams]
    rw [hcalls] at hr
    by_cases hrq : r = q
    · subst hrq
      obtain rfl : Q = R := by simpa using hr
      exact hdenied hR
    · exact h.denied (by simpa [hrq] using hr) hR

/-- The request has not been answered by its session. -/
theorem Coherent.not_served (h : Coherent s) (hr : s.calls r = some R)
    (hserved : R.handler.served = false) : s.streams r = none := by
  cases hst : s.streams r with
  | none => rfl
  | some st =>
      obtain ⟨R', hR', _, hserved'⟩ := h.stream hst
      obtain rfl : R = R' := Option.some.inj (hr.symm.trans hR')
      exact absurd (hserved.symm.trans hserved') Bool.false_ne_true

/-- A write that has returned is answered. -/
theorem Grants.replyWrite (h : Grants s) (hcoherent : Coherent s) {a : ActorRef} {A : Session}
    {w : Writing} (ha : s.actors a = some A) (hw : A.handling = some w)
    (halive : A.isAlive) (hcalls : t.calls = s.calls) (hstreams : t.streams = s.streams) :
    Grants (t.replyTo w.req true) := by
  have hasked : Message.write w.req w.bytes ∈ A.asked := by simp [Session.asked_handling hw]
  obtain ⟨Q, hQ, _, hwait⟩ := hcoherent.asked ha hasked rfl
  have hnext : (t.replyTo w.req true).calls =
      update s.calls w.req (some { Q with handler := onReply true Q.handler }) := by
    funext r
    rw [replyTo_calls, hcalls]
    by_cases hr : r = w.req
    · subst hr
      simp [hQ]
    · simp [hr]
  refine h.setCall hnext (by simp [hstreams]) ?_ ?_
  · rcases Handler.awaits_write (hwait halive) with ⟨total, hh⟩ | hh <;>
      simp [hh, onReply, Handler.Granted]
  · rcases Handler.awaits_write (hwait halive) with ⟨total, hh⟩ | hh <;>
      simp [hh, onReply, Handler.Denied]

/-- A `SessionRead` is answered, with or without a stream. -/
theorem Grants.replyRead (h : Grants s) (hcoherent : Coherent s) {a : ActorRef} {A : Session}
    (ha : s.actors a = some A) (hasked : .read q ∈ A.asked) (halive : A.isAlive) {b : Bool}
    (hcalls : t.calls = s.calls)
    (hstreams : b = true ∧ (∃ st, t.streams = update s.streams q (some st)) ∨
      b = false ∧ t.streams = s.streams) : Grants (t.replyTo q b) := by
  obtain ⟨Q, hQ, _, hwait⟩ := hcoherent.asked ha hasked rfl
  have hnone := hcoherent.unread ha hasked
  constructor
  · intro r R hr hR
    rw [replyTo_calls, hcalls] at hr
    rw [replyTo_streams]
    by_cases hrq : r = q
    · subst hrq
      rcases hstreams with ⟨_, st, hst⟩ | ⟨rfl, _⟩
      · exact ⟨st, by simp [hst]⟩
      · simp only [hQ, if_true, Option.map_some, Option.some.injEq] at hr
        subst hr
        rcases Handler.awaits_read (hwait halive) with hh | hh <;>
          simp [hh, onReply, Handler.Granted] at hR
    · rw [if_neg hrq] at hr
      obtain ⟨st, hst⟩ := h.granted hr hR
      rcases hstreams with ⟨_, st', hst'⟩ | ⟨_, hst'⟩
      · exact ⟨st, by simp [hst', hrq, hst]⟩
      · exact ⟨st, by rw [hst', hst]⟩
  · intro r R hr hR
    rw [replyTo_calls, hcalls] at hr
    rw [replyTo_streams]
    by_cases hrq : r = q
    · subst hrq
      rcases hstreams with ⟨rfl, _⟩ | ⟨_, hst⟩
      · simp only [hQ, if_true, Option.map_some, Option.some.injEq] at hr
        subst hr
        rcases Handler.awaits_read (hwait halive) with hh | hh <;>
          simp [hh, onReply, Handler.Denied] at hR
      · rw [hst, hnone]
    · rw [if_neg hrq] at hr
      have hnone' := h.denied hr hR
      rcases hstreams with ⟨_, st', hst'⟩ | ⟨_, hst'⟩
      · simp [hst', hrq, hnone']
      · rw [hst', hnone']

theorem Grants.step (h : Grants s) (hcoherent : Coherent s) (hstep : Step env s e t) :
    Grants t := by
  have hframe : t.calls = s.calls → (∀ a, e ≠ .handle a) → Grants t := by
    intro hcalls he
    refine h.congr hcalls (fun r st hst => hstep.stream_kept hst) fun r hnone => ?_
    refine Option.eq_none_iff_forall_ne_some.mpr fun st hst => ?_
    rcases hstep.stream hcoherent hst with ⟨st₀, hst₀, _⟩ | hnew
    · exact absurd (hnone.symm.trans hst₀) (by simp)
    · exact he _ hnew.event
  cases hstep with
  | reject x e hr =>
      exact h.setCall rfl rfl (by simp [Handler.Granted]) fun _ => streams_eq_none hcoherent hr
  | join x b hr | create x hr | replace x b hr =>
      exact h.setCall rfl rfl (by simp [Handler.Granted, startHandler]; split <;> simp)
        fun _ => streams_eq_none hcoherent hr
  | cancel Q hq => exact h.setCall rfl rfl (by simp [Handler.Granted]) (by simp [Handler.Denied])
  | @body q e Q total hq hh =>
      refine h.setCall rfl rfl ?_ fun _ => hcoherent.not_served hq (by simp [hh, Handler.served])
      cases e with
      | finished =>
          by_cases htotal : total = 0 <;>
            simp [bodyStep, htotal, Handler.Granted, noContent, streamResponse]
      | _ => simp [bodyStep, Handler.Granted]
  | askWrite Q a A total data hq | askRead Q a A hq | replyWrote Q total data hq =>
      exact h.setCall rfl rfl (by simp [Handler.Granted]) (by simp [Handler.Denied])
  | askFailed Q a A e hq hQ ha he =>
      refine h.setCall rfl rfl (by simp [Handler.Granted]) fun _ => hcoherent.not_served hq ?_
      cases hh : Q.handler <;> simp_all [askError, Handler.served]
  | replyGranted Q hq hh =>
      exact h.setCall rfl rfl (fun _ => h.granted hq (.inl hh)) (by simp [Handler.Denied])
  | replyRefused Q hq hh =>
      exact h.setCall rfl rfl (by simp [Handler.Granted]) fun _ => h.denied hq (.inl hh)
  | handleGranted A rest q ha hm hlife hidle =>
      exact h.replyRead hcoherent ha (by simp [Session.asked_cons hm hidle])
        (Session.isAlive_of_running hlife) rfl (.inl ⟨rfl, _, rfl⟩)
  | handleRefused A rest q p ha hm hlife hidle =>
      exact h.replyRead hcoherent ha (by simp [Session.asked_cons hm hidle])
        (Session.isAlive_of_running hlife) rfl (.inr ⟨rfl, rfl⟩)
  | handleWrite | handleReset => exact h.congr rfl (fun r st hst => ⟨st, hst⟩) fun r hnone => hnone
  | writeOk A w ha hw hlife | writeErr A w ha hw hlife =>
      exact h.replyWrite hcoherent ha hw (Session.isAlive_of_running hlife) rfl rfl
  | dropAborts A ha => exact hframe (by simp) (by simp)
  | _ => exact hframe rfl (by simp)

theorem grants_of_reachable (hs : (machine env).Reachable s) : Grants s :=
  hs.invariant Grants.init fun _ _ _ hs h hstep =>
    h.step (coherent_of_reachable hs) (Step.of_step hstep)

/-- What an answer says about its request. -/
inductive Answer (s : Server) (r : ReqId) (R : Call) : Response → Prop
  | stream (st : ReadStream) (hmethod : R.method = .get) (hst : s.streams r = some st)
      (hsession : R.session = some st.session) : Answer s r R streamResponse
  | written (a : ActorRef) (A : Session) (hmethod : R.method = .post ∨ R.method = .patch)
      (hsession : R.session = some a) (ha : s.actors a = some A) (hne : R.chunks.flatten ≠ [])
      (hall : (A.finishedOf r).map Written.bytes = R.chunks) (hst : s.streams r = none) :
      Answer s r R noContent
  | busy (a : ActorRef) (hmethod : R.method = .get) (hsession : R.session = some a)
      (hst : s.streams r = none) : Answer s r R ⟨.tooManyRequests, []⟩
  | failed (hst : s.streams r = none) : Answer s r R ⟨.badRequest, []⟩

theorem answer_of_response (hs : (machine env).Reachable s) (hr : s.calls r = some R)
    {resp : Response} (hresp : R.response = some resp) : Answer s r R resp := by
  have hfits := fits_of_reachable hs hr
  have hgrants := grants_of_reachable hs
  have hcoherent := coherent_of_reachable hs
  unfold Call.response at hresp
  split at hresp
  next resp' hh =>
      obtain rfl : resp' = resp := Option.some.inj hresp
      have hiff : resp' = streamResponse ↔ R.method = .get := by
        simpa [Call.Fits, hh] using hfits
      rcases response_of_ok hs hr hh with rfl | rfl
      · have hput : R.method ≠ .get := fun hget => by
          have hsame := hiff.mpr hget
          simp [noContent, streamResponse] at hsame
        have hsession : R.session ≠ none := fun hnone => by
          obtain ⟨e, he⟩ := refused_of_reachable hs hr hnone
          rw [hh] at he
          cases he
        obtain ⟨a, hR⟩ := Option.ne_none_iff_exists'.mp hsession
        obtain ⟨A, ha, _⟩ := hcoherent.call hr hR
        obtain ⟨_, hall⟩ := ((ledger_of_reachable hs).account hr hR ha).whole
          (by simp [hh, Handler.broken])
        have hmethod : R.method = .post ∨ R.method = .patch := by
          cases hm : R.method with
          | get => exact absurd hm hput
          | post => exact .inl rfl
          | patch => exact .inr rfl
          | other name => exact absurd hm (method_of_session hs hr hR name)
        have hne : R.chunks.flatten ≠ [] := by
          have hcounts := counts_of_reachable hs hr
          simpa [Counts, hh] using hcounts
        refine .written a A hmethod hR ha hne ?_ (hgrants.denied hr (.inr ⟨_, hh, ?_⟩))
        · simpa [hh, Handler.unanswered] using hall
        · simp [noContent, streamResponse]
      · obtain ⟨st, hst⟩ := hgrants.granted hr (.inr hh)
        obtain ⟨R', hR', hsession, _⟩ := hcoherent.stream hst
        obtain rfl : R = R' := Option.some.inj (hr.symm.trans hR')
        exact .stream st (hiff.mp rfl) hst hsession
  next e hh =>
      obtain rfl : e.intoResponse = resp := Option.some.inj hresp
      have hnone : s.streams r = none := hgrants.denied hr (.inr ⟨_, hh, by simp⟩)
      rcases error_code_of_reachable hs hr hh with hcode | hcode
      · rw [HttpError.intoResponse, hcode]
        exact .failed hnone
      · have hmany : e.code = .tooManyRequests → R.method = .get ∧ R.session.isSome := by
          simpa [Call.Fits, hh] using hfits
        obtain ⟨hget, hsession⟩ := hmany hcode
        obtain ⟨a, hR⟩ := Option.isSome_iff_exists.mp hsession
        rw [HttpError.intoResponse, hcode]
        exact .busy a hget hR hnone
  next => cases hresp

theorem done_of_response (h : R.response.isSome = true) : ∃ result, R.handler = .done result := by
  unfold Call.response at h
  split at h
  · next resp hh => exact ⟨_, hh⟩
  · next e hh => exact ⟨_, hh⟩
  · cases h

/-- A request that has been answered does not change. -/
theorem answered_kept {es : List ServerEvent} (hr : s.calls r = some R)
    (hresp : R.response.isSome = true) (h : (machine env).exec s es = some t) :
    t.calls r = some R := by
  obtain ⟨result, hdone⟩ := done_of_response hresp
  induction es generalizing s with
  | nil =>
      obtain rfl : s = t := by simpa using h
      exact hr
  | cons e es ih =>
      rw [Machine.exec_cons] at h
      obtain ⟨u, hu, ht⟩ := Option.bind_eq_some_iff.mp h
      obtain ⟨R', hR', hgrows⟩ := (Step.of_step hu).call_grows hr
      rw [hgrows.done result hdone] at hR'
      exact ih hR' ht

/-- Once a request has been answered it keeps its answer, whatever happens; and at any time
the answer says what has become of the request. -/
theorem answered_once (hs : (machine env).Reachable s) (hr : s.calls r = some R)
    {resp : Response} (hresp : R.response = some resp) {es : List ServerEvent}
    (h : (machine env).exec s es = some t) :
    ∃ R', t.calls r = some R' ∧ R'.response = some resp ∧ Answer t r R' resp := by
  have hkept := answered_kept hr (by simp [hresp]) h
  have ht : (machine env).Reachable t := hs.leads ⟨es, fun _ _ => trivial, h⟩
  exact ⟨R, hkept, hresp, answer_of_response ht hkept hresp⟩

/-- A second `GET` is answered while the first one streams. -/
def refusedGet : List ServerEvent := secondGet ++ [.handle 0, .reply 1]

theorem refusedGet_answered :
    ∃ s t, (machine sampleEnv).Reachable s ∧
      (machine sampleEnv).exec s [.dropStream 0, .tick 5] = some t ∧
      ∃ R, t.calls 1 = some R ∧ R.response = some ⟨.tooManyRequests, []⟩ ∧
        Answer t 1 R ⟨.tooManyRequests, []⟩ := by
  obtain ⟨s, hrun, hcall, hnext⟩ := Machine.exists_run (M := machine sampleEnv)
    (P := fun s => (s.calls 1).map Call.response = some (some ⟨.tooManyRequests, []⟩) ∧
      ((machine sampleEnv).exec s [.dropStream 0, .tick 5]).isSome = true) refusedGet (by decide)
  obtain ⟨R, hR, hresp⟩ := Option.map_eq_some_iff.mp hcall
  obtain ⟨t, ht⟩ := Option.isSome_iff_exists.mp hnext
  exact ⟨s, t, hrun.reachable, ht, answered_once hrun.reachable hR hresp ht⟩

end Server
end Fronting
