import Fronting.Readers
import Fronting.TunnelReads

/-!
# The client is not its own rival

The client sends a `GET` only when the body of the one before it has ended, and a stream of
a running session that has ended holds the lock no more. So the lock is free whenever a
`SessionRead` of the client is handled.
-/

namespace Fronting

open Function (update)

/-- The request is, or is to be, answered `TOO_MANY_REQUESTS`. -/
def Call.Refused (R : Call) : Prop :=
  R.handler = .readReply false ∨
    ∃ e, R.handler = .done (.error e) ∧ e.code = .tooManyRequests

namespace Server

variable {env : ServerEnv} {s t : Server} {e : ServerEvent} {q r : ReqId} {Q Q' R : Call}

theorem refused_setCall (hq : s.calls q = some Q) (hQ : Q'.Refused → Q.Refused)
    (hR : update s.calls q (some Q') r = some R) (hrefused : R.Refused) :
    ∃ R₀, s.calls r = some R₀ ∧ R₀.Refused := by
  by_cases hr : r = q
  · subst hr
    obtain rfl : Q' = R := by simpa using hR
    exact ⟨Q, hq, hQ hrefused⟩
  · exact ⟨R, by simpa [hr] using hR, hrefused⟩

theorem refused_newCall (hq : ¬ Q.Refused) (hR : update s.calls q (some Q) r = some R)
    (hrefused : R.Refused) : ∃ R₀, s.calls r = some R₀ ∧ R₀.Refused := by
  by_cases hr : r = q
  · subst hr
    obtain rfl : Q = R := by simpa using hR
    exact absurd hrefused hq
  · exact ⟨R, by simpa [hr] using hR, hrefused⟩

/-- An answer that grants refuses nothing. -/
theorem refused_replyTo (hcalls : t.calls = s.calls) (hR : (t.replyTo q true).calls r = some R)
    (hrefused : R.Refused) : ∃ R₀, s.calls r = some R₀ ∧ R₀.Refused := by
  rw [replyTo_calls, hcalls] at hR
  split at hR
  next hr =>
      subst hr
      obtain ⟨R₀, hR₀, rfl⟩ := Option.map_eq_some_iff.mp hR
      refine ⟨R₀, hR₀, ?_⟩
      unfold Call.Refused at hrefused ⊢
      cases hh : R₀.handler <;> simp_all [onReply]
  next => exact ⟨R, hR, hrefused⟩

theorem not_refused_start (x : Option Uuid) (m : Method) (a : Option ActorRef) :
    ¬ Call.Refused ⟨x, m, a, startHandler m, []⟩ := by
  unfold Call.Refused startHandler
  split <;> simp

theorem not_refused_of_badRequest {e : HttpError} (hR : R.handler = .done (.error e))
    (hcode : e.code = .badRequest) : ¬ R.Refused := by
  rintro (h | ⟨e', h, hcode'⟩)
  · rw [hR] at h
    cases h
  · rw [hR] at h
    cases h
    rw [hcode] at hcode'
    cases hcode'

theorem not_refused_body (Q : Call) (total : Nat) (b : BodyEvent) :
    ¬ (bodyStep Q total b).Refused := by
  cases b with
  | chunk data => simp [Call.Refused, bodyStep]
  | finished =>
      by_cases htotal : total = 0
      · exact not_refused_of_badRequest (e := .badRequest "Empty body")
          (by simp [bodyStep, htotal]) rfl
      · simp [Call.Refused, bodyStep, htotal]
  | error message => exact not_refused_of_badRequest rfl rfl

/-- A request is refused by a session whose lock is taken. -/
theorem Step.refused (h : Step env s e t) (hR : t.calls r = some R) (hrefused : R.Refused) :
    (∃ R₀, s.calls r = some R₀ ∧ R₀.Refused) ∨
      ∃ a A rest p, e = .handle a ∧ s.actors a = some A ∧ A.mailbox = .read r :: rest ∧
        A.life = .running ∧ A.handling = none ∧ A.reader = some p := by
  cases h with
  | reject x e hr hcode =>
      exact .inl (refused_newCall (not_refused_of_badRequest rfl hcode) hR hrefused)
  | join x b hr | create x hr | replace x b hr =>
      exact .inl (refused_newCall (not_refused_start _ _ _) hR hrefused)
  | cancel Q hq =>
      refine .inl (refused_setCall hq (fun h => ?_) hR hrefused)
      simp [Call.Refused] at h
  | body Q total hq hh =>
      refine .inl (refused_setCall hq (fun h => absurd h ?_) hR hrefused)
      exact not_refused_body Q total _
  | askWrite Q a A total data hq | askRead Q a A hq =>
      refine .inl (refused_setCall hq (fun h => ?_) hR hrefused)
      simp [Call.Refused] at h
  | askFailed Q a A e hq hQ ha he =>
      refine .inl (refused_setCall hq (fun h => absurd h ?_) hR hrefused)
      exact not_refused_of_badRequest rfl (code_of_askError he)
  | replyWrote Q total data hq | replyGranted Q hq =>
      refine .inl (refused_setCall hq (fun h => ?_) hR hrefused)
      simp [Call.Refused] at h
  | replyRefused Q hq hh => exact .inl (refused_setCall hq (fun _ => .inl hh) hR hrefused)
  | handleGranted | writeOk | writeErr =>
      refine .inl (refused_replyTo ?_ hR hrefused)
      rfl
  | @handleRefused a A rest q p ha hm hlife hidle hheld =>
      by_cases hr : r = q
      · subst hr
        exact .inr ⟨a, A, rest, p, rfl, ha, hm, hlife, hidle, hheld⟩
      · rw [replyTo_calls, if_neg hr] at hR
        exact .inl ⟨R, hR, hrefused⟩
  | dropAborts =>
      rw [dropAbortsStep_calls] at hR
      exact .inl ⟨R, hR, hrefused⟩
  | _ => exact .inl ⟨R, hR, hrefused⟩

end Server

namespace Tunnel

variable {env : TunnelEnv} {s t : Tunnel} {a : ActorRef} {A : Session} {r : ReqId}

/-- The lock is free when a `SessionRead` of the client is handled. -/
theorem reader_of_asked (hs : (machine env).Reachable s) (ha : s.server.actors a = some A)
    (hx : A.sessionId = env.client.sessionId) (hlife : A.life = .running)
    (hm : .read r ∈ A.asked) : A.reader = none := by
  have hreach := server_reachable hs
  have hcoherent := Server.coherent_of_reachable hreach
  by_contra hheld
  obtain ⟨q, hq⟩ := Option.ne_none_iff_exists'.mp hheld
  obtain ⟨st, hst, hsession, hopen, _⟩ := (Server.reader_iff_open hreach ha hlife).mp hq
  -- the stream that holds the lock belongs to an earlier `GET` of the client
  have hopened : q ∈ A.opened :=
    (Server.download_of_reachable hreach).listed hst (hsession ▸ ha)
  have hmem : q ∈ s.gets := (opened_sublist hs ha hx).subset hopened
  have hqr : q ≠ r := by
    rintro rfl
    exact absurd ((hcoherent.unread ha hm).symm.trans hst) (by simp)
  obtain ⟨earlier, hgets⟩ := last_of_asked hs ha hx hm
  have hwire := readWire_of_reachable hs
  have hnotlast : s.get ≠ .arrived q := by
    intro hlast
    obtain ⟨earlier', hgets'⟩ := hwire.arrived hlast
    obtain ⟨_, hsame⟩ := List.append_inj' (hgets'.symm.trans hgets) rfl
    exact hqr (List.singleton_inj.mp hsame)
  have hended := (hwire.complete hmem hnotlast).1
  simp [bodyEnded, hst, hopen] at hended

/-- No `GET` of the client is refused. -/
def NeverRefused (s : Tunnel) : Prop :=
  ∀ r ∈ s.gets, ∀ R, s.server.calls r = some R → ¬ R.Refused

theorem NeverRefused.server {d : ServerEvent} {u : Server} (h : NeverRefused s)
    (hs : (machine env).Reachable s) (hd : Server.Step env.server s.server d u)
    {R : Call} (hr : r ∈ s.gets) (hR : u.calls r = some R) : ¬ R.Refused := by
  intro hrefused
  rcases hd.refused hR hrefused with
    ⟨R₀, hR₀, hrefused₀⟩ | ⟨a, A, rest, q, _, ha, hm, hlife, hidle, hheld⟩
  · exact h r hr R₀ hR₀ hrefused₀
  · have hcoherent := Server.coherent_of_reachable (server_reachable hs)
    have hasked : Message.read r ∈ A.asked := by simp [Session.asked_cons hm hidle]
    obtain ⟨R₀, hR₀, hx, _⟩ := (named_of_reachable hs).get hr
    obtain ⟨R₁, hR₁, hsession, _⟩ := hcoherent.asked ha hasked rfl
    obtain rfl : R₀ = R₁ := Option.some.inj (hR₀.symm.trans hR₁)
    obtain ⟨A', ha', hid⟩ := hcoherent.call hR₀ hsession
    obtain rfl : A = A' := Option.some.inj (ha.symm.trans ha')
    have hfree := reader_of_asked hs ha (Option.some.inj (hid.symm.trans hx)) hlife hasked
    exact absurd (hfree.symm.trans hheld) (by simp)

theorem neverRefused_of_reachable (hs : (machine env).Reachable s) : NeverRefused s := by
  refine hs.invariant ?_ ?_
  · intro r hr
    simp [machine, init] at hr
  · intro s e t hs h hstep r hr R hR
    cases Step.of_step hstep with
    | server d u _ hd => exact h.server hs (.of_step hd) hr hR
    | client e c =>
        obtain ⟨hserver, _, hgets, _⟩ := afterClient_server env s c e
        rw [hserver] at hR
        rw [hgets] at hr
        exact h r hr R hR
    | getArrives q fresh req body u _ hd =>
        rcases List.mem_append.mp hr with hr | hr
        · exact h.server hs (.of_step hd) hr hR
        · obtain rfl := List.mem_singleton.mp hr
          intro hrefused
          rcases (Server.Step.of_step hd).refused hR hrefused with
            ⟨R₀, hR₀, _⟩ | ⟨_, _, _, _, he, _⟩
          · exact absurd ((Server.Step.of_step hd).arrives.1.symm.trans hR₀) (by simp)
          · cases he
    | putArrives q fresh req body u _ hd => exact h.server hs (.of_step hd) hr hR
    | putBody q e u _ _ hd => exact h.server hs (.of_step hd) hr hR

/-- No `GET` of a client that has its session id for itself is answered
`TOO_MANY_REQUESTS`. -/
theorem never_tooManyRequests (hs : (machine env).Reachable s) (hr : r ∈ s.gets) {R : Call}
    (hR : s.server.calls r = some R) {resp : Response} (hresp : R.response = some resp) :
    resp.status ≠ .tooManyRequests := by
  intro hstatus
  refine neverRefused_of_reachable hs r hr R hR (.inr ?_)
  unfold Call.response at hresp
  split at hresp
  next resp' hh =>
      obtain rfl : resp' = resp := Option.some.inj hresp
      rcases Server.response_of_ok (server_reachable hs) hR hh with rfl | rfl
      · cases hstatus
      · cases hstatus
  next e hh =>
      obtain rfl : e.intoResponse = resp := Option.some.inj hresp
      exact ⟨e, hh, hstatus⟩
  next => cases hresp

/-- The client reads a response to its end and sends its next `GET`. -/
def nextGet : List TunnelEvent :=
  readByte ++ [.server (.poll 0 (.data 1)), .server (.tell 0), .server (.poll 0 .pending),
    .client (.io .flushed), .client (.io (.frame (.data [6]))), .client (.io .push),
    .client (.io .flushed), .client (.io (.frame .finished)), .client (.io (.sendRead 1)),
    .getArrives 1 1, .server (.ask 1), .server (.handle 0), .server (.handle 0),
    .server (.handle 0), .server (.reply 1)]

theorem nextGet_answered :
    ∃ s R resp, (machine sampleEnv).Reachable s ∧ s.gets = [0, 1] ∧ s.server.calls 1 = some R ∧
      R.session = some 0 ∧ R.response = some resp ∧ resp.status ≠ .tooManyRequests := by
  obtain ⟨s, hrun, hgets, hcall⟩ := Machine.exists_run (M := machine sampleEnv)
    (P := fun s => s.gets = [0, 1] ∧ (s.server.calls 1).map (fun R => (R.session, R.response)) =
      some (some 0, some Server.streamResponse)) nextGet (by decide)
  obtain ⟨R, hR, hcall⟩ := Option.map_eq_some_iff.mp hcall
  obtain ⟨hsession, hresp⟩ := Prod.mk.inj hcall
  refine ⟨s, R, Server.streamResponse, hrun.reachable, hgets, hR, hsession, hresp, ?_⟩
  exact never_tooManyRequests hrun.reachable (hgets ▸ by simp) hR hresp

end Tunnel
end Fronting
