import Fronting.Statuses
import Fronting.TunnelBytes
import Fronting.TunnelGets

/-!
# Where the client's requests stand

Each pump of the client waits for the answer to the request that it has sent last. While it
waits, that request is on its way or at the server; and a request that waits for its session
is in the session's mailbox or handler.
-/

namespace Fronting

open Function (update)

/-- `pump_incoming` is in a response body. -/
def Incoming.inBody : Incoming → Bool
  | .streaming | .sending _ | .flushing _ => true
  | _ => false

namespace Server

variable {env : ServerEnv} {s t : Server} {a : ActorRef} {A : Session} {r : ReqId} {R : Call}

/-- Identities do not run out. -/
theorem exists_fresh (hs : (machine env).Reachable s) :
    ∃ r a, s.calls r = none ∧ s.actors a = none := by
  obtain ⟨n, hn⟩ := exists_bound hs
  exact ⟨n, n, hn n le_rfl⟩

/-- A write whose reply is awaited is queued, or in the handler. -/
theorem asked_of_awaitWrite (hs : (machine env).Reachable s) (hr : s.calls r = some R)
    (hR : R.session = some a) (ha : s.actors a = some A) (halive : A.isAlive) {total : Nat}
    {data : Bytes} (hh : R.handler = .awaitWrite total data) : A.asked ≠ [] := by
  intro hnone
  obtain ⟨lost, hqueue, hlost⟩ := (Session.Upload.of_reachable hs ha).queue
  obtain ⟨haccepted, hfinished⟩ :=
    ((ledger_of_reachable hs).account hr hR ha).whole (by simp [hh, Handler.broken])
  have hidle : A.handling = none ∧ A.mailbox = [] := by
    cases hw : A.handling <;> simp [Session.asked, hw] at hnone ⊢
    exact hnone
  -- all that was accepted has returned, the awaited write too
  have hall : A.accepted = A.returned := by
    rw [hqueue, hlost halive]
    simp [Session.current, Session.queued, hidle.1, hidle.2]
  have hsame : A.acceptedOf r = (A.finishedOf r).map Written.bytes := by
    rw [Session.acceptedOf, hall, Session.returned, Session.finishedOf, List.filter_map,
      List.map_map]
    rfl
  rw [hh] at haccepted hfinished
  have hlength := congrArg List.length (haccepted.trans hfinished.symm)
  rw [hsame] at hlength
  simp [Handler.unsent, Handler.unanswered] at hlength

end Server

namespace Tunnel

variable {env : TunnelEnv} {s t : Tunnel} {r : ReqId} {e : TunnelEvent}

/-- What `pump_incoming` waits for, or streams. -/
structure Phases (s : Tunnel) : Prop where
  asked : s.client.incoming = .awaiting → s.get ≠ .idle
  body : s.client.incoming.inBody = true →
    ∃ r R, s.get = .arrived r ∧ s.server.calls r = some R ∧ R.response.isSome = true

theorem Phases.init : Phases Tunnel.init := by
  constructor
  · intro h
    cases h
  · intro h
    cases h

/-- The server has gone on. -/
theorem Phases.server {d : ServerEvent} (h : Phases s)
    (hstep : Server.Step env.server s.server d t.server) (hclient : t.client = s.client)
    (hget : t.get = s.get) : Phases t := by
  constructor
  · rw [hclient, hget]
    exact h.asked
  · rw [hclient, hget]
    intro hin
    obtain ⟨r, R, hr, hR, hresp⟩ := h.body hin
    obtain ⟨R', hR', hgrows⟩ := hstep.call_grows hR
    obtain ⟨result, hdone⟩ := Server.done_of_response hresp
    obtain rfl : R' = R := hgrows.done result hdone
    exact ⟨r, R', hr, hR', hresp⟩

theorem Phases.frame (h : Phases s) (hserver : t.server = s.server) (hget : t.get = s.get)
    (hasked : t.client.incoming = .awaiting → s.client.incoming = .awaiting)
    (hbody : t.client.incoming.inBody = true → s.client.incoming.inBody = true) : Phases t := by
  constructor
  · rw [hget]
    exact fun hin => h.asked (hasked hin)
  · rw [hget, hserver]
    exact fun hin => h.body (hbody hin)

/-- `pump_incoming` is between two requests, or has ended. -/
theorem Phases.rest (hasked : t.client.incoming ≠ .awaiting)
    (hbody : t.client.incoming.inBody = false) : Phases t := by
  constructor
  · exact fun hin => absurd hin hasked
  · exact fun hin => absurd (hbody.symm.trans hin) Bool.false_ne_true

theorem arrived_of_answered {status : StatusCode} {x : Exchange}
    (h : s.answered status x = true) :
    ∃ r R, x = .arrived r ∧ s.server.calls r = some R ∧ R.response.isSome = true := by
  unfold answered at h
  split at h
  next r =>
      obtain ⟨resp, hresp, _⟩ := (Option.any_eq_true _ _).mp h
      obtain ⟨R, hR, hresp⟩ := Option.bind_eq_some_iff.mp hresp
      exact ⟨r, R, rfl, hR, by rw [hresp]; rfl⟩
  next => exact absurd h Bool.false_ne_true

theorem Phases.io {c : Client} {e : IoEvent} (h : Phases s) (hreports : s.reports (.io e) = true)
    (hio : Client.Io env.client s.client e c) : Phases (s.afterClient env c (.io e)) := by
  cases hio with
  | sendRead path req hin hreq =>
      constructor
      · simp [afterClient, hreq]
      · simp [afterClient, hreq, Incoming.inBody]
  | noReadRequest path hin hreq =>
      refine .rest ?_ ?_ <;> simp [afterClient, hreq, Client.fail, Incoming.inBody]
  | readResponse status hin hstatus =>
      have hanswered : s.answered status s.get = true := by simpa [reports, hstatus] using hreports
      obtain ⟨r, R, hget, hR, hresp⟩ := arrived_of_answered hanswered
      constructor
      · intro hnext
        cases hnext
      · exact fun _ => ⟨r, R, hget, hR, hresp⟩
  | dataFrame bytes hin =>
      obtain ⟨r, hget, _⟩ := arrived_of_data hreports
      have hbody : s.client.incoming.inBody = true := by rw [hin]; rfl
      refine h.frame ?_ ?_ ?_ fun _ => hbody
      · simp [afterClient, hget]
      · simp [afterClient, hget]
      · simp [afterClient, hget]
  | bodyError message hin | push item hin | flushed hin =>
      have hbody : s.client.incoming.inBody = true := by rw [hin]; rfl
      exact h.frame rfl rfl (fun hnext => by cases hnext) fun _ => hbody
  | recv first chunk path req hout hslot hreq =>
      refine h.frame ?_ ?_ ?_ ?_ <;> simp [afterClient, hreq]
  | emptyFrame hin =>
      obtain ⟨r, _, hne, _⟩ := arrived_of_data hreports
      exact absurd rfl hne
  | readStatus | readError | bodyFinished | pushDropped | flushedLast =>
      refine .rest ?_ rfl
      simp [afterClient, Client.fail, Client.settle]
  | _ => exact h.frame rfl rfl id id

theorem Phases.client {c : Client} {e : ClientEvent} (h : Phases s) (hreports : s.reports e = true)
    (hstep : Client.Step env.client s.client e c) : Phases (s.afterClient env c e) := by
  cases hstep with
  | resume op =>
      obtain ⟨hin, _⟩ := Client.pollInner_pumps s.client op
      have hsame : (s.client.resume op).incoming = s.client.incoming := hin
      refine h.frame rfl rfl ?_ ?_
      · exact fun hnext => hsame.symm.trans hnext
      · exact fun hnext => hsame ▸ hnext
  | io e c _ hio => exact h.io hreports hio
  | _ => exact h.frame rfl rfl id id

theorem phases_of_reachable (hs : (machine env).Reachable s) : Phases s := by
  refine hs.invariant Phases.init ?_
  intro s e t _ h hstep
  cases Step.of_step hstep with
  | server d u _ hd => exact h.server (.of_step hd) rfl rfl
  | client e c hreports hc => exact h.client hreports (.of_step hc)
  | getArrives r fresh req body u hget hd =>
      have hbody : s.client.incoming.inBody = false := by
        by_contra hin
        obtain ⟨q, R, hq, _⟩ := h.body (eq_true_of_ne_false hin)
        rw [hget] at hq
        cases hq
      constructor
      · intro _ hidle
        cases hidle
      · exact fun hin => absurd (hbody.symm.trans hin) Bool.false_ne_true
  | putArrives r fresh req body u _ hd => exact h.server (.of_step hd) rfl rfl
  | putBody r e u _ _ hd => exact h.server (.of_step hd) rfl rfl

/-- The chunk that `pump_outgoing` waits for is the body of the last write request. -/
theorem put_of_awaiting (hs : (machine env).Reachable s) {first : Bool} {chunk : Bytes}
    (hout : s.client.outgoing = .awaiting first chunk) :
    (∃ req, s.put = .sent req chunk) ∨ ∃ r, s.put = .arrived r ∧ s.sent r = chunk := by
  have hwire := writeWire_of_reachable hs
  have htaken := hwire.taken (by simp [hout])
  have hlast : s.client.taken = s.client.acked ++ [chunk] := by
    simpa [hout, Outgoing.inFlight] using
      (Client.outbox_of_reachable (client_reachable hs)).taken (by simp [hout])
  have hboth := hlast.symm.trans htaken
  cases hput : s.put with
  | idle =>
      rw [hput, hwire.idle hput] at hboth
      simp [Exchange.body] at hboth
  | sent req body =>
      rw [hput] at hboth
      obtain ⟨_, hbody⟩ := List.append_inj' hboth rfl
      exact .inl ⟨req, by rw [List.singleton_inj.mp hbody]⟩
  | arrived r =>
      obtain ⟨earlier, hputs⟩ := hwire.arrived hput
      have hempty : s.put.body = [] := by
        rw [hput]
        rfl
      rw [hempty, hputs, List.append_nil, List.map_append] at hboth
      obtain ⟨_, hbody⟩ := List.append_inj' hboth rfl
      exact .inr ⟨r, rfl, (List.singleton_inj.mp hbody).symm⟩

end Tunnel
end Fronting
