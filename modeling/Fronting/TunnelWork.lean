import Fronting.ClientBodies
import Fronting.Isolation
import Fronting.TunnelPhases
import Mathlib.Algebra.GroupWithZero.Nat

/-!
# What a tunnel has left to do

`work` bounds the steps that a healthy tunnel takes before all bytes are where they should
be. `Healthy` says that nothing has failed, been cancelled or been dropped; it does not say
how far anything has come.
-/

namespace Fronting

open Function (update)

/-- A message, and what becomes of it. -/
def Message.weight : Message → Nat
  | .write _ bytes => 2 * bytes.length + 4
  | .read _ | .resetIdleTimeout => 1

theorem Message.weight_pos (m : Message) : 0 < m.weight := by
  cases m <;> simp [weight]

def Writing.weight (w : Writing) : Nat := 2 * (w.bytes.length - w.offset) + 3

/-- What the actor has left to do, and the bytes that wait at its upstream connection. -/
def Session.load (A : Session) : Nat :=
  (A.mailbox.map Message.weight).sum + A.handling.elim 0 Writing.weight + A.upstream.tx.length +
    8 * A.upstream.rx.length

/-- How far a `GET` is from its response. -/
def Handler.readRank : Handler → Nat
  | .sendRead => 6
  | .awaitRead => 4
  | .readReply _ => 3
  | _ => 2

/-- How far a write request is from the next item of its body. -/
def Handler.writeRank : Handler → Nat
  | .nextChunk _ => 2
  | .sendWrite _ data => 3 * data.length + 10
  | .awaitWrite .. => 5
  | .wrote .. => 4
  | _ => 1

def Incoming.rank : Incoming → Nat
  | .sending _ => 4
  | .flushing _ => 1
  | _ => 0

/-- `pump_incoming` has not ended, and no error is on its way to the reader. -/
def Incoming.forwards : Incoming → Bool
  | .done | .sending (.error _) | .flushing true => false
  | _ => true

theorem readRank_onReply (b : Bool) (h : Handler) :
    (Server.onReply b h).readRank ≤ h.readRank := by
  cases h <;> simp [Server.onReply, Handler.readRank]

theorem writeRank_onReply (b : Bool) (h : Handler) :
    (Server.onReply b h).writeRank ≤ h.writeRank := by
  cases h <;> simp [Server.onReply, Handler.writeRank]

namespace Server

variable {env : ServerEnv} {s t u : Server} {a : ActorRef} {r : ReqId} {R : Call}

/-- The end of a response body that the client has to see. -/
def endRank (s : Server) (r : ReqId) : Nat := if (s.streams r).any ReadStream.ended then 9 else 0

def handOf (s : Server) (r : ReqId) : Bytes := (s.streams r).elim [] ReadStream.inHand

def readRank (s : Server) (r : ReqId) : Nat :=
  (s.calls r).elim 0 fun R => R.handler.readRank

/-- What is left of a write request with this body. -/
def writeWork (s : Server) (body : Bytes) (r : ReqId) : Nat :=
  (s.calls r).elim 0 fun R =>
    20 * (body.length - R.chunks.flatten.length) + R.handler.writeRank

/-- The `GET` is being served, and its response has not been dropped before its end. -/
def GetServed (s : Server) (r : ReqId) : Prop :=
  ∃ R, s.calls r = some R ∧
    (R.handler = .sendRead ∨ R.handler = .awaitRead ∨
      (R.handler = .readReply true ∨ R.handler = .done (.ok streamResponse)) ∧
        ∃ st, s.streams r = some st ∧ (st.ended = true ∨ st.dropped = false))

theorem GetServed.congr (h : s.GetServed r) (hcall : t.calls r = s.calls r)
    (hstream : t.streams r = s.streams r) : t.GetServed r := by
  unfold GetServed
  rw [hcall, hstream]
  exact h

/-- The request waits for no reply to a write. -/
theorem GetServed.not_awaitWrite (h : s.GetServed r) (hr : s.calls r = some R) (total : Nat)
    (data : Bytes) : R.handler ≠ .awaitWrite total data ∧ R.handler ≠ .cancelled := by
  obtain ⟨R', hR', hh⟩ := h
  obtain rfl : R = R' := Option.some.inj (hr.symm.trans hR')
  rcases hh with hh | hh | ⟨hh | hh, _⟩ <;> simp [hh]

theorem readRank_eq (hr : s.calls r = some R) : s.readRank r = R.handler.readRank := by
  rw [readRank, hr, Option.elim_some]

theorem writeWork_eq (hr : s.calls r = some R) (body : Bytes) :
    s.writeWork body r = 20 * (body.length - R.chunks.flatten.length) + R.handler.writeRank := by
  rw [writeWork, hr, Option.elim_some]

theorem readRank_replyTo (hcalls : t.calls = s.calls) (q : ReqId) (b : Bool) (r : ReqId) :
    (t.replyTo q b).readRank r ≤ s.readRank r := by
  rw [readRank, readRank, replyTo_calls, hcalls]
  split
  next hr =>
      subst hr
      cases hR : s.calls r with
      | none => simp
      | some R => exact readRank_onReply b R.handler
  next => rfl

theorem writeWork_replyTo (hcalls : t.calls = s.calls) (q : ReqId) (b : Bool) (body : Bytes)
    (r : ReqId) : (t.replyTo q b).writeWork body r ≤ s.writeWork body r := by
  rw [writeWork, writeWork, replyTo_calls, hcalls]
  split
  next hr =>
      subst hr
      cases hR : s.calls r with
      | none => simp
      | some R => exact Nat.add_le_add_left (writeRank_onReply b R.handler) _
  next => rfl

end Server

namespace Tunnel

variable {env : TunnelEnv} {s t : Tunnel} {a : ActorRef} {A A' : Session} {r : ReqId}

/-- How far `pump_incoming` is from a response that is being streamed. -/
def stage (s : Tunnel) : Nat :=
  match s.client.incoming, s.get with
  | .start, _ => 8
  | .awaiting, .sent .. => 7
  | .awaiting, .arrived r => s.server.endRank r + s.server.readRank r
  | _, .arrived r => s.server.endRank r
  | _, _ => 0

/-- The bytes of the last response that the client has not seen. -/
def bodyWork (s : Tunnel) : Nat :=
  match s.get with
  | .arrived r =>
    5 * ((s.server.framesOf r).length - (s.seen r).length) + 7 * (s.server.handOf r).length
  | _ => 0

def putWork (s : Tunnel) : Nat :=
  match s.client.outgoing, s.put with
  | .awaiting .., .sent _ body => 20 * body.length + 3
  | .awaiting .., .arrived r => s.server.writeWork (s.sent r) r
  | _, _ => 0

def slotWork (s : Tunnel) : Nat := s.client.slot.elim 0 fun chunk => 20 * chunk.length + 4

def work (a : ActorRef) (s : Tunnel) : Nat :=
  s.stage + s.bodyWork + s.client.incoming.rank + s.client.toRead + s.putWork + s.slotWork +
    (s.server.actors a).elim 0 Session.load

/-- The client's only session runs, and nothing of the tunnel has failed. -/
structure Healthy (env : TunnelEnv) (a : ActorRef) (s : Tunnel) : Prop where
  serves : Serves env s a
  entry : s.server.sessions env.client.sessionId = some a
  session : ∃ A, s.server.actors a = some A ∧ A.life = .running ∧ 0 < A.upstream.txCap
  task : s.client.task = .running
  dropped : s.client.dropped = false
  call : s.client.call = none
  incoming : s.client.incoming.forwards = true
  outgoing : s.client.outgoing ≠ .done
  get : ∀ r, s.get = .arrived r → s.client.incoming ≠ .start → s.server.GetServed r
  put : Unbroken s
  chunks : [] ∉ s.client.accepted

/-- The steps that move bytes on. No time passes, nothing fails or ends, the owner only
reads, and upstream only takes. -/
def Flow (a : ActorRef) : TunnelEvent → Prop
  | .server (.handle b) | .server (.writeOk b) | .server (.actor b (.write _))
  | .server (.actor b (.upstreamTake _)) => b = a
  | .server (.ask _) | .server (.reply _) | .server (.poll _ (.data _)) | .server (.tell _) =>
    True
  | .client (.poll (.read _)) | .client .resume => True
  | .client (.io (.readResponse status)) => status = .ok
  | .client (.io (.writeResponse status)) => status = .noContent
  | .client (.io (.frame (.data _))) | .client (.io (.frame .finished)) => True
  | .client (.io (.sendRead _)) | .client (.io (.recv _)) | .client (.io .push)
  | .client (.io .flushed) => True
  | .getArrives .. | .putArrives .. | .putBody (.chunk _) | .putBody .finished => True
  | _ => False

/-- The tunnel gets on: it stays healthy, and takes in nothing new. -/
structure Advance (env : TunnelEnv) (a : ActorRef) (s t : Tunnel) : Prop where
  leads : (machine env).Leads (Flow a) s t
  healthy : Healthy env a t
  work : t.work a < s.work a
  produced : t.server.producedBy a = s.server.producedBy a
  sent : sentIn t.client.log = sentIn s.client.log

/-- Without a request of its own, a session stays the client's only one. -/
theorem Serves.server {d : ServerEvent} {u : Server} (h : Serves env s a)
    (hstep : Server.Step env.server s.server d u) (ha : s.server.actors a = some A)
    (hreq : ∀ r req fresh, d ≠ .request r req fresh) :
    Serves env { s with server := u } a := by
  have hback : ∀ rs, ServedBy s rs a → ServedBy { s with server := u } rs a := by
    intro rs hserved r hr R' b hR' hb
    rcases hstep.call_cases hR' with ⟨R, hR, hgrows⟩ | ⟨_, req, fresh, heq, _⟩
    · exact hserved r hr R b hR (hgrows.session.symm.trans hb)
    · exact absurd heq (hreq r req fresh)
  constructor
  · intro A' ha'
    rcases hstep.move ha' with ⟨A₀, ha₀, hmove⟩ | ⟨x, _, hnew⟩
    · exact hmove.sessionId.trans (h.mine A₀ ha₀)
    · exact absurd (hnew.fresh.symm.trans ha) (by simp)
  · exact hback _ h.gets
  · exact hback _ h.puts

theorem stage_le {u : Server}
    (hget : ∀ r, s.get = .arrived r →
      u.endRank r = s.server.endRank r ∧ u.readRank r ≤ s.server.readRank r) :
    ({ s with server := u } : Tunnel).stage ≤ s.stage := by
  unfold stage
  cases hx : s.get with
  | arrived r =>
      obtain ⟨hend, hrank⟩ := hget r hx
      cases hin : s.client.incoming <;> simp only [hend, le_refl]
      exact Nat.add_le_add_left hrank _
  | _ => cases hin : s.client.incoming <;> simp

theorem bodyWork_eq {u : Server}
    (hget : ∀ r, s.get = .arrived r →
      u.framesOf r = s.server.framesOf r ∧ u.handOf r = s.server.handOf r) :
    ({ s with server := u } : Tunnel).bodyWork = s.bodyWork := by
  unfold bodyWork
  cases hx : s.get with
  | arrived r =>
      obtain ⟨hframes, hhand⟩ := hget r hx
      simp only [hframes, hhand]
  | _ => rfl

theorem putWork_le {u : Server}
    (hput : ∀ r, s.put = .arrived r →
      u.writeWork (s.sent r) r ≤ s.server.writeWork (s.sent r) r) :
    ({ s with server := u } : Tunnel).putWork ≤ s.putWork := by
  unfold putWork
  cases hout : s.client.outgoing with
  | awaiting first chunk =>
      cases hx : s.put with
      | arrived r => exact hput r hx
      | _ => simp
  | _ => simp

/-- The server's share of the work. -/
theorem work_lt {u : Server} (ha : s.server.actors a = some A) (ha' : u.actors a = some A')
    (hless : ({ s with server := u } : Tunnel).stage + ({ s with server := u } : Tunnel).bodyWork +
      ({ s with server := u } : Tunnel).putWork + A'.load <
        s.stage + s.bodyWork + s.putWork + A.load) :
    ({ s with server := u } : Tunnel).work a < s.work a := by
  have hslot : ({ s with server := u } : Tunnel).slotWork = s.slotWork := rfl
  simp only [work, hslot, ha, ha', Option.elim_some]
  omega

/-- The last `GET` and the last write request are different requests. -/
theorem get_ne_put (hs : (machine env).Reachable s) {q : ReqId} (hget : s.get = .arrived r)
    (hput : s.put = .arrived q) : q ≠ r := by
  rintro rfl
  have hnamed := named_of_reachable hs
  obtain ⟨before, hgets⟩ := (readWire_of_reachable hs).arrived hget
  obtain ⟨before', hputs⟩ := (writeWire_of_reachable hs).arrived hput
  obtain ⟨R, hR, _, hmethod⟩ := hnamed.get (by simp [hgets] : q ∈ s.gets)
  obtain ⟨R', hR', _, hmethod'⟩ := hnamed.put (by simp [hputs] : q ∈ s.puts)
  obtain rfl : R = R' := Option.some.inj (hR.symm.trans hR')
  exact hmethod' hmethod

/-- The server has gone on by itself. -/
theorem Healthy.server {d : ServerEvent} {u : Server} (h : Healthy env a s)
    (ha : s.server.actors a = some A) (hstep : Server.Step env.server s.server d u)
    (hreq : ∀ r req fresh, d ≠ .request r req fresh)
    (hsessions : u.sessions = s.server.sessions) (ha' : u.actors a = some A')
    (hlife : A'.life = .running) (hcap : A'.upstream.txCap = A.upstream.txCap)
    (hget : ∀ r, s.get = .arrived r → s.client.incoming ≠ .start → u.GetServed r)
    (hput : ∀ r R, s.put = .arrived r → u.calls r = some R → R.handler.broken = false) :
    Healthy env a { s with server := u } := by
  obtain ⟨B, hB, _, hpos⟩ := h.session
  obtain rfl : A = B := Option.some.inj (ha.symm.trans hB)
  constructor
  · exact h.serves.server hstep ha hreq
  · exact (congrFun hsessions _).trans h.entry
  · exact ⟨A', ha', hlife, hcap ▸ hpos⟩
  · exact h.task
  · exact h.dropped
  · exact h.call
  · exact h.incoming
  · exact h.outgoing
  · exact hget
  · exact hput
  · exact h.chunks

theorem Advance.of_server {d : ServerEvent} {u : Server}
    (hstep : Server.Step env.server s.server d u) (hflow : Flow a (.server d))
    (hhealthy : Healthy env a { s with server := u }) (ha : s.server.actors a = some A)
    (ha' : u.actors a = some A') (hproduced : A'.upstream.produced = A.upstream.produced)
    (hless : ({ s with server := u } : Tunnel).work a < s.work a) :
    Advance env a s { s with server := u } := by
  have hreq : ∀ r req fresh, d ≠ .request r req fresh := by
    rintro r req fresh rfl
    exact hflow
  have halone : s.alone env d = true := by
    cases d with
    | request r req fresh => exact absurd rfl (hreq r req fresh)
    | body r e => exact absurd hflow id
    | _ => rfl
  have hnext : (machine env).step s (.server d) = some { s with server := u } := by
    simp [machine, step, halone, hstep.step_eq hreq]
  refine ⟨.of_step hflow hnext, hhealthy, hless, ?_, rfl⟩
  rw [Server.producedBy_eq ha, Server.producedBy_eq ha']
  exact hproduced

/-- A step of the session that touches no request and no stream. -/
theorem Healthy.advance_actor {d : ServerEvent} (h : Healthy env a s)
    (ha : s.server.actors a = some A)
    (hstep : Server.Step env.server s.server d (s.server.setActor a A'))
    (hflow : Flow a (.server d)) (hlife : A'.life = .running)
    (hcap : A'.upstream.txCap = A.upstream.txCap)
    (hproduced : A'.upstream.produced = A.upstream.produced) (hload : A'.load < A.load) :
    ∃ t, Advance env a s t := by
  have ha' : (s.server.setActor a A').actors a = some A' := by simp
  have hreq : ∀ r req fresh, d ≠ .request r req fresh := by
    rintro r req fresh rfl
    exact hflow
  have hhealthy := h.server ha hstep hreq rfl ha' hlife hcap h.get h.put
  refine ⟨_, .of_server hstep hflow hhealthy ha ha' hproduced ?_⟩
  exact work_lt ha ha' (Nat.add_lt_add_left hload (s.stage + s.bodyWork + s.putWork))

/-- A step of the session that answers a request. -/
theorem Healthy.advance_reply {d : ServerEvent} {u : Server} {q : ReqId} {b : Bool}
    (h : Healthy env a s) (ha : s.server.actors a = some A)
    (hstep : Server.Step env.server s.server d (u.replyTo q b)) (hflow : Flow a (.server d))
    (hcalls : u.calls = s.server.calls) (hsessions : u.sessions = s.server.sessions)
    (ha' : u.actors a = some A') (hlife : A'.life = .running)
    (hcap : A'.upstream.txCap = A.upstream.txCap)
    (hproduced : A'.upstream.produced = A.upstream.produced)
    (hget : ∀ r, s.get = .arrived r → u.endRank r = s.server.endRank r ∧
      u.framesOf r = s.server.framesOf r ∧ u.handOf r = s.server.handOf r ∧
      (s.client.incoming ≠ .start → (u.replyTo q b).GetServed r))
    (hload : A'.load < A.load) : ∃ t, Advance env a s t := by
  have ha'' : (u.replyTo q b).actors a = some A' := by rw [Server.replyTo_actors, ha']
  have hstreams : (u.replyTo q b).streams = u.streams := u.replyTo_streams q b
  have hreq : ∀ r req fresh, d ≠ .request r req fresh := by
    rintro r req fresh rfl
    exact hflow
  have hhealthy : Healthy env a { s with server := u.replyTo q b } := by
    refine h.server ha hstep hreq ((u.replyTo_sessions q b).trans hsessions) ha'' hlife hcap
      (fun r hr => (hget r hr).2.2.2) fun r R hr hR => ?_
    obtain ⟨R₀, hR₀, hsame⟩ := Server.broken_replyTo hcalls hR
    exact hsame.trans (h.put r R₀ hr hR₀)
  refine ⟨_, .of_server hstep hflow hhealthy ha ha'' hproduced ?_⟩
  have hstage : ({ s with server := u.replyTo q b } : Tunnel).stage ≤ s.stage := by
    refine stage_le fun r hr => ⟨?_, Server.readRank_replyTo hcalls q b r⟩
    rw [Server.endRank, hstreams]
    exact (hget r hr).1
  have hbody : ({ s with server := u.replyTo q b } : Tunnel).bodyWork = s.bodyWork := by
    refine bodyWork_eq fun r hr => ?_
    rw [Server.framesOf, Server.handOf, hstreams]
    exact ⟨(hget r hr).2.1, (hget r hr).2.2.1⟩
  have hputs : ({ s with server := u.replyTo q b } : Tunnel).putWork ≤ s.putWork :=
    putWork_le fun r _ => Server.writeWork_replyTo hcalls q b (s.sent r) r
  exact work_lt ha ha'' (by omega)

end Tunnel
end Fronting
