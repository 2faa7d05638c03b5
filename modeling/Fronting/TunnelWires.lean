import Fronting.Tunnel
import Fronting.Growth
import Fronting.ClientReads

/-!
# The client's requests at the server

The client has one `GET` and one write request under way at a time. So all but the last
of its `GET`s have been read to the end of their bodies, and all but the last of its write
requests have been answered `NO_CONTENT`.
-/

namespace Fronting.Tunnel

open Function (update)

variable {env : TunnelEnv} {s t : Tunnel} {r : ReqId}

/-- The requests that carry the client's session id are those it has sent. -/
structure Named (env : TunnelEnv) (s : Tunnel) : Prop where
  mine : ∀ {r R}, s.server.calls r = some R → R.sessionId = some env.client.sessionId →
    r ∈ s.gets ∨ r ∈ s.puts
  get : ∀ {r}, r ∈ s.gets → ∃ R, s.server.calls r = some R ∧
    R.sessionId = some env.client.sessionId ∧ R.method = .get
  put : ∀ {r}, r ∈ s.puts → ∃ R, s.server.calls r = some R ∧
    R.sessionId = some env.client.sessionId ∧ R.method ≠ .get
  getsNodup : s.gets.Nodup
  putsNodup : s.puts.Nodup
  getSent : ∀ {req body}, s.get = .sent req body →
    req.sessionId env.server.http env.server.sessionKey = some env.client.sessionId ∧
      req.method = .get
  putSent : ∀ {req body}, s.put = .sent req body →
    req.sessionId env.server.http env.server.sessionKey = some env.client.sessionId ∧
      req.method ≠ .get

theorem Named.init : Named env Tunnel.init := by
  constructor <;> intros <;> simp_all [Tunnel.init, Server.init]

theorem readRequest_sessionId {path : Uuid} {req : Request}
    (h : createReadRequest env.client.http env.client.config env.client.sessionId path = some req) :
    req.sessionId env.server.http env.server.sessionKey = some env.client.sessionId ∧
      req.method = .get := by
  constructor
  · rw [env.http, env.sessionKey]
    exact createReadRequest_sessionId env.carries h
  · exact createReadRequest_method h

theorem writeRequest_sessionId {first : Bool} {path : Uuid} {req : Request}
    (h : createWriteRequest env.client.http env.client.config env.client.sessionId first path =
      some req) :
    req.sessionId env.server.http env.server.sessionKey = some env.client.sessionId ∧
      req.method ≠ .get := by
  constructor
  · rw [env.http, env.sessionKey]
    exact createWriteRequest_sessionId env.carries h
  · rw [createWriteRequest_method h]
    cases first <;> simp

/-- The server has gone on by itself, or with the body of a request. -/
theorem Named.server {d : ServerEvent} {u : Server} (h : Named env s)
    (hstep : Server.Step env.server s.server d u)
    (hd : ∀ r req fresh, d = .request r req fresh →
      req.sessionId env.server.http env.server.sessionKey ≠ some env.client.sessionId) :
    Named env { s with server := u } := by
  constructor
  · intro r R hr hx
    rcases hstep.call_cases hr with ⟨R₀, hR₀, hgrows⟩ | ⟨_, req, fresh, hreq, harrived⟩
    · exact h.mine hR₀ (hgrows.sessionId.symm.trans hx)
    · exact absurd (harrived.head.1.symm.trans hx) (hd r req fresh hreq)
  · intro r hr
    obtain ⟨R, hR, hx, hm⟩ := h.get hr
    obtain ⟨R', hR', hgrows⟩ := hstep.call_grows hR
    exact ⟨R', hR', hgrows.sessionId.trans hx, hgrows.method.trans hm⟩
  · intro r hr
    obtain ⟨R, hR, hx, hm⟩ := h.put hr
    obtain ⟨R', hR', hgrows⟩ := hstep.call_grows hR
    exact ⟨R', hR', hgrows.sessionId.trans hx, hgrows.method ▸ hm⟩
  · exact h.getsNodup
  · exact h.putsNodup
  · exact h.getSent
  · exact h.putSent

/-- A request of the client reaches the server. -/
theorem Named.arrives {req : Request} {fresh : ActorRef} {u : Server} (h : Named env s)
    (hstep : Server.Step env.server s.server (.request r req fresh) u)
    (hx : req.sessionId env.server.http env.server.sessionKey = some env.client.sessionId) :
    r ∉ s.gets ∧ r ∉ s.puts ∧
    (∃ R, u.calls r = some R ∧ R.sessionId = some env.client.sessionId ∧ R.method = req.method) ∧
    ∀ {q Q}, u.calls q = some Q → Q.sessionId = some env.client.sessionId →
      q = r ∨ q ∈ s.gets ∨ q ∈ s.puts := by
  obtain ⟨hnone, R, hR, harrived⟩ := hstep.arrives
  obtain ⟨hid, hmethod, _⟩ := harrived.head
  refine ⟨?_, ?_, ⟨R, hR, hid.trans hx, hmethod⟩, ?_⟩
  · intro hr
    obtain ⟨R₀, hR₀, _⟩ := h.get hr
    exact absurd (hnone.symm.trans hR₀) (Option.some_ne_none R₀).symm
  · intro hr
    obtain ⟨R₀, hR₀, _⟩ := h.put hr
    exact absurd (hnone.symm.trans hR₀) (Option.some_ne_none R₀).symm
  · intro q Q hQ hq
    rcases hstep.call_cases hQ with ⟨Q₀, hQ₀, hgrows⟩ | ⟨_, req', fresh', heq, _⟩
    · exact .inr (h.mine hQ₀ (hgrows.sessionId.symm.trans hq))
    · injection heq with hqr
      exact .inl hqr.symm

theorem call_kept {d : ServerEvent} {u : Server} {P : Call → Prop} {R : Call}
    (hstep : Server.Step env.server s.server d u) (hR : s.server.calls r = some R)
    (hP : ∀ R', R'.sessionId = R.sessionId → R'.method = R.method → P R') :
    ∃ R', u.calls r = some R' ∧ P R' := by
  obtain ⟨R', hR', hgrows⟩ := hstep.call_grows hR
  exact ⟨R', hR', hP R' hgrows.sessionId hgrows.method⟩

/-- The client has sent what it has sent. -/
theorem Named.client {c : Client} {e : ClientEvent} (h : Named env s) :
    Named env (s.afterClient env c e) := by
  have hframe : ∀ u : Tunnel, u.server = s.server → u.gets = s.gets → u.puts = s.puts →
      (∀ {req body}, u.get = .sent req body →
        req.sessionId env.server.http env.server.sessionKey = some env.client.sessionId ∧
          req.method = .get) →
      (∀ {req body}, u.put = .sent req body →
        req.sessionId env.server.http env.server.sessionKey = some env.client.sessionId ∧
          req.method ≠ .get) → Named env u := by
    intro u hserver hgets hputs hget hput
    constructor
    · rw [hserver, hgets, hputs]
      exact h.mine
    · rw [hserver, hgets]
      exact h.get
    · rw [hserver, hputs]
      exact h.put
    · rw [hgets]
      exact h.getsNodup
    · rw [hputs]
      exact h.putsNodup
    · exact hget
    · exact hput
  unfold afterClient
  split
  · split
    · next req hreq =>
      refine hframe _ rfl rfl rfl ?_ h.putSent
      intro req' body heq
      obtain rfl : req = req' := by injection heq
      exact readRequest_sessionId hreq
    · exact hframe _ rfl rfl rfl h.getSent h.putSent
  · split
    · split
      · next req hreq =>
        refine hframe _ rfl rfl rfl h.getSent ?_
        intro req' body heq
        obtain rfl : req = req' := by injection heq
        exact writeRequest_sessionId hreq
      · exact hframe _ rfl rfl rfl h.getSent h.putSent
    · exact hframe _ rfl rfl rfl h.getSent h.putSent
  · split
    · exact hframe _ rfl rfl rfl h.getSent h.putSent
    · exact hframe _ rfl rfl rfl h.getSent h.putSent
  · exact hframe _ rfl rfl rfl h.getSent h.putSent

/-- These requests were handed over to no other session. -/
def ServedBy (s : Tunnel) (rs : List ReqId) (a : ActorRef) : Prop :=
  ∀ r ∈ rs, ∀ R b, s.server.calls r = some R → R.session = some b → b = a

theorem servedBy_singleton {a : ActorRef}
    (h : (s.server.calls r).map Call.session = some (some a)) : ServedBy s [r] a := by
  obtain ⟨R, hR, hsession⟩ := Option.map_eq_some_iff.mp h
  intro q hq Q b hQ hb
  obtain rfl := List.mem_singleton.mp hq
  obtain rfl : R = Q := Option.some.inj (hR.symm.trans hQ)
  exact Option.some.inj (hb.symm.trans hsession)

theorem alone_request {d : ServerEvent} (h : s.alone env d = true) :
    ∀ r req fresh, d = .request r req fresh →
      req.sessionId env.server.http env.server.sessionKey ≠ some env.client.sessionId := by
  rintro r req fresh rfl
  simpa [alone] using h

theorem named_of_reachable (hs : (machine env).Reachable s) : Named env s := by
  refine hs.invariant Named.init ?_
  intro s e t _ h hstep
  cases Step.of_step hstep with
  | server d u halone hd => exact h.server (.of_step hd) (alone_request halone)
  | client e c => exact h.client
  | getArrives r fresh req body u hget hd =>
      obtain ⟨hx, hm⟩ := h.getSent hget
      obtain ⟨hr, hr', ⟨R, hR, hRx, hRm⟩, hmine⟩ := h.arrives (.of_step hd) hx
      constructor
      · intro q Q hQ hq
        simp only [List.mem_append, List.mem_singleton]
        rcases hmine hQ hq with rfl | hq | hq
        · exact .inl (.inr rfl)
        · exact .inl (.inl hq)
        · exact .inr hq
      · intro q hq
        rcases List.mem_append.mp hq with hq | hq
        · obtain ⟨Q, hQ, hQx, hQm⟩ := h.get hq
          refine call_kept (.of_step hd) hQ fun Q' hid hmethod => ?_
          exact ⟨hid.trans hQx, hmethod.trans hQm⟩
        · obtain rfl := List.mem_singleton.mp hq
          exact ⟨R, hR, hRx, hRm.trans hm⟩
      · intro q hq
        obtain ⟨Q, hQ, hQx, hQm⟩ := h.put hq
        refine call_kept (.of_step hd) hQ fun Q' hid hmethod => ?_
        exact ⟨hid.trans hQx, hmethod ▸ hQm⟩
      · exact List.nodup_append.mpr ⟨h.getsNodup, by simp, by
          intro q hq p hp hqp
          exact hr (List.mem_singleton.mp hp ▸ hqp ▸ hq)⟩
      · exact h.putsNodup
      · intro req body heq
        cases heq
      · exact h.putSent
  | putArrives r fresh req body u hput hd =>
      obtain ⟨hx, hm⟩ := h.putSent hput
      obtain ⟨hr, hr', ⟨R, hR, hRx, hRm⟩, hmine⟩ := h.arrives (.of_step hd) hx
      constructor
      · intro q Q hQ hq
        simp only [List.mem_append, List.mem_singleton]
        rcases hmine hQ hq with rfl | hq | hq
        · exact .inr (.inr rfl)
        · exact .inl hq
        · exact .inr (.inl hq)
      · intro q hq
        obtain ⟨Q, hQ, hQx, hQm⟩ := h.get hq
        refine call_kept (.of_step hd) hQ fun Q' hid hmethod => ?_
        exact ⟨hid.trans hQx, hmethod.trans hQm⟩
      · intro q hq
        rcases List.mem_append.mp hq with hq | hq
        · obtain ⟨Q, hQ, hQx, hQm⟩ := h.put hq
          refine call_kept (.of_step hd) hQ fun Q' hid hmethod => ?_
          exact ⟨hid.trans hQx, hmethod ▸ hQm⟩
        · obtain rfl := List.mem_singleton.mp hq
          exact ⟨R, hR, hRx, hRm ▸ hm⟩
      · exact h.getsNodup
      · exact List.nodup_append.mpr ⟨h.putsNodup, by simp, by
          intro q hq p hp hqp
          exact hr' (List.mem_singleton.mp hp ▸ hqp ▸ hq)⟩
      · exact h.getSent
      · intro req body heq
        cases heq
  | putBody r e u hput _ hd =>
      refine h.server (.of_step hd) ?_
      intro q req fresh heq
      cases heq

end Fronting.Tunnel
