import Fronting.TunnelPhases

/-!
# One write request at a time

`pump_outgoing` sends a request for each chunk when the one before has been acknowledged.
Only the first of them may open a session.
-/

namespace Fronting

/-- The `first` of `pump_outgoing`. -/
def Outgoing.first : Outgoing → Option Bool
  | .idle first | .awaiting first _ => some first
  | .done => none

namespace Client

variable {env : ClientEnv} {s t : Client}

/-- Until a chunk has been acknowledged the next request is the first. -/
def FirstFree (s : Client) : Prop :=
  ∀ first, s.outgoing.first = some first → (first = true ↔ s.acked = [])

theorem FirstFree.congr (h : FirstFree s) (hout : t.outgoing = s.outgoing)
    (hacked : t.acked = s.acked) : FirstFree t := by
  rw [FirstFree, hout, hacked]
  exact h

theorem FirstFree.io {e : IoEvent} (h : FirstFree s) (hio : Io env s e t) : FirstFree t := by
  cases hio with
  | recv first chunk path req hout =>
      intro first' hfirst
      refine h first' ?_
      rw [hout]
      exact hfirst
  | writeNoContent first chunk hout =>
      intro first' hfirst
      obtain rfl : false = first' := Option.some.inj hfirst
      simp
  | noWriteRequest | recvClosed | writeStatus | writeError =>
      intro first' hfirst
      cases hfirst
  | _ => exact h.congr rfl rfl

theorem firstFree_of_reachable (hs : (machine env).Reachable s) : FirstFree s := by
  refine hs.invariant (fun first hfirst => ?_) fun s e t _ h hstep => ?_
  · obtain rfl : true = first := Option.some.inj hfirst
    simp [machine, init]
  · cases Step.of_step hstep with
    | resume op =>
        obtain ⟨_, hout, _, _, _, hacked, _⟩ := pollInner_pumps s op
        exact h.congr hout hacked
    | io e t _ hio => exact h.io hio
    | _ => exact h.congr rfl rfl

end Client

namespace Tunnel

variable {env : TunnelEnv} {s t : Tunnel} {r : ReqId} {R : Call} {earlier later : List ReqId}

/-- The method of a write request that comes after `earlier`. -/
def putMethod (earlier : List ReqId) : Method := if earlier = [] then .post else .patch

structure Posts (s : Tunnel) : Prop where
  sent : ∀ {req body}, s.put = .sent req body → req.method = putMethod s.puts
  arrived : ∀ {earlier r later R}, s.puts = earlier ++ r :: later →
    s.server.calls r = some R → R.method = putMethod earlier

theorem Posts.init : Posts Tunnel.init := by
  constructor
  · intro req body h
    cases h
  · intro earlier r later R h
    simp [Tunnel.init] at h

/-- The server has gone on. -/
theorem Posts.server {d : ServerEvent} (h : Posts s) (hs : (machine env).Reachable s)
    (hstep : Server.Step env.server s.server d t.server) (hput : t.put = s.put)
    (hputs : t.puts = s.puts) : Posts t := by
  constructor
  · rw [hput, hputs]
    exact h.sent
  · intro earlier r later R' hsplit hR'
    rw [hputs] at hsplit
    obtain ⟨R, hR, _⟩ := (named_of_reachable hs).put (by simp [hsplit] : r ∈ s.puts)
    obtain ⟨R'', hR'', hgrows⟩ := hstep.call_grows hR
    obtain rfl : R'' = R' := Option.some.inj (hR''.symm.trans hR')
    exact hgrows.method.trans (h.arrived hsplit hR)

/-- When the next chunk is taken, each request has been acknowledged. -/
theorem acked_of_idle (hs : (machine env).Reachable s) {first : Bool}
    (hout : s.client.outgoing = .idle first) : s.client.acked = s.puts.map s.sent := by
  have hwire := writeWire_of_reachable hs
  have hbody : s.put.body = [] := by
    cases hput : s.put with
    | sent req body => exact absurd hput (hwire.notSent hout req body)
    | idle | arrived r => rfl
  have htaken := (Client.outbox_of_reachable (client_reachable hs)).taken (by simp [hout])
  rw [hwire.taken (by simp [hout]), hbody, hout, List.append_nil] at htaken
  simpa [Outgoing.inFlight] using htaken.symm

theorem Posts.client {c : Client} {e : ClientEvent} (h : Posts s) (hs : (machine env).Reachable s)
    (hc : Client.step env.client s.client e = some c) : Posts (s.afterClient env c e) := by
  obtain ⟨hserver, _, _, hputs, _⟩ := afterClient_server env s c e
  constructor
  · intro req body hput
    rw [hputs]
    by_cases he : ∃ path, e = .io (.recv path)
    · obtain ⟨path, rfl⟩ := he
      cases Client.Step.of_step hc with
      | io _ _ _ hio =>
          cases hio with
          | recv first chunk _ req' hout hslot hreq =>
              have hfirst := Client.firstFree_of_reachable (client_reachable hs) first
                (by rw [hout, Outgoing.first])
              have hempty : first = true ↔ s.puts = [] := by
                rw [hfirst, acked_of_idle hs hout, List.map_eq_nil_iff]
              simp only [afterClient, hreq] at hput
              obtain rfl : req' = req := by injection hput
              rw [createWriteRequest_method hreq, putMethod]
              exact if_congr hempty rfl rfl
          | noWriteRequest | recvClosed => exact h.sent hput
    · rw [afterClient_put fun path heq => he ⟨path, heq⟩] at hput
      exact h.sent hput
  · rw [hputs, hserver]
    exact h.arrived

theorem posts_of_reachable (hs : (machine env).Reachable s) : Posts s := by
  refine hs.invariant Posts.init ?_
  intro s e t hs h hstep
  cases Step.of_step hstep with
  | server d u _ hd => exact h.server hs (.of_step hd) rfl rfl
  | client e c _ hc => exact h.client hs hc
  | getArrives r fresh req body u _ hd => exact h.server hs (.of_step hd) rfl rfl
  | putBody r d u _ _ hd => exact h.server hs (.of_step hd) rfl rfl
  | putArrives r fresh req body u hput hd =>
      have hserver : Posts { s with server := u } := h.server hs (.of_step hd) rfl rfl
      constructor
      · intro req' body' hsent
        cases hsent
      · intro earlier q later R hsplit hR
        rcases List.eq_nil_or_concat later with rfl | ⟨later, p, rfl⟩
        · -- `q` is the request that has just arrived
          obtain ⟨rfl, hlast⟩ := List.append_inj' hsplit rfl
          obtain rfl := List.singleton_inj.mp hlast
          obtain ⟨_, R', hR', harrived⟩ := (Server.Step.of_step hd).arrives
          obtain rfl : R' = R := Option.some.inj (hR'.symm.trans hR)
          exact harrived.head.2.1.trans (h.sent hput)
        · have hbefore : s.puts ++ [r] = (earlier ++ q :: later) ++ [p] := by simpa using hsplit
          obtain ⟨hputs, _⟩ := List.append_inj' hbefore rfl
          exact hserver.arrived hputs hR

theorem put_method (hs : (machine env).Reachable s) {req : Request} {body : Bytes}
    (hput : s.put = .sent req body) : req.method = .post ∨ req.method = .patch := by
  rw [(posts_of_reachable hs).sent hput, putMethod]
  split <;> simp

/-- The write requests before the last one have been answered. -/
theorem answered_before (hs : (machine env).Reachable s) (hputs : s.puts = earlier ++ r :: later) :
    ∀ q ∈ earlier, Answered s q := by
  intro q hq
  have hwire := writeWire_of_reachable hs
  refine hwire.answered (by simp [hputs, hq]) fun hlast => ?_
  -- `q` is not the last request, for none comes twice
  obtain ⟨before, hbefore⟩ := hwire.arrived hlast
  have hnodup := (named_of_reachable hs).putsNodup
  rw [hputs] at hnodup hbefore
  have hmem : q ∈ r :: later := by
    have hget : (earlier ++ r :: later).getLast? = (r :: later).getLast? := by
      simp [List.getLast?_cons]
    rw [hbefore, List.getLast?_concat] at hget
    exact List.mem_of_getLast? hget.symm
  exact (List.nodup_append.mp hnodup).2.2 q hq q hmem rfl

/-- The client's write requests go to the server one after the other, each when the one
before has been answered `NO_CONTENT`. The first is a `POST`, the others are `PATCH`
requests. -/
theorem one_at_a_time (hs : (machine env).Reachable s) :
    (∀ req body, s.put = .sent req body →
      req.method = putMethod s.puts ∧ ∀ q ∈ s.puts, Answered s q) ∧
    ∀ earlier r later R, s.puts = earlier ++ r :: later → s.server.calls r = some R →
      R.method = putMethod earlier ∧ ∀ q ∈ earlier, Answered s q := by
  have hposts := posts_of_reachable hs
  constructor
  · intro req body hput
    refine ⟨hposts.sent hput, fun q hq => ?_⟩
    exact (writeWire_of_reachable hs).answered hq (by simp [hput])
  · intro earlier r later R hputs hR
    exact ⟨hposts.arrived hputs hR, answered_before hs hputs⟩

/-- Two chunks, the second of which has arrived. -/
def twoChunks : List TunnelEvent :=
  writeByte ++ [.server (.actor 0 (.write 1)), .server (.writeOk 0), .server (.reply 0),
    .putBody .finished, .client (.io (.writeResponse .noContent)), .client (.poll (.write [3])),
    .client .resume, .client (.io (.recv 1)), .putArrives 1 1]

theorem twoChunks_one_at_a_time :
    ∃ s R, (machine sampleEnv).Reachable s ∧ s.puts = [0, 1] ∧ s.server.calls 1 = some R ∧
      R.method = .patch ∧ ∀ q ∈ [0], Answered s q := by
  obtain ⟨s, hrun, hputs, hcall⟩ := Machine.exists_run (M := machine sampleEnv)
    (P := fun s => s.puts = [0, 1] ∧ (s.server.calls 1).isSome = true) twoChunks (by decide)
  obtain ⟨R, hR⟩ := Option.isSome_iff_exists.mp hcall
  have hlast : s.puts = [0] ++ 1 :: [] := hputs
  obtain ⟨hmethod, hanswered⟩ := (one_at_a_time hrun.reachable).2 _ _ _ R hlast hR
  exact ⟨s, R, hrun.reachable, hputs, hR, hmethod, hanswered⟩

end Tunnel
end Fronting
