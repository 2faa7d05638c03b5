import Fronting.TunnelReads

/-!
# Upload through the tunnel

`pump_outgoing` sends a chunk when the one before it has been answered. So the chunks of
the client reach a session one request after the other, and what it writes to upstream is
a prefix of them.
-/

namespace Fronting

open Function (update)

/-- The body of a request that has not arrived. -/
def Exchange.body : Exchange → List Bytes
  | .sent _ body => [body]
  | _ => []

namespace Tunnel

variable {env : TunnelEnv} {s t : Tunnel} {r : ReqId}

/-- The request has been answered `NO_CONTENT` at the end of its body. -/
def Answered (s : Tunnel) (r : ReqId) : Prop :=
  s.uploaded r = s.sent r ∧
    ∃ R, s.server.calls r = some R ∧ R.handler = .done (.ok Server.noContent)

structure WriteWire (s : Tunnel) : Prop where
  idle : s.put = .idle → s.puts = []
  arrived : ∀ {r}, s.put = .arrived r → ∃ earlier, s.puts = earlier ++ [r]
  answered : ∀ {r}, r ∈ s.puts → s.put ≠ .arrived r → Answered s r
  next : ∀ {first}, s.client.outgoing = .idle first → ∀ r, s.put = .arrived r → Answered s r
  notSent : ∀ {first}, s.client.outgoing = .idle first → ∀ req body, s.put ≠ .sent req body
  uploaded : ∀ r ∈ s.puts, s.uploaded r <+: s.sent r
  finished : ∀ {r R}, r ∈ s.puts → s.server.calls r = some R →
    R.handler = .done (.ok Server.noContent) → s.uploaded r = s.sent r
  taken : s.client.outgoing ≠ .done → s.client.taken = s.puts.map s.sent ++ s.put.body
  part : s.puts.map s.sent ++ s.put.body <+: s.client.taken
  acked : ∃ acks, acks <+: s.puts ∧ s.client.acked = acks.map s.sent ∧ ∀ r ∈ acks, Answered s r

theorem WriteWire.init : WriteWire Tunnel.init := by
  constructor
  · exact fun _ => rfl
  · intro r h
    cases h
  · intro r hr
    simp [Tunnel.init] at hr
  · intro first _ r h
    cases h
  · intro first _ req body h
    cases h
  · intro r hr
    simp [Tunnel.init] at hr
  · intro r R hr
    simp [Tunnel.init] at hr
  · exact fun _ => rfl
  · exact List.prefix_refl _
  · exact ⟨[], List.prefix_refl _, rfl, by simp⟩

theorem uploaded_eq {R : Call} (hr : s.server.calls r = some R) :
    s.uploaded r = R.chunks.flatten := by
  simp [Tunnel.uploaded, hr]

/-- How much of the body of a request the server has, after a step. -/
theorem uploaded_grows {d : ServerEvent} {R : Call}
    (hstep : Server.Step env.server s.server d t.server) (hr : s.server.calls r = some R)
    (hbody : ∀ e, d = .body r e → s.delivers r e = true) (hpart : s.uploaded r <+: s.sent r) :
    t.uploaded r <+: s.sent r := by
  obtain ⟨R', hR', hgrows⟩ := hstep.call_grows hr
  rw [uploaded_eq hr] at hpart
  rw [uploaded_eq hR']
  rcases hgrows.chunks with hsame | ⟨data, hd, hchunks⟩
  · rw [hsame]
    exact hpart
  · have hnext : s.uploaded r ++ data <+: s.sent r := of_decide_eq_true (hbody _ hd)
    rw [uploaded_eq hr] at hnext
    rw [hchunks, List.flatten_append]
    simpa using hnext

theorem Answered.grows {d : ServerEvent} (h : Answered s r)
    (hstep : Server.Step env.server s.server d t.server) (hsent : t.sent r = s.sent r) :
    Answered t r := by
  obtain ⟨hall, R, hR, hdone⟩ := h
  obtain ⟨R', hR', hgrows⟩ := hstep.call_grows hR
  obtain rfl : R' = R := hgrows.done _ hdone
  refine ⟨?_, R', hR', hdone⟩
  rw [uploaded_eq hR', hsent, ← hall, uploaded_eq hR]

theorem Answered.frame (h : Answered s r) (hserver : t.server = s.server)
    (hsent : t.sent = s.sent) : Answered t r := by
  obtain ⟨hall, R, hR, hdone⟩ := h
  refine ⟨?_, R, hserver ▸ hR, hdone⟩
  rw [Tunnel.uploaded, hserver, hsent]
  exact hall

/-- The answer comes after the whole body. -/
theorem finished_grows {d : ServerEvent} {R : Call}
    (hstep : Server.Step env.server s.server d t.server) (hr : s.server.calls r = some R)
    (hbody : ∀ e, d = .body r e → s.delivers r e = true)
    (hold : R.handler = .done (.ok Server.noContent) → s.uploaded r = s.sent r) {R' : Call}
    (hR' : t.server.calls r = some R') (hdone : R'.handler = .done (.ok Server.noContent)) :
    t.uploaded r = s.sent r := by
  obtain ⟨R'', hR'', hgrows⟩ := hstep.call_grows hr
  obtain rfl : R'' = R' := Option.some.inj (hR''.symm.trans hR')
  rcases hgrows.noContent hdone with rfl | hd
  · rw [uploaded_eq hR', ← uploaded_eq hr]
    exact hold hdone
  · have hall : s.uploaded r = s.sent r := of_decide_eq_true (hbody _ hd)
    rcases hgrows.chunks with hsame | ⟨data, hd', _⟩
    · rw [uploaded_eq hR', hsame, ← uploaded_eq hr, hall]
    · rw [hd] at hd'
      cases hd'

/-- The server has gone on, perhaps with the body of the client's last write request. -/
theorem WriteWire.server {d : ServerEvent} (h : WriteWire s) (hnamed : Named env s)
    (hstep : Server.Step env.server s.server d t.server)
    (hbody : ∀ r ∈ s.puts, ∀ e, d = .body r e → s.delivers r e = true)
    (hclient : t.client = s.client) (hput : t.put = s.put) (hputs : t.puts = s.puts)
    (hsent : t.sent = s.sent) : WriteWire t := by
  have hkept : ∀ r, Answered s r → Answered t r := fun r hr => hr.grows hstep (by rw [hsent])
  constructor
  · rw [hput, hputs]
    exact h.idle
  · rw [hput, hputs]
    exact h.arrived
  · rw [hput, hputs]
    exact fun hr hne => hkept _ (h.answered hr hne)
  · rw [hput, hclient]
    exact fun hout r hr => hkept r (h.next hout r hr)
  · rw [hput, hclient]
    exact h.notSent
  · rw [hputs, hsent]
    intro r hr
    obtain ⟨R, hR, _⟩ := hnamed.put hr
    exact uploaded_grows hstep hR (hbody r hr) (h.uploaded r hr)
  · rw [hputs, hsent]
    intro r R' hr hR' hdone
    obtain ⟨R, hR, _⟩ := hnamed.put hr
    exact finished_grows hstep hR (hbody r hr) (h.finished hr hR) hR' hdone
  · rw [hclient, hputs, hsent, hput]
    exact h.taken
  · rw [hclient, hputs, hsent, hput]
    exact h.part
  · rw [hclient, hputs, hsent]
    obtain ⟨acks, hacks, hacked, hall⟩ := h.acked
    exact ⟨acks, hacks, hacked, fun r hr => hkept r (hall r hr)⟩

/-- A step of the client that the write side does not see, or that ends it. -/
theorem WriteWire.frame (h : WriteWire s) (hserver : t.server = s.server) (hput : t.put = s.put)
    (hputs : t.puts = s.puts) (hsent : t.sent = s.sent)
    (hacked : t.client.acked = s.client.acked)
    (hout : t.client.outgoing = s.client.outgoing ∧ t.client.taken = s.client.taken ∨
      t.client.outgoing = .done ∧ s.client.taken <+: t.client.taken) : WriteWire t := by
  have hkept : ∀ r, Answered s r → Answered t r := fun r hr => hr.frame hserver hsent
  have huploaded : t.uploaded = s.uploaded := by
    funext r
    rw [Tunnel.uploaded, hserver, Tunnel.uploaded]
  constructor
  · rw [hput, hputs]
    exact h.idle
  · rw [hput, hputs]
    exact h.arrived
  · rw [hput, hputs]
    exact fun hr hne => hkept _ (h.answered hr hne)
  · rw [hput]
    intro first hidle r hr
    rcases hout with ⟨heq, _⟩ | ⟨hdone, _⟩
    · exact hkept r (h.next (heq.symm.trans hidle) r hr)
    · rw [hdone] at hidle
      cases hidle
  · rw [hput]
    intro first hidle
    rcases hout with ⟨heq, _⟩ | ⟨hdone, _⟩
    · exact h.notSent (heq.symm.trans hidle)
    · rw [hdone] at hidle
      cases hidle
  · rw [hputs, hsent, huploaded]
    exact h.uploaded
  · rw [hputs, hsent, huploaded, hserver]
    exact h.finished
  · intro hne
    rcases hout with ⟨heq, htaken⟩ | ⟨hdone, _⟩
    · rw [htaken, hputs, hsent, hput]
      exact h.taken (heq ▸ hne)
    · exact absurd hdone hne
  · rw [hputs, hsent, hput]
    rcases hout with ⟨_, htaken⟩ | ⟨_, htaken⟩
    · rw [htaken]
      exact h.part
    · exact h.part.trans htaken
  · rw [hacked, hputs, hsent]
    obtain ⟨acks, hacks, heq, hall⟩ := h.acked
    exact ⟨acks, hacks, heq, fun r hr => hkept r (hall r hr)⟩

/-- All requests are answered and the next one is sent. -/
theorem WriteWire.send {first : Bool} (h : WriteWire s) (req : Request) (chunk : Bytes)
    (hidle : s.client.outgoing = .idle first) (hserver : t.server = s.server)
    (hput : t.put = .sent req chunk) (hputs : t.puts = s.puts) (hsent : t.sent = s.sent)
    (hacked : t.client.acked = s.client.acked)
    (hout : t.client.outgoing = .awaiting first chunk)
    (htaken : t.client.taken = s.client.taken ++ [chunk]) : WriteWire t := by
  have hkept : ∀ r, Answered s r → Answered t r := fun r hr => hr.frame hserver hsent
  have huploaded : t.uploaded = s.uploaded := by
    funext r
    rw [Tunnel.uploaded, hserver, Tunnel.uploaded]
  have hbefore : s.client.taken = s.puts.map s.sent := by
    have hempty : s.put.body = [] := by
      cases hp : s.put with
      | sent req body => exact absurd hp (h.notSent hidle req body)
      | _ => rfl
    have htaken := h.taken (by simp [hidle])
    rwa [hempty, List.append_nil] at htaken
  have hnow : t.client.taken = t.puts.map t.sent ++ t.put.body := by
    rw [htaken, hbefore, hputs, hsent, hput]
    rfl
  constructor
  · rw [hput]
    intro hidle
    cases hidle
  · rw [hput]
    intro r harrived
    cases harrived
  · rw [hputs]
    intro r hr _
    by_cases hlast : s.put = .arrived r
    · exact hkept r (h.next hidle r hlast)
    · exact hkept r (h.answered hr hlast)
  · intro first' hidle'
    rw [hout] at hidle'
    cases hidle'
  · intro first' hidle'
    rw [hout] at hidle'
    cases hidle'
  · rw [hputs, hsent, huploaded]
    exact h.uploaded
  · rw [hputs, hsent, huploaded, hserver]
    exact h.finished
  · exact fun _ => hnow
  · rw [hnow]
  · rw [hacked, hputs, hsent]
    obtain ⟨acks, hacks, heq, hall⟩ := h.acked
    exact ⟨acks, hacks, heq, fun r hr => hkept r (hall r hr)⟩

/-- The client learns that its last request has been answered. -/
theorem WriteWire.ack {first : Bool} {chunk : Bytes} (h : WriteWire s)
    (houtbox : s.client.Outbox) (hlast : s.put = .arrived r) (hanswered : Answered s r)
    (hawait : s.client.outgoing = .awaiting first chunk) (hserver : t.server = s.server)
    (hput : t.put = s.put) (hputs : t.puts = s.puts) (hsent : t.sent = s.sent)
    (hacked : t.client.acked = s.client.acked ++ [chunk])
    (htaken : t.client.taken = s.client.taken) : WriteWire t := by
  have hkept : ∀ r, Answered s r → Answered t r := fun r hr => hr.frame hserver hsent
  have huploaded : t.uploaded = s.uploaded := by
    funext r
    rw [Tunnel.uploaded, hserver, Tunnel.uploaded]
  have hall : ∀ q ∈ s.puts, Answered s q := by
    intro q hq
    by_cases hqr : s.put = .arrived q
    · obtain rfl : r = q := by
        rw [hlast] at hqr
        injection hqr
      exact hanswered
    · exact h.answered hq hqr
  have hbefore : s.client.taken = s.puts.map s.sent := by
    have hempty : s.put.body = [] := by
      rw [hlast]
      rfl
    have htaken := h.taken (by simp [hawait])
    rwa [hempty, List.append_nil] at htaken
  have hboth : s.client.taken = s.client.acked ++ [chunk] := by
    simpa [hawait, Outgoing.inFlight] using houtbox.taken (by simp [hawait])
  constructor
  · rw [hput, hputs]
    exact h.idle
  · rw [hput, hputs]
    exact h.arrived
  · rw [hputs]
    exact fun hr _ => hkept _ (hall _ hr)
  · rw [hput]
    intro first' _ q hq
    obtain rfl : r = q := by
      rw [hlast] at hq
      injection hq
    exact hkept r hanswered
  · rw [hput, hlast]
    intro first' _ req body hsent'
    cases hsent'
  · rw [hputs, hsent, huploaded]
    exact h.uploaded
  · rw [hputs, hsent, huploaded, hserver]
    exact h.finished
  · rw [htaken, hputs, hsent, hput]
    exact fun _ => h.taken (by simp [hawait])
  · rw [htaken, hputs, hsent, hput]
    exact h.part
  · refine ⟨s.puts, ?_, ?_, fun q hq => hkept q (hall q hq)⟩
    · rw [hputs]
    · rw [hacked, ← hboth, hbefore, hsent]

/-- A write request reaches the server. -/
theorem WriteWire.arrives {req : Request} {body : Bytes} {fresh : ActorRef} {u : Server}
    (h : WriteWire s) (hnamed : Named env s) (hput : s.put = .sent req body)
    (hstep : Server.Step env.server s.server (.request r req fresh) u) :
    WriteWire { s with server := u, put := .arrived r, puts := s.puts ++ [r]
                       sent := update s.sent r body } := by
  obtain ⟨hnone, R, hR, harrived⟩ := hstep.arrives
  obtain ⟨_, _, hchunks, hopen⟩ := harrived.head
  have hnew : r ∉ s.puts := by
    intro hr
    obtain ⟨R₀, hR₀, _⟩ := hnamed.put hr
    exact absurd (hnone.symm.trans hR₀) (Option.some_ne_none R₀).symm
  have hsent : ∀ q ∈ s.puts, update s.sent r body q = s.sent q := by
    intro q hq
    refine Function.update_of_ne ?_ _ _
    rintro rfl
    exact hnew hq
  have hmap : ∀ qs : List ReqId, (∀ q ∈ qs, q ∈ s.puts) →
      qs.map (update s.sent r body) = qs.map s.sent := fun qs hqs =>
    List.map_congr_left fun q hq => hsent q (hqs q hq)
  let t : Tunnel := { s with server := u, put := .arrived r, puts := s.puts ++ [r]
                             sent := update s.sent r body }
  have hkept : ∀ q ∈ s.puts, Answered s q → Answered t q := fun q hq hanswered =>
    hanswered.grows (t := t) hstep (hsent q hq)
  have hbody : ∀ q e, (.request r req fresh : ServerEvent) = .body q e →
      s.delivers q e = true := by
    intro q e heq
    cases heq
  have hold : ∀ q ∈ s.puts, Answered s q := fun q hq =>
    h.answered hq (by rw [hput]; simp)
  have hnow : s.puts.map s.sent ++ s.put.body =
      (s.puts ++ [r]).map (update s.sent r body) := by
    rw [List.map_append, hmap s.puts fun q hq => hq, hput]
    simp [Exchange.body]
  constructor
  · intro hidle
    cases hidle
  · intro q hq
    obtain rfl : r = q := by injection hq
    exact ⟨s.puts, rfl⟩
  · intro q hq hlast
    rcases List.mem_append.mp hq with hq | hq
    · exact hkept q hq (hold q hq)
    · exact absurd (congrArg Exchange.arrived (List.mem_singleton.mp hq).symm) hlast
  · intro first hidle
    exact absurd hput (h.notSent hidle req body)
  · intro first hidle
    exact absurd hput (h.notSent hidle req body)
  · intro q hq
    rcases List.mem_append.mp hq with hq | hq
    · obtain ⟨Q, hQ, _⟩ := hnamed.put hq
      have hpart := uploaded_grows (t := t) hstep hQ (hbody q) (h.uploaded q hq)
      exact hpart.trans (by rw [← hsent q hq])
    · obtain rfl := List.mem_singleton.mp hq
      rw [uploaded_eq (s := t) hR, hchunks]
      exact List.nil_prefix
  · intro q Q hq hQ hdone
    rcases List.mem_append.mp hq with hq | hq
    · obtain ⟨Q₀, hQ₀, _⟩ := hnamed.put hq
      have hall := finished_grows (t := t) hstep hQ₀ (hbody q) (h.finished hq hQ₀) hQ hdone
      exact hall.trans (hsent q hq).symm
    · obtain rfl := List.mem_singleton.mp hq
      obtain rfl : R = Q := Option.some.inj (hR.symm.trans hQ)
      exact absurd hdone hopen
  · intro hne
    rw [h.taken hne, hnow]
    simp [Exchange.body]
  · refine List.IsPrefix.trans ?_ h.part
    rw [hnow]
    simp [Exchange.body]
  · obtain ⟨acks, hacks, hacked, hall⟩ := h.acked
    refine ⟨acks, hacks.trans (List.prefix_append _ _), ?_, ?_⟩
    · rw [hacked, hmap acks fun q hq => hacks.subset hq]
    · exact fun q hq => hkept q (hacks.subset hq) (hall q hq)

theorem afterClient_put {c : Client} {e : ClientEvent} (he : ∀ path, e ≠ .io (.recv path)) :
    (s.afterClient env c e).put = s.put := by
  unfold afterClient
  split
  · split <;> rfl
  · exact absurd rfl (he _)
  · split <;> rfl
  · rfl

/-- `NO_CONTENT` is reported for the last write request, when the server has answered it. -/
theorem answered_of_noContent (h : WriteWire s)
    (hserver : (Server.machine env.server).Reachable s.server)
    (hreports : s.reports (.io (.writeResponse .noContent)) = true) :
    ∃ r, s.put = .arrived r ∧ Answered s r := by
  have hput : s.answered .noContent s.put = true := hreports
  unfold answered at hput
  split at hput
  next r harrived =>
      obtain ⟨resp, hresp, hstatus⟩ := (Option.any_eq_true _ _).mp hput
      obtain ⟨R, hR, hresp⟩ := Option.bind_eq_some_iff.mp hresp
      have hdone := Server.handler_of_status hserver hR hresp (of_decide_eq_true hstatus)
      obtain ⟨earlier, hsplit⟩ := h.arrived harrived
      have hmem : r ∈ s.puts := by simp [hsplit]
      exact ⟨r, harrived, h.finished hmem hR hdone, R, hR, hdone⟩
  next => exact absurd hput Bool.false_ne_true

/-- A step of the client other than taking a chunk. -/
theorem WriteWire.other {c : Client} {e : ClientEvent} (h : WriteWire s)
    (he : ∀ path, e ≠ .io (.recv path)) (hacked : c.acked = s.client.acked)
    (hout : c.outgoing = s.client.outgoing ∧ c.taken = s.client.taken ∨
      c.outgoing = .done ∧ s.client.taken <+: c.taken) : WriteWire (s.afterClient env c e) := by
  obtain ⟨hserver, hclient, _, hputs, hsent⟩ := afterClient_server env s c e
  refine h.frame hserver (afterClient_put he) hputs hsent ?_ ?_
  · rw [hclient]
    exact hacked
  · rw [hclient]
    exact hout

theorem WriteWire.io {c : Client} {e : IoEvent} (h : WriteWire s)
    (hserver : (Server.machine env.server).Reachable s.server) (houtbox : s.client.Outbox)
    (hreports : s.reports (.io e) = true) (hio : Client.Io env.client s.client e c) :
    WriteWire (s.afterClient env c (.io e)) := by
  cases hio with
  | recv first chunk path req hidle hslot hreq =>
      refine h.send req chunk hidle ?_ ?_ ?_ ?_ ?_ ?_ ?_ <;> simp [afterClient, hreq]
  | noWriteRequest first chunk path hidle hslot hreq =>
      exact h.frame rfl rfl rfl rfl rfl (.inr ⟨rfl, List.prefix_append _ _⟩)
  | recvClosed first path hidle hslot hclosed =>
      exact h.frame rfl rfl rfl rfl rfl (.inr ⟨rfl, List.prefix_refl _⟩)
  | writeNoContent first chunk hawait =>
      obtain ⟨r, hlast, hanswered⟩ := answered_of_noContent h hserver hreports
      exact h.ack houtbox hlast hanswered hawait rfl rfl rfl rfl rfl rfl
  | writeStatus first chunk status hawait hstatus =>
      exact h.frame rfl rfl rfl rfl rfl (.inr ⟨rfl, List.prefix_refl _⟩)
  | writeError first chunk message hawait =>
      exact h.frame rfl rfl rfl rfl rfl (.inr ⟨rfl, List.prefix_refl _⟩)
  | _ => exact h.other (by simp) rfl (.inl ⟨rfl, rfl⟩)

theorem WriteWire.client {c : Client} {e : ClientEvent} (h : WriteWire s)
    (hserver : (Server.machine env.server).Reachable s.server) (houtbox : s.client.Outbox)
    (hreports : s.reports e = true) (hstep : Client.Step env.client s.client e c) :
    WriteWire (s.afterClient env c e) := by
  cases hstep with
  | resume op =>
      obtain ⟨_, hout, _, _, htaken, hacked, _⟩ := Client.pollInner_pumps s.client op
      exact h.frame rfl rfl rfl rfl hacked (.inl ⟨hout, htaken⟩)
  | io e c _ hio => exact h.io hserver houtbox hreports hio
  | _ => exact h.frame rfl rfl rfl rfl rfl (.inl ⟨rfl, rfl⟩)

theorem writeWire_of_reachable (hs : (machine env).Reachable s) : WriteWire s := by
  refine hs.invariant WriteWire.init ?_
  intro s e t hs h hstep
  have hnamed := named_of_reachable hs
  cases Step.of_step hstep with
  | server d u halone hd =>
      refine h.server (t := { s with server := u }) hnamed (.of_step hd) ?_ rfl rfl rfl rfl
      rintro r hr e rfl
      simp [alone, hr] at halone
  | client e c hreports hc =>
      exact h.client (server_reachable hs) (Client.outbox_of_reachable (client_reachable hs))
        hreports (.of_step hc)
  | getArrives r fresh req body u _ hd =>
      refine h.server (t := { s with server := u, get := .arrived r, gets := s.gets ++ [r] })
        hnamed (.of_step hd) ?_ rfl rfl rfl rfl
      intro q _ e heq
      cases heq
  | putArrives r fresh req body u hput hd => exact h.arrives hnamed hput (.of_step hd)
  | putBody r e u hput hdelivers hd =>
      refine h.server (t := { s with server := u }) hnamed (.of_step hd) ?_ rfl rfl rfl rfl
      intro q _ e' heq
      obtain ⟨rfl, rfl⟩ : r = q ∧ e = e' := by simpa using heq
      exact hdelivers

section Session

variable {a : ActorRef} {A A' : Session} {R : Call}

/-- What `poll_write` accepted of the last requests is what the session may still get. -/
theorem acceptedOf_eq_nil (hserver : (Server.machine env.server).Reachable s.server)
    (ha : s.server.actors a = some A)
    (hr : ∀ R, s.server.calls r = some R → R.session = some a → R.chunks = []) :
    A.acceptedOf r = [] := by
  have hledger := Server.ledger_of_reachable hserver
  by_contra hne
  obtain ⟨bytes, hbytes⟩ := List.exists_mem_of_ne_nil _ hne
  have hmem : (r, bytes) ∈ A.accepted := by simpa [Session.acceptedOf] using hbytes
  obtain ⟨R, hR, hsession⟩ := hledger.known ha hmem
  have hpart := (hledger.account hR hsession ha).part
  rw [hr R hR hsession] at hpart
  exact hne (List.prefix_nil.mp hpart)

theorem acceptedOf_of_append {q : ReqId} {bytes : Bytes}
    (haccepted : A'.accepted = A.accepted ++ [(r, bytes)]) :
    A'.acceptedOf q = A.acceptedOf q ++ if q = r then [bytes] else [] := by
  by_cases hq : q = r <;> simp [Session.acceptedOf, haccepted, hq, eq_comm]

/-- A chunk of the client's is accepted for its last write request. -/
theorem last_of_accepted {d : ServerEvent} {u : Server} {bytes : Bytes}
    (hs : (machine env).Reachable s) (hstep : Server.step env.server s.server d = some u)
    (ha : s.server.actors a = some A) (ha' : u.actors a = some A')
    (hx : A.sessionId = env.client.sessionId)
    (haccepted : A'.accepted = A.accepted ++ [(r, bytes)]) :
    ∃ earlier, s.puts = earlier ++ [r] := by
  have hreach := server_reachable hs
  have hreach' := hreach.step hstep
  have hwire := writeWire_of_reachable hs
  have hnamed := named_of_reachable hs
  have hledger := Server.ledger_of_reachable hreach
  have hledger' := Server.ledger_of_reachable hreach'
  have hof : A'.acceptedOf r = A.acceptedOf r ++ [bytes] := by
    simp [acceptedOf_of_append haccepted]
  obtain ⟨R', hR', hsession'⟩ := hledger'.known ha' (p := (r, bytes)) (by simp [haccepted])
  have hpart : A.acceptedOf r ++ [bytes] <+: R'.chunks :=
    hof ▸ (hledger'.account hR' hsession' ha').part
  have hchunks : R'.chunks ≠ [] := by
    intro hnil
    rw [hnil] at hpart
    simp at hpart
  rcases (Server.Step.of_step hstep).call_cases hR' with
    ⟨R, hR, hgrows⟩ | ⟨_, req, fresh, _, harrived⟩
  · have hsession : R.session = some a := hgrows.session.symm.trans hsession'
    obtain ⟨A₀, ha₀, hid⟩ := (Server.coherent_of_reachable hreach).call hR hsession
    obtain rfl : A = A₀ := Option.some.inj (ha.symm.trans ha₀)
    have hmem : r ∈ s.puts := by
      rcases hnamed.mine hR (hid.trans (congrArg some hx)) with hmem | hmem
      · obtain ⟨R₀, hR₀, _, hget⟩ := hnamed.get hmem
        obtain rfl : R = R₀ := Option.some.inj (hR.symm.trans hR₀)
        exact absurd (Server.chunks_of_get hreach' hR' (hgrows.method.trans hget)) hchunks
      · exact hmem
    by_cases hlast : s.put = .arrived r
    · exact hwire.arrived hlast
    · -- the session has had the whole body of an answered request
      obtain ⟨_, R₀, hR₀, hdone⟩ := hwire.answered hmem hlast
      obtain rfl : R = R₀ := Option.some.inj (hR.symm.trans hR₀)
      obtain rfl : R' = R := hgrows.done _ hdone
      obtain ⟨hwhole, _⟩ := (hledger.account hR hsession ha).whole (by simp [hdone, Handler.broken])
      have hall : A.acceptedOf r = R'.chunks := by simpa [hdone, Handler.unsent] using hwhole
      have hlen := hpart.length_le
      rw [← hall, List.length_append, List.length_singleton] at hlen
      exact absurd hlen (Nat.not_succ_le_self _)
  · exact absurd harrived.head.2.2.1 hchunks

theorem flatten_tagged (A : Session) (rs : List ReqId) :
    ((rs.flatMap fun r => (A.acceptedOf r).map (Prod.mk r)).map Prod.snd).flatten =
      rs.flatMap fun r => (A.acceptedOf r).flatten := by
  induction rs with
  | nil => rfl
  | cons r rs ih => simp [ih, Function.comp_def]

/-- The mailbox of a session of the client has accepted its requests one after the other. -/
theorem accepted_eq (hs : (machine env).Reachable s) (ha : s.server.actors a = some A)
    (hx : A.sessionId = env.client.sessionId) :
    A.accepted = s.puts.flatMap fun r => (A.acceptedOf r).map (Prod.mk r) := by
  refine hs.invariant (I := fun s => ∀ a A, s.server.actors a = some A →
    A.sessionId = env.client.sessionId →
    A.accepted = s.puts.flatMap fun r => (A.acceptedOf r).map (Prod.mk r)) ?_ ?_ a A ha hx
  · intro a A ha
    simp [machine, init, Server.init] at ha
  · intro s e t hs hI hstep a A' ha' hx
    have hnodup := (named_of_reachable hs).putsNodup
    -- the server has gone on, and `puts` may have grown
    have hserver : ∀ d u, Server.step env.server s.server d = some u → u.actors a = some A' →
        A'.accepted = s.puts.flatMap fun r => (A'.acceptedOf r).map (Prod.mk r) := by
      intro d u hd ha'
      rcases (Server.Step.of_step hd).move ha' with ⟨A, ha, hmove⟩ | ⟨x, rfl, _⟩
      · have hx' : A.sessionId = env.client.sessionId := hmove.sessionId.symm.trans hx
        have hold := hI a A ha hx'
        rcases hmove.accepted with hsame | ⟨r, bytes, haccepted⟩
        · have hof : ∀ r, A'.acceptedOf r = A.acceptedOf r := fun r => by
            rw [Session.acceptedOf, hsame, Session.acceptedOf]
          simp only [hof, hsame]
          exact hold
        · obtain ⟨earlier, hsplit⟩ := last_of_accepted hs hd ha ha' hx' haccepted
          rw [hsplit] at hold hnodup ⊢
          have hkept : earlier.flatMap (fun q => (A'.acceptedOf q).map (Prod.mk q)) =
              earlier.flatMap fun q => (A.acceptedOf q).map (Prod.mk q) := by
            refine List.flatMap_congr fun q hq => ?_
            have hqr : q ≠ r :=
              (List.nodup_append.mp hnodup).2.2 q hq r (List.mem_singleton_self r)
            rw [acceptedOf_of_append haccepted, if_neg hqr, List.append_nil]
          have hlast : A'.acceptedOf r = A.acceptedOf r ++ [bytes] := by
            rw [acceptedOf_of_append haccepted, if_pos rfl]
          rw [List.flatMap_append, hkept, haccepted, hold]
          simp [hlast]
      · have hof : ∀ r, (Session.spawn x).acceptedOf r = [] := fun _ => rfl
        simp only [hof, List.map_nil]
        exact (List.flatMap_eq_nil_iff.mpr fun _ _ => rfl).symm
    cases Step.of_step hstep with
    | server d u _ hd => exact hserver d u hd ha'
    | client e c =>
        obtain ⟨hsame, _, _, hputs, _⟩ := afterClient_server env s c e
        rw [hsame] at ha'
        rw [hputs]
        exact hI a A' ha' hx
    | getArrives r fresh req body u _ hd => exact hserver _ u hd ha'
    | putArrives r fresh req body u _ hd =>
        have hnil : A'.acceptedOf r = [] := by
          refine acceptedOf_eq_nil (server_reachable (hs.step hstep)) ha' fun R hR _ => ?_
          obtain ⟨_, R₀, hR₀, harrived⟩ := (Server.Step.of_step hd).arrives
          obtain rfl : R₀ = R := Option.some.inj (hR₀.symm.trans hR)
          exact harrived.head.2.2.1
        rw [List.flatMap_append, ← hserver _ u hd ha']
        simp [hnil]
    | putBody r e u _ _ hd => exact hserver _ u hd ha'

/-- An answered request has gone to a session, which has accepted all of its body. -/
theorem Answered.accepted (h : Answered s r)
    (hserver : (Server.machine env.server).Reachable s.server) :
    ∃ R b B, s.server.calls r = some R ∧ R.session = some b ∧ s.server.actors b = some B ∧
      (B.acceptedOf r).flatten = s.sent r := by
  obtain ⟨hall, R, hR, hdone⟩ := h
  have hsession : R.session ≠ none := by
    intro hnone
    obtain ⟨e, he⟩ := Server.refused_of_reachable hserver hR hnone
    rw [hdone] at he
    cases he
  obtain ⟨b, hb⟩ := Option.ne_none_iff_exists'.mp hsession
  obtain ⟨B, hB, _⟩ := (Server.coherent_of_reachable hserver).call hR hb
  obtain ⟨hwhole, _⟩ := ((Server.ledger_of_reachable hserver).account hR hb hB).whole
    (by simp [hdone, Handler.broken])
  refine ⟨R, b, B, hR, hb, hB, ?_⟩
  rw [← hall, uploaded_eq hR, ← hwhole]
  simp [hdone, Handler.unsent]

theorem acceptedOf_prefix_sent (hs : (machine env).Reachable s)
    (ha : s.server.actors a = some A) (hr : r ∈ s.puts) :
    (A.acceptedOf r).flatten <+: s.sent r := by
  have hledger := Server.ledger_of_reachable (server_reachable hs)
  obtain ⟨R, hR, _⟩ := (named_of_reachable hs).put hr
  have huploaded := (writeWire_of_reachable hs).uploaded r hr
  rw [uploaded_eq hR] at huploaded
  by_cases hsession : R.session = some a
  · exact (hledger.account hR hsession ha).part.flatten.trans huploaded
  · rw [acceptedOf_eq_nil (server_reachable hs) ha]
    · exact List.nil_prefix
    · intro R' hR' hsession'
      obtain rfl : R = R' := Option.some.inj (hR.symm.trans hR')
      exact absurd hsession' hsession

/-- What the session has accepted is what the client has sent, up to a rest. -/
theorem accepted_prefix_taken (hs : (machine env).Reachable s) (ha : s.server.actors a = some A)
    (hx : A.sessionId = env.client.sessionId) (hserved : ServedBy s s.puts a) :
    (A.accepted.map Prod.snd).flatten <+: s.client.taken.flatten := by
  have hreach := server_reachable hs
  have hwire := writeWire_of_reachable hs
  have hwhole : ∀ q ∈ s.puts, s.put ≠ .arrived q → (A.acceptedOf q).flatten = s.sent q := by
    intro q hq hne
    obtain ⟨R, b, B, hR, hb, hB, hall⟩ := (hwire.answered hq hne).accepted hreach
    obtain rfl : b = a := hserved q hq R b hR hb
    obtain rfl : A = B := Option.some.inj (ha.symm.trans hB)
    exact hall
  have hsent : (s.puts.flatMap fun q => (A.acceptedOf q).flatten) <+: s.puts.flatMap s.sent := by
    by_cases hlast : ∃ r, s.put = .arrived r
    · obtain ⟨r, hlast⟩ := hlast
      obtain ⟨earlier, hputs⟩ := hwire.arrived hlast
      have hnodup := (named_of_reachable hs).putsNodup
      have hearlier : (earlier.flatMap fun q => (A.acceptedOf q).flatten) =
          earlier.flatMap s.sent := by
        refine List.flatMap_congr fun q hq => hwhole q (by simp [hputs, hq]) fun hq' => ?_
        obtain rfl : r = q := by
          rw [hlast] at hq'
          injection hq'
        rw [hputs, List.nodup_append] at hnodup
        exact hnodup.2.2 r hq r (List.mem_singleton_self r) rfl
      rw [hputs, List.flatMap_append, List.flatMap_append, hearlier]
      refine (List.prefix_append_right_inj _).mpr ?_
      simpa using acceptedOf_prefix_sent hs ha (r := r) (by simp [hputs])
    · have hall : (s.puts.flatMap fun q => (A.acceptedOf q).flatten) = s.puts.flatMap s.sent :=
        List.flatMap_congr fun q hq => hwhole q hq fun hq' => hlast ⟨q, hq'⟩
      rw [hall]
  have htaken : (s.puts.map s.sent).flatten <+: s.client.taken.flatten :=
    ((List.prefix_append _ _).trans hwire.part).flatten
  rw [accepted_eq hs ha hx, flatten_tagged]
  exact hsent.trans (by rwa [List.flatMap_def])

/-- What upstream is sent is a prefix of what the mailbox has accepted, which is of each
request a prefix of its body; for the client's session, it is a prefix of the buffers that
its writes have accepted. -/
theorem upload_integrity :
    (∀ s a A, (Server.machine env.server).Reachable s → s.actors a = some A →
      A.upstream.written <+: (A.accepted.map Prod.snd).flatten ∧
      ∀ r bytes, (r, bytes) ∈ A.accepted → ∃ R, s.calls r = some R ∧ R.session = some a ∧
        A.acceptedOf r <+: R.chunks) ∧
    ∀ s a A, (machine env).Reachable s → s.server.actors a = some A →
      A.sessionId = env.client.sessionId → ServedBy s s.puts a →
      A.upstream.written <+: (acceptedIn s.client.log).flatten := by
  constructor
  · intro s a A hs ha
    refine ⟨(Session.Upload.of_reachable hs ha).written_isPrefix, fun r bytes hmem => ?_⟩
    have hledger := Server.ledger_of_reachable hs
    obtain ⟨R, hR, hsession⟩ := hledger.known ha hmem
    exact ⟨R, hR, hsession, (hledger.account hR hsession ha).part⟩
  · intro s a A hs ha hx hserved
    have hupload := Session.Upload.of_reachable (server_reachable hs) ha
    have houtbox := Client.outbox_of_reachable (client_reachable hs)
    have htaken : s.client.taken.flatten <+: (acceptedIn s.client.log).flatten := by
      rw [← houtbox.log, houtbox.accepted, List.flatten_append]
      exact List.prefix_append _ _
    exact (hupload.written_isPrefix.trans (accepted_prefix_taken hs ha hx hserved)).trans htaken

/-- The first byte of a write of two has been sent on. -/
def writeByte : List TunnelEvent :=
  [.client (.poll (.write [1, 2])), .client .resume, .client (.io (.recv 0)), .putArrives 0 0,
    .server (.actor 0 .start), .server (.actor 0 (.connect 8 8)), .putBody (.chunk [1, 2]),
    .server (.ask 0), .server (.handle 0), .server (.actor 0 (.write 1))]

theorem writeByte_written :
    ∃ s A, (machine sampleEnv).Reachable s ∧ s.server.actors 0 = some A ∧
      A.upstream.written = [1] ∧ [1] <+: (A.accepted.map Prod.snd).flatten ∧
      [1] <+: (acceptedIn s.client.log).flatten := by
  obtain ⟨s, hrun, hactor, hputs, hcall⟩ := Machine.exists_run (M := machine sampleEnv)
    (P := fun s =>
      (s.server.actors 0).map (fun A => (A.sessionId, A.upstream.written)) = some (0, [1]) ∧
      s.puts = [0] ∧ (s.server.calls 0).map Call.session = some (some 0)) writeByte (by decide)
  simp only [Prod.mk.injEq, Option.map_eq_some_iff] at hactor
  obtain ⟨A, ha, hx, hwritten⟩ := hactor
  have hserved : ServedBy s s.puts 0 := hputs ▸ servedBy_singleton hcall
  refine ⟨s, A, hrun.reachable, ha, hwritten, ?_, ?_⟩
  · rw [← hwritten]
    exact (upload_integrity.1 s.server 0 A (server_reachable hrun.reachable) ha).1
  · rw [← hwritten]
    exact upload_integrity.2 s 0 A hrun.reachable ha hx hserved

end Session

end Tunnel
end Fronting
