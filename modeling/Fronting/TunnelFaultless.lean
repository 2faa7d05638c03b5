import Fronting.TunnelDrain

/-!
# Nothing fails by itself

In a run in which no fault comes from outside the tunnel stays sound, however its steps are
interleaved, and from any of its states it can become healthy. What counts as a fault is a
condition on each step: a connection or a request that breaks off, a session that is ended,
an owner that stops or writes nothing.
-/

namespace Fronting

open Function (update)

/-- A read, a flush, or a write of at least one byte. -/
def Op.plain (op : Op) : Prop := op ≠ .shutdown ∧ op.buffer ≠ some []

namespace Client

variable {env : ClientEnv} {s t : Client}

/-- The step fails nothing on the client's side. -/
def Spares (env : ClientEnv) : ClientEvent → Prop
  | .poll op => op.plain
  | .drop | .io (.connError _) | .io (.readError _) | .io (.writeError _)
  | .io (.frame (.error _)) => False
  | .io (.readResponse status) => status.isSuccess = true
  | .io (.writeResponse status) => status = .noContent
  | .io (.sendRead path) =>
    ∃ req, createReadRequest env.http env.config env.sessionId path = some req
  | .io (.recv path) =>
    ∀ first, ∃ req, createWriteRequest env.http env.config env.sessionId first path = some req
  | _ => True

structure Sound (s : Client) : Prop where
  task : s.task = .running
  dropped : s.dropped = false
  senderOpen : s.senderOpen = true
  incoming : s.incoming.forwards = true
  outgoing : s.outgoing ≠ .done
  chunks : [] ∉ s.accepted
  call : ∀ op, s.call = some op → op.plain

theorem Sound.init : Sound Client.init := by
  constructor <;> simp [Client.init, Incoming.forwards]

theorem Sound.io {e : IoEvent} (h : Sound s) (hspares : Spares env (.io e)) (hio : Io env s e t) :
    Sound t := by
  have hin := h.incoming
  cases hio with
  | connOk =>
      exact ⟨by simp [settle, joined, h.outgoing, h.task], h.dropped, h.senderOpen, h.incoming,
        h.outgoing, h.chunks, h.call⟩
  | sendRead | readResponse | bodyFinished | emptyFrame | trailers | dataFrame | flushed =>
      exact ⟨h.task, h.dropped, h.senderOpen, by simp_all [Incoming.forwards], h.outgoing, h.chunks,
        h.call⟩
  | push item hsending =>
      refine ⟨h.task, h.dropped, h.senderOpen, ?_, h.outgoing, h.chunks, h.call⟩
      cases item with
      | ok bytes => rfl
      | error message => simp [hsending, Incoming.forwards] at hin
  | recv => exact ⟨h.task, h.dropped, h.senderOpen, h.incoming, by simp, h.chunks, h.call⟩
  | writeNoContent => exact ⟨h.task, h.dropped, h.senderOpen, h.incoming, by simp, h.chunks, h.call⟩
  | noReadRequest path _ hreq =>
      obtain ⟨req, heq⟩ := hspares
      exact absurd (hreq.symm.trans heq) (by simp)
  | noWriteRequest first chunk path _ _ hreq =>
      obtain ⟨req, heq⟩ := hspares first
      exact absurd (hreq.symm.trans heq) (by simp)
  | readStatus status _ hstatus => exact absurd (hstatus.symm.trans hspares) Bool.noConfusion
  | writeStatus _ _ status _ hstatus => exact absurd hspares hstatus
  | connError | readError | bodyError | writeError => exact hspares.elim
  | pushDropped _ _ hdropped => exact absurd (h.dropped.symm.trans hdropped) Bool.noConfusion
  | flushedLast hlast => simp [hlast, Incoming.forwards] at hin
  | recvClosed _ _ _ _ hclosed => exact absurd (h.senderOpen.symm.trans hclosed) Bool.noConfusion

theorem Sound.resume {op : Op} (h : Sound s) (hcall : s.call = some op) : Sound (s.resume op) := by
  obtain ⟨hin, hout, _, htask, _, _, _, hdropped⟩ := pollInner_pumps s op
  obtain ⟨hplain, hbuffer⟩ := h.call op hcall
  refine ⟨htask.trans h.task, hdropped.trans h.dropped, ?_, hin ▸ h.incoming, ?_, ?_, ?_⟩
  · cases op with
    | shutdown => exact absurd rfl hplain
    | read room =>
        simp only [Client.resume, pollInner, pollRead]
        split
        · exact h.senderOpen
        · split <;> exact h.senderOpen
    | write buf | writeVectored bufs =>
        simp only [Client.resume, pollInner, pollWrite]
        split
        · split <;> exact h.senderOpen
        · split <;> exact h.senderOpen
    | flush => exact h.senderOpen
  · simpa [Client.resume, report, hout] using h.outgoing
  · obtain ⟨buf, hbuf, _, heq⟩ | ⟨_, hsame, _⟩ := pollInner_outbox s op
    · simp only [Client.resume, report, heq, List.mem_append, List.mem_singleton, not_or]
      exact ⟨h.chunks, fun hnil => hbuffer (hbuf.trans (congrArg some hnil.symm))⟩
    · simpa [Client.resume, report, hsame] using h.chunks
  · intro op' hop
    simp [Client.resume, report] at hop

/-- A client to which nothing happens from outside goes on. -/
theorem Sound.step {e : ClientEvent} (h : Sound s) (hspares : Spares env e)
    (hstep : Step env s e t) : Sound t := by
  cases hstep with
  | pollTaken | pollError | pollOk =>
      exact ⟨h.task, h.dropped, h.senderOpen, h.incoming, h.outgoing, h.chunks,
        by simp [report]⟩
  | pollPending op =>
      refine ⟨h.task, h.dropped, h.senderOpen, h.incoming, h.outgoing, h.chunks, ?_⟩
      rintro _ ⟨⟩
      exact hspares
  | resume op hcall => exact h.resume hcall
  | io e t _ hio => exact h.io hspares hio
  | drop => exact hspares.elim
  | abort hd => exact absurd (h.dropped.symm.trans hd) Bool.noConfusion
  | tearDown r htask | publish r htask =>
      have hrunning := h.task
      rw [htask] at hrunning
      cases hrunning

end Client

namespace Tunnel

variable {env : TunnelEnv} {s t : Tunnel} {e : TunnelEvent} {a : ActorRef} {A : Session}
  {r : ReqId} {es : List TunnelEvent}

/-- No fault comes from outside: each end spares the client's session, the network reports
what the server has answered, and it delivers the bodies. -/
def Faultless (env : TunnelEnv) (s : Tunnel) : TunnelEvent → Prop
  | .server d => s.server.Spares env.client.sessionId d
  | .client (.io (.readResponse status)) => s.answered status s.get = true
  | .client (.io (.writeResponse status)) => s.answered status s.put = true
  | .client d => Client.Spares env.client d
  | .putBody (.error _) => False
  | _ => True

structure Sound (env : TunnelEnv) (s : Tunnel) : Prop where
  server : s.server.Sound env.client.sessionId
  client : s.client.Sound

theorem Sound.init : Sound env Tunnel.init := ⟨.init, .init⟩

/-- No request of the client has been refused the lock. -/
theorem not_refused (hs : (machine env).Reachable s) {R : Call} (hR : s.server.calls r = some R)
    (hx : R.sessionId = some env.client.sessionId) : ¬ R.Refused := by
  have hnamed := named_of_reachable hs
  rcases hnamed.mine hR hx with hget | hput
  · exact neverRefused_of_reachable hs r hget R hR
  · obtain ⟨R', hR', _, hmethod⟩ := hnamed.put hput
    obtain rfl : R = R' := Option.some.inj (hR.symm.trans hR')
    have hfits := Server.fits_of_reachable (server_reachable hs) hR
    rintro (hh | ⟨err, hh, hcode⟩)
    · simp only [Call.Fits, hh] at hfits
      exact hmethod hfits.1
    · simp only [Call.Fits, hh] at hfits
      exact hmethod (hfits hcode).1

/-- The answer to a request of the client that has not failed. -/
theorem answer_of_sound (h : Sound env s) (hs : (machine env).Reachable s) {R : Call}
    {status : StatusCode} (hR : s.server.calls r = some R)
    (hx : R.sessionId = some env.client.sessionId)
    (hresp : ∃ resp, R.response = some resp ∧ resp.status = status) :
    R.method = .get ∧ status = .ok ∨ R.method ≠ .get ∧ status = .noContent := by
  have hbroken := h.server.call r R hR hx
  have hfits := Server.fits_of_reachable (server_reachable hs) hR
  obtain ⟨resp, hresp, rfl⟩ := hresp
  unfold Call.response at hresp
  split at hresp
  next resp' hh =>
      obtain rfl : resp' = resp := Option.some.inj hresp
      simp only [Call.Fits, hh] at hfits
      rcases Server.response_of_ok (server_reachable hs) hR hh with rfl | rfl
      · refine .inr ⟨fun hget => ?_, rfl⟩
        have hsame := hfits.mpr hget
        simp [Server.noContent, Server.streamResponse] at hsame
      · exact .inl ⟨hfits.mp rfl, rfl⟩
  next e hh =>
      rw [hh] at hbroken
      cases hbroken
  next => cases hresp

/-- The server takes a step that spares the client's session, or that brings a request. -/
theorem Sound.step_server {d : ServerEvent} {u : Server} (h : Sound env s)
    (hs : (machine env).Reachable s) (hspares : s.server.Spares env.client.sessionId d)
    (hd : Server.step env.server s.server d = some u)
    (harrives : ∀ q req fresh R, d = .request q req fresh → u.calls q = some R →
      R.sessionId = some env.client.sessionId → R.handler.broken = false) :
    u.Sound env.client.sessionId :=
  h.server.step (server_reachable hs) hspares (.of_step hd)
    (fun _ _ hR hx => not_refused hs hR hx) harrives

/-- A request of the client that arrives is handed over to its session. -/
theorem Sound.arrives {req : Request} {fresh : ActorRef} {u : Server} (h : Sound env s)
    (hs : (machine env).Reachable s)
    (hx : req.sessionId env.server.http env.server.sessionKey = some env.client.sessionId)
    (hmethod : ∀ name, req.method ≠ .other name)
    (hpatch : req.method = .patch → ¬ s.server.Absent env.client.sessionId)
    (hd : Server.step env.server s.server (.request r req fresh) = some u) :
    u.Sound env.client.sessionId ∧
      ∃ b B, u.actors b = some B ∧ B.sessionId = env.client.sessionId := by
  obtain ⟨b, hcall⟩ := Server.call_of_request hd hx hmethod hpatch
  constructor
  · have hspares : s.server.Spares env.client.sessionId (.request r req fresh) := trivial
    refine h.step_server hs hspares hd fun q req' fresh' R heq hR _ => ?_
    injection heq with hq hreq
    subst hq hreq
    rw [← Option.some.inj (hcall.symm.trans hR)]
    by_cases hget : req.method = .get <;> simp [Server.startHandler, hget, Handler.broken]
  · have hu : (Server.machine env.server).Reachable u :=
      (server_reachable hs).step (e := .request r req fresh) hd
    obtain ⟨B, hB, hid⟩ := (Server.coherent_of_reachable hu).call hcall rfl
    exact ⟨b, B, hB, (Option.some.inj hid).symm⟩

/-- Once a chunk has been acknowledged the client has a session. -/
theorem Sound.not_absent (h : Sound env s) (hs : (machine env).Reachable s) {req : Request}
    {body : Bytes} (hput : s.put = .sent req body) (hpatch : req.method = .patch) :
    ¬ s.server.Absent env.client.sessionId := by
  have hreach := server_reachable hs
  have hmethod := (posts_of_reachable hs).sent hput
  obtain ⟨q, earlier, hputs⟩ : ∃ q earlier, s.puts = q :: earlier := by
    refine List.exists_cons_of_ne_nil fun hnil => ?_
    rw [putMethod, if_pos hnil, hpatch] at hmethod
    cases hmethod
  have hmem : q ∈ s.puts := by simp [hputs]
  obtain ⟨_, R, hR, hdone⟩ := (writeWire_of_reachable hs).answered hmem (by simp [hput])
  obtain ⟨R', hR', hx, _⟩ := (named_of_reachable hs).put hmem
  obtain rfl : R = R' := Option.some.inj (hR.symm.trans hR')
  obtain ⟨b, hb⟩ := session_of_unbroken hs hR (by simp [hdone, Handler.broken])
  obtain ⟨B, hB, hid⟩ := (Server.coherent_of_reachable hreach).call hR hb
  obtain ⟨hentry, hopens, _⟩ := h.server.session b B hB (Option.some.inj (hid.symm.trans hx))
  intro habsent
  have hdead := habsent b hentry
  rw [Server.isAlive_of hB (Life.alive_of_opens hopens)] at hdead
  cases hdead

/-- The body of a write request is not empty. -/
theorem Sound.sent_ne_nil (h : Sound env s) (hs : (machine env).Reachable s) (hr : r ∈ s.puts) :
    s.sent r ≠ [] := by
  intro hempty
  refine h.client.chunks ?_
  have hmem : s.sent r ∈ s.client.taken := by
    rw [(writeWire_of_reachable hs).taken h.client.outgoing]
    exact List.mem_append_left _ (List.mem_map_of_mem hr)
  rw [(Client.outbox_of_reachable (client_reachable hs)).accepted, ← hempty]
  exact List.mem_append_left _ hmem

/-- What the network reports without a fault spares the client. -/
theorem Sound.spares {d : ClientEvent} (h : Sound env s) (hs : (machine env).Reachable s)
    (hfault : Faultless env s (.client d)) : Client.Spares env.client d := by
  have hanswer : ∀ {x status}, s.answered status x = true → ∃ r R, x = .arrived r ∧
      s.server.calls r = some R ∧ ∃ resp, R.response = some resp ∧ resp.status = status := by
    intro x status hx
    unfold answered at hx
    split at hx
    next r =>
        obtain ⟨resp, hresp, hstatus⟩ := (Option.any_eq_true _ _).mp hx
        obtain ⟨R, hR, hresp⟩ := Option.bind_eq_some_iff.mp hresp
        exact ⟨r, R, rfl, hR, resp, hresp, of_decide_eq_true hstatus⟩
    next => cases hx
  cases d with
  | io e =>
      cases e with
      | readResponse status =>
          obtain ⟨r, R, hget, hR, hresp⟩ := hanswer hfault
          obtain ⟨earlier, hgets⟩ := (readWire_of_reachable hs).arrived hget
          obtain ⟨R', hR', hx, hmethod⟩ :=
            (named_of_reachable hs).get (by simp [hgets] : r ∈ s.gets)
          obtain rfl : R = R' := Option.some.inj (hR.symm.trans hR')
          rcases answer_of_sound h hs hR hx hresp with ⟨_, rfl⟩ | ⟨hne, _⟩
          · rfl
          · exact absurd hmethod hne
      | writeResponse status =>
          obtain ⟨r, R, hput, hR, hresp⟩ := hanswer hfault
          obtain ⟨earlier, hputs⟩ := (writeWire_of_reachable hs).arrived hput
          obtain ⟨R', hR', hx, hmethod⟩ :=
            (named_of_reachable hs).put (by simp [hputs] : r ∈ s.puts)
          obtain rfl : R = R' := Option.some.inj (hR.symm.trans hR')
          rcases answer_of_sound h hs hR hx hresp with ⟨hget, _⟩ | ⟨_, rfl⟩
          · exact absurd hget hmethod
          · rfl
      | _ => exact hfault
  | _ => exact hfault

theorem Sound.step (h : Sound env s) (hs : (machine env).Reachable s)
    (hfault : Faultless env s e) (hstep : s.step env e = some t) : Sound env t := by
  cases Step.of_step hstep with
  | server d u halone hd =>
      refine ⟨h.step_server hs hfault hd fun q req fresh R heq hR hx => ?_, h.client⟩
      subst heq
      obtain ⟨_, R', hR', harrived⟩ := (Server.Step.of_step hd).arrives
      obtain rfl : R' = R := Option.some.inj (hR'.symm.trans hR)
      exact absurd (harrived.head.1.symm.trans hx) (alone_request halone q req fresh rfl)
  | client d c hreports hc =>
      obtain ⟨hserver, hclient, _⟩ := afterClient_server env s c d
      constructor
      · rw [hserver]
        exact h.server
      · rw [hclient]
        exact h.client.step (h.spares hs hfault) (.of_step hc)
  | getArrives r fresh req body u hget hd =>
      obtain ⟨hx, hmethod⟩ := (named_of_reachable hs).getSent hget
      exact ⟨(h.arrives hs hx (by simp [hmethod]) (by simp [hmethod]) hd).1, h.client⟩
  | putArrives r fresh req body u hput hd =>
      obtain ⟨hx, _⟩ := (named_of_reachable hs).putSent hput
      have hmethod : ∀ name, req.method ≠ .other name := by
        rcases put_method hs hput with hm | hm <;> simp [hm]
      exact ⟨(h.arrives hs hx hmethod (h.not_absent hs hput) hd).1, h.client⟩
  | putBody r d u hput hdelivers hd =>
      obtain ⟨earlier, hputs⟩ := (writeWire_of_reachable hs).arrived hput
      have hmem : r ∈ s.puts := by simp [hputs]
      refine ⟨h.step_server hs ?_ hd (by simp), h.client⟩
      cases d with
      | chunk data => trivial
      | error message => exact hfault.elim
      | finished =>
          intro R hR _
          have hall : s.uploaded r = s.sent r := of_decide_eq_true hdelivers
          rw [← uploaded_eq hR, hall]
          exact h.sent_ne_nil hs hmem

theorem sound_of_run (h : (machine env).Run (Faultless env) es s) : Sound env s :=
  h.invariant Sound.init fun _ _ _ hs hI hC hstep => hI.step hs hC hstep

/-- A request of the client has been handed over to its only session. -/
theorem Sound.session_of_call (h : Sound env s) (hs : (machine env).Reachable s) {R : Call}
    (hR : s.server.calls r = some R) (hx : R.sessionId = some env.client.sessionId) :
    ∃ b B, R.session = some b ∧ s.server.actors b = some B ∧
      B.sessionId = env.client.sessionId ∧ s.server.sessions env.client.sessionId = some b := by
  obtain ⟨b, hb⟩ := session_of_unbroken hs hR (h.server.call r R hR hx)
  obtain ⟨B, hB, hid⟩ := (Server.coherent_of_reachable (server_reachable hs)).call hR hb
  have hxB : B.sessionId = env.client.sessionId := Option.some.inj (hid.symm.trans hx)
  exact ⟨b, B, hb, hB, hxB, (h.server.session b B hB hxB).1⟩

theorem Sound.getServed (h : Sound env s) (hs : (machine env).Reachable s) (hr : r ∈ s.gets) :
    s.server.GetServed r := by
  have hreach := server_reachable hs
  obtain ⟨R, hR, hx, hmethod⟩ := (named_of_reachable hs).get hr
  have hbroken := h.server.call r R hR hx
  have hfits := Server.fits_of_reachable hreach hR
  have hstream : R.handler.Granted → ∃ st, s.server.streams r = some st ∧
      (st.ended = true ∨ st.dropped = false) := by
    intro hgranted
    obtain ⟨st, hst⟩ := (Server.grants_of_reachable hreach).granted hR hgranted
    refine ⟨st, hst, ?_⟩
    by_cases hd : st.dropped = true
    · exact .inl (h.server.stream r R st hR hx hst hd)
    · exact .inr (eq_false_of_ne_true hd)
  refine ⟨R, hR, ?_⟩
  unfold Call.Fits at hfits
  cases hh : R.handler with
  | sendRead => exact .inl rfl
  | awaitRead => exact .inr (.inl rfl)
  | readReply granted =>
      cases granted with
      | true => exact .inr (.inr ⟨.inl rfl, hstream (.inl hh)⟩)
      | false => exact absurd (.inl hh) (not_refused hs hR hx)
  | done result =>
      cases result with
      | ok resp =>
          rw [hh] at hfits
          obtain rfl : resp = Server.streamResponse := hfits.mpr hmethod
          exact .inr (.inr ⟨.inr rfl, hstream (.inr hh)⟩)
      | error err => simp [hh, Handler.broken] at hbroken
  | cancelled => simp [hh, Handler.broken] at hbroken
  | nextChunk | sendWrite | awaitWrite | wrote =>
      rw [hh] at hfits
      exact absurd hmethod hfits

/-- A sound tunnel whose session runs is healthy between two polls. -/
theorem Sound.healthy (h : Sound env s) (hs : (machine env).Reachable s)
    (ha : s.server.actors a = some A) (hx : A.sessionId = env.client.sessionId)
    (hlife : A.life = .running) (hcall : s.client.call = none) : Healthy env a s := by
  have hnamed := named_of_reachable hs
  obtain ⟨hentry, _, _, hcap⟩ := h.server.session a A ha hx
  have hserved : ∀ {q R b}, s.server.calls q = some R →
      R.sessionId = some env.client.sessionId → R.session = some b → b = a := by
    intro q R b hR hid hb
    obtain ⟨b', _, hb', _, _, hentry'⟩ := h.session_of_call hs hR hid
    rw [hb] at hb'
    rw [Option.some.inj hb', Option.some.inj (hentry'.symm.trans hentry)]
  refine ⟨⟨?_, ?_, ?_⟩, hentry, ⟨A, ha, hlife, hcap hlife⟩, h.client.task, h.client.dropped, hcall,
    h.client.incoming, h.client.outgoing, ?_, ?_, h.client.chunks⟩
  · intro B hB
    rw [← Option.some.inj (ha.symm.trans hB)]
    exact hx
  · intro q hq R b hR hb
    obtain ⟨R', hR', hid, _⟩ := hnamed.get hq
    obtain rfl : R = R' := Option.some.inj (hR.symm.trans hR')
    exact hserved hR hid hb
  · intro q hq R b hR hb
    obtain ⟨R', hR', hid, _⟩ := hnamed.put hq
    obtain rfl : R = R' := Option.some.inj (hR.symm.trans hR')
    exact hserved hR hid hb
  · intro q hq _
    obtain ⟨earlier, hgets⟩ := (readWire_of_reachable hs).arrived hq
    exact h.getServed hs (by simp [hgets])
  · intro q R hq hR
    obtain ⟨earlier, hputs⟩ := (writeWire_of_reachable hs).arrived hq
    obtain ⟨R', hR', hid, _⟩ := hnamed.put (by simp [hputs] : q ∈ s.puts)
    obtain rfl : R = R' := Option.some.inj (hR.symm.trans hR')
    exact h.server.call q R hR hid

/-- The steps that open the client's session. -/
def Opening : TunnelEvent → Prop
  | .client .resume | .client (.io (.sendRead _)) | .getArrives .. => True
  | .server (.actor _ .start) => True
  | .server (.actor _ (.connect txCap _)) => 0 < txCap
  | _ => False

/-- A sound state that opening steps lead to. -/
structure Opened (env : TunnelEnv) (s t : Tunnel) : Prop where
  leads : (machine env).Leads Opening s t
  reachable : (machine env).Reachable t
  sound : Sound env t

theorem Opened.step {u : Tunnel} (h : Opened env s t) (hopening : Opening e)
    (hfault : Faultless env t e) (hstep : t.step env e = some u) : Opened env s u := by
  have hnext : (machine env).step t e = some u := hstep
  exact ⟨h.leads.trans (.of_step hopening hnext), h.reachable.step hnext,
    h.sound.step h.reachable hfault hstep⟩

/-- A poll that has passed `check_err` returns. -/
theorem Opened.exists_idle (h : Opened env s t) :
    ∃ u, Opened env s u ∧ u.client.call = none := by
  cases hcall : t.client.call with
  | none => exact ⟨t, h, hcall⟩
  | some op =>
      have hstep : t.step env (.client .resume) =
          some { t with client := t.client.resume op } := by
        simp [Tunnel.step, reports, Client.step, hcall, afterClient]
      have hopening : Opening (.client .resume) := trivial
      exact ⟨_, h.step hopening trivial hstep, rfl⟩

/-- The client's `GET` opens a session, if there is none. -/
theorem Opened.exists_session (h : Opened env s t) (hcall : t.client.call = none)
    (hbuilds : Builds env.client) :
    ∃ u b B, Opened env s u ∧ u.client.call = none ∧ u.server.actors b = some B ∧
      B.sessionId = env.client.sessionId := by
  by_cases hmine : ∃ b B, t.server.actors b = some B ∧ B.sessionId = env.client.sessionId
  · obtain ⟨b, B, hB, hx⟩ := hmine
    exact ⟨t, b, B, h, hcall, hB, hx⟩
  · -- then no `GET` has arrived
    have hnoget : ∀ r, t.get ≠ .arrived r := by
      intro r hget
      obtain ⟨earlier, hgets⟩ := (readWire_of_reachable h.reachable).arrived hget
      obtain ⟨R, hR, hx, _⟩ := (named_of_reachable h.reachable).get (by simp [hgets] : r ∈ t.gets)
      obtain ⟨b, B, _, hB, hxB, _⟩ := h.sound.session_of_call h.reachable hR hx
      exact hmine ⟨b, B, hB, hxB⟩
    obtain ⟨u, hu, hidle, req, body, hget⟩ : ∃ u, Opened env s u ∧ u.client.call = none ∧
        ∃ req body, u.get = .sent req body := by
      have hphases := phases_of_reachable h.reachable
      cases hin : t.client.incoming with
      | start =>
          obtain ⟨path, req, hreq⟩ := hbuilds.1
          have hstep : t.step env (.client (.io (.sendRead path))) = some { t with
              client := { t.client with incoming := .awaiting }, get := .sent req [] } := by
            simp [Tunnel.step, reports, Client.step, Client.ioStep, Client.sendRead,
              h.sound.client.task, hin, hreq, afterClient]
          have hfault : Faultless env t (.client (.io (.sendRead path))) := ⟨req, hreq⟩
          have hopening : Opening (.client (.io (.sendRead path))) := trivial
          exact ⟨_, h.step hopening hfault hstep, hcall, req, [], rfl⟩
      | awaiting =>
          cases hget : t.get with
          | idle => exact absurd hget (hphases.asked hin)
          | sent req body => exact ⟨t, h, hcall, req, body, hget⟩
          | arrived r => exact absurd hget (hnoget r)
      | done =>
          have hforwards := h.sound.client.incoming
          simp [hin, Incoming.forwards] at hforwards
      | streaming | sending | flushing =>
          obtain ⟨r, _, hget, _⟩ := hphases.body (by rw [hin]; rfl)
          exact absurd hget (hnoget r)
    obtain ⟨r, fresh, hr, hfresh⟩ := Server.exists_fresh (server_reachable hu.reachable)
    obtain ⟨v, hv⟩ : ∃ v, Server.step env.server u.server (.request r req fresh) = some v := by
      simp [Server.step, hr, hfresh]
    obtain ⟨hx, hmethod⟩ := (named_of_reachable hu.reachable).getSent hget
    obtain ⟨_, b, B, hB, hxB⟩ :=
      hu.sound.arrives hu.reachable hx (by simp [hmethod]) (by simp [hmethod]) hv
    have hstep : u.step env (.getArrives r fresh) = some { u with
        server := v, get := .arrived r, gets := u.gets ++ [r] } := by
      simp [Tunnel.step, hget, hv]
    have hopening : Opening (.getArrives r fresh) := trivial
    exact ⟨_, b, B, hu.step hopening trivial hstep, hidle, hB, hxB⟩

/-- The session connects. -/
theorem Opened.exists_running (h : Opened env s t) (hcall : t.client.call = none)
    (ha : t.server.actors a = some A) (hx : A.sessionId = env.client.sessionId) :
    ∃ u B, Opened env s u ∧ u.client.call = none ∧ u.server.actors a = some B ∧
      B.sessionId = env.client.sessionId ∧ B.life = .running := by
  have hconnect : ∀ {t A}, Opened env s t → t.client.call = none → t.server.actors a = some A →
      A.sessionId = env.client.sessionId → A.life = .starting →
      ∃ u B, Opened env s u ∧ u.client.call = none ∧ u.server.actors a = some B ∧
        B.sessionId = env.client.sessionId ∧ B.life = .running := by
    intro t A h hcall ha hx hlife
    obtain ⟨_, _, hspared, _⟩ := h.sound.server.session a A ha hx
    have hstep : t.step env (.server (.actor a (.connect 1 1))) = some { t with
        server := t.server.setActor a
          (A.connected env.server t.server.now (.connect 1 1)) } := by
      simp [Tunnel.step, alone, Server.step, ha, Session.step, hlife, hspared]
    have hfault : Faultless env t (.server (.actor a (.connect 1 1))) := by
      intro B _ _
      refine ⟨by simp, by simp, ?_⟩
      rintro txCap rxCap ⟨⟩
      exact Nat.one_pos
    have hopening : Opening (.server (.actor a (.connect 1 1))) := Nat.one_pos
    exact ⟨_, _, h.step hopening hfault hstep, hcall, Function.update_self .., hx, rfl⟩
  cases hlife : A.life with
  | running => exact ⟨t, A, h, hcall, ha, hx, hlife⟩
  | starting => exact hconnect h hcall ha hx hlife
  | spawned =>
      have hstep : t.step env (.server (.actor a .start)) = some { t with
          server := t.server.setActor a (A.onStart env.server t.server.now) } := by
        simp [Tunnel.step, alone, Server.step, ha, Session.step, hlife]
      have hfault : Faultless env t (.server (.actor a .start)) := by
        intro B _ _
        simp
      have hopening : Opening (.server (.actor a .start)) := trivial
      exact hconnect (h.step hopening hfault hstep) hcall (Function.update_self ..) hx rfl
  | stopping | closed | dropping | dropped | failed =>
      obtain ⟨_, hopens, _⟩ := h.sound.server.session a A ha hx
      simp [hlife, Life.opens] at hopens

/-- In a run without faults no request of the client fails and its session is never lost,
whatever the order of the steps; and each state of the run leads to a healthy one, by steps
that only open the session. -/
theorem faultless_healthy (h : (machine env).Run (Faultless env) es s)
    (hbuilds : Builds env.client) :
    Sound env s ∧ ∃ t a, (machine env).Leads Opening s t ∧ Healthy env a t := by
  have hsound := sound_of_run h
  refine ⟨hsound, ?_⟩
  have hopened : Opened env s s := ⟨.refl Opening s, h.reachable, hsound⟩
  obtain ⟨t, ht, hcall⟩ := hopened.exists_idle
  obtain ⟨u, a, A, hu, hcall, ha, hx⟩ := ht.exists_session hcall hbuilds
  obtain ⟨v, B, hv, hcall, hB, hx, hlife⟩ := hu.exists_running hcall ha hx
  exact ⟨v, a, hv.leads, hv.sound.healthy hv.reachable hB hx hlife hcall⟩

/-- A write reaches upstream without a fault. -/
theorem writeByte_healthy :
    ∃ s, (machine sampleEnv).Run (Faultless sampleEnv) writeByte s ∧
      s.server.writtenTo 0 = [1] ∧ Sound sampleEnv s ∧
      ∃ t a, (machine sampleEnv).Leads Opening s t ∧ Healthy sampleEnv a t := by
  obtain ⟨s, hrun, hwritten⟩ := Machine.exists_run (M := machine sampleEnv)
    (P := fun s => s.server.writtenTo 0 = [1]) writeByte (by decide)
  have hput : ∀ first, (createWriteRequest sampleEnv.client.http sampleEnv.client.config
      sampleEnv.client.sessionId first 0).isSome = true := by decide
  have hfaultless : (machine sampleEnv).Run (Faultless sampleEnv) writeByte s := by
    refine hrun.of_forall fun s => ?_
    simp only [writeByte, Faultless, Client.Spares, Server.Spares, Op.plain, Op.buffer]
    simpa [← Option.isSome_iff_exists] using And.intro (hput false) (hput true)
  exact ⟨s, hfaultless, hwritten, faultless_healthy hfaultless sample_builds⟩

end Tunnel
end Fronting
