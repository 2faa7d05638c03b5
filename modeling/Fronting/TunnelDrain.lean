import Fronting.Faultless
import Fronting.TunnelPosts
import Fronting.TunnelProgress

/-!
# A healthy tunnel never gets stuck

Whatever the tunnel has come to, it can bring all bytes to where they should be: upstream
has had every byte that the owner has written, and the owner reads every byte that upstream
has sent. For that nothing new has to be written or sent, and no time has to pass.
-/

namespace Fronting

open Function (update)

namespace Client

variable {s : Client}

theorem toRead_pollRead (hne : 0 < s.toRead) :
    (s.pollRead (s.chunk.length + 1)).1.toRead < s.toRead := by
  by_cases hqueue : s.responses = []
  · cases hchunk : s.chunk with
    | nil => simp [toRead, hqueue, hchunk] at hne
    | cons b bs => simp [pollRead, toRead, fillBuf, hchunk]
  · exact pollRead_toRead hqueue

/-- What a read changes. -/
theorem resume_read (s : Client) (room : Nat) :
    ∃ chunk queue delivered res,
      ({ s with call := some (.read room) } : Client).resume (.read room) =
        { s with call := none, chunk := chunk, responses := queue, delivered := delivered
                 log := s.log ++ [(.read room, res)] } ∧ ∀ n, res ≠ .written n := by
  simp only [resume, pollInner, pollRead]
  split
  · exact ⟨_, _, _, _, rfl, by simp⟩
  · split <;> exact ⟨_, _, _, _, rfl, by simp⟩

end Client

namespace Tunnel

variable {env : TunnelEnv} {s t : Tunnel} {a : ActorRef} {A A' : Session} {r : ReqId} {R : Call}

/-- The network side of the client goes on. -/
theorem Healthy.advance_client {e : IoEvent} {c : Client} (h : Healthy env a s)
    (hreports : s.reports (.io e) = true) (hio : Client.Io env.client s.client e c)
    (hflow : Flow a (.client (.io e))) (ht : s.afterClient env c (.io e) = t)
    (htask : c.task = s.client.task) (hd : c.dropped = s.client.dropped)
    (hin : c.incoming.forwards = true) (hout : c.outgoing ≠ .done)
    (hget : ∀ r, t.get = .arrived r → c.incoming ≠ .start → s.server.GetServed r)
    (hput : Unbroken t)
    (hless : t.stage + t.bodyWork + c.incoming.rank + c.toRead + t.putWork + t.slotWork <
      s.stage + s.bodyWork + s.client.incoming.rank + s.client.toRead + s.putWork + s.slotWork) :
    ∃ t, Advance env a s t := by
  obtain ⟨hserver, hclient, hgets, hputs, _⟩ := afterClient_server env s c (.io e)
  rw [ht] at hserver hclient hgets hputs
  obtain ⟨hcall, _, hlog, haccepted⟩ := hio.calls
  have hstep : (machine env).step s (.client (.io e)) = some t := by
    have hc : Client.step env.client s.client (.io e) = some c := by
      simp [Client.step, h.task, hio.step_eq]
    simp [machine, step, hreports, hc, ht]
  refine ⟨t, .of_step hflow hstep, ?_, ?_, ?_, ?_⟩
  · constructor
    · constructor
      · rw [hserver]
        exact h.serves.mine
      · rw [ServedBy, hserver, hgets]
        exact h.serves.gets
      · rw [ServedBy, hserver, hputs]
        exact h.serves.puts
    · rw [hserver]
      exact h.entry
    · rw [hserver]
      exact h.session
    · rw [hclient, htask, h.task]
    · rw [hclient, hd, h.dropped]
    · rw [hclient, hcall, h.call]
    · rw [hclient]
      exact hin
    · rw [hclient]
      exact hout
    · rw [hclient, hserver]
      exact hget
    · exact hput
    · rw [hclient, haccepted]
      exact h.chunks
  · simp only [work, hserver, hclient]
    omega
  · rw [hserver]
  · rw [hclient, hlog]

theorem Healthy.advance_sendRead {path : Uuid} {req : Request} (h : Healthy env a s)
    (hreq : createReadRequest env.client.http env.client.config env.client.sessionId path =
      some req) (hin : s.client.incoming = .start) : ∃ t, Advance env a s t := by
  refine h.advance_client rfl (.sendRead path req hin hreq) trivial
    (show _ = { s with client := { s.client with incoming := .awaiting }, get := .sent req [] } by
      simp [afterClient, hreq])
    rfl rfl rfl h.outgoing (fun r hr => by cases hr) h.put ?_
  simp only [stage, bodyWork, putWork, slotWork, Client.toRead, hin, Incoming.rank]
  omega

theorem Healthy.advance_readResponse (h : Healthy env a s) (hin : s.client.incoming = .awaiting)
    (hget : s.get = .arrived r) (hR : s.server.calls r = some R)
    (hh : R.handler = .done (.ok Server.streamResponse)) : ∃ t, Advance env a s t := by
  have hreports : s.reports (.io (.readResponse .ok)) = true := by
    simp [reports, answered, hget, hR, Call.response, hh, Server.streamResponse]
  refine h.advance_client hreports (.readResponse .ok hin rfl) rfl rfl rfl rfl rfl h.outgoing
    (fun q hq _ => h.get q hq (by simp [hin])) h.put ?_
  simp only [afterClient, stage, bodyWork, putWork, slotWork, Client.toRead, hin, hget,
    Server.readRank_eq hR, hh, Handler.readRank, Incoming.rank]
  omega

/-- All that has come of the body is handed to the client at once. -/
theorem Healthy.advance_frame (h : Healthy env a s) (hs : (machine env).Reachable s)
    (hin : s.client.incoming = .streaming) (hget : s.get = .arrived r)
    (hunseen : (s.seen r).length < (s.server.framesOf r).length) : ∃ t, Advance env a s t := by
  obtain ⟨rest, hrest⟩ := (readWire_of_reachable hs).seen r
  have hlength : (s.seen r).length + rest.length = (s.server.framesOf r).length := by
    rw [← hrest, List.length_append]
  have hne : rest ≠ [] := by
    rintro rfl
    simp only [List.length_nil] at hlength
    omega
  have hreports : s.reports (.io (.frame (.data rest))) = true := by
    simp [reports, hget, hne, hrest]
  refine h.advance_client hreports (.dataFrame rest hin hne) trivial
    (show _ = { s with
      client := { s.client with
        incoming := .sending (.ok rest), received := s.client.received ++ rest }
      seen := update s.seen r (s.seen r ++ rest) } by simp [afterClient, hget])
    rfl rfl rfl h.outgoing (fun q hq _ => h.get q hq (by simp [hin])) h.put ?_
  simp only [stage, bodyWork, putWork, slotWork, Client.toRead, hin, hget, Incoming.rank,
    Function.update_self, List.length_append]
  omega

theorem Healthy.advance_finished (h : Healthy env a s) (hs : (machine env).Reachable s)
    (hin : s.client.incoming = .streaming) (hget : s.get = .arrived r)
    (hended : s.bodyEnded r = true)
    (hseen : (s.server.framesOf r).length ≤ (s.seen r).length) : ∃ t, Advance env a s t := by
  have hsame : s.seen r = s.server.framesOf r :=
    ((readWire_of_reachable hs).seen r).eq_of_length_le hseen
  have hreports : s.reports (.io (.frame .finished)) = true := by
    simp [reports, hget, hended, hsame]
  refine h.advance_client hreports (.bodyFinished hin) trivial rfl rfl rfl rfl h.outgoing
    (fun q hq hne => absurd rfl hne) h.put ?_
  have hend : s.server.endRank r = 9 := by
    rw [Server.endRank, if_pos]
    exact hended
  simp only [afterClient, stage, bodyWork, putWork, slotWork, Client.toRead, hin, hget, hend,
    Incoming.rank]
  omega

theorem Healthy.advance_push {item : Item} (h : Healthy env a s)
    (hs : (machine env).Reachable s) (hin : s.client.incoming = .sending item)
    (hroom : s.client.responses.length ≤ 1) :
    ∃ t, Advance env a s t := by
  cases item with
  | error message =>
      have hforwards := h.incoming
      simp [hin, Incoming.forwards] at hforwards
  | ok bytes =>
      obtain ⟨r, _, hget, _⟩ := (phases_of_reachable hs).body (by rw [hin]; rfl)
      refine h.advance_client rfl (.push (.ok bytes) hin h.dropped hroom) trivial rfl rfl rfl rfl
        h.outgoing (fun q hq _ => h.get q hq (by simp [hin])) h.put ?_
      simp only [afterClient, stage, bodyWork, putWork, slotWork, Client.toRead, hin, hget,
        Incoming.rank, List.length_append, List.length_singleton]
      omega

theorem Healthy.advance_flushed {last : Bool} (h : Healthy env a s)
    (hs : (machine env).Reachable s) (hin : s.client.incoming = .flushing last)
    (hroom : s.client.responses.length ≤ 1) :
    ∃ t, Advance env a s t := by
  cases last with
  | true =>
      have hforwards := h.incoming
      simp [hin, Incoming.forwards] at hforwards
  | false =>
      obtain ⟨r, _, hget, _⟩ := (phases_of_reachable hs).body (by rw [hin]; rfl)
      refine h.advance_client rfl (.flushed hin hroom) trivial rfl rfl rfl rfl h.outgoing
        (fun q hq _ => h.get q hq (by simp [hin])) h.put ?_
      simp only [afterClient, stage, bodyWork, putWork, slotWork, Client.toRead, hin, hget,
        Incoming.rank]
      omega

theorem Healthy.advance_recv {first : Bool} {chunk : Bytes} {path : Uuid} {req : Request}
    (h : Healthy env a s)
    (hreq : createWriteRequest env.client.http env.client.config env.client.sessionId first path =
      some req) (hout : s.client.outgoing = .idle first) (hslot : s.client.slot = some chunk) :
    ∃ t, Advance env a s t := by
  refine h.advance_client rfl (.recv first chunk path req hout hslot hreq) trivial
    (show _ = { s with
      client := { s.client with
        slot := none, taken := s.client.taken ++ [chunk], outgoing := .awaiting first chunk }
      put := .sent req chunk } by simp [afterClient, hreq])
    rfl rfl h.incoming (by simp) h.get (fun q Q hq => by cases hq) ?_
  simp only [stage, bodyWork, putWork, slotWork, Client.toRead, hout, hslot, Option.elim_none,
    Option.elim_some]
  omega

theorem Healthy.advance_writeResponse {first : Bool} {chunk : Bytes} (h : Healthy env a s)
    (hout : s.client.outgoing = .awaiting first chunk) (hput : s.put = .arrived r)
    (hR : s.server.calls r = some R) (hh : R.handler = .done (.ok Server.noContent)) :
    ∃ t, Advance env a s t := by
  have hreports : s.reports (.io (.writeResponse .noContent)) = true := by
    simp [reports, answered, hput, hR, Call.response, hh, Server.noContent]
  refine h.advance_client hreports (.writeNoContent first chunk hout) rfl rfl rfl rfl h.incoming
    (by simp) h.get h.put ?_
  simp only [afterClient, stage, bodyWork, putWork, slotWork, Client.toRead, hout, hput,
    Server.writeWork_eq hR, hh, Handler.writeRank]
  omega

/-- The owner reads. -/
theorem Healthy.advance_read (h : Healthy env a s) (hs : (machine env).Reachable s)
    (hne : 0 < s.client.toRead) : ∃ t, Advance env a s t := by
  have hclient := Client.leads_read (client_reachable hs) ⟨h.task, h.dropped⟩ h.call
    (s.client.chunk.length + 1)
  have hless : (({ s.client with call := some (.read (s.client.chunk.length + 1)) } :
      Client).resume (.read (s.client.chunk.length + 1))).toRead < s.client.toRead :=
    Client.toRead_pollRead
      (s := { s.client with call := some (.read (s.client.chunk.length + 1)) }) hne
  obtain ⟨chunk, queue, delivered, res, hread, hres⟩ :=
    Client.resume_read s.client (s.client.chunk.length + 1)
  rw [hread] at hclient hless
  have hleads := Machine.Leads.map (M := machine env) (p := Flow a) TunnelEvent.client
    (fun c => { s with client := c }) (fun u d v hd hstep => by
      have hv : Client.step env.client u d = some v := hstep
      cases d with
      | poll op =>
          cases op with
          | read n => exact ⟨trivial, by simp [machine, step, reports, hv, afterClient]⟩
          | _ => exact absurd hd id
      | resume => exact ⟨trivial, by simp [machine, step, reports, hv, afterClient]⟩
      | _ => exact absurd hd id) hclient
  refine ⟨_, hleads, ?_, ?_, rfl, ?_⟩
  · exact ⟨⟨h.serves.mine, h.serves.gets, h.serves.puts⟩, h.entry, h.session, h.task, h.dropped,
      rfl, h.incoming, h.outgoing, h.get, h.put, h.chunks⟩
  · simp only [work, stage, bodyWork, putWork, slotWork]
    omega
  · have hnone : sentIn [(.read (s.client.chunk.length + 1), res)] = [] := by
      rw [sentIn, Client.acceptedIn_of_ne_written hres, List.flatten_nil]
    rw [sentIn_append, hnone, List.append_nil]

/-- A request has been handed over to the session. -/
theorem ServedBy.arrives {rs rs' : List ReqId} (h : ServedBy s rs a)
    (hcalls : t.server.calls = update s.server.calls r (some R)) (hR : R.session = some a)
    (hsub : ∀ q ∈ rs', q ∈ rs ∨ q = r) : ServedBy t rs' a := by
  intro q hq Q b hQ hb
  rw [hcalls] at hQ
  by_cases hqr : q = r
  · subst hqr
    obtain rfl : R = Q := by simpa using hQ
    exact Option.some.inj (hb.symm.trans hR)
  · exact h q ((hsub q hq).resolve_right hqr) Q b (by simpa [hqr] using hQ) hb

/-- A request that has arrived is none of those before it. -/
theorem arrived_ne (hs : (machine env).Reachable s) (hr : s.server.calls r = none) :
    (∀ q, s.get = .arrived q → q ≠ r) ∧ ∀ q, s.put = .arrived q → q ≠ r := by
  have hnamed := named_of_reachable hs
  constructor
  · rintro q hq rfl
    obtain ⟨earlier, hgets⟩ := (readWire_of_reachable hs).arrived hq
    obtain ⟨R, hR, _⟩ := hnamed.get (by simp [hgets] : q ∈ s.gets)
    exact absurd (hr.symm.trans hR) (by simp)
  · rintro q hq rfl
    obtain ⟨earlier, hputs⟩ := (writeWire_of_reachable hs).arrived hq
    obtain ⟨R, hR, _⟩ := hnamed.put (by simp [hputs] : q ∈ s.puts)
    exact absurd (hr.symm.trans hR) (by simp)

/-- The last `GET` reaches its session. -/
theorem Healthy.advance_getArrives (h : Healthy env a s) (hs : (machine env).Reachable s)
    (ha : s.server.actors a = some A) {req : Request} {body : Bytes}
    (hin : s.client.incoming = .awaiting) (hget : s.get = .sent req body) :
    ∃ t, Advance env a s t := by
  have hreach := server_reachable hs
  obtain ⟨hlife, _⟩ := h.running ha
  obtain ⟨r, fresh, hr, hfresh⟩ := Server.exists_fresh hreach
  obtain ⟨hx, hmethod⟩ := (named_of_reachable hs).getSent hget
  have hjoin := Server.step_join hr hfresh hx h.entry
    (by simp [Server.isAlive, ha, Session.isAlive_of_running hlife]) (by simp [hmethod])
  have hnone := Server.streams_eq_none (Server.coherent_of_reachable hreach) hr
  obtain ⟨_, hput⟩ := arrived_ne hs hr
  obtain ⟨R, hR⟩ : ∃ R : Call, R = ⟨some env.client.sessionId, req.method, some a,
    Server.startHandler req.method, []⟩ := ⟨_, rfl⟩
  rw [← hR] at hjoin
  have hsession : R.session = some a := by rw [hR]
  have hh : R.handler = .sendRead := by simp [hR, Server.startHandler, hmethod]
  have hother : ∀ q, q ≠ r → (s.server.setCall r R).calls q = s.server.calls q :=
    fun q hq => Function.update_of_ne hq _ _
  have hnext : (machine env).step s (.getArrives r fresh) = some { s with
      server := s.server.setCall r R, get := .arrived r, gets := s.gets ++ [r] } := by
    simp [machine, step, hget, hjoin]
  have hflow : Flow a (.getArrives r fresh) := trivial
  refine ⟨_, .of_step hflow hnext, ?_, ?_, rfl, rfl⟩
  · refine ⟨⟨h.serves.mine, ?_, ?_⟩, h.entry, h.session, h.task, h.dropped, h.call, h.incoming,
      h.outgoing, ?_, ?_, h.chunks⟩
    · exact h.serves.gets.arrives (R := R) rfl hsession (by simp)
    · exact h.serves.puts.arrives (R := R) rfl hsession fun q hq => .inl hq
    · rintro q ⟨⟩ _
      exact ⟨R, Function.update_self .., .inl hh⟩
    · intro q Q hq hQ
      exact h.put q Q hq ((hother q (hput q hq)).symm.trans hQ)
  · have hputs : ({ s with
        server := s.server.setCall r R, get := .arrived r, gets := s.gets ++ [r] } :
          Tunnel).putWork ≤ s.putWork :=
      putWork_le fun q hq => by rw [Server.writeWork, Server.writeWork, hother q (hput q hq)]
    have hend : (s.server.setCall r R).endRank r = 0 := by simp [Server.endRank, hnone]
    have hrank : (s.server.setCall r R).readRank r = 6 := by
      rw [Server.readRank_eq (Function.update_self ..), hh]
      rfl
    have hframes : (s.server.setCall r R).framesOf r = [] := by simp [Server.framesOf, hnone]
    have hhand : (s.server.setCall r R).handOf r = [] := by simp [Server.handOf, hnone]
    simp only [work, stage, bodyWork, slotWork, hin, hget, hend, hrank, hframes, hhand,
      List.length_nil, Server.setCall_actors] at *
    omega

/-- The last write request reaches its session. -/
theorem Healthy.advance_putArrives (h : Healthy env a s) (hs : (machine env).Reachable s)
    (ha : s.server.actors a = some A) {req : Request} {first : Bool} {body chunk : Bytes}
    (hout : s.client.outgoing = .awaiting first chunk) (hput : s.put = .sent req body) :
    ∃ t, Advance env a s t := by
  have hreach := server_reachable hs
  obtain ⟨hlife, _⟩ := h.running ha
  obtain ⟨r, fresh, hr, hfresh⟩ := Server.exists_fresh hreach
  obtain ⟨hx, hmethod⟩ := (named_of_reachable hs).putSent hput
  have hjoin := Server.step_join hr hfresh hx h.entry
    (by simp [Server.isAlive, ha, Session.isAlive_of_running hlife]) (by
      rcases put_method hs hput with hm | hm <;> simp [hm])
  obtain ⟨hget, _⟩ := arrived_ne hs hr
  obtain ⟨R, hR⟩ : ∃ R : Call, R = ⟨some env.client.sessionId, req.method, some a,
    Server.startHandler req.method, []⟩ := ⟨_, rfl⟩
  rw [← hR] at hjoin
  have hsession : R.session = some a := by rw [hR]
  have hh : R.handler = .nextChunk 0 := by simp [hR, Server.startHandler, hmethod]
  have hchunks : R.chunks = [] := by rw [hR]
  have hother : ∀ q, q ≠ r → (s.server.setCall r R).calls q = s.server.calls q :=
    fun q hq => Function.update_of_ne hq _ _
  have hnext : (machine env).step s (.putArrives r fresh) = some { s with
      server := s.server.setCall r R, put := .arrived r, puts := s.puts ++ [r]
      sent := update s.sent r body } := by
    simp [machine, step, hput, hjoin]
  have hflow : Flow a (.putArrives r fresh) := trivial
  refine ⟨_, .of_step hflow hnext, ?_, ?_, rfl, rfl⟩
  · refine ⟨⟨h.serves.mine, ?_, ?_⟩, h.entry, h.session, h.task, h.dropped, h.call, h.incoming,
      h.outgoing, ?_, ?_, h.chunks⟩
    · exact h.serves.gets.arrives (R := R) rfl hsession fun q hq => .inl hq
    · exact h.serves.puts.arrives (R := R) rfl hsession (by simp)
    · exact fun q hq hin => (h.get q hq hin).congr (hother q (hget q hq)) rfl
    · rintro q Q ⟨⟩ hQ
      obtain rfl : R = Q := by simpa using hQ
      simp [hh, Handler.broken]
  · have hstage : ({ s with
        server := s.server.setCall r R, put := .arrived r, puts := s.puts ++ [r]
        sent := update s.sent r body } : Tunnel).stage ≤ s.stage :=
      stage_le fun q hq => ⟨rfl, by rw [Server.readRank, Server.readRank, hother q (hget q hq)]⟩
    have hbody : ({ s with
        server := s.server.setCall r R, put := .arrived r, puts := s.puts ++ [r]
        sent := update s.sent r body } : Tunnel).bodyWork = s.bodyWork := rfl
    have hwork : (s.server.setCall r R).writeWork body r = 20 * body.length + 2 := by
      rw [Server.writeWork_eq (Function.update_self ..), hh, hchunks]
      rfl
    simp only [work, hbody, putWork, slotWork, hout, hput, Function.update_self, hwork,
      Server.setCall_actors] at *
    omega

/-- The requests that the client has to send can be built. -/
def Builds (env : ClientEnv) : Prop :=
  (∃ path req, createReadRequest env.http env.config env.sessionId path = some req) ∧
    ∀ first, ∃ path req, createWriteRequest env.http env.config env.sessionId first path = some req

theorem sample_builds : Builds sampleEnv.client := by
  have hget : (createReadRequest sampleEnv.client.http sampleEnv.client.config
      sampleEnv.client.sessionId 0).isSome = true := by decide
  have hput : ∀ first, (createWriteRequest sampleEnv.client.http sampleEnv.client.config
      sampleEnv.client.sessionId first 0).isSome = true := by decide
  exact ⟨⟨0, Option.isSome_iff_exists.mp hget⟩,
    fun first => ⟨0, Option.isSome_iff_exists.mp (hput first)⟩⟩

/-- The way to the reader, when the session and the uploads are at rest. -/
theorem Healthy.advance_download (h : Healthy env a s) (hs : (machine env).Reachable s)
    (hbuilds : Builds env.client) (ha : s.server.actors a = some A) (hidle : A.asked = [])
    (hne : s.stage + s.bodyWork + s.client.incoming.rank + s.client.toRead +
      A.upstream.rx.length ≠ 0) : ∃ t, Advance env a s t := by
  by_cases hread : 0 < s.client.toRead
  · exact h.advance_read hs hread
  have hroom : s.client.responses.length ≤ 1 := by
    unfold Client.toRead at hread
    omega
  cases hin : s.client.incoming with
  | start =>
      obtain ⟨path, req, hreq⟩ := hbuilds.1
      exact h.advance_sendRead hreq hin
  | awaiting =>
      cases hget : s.get with
      | idle => exact absurd hget ((phases_of_reachable hs).asked hin)
      | sent req body => exact h.advance_getArrives hs ha hin hget
      | arrived r =>
          rcases h.advance_get hs ha hidle hin hget with hnext | ⟨R, hR, hh⟩
          · exact hnext
          · exact h.advance_readResponse hin hget hR hh
  | streaming =>
      obtain ⟨r, _, hget, _⟩ := (phases_of_reachable hs).body (by rw [hin]; rfl)
      by_cases hunseen : (s.seen r).length < (s.server.framesOf r).length
      · exact h.advance_frame hs hin hget hunseen
      by_cases hended : s.bodyEnded r = true
      · exact h.advance_finished hs hin hget hended (not_lt.mp hunseen)
      by_cases hleft : s.server.handOf r ≠ [] ∨ A.upstream.rx ≠ []
      · exact h.advance_stream hs ha hidle (by rw [hin]; rfl) hget (eq_false_of_ne_true hended)
          hleft
      · -- nothing is left
        rw [not_or, not_not, not_not] at hleft
        have hend : s.server.endRank r = 0 := by
          rw [Server.endRank, if_neg]
          exact hended
        refine absurd ?_ hne
        simp only [stage, bodyWork, hin, hget, hend, hleft.1, hleft.2, Incoming.rank,
          List.length_nil]
        omega
  | sending item => exact h.advance_push hs hin hroom
  | flushing last => exact h.advance_flushed hs hin hroom
  | done =>
      have hforwards := h.incoming
      simp [hin, Incoming.forwards] at hforwards

theorem Healthy.advance (h : Healthy env a s) (hs : (machine env).Reachable s)
    (hbuilds : Builds env.client) (hne : s.work a ≠ 0) : ∃ t, Advance env a s t := by
  obtain ⟨A, ha, _⟩ := h.session
  by_cases hidle : A.asked = []
  · by_cases htx : A.upstream.tx = []
    · cases hout : s.client.outgoing with
      | idle first =>
          cases hslot : s.client.slot with
          | some chunk =>
              obtain ⟨path, req, hreq⟩ := hbuilds.2 first
              exact h.advance_recv hreq hout hslot
          | none =>
              refine h.advance_download hs hbuilds ha hidle ?_
              obtain ⟨hhandling, hm⟩ := List.append_eq_nil_iff.mp hidle
              have hnone : A.handling = none := by simpa using hhandling
              simp only [work, ha, putWork, slotWork, hout, hslot, Option.elim_some,
                Option.elim_none, Session.load, hm, hnone, htx, List.map_nil, List.sum_nil,
                List.length_nil] at hne
              omega
      | awaiting first chunk =>
          rcases put_of_awaiting hs hout with ⟨req, hput⟩ | ⟨r, hput, _⟩
          · exact h.advance_putArrives hs ha hout hput
          · obtain ⟨earlier, hputs⟩ := (writeWire_of_reachable hs).arrived hput
            obtain ⟨R, hR, _⟩ := (named_of_reachable hs).put (by simp [hputs] : r ∈ s.puts)
            rcases h.advance_put hs ha hidle hout hput hR with hnext | hh
            · exact hnext
            · exact h.advance_writeResponse hout hput hR hh
      | done => exact absurd hout h.outgoing
    · exact h.advance_tx ha htx
  · exact h.advance_asked hs ha hidle

theorem writeRank_pos (h : Handler) : 0 < h.writeRank := by
  cases h <;> simp [Handler.writeRank]

/-- No byte is under way. -/
structure Settled (s : Tunnel) (A : Session) : Prop where
  read : readIn s.client.log = A.upstream.produced
  written : A.upstream.written = sentIn s.client.log
  received : A.upstream.tx = []
  acked : s.client.acked = s.client.accepted

theorem Healthy.settled (h : Healthy env a s) (hs : (machine env).Reachable s)
    (ha : s.server.actors a = some A) (hzero : s.work a = 0) : Settled s A := by
  have hreach := server_reachable hs
  have hinbox := Client.inbox_of_reachable (client_reachable hs)
  have houtbox := Client.outbox_of_reachable (client_reachable hs)
  have hwire := writeWire_of_reachable hs
  obtain ⟨hlife, _⟩ := h.running ha
  have halive := Session.isAlive_of_running hlife
  have hupload := Session.Upload.of_reachable hreach ha
  simp only [work, ha, Option.elim_some, Session.load, Nat.add_eq_zero_iff] at hzero
  obtain ⟨⟨⟨⟨⟨⟨_, hbody⟩, hrank⟩, htoRead⟩, hputs⟩, hslot⟩, ⟨⟨hmailbox, hhandling⟩, htx⟩, hrx⟩ :=
    hzero
  have hrxNil : A.upstream.rx = [] := List.length_eq_zero_iff.mp (by omega)
  have hnone : A.handling = none := by
    cases hw : A.handling with
    | none => rfl
    | some w => simp [hw, Writing.weight] at hhandling
  have hempty : A.mailbox = [] := by
    cases hm : A.mailbox with
    | nil => rfl
    | cons m rest =>
        have hweight := m.weight_pos
        rw [hm, List.map_cons, List.sum_cons] at hmailbox
        omega
  have hslotNone : s.client.slot = none := by
    cases hchunk : s.client.slot with
    | none => rfl
    | some chunk => simp [slotWork, hchunk] at hslot
  obtain ⟨first, hout⟩ : ∃ first, s.client.outgoing = .idle first := by
    cases hout : s.client.outgoing with
    | idle first => exact ⟨first, rfl⟩
    | done => exact absurd hout h.outgoing
    | awaiting first chunk =>
        rcases put_of_awaiting hs hout with ⟨req, hput⟩ | ⟨r, hput, _⟩
        · simp [putWork, hout, hput] at hputs
        · obtain ⟨earlier, hsplit⟩ := hwire.arrived hput
          obtain ⟨R, hR, _⟩ := (named_of_reachable hs).put (by simp [hsplit] : r ∈ s.puts)
          have hpos := writeRank_pos R.handler
          simp only [putWork, hout, hput, Server.writeWork_eq hR] at hputs
          omega
  constructor
  · -- nothing is between the read half and the reader
    have hchunk : s.client.responses = [] ∧ s.client.chunk = [] := by
      unfold Client.toRead at htoRead
      constructor
      · exact List.length_eq_zero_iff.mp (by omega)
      · by_contra hne
        simp [hne] at htoRead
    have hin : s.client.incoming.inHand = [] := by
      cases hin : s.client.incoming <;> simp_all [Incoming.inHand, Incoming.rank]
    have hunseen : s.unseen = [] ∧ s.inHand = [] := by
      unfold unseen inHand
      cases hget : s.get with
      | arrived r =>
          simp only [bodyWork, hget, Server.handOf] at hbody
          obtain ⟨hframes, hhand⟩ := Nat.add_eq_zero_iff.mp hbody
          constructor
          · exact List.drop_eq_nil_of_le (by omega)
          · refine List.length_eq_zero_iff.mp ?_
            exact (Nat.mul_eq_zero.mp hhand).resolve_left (by decide)
      | _ => exact ⟨rfl, rfl⟩
    have hkept := hinbox.kept h.dropped
    rw [hchunk.1, hchunk.2, hin] at hkept
    have hconsumed :=
      consumed_split hs h.serves ha (Server.not_closing_of_running hlife)
    rw [hunseen.1, hunseen.2, hkept] at hconsumed
    rw [(Session.Reading.of_reachable hreach ha).produced, hrxNil, hconsumed, ← hinbox.log]
    simp [queued]
  · -- nothing is between the owner and the write half
    have hsplit := hupload.split halive fun f hf => by
      by_contra hok
      exact (hupload.stopped f hf (eq_false_of_ne_true hok)).2 hlife
    have hsent := sent_split hs h.serves ha h.put
    have hrest : s.waiting = [] ∧ s.unsent = [] := by
      unfold waiting unsent
      cases hput : s.put with
      | arrived r =>
          obtain ⟨hall, R, hR, hh⟩ := hwire.next hout r hput
          simp [hall, hR, hh, Handler.unsent]
      | sent req body => exact absurd hput (hwire.notSent hout req body)
      | idle => exact ⟨rfl, rfl⟩
    have hunwritten : A.unwritten = [] ∧ A.queued = [] := by
      simp [Session.unwritten, Session.queued, hnone, hempty]
    rw [sentIn, ← houtbox.log, houtbox.accepted, hslotNone, hwire.taken h.outgoing]
    simp only [Option.toList_none, List.append_nil]
    rw [hsent, hsplit, hrest.1, hrest.2, hunwritten.1, hunwritten.2]
    simp
  · exact List.length_eq_zero_iff.mp htx
  · have htaken := houtbox.taken h.outgoing
    rw [houtbox.accepted, htaken, hout, hslotNone]
    simp [Outgoing.inFlight]

/-- The owner writes a byte while nine bytes are on their way to it. -/
def underWay : List TunnelEvent :=
  nineBytes ++ [.client (.poll (.write [1])), .client .resume]

end Tunnel
end Fronting
