import Fronting.Backpressure
import Fronting.LongPoll
import Fronting.TunnelWork

/-!
# What a healthy server does next

The actor takes up what has been asked of it, a handler goes on when the actor has nothing
left to do, and a stream reads when its `GET` has been answered. Each of these steps lowers
`work`.
-/

namespace Fronting.Tunnel

open Function (update)

variable {env : TunnelEnv} {s t : Tunnel} {a : ActorRef} {A A' : Session} {r : ReqId} {R : Call}

theorem Healthy.running (h : Healthy env a s) (ha : s.server.actors a = some A) :
    A.life = .running ∧ 0 < A.upstream.txCap := by
  obtain ⟨B, hB, hlife, hcap⟩ := h.session
  obtain rfl : A = B := Option.some.inj (ha.symm.trans hB)
  exact ⟨hlife, hcap⟩

/-- Upstream takes what it has been sent. -/
theorem Healthy.advance_tx (h : Healthy env a s) (ha : s.server.actors a = some A)
    (htx : A.upstream.tx ≠ []) : ∃ t, Advance env a s t := by
  obtain ⟨hlife, _⟩ := h.running ha
  have hpos : 0 < A.upstream.tx.length := List.length_pos_iff.mpr htx
  have hown : Session.Own env.server s.server.now A (.upstreamTake A.upstream.tx.length)
      { A with upstream := A.upstream.take A.upstream.tx.length } :=
    .upstreamTake _ (by simp [Session.hasUpstream, hlife]) hpos le_rfl
  refine h.advance_actor ha (.actor A _ ha hown.step_eq) rfl hlife rfl rfl ?_
  simp only [Session.load, Upstream.take, List.drop_length, List.length_nil]
  omega

/-- The handler of a write goes on. -/
theorem Healthy.advance_handling (h : Healthy env a s) (hs : (machine env).Reachable s)
    (ha : s.server.actors a = some A) {w : Writing} (hw : A.handling = some w) :
    ∃ t, Advance env a s t := by
  have hreach := server_reachable hs
  obtain ⟨hlife, hcap⟩ := h.running ha
  have hoffset := (Session.Upload.of_reachable hreach ha).offset w hw
  rcases Nat.eq_or_lt_of_le hoffset with hall | hpart
  · have ha' : (s.server.setActor a (A.writeOk env.server w)).actors a =
        some (A.writeOk env.server w) := by simp
    refine h.advance_reply ha (.writeOk A w ha hw hlife hall) rfl rfl rfl ha' hlife rfl rfl ?_ ?_
    · refine fun r hr => ⟨rfl, rfl, rfl, fun hin => ?_⟩
      have hserved := h.get r hr hin
      -- the write that is answered is not the `GET`
      have hne : r ≠ w.req := by
        rintro rfl
        have hasked : Message.write w.req w.bytes ∈ A.asked := by
          simp [Session.asked_handling hw]
        obtain ⟨Q, hQ, _, hwait⟩ := (Server.coherent_of_reachable hreach).asked ha hasked rfl
        rcases Handler.awaits_write (hwait (Session.isAlive_of_running hlife)) with
          ⟨total, hh⟩ | hh
        · exact (hserved.not_awaitWrite hQ total w.bytes).1 hh
        · exact (hserved.not_awaitWrite hQ 0 w.bytes).2 hh
      refine hserved.congr ?_ (by simp)
      rw [Server.replyTo_calls, if_neg hne]
      rfl
    · have hless : (A.writeOk env.server w).load + w.weight ≤ A.load + 1 := by
        have hmailbox : ((A.writeOk env.server w).mailbox.map Message.weight).sum ≤
            (A.mailbox.map Message.weight).sum + 1 := by
          rcases Session.mailbox_writeOk env.server A w with hm | hm
          · rw [hm]
            omega
          · simp [hm, Message.weight]
        have hnone : (A.writeOk env.server w).handling = none := rfl
        have hup : (A.writeOk env.server w).upstream = A.upstream := rfl
        simp only [Session.load, hnone, hup, hw, Option.elim_none, Option.elim_some]
        omega
      have hweight : 3 ≤ w.weight := Nat.le_add_left 3 _
      omega
  · by_cases hroom : A.upstream.tx.length < A.upstream.txCap
    · have hown : Session.Own env.server s.server.now A (.write 1)
          { A with handling := some { w with offset := w.offset + 1 }
                   upstream := A.upstream.write ((w.bytes.drop w.offset).take 1) } :=
        .write 1 w hw hlife Nat.one_pos hpart hroom
      refine h.advance_actor ha (.actor A _ ha hown.step_eq) rfl hlife rfl rfl ?_
      have hone : ((w.bytes.drop w.offset).take 1).length = 1 := by
        rw [List.length_take, List.length_drop]
        omega
      simp only [Session.load, hw, Option.elim_some, Writing.weight, Upstream.write,
        List.length_append, hone]
      omega
    · refine h.advance_tx ha fun hnil => hroom ?_
      rw [hnil]
      exact hcap

/-- The actor takes up a message. -/
theorem Healthy.advance_mailbox (h : Healthy env a s) (hs : (machine env).Reachable s)
    (ha : s.server.actors a = some A) {m : Message} {rest : List Message}
    (hm : A.mailbox = m :: rest) (hidle : A.handling = none) : ∃ t, Advance env a s t := by
  have hreach := server_reachable hs
  have hcoherent := Server.coherent_of_reachable hreach
  obtain ⟨hlife, _⟩ := h.running ha
  cases m with
  | write q bytes =>
      refine h.advance_actor ha (.handleWrite A rest q bytes ha hm hlife hidle) rfl hlife rfl rfl ?_
      simp only [Session.load, hm, hidle, List.map_cons, List.sum_cons, Message.weight,
        Option.elim_none, Option.elim_some, Writing.weight]
      omega
  | resetIdleTimeout =>
      refine h.advance_actor ha (.handleReset A rest ha hm hlife hidle) rfl hlife rfl rfl ?_
      have hsame : (Session.resetIdleTimeout env.server s.server.now
          { A with mailbox := rest }).load = ({ A with mailbox := rest } : Session).load := rfl
      rw [hsame]
      simp only [Session.load, hm, List.map_cons, List.sum_cons, Message.weight]
      omega
  | read q =>
      have hasked : Message.read q ∈ A.asked := by simp [Session.asked_cons hm hidle]
      have hx := h.serves.mine A ha
      have hfree := reader_of_asked hs ha hx hlife hasked
      have hnone := hcoherent.unread ha hasked
      obtain ⟨earlier, hgets⟩ := last_of_asked hs ha hx hasked
      have ha' : ((s.server.setActor a
          { A with mailbox := rest, reader := some q, upstreamReadAbort := some q
                   opened := A.opened ++ [q] }).setStream q (.start a)).actors a =
            some { A with mailbox := rest, reader := some q, upstreamReadAbort := some q
                          opened := A.opened ++ [q] } := by simp
      refine h.advance_reply ha (.handleGranted A rest q ha hm hlife hidle hfree) rfl rfl rfl ha'
        hlife rfl rfl ?_ ?_
      · intro r hr
        -- the `GET` that is granted its stream is the last
        obtain rfl : q = r := by
          obtain ⟨before, hgets'⟩ := (readWire_of_reachable hs).arrived hr
          exact List.singleton_inj.mp (List.append_inj' (hgets.symm.trans hgets') rfl).2
        refine ⟨?_, ?_, ?_, fun hin => ?_⟩
        · simp [Server.endRank, hnone, ReadStream.start]
        · simp [Server.framesOf, hnone, ReadStream.start]
        · simp [Server.handOf, hnone, ReadStream.start, ReadStream.inHand]
        · obtain ⟨Q, hQ, _, hwait⟩ := hcoherent.asked ha hasked rfl
          obtain ⟨Q', hQ', hserved⟩ := h.get q hr hin
          obtain rfl : Q = Q' := Option.some.inj (hQ.symm.trans hQ')
          have hh : Q.handler = .awaitRead := by
            rcases Handler.awaits_read (hwait (Session.isAlive_of_running hlife)) with hh | hh
            · exact hh
            · exact absurd hh ((h.get q hr hin).not_awaitWrite hQ 0 []).2
          refine ⟨{ Q with handler := .readReply true }, ?_, .inr (.inr ⟨.inl rfl, .start a, ?_⟩)⟩
          · simp [Server.replyTo_calls, hQ, hh, Server.onReply]
          · simp [ReadStream.start]
      · simp only [Session.load, hm, List.map_cons, List.sum_cons, Message.weight]
        omega

theorem Healthy.advance_asked (h : Healthy env a s) (hs : (machine env).Reachable s)
    (ha : s.server.actors a = some A) (hasked : A.asked ≠ []) : ∃ t, Advance env a s t := by
  cases hw : A.handling with
  | some w => exact h.advance_handling hs ha hw
  | none =>
      cases hm : A.mailbox with
      | cons m rest => exact h.advance_mailbox hs ha hm hw
      | nil => exact absurd (by simp [Session.asked, hw, hm]) hasked

/-- The last write request goes on. -/
theorem Healthy.put_call {d : ServerEvent} {u : Server} {R' : Call} {first : Bool} {chunk : Bytes}
    (h : Healthy env a s) (hs : (machine env).Reachable s) (ha : s.server.actors a = some A)
    (hout : s.client.outgoing = .awaiting first chunk) (hput : s.put = .arrived r)
    (hR : s.server.calls r = some R) (hstep : Server.Step env.server s.server d u)
    (hreq : ∀ r req fresh, d ≠ .request r req fresh)
    (hcalls : u.calls = update s.server.calls r (some R'))
    (hstreams : u.streams = s.server.streams) (hsessions : u.sessions = s.server.sessions)
    (ha' : u.actors a = some A') (hlife : A'.life = .running)
    (hcap : A'.upstream.txCap = A.upstream.txCap) (hbroken : R'.handler.broken = false)
    (hless : 20 * ((s.sent r).length - R'.chunks.flatten.length) + R'.handler.writeRank + A'.load <
      20 * ((s.sent r).length - R.chunks.flatten.length) + R.handler.writeRank + A.load) :
    Healthy env a { s with server := u } ∧
      ({ s with server := u } : Tunnel).work a < s.work a := by
  have hother : ∀ q, s.get = .arrived q → u.calls q = s.server.calls q := by
    intro q hq
    rw [hcalls, Function.update_of_ne (get_ne_put hs hq hput).symm]
  have hnext : u.calls r = some R' := by rw [hcalls, Function.update_self]
  constructor
  · refine h.server ha hstep hreq hsessions ha' hlife hcap (fun q hq hin => ?_) fun q Q hq hQ => ?_
    · exact (h.get q hq hin).congr (hother q hq) (congrFun hstreams q)
    · obtain rfl : r = q := by
        rw [hput] at hq
        injection hq
      rw [← Option.some.inj (hnext.symm.trans hQ)]
      exact hbroken
  · have hstage : ({ s with server := u } : Tunnel).stage ≤ s.stage := by
      refine stage_le fun q hq => ⟨?_, ?_⟩
      · rw [Server.endRank, Server.endRank, hstreams]
      · rw [Server.readRank, Server.readRank, hother q hq]
    have hbody : ({ s with server := u } : Tunnel).bodyWork = s.bodyWork := by
      refine bodyWork_eq fun q hq => ?_
      rw [Server.framesOf, Server.handOf, hstreams]
      exact ⟨rfl, rfl⟩
    have hbefore : s.putWork = s.server.writeWork (s.sent r) r := by simp [putWork, hout, hput]
    have hafter : ({ s with server := u } : Tunnel).putWork = u.writeWork (s.sent r) r := by
      simp [putWork, hout, hput]
    refine work_lt ha ha' ?_
    rw [hbody, hbefore, hafter, Server.writeWork_eq hR, Server.writeWork_eq hnext]
    omega

/-- The last `GET` goes on. -/
theorem Healthy.get_call {d : ServerEvent} {u : Server} {R' : Call}
    (h : Healthy env a s) (hs : (machine env).Reachable s) (ha : s.server.actors a = some A)
    (hin : s.client.incoming = .awaiting) (hget : s.get = .arrived r)
    (hR : s.server.calls r = some R) (hstep : Server.Step env.server s.server d u)
    (hflow : Flow a (.server d)) (hcalls : u.calls = update s.server.calls r (some R'))
    (hstreams : u.streams = s.server.streams) (hsessions : u.sessions = s.server.sessions)
    (ha' : u.actors a = some A') (hlife : A'.life = .running)
    (hcap : A'.upstream.txCap = A.upstream.txCap)
    (hproduced : A'.upstream.produced = A.upstream.produced) (hserved : u.GetServed r)
    (hless : R'.handler.readRank + A'.load < R.handler.readRank + A.load) :
    ∃ t, Advance env a s t := by
  have hreq : ∀ r req fresh, d ≠ .request r req fresh := by
    rintro r req fresh rfl
    exact hflow
  have hother : ∀ q, s.put = .arrived q → u.calls q = s.server.calls q := by
    intro q hq
    rw [hcalls, Function.update_of_ne (get_ne_put hs hget hq)]
  have hnext : u.calls r = some R' := by rw [hcalls, Function.update_self]
  have hhealthy : Healthy env a { s with server := u } := by
    refine h.server ha hstep hreq hsessions ha' hlife hcap (fun q hq _ => ?_) fun q Q hq hQ => ?_
    · obtain rfl : r = q := by
        rw [hget] at hq
        injection hq
      exact hserved
    · rw [hother q hq] at hQ
      exact h.put q Q hq hQ
  refine ⟨_, .of_server hstep hflow hhealthy ha ha' hproduced ?_⟩
  have hbody : ({ s with server := u } : Tunnel).bodyWork = s.bodyWork := by
    refine bodyWork_eq fun q hq => ?_
    rw [Server.framesOf, Server.handOf, hstreams]
    exact ⟨rfl, rfl⟩
  have hputs : ({ s with server := u } : Tunnel).putWork ≤ s.putWork := by
    refine putWork_le fun q hq => ?_
    rw [Server.writeWork, Server.writeWork, hother q hq]
  have hsame : u.endRank r = s.server.endRank r := by
    rw [Server.endRank, Server.endRank, hstreams]
  have hbefore : s.stage = s.server.endRank r + R.handler.readRank := by
    rw [← Server.readRank_eq hR]
    simp [stage, hin, hget]
  have hafter : ({ s with server := u } : Tunnel).stage =
      s.server.endRank r + R'.handler.readRank := by
    rw [← Server.readRank_eq hnext, ← hsame]
    simp [stage, hin, hget]
  refine work_lt ha ha' ?_
  rw [hbody, hbefore, hafter]
  omega

/-- An actor that has nothing left to do has room in its mailbox. -/
theorem Healthy.room (h : Healthy env a s) (ha : s.server.actors a = some A)
    (hidle : A.asked = []) : A.isAlive ∧ A.mailbox.length < env.server.mailboxCapacity := by
  have hm : A.mailbox = [] := (List.append_eq_nil_iff.mp hidle).2
  refine ⟨Session.isAlive_of_running (h.running ha).1, ?_⟩
  rw [hm]
  exact env.server.mailboxCapacity_pos

/-- A write request goes on until it has been answered. -/
theorem Healthy.advance_put {first : Bool} {chunk : Bytes} (h : Healthy env a s)
    (hs : (machine env).Reachable s) (ha : s.server.actors a = some A) (hidle : A.asked = [])
    (hout : s.client.outgoing = .awaiting first chunk) (hput : s.put = .arrived r)
    (hR : s.server.calls r = some R) :
    (∃ t, Advance env a s t) ∨ R.handler = .done (.ok Server.noContent) := by
  have hreach := server_reachable hs
  have hwire := writeWire_of_reachable hs
  obtain ⟨hlife, _⟩ := h.running ha
  obtain ⟨halive, hroom⟩ := h.room ha hidle
  obtain ⟨earlier, hputs⟩ := hwire.arrived hput
  have hmem : r ∈ s.puts := by simp [hputs]
  have hbroken := h.put r R hput hR
  have hsession : R.session = some a := by
    obtain ⟨b, hb⟩ := session_of_unbroken hs hR hbroken
    rw [hb, h.serves.puts r hmem R b hR hb]
  have hmethod : R.method ≠ .get := by
    obtain ⟨R', hR', _, hm⟩ := (named_of_reachable hs).put hmem
    rwa [Option.some.inj (hR.symm.trans hR')]
  have hcounts := Server.counts_of_reachable hreach hR
  cases hh : R.handler with
  | nextChunk total =>
      have htotal : total = R.chunks.flatten.length := by simpa [Server.Counts, hh] using hcounts
      obtain ⟨rest, hrest⟩ := hwire.uploaded r hmem
      rw [uploaded_eq hR] at hrest
      left
      by_cases hnil : rest = []
      · -- the body has arrived, and it is not empty
        have hall : R.chunks.flatten = s.sent r := by rw [← hrest, hnil, List.append_nil]
        have hpos : total ≠ 0 := by
          rw [htotal, hall, Ne, List.length_eq_zero_iff]
          intro hempty
          refine h.chunks ?_
          rw [(Client.outbox_of_reachable (client_reachable hs)).accepted,
            hwire.taken h.outgoing, hputs]
          simp [hempty]
        have hnext : Server.bodyStep R total .finished =
            { R with handler := .done (.ok Server.noContent) } := by
          simp [Server.bodyStep, hpos]
        have hstep : Server.Step env.server s.server (.body r .finished)
            (s.server.setCall r { R with handler := .done (.ok Server.noContent) }) :=
          hnext ▸ .body R total hR hh
        obtain ⟨hhealthy, hless⟩ := h.put_call hs ha hout hput hR hstep (by simp) rfl rfl rfl ha
          hlife rfl rfl (by simp [hh, Handler.writeRank])
        have hflow : Flow a (.putBody .finished) := trivial
        refine ⟨_, .of_step hflow ?_, hhealthy, hless, rfl, rfl⟩
        simp [machine, step, hput, delivers, uploaded_eq hR, hall, hstep.step_eq (by simp)]
      · have hlength : (R.chunks ++ [rest]).flatten.length = (s.sent r).length := by
          rw [← hrest]
          simp
        have hshort : R.chunks.flatten.length + rest.length = (s.sent r).length := by
          rw [← hrest, List.length_append]
        have hpos : 0 < rest.length := List.length_pos_iff.mpr hnil
        have hstep : Server.Step env.server s.server (.body r (.chunk rest))
            (s.server.setCall r (Server.bodyStep R total (.chunk rest))) := .body R total hR hh
        obtain ⟨hhealthy, hless⟩ := h.put_call hs ha hout hput hR hstep (by simp) rfl rfl rfl ha
          hlife rfl rfl (by
            simp only [Server.bodyStep, hlength, hh, Handler.writeRank]
            omega)
        have hflow : Flow a (.putBody (.chunk rest)) := trivial
        refine ⟨_, .of_step hflow ?_, hhealthy, hless, rfl, rfl⟩
        simp [machine, step, hput, delivers, uploaded_eq hR, hrest, hstep.step_eq (by simp)]
  | sendWrite total data =>
      have hstep : Server.Step env.server s.server (.ask r)
          ((s.server.setActor a (A.acceptWrite r data)).setCall r
            { R with handler := .awaitWrite total data }) :=
        .askWrite R a A total data hR hsession ha hh halive hroom
      have ha' : ((s.server.setActor a (A.acceptWrite r data)).setCall r
          { R with handler := .awaitWrite total data }).actors a =
            some (A.acceptWrite r data) := by simp
      have hload : (A.acceptWrite r data).load = A.load + (2 * data.length + 4) := by
        simp only [Session.load, Session.acceptWrite, Session.enqueue, List.map_append,
          List.sum_append, List.map_cons, List.map_nil, List.sum_cons, List.sum_nil,
          Message.weight]
        omega
      obtain ⟨hhealthy, hless⟩ := h.put_call hs ha hout hput hR hstep (by simp) rfl rfl rfl ha'
        hlife rfl rfl (by
          simp only [hh, Handler.writeRank, hload]
          omega)
      exact .inl ⟨_, .of_server hstep trivial hhealthy ha ha' rfl hless⟩
  | awaitWrite total data =>
      exact absurd hidle (Server.asked_of_awaitWrite hreach hR hsession ha halive hh)
  | wrote total data =>
      have hstep : Server.Step env.server s.server (.reply r) _ :=
        .replyWrote R total data hR hh
      obtain ⟨hhealthy, hless⟩ := h.put_call hs ha hout hput hR hstep (by simp) rfl rfl rfl ha
        hlife rfl rfl (by simp [hh, Handler.writeRank])
      exact .inl ⟨_, .of_server hstep trivial hhealthy ha ha rfl hless⟩
  | sendRead | awaitRead | readReply granted =>
      exact absurd (by simpa [Server.Counts, hh] using hcounts) hmethod
  | done result =>
      cases result with
      | error e => simp [hh, Handler.broken] at hbroken
      | ok resp =>
          rcases Server.response_of_ok hreach hR hh with rfl | rfl
          · exact .inr rfl
          · have hfits := Server.fits_of_reachable hreach hR
            exact absurd (by simpa [Call.Fits, hh] using hfits) hmethod
  | cancelled => simp [hh, Handler.broken] at hbroken

/-- A `GET` goes on until it has been answered. -/
theorem Healthy.advance_get (h : Healthy env a s) (hs : (machine env).Reachable s)
    (ha : s.server.actors a = some A) (hidle : A.asked = [])
    (hin : s.client.incoming = .awaiting) (hget : s.get = .arrived r) :
    (∃ t, Advance env a s t) ∨
      ∃ R, s.server.calls r = some R ∧ R.handler = .done (.ok Server.streamResponse) := by
  have hreach := server_reachable hs
  obtain ⟨hlife, _⟩ := h.running ha
  obtain ⟨halive, hroom⟩ := h.room ha hidle
  obtain ⟨R, hR, hh⟩ := h.get r hget (by simp [hin])
  have hmem : r ∈ s.gets := by
    obtain ⟨earlier, hgets⟩ := (readWire_of_reachable hs).arrived hget
    simp [hgets]
  have hsession : R.session = some a := by
    have hbroken : R.handler.broken = false := by
      rcases hh with hh | hh | ⟨hh | hh, _⟩ <;> simp [hh, Handler.broken]
    obtain ⟨b, hb⟩ := session_of_unbroken hs hR hbroken
    rw [hb, h.serves.gets r hmem R b hR hb]
  rcases hh with hh | hh | ⟨hh | hh, hst⟩
  · have hstep : Server.Step env.server s.server (.ask r)
        ((s.server.setActor a (A.enqueue (.read r))).setCall r
          { R with handler := .awaitRead }) := .askRead R a A hR hsession ha hh halive hroom
    have ha' : ((s.server.setActor a (A.enqueue (.read r))).setCall r
        { R with handler := .awaitRead }).actors a = some (A.enqueue (.read r)) := by simp
    have hload : (A.enqueue (.read r)).load = A.load + 1 := by
      simp only [Session.load, Session.enqueue, List.map_append, List.sum_append, List.map_cons,
        List.map_nil, List.sum_cons, List.sum_nil, Message.weight]
      omega
    refine .inl (h.get_call hs ha hin hget hR hstep trivial rfl rfl rfl ha' hlife rfl rfl
      ⟨_, Function.update_self .., .inr (.inl rfl)⟩ ?_)
    simp only [hh, Handler.readRank, hload]
    omega
  · have hqueued := Server.queued_of_reachable hreach r R a A hR hsession ha halive hh
    exact absurd (List.append_eq_nil_iff.mp hidle).2 (List.ne_nil_of_mem hqueued)
  · have hstep : Server.Step env.server s.server (.reply r) _ := .replyGranted R hR hh
    refine .inl (h.get_call hs ha hin hget hR hstep trivial rfl rfl rfl ha hlife rfl rfl
      ⟨_, Function.update_self .., .inr (.inr ⟨.inr rfl, hst⟩)⟩ ?_)
    simp [hh, Handler.readRank]
  · exact .inr ⟨R, hR, hh⟩

/-- A response that is being streamed, and the session that it comes from. -/
theorem Healthy.stream (h : Healthy env a s) (hs : (machine env).Reachable s)
    (ha : s.server.actors a = some A) (hbody : s.client.incoming.inBody = true)
    (hget : s.get = .arrived r) :
    ∃ R st, s.server.calls r = some R ∧ R.handler = .done (.ok Server.streamResponse) ∧
      s.server.streams r = some st ∧ st.session = a ∧ (st.ended = true ∨ st.dropped = false) ∧
      st.aborted = false := by
  have hreach := server_reachable hs
  obtain ⟨hlife, _⟩ := h.running ha
  obtain ⟨q, R, hq, hR, hresp⟩ := (phases_of_reachable hs).body hbody
  obtain rfl : r = q := by
    rw [hget] at hq
    injection hq
  obtain ⟨result, hdone⟩ := Server.done_of_response hresp
  obtain ⟨R', hR', hh⟩ := h.get r hget fun hin => by simp [hin, Incoming.inBody] at hbody
  obtain rfl : R = R' := Option.some.inj (hR.symm.trans hR')
  rcases hh with hh | hh | ⟨hh | hh, st, hst, hkept⟩
  · rw [hdone] at hh
    cases hh
  · rw [hdone] at hh
    cases hh
  · rw [hdone] at hh
    cases hh
  · obtain ⟨earlier, hgets⟩ := (readWire_of_reachable hs).arrived hget
    obtain ⟨R', B, hR', hsession, _⟩ := session_of_stream hs (by simp [hgets] : r ∈ s.gets) hst
    have hsame : st.session = a :=
      h.serves.gets r (by simp [hgets]) R' st.session hR' hsession
    refine ⟨R, st, hR, hh, hst, hsame, hkept, ?_⟩
    by_contra hab
    exact Server.not_closing_of_running hlife
      ((Server.download_of_reachable hreach).aborted hst (hsame ▸ ha) (eq_true_of_ne_false hab))

/-- The stream of the last `GET` goes on, and the requests are left alone. -/
theorem Healthy.stream_step {d : ServerEvent} {u : Server} {st st' : ReadStream}
    (h : Healthy env a s) (ha : s.server.actors a = some A) (hget : s.get = .arrived r)
    (hR : s.server.calls r = some R) (hh : R.handler = .done (.ok Server.streamResponse))
    (hst : s.server.streams r = some st) (hended : st.ended = false)
    (hstep : Server.Step env.server s.server d u) (hflow : Flow a (.server d))
    (hcalls : u.calls = s.server.calls) (hsessions : u.sessions = s.server.sessions)
    (hstreams : u.streams = update s.server.streams r (some st')) (hended' : st'.ended = false)
    (hkept : st'.dropped = false) (ha' : u.actors a = some A') (hlife : A'.life = .running)
    (hcap : A'.upstream.txCap = A.upstream.txCap)
    (hproduced : A'.upstream.produced = A.upstream.produced)
    (hless : 5 * (st'.frames.flatten.length - (s.seen r).length) + 7 * st'.inHand.length + A'.load <
      5 * (st.frames.flatten.length - (s.seen r).length) + 7 * st.inHand.length + A.load) :
    ∃ t, Advance env a s t := by
  have hst' : u.streams r = some st' := by rw [hstreams, Function.update_self]
  have hlast : ∀ q, s.get = .arrived q → r = q := by
    intro q hq
    rw [hget] at hq
    injection hq
  have hreq : ∀ r req fresh, d ≠ .request r req fresh := by
    rintro r req fresh rfl
    exact hflow
  have hhealthy : Healthy env a { s with server := u } := by
    refine h.server ha hstep hreq hsessions ha' hlife hcap (fun q hq _ => ?_) fun q Q hq hQ => ?_
    · obtain rfl := hlast q hq
      exact ⟨R, hcalls ▸ hR, .inr (.inr ⟨.inr hh, st', hst', .inr hkept⟩)⟩
    · exact h.put q Q hq (hcalls ▸ hQ)
  refine ⟨_, .of_server hstep hflow hhealthy ha ha' hproduced ?_⟩
  have hstage : ({ s with server := u } : Tunnel).stage ≤ s.stage := by
    refine stage_le fun q hq => ?_
    obtain rfl := hlast q hq
    constructor
    · simp [Server.endRank, hst, hst', hended, hended']
    · rw [Server.readRank, Server.readRank, hcalls]
  have hputs : ({ s with server := u } : Tunnel).putWork ≤ s.putWork :=
    putWork_le fun q _ => by rw [Server.writeWork, Server.writeWork, hcalls]
  have hbefore : s.bodyWork =
      5 * (st.frames.flatten.length - (s.seen r).length) + 7 * st.inHand.length := by
    simp [bodyWork, hget, Server.framesOf, Server.handOf, hst]
  have hafter : ({ s with server := u } : Tunnel).bodyWork =
      5 * (st'.frames.flatten.length - (s.seen r).length) + 7 * st'.inHand.length := by
    simp [bodyWork, hget, Server.framesOf, Server.handOf, hst']
  exact work_lt ha ha' (by omega)

/-- The stream goes on while the body has not ended. -/
theorem Healthy.advance_stream (h : Healthy env a s) (hs : (machine env).Reachable s)
    (ha : s.server.actors a = some A) (hidle : A.asked = [])
    (hbody : s.client.incoming.inBody = true) (hget : s.get = .arrived r)
    (hopen : s.bodyEnded r = false) (hleft : s.server.handOf r ≠ [] ∨ A.upstream.rx ≠ []) :
    ∃ t, Advance env a s t := by
  have hreach := server_reachable hs
  obtain ⟨hlife, _⟩ := h.running ha
  obtain ⟨halive, hroom⟩ := h.room ha hidle
  obtain ⟨R, st, hR, hh, hst, rfl, hkept, hheld⟩ := h.stream hs ha hbody hget
  have hended : st.ended = false := by simpa [bodyEnded, hst] using hopen
  have hkept : st.dropped = false := hkept.resolve_left (by simp [hended])
  have hactive : st.active = true := by simp [ReadStream.active, hended, hkept, hheld]
  have hresp : R.response = some Server.streamResponse := by simp [Call.response, hh]
  cases hturn : st.turn with
  | telling bytes =>
      have hne : 0 < bytes.length :=
        List.length_pos_iff.mpr ((Server.filled_of_reachable hreach hst).hand bytes hturn)
      have hshort : (s.seen r).length ≤ st.frames.flatten.length := by
        have hseen := (readWire_of_reachable hs).seen r
        rw [Server.framesOf, hst, Option.elim_some] at hseen
        exact hseen.length_le
      have hload : (A.enqueue .resetIdleTimeout).load = A.load + 1 := by
        simp only [Session.load, Session.enqueue, List.map_append, List.sum_append,
          List.map_cons, List.map_nil, List.sum_cons, List.sum_nil, Message.weight]
        omega
      have ha' : ((s.server.setStream r
          { st with turn := .idle, frames := st.frames ++ [bytes] }).setActor st.session
            (A.enqueue .resetIdleTimeout)).actors st.session =
              some (A.enqueue .resetIdleTimeout) := by simp
      refine h.stream_step ha hget hR hh hst hended
        (.tellSent st A bytes hst ha hturn hactive halive hroom) trivial rfl rfl rfl hended hkept
        ha' hlife rfl rfl ?_
      simp only [List.flatten_append, List.flatten_cons, List.flatten_nil, List.append_nil,
        List.length_append, ReadStream.inHand, hturn, hload, List.length_nil]
      omega
  | _ =>
      have hhand : st.inHand = [] := by simp [ReadStream.inHand, hturn]
      have hrx : 0 < A.upstream.rx.length := by
        refine List.length_pos_iff.mpr (hleft.resolve_left fun hne => hne ?_)
        simp [Server.handOf, hst, hhand]
      have htake : (A.upstream.rx.take (min 2048 A.upstream.rx.length)).length =
          min 2048 A.upstream.rx.length := by simp
      have hstep : Server.Step env.server s.server
          (.poll r (.data (min 2048 A.upstream.rx.length))) _ :=
        .pollData st R A hst hR ha hactive hresp (by simp [hturn, Turn.betweenReads]) (by omega)
          (by omega) (by omega)
      refine h.stream_step ha hget hR hh hst hended hstep trivial rfl rfl rfl hended hkept
        (Function.update_self ..) hlife rfl rfl ?_
      rw [hhand]
      simp only [ReadStream.inHand, htake, Session.load, Upstream.read, List.length_drop,
        List.length_nil]
      omega

end Fronting.Tunnel
