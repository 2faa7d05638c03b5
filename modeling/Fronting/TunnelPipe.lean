import Fronting.Pipe
import Fronting.TunnelWrites

/-!
# The tunnel as two pipes

To its owner and to upstream the tunnel is a pipe in each direction. What is seen of a run
are the polls that return with bytes, and what one session writes to its upstream host and
is sent by it.
-/

namespace Fronting

open Function (update)

/-- What is seen of the pipe from the owner to upstream, or of the one back. -/
abbrev Seen := PipeEvent UInt8 ⊕ PipeEvent UInt8

/-- The bytes that a poll has taken over or handed out. -/
def PollResult.seen (op : Op) : PollResult → Option Seen
  | .written _ => op.buffer.map fun buf => .inl (.push buf)
  | .filled bytes => some (.inr (.pull bytes))
  | _ => none

/-- The buffers that the polls in a log have taken over, one after the other. -/
def sentIn (log : List (Op × PollResult)) : Bytes := (acceptedIn log).flatten

theorem sentIn_append (log log' : List (Op × PollResult)) :
    sentIn (log ++ log') = sentIn log ++ sentIn log' := by
  rw [sentIn, acceptedIn_append, List.flatten_append, sentIn, sentIn]

namespace Server

variable {env : ServerEnv} {s t : Server} {d : ServerEvent} {a : ActorRef} {A A' : Session}

def writtenTo (s : Server) (a : ActorRef) : Bytes :=
  (s.actors a).elim [] fun A => A.upstream.written

def producedBy (s : Server) (a : ActorRef) : Bytes :=
  (s.actors a).elim [] fun A => A.upstream.produced

/-- What the upstream host of a session sees of a step. -/
def seen (s : Server) (a : ActorRef) : ServerEvent → Option Seen
  | .actor b (.write n) =>
    if b = a then (s.actors a).bind fun A => A.handling.map fun w =>
      .inl (.pull ((w.bytes.drop w.offset).take n))
    else none
  | .actor b (.upstreamSend bytes) => if b = a then some (.inr (.push bytes)) else none
  | _ => none

theorem writtenTo_eq (ha : s.actors a = some A) : s.writtenTo a = A.upstream.written := by
  rw [writtenTo, ha, Option.elim_some]

theorem producedBy_eq (ha : s.actors a = some A) : s.producedBy a = A.upstream.produced := by
  rw [producedBy, ha, Option.elim_some]

/-- A step that the upstream host of `a` does not see. -/
def Silent (s t : Server) (a : ActorRef) : Prop :=
  t.writtenTo a = s.writtenTo a ∧ t.producedBy a = s.producedBy a

theorem Silent.of_actors (h : t.actors = s.actors) : Silent s t a := by
  constructor
  · rw [writtenTo, h, writtenTo]
  · rw [producedBy, h, producedBy]

theorem Silent.of_update {b : ActorRef} (h : t.actors = update s.actors b (some A'))
    (hb : s.actors b = some A) (hwritten : A'.upstream.written = A.upstream.written)
    (hproduced : A'.upstream.produced = A.upstream.produced) : Silent s t a := by
  by_cases hba : a = b
  · subst hba
    simp [Silent, writtenTo, producedBy, h, hb, hwritten, hproduced]
  · simp [Silent, writtenTo, producedBy, h, hba]

theorem Step.silent (h : Step env s d t) (hd : ∀ b e, d ≠ .actor b e) : Silent s t a := by
  cases h with
  | actor A A' ha hA => exact absurd rfl (hd _ _)
  | @create r req fresh x hr hfresh | @replace r req fresh x d hr hfresh =>
      by_cases hb : a = fresh
      · subst hb
        simp [Silent, writtenTo, producedBy, hfresh, Session.spawn, Upstream.connect]
      · simp [Silent, writtenTo, producedBy, hb]
  | askWrite R a A total data hr hR ha | askRead R a A hr hR ha => exact .of_update rfl ha rfl rfl
  | handleGranted A rest r ha =>
      refine .of_update (replyTo_actors _ _ _) ha ?_ ?_ <;> rfl
  | handleRefused A rest r q ha =>
      refine .of_update (replyTo_actors _ _ _) ha ?_ ?_ <;> rfl
  | handleWrite A rest r bytes ha | handleReset A rest ha => exact .of_update rfl ha rfl rfl
  | writeOk A w ha =>
      refine .of_update (replyTo_actors _ _ _) ha ?_ ?_ <;> rfl
  | writeErr A w ha =>
      refine .of_update (replyTo_actors _ _ _) ha ?_ ?_ <;> rfl
  | dropAborts A ha =>
      refine .of_update (dropAbortsStep_actors _ _ _) ha ?_ ?_ <;> rfl
  | dropRemove A ha => exact .of_update rfl ha rfl rfl
  | pollEnd st R A hst hr ha | pollData st R A hst hr ha => exact .of_update rfl ha rfl rfl
  | tellSent st A bytes hst ha | dropStream st A hst ha => exact .of_update rfl ha rfl rfl
  | _ => exact .of_actors rfl

/-- What one step moves between a session and its upstream host. -/
inductive Seeing (s t : Server) (a : ActorRef) : Option Seen → Prop
  | silent (h : Silent s t a) : Seeing s t a none
  | wrote (bytes : Bytes) (hwritten : t.writtenTo a = s.writtenTo a ++ bytes)
      (hproduced : t.producedBy a = s.producedBy a) : Seeing s t a (some (.inl (.pull bytes)))
  | produced (bytes : Bytes) (hwritten : t.writtenTo a = s.writtenTo a)
      (hproduced : t.producedBy a = s.producedBy a ++ bytes) :
      Seeing s t a (some (.inr (.push bytes)))

theorem Seeing.of_own {e : ActorEvent} (hs : (machine env).Reachable s)
    (ha : s.actors a = some A) (hA : A.step env s.now e = some A') :
    Seeing s (s.setActor a A') a (s.seen a (.actor a e)) := by
  cases Session.Own.of_step hA with
  | write n w hw =>
      have hseen : s.seen a (.actor a (.write n)) =
          some (.inl (.pull ((w.bytes.drop w.offset).take n))) := by simp [seen, ha, hw]
      rw [hseen]
      refine .wrote _ ?_ ?_ <;> simp [writtenTo, producedBy, ha, Upstream.write]
  | upstreamSend bytes =>
      have hseen : s.seen a (.actor a (.upstreamSend bytes)) = some (.inr (.push bytes)) := by
        simp [seen]
      rw [hseen]
      refine .produced _ ?_ ?_ <;> simp [writtenTo, producedBy, ha, Upstream.send]
  | connect txCap rxCap hlife | connectKilled txCap rxCap hlife =>
      -- nothing has been moved before the session connects
      have hupload := Session.Upload.of_reachable hs ha
      have hreading := Session.Reading.of_reachable hs ha
      obtain ⟨hfinished, hidle⟩ := hupload.fresh (.inr hlife)
      obtain ⟨hopened, hrx⟩ := hreading.fresh (.inr hlife)
      have hwritten : A.upstream.written = [] := by
        rw [hupload.written, Session.sentBytes, hfinished, hidle]
        rfl
      have hproduced : A.upstream.produced = [] := by
        rw [hreading.produced, hrx, (download_of_reachable hs).consumed ha, hopened]
        rfl
      refine .silent (.of_update rfl ha ?_ ?_)
      · exact hwritten.symm
      · exact hproduced.symm
  | _ => exact .silent (.of_update rfl ha rfl rfl)

theorem Seeing.of_step (hs : (machine env).Reachable s) (h : Step env s d t) (a : ActorRef) :
    Seeing s t a (s.seen a d) := by
  by_cases hd : ∃ b e, d = .actor b e
  · obtain ⟨b, e, rfl⟩ := hd
    cases h with
    | actor A A' ha hA =>
        by_cases hba : b = a
        · subst hba
          exact .of_own hs ha hA
        · have hnone : s.seen a (.actor b e) = none := by cases e <;> simp [seen, hba]
          rw [hnone]
          have hne : a ≠ b := fun h => hba h.symm
          refine .silent ⟨?_, ?_⟩ <;> simp [writtenTo, producedBy, hne]
  · have hnone : s.seen a d = none := by
      unfold seen
      split
      · exact absurd ⟨_, _, rfl⟩ hd
      · exact absurd ⟨_, _, rfl⟩ hd
      · rfl
    rw [hnone]
    exact .silent (h.silent fun b e heq => hd ⟨b, e, heq⟩)

end Server

namespace Tunnel

variable {env : TunnelEnv} {s t : Tunnel} {a : ActorRef} {A : Session}
  {p : Pipe UInt8 × Pipe UInt8}

/-- What the owner and the upstream host of `a` see of a step. -/
def visible (a : ActorRef) (s : Tunnel) (e : TunnelEvent) (_ : Tunnel) : Option Seen :=
  match e with
  | .client .resume => s.client.call.bind fun op => (s.client.pollInner op).2.seen op
  | .server d => s.server.seen a d
  | _ => none

/-- The session of `a` is the client's, and the only one that the client's requests have been
handed over to. -/
structure Serves (env : TunnelEnv) (s : Tunnel) (a : ActorRef) : Prop where
  mine : ∀ A, s.server.actors a = some A → A.sessionId = env.client.sessionId
  gets : ServedBy s s.gets a
  puts : ServedBy s s.puts a

theorem ServedBy.back {d : ServerEvent} {rs rs' : List ReqId} (h : ServedBy t rs' a)
    (hstep : Server.Step env.server s.server d t.server) (hsub : rs ⊆ rs') : ServedBy s rs a := by
  intro r hr R b hR hb
  obtain ⟨R', hR', hgrows⟩ := hstep.call_grows hR
  exact h r (hsub hr) R' b hR' (hgrows.session.trans hb)

theorem Serves.back_server {d : ServerEvent} (h : Serves env t a)
    (hstep : Server.step env.server s.server d = some t.server) (hgets : s.gets ⊆ t.gets)
    (hputs : s.puts ⊆ t.puts) : Serves env s a := by
  constructor
  · intro A ha
    obtain ⟨A', ha', hmove⟩ := Server.actor_of_step ha hstep
    exact hmove.sessionId.symm.trans (h.mine A' ha')
  · exact h.gets.back (.of_step hstep) hgets
  · exact h.puts.back (.of_step hstep) hputs

theorem Serves.back {e : TunnelEvent} (h : Serves env t a) (hstep : s.step env e = some t) :
    Serves env s a := by
  cases Step.of_step hstep with
  | server d u _ hd | putBody r e u _ _ hd => exact h.back_server hd (fun _ => id) fun _ => id
  | getArrives r fresh req body u _ hd =>
      exact h.back_server hd (List.subset_append_left _ _) fun _ => id
  | putArrives r fresh req body u _ hd =>
      exact h.back_server hd (fun _ => id) (List.subset_append_left _ _)
  | client e c =>
      obtain ⟨hserver, _, hgets, hputs, _⟩ := afterClient_server env s c e
      constructor
      · rw [← hserver]
        exact h.mine
      · unfold ServedBy
        rw [← hserver, ← hgets]
        exact h.gets
      · unfold ServedBy
        rw [← hserver, ← hputs]
        exact h.puts

/-- What the session has written has come from the owner. -/
theorem Serves.written (h : Serves env s a) (hs : (machine env).Reachable s) :
    s.server.writtenTo a <+: sentIn s.client.log := by
  cases ha : s.server.actors a with
  | none =>
      rw [Server.writtenTo, ha]
      exact List.nil_prefix
  | some A =>
      have hupload := Session.Upload.of_reachable (server_reachable hs) ha
      have houtbox := Client.outbox_of_reachable (client_reachable hs)
      rw [Server.writtenTo_eq ha, sentIn, ← houtbox.log, houtbox.accepted, List.flatten_append]
      exact (hupload.written_isPrefix.trans
        (accepted_prefix_taken hs ha (h.mine A ha) h.puts)).trans (List.prefix_append _ _)

/-- No response has a body as long as there is no session. -/
theorem received_of_no_actor (hs : (machine env).Reachable s) (hserved : ServedBy s s.gets a)
    (ha : s.server.actors a = none) : s.client.received = [] := by
  rw [(readWire_of_reachable hs).received, List.flatMap_eq_nil_iff]
  intro r hr
  cases hst : s.server.streams r with
  | none => exact seen_of_no_stream hs hst
  | some st =>
      obtain ⟨R, A, hR, hsession, hA, _⟩ := session_of_stream hs hr hst
      rw [hserved r hr R st.session hR hsession, ha] at hA
      cases hA

/-- What the owner has read has been sent by upstream. -/
theorem Serves.read (h : Serves env s a) (hs : (machine env).Reachable s) :
    readIn s.client.log <+: s.server.producedBy a := by
  have hinbox := Client.inbox_of_reachable (client_reachable hs)
  rw [← hinbox.log]
  cases ha : s.server.actors a with
  | none =>
      have hdelivered := hinbox.delivered
      rw [received_of_no_actor hs h.gets ha] at hdelivered
      exact hdelivered.trans List.nil_prefix
  | some A =>
      rw [Server.producedBy_eq ha,
        (Session.Reading.of_reachable (server_reachable hs) ha).produced]
      exact (hinbox.delivered.trans (received_of_served hs ha h.gets)).trans
        (List.prefix_append _ _)

/-- Two pipes, from the owner to upstream and back, at the same point as the tunnel. -/
structure Ends (a : ActorRef) (s : Tunnel) (p : Pipe UInt8 × Pipe UInt8) : Prop where
  sent : p.1.pushed = sentIn s.client.log
  written : p.1.pulled = s.server.writtenTo a
  produced : p.2.pushed = s.server.producedBy a
  read : p.2.pulled = readIn s.client.log

abbrev pipes : Machine (Pipe UInt8 × Pipe UInt8) Seen :=
  (Pipe.machine UInt8).prod (Pipe.machine UInt8)

/-- The server has taken a step. -/
theorem Ends.server {d : ServerEvent} (h : Ends a s p) (ht : (machine env).Reachable t)
    (hs : (Server.machine env.server).Reachable s.server) (hserves : Serves env t a)
    (hstep : Server.Step env.server s.server d t.server) (hclient : t.client = s.client) :
    ∃ q, pipes.exec p (s.server.seen a d).toList = some q ∧ Ends a t q := by
  obtain ⟨up, down⟩ := p
  have hwritten := hserves.written ht
  have hseeing := Server.Seeing.of_step hs hstep a
  generalize s.server.seen a d = seen at hseeing ⊢
  cases hseeing with
  | silent hsilent =>
      refine ⟨(up, down), rfl, ?_, ?_, ?_, ?_⟩
      · rw [hclient, h.sent]
      · rw [h.written, hsilent.1]
      · rw [h.produced, hsilent.2]
      · rw [hclient, h.read]
  | wrote bytes hw hp =>
      have hordered : up.pulled ++ bytes <+: up.pushed := by
        rw [h.written, h.sent, ← hw, ← hclient]
        exact hwritten
      refine ⟨(up.pull bytes hordered, down), Machine.prod_left (Pipe.step_pull hordered),
        ?_, ?_, ?_, ?_⟩
      · rw [hclient, ← h.sent]
        rfl
      · rw [hw, ← h.written]
        rfl
      · rw [hp, ← h.produced]
      · rw [hclient, ← h.read]
  | produced bytes hw hp =>
      refine ⟨(up, down.push bytes), Machine.prod_right rfl, ?_, ?_, ?_, ?_⟩
      · rw [hclient, ← h.sent]
      · rw [hw, ← h.written]
      · rw [hp, ← h.produced]
        rfl
      · rw [hclient, ← h.read]
        rfl

/-- A poll has returned. -/
theorem Ends.polled {op : Op} {res : PollResult} (h : Ends a s p)
    (ht : (machine env).Reachable t) (hserves : Serves env t a) (hserver : t.server = s.server)
    (hlog : t.client.log = s.client.log ++ [(op, res)]) :
    ∃ q, pipes.exec p (res.seen op).toList = some q ∧ Ends a t q := by
  obtain ⟨up, down⟩ := p
  have hread := hserves.read ht
  have hsent : up.pushed ++ sentIn [(op, res)] = sentIn t.client.log := by
    rw [hlog, sentIn_append, h.sent]
  have hreadIn : down.pulled ++ readIn [(op, res)] = readIn t.client.log := by
    rw [hlog, readIn_append, h.read]
  have hwritten : up.pulled = t.server.writtenTo a := by rw [hserver, ← h.written]
  have hproduced : down.pushed = t.server.producedBy a := by rw [hserver, ← h.produced]
  have hsilent : sentIn [(op, res)] = [] → readIn [(op, res)] = [] → Ends a t (up, down) := by
    intro hs hr
    rw [hs, List.append_nil] at hsent
    rw [hr, List.append_nil] at hreadIn
    exact ⟨hsent, hwritten, hproduced, hreadIn⟩
  cases res with
  | written n =>
      cases hbuf : op.buffer with
      | none =>
          refine ⟨(up, down), by simp [PollResult.seen, hbuf], hsilent ?_ rfl⟩
          simp [sentIn, hbuf]
      | some buf =>
          have hone : sentIn [(op, .written n)] = buf := by simp [sentIn, hbuf]
          have hnone : readIn [(op, .written n)] = [] := rfl
          rw [hone] at hsent
          rw [hnone, List.append_nil] at hreadIn
          simp only [PollResult.seen, hbuf, Option.map_some, Option.toList_some]
          exact ⟨(up.push buf, down), Machine.prod_left rfl, hsent, hwritten, hproduced, hreadIn⟩
  | filled bytes =>
      have hone : readIn [(op, .filled bytes)] = bytes := by simp [readIn]
      have hnone : sentIn [(op, .filled bytes)] = [] := rfl
      rw [hone] at hreadIn
      rw [hnone, List.append_nil] at hsent
      have hordered : down.pulled ++ bytes <+: down.pushed := by
        rw [hreadIn, hproduced]
        exact hread
      exact ⟨(up, down.pull bytes hordered), Machine.prod_right (Pipe.step_pull hordered),
        hsent, hwritten, hproduced, hreadIn⟩
  | _ => exact ⟨(up, down), rfl, hsilent rfl rfl⟩

theorem Ends.step {e : TunnelEvent} (hs : (machine env).Reachable s) (hserves : Serves env t a)
    (h : Ends a s p) (hstep : s.step env e = some t) :
    ∃ q, pipes.exec p (visible a s e t).toList = some q ∧ Ends a t q := by
  have ht : (machine env).Reachable t := hs.step hstep
  have hreach := server_reachable hs
  cases Step.of_step hstep with
  | server d u _ hd => exact h.server ht hreach hserves (.of_step hd) rfl
  | getArrives r fresh req body u _ hd => exact h.server ht hreach hserves (.of_step hd) rfl
  | putArrives r fresh req body u _ hd => exact h.server ht hreach hserves (.of_step hd) rfl
  | putBody r e u _ _ hd => exact h.server ht hreach hserves (.of_step hd) rfl
  | client e c _ hc =>
      obtain ⟨hserver, hclient, _⟩ := afterClient_server env s c e
      have hquiet : c.log = s.client.log → Ends a (s.afterClient env c e) p := by
        intro hlog
        obtain ⟨hsent, hwritten, hproduced, hread⟩ := h
        refine ⟨?_, ?_, ?_, ?_⟩
        · rw [hclient, hlog, hsent]
        · rw [hserver, hwritten]
        · rw [hserver, hproduced]
        · rw [hclient, hlog, hread]
      cases Client.Step.of_step hc with
      | resume op hcall =>
          obtain ⟨_, _, _, _, _, _, hlog, _⟩ := Client.pollInner_pumps s.client op
          have hseen : visible a s (.client .resume)
              (s.afterClient env (s.client.resume op) .resume) =
                (s.client.pollInner op).2.seen op := by simp [visible, hcall]
          rw [hseen]
          refine h.polled ht hserves rfl ?_
          rw [hclient, ← hlog]
          rfl
      | pollTaken op | pollOk op | pollError op _ =>
          have hpolled : ∀ res, (s.afterClient env _ (.poll op)).client.log =
              s.client.log ++ [(op, res)] → _ := fun res => h.polled ht hserves hserver
          obtain ⟨q, hq, hends⟩ := hpolled _ (by rw [hclient]; rfl)
          exact ⟨q, hq, hends⟩
      | io e c _ hio => exact ⟨p, rfl, hquiet hio.calls.2.2.1⟩
      | _ => exact ⟨p, rfl, hquiet rfl⟩

/-- What the owner and upstream see of a run, whose requests have all been handed over to one
session, is a run of two pipes: each direction gives out what it has taken in, in order and
each byte once, and never before. -/
theorem run_pipes {es : List TunnelEvent} (h : (machine env).Run (fun _ _ => True) es s)
    (hserves : Serves env s a) :
    ∃ up down, pipes.exec pipes.init ((machine env).trace (visible a) Tunnel.init es) =
        some (up, down) ∧
      up.pushed = sentIn s.client.log ∧ up.pulled = s.server.writtenTo a ∧
      down.pushed = s.server.producedBy a ∧ down.pulled = readIn s.client.log := by
  have hinit : Ends a Tunnel.init pipes.init := ⟨rfl, rfl, rfl, rfl⟩
  have htrace : ∃ p, pipes.exec pipes.init ((machine env).trace (visible a) Tunnel.init es) =
      some p ∧ Ends a s p :=
    h.trace (Q := fun s => Serves env s a) hinit (fun s e t _ hstep hQ => hQ.back hstep)
      (fun s e t p hs hQ hR _ hstep => hR.step hs hQ hstep) hserves
  obtain ⟨⟨up, down⟩, hexec, hends⟩ := htrace
  exact ⟨up, down, hexec, hends.sent, hends.written, hends.produced, hends.read⟩

/-- Upstream answers the first byte of a write of two before it has had the second. -/
def answerByte : List TunnelEvent :=
  writeByte ++ [.server (.actor 0 (.upstreamSend [7])), .client (.io (.sendRead 0)),
    .getArrives 1 1, .server (.ask 1), .server (.actor 0 (.write 1)), .server (.writeOk 0),
    .server (.handle 0), .server (.reply 1), .server (.poll 1 (.data 1)), .server (.tell 1),
    .client (.io (.readResponse .ok)), .client (.io (.frame (.data [7]))), .client (.io .push),
    .client (.poll (.read 4)), .client .resume]

theorem answerByte_pipes :
    ∃ s up down, (machine sampleEnv).Run (fun _ _ => True) answerByte s ∧
      pipes.exec pipes.init ((machine sampleEnv).trace (visible 0) Tunnel.init answerByte) =
        some (up, down) ∧
      sentIn s.client.log = [1, 2] ∧ s.server.writtenTo 0 = [1, 2] ∧
      readIn s.client.log = [7] ∧ up.pulled = [1, 2] ∧ down.pulled = [7] := by
  obtain ⟨s, hrun, hactor, hgets, hputs, hput, hget, hsent, hread, hwritten⟩ :=
    Machine.exists_run (M := machine sampleEnv)
      (P := fun s => (s.server.actors 0).map Session.sessionId = some 0 ∧ s.gets = [1] ∧
        s.puts = [0] ∧ (s.server.calls 0).map Call.session = some (some 0) ∧
        (s.server.calls 1).map Call.session = some (some 0) ∧ sentIn s.client.log = [1, 2] ∧
        readIn s.client.log = [7] ∧ s.server.writtenTo 0 = [1, 2]) answerByte (by decide)
  have hserves : Serves sampleEnv s 0 := by
    refine ⟨fun A ha => ?_, hgets ▸ servedBy_singleton hget, hputs ▸ servedBy_singleton hput⟩
    rw [ha, Option.map_some] at hactor
    exact Option.some.inj hactor
  obtain ⟨up, down, hexec, _, hup, _, hdown⟩ := run_pipes hrun hserves
  exact ⟨s, up, down, hrun, hexec, hsent, hwritten, hread, hup.trans hwritten, hdown.trans hread⟩

end Tunnel
end Fronting
