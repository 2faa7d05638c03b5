import Fronting.Fetch
import Fronting.Stdio
import Fronting.TunnelPipe
import Fronting.TunnelUpstream
import Mathlib.Algebra.Order.BigOperators.Group.List
import Mathlib.Algebra.Order.Group.Nat

/-!
# From end to end

The two client binaries over the whole tunnel. What they get is what upstream has sent, and
what upstream gets is what they were given, whatever else goes on at the server.
-/

namespace Fronting.Tunnel

variable {σ ι : Type*} {P : Owner σ ι} {env : TunnelEnv} {a : ActorRef}

def clientEvent : TunnelEvent → Option ClientEvent
  | .client e => some e
  | _ => none

/-- The tunnel under a program that owns its connection. -/
def owned (P : Owner σ ι) (env : TunnelEnv) : Machine (Tunnel × σ) (TunnelEvent ⊕ ι) :=
  P.machine (machine env) Tunnel.client clientEvent

/-- The program does not see what is behind its connection. -/
theorem alone_of_owned {s : Tunnel × σ} (hs : (owned P env).Reachable s) :
    (P.alone env.client).Reachable (s.1.client, s.2) := by
  refine Owner.reachable_alone rfl (fun s e t hstep => ?_) hs
  cases Step.of_step hstep with
  | client e c _ hc =>
      refine .inl ⟨e, rfl, ?_⟩
      rw [(afterClient_server env s c e).2.1]
      exact hc
  | _ => exact .inr rfl

/-- The answer that the fetch binary prints is the beginning of what upstream has sent, and
upstream has been sent the request or a beginning of it. -/
theorem fetch_end_to_end {request : Bytes} {s : Tunnel × FetchStage}
    (hs : (owned (Fetch.main request) env).Reachable s) (hserves : Serves env s.1 a)
    {response : Bytes} (hresult : s.2 = .finished (.ok response)) :
    s.1.server.writtenTo a <+: request ∧ response <+: s.1.server.producedBy a := by
  have htunnel : (machine env).Reachable s.1 := Owner.reachable_fst hs
  have hstands := Fetch.stands_of_reachable (alone_of_owned hs)
  rw [hresult] at hstands
  obtain ⟨haccepted, hread, _⟩ := hstands
  constructor
  · rw [← haccepted]
    exact hserves.written htunnel
  · rw [hread]
    exact hserves.read htunnel

/-- A request of two bytes and its answer, before the connection is lost. -/
def answeredThenLost : List TunnelEvent :=
  answerByte ++ [.client (.io .flushed), .client (.poll (.read 4)),
    .client (.io (.connError "connection lost")), .client .tearDown, .client .resume]

def fetchByte : List (TunnelEvent ⊕ Empty) := answeredThenLost.map .inl

theorem serves_answerByte {s : Tunnel}
    (hactor : (s.server.actors 0).map Session.sessionId = some sampleEnv.client.sessionId)
    (hgets : s.gets = [1]) (hputs : s.puts = [0])
    (hput : (s.server.calls 0).map Call.session = some (some 0))
    (hget : (s.server.calls 1).map Call.session = some (some 0)) : Serves sampleEnv s 0 := by
  refine ⟨fun A ha => ?_, hgets ▸ servedBy_singleton hget, hputs ▸ servedBy_singleton hput⟩
  rw [ha, Option.map_some] at hactor
  exact Option.some.inj hactor

theorem fetchByte_end_to_end :
    ∃ s, (owned (Fetch.main [1, 2]) sampleEnv).Run (fun _ _ => True) fetchByte s ∧
      s.2 = .finished (.ok [7]) ∧ s.1.server.writtenTo 0 <+: [1, 2] ∧
      [7] <+: s.1.server.producedBy 0 := by
  obtain ⟨s, hrun, hresult, hactor, hgets, hputs, hput, hget⟩ :=
    Machine.exists_run (M := owned (Fetch.main [1, 2]) sampleEnv)
      (P := fun s => s.2 = .finished (.ok [7]) ∧
        (s.1.server.actors 0).map Session.sessionId = some 0 ∧ s.1.gets = [1] ∧
        s.1.puts = [0] ∧ (s.1.server.calls 0).map Call.session = some (some 0) ∧
        (s.1.server.calls 1).map Call.session = some (some 0)) fetchByte (by decide)
  have hserves := serves_answerByte hactor hgets hputs hput hget
  exact ⟨s, hrun, hresult, fetch_end_to_end ⟨_, hrun⟩ hserves hresult⟩

theorem Serves.written_stdin {s : Tunnel × Stdio} (h : Serves env s.1 a)
    (hs : (owned Stdio.main env).Reachable s) : s.1.server.writtenTo a <+: s.2.stdin := by
  have hcopies := Stdio.copies_of_reachable (alone_of_owned hs)
  rw [hcopies.uploaded]
  exact (h.written (Owner.reachable_fst hs)).trans (List.prefix_append _ _)

/-- Upstream gets what the stdio binary has read from standard input, and standard output what
upstream has sent, in order and each byte once. -/
theorem stdio_end_to_end {s : Tunnel × Stdio} (hs : (owned Stdio.main env).Reachable s)
    (hserves : Serves env s.1 a) :
    s.1.server.writtenTo a <+: s.2.stdin ∧ s.2.stdout <+: s.1.server.producedBy a := by
  refine ⟨hserves.written_stdin hs, ?_⟩
  have hcopies := Stdio.copies_of_reachable (alone_of_owned hs)
  have hread := hserves.read (Owner.reachable_fst hs)
  rw [hcopies.downloaded] at hread
  exact (List.prefix_append _ _).trans hread

/-- The two bytes come from standard input, and the answer goes to standard output. -/
def copyByte : List (TunnelEvent ⊕ StdioEvent) :=
  .inr (.stdinRead [1, 2]) :: answerByte.map .inl ++ [.inr (.stdoutWrite 1)]

theorem copyByte_end_to_end :
    ∃ s, (owned Stdio.main sampleEnv).Run (fun _ _ => True) copyByte s ∧
      s.2.stdin = [1, 2] ∧ s.2.stdout = [7] ∧ s.1.server.writtenTo 0 <+: s.2.stdin ∧
      s.2.stdout <+: s.1.server.producedBy 0 := by
  obtain ⟨s, hrun, hstdin, hstdout, hactor, hgets, hputs, hput, hget⟩ :=
    Machine.exists_run (M := owned Stdio.main sampleEnv)
      (P := fun s => s.2.stdin = [1, 2] ∧ s.2.stdout = [7] ∧
        (s.1.server.actors 0).map Session.sessionId = some 0 ∧ s.1.gets = [1] ∧
        s.1.puts = [0] ∧ (s.1.server.calls 0).map Call.session = some (some 0) ∧
        (s.1.server.calls 1).map Call.session = some (some 0)) copyByte (by decide)
  have hserves := serves_answerByte hactor hgets hputs hput hget
  exact ⟨s, hrun, hstdin, hstdout, stdio_end_to_end ⟨_, hrun⟩ hserves⟩

/-- What is acknowledged has been written, if no write has failed. -/
theorem Serves.acked_written {s : Tunnel} (h : Serves env s a) (hs : (machine env).Reachable s)
    (hok : ∀ A, s.server.actors a = some A → ∀ f ∈ A.finished, f.ok = true) :
    s.client.acked.flatten <+: s.server.writtenTo a := by
  have hreach := server_reachable hs
  obtain ⟨hacked, hanswered, _⟩ := ackedPuts_spec hs
  have hsame : ∀ r ∈ s.ackedPuts, ∃ A, s.server.actors a = some A ∧
      (A.acceptedOf r).flatten = s.sent r := by
    intro r hr
    obtain ⟨R, b, B, hR, hb, hB, hall⟩ := (hanswered r hr).accepted hreach
    obtain rfl : b = a := h.puts r (List.mem_of_mem_take hr) R b hR hb
    exact ⟨B, hB, hall⟩
  cases ha : s.server.actors a with
  | none =>
      have hnil : s.ackedPuts = [] := by
        refine List.eq_nil_iff_forall_not_mem.mpr fun r hr => ?_
        obtain ⟨A, hA, _⟩ := hsame r hr
        cases ha.symm.trans hA
      rw [hacked, hnil]
      exact List.nil_prefix
  | some A =>
      have hupload := Session.Upload.of_reachable hreach ha
      have hfinished : (A.returned.map Prod.snd).flatten <+: A.upstream.written := by
        have hwhole : A.returned.map Prod.snd = A.finished.map fun f => f.bytes.take f.sent := by
          rw [Session.returned, List.map_map]
          refine List.map_congr_left fun f hf => ?_
          rw [(hupload.sent f hf).mp (hok A ha f hf), List.take_length]
          rfl
        rw [hwhole, hupload.written, Session.sentBytes]
        exact List.prefix_append _ _
      have hbytes : s.client.acked.flatten =
          s.ackedPuts.flatMap fun r => (A.acceptedOf r).flatten := by
        rw [hacked, ← List.flatMap_def]
        refine List.flatMap_congr fun r hr => ?_
        obtain ⟨B, hB, hall⟩ := hsame r hr
        obtain rfl : A = B := Option.some.inj (ha.symm.trans hB)
        exact hall.symm
      rw [Server.writtenTo_eq ha, hbytes, ← flatten_tagged]
      exact (((acked_prefix_returned hs ha (h.mine A ha)).map _).flatten).trans hfinished

/-- As long as no write fails, the stdio binary is at most three buffers ahead of upstream, and
once its request channel has been shut down and emptied upstream has had all of its input. -/
theorem stdio_upload {s : Tunnel × Stdio} (hs : (owned Stdio.main env).Reachable s)
    (hserves : Serves env s.1 a)
    (hok : ∀ A, s.1.server.actors a = some A → ∀ f ∈ A.finished, f.ok = true) :
    s.2.stdin.length ≤ (s.1.server.writtenTo a).length + 3 * copyBufSize ∧
      (s.2.upload = .done → s.1.client.outgoing = .done → s.1.client.task.failed = false →
        s.1.server.writtenTo a = s.2.stdin) := by
  have htunnel : (machine env).Reachable s.1 := Owner.reachable_fst hs
  have hclient := client_reachable htunnel
  have hcopies : Stdio.Copies s.1.client s.2 := Stdio.copies_of_reachable (alone_of_owned hs)
  have hwritten := hserves.acked_written htunnel hok
  obtain ⟨rest, hahead, hrest⟩ := Owner.accepted_ahead hclient
  constructor
  · have hchunks : rest.flatten.length ≤ 2 * copyBufSize := by
      have hle : (rest.map List.length).sum ≤ (rest.map List.length).length • copyBufSize := by
        refine List.sum_le_card_nsmul _ _ fun n hn => ?_
        obtain ⟨chunk, hchunk, rfl⟩ := List.mem_map.mp hn
        exact hcopies.chunk_le chunk (hahead ▸ List.mem_append_right _ hchunk)
      rw [← List.length_flatten, List.length_map] at hle
      exact hle.trans (Nat.mul_le_mul_right _ hrest)
    have hlength := hwritten.length_le
    have hbuf := hcopies.upload_le
    rw [hcopies.uploaded, hahead, List.flatten_append]
    simp only [List.length_append]
    omega
  · intro hup hout hfailed
    obtain ⟨_, hslot, hall⟩ := (Client.outgoing_done hclient hout).resolve_left
      (ne_true_of_eq_false hfailed)
    have houtbox := Client.outbox_of_reachable hclient
    have hacked : s.2.stdin = s.1.client.acked.flatten := by
      rw [hcopies.uploaded, hup, ← houtbox.log, houtbox.accepted, hslot, hall]
      simp [Transfer.buf]
    have hprefix := hserves.written_stdin hs
    rw [hacked] at hprefix ⊢
    exact hprefix.eq_of_length_le hwritten.length_le

/-- Standard input of two bytes, up to the end of `pump_outgoing`. -/
def ackedInput : List TunnelEvent :=
  writeByte ++ [.server (.actor 0 (.write 1)), .server (.writeOk 0), .server (.reply 0),
    .putBody .finished, .client (.io (.writeResponse .noContent)), .client (.poll .flush),
    .client .resume, .client (.poll .shutdown), .client .resume, .client (.io (.recv 1))]

def copyInput : List (TunnelEvent ⊕ StdioEvent) :=
  .inr (.stdinRead [1, 2]) :: (ackedInput.take 2).map .inl ++ .inr .stdinEnd ::
    (ackedInput.drop 2).map .inl

theorem copyInput_upload :
    ∃ s, (owned Stdio.main sampleEnv).Run (fun _ _ => True) copyInput s ∧
      s.2.stdin = [1, 2] ∧ s.1.server.writtenTo 0 = s.2.stdin := by
  obtain ⟨s, hrun, hstdin, hup, hout, hfailed, hactor, hgets, hputs, hput⟩ :=
    Machine.exists_run (M := owned Stdio.main sampleEnv)
      (P := fun s => s.2.stdin = [1, 2] ∧ s.2.upload = .done ∧ s.1.client.outgoing = .done ∧
        s.1.client.task.failed = false ∧
        (s.1.server.actors 0).map (fun A => (A.sessionId, A.finished.all Written.ok)) =
          some (0, true) ∧ s.1.gets = [] ∧ s.1.puts = [0] ∧
        (s.1.server.calls 0).map Call.session = some (some 0)) copyInput (by decide)
  have hsession : ∀ A, s.1.server.actors 0 = some A →
      A.sessionId = 0 ∧ A.finished.all Written.ok = true := by
    intro A ha
    rw [ha, Option.map_some, Option.some.injEq, Prod.mk.injEq] at hactor
    exact hactor
  have hserves : Serves sampleEnv s.1 0 :=
    ⟨fun A ha => (hsession A ha).1, by simp [ServedBy, hgets], hputs ▸ servedBy_singleton hput⟩
  have hok : ∀ A, s.1.server.actors 0 = some A → ∀ f ∈ A.finished, f.ok = true :=
    fun A ha => List.all_eq_true.mp (hsession A ha).2
  exact ⟨s, hrun, hstdin, (stdio_upload ⟨_, hrun⟩ hserves hok).2 hup hout hfailed⟩

end Fronting.Tunnel
