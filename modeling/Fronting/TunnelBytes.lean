import Fronting.ClientFailures
import Fronting.Readers
import Fronting.TunnelPipe

/-!
# Where the bytes of a tunnel are

What upstream has sent and the owner has not read is spread over the read half, the turn of
one stream, the body of one response and the buffers of the client. What the owner has
written and upstream has not been sent is spread over the client, one request and the
session. Nothing else holds bytes, and none are in two places.
-/

namespace Fronting

namespace Session

variable {A : Session}

/-- The rest of the chunk whose write is under way. -/
def unwritten (A : Session) : Bytes := A.handling.elim [] fun w => w.bytes.drop w.offset

/-- What the mailbox has accepted is written, in the handler or queued. -/
theorem Upload.split (h : Upload A) (halive : A.isAlive)
    (hok : ∀ f ∈ A.finished, f.ok = true) :
    (A.accepted.map Prod.snd).flatten =
      A.upstream.written ++ A.unwritten ++ (A.queued.map Prod.snd).flatten := by
  obtain ⟨lost, hqueue, hlost⟩ := h.queue
  have hwhole : A.finished.map (fun f => f.bytes.take f.sent) = A.finished.map Written.bytes := by
    refine List.map_congr_left fun f hf => ?_
    rw [(h.sent f hf).mp (hok f hf), List.take_length]
  have hreturned : A.returned.map Prod.snd = A.finished.map Written.bytes := by
    simp [returned, Function.comp_def]
  have hcurrent : (A.handling.map fun w => w.bytes.take w.offset).getD [] ++ A.unwritten =
      (A.current.map Prod.snd).flatten := by
    cases hw : A.handling with
    | none => simp [unwritten, current, hw]
    | some w => simp [unwritten, current, hw]
  rw [hqueue, hlost halive, List.append_nil, List.map_append, List.map_append,
    List.flatten_append, List.flatten_append, hreturned, ← hwhole, ← hcurrent, h.written,
    sentBytes]
  simp only [List.append_assoc]

end Session

namespace Tunnel

variable {env : TunnelEnv} {s : Tunnel} {a : ActorRef} {A : Session} {r : ReqId}

/-- The part of the last response body that the client has not seen. -/
def unseen (s : Tunnel) : Bytes :=
  match s.get with
  | .arrived r => (s.server.framesOf r).drop (s.seen r).length
  | _ => []

/-- The bytes in the turn of the stream of the last `GET`. -/
def inHand (s : Tunnel) : Bytes :=
  match s.get with
  | .arrived r => (s.server.streams r).elim [] ReadStream.inHand
  | _ => []

theorem takenOf_eq (s : Server) (r : ReqId) :
    s.takenOf r = s.framesOf r ++ (s.streams r).elim [] ReadStream.inHand := by
  cases hst : s.streams r with
  | none => simp [Server.takenOf, Server.framesOf, hst]
  | some st => simp [Server.takenOf, Server.framesOf, hst, ReadStream.taken]

/-- A response that the client is done with holds nothing back. -/
theorem takenOf_of_complete (hs : (machine env).Reachable s) (ha : s.server.actors a = some A)
    (hopen : ¬ A.closing) (hserved : ServedBy s s.gets a) (hr : r ∈ s.gets)
    (hcomplete : Complete s r) : s.server.takenOf r = s.seen r := by
  have hdownload := Server.download_of_reachable (server_reachable hs)
  rw [takenOf_eq, ← hcomplete.2]
  cases hst : s.server.streams r with
  | none => simp
  | some st =>
      obtain ⟨R, B, hR, hsession, hB, _⟩ := session_of_stream hs hr hst
      have hsame : st.session = a := hserved r hr R st.session hR hsession
      have hended : st.ended = true := by simpa [bodyEnded, hst] using hcomplete.1
      have hkept : st.aborted = false := by
        by_contra hab
        exact hopen (hdownload.aborted hst (hsame ▸ ha) (eq_true_of_ne_false hab))
      rw [Option.elim_some, hdownload.inHand hst hended hkept, List.append_nil]

/-- A stream of one of the client's `GET`s has been opened by the session. -/
theorem takenOf_of_not_opened (hs : (machine env).Reachable s)
    (ha : s.server.actors a = some A) (hserved : ServedBy s s.gets a) (hr : r ∈ s.gets)
    (hnew : r ∉ A.opened) : s.server.takenOf r = [] := by
  cases hst : s.server.streams r with
  | none => simp [Server.takenOf, hst]
  | some st =>
      obtain ⟨R, B, hR, hsession, hB, _⟩ := session_of_stream hs hr hst
      have hsame : st.session = a := hserved r hr R st.session hR hsession
      exact absurd ((Server.download_of_reachable (server_reachable hs)).listed hst (hsame ▸ ha))
        hnew

/-- The streams of the session are those of the client's `GET`s. -/
theorem consumed_eq (hs : (machine env).Reachable s) (hserves : Serves env s a)
    (ha : s.server.actors a = some A) :
    A.upstream.consumed = s.gets.flatMap s.server.takenOf := by
  have hnodup := (named_of_reachable hs).getsNodup
  rw [(Server.download_of_reachable (server_reachable hs)).consumed ha]
  refine (flatMap_of_sublist (opened_sublist hs ha (hserves.mine A ha)) hnodup ?_).symm
  exact fun r hr hnew => takenOf_of_not_opened hs ha hserves.gets hr hnew

/-- What the session has consumed is received, unseen, or in the hand of its last stream. -/
theorem consumed_split (hs : (machine env).Reachable s) (hserves : Serves env s a)
    (ha : s.server.actors a = some A) (hopen : ¬ A.closing) :
    A.upstream.consumed = s.client.received ++ s.unseen ++ s.inHand := by
  have hwire := readWire_of_reachable hs
  have hnodup := (named_of_reachable hs).getsNodup
  have hdone : ∀ q ∈ s.gets, s.get ≠ .arrived q → s.server.takenOf q = s.seen q :=
    fun q hq hne => takenOf_of_complete hs ha hopen hserves.gets hq (hwire.complete hq hne)
  rw [consumed_eq hs hserves ha, hwire.received]
  by_cases hlast : ∃ r, s.get = .arrived r
  · obtain ⟨r, hlast⟩ := hlast
    obtain ⟨earlier, hgets⟩ := hwire.arrived hlast
    have hsame : earlier.flatMap s.server.takenOf = earlier.flatMap s.seen := by
      refine List.flatMap_congr fun q hq => hdone q (by simp [hgets, hq]) fun heq => ?_
      obtain rfl : r = q := by
        rw [hlast] at heq
        injection heq
      rw [hgets, List.nodup_append] at hnodup
      exact hnodup.2.2 r hq r (List.mem_singleton_self r) rfl
    have hseen : s.server.framesOf r =
        s.seen r ++ (s.server.framesOf r).drop (s.seen r).length := by
      obtain ⟨rest, hrest⟩ := hwire.seen r
      rw [← hrest, List.drop_left]
    rw [hgets, List.flatMap_append, List.flatMap_append, hsame]
    simp only [List.flatMap_cons, List.flatMap_nil, List.append_nil, unseen, inHand, hlast,
      takenOf_eq]
    rw [hseen]
    simp
  · have hnone : s.unseen = [] ∧ s.inHand = [] := by
      unfold unseen inHand
      cases hget : s.get with
      | arrived r => exact absurd ⟨r, hget⟩ hlast
      | _ => exact ⟨rfl, rfl⟩
    rw [hnone.1, hnone.2, List.append_nil, List.append_nil]
    exact List.flatMap_congr fun q hq => hdone q hq fun heq => hlast ⟨q, heq⟩

/-- Nine bytes from upstream, spread over the whole way to the reader. -/
def nineBytes : List TunnelEvent :=
  [.client (.io (.sendRead 0)), .getArrives 0 0, .server (.actor 0 .start),
    .server (.actor 0 (.connect 8 16)),
    .server (.actor 0 (.upstreamSend [1, 2, 3, 4, 5, 6, 7, 8, 9])), .server (.ask 0),
    .server (.handle 0), .server (.reply 0), .server (.poll 0 (.data 6)), .server (.tell 0),
    .server (.poll 0 (.data 1)), .client (.io (.readResponse .ok)),
    .client (.io (.frame (.data [1, 2]))), .client (.io .push), .client (.io .flushed),
    .client (.io (.frame (.data [3]))), .client (.io .push), .client (.poll (.read 1)),
    .client .resume, .client (.io .flushed), .client (.io (.frame (.data [4])))]

/-- What the body of the last write request has not brought to the server. -/
def unsent (s : Tunnel) : Bytes :=
  match s.put with
  | .sent _ body => body
  | .arrived r => (s.sent r).drop (s.uploaded r).length
  | .idle => []

/-- The chunk of the last write request that waits for the mailbox. -/
def waiting (s : Tunnel) : Bytes :=
  match s.put with
  | .arrived r => (s.server.calls r).elim [] fun R => R.handler.unsent.flatten
  | _ => []

/-- The handler of the last write request has not ended before its body. -/
def Unbroken (s : Tunnel) : Prop :=
  ∀ r R, s.put = .arrived r → s.server.calls r = some R → R.handler.broken = false

theorem session_of_unbroken (hs : (machine env).Reachable s) {R : Call}
    (hr : s.server.calls r = some R) (hbroken : R.handler.broken = false) :
    ∃ b, R.session = some b := by
  refine Option.ne_none_iff_exists'.mp fun hnone => ?_
  obtain ⟨e, he⟩ := Server.refused_of_reachable (server_reachable hs) hr hnone
  rw [he] at hbroken
  cases hbroken

/-- The bodies of the client's write requests are accepted by the mailbox, one of them up to
what waits or has not arrived. -/
theorem sent_split (hs : (machine env).Reachable s) (hserves : Serves env s a)
    (ha : s.server.actors a = some A) (hunbroken : Unbroken s) :
    (s.puts.map s.sent ++ s.put.body).flatten =
      (A.accepted.map Prod.snd).flatten ++ s.waiting ++ s.unsent := by
  have hreach := server_reachable hs
  have hwire := writeWire_of_reachable hs
  have hnodup := (named_of_reachable hs).putsNodup
  have hwhole : ∀ q ∈ s.puts, s.put ≠ .arrived q → (A.acceptedOf q).flatten = s.sent q := by
    intro q hq hne
    obtain ⟨R, b, B, hR, hb, hB, hall⟩ := (hwire.answered hq hne).accepted hreach
    obtain rfl : b = a := hserves.puts q hq R b hR hb
    obtain rfl : A = B := Option.some.inj (ha.symm.trans hB)
    exact hall
  rw [accepted_eq hs ha (hserves.mine A ha), flatten_tagged, List.flatten_append,
    ← List.flatMap_def]
  cases hput : s.put with
  | arrived r =>
      obtain ⟨earlier, hputs⟩ := hwire.arrived hput
      have hmem : r ∈ s.puts := by simp [hputs]
      obtain ⟨R, hR, _⟩ := (named_of_reachable hs).put hmem
      have hbroken := hunbroken r R hput hR
      obtain ⟨b, hb⟩ := session_of_unbroken hs hR hbroken
      obtain rfl : b = a := hserves.puts r hmem R b hR hb
      obtain ⟨hchunks, _⟩ := ((Server.ledger_of_reachable hreach).account hR hb ha).whole hbroken
      have hlast : s.sent r = (A.acceptedOf r).flatten ++ R.handler.unsent.flatten ++
          (s.sent r).drop (s.uploaded r).length := by
        obtain ⟨rest, hrest⟩ := hwire.uploaded r hmem
        have huploaded : s.uploaded r =
            (A.acceptedOf r).flatten ++ R.handler.unsent.flatten := by
          rw [uploaded_eq hR, ← hchunks, List.flatten_append]
        rw [← huploaded, ← hrest, List.drop_left]
      have hearlier : (earlier.flatMap fun q => (A.acceptedOf q).flatten) =
          earlier.flatMap s.sent := by
        refine List.flatMap_congr fun q hq => hwhole q (by simp [hputs, hq]) fun heq => ?_
        obtain rfl : r = q := by
          rw [hput] at heq
          injection heq
        rw [hputs, List.nodup_append] at hnodup
        exact hnodup.2.2 r hq r (List.mem_singleton_self r) rfl
      rw [hputs, List.flatMap_append, List.flatMap_append, hearlier]
      simp only [List.flatMap_cons, List.flatMap_nil, List.append_nil, Exchange.body, waiting,
        unsent, hput, hR, Option.elim_some, List.flatten_nil, List.append_assoc]
      rw [← List.append_assoc (A.acceptedOf r).flatten, ← hlast]
  | _ =>
      have hall : (s.puts.flatMap fun q => (A.acceptedOf q).flatten) = s.puts.flatMap s.sent :=
        List.flatMap_congr fun q hq => hwhole q hq (by simp [hput])
      simp [hall, waiting, unsent, hput, Exchange.body]

/-- Every chunk that `pump_outgoing` has taken is the body of a request, also when it has come
to the end of its channel. -/
theorem taken_of_sound (hs : (machine env).Reachable s)
    (hout : s.client.outgoing = .done → s.client.task.failed = false) :
    s.client.taken = s.puts.map s.sent ++ s.put.body := by
  have hwire := writeWire_of_reachable hs
  by_cases hdone : s.client.outgoing = .done
  · obtain ⟨_, _, hall⟩ := (Client.outgoing_done (client_reachable hs) hdone).resolve_left
      (ne_true_of_eq_false (hout hdone))
    obtain ⟨acks, hacks, hacked, _⟩ := hwire.acked
    have hshort : s.client.taken.length ≤ (s.puts.map s.sent ++ s.put.body).length := by
      rw [hall, hacked, List.length_append, List.length_map, List.length_map]
      exact hacks.length_le.trans (Nat.le_add_right _ _)
    exact (hwire.part.eq_of_length_le hshort).symm
  · exact hwire.taken hdone

/-- A write of four bytes, of which upstream has the first, and one of a fifth byte. -/
def fiveBytes : List TunnelEvent :=
  [.client (.poll (.write [1, 2, 3, 4])), .client .resume, .client (.io (.recv 0)),
    .putArrives 0 0, .server (.actor 0 .start), .server (.actor 0 (.connect 8 8)),
    .putBody (.chunk [1, 2]), .server (.ask 0), .server (.handle 0),
    .server (.actor 0 (.write 1)), .client (.poll (.write [5])), .client .resume]

end Tunnel
end Fronting
