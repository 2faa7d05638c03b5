import Fronting.ClientStep

/-!
# Accepted and acknowledged writes

A buffer that `poll_write` accepts waits in the slot of the request channel, then in
the one request that `pump_outgoing` has under way. `poll_flush` and `poll_shutdown`
look at neither, so what they promise is a bound on how much is on its way.
-/

namespace Fronting

/-- The buffer that a write hands over, merged by `poll_write_vectored`. -/
def Op.buffer : Op → Option Bytes
  | .write buf => some buf
  | .writeVectored bufs => some bufs.flatten
  | _ => none

/-- The buffers that the polls in a log have accepted. -/
def acceptedIn (log : List (Op × PollResult)) : List Bytes :=
  log.flatMap fun
    | (op, .written _) => op.buffer.toList
    | _ => []

theorem acceptedIn_append (log log' : List (Op × PollResult)) :
    acceptedIn (log ++ log') = acceptedIn log ++ acceptedIn log' := List.flatMap_append

@[simp] theorem acceptedIn_written (op : Op) (n : Nat) :
    acceptedIn [(op, .written n)] = op.buffer.toList := by
  simp [acceptedIn]

/-- The chunk of the request under way. -/
def Outgoing.inFlight : Outgoing → List Bytes
  | .awaiting _ chunk => [chunk]
  | _ => []

namespace Client

variable {env : ClientEnv} {s t : Client} {op : Op} {res : PollResult}

/-- Where the accepted buffers are. -/
structure Outbox (s : Client) : Prop where
  log : s.accepted = acceptedIn s.log
  accepted : s.accepted = s.taken ++ s.slot.toList
  taken : s.outgoing ≠ .done → s.taken = s.acked ++ s.outgoing.inFlight
  unanswered : ∃ chunks, s.taken = s.acked ++ chunks ∧ chunks.length ≤ 1

theorem Outbox.init : Outbox Client.init := by
  constructor
  · rfl
  · rfl
  · intro _
    rfl
  · exact ⟨[], rfl, Nat.zero_le 1⟩

/-- Nothing the writes depend on has changed. -/
theorem Outbox.frame (h : Outbox s) (hacc : t.accepted = s.accepted)
    (hlog : acceptedIn t.log = acceptedIn s.log) (htaken : t.taken = s.taken)
    (hslot : t.slot = s.slot) (hacked : t.acked = s.acked) (hout : t.outgoing = s.outgoing) :
    Outbox t := by
  constructor
  · rw [hacc, hlog, h.log]
  · rw [hacc, htaken, hslot, h.accepted]
  · rw [hout, htaken, hacked]
    exact h.taken
  · rw [htaken, hacked]
    exact h.unanswered

theorem Outbox.ended (h : Outbox s) (hacc : t.accepted = s.accepted)
    (hlog : t.log = s.log) (htaken : t.taken = s.taken) (hslot : t.slot = s.slot)
    (hacked : t.acked = s.acked) (hout : t.outgoing = .done) : Outbox t := by
  constructor
  · rw [hacc, hlog, h.log]
  · rw [hacc, htaken, hslot, h.accepted]
  · intro hne
    exact absurd hout hne
  · rw [htaken, hacked]
    exact h.unanswered

/-- `pump_outgoing` takes the chunk out of the slot. -/
theorem Outbox.take {first : Bool} {chunk : Bytes} (h : Outbox s)
    (hout : s.outgoing = .idle first) (hslot : s.slot = some chunk) (hacc : t.accepted = s.accepted)
    (hlog : t.log = s.log) (htaken : t.taken = s.taken ++ [chunk]) (hslot' : t.slot = none)
    (hacked : t.acked = s.acked)
    (hout' : t.outgoing = .awaiting first chunk ∨ t.outgoing = .done) : Outbox t := by
  have hprev : s.taken = s.acked := by
    simpa [hout, Outgoing.inFlight] using h.taken (by simp [hout])
  have hnow : t.taken = t.acked ++ [chunk] := by rw [htaken, hacked, hprev]
  constructor
  · rw [hacc, hlog, h.log]
  · rw [hacc, h.accepted, hslot, htaken, hslot']
    simp
  · intro hne
    rcases hout' with hout' | hout'
    · rw [hout', hnow]
      rfl
    · exact absurd hout' hne
  · exact ⟨[chunk], hnow, Nat.le_refl 1⟩

theorem Outbox.io {e : IoEvent} (h : Outbox s) (hio : Io env s e t) : Outbox t := by
  cases hio with
  | recv first chunk path req hout hslot _ =>
      exact h.take hout hslot rfl rfl rfl rfl rfl (.inl rfl)
  | noWriteRequest first chunk path hout hslot _ =>
      exact h.take hout hslot rfl rfl rfl rfl rfl (.inr rfl)
  | recvClosed | writeStatus | writeError => exact h.ended rfl rfl rfl rfl rfl rfl
  | writeNoContent first chunk hout =>
      have hprev : s.taken = s.acked ++ [chunk] := by
        simpa [hout, Outgoing.inFlight] using h.taken (by simp [hout])
      constructor
      · exact h.log
      · exact h.accepted
      · intro _
        simpa [Outgoing.inFlight] using hprev
      · exact ⟨[], by simpa using hprev, Nat.zero_le 1⟩
  | _ => exact h.frame rfl rfl rfl rfl rfl rfl

/-- A poll either accepts the buffer of its operation into the empty slot or leaves
the request channel's content as it is. -/
theorem pollInner_outbox (s : Client) (op : Op) :
    (∃ buf, op.buffer = some buf ∧ s.slot = none ∧
      s.pollInner op = ({ s with slot := some buf, accepted := s.accepted ++ [buf] },
        .written buf.length)) ∨
    ((s.pollInner op).1.slot = s.slot ∧ (s.pollInner op).1.accepted = s.accepted ∧
      ∀ n, (s.pollInner op).2 ≠ .written n) := by
  have hwrite : ∀ buf : Bytes,
      (s.slot = none ∧ s.pollWrite buf =
        ({ s with slot := some buf, accepted := s.accepted ++ [buf] }, .written buf.length)) ∨
      ((s.pollWrite buf).1.slot = s.slot ∧ (s.pollWrite buf).1.accepted = s.accepted ∧
        ∀ n, (s.pollWrite buf).2 ≠ .written n) := by
    intro buf
    rcases pollWrite_cases s buf with ⟨_, _, heq⟩ | ⟨_, hslot, heq⟩ | ⟨_, _, heq⟩ | ⟨_, _, heq⟩
    · exact .inr (by simp [heq])
    · exact .inl ⟨hslot, heq⟩
    · exact .inr (by simp [heq])
    · exact .inr (by simp [heq])
  cases op with
  | read room =>
      right
      simp only [pollInner, pollRead]
      split
      · simp
      · split <;> simp
  | write buf => exact (hwrite buf).imp (fun h => ⟨buf, rfl, h⟩) id
  | writeVectored bufs => exact (hwrite bufs.flatten).imp (fun h => ⟨_, rfl, h⟩) id
  | flush | shutdown => exact .inr ⟨rfl, rfl, by simp [pollInner, pollFlush, pollShutdown]⟩

/-- What a poll leaves to the pumps. -/
theorem pollInner_pumps (s : Client) (op : Op) :
    (s.pollInner op).1.incoming = s.incoming ∧ (s.pollInner op).1.outgoing = s.outgoing ∧
      (s.pollInner op).1.connDone = s.connDone ∧ (s.pollInner op).1.task = s.task ∧
      (s.pollInner op).1.taken = s.taken ∧ (s.pollInner op).1.acked = s.acked ∧
      (s.pollInner op).1.log = s.log ∧ (s.pollInner op).1.dropped = s.dropped := by
  cases op with
  | read room =>
      simp only [pollInner, pollRead]
      split
      · simp
      · split <;> simp
  | write buf | writeVectored bufs =>
      simp only [pollInner, pollWrite]
      split
      · split <;> simp
      · split <;> simp
  | flush | shutdown => simp [pollInner, pollFlush, pollShutdown]

theorem acceptedIn_of_ne_written (h : ∀ n, res ≠ .written n) : acceptedIn [(op, res)] = [] := by
  cases res with
  | written n => exact absurd rfl (h n)
  | _ => rfl

theorem Outbox.resume (h : Outbox s) (op : Op) : Outbox (s.resume op) := by
  obtain ⟨_, hout, _, _, htaken, hacked, hlog, _⟩ := pollInner_pumps s op
  obtain ⟨buf, hbuf, hslot, heq⟩ | ⟨hslot, hacc, hres⟩ := pollInner_outbox s op
  · simp only [Client.resume, heq, report]
    constructor
    · simp only [acceptedIn_append, acceptedIn_written, hbuf, Option.toList_some, h.log]
    · simp only [h.accepted, hslot, Option.toList_none, List.append_nil, Option.toList_some]
    · exact h.taken
    · exact h.unanswered
  · refine h.frame hacc ?_ htaken hslot hacked hout
    simp only [Client.resume, report, acceptedIn_append, acceptedIn_of_ne_written hres, hlog,
      List.append_nil]

theorem outbox_of_reachable (hs : (machine env).Reachable s) : Outbox s := by
  refine hs.invariant Outbox.init ?_
  intro s e t _ h hstep
  cases Step.of_step hstep with
  | pollTaken | pollError | pollOk =>
      refine h.frame rfl ?_ rfl rfl rfl rfl
      simp [report, acceptedIn]
  | resume op => exact h.resume op
  | io e t _ hio => exact h.io hio
  | _ => exact h.frame rfl rfl rfl rfl rfl rfl

/-- A flush or a shutdown that returned `Ok` vouches for every buffer accepted before it. -/
def FlushedAcked (s : Client) : Prop :=
  ∀ before op after, s.log = before ++ (op, .ready) :: after → op = .flush ∨ op = .shutdown →
    acceptedIn before <+: s.acked

/-- Of the buffers accepted before a flush, all are acknowledged but the one whose request
is unanswered and the one in the slot; a drop at any later time loses no others. -/
theorem flushed_acked_or_pending (hs : (machine env).Reachable s)
    {before after : List (Op × PollResult)} (hlog : s.log = before ++ (op, .ready) :: after)
    (_hop : op = .flush ∨ op = .shutdown) :
    ∃ unanswered, acceptedIn before <+: s.acked ++ unanswered ++ s.slot.toList ∧
      unanswered.length ≤ 1 ∧ (s.outgoing ≠ .done → unanswered = s.outgoing.inFlight) := by
  have h : Outbox s := outbox_of_reachable hs
  have hbefore : acceptedIn before <+: s.taken ++ s.slot.toList := by
    rw [← h.accepted, h.log, hlog, acceptedIn_append]
    exact List.prefix_append _ _
  obtain ⟨chunks, htaken, hlen⟩ := h.unanswered
  refine ⟨chunks, htaken ▸ hbefore, hlen, ?_⟩
  intro hne
  exact List.append_cancel_left (htaken.symm.trans (h.taken hne))

/-- Two writes, a flush and the drop: the first chunk's request is unanswered. -/
def flushThenDrop : List ClientEvent :=
  [.poll (.write [1]), .resume, .io (.recv 0), .poll (.write [2]), .resume, .poll .flush, .resume,
    .drop, .abort]

theorem flushThenDrop_pending :
    ∃ s, (machine sampleEnv).Reachable s ∧ s.task = .aborted ∧ s.acked = [] ∧
      ∃ unanswered, [[1], [2]] <+: s.acked ++ unanswered ++ s.slot.toList ∧
        unanswered.length ≤ 1 ∧ (s.outgoing ≠ .done → unanswered = s.outgoing.inFlight) := by
  have hrun := Machine.exists_run (M := machine sampleEnv)
    (P := fun s => s.log = [(.write [1], .written 1), (.write [2], .written 1)] ++
      (.flush, .ready) :: [] ∧ s.task = .aborted ∧ s.acked = []) flushThenDrop (by decide)
  obtain ⟨s, hs, hlog, htask, hacked⟩ := hrun
  exact ⟨s, hs.reachable, htask, hacked, flushed_acked_or_pending hs.reachable hlog (.inl rfl)⟩

theorem flushThenDrop_not_flushedAcked :
    ¬ ∀ s, (machine sampleEnv).Reachable s → FlushedAcked s := by
  intro hall
  have hrun := Machine.exists_run (M := machine sampleEnv)
    (P := fun s => s.log = [(.write [1], .written 1), (.write [2], .written 1)] ++
      (.flush, .ready) :: [] ∧ s.acked = []) flushThenDrop (by decide)
  obtain ⟨s, hs, hlog, hacked⟩ := hrun
  have hpre := hall s hs.reachable _ _ _ hlog (.inl rfl)
  rw [hacked] at hpre
  exact absurd (List.prefix_nil.mp hpre) (by decide)

end Client
end Fronting
