import Fronting.ClientWrites

/-!
# Bytes on their way to the reader

`pump_incoming` holds one item, the response channel two and `StreamReader` the rest of
one. As long as the connection lives, what has been received is in one of them or has
been read.
-/

namespace Fronting

/-- The data in a response channel. -/
def queued (queue : List Item) : Bytes :=
  queue.flatMap fun
    | .ok bytes => bytes
    | .error _ => []

@[simp] theorem queued_nil : queued [] = [] := rfl

@[simp] theorem queued_ok (bytes : Bytes) (queue : List Item) :
    queued (.ok bytes :: queue) = bytes ++ queued queue := rfl

@[simp] theorem queued_error (message : String) (queue : List Item) :
    queued (.error message :: queue) = queued queue := rfl

theorem queued_append (queue queue' : List Item) :
    queued (queue ++ queue') = queued queue ++ queued queue' := List.flatMap_append

/-- What the polls in a log have read. -/
def readIn (log : List (Op × PollResult)) : Bytes :=
  log.flatMap fun
    | (_, .filled bytes) => bytes
    | _ => []

theorem readIn_append (log log' : List (Op × PollResult)) :
    readIn (log ++ log') = readIn log ++ readIn log' := List.flatMap_append

/-- The data that `pump_incoming` has and the response channel has not. -/
def Incoming.inHand : Incoming → Bytes
  | .sending (.ok bytes) => bytes
  | _ => []

namespace Client

variable {env : ClientEnv} {s t : Client} {op : Op} {tx : Bool} {chunk : Bytes}
  {queue : List Item}

/-- Nothing but empty items is left to read. -/
def Drained (chunk : Bytes) (queue : List Item) : Prop :=
  chunk = [] ∧ ∀ item ∈ queue, item = .ok []

theorem fillBuf_of_drained (h : Drained chunk queue) :
    fillBuf tx chunk queue = (if tx then .pending else .ready [], []) := by
  obtain ⟨rfl, hempty⟩ := h
  induction queue with
  | nil => rfl
  | cons item queue ih =>
      obtain ⟨rfl, hrest⟩ := List.forall_mem_cons.mp hempty
      exact ih hrest

/-- What is left is found in order: data, or the error in front of it. -/
theorem fillBuf_of_not_drained (tx : Bool) (h : ¬ Drained chunk queue) :
    (∃ bytes rest, fillBuf tx chunk queue = (.ready bytes, rest) ∧ bytes ≠ [] ∧
      chunk ++ queued queue = bytes ++ queued rest ∧
      rest.any Item.isError = queue.any Item.isError) ∨
    ∃ message rest, fillBuf tx chunk queue = (.error message, rest) ∧
      chunk ++ queued queue = queued rest := by
  induction queue generalizing chunk with
  | nil =>
      cases chunk with
      | nil => exact absurd ⟨rfl, by simp⟩ h
      | cons b bs => exact .inl ⟨b :: bs, [], rfl, by simp, rfl, rfl⟩
  | cons item queue ih =>
      cases chunk with
      | cons b bs => exact .inl ⟨b :: bs, item :: queue, rfl, by simp, rfl, rfl⟩
      | nil =>
          cases item with
          | error message => exact .inr ⟨message, queue, rfl, rfl⟩
          | ok bytes =>
              have hrest : ¬ Drained bytes queue := by
                rintro ⟨rfl, hempty⟩
                exact h ⟨rfl, by simpa using hempty⟩
              simpa [fillBuf, Item.isError] using ih hrest

structure Inbox (s : Client) : Prop where
  log : s.delivered = readIn s.log
  call : s.call ≠ none → s.dropped = false
  delivered : s.delivered <+: s.received
  kept : s.dropped = false →
    s.received = s.delivered ++ s.chunk ++ queued s.responses ++ s.incoming.inHand

theorem Inbox.init : Inbox Client.init := by
  constructor
  · rfl
  · exact fun _ => rfl
  · exact List.nil_prefix
  · exact fun _ => rfl

/-- A step that moves no data. -/
theorem Inbox.frame (h : Inbox s) (hlog : readIn t.log = readIn s.log)
    (hcall : t.call = none ∨ t.call = s.call) (hd : t.dropped = s.dropped)
    (hdelivered : t.delivered = s.delivered) (hreceived : t.received = s.received)
    (hchunk : t.chunk = s.chunk)
    (hrest : s.dropped = false → queued t.responses ++ t.incoming.inHand =
      queued s.responses ++ s.incoming.inHand) : Inbox t := by
  constructor
  · rw [hdelivered, hlog, h.log]
  · rw [hd]
    rcases hcall with hc | hc
    · exact fun hne => absurd hc hne
    · exact hc ▸ h.call
  · rw [hdelivered, hreceived]
    exact h.delivered
  · intro hd'
    have hs : s.dropped = false := hd ▸ hd'
    rw [hreceived, hdelivered, hchunk, List.append_assoc, hrest hs, ← List.append_assoc]
    exact h.kept hs

theorem Inbox.io {e : IoEvent} (h : Inbox s) (hio : Io env s e t) : Inbox t := by
  cases hio with
  | dataFrame bytes hin =>
      constructor
      · exact h.log
      · exact h.call
      · exact h.delivered.trans (List.prefix_append _ _)
      · intro hd
        have hkept : s.received = s.delivered ++ s.chunk ++ queued s.responses := by
          simpa [hin, Incoming.inHand] using h.kept hd
        simp only [hkept, Incoming.inHand]
  | push item hin =>
      refine h.frame rfl (.inr rfl) rfl rfl rfl rfl fun _ => ?_
      cases item with
      | ok bytes => simp [queued_append, hin, Incoming.inHand]
      | error message => simp [queued_append, hin, Incoming.inHand]
  | pushDropped item hin hd =>
      refine h.frame rfl (.inr rfl) rfl rfl rfl rfl fun hd' => ?_
      exact absurd (hd.symm.trans hd') Bool.false_ne_true.symm
  | bodyError message hin =>
      refine h.frame rfl (.inr rfl) rfl rfl rfl rfl fun _ => ?_
      simp [hin, Incoming.inHand]
  | sendRead path req hin | noReadRequest path hin | readResponse status hin
  | readStatus status hin | readError message hin | emptyFrame hin | bodyFinished hin
  | flushed hin | flushedLast hin =>
      refine h.frame rfl (.inr rfl) rfl rfl rfl rfl fun _ => ?_
      simp [hin, Incoming.inHand, settle, fail]
  | _ => exact h.frame rfl (.inr rfl) rfl rfl rfl rfl fun _ => rfl

/-- A poll returns the bytes that it takes out of the channel. -/
theorem pollInner_inbox (s : Client) (op : Op) :
    (s.pollInner op).1.received = s.received ∧
    (s.pollInner op).1.delivered = s.delivered ++ readIn [(op, (s.pollInner op).2)] ∧
    (s.pollInner op).1.delivered ++ (s.pollInner op).1.chunk ++
        queued (s.pollInner op).1.responses =
      s.delivered ++ s.chunk ++ queued s.responses := by
  cases op with
  | read room =>
      by_cases hroom : room = 0
      · simp [pollInner, pollRead, hroom, readIn]
      · by_cases hdrained : Drained s.chunk s.responses
        · have hempty : s.chunk ++ queued s.responses = [] := by
            rw [hdrained.1, List.nil_append, queued, List.flatMap_eq_nil_iff]
            intro item hitem
            rw [hdrained.2 item hitem]
          cases htx : s.responseTx <;>
            simp [pollInner, pollRead, hroom, fillBuf_of_drained hdrained, htx, readIn, hempty]
        · rcases fillBuf_of_not_drained s.responseTx hdrained with
            ⟨bytes, rest, heq, _, hdata, _⟩ | ⟨message, rest, heq, hdata⟩
          · simp [pollInner, pollRead, hroom, heq, readIn, hdata]
          · simp [pollInner, pollRead, hroom, heq, readIn, hdata]
  | write buf | writeVectored bufs =>
      simp only [pollInner, pollWrite]
      split
      · split <;> simp [readIn]
      · split <;> simp [readIn]
  | flush | shutdown => simp [pollInner, pollFlush, pollShutdown, readIn]

theorem Inbox.resume (h : Inbox s) (hcall : s.call = some op) : Inbox (s.resume op) := by
  obtain ⟨hreceived, hdelivered, hdata⟩ := pollInner_inbox s op
  obtain ⟨hin, _, _, _, _, _, hlog, hd⟩ := pollInner_pumps s op
  have hkept := h.kept (h.call (by simp [hcall]))
  have hkept' : (s.resume op).received = (s.resume op).delivered ++ (s.resume op).chunk ++
      queued (s.resume op).responses ++ (s.resume op).incoming.inHand := by
    simp only [Client.resume, report, hreceived, hdata, hin]
    exact hkept
  constructor
  · simp only [Client.resume, report, readIn_append, hdelivered, hlog, h.log]
  · exact fun hne => absurd rfl hne
  · rw [hkept', List.append_assoc, List.append_assoc]
    exact List.prefix_append _ _
  · exact fun _ => hkept'

theorem inbox_of_reachable (hs : (machine env).Reachable s) : Inbox s := by
  refine hs.invariant Inbox.init ?_
  intro s e t _ h hstep
  cases Step.of_step hstep with
  | pollTaken | pollError | pollOk =>
      refine h.frame ?_ (.inl rfl) rfl rfl rfl rfl fun _ => rfl
      simp [report, readIn]
  | pollPending op _ hd =>
      constructor
      · exact h.log
      · exact fun _ => hd
      · exact h.delivered
      · exact h.kept
  | resume op hcall => exact h.resume hcall
  | io e t _ hio => exact h.io hio
  | drop hcall =>
      constructor
      · exact h.log
      · exact fun hne => absurd hcall hne
      · exact h.delivered
      · intro hd
        simp [Client.drop] at hd
  | _ => exact h.frame rfl (.inr rfl) rfl rfl rfl rfl fun _ => rfl

end Client
end Fronting
