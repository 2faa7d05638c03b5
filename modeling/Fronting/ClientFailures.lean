import Fronting.ClientReads

/-!
# The end of the I/O task

The response channel can be seen closed before the join handle shows why. What may have
closed it is listed by `Ending`: from that follows when a read takes a failure for the
end of data, and when `check_err` meets the result that it holds to be impossible.
-/

namespace Fronting

/-- What is left of a split list whose last element is new. -/
theorem eq_of_concat_eq {α : Type*} {log before after : List α} {x y : α}
    (hlog : log ++ [x] = before ++ y :: after) :
    (before = log ∧ y = x ∧ after = []) ∨ ∃ rest, log = before ++ y :: rest := by
  obtain rfl | ⟨rest, z, rfl⟩ := List.eq_nil_or_concat' after
  · obtain ⟨rfl, hxy⟩ := List.append_inj' hlog rfl
    exact .inl ⟨rfl, (List.singleton_inj.mp hxy).symm, rfl⟩
  · rw [← List.cons_append, ← List.append_assoc] at hlog
    obtain ⟨rfl, _⟩ := List.append_inj' hlog rfl
    exact .inr ⟨rest, rfl⟩

/-- A read with room that was filled with nothing. -/
def endOfStream : Op × PollResult → Bool
  | (.read room, .filled []) => 0 < room
  | _ => false

theorem endOfStream_of_ne {op : Op} {res : PollResult} (h : res ≠ .filled []) :
    endOfStream (op, res) = false := by
  unfold endOfStream
  split
  next room heq => exact absurd (congrArg Prod.snd heq) h
  next => rfl

def failure : Op × PollResult → Bool
  | (_, .error _) => true
  | _ => false

/-- In a log, no end of stream comes before the first error. -/
def EndAfterError (log : List (Op × PollResult)) : Prop :=
  ∀ before x after, log = before ++ x :: after → endOfStream x → before.any failure

theorem endAfterError_nil : EndAfterError [] := by
  intro before x after hlog
  simp at hlog

theorem endAfterError_concat {log : List (Op × PollResult)} {x : Op × PollResult} :
    EndAfterError (log ++ [x]) ↔ EndAfterError log ∧ (endOfStream x → log.any failure) := by
  constructor
  · intro h
    constructor
    · intro before y after hlog
      exact h before y (after ++ [x]) (by simp [hlog])
    · exact h log x [] rfl
  · rintro ⟨h, hx⟩ before y after hlog hy
    rcases eq_of_concat_eq hlog with ⟨rfl, rfl, _⟩ | ⟨rest, hrest⟩
    · exact hx hy
    · exact h before y rest hrest hy

namespace Task

def failed (task : Task) : Bool :=
  match task.result with
  | some (.error _) => true
  | _ => false

end Task

namespace Client

variable {env : ClientEnv} {s t : Client} {op : Op}

/-- The failure of the tunnel is on its way to the owner. -/
def Signalled (s : Client) : Prop :=
  s.dropped = true ∨ s.task.failed = true ∨ s.responses.any Item.isError = true ∨
    s.log.any failure = true

/-- What the end of the task, or of `pump_incoming`, comes with. -/
structure Ending (s : Client) : Prop where
  aborted : s.task = .aborted → s.dropped = true
  joined : s.task.result = some (.ok ()) → s.joined = true
  flushing : s.incoming = .flushing true → Signalled s
  done : s.incoming = .done → Signalled s

theorem Ending.init : Ending Client.init := by
  constructor <;> simp [Client.init, Task.result]

theorem signalled_fail (s : Client) (e : ClientError) : Signalled (s.fail e) := .inr (.inl rfl)

/-- Neither the task nor the channel nor the log has lost the signal. -/
theorem Signalled.frame (h : Signalled s) (htask : s.task.failed = true → t.task.failed = true)
    (hd : t.dropped = s.dropped) (hqueue : t.responses = s.responses)
    (hlog : s.log.any failure = true → t.log.any failure = true) : Signalled t := by
  rcases h with h | h | h | h
  · exact .inl (hd ▸ h)
  · exact .inr (.inl (htask h))
  · exact .inr (.inr (.inl (hqueue ▸ h)))
  · exact .inr (.inr (.inr (hlog h)))

theorem settle_task (s : Client) :
    s.settle.task = s.task ∨ s.settle.task = .returned (.ok ()) ∧ s.settle.joined = true := by
  by_cases hjoined : s.joined = true
  · right
    exact ⟨if_pos hjoined, hjoined⟩
  · left
    exact if_neg hjoined

/-- What a part of the running task may do to it. -/
theorem Ending.of_running
    (htask : t.task = .running ∨ t.task = .returned (.ok ()) ∧ t.joined = true ∨
      ∃ e, t.task = .returned (.error e))
    (hflushing : t.incoming = .flushing true → Signalled t)
    (hdone : t.incoming = .done → Signalled t) : Ending t := by
  constructor
  · intro ha
    obtain ht | ⟨ht, _⟩ | ⟨e, ht⟩ := htask <;> simp [ht] at ha
  · intro hr
    obtain ht | ⟨_, hj⟩ | ⟨e, ht⟩ := htask
    · simp [ht, Task.result] at hr
    · exact hj
    · simp [ht, Task.result] at hr
  · exact hflushing
  · exact hdone

/-- A step of the task that leaves `pump_incoming` where it is. -/
theorem Ending.of_incoming (h : Ending s) (hs : s.task = .running)
    (hd : t.dropped = s.dropped) (hqueue : t.responses = s.responses) (hlog : t.log = s.log)
    (hin : t.incoming = s.incoming)
    (htask : t.task = .running ∨ t.task = .returned (.ok ()) ∧ t.joined = true ∨
      ∃ e, t.task = .returned (.error e)) : Ending t := by
  have hsig : Signalled s → Signalled t := by
    intro hsig
    refine hsig.frame ?_ hd hqueue (by rw [hlog]; exact id)
    simp [hs, Task.failed, Task.result]
  refine .of_running htask ?_ ?_
  · rw [hin]
    exact fun hf => hsig (h.flushing hf)
  · rw [hin]
    exact fun hf => hsig (h.done hf)

theorem settle_running (hs : s.task = .running) :
    s.settle.task = .running ∨ s.settle.task = .returned (.ok ()) ∧ s.settle.joined = true ∨
      ∃ e, s.settle.task = .returned (.error e) := by
  rcases settle_task s with h | h
  · exact .inl (h.trans hs)
  · exact .inr (.inl h)

theorem Ending.io {e : IoEvent} (h : Ending s) (hs : s.task = .running) (hio : Io env s e t) :
    Ending t := by
  cases hio with
  | connOk => exact h.of_incoming hs rfl rfl rfl rfl (settle_running hs)
  | recvClosed => exact h.of_incoming hs rfl rfl rfl rfl (settle_running hs)
  | connError | noWriteRequest | writeStatus | writeError =>
      exact h.of_incoming hs rfl rfl rfl rfl (.inr (.inr ⟨_, rfl⟩))
  | recv | writeNoContent | trailers =>
      exact h.of_incoming hs rfl rfl rfl rfl (.inl hs)
  | noReadRequest | readStatus | readError =>
      refine .of_running (.inr (.inr ⟨_, rfl⟩)) ?_ ?_
      · exact fun _ => signalled_fail _ _
      · exact fun _ => signalled_fail _ _
  | sendRead | readResponse | emptyFrame | dataFrame | bodyFinished | bodyError | flushed =>
      refine .of_running (.inl hs) ?_ ?_
      · intro hf
        simp at hf
      · intro hf
        simp at hf
  | push item =>
      refine .of_running (.inl hs) ?_ ?_
      · intro hf
        have herror : item.isError = true := by simpa using hf
        refine .inr (.inr (.inl ?_))
        simp [herror]
      · intro hf
        simp at hf
  | pushDropped item hin hd =>
      refine .of_running (settle_running hs) ?_ ?_
      · exact fun _ => .inl hd
      · exact fun _ => .inl hd
  | flushedLast hin =>
      have hsig : Signalled ({ s with incoming := .done } : Client).settle := by
        refine (h.flushing hin).frame ?_ rfl rfl id
        simp [hs, Task.failed, Task.result]
      exact .of_running (settle_running hs) (fun _ => hsig) (fun _ => hsig)

/-- A read takes an error out of the channel only to report it. -/
theorem Signalled.resume (h : Signalled s) (op : Op) : Signalled (s.resume op) := by
  obtain ⟨_, _, _, htask, _, _, hlog, hd⟩ := pollInner_pumps s op
  have hfailed : (s.resume op).task.failed = s.task.failed := congrArg Task.failed htask
  have hlog' : (s.resume op).log = s.log ++ [(op, (s.pollInner op).2)] := by
    simp [Client.resume, report, hlog]
  rcases h with h | h | h | h
  · exact .inl (hd.trans h)
  · exact .inr (.inl (hfailed.trans h))
  · by_cases hkept : (s.resume op).responses.any Item.isError = true
    · exact .inr (.inr (.inl hkept))
    · refine .inr (.inr (.inr ?_))
      rw [hlog', List.any_append]
      cases op with
      | read room =>
          by_cases hroom : room = 0
          · simp [Client.resume, report, pollInner, pollRead, hroom, h] at hkept
          · by_cases hdrained : Drained s.chunk s.responses
            · obtain ⟨item, hitem, herror⟩ := List.any_eq_true.mp h
              rw [hdrained.2 item hitem] at herror
              simp [Item.isError] at herror
            · rcases fillBuf_of_not_drained s.responseTx hdrained with
                ⟨bytes, rest, heq, _, _, herrors⟩ | ⟨message, rest, heq, _⟩
              · simp [Client.resume, report, pollInner, pollRead, hroom, heq, herrors, h] at hkept
              · simp [pollInner, pollRead, hroom, heq, failure]
      | write buf | writeVectored bufs =>
          simp only [Client.resume, report, pollInner, pollWrite] at hkept
          split at hkept
          · split at hkept <;> exact absurd h hkept
          · split at hkept <;> exact absurd h hkept
      | flush | shutdown => exact absurd h hkept
  · refine .inr (.inr (.inr ?_))
    rw [hlog', List.any_append, h, Bool.true_or]

theorem Ending.resume (h : Ending s) (op : Op) : Ending (s.resume op) := by
  obtain ⟨hin, hout, hconn, htask, _, _, _, hd⟩ := pollInner_pumps s op
  have hjoined : (s.resume op).joined = s.joined := by
    simp [Client.resume, report, Client.joined, hin, hout, hconn]
  constructor
  · intro ha
    exact hd.trans (h.aborted (htask.symm.trans ha))
  · intro hr
    rw [hjoined]
    refine h.joined ?_
    rw [← htask]
    exact hr
  · intro hf
    exact (h.flushing (hin.symm.trans hf)).resume op
  · intro hf
    exact (h.done (hin.symm.trans hf)).resume op

theorem ending_of_reachable (hs : (machine env).Reachable s) : Ending s := by
  refine hs.invariant Ending.init ?_
  intro s e t _ h hstep
  have hsame : ∀ t : Client, t.task.failed = s.task.failed → t.dropped = s.dropped →
      t.responses = s.responses → (s.log.any failure = true → t.log.any failure = true) →
      Signalled s → Signalled t := fun t htask hd hqueue hlog hsig =>
    hsig.frame (fun hf => htask.trans hf) hd hqueue hlog
  cases Step.of_step hstep with
  | pollTaken | pollError | pollOk =>
      have hlog : ∀ x : Op × PollResult, s.log.any failure = true →
          (s.log ++ [x]).any failure = true := by
        intro x hx
        rw [List.any_append, hx, Bool.true_or]
      constructor
      · exact h.aborted
      · exact h.joined
      · exact fun hf => hsame _ rfl rfl rfl (hlog _) (h.flushing hf)
      · exact fun hf => hsame _ rfl rfl rfl (hlog _) (h.done hf)
  | pollPending op _ hd =>
      constructor
      · exact h.aborted
      · exact h.joined
      · exact fun hf => hsame _ rfl rfl rfl id (h.flushing hf)
      · exact fun hf => hsame _ rfl rfl rfl id (h.done hf)
  | resume op => exact h.resume op
  | drop hcall =>
      constructor
      · exact fun _ => rfl
      · exact h.joined
      · exact fun _ => .inl rfl
      · exact fun _ => .inl rfl
  | abort hd =>
      constructor
      · exact fun _ => hd
      · intro hr
        simp [Task.result] at hr
      · exact fun _ => .inl hd
      · exact fun _ => .inl hd
  | io e t htask hio => exact h.io htask hio
  | tearDown r htask | publish r htask =>
      have hresult : s.task.result = some r := by rw [htask]; rfl
      have hfailed : s.task.failed = match some r with | some (.error _) => true | _ => false := by
        rw [Task.failed, hresult]
      constructor
      · intro ha
        simp at ha
      · exact fun hr => h.joined (hresult.trans hr)
      · exact fun hf => hsame _ hfailed.symm rfl rfl id (h.flushing hf)
      · exact fun hf => hsame _ hfailed.symm rfl rfl id (h.done hf)

/-- Nothing is put into a closed request channel. -/
theorem pollInner_of_closed (op : Op) (h : s.senderOpen = false) :
    (s.pollInner op).1.senderOpen = false ∧ (s.pollInner op).1.slot = s.slot := by
  cases op with
  | read room =>
      simp only [pollInner, pollRead]
      split
      · exact ⟨h, rfl⟩
      · split <;> exact ⟨h, rfl⟩
  | write buf | writeVectored bufs =>
      simp only [pollInner, pollWrite, h, Bool.false_eq_true, false_and, if_false]
      split <;> simp [h]
  | flush => exact ⟨h, rfl⟩
  | shutdown => exact ⟨rfl, rfl⟩

/-- `pump_outgoing` ends when a request fails, or when the owner has shut the connection down
and all of its chunks are acknowledged. -/
theorem outgoing_done (hs : (machine env).Reachable s) (hout : s.outgoing = .done) :
    s.task.failed = true ∨ s.senderOpen = false ∧ s.slot = none ∧ s.taken = s.acked := by
  refine hs.invariant (I := fun s => s.outgoing = .done →
    s.task.failed = true ∨ s.senderOpen = false ∧ s.slot = none ∧ s.taken = s.acked) ?_ ?_ hout
  · intro h
    cases h
  intro s e t hs h hstep hd
  have hrunning : s.task = .running → s.outgoing = .done →
      s.senderOpen = false ∧ s.slot = none ∧ s.taken = s.acked := by
    intro htask hout
    rcases h hout with hf | hall
    · simp [htask, Task.failed, Task.result] at hf
    · exact hall
  cases Step.of_step hstep with
  | resume op =>
      obtain ⟨_, hout, _, htask, htaken, hacked, _, _⟩ := pollInner_pumps s op
      have hfailed : (s.resume op).task.failed = s.task.failed := congrArg Task.failed htask
      rcases h (hout.symm.trans hd) with hf | ⟨hsender, hslot, hall⟩
      · exact .inl (hfailed.trans hf)
      · obtain ⟨hsender', hslot'⟩ := pollInner_of_closed op hsender
        exact .inr ⟨hsender', hslot'.trans hslot, htaken.trans (hall.trans hacked.symm)⟩
  | drop => exact (h hd).imp_right fun hclosed => ⟨rfl, hclosed.2⟩
  | abort _ htask => exact .inr (hrunning htask hd)
  | io e t htask hio =>
      cases hio with
      | recvClosed first path hidle hslot hclosed =>
          have htaken := (outbox_of_reachable hs).taken (by simp [hidle])
          refine .inr ⟨hclosed, hslot, ?_⟩
          simp only [hidle, Outgoing.inFlight, List.append_nil] at htaken
          exact htaken
      | noWriteRequest | writeStatus | writeError => exact .inl rfl
      | recv | writeNoContent => cases hd
      | _ => exact .inr (hrunning htask hd)
  | tearDown r htask | publish r htask =>
      have hfailed := congrArg Task.failed htask
      exact (h hd).imp_left hfailed.symm.trans
  | _ => exact h hd

theorem resume_log (s : Client) (op : Op) :
    (s.resume op).log = s.log ++ [(op, (s.pollInner op).2)] := by
  obtain ⟨_, _, _, _, _, _, hlog, _⟩ := pollInner_pumps s op
  simp [Client.resume, report, hlog]

/-- A poll reports the end of the stream when it reads a closed channel that has
nothing left. -/
theorem endOfStream_pollInner (s : Client) (op : Op) :
    endOfStream (op, (s.pollInner op).2) = true ↔
      ∃ room, op = .read room ∧ 0 < room ∧ Drained s.chunk s.responses ∧ s.responseTx = false := by
  cases op with
  | read room =>
      by_cases hroom : room = 0
      · subst hroom
        simp [endOfStream, pollInner, pollRead]
      · have hpos : 0 < room := Nat.pos_of_ne_zero hroom
        by_cases hdrained : Drained s.chunk s.responses
        · cases htx : s.responseTx <;>
            simp [endOfStream, pollInner, pollRead, hroom, hpos, fillBuf_of_drained hdrained, htx,
              hdrained]
        · rcases fillBuf_of_not_drained s.responseTx hdrained with
            ⟨bytes, rest, heq, hne, _, _⟩ | ⟨message, rest, heq, _⟩
          · cases bytes with
            | nil => exact absurd rfl hne
            | cons b bs =>
                obtain ⟨room, rfl⟩ := Nat.exists_eq_succ_of_ne_zero hroom
                simp [endOfStream, pollInner, pollRead, heq, hdrained]
          · simp [endOfStream, pollInner, pollRead, hroom, heq, hdrained]
  | write buf | writeVectored bufs | flush | shutdown => simp [endOfStream]

/-- Once the task has failed and its channel end is gone, no read polls the channel
empty before an error is reported. -/
def NoSilentRead (s : Client) : ClientEvent → Prop
  | .resume => ∀ room, s.call = some (.read room) → 0 < room → Drained s.chunk s.responses →
      s.task.failed = true → s.responseTx = false → s.log.any failure = true
  | _ => True

/-- The channel of a task that has not failed ends with an error. -/
theorem Ending.failed_of_closed (h : Ending s) (hd : s.dropped = false)
    (hdrained : Drained s.chunk s.responses) (htx : s.responseTx = false) :
    s.task.failed = true ∨ s.log.any failure = true := by
  have hnone : s.responses.any Item.isError = false := by
    rw [List.any_eq_false]
    intro item hitem
    rw [hdrained.2 item hitem]
    exact Bool.false_ne_true
  have hof : Signalled s → s.task.failed = true ∨ s.log.any failure = true := by
    intro hsig
    simpa [Signalled, hd, hnone] using hsig
  by_cases hdone : s.incoming = .done
  · exact hof (h.done hdone)
  · have hheld : s.task.holdsFuture = false := by simpa [responseTx, hdone] using htx
    cases htask : s.task with
    | running | returned r => simp [htask, Task.holdsFuture] at hheld
    | aborted => exact absurd (h.aborted htask) (by simp [hd])
    | tornDown r | complete r =>
        cases r with
        | error e => exact .inl rfl
        | ok =>
            have hj : s.joined = true := h.joined (by rw [htask]; rfl)
            simp [Client.joined, hdone] at hj

theorem endAfterError_step (hs : (machine env).Reachable s) (h : EndAfterError s.log)
    {e : ClientEvent} (hstep : step env s e = some t) :
    EndAfterError t.log ↔ NoSilentRead s e := by
  have hending : Ending s := ending_of_reachable hs
  cases Step.of_step hstep with
  | resume op hcall =>
      rw [resume_log, endAfterError_concat, endOfStream_pollInner]
      constructor
      · rintro ⟨_, hend⟩ room hop hroom hdrained _ htx
        obtain rfl : op = .read room := Option.some.inj (hcall.symm.trans hop)
        exact hend ⟨room, rfl, hroom, hdrained, htx⟩
      · intro hread
        refine ⟨h, ?_⟩
        rintro ⟨room, rfl, hroom, hdrained, htx⟩
        have hd : s.dropped = false := (inbox_of_reachable hs).call (by simp [hcall])
        rcases hending.failed_of_closed hd hdrained htx with hfailed | hlog
        · exact hread room hcall hroom hdrained hfailed htx
        · exact hlog
  | pollTaken op | pollError op | pollOk op =>
      refine iff_of_true ?_ trivial
      refine endAfterError_concat.mpr ⟨h, ?_⟩
      intro hend
      rw [endOfStream_of_ne] at hend
      · exact absurd hend Bool.false_ne_true
      · simp
  | io e t _ hio => cases hio <;> exact iff_of_true h trivial
  | _ => exact iff_of_true h trivial

/-- A run shows no end of stream before an error if and only if no read polls the
drained channel of a failed task before an error is reported. -/
theorem run_noSilentRead_iff_endAfterError {es : List ClientEvent}
    (h : (machine env).Run (fun _ _ => True) es s) :
    (machine env).Run NoSilentRead es s ↔
      ∀ fs u, fs <+: es → (machine env).Run (fun _ _ => True) fs u → EndAfterError u.log := by
  refine Machine.run_iff_forall_prefix (P := fun s => EndAfterError s.log)
    endAfterError_nil ?_ ?_ h
  · intro s e t hs hend hc hstep
    exact (endAfterError_step hs hend hstep).mpr hc
  · intro s e t hs hend hc hstep hend'
    exact hc ((endAfterError_step hs hend hstep).mp hend')

/-- The response to the first `GET` fails, and a read sees it in the join handle. -/
def readAfterPublish : List ClientEvent :=
  [.io (.sendRead 0), .io (.readError "connection closed"), .tearDown, .publish, .poll (.read 8)]

/-- The same failure, in the middle of a read. -/
def readBeforePublish : List ClientEvent :=
  [.io (.sendRead 0), .poll (.read 8), .io (.readError "connection closed"), .resume]

theorem readAfterPublish_endAfterError :
    ∃ s, s.log.any failure = true ∧ ((machine sampleEnv).Run NoSilentRead readAfterPublish s ↔
      ∀ fs u, fs <+: readAfterPublish → (machine sampleEnv).Run (fun _ _ => True) fs u →
        EndAfterError u.log) := by
  obtain ⟨s, hrun, hlog⟩ := Machine.exists_run (M := machine sampleEnv)
    (P := fun s => s.log.any failure = true) readAfterPublish (by decide)
  exact ⟨s, hlog, run_noSilentRead_iff_endAfterError hrun⟩

theorem readBeforePublish_not_endAfterError :
    ∃ s, (machine sampleEnv).Run (fun _ _ => True) readBeforePublish s ∧
      s.log = [(.read 8, .filled [])] ∧ ¬ EndAfterError s.log := by
  obtain ⟨s, hrun, hlog⟩ := Machine.exists_run (M := machine sampleEnv)
    (P := fun s => s.log = [(.read 8, .filled [])]) readBeforePublish (by decide)
  refine ⟨s, hrun, hlog, ?_⟩
  intro hend
  exact absurd (hend [] _ [] hlog (by decide)) (by decide)

/-- The I/O task has not ended well under a connection that lives, and `check_err` has
not met such an end. -/
structure NeverOk (s : Client) : Prop where
  task : s.dropped = false → s.task.result ≠ some (.ok ())
  log : ∀ op, (op, .unreachable) ∉ s.log

/-- The step is not the last of three under a connection that lives: `pump_incoming` has
handed over a body's error, `pump_outgoing` has come to the end of a shut-down channel,
and the HTTP connection has ended without an error. -/
def NotLastOk (s : Client) : ClientEvent → Prop
  | .io .connOk => s.dropped = false → ¬ (s.incoming = .done ∧ s.outgoing = .done)
  | .io .flushed => s.dropped = false →
      ¬ (s.incoming = .flushing true ∧ s.outgoing = .done ∧ s.connDone = true)
  | .io (.recv _) => s.dropped = false →
      ¬ (s.slot = none ∧ s.incoming = .done ∧ s.connDone = true)
  | _ => True

theorem NeverOk.frame (h : NeverOk s) (hd : t.dropped = false → s.dropped = false)
    (htask : t.task.result = s.task.result) (hlog : t.log = s.log) : NeverOk t := by
  constructor
  · intro hd'
    rw [htask]
    exact h.task (hd hd')
  · rw [hlog]
    exact h.log

/-- The task is over with an error, or goes on. -/
theorem NeverOk.of_task (h : NeverOk s) (htask : t.task.result ≠ some (.ok ()))
    (hlog : t.log = s.log) : NeverOk t := by
  constructor
  · exact fun _ => htask
  · rw [hlog]
    exact h.log

theorem NeverOk.settle (h : NeverOk s) (hlog : t.log = s.log) (htask : t.task = .running) :
    NeverOk t.settle ↔ (t.dropped = false → t.joined = false) := by
  by_cases hj : t.joined = true
  · have hresult : t.settle.task.result = some (.ok ()) := by
      simp [Client.settle, hj, Task.result]
    constructor
    · intro hn hd
      exact absurd hresult (hn.task hd)
    · intro hd
      constructor
      · intro hd'
        exact absurd (hd hd') (by simp [hj])
      · exact fun op => hlog ▸ h.log op
  · have hresult : t.settle.task.result = none := by
      simp [Client.settle, hj, htask, Task.result]
    refine iff_of_true ?_ fun _ => eq_false_of_ne_true hj
    exact h.of_task (by simp [hresult]) hlog

theorem pollInner_ne_unreachable (s : Client) (op : Op) :
    (s.pollInner op).2 ≠ .unreachable := by
  cases op with
  | read room =>
      simp only [pollInner, pollRead]
      split
      · simp
      · split <;> simp
  | write buf | writeVectored bufs =>
      simp only [pollInner, pollWrite]
      split
      · split <;> simp
      · split <;> simp
  | flush | shutdown => simp [pollInner, pollFlush, pollShutdown]

theorem NeverOk.report {op : Op} {res : PollResult} (h : NeverOk s) (hd : t.dropped = s.dropped)
    (htask : t.task = s.task) (hlog : t.log = s.log ++ [(op, res)]) (hres : res ≠ .unreachable) :
    NeverOk t := by
  constructor
  · rw [hd, htask]
    exact h.task
  · intro op' hmem
    rw [hlog, List.mem_append, List.mem_singleton] at hmem
    rcases hmem with hmem | heq
    · exact h.log op' hmem
    · exact hres (congrArg Prod.snd heq).symm

theorem neverOk_io {e : IoEvent} (h : NeverOk s) (htask : s.task = .running)
    (hio : Io env s e t) : NeverOk t ↔ NotLastOk s (.io e) := by
  cases hio with
  | connOk hconn =>
      refine (h.settle ?_ ?_).trans ?_
      · rfl
      · exact htask
      · simp [NotLastOk, joined]
  | recvClosed first path hout hslot =>
      refine (h.settle ?_ ?_).trans ?_
      · rfl
      · exact htask
      · simp [NotLastOk, joined, hslot]
  | flushedLast hin =>
      refine (h.settle ?_ ?_).trans ?_
      · rfl
      · exact htask
      · simp [NotLastOk, joined, hin]
  | pushDropped item hin hd =>
      refine iff_of_true ?_ trivial
      refine (h.settle ?_ ?_).mpr ?_
      · rfl
      · exact htask
      · intro hd'
        exact absurd (hd.symm.trans hd') Bool.false_ne_true.symm
  | flushed hin =>
      refine iff_of_true (h.frame id rfl rfl) ?_
      simp [NotLastOk, hin]
  | recv first chunk path req hout hslot hreq =>
      refine iff_of_true (h.frame id rfl rfl) ?_
      simp [NotLastOk, hslot]
  | noWriteRequest first chunk path hout hslot hreq =>
      refine iff_of_true (h.of_task (by simp [fail, Task.result]) rfl) ?_
      simp [NotLastOk, hslot]
  | connError | noReadRequest | readStatus | readError | writeStatus | writeError =>
      exact iff_of_true (h.of_task (by simp [fail, Task.result]) rfl) trivial
  | _ => exact iff_of_true (h.frame id rfl rfl) trivial

theorem neverOk_step (h : NeverOk s) {e : ClientEvent} (hstep : step env s e = some t) :
    NeverOk t ↔ NotLastOk s e := by
  cases Step.of_step hstep with
  | io e t htask hio => exact neverOk_io h htask hio
  | pollTaken op | pollError op =>
      exact iff_of_true (h.report rfl rfl rfl (by simp)) trivial
  | pollOk op _ hd _ htask =>
      refine absurd ?_ (h.task hd)
      rw [htask]
      rfl
  | pollPending op => exact iff_of_true (h.frame id rfl rfl) trivial
  | resume op =>
      obtain ⟨_, _, _, htask, _, _, _, hd⟩ := pollInner_pumps s op
      exact iff_of_true
        (h.report hd htask (resume_log s op) (pollInner_ne_unreachable s op)) trivial
  | drop hcall hd => exact iff_of_true (h.frame (fun _ => hd) rfl rfl) trivial
  | abort => exact iff_of_true (h.of_task (by simp [Task.result]) rfl) trivial
  | tearDown r htask | publish r htask =>
      refine iff_of_true (h.frame id ?_ rfl) trivial
      rw [htask]
      rfl

/-- A run keeps the I/O task from ending well under a connection that lives if and only
if the three `Ok`s that this takes never meet. -/
theorem run_notLastOk_iff_neverOk {es : List ClientEvent}
    (h : (machine env).Run (fun _ _ => True) es s) :
    (machine env).Run NotLastOk es s ↔
      ∀ fs u, fs <+: es → (machine env).Run (fun _ _ => True) fs u → NeverOk u := by
  refine Machine.run_iff_forall_prefix ?_ ?_ ?_ h
  · exact ⟨fun _ => by simp [machine, Client.init, Task.result], by simp [machine, Client.init]⟩
  · intro s e t _ hn hc hstep
    exact (neverOk_step hn hstep).mpr hc
  · intro s e t _ hn hc hstep hn'
    exact hc ((neverOk_step hn hstep).mp hn')

/-- The response body ends in an error, the owner shuts its side down, and the requests
over, the HTTP connection ends. -/
def allOk : List ClientEvent :=
  [.io (.sendRead 0), .io (.readResponse .ok), .io (.frame (.error "stream reset")), .io .push,
    .io .flushed, .poll .shutdown, .resume, .io (.recv 0), .io .connOk, .tearDown, .publish,
    .poll (.read 8)]

/-- The same with a connection that fails. -/
def connectionFails : List ClientEvent :=
  [.io (.sendRead 0), .io (.readResponse .ok), .io (.frame (.error "stream reset")), .io .push,
    .io .flushed, .poll .shutdown, .resume, .io (.recv 0), .io (.connError "broken pipe")]

theorem connectionFails_neverOk :
    ∃ s, s.task.failed = true ∧ ((machine sampleEnv).Run NotLastOk connectionFails s ↔
      ∀ fs u, fs <+: connectionFails → (machine sampleEnv).Run (fun _ _ => True) fs u →
        NeverOk u) := by
  obtain ⟨s, hrun, htask⟩ := Machine.exists_run (M := machine sampleEnv)
    (P := fun s => s.task.failed = true) connectionFails (by decide)
  exact ⟨s, htask, run_notLastOk_iff_neverOk hrun⟩

theorem allOk_unreachable :
    ∃ s, (machine sampleEnv).Run (fun _ _ => True) allOk s ∧ s.dropped = false ∧
      s.log = [(.shutdown, .ready), (.read 8, .unreachable)] ∧ ¬ NeverOk s := by
  obtain ⟨s, hrun, hd, hlog⟩ := Machine.exists_run (M := machine sampleEnv)
    (P := fun s => s.dropped = false ∧ s.log = [(.shutdown, .ready), (.read 8, .unreachable)])
    allOk (by decide)
  refine ⟨s, hrun, hd, hlog, ?_⟩
  intro hn
  exact hn.log (.read 8) (by simp [hlog])

end Client
end Fronting
