import Fronting.ClientFailures

/-!
# Calls that meet the failure

The join handle gives its result to one call. A call after that polls it a second time, and
what the response channel still holds is not read any more. The error of the closed request
channel is for one call too.
-/

namespace Fronting

def PollResult.panics : PollResult → Bool
  | .unreachable | .polledAfterCompletion | .polledMapErr => true
  | _ => false

def PollResult.pendingOrError : PollResult → Bool
  | .pending | .error _ => true
  | _ => false

/-- No call panics, and those after the I/O task's error fail or stay pending. -/
structure SafeCalls (log : List (Op × PollResult)) : Prop where
  panics : ∀ p ∈ log, p.2.panics = false
  later : ∀ before op e after, log = before ++ (op, .error (.task e)) :: after →
    ∀ p ∈ after, p.2.pendingOrError = true

theorem safeCalls_nil : SafeCalls [] := by
  constructor
  · simp
  · intro before op e after hlog
    simp at hlog

/-- One more call, when none has returned the I/O task's error. -/
theorem safeCalls_concat {log : List (Op × PollResult)} {x : Op × PollResult}
    (h : SafeCalls log) (hnone : ∀ p ∈ log, ∀ e, p.2 ≠ .error (.task e)) :
    SafeCalls (log ++ [x]) ↔ x.2.panics = false := by
  constructor
  · intro h'
    exact h'.panics x (List.mem_append_right _ (List.mem_singleton_self x))
  · intro hx
    constructor
    · intro p hp
      rcases List.mem_append.mp hp with hp | hp
      · exact h.panics p hp
      · rwa [List.mem_singleton.mp hp]
    · intro before op e after hlog
      rcases eq_of_concat_eq hlog with ⟨_, _, rfl⟩ | ⟨rest, rfl⟩
      · simp
      · exact absurd rfl (hnone (op, .error (.task e)) (by simp) e)

namespace Client

variable {env : ClientEnv} {s t : Client} {op : Op} {room : Nat}

/-- How the log of calls stands to the join handle. -/
structure Handle (s : Client) : Prop where
  call : s.call ≠ none → s.joinTaken = false
  taken : s.joinTaken = true → ∃ r, s.task = .complete r
  log : s.joinTaken = false → ∀ p ∈ s.log, ∀ e, p.2 ≠ .error (.task e)

theorem Handle.init : Handle Client.init := by
  constructor <;> simp [Client.init]

/-- The calls and the join handle are as they were, and the task has not completed. -/
theorem Handle.frame (h : Handle s) (hcall : t.call = none ∨ t.call = s.call)
    (hjoin : t.joinTaken = s.joinTaken) (htask : s.joinTaken = true → t.task = s.task)
    (hlog : t.log = s.log) : Handle t := by
  constructor
  · rw [hjoin]
    rcases hcall with hc | hc
    · exact fun hne => absurd hc hne
    · exact hc ▸ h.call
  · rw [hjoin]
    intro hj
    rw [htask hj]
    exact h.taken hj
  · rw [hjoin, hlog]
    exact h.log

/-- What a poll does after `check_err` is not about the join handle. -/
theorem pollInner_handle (s : Client) (op : Op) :
    (s.pollInner op).1.joinTaken = s.joinTaken ∧ ∀ e, (s.pollInner op).2 ≠ .error (.task e) := by
  cases op with
  | read room =>
      simp only [pollInner, pollRead]
      split
      · simp
      · split <;> simp
  | write buf | writeVectored bufs =>
      simp only [pollInner, pollWrite]
      split
      · split <;> simp
      · split <;> simp
  | flush | shutdown => simp [pollInner, pollFlush, pollShutdown]

/-- The operation is a write, and the error of the closed request channel has been returned. -/
def ClosedAgain (s : Client) (op : Op) : Prop :=
  op.buffer ≠ none ∧ ¬ (s.senderOpen = true ∧ s.requestRx = true) ∧ s.mapErr = false

theorem pollWrite_panics (s : Client) (buf : Bytes) :
    (s.pollWrite buf).2.panics = true ↔
      ¬ (s.senderOpen = true ∧ s.requestRx = true) ∧ s.mapErr = false := by
  rcases pollWrite_cases s buf with ⟨hopen, _, heq⟩ | ⟨hopen, _, heq⟩ | ⟨_, hfirst, heq⟩ |
    ⟨hclosed, hagain, heq⟩
  · exact iff_of_false (by simp [heq, PollResult.panics]) fun h => h.1 hopen
  · exact iff_of_false (by simp [heq, PollResult.panics]) fun h => h.1 hopen
  · refine iff_of_false (by simp [heq, PollResult.panics]) fun h => ?_
    exact absurd (h.2.symm.trans hfirst) Bool.false_ne_true
  · exact iff_of_true (by simp [heq, PollResult.panics]) ⟨hclosed, hagain⟩

/-- Past `check_err`, only a write panics. -/
theorem pollInner_panics (s : Client) (op : Op) :
    (s.pollInner op).2.panics = true ↔ s.ClosedAgain op := by
  cases op with
  | read room =>
      refine iff_of_false ?_ fun h => h.1 rfl
      simp only [pollInner, pollRead]
      split
      · simp [PollResult.panics]
      · split <;> simp [PollResult.panics]
  | write buf => simpa [ClosedAgain, Op.buffer, pollInner] using pollWrite_panics s buf
  | writeVectored bufs =>
      simpa [ClosedAgain, Op.buffer, pollInner] using pollWrite_panics s bufs.flatten
  | flush | shutdown =>
      exact iff_of_false (by simp [pollInner, pollFlush, pollShutdown, PollResult.panics])
        fun h => h.1 rfl

theorem handle_of_reachable (hs : (machine env).Reachable s) : Handle s := by
  refine hs.invariant Handle.init ?_
  intro s e t _ h hstep
  cases Step.of_step hstep with
  | pollTaken op _ _ hjoin =>
      constructor
      · exact fun hne => absurd rfl hne
      · exact h.taken
      · exact fun hj => absurd (hjoin.symm.trans hj) Bool.false_ne_true.symm
  | pollError op e _ _ _ htask | pollOk op _ _ _ htask =>
      constructor
      · exact fun hne => absurd rfl hne
      · exact fun _ => ⟨_, htask⟩
      · intro hj
        cases hj
  | pollPending op _ _ hjoin =>
      constructor
      · exact fun _ => hjoin
      · exact h.taken
      · exact h.log
  | resume op hcall =>
      obtain ⟨hjoin, hres⟩ := pollInner_handle s op
      obtain ⟨_, _, _, htask, _⟩ := pollInner_pumps s op
      have hfresh : s.joinTaken = false := h.call (by simp [hcall])
      constructor
      · exact fun hne => absurd rfl hne
      · exact fun hj => absurd ((hjoin.trans hfresh).symm.trans hj) Bool.false_ne_true
      · intro _ p hp
        rw [resume_log, List.mem_append, List.mem_singleton] at hp
        rcases hp with hp | rfl
        · exact h.log hfresh p hp
        · exact hres
  | io e t htask hio =>
      obtain ⟨hcall, hjoin, hlog, _⟩ := hio.calls
      refine h.frame (.inr hcall) hjoin ?_ hlog
      intro hj
      obtain ⟨r, hr⟩ := h.taken hj
      rw [htask] at hr
      cases hr
  | drop => exact h.frame (.inr rfl) rfl (fun _ => rfl) rfl
  | abort _ htask | tearDown r htask | publish r htask =>
      refine h.frame (.inr rfl) rfl ?_ rfl
      intro hj
      obtain ⟨r, hr⟩ := h.taken hj
      rw [htask] at hr
      cases hr

/-- The call polls neither a join handle that has given its result nor one whose task has
ended well, and it is no write after the error of the closed request channel. -/
def Fresh (s : Client) : ClientEvent → Prop
  | .poll _ => s.joinTaken = false ∧ s.task ≠ .complete (.ok ())
  | .resume => ∀ op, s.call = some op → ¬ s.ClosedAgain op
  | _ => True

theorem safeCalls_step (hs : (machine env).Reachable s) (h : SafeCalls s.log) {e : ClientEvent}
    (hstep : step env s e = some t) : SafeCalls t.log ↔ Fresh s e := by
  have hhandle := handle_of_reachable hs
  cases Step.of_step hstep with
  | pollTaken op _ _ hjoin =>
      refine iff_of_false ?_ ?_
      · intro hsafe
        have hpanics := hsafe.panics (op, .polledAfterCompletion) (by simp [report])
        exact absurd hpanics.symm Bool.false_ne_true
      · rintro ⟨hfresh, _⟩
        exact absurd (hfresh.symm.trans hjoin) Bool.false_ne_true
  | pollOk op _ _ _ htask =>
      refine iff_of_false ?_ ?_
      · intro hsafe
        have hpanics := hsafe.panics (op, .unreachable) (by simp [report])
        exact absurd hpanics.symm Bool.false_ne_true
      · exact fun hfresh => hfresh.2 htask
  | pollError op e _ _ hjoin htask =>
      refine iff_of_true ((safeCalls_concat h (hhandle.log hjoin)).mpr rfl) ⟨hjoin, ?_⟩
      rw [htask]
      simp
  | pollPending op _ _ hjoin htask => exact iff_of_true h ⟨hjoin, htask _⟩
  | resume op hcall =>
      have hnone := hhandle.log (hhandle.call (by simp [hcall]))
      rw [resume_log, safeCalls_concat h hnone, ← Bool.not_eq_true, pollInner_panics]
      simp [Fresh, hcall]
  | io e t _ hio =>
      obtain ⟨_, _, hlog, _⟩ := hio.calls
      rw [hlog]
      exact iff_of_true h trivial
  | _ => exact iff_of_true h trivial

/-- A run has no call that panics if and only if none of its calls polls the join handle
after its result, or its result is `Ok`, and none of its writes meets the closed channel
again. -/
theorem run_fresh_iff_safeCalls {es : List ClientEvent}
    (h : (machine env).Run (fun _ _ => True) es s) :
    (machine env).Run Fresh es s ↔
      ∀ fs u, fs <+: es → (machine env).Run (fun _ _ => True) fs u → SafeCalls u.log := by
  refine Machine.run_iff_forall_prefix (P := fun s => SafeCalls s.log) safeCalls_nil ?_ ?_ h
  · intro s e t hs hsafe hc hstep
    exact (safeCalls_step hs hsafe hstep).mpr hc
  · intro s e t hs hsafe hc hstep hsafe'
    exact hc ((safeCalls_step hs hsafe hstep).mp hsafe')

/-- The HTTP connection fails and a read returns the error. -/
def readError : List ClientEvent :=
  [.io (.connError "broken pipe"), .tearDown, .publish, .poll (.read 8)]

theorem readError_safeCalls :
    ∃ s, s.joinTaken = true ∧ ((machine sampleEnv).Run Fresh readError s ↔
      ∀ fs u, fs <+: readError → (machine sampleEnv).Run (fun _ _ => True) fs u →
        SafeCalls u.log) := by
  obtain ⟨s, hrun, hjoin⟩ := Machine.exists_run (M := machine sampleEnv)
    (P := fun s => s.joinTaken = true) readError (by decide)
  exact ⟨s, hjoin, run_fresh_iff_safeCalls hrun⟩

/-- The writer calls after the reader has had the error. -/
theorem writeAfterError_not_safeCalls :
    ∃ s, (machine sampleEnv).Run (fun _ _ => True) (readError ++ [.poll (.write [1])]) s ∧
      s.log = [(.read 8, .error (.task (.hyper "broken pipe"))),
        (.write [1], .polledAfterCompletion)] ∧ ¬ SafeCalls s.log := by
  obtain ⟨s, hrun, hlog⟩ := Machine.exists_run (M := machine sampleEnv)
    (P := fun s => s.log = [(.read 8, .error (.task (.hyper "broken pipe"))),
      (.write [1], .polledAfterCompletion)]) (readError ++ [.poll (.write [1])]) (by decide)
  refine ⟨s, hrun, hlog, fun hsafe => ?_⟩
  have hpanics := hsafe.panics (.write [1], .polledAfterCompletion) (by simp [hlog])
  exact Bool.false_ne_true hpanics.symm

/-- Two writes after a shutdown: the first has used up the closure of `sink_map_err`. -/
example : ((machine sampleEnv).exec init [.poll .shutdown, .resume, .poll (.write [1]), .resume,
    .poll (.write [1]), .resume]).map Client.log =
      some [(.shutdown, .ready), (.write [1], .error .closed), (.write [1], .polledMapErr)] := by
  decide

/-- The bytes that `pump_incoming` has put into the response channel. -/
def forwarded (s : Client) : Bytes :=
  s.received.take (s.received.length - s.incoming.inHand.length)

/-- The bytes that the owner's next reads would get. -/
def unread (s : Client) : Bytes := s.chunk ++ queued s.responses

/-- A read returns an error only after all bytes in front of it, and the call that gets
the I/O task's error leaves none unread. -/
structure DataFirst (s : Client) : Prop where
  read : ∀ before room e after, s.log = before ++ (.read room, .error e) :: after →
    readIn before = s.forwarded
  kept : s.joinTaken = true → ∀ e, s.task = .complete (.error e) → s.unread = []

theorem DataFirst.init : DataFirst Client.init := by
  constructor
  · intro before room e after hlog
    simp [Client.init] at hlog
  · simp [Client.init]

/-- `pump_incoming` has put its last item into the response channel. -/
def Closing (s : Client) : Prop := s.incoming = .flushing true ∨ s.incoming = .done

/-- The error in the response channel comes last, and no item follows it. -/
structure ErrorLast (s : Client) : Prop where
  closing : ∀ message, .error message ∈ s.responses → Closing s
  last : ∀ item ∈ s.responses.dropLast, item.isError = false
  read : ∀ room e, (.read room, .error e) ∈ s.log → s.joinTaken = true ∨ Closing s

theorem ErrorLast.init : ErrorLast Client.init := by
  constructor <;> simp [Client.init]

theorem ErrorLast.frame (h : ErrorLast s) (hresp : t.responses = s.responses)
    (hjoin : s.joinTaken = true → t.joinTaken = true) (hin : Closing s → Closing t)
    (hlog : ∀ room e, (.read room, .error e) ∈ t.log →
      (.read room, .error e) ∈ s.log ∨ t.joinTaken = true) : ErrorLast t := by
  constructor
  · intro message hm
    exact hin (h.closing message (hresp ▸ hm))
  · rw [hresp]
    exact h.last
  · intro room e he
    rcases hlog room e he with he | he
    · exact (h.read room e he).imp hjoin hin
    · exact .inl he

theorem not_closing {s : Client} {i : Incoming} (hin : s.incoming = i) (hlast : i ≠ .flushing true)
    (hdone : i ≠ .done) : ¬ Closing s := by
  rintro (h | h)
  · exact hlast (hin.symm.trans h)
  · exact hdone (hin.symm.trans h)

theorem ErrorLast.io {e : IoEvent} (h : ErrorLast s) (hio : Io env s e t) : ErrorLast t := by
  cases hio with
  | push item hin _ hroom =>
      have hopen : ¬ Closing s := not_closing hin (by simp) (by simp)
      have hdata : ∀ i ∈ s.responses, i.isError = false := by
        intro i hi
        cases i with
        | ok bytes => rfl
        | error message => exact absurd (h.closing message hi) hopen
      constructor
      · intro message hm
        rcases List.mem_append.mp hm with hm | hm
        · exact absurd (h.closing message hm) hopen
        · rw [List.mem_singleton] at hm
          subst hm
          exact .inl rfl
      · simpa using hdata
      · intro room e he
        exact .inl ((h.read room e he).resolve_right hopen)
  | sendRead path req hin | readResponse status hin | emptyFrame hin | dataFrame bytes hin
  | bodyFinished hin | bodyError message hin | flushed hin =>
      refine h.frame rfl id (fun hc => absurd hc (not_closing hin ?_ ?_)) fun _ _ he => .inl he
      · simp
      · simp
  | noReadRequest | readStatus | readError | pushDropped | flushedLast =>
      exact h.frame rfl id (fun _ => .inr rfl) fun _ _ he => .inl he
  | _ => exact h.frame rfl id id fun _ _ he => .inl he

/-- What a poll leaves in the response channel is the end of it. -/
theorem fillBuf_suffix (tx : Bool) (chunk : Bytes) (queue : List Item) :
    (fillBuf tx chunk queue).2 <:+ queue := by
  induction queue generalizing chunk with
  | nil => cases chunk <;> exact List.suffix_rfl
  | cons item queue ih =>
      cases chunk with
      | cons b bs => exact List.suffix_rfl
      | nil =>
          cases item with
          | error message => exact List.suffix_cons _ _
          | ok bytes => exact (ih bytes).trans (List.suffix_cons _ _)

/-- An error is found behind empty items only. -/
theorem fillBuf_error {tx : Bool} {chunk : Bytes} {queue rest : List Item} {message : String}
    (h : fillBuf tx chunk queue = (.error message, rest)) :
    chunk = [] ∧ .error message :: rest <:+ queue := by
  induction queue generalizing chunk with
  | nil =>
      cases chunk with
      | nil => cases tx <;> simp [fillBuf] at h
      | cons b bs => simp [fillBuf] at h
  | cons item queue ih =>
      cases chunk with
      | cons b bs => simp [fillBuf] at h
      | nil =>
          cases item with
          | error m =>
              simp only [fillBuf, Prod.mk.injEq, Fill.error.injEq] at h
              obtain ⟨rfl, rfl⟩ := h
              exact ⟨rfl, List.suffix_rfl⟩
          | ok bytes =>
              obtain ⟨_, hsuffix⟩ := ih h
              exact ⟨rfl, hsuffix.trans (List.suffix_cons _ _)⟩

theorem pollInner_suffix (s : Client) (op : Op) :
    (s.pollInner op).1.responses <:+ s.responses := by
  cases op with
  | read room =>
      have hsuffix := fillBuf_suffix s.responseTx s.chunk s.responses
      simp only [pollInner, pollRead]
      split
      · exact List.suffix_rfl
      · split
        all_goals
          next heq =>
            rw [heq] at hsuffix
            exact hsuffix
  | write buf | writeVectored bufs =>
      simp only [pollInner, pollWrite]
      split
      · split <;> exact List.suffix_rfl
      · split <;> exact List.suffix_rfl
  | flush | shutdown => exact List.suffix_rfl

/-- A read that returns an error takes it out of the response channel. -/
theorem pollRead_error {e : PollError} (h : (s.pollInner (.read room)).2 = .error e) :
    ∃ message, s.chunk = [] ∧ (s.pollInner (.read room)).1.chunk = [] ∧
      .error message :: (s.pollInner (.read room)).1.responses <:+ s.responses := by
  simp only [pollInner, pollRead] at h ⊢
  split at h
  next => simp at h
  next hroom =>
      rw [if_neg hroom]
      split at h
      next => simp at h
      next message rest heq =>
          obtain ⟨hchunk, hsuffix⟩ := fillBuf_error heq
          exact ⟨message, hchunk, by simp, by simpa [heq] using hsuffix⟩
      next => simp at h

theorem ErrorLast.resume (h : ErrorLast s) (op : Op) : ErrorLast (s.resume op) := by
  obtain ⟨hin, _, _, _, _, _, hlog, _⟩ := pollInner_pumps s op
  obtain ⟨hjoin, _⟩ := pollInner_handle s op
  have hsuffix := pollInner_suffix s op
  have hresp : (s.resume op).responses = (s.pollInner op).1.responses := rfl
  have hclosing : Closing s → Closing (s.resume op) := by
    unfold Closing
    rw [show (s.resume op).incoming = s.incoming from hin]
    exact id
  constructor
  · intro message hm
    exact hclosing (h.closing message (hsuffix.subset hm))
  · rw [hresp]
    intro item hitem
    obtain ⟨front, hfront⟩ := hsuffix
    refine h.last item ?_
    have hne := List.ne_nil_of_mem (List.dropLast_subset _ hitem)
    rw [← hfront, List.dropLast_append_of_ne_nil hne]
    exact List.mem_append_right _ hitem
  · intro room e he
    rw [resume_log, List.mem_append, List.mem_singleton] at he
    rcases he with he | he
    · refine (h.read room e he).imp ?_ hclosing
      exact fun hj => hjoin.trans hj
    · rw [Prod.mk.injEq] at he
      obtain ⟨rfl, hres⟩ := he
      obtain ⟨message, _, _, hmem⟩ := pollRead_error hres.symm
      exact .inr (hclosing (h.closing message (hmem.subset List.mem_cons_self)))

theorem errorLast_of_reachable (hs : (machine env).Reachable s) : ErrorLast s := by
  refine hs.invariant ErrorLast.init ?_
  intro s e t _ h hstep
  cases Step.of_step hstep with
  | pollTaken op =>
      refine h.frame rfl id id fun room e he => .inl ?_
      simpa [report] using he
  | pollError op e | pollOk op =>
      exact h.frame rfl (fun _ => rfl) id fun _ _ _ => .inr rfl
  | pollPending => exact h.frame rfl id id fun _ _ he => .inl he
  | resume op hcall => exact h.resume op
  | io e t _ hio => exact h.io hio
  | drop =>
      constructor
      · simp [Client.drop]
      · simp [Client.drop]
      · exact h.read
  | _ => exact h.frame rfl id id fun _ _ he => .inl he

theorem Inbox.forwarded (h : Inbox s) (hd : s.dropped = false) :
    s.forwarded = s.delivered ++ s.unread := by
  rw [Client.forwarded, h.kept hd, List.length_append, Nat.add_sub_cancel, List.take_left,
    unread, List.append_assoc]

/-- Nothing is put into the response channel after its last item. -/
theorem Io.forwarded {e : IoEvent} (hio : Io env s e t) (h : Closing s) :
    t.forwarded = s.forwarded := by
  cases hio with
  | sendRead path req hin | noReadRequest path hin | readResponse status hin
  | readStatus status hin | readError message hin | emptyFrame hin | dataFrame bytes hin
  | bodyFinished hin | bodyError message hin | push item hin | pushDropped item hin
  | flushed hin => exact absurd h (not_closing hin (by simp) (by simp))
  | flushedLast hin => simp [Client.forwarded, settle, hin, Incoming.inHand]
  | _ => rfl

theorem Io.closing {e : IoEvent} (hio : Io env s e t) (h : Closing s) : Closing t := by
  cases hio with
  | sendRead path req hin | noReadRequest path hin | readResponse status hin
  | readStatus status hin | readError message hin | emptyFrame hin | dataFrame bytes hin
  | bodyFinished hin | bodyError message hin | push item hin | pushDropped item hin
  | flushed hin => exact absurd h (not_closing hin (by simp) (by simp))
  | flushedLast => exact .inr rfl
  | _ => exact h

/-- When a read returns an error out of the response channel, nothing is left to read. -/
theorem forwarded_of_pollRead_error {e : PollError} (hs : (machine env).Reachable s)
    (hcall : s.call = some (.read room)) (h : (s.pollInner (.read room)).2 = .error e) :
    readIn s.log = s.forwarded := by
  have hinbox := inbox_of_reachable hs
  have hd : s.dropped = false := hinbox.call (by simp [hcall])
  obtain ⟨message, hchunk, hchunk', front, hfront⟩ := pollRead_error h
  obtain ⟨_, hdelivered, hdata⟩ := pollInner_inbox s (.read room)
  have hnil : (s.pollInner (.read room)).1.responses = [] := by
    by_contra hne
    have hmem : .error message ∈ s.responses.dropLast := by
      rw [← hfront, List.dropLast_append_cons, List.dropLast_cons_of_ne_nil hne]
      simp
    exact Bool.false_ne_true ((errorLast_of_reachable hs).last _ hmem).symm
  rw [hinbox.forwarded hd, unread, ← List.append_assoc, ← hdata, hdelivered, hchunk', hnil, h,
    ← hinbox.log]
  simp [readIn]

theorem DataFirst.frame (h : DataFirst s) (hlog : t.log = s.log)
    (hforwarded : t.forwarded = s.forwarded) (hjoin : t.joinTaken = s.joinTaken)
    (htask : s.joinTaken = true → t.task = s.task)
    (hunread : s.unread = [] → t.unread = []) : DataFirst t := by
  constructor
  · rw [hlog, hforwarded]
    exact h.read
  · rw [hjoin]
    intro hj e he
    rw [htask hj] at he
    exact hunread (h.kept hj e he)

/-- One more call; if it is a read that fails, everything in front of the error was read. -/
theorem DataFirst.concat (h : DataFirst s) {x : Op × PollResult} (hlog : t.log = s.log ++ [x])
    (hforwarded : t.forwarded = s.forwarded)
    (hx : ∀ room e, x = (.read room, .error e) → readIn s.log = s.forwarded)
    (hkept : t.joinTaken = true → ∀ e, t.task = .complete (.error e) → t.unread = []) :
    DataFirst t := by
  constructor
  · intro before room e after hsplit
    rw [hforwarded]
    rw [hlog] at hsplit
    rcases eq_of_concat_eq hsplit with ⟨rfl, hx', _⟩ | ⟨rest, hrest⟩
    · exact hx room e hx'.symm
    · exact h.read before room e rest hrest
  · exact hkept

/-- The call that gets the I/O task's error finds nothing unread. -/
def NothingUnread (s : Client) : ClientEvent → Prop
  | .poll _ => s.joinTaken = false → ∀ e, s.task = .complete (.error e) → s.unread = []
  | _ => True

theorem DataFirst.step (hs : (machine env).Reachable s) (h : DataFirst s) {e : ClientEvent}
    (hc : NothingUnread s e) (hstep : step env s e = some t) : DataFirst t := by
  have hhandle := handle_of_reachable hs
  have hinbox := inbox_of_reachable hs
  cases Step.of_step hstep with
  | pollTaken op _ _ hjoin => exact h.concat rfl rfl (by simp) h.kept
  | pollError op e _ hd hjoin htask =>
      have hunread : s.unread = [] := hc hjoin e htask
      refine h.concat rfl rfl ?_ fun _ _ _ => hunread
      intro room e' _
      rw [hinbox.forwarded hd, hunread, List.append_nil, hinbox.log]
  | pollOk op _ _ _ htask =>
      refine h.concat rfl rfl (by simp) ?_
      intro _ e he
      cases htask.symm.trans he
  | pollPending op _ _ hjoin htask => exact h.frame rfl rfl rfl (fun _ => rfl) id
  | resume op hcall =>
      obtain ⟨hin, _, _, htask, _⟩ := pollInner_pumps s op
      obtain ⟨hreceived, _, _⟩ := pollInner_inbox s op
      obtain ⟨hjoin, _⟩ := pollInner_handle s op
      have hfresh : s.joinTaken = false := hhandle.call (by simp [hcall])
      refine h.concat (resume_log s op) ?_ ?_ ?_
      · simp only [forwarded, Client.resume, report, hreceived, hin]
      · intro room e hx
        obtain ⟨rfl, hres⟩ := Prod.mk.inj hx
        exact forwarded_of_pollRead_error hs hcall hres
      · intro hj
        exact absurd ((hjoin.trans hfresh).symm.trans hj) Bool.false_ne_true
  | io e t htask hio =>
      obtain ⟨_, hjoin, hlog, _⟩ := hio.calls
      have hfresh : s.joinTaken = false := by
        by_contra hj
        obtain ⟨r, hr⟩ := hhandle.taken (eq_true_of_ne_false hj)
        rw [htask] at hr
        cases hr
      constructor
      · intro before room e' after hsplit
        rw [hlog] at hsplit
        have hclosing : Closing s := by
          refine ((errorLast_of_reachable hs).read room e' ?_).resolve_left ?_
          · simp [hsplit]
          · simp [hfresh]
        rw [hio.forwarded hclosing]
        exact h.read before room e' after hsplit
      · rw [hjoin, hfresh]
        simp
  | drop =>
      refine h.frame rfl rfl rfl (fun _ => rfl) fun hunread => ?_
      simp only [unread, List.append_eq_nil_iff] at hunread
      simp [unread, Client.drop, hunread.1]
  | abort _ htask | tearDown r htask | publish r htask =>
      refine h.frame rfl rfl rfl (fun hj => ?_) id
      obtain ⟨r, hr⟩ := hhandle.taken hj
      rw [htask] at hr
      cases hr

theorem not_dataFirst_of_unread {e : ClientEvent} (hc : ¬ NothingUnread s e)
    (hstep : step env s e = some t) : ¬ DataFirst t := by
  cases e with
  | poll op =>
      simp only [NothingUnread, not_forall] at hc
      obtain ⟨hjoin, e, htask, hunread⟩ := hc
      cases Step.of_step hstep with
      | pollTaken _ _ _ hj => exact absurd (hjoin.symm.trans hj) Bool.false_ne_true
      | pollError => exact fun h => hunread (h.kept rfl e htask)
      | pollOk _ _ _ _ hok =>
          rw [htask] at hok
          cases hok
      | pollPending _ _ _ _ hpending => exact absurd htask (hpending _)
  | _ => exact absurd trivial hc

/-- A run gives its reader all data before the error, and loses none to another call,
if and only if no call gets the I/O task's error while data is left to read. -/
theorem run_nothingUnread_iff_dataFirst {es : List ClientEvent}
    (h : (machine env).Run (fun _ _ => True) es s) :
    (machine env).Run NothingUnread es s ↔
      ∀ fs u, fs <+: es → (machine env).Run (fun _ _ => True) fs u → DataFirst u := by
  refine Machine.run_iff_forall_prefix DataFirst.init ?_ ?_ h
  · intro s e t hs hdata hc hstep
    exact hdata.step hs hc hstep
  · intro s e t _ _ hc hstep
    exact not_dataFirst_of_unread hc hstep

/-- The server sends two bytes; then it refuses a write. -/
def refusedWrite : List ClientEvent :=
  [.io (.sendRead 0), .io (.readResponse .ok), .io (.frame (.data [1, 2])), .io .push,
    .io .flushed, .poll (.write [7]), .resume, .io (.recv 1), .io (.writeResponse .badRequest)]

/-- The bytes are read before the task's result is there. -/
def readThenError : List ClientEvent :=
  refusedWrite ++ [.poll (.read 8), .resume, .tearDown, .publish, .poll (.read 8)]

/-- The task's result is there before the bytes are read. -/
def errorThenNothing : List ClientEvent :=
  refusedWrite ++ [.tearDown, .publish, .poll (.read 8)]

theorem readThenError_dataFirst :
    ∃ s, s.log = [(.write [7], .written 1), (.read 8, .filled [1, 2]),
        (.read 8, .error (.task (.httpStatusCode .badRequest)))] ∧
      ((machine sampleEnv).Run NothingUnread readThenError s ↔
        ∀ fs u, fs <+: readThenError → (machine sampleEnv).Run (fun _ _ => True) fs u →
          DataFirst u) := by
  obtain ⟨s, hrun, hlog⟩ := Machine.exists_run (M := machine sampleEnv)
    (P := fun s => s.log = [(.write [7], .written 1), (.read 8, .filled [1, 2]),
      (.read 8, .error (.task (.httpStatusCode .badRequest)))]) readThenError (by decide)
  exact ⟨s, hlog, run_nothingUnread_iff_dataFirst hrun⟩

theorem errorThenNothing_not_dataFirst :
    ∃ s, (machine sampleEnv).Run (fun _ _ => True) errorThenNothing s ∧
      s.log = [(.write [7], .written 1),
        (.read 8, .error (.task (.httpStatusCode .badRequest)))] ∧
      s.forwarded = [1, 2] ∧ ¬ DataFirst s := by
  obtain ⟨s, hrun, hlog, hforwarded⟩ := Machine.exists_run (M := machine sampleEnv)
    (P := fun s => s.log = [(.write [7], .written 1),
      (.read 8, .error (.task (.httpStatusCode .badRequest)))] ∧ s.forwarded = [1, 2])
    errorThenNothing (by decide)
  refine ⟨s, hrun, hlog, hforwarded, fun h => ?_⟩
  have hread := h.read [(.write [7], .written 1)] 8 _ [] hlog
  rw [hforwarded] at hread
  simp [readIn] at hread

end Client
end Fronting
