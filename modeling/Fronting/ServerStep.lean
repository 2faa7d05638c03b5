import Fronting.Server
import Mathlib.Tactic.Common

/-!
# What one step of the server can do

`Session.Own` and `Server.Step` list the branches of `Session.step` and
`Server.step` with the guards under which each is taken. The invariants of the
server are proved by cases on them.
-/

namespace Fronting.Session

variable {env : ServerEnv} {now : Nat} {A A' : Session} {e : ActorEvent}

/-- The branches of `Session.step`. -/
inductive Own (env : ServerEnv) (now : Nat) (A : Session) : ActorEvent → Session → Prop
  | start (hlife : A.life = .spawned) : Own env now A .start (A.onStart env now)
  | connect (txCap rxCap : Nat) (hlife : A.life = .starting) (hspared : A.killed = false) :
      Own env now A (.connect txCap rxCap) (A.connected env now (.connect txCap rxCap))
  | connectKilled (txCap rxCap : Nat) (hlife : A.life = .starting) (hkilled : A.killed) :
      Own env now A (.connect txCap rxCap)
        ((A.connected env now (.connect txCap rxCap)).closeMailbox .closed)
  | connectError (hlife : A.life = .starting) :
      Own env now A .connectError (A.closeMailbox .failed)
  | write (n : Nat) (w : Writing) (hw : A.handling = some w) (hlife : A.life = .running)
      (hpos : 0 < n) (hlen : w.offset + n ≤ w.bytes.length)
      (hroom : A.upstream.tx.length + n ≤ A.upstream.txCap) :
      Own env now A (.write n)
        { A with handling := some { w with offset := w.offset + n }
                 upstream := A.upstream.write ((w.bytes.drop w.offset).take n) }
  | close (hlife : A.life = .stopping) : Own env now A .close (A.closeMailbox .closed)
  | abort (hkilled : A.killed) (hlife : A.life = .running ∨ A.life = .stopping) :
      Own env now A .abort (A.closeMailbox .closed)
  | fire (i : Nat) (timer : Timer) (htimer : A.timers[i]? = some timer)
      (harmed : timer.status = .armed) (hdue : timer.deadline ≤ now) :
      Own env now A (.fire i)
        { A with timers := A.timers.modify i fun t => { t with status := .fired }
                 killed := true }
  | upstreamTake (n : Nat) (hup : A.hasUpstream) (hpos : 0 < n) (hlen : n ≤ A.upstream.tx.length) :
      Own env now A (.upstreamTake n) { A with upstream := A.upstream.take n }
  | upstreamSend (bytes : Bytes) (hup : A.hasUpstream) (hopen : A.upstream.eof = false)
      (hpos : 0 < bytes.length) (hroom : A.upstream.rx.length + bytes.length ≤ A.upstream.rxCap) :
      Own env now A (.upstreamSend bytes) { A with upstream := A.upstream.send bytes }
  | upstreamEof (hup : A.hasUpstream) (hopen : A.upstream.eof = false) :
      Own env now A .upstreamEof { A with upstream := { A.upstream with eof := true } }

theorem isAlive_of_running (hlife : A.life = .running) : A.isAlive = true := by
  simp [isAlive, hlife, Life.mailboxOpen]

theorem Own.of_step (h : A.step env now e = some A') : Own env now A e A' := by
  cases e with
  | start =>
      simp only [step, Option.ite_none_right_eq_some, Option.some.injEq] at h
      exact h.2 ▸ .start h.1
  | connect txCap rxCap =>
      simp only [step, Option.ite_none_right_eq_some, Option.some.injEq] at h
      obtain ⟨hlife, rfl⟩ := h
      by_cases hkilled : A.killed = true
      · rw [if_pos hkilled]
        exact .connectKilled txCap rxCap hlife hkilled
      · rw [if_neg hkilled]
        exact .connect txCap rxCap hlife (eq_false_of_ne_true hkilled)
  | connectError =>
      simp only [step, Option.ite_none_right_eq_some, Option.some.injEq] at h
      exact h.2 ▸ .connectError h.1
  | write n =>
      cases hw : A.handling with
      | none => simp [step, hw] at h
      | some w =>
          simp only [step, hw, Option.ite_none_right_eq_some, Option.some.injEq] at h
          obtain ⟨⟨hlife, hpos, hlen, hroom⟩, rfl⟩ := h
          exact .write n w hw hlife hpos hlen hroom
  | close =>
      simp only [step, Option.ite_none_right_eq_some, Option.some.injEq] at h
      exact h.2 ▸ .close h.1
  | abort =>
      simp only [step, Option.ite_none_right_eq_some] at h
      obtain ⟨hkilled, h⟩ := h
      cases hlife : A.life <;> simp only [hlife, Option.some.injEq, reduceCtorEq] at h
      · exact h ▸ .abort hkilled (.inl hlife)
      · exact h ▸ .abort hkilled (.inr hlife)
  | fire i =>
      cases htimer : A.timers[i]? with
      | none => simp [step, htimer] at h
      | some timer =>
          simp only [step, htimer, Option.ite_none_right_eq_some, Option.some.injEq] at h
          exact h.2 ▸ .fire i timer htimer h.1.1 h.1.2
  | upstreamTake n =>
      simp only [step, Option.ite_none_right_eq_some, Option.some.injEq] at h
      exact h.2 ▸ .upstreamTake n h.1.1 h.1.2.1 h.1.2.2
  | upstreamSend bytes =>
      simp only [step, Option.ite_none_right_eq_some, Option.some.injEq] at h
      exact h.2 ▸ .upstreamSend bytes h.1.1 h.1.2.1 h.1.2.2.1 h.1.2.2.2
  | upstreamEof =>
      simp only [step, Option.ite_none_right_eq_some, Option.some.injEq] at h
      exact h.2 ▸ .upstreamEof h.1.1 h.1.2

theorem Own.step_eq (h : Own env now A e A') : A.step env now e = some A' := by
  cases h with
  | start hlife | connectError hlife | close hlife => simp [step, hlife]
  | connect _ _ hlife hspared => simp [step, hlife, hspared]
  | connectKilled _ _ hlife hkilled => simp [step, hlife, hkilled]
  | write n w hw hlife hpos hlen hroom => simp [step, hw, hlife, hpos, hlen, hroom]
  | abort hkilled hlife => rcases hlife with hl | hl <;> simp [step, hkilled, hl]
  | fire i timer htimer harmed hdue => simp [step, htimer, harmed, hdue]
  | upstreamTake n hup hpos hlen => simp [step, hup, hpos, hlen]
  | upstreamSend bytes hup hopen hpos hroom =>
      simpa [step, hup, hopen, hroom] using List.length_pos_iff.mp hpos
  | upstreamEof hup hopen => simp [step, hup, hopen]

end Fronting.Session

namespace Fronting.Server

open Function (update)

variable {env : ServerEnv} {s t : Server}

section Projections

variable (s : Server) (a : ActorRef) (A : Session) (r : ReqId) (R : Call) (st : ReadStream)
  (x : Uuid) (b : Bool)

@[simp] theorem setActor_actors : (s.setActor a A).actors = update s.actors a (some A) := rfl
@[simp] theorem setActor_calls : (s.setActor a A).calls = s.calls := rfl
@[simp] theorem setActor_streams : (s.setActor a A).streams = s.streams := rfl
@[simp] theorem setActor_sessions : (s.setActor a A).sessions = s.sessions := rfl
@[simp] theorem setActor_now : (s.setActor a A).now = s.now := rfl
@[simp] theorem setCall_actors : (s.setCall r R).actors = s.actors := rfl
@[simp] theorem setCall_calls : (s.setCall r R).calls = update s.calls r (some R) := rfl
@[simp] theorem setCall_streams : (s.setCall r R).streams = s.streams := rfl
@[simp] theorem setCall_sessions : (s.setCall r R).sessions = s.sessions := rfl
@[simp] theorem setCall_now : (s.setCall r R).now = s.now := rfl
@[simp] theorem setStream_actors : (s.setStream r st).actors = s.actors := rfl
@[simp] theorem setStream_calls : (s.setStream r st).calls = s.calls := rfl
@[simp] theorem setStream_streams : (s.setStream r st).streams = update s.streams r (some st) := rfl
@[simp] theorem setStream_sessions : (s.setStream r st).sessions = s.sessions := rfl
@[simp] theorem setStream_now : (s.setStream r st).now = s.now := rfl
@[simp] theorem newSession_actors :
    (s.newSession x a).actors = update s.actors a (some (.spawn x)) := rfl
@[simp] theorem newSession_calls : (s.newSession x a).calls = s.calls := rfl
@[simp] theorem newSession_streams : (s.newSession x a).streams = s.streams := rfl
@[simp] theorem newSession_sessions :
    (s.newSession x a).sessions = update s.sessions x (some a) := rfl
@[simp] theorem newSession_now : (s.newSession x a).now = s.now := rfl

@[simp] theorem replyTo_actors : (s.replyTo r b).actors = s.actors := by
  unfold replyTo; split <;> rfl
@[simp] theorem replyTo_streams : (s.replyTo r b).streams = s.streams := by
  unfold replyTo; split <;> rfl
@[simp] theorem replyTo_sessions : (s.replyTo r b).sessions = s.sessions := by
  unfold replyTo; split <;> rfl
@[simp] theorem replyTo_now : (s.replyTo r b).now = s.now := by
  unfold replyTo; split <;> rfl

@[simp] theorem dropAbortsStep_actors :
    (s.dropAbortsStep a A).actors = update s.actors a (some A.dropAborts) := by
  unfold dropAbortsStep; dsimp only; split <;> [rfl; split] <;> rfl
@[simp] theorem dropAbortsStep_calls : (s.dropAbortsStep a A).calls = s.calls := by
  unfold dropAbortsStep; dsimp only; split <;> [rfl; split] <;> rfl
@[simp] theorem dropAbortsStep_sessions : (s.dropAbortsStep a A).sessions = s.sessions := by
  unfold dropAbortsStep; dsimp only; split <;> [rfl; split] <;> rfl

theorem replyTo_calls (r' : ReqId) :
    (s.replyTo r b).calls r' =
      if r' = r then (s.calls r).map fun R => { R with handler := onReply b R.handler }
      else s.calls r' := by
  unfold replyTo
  by_cases hr : r' = r
  · subst hr
    cases h : s.calls r' <;> simp [h]
  · cases h : s.calls r <;> simp [hr]

end Projections

theorem newSession_kept {s : Server} {fresh b : ActorRef} {B : Session} (x : Uuid)
    (hfresh : s.actors fresh = none) (hB : s.actors b = some B) :
    (s.newSession x fresh).actors b = some B := by
  have hb : b ≠ fresh := by rintro rfl; simp [hfresh] at hB
  simpa [hb] using hB

theorem newSession_cases {s : Server} {x : Uuid} {fresh b : ActorRef} {B : Session}
    (hB : (s.newSession x fresh).actors b = some B) :
    s.actors b = some B ∨ b = fresh ∧ B = .spawn x := by
  by_cases hb : b = fresh
  · subst hb
    exact .inr ⟨rfl, by simpa using hB.symm⟩
  · exact .inl (by simpa [hb] using hB)

/-- The table has no live session for `x`, so a `GET` or `POST` enters a new one. -/
def Absent (s : Server) (x : Uuid) : Prop := ∀ b, s.sessions x = some b → s.isAlive b = false

theorem Absent.of_vacant {x : Uuid} (hvacant : s.sessions x = none) : s.Absent x :=
  fun b hb => absurd (hvacant.symm.trans hb) (Option.some_ne_none b).symm

theorem Absent.of_dead {x : Uuid} {b : ActorRef} (hb : s.sessions x = some b)
    (hdead : s.isAlive b = false) : s.Absent x :=
  fun _ hb' => Option.some.inj (hb.symm.trans hb') ▸ hdead

inductive Step (env : ServerEnv) (s : Server) : ServerEvent → Server → Prop
  | tick (d : Nat) : Step env s (.tick d) { s with now := s.now + d }
  | takeStats : Step env s .takeStats s.takeStats
  | reject {r : ReqId} {req : Request} {fresh : ActorRef} (x : Option Uuid) (e : HttpError)
      (hr : s.calls r = none) (hcode : e.code = .badRequest)
      (hx : x = req.sessionId env.http env.sessionKey) :
      Step env s (.request r req fresh)
        (s.reject r req x e)
  | join {r : ReqId} {req : Request} {fresh : ActorRef} (x : Uuid) (b : ActorRef)
      (hr : s.calls r = none) (hx : req.sessionId env.http env.sessionKey = some x)
      (hb : s.sessions x = some b) (halive : s.isAlive b) :
      Step env s (.request r req fresh)
        (s.setCall r ⟨some x, req.method, some b, startHandler req.method, []⟩)
  | create {r : ReqId} {req : Request} {fresh : ActorRef} (x : Uuid)
      (hr : s.calls r = none) (hfresh : s.actors fresh = none)
      (hx : req.sessionId env.http env.sessionKey = some x)
      (hmethod : req.method = .get ∨ req.method = .post) (hvacant : s.sessions x = none) :
      Step env s (.request r req fresh)
        ((s.newSession x fresh).setCall r
          ⟨some x, req.method, some fresh, startHandler req.method, []⟩)
  | replace {r : ReqId} {req : Request} {fresh : ActorRef} (x : Uuid) (b : ActorRef)
      (hr : s.calls r = none) (hfresh : s.actors fresh = none)
      (hx : req.sessionId env.http env.sessionKey = some x)
      (hmethod : req.method = .get ∨ req.method = .post)
      (hb : s.sessions x = some b) (hdead : s.isAlive b = false) :
      Step env s (.request r req fresh)
        ((s.newSession x fresh).setCall r
          ⟨some x, req.method, some b, startHandler req.method, []⟩)
  | cancel {r : ReqId} (R : Call) (hr : s.calls r = some R) (hbusy : R.handler.inProgress) :
      Step env s (.cancel r) (s.setCall r { R with handler := .cancelled })
  | body {r : ReqId} {e : BodyEvent} (R : Call) (total : Nat)
      (hr : s.calls r = some R) (hh : R.handler = .nextChunk total) :
      Step env s (.body r e) (s.setCall r (bodyStep R total e))
  | askWrite {r : ReqId} (R : Call) (a : ActorRef) (A : Session) (total : Nat) (data : Bytes)
      (hr : s.calls r = some R) (hR : R.session = some a) (ha : s.actors a = some A)
      (hh : R.handler = .sendWrite total data) (halive : A.isAlive)
      (hroom : A.mailbox.length < env.mailboxCapacity) :
      Step env s (.ask r)
        ((s.setActor a (A.acceptWrite r data)).setCall r
          { R with handler := .awaitWrite total data })
  | askRead {r : ReqId} (R : Call) (a : ActorRef) (A : Session)
      (hr : s.calls r = some R) (hR : R.session = some a) (ha : s.actors a = some A)
      (hh : R.handler = .sendRead) (halive : A.isAlive)
      (hroom : A.mailbox.length < env.mailboxCapacity) :
      Step env s (.ask r)
        ((s.setActor a (A.enqueue (.read r))).setCall r { R with handler := .awaitRead })
  | askFailed {r : ReqId} (R : Call) (a : ActorRef) (A : Session) (e : HttpError)
      (hr : s.calls r = some R) (hR : R.session = some a) (ha : s.actors a = some A)
      (he : askError R.handler = some e) (hdead : A.isAlive = false) :
      Step env s (.askFailed r) (s.setCall r { R with handler := .done (.error e) })
  | replyWrote {r : ReqId} (R : Call) (total : Nat) (data : Bytes)
      (hr : s.calls r = some R) (hh : R.handler = .wrote total data) :
      Step env s (.reply r)
        { s.setCall r { R with handler := .nextChunk (total + data.length) } with
          stats := { s.stats with bytesTx := s.stats.bytesTx + UInt64.ofNat data.length } }
  | replyGranted {r : ReqId} (R : Call)
      (hr : s.calls r = some R) (hh : R.handler = .readReply true) :
      Step env s (.reply r) (s.setCall r { R with handler := .done (.ok streamResponse) })
  | replyRefused {r : ReqId} (R : Call)
      (hr : s.calls r = some R) (hh : R.handler = .readReply false) :
      Step env s (.reply r) (s.setCall r
        { R with handler := .done (.error ⟨"Multiple read requests are not allowed",
                                           .tooManyRequests⟩) })
  | actor {a : ActorRef} {e : ActorEvent} (A A' : Session)
      (ha : s.actors a = some A) (hA : A.step env s.now e = some A') :
      Step env s (.actor a e) (s.setActor a A')
  | handleGranted {a : ActorRef} (A : Session) (rest : List Message) (r : ReqId)
      (ha : s.actors a = some A) (hm : A.mailbox = .read r :: rest) (hlife : A.life = .running)
      (hidle : A.handling = none) (hfree : A.reader = none) :
      Step env s (.handle a)
        (((s.setActor a { A with mailbox := rest, reader := some r, upstreamReadAbort := some r
                                 opened := A.opened ++ [r] }).setStream r
          (.start a)).replyTo r true)
  | handleRefused {a : ActorRef} (A : Session) (rest : List Message) (r q : ReqId)
      (ha : s.actors a = some A) (hm : A.mailbox = .read r :: rest) (hlife : A.life = .running)
      (hidle : A.handling = none) (hheld : A.reader = some q) :
      Step env s (.handle a) ((s.setActor a { A with mailbox := rest }).replyTo r false)
  | handleWrite {a : ActorRef} (A : Session) (rest : List Message) (r : ReqId) (bytes : Bytes)
      (ha : s.actors a = some A) (hm : A.mailbox = .write r bytes :: rest)
      (hlife : A.life = .running) (hidle : A.handling = none) :
      Step env s (.handle a)
        (s.setActor a { A with mailbox := rest, handling := some ⟨r, bytes, 0⟩ })
  | handleReset {a : ActorRef} (A : Session) (rest : List Message)
      (ha : s.actors a = some A) (hm : A.mailbox = .resetIdleTimeout :: rest)
      (hlife : A.life = .running) (hidle : A.handling = none) :
      Step env s (.handle a)
        (s.setActor a (Session.resetIdleTimeout env s.now { A with mailbox := rest }))
  | writeOk {a : ActorRef} (A : Session) (w : Writing) (ha : s.actors a = some A)
      (hw : A.handling = some w) (hlife : A.life = .running) (hall : w.offset = w.bytes.length) :
      Step env s (.writeOk a) ((s.setActor a (A.writeOk env w)).replyTo w.req true)
  | writeErr {a : ActorRef} (A : Session) (w : Writing) (ha : s.actors a = some A)
      (hw : A.handling = some w) (hlife : A.life = .running) (hpart : w.offset < w.bytes.length) :
      Step env s (.writeErr a) ((s.setActor a (A.writeErr w)).replyTo w.req true)
  | dropAborts {a : ActorRef} (A : Session) (ha : s.actors a = some A) (hlife : A.life = .closed) :
      Step env s (.dropAborts a) (s.dropAbortsStep a A)
  | dropRemove {a : ActorRef} (A : Session) (ha : s.actors a = some A)
      (hlife : A.life = .dropping) : Step env s (.dropRemove a) (s.dropRemoveStep a A)
  | pollPending {r : ReqId} (st : ReadStream) (R : Call) (A : Session)
      (hst : s.streams r = some st) (hr : s.calls r = some R) (ha : s.actors st.session = some A)
      (hactive : st.active) (hresp : R.response = some streamResponse)
      (hturn : st.turn.betweenReads)
      (hwait : st.first ∨ st.turn = .reading) :
      Step env s (.poll r .pending) (s.setStream r { st with first := false, turn := .reading })
  | pollEnd {r : ReqId} {res : ReadResult} (st : ReadStream) (R : Call) (A : Session)
      (hst : s.streams r = some st) (hr : s.calls r = some R) (ha : s.actors st.session = some A)
      (hactive : st.active) (hresp : R.response = some streamResponse)
      (hturn : st.turn.betweenReads)
      (hres : res = .pending ∧ st.first = false ∧ st.turn = .idle ∨
        res = .eof ∧ A.upstream.rx = [] ∧ A.upstream.eof ∨ res = .error) :
      Step env s (.poll r res) (s.endStream r st A)
  | pollData {r : ReqId} {n : Nat} (st : ReadStream) (R : Call) (A : Session)
      (hst : s.streams r = some st) (hr : s.calls r = some R) (ha : s.actors st.session = some A)
      (hactive : st.active) (hresp : R.response = some streamResponse)
      (hturn : st.turn.betweenReads)
      (hpos : 0 < n) (hcap : n ≤ 2048) (hlen : n ≤ A.upstream.rx.length) :
      Step env s (.poll r (.data n))
        { (s.setStream r { st with first := false, turn := .telling (A.upstream.rx.take n) }
            ).setActor st.session { A with upstream := A.upstream.read n } with
          stats := { s.stats with bytesRx := s.stats.bytesRx + UInt64.ofNat n } }
  | tellSent {r : ReqId} (st : ReadStream) (A : Session) (bytes : Bytes)
      (hst : s.streams r = some st) (ha : s.actors st.session = some A)
      (hturn : st.turn = .telling bytes) (hactive : st.active) (halive : A.isAlive)
      (hroom : A.mailbox.length < env.mailboxCapacity) :
      Step env s (.tell r)
        ((s.setStream r { st with turn := .idle, frames := st.frames ++ [bytes] }).setActor
          st.session (A.enqueue .resetIdleTimeout))
  | tellSkipped {r : ReqId} (st : ReadStream) (A : Session) (bytes : Bytes)
      (hst : s.streams r = some st) (ha : s.actors st.session = some A)
      (hturn : st.turn = .telling bytes) (hactive : st.active) (hdead : A.isAlive = false) :
      Step env s (.tell r)
        (s.setStream r { st with turn := .idle, frames := st.frames ++ [bytes] })
  | pollAborted {r : ReqId} (st : ReadStream) (hst : s.streams r = some st) (habort : st.aborted)
      (hopen : st.ended = false) (hkept : st.dropped = false) :
      Step env s (.pollAborted r) (s.setStream r { st with ended := true })
  | dropStream {r : ReqId} (st : ReadStream) (A : Session) (hst : s.streams r = some st)
      (ha : s.actors st.session = some A) (hkept : st.dropped = false) :
      Step env s (.dropStream r)
        ((s.setStream r { st with dropped := true }).setActor st.session (A.release r))

theorem getOrCreate_cases (s : Server) (x : Uuid) (canCreateSession : Bool) (fresh : ActorRef) :
    (∃ b, s.sessions x = some b ∧ s.isAlive b ∧
      s.getOrCreate x canCreateSession fresh = .ok (s, b)) ∨
    (∃ b, s.sessions x = some b ∧ s.isAlive b = false ∧ canCreateSession = true ∧
      s.getOrCreate x canCreateSession fresh = .ok (s.newSession x fresh, b)) ∨
    (s.sessions x = none ∧ canCreateSession = true ∧
      s.getOrCreate x canCreateSession fresh = .ok (s.newSession x fresh, fresh)) ∨
    (s.Absent x ∧ canCreateSession = false ∧ ∃ e : HttpError, e.code = .badRequest ∧
      s.getOrCreate x canCreateSession fresh = .error e) := by
  cases hx : s.sessions x with
  | none =>
      cases canCreateSession
      · refine .inr (.inr (.inr ⟨.of_vacant hx, rfl, .badRequest "No session", rfl, ?_⟩))
        simp [getOrCreate, hx]
      · exact .inr (.inr (.inl ⟨rfl, rfl, by simp [getOrCreate, hx]⟩))
  | some b =>
      cases halive : s.isAlive b with
      | true => exact .inl ⟨b, rfl, halive, by simp [getOrCreate, hx, halive]⟩
      | false =>
          cases canCreateSession with
          | true => exact .inr (.inl ⟨b, rfl, halive, rfl, by simp [getOrCreate, hx, halive]⟩)
          | false =>
              right
              right
              right
              refine ⟨.of_dead hx halive, rfl, .badRequest "Expired session", rfl, ?_⟩
              simp [getOrCreate, hx, halive]

theorem Step.of_dispatch {r : ReqId} {req : Request} {fresh : ActorRef} {x : Uuid}
    (hr : s.calls r = none) (hfresh : s.actors fresh = none)
    (hx : req.sessionId env.http env.sessionKey = some x)
    (hmethod : ∀ name, req.method ≠ .other name) :
    Step env s (.request r req fresh) (s.dispatch r req x fresh) := by
  have hopens : decide (req.method ≠ .patch) = true → req.method = .get ∨ req.method = .post := by
    intro hcan
    cases hm : req.method <;> simp_all
  unfold dispatch
  rcases s.getOrCreate_cases x (req.method ≠ .patch) fresh with
    ⟨b, hb, halive, hget⟩ | ⟨b, hb, hdead, hcan, hget⟩ | ⟨hvacant, hcan, hget⟩ | ⟨_, _, e, he, hget⟩
  · rw [hget]
    exact .join x b hr hx hb halive
  · rw [hget]
    exact .replace x b hr hfresh hx (hopens hcan) hb hdead
  · rw [hget]
    exact .create x hr hfresh hx (hopens hcan) hvacant
  · rw [hget]
    exact .reject (some x) e hr he hx.symm

theorem Step.of_request {r : ReqId} {req : Request} {fresh : ActorRef}
    (hr : s.calls r = none) (hfresh : s.actors fresh = none) :
    Step env s (.request r req fresh) (s.handleRequestInner env r req fresh) := by
  unfold handleRequestInner
  dsimp only
  split
  · exact .reject _ _ hr rfl rfl
  · next hmethod =>
    split
    · next hx => exact .reject none _ hr rfl hx.symm
    · next x hx => exact .of_dispatch hr hfresh hx fun name hname => hmethod name hname

theorem Step.of_ask {r : ReqId} (h : step env s (.ask r) = some t) : Step env s (.ask r) t := by
  simp only [step, Option.bind_eq_bind, Option.bind_eq_some_iff] at h
  obtain ⟨R, hr, a, hR, A, ha, ⟨A', R'⟩, hask, h⟩ := h
  simp only [Option.ite_none_right_eq_some, Option.some.injEq] at h
  obtain ⟨⟨halive, hroom⟩, rfl⟩ := h
  cases hh : R.handler with
  | sendWrite total data =>
      simp only [askStep, hh, Option.some.injEq, Prod.mk.injEq] at hask
      obtain ⟨rfl, rfl⟩ := hask
      exact .askWrite R a A total data hr hR ha hh halive hroom
  | sendRead =>
      simp only [askStep, hh, Option.some.injEq, Prod.mk.injEq] at hask
      obtain ⟨rfl, rfl⟩ := hask
      exact .askRead R a A hr hR ha hh halive hroom
  | _ => simp [askStep, hh] at hask

theorem Step.of_reply {r : ReqId} (h : step env s (.reply r) = some t) :
    Step env s (.reply r) t := by
  simp only [step, Option.bind_eq_bind, Option.bind_eq_some_iff] at h
  obtain ⟨R, hr, h⟩ := h
  cases hh : R.handler with
  | wrote total data =>
      simp only [replyStep, hh, Option.some.injEq] at h
      exact h ▸ .replyWrote R total data hr hh
  | readReply granted =>
      cases granted with
      | true =>
          simp only [replyStep, hh, Option.some.injEq] at h
          exact h ▸ .replyGranted R hr hh
      | false =>
          simp only [replyStep, hh, Option.some.injEq] at h
          exact h ▸ .replyRefused R hr hh
  | _ => simp [replyStep, hh] at h

theorem Step.of_handle {a : ActorRef} (h : step env s (.handle a) = some t) :
    Step env s (.handle a) t := by
  simp only [step, Option.bind_eq_bind, Option.bind_eq_some_iff] at h
  obtain ⟨A, ha, h⟩ := h
  cases hm : A.mailbox with
  | nil => simp [hm] at h
  | cons m rest =>
      simp only [hm, Option.ite_none_right_eq_some, Option.some.injEq] at h
      obtain ⟨⟨hlife, hidle⟩, rfl⟩ := h
      cases m with
      | read r =>
          cases hreader : A.reader with
          | none =>
              simpa [handleStep, Session.handleRead, hreader] using
                Step.handleGranted A rest r ha hm hlife hidle hreader
          | some q =>
              simpa [handleStep, Session.handleRead, hreader] using
                Step.handleRefused A rest r q ha hm hlife hidle hreader
      | write r bytes => exact .handleWrite A rest r bytes ha hm hlife hidle
      | resetIdleTimeout => exact .handleReset A rest ha hm hlife hidle

theorem Step.of_poll {r : ReqId} {res : ReadResult} (h : step env s (.poll r res) = some t) :
    Step env s (.poll r res) t := by
  simp only [step, Option.bind_eq_bind, Option.bind_eq_some_iff] at h
  obtain ⟨st, hst, R, hr, A, ha, h⟩ := h
  obtain ⟨⟨hturn, hactive, hresp⟩, h⟩ := Option.ite_none_right_eq_some.mp h
  cases res with
  | pending =>
      by_cases hwait : st.first = true ∨ st.turn = .reading
      · simp only [pollStep, hwait, if_true, Option.some.injEq] at h
        exact h ▸ .pollPending st R A hst hr ha hactive hresp hturn hwait
      · simp only [pollStep, hwait, if_false, Option.some.injEq] at h
        have hidle : st.turn = .idle := by
          cases hst : st.turn <;> simp_all [Turn.betweenReads]
        exact h ▸ .pollEnd st R A hst hr ha hactive hresp hturn
          (.inl ⟨rfl, by simpa using fun hf => hwait (.inl hf), hidle⟩)
  | data n =>
      simp only [pollStep, Option.ite_none_right_eq_some, Option.some.injEq] at h
      obtain ⟨⟨hpos, hcap, hlen⟩, rfl⟩ := h
      exact .pollData st R A hst hr ha hactive hresp hturn hpos hcap hlen
  | eof =>
      simp only [pollStep, Option.ite_none_right_eq_some, Option.some.injEq] at h
      obtain ⟨⟨hrx, heof⟩, rfl⟩ := h
      exact .pollEnd st R A hst hr ha hactive hresp hturn (.inr (.inl ⟨rfl, hrx, heof⟩))
  | error =>
      simp only [pollStep, Option.some.injEq] at h
      exact h ▸ .pollEnd st R A hst hr ha hactive hresp hturn (.inr (.inr rfl))

theorem Step.of_tell {r : ReqId} (h : step env s (.tell r) = some t) : Step env s (.tell r) t := by
  simp only [step, Option.bind_eq_bind, Option.bind_eq_some_iff] at h
  obtain ⟨st, hst, A, ha, h⟩ := h
  cases hturn : st.turn with
  | telling bytes =>
      simp only [hturn, Option.ite_none_right_eq_some] at h
      obtain ⟨hactive, h⟩ := h
      cases halive : A.isAlive with
      | true =>
          simp only [tellStep, halive, if_true, Option.ite_none_right_eq_some,
            Option.some.injEq] at h
          obtain ⟨hroom, rfl⟩ := h
          exact .tellSent st A bytes hst ha hturn hactive halive hroom
      | false =>
          simp only [tellStep, halive, Bool.false_eq_true, if_false, Option.some.injEq] at h
          exact h ▸ .tellSkipped st A bytes hst ha hturn hactive halive
  | _ => simp [hturn] at h

theorem Step.of_step {e : ServerEvent} (h : step env s e = some t) : Step env s e t := by
  cases e with
  | tick d => exact Option.some.inj h ▸ .tick d
  | takeStats => exact Option.some.inj h ▸ .takeStats
  | request r req fresh =>
      simp only [step, Option.ite_none_right_eq_some, Option.some.injEq] at h
      obtain ⟨⟨hr, hfresh⟩, rfl⟩ := h
      exact .of_request hr hfresh
  | cancel r =>
      simp only [step, Option.bind_eq_bind, Option.bind_eq_some_iff] at h
      obtain ⟨R, hr, h⟩ := h
      simp only [Option.ite_none_right_eq_some, Option.some.injEq] at h
      obtain ⟨hbusy, rfl⟩ := h
      exact .cancel R hr hbusy
  | body r e =>
      simp only [step, Option.bind_eq_bind, Option.bind_eq_some_iff] at h
      obtain ⟨R, hr, h⟩ := h
      cases hh : R.handler <;> simp only [hh, reduceCtorEq, Option.some.injEq] at h
      exact h ▸ .body R _ hr hh
  | ask r => exact .of_ask h
  | askFailed r =>
      simp only [step, Option.bind_eq_bind, Option.bind_eq_some_iff] at h
      obtain ⟨R, hr, a, hR, A, ha, e, he, h⟩ := h
      simp only [Option.ite_none_left_eq_some, Option.some.injEq] at h
      exact h.2 ▸ .askFailed R a A e hr hR ha he (by simpa using h.1)
  | reply r => exact .of_reply h
  | actor a e =>
      simp only [step, Option.bind_eq_bind, Option.bind_eq_some_iff, Option.some.injEq] at h
      obtain ⟨A, ha, A', hA, rfl⟩ := h
      exact .actor A A' ha hA
  | handle a => exact .of_handle h
  | writeOk a =>
      simp only [step, Option.bind_eq_bind, Option.bind_eq_some_iff, Option.ite_none_right_eq_some,
        Option.some.injEq] at h
      obtain ⟨A, ha, w, hw, ⟨hlife, hall⟩, rfl⟩ := h
      exact .writeOk A w ha hw hlife hall
  | writeErr a =>
      simp only [step, Option.bind_eq_bind, Option.bind_eq_some_iff, Option.ite_none_right_eq_some,
        Option.some.injEq] at h
      obtain ⟨A, ha, w, hw, ⟨hlife, hpart⟩, rfl⟩ := h
      exact .writeErr A w ha hw hlife hpart
  | dropAborts a =>
      simp only [step, Option.bind_eq_bind, Option.bind_eq_some_iff, Option.ite_none_right_eq_some,
        Option.some.injEq] at h
      obtain ⟨A, ha, hlife, rfl⟩ := h
      exact .dropAborts A ha hlife
  | dropRemove a =>
      simp only [step, Option.bind_eq_bind, Option.bind_eq_some_iff, Option.ite_none_right_eq_some,
        Option.some.injEq] at h
      obtain ⟨A, ha, hlife, rfl⟩ := h
      exact .dropRemove A ha hlife
  | poll r res => exact .of_poll h
  | tell r => exact .of_tell h
  | pollAborted r =>
      simp only [step, Option.bind_eq_bind, Option.bind_eq_some_iff, Option.ite_none_right_eq_some,
        Option.some.injEq] at h
      obtain ⟨st, hst, ⟨habort, hopen, hkept⟩, rfl⟩ := h
      exact .pollAborted st hst habort hopen hkept
  | dropStream r =>
      simp only [step, Option.bind_eq_bind, Option.bind_eq_some_iff, Option.ite_none_left_eq_some,
        Option.some.injEq] at h
      obtain ⟨st, hst, A, ha, hkept, rfl⟩ := h
      exact .dropStream st A hst ha (by simpa using hkept)

/-- The converse of `Step.of_step` for the events that are not new requests. -/
theorem Step.step_eq {e : ServerEvent} (h : Step env s e t)
    (hreq : ∀ r req fresh, e ≠ .request r req fresh) : step env s e = some t := by
  cases h with
  | tick d => rfl
  | takeStats => rfl
  | reject x e hr => exact absurd rfl (hreq _ _ _)
  | join x b hr => exact absurd rfl (hreq _ _ _)
  | create x hr | replace x b hr => exact absurd rfl (hreq _ _ _)
  | cancel R hr hbusy => simp [step, hr, hbusy]
  | body R total hr hh => simp [step, hr, hh]
  | askWrite R a A total data hr hR ha hh halive hroom =>
      simp [step, askStep, hr, hR, ha, hh, halive, hroom]
  | askRead R a A hr hR ha hh halive hroom =>
      simp [step, askStep, hr, hR, ha, hh, halive, hroom]
  | askFailed R a A e hr hR ha he hdead => simp [step, hr, hR, ha, he, hdead]
  | replyWrote R total data hr hh => simp [step, replyStep, hr, hh]
  | replyGranted R hr hh => simp [step, replyStep, hr, hh]
  | replyRefused R hr hh => simp [step, replyStep, hr, hh]
  | actor A A' ha hA => simp [step, ha, hA]
  | handleGranted A rest r ha hm hlife hidle hfree =>
      simp [step, handleStep, Session.handleRead, ha, hm, hlife, hidle, hfree]
  | handleRefused A rest r q ha hm hlife hidle hheld =>
      simp [step, handleStep, Session.handleRead, ha, hm, hlife, hidle, hheld]
  | handleWrite A rest r bytes ha hm hlife hidle => simp [step, handleStep, ha, hm, hlife, hidle]
  | handleReset A rest ha hm hlife hidle => simp [step, handleStep, ha, hm, hlife, hidle]
  | writeOk A w ha hw hlife hall => simp [step, ha, hw, hlife, hall]
  | writeErr A w ha hw hlife hpart => simp [step, ha, hw, hlife, hpart]
  | dropAborts A ha hlife => simp [step, ha, hlife]
  | dropRemove A ha hlife => simp [step, ha, hlife]
  | pollPending st R A hst hr ha hactive hresp hturn hwait =>
      simp [step, pollStep, hst, hr, ha, hactive, hresp, hturn, hwait]
  | pollEnd st R A hst hr ha hactive hresp hturn hres =>
      rcases hres with ⟨rfl, hfirst, hidle⟩ | ⟨rfl, hrx, heof⟩ | rfl
      · simp [step, pollStep, hst, hr, ha, hactive, hresp, hfirst, hidle, Turn.betweenReads]
      · simp [step, pollStep, hst, hr, ha, hactive, hresp, hturn, hrx, heof]
      · simp [step, pollStep, hst, hr, ha, hactive, hresp, hturn]
  | pollData st R A hst hr ha hactive hresp hturn hpos hcap hlen =>
      simp [step, pollStep, hst, hr, ha, hactive, hresp, hturn, hpos, hcap, hlen]
  | tellSent st A bytes hst ha hturn hactive halive hroom =>
      simp [step, tellStep, hst, ha, hturn, hactive, halive, hroom]
  | tellSkipped st A bytes hst ha hturn hactive hdead =>
      simp [step, tellStep, hst, ha, hturn, hactive, hdead]
  | pollAborted st hst habort hopen hkept => simp [step, hst, habort, hopen, hkept]
  | dropStream st A hst ha hkept => simp [step, hst, ha, hkept]

end Fronting.Server
