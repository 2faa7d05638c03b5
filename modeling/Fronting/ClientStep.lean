import Fronting.Client
import Mathlib.Tactic.Common

/-!
# What one step of the client can do

`Io` and `Step` list the branches of `Client.ioStep` and `Client.step` with the guards
under which each is taken. The invariants of the client are proved by cases on them.
-/

namespace Fronting.Client

variable {env : ClientEnv} {s t : Client}

/-- The branches of `ioStep`. -/
inductive Io (env : ClientEnv) (s : Client) : IoEvent → Client → Prop
  | connOk (hconn : s.connDone = false) : Io env s .connOk { s with connDone := true }.settle
  | connError (message : String) (hconn : s.connDone = false) :
      Io env s (.connError message) (s.fail (.hyper message))
  | sendRead (path : Uuid) (req : Request) (hin : s.incoming = .start)
      (hreq : createReadRequest env.http env.config env.sessionId path = some req) :
      Io env s (.sendRead path) { s with incoming := .awaiting }
  | noReadRequest (path : Uuid) (hin : s.incoming = .start)
      (hreq : createReadRequest env.http env.config env.sessionId path = none) :
      Io env s (.sendRead path) ({ s with incoming := .done }.fail .http)
  | readResponse (status : StatusCode) (hin : s.incoming = .awaiting)
      (hstatus : status.isSuccess = true) :
      Io env s (.readResponse status) { s with incoming := .streaming }
  | readStatus (status : StatusCode) (hin : s.incoming = .awaiting)
      (hstatus : status.isSuccess = false) :
      Io env s (.readResponse status) ({ s with incoming := .done }.fail (.httpStatusCode status))
  | readError (message : String) (hin : s.incoming = .awaiting) :
      Io env s (.readError message) ({ s with incoming := .done }.fail (.hyper message))
  | emptyFrame (hin : s.incoming = .streaming) :
      Io env s (.frame (.data [])) { s with incoming := .start }
  | dataFrame (bytes : Bytes) (hin : s.incoming = .streaming) (hne : bytes ≠ []) :
      Io env s (.frame (.data bytes))
        { s with incoming := .sending (.ok bytes), received := s.received ++ bytes }
  | trailers (hin : s.incoming = .streaming) : Io env s (.frame .trailers) s
  | bodyFinished (hin : s.incoming = .streaming) :
      Io env s (.frame .finished) { s with incoming := .start }
  | bodyError (message : String) (hin : s.incoming = .streaming) :
      Io env s (.frame (.error message)) { s with incoming := .sending (.error message) }
  | push (item : Item) (hin : s.incoming = .sending item) (hdropped : s.dropped = false)
      (hroom : s.responses.length ≤ 1) :
      Io env s .push { s with responses := s.responses ++ [item]
                              incoming := .flushing item.isError }
  | pushDropped (item : Item) (hin : s.incoming = .sending item) (hdropped : s.dropped = true) :
      Io env s .push { s with incoming := .done }.settle
  | flushed (hin : s.incoming = .flushing false) (hroom : s.responses.length ≤ 1) :
      Io env s .flushed { s with incoming := .streaming }
  | flushedLast (hin : s.incoming = .flushing true) (hroom : s.responses.length ≤ 1) :
      Io env s .flushed { s with incoming := .done }.settle
  | recv (first : Bool) (chunk : Bytes) (path : Uuid) (req : Request)
      (hout : s.outgoing = .idle first) (hslot : s.slot = some chunk)
      (hreq : createWriteRequest env.http env.config env.sessionId first path = some req) :
      Io env s (.recv path)
        { s with slot := none, taken := s.taken ++ [chunk], outgoing := .awaiting first chunk }
  | noWriteRequest (first : Bool) (chunk : Bytes) (path : Uuid)
      (hout : s.outgoing = .idle first) (hslot : s.slot = some chunk)
      (hreq : createWriteRequest env.http env.config env.sessionId first path = none) :
      Io env s (.recv path)
        ({ s with slot := none, taken := s.taken ++ [chunk], outgoing := .done }.fail .http)
  | recvClosed (first : Bool) (path : Uuid) (hout : s.outgoing = .idle first)
      (hslot : s.slot = none) (hclosed : s.senderOpen = false) :
      Io env s (.recv path) { s with outgoing := .done }.settle
  | writeNoContent (first : Bool) (chunk : Bytes) (hout : s.outgoing = .awaiting first chunk) :
      Io env s (.writeResponse .noContent)
        { s with outgoing := .idle false, acked := s.acked ++ [chunk] }
  | writeStatus (first : Bool) (chunk : Bytes) (status : StatusCode)
      (hout : s.outgoing = .awaiting first chunk) (hstatus : status ≠ .noContent) :
      Io env s (.writeResponse status)
        ({ s with outgoing := .done }.fail (.httpStatusCode status))
  | writeError (first : Bool) (chunk : Bytes) (message : String)
      (hout : s.outgoing = .awaiting first chunk) :
      Io env s (.writeError message) ({ s with outgoing := .done }.fail (.hyper message))

theorem Io.of_frame {f : BodyFrame} (hin : s.incoming = .streaming) :
    Io env s (.frame f) (s.frame f) := by
  cases f with
  | data bytes =>
      cases bytes with
      | nil => exact .emptyFrame hin
      | cons b bs => exact .dataFrame (b :: bs) hin (List.cons_ne_nil b bs)
  | trailers => exact .trailers hin
  | finished => exact .bodyFinished hin
  | error message => exact .bodyError message hin

theorem Io.of_push {item : Item} (hin : s.incoming = .sending item) (h : s.push item = some t) :
    Io env s .push t := by
  rw [Client.push] at h
  by_cases hd : s.dropped = true
  · rw [if_pos hd, Option.some.injEq] at h
    exact h ▸ .pushDropped item hin hd
  · rw [if_neg hd, Option.ite_none_right_eq_some, Option.some.injEq] at h
    exact h.2 ▸ .push item hin (eq_false_of_ne_true hd) h.1

theorem Io.of_sendWrite {first : Bool} {chunk : Bytes} {path : Uuid}
    (hout : s.outgoing = .idle first) (hslot : s.slot = some chunk) :
    Io env s (.recv path) (s.sendWrite env first chunk path) := by
  cases hreq : createWriteRequest env.http env.config env.sessionId first path with
  | none =>
      simp only [sendWrite, hreq]
      exact .noWriteRequest first chunk path hout hslot hreq
  | some req =>
      simp only [sendWrite, hreq]
      exact .recv first chunk path req hout hslot hreq

theorem Io.of_recv {first : Bool} {path : Uuid} (hout : s.outgoing = .idle first)
    (h : s.recv env first path = some t) : Io env s (.recv path) t := by
  unfold Client.recv at h
  split at h
  next chunk hslot =>
      rw [Option.some.injEq] at h
      exact h ▸ .of_sendWrite hout hslot
  next hslot =>
      rw [Option.ite_none_left_eq_some, Option.some.injEq] at h
      exact h.2 ▸ .recvClosed first path hout hslot (eq_false_of_ne_true h.1)

theorem Io.of_ioStep {e : IoEvent} (h : s.ioStep env e = some t) : Io env s e t := by
  cases e with
  | connOk =>
      simp only [ioStep, Option.ite_none_left_eq_some, Bool.not_eq_true, Option.some.injEq] at h
      exact h.2 ▸ .connOk h.1
  | connError message =>
      simp only [ioStep, Option.ite_none_left_eq_some, Bool.not_eq_true, Option.some.injEq] at h
      exact h.2 ▸ .connError message h.1
  | sendRead path =>
      simp only [ioStep, Option.ite_none_right_eq_some, Option.some.injEq] at h
      obtain ⟨hin, rfl⟩ := h
      cases hreq : createReadRequest env.http env.config env.sessionId path with
      | none =>
          simp only [Client.sendRead, hreq]
          exact .noReadRequest path hin hreq
      | some req =>
          simp only [Client.sendRead, hreq]
          exact .sendRead path req hin hreq
  | readResponse status =>
      simp only [ioStep, Option.ite_none_right_eq_some, Option.some.injEq] at h
      obtain ⟨hin, rfl⟩ := h
      cases hstatus : status.isSuccess with
      | true =>
          simp only [Client.readResponse, hstatus, if_true]
          exact .readResponse status hin hstatus
      | false =>
          simp only [Client.readResponse, hstatus, Bool.false_eq_true, if_false]
          exact .readStatus status hin hstatus
  | readError message =>
      simp only [ioStep, Option.ite_none_right_eq_some, Option.some.injEq] at h
      exact h.2 ▸ .readError message h.1
  | frame f =>
      simp only [ioStep, Option.ite_none_right_eq_some, Option.some.injEq] at h
      exact h.2 ▸ .of_frame h.1
  | push =>
      cases hin : s.incoming with
      | sending item =>
          simp only [ioStep, hin] at h
          exact .of_push hin h
      | _ => simp [ioStep, hin] at h
  | flushed =>
      cases hin : s.incoming with
      | flushing last =>
          simp only [ioStep, hin, Client.flushed, Option.ite_none_right_eq_some,
            Option.some.injEq] at h
          obtain ⟨hroom, rfl⟩ := h
          cases last with
          | true => exact .flushedLast hin hroom
          | false => exact .flushed hin hroom
      | _ => simp [ioStep, hin] at h
  | recv path =>
      cases hout : s.outgoing with
      | idle first =>
          simp only [ioStep, hout] at h
          exact .of_recv hout h
      | _ => simp [ioStep, hout] at h
  | writeResponse status =>
      cases hout : s.outgoing with
      | awaiting first chunk =>
          simp only [ioStep, hout, Option.some.injEq] at h
          by_cases hstatus : status = .noContent
          · subst hstatus
            rw [Client.writeResponse, if_pos rfl] at h
            exact h ▸ .writeNoContent first chunk hout
          · rw [Client.writeResponse, if_neg hstatus] at h
            exact h ▸ .writeStatus first chunk status hout hstatus
      | _ => simp [ioStep, hout] at h
  | writeError message =>
      cases hout : s.outgoing with
      | awaiting first chunk =>
          simp only [ioStep, hout, Option.some.injEq] at h
          exact h ▸ .writeError first chunk message hout
      | _ => simp [ioStep, hout] at h

theorem Io.step_eq {e : IoEvent} (h : Io env s e t) : s.ioStep env e = some t := by
  cases h with
  | connOk hconn | connError message hconn => simp [ioStep, hconn]
  | sendRead path req hin hreq | noReadRequest path hin hreq =>
      simp [ioStep, hin, Client.sendRead, hreq]
  | readResponse status hin hstatus | readStatus status hin hstatus =>
      simp [ioStep, hin, Client.readResponse, hstatus]
  | dataFrame bytes hin hne =>
      obtain ⟨b, bs, rfl⟩ := List.exists_cons_of_ne_nil hne
      simp [ioStep, hin, Client.frame]
  | emptyFrame hin | trailers hin | bodyFinished hin | bodyError message hin =>
      simp [ioStep, hin, Client.frame]
  | push item hin hdropped hroom => simp [ioStep, hin, Client.push, hdropped, hroom]
  | pushDropped item hin hdropped => simp [ioStep, hin, Client.push, hdropped]
  | flushed hin hroom | flushedLast hin hroom => simp [ioStep, hin, Client.flushed, hroom]
  | recv first chunk path req hout hslot hreq | noWriteRequest first chunk path hout hslot hreq =>
      simp [ioStep, hout, Client.recv, hslot, Client.sendWrite, hreq]
  | recvClosed first path hout hslot hclosed =>
      simp [ioStep, hout, Client.recv, hslot, hclosed]
  | writeStatus first chunk status hout hstatus =>
      simp [ioStep, hout, Client.writeResponse, hstatus]
  | readError message hin => simp [ioStep, hin]
  | writeNoContent first chunk hout | writeError first chunk message hout =>
      simp [ioStep, hout, Client.writeResponse]

/-- A write finds the slot taken, takes it, or finds the channel closed, for the first time or
not. -/
theorem pollWrite_cases (s : Client) (buf : Bytes) :
    ((s.senderOpen = true ∧ s.requestRx = true) ∧ s.slot ≠ none ∧
      s.pollWrite buf = (s, .pending)) ∨
    ((s.senderOpen = true ∧ s.requestRx = true) ∧ s.slot = none ∧
      s.pollWrite buf = ({ s with slot := some buf, accepted := s.accepted ++ [buf] },
        .written buf.length)) ∨
    (¬ (s.senderOpen = true ∧ s.requestRx = true) ∧ s.mapErr = true ∧
      s.pollWrite buf = ({ s with mapErr := false }, .error .closed)) ∨
    (¬ (s.senderOpen = true ∧ s.requestRx = true) ∧ s.mapErr = false ∧
      s.pollWrite buf = (s, .polledMapErr)) := by
  by_cases hopen : s.senderOpen = true ∧ s.requestRx = true
  · cases hslot : s.slot with
    | some b => exact .inl ⟨hopen, by simp, by simp only [pollWrite, if_pos hopen, hslot]⟩
    | none => exact .inr (.inl ⟨hopen, rfl, by simp only [pollWrite, if_pos hopen, hslot]⟩)
  · right
    right
    cases hmap : s.mapErr with
    | true => exact .inl ⟨hopen, rfl, by simp only [pollWrite, if_neg hopen, hmap, if_true]⟩
    | false => exact .inr ⟨hopen, rfl, by simp [pollWrite, if_neg hopen, hmap]⟩

/-- The I/O task makes no calls. -/
theorem Io.calls {e : IoEvent} (h : Io env s e t) :
    t.call = s.call ∧ t.joinTaken = s.joinTaken ∧ t.log = s.log ∧ t.accepted = s.accepted := by
  cases h <;> exact ⟨rfl, rfl, rfl, rfl⟩

theorem Io.mapErr {e : IoEvent} (h : Io env s e t) : t.mapErr = s.mapErr := by
  cases h <;> rfl

/-- The branches of `step`. -/
inductive Step (env : ClientEnv) (s : Client) : ClientEvent → Client → Prop
  | pollTaken (op : Op) (hcall : s.call = none) (hd : s.dropped = false)
      (hjoin : s.joinTaken = true) :
      Step env s (.poll op) (s.report op .polledAfterCompletion)
  | pollError (op : Op) (e : ClientError) (hcall : s.call = none) (hd : s.dropped = false)
      (hjoin : s.joinTaken = false) (htask : s.task = .complete (.error e)) :
      Step env s (.poll op) ({ s with joinTaken := true }.report op (.error (.task e)))
  | pollOk (op : Op) (hcall : s.call = none) (hd : s.dropped = false)
      (hjoin : s.joinTaken = false) (htask : s.task = .complete (.ok ())) :
      Step env s (.poll op) ({ s with joinTaken := true }.report op .unreachable)
  | pollPending (op : Op) (hcall : s.call = none) (hd : s.dropped = false)
      (hjoin : s.joinTaken = false) (htask : ∀ r, s.task ≠ .complete r) :
      Step env s (.poll op) { s with call := some op }
  | resume (op : Op) (hcall : s.call = some op) : Step env s .resume (s.resume op)
  | drop (hcall : s.call = none) (hd : s.dropped = false) : Step env s .drop s.drop
  | abort (hd : s.dropped = true) (htask : s.task = .running) :
      Step env s .abort { s with task := .aborted }
  | io (e : IoEvent) (t : Client) (htask : s.task = .running) (hio : Io env s e t) :
      Step env s (.io e) t
  | tearDown (r : Except ClientError Unit) (htask : s.task = .returned r) :
      Step env s .tearDown { s with task := .tornDown r }
  | publish (r : Except ClientError Unit) (htask : s.task = .tornDown r) :
      Step env s .publish { s with task := .complete r }

theorem Step.of_checkErr {op : Op} (hcall : s.call = none) (hd : s.dropped = false) :
    Step env s (.poll op) (s.checkErr op) := by
  cases hjoin : s.joinTaken with
  | true =>
      rw [checkErr, if_pos hjoin]
      exact .pollTaken op hcall hd hjoin
  | false =>
      by_cases hdone : ∃ r, s.task = .complete r
      · obtain ⟨r, htask⟩ := hdone
        rw [checkErr, if_neg (ne_true_of_eq_false hjoin)]
        cases r with
        | error e =>
            simp only [htask]
            exact htask ▸ .pollError op e hcall hd hjoin htask
        | ok =>
            simp only [htask]
            exact htask ▸ .pollOk op hcall hd hjoin htask
      · have htask : ∀ r, s.task ≠ .complete r := fun r h => hdone ⟨r, h⟩
        have heq : s.checkErr op = { s with call := some op } := by
          unfold checkErr
          grind
        exact heq ▸ .pollPending op hcall hd hjoin htask

theorem Step.of_step {e : ClientEvent} (h : s.step env e = some t) : Step env s e t := by
  cases e with
  | poll op =>
      simp only [Client.step, Option.ite_none_right_eq_some, Option.some.injEq] at h
      exact h.2 ▸ .of_checkErr h.1.1 h.1.2
  | resume =>
      obtain ⟨op, hcall, rfl⟩ := Option.map_eq_some_iff.mp h
      exact .resume op hcall
  | drop =>
      simp only [Client.step, Option.ite_none_right_eq_some, Option.some.injEq] at h
      exact h.2 ▸ .drop h.1.1 h.1.2
  | abort =>
      simp only [Client.step, Option.ite_none_right_eq_some, Option.some.injEq] at h
      exact h.2 ▸ .abort h.1.1 h.1.2
  | io e =>
      simp only [Client.step, Option.ite_none_right_eq_some] at h
      exact .io e t h.1 (.of_ioStep h.2)
  | tearDown =>
      cases htask : s.task with
      | returned r =>
          simp only [Client.step, htask, Option.some.injEq] at h
          exact h ▸ .tearDown r htask
      | _ => simp [Client.step, htask] at h
  | publish =>
      cases htask : s.task with
      | tornDown r =>
          simp only [Client.step, htask, Option.some.injEq] at h
          exact h ▸ .publish r htask
      | _ => simp [Client.step, htask] at h

end Fronting.Client
