import Fronting.Machine
import Fronting.Session
import Mathlib.Logic.Function.Basic

/-!
# The server

`Server.step` interleaves the requests in progress, the session actors, the read
streams handed to the HTTP layer and the clock. The steps of a request are those
of `handle_request_inner`, `handle_write_request` and `handle_read_request` up to
their next suspension point; the steps of a stream are those of the `unfold` in
the `SessionRead` handler.
-/

namespace Fronting

open Function (update)

/-- An `anyhow::Error` with the status that answers it. -/
structure HttpError where
  error : String
  code : StatusCode
deriving DecidableEq

namespace HttpError

/-- `From<anyhow::Error>`. -/
def badRequest (error : String) : HttpError := ⟨error, .badRequest⟩

def intoResponse (e : HttpError) : Response := ⟨e.code, []⟩

end HttpError

/-- Where a call of `handle_request` stands. In `sendX` the `ask` waits for room in
the mailbox, in `awaitX` for the reply, in `wrote` and `readReply` it has it. -/
inductive Handler
  | nextChunk (total : Nat)
  | sendWrite (total : Nat) (data : Bytes)
  | awaitWrite (total : Nat) (data : Bytes)
  | wrote (total : Nat) (data : Bytes)
  | sendRead
  | awaitRead
  | readReply (granted : Bool)
  | done (result : Except HttpError Response)
  | cancelled
deriving DecidableEq

def Handler.inProgress : Handler → Bool
  | .done _ | .cancelled => false
  | _ => true

structure Call where
  /-- The id that the request carries. -/
  sessionId : Option Uuid
  method : Method
  session : Option ActorRef
  handler : Handler
  /-- The data items of the body so far. -/
  chunks : List Bytes
deriving DecidableEq

/-- `handle_request`: errors become responses. -/
def Call.response (R : Call) : Option Response :=
  match R.handler with
  | .done (.ok resp) => some resp
  | .done (.error e) => some e.intoResponse
  | _ => none

/-- Where one turn of `unfold` stands: between turns, in the first read, or with
bytes in hand while the idle timeout is being reset. -/
inductive Turn
  | idle | reading
  | telling (bytes : Bytes)
deriving DecidableEq

def Turn.betweenReads : Turn → Bool
  | .idle | .reading => true
  | .telling _ => false

/-- The stream returned for a `SessionRead`. -/
structure ReadStream where
  session : ActorRef
  first : Bool
  turn : Turn
  aborted : Bool
  /-- The stream has returned `None`. -/
  ended : Bool
  dropped : Bool
  frames : List Bytes
deriving DecidableEq

namespace ReadStream

def start (session : ActorRef) : ReadStream := ⟨session, true, .idle, false, false, false, []⟩

/-- Polling the stream runs the unfold: it is neither finished, dropped nor aborted. -/
def active (st : ReadStream) : Bool := !st.ended && !st.dropped && !st.aborted

/-- Bytes read from upstream in a turn that has not yielded them. -/
def inHand (st : ReadStream) : Bytes :=
  match st.turn with
  | .telling bytes => bytes
  | _ => []

/-- What the stream has taken from upstream. -/
def taken (st : ReadStream) : Bytes := st.frames.flatten ++ st.inHand

end ReadStream

/-- What a poll of the read half comes to. -/
inductive ReadResult
  | pending
  | data (n : Nat)
  | eof
  | error
deriving DecidableEq

/-- The next item of a request body: data, its end, or an error. -/
inductive BodyEvent
  | chunk (data : Bytes)
  | finished
  | error (message : String)
deriving DecidableEq

structure Stats where
  bytesTx : UInt64
  bytesRx : UInt64
deriving DecidableEq

structure Server where
  now : Nat
  stats : Stats
  sessions : Uuid → Option ActorRef
  actors : ActorRef → Option Session
  calls : ReqId → Option Call
  streams : ReqId → Option ReadStream
  /-- The `Stats` returned by `take_stats`. -/
  taken : List Stats

inductive ServerEvent
  | tick (d : Nat)
  | takeStats
  | request (r : ReqId) (req : Request) (fresh : ActorRef)
  | cancel (r : ReqId)
  | body (r : ReqId) (e : BodyEvent)
  | ask (r : ReqId)
  | askFailed (r : ReqId)
  | reply (r : ReqId)
  | actor (a : ActorRef) (e : ActorEvent)
  | handle (a : ActorRef)
  | writeOk (a : ActorRef)
  | writeErr (a : ActorRef)
  | dropAborts (a : ActorRef)
  | dropRemove (a : ActorRef)
  | poll (r : ReqId) (res : ReadResult)
  | tell (r : ReqId)
  | pollAborted (r : ReqId)
  | dropStream (r : ReqId)
deriving DecidableEq

namespace Server

def init : Server :=
  ⟨0, ⟨0, 0⟩, fun _ => none, fun _ => none, fun _ => none, fun _ => none, []⟩

def setActor (s : Server) (a : ActorRef) (A : Session) : Server :=
  { s with actors := update s.actors a (some A) }

def setCall (s : Server) (r : ReqId) (R : Call) : Server :=
  { s with calls := update s.calls r (some R) }

def setStream (s : Server) (r : ReqId) (st : ReadStream) : Server :=
  { s with streams := update s.streams r (some st) }

def isAlive (s : Server) (a : ActorRef) : Bool := (s.actors a).any Session.isAlive

/-- What has been yielded into the response body of `r`. -/
def framesOf (s : Server) (r : ReqId) : Bytes := (s.streams r).elim [] fun st => st.frames.flatten

/-- `new_session`: the actor is spawned and entered in the table. -/
def newSession (s : Server) (x : Uuid) (fresh : ActorRef) : Server :=
  { s with actors := update s.actors fresh (some (.spawn x))
           sessions := update s.sessions x (some fresh) }

/-- The lookup under the table's lock. `OccupiedEntry::insert` returns the value that it
replaces, so that a request at a dead entry gets the dead actor. -/
def getOrCreate (s : Server) (x : Uuid) (canCreateSession : Bool) (fresh : ActorRef) :
    Except HttpError (Server × ActorRef) :=
  match s.sessions x with
  | some b =>
    if s.isAlive b then .ok (s, b)
    else if canCreateSession then .ok (s.newSession x fresh, b)
    else .error (.badRequest "Expired session")
  | none =>
    if canCreateSession then .ok (s.newSession x fresh, fresh)
    else .error (.badRequest "No session")

def startHandler (m : Method) : Handler := if m = .get then .sendRead else .nextChunk 0

def reject (s : Server) (r : ReqId) (req : Request) (x : Option Uuid) (e : HttpError) : Server :=
  s.setCall r ⟨x, req.method, none, .done (.error e), []⟩

/-- The request has a session id: hand the request over to the actor that the lookup finds. -/
def dispatch (s : Server) (r : ReqId) (req : Request) (x : Uuid) (fresh : ActorRef) : Server :=
  match s.getOrCreate x (req.method ≠ .patch) fresh with
  | .error e => s.reject r req (some x) e
  | .ok (s', a) => s'.setCall r ⟨some x, req.method, some a, startHandler req.method, []⟩

/-- `handle_request_inner` up to its first suspension point. -/
def handleRequestInner (env : ServerEnv) (s : Server) (r : ReqId) (req : Request)
    (fresh : ActorRef) : Server :=
  let sessionId := req.sessionId env.http env.sessionKey
  match req.method with
  | .other method => s.reject r req sessionId (.badRequest ("Unexpected HTTP method: " ++ method))
  | _ =>
    match sessionId with
    | none => s.reject r req none (.badRequest "Invalid/missing session ID")
    | some x => s.dispatch r req x fresh

def noContent : Response := ⟨.noContent, []⟩

def streamResponse : Response :=
  ⟨.ok, [("content-type", "application/octet-stream"),
    ("cache-control", "no-cache, no-store, no-transform")]⟩

/-- The next item of the request body reaches `handle_write_request`. -/
def bodyStep (R : Call) (total : Nat) : BodyEvent → Call
  | .chunk data => { R with handler := .sendWrite total data, chunks := R.chunks ++ [data] }
  | .finished =>
    { R with handler := .done (if total = 0 then .error (.badRequest "Empty body")
                               else .ok noContent) }
  | .error message => { R with handler := .done (.error (.badRequest message)) }

/-- An `ask` gets its place in the mailbox. -/
def askStep (A : Session) (R : Call) (r : ReqId) : Option (Session × Call) :=
  match R.handler with
  | .sendWrite total data =>
    some (A.acceptWrite r data, { R with handler := .awaitWrite total data })
  | .sendRead => some (A.enqueue (.read r), { R with handler := .awaitRead })
  | _ => none

/-- An `ask` fails because the actor has ended. -/
def askError : Handler → Option HttpError
  | .sendWrite .. | .awaitWrite .. => some (.badRequest "Actor not running")
  | .sendRead | .awaitRead => some (.badRequest "Session actor is dead")
  | _ => none

/-- The actor answers; a cancelled request no longer listens. -/
def onReply (granted : Bool) : Handler → Handler
  | .awaitWrite total data => .wrote total data
  | .awaitRead => .readReply granted
  | h => h

def replyTo (s : Server) (r : ReqId) (granted : Bool) : Server :=
  match s.calls r with
  | some R => s.setCall r { R with handler := onReply granted R.handler }
  | none => s

/-- A request takes the reply up and goes on. -/
def replyStep (s : Server) (r : ReqId) (R : Call) : Option Server :=
  match R.handler with
  | .wrote total data =>
    some { s.setCall r { R with handler := .nextChunk (total + data.length) } with
      stats := { s.stats with bytesTx := s.stats.bytesTx + UInt64.ofNat data.length } }
  | .readReply true => some (s.setCall r { R with handler := .done (.ok streamResponse) })
  | .readReply false =>
    some (s.setCall r
      { R with handler := .done (.error ⟨"Multiple read requests are not allowed",
                                         .tooManyRequests⟩) })
  | _ => none

/-- The actor takes a message from its mailbox. -/
def handleStep (env : ServerEnv) (s : Server) (a : ActorRef) (A : Session) : Message → Server
  | .read r =>
    match A.handleRead r with
    | (A, false) => (s.setActor a A).replyTo r false
    | (A, true) => ((s.setActor a A).setStream r (.start a)).replyTo r true
  | .write r bytes => s.setActor a { A with handling := some ⟨r, bytes, 0⟩ }
  | .resetIdleTimeout => s.setActor a (A.resetIdleTimeout env s.now)

/-- The stream returns `None` and drops its state. -/
def endStream (s : Server) (r : ReqId) (st : ReadStream) (A : Session) : Server :=
  (s.setStream r { st with ended := true }).setActor st.session (A.release r)

/-- The read of one turn of `unfold`. Only the first read waits. -/
def pollStep (s : Server) (r : ReqId) (st : ReadStream) (A : Session) : ReadResult → Option Server
  | .pending =>
    if st.first ∨ st.turn = .reading then
      some (s.setStream r { st with first := false, turn := .reading })
    else some (s.endStream r st A)
  | .data n =>
    if 0 < n ∧ n ≤ 2048 ∧ n ≤ A.upstream.rx.length then
      some { (s.setStream r { st with first := false, turn := .telling (A.upstream.rx.take n) }
                ).setActor st.session { A with upstream := A.upstream.read n } with
        stats := { s.stats with bytesRx := s.stats.bytesRx + UInt64.ofNat n } }
    else none
  | .eof =>
    if A.upstream.rx = [] ∧ A.upstream.eof then some (s.endStream r st A) else none
  | .error => some (s.endStream r st A)

/-- `tell(SessionResetIdleTimeout).await`, then the turn yields its frame. -/
def tellStep (env : ServerEnv) (s : Server) (r : ReqId) (st : ReadStream) (A : Session)
    (bytes : Bytes) : Option Server :=
  let s' := s.setStream r { st with turn := .idle, frames := st.frames ++ [bytes] }
  if A.isAlive then
    if A.mailbox.length < env.mailboxCapacity then
      some (s'.setActor st.session (A.enqueue .resetIdleTimeout))
    else none
  else some s'

/-- `Drop for Session` up to the abort of the stream. -/
def dropAbortsStep (s : Server) (a : ActorRef) (A : Session) : Server :=
  let s' := s.setActor a A.dropAborts
  match A.upstreamReadAbort with
  | none => s'
  | some r =>
    match s.streams r with
    | none => s'
    | some st => s'.setStream r { st with aborted := true }

/-- The removal from the table in `Drop for Session`. -/
def dropRemoveStep (s : Server) (a : ActorRef) (A : Session) : Server :=
  { s.setActor a { A with life := .dropped } with sessions := update s.sessions A.sessionId none }

def takeStats (s : Server) : Server := { s with stats := ⟨0, 0⟩, taken := s.taken ++ [s.stats] }

def step (env : ServerEnv) (s : Server) : ServerEvent → Option Server
  | .tick d => some { s with now := s.now + d }
  | .takeStats => some s.takeStats
  | .request r req fresh =>
    if s.calls r = none ∧ s.actors fresh = none then some (s.handleRequestInner env r req fresh)
    else none
  | .cancel r => do
    let R ← s.calls r
    if R.handler.inProgress then some (s.setCall r { R with handler := .cancelled }) else none
  | .body r e => do
    let R ← s.calls r
    match R.handler with
    | .nextChunk total => some (s.setCall r (bodyStep R total e))
    | _ => none
  | .ask r => do
    let R ← s.calls r
    let a ← R.session
    let A ← s.actors a
    let (A', R') ← askStep A R r
    if A.isAlive ∧ A.mailbox.length < env.mailboxCapacity then
      some ((s.setActor a A').setCall r R')
    else none
  | .askFailed r => do
    let R ← s.calls r
    let a ← R.session
    let A ← s.actors a
    let e ← askError R.handler
    if A.isAlive then none else some (s.setCall r { R with handler := .done (.error e) })
  | .reply r => do
    let R ← s.calls r
    s.replyStep r R
  | .actor a e => do
    let A ← s.actors a
    let A' ← A.step env s.now e
    some (s.setActor a A')
  | .handle a => do
    let A ← s.actors a
    match A.mailbox with
    | [] => none
    | m :: rest =>
      if A.life = .running ∧ A.handling = none then
        some (s.handleStep env a { A with mailbox := rest } m)
      else none
  | .writeOk a => do
    let A ← s.actors a
    let w ← A.handling
    if A.life = .running ∧ w.offset = w.bytes.length then
      some ((s.setActor a (A.writeOk env w)).replyTo w.req true)
    else none
  | .writeErr a => do
    let A ← s.actors a
    let w ← A.handling
    if A.life = .running ∧ w.offset < w.bytes.length then
      some ((s.setActor a (A.writeErr w)).replyTo w.req true)
    else none
  | .dropAborts a => do
    let A ← s.actors a
    if A.life = .closed then some (s.dropAbortsStep a A) else none
  | .dropRemove a => do
    let A ← s.actors a
    if A.life = .dropping then some (s.dropRemoveStep a A) else none
  | .poll r res => do
    let st ← s.streams r
    let R ← s.calls r
    let A ← s.actors st.session
    if st.turn.betweenReads ∧ st.active ∧ R.response = some streamResponse then
      s.pollStep r st A res
    else none
  | .tell r => do
    let st ← s.streams r
    let A ← s.actors st.session
    match st.turn with
    | .telling bytes => if st.active then s.tellStep env r st A bytes else none
    | _ => none
  | .pollAborted r => do
    let st ← s.streams r
    if st.aborted ∧ st.ended = false ∧ st.dropped = false then
      some (s.setStream r { st with ended := true })
    else none
  | .dropStream r => do
    let st ← s.streams r
    let A ← s.actors st.session
    if st.dropped then none
    else some ((s.setStream r { st with dropped := true }).setActor st.session (A.release r))

def machine (env : ServerEnv) : Machine Server ServerEvent := ⟨init, step env⟩

/-- Settings for the runs on concrete inputs. -/
def sampleEnv : ServerEnv :=
  ⟨.sample, DomainFronting.defaultSessionKey, 60, 30, 64, by decide⟩

def sampleRequest (method : Method) : Request :=
  ⟨method, [("x-session", "00000000-0000-0000-0000-000000000000")]⟩

end Server
end Fronting
