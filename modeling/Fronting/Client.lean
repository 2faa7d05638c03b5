import Fronting.Machine
import Fronting.Http

/-!
# The client

`Client.step` interleaves the polls by the owner of a `ProxyConnection` with the I/O
task, which joins the HTTP connection and the two pumps. A poll is two steps, the look
at the join handle in `check_err` and the rest; the steps of a pump are those up to its
next suspension point. The last fields of `Client` are histories: no function of the
model reads them.
-/

namespace Fronting

/-- What `start_proxy` hands to the pumps. -/
structure ClientEnv where
  http : HttpLib
  config : DomainFronting
  sessionId : Uuid

/-- The variants of `Error` with which the I/O task ends. -/
inductive ClientError
  | hyper (message : String)
  | http
  | httpStatusCode (status : StatusCode)
deriving DecidableEq

/-- An `io::Error` as the owner gets it: from the I/O task, from a response body, or
from the closed request channel. -/
inductive PollError
  | task (e : ClientError)
  | body (message : String)
  | closed
deriving DecidableEq

inductive Op
  | read (room : Nat)
  | write (buf : Bytes)
  | writeVectored (bufs : List Bytes)
  | flush
  | shutdown
deriving DecidableEq

/-- The last three are panics: in `check_err`, in the join handle and in `SinkMapErr`. -/
inductive PollResult
  | pending
  | filled (bytes : Bytes)
  | written (n : Nat)
  | ready
  | error (e : PollError)
  | unreachable
  | polledAfterCompletion
  | polledMapErr
deriving DecidableEq

/-- Items of the response channel. -/
abbrev Item := Except String Bytes

def Item.isError : Item → Bool
  | .ok _ => false
  | .error _ => true

/-- Where `pump_incoming` stands; `flushing` is the rest of a `send` whose item is in
the channel. -/
inductive Incoming
  | start | awaiting | streaming
  | sending (item : Item)
  | flushing (last : Bool)
  | done
deriving DecidableEq

/-- Where `pump_outgoing` stands. -/
inductive Outgoing
  | idle (first : Bool)
  | awaiting (first : Bool) (chunk : Bytes)
  | done
deriving DecidableEq

/-- How far the I/O task is. The future that returned is dropped (`tornDown`) before
the join handle sees its result (`complete`). -/
inductive Task
  | running
  | returned (result : Except ClientError Unit)
  | tornDown (result : Except ClientError Unit)
  | complete (result : Except ClientError Unit)
  | aborted
deriving DecidableEq

namespace Task

/-- The future, and with it what the pumps own, is not dropped yet. -/
def holdsFuture : Task → Bool
  | .running | .returned _ => true
  | .tornDown _ | .complete _ | .aborted => false

def result : Task → Option (Except ClientError Unit)
  | .returned r | .tornDown r | .complete r => some r
  | .running | .aborted => none

end Task

/-- What `body.frame()` resolves to. -/
inductive BodyFrame
  | data (bytes : Bytes)
  | trailers
  | finished
  | error (message : String)
deriving DecidableEq

structure Client where
  /-- `request_tx` is not closed. -/
  senderOpen : Bool
  /-- `sink_map_err` has its closure, an `FnOnce` that the first error takes. -/
  mapErr : Bool
  /-- The chunk in the request channel; it stays here when the receiver goes first. -/
  slot : Option Bytes
  responses : List Item
  /-- What `StreamReader` has left of the last item. -/
  chunk : Bytes
  incoming : Incoming
  outgoing : Outgoing
  /-- The connection future has resolved to `Ok`. -/
  connDone : Bool
  task : Task
  /-- The join handle has returned the task's result. -/
  joinTaken : Bool
  /-- A poll that has passed `check_err`. -/
  call : Option Op
  dropped : Bool
  log : List (Op × PollResult)
  accepted : List Bytes
  taken : List Bytes
  acked : List Bytes
  received : Bytes
  delivered : Bytes
deriving DecidableEq

/-- What the connection future and the pumps do. -/
inductive IoEvent
  | connOk
  | connError (message : String)
  | sendRead (path : Uuid)
  | readResponse (status : StatusCode)
  | readError (message : String)
  | frame (f : BodyFrame)
  | push
  | flushed
  | recv (path : Uuid)
  | writeResponse (status : StatusCode)
  | writeError (message : String)
deriving DecidableEq

inductive ClientEvent
  | poll (op : Op)
  | resume
  | drop
  | abort
  | io (e : IoEvent)
  | tearDown
  | publish
deriving DecidableEq

namespace Client

def init : Client :=
  ⟨true, true, none, [], [], .start, .idle true, false, .running, false, none, false,
    [], [], [], [], [], []⟩

def responseTx (s : Client) : Bool := s.incoming ≠ .done && s.task.holdsFuture

def requestRx (s : Client) : Bool := s.outgoing ≠ .done && s.task.holdsFuture

def report (s : Client) (op : Op) (res : PollResult) : Client :=
  { s with call := none, log := s.log ++ [(op, res)] }

/-- `check_err`: the join handle yields its result once. -/
def checkErr (s : Client) (op : Op) : Client :=
  if s.joinTaken then s.report op .polledAfterCompletion
  else match s.task with
    | .complete (.error e) => { s with joinTaken := true }.report op (.error (.task e))
    | .complete (.ok ()) => { s with joinTaken := true }.report op .unreachable
    | _ => { s with call := some op }

inductive Fill
  | pending
  | ready (bytes : Bytes)
  | error (message : String)
deriving DecidableEq

/-- `StreamReader::poll_fill_buf`, which passes over empty items. -/
def fillBuf (responseTx : Bool) : Bytes → List Item → Fill × List Item
  | b :: bs, queue => (.ready (b :: bs), queue)
  | [], [] => (if responseTx then .pending else .ready [], [])
  | [], .error message :: queue => (.error message, queue)
  | [], .ok bytes :: queue => fillBuf responseTx bytes queue

/-- `StreamReader::poll_read` -/
def pollRead (s : Client) (room : Nat) : Client × PollResult :=
  if room = 0 then (s, .filled [])
  else match fillBuf s.responseTx s.chunk s.responses with
    | (.pending, queue) => ({ s with chunk := [], responses := queue }, .pending)
    | (.error message, queue) =>
      ({ s with chunk := [], responses := queue }, .error (.body message))
    | (.ready bytes, queue) =>
      ({ s with chunk := bytes.drop room, responses := queue
                delivered := s.delivered ++ bytes.take room }, .filled (bytes.take room))

/-- `SinkWriter::poll_write` into the request channel, which has one slot and, once closed,
an error for one call. -/
def pollWrite (s : Client) (buf : Bytes) : Client × PollResult :=
  if s.senderOpen ∧ s.requestRx then
    match s.slot with
    | some _ => (s, .pending)
    | none => ({ s with slot := some buf, accepted := s.accepted ++ [buf] }, .written buf.length)
  else if s.mapErr then ({ s with mapErr := false }, .error .closed)
  else (s, .polledMapErr)

/-- `PollSender` is always flushed. -/
def pollFlush (s : Client) : Client × PollResult := (s, .ready)

def pollShutdown (s : Client) : Client × PollResult := ({ s with senderOpen := false }, .ready)

/-- What a poll does once it has passed `check_err`. -/
def pollInner (s : Client) : Op → Client × PollResult
  | .read room => s.pollRead room
  | .write buf => s.pollWrite buf
  | .writeVectored bufs => s.pollWrite bufs.flatten
  | .flush => s.pollFlush
  | .shutdown => s.pollShutdown

def resume (s : Client) (op : Op) : Client :=
  let (s', res) := s.pollInner op
  s'.report op res

/-- The connection is dropped: both of its channel ends go, and the task is to be aborted. -/
def drop (s : Client) : Client :=
  { s with dropped := true, senderOpen := false, responses := [] }

/-- A part of the I/O task returned an error. -/
def fail (s : Client) (e : ClientError) : Client := { s with task := .returned (.error e) }

/-- `try_join` of the connection and the pumps. -/
def joined (s : Client) : Bool := s.incoming = .done && s.outgoing = .done && s.connDone

/-- A part of the I/O task returned `Ok`; the last of them completes the task. -/
def settle (s : Client) : Client :=
  { s with task := if s.joined then .returned (.ok ()) else s.task }

/-- `pump_incoming` between `GET` and the response head. -/
def sendRead (env : ClientEnv) (s : Client) (path : Uuid) : Client :=
  match createReadRequest env.http env.config env.sessionId path with
  | none => { s with incoming := .done }.fail .http
  | some _ => { s with incoming := .awaiting }

def readResponse (s : Client) (status : StatusCode) : Client :=
  if status.isSuccess then { s with incoming := .streaming }
  else { s with incoming := .done }.fail (.httpStatusCode status)

def frame (s : Client) : BodyFrame → Client
  | .data [] => { s with incoming := .start }
  | .data (b :: bs) =>
    { s with incoming := .sending (.ok (b :: bs)), received := s.received ++ b :: bs }
  | .trailers => s
  | .finished => { s with incoming := .start }
  | .error message => { s with incoming := .sending (.error message) }

/-- `response_tx.send` up to its flush: the channel parks its sender at two items, and
fails when the receiver is gone. -/
def push (s : Client) (item : Item) : Option Client :=
  if s.dropped then some { s with incoming := .done }.settle
  else if s.responses.length ≤ 1 then
    some { s with responses := s.responses ++ [item]
                  incoming := .flushing item.isError }
  else none

def flushed (s : Client) (last : Bool) : Option Client :=
  if s.responses.length ≤ 1 then
    some (if last then { s with incoming := .done }.settle else { s with incoming := .streaming })
  else none

/-- `pump_outgoing` takes a chunk and sends its request. -/
def sendWrite (env : ClientEnv) (s : Client) (first : Bool) (chunk : Bytes) (path : Uuid) :
    Client :=
  let s := { s with slot := none, taken := s.taken ++ [chunk] }
  match createWriteRequest env.http env.config env.sessionId first path with
  | none => { s with outgoing := .done }.fail .http
  | some _ => { s with outgoing := .awaiting first chunk }

/-- `request_rx.recv()` resolves. -/
def recv (env : ClientEnv) (s : Client) (first : Bool) (path : Uuid) : Option Client :=
  match s.slot with
  | some chunk => some (s.sendWrite env first chunk path)
  | none => if s.senderOpen then none else some { s with outgoing := .done }.settle

def writeResponse (s : Client) (chunk : Bytes) (status : StatusCode) : Client :=
  if status = .noContent then
    { s with outgoing := .idle false, acked := s.acked ++ [chunk] }
  else { s with outgoing := .done }.fail (.httpStatusCode status)

def ioStep (env : ClientEnv) (s : Client) : IoEvent → Option Client
  | .connOk => if s.connDone then none else some { s with connDone := true }.settle
  | .connError message => if s.connDone then none else some (s.fail (.hyper message))
  | .sendRead path => if s.incoming = .start then some (s.sendRead env path) else none
  | .readResponse status =>
    if s.incoming = .awaiting then some (s.readResponse status) else none
  | .readError message =>
    if s.incoming = .awaiting then some ({ s with incoming := .done }.fail (.hyper message))
    else none
  | .frame f => if s.incoming = .streaming then some (s.frame f) else none
  | .push =>
    match s.incoming with
    | .sending item => s.push item
    | _ => none
  | .flushed =>
    match s.incoming with
    | .flushing last => s.flushed last
    | _ => none
  | .recv path =>
    match s.outgoing with
    | .idle first => s.recv env first path
    | _ => none
  | .writeResponse status =>
    match s.outgoing with
    | .awaiting _ chunk => some (s.writeResponse chunk status)
    | _ => none
  | .writeError message =>
    match s.outgoing with
    | .awaiting .. => some ({ s with outgoing := .done }.fail (.hyper message))
    | _ => none

def step (env : ClientEnv) (s : Client) : ClientEvent → Option Client
  | .poll op => if s.call = none ∧ s.dropped = false then some (s.checkErr op) else none
  | .resume => s.call.map s.resume
  | .drop => if s.call = none ∧ s.dropped = false then some s.drop else none
  | .abort => if s.dropped ∧ s.task = .running then some { s with task := .aborted } else none
  | .io e => if s.task = .running then s.ioStep env e else none
  | .tearDown =>
    match s.task with
    | .returned r => some { s with task := .tornDown r }
    | _ => none
  | .publish =>
    match s.task with
    | .tornDown r => some { s with task := .complete r }
    | _ => none

def machine (env : ClientEnv) : Machine Client ClientEvent := ⟨init, step env⟩

/-- Settings for the runs on concrete inputs. -/
def sampleEnv : ClientEnv :=
  ⟨.sample, ⟨some .https, "api.example.com", DomainFronting.defaultSessionKey⟩, 0⟩

end Client
end Fronting
