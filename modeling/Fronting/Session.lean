import Fronting.Http
import Mathlib.Data.List.Basic

/-!
# The session actor

`Session` is a kameo actor together with its upstream connection. The functions
below are what the actor does between two suspension points: each handler that
never waits is one function, and `SessionWrite`, which waits inside `write_all`,
is split at every partial write. The last fields of `Session` and `Upstream` are
histories: no function of the model reads them.
-/

namespace Fronting

/-- Identities that kameo and the HTTP layer hand out, each used once. -/
abbrev ActorRef := Nat
abbrev ReqId := Nat

/-- What the server is run with. A kameo mailbox has room for at least one message. -/
structure ServerEnv where
  http : HttpLib
  sessionKey : String
  totalTimeout : Nat
  idleTimeout : Nat
  mailboxCapacity : Nat
  mailboxCapacity_pos : 0 < mailboxCapacity

/-- The connection to upstream as the session sees it: the bytes on their way in
each direction, each held by a bounded buffer. -/
structure Upstream where
  txCap : Nat
  rxCap : Nat
  tx : Bytes
  rx : Bytes
  eof : Bool
  written : Bytes
  produced : Bytes
  consumed : Bytes
deriving DecidableEq

namespace Upstream

def connect (txCap rxCap : Nat) : Upstream := ⟨txCap, rxCap, [], [], false, [], [], []⟩

/-- The write half accepts some bytes. -/
def write (u : Upstream) (bytes : Bytes) : Upstream :=
  { u with tx := u.tx ++ bytes, written := u.written ++ bytes }

/-- `read_buf` moves bytes out of the read half. -/
def read (u : Upstream) (n : Nat) : Upstream :=
  { u with rx := u.rx.drop n, consumed := u.consumed ++ u.rx.take n }

/-- The upstream host reads what was sent to it. -/
def take (u : Upstream) (n : Nat) : Upstream := { u with tx := u.tx.drop n }

/-- The upstream host sends bytes. -/
def send (u : Upstream) (bytes : Bytes) : Upstream :=
  { u with rx := u.rx ++ bytes, produced := u.produced ++ bytes }

end Upstream

inductive TimerStatus
  | armed | fired | aborted
deriving DecidableEq

/-- A task spawned by `actor_timeout`. -/
structure Timer where
  deadline : Nat
  status : TimerStatus
deriving DecidableEq

/-- `SessionRead`, `SessionWrite` and `SessionResetIdleTimeout`; the first two are
asked by a request and answered to it. -/
inductive Message
  | read (req : ReqId)
  | write (req : ReqId) (bytes : Bytes)
  | resetIdleTimeout
deriving DecidableEq

/-- How far the actor has come; `starting` is inside `on_start`. `stopping` is after
`ctx.stop()`. The mailbox closes on entering `closed` or `failed`; in `failed` there
never was a `Session`.
`Drop` first aborts what the session owns (`dropping`), then removes the table
entry (`dropped`). -/
inductive Life
  | spawned | starting | running | stopping | closed | dropping | dropped | failed
deriving DecidableEq

def Life.mailboxOpen : Life → Bool
  | .spawned | .starting | .running | .stopping => true
  | .closed | .dropping | .dropped | .failed => false

/-- A `SessionWrite` handler that has written `offset` of its bytes. -/
structure Writing where
  req : ReqId
  bytes : Bytes
  offset : Nat
deriving DecidableEq

/-- A `SessionWrite` handler that has returned, and whether `write_all` was `Ok`. -/
structure Written where
  req : ReqId
  bytes : Bytes
  sent : Nat
  ok : Bool
deriving DecidableEq

structure Session where
  sessionId : Uuid
  life : Life
  /-- A timer has called `kill`, which ends the actor's loop but not its `on_start`. -/
  killed : Bool
  mailbox : List Message
  /-- The suspended handler; it stays here when the actor ends before it. -/
  handling : Option Writing
  upstream : Upstream
  /-- The stream that holds the lock of `upstream_read`. -/
  reader : Option ReqId
  upstreamReadAbort : Option ReqId
  timers : List Timer
  idleTimeoutTask : Option Nat
  totalTimeoutTask : Option Nat
  accepted : List (ReqId × Bytes)
  finished : List Written
  opened : List ReqId
deriving DecidableEq

namespace Session

def spawn (sessionId : Uuid) : Session :=
  ⟨sessionId, .spawned, false, [], none, .connect 0 0, none, none, [], none, none, [], [], []⟩

def isAlive (A : Session) : Bool := A.life.mailboxOpen

def actorTimeout (A : Session) (deadline : Nat) : Session × Nat :=
  ({ A with timers := A.timers ++ [⟨deadline, .armed⟩] }, A.timers.length)

def Timer.abort (t : Timer) : Timer :=
  if t.status = .armed then { t with status := .aborted } else t

def abortTimer (A : Session) (task : Option Nat) : Session :=
  { A with timers := task.elim A.timers fun i => A.timers.modify i Timer.abort }

def resetIdleTimeout (env : ServerEnv) (now : Nat) (A : Session) : Session :=
  let A := A.abortTimer A.idleTimeoutTask
  let (A, task) := A.actorTimeout (now + env.idleTimeout)
  { A with idleTimeoutTask := some task }

/-- `on_start` up to the connection attempt. -/
def onStart (env : ServerEnv) (now : Nat) (A : Session) : Session :=
  let (A, total) := A.actorTimeout (now + env.totalTimeout)
  let (A, idle) := A.actorTimeout (now + env.idleTimeout)
  { A with life := .starting, totalTimeoutTask := some total, idleTimeoutTask := some idle }

/-- `on_start` after a successful connection attempt. -/
def connected (env : ServerEnv) (now : Nat) (u : Upstream) (A : Session) : Session :=
  resetIdleTimeout env now { A with life := .running, upstream := u }

/-- The actor's mailbox closes: the messages in it are dropped. -/
def closeMailbox (life : Life) (A : Session) : Session := { A with life := life, mailbox := [] }

/-- A message enters the mailbox. -/
def enqueue (A : Session) (m : Message) : Session := { A with mailbox := A.mailbox ++ [m] }

def acceptWrite (A : Session) (req : ReqId) (bytes : Bytes) : Session :=
  { A.enqueue (.write req bytes) with accepted := A.accepted ++ [(req, bytes)] }

/-- `tell(SessionResetIdleTimeout).try_send()`, which gives up on a full mailbox. -/
def tryResetIdleTimeout (env : ServerEnv) (A : Session) : Session :=
  { A with mailbox := if A.mailbox.length < env.mailboxCapacity then
      A.mailbox ++ [.resetIdleTimeout] else A.mailbox }

/-- `SessionRead`: take the reader's lock, or reply `None` when it is held. -/
def handleRead (A : Session) (req : ReqId) : Session × Bool :=
  match A.reader with
  | some _ => (A, false)
  | none => ({ A with reader := some req, upstreamReadAbort := some req
                      opened := A.opened ++ [req] }, true)

/-- `write_all` returned `Ok`. -/
def writeOk (env : ServerEnv) (A : Session) (w : Writing) : Session :=
  { A.tryResetIdleTimeout env with
    handling := none, finished := A.finished ++ [⟨w.req, w.bytes, w.offset, true⟩] }

/-- `write_all` returned an error, so the handler calls `ctx.stop()`. -/
def writeErr (A : Session) (w : Writing) : Session :=
  { A with life := .stopping, handling := none
           finished := A.finished ++ [⟨w.req, w.bytes, w.offset, false⟩] }

/-- The stream of `req` lets go of the reader's lock. -/
def release (A : Session) (req : ReqId) : Session :=
  { A with reader := if A.reader = some req then none else A.reader }

/-- The part of `Drop` that aborts the timers and takes the abort handle. -/
def dropAborts (A : Session) : Session :=
  let A := A.abortTimer A.totalTimeoutTask
  let A := A.abortTimer A.idleTimeoutTask
  { A with life := .dropping, totalTimeoutTask := none, idleTimeoutTask := none
           upstreamReadAbort := none }

end Session

/-- What an actor, its timers and its upstream host do on their own. -/
inductive ActorEvent
  | start
  | connect (txCap rxCap : Nat)
  | connectError
  | write (n : Nat)
  | close
  | abort
  | fire (timer : Nat)
  | upstreamTake (n : Nat)
  | upstreamSend (bytes : Bytes)
  | upstreamEof
deriving DecidableEq

namespace Session

/-- `upstream` is connected, and not yet dropped. -/
def hasUpstream (A : Session) : Bool :=
  match A.life with
  | .running | .stopping | .closed | .dropping | .dropped => true
  | .spawned | .starting | .failed => false

def step (env : ServerEnv) (now : Nat) (A : Session) : ActorEvent → Option Session
  | .start => if A.life = .spawned then some (A.onStart env now) else none
  | .connect txCap rxCap =>
    if A.life = .starting then
      let B := A.connected env now (.connect txCap rxCap)
      -- An actor that was killed in `on_start` ends here and handles no message.
      some (if A.killed then B.closeMailbox .closed else B)
    else none
  | .connectError => if A.life = .starting then some (A.closeMailbox .failed) else none
  | .write n =>
    match A.handling with
    | none => none
    | some w =>
      if A.life = .running ∧ 0 < n ∧ w.offset + n ≤ w.bytes.length ∧
          A.upstream.tx.length + n ≤ A.upstream.txCap then
        some { A with handling := some { w with offset := w.offset + n }
                      upstream := A.upstream.write ((w.bytes.drop w.offset).take n) }
      else none
  | .close => if A.life = .stopping then some (A.closeMailbox .closed) else none
  | .abort =>
    if A.killed then
      match A.life with
      | .running | .stopping => some (A.closeMailbox .closed)
      | _ => none
    else none
  | .fire i =>
    match A.timers[i]? with
    | none => none
    | some timer =>
      if timer.status = .armed ∧ timer.deadline ≤ now then
        some { A with timers := A.timers.modify i fun t => { t with status := .fired }
                      killed := true }
      else none
  | .upstreamTake n =>
    if A.hasUpstream ∧ 0 < n ∧ n ≤ A.upstream.tx.length then
      some { A with upstream := A.upstream.take n } else none
  | .upstreamSend bytes =>
    if A.hasUpstream ∧ A.upstream.eof = false ∧ 0 < bytes.length ∧
        A.upstream.rx.length + bytes.length ≤ A.upstream.rxCap then
      some { A with upstream := A.upstream.send bytes } else none
  | .upstreamEof =>
    if A.hasUpstream ∧ A.upstream.eof = false then
      some { A with upstream := { A.upstream with eof := true } } else none

end Session
end Fronting
