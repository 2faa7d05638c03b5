import Fronting.ServerStep
import Fronting.ClientStep

/-!
# One client and the server

`Tunnel` puts a `ProxyConnection` and the server at the two ends of its HTTP requests. A
request may be lost, and a response may fail, at any point; what the network does deliver
it delivers in order, the bodies cut up anew. Requests of other clients, which carry other
session ids, the actors, streams and timers go on at the server by themselves.
-/

namespace Fronting

open Function (update)

/-- The client's last request of one kind. -/
inductive Exchange
  | idle
  | sent (req : Request) (body : Bytes)
  | arrived (r : ReqId)
deriving DecidableEq

/-- The two ends use the same crates and the same session key. -/
structure TunnelEnv where
  server : ServerEnv
  client : ClientEnv
  http : server.http = client.http
  sessionKey : server.sessionKey = client.config.sessionKey
  carries : client.http.Carries client.config client.sessionId

structure Tunnel where
  server : Server
  client : Client
  get : Exchange
  put : Exchange
  /-- The client's `GET`s that have arrived. -/
  gets : List ReqId
  /-- Its `POST` and `PATCH` requests that have arrived. -/
  puts : List ReqId
  /-- The bytes of each response body that have been handed to the client. -/
  seen : ReqId → Bytes
  /-- The body of each write request. -/
  sent : ReqId → Bytes

inductive TunnelEvent
  | server (e : ServerEvent)
  | client (e : ClientEvent)
  | getArrives (r : ReqId) (fresh : ActorRef)
  | putArrives (r : ReqId) (fresh : ActorRef)
  | putBody (e : BodyEvent)
deriving DecidableEq

namespace Tunnel

variable (env : TunnelEnv) (s : Tunnel)

def init : Tunnel :=
  ⟨.init, .init, .idle, .idle, [], [], fun _ => [], fun _ => []⟩

/-- The response body of `r` has ended. -/
def bodyEnded (r : ReqId) : Bool := (s.server.streams r).any ReadStream.ended

/-- What has arrived of the body of `r`. -/
def uploaded (r : ReqId) : Bytes := (s.server.calls r).elim [] fun R => R.chunks.flatten

/-- The server has answered the request with this status. -/
def answered (status : StatusCode) : Exchange → Bool
  | .arrived r => ((s.server.calls r).bind Call.response).any fun resp => resp.status = status
  | _ => false

/-- The server's steps that take in nothing from the client. -/
def alone : ServerEvent → Bool
  | .request _ req _ =>
    req.sessionId env.server.http env.server.sessionKey ≠ some env.client.sessionId
  | .body r _ => r ∉ s.puts
  | _ => true

/-- What the network may report to the client: a success after the server's, the body's
data in order and in frames that are not empty, its end after the stream's. -/
def reports : ClientEvent → Bool
  | .io (.readResponse status) => !status.isSuccess || s.answered status s.get
  | .io (.writeResponse status) => !status.isSuccess || s.answered status s.put
  | .io (.frame (.data bytes)) =>
    match s.get with
    | .arrived r => bytes ≠ [] ∧ s.seen r ++ bytes <+: s.server.framesOf r
    | _ => false
  | .io (.frame .finished) =>
    match s.get with
    | .arrived r => s.bodyEnded r ∧ s.seen r = s.server.framesOf r
    | _ => false
  | _ => true

/-- The next of a request's body: its bytes in order, then its end, or an error. -/
def delivers (r : ReqId) : BodyEvent → Bool
  | .chunk data => s.uploaded r ++ data <+: s.sent r
  | .finished => s.uploaded r = s.sent r
  | .error _ => true

/-- The client has taken a step; a request it has sent is on its way. -/
def afterClient (c : Client) : ClientEvent → Tunnel
  | .io (.sendRead path) =>
    match createReadRequest env.client.http env.client.config env.client.sessionId path with
    | some req => { s with client := c, get := .sent req [] }
    | none => { s with client := c }
  | .io (.recv path) =>
    match c.outgoing with
    | .awaiting first chunk =>
      match
        createWriteRequest env.client.http env.client.config env.client.sessionId first path with
      | some req => { s with client := c, put := .sent req chunk }
      | none => { s with client := c }
    | _ => { s with client := c }
  | .io (.frame (.data bytes)) =>
    match s.get with
    | .arrived r => { s with client := c, seen := update s.seen r (s.seen r ++ bytes) }
    | _ => { s with client := c }
  | _ => { s with client := c }

def step : TunnelEvent → Option Tunnel
  | .server e =>
    if s.alone env e then (Server.step env.server s.server e).map fun t => { s with server := t }
    else none
  | .client e =>
    if s.reports e then (Client.step env.client s.client e).map fun c => s.afterClient env c e
    else none
  | .getArrives r fresh =>
    match s.get with
    | .sent req _ => (Server.step env.server s.server (.request r req fresh)).map fun t =>
        { s with server := t, get := .arrived r, gets := s.gets ++ [r] }
    | _ => none
  | .putArrives r fresh =>
    match s.put with
    | .sent req body => (Server.step env.server s.server (.request r req fresh)).map fun t =>
        { s with server := t, put := .arrived r, puts := s.puts ++ [r]
                 sent := update s.sent r body }
    | _ => none
  | .putBody e =>
    match s.put with
    | .arrived r =>
      if s.delivers r e then
        (Server.step env.server s.server (.body r e)).map fun t => { s with server := t }
      else none
    | _ => none

def machine (env : TunnelEnv) : Machine Tunnel TunnelEvent := ⟨init, fun s => s.step env⟩

/-- Settings for the runs on concrete inputs. -/
def sampleEnv : TunnelEnv :=
  ⟨Server.sampleEnv, Client.sampleEnv, rfl, rfl, by constructor <;> decide⟩

section Branches

variable {env s} {t : Tunnel}

/-- The branches of `step`. -/
inductive Step (env : TunnelEnv) (s : Tunnel) : TunnelEvent → Tunnel → Prop
  | server (e : ServerEvent) (t : Server) (halone : s.alone env e = true)
      (hstep : Server.step env.server s.server e = some t) :
      Step env s (.server e) { s with server := t }
  | client (e : ClientEvent) (c : Client) (hreports : s.reports e = true)
      (hstep : Client.step env.client s.client e = some c) :
      Step env s (.client e) (s.afterClient env c e)
  | getArrives (r : ReqId) (fresh : ActorRef) (req : Request) (body : Bytes) (t : Server)
      (hget : s.get = .sent req body)
      (hstep : Server.step env.server s.server (.request r req fresh) = some t) :
      Step env s (.getArrives r fresh)
        { s with server := t, get := .arrived r, gets := s.gets ++ [r] }
  | putArrives (r : ReqId) (fresh : ActorRef) (req : Request) (body : Bytes) (t : Server)
      (hput : s.put = .sent req body)
      (hstep : Server.step env.server s.server (.request r req fresh) = some t) :
      Step env s (.putArrives r fresh)
        { s with server := t, put := .arrived r, puts := s.puts ++ [r]
                 sent := update s.sent r body }
  | putBody (r : ReqId) (e : BodyEvent) (t : Server) (hput : s.put = .arrived r)
      (hdelivers : s.delivers r e = true)
      (hstep : Server.step env.server s.server (.body r e) = some t) :
      Step env s (.putBody e) { s with server := t }

theorem Step.of_step {e : TunnelEvent} (h : s.step env e = some t) : Step env s e t := by
  cases e with
  | server e =>
      simp only [Tunnel.step, Option.ite_none_right_eq_some, Option.map_eq_some_iff] at h
      obtain ⟨halone, u, hu, rfl⟩ := h
      exact .server e u halone hu
  | client e =>
      simp only [Tunnel.step, Option.ite_none_right_eq_some, Option.map_eq_some_iff] at h
      obtain ⟨hreports, c, hc, rfl⟩ := h
      exact .client e c hreports hc
  | getArrives r fresh =>
      cases hget : s.get with
      | sent req body =>
          simp only [Tunnel.step, hget, Option.map_eq_some_iff] at h
          obtain ⟨u, hu, rfl⟩ := h
          exact .getArrives r fresh req body u hget hu
      | _ => simp [Tunnel.step, hget] at h
  | putArrives r fresh =>
      cases hput : s.put with
      | sent req body =>
          simp only [Tunnel.step, hput, Option.map_eq_some_iff] at h
          obtain ⟨u, hu, rfl⟩ := h
          exact .putArrives r fresh req body u hput hu
      | _ => simp [Tunnel.step, hput] at h
  | putBody e =>
      simp only [Tunnel.step] at h
      split at h
      next r hput =>
          simp only [Option.ite_none_right_eq_some, Option.map_eq_some_iff] at h
          obtain ⟨hdelivers, u, hu, rfl⟩ := h
          exact .putBody r e u hput hdelivers hu
      next => simp at h

/-- What a step of the client leaves alone. -/
theorem afterClient_server (env : TunnelEnv) (s : Tunnel) (c : Client) (e : ClientEvent) :
    (s.afterClient env c e).server = s.server ∧ (s.afterClient env c e).client = c ∧
      (s.afterClient env c e).gets = s.gets ∧ (s.afterClient env c e).puts = s.puts ∧
      (s.afterClient env c e).sent = s.sent := by
  unfold afterClient
  split
  · split <;> simp
  · split
    · split <;> simp
    · simp
  · split <;> simp
  · simp

/-- A step of the tunnel moves the server by one of its steps, or not at all. -/
theorem Step.server_step {e : TunnelEvent} (h : Step env s e t) :
    t.server = s.server ∨ ∃ d, Server.step env.server s.server d = some t.server := by
  cases h with
  | server e u _ hstep | putBody r e u _ _ hstep => exact .inr ⟨_, hstep⟩
  | getArrives r fresh req body u _ hstep | putArrives r fresh req body u _ hstep =>
      exact .inr ⟨_, hstep⟩
  | client e c => exact .inl (afterClient_server env s c e).1

theorem Step.client_step {e : TunnelEvent} (h : Step env s e t) :
    t.client = s.client ∨ ∃ d, Client.step env.client s.client d = some t.client := by
  cases h with
  | client e c _ hstep =>
      refine .inr ⟨e, ?_⟩
      rw [(afterClient_server env s c e).2.1]
      exact hstep
  | _ => exact .inl rfl

theorem server_reachable (h : (machine env).Reachable s) :
    (Server.machine env.server).Reachable s.server :=
  h.component Tunnel.server rfl fun _ _ _ hstep => (Step.of_step hstep).server_step

theorem client_reachable (h : (machine env).Reachable s) :
    (Client.machine env.client).Reachable s.client :=
  h.component Tunnel.client rfl fun _ _ _ hstep => (Step.of_step hstep).client_step

end Branches

end Tunnel
end Fronting
