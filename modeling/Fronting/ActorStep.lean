import Fronting.Coherence

/-!
# What one step of the server does to one actor or one request

`Session.Move` forgets which request or stream a step belongs to and keeps what
becomes of one actor; `Call.Move` and `ReadStream.Move` do the same for a request and a
stream. An invariant of a single session, request or stream is proved by cases on it and
holds of each of them in every reachable state.
-/

namespace Fronting

open Function (update)

namespace Session

inductive Move (env : ServerEnv) (A : Session) : Session → Prop
  | stay : Move env A A
  | own {now : Nat} {e : ActorEvent} {A' : Session} (h : A.step env now e = some A') :
      Move env A A'
  | acceptWrite (r : ReqId) (bytes : Bytes) (halive : A.isAlive) :
      Move env A (A.acceptWrite r bytes)
  | enqueue (m : Message) (hm : ∀ r bytes, m ≠ .write r bytes) (halive : A.isAlive) :
      Move env A (A.enqueue m)
  | grant (rest : List Message) (r : ReqId) (hm : A.mailbox = .read r :: rest)
      (hlife : A.life = .running) (hidle : A.handling = none) (hfree : A.reader = none) :
      Move env A { A with mailbox := rest, reader := some r, upstreamReadAbort := some r
                          opened := A.opened ++ [r] }
  | refuse (rest : List Message) (r : ReqId) (hm : A.mailbox = .read r :: rest)
      (hlife : A.life = .running) (hidle : A.handling = none) :
      Move env A { A with mailbox := rest }
  | takeWrite (rest : List Message) (r : ReqId) (bytes : Bytes)
      (hm : A.mailbox = .write r bytes :: rest) (hlife : A.life = .running)
      (hidle : A.handling = none) :
      Move env A { A with mailbox := rest, handling := some ⟨r, bytes, 0⟩ }
  | takeReset (now : Nat) (rest : List Message) (hm : A.mailbox = .resetIdleTimeout :: rest)
      (hlife : A.life = .running) (hidle : A.handling = none) :
      Move env A (resetIdleTimeout env now { A with mailbox := rest })
  | writeOk (w : Writing) (hw : A.handling = some w) (hlife : A.life = .running)
      (hall : w.offset = w.bytes.length) : Move env A (A.writeOk env w)
  | writeErr (w : Writing) (hw : A.handling = some w) (hlife : A.life = .running)
      (hpart : w.offset < w.bytes.length) : Move env A (A.writeErr w)
  | dropAborts (hlife : A.life = .closed) : Move env A A.dropAborts
  | dropRemove (hlife : A.life = .dropping) : Move env A { A with life := .dropped }
  | read (n : Nat) (hlen : n ≤ A.upstream.rx.length) :
      Move env A { A with upstream := A.upstream.read n }
  | release (r : ReqId) : Move env A (A.release r)

variable {env : ServerEnv} {A A' : Session}

theorem Move.sessionId (h : Move env A A') : A'.sessionId = A.sessionId := by
  cases h with
  | own h => exact (step_local h).sessionId
  | _ => rfl

theorem Move.alive (h : Move env A A') (halive : A'.isAlive) : A.isAlive := by
  cases h with
  | own h => exact (step_local h).alive halive
  | writeErr w hw hlife => simp [isAlive, hlife, Life.mailboxOpen]
  | dropAborts | dropRemove => exact absurd halive Bool.false_ne_true
  | _ => exact halive

end Session

/-- The changes of one request. -/
inductive Call.Move (R : Call) : Call → Prop
  | stay : Move R R
  | cancel (hbusy : R.handler.inProgress) : Move R { R with handler := .cancelled }
  | body (total : Nat) (e : BodyEvent) (hh : R.handler = .nextChunk total) :
      Move R (Server.bodyStep R total e)
  | askWrite (total : Nat) (data : Bytes) (hh : R.handler = .sendWrite total data) :
      Move R { R with handler := .awaitWrite total data }
  | askRead (hh : R.handler = .sendRead) : Move R { R with handler := .awaitRead }
  | askFailed (e : HttpError) (he : Server.askError R.handler = some e) :
      Move R { R with handler := .done (.error e) }
  | wrote (total : Nat) (data : Bytes) (hh : R.handler = .wrote total data) :
      Move R { R with handler := .nextChunk (total + data.length) }
  | granted (hh : R.handler = .readReply true) :
      Move R { R with handler := .done (.ok Server.streamResponse) }
  | refused (hh : R.handler = .readReply false) :
      Move R { R with handler := .done (.error
        ⟨"Multiple read requests are not allowed", .tooManyRequests⟩) }
  | reply (b : Bool) : Move R { R with handler := Server.onReply b R.handler }

/-- The changes of the stream of `r`. -/
inductive ReadStream.Move (r : ReqId) (st : ReadStream) : ServerEvent → ReadStream → Prop
  | stay (e : ServerEvent) : Move r st e st
  | wait (hactive : st.active) (hturn : st.turn.betweenReads)
      (hwait : st.first ∨ st.turn = .reading) :
      Move r st (.poll r .pending) { st with first := false, turn := .reading }
  | data (n : Nat) (bytes : Bytes) (hactive : st.active) (hturn : st.turn.betweenReads)
      (hne : bytes ≠ []) :
      Move r st (.poll r (.data n)) { st with first := false, turn := .telling bytes }
  | finish (res : ReadResult) (hactive : st.active) (hturn : st.turn.betweenReads)
      (hres : res = .pending ∧ st.first = false ∧ st.turn = .idle ∨ res = .eof ∨ res = .error) :
      Move r st (.poll r res) { st with ended := true }
  | yield (bytes : Bytes) (hactive : st.active) (hturn : st.turn = .telling bytes) :
      Move r st (.tell r) { st with turn := .idle, frames := st.frames ++ [bytes] }
  | abort (a : ActorRef) : Move r st (.dropAborts a) { st with aborted := true }
  | stop (habort : st.aborted) (hopen : st.ended = false) (hkept : st.dropped = false) :
      Move r st (.pollAborted r) { st with ended := true }
  | drop (hkept : st.dropped = false) : Move r st (.dropStream r) { st with dropped := true }

namespace Server

variable {env : ServerEnv} {s t : Server} {a b : ActorRef} {A A' B : Session}

/-- An actor of the new state has just been spawned, or has made a move. -/
structure Spawned (env : ServerEnv) (s : Server) (e : ServerEvent) (t : Server) (b : ActorRef)
    (x : Uuid) : Prop where
  event : ∃ r req, e = .request r req b ∧ req.sessionId env.http env.sessionKey = some x ∧
    (req.method = .get ∨ req.method = .post)
  fresh : s.actors b = none
  absent : s.Absent x
  sessions : t.sessions = update s.sessions x (some b)

theorem move_setActor (ha : s.actors a = some A) (hmove : Session.Move env A A')
    (hB : update s.actors a (some A') b = some B) :
    ∃ B₀, s.actors b = some B₀ ∧ Session.Move env B₀ B := by
  by_cases hb : b = a
  · subst hb
    obtain rfl : A' = B := by simpa using hB
    exact ⟨A, ha, hmove⟩
  · exact ⟨B, by simpa [hb] using hB, .stay⟩

theorem Step.move {e : ServerEvent} (h : Step env s e t) (hB : t.actors b = some B) :
    (∃ B₀, s.actors b = some B₀ ∧ Session.Move env B₀ B) ∨
      ∃ x, B = .spawn x ∧ Spawned env s e t b x := by
  cases h with
  | create x hr hfresh hx hmethod hvacant =>
      refine (newSession_cases hB).imp (fun hold => ⟨B, hold, .stay⟩) ?_
      rintro ⟨rfl, rfl⟩
      exact ⟨x, rfl, ⟨⟨_, _, rfl, hx, hmethod⟩, hfresh, .of_vacant hvacant, rfl⟩⟩
  | replace x d hr hfresh hx hmethod hd hdead =>
      refine (newSession_cases hB).imp (fun hold => ⟨B, hold, .stay⟩) ?_
      rintro ⟨rfl, rfl⟩
      exact ⟨x, rfl, ⟨⟨_, _, rfl, hx, hmethod⟩, hfresh, .of_dead hd hdead, rfl⟩⟩
  | askWrite R a A total data hr hR ha hh halive =>
      exact .inl (move_setActor ha (.acceptWrite _ data halive) hB)
  | askRead R a A hr hR ha hh halive =>
      exact .inl (move_setActor ha (.enqueue (.read _) (by simp) halive) hB)
  | actor A A' ha hA => exact .inl (move_setActor ha (.own hA) hB)
  | handleGranted A rest r ha hm hlife hidle hfree =>
      rw [replyTo_actors] at hB
      exact .inl (move_setActor ha (.grant rest r hm hlife hidle hfree) hB)
  | handleRefused A rest r q ha hm hlife hidle =>
      rw [replyTo_actors] at hB
      exact .inl (move_setActor ha (.refuse rest r hm hlife hidle) hB)
  | handleWrite A rest r bytes ha hm hlife hidle =>
      exact .inl (move_setActor ha (.takeWrite rest r bytes hm hlife hidle) hB)
  | handleReset A rest ha hm hlife hidle =>
      exact .inl (move_setActor ha (.takeReset s.now rest hm hlife hidle) hB)
  | writeOk A w ha hw hlife hall =>
      rw [replyTo_actors] at hB
      exact .inl (move_setActor ha (.writeOk w hw hlife hall) hB)
  | writeErr A w ha hw hlife hpart =>
      rw [replyTo_actors] at hB
      exact .inl (move_setActor ha (.writeErr w hw hlife hpart) hB)
  | dropAborts A ha hlife =>
      rw [dropAbortsStep_actors] at hB
      exact .inl (move_setActor ha (.dropAborts hlife) hB)
  | dropRemove A ha hlife => exact .inl (move_setActor ha (.dropRemove hlife) hB)
  | pollEnd st R A hst hr ha => exact .inl (move_setActor ha (.release _) hB)
  | pollData st R A hst hr ha hactive hresp hturn hpos hcap hlen =>
      exact .inl (move_setActor ha (.read _ hlen) hB)
  | tellSent st A bytes hst ha hturn hactive halive =>
      exact .inl (move_setActor ha (.enqueue .resetIdleTimeout (by simp) halive) hB)
  | dropStream st A hst ha => exact .inl (move_setActor ha (.release _) hB)
  | _ => exact .inl ⟨B, hB, .stay⟩

theorem kept_update {α : Type*} {f : Nat → Option α} {a b : Nat} {B : α} (A' : α)
    (hB : f b = some B) : ∃ B', update f a (some A') b = some B' := by
  by_cases hb : b = a
  · subst hb
    exact ⟨A', by simp⟩
  · exact ⟨B, by simpa [hb] using hB⟩

/-- Actors are never forgotten. -/
theorem Step.actor_kept {e : ServerEvent} (h : Step env s e t) (hB : s.actors b = some B) :
    ∃ B', t.actors b = some B' := by
  cases h with
  | create | replace | askWrite | askRead | actor | handleWrite | handleReset | dropRemove
  | pollEnd | pollData | tellSent | dropStream => exact kept_update _ hB
  | handleGranted | handleRefused | writeOk | writeErr =>
      rw [replyTo_actors]
      exact kept_update _ hB
  | dropAborts =>
      rw [dropAbortsStep_actors]
      exact kept_update _ hB
  | _ => exact ⟨B, hB⟩

theorem move_of_step {e : ServerEvent} (ha : s.actors a = some A) (hstep : step env s e = some t)
    (ha' : t.actors a = some A') : Session.Move env A A' := by
  rcases (Step.of_step hstep).move ha' with ⟨A₀, ha₀, hmove⟩ | ⟨x, _, hnew⟩
  · obtain rfl : A = A₀ := Option.some.inj (ha.symm.trans ha₀)
    exact hmove
  · exact absurd (hnew.fresh.symm.trans ha) (Option.some_ne_none A).symm

theorem actor_of_step {e : ServerEvent} (ha : s.actors a = some A)
    (hstep : step env s e = some t) : ∃ A', t.actors a = some A' ∧ Session.Move env A A' := by
  obtain ⟨A', ha'⟩ := (Step.of_step hstep).actor_kept ha
  exact ⟨A', ha', move_of_step ha hstep ha'⟩

theorem cases_update {α : Type*} {f : Nat → Option α} {a b : Nat} {A A' B B' : α}
    (ha : f a = some A) (hb : f b = some B) (hB' : update f a (some A') b = some B') :
    b = a ∧ B = A ∧ B' = A' ∨ b ≠ a ∧ B' = B := by
  by_cases hne : b = a
  · subst hne
    exact .inl ⟨rfl, Option.some.inj (hb.symm.trans ha), by simpa using hB'.symm⟩
  · rw [Function.update_of_ne hne] at hB'
    exact .inr ⟨hne, Option.some.inj (hB'.symm.trans hb)⟩

theorem same_setActor {β : Type*} (f : Session → β) (ha : s.actors a = some A)
    (hb : s.actors b = some B) {B' : Session} (hB' : update s.actors a (some A') b = some B')
    (hf : f A' = f A) : f B' = f B := by
  rcases cases_update ha hb hB' with ⟨_, rfl, rfl⟩ | ⟨_, rfl⟩
  · exact hf
  · rfl

/-- The steps that take an actor from one stage of its life to the next. -/
inductive LifeStep (env : ServerEnv) (s : Server) (b : ActorRef) (B : Session) :
    ServerEvent → Session → Prop
  | own (e : ActorEvent) (B' : Session) (h : B.step env s.now e = some B') :
      LifeStep env s b B (.actor b e) B'
  | writeErr (w : Writing) (hlife : B.life = .running) :
      LifeStep env s b B (.writeErr b) (B.writeErr w)
  | dropAborts (hlife : B.life = .closed) : LifeStep env s b B (.dropAborts b) B.dropAborts
  | dropRemove (hlife : B.life = .dropping) :
      LifeStep env s b B (.dropRemove b) { B with life := .dropped }

theorem Step.life {e : ServerEvent} {B' : Session} (h : Step env s e t)
    (hb : s.actors b = some B) (hB' : t.actors b = some B') :
    B'.life = B.life ∨ LifeStep env s b B e B' := by
  cases h with
  | create x hr hfresh | replace x d hr hfresh =>
      have hkept := newSession_kept x hfresh hb
      exact .inl (congrArg Session.life (Option.some.inj (hB'.symm.trans hkept)))
  | askWrite R a A total data hr hR ha | askRead R a A hr hR ha =>
      exact .inl (same_setActor Session.life ha hb hB' rfl)
  | actor A A' ha hA =>
      rcases cases_update ha hb hB' with ⟨rfl, rfl, rfl⟩ | ⟨_, rfl⟩
      · exact .inr (.own _ _ hA)
      · exact .inl rfl
  | handleGranted A rest r ha | handleRefused A rest r q ha =>
      rw [replyTo_actors] at hB'
      exact .inl (same_setActor Session.life ha hb hB' rfl)
  | handleWrite A rest r bytes ha | handleReset A rest ha =>
      exact .inl (same_setActor Session.life ha hb hB' rfl)
  | writeOk A w ha =>
      rw [replyTo_actors] at hB'
      exact .inl (same_setActor Session.life ha hb hB' rfl)
  | writeErr A w ha hw hlife =>
      rw [replyTo_actors] at hB'
      rcases cases_update ha hb hB' with ⟨rfl, rfl, rfl⟩ | ⟨_, rfl⟩
      · exact .inr (.writeErr w hlife)
      · exact .inl rfl
  | dropAborts A ha hlife =>
      rw [dropAbortsStep_actors] at hB'
      rcases cases_update ha hb hB' with ⟨rfl, rfl, rfl⟩ | ⟨_, rfl⟩
      · exact .inr (.dropAborts hlife)
      · exact .inl rfl
  | dropRemove A ha hlife =>
      rcases cases_update ha hb hB' with ⟨rfl, rfl, rfl⟩ | ⟨_, rfl⟩
      · exact .inr (.dropRemove hlife)
      · exact .inl rfl
  | pollEnd u R A hu hr ha | pollData u R A hu hr ha =>
      exact .inl (same_setActor Session.life ha hb hB' rfl)
  | tellSent u A bytes hu ha | dropStream u A hu ha =>
      exact .inl (same_setActor Session.life ha hb hB' rfl)
  | _ => exact .inl (congrArg Session.life (Option.some.inj (hB'.symm.trans hb)))

/-- What a fresh session satisfies and every move keeps holds of every actor. -/
theorem actor_invariant {I : Session → Prop} (hspawn : ∀ x, I (.spawn x))
    (hmove : ∀ A A', I A → Session.Move env A A' → I A')
    (h : (machine env).Reachable s) (ha : s.actors a = some A) : I A := by
  refine h.invariant (I := fun s => ∀ a A, s.actors a = some A → I A) ?_ ?_ a A ha
  · intro a A ha
    simp [machine, init] at ha
  · intro s e t _ hI hstep b B hB
    rcases (Step.of_step hstep).move hB with ⟨B₀, hB₀, hm⟩ | ⟨x, rfl, _⟩
    · exact hmove B₀ B (hI b B₀ hB₀) hm
    · exact hspawn x

/-- A request that has just arrived: it was refused at once, or handed over. -/
inductive Arrived (env : ServerEnv) (r : ReqId) (req : Request) : Call → Prop
  | refused (x : Option Uuid) (e : HttpError) (hcode : e.code = .badRequest)
      (hx : x = req.sessionId env.http env.sessionKey) :
      Arrived env r req ⟨x, req.method, none, .done (.error e), []⟩
  | started (x : Uuid) (a : ActorRef) (hx : req.sessionId env.http env.sessionKey = some x) :
      Arrived env r req ⟨some x, req.method, some a, startHandler req.method, []⟩

theorem move_setCall {r q : ReqId} {R R' Q : Call} (hr : s.calls r = some R)
    (hmove : Call.Move R R') (hQ : update s.calls r (some R') q = some Q) :
    ∃ Q₀, s.calls q = some Q₀ ∧ Call.Move Q₀ Q := by
  by_cases hq : q = r
  · subst hq
    obtain rfl : R' = Q := by simpa using hQ
    exact ⟨R, hr, hmove⟩
  · exact ⟨Q, by simpa [hq] using hQ, .stay⟩

theorem move_replyTo {r q : ReqId} {b : Bool} {Q : Call} (hcalls : t.calls = s.calls)
    (hQ : (t.replyTo r b).calls q = some Q) : ∃ Q₀, s.calls q = some Q₀ ∧ Call.Move Q₀ Q := by
  rw [replyTo_calls, hcalls] at hQ
  by_cases hq : q = r
  · subst hq
    rw [if_pos rfl] at hQ
    obtain ⟨R, hr, rfl⟩ := Option.map_eq_some_iff.mp hQ
    exact ⟨R, hr, .reply b⟩
  · rw [if_neg hq] at hQ
    exact ⟨Q, hQ, .stay⟩

theorem move_newCall {r q : ReqId} {R Q : Call} (hr : s.calls r = none)
    (hQ : update s.calls r (some R) q = some Q) :
    (∃ Q₀, s.calls q = some Q₀ ∧ Call.Move Q₀ Q) ∨ s.calls q = none ∧ q = r ∧ Q = R := by
  by_cases hq : q = r
  · subst hq
    exact .inr ⟨hr, rfl, by simpa using hQ.symm⟩
  · exact .inl ⟨Q, by simpa [hq] using hQ, .stay⟩

theorem Step.call {e : ServerEvent} {r : ReqId} {R : Call} (h : Step env s e t)
    (hR : t.calls r = some R) :
    (∃ R₀, s.calls r = some R₀ ∧ Call.Move R₀ R) ∨
      s.calls r = none ∧ ∃ req fresh, e = .request r req fresh ∧ Arrived env r req R := by
  cases h with
  | reject x e hr hcode hx =>
      refine (move_newCall hr hR).imp_right fun hnew => ?_
      obtain ⟨hnone, rfl, rfl⟩ := hnew
      exact ⟨hnone, _, _, rfl, .refused x e hcode hx⟩
  | join x b hr hx =>
      refine (move_newCall hr hR).imp_right fun hnew => ?_
      obtain ⟨hnone, rfl, rfl⟩ := hnew
      exact ⟨hnone, _, _, rfl, .started x b hx⟩
  | create x hr hfresh hx | replace x d hr hfresh hx =>
      refine (move_newCall hr hR).imp_right fun hnew => ?_
      obtain ⟨hnone, rfl, rfl⟩ := hnew
      exact ⟨hnone, _, _, rfl, .started x _ hx⟩
  | cancel R hr hbusy => exact .inl (move_setCall hr (.cancel hbusy) hR)
  | body R total hr hh => exact .inl (move_setCall hr (.body total _ hh) hR)
  | askWrite R a A total data hr hR' ha hh =>
      exact .inl (move_setCall hr (.askWrite total data hh) hR)
  | askRead R a A hr hR' ha hh => exact .inl (move_setCall hr (.askRead hh) hR)
  | askFailed R a A e hr hR' ha he => exact .inl (move_setCall hr (.askFailed e he) hR)
  | replyWrote R total data hr hh => exact .inl (move_setCall hr (.wrote total data hh) hR)
  | replyGranted R hr hh => exact .inl (move_setCall hr (.granted hh) hR)
  | replyRefused R hr hh => exact .inl (move_setCall hr (.refused hh) hR)
  | handleGranted | handleRefused | writeOk | writeErr =>
      refine .inl (move_replyTo ?_ hR)
      rfl
  | dropAborts A ha hlife => exact .inl ⟨R, by simpa using hR, .stay⟩
  | _ => exact .inl ⟨R, hR, .stay⟩

/-- What an arriving request satisfies and every move keeps holds of every request. -/
theorem call_invariant {I : Call → Prop} {r : ReqId} {R : Call}
    (harrived : ∀ r req R, Arrived env r req R → I R)
    (hmove : ∀ R R', I R → Call.Move R R' → I R')
    (h : (machine env).Reachable s) (hr : s.calls r = some R) : I R := by
  refine h.invariant (I := fun s => ∀ r R, s.calls r = some R → I R) ?_ ?_ r R hr
  · intro r R hr
    simp [machine, init] at hr
  · intro s e t _ hI hstep r R hR
    rcases (Step.of_step hstep).call hR with ⟨R₀, hR₀, hm⟩ | ⟨_, req, fresh, _, hnew⟩
    · exact hmove R₀ R (hI r R₀ hR₀) hm
    · exact harrived r req R hnew

/-- The requests of a run's last state have all arrived in it. -/
theorem requested_of_run {C : Server → ServerEvent → Prop} {es : List ServerEvent} {r : ReqId}
    {R : Call} (h : (machine env).Run C es s) (hr : s.calls r = some R) :
    ∃ req fresh, .request r req fresh ∈ es := by
  induction h generalizing R with
  | nil => simp [machine, init] at hr
  | snoc _ _ hstep ih =>
      rcases (Step.of_step hstep).call hr with ⟨R₀, hR₀, _⟩ | ⟨_, req, fresh, rfl, _⟩
      · obtain ⟨req, fresh, hmem⟩ := ih hR₀
        exact ⟨req, fresh, List.mem_append_left _ hmem⟩
      · exact ⟨req, fresh, by simp⟩

/-- A stream that a session has just returned. -/
structure Returned (s : Server) (e : ServerEvent) (r : ReqId) (st : ReadStream) : Prop where
  fresh : s.streams r = none
  start : st = .start st.session
  event : e = .handle st.session
  actor : ∃ A rest, s.actors st.session = some A ∧ A.mailbox = .read r :: rest ∧
    A.life = .running ∧ A.handling = none ∧ A.reader = none

theorem move_setStream {e : ServerEvent} {q r : ReqId} {u u' st : ReadStream}
    (hu : s.streams q = some u) (hmove : u.Move q e u')
    (hst : update s.streams q (some u') r = some st) :
    ∃ st₀, s.streams r = some st₀ ∧ st₀.Move r e st := by
  by_cases hr : r = q
  · subst hr
    obtain rfl : u' = st := by simpa using hst
    exact ⟨u, hu, hmove⟩
  · exact ⟨st, by simpa [hr] using hst, .stay e⟩

theorem Step.stream {e : ServerEvent} {r : ReqId} {st : ReadStream} (h : Step env s e t)
    (hcoherent : Coherent s) (hst : t.streams r = some st) :
    (∃ st₀, s.streams r = some st₀ ∧ st₀.Move r e st) ∨ Returned s e r st := by
  cases h with
  | @handleGranted a A rest q ha hm hlife hidle hfree =>
      rw [replyTo_streams, setStream_streams, setActor_streams] at hst
      by_cases hr : r = q
      · subst hr
        obtain rfl : ReadStream.start a = st := by simpa using hst
        refine .inr ⟨hcoherent.unread ha ?_, rfl, rfl, A, rest, ha, hm, hlife, hidle, hfree⟩
        simp [Session.asked_cons hm hidle]
      · exact .inl ⟨st, by simpa [hr] using hst, .stay _⟩
  | handleRefused | writeOk | writeErr =>
      rw [replyTo_streams, setActor_streams] at hst
      exact .inl ⟨st, hst, .stay _⟩
  | @dropAborts a A ha =>
      unfold dropAbortsStep at hst
      dsimp only at hst
      split at hst
      · exact .inl ⟨st, hst, .stay _⟩
      · split at hst
        · exact .inl ⟨st, hst, .stay _⟩
        · next u hu => exact .inl (move_setStream hu (.abort a) hst)
  | pollPending u R A hu hr ha hactive hresp hturn hwait =>
      exact .inl (move_setStream hu (.wait hactive hturn hwait) hst)
  | @pollEnd q res u R A hu hr ha hactive hresp hturn hres =>
      have hres' := hres.imp_right (Or.imp_left And.left)
      exact .inl (move_setStream hu (.finish res hactive hturn hres') hst)
  | @pollData q n u R A hu hr ha hactive hresp hturn hpos hcap hlen =>
      refine .inl (move_setStream hu (.data n _ hactive hturn ?_) hst)
      rw [← List.length_pos_iff, List.length_take]
      omega
  | tellSent u A bytes hu ha hturn hactive | tellSkipped u A bytes hu ha hturn hactive =>
      exact .inl (move_setStream hu (.yield bytes hactive hturn) hst)
  | pollAborted u hu habort hopen hkept =>
      exact .inl (move_setStream hu (.stop habort hopen hkept) hst)
  | dropStream u A hu ha hkept => exact .inl (move_setStream hu (.drop hkept) hst)
  | _ => exact .inl ⟨st, hst, .stay _⟩

/-- Streams are never forgotten. -/
theorem Step.stream_kept {e : ServerEvent} {r : ReqId} {st : ReadStream} (h : Step env s e t)
    (hst : s.streams r = some st) : ∃ st', t.streams r = some st' := by
  cases h with
  | handleGranted =>
      rw [replyTo_streams]
      exact kept_update _ hst
  | handleRefused | writeOk | writeErr =>
      rw [replyTo_streams]
      exact ⟨st, hst⟩
  | dropAborts =>
      unfold dropAbortsStep
      dsimp only
      split
      · exact ⟨st, hst⟩
      · split
        · exact ⟨st, hst⟩
        · exact kept_update _ hst
  | pollPending | pollEnd | pollData | tellSent | tellSkipped | pollAborted | dropStream =>
      exact kept_update _ hst
  | _ => exact ⟨st, hst⟩

/-- Only a request names anything new. -/
theorem Step.unknown {e : ServerEvent} (h : Step env s e t)
    (he : ∀ r req fresh, e ≠ .request r req fresh) :
    (∀ r, s.calls r = none → t.calls r = none) ∧ ∀ a, s.actors a = none → t.actors a = none := by
  constructor
  · intro r hr
    refine Option.eq_none_iff_forall_ne_some.mpr fun R hR => ?_
    rcases h.call hR with ⟨R₀, hR₀, _⟩ | ⟨_, req, fresh, heq, _⟩
    · exact absurd (hr.symm.trans hR₀) (by simp)
    · exact he r req fresh heq
  · intro a ha
    refine Option.eq_none_iff_forall_ne_some.mpr fun A hA => ?_
    rcases h.move hA with ⟨A₀, hA₀, _⟩ | ⟨x, _, hnew⟩
    · exact absurd (ha.symm.trans hA₀) (by simp)
    · obtain ⟨r, req, heq, _⟩ := hnew.event
      exact he r req a heq

/-- Only finitely many requests and actors are known. -/
theorem exists_bound (hs : (machine env).Reachable s) :
    ∃ n : Nat, ∀ m : Nat, n ≤ m → s.calls m = none ∧ s.actors m = none := by
  refine hs.invariant
    (I := fun s => ∃ n : Nat, ∀ m : Nat, n ≤ m → s.calls m = none ∧ s.actors m = none)
    ⟨0, fun _ _ => ⟨rfl, rfl⟩⟩ ?_
  rintro s e t - ⟨n, hn⟩ hstep
  have hcases := Step.of_step hstep
  by_cases he : ∃ r req fresh, e = .request r req fresh
  · obtain ⟨r, req, fresh, rfl⟩ := he
    refine ⟨max n (max (r + 1) (fresh + 1)), fun m hm => ⟨?_, ?_⟩⟩
    · refine Option.eq_none_iff_forall_ne_some.mpr fun R hR => ?_
      rcases hcases.call hR with ⟨R₀, hR₀, _⟩ | ⟨_, req', fresh', heq, _⟩
      · exact absurd ((hn m (by omega)).1.symm.trans hR₀) (by simp)
      · injection heq with hr
        subst hr
        omega
    · refine Option.eq_none_iff_forall_ne_some.mpr fun A hA => ?_
      rcases hcases.move hA with ⟨A₀, hA₀, _⟩ | ⟨x, _, hnew⟩
      · exact absurd ((hn m (by omega)).2.symm.trans hA₀) (by simp)
      · obtain ⟨r', req', heq, _⟩ := hnew.event
        injection heq with _ _ hfresh
        subst hfresh
        omega
  · obtain ⟨hcalls, hactors⟩ := hcases.unknown fun r req fresh heq => he ⟨r, req, fresh, heq⟩
    exact ⟨n, fun m hm => ⟨hcalls m (hn m hm).1, hactors m (hn m hm).2⟩⟩

end Server
end Fronting
