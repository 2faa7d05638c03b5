import Fronting.ServerStep

/-!
# Who refers to whom

Requests, sessions and streams name one another by reference. `Coherent` says
that each name is defined, that both ends of a reference belong to the same
session id, and that an actor has at most one message of each request.
-/

namespace Fronting

open Function (update)

def Message.req : Message → Option ReqId
  | .read r => some r
  | .write r _ => some r
  | .resetIdleTimeout => none

namespace Session

variable {env : ServerEnv} {now : Nat} {A A' : Session} {e : ActorEvent}

/-- The messages that the actor has not answered. -/
def asked (A : Session) : List Message :=
  (A.handling.map fun w => Message.write w.req w.bytes).toList ++ A.mailbox

/-- The requests that wait for a reply of this actor. -/
def pending (A : Session) : List ReqId := A.asked.filterMap Message.req

theorem mem_pending {r : ReqId} : r ∈ A.pending ↔ ∃ m ∈ A.asked, m.req = some r := by
  simp [pending]

/-- What an actor's own steps leave alone. -/
structure Local (A A' : Session) : Prop where
  sessionId : A'.sessionId = A.sessionId
  reader : A'.reader = A.reader
  readAbort : A'.upstreamReadAbort = A.upstreamReadAbort
  accepted : A'.accepted = A.accepted
  finished : A'.finished = A.finished
  opened : A'.opened = A.opened
  mailbox : A'.mailbox = A.mailbox ∨ A'.mailbox = [] ∧ A'.isAlive = false
  alive : A'.isAlive → A.isAlive
  handling : A'.handling.map (fun w => (w.req, w.bytes)) = A.handling.map fun w => (w.req, w.bytes)

theorem local_closeMailbox {life : Life} (hlife : life.mailboxOpen = false) :
    Local A (A.closeMailbox life) := by
  have hdead : (A.closeMailbox life).isAlive = false := hlife
  exact ⟨rfl, rfl, rfl, rfl, rfl, rfl, .inr ⟨rfl, hdead⟩, fun h => by simp [hdead] at h, rfl⟩

theorem step_local (h : A.step env now e = some A') : Local A A' := by
  cases Own.of_step h with
  | start hlife | connect txCap rxCap hlife =>
      have halive : A.isAlive = true := by simp [isAlive, hlife, Life.mailboxOpen]
      exact ⟨rfl, rfl, rfl, rfl, rfl, rfl, .inl rfl, fun _ => halive, rfl⟩
  | connectKilled =>
      exact ⟨rfl, rfl, rfl, rfl, rfl, rfl, .inr ⟨rfl, rfl⟩, fun h => absurd h Bool.false_ne_true,
        rfl⟩
  | connectError | close | abort => exact local_closeMailbox rfl
  | write n w hw => exact ⟨rfl, rfl, rfl, rfl, rfl, rfl, .inl rfl, id, by simp [hw]⟩
  | fire | upstreamTake | upstreamSend | upstreamEof =>
      exact ⟨rfl, rfl, rfl, rfl, rfl, rfl, .inl rfl, id, rfl⟩

theorem Local.asked_sublist (h : Local A A') : A'.asked.Sublist A.asked := by
  have hw : A'.handling.map (fun w => Message.write w.req w.bytes) =
      A.handling.map fun w => Message.write w.req w.bytes := by
    have hmap := congrArg (Option.map fun p : ReqId × Bytes => Message.write p.1 p.2) h.handling
    simpa [Option.map_map, Function.comp_def] using hmap
  unfold asked
  rw [hw]
  rcases h.mailbox with hm | ⟨hm, _⟩
  · rw [hm]
  · simp [hm]

theorem asked_cons {m : Message} {rest : List Message} (hm : A.mailbox = m :: rest)
    (hidle : A.handling = none) :
    A.asked = m :: ({ A with mailbox := rest } : Session).asked := by
  simp [asked, hm, hidle]

theorem asked_handling {w : Writing} (hw : A.handling = some w) :
    A.asked = .write w.req w.bytes :: ({ A with handling := none } : Session).asked := by
  simp [asked, hw]

theorem mailbox_writeOk (env : ServerEnv) (A : Session) (w : Writing) :
    (A.writeOk env w).mailbox = A.mailbox ∨
      (A.writeOk env w).mailbox = A.mailbox ++ [.resetIdleTimeout] := by
  by_cases hroom : A.mailbox.length < env.mailboxCapacity
  · exact .inr (by simp [writeOk, tryResetIdleTimeout, hroom])
  · exact .inl (by simp [writeOk, tryResetIdleTimeout, hroom])

end Session

namespace Handler

/-- The request waits for the reply to this message, or has stopped waiting. -/
def awaits : Handler → Message → Bool
  | .awaitWrite _ data, .write _ bytes => data = bytes
  | .awaitRead, .read _ => true
  | .cancelled, _ => true
  | _, _ => false

theorem awaits_write {h : Handler} {r : ReqId} {bytes : Bytes} (hwait : h.awaits (.write r bytes)) :
    (∃ total, h = .awaitWrite total bytes) ∨ h = .cancelled := by
  cases h with
  | awaitWrite total data =>
      obtain rfl : data = bytes := by simpa [awaits] using hwait
      exact .inl ⟨total, rfl⟩
  | cancelled => exact .inr rfl
  | _ => simp [awaits] at hwait

theorem awaits_read {h : Handler} {r : ReqId} (hwait : h.awaits (.read r)) :
    h = .awaitRead ∨ h = .cancelled := by
  cases h with
  | awaitRead => exact .inl rfl
  | cancelled => exact .inr rfl
  | _ => simp [awaits] at hwait

/-- The request may own a stream. -/
def served : Handler → Bool
  | .readReply _ | .done _ | .cancelled => true
  | _ => false

theorem served_onReply_of_served {h : Handler} (b : Bool) (hs : h.served) :
    (Server.onReply b h).served := by
  cases h <;> simp_all [served, Server.onReply]

end Handler

namespace Server

variable {env : ServerEnv} {s t : Server} {a : ActorRef} {A A' : Session} {r : ReqId}
  {R R' : Call} {st st' : ReadStream}

structure Coherent (s : Server) : Prop where
  table : ∀ {x a}, s.sessions x = some a → ∃ A, s.actors a = some A ∧ A.sessionId = x
  call : ∀ {r R a}, s.calls r = some R → R.session = some a →
    ∃ A, s.actors a = some A ∧ R.sessionId = some A.sessionId
  asked : ∀ {a A m r}, s.actors a = some A → m ∈ A.asked → m.req = some r →
    ∃ R, s.calls r = some R ∧ R.session = some a ∧ (A.isAlive → R.handler.awaits m)
  nodup : ∀ {a A}, s.actors a = some A → A.pending.Nodup
  stream : ∀ {r st}, s.streams r = some st →
    ∃ R, s.calls r = some R ∧ R.session = some st.session ∧ R.handler.served
  unread : ∀ {a A r}, s.actors a = some A → .read r ∈ A.asked → s.streams r = none
  reader : ∀ {a A r}, s.actors a = some A → A.reader = some r →
    ∃ st, s.streams r = some st ∧ st.session = a
  readAbort : ∀ {a A r}, s.actors a = some A → A.upstreamReadAbort = some r →
    ∃ st, s.streams r = some st ∧ st.session = a

theorem coherent_init : Coherent init := by
  constructor <;> intros <;> simp_all [init]

theorem Coherent.actor_of_stream (h : Coherent s) (hst : s.streams r = some st) :
    ∃ A, s.actors st.session = some A := by
  obtain ⟨R, hr, hR, _⟩ := h.stream hst
  obtain ⟨A, ha, _⟩ := h.call hr hR
  exact ⟨A, ha⟩

/-- An actor may change as long as its new references are defined. -/
theorem Coherent.setActor (h : Coherent s) (ha : s.actors a = some A)
    (hid : A'.sessionId = A.sessionId) (hnodup : A'.pending.Nodup)
    (hasked : ∀ m ∈ A'.asked, ∀ r, m.req = some r → (m ∈ A.asked ∧ (A'.isAlive → A.isAlive)) ∨
      ∃ R, s.calls r = some R ∧ R.session = some a ∧ (A'.isAlive → R.handler.awaits m))
    (hunread : ∀ r, .read r ∈ A'.asked → .read r ∈ A.asked ∨ s.streams r = none)
    (hreader : ∀ r, A'.reader = some r → A.reader = some r ∨
      ∃ st, s.streams r = some st ∧ st.session = a)
    (habort : ∀ r, A'.upstreamReadAbort = some r → A.upstreamReadAbort = some r ∨
      ∃ st, s.streams r = some st ∧ st.session = a) : Coherent (s.setActor a A') := by
  have hother : ∀ b B, (s.setActor a A').actors b = some B →
      b = a ∧ B = A' ∨ s.actors b = some B := by
    intro b B hB
    by_cases hb : b = a
    · subst hb
      exact .inl ⟨rfl, by simpa using hB.symm⟩
    · exact .inr (by simpa [hb] using hB)
  have hkeep : ∀ b B, s.actors b = some B →
      ∃ B', (s.setActor a A').actors b = some B' ∧ B'.sessionId = B.sessionId := by
    intro b B hB
    by_cases hb : b = a
    · subst hb
      exact ⟨A', by simp, by rw [hid, Option.some.inj (ha.symm.trans hB)]⟩
    · exact ⟨B, by simpa [hb] using hB, rfl⟩
  constructor
  · intro x b hx
    obtain ⟨B, hB, rfl⟩ := h.table hx
    exact hkeep b B hB
  · intro r R b hr hR
    obtain ⟨B, hB, hx⟩ := h.call hr hR
    obtain ⟨B', hB', hid'⟩ := hkeep b B hB
    exact ⟨B', hB', hid' ▸ hx⟩
  · intro b B m r hB hm hr
    rcases hother b B hB with ⟨rfl, rfl⟩ | hB
    · rcases hasked m hm r hr with ⟨hm, halive⟩ | hnew
      · obtain ⟨R, hcall, hR, hwait⟩ := h.asked ha hm hr
        exact ⟨R, hcall, hR, fun hal => hwait (halive hal)⟩
      · exact hnew
    · exact h.asked hB hm hr
  · intro b B hB
    rcases hother b B hB with ⟨rfl, rfl⟩ | hB
    · exact hnodup
    · exact h.nodup hB
  · exact h.stream
  · intro b B r hB hr
    rcases hother b B hB with ⟨rfl, rfl⟩ | hB
    · exact (hunread r hr).elim (h.unread ha) id
    · exact h.unread hB hr
  · intro b B r hB hr
    rcases hother b B hB with ⟨rfl, rfl⟩ | hB
    · exact (hreader r hr).elim (h.reader ha) id
    · exact h.reader hB hr
  · intro b B r hB hr
    rcases hother b B hB with ⟨rfl, rfl⟩ | hB
    · exact (habort r hr).elim (h.readAbort ha) id
    · exact h.readAbort hB hr

/-- A change of an actor that adds no reference. -/
theorem Coherent.shrinkActor (h : Coherent s) (ha : s.actors a = some A)
    (hid : A'.sessionId = A.sessionId) (hsub : A'.pending.Sublist A.pending)
    (halive : A'.isAlive → A.isAlive) (hasked : ∀ m ∈ A'.asked, m.req ≠ none → m ∈ A.asked)
    (hreader : A'.reader = A.reader ∨ A'.reader = none)
    (habort : A'.upstreamReadAbort = A.upstreamReadAbort ∨ A'.upstreamReadAbort = none) :
    Coherent (s.setActor a A') := by
  refine h.setActor ha hid (hsub.nodup (h.nodup ha))
    (fun m hm r hr => .inl ⟨hasked m hm (by simp [hr]), halive⟩)
    (fun r hr => .inl (hasked _ hr (by simp [Message.req]))) ?_ ?_
  · intro r hr
    rcases hreader with he | he
    · exact .inl (he ▸ hr)
    · simp [he] at hr
  · intro r hr
    rcases habort with he | he
    · exact .inl (he ▸ hr)
    · simp [he] at hr

theorem Coherent.localActor (h : Coherent s) (ha : s.actors a = some A)
    (hlocal : Session.Local A A') : Coherent (s.setActor a A') := by
  have hsub := hlocal.asked_sublist
  exact h.shrinkActor ha hlocal.sessionId (hsub.filterMap _) hlocal.alive
    (fun m hm _ => hsub.subset hm) (.inl hlocal.reader) (.inl hlocal.readAbort)

/-- A request in progress may go on as long as its messages are still awaited. -/
theorem Coherent.setCall (h : Coherent s) (hr : s.calls r = some R)
    (hsession : R'.session = R.session) (hid : R'.sessionId = R.sessionId)
    (hawait : ∀ a A m, s.actors a = some A → m ∈ A.asked → m.req = some r → A.isAlive →
      R'.handler.awaits m)
    (hserved : R.handler.served → R'.handler.served) : Coherent (s.setCall r R') := by
  have hother : ∀ q Q, (s.setCall r R').calls q = some Q →
      q = r ∧ Q = R' ∨ s.calls q = some Q := by
    intro q Q hQ
    by_cases hq : q = r
    · subst hq
      exact .inl ⟨rfl, by simpa using hQ.symm⟩
    · exact .inr (by simpa [hq] using hQ)
  refine ⟨h.table, ?_, ?_, h.nodup, ?_, h.unread, h.reader, h.readAbort⟩
  · intro q Q b hQ hb
    rcases hother q Q hQ with ⟨rfl, rfl⟩ | hQ
    · rw [hsession] at hb
      rw [hid]
      exact h.call hr hb
    · exact h.call hQ hb
  · intro b B m q hB hm hq
    obtain ⟨Q, hQ, hb, hwait⟩ := h.asked hB hm hq
    by_cases hqr : q = r
    · subst hqr
      obtain rfl : R = Q := Option.some.inj (hr.symm.trans hQ)
      exact ⟨R', by simp, by rw [hsession, hb], hawait b B m hB hm hq⟩
    · exact ⟨Q, by simpa [hqr] using hQ, hb, hwait⟩
  · intro q u hu
    obtain ⟨Q, hQ, hb, hs⟩ := h.stream hu
    by_cases hqr : q = r
    · subst hqr
      obtain rfl : R = Q := Option.some.inj (hr.symm.trans hQ)
      exact ⟨R', by simp, by rw [hsession, hb], hserved hs⟩
    · exact ⟨Q, by simpa [hqr] using hQ, hb, hs⟩

theorem Coherent.newCall (h : Coherent s) (hr : s.calls r = none)
    (hR : ∀ a, R.session = some a → ∃ A, s.actors a = some A ∧ R.sessionId = some A.sessionId) :
    Coherent (s.setCall r R) := by
  have hold : ∀ q Q, s.calls q = some Q → (s.setCall r R).calls q = some Q := by
    intro q Q hQ
    have hq : q ≠ r := by rintro rfl; simp [hr] at hQ
    simpa [hq] using hQ
  refine ⟨h.table, ?_, ?_, h.nodup, ?_, h.unread, h.reader, h.readAbort⟩
  · intro q Q b hQ hb
    by_cases hq : q = r
    · subst hq
      obtain rfl : R = Q := by simpa using hQ
      exact hR b hb
    · exact h.call (by simpa [hq] using hQ) hb
  · intro b B m q hB hm hq
    obtain ⟨Q, hQ, hrest⟩ := h.asked hB hm hq
    exact ⟨Q, hold q Q hQ, hrest⟩
  · intro q u hu
    obtain ⟨Q, hQ, hrest⟩ := h.stream hu
    exact ⟨Q, hold q Q hQ, hrest⟩

theorem Coherent.replyTo (h : Coherent s) (b : Bool)
    (hfree : ∀ a A, s.actors a = some A → r ∈ A.pending → A.isAlive = false) :
    Coherent (s.replyTo r b) := by
  unfold Server.replyTo
  split
  · next R hr =>
    refine h.setCall hr rfl rfl (fun a A m ha hm hreq hal => ?_)
      (Handler.served_onReply_of_served b)
    simp [hfree a A ha (Session.mem_pending.mpr ⟨m, hm, hreq⟩)] at hal
  · exact h

theorem Coherent.setStream (h : Coherent s) (hst : s.streams r = some st)
    (hsession : st'.session = st.session) : Coherent (s.setStream r st') := by
  have hkeep : ∀ q u, s.streams q = some u →
      ∃ u', (s.setStream r st').streams q = some u' ∧ u'.session = u.session := by
    intro q u hu
    by_cases hq : q = r
    · subst hq
      exact ⟨st', by simp, by rw [hsession, Option.some.inj (hst.symm.trans hu)]⟩
    · exact ⟨u, by simpa [hq] using hu, rfl⟩
  refine ⟨h.table, h.call, h.asked, h.nodup, ?_, ?_, ?_, ?_⟩
  · intro q u hu
    by_cases hq : q = r
    · subst hq
      obtain rfl : st' = u := by simpa using hu
      obtain ⟨R, hR, hb, hs⟩ := h.stream hst
      exact ⟨R, hR, by rw [hsession, hb], hs⟩
    · exact h.stream (by simpa [hq] using hu)
  · intro b B q hB hq
    have hnone := h.unread hB hq
    have hqr : q ≠ r := by rintro rfl; simp [hst] at hnone
    simpa [hqr] using hnone
  · intro b B q hB hq
    obtain ⟨u, hu, hb⟩ := h.reader hB hq
    obtain ⟨u', hu', he⟩ := hkeep q u hu
    exact ⟨u', hu', he.trans hb⟩
  · intro b B q hB hq
    obtain ⟨u, hu, hb⟩ := h.readAbort hB hq
    obtain ⟨u', hu', he⟩ := hkeep q u hu
    exact ⟨u', hu', he.trans hb⟩

theorem Coherent.newStream (h : Coherent s) (hst : s.streams r = none)
    (hr : s.calls r = some R) (hR : R.session = some st.session) (hserved : R.handler.served)
    (hunread : ∀ a A, s.actors a = some A → .read r ∉ A.asked) :
    Coherent (s.setStream r st) := by
  have hold : ∀ q u, s.streams q = some u → (s.setStream r st).streams q = some u := by
    intro q u hu
    have hq : q ≠ r := by rintro rfl; simp [hst] at hu
    simpa [hq] using hu
  refine ⟨h.table, h.call, h.asked, h.nodup, ?_, ?_, ?_, ?_⟩
  · intro q u hu
    by_cases hq : q = r
    · subst hq
      obtain rfl : st = u := by simpa using hu
      exact ⟨R, hr, hR, hserved⟩
    · exact h.stream (by simpa [hq] using hu)
  · intro b B q hB hq
    have hqr : q ≠ r := by rintro rfl; exact hunread b B hB hq
    simpa [hqr] using h.unread hB hq
  · intro b B q hB hq
    obtain ⟨u, hu, hb⟩ := h.reader hB hq
    exact ⟨u, hold q u hu, hb⟩
  · intro b B q hB hq
    obtain ⟨u, hu, hb⟩ := h.readAbort hB hq
    exact ⟨u, hold q u hu, hb⟩

theorem Coherent.newSession (h : Coherent s) (x : Uuid) (ha : s.actors a = none) :
    Coherent (s.newSession x a) := by
  have hold : ∀ b B, s.actors b = some B → (s.newSession x a).actors b = some B :=
    fun b B hB => newSession_kept x ha hB
  have hnew : ∀ b B, (s.newSession x a).actors b = some B →
      s.actors b = some B ∨ B = .spawn x :=
    fun b B hB => (newSession_cases hB).imp_right And.right
  refine ⟨?_, ?_, ?_, ?_, h.stream, ?_, ?_, ?_⟩
  · intro y b hy
    by_cases hyx : y = x
    · subst hyx
      obtain rfl : a = b := by simpa using hy
      exact ⟨.spawn y, by simp, rfl⟩
    · obtain ⟨B, hB, hid⟩ := h.table (by simpa [hyx] using hy)
      exact ⟨B, hold b B hB, hid⟩
  · intro r R b hr hR
    obtain ⟨B, hB, hid⟩ := h.call hr hR
    exact ⟨B, hold b B hB, hid⟩
  · intro b B m r hB hm hr
    rcases hnew b B hB with hB | rfl
    · exact h.asked hB hm hr
    · simp [Session.asked, Session.spawn] at hm
  · intro b B hB
    rcases hnew b B hB with hB | rfl
    · exact h.nodup hB
    · simp [Session.pending, Session.asked, Session.spawn]
  · intro b B r hB hr
    rcases hnew b B hB with hB | rfl
    · exact h.unread hB hr
    · simp [Session.asked, Session.spawn] at hr
  · intro b B r hB hr
    rcases hnew b B hB with hB | rfl
    · exact h.reader hB hr
    · simp [Session.spawn] at hr
  · intro b B r hB hr
    rcases hnew b B hB with hB | rfl
    · exact h.readAbort hB hr
    · simp [Session.spawn] at hr

theorem Coherent.call_of_pending (h : Coherent s) (ha : s.actors a = some A)
    (hp : r ∈ A.pending) : ∃ R, s.calls r = some R ∧ R.session = some a := by
  obtain ⟨m, hm, hreq⟩ := Session.mem_pending.mp hp
  obtain ⟨R, hr, hR, _⟩ := h.asked ha hm hreq
  exact ⟨R, hr, hR⟩

theorem Coherent.not_pending (h : Coherent s) (hr : s.calls r = some R)
    (hwait : ∀ m, R.handler.awaits m = false) (ha : s.actors a = some A) (hp : r ∈ A.pending) :
    A.isAlive = false := by
  obtain ⟨m, hm, hreq⟩ := Session.mem_pending.mp hp
  obtain ⟨Q, hQ, _, hal⟩ := h.asked ha hm hreq
  obtain rfl : R = Q := Option.some.inj (hr.symm.trans hQ)
  by_contra halive
  have hm' := hal (by simpa using halive)
  simp [hwait m] at hm'

theorem Coherent.pending_unique (h : Coherent s) {b : ActorRef} {B : Session}
    (ha : s.actors a = some A) (hp : r ∈ A.pending) (hb : s.actors b = some B)
    (hq : r ∈ B.pending) : b = a := by
  obtain ⟨R, hr, hR⟩ := h.call_of_pending ha hp
  obtain ⟨Q, hQ, hRb⟩ := h.call_of_pending hb hq
  obtain rfl : R = Q := Option.some.inj (hr.symm.trans hQ)
  exact Option.some.inj (hRb.symm.trans hR)

/-- Only the references of a state matter. -/
theorem Coherent.congr (h : Coherent s) (hsessions : t.sessions = s.sessions)
    (hactors : t.actors = s.actors) (hcalls : t.calls = s.calls)
    (hstreams : t.streams = s.streams) :
    Coherent t := by
  obtain ⟨now, stats, sessions, actors, calls, streams, taken⟩ := t
  dsimp only at hsessions hactors hcalls hstreams
  subst hsessions hactors hcalls hstreams
  exact ⟨h.table, h.call, h.asked, h.nodup, h.stream, h.unread, h.reader, h.readAbort⟩

/-- A request asks the actor: its message goes into the mailbox. -/
theorem Coherent.enqueue (h : Coherent s) {m : Message} (hm : m.req = some r)
    (hr : s.calls r = some R) (hR : R.session = some a) (ha : s.actors a = some A)
    (halive : A.isAlive) (hfree : ∀ m, R.handler.awaits m = false)
    (hserved : R.handler.served = false) (hsession : R'.session = R.session)
    (hid : R'.sessionId = R.sessionId) (hwait : R'.handler.awaits m)
    (hid' : A'.sessionId = A.sessionId) (hasked : A'.asked = A.asked ++ [m])
    (hreader : A'.reader = A.reader) (habort : A'.upstreamReadAbort = A.upstreamReadAbort) :
    Coherent ((s.setActor a A').setCall r R') := by
  have hdead : ∀ b B, s.actors b = some B → r ∈ B.pending → B.isAlive = false :=
    fun b B hb hp => h.not_pending hr hfree hb hp
  have hnew : r ∉ A.pending := fun hp => by simp [hdead a A ha hp] at halive
  have hnone : s.streams r = none := by
    by_contra hsome
    obtain ⟨st, hst⟩ := Option.ne_none_iff_exists'.mp hsome
    obtain ⟨Q, hQ, _, hs⟩ := h.stream hst
    obtain rfl : R = Q := Option.some.inj (hr.symm.trans hQ)
    simp [hserved] at hs
  have hcall : Coherent (s.setCall r R') := by
    refine h.setCall hr hsession hid (fun b B n hb hn hreq hal => ?_) (by simp [hserved])
    simp [hdead b B hb (Session.mem_pending.mpr ⟨n, hn, hreq⟩)] at hal
  have ha' : (s.setCall r R').actors a = some A := ha
  have hdone : Coherent ((s.setCall r R').setActor a A') := by
    refine hcall.setActor ha' hid' ?_ ?_ ?_ (fun q hq => .inl (hreader ▸ hq))
      (fun q hq => .inl (habort ▸ hq))
    · have hpend : A'.pending = A.pending ++ [r] := by simp [Session.pending, hasked, hm]
      rw [hpend, List.nodup_append]
      refine ⟨h.nodup ha, by simp, fun q hq p hp hqp => ?_⟩
      simp only [List.mem_singleton] at hp
      exact hnew (hp ▸ hqp ▸ hq)
    · intro n hn q hq
      rw [hasked, List.mem_append, List.mem_singleton] at hn
      rcases hn with hn | rfl
      · exact .inl ⟨hn, fun _ => halive⟩
      · obtain rfl : r = q := Option.some.inj (hm.symm.trans hq)
        exact .inr ⟨R', by simp, by rw [hsession, hR], fun _ => hwait⟩
    · intro q hq
      rw [hasked, List.mem_append, List.mem_singleton] at hq
      rcases hq with hq | rfl
      · exact .inl hq
      · obtain rfl : q = r := by simpa [Message.req] using hm
        exact .inr hnone
  exact hdone.congr rfl rfl rfl rfl

/-- The actor answers a message that it took from its mailbox or its handler. -/
theorem Coherent.answer (h : Coherent s) (ha : s.actors a = some A) (hp : r ∈ A.pending)
    (hid : A'.sessionId = A.sessionId) (hsub : A'.pending.Sublist A.pending)
    (hgone : r ∉ A'.pending) (halive : A'.isAlive → A.isAlive)
    (hasked : ∀ m ∈ A'.asked, m.req ≠ none → m ∈ A.asked)
    (hreader : A'.reader = A.reader ∨ A'.reader = none)
    (habort : A'.upstreamReadAbort = A.upstreamReadAbort ∨ A'.upstreamReadAbort = none)
    (b : Bool) : Coherent ((s.setActor a A').replyTo r b) := by
  refine (h.shrinkActor ha hid hsub halive hasked hreader habort).replyTo b ?_
  intro c C hc hpc
  by_cases hca : c = a
  · subst hca
    obtain rfl : A' = C := by simpa using hc
    exact absurd hpc hgone
  · exact absurd (h.pending_unique ha hp (by simpa [hca] using hc) hpc) hca

theorem Coherent.nodup_cons (h : Coherent s) {m : Message}
    (ha : s.actors a = some A) (hreq : m.req = some r)
    (hasked : A.asked = m :: A'.asked) : A.pending = r :: A'.pending ∧ r ∉ A'.pending ∧
      A'.pending.Nodup := by
  have hpend : A.pending = r :: A'.pending := by simp [Session.pending, hasked, hreq]
  have hnodup := h.nodup ha
  rw [hpend, List.nodup_cons] at hnodup
  exact ⟨hpend, hnodup⟩

theorem Coherent.answerRead (h : Coherent s) {rest : List Message} (ha : s.actors a = some A)
    (hm : A.mailbox = .read r :: rest) (hidle : A.handling = none) (b : Bool) :
    Coherent ((s.setActor a { A with mailbox := rest }).replyTo r b) := by
  have hasked := Session.asked_cons hm hidle
  obtain ⟨hpend, hgone, _⟩ := h.nodup_cons ha rfl hasked
  refine h.answer ha (by simp [hpend]) ?_ ?_ hgone id ?_ (.inl rfl) (.inl rfl) b
  · rfl
  · rw [hpend]
    exact List.sublist_cons_self _ _
  · intro m hmem _
    rw [hasked]
    exact List.mem_cons_of_mem _ hmem

theorem Coherent.handleGranted (h : Coherent s) {rest : List Message} (ha : s.actors a = some A)
    (hm : A.mailbox = .read r :: rest) (halive : A.isAlive) (hidle : A.handling = none) :
    Coherent (((s.setActor a { A with mailbox := rest, reader := some r, upstreamReadAbort := some r
                                      opened := A.opened ++ [r] }).setStream r (.start a)
      ).replyTo r true) := by
  have hasked := Session.asked_cons hm hidle
  have hmem : Message.read r ∈ A.asked := by simp [hasked]
  obtain ⟨hpend, hgone, hnodup⟩ := h.nodup_cons ha rfl hasked
  have hp : r ∈ A.pending := by simp [hpend]
  have hfresh : s.streams r = none := h.unread ha hmem
  have hanswer := h.answerRead ha hm hidle true
  obtain ⟨R, hr, hR, hwait⟩ := h.asked ha hmem rfl
  have hserved : (onReply true R.handler).served := by
    have hawaits := hwait halive
    cases hh : R.handler <;> simp_all [Handler.awaits, onReply, Handler.served]
  let A₁ : Session := { A with mailbox := rest }
  let A₂ : Session := { A with mailbox := rest, reader := some r, upstreamReadAbort := some r
                               opened := A.opened ++ [r] }
  let s₁ := (s.setActor a A₁).replyTo r true
  have hcall₁ : s₁.calls r = some { R with handler := onReply true R.handler } := by
    simp [s₁, replyTo_calls, hr]
  have hfresh₁ : s₁.streams r = none := by simpa [s₁] using hfresh
  have hread₁ : ∀ b B, s₁.actors b = some B → .read r ∉ B.asked := by
    intro b B hb hread
    have hpB : r ∈ B.pending := Session.mem_pending.mpr ⟨_, hread, rfl⟩
    by_cases hba : b = a
    · subst hba
      obtain rfl : A₁ = B := by simpa [s₁] using hb
      exact hgone hpB
    · exact hba (h.pending_unique ha hp (by simpa [s₁, hba] using hb) hpB)
  have hstream : Coherent (s₁.setStream r (.start a)) :=
    hanswer.newStream hfresh₁ hcall₁ hR hserved hread₁
  have hnew : ∀ q, some r = some q →
      ∃ st, (s₁.setStream r (.start a)).streams q = some st ∧ st.session = a := by
    intro q hq
    obtain rfl : r = q := Option.some.inj hq
    exact ⟨.start a, by simp, rfl⟩
  have ha₁ : (s₁.setStream r (.start a)).actors a = some A₁ := by simp [s₁]
  have hfinal : Coherent ((s₁.setStream r (.start a)).setActor a A₂) :=
    hstream.setActor ha₁ rfl hnodup (fun m hm q _ => .inl ⟨hm, id⟩) (fun q hq => .inl hq)
      (fun q hq => .inr (hnew q hq)) fun q hq => .inr (hnew q hq)
  refine hfinal.congr ?_ ?_ ?_ ?_
  · simp [s₁]
  · simp [s₁, A₂]
  · funext q
    simp [s₁, replyTo_calls]
  · simp [s₁]

theorem Coherent.answerWrite (h : Coherent s) {w : Writing} (ha : s.actors a = some A)
    (hw : A.handling = some w) (hw' : A'.handling = none) (hid : A'.sessionId = A.sessionId)
    (hreader : A'.reader = A.reader) (habort : A'.upstreamReadAbort = A.upstreamReadAbort)
    (halive : A'.isAlive → A.isAlive)
    (hmail : A'.mailbox = A.mailbox ∨ A'.mailbox = A.mailbox ++ [.resetIdleTimeout]) :
    Coherent ((s.setActor a A').replyTo w.req true) := by
  have hasked := Session.asked_handling hw
  obtain ⟨hpend, hgone, _⟩ := h.nodup_cons ha rfl hasked
  have hpend' : A'.pending = ({ A with handling := none } : Session).pending := by
    rcases hmail with he | he <;> simp [Session.pending, Session.asked, hw', he, Message.req]
  refine h.answer ha (by simp [hpend]) hid ?_ (hpend' ▸ hgone) halive ?_ (.inl hreader)
    (.inl habort) true
  · rw [hpend, hpend']
    exact List.sublist_cons_self _ _
  · intro m hmem hreq
    have hne : m ≠ .resetIdleTimeout := by rintro rfl; exact hreq rfl
    rw [hasked]
    rcases hmail with he | he <;> simp_all [Session.asked]

/-- The stream of `r` ends or is dropped and lets go of the lock. -/
theorem Coherent.releaseStream (h : Coherent s) (hst : s.streams r = some st)
    (ha : s.actors st.session = some A) (hsession : st'.session = st.session) :
    Coherent ((s.setStream r st').setActor st.session (A.release r)) := by
  have ha' : (s.setStream r st').actors st.session = some A := ha
  refine (h.setStream hst hsession).shrinkActor ha' rfl (List.Sublist.refl _) id
    (fun m hm _ => hm) ?_ (.inl rfl)
  by_cases hr : A.reader = some r
  · exact .inr (by simp [Session.release, hr])
  · exact .inl (by simp [Session.release, hr])

theorem Coherent.dropAborts (h : Coherent s) (ha : s.actors a = some A) :
    Coherent (s.dropAbortsStep a A) := by
  have hshrink : Coherent (s.setActor a A.dropAborts) :=
    h.shrinkActor ha rfl (List.Sublist.refl _)
      (fun hal => by simp [Session.dropAborts, Session.isAlive, Life.mailboxOpen] at hal)
      (fun m hm _ => hm) (.inl rfl) (.inr rfl)
  unfold dropAbortsStep
  dsimp only
  split
  · exact hshrink
  · split
    · exact hshrink
    · next st hst => exact hshrink.setStream hst rfl

theorem Coherent.dropRemove (h : Coherent s) (ha : s.actors a = some A) :
    Coherent (s.dropRemoveStep a A) := by
  have hdropped : Coherent (s.setActor a { A with life := .dropped }) :=
    h.shrinkActor ha rfl (List.Sublist.refl _)
      (fun hal => by simp [Session.isAlive, Life.mailboxOpen] at hal)
      (fun m hm _ => hm) (.inl rfl) (.inl rfl)
  refine ⟨?_, hdropped.call, hdropped.asked, hdropped.nodup, hdropped.stream, hdropped.unread,
    hdropped.reader, hdropped.readAbort⟩
  intro x b hx
  by_cases hxa : x = A.sessionId
  · simp [dropRemoveStep, hxa] at hx
  · exact hdropped.table (by simpa [dropRemoveStep, hxa] using hx)

theorem Coherent.step {e : ServerEvent} (h : Coherent s) (hstep : Step env s e t) :
    Coherent t := by
  cases hstep with
  | tick | takeStats => exact h.congr rfl rfl rfl rfl
  | reject x e hr => exact h.newCall hr (by simp)
  | join x b hr hx hb halive =>
      obtain ⟨B, hB, hid⟩ := h.table hb
      refine h.newCall hr fun a ha => ⟨B, ?_, by rw [hid]⟩
      rw [← Option.some.inj ha, hB]
  | @create r req fresh x hr hfresh =>
      refine (h.newSession x hfresh).newCall hr fun a ha => ⟨.spawn x, ?_, rfl⟩
      rw [← Option.some.inj ha]
      simp
  | replace x b hr hfresh hx hmethod hb =>
      obtain ⟨B, hB, hid⟩ := h.table hb
      refine (h.newSession x hfresh).newCall hr fun a ha => ⟨B, ?_, by rw [hid]⟩
      rw [← Option.some.inj ha]
      exact newSession_kept x hfresh hB
  | cancel R hr hbusy =>
      exact h.setCall hr rfl rfl (fun _ _ _ _ _ _ _ => rfl) (fun _ => rfl)
  | body R total hr hh =>
      have hwait : ∀ m, R.handler.awaits m = false := fun m => by simp [hh, Handler.awaits]
      refine h.setCall hr ?_ ?_ (fun a A m ha hm hreq hal => ?_) (by simp [hh, Handler.served])
      · cases ‹BodyEvent› <;> rfl
      · cases ‹BodyEvent› <;> rfl
      · simp [h.not_pending hr hwait ha (Session.mem_pending.mpr ⟨m, hm, hreq⟩)] at hal
  | askWrite R a A total data hr hR ha hh halive hroom =>
      refine h.enqueue (m := .write _ data) rfl hr hR ha halive
        (fun m => by simp [hh, Handler.awaits])
        (by simp [hh, Handler.served]) rfl rfl (by simp [Handler.awaits]) ?_ ?_ ?_ ?_
      · rfl
      · simp [Session.asked, Session.acceptWrite, Session.enqueue]
      · rfl
      · rfl
  | askRead R a A hr hR ha hh halive hroom =>
      refine h.enqueue (m := .read _) rfl hr hR ha halive (fun m => by simp [hh, Handler.awaits])
        (by simp [hh, Handler.served]) rfl rfl (by simp [Handler.awaits]) ?_ ?_ ?_ ?_
      · rfl
      · simp [Session.asked, Session.enqueue]
      · rfl
      · rfl
  | askFailed R a A e hr hR ha he hdead =>
      refine h.setCall hr rfl rfl (fun b B m hb hm hreq hal => ?_) (fun _ => rfl)
      obtain ⟨Q, hQ, hRb, _⟩ := h.asked hb hm hreq
      obtain rfl : R = Q := Option.some.inj (hr.symm.trans hQ)
      obtain rfl : b = a := Option.some.inj (hRb.symm.trans hR)
      obtain rfl : A = B := Option.some.inj (ha.symm.trans hb)
      simp [hdead] at hal
  | @replyWrote r R total data hr hh =>
      have hwait : ∀ m, R.handler.awaits m = false := fun m => by simp [hh, Handler.awaits]
      have hdone :
          Coherent (s.setCall r { R with handler := .nextChunk (total + data.length) }) := by
        refine h.setCall hr rfl rfl (fun a A m ha hm hreq hal => ?_) (by simp [hh, Handler.served])
        simp [h.not_pending hr hwait ha (Session.mem_pending.mpr ⟨m, hm, hreq⟩)] at hal
      exact hdone.congr rfl rfl rfl rfl
  | replyGranted R hr hh | replyRefused R hr hh =>
      have hwait : ∀ m, R.handler.awaits m = false := fun m => by simp [hh, Handler.awaits]
      refine h.setCall hr rfl rfl (fun a A m ha hm hreq hal => ?_) (fun _ => rfl)
      simp [h.not_pending hr hwait ha (Session.mem_pending.mpr ⟨m, hm, hreq⟩)] at hal
  | actor A A' ha hA => exact h.localActor ha (Session.step_local hA)
  | handleGranted A rest r ha hm hlife hidle hfree =>
      exact h.handleGranted ha hm (Session.isAlive_of_running hlife) hidle
  | handleRefused A rest r q ha hm hlife hidle hheld =>
      exact h.answerRead ha hm hidle false
  | handleWrite A rest r bytes ha hm hlife hidle =>
      have hasked : ({ A with mailbox := rest, handling := some ⟨r, bytes, 0⟩ } : Session).asked =
          A.asked := by simp [Session.asked, hm, hidle]
      exact h.shrinkActor ha rfl (by rw [Session.pending, hasked, Session.pending]) id
        (fun m hmem _ => hasked ▸ hmem) (.inl rfl) (.inl rfl)
  | handleReset A rest ha hm hlife hidle =>
      have hasked := Session.asked_cons hm hidle
      refine h.shrinkActor ha rfl ?_ id (fun m hmem _ => ?_) (.inl rfl) (.inl rfl)
      · rw [Session.pending, Session.pending, hasked]
        exact (List.sublist_cons_self _ _).filterMap _
      · rw [hasked]
        exact List.mem_cons_of_mem _ hmem
  | writeOk A w ha hw hlife hall =>
      exact h.answerWrite ha hw rfl rfl rfl rfl id (Session.mailbox_writeOk env A w)
  | writeErr A w ha hw hlife hpart =>
      refine h.answerWrite ha hw rfl rfl rfl rfl (fun _ => ?_) (.inl rfl)
      exact Session.isAlive_of_running hlife
  | dropAborts A ha hlife => exact h.dropAborts ha
  | dropRemove A ha hlife => exact h.dropRemove ha
  | pollPending st R A hst hr ha hactive hresp hturn hwait => exact h.setStream hst rfl
  | pollEnd st R A hst hr ha hactive hresp hturn hres => exact h.releaseStream hst ha rfl
  | @pollData r n st R A hst hr ha hactive hresp hturn hpos hcap hlen =>
      let st' := { st with first := false, turn := .telling (A.upstream.rx.take n) }
      have hstream : Coherent (s.setStream r st') := h.setStream hst rfl
      have hactor : Coherent ((s.setStream r st').setActor st.session
          { A with upstream := A.upstream.read n }) :=
        hstream.shrinkActor ha rfl (List.Sublist.refl _) id (fun m hm _ => hm) (.inl rfl) (.inl rfl)
      exact hactor.congr rfl rfl rfl rfl
  | tellSent st A bytes hst ha hturn hactive halive hroom =>
      refine (h.setStream hst ?_).shrinkActor ha ?_ ?_ id ?_ (.inl rfl) (.inl rfl)
      · rfl
      · rfl
      · simp [Session.pending, Session.asked, Session.enqueue, Message.req]
      · intro m hm hreq
        have hne : m ≠ .resetIdleTimeout := by rintro rfl; exact hreq rfl
        simpa [Session.asked, Session.enqueue, hne] using hm
  | tellSkipped st A bytes hst ha hturn hactive hdead => exact h.setStream hst rfl
  | pollAborted st hst habort hopen hkept => exact h.setStream hst rfl
  | dropStream st A hst ha hkept => exact h.releaseStream hst ha rfl

theorem coherent_of_reachable (h : (machine env).Reachable s) : Coherent s :=
  h.invariant coherent_init fun _ _ _ _ hs hstep => hs.step (Step.of_step hstep)

end Server
end Fronting
