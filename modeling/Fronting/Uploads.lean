import Fronting.SessionTable
import Mathlib.Data.List.Flatten

/-!
# Chunks on their way to upstream

A chunk is accepted by the mailbox, taken up by the handler and written, in this
order and one at a time. `Upload` says this of one session; `Ledger` relates what
a session has seen of a request to the chunks of its body.
-/

namespace Fronting

open Function (update)

def Message.chunk : Message → Option (ReqId × Bytes)
  | .write r bytes => some (r, bytes)
  | _ => none

namespace Session

variable {env : ServerEnv} {now : Nat} {A A' : Session} {e : ActorEvent}

/-- The chunks whose handler has returned, the one in the handler and those in the mailbox. -/
def returned (A : Session) : List (ReqId × Bytes) := A.finished.map fun f => (f.req, f.bytes)
def current (A : Session) : List (ReqId × Bytes) :=
  (A.handling.map fun w => (w.req, w.bytes)).toList
def queued (A : Session) : List (ReqId × Bytes) := A.mailbox.filterMap Message.chunk

def sentBytes (A : Session) : Bytes :=
  (A.finished.map fun f => f.bytes.take f.sent).flatten ++
    (A.handling.map fun w => w.bytes.take w.offset).getD []

structure Upload (A : Session) : Prop where
  queue : ∃ lost, A.accepted = A.returned ++ A.current ++ A.queued ++ lost ∧
    (A.isAlive → lost = [])
  written : A.upstream.written = A.sentBytes
  sent : ∀ f ∈ A.finished, f.ok = true ↔ f.sent = f.bytes.length
  /-- Only the last write can have failed, and the actor has stopped since. -/
  whole : ∀ f ∈ A.finished.dropLast, f.ok = true
  stopped : ∀ f ∈ A.finished, f.ok = false → A.handling = none ∧ A.life ≠ .running
  fresh : A.life = .spawned ∨ A.life = .starting → A.finished = [] ∧ A.handling = none
  offset : ∀ w, A.handling = some w → w.offset ≤ w.bytes.length

theorem upload_spawn (x : Uuid) : Upload (.spawn x) :=
  ⟨⟨[], rfl, fun _ => rfl⟩, rfl, by simp [spawn], by simp [spawn], by simp [spawn],
    fun _ => ⟨rfl, rfl⟩, by simp [spawn]⟩

/-- A step that leaves the chunks alone and does not reconnect. -/
theorem Upload.congr (h : Upload A) (haccepted : A'.accepted = A.accepted)
    (hfinished : A'.finished = A.finished) (hhandling : A'.handling = A.handling)
    (hqueued : A'.queued = A.queued) (hwritten : A'.upstream.written = A.upstream.written)
    (halive : A'.isAlive → A.isAlive) (hrunning : A'.life = .running → A.life = .running ∨
      A.life = .starting) (hstarting : A'.life = .spawned ∨ A'.life = .starting →
      A.life = .spawned ∨ A.life = .starting) : Upload A' := by
  obtain ⟨lost, hqueue, hlost⟩ := h.queue
  refine ⟨⟨lost, ?_, fun hal => hlost (halive hal)⟩, ?_, hfinished ▸ h.sent, hfinished ▸ h.whole,
    ?_, ?_, hhandling ▸ h.offset⟩
  · simp only [returned, current, haccepted, hfinished, hhandling, hqueued]
    exact hqueue
  · simp only [sentBytes, hwritten, hfinished, hhandling]
    exact h.written
  · intro f hf hbad
    rw [hfinished] at hf
    obtain ⟨hidle, hlife⟩ := h.stopped f hf hbad
    refine ⟨hhandling ▸ hidle, fun hrun => ?_⟩
    rcases hrunning hrun with hr | hr
    · exact hlife hr
    · simp [(h.fresh (.inr hr)).1] at hf
  · intro hlife
    rw [hfinished, hhandling]
    exact h.fresh (hstarting hlife)

theorem Upload.closeMailbox {life : Life} (h : Upload A) (hlife : life.mailboxOpen = false) :
    Upload (A.closeMailbox life) := by
  obtain ⟨lost, hqueue, _⟩ := h.queue
  refine ⟨⟨A.queued ++ lost, ?_, fun hal => ?_⟩, h.written, h.sent, h.whole, ?_, ?_, h.offset⟩
  · rw [show (A.closeMailbox life).accepted = A.accepted from rfl, hqueue]
    simp [Session.closeMailbox, returned, current, queued]
  · simp [isAlive, Session.closeMailbox, hlife] at hal
  · intro f hf hbad
    refine ⟨(h.stopped f hf hbad).1, ?_⟩
    rintro rfl
    simp [Life.mailboxOpen] at hlife
  · rintro (rfl | rfl) <;> simp [Life.mailboxOpen] at hlife

theorem Upload.connected (h : Upload A) (hlife : A.life = .starting) (txCap rxCap : Nat) :
    Upload (A.connected env now (.connect txCap rxCap)) := by
  obtain ⟨hfinished, hidle⟩ := h.fresh (.inr hlife)
  have hempty : A.upstream.written = [] := by
    simp [h.written, sentBytes, hfinished, hidle]
  refine h.congr rfl rfl rfl rfl hempty.symm (fun _ => ?_) (fun _ => .inr hlife) ?_
  · simp [isAlive, hlife, Life.mailboxOpen]
  · exact fun hl => by rcases hl with hl | hl <;> cases hl

theorem Upload.step (h : Upload A) (hstep : A.step env now e = some A') : Upload A' := by
  cases Own.of_step hstep with
  | start hlife =>
      refine h.congr rfl rfl rfl rfl rfl (fun _ => ?_) ?_ (fun _ => .inl hlife)
      · simp [isAlive, hlife, Life.mailboxOpen]
      · intro hrun
        cases hrun
  | connect txCap rxCap hlife => exact h.connected hlife txCap rxCap
  | connectKilled txCap rxCap hlife => exact (h.connected hlife txCap rxCap).closeMailbox rfl
  | connectError | close | abort => exact h.closeMailbox rfl
  | write n w hw hlife hpos hlen =>
      obtain ⟨lost, hqueue, hlost⟩ := h.queue
      refine ⟨⟨lost, ?_, hlost⟩, ?_, h.sent, h.whole, ?_, ?_, ?_⟩
      · simpa [returned, current, queued, hw] using hqueue
      · simp [Upstream.write, h.written, sentBytes, hw, List.take_add]
      · exact fun f hf hbad => absurd hlife (h.stopped f hf hbad).2
      · exact fun hl => by rcases hl with hl | hl <;> simp [hlife] at hl
      · intro w' hw'
        rw [← Option.some.inj hw']
        exact hlen
  | fire | upstreamTake | upstreamSend | upstreamEof => exact h.congr rfl rfl rfl rfl rfl id .inl id

theorem Upload.move (h : Upload A) (hmove : Move env A A') : Upload A' := by
  obtain ⟨lost, hqueue, hlost⟩ := h.queue
  cases hmove with
  | stay => exact h
  | own hstep => exact h.step hstep
  | acceptWrite r bytes halive =>
      obtain rfl := hlost halive
      refine ⟨⟨[], ?_, fun _ => rfl⟩, h.written, h.sent, h.whole, h.stopped, h.fresh, h.offset⟩
      rw [show (A.acceptWrite r bytes).accepted = A.accepted ++ [(r, bytes)] from rfl, hqueue]
      simp [acceptWrite, Session.enqueue, returned, current, queued, Message.chunk]
  | enqueue m hm halive =>
      refine h.congr rfl rfl rfl ?_ rfl id .inl id
      cases m with
      | write r bytes => exact absurd rfl (hm r bytes)
      | _ => simp [queued, Session.enqueue, Message.chunk]
  | grant rest r hm | refuse rest r hm =>
      refine h.congr rfl rfl rfl ?_ rfl id .inl id
      simp [queued, hm, Message.chunk, List.filterMap_cons]
  | takeWrite rest r bytes hm hlife hidle =>
      refine ⟨⟨lost, ?_, hlost⟩, ?_, h.sent, h.whole, ?_, ?_, ?_⟩
      · simpa [returned, current, queued, hm, hidle, Message.chunk] using hqueue
      · simpa [sentBytes, hidle] using h.written
      · exact fun f hf hbad => absurd hlife (h.stopped f hf hbad).2
      · exact fun hl => by rcases hl with hl | hl <;> simp [hlife] at hl
      · intro w hw
        rw [← Option.some.inj hw]
        exact Nat.zero_le _
  | takeReset now rest hm =>
      have hq : A.queued = rest.filterMap Message.chunk := by
        simp [queued, hm, Message.chunk, List.filterMap_cons]
      exact h.congr rfl rfl rfl hq.symm rfl id .inl id
  | writeOk w hw hlife hall =>
      have hq : (A.writeOk env w).queued = A.queued := by
        rcases mailbox_writeOk env A w with hm | hm <;> simp [queued, hm, Message.chunk]
      have hgood : ∀ f ∈ A.finished, f.ok = true := fun f hf => by
        by_contra hbad
        exact (h.stopped f hf (by simpa using hbad)).2 hlife
      refine ⟨⟨lost, ?_, hlost⟩, ?_, ?_, ?_, ?_, ?_, ?_⟩
      · rw [hq]
        simpa [returned, current, Session.writeOk, tryResetIdleTimeout, hw] using hqueue
      · simpa [Session.writeOk, tryResetIdleTimeout, sentBytes, hw] using h.written
      · intro f hf
        rcases List.mem_append.mp hf with hf | hf
        · exact h.sent f hf
        · obtain rfl := List.mem_singleton.mp hf
          simp [hall]
      · simpa [Session.writeOk, tryResetIdleTimeout] using hgood
      · intro f hf hbad
        rcases List.mem_append.mp hf with hf | hf
        · simp [hgood f hf] at hbad
        · obtain rfl := List.mem_singleton.mp hf
          simp at hbad
      · exact fun hl => by
          rcases hl with hl | hl <;> simp [Session.writeOk, tryResetIdleTimeout, hlife] at hl
      · exact fun _ hidle => by cases hidle
  | writeErr w hw hlife hpart =>
      have hgood : ∀ f ∈ A.finished, f.ok = true := fun f hf => by
        by_contra hbad
        exact (h.stopped f hf (by simpa using hbad)).2 hlife
      refine ⟨⟨lost, ?_, fun _ => hlost (isAlive_of_running hlife)⟩, ?_, ?_, ?_,
        fun _ _ _ => ⟨rfl, by simp [Session.writeErr]⟩, ?_, fun _ hidle => by cases hidle⟩
      · simpa [returned, current, queued, Session.writeErr, hw] using hqueue
      · simpa [Session.writeErr, sentBytes, hw] using h.written
      · intro f hf
        rcases List.mem_append.mp hf with hf | hf
        · exact h.sent f hf
        · obtain rfl := List.mem_singleton.mp hf
          simpa using Nat.ne_of_lt hpart
      · simpa [Session.writeErr] using hgood
      · exact fun hl => by rcases hl with hl | hl <;> simp [Session.writeErr] at hl
  | dropAborts hlife =>
      refine h.congr rfl rfl rfl rfl rfl (fun hal => ?_) (fun hr => ?_) (fun hl => ?_)
      · simp [isAlive, Session.dropAborts, Life.mailboxOpen] at hal
      · simp [Session.dropAborts] at hr
      · simp [Session.dropAborts] at hl
  | dropRemove hlife =>
      refine h.congr rfl rfl rfl rfl rfl (fun hal => ?_) (fun hr => ?_) (fun hl => ?_)
      · simp [isAlive, Life.mailboxOpen] at hal
      · simp at hr
      · simp at hl
  | read n | release r => exact h.congr rfl rfl rfl rfl rfl id .inl id

theorem Upload.of_reachable {s : Server} {a : ActorRef} (h : (Server.machine env).Reachable s)
    (ha : s.actors a = some A) : Upload A :=
  Server.actor_invariant upload_spawn (fun _ _ hA hmove => hA.move hmove) h ha

theorem Upload.finished_accepted (h : Upload A) {f : Written} (hf : f ∈ A.finished) :
    (f.req, f.bytes) ∈ A.accepted := by
  obtain ⟨lost, hqueue, _⟩ := h.queue
  have hmem : (f.req, f.bytes) ∈ A.returned := List.mem_map_of_mem hf
  rw [hqueue]
  simp [hmem]

/-- Bytes of whole chunks, and of the one whose write is under way or has failed. -/
theorem Upload.sentBytes_isPrefix (h : Upload A) :
    A.sentBytes <+: ((A.returned ++ A.current).map Prod.snd).flatten := by
  have hcurrent : (A.handling.map fun w => w.bytes.take w.offset).getD [] <+:
      (A.current.map Prod.snd).flatten := by
    cases hw : A.handling with
    | none => simp
    | some w => simpa [current, hw] using List.take_prefix w.offset w.bytes
  have hwhole : ∀ fs : List Written, (∀ f ∈ fs, f ∈ A.finished ∧ f.ok = true) →
      fs.map (fun f => f.bytes.take f.sent) = fs.map Written.bytes := by
    intro fs hfs
    refine List.map_congr_left fun f hf => ?_
    obtain ⟨hmem, hok⟩ := hfs f hf
    rw [(h.sent f hmem).mp hok, List.take_length]
  have hreturned : A.returned.map Prod.snd = A.finished.map Written.bytes := by
    simp [returned, Function.comp_def]
  rw [List.map_append, List.flatten_append, hreturned, sentBytes]
  by_cases hgood : ∀ f ∈ A.finished, f.ok = true
  · rw [hwhole A.finished fun f hf => ⟨hf, hgood f hf⟩]
    exact (List.prefix_append_right_inj _).mpr hcurrent
  · simp only [not_forall, Bool.not_eq_true] at hgood
    obtain ⟨f, hf, hbad⟩ := hgood
    have hne : A.finished ≠ [] := List.ne_nil_of_mem hf
    have hinit := hwhole A.finished.dropLast fun g hg => ⟨List.mem_of_mem_dropLast hg, h.whole g hg⟩
    have hidle := (h.stopped f hf hbad).1
    obtain ⟨gs, g, hgs⟩ : ∃ gs g, A.finished = gs ++ [g] :=
      ⟨_, _, (List.dropLast_append_getLast hne).symm⟩
    simp only [hgs, List.dropLast_concat] at hinit
    simp only [hgs, hidle, current, List.map_append, List.map_cons, List.map_nil, hinit,
      List.flatten_append, List.flatten_cons, List.flatten_nil, List.append_nil, Option.map_none,
      Option.getD_none, Option.toList_none]
    exact (List.prefix_append_right_inj _).mpr (List.take_prefix _ _)

/-- What upstream has been sent is a prefix of what the mailbox has accepted. -/
theorem Upload.written_isPrefix (h : Upload A) :
    A.upstream.written <+: (A.accepted.map Prod.snd).flatten := by
  obtain ⟨lost, hqueue, _⟩ := h.queue
  rw [h.written, hqueue, List.append_assoc _ A.queued, List.map_append, List.flatten_append]
  exact h.sentBytes_isPrefix.trans (List.prefix_append _ _)

/-- The chunks of one request that the mailbox has accepted, and their handlers that returned. -/
def acceptedOf (A : Session) (r : ReqId) : List Bytes :=
  (A.accepted.filter fun p => p.1 = r).map Prod.snd
def finishedOf (A : Session) (r : ReqId) : List Written := A.finished.filter fun f => f.req = r

end Session

namespace Handler

/-- The chunk that has not been put into the mailbox, and the one that has no reply. -/
def unsent : Handler → List Bytes
  | .sendWrite _ data => [data]
  | _ => []
def unanswered : Handler → List Bytes
  | .sendWrite _ data | .awaitWrite _ data => [data]
  | _ => []

/-- The request has ended before its body did. -/
def broken : Handler → Bool
  | .done (.error _) | .cancelled => true
  | _ => false

end Handler

/-- What a session has seen of a request, against the chunks of the request's body. -/
structure Accounted (r : ReqId) (R : Call) (A : Session) : Prop where
  whole : R.handler.broken = false → A.acceptedOf r ++ R.handler.unsent = R.chunks ∧
    (A.finishedOf r).map Written.bytes ++ R.handler.unanswered = R.chunks
  part : A.acceptedOf r <+: R.chunks

theorem Accounted.congr {r : ReqId} {R : Call} {A A' : Session} (h : Accounted r R A)
    (haccepted : A'.accepted = A.accepted)
    (hfinished : A'.finished = A.finished) : Accounted r R A' := by
  have ha : A'.acceptedOf r = A.acceptedOf r := by rw [Session.acceptedOf, haccepted]; rfl
  have hf : A'.finishedOf r = A.finishedOf r := by rw [Session.finishedOf, hfinished]; rfl
  exact ⟨by rw [ha, hf]; exact h.whole, ha ▸ h.part⟩

/-- A request goes on without touching its chunks. -/
theorem Accounted.setHandler {r : ReqId} {R : Call} {A : Session} {h' : Handler}
    (h : Accounted r R A)
    (hsame : h'.broken = true ∨ R.handler.broken = false ∧ h'.unsent = R.handler.unsent ∧
      h'.unanswered = R.handler.unanswered) :
    Accounted r { R with handler := h' } A := by
  refine ⟨fun hbroken => ?_, h.part⟩
  rcases hsame with hb | ⟨hb, hunsent, hunanswered⟩
  · simp [hb] at hbroken
  · dsimp only
    rw [hunsent, hunanswered]
    exact h.whole hb

namespace Server

variable {env : ServerEnv} {s t : Server} {e : ServerEvent} {a : ActorRef} {A A' : Session}
  {r : ReqId} {R R' : Call}

structure Ledger (s : Server) : Prop where
  known : ∀ {a A p}, s.actors a = some A → p ∈ A.accepted →
    ∃ R, s.calls p.1 = some R ∧ R.session = some a
  account : ∀ {r R a A}, s.calls r = some R → R.session = some a → s.actors a = some A →
    Accounted r R A

theorem ledger_init : Ledger init := by
  constructor <;> intros <;> simp_all [init]

theorem Ledger.setActor (h : Ledger s) (ha : s.actors a = some A)
    (haccepted : A'.accepted = A.accepted) (hfinished : A'.finished = A.finished) :
    Ledger (s.setActor a A') := by
  constructor
  · intro b B p hB hp
    by_cases hb : b = a
    · subst hb
      obtain rfl : A' = B := by simpa using hB
      exact h.known ha (haccepted ▸ hp)
    · exact h.known (by simpa [hb] using hB) hp
  · intro r R b B hr hR hB
    by_cases hb : b = a
    · subst hb
      obtain rfl : A' = B := by simpa using hB
      exact (h.account hr hR ha).congr haccepted hfinished
    · exact h.account hr hR (by simpa [hb] using hB)

theorem Ledger.setCall (h : Ledger s) (hr : s.calls r = some R) (hsession : R'.session = R.session)
    (haccount : ∀ A, Accounted r R A → Accounted r R' A) : Ledger (s.setCall r R') := by
  constructor
  · intro b B p hB hp
    obtain ⟨Q, hQ, hb⟩ := h.known hB hp
    by_cases hq : p.1 = r
    · obtain rfl : R = Q := Option.some.inj (hr.symm.trans (hq ▸ hQ))
      exact ⟨R', by simp [hq], hsession ▸ hb⟩
    · exact ⟨Q, by simpa [hq] using hQ, hb⟩
  · intro q Q b B hQ hb hB
    by_cases hq : q = r
    · subst hq
      obtain rfl : R' = Q := by simpa using hQ
      exact haccount B (h.account hr (hsession ▸ hb) hB)
    · exact h.account (by simpa [hq] using hQ) hb hB

theorem Ledger.newCall (h : Ledger s) (hr : s.calls r = none)
    (hupload : ∀ a A, s.actors a = some A → A.Upload) (hchunks : R.chunks = [])
    (hunsent : R.handler.unsent = []) (hunanswered : R.handler.unanswered = []) :
    Ledger (s.setCall r R) := by
  have hunknown : ∀ b B, s.actors b = some B → ∀ p ∈ B.accepted, p.1 ≠ r := by
    rintro b B hB p hp rfl
    obtain ⟨Q, hQ, _⟩ := h.known hB hp
    simp [hr] at hQ
  constructor
  · intro b B p hB hp
    obtain ⟨Q, hQ, hb⟩ := h.known hB hp
    exact ⟨Q, by simpa [hunknown b B hB p hp] using hQ, hb⟩
  · intro q Q b B hQ hb hB
    by_cases hq : q = r
    · subst hq
      obtain rfl : R = Q := by simpa using hQ
      have haccepted : B.acceptedOf q = [] := by
        simpa [Session.acceptedOf, List.filter_eq_nil_iff] using
          fun p c hp hpq => hunknown b B hB (p, c) hp hpq
      have hfinished : B.finishedOf q = [] := by
        simpa [Session.finishedOf, List.filter_eq_nil_iff] using
          fun f hf => hunknown b B hB _ ((hupload b B hB).finished_accepted hf)
      exact ⟨fun _ => by simp [haccepted, hfinished, hchunks, hunsent, hunanswered],
        by simp [haccepted]⟩
    · exact h.account (by simpa [hq] using hQ) hb hB

theorem Ledger.newSession (h : Ledger s) (x : Uuid) (ha : s.actors a = none)
    (hcall : ∀ r R, s.calls r = some R → R.session ≠ some a) : Ledger (s.newSession x a) := by
  constructor
  · intro b B p hB hp
    by_cases hb : b = a
    · subst hb
      obtain rfl : Session.spawn x = B := by simpa using hB
      simp [Session.spawn] at hp
    · exact h.known (by simpa [hb] using hB) hp
  · intro r R b B hr hR hB
    have hb : b ≠ a := by rintro rfl; exact hcall r R hr hR
    exact h.account hr hR (by simpa [hb] using hB)

theorem Ledger.congr (h : Ledger s) (hactors : t.actors = s.actors) (hcalls : t.calls = s.calls) :
    Ledger t := by
  constructor
  · rw [hactors, hcalls]
    exact h.known
  · rw [hactors, hcalls]
    exact h.account

/-- A reply to a request whose chunk is not waiting for it. -/
theorem Ledger.replyTo (h : Ledger s) (b : Bool)
    (hread : ∀ R, s.calls r = some R → R.handler = .awaitRead ∨ R.handler = .cancelled) :
    Ledger (s.replyTo r b) := by
  unfold Server.replyTo
  split
  · next R hr =>
    refine h.setCall hr rfl fun A hA => hA.setHandler ?_
    rcases hread R hr with hh | hh
    · exact .inr (by simp [hh, onReply, Handler.broken, Handler.unsent, Handler.unanswered])
    · exact .inl (by simp [hh, onReply, Handler.broken])
  · exact h

/-- A chunk is put into the mailbox. -/
theorem Ledger.askWrite (h : Ledger s) {total : Nat} {data : Bytes} (hr : s.calls r = some R)
    (hR : R.session = some a) (ha : s.actors a = some A) (hh : R.handler = .sendWrite total data) :
    Ledger ((s.setActor a (A.acceptWrite r data)).setCall r
      { R with handler := .awaitWrite total data }) := by
  have hof : ∀ q, (A.acceptWrite r data).acceptedOf q =
      A.acceptedOf q ++ if q = r then [data] else [] := by
    intro q
    by_cases hq : q = r <;> simp [Session.acceptedOf, Session.acceptWrite, hq, eq_comm]
  constructor
  · intro b B p hB hp
    simp only [setCall_actors, setActor_actors, setCall_calls, setActor_calls] at hB ⊢
    have hold : ∀ Q, s.calls p.1 = some Q → Q.session = some b →
        ∃ Q', update s.calls r (some { R with handler := .awaitWrite total data }) p.1 = some Q' ∧
          Q'.session = some b := by
      intro Q hQ hb
      by_cases hq : p.1 = r
      · obtain rfl : R = Q := Option.some.inj (hr.symm.trans (hq ▸ hQ))
        exact ⟨{ R with handler := .awaitWrite total data }, by simp [hq], hb⟩
      · exact ⟨Q, by simpa [hq] using hQ, hb⟩
    by_cases hb : b = a
    · subst hb
      obtain rfl : A.acceptWrite r data = B := by simpa using hB
      rcases List.mem_append.mp hp with hp | hp
      · obtain ⟨Q, hQ, hb⟩ := h.known ha hp
        exact hold Q hQ hb
      · obtain rfl := List.mem_singleton.mp hp
        exact hold R hr hR
    · obtain ⟨Q, hQ, hQb⟩ := h.known (by simpa [hb] using hB) hp
      exact hold Q hQ hQb
  · intro q Q b B hQ hQb hB
    simp only [setCall_actors, setActor_actors, setCall_calls, setActor_calls] at hB hQ
    by_cases hq : q = r
    · subst hq
      obtain rfl : { R with handler := .awaitWrite total data } = Q := by simpa using hQ
      obtain rfl : a = b := Option.some.inj (hR.symm.trans hQb)
      obtain rfl : A.acceptWrite q data = B := by simpa using hB
      have hold := h.account hr hR ha
      obtain ⟨haccepted, hfinished⟩ := hold.whole (by simp [hh, Handler.broken])
      simp only [hh, Handler.unsent, Handler.unanswered] at haccepted hfinished
      have hall : (A.acceptWrite q data).acceptedOf q = R.chunks := by simpa [hof] using haccepted
      refine ⟨fun _ => ⟨?_, ?_⟩, ?_⟩
      · simpa [Handler.unsent] using hall
      · exact hfinished
      · exact hall ▸ List.prefix_refl _
    · have hQ' : s.calls q = some Q := by simpa [hq] using hQ
      by_cases hb : b = a
      · subst hb
        obtain rfl : A.acceptWrite r data = B := by simpa using hB
        have hold := h.account hQ' hQb ha
        have hsame : (A.acceptWrite r data).acceptedOf q = A.acceptedOf q := by simp [hof, hq]
        exact ⟨by rw [hsame]; exact hold.whole, hsame ▸ hold.part⟩
      · exact h.account hQ' hQb (by simpa [hb] using hB)

/-- A write returns and its request gets the reply. -/
theorem Ledger.answerWrite (h : Ledger s) (hcoherent : Coherent s) {w : Writing} (ok : Bool)
    (ha : s.actors a = some A) (halive : A.isAlive) (hw : A.handling = some w)
    (haccepted : A'.accepted = A.accepted)
    (hfinished : A'.finished = A.finished ++ [⟨w.req, w.bytes, w.offset, ok⟩]) :
    Ledger ((s.setActor a A').replyTo w.req true) := by
  have hmem : Message.write w.req w.bytes ∈ A.asked := by simp [Session.asked_handling hw]
  obtain ⟨R, hr, hR, hwait⟩ := hcoherent.asked ha hmem rfl
  have hof : ∀ q, (A'.finishedOf q).map Written.bytes =
      (A.finishedOf q).map Written.bytes ++ if q = w.req then [w.bytes] else [] := by
    intro q
    by_cases hq : q = w.req <;> simp [Session.finishedOf, hfinished, hq, eq_comm]
  have hsame : ∀ q, A'.acceptedOf q = A.acceptedOf q := fun q => by
    rw [Session.acceptedOf, haccepted]; rfl
  have hcalls : ∀ q, ((s.setActor a A').replyTo w.req true).calls q =
      if q = w.req then some { R with handler := onReply true R.handler } else s.calls q := by
    intro q
    rw [replyTo_calls]
    by_cases hq : q = w.req <;> simp [hq, hr]
  constructor
  · intro b B p hB hp
    rw [replyTo_actors, setActor_actors] at hB
    obtain ⟨Q, hQ, hb⟩ : ∃ Q, s.calls p.1 = some Q ∧ Q.session = some b := by
      by_cases hb : b = a
      · subst hb
        obtain rfl : A' = B := by simpa using hB
        exact h.known ha (haccepted ▸ hp)
      · exact h.known (by simpa [hb] using hB) hp
    rw [hcalls]
    by_cases hq : p.1 = w.req
    · obtain rfl : R = Q := Option.some.inj (hr.symm.trans (hq ▸ hQ))
      exact ⟨_, if_pos hq, hb⟩
    · exact ⟨Q, by rw [if_neg hq, hQ], hb⟩
  · intro q Q b B hQ hQb hB
    rw [replyTo_actors, setActor_actors] at hB
    rw [hcalls] at hQ
    by_cases hq : q = w.req
    · subst hq
      rw [if_pos rfl, Option.some.injEq] at hQ
      subst hQ
      obtain rfl : a = b := Option.some.inj (hR.symm.trans hQb)
      obtain rfl : A' = B := by simpa using hB
      have hold := h.account hr hR ha
      refine ⟨fun hbroken => ?_, by rw [hsame]; exact hold.part⟩
      rw [hsame, hof, if_pos rfl]
      rcases Handler.awaits_write (hwait halive) with ⟨total, hh⟩ | hh
      · simpa [hh, Handler.broken, Handler.unsent, Handler.unanswered, onReply] using hold.whole
      · simp [hh, onReply, Handler.broken] at hbroken
    · rw [if_neg hq] at hQ
      by_cases hb : b = a
      · subst hb
        obtain rfl : A' = B := by simpa using hB
        have hold := h.account hQ hQb ha
        refine ⟨?_, by rw [hsame]; exact hold.part⟩
        rw [hsame, hof, if_neg hq, List.append_nil]
        exact hold.whole
      · exact h.account hQ hQb (by simpa [hb] using hB)

theorem Ledger.step (h : Ledger s) (hcoherent : Coherent s)
    (hupload : ∀ a A, s.actors a = some A → A.Upload) (hstep : Step env s e t) : Ledger t := by
  have hreading : ∀ {a A r}, s.actors a = some A → A.isAlive → .read r ∈ A.asked →
      ∀ R, s.calls r = some R → R.handler = .awaitRead ∨ R.handler = .cancelled := by
    intro a A r ha halive hm R hr
    obtain ⟨Q, hQ, _, hwait⟩ := hcoherent.asked ha hm rfl
    obtain rfl : R = Q := Option.some.inj (hr.symm.trans hQ)
    exact Handler.awaits_read (hwait halive)
  cases hstep with
  | tick | takeStats => exact h.congr rfl rfl
  | reject x e hr => exact h.newCall hr hupload rfl rfl rfl
  | @join r req fresh x b hr =>
      refine h.newCall hr hupload rfl ?_ ?_ <;>
        by_cases hm : req.method = .get <;> simp [startHandler, hm, Handler.unsent,
          Handler.unanswered]
  | @create r req fresh x hr hfresh | @replace r req fresh x b hr hfresh =>
      have hnew : ∀ q Q, s.calls q = some Q → Q.session ≠ some fresh := by
        intro q Q hQ hs
        obtain ⟨A, hA, _⟩ := hcoherent.call hQ hs
        simp [hfresh] at hA
      have hupload' : ∀ b B, (s.newSession x fresh).actors b = some B → B.Upload := by
        intro b B hB
        rcases newSession_cases hB with hold | ⟨_, rfl⟩
        · exact hupload b B hold
        · exact Session.upload_spawn x
      refine (h.newSession x hfresh hnew).newCall hr hupload' rfl ?_ ?_ <;>
        by_cases hm : req.method = .get <;> simp [startHandler, hm, Handler.unsent,
          Handler.unanswered]
  | cancel R hr => exact h.setCall hr rfl fun A hA => hA.setHandler (.inl rfl)
  | @body r e R total hr hh =>
      cases e with
      | chunk data =>
          refine h.setCall hr rfl fun A hA => ?_
          obtain ⟨haccepted, hfinished⟩ := hA.whole (by simp [hh, Handler.broken])
          simp only [hh, Handler.unsent, Handler.unanswered, List.append_nil] at haccepted hfinished
          exact ⟨fun _ => ⟨by rw [haccepted]; rfl, by rw [hfinished]; rfl⟩,
            haccepted ▸ List.prefix_append _ _⟩
      | finished =>
          refine h.setCall hr rfl fun A hA => hA.setHandler ?_
          by_cases htotal : total = 0
          · exact .inl (by simp [htotal, Handler.broken])
          · exact .inr (by simp [hh, Handler.broken, Handler.unsent, Handler.unanswered])
      | error message => exact h.setCall hr rfl fun A hA => hA.setHandler (.inl rfl)
  | askWrite R a A total data hr hR ha hh => exact h.askWrite hr hR ha hh
  | askRead R a A hr hR ha hh =>
      refine (h.setActor ha ?_ ?_).setCall hr rfl fun B hB => hB.setHandler ?_
      · rfl
      · rfl
      · exact .inr (by simp [hh, Handler.broken, Handler.unsent, Handler.unanswered])
  | askFailed R a A e hr => exact h.setCall hr rfl fun B hB => hB.setHandler (.inl rfl)
  | replyWrote R total data hr hh =>
      have hnext : Ledger (s.setCall _ { R with handler := .nextChunk (total + data.length) }) :=
        h.setCall hr rfl fun B hB => hB.setHandler
          (.inr (by simp [hh, Handler.broken, Handler.unsent, Handler.unanswered]))
      exact hnext.congr rfl rfl
  | replyGranted R hr hh =>
      exact h.setCall hr rfl fun B hB => hB.setHandler
        (.inr (by simp [hh, Handler.broken, Handler.unsent, Handler.unanswered]))
  | replyRefused R hr hh => exact h.setCall hr rfl fun B hB => hB.setHandler (.inl rfl)
  | actor A A' ha hA =>
      have hlocal := Session.step_local hA
      exact h.setActor ha hlocal.accepted hlocal.finished
  | @handleGranted a A rest r ha hm hlife hidle =>
      have halive : A.isAlive = true := Session.isAlive_of_running hlife
      have hmem : Message.read r ∈ A.asked := by simp [Session.asked_cons hm hidle]
      have hread := hreading ha halive hmem
      have hactor : Ledger (s.setActor a { A with mailbox := rest, reader := some r
                                                  upstreamReadAbort := some r
                                                  opened := A.opened ++ [r] }) :=
        h.setActor ha rfl rfl
      have hstream : Ledger ((s.setActor a { A with mailbox := rest, reader := some r
                                                    upstreamReadAbort := some r
                                                    opened := A.opened ++ [r] }).setStream r
          (.start a)) := hactor.congr rfl rfl
      exact hstream.replyTo true hread
  | @handleRefused a A rest r q ha hm hlife hidle =>
      have halive : A.isAlive = true := Session.isAlive_of_running hlife
      have hmem : Message.read r ∈ A.asked := by simp [Session.asked_cons hm hidle]
      have hread := hreading ha halive hmem
      have hactor : Ledger (s.setActor a { A with mailbox := rest }) := h.setActor ha rfl rfl
      exact hactor.replyTo false hread
  | handleWrite A rest r bytes ha => exact h.setActor ha rfl rfl
  | handleReset A rest ha => exact h.setActor ha rfl rfl
  | writeOk A w ha hw hlife =>
      refine h.answerWrite hcoherent true ha ?_ hw ?_ ?_
      · exact Session.isAlive_of_running hlife
      · rfl
      · rfl
  | writeErr A w ha hw hlife =>
      refine h.answerWrite hcoherent false ha ?_ hw ?_ ?_
      · exact Session.isAlive_of_running hlife
      · rfl
      · rfl
  | dropAborts A ha =>
      have hactor : Ledger (s.setActor _ A.dropAborts) := h.setActor ha rfl rfl
      exact hactor.congr (by simp) (by simp)
  | dropRemove A ha =>
      have hactor : Ledger (s.setActor _ { A with life := .dropped }) := h.setActor ha rfl rfl
      exact hactor.congr rfl rfl
  | pollPending | pollAborted | tellSkipped => exact h.congr rfl rfl
  | @pollEnd r res st R A hst hr ha =>
      have hactor : Ledger (s.setActor st.session (A.release r)) := h.setActor ha rfl rfl
      exact hactor.congr rfl rfl
  | @dropStream r st A hst ha =>
      have hactor : Ledger (s.setActor st.session (A.release r)) := h.setActor ha rfl rfl
      exact hactor.congr rfl rfl
  | @pollData r n st R A hst hr ha =>
      have hactor : Ledger (s.setActor st.session { A with upstream := A.upstream.read n }) :=
        h.setActor ha rfl rfl
      exact hactor.congr rfl rfl
  | tellSent st A bytes hst ha =>
      have hactor : Ledger (s.setActor st.session (A.enqueue .resetIdleTimeout)) :=
        h.setActor ha rfl rfl
      exact hactor.congr rfl rfl

theorem ledger_of_reachable (h : (machine env).Reachable s) : Ledger s :=
  h.invariant ledger_init fun _ _ _ hs hl hstep =>
    hl.step (coherent_of_reachable hs) (fun _ _ ha => .of_reachable hs ha) (Step.of_step hstep)

/-- A request without a session has been refused. -/
def Refused (R : Call) : Prop := R.session = none → ∃ e, R.handler = .done (.error e)

theorem refused_of_reachable (h : (machine env).Reachable s) (hr : s.calls r = some R) :
    Refused R := by
  refine call_invariant (I := Refused) ?_ ?_ h hr
  · intro r req R hnew hnone
    cases hnew with
    | refused x e => exact ⟨e, rfl⟩
    | started x a => cases hnone
  · intro R R' hI hmove hnone
    cases hmove with
    | stay => exact hI hnone
    | cancel hbusy =>
        obtain ⟨e, he⟩ := hI hnone
        simp [he, Handler.inProgress] at hbusy
    | body total e hh =>
        have hsame : R.session = none := by cases e <;> exact hnone
        obtain ⟨e, he⟩ := hI hsame
        simp [hh] at he
    | askFailed e => exact ⟨e, rfl⟩
    | askWrite total data hh | wrote total data hh =>
        obtain ⟨e, he⟩ := hI hnone
        simp [hh] at he
    | askRead hh | granted hh =>
        obtain ⟨e, he⟩ := hI hnone
        simp [hh] at he
    | refused => exact ⟨_, rfl⟩
    | reply b =>
        obtain ⟨e, he⟩ := hI hnone
        exact ⟨e, by simp [he, onReply]⟩

theorem code_of_askError {h : Handler} {e : HttpError} (he : askError h = some e) :
    e.code = .badRequest := by
  cases h with
  | sendWrite | awaitWrite | sendRead | awaitRead =>
      obtain rfl := Option.some.inj he
      rfl
  | _ => cases he

theorem error_code_of_reachable (h : (machine env).Reachable s) (hr : s.calls r = some R)
    {e : HttpError} (he : R.handler = .done (.error e)) :
    e.code = .badRequest ∨ e.code = .tooManyRequests := by
  refine call_invariant (I := fun R => ∀ e, R.handler = .done (.error e) →
    e.code = .badRequest ∨ e.code = .tooManyRequests) ?_ ?_ h hr e he
  · intro r req R hnew e he
    cases hnew with
    | refused x e' hcode =>
        cases he
        exact .inl hcode
    | started x a => by_cases hm : req.method = .get <;> simp [startHandler, hm] at he
  · intro R R' hI hmove e he
    cases hmove with
    | stay => exact hI e he
    | body total e' hh =>
        cases e' with
        | chunk data => simp [bodyStep] at he
        | finished =>
            by_cases htotal : total = 0 <;> simp [bodyStep, htotal] at he
            exact .inl (he ▸ rfl)
        | error message =>
            simp only [bodyStep, Handler.done.injEq, Except.error.injEq] at he
            exact .inl (he ▸ rfl)
    | askFailed e' he' =>
        obtain rfl : e' = e := by simpa using he
        exact .inl (code_of_askError he')
    | refused hh =>
        simp only [Handler.done.injEq, Except.error.injEq] at he
        exact .inr (he ▸ rfl)
    | reply b => cases hh : R.handler <;> simp [hh, onReply] at he; exact hI e (he ▸ hh)
    | _ => simp at he

/-- An answer `NO_CONTENT` comes from the end of a write request's loop. -/
theorem handler_of_noContent (h : (machine env).Reachable s) (hr : s.calls r = some R)
    (hresp : R.response = some noContent) : R.handler = .done (.ok noContent) := by
  unfold Call.response at hresp
  split at hresp
  · next resp hh => rw [hh, Option.some.inj hresp]
  · next e hh =>
    have hcode : e.code = .noContent := congrArg Response.status (Option.some.inj hresp)
    rcases error_code_of_reachable h hr hh with hc | hc <;> rw [hc] at hcode <;> cases hcode
  · cases hresp

end Server

/-- Every chunk of the body was written to the end, in the order of the body. -/
structure Delivered (r : ReqId) (R : Call) (A : Session) : Prop where
  ok : ∀ f ∈ A.finishedOf r, f.ok = true
  sent : (A.finishedOf r).map (fun f => f.bytes.take f.sent) = R.chunks
  written : R.chunks.flatten.Sublist A.upstream.written

/-- The last write of the request, if there was one, did not fail. -/
def LastWriteOk (r : ReqId) (A : Session) : Prop :=
  ∀ f, (A.finishedOf r).getLast? = some f → f.ok = true

theorem Session.Upload.ok_of_last {r : ReqId} {A : Session} (h : A.Upload)
    (hlast : LastWriteOk r A) : ∀ f ∈ A.finishedOf r, f.ok = true := by
  intro f hf
  have hmem : f ∈ A.finished := List.mem_of_mem_filter hf
  have hne : A.finished ≠ [] := List.ne_nil_of_mem hmem
  have hsplit : A.finished = A.finished.dropLast ++ [A.finished.getLast hne] :=
    (List.dropLast_append_getLast hne).symm
  have hmem' := hmem
  rw [hsplit, List.mem_append, List.mem_singleton] at hmem'
  rcases hmem' with hinit | hf'
  · exact h.whole f hinit
  · -- only the last write of the session can have failed, and it is the last of `r`
    have hreq : f.req = r := by simpa using List.of_mem_filter hf
    refine hlast f ?_
    rw [Session.finishedOf, hsplit, List.filter_append, ← hf']
    simp [hreq]

theorem Session.Upload.delivered {r : ReqId} {R : Call} {A : Session} (h : A.Upload)
    (hchunks : (A.finishedOf r).map Written.bytes = R.chunks)
    (hok : ∀ f ∈ A.finishedOf r, f.ok = true) : Delivered r R A := by
  have hsent : (A.finishedOf r).map (fun f => f.bytes.take f.sent) = R.chunks := by
    rw [← hchunks]
    refine List.map_congr_left fun f hf => ?_
    rw [(h.sent f (List.mem_of_mem_filter hf)).mp (hok f hf), List.take_length]
  refine ⟨hok, hsent, ?_⟩
  rw [h.written, Session.sentBytes, ← hsent]
  exact ((List.filter_sublist.map _).flatten).trans (List.sublist_append_left _ _)

namespace Server

variable {env : ServerEnv} {s : Server} {r : ReqId} {R : Call}

/-- A request answered `NO_CONTENT` was delivered if and only if its last write
did not fail: an earlier failure stops the actor before the next `ask`, but
after the last chunk nobody asks. -/
theorem delivered_iff_lastWriteOk (h : (machine env).Reachable s) (hr : s.calls r = some R)
    (hresp : R.response = some noContent) :
    ∃ a A, R.session = some a ∧ s.actors a = some A ∧
      (Delivered r R A ↔ LastWriteOk r A) := by
  have hdone := handler_of_noContent h hr hresp
  have hsession : R.session ≠ none := fun hnone => by
    obtain ⟨e, he⟩ := refused_of_reachable h hr hnone
    simp [hdone] at he
  obtain ⟨a, hR⟩ := Option.ne_none_iff_exists'.mp hsession
  obtain ⟨A, ha, _⟩ := (coherent_of_reachable h).call hr hR
  have hupload := Session.Upload.of_reachable h ha
  obtain ⟨_, hchunks⟩ := ((ledger_of_reachable h).account hr hR ha).whole
    (by simp [hdone, Handler.broken])
  have hchunks' : (A.finishedOf r).map Written.bytes = R.chunks := by
    simpa [hdone, Handler.unanswered] using hchunks
  refine ⟨a, A, hR, ha, fun hdelivered f hf => ?_, fun hlast => ?_⟩
  · exact hdelivered.ok f (List.mem_of_getLast? hf)
  · exact hupload.delivered hchunks' (hupload.ok_of_last hlast)

/-- A `POST` of one chunk reaches the handler of a connected session. -/
def postChunk : List ServerEvent :=
  [.request 0 (sampleRequest .post) 0, .actor 0 .start, .actor 0 (.connect 8 8),
    .body 0 (.chunk [1, 2, 3]), .ask 0, .handle 0]

/-- Its only write fails. -/
def postFails : List ServerEvent :=
  postChunk ++ [.actor 0 (.write 1), .writeErr 0, .reply 0, .body 0 .finished]

def postSucceeds : List ServerEvent :=
  postChunk ++ [.actor 0 (.write 1), .actor 0 (.write 2), .writeOk 0, .reply 0, .body 0 .finished]

theorem postSucceeds_delivered :
    ∃ (s : Server) (R : Call), s.calls 0 = some R ∧ R.response = some noContent ∧
      ∃ a A, R.session = some a ∧ s.actors a = some A ∧ (Delivered 0 R A ↔ LastWriteOk 0 A) := by
  obtain ⟨s, hrun, hs⟩ := Machine.exists_run (M := machine sampleEnv)
    (P := fun s => (s.calls 0).bind Call.response = some noContent) postSucceeds (by decide)
  obtain ⟨R, hr, hresp⟩ := Option.bind_eq_some_iff.mp hs
  exact ⟨s, R, hr, hresp, delivered_iff_lastWriteOk hrun.reachable hr hresp⟩

/-- The failed chunk is answered `NO_CONTENT`. -/
theorem postFails_noContent :
    ∃ s R A, (machine sampleEnv).Reachable s ∧ s.calls 0 = some R ∧
      R.response = some noContent ∧ R.session = some 0 ∧ s.actors 0 = some A ∧
      R.chunks = [[1, 2, 3]] ∧ A.upstream.written = [1] ∧ ¬ Delivered 0 R A := by
  obtain ⟨s, hrun, hcall, hactor⟩ := Machine.exists_run (M := machine sampleEnv)
    (P := fun s =>
      (s.calls 0).map (fun R => (R.response, R.session, R.chunks)) =
        some (some noContent, some 0, [[1, 2, 3]]) ∧
      (s.actors 0).map (fun A => (A.finished, A.upstream.written)) =
        some ([⟨0, [1, 2, 3], 1, false⟩], [1])) postFails (by decide)
  simp only [Prod.mk.injEq, Option.map_eq_some_iff] at hcall hactor
  obtain ⟨R, hr, hresp, hR, hchunks⟩ := hcall
  obtain ⟨A, ha, hfinished, hwritten⟩ := hactor
  refine ⟨s, R, A, hrun.reachable, hr, hresp, hR, ha, hchunks, hwritten, fun hdelivered => ?_⟩
  have hfailed := hdelivered.ok ⟨0, [1, 2, 3], 1, false⟩ (by simp [Session.finishedOf, hfinished])
  exact Bool.false_ne_true hfailed

end Server
end Fronting
