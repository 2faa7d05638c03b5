import Fronting.Uploads
import Fronting.Downloads

/-!
# Writes that block reads

`SessionWrite` waits inside its handler for room at upstream, and everything a
read needs from the actor waits behind it: `SessionRead` in the mailbox, and the
`tell` of an open stream when the mailbox is full. An upstream that takes no
input before its output is read closes the circle.
-/

namespace Fronting.Server

open Function (update)

variable {env : ServerEnv} {s t : Server} {e : ServerEvent} {a : ActorRef} {A A' : Session}
  {r : ReqId} {R R' : Call} {st : ReadStream}

/-- A request that awaits the reply of a live session has its message in the mailbox. -/
def Queued (s : Server) : Prop :=
  ∀ r R a A, s.calls r = some R → R.session = some a → s.actors a = some A → A.isAlive →
    R.handler = .awaitRead → .read r ∈ A.mailbox

theorem Queued.congr (h : Queued s) (hactors : t.actors = s.actors) (hcalls : t.calls = s.calls) :
    Queued t := by
  intro r R a A hr hR ha
  rw [hcalls] at hr
  rw [hactors] at ha
  exact h r R a A hr hR ha

theorem Queued.setActor (h : Queued s) (ha : s.actors a = some A)
    (halive : A'.isAlive → A.isAlive)
    (hmail : ∀ q, A'.isAlive → .read q ∈ A.mailbox → .read q ∈ A'.mailbox) :
    Queued (s.setActor a A') := by
  intro q Q b B hQ hb hB hal hh
  by_cases hba : b = a
  · subst hba
    obtain rfl : A' = B := by simpa using hB
    exact hmail q hal (h q Q b A hQ hb ha (halive hal) hh)
  · exact h q Q b B hQ hb (by simpa [hba] using hB) hal hh

theorem Queued.setCall (h : Queued s) (hh : R.handler ≠ .awaitRead) : Queued (s.setCall r R) := by
  intro q Q b B hQ hb hB hal hwait
  by_cases hq : q = r
  · subst hq
    obtain rfl : R = Q := by simpa using hQ
    exact absurd hwait hh
  · exact h q Q b B (by simpa [hq] using hQ) hb hB hal hwait

theorem Queued.newSession (h : Queued s) (x : Uuid)
    (hcall : ∀ r R, s.calls r = some R → R.session ≠ some a) : Queued (s.newSession x a) := by
  intro q Q b B hQ hb hB hal hwait
  have hba : b ≠ a := by rintro rfl; exact hcall q Q hQ hb
  exact h q Q b B hQ hb (by simpa [hba] using hB) hal hwait

/-- The actor answers `r`; the other requests keep their messages. -/
theorem Queued.answer (h : Queued s) (ha : s.actors a = some A) (halive : A'.isAlive → A.isAlive)
    (hmail : ∀ q, q ≠ r → .read q ∈ A.mailbox → .read q ∈ A'.mailbox) (b : Bool) :
    Queued ((s.setActor a A').replyTo r b) := by
  intro q Q c C hQ hc hC hal hwait
  rw [replyTo_calls] at hQ
  rw [replyTo_actors, setActor_actors] at hC
  by_cases hq : q = r
  · subst hq
    rw [if_pos rfl] at hQ
    obtain ⟨R, _, rfl⟩ := Option.map_eq_some_iff.mp hQ
    cases hh : R.handler <;> simp [hh, onReply] at hwait
  · rw [if_neg hq] at hQ
    by_cases hca : c = a
    · subst hca
      obtain rfl : A' = C := by simpa using hC
      exact hmail q hq (h q Q c A hQ hc ha (halive hal) hwait)
    · exact h q Q c C hQ hc (by simpa [hca] using hC) hal hwait

theorem Queued.askRead (h : Queued s) (hR : R.session = some a) (ha : s.actors a = some A)
    (halive : A.isAlive) : Queued ((s.setActor a (A.enqueue (.read r))).setCall r
      { R with handler := .awaitRead }) := by
  intro q Q b B hQ hb hB hal hwait
  simp only [setCall_actors, setActor_actors, setCall_calls, setActor_calls] at hB hQ
  by_cases hq : q = r
  · subst hq
    obtain rfl : { R with handler := .awaitRead } = Q := by simpa using hQ
    obtain rfl : a = b := Option.some.inj (hR.symm.trans hb)
    obtain rfl : A.enqueue (.read q) = B := by simpa using hB
    simp [Session.enqueue]
  · have hQ' : s.calls q = some Q := by simpa [hq] using hQ
    by_cases hba : b = a
    · subst hba
      obtain rfl : A.enqueue (.read r) = B := by simpa using hB
      simp [Session.enqueue, h q Q b A hQ' hb ha halive hwait]
    · exact h q Q b B hQ' hb (by simpa [hba] using hB) hal hwait

theorem Queued.step (h : Queued s) (hcoherent : Coherent s) (hstep : Step env s e t) :
    Queued t := by
  cases hstep with
  | reject x e hr => exact h.setCall (by simp)
  | @join r req fresh x b hr =>
      refine h.setCall ?_
      by_cases hm : req.method = .get <;> simp [startHandler, hm]
  | @create r req fresh x hr hfresh | @replace r req fresh x d hr hfresh =>
      have hnew : ∀ q Q, s.calls q = some Q → Q.session ≠ some fresh := by
        intro q Q hQ hs
        obtain ⟨A, hA, _⟩ := hcoherent.call hQ hs
        simp [hfresh] at hA
      refine (h.newSession x hnew).setCall ?_
      by_cases hm : req.method = .get <;> simp [startHandler, hm]
  | cancel R hr => exact h.setCall (by simp)
  | @body r e R total hr =>
      refine h.setCall ?_
      cases e <;> simp [bodyStep]
  | @askWrite r R a A total data hr hR ha =>
      have hactor : Queued (s.setActor a (A.acceptWrite r data)) :=
        h.setActor ha id fun q _ hq => by simp [Session.acceptWrite, Session.enqueue, hq]
      exact hactor.setCall (by simp)
  | askRead R a A hr hR ha hh halive => exact h.askRead hR ha halive
  | askFailed R a A e hr => exact h.setCall (by simp)
  | @replyWrote r R total data hr =>
      have hcall : Queued (s.setCall r { R with handler := .nextChunk (total + data.length) }) :=
        h.setCall (by simp)
      exact hcall.congr rfl rfl
  | replyGranted R hr | replyRefused R hr => exact h.setCall (by simp)
  | actor A A' ha hA =>
      have hlocal := Session.step_local hA
      refine h.setActor ha hlocal.alive fun q hal hq => ?_
      rcases hlocal.mailbox with hm | ⟨_, hdead⟩
      · exact hm ▸ hq
      · simp [hdead] at hal
  | @handleGranted a A rest r ha hm =>
      let A₂ : Session := { A with mailbox := rest, reader := some r, upstreamReadAbort := some r
                                   opened := A.opened ++ [r] }
      have hanswer : Queued ((s.setActor a A₂).replyTo r true) := by
        refine h.answer ha ?_ (fun q hq hmem => ?_) true
        · exact id
        · simpa [hm, hq] using hmem
      refine hanswer.congr ?_ ?_
      · simp [A₂]
      · funext q
        simp [replyTo_calls]
  | @handleRefused a A rest r q ha hm =>
      refine h.answer ha ?_ (fun p hp hmem => ?_) false
      · exact id
      · simpa [hm, hp] using hmem
  | handleWrite A rest r bytes ha hm =>
      refine h.setActor ha id fun q _ hmem => ?_
      simpa [hm] using hmem
  | handleReset A rest ha hm =>
      refine h.setActor ha id fun q _ hmem => ?_
      have hrest : Message.read q ∈ rest := by simpa [hm] using hmem
      exact hrest
  | writeOk A w ha hw =>
      refine h.answer ha ?_ (fun q _ hmem => ?_) true
      · exact id
      · rcases Session.mailbox_writeOk env A w with he | he <;> simp [he, hmem]
  | writeErr A w ha hw hlife =>
      refine h.answer ha ?_ (fun q _ hmem => ?_) true
      · exact fun _ => Session.isAlive_of_running hlife
      · exact hmem
  | dropAborts A ha hlife =>
      have hactor : Queued (s.setActor _ A.dropAborts) :=
        h.setActor ha
          (fun hal => by simp [Session.dropAborts, Session.isAlive, Life.mailboxOpen] at hal)
          fun q _ hq => hq
      exact hactor.congr (by simp) (by simp)
  | dropRemove A ha =>
      have hactor : Queued (s.setActor _ { A with life := .dropped }) :=
        h.setActor ha (fun hal => by simp [Session.isAlive, Life.mailboxOpen] at hal)
          fun q _ hq => hq
      exact hactor.congr rfl rfl
  | @pollEnd r res st R A hst hr ha =>
      have hactor : Queued (s.setActor st.session (A.release r)) :=
        h.setActor ha id fun q _ hq => hq
      exact hactor.congr rfl rfl
  | @dropStream r st A hst ha =>
      have hactor : Queued (s.setActor st.session (A.release r)) :=
        h.setActor ha id fun q _ hq => hq
      exact hactor.congr rfl rfl
  | @pollData r n st R A hst hr ha =>
      have hactor : Queued (s.setActor st.session { A with upstream := A.upstream.read n }) :=
        h.setActor ha id fun q _ hq => hq
      exact hactor.congr rfl rfl
  | tellSent st A bytes hst ha =>
      have hactor : Queued (s.setActor st.session (A.enqueue .resetIdleTimeout)) :=
        h.setActor ha id fun q _ hq => by simp [Session.enqueue, hq]
      exact hactor.congr rfl rfl
  | _ => exact h.congr rfl rfl

theorem queued_of_reachable (h : (machine env).Reachable s) : Queued s :=
  h.invariant (fun r R a A hr => by simp [machine, init] at hr) fun _ _ _ hs hq hstep =>
    hq.step (coherent_of_reachable hs) (Step.of_step hstep)

/-- The request does not go on without the actor's handler: it awaits a reply, or
has a message to put into a mailbox that is full. -/
def waits (full accepts : Bool) (stream : Option ReadStream) (R : Call) : Bool :=
  (match R.handler with
    | .sendWrite .. | .sendRead => full
    | .wrote .. | .readReply _ => false
    | _ => true) &&
  stream.all fun st => !(st.active && accepts) ||
    match st.turn with
    | .telling _ => full
    | _ => R.response ≠ some streamResponse

/-- The handler is inside `write_all`, upstream has no room for input, and it
makes none before its output is read. -/
structure WriteBlocked (A : Session) : Prop where
  running : A.life = .running
  writing : ∃ w, A.handling = some w ∧ w.offset < w.bytes.length
  noRoom : A.upstream.txCap ≤ A.upstream.tx.length
  held : A.upstream.rxCap ≤ A.upstream.rx.length ∨ A.upstream.tx = []

def mailboxFull (env : ServerEnv) (A : Session) : Bool := env.mailboxCapacity ≤ A.mailbox.length

/-- The write waits for upstream, and all requests of the session wait for the write. -/
structure Stuck (env : ServerEnv) (accepts : ReqId → Bool) (s : Server) (a : ActorRef)
    (A : Session) : Prop where
  write : WriteBlocked A
  requests : ∀ q Q, s.calls q = some Q → Q.session = some a →
    waits (mailboxFull env A) (accepts q) (s.streams q) Q

/-- The steps of a session, its requests, its streams and its upstream host that
neither end anything nor bring anything new. The host takes input only while its
output has room, and a stream moves only if its receiver accepts frames. -/
def Progress (accepts : ReqId → Bool) (s : Server) (a : ActorRef) (A : Session) :
    ServerEvent → Prop
  | .actor b .start | .actor b (.connect _ _) | .actor b (.write _) | .actor b .close => b = a
  | .actor b (.upstreamTake _) => b = a ∧ A.upstream.rx.length < A.upstream.rxCap
  | .handle b | .writeOk b => b = a
  | .ask q | .reply q => ∃ Q, s.calls q = some Q ∧ Q.session = some a
  | .poll q (.data _) | .tell q =>
    accepts q ∧ ∃ st, s.streams q = some st ∧ st.session = a
  | _ => False

/-- A `GET` whose answer is still to come, or is being streamed. -/
def Wants (s : Server) (r : ReqId) (R : Call) : Prop :=
  R.handler = .sendRead ∨ R.handler = .awaitRead ∨ (∃ b, R.handler = .readReply b) ∨
    R.response = some streamResponse ∧ ∃ st, s.streams r = some st ∧ st.active

variable {accepts : ReqId → Bool}

theorem Stuck.no_step (h : Stuck env accepts s a A) (hcoherent : Coherent s)
    (ha : s.actors a = some A) (hp : Progress accepts s a A e) (hstep : Step env s e t) :
    False := by
  obtain ⟨w, hw, hpart⟩ := h.write.writing
  have hrunning := h.write.running
  have hfull : ∀ {B : Session}, A = B → B.mailbox.length < env.mailboxCapacity →
      mailboxFull env A = false := by
    rintro B rfl hroom
    simpa [mailboxFull] using hroom
  have hactor : ∀ {b B}, s.actors b = some B → b = a → A = B := by
    rintro b B hB rfl
    exact Option.some.inj (ha.symm.trans hB)
  cases hstep with
  | @askWrite q Q b B total data hQ hb hB hh halive hroom =>
      obtain ⟨Q', hQ', ha'⟩ := hp
      obtain rfl : Q = Q' := Option.some.inj (hQ.symm.trans hQ')
      obtain rfl : b = a := Option.some.inj (hb.symm.trans ha')
      have hwait := h.requests q Q hQ hb
      simp [waits, hh, hfull (hactor hB rfl) hroom] at hwait
  | @askRead q Q b B hQ hb hB hh halive hroom =>
      obtain ⟨Q', hQ', ha'⟩ := hp
      obtain rfl : Q = Q' := Option.some.inj (hQ.symm.trans hQ')
      obtain rfl : b = a := Option.some.inj (hb.symm.trans ha')
      have hwait := h.requests q Q hQ hb
      simp [waits, hh, hfull (hactor hB rfl) hroom] at hwait
  | @replyWrote q Q total data hQ hh | @replyGranted q Q hQ hh | @replyRefused q Q hQ hh =>
      obtain ⟨Q', hQ', hb⟩ := hp
      obtain rfl : Q = Q' := Option.some.inj (hQ.symm.trans hQ')
      have hwait := h.requests q Q hQ hb
      simp [waits, hh] at hwait
  | @actor b e B B' hB hA =>
      cases Session.Own.of_step hA with
      | start hlife | connect _ _ hlife | connectKilled _ _ hlife | close hlife =>
          obtain rfl := hactor hB hp
          simp [hrunning] at hlife
      | write n v hv _ hpos _ hroom =>
          obtain rfl := hactor hB hp
          have hnone := h.write.noRoom
          omega
      | upstreamTake n _ hpos hlen =>
          obtain ⟨hb, hspare⟩ := hp
          obtain rfl := hactor hB hb
          rcases h.write.held with hheld | hempty
          · omega
          · simp [hempty] at hlen
            omega
      | _ => exact hp
  | handleGranted B _ _ hB _ _ hidle | handleRefused B _ _ _ hB _ _ hidle
  | handleWrite B _ _ _ hB _ _ hidle | handleReset B _ hB _ _ hidle =>
      obtain rfl := hactor hB hp
      simp [hw] at hidle
  | writeOk B v hB hv _ hall =>
      obtain rfl := hactor hB hp
      obtain rfl : w = v := Option.some.inj (hw.symm.trans hv)
      omega
  | @pollData q n st Q B hst hQ hB hactive hresp hturn =>
      obtain ⟨hacc, u, hu, hb⟩ := hp
      obtain rfl : st = u := Option.some.inj (hst.symm.trans hu)
      obtain ⟨Q', hQ', hs, _⟩ := hcoherent.stream hst
      obtain rfl : Q = Q' := Option.some.inj (hQ.symm.trans hQ')
      have hwait := h.requests q Q hQ (hb ▸ hs)
      cases hs : st.turn <;>
        simp [waits, hst, hactive, hacc, hs, hresp, Turn.betweenReads] at hwait hturn
  | @tellSent q st B bytes hst hB hturn hactive halive hroom =>
      obtain ⟨hacc, u, hu, hb⟩ := hp
      obtain rfl : st = u := Option.some.inj (hst.symm.trans hu)
      obtain ⟨Q, hQ, hs, _⟩ := hcoherent.stream hst
      have hwait := h.requests q Q hQ (hb ▸ hs)
      simp [waits, hst, hactive, hacc, hturn, hfull (hactor hB hb) hroom] at hwait
  | @tellSkipped q st B bytes hst hB hturn hactive hdead =>
      obtain ⟨_, u, hu, hb⟩ := hp
      obtain rfl : st = u := Option.some.inj (hst.symm.trans hu)
      obtain rfl := hactor hB hb
      simp [Session.isAlive, hrunning, Life.mailboxOpen] at hdead
  | pollEnd st Q B hst hQ hB hactive hresp hturn hres =>
      rcases hres with ⟨rfl, _⟩ | ⟨rfl, _⟩ | rfl <;> exact hp
  | _ => exact hp

/-- Some step of the session is enabled. -/
def Moves (env : ServerEnv) (accepts : ReqId → Bool) (s : Server) (a : ActorRef) (A : Session) :
    Prop := ∃ e t, Progress accepts s a A e ∧ step env s e = some t

theorem moves_of_step (hp : Progress accepts s a A e) (hstep : Step env s e t)
    (hreq : ∀ r req fresh, e ≠ .request r req fresh) : Moves env accepts s a A :=
  ⟨e, t, hp, hstep.step_eq hreq⟩

theorem moves_of_own {e : ActorEvent} (ha : s.actors a = some A)
    (hp : Progress accepts s a A (.actor a e)) (hA : Session.Own env s.now A e A') :
    Moves env accepts s a A :=
  moves_of_step hp (.actor A A' ha hA.step_eq) (by simp)

theorem moves_of_stream (ha : s.actors a = some A) (halive : A.isAlive)
    (hready : A.upstream.rx ≠ []) (hst : s.streams r = some st) (hsession : st.session = a)
    (hactive : st.active) (haccepts : accepts r) (hr : s.calls r = some R)
    (hmove : ∀ bytes, st.turn = .telling bytes → A.mailbox.length < env.mailboxCapacity)
    (hresp : st.turn.betweenReads → R.response = some streamResponse) :
    Moves env accepts s a A := by
  subst hsession
  cases hturn : st.turn with
  | telling bytes =>
      exact moves_of_step (e := .tell r) ⟨haccepts, st, hst, rfl⟩
        (.tellSent st A bytes hst ha hturn hactive halive (hmove bytes hturn)) (by simp)
  | _ =>
      have hbetween : st.turn.betweenReads = true := by simp [hturn, Turn.betweenReads]
      have hlen : 1 ≤ A.upstream.rx.length := List.length_pos_of_ne_nil hready
      exact moves_of_step (e := .poll r (.data 1)) ⟨haccepts, st, hst, rfl⟩
        (.pollData st R A hst hr ha hactive (hresp hbetween) hbetween Nat.one_pos (by omega) hlen)
        (by simp)

/-- A request that does not wait for the handler has a step. -/
theorem moves_of_not_waits (hcoherent : Coherent s) (ha : s.actors a = some A)
    (halive : A.isAlive) (hready : A.upstream.rx ≠ []) (hr : s.calls r = some R)
    (hR : R.session = some a)
    (hwaits : waits (mailboxFull env A) (accepts r) (s.streams r) R = false) :
    Moves env accepts s a A := by
  have hroom : mailboxFull env A = false → A.mailbox.length < env.mailboxCapacity := by
    intro hfull
    simpa [mailboxFull] using hfull
  simp only [waits, Bool.and_eq_false_iff] at hwaits
  rcases hwaits with hhandler | hstream
  · cases hh : R.handler with
    | sendWrite total data =>
        simp only [hh] at hhandler
        exact moves_of_step (e := .ask r) ⟨R, hr, hR⟩
          (.askWrite R a A total data hr hR ha hh halive (hroom hhandler)) (by simp)
    | sendRead =>
        simp only [hh] at hhandler
        exact moves_of_step (e := .ask r) ⟨R, hr, hR⟩
          (.askRead R a A hr hR ha hh halive (hroom hhandler)) (by simp)
    | wrote total data =>
        exact moves_of_step (e := .reply r) ⟨R, hr, hR⟩ (.replyWrote R total data hr hh) (by simp)
    | readReply b =>
        cases b with
        | true =>
            exact moves_of_step (e := .reply r) ⟨R, hr, hR⟩ (.replyGranted R hr hh) (by simp)
        | false =>
            exact moves_of_step (e := .reply r) ⟨R, hr, hR⟩ (.replyRefused R hr hh) (by simp)
    | _ => simp [hh] at hhandler
  · cases hst : s.streams r with
    | none => simp [hst] at hstream
    | some st =>
        obtain ⟨Q, hQ, hs, _⟩ := hcoherent.stream hst
        obtain rfl : R = Q := Option.some.inj (hr.symm.trans hQ)
        have hsession : st.session = a := Option.some.inj (hs.symm.trans hR)
        simp only [hst, Option.all_some, Bool.or_eq_false_iff, Bool.not_eq_false',
          Bool.and_eq_true] at hstream
        obtain ⟨⟨hactive, haccepts⟩, hturn⟩ := hstream
        refine moves_of_stream ha halive hready hst hsession hactive haccepts hr
          (fun bytes hb => ?_) (fun hb => ?_)
        · simp only [hb] at hturn
          exact hroom hturn
        · cases ht : st.turn <;> simp_all [Turn.betweenReads]

/-- A handler that is not blocked in a write, or an idle actor, leaves some step
to a session that a reader waits for. -/
theorem moves_of_not_blocked (hs : (machine env).Reachable s) (ha : s.actors a = some A)
    (halive : A.isAlive) (hready : A.upstream.rx ≠ []) (hr : s.calls r = some R)
    (hR : R.session = some a) (hwants : Wants s r R) (haccepts : accepts r)
    (hblocked : ¬ WriteBlocked A) : Moves env accepts s a A := by
  have hcoherent := coherent_of_reachable hs
  have hlife : A.life = .running ∨ A.life = .stopping := by
    have hfresh := (Session.Reading.of_reachable hs ha).fresh
    cases hl : A.life <;> simp_all [Session.isAlive, Life.mailboxOpen]
  rcases hlife with hlife | hlife
  · cases hw : A.handling with
    | some w =>
        have hoffset := (Session.Upload.of_reachable hs ha).offset w hw
        by_cases hall : w.offset = w.bytes.length
        · exact moves_of_step (e := .writeOk a) rfl (.writeOk A w ha hw hlife hall) (by simp)
        · have hpart : w.offset < w.bytes.length := by omega
          by_cases hroom : A.upstream.tx.length + 1 ≤ A.upstream.txCap
          · exact moves_of_own (e := .write 1) ha rfl
              (.write 1 w hw hlife Nat.one_pos hpart hroom)
          · by_cases hheld : A.upstream.rxCap ≤ A.upstream.rx.length ∨ A.upstream.tx = []
            · exact absurd ⟨hlife, ⟨w, hw, hpart⟩, by omega, hheld⟩ hblocked
            · simp only [not_or, not_le] at hheld
              have hlen : 1 ≤ A.upstream.tx.length := List.length_pos_of_ne_nil hheld.2
              have hup : A.hasUpstream = true := by simp [Session.hasUpstream, hlife]
              exact moves_of_own (e := .upstreamTake 1) ha ⟨rfl, hheld.1⟩
                (.upstreamTake 1 hup Nat.one_pos hlen)
    | none =>
        cases hm : A.mailbox with
        | cons m rest =>
            cases hstep : step env s (.handle a) with
            | none => simp [step, ha, hm, hlife, hw] at hstep
            | some t => exact ⟨.handle a, t, rfl, hstep⟩
        | nil =>
            -- with an empty mailbox the `GET` itself has the next step
            have hroom : A.mailbox.length < env.mailboxCapacity := by
              simpa [hm] using env.mailboxCapacity_pos
            have hfull : mailboxFull env A = false := by simpa [mailboxFull] using hroom
            refine (hwants.elim (fun hh => ?_) fun h => h.elim (fun hh => ?_) fun h =>
              h.elim (fun hh => ?_) fun hh => ?_)
            · exact moves_of_not_waits hcoherent ha halive hready hr hR (by simp [waits, hh, hfull])
            · have hmem := queued_of_reachable hs r R a A hr hR ha halive hh
              simp [hm] at hmem
            · obtain ⟨b, hh⟩ := hh
              exact moves_of_not_waits hcoherent ha halive hready hr hR (by simp [waits, hh])
            · obtain ⟨hresp, st, hst, hactive⟩ := hh
              obtain ⟨Q, hQ, hsession, _⟩ := hcoherent.stream hst
              obtain rfl : R = Q := Option.some.inj (hr.symm.trans hQ)
              exact moves_of_stream ha halive hready hst
                (Option.some.inj (hsession.symm.trans hR)) hactive haccepts hr
                (fun _ _ => hroom) fun _ => hresp
  · exact moves_of_own (e := .close) ha rfl (.close hlife)

/-- With a live session, bytes ready at upstream and a `GET` whose receiver accepts
frames, a step is enabled unless the session is stuck. -/
theorem moves_iff_not_stuck (h : (machine env).Reachable s) (ha : s.actors a = some A)
    (halive : A.isAlive) (hready : A.upstream.rx ≠ []) (hr : s.calls r = some R)
    (hR : R.session = some a) (hwants : Wants s r R) (haccepts : accepts r) :
    Moves env accepts s a A ↔ ¬ Stuck env accepts s a A := by
  have hcoherent := coherent_of_reachable h
  constructor
  · rintro ⟨e, t, hp, hstep⟩ hstuck
    exact hstuck.no_step hcoherent ha hp (Step.of_step hstep)
  · intro hstuck
    by_cases hblocked : WriteBlocked A
    · by_contra hstill
      refine hstuck ⟨hblocked, fun q Q hQ hb => ?_⟩
      by_contra hwaits
      exact hstill (moves_of_not_waits hcoherent ha halive hready hQ hb (by simpa using hwaits))
    · exact moves_of_not_blocked h ha halive hready hr hR hwants haccepts hblocked

/-- An upstream with room for one byte in each direction echoes the first byte of
a chunk; then a `GET` arrives. -/
def echoOneByte : List ServerEvent :=
  [.request 0 (sampleRequest .post) 0, .actor 0 .start, .actor 0 (.connect 1 1),
    .body 0 (.chunk [1, 2, 3, 4]), .ask 0, .handle 0, .actor 0 (.write 1),
    .actor 0 (.upstreamTake 1), .actor 0 (.upstreamSend [1]), .request 1 (sampleRequest .get) 1]

/-- The second byte of the chunk fills the buffer before the `GET` asks. -/
def echoStalls : List ServerEvent := echoOneByte ++ [.actor 0 (.write 1), .ask 1]

theorem echoOneByte_moves :
    ∃ s A R, s.actors 0 = some A ∧ s.calls 1 = some R ∧
      (Moves sampleEnv (fun _ => true) s 0 A ↔ ¬ Stuck sampleEnv (fun _ => true) s 0 A) := by
  obtain ⟨s, hrun, hactor, hcall⟩ := Machine.exists_run (M := machine sampleEnv)
    (P := fun s => (s.actors 0).map (fun A => (A.life, A.upstream.rx)) = some (.running, [1]) ∧
      s.calls 1 = some ⟨some 0, .get, some 0, .sendRead, []⟩) echoOneByte (by decide)
  obtain ⟨A, ha, hA⟩ := Option.map_eq_some_iff.mp hactor
  obtain ⟨hlife, hrx⟩ := Prod.mk.injEq .. ▸ hA
  refine ⟨s, A, _, ha, hcall, moves_iff_not_stuck hrun.reachable ha ?_ ?_ hcall rfl (.inl rfl) rfl⟩
  · exact Session.isAlive_of_running hlife
  · simp [hrx]

/-- The session is live, a byte is ready at upstream and the `GET` is in its
mailbox, and nothing but a timeout can happen. -/
theorem echoStalls_not_moves :
    ∃ s A R, (machine sampleEnv).Reachable s ∧ s.actors 0 = some A ∧ A.isAlive ∧
      A.upstream.rx ≠ [] ∧ s.calls 1 = some R ∧ R.session = some 0 ∧ Wants s 1 R ∧
      ¬ Moves sampleEnv (fun _ => true) s 0 A := by
  obtain ⟨s, hrun, hactor, hbox, hpost, hget, hstreams⟩ :=
    Machine.exists_run (M := machine sampleEnv)
      (P := fun s =>
        (s.actors 0).map (fun A => (A.life, A.handling, A.upstream)) = some
          (.running, some ⟨0, [1, 2, 3, 4], 2⟩, ⟨1, 1, [2], [1], false, [1, 2], [1], []⟩) ∧
        (s.actors 0).map Session.mailbox = some [.read 1] ∧
        s.calls 0 = some ⟨some 0, .post, some 0, .awaitWrite 0 [1, 2, 3, 4], [[1, 2, 3, 4]]⟩ ∧
        s.calls 1 = some ⟨some 0, .get, some 0, .awaitRead, []⟩ ∧
        (s.streams 0, s.streams 1) = (none, none)) echoStalls (by decide)
  obtain ⟨A, ha, hA⟩ := Option.map_eq_some_iff.mp hactor
  simp only [Prod.mk.injEq] at hA hstreams
  obtain ⟨hlife, hw, hup⟩ := hA
  refine ⟨s, A, _, hrun.reachable, ha, ?_, by simp [hup], hget, rfl, .inr (.inl rfl), ?_⟩
  · exact Session.isAlive_of_running hlife
  · rintro ⟨e, t, hp, hstep⟩
    have hstuck : Stuck sampleEnv (fun _ => true) s 0 A := by
      refine ⟨⟨hlife, ⟨_, hw, by decide⟩, by simp [hup], by simp [hup]⟩, fun q Q hQ _ => ?_⟩
      obtain ⟨req, fresh, hmem⟩ := requested_of_run hrun hQ
      have hq : q = 0 ∨ q = 1 := by
        simp only [echoStalls, echoOneByte, List.cons_append, List.nil_append, List.mem_cons,
          ServerEvent.request.injEq, reduceCtorEq, false_or, or_false, List.not_mem_nil] at hmem
        exact hmem.imp And.left And.left
      rcases hq with rfl | rfl
      · rw [← Option.some.inj (hpost.symm.trans hQ), hstreams.1]
        rfl
      · rw [← Option.some.inj (hget.symm.trans hQ), hstreams.2]
        rfl
    exact hstuck.no_step (coherent_of_reachable hrun.reachable) ha hp (Step.of_step hstep)

end Fronting.Server
