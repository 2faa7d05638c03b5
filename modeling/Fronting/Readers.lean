import Fronting.Downloads

/-!
# Who holds the read half

The lock of the read half goes from stream to stream. It is held by the last stream of the
session until that stream has ended or is dropped, so a further `SessionRead` finds it
taken exactly as long as there is such a stream, and aborting the last stream silences the
session.
-/

namespace Fronting

open Function (update)

namespace Session

variable {env : ServerEnv} {A A' : Session}

theorem Move.reader (h : Move env A A') {r : ReqId} (hr : A'.reader = some r) :
    A.reader = some r ∨ .read r ∈ A.asked ∧ A.reader = none := by
  cases h with
  | own h =>
      rw [(step_local h).reader] at hr
      exact .inl hr
  | grant rest q hm hlife hidle hfree =>
      obtain rfl : q = r := Option.some.inj hr
      refine .inr ⟨?_, hfree⟩
      simp [asked_cons hm hidle]
  | release q =>
      unfold Session.release at hr
      dsimp only at hr
      split at hr
      · cases hr
      · exact .inl hr
  | _ => exact .inl hr

theorem Move.closing (h : Move env A A') (hc : A.closing) : A'.closing := by
  have hlife : A.life = .running → A'.closing := fun hl => by
    rcases hc with hc | hc <;> simp [hc] at hl
  cases h with
  | own h => exact step_closing h hc
  | writeErr w _ hl => exact hlife hl
  | dropAborts hl => rcases hc with hc | hc <;> simp [hc] at hl
  | dropRemove => exact .inr rfl
  | _ => exact hc

/-- An actor's own steps do not drop its `Session`. -/
theorem closing_of_step {now : Nat} {e : ActorEvent} (h : A.step env now e = some A')
    (hc : A'.closing) : A.closing := by
  cases Own.of_step h with
  | start | connect | connectKilled | connectError | close | abort =>
      rcases hc with hc | hc <;> cases hc
  | _ => exact hc

/-- `Drop` takes the abort handle; until then it belongs to the stream returned last. -/
theorem readAbort_of_reachable {s : Server} {a : ActorRef}
    (h : (Server.machine env).Reachable s) (ha : s.actors a = some A) :
    A.closing ∨ A.upstreamReadAbort = A.opened.getLast? := by
  refine Server.actor_invariant
    (I := fun A => A.closing ∨ A.upstreamReadAbort = A.opened.getLast?) ?_ ?_ h ha
  · exact fun x => .inr rfl
  · intro A A' hI hmove
    rcases hI with hc | heq
    · exact .inl (hmove.closing hc)
    · cases hmove with
      | own hstep =>
          have hlocal := step_local hstep
          rw [hlocal.opened, hlocal.readAbort]
          exact .inr heq
      | grant rest r => exact .inr (by simp)
      | dropAborts => exact .inl (.inl rfl)
      | _ => exact .inr heq

end Session

namespace Server

variable {env : ServerEnv} {s t : Server} {e : ServerEvent} {a : ActorRef} {A B : Session}
  {q r : ReqId} {st st' : ReadStream}

/-- The stream of `r` has neither ended nor been dropped. -/
def Open (s : Server) (a : ActorRef) (r : ReqId) : Prop :=
  ∃ st, s.streams r = some st ∧ st.session = a ∧ st.ended = false ∧ st.dropped = false

/-- The stream that holds the lock is not dropped, and it has ended only by being aborted. -/
def Held (s : Server) : Prop :=
  ∀ r st A, s.streams r = some st → s.actors st.session = some A → A.reader = some r →
    st.dropped = false ∧ (st.ended = true → st.aborted = true)

theorem reader_release (A : Session) (r : ReqId) : (A.release r).reader ≠ some r := by
  unfold Session.release
  dsimp only
  split
  · simp
  · assumption

/-- A stream that ends in a poll lets go of the lock. -/
theorem Step.poll_released {res : ReadResult} (h : Step env s (.poll r res) t)
    (hst : s.streams r = some st) (hst' : t.streams r = some st') (hended : st'.ended = true)
    (hB : t.actors st.session = some B) : B.reader ≠ some r := by
  cases h with
  | pollEnd u R A hu =>
      obtain rfl : st = u := Option.some.inj (hst.symm.trans hu)
      obtain rfl : A.release r = B := by simpa [endStream] using hB
      exact reader_release A r
  | pollPending u R A hu hr ha hactive =>
      simp only [ReadStream.active, Bool.and_eq_true, Bool.not_eq_true'] at hactive
      obtain rfl : { u with first := false, turn := .reading } = st' := by simpa using hst'
      exact absurd (hactive.1.1.symm.trans hended) Bool.false_ne_true
  | @pollData _ n u R A hu hr ha hactive =>
      simp only [ReadStream.active, Bool.and_eq_true, Bool.not_eq_true'] at hactive
      obtain rfl : { u with first := false, turn := .telling (A.upstream.rx.take n) } = st' := by
        simpa using hst'
      exact absurd (hactive.1.1.symm.trans hended) Bool.false_ne_true

theorem Step.drop_released (h : Step env s (.dropStream r) t) (hst : s.streams r = some st)
    (hB : t.actors st.session = some B) : B.reader ≠ some r := by
  cases h with
  | dropStream u A hu =>
      obtain rfl : st = u := Option.some.inj (hst.symm.trans hu)
      obtain rfl : A.release r = B := by simpa using hB
      exact reader_release A r

theorem Held.step (h : Held s) (hs : (machine env).Reachable s) (hstep : Step env s e t) :
    Held t := by
  have hcoherent := coherent_of_reachable hs
  intro r st' B hst' hB hreader
  rcases hstep.stream hcoherent hst' with ⟨st, hst, hmove⟩ | ⟨_, hstart, _⟩
  · obtain ⟨A, hA⟩ := hcoherent.actor_of_stream hst
    have hsession : st'.session = st.session := by cases hmove <;> rfl
    rw [hsession] at hB
    have hheld : A.reader = some r := by
      rcases hstep.move hB with ⟨A₀, hA₀, hmove'⟩ | ⟨x, rfl, hnew⟩
      · obtain rfl : A = A₀ := Option.some.inj (hA.symm.trans hA₀)
        rcases hmove'.reader hreader with hr | ⟨hasked, _⟩
        · exact hr
        · exact absurd ((hcoherent.unread hA hasked).symm.trans hst) (by simp)
      · exact absurd (hnew.fresh.symm.trans hA) (by simp)
    obtain ⟨hkept, hended⟩ := h r st A hst hA hheld
    cases hmove with
    | stay | wait | data | yield => exact ⟨hkept, hended⟩
    | abort => exact ⟨hkept, fun _ => rfl⟩
    | stop habort => exact ⟨hkept, fun _ => habort⟩
    | finish res => exact absurd hreader (hstep.poll_released hst hst' rfl hB)
    | drop => exact absurd hreader (hstep.drop_released hst hB)
  · rw [hstart]
    exact ⟨rfl, fun hended => absurd hended Bool.false_ne_true⟩

theorem held_of_reachable (h : (machine env).Reachable s) : Held s := by
  refine h.invariant ?_ fun s e t hs hheld hstep => hheld.step hs (Step.of_step hstep)
  intro r st A hst
  simp [machine, init] at hst

/-- Once a session has aborted its last stream, none of its streams is polled any more. -/
def Silenced (s : Server) : Prop :=
  ∀ r st A, s.streams r = some st → s.actors st.session = some A → A.closing → st.active = false

theorem not_closing_of_running (hlife : A.life = .running) : ¬ A.closing := by
  rintro (hc | hc) <;> simp [hlife] at hc

/-- `Drop` aborts the one stream that is still polled. -/
theorem Step.dropAborts_silenced (h : Step env s (.dropAborts a) t)
    (hs : (machine env).Reachable s) (hst' : t.streams r = some st')
    (hsession : st'.session = a) : st'.active = false := by
  have hdownload := download_of_reachable hs
  rcases h.stream (coherent_of_reachable hs) hst' with ⟨st, hst, hmove⟩ | ⟨_, _, hevent, _⟩
  · cases hmove with
    | abort => simp [ReadStream.active]
    | stay =>
        by_contra hactive
        have hactive' := hactive
        simp only [ReadStream.active, Bool.not_eq_false, Bool.and_eq_true,
          Bool.not_eq_true'] at hactive
        obtain ⟨⟨hopen, hkept⟩, hlive⟩ := hactive
        cases h with
        | dropAborts A ha hlife =>
            have hnotclosing : ¬ A.closing := by
              rintro (hc | hc) <;> simp [hlife] at hc
            have hlast := hdownload.last ha (hdownload.lock hst (hsession ▸ ha) hopen hkept)
            have habort : A.upstreamReadAbort = some r :=
              ((Session.readAbort_of_reachable hs ha).resolve_left hnotclosing).trans hlast
            -- the stream is the one aborted
            have hst'' : { st' with aborted := true } = st' := by
              simpa [dropAbortsStep, habort, hst] using hst'
            rw [← hst''] at hlive
            cases hlive
  · cases hevent

/-- A `Session` is dropped in one step. -/
theorem Step.closing {b : ActorRef} {B' : Session} (h : Step env s e t)
    (hb : s.actors b = some B) (hB' : t.actors b = some B') (hc : B'.closing) :
    B.closing ∨ e = .dropAborts b := by
  rcases h.life hb hB' with hlife | hstep
  · unfold Session.closing at hc ⊢
    rw [hlife] at hc
    exact .inl hc
  · cases hstep with
    | own e B' hown => exact .inl (Session.closing_of_step hown hc)
    | writeErr w =>
        rcases hc with hc | hc <;> cases hc
    | dropAborts => exact .inr rfl
    | dropRemove hlife => exact .inl (.inl hlife)

theorem Silenced.step (h : Silenced s) (hs : (machine env).Reachable s)
    (hstep : Step env s e t) : Silenced t := by
  have hcoherent := coherent_of_reachable hs
  intro r st' B hst' hB hclosing
  rcases hstep.stream hcoherent hst' with ⟨st, hst, hmove⟩ | ⟨_, _, rfl, A, rest, hA, _, hlife, _⟩
  · obtain ⟨A, hA⟩ := hcoherent.actor_of_stream hst
    have hsession : st'.session = st.session := by cases hmove <;> rfl
    rw [hsession] at hB
    rcases hstep.closing hA hB hclosing with hc | rfl
    · obtain ⟨st'', hst'', hgrows⟩ := hstep.stream_grows hcoherent hst
      obtain rfl : st'' = st' := Option.some.inj (hst''.symm.trans hst')
      exact (hgrows.inactive (h r st A hst hA hc)).1
    · exact hstep.dropAborts_silenced hs hst' hsession
  · rcases hstep.closing hA hB hclosing with hc | he
    · exact absurd hc (not_closing_of_running hlife)
    · cases he

theorem silenced_of_reachable (h : (machine env).Reachable s) : Silenced s := by
  refine h.invariant ?_ fun s e t hs hsilenced hstep => hsilenced.step hs (Step.of_step hstep)
  intro r st A hst
  simp [machine, init] at hst

/-- A session that has been dropped yields no more frames, whatever happens next. -/
theorem frames_of_closing {fs : List ServerEvent} (hs : (machine env).Reachable s)
    (ha : s.actors a = some A) (hclosing : A.closing) (hfs : (machine env).exec s fs = some t)
    (hst' : t.streams r = some st') (hsession : st'.session = a) :
    ∃ st, s.streams r = some st ∧ st.session = a ∧ st'.frames = st.frames := by
  induction fs generalizing s A with
  | nil =>
      obtain rfl : s = t := by simpa using hfs
      exact ⟨st', hst', hsession, rfl⟩
  | cons e fs ih =>
      rw [Machine.exec_cons] at hfs
      obtain ⟨u, hu, ht⟩ := Option.bind_eq_some_iff.mp hfs
      obtain ⟨B, hB, hmove⟩ := actor_of_step ha hu
      obtain ⟨v, hv, hvsession, hframes⟩ := ih (hs.step hu) hB (hmove.closing hclosing) ht
      have hcoherent := coherent_of_reachable hs
      have hstep := Step.of_step hu
      rcases hstep.stream hcoherent hv with ⟨st, hst, _⟩ | ⟨_, _, _, A', rest, hA', _, hlife, _⟩
      · obtain ⟨v', hv', hgrows⟩ := hstep.stream_grows hcoherent hst
        obtain rfl : v' = v := Option.some.inj (hv'.symm.trans hv)
        have hst_session : st.session = a := hgrows.session.symm.trans hvsession
        have hsilent := silenced_of_reachable hs r st A hst (hst_session ▸ ha) hclosing
        exact ⟨st, hst, hst_session, hframes.trans (hgrows.inactive hsilent).2.1⟩
      · rw [hvsession] at hA'
        obtain rfl : A = A' := Option.some.inj (ha.symm.trans hA')
        exact absurd hclosing (not_closing_of_running hlife)

/-- The lock of a running session is taken exactly as long as one of its streams is open. -/
theorem reader_iff_open (hs : (machine env).Reachable s) (ha : s.actors a = some A)
    (hlife : A.life = .running) : A.reader = some q ↔ s.Open a q := by
  constructor
  · intro hheld
    obtain ⟨st, hst, hsession⟩ := (coherent_of_reachable hs).reader ha hheld
    have hA : s.actors st.session = some A := hsession ▸ ha
    obtain ⟨hkept, hended⟩ := held_of_reachable hs q st A hst hA hheld
    refine ⟨st, hst, hsession, ?_, hkept⟩
    by_contra hopen
    have habort := hended (eq_true_of_ne_false hopen)
    exact not_closing_of_running hlife ((download_of_reachable hs).aborted hst hA habort)
  · rintro ⟨st, hst, hsession, hopen, hkept⟩
    exact (download_of_reachable hs).lock hst (hsession ▸ ha) hopen hkept

theorem handleRead_refused : (A.handleRead r).2 = false ↔ ∃ q, A.reader = some q := by
  unfold Session.handleRead
  split
  next q hq => simp [hq]
  next hq => simp [hq]

theorem Step.handle_refused {rest : List Message} (h : Step env s (.handle a) t)
    (ha : s.actors a = some A) (hm : A.mailbox = .read r :: rest)
    (hrefused : ∃ q, A.reader = some q) :
    t.streams = s.streams ∧
      ∃ B, t.actors a = some B ∧ B.upstreamReadAbort = A.upstreamReadAbort := by
  obtain ⟨q, hq⟩ := hrefused
  cases h with
  | handleGranted A' rest' r' ha' _ _ _ hfree =>
      obtain rfl : A = A' := Option.some.inj (ha.symm.trans ha')
      exact absurd (hq.symm.trans hfree) (by simp)
  | handleRefused A' rest' r' q' ha' =>
      obtain rfl : A = A' := Option.some.inj (ha.symm.trans ha')
      refine ⟨?_, { A with mailbox := rest' }, ?_, rfl⟩
      · rw [replyTo_streams, setActor_streams]
      · rw [replyTo_actors, setActor_actors, Function.update_self]
  | handleWrite A' rest' r' bytes ha' hm' | handleReset A' rest' ha' hm' =>
      obtain rfl : A = A' := Option.some.inj (ha.symm.trans ha')
      rw [hm] at hm'
      cases hm'

theorem Step.handle_running (h : Step env s (.handle a) t) (ha : s.actors a = some A) :
    A.life = .running := by
  cases h with
  | handleGranted A' _ _ ha' _ hlife | handleRefused A' _ _ _ ha' _ hlife
  | handleWrite A' _ _ _ ha' _ hlife | handleReset A' _ ha' _ hlife =>
      obtain rfl : A = A' := Option.some.inj (ha.symm.trans ha')
      exact hlife

/-- The read half of a session has one stream at most, and a `SessionRead` is refused
exactly when it has one; the abort handle is the last stream's, so that a dropped session
yields nothing more. -/
theorem single_reader (hs : (machine env).Reachable s) (ha : s.actors a = some A) :
    (∀ q r, s.Open a q → s.Open a r → q = r ∧ A.reader = some r) ∧
    (∀ r rest t, A.mailbox = .read r :: rest → step env s (.handle a) = some t →
      ((A.handleRead r).2 = false ↔ ∃ q, s.Open a q) ∧
      ((A.handleRead r).2 = false → t.streams = s.streams ∧
        ∃ B, t.actors a = some B ∧ B.upstreamReadAbort = A.upstreamReadAbort)) ∧
    (A.closing ∨ A.upstreamReadAbort = A.opened.getLast?) ∧
    (A.closing → ∀ fs t r st', (machine env).exec s fs = some t → t.streams r = some st' →
      st'.session = a → ∃ st, s.streams r = some st ∧ st.session = a ∧
        st'.frames = st.frames) := by
  have hlock : ∀ q, s.Open a q → A.reader = some q := by
    rintro q ⟨st, hst, hsession, hopen, hkept⟩
    exact (download_of_reachable hs).lock hst (hsession ▸ ha) hopen hkept
  refine ⟨?_, ?_, Session.readAbort_of_reachable hs ha, ?_⟩
  · intro q r hq hr
    have hqr : q = r := Option.some.inj ((hlock q hq).symm.trans (hlock r hr))
    exact ⟨hqr, hlock r hr⟩
  · intro r rest t hm hstep
    have hcases := Step.of_step hstep
    have hlife := hcases.handle_running ha
    constructor
    · rw [handleRead_refused]
      exact exists_congr fun q => reader_iff_open hs ha hlife
    · intro hrefused
      exact hcases.handle_refused ha hm (handleRead_refused.mp hrefused)
  · intro hclosing fs t r st' hfs hst' hsession
    exact frames_of_closing hs ha hclosing hfs hst' hsession

/-- A second `GET` arrives while the stream of the first is open. -/
def secondGet : List ServerEvent :=
  [.request 0 (sampleRequest .get) 0, .actor 0 .start, .actor 0 (.connect 8 8), .ask 0,
    .handle 0, .reply 0, .poll 0 .pending, .request 1 (sampleRequest .get) 1, .ask 1]

theorem secondGet_refused :
    ∃ s A, s.actors 0 = some A ∧ s.Open 0 0 ∧ (A.handleRead 1).2 = false ∧
      A.upstreamReadAbort = A.opened.getLast? ∧
      ∀ t, step sampleEnv s (.handle 0) = some t → t.streams = s.streams := by
  obtain ⟨s, hrun, hactor, hstream⟩ := Machine.exists_run (M := machine sampleEnv)
    (P := fun s => (s.actors 0).map (fun A => (A.life, A.mailbox, A.handling)) =
        some (.running, [.read 1], none) ∧
      s.streams 0 = some ⟨0, false, .reading, false, false, false, []⟩) secondGet (by decide)
  obtain ⟨A, ha, hA⟩ := Option.map_eq_some_iff.mp hactor
  simp only [Prod.mk.injEq] at hA
  obtain ⟨hlife, hm, hidle⟩ := hA
  obtain ⟨_, hrefused, habort, _⟩ := single_reader hrun.reachable ha
  have hopen : s.Open 0 0 := ⟨_, hstream, rfl, rfl, rfl⟩
  have hstep : step sampleEnv s (.handle 0) = some (s.handleStep sampleEnv 0
      { A with mailbox := [] } (.read 1)) := by
    simp [step, ha, hm, hlife, hidle]
  have hfalse := (hrefused 1 [] _ hm hstep).1.mpr ⟨0, hopen⟩
  refine ⟨s, A, ha, hopen, hfalse, habort.resolve_left (not_closing_of_running hlife), ?_⟩
  intro t ht
  exact ((hrefused 1 [] t hm ht).2 hfalse).1

end Server
end Fronting
