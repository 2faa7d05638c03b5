import Fronting.Readers

/-!
# Dropped responses

The HTTP layer drops a response stream when its client has gone, at any suspension point.
Between two reads nothing is lost, as the next stream takes up upstream where this one
stopped. While `tell(SessionResetIdleTimeout)` waits for room in the mailbox, the bytes of
the turn are in the stream alone.
-/

namespace Fronting.Server

variable {env : ServerEnv} {s t : Server} {e : ServerEvent} {a : ActorRef} {A : Session}
  {r : ReqId} {st : ReadStream}

/-- Of a live session, only a stream that is still polled has bytes in hand. -/
def HandPolled (s : Server) : Prop :=
  ∀ r st A, s.streams r = some st → s.actors st.session = some A → A.isAlive → st.inHand ≠ [] →
    st.active = true

/-- No stream of a live session is dropped with bytes in hand. -/
def EmptyHanded (s : Server) : ServerEvent → Prop
  | .dropStream r => ∀ st A, s.streams r = some st → s.actors st.session = some A →
      A.isAlive → st.inHand = []
  | _ => True

theorem not_alive_of_closing (h : A.closing) : A.isAlive = false := by
  rcases h with hl | hl <;> simp [Session.isAlive, hl, Life.mailboxOpen]

theorem HandPolled.step (h : HandPolled s) (hs : (machine env).Reachable s)
    (hempty : EmptyHanded s e) (hstep : Server.step env s e = some t) : HandPolled t := by
  have ht : (machine env).Reachable t := hs.step hstep
  have hcoherent := coherent_of_reachable hs
  have hcases := Step.of_step hstep
  intro r st' B hst' hB halive hne
  rcases hcases.stream hcoherent hst' with ⟨st, hst, hmove⟩ | ⟨_, hstart, _⟩
  · obtain ⟨A, hA⟩ := hcoherent.actor_of_stream hst
    have hsession : st'.session = st.session := by cases hmove <;> rfl
    have halive' : A.isAlive := (move_of_step hA hstep (hsession ▸ hB)).alive halive
    cases hmove with
    | stay => exact h r st' A hst hA halive' hne
    | wait | yield => exact absurd rfl hne
    | data n bytes hactive => exact hactive
    | finish res hactive hturn => exact absurd (inHand_of_betweenReads hturn) hne
    | abort =>
        have hclosing := (download_of_reachable ht).aborted hst' hB rfl
        exact absurd (halive.symm.trans (not_alive_of_closing hclosing)) (by simp)
    | stop habort =>
        have hclosing := (download_of_reachable hs).aborted hst hA habort
        exact absurd (halive'.symm.trans (not_alive_of_closing hclosing)) (by simp)
    | drop => exact absurd (hempty st A hst hA halive') hne
  · rw [hstart] at hne
    exact absurd rfl hne

/-- The bytes that a live session has consumed are yielded, or in the hand of the stream
that is polled. -/
def Lossless (s : Server) : Prop := ∀ a A, s.actors a = some A → A.isAlive → s.Yielded A

theorem HandPolled.lossless (h : HandPolled s) (hs : (machine env).Reachable s) : Lossless s := by
  intro a A ha halive
  refine yielded_of_inHand (download_of_reachable hs) ha fun r st hst hsession hne => ?_
  exact h r st A hst (hsession ▸ ha) halive hne

theorem length_framesOf_le (s : Server) (rs : List ReqId) :
    (rs.flatMap s.framesOf).length ≤ (rs.flatMap s.takenOf).length := by
  induction rs with
  | nil => exact le_rfl
  | cons r rs ih =>
      have hone : (s.framesOf r).length ≤ (s.takenOf r).length := by
        cases hst : s.streams r <;> simp [framesOf, takenOf, hst, ReadStream.taken]
      simp only [List.flatMap_cons, List.length_append]
      omega

/-- A stream of a live session that has bytes in hand holds the lock. -/
theorem last_of_inHand (h : Download s) (hst : s.streams r = some st)
    (hA : s.actors st.session = some A) (halive : A.isAlive) (hkept : st.dropped = false)
    (hne : st.inHand ≠ []) : A.opened.getLast? = some r := by
  have hopen : st.ended = false := by
    by_contra hended
    have habort : st.aborted = true := by
      by_contra hlive
      exact hne (h.inHand hst (eq_true_of_ne_false hended) (eq_false_of_ne_true hlive))
    have hdead := not_alive_of_closing (h.aborted hst hA habort)
    exact absurd (halive.symm.trans hdead) (by simp)
  exact h.last hA (h.lock hst hA hopen hkept)

theorem not_lossless_of_dropped (hs : (machine env).Reachable s) (hempty : ¬ EmptyHanded s e)
    (hstep : Server.step env s e = some t) : ¬ Lossless t := by
  have hdownload := download_of_reachable hs
  cases e with
  | dropStream r =>
      simp only [EmptyHanded, not_forall] at hempty
      obtain ⟨st, A, hst, hA, halive, hne⟩ := hempty
      intro hlossless
      cases Step.of_step hstep with
      | dropStream st' A' hst' hA' hkept =>
          obtain rfl : st = st' := Option.some.inj (hst.symm.trans hst')
          obtain rfl : A = A' := Option.some.inj (hA.symm.trans hA')
          have hlast := last_of_inHand hdownload hst hA halive hkept hne
          obtain ⟨rest, hconsumed, hpolled⟩ := hlossless st.session (A.release r) (by simp) halive
          have hnil : rest = [] := by
            by_contra hrest
            obtain ⟨q, u, hq, hu, hactive, _⟩ := hpolled hrest
            obtain rfl : r = q := Option.some.inj (hlast.symm.trans hq)
            obtain rfl : { st with dropped := true } = u := by simpa using hu
            simp [ReadStream.active] at hactive
          -- the frames are what they were, and the bytes in hand are missing
          have hframes : ∀ q, ((s.setStream r { st with dropped := true }).setActor st.session
              (A.release r)).framesOf q = s.framesOf q := by
            intro q
            by_cases hq : q = r
            · subst hq
              simp [framesOf, hst]
            · simp [framesOf, hq]
          have hsame : A.opened.flatMap s.takenOf = A.opened.flatMap s.framesOf := by
            rw [← hdownload.consumed hA]
            rw [hnil, List.append_nil] at hconsumed
            exact hconsumed.trans (List.flatMap_congr fun q _ => hframes q)
          obtain ⟨earlier, hsplit⟩ := List.getLast?_eq_some_iff.mp hlast
          have hlength := congrArg List.length hsame
          have hearlier := length_framesOf_le s earlier
          have hhand : 0 < st.inHand.length := List.length_pos_iff.mpr hne
          rw [hsplit] at hlength
          simp only [List.flatMap_append, List.length_append, List.flatMap_singleton, takenOf,
            framesOf, hst, Option.elim_some, ReadStream.taken] at hlength hearlier
          omega
  | _ => exact absurd trivial hempty

/-- In all states of a run the streams of a live session have yielded what was consumed, up
to the bytes of the stream that is polled, if and only if the run drops no stream of a live
session with bytes in hand. -/
theorem run_emptyHanded_iff_lossless {es : List ServerEvent}
    (h : (machine env).Run (fun _ _ => True) es s) :
    (machine env).Run EmptyHanded es s ↔
      ∀ fs u, fs <+: es → (machine env).Run (fun _ _ => True) fs u → Lossless u := by
  refine Machine.run_iff_of_invariant (Q := HandPolled) ?_ ?_ ?_ ?_ h
  · intro r st A hst
    simp [machine, init] at hst
  · exact fun s e t hs hhand hempty hstep => hhand.step hs hempty hstep
  · exact fun s hs hhand => hhand.lossless hs
  · exact fun s e t hs _ hempty hstep => not_lossless_of_dropped hs hempty hstep

/-- A write waits for room at upstream, and the mailbox fills up with the resets of a stream
that goes on reading. -/
def fullMailbox : List ServerEvent :=
  [.request 0 (sampleRequest .get) 0, .actor 0 .start, .actor 0 (.connect 1 128), .ask 0,
    .handle 0, .reply 0, .request 1 (sampleRequest .post) 1, .body 1 (.chunk [1, 2]), .ask 1,
    .handle 0, .actor 0 (.write 1), .actor 0 (.upstreamSend (List.replicate 65 7))] ++
  (List.replicate 64 [.poll 0 (.data 1), .tell 0]).flatten ++ [.poll 0 (.data 1)]

/-- The stream is dropped before it has read anything. -/
def dropEarly : List ServerEvent :=
  [.request 0 (sampleRequest .get) 0, .actor 0 .start, .actor 0 (.connect 8 8), .ask 0,
    .handle 0, .reply 0, .poll 0 .pending, .actor 0 (.upstreamSend [7]), .dropStream 0,
    .request 1 (sampleRequest .get) 1, .ask 1, .handle 0, .reply 1, .poll 1 (.data 1), .tell 1]

theorem dropEarly_lossless :
    ∃ s, (s.actors 0).map (fun A => (A.opened, A.upstream.consumed)) = some ([0, 1], [7]) ∧
      s.framesOf 1 = [7] ∧ ((machine sampleEnv).Run EmptyHanded dropEarly s ↔
        ∀ fs u, fs <+: dropEarly → (machine sampleEnv).Run (fun _ _ => True) fs u →
          Lossless u) := by
  obtain ⟨s, hrun, hactor, hframes⟩ := Machine.exists_run (M := machine sampleEnv)
    (P := fun s => (s.actors 0).map (fun A => (A.opened, A.upstream.consumed)) =
      some ([0, 1], [7]) ∧ s.framesOf 1 = [7]) dropEarly (by decide)
  exact ⟨s, hactor, hframes, run_emptyHanded_iff_lossless hrun⟩

/-- The mailbox is full when the stream has read its last byte, and the stream is dropped
while its `tell` waits. -/
theorem fullMailbox_not_lossless :
    ∃ s A, (machine sampleEnv).Run (fun _ _ => True) (fullMailbox ++ [.dropStream 0]) s ∧
      s.actors 0 = some A ∧ A.isAlive ∧ A.mailbox.length = sampleEnv.mailboxCapacity ∧
      A.upstream.consumed.length = 65 ∧ (s.framesOf 0).length = 64 ∧ ¬ Lossless s := by
  obtain ⟨s, hrun, hactor, hframes, hstream⟩ := Machine.exists_run (M := machine sampleEnv)
    (P := fun s => (s.actors 0).map (fun A => (A.life, A.mailbox.length, A.opened,
        A.upstream.consumed.length)) = some (.running, 64, [0], 65) ∧
      (s.framesOf 0).length = 64 ∧ (s.streams 0).map ReadStream.active = some false)
    (fullMailbox ++ [.dropStream 0]) (by decide +kernel)
  obtain ⟨A, ha, hA⟩ := Option.map_eq_some_iff.mp hactor
  simp only [Prod.mk.injEq] at hA
  obtain ⟨hlife, hbox, hopened, hconsumed⟩ := hA
  have halive : A.isAlive = true := Session.isAlive_of_running hlife
  refine ⟨s, A, hrun, ha, halive, hbox, hconsumed, hframes, fun hlossless => ?_⟩
  obtain ⟨rest, hsplit, hpolled⟩ := hlossless 0 A ha halive
  have hlength := congrArg List.length hsplit
  simp only [hopened, List.length_append, List.flatMap_singleton] at hlength
  have hrest : rest ≠ [] := by
    rintro rfl
    rw [List.length_nil] at hlength
    omega
  obtain ⟨q, st, hq, hst, hactive, _⟩ := hpolled hrest
  obtain rfl : 0 = q := by simpa [hopened] using hq
  rw [hst, Option.map_some, hactive] at hstream
  simp at hstream

end Fronting.Server
