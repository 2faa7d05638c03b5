import Fronting.Growth

/-!
# Bytes on their way from upstream

The streams of a session take turns at the read half: each holds the lock from
the moment it is opened until it ends or is dropped. What was consumed from
upstream is therefore what the streams took, one after the other.
-/

namespace Fronting

open Function (update)

namespace Session

variable {env : ServerEnv} {now : Nat} {A A' : Session} {e : ActorEvent}

def closing (A : Session) : Prop := A.life = .dropping ∨ A.life = .dropped

theorem step_closing (h : A.step env now e = some A') (hc : A.closing) : A'.closing := by
  cases Own.of_step h with
  | start hlife | connect _ _ hlife | connectKilled _ _ hlife | connectError hlife
  | close hlife => rcases hc with hc | hc <;> simp [hc] at hlife
  | abort _ hlife => rcases hc with hc | hc <;> simp [hc] at hlife
  | write | fire | upstreamTake | upstreamSend | upstreamEof => exact hc

theorem step_consumed (h : A.step env now e = some A') :
    A'.upstream.consumed = A.upstream.consumed ∨
      A.life = .starting ∧ A'.upstream.consumed = [] := by
  cases Own.of_step h with
  | connect txCap rxCap hlife | connectKilled txCap rxCap hlife => exact .inr ⟨hlife, rfl⟩
  | _ => exact .inl rfl

structure Reading (A : Session) : Prop where
  produced : A.upstream.produced = A.upstream.consumed ++ A.upstream.rx
  fresh : A.life = .spawned ∨ A.life = .starting → A.opened = [] ∧ A.upstream.rx = []

theorem Reading.congr (h : Reading A) (hupstream : A'.upstream = A.upstream)
    (hopened : A'.opened = A.opened)
    (hlife : A'.life = .spawned ∨ A'.life = .starting → A.life = .spawned ∨ A.life = .starting) :
    Reading A' := by
  refine ⟨?_, fun hl => ?_⟩
  · rw [hupstream]
    exact h.produced
  · rw [hopened, hupstream]
    exact h.fresh (hlife hl)

theorem Reading.step (h : Reading A) (hstep : A.step env now e = some A') : Reading A' := by
  cases Own.of_step hstep with
  | start hlife => exact h.congr rfl rfl fun _ => .inl hlife
  | connect txCap rxCap | connectKilled txCap rxCap =>
      exact ⟨rfl, fun hl => by rcases hl with hl | hl <;> cases hl⟩
  | connectError | close | abort =>
      exact h.congr rfl rfl fun hl => by rcases hl with hl | hl <;> cases hl
  | write | upstreamTake | upstreamEof => exact ⟨h.produced, h.fresh⟩
  | fire => exact h.congr rfl rfl id
  | upstreamSend bytes hup =>
      refine ⟨by simp [Upstream.send, h.produced], fun hl => ?_⟩
      have hlife : A.life = .spawned ∨ A.life = .starting := hl
      rcases hlife with hl | hl <;> simp [hasUpstream, hl] at hup

theorem Reading.move (h : Reading A) (hmove : Move env A A') : Reading A' := by
  cases hmove with
  | own hstep => exact h.step hstep
  | grant rest r hm hlife => exact ⟨h.produced, fun hl => by simp [hlife] at hl⟩
  | writeErr w => exact h.congr rfl rfl fun hl => by simp [Session.writeErr] at hl
  | dropAborts => exact h.congr rfl rfl fun hl => by simp [Session.dropAborts] at hl
  | dropRemove => exact h.congr rfl rfl fun hl => by simp at hl
  | read n hlen =>
      refine ⟨?_, fun hl => ⟨(h.fresh hl).1, ?_⟩⟩
      · simp [Upstream.read, h.produced, List.append_assoc]
      · simp [Upstream.read, (h.fresh hl).2]
  | _ => exact h.congr rfl rfl id

theorem Reading.of_reachable {s : Server} {a : ActorRef} (h : (Server.machine env).Reachable s)
    (ha : s.actors a = some A) : Reading A :=
  Server.actor_invariant (fun _ => ⟨rfl, fun _ => ⟨rfl, rfl⟩⟩)
    (fun _ _ hA hmove => hA.move hmove) h ha

end Session

namespace Server

variable {env : ServerEnv} {s t : Server} {e : ServerEvent} {a : ActorRef} {A A' : Session}
  {r : ReqId} {st st' : ReadStream}

/-- What the stream of `r` has taken from upstream. -/
def takenOf (s : Server) (r : ReqId) : Bytes := (s.streams r).elim [] ReadStream.taken

structure Download (s : Server) : Prop where
  opened : ∀ {a A r}, s.actors a = some A → r ∈ A.opened →
    ∃ st, s.streams r = some st ∧ st.session = a
  listed : ∀ {r st A}, s.streams r = some st → s.actors st.session = some A → r ∈ A.opened
  nodup : ∀ {a A}, s.actors a = some A → A.opened.Nodup
  last : ∀ {a A r}, s.actors a = some A → A.reader = some r → A.opened.getLast? = some r
  lock : ∀ {r st A}, s.streams r = some st → s.actors st.session = some A → st.ended = false →
    st.dropped = false → A.reader = some r
  consumed : ∀ {a A}, s.actors a = some A → A.upstream.consumed = A.opened.flatMap s.takenOf
  /-- A stream ends between two reads, unless it is aborted. -/
  inHand : ∀ {r st}, s.streams r = some st → st.ended → st.aborted = false → st.inHand = []
  aborted : ∀ {r st A}, s.streams r = some st → s.actors st.session = some A → st.aborted →
    A.closing

theorem download_init : Download init := by
  constructor <;> intros <;> simp_all [init]

theorem Download.congr (h : Download s) (hactors : t.actors = s.actors)
    (hstreams : t.streams = s.streams) : Download t := by
  have htaken : t.takenOf = s.takenOf := by
    funext r
    rw [takenOf, takenOf, hstreams]
  constructor
  · rw [hactors, hstreams]
    exact h.opened
  · rw [hactors, hstreams]
    exact h.listed
  · rw [hactors]
    exact h.nodup
  · rw [hactors]
    exact h.last
  · rw [hactors, hstreams]
    exact h.lock
  · rw [hactors, htaken]
    exact h.consumed
  · rw [hstreams]
    exact h.inHand
  · rw [hactors, hstreams]
    exact h.aborted

/-- A change of an actor that its streams do not see. -/
theorem Download.setActor (h : Download s) (ha : s.actors a = some A)
    (hopened : A'.opened = A.opened) (hreader : A'.reader = A.reader)
    (hconsumed : A'.upstream.consumed = A.upstream.consumed) (hclosing : A.closing → A'.closing) :
    Download (s.setActor a A') := by
  have hother : ∀ {b B}, (s.setActor a A').actors b = some B →
      ∃ B₀, s.actors b = some B₀ ∧ B.opened = B₀.opened ∧ B.reader = B₀.reader ∧
        B.upstream.consumed = B₀.upstream.consumed ∧ (B₀.closing → B.closing) := by
    intro b B hB
    by_cases hb : b = a
    · subst hb
      obtain rfl : A' = B := by simpa using hB
      exact ⟨A, ha, hopened, hreader, hconsumed, hclosing⟩
    · exact ⟨B, by simpa [hb] using hB, rfl, rfl, rfl, id⟩
  constructor
  · intro b B r hB hr
    obtain ⟨B₀, hB₀, ho, _⟩ := hother hB
    exact h.opened hB₀ (ho ▸ hr)
  · intro r st B hst hB
    obtain ⟨B₀, hB₀, ho, _⟩ := hother hB
    exact ho ▸ h.listed hst hB₀
  · intro b B hB
    obtain ⟨B₀, hB₀, ho, _⟩ := hother hB
    exact ho ▸ h.nodup hB₀
  · intro b B r hB hr
    obtain ⟨B₀, hB₀, ho, hre, _⟩ := hother hB
    exact ho ▸ h.last hB₀ (hre ▸ hr)
  · intro r st B hst hB hended hdropped
    obtain ⟨B₀, hB₀, _, hre, _⟩ := hother hB
    exact hre ▸ h.lock hst hB₀ hended hdropped
  · intro b B hB
    obtain ⟨B₀, hB₀, ho, _, hc, _⟩ := hother hB
    rw [hc, ho]
    exact h.consumed hB₀
  · exact h.inHand
  · intro r st B hst hB hab
    obtain ⟨B₀, hB₀, _, _, _, hcl⟩ := hother hB
    exact hcl (h.aborted hst hB₀ hab)

theorem Download.newSession (h : Download s) (x : Uuid) (ha : s.actors a = none)
    (hstream : ∀ r st, s.streams r = some st → st.session ≠ a) :
    Download (s.newSession x a) := by
  have hother : ∀ {b B}, (s.newSession x a).actors b = some B →
      s.actors b = some B ∨ b = a ∧ B = .spawn x := by
    intro b B hB
    by_cases hb : b = a
    · subst hb
      exact .inr ⟨rfl, by simpa using hB.symm⟩
    · exact .inl (by simpa [hb] using hB)
  have hold : ∀ {r st B}, s.streams r = some st →
      (s.newSession x a).actors st.session = some B → s.actors st.session = some B := by
    intro r st B hst hB
    rcases hother hB with hB | ⟨hb, _⟩
    · exact hB
    · exact absurd hb (hstream r st hst)
  constructor
  · intro b B r hB hr
    rcases hother hB with hB | ⟨rfl, rfl⟩
    · exact h.opened hB hr
    · simp [Session.spawn] at hr
  · exact fun hst hB => h.listed hst (hold hst hB)
  · intro b B hB
    rcases hother hB with hB | ⟨rfl, rfl⟩
    · exact h.nodup hB
    · exact List.nodup_nil
  · intro b B r hB hr
    rcases hother hB with hB | ⟨rfl, rfl⟩
    · exact h.last hB hr
    · simp [Session.spawn] at hr
  · exact fun hst hB => h.lock hst (hold hst hB)
  · intro b B hB
    rcases hother hB with hB | ⟨rfl, rfl⟩
    · exact h.consumed hB
    · rfl
  · exact h.inHand
  · exact fun hst hB => h.aborted hst (hold hst hB)

/-- A stream and its session change together. -/
theorem Download.setStream (h : Download s) (hst : s.streams r = some st)
    (ha : s.actors st.session = some A) (hsession : st'.session = st.session)
    (hopened : A'.opened = A.opened) (extra : Bytes)
    (htaken : st'.taken = st.taken ++ extra)
    (hconsumed : A'.upstream.consumed = A.upstream.consumed ++ extra)
    (hextra : extra = [] ∨ A.reader = some r)
    (hreader : A'.reader = A.reader ∨ A'.reader = none ∧ A.reader = some r)
    (hlock : st'.ended = false → st'.dropped = false → A'.reader = some r)
    (hinHand : st'.ended → st'.aborted = false → st'.inHand = [])
    (haborted : st'.aborted → A'.closing) (hclosing : A.closing → A'.closing) :
    Download ((s.setStream r st').setActor st.session A') := by
  have hactor : ∀ {b B}, ((s.setStream r st').setActor st.session A').actors b = some B →
      b = st.session ∧ B = A' ∨ b ≠ st.session ∧ s.actors b = some B := by
    intro b B hB
    by_cases hb : b = st.session
    · subst hb
      exact .inl ⟨rfl, by simpa using hB.symm⟩
    · exact .inr ⟨hb, by simpa [hb] using hB⟩
  have hstream : ∀ {q u}, ((s.setStream r st').setActor st.session A').streams q = some u →
      q = r ∧ u = st' ∨ q ≠ r ∧ s.streams q = some u := by
    intro q u hu
    by_cases hq : q = r
    · subst hq
      exact .inl ⟨rfl, by simpa using hu.symm⟩
    · exact .inr ⟨hq, by simpa [hq] using hu⟩
  have hkeep : ∀ {q u}, s.streams q = some u →
      ∃ u', ((s.setStream r st').setActor st.session A').streams q = some u' ∧
        u'.session = u.session := by
    intro q u hu
    by_cases hq : q = r
    · subst hq
      exact ⟨st', by simp, by rw [hsession, Option.some.inj (hst.symm.trans hu)]⟩
    · exact ⟨u, by simpa [hq] using hu, rfl⟩
  have htakenOf : ∀ q, q ≠ r →
      ((s.setStream r st').setActor st.session A').takenOf q = s.takenOf q := by
    intro q hq
    simp [takenOf, hq]
  have htakenr : ((s.setStream r st').setActor st.session A').takenOf r =
      s.takenOf r ++ extra := by simp [takenOf, hst, htaken]
  constructor
  · intro b B q hB hq
    rcases hactor hB with ⟨rfl, rfl⟩ | ⟨_, hB⟩
    · obtain ⟨u, hu, hs⟩ := h.opened ha (hopened ▸ hq)
      obtain ⟨u', hu', hs'⟩ := hkeep hu
      exact ⟨u', hu', hs'.trans hs⟩
    · obtain ⟨u, hu, hs⟩ := h.opened hB hq
      obtain ⟨u', hu', hs'⟩ := hkeep hu
      exact ⟨u', hu', hs'.trans hs⟩
  · intro q u B hu hB
    rcases hstream hu with ⟨rfl, rfl⟩ | ⟨_, hu₀⟩
    · rcases hactor hB with ⟨_, rfl⟩ | ⟨hne, _⟩
      · exact hopened ▸ h.listed hst ha
      · exact absurd hsession hne
    · rcases hactor hB with ⟨hs, rfl⟩ | ⟨_, hB⟩
      · exact hopened ▸ h.listed hu₀ (hs ▸ ha)
      · exact h.listed hu₀ hB
  · intro b B hB
    rcases hactor hB with ⟨rfl, rfl⟩ | ⟨_, hB⟩
    · exact hopened ▸ h.nodup ha
    · exact h.nodup hB
  · intro b B q hB hq
    rcases hactor hB with ⟨rfl, rfl⟩ | ⟨_, hB⟩
    · rw [hopened]
      rcases hreader with he | ⟨he, _⟩
      · exact h.last ha (he ▸ hq)
      · simp [he] at hq
    · exact h.last hB hq
  · intro q u B hu hB hended hdropped
    rcases hstream hu with ⟨rfl, rfl⟩ | ⟨hq, hu₀⟩
    · rcases hactor hB with ⟨_, rfl⟩ | ⟨hne, _⟩
      · exact hlock hended hdropped
      · exact absurd hsession hne
    · rcases hactor hB with ⟨hs, rfl⟩ | ⟨_, hB⟩
      · have hold := h.lock hu₀ (hs ▸ ha) hended hdropped
        rcases hreader with he | ⟨_, he⟩
        · exact he.trans hold
        · exact absurd (Option.some.inj (hold.symm.trans he)) hq
      · exact h.lock hu₀ hB hended hdropped
  · intro b B hB
    rcases hactor hB with ⟨rfl, rfl⟩ | ⟨hb, hB⟩
    · rw [hconsumed, hopened, h.consumed ha]
      rcases hextra with rfl | hr
      · rw [List.append_nil]
        refine List.flatMap_congr fun q _ => ?_
        by_cases hq : q = r
        · rw [hq, htakenr, List.append_nil]
        · exact (htakenOf q hq).symm
      · -- the stream that reads is the last one opened
        obtain ⟨ini, hini⟩ := List.getLast?_eq_some_iff.mp (h.last ha hr)
        have hnodup := h.nodup ha
        rw [hini, List.nodup_append] at hnodup
        have hsame : ini.flatMap ((s.setStream r st').setActor st.session B).takenOf =
            ini.flatMap s.takenOf := by
          refine List.flatMap_congr fun q hq => htakenOf q ?_
          exact hnodup.2.2 q hq r (List.mem_singleton_self r)
        rw [hini, List.flatMap_append, List.flatMap_append, hsame]
        simp [htakenr]
    · rw [h.consumed hB]
      refine List.flatMap_congr fun q hq => ?_
      obtain ⟨u, hu, hs⟩ := h.opened hB hq
      have hqr : q ≠ r := by
        rintro rfl
        exact hb (by rw [← hs, Option.some.inj (hst.symm.trans hu)])
      exact (htakenOf q hqr).symm
  · intro q u hu
    rcases hstream hu with ⟨rfl, rfl⟩ | ⟨_, hu⟩
    · exact hinHand
    · exact h.inHand hu
  · intro q u B hu hB hab
    rcases hstream hu with ⟨rfl, rfl⟩ | ⟨_, hu₀⟩
    · rcases hactor hB with ⟨_, rfl⟩ | ⟨hne, _⟩
      · exact haborted hab
      · exact absurd hsession hne
    · rcases hactor hB with ⟨hs, rfl⟩ | ⟨_, hB⟩
      · exact hclosing (h.aborted hu₀ (hs ▸ ha) hab)
      · exact h.aborted hu₀ hB hab

/-- A stream alone changes. -/
theorem Download.updateStream (h : Download s) (hst : s.streams r = some st)
    (ha : s.actors st.session = some A) (hsession : st'.session = st.session)
    (htaken : st'.taken = st.taken)
    (hlock : st'.ended = false → st'.dropped = false → A.reader = some r)
    (hinHand : st'.ended → st'.aborted = false → st'.inHand = [])
    (haborted : st'.aborted → A.closing) : Download (s.setStream r st') := by
  have hboth := h.setStream hst ha hsession rfl [] (by rw [htaken, List.append_nil])
    (List.append_nil _).symm (.inl rfl) (.inl rfl) hlock hinHand haborted id
  refine hboth.congr ?_ rfl
  simp [← ha]

theorem Download.grant (h : Download s) (ha : s.actors a = some A) (hfree : A.reader = none)
    (hst : s.streams r = none) (hA' : A'.opened = A.opened ++ [r]) (hreader : A'.reader = some r)
    (hupstream : A'.upstream = A.upstream) (hclosing : A.closing → A'.closing) :
    Download ((s.setActor a A').setStream r (.start a)) := by
  have hactor : ∀ {b B}, ((s.setActor a A').setStream r (.start a)).actors b = some B →
      b = a ∧ B = A' ∨ b ≠ a ∧ s.actors b = some B := by
    intro b B hB
    by_cases hb : b = a
    · subst hb
      exact .inl ⟨rfl, by simpa using hB.symm⟩
    · exact .inr ⟨hb, by simpa [hb] using hB⟩
  have hstream : ∀ {q u}, ((s.setActor a A').setStream r (.start a)).streams q = some u →
      q = r ∧ u = .start a ∨ q ≠ r ∧ s.streams q = some u := by
    intro q u hu
    by_cases hq : q = r
    · subst hq
      exact .inl ⟨rfl, by simpa using hu.symm⟩
    · exact .inr ⟨hq, by simpa [hq] using hu⟩
  have hne : ∀ {q u}, s.streams q = some u → q ≠ r := by
    rintro q u hu rfl
    simp [hst] at hu
  have htakenOf : ∀ q, ((s.setActor a A').setStream r (.start a)).takenOf q = s.takenOf q := by
    intro q
    by_cases hq : q = r
    · subst hq
      simp [takenOf, hst, ReadStream.taken, ReadStream.start, ReadStream.inHand]
    · simp [takenOf, hq]
  have hnew : r ∉ A.opened := fun hr => by
    obtain ⟨u, hu, _⟩ := h.opened ha hr
    simp [hst] at hu
  have hold : ∀ {q u}, s.streams q = some u →
      ((s.setActor a A').setStream r (.start a)).streams q = some u := by
    intro q u hu
    simpa [hne hu] using hu
  constructor
  · intro b B q hB hq
    rcases hactor hB with ⟨rfl, rfl⟩ | ⟨_, hB⟩
    · rw [hA', List.mem_append, List.mem_singleton] at hq
      rcases hq with hq | rfl
      · obtain ⟨u, hu, hs⟩ := h.opened ha hq
        exact ⟨u, hold hu, hs⟩
      · exact ⟨.start b, by simp, rfl⟩
    · obtain ⟨u, hu, hs⟩ := h.opened hB hq
      exact ⟨u, hold hu, hs⟩
  · intro q u B hu hB
    rcases hstream hu with ⟨rfl, rfl⟩ | ⟨_, hu₀⟩
    · rcases hactor hB with ⟨_, rfl⟩ | ⟨hb, _⟩
      · simp [hA']
      · exact absurd rfl hb
    · rcases hactor hB with ⟨hs, rfl⟩ | ⟨_, hB⟩
      · simp [hA', h.listed hu₀ (hs ▸ ha)]
      · exact h.listed hu₀ hB
  · intro b B hB
    rcases hactor hB with ⟨rfl, rfl⟩ | ⟨_, hB⟩
    · rw [hA', List.nodup_append]
      refine ⟨h.nodup ha, by simp, fun q hq p hp hqp => ?_⟩
      rw [List.mem_singleton] at hp
      exact hnew (hp ▸ hqp ▸ hq)
    · exact h.nodup hB
  · intro b B q hB hq
    rcases hactor hB with ⟨rfl, rfl⟩ | ⟨_, hB⟩
    · obtain rfl : r = q := Option.some.inj (hreader.symm.trans hq)
      simp [hA']
    · exact h.last hB hq
  · intro q u B hu hB hended hdropped
    rcases hstream hu with ⟨rfl, rfl⟩ | ⟨_, hu₀⟩
    · rcases hactor hB with ⟨_, rfl⟩ | ⟨hb, _⟩
      · exact hreader
      · exact absurd rfl hb
    · rcases hactor hB with ⟨hs, rfl⟩ | ⟨_, hB⟩
      · have hheld := h.lock hu₀ (hs ▸ ha) hended hdropped
        simp [hfree] at hheld
      · exact h.lock hu₀ hB hended hdropped
  · intro b B hB
    have hsame : ∀ qs : List ReqId,
        qs.flatMap ((s.setActor a A').setStream r (.start a)).takenOf = qs.flatMap s.takenOf :=
      fun qs => List.flatMap_congr fun q _ => htakenOf q
    rw [hsame]
    rcases hactor hB with ⟨rfl, rfl⟩ | ⟨_, hB⟩
    · rw [hupstream, h.consumed ha, hA', List.flatMap_append]
      simp [takenOf, hst]
    · exact h.consumed hB
  · intro q u hu
    rcases hstream hu with ⟨rfl, rfl⟩ | ⟨_, hu₀⟩
    · intro hended
      simp [ReadStream.start] at hended
    · exact h.inHand hu₀
  · intro q u B hu hB hab
    rcases hstream hu with ⟨rfl, rfl⟩ | ⟨_, hu₀⟩
    · simp [ReadStream.start] at hab
    · rcases hactor hB with ⟨hs, rfl⟩ | ⟨_, hB⟩
      · exact hclosing (h.aborted hu₀ (hs ▸ ha) hab)
      · exact h.aborted hu₀ hB hab

theorem Download.dropAborts (h : Download s) (hcoherent : Coherent s) (ha : s.actors a = some A) :
    Download (s.dropAbortsStep a A) := by
  have hclosing : A.closing → A.dropAborts.closing := fun _ => .inl rfl
  have hactor : Download (s.setActor a A.dropAborts) := h.setActor ha rfl rfl rfl hclosing
  unfold dropAbortsStep
  dsimp only
  split
  · exact hactor
  · next r hr =>
    obtain ⟨st, hst, hsession⟩ := hcoherent.readAbort ha hr
    simp only [hst]
    have ha' : s.actors st.session = some A := by rw [hsession, ha]
    have hlock : st.ended = false → st.dropped = false → A.reader = some r := h.lock hst ha'
    refine hactor.updateStream (A := A.dropAborts) hst (by simp [hsession]) ?_ ?_ hlock ?_ ?_
    · rfl
    · rfl
    · exact fun _ hab => by simp at hab
    · exact fun _ => .inl rfl

theorem Download.step (h : Download s) (hcoherent : Coherent s) (hstep : Step env s e t)
    (hreading : ∀ a A, s.actors a = some A → A.Reading) : Download t := by
  have hrunning : ∀ {A : Session}, A.life = .running → A.closing → False := by
    rintro A hlife (hc | hc) <;> simp [hlife] at hc
  cases hstep with
  | @create r req fresh x hr hfresh | @replace r req fresh x d hr hfresh =>
      have hnew : ∀ q st, s.streams q = some st → st.session ≠ fresh := by
        rintro q st hst rfl
        obtain ⟨A, hA⟩ := hcoherent.actor_of_stream hst
        simp [hfresh] at hA
      exact (h.newSession x hfresh hnew).congr rfl rfl
  | @askWrite r R a A total data hr hR ha =>
      have hactor : Download (s.setActor a (A.acceptWrite r data)) :=
        h.setActor ha rfl rfl rfl id
      exact hactor.congr rfl rfl
  | @askRead r R a A hr hR ha =>
      have hactor : Download (s.setActor a (A.enqueue (.read r))) := h.setActor ha rfl rfl rfl id
      exact hactor.congr rfl rfl
  | actor A A' ha hA =>
      have hlocal := Session.step_local hA
      refine h.setActor ha hlocal.opened hlocal.reader ?_ (Session.step_closing hA)
      rcases Session.step_consumed hA with hc | ⟨hlife, hc⟩
      · exact hc
      · rw [hc, h.consumed ha, ((hreading _ A ha).fresh (.inr hlife)).1]
        rfl
  | @handleGranted a A rest r ha hm hlife hidle hfree =>
      have hmem : Message.read r ∈ A.asked := by simp [Session.asked_cons hm hidle]
      let A₂ : Session := { A with mailbox := rest, reader := some r, upstreamReadAbort := some r
                                   opened := A.opened ++ [r] }
      have hgrant : Download ((s.setActor a A₂).setStream r (.start a)) :=
        h.grant ha hfree (hcoherent.unread ha hmem) rfl rfl rfl id
      exact hgrant.congr (by simp [A₂]) (by simp)
  | handleRefused A rest r q ha hm hlife hidle =>
      have hactor : Download (s.setActor _ { A with mailbox := rest }) :=
        h.setActor ha rfl rfl rfl id
      exact hactor.congr (by simp) (by simp)
  | handleWrite A rest r bytes ha hm hlife hidle => exact h.setActor ha rfl rfl rfl id
  | handleReset A rest ha hm hlife hidle => exact h.setActor ha rfl rfl rfl id
  | writeOk A w ha hw hlife =>
      have hactor : Download (s.setActor _ (A.writeOk env w)) := h.setActor ha rfl rfl rfl id
      exact hactor.congr (by simp) (by simp)
  | writeErr A w ha hw hlife =>
      have hactor : Download (s.setActor _ (A.writeErr w)) :=
        h.setActor ha rfl rfl rfl fun hc => (hrunning hlife hc).elim
      exact hactor.congr (by simp) (by simp)
  | dropAborts A ha => exact h.dropAborts hcoherent ha
  | dropRemove A ha =>
      have hactor : Download (s.setActor _ { A with life := .dropped }) :=
        h.setActor ha rfl rfl rfl fun _ => .inr rfl
      exact hactor.congr rfl rfl
  | pollPending st R A hst hr ha hactive hresp hturn =>
      simp only [ReadStream.active, Bool.and_eq_true, Bool.not_eq_true'] at hactive
      obtain ⟨⟨hopen, hkept⟩, habort⟩ := hactive
      refine h.updateStream hst ha ?_ ?_ (fun _ _ => h.lock hst ha hopen hkept) ?_ ?_
      · rfl
      · cases hs : st.turn <;>
          simp [ReadStream.taken, ReadStream.inHand, hs, Turn.betweenReads] at hturn ⊢
      · exact fun hended => by simp [hopen] at hended
      · exact fun hab => by simp [habort] at hab
  | @pollEnd r res st R A hst hr ha hactive hresp hturn =>
      simp only [ReadStream.active, Bool.and_eq_true, Bool.not_eq_true'] at hactive
      obtain ⟨⟨hopen, hkept⟩, habort⟩ := hactive
      have hheld := h.lock hst ha hopen hkept
      refine h.setStream hst ha ?_ ?_ [] ?_ ?_ (.inl rfl) (.inr ⟨?_, hheld⟩) ?_ ?_ ?_ id
      · rfl
      · rfl
      · simp [ReadStream.taken, ReadStream.inHand]
      · exact (List.append_nil _).symm
      · simp [Session.release, hheld]
      · exact fun hended => by simp at hended
      · intro _ _
        cases hs : st.turn <;> simp [ReadStream.inHand, hs, Turn.betweenReads] at hturn ⊢
      · exact fun hab => by simp [habort] at hab
  | @pollData r n st R A hst hr ha hactive hresp hturn hpos hcap hlen =>
      simp only [ReadStream.active, Bool.and_eq_true, Bool.not_eq_true'] at hactive
      obtain ⟨⟨hopen, hkept⟩, habort⟩ := hactive
      have hheld := h.lock hst ha hopen hkept
      have hboth : Download ((s.setStream r { st with first := false
                                                      turn := .telling (A.upstream.rx.take n) }
          ).setActor st.session { A with upstream := A.upstream.read n }) := by
        refine h.setStream hst ha rfl rfl (A.upstream.rx.take n) ?_ rfl (.inr hheld) (.inl rfl)
          (fun _ _ => hheld) (fun hended => ?_) (fun hab => ?_) id
        · cases hs : st.turn <;>
            simp [ReadStream.taken, ReadStream.inHand, hs, Turn.betweenReads] at hturn ⊢
        · simp [hopen] at hended
        · simp [habort] at hab
      exact hboth.congr rfl rfl
  | @tellSent r st A bytes hst ha hturn hactive halive hroom =>
      simp only [ReadStream.active, Bool.and_eq_true, Bool.not_eq_true'] at hactive
      obtain ⟨⟨hopen, hkept⟩, habort⟩ := hactive
      have hheld := h.lock hst ha hopen hkept
      refine h.setStream hst ha ?_ ?_ [] ?_ ?_ (.inl rfl) (.inl ?_) (fun _ _ => hheld) ?_ ?_ id
      · rfl
      · rfl
      · simp [ReadStream.taken, ReadStream.inHand, hturn]
      · exact (List.append_nil _).symm
      · rfl
      · exact fun hended => by simp [hopen] at hended
      · exact fun hab => by simp [habort] at hab
  | tellSkipped st A bytes hst ha hturn hactive =>
      simp only [ReadStream.active, Bool.and_eq_true, Bool.not_eq_true'] at hactive
      obtain ⟨⟨hopen, hkept⟩, habort⟩ := hactive
      refine h.updateStream hst ha ?_ ?_ (fun _ _ => h.lock hst ha hopen hkept) ?_ ?_
      · rfl
      · simp [ReadStream.taken, ReadStream.inHand, hturn]
      · exact fun hended => by simp [hopen] at hended
      · exact fun hab => by simp [habort] at hab
  | pollAborted st hst habort hopen hkept =>
      obtain ⟨A, ha⟩ := hcoherent.actor_of_stream hst
      refine h.updateStream hst ha ?_ ?_ (fun hended => by simp at hended) ?_ ?_
      · rfl
      · rfl
      · exact fun _ hab => by simp [habort] at hab
      · exact fun hab => h.aborted hst ha hab
  | @dropStream r st A hst ha hkept =>
      have hrelease : (A.release r).reader = A.reader ∨
          (A.release r).reader = none ∧ A.reader = some r := by
        by_cases hr : A.reader = some r
        · exact .inr ⟨by simp [Session.release, hr], hr⟩
        · exact .inl (by simp [Session.release, hr])
      refine h.setStream hst ha ?_ ?_ [] ?_ ?_ (.inl rfl) hrelease ?_ ?_ ?_ id
      · rfl
      · rfl
      · simp [ReadStream.taken, ReadStream.inHand]
      · exact (List.append_nil _).symm
      · exact fun _ hdropped => by simp at hdropped
      · have hold : st.ended = true → st.aborted = false → st.inHand = [] := h.inHand hst
        exact hold
      · have hold : st.aborted = true → A.closing := h.aborted hst ha
        exact hold
  | _ => exact h.congr rfl rfl

theorem download_of_reachable (h : (machine env).Reachable s) : Download s :=
  h.invariant download_init fun _ _ _ hs hd hstep =>
    hd.step (coherent_of_reachable hs) (Step.of_step hstep) fun _ _ ha => .of_reachable hs ha

/-- The stream that `Drop` is to abort is the last one opened. -/
theorem getLast_of_readAbort (h : (machine env).Reachable s) (ha : s.actors a = some A)
    (hr : A.upstreamReadAbort = some r) : A.opened.getLast? = some r := by
  refine actor_invariant (I := fun A => ∀ r, A.upstreamReadAbort = some r →
    A.opened.getLast? = some r) ?_ ?_ h ha r hr
  · intro x r hr
    simp [Session.spawn] at hr
  · intro A A' hI hmove r hr
    cases hmove with
    | own hstep =>
        have hlocal := Session.step_local hstep
        rw [hlocal.opened]
        exact hI r (hlocal.readAbort ▸ hr)
    | grant rest q hm =>
        obtain rfl : q = r := Option.some.inj hr
        simp
    | dropAborts => simp [Session.dropAborts] at hr
    | _ => exact hI r hr

theorem aborted_setStream {q : ReqId} {u u' : ReadStream} (hq : s.streams q = some u)
    (hst : update s.streams q (some u') r = some st') (hab : st'.aborted = true)
    (habort : u'.aborted = u.aborted) (hsession : u'.session = u.session) :
    ∃ st, s.streams r = some st ∧ st.aborted = true ∧ st.session = st'.session := by
  by_cases hrq : r = q
  · subst hrq
    obtain rfl : u' = st' := by simpa using hst
    exact ⟨u, hq, habort ▸ hab, hsession.symm⟩
  · rw [Function.update_of_ne hrq] at hst
    exact ⟨st', hst, hab, rfl⟩

/-- A stream is aborted by the `Drop` of its session alone. -/
theorem Step.aborted (h : Step env s e t) (hst : t.streams r = some st')
    (hab : st'.aborted = true) :
    (∃ st, s.streams r = some st ∧ st.aborted = true ∧ st.session = st'.session) ∨
      ∃ a A u, e = .dropAborts a ∧ s.actors a = some A ∧ A.upstreamReadAbort = some r ∧
        s.streams r = some u ∧ st'.session = u.session := by
  cases h with
  | @handleGranted a A rest q ha hm =>
      rw [replyTo_streams, setStream_streams, setActor_streams] at hst
      by_cases hrq : r = q
      · subst hrq
        obtain rfl : .start a = st' := by simpa using hst
        simp [ReadStream.start] at hab
      · rw [Function.update_of_ne hrq] at hst
        exact .inl ⟨st', hst, hab, rfl⟩
  | handleRefused | writeOk | writeErr =>
      rw [replyTo_streams, setActor_streams] at hst
      exact .inl ⟨st', hst, hab, rfl⟩
  | @dropAborts a A ha =>
      unfold dropAbortsStep at hst
      dsimp only at hst
      split at hst
      · exact .inl ⟨st', hst, hab, rfl⟩
      · next q hq =>
        split at hst
        · exact .inl ⟨st', hst, hab, rfl⟩
        · next u hu =>
          rw [setStream_streams, setActor_streams] at hst
          by_cases hrq : r = q
          · subst hrq
            obtain rfl : { u with aborted := true } = st' := by simpa using hst
            exact .inr ⟨a, A, u, rfl, ha, hq, hu, rfl⟩
          · rw [Function.update_of_ne hrq] at hst
            exact .inl ⟨st', hst, hab, rfl⟩
  | pollPending u R A hu | pollData u R A hu | pollEnd u R A hu =>
      exact .inl (aborted_setStream hu hst hab rfl rfl)
  | tellSent u A bytes hu | tellSkipped u A bytes hu =>
      exact .inl (aborted_setStream hu hst hab rfl rfl)
  | pollAborted u hu | dropStream u A hu =>
      exact .inl (aborted_setStream hu hst hab rfl rfl)
  | _ => exact .inl ⟨st', hst, hab, rfl⟩

/-- A session that has aborted a stream has opened none after it. -/
theorem getLast_of_aborted (h : (machine env).Reachable s) (hst : s.streams r = some st)
    (ha : s.actors st.session = some A) (hab : st.aborted = true) :
    A.opened.getLast? = some r := by
  refine h.invariant (I := fun s => ∀ r st A, s.streams r = some st →
    s.actors st.session = some A → st.aborted = true → A.opened.getLast? = some r) ?_ ?_ r st A
    hst ha hab
  · intro r st A hst
    simp [machine, init] at hst
  · intro s e t hs hI hstep r st' A' hst' ha' hab
    have hcases := Step.of_step hstep
    have hcoherent := coherent_of_reachable hs
    -- the session of the stream is as old as the stream
    have hold : ∀ st, s.streams r = some st → st.session = st'.session →
        ∃ A, s.actors st.session = some A ∧ Session.Move env A A' := by
      intro st hst hsession
      obtain ⟨A, ha⟩ := hcoherent.actor_of_stream hst
      rcases hcases.move ha' with ⟨A₀, hA₀, hmove⟩ | ⟨x, _, hnew⟩
      · exact ⟨A₀, hsession ▸ hA₀, hmove⟩
      · exact absurd (hnew.fresh.symm.trans (hsession ▸ ha)) (Option.some_ne_none A).symm
    rcases hcases.aborted hst' hab with
      ⟨st, hst, hab₀, hsession⟩ | ⟨a, A, u, rfl, ha, hr, hu, hsession⟩
    · obtain ⟨A, ha, hmove⟩ := hold st hst hsession
      have hclosing : A.closing := (download_of_reachable hs).aborted hst ha hab₀
      rcases hmove.opened with hopened | ⟨q, halive, _⟩
      · rw [hopened]
        exact hI r st A hst ha hab₀
      · rcases hclosing with hl | hl <;> simp [Session.isAlive, hl, Life.mailboxOpen] at halive
    · obtain ⟨A₀, ha₀, hmove⟩ := hold u hu hsession.symm
      obtain ⟨u', hu', hua⟩ := hcoherent.readAbort ha hr
      obtain rfl : u = u' := Option.some.inj (hu.symm.trans hu')
      obtain rfl : A = A₀ := Option.some.inj (ha.symm.trans (hua ▸ ha₀))
      rcases hmove.opened with hopened | ⟨q, halive, _⟩
      · rw [hopened]
        exact getLast_of_readAbort hs ha hr
      · cases hcases with
        | dropAborts B hB hlife =>
            obtain rfl : A = B := Option.some.inj (ha.symm.trans hB)
            simp [Session.isAlive, hlife, Life.mailboxOpen] at halive

/-- All but the last stream that a session has opened have yielded what they took. -/
theorem framesOf_of_not_last (h : (machine env).Reachable s) (ha : s.actors a = some A)
    (hr : r ∈ A.opened) (hended : ∀ st, s.streams r = some st → st.ended = true)
    (hlast : A.opened.getLast? ≠ some r) : s.framesOf r = s.takenOf r := by
  have hdownload := download_of_reachable h
  obtain ⟨st, hst, rfl⟩ := hdownload.opened ha hr
  have hkept : st.aborted = false := by
    by_contra hab
    exact hlast (getLast_of_aborted h hst ha (by simpa using hab))
  have hempty : st.inHand = [] := hdownload.inHand hst (hended st hst) hkept
  simp [framesOf, takenOf, hst, ReadStream.taken, hempty]

/-- No response is dropped, and no session is, before its stream has ended. -/
def Undisturbed (s : Server) : ServerEvent → Prop
  | .dropStream r => ∀ st, s.streams r = some st → st.ended = true
  | .dropAborts a => ∀ A r st, s.actors a = some A → A.upstreamReadAbort = some r →
      s.streams r = some st → st.ended = true
  | _ => True

/-- What `Undisturbed` steps keep of the streams. -/
def Calm (s : Server) : Prop :=
  ∀ r st, s.streams r = some st →
    (st.ended = false → st.dropped = false ∧ st.aborted = false) ∧
      (st.ended = true → st.inHand = [])

theorem Calm.setStream (h : Calm s) (q : ReqId) (u : ReadStream)
    (hstreams : t.streams = update s.streams q (some u))
    (hopen : u.ended = false → u.dropped = false ∧ u.aborted = false)
    (hended : u.ended = true → u.inHand = []) : Calm t := by
  intro r st hst
  rw [hstreams] at hst
  by_cases hrq : r = q
  · subst hrq
    obtain rfl : u = st := by simpa using hst
    exact ⟨hopen, hended⟩
  · rw [Function.update_of_ne hrq] at hst
    exact h r st hst

theorem Calm.congr (h : Calm s) (hstreams : t.streams = s.streams) : Calm t := by
  intro r st hst
  exact h r st (hstreams ▸ hst)

theorem Calm.dropAborts (h : Calm s) (hcalm : Undisturbed s (.dropAborts a))
    (ha : s.actors a = some A) : Calm (s.dropAbortsStep a A) := by
  unfold dropAbortsStep
  dsimp only
  split
  · exact h
  · next q hq =>
    split
    · exact h
    · next u hu =>
      have hended : u.ended = true := hcalm A q u ha hq hu
      refine h.setStream q { u with aborted := true } rfl ?_ ?_
      · intro hopen
        exact absurd (hended.symm.trans hopen) Bool.false_ne_true.symm
      · exact fun _ => (h q u hu).2 hended

/-- The turn of an active stream goes on. -/
theorem Calm.turn (h : Calm s) (hactive : st.active = true) (r : ReqId) (u : ReadStream)
    (hstreams : t.streams = update s.streams r (some u)) (hended : u.ended = st.ended)
    (hdropped : u.dropped = st.dropped) (habort : u.aborted = st.aborted) : Calm t := by
  simp only [ReadStream.active, Bool.and_eq_true, Bool.not_eq_true'] at hactive
  obtain ⟨⟨hopen, hkept⟩, hlive⟩ := hactive
  refine h.setStream r u hstreams ?_ ?_
  · exact fun _ => ⟨hdropped.trans hkept, habort.trans hlive⟩
  · intro he
    exact absurd (hopen.symm.trans (hended.symm.trans he)) Bool.false_ne_true

theorem Calm.step (h : Calm s) (hcalm : Undisturbed s e) (hstep : Step env s e t) : Calm t := by
  cases hstep with
  | @handleGranted a A rest r ha hm =>
      refine h.setStream r (.start a) ?_ ?_ ?_
      · rw [replyTo_streams, setStream_streams, setActor_streams]
      · exact fun _ => ⟨rfl, rfl⟩
      · exact fun _ => rfl
  | handleRefused | writeOk | writeErr =>
      refine h.congr ?_
      rw [replyTo_streams, setActor_streams]
  | dropAborts A ha => exact h.dropAborts hcalm ha
  | @pollPending r u R A hu hr ha hactive =>
      exact h.turn hactive r { u with first := false, turn := .reading } rfl rfl rfl rfl
  | @pollData r n u R A hu hr ha hactive =>
      exact h.turn hactive r { u with first := false, turn := .telling (A.upstream.rx.take n) }
        rfl rfl rfl rfl
  | @tellSent r u A bytes hu ha hturn hactive =>
      exact h.turn hactive r { u with turn := .idle, frames := u.frames ++ [bytes] }
        rfl rfl rfl rfl
  | @tellSkipped r u A bytes hu ha hturn hactive =>
      exact h.turn hactive r { u with turn := .idle, frames := u.frames ++ [bytes] }
        rfl rfl rfl rfl
  | @pollEnd r res u R A hu hr ha hactive hresp hturn =>
      refine h.setStream r { u with ended := true } rfl ?_ ?_
      · intro hopen
        simp at hopen
      · intro _
        cases hs : u.turn <;> simp [ReadStream.inHand, hs, Turn.betweenReads] at hturn ⊢
  | pollAborted u hu habort hopen =>
      have hlive := ((h _ u hu).1 hopen).2
      simp [hlive] at habort
  | @dropStream r u A hu =>
      have hended : u.ended = true := hcalm u hu
      refine h.setStream r { u with dropped := true } rfl ?_ ?_
      · intro hopen
        simp [hended] at hopen
      · exact fun _ => (h r u hu).2 hended
  | _ => exact h.congr rfl

theorem calm_of_run {es : List ServerEvent} (h : (machine env).Run Undisturbed es s) : Calm s := by
  refine h.invariant ?_ ?_
  · intro r st hst
    simp [machine, init] at hst
  · exact fun s e t _ hcalm hc hstep => hcalm.step hc (Step.of_step hstep)

/-- What a session has consumed is what its streams have yielded one after the other, up to
the bytes that the last is about to yield. -/
def Yielded (s : Server) (A : Session) : Prop :=
  ∃ rest, A.upstream.consumed = A.opened.flatMap s.framesOf ++ rest ∧
    (rest ≠ [] → ∃ r st, A.opened.getLast? = some r ∧ s.streams r = some st ∧
      st.active = true ∧ st.turn = .telling rest)

/-- It is enough that no bytes are in the hand of a stream that is not polled any more. -/
theorem yielded_of_inHand (h : Download s) (ha : s.actors a = some A)
    (hhand : ∀ r st, s.streams r = some st → st.session = a → st.inHand ≠ [] →
      st.active = true) : s.Yielded A := by
  unfold Yielded
  rw [h.consumed ha]
  rcases List.eq_nil_or_concat' A.opened with hnil | ⟨earlier, r, hsplit⟩
  · exact ⟨[], by simp [hnil], fun hne => absurd rfl hne⟩
  · have hnodup := h.nodup ha
    have hmem : ∀ q, q ∈ earlier ∨ q = r → q ∈ A.opened := by
      intro q hq
      simpa [hsplit] using hq
    obtain ⟨st, hst, hsession⟩ := h.opened ha (hmem r (.inr rfl))
    have hsame : earlier.flatMap s.takenOf = earlier.flatMap s.framesOf := by
      refine List.flatMap_congr fun q hq => ?_
      obtain ⟨u, hu, hua⟩ := h.opened ha (hmem q (.inl hq))
      have hempty : u.inHand = [] := by
        by_contra hne
        have hactive := hhand q u hu hua hne
        simp only [ReadStream.active, Bool.and_eq_true, Bool.not_eq_true'] at hactive
        have hheld := h.lock hu (hua ▸ ha) hactive.1.1 hactive.1.2
        have hqr : r = q := by simpa [hsplit] using h.last ha hheld
        rw [hsplit, List.nodup_append] at hnodup
        exact hnodup.2.2 q hq r (List.mem_singleton_self r) hqr.symm
      simp [takenOf, framesOf, hu, ReadStream.taken, hempty]
    refine ⟨st.inHand, ?_, ?_⟩
    · rw [hsplit, List.flatMap_append, List.flatMap_append, hsame]
      simp [takenOf, framesOf, hst, ReadStream.taken]
    · intro hne
      refine ⟨r, st, by simp [hsplit], hst, hhand r st hst hsession hne, ?_⟩
      cases hturn : st.turn with
      | telling bytes => simp [ReadStream.inHand, hturn]
      | _ => simp [ReadStream.inHand, hturn] at hne

/-- Without an error or a kill, what a session has consumed is what its streams have
yielded one after the other, up to the bytes that the last is about to yield. -/
theorem yielded_of_run {es : List ServerEvent} (h : (machine env).Run Undisturbed es s)
    (ha : s.actors a = some A) :
    A.opened.Nodup ∧ ∃ rest, A.upstream.consumed = A.opened.flatMap s.framesOf ++ rest ∧
      (rest ≠ [] → ∃ r st, A.opened.getLast? = some r ∧ s.streams r = some st ∧
        st.active = true ∧ st.turn = .telling rest) := by
  have hdownload := download_of_reachable h.reachable
  have hcalm := calm_of_run h
  refine ⟨hdownload.nodup ha, yielded_of_inHand hdownload ha fun r st hst _ hne => ?_⟩
  have hopen : st.ended = false := by
    by_contra hended
    exact hne ((hcalm r st hst).2 (eq_true_of_ne_false hended))
  obtain ⟨hkept, hlive⟩ := (hcalm r st hst).1 hopen
  simp [ReadStream.active, hopen, hkept, hlive]

end Server
end Fronting
