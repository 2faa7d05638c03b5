import Fronting.Readers
import Fronting.SessionTable

/-!
# What an ended session leaves behind

`Drop for Session` takes the table entry away and aborts both timers. A session that fails
to connect to upstream was never built and is never dropped: its entry stays until a request
replaces it, and its timers until they fire. One that is killed while it connects is built
when it has connected, and dropped then.
-/

namespace Fronting

open Function (update)

namespace Session

variable {env : ServerEnv} {now : Nat} {A A' : Session} {e : ActorEvent} {j : Nat} {timer : Timer}

/-- A timer that is still armed is one of the two that the session has kept. -/
structure TimersKnown (A : Session) : Prop where
  fresh : A.life = .spawned → A.timers = []
  known : ∀ i timer, A.timers[i]? = some timer → timer.status = .armed →
    A.totalTimeoutTask = some i ∨ A.idleTimeoutTask = some i
  taken : A.closing → A.totalTimeoutTask = none ∧ A.idleTimeoutTask = none

theorem TimersKnown.frame (h : TimersKnown A) (htimers : A'.timers = A.timers)
    (htotal : A'.totalTimeoutTask = A.totalTimeoutTask)
    (hidle : A'.idleTimeoutTask = A.idleTimeoutTask)
    (hfresh : A'.life = .spawned → A.life = .spawned) (hclosing : A'.closing → A.closing) :
    TimersKnown A' := by
  constructor
  · rw [htimers]
    exact fun hl => h.fresh (hfresh hl)
  · rw [htimers, htotal, hidle]
    exact h.known
  · rw [htotal, hidle]
    exact fun hc => h.taken (hclosing hc)

/-- A timer that an abort leaves armed is another one. -/
theorem armed_of_abortTimer (task : Option Nat) (h : (A.abortTimer task).timers[j]? = some timer)
    (harmed : timer.status = .armed) : A.timers[j]? = some timer ∧ task ≠ some j := by
  cases task with
  | none => exact ⟨h, by simp⟩
  | some i =>
      simp only [abortTimer, Option.elim_some, List.getElem?_modify, Option.map_eq_map,
        Option.map_eq_some_iff] at h
      obtain ⟨old, hold, rfl⟩ := h
      by_cases hij : i = j
      · simp only [hij, if_true] at harmed
        unfold Timer.abort at harmed
        split at harmed
        · cases harmed
        · exact absurd harmed (by assumption)
      · simp only [hij, if_false] at harmed ⊢
        exact ⟨hold, by simpa using hij⟩

theorem TimersKnown.reset (h : TimersKnown A) (hlife : A.life = .running) :
    TimersKnown (A.resetIdleTimeout env now) := by
  constructor
  · intro hl
    exact absurd (hlife.symm.trans hl) (by simp)
  · intro i timer htimer harmed
    simp only [resetIdleTimeout, actorTimeout, List.getElem?_append] at htimer ⊢
    split at htimer
    next hlt =>
        obtain ⟨hold, hne⟩ := armed_of_abortTimer A.idleTimeoutTask htimer harmed
        exact .inl ((h.known i timer hold harmed).resolve_right hne)
    next hge =>
        have hlast : i = (A.abortTimer A.idleTimeoutTask).timers.length := by
          by_contra hne
          rw [List.getElem?_eq_none (by simp; omega)] at htimer
          cases htimer
        exact .inr (by rw [hlast])
  · rintro (hc | hc)
    · exact absurd (hlife.symm.trans hc) (by simp)
    · exact absurd (hlife.symm.trans hc) (by simp)

theorem TimersKnown.start (h : TimersKnown A) (hlife : A.life = .spawned) :
    TimersKnown (A.onStart env now) := by
  have hnone := h.fresh hlife
  constructor
  · intro hl
    cases hl
  · intro i timer htimer _
    simp only [onStart, actorTimeout, hnone, List.nil_append, List.length_nil,
      List.singleton_append, List.length_singleton] at htimer ⊢
    have hi : i < 2 := (List.getElem?_eq_some_iff.mp htimer).1
    by_cases hzero : i = 0
    · exact .inl (by rw [hzero])
    · have hone : i = 1 := by omega
      exact .inr (by rw [hone])
  · rintro (hc | hc) <;> cases hc

theorem TimersKnown.dropAborts (h : TimersKnown A) : TimersKnown A.dropAborts := by
  constructor
  · intro hl
    cases hl
  · intro i timer htimer harmed
    obtain ⟨htimer', hidle⟩ :=
      armed_of_abortTimer (A := A.abortTimer A.totalTimeoutTask) A.idleTimeoutTask htimer harmed
    obtain ⟨hold, htotal⟩ := armed_of_abortTimer A.totalTimeoutTask htimer' harmed
    rcases h.known i timer hold harmed with he | he
    · exact absurd he htotal
    · exact absurd he hidle
  · exact fun _ => ⟨rfl, rfl⟩

theorem TimersKnown.closeMailbox {life : Life} (h : TimersKnown A)
    (hlife : life = .closed ∨ life = .failed) : TimersKnown (A.closeMailbox life) := by
  refine h.frame rfl rfl rfl (fun hl => ?_) fun hc => ?_
  · have hl' : life = .spawned := hl
    rcases hlife with rfl | rfl <;> cases hl'
  · have hc' : life = .dropping ∨ life = .dropped := hc
    rcases hlife with rfl | rfl <;> simp at hc'

theorem TimersKnown.connected (h : TimersKnown A) (u : Upstream) :
    TimersKnown (A.connected env now u) := by
  have hrunning : TimersKnown { A with life := .running, upstream := u } :=
    h.frame rfl rfl rfl (fun hl => by cases hl) fun hc => by rcases hc with hc | hc <;> cases hc
  exact hrunning.reset rfl

theorem TimersKnown.step (h : TimersKnown A) (hstep : A.step env now e = some A') :
    TimersKnown A' := by
  cases Own.of_step hstep with
  | start hlife => exact h.start hlife
  | connect => exact h.connected _
  | connectKilled => exact (h.connected _).closeMailbox (.inl rfl)
  | connectError => exact h.closeMailbox (.inr rfl)
  | close | abort => exact h.closeMailbox (.inl rfl)
  | fire i timer htimer harmed =>
      constructor
      · intro hl
        rw [h.fresh hl] at htimer
        simp at htimer
      · intro j timer' htimer' harmed'
        simp only [List.getElem?_modify, Option.map_eq_map, Option.map_eq_some_iff] at htimer'
        obtain ⟨old, hold, rfl⟩ := htimer'
        by_cases hij : i = j
        · simp [hij] at harmed'
        · simp only [hij, if_false] at harmed' hold
          exact h.known j old hold harmed'
      · exact h.taken
  | _ => exact h.frame rfl rfl rfl id id

theorem TimersKnown.move (h : TimersKnown A) (hmove : Move env A A') : TimersKnown A' := by
  cases hmove with
  | own hstep => exact h.step hstep
  | takeReset now rest hm hlife =>
      have hrest : TimersKnown { A with mailbox := rest } := h.frame rfl rfl rfl id id
      exact hrest.reset hlife
  | writeErr w =>
      refine h.frame rfl rfl rfl (fun hl => ?_) fun hc => ?_
      · cases hl
      · rcases hc with hc | hc <;> cases hc
  | dropAborts => exact h.dropAborts
  | dropRemove hlife =>
      refine h.frame rfl rfl rfl (fun hl => ?_) fun _ => .inl hlife
      cases hl
  | _ => exact h.frame rfl rfl rfl id id

theorem timersKnown_of_reachable {s : Server} {a : ActorRef}
    (hs : (Server.machine env).Reachable s) (ha : s.actors a = some A) : TimersKnown A := by
  refine Server.actor_invariant (I := TimersKnown) ?_ (fun _ _ h hmove => h.move hmove) hs ha
  intro x
  constructor
  · exact fun _ => rfl
  · intro i timer htimer
    simp [spawn] at htimer
  · exact fun _ => ⟨rfl, rfl⟩

def armed (A : Session) : Prop := ∃ timer ∈ A.timers, timer.status = .armed

/-- The actor is gone, and its `Session` if it had one. -/
def ended (A : Session) : Prop := A.life = .failed ∨ A.life = .dropped

theorem not_armed_of_closing (h : TimersKnown A) (hclosing : A.closing) : ¬ A.armed := by
  rintro ⟨timer, hmem, harmed⟩
  obtain ⟨i, hi⟩ := List.getElem?_of_mem hmem
  obtain ⟨htotal, hidle⟩ := h.taken hclosing
  rcases h.known i timer hi harmed with he | he
  · exact absurd (htotal.symm.trans he) (by simp)
  · exact absurd (hidle.symm.trans he) (by simp)

/-- An actor that has ended arms no timer. -/
theorem armed_of_ended (hmove : Move env A A') (hended : A.ended) (harmed : A'.armed) :
    A.armed := by
  have hlife : ∀ {life : Life}, A.life = life → life ≠ .failed → life ≠ .dropped → False := by
    intro life hl hfailed hdropped
    rcases hended with he | he
    · exact hfailed (hl.symm.trans he)
    · exact hdropped (hl.symm.trans he)
  cases hmove with
  | own h =>
      cases Own.of_step h with
      | start hl | connect _ _ hl | connectKilled _ _ hl =>
          exact (hlife hl (by simp) (by simp)).elim
      | fire i timer htimer =>
          obtain ⟨timer', hmem, harmed⟩ := harmed
          obtain ⟨j, hj⟩ := List.getElem?_of_mem hmem
          simp only [List.getElem?_modify, Option.map_eq_map, Option.map_eq_some_iff] at hj
          obtain ⟨old, hold, rfl⟩ := hj
          refine ⟨old, List.mem_of_getElem? hold, ?_⟩
          by_cases hij : i = j
          · simp [hij] at harmed
          · simpa [hij] using harmed
      | _ => exact harmed
  | takeReset _ _ _ hl | dropAborts hl => exact (hlife hl (by simp) (by simp)).elim
  | _ => exact harmed

end Session

namespace Server

variable {env : ServerEnv} {s t : Server} {e : ServerEvent} {a : ActorRef} {A B : Session}

/-- No entry names the actor, and no timer of it is armed. -/
def Gone (s : Server) (a : ActorRef) (A : Session) : Prop :=
  (∀ x, s.sessions x ≠ some a) ∧ ¬ A.armed

/-- Ended sessions are out of the table and have no timers, so that the table has no more
entries than there are sessions that have not ended. -/
structure NothingLeft (s : Server) : Prop where
  gone : ∀ a A, s.actors a = some A → A.ended → Gone s a A
  bounded : ∀ xs : List Uuid, xs.Nodup → (∀ x ∈ xs, (s.sessions x).isSome) →
    ∃ as : List ActorRef, as.Nodup ∧ as.length = xs.length ∧
      ∀ a ∈ as, ∃ A, s.actors a = some A ∧ ¬ A.ended

/-- A session that fails to connect is out of the table already and has no timer left. -/
def BuiltOrGone (s : Server) : ServerEvent → Prop
  | .actor a .connectError => ∀ A, s.actors a = some A → A.life = .starting → Gone s a A
  | _ => True

/-- An entry that names an old actor was there before. -/
theorem Step.entry (h : Step env s e t) (ha : s.actors a = some A) {x : Uuid}
    (hx : t.sessions x = some a) : s.sessions x = some a := by
  rcases h.sessions_cases with he | ⟨y, b, _, hfresh, he⟩ | ⟨b, B, _, _, _, he⟩
  · rwa [he] at hx
  · rw [he] at hx
    by_cases hxy : x = y
    · rw [hxy, Function.update_self] at hx
      obtain rfl : b = a := Option.some.inj hx
      exact absurd (hfresh.symm.trans ha) (by simp)
    · rwa [Function.update_of_ne hxy] at hx
  · rw [he] at hx
    by_cases hxy : x = B.sessionId
    · rw [hxy, Function.update_self] at hx
      cases hx
    · rwa [Function.update_of_ne hxy] at hx

/-- `Drop` takes away every entry of its session. -/
theorem Step.dropRemove_entry (h : Step env s (.dropRemove a) t) (hcoherent : Coherent s)
    (x : Uuid) : t.sessions x ≠ some a := by
  intro hx
  cases h with
  | dropRemove A ha =>
      have hupdate : update s.sessions A.sessionId none x = some a := hx
      by_cases hxA : x = A.sessionId
      · rw [hxA, Function.update_self] at hupdate
        cases hupdate
      · rw [Function.update_of_ne hxA] at hupdate
        obtain ⟨A', ha', hid⟩ := hcoherent.table hupdate
        obtain rfl : A = A' := Option.some.inj (ha.symm.trans ha')
        exact hxA hid.symm

/-- An actor ends by itself in `on_start` only. -/
theorem failed_of_own {ev : ActorEvent} (h : A.step env s.now ev = some B) (hlife : ¬ A.ended)
    (hended : B.ended) : ev = .connectError ∧ A.life = .starting ∧ B.timers = A.timers := by
  cases Session.Own.of_step h with
  | connectError hl => exact ⟨rfl, hl, rfl⟩
  | start | connect | connectKilled | close | abort => rcases hended with he | he <;> cases he
  | _ => exact absurd hended hlife

/-- Ended sessions stay gone, and those that end are gone then. -/
theorem gone_step (hs : (machine env).Reachable s)
    (hgone : ∀ a A, s.actors a = some A → A.ended → Gone s a A) (hbuilt : BuiltOrGone s e)
    (hstep : Server.step env s e = some t) (hB : t.actors a = some B) (hended : B.ended) :
    Gone t a B := by
  have ht : (machine env).Reachable t := hs.step hstep
  have hcases := Step.of_step hstep
  rcases hcases.move hB with ⟨A, hA, hmove⟩ | ⟨x, rfl, _⟩
  · by_cases hA_ended : A.ended
    · obtain ⟨hentry, harmed⟩ := hgone a A hA hA_ended
      constructor
      · exact fun x hx => hentry x (hcases.entry hA hx)
      · exact fun hB_armed => harmed (Session.armed_of_ended hmove hA_ended hB_armed)
    · rcases hcases.life hA hB with hlife | hlife
      · unfold Session.ended at hended hA_ended
        rw [hlife] at hended
        exact absurd hended hA_ended
      · cases hlife with
        | own ev B' hown =>
            obtain ⟨rfl, hstarting, htimers⟩ := failed_of_own hown hA_ended hended
            have hgone' : Gone s a A := hbuilt A hA hstarting
            constructor
            · exact fun x hx => hgone'.1 x (hcases.entry hA hx)
            · unfold Session.armed
              rw [htimers]
              exact hgone'.2
        | writeErr | dropAborts => rcases hended with he | he <;> cases he
        | dropRemove =>
            constructor
            · exact hcases.dropRemove_entry (coherent_of_reachable hs)
            · exact Session.not_armed_of_closing (Session.timersKnown_of_reachable ht hB) (.inr rfl)
  · rcases hended with he | he <;> cases he

/-- The table names each actor under its own id, so ended actors out of the table bound its
size. -/
theorem bounded_of_gone (hcoherent : Coherent s)
    (hgone : ∀ a A, s.actors a = some A → A.ended → Gone s a A) (xs : List Uuid)
    (hnodup : xs.Nodup) (hentries : ∀ x ∈ xs, (s.sessions x).isSome) :
    ∃ as : List ActorRef, as.Nodup ∧ as.length = xs.length ∧
      ∀ a ∈ as, ∃ A, s.actors a = some A ∧ ¬ A.ended ∧ A.sessionId ∈ xs := by
  induction xs with
  | nil => exact ⟨[], List.nodup_nil, rfl, by simp⟩
  | cons x xs ih =>
      obtain ⟨hx, hnodup⟩ := List.nodup_cons.mp hnodup
      obtain ⟨as, has, hlength, hall⟩ :=
        ih hnodup fun y hy => hentries y (List.mem_cons_of_mem x hy)
      obtain ⟨a, ha⟩ := Option.isSome_iff_exists.mp (hentries x List.mem_cons_self)
      obtain ⟨A, hA, hid⟩ := hcoherent.table ha
      have hnew : a ∉ as := by
        intro hmem
        obtain ⟨A', hA', _, hxs⟩ := hall a hmem
        obtain rfl : A = A' := Option.some.inj (hA.symm.trans hA')
        exact hx (hid ▸ hxs)
      refine ⟨a :: as, List.nodup_cons.mpr ⟨hnew, has⟩, by simp [hlength], ?_⟩
      intro b hb
      rcases List.mem_cons.mp hb with rfl | hb
      · exact ⟨A, hA, fun hended => (hgone b A hA hended).1 x ha, by simp [hid]⟩
      · obtain ⟨B, hB, hlive, hxs⟩ := hall b hb
        exact ⟨B, hB, hlive, List.mem_cons_of_mem x hxs⟩

/-- A session that fails to connect leaves what it has. -/
theorem not_nothingLeft_of_failed (hA : s.actors a = some A) (hleft : ¬ Gone s a A)
    (hstep : Server.step env s (.actor a .connectError) = some t) : ¬ NothingLeft t := by
  intro hnothing
  cases Step.of_step hstep with
  | actor A' B hA' hB =>
      obtain rfl : A = A' := Option.some.inj (hA.symm.trans hA')
      cases Session.Own.of_step hB with
      | connectError =>
          have hgone := hnothing.gone a (A.closeMailbox .failed) (by simp) (.inl rfl)
          exact hleft hgone

theorem not_nothingLeft (hbuilt : ¬ BuiltOrGone s e) (hstep : Server.step env s e = some t) :
    ¬ NothingLeft t := by
  unfold BuiltOrGone at hbuilt
  split at hbuilt
  next a =>
    simp only [not_forall] at hbuilt
    obtain ⟨A, hA, _, hleft⟩ := hbuilt
    exact not_nothingLeft_of_failed hA hleft hstep
  next => exact absurd trivial hbuilt

/-- In all states of a run the ended sessions have no entry and no armed timer if and only
if no session of the run fails to connect while it still has one of them. -/
theorem run_builtOrGone_iff_nothingLeft {es : List ServerEvent}
    (h : (machine env).Run (fun _ _ => True) es s) :
    (machine env).Run BuiltOrGone es s ↔
      ∀ fs u, fs <+: es → (machine env).Run (fun _ _ => True) fs u → NothingLeft u := by
  refine Machine.run_iff_of_invariant
    (Q := fun s => ∀ a A, s.actors a = some A → A.ended → Gone s a A) ?_ ?_ ?_ ?_ h
  · intro a A ha
    simp [machine, init] at ha
  · intro s e t hs hgone hbuilt hstep a B hB hended
    exact gone_step hs hgone hbuilt hstep hB hended
  · intro s hs hgone
    refine ⟨hgone, fun xs hnodup hentries => ?_⟩
    obtain ⟨as, has, hlength, hall⟩ :=
      bounded_of_gone (coherent_of_reachable hs) hgone xs hnodup hentries
    refine ⟨as, has, hlength, fun a ha => ?_⟩
    obtain ⟨A, hA, hlive, _⟩ := hall a ha
    exact ⟨A, hA, hlive⟩
  · exact fun s e t _ _ hbuilt hstep => not_nothingLeft hbuilt hstep

/-- A session is opened, killed by its total timeout and dropped. -/
def timeOut : List ServerEvent :=
  [.request 0 (sampleRequest .get) 0, .actor 0 .start, .actor 0 (.connect 8 8), .tick 60,
    .actor 0 (.fire 0), .actor 0 .abort, .dropAborts 0, .dropRemove 0]

/-- Upstream cannot be reached. -/
def connectFails : List ServerEvent :=
  [.request 0 (sampleRequest .get) 0, .actor 0 .start, .actor 0 .connectError]

theorem timeOut_nothingLeft :
    ∃ s, (s.actors 0).map Session.life = some .dropped ∧
      ((machine sampleEnv).Run BuiltOrGone timeOut s ↔ ∀ fs u, fs <+: timeOut →
        (machine sampleEnv).Run (fun _ _ => True) fs u → NothingLeft u) := by
  obtain ⟨s, hrun, hlife⟩ := Machine.exists_run (M := machine sampleEnv)
    (P := fun s => (s.actors 0).map Session.life = some .dropped) timeOut (by decide)
  exact ⟨s, hlife, run_builtOrGone_iff_nothingLeft hrun⟩

/-- The entry and both timers outlive the actor. -/
theorem connectFails_leaves :
    ∃ s A, (machine sampleEnv).Run (fun _ _ => True) connectFails s ∧ s.actors 0 = some A ∧
      A.life = .failed ∧ s.sessions 0 = some 0 ∧ A.timers = [⟨60, .armed⟩, ⟨30, .armed⟩] ∧
      ¬ NothingLeft s := by
  obtain ⟨s, hrun, hactor, hentry⟩ := Machine.exists_run (M := machine sampleEnv)
    (P := fun s => (s.actors 0).map (fun A => (A.life, A.timers)) =
      some (.failed, [⟨60, .armed⟩, ⟨30, .armed⟩]) ∧ s.sessions 0 = some 0)
    connectFails (by decide)
  obtain ⟨A, hA, hvalues⟩ := Option.map_eq_some_iff.mp hactor
  obtain ⟨hlife, htimers⟩ := Prod.mk.inj hvalues
  exact ⟨s, A, hrun, hA, hlife, hentry, htimers,
    fun hnothing => (hnothing.gone 0 A hA (.inl hlife)).1 0 hentry⟩

end Server
end Fronting
