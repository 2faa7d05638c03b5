import Fronting.IdleTimeout

/-!
# The timers of a session

A timer task outlives its handle, so a session that lost a handle could not stop that timer
any more. `TimerLog` records what the actor does to its timers: `Timed` says that the two
handles it holds are always those of the timers that it has not aborted.
-/

namespace Fronting

open Function (update)

/-- What an actor has done with its timers. -/
structure TimerLog where
  /-- When `on_start` began. -/
  started : Option Nat
  /-- When `on_start` returned the session. -/
  built : Option Nat
  /-- When each `SessionResetIdleTimeout` was handled. -/
  resets : List Nat
  /-- The timers that it has called `abort` on. -/
  aborts : List Nat
deriving DecidableEq

namespace TimerLog

def empty : TimerLog := ⟨none, none, [], []⟩

def abort (L : TimerLog) (task : Option Nat) : TimerLog :=
  { L with aborts := L.aborts ++ task.toList }

/-- When the idle timer was last set: at the end of `on_start` or by a later reset. -/
def idleFrom (L : TimerLog) (built : Nat) : Nat := max built (L.resets.getLast?.getD built)

/-- When the idle timer of an actor that began at `x` was last set. -/
def idleSet (L : TimerLog) (x : Nat) : Nat := L.built.elim x L.idleFrom

/-- A step of the server that concerns the timers of the actor `a`. -/
def note (now : Nat) (a : ActorRef) (A : Session) (L : TimerLog) : ServerEvent → TimerLog
  | .actor b .start => if b = a then { L with started := some now } else L
  | .actor b (.connect _ _) =>
    if b = a then { L.abort A.idleTimeoutTask with built := some now } else L
  | .handle b =>
    if b = a ∧ A.mailbox.head? = some .resetIdleTimeout then
      { L.abort A.idleTimeoutTask with resets := L.resets ++ [now] }
    else L
  | .dropAborts b => if b = a then (L.abort A.totalTimeoutTask).abort A.idleTimeoutTask else L
  | _ => L

def next (s : Server) (e : ServerEvent) (H : ActorRef → TimerLog) : ActorRef → TimerLog :=
  fun a => (s.actors a).elim (H a) fun A => (H a).note s.now a A e

end TimerLog

namespace Session

variable {env : ServerEnv} {now : Nat} {A A' : Session} {L L' : TimerLog} {idle total : Nat}

def deadlines (A : Session) : List Nat := A.timers.map Timer.deadline

/-- The actor has begun `on_start`, and its session is not dropped. -/
def holding (A : Session) : Prop :=
  A.life = .starting ∨ A.life = .running ∨ A.life = .stopping ∨ A.life = .closed

/-- Of all the timers that were spawned, the session's two are those not aborted. -/
structure Standing (A : Session) (L : TimerLog) (idle total : Nat) : Prop where
  ne : idle ≠ total
  idleTask : A.idleTimeoutTask = some idle
  totalTask : A.totalTimeoutTask = some total
  only : ∀ k, k < A.timers.length ∧ k ∉ L.aborts ↔ k = idle ∨ k = total

/-- A timer that was aborted does not fire, and one that has fired has killed the actor. -/
def Explained (A : Session) (aborts : List Nat) : Prop :=
  ∀ (k : Nat) (timer : Timer), A.timers[k]? = some timer →
    match timer.status with
    | .armed => k ∉ aborts
    | .fired => A.killed = true
    | .aborted => k ∈ aborts

theorem Explained.abortTimer {aborts : List Nat} (h : A.Explained aborts) (task : Option Nat) :
    (A.abortTimer task).Explained (aborts ++ task.toList) := by
  cases task with
  | none =>
      rw [Option.toList_none, List.append_nil]
      exact h
  | some i =>
      intro k timer htimer
      simp only [Session.abortTimer, Option.elim_some, List.getElem?_modify, Option.map_eq_map,
        Option.map_eq_some_iff] at htimer
      obtain ⟨old, hold, rfl⟩ := htimer
      have hk := h k old hold
      by_cases hik : i = k
      · subst hik
        cases hstatus : old.status <;> simp_all [Timer.abort, Session.abortTimer]
      · have hki : k ≠ i := fun he => hik he.symm
        cases hstatus : old.status <;> simp_all [Session.abortTimer]

theorem Explained.actorTimeout {aborts : List Nat} (h : A.Explained aborts)
    (hlt : ∀ k ∈ aborts, k < A.timers.length) (deadline : Nat) :
    (A.actorTimeout deadline).1.Explained aborts := by
  intro k timer htimer
  simp only [Session.actorTimeout, List.getElem?_append] at htimer
  split at htimer
  next hk => exact h k timer htimer
  next hk =>
    rw [List.getElem?_singleton] at htimer
    split at htimer
    · obtain rfl : ⟨deadline, .armed⟩ = timer := Option.some.inj htimer
      exact fun hmem => hk (hlt k hmem)
    · cases htimer

theorem length_abortTimer (A : Session) (task : Option Nat) :
    (A.abortTimer task).timers.length = A.timers.length := by
  cases task <;> simp [Session.abortTimer]

theorem deadlines_abortTimer (A : Session) (task : Option Nat) :
    (A.abortTimer task).deadlines = A.deadlines := by
  cases task with
  | none => rfl
  | some i =>
      refine List.ext_getElem? fun k => ?_
      simp only [deadlines, Session.abortTimer, Option.elim_some, List.getElem?_map,
        List.getElem?_modify, Option.map_eq_map, Option.map_map]
      congr 1
      funext timer
      by_cases hik : i = k
      · simp only [hik, Function.comp_apply, if_true, Timer.abort]
        split <;> rfl
      · simp [hik]

/-- The idle timer gives way to a new one. -/
theorem Standing.reset (h : A.Standing L idle total) (hlt : ∀ k ∈ L.aborts, k < A.timers.length)
    (hL : L'.aborts = L.aborts ++ [idle]) :
    (A.resetIdleTimeout env now).Standing L' A.timers.length total := by
  have htotal : total < A.timers.length := ((h.only total).mpr (.inr rfl)).1
  have hlength : (A.resetIdleTimeout env now).timers.length = A.timers.length + 1 := by
    simp [resetIdleTimeout, actorTimeout, length_abortTimer]
  constructor
  · omega
  · simp [resetIdleTimeout, actorTimeout, length_abortTimer]
  · simp [resetIdleTimeout, actorTimeout, Session.abortTimer, h.totalTask]
  · intro k
    rw [hlength, hL, List.mem_append, List.mem_singleton, not_or]
    have hk := h.only k
    have hne := h.ne
    constructor
    · rintro ⟨hle, hmem, hidle⟩
      by_cases hlast : k = A.timers.length
      · exact .inl hlast
      · exact .inr ((hk.mp ⟨by omega, hmem⟩).resolve_left hidle)
    · rintro (rfl | rfl)
      · have hidle : idle < A.timers.length := ((h.only idle).mpr (.inl rfl)).1
        exact ⟨by omega, fun hmem => absurd (hlt _ hmem) (by omega), by omega⟩
      · exact ⟨by omega, ((h.only k).mpr (.inr rfl)).2, hne.symm⟩

theorem deadlines_reset (A : Session) :
    (A.resetIdleTimeout env now).deadlines = A.deadlines ++ [now + env.idleTimeout] := by
  change ((A.abortTimer A.idleTimeoutTask).timers ++ [_]).map Timer.deadline = _
  rw [List.map_append]
  exact congrArg (· ++ _) (deadlines_abortTimer A A.idleTimeoutTask)

/-- What the log says of the actor. -/
structure Timed (env : ServerEnv) (now : Nat) (A : Session) (L : TimerLog) : Prop where
  fresh : A.life = .spawned → A.timers = [] ∧ L.aborts = []
  unbuilt : A.hasUpstream = false → L.built = none ∧ L.resets = []
  built : A.hasUpstream = true → ∃ b, L.built = some b ∧ b ≤ now
  held : A.holding → ∃ idle total x, A.Standing L idle total ∧ L.started = some x ∧
    A.deadlines[total]? = some (x + env.totalTimeout) ∧
    A.deadlines[idle]? = some (L.idleSet x + env.idleTimeout)
  dropped : A.closing → ∀ k < A.timers.length, k ∈ L.aborts
  known : ∀ k ∈ L.aborts, k < A.timers.length
  explained : A.Explained L.aborts

/-- The steps that set, abort or fire the timers of an actor. -/
inductive TimerMove (env : ServerEnv) (now : Nat) (A : Session) (L : TimerLog) :
    Session → TimerLog → Prop
  | frame {A' : Session} (htimers : A'.timers = A.timers)
      (hidle : A'.idleTimeoutTask = A.idleTimeoutTask)
      (htotal : A'.totalTimeoutTask = A.totalTimeoutTask) (hkilled : A'.killed = A.killed)
      (hup : A'.hasUpstream = A.hasUpstream) (hfresh : A'.life = .spawned → A.life = .spawned)
      (hholding : A'.holding → A.holding) (hclosing : A'.closing → A.closing) :
      TimerMove env now A L A' L
  | start (hlife : A.life = .spawned) :
      TimerMove env now A L (A.onStart env now) { L with started := some now }
  | connect (u : Upstream) (hlife : A.life = .starting) (hspared : A.killed = false) :
      TimerMove env now A L (A.connected env now u)
        { L.abort A.idleTimeoutTask with built := some now }
  | connectKilled (u : Upstream) (hlife : A.life = .starting) :
      TimerMove env now A L ((A.connected env now u).closeMailbox .closed)
        { L.abort A.idleTimeoutTask with built := some now }
  | close (hlife : A.life = .running ∨ A.life = .stopping) :
      TimerMove env now A L (A.closeMailbox .closed) L
  | reset (rest : List Message) (hlife : A.life = .running) :
      TimerMove env now A L (resetIdleTimeout env now { A with mailbox := rest })
        { L.abort A.idleTimeoutTask with resets := L.resets ++ [now] }
  | fire (i : Nat) (timer : Timer) (htimer : A.timers[i]? = some timer) :
      TimerMove env now A L
        { A with timers := A.timers.modify i fun t => { t with status := .fired }
                 killed := true } L
  | dropAborts (hlife : A.life = .closed) :
      TimerMove env now A L A.dropAborts
        ((L.abort A.totalTimeoutTask).abort A.idleTimeoutTask)

theorem Timed.mono {later : Nat} (h : Timed env now A L) (hle : now ≤ later) :
    Timed env later A L := by
  refine ⟨h.fresh, h.unbuilt, fun hup => ?_, h.held, h.dropped, h.known, h.explained⟩
  obtain ⟨b, hb, hnow⟩ := h.built hup
  exact ⟨b, hb, hnow.trans hle⟩

theorem Standing.congr (h : A.Standing L idle total) (htimers : A'.timers = A.timers)
    (hidle : A'.idleTimeoutTask = A.idleTimeoutTask)
    (htotal : A'.totalTimeoutTask = A.totalTimeoutTask) : A'.Standing L idle total := by
  refine ⟨h.ne, hidle.trans h.idleTask, htotal.trans h.totalTask, ?_⟩
  rw [htimers]
  exact h.only

theorem Explained.congr {aborts : List Nat} (h : A.Explained aborts)
    (htimers : A'.timers = A.timers) (hkilled : A'.killed = A.killed) : A'.Explained aborts := by
  unfold Explained
  rw [htimers, hkilled]
  exact h

theorem Timed.frame (h : Timed env now A L) (htimers : A'.timers = A.timers)
    (hidle : A'.idleTimeoutTask = A.idleTimeoutTask)
    (htotal : A'.totalTimeoutTask = A.totalTimeoutTask) (hkilled : A'.killed = A.killed)
    (hup : A'.hasUpstream = A.hasUpstream) (hfresh : A'.life = .spawned → A.life = .spawned)
    (hholding : A'.holding → A.holding) (hclosing : A'.closing → A.closing) :
    Timed env now A' L := by
  have hdeadlines : A'.deadlines = A.deadlines := congrArg (List.map Timer.deadline) htimers
  constructor
  · rw [htimers]
    exact fun hl => h.fresh (hfresh hl)
  · rw [hup]
    exact h.unbuilt
  · rw [hup]
    exact h.built
  · intro hheld
    obtain ⟨idle, total, x, hstanding, hrest⟩ := h.held (hholding hheld)
    rw [hdeadlines]
    exact ⟨idle, total, x, hstanding.congr htimers hidle htotal, hrest⟩
  · rw [htimers]
    exact fun hc => h.dropped (hclosing hc)
  · rw [htimers]
    exact h.known
  · exact h.explained.congr htimers hkilled

theorem Timed.start (h : Timed env now A L) (hlife : A.life = .spawned) :
    Timed env now (A.onStart env now) { L with started := some now } := by
  obtain ⟨htimers, haborts⟩ := h.fresh hlife
  have hnone := h.unbuilt (by simp [hasUpstream, hlife])
  have honStart : (A.onStart env now).timers =
      [⟨now + env.totalTimeout, .armed⟩, ⟨now + env.idleTimeout, .armed⟩] := by
    simp [onStart, actorTimeout, htimers]
  constructor
  · intro hl
    cases hl
  · exact fun _ => hnone
  · intro hup
    cases hup
  · refine fun _ => ⟨1, 0, now, ⟨by simp, ?_, ?_, ?_⟩, rfl, ?_, ?_⟩
    · simp [onStart, actorTimeout, htimers]
    · simp [onStart, actorTimeout, htimers]
    · intro k
      simp only [honStart, List.length_cons, List.length_nil, haborts, List.not_mem_nil,
        not_false_eq_true, and_true]
      omega
    · simp [deadlines, honStart]
    · simp [deadlines, honStart, TimerLog.idleSet, hnone.1]
  · rintro (hc | hc) <;> cases hc
  · intro k hk
    simp [haborts] at hk
  · intro k timer htimer
    rw [honStart] at htimer
    have harmed : timer.status = .armed := by
      rcases List.mem_pair.mp (List.mem_of_getElem? htimer) with rfl | rfl <;> rfl
    simp [harmed, haborts]

/-- The idle timer is set anew, at the end of `on_start` or for a reset. -/
theorem Timed.setIdle (h : Timed env now A L) (A' : Session) (hheld : A.holding)
    (hlife : A'.life = .running)
    (htimers : A'.timers = A.timers) (hidle : A'.idleTimeoutTask = A.idleTimeoutTask)
    (htotal : A'.totalTimeoutTask = A.totalTimeoutTask) (hkilled : A'.killed = A.killed)
    (haborts : L'.aborts = L.aborts ++ A.idleTimeoutTask.toList) (hstarted : L'.started = L.started)
    {b : Nat} (hbuilt : L'.built = some b) (hb : b ≤ now) (hfrom : L'.idleFrom b = now) :
    Timed env now (A'.resetIdleTimeout env now) L' := by
  obtain ⟨idle, total, x, hstanding, hx, hdeadline, -⟩ := h.held hheld
  have hlt : ∀ k ∈ L.aborts, k < A'.timers.length := by
    rw [htimers]
    exact h.known
  have hidle_lt : idle < A'.timers.length := by
    rw [htimers]
    exact ((hstanding.only idle).mpr (.inl rfl)).1
  rw [hstanding.idleTask, Option.toList_some] at haborts
  have hlife' : (A'.resetIdleTimeout env now).life = .running := hlife
  have hdeadlines : (A'.resetIdleTimeout env now).deadlines =
      A.deadlines ++ [now + env.idleTimeout] :=
    (deadlines_reset A').trans (by rw [deadlines, htimers, deadlines])
  have hknown : ∀ k ∈ L'.aborts, k < A'.timers.length := by
    intro k hk
    rw [haborts, List.mem_append, List.mem_singleton] at hk
    rcases hk with hk | rfl
    · exact hlt k hk
    · exact hidle_lt
  constructor
  · intro hl
    exact absurd (hlife'.symm.trans hl) (by simp)
  · intro hup
    simp [hasUpstream, hlife'] at hup
  · exact fun _ => ⟨b, hbuilt, hb⟩
  · intro _
    refine ⟨A'.timers.length, total, x, (hstanding.congr htimers hidle htotal).reset hlt haborts,
      hstarted.trans hx, ?_, ?_⟩
    · rw [hdeadlines]
      exact List.getElem?_append_left (List.getElem?_eq_some_iff.mp hdeadline).1 ▸ hdeadline
    · rw [hdeadlines, TimerLog.idleSet, hbuilt, Option.elim_some, hfrom, htimers]
      simp [deadlines]
  · rintro (hc | hc)
    · exact absurd (hlife'.symm.trans hc) (by simp)
    · exact absurd (hlife'.symm.trans hc) (by simp)
  · intro k hk
    have hk' := hknown k hk
    simp only [resetIdleTimeout, actorTimeout, List.length_append, length_abortTimer]
    omega
  · have hold : A'.Explained L.aborts := h.explained.congr htimers hkilled
    have haborted : (A'.abortTimer A'.idleTimeoutTask).Explained L'.aborts := by
      have habort := hold.abortTimer A'.idleTimeoutTask
      rwa [hidle, hstanding.idleTask, Option.toList_some, ← haborts, ← hstanding.idleTask,
        ← hidle] at habort
    refine (haborted.actorTimeout ?_ (now + env.idleTimeout)).congr rfl rfl
    rw [length_abortTimer]
    exact hknown

theorem Timed.connect (h : Timed env now A L) (u : Upstream) (hlife : A.life = .starting) :
    Timed env now (A.connected env now u)
      { L.abort A.idleTimeoutTask with built := some now } := by
  have hnone := h.unbuilt (by simp [hasUpstream, hlife])
  refine h.setIdle { A with life := .running, upstream := u } (.inl hlife) rfl rfl rfl rfl rfl rfl
    rfl rfl le_rfl ?_
  simp [TimerLog.idleFrom, TimerLog.abort, hnone.2]

theorem Timed.reset (h : Timed env now A L) (rest : List Message) (hlife : A.life = .running) :
    Timed env now (resetIdleTimeout env now { A with mailbox := rest })
      { L.abort A.idleTimeoutTask with resets := L.resets ++ [now] } := by
  obtain ⟨b, hb, hle⟩ := h.built (by simp [hasUpstream, hlife])
  refine h.setIdle { A with mailbox := rest } (.inr (.inl hlife)) hlife rfl rfl rfl rfl rfl rfl hb
    hle ?_
  simp [TimerLog.idleFrom, hle]

theorem Timed.fire (h : Timed env now A L) {i : Nat} {timer : Timer}
    (htimer : A.timers[i]? = some timer) :
    Timed env now { A with timers := A.timers.modify i fun t => { t with status := .fired }
                           killed := true } L := by
  have hdeadlines : (A.timers.modify i fun t => { t with status := .fired }).map Timer.deadline =
      A.timers.map Timer.deadline := by
    refine List.ext_getElem? fun k => ?_
    by_cases hik : i = k <;> simp [hik, Function.comp_def]
  constructor
  · intro hl
    rw [(h.fresh hl).1] at htimer
    simp at htimer
  · exact h.unbuilt
  · exact h.built
  · intro hheld
    obtain ⟨idle, total, x, hstanding, hrest⟩ := h.held hheld
    refine ⟨idle, total, x, ⟨hstanding.ne, hstanding.idleTask, hstanding.totalTask, ?_⟩, ?_⟩
    · simpa using hstanding.only
    · simpa only [deadlines, hdeadlines] using hrest
  · intro hc k hk
    rw [List.length_modify] at hk
    exact h.dropped hc k hk
  · simpa using h.known
  · intro k timer' htimer'
    simp only [List.getElem?_modify, Option.map_eq_map, Option.map_eq_some_iff] at htimer'
    obtain ⟨old, hold, rfl⟩ := htimer'
    have hk := h.explained k old hold
    by_cases hik : i = k
    · simp [hik]
    · simp only [hik, if_false]
      cases hstatus : old.status <;> simp_all

theorem Timed.dropAborts (h : Timed env now A L) (hlife : A.life = .closed) :
    Timed env now A.dropAborts ((L.abort A.totalTimeoutTask).abort A.idleTimeoutTask) := by
  obtain ⟨idle, total, x, hstanding, -⟩ := h.held (.inr (.inr (.inr hlife)))
  have hlength : A.dropAborts.timers.length = A.timers.length :=
    (length_abortTimer (A.abortTimer A.totalTimeoutTask) A.idleTimeoutTask).trans
      (length_abortTimer A A.totalTimeoutTask)
  have hmem : ∀ k, k ∈ ((L.abort A.totalTimeoutTask).abort A.idleTimeoutTask).aborts ↔
      k ∈ L.aborts ∨ k = total ∨ k = idle := by
    intro k
    simp [TimerLog.abort, hstanding.idleTask, hstanding.totalTask]
  constructor
  · intro hl
    cases hl
  · intro hup
    cases hup
  · exact fun _ => h.built (by simp [hasUpstream, hlife])
  · rintro (hl | hl | hl | hl) <;> cases hl
  · intro _ k hk
    rw [hmem]
    by_cases hk' : k ∈ L.aborts
    · exact .inl hk'
    · exact .inr ((hstanding.only k).mp ⟨hlength ▸ hk, hk'⟩).symm
  · intro k hk
    rw [hlength]
    rcases (hmem k).mp hk with hk | rfl | rfl
    · exact h.known k hk
    · exact ((hstanding.only k).mpr (.inr rfl)).1
    · exact ((hstanding.only k).mpr (.inl rfl)).1
  · exact ((h.explained.abortTimer A.totalTimeoutTask).abortTimer A.idleTimeoutTask).congr rfl rfl

theorem Timed.close (h : Timed env now A L) (hlife : A.life = .running ∨ A.life = .stopping) :
    Timed env now (A.closeMailbox .closed) L := by
  refine h.frame rfl rfl rfl rfl ?_ ?_ ?_ ?_
  · rcases hlife with hl | hl <;> simp [hasUpstream, Session.closeMailbox, hl]
  · intro hl
    cases hl
  · exact fun _ => .inr (hlife.imp_right .inl)
  · rintro (hc | hc) <;> cases hc

theorem Timed.move (h : Timed env now A L) (hmove : TimerMove env now A L A' L') :
    Timed env now A' L' := by
  cases hmove with
  | frame htimers hidle htotal hkilled hup hfresh hholding hclosing =>
      exact h.frame htimers hidle htotal hkilled hup hfresh hholding hclosing
  | start hlife => exact h.start hlife
  | connect u hlife hspared => exact h.connect u hlife
  | connectKilled u hlife => exact (h.connect u hlife).close (.inl rfl)
  | close hlife => exact h.close hlife
  | reset rest hlife => exact h.reset rest hlife
  | fire i timer htimer => exact h.fire htimer
  | dropAborts hlife => exact h.dropAborts hlife

/-- What a session's timers are: until it is dropped its idle timer counts from the last
reset and its total timer from the start, and no other timer can fire. -/
structure TimerDiscipline (env : ServerEnv) (now : Nat) (A : Session) (L : TimerLog)
    (started built : Nat) : Prop where
  held : ¬ A.closing → ∃ idle total, A.Standing L idle total ∧
    A.deadlines[idle]? = some (L.idleFrom built + env.idleTimeout) ∧
    A.deadlines[total]? = some (started + env.totalTimeout)
  superseded : ∀ k A', A.step env now (.fire k) = some A' → k ∉ L.aborts
  due : ¬ A.closing → started + env.totalTimeout ≤ now → A.killed ∨ ∃ total A',
    A.totalTimeoutTask = some total ∧ A.step env now (.fire total) = some A' ∧ A'.killed
  killed : A.killed → A.life = .running ∨ A.life = .stopping →
    ∃ A', A.step env now .abort = some A' ∧ A'.life = .closed
  dropped : A.closing → (∀ k < A.timers.length, k ∈ L.aborts) ∧
    ∀ k, A.step env now (.fire k) = none

theorem Timed.superseded (h : Timed env now A L) {k : Nat}
    (hfire : A.step env now (.fire k) = some A') : k < A.timers.length ∧ k ∉ L.aborts := by
  cases Own.of_step hfire with
  | fire i timer htimer harmed =>
      have hk := h.explained k timer htimer
      rw [harmed] at hk
      exact ⟨(List.getElem?_eq_some_iff.mp htimer).1, hk⟩

/-- From its deadline on the total timer has killed the actor, or does it now. -/
theorem Timed.due (h : Timed env now A L) {started : Nat} (hheld : A.holding)
    (hstarted : L.started = some started) (hdue : started + env.totalTimeout ≤ now) :
    A.killed ∨ ∃ total A', A.totalTimeoutTask = some total ∧
      A.step env now (.fire total) = some A' ∧ A'.killed := by
  obtain ⟨idle, total, x, hstanding, hx, hdeadline, -⟩ := h.held hheld
  obtain rfl : x = started := Option.some.inj (hx.symm.trans hstarted)
  simp only [deadlines, List.getElem?_map, Option.map_eq_some_iff] at hdeadline
  obtain ⟨timer, htimer, hd⟩ := hdeadline
  have hk := h.explained total timer htimer
  cases hstatus : timer.status with
  | armed =>
      have hfire : Own env now A (.fire total) _ := .fire total timer htimer hstatus (hd ▸ hdue)
      exact .inr ⟨total, _, hstanding.totalTask, hfire.step_eq, rfl⟩
  | fired =>
      rw [hstatus] at hk
      exact .inl hk
  | aborted =>
      rw [hstatus] at hk
      exact absurd hk ((hstanding.only total).mpr (.inr rfl)).2

theorem Timed.discipline (h : Timed env now A L) {started built : Nat}
    (hstarted : L.started = some started) (hbuilt : L.built = some built) :
    TimerDiscipline env now A L started built := by
  have hup : A.hasUpstream = true := by
    by_contra hup
    exact absurd ((h.unbuilt (by simpa using hup)).1.symm.trans hbuilt) (by simp)
  have hholding : ¬ A.closing → A.holding := by
    intro hopen
    unfold holding
    unfold closing at hopen
    cases hlife : A.life <;> simp_all [hasUpstream]
  constructor
  · intro hopen
    obtain ⟨idle, total, x, hstanding, hx, htotal, hidle⟩ := h.held (hholding hopen)
    obtain rfl : x = started := Option.some.inj (hx.symm.trans hstarted)
    rw [TimerLog.idleSet, hbuilt, Option.elim_some] at hidle
    exact ⟨idle, total, hstanding, hidle, htotal⟩
  · exact fun k A' hfire => (h.superseded hfire).2
  · exact fun hopen hdue => h.due (hholding hopen) hstarted hdue
  · intro hkilled hlife
    exact ⟨_, (Own.abort hkilled hlife).step_eq, rfl⟩
  · refine fun hclosing => ⟨h.dropped hclosing, fun k => ?_⟩
    by_contra hfires
    obtain ⟨A', hfire⟩ := Option.ne_none_iff_exists'.mp hfires
    obtain ⟨hlt, hne⟩ := h.superseded hfire
    exact hne (h.dropped hclosing k hlt)

end Session

namespace Server

variable {env : ServerEnv} {s t : Server} {e : ServerEvent} {a b : ActorRef} {A A' B B' : Session}
  {L L' : TimerLog} {H : ActorRef → TimerLog}

/-- A step that leaves the timers of the actor it changes alone. -/
theorem timerMove_setActor (ha : s.actors a = some A) (hb : s.actors b = some B)
    (hB' : update s.actors a (some A') b = some B') (htimers : A'.timers = A.timers)
    (hidle : A'.idleTimeoutTask = A.idleTimeoutTask)
    (htotal : A'.totalTimeoutTask = A.totalTimeoutTask) (hkilled : A'.killed = A.killed)
    (hlife : A'.life = A.life) : Session.TimerMove env s.now B L B' L := by
  rcases cases_update ha hb hB' with ⟨_, rfl, rfl⟩ | ⟨_, rfl⟩
  · refine .frame htimers hidle htotal hkilled ?_ ?_ ?_ ?_
    · simp only [Session.hasUpstream, hlife]
    · exact fun hl => hlife.symm.trans hl
    · simp only [Session.holding, hlife, imp_self]
    · simp only [Session.closing, hlife, imp_self]
  · exact .frame rfl rfl rfl rfl rfl id id id

theorem timerMove_own {ev : ActorEvent} (h : B.step env s.now ev = some B') :
    Session.TimerMove env s.now B L B' (L.note s.now b B (.actor b ev)) := by
  cases Session.Own.of_step h with
  | start hlife =>
      simp only [TimerLog.note, if_true]
      exact .start hlife
  | connect txCap rxCap hlife hspared =>
      simp only [TimerLog.note, if_true]
      exact .connect _ hlife hspared
  | connectKilled txCap rxCap hlife =>
      simp only [TimerLog.note, if_true]
      exact .connectKilled _ hlife
  | fire i timer htimer => exact .fire i timer htimer
  | connectError hlife =>
      refine .frame rfl rfl rfl rfl ?_ ?_ ?_ ?_
      · simp [Session.hasUpstream, Session.closeMailbox, hlife]
      · intro hl
        cases hl
      · exact fun _ => .inl hlife
      · rintro (hc | hc) <;> cases hc
  | close hlife => exact .close (.inr hlife)
  | abort _ hlife => exact .close hlife
  | _ => exact .frame rfl rfl rfl rfl rfl id id id

theorem note_actor_of_ne {now : Nat} {ev : ActorEvent} (hne : b ≠ a) :
    L.note now b B (.actor a ev) = L := by
  cases ev <;> simp [TimerLog.note, hne.symm]

theorem note_handle_of_ne {now : Nat} {m : Message} {rest : List Message}
    (ha : s.actors a = some A) (hb : s.actors b = some B) (hm : A.mailbox = m :: rest)
    (hne : m ≠ .resetIdleTimeout) : L.note now b B (.handle a) = L := by
  refine if_neg ?_
  rintro ⟨rfl, hhead⟩
  obtain rfl : A = B := Option.some.inj (ha.symm.trans hb)
  rw [hm, List.head?_cons, Option.some.injEq] at hhead
  exact hne hhead

/-- Only the steps of `TimerMove` touch the timers of an actor, and the log has them. -/
theorem Step.timerMove (h : Step env s e t) (hb : s.actors b = some B)
    (hB' : t.actors b = some B') :
    Session.TimerMove env s.now B L B' (L.note s.now b B e) := by
  cases h with
  | create x hr hfresh | replace x d hr hfresh =>
      obtain rfl : B' = B := Option.some.inj (hB'.symm.trans (newSession_kept x hfresh hb))
      exact .frame rfl rfl rfl rfl rfl id id id
  | askWrite R a A total data hr hR ha | askRead R a A hr hR ha =>
      exact timerMove_setActor ha hb hB' rfl rfl rfl rfl rfl
  | @actor a ev A A' ha hA =>
      rcases cases_update ha hb hB' with ⟨rfl, rfl, rfl⟩ | ⟨hne, rfl⟩
      · exact timerMove_own hA
      · rw [note_actor_of_ne hne]
        exact .frame rfl rfl rfl rfl rfl id id id
  | handleGranted A rest r ha hm | handleRefused A rest r q ha hm =>
      rw [replyTo_actors] at hB'
      rw [note_handle_of_ne ha hb hm (by simp)]
      exact timerMove_setActor ha hb hB' rfl rfl rfl rfl rfl
  | handleWrite A rest r bytes ha hm =>
      rw [note_handle_of_ne ha hb hm (by simp)]
      exact timerMove_setActor ha hb hB' rfl rfl rfl rfl rfl
  | @handleReset a A rest ha hm hlife =>
      rcases cases_update ha hb hB' with ⟨rfl, rfl, rfl⟩ | ⟨hne, rfl⟩
      · simp only [TimerLog.note, hm, List.head?_cons, and_self, if_true]
        exact .reset rest hlife
      · simp only [TimerLog.note, hne.symm, false_and, if_false]
        exact .frame rfl rfl rfl rfl rfl id id id
  | writeOk A w ha =>
      rw [replyTo_actors] at hB'
      exact timerMove_setActor ha hb hB' rfl rfl rfl rfl rfl
  | writeErr A w ha hw hlife =>
      rw [replyTo_actors] at hB'
      rcases cases_update ha hb hB' with ⟨rfl, rfl, rfl⟩ | ⟨_, rfl⟩
      · refine .frame rfl rfl rfl rfl ?_ ?_ ?_ ?_
        · simp [Session.hasUpstream, Session.writeErr, hlife]
        · intro hl
          cases hl
        · exact fun _ => .inr (.inl hlife)
        · rintro (hc | hc) <;> cases hc
      · exact .frame rfl rfl rfl rfl rfl id id id
  | @dropAborts a A ha hlife =>
      rw [dropAbortsStep_actors] at hB'
      rcases cases_update ha hb hB' with ⟨rfl, rfl, rfl⟩ | ⟨hne, rfl⟩
      · simp only [TimerLog.note, if_true]
        exact .dropAborts hlife
      · simp only [TimerLog.note, hne.symm, if_false]
        exact .frame rfl rfl rfl rfl rfl id id id
  | dropRemove A ha hlife =>
      rcases cases_update ha hb hB' with ⟨rfl, rfl, rfl⟩ | ⟨_, rfl⟩
      · refine .frame rfl rfl rfl rfl ?_ ?_ ?_ ?_
        · simp [Session.hasUpstream, hlife]
        · intro hl
          cases hl
        · rintro (hl | hl | hl | hl) <;> cases hl
        · exact fun _ => .inl hlife
      · exact .frame rfl rfl rfl rfl rfl id id id
  | pollEnd u R A hu hr ha | pollData u R A hu hr ha | tellSent u A bytes hu ha
  | dropStream u A hu ha =>
      exact timerMove_setActor ha hb hB' rfl rfl rfl rfl rfl
  | _ =>
      obtain rfl : B' = B := Option.some.inj (hB'.symm.trans hb)
      exact .frame rfl rfl rfl rfl rfl id id id

/-- The server, with what its actors do to their timers on record. -/
def clocked (env : ServerEnv) : Machine (Server × (ActorRef → TimerLog)) ServerEvent :=
  (machine env).record (fun _ => .empty) TimerLog.next

theorem timed_spawn (now : Nat) (x : Uuid) : Session.Timed env now (.spawn x) .empty := by
  constructor
  · exact fun _ => ⟨rfl, rfl⟩
  · exact fun _ => ⟨rfl, rfl⟩
  · intro hup
    cases hup
  · rintro (hl | hl | hl | hl) <;> cases hl
  · rintro (hc | hc) <;> cases hc
  · intro k hk
    cases hk
  · intro k timer htimer
    simp [Session.spawn] at htimer

/-- Every actor is timed by its log, which is empty until the actor is spawned. -/
structure Clocked (env : ServerEnv) (s : Server) (H : ActorRef → TimerLog) : Prop where
  fresh : ∀ a, s.actors a = none → H a = .empty
  timed : ∀ a A, s.actors a = some A → Session.Timed env s.now A (H a)

variable {p : Server × (ActorRef → TimerLog)} {H : ActorRef → TimerLog}

theorem Clocked.step (h : Clocked env s H) (hstep : Server.step env s e = some t) :
    Clocked env t (TimerLog.next s e H) := by
  have hcases := Step.of_step hstep
  have hnone : ∀ a, s.actors a = none → TimerLog.next s e H a = .empty := by
    intro a ha
    rw [TimerLog.next, ha, Option.elim_none]
    exact h.fresh a ha
  constructor
  · intro a ha
    cases hold : s.actors a with
    | none => exact hnone a hold
    | some A =>
        obtain ⟨A', ha'⟩ := hcases.actor_kept hold
        exact absurd (ha.symm.trans ha') (by simp)
  · intro b B' hB'
    cases hold : s.actors b with
    | none =>
        rcases hcases.move hB' with ⟨B, hB, _⟩ | ⟨x, rfl, _⟩
        · exact absurd (hold.symm.trans hB) (by simp)
        · rw [hnone b hold]
          exact timed_spawn t.now x
    | some B =>
        have hlog : TimerLog.next s e H b = (H b).note s.now b B e := by
          rw [TimerLog.next, hold, Option.elim_some]
        rw [hlog]
        exact ((h.timed b B hold).move (hcases.timerMove hold hB')).mono hcases.now_le

theorem clocked_of_reachable (h : (clocked env).Reachable p) : Clocked env p.1 p.2 := by
  obtain ⟨es, hrun⟩ := h
  refine hrun.record_invariant (C := fun _ _ => True) (I := Clocked env) ?_ ?_
  · constructor
    · exact fun _ _ => rfl
    · intro a A ha
      cases ha
  · intro s e t H _ hclocked _ hstep
    exact hclocked.step hstep

/-- Whatever messages a session handles, it has one idle timer and one total timer that are
not aborted, with the deadlines that the last reset and its start give them, until it is
dropped with both aborted. -/
theorem timer_discipline {started built : Nat} (h : (clocked env).Reachable p)
    (ha : p.1.actors a = some A) (hstarted : (p.2 a).started = some started)
    (hbuilt : (p.2 a).built = some built) :
    Session.TimerDiscipline env p.1.now A (p.2 a) started built :=
  ((clocked_of_reachable h).timed a A ha).discipline hstarted hbuilt

/-- `on_start` lasts from 1 to 3, and the actor handles a reset at 10. -/
def resetOnce : List ServerEvent :=
  [.request 0 (sampleRequest .get) 0, .tick 1, .actor 0 .start, .tick 2, .actor 0 (.connect 8 8),
    .ask 0, .handle 0, .reply 0, .actor 0 (.upstreamSend [7]), .poll 0 (.data 1), .tell 0, .tick 7,
    .handle 0]

theorem resetOnce_discipline :
    ∃ p A, (clocked sampleEnv).Reachable p ∧ p.1.actors 0 = some A ∧
      p.2 0 = ⟨some 1, some 3, [10], [1, 2]⟩ ∧
      A.timers = [⟨61, .armed⟩, ⟨31, .aborted⟩, ⟨33, .aborted⟩, ⟨40, .armed⟩] ∧
      Session.TimerDiscipline sampleEnv p.1.now A (p.2 0) 1 3 := by
  obtain ⟨p, hrun, hactor, hlog⟩ := Machine.exists_run (M := clocked sampleEnv)
    (P := fun p => (p.1.actors 0).map Session.timers =
      some [⟨61, .armed⟩, ⟨31, .aborted⟩, ⟨33, .aborted⟩, ⟨40, .armed⟩] ∧
        p.2 0 = ⟨some 1, some 3, [10], [1, 2]⟩) resetOnce (by decide +kernel)
  obtain ⟨A, hA, htimers⟩ := Option.map_eq_some_iff.mp hactor
  exact ⟨p, A, hrun.reachable, hA, hlog, htimers,
    timer_discipline hrun.reachable hA (by rw [hlog]) (by rw [hlog])⟩

end Server
end Fronting
