import Fronting.ActorStep

/-!
# The session table

`Drop` removes the entry of its session id without looking at whose entry it is.
The table therefore names every live session exactly as long as no session is
dropped after a live one has taken its place.
-/

namespace Fronting.Server

open Function (update)

variable {env : ServerEnv} {s t : Server} {e : ServerEvent} {a b : ActorRef} {A B : Session}

/-- Every live session is the one that the table has under its id. -/
def Mapped (s : Server) : Prop :=
  ∀ a A, s.actors a = some A → A.isAlive → s.sessions A.sessionId = some a

/-- The removal in `Drop` does not hit a live session. -/
def DropSpares (s : Server) : ServerEvent → Prop
  | .dropRemove a => ∀ A, s.actors a = some A → s.Absent A.sessionId
  | _ => True

theorem isAlive_of (ha : s.actors a = some A) (halive : A.isAlive) : s.isAlive a := by
  simpa [isAlive, ha] using halive

theorem Absent.not_mapped {x : Uuid} (h : s.Absent x) (hm : Mapped s) (ha : s.actors a = some A)
    (halive : A.isAlive) : A.sessionId ≠ x := by
  rintro rfl
  have hdead := h a (hm a A ha halive)
  simp [isAlive_of ha halive] at hdead

/-- A session that is live after a step was live before it, or is new. -/
theorem Step.live (h : Step env s e t) (hB : t.actors b = some B) (halive : B.isAlive) :
    (∃ B₀, s.actors b = some B₀ ∧ B₀.isAlive ∧ B₀.sessionId = B.sessionId) ∨
      Spawned env s e t b B.sessionId := by
  rcases h.move hB with ⟨B₀, hB₀, hmove⟩ | ⟨x, rfl, hnew⟩
  · exact .inl ⟨B₀, hB₀, hmove.alive halive, hmove.sessionId.symm⟩
  · exact .inr hnew

/-- How a step changes the table. -/
theorem Step.sessions_cases (h : Step env s e t) :
    t.sessions = s.sessions ∨
    (∃ x b, s.Absent x ∧ s.actors b = none ∧ t.sessions = update s.sessions x (some b)) ∨
    ∃ a A, e = .dropRemove a ∧ s.actors a = some A ∧ A.life = .dropping ∧
      t.sessions = update s.sessions A.sessionId none := by
  cases h with
  | create x hr hfresh hx hmethod hvacant =>
      exact .inr (.inl ⟨x, _, .of_vacant hvacant, hfresh, rfl⟩)
  | replace x d hr hfresh hx hmethod hd hdead =>
      exact .inr (.inl ⟨x, _, .of_dead hd hdead, hfresh, rfl⟩)
  | dropRemove A ha hlife => exact .inr (.inr ⟨_, A, rfl, ha, hlife, rfl⟩)
  | handleGranted | handleRefused | writeOk | writeErr => exact .inl (by simp)
  | dropAborts A ha hlife => exact .inl (by simp)
  | _ => exact .inl rfl

theorem mapped_init : Mapped init := by
  intro a A ha
  simp [init] at ha

theorem Mapped.step (hm : Mapped s) (hspare : DropSpares s e) (h : Step env s e t) :
    Mapped t := by
  intro b B hB halive
  rcases h.live hB halive with ⟨B₀, hB₀, halive₀, hid⟩ | hnew
  · have hold : s.sessions B.sessionId = some b := hid ▸ hm b B₀ hB₀ halive₀
    rcases h.sessions_cases with he | ⟨x, c, habsent, _, he⟩ | ⟨a, A, rfl, ha, _, he⟩
    · rw [he, hold]
    · have hne : B.sessionId ≠ x := hid ▸ habsent.not_mapped hm hB₀ halive₀
      rw [he, Function.update_of_ne hne, hold]
    · have hne : B.sessionId ≠ A.sessionId := hid ▸ (hspare A ha).not_mapped hm hB₀ halive₀
      rw [he, Function.update_of_ne hne, hold]
  · rw [hnew.sessions, Function.update_self]

/-- The removal of a live session's entry leaves that session without one. -/
theorem Coherent.not_mapped (hcoherent : Coherent s) (hspare : ¬ DropSpares s e)
    (h : Step env s e t) : ¬ Mapped t := by
  cases h with
  | @dropRemove a A ha hlife =>
      simp only [DropSpares, Absent, not_forall, Bool.not_eq_false] at hspare
      obtain ⟨A', ha', b, hb, halive⟩ := hspare
      obtain rfl : A = A' := Option.some.inj (ha.symm.trans ha')
      obtain ⟨B, hB, hid⟩ := hcoherent.table hb
      have haliveB : B.isAlive := by simpa [isAlive, hB] using halive
      have hne : b ≠ a := by
        rintro rfl
        obtain rfl : A = B := Option.some.inj (ha.symm.trans hB)
        simp [Session.isAlive, hlife, Life.mailboxOpen] at haliveB
      intro hm'
      have hB' : (s.dropRemoveStep a A).actors b = some B := by
        simpa [dropRemoveStep, hne] using hB
      have hentry := hm' b B hB' haliveB
      simp [dropRemoveStep, hid] at hentry
  | _ => exact absurd trivial hspare

/-- What the table is for: a session id has at most one live session, the table
has it, and a later `PATCH` is handed over to it. -/
structure LiveMapped (env : ServerEnv) (s : Server) : Prop where
  mapped : Mapped s
  unique : ∀ {a b A B}, s.actors a = some A → s.actors b = some B → A.isAlive → B.isAlive →
    A.sessionId = B.sessionId → a = b
  joined : ∀ {a A r req fresh}, s.actors a = some A → A.isAlive → s.calls r = none →
    s.actors fresh = none → req.method = .patch →
    req.sessionId env.http env.sessionKey = some A.sessionId →
    step env s (.request r req fresh) =
      some (s.setCall r ⟨some A.sessionId, .patch, some a, .nextChunk 0, []⟩)

theorem Mapped.liveMapped (hm : Mapped s) : LiveMapped env s := by
  refine ⟨hm, ?_, ?_⟩
  · intro a b A B ha hb halive halive' hid
    have hentry := hm a A ha halive
    rw [hid, hm b B hb halive'] at hentry
    exact (Option.some.inj hentry).symm
  · intro a A r req fresh ha halive hr hfresh hmethod hx
    have hentry := hm a A ha halive
    simp [Server.step, hr, hfresh, handleRequestInner, hmethod, hx, dispatch, getOrCreate, hentry,
      isAlive_of ha halive, startHandler]

/-- A run keeps every live session in the table if and only if no `Drop` in it
removes the entry of a live session. -/
theorem run_dropSpares_iff_liveMapped {es : List ServerEvent}
    (h : (machine env).Run (fun _ _ => True) es s) :
    (machine env).Run DropSpares es s ↔
      ∀ fs u, fs <+: es → (machine env).Run (fun _ _ => True) fs u → LiveMapped env u := by
  have hiff : (machine env).Run DropSpares es s ↔
      ∀ fs u, fs <+: es → (machine env).Run (fun _ _ => True) fs u → Mapped u := by
    refine Machine.run_iff_forall_prefix mapped_init ?_ ?_ h
    · exact fun s e t _ hm hspare hstep => hm.step hspare (Step.of_step hstep)
    · exact fun s e t hs _ hspare hstep =>
        (coherent_of_reachable hs).not_mapped hspare (Step.of_step hstep)
  rw [hiff]
  exact ⟨fun hm fs u hfs hu => (hm fs u hfs hu).liveMapped,
    fun hl fs u hfs hu => (hl fs u hfs hu).mapped⟩

/-- A `GET` opens a session, which ends by its total timeout. -/
def expire : List ServerEvent :=
  [.request 0 (sampleRequest .get) 0, .actor 0 .start, .actor 0 (.connect 8 8), .tick 60,
    .actor 0 (.fire 0), .actor 0 .abort]

/-- The session is dropped before the next `GET`. -/
def earlyDrop : List ServerEvent :=
  expire ++ [.dropAborts 0, .dropRemove 0, .request 1 (sampleRequest .get) 1]

/-- The next `GET` comes before the session is dropped, and puts a new one in its place. -/
def lateDrop : List ServerEvent :=
  expire ++ [.request 1 (sampleRequest .get) 1, .dropAborts 0, .dropRemove 0]

theorem earlyDrop_liveMapped :
    ∃ s, s.sessions 0 = some 1 ∧ ((machine sampleEnv).Run DropSpares earlyDrop s ↔
      ∀ fs u, fs <+: earlyDrop → (machine sampleEnv).Run (fun _ _ => True) fs u →
        LiveMapped sampleEnv u) := by
  obtain ⟨s, hrun, hs⟩ := Machine.exists_run (M := machine sampleEnv)
    (P := fun s => s.sessions 0 = some 1) earlyDrop (by decide)
  exact ⟨s, hs, run_dropSpares_iff_liveMapped hrun⟩

/-- The second session is live and has lost its entry to the drop of the first. -/
theorem lateDrop_not_liveMapped :
    ∃ s, (machine sampleEnv).Run (fun _ _ => True) lateDrop s ∧
      s.actors 1 = some (.spawn 0) ∧ s.sessions 0 = none ∧ ¬ LiveMapped sampleEnv s := by
  obtain ⟨s, hrun, hactor, hnone⟩ := Machine.exists_run (M := machine sampleEnv)
    (P := fun s => s.actors 1 = some (.spawn 0) ∧ s.sessions 0 = none) lateDrop (by decide)
  refine ⟨s, hrun, hactor, hnone, fun hl => ?_⟩
  have hentry : s.sessions 0 = some 1 := hl.mapped 1 (.spawn 0) hactor rfl
  exact absurd (hnone.symm.trans hentry) (Option.some_ne_none 1).symm

end Fronting.Server
