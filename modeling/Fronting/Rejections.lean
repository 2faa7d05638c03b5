import Fronting.Uploads

/-!
# What a rejected request leaves behind

`handle_request_inner` looks its session up before it hands the request over, and creates one
for a `GET` or `POST` with an id that has no entry. What becomes of the request after that, an
empty body or a failed one included, does not touch the table any more.
-/

namespace Fronting

open Function (update update_self update_of_ne)

/-- The bytes of a request that the session has written to upstream. -/
def Session.writtenOf (A : Session) (r : ReqId) : Bytes :=
  ((A.finishedOf r).map fun f => f.bytes.take f.sent).flatten ++
    (A.handling.filter fun w => w.req = r).elim [] fun w => w.bytes.take w.offset

/-- The request whose `handle_request` takes the step. -/
def ServerEvent.caller : ServerEvent → Option ReqId
  | .request r _ _ | .cancel r | .body r _ | .ask r | .askFailed r | .reply r => some r
  | _ => none

namespace Server

variable {env : ServerEnv} {s t u : Server} {e : ServerEvent} {a fresh : ActorRef} {A A' : Session}
  {r : ReqId} {x : Uuid}

/-- The request is answered with another status than `OK` and `NO_CONTENT`, and none of its
bytes are at upstream. -/
def Rejected (s : Server) (r : ReqId) : Prop :=
  ∃ R resp, s.calls r = some R ∧ R.response = some resp ∧ resp.status ≠ .ok ∧
    resp.status ≠ .noContent ∧
    ∀ a A, R.session = some a → s.actors a = some A → A.writtenOf r = []

/-- No entry of the table has changed, no session has been created, and none has got as far
as its connection. -/
structure Untouched (s t : Server) : Prop where
  sessions : t.sessions = s.sessions
  lives : ∀ a, (t.actors a).map Session.life = (s.actors a).map Session.life

/-- The arrival of a `GET` or `POST` whose id has no entry. -/
def Creates (env : ServerEnv) (s : Server) (e : ServerEvent) (x : Uuid) (fresh : ActorRef) : Prop :=
  ∃ r req, e = .request r req fresh ∧ (req.method = .get ∨ req.method = .post) ∧
    req.sessionId env.http env.sessionKey = some x ∧ s.sessions x = none

/-- The arrival of a `GET` or `POST` that finds the entry of an ended session. -/
def MeetsEnded (env : ServerEnv) (s : Server) (e : ServerEvent) : Prop :=
  ∃ r req fresh x b, e = .request r req fresh ∧ (req.method = .get ∨ req.method = .post) ∧
    req.sessionId env.http env.sessionKey = some x ∧ s.sessions x = some b ∧ s.isAlive b = false

theorem untouched_setActor (ha : s.actors a = some A)
    (hactors : t.actors = update s.actors a (some A')) (hsessions : t.sessions = s.sessions)
    (hlife : A'.life = A.life) : Untouched s t := by
  refine ⟨hsessions, fun b => ?_⟩
  rw [hactors]
  by_cases hb : b = a
  · rw [hb, update_self, ha, Option.map_some, Option.map_some, hlife]
  · rw [update_of_ne hb]

/-- A step of a request that neither creates nor replaces a session leaves the table alone. -/
theorem Step.untouched (h : Step env s e t) (hcaller : e.caller = some r)
    (hcreates : ∀ x fresh, ¬ s.Creates env e x fresh) (hended : ¬ s.MeetsEnded env e) :
    Untouched s t := by
  cases h with
  | create x hr hfresh hx hmethod hvacant =>
      exact absurd ⟨_, _, rfl, hmethod, hx, hvacant⟩ (hcreates x _)
  | replace x b hr hfresh hx hmethod hb hdead =>
      exact absurd ⟨_, _, _, x, b, rfl, hmethod, hx, hb, hdead⟩ hended
  | askWrite R a A total data hr hR ha => exact untouched_setActor ha rfl rfl rfl
  | askRead R a A hr hR ha => exact untouched_setActor ha rfl rfl rfl
  | reject | join | cancel | body | askFailed | replyWrote | replyGranted | replyRefused =>
      exact ⟨rfl, fun _ => rfl⟩
  | _ => cases hcaller

/-- A request that creates a session enters that one session under its id. -/
theorem created_of_creates (hcreates : s.Creates env e x fresh)
    (hstep : step env s e = some t) : t.sessions = update s.sessions x (some fresh) ∧
      t.actors = update s.actors fresh (some (.spawn x)) := by
  obtain ⟨r, req, rfl, hmethod, hx, hvacant⟩ := hcreates
  simp only [step, Option.ite_none_right_eq_some, Option.some.injEq] at hstep
  obtain ⟨_, rfl⟩ := hstep
  have hcan : decide (req.method ≠ .patch) = true := by
    rcases hmethod with hm | hm <;> simp [hm]
  have hget : s.getOrCreate x (decide (req.method ≠ .patch)) fresh =
      .ok (s.newSession x fresh, fresh) := by
    simp [getOrCreate, hvacant, hcan]
  have hinner : s.handleRequestInner env r req fresh = s.dispatch r req x fresh := by
    unfold handleRequestInner
    rcases hmethod with hm | hm <;> simp [hm, hx]
  rw [hinner, dispatch, hget]
  exact ⟨rfl, rfl⟩

/-- Each step of a request that is rejected with none of its bytes written leaves the table and
the sessions alone, unless it is the arrival of a `GET` or `POST` whose id has no entry: that
enters one new session, whatever becomes of the request. -/
theorem rejected_untouched (hstep : step env s e = some t) (hcaller : e.caller = some r)
    (hended : ¬ s.MeetsEnded env e) :
    (∃ es u, (machine env).exec t es = some u ∧ u.Rejected r) →
      ((∀ x fresh, ¬ s.Creates env e x fresh) → Untouched s t) ∧
      ∀ x fresh, s.Creates env e x fresh → t.sessions = update s.sessions x (some fresh) ∧
        t.actors = update s.actors fresh (some (.spawn x)) := by
  -- No request does more to the table, whatever its answer is.
  intro _
  constructor
  · exact fun hcreates => (Step.of_step hstep).untouched hcaller hcreates hended
  · exact fun x fresh hcreates => created_of_creates hcreates hstep

/-- A `PATCH` for a session that the table does not have. -/
theorem patchUnknown_untouched :
    ∃ t, step sampleEnv init (.request 0 (sampleRequest .patch) 0) = some t ∧ t.Rejected 0 ∧
      Untouched init t := by
  obtain ⟨t, hrun, hcall⟩ := Machine.exists_run (M := machine sampleEnv)
    (P := fun t => (t.calls 0).map (fun R => (R.response, R.session)) =
      some (some ⟨.badRequest, []⟩, none)) [.request 0 (sampleRequest .patch) 0] (by decide)
  simp only [Option.map_eq_some_iff, Prod.mk.injEq] at hcall
  obtain ⟨R, hr, hresp, hR⟩ := hcall
  have hstep : step sampleEnv init (.request 0 (sampleRequest .patch) 0) = some t := by
    have hexec := hrun.exec_eq
    rwa [Machine.exec_singleton] at hexec
  have hrejected : t.Rejected 0 := by
    refine ⟨R, _, hr, hresp, by decide, by decide, fun a A ha => ?_⟩
    exact absurd (hR.symm.trans ha) (by simp)
  have hended : ¬ init.MeetsEnded sampleEnv (.request 0 (sampleRequest .patch) 0) := by
    rintro ⟨_, _, _, x, b, _, _, _, hb, _⟩
    cases hb
  refine ⟨t, hstep, hrejected, (rejected_untouched hstep rfl hended ⟨[], t, rfl, hrejected⟩).1 ?_⟩
  rintro x fresh ⟨r, req, he, hmethod, _⟩
  obtain ⟨_, rfl, _⟩ := ServerEvent.request.inj he
  rcases hmethod with hm | hm <;> cases hm

/-- A `POST` with an empty body is refused, and leaves a session with a connection to upstream
and an entry in the table, which was empty. -/
theorem emptyPost_not_untouched :
    ∃ t u, step sampleEnv init (.request 0 (sampleRequest .post) 0) = some t ∧
      (machine sampleEnv).exec t [.body 0 .finished, .actor 0 .start, .actor 0 (.connect 8 8)] =
        some u ∧ u.Rejected 0 ∧ ¬ Untouched init t ∧ u.sessions 0 = some 0 ∧
      (u.actors 0).map Session.life = some .running := by
  obtain ⟨u, hrun, hcall, hactor, hentry⟩ := Machine.exists_run (M := machine sampleEnv)
    (P := fun u => (u.calls 0).map (fun R => (R.response, R.session)) =
        some (some ⟨.badRequest, []⟩, some 0) ∧
      (u.actors 0).map (fun A => (A.life, A.writtenOf 0)) = some (.running, []) ∧
      u.sessions 0 = some 0)
    ([.request 0 (sampleRequest .post) 0] ++
      [.body 0 .finished, .actor 0 .start, .actor 0 (.connect 8 8)]) (by decide)
  simp only [Option.map_eq_some_iff, Prod.mk.injEq] at hcall hactor
  obtain ⟨R, hr, hresp, hR⟩ := hcall
  obtain ⟨A, hA, hlife, hwritten⟩ := hactor
  have hexec := hrun.exec_eq
  rw [Machine.exec_append, Machine.exec_singleton] at hexec
  obtain ⟨t, ht, hu⟩ := Option.bind_eq_some_iff.mp hexec
  refine ⟨t, u, ht, hu, ⟨R, _, hr, hresp, by decide, by decide, ?_⟩, ?_, hentry, ?_⟩
  · intro a A' ha hA'
    obtain rfl : 0 = a := Option.some.inj (hR.symm.trans ha)
    obtain rfl : A = A' := Option.some.inj (hA.symm.trans hA')
    exact hwritten
  · intro huntouched
    have hcreates : init.Creates sampleEnv (.request 0 (sampleRequest .post) 0) 0 0 :=
      ⟨0, _, rfl, .inr rfl, by decide, rfl⟩
    have hentry' := congrFun huntouched.sessions 0
    rw [(created_of_creates hcreates ht).1, update_self] at hentry'
    cases hentry'
  · rw [hA, Option.map_some, hlife]

end Server
end Fronting
