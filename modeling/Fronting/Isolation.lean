import Fronting.ActorStep

/-!
# Sessions do not see one another

Every step belongs to the id of its request, session or stream. A step of another
id leaves the part of the server that belongs to `x` as it is, and a step of `x`
needs only that part, so the steps of the other ids can be deleted from a run.
-/

namespace Fronting

open Function (update)

/-- The request carries `x`, or no id at all. -/
def Call.mine (x : Uuid) (R : Call) : Bool := R.sessionId.all fun y => y = x

def Session.mine (x : Uuid) (A : Session) : Bool := A.sessionId = x

section Filter

variable {α β : Type*} [DecidableEq α] {p : β → Bool} {f : α → Option β} {a : α} {v : β}

theorem filter_update_pos (hp : p v = true) :
    (fun b => (update f a (some v) b).filter p) = update (fun b => (f b).filter p) a (some v) := by
  funext b
  by_cases hb : b = a
  · subst hb
    rw [Function.update_self, Function.update_self, Option.filter_some_pos hp]
  · rw [Function.update_of_ne hb, Function.update_of_ne hb]

theorem filter_update_neg (hp : p v = false) (hf : (f a).filter p = none) :
    (fun b => (update f a (some v) b).filter p) = fun b => (f b).filter p := by
  funext b
  by_cases hb : b = a
  · subst hb
    rw [Function.update_self, Option.filter_some_neg hp, hf]
  · rw [Function.update_of_ne hb]

end Filter

namespace Server

variable {env : ServerEnv} {x : Uuid} {s s' t : Server} {e : ServerEvent} {a : ActorRef}
  {A A' : Session} {r : ReqId} {R R' : Call} {st st' : ReadStream}

/-- The id that a step belongs to. -/
def owner (env : ServerEnv) (s : Server) : ServerEvent → Option Uuid
  | .tick _ | .takeStats => none
  | .request _ req _ => req.sessionId env.http env.sessionKey
  | .cancel r | .body r _ | .ask r | .askFailed r | .reply r | .poll r _ | .tell r
  | .pollAborted r | .dropStream r => (s.calls r).bind Call.sessionId
  | .actor a _ | .handle a | .writeOk a | .writeErr a | .dropAborts a | .dropRemove a =>
    (s.actors a).map Session.sessionId

/-- The step belongs to `x` or to no id. -/
def keeps (env : ServerEnv) (x : Uuid) (s : Server) (e : ServerEvent) : Bool :=
  (s.owner env e).all fun y => y = x

/-- The counters are shared by all sessions. -/
def mute (s : Server) : Server := { s with stats := ⟨0, 0⟩, taken := [] }

/-- The table entry, sessions, requests and streams of `x`. -/
def part (x : Uuid) (s : Server) : Server where
  now := s.now
  stats := ⟨0, 0⟩
  sessions y := if y = x then s.sessions y else none
  actors a := (s.actors a).filter (Session.mine x)
  calls r := (s.calls r).filter (Call.mine x)
  streams r := (s.streams r).filter fun _ => (s.calls r).any (Call.mine x)
  taken := []

@[simp] theorem part_sessions : (part x s).sessions x = s.sessions x := if_pos rfl
@[simp] theorem part_actors : (part x s).actors a = (s.actors a).filter (Session.mine x) := rfl
@[simp] theorem part_calls : (part x s).calls r = (s.calls r).filter (Call.mine x) := rfl
@[simp] theorem part_streams :
    (part x s).streams r = (s.streams r).filter fun _ => (s.calls r).any (Call.mine x) := rfl

theorem part_setActor_own (hmine : A'.mine x) :
    part x (s.setActor a A') = (part x s).setActor a A' := by
  simp only [part, setActor, filter_update_pos hmine]

theorem part_setActor_foreign (ha : s.actors a = some A) (hforeign : A.mine x = false)
    (hid : A'.sessionId = A.sessionId) : part x (s.setActor a A') = part x s := by
  have hforeign' : A'.mine x = false := by rw [Session.mine, hid]; exact hforeign
  have hnone : (s.actors a).filter (Session.mine x) = none := by
    rw [ha, Option.filter_some_neg hforeign]
  simp only [part, setActor, filter_update_neg hforeign' hnone]

/-- Streams are kept by the request they answer, whose id does not change. -/
theorem any_mine_setCall (hr : s.calls r = some R) (hid : R'.sessionId = R.sessionId) (q : ReqId) :
    (update s.calls r (some R') q).any (Call.mine x) = (s.calls q).any (Call.mine x) := by
  by_cases hq : q = r
  · subst hq
    simp only [Function.update_self, hr, Option.any_some, Call.mine, hid]
  · rw [Function.update_of_ne hq]

theorem part_setCall_own (hr : s.calls r = some R) (hmine : R.mine x)
    (hid : R'.sessionId = R.sessionId) : part x (s.setCall r R') = (part x s).setCall r R' := by
  have hmine' : R'.mine x = true := by rw [Call.mine, hid]; exact hmine
  simp only [part, setCall, filter_update_pos hmine', any_mine_setCall hr hid]

theorem part_setCall_foreign (hr : s.calls r = some R) (hforeign : R.mine x = false)
    (hid : R'.sessionId = R.sessionId) : part x (s.setCall r R') = part x s := by
  have hforeign' : R'.mine x = false := by rw [Call.mine, hid]; exact hforeign
  have hnone : (s.calls r).filter (Call.mine x) = none := by
    rw [hr, Option.filter_some_neg hforeign]
  simp only [part, setCall, filter_update_neg hforeign' hnone, any_mine_setCall hr hid]

theorem streams_newCall (hst : s.streams r = none) (q : ReqId) :
    ((s.streams q).filter fun _ => (update s.calls r (some R) q).any (Call.mine x)) =
      (s.streams q).filter fun _ => (s.calls q).any (Call.mine x) := by
  by_cases hq : q = r
  · rw [hq, hst, Option.filter_none, Option.filter_none]
  · rw [Function.update_of_ne hq]

theorem part_newCall_own (hst : s.streams r = none) (hmine : R.mine x) :
    part x (s.setCall r R) = (part x s).setCall r R := by
  simp only [part, setCall, filter_update_pos hmine, streams_newCall hst]

theorem part_newCall_foreign (hr : s.calls r = none) (hst : s.streams r = none)
    (hforeign : R.mine x = false) : part x (s.setCall r R) = part x s := by
  have hnone : (s.calls r).filter (Call.mine x) = none := by rw [hr, Option.filter_none]
  simp only [part, setCall, filter_update_neg hforeign hnone, streams_newCall hst]

theorem part_setStream_own (hr : s.calls r = some R) (hmine : R.mine x) :
    part x (s.setStream r st) = (part x s).setStream r st := by
  have hstreams : (fun q => (update s.streams r (some st) q).filter
        fun _ => (s.calls q).any (Call.mine x)) =
      update (fun q => (s.streams q).filter fun _ => (s.calls q).any (Call.mine x)) r
        (some st) := by
    funext q
    by_cases hq : q = r
    · subst hq
      simp [Option.filter_some, hr, hmine]
    · simp only [Function.update_of_ne hq]
  simp only [part, setStream, hstreams]

theorem part_setStream_foreign (hr : s.calls r = some R) (hforeign : R.mine x = false) :
    part x (s.setStream r st) = part x s := by
  have hstreams : (fun q => (update s.streams r (some st) q).filter
        fun _ => (s.calls q).any (Call.mine x)) =
      fun q => (s.streams q).filter fun _ => (s.calls q).any (Call.mine x) := by
    funext q
    by_cases hq : q = r
    · subst hq
      cases hst : s.streams q <;> simp [Option.filter_some, hr, hforeign]
    · simp only [Function.update_of_ne hq]
  simp only [part, setStream, hstreams]

theorem part_newSession_own : part x (s.newSession x a) = (part x s).newSession x a := by
  have hmine : (Session.spawn x).mine x = true := decide_eq_true rfl
  have hsessions : (fun y => if y = x then update s.sessions x (some a) y else none) =
      update (fun y => if y = x then s.sessions y else none) x (some a) := by
    funext y
    by_cases hy : y = x <;> simp [hy]
  simp only [part, newSession, filter_update_pos hmine, hsessions]

theorem part_newSession_foreign {y : Uuid} (ha : s.actors a = none) (hy : y ≠ x) :
    part x (s.newSession y a) = part x s := by
  have hforeign : (Session.spawn y).mine x = false := decide_eq_false hy
  have hnone : (s.actors a).filter (Session.mine x) = none := by rw [ha, Option.filter_none]
  have hsessions : (fun z => if z = x then update s.sessions y (some a) z else none) =
      fun z => if z = x then s.sessions z else none := by
    funext z
    by_cases hz : z = x
    · simp [hz, hy.symm]
    · simp [hz]
  simp only [part, newSession, filter_update_neg hforeign hnone, hsessions]

theorem part_replyTo_own (hr : s.calls r = some R) (hmine : R.mine x) (b : Bool) :
    part x (s.replyTo r b) = (part x s).replyTo r b := by
  have hr' : (part x s).calls r = some R := by simp [part, hr, hmine]
  simp only [replyTo, hr, hr']
  exact part_setCall_own hr hmine rfl

theorem part_replyTo_foreign (hr : s.calls r = some R) (hforeign : R.mine x = false) (b : Bool) :
    part x (s.replyTo r b) = part x s := by
  simp only [replyTo, hr]
  exact part_setCall_foreign hr hforeign rfl

theorem mute_replyTo (b : Bool) : (s.replyTo r b).mute = s.mute.replyTo r b := by
  unfold replyTo
  cases hr : s.calls r <;> simp [mute, setCall, hr]

theorem mute_dropAbortsStep : (s.dropAbortsStep a A).mute = s.mute.dropAbortsStep a A := by
  unfold dropAbortsStep
  cases A.upstreamReadAbort with
  | none => rfl
  | some r => cases hst : s.streams r <;> simp [mute, setActor, setStream, hst]

theorem Coherent.mine_of_session (h : Coherent s) (hr : s.calls r = some R)
    (hR : R.session = some a) (ha : s.actors a = some A) : R.mine x = A.mine x := by
  obtain ⟨B, hB, hid⟩ := h.call hr hR
  obtain rfl : A = B := Option.some.inj (ha.symm.trans hB)
  simp [Call.mine, Session.mine, hid]

theorem Coherent.mine_of_asked (h : Coherent s) {m : Message} (ha : s.actors a = some A)
    (hm : m ∈ A.asked) (hreq : m.req = some r) :
    ∃ R, s.calls r = some R ∧ R.mine x = A.mine x := by
  obtain ⟨R, hr, hR, _⟩ := h.asked ha hm hreq
  exact ⟨R, hr, h.mine_of_session hr hR ha⟩

theorem Coherent.mine_of_stream (h : Coherent s) (hst : s.streams r = some st)
    (ha : s.actors st.session = some A) : ∃ R, s.calls r = some R ∧ R.mine x = A.mine x := by
  obtain ⟨R, hr, hR, _⟩ := h.stream hst
  exact ⟨R, hr, h.mine_of_session hr hR ha⟩

theorem part_dropAbortsStep_own (hcoherent : Coherent s) (ha : s.actors a = some A)
    (hmine : A.mine x) : part x (s.dropAbortsStep a A) = (part x s).dropAbortsStep a A := by
  have hactor : part x (s.setActor a A.dropAborts) = (part x s).setActor a A.dropAborts :=
    part_setActor_own hmine
  unfold dropAbortsStep
  cases habort : A.upstreamReadAbort with
  | none => exact hactor
  | some r =>
      obtain ⟨st, hst, rfl⟩ := hcoherent.readAbort ha habort
      obtain ⟨R, hr, hR⟩ := hcoherent.mine_of_stream (x := x) hst ha
      have hst' : (part x s).streams r = some st := by
        simp [part, hst, hr, hR, hmine]
      have hr' : (s.setActor st.session A.dropAborts).calls r = some R := hr
      simp only [hst, hst']
      rw [part_setStream_own hr' (hR.trans hmine), hactor]

theorem part_dropAbortsStep_foreign (hcoherent : Coherent s) (ha : s.actors a = some A)
    (hforeign : A.mine x = false) : part x (s.dropAbortsStep a A) = part x s := by
  have hactor : part x (s.setActor a A.dropAborts) = part x s :=
    part_setActor_foreign ha hforeign rfl
  unfold dropAbortsStep
  cases habort : A.upstreamReadAbort with
  | none => exact hactor
  | some r =>
      obtain ⟨st, hst, rfl⟩ := hcoherent.readAbort ha habort
      obtain ⟨R, hr, hR⟩ := hcoherent.mine_of_stream (x := x) hst ha
      have hr' : (s.setActor st.session A.dropAborts).calls r = some R := hr
      simp only [hst]
      rw [part_setStream_foreign hr' (hR.trans hforeign), hactor]

theorem part_dropRemoveStep_own (hmine : A.mine x) :
    part x (s.dropRemoveStep a A) = (part x s).dropRemoveStep a A := by
  have hid : A.sessionId = x := of_decide_eq_true hmine
  have hsessions : (fun y => if y = x then update s.sessions A.sessionId none y else none) =
      update (fun y => if y = x then s.sessions y else none) A.sessionId none := by
    funext y
    by_cases hy : y = x <;> simp [hy, hid]
  have hmine' : ({ A with life := .dropped } : Session).mine x = true := hmine
  simp only [part, dropRemoveStep, setActor, filter_update_pos hmine', hsessions]

theorem part_dropRemoveStep_foreign (ha : s.actors a = some A) (hforeign : A.mine x = false) :
    part x (s.dropRemoveStep a A) = part x s := by
  have hid : A.sessionId ≠ x := of_decide_eq_false hforeign
  have hsessions : (fun y => if y = x then update s.sessions A.sessionId none y else none) =
      fun y => if y = x then s.sessions y else none := by
    funext y
    by_cases hy : y = x
    · simp [hy, hid.symm]
    · simp [hy]
  have hforeign' : ({ A with life := .dropped } : Session).mine x = false := hforeign
  have hnone : (s.actors a).filter (Session.mine x) = none := by
    rw [ha, Option.filter_some_neg hforeign]
  simp only [part, dropRemoveStep, setActor, filter_update_neg hforeign' hnone, hsessions]

theorem streams_eq_none (h : Coherent s) (hr : s.calls r = none) : s.streams r = none := by
  by_contra hne
  obtain ⟨st, hst⟩ := Option.ne_none_iff_exists'.mp hne
  obtain ⟨R, hR, _⟩ := h.stream hst
  simp [hr] at hR

/-- A step of another id leaves the part of `x` alone. -/
theorem Step.part_foreign (h : Step env s e t) (hcoherent : Coherent s)
    (hkeeps : keeps env x s e = false) : part x t = part x s := by
  have hcall : ∀ {r R}, s.calls r = some R →
      ((s.calls r).bind Call.sessionId).all (fun y => y = x) = false → R.mine x = false := by
    intro r R hr hall
    simpa [hr, Call.mine] using hall
  have hactor : ∀ {a A}, s.actors a = some A →
      ((s.actors a).map Session.sessionId).all (fun y => y = x) = false → A.mine x = false := by
    intro a A ha hall
    simpa [ha, Session.mine] using hall
  cases h with
  | tick | takeStats => simp [keeps, owner] at hkeeps
  | @reject r req fresh y e hr hcode hy =>
      refine part_newCall_foreign hr (streams_eq_none hcoherent hr) ?_
      rw [Call.mine, hy]
      exact hkeeps
  | @join r req fresh y b hr hy =>
      refine part_newCall_foreign hr (streams_eq_none hcoherent hr) ?_
      simpa [keeps, owner, hy, Call.mine] using hkeeps
  | @create r req fresh y hr hfresh hy | @replace r req fresh y b hr hfresh hy =>
      have hne : y ≠ x := by simpa [keeps, owner, hy] using hkeeps
      have hnew : part x (s.newSession y fresh) = part x s := part_newSession_foreign hfresh hne
      have hst : s.streams r = none := streams_eq_none hcoherent hr
      refine Eq.trans (part_newCall_foreign hr (by exact hst) ?_) hnew
      simpa [Call.mine] using hne
  | cancel R hr | askFailed R a A e hr | replyGranted R hr | replyRefused R hr =>
      exact part_setCall_foreign hr (hcall hr hkeeps) rfl
  | @body r e R total hr =>
      refine part_setCall_foreign hr (hcall hr hkeeps) ?_
      cases e <;> rfl
  | askWrite R a A total data hr hR ha | askRead R a A hr hR ha =>
      have hforeign := hcall hr hkeeps
      have hforeign' : A.mine x = false := (hcoherent.mine_of_session hr hR ha).symm.trans hforeign
      exact Eq.trans (part_setCall_foreign hr hforeign rfl)
        (part_setActor_foreign ha hforeign' rfl)
  | @replyWrote r R total data hr =>
      have hsame : part x (s.setCall r { R with handler := .nextChunk (total + data.length) }) =
          part x s := part_setCall_foreign hr (hcall hr hkeeps) rfl
      exact hsame
  | actor A A' ha hA =>
      exact part_setActor_foreign ha (hactor ha hkeeps) (Session.step_local hA).sessionId
  | @handleGranted a A rest r ha hm hlife hidle =>
      have hforeign := hactor ha hkeeps
      have hmem : Message.read r ∈ A.asked := by simp [Session.asked_cons hm hidle]
      obtain ⟨R, hr, hR⟩ := hcoherent.mine_of_asked (x := x) ha hmem rfl
      rw [hforeign] at hR
      exact Eq.trans (part_replyTo_foreign (by exact hr) hR true)
        (Eq.trans (part_setStream_foreign (by exact hr) hR)
        (part_setActor_foreign ha hforeign rfl))
  | @handleRefused a A rest r q ha hm hlife hidle =>
      have hforeign := hactor ha hkeeps
      have hmem : Message.read r ∈ A.asked := by simp [Session.asked_cons hm hidle]
      obtain ⟨R, hr, hR⟩ := hcoherent.mine_of_asked (x := x) ha hmem rfl
      rw [hforeign] at hR
      exact Eq.trans (part_replyTo_foreign (by exact hr) hR false)
        (part_setActor_foreign ha hforeign rfl)
  | handleWrite A rest r bytes ha | handleReset A rest ha =>
      exact part_setActor_foreign ha (hactor ha hkeeps) rfl
  | writeOk A w ha hw | writeErr A w ha hw =>
      have hforeign := hactor ha hkeeps
      have hmem : Message.write w.req w.bytes ∈ A.asked := by simp [Session.asked_handling hw]
      obtain ⟨R, hr, hR⟩ := hcoherent.mine_of_asked (x := x) ha hmem rfl
      rw [hforeign] at hR
      exact Eq.trans (part_replyTo_foreign (by exact hr) hR true)
        (part_setActor_foreign ha hforeign rfl)
  | dropAborts A ha => exact part_dropAbortsStep_foreign hcoherent ha (hactor ha hkeeps)
  | dropRemove A ha => exact part_dropRemoveStep_foreign ha (hactor ha hkeeps)
  | pollPending st R A hst hr => exact part_setStream_foreign hr (hcall hr hkeeps)
  | pollEnd st R A hst hr ha =>
      have hforeign := hcall hr hkeeps
      obtain ⟨Q, hQ, hmine⟩ := hcoherent.mine_of_stream (x := x) hst ha
      obtain rfl : R = Q := Option.some.inj (hr.symm.trans hQ)
      exact Eq.trans (part_setActor_foreign ha (hmine ▸ hforeign) rfl)
        (part_setStream_foreign hr hforeign)
  | @pollData r n st R A hst hr ha =>
      have hforeign := hcall hr hkeeps
      obtain ⟨Q, hQ, hmine⟩ := hcoherent.mine_of_stream (x := x) hst ha
      obtain rfl : R = Q := Option.some.inj (hr.symm.trans hQ)
      have hsame : part x ((s.setStream r { st with first := false
                                                    turn := .telling (A.upstream.rx.take n) }
          ).setActor st.session { A with upstream := A.upstream.read n }) = part x s :=
        Eq.trans (part_setActor_foreign ha (hmine ▸ hforeign) rfl)
          (part_setStream_foreign hr hforeign)
      exact hsame
  | tellSent st A bytes hst ha =>
      obtain ⟨R, hr, hmine⟩ := hcoherent.mine_of_stream (x := x) hst ha
      have hforeign := hcall hr hkeeps
      exact Eq.trans (part_setActor_foreign ha (hmine ▸ hforeign) rfl)
        (part_setStream_foreign hr hforeign)
  | tellSkipped st A bytes hst ha =>
      obtain ⟨R, hr, _⟩ := hcoherent.mine_of_stream (x := x) hst ha
      exact part_setStream_foreign hr (hcall hr hkeeps)
  | pollAborted st hst =>
      obtain ⟨R, hr, _⟩ := hcoherent.stream hst
      exact part_setStream_foreign hr (hcall hr hkeeps)
  | dropStream st A hst ha =>
      obtain ⟨R, hr, hmine⟩ := hcoherent.mine_of_stream (x := x) hst ha
      have hforeign := hcall hr hkeeps
      exact Eq.trans (part_setActor_foreign ha (hmine ▸ hforeign) rfl)
        (part_setStream_foreign hr hforeign)

/-- What a server that has only the part of `x` finds there. -/
structure Owns (x : Uuid) (s s' : Server) : Prop where
  now : s'.now = s.now
  session : s'.sessions x = s.sessions x
  actor : ∀ {a A}, s.actors a = some A → A.mine x → s'.actors a = some A
  call : ∀ {r R}, s.calls r = some R → R.mine x → s'.calls r = some R
  stream : ∀ {r R st}, s.streams r = some st → s.calls r = some R → R.mine x →
    s'.streams r = some st
  noActor : ∀ {a}, s.actors a = none → s'.actors a = none
  noCall : ∀ {r}, s.calls r = none → s'.calls r = none

theorem owns_of_part (h : part x s = s'.mute) : Owns x s s' where
  now := (congrArg Server.now h).symm
  session := by
    have hsessions : s'.sessions x = (part x s).sessions x := by rw [h]; rfl
    simpa [part] using hsessions
  actor := by
    intro a A ha hmine
    have hactors : s'.actors a = (part x s).actors a := by rw [h]; rfl
    rw [hactors, part_actors, ha, Option.filter_some_pos hmine]
  call := by
    intro r R hr hmine
    have hcalls : s'.calls r = (part x s).calls r := by rw [h]; rfl
    rw [hcalls, part_calls, hr, Option.filter_some_pos hmine]
  stream := by
    intro r R st hst hr hmine
    have hstreams : s'.streams r = (part x s).streams r := by rw [h]; rfl
    simp [hstreams, part, hst, hr, hmine]
  noActor := by
    intro a ha
    have hactors : s'.actors a = (part x s).actors a := by rw [h]; rfl
    rw [hactors, part_actors, ha, Option.filter_none]
  noCall := by
    intro r hr
    have hcalls : s'.calls r = (part x s).calls r := by rw [h]; rfl
    rw [hcalls, part_calls, hr, Option.filter_none]

/-- A step of `x` that is not a new request is a step of its part. -/
theorem Step.part_own (h : Step env s e t) (hcoherent : Coherent s)
    (hreq : ∀ r req fresh, e ≠ .request r req fresh) (hkeeps : keeps env x s e)
    (hpart : part x s = s'.mute) : ∃ t', step env s' e = some t' ∧ part x t = t'.mute := by
  have hown := owns_of_part hpart
  have hcall : ∀ {r R}, s.calls r = some R →
      ((s.calls r).bind Call.sessionId).all (fun y => y = x) → R.mine x := by
    intro r R hr hall
    simpa [hr, Call.mine] using hall
  have hactor : ∀ {a A}, s.actors a = some A →
      ((s.actors a).map Session.sessionId).all (fun y => y = x) → A.mine x := by
    intro a A ha hall
    simpa [ha, Session.mine] using hall
  cases h with
  | tick d =>
      refine ⟨_, rfl, ?_⟩
      have htick : part x { s with now := s.now + d } =
          { part x s with now := (part x s).now + d } := rfl
      rw [htick, hpart]
      rfl
  | takeStats => exact ⟨_, rfl, hpart⟩
  | reject x e hr => exact absurd rfl (hreq _ _ _)
  | join x b hr => exact absurd rfl (hreq _ _ _)
  | create x hr | replace x b hr => exact absurd rfl (hreq _ _ _)
  | @cancel r R hr hbusy =>
      have hmine := hcall hr hkeeps
      refine ⟨_, (Step.cancel R (hown.call hr hmine) hbusy).step_eq hreq, ?_⟩
      refine Eq.trans (part_setCall_own hr hmine rfl) ?_
      rw [hpart]
      rfl
  | @body r e R total hr hh =>
      have hmine := hcall hr hkeeps
      refine ⟨_, (Step.body R total (hown.call hr hmine) hh).step_eq hreq, ?_⟩
      have hid : (bodyStep R total e).sessionId = R.sessionId := by cases e <;> rfl
      rw [part_setCall_own hr hmine hid, hpart]
      rfl
  | @askWrite r R a A total data hr hR ha hh halive hroom =>
      have hmine := hcall hr hkeeps
      have hmineA : A.mine x = true := (hcoherent.mine_of_session hr hR ha).symm.trans hmine
      refine ⟨_, (Step.askWrite R a A total data (hown.call hr hmine) hR (hown.actor ha hmineA) hh
        halive hroom).step_eq hreq, ?_⟩
      have hactor' : part x (s.setActor a (A.acceptWrite r data)) =
          (part x s).setActor a (A.acceptWrite r data) := part_setActor_own hmineA
      refine Eq.trans (part_setCall_own (by exact hr) hmine rfl) ?_
      rw [hactor', hpart]
      rfl
  | @askRead r R a A hr hR ha hh halive hroom =>
      have hmine := hcall hr hkeeps
      have hmineA : A.mine x = true := (hcoherent.mine_of_session hr hR ha).symm.trans hmine
      refine ⟨_, (Step.askRead R a A (hown.call hr hmine) hR (hown.actor ha hmineA) hh
        halive hroom).step_eq hreq, ?_⟩
      have hactor' : part x (s.setActor a (A.enqueue (.read r))) =
          (part x s).setActor a (A.enqueue (.read r)) := part_setActor_own hmineA
      refine Eq.trans (part_setCall_own (by exact hr) hmine rfl) ?_
      rw [hactor', hpart]
      rfl
  | @askFailed r R a A e hr hR ha he hdead =>
      have hmine := hcall hr hkeeps
      have hmineA : A.mine x = true := (hcoherent.mine_of_session hr hR ha).symm.trans hmine
      refine ⟨_, (Step.askFailed R a A e (hown.call hr hmine) hR (hown.actor ha hmineA) he
        hdead).step_eq hreq, ?_⟩
      refine Eq.trans (part_setCall_own hr hmine rfl) ?_
      rw [hpart]
      rfl
  | @replyWrote r R total data hr hh =>
      have hmine := hcall hr hkeeps
      refine ⟨_, (Step.replyWrote R total data (hown.call hr hmine) hh).step_eq hreq, ?_⟩
      have hsame : part x (s.setCall r { R with handler := .nextChunk (total + data.length) }) =
          (part x s).setCall r { R with handler := .nextChunk (total + data.length) } :=
        part_setCall_own hr hmine rfl
      refine Eq.trans hsame ?_
      rw [hpart]
      rfl
  | @replyGranted r R hr hh =>
      have hmine := hcall hr hkeeps
      refine ⟨_, (Step.replyGranted R (hown.call hr hmine) hh).step_eq hreq, ?_⟩
      refine Eq.trans (part_setCall_own hr hmine rfl) ?_
      rw [hpart]
      rfl
  | @replyRefused r R hr hh =>
      have hmine := hcall hr hkeeps
      refine ⟨_, (Step.replyRefused R (hown.call hr hmine) hh).step_eq hreq, ?_⟩
      refine Eq.trans (part_setCall_own hr hmine rfl) ?_
      rw [hpart]
      rfl
  | @actor a e A A' ha hA =>
      have hmine := hactor ha hkeeps
      have hmine' : A'.mine x = true := by
        rw [Session.mine, (Session.step_local hA).sessionId]
        exact hmine
      refine ⟨_, (Step.actor A A' (hown.actor ha hmine) (hown.now ▸ hA)).step_eq hreq, ?_⟩
      rw [part_setActor_own hmine', hpart]
      rfl
  | @handleGranted a A rest r ha hm hlife hidle hfree =>
      have hmine := hactor ha hkeeps
      have hmem : Message.read r ∈ A.asked := by simp [Session.asked_cons hm hidle]
      obtain ⟨R, hr, hR⟩ := hcoherent.mine_of_asked (x := x) ha hmem rfl
      rw [hmine] at hR
      refine ⟨_, (Step.handleGranted A rest r (hown.actor ha hmine) hm hlife hidle hfree).step_eq
        hreq, ?_⟩
      let A₂ : Session := { A with mailbox := rest, reader := some r, upstreamReadAbort := some r
                                   opened := A.opened ++ [r] }
      have hactor' : part x (s.setActor a A₂) = (part x s).setActor a A₂ := part_setActor_own hmine
      have hstream' : part x ((s.setActor a A₂).setStream r (.start a)) =
          ((part x s).setActor a A₂).setStream r (.start a) :=
        hactor' ▸ part_setStream_own (by exact hr) hR
      refine Eq.trans (part_replyTo_own (by exact hr) hR true) ?_
      rw [hstream', hpart, mute_replyTo]
      rfl
  | @handleRefused a A rest r q ha hm hlife hidle hheld =>
      have hmine := hactor ha hkeeps
      have hmem : Message.read r ∈ A.asked := by simp [Session.asked_cons hm hidle]
      obtain ⟨R, hr, hR⟩ := hcoherent.mine_of_asked (x := x) ha hmem rfl
      rw [hmine] at hR
      refine ⟨_, (Step.handleRefused A rest r q (hown.actor ha hmine) hm hlife hidle hheld).step_eq
        hreq, ?_⟩
      have hactor' : part x (s.setActor a { A with mailbox := rest }) =
          (part x s).setActor a { A with mailbox := rest } := part_setActor_own hmine
      refine Eq.trans (part_replyTo_own (by exact hr) hR false) ?_
      rw [hactor', hpart, mute_replyTo]
      rfl
  | @handleWrite a A rest r bytes ha hm hlife hidle =>
      have hmine := hactor ha hkeeps
      refine ⟨_, (Step.handleWrite A rest r bytes (hown.actor ha hmine) hm hlife hidle).step_eq
        hreq, ?_⟩
      refine Eq.trans (part_setActor_own (by exact hmine)) ?_
      rw [hpart]
      rfl
  | @handleReset a A rest ha hm hlife hidle =>
      have hmine := hactor ha hkeeps
      refine ⟨_, (Step.handleReset A rest (hown.actor ha hmine) hm hlife hidle).step_eq hreq, ?_⟩
      refine Eq.trans (part_setActor_own (by exact hmine)) ?_
      rw [hpart, hown.now]
      rfl
  | @writeOk a A w ha hw hlife hall =>
      have hmine := hactor ha hkeeps
      have hmem : Message.write w.req w.bytes ∈ A.asked := by simp [Session.asked_handling hw]
      obtain ⟨R, hr, hR⟩ := hcoherent.mine_of_asked (x := x) ha hmem rfl
      rw [hmine] at hR
      refine ⟨_, (Step.writeOk A w (hown.actor ha hmine) hw hlife hall).step_eq hreq, ?_⟩
      have hactor' : part x (s.setActor a (A.writeOk env w)) =
          (part x s).setActor a (A.writeOk env w) := part_setActor_own hmine
      refine Eq.trans (part_replyTo_own (by exact hr) hR true) ?_
      rw [hactor', hpart, mute_replyTo]
      rfl
  | @writeErr a A w ha hw hlife hpart' =>
      have hmine := hactor ha hkeeps
      have hmem : Message.write w.req w.bytes ∈ A.asked := by simp [Session.asked_handling hw]
      obtain ⟨R, hr, hR⟩ := hcoherent.mine_of_asked (x := x) ha hmem rfl
      rw [hmine] at hR
      refine ⟨_, (Step.writeErr A w (hown.actor ha hmine) hw hlife hpart').step_eq hreq, ?_⟩
      have hactor' : part x (s.setActor a (A.writeErr w)) =
          (part x s).setActor a (A.writeErr w) := part_setActor_own hmine
      refine Eq.trans (part_replyTo_own (by exact hr) hR true) ?_
      rw [hactor', hpart, mute_replyTo]
      rfl
  | @dropAborts a A ha hlife =>
      have hmine := hactor ha hkeeps
      refine ⟨_, (Step.dropAborts A (hown.actor ha hmine) hlife).step_eq hreq, ?_⟩
      rw [part_dropAbortsStep_own hcoherent ha hmine, hpart, mute_dropAbortsStep]
  | @dropRemove a A ha hlife =>
      have hmine := hactor ha hkeeps
      refine ⟨_, (Step.dropRemove A (hown.actor ha hmine) hlife).step_eq hreq, ?_⟩
      rw [part_dropRemoveStep_own hmine, hpart]
      rfl
  | @pollPending r st R A hst hr ha hactive hresp hturn hwait =>
      have hmine := hcall hr hkeeps
      obtain ⟨Q, hQ, hmineA⟩ := hcoherent.mine_of_stream (x := x) hst ha
      obtain rfl : R = Q := Option.some.inj (hr.symm.trans hQ)
      refine ⟨_, (Step.pollPending st R A (hown.stream hst hr hmine) (hown.call hr hmine)
        (hown.actor ha (hmineA ▸ hmine)) hactive hresp hturn hwait).step_eq hreq, ?_⟩
      rw [part_setStream_own hr hmine, hpart]
      rfl
  | @pollEnd r res st R A hst hr ha hactive hresp hturn hres =>
      have hmine := hcall hr hkeeps
      obtain ⟨Q, hQ, hmineA⟩ := hcoherent.mine_of_stream (x := x) hst ha
      obtain rfl : R = Q := Option.some.inj (hr.symm.trans hQ)
      have hmine' : (A.release r).mine x = true := hmineA ▸ hmine
      refine ⟨_, (Step.pollEnd st R A (hown.stream hst hr hmine) (hown.call hr hmine)
        (hown.actor ha (hmineA ▸ hmine)) hactive hresp hturn hres).step_eq hreq, ?_⟩
      rw [endStream, part_setActor_own hmine', part_setStream_own hr hmine, hpart]
      rfl
  | @pollData r n st R A hst hr ha hactive hresp hturn hpos hcap hlen =>
      have hmine := hcall hr hkeeps
      obtain ⟨Q, hQ, hmineA⟩ := hcoherent.mine_of_stream (x := x) hst ha
      obtain rfl : R = Q := Option.some.inj (hr.symm.trans hQ)
      have hmine' : ({ A with upstream := A.upstream.read n } : Session).mine x = true :=
        hmineA ▸ hmine
      refine ⟨_, (Step.pollData st R A (hown.stream hst hr hmine) (hown.call hr hmine)
        (hown.actor ha (hmineA ▸ hmine)) hactive hresp hturn hpos hcap hlen).step_eq hreq, ?_⟩
      have hsame : part x ((s.setStream r { st with first := false
                                                    turn := .telling (A.upstream.rx.take n) }
          ).setActor st.session { A with upstream := A.upstream.read n }) =
          ((part x s).setStream r { st with first := false
                                            turn := .telling (A.upstream.rx.take n) }
            ).setActor st.session { A with upstream := A.upstream.read n } := by
        rw [part_setActor_own hmine', part_setStream_own hr hmine]
      refine Eq.trans hsame ?_
      rw [hpart]
      rfl
  | @tellSent r st A bytes hst ha hturn hactive halive hroom =>
      obtain ⟨R, hr, hmineA⟩ := hcoherent.mine_of_stream (x := x) hst ha
      have hmine := hcall hr hkeeps
      have hmine' : (A.enqueue .resetIdleTimeout).mine x = true := hmineA ▸ hmine
      refine ⟨_, (Step.tellSent st A bytes (hown.stream hst hr hmine)
        (hown.actor ha (hmineA ▸ hmine)) hturn hactive halive hroom).step_eq hreq, ?_⟩
      rw [part_setActor_own hmine', part_setStream_own hr hmine, hpart]
      rfl
  | @tellSkipped r st A bytes hst ha hturn hactive hdead =>
      obtain ⟨R, hr, hmineA⟩ := hcoherent.mine_of_stream (x := x) hst ha
      have hmine := hcall hr hkeeps
      refine ⟨_, (Step.tellSkipped st A bytes (hown.stream hst hr hmine)
        (hown.actor ha (hmineA ▸ hmine)) hturn hactive hdead).step_eq hreq, ?_⟩
      rw [part_setStream_own hr hmine, hpart]
      rfl
  | @pollAborted r st hst habort hopen hkept =>
      obtain ⟨R, hr, _⟩ := hcoherent.stream hst
      have hmine := hcall hr hkeeps
      refine ⟨_, (Step.pollAborted st (hown.stream hst hr hmine) habort hopen hkept).step_eq
        hreq, ?_⟩
      rw [part_setStream_own hr hmine, hpart]
      rfl
  | @dropStream r st A hst ha hkept =>
      obtain ⟨R, hr, hmineA⟩ := hcoherent.mine_of_stream (x := x) hst ha
      have hmine := hcall hr hkeeps
      have hmine' : (A.release r).mine x = true := hmineA ▸ hmine
      refine ⟨_, (Step.dropStream st A (hown.stream hst hr hmine)
        (hown.actor ha (hmineA ▸ hmine)) hkept).step_eq hreq, ?_⟩
      rw [part_setActor_own hmine', part_setStream_own hr hmine, hpart]
      rfl

theorem part_dispatch_own {req : Request} {fresh : ActorRef} (hcoherent : Coherent s)
    (hr : s.calls r = none) (hpart : part x s = s'.mute) :
    part x (s.dispatch r req x fresh) = (s'.dispatch r req x fresh).mute := by
  have hown := owns_of_part hpart
  have hst := streams_eq_none hcoherent hr
  have hcall : ∀ R : Call, R.sessionId = some x →
      part x (s.setCall r R) = (s'.setCall r R).mute := by
    intro R hR
    rw [part_newCall_own hst (by simp [Call.mine, hR]), hpart]
    rfl
  have hcreate : ∀ R : Call, R.sessionId = some x →
      part x ((s.newSession x fresh).setCall r R) = ((s'.newSession x fresh).setCall r R).mute := by
    intro R hR
    refine Eq.trans (part_newCall_own (by exact hst) (by simp [Call.mine, hR])) ?_
    rw [part_newSession_own, hpart]
    rfl
  have halive : ∀ b, s.sessions x = some b → s'.isAlive b = s.isAlive b := by
    intro b hb
    obtain ⟨B, hB, hid⟩ := hcoherent.table hb
    have hB' := hown.actor hB (by simp [Session.mine, hid])
    rw [isAlive, isAlive, hB, hB']
  unfold dispatch getOrCreate
  rw [hown.session]
  cases hx : s.sessions x with
  | none =>
      by_cases hcan : req.method ≠ .patch
      · simpa [hcan] using hcreate _ rfl
      · simpa [hcan, reject] using hcall _ rfl
  | some b =>
      simp only [halive b hx]
      by_cases hb : s.isAlive b
      · simpa [hb] using hcall _ rfl
      · by_cases hcan : req.method ≠ .patch
        · simpa [hb, hcan] using hcreate _ rfl
        · simpa [hb, hcan, reject] using hcall _ rfl

theorem part_request_own {req : Request} {fresh : ActorRef} (hcoherent : Coherent s)
    (hr : s.calls r = none) (hkeeps : keeps env x s (.request r req fresh))
    (hpart : part x s = s'.mute) :
    part x (s.handleRequestInner env r req fresh) =
      (s'.handleRequestInner env r req fresh).mute := by
  have hst := streams_eq_none hcoherent hr
  have hreject : ∀ y e, y.all (fun z => z = x) = true →
      part x (s.reject r req y e) = (s'.reject r req y e).mute := by
    intro y e hy
    rw [reject, part_newCall_own hst (by simpa [Call.mine] using hy), hpart]
    rfl
  unfold handleRequestInner
  cases hx : req.sessionId env.http env.sessionKey with
  | none => cases req.method <;> exact hreject none _ rfl
  | some y =>
      obtain rfl : y = x := by simpa [keeps, owner, hx] using hkeeps
      cases req.method with
      | other method => exact hreject (some y) _ (by simp)
      | _ => exact part_dispatch_own hcoherent hr hpart

theorem part_part : part x (part x s) = part x s := by
  have hsessions : (fun y => if y = x then if y = x then s.sessions y else none else none) =
      fun y => if y = x then s.sessions y else none := by
    funext y
    by_cases hy : y = x <;> simp [hy]
  simpa [part, Option.filter_filter] using hsessions

/-- Two states of the server agree on what belongs to `x`. -/
structure SameFor (x : Uuid) (s t : Server) : Prop where
  session : t.sessions x = s.sessions x
  actor : ∀ a A, A.sessionId = x → (t.actors a = some A ↔ s.actors a = some A)
  call : ∀ r R, R.sessionId = some x → (t.calls r = some R ↔ s.calls r = some R)
  stream : ∀ r R st, s.calls r = some R → R.sessionId = some x →
    (t.streams r = some st ↔ s.streams r = some st)

theorem sameFor_of_part (h : part x t = part x s) : SameFor x s t := by
  have hcalls : ∀ r R, R.sessionId = some x → (t.calls r = some R ↔ s.calls r = some R) := by
    intro r R hR
    have hsame : (t.calls r).filter (Call.mine x) = (s.calls r).filter (Call.mine x) :=
      congrFun (congrArg Server.calls h) r
    have hmine : R.mine x = true := by simp [Call.mine, hR]
    have hiff : ∀ u : Server, u.calls r = some R ↔ (u.calls r).filter (Call.mine x) = some R :=
      fun u => by simp [Option.filter_eq_some_iff, hmine]
    rw [hiff t, hiff s, hsame]
  refine ⟨?_, ?_, hcalls, ?_⟩
  · have hsame : (part x t).sessions x = (part x s).sessions x := by rw [h]
    simpa using hsame
  · intro a A hA
    have hsame : (t.actors a).filter (Session.mine x) = (s.actors a).filter (Session.mine x) :=
      congrFun (congrArg Server.actors h) a
    have hmine : A.mine x = true := decide_eq_true hA
    have hiff : ∀ u : Server, u.actors a = some A ↔ (u.actors a).filter (Session.mine x) = some A :=
      fun u => by simp [Option.filter_eq_some_iff, hmine]
    rw [hiff t, hiff s, hsame]
  · intro r R st hr hR
    have hmine : R.mine x = true := by simp [Call.mine, hR]
    have hr' := (hcalls r R hR).mpr hr
    have hsame : (t.streams r).filter (fun _ => (t.calls r).any (Call.mine x)) =
        (s.streams r).filter fun _ => (s.calls r).any (Call.mine x) :=
      congrFun (congrArg Server.streams h) r
    have hall : ∀ o : Option ReadStream, (o.filter fun _ => true) = o := fun o => by
      cases o <;> rfl
    simp only [hr, hr', Option.any_some, hmine, hall] at hsame
    rw [hsame]

/-- Deleting from a run every step that belongs to another id leaves a run with
the same requests, sessions and streams of `x`, and each deleted step left them
as they were. -/
theorem isolation (env : ServerEnv) (x : Uuid) {es : List ServerEvent}
    (h : (machine env).exec init es = some s) :
    (∃ s', (machine env).exec init ((machine env).erase (keeps env x) init es) = some s' ∧
      SameFor x s s') ∧
    ∀ e t, step env s e = some t → keeps env x s e = false → SameFor x s t := by
  have hforeign : ∀ u e t, (machine env).Reachable u → keeps env x u e = false →
      step env u e = some t → part x t = part x u := fun u e t hu hkeeps hstep =>
    (Step.of_step hstep).part_foreign (coherent_of_reachable hu) hkeeps
  have hinit : part x init = init.mute := by simp [part, mute, init]
  constructor
  · have hkeep : ∀ u e t (u' : Server), (machine env).Reachable u → part x u = u'.mute → True →
        keeps env x u e = true → step env u e = some t →
        ∃ t', step env u' e = some t' ∧ part x t = t'.mute := by
      intro u e t u' hu hpart _ hkeeps hstep
      have hcoherent := coherent_of_reachable hu
      cases e with
      | request r req fresh =>
          simp only [step, Option.ite_none_right_eq_some, Option.some.injEq] at hstep
          obtain ⟨⟨hr, hfresh⟩, rfl⟩ := hstep
          have hown := owns_of_part hpart
          refine ⟨_, ?_, part_request_own hcoherent hr hkeeps hpart⟩
          simp only [step, hown.noCall hr, hown.noActor hfresh, and_self, if_true]
      | _ => exact (Step.of_step hstep).part_own hcoherent (by simp) hkeeps hpart
    have hdrop : ∀ u e t (u' : Server), (machine env).Reachable u → part x u = u'.mute → True →
        keeps env x u e = false → step env u e = some t → part x t = u'.mute :=
      fun u e t u' hu hpart _ hkeeps hstep => (hforeign u e t hu hkeeps hstep).trans hpart
    obtain ⟨s', hs', hpart⟩ :=
      (Machine.run_of_exec h).erase (R := fun u u' => part x u = u'.mute) hinit hkeep hdrop
    refine ⟨s', hs', sameFor_of_part ?_⟩
    have hmute : part x s'.mute = part x s' := rfl
    rw [← hmute, ← hpart, part_part]
  · exact fun e t hstep hkeeps =>
      sameFor_of_part (hforeign s e t (Machine.reachable_of_exec h) hkeeps hstep)

/-- Two sessions are opened and the first is stopped by a failed write. -/
def twoSessions : List ServerEvent :=
  [.request 0 (sampleRequest .post) 0,
    .request 1 ⟨.post, [("x-session", "ffffffff-ffff-ffff-ffff-ffffffffffff")]⟩ 1,
    .actor 0 .start, .actor 1 .start, .actor 0 (.connect 8 8), .actor 1 (.connect 8 8),
    .body 0 (.chunk [1]), .body 1 (.chunk [2]), .ask 0, .ask 1, .handle 0, .handle 1,
    .writeErr 0, .actor 1 (.write 1), .actor 0 .close, .writeOk 1]

theorem twoSessions_isolation :
    ∃ s, (machine sampleEnv).exec init twoSessions = some s ∧
      (∃ s', (machine sampleEnv).exec init
          ((machine sampleEnv).erase (keeps sampleEnv (BitVec.allOnes 128)) init twoSessions) =
            some s' ∧ SameFor (BitVec.allOnes 128) s s') ∧
      ∀ e t, step sampleEnv s e = some t → keeps sampleEnv (BitVec.allOnes 128) s e = false →
        SameFor (BitVec.allOnes 128) s t := by
  obtain ⟨s, hrun, _⟩ := Machine.exists_run (M := machine sampleEnv)
    (P := fun s => (s.actors 1).map (fun A => A.upstream.written) = some [2]) twoSessions
    (by decide)
  exact ⟨s, hrun.exec_eq, isolation sampleEnv (BitVec.allOnes 128) hrun.exec_eq⟩

end Server
end Fronting
