import Fronting.Uploads

/-!
# What the server only adds to

The head of a request, its session and its answer are there to stay, and so are the
frames of a stream. A step adds to one request, one stream or one session at most.
-/

namespace Fronting

open Function (update)

/-- What becomes of the request `r`. -/
structure Call.Grows (e : ServerEvent) (r : ReqId) (R R' : Call) : Prop where
  sessionId : R'.sessionId = R.sessionId
  method : R'.method = R.method
  session : R'.session = R.session
  done : ∀ res, R.handler = .done res → R' = R
  chunks : R'.chunks = R.chunks ∨
    ∃ data, e = .body r (.chunk data) ∧ R'.chunks = R.chunks ++ [data]
  noContent : R'.handler = .done (.ok Server.noContent) → R' = R ∨ e = .body r .finished

/-- What becomes of a stream: one that is not polled any more does not change. -/
structure ReadStream.Grows (st st' : ReadStream) : Prop where
  session : st'.session = st.session
  frames : st.frames <+: st'.frames
  ended : st.ended = true → st'.ended = true ∧ st'.frames = st.frames ∧ st'.turn = st.turn
  inactive : st.active = false → st'.active = false ∧ st'.frames = st.frames ∧ st'.turn = st.turn

theorem Call.Grows.refl (e : ServerEvent) (r : ReqId) (R : Call) : R.Grows e r R :=
  ⟨rfl, rfl, rfl, fun _ _ => rfl, .inl rfl, fun _ => .inl rfl⟩

theorem ReadStream.Grows.refl (st : ReadStream) : st.Grows st :=
  ⟨rfl, List.prefix_refl _, fun h => ⟨h, rfl, rfl⟩, fun h => ⟨h, rfl, rfl⟩⟩

/-- A change of the handler while the request is in progress. -/
theorem Call.Grows.of_handler {e : ServerEvent} {r : ReqId} {R : Call} {h : Handler}
    (hdone : ∀ res, R.handler ≠ .done res)
    (hnew : h = .done (.ok Server.noContent) → e = .body r .finished) :
    R.Grows e r { R with handler := h } :=
  ⟨rfl, rfl, rfl, fun res hres => absurd hres (hdone res), .inl rfl, fun h => .inr (hnew h)⟩

theorem Call.Grows.onReply (e : ServerEvent) (r : ReqId) (R : Call) (b : Bool) :
    R.Grows e r { R with handler := Server.onReply b R.handler } := by
  constructor
  · rfl
  · rfl
  · rfl
  · intro res hres
    obtain ⟨x, m, a, h, chunks⟩ := R
    obtain rfl : h = .done res := hres
    rfl
  · exact .inl rfl
  · intro hnew
    obtain ⟨x, m, a, h, chunks⟩ := R
    cases h <;> simp_all [Server.onReply]

/-- The turn of an active stream goes on. -/
theorem ReadStream.Grows.of_active {st st' : ReadStream} (hactive : st.active = true)
    (hsession : st'.session = st.session) (hframes : st.frames <+: st'.frames) :
    st.Grows st' := by
  have hopen : st.ended = false := by
    simp only [ReadStream.active, Bool.and_eq_true, Bool.not_eq_true'] at hactive
    exact hactive.1.1
  refine ⟨hsession, hframes, fun hended => ?_, fun hinactive => ?_⟩
  · exact absurd (hopen.symm.trans hended) Bool.false_ne_true
  · exact absurd (hinactive.symm.trans hactive) Bool.false_ne_true

theorem ReadStream.Grows.of_move {e : ServerEvent} {r : ReqId} {st st' : ReadStream}
    (h : st.Move r e st') : st.Grows st' := by
  cases h with
  | stay => exact .refl st
  | wait hactive | data _ _ hactive | finish _ hactive =>
      exact .of_active hactive rfl (List.prefix_refl _)
  | yield bytes hactive => exact .of_active hactive rfl (List.prefix_append _ _)
  | abort | stop | drop =>
      refine ⟨rfl, List.prefix_refl _, fun hended => ⟨by simp [hended], rfl, rfl⟩, fun _ => ?_⟩
      exact ⟨by simp [ReadStream.active], rfl, rfl⟩

/-- The request reads, or is done with it. -/
def Handler.reads : Handler → Bool
  | .sendRead | .awaitRead | .readReply _ | .done _ | .cancelled => true
  | _ => false

namespace Session

variable {env : ServerEnv} {A A' : Session}

theorem Move.opened (h : Move env A A') :
    A'.opened = A.opened ∨
      ∃ r, A.isAlive ∧ .read r ∈ A.asked ∧ A'.opened = A.opened ++ [r] := by
  cases h with
  | own h => exact .inl (step_local h).opened
  | grant rest r hm hlife hidle =>
      refine .inr ⟨r, ?_, ?_, rfl⟩
      · rw [isAlive, hlife]
        rfl
      · rw [asked_cons hm hidle]
        exact List.mem_cons_self
  | _ => exact .inl rfl

theorem Move.accepted (h : Move env A A') :
    A'.accepted = A.accepted ∨ ∃ r bytes, A'.accepted = A.accepted ++ [(r, bytes)] := by
  cases h with
  | own h => exact .inl (step_local h).accepted
  | acceptWrite r bytes => exact .inr ⟨r, bytes, rfl⟩
  | _ => exact .inl rfl

theorem Move.finished (h : Move env A A') :
    A'.finished = A.finished ∨ ∃ f, A'.finished = A.finished ++ [f] := by
  cases h with
  | own h => exact .inl (step_local h).finished
  | writeOk w | writeErr w => exact .inr ⟨_, rfl⟩
  | _ => exact .inl rfl

/-- Nothing is written for a session that has ended. -/
theorem Move.written_of_dead (h : Move env A A') (hdead : A.isAlive = false) :
    A'.upstream.written = A.upstream.written := by
  have halive : A.life.mailboxOpen = true → A'.upstream.written = A.upstream.written :=
    fun hopen => absurd (hdead.symm.trans hopen) Bool.false_ne_true
  cases h with
  | own h =>
      cases Own.of_step h with
      | write n w hw hlife => exact halive (by rw [hlife]; rfl)
      | connect txCap rxCap hlife | connectKilled txCap rxCap hlife =>
          exact halive (by rw [hlife]; rfl)
      | _ => rfl
  | _ => rfl

end Session

namespace Server

variable {env : ServerEnv} {s t : Server} {e : ServerEvent} {r : ReqId} {R : Call}
  {st : ReadStream}

theorem grows_setCall {q : ReqId} {Q Q' : Call} (hq : s.calls q = some Q)
    (hQ : Q.Grows e q Q') (hr : s.calls r = some R) :
    ∃ R', update s.calls q (some Q') r = some R' ∧ R.Grows e r R' := by
  by_cases hrq : r = q
  · subst hrq
    obtain rfl : Q = R := Option.some.inj (hq.symm.trans hr)
    exact ⟨Q', Function.update_self _ _ _, hQ⟩
  · exact ⟨R, by rw [Function.update_of_ne hrq, hr], .refl e r R⟩

theorem grows_newCall {q : ReqId} {Q : Call} (hq : s.calls q = none) (hr : s.calls r = some R) :
    ∃ R', update s.calls q (some Q) r = some R' ∧ R.Grows e r R' := by
  have hne : r ≠ q := by
    rintro rfl
    exact absurd (hq.symm.trans hr) (Option.some_ne_none R).symm
  exact ⟨R, by rw [Function.update_of_ne hne, hr], .refl e r R⟩

theorem grows_replyTo {q : ReqId} {b : Bool} (hcalls : t.calls = s.calls)
    (hr : s.calls r = some R) : ∃ R', (t.replyTo q b).calls r = some R' ∧ R.Grows e r R' := by
  rw [replyTo_calls, hcalls]
  by_cases hrq : r = q
  · subst hrq
    rw [if_pos rfl, hr]
    exact ⟨_, rfl, .onReply e r R b⟩
  · rw [if_neg hrq]
    exact ⟨R, hr, .refl e r R⟩

theorem grows_body {total : Nat} {b : BodyEvent} (hh : R.handler = .nextChunk total) :
    R.Grows (.body r b) r (bodyStep R total b) := by
  have hdone : ∀ res, R.handler ≠ .done res := by simp [hh]
  cases b with
  | chunk data =>
      exact ⟨rfl, rfl, rfl, fun res hres => absurd hres (hdone res), .inr ⟨data, rfl, rfl⟩,
        fun hnew => by simp [bodyStep] at hnew⟩
  | finished => exact .of_handler hdone fun _ => rfl
  | error message => exact .of_handler hdone fun hnew => by simp at hnew

theorem Step.call_grows (h : Step env s e t) (hr : s.calls r = some R) :
    ∃ R', t.calls r = some R' ∧ R.Grows e r R' := by
  cases h with
  | reject x e hq | join x b hq | create x hq | replace x b hq => exact grows_newCall hq hr
  | cancel Q hq hbusy =>
      refine grows_setCall hq (.of_handler ?_ (by simp)) hr
      intro res hres
      simp [hres, Handler.inProgress] at hbusy
  | body Q total hq hh => exact grows_setCall hq (grows_body hh) hr
  | askFailed Q a A e hq hQ ha he =>
      refine grows_setCall hq (.of_handler ?_ (by simp)) hr
      intro res hres
      simp [hres, askError] at he
  | askWrite Q a A total data hq hQ ha hh | askRead Q a A hq hQ ha hh =>
      exact grows_setCall hq (.of_handler (by simp [hh]) (by simp)) hr
  | replyWrote Q total data hq hh | replyRefused Q hq hh =>
      exact grows_setCall hq (.of_handler (by simp [hh]) (by simp)) hr
  | replyGranted Q hq hh =>
      exact grows_setCall hq (.of_handler (by simp [hh]) (by simp [noContent, streamResponse])) hr
  | handleGranted | handleRefused | writeOk | writeErr =>
      refine grows_replyTo ?_ hr
      rfl
  | dropAborts A ha => exact ⟨R, by rw [dropAbortsStep_calls, hr], .refl _ r R⟩
  | _ => exact ⟨R, hr, .refl _ r R⟩

/-- While a request stays where it is, none of its writes returns. -/
theorem finishedOf_kept {a : ActorRef} {A A' : Session} (hs : (machine env).Reachable s)
    (hr : s.calls r = some R) (hr' : t.calls r = some R) (hopen : R.handler.broken = false)
    (hR : R.session = some a) (ha : s.actors a = some A) (hstep : step env s e = some t)
    (ha' : t.actors a = some A') : A'.finishedOf r = A.finishedOf r := by
  obtain ⟨_, hbefore⟩ := ((ledger_of_reachable hs).account hr hR ha).whole hopen
  obtain ⟨_, hafter⟩ := ((ledger_of_reachable (hs.step hstep)).account hr' hR ha').whole hopen
  have hlength : (A'.finishedOf r).length = (A.finishedOf r).length := by
    simpa using congrArg List.length (hafter.trans hbefore.symm)
  rcases (move_of_step ha hstep ha').finished with hsame | ⟨f, hsame⟩
  · rw [Session.finishedOf, hsame, Session.finishedOf]
  · have hof : A'.finishedOf r = A.finishedOf r ++ [f].filter fun f => f.req = r := by
      rw [Session.finishedOf, hsame, List.filter_append, Session.finishedOf]
    rw [hof, List.length_append] at hlength
    have hnil := List.length_eq_zero_iff.mp (Nat.add_eq_left.mp hlength)
    rw [hof, hnil, List.append_nil]

theorem Arrived.head {req : Request} (h : Arrived env r req R) :
    R.sessionId = req.sessionId env.http env.sessionKey ∧ R.method = req.method ∧
      R.chunks = [] ∧ R.handler ≠ .done (.ok noContent) := by
  cases h with
  | refused x e hcode hx => exact ⟨hx, rfl, rfl, by simp⟩
  | started x a hx =>
      refine ⟨hx.symm, rfl, rfl, ?_⟩
      by_cases hm : req.method = .get <;> simp [startHandler, hm]

/-- Where a request of the new state comes from. -/
theorem Step.call_cases {R' : Call} (h : Step env s e t) (hr : t.calls r = some R') :
    (∃ R, s.calls r = some R ∧ R.Grows e r R') ∨
      s.calls r = none ∧ ∃ req fresh, e = .request r req fresh ∧ Arrived env r req R' := by
  rcases h.call hr with ⟨R, hR, _⟩ | hnew
  · obtain ⟨R'', hR'', hgrows⟩ := h.call_grows hR
    obtain rfl : R'' = R' := Option.some.inj (hR''.symm.trans hr)
    exact .inl ⟨R, hR, hgrows⟩
  · exact .inr hnew

theorem Step.arrives {req : Request} {fresh : ActorRef} (h : Step env s (.request r req fresh) t) :
    s.calls r = none ∧ ∃ R, t.calls r = some R ∧ Arrived env r req R := by
  cases h with
  | reject x e hr hcode hx =>
      exact ⟨hr, _, Function.update_self _ _ _, .refused x e hcode hx⟩
  | join x b hr hx => exact ⟨hr, _, Function.update_self _ _ _, .started x b hx⟩
  | create x hr hfresh hx => exact ⟨hr, _, Function.update_self _ _ _, .started x fresh hx⟩
  | replace x b hr hfresh hx => exact ⟨hr, _, Function.update_self _ _ _, .started x b hx⟩

theorem inHand_of_betweenReads (h : st.turn.betweenReads = true) : st.inHand = [] := by
  cases hturn : st.turn <;> simp [ReadStream.inHand, hturn, Turn.betweenReads] at h ⊢

theorem Step.stream_grows (h : Step env s e t) (hcoherent : Coherent s)
    (hst : s.streams r = some st) : ∃ st', t.streams r = some st' ∧ st.Grows st' := by
  obtain ⟨st', hst'⟩ := h.stream_kept hst
  refine ⟨st', hst', ?_⟩
  rcases h.stream hcoherent hst' with ⟨st₀, hst₀, hmove⟩ | hnew
  · obtain rfl : st = st₀ := Option.some.inj (hst.symm.trans hst₀)
    exact .of_move hmove
  · exact absurd (hnew.fresh.symm.trans hst) (by simp)

/-- A new stream belongs to a live session. -/
theorem Step.stream_new (h : Step env s e t) (hcoherent : Coherent s)
    (hnone : s.streams r = none) (hst : t.streams r = some st) :
    ∃ A, s.actors st.session = some A ∧ A.isAlive = true := by
  rcases h.stream hcoherent hst with ⟨st₀, hst₀, _⟩ | hnew
  · exact absurd (hnone.symm.trans hst₀) (by simp)
  · obtain ⟨A, rest, hA, _, hlife, _⟩ := hnew.actor
    exact ⟨A, hA, Session.isAlive_of_running hlife⟩

/-- A `GET` sends nothing to its session. -/
theorem chunks_of_get (h : (machine env).Reachable s) (hr : s.calls r = some R)
    (hget : R.method = .get) : R.chunks = [] := by
  have hreads : R.method = .get → R.handler.reads ∧ R.chunks = [] := by
    refine call_invariant (I := fun R => R.method = .get → R.handler.reads ∧ R.chunks = [])
      ?_ ?_ h hr
    · intro r req R harrived hget
      cases harrived with
      | refused => exact ⟨rfl, rfl⟩
      | started x a hx =>
          have hm : req.method = .get := hget
          simp [startHandler, hm, Handler.reads]
    · intro R R' hI hmove hget
      cases hmove with
      | stay => exact hI hget
      | cancel | granted | refused | askFailed | askRead => exact ⟨rfl, (hI hget).2⟩
      | body total e hh =>
          have hm : R.method = .get := by cases e <;> exact hget
          have hbad := (hI hm).1
          simp [hh, Handler.reads] at hbad
      | askWrite total data hh | wrote total data hh =>
          have hbad := (hI hget).1
          simp [hh, Handler.reads] at hbad
      | reply b =>
          obtain ⟨hread, hchunks⟩ := hI hget
          refine ⟨?_, hchunks⟩
          cases hh : R.handler <;> simp_all [Handler.reads, onReply]
  exact (hreads hget).2

/-- The two answers that are not errors. -/
theorem response_of_ok (h : (machine env).Reachable s) (hr : s.calls r = some R)
    {resp : Response} (hok : R.handler = .done (.ok resp)) :
    resp = noContent ∨ resp = streamResponse := by
  refine call_invariant (I := fun R => ∀ resp, R.handler = .done (.ok resp) →
    resp = noContent ∨ resp = streamResponse) ?_ ?_ h hr resp hok
  · intro r req R harrived resp hok
    cases harrived with
    | refused => simp at hok
    | started x a hx => by_cases hm : req.method = .get <;> simp [startHandler, hm] at hok
  · intro R R' hI hmove resp hok
    cases hmove with
    | stay => exact hI resp hok
    | body total e hh =>
        cases e with
        | finished =>
            by_cases htotal : total = 0 <;> simp [bodyStep, htotal] at hok
            exact .inl hok.symm
        | _ => simp [bodyStep] at hok
    | granted hh =>
        simp only [Handler.done.injEq, Except.ok.injEq] at hok
        exact .inr hok.symm
    | reply b => cases hh : R.handler <;> simp [hh, onReply] at hok; exact hI resp (hok ▸ hh)
    | _ => simp at hok

/-- Only the end of a write request's loop is answered with this status. -/
theorem handler_of_status (h : (machine env).Reachable s) (hr : s.calls r = some R)
    {resp : Response} (hresp : R.response = some resp) (hstatus : resp.status = .noContent) :
    R.handler = .done (.ok noContent) := by
  unfold Call.response at hresp
  split at hresp
  · next resp' hh =>
    obtain rfl : resp' = resp := Option.some.inj hresp
    rcases response_of_ok h hr hh with rfl | rfl
    · exact hh
    · simp [streamResponse, StatusCode.ok, StatusCode.noContent] at hstatus
  · next e hh =>
    obtain rfl : e.intoResponse = resp := Option.some.inj hresp
    have hcode : e.code = .noContent := hstatus
    rcases error_code_of_reachable h hr hh with hc | hc <;> rw [hc] at hcode <;> cases hcode
  · cases hresp

section Asked

variable {a b : ActorRef} {A A' B : Session}

theorem read_asked_setActor (ha : s.actors a = some A)
    (hB : update s.actors a (some A') b = some B) (hm : .read r ∈ B.asked)
    (hsub : .read r ∈ A'.asked → .read r ∈ A.asked) :
    ∃ B₀, s.actors b = some B₀ ∧ .read r ∈ B₀.asked := by
  by_cases hb : b = a
  · subst hb
    obtain rfl : A' = B := by simpa using hB
    exact ⟨A, ha, hsub hm⟩
  · rw [Function.update_of_ne hb] at hB
    exact ⟨B, hB, hm⟩

/-- A `SessionRead` in a mailbox comes from a request that reads. -/
theorem Step.read_asked (h : Step env s e t) (hB : t.actors b = some B)
    (hm : .read r ∈ B.asked) :
    (∃ B₀, s.actors b = some B₀ ∧ .read r ∈ B₀.asked) ∨
      ∃ R, s.calls r = some R ∧ R.handler = .sendRead := by
  cases h with
  | create x hq hfresh | replace x d hq hfresh =>
      rcases newSession_cases hB with hold | ⟨_, rfl⟩
      · exact .inl ⟨B, hold, hm⟩
      · simp [Session.asked, Session.spawn] at hm
  | askWrite R a A total data hq hR ha =>
      refine .inl (read_asked_setActor ha hB hm fun hread => ?_)
      simpa [Session.asked, Session.acceptWrite, Session.enqueue] using hread
  | @askRead q R a A hq hR ha hh =>
      by_cases hqr : q = r
      · exact .inr ⟨R, hqr ▸ hq, hh⟩
      · refine .inl (read_asked_setActor ha hB hm fun hread => ?_)
        simpa [Session.asked, Session.enqueue, Ne.symm hqr] using hread
  | actor A A' ha hA =>
      exact .inl (read_asked_setActor ha hB hm fun hread =>
        (Session.step_local hA).asked_sublist.subset hread)
  | handleGranted A rest q ha hmail hlife hidle =>
      rw [replyTo_actors] at hB
      refine .inl (read_asked_setActor ha hB hm fun hread => ?_)
      rw [Session.asked_cons hmail hidle]
      exact List.mem_cons_of_mem _ hread
  | handleRefused A rest q p ha hmail hlife hidle =>
      rw [replyTo_actors] at hB
      refine .inl (read_asked_setActor ha hB hm fun hread => ?_)
      rw [Session.asked_cons hmail hidle]
      exact List.mem_cons_of_mem _ hread
  | handleWrite A rest q bytes ha hmail hlife hidle =>
      refine .inl (read_asked_setActor ha hB hm fun hread => ?_)
      have hrest : .read r ∈ rest := by simpa [Session.asked] using hread
      simp [Session.asked, hmail, hrest]
  | handleReset A rest ha hmail hlife hidle =>
      refine .inl (read_asked_setActor ha hB hm fun hread => ?_)
      rw [Session.asked_cons hmail hidle]
      exact List.mem_cons_of_mem _ hread
  | writeOk A w ha hw =>
      rw [replyTo_actors] at hB
      refine .inl (read_asked_setActor ha hB hm fun hread => ?_)
      have hmail : .read r ∈ (A.writeOk env w).mailbox := by
        simpa [Session.asked, Session.writeOk] using hread
      rcases Session.mailbox_writeOk env A w with he | he
      · exact List.mem_append_right _ (he ▸ hmail)
      · rw [he] at hmail
        exact List.mem_append_right _ (by simpa using hmail)
  | writeErr A w ha hw =>
      rw [replyTo_actors] at hB
      refine .inl (read_asked_setActor ha hB hm fun hread => ?_)
      have hmail : .read r ∈ A.mailbox := by simpa [Session.asked, Session.writeErr] using hread
      exact List.mem_append_right _ hmail
  | dropAborts A ha =>
      rw [dropAbortsStep_actors] at hB
      exact .inl (read_asked_setActor ha hB hm fun hread => hread)
  | dropRemove A ha => exact .inl (read_asked_setActor ha hB hm fun hread => hread)
  | pollEnd u R A hu hq ha => exact .inl (read_asked_setActor ha hB hm fun hread => hread)
  | pollData u R A hu hq ha => exact .inl (read_asked_setActor ha hB hm fun hread => hread)
  | tellSent u A bytes hu ha =>
      refine .inl (read_asked_setActor ha hB hm fun hread => ?_)
      simpa [Session.asked, Session.enqueue] using hread
  | dropStream u A hu ha => exact .inl (read_asked_setActor ha hB hm fun hread => hread)
  | _ => exact .inl ⟨B, hB, hm⟩

theorem method_of_sendRead (h : (machine env).Reachable s) (hr : s.calls r = some R)
    (hsend : R.handler = .sendRead) : R.method = .get := by
  refine call_invariant (I := fun R => R.handler = .sendRead → R.method = .get) ?_ ?_ h hr hsend
  · intro r req R harrived hsend
    cases harrived with
    | refused => simp at hsend
    | started x a hx =>
        by_contra hm
        simp [startHandler, show req.method ≠ .get from hm] at hsend
  · intro R R' hI hmove hsend
    cases hmove with
    | stay => exact hI hsend
    | body total e hh => cases e <;> simp [bodyStep] at hsend
    | reply b => cases hh : R.handler <;> simp_all [onReply]
    | _ => simp at hsend

/-- The mailboxes hold `SessionRead`s of `GET` requests only. -/
theorem method_of_asked (h : (machine env).Reachable s) (ha : s.actors a = some A)
    (hm : .read r ∈ A.asked) (hr : s.calls r = some R) : R.method = .get := by
  refine h.invariant (I := fun s => ∀ a A r R, s.actors a = some A → .read r ∈ A.asked →
    s.calls r = some R → R.method = .get) ?_ ?_ a A r R ha hm hr
  · intro a A r R ha
    simp [machine, init] at ha
  · intro s e t hs hI hstep a A r R ha hm hr
    have hcases := Step.of_step hstep
    have hold : ∃ R₀, s.calls r = some R₀ ∧ R₀.method = .get := by
      rcases hcases.read_asked ha hm with ⟨A₀, hA₀, hm₀⟩ | ⟨R₀, hR₀, hsend⟩
      · obtain ⟨R₀, hR₀, _⟩ := (coherent_of_reachable hs).asked hA₀ hm₀ rfl
        exact ⟨R₀, hR₀, hI a A₀ r R₀ hA₀ hm₀ hR₀⟩
      · exact ⟨R₀, hR₀, method_of_sendRead hs hR₀ hsend⟩
    obtain ⟨R₀, hR₀, hget⟩ := hold
    obtain ⟨R', hR', hgrows⟩ := hcases.call_grows hR₀
    obtain rfl : R' = R := Option.some.inj (hR'.symm.trans hr)
    exact hgrows.method.trans hget

end Asked

end Server
end Fronting
