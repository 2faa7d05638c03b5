import Fronting.TunnelWrites

/-!
# Zero-length writes

The request channel takes a zero-length buffer like any other, and `pump_outgoing` sends it:
a request without a body, which the server answers with an error. A zero-length write does
nothing only when the channel turns it away, and when it gets no error that was for another
call: that of the I/O task, or that of the closed channel.
-/

namespace Fronting

open Function (update)

/-- `poll_write` of an empty buffer, or `poll_write_vectored` of slices without bytes. -/
def Op.isEmptyWrite (op : Op) : Bool := op.buffer = some []

namespace Client

variable {env : ClientEnv} {s t : Client} {e : ClientEvent} {op : Op} {res : PollResult}

/-- The calls that are not zero-length writes. -/
def keeps (s : Client) : ClientEvent → Bool
  | .poll op => !op.isEmptyWrite
  | .resume => !s.call.any Op.isEmptyWrite
  | _ => true

/-- A zero-length write finds the slot of the open request channel taken, or is turned away
by the closed channel after another; and it is not the first call after the I/O task has
ended. -/
def QuietEmpty (s : Client) : ClientEvent → Prop
  | .poll op => op.isEmptyWrite = true → s.joinTaken = true ∨ ∀ r, s.task ≠ .complete r
  | .resume => ∀ op, s.call = some op → op.isEmptyWrite = true →
      if s.senderOpen = true ∧ s.requestRx = true then s.slot ≠ none else s.mapErr = false
  | _ => True

/-- The log without the zero-length writes. -/
def otherCalls (log : List (Op × PollResult)) : List (Op × PollResult) :=
  log.filter fun entry => !entry.1.isEmptyWrite

theorem otherCalls_empty (log : List (Op × PollResult)) (hempty : op.isEmptyWrite = true) :
    otherCalls (log ++ [(op, res)]) = otherCalls log := by
  simp [otherCalls, hempty]

theorem otherCalls_other (log : List (Op × PollResult)) (hother : op.isEmptyWrite = false) :
    otherCalls (log ++ [(op, res)]) = otherCalls log ++ [(op, res)] := by
  simp [otherCalls, hother]

def withCalls (s : Client) (call : Option Op) (log : List (Op × PollResult)) : Client :=
  { s with call := call, log := log }

/-- The client as if its zero-length writes had not been called. -/
def withoutEmpty (s : Client) : Client :=
  s.withCalls (s.call.filter fun op => !op.isEmptyWrite) (otherCalls s.log)

theorem Io.withCalls {e : IoEvent} (h : Io env s e t) (call : Option Op)
    (log : List (Op × PollResult)) : Io env (s.withCalls call log) e (t.withCalls call log) := by
  cases h <;> constructor <;> assumption

theorem pollInner_withCalls (s : Client) (call : Option Op) (log : List (Op × PollResult))
    (op : Op) : (s.withCalls call log).pollInner op =
      ((s.pollInner op).1.withCalls call log, (s.pollInner op).2) := by
  have hwrite : ∀ buf, (s.withCalls call log).pollWrite buf =
      ((s.pollWrite buf).1.withCalls call log, (s.pollWrite buf).2) := by
    intro buf
    have hopen : (s.withCalls call log).senderOpen = s.senderOpen := rfl
    have hrx : (s.withCalls call log).requestRx = s.requestRx := rfl
    have hslot : (s.withCalls call log).slot = s.slot := rfl
    have hmap : (s.withCalls call log).mapErr = s.mapErr := rfl
    simp only [pollWrite, hopen, hrx, hslot, hmap]
    split
    · split <;> rfl
    · split <;> rfl
  cases op with
  | read room =>
      have htx : (s.withCalls call log).responseTx = s.responseTx := rfl
      have hchunk : (s.withCalls call log).chunk = s.chunk := rfl
      have hqueue : (s.withCalls call log).responses = s.responses := rfl
      simp only [pollInner, pollRead, htx, hchunk, hqueue]
      split
      · rfl
      · split <;> rfl
  | write buf => exact hwrite buf
  | writeVectored bufs => exact hwrite bufs.flatten
  | flush | shutdown => rfl

theorem withoutEmpty_report (hother : op.isEmptyWrite = false) :
    (s.report op res).withoutEmpty = s.withoutEmpty.report op res := by
  unfold withoutEmpty withCalls report
  simp only [otherCalls_other s.log hother, Option.filter_none]

theorem withoutEmpty_resume (hother : op.isEmptyWrite = false) :
    (s.resume op).withoutEmpty = s.withoutEmpty.resume op := by
  obtain ⟨_, _, _, _, _, _, hlog, _⟩ := pollInner_pumps s op
  have hinner : s.withoutEmpty.pollInner op = (_, (s.pollInner op).2) :=
    pollInner_withCalls s _ _ op
  simp only [Client.resume, hinner]
  simp only [withoutEmpty, withCalls, report, hlog, otherCalls_other s.log hother,
    Option.filter_none]

theorem withoutEmpty_checkErr (hother : op.isEmptyWrite = false) :
    (s.checkErr op).withoutEmpty = s.withoutEmpty.checkErr op := by
  have hjoin : s.withoutEmpty.joinTaken = s.joinTaken := rfl
  have htask : s.withoutEmpty.task = s.task := rfl
  simp only [checkErr, hjoin, htask]
  split
  · exact withoutEmpty_report hother
  · split
    · exact withoutEmpty_report hother
    · exact withoutEmpty_report hother
    · simp [withoutEmpty, withCalls, hother]

/-- What is not a zero-length write goes on without them. -/
theorem step_withoutEmpty (hkeeps : s.keeps e = true) (hstep : step env s e = some t) :
    step env s.withoutEmpty e = some t.withoutEmpty := by
  have hdropped : s.withoutEmpty.dropped = s.dropped := rfl
  have htask : s.withoutEmpty.task = s.task := rfl
  cases e with
  | poll op =>
      simp only [step, Option.ite_none_right_eq_some, Option.some.injEq] at hstep
      obtain ⟨⟨hcall, hd⟩, rfl⟩ := hstep
      have hother : op.isEmptyWrite = false := by simpa [keeps] using hkeeps
      have hcall' : s.withoutEmpty.call = none := by simp [withoutEmpty, withCalls, hcall]
      simp only [step, hcall', hdropped, hd, and_self, if_true, Option.some.injEq]
      exact (withoutEmpty_checkErr hother).symm
  | resume =>
      obtain ⟨op, hcall, rfl⟩ := Option.map_eq_some_iff.mp hstep
      have hother : op.isEmptyWrite = false := by simpa [keeps, hcall] using hkeeps
      have hcall' : s.withoutEmpty.call = some op := by
        simp [withoutEmpty, withCalls, hcall, hother]
      rw [withoutEmpty_resume hother]
      simp [step, hcall']
  | drop =>
      simp only [step, Option.ite_none_right_eq_some, Option.some.injEq] at hstep
      obtain ⟨⟨hcall, hd⟩, rfl⟩ := hstep
      have hcall' : s.withoutEmpty.call = none := by simp [withoutEmpty, withCalls, hcall]
      simp only [step, hcall', hdropped, hd, and_self, if_true, Option.some.injEq]
      rfl
  | io e =>
      simp only [step, Option.ite_none_right_eq_some] at hstep
      have hio := Io.of_ioStep hstep.2
      obtain ⟨hcall, _, hlog, _⟩ := hio.calls
      simp only [step, htask, hstep.1, if_true]
      rw [withoutEmpty, withoutEmpty, hcall, hlog]
      exact (hio.withCalls _ _).step_eq
  | abort =>
      simp only [step, Option.ite_none_right_eq_some, Option.some.injEq] at hstep
      obtain ⟨hguard, rfl⟩ := hstep
      simp only [step, htask, hdropped, hguard, and_self, if_true]
      rfl
  | tearDown =>
      simp only [step, htask] at hstep ⊢
      split at hstep
      · obtain rfl := Option.some.inj hstep
        rfl
      · cases hstep
  | publish =>
      simp only [step, htask] at hstep ⊢
      split at hstep
      · obtain rfl := Option.some.inj hstep
        rfl
      · cases hstep

theorem pollInner_of_refused (hempty : op.isEmptyWrite = true)
    (hrefused : if s.senderOpen = true ∧ s.requestRx = true then s.slot ≠ none
      else s.mapErr = false) : (s.pollInner op).1 = s := by
  have hwrite : ∀ buf, (s.pollWrite buf).1 = s := by
    intro buf
    rcases pollWrite_cases s buf with ⟨_, _, heq⟩ | ⟨hopen, hslot, _⟩ | ⟨hclosed, hfirst, _⟩ |
      ⟨_, _, heq⟩
    · rw [heq]
    · rw [if_pos hopen] at hrefused
      exact absurd hslot hrefused
    · rw [if_neg hclosed] at hrefused
      exact absurd (hrefused.symm.trans hfirst) Bool.false_ne_true
    · rw [heq]
  cases op with
  | write buf => exact hwrite buf
  | writeVectored bufs => exact hwrite bufs.flatten
  | _ => simp [Op.isEmptyWrite, Op.buffer] at hempty

/-- A zero-length write that is turned away leaves nothing behind. -/
theorem withoutEmpty_of_quiet (hkeeps : s.keeps e = false) (hquiet : QuietEmpty s e)
    (hstep : step env s e = some t) : t.withoutEmpty = s.withoutEmpty := by
  cases Step.of_step hstep with
  | pollTaken op hcall =>
      have hempty : op.isEmptyWrite = true := by simpa [keeps] using hkeeps
      simp only [withoutEmpty, withCalls, report, otherCalls_empty s.log hempty, hcall]
  | pollError op e hcall hd hjoin htask | pollOk op hcall hd hjoin htask =>
      have hempty : op.isEmptyWrite = true := by simpa [keeps] using hkeeps
      rcases hquiet hempty with htaken | hrunning
      · exact absurd (hjoin.symm.trans htaken) Bool.false_ne_true
      · exact absurd htask (hrunning _)
  | pollPending op hcall =>
      have hempty : op.isEmptyWrite = true := by simpa [keeps] using hkeeps
      simp [withoutEmpty, withCalls, hcall, hempty]
  | resume op hcall =>
      have hempty : op.isEmptyWrite = true := by simpa [keeps, hcall] using hkeeps
      have hsame := pollInner_of_refused hempty (hquiet op hcall hempty)
      have hcall' : s.call.filter (fun op => !op.isEmptyWrite) = none := by
        simp [hcall, Option.filter, hempty]
      simp only [Client.resume, hsame, withoutEmpty, withCalls, report,
        otherCalls_empty s.log hempty, hcall', Option.filter_none]
  | _ => cases hkeeps

end Client

namespace Server

variable {env : ServerEnv} {s t : Server} {e : ServerEvent} {r : ReqId} {R R' : Call}

/-- A write request counts what has come in of its body, which is not empty when it is answered
`NO_CONTENT`; a request that reads is a `GET`. -/
def Counts (R : Call) : Prop :=
  match R.handler with
  | .nextChunk total => total = R.chunks.flatten.length
  | .sendWrite total data | .awaitWrite total data | .wrote total data =>
    total + data.length = R.chunks.flatten.length
  | .sendRead | .awaitRead | .readReply _ => R.method = .get
  | .done (.ok resp) => resp = noContent → R.chunks.flatten ≠ []
  | .done (.error _) | .cancelled => True

theorem counts_of_reachable (hs : (machine env).Reachable s) (hr : s.calls r = some R) :
    Counts R := by
  refine call_invariant (I := Counts) ?_ ?_ hs hr
  · intro r req R harrived
    cases harrived with
    | refused => trivial
    | started x a =>
        by_cases hget : req.method = .get
        · simp [Counts, startHandler, hget]
        · simp [Counts, startHandler, hget]
  · intro R R' h hmove
    cases hmove with
    | stay => exact h
    | body total b hh =>
        unfold Counts at h
        rw [hh] at h
        have htotal : total = R.chunks.flatten.length := h
        cases b with
        | chunk data =>
            simp only [Counts, bodyStep, List.flatten_append, List.length_append,
              List.flatten_singleton]
            omega
        | finished =>
            by_cases hzero : total = 0
            · simp [Counts, bodyStep, hzero]
            · simp only [Counts, bodyStep, hzero, if_false]
              rintro _ hnil
              exact hzero (htotal.trans (congrArg List.length hnil))
        | error message => trivial
    | granted => exact fun heq => absurd heq (by decide)
    | askWrite total data hh | askRead hh | wrote total data hh =>
        unfold Counts at h
        rw [hh] at h
        exact h
    | reply b =>
        unfold Counts at h ⊢
        cases hh : R.handler <;> simp only [hh, onReply] at h ⊢ <;> exact h
    | cancel | askFailed | refused => trivial

theorem error_of_replyTo {q : ReqId} {b : Bool} {err : HttpError} (hcalls : t.calls = s.calls)
    (hR : s.calls r = some R) (hR' : (t.replyTo q b).calls r = some R')
    (herr : R'.handler = .done (.error err)) : R.handler = .done (.error err) := by
  rw [replyTo_calls, hcalls] at hR'
  split at hR'
  next hrq =>
      subst hrq
      obtain ⟨Q, hQ, rfl⟩ := Option.map_eq_some_iff.mp hR'
      obtain rfl : R = Q := Option.some.inj (hR.symm.trans hQ)
      cases hh : R.handler <;> simp_all [onReply]
  next =>
      obtain rfl : R = R' := Option.some.inj (hR.symm.trans hR')
      exact herr

/-- What makes the server answer a write request with an error. -/
theorem Step.error_cause (h : Step env s e t) (hcounts : Counts R) (hput : R.method ≠ .get)
    (hR : s.calls r = some R) (hR' : t.calls r = some R') {err : HttpError}
    (herr : R'.handler = .done (.error err)) :
    R.handler = .done (.error err) ∨ (∃ message, e = .body r (.error message)) ∨
      (e = .body r .finished ∧ R.chunks.flatten = []) ∨
      ∃ a A, R.session = some a ∧ s.actors a = some A ∧ A.isAlive = false := by
  have hsame : R = R' → R.handler = .done (.error err) := by
    rintro rfl
    exact herr
  have hnew : ∀ {q Q}, s.calls q = none → update s.calls q (some Q) r = some R' → R = R' := by
    intro q Q hq hupdate
    have hne : r ≠ q := by
      rintro rfl
      exact absurd (hq.symm.trans hR) (by simp)
    rw [Function.update_of_ne hne] at hupdate
    exact Option.some.inj (hR.symm.trans hupdate)
  cases h with
  | reject x e hr | join x b hr | create x hr | replace x b hr => exact .inl (hsame (hnew hr hR'))
  | cancel Q hq | askWrite Q a A total data hq | askRead Q a A hq | replyWrote Q total data hq
  | replyGranted Q hq =>
      rcases cases_update hq hR hR' with ⟨rfl, rfl, rfl⟩ | ⟨_, rfl⟩
      · cases herr
      · exact .inl herr
  | askFailed Q a A err' hq hQ ha he hdead =>
      rcases cases_update hq hR hR' with ⟨rfl, rfl, rfl⟩ | ⟨_, rfl⟩
      · exact .inr (.inr (.inr ⟨a, A, hQ, ha, hdead⟩))
      · exact .inl herr
  | replyRefused Q hq hh =>
      rcases cases_update hq hR hR' with ⟨rfl, rfl, rfl⟩ | ⟨_, rfl⟩
      · unfold Counts at hcounts
        rw [hh] at hcounts
        exact absurd hcounts hput
      · exact .inl herr
  | @body q b Q total hq hh =>
      rcases cases_update hq hR hR' with ⟨rfl, rfl, rfl⟩ | ⟨_, rfl⟩
      · cases b with
        | chunk data => cases herr
        | finished =>
            right; right; left
            unfold Counts at hcounts
            rw [hh] at hcounts
            have htotal : total = R.chunks.flatten.length := hcounts
            refine ⟨rfl, List.length_eq_zero_iff.mp ?_⟩
            by_contra hne
            have hpos : total ≠ 0 := fun hzero => hne (htotal.symm.trans hzero)
            simp [bodyStep, hpos] at herr
        | error message => exact .inr (.inl ⟨message, rfl⟩)
      · exact .inl herr
  | handleGranted | handleRefused | writeOk | writeErr =>
      refine .inl (error_of_replyTo ?_ hR hR' herr)
      rfl
  | dropAborts =>
      rw [dropAbortsStep_calls] at hR'
      exact .inl (hsame (Option.some.inj (hR.symm.trans hR')))
  | _ => exact .inl (hsame (Option.some.inj (hR.symm.trans hR')))

end Server

namespace Tunnel

variable {env : TunnelEnv} {s t : Tunnel} {e : TunnelEvent} {r : ReqId} {es : List TunnelEvent}

def keeps (s : Tunnel) : TunnelEvent → Bool
  | .client e => s.client.keeps e
  | _ => true

def QuietEmpty (s : Tunnel) : TunnelEvent → Prop
  | .client e => s.client.QuietEmpty e
  | _ => True

def withoutEmpty (s : Tunnel) : Tunnel := { s with client := s.client.withoutEmpty }

theorem withoutEmpty_afterClient (s : Tunnel) (c : Client) (e : ClientEvent) :
    (s.afterClient env c e).withoutEmpty =
      s.withoutEmpty.afterClient env c.withoutEmpty e := by
  have hout : c.withoutEmpty.outgoing = c.outgoing := rfl
  have hget : s.withoutEmpty.get = s.get := rfl
  unfold afterClient
  split
  · split <;> rfl
  · simp only [hout]
    split
    · split <;> rfl
    · rfl
  · simp only [hget]
    split <;> rfl
  · rfl

theorem step_withoutEmpty (hkeeps : s.keeps e = true) (hstep : s.step env e = some t) :
    s.withoutEmpty.step env e = some t.withoutEmpty := by
  cases Step.of_step hstep with
  | client e c hreports hc =>
      have hreports' : s.withoutEmpty.reports e = true := hreports
      have hc' := Client.step_withoutEmpty hkeeps hc
      simp only [Tunnel.step, hreports', if_true]
      rw [withoutEmpty_afterClient]
      exact Option.map_eq_some_iff.mpr ⟨_, hc', rfl⟩
  | server e u halone hu =>
      have halone' : s.withoutEmpty.alone env e = true := halone
      simp only [Tunnel.step, halone', if_true]
      exact Option.map_eq_some_iff.mpr ⟨u, hu, rfl⟩
  | getArrives q fresh req body u hget hu =>
      have hget' : s.withoutEmpty.get = .sent req body := hget
      simp only [Tunnel.step, hget']
      exact Option.map_eq_some_iff.mpr ⟨u, hu, rfl⟩
  | putArrives q fresh req body u hput hu =>
      have hput' : s.withoutEmpty.put = .sent req body := hput
      simp only [Tunnel.step, hput']
      exact Option.map_eq_some_iff.mpr ⟨u, hu, rfl⟩
  | putBody q e u hput hdelivers hu =>
      have hput' : s.withoutEmpty.put = .arrived q := hput
      have hdelivers' : s.withoutEmpty.delivers q e = true := hdelivers
      simp only [Tunnel.step, hput', hdelivers', if_true]
      refine Option.map_eq_some_iff.mpr ⟨u, hu, ?_⟩
      rw [← hput]
      rfl

theorem withoutEmpty_of_quiet (hkeeps : s.keeps e = false) (hquiet : s.QuietEmpty e)
    (hstep : s.step env e = some t) : t.withoutEmpty = s.withoutEmpty := by
  cases e with
  | client e =>
      simp only [Tunnel.step, Option.ite_none_right_eq_some, Option.map_eq_some_iff] at hstep
      obtain ⟨_, c, hc, rfl⟩ := hstep
      have hsame := Client.withoutEmpty_of_quiet hkeeps hquiet hc
      rw [withoutEmpty_afterClient, hsame]
      cases e with
      | poll op | resume => rfl
      | _ => cases hkeeps
  | _ => cases hkeeps

/-- The client has accepted no zero-length write. -/
theorem accepted_ne_nil (h : (machine env).Run QuietEmpty es s) : [] ∉ s.client.accepted := by
  refine h.invariant (I := fun s => [] ∉ s.client.accepted) ?_ ?_
  · simp [machine, init, Client.init]
  intro s e t _ hnone hquiet hstep
  cases Step.of_step hstep with
  | client e c _ hc =>
      rw [(afterClient_server env s c e).2.1]
      cases Client.Step.of_step hc with
      | resume op hcall =>
          change [] ∉ (s.client.pollInner op).1.accepted
          cases hempty : op.isEmptyWrite with
          | true =>
              rw [Client.pollInner_of_refused hempty (hquiet op hcall hempty)]
              exact hnone
          | false =>
              rcases Client.pollInner_outbox s.client op with ⟨buf, hbuf, _, heq⟩ | ⟨_, hacc, _⟩
              · have hne : buf ≠ [] := by
                  rintro rfl
                  simp [Op.isEmptyWrite, hbuf] at hempty
                rw [heq]
                simpa [hne.symm] using hnone
              · rwa [hacc]
      | io e c _ hio =>
          rw [hio.calls.2.2.2]
          exact hnone
      | _ => exact hnone
  | _ => exact hnone

/-- A write request has some body. -/
theorem sent_ne_nil (h : (machine env).Run QuietEmpty es s) (hr : r ∈ s.puts) :
    s.sent r ≠ [] := by
  intro hempty
  have hs := h.reachable
  have houtbox := Client.outbox_of_reachable (client_reachable hs)
  have hmem : s.sent r ∈ s.puts.map s.sent ++ s.put.body :=
    List.mem_append_left _ (List.mem_map_of_mem hr)
  have htaken : s.sent r ∈ s.client.taken := (writeWire_of_reachable hs).part.subset hmem
  refine accepted_ne_nil h ?_
  rw [houtbox.accepted, ← hempty]
  exact List.mem_append_left _ htaken

/-- No live session has answered a write request of the client with an error. -/
def NoErrors (s : Tunnel) : Prop :=
  ∀ r ∈ s.puts, ∀ R a A, s.server.calls r = some R → R.session = some a →
    s.server.actors a = some A → A.isAlive → ∀ err, R.handler ≠ .done (.error err)

/-- What the server does by itself, with the client's last write request, or with a request
that arrives. -/
theorem NoErrors.server {d : ServerEvent} {u : Server} (h : NoErrors s)
    (hs : (machine env).Reachable s) (hstep : Server.step env.server s.server d = some u)
    (hr : r ∈ s.puts) (hbody : ∀ message, d ≠ .body r (.error message))
    (hwhole : d = .body r .finished → s.uploaded r ≠ []) {R : Call} {a : ActorRef} {B : Session}
    (hR : u.calls r = some R) (hsession : R.session = some a) (hB : u.actors a = some B)
    (halive : B.isAlive) (err : HttpError) : R.handler ≠ .done (.error err) := by
  intro herr
  have hreach := server_reachable hs
  obtain ⟨R₀, hR₀, _, hput⟩ := (named_of_reachable hs).put hr
  have hcases := Server.Step.of_step hstep
  obtain ⟨R', hR', hgrows⟩ := hcases.call_grows hR₀
  obtain rfl : R' = R := Option.some.inj (hR'.symm.trans hR)
  have hsession₀ : R₀.session = some a := hgrows.session.symm.trans hsession
  obtain ⟨A, hA, _⟩ := (Server.coherent_of_reachable hreach).call hR₀ hsession₀
  have halive' : A.isAlive := (Server.move_of_step hA hstep hB).alive halive
  rcases hcases.error_cause (Server.counts_of_reachable hreach hR₀) hput hR₀ hR herr with
    hold | ⟨message, hd⟩ | ⟨hd, hempty⟩ | ⟨b, B', hb, hB', hdead⟩
  · exact h r hr R₀ a A hR₀ hsession₀ hA halive' err hold
  · exact hbody message hd
  · exact hwhole hd ((uploaded_eq hR₀).trans hempty)
  · obtain rfl : a = b := Option.some.inj (hsession₀.symm.trans hb)
    obtain rfl : A = B' := Option.some.inj (hA.symm.trans hB')
    exact absurd (hdead.symm.trans halive') Bool.false_ne_true

theorem noErrors_of_run (h : (machine env).Run QuietEmpty es s)
    (hbodies : ∀ message, .putBody (.error message) ∉ es) : NoErrors s := by
  induction h with
  | nil =>
      intro r hr
      simp [machine, init] at hr
  | @snoc es s t e hrun hquiet hstep ih =>
      have hs := hrun.reachable
      have hold : NoErrors s := ih fun message hmem =>
        hbodies message (List.mem_append_left _ hmem)
      intro r hr R a A hR hsession hA halive err
      cases Step.of_step hstep with
      | client e c =>
          obtain ⟨hserver, _, _, hputs, _⟩ := afterClient_server env s c e
          rw [hserver] at hR hA
          exact hold r (hputs ▸ hr) R a A hR hsession hA halive err
      | server d u halone hd =>
          have hbody : ∀ b, d ≠ .body r b := by
            rintro b rfl
            simp only [alone, decide_eq_true_eq] at halone
            exact halone hr
          exact hold.server hs hd hr (fun message => hbody _) (fun hfin => absurd hfin (hbody _))
            hR hsession hA halive err
      | getArrives q fresh req body u _ hd =>
          exact hold.server hs hd hr (by simp) (by simp) hR hsession hA halive err
      | putArrives q fresh req body u hput hd =>
          rcases List.mem_append.mp hr with hr | hr
          · exact hold.server hs hd hr (by simp) (by simp) hR hsession hA halive err
          · obtain rfl := List.mem_singleton.mp hr
            obtain ⟨R', hR', harrived⟩ := (Server.Step.of_step hd).arrives.2
            obtain rfl : R' = R := Option.some.inj (hR'.symm.trans hR)
            cases harrived with
            | refused => cases hsession
            | started x b =>
                by_cases hget : req.method = .get <;> simp [Server.startHandler, hget]
      | putBody q b u hput hdelivers hd =>
          have hlast : ∀ b', .body q b = ServerEvent.body r b' → b = b' ∧ q = r := by
            intro b' heq
            injection heq with hq hb
            exact ⟨hb, hq⟩
          refine hold.server hs hd hr (fun message heq => ?_) (fun heq => ?_) hR hsession hA halive
            err
          · obtain ⟨rfl, _⟩ := hlast _ heq
            exact hbodies message (by simp)
          · obtain ⟨rfl, rfl⟩ := hlast _ heq
            have hall : s.uploaded q = s.sent q := of_decide_eq_true hdelivers
            rw [hall]
            exact sent_ne_nil hrun hr

/-- A write request without a body is never answered `NO_CONTENT`. -/
theorem empty_not_noContent (hs : (machine env).Reachable s) (hr : r ∈ s.puts)
    (hempty : s.sent r = []) {R : Call} (hR : s.server.calls r = some R) :
    R.handler ≠ .done (.ok Server.noContent) := by
  intro hdone
  have hcounts := Server.counts_of_reachable (server_reachable hs) hR
  have hall : s.uploaded r = s.sent r := (writeWire_of_reachable hs).finished hr hR hdone
  unfold Server.Counts at hcounts
  rw [hdone] at hcounts
  exact hcounts rfl ((uploaded_eq hR).symm.trans (hall.trans hempty))

/-- The zero-length writes of a run have done nothing: without them the server and the other
calls would have done the same, and, unless the network has broken a body off, no write
request was answered with an error by a live session. -/
structure NoOps (env : TunnelEnv) (es : List TunnelEvent) (s : Tunnel) : Prop where
  erased : ∃ s', (machine env).exec init ((machine env).erase keeps init es) = some s' ∧
    s'.server = s.server ∧ s'.client.log = Client.otherCalls s.client.log
  answered : (∀ message, .putBody (.error message) ∉ es) → NoErrors s

theorem noOps_of_run (h : (machine env).Run QuietEmpty es s) : NoOps env es s := by
  constructor
  · have hkeep : ∀ u e v (u' : Tunnel), (machine env).Reachable u → u' = u.withoutEmpty →
        u.QuietEmpty e → u.keeps e = true → u.step env e = some v →
        ∃ v', u'.step env e = some v' ∧ v' = v.withoutEmpty := by
      rintro u e v _ _ rfl _ hkeeps hstep
      exact ⟨_, step_withoutEmpty hkeeps hstep, rfl⟩
    have hdrop : ∀ u e v (u' : Tunnel), (machine env).Reachable u → u' = u.withoutEmpty →
        u.QuietEmpty e → u.keeps e = false → u.step env e = some v → u' = v.withoutEmpty := by
      rintro u e v _ _ rfl hquiet hkeeps hstep
      exact (withoutEmpty_of_quiet hkeeps hquiet hstep).symm
    obtain ⟨s', hs', rfl⟩ := h.erase (R := fun s s' => s' = s.withoutEmpty) rfl hkeep hdrop
    exact ⟨_, hs', rfl, rfl⟩
  · exact noErrors_of_run h

/-- A write of one byte. -/
def writeOne : List TunnelEvent := [.client (.poll (.write [1])), .client .resume]

/-- A zero-length write while the slot is taken. -/
def emptyRefused : List TunnelEvent :=
  writeOne ++ [.client (.poll (.writeVectored [[], []])), .client .resume] ++
    [.client (.io (.recv 0)), .putArrives 0 0, .server (.actor 0 .start),
      .server (.actor 0 (.connect 8 8)), .putBody (.chunk [1]), .server (.ask 0),
      .server (.handle 0), .server (.actor 0 (.write 1))]

/-- A zero-length write, the answer to its request, and a write of one byte. -/
def emptyAccepted : List TunnelEvent :=
  [.client (.poll (.write [])), .client .resume, .client (.io (.recv 0)), .putArrives 0 0,
    .server (.actor 0 .start), .server (.actor 0 (.connect 8 8)), .putBody .finished,
    .client (.io (.writeResponse .badRequest)), .client .tearDown, .client .publish,
    .client (.poll (.write [1]))]

end Tunnel
end Fronting
