import Fronting.ClientErrors

/-!
# Programs that own a connection

An `Owner` polls a `ProxyConnection`, sees what its polls return, and drops it in the end. It
runs over the client alone, or over a machine that the client is a part of.
-/

namespace Fronting

/-- What a program asks of its connection, what it makes of the answers, when it has ended,
and what it does elsewhere. -/
structure Owner (σ ι : Type*) where
  init : σ
  asks : σ → Op → Bool
  sees : σ → Op × PollResult → σ
  ended : σ → Bool
  own : σ → ι → Option σ

namespace Owner

variable {σ ι τ δ : Type*} {P : Owner σ ι} {N : Machine τ δ} {conn : τ → Client}
  {call : δ → Option ClientEvent} {env : ClientEnv}

/-- The program makes the polls, and drops the connection when it has ended. -/
def allows (P : Owner σ ι) (p : σ) : ClientEvent → Bool
  | .poll op => P.asks p op
  | .drop => P.ended p
  | _ => true

/-- The program sees the polls that have returned in a step. -/
def observe (P : Owner σ ι) (p : σ) (c d : Client) : σ :=
  (d.log.drop c.log.length).foldl P.sees p

/-- The program over a machine with the connection `conn`, whose steps `call` takes for those
of the connection. It does nothing else in the middle of a poll. -/
def machine (P : Owner σ ι) (N : Machine τ δ) (conn : τ → Client)
    (call : δ → Option ClientEvent) : Machine (τ × σ) (δ ⊕ ι) where
  init := (N.init, P.init)
  step s := Sum.elim
    (fun d =>
      if (call d).all (P.allows s.2) then
        (N.step s.1 d).map fun t => (t, P.observe s.2 (conn s.1) (conn t))
      else none)
    fun i => if (conn s.1).call = none then (P.own s.2 i).map (s.1, ·) else none

/-- The program and its connection. -/
def alone (P : Owner σ ι) (env : ClientEnv) : Machine (Client × σ) (ClientEvent ⊕ ι) :=
  P.machine (Client.machine env) id some

/-- The branches of `step`. -/
inductive Step (P : Owner σ ι) (N : Machine τ δ) (conn : τ → Client)
    (call : δ → Option ClientEvent) (s : τ × σ) : δ ⊕ ι → τ × σ → Prop
  | conn (d : δ) (t : τ) (hallows : (call d).all (P.allows s.2) = true)
      (hstep : N.step s.1 d = some t) :
      Step P N conn call s (.inl d) (t, P.observe s.2 (conn s.1) (conn t))
  | own (i : ι) (q : σ) (hcall : (conn s.1).call = none) (hown : P.own s.2 i = some q) :
      Step P N conn call s (.inr i) (s.1, q)

theorem Step.of_step {s t : τ × σ} {e : δ ⊕ ι} (h : (P.machine N conn call).step s e = some t) :
    Step P N conn call s e t := by
  cases e with
  | inl d =>
      simp only [machine, Sum.elim_inl, Option.ite_none_right_eq_some, Option.map_eq_some_iff] at h
      obtain ⟨hallows, t, ht, rfl⟩ := h
      exact .conn d t hallows ht
  | inr i =>
      simp only [machine, Sum.elim_inr, Option.ite_none_right_eq_some, Option.map_eq_some_iff] at h
      obtain ⟨hcall, q, hq, rfl⟩ := h
      exact .own i q hcall hq

theorem reachable_fst {s : τ × σ} (hs : (P.machine N conn call).Reachable s) :
    N.Reachable s.1 := by
  refine hs.component Prod.fst rfl fun s e t ht => ?_
  cases Step.of_step ht with
  | conn d t _ hd => exact .inr ⟨d, hd⟩
  | own => exact .inl rfl

theorem observe_of_log {p : σ} {c d : Client} (h : d.log = c.log) : P.observe p c d = p := by
  simp [observe, h]

theorem observe_concat {p : σ} {c d : Client} {x : Op × PollResult} (h : d.log = c.log ++ [x]) :
    P.observe p c d = P.sees p x := by
  simp [observe, h]

/-- To the program and its connection it is as if they were alone. -/
theorem reachable_alone (hinit : conn N.init = Client.init)
    (hstep : ∀ s d t, N.step s d = some t →
      (∃ e, call d = some e ∧ Client.step env (conn s) e = some (conn t)) ∨ conn t = conn s)
    {s : τ × σ} (hs : (P.machine N conn call).Reachable s) :
    (P.alone env).Reachable (conn s.1, s.2) := by
  refine hs.component (N := P.alone env) (fun s => (conn s.1, s.2)) (congrArg (·, P.init) hinit)
    fun s e t ht => ?_
  cases Step.of_step ht with
  | conn d t hallows hd =>
      rcases hstep _ _ _ hd with ⟨e, hcall, hc⟩ | hsame
      · refine .inr ⟨.inl e, ?_⟩
        have hallows' : P.allows s.2 e = true := by simpa [hcall] using hallows
        simp [alone, machine, Client.machine, hallows', hc]
      · left
        dsimp only
        rw [observe_of_log (congrArg Client.log hsame), hsame]
  | own i q hcall hown =>
      refine .inr ⟨.inr i, ?_⟩
      simp [alone, machine, hcall, hown]

/-- A program that ends with the first error or panic of a poll, and does nothing after. -/
structure Careful (P : Owner σ ι) : Prop where
  asks : ∀ p op, P.asks p op = true → P.ended p = false
  error : ∀ p op e, P.ended (P.sees p (op, .error e)) = true
  unreachable : ∀ p op, P.ended (P.sees p (op, .unreachable)) = true
  own : ∀ p i, P.ended p = true → P.own p i = none

/-- What a connection owes to a careful owner. -/
structure Owned (P : Owner σ ι) (c : Client) (p : σ) : Prop where
  dropped : c.dropped = true → P.ended p = true
  joined : c.joinTaken = true → P.ended p = true
  failed : c.log.any failure = true → P.ended p = true
  call : ∀ op, c.call = some op → P.asks p op = true
  mapErr : c.mapErr = false → P.ended p = true

theorem Owned.init : Owned P Client.init P.init := by
  constructor
  · intro hd
    cases hd
  · intro hj
    cases hj
  · intro hf
    cases hf
  · intro op hop
    cases hop
  · intro hm
    cases hm

/-- Before the program has ended nothing has gone wrong. -/
theorem Owned.intact {c : Client} {p : σ} (h : Owned P c p) (hp : P.ended p = false) :
    c.dropped = false ∧ c.joinTaken = false ∧ c.log.any failure = false := by
  simp only [← Bool.not_eq_true]
  refine ⟨fun hd => ?_, fun hj => ?_, fun hf => ?_⟩
  · exact Bool.noConfusion (hp.symm.trans (h.dropped hd))
  · exact Bool.noConfusion (hp.symm.trans (h.joined hj))
  · exact Bool.noConfusion (hp.symm.trans (h.failed hf))

/-- Nor has a write met a closed request channel. -/
theorem Owned.first {c : Client} {p : σ} (h : Owned P c p) (hp : P.ended p = false) :
    c.mapErr = true := by
  rw [← Bool.not_eq_false]
  exact fun hm => Bool.noConfusion (hp.symm.trans (h.mapErr hm))

/-- A step that ends no poll. -/
theorem Owned.frame {c d : Client} {p : σ} (h : Owned P c p) (hlog : d.log = c.log)
    (hjoin : d.joinTaken = c.joinTaken) (hmap : d.mapErr = c.mapErr)
    (hdropped : d.dropped = true → P.ended p = true)
    (hcall : ∀ op, d.call = some op → P.asks p op = true) :
    Owned P d (P.observe p c d) := by
  rw [observe_of_log hlog]
  exact ⟨hdropped, hjoin ▸ h.joined, hlog ▸ h.failed, hcall, hmap ▸ h.mapErr⟩

theorem Owned.of_ended {c : Client} {p : σ} (hcall : c.call = none) (hp : P.ended p = true) :
    Owned P c p := by
  refine ⟨fun _ => hp, fun _ => hp, fun _ => hp, fun op hop => ?_, fun _ => hp⟩
  rw [hcall] at hop
  cases hop

/-- Only a write that returns an error takes the closure of `sink_map_err`. -/
theorem pollInner_mapErr (c : Client) (op : Op) :
    (c.pollInner op).1.mapErr = c.mapErr ∨ (c.pollInner op).2 = .error .closed := by
  have hwrite : ∀ buf, (c.pollWrite buf).1.mapErr = c.mapErr ∨
      (c.pollWrite buf).2 = .error .closed := by
    intro buf
    rcases Client.pollWrite_cases c buf with ⟨_, _, heq⟩ | ⟨_, _, heq⟩ | ⟨_, _, heq⟩ |
      ⟨_, _, heq⟩ <;> simp [heq]
  cases op with
  | read room =>
      left
      simp only [Client.pollInner, Client.pollRead]
      split
      · rfl
      · split <;> rfl
  | write buf => exact hwrite buf
  | writeVectored bufs => exact hwrite bufs.flatten
  | flush | shutdown => exact .inl rfl

theorem Owned.resume {c : Client} {p : σ} {op : Op} (hP : P.Careful) (h : Owned P c p)
    (hcall : c.call = some op) :
    Owned P (c.resume op) (P.sees p (op, (c.pollInner op).2)) := by
  have hp := hP.asks p op (h.call op hcall)
  have hfirst := h.first hp
  obtain ⟨hd, hj, hf⟩ := h.intact hp
  obtain ⟨_, _, _, _, _, _, _, hdropped⟩ := Client.pollInner_pumps c op
  have hjoin := (Client.pollInner_handle c op).1
  constructor
  · intro hd'
    exact Bool.noConfusion (hd.symm.trans (hdropped.symm.trans hd'))
  · intro hj'
    exact Bool.noConfusion (hj.symm.trans (hjoin.symm.trans hj'))
  · intro hf'
    rw [Client.resume_log, List.any_append, hf, Bool.false_or] at hf'
    cases hres : (c.pollInner op).2 with
    | error e => exact hP.error p op e
    | _ => simp [hres, failure] at hf'
  · intro _ hnone
    cases hnone
  · intro hm
    rcases pollInner_mapErr c op with hsame | hres
    · exact Bool.noConfusion (hfirst.symm.trans (hsame.symm.trans hm))
    · exact hres ▸ hP.error p op .closed

theorem owned_of_reachable (hP : P.Careful) {s : Client × σ} (hs : (P.alone env).Reachable s) :
    Owned P s.1 s.2 := by
  refine hs.invariant (I := fun s => Owned P s.1 s.2) Owned.init fun s e t _ h hstep => ?_
  cases Step.of_step hstep with
  | own i q hcall hown =>
      have hp : P.ended s.2 = false := by
        rw [← Bool.not_eq_true]
        intro hp
        cases hown.symm.trans (hP.own s.2 i hp)
      obtain ⟨hd, hj, hf⟩ := h.intact hp
      refine ⟨fun hd' => ?_, fun hj' => ?_, fun hf' => ?_, fun op hop => ?_, fun hm => ?_⟩
      · exact Bool.noConfusion (hd.symm.trans hd')
      · exact Bool.noConfusion (hj.symm.trans hj')
      · exact Bool.noConfusion (hf.symm.trans hf')
      · cases hcall.symm.trans hop
      · exact Bool.noConfusion ((h.first hp).symm.trans hm)
  | conn e d hallows hd =>
      change Owned P d (P.observe s.2 s.1 d)
      cases Client.Step.of_step hd with
      | pollTaken op _ _ hjoin =>
          have hasks : P.asks s.2 op = true := hallows
          exact Bool.noConfusion ((hP.asks s.2 op hasks).symm.trans (h.joined hjoin))
      | pollError op e =>
          rw [observe_concat rfl]
          exact .of_ended rfl (hP.error s.2 op (.task e))
      | pollOk op =>
          rw [observe_concat rfl]
          exact .of_ended rfl (hP.unreachable s.2 op)
      | pollPending op =>
          exact h.frame rfl rfl rfl h.dropped fun op' hop => Option.some.inj hop ▸ hallows
      | resume op hcall =>
          rw [observe_concat (Client.resume_log s.1 op)]
          exact h.resume hP hcall
      | drop hcall =>
          refine h.frame rfl rfl rfl (fun _ => hallows) fun op hop => ?_
          cases hcall.symm.trans hop
      | io e d _ hio =>
          obtain ⟨hcall, hjoin, hlog, _⟩ := hio.calls
          have hdropped : d.dropped = s.1.dropped := by cases hio <;> rfl
          exact h.frame hlog hjoin hio.mapErr (hdropped ▸ h.dropped) (hcall ▸ h.call)
      | _ => exact h.frame rfl rfl rfl h.dropped h.call

/-- What lasts while the I/O task goes on, or the connection is dropped. -/
structure Later (c d : Client) : Prop where
  log : d.log = c.log
  failed : c.task.failed = true → d.task.failed = true
  complete : ∀ r, c.task = .complete r → d.task = .complete r
  closing : Client.Closing c → Client.Closing d
  forwarded : c.task.failed = true ∨ Client.Closing c → d.forwarded = c.forwarded
  sender : d.dropped = false → c.dropped = false ∧ d.senderOpen = c.senderOpen

theorem Later.io {c d : Client} {e : IoEvent} (hrunning : c.task = .running)
    (hio : Client.Io env c e d) : Later c d := by
  have hnot : c.task.failed ≠ true := by simp [hrunning, Task.failed, Task.result]
  obtain ⟨_, _, hlog, _⟩ := hio.calls
  refine ⟨hlog, fun hf => absurd hf hnot, fun r hr => ?_, fun hc => hio.closing hc,
    fun h => hio.forwarded (h.resolve_left hnot), fun hd => ?_⟩
  · simp [hrunning] at hr
  · cases hio <;> exact ⟨hd, rfl⟩

/-- A step that touches the task and the connection's ends only. -/
theorem Later.of_task {c d : Client} (hlog : d.log = c.log) (hin : d.incoming = c.incoming)
    (hreceived : d.received = c.received)
    (hsender : d.dropped = false → c.dropped = false ∧ d.senderOpen = c.senderOpen)
    (hfailed : c.task.failed = true → d.task.failed = true)
    (hcomplete : ∀ r, c.task = .complete r → d.task = .complete r) : Later c d := by
  refine ⟨hlog, hfailed, hcomplete, fun hc => ?_, fun _ => ?_, hsender⟩
  · unfold Client.Closing
    rwa [hin]
  · simp [Client.forwarded, hreceived, hin]

/-- The owner's polls do not touch what `pump_incoming` has forwarded. -/
theorem resume_forwarded (c : Client) (op : Op) : (c.resume op).forwarded = c.forwarded := by
  obtain ⟨hin, _⟩ := Client.pollInner_pumps c op
  obtain ⟨hreceived, _⟩ := Client.pollInner_inbox c op
  simp only [Client.resume, Client.report, Client.forwarded, hin, hreceived]

theorem resume_failed (c : Client) (op : Op) : (c.resume op).task.failed = c.task.failed :=
  congrArg Task.failed (Client.pollInner_pumps c op).2.2.2.1

theorem resume_sender (c : Client) {op : Op} (hop : op ≠ .shutdown) :
    (c.resume op).senderOpen = c.senderOpen := by
  cases op with
  | read room =>
      simp only [Client.resume, Client.report, Client.pollInner, Client.pollRead]
      split
      · rfl
      · split <;> rfl
  | write buf | writeVectored bufs =>
      simp only [Client.resume, Client.report, Client.pollInner, Client.pollWrite]
      split
      · split <;> rfl
      · split <;> rfl
  | flush => rfl
  | shutdown => exact absurd rfl hop

/-- What a write of a careful owner has come to. -/
theorem Owned.write {c : Client} {p : σ} (h : Owned P c p) (hp : P.ended p = false)
    (buf : Bytes) : (c.pollWrite buf).2 = .pending ∨ (c.pollWrite buf).2 = .written buf.length ∨
      (c.pollWrite buf).2 = .error .closed ∧ (c.senderOpen = true → c.requestRx = false) := by
  rcases Client.pollWrite_cases c buf with ⟨_, _, heq⟩ | ⟨_, _, heq⟩ | ⟨hclosed, _, heq⟩ |
    ⟨_, hagain, _⟩
  · exact .inl (by rw [heq])
  · exact .inr (.inl (by rw [heq]))
  · refine .inr (.inr ⟨by rw [heq], fun hsender => ?_⟩)
    rw [← Bool.not_eq_true]
    exact fun hrx => hclosed ⟨hsender, hrx⟩
  · exact Bool.noConfusion ((h.first hp).symm.trans hagain)

/-- What a read with room has come to. -/
theorem pollRead_cases (c : Client) {room : Nat} (hroom : 0 < room) :
    (c.pollRead room).2 = .pending ∨
      (c.pollRead room).2 = .filled [] ∧ Client.Drained c.chunk c.responses ∧
        c.responseTx = false ∨
      (∃ b bs, (c.pollRead room).2 = .filled (b :: bs) ∧ (b :: bs).length ≤ room) ∨
      ∃ message, (c.pollRead room).2 = .error (.body message) := by
  have hne : room ≠ 0 := Nat.pos_iff_ne_zero.mp hroom
  by_cases hdrained : Client.Drained c.chunk c.responses
  · cases htx : c.responseTx <;>
      simp [Client.pollRead, hne, Client.fillBuf_of_drained hdrained, htx, hdrained]
  · rcases Client.fillBuf_of_not_drained c.responseTx hdrained with
      ⟨bytes, rest, heq, hbytes, _⟩ | ⟨message, rest, heq, _⟩
    · refine .inr (.inr (.inl ?_))
      obtain ⟨b, bs, hcons⟩ := List.ne_nil_iff_exists_cons.mp
        (mt List.take_eq_nil_iff.mp (not_or.mpr ⟨hne, hbytes⟩))
      have hlength : (b :: bs).length ≤ room := hcons ▸ List.length_take_le room bytes
      exact ⟨b, bs, by simp [Client.pollRead, hne, heq, hcons], hlength⟩
    · exact .inr (.inr (.inr ⟨message, by simp [Client.pollRead, hne, heq]⟩))

/-- The owner is at most two chunks ahead of the server. -/
theorem accepted_ahead {c : Client} (hc : (Client.machine env).Reachable c) :
    ∃ rest, acceptedIn c.log = c.acked ++ rest ∧ rest.length ≤ 2 := by
  have houtbox := Client.outbox_of_reachable hc
  obtain ⟨chunks, htaken, hle⟩ := houtbox.unanswered
  refine ⟨chunks ++ c.slot.toList, ?_, ?_⟩
  · rw [← houtbox.log, houtbox.accepted, htaken, List.append_assoc]
  · have hslot : c.slot.toList.length ≤ 1 := by cases c.slot <;> simp
    rw [List.length_append]
    omega

section Ends

variable {c : Client} {p : σ} (hc : (Client.machine env).Reachable c) (h : Owned P c p)
  (hp : P.ended p = false)
include hc h hp

/-- Before its owner has shut a connection down, only a failure ends its request channel. -/
theorem failed_of_requestRx (hsender : c.senderOpen = true) (hrx : c.requestRx = false) :
    c.task.failed = true := by
  have hdone : c.outgoing = .done → c.task.failed = true := fun hout =>
    (Client.outgoing_done hc hout).resolve_right fun hclosed =>
      Bool.noConfusion (hsender.symm.trans hclosed.1)
  by_cases hout : c.outgoing = .done
  · exact hdone hout
  · have hheld : c.task.holdsFuture = false := by simpa [Client.requestRx, hout] using hrx
    cases htask : c.task with
    | running | returned r => simp [htask, Task.holdsFuture] at hheld
    | aborted =>
        have haborted := (Client.ending_of_reachable hc).aborted htask
        exact Bool.noConfusion ((h.intact hp).1.symm.trans haborted)
    | tornDown r | complete r =>
        cases r with
        | error e => rfl
        | ok =>
            have hjoined := (Client.ending_of_reachable hc).joined (by rw [htask]; rfl)
            simp only [Client.joined, Bool.and_eq_true, decide_eq_true_eq] at hjoined
            rw [← htask]
            exact hdone hjoined.1.2

/-- The end of a response is a failure, after all that had been forwarded before it. -/
theorem failed_of_endOfStream (hdrained : Client.Drained c.chunk c.responses)
    (htx : c.responseTx = false) : c.task.failed = true ∧ readIn c.log = c.forwarded := by
  obtain ⟨hd, _, hnofail⟩ := h.intact hp
  have hinbox := Client.inbox_of_reachable hc
  have hunread : c.unread = [] := by
    rw [Client.unread, hdrained.1, List.nil_append, queued, List.flatMap_eq_nil_iff]
    intro item hitem
    rw [hdrained.2 item hitem]
  constructor
  · have hended := (Client.ending_of_reachable hc).failed_of_closed hd hdrained htx
    exact hended.resolve_right (ne_true_of_eq_false hnofail)
  · rw [hinbox.forwarded hd, hunread, List.append_nil, hinbox.log]

end Ends

/-- A body's error is read after all that had been forwarded. -/
theorem closing_of_bodyError {c : Client} (hc : (Client.machine env).Reachable c) {room : Nat}
    {e : PollError} (hcall : c.call = some (.read room))
    (hres : (c.pollInner (.read room)).2 = .error e) :
    Client.Closing (c.resume (.read room)) ∧
      readIn c.log = (c.resume (.read room)).forwarded := by
  obtain ⟨hin, _⟩ := Client.pollInner_pumps c (.read room)
  obtain ⟨message, _, _, hsuffix⟩ := Client.pollRead_error hres
  constructor
  · have hclosing := (Client.errorLast_of_reachable hc).closing message
      (hsuffix.subset (List.mem_cons_self ..))
    exact hclosing.imp hin.trans hin.trans
  · rw [resume_forwarded]
    exact Client.forwarded_of_pollRead_error hc hcall hres

/-- What holds of a careful owner and its connection: the steps of the connection keep it, and
so does what is made of each poll, which ends in `check_err` or gets past it. -/
theorem invariant_of_reachable (hP : P.Careful) {I : Client → σ → Prop}
    (hinit : I Client.init P.init) (hlater : ∀ c d p, I c p → Later c d → I d p)
    (herror : ∀ c p op e, I c p → P.asks p op = true → c.task = .complete (.error e) →
      I ({ c with joinTaken := true }.report op (.error (.task e)))
        (P.sees p (op, .error (.task e))))
    (hpanic : ∀ c p op, (Client.machine env).Reachable c → Owned P c p → I c p →
      P.asks p op = true → c.task = .complete (.ok ()) →
      I ({ c with joinTaken := true }.report op .unreachable) (P.sees p (op, .unreachable)))
    (hresume : ∀ c p op, (Client.machine env).Reachable c → Owned P c p → I c p →
      c.call = some op → I (c.resume op) (P.sees p (op, (c.pollInner op).2)))
    (hown : ∀ c p i q, Owned P c p → I c p → P.own p i = some q → I c q)
    {s : Client × σ} (hs : (P.alone env).Reachable s) : I s.1 s.2 := by
  refine hs.invariant (I := fun s => I s.1 s.2) hinit fun s e t hs h hstep => ?_
  have howned := owned_of_reachable hP hs
  have hclient : (Client.machine env).Reachable s.1 := reachable_fst hs
  have hquiet : ∀ d, Later s.1 d → I d (P.observe s.2 s.1 d) := by
    intro d hd
    rw [observe_of_log hd.log]
    exact hlater _ _ _ h hd
  cases Step.of_step hstep with
  | own i q hcall hq => exact hown s.1 s.2 i q howned h hq
  | conn e d hallows hd =>
      change I d (P.observe s.2 s.1 d)
      cases Client.Step.of_step hd with
      | pollTaken op _ _ hjoin =>
          have hasks : P.asks s.2 op = true := hallows
          exact Bool.noConfusion ((hP.asks s.2 op hasks).symm.trans (howned.joined hjoin))
      | pollError op e _ _ _ htask =>
          rw [observe_concat rfl]
          exact herror s.1 s.2 op e h hallows htask
      | pollOk op _ _ _ htask =>
          rw [observe_concat rfl]
          exact hpanic s.1 s.2 op hclient howned h hallows htask
      | pollPending => exact hquiet _ (.of_task rfl rfl rfl (fun hd => ⟨hd, rfl⟩) id fun _ => id)
      | resume op hcall =>
          rw [observe_concat (Client.resume_log s.1 op)]
          exact hresume s.1 s.2 op hclient howned h hcall
      | drop => exact hquiet _ (.of_task rfl rfl rfl (fun hd => (by cases hd)) id fun _ => id)
      | io e d htask hio => exact hquiet _ (.io htask hio)
      | abort _ htask =>
          refine hquiet _ (.of_task rfl rfl rfl (fun hd => ⟨hd, rfl⟩) (fun hf => ?_) fun r hr => ?_)
          · simp [htask, Task.failed, Task.result] at hf
          · simp [htask] at hr
      | tearDown r htask | publish r htask =>
          have hfailed := congrArg Task.failed htask
          refine hquiet _
            (.of_task rfl rfl rfl (fun hd => ⟨hd, rfl⟩) hfailed.symm.trans fun r hr => ?_)
          simp [htask] at hr

/-- What the program and the runtime do once the I/O task has ended. -/
def Ends : ClientEvent ⊕ ι → Prop
  | .inl (.poll _) | .inl .resume | .inl .tearDown | .inl .publish => True
  | _ => False

theorem leads_conn {c d : Client} {p q : σ} (e : ClientEvent)
    (he : Ends (.inl e : ClientEvent ⊕ ι)) (hallows : P.allows p e = true)
    (hd : Client.step env c e = some d) (hq : P.observe p c d = q) :
    (P.alone env).Leads Ends (c, p) (d, q) := by
  refine .of_step he ?_
  simp [alone, machine, Client.machine, hallows, hd, hq]

/-- The result of a failed task reaches the join handle. -/
theorem exists_published (P : Owner σ ι) (env : ClientEnv) {c : Client} (p : σ)
    (hfailed : c.task.failed = true) :
    ∃ d e, (P.alone env).Leads Ends (c, p) (d, p) ∧ d.task = .complete (.error e) := by
  have hpublish : ∀ c e, c.task = .tornDown (.error e) → ∃ d,
      (P.alone env).Leads Ends (c, p) (d, p) ∧ d.task = .complete (.error e) := by
    intro c e htask
    refine ⟨{ c with task := .complete (.error e) }, ?_, rfl⟩
    exact leads_conn .publish trivial rfl (by simp [Client.step, htask]) (observe_of_log rfl)
  cases htask : c.task with
  | running | aborted => simp [htask, Task.failed, Task.result] at hfailed
  | returned r =>
      cases r with
      | ok => simp [htask, Task.failed, Task.result] at hfailed
      | error e =>
          have htear : (P.alone env).Leads Ends (c, p)
              ({ c with task := .tornDown (.error e) }, p) :=
            leads_conn .tearDown trivial rfl (by simp [Client.step, htask]) (observe_of_log rfl)
          obtain ⟨d, hleads, hd⟩ := hpublish { c with task := .tornDown (.error e) } e rfl
          exact ⟨d, e, htear.trans hleads, hd⟩
  | tornDown r =>
      cases r with
      | ok => simp [htask, Task.failed, Task.result] at hfailed
      | error e =>
          obtain ⟨d, hleads, hd⟩ := hpublish c e htask
          exact ⟨d, e, hleads, hd⟩
  | complete r =>
      cases r with
      | ok => simp [htask, Task.failed, Task.result] at hfailed
      | error e => exact ⟨c, e, .refl _ _, htask⟩

/-- The next poll finds the result in `check_err`. -/
theorem ends_of_published (hP : P.Careful) {c : Client} {p : σ} {op : Op}
    (hs : (P.alone env).Reachable (c, p)) (hcall : c.call = none) {e : ClientError}
    (htask : c.task = .complete (.error e)) (hasks : P.asks p op = true) :
    ∃ t, (P.alone env).Leads Ends (c, p) t ∧ P.ended t.2 = true := by
  have howned : Owned P c p := owned_of_reachable hP hs
  obtain ⟨hd, hjoin, _⟩ := howned.intact (hP.asks p op hasks)
  have hpoll : Client.step env c (.poll op) = some (c.checkErr op) := by
    simp [Client.step, hcall, hd]
  have hlog : (c.checkErr op).log = c.log ++ [(op, .error (.task e))] := by
    simp [Client.checkErr, hjoin, htask, Client.report]
  have hleads : (P.alone env).Leads Ends (c, p) (c.checkErr op, P.sees p (op, .error (.task e))) :=
    leads_conn (.poll op) trivial hasks hpoll (observe_concat hlog)
  exact ⟨_, hleads, hP.error p op (.task e)⟩

/-- A program that polls until it has ended does not hang on a failed task. -/
theorem leads_ended (hP : P.Careful)
    (hpolls : ∀ p, P.ended p = false → ∃ op, P.asks p op = true) {s : Client × σ}
    (hs : (P.alone env).Reachable s) (hfailed : s.1.task.failed = true) :
    ∃ t, (P.alone env).Leads Ends s t ∧ P.ended t.2 = true := by
  obtain ⟨c, e, hleads, htask⟩ := exists_published P env s.2 hfailed
  have hc := hs.leads hleads
  have hidle : ∀ d q, (P.alone env).Leads Ends s (d, q) → d.call = none →
      d.task = .complete (.error e) → ∃ t, (P.alone env).Leads Ends s t ∧ P.ended t.2 = true := by
    intro d q hd hcall htask
    cases hq : P.ended q with
    | true => exact ⟨_, hd, hq⟩
    | false =>
        obtain ⟨op, hasks⟩ := hpolls q hq
        obtain ⟨t, ht, hended⟩ := ends_of_published hP (hs.leads hd) hcall htask hasks
        exact ⟨t, hd.trans ht, hended⟩
  cases hcall : c.call with
  | none => exact hidle c s.2 hleads hcall htask
  | some op =>
      have hresume : (P.alone env).Leads Ends (c, s.2)
          (c.resume op, P.sees s.2 (op, (c.pollInner op).2)) :=
        leads_conn .resume trivial rfl (by simp [Client.step, hcall])
          (observe_concat (Client.resume_log c op))
      have htask' : (c.resume op).task = .complete (.error e) :=
        (Client.pollInner_pumps c op).2.2.2.1.trans htask
      exact hidle _ _ (hleads.trans hresume) rfl htask'

end Owner
end Fronting
