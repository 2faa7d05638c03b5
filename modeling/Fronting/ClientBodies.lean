import Fronting.ClientErrors

/-!
# Response bodies

`Bodies` is the client with the bodies of the successful responses to its `GET`s: any
sequences of data frames and trailers, handed out one frame at a time. An empty data frame
makes `pump_incoming` leave the body, and the frames behind it are never asked for.
-/

namespace Fronting

/-- A frame of a body that ends without error. -/
inductive Frame
  | data (bytes : Bytes)
  | trailers
deriving DecidableEq

namespace Frame

def toBody : Frame → BodyFrame
  | .data bytes => .data bytes
  | .trailers => .trailers

def bytes : Frame → Bytes
  | .data bytes => bytes
  | .trailers => []

end Frame

def dataOf (frames : List Frame) : Bytes := frames.flatMap Frame.bytes

theorem dataOf_append (frames frames' : List Frame) :
    dataOf (frames ++ frames') = dataOf frames ++ dataOf frames' := List.flatMap_append

structure Bodies where
  client : Client
  /-- All frames of the responses so far. -/
  frames : List Frame
  /-- The frames of the last response that no `body.frame()` has resolved to. -/
  rest : List Frame
deriving DecidableEq

inductive BodiesEvent
  | response (status : StatusCode) (body : List Frame)
  | frame
  | client (e : ClientEvent)
deriving DecidableEq

/-- The response to a `GET` and its body come from `Bodies`. -/
def ClientEvent.isRead : ClientEvent → Bool
  | .io (.readResponse _) | .io (.readError _) | .io (.frame _) => true
  | _ => false

namespace Client

variable {env : ClientEnv} {s t : Client}

theorem Inbox.received (h : Inbox s) (hd : s.dropped = false) :
    s.forwarded ++ s.incoming.inHand = s.received := by
  rw [h.forwarded hd, unread, ← List.append_assoc]
  exact (h.kept hd).symm

theorem Io.kept {e : IoEvent} (hio : Io env s e t) (hread : (ClientEvent.io e).isRead = false) :
    t.received = s.received ∧ t.dropped = s.dropped ∧
      (t.incoming = .start ∨ t.incoming = .awaiting →
        s.incoming = .start ∨ s.incoming = .awaiting) := by
  cases hio with
  | readResponse | readStatus | readError | emptyFrame | dataFrame | trailers | bodyFinished
  | bodyError => cases hread
  | sendRead path req hin | noReadRequest path hin => exact ⟨rfl, rfl, fun _ => .inl hin⟩
  | push | flushed =>
      refine ⟨rfl, rfl, fun h => ?_⟩
      simp at h
  | pushDropped | flushedLast =>
      refine ⟨rfl, rfl, fun h => ?_⟩
      simp [settle] at h
  | _ => exact ⟨rfl, rfl, id⟩

/-- Data comes in and bodies are left only by what the server answers to a `GET`. -/
theorem step_kept {e : ClientEvent} (hstep : step env s e = some t) (hread : e.isRead = false) :
    t.received = s.received ∧ (t.dropped = false → s.dropped = false) ∧
      (t.incoming = .start ∨ t.incoming = .awaiting →
        s.incoming = .start ∨ s.incoming = .awaiting) := by
  cases Step.of_step hstep with
  | resume op hcall =>
      obtain ⟨hin, _, _, _, _, _, _, hd⟩ := pollInner_pumps s op
      obtain ⟨hreceived, _, _⟩ := pollInner_inbox s op
      refine ⟨hreceived, ?_, ?_⟩
      · rw [← hd]
        exact id
      · rw [← hin]
        exact id
  | io e t _ hio =>
      obtain ⟨hreceived, hd, hin⟩ := hio.kept hread
      exact ⟨hreceived, hd ▸ id, hin⟩
  | drop _ hd => exact ⟨rfl, fun _ => hd, id⟩
  | _ => exact ⟨rfl, id, id⟩

/-- What the owner does who only reads. -/
def Reader : ClientEvent → Prop
  | .poll (.read _) | .resume => True
  | _ => False

/-- The connection is there, and its I/O task runs. -/
structure Live (s : Client) : Prop where
  task : s.task = .running
  dropped : s.dropped = false

/-- What reads have to take out of the response channel. -/
def toRead (s : Client) : Nat := 2 * s.responses.length + if s.chunk = [] then 0 else 1

theorem pollRead_toRead (hne : s.responses ≠ []) :
    (s.pollRead (s.chunk.length + 1)).1.toRead < s.toRead := by
  cases hchunk : s.chunk with
  | cons b bs => simp [pollRead, toRead, fillBuf, hchunk]
  | nil =>
      obtain ⟨item, queue, hqueue⟩ := List.exists_cons_of_ne_nil hne
      have hshort : ∀ fill rest, fillBuf s.responseTx [] s.responses = (fill, rest) →
          rest.length ≤ queue.length := by
        intro fill rest heq
        rw [hqueue] at heq
        cases item with
        | error message =>
            simp only [fillBuf, Prod.mk.injEq] at heq
            exact heq.2 ▸ le_rfl
        | ok bytes =>
            have hsuffix := fillBuf_suffix s.responseTx bytes queue
            rw [show fillBuf s.responseTx bytes queue = (fill, rest) from heq] at hsuffix
            exact hsuffix.length_le
      have hlen : s.responses.length = queue.length + 1 := by simp [hqueue]
      cases heq : fillBuf s.responseTx [] s.responses with
      | mk fill rest =>
          have hrest := hshort fill rest heq
          cases fill with
          | pending | error message =>
              simp only [pollRead, toRead, hchunk, heq, List.length_nil, Nat.reduceAdd,
                Nat.succ_ne_self, if_false, if_true]
              omega
          | ready bytes =>
              simp only [pollRead, toRead, hchunk, heq, List.length_nil, Nat.reduceAdd,
                Nat.succ_ne_self, if_false, if_true]
              split <;> omega

/-- One read while the I/O task runs. -/
theorem leads_read (hs : (machine env).Reachable s) (hlive : Live s) (hcall : s.call = none)
    (room : Nat) :
    (machine env).Leads Reader s
      (({ s with call := some (.read room) } : Client).resume (.read room)) := by
  have hjoin : s.joinTaken = false := by
    by_contra hj
    obtain ⟨r, hr⟩ := (handle_of_reachable hs).taken (eq_true_of_ne_false hj)
    exact absurd (hlive.task.symm.trans hr) (by simp)
  have hpoll : (machine env).step s (.poll (.read room)) =
      some { s with call := some (.read room) } := by
    simp [machine, step, hcall, hlive.dropped, checkErr, hjoin, hlive.task]
  have hresume : (machine env).step { s with call := some (.read room) } .resume =
      some (({ s with call := some (.read room) } : Client).resume (.read room)) := rfl
  have hreader : Reader (.poll (.read room)) := trivial
  have hreader' : Reader .resume := trivial
  exact (Machine.Leads.of_step hreader hpoll).trans (.of_step hreader' hresume)

theorem Live.resume (h : Live s) (op : Op) : Live (s.resume op) := by
  obtain ⟨_, _, _, htask, _, _, _, hd⟩ := pollInner_pumps s op
  exact ⟨htask.trans h.task, hd.trans h.dropped⟩

theorem exists_read (hs : (machine env).Reachable s) (hlive : Live s) (hcall : s.call = none)
    (hne : s.responses ≠ []) :
    ∃ t, (machine env).Leads Reader s t ∧ Live t ∧ t.call = none ∧ t.incoming = s.incoming ∧
      t.toRead < s.toRead := by
  have hlive' : Live { s with call := some (.read (s.chunk.length + 1)) } :=
    ⟨hlive.task, hlive.dropped⟩
  obtain ⟨hin, _⟩ := pollInner_pumps { s with call := some (.read (s.chunk.length + 1)) }
    (.read (s.chunk.length + 1))
  refine ⟨_, leads_read hs hlive hcall (s.chunk.length + 1), hlive'.resume _, rfl, hin, ?_⟩
  exact pollRead_toRead (s := { s with call := some (.read (s.chunk.length + 1)) }) hne

/-- A reader that keeps receiving empties the response channel. -/
theorem exists_drained_of_idle (n : Nat) (hs : (machine env).Reachable s) (hlive : Live s)
    (hcall : s.call = none) (hn : s.toRead ≤ n) :
    ∃ t, (machine env).Leads Reader s t ∧ Live t ∧ t.incoming = s.incoming ∧
      t.responses = [] := by
  induction n generalizing s with
  | zero =>
      refine ⟨s, .refl Reader s, hlive, rfl, ?_⟩
      rw [← List.length_eq_zero_iff]
      unfold toRead at hn
      omega
  | succ n ih =>
      by_cases hne : s.responses = []
      · exact ⟨s, .refl Reader s, hlive, rfl, hne⟩
      · obtain ⟨t, hleads, ht, htcall, hin, hless⟩ := exists_read hs hlive hcall hne
        obtain ⟨u, hleads', hu, hin', hempty⟩ := ih (hs.leads hleads) ht htcall (by omega)
        exact ⟨u, hleads.trans hleads', hu, hin'.trans hin, hempty⟩

theorem exists_drained (hs : (machine env).Reachable s) (hlive : Live s) :
    ∃ t, (machine env).Leads Reader s t ∧ Live t ∧ t.incoming = s.incoming ∧
      t.responses = [] := by
  cases hcall : s.call with
  | none => exact exists_drained_of_idle s.toRead hs hlive hcall le_rfl
  | some op =>
      obtain ⟨hin, _⟩ := pollInner_pumps s op
      have hresume : (machine env).step s .resume = some (s.resume op) := by
        simp [machine, step, hcall]
      obtain ⟨t, hleads, ht, hin', hempty⟩ :=
        exists_drained_of_idle _ (hs.step hresume) (hlive.resume op) rfl le_rfl
      have hreader : Reader .resume := trivial
      exact ⟨t, (Machine.Leads.of_step hreader hresume).trans hleads, ht, hin'.trans hin, hempty⟩

end Client

namespace Bodies

def init : Bodies := ⟨Client.init, [], []⟩

def step (env : ClientEnv) (s : Bodies) : BodiesEvent → Option Bodies
  | .response status body =>
    if status.isSuccess then
      (s.client.step env (.io (.readResponse status))).map fun c =>
        ⟨c, s.frames ++ body, body⟩
    else none
  | .frame =>
    match s.rest with
    | [] => (s.client.step env (.io (.frame .finished))).map fun c => { s with client := c }
    | f :: fs => (s.client.step env (.io (.frame f.toBody))).map fun c => ⟨c, s.frames, fs⟩
  | .client e =>
    if e.isRead then none else (s.client.step env e).map fun c => { s with client := c }

def machine (env : ClientEnv) : Machine Bodies BodiesEvent := ⟨init, step env⟩

variable {env : ClientEnv} {s t : Bodies} {e : BodiesEvent}

/-- The branches of `step`. -/
inductive Step (env : ClientEnv) (s : Bodies) : BodiesEvent → Bodies → Prop
  | response (status : StatusCode) (body : List Frame) (c : Client)
      (hc : s.client.step env (.io (.readResponse status)) = some c)
      (hstatus : status.isSuccess = true) :
      Step env s (.response status body) ⟨c, s.frames ++ body, body⟩
  | finished (c : Client) (hc : s.client.step env (.io (.frame .finished)) = some c)
      (hrest : s.rest = []) : Step env s .frame { s with client := c }
  | frame (f : Frame) (fs : List Frame) (c : Client)
      (hc : s.client.step env (.io (.frame f.toBody)) = some c) (hrest : s.rest = f :: fs) :
      Step env s .frame ⟨c, s.frames, fs⟩
  | client (e : ClientEvent) (c : Client) (hc : s.client.step env e = some c)
      (hread : e.isRead = false) : Step env s (.client e) { s with client := c }

theorem Step.of_step (h : step env s e = some t) : Step env s e t := by
  cases e with
  | response status body =>
      simp only [Bodies.step, Option.ite_none_right_eq_some, Option.map_eq_some_iff] at h
      obtain ⟨hstatus, c, hc, rfl⟩ := h
      exact .response status body c hc hstatus
  | frame =>
      simp only [Bodies.step] at h
      split at h
      next hrest =>
          obtain ⟨c, hc, rfl⟩ := Option.map_eq_some_iff.mp h
          exact .finished c hc hrest
      next f fs hrest =>
          obtain ⟨c, hc, rfl⟩ := Option.map_eq_some_iff.mp h
          exact .frame f fs c hc hrest
  | client e =>
      simp only [Bodies.step, Option.ite_none_left_eq_some, Option.map_eq_some_iff,
        Bool.not_eq_true] at h
      obtain ⟨hread, c, hc, rfl⟩ := h
      exact .client e c hc hread

/-- The client of `Bodies` is a client. -/
theorem client_reachable (hs : (machine env).Reachable s) :
    (Client.machine env).Reachable s.client := by
  refine hs.component (N := Client.machine env) (fun s => s.client) rfl ?_
  intro s e t hstep
  cases Step.of_step hstep with
  | response status body c hc => exact .inr ⟨.io (.readResponse status), hc⟩
  | finished c hc => exact .inr ⟨.io (.frame .finished), hc⟩
  | frame f fs c hc => exact .inr ⟨.io (.frame f.toBody), hc⟩
  | client e c hc => exact .inr ⟨e, hc⟩

/-- All data of the bodies is forwarded, in hand or still to come, and a `GET` is sent only
when nothing of the last body is to come. -/
structure Whole (s : Bodies) : Prop where
  data : s.client.dropped = false →
    s.client.forwarded ++ s.client.incoming.inHand ++ dataOf s.rest = dataOf s.frames
  next : s.client.incoming = .start ∨ s.client.incoming = .awaiting → s.rest = []

theorem Whole.init : Whole Bodies.init := by
  constructor
  · exact fun _ => rfl
  · exact fun _ => rfl

/-- No frame is left in the body behind an empty data frame. -/
def EmptyLast (s : Bodies) : BodiesEvent → Prop
  | .frame => ∀ fs, s.rest = .data [] :: fs → fs = []
  | _ => True

theorem Whole.received (h : Whole s) (hs : (machine env).Reachable s)
    (hd : s.client.dropped = false) :
    s.client.received ++ dataOf s.rest = dataOf s.frames := by
  rw [← (Client.inbox_of_reachable (client_reachable hs)).received hd]
  exact h.data hd

theorem Whole.of_received (ht : (machine env).Reachable t)
    (hdata : t.client.dropped = false →
      t.client.received ++ dataOf t.rest = dataOf t.frames)
    (hnext : t.client.incoming = .start ∨ t.client.incoming = .awaiting → t.rest = []) :
    Whole t := by
  constructor
  · intro hd
    rw [(Client.inbox_of_reachable (client_reachable ht)).received hd]
    exact hdata hd
  · exact hnext

theorem Whole.step (hs : (machine env).Reachable s) (h : Whole s) (hempty : EmptyLast s e)
    (hstep : step env s e = some t) : Whole t := by
  have ht : (machine env).Reachable t := hs.step hstep
  cases Step.of_step hstep with
  | response status body c hc hstatus =>
      cases Client.Step.of_step hc with
      | io _ _ _ hio =>
        cases hio with
        | readResponse _ hin =>
            refine Whole.of_received ht (fun hd => ?_) (by simp)
            have hold := h.received hs hd
            rw [h.next (.inr hin)] at hold
            simp only [dataOf_append, ← hold]
            simp [dataOf]
        | readStatus _ _ hfail => exact absurd (hstatus.symm.trans hfail) Bool.false_ne_true.symm
  | finished c hc hrest =>
      cases Client.Step.of_step hc with
      | io _ _ _ hio =>
        cases hio with
        | bodyFinished => exact Whole.of_received ht (h.received hs) fun _ => hrest
  | frame f fs c hc hrest =>
      cases f with
      | data bytes =>
          cases Client.Step.of_step hc with
          | io _ _ _ hio =>
            cases hio with
            | emptyFrame =>
                obtain rfl : fs = [] := hempty fs hrest
                refine Whole.of_received ht (fun hd => ?_) fun _ => rfl
                have hold := h.received hs hd
                rw [hrest] at hold
                exact hold
            | dataFrame =>
                refine Whole.of_received ht (fun hd => ?_) (by simp)
                have hold := h.received hs hd
                rw [hrest] at hold
                simp only [List.append_assoc]
                exact hold
      | trailers =>
          cases Client.Step.of_step hc with
          | io _ _ _ hio =>
            cases hio with
            | trailers hin =>
                refine Whole.of_received ht (fun hd => ?_) (by simp [hin])
                have hold := h.received hs hd
                rw [hrest] at hold
                exact hold
  | client e c hc hread =>
      obtain ⟨hreceived, hd, hin⟩ := Client.step_kept hc hread
      refine Whole.of_received ht (fun hd' => ?_) fun hnext => h.next (hin hnext)
      rw [hreceived]
      exact h.received hs (hd hd')

theorem not_whole_of_empty (hc : ¬ EmptyLast s e) (hstep : step env s e = some t) :
    ¬ Whole t := by
  cases e with
  | frame =>
      simp only [EmptyLast, not_forall] at hc
      obtain ⟨fs, hrest, hne⟩ := hc
      cases Step.of_step hstep with
      | finished c _ hnil => exact absurd (hrest.symm.trans hnil) (by simp)
      | frame f fs' c hc' hcons =>
          obtain ⟨rfl, rfl⟩ : .data [] = f ∧ fs = fs' := by simpa [hrest] using hcons
          cases Client.Step.of_step hc' with
          | io _ _ _ hio =>
            cases hio with
            | emptyFrame => exact fun h => hne (h.next (.inl rfl))
            | dataFrame _ _ hbytes => exact absurd rfl hbytes
  | _ => exact absurd trivial hc

/-- What `pump_incoming` and a reader do while a body is streamed. -/
def Pumping : BodiesEvent → Prop
  | .frame | .client (.io .push) | .client (.io .flushed) => True
  | .client e => Client.Reader e
  | .response .. => False

theorem leads_client {c : Client} (h : (Client.machine env).Leads Client.Reader s.client c) :
    (machine env).Leads Pumping s { s with client := c } := by
  refine Machine.Leads.map (M := machine env) .client (fun c => { s with client := c }) ?_ h
  intro u e v he hstep
  have hstep' : u.step env e = some v := hstep
  cases e with
  | poll op =>
      cases op with
      | read room => exact ⟨trivial, by simp [machine, Bodies.step, ClientEvent.isRead, hstep']⟩
      | _ => exact absurd he id
  | resume => exact ⟨trivial, by simp [machine, Bodies.step, ClientEvent.isRead, hstep']⟩
  | _ => exact absurd he id

/-- From one state to another while a body is streamed to a live connection. -/
structure Pumps (env : ClientEnv) (s t : Bodies) : Prop where
  leads : (machine env).Leads Pumping s t
  live : t.client.Live
  frames : t.frames = s.frames

theorem Pumps.trans {u : Bodies} (h : Pumps env s t) (h' : Pumps env t u) : Pumps env s u :=
  ⟨h.leads.trans h'.leads, h'.live, h'.frames.trans h.frames⟩

theorem Pumps.of_client {c : Client} {e : IoEvent} (hlive : s.client.Live)
    (he : Pumping (.client (.io e))) (hread : (ClientEvent.io e).isRead = false)
    (hstep : s.client.ioStep env e = some c) (hc : c.Live) :
    Pumps env s { s with client := c } := by
  refine ⟨.of_step he ?_, hc, rfl⟩
  simp [machine, Bodies.step, hread, Client.step, hlive.task, hstep]

theorem exists_drained (hs : (machine env).Reachable s) (hlive : s.client.Live) :
    ∃ t, Pumps env s t ∧ t.rest = s.rest ∧ t.client.incoming = s.client.incoming ∧
      t.client.responses = [] := by
  obtain ⟨c, hleads, hc, hin, hempty⟩ := Client.exists_drained (client_reachable hs) hlive
  exact ⟨{ s with client := c }, ⟨leads_client hleads, hc, rfl⟩, rfl, hin, hempty⟩

theorem exists_flushed (hs : (machine env).Reachable s) (hlive : s.client.Live)
    (hin : s.client.incoming = .flushing false) :
    ∃ t, Pumps env s t ∧ t.rest = s.rest ∧ t.client.incoming = .streaming := by
  obtain ⟨t, hpumps, hrest, hin', hempty⟩ := exists_drained hs hlive
  have hflushed : t.client.ioStep env .flushed =
      some { t.client with incoming := .streaming } := by
    simp [Client.ioStep, hin', hin, Client.flushed, hempty]
  exact ⟨_, hpumps.trans (.of_client (e := .flushed) hpumps.live trivial rfl hflushed
    ⟨hpumps.live.task, hpumps.live.dropped⟩), hrest, rfl⟩

theorem exists_sent (bytes : Bytes) (hs : (machine env).Reachable s) (hlive : s.client.Live)
    (hin : s.client.incoming = .sending (.ok bytes)) :
    ∃ t, Pumps env s t ∧ t.rest = s.rest ∧ t.client.incoming = .streaming := by
  obtain ⟨t, hpumps, hrest, hin', hempty⟩ := exists_drained hs hlive
  have hpush : t.client.ioStep env .push =
      some { t.client with responses := [.ok bytes], incoming := .flushing false } := by
    simp [Client.ioStep, hin', hin, Client.push, hempty, hpumps.live.dropped, Item.isError]
  have hpushed : Pumps env t
      { t with client :=
          { t.client with responses := [.ok bytes], incoming := .flushing false } } :=
    .of_client (e := .push) hpumps.live trivial rfl hpush ⟨hpumps.live.task, hpumps.live.dropped⟩
  obtain ⟨u, hflushed, hrest', hstreaming⟩ :=
    exists_flushed (hs.leads (hpumps.trans hpushed).leads) hpushed.live rfl
  exact ⟨u, (hpumps.trans hpushed).trans hflushed, hrest'.trans hrest, hstreaming⟩

theorem Pumps.of_frame {c : Client} {f : BodyFrame} {rest : List Frame} (hlive : s.client.Live)
    (hin : s.client.incoming = .streaming) (hc : s.client.frame f = c)
    (hstep : step env s .frame = (s.client.step env (.io (.frame f))).map (⟨·, s.frames, rest⟩))
    (htask : c.Live) : Pumps env s ⟨c, s.frames, rest⟩ := by
  have hpumping : Pumping .frame := trivial
  refine ⟨.of_step hpumping ?_, htask, rfl⟩
  rw [show (machine env).step s .frame = step env s .frame from rfl, hstep]
  simp [Client.step, hlive.task, Client.ioStep, hin, hc]

/-- A body with a live connection and a reader is left after finitely many steps. -/
theorem exists_next_of_streaming (rest : List Frame) (hs : (machine env).Reachable s)
    (hlive : s.client.Live) (hrest : s.rest = rest) (hin : s.client.incoming = .streaming) :
    ∃ t, Pumps env s t ∧ t.client.incoming = .start := by
  induction rest generalizing s with
  | nil =>
      have hframe : Pumps env s ⟨s.client.frame .finished, s.frames, s.rest⟩ :=
        .of_frame hlive hin rfl (by simp [Bodies.step, hrest]) ⟨hlive.task, hlive.dropped⟩
      exact ⟨_, hframe, rfl⟩
  | cons f fs ih =>
      have hstep : step env s .frame =
          (s.client.step env (.io (.frame f.toBody))).map (⟨·, s.frames, fs⟩) := by
        simp [Bodies.step, hrest]
      cases f with
      | data bytes =>
          cases bytes with
          | nil => exact ⟨_, .of_frame hlive hin rfl hstep ⟨hlive.task, hlive.dropped⟩, rfl⟩
          | cons b bs =>
              have hframe : Pumps env s ⟨s.client.frame (.data (b :: bs)), s.frames, fs⟩ :=
                .of_frame hlive hin rfl hstep ⟨hlive.task, hlive.dropped⟩
              have hnext := hs.leads hframe.leads
              obtain ⟨t, hsent, hrest', hstreaming⟩ :=
                exists_sent (b :: bs) hnext hframe.live rfl
              obtain ⟨u, hu, hstart⟩ :=
                ih (hnext.leads hsent.leads) hsent.live hrest' hstreaming
              exact ⟨u, (hframe.trans hsent).trans hu, hstart⟩
      | trailers =>
          have hframe : Pumps env s ⟨s.client, s.frames, fs⟩ :=
            .of_frame hlive hin rfl hstep hlive
          obtain ⟨u, hu, hstart⟩ := ih (hs.leads hframe.leads) hlive rfl hin
          exact ⟨u, hframe.trans hu, hstart⟩

/-- `pump_incoming` is in a body. -/
def Streaming (s : Bodies) : Prop :=
  s.client.Live ∧ (s.client.incoming = .streaming ∨ s.client.incoming = .flushing false ∨
    ∃ bytes, s.client.incoming = .sending (.ok bytes))

theorem exists_next (hs : (machine env).Reachable s) (h : Streaming s) :
    ∃ t, Pumps env s t ∧ t.client.incoming = .start := by
  obtain ⟨hlive, hin | hin | ⟨bytes, hin⟩⟩ := h
  · exact exists_next_of_streaming s.rest hs hlive rfl hin
  · obtain ⟨t, ht, _, hstreaming⟩ := exists_flushed hs hlive hin
    obtain ⟨u, hu, hstart⟩ :=
      exists_next_of_streaming t.rest (hs.leads ht.leads) ht.live rfl hstreaming
    exact ⟨u, ht.trans hu, hstart⟩
  · obtain ⟨t, ht, _, hstreaming⟩ := exists_sent bytes hs hlive hin
    obtain ⟨u, hu, hstart⟩ :=
      exists_next_of_streaming t.rest (hs.leads ht.leads) ht.live rfl hstreaming
    exact ⟨u, ht.trans hu, hstart⟩

/-- A run forwards all data of its bodies, and leaves each of them at its end, if and only
if it meets no empty data frame in front of another frame; and a body that is streamed to
a reader is left after finitely many steps. -/
theorem run_emptyLast_iff_whole {es : List BodiesEvent}
    (h : (machine env).Run (fun _ _ => True) es s) :
    ((machine env).Run EmptyLast es s ↔
      ∀ fs u, fs <+: es → (machine env).Run (fun _ _ => True) fs u → Whole u) ∧
    (Streaming s → ∃ t, Pumps env s t ∧ t.client.incoming = .start) := by
  constructor
  · refine Machine.run_iff_forall_prefix Whole.init ?_ ?_ h
    · intro s e t hs hwhole hempty hstep
      exact hwhole.step hs hempty hstep
    · intro s e t _ _ hempty hstep
      exact not_whole_of_empty hempty hstep
  · exact exists_next h.reachable

/-- A response with two data frames, a trailer between them and an empty frame at its end. -/
def emptyAtEnd : List BodiesEvent :=
  [.client (.io (.sendRead 0)), .response .ok [.data [1], .trailers, .data [2], .data []],
    .frame, .client (.io .push), .client (.io .flushed), .frame, .frame,
    .client (.io .push), .client (.poll (.read 8)), .client .resume, .client (.io .flushed)]

/-- The same data with an empty frame in between; then the next `GET`. -/
def emptyInside : List BodiesEvent :=
  [.client (.io (.sendRead 0)), .response .ok [.data [1], .data [], .data [2]],
    .frame, .client (.io .push), .client (.io .flushed), .frame, .client (.io (.sendRead 1))]

theorem emptyAtEnd_whole :
    ∃ s, s.client.forwarded = [1, 2] ∧ s.client.delivered = [1] ∧
      ((machine Client.sampleEnv).Run EmptyLast emptyAtEnd s ↔ ∀ fs u, fs <+: emptyAtEnd →
        (machine Client.sampleEnv).Run (fun _ _ => True) fs u → Whole u) ∧
      ∃ t, Pumps Client.sampleEnv s t ∧ t.client.incoming = .start := by
  obtain ⟨s, hrun, hforwarded, hdelivered, htask, hd, hin⟩ :=
    Machine.exists_run (M := machine Client.sampleEnv)
      (P := fun s => s.client.forwarded = [1, 2] ∧ s.client.delivered = [1] ∧
        s.client.task = .running ∧ s.client.dropped = false ∧ s.client.incoming = .streaming)
      emptyAtEnd (by decide)
  obtain ⟨hiff, hnext⟩ := run_emptyLast_iff_whole hrun
  exact ⟨s, hforwarded, hdelivered, hiff, hnext ⟨⟨htask, hd⟩, .inl hin⟩⟩

theorem emptyInside_not_whole :
    ∃ s, (machine Client.sampleEnv).Run (fun _ _ => True) emptyInside s ∧
      s.client.incoming = .awaiting ∧ s.client.forwarded = [1] ∧ dataOf s.frames = [1, 2] ∧
      ¬ Whole s := by
  obtain ⟨s, hrun, hin, hforwarded, hframes, hrest⟩ :=
    Machine.exists_run (M := machine Client.sampleEnv)
      (P := fun s => s.client.incoming = .awaiting ∧ s.client.forwarded = [1] ∧
        dataOf s.frames = [1, 2] ∧ s.rest = [.data [2]]) emptyInside (by decide)
  refine ⟨s, hrun, hin, hforwarded, hframes, fun hwhole => ?_⟩
  rw [hwhole.next (.inr hin)] at hrest
  simp at hrest

end Bodies
end Fronting
