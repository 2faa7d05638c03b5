import Fronting.Cancellation
import Fronting.TunnelReads

/-!
# The long poll

The first read of a stream waits, so a response that ends because there is no data right
now has data in it. A response that meets the end of upstream or a read error first has
none, and its session lives on.
-/

namespace Fronting

namespace Server

variable {env : ServerEnv} {s t : Server} {e : ServerEvent} {r : ReqId} {st : ReadStream}

/-- The frames of a stream and the bytes that it is about to yield are not empty, and it
waits for no second read before it has yielded. -/
structure Filled (st : ReadStream) : Prop where
  frames : ∀ bytes ∈ st.frames, bytes ≠ []
  hand : ∀ bytes, st.turn = .telling bytes → bytes ≠ []
  first : st.turn = .idle → st.first = false → st.frames ≠ []

theorem Filled.move {st' : ReadStream} (h : Filled st) (hmove : st.Move r e st') :
    Filled st' := by
  cases hmove with
  | wait =>
      constructor
      · exact h.frames
      · intro bytes hturn
        cases hturn
      · intro hturn
        cases hturn
  | data n bytes _ _ hne =>
      constructor
      · exact h.frames
      · intro bytes' hturn
        obtain rfl : bytes = bytes' := by simpa using hturn
        exact hne
      · intro hturn
        cases hturn
  | yield bytes _ hturn =>
      constructor
      · intro bytes' hmem
        rcases List.mem_append.mp hmem with hmem | hmem
        · exact h.frames bytes' hmem
        · rw [List.mem_singleton.mp hmem]
          exact h.hand bytes hturn
      · intro bytes' hidle
        cases hidle
      · intro _ _
        simp
  | _ => exact ⟨h.frames, h.hand, h.first⟩

theorem filled_of_reachable (hs : (machine env).Reachable s) (hst : s.streams r = some st) :
    Filled st := by
  refine hs.invariant (I := fun s => ∀ r st, s.streams r = some st → Filled st) ?_ ?_ r st hst
  · intro r st hst
    simp [machine, init] at hst
  · intro s e t hs hI hstep r st' hst'
    rcases (Step.of_step hstep).stream (coherent_of_reachable hs) hst' with
      ⟨st, hst, hmove⟩ | ⟨_, hstart, _⟩
    · exact (hI r st hst).move hmove
    · rw [hstart]
      constructor <;> simp [ReadStream.start]

theorem Filled.flatten_ne_nil (h : Filled st) (hne : st.frames ≠ []) :
    st.frames.flatten ≠ [] := by
  intro hflat
  obtain ⟨bytes, hmem⟩ := List.exists_mem_of_ne_nil _ hne
  exact h.frames bytes hmem (List.flatten_eq_nil_iff.mp hflat bytes hmem)

/-- The responses of a live session that have ended are not empty. -/
def NoEmptyResponse (s : Server) : Prop :=
  ∀ r st A, s.streams r = some st → s.actors st.session = some A → A.isAlive →
    st.ended = true → s.framesOf r ≠ []

/-- A stream of a live session meets no end of upstream and no read error before it has
yielded. -/
def YieldsFirst (s : Server) : ServerEvent → Prop
  | .poll r res => res = .eof ∨ res = .error → ∀ st A, s.streams r = some st →
      s.actors st.session = some A → A.isAlive → st.frames ≠ []
  | _ => True

theorem framesOf_ne_nil (hs : (machine env).Reachable s) (hst : s.streams r = some st)
    (hne : st.frames ≠ []) : s.framesOf r ≠ [] := by
  simpa [framesOf, hst] using (filled_of_reachable hs hst).flatten_ne_nil hne

theorem NoEmptyResponse.step (h : NoEmptyResponse s) (hs : (machine env).Reachable s)
    (hfirst : YieldsFirst s e) (hstep : Server.step env s e = some t) : NoEmptyResponse t := by
  have ht : (machine env).Reachable t := hs.step hstep
  have hcoherent := coherent_of_reachable hs
  have hcases := Step.of_step hstep
  intro r st' B hst' hB halive hended
  refine framesOf_ne_nil ht hst' ?_
  rcases hcases.stream hcoherent hst' with ⟨st, hst, hmove⟩ | ⟨_, hstart, _⟩
  · obtain ⟨A, hA⟩ := hcoherent.actor_of_stream hst
    have hsession : st'.session = st.session := by cases hmove <;> rfl
    have halive' : A.isAlive := (move_of_step hA hstep (hsession ▸ hB)).alive halive
    have hold : st.ended = true → st.frames ≠ [] := by
      rintro hend hnil
      exact h r st A hst hA halive' hend (by simp [framesOf, hst, hnil])
    cases hmove with
    | stay | wait | data | abort | drop => exact hold hended
    | yield => simp
    | stop habort =>
        have hclosing := (download_of_reachable hs).aborted hst hA habort
        exact absurd (halive'.symm.trans (not_alive_of_closing hclosing)) (by simp)
    | finish res hactive hturn hres =>
        rcases hres with ⟨rfl, hwaited, hidle⟩ | hres
        · exact (filled_of_reachable hs hst).first hidle hwaited
        · exact hfirst hres st A hst hA halive'
  · rw [hstart] at hended
    exact absurd hended (by simp [ReadStream.start])

theorem not_noEmptyResponse (hfirst : ¬ YieldsFirst s e) (hstep : Server.step env s e = some t) :
    ¬ NoEmptyResponse t := by
  cases e with
  | poll r res =>
      simp only [YieldsFirst, not_forall] at hfirst
      obtain ⟨hres, st, A, hst, hA, halive, hnil⟩ := hfirst
      intro hnone
      cases Step.of_step hstep with
      | pollPending => simp at hres
      | pollData => simp at hres
      | pollEnd st' R A' hst' hr hA' =>
          obtain rfl : st = st' := Option.some.inj (hst.symm.trans hst')
          obtain rfl : A = A' := Option.some.inj (hA.symm.trans hA')
          refine hnone r { st with ended := true } (A.release r) ?_ ?_ halive rfl ?_
          · simp [endStream]
          · simp [endStream]
          · simp [framesOf, endStream, not_not.mp hnil]
  | _ => exact absurd trivial hfirst

theorem run_yieldsFirst_iff {es : List ServerEvent} (h : (machine env).Run (fun _ _ => True) es s) :
    (machine env).Run YieldsFirst es s ↔
      ∀ fs u, fs <+: es → (machine env).Run (fun _ _ => True) fs u → NoEmptyResponse u := by
  refine Machine.run_iff_forall_prefix ?_ ?_ ?_ h
  · intro r st A hst
    simp [machine, init] at hst
  · exact fun s e t hs hnone hfirst hstep => hnone.step hs hfirst hstep
  · exact fun s e t _ _ hfirst hstep => not_noEmptyResponse hfirst hstep

end Server
/-- Elements that contribute something are no more than what all contribute. -/
theorem length_filter_le_flatMap {α β : Type*} (l : List α) (p : α → Bool) (f : α → List β)
    (h : ∀ x ∈ l, p x = true → f x ≠ []) : (l.filter p).length ≤ (l.flatMap f).length := by
  induction l with
  | nil => exact le_rfl
  | cons x l ih =>
      have hrest := ih fun y hy => h y (List.mem_cons_of_mem x hy)
      rw [List.flatMap_cons, List.length_append]
      cases hp : p x with
      | true =>
          have hx : 0 < (f x).length := List.length_pos_iff.mpr (h x List.mem_cons_self hp)
          rw [List.filter_cons_of_pos hp, List.length_cons]
          omega
      | false =>
          rw [List.filter_cons_of_neg (by simp [hp])]
          omega

namespace Tunnel

variable {env : TunnelEnv} {s t : Tunnel} {a : ActorRef} {A : Session}

/-- The client's `GET`s that this session has answered and whose bodies it has read to the
end. -/
def cycles (s : Tunnel) (a : ActorRef) : List ReqId :=
  s.gets.filter fun r => (s.server.streams r).any (fun st => st.session = a) &&
    s.bodyEnded r && s.seen r = s.server.framesOf r

def YieldsFirst (s : Tunnel) : TunnelEvent → Prop
  | .server e => Server.YieldsFirst s.server e
  | _ => True

theorem server_yieldsFirst {es : List TunnelEvent} (h : (machine env).Run YieldsFirst es s) :
    ∃ ds, (Server.machine env.server).Run Server.YieldsFirst ds s.server := by
  refine h.component Tunnel.server rfl ?_
  intro s e t hfirst hstep
  cases Step.of_step hstep with
  | server e u _ hd => exact .inr ⟨e, hfirst, hd⟩
  | client e c => exact .inl (afterClient_server env s c e).1
  | getArrives r fresh req body u _ hd | putArrives r fresh req body u _ hd =>
      exact .inr ⟨.request r req fresh, trivial, hd⟩
  | putBody r e u _ _ hd => exact .inr ⟨.body r e, trivial, hd⟩

/-- On a live session the client has gone through no more cycles than it has received
bytes. -/
theorem length_cycles_le (hs : (machine env).Reachable s) (hnone : s.server.NoEmptyResponse)
    (ha : s.server.actors a = some A) (halive : A.isAlive) :
    (s.cycles a).length ≤ s.client.received.length := by
  rw [(readWire_of_reachable hs).received]
  refine length_filter_le_flatMap s.gets _ s.seen ?_
  intro r _ hcycle
  simp only [Bool.and_eq_true, decide_eq_true_eq, bodyEnded, Option.any_eq_true] at hcycle
  obtain ⟨⟨⟨st, hst, hsession⟩, st', hst', hended⟩, hseen⟩ := hcycle
  obtain rfl : st = st' := Option.some.inj (hst.symm.trans hst')
  rw [hseen]
  exact hnone r st A hst (hsession ▸ ha) halive hended

/-- The responses of live sessions that end have data in them, in all states of a run, if
and only if no stream of a live session meets the end of upstream or a read error before it
has yielded; and then the client's loop goes through no more cycles on a live session than
bytes come in. -/
theorem long_poll_yields (server : ServerEnv) (env : TunnelEnv) :
    (∀ es s, (Server.machine server).Run (fun _ _ => True) es s →
      ((Server.machine server).Run Server.YieldsFirst es s ↔
        ∀ fs u, fs <+: es → (Server.machine server).Run (fun _ _ => True) fs u →
          u.NoEmptyResponse)) ∧
    ∀ es s a A, (machine env).Run YieldsFirst es s →
      s.server.actors a = some A → A.isAlive →
      (s.cycles a).length ≤ s.client.received.length := by
  constructor
  · exact fun es s h => Server.run_yieldsFirst_iff h
  · intro es s a A h ha halive
    obtain ⟨ds, hds⟩ := server_yieldsFirst h
    have hnone : s.server.NoEmptyResponse :=
      (Server.run_yieldsFirst_iff (hds.mono fun _ _ _ => trivial)).mp hds ds s.server
        (List.prefix_refl ds) (hds.mono fun _ _ _ => trivial)
    exact length_cycles_le h.reachable hnone ha halive

/-- A response with one byte; the second read finds no data right now. -/
def oneByte : List TunnelEvent :=
  [.client (.io (.sendRead 0)), .getArrives 0 0, .server (.actor 0 .start),
    .server (.actor 0 (.connect 8 8)), .server (.actor 0 (.upstreamSend [5])), .server (.ask 0),
    .server (.handle 0), .server (.reply 0), .server (.poll 0 (.data 1)), .server (.tell 0),
    .server (.poll 0 .pending), .client (.io (.readResponse .ok)),
    .client (.io (.frame (.data [5]))), .client (.io .push), .client (.io .flushed),
    .client (.io (.frame .finished))]

/-- Upstream has shut down its side; the client asks twice. -/
def spin : List TunnelEvent :=
  [.client (.io (.sendRead 0)), .getArrives 0 0, .server (.actor 0 .start),
    .server (.actor 0 (.connect 8 8)), .server (.actor 0 .upstreamEof), .server (.ask 0),
    .server (.handle 0), .server (.reply 0), .server (.poll 0 .eof),
    .client (.io (.readResponse .ok)), .client (.io (.frame .finished)),
    .client (.io (.sendRead 1)), .getArrives 1 1, .server (.ask 1), .server (.handle 0),
    .server (.reply 1), .server (.poll 1 .eof), .client (.io (.readResponse .ok)),
    .client (.io (.frame .finished))]

theorem oneByte_yieldsFirst : ∀ s, ∀ e ∈ oneByte, YieldsFirst s e := by
  intro s e he
  simp only [oneByte, List.mem_cons, List.not_mem_nil, or_false] at he
  rcases he with rfl | rfl | rfl | rfl | rfl | rfl | rfl | rfl | rfl | rfl | rfl | rfl | rfl |
    rfl | rfl | rfl <;> simp [YieldsFirst, Server.YieldsFirst]

theorem oneByte_cycles :
    (∃ s, (machine sampleEnv).Run YieldsFirst oneByte s ∧ s.cycles 0 = [0] ∧
      s.client.received = [5] ∧ (s.cycles 0).length ≤ s.client.received.length) ∧
    ∃ ds s, (s.framesOf 0 = [5] ∧ ((Server.machine sampleEnv.server).Run Server.YieldsFirst ds s ↔
      ∀ fs u, fs <+: ds → (Server.machine sampleEnv.server).Run (fun _ _ => True) fs u →
        u.NoEmptyResponse)) := by
  obtain ⟨s, hrun, hcycles, hreceived, hframes, hactor⟩ :=
    Machine.exists_run (M := machine sampleEnv)
      (P := fun s => s.cycles 0 = [0] ∧ s.client.received = [5] ∧ s.server.framesOf 0 = [5] ∧
        (s.server.actors 0).map Session.life = some .running) oneByte (by decide)
  obtain ⟨A, ha, hlife⟩ := Option.map_eq_some_iff.mp hactor
  have halive : A.isAlive = true := Session.isAlive_of_running hlife
  have hfirst := hrun.of_forall oneByte_yieldsFirst
  obtain ⟨ds, hds⟩ := server_yieldsFirst hfirst
  constructor
  · exact ⟨s, hfirst, hcycles, hreceived,
      (long_poll_yields sampleEnv.server sampleEnv).2 oneByte s 0 A hfirst ha halive⟩
  · exact ⟨ds, s.server, hframes,
      (long_poll_yields sampleEnv.server sampleEnv).1 ds s.server
        (hds.mono fun _ _ _ => trivial)⟩

/-- The session is live, both responses are empty and nothing has been received. -/
theorem spin_cycles :
    ∃ s A, (machine sampleEnv).Run (fun _ _ => True) spin s ∧ s.server.actors 0 = some A ∧
      A.isAlive ∧ s.cycles 0 = [0, 1] ∧ s.client.received = [] ∧ s.client.incoming = .start ∧
      ¬ s.server.NoEmptyResponse := by
  obtain ⟨s, hrun, hcycles, hreceived, hin, hframes, hstream, hactor⟩ :=
    Machine.exists_run (M := machine sampleEnv)
      (P := fun s => s.cycles 0 = [0, 1] ∧ s.client.received = [] ∧ s.client.incoming = .start ∧
        s.server.framesOf 0 = [] ∧
        s.server.streams 0 = some ⟨0, true, .idle, false, true, false, []⟩ ∧
        (s.server.actors 0).map Session.life = some .running) spin (by decide)
  obtain ⟨A, ha, hlife⟩ := Option.map_eq_some_iff.mp hactor
  have halive : A.isAlive = true := Session.isAlive_of_running hlife
  exact ⟨s, A, hrun, ha, halive, hcycles, hreceived, hin,
    fun hnone => hnone 0 _ A hstream ha halive rfl hframes⟩

end Tunnel
end Fronting
