import Fronting.Owner

/-!
# The client binary

`main` of `domain_fronting` writes one request with `write_all` and reads its answer with
`read_to_end`. Both poll the connection until they are done and end with its first error.
-/

namespace Fronting

/-- Why `main` ends without an answer. -/
inductive FetchError
  | io (e : PollError)
  | writeZero
  | panicked
deriving DecidableEq

/-- How far `main` is: `write_all` has bytes left, or `read_to_end` has read some. -/
inductive FetchStage
  | writing (rest : Bytes)
  | reading (response : Bytes)
  | finished (result : Except FetchError Bytes)
deriving DecidableEq

namespace FetchStage

/-- `write_all` does nothing for an empty buffer. -/
def write (rest : Bytes) : FetchStage := if rest = [] then .reading [] else .writing rest

/-- `read_to_end` sees to it that its buffer has room. -/
def asks : FetchStage → Op → Bool
  | .writing rest, .write buf => buf = rest
  | .reading _, .read room => 0 < room
  | _, _ => false

/-- What a poll has returned is looked at. -/
def next : FetchStage → PollResult → FetchStage
  | .finished result, _ => .finished result
  | _, .error e => .finished (.error (.io e))
  | _, .unreachable | _, .polledAfterCompletion | _, .polledMapErr =>
    .finished (.error .panicked)
  | .writing rest, .written n =>
    if n = 0 then .finished (.error .writeZero) else write (rest.drop n)
  | .reading response, .filled [] => .finished (.ok response)
  | .reading response, .filled (b :: bs) => .reading (response ++ b :: bs)
  | stage, _ => stage

def isFinished : FetchStage → Bool
  | .finished _ => true
  | _ => false

end FetchStage

namespace Fetch

/-- `main` once it is connected -/
def main (request : Bytes) : Owner FetchStage Empty where
  init := .write request
  asks := FetchStage.asks
  sees stage x := stage.next x.2
  ended := FetchStage.isFinished
  own _ := Empty.elim

def machine (env : ClientEnv) (request : Bytes) :
    Machine (Client × FetchStage) (ClientEvent ⊕ Empty) := (main request).alone env

variable {env : ClientEnv} {request : Bytes} {c d : Client} {stage : FetchStage} {op : Op}

theorem next_error {e : PollError} (h : stage.isFinished = false) :
    stage.next (.error e) = .finished (.error (.io e)) := by
  cases stage with
  | finished => cases h
  | _ => rfl

theorem careful (request : Bytes) : (main request).Careful where
  asks stage op h := by
    cases stage with
    | finished => cases op <;> cases h
    | _ => rfl
  error stage op e := by cases stage <;> rfl
  unreachable stage op := by cases stage <;> rfl
  own _ i := i.elim

/-- What the end of `main` says about the connection. An answer is what `pump_incoming` has
put into the response channel by the time that the I/O task fails. -/
def Explained (request : Bytes) (c : Client) : Except FetchError Bytes → Prop
  | .ok response => (acceptedIn c.log).flatten = request ∧ response = readIn c.log ∧
      response = c.forwarded ∧ c.task.failed = true
  | .error (.io (.task e)) => c.task = .complete (.error e)
  | .error (.io (.body _)) => (acceptedIn c.log).flatten = request ∧ readIn c.log = c.forwarded ∧
      Client.Closing c
  | .error (.io .closed) => acceptedIn c.log = [] ∧ c.task.failed = true
  | .error _ => False

/-- How the connection stands to the stage of `main`. -/
def Stands (request : Bytes) (c : Client) : FetchStage → Prop
  | .writing rest => rest = request ∧ rest ≠ [] ∧ acceptedIn c.log = [] ∧ readIn c.log = [] ∧
      (c.dropped = false → c.senderOpen = true)
  | .reading response => (acceptedIn c.log).flatten = request ∧ response = readIn c.log ∧
      (c.dropped = false → c.senderOpen = true)
  | .finished result => Explained request c result

theorem Stands.init (request : Bytes) : Stands request Client.init (.write request) := by
  unfold FetchStage.write
  split
  · next hnil => exact ⟨hnil.symm, rfl, fun _ => rfl⟩
  · next hne => exact ⟨rfl, hne, rfl, rfl, fun _ => rfl⟩

theorem Stands.later (h : Stands request c stage) (hlater : Owner.Later c d) :
    Stands request d stage := by
  have hsender : (c.dropped = false → c.senderOpen = true) → d.dropped = false →
      d.senderOpen = true := by
    intro hc hd
    obtain ⟨hd', heq⟩ := hlater.sender hd
    exact heq.trans (hc hd')
  cases stage with
  | writing rest =>
      obtain ⟨hrest, hne, haccepted, hread, hc⟩ := h
      unfold Stands
      rw [hlater.log]
      exact ⟨hrest, hne, haccepted, hread, hsender hc⟩
  | reading response =>
      obtain ⟨haccepted, hread, hc⟩ := h
      unfold Stands
      rw [hlater.log]
      exact ⟨haccepted, hread, hsender hc⟩
  | finished result =>
      cases result with
      | ok response =>
          obtain ⟨haccepted, hread, hforwarded, hfailed⟩ := h
          unfold Stands Explained
          rw [hlater.log, hlater.forwarded (.inl hfailed)]
          exact ⟨haccepted, hread, hforwarded, hlater.failed hfailed⟩
      | error e =>
          cases e with
          | io e =>
              cases e with
              | task e => exact hlater.complete _ h
              | body message =>
                  obtain ⟨haccepted, hread, hclosing⟩ := h
                  unfold Stands Explained
                  rw [hlater.log, hlater.forwarded (.inr hclosing)]
                  exact ⟨haccepted, hread, hlater.closing hclosing⟩
              | closed =>
                  obtain ⟨haccepted, hfailed⟩ := h
                  unfold Stands Explained
                  rw [hlater.log]
                  exact ⟨haccepted, hlater.failed hfailed⟩
          | writeZero | panicked => exact h

/-- `main` keeps its sender, so the task never ends well under it. -/
theorem Stands.sender (h : Stands request c stage) (hopen : stage.isFinished = false) :
    c.dropped = false → c.senderOpen = true := by
  cases stage with
  | writing => exact h.2.2.2.2
  | reading => exact h.2.2
  | finished => cases hopen

/-- `poll_write` takes the whole buffer, or none of it. -/
theorem Stands.write {rest : Bytes} (hc : (Client.machine env).Reachable c)
    (howned : Owner.Owned (main request) c (.writing rest)) (h : Stands request c (.writing rest)) :
    Stands request (c.resume (.write rest))
      ((FetchStage.writing rest).next (c.pollWrite rest).2) := by
  obtain ⟨rfl, hne, haccepted, hread, hsender⟩ := h
  obtain ⟨hd, _⟩ := howned.intact rfl
  have hlog : (c.resume (.write rest)).log = c.log ++ [(.write rest, (c.pollWrite rest).2)] :=
    Client.resume_log c (.write rest)
  have hsender' : (c.resume (.write rest)).dropped = false →
      (c.resume (.write rest)).senderOpen = true := fun _ =>
    (Owner.resume_sender c (by simp)).trans (hsender hd)
  rcases howned.write rfl rest with hres | hres | ⟨hres, hrx⟩
  · rw [hres] at hlog ⊢
    refine ⟨rfl, hne, ?_, ?_, hsender'⟩
    · rw [hlog, acceptedIn_append, haccepted]
      rfl
    · rw [hlog, readIn_append, hread]
      rfl
  · have hlength : rest.length ≠ 0 := fun hzero => hne (List.length_eq_zero_iff.mp hzero)
    have hnext : (FetchStage.writing rest).next (.written rest.length) = .reading [] := by
      simp [FetchStage.next, FetchStage.write, hlength]
    rw [hres] at hlog ⊢
    rw [hnext]
    refine ⟨?_, ?_, hsender'⟩
    · rw [hlog, acceptedIn_append, haccepted, acceptedIn_written]
      simp [Op.buffer]
    · rw [hlog, readIn_append, hread]
      rfl
  · rw [hres] at hlog ⊢
    constructor
    · rw [hlog, acceptedIn_append, haccepted]
      rfl
    · rw [Owner.resume_failed]
      exact Owner.failed_of_requestRx hc howned rfl (hsender hd) (hrx (hsender hd))

/-- `read_to_end` is done when the response channel is closed and nothing is left in it. -/
theorem Stands.read {response : Bytes} {room : Nat} (hc : (Client.machine env).Reachable c)
    (howned : Owner.Owned (main request) c (.reading response))
    (h : Stands request c (.reading response)) (hroom : 0 < room)
    (hcall : c.call = some (.read room)) :
    Stands request (c.resume (.read room))
      ((FetchStage.reading response).next (c.pollRead room).2) := by
  obtain ⟨haccepted, rfl, hsender⟩ := h
  obtain ⟨hd, _⟩ := howned.intact rfl
  have hlog : (c.resume (.read room)).log = c.log ++ [(.read room, (c.pollRead room).2)] :=
    Client.resume_log c (.read room)
  have hsender' : (c.resume (.read room)).dropped = false →
      (c.resume (.read room)).senderOpen = true := fun _ =>
    (Owner.resume_sender c (by simp)).trans (hsender hd)
  have haccepted' : (∀ n, (c.pollRead room).2 ≠ .written n) →
      (acceptedIn (c.resume (.read room)).log).flatten = request := by
    intro hres
    rw [hlog, acceptedIn_append, Client.acceptedIn_of_ne_written hres, List.append_nil, haccepted]
  have hread : readIn (c.resume (.read room)).log =
      readIn c.log ++ readIn [(.read room, (c.pollRead room).2)] := by
    rw [hlog, readIn_append]
  rcases Owner.pollRead_cases c hroom with hres | ⟨hres, hdrained, htx⟩ | ⟨b, bs, hres, _⟩ |
    ⟨message, hres⟩
  · rw [hres] at haccepted' hread ⊢
    exact ⟨haccepted' (by simp), by simpa [readIn] using hread.symm, hsender'⟩
  · obtain ⟨hfailed, hforwarded⟩ := Owner.failed_of_endOfStream hc howned rfl hdrained htx
    rw [hres] at haccepted' hread ⊢
    refine ⟨haccepted' (by simp), by simpa [readIn] using hread.symm, ?_, ?_⟩
    · rw [Owner.resume_forwarded, hforwarded]
    · rw [Owner.resume_failed, hfailed]
  · rw [hres] at haccepted' hread ⊢
    exact ⟨haccepted' (by simp), by simpa [readIn] using hread.symm, hsender'⟩
  · obtain ⟨hclosing, hforwarded⟩ := Owner.closing_of_bodyError hc hcall hres
    rw [hres] at haccepted' hread ⊢
    refine ⟨haccepted' (by simp), ?_, hclosing⟩
    rw [← hforwarded]
    simpa [readIn] using hread

theorem stands_of_reachable {s : Client × FetchStage} (hs : (machine env request).Reachable s) :
    Stands request s.1 s.2 := by
  refine Owner.invariant_of_reachable (careful request) (Stands.init request)
    (fun c d stage h hlater => h.later hlater) ?_ ?_ ?_ ?_ hs
  · intro c stage op e _ hasks htask
    change Stands request _ (stage.next _)
    rw [next_error ((careful request).asks stage op hasks)]
    exact htask
  · intro c stage op hc howned h hasks htask
    have hopen := (careful request).asks stage op hasks
    have hsender := h.sender hopen (howned.intact hopen).1
    have hjoined := (Client.ending_of_reachable hc).joined (by rw [htask]; rfl)
    simp only [Client.joined, Bool.and_eq_true, decide_eq_true_eq] at hjoined
    rcases Client.outgoing_done hc hjoined.1.2 with hfailed | ⟨hclosed, _⟩
    · simp [htask, Task.failed, Task.result] at hfailed
    · exact Bool.noConfusion (hsender.symm.trans hclosed)
  · intro c stage op hc howned h hcall
    have hasks : stage.asks op = true := howned.call op hcall
    cases stage with
    | writing rest =>
        cases op with
        | write buf =>
            obtain rfl : buf = rest := of_decide_eq_true hasks
            exact h.write hc howned
        | _ => cases hasks
    | reading response =>
        cases op with
        | read room => exact h.read hc howned (of_decide_eq_true hasks) hcall
        | _ => cases hasks
    | finished => cases op <;> cases hasks
  · intro _ _ i
    exact i.elim

/-- `main` ends with an answer only when the tunnel has failed: the answer is what had been
forwarded until then, and the request has gone out whole. Its errors name what went wrong,
and it neither panics nor meets a write of nothing. -/
theorem result_explained {s : Client × FetchStage} (hs : (machine env request).Reachable s)
    {result : Except FetchError Bytes} (hresult : s.2 = .finished result) :
    Explained request s.1 result := by
  have hstands := stands_of_reachable hs
  rwa [hresult] at hstands

/-- A request, one chunk of the answer, and a `GET` that finds no session. -/
def fetched : List (ClientEvent ⊕ Empty) :=
  [.poll (.write [1, 2, 3]), .resume, .io (.recv 1), .io (.writeResponse .noContent),
    .io (.sendRead 2), .io (.readResponse 200), .io (.frame (.data [7, 8])), .io .push,
    .io .flushed, .poll (.read 32), .resume, .io (.frame .finished), .io (.sendRead 3),
    .poll (.read 32), .io (.readResponse 404), .resume].map .inl

theorem fetched_explained :
    ∃ s, (machine Client.sampleEnv [1, 2, 3]).Run (fun _ _ => True) fetched s ∧
      s.2 = .finished (.ok [7, 8]) ∧ Explained [1, 2, 3] s.1 (.ok [7, 8]) := by
  obtain ⟨s, hrun, hresult⟩ := Machine.exists_run (M := machine Client.sampleEnv [1, 2, 3])
    (P := fun s => s.2 = .finished (.ok [7, 8])) fetched (by decide)
  exact ⟨s, hrun, hresult, result_explained ⟨_, hrun⟩ hresult⟩

/-- `main` does not hang on a tunnel that has failed. -/
theorem ends_of_failed {s : Client × FetchStage} (hs : (machine env request).Reachable s)
    (hfailed : s.1.task.failed = true) :
    ∃ t, (machine env request).Leads Owner.Ends s t ∧ t.2.isFinished = true := by
  refine Owner.leads_ended (careful request) (fun stage hopen => ?_) hs hfailed
  cases stage with
  | writing rest => exact ⟨.write rest, decide_eq_true rfl⟩
  | reading response => exact ⟨.read 1, rfl⟩
  | finished => cases hopen

/-- The same run before its last poll goes on. -/
def cutShort : List (ClientEvent ⊕ Empty) := fetched.dropLast

theorem cutShort_ends :
    ∃ s, (machine Client.sampleEnv [1, 2, 3]).Run (fun _ _ => True) cutShort s ∧
      s.2 = .reading [7, 8] ∧
      ∃ t, (machine Client.sampleEnv [1, 2, 3]).Leads Owner.Ends s t ∧
        t.2.isFinished = true := by
  obtain ⟨s, hrun, hstage, hfailed⟩ := Machine.exists_run
    (M := machine Client.sampleEnv [1, 2, 3])
    (P := fun s => s.2 = .reading [7, 8] ∧ s.1.task.failed = true) cutShort (by decide)
  exact ⟨s, hrun, hstage, ends_of_failed ⟨_, hrun⟩ hfailed⟩

end Fetch
end Fronting
