import Fronting.Owner

/-!
# The stdio binary

`main` of `domain_fronting_stdio` is `copy_bidirectional` between a connection and the standard
streams: what is read at one end is written at the other, and the end of what is read shuts
the other end down. The first error ends both directions.
-/

namespace Fronting

/-- The buffer of each direction holds 8 KiB. -/
def copyBufSize : Nat := 8192

/-- `TransferState`: `running` holds what has been read and not been written yet, and whether
the reader is at its end. -/
inductive Transfer
  | running (buf : Bytes) (readDone : Bool)
  | shuttingDown
  | done
deriving DecidableEq

namespace Transfer

def buf : Transfer → Bytes
  | .running buf _ => buf
  | _ => []

def readDone : Transfer → Bool
  | .running _ readDone => readDone
  | _ => true

/-- `poll_fill_buf` is called while there is room. -/
def reads (n : Nat) : Transfer → Bool
  | .running buf readDone => !readDone ∧ 0 < n ∧ buf.length + n ≤ copyBufSize
  | _ => false

/-- All that is in the buffer is offered to the writer. -/
def writes (bytes : Bytes) : Transfer → Bool
  | .running buf _ => bytes = buf ∧ buf ≠ []
  | _ => false

/-- The writer is flushed while there is nothing for it. -/
def flushes : Transfer → Bool
  | .running [] _ => true
  | _ => false

/-- A read of nothing is the end. -/
def fill (bytes : Bytes) : Transfer → Transfer
  | .running buf _ => .running (buf ++ bytes) (bytes = [])
  | t => t

def drain (n : Nat) : Transfer → Transfer
  | .running buf readDone => .running (buf.drop n) readDone
  | t => t

/-- The last flush comes before the shutdown. -/
def flushed : Transfer → Transfer
  | .running [] true => .shuttingDown
  | t => t

end Transfer

/-- Why `main` ends: by an error of the connection, of standard input or of standard output,
by a write of nothing, or in a panic. -/
inductive StdioError
  | io (e : PollError)
  | std (message : String)
  | writeZero
  | panicked
deriving DecidableEq

/-- `stdin` and `stdout` are what has been read from the one and written to the other. -/
structure Stdio where
  upload : Transfer
  download : Transfer
  result : Option (Except StdioError Unit)
  stdin : Bytes
  stdout : Bytes
deriving DecidableEq

/-- What `copy_bidirectional` does at the standard streams, and its end. -/
inductive StdioEvent
  | stdinRead (bytes : Bytes)
  | stdinEnd
  | stdinError (message : String)
  | stdoutWrite (n : Nat)
  | stdoutFlush
  | stdoutShutdown
  | stdoutError (message : String)
  | finish
deriving DecidableEq

namespace Stdio

def init : Stdio := ⟨.running [] false, .running [] false, none, [], []⟩

def ended (p : Stdio) : Bool := p.result.isSome

def fail (p : Stdio) (e : StdioError) : Stdio := { p with result := some (.error e) }

def asks (p : Stdio) (op : Op) : Bool :=
  !p.ended && match op with
    | .read room => p.download.reads room
    | .write bytes => p.upload.writes bytes
    | .writeVectored _ => false
    | .flush => p.upload.flushes
    | .shutdown => p.upload = .shuttingDown

def sees (p : Stdio) : Op × PollResult → Stdio
  | (_, .error e) => p.fail (.io e)
  | (_, .unreachable) | (_, .polledAfterCompletion) | (_, .polledMapErr) => p.fail .panicked
  | (.read _, .filled bytes) => { p with download := p.download.fill bytes }
  | (.write _, .written n) =>
    if n = 0 then p.fail .writeZero else { p with upload := p.upload.drain n }
  | (.flush, .ready) => { p with upload := p.upload.flushed }
  | (.shutdown, .ready) => { p with upload := .done }
  | _ => p

/-- What is done at the standard streams. -/
def act (p : Stdio) : StdioEvent → Option Stdio
  | .stdinRead bytes =>
    if p.upload.reads bytes.length then
      some { p with upload := p.upload.fill bytes, stdin := p.stdin ++ bytes }
    else none
  | .stdinEnd => if p.upload.reads 1 then some { p with upload := p.upload.fill [] } else none
  | .stdinError message => if p.upload.reads 1 then some (p.fail (.std message)) else none
  | .stdoutWrite n =>
    if 0 < n ∧ n ≤ p.download.buf.length then
      some { p with download := p.download.drain n, stdout := p.stdout ++ p.download.buf.take n }
    else none
  | .stdoutFlush =>
    if p.download.flushes then some { p with download := p.download.flushed } else none
  | .stdoutShutdown =>
    if p.download = .shuttingDown then some { p with download := .done } else none
  | .stdoutError message => if p.download ≠ .done then some (p.fail (.std message)) else none
  | .finish =>
    if p.upload = .done ∧ p.download = .done then some { p with result := some (.ok ()) } else none

/-- `main` once it is connected -/
def main : Owner Stdio StdioEvent where
  init := init
  asks := asks
  sees := sees
  ended := ended
  own p e := if p.ended then none else p.act e

def machine (env : ClientEnv) : Machine (Client × Stdio) (ClientEvent ⊕ StdioEvent) :=
  main.alone env

theorem careful : main.Careful where
  asks p op h := by
    simp only [main, asks, Bool.and_eq_true, Bool.not_eq_true'] at h
    exact h.1
  error p op e := by cases op <;> rfl
  unreachable p op := by cases op <;> rfl
  own p i h := if_pos h

variable {env : ClientEnv} {c d : Client} {p q : Stdio} {op : Op}

/-- What the end of `main` says about the connection. -/
def Explained (c : Client) (p : Stdio) : Except StdioError Unit → Prop
  | .ok () => p.upload = .done ∧ p.download = .done
  | .error (.io (.task e)) => c.task = .complete (.error e)
  | .error (.io (.body _)) => readIn c.log = c.forwarded ∧ Client.Closing c
  | .error (.io .closed) => c.task.failed = true
  | .error .panicked => p.upload = .done ∧ c.task = .complete (.ok ()) ∧ c.log.any failure = false
  | .error .writeZero => False
  | .error (.std _) => True

/-- How the connection stands to `copy_bidirectional`. -/
structure Copies (c : Client) (p : Stdio) : Prop where
  uploaded : p.stdin = (acceptedIn c.log).flatten ++ p.upload.buf
  downloaded : readIn c.log = p.stdout ++ p.download.buf
  chunk_le : ∀ chunk ∈ acceptedIn c.log, chunk.length ≤ copyBufSize
  upload_le : p.upload.buf.length ≤ copyBufSize
  download_le : p.download.buf.length ≤ copyBufSize
  sender : c.dropped = false → p.upload ≠ .done → c.senderOpen = true
  finished : p.download.readDone = true → c.task.failed = true ∧ readIn c.log = c.forwarded
  result : ∀ r, p.result = some r → Explained c p r

theorem Copies.init : Copies Client.init Stdio.init := by
  constructor
  · rfl
  · rfl
  · intro chunk hchunk
    cases hchunk
  · exact Nat.zero_le _
  · exact Nat.zero_le _
  · exact fun _ _ => rfl
  · intro h
    cases h
  · intro r hr
    cases hr

theorem Explained.later {r : Except StdioError Unit} (h : Explained c p r)
    (hlater : Owner.Later c d) : Explained d p r := by
  cases r with
  | ok => exact h
  | error e =>
      cases e with
      | io e =>
          cases e with
          | task e => exact hlater.complete _ h
          | body message =>
              obtain ⟨hread, hclosing⟩ := h
              refine ⟨?_, hlater.closing hclosing⟩
              rw [hlater.log, hlater.forwarded (.inr hclosing), hread]
          | closed => exact hlater.failed h
      | panicked =>
          obtain ⟨hdone, htask, hlog⟩ := h
          exact ⟨hdone, hlater.complete _ htask, hlater.log ▸ hlog⟩
      | std message => trivial
      | writeZero => exact h

theorem Copies.later (h : Copies c p) (hlater : Owner.Later c d) : Copies d p := by
  constructor
  · rw [hlater.log]
    exact h.uploaded
  · rw [hlater.log]
    exact h.downloaded
  · rw [hlater.log]
    exact h.chunk_le
  · exact h.upload_le
  · exact h.download_le
  · intro hd hdone
    obtain ⟨hd', heq⟩ := hlater.sender hd
    exact heq.trans (h.sender hd' hdone)
  · intro hdone
    obtain ⟨hfailed, hread⟩ := h.finished hdone
    refine ⟨hlater.failed hfailed, ?_⟩
    rw [hlater.log, hlater.forwarded (.inl hfailed), hread]
  · exact fun r hr => (h.result r hr).later hlater

/-- A poll that has returned, and what it moved out of one buffer and into the other. -/
theorem Copies.polled {res : PollResult} {u v : Transfer} {r : Option (Except StdioError Unit)}
    (h : Copies c p) (hlog : d.log = c.log ++ [(op, res)])
    (hu : p.upload.buf = (acceptedIn [(op, res)]).flatten ++ u.buf)
    (hv : v.buf = p.download.buf ++ readIn [(op, res)]) (hv' : v.buf.length ≤ copyBufSize)
    (hsender : d.dropped = false → u ≠ .done → d.senderOpen = true)
    (hfinished : v.readDone = true → d.task.failed = true ∧ readIn d.log = d.forwarded)
    (hresult : ∀ e, r = some e → Explained d ⟨u, v, r, p.stdin, p.stdout⟩ e) :
    Copies d ⟨u, v, r, p.stdin, p.stdout⟩ := by
  constructor
  · change p.stdin = (acceptedIn d.log).flatten ++ u.buf
    rw [h.uploaded, hlog, acceptedIn_append, List.flatten_append, hu, List.append_assoc]
  · change readIn d.log = p.stdout ++ v.buf
    rw [hlog, readIn_append, h.downloaded, hv, List.append_assoc]
  · intro chunk hchunk
    rw [hlog, acceptedIn_append] at hchunk
    rcases List.mem_append.mp hchunk with hold | hnew
    · exact h.chunk_le chunk hold
    · have hle := h.upload_le
      rw [hu, List.length_append] at hle
      have hchunk := (List.sublist_flatten_of_mem hnew).length_le
      omega
  · have hle := h.upload_le
    rw [hu, List.length_append] at hle
    exact (Nat.le_add_left _ _).trans hle
  · exact hv'
  · exact hsender
  · exact hfinished
  · exact hresult

/-- A poll that brings no data leaves a finished download as it is. -/
theorem Copies.finished_resume {res : PollResult} (h : Copies c p)
    (hlog : (c.resume op).log = c.log ++ [(op, res)]) (hread : readIn [(op, res)] = [])
    (hdone : p.download.readDone = true) :
    (c.resume op).task.failed = true ∧ readIn (c.resume op).log = (c.resume op).forwarded := by
  obtain ⟨hfailed, hforwarded⟩ := h.finished hdone
  rw [Owner.resume_failed, Owner.resume_forwarded, hlog, readIn_append, hread, List.append_nil]
  exact ⟨hfailed, hforwarded⟩

theorem Copies.sender_resume (h : Copies c p) (hd : c.dropped = false) (hop : op ≠ .shutdown)
    (hup : p.upload ≠ .done) : (c.resume op).senderOpen = true :=
  (Owner.resume_sender c hop).trans (h.sender hd hup)

theorem Copies.read {room : Nat} (hc : (Client.machine env).Reachable c)
    (howned : Owner.Owned main c p) (h : Copies c p) (hp : p.ended = false)
    (hreads : p.download.reads room = true) (hcall : c.call = some (.read room)) :
    Copies (c.resume (.read room)) (p.sees (.read room, (c.pollRead room).2)) := by
  obtain ⟨hd, _⟩ := howned.intact hp
  have hresult : p.result = none := by simpa [ended] using hp
  have hlog : (c.resume (.read room)).log = c.log ++ [(.read room, (c.pollRead room).2)] :=
    Client.resume_log c (.read room)
  have hsender : (c.resume (.read room)).dropped = false → p.upload ≠ .done →
      (c.resume (.read room)).senderOpen = true := fun _ => h.sender_resume hd (by simp)
  cases hdownload : p.download with
  | running buf readDone =>
      simp only [hdownload, Transfer.reads, Bool.not_eq_true', decide_eq_true_eq] at hreads
      obtain ⟨rfl, hroom, hle⟩ := hreads
      rcases Owner.pollRead_cases c hroom with hres | ⟨hres, hdrained, htx⟩ |
        ⟨b, bs, hres, hlength⟩ | ⟨message, hres⟩
      · rw [hres] at hlog ⊢
        refine h.polled hlog rfl (List.append_nil _).symm h.download_le hsender
          (h.finished_resume hlog rfl) (fun e he => ?_)
        cases hresult.symm.trans he
      · obtain ⟨hfailed, hforwarded⟩ := Owner.failed_of_endOfStream hc howned hp hdrained htx
        rw [hres] at hlog ⊢
        refine h.polled hlog rfl ?_ ?_ hsender (fun _ => ?_) (fun e he => ?_)
        · simp [hdownload, Transfer.fill, Transfer.buf, readIn]
        · simpa [hdownload, Transfer.fill, Transfer.buf] using h.download_le
        · rw [Owner.resume_failed, Owner.resume_forwarded, hlog, readIn_append, ← hforwarded]
          exact ⟨hfailed, List.append_nil _⟩
        · cases hresult.symm.trans he
      · rw [hres] at hlog ⊢
        refine h.polled hlog rfl ?_ ?_ hsender (fun hdone => ?_) (fun e he => ?_)
        · simp [hdownload, Transfer.fill, Transfer.buf, readIn]
        · simp only [hdownload, Transfer.fill, Transfer.buf, List.length_append]
          omega
        · simp [hdownload, Transfer.fill, Transfer.readDone] at hdone
        · cases hresult.symm.trans he
      · obtain ⟨hclosing, hforwarded⟩ := Owner.closing_of_bodyError hc hcall hres
        rw [hres] at hlog ⊢
        refine h.polled hlog rfl (List.append_nil _).symm h.download_le hsender
          (h.finished_resume hlog rfl) (fun e he => ?_)
        obtain rfl := Option.some.inj he
        refine ⟨?_, hclosing⟩
        rw [hlog, readIn_append, ← hforwarded]
        exact List.append_nil _
  | _ => simp [hdownload, Transfer.reads] at hreads

theorem Copies.write {bytes : Bytes} (hc : (Client.machine env).Reachable c)
    (howned : Owner.Owned main c p) (h : Copies c p) (hp : p.ended = false)
    (hwrites : p.upload.writes bytes = true) :
    Copies (c.resume (.write bytes)) (p.sees (.write bytes, (c.pollWrite bytes).2)) := by
  obtain ⟨hd, _⟩ := howned.intact hp
  have hresult : p.result = none := by simpa [ended] using hp
  have hlog : (c.resume (.write bytes)).log = c.log ++ [(.write bytes, (c.pollWrite bytes).2)] :=
    Client.resume_log c (.write bytes)
  cases hupload : p.upload with
  | running buf readDone =>
      simp only [hupload, Transfer.writes, decide_eq_true_eq] at hwrites
      obtain ⟨rfl, hne⟩ := hwrites
      have hopen : c.senderOpen = true := h.sender hd (by simp [hupload])
      rcases howned.write hp bytes with hres | hres | ⟨hres, hrx⟩
      · rw [hres] at hlog ⊢
        refine h.polled hlog rfl (List.append_nil _).symm h.download_le
          (fun _ => h.sender_resume hd (by simp)) (h.finished_resume hlog rfl) (fun e he => ?_)
        cases hresult.symm.trans he
      · have hlength : bytes.length ≠ 0 := fun hzero => hne (List.length_eq_zero_iff.mp hzero)
        rw [hres] at hlog ⊢
        simp only [sees, if_neg hlength]
        refine h.polled hlog ?_ (List.append_nil _).symm h.download_le
          (fun _ _ => (Owner.resume_sender c (by simp)).trans hopen) (h.finished_resume hlog rfl)
          (fun e he => ?_)
        · simp [hupload, Transfer.drain, Transfer.buf, Op.buffer]
        · cases hresult.symm.trans he
      · rw [hres] at hlog ⊢
        refine h.polled hlog rfl (List.append_nil _).symm h.download_le
          (fun _ => h.sender_resume hd (by simp)) (h.finished_resume hlog rfl) (fun e he => ?_)
        obtain rfl := Option.some.inj he
        change (c.resume (.write bytes)).task.failed = true
        rw [Owner.resume_failed]
        exact Owner.failed_of_requestRx hc howned hp hopen (hrx hopen)
  | _ => simp [hupload, Transfer.writes] at hwrites

theorem flushed_buf (t : Transfer) : t.flushed.buf = t.buf := by
  unfold Transfer.flushed
  split <;> rfl

theorem flushed_readDone (t : Transfer) : t.flushed.readDone = t.readDone := by
  unfold Transfer.flushed
  split <;> rfl

theorem Copies.flush (howned : Owner.Owned main c p) (h : Copies c p) (hp : p.ended = false) :
    Copies (c.resume .flush) (p.sees (.flush, .ready)) := by
  obtain ⟨hd, _⟩ := howned.intact hp
  have hresult : p.result = none := by simpa [ended] using hp
  have hlog : (c.resume .flush).log = c.log ++ [(.flush, .ready)] := Client.resume_log c .flush
  refine h.polled hlog (flushed_buf _).symm (List.append_nil _).symm h.download_le
    (fun _ hup => ?_) (h.finished_resume hlog rfl) (fun e he => ?_)
  · refine h.sender_resume hd (by simp) fun hdone => hup ?_
    rw [hdone]
    rfl
  · cases hresult.symm.trans he

theorem Copies.shutdown (h : Copies c p) (hp : p.ended = false)
    (hshut : p.upload = .shuttingDown) :
    Copies (c.resume .shutdown) (p.sees (.shutdown, .ready)) := by
  have hresult : p.result = none := by simpa [ended] using hp
  have hlog : (c.resume .shutdown).log = c.log ++ [(.shutdown, .ready)] :=
    Client.resume_log c .shutdown
  refine h.polled hlog ?_ (List.append_nil _).symm h.download_le (fun _ hup => absurd rfl hup)
    (h.finished_resume hlog rfl) (fun e he => ?_)
  · rw [hshut]
    rfl
  · cases hresult.symm.trans he

/-- What is done at the standard streams does not touch the connection. -/
theorem Copies.act {e : StdioEvent} (h : Copies c p) (hp : p.ended = false)
    (hact : p.act e = some q) : Copies c q := by
  have hresult : ∀ u v i o, ∀ r, (⟨u, v, p.result, i, o⟩ : Stdio).result = some r →
      Explained c ⟨u, v, p.result, i, o⟩ r := by
    intro u v i o r hr
    have hnone : p.result = none := by simpa [ended] using hp
    cases hnone.symm.trans hr
  cases e with
  | stdinRead bytes =>
      simp only [Stdio.act, Option.ite_none_right_eq_some, Option.some.injEq] at hact
      obtain ⟨hreads, rfl⟩ := hact
      cases hupload : p.upload with
      | running buf readDone =>
          simp only [hupload, Transfer.reads, decide_eq_true_eq] at hreads
          have huploaded := h.uploaded
          rw [hupload] at huploaded
          refine ⟨?_, h.downloaded, h.chunk_le, ?_, h.download_le, ?_, h.finished, hresult _ _ _ _⟩
          · simp [huploaded, Transfer.fill, Transfer.buf]
          · simpa [Transfer.fill, Transfer.buf] using hreads.2.2
          · exact fun hd _ => h.sender hd (by simp [hupload])
      | _ => simp [hupload, Transfer.reads] at hreads
  | stdinEnd =>
      simp only [Stdio.act, Option.ite_none_right_eq_some, Option.some.injEq] at hact
      obtain ⟨hreads, rfl⟩ := hact
      cases hupload : p.upload with
      | running buf readDone =>
          have huploaded := h.uploaded
          have hle := h.upload_le
          rw [hupload] at huploaded hle
          refine ⟨?_, h.downloaded, h.chunk_le, ?_, h.download_le, ?_, h.finished, hresult _ _ _ _⟩
          · simpa [Transfer.fill, Transfer.buf] using huploaded
          · simpa [Transfer.fill, Transfer.buf] using hle
          · exact fun hd _ => h.sender hd (by simp [hupload])
      | _ => simp [hupload, Transfer.reads] at hreads
  | stdinError message | stdoutError message =>
      simp only [Stdio.act, Option.ite_none_right_eq_some, Option.some.injEq] at hact
      obtain ⟨_, rfl⟩ := hact
      refine ⟨h.uploaded, h.downloaded, h.chunk_le, h.upload_le, h.download_le, h.sender,
        h.finished, fun r hr => ?_⟩
      obtain rfl := Option.some.inj hr
      trivial
  | stdoutWrite n =>
      simp only [Stdio.act, Option.ite_none_right_eq_some, Option.some.injEq] at hact
      obtain ⟨hn, rfl⟩ := hact
      cases hdownload : p.download with
      | running buf readDone =>
          have hdownloaded := h.downloaded
          have hle := h.download_le
          have hfinished := h.finished
          rw [hdownload] at hdownloaded hle hfinished
          refine ⟨h.uploaded, ?_, h.chunk_le, h.upload_le, ?_, h.sender, hfinished, hresult _ _ _ _⟩
          · simpa [Transfer.drain, Transfer.buf] using hdownloaded
          · simp only [Transfer.drain, Transfer.buf, List.length_drop]
            exact (Nat.sub_le _ _).trans hle
      | _ =>
          simp only [hdownload, Transfer.buf, List.length_nil] at hn
          omega
  | stdoutFlush =>
      simp only [Stdio.act, Option.ite_none_right_eq_some, Option.some.injEq] at hact
      obtain ⟨_, rfl⟩ := hact
      refine ⟨h.uploaded, ?_, h.chunk_le, h.upload_le, ?_, h.sender, ?_, hresult _ _ _ _⟩
      · simpa only [flushed_buf] using h.downloaded
      · simpa only [flushed_buf] using h.download_le
      · simpa only [flushed_readDone] using h.finished
  | stdoutShutdown =>
      simp only [Stdio.act, Option.ite_none_right_eq_some, Option.some.injEq] at hact
      obtain ⟨hshut, rfl⟩ := hact
      have hdownloaded := h.downloaded
      have hfinished := h.finished
      rw [hshut] at hdownloaded hfinished
      exact ⟨h.uploaded, hdownloaded, h.chunk_le, h.upload_le, Nat.zero_le _, h.sender, hfinished,
        hresult _ _ _ _⟩
  | finish =>
      simp only [Stdio.act, Option.ite_none_right_eq_some, Option.some.injEq] at hact
      obtain ⟨hdone, rfl⟩ := hact
      refine ⟨h.uploaded, h.downloaded, h.chunk_le, h.upload_le, h.download_le, h.sender,
        h.finished, fun r hr => ?_⟩
      obtain rfl := Option.some.inj hr
      exact hdone

/-- A poll that has ended in `check_err`. -/
theorem Copies.checked {res : PollResult} {r : Except StdioError Unit} (h : Copies c p)
    (haccepted : (acceptedIn [(op, res)]).flatten = []) (hread : readIn [(op, res)] = [])
    (hresult : Explained ({ c with joinTaken := true }.report op res)
      { p with result := some r } r) :
    Copies ({ c with joinTaken := true }.report op res) { p with result := some r } := by
  refine h.polled rfl ?_ ?_ h.download_le h.sender (fun hdone => ?_) (fun e he => ?_)
  · rw [haccepted, List.nil_append]
  · rw [hread, List.append_nil]
  · obtain ⟨hfailed, hforwarded⟩ := h.finished hdone
    refine ⟨hfailed, ?_⟩
    change readIn (c.log ++ [(op, res)]) = c.forwarded
    rw [readIn_append, hread, List.append_nil, hforwarded]
  · obtain rfl := Option.some.inj he
    exact hresult

theorem copies_of_reachable {s : Client × Stdio} (hs : (machine env).Reachable s) :
    Copies s.1 s.2 := by
  refine Owner.invariant_of_reachable careful Copies.init
    (fun c d p h hlater => h.later hlater) ?_ ?_ ?_ ?_ hs
  · intro c p op e h _ htask
    change Copies _ (p.sees (op, .error (.task e)))
    have hsees : p.sees (op, .error (.task e)) = p.fail (.io (.task e)) := by cases op <;> rfl
    rw [hsees]
    exact h.checked rfl rfl htask
  · intro c p op hc howned h hasks htask
    have hp : p.ended = false := careful.asks p op hasks
    obtain ⟨hd, _, hnofail⟩ := howned.intact hp
    change Copies _ (p.sees (op, .unreachable))
    have hsees : p.sees (op, .unreachable) = p.fail .panicked := by cases op <;> rfl
    rw [hsees]
    refine h.checked rfl rfl ⟨?_, htask, ?_⟩
    · by_contra hup
      have hjoined := (Client.ending_of_reachable hc).joined (by rw [htask]; rfl)
      simp only [Client.joined, Bool.and_eq_true, decide_eq_true_eq] at hjoined
      rcases Client.outgoing_done hc hjoined.1.2 with hfailed | ⟨hclosed, _⟩
      · simp [htask, Task.failed, Task.result] at hfailed
      · exact Bool.noConfusion ((h.sender hd hup).symm.trans hclosed)
    · change (c.log ++ [(op, PollResult.unreachable)]).any failure = false
      rw [List.any_append, hnofail]
      rfl
  · intro c p op hc howned h hcall
    have hasks : p.asks op = true := howned.call op hcall
    have hp : p.ended = false := careful.asks p op hasks
    simp only [asks, hp, Bool.not_false, Bool.true_and] at hasks
    cases op with
    | read room => exact h.read hc howned hp hasks hcall
    | write bytes => exact h.write hc howned hp hasks
    | writeVectored => cases hasks
    | flush => exact h.flush howned hp
    | shutdown => exact h.shutdown hp (of_decide_eq_true hasks)
  · intro c p i q _ h hown
    obtain ⟨hp, hact⟩ := Option.ite_none_left_eq_some.mp hown
    exact h.act (by simpa using hp) hact

/-- What has become of the copying when `main` ends. The panic comes when the end of standard
input has closed the request channel, all of it is acknowledged, and the error of a response
body is still unread. -/
def Outcome (c : Client) (p : Stdio) : Except StdioError Unit → Prop
  | .ok () => p.stdin = (acceptedIn c.log).flatten ∧ p.stdout = c.forwarded ∧
      c.task.failed = true
  | .error (.io (.task e)) => c.task = .complete (.error e)
  | .error (.io (.body _)) => p.stdout ++ p.download.buf = c.forwarded ∧ Client.Closing c
  | .error (.io .closed) => c.task.failed = true
  | .error .panicked => p.upload = .done ∧ p.stdin = c.acked.flatten ∧
      c.task = .complete (.ok ()) ∧ (c.dropped = false → c.responses.any Item.isError = true)
  | .error .writeZero => False
  | .error (.std _) => True

theorem outcome {s : Client × Stdio} (hs : (machine env).Reachable s)
    {r : Except StdioError Unit} (hr : s.2.result = some r) : Outcome s.1 s.2 r := by
  have hc : (Client.machine env).Reachable s.1 := Owner.reachable_fst hs
  have h := copies_of_reachable hs
  have hexplained := h.result r hr
  cases r with
  | ok =>
      obtain ⟨hup, hdown⟩ := hexplained
      have huploaded := h.uploaded
      have hdownloaded := h.downloaded
      obtain ⟨hfailed, hforwarded⟩ := h.finished (by rw [hdown]; rfl)
      rw [hup] at huploaded
      rw [hdown] at hdownloaded
      simp only [Transfer.buf, List.append_nil] at huploaded hdownloaded
      exact ⟨huploaded, hdownloaded.symm.trans hforwarded, hfailed⟩
  | error e =>
      cases e with
      | io e =>
          cases e with
          | body message => exact ⟨h.downloaded.symm.trans hexplained.1, hexplained.2⟩
          | task | closed => exact hexplained
      | panicked =>
          obtain ⟨hup, htask, hnofail⟩ := hexplained
          have hnot : s.1.task.failed = false := by simp [htask, Task.failed, Task.result]
          have hending := Client.ending_of_reachable hc
          have hjoined := hending.joined (by rw [htask]; rfl)
          simp only [Client.joined, Bool.and_eq_true, decide_eq_true_eq] at hjoined
          refine ⟨hup, ?_, htask, fun hd => ?_⟩
          · rcases Client.outgoing_done hc hjoined.1.2 with hfailed | ⟨_, hslot, hall⟩
            · exact absurd hfailed (ne_true_of_eq_false hnot)
            · have houtbox := Client.outbox_of_reachable hc
              rw [h.uploaded, hup, ← houtbox.log, houtbox.accepted, hslot, hall]
              simp [Transfer.buf]
          · have hsignalled := hending.done hjoined.1.1
            simpa [Client.Signalled, hd, hnot, hnofail] using hsignalled
      | std | writeZero => exact hexplained

/-- Standard input ends at once, a response body fails, and the task ends before the next
read. -/
def bodyErrorUnread : List (ClientEvent ⊕ StdioEvent) :=
  [.inr .stdinEnd, .inl (.poll .flush), .inl .resume, .inl (.poll .shutdown), .inl .resume,
    .inl (.io (.recv 1)), .inl (.io (.sendRead 2)), .inl (.io (.readResponse 200)),
    .inl (.io (.frame (.error "stream reset"))), .inl (.io .push), .inl (.io .flushed),
    .inl (.io .connOk), .inl .tearDown, .inl .publish, .inl (.poll (.read 8))]

theorem bodyErrorUnread_outcome :
    ∃ s, (machine Client.sampleEnv).Run (fun _ _ => True) bodyErrorUnread s ∧
      s.1.responses = [.error "stream reset"] ∧ Outcome s.1 s.2 (.error .panicked) := by
  obtain ⟨s, hrun, hresponses, hr⟩ := Machine.exists_run (M := machine Client.sampleEnv)
    (P := fun s => s.1.responses = [.error "stream reset"] ∧
      s.2.result = some (.error .panicked)) bodyErrorUnread (by decide)
  exact ⟨s, hrun, hresponses, outcome ⟨_, hrun⟩ hr⟩

end Stdio
end Fronting
