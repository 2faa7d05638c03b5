import Fronting.Growth
import Fronting.Tally

/-!
# What the counters count

`bytes_tx` is counted by the request, after the actor's reply, and `bytes_rx` by the response
stream, before the bytes are yielded. In between an amount is owed: a chunk that is written
and not yet counted, or bytes that are counted and not yet yielded.
-/

namespace Fronting

open Function (update update_self update_of_ne)

/-- What has been transferred: the chunks whose `write_all` succeeded, and the frames that were
yielded into each response body. -/
structure Traffic where
  written : List Bytes
  yielded : List (ReqId × Bytes)
deriving DecidableEq

namespace Traffic

def next (s : Server) (e : ServerEvent) (T : Traffic) : Traffic :=
  match e with
  | .writeOk a =>
    { T with written := T.written ++
        (((s.actors a).bind Session.handling).map Writing.bytes).toList }
  | .tell r =>
    { T with yielded := T.yielded ++ ((s.streams r).map fun st => (r, st.inHand)).toList }
  | _ => T

def txSize (T : Traffic) : Nat := (T.written.map List.length).sum
def rxSize (frames : List (ReqId × Bytes)) : Nat := (frames.map fun y => y.2.length).sum

theorem rxSize_append (frames : List (ReqId × Bytes)) (r : ReqId) (bytes : Bytes) :
    rxSize (frames ++ [(r, bytes)]) = rxSize frames + bytes.length := by
  simp [rxSize]

end Traffic

/-- The chunk whose reply the request has and has not taken up. -/
def Handler.uncounted : Handler → Bytes
  | .wrote _ data => data
  | _ => []

theorem Handler.broken_of_uncounted {h : Handler} (hh : h.uncounted ≠ []) : h.broken = false := by
  cases h with
  | wrote => rfl
  | _ => simp [uncounted] at hh

namespace Server

variable {env : ServerEnv} {s t : Server} {e : ServerEvent} {a : ActorRef} {A A' : Session}
  {r q : ReqId} {R : Call} {st : ReadStream} {T : Traffic}

/-- Over all the `Stats` that `take_stats` has returned, and the current counters. -/
def txTotal (s : Server) : Nat := ((s.taken ++ [s.stats]).map fun st => st.bytesTx.toNat).sum
def rxTotal (s : Server) : Nat := ((s.taken ++ [s.stats]).map fun st => st.bytesRx.toNat).sum

/-- The request is not in progress, and its response body is not read any more. -/
def Over (s : Server) (r : ReqId) : Prop :=
  (∀ R ∈ s.calls r, R.handler.inProgress = false) ∧
    ∀ st ∈ s.streams r, st.ended = true ∨ st.dropped = true

instance (s : Server) (r : ReqId) : Decidable (s.Over r) :=
  inferInstanceAs (Decidable (_ ∧ _))

/-- No request is in progress. -/
def Quiet (s : Server) : Prop := ∀ r, s.Over r

/-- The frames of the response bodies that were read to their end. -/
def readToEnd (s : Server) (T : Traffic) : List (ReqId × Bytes) :=
  T.yielded.filter fun y => (s.streams y.1).any ReadStream.ended

structure Accurate (s : Server) (T : Traffic) : Prop where
  tx : s.txTotal ≡ T.txSize [MOD 2 ^ 64]
  rx : s.rxTotal ≡ Traffic.rxSize (s.readToEnd T) [MOD 2 ^ 64]

/-- The last write of the request that has returned was `Ok`. -/
def lastOk (s : Server) (r : ReqId) (R : Call) : Bool :=
  (R.session.bind s.actors).all fun A => (A.finishedOf r).getLast?.all Written.ok

/-- A chunk is counted if and only if it was written, and what is counted as read is yielded
into a body that is read to its end. -/
def CountsTransfers (s : Server) : ServerEvent → Prop
  | .reply r => ∀ R ∈ s.calls r, R.handler.uncounted ≠ [] → s.lastOk r R = true
  | .cancel r => ∀ R ∈ s.calls r, R.handler.uncounted ≠ [] → s.lastOk r R = false
  | .writeOk a => ∀ A ∈ s.actors a, ∀ w ∈ A.handling, w.bytes ≠ [] →
      ∀ R ∈ s.calls w.req, R.handler ≠ .cancelled
  | .pollAborted r => ∀ st ∈ s.streams r, st.inHand = []
  | .dropStream r => ∀ st ∈ s.streams r, st.ended = true ∨ st.frames = [] ∧ st.inHand = []
  | _ => True

instance (s : Server) (e : ServerEvent) : Decidable (CountsTransfers s e) := by
  unfold CountsTransfers
  split <;> infer_instance

/-- The size of the chunk that was written for the request and is not counted yet. -/
def owed (s : Server) (r : ReqId) : Nat :=
  (s.calls r).elim 0 fun R => if s.lastOk r R then R.handler.uncounted.length else 0

/-- The size of what the stream has counted and not yielded yet. -/
def inHandOf (s : Server) (r : ReqId) : Nat := (s.streams r).elim 0 fun st => st.inHand.length

/-- The steps that count. -/
inductive Counted (s : Server) : ServerEvent → Server → Prop
  | same {e : ServerEvent} {t : Server} (htaken : t.taken = s.taken) (hstats : t.stats = s.stats) :
      Counted s e t
  | taken : Counted s .takeStats s.takeStats
  | tx {r : ReqId} {t : Server} (R : Call) (total : Nat) (data : Bytes) (hr : s.calls r = some R)
      (hh : R.handler = .wrote total data) (htaken : t.taken = s.taken)
      (hstats : t.stats = { s.stats with bytesTx := s.stats.bytesTx + UInt64.ofNat data.length }) :
      Counted s (.reply r) t
  | rx {r : ReqId} {n : Nat} {t : Server} (htaken : t.taken = s.taken)
      (hstats : t.stats = { s.stats with bytesRx := s.stats.bytesRx + UInt64.ofNat n }) :
      Counted s (.poll r (.data n)) t

theorem replyTo_stats (s : Server) (r : ReqId) (b : Bool) :
    (s.replyTo r b).taken = s.taken ∧ (s.replyTo r b).stats = s.stats := by
  unfold replyTo
  split <;> exact ⟨rfl, rfl⟩

theorem Step.counted (h : Step env s e t) : Counted s e t := by
  cases h with
  | takeStats => exact .taken
  | replyWrote R total data hr hh => exact .tx R total data hr hh rfl rfl
  | pollData => exact .rx rfl rfl
  | handleGranted | handleRefused | writeOk | writeErr =>
      exact .same (replyTo_stats _ _ _).1 (replyTo_stats _ _ _).2
  | dropAborts A ha =>
      unfold dropAbortsStep
      dsimp only
      split
      · exact .same rfl rfl
      · split <;> exact .same rfl rfl
  | _ => exact .same rfl rfl

theorem toNat_add_ofNat (c : UInt64) (n : Nat) :
    (c + UInt64.ofNat n).toNat ≡ c.toNat + n [MOD 2 ^ 64] := by
  rw [UInt64.toNat_add, UInt64.toNat_ofNat']
  exact (Nat.mod_modEq _ _).trans ((Nat.mod_modEq n _).add_left _)

theorem txTotal_takeStats (s : Server) : s.takeStats.txTotal = s.txTotal := by
  simp [txTotal, takeStats]

theorem rxTotal_takeStats (s : Server) : s.takeStats.rxTotal = s.rxTotal := by
  simp [rxTotal, takeStats]

theorem txTotal_count {n : Nat} (htaken : t.taken = s.taken)
    (hstats : t.stats.bytesTx = s.stats.bytesTx + UInt64.ofNat n) :
    t.txTotal ≡ s.txTotal + n [MOD 2 ^ 64] := by
  simp only [txTotal, htaken, hstats, List.map_append, List.map_singleton, List.sum_append,
    List.sum_singleton, Nat.add_assoc]
  exact (toNat_add_ofNat _ n).add_left _

theorem rxTotal_count {n : Nat} (htaken : t.taken = s.taken)
    (hstats : t.stats.bytesRx = s.stats.bytesRx + UInt64.ofNat n) :
    t.rxTotal ≡ s.rxTotal + n [MOD 2 ^ 64] := by
  simp only [rxTotal, htaken, hstats, List.map_append, List.map_singleton, List.sum_append,
    List.sum_singleton, Nat.add_assoc]
  exact (toNat_add_ofNat _ n).add_left _

theorem owed_eq (hr : s.calls r = some R) :
    s.owed r = if s.lastOk r R then R.handler.uncounted.length else 0 := by
  rw [owed, hr, Option.elim_some]

theorem owed_eq_zero (hr : s.calls r = some R) (hh : R.handler.uncounted = []) : s.owed r = 0 := by
  simp [owed_eq hr, hh]

theorem owed_of_lastOk (hr : s.calls r = some R)
    (hok : R.handler.uncounted ≠ [] → s.lastOk r R = true) :
    s.owed r = R.handler.uncounted.length := by
  by_cases hh : R.handler.uncounted = []
  · rw [owed_eq_zero hr hh, hh, List.length_nil]
  · rw [owed_eq hr, if_pos (hok hh)]

theorem owed_of_failed (hr : s.calls r = some R)
    (hfailed : R.handler.uncounted ≠ [] → s.lastOk r R = false) : s.owed r = 0 := by
  by_cases hh : R.handler.uncounted = []
  · exact owed_eq_zero hr hh
  · rw [owed_eq hr, hfailed hh, if_neg Bool.false_ne_true]

theorem lastOk_of_session (hR : R.session = some a) (ha : s.actors a = some A) :
    s.lastOk r R = (A.finishedOf r).getLast?.all Written.ok := by
  rw [lastOk, hR, Option.bind_some, ha, Option.all_some]

/-- Nothing becomes of a chunk that is owed while its request stays where it is. -/
theorem owed_kept (hs : (machine env).Reachable s) (hstep : step env s e = some t)
    (hsame : t.calls r = s.calls r) : t.owed r = s.owed r := by
  cases hr : s.calls r with
  | none => simp [owed, hsame, hr]
  | some R =>
      have hr' : t.calls r = some R := hsame.trans hr
      by_cases hh : R.handler.uncounted = []
      · rw [owed_eq_zero hr hh, owed_eq_zero hr' hh]
      · have hok : t.lastOk r R = s.lastOk r R := by
          cases hR : R.session with
          | none => rw [lastOk, lastOk, hR, Option.bind_none, Option.bind_none]
          | some a =>
              obtain ⟨A, ha, _⟩ := (coherent_of_reachable hs).call hr hR
              obtain ⟨A', ha', _⟩ := actor_of_step ha hstep
              have hkept : A'.finishedOf r = A.finishedOf r :=
                finishedOf_kept hs hr hr' (Handler.broken_of_uncounted hh) hR ha hstep ha'
              rw [lastOk_of_session hR ha, lastOk_of_session hR ha', hkept]
        rw [owed_eq hr, owed_eq hr', hok]

/-- A step that moves one request, without a write of it being involved. -/
theorem owed_moved (hs : (machine env).Reachable s) (hstep : step env s e = some t)
    (hkept : ∀ q, q ≠ r → t.calls q = s.calls q) (hold : s.owed r = 0) (hnew : t.owed r = 0) :
    ∀ q, t.owed q = s.owed q := by
  intro q
  by_cases hq : q = r
  · rw [hq, hold, hnew]
  · exact owed_kept hs hstep (hkept q hq)

/-- What becomes of the chunks that are owed: a write that returns `Ok` to its request owes its
chunk, and the request that takes the reply up settles it. -/
inductive Owing (s t : Server) : ServerEvent → Prop
  | same {e : ServerEvent} (hkept : ∀ q, t.owed q = s.owed q) (hquiet : ∀ a, e ≠ .writeOk a)
      (htotal : t.txTotal = s.txTotal) : Owing s t e
  | written {a : ActorRef} (A : Session) (w : Writing) (hA : s.actors a = some A)
      (hw : A.handling = some w) (hkept : ∀ q, q ≠ w.req → t.owed q = s.owed q)
      (hold : s.owed w.req = 0) (hnew : t.owed w.req = w.bytes.length)
      (htotal : t.txTotal = s.txTotal) : Owing s t (.writeOk a)
  | settled {r : ReqId} (data : Bytes) (hkept : ∀ q, q ≠ r → t.owed q = s.owed q)
      (hold : s.owed r = data.length) (hnew : t.owed r = 0)
      (htotal : t.txTotal ≡ s.txTotal + data.length [MOD 2 ^ 64]) : Owing s t (.reply r)

theorem txTotal_same (h : Counted s e t) (hne : ∀ r, e ≠ .reply r) : t.txTotal = s.txTotal := by
  cases h with
  | same htaken hstats => simp only [txTotal, htaken, hstats]
  | taken => exact txTotal_takeStats s
  | tx => exact absurd rfl (hne _)
  | rx htaken hstats => simp [txTotal, htaken, hstats]

/-- A request that goes from one handler to another, none of them after a write. -/
theorem owed_update {R' : Call} (hs : (machine env).Reachable s) (hstep : step env s e = some t)
    (hcalls : t.calls = update s.calls r (some R')) (hold : s.owed r = 0)
    (hnew : R'.handler.uncounted = []) : ∀ q, t.owed q = s.owed q := by
  refine owed_moved hs hstep (fun q hq => ?_) hold (owed_eq_zero ?_ hnew)
  · rw [hcalls, update_of_ne hq]
  · rw [hcalls, update_self]

/-- The reply to a read. -/
theorem owed_replyTo {u : Server} {b : Bool} (hs : (machine env).Reachable s)
    (hstep : step env s e = some (u.replyTo r b)) (hcalls : u.calls = s.calls)
    (hr : s.calls r = some R) (hh : R.handler = .awaitRead ∨ R.handler = .cancelled) :
    ∀ q, (u.replyTo r b).owed q = s.owed q := by
  have hr' : (u.replyTo r b).calls r = some { R with handler := onReply b R.handler } := by
    rw [replyTo_calls, if_pos rfl, hcalls, hr, Option.map_some]
  refine owed_moved hs hstep (fun q hq => ?_) (owed_eq_zero hr ?_) (owed_eq_zero hr' ?_)
  · rw [replyTo_calls, if_neg hq, hcalls]
  · rcases hh with hh | hh <;> simp [hh, Handler.uncounted]
  · rcases hh with hh | hh <;> simp [hh, onReply, Handler.uncounted]

/-- The request of a write that returns waits for it, or has stopped waiting. -/
theorem awaits_of_handling (hs : (machine env).Reachable s) {w : Writing}
    (ha : s.actors a = some A) (hw : A.handling = some w) (hlife : A.life = .running) :
    ∃ R, s.calls w.req = some R ∧ R.session = some a ∧
      ((∃ total, R.handler = .awaitWrite total w.bytes) ∨ R.handler = .cancelled) := by
  have halive : A.isAlive = true := Session.isAlive_of_running hlife
  have hmem : Message.write w.req w.bytes ∈ A.asked := by simp [Session.asked_handling hw]
  obtain ⟨R, hr, hR, hwait⟩ := (coherent_of_reachable hs).asked ha hmem rfl
  exact ⟨R, hr, hR, Handler.awaits_write (hwait halive)⟩

theorem awaits_of_read (hs : (machine env).Reachable s) {rest : List Message}
    (ha : s.actors a = some A) (hm : A.mailbox = .read r :: rest) (hlife : A.life = .running)
    (hidle : A.handling = none) :
    ∃ R, s.calls r = some R ∧ (R.handler = .awaitRead ∨ R.handler = .cancelled) := by
  have halive : A.isAlive = true := Session.isAlive_of_running hlife
  have hmem : Message.read r ∈ A.asked := by simp [Session.asked_cons hm hidle]
  obtain ⟨R, hr, _, hwait⟩ := (coherent_of_reachable hs).asked ha hmem rfl
  exact ⟨R, hr, Handler.awaits_read (hwait halive)⟩

/-- A write that returns owes its chunk if it was `Ok` and its request still waits. -/
theorem owed_answered (A' : Session) (ok : Bool) {w : Writing} (hs : (machine env).Reachable s)
    (hstep : step env s e = some t) (ht : t = (s.setActor a A').replyTo w.req true)
    (ha : s.actors a = some A) (hw : A.handling = some w) (hlife : A.life = .running)
    (hfinished : A'.finished = A.finished ++ [⟨w.req, w.bytes, w.offset, ok⟩]) :
    (∀ q, q ≠ w.req → t.owed q = s.owed q) ∧ s.owed w.req = 0 ∧
      ∃ R, s.calls w.req = some R ∧
        (R.handler = .cancelled ∧ t.owed w.req = 0 ∨
          t.owed w.req = if ok then w.bytes.length else 0) := by
  obtain ⟨R, hr, hR, hh⟩ := awaits_of_handling hs ha hw hlife
  have hr' : t.calls w.req = some { R with handler := onReply true R.handler } := by
    rw [ht, replyTo_calls, if_pos rfl, setActor_calls, hr, Option.map_some]
  refine ⟨fun q hq => owed_kept hs hstep ?_, owed_eq_zero hr ?_, R, hr, ?_⟩
  · rw [ht, replyTo_calls, if_neg hq, setActor_calls]
  · rcases hh with ⟨total, hh⟩ | hh <;> simp [hh, Handler.uncounted]
  · rcases hh with ⟨total, hh⟩ | hh
    · right
      have hactor : t.actors a = some A' := by
        rw [ht, replyTo_actors, setActor_actors, update_self]
      have hlast : (A'.finishedOf w.req).getLast? = some ⟨w.req, w.bytes, w.offset, ok⟩ := by
        simp [Session.finishedOf, hfinished]
      have hsession : ({ R with handler := onReply true R.handler } : Call).session = some a := hR
      rw [owed_eq hr', lastOk_of_session hsession hactor, hlast, Option.all_some, hh]
      rfl
    · exact .inl ⟨hh, owed_eq_zero hr' (by simp [hh, onReply, Handler.uncounted])⟩

/-- No other step than a write that returns and a reply that is taken up changes what is owed. -/
theorem owed_step (hs : (machine env).Reachable s) (hcounts : CountsTransfers s e)
    (hstep : step env s e = some t) (hwrite : ∀ a, e ≠ .writeOk a) (hreply : ∀ r, e ≠ .reply r) :
    ∀ q, t.owed q = s.owed q := by
  have hsame : (∀ q, t.calls q = s.calls q) → ∀ q, t.owed q = s.owed q :=
    fun hcalls q => owed_kept hs hstep (hcalls q)
  cases Step.of_step hstep with
  | reject x err hr =>
      refine owed_update hs hstep rfl ?_ rfl
      simp [owed, hr]
  | join x b hr | create x hr | replace x b hr =>
      refine owed_update hs hstep rfl ?_ ?_
      · simp [owed, hr]
      · unfold startHandler
        split <;> rfl
  | cancel R hr => exact owed_update hs hstep rfl (owed_of_failed hr (hcounts R hr)) rfl
  | @body r b R total hr hh =>
      refine owed_update hs hstep rfl (owed_eq_zero hr (by simp [hh, Handler.uncounted])) ?_
      cases b <;> rfl
  | askWrite R a A total data hr hR ha hh | askRead R a A hr hR ha hh =>
      exact owed_update hs hstep rfl (owed_eq_zero hr (by simp [hh, Handler.uncounted])) rfl
  | askFailed R a A err hr hR ha he =>
      refine owed_update hs hstep rfl (owed_eq_zero hr ?_) rfl
      cases hh : R.handler <;> simp_all [askError, Handler.uncounted]
  | replyWrote | replyGranted | replyRefused => exact absurd rfl (hreply _)
  | handleGranted A rest r ha hm hlife hidle | handleRefused A rest r q ha hm hlife hidle =>
      obtain ⟨R, hr, hh⟩ := awaits_of_read hs ha hm hlife hidle
      exact owed_replyTo hs hstep rfl hr hh
  | writeOk => exact absurd rfl (hwrite _)
  | @writeErr a A w ha hw hlife =>
      obtain ⟨hkept, hold, R, hr, hnew⟩ :=
        owed_answered (A.writeErr w) false hs hstep rfl ha hw hlife rfl
      intro q
      by_cases hq : q = w.req
      · rw [hq, hold]
        rcases hnew with ⟨_, hzero⟩ | hnew
        · exact hzero
        · rw [hnew, if_neg Bool.false_ne_true]
      · exact hkept q hq
  | dropAborts A ha => exact hsame fun q => by rw [dropAbortsStep_calls]
  | _ => exact hsame fun q => rfl

theorem owing_of_step (hs : (machine env).Reachable s) (hcounts : CountsTransfers s e)
    (hstep : step env s e = some t) : Owing s t e := by
  have h := Step.of_step hstep
  by_cases hwrite : ∃ a, e = .writeOk a
  · obtain ⟨a, rfl⟩ := hwrite
    have htotal : t.txTotal = s.txTotal := txTotal_same h.counted (by simp)
    cases h with
    | writeOk A w ha hw hlife =>
        obtain ⟨hkept, hold, R, hr, hnew⟩ :=
          owed_answered (A.writeOk env w) true hs hstep rfl ha hw hlife rfl
        refine .written A w ha hw hkept hold ?_ htotal
        rcases hnew with ⟨hh, hzero⟩ | hnew
        · have hbytes : w.bytes = [] := by
            by_contra hbytes
            exact hcounts A ha w hw hbytes R hr hh
          rw [hzero, hbytes, List.length_nil]
        · rw [hnew, if_pos rfl]
  · by_cases hreply : ∃ r, e = .reply r
    · obtain ⟨r, rfl⟩ := hreply
      cases h with
      | replyWrote R total data hr hh =>
          have huncounted : R.handler.uncounted = data := by rw [hh]; rfl
          refine .settled data (fun q hq => owed_kept hs hstep (update_of_ne hq _ _)) ?_ ?_ ?_
          · rw [owed_of_lastOk hr (hcounts R hr), huncounted]
          · exact owed_eq_zero (update_self r _ _) rfl
          · exact txTotal_count rfl rfl
      | replyGranted R hr hh | replyRefused R hr hh =>
          have hold : s.owed r = 0 := owed_eq_zero hr (by simp [hh, Handler.uncounted])
          exact .same (owed_update hs hstep rfl hold rfl) (by simp) rfl
    · have hwrite' : ∀ a, e ≠ .writeOk a := fun a he => hwrite ⟨a, he⟩
      have hreply' : ∀ r, e ≠ .reply r := fun r he => hreply ⟨r, he⟩
      exact .same (owed_step hs hcounts hstep hwrite' hreply') hwrite'
        (txTotal_same h.counted hreply')

theorem txSize_next (hne : ∀ a, e ≠ .writeOk a) : (T.next s e).txSize = T.txSize := by
  cases e with
  | writeOk a => exact absurd rfl (hne a)
  | _ => rfl

theorem txSize_writeOk {w : Writing} (hA : s.actors a = some A) (hw : A.handling = some w) :
    (T.next s (.writeOk a)).txSize = T.txSize + w.bytes.length := by
  simp [Traffic.txSize, Traffic.next, hA, hw]

/-- What is counted as sent lags behind what is written by the chunks that are owed. -/
theorem tally_tx (hs : (machine env).Reachable s) (hcounts : CountsTransfers s e)
    (hstep : step env s e = some t) (h : Tally (2 ^ 64) s.owed s.txTotal T.txSize) :
    Tally (2 ^ 64) t.owed t.txTotal (T.next s e).txSize := by
  cases owing_of_step hs hcounts hstep with
  | same hkept hne htotal =>
      rw [htotal, txSize_next hne]
      exact h.congr hkept rfl rfl
  | written A w hA hw hkept hold hnew htotal =>
      rw [htotal]
      apply h.owe hkept hold
      rw [hnew, txSize_writeOk hA hw]
  | settled data hkept hold hnew htotal =>
      rw [txSize_next (by simp)]
      apply h.settle hkept hnew
      rwa [hold]

theorem inHandOf_eq (hst : s.streams r = some st) : s.inHandOf r = st.inHand.length := by
  rw [inHandOf, hst, Option.elim_some]

/-- No other step than a read and the frame that follows it changes what is in hand. -/
theorem inHandOf_step (hcoherent : Coherent s) (h : Step env s e t)
    (hread : ∀ n, e ≠ .poll r (.data n)) (htell : e ≠ .tell r) : t.inHandOf r = s.inHandOf r := by
  cases hst' : t.streams r with
  | none =>
      cases hst : s.streams r with
      | none => rw [inHandOf, inHandOf, hst, hst']
      | some st =>
          obtain ⟨u, hu⟩ := h.stream_kept hst
          exact absurd (hst'.symm.trans hu) (by simp)
  | some st' =>
      rcases h.stream hcoherent hst' with ⟨st, hst, hmove⟩ | hnew
      · rw [inHandOf_eq hst, inHandOf_eq hst']
        cases hmove with
        | data n => exact absurd rfl (hread n)
        | yield => exact absurd rfl htell
        | wait _ hturn =>
            rw [inHand_of_betweenReads hturn]
            rfl
        | _ => rfl
      · rw [inHandOf_eq hst', hnew.start, inHandOf, hnew.fresh]
        rfl

/-- What becomes of the bytes in hand: a read takes them up, and a frame puts them down. -/
inductive Handing (s t : Server) : ServerEvent → Prop
  | same {e : ServerEvent} (hkept : ∀ q, t.inHandOf q = s.inHandOf q) (hne : ∀ r, e ≠ .tell r)
      (htotal : t.rxTotal = s.rxTotal) : Handing s t e
  | read {r : ReqId} {n : Nat} (hkept : ∀ q, q ≠ r → t.inHandOf q = s.inHandOf q)
      (hold : s.inHandOf r = 0) (hnew : t.inHandOf r = n)
      (htotal : t.rxTotal ≡ s.rxTotal + n [MOD 2 ^ 64]) : Handing s t (.poll r (.data n))
  | yielded {r : ReqId} (st : ReadStream) (hst : s.streams r = some st)
      (hkept : ∀ q, q ≠ r → t.inHandOf q = s.inHandOf q) (hnew : t.inHandOf r = 0)
      (htotal : t.rxTotal = s.rxTotal) : Handing s t (.tell r)

theorem rxTotal_same (h : Counted s e t) (hne : ∀ r n, e ≠ .poll r (.data n)) :
    t.rxTotal = s.rxTotal := by
  cases h with
  | same htaken hstats => simp only [rxTotal, htaken, hstats]
  | taken => exact rxTotal_takeStats s
  | tx R total data hr hh htaken hstats => simp [rxTotal, htaken, hstats]
  | rx => exact absurd rfl (hne _ _)

theorem Step.handing (hcoherent : Coherent s) (h : Step env s e t) : Handing s t e := by
  have hcounted := h.counted
  by_cases hread : ∃ r n, e = .poll r (.data n)
  · obtain ⟨r, n, rfl⟩ := hread
    have hkept : ∀ q, q ≠ r → t.inHandOf q = s.inHandOf q := fun q hq =>
      inHandOf_step hcoherent h (fun m he => hq (ServerEvent.poll.inj he).1.symm) (by simp)
    cases h with
    | pollEnd st R A hst hr ha hactive hresp hturn hres => simp at hres
    | pollData st R A hst hr ha hactive hresp hturn hpos hcap hlen =>
        refine .read hkept ?_ ?_ (rxTotal_count rfl rfl)
        · rw [inHandOf_eq hst, inHand_of_betweenReads hturn, List.length_nil]
        · refine (inHandOf_eq (update_self r _ _)).trans ?_
          change (A.upstream.rx.take n).length = n
          rw [List.length_take]
          omega
  · have htotal : t.rxTotal = s.rxTotal := rxTotal_same hcounted fun r n he => hread ⟨r, n, he⟩
    by_cases htell : ∃ r, e = .tell r
    · obtain ⟨r, rfl⟩ := htell
      have hkept : ∀ q, q ≠ r → t.inHandOf q = s.inHandOf q := fun q hq =>
        inHandOf_step hcoherent h (by simp) fun he => hq (ServerEvent.tell.inj he).symm
      cases h with
      | tellSent st A bytes hst | tellSkipped st A bytes hst =>
          refine .yielded st hst hkept ?_ htotal
          rw [inHandOf_eq (update_self r _ _)]
          rfl
    · refine .same (fun q => ?_) (fun r he => htell ⟨r, he⟩) htotal
      exact inHandOf_step hcoherent h (fun n he => hread ⟨q, n, he⟩) fun he => htell ⟨q, he⟩

theorem yielded_next (hne : ∀ r, e ≠ .tell r) : (T.next s e).yielded = T.yielded := by
  cases e with
  | tell r => exact absurd rfl (hne r)
  | _ => rfl

theorem yielded_tell (hst : s.streams r = some st) :
    (T.next s (.tell r)).yielded = T.yielded ++ [(r, st.inHand)] := by
  simp [Traffic.next, hst]

/-- What is yielded lags behind what is counted as read by the bytes in hand. -/
theorem tally_rx (hcoherent : Coherent s) (hstep : Step env s e t)
    (h : Tally (2 ^ 64) s.inHandOf (Traffic.rxSize T.yielded) s.rxTotal) :
    Tally (2 ^ 64) t.inHandOf (Traffic.rxSize (T.next s e).yielded) t.rxTotal := by
  cases Step.handing hcoherent hstep with
  | same hkept hne htotal =>
      rw [htotal, yielded_next hne]
      exact h.congr hkept rfl rfl
  | read hkept hold hnew htotal =>
      rw [yielded_next (by simp)]
      apply h.owe hkept hold
      rwa [hnew]
  | yielded st hst hkept hnew htotal =>
      rw [htotal]
      apply h.settle hkept hnew
      rw [inHandOf_eq hst, yielded_tell hst, Traffic.rxSize_append]

/-- What is left of a stream that is over has been yielded, or was never read. -/
structure Whole (st : ReadStream) : Prop where
  ended : st.ended = true → st.inHand = []
  dropped : st.dropped = true → st.ended = true ∨ st.frames = [] ∧ st.inHand = []

theorem Whole.of_open {st : ReadStream} (hopen : st.ended = false) (hkept : st.dropped = false) :
    Whole st :=
  ⟨fun h => absurd (hopen.symm.trans h) Bool.false_ne_true,
    fun h => absurd (hkept.symm.trans h) Bool.false_ne_true⟩

theorem Whole.of_active {st st' : ReadStream} (hactive : st.active = true)
    (hended : st'.ended = st.ended) (hdropped : st'.dropped = st.dropped) : Whole st' := by
  simp only [ReadStream.active, Bool.and_eq_true, Bool.not_eq_true'] at hactive
  exact .of_open (hended.trans hactive.1.1) (hdropped.trans hactive.1.2)

theorem Step.whole {st' : ReadStream} (hcoherent : Coherent s) (hcounts : CountsTransfers s e)
    (hwhole : ∀ st, s.streams r = some st → Whole st) (h : Step env s e t)
    (hst' : t.streams r = some st') : Whole st' := by
  rcases h.stream hcoherent hst' with ⟨st, hst, hmove⟩ | hnew
  · have hold := hwhole st hst
    cases hmove with
    | stay => exact hold
    | wait hactive | data n bytes hactive | yield bytes hactive => exact .of_active hactive rfl rfl
    | finish res hactive hturn => exact ⟨fun _ => inHand_of_betweenReads hturn, fun _ => .inl rfl⟩
    | abort => exact ⟨hold.ended, hold.dropped⟩
    | stop => exact ⟨fun _ => hcounts st hst, fun _ => .inl rfl⟩
    | drop => exact ⟨hold.ended, fun _ => hcounts st hst⟩
  · rw [hnew.start]
    exact .of_open rfl rfl

/-- The two counters lag behind the transfers by what is owed and what is in hand. -/
structure Tallied (s : Server) (T : Traffic) : Prop where
  tx : Tally (2 ^ 64) s.owed s.txTotal T.txSize
  rx : Tally (2 ^ 64) s.inHandOf (Traffic.rxSize T.yielded) s.rxTotal
  known : ∀ y ∈ T.yielded, ∃ st, s.streams y.1 = some st ∧ y.2 ∈ st.frames
  whole : ∀ r st, s.streams r = some st → Whole st

theorem known_step (hcoherent : Coherent s)
    (hknown : ∀ y ∈ T.yielded, ∃ st, s.streams y.1 = some st ∧ y.2 ∈ st.frames)
    (h : Step env s e t) :
    ∀ y ∈ (T.next s e).yielded, ∃ st, t.streams y.1 = some st ∧ y.2 ∈ st.frames := by
  have hkept : ∀ y ∈ T.yielded, ∃ st, t.streams y.1 = some st ∧ y.2 ∈ st.frames := by
    intro y hy
    obtain ⟨st, hst, hmem⟩ := hknown y hy
    obtain ⟨st', hst', hgrows⟩ := h.stream_grows hcoherent hst
    exact ⟨st', hst', hgrows.frames.subset hmem⟩
  cases h with
  | tellSent st A bytes hst ha hturn | tellSkipped st A bytes hst ha hturn =>
      intro y hy
      rw [yielded_tell hst] at hy
      rcases List.mem_append.mp hy with hy | hy
      · exact hkept y hy
      · obtain rfl := List.mem_singleton.mp hy
        refine ⟨_, update_self _ _ _, ?_⟩
        simp [ReadStream.inHand, hturn]
  | _ => exact hkept

theorem Tallied.step (h : Tallied s T) (hs : (machine env).Reachable s)
    (hcounts : CountsTransfers s e) (hstep : Server.step env s e = some t) :
    Tallied t (T.next s e) := by
  have hcoherent := coherent_of_reachable hs
  have hcases := Step.of_step hstep
  exact ⟨tally_tx hs hcounts hstep h.tx, tally_rx hcoherent hcases h.rx,
    known_step hcoherent h.known hcases,
    fun r _ => hcases.whole hcoherent hcounts (h.whole r)⟩

theorem tallied_init : Tallied init ⟨[], []⟩ := by
  refine ⟨.zero (fun _ => rfl) rfl, .zero (fun _ => rfl) rfl, ?_, ?_⟩
  · intro y hy
    cases hy
  · intro r st hst
    cases hst

theorem owed_of_quiet (h : Quiet s) (r : ReqId) : s.owed r = 0 := by
  cases hr : s.calls r with
  | none => rw [owed, hr, Option.elim_none]
  | some R =>
      have hdone := (h r).1 R hr
      apply owed_eq_zero hr
      cases hh : R.handler <;> simp_all [Handler.inProgress, Handler.uncounted]

/-- Nothing is owed or in hand between two requests. -/
theorem Tallied.accurate (h : Tallied s T) (hquiet : Quiet s) : Accurate s T := by
  have hhand : ∀ r, s.inHandOf r = 0 := by
    intro r
    cases hst : s.streams r with
    | none => rw [inHandOf, hst, Option.elim_none]
    | some st =>
        rw [inHandOf_eq hst]
        have hnil : st.inHand = [] := by
          have hwhole := h.whole r st hst
          rcases (hquiet r).2 st hst with hended | hdropped
          · exact hwhole.ended hended
          · rcases hwhole.dropped hdropped with hended | ⟨_, hnil⟩
            · exact hwhole.ended hended
            · exact hnil
        rw [hnil, List.length_nil]
  have hall : s.readToEnd T = T.yielded := by
    refine List.filter_eq_self.mpr fun y hy => ?_
    obtain ⟨st, hst, hmem⟩ := h.known y hy
    rw [hst, Option.any_some]
    rcases (hquiet y.1).2 st hst with hended | hdropped
    · exact hended
    · rcases (h.whole y.1 st hst).dropped hdropped with hended | ⟨hnone, _⟩
      · exact hended
      · simp [hnone] at hmem
  refine ⟨h.tx.all_settled (owed_of_quiet hquiet), ?_⟩
  rw [hall]
  exact (h.rx.all_settled hhand).symm

/-- The server and what has been transferred. -/
def metered (env : ServerEnv) : Machine (Server × Traffic) ServerEvent :=
  (machine env).record ⟨[], []⟩ Traffic.next

/-- In a run that counts what it transfers, the counters are right whenever no request is in
progress. -/
theorem run_accurate {es : List ServerEvent} (h : (machine env).Run CountsTransfers es s) :
    ∀ fs p, fs <+: es → (metered env).Run (fun _ _ => True) fs p →
      Quiet p.1 → Accurate p.1 p.2 := by
  intro fs p hfs hp hquiet
  have htallied : Tallied p.1 p.2 := by
    refine (h.record_prefix hfs hp).record_invariant (I := Tallied) tallied_init ?_
    intro s e t T hs hI hcounts hstep
    exact hI.step hs hcounts hstep
  exact htallied.accurate hquiet

/-- Neither the requests of a run nor their response bodies go on. -/
theorem quiet_of_run {C : Server → ServerEvent → Prop} {es : List ServerEvent} (rs : List ReqId)
    (h : (machine env).Run C es s) (hrs : ∀ r req fresh, .request r req fresh ∈ es → r ∈ rs)
    (hover : ∀ r ∈ rs, s.Over r) : Quiet s := by
  have hmem : ∀ r R, s.calls r = some R → r ∈ rs := by
    intro r R hr
    obtain ⟨req, fresh, hrequest⟩ := requested_of_run h hr
    exact hrs r req fresh hrequest
  intro r
  constructor
  · intro R hr
    exact (hover r (hmem r R hr)).1 R hr
  · intro st hst
    obtain ⟨R, hr, _⟩ := (coherent_of_reachable h.reachable).stream hst
    exact (hover r (hmem r R hr)).2 st hst

/-- Two bytes are written, and one byte is read to the end of its body. -/
def echoed : List ServerEvent :=
  [.request 0 (sampleRequest .get) 0, .actor 0 .start, .actor 0 (.connect 8 8), .ask 0,
    .handle 0, .reply 0, .request 1 (sampleRequest .post) 1, .body 1 (.chunk [1, 2]), .ask 1,
    .handle 0, .actor 0 (.write 2), .writeOk 0, .reply 1, .body 1 .finished, .takeStats,
    .actor 0 (.upstreamSend [7]), .poll 0 (.data 1), .tell 0, .poll 0 .pending]

theorem echoed_accurate :
    ∃ p, (metered sampleEnv).Run (fun _ _ => True) echoed p ∧ p.2 = ⟨[[1, 2]], [(0, [7])]⟩ ∧
      p.1.taken = [⟨2, 0⟩] ∧ p.1.stats = ⟨0, 1⟩ ∧ Quiet p.1 ∧ Accurate p.1 p.2 := by
  obtain ⟨s, hrun, _⟩ := Machine.exists_run_of_restrict (M := machine sampleEnv)
    (C := CountsTransfers) (P := fun _ => True) echoed (by decide +kernel)
  obtain ⟨p, hp, htraffic, htaken, hstats, hget, hpost⟩ :=
    Machine.exists_run (M := metered sampleEnv)
      (P := fun p => p.2 = ⟨[[1, 2]], [(0, [7])]⟩ ∧ p.1.taken = [⟨2, 0⟩] ∧ p.1.stats = ⟨0, 1⟩ ∧
        p.1.Over 0 ∧ p.1.Over 1) echoed (by decide +kernel)
  have hquiet : Quiet p.1 := by
    refine quiet_of_run [0, 1] (hrun.record_prefix (List.prefix_refl _) hp).of_record ?_ ?_
    · simp +contextual [echoed, or_imp]
    · simp [hget, hpost]
  exact ⟨p, hp, htraffic, htaken, hstats, hquiet,
    run_accurate hrun _ p (List.prefix_refl _) hp hquiet⟩

/-- The three bytes of a write that failed are counted. -/
theorem postFails_not_accurate :
    ∃ p, (metered sampleEnv).Run (fun _ _ => True) postFails p ∧ p.2.written = [] ∧
      p.1.txTotal = 3 ∧ Quiet p.1 ∧ ¬ Accurate p.1 p.2 := by
  obtain ⟨p, hp, hwritten, htotal, hover⟩ := Machine.exists_run (M := metered sampleEnv)
    (P := fun p => p.2.written = [] ∧ p.1.txTotal = 3 ∧ p.1.Over 0) postFails (by decide +kernel)
  have hrun : (machine sampleEnv).Run (fun _ _ => True) postFails p.1 :=
    Machine.Run.of_record hp
  have hquiet : Quiet p.1 := by
    refine quiet_of_run [0] hrun ?_ ?_
    · simp +contextual [postFails, postChunk]
    · simp [hover]
  refine ⟨p, hp, hwritten, htotal, hquiet, fun haccurate => ?_⟩
  have htx := haccurate.tx
  rw [htotal, Traffic.txSize, hwritten] at htx
  exact absurd htx (by decide)

end Server
end Fronting
