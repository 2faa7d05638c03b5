import Fronting.Accounting
import Fronting.IdleTimeout

/-!
# The accept loop of the server binary

`main` of `domain_fronting_server` takes the counters when it accepts a connection, unless it
has done so within the last five seconds, and logs them with the number of connections since.
-/

namespace Fronting

/-- A line of the log, and when it was written. -/
structure Report where
  time : Nat
  newConnections : Nat
  stats : Stats
deriving DecidableEq

structure AcceptEnv where
  server : ServerEnv
  /-- The length of a second. -/
  second : Nat

namespace AcceptEnv

/-- `Duration::from_secs(5)` -/
def reportInterval (env : AcceptEnv) : Nat := 5 * env.second

end AcceptEnv

/-- The loop with the server that it owns; `accepted` counts all its connections. -/
structure AcceptLoop where
  server : Server
  connectionsSinceReport : Nat
  lastReport : Option Nat
  reports : List Report
  accepted : Nat

inductive AcceptEvent
  | accept
  | server (e : ServerEvent)
deriving DecidableEq

namespace AcceptLoop

variable {env : AcceptEnv} {s t : AcceptLoop} {e : AcceptEvent}

def init : AcceptLoop := ⟨.init, 0, none, [], 0⟩

/-- `last_report.is_none_or(|t| t.elapsed() >= Duration::from_secs(5))` -/
def reportDue (env : AcceptEnv) (s : AcceptLoop) : Bool :=
  s.lastReport.all fun t => env.reportInterval ≤ s.server.now - t

def accept (env : AcceptEnv) (s : AcceptLoop) : AcceptLoop :=
  let s := { s with connectionsSinceReport := s.connectionsSinceReport + 1
                    accepted := s.accepted + 1 }
  if s.reportDue env then
    { s with server := s.server.takeStats
             reports := s.reports ++
               [⟨s.server.now, s.connectionsSinceReport, s.server.stats⟩]
             connectionsSinceReport := 0, lastReport := some s.server.now }
  else s

/-- Nothing else takes the counters. -/
def step (env : AcceptEnv) (s : AcceptLoop) : AcceptEvent → Option AcceptLoop
  | .accept => some (s.accept env)
  | .server e =>
    if e = .takeStats then none
    else (Server.step env.server s.server e).map fun t => { s with server := t }

def machine (env : AcceptEnv) : Machine AcceptLoop AcceptEvent := ⟨init, step env⟩

/-- The log accounts for every connection, and is not written too often. -/
structure Logged (env : AcceptEnv) (s : AcceptLoop) : Prop where
  taken : s.server.taken = s.reports.map Report.stats
  connections : (s.reports.map Report.newConnections).sum + s.connectionsSinceReport = s.accepted
  positive : ∀ rep ∈ s.reports, 0 < rep.newConnections
  spaced : s.reports.Pairwise fun a b => a.time + env.reportInterval ≤ b.time
  last : s.lastReport = s.reports.getLast?.map Report.time
  past : ∀ rep ∈ s.reports, rep.time ≤ s.server.now
  started : 0 < s.accepted → s.reports ≠ []

/-- After each connection the log is less than five seconds old. -/
def upToDate (env : AcceptEnv) (s : AcceptLoop) : Prop :=
  ∃ t, s.lastReport = some t ∧ (t = s.server.now ∨ s.server.now < t + env.reportInterval)

theorem logged_init : Logged env init := by
  constructor <;> simp [init, Server.init]

/-- A report is due, and covers what has happened since the last. -/
theorem Logged.report (h : Logged env s) (hdue : s.reportDue env = true) :
    Logged env { s with server := s.server.takeStats
                        reports := s.reports ++
                          [⟨s.server.now, s.connectionsSinceReport + 1, s.server.stats⟩]
                        connectionsSinceReport := 0, lastReport := some s.server.now
                        accepted := s.accepted + 1 } := by
  have hspaced : ∀ rep ∈ s.reports, rep.time + env.reportInterval ≤ s.server.now := by
    intro rep hrep
    cases hlast : s.reports.getLast? with
    | none =>
        rw [List.getLast?_eq_none_iff.mp hlast] at hrep
        cases hrep
    | some last =>
        obtain ⟨earlier, hsplit⟩ := List.getLast?_eq_some_iff.mp hlast
        have hpast := h.past last (hsplit ▸ by simp)
        have hlate : last.time + env.reportInterval ≤ s.server.now := by
          rw [reportDue, h.last, hlast, Option.map_some, Option.all_some, decide_eq_true_eq] at hdue
          omega
        have hspaced := h.spaced
        rw [hsplit] at hrep hspaced
        rcases List.mem_append.mp hrep with hrep | hrep
        · have hbefore := (List.pairwise_append.mp hspaced).2.2 rep hrep last (by simp)
          omega
        · rwa [List.mem_singleton.mp hrep]
  constructor
  · simp [Server.takeStats, h.taken]
  · have hconnections := h.connections
    simp only [List.map_append, List.sum_append, List.map_singleton, List.sum_singleton]
    omega
  · intro rep hrep
    rcases List.mem_append.mp hrep with hrep | hrep
    · exact h.positive rep hrep
    · rw [List.mem_singleton.mp hrep]
      exact Nat.succ_pos _
  · rw [List.pairwise_append]
    refine ⟨h.spaced, List.pairwise_singleton _ _, fun a ha b hb => ?_⟩
    rw [List.mem_singleton.mp hb]
    exact hspaced a ha
  · simp
  · intro rep hrep
    rcases List.mem_append.mp hrep with hrep | hrep
    · exact h.past rep hrep
    · rw [List.mem_singleton.mp hrep]
      exact le_rfl
  · simp

/-- The connection waits for the next report. -/
theorem Logged.count (h : Logged env s) (hdue : s.reportDue env = false) :
    Logged env { s with connectionsSinceReport := s.connectionsSinceReport + 1
                        accepted := s.accepted + 1 } := by
  have hnonempty : s.reports ≠ [] := by
    intro hnil
    rw [reportDue, h.last, hnil] at hdue
    cases hdue
  have hconnections := h.connections
  refine ⟨h.taken, ?_, h.positive, h.spaced, h.last, h.past, fun _ => hnonempty⟩
  dsimp only
  omega

theorem Logged.accept (h : Logged env s) : Logged env (s.accept env) := by
  cases hdue : s.reportDue env with
  | true =>
      have hsame : s.accept env = _ := if_pos hdue
      rw [hsame]
      exact h.report hdue
  | false =>
      have hsame : s.accept env = _ := if_neg (by rw [← Bool.not_eq_true] at hdue; exact hdue)
      rw [hsame]
      exact h.count hdue

theorem upToDate_accept (s : AcceptLoop) : (s.accept env).upToDate env := by
  cases hdue : s.reportDue env with
  | true =>
      have hsame : s.accept env = _ := if_pos hdue
      rw [hsame]
      exact ⟨s.server.now, rfl, .inl rfl⟩
  | false =>
      have hsame : s.accept env = _ := if_neg (by rw [← Bool.not_eq_true] at hdue; exact hdue)
      rw [hsame]
      cases hlast : s.lastReport with
      | none => simp [reportDue, hlast] at hdue
      | some t =>
          refine ⟨t, rfl, .inr ?_⟩
          simp only [reportDue, hlast, Option.all_some, decide_eq_false_iff_not] at hdue
          dsimp only
          omega

theorem Logged.server {d : ServerEvent} {u : Server} (h : Logged env s) (hd : d ≠ .takeStats)
    (hstep : Server.step env.server s.server d = some u) : Logged env { s with server := u } := by
  have hcases := Server.Step.of_step hstep
  have htaken : u.taken = s.server.taken := by
    cases hcases.counted with
    | taken => exact absurd rfl hd
    | _ => assumption
  exact ⟨htaken.trans h.taken, h.connections, h.positive, h.spaced, h.last,
    fun rep hrep => (h.past rep hrep).trans hcases.now_le, h.started⟩

theorem Logged.step (h : Logged env s) (hstep : step env s e = some t) : Logged env t := by
  cases e with
  | accept =>
      obtain rfl := Option.some.inj hstep
      exact h.accept
  | server d =>
      simp only [AcceptLoop.step, Option.ite_none_left_eq_some, Option.map_eq_some_iff] at hstep
      obtain ⟨hd, u, hu, rfl⟩ := hstep
      exact h.server hd hu

theorem logged_of_reachable (hs : (machine env).Reachable s) : Logged env s :=
  hs.invariant logged_init fun _ _ _ _ h hstep => h.step hstep

/-- Every connection is in one report or waits for the next, which is not due yet. -/
theorem reports_count (hs : (machine env).Reachable s) : Logged env s ∧
    ∀ t, step env s .accept = some t → t.upToDate env := by
  refine ⟨logged_of_reachable hs, fun t hstep => ?_⟩
  obtain rfl := Option.some.inj hstep
  exact upToDate_accept s

/-- A report at 0, two connections before it is five seconds old, and one after. -/
def fourConnections : List AcceptEvent :=
  [.accept, .server (.tick 2), .accept, .accept, .server (.tick 4), .accept]

theorem fourConnections_count : ∃ s, (machine ⟨Server.sampleEnv, 1⟩).Run (fun _ _ => True)
    fourConnections s ∧ s.reports = [⟨0, 1, ⟨0, 0⟩⟩, ⟨6, 3, ⟨0, 0⟩⟩] ∧ s.accepted = 4 ∧
    Logged ⟨Server.sampleEnv, 1⟩ s ∧
    ∀ t, step ⟨Server.sampleEnv, 1⟩ s .accept = some t → t.upToDate ⟨Server.sampleEnv, 1⟩ := by
  obtain ⟨s, hrun, hreports, haccepted⟩ := Machine.exists_run
    (M := machine ⟨Server.sampleEnv, 1⟩)
    (P := fun s => s.reports = [⟨0, 1, ⟨0, 0⟩⟩, ⟨6, 3, ⟨0, 0⟩⟩] ∧ s.accepted = 4)
    fourConnections (by decide)
  exact ⟨s, hrun, hreports, haccepted, reports_count hrun.reachable⟩

/-- The reports and the counters together are what the server has transferred. -/
structure Accurate (s : AcceptLoop) (T : Traffic) : Prop where
  tx : (s.reports.map fun rep => rep.stats.bytesTx.toNat).sum + s.server.stats.bytesTx.toNat ≡
    T.txSize [MOD 2 ^ 64]
  rx : (s.reports.map fun rep => rep.stats.bytesRx.toNat).sum + s.server.stats.bytesRx.toNat ≡
    Traffic.rxSize (s.server.readToEnd T) [MOD 2 ^ 64]

def CountsTransfers (s : AcceptLoop) : AcceptEvent → Prop
  | .accept => True
  | .server d => s.server.CountsTransfers d

instance (s : AcceptLoop) (e : AcceptEvent) : Decidable (s.CountsTransfers e) := by
  unfold CountsTransfers
  split <;> infer_instance

def traffic (s : AcceptLoop) (e : AcceptEvent) (T : Traffic) : Traffic :=
  match e with
  | .accept => T
  | .server d => Traffic.next s.server d T

/-- The loop and what its server has transferred. -/
def metered (env : AcceptEnv) : Machine (AcceptLoop × Traffic) AcceptEvent :=
  (machine env).record ⟨[], []⟩ traffic

variable {p : AcceptLoop × Traffic} {es : List AcceptEvent}

variable (env) in
theorem accept_server (s : AcceptLoop) : (s.accept env).server = s.server ∨
    (s.accept env).server = s.server.takeStats := by
  unfold accept
  dsimp only
  split
  · exact .inr rfl
  · exact .inl rfl

/-- The server of the loop runs as a server by itself. -/
theorem server_run (h : (metered env).Run (fun p e => p.1.CountsTransfers e) es p) :
    ∃ ds, (Server.metered env.server).Run (fun q d => q.1.CountsTransfers d) ds
      (p.1.server, p.2) := by
  refine Machine.Run.component (fun p : AcceptLoop × Traffic => (p.1.server, p.2)) rfl ?_ h
  rintro ⟨s, T⟩ e ⟨t, T'⟩ hcounts hstep
  obtain ⟨hstep, rfl⟩ := Machine.record_step hstep
  cases e with
  | accept =>
      obtain rfl := Option.some.inj hstep
      rcases accept_server env s with hsame | htaken
      · exact .inl (Prod.ext hsame rfl)
      · refine .inr ⟨.takeStats, trivial, ?_⟩
        simp only [htaken]
        rfl
  | server d =>
      simp only [machine, AcceptLoop.step, Option.ite_none_left_eq_some,
        Option.map_eq_some_iff] at hstep
      obtain ⟨_, u, hu, rfl⟩ := hstep
      refine .inr ⟨d, hcounts, ?_⟩
      simp [Server.metered, Machine.record, Server.machine, hu, traffic]

/-- While the server counts what it transfers, the reports are right between requests. -/
theorem reports_accurate (h : (metered env).Run (fun p e => p.1.CountsTransfers e) es p)
    (hquiet : p.1.server.Quiet) : Accurate p.1 p.2 := by
  obtain ⟨ds, hds⟩ := server_run h
  have haccurate := Server.run_accurate hds.of_record ds _ (List.prefix_refl ds)
    (hds.mono fun _ _ _ => trivial) hquiet
  have htaken := (logged_of_reachable h.of_record.reachable).taken
  obtain ⟨htx, hrx⟩ := haccurate
  simp only [Server.txTotal, Server.rxTotal, htaken, List.map_append, List.map_map,
    List.map_singleton, List.sum_append, List.sum_singleton] at htx hrx
  exact ⟨htx, hrx⟩

theorem requested_of_run {C : AcceptLoop → AcceptEvent → Prop} {r : ReqId} {R : Call}
    (h : (machine env).Run C es s) (hr : s.server.calls r = some R) :
    ∃ req fresh, .server (.request r req fresh) ∈ es := by
  induction h generalizing R with
  | nil => simp [machine, init, Server.init] at hr
  | @snoc es s t e _ _ hstep ih =>
      cases e with
      | accept =>
          obtain rfl := Option.some.inj hstep
          have hold : s.server.calls r = some R := by
            rcases accept_server env s with hsame | htaken
            · rwa [hsame] at hr
            · rwa [htaken] at hr
          obtain ⟨req, fresh, hmem⟩ := ih hold
          exact ⟨req, fresh, List.mem_append_left _ hmem⟩
      | server d =>
          simp only [machine, AcceptLoop.step, Option.ite_none_left_eq_some,
            Option.map_eq_some_iff] at hstep
          obtain ⟨_, u, hu, rfl⟩ := hstep
          rcases (Server.Step.of_step hu).call hr with ⟨R₀, hR₀, _⟩ | ⟨_, req, fresh, rfl, _⟩
          · obtain ⟨req, fresh, hmem⟩ := ih hR₀
            exact ⟨req, fresh, List.mem_append_left _ hmem⟩
          · exact ⟨req, fresh, by simp⟩

/-- Two bytes are written between two connections, and nobody reads. -/
def reported : List AcceptEvent :=
  [.accept, .server (.request 0 (Server.sampleRequest .post) 0), .server (.actor 0 .start),
    .server (.actor 0 (.connect 8 8)), .server (.body 0 (.chunk [1, 2])), .server (.ask 0),
    .server (.handle 0), .server (.actor 0 (.write 2)), .server (.writeOk 0), .server (.reply 0),
    .server (.body 0 .finished), .server (.tick 5), .accept]

theorem reported_accurate : ∃ p, (metered ⟨Server.sampleEnv, 1⟩).Run
      (fun p e => p.1.CountsTransfers e) reported p ∧
    p.1.reports = [⟨0, 1, ⟨0, 0⟩⟩, ⟨5, 1, ⟨2, 0⟩⟩] ∧ p.2 = ⟨[[1, 2]], []⟩ ∧
    Accurate p.1 p.2 := by
  obtain ⟨s, hrun, _⟩ := Machine.exists_run_of_restrict (M := machine ⟨Server.sampleEnv, 1⟩)
    (C := CountsTransfers) (P := fun _ => True) reported (by decide +kernel)
  obtain ⟨p, hp, hreports, htraffic, hover⟩ :=
    Machine.exists_run (M := metered ⟨Server.sampleEnv, 1⟩)
      (P := fun p => p.1.reports = [⟨0, 1, ⟨0, 0⟩⟩, ⟨5, 1, ⟨2, 0⟩⟩] ∧ p.2 = ⟨[[1, 2]], []⟩ ∧
        p.1.server.Over 0) reported (by decide +kernel)
  have hcounts := hrun.record_prefix (List.prefix_refl _) hp
  have hserver : (Server.machine Server.sampleEnv).Reachable p.1.server := by
    obtain ⟨ds, hds⟩ := server_run hcounts
    exact hds.of_record.reachable
  have hloop : (machine ⟨Server.sampleEnv, 1⟩).Run CountsTransfers reported p.1 :=
    Machine.Run.of_record hcounts
  have honly : ∀ r R, p.1.server.calls r = some R → r = 0 := by
    intro r R hr
    obtain ⟨req, fresh, hmem⟩ := requested_of_run hloop hr
    simp only [reported, List.mem_cons, List.not_mem_nil, reduceCtorEq, AcceptEvent.server.injEq,
      ServerEvent.request.injEq, or_false, false_or] at hmem
    exact hmem.1
  have hquiet : p.1.server.Quiet := by
    intro r
    refine ⟨fun R hr => ?_, fun st hst => ?_⟩
    · obtain rfl := honly r R hr
      exact hover.1 R hr
    · obtain ⟨R, hr, _⟩ := (Server.coherent_of_reachable hserver).stream hst
      obtain rfl := honly r R hr
      exact hover.2 st hst
  exact ⟨p, hcounts, hreports, htraffic, reports_accurate hcounts hquiet⟩

end AcceptLoop
end Fronting
