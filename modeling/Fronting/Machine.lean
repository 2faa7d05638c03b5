import Mathlib.Data.List.Basic
import Mathlib.Data.List.Infix

/-!
# Deterministic labelled machines

An event carries every choice of the environment and of the scheduler, so a step
is a partial function and a list of events names at most one run. Invariants are
proved over `Run`, whose steps all meet a condition on the state and the event.
-/

namespace Fronting

structure Machine (σ ε : Type*) where
  init : σ
  step : σ → ε → Option σ

namespace Machine

variable {σ ε τ δ : Type*} (M : Machine σ ε)

def exec : σ → List ε → Option σ
  | s, [] => some s
  | s, e :: es => (M.step s e).bind fun t => exec t es

@[simp] theorem exec_nil (s : σ) : M.exec s [] = some s := rfl

theorem exec_cons (s : σ) (e : ε) (es : List ε) :
    M.exec s (e :: es) = (M.step s e).bind fun t => M.exec t es := rfl

@[simp] theorem exec_singleton (s : σ) (e : ε) : M.exec s [e] = M.step s e := by
  simp [exec_cons]

theorem exec_append (s : σ) (es fs : List ε) :
    M.exec s (es ++ fs) = (M.exec s es).bind fun t => M.exec t fs := by
  induction es generalizing s with
  | nil => rfl
  | cons e es ih =>
      cases he : M.step s e with
      | none => simp [exec_cons, he]
      | some t => simp [exec_cons, he, ih]

/-- The events lead from the initial state to the given one, and `C` holds of
each of them in the state in which it is taken. -/
inductive Run (C : σ → ε → Prop) : List ε → σ → Prop
  | nil : Run C [] M.init
  | snoc {es : List ε} {s t : σ} {e : ε} :
      Run C es s → C s e → M.step s e = some t → Run C (es ++ [e]) t

def Reachable (s : σ) : Prop := ∃ es, M.Run (fun _ _ => True) es s

variable {M} {C D : σ → ε → Prop} {es : List ε} {s t : σ} {e : ε}

theorem Run.exec_eq (h : M.Run C es s) : M.exec M.init es = some s := by
  induction h with
  | nil => rfl
  | snoc _ _ hstep ih => rw [exec_append, ih, Option.bind_some, exec_singleton, hstep]

theorem Run.mono (hCD : ∀ s e, C s e → D s e) (h : M.Run C es s) : M.Run D es s := by
  induction h with
  | nil => exact .nil
  | snoc _ hc hstep ih => exact .snoc ih (hCD _ _ hc) hstep

/-- A run goes on with events that meet `C` in every state. -/
theorem Run.extend {fs : List ε} (h : M.Run C es s) (hfs : M.exec s fs = some t)
    (hC : ∀ s, ∀ e ∈ fs, C s e) : M.Run C (es ++ fs) t := by
  induction fs generalizing es s with
  | nil =>
      obtain rfl : s = t := by simpa using hfs
      rwa [List.append_nil]
  | cons e fs ih =>
      rw [exec_cons] at hfs
      obtain ⟨u, hu, ht⟩ := Option.bind_eq_some_iff.mp hfs
      have hnext : M.Run C (es ++ [e]) u := h.snoc (hC s e List.mem_cons_self) hu
      have hrest := ih hnext ht fun s e he => hC s e (List.mem_cons_of_mem _ he)
      rwa [List.append_assoc] at hrest

theorem Run.of_forall (h : M.Run C es s) (hD : ∀ s, ∀ e ∈ es, D s e) : M.Run D es s :=
  Run.nil.extend h.exec_eq hD

theorem run_of_exec (h : M.exec M.init es = some s) : M.Run (fun _ _ => True) es s := by
  induction es using List.reverseRecOn generalizing s with
  | nil =>
      obtain rfl : M.init = s := by simpa using h
      exact .nil
  | append_singleton es e ih =>
      rw [exec_append] at h
      obtain ⟨u, hu, hs⟩ := Option.bind_eq_some_iff.mp h
      exact .snoc (ih hu) trivial (by simpa using hs)

theorem reachable_of_exec (h : M.exec M.init es = some s) : M.Reachable s := ⟨es, run_of_exec h⟩

/-- A run found by evaluation. -/
theorem exists_run {P : σ → Prop} [DecidablePred P] (fs : List ε)
    (h : ((M.exec M.init fs).any fun s => decide (P s)) = true) :
    ∃ s, M.Run (fun _ _ => True) fs s ∧ P s := by
  obtain ⟨s, hs, hP⟩ := (Option.any_eq_true _ _).mp h
  exact ⟨s, run_of_exec hs, of_decide_eq_true hP⟩

variable (M C) in
/-- Only the steps that meet `C`. -/
def restrict [∀ s e, Decidable (C s e)] : Machine σ ε :=
  ⟨M.init, fun s e => if C s e then M.step s e else none⟩

theorem Run.of_restrict [∀ s e, Decidable (C s e)] (h : (M.restrict C).Run D es s) :
    M.Run C es s := by
  induction h with
  | nil => exact .nil
  | snoc _ _ hstep ih =>
      obtain ⟨hc, hstep'⟩ := Option.ite_none_right_eq_some.mp hstep
      exact ih.snoc hc hstep'

/-- A run found by evaluation, with `C` evaluated at each of its steps. -/
theorem exists_run_of_restrict [∀ s e, Decidable (C s e)] {P : σ → Prop} [DecidablePred P]
    (fs : List ε)
    (h : (((M.restrict C).exec M.init fs).any fun s => decide (P s)) = true) :
    ∃ s, M.Run C fs s ∧ P s := by
  obtain ⟨s, hrun, hP⟩ := exists_run (M := M.restrict C) fs h
  exact ⟨s, hrun.of_restrict, hP⟩

theorem Run.reachable (h : M.Run C es s) : M.Reachable s := ⟨es, h.mono fun _ _ _ => trivial⟩

theorem reachable_init : M.Reachable M.init := ⟨[], .nil⟩

theorem Reachable.step (h : M.Reachable s) (hstep : M.step s e = some t) : M.Reachable t := by
  obtain ⟨es, hrun⟩ := h
  exact ⟨es ++ [e], hrun.snoc trivial hstep⟩

/-- What holds at the start and is kept by every step that meets `C` holds
after every run of such steps. -/
theorem Run.invariant {I : σ → Prop} (hinit : I M.init)
    (hstep : ∀ s e t, M.Reachable s → I s → C s e → M.step s e = some t → I t)
    (h : M.Run C es s) : I s := by
  induction h with
  | nil => exact hinit
  | snoc hrun hc hs ih => exact hstep _ _ _ hrun.reachable ih hc hs

theorem Reachable.invariant {I : σ → Prop} (hinit : I M.init)
    (hstep : ∀ s e t, M.Reachable s → I s → M.step s e = some t → I t)
    (h : M.Reachable s) : I s := by
  obtain ⟨es, hrun⟩ := h
  exact hrun.invariant hinit fun s e t hr hi _ hs => hstep s e t hr hi hs

theorem Run.exists_prefix {fs : List ε} (h : M.Run C es s) (hfs : fs <+: es) :
    ∃ u, M.Run C fs u := by
  induction h with
  | nil =>
      rw [List.prefix_nil.mp hfs]
      exact ⟨_, .nil⟩
  | snoc hrun hc hstep ih =>
      rcases List.prefix_concat_iff.mp hfs with rfl | hlt
      · exact ⟨_, hrun.snoc hc hstep⟩
      · exact ih hlt

theorem Run.unique (h : M.Run C es s) (h' : M.Run D es t) : s = t :=
  Option.some.inj (h.exec_eq.symm.trans h'.exec_eq)

theorem Run.exec_suffix {fs : List ε} (h : M.Run C es s) (h' : M.Run D (es ++ fs) t) :
    M.exec s fs = some t := by
  have hexec := h'.exec_eq
  rwa [exec_append, h.exec_eq, Option.bind_some] at hexec

/-- A run that meets `C` goes on as another run does, if the next step meets `C`. -/
theorem Run.snoc_of_run (h : M.Run C es s) (hc : C s e) (h' : M.Run D (es ++ [e]) t) :
    M.Run C (es ++ [e]) t := by
  have hstep := h.exec_suffix h'
  rw [exec_singleton] at hstep
  exact h.snoc hc hstep

/-- `P` follows from what the steps that meet `C` keep, and breaks at the first step that
misses `C`: then a run has `P` in all its states if and only if all its steps meet `C`. -/
theorem run_iff_of_invariant {P Q : σ → Prop} (hinit : Q M.init)
    (hkeep : ∀ s e t, M.Reachable s → Q s → C s e → M.step s e = some t → Q t)
    (hP : ∀ s, M.Reachable s → Q s → P s)
    (hbreak : ∀ s e t, M.Reachable s → Q s → ¬ C s e → M.step s e = some t → ¬ P t)
    (h : M.Run (fun _ _ => True) es s) :
    M.Run C es s ↔ ∀ fs u, fs <+: es → M.Run (fun _ _ => True) fs u → P u := by
  constructor
  · intro hC fs u hfs hu
    obtain ⟨v, hv⟩ := hC.exists_prefix hfs
    rw [hu.unique hv]
    exact hP v hv.reachable (hv.invariant hinit hkeep)
  · intro hall
    induction h with
    | nil => exact .nil
    | @snoc es s t e hrun _ hstep ih =>
        have hs : M.Run C es s := ih fun fs u hfs hu =>
          hall fs u (hfs.trans (List.prefix_append es [e])) hu
        have hQ : Q s := hs.invariant hinit hkeep
        have hPt : P t := hall _ t (List.prefix_refl _) (hrun.snoc trivial hstep)
        by_cases hc : C s e
        · exact hs.snoc hc hstep
        · exact absurd hPt (hbreak s e t hrun.reachable hQ hc hstep)

/-- When the steps that break `P` are exactly those that miss `C`, a run keeps
`P` in all its states if and only if each of its steps meets `C`. -/
theorem run_iff_forall_prefix {P : σ → Prop} (hinit : P M.init)
    (hkeep : ∀ s e t, M.Reachable s → P s → C s e → M.step s e = some t → P t)
    (hbreak : ∀ s e t, M.Reachable s → P s → ¬ C s e → M.step s e = some t → ¬ P t)
    (h : M.Run (fun _ _ => True) es s) :
    M.Run C es s ↔ ∀ fs u, fs <+: es → M.Run (fun _ _ => True) fs u → P u :=
  run_iff_of_invariant hinit hkeep (fun _ _ hP => hP) hbreak h

variable (M) in
/-- Events that all meet `p` lead from one state to the other. -/
def Leads (p : ε → Prop) (s t : σ) : Prop := ∃ es, (∀ e ∈ es, p e) ∧ M.exec s es = some t

variable {p : ε → Prop} {u : σ}

theorem Leads.refl (p : ε → Prop) (s : σ) : M.Leads p s s := ⟨[], by simp, rfl⟩

theorem Leads.of_step (he : p e) (h : M.step s e = some t) : M.Leads p s t := by
  refine ⟨[e], ?_, by rw [exec_singleton, h]⟩
  simpa using he

theorem Leads.trans (h : M.Leads p s t) (h' : M.Leads p t u) : M.Leads p s u := by
  obtain ⟨es, hes, ht⟩ := h
  obtain ⟨fs, hfs, hu⟩ := h'
  refine ⟨es ++ fs, ?_, by rw [exec_append, ht, Option.bind_some, hu]⟩
  intro e he
  rcases List.mem_append.mp he with he | he
  · exact hes e he
  · exact hfs e he

theorem Reachable.leads (hs : M.Reachable s) (h : M.Leads p s t) : M.Reachable t := by
  obtain ⟨es, hrun⟩ := hs
  obtain ⟨fs, _, hfs⟩ := h
  exact ⟨es ++ fs, hrun.extend hfs fun _ _ _ => trivial⟩

/-- What a component does by itself, seen in the whole state. -/
theorem Leads.map {N : Machine τ δ} {q : δ → Prop} (f : δ → ε) (g : τ → σ)
    (hstep : ∀ u d v, q d → N.step u d = some v → p (f d) ∧ M.step (g u) (f d) = some (g v))
    {u v : τ} (h : N.Leads q u v) : M.Leads p (g u) (g v) := by
  obtain ⟨ds, hds, hv⟩ := h
  induction ds generalizing u with
  | nil =>
      obtain rfl : u = v := by simpa using hv
      exact .refl p _
  | cons d ds ih =>
      rw [exec_cons] at hv
      obtain ⟨w, hw, hv⟩ := Option.bind_eq_some_iff.mp hv
      obtain ⟨hd, hrest⟩ := List.forall_mem_cons.mp hds
      obtain ⟨hp, hg⟩ := hstep u d w hd hw
      exact (Leads.of_step hp hg).trans (ih hrest hv)

/-- What all steps that meet `p` keep. -/
theorem Leads.invariant {I : σ → Prop}
    (hstep : ∀ s e t, I s → p e → M.step s e = some t → I t) (h : M.Leads p s t) (hs : I s) :
    I t := by
  obtain ⟨es, hes, ht⟩ := h
  induction es generalizing s with
  | nil =>
      obtain rfl : s = t := by simpa using ht
      exact hs
  | cons e es ih =>
      rw [exec_cons] at ht
      obtain ⟨u, hu, ht⟩ := Option.bind_eq_some_iff.mp ht
      obtain ⟨he, hrest⟩ := List.forall_mem_cons.mp hes
      exact ih (hstep s e u hs he hu) hrest ht

/-- What can be met for one index after the other is met for a whole list. -/
theorem Leads.forall_mem {κ : Type*} {I : σ → Prop} {Q : κ → σ → Prop}
    (hmeet : ∀ k s, I s → ∃ t, M.Leads p s t ∧ I t ∧ Q k t ∧ ∀ j, Q j s → Q j t)
    (ks : List κ) (hs : I s) : ∃ t, M.Leads p s t ∧ I t ∧ ∀ k ∈ ks, Q k t := by
  induction ks with
  | nil => exact ⟨s, .refl p s, hs, by simp⟩
  | cons k ks ih =>
      obtain ⟨t, hleads, ht, hall⟩ := ih
      obtain ⟨u, hleads', hu, hk, hkeep⟩ := hmeet k t ht
      refine ⟨u, hleads.trans hleads', hu, ?_⟩
      intro j hj
      rcases List.mem_cons.mp hj with rfl | hj
      · exact hk
      · exact hkeep j (hall j hj)

/-- What each state that misses the goal can lower is lowered until the goal is met. -/
theorem Leads.of_measure {I G : σ → Prop} (μ : σ → ℕ)
    (hprogress : ∀ s, I s → ¬ G s → ∃ t, M.Leads p s t ∧ I t ∧ μ t < μ s) (hs : I s) :
    ∃ t, M.Leads p s t ∧ I t ∧ G t := by
  induction hn : μ s using Nat.strong_induction_on generalizing s with
  | _ n ih =>
      by_cases hG : G s
      · exact ⟨s, .refl p s, hs, hG⟩
      · obtain ⟨t, hleads, ht, hless⟩ := hprogress s hs hG
        obtain ⟨u, hleads', hu, hGu⟩ := ih (μ t) (hn ▸ hless) ht rfl
        exact ⟨u, hleads.trans hleads', hu, hGu⟩

/-- A component of the state that each step leaves alone or moves by a step of `N`. -/
theorem Run.component {N : Machine τ δ} {D : τ → δ → Prop} (f : σ → τ) (hinit : f M.init = N.init)
    (hstep : ∀ s e t, C s e → M.step s e = some t →
      f t = f s ∨ ∃ d, D (f s) d ∧ N.step (f s) d = some (f t))
    (h : M.Run C es s) : ∃ ds, N.Run D ds (f s) := by
  induction h with
  | nil =>
      rw [hinit]
      exact ⟨[], .nil⟩
  | snoc _ hc hs ih =>
      obtain ⟨ds, hds⟩ := ih
      rcases hstep _ _ _ hc hs with heq | ⟨d, hd, hs'⟩
      · rw [heq]
        exact ⟨ds, hds⟩
      · exact ⟨ds ++ [d], hds.snoc hd hs'⟩

theorem Reachable.component {N : Machine τ δ} (f : σ → τ) (hinit : f M.init = N.init)
    (hstep : ∀ s e t, M.step s e = some t → f t = f s ∨ ∃ d, N.step (f s) d = some (f t))
    (h : M.Reachable s) : N.Reachable (f s) := by
  obtain ⟨es, hrun⟩ := h
  refine hrun.component f hinit fun s e t _ hs => ?_
  rcases hstep s e t hs with heq | ⟨d, hd⟩
  · exact .inl heq
  · exact .inr ⟨d, trivial, hd⟩

variable {η : Type*} {h₀ : η} {note : σ → ε → η → η} {p q : σ × η}

variable (M) in
/-- `M` with a history, which its steps write and never read. -/
def record (h₀ : η) (note : σ → ε → η → η) : Machine (σ × η) ε :=
  ⟨(M.init, h₀), fun p e => (M.step p.1 e).map fun t => (t, note p.1 e p.2)⟩

theorem record_step (h : (M.record h₀ note).step p e = some q) :
    M.step p.1 e = some q.1 ∧ q.2 = note p.1 e p.2 := by
  obtain ⟨t, ht, rfl⟩ := Option.map_eq_some_iff.mp h
  exact ⟨ht, rfl⟩

theorem Run.record (h : M.Run C es s) (h₀ : η) (note : σ → ε → η → η) :
    ∃ k, (M.record h₀ note).Run (fun p e => C p.1 e) es (s, k) := by
  induction h with
  | nil => exact ⟨h₀, .nil⟩
  | @snoc es s t e _ hc hstep ih =>
      obtain ⟨k, hk⟩ := ih
      have hrecord : (M.record h₀ note).step (s, k) e = some (t, note s e k) := by
        simp [Machine.record, hstep]
      exact ⟨_, hk.snoc hc hrecord⟩

theorem Run.of_record (h : (M.record h₀ note).Run (fun p e => C p.1 e) es p) :
    M.Run C es p.1 := by
  induction h with
  | nil => exact .nil
  | snoc _ hc hstep ih => exact ih.snoc hc (record_step hstep).1

/-- A history of a part of a run, whose steps all meet `C`. -/
theorem Run.record_prefix {D : σ × η → ε → Prop} {fs : List ε} (h : M.Run C es s)
    (hfs : fs <+: es) (hp : (M.record h₀ note).Run D fs p) :
    (M.record h₀ note).Run (fun p e => C p.1 e) fs p := by
  obtain ⟨u, hu⟩ := h.exists_prefix hfs
  obtain ⟨k, hk⟩ := hu.record h₀ note
  rwa [hp.unique hk]

/-- What relates a state to its history. -/
theorem Run.record_invariant {I : σ → η → Prop}
    (h : (M.record h₀ note).Run (fun p e => C p.1 e) es p) (hinit : I M.init h₀)
    (hstep : ∀ s e t k, M.Reachable s → I s k → C s e → M.step s e = some t → I t (note s e k)) :
    I p.1 p.2 := by
  induction h with
  | nil => exact hinit
  | snoc hrun hc hs ih =>
      obtain ⟨hs', hnote⟩ := record_step hs
      rw [hnote]
      exact hstep _ _ _ _ hrun.of_record.reachable ih hc hs'

theorem Reachable.of_record (h : (M.record h₀ note).Reachable p) : M.Reachable p.1 :=
  h.component Prod.fst rfl fun _ e _ hstep => .inr ⟨e, (record_step hstep).1⟩

/-- `M` with `R`-related states is matched step by step by finite runs of `N`. -/
structure Refines (M : Machine σ ε) (N : Machine τ δ) (R : σ → τ → Prop) : Prop where
  init : R M.init N.init
  step : ∀ {s e t u}, M.Reachable s → R s u → M.step s e = some t →
    ∃ ds v, N.exec u ds = some v ∧ R t v

theorem Refines.reachable {N : Machine τ δ} {R : σ → τ → Prop} (href : M.Refines N R)
    (h : M.Reachable s) : ∃ u, N.Reachable u ∧ R s u := by
  refine h.invariant (I := fun s => ∃ u, N.Reachable u ∧ R s u)
    ⟨_, reachable_init, href.init⟩ ?_
  rintro s e t hs ⟨u, ⟨ds, hu⟩, hR⟩ hstep
  obtain ⟨ds', v, hv, hR'⟩ := href.step hs hR hstep
  have hrun : N.exec N.init (ds ++ ds') = some v := by
    rw [exec_append, hu.exec_eq, Option.bind_some, hv]
  exact ⟨v, reachable_of_exec hrun, hR'⟩

variable (M) in
/-- The run without the events that `keep` rejects in the state they are taken in. -/
def erase (keep : σ → ε → Bool) : σ → List ε → List ε
  | _, [] => []
  | s, e :: es =>
    match M.step s e with
    | none => []
    | some t => if keep s e then e :: erase keep t es else erase keep t es

theorem erase_append {keep : σ → ε → Bool} (h : M.exec s es = some t) (fs : List ε) :
    M.erase keep s (es ++ fs) = M.erase keep s es ++ M.erase keep t fs := by
  induction es generalizing s with
  | nil =>
      obtain rfl : s = t := by simpa using h
      rfl
  | cons e es ih =>
      rw [exec_cons] at h
      obtain ⟨u, hu, ht⟩ := Option.bind_eq_some_iff.mp h
      by_cases hkeep : keep s e <;> simp [erase, hu, hkeep, ih ht]

/-- Erasing events that only one side of `R` sees leaves a run, related to the
full one throughout. -/
theorem Run.erase {keep : σ → ε → Bool} {R : σ → σ → Prop} (hinit : R M.init M.init)
    (hkeep : ∀ s e t s', M.Reachable s → R s s' → C s e → keep s e = true →
      M.step s e = some t → ∃ t', M.step s' e = some t' ∧ R t t')
    (hdrop : ∀ s e t s', M.Reachable s → R s s' → C s e → keep s e = false →
      M.step s e = some t → R t s') (h : M.Run C es s) :
    ∃ s', M.exec M.init (M.erase keep M.init es) = some s' ∧ R s s' := by
  induction h with
  | nil => exact ⟨M.init, rfl, hinit⟩
  | @snoc es s t e hrun hc hstep ih =>
      obtain ⟨s', hs', hR⟩ := ih
      rw [erase_append hrun.exec_eq, exec_append, hs', Option.bind_some]
      cases hk : keep s e with
      | true =>
          obtain ⟨t', ht', hR'⟩ := hkeep s e t s' hrun.reachable hR hc hk hstep
          exact ⟨t', by simp [Machine.erase, hstep, hk, ht'], hR'⟩
      | false =>
          exact ⟨s', by simp [Machine.erase, hstep, hk],
            hdrop s e t s' hrun.reachable hR hc hk hstep⟩

section Traces

variable {N : Machine τ δ} {see : σ → ε → σ → Option δ}

variable (M) in
/-- What is seen of the steps. -/
def trace (see : σ → ε → σ → Option δ) : σ → List ε → List δ
  | _, [] => []
  | s, e :: es =>
    match M.step s e with
    | none => []
    | some t => (see s e t).toList ++ trace see t es

theorem trace_append (h : M.exec s es = some t) (fs : List ε) :
    M.trace see s (es ++ fs) = M.trace see s es ++ M.trace see t fs := by
  induction es generalizing s with
  | nil =>
      obtain rfl : s = t := by simpa using h
      rfl
  | cons e es ih =>
      rw [exec_cons] at h
      obtain ⟨u, hu, ht⟩ := Option.bind_eq_some_iff.mp h
      simp [trace, hu, ih ht]

/-- What is seen of a run is a run of `N`, if each step does in `N` what is seen of it. This
need hold only of runs that end in `Q`, which no step brings back. -/
theorem Run.trace {Q : σ → Prop} {R : σ → τ → Prop} (h : M.Run C es s) (hinit : R M.init N.init)
    (hback : ∀ s e t, M.Reachable s → M.step s e = some t → Q t → Q s)
    (hstep : ∀ s e t u, M.Reachable s → Q t → R s u → C s e → M.step s e = some t →
      ∃ v, N.exec u (see s e t).toList = some v ∧ R t v) (hQ : Q s) :
    ∃ v, N.exec N.init (M.trace see M.init es) = some v ∧ R s v := by
  induction h with
  | nil => exact ⟨N.init, rfl, hinit⟩
  | @snoc es s t e hrun hc hs ih =>
      obtain ⟨u, hu, hR⟩ := ih (hback s e t hrun.reachable hs hQ)
      obtain ⟨v, hv, hR'⟩ := hstep s e t u hrun.reachable hQ hR hc hs
      have hlast : M.trace see s [e] = (see s e t).toList := by simp [Machine.trace, hs]
      rw [trace_append hrun.exec_eq, hlast, exec_append, hu, Option.bind_some]
      exact ⟨v, hv, hR'⟩

/-- Two machines side by side. -/
def prod (M : Machine σ ε) (N : Machine τ δ) : Machine (σ × τ) (ε ⊕ δ) where
  init := (M.init, N.init)
  step p := Sum.elim (fun e => (M.step p.1 e).map (·, p.2)) fun d => (N.step p.2 d).map (p.1, ·)

theorem prod_left {u : τ} (h : M.step s e = some t) :
    (M.prod N).exec (s, u) [.inl e] = some (t, u) := by
  simp [prod, h]

theorem prod_right {d : δ} {u v : τ} (h : N.step u d = some v) :
    (M.prod N).exec (s, u) [.inr d] = some (s, v) := by
  simp [prod, h]

end Traces

end Machine
end Fronting
