import Fronting.TunnelWires
import Fronting.Downloads

/-!
# Download through the tunnel

What the client has received is what it has seen of the response bodies of its `GET`s, one
after the other. A session serves them in the same order, and each takes up upstream where
the one before it stopped.
-/

namespace Fronting.Tunnel

open Function (update)

variable {env : TunnelEnv} {s t : Tunnel} {r : ReqId}

/-- The client has had all of the response body of `r`, and it has ended. -/
def Complete (s : Tunnel) (r : ReqId) : Prop :=
  s.bodyEnded r = true ∧ s.seen r = s.server.framesOf r

structure ReadWire (s : Tunnel) : Prop where
  idle : s.get = .idle → s.gets = []
  arrived : ∀ {r}, s.get = .arrived r → ∃ earlier, s.gets = earlier ++ [r]
  complete : ∀ {r}, r ∈ s.gets → s.get ≠ .arrived r → Complete s r
  next : s.client.incoming = .start → ∀ r, s.get = .arrived r → Complete s r
  notSent : s.client.incoming = .start → ∀ req body, s.get ≠ .sent req body
  seen : ∀ r, s.seen r <+: s.server.framesOf r
  received : s.client.received = s.gets.flatMap s.seen

theorem ReadWire.init : ReadWire Tunnel.init := by
  constructor
  · exact fun _ => rfl
  · intro r h
    cases h
  · intro r hr
    simp [Tunnel.init] at hr
  · intro _ r h
    cases h
  · intro _ req body h
    cases h
  · exact fun _ => List.nil_prefix
  · rfl

/-- A response body grows until it has ended. -/
theorem framesOf_grows {d : ServerEvent} (hcoherent : s.server.Coherent)
    (hstep : Server.Step env.server s.server d t.server) (r : ReqId) :
    s.server.framesOf r <+: t.server.framesOf r ∧
      (s.bodyEnded r = true →
        t.bodyEnded r = true ∧ t.server.framesOf r = s.server.framesOf r) := by
  cases hst : s.server.streams r with
  | none => simp [Server.framesOf, bodyEnded, hst]
  | some st =>
      obtain ⟨st', hst', hgrows⟩ := hstep.stream_grows hcoherent hst
      have hs : s.server.framesOf r = st.frames.flatten := by simp [Server.framesOf, hst]
      have ht : t.server.framesOf r = st'.frames.flatten := by simp [Server.framesOf, hst']
      constructor
      · rw [hs, ht]
        exact hgrows.frames.flatten
      · intro hended
        obtain ⟨hended', hframes, _⟩ := hgrows.ended (by simpa [bodyEnded, hst] using hended)
        constructor
        · simpa [bodyEnded, hst'] using hended'
        · rw [hs, ht, hframes]

theorem Complete.grows (h : Complete s r)
    (hgrows : s.bodyEnded r = true →
      t.bodyEnded r = true ∧ t.server.framesOf r = s.server.framesOf r)
    (hseen : t.seen r = s.seen r) : Complete t r := by
  obtain ⟨hended, hframes⟩ := hgrows h.1
  refine ⟨hended, ?_⟩
  rw [hseen, hframes, h.2]

/-- The server has gone on. -/
theorem ReadWire.server {d : ServerEvent} {u : Server} (h : ReadWire s)
    (hcoherent : s.server.Coherent) (hstep : Server.Step env.server s.server d u)
    (hserver : t.server = u) (hclient : t.client = s.client) (hget : t.get = s.get)
    (hgets : t.gets = s.gets) (hseen : t.seen = s.seen) : ReadWire t := by
  subst hserver
  have hgrows := framesOf_grows hcoherent hstep
  have hkept : ∀ r, Complete s r → Complete t r := fun r hr =>
    hr.grows (hgrows r).2 (by rw [hseen])
  constructor
  · rw [hget, hgets]
    exact h.idle
  · rw [hget, hgets]
    exact h.arrived
  · rw [hget, hgets]
    exact fun hr hne => hkept _ (h.complete hr hne)
  · rw [hget, hclient]
    exact fun hin r hr => hkept r (h.next hin r hr)
  · rw [hget, hclient]
    exact h.notSent
  · intro r
    rw [hseen]
    exact (h.seen r).trans (hgrows r).1
  · rw [hclient, hgets, hseen]
    exact h.received

/-- A step of the client that the read side does not see. -/
theorem ReadWire.frame (h : ReadWire s) (hserver : t.server = s.server) (hget : t.get = s.get)
    (hgets : t.gets = s.gets) (hseen : t.seen = s.seen)
    (hreceived : t.client.received = s.client.received)
    (hin : t.client.incoming = .start → s.client.incoming = .start ∨
      ∃ r, s.get = .arrived r ∧ Complete s r) : ReadWire t := by
  have hkept : ∀ r, Complete s r → Complete t r := by
    intro r hr
    refine hr.grows ?_ (by rw [hseen])
    simp [bodyEnded, hserver]
  constructor
  · rw [hget, hgets]
    exact h.idle
  · rw [hget, hgets]
    exact h.arrived
  · rw [hget, hgets]
    exact fun hr hne => hkept _ (h.complete hr hne)
  · rw [hget]
    intro hstart r hr
    rcases hin hstart with hs | ⟨q, hq, hcomplete⟩
    · exact hkept r (h.next hs r hr)
    · obtain rfl : q = r := by
        rw [hq] at hr
        injection hr
      exact hkept q hcomplete
  · rw [hget]
    intro hstart req body
    rcases hin hstart with hs | ⟨q, hq, _⟩
    · exact h.notSent hs req body
    · rw [hq]
      simp
  · intro r
    rw [hseen, hserver]
    exact h.seen r
  · rw [hreceived, hgets, hseen]
    exact h.received

/-- All responses are complete and the next `GET` is sent. -/
theorem ReadWire.sendRead (h : ReadWire s) (req : Request) (hstart : s.client.incoming = .start)
    (hserver : t.server = s.server) (hget : t.get = .sent req []) (hgets : t.gets = s.gets)
    (hseen : t.seen = s.seen) (hreceived : t.client.received = s.client.received)
    (hin : t.client.incoming ≠ .start) : ReadWire t := by
  constructor
  · rw [hget]
    exact fun hidle => by cases hidle
  · rw [hget]
    exact fun harrived => by cases harrived
  · intro r hr _
    rw [hgets] at hr
    have hcomplete : Complete s r := by
      by_cases hlast : s.get = .arrived r
      · exact h.next hstart r hlast
      · exact h.complete hr hlast
    refine hcomplete.grows ?_ (by rw [hseen])
    simp [bodyEnded, hserver]
  · exact fun hstart' => absurd hstart' hin
  · exact fun hstart' => absurd hstart' hin
  · intro r
    rw [hseen, hserver]
    exact h.seen r
  · rw [hreceived, hgets, hseen]
    exact h.received

/-- Bytes of the last response reach the client. -/
theorem ReadWire.data (h : ReadWire s) {bytes : Bytes} (hnodup : s.gets.Nodup)
    (hlast : s.get = .arrived r) (hnext : s.seen r ++ bytes <+: s.server.framesOf r)
    (hserver : t.server = s.server) (hget : t.get = s.get) (hgets : t.gets = s.gets)
    (hseen : t.seen = update s.seen r (s.seen r ++ bytes))
    (hreceived : t.client.received = s.client.received ++ bytes)
    (hin : t.client.incoming ≠ .start) : ReadWire t := by
  obtain ⟨earlier, hsplit⟩ := h.arrived hlast
  have hframes : ∀ q, t.server.framesOf q = s.server.framesOf q := by simp [hserver]
  have hother : ∀ q, q ≠ r → t.seen q = s.seen q := by
    intro q hq
    rw [hseen, Function.update_of_ne hq]
  constructor
  · rw [hget, hgets]
    exact h.idle
  · rw [hget, hgets]
    exact h.arrived
  · intro q hq hne
    rw [hgets] at hq
    rw [hget] at hne
    have hqr : q ≠ r := by
      rintro rfl
      exact hne hlast
    refine (h.complete hq hne).grows ?_ (hother q hqr)
    simp [bodyEnded, hserver]
  · exact fun hstart => absurd hstart hin
  · exact fun hstart => absurd hstart hin
  · intro q
    rw [hframes]
    by_cases hq : q = r
    · rw [hq, hseen, Function.update_self]
      exact hnext
    · rw [hother q hq]
      exact h.seen q
  · have hsame : earlier.flatMap t.seen = earlier.flatMap s.seen := by
      refine List.flatMap_congr fun q hq => hother q ?_
      rw [hsplit, List.nodup_append] at hnodup
      exact hnodup.2.2 q hq r (List.mem_singleton_self r)
    have hlastSeen : t.seen r = s.seen r ++ bytes := by rw [hseen, Function.update_self]
    rw [hreceived, h.received, hgets, hsplit, List.flatMap_append, List.flatMap_append, hsame]
    simp [hlastSeen]

/-- A `GET` reaches the server, which has no stream for it yet. -/
theorem ReadWire.arrives (h : ReadWire s) {req : Request} {body : Bytes} {fresh : ActorRef}
    {u : Server} (hcoherent : s.server.Coherent) (hget : s.get = .sent req body)
    (hstep : Server.Step env.server s.server (.request r req fresh) u) :
    ReadWire { s with server := u, get := .arrived r, gets := s.gets ++ [r] } := by
  have hgrows : ∀ q, s.server.framesOf q <+: u.framesOf q ∧
      (s.bodyEnded q = true → ({ s with server := u } : Tunnel).bodyEnded q = true ∧
        u.framesOf q = s.server.framesOf q) :=
    framesOf_grows (t := { s with server := u }) hcoherent hstep
  have hnew : s.seen r = [] := by
    have hnone : s.server.streams r = none := by
      by_contra hst
      obtain ⟨st, hst⟩ := Option.ne_none_iff_exists'.mp hst
      obtain ⟨R, hR, _⟩ := hcoherent.stream hst
      exact absurd (hstep.arrives.1.symm.trans hR) (Option.some_ne_none R).symm
    have hseen := h.seen r
    rw [Server.framesOf, hnone] at hseen
    exact List.prefix_nil.mp hseen
  have hne : s.client.incoming ≠ .start := fun hstart => h.notSent hstart req body hget
  constructor
  · intro hidle
    cases hidle
  · intro q hq
    obtain rfl : r = q := by injection hq
    exact ⟨s.gets, rfl⟩
  · intro q hq hlast
    rcases List.mem_append.mp hq with hq | hq
    · refine Complete.grows (h.complete hq ?_) (hgrows q).2 rfl
      rw [hget]
      simp
    · exact absurd (congrArg Exchange.arrived (List.mem_singleton.mp hq).symm) hlast
  · exact fun hstart => absurd hstart hne
  · exact fun hstart => absurd hstart hne
  · exact fun q => (h.seen q).trans (hgrows q).1
  · simp [List.flatMap_append, hnew, h.received]

theorem afterClient_recv (env : TunnelEnv) (s : Tunnel) (c : Client) (path : Uuid) :
    (s.afterClient env c (.io (.recv path))).get = s.get ∧
      (s.afterClient env c (.io (.recv path))).seen = s.seen := by
  simp only [afterClient]
  split
  · split <;> simp
  · simp

/-- The network reports data only as it is in the response body. -/
theorem arrived_of_data {bytes : Bytes} (h : s.reports (.io (.frame (.data bytes))) = true) :
    ∃ r, s.get = .arrived r ∧ bytes ≠ [] ∧ s.seen r ++ bytes <+: s.server.framesOf r := by
  simp only [reports] at h
  split at h
  next r hget => exact ⟨r, hget, of_decide_eq_true h⟩
  next => exact absurd h Bool.false_ne_true

theorem arrived_of_finished (h : s.reports (.io (.frame .finished)) = true) :
    ∃ r, s.get = .arrived r ∧ Complete s r := by
  simp only [reports] at h
  split at h
  next r hget =>
      have hcomplete : s.bodyEnded r = true ∧ s.seen r = s.server.framesOf r := by simpa using h
      exact ⟨r, hget, hcomplete⟩
  next => exact absurd h Bool.false_ne_true

theorem ReadWire.io {c : Client} {e : IoEvent} (h : ReadWire s) (hnodup : s.gets.Nodup)
    (hreports : s.reports (.io e) = true) (hio : Client.Io env.client s.client e c) :
    ReadWire (s.afterClient env c (.io e)) := by
  cases hio with
  | sendRead path req hin hreq =>
      refine h.sendRead req hin ?_ ?_ ?_ ?_ ?_ ?_ <;> simp [afterClient, hreq]
  | noReadRequest path hin hreq =>
      refine h.frame ?_ ?_ ?_ ?_ ?_ ?_ <;> simp [afterClient, hreq, Client.fail]
  | dataFrame bytes hin hne =>
      obtain ⟨r, hget, _, hnext⟩ := arrived_of_data hreports
      refine h.data hnodup hget hnext ?_ ?_ ?_ ?_ ?_ ?_ <;> simp [afterClient, hget]
  | emptyFrame hin =>
      obtain ⟨r, _, hne, _⟩ := arrived_of_data hreports
      exact absurd rfl hne
  | bodyFinished hin =>
      exact h.frame rfl rfl rfl rfl rfl fun _ => .inr (arrived_of_finished hreports)
  | recv first chunk path req hout hslot hreq =>
      obtain ⟨hget, hseen⟩ := afterClient_recv env s { s.client with
        slot := none, taken := s.client.taken ++ [chunk], outgoing := .awaiting first chunk } path
      obtain ⟨hserver, hclient, hgets, _⟩ := afterClient_server env s { s.client with
        slot := none, taken := s.client.taken ++ [chunk], outgoing := .awaiting first chunk }
        (.io (.recv path))
      refine h.frame hserver hget hgets hseen ?_ fun hin => .inl ?_
      · rw [hclient]
      · rw [hclient] at hin
        exact hin
  | noWriteRequest first chunk path => exact h.frame rfl rfl rfl rfl rfl .inl
  | recvClosed first path => exact h.frame rfl rfl rfl rfl rfl .inl
  | readResponse status hin | readStatus status hin | readError message hin
  | bodyError message hin | push item hin | pushDropped item hin | flushed hin
  | flushedLast hin =>
      refine h.frame rfl rfl rfl rfl rfl fun hstart => ?_
      cases hstart
  | _ => exact h.frame rfl rfl rfl rfl rfl .inl

theorem ReadWire.client {c : Client} {e : ClientEvent} (h : ReadWire s) (hnodup : s.gets.Nodup)
    (hreports : s.reports e = true) (hstep : Client.Step env.client s.client e c) :
    ReadWire (s.afterClient env c e) := by
  cases hstep with
  | resume op =>
      obtain ⟨hin, _⟩ := Client.pollInner_pumps s.client op
      obtain ⟨hreceived, _⟩ := Client.pollInner_inbox s.client op
      exact h.frame rfl rfl rfl rfl hreceived fun hstart => .inl (hin.symm.trans hstart)
  | io e c _ hio => exact h.io hnodup hreports hio
  | _ => exact h.frame rfl rfl rfl rfl rfl .inl

theorem readWire_of_reachable (hs : (machine env).Reachable s) : ReadWire s := by
  refine hs.invariant ReadWire.init ?_
  intro s e t hs h hstep
  have hcoherent := Server.coherent_of_reachable (server_reachable hs)
  have hnodup := (named_of_reachable hs).getsNodup
  cases Step.of_step hstep with
  | server d u _ hd => exact h.server hcoherent (.of_step hd) rfl rfl rfl rfl rfl
  | client e c hreports hc => exact h.client hnodup hreports (.of_step hc)
  | getArrives r fresh req body u hget hd => exact h.arrives hcoherent hget (.of_step hd)
  | putArrives r fresh req body u _ hd =>
      exact h.server hcoherent (.of_step hd) rfl rfl rfl rfl rfl
  | putBody r e u _ _ hd => exact h.server hcoherent (.of_step hd) rfl rfl rfl rfl rfl

variable {a : ActorRef} {A : Session}

theorem sublist_of_concat {α : Type*} {l earlier : List α} {x : α} (h : l.Sublist (earlier ++ [x]))
    (hx : x ∉ l) : l.Sublist earlier := by
  obtain ⟨l₁, l₂, rfl, h₁, h₂⟩ := List.sublist_append_iff.mp h
  have hnil : l₂ = [] := by
    refine List.eq_nil_iff_forall_not_mem.mpr fun y hy => hx ?_
    obtain rfl := List.mem_singleton.mp (h₂.subset hy)
    exact List.mem_append_right _ hy
  rw [hnil, List.append_nil]
  exact h₁

/-- What is left out of a sublist and counts for nothing may be left out. -/
theorem flatMap_of_sublist {α β : Type*} {l l' : List α} {f : α → List β} (h : l.Sublist l')
    (hnodup : l'.Nodup) (hf : ∀ x ∈ l', x ∉ l → f x = []) : l'.flatMap f = l.flatMap f := by
  induction h with
  | slnil => rfl
  | @cons l₁ l₂ x hsub ih =>
      obtain ⟨hx, hnodup⟩ := List.nodup_cons.mp hnodup
      have hnil : f x = [] := hf x List.mem_cons_self fun hmem => hx (hsub.subset hmem)
      rw [List.flatMap_cons, hnil, List.nil_append]
      exact ih hnodup fun y hy hy' => hf y (List.mem_cons_of_mem _ hy) hy'
  | @cons_cons l₁ l₂ x hsub ih =>
      obtain ⟨hx, hnodup⟩ := List.nodup_cons.mp hnodup
      rw [List.flatMap_cons, List.flatMap_cons, ih hnodup ?_]
      intro y hy hy'
      refine hf y (List.mem_cons_of_mem _ hy) ?_
      rintro (_ | hmem)
      · exact hx hy
      · exact hy' (by assumption)

/-- A stream is granted to the `GET` that arrived last. -/
theorem last_of_asked (hs : (machine env).Reachable s) (ha : s.server.actors a = some A)
    (hx : A.sessionId = env.client.sessionId) (hm : .read r ∈ A.asked) :
    ∃ earlier, s.gets = earlier ++ [r] := by
  have hcoherent := Server.coherent_of_reachable (server_reachable hs)
  have hnamed := named_of_reachable hs
  obtain ⟨R, hr, hR, _⟩ := hcoherent.asked ha hm rfl
  have hget : R.method = .get := Server.method_of_asked (server_reachable hs) ha hm hr
  have hmem : r ∈ s.gets := by
    obtain ⟨A', ha', hid⟩ := hcoherent.call hr hR
    obtain rfl : A = A' := Option.some.inj (ha.symm.trans ha')
    rcases hnamed.mine hr (hid.trans (congrArg some hx)) with hmem | hmem
    · exact hmem
    · obtain ⟨R', hr', _, hput⟩ := hnamed.put hmem
      obtain rfl : R = R' := Option.some.inj (hr.symm.trans hr')
      exact absurd hget hput
  have hwire := readWire_of_reachable hs
  by_cases hlast : s.get = .arrived r
  · exact hwire.arrived hlast
  · have hended := (hwire.complete hmem hlast).1
    simp [bodyEnded, hcoherent.unread ha hm] at hended

/-- A session of the client serves its `GET`s in the order in which they arrived. -/
theorem opened_sublist (hs : (machine env).Reachable s) (ha : s.server.actors a = some A)
    (hx : A.sessionId = env.client.sessionId) : A.opened.Sublist s.gets := by
  refine hs.invariant (I := fun s => ∀ a A, s.server.actors a = some A →
    A.sessionId = env.client.sessionId → A.opened.Sublist s.gets) ?_ ?_ a A ha hx
  · intro a A ha
    simp [machine, init, Server.init] at ha
  · intro s e t hs hI hstep a A' ha' hx
    have hcoherent := Server.coherent_of_reachable (server_reachable hs)
    have hdownload := Server.download_of_reachable (server_reachable hs)
    -- the server has gone on, and `gets` may have grown
    have hserver : ∀ d u, Server.Step env.server s.server d u → u.actors a = some A' →
        A'.opened.Sublist s.gets := by
      intro d u hd ha'
      rcases hd.move ha' with ⟨A, ha, hmove⟩ | ⟨x, rfl, _⟩
      · have hsub := hI a A ha (hmove.sessionId.symm.trans hx)
        rcases hmove.opened with hopened | ⟨r, _, hm, hopened⟩
        · rw [hopened]
          exact hsub
        · obtain ⟨earlier, hsplit⟩ := last_of_asked hs ha (hmove.sessionId.symm.trans hx) hm
          have hnew : r ∉ A.opened := by
            intro hr
            obtain ⟨st, hst, _⟩ := hdownload.opened ha hr
            exact absurd ((hcoherent.unread ha hm).symm.trans hst) (Option.some_ne_none st).symm
          rw [hopened, hsplit]
          exact (sublist_of_concat (hsplit ▸ hsub) hnew).append (List.Sublist.refl [r])
      · exact List.nil_sublist _
    cases Step.of_step hstep with
    | server d u _ hd => exact hserver d u (.of_step hd) ha'
    | client e c =>
        obtain ⟨hsame, _, hgets, _⟩ := afterClient_server env s c e
        rw [hsame] at ha'
        rw [hgets]
        exact hI a A' ha' hx
    | getArrives r fresh req body u _ hd =>
        exact (hserver _ u (.of_step hd) ha').trans (List.sublist_append_left _ _)
    | putArrives r fresh req body u _ hd => exact hserver _ u (.of_step hd) ha'
    | putBody r e u _ _ hd => exact hserver _ u (.of_step hd) ha'

/-- What the client has seen of the streams of one session is what the session has
consumed from upstream, up to a rest. -/
theorem seen_prefix_consumed (hs : (machine env).Reachable s) (ha : s.server.actors a = some A)
    (hx : A.sessionId = env.client.sessionId) :
    A.opened.flatMap s.seen <+: A.upstream.consumed := by
  have hreach := server_reachable hs
  have hdownload := Server.download_of_reachable hreach
  have hwire := readWire_of_reachable hs
  have hsub := opened_sublist hs ha hx
  rw [hdownload.consumed ha]
  rcases List.eq_nil_or_concat' A.opened with hnil | ⟨earlier, r, hsplit⟩
  · rw [hnil]
    exact List.nil_prefix
  · have hnodup := hdownload.nodup ha
    have hne : ∀ q ∈ earlier, q ≠ r := by
      intro q hq
      rw [hsplit, List.nodup_append] at hnodup
      exact hnodup.2.2 q hq r (List.mem_singleton_self r)
    have hcomplete : ∀ q ∈ earlier, Complete s q := by
      intro q hq
      refine hwire.complete (hsub.subset (by simp [hsplit, hq])) fun hlast => ?_
      -- a stream opened after that of `q` belongs to a later `GET`
      obtain ⟨before, hgets⟩ := hwire.arrived hlast
      have hgetsNodup := (named_of_reachable hs).getsNodup
      rw [hgets] at hsub hgetsNodup
      rw [hsplit] at hsub
      obtain ⟨l₁, l₂, heq, h₁, h₂⟩ := List.sublist_append_iff.mp hsub
      have hr : r ∈ l₁ ++ l₂ := heq ▸ List.mem_append_right _ (List.mem_singleton_self r)
      have hrq : r ∉ l₂ := fun hmem => hne q hq (List.mem_singleton.mp (h₂.subset hmem)).symm
      have hl₂ : l₂ = [] := by
        rcases List.eq_nil_or_concat' l₂ with hnil | ⟨l, y, rfl⟩
        · exact hnil
        · rw [← List.append_assoc] at heq
          obtain ⟨_, hy⟩ := List.append_inj' heq rfl
          obtain rfl : r = y := by simpa using hy
          exact absurd (List.mem_append_right l (List.mem_singleton_self r)) hrq
      rw [hl₂, List.append_nil] at heq
      have hmem : q ∈ before := h₁.subset (heq ▸ List.mem_append_left _ hq)
      rw [List.nodup_append] at hgetsNodup
      exact hgetsNodup.2.2 q hmem q (List.mem_singleton_self q) rfl
    have hsame : earlier.flatMap s.seen = earlier.flatMap s.server.takenOf := by
      refine List.flatMap_congr fun q hq => ?_
      obtain ⟨hended, hseen⟩ := hcomplete q hq
      rw [hseen]
      refine Server.framesOf_of_not_last hreach ha (by simp [hsplit, hq]) ?_ ?_
      · intro st hst
        simpa [bodyEnded, hst] using hended
      · intro hlast
        have hrq : r = q := by simpa [hsplit] using hlast
        exact hne q hq hrq.symm
    rw [hsplit, List.flatMap_append, List.flatMap_append, hsame]
    refine (List.prefix_append_right_inj _).mpr ?_
    have hlast : s.server.framesOf r <+: s.server.takenOf r := by
      cases hst : s.server.streams r with
      | none => simp [Server.framesOf, Server.takenOf, hst]
      | some st => simp [Server.framesOf, Server.takenOf, hst, ReadStream.taken]
    simpa using (hwire.seen r).trans hlast

theorem seen_of_no_stream (hs : (machine env).Reachable s) (hst : s.server.streams r = none) :
    s.seen r = [] := by
  have hseen := (readWire_of_reachable hs).seen r
  rw [Server.framesOf, hst] at hseen
  exact List.prefix_nil.mp hseen

/-- What the client has received comes from one session, as long as it has seen nothing of
the streams of others. -/
theorem received_prefix_consumed (hs : (machine env).Reachable s)
    (ha : s.server.actors a = some A) (hx : A.sessionId = env.client.sessionId)
    (hother : ∀ r ∈ s.gets, ∀ st, s.server.streams r = some st → st.session ≠ a → s.seen r = []) :
    s.client.received <+: A.upstream.consumed := by
  have hdownload := Server.download_of_reachable (server_reachable hs)
  have hnodup := (named_of_reachable hs).getsNodup
  have hseen : s.gets.flatMap s.seen = A.opened.flatMap s.seen := by
    refine flatMap_of_sublist (opened_sublist hs ha hx) hnodup fun r hr hr' => ?_
    cases hst : s.server.streams r with
    | none => exact seen_of_no_stream hs hst
    | some st =>
        refine hother r hr st hst fun hsame => hr' ?_
        exact hdownload.listed hst (hsame ▸ ha)
  rw [(readWire_of_reachable hs).received, hseen]
  exact seen_prefix_consumed hs ha hx

/-- A response to one of the client's `GET`s comes from a session of the client. -/
theorem session_of_stream (hs : (machine env).Reachable s) (hr : r ∈ s.gets) {st : ReadStream}
    (hst : s.server.streams r = some st) :
    ∃ R A, s.server.calls r = some R ∧ R.session = some st.session ∧
      s.server.actors st.session = some A ∧ A.sessionId = env.client.sessionId := by
  have hcoherent := Server.coherent_of_reachable (server_reachable hs)
  obtain ⟨R, hR, hx, _⟩ := (named_of_reachable hs).get hr
  obtain ⟨R', hR', hsession, _⟩ := hcoherent.stream hst
  obtain rfl : R = R' := Option.some.inj (hR.symm.trans hR')
  obtain ⟨A, ha, hid⟩ := hcoherent.call hR hsession
  exact ⟨R, A, hR, hsession, ha, (Option.some.inj (hx.symm.trans hid)).symm⟩

theorem received_of_served (hs : (machine env).Reachable s) (ha : s.server.actors a = some A)
    (hserved : ServedBy s s.gets a) : s.client.received <+: A.upstream.consumed := by
  by_cases hx : A.sessionId = env.client.sessionId
  · refine received_prefix_consumed hs ha hx fun r hr st hst hne => ?_
    obtain ⟨R, _, hR, hsession, _⟩ := session_of_stream hs hr hst
    exact absurd (hserved r hr R st.session hR hsession) hne
  · have hseen : s.gets.flatMap s.seen = [] := by
      refine List.flatMap_eq_nil_iff.mpr fun r hr => ?_
      cases hst : s.server.streams r with
      | none => exact seen_of_no_stream hs hst
      | some st =>
          obtain ⟨R, A', hR, hsession, ha', hx'⟩ := session_of_stream hs hr hst
          obtain rfl : st.session = a := hserved r hr R st.session hR hsession
          obtain rfl : A = A' := Option.some.inj (ha.symm.trans ha')
          exact absurd hx' hx
    rw [(readWire_of_reachable hs).received, hseen]
    exact List.nil_prefix

/-- What `poll_read` has returned is a prefix of what upstream sent; and in a run without
an error or a kill each session's streams yield, in order and once, what it consumes. -/
theorem download_integrity :
    (∀ s a A, (machine env).Reachable s → s.server.actors a = some A → ServedBy s s.gets a →
      readIn s.client.log <+: A.upstream.produced) ∧
    ∀ es s a A, (Server.machine env.server).Run Server.Undisturbed es s →
      s.actors a = some A →
      A.opened.Nodup ∧ ∃ rest, A.upstream.consumed = A.opened.flatMap s.framesOf ++ rest ∧
        (rest ≠ [] → ∃ r st, A.opened.getLast? = some r ∧ s.streams r = some st ∧
          st.active = true ∧ st.turn = .telling rest) := by
  constructor
  · intro s a A hs ha hserved
    have hinbox := Client.inbox_of_reachable (client_reachable hs)
    have hreading := Session.Reading.of_reachable (server_reachable hs) ha
    rw [← hinbox.log, hreading.produced]
    exact (hinbox.delivered.trans (received_of_served hs ha hserved)).trans
      (List.prefix_append _ _)
  · exact fun es s a A hrun ha => Server.yielded_of_run hrun ha

/-- Upstream sends two bytes; the first has come to the reader. -/
def readByte : List TunnelEvent :=
  [.client (.io (.sendRead 0)), .getArrives 0 0, .server (.actor 0 .start),
    .server (.actor 0 (.connect 8 8)), .server (.actor 0 (.upstreamSend [5, 6])), .server (.ask 0),
    .server (.handle 0), .server (.reply 0), .server (.poll 0 (.data 1)), .server (.tell 0),
    .client (.io (.readResponse .ok)), .client (.io (.frame (.data [5]))), .client (.io .push),
    .client (.poll (.read 4)), .client .resume]

/-- The server's part of it. -/
def yieldByte : List ServerEvent :=
  [.request 0 (Server.sampleRequest .get) 0, .actor 0 .start, .actor 0 (.connect 8 8),
    .actor 0 (.upstreamSend [5, 6]), .ask 0, .handle 0, .reply 0, .poll 0 (.data 1), .tell 0]

theorem yieldByte_undisturbed :
    ∀ s, ∀ e ∈ yieldByte, Server.Undisturbed s e := by
  intro s e he
  simp only [yieldByte, List.mem_cons, List.not_mem_nil, or_false] at he
  rcases he with rfl | rfl | rfl | rfl | rfl | rfl | rfl | rfl | rfl <;> trivial

theorem readByte_received :
    (∃ s A, (machine sampleEnv).Reachable s ∧ s.server.actors 0 = some A ∧
      readIn s.client.log = [5] ∧ readIn s.client.log <+: A.upstream.produced) ∧
    ∃ (s : Server) (A : Session), s.actors 0 = some A ∧ A.upstream.consumed = [5] ∧
      A.opened.Nodup ∧ ∃ rest, A.upstream.consumed = A.opened.flatMap s.framesOf ++ rest := by
  constructor
  · obtain ⟨s, hrun, hactor, hgets, hcall, hlog⟩ := Machine.exists_run (M := machine sampleEnv)
      (P := fun s => (s.server.actors 0).isSome ∧ s.gets = [0] ∧
        (s.server.calls 0).map Call.session = some (some 0) ∧ readIn s.client.log = [5])
      readByte (by decide)
    obtain ⟨A, ha⟩ := Option.isSome_iff_exists.mp hactor
    have hserved : ServedBy s s.gets 0 := hgets ▸ servedBy_singleton hcall
    exact ⟨s, A, hrun.reachable, ha, hlog, download_integrity.1 s 0 A hrun.reachable ha hserved⟩
  · obtain ⟨s, hrun, hconsumed⟩ := Machine.exists_run (M := Server.machine sampleEnv.server)
      (P := fun s => (s.actors 0).map (fun A => A.upstream.consumed) = some [5]) yieldByte
      (by decide)
    obtain ⟨A, ha, hconsumed⟩ := Option.map_eq_some_iff.mp hconsumed
    have hcalm := hrun.of_forall yieldByte_undisturbed
    obtain ⟨hnodup, rest, hsplit, _⟩ :=
      download_integrity.2 yieldByte s 0 A hcalm ha
    exact ⟨s, A, ha, hconsumed, hnodup, rest, hsplit⟩

end Fronting.Tunnel
