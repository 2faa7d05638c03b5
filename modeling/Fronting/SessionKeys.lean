import Fronting.ServerStep

/-!
# The header of the session id

Client and server are given one header name for the session id. The client appends that
header after the headers it sets itself, and the server reads the first header of the name:
a key that names one of the client's own headers is read from there.
-/

namespace Fronting

/-- `Config::with_session_key`. -/
def ServerEnv.withSessionKey (env : ServerEnv) (sessionKey : String) : ServerEnv :=
  { env with sessionKey := sessionKey }

/-- What `uuid` says of texts: that of `x` is visible and parses back, and a text with a slash
is none of an id. -/
structure HttpLib.UuidText (lib : HttpLib) (x : Uuid) : Prop where
  visible : headerToStr (lib.uuidToString x) = some (lib.uuidToString x)
  parses : lib.uuidFromStr (lib.uuidToString x) = some x
  slashless : ∀ text y, lib.uuidFromStr text = some y → '/' ∉ text.toList

/-- The key does not name the client's header `own`, and if it names that of the host then the
host's text is that of the session id. -/
def KeyClear (lib : HttpLib) (proxyHost key own : String) (x : Uuid) : Prop :=
  headerName key ≠ own ∧
    (headerName key = "host" → (headerToStr proxyHost).bind lib.uuidFromStr = some x)

theorem uuidFromStr_of_slash {lib : HttpLib} {x y : Uuid} {value : String}
    (hlib : lib.UuidText x) (hvalue : '/' ∈ value.toList) :
    (headerToStr value).bind lib.uuidFromStr ≠ some y := by
  intro hsome
  obtain ⟨text, htext, hparse⟩ := Option.bind_eq_some_iff.mp hsome
  obtain rfl : value = text := Option.some.inj (Option.ite_none_right_eq_some.mp htext).2
  exact hlib.slashless value y hparse hvalue

/-- The header that is read is the first of the key's name. -/
theorem sessionId_iff_keyClear {lib : HttpLib} {proxyHost key : String} {x : Uuid}
    {method : Method} {uri own value : String} {req : Request} (hlib : lib.UuidText x)
    (hown : headerName own = own) (hne : "host" ≠ own) (hvalue : '/' ∈ value.toList)
    (h : buildRequest lib method uri
      [("host", proxyHost), (own, value), (key, lib.uuidToString x)] = some req) :
    req.sessionId lib key = some x ↔ KeyClear lib proxyHost key own x := by
  obtain ⟨hheaders, hvalid⟩ := headers_of_buildRequest h
  have hkey : lib.headerNameValid key = true := hvalid (key, lib.uuidToString x) (by simp)
  have hhost : headerName "host" = "host" := by decide
  rw [Request.sessionId, hheaders, HeaderMap.get_cons hkey, HeaderMap.get_cons hkey,
    HeaderMap.get_cons hkey, hhost, hown, if_pos rfl, KeyClear]
  by_cases hhostKey : "host" = headerName key
  · rw [if_pos hhostKey, Option.bind_some, ← hhostKey]
    constructor
    · exact fun hread => ⟨hne, fun _ => hread⟩
    · exact fun hclear => hclear.2 rfl
  · rw [if_neg hhostKey]
    by_cases hownKey : own = headerName key
    · rw [if_pos hownKey, Option.bind_some]
      constructor
      · exact fun hread => absurd hread (uuidFromStr_of_slash hlib hvalue)
      · exact fun hclear => absurd hownKey.symm hclear.1
    · rw [if_neg hownKey, Option.bind_some, hlib.visible, Option.bind_some, hlib.parses]
      constructor
      · exact fun _ => ⟨fun hkey => hownKey hkey.symm, fun hkey => absurd hkey.symm hhostKey⟩
      · exact fun _ => rfl

namespace Server

variable {env : ServerEnv} {req : Request} {x : Uuid}

/-- `handle_request_inner` takes the request for one of the session `x`. -/
def ReadAs (env : ServerEnv) (req : Request) (x : Uuid) : Prop :=
  ∀ (s : Server) (r : ReqId) (fresh : ActorRef),
    s.handleRequestInner env r req fresh = s.dispatch r req x fresh

theorem sessionId_of_dispatch (s : Server) (r : ReqId) (req : Request) (x : Uuid)
    (fresh : ActorRef) :
    ((s.dispatch r req x fresh).calls r).map Call.sessionId = some (some x) := by
  unfold dispatch
  split <;> simp [reject]

theorem readAs_iff (hmethod : ∀ name, req.method ≠ .other name) :
    ReadAs env req x ↔ req.sessionId env.http env.sessionKey = some x := by
  constructor
  · intro hread
    have hcall := sessionId_of_dispatch init 0 req x 0
    rw [← hread init 0 0] at hcall
    unfold handleRequestInner at hcall
    dsimp only at hcall
    split at hcall
    · next name hname => exact absurd hname (hmethod name)
    · split at hcall
      · simp [reject] at hcall
      · next y hy =>
        rw [sessionId_of_dispatch, Option.some.injEq] at hcall
        rw [hy, hcall]
  · intro hid s r fresh
    unfold handleRequestInner
    dsimp only
    split
    · next name hname => exact absurd hname (hmethod name)
    · rw [hid]

/-- A request of the client is read as one of its session if and only if the session key, which
both ends are given, does not name a header that the client sets before it. -/
theorem readAs_iff_keyClear {env : ServerEnv} {config : DomainFronting} {key : String}
    {sessionId : Uuid} (hlib : env.http.UuidText sessionId) :
    (∀ path req, createReadRequest env.http (config.withSessionKey key) sessionId path = some req →
      (ReadAs (env.withSessionKey key) req sessionId ↔
        KeyClear env.http config.proxyHost key "accept" sessionId)) ∧
    (∀ canCreateSession path req, createWriteRequest env.http (config.withSessionKey key) sessionId
        canCreateSession path = some req →
      (ReadAs (env.withSessionKey key) req sessionId ↔
        KeyClear env.http config.proxyHost key "content-type" sessionId)) := by
  constructor
  · intro path req h
    have hmethod : ∀ name, req.method ≠ .other name := by
      rw [createReadRequest_method h]
      simp
    rw [readAs_iff hmethod]
    exact sessionId_iff_keyClear hlib (by decide) (by decide) (by decide) h
  · intro canCreateSession path req h
    have hmethod : ∀ name, req.method ≠ .other name := by
      rw [createWriteRequest_method h]
      cases canCreateSession <;> simp
    rw [readAs_iff hmethod]
    exact sessionId_iff_keyClear hlib (by decide) (by decide) (by decide) h

def sampleFront : DomainFronting :=
  ⟨some .https, "api.example.com", DomainFronting.defaultSessionKey⟩

theorem sample_uuidText : HttpLib.sample.UuidText 0 := by
  constructor
  · decide
  · rfl
  · intro text y htext
    simp only [HttpLib.sample] at htext
    split at htext
    · next h =>
      subst h
      decide
    · split at htext
      · next h =>
        subst h
        decide
      · cases htext

/-- The default key carries the id. -/
theorem defaultKey_readAs :
    ∃ req, createReadRequest .sample (sampleFront.withSessionKey "X-Session") 0 0 = some req ∧
      (ReadAs (sampleEnv.withSessionKey "X-Session") req 0 ↔
        KeyClear .sample "api.example.com" "X-Session" "accept" 0) := by
  obtain ⟨req, hreq⟩ := Option.isSome_iff_exists.mp (show (createReadRequest .sample
    (sampleFront.withSessionKey "X-Session") 0 0).isSome = true by decide)
  have hlib : sampleEnv.http.UuidText 0 := sample_uuidText
  exact ⟨req, hreq, (readAs_iff_keyClear hlib).1 0 req hreq⟩

/-- Under the key `Accept` the server reads `*/*` from the `GET` requests of a session, while the
`POST` requests still carry its id. -/
theorem acceptKey_not_readAs :
    HttpLib.sample.headerNameValid "Accept" = true ∧
      (∃ req, createReadRequest .sample (sampleFront.withSessionKey "Accept") 0 0 = some req ∧
        ¬ ReadAs (sampleEnv.withSessionKey "Accept") req 0) ∧
      ∃ req, createWriteRequest .sample (sampleFront.withSessionKey "Accept") 0 true 0 = some req ∧
        ReadAs (sampleEnv.withSessionKey "Accept") req 0 := by
  refine ⟨by decide, ?_, ?_⟩
  · refine ⟨⟨.get, [("host", "api.example.com"), ("accept", "*/*"),
      ("Accept", "00000000-0000-0000-0000-000000000000")]⟩, by decide, ?_⟩
    rw [readAs_iff (by simp)]
    decide
  · refine ⟨⟨.post, [("host", "api.example.com"), ("content-type", "application/octet-stream"),
      ("Accept", "00000000-0000-0000-0000-000000000000")]⟩, by decide, ?_⟩
    rw [readAs_iff (by simp)]
    decide

end Server
end Fronting
