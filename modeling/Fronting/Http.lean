import Mathlib.Data.Option.Basic

/-!
# Requests, responses and the session id they carry

The `http` and `uuid` crates enter as the fields of `HttpLib`. Everything else is
the code that builds requests on the client and reads their head on the server.
-/

namespace Fronting

abbrev Uuid := BitVec 128
abbrev Bytes := List UInt8

abbrev StatusCode := Nat

namespace StatusCode

def ok : StatusCode := 200
def noContent : StatusCode := 204
def badRequest : StatusCode := 400
def tooManyRequests : StatusCode := 429

def isSuccess (c : StatusCode) : Bool := 200 ≤ c ∧ c < 300

end StatusCode

inductive Method
  | get | post | patch
  | other (name : String)
deriving DecidableEq

/-- Name and value of each header, in the order of the map. -/
abbrev HeaderMap := List (String × String)

structure Request where
  method : Method
  headers : HeaderMap
deriving DecidableEq

structure Response where
  status : StatusCode
  headers : HeaderMap
deriving DecidableEq

/-- What the code takes from the `http` and `uuid` crates. -/
structure HttpLib where
  uriValid : String → Bool
  headerNameValid : String → Bool
  headerValueValid : String → Bool
  uuidToString : Uuid → String
  uuidFromStr : String → Option Uuid

/-- The crates on the nil and the max id, which the runs on concrete inputs use. -/
def HttpLib.sample : HttpLib where
  uriValid _ := true
  headerNameValid name := name.toList.all fun c => c.isAlphanum || c = '-'
  headerValueValid value := value.toList.all fun c => 32 ≤ c.toNat
  uuidToString x :=
    if x = 0 then "00000000-0000-0000-0000-000000000000"
    else "ffffffff-ffff-ffff-ffff-ffffffffffff"
  uuidFromStr name :=
    if name = "00000000-0000-0000-0000-000000000000" then some 0
    else if name = "ffffffff-ffff-ffff-ffff-ffffffffffff" then some (BitVec.allOnes 128)
    else none

/-- Header names compare by their lower-case form. -/
def headerName (name : String) : String := String.ofList (name.toList.map Char.toLower)

def HeaderMap.get (lib : HttpLib) (headers : HeaderMap) (key : String) : Option String :=
  if lib.headerNameValid key then
    (headers.find? fun h => headerName h.1 = headerName key).map Prod.snd
  else none

theorem HeaderMap.get_cons {lib : HttpLib} {key : String} (hkey : lib.headerNameValid key = true)
    (name value : String) (headers : HeaderMap) :
    HeaderMap.get lib ((name, value) :: headers) key =
      if headerName name = headerName key then some value else headers.get lib key := by
  simp only [HeaderMap.get, hkey, if_true, List.find?_cons]
  by_cases hname : headerName name = headerName key <;> simp [hname]

/-- `HeaderValue::to_str`, defined on visible ASCII only. -/
def headerToStr (value : String) : Option String :=
  if value.toList.all fun c => (32 ≤ c.toNat ∧ c.toNat < 127) ∨ c = '\t' then some value else none

def Request.sessionId (lib : HttpLib) (sessionKey : String) (req : Request) : Option Uuid :=
  ((req.headers.get lib sessionKey).bind headerToStr).bind lib.uuidFromStr

inductive Scheme
  | http | https
  | other (name : String)
deriving DecidableEq

/-- The settings of `DomainFronting` that its requests are made from. -/
structure DomainFronting where
  frontScheme : Option Scheme
  proxyHost : String
  sessionKey : String

namespace DomainFronting

def defaultSessionKey : String := "X-Session"

def withSessionKey (config : DomainFronting) (sessionKey : String) : DomainFronting :=
  { config with sessionKey := sessionKey }

/-- TLS is assumed unless HTTP is specifically requested. -/
def tls (config : DomainFronting) : Bool := config.frontScheme ≠ some .http

def scheme (config : DomainFronting) : String := if config.tls then "https" else "http"

end DomainFronting

/-- The request builder, which fails on the first part that does not parse. -/
def buildRequest (lib : HttpLib) (method : Method) (uri : String) (headers : HeaderMap) :
    Option Request :=
  if lib.uriValid uri ∧ headers.all fun h => lib.headerNameValid h.1 ∧ lib.headerValueValid h.2
  then some ⟨method, headers⟩ else none

def requestUri (lib : HttpLib) (config : DomainFronting) (path : Uuid) : String :=
  config.scheme ++ "://" ++ config.proxyHost ++ "/" ++ lib.uuidToString path

def createWriteRequest (lib : HttpLib) (config : DomainFronting) (sessionId : Uuid)
    (canCreateSession : Bool) (path : Uuid) : Option Request :=
  buildRequest lib (if canCreateSession then .post else .patch) (requestUri lib config path)
    [("host", config.proxyHost), ("content-type", "application/octet-stream"),
      (config.sessionKey, lib.uuidToString sessionId)]

def createReadRequest (lib : HttpLib) (config : DomainFronting) (sessionId path : Uuid) :
    Option Request :=
  buildRequest lib .get (requestUri lib config path)
    [("host", config.proxyHost), ("accept", "*/*"),
      (config.sessionKey, lib.uuidToString sessionId)]

theorem createWriteRequest_method {lib : HttpLib} {config : DomainFronting}
    {sessionId path : Uuid} {canCreateSession : Bool} {req : Request}
    (h : createWriteRequest lib config sessionId canCreateSession path = some req) :
    req.method = if canCreateSession then .post else .patch := by
  simp only [createWriteRequest, buildRequest, Option.ite_none_right_eq_some] at h
  rw [← Option.some.inj h.2]

theorem createReadRequest_method {lib : HttpLib} {config : DomainFronting}
    {sessionId path : Uuid} {req : Request}
    (h : createReadRequest lib config sessionId path = some req) : req.method = .get := by
  simp only [createReadRequest, buildRequest, Option.ite_none_right_eq_some] at h
  rw [← Option.some.inj h.2]

/-- The session id arrives: its text is a header value that parses back, under a key that
no other header of the request has. -/
structure HttpLib.Carries (lib : HttpLib) (config : DomainFronting) (sessionId : Uuid) : Prop where
  visible : headerToStr (lib.uuidToString sessionId) = some (lib.uuidToString sessionId)
  parses : lib.uuidFromStr (lib.uuidToString sessionId) = some sessionId
  distinct : ∀ name ∈ ["host", "content-type", "accept"],
    headerName name ≠ headerName config.sessionKey

/-- A request that builds has the headers that it was given, under valid names. -/
theorem headers_of_buildRequest {lib : HttpLib} {method : Method} {uri : String}
    {headers : HeaderMap} {req : Request} (h : buildRequest lib method uri headers = some req) :
    req.headers = headers ∧ ∀ p ∈ headers, lib.headerNameValid p.1 = true := by
  simp only [buildRequest, Option.ite_none_right_eq_some, Option.some.injEq] at h
  obtain ⟨⟨_, hvalid⟩, rfl⟩ := h
  refine ⟨rfl, fun p hp => ?_⟩
  have hall := List.all_eq_true.mp hvalid p hp
  rw [decide_eq_true_eq] at hall
  exact hall.1

theorem buildRequest_sessionId {lib : HttpLib} {config : DomainFronting} {sessionId : Uuid}
    {method : Method} {uri : String} {first second : String × String} {req : Request}
    (hcarries : lib.Carries config sessionId)
    (hfirst : first.1 ∈ ["host", "content-type", "accept"])
    (hsecond : second.1 ∈ ["host", "content-type", "accept"])
    (h : buildRequest lib method uri
      [first, second, (config.sessionKey, lib.uuidToString sessionId)] = some req) :
    req.sessionId lib config.sessionKey = some sessionId := by
  obtain ⟨hheaders, hvalid⟩ := headers_of_buildRequest h
  have hkey : lib.headerNameValid config.sessionKey = true :=
    hvalid (config.sessionKey, lib.uuidToString sessionId) (by simp)
  have hne₁ : headerName first.1 ≠ headerName config.sessionKey := hcarries.distinct _ hfirst
  have hne₂ : headerName second.1 ≠ headerName config.sessionKey := hcarries.distinct _ hsecond
  rw [Request.sessionId, hheaders, HeaderMap.get_cons hkey, if_neg hne₁, HeaderMap.get_cons hkey,
    if_neg hne₂, HeaderMap.get_cons hkey, if_pos rfl, Option.bind_some, hcarries.visible,
    Option.bind_some, hcarries.parses]

theorem createWriteRequest_sessionId {lib : HttpLib} {config : DomainFronting}
    {sessionId path : Uuid} {canCreateSession : Bool} {req : Request}
    (hcarries : lib.Carries config sessionId)
    (h : createWriteRequest lib config sessionId canCreateSession path = some req) :
    req.sessionId lib config.sessionKey = some sessionId :=
  buildRequest_sessionId hcarries (by simp) (by simp) h

theorem createReadRequest_sessionId {lib : HttpLib} {config : DomainFronting}
    {sessionId path : Uuid} {req : Request} (hcarries : lib.Carries config sessionId)
    (h : createReadRequest lib config sessionId path = some req) :
    req.sessionId lib config.sessionKey = some sessionId :=
  buildRequest_sessionId hcarries (by simp) (by simp) h

end Fronting
