import Lycoris.Lib.Json
import Lycoris.Lib.Loop

/-!
The outbound HTTP capability of guests (`extension/src/http.rs`, and of `wasm.rs` the egress policy and the
`http` import). The policy is held against the URL of the guest's document; the client that sends the request
follows redirects of its own accord, and while the module is being instantiated no policy is set yet.
-/

namespace Lycoris.Extension
open Lib Json

/-- A request as the client sends it. -/
structure Outbound (U : Type) where
  method : String
  url : U
  headers : List (String × String)
  body : Option String

/-- An answer of a server. Its body comes in chunks, of which one may fail. -/
structure Answer where
  status : UInt16
  headers : List (String × ByteArray)
  body : List (Except String ByteArray)

/-- What comes of one request of the client. -/
inductive Attempt where
  | failed (error : String)
  | answered (answer : Answer)

/-- What the capability uses of its libraries: JSON, text and URL handling, and the requests the client
derives from redirects. -/
structure HttpStack (U : Type) where
  text : JsonCodec
  valueComplaint : Json → String
  fromSlice : ByteArray → Option Json
  sliceComplaint : ByteArray → String
  toVec : Json → Except String ByteArray
  /-- `{:?}` of a text. -/
  debug : String → String
  fromUtf8Lossy : ByteArray → String
  parseUrl : String → Except String U
  scheme : U → String
  hostStr : U → Option String
  parseMethod : String → Except String String
  parseHeaderName : String → Except String String
  parseHeaderValue : String → Except String String
  /-- The further request for a redirect answer, to the target of its location. -/
  redirected : Outbound U → Answer → Option (Outbound U)

variable {U : Type}

def startsWith (text start : String) : Bool := start.toList.isPrefixOf text.toList

/-- URLs are read as the WHATWG has it: an http or https text gives a URL of such a scheme. -/
def HttpStack.ReadsSchemes (stack : HttpStack U) : Prop :=
  ∀ text url, startsWith text.toLower "http://" ∨ startsWith text.toLower "https://" →
    stack.parseUrl text = .ok url → stack.scheme url = "http" ∨ stack.scheme url = "https"

/-! ### The policy -/

/-- A later field of a name replaces the earlier ones. -/
def getField (name : String) : Json → Option Json
  | .object fields => fields.reverse.lookup name
  | _ => none

/-- Why settings are refused, `ExtensionError::InvalidPayload`. -/
structure InvalidPayload where
  message : String

def parseHttpAllowHosts (stack : HttpStack U) (settings : Json) :
    Except InvalidPayload (Option (List String)) :=
  let refused (complaint : String) : InvalidPayload :=
    ⟨"http_allow_hosts must be an array of host names: " ++ complaint⟩
  match getField "http_allow_hosts" settings with
  | none => .ok none
  | some .null => .ok none
  | some (.string raw) =>
    (okOr ((stack.text.parse raw).bind (asList asString)) (refused (stack.text.complaint raw))).map some
  | some other => (okOr (asList asString other) (refused (stack.valueComplaint other))).map some

/-! ### The check -/

inductive FailureKind where
  | invalidRequest
  | unsupportedScheme
  | hostNotAllowed
  | transport
  | responseTooLarge
  | internal
  deriving DecidableEq

def FailureKind.name : FailureKind → String
  | .invalidRequest => "invalid_request"
  | .unsupportedScheme => "unsupported_scheme"
  | .hostNotAllowed => "host_not_allowed"
  | .transport => "transport"
  | .responseTooLarge => "response_too_large"
  | .internal => "internal"

structure HttpFailure where
  kind : FailureKind
  message : String

def HttpFailure.document (stack : HttpStack U) (failure : HttpFailure) : ByteArray :=
  let error : Json := .object [("message", .string failure.message), ("type", .string failure.kind.name)]
  match stack.toVec (.object [("error", error)]) with
  | .ok bytes => bytes
  | .error _ => "\x7b\"error\":\x7b\"type\":\"internal\",\"message\":\"encoding failed\"\x7d\x7d".toUTF8

/-- `BTreeMap<String, String>`: ordered by name, a later entry replaces an earlier one. -/
def asTextMap : Json → Option (List (String × String))
  | .object fields => do
    let entries ← fields.mapM fun field => do return (field.1, ← asString field.2)
    let empty : Std.ExtTreeMap String String := ∅
    return (entries.foldl (fun map entry => map.insert entry.1 entry.2) empty).toList
  | _ => none

structure Request where
  method : String
  url : String
  headers : List (String × String)
  body : Option String

def Request.read (value : Json) : Option Request := do
  let [method, url, headers, body] ← members ["method", "url", "headers", "body"] value | none
  return {
    method := ← method.required asString
    url := ← url.required asString
    headers := ← headers.orDefault asTextMap []
    body := ← body.optional asString }

/-- A host is held against the entries up to the case of ASCII letters. -/
def listed (hosts : List String) (host : String) : Bool :=
  hosts.any fun allowed => allowed.toLower = host.toLower

def checkHost (stack : HttpStack U) (allowHosts : Option (List String)) (host : String) :
    Except HttpFailure Unit :=
  match allowHosts with
  | none => .ok ()
  | some hosts =>
    ensure (listed hosts host)
      ⟨.hostNotAllowed, "host " ++ stack.debug host.toLower ++ " is not in http_allow_hosts"⟩

def parseHeader (stack : HttpStack U) (header : String × String) :
    Except HttpFailure (String × String) := do
  let name ← (stack.parseHeaderName header.1).mapError fun err =>
    (⟨.invalidRequest, "invalid header name: " ++ err⟩ : HttpFailure)
  let value ← (stack.parseHeaderValue header.2).mapError fun err =>
    (⟨.invalidRequest, "invalid header value: " ++ err⟩ : HttpFailure)
  return (name, value)

/-- `execute_inner` up to the sending: the request the document stands for, once it is checked. -/
def prepare (stack : HttpStack U) (allowHosts : Option (List String)) (document : ByteArray) :
    Except HttpFailure (Outbound U) := do
  let request ← okOr ((stack.fromSlice document).bind Request.read)
    (⟨.invalidRequest, "request is not a valid http document: " ++ stack.sliceComplaint document⟩ :
      HttpFailure)
  ensure (startsWith request.url.toLower "http://" ∨ startsWith request.url.toLower "https://")
    ⟨.unsupportedScheme, "only http: and https: URLs are allowed, got " ++ stack.debug request.url⟩
  let url ← (stack.parseUrl request.url).mapError fun err =>
    (⟨.invalidRequest, "invalid url: " ++ err⟩ : HttpFailure)
  let host ← okOr (stack.hostStr url) ⟨.invalidRequest, "url has no host"⟩
  checkHost stack allowHosts host
  let method ← (stack.parseMethod request.method).mapError fun err =>
    (⟨.invalidRequest, "invalid method: " ++ err⟩ : HttpFailure)
  let headers ← request.headers.mapM (parseHeader stack)
  return { method := method, url := url, headers := headers, body := request.body }

/-! ### The sending -/

/-- How many redirects a client without a redirect policy of its own follows. -/
def redirectLimit : Nat := 10

/-- The requests a client sends for one, with the answers of the servers in turn, and what comes of it. -/
def sendFollowing (stack : HttpStack U) :
    Nat → Outbound U → (Nat → Attempt) → List (Outbound U) × Except String Answer
  | left, request, answers =>
    match answers 0 with
    | .failed err => ([request], .error err)
    | .answered answer =>
      match stack.redirected request answer, left with
      | none, _ => ([request], .ok answer)
      | some _, 0 => ([request], .error "error following redirect: too many redirects")
      | some next, left + 1 =>
        let rest := sendFollowing stack left next fun n => answers (n + 1)
        (request :: rest.1, rest.2)

def maxResponseBodyBytes : Nat := 8 * 1024 * 1024

/-- The chunks of the body, under the cap. -/
def readBody : List (Except String ByteArray) → ByteArray → Except HttpFailure ByteArray
  | [], body => .ok body
  | .error err :: _, _ => .error ⟨.transport, "failed to read the body: " ++ err⟩
  | .ok chunk :: rest, body =>
    if maxResponseBodyBytes < body.size + chunk.size then
      .error
        ⟨.responseTooLarge, "response body exceeds the " ++ toString maxResponseBodyBytes ++ " byte cap"⟩
    else readBody rest (body ++ chunk)

/-- The response document; the last value of a header name is kept. -/
def respond (stack : HttpStack U) (answer : Answer) : Except HttpFailure ByteArray := do
  let headers := answer.headers.foldl (fun map header => map.insert header.1 (stack.fromUtf8Lossy header.2))
    (∅ : Std.ExtTreeMap String String)
  let body ← readBody answer.body ByteArray.empty
  let document : Json := .object [
    ("body", .string (stack.fromUtf8Lossy body)),
    ("headers", .object (headers.toList.map fun header => (header.1, .string header.2))),
    ("status", ofU16 answer.status)]
  (stack.toVec document).mapError fun err => ⟨.internal, "failed to encode the response: " ++ err⟩

/-- The requests sent for a document and the response document. -/
structure Execution (U : Type) where
  sent : List (Outbound U)
  response : ByteArray

def execute (stack : HttpStack U) (allowHosts : Option (List String)) (document : ByteArray)
    (answers : Nat → Attempt) : Execution U :=
  match prepare stack allowHosts document with
  | .error failure => { sent := [], response := failure.document stack }
  | .ok request =>
    let result := sendFollowing stack redirectLimit request answers
    let response :=
      (result.2.mapError fun err => ⟨.transport, "request failed: " ++ err⟩) >>= respond stack
    { sent := result.1
      response := match response with
        | .ok bytes => bytes
        | .error failure => failure.document stack }

/-! ### The import -/

/-- The egress policy of an instance. -/
structure WasmState where
  httpAllowHosts : Option (List String)

/-- The state a module is instantiated in, its start section included. -/
def WasmState.fresh : WasmState := { httpAllowHosts := none }

/-- The settings are parsed before the lock is taken, so that it is never poisoned. -/
def applyPolicy (stack : HttpStack U) (settings : Json) (state : WasmState) :
    Except InvalidPayload WasmState := do
  return { state with httpAllowHosts := ← parseHttpAllowHosts stack settings }

/-- The states in which the guest of an instance under these settings can submit a document. -/
inductive Hosted (stack : HttpStack U) (settings : Json) : WasmState → Prop where
  | instantiating : Hosted stack settings .fresh
  | loaded {state : WasmState} (applied : applyPolicy stack settings .fresh = .ok state) :
    Hosted stack settings state

/-- What stands in for a request buffer out of bounds. -/
def outOfBounds : ByteArray := "\x7b\"error\":\"out-of-bounds request buffer\"\x7d".toUTF8

/-- The import on the bytes of the guest's buffer, absent when it is out of bounds. -/
def runHttpImport (stack : HttpStack U) (state : WasmState) (request : Option ByteArray)
    (answers : Nat → Attempt) : Execution U :=
  execute stack state.httpAllowHosts
    (request.getD outOfBounds) answers

/-! ### Where the requests go -/

/-- The URL is of an http scheme and its host is one of the list. -/
def HttpStack.Inside (stack : HttpStack U) (hosts : List String) (url : U) : Prop :=
  (stack.scheme url = "http" ∨ stack.scheme url = "https") ∧
  ∃ host, stack.hostStr url = some host ∧ ∃ allowed ∈ hosts, allowed.toLower = host.toLower

/-- The request after `n` redirects, as the answers lead to it. -/
def hop (stack : HttpStack U) (first : Outbound U) (answers : Nat → Attempt) : Nat → Option (Outbound U)
  | 0 => some first
  | n + 1 =>
    match hop stack first answers n, answers n with
    | some request, .answered answer => stack.redirected request answer
    | _, _ => none

/-- None of the redirects that are followed leads out of the list. -/
def RedirectsStay (stack : HttpStack U) (hosts : List String) (first : Outbound U)
    (answers : Nat → Attempt) : Prop :=
  ∀ n < redirectLimit, ∀ next, hop stack first answers (n + 1) = some next → stack.Inside hosts next.url

/-- A chain that has ended stays ended. -/
theorem hop_none {stack : HttpStack U} {first : Outbound U} {answers : Nat → Attempt}
    (last : hop stack first answers 1 = none) (n : Nat) : hop stack first answers (n + 1) = none := by
  induction n with
  | zero => exact last
  | succ n ih => rw [hop, ih]

/-- After the first redirect the chain is that of the further request. -/
theorem hop_of_redirect {stack : HttpStack U} {first next : Outbound U} {answers : Nat → Attempt}
    {answer : Answer} (answered : answers 0 = .answered answer)
    (redirect : stack.redirected first answer = some next) (n : Nat) :
    hop stack first answers (n + 1) = hop stack next (fun n => answers (n + 1)) n := by
  induction n with
  | zero => simp [hop, answered, redirect]
  | succ n ih => rw [hop, ih, hop]

theorem mem_of_last {stack : HttpStack U} {request sent : Outbound U} {answers : Nat → Attempt}
    (last : hop stack request answers 1 = none) (left : Nat) :
    sent ∈ [request] ↔ ∃ n ≤ left, hop stack request answers n = some sent := by
  rw [List.mem_singleton]
  constructor
  · rintro rfl
    exact ⟨0, Nat.zero_le _, rfl⟩
  · rintro ⟨n, _, reached⟩
    cases n with
    | zero => exact (Option.some.inj reached).symm
    | succ n => simp [hop_none last n] at reached

/-- The requests sent are the chain of hops, up to the limit. -/
theorem mem_sendFollowing {stack : HttpStack U} {left : Nat} {request sent : Outbound U}
    {answers : Nat → Attempt} :
    sent ∈ (sendFollowing stack left request answers).1 ↔
      ∃ n ≤ left, hop stack request answers n = some sent := by
  induction left generalizing request answers with
  | zero =>
    have alone : (sendFollowing stack 0 request answers).1 = [request] := by
      cases arrived : answers 0 with
      | failed err => simp [sendFollowing, arrived]
      | answered answer => cases redirect : stack.redirected request answer <;>
          simp [sendFollowing, arrived, redirect]
    simp [alone, hop, eq_comm]
  | succ left ih =>
    cases arrived : answers 0 with
    | failed err =>
      simp only [sendFollowing, arrived]
      exact mem_of_last (by simp [hop, arrived]) _
    | answered answer =>
      cases redirect : stack.redirected request answer with
      | none =>
        simp only [sendFollowing, arrived, redirect]
        exact mem_of_last (by simp [hop, arrived, redirect]) _
      | some next =>
        rw [sendFollowing]
        simp only [arrived, redirect, List.mem_cons, ih, ← hop_of_redirect arrived redirect]
        constructor
        · rintro (rfl | ⟨n, bound, reached⟩)
          · exact ⟨0, Nat.zero_le _, rfl⟩
          · exact ⟨n + 1, by omega, reached⟩
        · rintro ⟨n, bound, reached⟩
          cases n with
          | zero => exact .inl (Option.some.inj reached).symm
          | succ n => exact .inr ⟨n, by omega, reached⟩

/-- A request that passes the check goes to an http URL and, under a list, to a host of it. -/
theorem prepare_inside {stack : HttpStack U} {hosts : List String} {document : ByteArray} {first : Outbound U}
    (schemes : stack.ReadsSchemes) (passed : prepare stack (some hosts) document = .ok first) :
    stack.Inside hosts first.url := by
  unfold prepare at passed
  obtain ⟨request, _, passed⟩ := bind_ok.mp passed
  obtain ⟨_, scheme, passed⟩ := bind_ok.mp passed
  obtain ⟨url, parsed, passed⟩ := bind_ok.mp passed
  obtain ⟨host, named, passed⟩ := bind_ok.mp passed
  obtain ⟨_, allowed, passed⟩ := bind_ok.mp passed
  obtain ⟨method, _, passed⟩ := bind_ok.mp passed
  obtain ⟨headers, _, passed⟩ := bind_ok.mp passed
  cases passed
  have inScheme := schemes request.url url (ensure_ok.mp scheme) (mapError_ok.mp parsed)
  have member := ensure_ok.mp allowed
  exact ⟨inScheme, host, okOr_ok.mp named, by simpa [listed] using member⟩

/-- The requests a guest has the host send stay inside the list of its settings exactly when no redirect
leads out and, for a document submitted while the module is instantiated, its own URL is inside. -/
theorem egress_inside_iff {stack : HttpStack U} {settings : Json} {hosts : List String} {state : WasmState}
    (schemes : stack.ReadsSchemes) (listed : parseHttpAllowHosts stack settings = .ok (some hosts))
    (hosted : Hosted stack settings state) (request : Option ByteArray) (answers : Nat → Attempt) :
    (∀ sent ∈ (runHttpImport stack state request answers).sent, stack.Inside hosts sent.url) ↔
    ∀ first,
      prepare stack state.httpAllowHosts (request.getD outOfBounds) = .ok first →
      (state = .fresh → stack.Inside hosts first.url) ∧ RedirectsStay stack hosts first answers := by
  rw [runHttpImport, execute]
  cases passed : prepare stack state.httpAllowHosts (request.getD outOfBounds) with
  | error failure => simp
  | ok first =>
    have start : (state = .fresh → stack.Inside hosts first.url) ↔ stack.Inside hosts first.url := by
      refine ⟨fun fresh => ?_, fun inside _ => inside⟩
      cases hosted with
      | instantiating => exact fresh rfl
      | loaded applied =>
        rw [applyPolicy, listed] at applied
        cases applied
        exact prepare_inside schemes passed
    simp only [Except.ok.injEq, forall_eq', start, mem_sendFollowing]
    constructor
    · intro inside
      refine ⟨inside first ⟨0, Nat.zero_le _, rfl⟩, ?_⟩
      intro n bound next reached
      exact inside next ⟨n + 1, bound, reached⟩
    · rintro ⟨inside, stay⟩ sent ⟨n, bound, reached⟩
      cases n with
      | zero =>
        cases reached
        exact inside
      | succ n => exact stay n bound sent reached

/-! ### A redirect to another host -/

def asciiText (bytes : ByteArray) : String :=
  String.ofList (bytes.data.toList.map fun byte => Char.ofNat byte.toNat)

/-- URLs by scheme and host, enough for the texts of the sample. -/
def sampleUrl (text : String) : Except String (String × String) :=
  let host (rest : List Char) := String.ofList ((rest.takeWhile (· ≠ '/')).map Char.toLower)
  if startsWith text.toLower "http://" then .ok ("http", host (text.toList.drop 7))
  else if startsWith text.toLower "https://" then .ok ("https", host (text.toList.drop 8))
  else .error "relative URL without a base"

def sampleRequest (url : String) : ByteArray :=
  ("\x7b\"method\":\"GET\",\"url\":\"" ++ url ++ "\",\"body\":null\x7d").toUTF8

mutual

/-- `serde_json::to_vec` where no text needs an escape. -/
def sampleText : Json → String
  | .null => "null"
  | .bool value => toString value
  | .number (.unsigned value) => toString value.toNat
  | .number (.negative value) => toString value
  | .number (.float text) => text
  | .string text => "\"" ++ text ++ "\""
  | .array items => "[" ++ ",".intercalate (sampleItems items) ++ "]"
  | .object fields => "\x7b" ++ ",".intercalate (sampleFields fields) ++ "\x7d"

def sampleItems : List Json → List String
  | [] => []
  | item :: rest => sampleText item :: sampleItems rest

def sampleFields : List (String × Json) → List String
  | [] => []
  | (name, value) :: rest => ("\"" ++ name ++ "\":" ++ sampleText value) :: sampleFields rest

end

/-- The libraries, as they behave on the request for this URL. -/
def sampleStack (url : String) : HttpStack (String × String) where
  text := {
    parse := fun _ => none
    print := fun _ => ""
    complaint := fun _ => "expected value at line 1 column 1" }
  valueComplaint _ := "invalid type: expected a sequence"
  fromSlice bytes :=
    if asciiText bytes = asciiText (sampleRequest url) then
      some (.object [("method", .string "GET"), ("url", .string url), ("body", .null)])
    else none
  sliceComplaint _ := "expected value at line 1 column 1"
  toVec document := .ok (sampleText document).toUTF8
  debug text := "\"" ++ text ++ "\""
  fromUtf8Lossy := asciiText
  parseUrl := sampleUrl
  scheme := Prod.fst
  hostStr url := some url.2
  parseMethod := .ok
  parseHeaderName := .ok
  parseHeaderValue := .ok
  redirected request answer :=
    if answer.status ∈ [301, 302, 303, 307, 308] then do
      let location ← answer.headers.lookup "location"
      let url ← (sampleUrl (asciiText location)).toOption
      return { request with url := url }
    else none

def sampleSettings : Json := .object [("http_allow_hosts", .array [.string "api.openai.com"])]

/-- A server that redirects once and then answers. -/
def sampleAnswers (location : String) : Nat → Attempt
  | 0 => .answered { status := 302, headers := [("location", location.toUTF8)], body := [] }
  | _ => .answered { status := 200, headers := [], body := [] }

theorem sampleStack_reads (url : String) : (sampleStack url).ReadsSchemes := by
  intro text url _ parsed
  simp only [sampleStack, sampleUrl] at parsed ⊢
  split_ifs at parsed <;> cases parsed
  · exact .inl rfl
  · exact .inr rfl

theorem sampleStack_outside {url : String} {hosts : List String} {target : String × String}
    (outside : ∀ allowed ∈ hosts, allowed.toLower ≠ target.2.toLower) :
    ¬ (sampleStack url).Inside hosts target := by
  rintro ⟨_, host, named, allowed, member, same⟩
  cases named
  exact outside allowed member same

/-- A redirect to another path of the listed host is followed inside the list. -/
theorem redirect_within_host_inside :
    (runHttpImport (sampleStack "https://API.openai.com/v1")
        { httpAllowHosts := some ["api.openai.com"] } (some (sampleRequest "https://API.openai.com/v1"))
        (sampleAnswers "https://api.openai.com/v2")).sent.length = 2 ∧
    ∀ sent ∈ (runHttpImport (sampleStack "https://API.openai.com/v1")
        { httpAllowHosts := some ["api.openai.com"] } (some (sampleRequest "https://API.openai.com/v1"))
        (sampleAnswers "https://api.openai.com/v2")).sent,
      (sampleStack "https://API.openai.com/v1").Inside ["api.openai.com"] sent.url := by
  have hosts : parseHttpAllowHosts (sampleStack "https://API.openai.com/v1") sampleSettings
      = .ok (some ["api.openai.com"]) := rfl
  have location : (sampleUrl (asciiText "https://api.openai.com/v2".toByteArray)).toOption
      = some ("https", "api.openai.com") := by decide +kernel
  refine ⟨by decide +kernel, (egress_inside_iff (sampleStack_reads _) hosts (.loaded rfl) _ _).mpr ?_⟩
  intro first _
  refine ⟨fun fresh => absurd fresh (by simp [WasmState.fresh]), ?_⟩
  intro n _ next reached
  have led : (sampleStack "https://API.openai.com/v1").redirected first
      { status := 302, headers := [("location", "https://api.openai.com/v2".toUTF8)], body := [] }
      = some { first with url := ("https", "api.openai.com") } := by
    simp [sampleStack, location]
  rw [hop_of_redirect rfl led] at reached
  cases n with
  | zero =>
    cases reached
    exact ⟨.inr rfl, "api.openai.com", rfl, "api.openai.com", List.mem_singleton_self _, rfl⟩
  | succ n =>
    rw [hop_none rfl] at reached
    cases reached

/-- The client follows a listed host's redirect to any other host, and a start section asks any host. -/
theorem egress_leaves_list :
    parseHttpAllowHosts (sampleStack "https://api.openai.com/v1") sampleSettings
      = .ok (some ["api.openai.com"]) ∧
    Hosted (sampleStack "https://api.openai.com/v1") sampleSettings
      { httpAllowHosts := some ["api.openai.com"] } ∧
    (∃ sent ∈ (runHttpImport (sampleStack "https://api.openai.com/v1")
        { httpAllowHosts := some ["api.openai.com"] } (some (sampleRequest "https://api.openai.com/v1"))
        (sampleAnswers "http://169.254.169.254/latest")).sent,
      ¬ (sampleStack "https://api.openai.com/v1").Inside ["api.openai.com"] sent.url) ∧
    ∃ sent ∈ (runHttpImport (sampleStack "http://169.254.169.254/latest") .fresh
        (some (sampleRequest "http://169.254.169.254/latest")) (sampleAnswers "/")).sent,
      ¬ (sampleStack "http://169.254.169.254/latest").Inside ["api.openai.com"] sent.url := by
  have led : ∃ sent ∈ (runHttpImport (sampleStack "https://api.openai.com/v1")
      { httpAllowHosts := some ["api.openai.com"] } (some (sampleRequest "https://api.openai.com/v1"))
      (sampleAnswers "http://169.254.169.254/latest")).sent, sent.url = ("http", "169.254.169.254") := by
    decide +kernel
  have asked : ∃ sent ∈ (runHttpImport (sampleStack "http://169.254.169.254/latest") .fresh
      (some (sampleRequest "http://169.254.169.254/latest")) (sampleAnswers "/")).sent,
      sent.url = ("http", "169.254.169.254") := by
    decide +kernel
  obtain ⟨further, followed, target⟩ := led
  obtain ⟨first, submitted, named⟩ := asked
  refine ⟨rfl, .loaded rfl, ⟨further, followed, ?_⟩, first, submitted, ?_⟩
  · rw [target]
    exact sampleStack_outside (by decide +kernel)
  · rw [named]
    exact sampleStack_outside (by decide +kernel)

end Lycoris.Extension
