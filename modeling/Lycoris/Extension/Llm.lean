import Lycoris.Lib.Json

/-!
The wire between an LLM provider extension and the host: the guest's translation of upstream answers
(`extensions/openai/src/provider.rs`) and the host's typed reading of what the guest answers
(`extension/src/llm.rs`, `daemon/src/llm.rs`). The guest takes any text for the role of a message, the host
knows four roles.
-/

namespace Lycoris.Extension
open Lib Json

/-! ### The guest -/

structure UpstreamErrorBody where
  message : String
  type : Option String
  code : Option String

def UpstreamErrorBody.read (value : Json) : Option UpstreamErrorBody := do
  let [message, type, code] ← members ["message", "type", "code"] value | none
  return {
    message := ← message.required asString
    type := ← type.orDefault (asOption asString) none
    code := ← code.orDefault (asOption asString) none }

/-- `UpstreamError`, by the body it wraps. -/
def readUpstreamError (value : Json) : Option UpstreamErrorBody := do
  let [error] ← members ["error"] value | none
  error.required UpstreamErrorBody.read

/-- The fields of an object are written in the order of their names. -/
def errorDocument (kind message : String) (code : Option String) (status : Option UInt16) : Json :=
  let code := code.toList.map fun code => ("code", .string code)
  let status := status.toList.map fun status => ("status", ofU16 status)
  .object [("error", .object (code ++ [("message", .string message)] ++ status ++ [("type", .string kind)]))]

/-- `(200..300).contains`. -/
def succeeded (status : UInt16) : Bool := 200 ≤ status.toNat && status.toNat < 300

def providerErrorDocument (codec : JsonCodec) (status : UInt16) (body : String) : Json :=
  match (codec.parse body).bind readUpstreamError with
  | some error => errorDocument (error.type.getD "provider_error") error.message error.code (some status)
  | none =>
    errorDocument "provider_error" ("upstream returned status " ++ toString status.toNat ++ ": " ++ body) none
      (some status)

structure CompletionMessage where
  role : String
  content : Option String

structure CompletionChoice where
  index : UInt32
  message : CompletionMessage
  finishReason : Option String

structure CompletionUsage where
  promptTokens : UInt32
  completionTokens : UInt32
  totalTokens : UInt32

structure Completion where
  model : String
  choices : List CompletionChoice
  usage : Option CompletionUsage

def CompletionMessage.read (value : Json) : Option CompletionMessage := do
  let [role, content] ← members ["role", "content"] value | none
  return { role := ← role.required asString, content := ← content.orDefault (asOption asString) none }

def CompletionChoice.read (value : Json) : Option CompletionChoice := do
  let [index, message, finishReason] ← members ["index", "message", "finish_reason"] value | none
  return {
    index := ← index.required asU32
    message := ← message.required CompletionMessage.read
    finishReason := ← finishReason.orDefault (asOption asString) none }

def CompletionUsage.read (value : Json) : Option CompletionUsage := do
  let [prompt, completion, total] ←
    members ["prompt_tokens", "completion_tokens", "total_tokens"] value | none
  return {
    promptTokens := ← prompt.required asU32
    completionTokens := ← completion.required asU32
    totalTokens := ← total.required asU32 }

def Completion.read (value : Json) : Option Completion := do
  let [model, choices, usage] ← members ["model", "choices", "usage"] value | none
  return {
    model := ← model.required asString
    choices := ← choices.required (asList CompletionChoice.read)
    usage := ← usage.orDefault (asOption CompletionUsage.read) none }

def CompletionChoice.write (choice : CompletionChoice) : Json :=
  .object [
    ("finish_reason", .string (choice.finishReason.getD "")),
    ("index", ofU32 choice.index),
    ("message", .object [
      ("content", .string (choice.message.content.getD "")),
      ("role", .string choice.message.role)])]

def CompletionUsage.write (usage : CompletionUsage) : Json :=
  .object [
    ("completion_tokens", ofU32 usage.completionTokens),
    ("prompt_tokens", ofU32 usage.promptTokens),
    ("total_tokens", ofU32 usage.totalTokens)]

def Completion.write (completion : Completion) : Json :=
  .object ([("choices", .array (completion.choices.map CompletionChoice.write)),
    ("model", .string completion.model)] ++
    completion.usage.toList.map fun usage => ("usage", usage.write))

def openaiToChat (codec : JsonCodec) (status : UInt16) (body : String) : Except String Json :=
  if !succeeded status then .ok (providerErrorDocument codec status body)
  else match (codec.parse body).bind Completion.read with
    | some completion => .ok completion.write
    | none => .error ("upstream chat response is not a chat completion: " ++ codec.complaint body)

/-- An entry of a model listing, by its id; guest and host read it the same way. -/
def readModelId (value : Json) : Option String := do
  let [id] ← members ["id"] value | none
  id.required asString

/-- A model listing, by the ids of its entries. -/
def readModels (value : Json) : Option (List String) := do
  let [data] ← members ["data"] value | none
  data.required (asList readModelId)

def writeModels (ids : List String) : Json :=
  .object [("data", .array (ids.map fun id => .object [("id", .string id)]))]

def openaiToModels (codec : JsonCodec) (status : UInt16) (body : String) : Except String Json :=
  if !succeeded status then .ok (providerErrorDocument codec status body)
  else match (codec.parse body).bind readModels with
    | some ids => .ok (writeModels ids)
    | none => .error ("upstream models response is off-contract: " ++ codec.complaint body)

/-! ### The host -/

inductive Role where
  | system
  | user
  | assistant
  | tool
  deriving DecidableEq

/-- The lowercase name of a role. -/
def Role.name : Role → String
  | .system => "system"
  | .user => "user"
  | .assistant => "assistant"
  | .tool => "tool"

def Role.named (text : String) : Option Role :=
  if text = "system" then some .system
  else if text = "user" then some .user
  else if text = "assistant" then some .assistant
  else if text = "tool" then some .tool
  else none

/-- A unit variant is its name, or an object that maps its name to null. -/
def Role.read : Json → Option Role
  | .string text => Role.named text
  | .object [(text, .null)] => Role.named text
  | _ => none

structure ChatMessage where
  role : Role
  content : String

structure Choice where
  index : UInt32
  message : ChatMessage
  finishReason : String

structure Usage where
  promptTokens : UInt32
  completionTokens : UInt32
  totalTokens : UInt32

structure ChatResponse where
  model : String
  choices : List Choice
  usage : Option Usage

def ChatMessage.read (value : Json) : Option ChatMessage := do
  let [role, content] ← members ["role", "content"] value | none
  return { role := ← role.required Role.read, content := ← content.required asString }

def Choice.read (value : Json) : Option Choice := do
  let [index, message, finishReason] ← members ["index", "message", "finish_reason"] value | none
  return {
    index := ← index.required asU32
    message := ← message.required ChatMessage.read
    finishReason := ← finishReason.required asString }

def Usage.read (value : Json) : Option Usage := do
  let [prompt, completion, total] ←
    members ["prompt_tokens", "completion_tokens", "total_tokens"] value | none
  return {
    promptTokens := ← prompt.required asU32
    completionTokens := ← completion.required asU32
    totalTokens := ← total.required asU32 }

def ChatResponse.read (value : Json) : Option ChatResponse := do
  let [model, choices, usage] ← members ["model", "choices", "usage"] value | none
  return {
    model := ← model.required asString
    choices := ← choices.required (asList Choice.read)
    usage := ← usage.orDefault (asOption Usage.read) none }

structure WireError where
  message : String
  type : String
  code : Option String
  status : Option UInt16

def WireError.read (value : Json) : Option WireError := do
  let [message, type, code, status] ← members ["message", "type", "code", "status"] value | none
  return {
    message := ← message.required asString
    type := ← type.required asString
    code := ← code.orDefault (asOption asString) none
    status := ← status.orDefault (asOption asU16) none }

/-- The errors a payload can give. -/
inductive LlmError where
  | provider (status : UInt16) (message : String)
  | invalidResponse (message : String)

def LlmError.fromWireError (codec : JsonCodec) (payload : String) : Option LlmError := do
  let document ← codec.parse payload
  let [member] ← members ["error"] document | none
  let error ← member.required WireError.read
  return .provider (error.status.getD 0) error.message

def fromWire {T : Type} (codec : JsonCodec) (read : Json → Option T) (payload : String) : Except LlmError T :=
  match (codec.parse payload).bind read with
  | some value => .ok value
  | none => .error (.invalidResponse ("failed to decode the wire payload: " ++ codec.complaint payload))

/-- `invoke_wire` and the decoding after it, on the payload a guest answers. -/
def decoded {T : Type} (codec : JsonCodec) (read : Json → Option T) (payload : String) : Except LlmError T :=
  match LlmError.fromWireError codec payload with
  | some error => .error error
  | none => fromWire codec read payload

def chat (codec : JsonCodec) (payload : String) : Except LlmError ChatResponse :=
  decoded codec ChatResponse.read payload

def models (codec : JsonCodec) (payload : String) : Except LlmError (List String) :=
  decoded codec readModels payload

/-! ### Agreement -/

structure Choice.Carries (choice : Choice) (upstream : CompletionChoice) : Prop where
  index : choice.index = upstream.index
  role : choice.message.role.name = upstream.message.role
  content : choice.message.content = upstream.message.content.getD ""
  finishReason : choice.finishReason = upstream.finishReason.getD ""

structure Usage.Carries (usage : Usage) (upstream : CompletionUsage) : Prop where
  promptTokens : usage.promptTokens = upstream.promptTokens
  completionTokens : usage.completionTokens = upstream.completionTokens
  totalTokens : usage.totalTokens = upstream.totalTokens

/-- The response has all the upstream completion has, in its order. -/
structure ChatResponse.Carries (response : ChatResponse) (completion : Completion) : Prop where
  model : response.model = completion.model
  choices : List.Forall₂ Choice.Carries response.choices completion.choices
  usage : Option.Rel Usage.Carries response.usage completion.usage

/-- The host answers a provider error with the upstream status exactly outside the success range, and in it a
value that carries the upstream answer. -/
def Agrees {T : Type} (status : UInt16) (carries : T → Prop) (answer : Except LlmError T) : Prop :=
  ((∃ message, answer = .error (.provider status message)) ↔ succeeded status = false) ∧
  (succeeded status = true → ∃ value, answer = .ok value ∧ carries value)

def ChatAgrees (codec : JsonCodec) (status : UInt16) (body : String) :
    Except LlmError ChatResponse → Prop :=
  Agrees status fun response =>
    ∃ completion, (codec.parse body).bind Completion.read = some completion ∧ response.Carries completion

def ModelsAgree (codec : JsonCodec) (status : UInt16) (body : String) :
    Except LlmError (List String) → Prop :=
  Agrees status fun ids => (codec.parse body).bind readModels = some ids

/-- Every choice of a completion in the body has a role the host knows. -/
def RolesKnown (codec : JsonCodec) (body : String) : Prop :=
  ∀ completion, (codec.parse body).bind Completion.read = some completion →
    ∀ choice ∈ completion.choices, ∃ role : Role, choice.message.role = role.name

theorem Role.named_eq_some {text : String} {role : Role} :
    Role.named text = some role ↔ text = role.name := by
  constructor
  · intro known
    simp only [Role.named] at known
    split_ifs at known with system user assistant tool <;> cases known <;> assumption
  · rintro rfl
    cases role <;> rfl

/-! ### Error documents -/

/-- The host reads the upstream status and message back from an error document. -/
theorem fromWireError_errorDocument {codec : JsonCodec} {kind message : String} {code : Option String}
    {status : UInt16} (reads : codec.Reads (errorDocument kind message code (some status))) :
    LlmError.fromWireError codec (codec.print (errorDocument kind message code (some status)))
      = some (.provider status message) := by
  rw [LlmError.fromWireError, reads]
  cases code with
  | none =>
    simp [errorDocument, members, memberNamed, Member.required, WireError.read, Member.orDefault,
      asOption_ofU16]
  | some code =>
    simp [errorDocument, members, memberNamed, Member.required, WireError.read, Member.orDefault,
      asOption_ofU16, asOption_string]

theorem fromWireError_providerErrorDocument {codec : JsonCodec} {status : UInt16} {body : String}
    (reads : codec.Reads (providerErrorDocument codec status body)) :
    ∃ message, LlmError.fromWireError codec (codec.print (providerErrorDocument codec status body))
      = some (.provider status message) := by
  unfold providerErrorDocument at reads ⊢
  split at reads
  next => exact ⟨_, fromWireError_errorDocument reads⟩
  next => exact ⟨_, fromWireError_errorDocument reads⟩

/-- A provider error document of a failed status agrees with the upstream, whatever the host expected. -/
theorem agrees_of_failed {T : Type} {codec : JsonCodec} {status : UInt16} {body : String}
    (read : Json → Option T) (carries : T → Prop) (failed : succeeded status = false)
    (reads : codec.Reads (providerErrorDocument codec status body)) :
    Agrees status carries (decoded codec read (codec.print (providerErrorDocument codec status body))) := by
  obtain ⟨message, error⟩ := fromWireError_providerErrorDocument reads
  rw [decoded, error]
  exact ⟨⟨fun _ => failed, fun _ => ⟨message, rfl⟩⟩, fun success => by simp [failed] at success⟩

/-! ### Success documents -/

/-- A document without an error member is decoded as a response. -/
theorem decoded_of_no_error {T : Type} {codec : JsonCodec} {read : Json → Option T} {document : Json}
    (reads : codec.Reads document) (plain : members ["error"] document = some [.absent]) :
    decoded codec read (codec.print document) = match read document with
      | some value => .ok value
      | none => .error (.invalidResponse
          ("failed to decode the wire payload: " ++ codec.complaint (codec.print document))) := by
  have noError : LlmError.fromWireError codec (codec.print document) = none := by
    rw [LlmError.fromWireError, reads]
    simp [plain, Member.required]
  rw [decoded, noError]
  simp only [fromWire, show codec.parse (codec.print document) = some document from reads, Option.bind_some]

/-- On a success the host agrees exactly when it reads the document as a value that carries the upstream. -/
theorem agrees_of_succeeded {T : Type} {codec : JsonCodec} {status : UInt16} {read : Json → Option T}
    {carries : T → Prop} {document : Json} (success : succeeded status = true) (reads : codec.Reads document)
    (plain : members ["error"] document = some [.absent]) :
    Agrees status carries (decoded codec read (codec.print document)) ↔
      ∃ value, read document = some value ∧ carries value := by
  rw [decoded_of_no_error reads plain]
  cases answer : read document with
  | none => simp [Agrees, success]
  | some value => simp [Agrees, success]

theorem Choice.read_write (upstream : CompletionChoice) :
    Choice.read upstream.write = (Role.named upstream.message.role).map fun role => {
      index := upstream.index
      message := { role := role, content := upstream.message.content.getD "" }
      finishReason := upstream.finishReason.getD "" } := by
  cases known : Role.named upstream.message.role <;>
    simp [Choice.read, CompletionChoice.write, members, memberNamed, Member.required, ChatMessage.read,
      Role.read, known]

theorem Usage.read_write (upstream : CompletionUsage) :
    asOption Usage.read upstream.write = some (some {
      promptTokens := upstream.promptTokens
      completionTokens := upstream.completionTokens
      totalTokens := upstream.totalTokens }) := by
  simp [asOption, Usage.read, CompletionUsage.write, members, memberNamed, Member.required]

theorem Choice.carries_of_read {upstream : CompletionChoice} {choice : Choice}
    (read : Choice.read upstream.write = some choice) : choice.Carries upstream := by
  rw [Choice.read_write] at read
  obtain ⟨role, known, rfl⟩ := Option.map_eq_some_iff.mp read
  exact ⟨rfl, (Role.named_eq_some.mp known).symm, rfl, rfl⟩

theorem Choice.carried {upstream : List CompletionChoice} {choices : List Choice}
    (read : asList Choice.read (.array (upstream.map CompletionChoice.write)) = some choices) :
    List.Forall₂ Choice.Carries choices upstream := by
  rw [asList_map] at read
  exact (forall₂_of_mapM read).flip.imp fun _ _ each => Choice.carries_of_read each

theorem ChatResponse.read_write (completion : Completion) :
    ChatResponse.read completion.write =
      (asList Choice.read (.array (completion.choices.map CompletionChoice.write))).map fun choices => {
        model := completion.model
        choices := choices
        usage := completion.usage.map fun usage => {
          promptTokens := usage.promptTokens
          completionTokens := usage.completionTokens
          totalTokens := usage.totalTokens } } := by
  cases choices : asList Choice.read (.array (completion.choices.map CompletionChoice.write)) <;>
    cases usage : completion.usage <;>
      simp [ChatResponse.read, Completion.write, members, memberNamed, Member.required, Member.orDefault,
        Usage.read_write, choices, usage]

theorem ChatResponse.carries_of_read {completion : Completion} {response : ChatResponse}
    (read : ChatResponse.read completion.write = some response) : response.Carries completion := by
  rw [ChatResponse.read_write] at read
  obtain ⟨choices, each, rfl⟩ := Option.map_eq_some_iff.mp read
  refine ⟨rfl, Choice.carried each, ?_⟩
  cases completion.usage with
  | none => exact .none
  | some usage => exact .some ⟨rfl, rfl, rfl⟩

/-- The host reads a completion exactly when it knows every role. -/
theorem ChatResponse.exists_read {completion : Completion} :
    (∃ response, ChatResponse.read completion.write = some response) ↔
      ∀ choice ∈ completion.choices, ∃ role : Role, choice.message.role = role.name := by
  have readable (upstream : CompletionChoice) :
      (∃ choice, Choice.read upstream.write = some choice) ↔
        ∃ role : Role, upstream.message.role = role.name := by
    simp only [Choice.read_write, Option.map_eq_some_iff, Role.named_eq_some]
    constructor
    · rintro ⟨_, role, known, _⟩
      exact ⟨role, known⟩
    · rintro ⟨role, known⟩
      exact ⟨_, role, known, rfl⟩
  simp only [ChatResponse.read_write, asList_map, Option.map_eq_some_iff, ← readable, ← exists_mapM]
  constructor
  · rintro ⟨_, choices, each, _⟩
    exact ⟨choices, each⟩
  · rintro ⟨choices, each⟩
    exact ⟨_, choices, each, rfl⟩

theorem Completion.no_error (completion : Completion) :
    members ["error"] completion.write = some [.absent] := by
  cases usage : completion.usage <;> simp [Completion.write, members, memberNamed, usage]

theorem readModels_write (ids : List String) : readModels (writeModels ids) = some ids := by
  have each (id : String) : readModelId (.object [("id", .string id)]) = pure id := by
    simp [readModelId, members, memberNamed, Member.required]
  have all : (ids.mapM fun id => readModelId (.object [("id", .string id)])) = some ids := by
    rw [funext each]
    simpa using @List.mapM_pure Option String String _ _ ids id
  simp [readModels, writeModels, members, memberNamed, Member.required, asList_map, all]

/-- The guest and the host agree on every failed answer and on every success whose roles the host knows; on a
model listing they always agree. -/
theorem guest_and_host_agree_iff (codec : JsonCodec) (status : UInt16) (body : String) :
    (∀ document, openaiToChat codec status body = .ok document → codec.Reads document →
      (ChatAgrees codec status body (chat codec (codec.print document)) ↔
        (succeeded status = true → RolesKnown codec body))) ∧
    (∀ document, openaiToModels codec status body = .ok document → codec.Reads document →
      ModelsAgree codec status body (models codec (codec.print document))) := by
  cases success : succeeded status with
  | false =>
    constructor
    · intro document translated reads
      simp only [openaiToChat, success, Bool.not_false, if_true, Except.ok.injEq] at translated
      subst translated
      exact iff_of_true (agrees_of_failed ChatResponse.read _ success reads) (by simp)
    · intro document translated reads
      simp only [openaiToModels, success, Bool.not_false, if_true, Except.ok.injEq] at translated
      subst translated
      exact agrees_of_failed readModels _ success reads
  | true =>
    constructor
    · intro document translated reads
      cases upstream : (codec.parse body).bind Completion.read with
      | none => simp [openaiToChat, success, upstream] at translated
      | some completion =>
        simp only [openaiToChat, success, upstream, Bool.not_true, Bool.false_eq_true, if_false,
          Except.ok.injEq] at translated
        subst translated
        rw [ChatAgrees, chat, agrees_of_succeeded success reads completion.no_error]
        simp only [RolesKnown, upstream, Option.some.injEq, forall_eq', forall_const, exists_eq_left',
          ← ChatResponse.exists_read]
        constructor
        · rintro ⟨response, read, _⟩
          exact ⟨response, read⟩
        · rintro ⟨response, read⟩
          exact ⟨response, read, ChatResponse.carries_of_read read⟩
    · intro document translated reads
      cases upstream : (codec.parse body).bind readModels with
      | none => simp [openaiToModels, success, upstream] at translated
      | some ids =>
        simp only [openaiToModels, success, upstream, Bool.not_true, Bool.false_eq_true, if_false,
          Except.ok.injEq] at translated
        subst translated
        rw [ModelsAgree, models, agrees_of_succeeded success reads (by rfl)]
        exact ⟨ids, readModels_write ids, upstream⟩

/-! ### A completion of one choice -/

def sampleBody (role : String) : String :=
  "\x7b\"model\":\"m\",\"choices\":[\x7b\"index\":0,\"message\":\x7b\"role\":\"" ++ role ++
    "\",\"content\":\"hi\"\x7d\x7d]\x7d"

def sampleUpstream (role : String) : Json :=
  .object [
    ("model", .string "m"),
    ("choices", .array [.object [
      ("index", .number (.unsigned 0)),
      ("message", .object [("role", .string role), ("content", .string "hi")])]])]

def sampleCompletion (role : String) : Completion where
  model := "m"
  choices := [{ index := 0, message := { role := role, content := some "hi" }, finishReason := none }]
  usage := none

def samplePayload (role : String) : String :=
  "\x7b\"choices\":[\x7b\"finish_reason\":\"\",\"index\":0,\"message\":\x7b\"content\":\"hi\"," ++
    "\"role\":\"" ++ role ++ "\"\x7d\x7d],\"model\":\"m\"\x7d"

/-- The two texts of the sample and the documents they are. -/
def sampleCodec (role : String) : JsonCodec where
  parse text :=
    if text = sampleBody role then some (sampleUpstream role)
    else if text = samplePayload role then some (sampleCompletion role).write
    else none
  print _ := samplePayload role
  complaint _ :=
    "unknown variant `" ++ role ++
      "`, expected one of `system`, `user`, `assistant`, `tool` at line 1 column 85"

/-- A completion of the assistant arrives on the host as it is. -/
theorem assistant_completion_agrees :
    ChatAgrees (sampleCodec "assistant") 200 (sampleBody "assistant")
      (chat (sampleCodec "assistant")
        ((sampleCodec "assistant").print (sampleCompletion "assistant").write)) := by
  refine ((guest_and_host_agree_iff (sampleCodec "assistant") 200 (sampleBody "assistant")).1 _ rfl rfl).mpr ?_
  rintro - completion read choice member
  cases read
  obtain rfl := List.mem_singleton.mp member
  exact ⟨.assistant, rfl⟩

/-- The guest accepts the legacy role of a function's answer, the host does not. -/
theorem function_role_not_agreed :
    openaiToChat (sampleCodec "function") 200 (sampleBody "function")
      = .ok (sampleCompletion "function").write ∧
    (sampleCodec "function").Reads (sampleCompletion "function").write ∧
    chat (sampleCodec "function") ((sampleCodec "function").print (sampleCompletion "function").write)
      = .error (.invalidResponse ("failed to decode the wire payload: unknown variant `function`, " ++
          "expected one of `system`, `user`, `assistant`, `tool` at line 1 column 85")) ∧
    ¬ ChatAgrees (sampleCodec "function") 200 (sampleBody "function")
      (chat (sampleCodec "function") ((sampleCodec "function").print (sampleCompletion "function").write)) := by
  refine ⟨rfl, rfl, rfl, ?_⟩
  rintro ⟨-, success⟩
  obtain ⟨response, answered, _⟩ := success rfl
  cases answered

end Lycoris.Extension
