import Lycoris.Lib.Postcard
import Lycoris.Overlay.LinkRecord
import Lycoris.Overlay.IdentityFile
import Lycoris.Overlay.Queries
import Lycoris.Daemon.FullSync

/-!
Cluster-wide invocation of extensions (`daemon/src/extension/mod.rs`) over the overlay pool
(`daemon/src/overlay_transport.rs`). A call that no local instance serves goes to the members that
advertise the extension, one after the other, until one of them succeeds.
-/

namespace Lycoris.Daemon
open Lib Cluster Overlay

/-! ### Node ids as text -/

/-- `Display` of a node id. -/
def nodeIdText (node : NodeId) : String := IdentityFile.hexEncode node.asBytes

def hexDigit (c : Char) : Option Nat :=
  if '0' ≤ c ∧ c ≤ '9' then some (c.toNat - '0'.toNat)
  else if 'a' ≤ c ∧ c ≤ 'f' then some (c.toNat - 'a'.toNat + 10)
  else if 'A' ≤ c ∧ c ≤ 'F' then some (c.toNat - 'A'.toNat + 10)
  else none

/-- `hex::decode_to_slice`. -/
def hexDecode : List Char → Option (List UInt8)
  | [] => some []
  | [_] => none
  | high :: low :: rest => do
    let h ← hexDigit high
    let l ← hexDigit low
    let bytes ← hexDecode rest
    return UInt8.ofNat (h * 16 + l) :: bytes

/-- `FromStr` of a node id. -/
def parseNodeId (text : String) : Option NodeId :=
  if text.utf8ByteSize ≠ 64 then none
  else (hexDecode text.toList).map fun bytes => Identifier.ofNat (spelled bytes)

theorem hexDigit_digitChar : ∀ n < 16, hexDigit (Nat.digitChar n) = some n := by decide

theorem utf8Size_digitChar : ∀ n < 16, (Nat.digitChar n).utf8Size = 1 := by decide

theorem hexDecode_digits (bytes : List UInt8) :
    hexDecode (bytes.flatMap fun byte => [(byte.toNat / 16).digitChar, (byte.toNat % 16).digitChar]) =
      some bytes := by
  induction bytes with
  | nil => rfl
  | cons byte rest ih =>
    have small := byte.toNat_lt
    have whole : byte.toNat / 16 * 16 + byte.toNat % 16 = byte.toNat := by omega
    rw [List.flatMap_cons, List.cons_append, List.cons_append, List.nil_append, hexDecode,
      hexDigit_digitChar _ (by omega), hexDigit_digitChar _ (by omega), ih]
    show some (UInt8.ofNat (byte.toNat / 16 * 16 + byte.toNat % 16) :: rest) = _
    rw [whole, UInt8.ofNat_toNat]

theorem utf8Len_digits (bytes : List UInt8) :
    String.utf8Len (bytes.flatMap fun byte =>
      [(byte.toNat / 16).digitChar, (byte.toNat % 16).digitChar]) = 2 * bytes.length := by
  induction bytes with
  | nil => rfl
  | cons byte rest ih =>
    have small := byte.toNat_lt
    rw [List.flatMap_cons, List.cons_append, List.cons_append, List.nil_append, String.utf8Len_cons,
      String.utf8Len_cons, ih, utf8Size_digitChar _ (by omega), utf8Size_digitChar _ (by omega),
      List.length_cons]
    omega

/-- A node id is read back from its text. -/
theorem parseNodeId_nodeIdText (node : NodeId) : parseNodeId (nodeIdText node) = some node := by
  have size : (nodeIdText node).utf8ByteSize = 64 := by
    rw [nodeIdText, IdentityFile.hexEncode, String.utf8ByteSize_ofList, utf8Len_digits,
      Transparent.length_asBytes]
  have value : spelled node.asBytes = BitVec.toNat node :=
    (Transparent.foldl_bytes (BitVec.toNat node) 32 (BitVec.isLt node) (le_refl _)).trans (Nat.div_one _)
  rw [parseNodeId, if_neg (by simp [size]), nodeIdText, IdentityFile.hexEncode, String.toList_ofList,
    hexDecode_digits, Option.map_some, value]
  exact congrArg some ((BitVec.ofNat_toNat 256 _).trans (BitVec.setWidth_eq _))

theorem nodeIdText_injective : Function.Injective nodeIdText := by
  intro node node' same
  have read := parseNodeId_nodeIdText node
  rw [same, parseNodeId_nodeIdText] at read
  exact (Option.some.inj read).symm

/-! ### Errors -/

/-- What the messages quote of other crates: the debug rendering of a string, tonic's rendering of an
unavailable status, and the text of a failed id parse. -/
structure Rendering where
  quoted : String → String
  status : String → String
  parseError : String → String

/-- The errors of the overlay's clients. -/
inductive ClientError where
  | status (message : String)
  | rejected (operation reason : String)
  deriving DecidableEq

/-- The errors of an invocation. An engine's error shows through as it is. -/
inductive ExtensionManagerError where
  | notRunning (id : String)
  | notFound (id : String)
  | alreadyForwarded (id : String)
  | unavailable (id : String) (candidates : Nat) (message : String)
  | forwarded (error : ClientError)
  | extension (text : String)
  deriving DecidableEq

def ClientError.text (R : Rendering) : ClientError → String
  | .status message => "rpc status: " ++ R.status message
  | .rejected operation reason => operation ++ " rejected by peer: " ++ reason

def ExtensionManagerError.text (R : Rendering) : ExtensionManagerError → String
  | .notRunning id => "extension " ++ R.quoted id ++ " is not running on this node"
  | .notFound id => "no node currently serves extension " ++ R.quoted id
  | .alreadyForwarded id => "extension " ++ R.quoted id ++
      " is not running on this node and the request was already forwarded (hop limit 1)"
  | .unavailable id candidates message => "extension " ++ R.quoted id ++ " is unavailable: all " ++
      toString candidates ++ " candidate(s) failed (last error: " ++ message ++ ")"
  | .forwarded error => "failed to forward extension call: " ++ error.text R
  | .extension text => text

/-! ### The manager -/

structure InvokeOutcome where
  payload : Overlay.Bytes
  executedBy : String
  deriving DecidableEq

structure ExtensionInvokeRequest where
  extensionId : String
  method : String
  payload : Overlay.Bytes
  originNodeId : String
  deriving DecidableEq

/-- What comes back for a forwarded request: nothing usable, or the peer's answer. -/
inductive ForwardReply where
  | lost (message : String)
  | success (response : InvokeOutcome)
  | error (reason : String)
  | empty
  deriving DecidableEq

structure LinkSnapshot where
  connectedNodes : List NodeId
  healthyNodes : List NodeId

/-- The overlay pool: the registry of the node's enrollment, which a daemon always has, and the links
it sees. -/
structure OverlayPool where
  enrollment : Option AuthorizationRegistry
  snapshot : LinkSnapshot

/-- A manager with its view of the cluster. The membership knows the node by the text of its id. -/
structure ExtensionManager where
  localNode : NodeId
  membership : Membership
  pool : Option OverlayPool

/-- The local instance during a call: none, one that a reconcile unloads after the check, or one that
answers. -/
inductive LocalInstance where
  | absent
  | vanished
  | answers (result : Except String Overlay.Bytes)

namespace OverlayPool

def rank (pool : OverlayPool) (node : NodeId) : Nat :=
  if node ∈ pool.snapshot.healthyNodes then 0
  else if node ∈ pool.snapshot.connectedNodes then 1
  else 2

def isActive (registry : AuthorizationRegistry) (node : NodeId) : Bool :=
  match registry.status node with
  | .active _ => true
  | _ => false

/-- The order of the key `(rank, node_id)`. -/
def before (pool : OverlayPool) (a b : NodeId) : Bool :=
  pool.rank a < pool.rank b || (pool.rank a = pool.rank b && (compare a b).isLE)

/-- Sorting first and dropping neighbours that are equal drops all repeats. -/
def authorizedNodes (pool : OverlayPool) (localNode : NodeId) : List NodeId :=
  match pool.enrollment with
  | none => pool.snapshot.connectedNodes.filter fun node => node ≠ localNode
  | some registry =>
    let peers := (registry.records.vals.map fun record => record.nodeId).filter fun node =>
      node ≠ localNode && isActive registry node
    (peers.mergeSort fun a b => (compare a b).isLE).dedup.mergeSort pool.before

def authorizedPeers (pool : OverlayPool) (localNode : NodeId) : List String :=
  (pool.authorizedNodes localNode).map nodeIdText

def orderCandidates (pool : OverlayPool) (localNode : NodeId) (candidates : List String) : List String :=
  (pool.authorizedPeers localNode).filter fun peer => peer ∈ candidates

end OverlayPool

namespace ExtensionManager

variable (R : Rendering) (send : NodeId → ExtensionInvokeRequest → ForwardReply)

/-- The instance answers, or there is none by now. -/
def invokeLocal (id : String) : LocalInstance → Except ExtensionManagerError Overlay.Bytes
  | .absent => .error (.notRunning id)
  | .vanished => .error (.notRunning id)
  | .answers (.ok payload) => .ok payload
  | .answers (.error text) => .error (.extension text)

def listNodes (manager : ExtensionManager) (order : HashOrder MemberRegister) : List MemberRegister :=
  (manager.membership.active order).filter fun register => matchesSelector register.labels ∅

/-- The ordered forwarding candidates. -/
def routeCandidates (manager : ExtensionManager) (order : HashOrder MemberRegister) (id : String) :
    List String :=
  let capability := extensionAnnotationPrefix ++ id
  let candidates := ((manager.listNodes order).filter fun register =>
    register.nodeId ≠ nodeIdText manager.localNode && register.annotations.contains capability).map
      fun register => register.nodeId
  match manager.pool with
  | some pool => pool.orderCandidates manager.localNode candidates
  | none => candidates

/-- The client's reading of a reply. -/
def readReply : ForwardReply → Except ClientError InvokeOutcome
  | .lost message => .error (.status message)
  | .success response => .ok response
  | .error reason => .error (.rejected "extension invoke" reason)
  | .empty => .error (.status "empty extension response")

/-- One attempt, with the requests it sends. -/
def forward (peer : String) (request : ExtensionInvokeRequest) :
    Except ExtensionManagerError InvokeOutcome × List (NodeId × ExtensionInvokeRequest) :=
  match parseNodeId peer with
  | none => (.error (.forwarded (.status ("invalid overlay node id: " ++ R.parseError peer))), [])
  | some node =>
    match readReply (send node request) with
    | .ok outcome => (.ok outcome, [(node, request)])
    | .error error => (.error (.forwarded error), [(node, request)])

/-- The loop over the candidates that are left. -/
def tryCandidates (total : Nat) (request : ExtensionInvokeRequest) :
    List String → Option ExtensionManagerError →
      Except ExtensionManagerError InvokeOutcome × List (NodeId × ExtensionInvokeRequest)
  | [], lastError =>
    (.error (.unavailable request.extensionId total ((lastError.map fun error => error.text R).getD "")), [])
  | peer :: rest, _ =>
    match forward R send peer request with
    | (.ok outcome, sent) => (.ok outcome, sent)
    | (.error error, sent) =>
      let later := tryCandidates total request rest (some error)
      (later.1, sent ++ later.2)

/-- The part of a call that no local instance serves. -/
def route (manager : ExtensionManager) (order : HashOrder MemberRegister) (id method : String)
    (payload : Overlay.Bytes) (origin : Option String) :
    Except ExtensionManagerError InvokeOutcome × List (NodeId × ExtensionInvokeRequest) :=
  if origin.isSome then (.error (.alreadyForwarded id), [])
  else
    let candidates := manager.routeCandidates order id
    if candidates.isEmpty then (.error (.notFound id), [])
    else if manager.pool.isNone then
      (.error (.unavailable id candidates.length "peer pool is not configured on this node"), [])
    else
      tryCandidates R send candidates.length ⟨id, method, payload, nodeIdText manager.localNode⟩
        candidates none

/-- The answer to a call, with the requests it sends to other nodes. -/
def invoke (manager : ExtensionManager) (order : HashOrder MemberRegister) (instance' : LocalInstance)
    (id method : String) (payload : Overlay.Bytes) (origin : Option String) :
    Except ExtensionManagerError InvokeOutcome × List (NodeId × ExtensionInvokeRequest) :=
  match instance' with
  | .absent => manager.route R send order id method payload origin
  | found =>
    match invokeLocal id found with
    | .ok payload => (.ok ⟨payload, nodeIdText manager.localNode⟩, [])
    | .error (.notRunning _) => manager.route R send order id method payload origin
    | .error error => (.error error, [])

end ExtensionManager

/-! ### Requests from peers -/

/-- A call as the manager takes it. -/
structure Call where
  id : String
  method : String
  payload : Overlay.Bytes
  origin : Option String
  deriving DecidableEq

namespace OverlayExtensionRequestHandler

/-- The checks on a request that came over the overlay. The parameter is the parser's complaint. -/
def accept (jsonError : Overlay.Bytes → Option String) (request : ExtensionInvokeRequest) :
    Except String Call :=
  if request.extensionId.isEmpty || request.method.isEmpty then
    .error "extension id and method must not be empty"
  else
    match jsonError request.payload with
    | some error => .error ("payload is not valid JSON: " ++ error)
    | none =>
      if request.originNodeId.isEmpty then
        .error "forwarded extension request must carry an origin node id"
      else .ok ⟨request.extensionId, request.method, request.payload, some request.originNodeId⟩

/-- The reply to a peer, with the requests that serving it sends. -/
def handle (R : Rendering) (send : NodeId → ExtensionInvokeRequest → ForwardReply)
    (jsonError : Overlay.Bytes → Option String) (manager : ExtensionManager)
    (order : HashOrder MemberRegister) (instance' : LocalInstance) (request : ExtensionInvokeRequest) :
    ForwardReply × List (NodeId × ExtensionInvokeRequest) :=
  match accept jsonError request with
  | .error reason => (.error reason, [])
  | .ok call =>
    match manager.invoke R send order instance' call.id call.method call.payload call.origin with
    | (.ok outcome, sent) => (.success outcome, sent)
    | (.error error, sent) => (.error (error.text R), sent)

end OverlayExtensionRequestHandler

end Lycoris.Daemon
