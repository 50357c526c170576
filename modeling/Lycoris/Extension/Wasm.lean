import Lycoris.Lib.LinearMemory

/-!
The buffers that the WASM engine (`extension/src/wasm.rs`) and its guests (`extguest/src/shim.rs` and
`extguest/src/host.rs`) exchange through linear memory. Guest addresses have 32 bits and cross the
boundary as `i32`; the host's own addresses have 64.
-/

namespace Lycoris.Extension.Wasm
open Lib

abbrev Bytes := List UInt8

abbrev GuestMemory := LinearMemory (2 ^ 32)

/-! ### Integers -/

/-- `as usize` on the host, which extends the sign. -/
def asUsize (n : Int32) : Nat := n.toInt64.toUInt64.toNat

/-- `usize::try_from`. -/
def tryUsize (n : Int32) : Option Nat := if 0 ≤ n.toInt then some n.toInt.toNat else none

/-- `i32::try_from` of a length. -/
def tryI32 (n : Nat) : Option Int32 := if n < 2 ^ 31 then some (Int32.ofNat n) else none

/-! ### The guest's heap -/

/-- The memory of a guest with the blocks in use and the rest of what its allocator goes by. -/
structure Store (H : Type) where
  memory : GuestMemory
  blocks : List (UInt32 × Nat)
  heap : H

/-- An allocator that places a new buffer inside the memory and apart from the blocks in use, and
that leaves these as they are. It may grow the memory, and it may run out. -/
structure Allocator (H : Type) where
  place : Store H → Nat → Option (UInt32 × GuestMemory × H)
  inside : ∀ {store : Store H} {length : Nat} {position : UInt32} {memory : GuestMemory} {heap : H},
    place store length = some (position, memory, heap) → position.toNat + length ≤ memory.size
  apart : ∀ {store : Store H} {length : Nat} {position : UInt32} {memory : GuestMemory} {heap : H},
    place store length = some (position, memory, heap) → ∀ block ∈ store.blocks,
      block.1.toNat + block.2 ≤ position.toNat ∨ position.toNat + length ≤ block.1.toNat
  keeps : ∀ {store : Store H} {length : Nat} {position : UInt32} {memory : GuestMemory} {heap : H},
    place store length = some (position, memory, heap) → ∀ block ∈ store.blocks, ∀ bytes : Bytes,
      bytes.length = block.2 → store.memory.Holds block.1.toNat bytes → memory.Holds block.1.toNat bytes

variable {H W : Type} (A : Allocator H)

/-- A new buffer and what it holds. -/
def Allocator.fill (bytes : Bytes) (store : Store H) : Option (UInt32 × Store H) :=
  match A.place store bytes.length with
  | none => none
  | some (position, memory, heap) =>
    some (position, ⟨memory.put position.toNat bytes, (position, bytes.length) :: store.blocks, heap⟩)

def Store.release (store : Store H) (position : UInt32) (length : Nat) : Store H :=
  { store with blocks := store.blocks.erase (position, length) }

/-! ### The engine -/

/-- Errors of an invocation. A trap keeps the step in which it happened, without the engine's own
words. -/
inductive WasmError where
  | engine (message : String)
  | guestTrap (context : String)
  | invalidPayload (message : String)
  deriving DecidableEq

/-- What the imports reach outside: the HTTP client and the tracing. -/
structure Host (W : Type) where
  execute : W → Bytes → Bytes × W
  trace : W → Bytes → W

def readGuestBytes (memory : GuestMemory) (ptr len : Int32) : Option Bytes := do
  let start ← tryUsize ptr
  let len ← tryUsize len
  memory.slice start (start + len)

def outOfBoundsRequest : Bytes :=
  "\x7b\"error\":\"out-of-bounds request buffer\"\x7d".toUTF8.toList

def outOfBoundsMessage : Bytes := "<out-of-bounds log message>".toUTF8.toList

/-- The `log` import. -/
def logImport (host : Host W) (memory : GuestMemory) (ptr len : Int32) (w : W) : W :=
  host.trace w ((readGuestBytes memory ptr len).getD outOfBoundsMessage)

/-- The host's packing of a buffer. -/
def packed (ptr len : Int32) : Int64 :=
  ((ptr.toUInt32.toUInt64 <<< 32) ||| len.toUInt32.toUInt64).toInt64

/-- The `http` import, where `alloc` is the guest's export. Without a result it trapped. -/
def runHttpImport (alloc : Int32 → Store H → Option (Int32 × Store H)) (host : Host W) (ptr len : Int32)
    (store : Store H) (w : W) : Option (Int64 × Store H) × W :=
  let request := (readGuestBytes store.memory ptr len).getD outOfBoundsRequest
  let executed := host.execute w request
  match tryI32 executed.1.length with
  | none => (none, executed.2)
  | some responseLen =>
    match alloc responseLen store with
    | none => (none, executed.2)
    | some (responsePtr, allocated) =>
      match allocated.memory.write (asUsize responsePtr) executed.1 with
      | none => (none, executed.2)
      | some memory =>
        (some (packed responsePtr responseLen, { allocated with memory := memory }), executed.2)

/-- One of the two buffers of a request: allocated by the guest and written by the host. -/
def passBuffer (alloc : Int32 → Store H → Option (Int32 × Store H)) (what : String) (bytes : Bytes)
    (len : Int32) (store : Store H) : Except WasmError (Int32 × Store H) :=
  match alloc len store with
  | none => .error (.guestTrap ("allocating the " ++ what ++ " buffer"))
  | some (ptr, allocated) =>
    match allocated.memory.write (asUsize ptr) bytes with
    | none => .error (.guestTrap ("writing the " ++ what ++ " buffer"))
    | some memory => .ok (ptr, { allocated with memory := memory })

def readResponse (memory : GuestMemory) (answer : Int64) : Except WasmError Bytes :=
  let ptr := (answer.toUInt64 >>> 32).toNat
  let len := (answer.toUInt64 &&& 0xFFFFFFFF).toNat
  match memory.slice ptr (ptr + len) with
  | none => .error (.engine "guest returned an out-of-bounds response buffer pointer")
  | some response => .ok response

def checkJson (jsonError : Bytes → Option String) (response : Bytes) : Except WasmError Bytes :=
  match jsonError response with
  | some error => .error (.invalidPayload ("guest output is not valid JSON: " ++ error))
  | none => .ok response

/-- One invocation, with the guest's two exports. The parser's complaint is a parameter, and a guest
that runs out of fuel traps. -/
def invokeInner (jsonError : Bytes → Option String) (alloc : Int32 → Store H → Option (Int32 × Store H))
    (invoke : Int32 → Int32 → Int32 → Int32 → Store H → W → Option (Int64 × Store H) × W)
    (method payload : Bytes) (store : Store H) (w : W) : Except WasmError Bytes × W :=
  match tryI32 method.length with
  | none => (.error (.invalidPayload "method name exceeds the guest addressable size"), w)
  | some methodLen =>
    match tryI32 payload.length with
    | none => (.error (.invalidPayload "payload exceeds the guest addressable size"), w)
    | some payloadLen =>
      match passBuffer alloc "method" method methodLen store with
      | .error error => (.error error, w)
      | .ok (methodPtr, named) =>
        match passBuffer alloc "payload" payload payloadLen named with
        | .error error => (.error error, w)
        | .ok (payloadPtr, ready) =>
          match invoke methodPtr methodLen payloadPtr payloadLen ready w with
          | (none, after) => (.error (.guestTrap "running the guest"), after)
          | (some (answer, final), after) => (readResponse final.memory answer >>= checkJson jsonError, after)

/-! ### The shim -/

def allocRaw (len : Nat) (store : Store H) : Option (UInt32 × Store H) :=
  A.fill (List.replicate len 0) store

/-- The `lycoris_alloc` export. -/
def alloc (len : Int32) (store : Store H) : Option (Int32 × Store H) :=
  match allocRaw A ((tryUsize len).getD 0) store with
  | none => none
  | some (ptr, allocated) => some (ptr.toInt32, allocated)

def pack (ptr len : Int32) : Int64 :=
  (ptr.toUInt32.toUInt64.toInt64 <<< 32) ||| len.toUInt32.toUInt64.toInt64

def unpack (answer : Int64) : Int32 × Int32 :=
  ((answer.toUInt64 >>> 32).toUInt32.toInt32, (answer.toUInt64 &&& 0xFFFFFFFF).toUInt32.toInt32)

/-- A read beyond the memory traps. -/
def read (memory : GuestMemory) (ptr len : Int32) : Option Bytes :=
  let start := (tryUsize ptr).getD 0
  memory.slice start (start + (tryUsize len).getD 0)

/-- What a guest makes of a call: its response or its failure, or a call into the host and how it goes
on from there. -/
inductive Handler where
  | done (response : Except Bytes Bytes)
  | http (request : Bytes) (next : Except String Bytes → Handler)
  | log (message : Bytes) (next : Except String Unit → Handler)

/-- The guest's side of the `http` import. The buffer of the request is free again afterwards. -/
def httpImpl (host : Host W) (request : Bytes) (store : Store H) (w : W) :
    Option (Except String Bytes × Store H) × W :=
  match tryI32 request.length with
  | none => (some (.error "http request document exceeds the guest addressable size", store), w)
  | some len =>
    match A.fill request store with
    | none => (none, w)
    | some (ptr, held) =>
      match runHttpImport (alloc A) host ptr.toInt32 len held w with
      | (none, after) => (none, after)
      | (some (answer, returned), after) =>
        match read returned.memory (unpack answer).1 (unpack answer).2 with
        | none => (none, after)
        | some body => (some (.ok body, returned.release ptr request.length), after)

/-- The guest's side of the `log` import. -/
def logImpl (host : Host W) (message : Bytes) (store : Store H) (w : W) :
    Option (Except String Unit × Store H) × W :=
  match tryI32 message.length with
  | none => (some (.error "log message exceeds the guest addressable size", store), w)
  | some len =>
    match A.fill message store with
    | none => (none, w)
    | some (ptr, held) =>
      (some (.ok (), held.release ptr message.length), logImport host held.memory ptr.toInt32 len w)

/-- The handler's work and the packed response. A failure is logged and traps. -/
def serve (host : Host W) : Handler → Store H → W → Option (Int64 × Store H) × W
  | .done (.ok response), store, w =>
    let len := (tryI32 response.length).getD Int32.maxValue
    match A.fill response store with
    | none => (none, w)
    | some (ptr, held) => (some (pack ptr.toInt32 len, held), w)
  | .done (.error message), store, w => (none, (logImpl A host message store w).2)
  | .http request next, store, w =>
    match httpImpl A host request store w with
    | (none, after) => (none, after)
    | (some (answer, left), after) => serve host (next answer) left after
  | .log message next, store, w =>
    match logImpl A host message store w with
    | (none, after) => (none, after)
    | (some (answer, left), after) => serve host (next answer) left after

/-- The `lycoris_invoke` export. -/
def run (host : Host W) (dispatch : Bytes → Bytes → Handler)
    (methodPtr methodLen payloadPtr payloadLen : Int32) (store : Store H) (w : W) :
    Option (Int64 × Store H) × W :=
  match read store.memory methodPtr methodLen with
  | none => (none, w)
  | some method =>
    match read store.memory payloadPtr payloadLen with
    | none => (none, w)
    | some payload => serve A host (dispatch method payload) store w

end Lycoris.Extension.Wasm
