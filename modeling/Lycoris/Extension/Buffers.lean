import Lycoris.Extension.Wasm

/-!
Which buffers cross the boundary unharmed. The packed answers keep every 32-bit address, but the other
casts read an address from 2 GiB on as negative: the host extends its sign before it writes, and both
sides refuse it when they read.
-/

namespace Lycoris.Extension.Wasm
open Lib

/-! ### Casts -/

theorem toInt_toInt32 (position : UInt32) : position.toInt32.toInt =
    if position.toNat < 2 ^ 31 then (position.toNat : Int) else position.toNat - 4294967296 := by
  have bits : position.toInt32.toInt = position.toBitVec.toInt := rfl
  have same : position.toBitVec.toNat = position.toNat := rfl
  rw [bits, BitVec.toInt_eq_toNat_cond, same]
  split <;> split <;> first | rfl | omega

theorem asUsize_eq (n : Int32) : (asUsize n : Int) = n.toInt % 2 ^ 64 := by
  have wide : n.toInt = (n.toInt64.toUInt64.toNat : Int).bmod (2 ^ 64) :=
    (Int32.toInt_toInt64 n).symm.trans (BitVec.toInt_eq_toNat_bmod _)
  have range := n.toInt64.toUInt64.toNat_lt
  have cast : (2 ^ 64 : Int) = ((2 ^ 64 : Nat) : Int) := rfl
  rw [wide, cast, Int.bmod_emod, asUsize]
  omega

theorem asUsize_low {position : UInt32} (low : position.toNat < 2 ^ 31) :
    asUsize position.toInt32 = position.toNat := by
  have value := asUsize_eq position.toInt32
  rw [toInt_toInt32, if_pos low] at value
  omega

theorem asUsize_high {position : UInt32} (high : ¬ position.toNat < 2 ^ 31) :
    2 ^ 32 < asUsize position.toInt32 := by
  have range := position.toNat_lt
  have value := asUsize_eq position.toInt32
  rw [toInt_toInt32, if_neg high] at value
  omega

theorem tryUsize_toInt32 (position : UInt32) : tryUsize position.toInt32 =
    if position.toNat < 2 ^ 31 then some position.toNat else none := by
  have range := position.toNat_lt
  rw [tryUsize, toInt_toInt32]
  by_cases low : position.toNat < 2 ^ 31
  · rw [if_pos low, if_pos low]
    exact if_pos (Int.natCast_nonneg _)
  · rw [if_neg low, if_neg low]
    exact if_neg (by omega)

theorem tryUsize_low {position : UInt32} (low : position.toNat < 2 ^ 31) :
    tryUsize position.toInt32 = some position.toNat := by
  rw [tryUsize_toInt32, if_pos low]

theorem tryUsize_length {n : Nat} (fits : n < 2 ^ 31) : tryUsize (Int32.ofNat n) = some n := by
  have value : (UInt32.ofNat n).toNat = n := UInt32.toNat_ofNat_of_lt (fits.trans (by decide))
  have cast : Int32.ofNat n = (UInt32.ofNat n).toInt32 := rfl
  rw [cast, tryUsize_low (value.symm ▸ fits), value]

/-! ### Packed answers -/

theorem pack_eq_packed (ptr len : Int32) : pack ptr len = packed ptr len := rfl

theorem toNat_packed (ptr len : Int32) :
    (packed ptr len).toUInt64.toNat = ptr.toUInt32.toNat * 2 ^ 32 + len.toUInt32.toNat := by
  have small := ptr.toUInt32.toNat_lt
  have shifted : (ptr.toUInt32.toUInt64 <<< 32).toNat = ptr.toUInt32.toNat <<< 32 := by
    rw [UInt64.toNat_shiftLeft, UInt32.toNat_toUInt64]
    exact Nat.mod_eq_of_lt (by simp [Nat.shiftLeft_eq]; omega)
  rw [packed, UInt64.toUInt64_toInt64, UInt64.toNat_or, shifted, UInt32.toNat_toUInt64,
    ← Nat.shiftLeft_add_eq_or_of_lt len.toUInt32.toNat_lt, Nat.shiftLeft_eq]

theorem packed_ptr (ptr len : Int32) :
    ((packed ptr len).toUInt64 >>> 32).toNat = ptr.toUInt32.toNat := by
  have small := len.toUInt32.toNat_lt
  rw [UInt64.toNat_shiftRight, toNat_packed]
  have shift : UInt64.toNat 32 % 64 = 32 := rfl
  rw [shift, Nat.shiftRight_eq_div_pow]
  omega

theorem packed_len (ptr len : Int32) :
    ((packed ptr len).toUInt64 &&& 0xFFFFFFFF).toNat = len.toUInt32.toNat := by
  have small := len.toUInt32.toNat_lt
  have mask := Nat.and_two_pow_sub_one_eq_mod (ptr.toUInt32.toNat * 2 ^ 32 + len.toUInt32.toNat) 32
  have ones : UInt64.toNat 0xFFFFFFFF = 2 ^ 32 - 1 := rfl
  rw [UInt64.toNat_and, toNat_packed, ones, mask]
  omega

/-- The guest takes a packed answer apart as it was put together. -/
theorem unpack_packed (ptr len : Int32) : unpack (packed ptr len) = (ptr, len) := by
  have high : ((packed ptr len).toUInt64 >>> 32).toUInt32 = ptr.toUInt32 := by
    rw [← UInt32.toNat_inj, UInt64.toNat_toUInt32, packed_ptr]
    exact Nat.mod_eq_of_lt ptr.toUInt32.toNat_lt
  have rest : ((packed ptr len).toUInt64 &&& 0xFFFFFFFF).toUInt32 = len.toUInt32 := by
    rw [← UInt32.toNat_inj, UInt64.toNat_toUInt32, packed_len]
    exact Nat.mod_eq_of_lt len.toUInt32.toNat_lt
  rw [unpack, high, rest]
  rfl

/-! ### One buffer -/

variable {H W : Type} {A : Allocator H} {store : Store H} {bytes : Bytes} {position : UInt32}
  {memory : GuestMemory} {heap : H}

/-- The guest reads a low buffer where it is. -/
theorem read_holds (fits : bytes.length < 2 ^ 31) (low : position.toNat < 2 ^ 31)
    (held : memory.Holds position.toNat bytes) :
    read memory position.toInt32 (Int32.ofNat bytes.length) = some bytes := by
  rw [read, tryUsize_low low, tryUsize_length fits]
  exact held

theorem readGuestBytes_holds (fits : bytes.length < 2 ^ 31) (low : position.toNat < 2 ^ 31)
    (held : memory.Holds position.toNat bytes) :
    readGuestBytes memory position.toInt32 (Int32.ofNat bytes.length) = some bytes := by
  rw [readGuestBytes, tryUsize_low low, tryUsize_length fits]
  exact held

/-- The host follows a packed answer to every address. -/
theorem readResponse_holds (fits : bytes.length < 2 ^ 31) (held : memory.Holds position.toNat bytes) :
    readResponse memory (pack position.toInt32 (Int32.ofNat bytes.length)) = .ok bytes := by
  have length : (Int32.ofNat bytes.length).toUInt32.toNat = bytes.length :=
    UInt32.toNat_ofNat_of_lt (fits.trans (by decide))
  simp only [readResponse, pack_eq_packed, packed_ptr, packed_len, length, UInt32.toUInt32_toInt32]
  rw [held]

theorem alloc_placed {n : Nat} (fits : n < 2 ^ 31)
    (placed : A.place store n = some (position, memory, heap)) :
    alloc A (Int32.ofNat n) store = some (position.toInt32,
      ⟨memory.put position.toNat (List.replicate n 0), (position, n) :: store.blocks, heap⟩) := by
  simp only [alloc, allocRaw, Allocator.fill, tryUsize_length fits, Option.getD_some, List.length_replicate,
    placed]

/-- The host's write to a buffer the guest has just allocated. -/
def written (memory : GuestMemory) (position : UInt32) (bytes : Bytes) : GuestMemory :=
  (memory.put position.toNat (List.replicate bytes.length 0)).put position.toNat bytes

theorem write_low (inside : position.toNat + bytes.length ≤ memory.size) (low : position.toNat < 2 ^ 31) :
    (memory.put position.toNat (List.replicate bytes.length 0)).write (asUsize position.toInt32) bytes =
      some (written memory position bytes) := by
  rw [asUsize_low low]
  exact LinearMemory.write_eq_put inside

theorem holds_written (inside : position.toNat + bytes.length ≤ memory.size) :
    (written memory position bytes).Holds position.toNat bytes := LinearMemory.holds_put inside

theorem passBuffer_low (what : String) (fits : bytes.length < 2 ^ 31) (low : position.toNat < 2 ^ 31)
    (placed : A.place store bytes.length = some (position, memory, heap)) :
    passBuffer (alloc A) what bytes (Int32.ofNat bytes.length) store = .ok (position.toInt32,
      ⟨written memory position bytes, (position, bytes.length) :: store.blocks, heap⟩) := by
  simp only [passBuffer, alloc_placed fits placed, write_low (A.inside placed) low]

/-- Beyond 2 GiB the write fails. -/
theorem passBuffer_high (what : String) (fits : bytes.length < 2 ^ 31) (high : ¬ position.toNat < 2 ^ 31)
    (placed : A.place store bytes.length = some (position, memory, heap)) :
    passBuffer (alloc A) what bytes (Int32.ofNat bytes.length) store =
      .error (.guestTrap ("writing the " ++ what ++ " buffer")) := by
  simp only [passBuffer, alloc_placed fits placed, LinearMemory.write_beyond (asUsize_high high)]

theorem tryI32_length {n : Nat} (fits : n < 2 ^ 31) : tryI32 n = some (Int32.ofNat n) := if_pos fits

theorem runHttpImport_low {host : Host W} {ptr len : Int32} {w after : W} (fits : bytes.length < 2 ^ 31)
    (low : position.toNat < 2 ^ 31) (placed : A.place store bytes.length = some (position, memory, heap))
    (executed : host.execute w ((readGuestBytes store.memory ptr len).getD outOfBoundsRequest) =
      (bytes, after)) :
    runHttpImport (alloc A) host ptr len store w =
      (some (packed position.toInt32 (Int32.ofNat bytes.length),
        ⟨written memory position bytes, (position, bytes.length) :: store.blocks, heap⟩), after) := by
  simp only [runHttpImport, executed, tryI32_length fits, alloc_placed fits placed,
    write_low (A.inside placed) low]

/-- Every transfer of the bytes through a buffer at the position yields exactly these bytes: the two
buffers of a request, a buffer that an import reads, the guest's packed response and the host's. -/
structure Lossless (A : Allocator H) (store : Store H) (bytes : Bytes) (position : UInt32) : Prop where
  passed : ∀ what, ∃ after, passBuffer (alloc A) what bytes (Int32.ofNat bytes.length) store =
      .ok (position.toInt32, after) ∧
    read after.memory position.toInt32 (Int32.ofNat bytes.length) = some bytes
  imported : ∀ memory : GuestMemory, memory.Holds position.toNat bytes →
    readGuestBytes memory position.toInt32 (Int32.ofNat bytes.length) = some bytes
  responded : ∀ memory : GuestMemory, memory.Holds position.toNat bytes →
    readResponse memory (pack position.toInt32 (Int32.ofNat bytes.length)) = .ok bytes
  returned : ∀ {W : Type} (host : Host W) (ptr len : Int32) (w after : W),
    host.execute w ((readGuestBytes store.memory ptr len).getD outOfBoundsRequest) = (bytes, after) →
    ∃ answer final, runHttpImport (alloc A) host ptr len store w = (some (answer, final), after) ∧
      read final.memory (unpack answer).1 (unpack answer).2 = some bytes

theorem lossless_iff (fits : bytes.length < 2 ^ 31)
    (placed : A.place store bytes.length = some (position, memory, heap)) :
    Lossless A store bytes position ↔ position.toNat < 2 ^ 31 := by
  constructor
  · intro lossless
    by_contra high
    obtain ⟨after, passed, _⟩ := lossless.passed "method"
    rw [passBuffer_high "method" fits high placed] at passed
    cases passed
  · intro low
    have held : (written memory position bytes).Holds position.toNat bytes := holds_written (A.inside placed)
    refine ⟨?_, ?_, ?_, ?_⟩
    · exact fun what => ⟨_, passBuffer_low what fits low placed, read_holds fits low held⟩
    · exact fun _ => readGuestBytes_holds fits low
    · exact fun _ => readResponse_holds fits
    · intro W host ptr len w after executed
      refine ⟨_, _, runHttpImport_low fits low placed executed, ?_⟩
      rw [unpack_packed]
      exact read_holds fits low held

/-! ### Whole invocations -/

/-- A call with nothing between the handler and the host. Lengths beyond an `i32` still show. -/
def Handler.exchange (host : Host W) : Handler → W → Option Bytes × W
  | .done (.ok response), w => (some (response.take (2 ^ 31 - 1)), w)
  | .done (.error message), w => (none, if message.length < 2 ^ 31 then host.trace w message else w)
  | .http request next, w =>
    if request.length < 2 ^ 31 then
      let executed := host.execute w request
      if executed.1.length < 2 ^ 31 then (next (.ok executed.1)).exchange host executed.2
      else (none, executed.2)
    else (next (.error "http request document exceeds the guest addressable size")).exchange host w
  | .log message next, w =>
    if message.length < 2 ^ 31 then (next (.ok ())).exchange host (host.trace w message)
    else (next (.error "log message exceeds the guest addressable size")).exchange host w

/-- All buffers lie below 2 GiB, as they do where the memory is capped there. -/
def Allocator.Low (A : Allocator H) : Prop :=
  ∀ {store : Store H} {length : Nat} {position : UInt32} {memory : GuestMemory} {heap : H},
    A.place store length = some (position, memory, heap) → position.toNat < 2 ^ 31

theorem fill_spec {held : Store H} (filled : A.fill bytes store = some (position, held)) :
    ∃ memory heap, A.place store bytes.length = some (position, memory, heap) ∧
      held = ⟨memory.put position.toNat bytes, (position, bytes.length) :: store.blocks, heap⟩ := by
  rw [Allocator.fill] at filled
  split at filled
  · cases filled
  · next memory heap placed =>
    cases filled
    exact ⟨memory, heap, placed, rfl⟩

theorem fill_holds {held : Store H} (filled : A.fill bytes store = some (position, held)) :
    held.memory.Holds position.toNat bytes := by
  obtain ⟨memory, heap, placed, rfl⟩ := fill_spec filled
  exact LinearMemory.holds_put (A.inside placed)

theorem alloc_spec {n : Nat} {ptr : Int32} {allocated : Store H} (fits : n < 2 ^ 31)
    (found : alloc A (Int32.ofNat n) store = some (ptr, allocated)) :
    ∃ position memory heap, A.place store n = some (position, memory, heap) ∧ ptr = position.toInt32 := by
  rw [alloc, allocRaw, tryUsize_length fits, Option.getD_some] at found
  split at found
  · cases found
  · next position held filled =>
    cases found
    obtain ⟨memory, heap, placed, _⟩ := fill_spec filled
    rw [List.length_replicate] at placed
    exact ⟨position, memory, heap, placed, rfl⟩

theorem passBuffer_error {what : String} {len : Int32} {error : WasmError}
    (failed : passBuffer (alloc A) what bytes len store = .error error) :
    ∃ context, error = .guestTrap context := by
  rw [passBuffer] at failed
  split at failed
  · cases failed
    exact ⟨_, rfl⟩
  · split at failed
    · cases failed
      exact ⟨_, rfl⟩
    · cases failed

section Low

variable (low : A.Low)
include low

theorem passBuffer_spec {what : String} {ptr : Int32} {after : Store H} (fits : bytes.length < 2 ^ 31)
    (passed : passBuffer (alloc A) what bytes (Int32.ofNat bytes.length) store = .ok (ptr, after)) :
    ∃ position memory heap, A.place store bytes.length = some (position, memory, heap) ∧
      ptr = position.toInt32 ∧
      after = ⟨written memory position bytes, (position, bytes.length) :: store.blocks, heap⟩ := by
  cases found : alloc A (Int32.ofNat bytes.length) store with
  | none =>
    rw [passBuffer, found] at passed
    cases passed
  | some result =>
    obtain ⟨position, memory, heap, placed, _⟩ := alloc_spec fits found
    rw [passBuffer_low what fits (low placed) placed] at passed
    cases passed
    exact ⟨position, memory, heap, placed, rfl, rfl⟩

/-- A request that comes back brings exactly what the host's client answered to exactly that request. -/
theorem httpImpl_spec {host : Host W} {request : Bytes} {w after : W} {answer : Except String Bytes}
    {left : Store H} (fits : request.length < 2 ^ 31)
    (ended : httpImpl A host request store w = (some (answer, left), after)) :
    (host.execute w request).1.length < 2 ^ 31 ∧ answer = .ok (host.execute w request).1 ∧
      after = (host.execute w request).2 := by
  rw [httpImpl, tryI32_length fits] at ended
  dsimp only at ended
  cases filled : A.fill request store with
  | none =>
    rw [filled] at ended
    cases ended
  | some result =>
    obtain ⟨position, held⟩ := result
    rw [filled] at ended
    obtain ⟨_, _, first, _⟩ := fill_spec filled
    have seen := readGuestBytes_holds fits (low first) (fill_holds filled)
    have executed : host.execute w ((readGuestBytes held.memory position.toInt32
        (Int32.ofNat request.length)).getD outOfBoundsRequest) = host.execute w request := by
      rw [seen, Option.getD_some]
    by_cases short : (host.execute w request).1.length < 2 ^ 31
    · cases found : alloc A (Int32.ofNat (host.execute w request).1.length) held with
      | none =>
        simp only [runHttpImport, executed, tryI32_length short, found] at ended
        cases ended
      | some result =>
        obtain ⟨place, memory, heap, placed, _⟩ := alloc_spec short found
        have back := read_holds short (low placed) (holds_written (A.inside placed))
        simp only [runHttpImport_low short (low placed) placed executed, unpack_packed, back] at ended
        cases ended
        exact ⟨short, rfl, rfl⟩
    · have long : tryI32 (host.execute w request).1.length = none := if_neg short
      simp only [runHttpImport, executed, long] at ended
      cases ended

theorem logImpl_spec {host : Host W} {message : Bytes} {w after : W} {answer : Except String Unit}
    {left : Store H} (fits : message.length < 2 ^ 31)
    (ended : logImpl A host message store w = (some (answer, left), after)) :
    answer = .ok () ∧ after = host.trace w message := by
  rw [logImpl, tryI32_length fits] at ended
  dsimp only at ended
  cases filled : A.fill message store with
  | none =>
    rw [filled] at ended
    cases ended
  | some result =>
    obtain ⟨position, held⟩ := result
    obtain ⟨_, _, placed, _⟩ := fill_spec filled
    have seen := readGuestBytes_holds fits (low placed) (fill_holds filled)
    simp only [filled, logImport, seen, Option.getD_some] at ended
    cases ended
    exact ⟨rfl, rfl⟩

end Low

/-- The guest packs the length that its response can have. -/
theorem responseLen_eq (response : Bytes) : (tryI32 response.length).getD Int32.maxValue =
    Int32.ofNat (response.take (2 ^ 31 - 1)).length := by
  rw [List.length_take]
  by_cases fits : response.length < 2 ^ 31
  · rw [tryI32_length fits, Option.getD_some, Nat.min_eq_right (by omega)]
  · have long : tryI32 response.length = none := if_neg fits
    rw [long, Option.getD_none, Nat.min_eq_left (by omega)]
    rfl

/-- A guest that does not trap does as the plain exchange, and its answer leads to the response. -/
theorem serve_exchange (low : A.Low) (host : Host W) (handler : Handler) (store : Store H) (w : W)
    {answer : Int64} {final : Store H} {after : W}
    (ended : serve A host handler store w = (some (answer, final), after)) :
    ∃ response, handler.exchange host w = (some response, after) ∧
      readResponse final.memory answer = .ok response := by
  induction handler generalizing store w with
  | done result =>
    cases result with
    | error message =>
      rw [serve] at ended
      cases ended
    | ok response =>
      rw [serve, responseLen_eq] at ended
      cases filled : A.fill response store with
      | none =>
        rw [filled] at ended
        cases ended
      | some found =>
        obtain ⟨position, held⟩ := found
        rw [filled] at ended
        cases ended
        have short : (response.take (2 ^ 31 - 1)).length < 2 ^ 31 := by
          rw [List.length_take]
          omega
        exact ⟨_, rfl, readResponse_holds short ((fill_holds filled).take _)⟩
  | http request next ih =>
    rw [serve] at ended
    cases call : httpImpl A host request store w with
    | mk reply world =>
      rw [call] at ended
      cases reply with
      | none => cases ended
      | some reply =>
        obtain ⟨body, left⟩ := reply
        by_cases fits : request.length < 2 ^ 31
        · obtain ⟨short, rfl, rfl⟩ := httpImpl_spec low fits call
          obtain ⟨response, plain, held⟩ := ih _ _ _ ended
          refine ⟨response, ?_, held⟩
          rw [Handler.exchange, if_pos fits]
          exact (if_pos short).trans plain
        · have long : tryI32 request.length = none := if_neg fits
          rw [httpImpl, long] at call
          cases call
          obtain ⟨response, plain, held⟩ := ih _ _ _ ended
          refine ⟨response, ?_, held⟩
          rw [Handler.exchange, if_neg fits]
          exact plain
  | log message next ih =>
    rw [serve] at ended
    cases call : logImpl A host message store w with
    | mk reply world =>
      rw [call] at ended
      cases reply with
      | none => cases ended
      | some reply =>
        obtain ⟨body, left⟩ := reply
        by_cases fits : message.length < 2 ^ 31
        · obtain ⟨rfl, rfl⟩ := logImpl_spec low fits call
          obtain ⟨response, plain, held⟩ := ih _ _ _ ended
          refine ⟨response, ?_, held⟩
          rw [Handler.exchange, if_pos fits]
          exact plain
        · have long : tryI32 message.length = none := if_neg fits
          rw [logImpl, long] at call
          cases call
          obtain ⟨response, plain, held⟩ := ih _ _ _ ended
          refine ⟨response, ?_, held⟩
          rw [Handler.exchange, if_neg fits]
          exact plain

/-- The method survives the allocation and the writing of the payload. -/
theorem method_kept {method payload : Bytes} {first second : UInt32} {memory memory' : GuestMemory}
    {heap heap' : H} {blocks : List (UInt32 × Nat)}
    (inside : first.toNat + method.length ≤ memory.size)
    (placed : A.place ⟨written memory first method, (first, method.length) :: blocks, heap⟩ payload.length =
      some (second, memory', heap')) :
    (written memory' second payload).Holds first.toNat method := by
  have block : (first, method.length) ∈ (first, method.length) :: blocks := List.mem_cons_self
  have kept := A.keeps placed _ block method rfl (holds_written inside)
  have apart := A.apart placed _ block
  have zeroed : (memory'.put second.toNat (List.replicate payload.length 0)).Holds first.toNat method :=
    kept.put (by simpa using apart)
  exact zeroed.put apart

/-- An invocation traps, or it answers what the exchange comes to. -/
theorem invokeInner_exchange (low : A.Low) (jsonError : Bytes → Option String) (host : Host W)
    (dispatch : Bytes → Bytes → Handler) {method payload : Bytes} (store : Store H) (w : W)
    (methodFits : method.length < 2 ^ 31) (payloadFits : payload.length < 2 ^ 31) :
    (∃ context, (invokeInner jsonError (alloc A) (run A host dispatch) method payload store w).1 =
        .error (.guestTrap context)) ∨
      ∃ response after, (dispatch method payload).exchange host w = (some response, after) ∧
        invokeInner jsonError (alloc A) (run A host dispatch) method payload store w =
          (checkJson jsonError response, after) := by
  rw [invokeInner, tryI32_length methodFits, tryI32_length payloadFits]
  dsimp only
  cases first : passBuffer (alloc A) "method" method (Int32.ofNat method.length) store with
  | error error =>
    obtain ⟨context, rfl⟩ := passBuffer_error first
    exact Or.inl ⟨context, rfl⟩
  | ok named =>
    obtain ⟨methodPtr, named⟩ := named
    obtain ⟨position, memory, heap, placed, rfl, rfl⟩ := passBuffer_spec low methodFits first
    dsimp only
    cases second : passBuffer (alloc A) "payload" payload (Int32.ofNat payload.length)
      ⟨written memory position method, (position, method.length) :: store.blocks, heap⟩ with
    | error error =>
      obtain ⟨context, rfl⟩ := passBuffer_error second
      exact Or.inl ⟨context, rfl⟩
    | ok ready =>
      obtain ⟨payloadPtr, ready⟩ := ready
      obtain ⟨position', memory', heap', placed', rfl, rfl⟩ := passBuffer_spec low payloadFits second
      have seen := read_holds methodFits (low placed) (method_kept (A.inside placed) placed')
      have seen' := read_holds payloadFits (low placed') (holds_written (A.inside placed'))
      dsimp only
      rw [run, seen, seen']
      dsimp only
      cases served : serve A host (dispatch method payload) _ w with
      | mk outcome after =>
        cases outcome with
        | none => exact Or.inl ⟨_, rfl⟩
        | some outcome =>
          obtain ⟨answer, final⟩ := outcome
          obtain ⟨response, plain, held⟩ := serve_exchange low host _ _ _ served
          refine Or.inr ⟨response, after, plain, ?_⟩
          dsimp only
          rw [held]
          rfl

/-- A buffer of a length that fits an `i32` crosses unharmed in every transfer exactly when it lies
below 2 GiB; the guest's packed response is the one transfer that has no such limit. Where all buffers
lie there, an invocation that does not trap comes to the exchange of its bytes with the handler and of
the handler's with the host. -/
theorem wasm_buffers_lossless (A : Allocator H) :
    (∀ (store : Store H) (bytes : Bytes) (position : UInt32) (memory : GuestMemory) (heap : H),
      bytes.length < 2 ^ 31 → A.place store bytes.length = some (position, memory, heap) →
      (Lossless A store bytes position ↔ position.toNat < 2 ^ 31)) ∧
    (∀ (bytes : Bytes) (position : UInt32) (memory : GuestMemory), bytes.length < 2 ^ 31 →
      memory.Holds position.toNat bytes →
      readResponse memory (pack position.toInt32 (Int32.ofNat bytes.length)) = .ok bytes) ∧
    (A.Low → ∀ {W : Type} (jsonError : Bytes → Option String) (host : Host W)
      (dispatch : Bytes → Bytes → Handler) (method payload : Bytes) (store : Store H) (w : W),
      method.length < 2 ^ 31 → payload.length < 2 ^ 31 →
      (∃ context, (invokeInner jsonError (alloc A) (run A host dispatch) method payload store w).1 =
          .error (.guestTrap context)) ∨
        ∃ response after, (dispatch method payload).exchange host w = (some response, after) ∧
          invokeInner jsonError (alloc A) (run A host dispatch) method payload store w =
            (checkJson jsonError response, after)) := by
  refine ⟨?_, ?_, ?_⟩
  · intro store bytes position memory heap fits placed
    exact lossless_iff fits placed
  · intro bytes position memory fits held
    exact readResponse_holds fits held
  · intro low W jsonError host dispatch method payload store w methodFits payloadFits
    exact invokeInner_exchange low jsonError host dispatch store w methodFits payloadFits

/-! ### A bump allocator -/

/-- Buffers one after the other, up to `cap`. -/
def bumpPlace (cap : Nat) (store : Store Nat) (length : Nat) : Option (UInt32 × GuestMemory × Nat) :=
  if store.heap + length ≤ min cap store.memory.size ∧ store.heap < 2 ^ 32 ∧
      ∀ block ∈ store.blocks, block.1.toNat + block.2 ≤ store.heap then
    some (UInt32.ofNat store.heap, store.memory, store.heap + length)
  else none

theorem bumpPlace_spec {cap length heap : Nat} {store : Store Nat} {position : UInt32}
    {memory : GuestMemory} (placed : bumpPlace cap store length = some (position, memory, heap)) :
    position.toNat = store.heap ∧ memory = store.memory ∧ store.heap + length ≤ cap ∧
      store.heap + length ≤ store.memory.size ∧
      ∀ block ∈ store.blocks, block.1.toNat + block.2 ≤ store.heap := by
  rw [bumpPlace] at placed
  split at placed
  · next free =>
    cases placed
    obtain ⟨room, small, below⟩ := free
    exact ⟨UInt32.toNat_ofNat_of_lt small, rfl, room.trans (min_le_left _ _), room.trans (min_le_right _ _),
      below⟩
  · cases placed

def bump (cap : Nat) : Allocator Nat where
  place := bumpPlace cap
  inside placed := by
    obtain ⟨start, rfl, _, room, _⟩ := bumpPlace_spec placed
    rw [start]
    exact room
  apart placed block used := by
    obtain ⟨start, _, _, _, below⟩ := bumpPlace_spec placed
    rw [start]
    exact Or.inl (below block used)
  keeps placed _ _ _ _ held := by
    obtain ⟨_, rfl, _⟩ := bumpPlace_spec placed
    exact held

/-- A guest with all the memory there can be, of which the part below `frontier` is in use. -/
def fullStore (frontier : Nat) : Store Nat := ⟨⟨2 ^ 32, fun _ => 0, le_refl _⟩, [], frontier⟩

theorem bump_fullStore {cap frontier length : Nat} (room : frontier + length ≤ cap)
    (size : frontier + length ≤ 2 ^ 32) (address : frontier < 2 ^ 32) :
    (bump cap).place (fullStore frontier) length =
      some (UInt32.ofNat frontier, (fullStore frontier).memory, frontier + length) :=
  if_pos ⟨le_min room size, address, by simp [fullStore]⟩

theorem bump_low : (bump (2 ^ 26)).Low := by
  intro store length position memory heap placed
  obtain ⟨start, _, room, _⟩ := bumpPlace_spec placed
  omega

/-- A handler that posts its payload and answers with what comes back. -/
def postBack (payload : Bytes) : Handler :=
  .http payload fun
    | .ok body => .done (.ok body)
    | .error _ => .done (.error [])

/-- A client that is answered with its own request, without tracing. -/
def mirror : Host Unit := ⟨fun _ request => (request, ()), fun _ _ => ()⟩

/-- With a cap of 64 MiB the object comes back from the guest and from the client. -/
theorem wasm_buffers_lossless_capped :
    Lossless (bump (2 ^ 26)) (fullStore 1024) [123, 125] 1024 ∧
      invokeInner (fun _ => none) (alloc (bump (2 ^ 26)))
          (run (bump (2 ^ 26)) mirror fun _ payload => postBack payload) [109] [123, 125]
          (fullStore 1024) () = (.ok [123, 125], ()) ∧
      (postBack [123, 125]).exchange mirror () = (some [123, 125], ()) := by
  have rules := wasm_buffers_lossless (bump (2 ^ 26))
  have invoked : invokeInner (fun _ => none) (alloc (bump (2 ^ 26)))
      (run (bump (2 ^ 26)) mirror fun _ payload => postBack payload) [109] [123, 125]
      (fullStore 1024) () = (.ok [123, 125], ()) := by rfl
  refine ⟨?_, invoked, ?_⟩
  · have placed : (bump (2 ^ 26)).place (fullStore 1024) 2 = some (1024, (fullStore 1024).memory, 1026) :=
      bump_fullStore (by decide) (by decide) (by decide)
    exact (rules.1 _ [123, 125] _ _ _ (by decide) placed).mpr (by decide)
  · rcases rules.2.2 bump_low (fun _ => none) mirror (fun _ payload => postBack payload) [109] [123, 125]
      (fullStore 1024) () (by decide) (by decide) with ⟨context, trapped⟩ | ⟨response, after, plain, same⟩
    · rw [invoked] at trapped
      cases trapped
    · rw [invoked] at same
      cases same
      exact plain

/-- At 2 GiB the same object does not arrive, neither at the guest nor at an import. -/
theorem high_buffer_lost :
    (bump (2 ^ 32)).place (fullStore (2 ^ 31)) 2 =
        some (0x80000000, (fullStore (2 ^ 31)).memory, 2 ^ 31 + 2) ∧
      passBuffer (alloc (bump (2 ^ 32))) "payload" [123, 125] 2 (fullStore (2 ^ 31)) =
        .error (.guestTrap "writing the payload buffer") ∧
      readGuestBytes ((fullStore (2 ^ 31)).memory.put (2 ^ 31) [123, 125])
        (UInt32.toInt32 0x80000000) 2 = none ∧
      ¬ Lossless (bump (2 ^ 32)) (fullStore (2 ^ 31)) [123, 125] 0x80000000 := by
  have placed : (bump (2 ^ 32)).place (fullStore (2 ^ 31)) 2 =
      some (0x80000000, (fullStore (2 ^ 31)).memory, 2 ^ 31 + 2) :=
    bump_fullStore (by decide) (by decide) (by decide)
  have fits : ([123, 125] : Bytes).length < 2 ^ 31 := by decide
  have high : ¬ UInt32.toNat 0x80000000 < 2 ^ 31 := by decide
  refine ⟨placed, passBuffer_high "payload" fits high placed, rfl, ?_⟩
  intro lossless
  exact high ((lossless_iff fits placed).mp lossless)

end Lycoris.Extension.Wasm
