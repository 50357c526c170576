import Lycoris.Lib.Postcard
import Lycoris.Overlay.Routing

/-!
Envelopes on the wire (`overlay/src/codec.rs`, `overlay/src/protocol.rs`). The derived postcard layout
writes the fields in order; `Envelope::new` bounds the payload so that any header fits a frame beside
it, while the decoder knows the bound of the frame alone.
-/

namespace Lycoris.Overlay
open Lib

/-! ### Frames -/

section Frames

variable {T : Type} (format : Format T)

def encodeFrame (value : T) : Except FrameError Bytes :=
  let frame := format.write value
  if frame.length > maxFrameBytes then .error (.frameTooLarge frame.length maxFrameBytes)
  else .ok frame

/-- Bytes after the value are ignored. -/
def decodeFrame (frame : Bytes) : Except FrameError T :=
  if frame.length > maxFrameBytes then .error (.frameTooLarge frame.length maxFrameBytes)
  else match format.read frame with
    | some (value, _) => .ok value
    | none => .error .serialization

variable {format} {value : T} {frame : Bytes}

theorem encodeFrame_ok : encodeFrame format value = .ok frame ↔
    format.write value = frame ∧ frame.length ≤ maxFrameBytes := by
  unfold encodeFrame
  dsimp only
  split
  · rename_i long
    constructor
    · intro ok
      cases ok
    · rintro ⟨rfl, short⟩
      omega
  · rename_i short
    rw [Except.ok.injEq]
    constructor
    · rintro rfl
      exact ⟨rfl, not_lt.mp short⟩
    · exact And.left

theorem decodeFrame_ok : decodeFrame format frame = .ok value ↔
    frame.length ≤ maxFrameBytes ∧ ∃ rest, format.read frame = some (value, rest) := by
  unfold decodeFrame
  split
  · rename_i long
    constructor
    · intro ok
      cases ok
    · rintro ⟨short, _⟩
      omega
  · rename_i short
    split
    · rename_i read rest taken
      rw [taken, Except.ok.injEq]
      constructor
      · rintro rfl
        exact ⟨not_lt.mp short, rest, rfl⟩
      · rintro ⟨_, rest', same⟩
        exact (Prod.mk.inj (Option.some.inj same)).1
    · rename_i nothing
      rw [nothing]
      simp

/-- A frame that fits is read back. -/
theorem decodeFrame_encodeFrame (valid : format.Valid value) (encoded : encodeFrame format value = .ok frame) :
    decodeFrame format frame = .ok value := by
  obtain ⟨rfl, short⟩ := encodeFrame_ok.mp encoded
  have read := format.read_write valid []
  rw [List.append_nil] at read
  exact decodeFrame_ok.mpr ⟨short, [], read⟩

end Frames

/-! ### Envelopes -/

namespace ProtocolId

def index : ProtocolId → Nat
  | admission => 0
  | registry => 1
  | membership => 2
  | resource => 3
  | extension => 4
  | route => 5

def ofIndex : Nat → Option ProtocolId
  | 0 => some admission
  | 1 => some registry
  | 2 => some membership
  | 3 => some resource
  | 4 => some extension
  | 5 => some route
  | _ => none

end ProtocolId

namespace MessageKind

def index : MessageKind → Nat
  | request => 0
  | response => 1
  | event => 2

def ofIndex : Nat → Option MessageKind
  | 0 => some request
  | 1 => some response
  | 2 => some event
  | _ => none

end MessageKind

theorem uneven16 : 16 % 7 ≠ 0 := by omega

theorem uneven32 : 32 % 7 ≠ 0 := by omega

def versionFormat : Format UInt16 :=
  (Format.number 16 uneven16).via UInt16.toNat (fun n => if n < 2 ^ 16 then some (UInt16.ofNat n) else none)
    (fun version => by rw [if_pos version.toNat_lt, UInt16.ofNat_toNat])
    (fun n version decoded => by
      split at decoded
      · rename_i small
        rw [← Option.some.inj decoded]
        exact UInt16.toNat_ofNat_of_lt' small
      · cases decoded)

def protocolFormat : Format ProtocolId :=
  (Format.number 32 uneven32).via ProtocolId.index ProtocolId.ofIndex
    (fun protocol => by cases protocol <;> rfl)
    (fun n protocol decoded => by
      unfold ProtocolId.ofIndex at decoded
      split at decoded <;> cases decoded <;> rfl)

def kindFormat : Format MessageKind :=
  (Format.number 32 uneven32).via MessageKind.index MessageKind.ofIndex
    (fun kind => by cases kind <;> rfl)
    (fun n kind decoded => by
      unfold MessageKind.ofIndex at decoded
      split at decoded <;> cases decoded <;> rfl)

/-- The 32 bytes of an identifier. -/
def idFormat (kind : IdKind) : Format (Identifier kind) := Format.array 32

def requestIdFormat : Format RequestId := Format.array 16

/-- The fields of a header in the order they are declared. -/
def headerFields : EnvelopeHeader ≃
    UInt16 × ClusterId × RequestId × NodeId × NodeId × ProtocolId × MessageKind × Int × UInt8 where
  toFun h := (h.version, h.clusterId, h.requestId, h.source, h.destination, h.protocol, h.kind,
    h.deadlineUnixMs, h.remainingHops)
  invFun f := ⟨f.1, f.2.1, f.2.2.1, f.2.2.2.1, f.2.2.2.2.1, f.2.2.2.2.2.1, f.2.2.2.2.2.2.1,
    f.2.2.2.2.2.2.2.1, f.2.2.2.2.2.2.2.2⟩
  left_inv _ := rfl
  right_inv _ := rfl

def headerFormat : Format EnvelopeHeader :=
  (versionFormat.pair ((idFormat .cluster).pair (requestIdFormat.pair ((idFormat .node).pair
    ((idFormat .node).pair (protocolFormat.pair (kindFormat.pair
      ((Format.signed 64 Format.uneven64).pair Format.byte)))))))).record headerFields

def envelopeFields : Envelope ≃ EnvelopeHeader × Bytes where
  toFun envelope := (envelope.header, envelope.payload)
  invFun fields := ⟨fields.1, fields.2⟩
  left_inv _ := rfl
  right_inv _ := rfl

def envelopeFormat : Format Envelope := (headerFormat.pair Format.bytes).record envelopeFields

/-- The deadline is an `i64`. -/
def EnvelopeHeader.Representable (header : EnvelopeHeader) : Prop :=
  -(2 ^ 63 : Int) ≤ header.deadlineUnixMs ∧ header.deadlineUnixMs < 2 ^ 63

theorem headerFormat_valid {header : EnvelopeHeader} :
    headerFormat.Valid header ↔ header.Representable := by
  have version : versionFormat.Valid header.version := header.version.toNat_lt
  have protocol : protocolFormat.Valid header.protocol := by
    show header.protocol.index < 2 ^ 32
    cases header.protocol <;> decide
  have kind : kindFormat.Valid header.kind := by
    show header.kind.index < 2 ^ 32
    cases header.kind <;> decide
  have deadline : (Format.signed 64 Format.uneven64).Valid header.deadlineUnixMs ↔ header.Representable :=
    zigzag_lt_iff
  constructor
  · rintro ⟨_, _, _, _, _, _, _, inRange, _⟩
    exact deadline.mp inRange
  · intro inRange
    exact ⟨version, Format.array_valid 32 _, Format.array_valid 16 _, Format.array_valid 32 _,
      Format.array_valid 32 _, protocol, kind, deadline.mpr inRange, trivial⟩

/-- No header takes more than 128 bytes. -/
theorem length_header_le {header : EnvelopeHeader} (inRange : header.Representable) :
    (headerFormat.write header).length ≤ 128 := by
  have version : (varint header.version.toNat).length ≤ 3 := by
    apply length_varint_le 2
    have small := header.version.toNat_lt
    omega
  have protocol : (varint header.protocol.index).length ≤ 1 := by
    apply length_varint_le 0
    cases header.protocol <;> decide
  have kind : (varint header.kind.index).length ≤ 1 := by
    apply length_varint_le 0
    cases header.kind <;> decide
  have deadline : (varint (zigzag header.deadlineUnixMs)).length ≤ 10 := by
    apply length_varint_le 9
    exact lt_trans (zigzag_lt_iff.mpr inRange) (by norm_num)
  have cluster := Format.length_array 32 header.clusterId
  have request := Format.length_array 16 header.requestId
  have source := Format.length_array 32 header.source
  have destination := Format.length_array 32 header.destination
  have written : headerFormat.write header = varint header.version.toNat ++
      ((Format.array 32).write header.clusterId ++ ((Format.array 16).write header.requestId ++
      ((Format.array 32).write header.source ++ ((Format.array 32).write header.destination ++
      (varint header.protocol.index ++ (varint header.kind.index ++
      (varint (zigzag header.deadlineUnixMs) ++ [header.remainingHops]))))))) := rfl
  rw [written]
  simp only [List.length_append, List.length_singleton, cluster, request, source, destination]
  omega

section Envelopes

variable {envelope : Envelope} {frame : Bytes}

theorem envelopeFormat_valid : envelopeFormat.Valid envelope ↔
    envelope.header.Representable ∧ envelope.payload.length < 2 ^ 64 :=
  and_congr headerFormat_valid Iff.rfl

theorem length_envelope (envelope : Envelope) : (envelopeFormat.write envelope).length =
    (headerFormat.write envelope.header).length + (varint envelope.payload.length).length +
      envelope.payload.length := by
  have written : envelopeFormat.write envelope =
      headerFormat.write envelope.header ++ (varint envelope.payload.length ++ envelope.payload) := rfl
  rw [written, List.length_append, List.length_append, Nat.add_assoc]

/-- Any header fits beside a payload that leaves it 132 bytes of the frame. -/
theorem encodeFrame_envelope (inRange : envelope.header.Representable)
    (fits : envelope.payload.length + 132 ≤ maxFrameBytes) :
    encodeFrame envelopeFormat envelope = .ok (envelopeFormat.write envelope) := by
  refine encodeFrame_ok.mpr ⟨rfl, ?_⟩
  have header := length_header_le inRange
  have size : (varint envelope.payload.length).length ≤ 4 := by
    apply length_varint_le 3
    unfold maxFrameBytes at fits
    omega
  rw [length_envelope]
  omega

theorem roundTrip_envelope (inRange : envelope.header.Representable)
    (fits : envelope.payload.length + 132 ≤ maxFrameBytes) :
    ∃ frame, encodeFrame envelopeFormat envelope = .ok frame ∧ frame.length ≤ maxFrameBytes ∧
      decodeFrame envelopeFormat frame = .ok envelope := by
  have encoded := encodeFrame_envelope inRange fits
  have valid : envelopeFormat.Valid envelope := by
    refine envelopeFormat_valid.mpr ⟨inRange, ?_⟩
    unfold maxFrameBytes at fits
    omega
  exact ⟨_, encoded, (encodeFrame_ok.mp encoded).2, decodeFrame_encodeFrame valid encoded⟩

/-- What is decoded is well typed, and no longer than its frame. -/
theorem decodeFrame_envelope (decoded : decodeFrame envelopeFormat frame = .ok envelope) :
    envelope.header.Representable ∧ envelope.payload.length ≤ frame.length ∧
      frame.length ≤ maxFrameBytes := by
  obtain ⟨short, rest, read⟩ := decodeFrame_ok.mp decoded
  refine ⟨(envelopeFormat_valid.mp (envelopeFormat.valid read)).1, ?_, short⟩
  obtain ⟨⟨fields, rest'⟩, taken, same⟩ := Option.bind_eq_some_iff.mp read
  obtain ⟨⟨header, middle⟩, front, taken⟩ := Option.bind_eq_some_iff.mp taken
  obtain ⟨⟨payload, back⟩, body, pieces⟩ := Option.map_eq_some_iff.mp taken
  obtain ⟨rfl, rfl⟩ := Prod.mk.inj pieces
  obtain ⟨_, built, ends⟩ := Option.map_eq_some_iff.mp same
  obtain ⟨rfl, _⟩ := Prod.mk.inj ends
  rw [← Option.some.inj built]
  exact le_trans (Format.length_bytes_le body) (headerFormat.shrinks front)

theorem envelope_new_ok {header : EnvelopeHeader} {payload : Bytes} :
    Envelope.new header payload = .ok envelope ↔
      envelope = ⟨header, payload⟩ ∧ payload.length ≤ maxPayloadBytes := by
  unfold Envelope.new
  split
  · rename_i long
    constructor
    · intro ok
      cases ok
    · rintro ⟨_, short⟩
      omega
  · rename_i short
    rw [Except.ok.injEq]
    constructor
    · rintro rfl
      exact ⟨rfl, not_lt.mp short⟩
    · rintro ⟨rfl, _⟩
      rfl

/-- A router drops payloads over its own limit before it makes an envelope of them. -/
theorem Router.forward_within {router : Router} {now : Int} {next : NodeId} {forwarded : Envelope}
    (sent : (router.handle envelope now).2 = .forward next forwarded) :
    envelope.payload.length ≤ maxRouteBodyBytes := by
  by_contra long
  have large : envelope.payload.length > maxRouteBodyBytes := not_le.mp long
  unfold handle at sent
  simp only [if_pos large] at sent
  split at sent
  · cases sent
  · split at sent
    · cases sent
    · split at sent
      · cases sent
      · split at sent
        · cases sent
        · cases sent

end Envelopes

/-- Envelopes that `Envelope::new` builds cross the wire unchanged. A decoded envelope is bounded by
its frame; it can be put into another envelope exactly when its payload is within the constructor's
bound, which every payload a router forwards is. -/
theorem envelope_framing :
    (∀ header payload envelope, header.Representable → Envelope.new header payload = .ok envelope →
      ∃ frame, encodeFrame envelopeFormat envelope = .ok frame ∧ frame.length ≤ maxFrameBytes ∧
        decodeFrame envelopeFormat frame = .ok envelope) ∧
    ∀ frame envelope, decodeFrame envelopeFormat frame = .ok envelope →
      envelope.header.Representable ∧ envelope.payload.length ≤ frame.length ∧
      frame.length ≤ maxFrameBytes ∧
      (∀ header, (∃ again, Envelope.new header envelope.payload = .ok again) ↔
        envelope.payload.length ≤ maxPayloadBytes) ∧
      ∀ router now next forwarded, (Router.handle router envelope now).2 = .forward next forwarded →
        ∀ header, Envelope.new header envelope.payload = .ok ⟨header, envelope.payload⟩ := by
  constructor
  · intro header payload envelope inRange built
    obtain ⟨rfl, short⟩ := envelope_new_ok.mp built
    apply roundTrip_envelope inRange
    unfold maxPayloadBytes at short
    have room : maxFrameBytes = 8 * 1024 * 1024 := rfl
    dsimp only
    omega
  · intro frame envelope decoded
    obtain ⟨inRange, within, short⟩ := decodeFrame_envelope decoded
    refine ⟨inRange, within, short, ?_, ?_⟩
    · intro header
      constructor
      · rintro ⟨again, ok⟩
        exact (envelope_new_ok.mp ok).2
      · intro bound
        exact ⟨_, envelope_new_ok.mpr ⟨rfl, bound⟩⟩
    · intro router now next forwarded sent header
      have small := Router.forward_within sent
      have limit : maxRouteBodyBytes ≤ maxPayloadBytes := by decide
      exact envelope_new_ok.mpr ⟨rfl, le_trans small limit⟩

/-- A header to send. -/
def plainHeader : EnvelopeHeader where
  version := 1
  clusterId := .ofNat 0
  requestId := .ofNat 0
  source := .ofNat 1
  destination := .ofNat 2
  protocol := .route
  kind := .request
  deadlineUnixMs := 0
  remainingHops := 0

/-- A frame that holds a payload of one byte more than `Envelope::new` takes is decoded all the same,
and no header can be put on that payload again. -/
theorem oversized_payload_decodes :
    ∃ frame envelope, decodeFrame envelopeFormat frame = .ok envelope ∧
      envelope.payload.length = maxPayloadBytes + 1 ∧
      ∀ header, Envelope.new header envelope.payload =
        .error (.payloadTooLarge (maxPayloadBytes + 1) maxPayloadBytes) := by
  let payload : Bytes := List.replicate (maxPayloadBytes + 1) 0
  have size : payload.length = maxPayloadBytes + 1 := List.length_replicate
  have limit : maxPayloadBytes = 8 * 1024 * 1024 - 1024 := rfl
  have room : maxFrameBytes = 8 * 1024 * 1024 := rfl
  have inRange : plainHeader.Representable := by
    show -(2 ^ 63 : Int) ≤ 0 ∧ (0 : Int) < 2 ^ 63
    norm_num
  obtain ⟨frame, _, _, decoded⟩ := @roundTrip_envelope ⟨plainHeader, payload⟩ inRange (by
    show payload.length + 132 ≤ maxFrameBytes
    omega)
  refine ⟨frame, ⟨plainHeader, payload⟩, decoded, size, ?_⟩
  intro header
  show Envelope.new header payload = _
  rw [Envelope.new, size, if_pos (by omega)]

end Lycoris.Overlay
