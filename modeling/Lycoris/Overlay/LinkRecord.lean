import Lycoris.Overlay.Routing

/-!
Link-state records: what a node signs verifies with its key, an insertion replaces an older record or
does nothing, and the layout of records can be read back.
-/

namespace Lycoris.Overlay
open Lib

variable {P : Primitives}

/-- What is relied on of a node's keys and of the encoding: signatures verify, and its records fit an
envelope and decode to themselves. -/
structure Sound (E : LinkEncoding) (identity : NodeIdentity P) : Prop where
  decodes : P.decodePublicKey (P.encodePublicKey identity.publicKey) = some identity.publicKey
  encodes : ∀ body, ∃ bytes, E.bodyBytes body = some bytes
  signs : ∀ message, ∃ signature, identity.signWith message = some signature ∧
    P.verify identity.publicKey message signature = true
  carries : ∀ {edges sequence record}, LinkStateRecord.sign E identity edges sequence = .ok record →
    ∃ payload, E.recordBytes record = some payload ∧ payload.length ≤ maxPayloadBytes ∧
      E.recordFromBytes payload = some record

theorem LinkStateRecord.mem_sortDedup {edges : List NodeId} {node : NodeId} :
    node ∈ LinkStateRecord.sortDedup edges ↔ node ∈ edges := by
  rw [LinkStateRecord.sortDedup, Std.ExtTreeSet.mem_toList, Std.ExtTreeSet.mem_ofList,
    List.contains_iff_mem]

/-- The nodes a record of these edges names. -/
def advertisedEdges (nodeId : NodeId) (edges : List NodeId) : List NodeId :=
  LinkStateRecord.sortDedup (edges.filter fun edge => edge ≠ nodeId)

theorem mem_advertisedEdges {nodeId node : NodeId} {edges : List NodeId} :
    node ∈ advertisedEdges nodeId edges ↔ node ∈ edges ∧ node ≠ nodeId := by
  rw [advertisedEdges, LinkStateRecord.mem_sortDedup, List.mem_filter, decide_eq_true_iff]

theorem LinkStateRecord.nodeId_sign {E : LinkEncoding} {identity : NodeIdentity P}
    {edges : List NodeId} {sequence : UInt64} {record : LinkStateRecord}
    (signed : LinkStateRecord.sign E identity edges sequence = .ok record) :
    record.nodeId = identity.nodeId := by
  unfold sign at signed
  obtain ⟨_, _, signed⟩ := bind_ok.mp signed
  obtain ⟨bytes, _, signed⟩ := bind_ok.mp signed
  obtain ⟨signature, _, signed⟩ := bind_ok.mp signed
  rw [← Except.ok.inj signed]

/-- A record signed by the identity verifies with its key. -/
theorem Sound.sign {E : LinkEncoding} {identity : NodeIdentity P} (sound : Sound E identity)
    {edges : List NodeId} (few : (advertisedEdges identity.nodeId edges).length ≤ maxLinkStateEdges)
    (sequence : UInt64) :
    ∃ record, LinkStateRecord.sign E identity edges sequence = .ok record ∧
      record.nodeId = identity.nodeId ∧ record.sequence = sequence ∧
      record.edges = advertisedEdges identity.nodeId edges ∧
      record.verifyWith P E (P.encodePublicKey identity.publicKey) = .ok () := by
  let body : LinkStateBody := ⟨identity.nodeId, P.encodePublicKey identity.publicKey,
    advertisedEdges identity.nodeId edges, sequence⟩
  obtain ⟨bytes, encoded⟩ := sound.encodes body
  obtain ⟨signature, signed, verified⟩ := sound.signs bytes
  refine ⟨⟨body, signature⟩, ?_, rfl, rfl, rfl, ?_⟩
  · rw [LinkStateRecord.sign]
    refine bind_ok.mpr ⟨(), ensure_ok.mpr few, bind_ok.mpr ⟨bytes, okOr_ok.mpr encoded, ?_⟩⟩
    exact bind_ok.mpr ⟨signature, okOr_ok.mpr signed, rfl⟩
  · rw [LinkStateRecord.verifyWith]
    refine bind_ok.mpr ⟨(), ensure_ok.mpr few, bind_ok.mpr ⟨(), ensure_ok.mpr rfl, ?_⟩⟩
    refine bind_ok.mpr ⟨identity.publicKey, okOr_ok.mpr sound.decodes, bind_ok.mpr ⟨bytes, ?_, ?_⟩⟩
    · exact okOr_ok.mpr encoded
    · exact ensure_ok.mpr verified

/-- What an insertion makes of the database: nothing, or the record takes the place of an older one. -/
theorem LinkStateDb.insert_cases {E : LinkEncoding} {db db' : LinkStateDb} {record : LinkStateRecord}
    {key : Bytes} {advanced : Bool} (inserted : db.insert P E record key = .ok (db', advanced)) :
    (db' = db ∧ ∃ current, db.records[record.nodeId]? = some current ∧
      record.sequence ≤ current.sequence) ∨
    (db'.records = db.records.insert record.nodeId record ∧
      ∀ current, db.records[record.nodeId]? = some current → current.sequence < record.sequence) := by
  obtain ⟨_, _, inserted⟩ := bind_ok.mp inserted
  cases found : db.records[record.nodeId]? with
  | none =>
    rw [found] at inserted
    obtain ⟨rfl, _⟩ := Prod.mk.inj (Except.ok.inj inserted)
    exact .inr ⟨rfl, nofun⟩
  | some current =>
    rw [found] at inserted
    by_cases stale : record.sequence ≤ current.sequence
    · simp only [stale, decide_true, if_true] at inserted
      obtain ⟨rfl, _⟩ := Prod.mk.inj (Except.ok.inj inserted)
      exact .inl ⟨rfl, current, rfl, stale⟩
    · simp only [stale, decide_false, Bool.false_eq_true, if_false] at inserted
      obtain ⟨rfl, _⟩ := Prod.mk.inj (Except.ok.inj inserted)
      refine .inr ⟨rfl, fun other same => ?_⟩
      rw [← Option.some.inj same]
      exact UInt64.not_le.mp stale

theorem LinkStateDb.insert_of_verified {E : LinkEncoding} (db : LinkStateDb) {record : LinkStateRecord}
    {key : Bytes} (verified : record.verifyWith P E key = .ok ()) :
    ∃ db' advanced, db.insert P E record key = .ok (db', advanced) :=
  ⟨_, _, bind_ok.mpr ⟨(), verified, rfl⟩⟩

/-! ### Layout -/

namespace Transparent

theorem readVarint_varint (n : Nat) (rest : Bytes) : readVarint (varint n ++ rest) = some (n, rest) := by
  refine takeVarint_varint 64 _ ?_ rest
  calc n < 128 ^ (varint n).length := lt_of_varint n
    _ ≤ 128 ^ (varint n ++ rest).length :=
      Nat.pow_le_pow_right (by omega) (by rw [List.length_append]; omega)
    _ ≤ 128 ^ (varint n ++ rest).length * 2 ^ (64 % 7) := Nat.le_mul_of_pos_right _ (Nat.two_pow_pos _)

theorem readBytes_append (bytes rest : Bytes) :
    readBytes bytes.length (bytes ++ rest) = some (bytes, rest) := by
  have enough : ¬ (bytes ++ rest).length < bytes.length := by
    rw [List.length_append]
    omega
  rw [readBytes, if_neg enough, List.take_left, List.drop_left]

theorem readSized_sized (bytes rest : Bytes) : readSized (sized bytes ++ rest) = some (bytes, rest) := by
  rw [readSized, sized, List.append_assoc, readVarint_varint]
  exact readBytes_append bytes rest

/-- The number the first bytes spell. -/
theorem foldl_bytes (n k : Nat) (bound : n < 256 ^ 32) (short : k ≤ 32) :
    ((List.range k).map fun i => UInt8.ofNat (n / 256 ^ (31 - i))).foldl
      (fun value byte => value * 256 + byte.toNat) 0 = n / 256 ^ (32 - k) := by
  induction k with
  | zero => exact (Nat.div_eq_of_lt bound).symm
  | succ k ih =>
    rw [List.range_succ, List.map_append, List.foldl_append, ih (by omega)]
    show n / 256 ^ (32 - k) * 256 + (UInt8.ofNat (n / 256 ^ (31 - k))).toNat = n / 256 ^ (32 - (k + 1))
    have shift : 32 - k = 31 - k + 1 := by omega
    have digits := Nat.div_add_mod (n / 256 ^ (31 - k)) 256
    rw [UInt8.toNat_ofNat', shift, Nat.pow_succ, ← Nat.div_div_eq_div_mul,
      show 32 - (k + 1) = 31 - k by omega]
    omega

theorem length_bytes32 (value : BitVec 256) : (bytes32 value).length = 32 := by
  rw [bytes32, List.length_map, List.length_range]

theorem length_asBytes (id : NodeId) : id.asBytes.length = 32 := length_bytes32 id

theorem readId_asBytes (id : NodeId) (rest : Bytes) : readId (id.asBytes ++ rest) = some (id, rest) := by
  have read := readBytes_append id.asBytes rest
  rw [length_asBytes] at read
  have spelled : id.asBytes.foldl (fun value byte => value * 256 + byte.toNat) 0 = BitVec.toNat id :=
    (foldl_bytes (BitVec.toNat id) 32 (BitVec.isLt id) (le_refl _)).trans (Nat.div_one _)
  rw [readId, read]
  show some (BitVec.ofNat 256 (id.asBytes.foldl _ 0), rest) = _
  rw [spelled]
  exact congrArg (fun id => some (id, rest)) ((BitVec.ofNat_toNat 256 _).trans (BitVec.setWidth_eq _))

theorem readIds_flatMap (ids : List NodeId) (rest : Bytes) :
    readIds ids.length (ids.flatMap Identifier.asBytes ++ rest) = some (ids, rest) := by
  induction ids with
  | nil => rfl
  | cons id ids ih =>
    rw [List.length_cons, readIds, List.flatMap_cons, List.append_assoc, readId_asBytes]
    show (readIds ids.length (ids.flatMap Identifier.asBytes ++ rest)).bind _ = _
    rw [ih]
    rfl

theorem linkRecordFromBytes_linkRecordBytes (record : LinkStateRecord) :
    linkRecordFromBytes (linkRecordBytes record) = some record := by
  obtain ⟨⟨nodeId, publicKey, edges, sequence⟩, signature⟩ := record
  have last := readSized_sized signature []
  rw [List.append_nil] at last
  rw [linkRecordFromBytes, linkRecordBytes, linkBodyBytes]
  simp only [List.append_assoc, readId_asBytes, readSized_sized, readVarint_varint, readIds_flatMap, last,
    bind, Option.bind, UInt64.ofNat_toNat]
  rfl

theorem length_flatMap_asBytes (ids : List NodeId) :
    (ids.flatMap Identifier.asBytes).length = 32 * ids.length := by
  induction ids with
  | nil => rfl
  | cons id ids ih =>
    rw [List.flatMap_cons, List.length_append, ih, length_asBytes, List.length_cons]
    omega

/-- A record of these identities is small. -/
theorem length_linkRecordBytes_le {record : LinkStateRecord} (key : record.body.publicKey.length ≤ 127)
    (few : record.body.edges.length ≤ maxLinkStateEdges) (signed : record.signature.length ≤ 127) :
    (linkRecordBytes record).length ≤ maxPayloadBytes := by
  have key' := length_varint_le (n := record.body.publicKey.length) 0 (by omega)
  have signed' := length_varint_le (n := record.signature.length) 0 (by omega)
  have edges := length_varint_le (n := record.body.edges.length) 1 (by rw [maxLinkStateEdges] at few; omega)
  have bound := record.body.sequence.toNat_lt
  have sequence := length_varint_le (n := record.body.sequence.toNat) 9 (by omega)
  rw [maxLinkStateEdges] at few
  rw [linkRecordBytes, linkBodyBytes, sized, sized]
  simp only [List.length_append, length_asBytes, length_flatMap_asBytes]
  show _ ≤ 8 * 1024 * 1024 - 1024
  omega

theorem sound_identity (initial key : UInt8) : Sound linkEncoding (identity initial key) where
  decodes := rfl
  encodes body := ⟨_, rfl⟩
  signs message := ⟨_, rfl, decide_eq_true rfl⟩
  carries {edges sequence record} made := by
    rw [LinkStateRecord.sign] at made
    obtain ⟨_, few, made⟩ := bind_ok.mp made
    obtain ⟨bytes, encoded, made⟩ := bind_ok.mp made
    obtain ⟨signature', signs, made⟩ := bind_ok.mp made
    obtain rfl := Except.ok.inj made
    have few' := ensure_ok.mp few
    refine ⟨_, rfl, length_linkRecordBytes_le ?_ few' ?_, linkRecordFromBytes_linkRecordBytes _⟩
    · show [key].length ≤ 127
      exact Nat.succ_le_succ (Nat.zero_le _)
    · obtain rfl := Option.some.inj (okOr_ok.mp signs)
      show (bytes32 _).length ≤ 127
      rw [length_bytes32]
      omega

end Transparent

end Lycoris.Overlay
