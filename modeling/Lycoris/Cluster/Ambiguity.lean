import Lycoris.Cluster.Fingerprint

/-!
When the string hashed for a register (`hash_register` of `membership/src/merkle.rs`) gives its
fields away. Ids and addresses end at a zero byte that they may hold themselves, and nothing marks
where the labels end and the annotations begin.
-/

namespace Lycoris.Cluster
open Lib

/-! ### Text and zero bytes -/

theorem utf8_eq (text : String) : utf8 text = text.toList.flatMap String.utf8EncodeChar := by
  have bytes : text.toByteArray = text.toList.utf8Encode := String.utf8Encode_toList.symm
  rw [utf8, ByteArray.toList, byteArray_loop, String.toUTF8_eq_toByteArray, bytes, List.utf8Encode,
    List.data_toByteArray]
  simp

theorem utf8_append (text text' : String) : utf8 (text ++ text') = utf8 text ++ utf8 text' := by
  rw [utf8_eq, utf8_eq, utf8_eq, String.toList_append, List.flatMap_append]

theorem utf8_nul : utf8 "\x00" = [0] := by
  rw [utf8_eq]
  rfl

/-- Only the character U+0000 has a zero byte: the bytes of a longer encoding carry marker bits. -/
theorem eq_nul_of_mem_utf8EncodeChar {c : Char} (zero : 0 ∈ String.utf8EncodeChar c) : c = '\x00' := by
  have marked : ∀ byte marker : UInt8, marker ≠ 0 → 0 ≠ byte ||| marker := by
    intro byte marker set same
    exact set (UInt8.or_eq_zero_iff.mp same.symm).2
  rcases Char.utf8Size_eq c with one | two | three | four
  · rw [String.utf8EncodeChar_eq_singleton one, List.mem_singleton] at zero
    have small : c.val ≤ 0x7f := Char.utf8Size_eq_one_iff.mp one
    have bound : c.val.toNat ≤ 127 := UInt32.le_iff_toNat_le.mp small
    have value : c.val.toNat = 0 := by
      have residue := congrArg UInt8.toNat zero
      rw [UInt32.toNat_toUInt8] at residue
      have none : (0 : UInt8).toNat = 0 := rfl
      omega
    exact Char.toNat_inj.mp value
  · rw [String.utf8EncodeChar_eq_cons_cons two] at zero
    simp [marked] at zero
  · rw [String.utf8EncodeChar_eq_cons_cons_cons three] at zero
    simp [marked] at zero
  · rw [String.utf8EncodeChar_eq_cons_cons_cons_cons four] at zero
    simp [marked] at zero

theorem nul_mem_of_zero_mem {text : String} (zero : 0 ∈ utf8 text) : '\x00' ∈ text.toList := by
  rw [utf8_eq] at zero
  obtain ⟨c, member, inside⟩ := List.mem_flatMap.mp zero
  rw [← eq_nul_of_mem_utf8EncodeChar inside]
  exact member

theorem split_at_nul {text : String} (nul : '\x00' ∈ text.toList) :
    ∃ before after : String, text = before ++ "\x00" ++ after := by
  obtain ⟨before, after, split⟩ := List.append_of_mem nul
  refine ⟨String.ofList before, String.ofList after, ?_⟩
  apply String.toList_inj.mp
  rw [split, String.toList_append, String.toList_append, String.toList_ofList, String.toList_ofList]
  simp

/-! ### Where the separators stand -/

/-- A split at a zero byte is the one after a clean front, or lies in what follows it. -/
theorem split_after_clean {front back front' back' : Bytes} (clean : 0 ∉ front)
    (same : front' ++ 0 :: back' = front ++ 0 :: back) :
    front' = front ∧ back' = back ∨ ∃ middle, back = middle ++ 0 :: back' := by
  rcases List.append_eq_append_iff.mp same with ⟨extra, fronts, backs⟩ | ⟨extra, fronts, backs⟩
  · cases extra with
    | nil =>
      rw [List.append_nil] at fronts
      exact .inl ⟨fronts.symm, (List.cons.inj backs).2⟩
    | cons byte extra =>
      have zero := (List.cons.inj backs).1
      subst zero
      exact absurd (by rw [fronts]; simp) clean
  · cases extra with
    | nil =>
      rw [List.append_nil] at fronts
      exact .inl ⟨fronts, (List.cons.inj backs).2.symm⟩
    | cons byte extra => exact .inr ⟨extra, (List.cons.inj backs).2⟩

/-- Two clean fields and a rest no longer than the other's are read back: a separator placed later
would leave too little behind it. -/
theorem fields_of_clean {first second rest first' second' rest' : Bytes} (clean : 0 ∉ first)
    (clean' : 0 ∉ second) (short : rest.length ≤ rest'.length)
    (same : first' ++ 0 :: (second' ++ 0 :: rest') = first ++ 0 :: (second ++ 0 :: rest)) :
    first' = first ∧ second' = second ∧ rest' = rest := by
  have tooLong : ∀ {middle : Bytes}, rest ≠ middle ++ 0 :: rest' := by
    intro middle split
    rw [split, List.length_append, List.length_cons] at short
    omega
  rcases split_after_clean clean same with ⟨firsts, remainder⟩ | ⟨middle, later⟩
  · rcases split_after_clean clean' remainder with ⟨seconds, rests⟩ | ⟨middle, later⟩
    · exact ⟨firsts, seconds, rests⟩
    · exact absurd later tooLong
  · rcases split_after_clean clean' later.symm with ⟨_, backs⟩ | ⟨middle', later'⟩
    · exact absurd backs.symm tooLong
    · have regrouped : rest = (middle' ++ 0 :: second') ++ 0 :: rest' := by
        rw [later', List.append_assoc]
        rfl
      exact absurd regrouped tooLong

/-! ### Fixed fields -/

theorem length_toBeBytes (value : UInt64) : (toBeBytes value).length = 8 := by
  rw [toBeBytes, List.length_map, List.length_range]

/-- Numbers of at most `n` digits with the same digits are equal. -/
theorem eq_of_digits {base : Nat} (n : Nat) {a b : Nat} (small : a < base ^ n) (small' : b < base ^ n)
    (digits : ∀ k < n, a / base ^ k % base = b / base ^ k % base) : a = b := by
  induction n generalizing a b with
  | zero =>
    rw [pow_zero] at small small'
    omega
  | succ n ih =>
    have last : a % base = b % base := by simpa using digits 0 (Nat.succ_pos n)
    have front : a / base = b / base := by
      rw [pow_succ] at small small'
      have short := Nat.div_lt_of_lt_mul (Nat.mul_comm .. ▸ small)
      have short' := Nat.div_lt_of_lt_mul (Nat.mul_comm .. ▸ small')
      refine ih short short' fun k inside => ?_
      rw [Nat.div_div_eq_div_mul, Nat.div_div_eq_div_mul, ← pow_succ']
      exact digits (k + 1) (Nat.succ_lt_succ inside)
    rw [← Nat.div_add_mod a base, ← Nat.div_add_mod b base, front, last]

theorem toBeBytes_injective : Function.Injective toBeBytes := by
  intro value value' same
  apply UInt64.toNat_inj.mp
  refine eq_of_digits 8 (show value.toNat < 256 ^ 8 from value.toNat_lt)
    value'.toNat_lt fun k small => ?_
  have bytes := congrArg (fun bytes : Bytes => (bytes.getD (7 - k) 0).toNat) same
  have position : 7 - (7 - k) = k := by omega
  simpa [toBeBytes, List.getD_eq_getElem?_getD, List.getElem?_range (show 7 - k < 8 by omega),
    position] using bytes

theorem MemberState.asU8_injective : Function.Injective MemberState.asU8 := by
  intro state state' same
  exact MemberState.rank_injective (congrArg UInt8.toNat same)

/-! ### Entries -/

def entryLine (entry : String × String) : Bytes := utf8 entry.1 ++ utf8 "=" ++ utf8 entry.2 ++ utf8 "\n"

theorem entryBytes_eq (map : StringMap) : entryBytes map = map.toList.flatMap entryLine := rfl

theorem entryBytes_empty : entryBytes ∅ = [] := by
  rw [entryBytes_eq, Std.ExtTreeMap.toList_eq_nil_iff.mpr rfl]
  rfl

theorem eq_empty_of_entryBytes {map : StringMap} (nothing : entryBytes map = []) : map = ∅ := by
  rw [entryBytes_eq, List.flatMap_eq_nil_iff] at nothing
  apply Std.ExtTreeMap.toList_eq_nil_iff.mp
  apply List.eq_nil_iff_forall_not_mem.mpr
  intro entry member
  have newline : utf8 "\n" = [10] := by
    rw [utf8_eq]
    rfl
  have line := nothing entry member
  rw [entryLine, newline] at line
  simp at line

theorem entryBytes_singleton (key value : String) :
    entryBytes ((∅ : StringMap).insert key value) = entryLine (key, value) := by
  let map := (∅ : StringMap).insert key value
  have one : map.toList.length = 1 := by
    rw [Std.ExtTreeMap.length_toList]
    simp [map, Std.ExtTreeMap.size_insert]
  obtain ⟨entry, listed⟩ := List.length_eq_one_iff.mp one
  have found : (key, value) ∈ map.toList := by
    rw [Std.ExtTreeMap.mem_toList_iff_getElem?_eq_some]
    simp [map]
  rw [listed, List.mem_singleton] at found
  rw [entryBytes_eq]
  show map.toList.flatMap entryLine = _
  rw [listed, found, List.flatMap_singleton]

/-- A run of entries reads as a single one: its value takes in the lines that follow. -/
theorem entries_as_one {entries : List (String × String)} (some : entries ≠ []) :
    ∃ entry, entries.flatMap entryLine = entryLine entry := by
  induction entries with
  | nil => exact absurd rfl some
  | cons entry rest ih =>
    by_cases last : rest = []
    · exact ⟨entry, by rw [last, List.flatMap_singleton]⟩
    · obtain ⟨next, merged⟩ := ih last
      refine ⟨(entry.1, entry.2 ++ "\n" ++ next.1 ++ "=" ++ next.2), ?_⟩
      rw [List.flatMap_cons, merged]
      simp only [entryLine, utf8_append, List.append_assoc]

/-! ### Registers -/

/-- What stands behind the second separator. -/
def trailer (register : MemberRegister) : Bytes :=
  [register.state.asU8] ++ toBeBytes register.incarnation ++
    (entryBytes register.labels ++ entryBytes register.annotations)

theorem registerBytes_eq (register : MemberRegister) :
    registerBytes register = leafPrefix ++ (utf8 register.nodeId ++ 0 :: (utf8 register.address ++
      0 :: trailer register)) := by
  simp only [registerBytes, trailer, List.append_assoc, List.cons_append, List.nil_append]

theorem length_trailer (register : MemberRegister) :
    (trailer register).length =
      9 + (entryBytes register.labels ++ entryBytes register.annotations).length := by
  rw [trailer, List.length_append, List.length_append, length_toBeBytes]
  rfl

/-- No zero byte inside the id or the address, and nothing after the incarnation. -/
structure MemberRegister.Unambiguous (register : MemberRegister) : Prop where
  nodeId : '\x00' ∉ register.nodeId.toList
  address : '\x00' ∉ register.address.toList
  labels : register.labels = ∅
  annotations : register.annotations = ∅

theorem hashedFields_of_unambiguous {register other : MemberRegister} (plain : register.Unambiguous)
    (same : registerBytes other = registerBytes register) :
    other.hashedFields = register.hashedFields := by
  have bare : entryBytes register.labels ++ entryBytes register.annotations = [] := by
    rw [plain.labels, plain.annotations, entryBytes_empty]
    rfl
  have short : (trailer register).length ≤ (trailer other).length := by
    rw [length_trailer, length_trailer, bare]
    simp
  rw [registerBytes_eq, registerBytes_eq] at same
  obtain ⟨ids, addresses, trailers⟩ := fields_of_clean
    (fun zero => plain.nodeId (nul_mem_of_zero_mem zero))
    (fun zero => plain.address (nul_mem_of_zero_mem zero)) short (List.append_cancel_left same)
  have fixed : ([other.state.asU8] ++ toBeBytes other.incarnation).length =
      ([register.state.asU8] ++ toBeBytes register.incarnation).length := by
    rw [List.length_append, List.length_append, length_toBeBytes, length_toBeBytes]
    rfl
  obtain ⟨heads, entries⟩ := List.append_inj trailers fixed
  obtain ⟨states, incarnations⟩ := List.cons.inj heads
  rw [bare] at entries
  obtain ⟨labels, annotations⟩ := List.append_eq_nil_iff.mp entries
  rw [MemberRegister.hashedFields, MemberRegister.hashedFields, utf8_injective ids,
    utf8_injective addresses, MemberState.asU8_injective states, toBeBytes_injective incarnations,
    plain.labels, plain.annotations, eq_empty_of_entryBytes labels, eq_empty_of_entryBytes annotations]

/-- Some register that differs in a hashed field has the same string. -/
def MemberRegister.Collides (register : MemberRegister) : Prop :=
  ∃ other : MemberRegister, other.hashedFields ≠ register.hashedFields ∧
    registerBytes other = registerBytes register

/-- The parts at a zero byte are shorter than the whole. -/
theorem ne_split (before after : String) :
    before ≠ before ++ "\x00" ++ after ∧ after ≠ before ++ "\x00" ++ after := by
  have lengths : (before ++ "\x00" ++ after).length = before.length + 1 + after.length := by
    rw [String.length_append, String.length_append]
    rfl
  constructor
  · intro same
    have shorter := congrArg String.length same
    omega
  · intro same
    have shorter := congrArg String.length same
    omega

theorem collides_of_nul_nodeId {register : MemberRegister} (nul : '\x00' ∈ register.nodeId.toList) :
    register.Collides := by
  obtain ⟨before, after, split⟩ := split_at_nul nul
  -- The id ends at its own zero byte; the rest of it goes to the address.
  refine ⟨{ register with nodeId := before, address := after ++ "\x00" ++ register.address }, ?_, ?_⟩
  · intro same
    have ids : before = register.nodeId := congrArg HashedFields.nodeId same
    exact (ne_split before after).1 (ids.trans split)
  · rw [registerBytes_eq, registerBytes_eq, split]
    simp [utf8_append, utf8_nul, trailer]

theorem collides_of_nul_address {register : MemberRegister} (nul : '\x00' ∈ register.address.toList) :
    register.Collides := by
  obtain ⟨before, after, split⟩ := split_at_nul nul
  refine ⟨{ register with nodeId := register.nodeId ++ "\x00" ++ before, address := after }, ?_, ?_⟩
  · intro same
    have addresses : after = register.address := congrArg HashedFields.address same
    exact (ne_split before after).2 (addresses.trans split)
  · rw [registerBytes_eq, registerBytes_eq, split]
    simp [utf8_append, utf8_nul, trailer]

/-- Any entry makes a string ambiguous: all entries read as one label, and as one annotation. -/
theorem collides_of_entries {register : MemberRegister}
    (some : register.labels ≠ ∅ ∨ register.annotations ≠ ∅) : register.Collides := by
  have listed : register.labels.toList ++ register.annotations.toList ≠ [] := by
    intro nothing
    obtain ⟨labels, annotations⟩ := List.append_eq_nil_iff.mp nothing
    rcases some with label | annotation
    · exact label (Std.ExtTreeMap.toList_eq_nil_iff.mp labels)
    · exact annotation (Std.ExtTreeMap.toList_eq_nil_iff.mp annotations)
  obtain ⟨entry, merged⟩ := entries_as_one listed
  rw [List.flatMap_append, ← entryBytes_eq, ← entryBytes_eq] at merged
  let one : StringMap := (∅ : StringMap).insert entry.1 entry.2
  have alone : entryBytes one = entryLine entry := entryBytes_singleton entry.1 entry.2
  have trailed : ∀ labels annotations : StringMap,
      entryBytes labels ++ entryBytes annotations = entryLine entry →
      registerBytes { register with labels := labels, annotations := annotations } =
        registerBytes register := by
    intro labels annotations line
    rw [registerBytes_eq, registerBytes_eq, trailer, trailer, merged]
    dsimp only
    rw [line]
  by_cases asLabel : register.labels = one
  · refine ⟨_, ?_, trailed ∅ one (by rw [entryBytes_empty, alone, List.nil_append])⟩
    intro same
    have labels : (∅ : StringMap) = register.labels := congrArg HashedFields.labels same
    rw [asLabel] at labels
    exact Std.ExtTreeMap.insert_ne_empty labels.symm
  · refine ⟨_, ?_, trailed one ∅ (by rw [entryBytes_empty, alone, List.append_nil])⟩
    intro same
    exact asLabel (congrArg HashedFields.labels same).symm

/-- The hashed string tells a register from every register with other fields exactly when neither
its id nor its address holds the separator and it carries no label and no annotation. -/
theorem registerBytes_unambiguous_iff (register : MemberRegister) :
    (∀ other : MemberRegister, other.hashedFields ≠ register.hashedFields →
      registerBytes other ≠ registerBytes register) ↔
      '\x00' ∉ register.nodeId.toList ∧ '\x00' ∉ register.address.toList ∧
        register.labels = ∅ ∧ register.annotations = ∅ := by
  constructor
  · intro apart
    have free : ¬ register.Collides := by
      rintro ⟨other, differ, same⟩
      exact apart other differ same
    refine ⟨fun nul => free (collides_of_nul_nodeId nul), fun nul => free (collides_of_nul_address nul),
      ?_, ?_⟩
    · by_contra some
      exact free (collides_of_entries (.inl some))
    · by_contra some
      exact free (collides_of_entries (.inr some))
  · rintro ⟨nodeId, address, labels, annotations⟩ other differ same
    exact differ (hashedFields_of_unambiguous ⟨nodeId, address, labels, annotations⟩ same)

/-- A label moved to the annotations. -/
theorem registerBytes_label_as_annotation :
    let register := MemberRegister.new "n1" "10.0.0.1:7000" 1 0
    let entry := (∅ : StringMap).insert "zone" "a"
    let labelled := { register with labels := entry }
    let annotated := { register with annotations := entry }
    labelled.hashedFields ≠ annotated.hashedFields ∧
      registerBytes labelled = registerBytes annotated := by
  intro register entry labelled annotated
  constructor
  · intro same
    exact Std.ExtTreeMap.insert_ne_empty (congrArg HashedFields.labels same)
  · rw [registerBytes_eq, registerBytes_eq, trailer, trailer]
    have labels : entryBytes labelled.labels ++ entryBytes labelled.annotations = entryBytes entry := by
      show entryBytes entry ++ entryBytes ∅ = entryBytes entry
      rw [entryBytes_empty, List.append_nil]
    have annotations : entryBytes annotated.labels ++ entryBytes annotated.annotations =
        entryBytes entry := by
      show entryBytes ∅ ++ entryBytes entry = entryBytes entry
      rw [entryBytes_empty, List.nil_append]
    rw [labels, annotations]

end Lycoris.Cluster
