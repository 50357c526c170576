import Mathlib

/-!
The postcard wire format: numbers as varints of seven bits a byte, signed ones in zigzag, fixed byte
arrays as they are, byte vectors behind their length, variants by their index. A `Format` carries
the proof that what it writes is read back, whatever follows; formats of records are put together
from those of their fields.
-/

namespace Lycoris.Lib

/-! ### Varints -/

def varint (n : Nat) : List UInt8 :=
  if n < 128 then [UInt8.ofNat n] else UInt8.ofNat (n % 128 + 128) :: varint (n / 128)

/-- The bytes that a number of the given width may take. -/
def varintMax (bits : Nat) : Nat := (bits + 6) / 7

/-- What the last of these bytes has left to hold. -/
def maxOfLastByte (bits : Nat) : Nat := 2 ^ (bits % 7) - 1

/-- Reads a number with `left` bytes to go. Longer spellings than the shortest are accepted. -/
def takeVarint (bits : Nat) : Nat → List UInt8 → Option (Nat × List UInt8)
  | 0, _ => none
  | _ + 1, [] => none
  | left + 1, byte :: rest =>
    if byte.toNat < 128 then
      if left = 0 ∧ byte.toNat > maxOfLastByte bits then none else some (byte.toNat, rest)
    else (takeVarint bits left rest).map fun taken => (byte.toNat - 128 + 128 * taken.1, taken.2)

theorem toNat_ofNat_byte {n : Nat} (small : n < 256) : (UInt8.ofNat n).toNat = n :=
  UInt8.toNat_ofNat_of_lt' small

theorem takeVarint_varint (bits left : Nat) {n : Nat} (fits : n < 128 ^ left * 2 ^ (bits % 7))
    (rest : List UInt8) : takeVarint bits (left + 1) (varint n ++ rest) = some (n, rest) := by
  have spare : 2 ^ (bits % 7) ≤ 64 := by
    have short : bits % 7 ≤ 6 := by omega
    exact Nat.pow_le_pow_right (by omega) short
  have positive : 0 < 2 ^ (bits % 7) := Nat.two_pow_pos _
  induction left generalizing n with
  | zero =>
    rw [Nat.pow_zero, Nat.one_mul] at fits
    rw [varint, if_pos (by omega), List.singleton_append, takeVarint, toNat_ofNat_byte (by omega),
      if_pos (by omega), if_neg]
    unfold maxOfLastByte
    omega
  | succ left ih =>
    rw [varint]
    split
    · rename_i small
      rw [List.singleton_append, takeVarint, toNat_ofNat_byte (by omega), if_pos small, if_neg (by omega)]
    · have rest' : n / 128 < 128 ^ left * 2 ^ (bits % 7) := by
        rw [Nat.div_lt_iff_lt_mul (by omega)]
        rw [Nat.pow_succ] at fits
        calc n < 128 ^ left * 128 * 2 ^ (bits % 7) := fits
          _ = 128 ^ left * 2 ^ (bits % 7) * 128 := by ring
      rw [List.cons_append, takeVarint, toNat_ofNat_byte (by omega), if_neg (by omega), ih rest',
        Option.map_some]
      congr 2
      omega

theorem takeVarint_lt {bits left : Nat} {bytes rest : List UInt8} {n : Nat}
    (taken : takeVarint bits (left + 1) bytes = some (n, rest)) :
    n < 128 ^ left * 2 ^ (bits % 7) ∧ rest.length ≤ bytes.length := by
  induction left generalizing bytes n with
  | zero =>
    cases bytes with
    | nil => cases taken
    | cons byte tail =>
      rw [takeVarint] at taken
      split at taken
      · split at taken
        · cases taken
        · rename_i fits
          obtain ⟨rfl, rfl⟩ := Prod.mk.inj (Option.some.inj taken)
          have positive : 0 < 2 ^ (bits % 7) := Nat.two_pow_pos _
          unfold maxOfLastByte at fits
          rw [Nat.pow_zero, Nat.one_mul, List.length_cons]
          omega
      · rw [takeVarint] at taken
        cases taken
  | succ left ih =>
    cases bytes with
    | nil => cases taken
    | cons byte tail =>
      have wide : 128 ≤ 128 ^ (left + 1) * 2 ^ (bits % 7) := by
        calc 128 = 128 ^ 1 * 1 := by norm_num
          _ ≤ 128 ^ (left + 1) * 2 ^ (bits % 7) :=
            Nat.mul_le_mul (Nat.pow_le_pow_right (by omega) (by omega)) (Nat.two_pow_pos _)
      rw [takeVarint] at taken
      split at taken
      · split at taken
        · cases taken
        · obtain ⟨rfl, rfl⟩ := Prod.mk.inj (Option.some.inj taken)
          rw [List.length_cons]
          omega
      · obtain ⟨⟨m, back⟩, inner, same⟩ := Option.map_eq_some_iff.mp taken
        obtain ⟨rfl, rfl⟩ := Prod.mk.inj same
        obtain ⟨less, shorter⟩ := ih inner
        have byte' := byte.toNat_lt
        have scaled : 128 ^ (left + 1) * 2 ^ (bits % 7) = 128 * (128 ^ left * 2 ^ (bits % 7)) := by
          rw [Nat.pow_succ]
          ring
        dsimp only at shorter ⊢
        rw [List.length_cons]
        omega

theorem length_varint_le (k : Nat) {n : Nat} (small : n < 128 ^ (k + 1)) : (varint n).length ≤ k + 1 := by
  induction k generalizing n with
  | zero =>
    rw [varint, if_pos (by simpa using small)]
    simp
  | succ k ih =>
    rw [varint]
    split
    · simp
    · have less : n / 128 < 128 ^ (k + 1) := by
        rw [Nat.div_lt_iff_lt_mul (by omega)]
        exact small
      have short := ih less
      rw [List.length_cons]
      omega

theorem lt_of_varint (n : Nat) : n < 128 ^ (varint n).length := by
  induction n using varint.induct with
  | case1 n small =>
    rw [varint, if_pos small]
    exact small
  | case2 n large ih =>
    rw [varint, if_neg large, List.length_cons, Nat.pow_succ]
    exact (Nat.div_lt_iff_lt_mul (by omega)).mp ih

/-- The bytes of a width hold exactly the numbers of that width. -/
theorem varintMax_holds {bits : Nat} (uneven : bits % 7 ≠ 0) :
    ∃ left, varintMax bits = left + 1 ∧ 128 ^ left * 2 ^ (bits % 7) = 2 ^ bits := by
  refine ⟨bits / 7, by unfold varintMax; omega, ?_⟩
  have seven : (128 : Nat) = 2 ^ 7 := by norm_num
  rw [seven, ← Nat.pow_mul, ← Nat.pow_add, Nat.div_add_mod]

/-! ### Zigzag -/

/-- Signed numbers in the order 0, -1, 1, -2. -/
def zigzag (n : Int) : Nat := if 0 ≤ n then (2 * n).toNat else (-2 * n - 1).toNat

def unzigzag (n : Nat) : Int := if n % 2 = 0 then (n / 2 : Nat) else -((n / 2 : Nat) : Int) - 1

theorem unzigzag_zigzag (n : Int) : unzigzag (zigzag n) = n := by
  unfold zigzag unzigzag
  split
  · rw [if_pos (by omega)]
    omega
  · rw [if_neg (by omega)]
    omega

theorem zigzag_unzigzag (n : Nat) : zigzag (unzigzag n) = n := by
  unfold zigzag unzigzag
  split
  · rw [if_pos (by omega)]
    omega
  · rw [if_neg (by omega)]
    omega

theorem zigzag_lt_iff {bits : Nat} {n : Int} :
    zigzag n < 2 ^ (bits + 1) ↔ -(2 ^ bits : Int) ≤ n ∧ n < 2 ^ bits := by
  have twice : (2 : Nat) ^ (bits + 1) = 2 * 2 ^ bits := Nat.pow_succ'
  have cast : ((2 ^ bits : Nat) : Int) = 2 ^ bits := by push_cast; rfl
  unfold zigzag
  split
  · omega
  · omega

/-! ### Byte arrays as numbers -/

/-- The number a byte array spells, most significant byte first. -/
def spelled (bytes : List UInt8) : Nat := bytes.foldl (fun value byte => value * 256 + byte.toNat) 0

def spell : Nat → Nat → List UInt8
  | 0, _ => []
  | size + 1, n => spell size (n / 256) ++ [UInt8.ofNat n]

theorem spelled_snoc (bytes : List UInt8) (byte : UInt8) :
    spelled (bytes ++ [byte]) = spelled bytes * 256 + byte.toNat := by
  rw [spelled, List.foldl_append]
  rfl

@[simp] theorem length_spell (size n : Nat) : (spell size n).length = size := by
  induction size generalizing n with
  | zero => rfl
  | succ size ih => rw [spell, List.length_append, ih, List.length_singleton]

theorem spelled_spell {size n : Nat} (fits : n < 256 ^ size) : spelled (spell size n) = n := by
  induction size generalizing n with
  | zero =>
    rw [Nat.pow_zero] at fits
    have zero : n = 0 := by omega
    rw [zero]
    rfl
  | succ size ih =>
    have high : n / 256 < 256 ^ size := by
      rw [Nat.div_lt_iff_lt_mul (by omega)]
      exact fits
    rw [spell, spelled_snoc, ih high, UInt8.toNat_ofNat']
    omega

theorem spell_spelled (bytes : List UInt8) : spell bytes.length (spelled bytes) = bytes := by
  induction bytes using List.reverseRecOn with
  | nil => rfl
  | append_singleton front last ih =>
    have small := last.toNat_lt
    have high : (spelled front * 256 + last.toNat) / 256 = spelled front := by omega
    have low : UInt8.ofNat (spelled front * 256 + last.toNat) = last := by
      apply UInt8.toNat_inj.mp
      rw [UInt8.toNat_ofNat']
      omega
    rw [List.length_append, List.length_singleton, spell, spelled_snoc, high, ih, low]

theorem spelled_lt (bytes : List UInt8) : spelled bytes < 256 ^ bytes.length := by
  induction bytes using List.reverseRecOn with
  | nil => exact Nat.one_pos
  | append_singleton front last ih =>
    have small := last.toNat_lt
    rw [spelled_snoc, List.length_append, List.length_singleton, Nat.pow_succ]
    omega

/-! ### Formats -/

/-- A writer and a reader of one type. The reader takes a value off the front. -/
structure Format (α : Type) where
  Valid : α → Prop
  write : α → List UInt8
  read : List UInt8 → Option (α × List UInt8)
  read_write : ∀ {a}, Valid a → ∀ rest, read (write a ++ rest) = some (a, rest)
  valid : ∀ {bytes a rest}, read bytes = some (a, rest) → Valid a
  shrinks : ∀ {bytes a rest}, read bytes = some (a, rest) → rest.length ≤ bytes.length

namespace Format

variable {α β : Type}

def byte : Format UInt8 where
  Valid _ := True
  write value := [value]
  read
    | [] => none
    | value :: rest => some (value, rest)
  read_write _ _ := rfl
  valid _ := trivial
  shrinks := by
    intro bytes value rest taken
    cases bytes with
    | nil => cases taken
    | cons first tail =>
      obtain ⟨rfl, rfl⟩ := Prod.mk.inj (Option.some.inj taken)
      simp

/-- An unsigned number of a given width. -/
def number (bits : Nat) (uneven : bits % 7 ≠ 0) : Format Nat where
  Valid n := n < 2 ^ bits
  write := varint
  read := takeVarint bits (varintMax bits)
  read_write := by
    intro n small rest
    obtain ⟨left, bytes, holds⟩ := varintMax_holds uneven
    rw [← holds] at small
    rw [bytes]
    exact takeVarint_varint bits left small rest
  valid := by
    intro bytes n rest taken
    obtain ⟨left, count, holds⟩ := varintMax_holds uneven
    rw [count] at taken
    rw [← holds]
    exact (takeVarint_lt taken).1
  shrinks := by
    intro bytes n rest taken
    obtain ⟨left, count, _⟩ := varintMax_holds uneven
    rw [count] at taken
    exact (takeVarint_lt taken).2

theorem uneven64 : 64 % 7 ≠ 0 := by omega

/-- A fixed number of bytes. -/
def fixed (size : Nat) : Format (List UInt8) where
  Valid bytes := bytes.length = size
  write bytes := bytes
  read bytes := if bytes.length < size then none else some (bytes.take size, bytes.drop size)
  read_write := by
    rintro bytes rfl rest
    rw [if_neg (by rw [List.length_append]; omega), List.take_left, List.drop_left]
  valid := by
    intro bytes front rest taken
    split at taken
    · cases taken
    · rename_i enough
      obtain ⟨rfl, _⟩ := Prod.mk.inj (Option.some.inj taken)
      exact List.length_take_of_le (not_lt.mp enough)
  shrinks := by
    intro bytes front rest taken
    split at taken
    · cases taken
    · obtain ⟨_, rfl⟩ := Prod.mk.inj (Option.some.inj taken)
      rw [List.length_drop]
      omega

/-- One value after the other. -/
def pair (first : Format α) (second : Format β) : Format (α × β) where
  Valid both := first.Valid both.1 ∧ second.Valid both.2
  write both := first.write both.1 ++ second.write both.2
  read bytes := (first.read bytes).bind fun a => (second.read a.2).map fun b => ((a.1, b.1), b.2)
  read_write := by
    rintro both ⟨here, there⟩ rest
    rw [List.append_assoc, first.read_write here, Option.bind_some, second.read_write there, Option.map_some]
  valid := by
    intro bytes both rest taken
    obtain ⟨a, here, taken⟩ := Option.bind_eq_some_iff.mp taken
    obtain ⟨b, there, same⟩ := Option.map_eq_some_iff.mp taken
    obtain ⟨rfl, _⟩ := Prod.mk.inj same
    exact ⟨first.valid here, second.valid there⟩
  shrinks := by
    intro bytes both rest taken
    obtain ⟨a, here, taken⟩ := Option.bind_eq_some_iff.mp taken
    obtain ⟨b, there, same⟩ := Option.map_eq_some_iff.mp taken
    obtain ⟨_, rfl⟩ := Prod.mk.inj same
    exact le_trans (second.shrinks there) (first.shrinks here)

/-- A type written as another one. Some values of that one may stand for nothing. -/
def via (format : Format α) (encode : β → α) (decode : α → Option β)
    (back : ∀ b, decode (encode b) = some b) (forth : ∀ a b, decode a = some b → encode b = a) :
    Format β where
  Valid b := format.Valid (encode b)
  write b := format.write (encode b)
  read bytes := (format.read bytes).bind fun a => (decode a.1).map fun b => (b, a.2)
  read_write := by
    intro b valid rest
    rw [format.read_write valid, Option.bind_some, back, Option.map_some]
  valid := by
    intro bytes b rest taken
    obtain ⟨a, read, taken⟩ := Option.bind_eq_some_iff.mp taken
    obtain ⟨b', decoded, same⟩ := Option.map_eq_some_iff.mp taken
    obtain ⟨rfl, _⟩ := Prod.mk.inj same
    rw [forth _ _ decoded]
    exact format.valid read
  shrinks := by
    intro bytes b rest taken
    obtain ⟨a, read, taken⟩ := Option.bind_eq_some_iff.mp taken
    obtain ⟨b', _, same⟩ := Option.map_eq_some_iff.mp taken
    obtain ⟨_, rfl⟩ := Prod.mk.inj same
    exact format.shrinks read

/-- A record written as its fields. -/
def record (fields : Format α) (equiv : β ≃ α) : Format β :=
  fields.via equiv (fun a => some (equiv.symm a)) (fun b => by rw [equiv.symm_apply_apply])
    (fun a b same => by rw [← Option.some.inj same, equiv.apply_symm_apply])

/-- A signed number of a given width. -/
def signed (bits : Nat) (uneven : bits % 7 ≠ 0) : Format Int :=
  (number bits uneven).via zigzag (fun n => some (unzigzag n)) (fun n => by rw [unzigzag_zigzag])
    (fun n m same => by rw [← Option.some.inj same, zigzag_unzigzag])

/-- An array of bytes as the number it spells. -/
def array (size : Nat) : Format (BitVec (8 * size)) :=
  (fixed size).via (fun value => spell size value.toNat)
    (fun bytes => if bytes.length = size then some (BitVec.ofNat (8 * size) (spelled bytes)) else none)
    (fun value => by
      have fits : value.toNat < 256 ^ size := by
        have width : (256 : Nat) = 2 ^ 8 := by norm_num
        rw [width, ← Nat.pow_mul]
        exact value.isLt
      rw [if_pos (length_spell size _), spelled_spell fits, BitVec.ofNat_toNat, BitVec.setWidth_eq])
    (fun bytes value decoded => by
      split at decoded
      · rename_i same
        subst same
        have fits : spelled bytes < 2 ^ (8 * bytes.length) := by
          rw [Nat.pow_mul]
          exact spelled_lt bytes
        rw [← Option.some.inj decoded, BitVec.toNat_ofNat, Nat.mod_eq_of_lt fits]
        exact spell_spelled bytes
      · cases decoded)

theorem length_array (size : Nat) (value : BitVec (8 * size)) : ((array size).write value).length = size :=
  length_spell size _

theorem array_valid (size : Nat) (value : BitVec (8 * size)) : (array size).Valid value :=
  length_spell size _

/-- A byte vector behind its length. -/
def bytes : Format (List UInt8) where
  Valid content := content.length < 2 ^ 64
  write content := varint content.length ++ content
  read input := ((number 64 uneven64).read input).bind fun size =>
    if size.2.length < size.1 then none else some (size.2.take size.1, size.2.drop size.1)
  read_write := by
    intro content short rest
    have size := (number 64 uneven64).read_write short (content ++ rest)
    have written : (number 64 uneven64).write content.length = varint content.length := rfl
    rw [written] at size
    rw [List.append_assoc, size, Option.bind_some, if_neg (by rw [List.length_append]; omega),
      List.take_left, List.drop_left]
  valid := by
    intro input content rest taken
    obtain ⟨size, read, taken⟩ := Option.bind_eq_some_iff.mp taken
    split at taken
    · cases taken
    · rename_i enough
      obtain ⟨rfl, _⟩ := Prod.mk.inj (Option.some.inj taken)
      rw [List.length_take_of_le (not_lt.mp enough)]
      exact (number 64 uneven64).valid read
  shrinks := by
    intro input content rest taken
    obtain ⟨size, read, taken⟩ := Option.bind_eq_some_iff.mp taken
    split at taken
    · cases taken
    · obtain ⟨_, rfl⟩ := Prod.mk.inj (Option.some.inj taken)
      have shorter := (number 64 uneven64).shrinks read
      rw [List.length_drop]
      omega

/-- A byte vector is no longer than what it was read from. -/
theorem length_bytes_le {input content rest : List UInt8} (taken : bytes.read input = some (content, rest)) :
    content.length ≤ input.length := by
  obtain ⟨size, read, taken⟩ := Option.bind_eq_some_iff.mp taken
  split at taken
  · cases taken
  · rename_i enough
    obtain ⟨rfl, _⟩ := Prod.mk.inj (Option.some.inj taken)
    have shorter := (number 64 uneven64).shrinks read
    rw [List.length_take]
    omega

end Format

end Lycoris.Lib
