import Mathlib

/-!
JSON documents and the typed readers over them. A document keeps the fields of an object in the order of the
text, repetitions included. A record is read from an object by field names or from an array by positions, as
derived readers do: unknown fields are skipped, a field given twice or an item too many is an error.
-/

namespace Lycoris.Lib

/-- Integers of 64 bits are told apart from all other numbers. -/
inductive JsonNumber where
  | unsigned (value : UInt64)
  | negative (value : Int)
  | float (text : String)
  deriving DecidableEq

inductive Json where
  | null
  | bool (value : Bool)
  | number (value : JsonNumber)
  | string (text : String)
  | array (items : List Json)
  | object (fields : List (String × Json))

/-- Text to document and back. A text that does not read is told why. -/
structure JsonCodec where
  parse : String → Option Json
  print : Json → String
  complaint : String → String

/-- The document is read back from its own text. -/
def JsonCodec.Reads (codec : JsonCodec) (document : Json) : Prop :=
  codec.parse (codec.print document) = some document

namespace Json

variable {T : Type}

/-! ### Readers -/

def asString : Json → Option String
  | .string text => some text
  | _ => none

def asU32 : Json → Option UInt32
  | .number (.unsigned value) => if value.toNat < 2 ^ 32 then some value.toUInt32 else none
  | _ => none

def asU16 : Json → Option UInt16
  | .number (.unsigned value) => if value.toNat < 2 ^ 16 then some value.toUInt16 else none
  | _ => none

def asList (read : Json → Option T) : Json → Option (List T)
  | .array items => items.mapM read
  | _ => none

def asOption (read : Json → Option T) : Json → Option (Option T)
  | .null => some none
  | value => (read value).map some

def ofU32 (value : UInt32) : Json := .number (.unsigned value.toUInt64)

def ofU16 (value : UInt16) : Json := .number (.unsigned value.toUInt64)

/-- What a record reader finds for one of its fields. -/
inductive Member where
  | found (value : Json)
  /-- No field of the object has the name. -/
  | absent
  /-- The array has ended. -/
  | short

def memberNamed (fields : List (String × Json)) (name : String) : Option Member :=
  match fields.filter fun field => field.1 = name with
  | [] => some .absent
  | [field] => some (.found field.2)
  | _ => none

/-- The members of a record under the given names, in their order. -/
def members (names : List String) : Json → Option (List Member)
  | .object fields => names.mapM (memberNamed fields)
  | .array items =>
    if items.length ≤ names.length then
      some (items.map .found ++ List.replicate (names.length - items.length) .short)
    else none
  | _ => none

namespace Member

def required (read : Json → Option T) : Member → Option T
  | .found value => read value
  | _ => none

def orDefault (read : Json → Option T) (default : T) : Member → Option T
  | .found value => read value
  | _ => some default

/-- An optional field without a default may be absent from an object. -/
def optional (read : Json → Option T) : Member → Option (Option T)
  | .found value => asOption read value
  | .absent => some none
  | .short => none

end Member

/-! ### What is written reads back -/

@[simp] theorem asString_string (text : String) : asString (.string text) = some text := rfl

@[simp] theorem asU32_ofU32 (value : UInt32) : asU32 (ofU32 value) = some value := by
  simpa [asU32, ofU32] using value.toNat_lt

@[simp] theorem asU16_ofU16 (value : UInt16) : asU16 (ofU16 value) = some value := by
  simpa [asU16, ofU16] using value.toNat_lt

theorem asOption_ofU16 (value : UInt16) : asOption asU16 (ofU16 value) = some (some value) :=
  congrArg (Option.map some) (asU16_ofU16 value)

theorem asOption_string (text : String) : asOption asString (.string text) = some (some text) := rfl

/-- A list is read item by item. -/
theorem asList_map {S : Type} (read : Json → Option T) (write : S → Json) (items : List S) :
    asList read (.array (items.map write)) = items.mapM fun item => read (write item) :=
  List.mapM_map

/-- The values read stand for the items, one by one. -/
theorem forall₂_of_mapM {S : Type} {read : S → Option T} {items : List S} {values : List T}
    (all : items.mapM read = some values) :
    List.Forall₂ (fun item value => read item = some value) items values := by
  induction items generalizing values with
  | nil =>
    cases all
    exact .nil
  | cons item rest ih =>
    rw [List.mapM_cons] at all
    obtain ⟨value, first, others⟩ := Option.bind_eq_some_iff.mp all
    obtain ⟨later, rest', last⟩ := Option.bind_eq_some_iff.mp others
    cases last
    exact .cons first (ih rest')

theorem exists_mapM {S : Type} {read : S → Option T} {items : List S} :
    (∃ values, items.mapM read = some values) ↔ ∀ item ∈ items, ∃ value, read item = some value := by
  induction items with
  | nil => simp
  | cons item rest ih =>
    rw [List.forall_mem_cons, ← ih]
    constructor
    · rintro ⟨values, all⟩
      rw [List.mapM_cons] at all
      obtain ⟨value, first, others⟩ := Option.bind_eq_some_iff.mp all
      obtain ⟨later, rest', _⟩ := Option.bind_eq_some_iff.mp others
      exact ⟨⟨value, first⟩, later, rest'⟩
    · rintro ⟨⟨value, first⟩, later, rest'⟩
      exact ⟨value :: later, by simp [first, rest']⟩

end Json

end Lycoris.Lib
