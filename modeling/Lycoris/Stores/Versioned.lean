import Lycoris.Lib.Register
import Lycoris.Cluster.Merkle

/-!
Versioned records and the rules all resource kinds share (`storage/src/versioned.rs`,
`storage/src/resource_id.rs`). The conflict check is a strict comparison of stamps between cluster-shared
records.
-/

namespace Lycoris.Stores
open Lib Cluster

inductive ResourceScope where
  | nodeLocal
  | clusterShared
  deriving DecidableEq

/-! ### Content -/

/-- `str::as_bytes`. -/
def asBytes (text : String) : Bytes := text.toUTF8.data.toList

/-- `std::fs::read_to_string` of a file with these bytes. -/
def readToString (bytes : Bytes) : Option String := String.fromUTF8? ⟨bytes.toArray⟩

theorem readToString_asBytes (text : String) : readToString (asBytes text) = some text := by
  have same : (⟨(asBytes text).toArray⟩ : ByteArray) = text.toUTF8 := by simp [asBytes]
  rw [readToString, same, String.fromUTF8?, String.toUTF8_eq_toByteArray, dif_pos text.isValidUTF8]
  rfl

theorem asBytes_injective : Function.Injective asBytes := by
  intro text other same
  have read := readToString_asBytes text
  rw [same, readToString_asBytes] at read
  exact (Option.some.inj read).symm

theorem asBytes_eq_nil {text : String} : asBytes text = [] ↔ text = "" := by
  constructor
  · intro nothing
    have empty : asBytes "" = [] := rfl
    exact asBytes_injective (nothing.trans empty.symm)
  · rintro rfl
    rfl

/-- `to_hex` of a digest. -/
def toHex (hash : Hash) : String :=
  String.ofList (hash.toList.flatMap fun byte => [(byte.toNat / 16).digitChar, (byte.toNat % 16).digitChar])

def hashContent (blake3 : Bytes → Hash) (content : Bytes) : String := toHex (blake3 content)

/-- `verify_content_hash`, which fails with `ContentHashMismatch`. -/
def verifyContentHash (actualHash expectedHash : String) : Bool := actualHash = expectedHash

/-! ### Resource ids -/

def containsDoubleDot : List Char → Bool
  | '.' :: '.' :: _ => true
  | _ :: rest => containsDoubleDot rest
  | [] => false

structure InvalidResourceId where
  id : String
  deriving DecidableEq

/-- The check before an id becomes a file name. -/
def validate (id : String) : Except InvalidResourceId Unit :=
  if !id.isEmpty && id.toList.head? != some '.' && !containsDoubleDot id.toList &&
      id.toList.all fun ch => ch.isAlphanum || ch == '-' || ch == '_' || ch == '.'
  then .ok ()
  else .error ⟨id⟩

/-! ### The conflict check -/

/-- The fields every resource kind is compared by. -/
class VersionedRecord (R : Type) where
  version : R → UInt64
  updatedAtMs : R → Int
  contentHash : R → String
  scope : R → ResourceScope

open VersionedRecord

variable {R : Type} [VersionedRecord R]

def shouldApplyVersioned (held : Option R) (remote : R) : Bool :=
  if scope remote ≠ .clusterShared then false
  else match held with
    | none => true
    | some stored =>
      if scope stored = .nodeLocal then false
      else if version remote ≠ version stored then version stored < version remote
      else if updatedAtMs remote ≠ updatedAtMs stored then updatedAtMs stored < updatedAtMs remote
      else contentHash stored < contentHash remote

abbrev Stamp := ℕ ×ₗ ℤ ×ₗ String

/-- The version, the update time and the content hash, in the order of the comparison. -/
def stamp (record : R) : Stamp :=
  toLex ((version record).toNat, toLex (updatedAtMs record, contentHash record))

theorem stamp_lt {record other : R} :
    stamp record < stamp other ↔ version record < version other ∨ version record = version other ∧
      (updatedAtMs record < updatedAtMs other ∨ updatedAtMs record = updatedAtMs other ∧
        contentHash record < contentHash other) := by
  simp only [stamp, Prod.Lex.toLex_lt_toLex, UInt64.lt_iff_toNat_lt, UInt64.toNat_inj]

theorem stamp_inj {record other : R} :
    stamp record = stamp other ↔ version record = version other ∧
      updatedAtMs record = updatedAtMs other ∧ contentHash record = contentHash other := by
  simp only [stamp, EmbeddingLike.apply_eq_iff_eq, Prod.mk.injEq, UInt64.toNat_inj]

theorem shouldApplyVersioned_none {remote : R} :
    shouldApplyVersioned none remote = true ↔ scope remote = .clusterShared := by
  unfold shouldApplyVersioned
  split
  · rename_i unshared
    exact ⟨fun h => absurd h (by decide), fun shared => absurd shared unshared⟩
  · rename_i shared
    exact ⟨fun _ => not_not.mp shared, fun _ => rfl⟩

theorem shouldApplyVersioned_some {stored remote : R} :
    shouldApplyVersioned (some stored) remote = true ↔
      scope remote = .clusterShared ∧ scope stored = .clusterShared ∧ stamp stored < stamp remote := by
  rw [stamp_lt]
  have notLocal : scope stored = .clusterShared ↔ ¬ scope stored = .nodeLocal := by
    cases scope stored <;> decide
  unfold shouldApplyVersioned
  by_cases shared : scope remote = .clusterShared
  · by_cases isLocal : scope stored = .nodeLocal
    · simp [shared, isLocal]
    · by_cases versions : version remote = version stored
      · by_cases times : updatedAtMs remote = updatedAtMs stored
        · simp [shared, isLocal, notLocal, versions, times]
        · have times' : updatedAtMs stored ≠ updatedAtMs remote := fun same => times same.symm
          simp [shared, isLocal, notLocal, versions, times, times']
      · have versions' : version stored ≠ version remote := fun same => versions same.symm
        simp [shared, isLocal, notLocal, versions, versions']
  · simp [shared]

theorem shouldApplyVersioned_unshared (held : Option R) {remote : R}
    (unshared : scope remote ≠ .clusterShared) : shouldApplyVersioned held remote = false :=
  if_pos unshared

theorem shouldApplyVersioned_local {stored : R} (remote : R) (isLocal : scope stored = .nodeLocal) :
    shouldApplyVersioned (some stored) remote = false := by
  rw [Bool.eq_false_iff]
  intro wins
  obtain ⟨-, shared, -⟩ := shouldApplyVersioned_some.mp wins
  rw [isLocal] at shared
  cases shared

end Lycoris.Stores
