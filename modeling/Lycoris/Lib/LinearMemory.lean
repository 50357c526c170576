import Mathlib

/-!
A byte-addressed memory with a bound on its size: slices, checked writes, and what a write leaves
alone.
-/

namespace Lycoris.Lib

structure LinearMemory (limit : Nat) where
  size : Nat
  byte : Nat → UInt8
  bounded : size ≤ limit

namespace LinearMemory

variable {limit : Nat}

/-- The bytes from `start` up to `stop`, if they lie inside. -/
def slice (memory : LinearMemory limit) (start stop : Nat) : Option (List UInt8) :=
  if start ≤ stop ∧ stop ≤ memory.size then
    some ((List.range (stop - start)).map fun i => memory.byte (start + i))
  else none

/-- Overwrites what stands at `offset`. -/
def put (memory : LinearMemory limit) (offset : Nat) (bytes : List UInt8) : LinearMemory limit :=
  { memory with byte := fun address =>
      if offset ≤ address then bytes[address - offset]?.getD (memory.byte address)
      else memory.byte address }

/-- A write that fails when the bytes do not fit. -/
def write (memory : LinearMemory limit) (offset : Nat) (bytes : List UInt8) :
    Option (LinearMemory limit) :=
  if offset + bytes.length ≤ memory.size then some (memory.put offset bytes) else none

/-- The bytes stand at `start`. -/
def Holds (memory : LinearMemory limit) (start : Nat) (bytes : List UInt8) : Prop :=
  memory.slice start (start + bytes.length) = some bytes

variable {memory : LinearMemory limit} {start offset : Nat} {bytes other : List UInt8}

@[simp] theorem size_put : (memory.put offset bytes).size = memory.size := rfl

theorem holds_iff : memory.Holds start bytes ↔ start + bytes.length ≤ memory.size ∧
    ∀ i (inside : i < bytes.length), memory.byte (start + i) = bytes[i] := by
  rw [Holds, slice]
  constructor
  · intro held
    split at held
    · next fits =>
      refine ⟨fits.2, fun i inside => ?_⟩
      have read := congrArg (fun found => found[i]?) (Option.some.inj held)
      simpa [List.getElem?_map, List.getElem?_range, inside] using read
    · cases held
  · rintro ⟨fits, same⟩
    rw [if_pos ⟨Nat.le_add_right _ _, fits⟩]
    refine congrArg some (List.ext_getElem (by simp) fun i _ inside => ?_)
    simpa using same i inside

theorem holds_put (fits : offset + bytes.length ≤ memory.size) :
    (memory.put offset bytes).Holds offset bytes := by
  refine holds_iff.mpr ⟨fits, fun i inside => ?_⟩
  simp [put, inside]

/-- Writing elsewhere leaves the bytes where they are. -/
theorem Holds.put (held : memory.Holds start bytes)
    (apart : start + bytes.length ≤ offset ∨ offset + other.length ≤ start) :
    (memory.put offset other).Holds start bytes := by
  obtain ⟨fits, same⟩ := holds_iff.mp held
  refine holds_iff.mpr ⟨fits, fun i inside => ?_⟩
  rw [← same i inside, LinearMemory.put]
  dsimp only
  split
  · next reached =>
    rw [List.getElem?_eq_none (by omega), Option.getD_none]
  · rfl

theorem Holds.take (held : memory.Holds start bytes) (n : Nat) : memory.Holds start (bytes.take n) := by
  obtain ⟨fits, same⟩ := holds_iff.mp held
  have short : (bytes.take n).length ≤ bytes.length := by simp
  refine holds_iff.mpr ⟨by omega, fun i inside => ?_⟩
  rw [List.getElem_take]
  exact same i (inside.trans_le short)

theorem write_eq_put (fits : offset + bytes.length ≤ memory.size) :
    memory.write offset bytes = some (memory.put offset bytes) := if_pos fits

theorem write_beyond (beyond : limit < offset) : memory.write offset bytes = none := by
  have bounded := memory.bounded
  exact if_neg (by omega)

end LinearMemory

end Lycoris.Lib
