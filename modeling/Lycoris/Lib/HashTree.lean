import Mathlib

/-!
Complete binary hash trees over numbered leaves, and loops that fill a vector index by index.
A vector is the function that reads it.
-/

namespace Lycoris.Lib

variable {H : Type}

/-! ### Subtrees -/

/-- The value of the subtree of a given height whose leaves start at `index * 2 ^ height`. -/
def subtree (inner : H → H → H) (leaf : Nat → H) : Nat → Nat → H
  | 0, index => leaf index
  | height + 1, index =>
    inner (subtree inner leaf height (2 * index)) (subtree inner leaf height (2 * index + 1))

variable {inner : H → H → H} {leaf leaf' : Nat → H}

/-- The leaves under a node are those under its left child and those under its right child. -/
theorem leaf_split {height index position : Nat} (below : position / 2 ^ (height + 1) = index) :
    position / 2 ^ height = 2 * index ∨ position / 2 ^ height = 2 * index + 1 := by
  have halved : position / 2 ^ height / 2 = index := by
    rw [Nat.div_div_eq_div_mul, ← Nat.pow_succ]
    exact below
  omega

theorem leaf_below {height index position : Nat}
    (below : position / 2 ^ height = 2 * index ∨ position / 2 ^ height = 2 * index + 1) :
    position / 2 ^ (height + 1) = index := by
  rw [Nat.pow_succ, ← Nat.div_div_eq_div_mul]
  omega

/-- Equal subtrees have equal leaves when `inner` tells the nodes of both trees apart. -/
theorem leaf_eq_of_subtree_eq {top : Nat}
    (apart : ∀ height < top, ∀ index < 2 ^ (top - (height + 1)),
      subtree inner leaf (height + 1) index = subtree inner leaf' (height + 1) index →
      subtree inner leaf height (2 * index) = subtree inner leaf' height (2 * index) ∧
        subtree inner leaf height (2 * index + 1) = subtree inner leaf' height (2 * index + 1))
    {height index : Nat} (within : height ≤ top) (inRange : index < 2 ^ (top - height))
    (same : subtree inner leaf height index = subtree inner leaf' height index)
    {position : Nat} (below : position / 2 ^ height = index) : leaf position = leaf' position := by
  induction height generalizing index with
  | zero =>
    have here : position = index := by simpa using below
    rw [here]
    exact same
  | succ height ih =>
    obtain ⟨left, right⟩ := apart height (by omega) index inRange same
    have wider : 2 ^ (top - height) = 2 * 2 ^ (top - (height + 1)) := by
      rw [← Nat.pow_succ']
      congr 1
      omega
    rcases leaf_split below with inLeft | inRight
    · exact ih (by omega) (by omega) left inLeft
    · exact ih (by omega) (by omega) right inRight

/-- The subtree over equal leaves, of any height. -/
def uniform (inner : H → H → H) (value : H) : Nat → H
  | 0 => value
  | height + 1 => inner (uniform inner value height) (uniform inner value height)

theorem subtree_uniform (value : H) (height index : Nat) :
    subtree inner (fun _ => value) height index = uniform inner value height := by
  induction height generalizing index with
  | zero => rfl
  | succ height ih => rw [subtree, uniform, ih, ih]

/-! ### Index loops -/

variable {step : (Nat → H) → Nat → Option H} {slot : Nat → Nat}

/-- One turn of a loop over indices: writes the slot of its index, or leaves the vector alone. -/
def writeSlot (slot : Nat → Nat) (step : (Nat → H) → Nat → Option H) (nodes : Nat → H) (i : Nat) :
    Nat → H :=
  match step nodes i with
  | some value => Function.update nodes (slot i) value
  | none => nodes

theorem writeSlot_other (nodes : Nat → H) {i k : Nat} (other : slot i ≠ k) :
    writeSlot slot step nodes i k = nodes k := by
  unfold writeSlot
  cases step nodes i with
  | some value => exact Function.update_of_ne other.symm value nodes
  | none => rfl

theorem writeSlot_self (nodes : Nat → H) (i : Nat) :
    writeSlot slot step nodes i (slot i) = (step nodes i).getD (nodes (slot i)) := by
  unfold writeSlot
  cases step nodes i with
  | some value => exact Function.update_self (slot i) value nodes
  | none => rfl

theorem foldl_writeSlot_other (nodes : Nat → H) {n k : Nat} (other : ∀ i < n, slot i ≠ k) :
    (List.range n).foldl (writeSlot slot step) nodes k = nodes k := by
  induction n with
  | zero => rfl
  | succ n ih =>
    rw [List.range_succ, List.foldl_append, List.foldl_cons, List.foldl_nil,
      writeSlot_other _ (other n (by omega))]
    exact ih fun i less => other i (by omega)

/-- A loop whose turns write distinct slots and read none of them writes each slot from the vector
it started with. -/
theorem foldl_writeSlot_self (nodes : Nat → H) {n : Nat}
    (distinct : ∀ i < n, ∀ j < n, slot i = slot j → i = j)
    (reads : ∀ (before : Nat → H), (∀ k, (∀ j < n, slot j ≠ k) → before k = nodes k) →
      ∀ i < n, step before i = step nodes i) {i : Nat} (less : i < n) :
    (List.range n).foldl (writeSlot slot step) nodes (slot i) =
      (step nodes i).getD (nodes (slot i)) := by
  have prefixes : ∀ m ≤ n, i < m →
      (List.range m).foldl (writeSlot slot step) nodes (slot i) =
        (step nodes i).getD (nodes (slot i)) := by
    intro m bound
    induction m with
    | zero => exact fun impossible => absurd impossible (Nat.not_lt_zero i)
    | succ m ih =>
      intro inside
      rw [List.range_succ, List.foldl_append, List.foldl_cons, List.foldl_nil]
      by_cases last : i = m
      · subst last
        rw [writeSlot_self, foldl_writeSlot_other nodes]
        · rw [reads _ (fun k untouched => foldl_writeSlot_other nodes fun j small =>
            untouched j (by omega)) i less]
        · intro j small same
          have equal := distinct j (by omega) i less same
          omega
      · rw [writeSlot_other _ fun same => last (distinct m (by omega) i less same).symm]
        exact ih (by omega) (by omega)
  exact prefixes n (Nat.le_refl n) less

end Lycoris.Lib
