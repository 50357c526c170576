import Mathlib

/-!
Ordered maps whose values carry their own key. `KeyedMap key` wraps the extensional tree map of
the standard library together with the fact that every value sits under `key value`, so a map is
determined by the set of its values and a value list never repeats.
-/

namespace Lycoris.Lib

set_option linter.unusedSectionVars false

variable {K V : Type} [Ord K] [Std.TransOrd K] [Std.LawfulEqOrd K]

/-- Any order in which a hash map may hand out its entries. -/
structure HashOrder (α : Type) where
  arrange : List α → List α
  perm : ∀ entries, (arrange entries).Perm entries

def HashOrder.sorted (α : Type) : HashOrder α := ⟨id, fun _ => List.Perm.refl _⟩

theorem HashOrder.mem_arrange {α : Type} (order : HashOrder α) {entries : List α} {entry : α} :
    entry ∈ order.arrange entries ↔ entry ∈ entries :=
  (order.perm entries).mem_iff

/-- What holds of the entries of a map and of a new one. -/
theorem forall_insert {map : Std.ExtTreeMap K V compare} {p : K → V → Prop} {key : K} {value : V}
    (all : ∀ k v, k ≠ key → map[k]? = some v → p k v) (new : p key value) :
    ∀ k v, (map.insert key value)[k]? = some v → p k v := by
  intro k v found
  rw [Std.ExtTreeMap.getElem?_insert] at found
  split at found
  · rename_i same
    cases found
    rw [← Std.LawfulEqOrd.compare_eq_iff_eq.mp same]
    exact new
  · rename_i apart
    refine all k v ?_ found
    rintro rfl
    exact apart Std.ReflCmp.compare_self

theorem forall_erase {map : Std.ExtTreeMap K V compare} {p : K → V → Prop} (all : ∀ k v, map[k]? = some v → p k v)
    (key : K) : ∀ k v, (map.erase key)[k]? = some v → p k v := by
  intro k v found
  rw [Std.ExtTreeMap.getElem?_erase] at found
  split at found
  · cases found
  · exact all k v found

theorem nodup_toList (map : Std.ExtTreeMap K V compare) : map.toList.Nodup :=
  Std.ExtTreeMap.distinct_keys_toList.imp fun apart same => apart (by rw [same]; exact Std.ReflCmp.compare_self)

theorem toList_insert_perm {map : Std.ExtTreeMap K V compare} {key : K} (fresh : map[key]? = none) (value : V) :
    (map.insert key value).toList.Perm ((key, value) :: map.toList) := by
  have absent : (key, value) ∉ map.toList := by
    rw [Std.ExtTreeMap.mem_toList_iff_getElem?_eq_some, fresh]
    exact Option.some_ne_none value |>.symm
  refine (List.perm_ext_iff_of_nodup (nodup_toList _) (List.nodup_cons.mpr ⟨absent, nodup_toList map⟩)).mpr ?_
  rintro ⟨k, v⟩
  rw [Std.ExtTreeMap.mem_toList_iff_getElem?_eq_some, Std.ExtTreeMap.getElem?_insert, List.mem_cons,
    Std.ExtTreeMap.mem_toList_iff_getElem?_eq_some]
  by_cases same : key = k
  · subst same
    simp [fresh, eq_comm]
  · rw [if_neg (mt Std.LawfulEqOrd.compare_eq_iff_eq.mp same)]
    simp [Ne.symm same]

theorem toList_erase_perm {map : Std.ExtTreeMap K V compare} {key : K} {value : V} (found : map[key]? = some value) :
    map.toList.Perm ((key, value) :: (map.erase key).toList) := by
  have fresh : (map.erase key)[key]? = none := by
    rw [Std.ExtTreeMap.getElem?_erase, if_pos Std.ReflCmp.compare_self]
  have back : (map.erase key).insert key value = map := by
    refine Std.ExtTreeMap.ext_getElem? fun k => ?_
    rw [Std.ExtTreeMap.getElem?_insert, Std.ExtTreeMap.getElem?_erase]
    split
    · rename_i same
      rw [← Std.LawfulEqOrd.compare_eq_iff_eq.mp same, found]
    · rfl
  have perm := toList_insert_perm fresh value
  rwa [back] at perm

structure KeyedMap (key : V → K) where
  map : Std.ExtTreeMap K V compare
  keyed : ∀ k v, map[k]? = some v → key v = k

namespace KeyedMap

variable {key : V → K}

def empty : KeyedMap key := ⟨∅, by simp⟩

def get? (m : KeyedMap key) (k : K) : Option V := m.map[k]?

def contains (m : KeyedMap key) (k : K) : Bool := (m.get? k).isSome

def insert (m : KeyedMap key) (v : V) : KeyedMap key where
  map := m.map.insert (key v) v
  keyed := by
    intro k w found
    rw [Std.ExtTreeMap.getElem?_insert] at found
    split at found
    · rename_i same
      cases found
      exact Std.LawfulEqOrd.compare_eq_iff_eq.mp same
    · exact m.keyed k w found

def erase (m : KeyedMap key) (k : K) : KeyedMap key where
  map := m.map.erase k
  keyed := by
    intro other w found
    rw [Std.ExtTreeMap.getElem?_erase] at found
    split at found
    · cases found
    · exact m.keyed other w found

def vals (m : KeyedMap key) : List V := m.map.toList.map Prod.snd

def size (m : KeyedMap key) : Nat := m.map.size

instance : Membership V (KeyedMap key) := ⟨fun m v => m.get? (key v) = some v⟩

instance [DecidableEq V] (m : KeyedMap key) (v : V) : Decidable (v ∈ m) :=
  inferInstanceAs (Decidable (m.get? (key v) = some v))

theorem mem_iff {m : KeyedMap key} {v : V} : v ∈ m ↔ m.get? (key v) = some v := Iff.rfl

theorem get?_eq_some {m : KeyedMap key} {k : K} {v : V} :
    m.get? k = some v ↔ v ∈ m ∧ key v = k := by
  constructor
  · intro found
    have same := m.keyed k v found
    subst same
    exact ⟨found, rfl⟩
  · rintro ⟨member, rfl⟩
    exact member

theorem mem_of_get? {m : KeyedMap key} {k : K} {v : V} (found : m.get? k = some v) : v ∈ m :=
  (get?_eq_some.mp found).1

theorem key_of_get? {m : KeyedMap key} {k : K} {v : V} (found : m.get? k = some v) : key v = k :=
  (get?_eq_some.mp found).2

/-- Two values of one map under the same key are the same value. -/
theorem eq_of_key {m : KeyedMap key} {v w : V} (hv : v ∈ m) (hw : w ∈ m)
    (same : key v = key w) : v = w := by
  rw [mem_iff, same, mem_iff.mp hw] at hv
  exact (Option.some.inj hv).symm

theorem get?_eq_none {m : KeyedMap key} {k : K} :
    m.get? k = none ↔ ∀ v ∈ m, key v ≠ k := by
  constructor
  · intro missing v member same
    rw [mem_iff, same, missing] at member
    cases member
  · intro absent
    cases found : m.get? k with
    | none => rfl
    | some v => exact absurd (key_of_get? found) (absent v (mem_of_get? found))

@[simp] theorem get?_empty (k : K) : (empty : KeyedMap key).get? k = none := by
  simp [get?, empty]

theorem get?_insert (m : KeyedMap key) (v : V) (k : K) [DecidableEq K] :
    (m.insert v).get? k = if key v = k then some v else m.get? k := by
  simp only [get?, insert, Std.ExtTreeMap.getElem?_insert, Std.LawfulEqOrd.compare_eq_iff_eq]

theorem get?_insert_self (m : KeyedMap key) (v : V) : (m.insert v).get? (key v) = some v := by
  classical
  rw [get?_insert, if_pos rfl]

theorem get?_erase (m : KeyedMap key) (k other : K) [DecidableEq K] :
    (m.erase k).get? other = if k = other then none else m.get? other := by
  simp only [get?, erase, Std.ExtTreeMap.getElem?_erase, Std.LawfulEqOrd.compare_eq_iff_eq]

theorem not_mem_empty (v : V) : v ∉ (empty : KeyedMap key) := by
  simp [mem_iff]

theorem mem_insert {m : KeyedMap key} {v w : V} :
    w ∈ m.insert v ↔ w = v ∨ (w ∈ m ∧ key w ≠ key v) := by
  classical
  rw [mem_iff, get?_insert]
  split
  · rename_i same
    constructor
    · intro h
      exact Or.inl (Option.some.inj h).symm
    · rintro (rfl | ⟨_, differ⟩)
      · rfl
      · exact absurd same.symm differ
  · rename_i differ
    constructor
    · intro h
      exact Or.inr ⟨h, fun same => differ same.symm⟩
    · rintro (rfl | ⟨member, _⟩)
      · exact absurd rfl differ
      · exact member

/-- Inserting under a fresh key adds exactly one value. -/
theorem mem_insert_fresh {m : KeyedMap key} {v w : V} (fresh : m.get? (key v) = none) :
    w ∈ m.insert v ↔ w = v ∨ w ∈ m := by
  rw [mem_insert]
  refine or_congr_right ⟨And.left, fun member => ⟨member, fun same => ?_⟩⟩
  rw [mem_iff, same, fresh] at member
  cases member

theorem mem_vals {m : KeyedMap key} {v : V} : v ∈ m.vals ↔ v ∈ m := by
  simp only [vals, List.mem_map, Prod.exists, exists_eq_right,
    Std.ExtTreeMap.mem_toList_iff_getElem?_eq_some]
  constructor
  · rintro ⟨k, found⟩
    exact mem_of_get? found
  · intro member
    exact ⟨key v, member⟩

theorem vals_sorted (m : KeyedMap key) :
    m.vals.Pairwise (fun v w => compare (key v) (key w) = .lt) := by
  unfold vals
  rw [List.pairwise_map]
  refine List.Pairwise.imp_of_mem ?_ (Std.ExtTreeMap.ordered_keys_toList (t := m.map))
  rintro ⟨k, v⟩ ⟨l, w⟩ left right less
  rw [Std.ExtTreeMap.mem_toList_iff_getElem?_eq_some] at left right
  rw [m.keyed k v left, m.keyed l w right]
  exact less

theorem nodup_vals (m : KeyedMap key) : m.vals.Nodup := by
  refine (vals_sorted m).imp ?_
  rintro v w less rfl
  rw [Std.ReflOrd.compare_self] at less
  cases less

theorem nodup_keys (m : KeyedMap key) : (m.vals.map key).Nodup := by
  rw [List.Nodup, List.pairwise_map]
  refine (vals_sorted m).imp ?_
  intro v w less same
  rw [same, Std.ReflOrd.compare_self] at less
  cases less

theorem length_vals (m : KeyedMap key) : m.vals.length = m.size := by
  simp [vals, size, Std.ExtTreeMap.length_toList]

theorem size_insert_fresh {m : KeyedMap key} {v : V} (fresh : m.get? (key v) = none) :
    (m.insert v).size = m.size + 1 := by
  have absent : ¬ m.map.contains (key v) = true := by
    rw [Std.ExtTreeMap.contains_eq_isSome_getElem?]
    simpa [get?] using fresh
  simp only [size, insert, Std.ExtTreeMap.size_insert, if_neg absent]

theorem size_insert_present {m : KeyedMap key} {v : V} (present : m.contains (key v) = true) :
    (m.insert v).size = m.size := by
  have found : m.map.contains (key v) = true := by
    rw [Std.ExtTreeMap.contains_eq_isSome_getElem?]
    exact present
  simp only [size, insert, Std.ExtTreeMap.size_insert, found, if_true]

theorem size_erase_le (m : KeyedMap key) (k : K) : (m.erase k).size ≤ m.size :=
  Std.ExtTreeMap.size_erase_le

theorem ext_get? {m m' : KeyedMap key} (same : ∀ k, m.get? k = m'.get? k) : m = m' := by
  obtain ⟨t, ht⟩ := m
  obtain ⟨t', ht'⟩ := m'
  have equal : t = t' := Std.ExtTreeMap.ext_getElem? (fun k => same k)
  subst equal
  rfl

/-- A keyed map is the set of its values. -/
theorem ext_mem {m m' : KeyedMap key} (same : ∀ v, v ∈ m ↔ v ∈ m') : m = m' := by
  refine ext_get? fun k => ?_
  refine Option.ext fun v => ?_
  rw [get?_eq_some, get?_eq_some, same v]

def iter (m : KeyedMap key) (order : HashOrder V) : List V := order.arrange m.vals

theorem mem_iter {m : KeyedMap key} {order : HashOrder V} {v : V} : v ∈ m.iter order ↔ v ∈ m :=
  order.mem_arrange.trans mem_vals

theorem filter_vals_eq_nil {m : KeyedMap key} {p : V → Bool} :
    m.vals.filter p = [] ↔ ∀ v ∈ m, p v = false := by
  simp only [List.filter_eq_nil_iff, mem_vals, Bool.not_eq_true]

theorem filter_vals_eq_singleton {m : KeyedMap key} {p : V → Bool} {v : V} :
    m.vals.filter p = [v] ↔ v ∈ m ∧ p v = true ∧ ∀ w ∈ m, p w = true → w = v := by
  constructor
  · intro only
    have mem : ∀ w, w ∈ m ∧ p w = true ↔ w = v := by
      intro w
      rw [← mem_vals, ← List.mem_filter, only, List.mem_singleton]
    exact ⟨((mem v).mpr rfl).1, ((mem v).mpr rfl).2, fun w hw pw => (mem w).mp ⟨hw, pw⟩⟩
  · rintro ⟨member, holds, unique⟩
    refine List.perm_singleton.mp ((List.perm_ext_iff_of_nodup (m.nodup_vals.filter p)
      (List.nodup_singleton v)).mpr fun w => ?_)
    rw [List.mem_filter, mem_vals, List.mem_singleton]
    constructor
    · exact fun ⟨hw, pw⟩ => unique w hw pw
    · rintro rfl
      exact ⟨member, holds⟩

end KeyedMap

/-! ### Collected maps -/

section Collect

variable {κ β : Type} [DecidableEq κ]

def insertPair (map : κ → Option β) (pair : κ × β) : κ → Option β :=
  Function.update map pair.1 (some pair.2)

/-- The hash map collected from pairs: of two pairs with one key the later counts. -/
def collectPairs (pairs : List (κ × β)) : κ → Option β := pairs.foldl insertPair fun _ => none

theorem collectPairs_mem {pairs : List (κ × β)} {k : κ} {v : β}
    (found : collectPairs pairs k = some v) : (k, v) ∈ pairs := by
  have general : ∀ (rest : List (κ × β)) (map : κ → Option β), rest.foldl insertPair map k = some v →
      map k = some v ∨ (k, v) ∈ rest := by
    intro rest
    induction rest with
    | nil => exact fun map => .inl
    | cons pair rest ih =>
      intro map result
      rcases ih _ result with before | later
      · by_cases here : pair.1 = k
        · rw [insertPair, ← here, Function.update_self] at before
          have same : pair = (k, v) := Prod.ext here (Option.some.inj before)
          rw [same]
          exact .inr List.mem_cons_self
        · rw [insertPair, Function.update_of_ne (Ne.symm here)] at before
          exact .inl before
      · exact .inr (List.mem_cons_of_mem pair later)
  rcases general pairs _ found with none | listed
  · cases none
  · exact listed

theorem collectPairs_eq {pairs : List (κ × β)} {k : κ} {v : β} (listed : (k, v) ∈ pairs)
    (agree : ∀ w, (k, w) ∈ pairs → w = v) : collectPairs pairs k = some v := by
  have general : ∀ (rest : List (κ × β)) (map : κ → Option β), (∀ w, (k, w) ∈ rest → w = v) →
      map k = some v ∨ (k, v) ∈ rest → rest.foldl insertPair map k = some v := by
    intro rest
    induction rest with
    | nil =>
      intro map _ known
      exact known.resolve_right (by simp)
    | cons pair rest ih =>
      intro map agree known
      apply ih _ fun w member => agree w (List.mem_cons_of_mem pair member)
      by_cases here : pair.1 = k
      · apply Or.inl
        have value : pair.2 = v := agree pair.2 (by rw [← here]; exact List.mem_cons_self)
        rw [insertPair, ← here, Function.update_self, value]
      · rcases known with set | member
        · apply Or.inl
          rw [insertPair, Function.update_of_ne (Ne.symm here), set]
        · rcases List.mem_cons.mp member with same | later
          · exact absurd (congrArg Prod.fst same).symm here
          · exact .inr later
  exact general pairs _ agree (.inr listed)

end Collect

end Lycoris.Lib
