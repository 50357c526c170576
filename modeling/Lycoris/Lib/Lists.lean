import Mathlib

/-!
Facts about lists: what stays in a list when one place of it changes, lists that are read back element by
element, and lists of one element.
-/

namespace Lycoris.Lib

variable {α β : Type}

/-! ### One place -/

theorem mem_eraseIdx_or {list : List α} {element : α} (member : element ∈ list) (index : Nat) :
    list[index]? = some element ∨ element ∈ list.eraseIdx index := by
  obtain ⟨position, found⟩ := List.mem_iff_getElem?.mp member
  by_cases same : position = index
  · exact Or.inl (same ▸ found)
  · exact Or.inr (List.mem_eraseIdx_iff_getElem?.mpr ⟨position, same, found⟩)

theorem mem_set_or {list : List α} {element : α} (member : element ∈ list) (index : Nat) (other : α) :
    list[index]? = some element ∨ element ∈ list.set index other := by
  obtain ⟨position, found⟩ := List.mem_iff_getElem?.mp member
  by_cases same : position = index
  · exact Or.inl (same ▸ found)
  · exact Or.inr (List.mem_iff_getElem?.mpr ⟨position, (List.getElem?_set_ne (Ne.symm same)).trans found⟩)

/-! ### Element by element -/

theorem filterMap_map_eq_self {encode : α → β} {decode : β → Option α} {items : List α}
    (back : ∀ item ∈ items, decode (encode item) = some item) :
    (items.map encode).filterMap decode = items := by
  calc (items.map encode).filterMap decode = items.filterMap (decode ∘ encode) := List.filterMap_map
    _ = items.filterMap some := List.filterMap_congr back
    _ = items := List.filterMap_some

theorem mapM_ok {E : Type} {f : α → Except E β} {g : α → β} {items : List α}
    (each : ∀ item ∈ items, f item = .ok (g item)) : items.mapM f = .ok (items.map g) := by
  induction items with
  | nil => rfl
  | cons item rest ih =>
    obtain ⟨first, later⟩ := List.forall_mem_cons.mp each
    rw [List.mapM_cons, first, ih later]
    rfl

/-! ### One element -/

theorem dedup_eq_singleton [DecidableEq α] {l : List α} {a : α} :
    l.dedup = [a] ↔ a ∈ l ∧ ∀ b ∈ l, b = a := by
  constructor
  · intro only
    have mem : ∀ b, b ∈ l ↔ b = a := fun b => by
      rw [← List.mem_dedup, only, List.mem_singleton]
    exact ⟨(mem a).mpr rfl, fun b => (mem b).mp⟩
  · rintro ⟨member, sole⟩
    refine List.perm_singleton.mp ((List.perm_ext_iff_of_nodup (List.nodup_dedup l)
      (List.nodup_singleton a)).mpr fun b => ?_)
    rw [List.mem_dedup, List.mem_singleton]
    exact ⟨sole b, fun same => same ▸ member⟩

end Lycoris.Lib
