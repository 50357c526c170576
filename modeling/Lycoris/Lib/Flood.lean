import Mathlib

/-!
Flooding one item with duplicate suppression. A node takes the item in once, at the source or from the
first copy that reaches it, and then passes it on to some targets; later copies are refused. Copies may be
lost and nodes may give up passing on. Every node passes the item on at most once, and without faults
everybody it was passed on to has taken it in once nothing is left to do.
-/

namespace Lycoris.Lib

/-- How far an item has spread: who has taken it in, how often a node has still to pass it on, where copies
are under way to, and who passed it on to whom. -/
structure Flood (N : Type) where
  taken : N → Prop
  waiting : N → Nat
  flying : List N
  passed : List (N × List N)

namespace Flood

variable {N : Type}

/-- The item is not known to anybody. -/
structure Unknown (flood : Flood N) : Prop where
  taken : ∀ node, ¬ flood.taken node
  waiting : ∀ node, flood.waiting node = 0
  flying : flood.flying = []
  passed : flood.passed = []

variable [DecidableEq N]

/-- The steps without a fault. -/
inductive Clean (flood next : Flood N) : Prop
  | idle (taken : ∀ node, next.taken node ↔ flood.taken node)
      (waiting : ∀ node, next.waiting node = flood.waiting node)
      (flying : flood.flying.Perm next.flying) (passed : next.passed = flood.passed)
  | take (taker : N) (unseen : ¬ flood.taken taker)
      (taken : ∀ node, next.taken node ↔ flood.taken node ∨ node = taker)
      (waiting : ∀ node, next.waiting node = flood.waiting node + if node = taker then 1 else 0)
      (flying : flood.flying.Perm next.flying ∨ flood.flying.Perm (taker :: next.flying))
      (passed : next.passed = flood.passed)
  | refuse (refuser : N) (seen : flood.taken refuser)
      (taken : ∀ node, next.taken node ↔ flood.taken node)
      (waiting : ∀ node, next.waiting node = flood.waiting node)
      (flying : flood.flying.Perm (refuser :: next.flying)) (passed : next.passed = flood.passed)
  | pass (passer : N) (targets : List N) (taken : ∀ node, next.taken node ↔ flood.taken node)
      (waiting : ∀ node, flood.waiting node = next.waiting node + if node = passer then 1 else 0)
      (flying : next.flying = flood.flying ++ targets)
      (passed : next.passed = flood.passed ++ [(passer, targets)])

/-- A lost copy, or a node that gives up passing on. -/
structure Fault (flood next : Flood N) : Prop where
  taken : ∀ node, next.taken node ↔ flood.taken node
  waiting : ∀ node, next.waiting node ≤ flood.waiting node
  passed : next.passed = flood.passed

def Step (flood next : Flood N) : Prop := Clean flood next ∨ Fault flood next

/-- How often a node has passed the item on. -/
def passes (flood : Flood N) (node : N) : Nat := flood.passed.countP fun pass => pass.1 = node

/-- A node passes the item on at most once, and only after it took it in. -/
structure Once (flood : Flood N) : Prop where
  most : ∀ node, flood.waiting node + flood.passes node ≤ 1
  none : ∀ node, ¬ flood.taken node → flood.waiting node + flood.passes node = 0

/-- Whoever took the item in passes it on, and what was passed on arrives. -/
structure Spreads (flood : Flood N) : Prop where
  passes : ∀ node, flood.taken node → flood.waiting node + flood.passes node = 1
  arrives : ∀ pass ∈ flood.passed, ∀ target ∈ pass.2, flood.taken target ∨ target ∈ flood.flying

theorem Unknown.once {flood : Flood N} (unknown : Unknown flood) : Once flood := by
  have nothing : ∀ node, flood.waiting node + flood.passes node = 0 := by
    intro node
    rw [unknown.waiting, passes, unknown.passed]
    rfl
  exact ⟨fun node => by rw [nothing]; exact Nat.zero_le _, fun node _ => nothing node⟩

theorem Unknown.spreads {flood : Flood N} (unknown : Unknown flood) : Spreads flood := by
  refine ⟨fun node taken => absurd taken (unknown.taken node), ?_⟩
  rw [unknown.passed]
  intro pass none
  cases none

section Step

variable {flood next : Flood N}

theorem passes_same (passed : next.passed = flood.passed) (node : N) : next.passes node = flood.passes node := by
  rw [passes, passes, passed]

theorem passes_pass {passer : N} {targets : List N}
    (passed : next.passed = flood.passed ++ [(passer, targets)]) (node : N) :
    next.passes node = flood.passes node + if node = passer then 1 else 0 := by
  rw [passes, passes, passed, List.countP_append, List.countP_singleton]
  by_cases same : node = passer
  · rw [if_pos same, if_pos (decide_eq_true same.symm)]
  · rw [if_neg same, if_neg (fun equal => same (of_decide_eq_true equal).symm)]

theorem Once.step (once : Once flood) (step : Step flood next) : Once next := by
  rcases step with (⟨taken, waiting, _, passed⟩ | ⟨taker, unseen, taken, waiting, _, passed⟩ |
    ⟨refuser, _, taken, waiting, _, passed⟩ | ⟨passer, targets, taken, waiting, _, passed⟩) |
    ⟨taken, waiting, passed⟩
  · constructor
    · intro node
      rw [waiting, passes_same passed]
      exact once.most node
    · intro node untaken
      rw [waiting, passes_same passed]
      exact once.none node (mt (taken node).mpr untaken)
  · constructor
    · intro node
      rw [waiting, passes_same passed]
      split
      · rename_i same
        have zero := once.none taker unseen
        rw [same]
        omega
      · exact once.most node
    · intro node untaken
      have before := mt (taken node).mpr untaken
      rw [waiting, passes_same passed, if_neg (fun same => before (Or.inr same))]
      exact once.none node (fun had => before (Or.inl had))
  · constructor
    · intro node
      rw [waiting, passes_same passed]
      exact once.most node
    · intro node untaken
      rw [waiting, passes_same passed]
      exact once.none node (mt (taken node).mpr untaken)
  · -- Passing on turns a copy that waits into one that was passed on.
    have kept : ∀ node, next.waiting node + next.passes node = flood.waiting node + flood.passes node := by
      intro node
      rw [waiting, passes_pass passed]
      omega
    constructor
    · intro node
      rw [kept]
      exact once.most node
    · intro node untaken
      rw [kept]
      exact once.none node (mt (taken node).mpr untaken)
  · constructor
    · intro node
      have fewer := waiting node
      have most := once.most node
      rw [passes_same passed]
      omega
    · intro node untaken
      have fewer := waiting node
      have none := once.none node (mt (taken node).mpr untaken)
      rw [passes_same passed]
      omega

theorem Spreads.clean (once : Once flood) (spreads : Spreads flood) (clean : Clean flood next) :
    Spreads next := by
  rcases clean with ⟨taken, waiting, flying, passed⟩ | ⟨taker, unseen, taken, waiting, flying, passed⟩ |
    ⟨refuser, seen, taken, waiting, flying, passed⟩ | ⟨passer, targets, taken, waiting, flying, passed⟩
  · constructor
    · intro node had
      rw [waiting, passes_same passed]
      exact spreads.passes node ((taken node).mp had)
    · intro pass member target sent
      rw [taken, ← flying.mem_iff]
      exact spreads.arrives pass (passed ▸ member) target sent
  · constructor
    · intro node had
      rw [waiting, passes_same passed]
      by_cases same : node = taker
      · have zero := once.none taker unseen
        rw [if_pos same, same]
        omega
      · rw [if_neg same]
        exact spreads.passes node (((taken node).mp had).resolve_right same)
    · intro pass member target sent
      rw [taken]
      rcases spreads.arrives pass (passed ▸ member) target sent with had | under
      · exact Or.inl (Or.inl had)
      · rcases flying with same | moved
        · exact Or.inr (same.mem_iff.mp under)
        · rcases List.mem_cons.mp (moved.mem_iff.mp under) with here | there
          · exact Or.inl (Or.inr here)
          · exact Or.inr there
  · constructor
    · intro node had
      rw [waiting, passes_same passed]
      exact spreads.passes node ((taken node).mp had)
    · intro pass member target sent
      rw [taken]
      rcases spreads.arrives pass (passed ▸ member) target sent with had | under
      · exact Or.inl had
      · rcases List.mem_cons.mp (flying.mem_iff.mp under) with here | there
        · exact Or.inl (here ▸ seen)
        · exact Or.inr there
  · constructor
    · intro node had
      have one := spreads.passes node ((taken node).mp had)
      rw [waiting] at one
      rw [passes_pass passed]
      omega
    · intro pass member target sent
      rw [taken, flying, List.mem_append]
      rw [passed, List.mem_append, List.mem_singleton] at member
      rcases member with earlier | rfl
      · exact (spreads.arrives pass earlier target sent).imp_right Or.inl
      · exact Or.inr (Or.inr sent)

end Step

/-! ### Consequences -/

section Consequences

variable {flood : Flood N}

theorem Once.nodup (once : Once flood) : (flood.passed.map Prod.fst).Nodup := by
  rw [List.nodup_iff_count_le_one]
  intro node
  rw [List.count, List.countP_map]
  have most := once.most node
  have same : flood.passes node = flood.passed.countP ((· == node) ∘ Prod.fst) := by
    rw [passes]
    congr 1
  omega

/-- The copies of the item that were ever sent. -/
def copies (flood : Flood N) : Nat := (flood.passed.map fun pass => pass.2.length).sum

/-- Among `members` that never send the item to themselves or twice to one target, everybody sends at most
one copy to everybody else. -/
theorem Once.copies_le (once : Once flood) (members : Finset N)
    (inside : ∀ pass ∈ flood.passed, pass.1 ∈ members ∧ ∀ target ∈ pass.2, target ∈ members)
    (apart : ∀ pass ∈ flood.passed, pass.2.Nodup ∧ pass.1 ∉ pass.2) :
    flood.copies ≤ members.card * (members.card - 1) := by
  have each : ∀ pass ∈ flood.passed, pass.2.length ≤ members.card - 1 := by
    intro pass member
    obtain ⟨nodup, elsewhere⟩ := apart pass member
    have part : pass.2.toFinset ⊆ members.erase pass.1 := by
      intro target sent
      rw [List.mem_toFinset] at sent
      refine Finset.mem_erase.mpr ⟨?_, (inside pass member).2 target sent⟩
      rintro rfl
      exact elsewhere sent
    have fits := Finset.card_le_card part
    rw [List.toFinset_card_of_nodup nodup, Finset.card_erase_of_mem (inside pass member).1] at fits
    exact fits
  have few : flood.passed.length ≤ members.card := by
    have part : (flood.passed.map Prod.fst).toFinset ⊆ members := by
      intro node member
      obtain ⟨pass, known, rfl⟩ := List.mem_map.mp (List.mem_toFinset.mp member)
      exact (inside pass known).1
    have fits := Finset.card_le_card part
    rw [List.toFinset_card_of_nodup once.nodup, List.length_map] at fits
    exact fits
  have total : flood.copies ≤ (flood.passed.map fun pass => pass.2.length).length • (members.card - 1) := by
    apply List.sum_le_card_nsmul
    intro length listed
    obtain ⟨pass, member, rfl⟩ := List.mem_map.mp listed
    exact each pass member
  rw [List.length_map, smul_eq_mul] at total
  exact total.trans (Nat.mul_le_mul_right _ few)

end Consequences

end Flood

end Lycoris.Lib
