import Lycoris.Overlay.Merge

/-!
Merging the checkpoint of one registry into another. Where all their records are part of one valid registry,
whoever sent what first, the merge never stops: a checkpoint brings along whatever its records name.
-/

namespace Lycoris.Overlay
open Lib

namespace AuthorizationRegistry

variable {P : Primitives} {g h k part : AuthorizationRegistry}

/-! ### Counting -/

theorem mergeRound_counts {pending : List AuthorizationRecord} {start round : MergeRound}
    (answer : mergeRound P pending start = .ok round) :
    round.inserted + start.registry.records.size = start.inserted + round.registry.records.size := by
  induction pending generalizing start with
  | nil =>
    cases answer
    rfl
  | cons record pending ih =>
    rw [mergeRound] at answer
    rcases insert_cases (P := P) start.registry record with ⟨_, same⟩ | ⟨_, error, _, same⟩ | ⟨fresh, _, same⟩
    · simp only [same] at answer
      have counted := ih answer
      simp only [Bool.toNat_false, add_zero] at counted
      exact counted
    · cases error with
      | missingDependency id =>
        simp only [same] at answer
        have counted := ih answer
        exact counted
      | _ =>
        simp only [same] at answer
        cases answer
    · simp only [same] at answer
      have counted := ih answer
      have size : (start.registry.added record).records.size = start.registry.records.size + 1 :=
        KeyedMap.size_insert_fresh fresh
      simp only [size, Bool.toNat_true] at counted
      omega

/-- A merge counts the records that are new. -/
theorem merge_counts {records : List AuthorizationRecord} {count : Nat}
    (answer : g.merge P records = (.ok count, h)) : count + g.records.size = h.records.size := by
  have rounds : ∀ (pending : List AuthorizationRecord) (inserted : Nat) (k : AuthorizationRegistry),
      mergeRounds P k pending inserted = (.ok count, h) → count + k.records.size = inserted + h.records.size := by
    intro pending inserted k
    fun_induction mergeRounds P k pending inserted with
    | case1 k pending inserted _ =>
      intro done
      cases done
      rfl
    | case2 => intro failed; cases failed
    | case3 => intro failed; cases failed
    | case4 => intro failed; cases failed
    | case5 k pending inserted _ round fine _ ih =>
      intro done
      have later := ih done
      have counted := mergeRound_counts fine
      simp only at counted
      omega
  have total := rounds records 0 g answer
  omega

theorem Grows.size_le {offered : AuthorizationRecord → Prop} (grown : Grows P offered g h) :
    g.records.size ≤ h.records.size := by
  induction grown with
  | refl => exact le_refl _
  | add before _ fresh _ ih => exact ih.trans (by rw [added, KeyedMap.size_insert_fresh fresh]; omega)

/-! ### Parts of one registry -/

/-- `k` takes in the rest of `part`, both within `h`. -/
structure Filling (h part k : AuthorizationRegistry) (pending : List AuthorizationRecord) : Prop where
  within : Extends k h
  offered : ∀ r ∈ pending, r ∈ part
  covered : ∀ r ∈ part, r ∈ k ∨ r ∈ pending

section Filling

variable {pending : List AuthorizationRecord} (valid : Valid P h) (wf : WellFormed P part) (inside : Extends part h)

include wf in
/-- The oldest pending record has all it names. -/
theorem Filling.ready (filling : Filling h part k pending) (some : pending ≠ []) :
    ∃ r ∈ pending, ∀ id ∈ r.dependencies, k.records.get? id ≠ none := by
  obtain ⟨rank, ranked⟩ := wf.ranked
  obtain ⟨r, member, least⟩ := pending.toFinset.exists_min_image (fun r => rank r.id) (by simpa using some)
  rw [List.mem_toFinset] at member
  refine ⟨r, member, fun id named => ?_⟩
  obtain ⟨d, listed, rfl⟩ := (wf.accepted r (filling.offered r member)).dependency named
  rcases filling.covered d listed with present | waiting
  · exact Option.ne_none_iff_exists'.mpr ⟨d, present⟩
  · have older := ranked.after r (filling.offered r member) d.id named
    have first := least d (List.mem_toFinset.mpr waiting)
    omega

theorem Filling.round (filling : Filling h part k pending) {inserted : Nat} {round : MergeRound}
    (answer : mergeRound P pending ⟨k, inserted, [], none⟩ = .ok round)
    (spec : RoundSpec h pending ⟨k, inserted, [], none⟩ round) :
    Filling h part round.registry round.deferred where
  within := spec.within
  offered := by
    intro r member
    rcases mergeRound_deferred_mem answer r member with none | listed
    · cases none
    · exact filling.offered r listed
  covered := by
    intro r member
    rcases filling.covered r member with present | waiting
    · exact Or.inl (spec.grown.records r present)
    · exact spec.settled r waiting

include valid wf inside in
theorem mergeRounds_filling (inserted : Nat) (filling : Filling h part k pending) :
    ∃ count joined, mergeRounds P k pending inserted = (.ok count, joined) ∧ Extends k joined ∧ Extends joined h ∧
      ∀ r ∈ part, r ∈ joined := by
  have goal : ∀ {k : AuthorizationRegistry} {pending : List AuthorizationRecord}, Filling h part k pending →
      ∀ r ∈ pending, r ∈ h := fun filling r member => inside.records r (filling.offered r member)
  have unstuck : ∀ {k : AuthorizationRegistry} {pending : List AuthorizationRecord} {inserted : Nat}
      {round : MergeRound}, Filling h part k pending → pending ≠ [] →
      mergeRound P pending ⟨k, inserted, [], none⟩ = .ok round → round.deferred.length ≠ pending.length := by
    intro k pending inserted round filling some answer
    obtain ⟨round', fine, spec⟩ := mergeRound_toward valid ⟨k, inserted, [], none⟩ filling.within (goal filling)
    cases answer.symm.trans fine
    have fewer := spec.progress (filling.ready wf some)
    simp only [List.length_nil] at fewer
    omega
  fun_induction mergeRounds P k pending inserted with
  | case1 k pending inserted empty =>
    rw [List.isEmpty_iff.mp empty] at filling
    exact ⟨inserted, k, rfl, .refl k, filling.within,
      fun r member => (filling.covered r member).resolve_right List.not_mem_nil⟩
  | case2 k pending inserted _ e registry answer =>
    obtain ⟨round, fine, _⟩ := mergeRound_toward valid ⟨k, inserted, [], none⟩ filling.within (goal filling)
    rw [fine] at answer
    cases answer
  | case3 k pending inserted some round answer stuck _ _ =>
    exact absurd stuck (unstuck filling (by simpa using some) answer)
  | case4 k pending inserted some round answer stuck _ =>
    exact absurd stuck (unstuck filling (by simpa using some) answer)
  | case5 k pending inserted some round answer stuck ih =>
    obtain ⟨round', fine, spec⟩ := mergeRound_toward valid ⟨k, inserted, [], none⟩ filling.within (goal filling)
    cases answer.symm.trans fine
    obtain ⟨count, joined, result, grown, within, all⟩ := ih (filling.round answer spec)
    exact ⟨count, joined, result, spec.grown.trans grown, within, all⟩

end Filling

/-- The checkpoint of one part of a valid registry merges into every other. -/
theorem merge_part (valid : Valid P h) (wf : WellFormed P part) (inside : Extends part h) (within : Extends k h) :
    ∃ count joined, k.merge P part.records.vals = (.ok count, joined) ∧ Extends k joined ∧ Extends joined h ∧
      ∀ r ∈ part, r ∈ joined :=
  mergeRounds_filling valid wf inside 0
    ⟨within, fun _ member => KeyedMap.mem_vals.mp member, fun _ member => Or.inr (KeyedMap.mem_vals.mpr member)⟩

end AuthorizationRegistry

end Lycoris.Overlay
