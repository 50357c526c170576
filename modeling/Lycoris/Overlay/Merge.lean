import Lycoris.Overlay.Monotone

/-!
Replication does not depend on the order of delivery. Once some order of the offered records is
accepted, the registry it ends in is the goal every other order works towards: a round never stops
at an error, and the oldest pending record of the goal always has what it names.
-/

namespace Lycoris.Overlay
open Lib

namespace AuthorizationRegistry

variable {P : Primitives} {g h k : AuthorizationRegistry} {r s : AuthorizationRecord}

/-- `k` and the pending records together are the goal `h`. -/
structure Toward (h k : AuthorizationRegistry) (pending : List AuthorizationRecord) : Prop where
  within : Extends k h
  offered : ∀ r ∈ pending, r ∈ h
  covered : ∀ r ∈ h, r ∈ k ∨ r ∈ pending

/-! ### One record -/

theorem insert_toward (valid : Valid P h) (within : Extends k h) (goal : r ∈ h) :
    (r ∈ k ∧ k.insert P r = (.ok false, k)) ∨
    (k.records.get? r.id = none ∧ k.insert P r = (.ok true, k.added r)) ∨
    (∃ id ∈ r.dependencies, k.records.get? id = none ∧
      k.insert P r = (.error (.missingDependency id), k)) := by
  rcases insert_cases (P := P) k r with ⟨found, same⟩ | ⟨fresh, e, wrong, same⟩ | ⟨fresh, _, same⟩
  · obtain ⟨s, there⟩ := Option.ne_none_iff_exists'.mp found
    obtain ⟨inside, equal⟩ := KeyedMap.get?_eq_some.mp there
    exact Or.inl ⟨KeyedMap.eq_of_key (within.records s inside) goal equal ▸ inside, same⟩
  · rcases reads_validate (P := P) r k h within with agree | ⟨id, named, absent, stopped⟩
    · have ok : k.validate P r = .ok () := agree.symm.trans (valid r goal)
      rw [wrong] at ok
      cases ok
    · cases wrong.symm.trans stopped
      exact Or.inr (Or.inr ⟨id, named, absent, same⟩)
  · exact Or.inr (Or.inl ⟨fresh, same⟩)

theorem Extends.added (within : Extends k h) (goal : r ∈ h) (fresh : k.records.get? r.id = none) :
    Extends (k.added r) h := by
  refine ⟨within.cluster, fun s member => ?_⟩
  rcases (mem_added fresh).mp member with rfl | inside
  · exact goal
  · exact within.records s inside

theorem mem_added_self (fresh : k.records.get? r.id = none) : r ∈ k.added r :=
  (mem_added fresh).mpr (Or.inl rfl)

/-! ### One round -/

/-- What a round that works towards `h` achieves. -/
structure RoundSpec (h : AuthorizationRegistry) (pending : List AuthorizationRecord)
    (start round : MergeRound) : Prop where
  grown : Extends start.registry round.registry
  within : Extends round.registry h
  kept : ∀ r ∈ start.deferred, r ∈ round.deferred
  settled : ∀ r ∈ pending, r ∈ round.registry ∨ r ∈ round.deferred
  counted : round.inserted + start.registry.records.size =
    start.inserted + round.registry.records.size
  progress : (∃ r ∈ pending, ∀ id ∈ r.dependencies, start.registry.records.get? id ≠ none) →
    round.deferred.length < start.deferred.length + pending.length

theorem Extends.get?_ne_none (grown : Extends g h) {id : RecordId} (found : g.records.get? id ≠ none) :
    h.records.get? id ≠ none := by
  obtain ⟨r, there⟩ := Option.ne_none_iff_exists'.mp found
  rw [grown.get? there]
  simp

theorem mergeRound_toward (valid : Valid P h) {pending : List AuthorizationRecord} (start : MergeRound)
    (within : Extends start.registry h) (offered : ∀ r ∈ pending, r ∈ h) :
    ∃ round, mergeRound P pending start = .ok round ∧ RoundSpec h pending start round := by
  induction pending generalizing start with
  | nil => exact ⟨start, rfl, .refl _, within, fun _ member => member, by simp, rfl, by simp⟩
  | cons r pending ih =>
    have goal := offered r List.mem_cons_self
    have rest : ∀ s ∈ pending, s ∈ h := fun s member => offered s (List.mem_cons_of_mem _ member)
    rcases insert_toward valid within goal with ⟨inside, same⟩ | ⟨fresh, same⟩ | ⟨id, named, absent, same⟩
    · obtain ⟨round, answer, spec⟩ := ih { start with inserted := start.inserted + false.toNat } within rest
      refine ⟨round, by simpa only [mergeRound, same] using answer, spec.grown, spec.within, spec.kept, ?_,
        spec.counted, fun _ => ?_⟩
      · intro s member
        rcases List.mem_cons.mp member with rfl | later
        · exact Or.inl (spec.grown.records s inside)
        · exact spec.settled s later
      · have := mergeRound_deferred_length P answer
        simp only [List.length_cons] at this ⊢
        omega
    · have size : (start.registry.added r).records.size = start.registry.records.size + 1 :=
        KeyedMap.size_insert_fresh fresh
      obtain ⟨round, answer, spec⟩ := ih
        { start with registry := start.registry.added r, inserted := start.inserted + true.toNat }
        (within.added goal fresh) rest
      refine ⟨round, by simpa only [mergeRound, same] using answer, (extends_added fresh).trans spec.grown,
        spec.within, spec.kept, ?_, ?_, fun _ => ?_⟩
      · intro s member
        rcases List.mem_cons.mp member with rfl | later
        · exact Or.inl (spec.grown.records s (mem_added_self fresh))
        · exact spec.settled s later
      · have := spec.counted
        simp only [size, Bool.toNat_true] at this
        omega
      · have := mergeRound_deferred_length P answer
        simp only [List.length_cons] at this ⊢
        omega
    · obtain ⟨round, answer, spec⟩ := ih
        { start with missing := some id, deferred := start.deferred ++ [r] } within rest
      refine ⟨round, by simpa only [mergeRound, same] using answer, spec.grown, spec.within, ?_, ?_,
        spec.counted, ?_⟩
      · exact fun s member => spec.kept s (List.mem_append_left _ member)
      · intro s member
        rcases List.mem_cons.mp member with rfl | later
        · exact Or.inr (spec.kept s (List.mem_append_right _ (List.mem_singleton_self s)))
        · exact spec.settled s later
      · rintro ⟨s, member, present⟩
        rcases List.mem_cons.mp member with rfl | later
        · exact absurd absent (present id named)
        · have := spec.progress ⟨s, later, present⟩
          simp only [List.length_append, List.length_cons, List.length_nil] at this ⊢
          omega

/-! ### All rounds -/

/-- The oldest pending record of the goal has all it names. -/
theorem Toward.ready (wf : WellFormed P h) {pending : List AuthorizationRecord}
    (toward : Toward h k pending) (some : pending ≠ []) :
    ∃ r ∈ pending, ∀ id ∈ r.dependencies, k.records.get? id ≠ none := by
  obtain ⟨rank, ranked⟩ := wf.ranked
  obtain ⟨r, member, least⟩ := pending.toFinset.exists_min_image (fun r => rank r.id)
    (by simpa using some)
  rw [List.mem_toFinset] at member
  refine ⟨r, member, fun id named => ?_⟩
  obtain ⟨d, inside, rfl⟩ := (wf.accepted r (toward.offered r member)).dependency named
  rcases toward.covered d inside with present | waiting
  · exact Option.ne_none_iff_exists'.mpr ⟨d, present⟩
  · have older := ranked.after r (toward.offered r member) d.id named
    have := least d (List.mem_toFinset.mpr waiting)
    omega

theorem Toward.round {pending : List AuthorizationRecord} (toward : Toward h k pending)
    {inserted : Nat} {round : MergeRound} (answer : mergeRound P pending ⟨k, inserted, [], none⟩ = .ok round)
    (spec : RoundSpec h pending ⟨k, inserted, [], none⟩ round) :
    Toward h round.registry round.deferred where
  within := spec.within
  offered := by
    intro r member
    rcases mergeRound_deferred_mem answer r member with absurd | inside
    · cases absurd
    · exact toward.offered r inside
  covered := by
    intro r goal
    rcases toward.covered r goal with present | waiting
    · exact Or.inl (spec.grown.records r present)
    · exact spec.settled r waiting

/-- A round on the way to the goal settles a record. -/
theorem Toward.unstuck (wf : WellFormed P h) (valid : Valid P h) {pending : List AuthorizationRecord}
    (toward : Toward h k pending) (some : pending ≠ []) {inserted : Nat} {round : MergeRound}
    (answer : mergeRound P pending ⟨k, inserted, [], none⟩ = .ok round) :
    round.deferred.length ≠ pending.length := by
  obtain ⟨round', fine, spec⟩ := mergeRound_toward valid ⟨k, inserted, [], none⟩ toward.within
    toward.offered
  cases answer.symm.trans fine
  have fewer := spec.progress (toward.ready wf some)
  simp only [List.length_nil] at fewer
  omega

theorem Toward.finished (toward : Toward h k []) : k = h := by
  have records : k.records = h.records := KeyedMap.ext_mem fun r =>
    ⟨fun member => toward.within.records r member,
      fun member => (toward.covered r member).resolve_right List.not_mem_nil⟩
  have cluster := toward.within.cluster
  cases k
  cases h
  simp_all

theorem mergeRounds_toward (wf : WellFormed P h) (valid : Valid P h) {pending : List AuthorizationRecord}
    (inserted : Nat) (toward : Toward h k pending) :
    ∃ count, mergeRounds P k pending inserted = (.ok count, h) ∧
      count + k.records.size = inserted + h.records.size := by
  fun_induction mergeRounds P k pending inserted with
  | case1 k pending inserted empty =>
    rw [List.isEmpty_iff.mp empty] at toward
    cases toward.finished
    exact ⟨inserted, rfl, rfl⟩
  | case2 k pending inserted _ e registry answer =>
    obtain ⟨round, fine, _⟩ := mergeRound_toward valid ⟨k, inserted, [], none⟩ toward.within
      toward.offered
    rw [fine] at answer
    cases answer
  | case3 k pending inserted some round answer stuck _ _ =>
    exact absurd stuck (toward.unstuck wf valid (by simpa using some) answer)
  | case4 k pending inserted some round answer stuck _ =>
    exact absurd stuck (toward.unstuck wf valid (by simpa using some) answer)
  | case5 k pending inserted some round answer stuck ih =>
    obtain ⟨round', fine, spec⟩ := mergeRound_toward valid ⟨k, inserted, [], none⟩ toward.within
      toward.offered
    cases answer.symm.trans fine
    obtain ⟨count, result, counted⟩ := ih (toward.round answer spec)
    have := spec.counted
    exact ⟨count, result, by simp only at this; omega⟩

/-! ### What a successful merge leaves behind -/

/-- The record, or one with its id, is in the registry. -/
def Holds (g : AuthorizationRegistry) (r : AuthorizationRecord) : Prop := ∃ s ∈ g, s.id = r.id

theorem Holds.grown (grown : Extends g h) (held : Holds g r) : Holds h r := by
  obtain ⟨s, inside, same⟩ := held
  exact ⟨s, grown.records s inside, same⟩

theorem insert_holds {wasInserted : Bool} (ok : k.insert P r = (.ok wasInserted, h)) : Holds h r := by
  rcases insert_cases (P := P) k r with ⟨found, same⟩ | ⟨_, e, _, same⟩ | ⟨fresh, _, same⟩
  · cases same.symm.trans ok
    obtain ⟨s, there⟩ := Option.ne_none_iff_exists'.mp found
    exact ⟨s, KeyedMap.get?_eq_some.mp there⟩
  · cases same.symm.trans ok
  · cases same.symm.trans ok
    exact ⟨r, mem_added_self fresh, rfl⟩

theorem mergeRound_holds {pending : List AuthorizationRecord} {start round : MergeRound}
    (answer : mergeRound P pending start = .ok round) :
    (∀ r ∈ start.deferred, r ∈ round.deferred) ∧
      ∀ r ∈ pending, Holds round.registry r ∨ r ∈ round.deferred := by
  induction pending generalizing start with
  | nil => cases answer; exact ⟨fun _ member => member, by simp⟩
  | cons r pending ih =>
    simp only [mergeRound] at answer
    split at answer
    · rename_i registry inserted
      obtain ⟨kept, settled⟩ := ih answer
      have grows : Grows P (fun _ => True) registry round.registry :=
        (mergeRound_grows fun _ _ => trivial).1 round answer
      refine ⟨kept, fun s member => ?_⟩
      rcases List.mem_cons.mp member with rfl | later
      · exact Or.inl ((insert_holds inserted).grown grows.extends)
      · exact settled s later
    · obtain ⟨kept, settled⟩ := ih answer
      refine ⟨fun s member => kept s (List.mem_append_left _ member), fun s member => ?_⟩
      rcases List.mem_cons.mp member with rfl | later
      · exact Or.inr (kept s (List.mem_append_right _ (List.mem_singleton_self s)))
      · exact settled s later
    · cases answer

theorem mergeRounds_holds {pending : List AuthorizationRecord} {inserted count : Nat}
    (answer : mergeRounds P k pending inserted = (.ok count, h)) : ∀ r ∈ pending, Holds h r := by
  fun_induction mergeRounds P k pending inserted with
  | case1 k pending inserted empty => simp [List.isEmpty_iff.mp empty]
  | case2 => cases answer
  | case3 => cases answer
  | case4 => cases answer
  | case5 k pending inserted _ round fine _ ih =>
    intro r member
    rcases (mergeRound_holds fine).2 r member with held | later
    · have grows : Grows P (fun _ => True) round.registry
          (mergeRounds P round.registry round.deferred round.inserted).2 :=
        mergeRounds_grows fun _ _ => trivial
      rw [answer] at grows
      exact held.grown grows.extends
    · exact ih answer r later

/-- No two different records of the registry and the offer share an id. -/
def IdsSeparate (g : AuthorizationRegistry) (records : List AuthorizationRecord) : Prop :=
  ∀ r, r ∈ g ∨ r ∈ records → ∀ s, s ∈ g ∨ s ∈ records → r.id = s.id → r = s

theorem idsSeparate_of_vals {records : List AuthorizationRecord}
    (distinct : ∀ r ∈ g.records.vals ++ records, ∀ s ∈ g.records.vals ++ records, r.id = s.id → r = s) :
    IdsSeparate g records := by
  have listed : ∀ r, r ∈ g ∨ r ∈ records → r ∈ g.records.vals ++ records := fun r here =>
    List.mem_append.mpr (here.imp_left KeyedMap.mem_vals.mpr)
  exact fun r here s there => distinct r (listed r here) s (listed s there)

/-- `h` is `g` with the offered records, all validated on the way. -/
structure Joined (P : Primitives) (g : AuthorizationRegistry) (records : List AuthorizationRecord)
    (h : AuthorizationRegistry) : Prop where
  grows : Grows P (· ∈ records) g h
  all : ∀ r ∈ records, r ∈ h

theorem Joined.mem {records : List AuthorizationRecord} (joined : Joined P g records h) :
    r ∈ h ↔ r ∈ g ∨ r ∈ records := by
  constructor
  · exact joined.grows.mem
  · rintro (old | new)
    · exact joined.grows.extends.records r old
    · exact joined.all r new

theorem joined_of_holds {records : List AuthorizationRecord} (separate : IdsSeparate g records)
    (grows : Grows P (· ∈ records) g h) (held : ∀ r ∈ records, Holds h r) : Joined P g records h := by
  refine ⟨grows, fun r member => ?_⟩
  obtain ⟨s, inside, same⟩ := held r member
  exact separate s (grows.mem inside) r (Or.inr member) same ▸ inside

theorem Joined.merge {records : List AuthorizationRecord} (wf : WellFormed P g)
    (valid : Valid P g) (joined : Joined P g records h) (order : List AuthorizationRecord) (same : ∀ r, r ∈ order ↔ r ∈ records) :
    ∃ count, g.merge P order = (.ok count, h) ∧ count + g.records.size = h.records.size := by
  have toward : Toward h g order :=
    ⟨joined.grows.extends, fun r member => joined.all r ((same r).mp member), fun r goal => by
      rw [same r]
      exact joined.mem.mp goal⟩
  obtain ⟨count, answer, counted⟩ := mergeRounds_toward (joined.grows.wellFormed wf)
    (joined.grows.valid valid) 0 toward
  exact ⟨count, answer, by omega⟩

/-! ### Counting -/

/-- The distinct ids of an offer that the registry does not hold. -/
def newIds (g : AuthorizationRegistry) (records : List AuthorizationRecord) : List RecordId :=
  (records.map AuthorizationRecord.id).dedup.filter fun id => (g.records.get? id).isNone

theorem mem_ids {id : RecordId} :
    id ∈ g.records.vals.map AuthorizationRecord.id ↔ g.records.get? id ≠ none := by
  rw [Ne, KeyedMap.get?_eq_none]
  simp only [List.mem_map, KeyedMap.mem_vals]
  push Not
  exact Iff.rfl

theorem Joined.size {records : List AuthorizationRecord} (joined : Joined P g records h) :
    h.records.size = g.records.size + (newIds g records).length := by
  have perm : (h.records.vals.map AuthorizationRecord.id).Perm
      (g.records.vals.map AuthorizationRecord.id ++ newIds g records) := by
    refine (List.perm_ext_iff_of_nodup h.records.nodup_keys ?_).mpr fun id => ?_
    · refine List.nodup_append'.mpr ⟨g.records.nodup_keys, (List.nodup_dedup _).filter _, ?_⟩
      intro id old new
      exact mem_ids.mp old (by simpa using (List.mem_filter.mp new).2)
    · rw [List.mem_append, mem_ids]
      constructor
      · intro found
        obtain ⟨r, there⟩ := Option.ne_none_iff_exists'.mp found
        obtain ⟨inside, rfl⟩ := KeyedMap.get?_eq_some.mp there
        by_cases old : g.records.get? r.id = none
        · rcases joined.mem.mp inside with present | new
          · exact Or.inl (mem_ids.mpr (Option.ne_none_iff_exists'.mpr ⟨r, present⟩))
          · exact Or.inr (by simp [newIds, old]; exact ⟨r, new, rfl⟩)
        · exact Or.inl (mem_ids.mpr old)
      · rintro (old | new)
        · exact joined.grows.extends.get?_ne_none (mem_ids.mp old)
        · simp only [newIds, List.mem_filter, List.mem_dedup, List.mem_map] at new
          obtain ⟨⟨r, member, rfl⟩, _⟩ := new
          exact Option.ne_none_iff_exists'.mpr ⟨r, joined.all r member⟩
  have lengths := perm.length_eq
  simp only [List.length_append, List.length_map, KeyedMap.length_vals] at lengths
  exact lengths

/-! ### Batches -/

variable (P) in
/-- Successive merges, as long as they succeed. -/
def mergeBatches (g : AuthorizationRegistry) :
    List (List AuthorizationRecord) → Option AuthorizationRegistry
  | [] => some g
  | batch :: batches =>
    match g.merge P batch with
    | (.ok _, h) => mergeBatches h batches
    | (.error _, _) => none

theorem mergeBatches_holds {batches : List (List AuthorizationRecord)}
    (ok : mergeBatches P g batches = some h) :
    Grows P (· ∈ batches.flatten) g h ∧ ∀ r ∈ batches.flatten, Holds h r := by
  induction batches generalizing g with
  | nil => cases ok; exact ⟨.refl, by simp⟩
  | cons batch batches ih =>
    simp only [mergeBatches] at ok
    split at ok
    · rename_i count k answer
      obtain ⟨grows, held⟩ := ih ok
      have first : Grows P (· ∈ batch) g (g.merge P batch).2 := merge_grows fun _ member => member
      rw [answer] at first
      refine ⟨(first.mono fun r member => ?_).trans (grows.mono fun r member => ?_), fun r member => ?_⟩
      · exact List.mem_append_left _ member
      · exact List.mem_append_right _ member
      · rcases List.mem_append.mp member with here | later
        · exact (mergeRounds_holds answer r here).grown grows.extends
        · exact held r later
    · cases ok

theorem IdsSeparate.mono {records fewer : List AuthorizationRecord} (separate : IdsSeparate g records)
    (sub : ∀ r ∈ fewer, r ∈ records) : IdsSeparate g fewer :=
  fun r here s there => separate r (here.imp_right (sub r)) s (there.imp_right (sub s))

def succeeds (result : Except AuthorizationError Nat × AuthorizationRegistry) : Bool :=
  result.1.isOk

theorem merge_joined {records : List AuthorizationRecord} (separate : IdsSeparate g records)
    {count : Nat} (answer : g.merge P records = (.ok count, h)) : Joined P g records h := by
  have grows : Grows P (· ∈ records) g (g.merge P records).2 := merge_grows fun _ member => member
  rw [answer] at grows
  exact joined_of_holds separate grows (mergeRounds_holds answer)

theorem succeeds_iff {result : Except AuthorizationError Nat × AuthorizationRegistry} :
    succeeds result = true ↔ ∃ count h, result = (.ok count, h) := by
  obtain ⟨answer, registry⟩ := result
  cases answer with
  | ok count => simp [succeeds, Except.isOk, Except.toBool]
  | error e => simp [succeeds, Except.isOk, Except.toBool]

/-- Where ids tell the records of a reachable registry and an offer apart, every order of the offer
succeeds or none does, and every order and every successful split into batches ends in the union. -/
theorem merge_order_independent (P : Primitives) (cluster : ClusterId) (calls : List RegistryCall)
    (records order : List AuthorizationRecord)
    (separate : IdsSeparate ((new cluster).replay P calls) records) (perm : order.Perm records) :
    let g := (new cluster).replay P calls
    (succeeds (g.merge P records) = succeeds (g.merge P order)) ∧
    ∀ count h, g.merge P records = (.ok count, h) →
      g.merge P order = (.ok count, h) ∧ h.clusterId = g.clusterId ∧
      (∀ r, r ∈ h ↔ r ∈ g ∨ r ∈ records) ∧ count = (newIds g records).length ∧
      ∀ batches : List (List AuthorizationRecord), batches.flatten.Perm records →
        ∀ k, mergeBatches P g batches = some k → k = h := by
  intro g
  change IdsSeparate g records at separate
  have wf : WellFormed P g := wellFormed_replay cluster calls
  have valid : Valid P g := valid_replay cluster calls
  have separate' : IdsSeparate g order := separate.mono fun r => perm.mem_iff.mp
  refine ⟨?_, fun count h answer => ?_⟩
  · rw [Bool.eq_iff_iff, succeeds_iff, succeeds_iff]
    constructor
    · rintro ⟨count, h, answer⟩
      obtain ⟨count', again, _⟩ := (merge_joined separate answer).merge wf valid order fun r => perm.mem_iff
      exact ⟨count', h, again⟩
    · rintro ⟨count, h, answer⟩
      obtain ⟨count', again, _⟩ := (merge_joined separate' answer).merge wf valid records
        fun r => perm.symm.mem_iff
      exact ⟨count', h, again⟩
  · have joined := merge_joined separate answer
    obtain ⟨count₁, again, counted⟩ := joined.merge wf valid records fun r => Iff.rfl
    obtain ⟨count₂, other, counted'⟩ := joined.merge wf valid order fun r => perm.mem_iff
    cases answer.symm.trans again
    have size := joined.size
    have same : count₂ = count := by omega
    subst same
    refine ⟨other, joined.grows.extends.cluster, fun r => joined.mem, by omega, fun batches split k ok => ?_⟩
    obtain ⟨grows, held⟩ := mergeBatches_holds ok
    have joined' : Joined P g batches.flatten k :=
      joined_of_holds (separate.mono fun r => split.mem_iff.mp) grows held
    obtain ⟨count', again', _⟩ := joined'.merge wf valid records fun r => split.symm.mem_iff
    exact (congrArg Prod.snd (again'.symm.trans answer))

section Forged
open Transparent

/-- The founding record's id on a signature that is not its own. -/
def impostor : AuthorizationRecord := { founding with signature := [] }

theorem merge_order_independent_pair :
    IdsSeparate ((new cluster).replay primitives []) [admission, founding] ∧
    succeeds (((new cluster).replay primitives []).merge primitives [admission, founding]) = true ∧
    succeeds (((new cluster).replay primitives []).merge primitives [founding, admission]) = true := by
  have separate : IdsSeparate ((new cluster).replay primitives []) [admission, founding] :=
    idsSeparate_of_vals (by decide +kernel)
  have first : succeeds (((new cluster).replay primitives []).merge primitives [admission, founding]) = true := by
    decide +kernel
  refine ⟨separate, first, ?_⟩
  rw [← (merge_order_independent primitives cluster [] [admission, founding] [founding, admission] separate
    (List.Perm.swap _ _ _)).1]
  exact first

/-- The id is looked up before the record is validated, so a record that only claims an id passes
after the real one and fails before it. -/
theorem merge_order_matters_for_impostor :
    [impostor, founding].Perm [founding, impostor] ∧
    ((new cluster).merge primitives [founding, impostor]).1 = .ok 1 ∧
    ((new cluster).merge primitives [impostor, founding]).1 =
      .error (.invalidRecord "record id does not match its signed body") ∧
    ¬ (impostor ∈ ((new cluster).merge primitives [founding, impostor]).2.records) := by
  exact ⟨List.Perm.swap _ _ _, by decide +kernel, by decide +kernel, by decide +kernel⟩

end Forged

end AuthorizationRegistry

end Lycoris.Overlay
