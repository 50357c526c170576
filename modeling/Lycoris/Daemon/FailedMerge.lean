import Lycoris.Daemon.RegistryCommit

/-!
What a failed merge leaves behind (`overlay/src/authorization/registry.rs`). Records are inserted in
place, so those accepted before the error stay; the daemon merges a checkpoint into a clone of its
enrollment and drops the clone on an error (`daemon/src/overlay.rs`).
-/

namespace Lycoris.Overlay
open Lib

namespace AuthorizationRegistry

variable (P : Primitives) (g : AuthorizationRegistry)

/-- The record is new and valid against the registry. -/
def Accepts (r : AuthorizationRecord) : Prop := (g.insert P r).1 = .ok true

/-- The record is invalid for another reason than a missing dependency. -/
def Refuses (r : AuthorizationRecord) : Prop :=
  ∃ error, (g.insert P r).1 = .error error ∧ ∀ id, error ≠ .missingDependency id

/-- Reading the list up to the first record the registry refuses, some record is accepted. -/
def AcceptsEarly (records : List AuthorizationRecord) : Prop :=
  ∃ front r back, records = front ++ r :: back ∧ (∀ s ∈ front, ¬ g.Refuses P s) ∧ g.Accepts P r

variable {P g} {r : AuthorizationRecord} {pending : List AuthorizationRecord}

theorem insert_of_not_accepted (refused : ¬ g.Accepts P r) : (g.insert P r).2 = g := by
  rcases insert_cases (P := P) g r with ⟨_, same⟩ | ⟨_, e, _, same⟩ | ⟨_, _, same⟩
  · rw [same]
  · rw [same]
  · exact absurd (by rw [Accepts, same]) refused

theorem mem_insert_of_accepted (accepted : g.Accepts P r) : r ∉ g ∧ r ∈ (g.insert P r).2 := by
  unfold Accepts at accepted
  rcases insert_cases (P := P) g r with ⟨_, same⟩ | ⟨_, e, _, same⟩ | ⟨fresh, _, same⟩
  · rw [same] at accepted
    cases accepted
  · rw [same] at accepted
    cases accepted
  · rw [same]
    refine ⟨fun member => ?_, (mem_added fresh).mpr (Or.inl rfl)⟩
    have found : g.records.get? r.id = some r := member
    rw [fresh] at found
    cases found

theorem not_acceptsEarly_cons (quiet : ¬ g.AcceptsEarly P (r :: pending)) :
    ¬ g.Accepts P r ∧ (¬ g.Refuses P r → ¬ g.AcceptsEarly P pending) := by
  constructor
  · intro accepted
    exact quiet ⟨[], r, pending, rfl, by simp, accepted⟩
  · rintro passes ⟨front, s, back, split, clean, accepted⟩
    refine quiet ⟨r :: front, s, back, by rw [split, List.cons_append], ?_, accepted⟩
    intro t member
    rcases List.mem_cons.mp member with rfl | later
    · exact passes
    · exact clean t later

/-- The two ends of a round. -/
def roundRegistry (result : Except (AuthorizationError × AuthorizationRegistry) MergeRound) :
    AuthorizationRegistry :=
  match result with
  | .ok round => round.registry
  | .error (_, registry) => registry

/-- A round that accepts nothing keeps the registry, and defers only what it did not accept. -/
theorem mergeRound_unchanged {start : MergeRound} (quiet : ¬ start.registry.AcceptsEarly P pending) :
    roundRegistry (mergeRound P pending start) = start.registry ∧
      ∀ round, mergeRound P pending start = .ok round →
        ∀ s ∈ round.deferred, s ∈ start.deferred ∨ ¬ start.registry.Accepts P s := by
  induction pending generalizing start with
  | nil =>
    refine ⟨rfl, ?_⟩
    rintro round ⟨⟩ s member
    exact Or.inl member
  | cons r pending ih =>
    obtain ⟨refused, later⟩ := not_acceptsEarly_cons quiet
    have same := insert_of_not_accepted refused
    rw [mergeRound]
    split
    · rename_i wasInserted registry answer
      rw [answer] at same
      subst same
      have passes : ¬ start.registry.Refuses P r := by
        rintro ⟨error, failed, _⟩
        rw [answer] at failed
        cases failed
      exact @ih { start with inserted := start.inserted + wasInserted.toNat } (later passes)
    · rename_i id registry answer
      rw [answer] at same
      subst same
      have passes : ¬ start.registry.Refuses P r := by
        rintro ⟨error, failed, other⟩
        rw [answer] at failed
        exact other id (Except.error.inj failed).symm
      obtain ⟨kept, deferred⟩ := @ih { start with
        missing := some id, deferred := start.deferred ++ [r] } (later passes)
      refine ⟨kept, fun round ended s member => ?_⟩
      rcases deferred round ended s member with before | unaccepted
      · rcases List.mem_append.mp before with old | here
        · exact Or.inl old
        · rw [List.mem_singleton.mp here]
          exact Or.inr refused
      · exact Or.inr unaccepted
    · rename_i error registry _ answer
      rw [answer] at same
      exact ⟨same, by simp⟩

/-- A round that reaches an acceptable record inserts one. -/
theorem mergeRound_changed {start : MergeRound} (early : start.registry.AcceptsEarly P pending) :
    ∃ s, s ∉ start.registry ∧ s ∈ roundRegistry (mergeRound P pending start) := by
  induction pending generalizing start with
  | nil =>
    obtain ⟨front, r, back, split, _⟩ := early
    simp at split
  | cons r pending ih =>
    have kept : ∀ next : MergeRound, ∀ s ∈ next.registry, s ∈ roundRegistry (mergeRound P pending next) := by
      intro next s member
      have grows := @mergeRound_grows P (fun _ => True) pending next fun _ _ => trivial
      cases ended : mergeRound P pending next with
      | ok round => exact (grows.1 round ended).extends.records s member
      | error failed => exact (grows.2 failed.1 failed.2 ended).extends.records s member
    by_cases accepted : start.registry.Accepts P r
    · obtain ⟨fresh, member⟩ := mem_insert_of_accepted accepted
      refine ⟨r, fresh, ?_⟩
      rw [mergeRound]
      cases answer : start.registry.insert P r with
      | mk result registry =>
        rw [Accepts, answer] at accepted
        rw [answer] at member
        subst accepted
        exact kept _ r member
    · have same := insert_of_not_accepted accepted
      obtain ⟨front, s, back, split, clean, chosen⟩ := early
      cases front with
      | nil =>
        obtain ⟨rfl, _⟩ := List.cons.inj split
        exact absurd chosen accepted
      | cons first front =>
        obtain ⟨rfl, rest⟩ := List.cons.inj split
        have later : start.registry.AcceptsEarly P pending :=
          ⟨front, s, back, rest, fun t member => clean t (List.mem_cons_of_mem _ member), chosen⟩
        have passes := clean r List.mem_cons_self
        rw [mergeRound]
        split
        · rename_i wasInserted registry answer
          rw [answer] at same
          subst same
          exact @ih { start with inserted := start.inserted + wasInserted.toNat } later
        · rename_i id registry answer
          rw [answer] at same
          subst same
          exact @ih { start with missing := some id, deferred := start.deferred ++ [r] } later
        · rename_i error registry fatal answer
          exact absurd ⟨error, by rw [answer], fatal⟩ passes

theorem mergeRounds_unchanged {inserted : Nat} (quiet : ¬ g.AcceptsEarly P pending) :
    (mergeRounds P g pending inserted).2 = g := by
  fun_induction mergeRounds P g pending inserted with
  | case1 => rfl
  | case2 g pending inserted _ e registry answer =>
    have kept := (@mergeRound_unchanged P pending ⟨g, inserted, [], none⟩ quiet).1
    rw [answer] at kept
    exact kept
  | case3 g pending inserted _ round answer _ _ _ =>
    have kept := (@mergeRound_unchanged P pending ⟨g, inserted, [], none⟩ quiet).1
    rw [answer] at kept
    exact kept
  | case4 g pending inserted _ round answer _ _ =>
    have kept := (@mergeRound_unchanged P pending ⟨g, inserted, [], none⟩ quiet).1
    rw [answer] at kept
    exact kept
  | case5 g pending inserted _ round answer _ ih =>
    obtain ⟨kept, deferred⟩ := @mergeRound_unchanged P pending ⟨g, inserted, [], none⟩ quiet
    rw [answer] at kept
    have same : round.registry = g := kept
    rw [same] at ih ⊢
    apply ih
    rintro ⟨front, r, back, split, _, accepted⟩
    rcases deferred round answer r (by rw [split]; simp) with none | unaccepted
    · cases none
    · exact unaccepted accepted

/-- A merge leaves the registry alone exactly when it meets no acceptable record before the first one
it refuses. -/
theorem merge_unchanged_iff (g : AuthorizationRegistry) (records : List AuthorizationRecord) :
    (g.merge P records).2 = g ↔ ¬ g.AcceptsEarly P records := by
  constructor
  · intro same early
    obtain ⟨s, fresh, member⟩ := @mergeRound_changed P records ⟨g, 0, [], none⟩ early
    have inside : s ∈ (g.merge P records).2 := by
      rw [merge, mergeRounds]
      split
      · rename_i empty
        obtain ⟨front, r, back, split, _⟩ := early
        rw [split] at empty
        simp at empty
      · split
        · rename_i error registry ended
          rw [ended] at member
          exact member
        · rename_i round ended
          rw [ended] at member
          split
          · split
            · exact member
            · exact member
          · have grows : Grows P (fun _ => True) round.registry
                (mergeRounds P round.registry round.deferred round.inserted).2 :=
              mergeRounds_grows fun _ _ => trivial
            exact grows.extends.records s member
    rw [same] at inside
    exact fresh inside
  · exact mergeRounds_unchanged

/-- The records of a merge that fails halfway: the first is accepted, the second refused. -/
theorem failed_merge_keeps_first :
    let g := (new Transparent.cluster).replay Transparent.primitives [.insert Transparent.founding]
    let merged := g.merge Transparent.primitives Enrollment.spoiledCheckpoint
    merged.1 = .error (.invalidRecord "record id does not match its signed body") ∧
      Transparent.admission ∉ g.records ∧ Transparent.admission ∈ merged.2.records := by
  exact ⟨by decide +kernel, by decide +kernel, by decide +kernel⟩

end AuthorizationRegistry

end Lycoris.Overlay

namespace Lycoris.Daemon
open Lib Overlay Overlay.AuthorizationRegistry

/-- After a failed merge the registry still holds what it held, each further record is one of the
list and was validated when it was inserted, and there is none exactly when no acceptable record
stands before the first refused one. No registry is built from the list on its own, and a node that
receives the list as a checkpoint answers with a rejection and is otherwise as before. -/
theorem failed_merge (P : Primitives) (A : AdmissionPrimitives) (identity : NodeIdentity P)
    (g : AuthorizationRegistry) (records : List AuthorizationRecord) (error : AuthorizationError)
    (failed : (g.merge P records).1 = .error error) :
    Grows P (· ∈ records) g (g.merge P records).2 ∧ Extends g (g.merge P records).2 ∧
      (∀ r ∈ (g.merge P records).2, r ∈ g ∨ r ∈ records) ∧
      ((g.merge P records).2 = g ↔ ¬ g.AcceptsEarly P records) ∧
      (g = new g.clusterId → fromRecords P g.clusterId records = .error error) ∧
      ∀ node : OverlayNode P, node.enrollment.registry = g →
        node.handle A identity (.checkpoint records) = node.answer .rejected := by
  have grows : Grows P (· ∈ records) g (g.merge P records).2 := merge_grows fun _ member => member
  refine ⟨grows, grows.extends, fun r => grows.mem, merge_unchanged_iff g records, ?_, ?_⟩
  · intro empty
    rw [fromRecords, ← empty]
    cases answer : g.merge P records with
    | mk result registry =>
      rw [answer] at failed
      dsimp only at failed
      rw [failed]
  · intro node held
    rw [OverlayNode.handle, Enrollment.mergeCheckpoint, held]
    cases answer : g.merge P records with
    | mk result registry =>
      rw [answer] at failed
      dsimp only at failed
      rw [failed]

section Spoiled
open Transparent

/-- The checkpoint reaches the founder's node, whose registry a plain merge would have grown. -/
theorem failed_merge_spoiled :
    let g := (new cluster).replay primitives [.insert founding]
    (g.merge primitives Enrollment.spoiledCheckpoint).1 =
        .error (.invalidRecord "record id does not match its signed body") ∧
      Extends g (g.merge primitives Enrollment.spoiledCheckpoint).2 ∧
      (OverlayNode.start g none).handle admissionPrimitives founder
        (.checkpoint Enrollment.spoiledCheckpoint) = (OverlayNode.start g none).answer .rejected := by
  intro g
  have failed : (g.merge primitives Enrollment.spoiledCheckpoint).1 =
      .error (.invalidRecord "record id does not match its signed body") := by decide +kernel
  have kept := failed_merge primitives admissionPrimitives founder g Enrollment.spoiledCheckpoint _ failed
  exact ⟨failed, kept.2.1, kept.2.2.2.2.2 (.start g none) rfl⟩

end Spoiled

end Lycoris.Daemon
