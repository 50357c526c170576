import Lycoris.Daemon.Resources

/-!
Replicas that apply the same resources in different orders. They end with the same storage, field for
field, exactly when in every slot the records of the winning stamp are one record, and the winner that
finds content under its own hash finds its own.
-/

namespace Lycoris.Daemon
open Lib Cluster Stores ResourceMapper ResourceSync

/-! ### Resources as arrivals -/

section Arrivals

variable {blake3 : Bytes → Hash} {storage : Storage} {resource : Resource} {resources : List Resource}

theorem applyLogged_ok {arrival : Arrival} (decoded : decodeResource resource = .ok arrival) :
    applyLogged blake3 storage resource = storage.received blake3 arrival := by
  rw [applyLogged, applyResource, decoded]
  cases arrival <;> rfl

theorem applyLogged_error {error : MapperError} (refused : decodeResource resource = .error error) :
    applyLogged blake3 storage resource = storage := by
  rw [applyLogged, applyResource, refused]

/-- The records that the resources of a list decode to. -/
def arrivalsOf (resources : List Resource) : List Arrival :=
  resources.filterMap fun resource => (decodeResource resource).toOption

theorem mem_arrivalsOf {arrival : Arrival} :
    arrival ∈ arrivalsOf resources ↔ ∃ resource ∈ resources, decodeResource resource = .ok arrival := by
  unfold arrivalsOf
  rw [List.mem_filterMap]
  refine exists_congr fun resource => and_congr_right fun _ => ?_
  cases decodeResource resource <;> simp [Except.toOption]

theorem foldl_applyLogged :
    resources.foldl (applyLogged blake3) storage =
      (arrivalsOf resources).foldl (Storage.received blake3) storage := by
  induction resources generalizing storage with
  | nil => rfl
  | cons resource rest ih =>
    cases decoded : decodeResource resource with
    | error error =>
      rw [List.foldl_cons, applyLogged_error decoded, ih]
      simp [arrivalsOf, decoded, Except.toOption]
    | ok arrival =>
      rw [List.foldl_cons, applyLogged_ok decoded, ih]
      simp [arrivalsOf, decoded, Except.toOption]

end Arrivals

/-! ### Storages are their slots -/

section Slots

variable {R : Type} {id : R → String}

theorem keyedMap_ext {f : R → Row} (injective : Function.Injective f) {table other : KeyedMap id}
    (same : ∀ key, (table.get? key).map f = (other.get? key).map f) : table = other :=
  KeyedMap.ext_get? fun key => Option.map_injective injective (same key)

theorem backed_ext {f : R → Row} (injective : Function.Injective f) {store other : Backed id}
    (rows : ∀ key, (store.records.get? key).map f = (other.records.get? key).map f)
    (files : ∀ key : String, store.files[key]? = other.files[key]?) : store = other := by
  obtain ⟨records, kept⟩ := store
  obtain ⟨records', kept'⟩ := other
  have sameRecords : records = records' := keyedMap_ext injective rows
  have sameFiles : kept = kept' := Std.ExtTreeMap.ext_getElem? fun {key} => files key
  rw [sameRecords, sameFiles]

theorem storage_ext {storage other : Storage} (same : ∀ key, storage.slot key = other.slot key) :
    storage = other := by
  have rows : ∀ key, storage.row key = other.row key := fun key => congrArg Cell.row (same key)
  have files : ∀ key, storage.file key = other.file key := fun key => congrArg Cell.file (same key)
  obtain ⟨⟨memory⟩, ⟨workspaces, skills, rules⟩, extensions⟩ := storage
  obtain ⟨⟨memory'⟩, ⟨workspaces', skills', rules'⟩, extensions'⟩ := other
  have sameMemory : memory = memory' :=
    keyedMap_ext (fun _ _ => Row.memory.inj) fun id => rows (.memory, id)
  have sameWorkspaces : workspaces = workspaces' :=
    keyedMap_ext (fun _ _ => Row.workspace.inj) fun id => rows (.workspace, id)
  have sameSkills : skills = skills' :=
    backed_ext (fun _ _ => Row.skill.inj) (fun id => rows (.skill, id)) fun id => files (.skill, id)
  have sameRules : rules = rules' :=
    backed_ext (fun _ _ => Row.rule.inj) (fun id => rows (.rule, id)) fun id => files (.rule, id)
  have sameExtensions : extensions = extensions' :=
    backed_ext (fun _ _ => Row.extension.inj) (fun id => rows (.extension, id))
      fun id => files (.extension, id)
  rw [sameMemory, sameWorkspaces, sameSkills, sameRules, sameExtensions]

end Slots

/-! ### Convergence -/

/-- Every resource decodes to a well-formed record. -/
def WellFormedResources (blake3 : Bytes → Hash) (resources : List Resource) : Prop :=
  ∀ resource ∈ resources, ∃ arrival, decodeResource resource = .ok arrival ∧ arrival.WellFormed blake3

/-- No two contents among the resources have one hash. -/
def CollisionFree (blake3 : Bytes → Hash) (resources : List Resource) : Prop :=
  ∀ arrival ∈ arrivalsOf resources, ∀ other ∈ arrivalsOf resources,
    ∀ content ∈ arrival.body, ∀ content' ∈ other.body,
      hashContent blake3 content = hashContent blake3 content' → content = content'

/-- All orders and repetitions of the resources leave one storage. -/
def Converge (blake3 : Bytes → Hash) (storage : Storage) (resources : List Resource) : Prop :=
  ∀ xs ys : List Resource, (∀ resource, resource ∈ xs ↔ resource ∈ resources) →
    (∀ resource, resource ∈ ys ↔ resource ∈ resources) →
    xs.foldl (applyLogged blake3) storage = ys.foldl (applyLogged blake3) storage

/-- The offers of the resources decide every slot that the node has not claimed. -/
def DecidedEverywhere (storage : Storage) (resources : List Resource) : Prop :=
  ∀ key, Unclaimed (storage.slot key) →
    Cell.Decided stamp Row.contentHash (storage.slot key)
      ((sharedAt key (arrivalsOf resources)).map Arrival.offer)

section Converge

variable {blake3 : Bytes → Hash} {storage : Storage} {resources xs : List Resource} {key : ResourceKey}

theorem wellFormed_arrivals (wellFormed : WellFormedResources blake3 resources)
    (inside : ∀ resource ∈ xs, resource ∈ resources) :
    ∀ arrival ∈ arrivalsOf xs, arrival.WellFormed blake3 := by
  intro arrival listed
  obtain ⟨resource, member, decoded⟩ := mem_arrivalsOf.mp listed
  obtain ⟨known, decoded', formed⟩ := wellFormed resource (inside resource member)
  cases decoded.symm.trans decoded'
  exact formed

/-- Well-formed bodies of one slot hash to the content hashes of their rows. -/
theorem body_hash {arrival : Arrival} (formed : arrival.WellFormed blake3) {content : Bytes}
    (body : arrival.body = some content) : hashContent blake3 content = arrival.row.contentHash := by
  cases arrival with
  | memory entry => cases body
  | skill record text => cases body; exact formed.2.2
  | rule record text => cases body; exact formed.2.2
  | workspace record => cases body
  | extension record artifact => cases body; exact formed.2.2

theorem body_kind {arrival other : Arrival} (same : arrival.key = other.key) :
    arrival.body.isSome = other.body.isSome := by
  have kinds : arrival.key.1 = other.key.1 := congrArg Prod.fst same
  cases arrival <;> cases other <;> first | rfl | cases kinds

theorem settled_offers (wellFormed : WellFormedResources blake3 resources)
    (collisionFree : CollisionFree blake3 resources) :
    Cell.SettledByTag Row.contentHash ((sharedAt key (arrivalsOf resources)).map Arrival.offer) := by
  intro offered listed other listed' tagged
  obtain ⟨arrival, member, rfl⟩ := List.mem_map.mp listed
  obtain ⟨arrival', member', rfl⟩ := List.mem_map.mp listed'
  obtain ⟨inside, own⟩ := List.mem_filter.mp member
  obtain ⟨inside', own'⟩ := List.mem_filter.mp member'
  have keys : arrival.key = arrival'.key := by
    have here := (of_decide_eq_true own).1
    exact here.trans (of_decide_eq_true own').1.symm
  have kinds := body_kind keys
  show arrival.body = arrival'.body
  cases body : arrival.body with
  | none =>
    rw [body] at kinds
    exact (Option.isSome_eq_false_iff.mp kinds.symm |> Option.isNone_iff_eq_none.mp).symm
  | some content =>
    rw [body] at kinds
    obtain ⟨content', body'⟩ := Option.isSome_iff_exists.mp kinds.symm
    have hash := body_hash (wellFormed_arrivals wellFormed (fun _ known => known) arrival inside) body
    have hash' := body_hash (wellFormed_arrivals wellFormed (fun _ known => known) arrival' inside') body'
    rw [body', collisionFree arrival inside arrival' inside' content body content' body'
      (hash.trans (tagged.trans hash'.symm))]

theorem slot_of_resources (wellFormed : WellFormedResources blake3 resources)
    (inside : ∀ resource ∈ xs, resource ∈ resources) (unclaimed : Unclaimed (storage.slot key)) :
    (xs.foldl (applyLogged blake3) storage).slot key =
      ((sharedAt key (arrivalsOf xs)).map Arrival.offer).foldl (Cell.offer stamp Row.contentHash)
        (storage.slot key) := by
  rw [foldl_applyLogged, slot_of_arrivals (wellFormed_arrivals wellFormed inside) unclaimed]

theorem mem_offers_of_same {ys : List Resource} (same : ∀ resource, resource ∈ xs → resource ∈ ys)
    {offered : Offer Row Bytes} (listed : offered ∈ (sharedAt key (arrivalsOf xs)).map Arrival.offer) :
    offered ∈ (sharedAt key (arrivalsOf ys)).map Arrival.offer := by
  obtain ⟨arrival, member, rfl⟩ := List.mem_map.mp listed
  obtain ⟨known, own⟩ := List.mem_filter.mp member
  obtain ⟨resource, inside, decoded⟩ := mem_arrivalsOf.mp known
  refine List.mem_map.mpr ⟨arrival, List.mem_filter.mpr ⟨?_, own⟩, rfl⟩
  exact mem_arrivalsOf.mpr ⟨resource, same resource inside, decoded⟩

/-- Offers to a slot come from resources of the list. -/
theorem exists_resources : ∀ firsts : List (Offer Row Bytes),
    (∀ offered ∈ firsts, offered ∈ (sharedAt key (arrivalsOf resources)).map Arrival.offer) →
    ∃ xs : List Resource, (∀ resource ∈ xs, resource ∈ resources) ∧
      (sharedAt key (arrivalsOf xs)).map Arrival.offer = firsts := by
  intro firsts
  induction firsts with
  | nil => exact fun _ => ⟨[], by simp, rfl⟩
  | cons offered rest ih =>
    intro listed
    obtain ⟨first, later⟩ := List.forall_mem_cons.mp listed
    obtain ⟨xs, inside, offers⟩ := ih later
    obtain ⟨arrival, member, rfl⟩ := List.mem_map.mp first
    obtain ⟨known, own⟩ := List.mem_filter.mp member
    obtain ⟨resource, source, decoded⟩ := mem_arrivalsOf.mp known
    refine ⟨resource :: xs, List.forall_mem_cons.mpr ⟨source, inside⟩, ?_⟩
    have split : arrivalsOf (resource :: xs) = arrival :: arrivalsOf xs := by
      simp [arrivalsOf, decoded, Except.toOption]
    have kept : sharedAt key (arrival :: arrivalsOf xs) = arrival :: sharedAt key (arrivalsOf xs) :=
      List.filter_cons_of_pos own
    rw [split, kept, List.map_cons, offers]

theorem claimed_or_unclaimed (storage : Storage) (key : ResourceKey) :
    Unclaimed (storage.slot key) ∨ ∃ row, storage.row key = some row ∧ row.scope = .nodeLocal := by
  by_cases isLocal : ∃ row, storage.row key = some row ∧ row.scope = .nodeLocal
  · exact .inr isLocal
  · left
    intro row held
    cases scope : row.scope with
    | clusterShared => rfl
    | nodeLocal => exact absurd ⟨row, held, scope⟩ isLocal

/-- Replicas converge on well-formed resources exactly when every slot is decided. -/
theorem replicas_converge_iff (wellFormed : WellFormedResources blake3 resources)
    (collisionFree : CollisionFree blake3 resources) :
    Converge blake3 storage resources ↔ DecidedEverywhere storage resources := by
  constructor
  · intro converge key unclaimed
    refine Cell.decided_of_absorbs fun firsts listed => ?_
    obtain ⟨xs, inside, offers⟩ := exists_resources firsts listed
    have members : ∀ resource, resource ∈ xs ++ resources ↔ resource ∈ resources := by
      intro resource
      rw [List.mem_append]
      exact ⟨fun known => known.elim (inside resource) id, .inr⟩
    have same := converge (xs ++ resources) resources members fun _ => Iff.rfl
    have slots : (_ : Storage).slot key = (_ : Storage).slot key := congrArg (Storage.slot · key) same
    rw [slot_of_resources wellFormed (fun resource known => (members resource).mp known) unclaimed,
      slot_of_resources wellFormed (fun _ known => known) unclaimed] at slots
    rw [← offers, ← slots]
    simp [arrivalsOf, sharedAt]
  · intro decided xs ys sameXs sameYs
    refine storage_ext fun key => ?_
    have once : ∀ zs : List Resource, (∀ resource, resource ∈ zs ↔ resource ∈ resources) →
        (zs.foldl (applyLogged blake3) storage).slot key =
          (resources.foldl (applyLogged blake3) storage).slot key := by
      intro zs same
      rcases claimed_or_unclaimed storage key with unclaimed | ⟨row, held, isLocal⟩
      · rw [slot_of_resources wellFormed (fun resource => (same resource).mp) unclaimed,
          slot_of_resources wellFormed (fun _ known => known) unclaimed]
        refine (Cell.foldl_offer_eq_of_same (settled_offers wellFormed collisionFree)
          (decided key unclaimed) fun offered => ?_).symm
        exact ⟨mem_offers_of_same fun resource => (same resource).mpr,
          mem_offers_of_same fun resource => (same resource).mp⟩
      · rw [foldl_applyLogged, foldl_applyLogged, slot_claimed held isLocal, slot_claimed held isLocal]
    rw [once xs sameXs, once ys sameYs]

end Converge

/-! ### Two skills of one stamp -/

def sampleResource (version : UInt64) (name content : String) : Resource :=
  versionedToResource { sampleSkill version content with name := name } .skill (some content)

theorem sampleResource_decodes (version : UInt64) (name content : String) :
    decodeResource (sampleResource version name content) =
      .ok (.skill { sampleSkill version content with name := name } content) := rfl

theorem sampleResource_wellFormed {content : String} (filled : content ≠ "") (version : UInt64) (name : String) :
    (Arrival.skill { sampleSkill version content with name := name } content).WellFormed sampleDigest :=
  ⟨show validate "greet" = .ok () by decide, filled, rfl⟩

theorem row_empty (key : ResourceKey) : Storage.empty.row key = none := by
  obtain ⟨kind, id⟩ := key
  cases kind <;> simp [Storage.row, Storage.empty]

/-- Two concurrent renames of one version at one time are both well-formed, and the first one stays. -/
theorem renames_diverge :
    WellFormedResources sampleDigest [sampleResource 1 "left" "a", sampleResource 1 "right" "a"] ∧
      ¬ Converge sampleDigest .empty [sampleResource 1 "left" "a", sampleResource 1 "right" "a"] := by
  constructor
  · intro resource listed
    rcases List.mem_pair.mp listed with rfl | rfl
    · exact ⟨_, sampleResource_decodes 1 "left" "a", sampleResource_wellFormed (by decide) 1 "left"⟩
    · exact ⟨_, sampleResource_decodes 1 "right" "a", sampleResource_wellFormed (by decide) 1 "right"⟩
  · intro converge
    have same := converge [sampleResource 1 "left" "a", sampleResource 1 "right" "a"]
      [sampleResource 1 "right" "a", sampleResource 1 "left" "a"] (fun _ => Iff.rfl)
      fun resource => by rw [List.mem_pair, List.mem_pair, or_comm]
    have names := congrArg (fun last : Storage =>
      (last.workspace.skills.records.get? "greet").map VersionedResource.name) same
    exact absurd names (by decide)

/-- Two versions of one skill leave one storage in both orders. -/
theorem versions_converge :
    Converge sampleDigest .empty [sampleResource 1 "left" "a", sampleResource 2 "right" "b"] := by
  refine (replicas_converge_iff ?_ ?_).mpr ?_
  · intro resource listed
    rcases List.mem_pair.mp listed with rfl | rfl
    · exact ⟨_, sampleResource_decodes 1 "left" "a", sampleResource_wellFormed (by decide) 1 "left"⟩
    · exact ⟨_, sampleResource_decodes 2 "right" "b", sampleResource_wellFormed (by decide) 2 "right"⟩
  · intro arrival listed other listed' content body content' body'
    rcases List.mem_pair.mp listed with rfl | rfl <;> rcases List.mem_pair.mp listed' with rfl | rfl <;>
      cases body <;> cases body'
    · exact fun _ => rfl
    · exact fun same => absurd same (by decide)
    · exact fun same => absurd same (by decide)
    · exact fun _ => rfl
  · intro key _
    refine ⟨fun offered other top top' => ?_, fun offered top tagged => ?_⟩
    · have stamps := top.stamp_eq top'
      obtain ⟨arrival, member, rfl⟩ := List.mem_map.mp top.listed
      obtain ⟨arrival', member', rfl⟩ := List.mem_map.mp top'.listed
      rcases List.mem_pair.mp (List.mem_filter.mp member).1 with rfl | rfl <;>
        rcases List.mem_pair.mp (List.mem_filter.mp member').1 with rfl | rfl
      · rfl
      · exact absurd (stamp_inj.mp stamps).1 (by decide)
      · exact absurd (stamp_inj.mp stamps).1 (by decide)
      · rfl
    · have missing : (Storage.empty.slot key).row = none := row_empty key
      rw [missing] at tagged
      cases tagged

end Lycoris.Daemon
