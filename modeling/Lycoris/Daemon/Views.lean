import Lycoris.Cluster.Fingerprint
import Lycoris.Cluster.Forward
import Lycoris.Daemon.Membership

/-!
Runs of the membership service from an `Active` register of its own: the view only moves forward, and
nobody but the node itself changes what its own register says.
-/

namespace Lycoris.Daemon
open Lib Cluster

variable (blake3 : Bytes → Hash)

namespace MembershipService

/-- The states of a service that started from its own `Active` register. -/
inductive Started : MembershipService → Prop
  | new (localNodeId : String) (config : SwimConfig) {own : MemberRegister}
      (named : own.nodeId = localNodeId) (active : own.state = .active)
      (order : HashOrder MemberRegister) : Started (new blake3 localNodeId config own order)
  | withMeta {service : MembershipService} (started : Started service) (table : StringMap) :
      Started (service.withMeta table)
  | step {service : MembershipService} (started : Started service) (env : Circumstances)
      (call : ServiceCall) : Started (service.step blake3 env call)

/-- A sequence of calls, each in its own circumstances. -/
def run (service : MembershipService) (calls : List (Circumstances × ServiceCall)) :
    MembershipService :=
  calls.foldl (fun service call => service.step blake3 call.1 call.2) service

/-- What every call keeps of the own register. -/
structure OwnsItself (service : MembershipService) : Prop where
  named : service.swim.localNodeId = service.localNodeId
  pings : service.swim.PingsElsewhere
  owned : Owned service.swim.localNodeId service.swim.membership

variable {blake3} {service : MembershipService}

namespace OwnsItself

variable (blake3) (owns : OwnsItself service)
include owns

/-- Every call is an advance of the failure detector. -/
theorem advance (env : Circumstances) (call : ServiceCall) :
    (service.step blake3 env call).localNodeId = service.localNodeId ∧
      Swim.Advance call.Tells service.swim (service.step blake3 env call).swim := by
  by_cases query : call = .merkleTree
  · subst query
    obtain ⟨named, swim⟩ := merkleTree_frame blake3 service env.iteration.members
    refine ⟨named, ?_⟩
    show Swim.Advance _ _ (service.merkleTree blake3 env.iteration.members).1.swim
    rw [swim]
    exact .refl owns.pings
  · have through := step_advances blake3 owns.pings owns.named env query
    exact ⟨through.named, through.swim⟩

theorem step (env : Circumstances) (call : ServiceCall) :
    OwnsItself (service.step blake3 env call) := by
  obtain ⟨named, advance⟩ := advance blake3 owns env call
  refine ⟨by rw [advance.self, named, owns.named], advance.pings, ?_⟩
  rw [advance.self]
  exact Writes.owned advance.writes owns.owned

/-- A call moves the view forward. -/
theorem step_forward (env : Circumstances) (call : ServiceCall) :
    Rises service.swim.membership (service.step blake3 env call).swim.membership ∧
      StaysLeaving service.localNodeId service.swim.membership
        (service.step blake3 env call).swim.membership := by
  obtain ⟨_, advance⟩ := advance blake3 owns env call
  rw [← owns.named]
  exact Writes.forward advance.writes owns.owned

/-- A call from outside leaves the own metadata alone. -/
theorem step_keepsOwn (env : Circumstances) {call : ServiceCall} (outside : call.FromOutside) :
    KeepsOwn service.localNodeId service.swim.membership
      (service.step blake3 env call).swim.membership := by
  by_cases query : call = .merkleTree
  · subst query
    show KeepsOwn _ _ (service.merkleTree blake3 env.iteration.members).1.swim.membership
    rw [(merkleTree_frame blake3 service env.iteration.members).2]
    exact .refl _ _
  · have through := step_gossips blake3 owns.pings env outside query
    rw [← owns.named]
    exact (Gossip.keepsOwn_run through.swim.writes owns.owned).1

end OwnsItself

theorem Started.ownsItself (started : Started blake3 service) : OwnsItself service := by
  induction started with
  | new localNodeId config named active order =>
    obtain ⟨pings, owned⟩ := Swim.new_owned localNodeId config named active
    exact ⟨rfl, pings, owned⟩
  | withMeta _ table ih => exact ⟨ih.named, ih.pings, ih.owned⟩
  | step _ env call ih => exact ih.step blake3 env call

/-! ### The view -/

theorem OwnsItself.run_forward (owns : OwnsItself service)
    (calls : List (Circumstances × ServiceCall)) :
    Rises service.swim.membership (service.run blake3 calls).swim.membership ∧
      StaysLeaving service.localNodeId service.swim.membership
        (service.run blake3 calls).swim.membership := by
  induction calls generalizing service with
  | nil => exact ⟨.refl _, .refl _ _⟩
  | cons call rest ih =>
    obtain ⟨rises, leaves⟩ := owns.step_forward blake3 call.1 call.2
    obtain ⟨rises', leaves'⟩ := ih (owns.step blake3 call.1 call.2)
    rw [(owns.advance blake3 call.1 call.2).1] at leaves'
    exact ⟨rises.trans rises', leaves.trans leaves'⟩

/-- In every run of a service that started from its own `Active` register no known id disappears and no
order key goes down, and once the own register is `Leaving` it stays so in its incarnation. -/
theorem view_moves_forward (started : Started blake3 service)
    (calls : List (Circumstances × ServiceCall)) :
    (∀ nodeId register, service.swim.membership.get nodeId = some register →
      ∃ next, (service.run blake3 calls).swim.membership.get nodeId = some next ∧
        register.orderKey ≤ next.orderKey) ∧
    (∀ own, service.swim.membership.get service.localNodeId = some own → own.state = .leaving →
      ∃ next, (service.run blake3 calls).swim.membership.get service.localNodeId = some next ∧
        next.state = .leaving ∧ next.incarnation = own.incarnation) :=
  started.ownsItself.run_forward calls

/-- A service of one incarnation, and the circumstances of its calls. -/
def quietEnv : Circumstances := ⟨5, ⟨.sorted _, .sorted _⟩, true⟩

def aloneService : MembershipService :=
  new sampleBlake3 "node" .default Swim.ownRegister (.sorted _)

theorem aloneService_started : Started sampleBlake3 aloneService :=
  .new "node" .default rfl rfl (.sorted _)

theorem aloneService_own : aloneService.swim.membership.get "node" = some Swim.ownRegister :=
  Swim.freshNode_own

theorem suspected_alone_moves_forward :
    ∃ next, (aloneService.run sampleBlake3
        [(quietEnv, .onProbe "peer" (.suspect "node" 1)), (quietEnv, .tick)]).swim.membership.get
          "node" = some next ∧ Swim.ownRegister.orderKey ≤ next.orderKey :=
  (view_moves_forward aloneService_started _).1 "node" Swim.ownRegister aloneService_own

/-! ### The own register -/

theorem OwnsItself.run_keepsOwn (owns : OwnsItself service)
    {calls : List (Circumstances × ServiceCall)} (outside : ∀ call ∈ calls, call.2.FromOutside) :
    KeepsOwn service.localNodeId service.swim.membership
      (service.run blake3 calls).swim.membership := by
  induction calls generalizing service with
  | nil => exact .refl _ _
  | cons call rest ih =>
    have first := owns.step_keepsOwn blake3 call.1 (outside call List.mem_cons_self)
    have later := ih (owns.step blake3 call.1 call.2) fun other member =>
      outside other (List.mem_cons_of_mem call member)
    rw [(owns.advance blake3 call.1 call.2).1] at later
    exact first.trans later

end MembershipService

theorem getElem?_insertMany_toList (map other : StringMap) (key : String) :
    (map.insertMany other.toList)[key]? = other[key]?.or map[key]? := by
  cases found : other[key]? with
  | none =>
    have absent : ¬ key ∈ other := by
      rw [Std.ExtTreeMap.mem_iff_isSome_getElem?, found]
      decide
    rw [Option.none_or]
    apply Std.ExtTreeMap.getElem?_insertMany_list_of_contains_eq_false
    rw [Std.ExtTreeMap.map_fst_toList_eq_keys, ← Bool.not_eq_true, List.contains_iff_mem,
      Std.ExtTreeMap.mem_keys]
    exact absent
  | some value =>
    rw [Option.some_or]
    exact Std.ExtTreeMap.getElem?_insertMany_list_of_mem Std.ReflCmp.compare_self
      Std.ExtTreeMap.distinct_keys_toList (Std.ExtTreeMap.mem_toList_iff_getElem?_eq_some.mpr found)

namespace MembershipService

theorem getElem?_withExtensions (annotations extensions : StringMap) (key : String) :
    (withExtensions annotations extensions)[key]? =
      if key.startsWith extensionAnnotationPrefix then extensions[key]? else annotations[key]? := by
  rw [withExtensions, getElem?_insertMany_toList, Std.ExtTreeMap.getElem?_filter',
    Std.ExtTreeMap.getElem?_filter']
  cases key.startsWith extensionAnnotationPrefix
  · cases annotations[key]? <;> simp
  · cases extensions[key]? <;> simp

/-- The register that an annotation update leaves: at a saturated heartbeat the update ties with what
is held, and the larger annotations stay. -/
theorem merge_annotated {own : MemberRegister} (state : own.state = .active ∨ own.state = .leaving)
    (annotations : StringMap) (nowMs : Int) :
    let updated := ({ own with annotations := annotations } : MemberRegister).bumpHeartbeat nowMs
    let next := own.merge updated
    next.address = own.address ∧ next.labels = own.labels ∧ next.state = own.state ∧
      (next.annotations = own.annotations ∨ next.annotations = annotations) ∧
      (own.heartbeat.toNat < 2 ^ 64 - 1 → next.annotations = annotations) := by
  intro updated next
  have kept : updated.state = own.state :=
    MemberRegister.bumpHeartbeat_state { own with annotations := annotations } nowMs state
  have beat : updated.heartbeat.toNat = min (own.heartbeat.toNat + 1) (2 ^ 64 - 1) :=
    saturatingSucc_toNat own.heartbeat
  by_cases room : own.heartbeat.toNat < 2 ^ 64 - 1
  · have less : own.orderKey < updated.orderKey := by
      rw [MemberRegister.orderKey_lt, kept, beat]
      have same : updated.incarnation = own.incarnation := rfl
      rw [same]
      omega
    have taken : next = updated := MemberRegister.merge_of_dominated less
    rw [taken]
    exact ⟨rfl, rfl, kept, .inr rfl, fun _ => rfl⟩
  · have tie : own.orderKey = updated.orderKey := by
      rw [MemberRegister.orderKey_inj]
      refine ⟨rfl, kept.symm, UInt64.toNat_inj.mp ?_⟩
      have bound := own.heartbeat.toNat_lt
      rw [beat]
      omega
    have tied : next = own.mergeMetadata updated := MemberRegister.merge_of_equal tie
    rw [tied, MemberRegister.mergeMetadata_eq]
    refine ⟨larger_self _, larger_self _, rfl, ?_, fun less => absurd less room⟩
    unfold larger
    dsimp only
    split
    · exact .inr rfl
    · exact .inl rfl

theorem get_updateLocalAnnotations (owns : OwnsItself service) {own : MemberRegister}
    (found : service.swim.membership.get service.localNodeId = some own)
    (extensionAnnotations : StringMap) (env : Circumstances) :
    ∃ next, (service.updateLocalAnnotations extensionAnnotations env).1.swim.membership.get
        service.localNodeId = some next ∧
      next.address = own.address ∧ next.labels = own.labels ∧ next.state = own.state ∧
      (next.annotations = own.annotations ∨
        next.annotations = withExtensions own.annotations extensionAnnotations) ∧
      (own.heartbeat.toNat < 2 ^ 64 - 1 →
        next.annotations = withExtensions own.annotations extensionAnnotations) := by
  obtain ⟨register, held, state⟩ := owns.owned
  rw [owns.named] at held
  obtain rfl := Option.some.inj (found.symm.trans held)
  unfold updateLocalAnnotations
  rw [found]
  dsimp only
  split
  · rename_i same
    exact ⟨own, found, rfl, rfl, rfl, .inl rfl, fun _ => same.symm⟩
  · obtain ⟨address, labels, kept, either, room⟩ := merge_annotated state
      (withExtensions own.annotations extensionAnnotations) env.nowMs
    have named : own.nodeId = service.localNodeId := Membership.nodeId_of_get found
    rw [persist_swim]
    exact ⟨_, Membership.get_mergeRegister_known named found, address, labels, kept, either, room⟩

/-- In every state of a service and of its failure detector, messages from outside and ticks leave the
own address, labels, annotations and state as they are, and an annotation update changes annotations
with the `ext.` prefix only; below the last heartbeat it sets them. -/
theorem own_register_untouched :
    (∀ service, Started blake3 service → ∀ own,
      service.swim.membership.get service.localNodeId = some own →
      (∀ calls : List (Circumstances × ServiceCall), (∀ call ∈ calls, call.2.FromOutside) →
        ∃ next, (service.run blake3 calls).swim.membership.get service.localNodeId = some next ∧
          next.address = own.address ∧ next.labels = own.labels ∧
          next.annotations = own.annotations ∧ next.state = own.state ∧
          (own.state = .active ∨ own.state = .leaving)) ∧
      ∀ (extensionAnnotations : StringMap) (env : Circumstances),
        ∃ next, (service.updateLocalAnnotations extensionAnnotations env).1.swim.membership.get
            service.localNodeId = some next ∧
          next.address = own.address ∧ next.labels = own.labels ∧ next.state = own.state ∧
          (∀ key : String, key.startsWith extensionAnnotationPrefix = false →
            next.annotations[key]? = own.annotations[key]?) ∧
          (own.heartbeat.toNat < 2 ^ 64 - 1 →
            ∀ key : String, key.startsWith extensionAnnotationPrefix = true →
              next.annotations[key]? = extensionAnnotations[key]?)) ∧
    ∀ swim, Swim.Reachable swim → ∀ own, swim.membership.get swim.localNodeId = some own →
      ∀ events : List SwimEvent, (∀ event ∈ events, event.FromOutside) →
        ∃ next, (events.foldl Swim.step swim).membership.get swim.localNodeId = some next ∧
          next.address = own.address ∧ next.labels = own.labels ∧
          next.annotations = own.annotations ∧ next.state = own.state ∧
          (own.state = .active ∨ own.state = .leaving) := by
  refine ⟨?_, ?_⟩
  · intro service started own found
    have owns := started.ownsItself
    obtain ⟨register, held, state⟩ := owns.owned
    rw [owns.named] at held
    obtain rfl := Option.some.inj (found.symm.trans held)
    constructor
    · intro calls outside
      obtain ⟨next, found', address, labels, annotations, same⟩ :=
        owns.run_keepsOwn outside own found
      exact ⟨next, found', address, labels, annotations, same, state⟩
    · intro extensionAnnotations env
      obtain ⟨next, found', address, labels, same, either, room⟩ :=
        get_updateLocalAnnotations owns found extensionAnnotations env
      refine ⟨next, found', address, labels, same, ?_, ?_⟩
      · intro key outside
        rcases either with kept | updated
        · rw [kept]
        · rw [updated, getElem?_withExtensions, outside, if_neg Bool.false_ne_true]
      · intro less key inside
        rw [room less, getElem?_withExtensions, inside, if_pos rfl]
  · intro swim reachable own found events outside
    obtain ⟨pings, register, held, state⟩ := reachable.owned
    obtain rfl := Option.some.inj (found.symm.trans held)
    obtain ⟨next, found', address, labels, annotations, same⟩ :=
      Swim.run_keepsOwn pings ⟨own, held, state⟩ outside own found
    exact ⟨next, found', address, labels, annotations, same, state⟩

theorem alone_register_untouched :
    (∃ next, (aloneService.run sampleBlake3
        [(quietEnv, .onProbe "peer" (.alive Swim.laterLife)),
          (quietEnv, .onProbe "peer" (.suspect "node" 1)), (quietEnv, .tick)]).swim.membership.get
          "node" = some next ∧ next.address = "127.0.0.1:1" ∧ next.state = .active) ∧
    (Swim.freshNode.step (.message "peer" (.suspect "node" 1) 5)).membership.get "node" ≠ none := by
  obtain ⟨services, swims⟩ := @own_register_untouched sampleBlake3
  constructor
  · obtain ⟨next, found, address, _, _, state, _⟩ :=
      (services aloneService aloneService_started Swim.ownRegister aloneService_own).1
        [(quietEnv, .onProbe "peer" (.alive Swim.laterLife)),
          (quietEnv, .onProbe "peer" (.suspect "node" 1)), (quietEnv, .tick)]
        (by simp [ServiceCall.FromOutside])
    exact ⟨next, found, address, state⟩
  · obtain ⟨next, found, _⟩ := swims Swim.freshNode Swim.freshNode_reachable Swim.ownRegister
      Swim.freshNode_own [.message "peer" (.suspect "node" 1) 5] (by simp [SwimEvent.FromOutside])
    intro missing
    cases missing.symm.trans found

end MembershipService

end Lycoris.Daemon
