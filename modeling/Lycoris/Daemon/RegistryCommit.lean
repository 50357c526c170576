import Lycoris.Overlay.Enrollment

/-!
The three copies of the authorization registry on a node (`daemon/src/overlay.rs`,
`overlay/src/link/actor.rs`): the persisted table, the link actor's registry and the enrollment's.
Admissions and checkpoints hold the enrollment lock from start to answer, their commit to the
actor included; `join` takes it only after its own commit.
-/

namespace Lycoris.Daemon
open Lib Overlay

/-- A request handled under the enrollment lock. A checkpoint is a peer's request or its reply to
ours. -/
inductive RegistryRequest (P : Primitives) where
  | begin (candidate : AdmissionCandidate) (sender : P.PeerId) (nonce : Option Nonce)
  | prove (proof : JoinProof) (sender : P.PeerId)
  | checkpoint (records : List AuthorizationRecord)

inductive Answer where
  | challenge (challenge : AdmissionChallenge)
  | admitted (outcome : EnrollmentOutcome)
  | applied (records : List AuthorizationRecord)
  | rejected
  deriving DecidableEq

/-- The records an answer reports as committed. -/
def Answer.records : Answer → List AuthorizationRecord
  | .challenge _ => []
  | .admitted outcome => outcome.records
  | .applied records => records
  | .rejected => []

/-- An operation that holds the lock while its `CommitAuthorization` is with the actor. -/
structure Commit where
  proposed : Enrollment
  accept : Answer
  reply : Option Bool

/-- `connected` once the sponsor's connection is in quarantine. -/
inductive JoinState (P : Primitives) where
  | idle
  | connected (sponsor : P.PeerId)
  | sent (registry : AuthorizationRegistry)
  | replied (registry : AuthorizationRegistry) (ok : Bool)
  | adopted (registry : AuthorizationRegistry)
  | failed

/-- How far a join has come in replacing the registry: not at all, in the actor, everywhere. -/
def JoinState.stage {P : Primitives} : JoinState P → Nat
  | .replied _ true => 1
  | .adopted _ => 2
  | _ => 0

structure OverlayNode (P : Primitives) where
  store : KeyedMap AuthorizationRecord.id
  actor : AuthorizationRegistry
  enrollment : Enrollment
  commit : Option Commit
  join : JoinState P
  answers : List Answer

/-- One step of one task. A task that waits for the lock has done nothing yet, so `request` is the
moment it gets it; an event that is not enabled changes nothing. -/
inductive Event (P : Primitives) where
  | request (request : RegistryRequest P)
  | process (persisted : Bool)
  | resume
  | joinConnected (sponsor : P.PeerId)
  | joinRefused
  | joinAdmitted (outcome : EnrollmentOutcome) (candidate : AdmissionCandidate)
      (challenge : AdmissionChallenge)
  | joinProcess (persisted : Bool)
  | joinResume

def Event.isJoin {P : Primitives} : Event P → Bool
  | .request _ => false
  | .process _ => false
  | .resume => false
  | _ => true

namespace OverlayNode

variable {P : Primitives}

def start (registry : AuthorizationRegistry) (joinKey : Option Bytes) : OverlayNode P where
  store := registry.records
  actor := registry
  enrollment := .new registry joinKey
  commit := none
  join := .idle
  answers := []

def answer (node : OverlayNode P) (answer : Answer) : OverlayNode P :=
  { node with answers := node.answers ++ [answer] }

/-- `LinkCommand::CommitAuthorization`: the cluster check, the persist callback and the
installation, in one turn of the actor. -/
def commitAuthorization (node : OverlayNode P) (registry : AuthorizationRegistry) (checkCluster persisted : Bool) :
    Bool × OverlayNode P :=
  if checkCluster && registry.clusterId ≠ node.actor.clusterId then (false, node)
  else if persisted then (true, { node with store := registry.records, actor := registry })
  else (false, node)

/-- `commit_enrollment` up to its wait for the actor. -/
def commitEnrollment (node : OverlayNode P) (proposed : Enrollment) (accept : Answer) : OverlayNode P :=
  if node.enrollment.registry.records.vals = proposed.registry.records.vals then
    { node with enrollment := proposed }.answer accept
  else { node with commit := some ⟨proposed, accept, none⟩ }

variable (A : AdmissionPrimitives) (identity : NodeIdentity P)

/-- `handle_admission` and `merge_registry_checkpoint`, from the lock to the answer or the commit. -/
def handle (node : OverlayNode P) : RegistryRequest P → OverlayNode P
  | .begin candidate sender nonce =>
    match node.enrollment.begin candidate sender identity nonce with
    | (.ok challenge, enrollment) => { node with enrollment }.answer (.challenge challenge)
    | (.error _, enrollment) => { node with enrollment }.answer .rejected
  | .prove proof sender =>
    match node.enrollment.enrollWithJoinKey A proof sender identity with
    | (.ok outcome, proposed) => node.commitEnrollment proposed (.admitted outcome)
    | (.error _, _) => node.answer .rejected
  | .checkpoint records =>
    match node.enrollment.mergeCheckpoint P records with
    | (.ok changed, proposed) =>
      if 0 < changed then node.commitEnrollment proposed (.applied proposed.registry.records.vals)
      else node.answer (.applied node.enrollment.registry.records.vals)
    | (.error _, _) => node.answer .rejected

def step (node : OverlayNode P) : Event P → OverlayNode P
  | .request request => if node.commit.isSome then node else node.handle A identity request
  | .process persisted =>
    match node.commit with
    | some ⟨proposed, accept, none⟩ =>
      match node.commitAuthorization proposed.registry true persisted with
      | (ok, node) => { node with commit := some ⟨proposed, accept, some ok⟩ }
    | _ => node
  | .resume =>
    match node.commit with
    | some ⟨proposed, accept, some true⟩ =>
      { node with enrollment := proposed, commit := none }.answer accept
    | some ⟨_, _, some false⟩ => { node with commit := none }.answer .rejected
    | _ => node
  -- A peer that the actor's registry authorizes is not kept in quarantine: the join runs out of time.
  | .joinConnected sponsor =>
    match node.join with
    | .idle =>
      if (node.actor.nodeForPeer P sponsor).isNone then { node with join := .connected sponsor } else node
    | _ => node
  | .joinRefused =>
    match node.join with
    | .idle => { node with join := .failed }
    | .connected _ => { node with join := .failed }
    | _ => node
  | .joinAdmitted outcome candidate challenge =>
    match node.join with
    | .connected sponsor =>
      match outcome.validateFor P candidate challenge sponsor with
      | .ok registry => { node with join := .sent registry }
      | .error _ => { node with join := .failed }
    | _ => node
  | .joinProcess persisted =>
    match node.join with
    | .sent registry =>
      match node.commitAuthorization registry false persisted with
      | (ok, node) => { node with join := .replied registry ok }
    | _ => node
  | .joinResume =>
    match node.join with
    | .replied _ false => { node with join := .failed }
    | .replied registry true =>
      if node.commit.isSome then node
      else { node with
        enrollment := node.enrollment.adoptRegistry registry, join := .adopted registry }
    | _ => node

def run (node : OverlayNode P) (events : List (Event P)) : OverlayNode P :=
  events.foldl (fun node event => node.step A identity event) node

end OverlayNode

/-! ### What one step can do -/

theorem JoinState.stage_early {P : Primitives} {join : JoinState P}
    (early : join = .idle ∨ ∃ sponsor, join = .connected sponsor) : join.stage = 0 := by
  rcases early with rfl | ⟨sponsor, rfl⟩
  · rfl
  · rfl

namespace OverlayNode
open AuthorizationRegistry (Extends)

variable {P : Primitives} {A : AdmissionPrimitives} {identity : NodeIdentity P} {d d' : OverlayNode P}

/-- Every change a step can make to a node. -/
inductive Moves (d : OverlayNode P) : Event P → OverlayNode P → Prop where
  | disabled {event : Event P} : Moves d event d
  | answered {request : RegistryRequest P} {enrollment : Enrollment} {answer : Answer}
      (free : d.commit = none) (same : enrollment.registry = d.enrollment.registry)
      (reports : ∀ r ∈ answer.records, r ∈ d.enrollment.registry) :
      Moves d (.request request) ({ d with enrollment }.answer answer)
  | opened {request : RegistryRequest P} {proposed : Enrollment} {accept : Answer}
      (free : d.commit = none) (grown : Extends d.enrollment.registry proposed.registry)
      (reports : ∀ r ∈ accept.records, r ∈ proposed.registry) (accepts : accept ≠ .rejected) :
      Moves d (.request request) { d with commit := some ⟨proposed, accept, none⟩ }
  | installed {proposed : Enrollment} {accept : Answer} (sent : d.commit = some ⟨proposed, accept, none⟩)
      (cluster : proposed.registry.clusterId = d.actor.clusterId) :
      Moves d (.process true) { d with
        store := proposed.registry.records, actor := proposed.registry
        commit := some ⟨proposed, accept, some true⟩ }
  | declined {proposed : Enrollment} {accept : Answer} {persisted : Bool}
      (sent : d.commit = some ⟨proposed, accept, none⟩) :
      Moves d (.process persisted) { d with commit := some ⟨proposed, accept, some false⟩ }
  | finished {proposed : Enrollment} {accept : Answer}
      (replied : d.commit = some ⟨proposed, accept, some true⟩) :
      Moves d .resume ({ d with enrollment := proposed, commit := none }.answer accept)
  | abandoned {proposed : Enrollment} {accept : Answer}
      (replied : d.commit = some ⟨proposed, accept, some false⟩) :
      Moves d .resume ({ d with commit := none }.answer .rejected)
  | joinConnected {sponsor : P.PeerId} (idle : d.join = .idle)
      (stranger : d.actor.nodeForPeer P sponsor = none) :
      Moves d (.joinConnected sponsor) { d with join := .connected sponsor }
  | joinRefused {event : Event P} (early : d.join = .idle ∨ ∃ sponsor, d.join = .connected sponsor) :
      Moves d event { d with join := .failed }
  | joinSent {outcome : EnrollmentOutcome} {candidate : AdmissionCandidate} {challenge : AdmissionChallenge}
      {sponsor : P.PeerId} {registry : AuthorizationRegistry} (connected : d.join = .connected sponsor)
      (valid : outcome.validateFor P candidate challenge sponsor = .ok registry) :
      Moves d (.joinAdmitted outcome candidate challenge) { d with join := .sent registry }
  | joinInstalled {registry : AuthorizationRegistry} (sent : d.join = .sent registry) :
      Moves d (.joinProcess true) { d with
        store := registry.records, actor := registry, join := .replied registry true }
  | joinDeclined {registry : AuthorizationRegistry} (sent : d.join = .sent registry) :
      Moves d (.joinProcess false) { d with join := .replied registry false }
  | joinFailed {registry : AuthorizationRegistry} (replied : d.join = .replied registry false) :
      Moves d .joinResume { d with join := .failed }
  | joinAdopted {registry : AuthorizationRegistry} (replied : d.join = .replied registry true)
      (free : d.commit = none) :
      Moves d .joinResume { d with
        enrollment := d.enrollment.adoptRegistry registry, join := .adopted registry }

theorem vals_injective {g h : AuthorizationRegistry} (grown : Extends g h)
    (same : g.records.vals = h.records.vals) : h = g := by
  have records : h.records = g.records := KeyedMap.ext_mem fun r => by
    rw [← KeyedMap.mem_vals, ← KeyedMap.mem_vals, same]
  have cluster := grown.cluster
  cases g
  cases h
  simp_all

theorem commitEnrollment_moves {request : RegistryRequest P} {proposed : Enrollment} {accept : Answer}
    (free : d.commit = none) (grown : Extends d.enrollment.registry proposed.registry)
    (reports : ∀ r ∈ accept.records, r ∈ proposed.registry) (accepts : accept ≠ .rejected) :
    Moves d (.request request) (d.commitEnrollment proposed accept) := by
  unfold commitEnrollment
  split
  · rename_i same
    have equal := vals_injective grown same
    exact .answered free equal (equal ▸ reports)
  · exact .opened free grown reports accepts

theorem admits_records {e e' : Enrollment} {n : NodeId} {sponsor : NodeIdentity P}
    {outcome : EnrollmentOutcome} (h : Enrollment.Admits e n sponsor outcome e') :
    outcome.records = e'.registry.records.vals := by
  cases h <;> rfl

theorem handle_moves (free : d.commit = none) (request : RegistryRequest P) :
    Moves d (.request request) (d.handle A identity request) := by
  have kept : ∀ answer : Answer, answer.records = [] → Moves d (.request request) (d.answer answer) :=
    fun answer none => .answered free rfl (by simp [none])
  cases request with
  | begin candidate sender nonce =>
    simp only [handle, Enrollment.begin]
    cases d.enrollment.prepare candidate sender identity nonce with
    | error e => exact kept .rejected rfl
    | ok pending => exact .answered free rfl (by simp [Answer.records])
  | prove proof sender =>
    simp only [handle, Enrollment.enrollWithJoinKey]
    cases checked : d.enrollment.checkProof A proof sender with
    | error e => exact kept .rejected rfl
    | ok u =>
      rcases Enrollment.admitPending_cases d.enrollment proof.candidate.identity.nodeId identity with
        ⟨error, failed⟩ | ⟨outcome, proposed, ok, admits⟩
      · simp only [failed]
        exact kept .rejected rfl
      · simp only [ok]
        have served : Enrollment.Served (P := P) A d.enrollment (.enroll proof sender identity)
          (.admitted outcome) proposed := .enrolled checked admits
        refine commitEnrollment_moves free served.registry.extends (fun r member => ?_) (by simp)
        rw [Answer.records, admits_records admits] at member
        exact KeyedMap.mem_vals.mp member
  | checkpoint records =>
    simp only [handle, Enrollment.mergeCheckpoint]
    have grows : AuthorizationRegistry.Grows P (fun _ => True) d.enrollment.registry
        (d.enrollment.registry.merge P records).2 := AuthorizationRegistry.merge_grows fun _ _ => trivial
    cases merged : d.enrollment.registry.merge P records with
    | mk result registry =>
      rw [merged] at grows
      cases result with
      | error e => exact kept .rejected rfl
      | ok changed =>
        dsimp only
        split
        · exact commitEnrollment_moves free grows.extends (fun r member => KeyedMap.mem_vals.mp member) (by simp)
        · exact .answered free rfl fun r member => KeyedMap.mem_vals.mp member

theorem step_moves (d : OverlayNode P) (event : Event P) : Moves d event (d.step A identity event) := by
  cases event with
  | request request =>
    simp only [step]
    split
    · exact .disabled
    · rename_i free
      exact handle_moves (by simpa using free) request
  | process persisted =>
    simp only [step]
    split
    · rename_i proposed accept sent
      simp only [commitAuthorization, Bool.true_and, decide_eq_true_eq]
      split
      · exact .declined sent
      · rename_i cluster
        split
        · rename_i ok
          subst ok
          exact .installed sent (not_not.mp cluster)
        · exact .declined sent
    · exact .disabled
  | resume =>
    simp only [step]
    split
    · exact .finished ‹_›
    · exact .abandoned ‹_›
    · exact .disabled
  | joinConnected sponsor =>
    simp only [step]
    split
    · split
      · rename_i idle stranger
        exact .joinConnected idle (Option.isNone_iff_eq_none.mp stranger)
      · exact .disabled
    · exact .disabled
  | joinRefused =>
    simp only [step]
    split
    · exact .joinRefused (Or.inl ‹_›)
    · exact .joinRefused (Or.inr ⟨_, ‹_›⟩)
    · exact .disabled
  | joinAdmitted outcome candidate challenge =>
    simp only [step]
    split
    · split
      · exact .joinSent ‹_› ‹_›
      · exact .joinRefused (Or.inr ⟨_, ‹_›⟩)
    · exact .disabled
  | joinProcess persisted =>
    simp only [step]
    split
    · rename_i registry sent
      simp only [commitAuthorization, Bool.false_and, Bool.false_eq_true, if_false]
      cases persisted with
      | true => exact .joinInstalled sent
      | false => exact .joinDeclined sent
    · exact .disabled
  | joinResume =>
    simp only [step]
    split
    · exact .joinFailed ‹_›
    · rename_i registry replied
      split
      · exact .disabled
      · rename_i free
        exact .joinAdopted replied (by simpa using free)
    · exact .disabled

/-! ### Invariants of a run with a join to another cluster -/

/-- What the actor holds while no join is half done. -/
def expected (d : OverlayNode P) : AuthorizationRegistry :=
  match d.commit with
  | some ⟨proposed, _, some true⟩ => proposed.registry
  | _ => d.enrollment.registry

/-- A commit under way proposes a larger registry and its answer is not a refusal. -/
structure Fits (current proposed : Enrollment) (accept : Answer) : Prop where
  grown : Extends current.registry proposed.registry
  reports : ∀ r ∈ accept.records, r ∈ proposed.registry
  accepts : accept ≠ .rejected

structure Synced (home : ClusterId) (d : OverlayNode P) : Prop where
  stored : d.store = d.actor.records
  fits : ∀ c, d.commit = some c → Fits d.enrollment c.proposed c.accept
  unmoved : d.join.stage ≠ 2 → d.enrollment.registry.clusterId = home
  foreign : ∀ registry, d.join = .sent registry ∨ d.join = .replied registry true → registry.clusterId ≠ home
  half : ∀ registry, d.join = .replied registry true → d.actor = registry
  agree : d.join.stage ≠ 1 → d.actor = d.expected

theorem synced_start (registry : AuthorizationRegistry) (joinKey : Option Bytes) :
    Synced registry.clusterId (start (P := P) registry joinKey) where
  stored := rfl
  fits := by simp [start]
  unmoved := fun _ => rfl
  foreign := by simp [start]
  half := by simp [start]
  agree := fun _ => rfl

theorem expected_free (free : d.commit = none) : d.expected = d.enrollment.registry := by
  simp [expected, free]

theorem Moves.synced {home : ClusterId} {event : Event P} (moves : Moves d event d')
    (foreign : ∀ outcome candidate challenge,
      event = .joinAdmitted outcome candidate challenge → challenge.clusterId ≠ home)
    (h : Synced home d) :
    Synced home d' := by
  cases moves with
  | disabled => exact h
  | @answered request enrollment answer free same reports =>
    refine ⟨h.stored, fun c sent => absurd (free.symm.trans sent) (by simp),
      fun early => (congrArg _ same).trans (h.unmoved early), h.foreign, h.half, fun whole => ?_⟩
    rw [show d.actor = _ from h.agree whole, expected_free free]
    simp [expected, OverlayNode.answer, free, same]
  | opened free grown reports accepts =>
    refine ⟨h.stored, ?_, h.unmoved, h.foreign, h.half, fun whole => ?_⟩
    · rintro c ⟨⟩
      exact ⟨grown, reports, accepts⟩
    · exact (h.agree whole).trans (expected_free free)
  | @installed proposed accept sent cluster =>
    have fits := h.fits _ sent
    refine ⟨rfl, ?_, h.unmoved, h.foreign, fun registry half => ?_, fun _ => rfl⟩
    · rintro c ⟨⟩
      exact fits
    · -- The cluster check lets no commit through while a join is half done.
      have early : d.join.stage ≠ 2 := by rw [show d.join = _ from half]; simp [JoinState.stage]
      have away := h.foreign registry (Or.inr half)
      rw [h.half registry half, fits.grown.cluster, h.unmoved early] at cluster
      exact absurd cluster.symm away
  | @declined proposed accept persisted sent =>
    have fits := h.fits _ sent
    refine ⟨h.stored, ?_, h.unmoved, h.foreign, h.half, fun whole => ?_⟩
    · rintro c ⟨⟩
      exact fits
    · have before := h.agree whole
      simp only [expected, sent] at before
      exact before
  | @finished proposed accept replied =>
    refine ⟨h.stored, by simp [OverlayNode.answer], fun early => ?_, h.foreign, h.half, fun whole => ?_⟩
    · exact (h.fits _ replied).grown.cluster.trans (h.unmoved early)
    · have before := h.agree whole
      simp only [expected, replied] at before
      exact before
  | @abandoned proposed accept replied =>
    refine ⟨h.stored, by simp [OverlayNode.answer], h.unmoved, h.foreign, h.half, fun whole => ?_⟩
    have before := h.agree whole
    simp only [expected, replied] at before
    exact before
  | joinConnected idle _ =>
    exact ⟨h.stored, h.fits,
      fun _ => h.unmoved (by simp [idle, JoinState.stage]), by simp, by simp,
      fun _ => h.agree (by simp [idle, JoinState.stage])⟩
  | joinRefused early =>
    have none := JoinState.stage_early early
    exact ⟨h.stored, h.fits, fun _ => h.unmoved (by simp [none]), by simp, by simp,
      fun _ => h.agree (by simp [none])⟩
  | @joinSent outcome candidate challenge sponsor registry connected valid =>
    refine ⟨h.stored, h.fits,
      fun _ => h.unmoved (by simp [connected, JoinState.stage]), ?_, by simp,
      fun _ => h.agree (by simp [connected, JoinState.stage])⟩
    rintro other (⟨⟨⟩⟩ | ⟨⟨⟩⟩)
    rw [Enrollment.validateFor_cluster valid]
    exact foreign _ _ _ rfl
  | @joinInstalled registry sent =>
    refine ⟨rfl, h.fits,
      fun _ => h.unmoved (by simp [sent, JoinState.stage]), ?_, ?_, fun whole => absurd rfl whole⟩
    · rintro other (⟨⟨⟩⟩ | ⟨⟨⟩⟩)
      exact h.foreign registry (Or.inl sent)
    · rintro other ⟨⟩
      rfl
  | joinDeclined sent =>
    exact ⟨h.stored, h.fits,
      fun _ => h.unmoved (by simp [sent, JoinState.stage]), by simp, by simp,
      fun _ => h.agree (by simp [sent, JoinState.stage])⟩
  | joinFailed replied =>
    exact ⟨h.stored, h.fits,
      fun _ => h.unmoved (by simp [replied, JoinState.stage]), by simp, by simp,
      fun _ => h.agree (by simp [replied, JoinState.stage])⟩
  | @joinAdopted registry replied free =>
    refine ⟨h.stored, fun c sent => absurd (free.symm.trans sent) (by simp), fun early => absurd rfl early,
      by simp, by simp, fun _ => ?_⟩
    rw [show d.actor = _ from h.half registry replied]
    simp [expected, free, Enrollment.adoptRegistry]

theorem run_snoc (events : List (Event P)) (event : Event P) :
    d.run A identity (events ++ [event]) = (d.run A identity events).step A identity event := by
  simp [run]

theorem run_append (events more : List (Event P)) :
    d.run A identity (events ++ more) = (d.run A identity events).run A identity more := by
  simp [run]

/-- A property every step keeps is kept by a run. -/
theorem run_induct (A : AdmissionPrimitives) (identity : NodeIdentity P) (events : List (Event P))
    (Inv : OverlayNode P → Prop) (start : Inv d)
    (step : ∀ d event d', event ∈ events → Moves d event d' → Inv d → Inv d') :
    Inv (d.run A identity events) := by
  induction events generalizing d with
  | nil => exact start
  | cons event events ih =>
    exact ih (step d event _ List.mem_cons_self (step_moves d event) start)
      fun d e d' member => step d e d' (List.mem_cons_of_mem _ member)

theorem synced_run {registry : AuthorizationRegistry} {joinKey : Option Bytes} {events : List (Event P)}
    (foreign : ∀ outcome candidate challenge,
      Event.joinAdmitted outcome candidate challenge ∈ events →
        challenge.clusterId ≠ registry.clusterId) :
    Synced registry.clusterId ((start registry joinKey).run A identity events) := by
  refine run_induct A identity events _ (synced_start registry joinKey) fun d event d' member moves h => moves.synced ?_ h
  rintro outcome candidate challenge rfl
  exact foreign outcome candidate challenge member

/-! ### Answers -/

/-- The three copies. -/
def copies (d : OverlayNode P) : KeyedMap AuthorizationRecord.id × AuthorizationRegistry × AuthorizationRegistry :=
  (d.store, d.actor, d.enrollment.registry)

/-- The operation with the `k`th answer has its commit accepted. -/
def Succeeding (k : Nat) (d : OverlayNode P) : Prop :=
  (d.answers.length = k ∧ ∃ proposed accept, d.commit = some ⟨proposed, accept, some true⟩ ∧ accept ≠ .rejected) ∨
    ∃ answer, d.answers[k]? = some answer ∧ answer ≠ .rejected

theorem Moves.succeeding {k : Nat} {event : Event P} (moves : Moves d event d') (h : Succeeding k d) :
    Succeeding k d' := by
  have later : ∀ answer : Answer, (∃ old, d.answers[k]? = some old ∧ old ≠ .rejected) →
      ∃ old, (d.answers ++ [answer])[k]? = some old ∧ old ≠ .rejected := by
    rintro answer ⟨old, found, accepted⟩
    exact ⟨old, List.getElem?_append_left (List.getElem?_eq_some_iff.mp found).1 ▸ found, accepted⟩
  rcases h with ⟨here, proposed, accept, replied, accepted⟩ | done
  · cases moves with
    | disabled => exact Or.inl ⟨here, proposed, accept, replied, accepted⟩
    | answered free => exact absurd (free.symm.trans replied) (by simp)
    | opened free => exact absurd (free.symm.trans replied) (by simp)
    | installed sent => exact absurd (sent.symm.trans replied) (by simp)
    | declined sent => exact absurd (sent.symm.trans replied) (by simp)
    | finished replied' =>
      cases replied'.symm.trans replied
      exact Or.inr ⟨_, by simp [OverlayNode.answer, ← here], accepted⟩
    | abandoned replied' => exact absurd (replied'.symm.trans replied) (by simp)
    | joinAdopted _ free => exact absurd (free.symm.trans replied) (by simp)
    | _ => exact Or.inl ⟨here, proposed, accept, replied, accepted⟩
  · cases moves with
    | answered => exact Or.inr (later _ done)
    | finished => exact Or.inr (later _ done)
    | abandoned => exact Or.inr (later _ done)
    | _ => exact Or.inr done

theorem Moves.joining {event : Event P} (moves : Moves d event d') (h : d.join.stage ≠ 0) :
    d'.join.stage ≠ 0 := by
  cases moves with
  | joinConnected idle => simp [idle, JoinState.stage] at h
  | joinRefused early => exact absurd (JoinState.stage_early early) h
  | joinSent connected => simp [connected, JoinState.stage] at h
  | joinInstalled => simp [JoinState.stage]
  | joinDeclined sent => simp [sent, JoinState.stage] at h
  | joinFailed replied => simp [replied, JoinState.stage] at h
  | joinAdopted => simp [JoinState.stage]
  | _ => exact h

/-- A step that changes a copy is part of an operation whose commit was accepted. -/
theorem Moves.changes {home : ClusterId} {event : Event P} (moves : Moves d event d') (h : Synced home d)
    (changed : d'.copies ≠ d.copies) :
    (event.isJoin = false ∧ Succeeding d.answers.length d') ∨
      (event.isJoin = true ∧ d'.join.stage ≠ 0) := by
  cases moves with
  | @answered _ enrollment _ _ same _ => exact absurd (by simp [copies, OverlayNode.answer, same]) changed
  | installed sent => exact Or.inl ⟨rfl, Or.inl ⟨rfl, _, _, rfl, (h.fits _ sent).accepts⟩⟩
  | finished replied =>
    exact Or.inl ⟨rfl, Or.inr ⟨_, by simp [OverlayNode.answer], (h.fits _ replied).accepts⟩⟩
  | joinInstalled => exact Or.inr ⟨rfl, by simp [JoinState.stage]⟩
  | joinAdopted => exact Or.inr ⟨rfl, by simp [JoinState.stage]⟩
  | _ => exact absurd rfl changed

/-! ### No committed record is lost -/

/-- Everything answered since `first` answers is in the enrollment, unless a join came between. -/
structure Kept (first stage : Nat) (d : OverlayNode P) : Prop where
  forward : stage ≤ d.join.stage
  held : d.join.stage = stage → ∀ k answer, first ≤ k → d.answers[k]? = some answer →
    ∀ r ∈ answer.records, r ∈ d.enrollment.registry

theorem Moves.kept {home : ClusterId} {first stage : Nat} {event : Event P} (moves : Moves d event d')
    (synced : Synced home d) (h : Kept first stage d) : Kept first stage d' := by
  have grow : ∀ {answer : Answer} {registry : AuthorizationRegistry}, Extends d.enrollment.registry registry →
      (∀ r ∈ answer.records, r ∈ registry) → d.join.stage = stage →
      ∀ k old, first ≤ k → (d.answers ++ [answer])[k]? = some old → ∀ r ∈ old.records, r ∈ registry := by
    intro answer registry grown reports same k old after found r member
    by_cases earlier : k < d.answers.length
    · rw [List.getElem?_append_left earlier] at found
      exact grown.records r (h.held same k old after found r member)
    · rw [List.getElem?_append_right (by omega)] at found
      cases List.mem_singleton.mp (List.mem_of_getElem? found)
      exact reports r member
  cases moves with
  | @answered _ enrollment _ free same reports =>
    refine ⟨h.forward, fun stays => ?_⟩
    simp only [OverlayNode.answer, same]
    exact grow (.refl _) reports stays
  | finished replied =>
    have fits := synced.fits _ replied
    exact ⟨h.forward, fun stays => grow fits.grown fits.reports stays⟩
  | abandoned => exact ⟨h.forward, fun stays => grow (.refl _) (by simp [Answer.records]) stays⟩
  | joinConnected idle =>
    have none : d.join.stage = 0 := by simp [idle, JoinState.stage]
    exact ⟨h.forward.trans_eq none, fun stays => h.held (none.trans stays)⟩
  | joinRefused early =>
    have none := JoinState.stage_early early
    exact ⟨h.forward.trans_eq none, fun stays => h.held (none.trans stays)⟩
  | joinSent connected =>
    have none : d.join.stage = 0 := by simp [connected, JoinState.stage]
    exact ⟨h.forward.trans_eq none, fun stays => h.held (none.trans stays)⟩
  | joinInstalled sent =>
    have none : d.join.stage = 0 := by simp [sent, JoinState.stage]
    have zero : stage = 0 := by have := h.forward; omega
    exact ⟨by simp [zero], fun stays => absurd (stays.trans zero) (by simp [JoinState.stage])⟩
  | joinDeclined sent =>
    have none : d.join.stage = 0 := by simp [sent, JoinState.stage]
    exact ⟨h.forward.trans_eq none, fun stays => h.held (none.trans stays)⟩
  | joinFailed replied =>
    have none : d.join.stage = 0 := by simp [replied, JoinState.stage]
    exact ⟨h.forward.trans_eq none, fun stays => h.held (none.trans stays)⟩
  | joinAdopted replied =>
    have one : d.join.stage = 1 := by simp [replied, JoinState.stage]
    have low : stage ≤ 1 := one ▸ h.forward
    exact ⟨by simp [JoinState.stage]; omega, fun stays => by simp [JoinState.stage] at stays; omega⟩
  | _ => exact ⟨h.forward, h.held⟩

theorem expected_grown {home : ClusterId} (h : Synced home d) : Extends d.enrollment.registry d.expected := by
  unfold expected
  split
  · rename_i proposed accept sent
    exact (h.fits _ sent).grown
  · exact .refl _

/-! ### Three-way consistency -/

/-- No operation is in progress. -/
def Quiescent (d : OverlayNode P) : Prop :=
  d.commit = none ∧ (d.join = .idle ∨ d.join = .failed ∨ ∃ registry, d.join = .adopted registry)

variable (A identity) in
/-- At rest the copies agree, an operation that is refused changes none of them, and what finished
operations committed stays, unless a join replaced the registry. -/
structure ThreeWay (registry : AuthorizationRegistry) (joinKey : Option Bytes) (events : List (Event P)) :
    Prop where
  agree : Quiescent ((start registry joinKey).run A identity events) →
    ((start registry joinKey).run A identity events).store =
        ((start registry joinKey).run A identity events).actor.records ∧
      ((start registry joinKey).run A identity events).actor =
        ((start registry joinKey).run A identity events).enrollment.registry
  refused : ∀ before event after, events = before ++ event :: after →
    ((start registry joinKey).run A identity (before ++ [event])).copies ≠
      ((start registry joinKey).run A identity before).copies →
    (event.isJoin = false → ((start registry joinKey).run A identity events).answers[
        ((start registry joinKey).run A identity before).answers.length]? ≠ some .rejected) ∧
      (event.isJoin = true → ((start registry joinKey).run A identity events).join ≠ .failed)
  kept : ∀ before after, events = before ++ after →
    ((start registry joinKey).run A identity before).join.stage =
      ((start registry joinKey).run A identity events).join.stage →
    ((start registry joinKey).run A identity events).join.stage ≠ 1 →
    ∀ k answer, ((start registry joinKey).run A identity before).answers.length ≤ k →
      ((start registry joinKey).run A identity events).answers[k]? = some answer →
      ∀ r ∈ answer.records, r ∈ ((start registry joinKey).run A identity events).enrollment.registry ∧
        r ∈ ((start registry joinKey).run A identity events).actor ∧
        r ∈ ((start registry joinKey).run A identity events).store

/-- Every run whose join adopts the registry of another cluster keeps the three copies in step. -/
theorem three_way_consistent (P : Primitives) (A : AdmissionPrimitives) (identity : NodeIdentity P)
    (registry : AuthorizationRegistry) (joinKey : Option Bytes) (events : List (Event P))
    (foreign : ∀ outcome candidate challenge,
      Event.joinAdmitted outcome candidate challenge ∈ events →
        challenge.clusterId ≠ registry.clusterId) :
    ThreeWay A identity registry joinKey events := by
  have synced : ∀ before, before <+: events →
      Synced registry.clusterId ((start registry joinKey).run A identity before) := fun before start =>
    synced_run fun _ _ _ member => foreign _ _ _ (start.subset member)
  have whole := synced events List.prefix_rfl
  refine ⟨fun quiet => ?_, ?_, ?_⟩
  · have stage : ((start registry joinKey).run A identity events).join.stage ≠ 1 := by
      rcases quiet.2 with idle | failed | ⟨registry, adopted⟩
      · simp [idle, JoinState.stage]
      · simp [failed, JoinState.stage]
      · simp [adopted, JoinState.stage]
    exact ⟨whole.stored, (whole.agree stage).trans (expected_free quiet.1)⟩
  · rintro before event after rfl changed
    have here := synced before (List.prefix_append _ _)
    rw [run_snoc] at changed
    have later : (start registry joinKey).run A identity (before ++ event :: after) =
        (((start registry joinKey).run A identity before).step A identity event).run A identity after := by
      rw [run_append]
      rfl
    rw [later]
    rcases (step_moves _ event).changes here changed with ⟨plain, succeeding⟩ | ⟨join, joining⟩
    · refine ⟨fun _ refused => ?_, fun join => absurd (plain.symm.trans join) (by simp)⟩
      have stays := run_induct A identity after _ succeeding
        fun _ _ _ _ moves => moves.succeeding
      rcases stays with ⟨short, _⟩ | ⟨answer, found, fine⟩
      · rw [List.getElem?_eq_none short.le] at refused
        cases refused
      · exact fine (Option.some.inj (found.symm.trans refused))
    · refine ⟨fun plain => absurd (plain.symm.trans join) (by simp), fun _ failed => ?_⟩
      have stays := run_induct A identity after (fun d => d.join.stage ≠ 0) joining fun _ _ _ _ moves => moves.joining
      simp [failed, JoinState.stage] at stays
  · rintro before after rfl stage rest k answer since found r member
    have keep : Kept ((start registry joinKey).run A identity before).answers.length
        ((start registry joinKey).run A identity before).join.stage
        (((start registry joinKey).run A identity before).run A identity after) := by
      have both := run_induct A identity after
        (fun d => Synced registry.clusterId d ∧
          Kept ((start registry joinKey).run A identity before).answers.length
            ((start registry joinKey).run A identity before).join.stage d)
        (d := (start registry joinKey).run A identity before)
        ⟨synced before (List.prefix_append _ _), le_rfl, fun _ k answer since found => by
          rw [List.getElem?_eq_none since] at found
          cases found⟩
        fun d event d' inside moves both => ⟨moves.synced (fun _ _ _ same =>
          foreign _ _ _ (List.mem_append_right _ (same ▸ inside))) both.1, moves.kept both.1 both.2⟩
      exact both.2
    rw [← run_append] at keep
    have enrolled := keep.held stage.symm k answer since found r member
    have installed : r ∈ ((start registry joinKey).run A identity (before ++ after)).actor := by
      rw [whole.agree rest]
      exact (expected_grown whole).records r enrolled
    exact ⟨enrolled, installed, whole.stored ▸ installed⟩

section Joins
open Transparent

/-- A node on its own that learns of an admission to its own cluster while it joins the founder's. -/
def solo : NodeIdentity primitives := Transparent.identity 5 5

def soloCluster : ClusterId := ClusterId.fromGenesis primitives solo.nodeId

def soloFounding : AuthorizationRecord :=
  signed (.active soloCluster solo.publicIdentity 0 .admission) solo

def soloAdmission : AuthorizationRecord :=
  signed ((AuthorizationBody.active soloCluster member.publicIdentity 0 .admission).setAuthorizer
    soloFounding soloFounding) solo

def soloRegistry : AuthorizationRegistry :=
  (AuthorizationRegistry.new soloCluster).replay primitives [.insert soloFounding]

def joinerAdmission : AuthorizationRecord :=
  signed ((AuthorizationBody.active cluster solo.publicIdentity 0 .admission).setAuthorizer
    founding founding) founder

def overlappedJoin : List (Event primitives) :=
  [.request (.checkpoint [soloAdmission]), .joinConnected founder.peerId,
    .joinAdmitted ⟨joinerAdmission, [founding, joinerAdmission]⟩ ⟨solo.publicIdentity, BitVec.ofNat 256 5⟩
      memberChallenge,
    .joinProcess true, .process true, .resume, .joinResume]

theorem overlapped_join_consistent :
    ((start soloRegistry none).run admissionPrimitives solo overlappedJoin).join.stage = 2 ∧
    ((start soloRegistry none).run admissionPrimitives solo overlappedJoin).answers = [.rejected] ∧
    ThreeWay admissionPrimitives solo soloRegistry none overlappedJoin := by
  refine ⟨by decide +kernel, by decide +kernel,
    three_way_consistent primitives admissionPrimitives solo soloRegistry none overlappedJoin ?_⟩
  intro outcome candidate challenge member
  simp only [overlappedJoin, List.mem_cons, Event.joinAdmitted.injEq, reduceCtorEq, List.not_mem_nil, or_false,
    false_or] at member
  rw [member.2.2]
  decide +kernel

/-- A member that does not know yet of a second member. -/
def memberRegistry : AuthorizationRegistry :=
  (AuthorizationRegistry.new cluster).replay primitives [.merge [founding, admission]]

def second : NodeIdentity primitives := Transparent.identity 3 3

def secondAdmission : AuthorizationRecord :=
  signed ((AuthorizationBody.active cluster second.publicIdentity 0 .admission).setAuthorizer
    founding admission) founder

def newcomerAdmission : AuthorizationRecord :=
  signed ((AuthorizationBody.active cluster solo.publicIdentity 0 .admission).setAuthorizer
    founding secondAdmission) founder

def secondChallenge : AdmissionChallenge :=
  { memberChallenge with sponsorNodeId := second.nodeId, sponsorPeerId := second.peerIdBytes }

/-- The member joins the cluster it belongs to through the second one; a checkpoint commits between the
join's commit and its adoption. -/
def overtakenRejoin : List (Event primitives) :=
  [.joinConnected second.peerId,
    .joinAdmitted ⟨admission, [founding, admission, secondAdmission]⟩ memberCandidate secondChallenge,
    .joinProcess true, .request (.checkpoint [secondAdmission, newcomerAdmission]), .process true, .resume,
    .joinResume]

theorem overtaken_rejoin_diverges :
    ((start memberRegistry none).run admissionPrimitives member overtakenRejoin).join.stage = 2 ∧
    newcomerAdmission ∈ ((start memberRegistry none).run admissionPrimitives member overtakenRejoin).actor.records ∧
    newcomerAdmission ∉
      ((start memberRegistry none).run admissionPrimitives member overtakenRejoin).enrollment.registry.records ∧
    ¬ ThreeWay admissionPrimitives member memberRegistry none overtakenRejoin := by
  have adopted : ((start memberRegistry none).run admissionPrimitives member overtakenRejoin).join.stage = 2 := by
    decide +kernel
  have free : ((start memberRegistry none).run admissionPrimitives member overtakenRejoin).commit.isNone = true := by
    decide +kernel
  have here : newcomerAdmission ∈
      ((start memberRegistry none).run admissionPrimitives member overtakenRejoin).actor.records := by
    decide +kernel
  have gone : newcomerAdmission ∉
      ((start memberRegistry none).run admissionPrimitives member overtakenRejoin).enrollment.registry.records := by
    decide +kernel
  refine ⟨adopted, here, gone, fun consistent => ?_⟩
  have quiet : Quiescent ((start memberRegistry none).run admissionPrimitives member overtakenRejoin) := by
    refine ⟨Option.isNone_iff_eq_none.mp free, ?_⟩
    generalize ((start memberRegistry none).run admissionPrimitives member overtakenRejoin).join = join at adopted
    cases join with
    | adopted registry => exact Or.inr (Or.inr ⟨registry, rfl⟩)
    | replied registry ok => cases ok <;> simp [JoinState.stage] at adopted
    | _ => simp [JoinState.stage] at adopted
  rw [(consistent.agree quiet).2] at here
  exact gone here

end Joins

end OverlayNode

end Lycoris.Daemon
