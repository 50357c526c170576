import Lycoris.Overlay.Registry

/-!
What insertion and merge can do to a registry. `Accepted` lists what validation establishes of a
record, `Grows` is the append-only transition both operations amount to, and `WellFormed` is the
invariant of every registry they build: each record is accepted by the registry that holds it and
names only records that were there before it.
-/

namespace Lycoris.Overlay
open Lib

namespace AuthorizationRegistry

/-- Same cluster, and every record is still there. -/
structure Extends (g g' : AuthorizationRegistry) : Prop where
  cluster : g'.clusterId = g.clusterId
  records : ∀ r ∈ g, r ∈ g'

theorem Extends.refl (g : AuthorizationRegistry) : Extends g g := ⟨rfl, fun _ member => member⟩

theorem Extends.trans {g h k : AuthorizationRegistry} (first : Extends g h) (second : Extends h k) :
    Extends g k :=
  ⟨second.cluster.trans first.cluster, fun r member => second.records r (first.records r member)⟩

theorem Extends.get? {g g' : AuthorizationRegistry} (grown : Extends g g') {id : RecordId}
    {r : AuthorizationRecord} (found : g.records.get? id = some r) :
    g'.records.get? id = some r := by
  rw [KeyedMap.get?_eq_some] at found ⊢
  exact ⟨grown.records r found.1, found.2⟩

theorem record_ok {g : AuthorizationRegistry} {id : RecordId} {r : AuthorizationRecord} :
    g.record id = .ok r ↔ r ∈ g ∧ r.id = id := by
  rw [record, okOr_ok]
  exact KeyedMap.get?_eq_some

/-! ### Validation depends on the named records only -/

/-- A check that looks up nothing but `ids`: in a grown registry it answers the same, unless it
was stopped by one of them being absent. -/
def Reads {α : Type} (names : List RecordId)
    (check : AuthorizationRegistry → Except AuthorizationError α) : Prop :=
  ∀ g g', Extends g g' → check g' = check g ∨
    ∃ id ∈ names, g.records.get? id = none ∧ check g = .error (.missingDependency id)

variable {α β : Type} {names : List RecordId}

theorem reads_const (result : Except AuthorizationError α) : Reads names fun _ => result :=
  fun _ _ _ => Or.inl rfl

theorem reads_record {id : RecordId} (named : id ∈ names) : Reads names fun g => g.record id := by
  intro g g' grown
  cases found : g.records.get? id with
  | none => exact Or.inr ⟨id, named, found, by simp only [record, found, okOr]⟩
  | some r => exact Or.inl (by simp only [record, found, grown.get? found])

theorem reads_bind {check : AuthorizationRegistry → Except AuthorizationError α}
    {rest : AuthorizationRegistry → α → Except AuthorizationError β}
    (first : Reads names check) (second : ∀ a, Reads names fun g => rest g a) :
    Reads names fun g => check g >>= rest g := by
  intro g g' grown
  rcases first g g' grown with same | ⟨id, named, absent, stopped⟩
  · cases answer : check g with
    | error e => exact Or.inl (by simp only [same, answer]; rfl)
    | ok a =>
      simp only [same, answer]
      exact second a g g' grown
  · exact Or.inr ⟨id, named, absent, by simp only [stopped]; rfl⟩

theorem reads_ite {condition : Prop} [Decidable condition]
    {yes no : AuthorizationRegistry → Except AuthorizationError α}
    (left : Reads names yes) (right : Reads names no) :
    Reads names fun g => if condition then yes g else no g := by
  by_cases holds : condition <;> simpa only [holds, if_true, if_false]

theorem reads_validateActionPredecessor (identity : AuthorizationRecord) {actionId : RecordId}
    (named : actionId ∈ names) :
    Reads names fun g => g.validateActionPredecessor identity actionId :=
  reads_ite (reads_const _) (reads_bind (reads_record named) fun _ => reads_const _)

theorem reads_validateRetirement {r : AuthorizationRecord} :
    Reads r.dependencies fun g => g.validateRetirement r := by
  unfold validateRetirement
  cases retired : r.retires with
  | none => exact reads_const _
  | some t =>
    refine reads_bind (reads_record ?_) fun identity => reads_validateActionPredecessor identity ?_ <;>
      simp [AuthorizationRecord.dependencies, retired]

theorem reads_validateSuccessor {r p : AuthorizationRecord} :
    Reads r.dependencies fun g => g.validateSuccessor r p := by
  unfold validateSuccessor
  dsimp only
  split
  · exact reads_const _
  · exact reads_ite reads_validateRetirement (reads_const _)
  · exact reads_ite reads_validateRetirement (reads_const _)
  · exact reads_const _

variable {P : Primitives}

theorem reads_validateLineage {r : AuthorizationRecord} :
    Reads r.dependencies fun g => g.validateLineage P r := by
  unfold validateLineage
  cases named : r.predecessor with
  | none => exact reads_const _
  | some id =>
    refine reads_bind (reads_record ?_) fun p => reads_bind (reads_const _) fun _ =>
      reads_validateSuccessor
    simp [AuthorizationRecord.dependencies, named]

theorem reads_signingKey {r : AuthorizationRecord} {key : P.PublicKey} :
    Reads r.dependencies fun g => g.signingKey P r key := by
  unfold signingKey
  cases authorizer : r.authorizer with
  | none => cases r.authorizationPredecessor <;> exact reads_const _
  | some id =>
    cases action : r.authorizationPredecessor with
    | none => exact reads_const _
    | some head =>
      refine reads_bind (reads_record ?_) fun identity =>
        reads_bind (reads_validateActionPredecessor identity ?_) fun _ => reads_const _ <;>
        simp [AuthorizationRecord.dependencies, authorizer, action]

theorem reads_validate (r : AuthorizationRecord) : Reads r.dependencies fun g => g.validate P r := by
  unfold validate
  refine reads_bind (fun g g' grown => Or.inl (by rw [grown.cluster])) fun _ => ?_
  refine reads_bind (reads_const _) fun _ => reads_bind (reads_const _) fun _ => ?_
  refine reads_bind (reads_const _) fun key => reads_bind (reads_const _) fun _ => ?_
  refine reads_bind (reads_const _) fun _ => reads_bind reads_validateLineage fun _ => ?_
  exact reads_bind reads_signingKey fun _ => reads_bind (reads_const _) fun _ => reads_const _

/-- What is accepted stays accepted. -/
theorem validate_grown {g g' : AuthorizationRegistry} (grown : Extends g g') {r : AuthorizationRecord}
    (ok : g.validate P r = .ok ()) : g'.validate P r = .ok () := by
  rcases reads_validate r g g' grown with same | ⟨id, _, _, stopped⟩
  · exact same.trans ok
  · exact absurd (ok.symm.trans stopped) (by simp)

/-! ### What acceptance establishes -/

/-- `action` is `identity` itself or a record it authorized. -/
def ActionOf (g : AuthorizationRegistry) (identity action : RecordId) : Prop :=
  action = identity ∨ ∃ a ∈ g, a.id = action ∧ a.authorizer = some identity

/-- How an accepted record continues the lineage of its node. -/
inductive Succession (P : Primitives) (g : AuthorizationRegistry) (r : AuthorizationRecord) : Prop where
  | admission (root : r.predecessor = none) (kind : r.kind = .admission) (state : r.state = .active)
      (epoch : r.epoch = 0) (retires : r.retires = none) (key : r.publicKey = r.initialPublicKey)
      (genesis : r.authorizer = none → ClusterId.fromGenesis P r.nodeId = r.clusterId)
  | rotation (p : AuthorizationRecord) (present : p ∈ g) (named : r.predecessor = some p.id)
      (node : p.nodeId = r.nodeId) (epoch : checkedSucc p.epoch = some r.epoch)
      (kind : r.kind = .rotate) (state : r.state = .active)
      (signer : r.authorizer = some p.id) (retires : r.retires = none)
  | retirement (p : AuthorizationRecord) (head : RecordId) (present : p ∈ g)
      (named : r.predecessor = some p.id)
      (node : p.nodeId = r.nodeId) (epoch : checkedSucc p.epoch = some r.epoch)
      (kind : r.kind = .recover ∧ r.state = .active ∨ r.kind = .revoke ∧ r.state = .revoked)
      (retires : r.retires = some ⟨p.id, head⟩) (action : ActionOf g p.id head)

/-- The signature of `r` verifies under the encoded key `publicKey`. -/
def SignedUnder (P : Primitives) (publicKey : Bytes) (r : AuthorizationRecord) : Prop :=
  ∃ key bytes, P.decodePublicKey publicKey = some key ∧ P.bodyBytes r.body = some bytes ∧
    P.verify key bytes r.signature = true

/-- Whose key an accepted record is signed with. -/
inductive Signer (P : Primitives) (g : AuthorizationRegistry) (r : AuthorizationRecord) : Prop where
  | own (authorizer : r.authorizer = none) (action : r.authorizationPredecessor = none)
      (signed : SignedUnder P r.publicKey r)
  | authorizer (a : AuthorizationRecord) (head : RecordId) (present : a ∈ g)
      (named : r.authorizer = some a.id) (after : r.authorizationPredecessor = some head)
      (action : ActionOf g a.id head) (signed : SignedUnder P a.publicKey r)

structure Accepted (P : Primitives) (g : AuthorizationRegistry) (r : AuthorizationRecord) : Prop where
  cluster : r.clusterId = g.clusterId
  id : r.expectedId P = .ok r.id
  peer : ∃ key, P.decodePublicKey r.publicKey = some key ∧
    P.peerIdToBytes (P.toPeerId key) = r.peerId
  node : NodeId.fromInitialPublicKey P r.initialPublicKey = r.nodeId
  succession : Succession P g r
  signer : Signer P g r

theorem validateActionPredecessor_ok {g : AuthorizationRegistry} {identity : AuthorizationRecord}
    {action : RecordId} {u : Unit} (h : g.validateActionPredecessor identity action = .ok u) :
    ActionOf g identity.id action := by
  unfold validateActionPredecessor at h
  split at h
  · exact Or.inl ‹_›
  · obtain ⟨a, read, owned⟩ := bind_ok.mp h
    obtain ⟨present, same⟩ := record_ok.mp read
    exact Or.inr ⟨a, present, same, ensure_ok.mp owned⟩

theorem validateRetirement_ok {g : AuthorizationRegistry} {r : AuthorizationRecord} {u : Unit}
    (h : g.validateRetirement r = .ok u) :
    ∃ t, r.retires = some t ∧ ActionOf g t.identity t.actionHead := by
  unfold validateRetirement at h
  split at h
  · cases h
  · rename_i t retired
    obtain ⟨identity, read, h⟩ := bind_ok.mp h
    have action := validateActionPredecessor_ok h
    rw [(record_ok.mp read).2] at action
    exact ⟨t, retired, action⟩

theorem validateSuccessor_ok {g : AuthorizationRegistry} {r p : AuthorizationRecord} {u : Unit}
    (h : g.validateSuccessor r p = .ok u) :
    (r.kind = .rotate ∧ r.state = .active ∧ r.authorizer = some p.id ∧ r.retires = none) ∨
    ((r.kind = .recover ∧ r.state = .active ∨ r.kind = .revoke ∧ r.state = .revoked) ∧
      ∃ head, r.retires = some ⟨p.id, head⟩ ∧ ActionOf g p.id head) := by
  have retirement : r.retires.any (fun retired => retired.identity = p.id) = true →
      g.validateRetirement r = .ok u → ∃ head, r.retires = some ⟨p.id, head⟩ ∧ ActionOf g p.id head := by
    intro names h
    obtain ⟨t, retired, action⟩ := validateRetirement_ok h
    rw [retired] at names
    have same : t.identity = p.id := by simpa using names
    rw [same] at action
    exact ⟨t.actionHead, by rw [retired, ← same], action⟩
  unfold validateSuccessor at h
  dsimp only at h
  split at h
  · rename_i kind state
    have both := ensure_ok.mp h
    exact Or.inl ⟨kind, state, both.1, by simpa using both.2⟩
  · rename_i kind state
    split at h
    · exact Or.inr ⟨Or.inl ⟨kind, state⟩, retirement ‹_› h⟩
    · cases h
  · rename_i kind state
    split at h
    · exact Or.inr ⟨Or.inr ⟨kind, state⟩, retirement ‹_› h⟩
    · cases h
  · cases h

theorem validateLineage_ok {g : AuthorizationRegistry} {r : AuthorizationRecord} {u : Unit}
    (h : g.validateLineage P r = .ok u) : Succession P g r := by
  unfold validateLineage at h
  cases named : r.predecessor with
  | none =>
    simp only [named, validateAdmission] at h
    obtain ⟨_, shape, genesis⟩ := bind_ok.mp h
    obtain ⟨kind, state, epoch, retires, key⟩ := ensure_ok.mp shape
    refine .admission named kind state epoch (by simpa using retires) key ?_
    intro unsigned
    simpa [unsigned] using ensure_ok.mp genesis
  | some id =>
    simp only [named] at h
    obtain ⟨p, read, rest⟩ := bind_ok.mp h
    obtain ⟨present, same⟩ := record_ok.mp read
    subst same
    obtain ⟨_, chain, successor⟩ := bind_ok.mp rest
    obtain ⟨node, _, epoch⟩ := ensure_ok.mp chain
    rcases validateSuccessor_ok successor with ⟨kind, state, signer, retires⟩ | ⟨kind, head, retires, action⟩
    · exact .rotation p present named node epoch kind state signer retires
    · exact .retirement p head present named node epoch kind retires action

theorem decodeKey_ok {bytes : Bytes} {key : P.PublicKey} :
    decodeKey P bytes = .ok key ↔ P.decodePublicKey bytes = some key := by
  unfold decodeKey Overlay.decodePublicKey
  cases P.decodePublicKey bytes <;> simp [okOr]

theorem signingKey_ok {g : AuthorizationRegistry} {r : AuthorizationRecord} {key signer : P.PublicKey}
    (h : g.signingKey P r key = .ok signer) :
    (r.authorizer = none ∧ r.authorizationPredecessor = none ∧ signer = key) ∨
    ∃ a ∈ g, ∃ head, r.authorizer = some a.id ∧ r.authorizationPredecessor = some head ∧
      ActionOf g a.id head ∧ P.decodePublicKey a.publicKey = some signer := by
  unfold signingKey at h
  split at h
  · rename_i id head authorizer after
    obtain ⟨a, read, rest⟩ := bind_ok.mp h
    obtain ⟨present, same⟩ := record_ok.mp read
    subst same
    obtain ⟨_, action, decoded⟩ := bind_ok.mp rest
    exact Or.inr ⟨a, present, head, authorizer, after, validateActionPredecessor_ok action,
      decodeKey_ok.mp decoded⟩
  · rename_i authorizer after
    exact Or.inl ⟨authorizer, after, (Except.ok.inj h).symm⟩
  · cases h

theorem signingBytes_ok {r : AuthorizationRecord} {bytes : Bytes} :
    r.signingBytes P = .ok bytes ↔ P.bodyBytes r.body = some bytes := by
  rw [AuthorizationRecord.signingBytes, okOr_ok]

theorem validate_ok {g : AuthorizationRegistry} {r : AuthorizationRecord}
    (h : g.validate P r = .ok ()) : Accepted P g r := by
  unfold validate at h
  obtain ⟨_, cluster, h⟩ := bind_ok.mp h
  obtain ⟨expected, hash, h⟩ := bind_ok.mp h
  obtain ⟨_, same, h⟩ := bind_ok.mp h
  obtain ⟨key, decoded, h⟩ := bind_ok.mp h
  obtain ⟨_, peer, h⟩ := bind_ok.mp h
  obtain ⟨_, node, h⟩ := bind_ok.mp h
  obtain ⟨_, lineage, h⟩ := bind_ok.mp h
  obtain ⟨signer, chosen, h⟩ := bind_ok.mp h
  obtain ⟨bytes, encoded, verified⟩ := bind_ok.mp h
  rw [ensure_ok.mp same] at hash
  have key' := decodeKey_ok.mp decoded
  have bytes' := signingBytes_ok.mp encoded
  refine ⟨ensure_ok.mp cluster, hash, ⟨key, key', ensure_ok.mp peer⟩, ensure_ok.mp node,
    validateLineage_ok lineage, ?_⟩
  rcases signingKey_ok chosen with ⟨authorizer, after, rfl⟩ |
    ⟨a, present, head, authorizer, after, action, keyOf⟩
  · exact .own authorizer after ⟨_, bytes, key', bytes', ensure_ok.mp verified⟩
  · exact .authorizer a head present authorizer after action
      ⟨signer, bytes, keyOf, bytes', ensure_ok.mp verified⟩

theorem ActionOf.grown {g g' : AuthorizationRegistry} (grown : Extends g g') {identity action : RecordId}
    (h : ActionOf g identity action) : ActionOf g' identity action := by
  rcases h with same | ⟨a, present, rest⟩
  · exact Or.inl same
  · exact Or.inr ⟨a, grown.records a present, rest⟩

theorem ActionOf.mem {g : AuthorizationRegistry} {identity : AuthorizationRecord} {action : RecordId}
    (present : identity ∈ g) (h : ActionOf g identity.id action) : ∃ a ∈ g, a.id = action := by
  rcases h with same | ⟨a, inside, same, _⟩
  · exact ⟨identity, present, same.symm⟩
  · exact ⟨a, inside, same⟩

theorem Accepted.grown {g g' : AuthorizationRegistry} (grown : Extends g g') {r : AuthorizationRecord}
    (h : Accepted P g r) : Accepted P g' r where
  cluster := h.cluster.trans grown.cluster.symm
  id := h.id
  peer := h.peer
  node := h.node
  succession := by
    cases h.succession with
    | admission root kind state epoch retires key genesis =>
      exact .admission root kind state epoch retires key genesis
    | rotation p present named node epoch kind state signer retires =>
      exact .rotation p (grown.records p present) named node epoch kind state signer retires
    | retirement p head present named node epoch kind retires action =>
      exact .retirement p head (grown.records p present) named node epoch kind retires
        (action.grown grown)
  signer := by
    cases h.signer with
    | own authorizer action signed => exact .own authorizer action signed
    | authorizer a head present named after action signed =>
      exact .authorizer a head (grown.records a present) named after (action.grown grown) signed

/-- Everything an accepted record names is present. -/
theorem Accepted.dependency {g : AuthorizationRegistry} {r : AuthorizationRecord} (h : Accepted P g r)
    {id : RecordId} (named : id ∈ r.dependencies) : ∃ s ∈ g, s.id = id := by
  have lineage : (r.predecessor = some id ∨ ∃ t, r.retires = some t ∧
      (id = t.identity ∨ id = t.actionHead)) → ∃ s ∈ g, s.id = id := by
    intro which
    cases h.succession with
    | admission root _ _ _ retires => simp [root, retires] at which
    | rotation p present named _ _ _ _ _ retires =>
      simp only [named, retires, Option.some.injEq, reduceCtorEq, false_and, exists_false,
        or_false] at which
      exact ⟨p, present, which⟩
    | retirement p head present named _ _ _ retires action =>
      simp only [named, retires, Option.some.injEq, exists_eq_left'] at which
      rcases which with same | same | same
      · exact ⟨p, present, same⟩
      · exact ⟨p, present, same.symm⟩
      · obtain ⟨a, inside, equal⟩ := action.mem present
        exact ⟨a, inside, equal.trans same.symm⟩
  have signing : (r.authorizer = some id ∨ r.authorizationPredecessor = some id) → ∃ s ∈ g, s.id = id := by
    intro which
    cases h.signer with
    | own authorizer action => simp [authorizer, action] at which
    | authorizer a head present named after action =>
      simp only [named, after, Option.some.injEq] at which
      rcases which with same | same
      · exact ⟨a, present, same⟩
      · obtain ⟨b, inside, equal⟩ := action.mem present
        exact ⟨b, inside, equal.trans same⟩
  simp only [AuthorizationRecord.dependencies, List.mem_append,
    Option.mem_toList] at named
  rcases named with ((named | named) | named) | named
  · exact lineage (Or.inl named)
  · exact signing (Or.inl named)
  · exact signing (Or.inr named)
  · cases retired : r.retires with
    | none => simp [retired] at named
    | some t => exact lineage (Or.inr ⟨t, retired, by simpa [retired] using named⟩)

/-! ### Append-only growth -/

/-- `g` with one more record. -/
def added (g : AuthorizationRegistry) (r : AuthorizationRecord) : AuthorizationRegistry :=
  { g with records := g.records.insert r }

/-- One validated record at a time, each of them among those `offered`. -/
inductive Grows (P : Primitives) (offered : AuthorizationRecord → Prop) (g : AuthorizationRegistry) :
    AuthorizationRegistry → Prop where
  | refl : Grows P offered g g
  | add {h : AuthorizationRegistry} {r : AuthorizationRecord} (before : Grows P offered g h)
      (from_offer : offered r) (fresh : h.records.get? r.id = none) (ok : h.validate P r = .ok ()) :
      Grows P offered g (h.added r)

variable {offered : AuthorizationRecord → Prop} {g h k : AuthorizationRegistry} {r s : AuthorizationRecord}

theorem mem_added (fresh : g.records.get? r.id = none) : s ∈ g.added r ↔ s = r ∨ s ∈ g :=
  KeyedMap.mem_insert_fresh fresh

theorem extends_added (fresh : g.records.get? r.id = none) : Extends g (g.added r) :=
  ⟨rfl, fun _ member => (mem_added fresh).mpr (Or.inr member)⟩

theorem Grows.extends (grown : Grows P offered g h) : Extends g h := by
  induction grown with
  | refl => exact Extends.refl g
  | add _ _ fresh _ ih => exact ih.trans (extends_added fresh)

theorem Grows.trans (first : Grows P offered g h) (second : Grows P offered h k) :
    Grows P offered g k := by
  induction second with
  | refl => exact first
  | add _ offer fresh ok ih => exact .add ih offer fresh ok

theorem Grows.mono {wider : AuthorizationRecord → Prop} (sub : ∀ r, offered r → wider r)
    (grown : Grows P offered g h) : Grows P wider g h := by
  induction grown with
  | refl => exact .refl
  | add _ offer fresh ok ih => exact .add ih (sub _ offer) fresh ok

theorem Grows.mem (grown : Grows P offered g h) (member : r ∈ h) : r ∈ g ∨ offered r := by
  induction grown with
  | refl => exact Or.inl member
  | add _ offer fresh _ ih =>
    rcases (mem_added fresh).mp member with rfl | old
    · exact Or.inr offer
    · exact ih old

/-- The three ways a call of `insert` can end. -/
theorem insert_cases (g : AuthorizationRegistry) (r : AuthorizationRecord) :
    (g.records.get? r.id ≠ none ∧ g.insert P r = (.ok false, g)) ∨
    (g.records.get? r.id = none ∧ ∃ e, g.validate P r = .error e ∧ g.insert P r = (.error e, g)) ∨
    (g.records.get? r.id = none ∧ g.validate P r = .ok () ∧ g.insert P r = (.ok true, g.added r)) := by
  unfold insert KeyedMap.contains
  cases found : g.records.get? r.id with
  | some s => exact Or.inl ⟨by simp, by simp⟩
  | none =>
    cases answer : g.validate P r with
    | error e => exact Or.inr (Or.inl ⟨rfl, e, rfl, by simp⟩)
    | ok u => exact Or.inr (Or.inr ⟨rfl, rfl, by simp [added]⟩)

theorem insert_grows (offer : offered r) : Grows P offered g (g.insert P r).2 := by
  rcases insert_cases (P := P) g r with ⟨_, same⟩ | ⟨_, e, _, same⟩ | ⟨fresh, ok, same⟩
  · rw [same]; exact .refl
  · rw [same]; exact .refl
  · rw [same]; exact .add .refl offer fresh ok

theorem mergeRound_grows {pending : List AuthorizationRecord} {start : MergeRound}
    (offers : ∀ r ∈ pending, offered r) :
    (∀ round, mergeRound P pending start = .ok round → Grows P offered start.registry round.registry) ∧
    (∀ e g', mergeRound P pending start = .error (e, g') → Grows P offered start.registry g') := by
  induction pending generalizing start with
  | nil =>
    refine ⟨fun round h => ?_, fun e g' h => ?_⟩
    · cases h; exact .refl
    · cases h
  | cons r pending ih =>
    have first : Grows P offered start.registry (start.registry.insert P r).2 :=
      insert_grows (offers r List.mem_cons_self)
    have rest := fun next : MergeRound =>
      @ih next fun s member => offers s (List.mem_cons_of_mem _ member)
    simp only [mergeRound]
    split
    · rename_i registry answer
      rw [answer] at first
      exact ⟨fun round h => first.trans ((rest _).1 round h), fun e g' h => first.trans ((rest _).2 e g' h)⟩
    · rename_i registry answer
      rw [answer] at first
      exact ⟨fun round h => first.trans ((rest _).1 round h), fun e g' h => first.trans ((rest _).2 e g' h)⟩
    · rename_i registry _ answer
      rw [answer] at first
      refine ⟨fun round h => ?_, fun e g' h => ?_⟩
      · cases h
      · cases h
        exact first

theorem mergeRound_deferred_mem {pending : List AuthorizationRecord} {start round : MergeRound}
    (h : mergeRound P pending start = .ok round) :
    ∀ r ∈ round.deferred, r ∈ start.deferred ∨ r ∈ pending := by
  induction pending generalizing start with
  | nil => cases h; exact fun r member => Or.inl member
  | cons s pending ih =>
    intro r member
    simp only [mergeRound] at h
    split at h
    · exact (ih h r member).imp_right (List.mem_cons_of_mem _)
    · rcases ih h r member with before | later
      · rcases List.mem_append.mp before with before | here
        · exact Or.inl before
        · exact Or.inr (List.mem_singleton.mp here ▸ List.mem_cons_self)
      · exact Or.inr (List.mem_cons_of_mem _ later)
    · cases h

theorem mergeRounds_grows {pending : List AuthorizationRecord} {inserted : Nat}
    (offers : ∀ r ∈ pending, offered r) : Grows P offered g (mergeRounds P g pending inserted).2 := by
  fun_induction mergeRounds P g pending inserted with
  | case1 => exact .refl
  | case2 g pending inserted _ e registry answer => exact (mergeRound_grows offers).2 e _ answer
  | case3 g pending inserted _ round answer _ _ _ => exact (mergeRound_grows offers).1 round answer
  | case4 g pending inserted _ round answer _ _ => exact (mergeRound_grows offers).1 round answer
  | case5 g pending inserted _ round answer _ ih =>
    refine ((mergeRound_grows offers).1 round answer).trans (ih fun r member => ?_)
    rcases mergeRound_deferred_mem answer r member with absurd | inside
    · cases absurd
    · exact offers r inside

theorem merge_grows {records : List AuthorizationRecord} (offers : ∀ r ∈ records, offered r) :
    Grows P offered g (g.merge P records).2 :=
  mergeRounds_grows offers

theorem replay_grows {calls : List RegistryCall}
    (offers : ∀ call ∈ calls, ∀ r ∈ call.offered, offered r) : Grows P offered g (g.replay P calls) := by
  induction calls generalizing g with
  | nil => exact .refl
  | cons call calls ih =>
    have first : Grows P offered g (call.apply P g) := by
      cases call with
      | insert r => exact insert_grows (offers _ List.mem_cons_self r (List.mem_singleton_self r))
      | merge records => exact merge_grows (offers _ List.mem_cons_self)
    exact first.trans (ih fun c member => offers c (List.mem_cons_of_mem _ member))

/-- Growth by whatever the calls offered. -/
theorem replay_grows_any (calls : List RegistryCall) : Grows P (fun _ => True) g (g.replay P calls) :=
  replay_grows fun _ _ _ _ => trivial

theorem merge_grows_any (records : List AuthorizationRecord) :
    Grows P (fun _ => True) g (g.merge P records).2 :=
  merge_grows fun _ _ => trivial

/-! ### The invariant -/

/-- A numbering of the records in which every record comes after all it names. -/
structure Ranking (g : AuthorizationRegistry) (rank : RecordId → Nat) : Prop where
  bounded : ∀ r ∈ g, rank r.id < g.records.size
  after : ∀ r ∈ g, ∀ id ∈ r.dependencies, rank id < rank r.id

structure WellFormed (P : Primitives) (g : AuthorizationRegistry) : Prop where
  accepted : ∀ r ∈ g, Accepted P g r
  ranked : ∃ rank, Ranking g rank

theorem wellFormed_new (cluster : ClusterId) : WellFormed P (new cluster) where
  accepted := fun r member => absurd member (KeyedMap.not_mem_empty r)
  ranked := ⟨fun _ => 0, fun r member => absurd member (KeyedMap.not_mem_empty r),
    fun r member => absurd member (KeyedMap.not_mem_empty r)⟩

theorem ranking_added {rank : RecordId → Nat} (wf : WellFormed P g) (ranked : Ranking g rank)
    (fresh : g.records.get? r.id = none) (accepted : Accepted P g r) :
    Ranking (g.added r) (Function.update rank r.id g.records.size) := by
  have size : (g.added r).records.size = g.records.size + 1 := KeyedMap.size_insert_fresh fresh
  have old : ∀ s ∈ g, Function.update rank r.id g.records.size s.id = rank s.id :=
    fun s member => Function.update_of_ne (KeyedMap.get?_eq_none.mp fresh s member) _ _
  have named : ∀ s, Accepted P g s → ∀ id ∈ s.dependencies,
      Function.update rank r.id g.records.size id = rank id := by
    intro s acceptedS id dependency
    obtain ⟨d, member, rfl⟩ := acceptedS.dependency dependency
    exact old d member
  constructor
  · intro s member
    rw [size]
    rcases (mem_added fresh).mp member with rfl | inside
    · rw [Function.update_self]
      exact Nat.lt_succ_self _
    · rw [old s inside]
      exact Nat.lt_succ_of_lt (ranked.bounded s inside)
  · intro s member id dependency
    rcases (mem_added fresh).mp member with rfl | inside
    · rw [named s accepted id dependency, Function.update_self]
      obtain ⟨d, present, rfl⟩ := accepted.dependency dependency
      exact ranked.bounded d present
    · rw [named s (wf.accepted s inside) id dependency, old s inside]
      exact ranked.after s inside id dependency

theorem wellFormed_added (wf : WellFormed P g) (fresh : g.records.get? r.id = none)
    (ok : g.validate P r = .ok ()) : WellFormed P (g.added r) where
  accepted := by
    intro s member
    rcases (mem_added fresh).mp member with rfl | inside
    · exact (validate_ok ok).grown (extends_added fresh)
    · exact (wf.accepted s inside).grown (extends_added fresh)
  ranked := by
    obtain ⟨rank, ranked⟩ := wf.ranked
    exact ⟨_, ranking_added wf ranked fresh (validate_ok ok)⟩

theorem Grows.wellFormed (grown : Grows P offered g h) (wf : WellFormed P g) : WellFormed P h := by
  induction grown with
  | refl => exact wf
  | add _ _ fresh ok ih => exact wellFormed_added ih fresh ok

/-- Every record would be accepted again by the registry as it is now. -/
def Valid (P : Primitives) (g : AuthorizationRegistry) : Prop := ∀ r ∈ g, g.validate P r = .ok ()

theorem Grows.valid (grown : Grows P offered g h) (valid : Valid P g) : Valid P h := by
  induction grown with
  | refl => exact valid
  | add _ _ fresh ok ih =>
    intro s member
    rcases (mem_added fresh).mp member with rfl | inside
    · exact validate_grown (extends_added fresh) ok
    · exact validate_grown (extends_added fresh) (ih s inside)

theorem valid_replay (cluster : ClusterId) (calls : List RegistryCall) :
    Valid P ((new cluster).replay P calls) :=
  (replay_grows_any calls).valid
    fun r member => absurd member (KeyedMap.not_mem_empty r)

/-- Every registry built from an empty one by inserts and merges satisfies the invariant. -/
theorem wellFormed_replay (cluster : ClusterId) (calls : List RegistryCall) :
    WellFormed P ((new cluster).replay P calls) :=
  (replay_grows_any calls).wellFormed (wellFormed_new cluster)

end AuthorizationRegistry

end Lycoris.Overlay
