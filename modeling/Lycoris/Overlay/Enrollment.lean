import Lycoris.Overlay.Admission
import Lycoris.Overlay.Growth

/-!
Runs of an enrollment. `Served` lists what one call can do; from it every quarantined candidate is
traced back to the `begin` that issued its challenge, so that a proof is bound to that challenge,
a challenge is used up by its first success, and the quarantine stays bounded.
-/

namespace Lycoris.Overlay
open Lib

namespace Enrollment

variable {P : Primitives} {A : AdmissionPrimitives} {e e' : Enrollment} {n : NodeId}

/-! ### What one call can do -/

/-- The two ways an admission succeeds: by the record that is active already, or by a new one. -/
inductive Admits (e : Enrollment) (n : NodeId) (sponsor : NodeIdentity P) :
    EnrollmentOutcome → Enrollment → Prop where
  | resumed {pending : PendingAdmission} {sponsorRecord record : AuthorizationRecord}
      (found : e.quarantined.get? n = some pending)
      (same : pending.sponsorNodeId = sponsor.nodeId)
      (sponsored : e.ensureSponsor sponsor = .ok sponsorRecord)
      (resumes : pending.resumeRecord = some record.id)
      (active : e.registry.activeRecordForNode n = some record)
      (fits : recordMatchesIdentity record pending.candidate.identity = true) :
      Admits e n sponsor ⟨record, e.registry.records.vals⟩
        { e with quarantined := e.quarantined.erase n }
  | fresh {pending : PendingAdmission} {sponsorRecord head record : AuthorizationRecord}
      {inserted : Bool} {registry : AuthorizationRegistry}
      (found : e.quarantined.get? n = some pending)
      (same : pending.sponsorNodeId = sponsor.nodeId)
      (sponsored : e.ensureSponsor sponsor = .ok sponsorRecord)
      (new : pending.resumeRecord = none)
      (last : e.registry.authorizerHead sponsorRecord = .ok head)
      (signed : AuthorizationRecord.admitIdentity e.registry.clusterId pending.candidate.identity
        sponsorRecord head sponsor = .ok record)
      (inserts : e.registry.insert P record = (.ok inserted, registry)) :
      Admits e n sponsor ⟨record, registry.records.vals⟩
        { e with registry, quarantined := e.quarantined.erase n }

theorem Admits.pending {sponsor : NodeIdentity P} {outcome : EnrollmentOutcome}
    (h : Admits e n sponsor outcome e') :
    ∃ pending, e.quarantined.get? n = some pending ∧ pending.sponsorNodeId = sponsor.nodeId := by
  cases h with
  | resumed found same => exact ⟨_, found, same⟩
  | fresh found same => exact ⟨_, found, same⟩

theorem Admits.quarantined {sponsor : NodeIdentity P} {outcome : EnrollmentOutcome}
    (h : Admits e n sponsor outcome e') : e'.quarantined = e.quarantined.erase n := by
  cases h <;> rfl

theorem liftAuthorization_ok {α : Type} {x : Except AuthorizationError α} {a : α} :
    liftAuthorization x = .ok a ↔ x = .ok a := by
  cases x <;> simp [liftAuthorization]

theorem fromRecords_extends {cluster : ClusterId} {records : List AuthorizationRecord}
    {registry : AuthorizationRegistry} (h : AuthorizationRegistry.fromRecords P cluster records = .ok registry) :
    AuthorizationRegistry.Extends (.new cluster) registry := by
  have grows : AuthorizationRegistry.Grows P (fun _ => True) (.new cluster)
      ((AuthorizationRegistry.new cluster).merge P records).2 := AuthorizationRegistry.merge_grows_any records
  unfold AuthorizationRegistry.fromRecords at h
  split at h
  · rename_i answer
    cases h
    rw [answer] at grows
    exact grows.extends
  · cases h

/-- The registry a joiner adopts belongs to the cluster of the challenge. -/
theorem validateFor_cluster {outcome : EnrollmentOutcome} {candidate : AdmissionCandidate}
    {challenge : AdmissionChallenge} {sponsor : P.PeerId} {registry : AuthorizationRegistry}
    (h : outcome.validateFor P candidate challenge sponsor = .ok registry) :
    registry.clusterId = challenge.clusterId := by
  unfold EnrollmentOutcome.validateFor at h
  obtain ⟨_, _, h⟩ := bind_ok.mp h
  obtain ⟨built, valid, h⟩ := bind_ok.mp h
  obtain ⟨_, _, h⟩ := bind_ok.mp h
  obtain ⟨_, _, h⟩ := bind_ok.mp h
  obtain ⟨_, _, h⟩ := bind_ok.mp h
  obtain ⟨_, _, h⟩ := bind_ok.mp h
  obtain ⟨_, _, h⟩ := bind_ok.mp h
  cases h
  exact (fromRecords_extends (liftAuthorization_ok.mp valid)).cluster

theorem admittedRecord_ok {sponsor : NodeIdentity P} {record : AuthorizationRecord} {new : Bool}
    (h : e.admittedRecord n sponsor = .ok (record, new)) :
    ∃ pending sponsorRecord, e.quarantined.get? n = some pending ∧
      pending.sponsorNodeId = sponsor.nodeId ∧ e.ensureSponsor sponsor = .ok sponsorRecord ∧
      ((new = false ∧ pending.resumeRecord = some record.id ∧
          e.registry.activeRecordForNode n = some record ∧
          recordMatchesIdentity record pending.candidate.identity = true) ∨
        (new = true ∧ pending.resumeRecord = none ∧ ∃ head,
          e.registry.authorizerHead sponsorRecord = .ok head ∧
          AuthorizationRecord.admitIdentity e.registry.clusterId pending.candidate.identity
            sponsorRecord head sponsor = .ok record)) := by
  unfold admittedRecord at h
  obtain ⟨pending, found, h⟩ := bind_ok.mp h
  obtain ⟨_, same, h⟩ := bind_ok.mp h
  obtain ⟨sponsorRecord, sponsored, h⟩ := bind_ok.mp h
  refine ⟨pending, sponsorRecord, okOr_ok.mp found, ensure_ok.mp same, sponsored, ?_⟩
  cases resumes : pending.resumeRecord with
  | some expected =>
    simp only [resumes] at h
    split at h
    · rename_i active there
      split at h
      · rename_i both
        cases h
        exact Or.inl ⟨rfl, by rw [both.1], there, both.2⟩
      · cases h
    · cases h
  | none =>
    simp only [resumes] at h
    obtain ⟨head, last, h⟩ := bind_ok.mp h
    obtain ⟨admission, signed, h⟩ := bind_ok.mp h
    cases h
    exact Or.inr ⟨rfl, rfl, head, liftAuthorization_ok.mp last, liftAuthorization_ok.mp signed⟩

/-- An admission that fails leaves everything as it was. -/
theorem admitPending_cases (e : Enrollment) (n : NodeId) (sponsor : NodeIdentity P) :
    (∃ error, e.admitPending n sponsor = (.error error, e)) ∨
    ∃ outcome e', e.admitPending n sponsor = (.ok outcome, e') ∧ Admits e n sponsor outcome e' := by
  unfold admitPending
  split
  · exact Or.inl ⟨_, rfl⟩
  · rename_i record answer
    obtain ⟨pending, sponsorRecord, found, same, sponsored, resumed | fresh⟩ := admittedRecord_ok answer
    · obtain ⟨_, resumes, active, fits⟩ := resumed
      exact Or.inr ⟨_, _, rfl, .resumed found same sponsored resumes active fits⟩
    · exact absurd fresh.1 (by simp)
  · rename_i record answer
    obtain ⟨pending, sponsorRecord, found, same, sponsored, resumed | fresh⟩ := admittedRecord_ok answer
    · exact absurd resumed.1 (by simp)
    · obtain ⟨_, new, head, last, signed⟩ := fresh
      split
      · rename_i error registry failed
        rcases AuthorizationRegistry.insert_cases (P := P) e.registry record with
          ⟨_, kept⟩ | ⟨_, _, _, kept⟩ | ⟨_, _, kept⟩
        · cases kept.symm.trans failed
        · cases kept.symm.trans failed
          exact Or.inl ⟨_, rfl⟩
        · cases kept.symm.trans failed
      · rename_i inserted registry inserts
        exact Or.inr ⟨_, _, rfl, .fresh found same sponsored new last signed inserts⟩

end Enrollment

namespace EnrollmentCall
variable {P : Primitives}

/-- The node a call is about; a checkpoint is about none. -/
def nodeId : EnrollmentCall P → Option NodeId
  | .begin candidate _ _ _ => some candidate.identity.nodeId
  | .enroll proof _ _ => some proof.candidate.identity.nodeId
  | .approve nodeId _ => some nodeId
  | .mergeCheckpoint _ => none

/-- The nonce drawn for the challenge of a `begin`. -/
def nonce : EnrollmentCall P → Option Nonce
  | .begin _ _ _ nonce => nonce
  | _ => none

end EnrollmentCall

namespace Enrollment

variable {P : Primitives} {A : AdmissionPrimitives} {e e' : Enrollment} {n : NodeId}

/-- Everything a call can answer, and the enrollment it then leaves. -/
inductive Served (A : AdmissionPrimitives) (e : Enrollment) :
    EnrollmentCall P → EnrollmentReply → Enrollment → Prop where
  | refused {call : EnrollmentCall P} (about : call.nodeId ≠ none) : Served A e call .rejected e
  | unmerged {records : List AuthorizationRecord} {error : AuthorizationError}
      {registry : AuthorizationRegistry} (failed : e.registry.merge P records = (.error error, registry)) :
      Served A e (.mergeCheckpoint records) .rejected { e with registry }
  | merged {records : List AuthorizationRecord} {count : Nat} {registry : AuthorizationRegistry}
      (ok : e.registry.merge P records = (.ok count, registry)) :
      Served A e (.mergeCheckpoint records) (.merged count) { e with registry }
  | begun {candidate : AdmissionCandidate} {peer : P.PeerId} {sponsor : NodeIdentity P}
      {nonce : Option Nonce} {pending : PendingAdmission}
      (ok : e.prepare candidate peer sponsor nonce = .ok pending) :
      Served A e (.begin candidate peer sponsor nonce) (.challenge pending.challenge)
        { e with quarantined := e.quarantined.insert pending }
  | enrolled {proof : JoinProof} {peer : P.PeerId} {sponsor : NodeIdentity P}
      {outcome : EnrollmentOutcome} {e' : Enrollment} (checked : e.checkProof A proof peer = .ok ())
      (admits : Admits e proof.candidate.identity.nodeId sponsor outcome e') :
      Served A e (.enroll proof peer sponsor) (.admitted outcome) e'
  | approved {nodeId : NodeId} {sponsor : NodeIdentity P} {outcome : EnrollmentOutcome}
      {e' : Enrollment} (admits : Admits e nodeId sponsor outcome e') :
      Served A e (.approve nodeId sponsor) (.admitted outcome) e'

theorem serve_served (A : AdmissionPrimitives) (e : Enrollment) (call : EnrollmentCall P) :
    Served A e call (e.serve A call).1 (e.serve A call).2 := by
  cases call with
  | begin candidate peer sponsor nonce =>
    cases answer : e.prepare candidate peer sponsor nonce with
    | error error =>
      simp only [serve, Enrollment.begin, answer]
      exact .refused (by simp [EnrollmentCall.nodeId])
    | ok pending =>
      simp only [serve, Enrollment.begin, answer]
      exact .begun answer
  | enroll proof peer sponsor =>
    cases checked : e.checkProof A proof peer with
    | error error =>
      simp only [serve, enrollWithJoinKey, checked]
      exact .refused (by simp [EnrollmentCall.nodeId])
    | ok u =>
      rcases admitPending_cases e proof.candidate.identity.nodeId sponsor with
        ⟨error, answer⟩ | ⟨outcome, e', answer, admits⟩
      · simp only [serve, enrollWithJoinKey, checked, answer]
        exact .refused (by simp [EnrollmentCall.nodeId])
      · simp only [serve, enrollWithJoinKey, checked, answer]
        exact .enrolled checked admits
  | approve nodeId sponsor =>
    simp only [serve, approve]
    split
    · rcases admitPending_cases e nodeId sponsor with ⟨error, answer⟩ | ⟨outcome, e', answer, admits⟩
      · simp only [answer]
        exact .refused (by simp [EnrollmentCall.nodeId])
      · simp only [answer]
        exact .approved admits
    · exact .refused (by simp [EnrollmentCall.nodeId])
  | mergeCheckpoint records =>
    cases answer : e.registry.merge P records with
    | mk result registry =>
      cases result with
      | ok count =>
        simp only [serve, mergeCheckpoint, answer]
        exact .merged answer
      | error error =>
        simp only [serve, mergeCheckpoint, answer]
        exact .unmerged answer

theorem Served.registry {call : EnrollmentCall P} {reply : EnrollmentReply}
    (h : Served A e call reply e') :
    AuthorizationRegistry.Grows P (fun _ => True) e.registry e'.registry := by
  have admitted : ∀ {n sponsor outcome e'}, Admits (P := P) e n sponsor outcome e' →
      AuthorizationRegistry.Grows P (fun _ => True) e.registry e'.registry := by
    intro n sponsor outcome e' admits
    cases admits with
    | resumed => exact .refl
    | @fresh _ _ _ record _ _ _ _ _ _ _ _ inserts =>
      have grows : AuthorizationRegistry.Grows P (fun _ => True) e.registry
        (e.registry.insert P record).2 := AuthorizationRegistry.insert_grows trivial
      rwa [inserts] at grows
  have merge : ∀ records, AuthorizationRegistry.Grows P (fun _ => True) e.registry
      (e.registry.merge P records).2 := AuthorizationRegistry.merge_grows_any
  cases h with
  | refused => exact .refl
  | @unmerged records _ _ failed => simpa only [failed] using merge records
  | @merged records _ _ ok => simpa only [ok] using merge records
  | begun => exact .refl
  | enrolled _ admits => exact admitted admits
  | approved admits => exact admitted admits

/-- The registry of an enrollment started on a reachable one stays reachable in the sense every
result about registries needs. -/
theorem run_grows (calls : List (EnrollmentCall P)) :
    AuthorizationRegistry.Grows P (fun _ => True) e.registry (e.run A calls).registry := by
  induction calls generalizing e with
  | nil => exact .refl
  | cons call calls ih => exact (serve_served A e call).registry.trans ih

/-! ### Where a quarantined candidate comes from -/

theorem prepare_ok {candidate : AdmissionCandidate} {peer : P.PeerId} {sponsor : NodeIdentity P}
    {nonce : Option Nonce} {pending : PendingAdmission}
    (h : e.prepare candidate peer sponsor nonce = .ok pending) :
    pending.candidate = candidate ∧ pending.sponsorNodeId = sponsor.nodeId ∧
      nonce = some pending.challenge.nonce ∧
      (e.quarantined.contains candidate.identity.nodeId = true ∨ e.quarantined.size < maxQuarantined) := by
  unfold prepare at h
  obtain ⟨_, _, h⟩ := bind_ok.mp h
  obtain ⟨_, _, h⟩ := bind_ok.mp h
  obtain ⟨resume, _, h⟩ := bind_ok.mp h
  obtain ⟨_, room, h⟩ := bind_ok.mp h
  obtain ⟨value, drawn, h⟩ := bind_ok.mp h
  cases h
  exact ⟨rfl, rfl, okOr_ok.mp drawn, ensure_ok.mp room⟩

theorem checkProof_ok {proof : JoinProof} {peer : P.PeerId} (h : e.checkProof A proof peer = .ok ()) :
    ∃ key pending, e.joinKey = some key ∧ proof.candidate.identity.peerId = P.peerIdToBytes peer ∧
      e.quarantined.get? proof.candidate.identity.nodeId = some pending ∧
      pending.candidate = proof.candidate ∧ pending.challenge = proof.challenge ∧
      proof.verify A key = .ok () := by
  unfold checkProof at h
  obtain ⟨key, keyed, h⟩ := bind_ok.mp h
  obtain ⟨_, peer, h⟩ := bind_ok.mp h
  obtain ⟨pending, found, h⟩ := bind_ok.mp h
  obtain ⟨_, agree, verified⟩ := bind_ok.mp h
  exact ⟨key, pending, okOr_ok.mp keyed, ensure_ok.mp peer, okOr_ok.mp found, (ensure_ok.mp agree).1,
    (ensure_ok.mp agree).2, verified⟩

/-- A candidate in the quarantine after a call was there before, with no success for its node, or
was put there by this call. -/
theorem Served.found {call : EnrollmentCall P} {reply : EnrollmentReply} (h : Served A e call reply e')
    {pending : PendingAdmission} (found : e'.quarantined.get? n = some pending) :
    (e.quarantined.get? n = some pending ∧ (call.nodeId = some n → reply = .rejected)) ∨
    ∃ candidate peer sponsor nonce, call = .begin candidate peer sponsor nonce ∧
      e.prepare candidate peer sponsor nonce = .ok pending := by
  have erased : ∀ {m sponsor outcome e'}, Admits (P := P) e m sponsor outcome e' →
      e'.quarantined.get? n = some pending → m ≠ n ∧ e.quarantined.get? n = some pending := by
    intro m sponsor outcome e' admits found
    rw [admits.quarantined, KeyedMap.get?_erase] at found
    split at found
    · cases found
    · exact ⟨‹_›, found⟩
  cases h with
  | refused => exact Or.inl ⟨found, fun _ => rfl⟩
  | unmerged => exact Or.inl ⟨found, fun _ => rfl⟩
  | merged => exact Or.inl ⟨found, fun about => by cases about⟩
  | begun ok =>
    rw [KeyedMap.get?_insert] at found
    split at found
    · cases found
      exact Or.inr ⟨_, _, _, _, rfl, ok⟩
    · rename_i apart
      refine Or.inl ⟨found, fun about => absurd (Option.some.inj about) ?_⟩
      rw [← (prepare_ok ok).1]
      exact apart
  | enrolled _ admits =>
    obtain ⟨apart, old⟩ := erased admits found
    exact Or.inl ⟨old, fun about => absurd (Option.some.inj about) apart⟩
  | approved admits =>
    obtain ⟨apart, old⟩ := erased admits found
    exact Or.inl ⟨old, fun about => absurd (Option.some.inj about) apart⟩

theorem Served.size {call : EnrollmentCall P} {reply : EnrollmentReply} (h : Served A e call reply e')
    (bound : e.quarantined.size ≤ maxQuarantined) : e'.quarantined.size ≤ maxQuarantined := by
  cases h with
  | refused => exact bound
  | unmerged => exact bound
  | merged => exact bound
  | @begun candidate peer sponsor nonce pending ok =>
    obtain ⟨same, _, _, room⟩ := prepare_ok ok
    by_cases present : e.quarantined.contains pending.nodeId = true
    · exact (KeyedMap.size_insert_present present).trans_le bound
    · have fresh : e.quarantined.get? pending.nodeId = none := by
        simpa [KeyedMap.contains] using present
      rw [← same] at room
      have less := room.resolve_left present
      exact (KeyedMap.size_insert_fresh fresh).trans_le less
  | enrolled _ admits => rw [admits.quarantined]; exact (KeyedMap.size_erase_le _ _).trans bound
  | approved admits => rw [admits.quarantined]; exact (KeyedMap.size_erase_le _ _).trans bound

theorem Served.joinKey {call : EnrollmentCall P} {reply : EnrollmentReply} (h : Served A e call reply e') :
    e'.joinKey = e.joinKey := by
  have admitted : ∀ {m sponsor outcome e'}, Admits (P := P) e m sponsor outcome e' →
      e'.joinKey = e.joinKey := by
    intro m sponsor outcome e' admits
    cases admits <;> rfl
  cases h with
  | refused => rfl
  | unmerged => rfl
  | merged => rfl
  | begun => rfl
  | enrolled _ admits => exact admitted admits
  | approved admits => exact admitted admits

/-! ### Runs -/

section Runs

variable (A) (e : Enrollment) (calls : List (EnrollmentCall P))

/-- The enrollment before the call at position `i`. -/
def before (i : Nat) : Enrollment := e.run A (calls.take i)

/-- The call at position `i` is `call`, and this is its answer. -/
structure Answers (i : Nat) (call : EnrollmentCall P) (reply : EnrollmentReply) : Prop where
  made : calls[i]? = some call
  reply : ((before A e calls i).serve A call).1 = reply

/-- The call at position `i` was about the node and was not refused. -/
def Succeeds (i : Nat) (n : NodeId) : Prop :=
  ∃ call reply, Answers A e calls i call reply ∧ call.nodeId = some n ∧ reply ≠ .rejected

/-- The call at position `i` admitted the node whose challenge this is. -/
def Consumes (i : Nat) (challenge : AdmissionChallenge) : Prop :=
  ∃ call n pending outcome, Answers A e calls i call (.admitted outcome) ∧ call.nodeId = some n ∧
    (before A e calls i).quarantined.get? n = some pending ∧ pending.challenge = challenge

/-- The `begin` at position `j` put `pending` into the quarantine. -/
def Issues (j : Nat) (pending : PendingAdmission) : Prop :=
  ∃ candidate peer sponsor nonce, calls[j]? = some (.begin candidate peer sponsor nonce) ∧
    (before A e calls j).prepare candidate peer sponsor nonce = .ok pending

variable {A e calls}

theorem before_succ {i : Nat} {call : EnrollmentCall P} (made : calls[i]? = some call) :
    before A e calls (i + 1) = ((before A e calls i).serve A call).2 := by
  unfold before run
  rw [List.take_add_one, made]
  simp

theorem served_at {i : Nat} {call : EnrollmentCall P} (made : calls[i]? = some call) :
    Served A (before A e calls i) call ((before A e calls i).serve A call).1 (before A e calls (i + 1)) := by
  rw [before_succ made]
  exact serve_served A _ call

theorem before_end {i : Nat} (past : calls[i]? = none) :
    before A e calls (i + 1) = before A e calls i := by
  unfold before
  rw [List.take_add_one, past]
  simp

/-- What holds at the start and is kept by every call holds throughout. -/
theorem before_induct (Inv : Enrollment → Prop) (start : Inv e)
    (step : ∀ {e call reply e'}, Served (P := P) A e call reply e' → Inv e → Inv e') (i : Nat) :
    Inv (before A e calls i) := by
  induction i with
  | zero => exact start
  | succ i ih =>
    cases made : calls[i]? with
    | none => rw [before_end made]; exact ih
    | some call => exact step (served_at made) ih

theorem issued (empty : ∀ n, e.quarantined.get? n = none) {i : Nat} {pending : PendingAdmission}
    (found : (before A e calls i).quarantined.get? n = some pending) :
    ∃ j < i, Issues A e calls j pending ∧ ∀ k, j < k → k < i → ¬ Succeeds A e calls k n := by
  induction i with
  | zero => exact absurd ((empty n).symm.trans found) (by simp)
  | succ i ih =>
    cases made : calls[i]? with
    | none =>
      rw [before_end made] at found
      obtain ⟨j, less, issues, quiet⟩ := ih found
      refine ⟨j, by omega, issues, fun k after earlier => ?_⟩
      rcases Nat.lt_succ_iff_lt_or_eq.mp earlier with below | rfl
      · exact quiet k after below
      · rintro ⟨call, reply, answers, _⟩
        exact absurd (made.symm.trans answers.made) (by simp)
    | some call =>
      rcases (served_at made).found found with ⟨old, refused⟩ | ⟨candidate, peer, sponsor, nonce, same, ok⟩
      · obtain ⟨j, less, issues, quiet⟩ := ih old
        refine ⟨j, by omega, issues, fun k after earlier => ?_⟩
        rcases Nat.lt_succ_iff_lt_or_eq.mp earlier with below | rfl
        · exact quiet k after below
        · rintro ⟨call', reply, answers, about, accepted⟩
          cases made.symm.trans answers.made
          exact accepted (answers.reply.symm.trans (refused about))
      · refine ⟨i, by omega, ⟨candidate, peer, sponsor, nonce, same ▸ made, ok⟩, fun k after earlier => ?_⟩
        omega

theorem Issues.answers {j : Nat} {pending : PendingAdmission} (h : Issues A e calls j pending) :
    ∃ peer sponsor, Answers A e calls j
        (.begin pending.candidate peer sponsor (some pending.challenge.nonce)) (.challenge pending.challenge) ∧
      sponsor.nodeId = pending.sponsorNodeId := by
  obtain ⟨candidate, peer, sponsor, nonce, made, ok⟩ := h
  obtain ⟨same, sponsored, drawn, _⟩ := prepare_ok ok
  subst same drawn
  refine ⟨peer, sponsor, ⟨made, ?_⟩, sponsored.symm⟩
  simp only [serve, Enrollment.begin, ok, replyTo]

/-- Every `begin` draws a nonce of its own. -/
def DistinctNonces (calls : List (EnrollmentCall P)) : Prop :=
  ∀ (i j : Nat) (value : Nonce), calls[i]?.bind EnrollmentCall.nonce = some value →
    calls[j]?.bind EnrollmentCall.nonce = some value → i = j

theorem Issues.position (distinct : DistinctNonces calls) {i j : Nat} {first second : PendingAdmission}
    (left : Issues A e calls i first) (right : Issues A e calls j second)
    (same : first.challenge = second.challenge) : i = j ∧ first.nodeId = second.nodeId := by
  obtain ⟨peer, sponsor, answers, _⟩ := left.answers
  obtain ⟨peer', sponsor', answers', _⟩ := right.answers
  have equal : i = j := distinct i j first.challenge.nonce (by simp [answers.made, EnrollmentCall.nonce])
    (by simp [answers'.made, EnrollmentCall.nonce, same])
  subst equal
  have calls := answers.made.symm.trans answers'.made
  simp only [Option.some.injEq, EnrollmentCall.begin.injEq] at calls
  exact ⟨rfl, by rw [PendingAdmission.nodeId, calls.1]⟩

theorem Consumes.issued (empty : ∀ n, e.quarantined.get? n = none) {i : Nat}
    {challenge : AdmissionChallenge} (h : Consumes A e calls i challenge) :
    ∃ pending, pending.challenge = challenge ∧ Succeeds A e calls i pending.nodeId ∧
      ∃ j < i, Issues A e calls j pending ∧ ∀ k, j < k → k < i → ¬ Succeeds A e calls k pending.nodeId := by
  obtain ⟨call, n, pending, outcome, answers, about, found, same⟩ := h
  have node := KeyedMap.key_of_get? found
  subst node
  exact ⟨pending, same, ⟨call, _, answers, about, by simp⟩, Enrollment.issued empty found⟩

theorem consumed_once (empty : ∀ n, e.quarantined.get? n = none) (distinct : DistinctNonces calls)
    {i k : Nat} {challenge : AdmissionChallenge} (first : Consumes A e calls i challenge)
    (second : Consumes A e calls k challenge) : i = k := by
  obtain ⟨pending, same, success, j, less, issues, quiet⟩ := first.issued empty
  obtain ⟨pending', same', success', j', less', issues', quiet'⟩ := second.issued empty
  obtain ⟨rfl, node⟩ := issues.position distinct issues' (same.trans same'.symm)
  rw [node] at success quiet
  -- The earlier of two successes would fall between the `begin` and the later one.
  rcases Nat.lt_trichotomy i k with earlier | equal | later
  · exact absurd success (quiet' i less earlier)
  · exact equal
  · exact absurd success' (quiet k less' later)

theorem new_empty (registry : AuthorizationRegistry) (joinKey : Option Bytes) (n : NodeId) :
    (Enrollment.new registry joinKey).quarantined.get? n = none :=
  KeyedMap.get?_empty n

/-- Over every run a join-key admission answers the challenge of the last `begin` for its node by
the same sponsor, no challenge admits twice, the quarantine stays bounded, and a refused call
changes nothing but, for a checkpoint, the registry. -/
theorem admission_proofs_single_use (P : Primitives) (A : AdmissionPrimitives)
    (registry : AuthorizationRegistry) (joinKey : Option Bytes) (calls : List (EnrollmentCall P))
    (distinct : DistinctNonces calls) :
    let e := Enrollment.new registry joinKey
    (∀ i proof peer sponsor outcome,
      Answers A e calls i (.enroll proof peer sponsor) (.admitted outcome) →
        proof.candidate.identity.peerId = P.peerIdToBytes peer ∧
        (∃ key, joinKey = some key ∧ proof.verify A key = .ok ()) ∧
        ∃ j < i, (∃ peer' sponsor' nonce, Answers A e calls j
            (.begin proof.candidate peer' sponsor' nonce) (.challenge proof.challenge) ∧
            sponsor'.nodeId = sponsor.nodeId) ∧
          ∀ k, j < k → k < i → ¬ Succeeds A e calls k proof.candidate.identity.nodeId) ∧
    (∀ challenge i k, Consumes A e calls i challenge → Consumes A e calls k challenge → i = k) ∧
    (∀ i call, Answers A e calls i call .rejected →
      (before A e calls (i + 1)).quarantined = (before A e calls i).quarantined ∧
      (call.nodeId ≠ none → (before A e calls (i + 1)).registry = (before A e calls i).registry)) ∧
    (∀ i, (before A e calls i).quarantined.size ≤ maxQuarantined) := by
  intro e
  have empty : ∀ n, e.quarantined.get? n = none := new_empty registry joinKey
  have keyed : ∀ i, (before A e calls i).joinKey = joinKey := fun i =>
    before_induct (fun e => e.joinKey = joinKey) rfl (fun served same => served.joinKey.trans same) i
  refine ⟨?_, fun challenge i k => consumed_once empty distinct, ?_, ?_⟩
  · intro i proof peer sponsor outcome answers
    have served := served_at (A := A) (e := e) answers.made
    rw [answers.reply] at served
    cases served with
    | enrolled checked admits =>
      obtain ⟨key, pending, key', peer', found, candidate, challenge, verified⟩ := checkProof_ok checked
      obtain ⟨again, found', sponsored⟩ := admits.pending
      cases found.symm.trans found'
      obtain ⟨j, less, issues, quiet⟩ := issued empty found
      obtain ⟨peer'', sponsor', begun, same⟩ := issues.answers
      rw [candidate, challenge] at begun
      refine ⟨peer', ⟨key, (keyed i).symm.trans key', verified⟩, j, less, ?_, quiet⟩
      exact ⟨peer'', sponsor', _, begun, same.trans sponsored⟩
  · intro i call answers
    have served := served_at (A := A) (e := e) answers.made
    rw [answers.reply] at served
    generalize before A e calls (i + 1) = after at served ⊢
    cases served with
    | refused => exact ⟨rfl, fun _ => rfl⟩
    | unmerged => exact ⟨rfl, fun about => absurd rfl about⟩
  · exact fun i => before_induct (fun e => e.quarantined.size ≤ maxQuarantined) (Nat.zero_le _)
      (fun served bound => served.size bound) i

end Runs

section Member
open Transparent

theorem member_admitted_once :
    DistinctNonces [beginMember, enrollMember] ∧
    ((before admissionPrimitives sponsoring [beginMember, enrollMember] 1).serve admissionPrimitives
      enrollMember).1 ≠ .rejected ∧
    (∀ challenge i k, Consumes admissionPrimitives sponsoring [beginMember, enrollMember] i challenge →
      Consumes admissionPrimitives sponsoring [beginMember, enrollMember] k challenge → i = k) := by
  have distinct : DistinctNonces [beginMember, enrollMember] := by
    intro i j value
    rcases i with _ | _ | i <;> rcases j with _ | _ | j <;>
      simp [beginMember, enrollMember, EnrollmentCall.nonce]
  exact ⟨distinct, by decide +kernel,
    (admission_proofs_single_use primitives admissionPrimitives _ _ _ distinct).2.1⟩

/-- A checkpoint whose second record is refused. -/
def spoiledCheckpoint : List AuthorizationRecord := [admission, { admission with id := .ofNat 0 }]

/-- The first record of a refused checkpoint stays. -/
theorem refused_checkpoint_grows :
    (sponsoring.serve (P := primitives) admissionPrimitives (.mergeCheckpoint spoiledCheckpoint)).1 =
      .rejected ∧
    admission ∉ sponsoring.registry.records ∧
    admission ∈ (sponsoring.serve (P := primitives) admissionPrimitives
      (.mergeCheckpoint spoiledCheckpoint)).2.registry.records := by
  exact ⟨by decide +kernel, by decide +kernel, by decide +kernel⟩

end Member

end Enrollment

end Lycoris.Overlay
