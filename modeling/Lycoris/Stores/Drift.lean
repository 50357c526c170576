import Lycoris.Stores.Domains
import Lycoris.Lib.Runs

/-!
Whether the content of a record still hashes to its content hash after applies whose writes may fail. The
pipeline leaves the file alone when the stored record already has the hash of the new one, so it answers
for the file exactly as far as the file it found.
-/

namespace Lycoris.Stores
open Lib Cluster VersionedRecord

section Backed

variable {R E : Type} [VersionedRecord R] {id : R → String} (blake3 : Bytes → Hash)

/-- The stored content of the id hashes to the content hash of its record. -/
def Backed.Verified (store : Backed id) (key : String) : Prop :=
  ∀ record, store.records.get? key = some record →
    ∃ content, store.files[key]? = some content ∧
      verifyContentHash (hashContent blake3 content) (contentHash record) = true

/-- The call passes every check, so that its writes begin. -/
structure Taken (faults : ContentFaults E) (store : Backed id) (record : R) (content : Bytes) : Prop where
  filled : content ≠ []
  hashed : verifyContentHash (hashContent blake3 content) (contentHash record) = true
  read : faults.get = none
  wins : shouldApplyVersioned (store.records.get? (id record)) record = true

variable {blake3} {mismatch : E} {invalid : InvalidResourceId → E} {faults : ContentFaults E}
  {store : Backed id} {record : R} {content : Bytes}

theorem rewrites_iff {held : Option R} :
    rewrites held record = true ↔ ∀ stored, held = some stored → contentHash stored ≠ contentHash record := by
  unfold rewrites
  cases held with
  | none => simp
  | some stored => simp

theorem applyContent_of_not_taken (notTaken : ¬ Taken blake3 faults store record content) :
    (applyContent blake3 mismatch invalid faults store record content).1 = store ∧
      (applyContent blake3 mismatch invalid faults store record content).2 ≠ .ok true := by
  unfold applyContent
  by_cases empty : content.isEmpty = true
  · rw [if_pos empty]
    exact ⟨rfl, by simp⟩
  rw [if_neg empty]
  by_cases hashed : verifyContentHash (hashContent blake3 content) (contentHash record) = true
  · rw [if_neg (by rw [hashed]; decide)]
    cases got : faults.get with
    | some error => exact ⟨rfl, by simp⟩
    | none =>
      by_cases wins : shouldApplyVersioned (store.records.get? (id record)) record = true
      · exact absurd ⟨by simpa using empty, hashed, got, wins⟩ notTaken
      · simp [wins]
  · rw [if_pos (by simpa using hashed)]
    exact ⟨rfl, by simp⟩

/-- What the content write of a taken call does to the files. -/
def contentWritten (invalid : InvalidResourceId → E) (faults : ContentFaults E) (store : Backed id)
    (record : R) (content : Bytes) : Files × Except E Unit :=
  if rewrites (store.records.get? (id record)) record then
    writeContent invalid faults.write store.files (id record) content
  else (store.files, .ok ())

variable (mismatch invalid) in
theorem applyContent_of_taken (taken : Taken blake3 faults store record content) :
    applyContent blake3 mismatch invalid faults store record content =
      match (contentWritten invalid faults store record content).2, faults.upsert with
      | .error error, _ =>
        ({ store with files := (contentWritten invalid faults store record content).1 }, .error error)
      | .ok (), some error =>
        ({ store with files := (contentWritten invalid faults store record content).1 }, .error error)
      | .ok (), none =>
        ({ records := store.records.insert record
           files := (contentWritten invalid faults store record content).1 }, .ok true) := by
  have filled : ¬ content.isEmpty = true := by simpa using taken.filled
  unfold applyContent
  rw [if_neg filled, if_neg (by rw [taken.hashed]; decide), taken.read]
  dsimp only
  rw [if_neg (by rw [taken.wins]; decide)]
  rfl

/-- The call failed in one of its writes. -/
structure FailedInWrites (blake3 : Bytes → Hash) (mismatch : E) (invalid : InvalidResourceId → E)
    (faults : ContentFaults E) (store : Backed id) (record : R) (content : Bytes) : Prop where
  taken : Taken blake3 faults store record content
  failed : (applyContent blake3 mismatch invalid faults store record content).2 ≠ .ok true
  -- An id that is no file name is refused, every time.
  named : rewrites (store.records.get? (id record)) record = true → validate (id record) = .ok ()

/-- A call that succeeds leaves verified content. A call that fails in its writes succeeds the next time,
when nothing fails, and leaves verified content then. -/
structure SoundApply (blake3 : Bytes → Hash) (mismatch : E) (invalid : InvalidResourceId → E)
    (faults : ContentFaults E) (store : Backed id) (record : R) (content : Bytes) : Prop where
  verified : (applyContent blake3 mismatch invalid faults store record content).2 = .ok true →
    (applyContent blake3 mismatch invalid faults store record content).1.Verified blake3 (id record)
  retried : FailedInWrites blake3 mismatch invalid faults store record content →
    ∃ last, applyContent blake3 mismatch invalid .none
        (applyContent blake3 mismatch invalid faults store record content).1 record content =
          (last, .ok true) ∧ last.Verified blake3 (id record)

/-- A taken call that leaves the file alone finds verified content. -/
def SkipsVerified (blake3 : Bytes → Hash) (faults : ContentFaults E) (store : Backed id) (record : R)
    (content : Bytes) : Prop :=
  Taken blake3 faults store record content →
    rewrites (store.records.get? (id record)) record = false → store.Verified blake3 (id record)

/-- Content under its own hash is verified. -/
theorem verified_of_file {files : Files} (file : files[id record]? = some content)
    (hashed : verifyContentHash (hashContent blake3 content) (contentHash record) = true) :
    Backed.Verified blake3 ⟨store.records.insert record, files⟩ (id record) := by
  intro found held
  rw [KeyedMap.get?_insert_self] at held
  cases held
  exact ⟨content, file, hashed⟩

/-- A record that leaves the file alone is as verified as the one before it. -/
theorem verified_skip_iff (skips : rewrites (store.records.get? (id record)) record = false) :
    Backed.Verified blake3 ⟨store.records.insert record, store.files⟩ (id record) ↔
      store.Verified blake3 (id record) := by
  obtain ⟨stored, held, same⟩ : ∃ stored, store.records.get? (id record) = some stored ∧
      contentHash stored = contentHash record := by
    by_contra none
    rw [rewrites_iff.mpr fun stored held same => none ⟨stored, held, same⟩] at skips
    cases skips
  constructor
  · intro verified found held'
    rw [held] at held'
    cases held'
    obtain ⟨file, listed, hashed⟩ := verified record (KeyedMap.get?_insert_self _ _)
    exact ⟨file, listed, same ▸ hashed⟩
  · intro verified
    obtain ⟨file, listed, hashed⟩ := verified stored held
    exact verified_of_file listed (same ▸ hashed)

theorem contentWritten_skips (skips : rewrites (store.records.get? (id record)) record = false) :
    contentWritten invalid faults store record content = (store.files, .ok ()) := by
  rw [contentWritten, skips]
  rfl

theorem contentWritten_rewrites (writes : rewrites (store.records.get? (id record)) record = true)
    (done : (contentWritten invalid faults store record content).2 = .ok ()) :
    (contentWritten invalid faults store record content).1 = store.files.insert (id record) content := by
  rw [contentWritten, if_pos writes] at done ⊢
  unfold writeContent at done ⊢
  cases named : validate (id record) with
  | error error => rw [named] at done; cases done
  | ok =>
    rw [named] at done
    cases fault : faults.write with
    | some failure => rw [fault] at done; cases done
    | none => rfl

theorem records_of_failed
    (failed : (applyContent blake3 mismatch invalid faults store record content).2 ≠ .ok true) :
    (applyContent blake3 mismatch invalid faults store record content).1.records = store.records := by
  by_cases taken : Taken blake3 faults store record content
  · rw [applyContent_of_taken mismatch invalid taken] at failed ⊢
    split
    · rfl
    · rfl
    · rename_i done saved
      rw [done, saved] at failed
      exact absurd rfl failed
  · rw [(applyContent_of_not_taken taken).1]

/-- No write of a taken call fails. -/
def Unbroken (faults : ContentFaults E) (store : Backed id) (record : R) : Prop :=
  (rewrites (store.records.get? (id record)) record = true → faults.write = none) ∧ faults.upsert = none

variable (invalid content) in
theorem contentWritten_ok_iff (named : validate (id record) = .ok ()) :
    (contentWritten invalid faults store record content).2 = .ok () ↔
      (rewrites (store.records.get? (id record)) record = true → faults.write = none) := by
  unfold contentWritten writeContent
  rw [named]
  cases rewrites (store.records.get? (id record)) record with
  | true => cases faults.write <;> simp
  | false => simp

/-- A call under a file name succeeds exactly if it is taken and none of its writes fails. -/
theorem applyContent_ok_iff (named : validate (id record) = .ok ()) :
    (applyContent blake3 mismatch invalid faults store record content).2 = .ok true ↔
      Taken blake3 faults store record content ∧ Unbroken faults store record := by
  by_cases taken : Taken blake3 faults store record content
  · rw [applyContent_of_taken mismatch invalid taken, Unbroken,
      ← contentWritten_ok_iff invalid content named]
    cases (contentWritten invalid faults store record content).2 with
    | error error => simp [taken]
    | ok done => cases faults.upsert <;> simp [taken]
  · simp [taken, (applyContent_of_not_taken taken).2]

theorem records_of_applied
    (applied : (applyContent blake3 mismatch invalid faults store record content).2 = .ok true) :
    Taken blake3 faults store record content ∧
      (applyContent blake3 mismatch invalid faults store record content).1.records =
        store.records.insert record := by
  by_cases taken : Taken blake3 faults store record content
  · refine ⟨taken, ?_⟩
    rw [applyContent_of_taken mismatch invalid taken] at applied ⊢
    split at applied
    · cases applied
    · cases applied
    · rfl
  · exact absurd applied (applyContent_of_not_taken taken).2

theorem verified_of_applied (skipsVerified : SkipsVerified blake3 faults store record content)
    (applied : (applyContent blake3 mismatch invalid faults store record content).2 = .ok true) :
    (applyContent blake3 mismatch invalid faults store record content).1.Verified blake3 (id record) := by
  have taken := (records_of_applied applied).1
  rw [applyContent_of_taken mismatch invalid taken] at applied ⊢
  split at applied
  · cases applied
  · cases applied
  · rename_i done saved
    dsimp only
    cases writes : rewrites (store.records.get? (id record)) record with
    | true =>
      rw [contentWritten_rewrites writes done]
      exact verified_of_file (by simp) taken.hashed
    | false =>
      rw [contentWritten_skips writes]
      exact (verified_skip_iff writes).mpr (skipsVerified taken writes)

/-- The retry of a call that failed in its writes: the same checks over the same record. -/
theorem retried_of_failed (skipsVerified : SkipsVerified blake3 faults store record content)
    (failed : FailedInWrites blake3 mismatch invalid faults store record content) :
    ∃ last, applyContent blake3 mismatch invalid .none
        (applyContent blake3 mismatch invalid faults store record content).1 record content =
          (last, .ok true) ∧ last.Verified blake3 (id record) := by
  have kept := records_of_failed failed.failed
  have skipped : rewrites (store.records.get? (id record)) record = false →
      (applyContent blake3 mismatch invalid faults store record content).1.files = store.files := by
    intro skips
    rw [applyContent_of_taken mismatch invalid failed.taken, contentWritten_skips skips]
    dsimp only
    split <;> rfl
  generalize (applyContent blake3 mismatch invalid faults store record content).1 = after at kept skipped ⊢
  have again : Taken blake3 (.none : ContentFaults E) after record content :=
    ⟨failed.taken.filled, failed.taken.hashed, rfl, kept ▸ failed.taken.wins⟩
  have written : (contentWritten invalid .none after record content).2 = .ok () := by
    rw [contentWritten, kept]
    split
    · rename_i writes
      simp only [writeContent, failed.named writes]
      rfl
    · rfl
  have done : applyContent blake3 mismatch invalid .none after record content =
      (⟨after.records.insert record, (contentWritten invalid .none after record content).1⟩, .ok true) := by
    rw [applyContent_of_taken mismatch invalid again, written]
    rfl
  refine ⟨_, done, ?_⟩
  cases writes : rewrites (store.records.get? (id record)) record with
  | true =>
    rw [contentWritten_rewrites (kept ▸ writes) written]
    exact verified_of_file (by simp) failed.taken.hashed
  | false =>
    rw [contentWritten_skips (kept ▸ writes), skipped writes, kept]
    exact (verified_skip_iff writes).mpr (skipsVerified failed.taken writes)

theorem skipsVerified_of_sound (sound : SoundApply blake3 mismatch invalid faults store record content) :
    SkipsVerified blake3 faults store record content := by
  intro taken skips
  have result := applyContent_of_taken mismatch invalid taken
  rw [contentWritten_skips skips] at result
  cases saved : faults.upsert with
  | none =>
    rw [saved] at result
    have verified := sound.verified (by rw [result])
    rw [result] at verified
    exact (verified_skip_iff skips).mp verified
  | some error =>
    rw [saved] at result
    have failed : FailedInWrites blake3 mismatch invalid faults store record content :=
      ⟨taken, by rw [result]; simp, fun writes => by rw [skips] at writes; cases writes⟩
    obtain ⟨last, retried, verified⟩ := sound.retried failed
    rw [result] at retried
    have again : Taken blake3 (.none : ContentFaults E) store record content :=
      ⟨taken.filled, taken.hashed, rfl, taken.wins⟩
    rw [applyContent_of_taken mismatch invalid again, contentWritten_skips skips] at retried
    obtain ⟨rfl, -⟩ := Prod.mk.inj retried
    exact (verified_skip_iff skips).mp verified

/-- The pipeline is sound exactly where it leaves no unverified file alone. -/
theorem soundApply_iff : SoundApply blake3 mismatch invalid faults store record content ↔
    SkipsVerified blake3 faults store record content :=
  ⟨skipsVerified_of_sound, fun skips => ⟨verified_of_applied skips, retried_of_failed skips⟩⟩

/-- Where every record is verified, a call that does not fail in its writes keeps it so. -/
theorem verified_applyContent (verified : ∀ key, store.Verified blake3 key)
    (unfailing : ¬ FailedInWrites blake3 mismatch invalid faults store record content) (key : String) :
    (applyContent blake3 mismatch invalid faults store record content).1.Verified blake3 key := by
  by_cases applied : (applyContent blake3 mismatch invalid faults store record content).2 = .ok true
  · have own := verified_of_applied (fun _ _ => verified _) applied
    by_cases same : id record = key
    · exact same ▸ own
    · have taken := (records_of_applied applied).1
      rw [applyContent_of_taken mismatch invalid taken] at applied ⊢
      split at applied
      · cases applied
      · cases applied
      · rename_i done saved
        intro found held
        rw [KeyedMap.get?_insert, if_neg same] at held
        obtain ⟨file, listed, hashed⟩ := verified key found held
        refine ⟨file, ?_, hashed⟩
        cases writes : rewrites (store.records.get? (id record)) record with
        | true => rw [contentWritten_rewrites writes done, Std.ExtTreeMap.getElem?_insert, if_neg (by simpa), listed]
        | false => rw [contentWritten_skips writes, listed]
  · suffices kept : (applyContent blake3 mismatch invalid faults store record content).1 = store by
      rw [kept]
      exact verified key
    by_cases taken : Taken blake3 faults store record content
    · -- Only an id that is no file name stops a taken call before its writes.
      have refused : rewrites (store.records.get? (id record)) record = true ∧
          validate (id record) ≠ .ok () := by
        by_contra named
        exact unfailing ⟨taken, applied, fun writes => not_not.mp fun bad => named ⟨writes, bad⟩⟩
      obtain ⟨writes, bad⟩ := refused
      rw [applyContent_of_taken mismatch invalid taken, contentWritten, if_pos writes]
      unfold writeContent
      cases checked : validate (id record) with
      | ok => exact absurd checked bad
      | error error => rfl
    · exact (applyContent_of_not_taken taken).1

end Backed

/-! ### Runs -/

/-- A call of one of the three content-backed applies, with what fails in it. -/
inductive ContentCall where
  | skill (record : VersionedResource) (content : String) (faults : ContentFaults WorkspaceStorageError)
  | rule (record : VersionedResource) (content : String) (faults : ContentFaults WorkspaceStorageError)
  | extension (record : ExtensionRecord) (artifact : Bytes) (faults : ContentFaults ExtensionStorageError)

namespace ContentCall

variable (blake3 : Bytes → Hash)

def step (storage : Storage) : ContentCall → Storage
  | .skill record content faults =>
    { storage with
      workspace := (WorkspaceDomain.applyRemoteSkill blake3 faults storage.workspace record content).1 }
  | .rule record content faults =>
    { storage with
      workspace := (WorkspaceDomain.applyRemoteRule blake3 faults storage.workspace record content).1 }
  | .extension record artifact faults =>
    { storage with
      extensions := (ExtensionDomain.applyRemoteExtension blake3 faults storage.extensions record artifact).1 }

/-- The call, and its retry, answer for the content. -/
def Sound (storage : Storage) : ContentCall → Prop
  | .skill record content faults => SoundApply blake3 WorkspaceStorageError.hashMismatch
      .invalidResourceId faults storage.workspace.skills record (asBytes content)
  | .rule record content faults => SoundApply blake3 WorkspaceStorageError.hashMismatch
      .invalidResourceId faults storage.workspace.rules record (asBytes content)
  | .extension record artifact faults => SoundApply blake3 ExtensionStorageError.hashMismatch
      .invalidResourceId faults storage.extensions record artifact

/-- If the call leaves the file alone it finds verified content. -/
def FindsVerified (storage : Storage) : ContentCall → Prop
  | .skill record content faults =>
    SkipsVerified blake3 faults storage.workspace.skills record (asBytes content)
  | .rule record content faults =>
    SkipsVerified blake3 faults storage.workspace.rules record (asBytes content)
  | .extension record artifact faults => SkipsVerified blake3 faults storage.extensions record artifact

/-- No write of the call fails. -/
def Unfailing (storage : Storage) : ContentCall → Prop
  | .skill record content faults => ¬ FailedInWrites blake3 WorkspaceStorageError.hashMismatch
      .invalidResourceId faults storage.workspace.skills record (asBytes content)
  | .rule record content faults => ¬ FailedInWrites blake3 WorkspaceStorageError.hashMismatch
      .invalidResourceId faults storage.workspace.rules record (asBytes content)
  | .extension record artifact faults => ¬ FailedInWrites blake3 ExtensionStorageError.hashMismatch
      .invalidResourceId faults storage.extensions record artifact

end ContentCall

/-- All content in the storage hashes to its record. -/
structure Storage.Verified (blake3 : Bytes → Hash) (storage : Storage) : Prop where
  skills : ∀ key, storage.workspace.skills.Verified blake3 key
  rules : ∀ key, storage.workspace.rules.Verified blake3 key
  extensions : ∀ key, storage.extensions.Verified blake3 key

section Runs

variable {blake3 : Bytes → Hash} {storage : Storage} {call : ContentCall}

theorem sound_iff : call.Sound blake3 storage ↔ call.FindsVerified blake3 storage := by
  cases call with
  | skill record content faults => exact soundApply_iff
  | rule record content faults => exact soundApply_iff
  | extension record artifact faults => exact soundApply_iff

theorem Storage.Verified.step (verified : storage.Verified blake3)
    (unfailing : call.Unfailing blake3 storage) : (call.step blake3 storage).Verified blake3 := by
  cases call with
  | skill record content faults =>
    exact ⟨verified_applyContent verified.skills unfailing, verified.rules, verified.extensions⟩
  | rule record content faults =>
    exact ⟨verified.skills, verified_applyContent verified.rules unfailing, verified.extensions⟩
  | extension record artifact faults =>
    exact ⟨verified.skills, verified.rules, verified_applyContent verified.extensions unfailing⟩

theorem Storage.Verified.findsVerified (verified : storage.Verified blake3) :
    call.FindsVerified blake3 storage := by
  cases call with
  | skill record content faults => exact fun _ _ => verified.skills _
  | rule record content faults => exact fun _ _ => verified.rules _
  | extension record artifact faults => exact fun _ _ => verified.extensions _

/-- The calls of a run and their retries leave verified content exactly when no call leaves unverified
content alone, and so in every run over verified content in which no write fails. -/
theorem applies_sound_iff (blake3 : Bytes → Hash) (storage : Storage) (calls : List ContentCall) :
    (Steps (ContentCall.step blake3) (fun current call => call.Sound blake3 current) storage calls ↔
      Steps (ContentCall.step blake3) (fun current call => call.FindsVerified blake3 current) storage calls) ∧
    (storage.Verified blake3 →
      Steps (ContentCall.step blake3) (fun current call => call.Unfailing blake3 current) storage calls →
      Steps (ContentCall.step blake3) (fun current call => call.Sound blake3 current) storage calls) := by
  refine ⟨⟨?_, ?_⟩, fun verified => ?_⟩
  · exact Steps.mono (fun _ => True) trivial (fun _ _ _ _ => trivial) fun _ _ _ => sound_iff.mp
  · exact Steps.mono (fun _ => True) trivial (fun _ _ _ _ => trivial) fun _ _ _ => sound_iff.mpr
  · exact Steps.mono (Storage.Verified blake3) verified (fun _ _ kept unfailing => kept.step unfailing)
      fun _ _ kept _ => sound_iff.mpr kept.findsVerified

end Runs

/-! ### A skill that goes back to its first content -/

/-- blake3 on the contents `a` and `b`. -/
def sampleDigest (content : Bytes) : Hash :=
  if content = [97] then
    #v[23, 118, 47, 221, 217, 105, 164, 83, 146, 93, 101, 113, 122, 195, 238, 162,
       19, 32, 182, 107, 84, 52, 47, 222, 21, 18, 141, 108, 175, 33, 33, 95]
  else if content = [98] then
    #v[16, 229, 207, 61, 60, 138, 79, 159, 52, 104, 200, 204, 88, 238, 168, 72,
       146, 162, 47, 218, 219, 193, 172, 178, 36, 16, 25, 0, 68, 193, 213, 83]
  else Vector.replicate 32 0

def sampleSkill (version : UInt64) (content : String) : VersionedResource where
  id := "greet"
  name := "greet"
  version := version
  contentHash := hashContent sampleDigest (asBytes content)
  scope := .clusterShared
  sourceNodeId := some "node-a"
  createdAtMs := 1
  updatedAtMs := 1
  metadata := ∅

/-- The second version writes its content, and its record is not committed. -/
def sampleCalls : List ContentCall :=
  [.skill (sampleSkill 1 "a") "a" .none,
   .skill (sampleSkill 2 "b") "b" { get := none, write := none, upsert := some (.storage (.redb "full")) },
   .skill (sampleSkill 3 "a") "a" .none]

/-- With the failed version offered again instead, all three calls are sound. -/
theorem retried_version_sound :
    Steps (ContentCall.step sampleDigest) (fun current call => call.Sound sampleDigest current)
      .empty (sampleCalls.take 2 ++ [.skill (sampleSkill 2 "b") "b" .none]) := by
  refine (applies_sound_iff sampleDigest .empty _).1.mpr ⟨?_, ?_, ?_, trivial⟩
  · exact fun _ skips => absurd skips (by decide)
  · exact fun _ skips => absurd skips (by decide)
  · exact fun _ skips => absurd skips (by decide)

theorem third_version_drifts :
    ¬ Steps (ContentCall.step sampleDigest) (fun current call => call.Sound sampleDigest current)
      .empty sampleCalls := by
  rintro ⟨-, -, last, -⟩
  have verified := last.verified (by decide)
  obtain ⟨content, listed, hashed⟩ := verified (sampleSkill 3 "a") (by decide)
  have written : (applyContent sampleDigest WorkspaceStorageError.hashMismatch .invalidResourceId .none
      ((sampleCalls.take 2).foldl (ContentCall.step sampleDigest) .empty).workspace.skills
      (sampleSkill 3 "a") (asBytes "a")).1.files["greet"]? = some [98] := by decide
  rw [show (sampleSkill 3 "a").id = "greet" from rfl] at listed
  cases listed.symm.trans written
  exact absurd hashed (by decide)

end Lycoris.Stores
