import Lycoris.Link.Directory

/-!
What the calls on a peer directory leave of one entry: `peerOf` is the peer id it was made with, and
`Configured` is what a configured address should stay.
-/

namespace Lycoris.Link
open Lib Overlay

variable {P : Primitives}

inductive DirectoryCall (P : Primitives) where
  | record (nodeId : NodeId) (peerId : P.PeerId) (address : Multiaddr) (source : AddressSource)
      (now : Instant) (ttl : Duration)
  | remove (peerId : P.PeerId) (address : Multiaddr)
  | expire (now : Instant)
  | resume (nodeId : NodeId)
  | pause (nodeId : NodeId)
  | retain (keep : NodeId → Bool)
  | noteSuccess (nodeId : NodeId) (address : Multiaddr) (now : Instant)
  | noteFailure (nodeId : NodeId) (address : Option Multiaddr) (now : Instant) (minDelay maxDelay : Duration)
  | noteConnectionClosed (nodeId : NodeId) (now : Instant) (minDelay : Duration)

namespace PeerDirectory

def apply (directory : PeerDirectory P) : DirectoryCall P → PeerDirectory P
  | .record nodeId peerId address source now ttl => directory.record nodeId peerId address source now ttl
  | .remove peerId address => directory.remove peerId address
  | .expire now => directory.expire now
  | .resume nodeId => directory.resume nodeId
  | .pause nodeId => directory.pause nodeId
  | .retain keep => directory.retain keep
  | .noteSuccess nodeId address now => directory.noteSuccess nodeId address now
  | .noteFailure nodeId address now minDelay maxDelay =>
    directory.noteFailure nodeId address now minDelay maxDelay
  | .noteConnectionClosed nodeId now minDelay => directory.noteConnectionClosed nodeId now minDelay

def replay (directory : PeerDirectory P) (calls : List (DirectoryCall P)) : PeerDirectory P :=
  calls.foldl apply directory

def peerOf (directory : PeerDirectory P) (nodeId : NodeId) : Option P.PeerId :=
  directory.entries[nodeId]?.map PeerDirectoryEntry.peerId

variable (directory : PeerDirectory P) (nodeId other : NodeId)

/-! ### Peer ids -/

theorem peerOf_record (peerId : P.PeerId) (address : Multiaddr) (source : AddressSource) (now : Instant)
    (ttl : Duration) :
    (directory.record other peerId address source now ttl).peerOf nodeId =
      if other = nodeId then some ((directory.peerOf nodeId).getD peerId) else directory.peerOf nodeId := by
  simp only [peerOf, record, Std.ExtTreeMap.getElem?_alter, Std.LawfulEqOrd.compare_eq_iff_eq]
  split
  · rename_i same
    subst same
    cases directory.entries[other]? <;> rfl
  · rfl

theorem peerOf_modify {change : PeerDirectoryEntry P → PeerDirectoryEntry P}
    (keeps : ∀ entry, (change entry).peerId = entry.peerId) :
    (⟨directory.entries.modify other change⟩ : PeerDirectory P).peerOf nodeId = directory.peerOf nodeId := by
  simp only [peerOf, Std.ExtTreeMap.getElem?_modify, Std.LawfulEqOrd.compare_eq_iff_eq]
  split
  · rename_i same
    subst same
    cases directory.entries[other]? with
    | none => rfl
    | some entry => exact congrArg some (keeps entry)
  · rfl

theorem peerOf_map {change : PeerDirectoryEntry P → PeerDirectoryEntry P}
    (keeps : ∀ entry, (change entry).peerId = entry.peerId) :
    (⟨directory.entries.map fun _ entry => change entry⟩ : PeerDirectory P).peerOf nodeId =
      directory.peerOf nodeId := by
  simp only [peerOf, Std.ExtTreeMap.getElem?_map]
  cases directory.entries[nodeId]? with
  | none => rfl
  | some entry => exact congrArg some (keeps entry)

theorem peerOf_retain (keep : NodeId → Bool) :
    (directory.retain keep).peerOf nodeId = if keep nodeId then directory.peerOf nodeId else none := by
  simp only [peerOf, retain, Std.ExtTreeMap.getElem?_filter']
  cases directory.entries[nodeId]? with
  | none => simp
  | some entry => cases keep nodeId <;> simp [Option.filter]

/-- Only a new record brings a peer id and only `retain` takes one away. -/
theorem peerOf_apply (call : DirectoryCall P) :
    (directory.apply call).peerOf nodeId = match call with
      | .record other peerId _ _ _ _ =>
        if other = nodeId then some ((directory.peerOf nodeId).getD peerId) else directory.peerOf nodeId
      | .retain keep => if keep nodeId then directory.peerOf nodeId else none
      | _ => directory.peerOf nodeId := by
  cases call with
  | record other peerId address source now ttl =>
    exact directory.peerOf_record nodeId other peerId address source now ttl
  | remove peerId address =>
    refine directory.peerOf_map nodeId fun entry => ?_
    split
    · rfl
    · rfl
  | expire now => exact directory.peerOf_map nodeId fun _ => rfl
  | resume other => exact directory.peerOf_modify nodeId other fun _ => rfl
  | pause other => exact directory.peerOf_modify nodeId other fun _ => rfl
  | retain keep => exact directory.peerOf_retain nodeId keep
  | noteSuccess other address now => exact directory.peerOf_modify nodeId other fun _ => rfl
  | noteFailure other address now minDelay maxDelay =>
    exact directory.peerOf_modify nodeId other fun _ => rfl
  | noteConnectionClosed other now minDelay =>
    refine directory.peerOf_modify nodeId other fun entry => ?_
    unfold PeerDirectoryEntry.noteConnectionClosed
    split
    · rfl
    · rfl

end PeerDirectory

/-! ### Configured addresses -/

namespace PeerDirectoryEntry

def Configured (entry : PeerDirectoryEntry P) (address : Multiaddr) : Prop :=
  ∃ record : PeerAddress, entry.addresses[address]? = some record ∧ record.source = .configured ∧
    record.expiresAt = none

variable {entry : PeerDirectoryEntry P} {address : Multiaddr}

theorem configured_recordAddress (entry : PeerDirectoryEntry P) (address : Multiaddr) (now : Instant)
    (ttl : Duration) : (entry.recordAddress address .configured now ttl).Configured address := by
  cases found : entry.addresses[address]? with
  | none => exact ⟨.new .configured now ttl, by simp [recordAddress, found], rfl, rfl⟩
  | some record =>
    have first : record.source.min .configured = .configured := by cases record.source <;> rfl
    refine ⟨record.refresh .configured now ttl, by simp [recordAddress, found], first, ?_⟩
    rw [PeerAddress.refresh, first]
    rfl

/-- Refreshing an address from either source leaves it configured. -/
theorem Configured.recordAddress (kept : entry.Configured address) (other : Multiaddr)
    (source : AddressSource) (now : Instant) (ttl : Duration) :
    (entry.recordAddress other source now ttl).Configured address := by
  obtain ⟨record, found, configured, forever⟩ := kept
  by_cases same : other = address
  · subst same
    have first : record.source.min source = .configured := by
      rw [configured]
      cases source <;> rfl
    refine ⟨record.refresh source now ttl, by simp [PeerDirectoryEntry.recordAddress, found], first, ?_⟩
    rw [PeerAddress.refresh, first]
    rfl
  · refine ⟨record, ?_, configured, forever⟩
    simpa [PeerDirectoryEntry.recordAddress, Std.ExtTreeMap.getElem?_alter, same] using found

theorem Configured.modify (kept : entry.Configured address) (other : Multiaddr)
    {change : PeerAddress → PeerAddress} (source : ∀ record, (change record).source = record.source)
    (expires : ∀ record, (change record).expiresAt = record.expiresAt) :
    ({ entry with addresses := entry.addresses.modify other change } : PeerDirectoryEntry P).Configured
      address := by
  obtain ⟨record, found, configured, forever⟩ := kept
  by_cases same : other = address
  · subst same
    exact ⟨change record, by simp [found], (source record).trans configured, (expires record).trans forever⟩
  · refine ⟨record, ?_, configured, forever⟩
    simpa [Std.ExtTreeMap.getElem?_modify, same] using found

theorem Configured.erase (kept : entry.Configured address) {other : Multiaddr} (different : other ≠ address) :
    ({ entry with addresses := entry.addresses.erase other } : PeerDirectoryEntry P).Configured address := by
  obtain ⟨record, found, configured, forever⟩ := kept
  refine ⟨record, ?_, configured, forever⟩
  simpa [Std.ExtTreeMap.getElem?_erase, different] using found

theorem Configured.expire (kept : entry.Configured address) (now : Instant) :
    ({ entry with
      addresses := entry.addresses.filter fun _ record =>
        record.expiresAt.all fun deadline => deadline > now } : PeerDirectoryEntry P).Configured address := by
  obtain ⟨record, found, configured, forever⟩ := kept
  refine ⟨record, ?_, configured, forever⟩
  simp [found, forever]

end PeerDirectoryEntry

namespace PeerDirectory

/-- The address is there, as a configured one that does not expire. -/
def Configured (directory : PeerDirectory P) (nodeId : NodeId) (address : Multiaddr) : Prop :=
  ∃ entry : PeerDirectoryEntry P, directory.entries[nodeId]? = some entry ∧ entry.Configured address

variable {directory : PeerDirectory P} {nodeId : NodeId} {address : Multiaddr}

theorem configured_record (directory : PeerDirectory P) (nodeId : NodeId) (peerId : P.PeerId)
    (address : Multiaddr) (now : Instant) (ttl : Duration) :
    (directory.record nodeId peerId address .configured now ttl).Configured nodeId address :=
  ⟨_, Std.ExtTreeMap.getElem?_alter_self, PeerDirectoryEntry.configured_recordAddress _ address now ttl⟩

theorem Configured.modify (kept : directory.Configured nodeId address) (other : NodeId)
    {change : PeerDirectoryEntry P → PeerDirectoryEntry P}
    (keeps : ∀ entry, entry.Configured address → (change entry).Configured address) :
    (⟨directory.entries.modify other change⟩ : PeerDirectory P).Configured nodeId address := by
  obtain ⟨entry, found, configured⟩ := kept
  by_cases same : other = nodeId
  · subst same
    exact ⟨change entry, by simp [found], keeps entry configured⟩
  · exact ⟨entry, by simpa [Std.ExtTreeMap.getElem?_modify, same] using found, configured⟩

theorem Configured.map (kept : directory.Configured nodeId address)
    {change : PeerDirectoryEntry P → PeerDirectoryEntry P}
    (keeps : ∀ entry, directory.entries[nodeId]? = some entry → entry.Configured address →
      (change entry).Configured address) :
    (⟨directory.entries.map fun _ entry => change entry⟩ : PeerDirectory P).Configured nodeId address := by
  obtain ⟨entry, found, configured⟩ := kept
  exact ⟨change entry, by simp [Std.ExtTreeMap.getElem?_map, found], keeps entry found configured⟩

/-- A configured address stays through every call but the removal of the address itself, as long as the
node is retained. -/
theorem Configured.apply (kept : directory.Configured nodeId address) {call : DirectoryCall P}
    (retained : ∀ keep, call = .retain keep → keep nodeId = true)
    (unremoved : ∀ peerId, directory.peerOf nodeId = some peerId → call ≠ .remove peerId address) :
    (directory.apply call).Configured nodeId address := by
  cases call with
  | record other peerId address' source now ttl =>
    obtain ⟨entry, found, configured⟩ := kept
    by_cases same : other = nodeId
    · subst same
      refine ⟨entry.recordAddress address' source now ttl, ?_, configured.recordAddress address' source now ttl⟩
      simp [PeerDirectory.apply, record, found]
    · refine ⟨entry, ?_, configured⟩
      simpa [PeerDirectory.apply, record, Std.ExtTreeMap.getElem?_alter, same] using found
  | remove peerId address' =>
    refine kept.map fun entry found configured => ?_
    split
    · rename_i own
      refine configured.erase fun same => ?_
      exact unremoved peerId (by simp [peerOf, found, own]) (by rw [same])
    · exact configured
  | expire now => exact kept.map fun _ _ configured => configured.expire now
  | resume other => exact kept.modify other fun _ configured => configured
  | pause other => exact kept.modify other fun _ configured => configured
  | retain keep =>
    obtain ⟨entry, found, configured⟩ := kept
    refine ⟨entry, ?_, configured⟩
    simp [PeerDirectory.apply, retain, found, retained keep rfl]
  | noteSuccess other address' now =>
    refine kept.modify other fun entry configured => ?_
    exact PeerDirectoryEntry.Configured.modify configured address' (fun _ => rfl) (fun _ => rfl)
  | noteFailure other address' now minDelay maxDelay =>
    refine kept.modify other fun entry configured => ?_
    cases address' with
    | none => exact configured
    | some address' =>
      exact PeerDirectoryEntry.Configured.modify configured address' (fun _ => rfl) (fun _ => rfl)
  | noteConnectionClosed other now minDelay =>
    refine kept.modify other fun entry configured => ?_
    unfold PeerDirectoryEntry.noteConnectionClosed
    split
    · exact configured
    · exact configured

theorem not_configured_remove {peerId : P.PeerId} (own : directory.peerOf nodeId = some peerId) :
    ¬ (directory.remove peerId address).Configured nodeId address := by
  rintro ⟨entry, found, record, there, _⟩
  obtain ⟨before, was, rfl⟩ := Option.map_eq_some_iff.mp own
  simp only [remove, Std.ExtTreeMap.getElem?_map, was, Option.map_some, if_true, Option.some.injEq] at found
  subst found
  simp at there

/-- The peer id of an entry never changes. -/
theorem peerOf_apply_of_some {peerId : P.PeerId} (own : directory.peerOf nodeId = some peerId)
    {call : DirectoryCall P} (retained : ∀ keep, call = .retain keep → keep nodeId = true) :
    (directory.apply call).peerOf nodeId = some peerId := by
  rw [peerOf_apply]
  cases call with
  | record other peerId' => simp [own]
  | retain keep => simp [own, retained keep rfl]
  | _ => exact own

theorem Configured.replay_iff (kept : directory.Configured nodeId address) {peerId : P.PeerId}
    (own : directory.peerOf nodeId = some peerId) {calls : List (DirectoryCall P)}
    (authorized : ∀ keep, .retain keep ∈ calls → keep nodeId = true) :
    (∀ past future, calls = past ++ future → (directory.replay past).Configured nodeId address) ↔
      .remove peerId address ∉ calls := by
  induction calls generalizing directory with
  | nil =>
    refine iff_of_true ?_ List.not_mem_nil
    intro past future split
    obtain ⟨rfl, _⟩ := List.append_eq_nil_iff.mp split.symm
    exact kept
  | cons call rest ih =>
    have retained : ∀ keep, call = .retain keep → keep nodeId = true := fun keep same =>
      authorized keep (same ▸ List.mem_cons_self)
    have later : ∀ keep, .retain keep ∈ rest → keep nodeId = true := fun keep member =>
      authorized keep (List.mem_cons_of_mem _ member)
    have own' := peerOf_apply_of_some own retained
    constructor
    · intro stays member
      have next : (directory.apply call).Configured nodeId address := stays [call] rest rfl
      rcases List.mem_cons.mp member with rfl | inRest
      · exact not_configured_remove own next
      · refine (ih next own' later).mp (fun past future split => ?_) inRest
        exact stays (call :: past) future (by rw [split, List.cons_append])
    · intro absent past future split
      rw [List.mem_cons, not_or] at absent
      cases past with
      | nil => exact kept
      | cons first past =>
        obtain ⟨rfl, rfl⟩ := List.cons.inj split
        have next : (directory.apply call).Configured nodeId address := by
          refine kept.apply retained fun other found same => absent.1 ?_
          rw [same, Option.some.inj (own.symm.trans found)]
        exact (ih next own' later).mpr absent.2 past future rfl

/-- After it was recorded as configured, an address stays so in every state exactly when mDNS does not
report it expired under the peer id of its entry. -/
theorem configured_outlives_iff (directory : PeerDirectory P) (nodeId : NodeId) (peerId : P.PeerId)
    (address : Multiaddr) (now : Instant) (ttl : Duration) (calls : List (DirectoryCall P))
    (authorized : ∀ keep, .retain keep ∈ calls → keep nodeId = true) :
    (∀ past future, calls = past ++ future →
      ((directory.record nodeId peerId address .configured now ttl).replay past).Configured nodeId address) ↔
      .remove ((directory.peerOf nodeId).getD peerId) address ∉ calls := by
  refine (directory.configured_record nodeId peerId address now ttl).replay_iff ?_ authorized
  rw [peerOf_record, if_pos rfl]

section Sample
open Transparent

/-- The address of the member that both the configuration and mDNS know. -/
def memberAddress : Multiaddr := [.other [192, 0, 2, 1], .tcp 4001]

def configuredMember : PeerDirectory primitives :=
  empty.record member.nodeId member.peerId memberAddress .configured 0 1

/-- mDNS finds the same address. -/
def rediscovery : DirectoryCall primitives :=
  .record member.nodeId member.peerId memberAddress .mdns 5 1

theorem member_address_outlives :
    (configuredMember.replay [rediscovery, .expire 9]).Configured member.nodeId memberAddress :=
  (configured_outlives_iff empty member.nodeId member.peerId memberAddress 0 1 [rediscovery, .expire 9]
    (by simp [rediscovery])).mpr (by simp [rediscovery]) _ [] (List.append_nil _).symm

/-- mDNS finds a configured address and then reports it expired. -/
theorem mdns_removes_configured :
    (configuredMember.replay [rediscovery]).Configured member.nodeId memberAddress ∧
    ¬ (configuredMember.replay [rediscovery, .remove member.peerId memberAddress]).Configured member.nodeId
      memberAddress := by
  have refreshed : (configuredMember.apply rediscovery).Configured member.nodeId memberAddress :=
    (configured_record _ member.nodeId member.peerId memberAddress 0 1).apply
      (by simp [rediscovery]) (by simp [rediscovery])
  have own : configuredMember.peerOf member.nodeId = some member.peerId := by
    rw [configuredMember, peerOf_record, if_pos rfl]
    rfl
  have still : (configuredMember.apply rediscovery).peerOf member.nodeId = some member.peerId :=
    peerOf_apply_of_some own (by simp [rediscovery])
  exact ⟨refreshed, not_configured_remove still⟩

end Sample

end PeerDirectory

end Lycoris.Link
