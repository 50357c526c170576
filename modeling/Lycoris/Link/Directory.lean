import Lycoris.Link.Connections

/-!
The peer directory (`overlay/src/link/directory.rs`): for each node the peer id and the addresses to reach
it by, where each address is known from the configuration or from mDNS. Instants and durations count
nanoseconds.
-/

namespace Lycoris.Link
open Lib Overlay

abbrev Instant := Nat
abbrev Duration := Nat

inductive AddressSource where
  | configured
  | mdns
  deriving DecidableEq

namespace AddressSource

def toNat : AddressSource → Nat
  | configured => 0
  | mdns => 1

/-- The derived order has `configured` first. -/
def min (first second : AddressSource) : AddressSource :=
  if first.toNat ≤ second.toNat then first else second

end AddressSource

def expiresAt (source : AddressSource) (now : Instant) (ttl : Duration) : Option Instant :=
  match source with
  | .configured => none
  | .mdns => some (now + ttl)

structure PeerAddress where
  source : AddressSource
  expiresAt : Option Instant
  lastSuccess : Option Instant
  lastFailure : Option Instant
  deriving DecidableEq

namespace PeerAddress

def new (source : AddressSource) (now : Instant) (ttl : Duration) : PeerAddress :=
  ⟨source, Link.expiresAt source now ttl, none, none⟩

def refresh (record : PeerAddress) (source : AddressSource) (now : Instant) (ttl : Duration) :
    PeerAddress :=
  let source := record.source.min source
  { record with source := source, expiresAt := Link.expiresAt source now ttl }

end PeerAddress

/-! ### Addresses as keys -/

def Protocol.key : Protocol → List Nat
  | quicV1 => [0]
  | tcp port => [1, port.toNat]
  | p2pCircuit => [2]
  | other bytes => 3 :: bytes.map UInt8.toNat

theorem Protocol.key_injective : Function.Injective Protocol.key := by
  intro first second same
  cases first with
  | quicV1 => cases second <;> simp_all [key]
  | tcp port =>
    cases second with
    | tcp port' => simpa [key, UInt16.toNat_inj] using same
    | _ => simp [key] at same
  | p2pCircuit => cases second <;> simp_all [key]
  | other bytes =>
    cases second with
    | other bytes' =>
      have equal : bytes.map UInt8.toNat = bytes'.map UInt8.toNat := (List.cons.inj same).2
      rw [List.map_inj_right fun _ _ => UInt8.toNat_inj.mp] at equal
      rw [equal]
    | _ => simp [key] at same

instance : Ord Protocol := ⟨compareOn Protocol.key⟩

instance : Std.TransOrd Protocol := inferInstanceAs (Std.TransCmp (compareOn Protocol.key))

instance : Std.LawfulEqOrd Protocol where
  compare_self := Std.ReflOrd.compare_self (α := List Nat)
  eq_of_compare same := Protocol.key_injective (Std.LawfulEqOrd.eq_of_compare same)

/-- QUIC first, then TCP, then the source, then the binary form. -/
def addressRank (address : Multiaddr) (source : AddressSource) : Nat ×ₗ Nat ×ₗ List Nat :=
  let quic := address.any fun protocol => protocol matches .quicV1
  let tcp := address.any fun protocol => protocol matches .tcp _
  let transport := if quic then 0 else if tcp then 1 else 2
  toLex (transport, toLex (source.toNat, byteOrder address.toVec))

/-! ### Entries -/

structure PeerDirectoryEntry (P : Primitives) where
  peerId : P.PeerId
  addresses : Std.ExtTreeMap Multiaddr PeerAddress compare
  attempts : Nat
  nextAttemptAt : Option Instant
  paused : Bool

variable {P : Primitives}

namespace PeerDirectoryEntry

def new (peerId : P.PeerId) : PeerDirectoryEntry P := ⟨peerId, ∅, 0, none, false⟩

def candidate (entry : PeerDirectoryEntry P) (now : Instant) : Option Multiaddr :=
  if entry.paused || entry.nextAttemptAt.any fun deadline => deadline > now then none
  else (entry.addresses.toList.argmin fun known => addressRank known.1 known.2.source).map Prod.fst

def noteSuccess (entry : PeerDirectoryEntry P) (address : Multiaddr) (now : Instant) :
    PeerDirectoryEntry P :=
  { entry with
    attempts := 0
    nextAttemptAt := none
    addresses := entry.addresses.modify address fun record => { record with lastSuccess := some now } }

/-- The delay doubles with each attempt. The counter is an `u32` that saturates. -/
def noteFailure (entry : PeerDirectoryEntry P) (address : Option Multiaddr) (now : Instant)
    (minDelay maxDelay : Duration) : PeerDirectoryEntry P :=
  let delay := min (minDelay * 2 ^ min entry.attempts 20) maxDelay
  { entry with
    attempts := min (entry.attempts + 1) (2 ^ 32 - 1)
    nextAttemptAt := some (now + delay)
    addresses := match address with
      | none => entry.addresses
      | some address =>
        entry.addresses.modify address fun record => { record with lastFailure := some now } }

def noteConnectionClosed (entry : PeerDirectoryEntry P) (now : Instant) (minDelay : Duration) :
    PeerDirectoryEntry P :=
  if !entry.paused && entry.nextAttemptAt.isNone then
    { entry with nextAttemptAt := some (now + minDelay) }
  else entry

/-- An address is entered, or refreshed where it is known. -/
def recordAddress (entry : PeerDirectoryEntry P) (address : Multiaddr) (source : AddressSource)
    (now : Instant) (ttl : Duration) : PeerDirectoryEntry P :=
  { entry with
    addresses := entry.addresses.alter address fun
      | some record => some (record.refresh source now ttl)
      | none => some (.new source now ttl) }

end PeerDirectoryEntry

structure PeerDirectory (P : Primitives) where
  entries : Std.ExtTreeMap NodeId (PeerDirectoryEntry P) compare

namespace PeerDirectory

def empty : PeerDirectory P := ⟨∅⟩

/-- An entry that is there keeps its peer id: the source only asserts that it is the same, in builds with
debug assertions. -/
def record (directory : PeerDirectory P) (nodeId : NodeId) (peerId : P.PeerId) (address : Multiaddr)
    (source : AddressSource) (now : Instant) (ttl : Duration) : PeerDirectory P :=
  ⟨directory.entries.alter nodeId fun entry =>
    some ((entry.getD (.new peerId)).recordAddress address source now ttl)⟩

def remove (directory : PeerDirectory P) (peerId : P.PeerId) (address : Multiaddr) : PeerDirectory P :=
  ⟨directory.entries.map fun _ entry =>
    if entry.peerId = peerId then { entry with addresses := entry.addresses.erase address } else entry⟩

def expire (directory : PeerDirectory P) (now : Instant) : PeerDirectory P :=
  ⟨directory.entries.map fun _ entry => { entry with
    addresses := entry.addresses.filter fun _ record => record.expiresAt.all fun deadline => deadline > now }⟩

def resume (directory : PeerDirectory P) (nodeId : NodeId) : PeerDirectory P :=
  ⟨directory.entries.modify nodeId fun entry => { entry with paused := false, nextAttemptAt := none }⟩

def pause (directory : PeerDirectory P) (nodeId : NodeId) : PeerDirectory P :=
  ⟨directory.entries.modify nodeId fun entry => { entry with paused := true }⟩

def retain (directory : PeerDirectory P) (keep : NodeId → Bool) : PeerDirectory P :=
  ⟨directory.entries.filter fun nodeId _ => keep nodeId⟩

def candidates (directory : PeerDirectory P) (now : Instant) : List (NodeId × P.PeerId × Multiaddr) :=
  directory.entries.toList.filterMap fun entry =>
    (entry.2.candidate now).map fun address => (entry.1, entry.2.peerId, address)

def noteSuccess (directory : PeerDirectory P) (nodeId : NodeId) (address : Multiaddr) (now : Instant) :
    PeerDirectory P :=
  ⟨directory.entries.modify nodeId fun entry => entry.noteSuccess address now⟩

def noteFailure (directory : PeerDirectory P) (nodeId : NodeId) (address : Option Multiaddr) (now : Instant)
    (minDelay maxDelay : Duration) : PeerDirectory P :=
  ⟨directory.entries.modify nodeId fun entry => entry.noteFailure address now minDelay maxDelay⟩

def noteConnectionClosed (directory : PeerDirectory P) (nodeId : NodeId) (now : Instant)
    (minDelay : Duration) : PeerDirectory P :=
  ⟨directory.entries.modify nodeId fun entry => entry.noteConnectionClosed now minDelay⟩

end PeerDirectory

end Lycoris.Link
