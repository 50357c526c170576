import Lycoris.Link.Replay

/-!
The two replay windows: the gossip caches (`daemon/src/sync/gossip.rs`) and the requests a router has
seen (`overlay/src/routing.rs`). Each keeps a set beside a queue and evicts the oldest key; both are
the window over the last keys they accepted, whatever is fed to them.
-/

namespace Lycoris.Daemon
open Lib

/-- A deduplication set with first-in, first-out eviction. -/
structure DedupSet (T : Type) where
  inner : Finset T
  order : List T
  capacity : Nat

namespace DedupSet

variable {T : Type}

def new (capacity : Nat) : DedupSet T := ⟨∅, [], capacity⟩

variable [DecidableEq T]

def insert (set : DedupSet T) (key : T) : DedupSet T × Bool :=
  if key ∈ set.inner then (set, false)
  else
    let grown := { set with inner := Insert.insert key set.inner, order := set.order ++ [key] }
    if grown.order.length > grown.capacity then
      match grown.order with
      | oldest :: order => ({ grown with inner := grown.inner.erase oldest, order := order }, true)
      | [] => (grown, true)
    else (grown, true)

/-- The queue holds the keys of the set, each once, within the capacity. -/
structure Sound (width : Nat) (set : DedupSet T) : Prop where
  capacity : set.capacity = width
  nodup : set.order.Nodup
  same : ∀ key, key ∈ set.inner ↔ key ∈ set.order
  short : set.order.length ≤ width

omit [DecidableEq T] in
theorem sound_new (capacity : Nat) : Sound capacity (new capacity : DedupSet T) :=
  ⟨rfl, List.nodup_nil, by simp [new], Nat.zero_le _⟩

theorem insert_fresh {capacity : Nat} {set : DedupSet T} (sound : Sound capacity set) {key : T}
    (fresh : key ∉ set.inner) :
    (set.insert key).2 = true ∧ Sound capacity (set.insert key).1 ∧
      (set.insert key).1.order = window capacity (set.order ++ [key]) := by
  have absent : key ∉ set.order := fun member => fresh ((sound.same key).mpr member)
  have nodup : (set.order ++ [key]).Nodup :=
    List.nodup_append.mpr ⟨sound.nodup, List.nodup_singleton _, fun other member last single =>
      fun equal => absent (List.mem_singleton.mp single ▸ equal ▸ member)⟩
  have same : ∀ k, k ∈ Insert.insert key set.inner ↔ k ∈ set.order ++ [key] := by
    intro k
    rw [Finset.mem_insert, sound.same, List.mem_append, List.mem_singleton, or_comm]
  have length : (set.order ++ [key]).length = set.order.length + 1 := by simp
  have short := sound.short
  rw [insert, if_neg fresh, sound.capacity]
  dsimp only
  split
  · rename_i long
    -- Only one key leaves: the queue was within its capacity before.
    cases queue : set.order ++ [key] with
    | nil => simp at queue
    | cons oldest order =>
      rw [queue] at nodup same length long
      obtain ⟨gone, nodup'⟩ := List.nodup_cons.mp nodup
      rw [List.length_cons] at length long
      have kept : window capacity (oldest :: order) = order := by
        have one : (oldest :: order).length - capacity = 1 := by
          rw [List.length_cons]
          omega
        rw [window, one]
        rfl
      refine ⟨rfl, ⟨rfl, nodup', ?_, ?_⟩, kept.symm⟩
      · intro k
        show k ∈ (Insert.insert key set.inner).erase oldest ↔ k ∈ order
        rw [Finset.mem_erase, same, List.mem_cons]
        constructor
        · rintro ⟨other, member⟩
          exact member.resolve_left other
        · intro member
          exact ⟨fun equal => gone (equal ▸ member), Or.inr member⟩
      · show order.length ≤ capacity
        omega
  · rename_i fits
    exact ⟨rfl, ⟨rfl, nodup, same, not_lt.mp fits⟩, (window_of_length_le (not_lt.mp fits)).symm⟩

theorem queues (capacity : Nat) :
    Queues (insert (T := T)) capacity order (fun set key => key ∈ set.inner) (Sound capacity) where
  same sound := sound.same
  refuses _ held := by rw [insert, if_pos held]
  enters sound fresh := insert_fresh sound fresh

end DedupSet

end Lycoris.Daemon

namespace Lycoris.Overlay.Router
open Lib

theorem queues (capacity : Nat) :
    Queues markSeen capacity seen (fun router id => id ∈ router.seenSet)
      (fun router => Windowed router ∧ router.seenCapacity = capacity) where
  same sound := sound.1.same
  refuses _ held := by rw [markSeen, if_pos held]
  enters := by
    rintro router requestId ⟨windowed, rfl⟩ fresh
    obtain ⟨marked, answer, windowed', capacity, seen⟩ := markSeen_window windowed fresh
    rw [answer]
    exact ⟨rfl, ⟨windowed', capacity⟩, seen⟩

/-- A router that has seen nothing yet. -/
def fresh (router : Router) (capacity : Nat) : Router :=
  { router with seen := [], seenSet := ∅, seenCapacity := capacity }

theorem windowed_fresh (router : Router) (capacity : Nat) : Windowed (router.fresh capacity) :=
  ⟨List.nodup_nil, fun _ => iff_of_false Std.ExtTreeSet.not_mem_empty List.not_mem_nil, Nat.zero_le _⟩

end Lycoris.Overlay.Router

namespace Lycoris.Daemon
open Lib Overlay

/-- What a replay window is after a sequence of keys: the next call returns false exactly for the last
`capacity` keys that were accepted and then changes nothing, and the set and the queue are those
keys, each once and at most `capacity` of them. -/
structure ExactWindow {S T : Type} (feed : S → T → S × Bool) (capacity : Nat) (queue : S → List T)
    (Holds : S → T → Prop) (start : S) (keys : List T) : Prop where
  answers : ∀ key, (feed (fed feed start keys) key).2 = false ↔
    key ∈ window capacity (accepted feed start keys)
  duplicates : ∀ key, (feed (fed feed start keys) key).2 = false →
    (feed (fed feed start keys) key).1 = fed feed start keys
  contents : queue (fed feed start keys) = window capacity (accepted feed start keys)
  set : ∀ key, Holds (fed feed start keys) key ↔ key ∈ queue (fed feed start keys)
  nodup : (queue (fed feed start keys)).Nodup
  short : (queue (fed feed start keys)).length ≤ capacity

theorem exactWindow_of_queues {S T : Type} {feed : S → T → S × Bool} {capacity : Nat}
    {queue : S → List T} {Holds : S → T → Prop} {Sound : S → Prop}
    (queues : Queues feed capacity queue Holds Sound) (nodup : ∀ s, Sound s → (queue s).Nodup)
    {start : S} (sound : Sound start) (empty : queue start = []) (keys : List T) :
    ExactWindow feed capacity queue Holds start keys := by
  have begun : queue start = window capacity [] := by rw [empty, window_of_length_le (Nat.zero_le _)]
  obtain ⟨sound', moved⟩ := queues.fed_window sound begun keys
  rw [List.nil_append] at moved
  refine ⟨?_, ?_, moved, queues.same sound', nodup _ sound', ?_⟩
  · intro key
    rw [← moved]
    exact (queues.refused_iff sound' key).1
  · intro key
    exact (queues.refused_iff sound' key).2
  · rw [moved]
    exact length_window_le capacity _

/-- Both replay windows are exact, for every capacity and every sequence of keys. -/
theorem replay_windows_exact (capacity : Nat) :
    (∀ (T : Type) [DecidableEq T] (keys : List T),
      ExactWindow DedupSet.insert capacity DedupSet.order (fun set key => key ∈ set.inner)
        (DedupSet.new capacity) keys) ∧
      ∀ (router : Router) (keys : List RequestId),
        ExactWindow Router.markSeen capacity Router.seen (fun router id => id ∈ router.seenSet)
          (router.fresh capacity) keys := by
  constructor
  · intro T _ keys
    exact exactWindow_of_queues (DedupSet.queues capacity) (fun _ sound => sound.nodup)
      (DedupSet.sound_new capacity) rfl keys
  · intro router keys
    exact exactWindow_of_queues (Router.queues capacity) (fun _ sound => sound.1.nodup)
      ⟨router.windowed_fresh capacity, rfl⟩ rfl keys

end Lycoris.Daemon
