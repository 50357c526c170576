import Mathlib

/-!
Breadth-first search over a directed graph given by its successor lists. `Frontier` is what the search
knows at any moment, with the queue's head half explored; `visit` and `pop` are its two moves.
-/

namespace Lycoris.Lib

variable {V : Type} (next : V → List V)

/-- A walk with that many edges. -/
inductive Walk : Nat → V → V → Prop where
  | nil (v : V) : Walk 0 v v
  | cons {u w v : V} {n : Nat} (edge : w ∈ next u) (rest : Walk n w v) : Walk (n + 1) u v

def Reaches (u v : V) : Prop := ∃ n, Walk next n u v

/-- The least number of edges from `u` to `v`, for a `v` that `u` reaches. -/
noncomputable def dist (u v : V) : Nat := sInf {n | Walk next n u v}

variable {next}

namespace Walk

theorem trans {m n : Nat} {u v w : V} (first : Walk next m u v) (second : Walk next n v w) :
    Walk next (m + n) u w := by
  induction first with
  | nil _ =>
    rw [Nat.zero_add]
    exact second
  | @cons _ _ _ m edge _ ih =>
    rw [Nat.add_right_comm]
    exact .cons edge (ih second)

theorem edge {u v : V} (edge : v ∈ next u) : Walk next 1 u v := .cons edge (.nil v)

theorem snoc {n : Nat} {u v w : V} (walk : Walk next n u v) (edge : w ∈ next v) :
    Walk next (n + 1) u w :=
  walk.trans (.edge edge)

theorem dist_le {n : Nat} {u v : V} (walk : Walk next n u v) : dist next u v ≤ n :=
  Nat.sInf_le walk

end Walk

namespace Reaches

theorem refl (v : V) : Reaches next v v := ⟨0, .nil v⟩

theorem snoc {u v w : V} (reaches : Reaches next u v) (edge : w ∈ next v) : Reaches next u w := by
  obtain ⟨n, walk⟩ := reaches
  exact ⟨n + 1, walk.snoc edge⟩

theorem shortest {u v : V} (reaches : Reaches next u v) : Walk next (dist next u v) u v :=
  Nat.sInf_mem reaches

theorem dist_snoc {u v w : V} (reaches : Reaches next u v) (edge : w ∈ next v) :
    dist next u w ≤ dist next u v + 1 :=
  (reaches.shortest.snoc edge).dist_le

end Reaches

@[simp] theorem dist_self (v : V) : dist next v v = 0 :=
  Nat.le_zero.mp (Walk.nil v).dist_le

/-- A node without an outgoing edge on a shortest way is the end of it. -/
theorem eq_of_dist_zero {u v : V} (reaches : Reaches next u v) (zero : dist next u v = 0) : u = v := by
  have walk := reaches.shortest
  rw [zero] at walk
  cases walk
  rfl

/-- The state of a search from `source`: the queue is ordered by distance over at most two layers, and
every visited node outside it has only visited successors. `bound` bounds the distances met so far. -/
structure Frontier (next : V → List V) (source : V) (visited : V → Prop) (parent : V → Option V)
    (queue : List V) (bound : Nat) : Prop where
  started : visited source
  reached : ∀ {v}, visited v → Reaches next source v
  bounded : ∀ {v}, visited v → dist next source v ≤ bound
  parents : ∀ {v}, visited v → v ≠ source → ∃ p, parent v = some p ∧ visited p ∧ v ∈ next p ∧
    dist next source v = dist next source p + 1
  pointed : ∀ {v}, ¬ visited v → parent v = none
  queued : ∀ {v}, v ∈ queue → visited v
  ordered : queue.Pairwise fun v w => dist next source v ≤ dist next source w
  layered : ∀ {v w}, v ∈ queue.head? → w ∈ queue → dist next source w ≤ dist next source v + 1
  closed : ∀ {v}, visited v → v ∉ queue → ∀ w ∈ next v, visited w

namespace Frontier

variable {source : V} {visited : V → Prop} {parent : V → Option V} {queue : List V} {bound : Nat}

theorem start {visited : V → Prop} {parent : V → Option V} (only : ∀ v, visited v ↔ v = source)
    (none : ∀ v, parent v = none) :
    Frontier next source visited parent [source] 0 where
  started := (only source).mpr rfl
  reached old := by
    rw [(only _).mp old]
    exact .refl source
  bounded old := by
    rw [(only _).mp old, dist_self]
  parents old away := absurd ((only _).mp old) away
  pointed _ := none _
  queued member := (only _).mpr (List.mem_singleton.mp member)
  ordered := List.pairwise_singleton _ _
  layered := by
    intro v w head member
    rw [List.mem_singleton.mp member, dist_self]
    exact Nat.zero_le _
  closed old absent := absurd (List.mem_singleton.mpr ((only _).mp old)) absent

/-- A walk to a node not yet visited leaves the visited part at some node of the queue. -/
theorem escape (frontier : Frontier next source visited parent queue bound) {n : Nat} {u v : V}
    (walk : Walk next n u v) (inside : visited u) (outside : ¬ visited v) :
    ∃ q ∈ queue, dist next source q + 1 ≤ dist next source u + n := by
  induction walk with
  | nil v => exact absurd inside outside
  | @cons u w v n edge rest ih =>
    by_cases member : u ∈ queue
    · exact ⟨u, member, by omega⟩
    · obtain ⟨q, found, near⟩ := ih (frontier.closed inside member w edge) outside
      have triangle := (frontier.reached inside).dist_snoc edge
      exact ⟨q, found, by omega⟩

/-- Once the queue is empty, everything in reach was visited. -/
theorem complete (frontier : Frontier next source visited parent [] bound) {v : V}
    (reaches : Reaches next source v) : visited v := by
  obtain ⟨n, walk⟩ := reaches
  by_contra outside
  obtain ⟨q, member, _⟩ := frontier.escape walk frontier.started outside
  cases member

section Visit

variable {front : V} {rest : List V} {w : V}

/-- The distance of a node first met from the queue's head. -/
theorem dist_visit (frontier : Frontier next source visited parent (front :: rest) bound)
    (edge : w ∈ next front) (fresh : ¬ visited w) :
    dist next source w = dist next source front + 1 := by
  have inside := frontier.queued (List.mem_cons_self (a := front) (l := rest))
  have reaches := (frontier.reached inside).snoc edge
  obtain ⟨q, member, near⟩ := frontier.escape reaches.shortest frontier.started fresh
  have nearest : dist next source front ≤ dist next source q := by
    rcases List.mem_cons.mp member with rfl | later
    · exact le_refl _
    · exact (List.pairwise_cons.mp frontier.ordered).1 q later
  have triangle := (frontier.reached inside).dist_snoc edge
  rw [dist_self] at near
  omega

theorem visit (frontier : Frontier next source visited parent (front :: rest) bound)
    (edge : w ∈ next front) (fresh : ¬ visited w) {visited' : V → Prop} {parent' : V → Option V}
    (adds : ∀ v, visited' v ↔ v = w ∨ visited v) (points : parent' w = some front)
    (keeps : ∀ v, v ≠ w → parent' v = parent v) :
    Frontier next source visited' parent' (front :: rest ++ [w]) (bound + 1) := by
  have inside := frontier.queued (List.mem_cons_self (a := front) (l := rest))
  have away := frontier.dist_visit edge fresh
  have near := frontier.bounded inside
  have last : ∀ v ∈ front :: rest, dist next source v ≤ dist next source w := by
    intro v member
    have layer := frontier.layered (Option.mem_some_iff.mpr rfl) member
    omega
  refine ⟨(adds source).mpr (.inr frontier.started), ?_, ?_, ?_, ?_, ?_, ?_, ?_, ?_⟩
  · intro v met
    rcases (adds v).mp met with rfl | old
    · exact (frontier.reached inside).snoc edge
    · exact frontier.reached old
  · intro v met
    rcases (adds v).mp met with rfl | old
    · omega
    · have small := frontier.bounded old
      omega
  · intro v met notSource
    rcases (adds v).mp met with rfl | old
    · exact ⟨front, points, (adds front).mpr (.inr inside), edge, away⟩
    · obtain ⟨p, parented, met', edge', step⟩ := frontier.parents old notSource
      have other : v ≠ w := fun same => fresh (same ▸ old)
      exact ⟨p, (keeps v other).trans parented, (adds p).mpr (.inr met'), edge', step⟩
  · intro v unmet
    have other : v ≠ w := fun same => unmet ((adds v).mpr (.inl same))
    rw [keeps v other]
    exact frontier.pointed fun old => unmet ((adds v).mpr (.inr old))
  · intro v member
    rcases List.mem_append.mp member with old | new
    · exact (adds v).mpr (.inr (frontier.queued old))
    · exact (adds v).mpr (.inl (List.mem_singleton.mp new))
  · refine List.pairwise_append.mpr ⟨frontier.ordered, List.pairwise_singleton _ _, ?_⟩
    intro v old u new
    rw [List.mem_singleton.mp new]
    exact last v old
  · intro v u head member
    rcases List.mem_append.mp member with old | new
    · exact frontier.layered head old
    · rw [List.mem_singleton.mp new, ← Option.some.inj head]
      exact away.le
  · intro v met absent u out
    rcases (adds v).mp met with rfl | old
    · exact absurd (List.mem_append_right _ (List.mem_singleton_self v)) absent
    · have notQueued : v ∉ front :: rest := fun member => absent (List.mem_append_left _ member)
      exact (adds u).mpr (.inr (frontier.closed old notQueued u out))

/-- The head leaves the queue once all its successors were visited. -/
theorem pop (frontier : Frontier next source visited parent (front :: rest) bound)
    (explored : ∀ w ∈ next front, visited w) :
    Frontier next source visited parent rest bound where
  started := frontier.started
  reached := frontier.reached
  bounded := frontier.bounded
  parents := frontier.parents
  pointed := frontier.pointed
  queued member := frontier.queued (List.mem_cons_of_mem front member)
  ordered := (List.pairwise_cons.mp frontier.ordered).2
  layered := by
    intro v w head member
    have first : v ∈ front :: rest := List.mem_cons_of_mem front (List.mem_of_mem_head? head)
    have layer := frontier.layered (Option.mem_some_iff.mpr rfl) (List.mem_cons_of_mem front member)
    have least := (List.pairwise_cons.mp frontier.ordered).1 v (List.mem_of_mem_head? head)
    omega
  closed := by
    intro v met absent
    by_cases same : v = front
    · rw [same]
      exact explored
    · refine frontier.closed met fun member => ?_
      rcases List.mem_cons.mp member with front' | later
      · exact same front'
      · exact absent later

end Visit

end Frontier

/-- A step towards `target` that leaves one edge less to go. -/
theorem dist_of_step {source hop target : V} {n : Nat} (edge : hop ∈ next source)
    (walk : Walk next n hop target) (shortest : dist next source target = n + 1) :
    dist next hop target = n := by
  have reaches : Reaches next hop target := ⟨n, walk⟩
  have upper := walk.dist_le
  have lower := (Walk.cons edge reaches.shortest).dist_le
  omega

end Lycoris.Lib
