import Lycoris.Overlay.Routing

/-!
The search for a next hop. It stops within its turns, finds a hop exactly when the destination is in
reach, and the hop is the first step of a shortest way.
-/

namespace Lycoris.Overlay
open Lib

/-- What one edge that was not met before does. -/
def SearchState.meet (search : SearchState) (node edge : NodeId) : SearchState :=
  ⟨search.visited.insert edge, search.parent.insert edge node, search.queue ++ [edge]⟩

namespace LinkStateDb

/-- The graph of the stored records: a node without a record has no edges. -/
def edgesOf (db : LinkStateDb) (node : NodeId) : List NodeId :=
  match db.records[node]? with
  | some record => record.edges
  | none => []

theorem mem_advertised {db : LinkStateDb} {node edge : NodeId} (member : edge ∈ db.edgesOf node) :
    edge ∈ db.advertised := by
  unfold edgesOf at member
  split at member
  · rename_i record found
    exact List.mem_flatMap.mpr ⟨(node, record), Std.ExtTreeMap.mem_toList_iff_getElem?_eq_some.mpr found,
      member⟩
  · cases member

/-- The first step of a shortest way. -/
def Leads (db : LinkStateDb) (localId destination hop : NodeId) : Prop :=
  hop ∈ db.edgesOf localId ∧ Reaches db.edgesOf hop destination ∧
    dist db.edgesOf localId destination = dist db.edgesOf hop destination + 1

section Search

variable {db : LinkStateDb} {localId destination : NodeId}

/-- The search as the library sees it. -/
abbrev Searched (db : LinkStateDb) (localId : NodeId) (search : SearchState) (queue : List NodeId) : Prop :=
  Frontier db.edgesOf localId (· ∈ search.visited) (search.parent[·]?) queue search.parent.size

/-- The walk back from the destination ends with the step that left `localId`. -/
theorem firstHop_leads {search : SearchState} {queue : List NodeId}
    (searched : db.Searched localId search queue) (met : destination ∈ search.visited)
    (away : localId ≠ destination) :
    ∃ hop, firstHop search.parent localId destination = some (some hop) ∧
      db.Leads localId destination hop := by
  let inv (hop : NodeId) : Prop := hop ∈ search.visited ∧ hop ≠ localId ∧ ∃ n,
    Walk db.edgesOf n hop destination ∧
      dist db.edgesOf localId destination = dist db.edgesOf localId hop + n
  have turns : ∀ hop, inv hop →
      (∃ found, hopTurn search.parent localId hop = some (.done found) ∧
        ∃ hop, found = some hop ∧ db.Leads localId destination hop) ∨
      (∃ previous, hopTurn search.parent localId hop = some (.next previous) ∧ inv previous ∧
        dist db.edgesOf localId previous < dist db.edgesOf localId hop ∧
        ∀ found : Option NodeId, (∃ hop, found = some hop ∧ db.Leads localId destination hop) →
          ∃ hop, found = some hop ∧ db.Leads localId destination hop) := by
    rintro hop ⟨visited, elsewhere, n, walk, shortest⟩
    obtain ⟨previous, parented, visited', edge, step⟩ := searched.parents visited elsewhere
    rw [hopTurn, parented]
    by_cases back : previous = localId
    · left
      rw [back, dist_self] at step
      rw [back] at edge
      have rest := dist_of_step edge walk (by omega)
      refine ⟨some hop, by rw [← back]; simp, hop, rfl, edge, ⟨n, walk⟩, by omega⟩
    · right
      refine ⟨previous, by simp [back], ⟨visited', back, n + 1, .cons edge walk, by omega⟩, by omega, ?_⟩
      exact fun _ post => post
  have start : inv destination := ⟨met, away.symm, 0, .nil destination, rfl⟩
  obtain ⟨found, ran, hop, rfl, leads⟩ := loop_total (hopTurn search.parent localId) inv
    (dist db.edgesOf localId)
    (fun _ found => ∃ hop, found = some hop ∧ db.Leads localId destination hop)
    (search.parent.size + 1) turns start (Nat.lt_succ_of_le (searched.bounded met))
  exact ⟨hop, ran, leads⟩

/-- The nodes some record names that were not met yet. -/
def unvisited (db : LinkStateDb) (search : SearchState) : Finset NodeId :=
  db.advertised.toFinset.filter fun node => node ∉ search.visited

theorem unvisited_card_le (db : LinkStateDb) (search : SearchState) :
    (db.unvisited search).card ≤ db.advertised.length :=
  (Finset.card_filter_le _ _).trans (List.toFinset_card_le _)

def searchMeasure (db : LinkStateDb) (search : SearchState) : Nat :=
  search.queue.length + (db.unvisited search).card

theorem searchMeasure_meet {search : SearchState} {node edge : NodeId} (member : edge ∈ db.edgesOf node)
    (fresh : edge ∉ search.visited) :
    db.searchMeasure (search.meet node edge) ≤ db.searchMeasure search := by
  have erased : db.unvisited (search.meet node edge) = (db.unvisited search).erase edge := by
    ext v
    simp only [unvisited, SearchState.meet, Finset.mem_filter, Finset.mem_erase, List.mem_toFinset,
      Std.ExtTreeSet.mem_insert, Std.LawfulEqOrd.compare_eq_iff_eq]
    tauto
  have present : edge ∈ db.unvisited search := by
    rw [unvisited, Finset.mem_filter, List.mem_toFinset]
    exact ⟨mem_advertised member, fresh⟩
  have fewer := Finset.card_erase_add_one present
  rw [searchMeasure, searchMeasure, erased]
  simp only [SearchState.meet, List.length_append, List.length_singleton]
  omega

theorem Searched.meet {search : SearchState} {node edge : NodeId}
    (searched : db.Searched localId search (node :: search.queue)) (member : edge ∈ db.edgesOf node)
    (fresh : edge ∉ search.visited) :
    db.Searched localId (search.meet node edge)
      (node :: (search.meet node edge).queue) := by
  have size : (search.parent.insert edge node).size = search.parent.size + 1 := by
    have absent : edge ∉ search.parent := by
      rw [Std.ExtTreeMap.mem_iff_isSome_getElem?, searched.pointed fresh]
      exact Bool.false_ne_true
    rw [Std.ExtTreeMap.size_insert, if_neg (mt Std.ExtTreeMap.contains_iff_mem.mp absent)]
  show Frontier _ _ _ _ (node :: search.queue ++ [edge]) (search.parent.insert edge node).size
  rw [size]
  refine searched.visit member fresh ?_ ?_ ?_
  · intro v
    show v ∈ search.visited.insert edge ↔ _
    rw [Std.ExtTreeSet.mem_insert, Std.LawfulEqOrd.compare_eq_iff_eq]
    tauto
  · exact Std.ExtTreeMap.getElem?_insert_self
  · intro v other
    show (search.parent.insert edge node)[v]? = _
    rw [Std.ExtTreeMap.getElem?_insert, if_neg]
    simpa using other.symm

/-- What the search is about, between two turns. -/
def Searching (db : LinkStateDb) (localId destination : NodeId) (search : SearchState) : Prop :=
  db.Searched localId search search.queue ∧ destination ∉ search.visited

/-- The edges of one record: either the destination is among them, or the search goes on with its head
explored. `edges` are those still ahead. -/
theorem explore_cases {node : NodeId} (edges : List NodeId) (search : SearchState)
    (away : localId ≠ destination) (searched : db.Searched localId search (node :: search.queue))
    (unmet : destination ∉ search.visited) (ahead : ∀ edge ∈ edges, edge ∈ db.edgesOf node)
    (behind : ∀ edge ∈ db.edgesOf node, edge ∈ edges ∨ edge ∈ search.visited) :
    (∃ hop, explore localId destination node edges search = some (.done (some hop)) ∧
      db.Leads localId destination hop) ∨
    (∃ search', explore localId destination node edges search = some (.next search') ∧
      db.Searching localId destination search' ∧ db.searchMeasure search' ≤ db.searchMeasure search) := by
  induction edges generalizing search with
  | nil =>
    have explored : ∀ edge ∈ db.edgesOf node, edge ∈ search.visited := by
      intro edge member
      rcases behind edge member with none | met
      · cases none
      · exact met
    exact .inr ⟨search, rfl, ⟨searched.pop explored, unmet⟩, le_refl _⟩
  | cons edge edges ih =>
    have ahead' : ∀ other ∈ edges, other ∈ db.edgesOf node := fun other member =>
      ahead other (List.mem_cons_of_mem edge member)
    rw [explore]
    by_cases met : edge ∈ search.visited
    · rw [if_pos met]
      refine ih search searched unmet ahead' fun other member => ?_
      rcases behind other member with here | before
      · rcases List.mem_cons.mp here with rfl | later
        · exact .inr met
        · exact .inl later
      · exact .inr before
    · rw [if_neg met]
      have member := ahead edge List.mem_cons_self
      have grown := Searched.meet searched member met
      have visits : ∀ other, other ∈ (search.meet node edge).visited ↔
          other = edge ∨ other ∈ search.visited := by
        intro other
        show other ∈ search.visited.insert edge ↔ _
        rw [Std.ExtTreeSet.mem_insert, Std.LawfulEqOrd.compare_eq_iff_eq, eq_comm]
      dsimp only
      by_cases arrived : edge = destination
      · rw [if_pos arrived]
        obtain ⟨hop, ran, leads⟩ :=
          firstHop_leads grown ((visits destination).mpr (.inl arrived.symm)) away
        refine .inl ⟨hop, ?_, leads⟩
        have ran' : firstHop (search.parent.insert edge node) localId destination = some (some hop) := ran
        rw [ran']
        rfl
      · rw [if_neg arrived]
        have unmet' : destination ∉ (search.meet node edge).visited := by
          intro found
          rcases (visits destination).mp found with same | before
          · exact arrived same.symm
          · exact unmet before
        have behind' : ∀ other ∈ db.edgesOf node,
            other ∈ edges ∨ other ∈ (search.meet node edge).visited := by
          intro other known
          rcases behind other known with here | before
          · rcases List.mem_cons.mp here with rfl | later
            · exact .inr ((visits other).mpr (.inl rfl))
            · exact .inl later
          · exact .inr ((visits other).mpr (.inr before))
        rcases ih (search.meet node edge) grown unmet' ahead' behind' with found | going
        · exact .inl found
        · obtain ⟨search', ran, searching, less⟩ := going
          exact .inr ⟨search', ran, searching, less.trans (searchMeasure_meet member met)⟩

/-- What a search returns: a hop that leads there, or nothing when the destination is out of reach. -/
def Answers (db : LinkStateDb) (localId destination : NodeId) : Option NodeId → Prop
  | some hop => db.Leads localId destination hop
  | none => ¬ Reaches db.edgesOf localId destination

theorem searchTurn_cases {search : SearchState} (away : localId ≠ destination)
    (searching : db.Searching localId destination search) :
    (∃ answer, db.searchTurn localId destination search = some (.done answer) ∧
      db.Answers localId destination answer) ∨
    (∃ search', db.searchTurn localId destination search = some (.next search') ∧
      db.Searching localId destination search' ∧ db.searchMeasure search' < db.searchMeasure search) := by
  obtain ⟨visited, parent, queue⟩ := search
  obtain ⟨searched, unmet⟩ := searching
  cases queue with
  | nil => exact .inl ⟨none, rfl, fun reaches => unmet (searched.complete reaches)⟩
  | cons node queue =>
    let rest : SearchState := ⟨visited, parent, queue⟩
    have popped : db.searchMeasure rest < db.searchMeasure ⟨visited, parent, node :: queue⟩ := by
      show queue.length + _ < (node :: queue).length + _
      rw [List.length_cons]
      exact Nat.add_lt_add_right (Nat.lt_succ_self _) _
    rw [searchTurn]
    dsimp only
    cases found : db.records[node]? with
    | none =>
      have isolated : db.edgesOf node = [] := by
        rw [edgesOf, found]
      refine .inr ⟨rest, rfl, ⟨searched.pop ?_, unmet⟩, popped⟩
      intro edge member
      rw [isolated] at member
      cases member
    | some record =>
      have edges : db.edgesOf node = record.edges := by
        rw [edgesOf, found]
      rcases explore_cases record.edges rest away searched unmet
          (fun edge member => edges ▸ member) (fun edge member => .inl (edges ▸ member)) with done | going
      · obtain ⟨hop, ran, leads⟩ := done
        exact .inl ⟨some hop, ran, leads⟩
      · obtain ⟨search', ran, searching, less⟩ := going
        exact .inr ⟨search', ran, searching, less.trans_lt popped⟩

/-- The search stops within its turns with an answer. -/
theorem nextHop?_total (away : localId ≠ destination) :
    ∃ answer, db.nextHop? localId destination = some answer ∧ db.Answers localId destination answer := by
  have only : ∀ v, v ∈ ({localId} : Std.ExtTreeSet NodeId compare) ↔ v = localId := by
    intro v
    rw [Std.ExtTreeSet.singleton_eq_insert, Std.ExtTreeSet.mem_insert,
      Std.LawfulEqOrd.compare_eq_iff_eq, eq_comm]
    exact or_iff_left Std.ExtTreeSet.not_mem_empty
  have start : db.Searching localId destination ⟨{localId}, ∅, [localId]⟩ :=
    ⟨Frontier.start only fun v => Std.ExtTreeMap.getElem?_empty,
      fun found => away ((only destination).mp found).symm⟩
  have few : db.searchMeasure ⟨{localId}, ∅, [localId]⟩ < db.advertised.length + 2 := by
    have bound := db.unvisited_card_le ⟨{localId}, ∅, [localId]⟩
    rw [searchMeasure, List.length_singleton]
    omega
  rw [nextHop?, if_neg away]
  refine loop_total (db.searchTurn localId destination) (db.Searching localId destination)
    db.searchMeasure (fun _ => db.Answers localId destination) _ ?_ start few
  intro search searching
  rcases searchTurn_cases away searching with done | ⟨search', ran, searching', less⟩
  · exact .inl done
  · exact .inr ⟨search', ran, searching', less, fun _ post => post⟩

theorem nextHop_answers (away : localId ≠ destination) :
    db.Answers localId destination (db.nextHop localId destination) := by
  obtain ⟨answer, ran, answers⟩ := @nextHop?_total db localId destination away
  rw [nextHop, ran]
  exact answers

theorem Leads.reaches {hop : NodeId} (leads : db.Leads localId destination hop) :
    Reaches db.edgesOf localId destination := by
  obtain ⟨edge, ⟨n, walk⟩, _⟩ := leads
  exact ⟨n + 1, .cons edge walk⟩

theorem nextHop_isSome (away : localId ≠ destination) :
    (db.nextHop localId destination).isSome ↔ Reaches db.edgesOf localId destination := by
  have answers := @nextHop_answers db localId destination away
  cases found : db.nextHop localId destination with
  | none =>
    rw [found] at answers
    exact iff_of_false Bool.false_ne_true answers
  | some hop =>
    rw [found] at answers
    exact iff_of_true rfl (Leads.reaches answers)

theorem nextHop_leads (away : localId ≠ destination) {hop : NodeId}
    (found : db.nextHop localId destination = some hop) : db.Leads localId destination hop := by
  have answers := @nextHop_answers db localId destination away
  rw [found] at answers
  exact answers

end Search

end LinkStateDb

end Lycoris.Overlay
