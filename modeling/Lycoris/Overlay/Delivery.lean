import Lycoris.Overlay.NextHop

/-!
An envelope on its way through several routers that hold the same link state.
-/

namespace Lycoris.Overlay
open Lib

namespace Router

theorem markSeen_fresh {router : Router} {requestId : RequestId} (fresh : requestId ∉ router.seenSet) :
    ∃ seen seenSet, router.markSeen requestId =
      ({ router with seen := seen, seenSet := seenSet }, true) := by
  rw [markSeen, if_neg fresh]
  exact ⟨_, _, rfl⟩

end Router

/-- One hop of the budget spent. -/
def Envelope.spend (envelope : Envelope) (hops : Nat) : Envelope :=
  { envelope with header :=
    { envelope.header with remainingHops := envelope.header.remainingHops - UInt8.ofNat hops } }

/-- What a node on the way has to offer: the shared link state, a request not seen yet, a free slot
unless it is the destination, and a clock before the deadline. -/
structure Ready (db : LinkStateDb) (header : EnvelopeHeader) (now : Int) (node : NodeId)
    (router : Router) : Prop where
  named : router.localId = node
  links : router.links = db
  unseen : header.requestId ∉ router.seenSet
  early : now < header.deadlineUnixMs
  room : node ≠ header.destination → router.inflight < router.maxInflight

section Handle

variable {db : LinkStateDb} {envelope : Envelope} {now : Int} {node : NodeId} {router : Router}
  (ready : Ready db envelope.header now node router)
include ready

theorem Ready.deliver (arrived : node = envelope.header.destination) :
    (router.handle envelope now).2 = .deliver envelope := by
  obtain ⟨seen, seenSet, marked⟩ := Router.markSeen_fresh ready.unseen
  have here : envelope.header.destination = router.localId := arrived.symm.trans ready.named.symm
  rw [Router.handle, if_neg (not_le.mpr ready.early), marked]
  dsimp only
  rw [if_pos here]

theorem Ready.forward (away : node ≠ envelope.header.destination)
    (hops : envelope.header.remainingHops ≠ 0) (small : envelope.payload.length ≤ maxRouteBodyBytes)
    {hop : NodeId} (found : db.nextHop node envelope.header.destination = some hop) :
    (router.handle envelope now).2 = .forward hop (envelope.spend 1) := by
  obtain ⟨seen, seenSet, marked⟩ := Router.markSeen_fresh ready.unseen
  have elsewhere : ¬ envelope.header.destination = router.localId := by
    rw [ready.named]
    exact away.symm
  have fits : ¬ envelope.payload.length > maxPayloadBytes := by
    have bounds : maxRouteBodyBytes ≤ maxPayloadBytes := by decide
    omega
  rw [Router.handle, if_neg (not_le.mpr ready.early), marked]
  dsimp only
  rw [if_neg elsewhere, if_neg hops, if_neg (not_lt.mpr small), if_neg (not_le.mpr (ready.room away)),
    ready.links, ready.named, found]
  dsimp only
  rw [Envelope.new, if_neg fits]
  rfl

end Handle

/-- The routers of an overlay. -/
abbrev Network := NodeId → Router

/-- The nodes an envelope came by, the routers after that, and the last decision. -/
structure Journey where
  visited : List NodeId
  network : Network
  outcome : RouteDecision

/-- Each node handles the envelope by its own clock and hands it to the next hop. No journey takes more
hops than the envelope has left. -/
def Network.travel (now : NodeId → Int) : Nat → Network → NodeId → Envelope → Journey
  | 0, network, node, envelope =>
    let handled := (network node).handle envelope (now node)
    ⟨[node], Function.update network node handled.1, handled.2⟩
  | hops + 1, network, node, envelope =>
    let handled := (network node).handle envelope (now node)
    let network := Function.update network node handled.1
    match handled.2 with
    | .forward nextHop forwarded =>
      let rest := travel now hops network nextHop forwarded
      { rest with visited := node :: rest.visited }
    | decision => ⟨[node], network, decision⟩

def Network.send (network : Network) (now : NodeId → Int) (source : NodeId) (envelope : Envelope) :
    Journey :=
  Network.travel now envelope.header.remainingHops.toNat network source envelope

/-- The nodes from hop to hop. -/
def LinkStateDb.way (db : LinkStateDb) (destination : NodeId) : Nat → NodeId → List NodeId
  | 0, node => [node]
  | hops + 1, node =>
    if node = destination then [node]
    else
      match db.nextHop node destination with
      | some hop => node :: way db destination hops hop
      | none => [node]

namespace LinkStateDb

variable {db : LinkStateDb} {destination : NodeId}

theorem nextHop_of_reaches {node : NodeId} (away : node ≠ destination)
    (reaches : Reaches db.edgesOf node destination) :
    ∃ hop, db.nextHop node destination = some hop ∧ db.Leads node destination hop := by
  obtain ⟨hop, found⟩ := Option.isSome_iff_exists.mp ((nextHop_isSome away).mpr reaches)
  exact ⟨hop, found, nextHop_leads away found⟩

theorem way_spec {hops : Nat} {node : NodeId} (reaches : Reaches db.edgesOf node destination)
    (enough : dist db.edgesOf node destination ≤ hops) :
    (db.way destination hops node).length = dist db.edgesOf node destination + 1 ∧
      (db.way destination hops node).Nodup ∧
      (db.way destination hops node).getLast? = some destination ∧
      ∀ v ∈ db.way destination hops node,
        dist db.edgesOf v destination ≤ dist db.edgesOf node destination := by
  induction hops generalizing node with
  | zero =>
    have zero := Nat.le_zero.mp enough
    obtain rfl := eq_of_dist_zero reaches zero
    simp [way]
  | succ hops ih =>
    rw [way]
    by_cases arrived : node = destination
    · simp [arrived]
    · obtain ⟨hop, found, edge, onwards, step⟩ := nextHop_of_reaches arrived reaches
      obtain ⟨length, nodup, last, nearer⟩ := ih onwards (by omega)
      have left : node ∉ db.way destination hops hop := by
        intro member
        have near := nearer node member
        omega
      rw [if_neg arrived, found]
      refine ⟨by rw [List.length_cons, length, step], List.nodup_cons.mpr ⟨left, nodup⟩, ?_, ?_⟩
      · rw [List.getLast?_cons, last]
        rfl
      · intro v member
        rcases List.mem_cons.mp member with rfl | later
        · exact le_refl _
        · have near := nearer v later
          omega

end LinkStateDb

theorem Envelope.spend_zero (envelope : Envelope) : envelope.spend 0 = envelope := by
  have same : envelope.header.remainingHops - UInt8.ofNat 0 = envelope.header.remainingHops :=
    UInt8.sub_zero _
  rw [spend, same]

theorem Envelope.spend_spend (envelope : Envelope) (hops : Nat) :
    (envelope.spend 1).spend hops = envelope.spend (hops + 1) := by
  have same : envelope.header.remainingHops - UInt8.ofNat 1 - UInt8.ofNat hops =
      envelope.header.remainingHops - UInt8.ofNat (hops + 1) := by
    rw [UInt8.ofNat_add, sub_sub, add_comm (UInt8.ofNat 1)]
  simp only [spend, same]

/-- Along the way of the shared link state the envelope is forwarded at every node but the last, which
delivers it. -/
theorem Network.travel_delivers {db : LinkStateDb} {now : NodeId → Int} {hops : Nat}
    {network : Network} {node : NodeId} {envelope : Envelope}
    (budget : envelope.header.remainingHops.toNat = hops)
    (reaches : Reaches db.edgesOf node envelope.header.destination)
    (enough : dist db.edgesOf node envelope.header.destination ≤ hops)
    (small : envelope.payload.length ≤ maxRouteBodyBytes)
    (ready : ∀ v ∈ db.way envelope.header.destination hops node,
      Ready db envelope.header (now v) v (network v)) :
    (Network.travel now hops network node envelope).visited =
        db.way envelope.header.destination hops node ∧
      (Network.travel now hops network node envelope).outcome =
        .deliver (envelope.spend (dist db.edgesOf node envelope.header.destination)) := by
  induction hops generalizing network node envelope with
  | zero =>
    have zero := Nat.le_zero.mp enough
    have arrived := eq_of_dist_zero reaches zero
    have here := ready node (List.mem_singleton_self node)
    rw [zero, Envelope.spend_zero]
    exact ⟨rfl, here.deliver arrived⟩
  | succ hops ih =>
    have here : Ready db envelope.header (now node) node (network node) := by
      apply ready
      rw [LinkStateDb.way]
      split
      · exact List.mem_singleton_self node
      · split
        · exact List.mem_cons_self
        · exact List.mem_singleton_self node
    by_cases arrived : node = envelope.header.destination
    · have decision := here.deliver arrived
      rw [Network.travel]
      dsimp only
      rw [decision, LinkStateDb.way, if_pos arrived, ← arrived, dist_self, Envelope.spend_zero]
      exact ⟨rfl, rfl⟩
    · obtain ⟨hop, found, edge, onwards, step⟩ := LinkStateDb.nextHop_of_reaches arrived reaches
      have some : envelope.header.remainingHops ≠ 0 := by
        intro none
        rw [none] at budget
        cases budget
      have decision := here.forward arrived some small found
      have route : db.way envelope.header.destination (hops + 1) node =
          node :: db.way envelope.header.destination hops hop := by
        rw [LinkStateDb.way, if_neg arrived, found]
      have left : node ∉ db.way envelope.header.destination hops hop := by
        intro member
        have near := (LinkStateDb.way_spec onwards (by omega)).2.2.2 node member
        omega
      have budget' : (envelope.spend 1).header.remainingHops.toNat = hops := by
        have one : 1 ≤ envelope.header.remainingHops := by
          rw [UInt8.le_iff_toNat_le, budget]
          exact Nat.succ_le_succ (Nat.zero_le hops)
        show (envelope.header.remainingHops - 1).toNat = hops
        rw [UInt8.toNat_sub_of_le _ _ one, budget]
        rfl
      obtain ⟨visited, outcome⟩ := @ih
        (Function.update network node ((network node).handle envelope (now node)).1) hop
        (envelope.spend 1) budget' onwards (by show dist _ _ envelope.header.destination ≤ hops; omega)
        small (by
          intro v member
          have other : v ≠ node := fun same => left (same ▸ member)
          rw [Function.update_of_ne other]
          have before := ready v (by rw [route]; exact List.mem_cons_of_mem node member)
          exact ⟨before.named, before.links, before.unseen, before.early, before.room⟩)
      rw [Network.travel, route, step]
      dsimp only
      rw [decision]
      dsimp only
      rw [visited, outcome, Envelope.spend_spend]
      exact ⟨rfl, rfl⟩

/-- A next hop is found exactly when there is a way, and starts a shortest one; routers that share the
link state therefore deliver an envelope after as many hops as it is away, past no node twice. -/
theorem Network.send_delivers (db : LinkStateDb) :
    (∀ localId destination, localId ≠ destination →
      ((db.nextHop localId destination).isSome ↔ Reaches db.edgesOf localId destination) ∧
        ∀ hop, db.nextHop localId destination = some hop → db.Leads localId destination hop) ∧
    ∀ (network : Network) (now : NodeId → Int) (source : NodeId) (envelope : Envelope),
      Reaches db.edgesOf source envelope.header.destination →
      dist db.edgesOf source envelope.header.destination ≤ envelope.header.remainingHops.toNat →
      envelope.payload.length ≤ maxRouteBodyBytes →
      (∀ v ∈ db.way envelope.header.destination envelope.header.remainingHops.toNat source,
        Ready db envelope.header (now v) v (network v)) →
      (network.send now source envelope).outcome =
          .deliver (envelope.spend (dist db.edgesOf source envelope.header.destination)) ∧
        (network.send now source envelope).visited.length =
          dist db.edgesOf source envelope.header.destination + 1 ∧
        (network.send now source envelope).visited.getLast? = some envelope.header.destination ∧
        (network.send now source envelope).visited.Nodup := by
  refine ⟨fun localId destination away => ⟨LinkStateDb.nextHop_isSome away, fun hop found =>
    LinkStateDb.nextHop_leads away found⟩, ?_⟩
  intro network now source envelope reaches enough small ready
  obtain ⟨visited, outcome⟩ := Network.travel_delivers rfl reaches enough small ready
  obtain ⟨length, nodup, last, _⟩ := LinkStateDb.way_spec reaches enough
  rw [Network.send, visited]
  exact ⟨outcome, length, last, nodup⟩

/-! ### Three nodes in a row -/

def rowNode (n : Nat) : NodeId := .ofNat n

/-- A record of the link state of a row. -/
def rowRecord (n : Nat) (edges : List NodeId) : LinkStateRecord := ⟨⟨rowNode n, [], edges, 1⟩, []⟩

def rowDb : LinkStateDb where
  records := Std.ExtTreeMap.ofList [(rowNode 1, rowRecord 1 [rowNode 2]),
    (rowNode 2, rowRecord 2 [rowNode 1, rowNode 3]), (rowNode 3, rowRecord 3 [rowNode 2])] compare

def rowNetwork : Network := fun node => { Router.new node with links := rowDb }

def rowEnvelope : Envelope :=
  ⟨⟨1, .ofNat 0, .ofNat 9, rowNode 1, rowNode 3, .resource, .request, 10, 4⟩, [1]⟩

theorem row_walk : Walk rowDb.edgesOf 2 (rowNode 1) (rowNode 3) :=
  .cons (w := rowNode 2) (by decide +kernel) (.edge (by decide +kernel))

theorem row_ready : ∀ v ∈ rowDb.way (rowNode 3) 4 (rowNode 1),
    Ready rowDb rowEnvelope.header 1 v (rowNetwork v) := by
  intro v _
  exact ⟨rfl, rfl, Std.ExtTreeSet.not_mem_empty, by decide, fun _ => Nat.zero_lt_succ 255⟩

theorem row_delivers :
    (rowNetwork.send (fun _ => 1) (rowNode 1) rowEnvelope).outcome =
        .deliver (rowEnvelope.spend (dist rowDb.edgesOf (rowNode 1) (rowNode 3))) ∧
      (rowNetwork.send (fun _ => 1) (rowNode 1) rowEnvelope).visited =
        [rowNode 1, rowNode 2, rowNode 3] ∧
      dist rowDb.edgesOf (rowNode 1) (rowNode 3) = 2 := by
  obtain ⟨outcome, length, _⟩ := (Network.send_delivers rowDb).2 rowNetwork (fun _ => 1) (rowNode 1)
    rowEnvelope ⟨2, row_walk⟩ (row_walk.dist_le.trans (by decide)) (by decide) row_ready
  have visited : (rowNetwork.send (fun _ => 1) (rowNode 1) rowEnvelope).visited =
      [rowNode 1, rowNode 2, rowNode 3] := by
    decide +kernel
  rw [visited] at length
  exact ⟨outcome, visited, (Nat.succ.inj length).symm⟩

end Lycoris.Overlay
