import Lycoris.Link.Connections

/-!
Duplicate connections between two nodes, as both ends see them. Each end keeps the connection it ranks
first, by its own side of it: the remote address is the dialed one at a dialing end and the observed one
at an accepting end, and each end numbers the connections for itself.
-/

namespace Lycoris.Link
open Lib Overlay

variable {P : Primitives}

namespace LinkState

/-! ### One end -/

theorem id_of_rank {left right : ConnectionId × ConnectionPreference} (same : rank left = rank right) :
    left.1 = right.1 :=
  congrArg (fun ranked => (ofLex ranked).2) same

theorem mem_candidates {state : LinkState P} {peerId : P.PeerId} {nodeId : NodeId}
    {candidate : ConnectionId × ConnectionPreference} :
    candidate ∈ state.candidates peerId nodeId ↔
      ∃ info, state.connections[candidate.1]? = some info ∧ info.nodeId = nodeId ∧
        candidate.2 = connectionPreference state.localPeerId peerId info.endpoint := by
  unfold candidates
  rw [List.mem_map]
  constructor
  · rintro ⟨⟨id, info⟩, member, rfl⟩
    obtain ⟨present, named⟩ := List.mem_filter.mp member
    exact ⟨info, Std.ExtTreeMap.mem_toList_iff_getElem?_eq_some.mp present, of_decide_eq_true named, rfl⟩
  · rintro ⟨info, found, named, preference⟩
    refine ⟨(candidate.1, info), List.mem_filter.mpr ⟨?_, decide_eq_true named⟩, ?_⟩
    · exact Std.ExtTreeMap.mem_toList_iff_getElem?_eq_some.mpr found
    · rw [← preference]

theorem nodup_candidates_ids (state : LinkState P) (peerId : P.PeerId) (nodeId : NodeId) :
    ((state.candidates peerId nodeId).map Prod.fst).Nodup := by
  have keys : (state.connections.toList.map Prod.fst).Nodup := by
    rw [Std.ExtTreeMap.map_fst_toList_eq_keys]
    exact Std.ExtTreeMap.nodup_keys
  have filtered := keys.sublist
    ((@List.filter_sublist _ (fun entry => decide (entry.2.nodeId = nodeId))
      state.connections.toList).map Prod.fst)
  unfold candidates
  rw [List.map_map]
  exact filtered

theorem pairwise_insertionSort_rank (candidates : List (ConnectionId × ConnectionPreference)) :
    (candidates.insertionSort fun left right => rank left ≤ rank right).Pairwise
      fun left right => rank left ≤ rank right := by
  have : Std.Total fun left right : ConnectionId × ConnectionPreference => rank left ≤ rank right :=
    ⟨fun left right => le_total (rank left) (rank right)⟩
  have : IsTrans _ fun left right : ConnectionId × ConnectionPreference => rank left ≤ rank right :=
    ⟨fun _ _ _ => le_trans⟩
  exact List.pairwise_insertionSort _ candidates

/-- The first of the candidates is kept and the others are closed. -/
theorem not_mem_arbitrateConnections {state : LinkState P} {peerId : P.PeerId} {nodeId : NodeId}
    {winner : ConnectionId × ConnectionPreference} (member : winner ∈ state.candidates peerId nodeId)
    (least : ∀ other ∈ state.candidates peerId nodeId, rank winner ≤ rank other)
    {other : ConnectionId × ConnectionPreference} (candidate : other ∈ state.candidates peerId nodeId) :
    other.1 ∉ state.arbitrateConnections peerId nodeId ↔ other.1 = winner.1 := by
  unfold arbitrateConnections
  dsimp only
  split
  · rename_i few
    have same : other = winner := by
      cases listed : state.candidates peerId nodeId with
      | nil =>
        rw [listed] at member
        cases member
      | cons first rest =>
        rw [listed, List.length_cons] at few
        have none : rest = [] := List.length_eq_zero_iff.mp (by omega)
        rw [listed, none] at member candidate
        rw [List.mem_singleton.mp member, List.mem_singleton.mp candidate]
    rw [same]
    exact iff_of_true List.not_mem_nil rfl
  · have sorted := pairwise_insertionSort_rank (state.candidates peerId nodeId)
    have perm := List.perm_insertionSort (fun left right => rank left ≤ rank right)
      (state.candidates peerId nodeId)
    have nodup := (perm.map Prod.fst).nodup_iff.mpr (state.nodup_candidates_ids peerId nodeId)
    cases arranged : (state.candidates peerId nodeId).insertionSort fun left right =>
        rank left ≤ rank right with
    | nil =>
      rw [arranged] at perm
      rw [← perm.mem_iff] at member
      cases member
    | cons head tail =>
      rw [arranged] at sorted perm nodup
      have first : head.1 = winner.1 := by
        apply id_of_rank
        apply le_antisymm
        · rcases List.mem_cons.mp (perm.mem_iff.mpr member) with rfl | later
          · exact le_refl _
          · exact (List.pairwise_cons.mp sorted).1 winner later
        · exact least head (perm.mem_iff.mp List.mem_cons_self)
      have apart : head.1 ∉ tail.map Prod.fst := (List.nodup_cons.mp nodup).1
      rw [List.drop_succ_cons, List.drop_zero]
      constructor
      · intro kept
        rcases List.mem_cons.mp (perm.mem_iff.mpr candidate) with rfl | later
        · exact first
        · exact absurd (List.mem_map_of_mem later) kept
      · intro same
        rw [same, ← first]
        exact apart

end LinkState

/-! ### Two ends -/

/-- A connection as one of its ends has it before it observes anything: dialed at an address, or accepted
at one. -/
inductive Side where
  | dials (dialed : Multiaddr)
  | accepts (accepted : Multiaddr)

namespace Side

def isDialer : Side → Bool
  | dials _ => true
  | accepts _ => false

/-- An accepting end observes an address of the other one. -/
def endpoint (side : Side) (observed : Multiaddr) : ConnectedPoint :=
  match side with
  | dials dialed => .dialer dialed
  | accepts accepted => .listener accepted observed

end Side

/-- A connection between two nodes. After a hole punch both ends have dialed it. -/
structure Wire where
  first : Side
  second : Side

section Preference

variable (localPeerId peerId : P.PeerId)

/-- The rank at an end as far as it does not depend on what the end observes: the transport, the
initiator, and the dialed address of a connection of its own. -/
def settledKey (side : Side) : Nat ×ₗ Nat ×ₗ List Nat :=
  (connectionPreference localPeerId peerId (side.endpoint [])).key

theorem transport_endpoint (side : Side) (observed : Multiaddr) :
    (connectionPreference localPeerId peerId (side.endpoint observed)).transport =
      transportOf (side.endpoint []) := by
  cases side with
  | dials dialed => rfl
  | accepts accepted => rfl

theorem initiator_endpoint (side : Side) (observed : Multiaddr) :
    (connectionPreference localPeerId peerId (side.endpoint observed)).initiator =
      if side.isDialer ==
          decide (byteOrder (P.peerIdToBytes localPeerId) < byteOrder (P.peerIdToBytes peerId))
        then 0 else 1 := by
  cases side with
  | dials dialed => rfl
  | accepts accepted => rfl

/-- Equal initiators were dialed alike. -/
theorem isDialer_of_initiator {left right : Side} {observed observed' : Multiaddr}
    (same : (connectionPreference localPeerId peerId (left.endpoint observed)).initiator =
      (connectionPreference localPeerId peerId (right.endpoint observed')).initiator) :
    left.isDialer = right.isDialer := by
  rw [initiator_endpoint, initiator_endpoint] at same
  generalize decide (byteOrder _ < byteOrder _) = canonical at same
  generalize left.isDialer = dials at same ⊢
  generalize right.isDialer = dials' at same ⊢
  revert dials dials' canonical
  decide

/-- A settled rank stays settled whatever is observed. -/
theorem key_lt_of_settled {left right : Side}
    (less : settledKey localPeerId peerId left < settledKey localPeerId peerId right)
    (observed observed' : Multiaddr) :
    (connectionPreference localPeerId peerId (left.endpoint observed)).key <
      (connectionPreference localPeerId peerId (right.endpoint observed')).key := by
  unfold settledKey ConnectionPreference.key at less
  unfold ConnectionPreference.key
  rw [Prod.Lex.toLex_lt_toLex, Prod.Lex.toLex_lt_toLex] at less ⊢
  dsimp only at less ⊢
  simp only [transport_endpoint, initiator_endpoint] at less ⊢
  rcases less with faster | ⟨sameTransport, preferred | ⟨sameInitiator, address⟩⟩
  · exact .inl faster
  · exact .inr ⟨sameTransport, .inl preferred⟩
  · refine .inr ⟨sameTransport, .inr ⟨sameInitiator, ?_⟩⟩
    have alike : left.isDialer = right.isDialer := by
      apply @isDialer_of_initiator P localPeerId peerId left right [] []
      rw [initiator_endpoint, initiator_endpoint]
      exact UInt8.toNat_inj.mp sameInitiator
    cases left with
    | dials dialed =>
      cases right with
      | dials dialed' => exact address
      | accepts accepted => cases alike
    | accepts accepted =>
      cases right with
      | dials dialed => cases alike
      | accepts accepted' => exact absurd address (lt_irrefl _)

end Preference

section Ends

variable {ι : Type}

/-- The connections of the state to the node are those of `ids`. -/
structure LinkState.Holds (state : LinkState P) (peerId : P.PeerId) (nodeId : NodeId)
    (ids : ι → ConnectionId) (endpoints : ι → ConnectedPoint) : Prop where
  distinct : Function.Injective ids
  listed : ∀ i, state.connections[ids i]? = some ⟨peerId, nodeId, endpoints i⟩
  only : ∀ id info, state.connections[id]? = some info → info.nodeId = nodeId → ∃ i, ids i = id

/-- Arbitration closes all connections but one. -/
def LinkState.KeepsOnly (state : LinkState P) (peerId : P.PeerId) (nodeId : NodeId)
    (ids : ι → ConnectionId) (kept : ι) : Prop :=
  ∀ i, ids i ∉ state.arbitrateConnections peerId nodeId ↔ i = kept

variable {state : LinkState P} {peerId : P.PeerId} {nodeId : NodeId} {ids : ι → ConnectionId}
  {endpoints : ι → ConnectedPoint}

theorem LinkState.Holds.keepsOnly (holds : state.Holds peerId nodeId ids endpoints) {kept : ι}
    (least : ∀ i, LinkState.rank (ids kept, connectionPreference state.localPeerId peerId (endpoints kept)) ≤
      LinkState.rank (ids i, connectionPreference state.localPeerId peerId (endpoints i))) :
    state.KeepsOnly peerId nodeId ids kept := by
  have member (i : ι) : (ids i, connectionPreference state.localPeerId peerId (endpoints i)) ∈
      state.candidates peerId nodeId :=
    LinkState.mem_candidates.mpr ⟨_, holds.listed i, rfl, rfl⟩
  intro i
  rw [← holds.distinct.eq_iff]
  refine LinkState.not_mem_arbitrateConnections (member kept) ?_ (member i)
  intro other candidate
  obtain ⟨info, found, named, preference⟩ := LinkState.mem_candidates.mp candidate
  obtain ⟨j, same⟩ := holds.only other.1 info found named
  have listed := holds.listed j
  rw [same, found] at listed
  obtain rfl := Option.some.inj listed
  have whole : other = (ids j, connectionPreference state.localPeerId peerId (endpoints j)) := by
    rw [same, ← preference]
  rw [whole]
  exact least j

theorem LinkState.KeepsOnly.unique {kept other : ι} (keeps : state.KeepsOnly peerId nodeId ids kept)
    (keeps' : state.KeepsOnly peerId nodeId ids other) : kept = other :=
  (keeps' kept).mp ((keeps kept).mpr rfl)

/-- The state of an end that has these connections and no others. -/
def LinkState.having (state : LinkState P) (peerId : P.PeerId) (nodeId : NodeId) (all : List ι)
    (ids : ι → ConnectionId) (endpoints : ι → ConnectedPoint) : LinkState P :=
  let entry (i : ι) : ConnectionId × ConnectionInfo P := (ids i, ⟨peerId, nodeId, endpoints i⟩)
  { state with connections := .ofList (all.map entry) compare }

theorem LinkState.holds_having (state : LinkState P) (peerId : P.PeerId) (nodeId : NodeId) {all : List ι}
    (complete : ∀ i, i ∈ all) (nodup : all.Nodup) (distinct : Function.Injective ids)
    (endpoints : ι → ConnectedPoint) :
    (state.having peerId nodeId all ids endpoints).Holds peerId nodeId ids endpoints where
  distinct := distinct
  listed i := by
    refine Std.ExtTreeMap.getElem?_ofList_of_mem Std.ReflCmp.compare_self ?_
      (List.mem_map_of_mem (complete i))
    rw [List.pairwise_map]
    refine nodup.imp fun other same => other (distinct ?_)
    exact Std.LawfulEqOrd.eq_of_compare same
  only id info found _ := by
    have member : id ∈ (state.having peerId nodeId all ids endpoints).connections :=
      Std.ExtTreeMap.mem_iff_isSome_getElem?.mpr (by rw [found]; rfl)
    have listed := List.contains_iff_mem.mp (Std.ExtTreeMap.mem_ofList.mp member)
    rw [List.map_map, List.mem_map] at listed
    obtain ⟨i, _, same⟩ := listed
    exact ⟨i, same⟩

variable (first second : P.PeerId) (firstNode secondNode : NodeId) (wires : ι → Wire)

/-- Whatever the accepting ends observe and however the two ends number the connections, both keep the
same one and close all others. -/
def EndsAgree : Prop :=
  ∀ (observed observed' : ι → Multiaddr) (ids ids' : ι → ConnectionId) (here there : LinkState P),
    here.localPeerId = first → there.localPeerId = second →
    here.Holds second secondNode ids (fun i => (wires i).first.endpoint (observed i)) →
    there.Holds first firstNode ids' (fun i => (wires i).second.endpoint (observed' i)) →
    ∃ kept, here.KeepsOnly second secondNode ids kept ∧ there.KeepsOnly first firstNode ids' kept

/-- The connection is ahead of every other one at both ends before addresses are observed or connections
numbered. -/
def Decisive (kept : ι) : Prop :=
  ∀ i, i ≠ kept →
    settledKey first second (wires kept).first < settledKey first second (wires i).first ∧
      settledKey second first (wires kept).second < settledKey second first (wires i).second

variable {first second firstNode secondNode wires}

theorem LinkState.Holds.keepsOnly_of_key (holds : state.Holds peerId nodeId ids endpoints) {kept : ι}
    (ahead : ∀ i, i ≠ kept →
      (connectionPreference state.localPeerId peerId (endpoints kept)).key <
        (connectionPreference state.localPeerId peerId (endpoints i)).key) :
    state.KeepsOnly peerId nodeId ids kept := by
  apply holds.keepsOnly
  intro i
  by_cases same : i = kept
  · rw [same]
  · exact (Prod.Lex.toLex_lt_toLex.mpr (.inl (ahead i same))).le

theorem Decisive.endsAgree {kept : ι} (decisive : Decisive first second wires kept) :
    EndsAgree first second firstNode secondNode wires := by
  intro observed observed' ids ids' here there nameHere nameThere holds holds'
  subst nameHere nameThere
  refine ⟨kept, holds.keepsOnly_of_key fun i other => ?_, holds'.keepsOnly_of_key fun i other => ?_⟩
  · exact key_lt_of_settled _ _ (decisive i other).1 _ _
  · exact key_lt_of_settled _ _ (decisive i other).2 _ _

/-- Numbers that start with the given connection. -/
theorem exists_ids_from [Finite ι] (kept : ι) :
    ∃ ids : ι → ConnectionId, Function.Injective ids ∧ ∀ i, ids kept ≤ ids i := by
  classical
  obtain ⟨n, ⟨number⟩⟩ := Finite.exists_equiv_fin ι
  refine ⟨fun i => if i = kept then 0 else number i + 1, ?_, ?_⟩
  · intro i j same
    dsimp only at same
    split at same
    · rename_i left
      split at same
      · rename_i right
        exact left.trans right.symm
      · cases same
    · split at same
      · cases same
      · exact number.injective (Fin.val_injective (Nat.succ.inj same))
  · intro i
    dsimp only
    rw [if_pos rfl]
    exact Nat.zero_le _

/-- An end keeps a connection that none is ahead of if it numbers it first and observes nothing. -/
theorem LinkState.Holds.keepsOnly_of_first (holds : state.Holds peerId nodeId ids endpoints) {kept : ι}
    (least : ∀ i, (connectionPreference state.localPeerId peerId (endpoints kept)).key ≤
      (connectionPreference state.localPeerId peerId (endpoints i)).key)
    (numbered : ∀ i, ids kept ≤ ids i) : state.KeepsOnly peerId nodeId ids kept := by
  apply holds.keepsOnly
  intro i
  rw [LinkState.rank, LinkState.rank, Prod.Lex.toLex_le_toLex]
  rcases (least i).lt_or_eq with less | same
  · exact .inl less
  · exact .inr ⟨same, numbered i⟩

theorem EndsAgree.same [Finite ι] (agree : EndsAgree first second firstNode secondNode wires) {i j : ι}
    (least : ∀ other, settledKey first second (wires i).first ≤
      settledKey first second (wires other).first)
    (least' : ∀ other, settledKey second first (wires j).second ≤
      settledKey second first (wires other).second) : i = j := by
  have := Fintype.ofFinite ι
  obtain ⟨ids, distinct, from'⟩ := exists_ids_from i
  obtain ⟨ids', distinct', from''⟩ := exists_ids_from j
  let here : LinkState P := .new firstNode first (.new (.ofNat 0))
  let there : LinkState P := .new secondNode second (.new (.ofNat 0))
  have complete : ∀ k : ι, k ∈ Finset.univ.toList := fun k => Finset.mem_toList.mpr (Finset.mem_univ k)
  have holds := here.holds_having second secondNode complete (Finset.nodup_toList _) distinct
    fun k => (wires k).first.endpoint []
  have holds' := there.holds_having first firstNode complete (Finset.nodup_toList _) distinct'
    fun k => (wires k).second.endpoint []
  obtain ⟨kept, keeps, keeps'⟩ := agree (fun _ => []) (fun _ => []) ids ids' _ _ rfl rfl holds holds'
  have one := keeps.unique (holds.keepsOnly_of_first least from')
  have two := keeps'.unique (holds'.keepsOnly_of_first least' from'')
  exact one.symm.trans two

/-- The two ends agree on which of several connections survives, and it alone does, exactly when one of
them is ahead of the others before addresses are observed and connections are numbered. -/
theorem ends_agree_iff [Finite ι] [Nonempty ι] (first second : P.PeerId) (firstNode secondNode : NodeId)
    (wires : ι → Wire) :
    EndsAgree first second firstNode secondNode wires ↔ ∃ kept, Decisive first second wires kept := by
  constructor
  · intro agree
    obtain ⟨i, least⟩ := Finite.exists_min fun k => settledKey first second (wires k).first
    obtain ⟨j, least'⟩ := Finite.exists_min fun k => settledKey second first (wires k).second
    have same := agree.same least least'
    subst same
    refine ⟨i, fun other different => ⟨lt_of_le_of_ne (least other) ?_, lt_of_le_of_ne (least' other) ?_⟩⟩
    · intro tie
      exact different (agree.same (fun k => tie ▸ least k) least')
    · intro tie
      exact different (agree.same least fun k => tie ▸ least' k).symm
  · rintro ⟨kept, decisive⟩
    exact decisive.endsAgree

end Ends

/-! ### Two connections -/

section Pair
open Transparent

def pairHost : Protocol := .other [0x04, 127, 0, 0, 1]

/-- UDP on port 7000. -/
def pairUdp : Protocol := .other [0x91, 0x02, 0x1b, 0x58]

/-- The founder dials the member over QUIC and over TCP. -/
def pairWires (i : Fin 2) : Wire :=
  if i = 0 then ⟨.dials [pairHost, pairUdp, .quicV1], .accepts [pairHost, pairUdp, .quicV1]⟩
  else ⟨.dials [pairHost, .tcp 7000], .accepts [pairHost, .tcp 7000]⟩

theorem pair_agrees :
    EndsAgree founder.peerId member.peerId founder.nodeId member.nodeId pairWires :=
  (ends_agree_iff founder.peerId member.peerId founder.nodeId member.nodeId pairWires).mpr
    ⟨0, by unfold Decisive; decide +kernel⟩

/-- The founder dials the member twice over TCP; the member sees two ports of the founder. -/
def twiceWires (_ : Fin 2) : Wire := ⟨.dials [pairHost, .tcp 7000], .accepts [pairHost, .tcp 7000]⟩

def twiceObserved (i : Fin 2) : Multiaddr := if i = 0 then [pairHost, .tcp 50002] else [pairHost, .tcp 50001]

def twiceIds (i : Fin 2) : ConnectionId := i + 1

def twiceHere : LinkState primitives :=
  (LinkState.new founder.nodeId founder.peerId (.new cluster)).having member.peerId member.nodeId
    (List.finRange 2) twiceIds fun i => (twiceWires i).first.endpoint (twiceObserved i)

def twiceThere : LinkState primitives :=
  (LinkState.new member.nodeId member.peerId (.new cluster)).having founder.peerId founder.nodeId
    (List.finRange 2) twiceIds fun i => (twiceWires i).second.endpoint (twiceObserved i)

/-- The founder closes the second connection and the member the first, so none survives. -/
theorem both_connections_closed :
    twiceHere.arbitrateConnections member.peerId member.nodeId = [2] ∧
    twiceThere.arbitrateConnections founder.peerId founder.nodeId = [1] ∧
    ¬ EndsAgree founder.peerId member.peerId founder.nodeId member.nodeId twiceWires := by
  have here : twiceHere.arbitrateConnections member.peerId member.nodeId = [2] := by decide +kernel
  have there : twiceThere.arbitrateConnections founder.peerId founder.nodeId = [1] := by decide +kernel
  refine ⟨here, there, fun agree => ?_⟩
  have distinct : Function.Injective twiceIds := fun i j same => Fin.ext (Nat.succ.inj same)
  obtain ⟨kept, keeps, keeps'⟩ := agree twiceObserved twiceObserved twiceIds twiceIds twiceHere twiceThere rfl rfl
    (LinkState.holds_having _ _ _ List.mem_finRange (List.nodup_finRange 2) distinct _)
    (LinkState.holds_having _ _ _ List.mem_finRange (List.nodup_finRange 2) distinct _)
  have first := (keeps 0).mp (by rw [here]; decide)
  have second := (keeps' 1).mp (by rw [there]; decide)
  exact absurd (first.trans second.symm) (by decide)

end Pair

end Lycoris.Link
