import Lycoris.Lib.HashTree
import Lycoris.Cluster.Membership

/-!
The fixed-depth Merkle tree over a membership (`membership/src/merkle.rs`). The build skips empty
subtrees; `buildNodes_built` says that it still holds, at every node, the value of the plain
recursion over the leaf buckets.
-/

namespace Lycoris.Cluster
open Lib

abbrev Bytes := List UInt8

def utf8 (text : String) : Bytes := text.toUTF8.toList

/-- `u64::to_be_bytes`. -/
def toBeBytes (value : UInt64) : Bytes :=
  (List.range 8).map fun i => UInt8.ofNat (value.toNat / 256 ^ (7 - i))

abbrev Hash := Vector UInt8 32

/-- `<[u8; 32]>::try_from`. -/
def hashFromBytes (bytes : Bytes) : Option Hash :=
  if length : bytes.length = 32 then some ⟨bytes.toArray, length⟩ else none

theorem hashFromBytes_toList (hash : Hash) : hashFromBytes hash.toList = some hash := by
  obtain ⟨array, size⟩ := hash
  simp [hashFromBytes, Vector.toList, size]

@[irreducible] def merkleTreeDepth : Nat := 16

theorem merkleTreeDepth_lt : merkleTreeDepth < 256 := by
  unfold merkleTreeDepth
  omega

def leafPrefix : Bytes := [76]
def innerPrefix : Bytes := [73]
def emptyPrefix : Bytes := [69]

/-! ### Hashed strings -/

def entryBytes (map : StringMap) : Bytes :=
  map.toList.flatMap fun entry => utf8 entry.1 ++ utf8 "=" ++ utf8 entry.2 ++ utf8 "\n"

def registerBytes (register : MemberRegister) : Bytes :=
  leafPrefix ++ utf8 register.nodeId ++ [0] ++ utf8 register.address ++ [0] ++
    [register.state.asU8] ++ toBeBytes register.incarnation ++
    entryBytes register.labels ++ entryBytes register.annotations

def bucketBytes (bucket : List (String × Hash)) : Bytes :=
  leafPrefix ++ bucket.flatMap fun entry => utf8 entry.1 ++ [0] ++ entry.2.toList

def innerBytes (left right : Hash) : Bytes := innerPrefix ++ left.toList ++ right.toList

variable (blake3 : Bytes → Hash)

def hashRegister (register : MemberRegister) : Hash := blake3 (registerBytes register)

def hashEmpty : Hash := blake3 emptyPrefix

def hashLeafBucket (bucket : List (String × Hash)) : Hash :=
  if bucket.isEmpty then hashEmpty blake3 else blake3 (bucketBytes bucket)

def hashInner (left right : Hash) : Hash := blake3 (innerBytes left right)

def leafIndex (nodeId : String) : Nat :=
  let bytes := (blake3 (utf8 nodeId)).toList
  let byteCount := merkleTreeDepth / 8
  let extraBits := merkleTreeDepth % 8
  let idx := (bytes.take byteCount).foldl (fun idx byte => (idx <<< 8) ||| byte.toNat) 0
  if extraBits > 0 then (idx <<< extraBits) ||| ((bytes.getD byteCount 0).toNat >>> (8 - extraBits))
  else idx

/-! ### The tree -/

/-- `nodes` and `buckets` are vectors, read at their indices in range. -/
structure MerkleTree where
  nodes : Nat → Hash
  buckets : Nat → List (String × Hash)
  emptyHashes : List Hash

def flatIndex (depth index : Nat) : Nat := 2 ^ depth + index

/-- The hashes of empty subtrees by depth, from the root to a leaf. -/
def emptyHashes : List Hash :=
  ((List.range merkleTreeDepth).foldl
    (fun (acc : List Hash × Hash) _ =>
      (acc.1 ++ [hashInner blake3 acc.2 acc.2], hashInner blake3 acc.2 acc.2))
    ([hashEmpty blake3], hashEmpty blake3)).1.reverse

def fillLevel (nodes : Nat → Hash) (depth : Nat) (value : Hash) : Nat → Hash :=
  fun i => if 2 ^ depth ≤ i ∧ i < 2 ^ (depth + 1) then value else nodes i

def prefilled : Nat → Hash :=
  (List.range merkleTreeDepth).foldl
    (fun nodes depth => fillLevel nodes depth ((emptyHashes blake3).getD depth (hashEmpty blake3)))
    (fun _ => hashEmpty blake3)

def pushRegister (buckets : Nat → List (String × Hash)) (register : MemberRegister) :
    Nat → List (String × Hash) :=
  let idx := leafIndex blake3 register.nodeId
  Function.update buckets idx (buckets idx ++ [(register.nodeId, hashRegister blake3 register)])

def sortBucket (bucket : List (String × Hash)) : List (String × Hash) :=
  bucket.mergeSort fun a b => a.1 ≤ b.1

def leafStep (buckets : Nat → List (String × Hash)) (_ : Nat → Hash) (i : Nat) : Option Hash :=
  if (buckets i).isEmpty then none else some (hashLeafBucket blake3 (buckets i))

def innerStep (depth : Nat) (nodes : Nat → Hash) (i : Nat) : Option Hash :=
  let emptyChild := (emptyHashes blake3).getD (depth + 1) (hashEmpty blake3)
  let left := nodes (flatIndex (depth + 1) (2 * i))
  let right := nodes (flatIndex (depth + 1) (2 * i + 1))
  if left = emptyChild ∧ right = emptyChild then none else some (hashInner blake3 left right)

/-- One level of the bottom-up pass. -/
def buildLevel (nodes : Nat → Hash) (depth : Nat) : Nat → Hash :=
  (List.range (2 ^ depth)).foldl (writeSlot (flatIndex depth) (innerStep blake3 depth)) nodes

def memberBuckets (membership : Membership) (order : HashOrder MemberRegister) (i : Nat) :
    List (String × Hash) :=
  sortBucket ((membership.all order).foldl (pushRegister blake3) (fun _ => []) i)

def leafNodes (buckets : Nat → List (String × Hash)) : Nat → Hash :=
  (List.range (2 ^ merkleTreeDepth)).foldl
    (writeSlot (flatIndex merkleTreeDepth) (leafStep blake3 buckets)) (prefilled blake3)

def buildNodes (buckets : Nat → List (String × Hash)) : Nat → Hash :=
  (List.range merkleTreeDepth).reverse.foldl (buildLevel blake3) (leafNodes blake3 buckets)

namespace MerkleTree

def fromMembership (membership : Membership) (order : HashOrder MemberRegister) : MerkleTree where
  nodes := buildNodes blake3 (memberBuckets blake3 membership order)
  buckets := memberBuckets blake3 membership order
  emptyHashes := Cluster.emptyHashes blake3

def emptySubtreeHash (tree : MerkleTree) (depth : Nat) : Option Hash := tree.emptyHashes[depth]?

def rootHash (tree : MerkleTree) : Hash := tree.nodes 1

def nodeHash (tree : MerkleTree) (depth index : Nat) : Option Hash :=
  if depth > merkleTreeDepth then none
  else if index ≥ 2 ^ depth then none
  else some (tree.nodes (flatIndex depth index))

def leafEntries (tree : MerkleTree) (index : Nat) : Option (List (String × Hash)) :=
  if index ≥ 2 ^ merkleTreeDepth then none else some (tree.buckets index)

/-- The ids under a node, `levels` above the leaves. -/
def collectLevels (tree : MerkleTree) : Nat → Nat → List String
  | 0, index => ((tree.leafEntries index).map fun entries => entries.map Prod.fst).getD []
  | levels + 1, index =>
    tree.collectLevels levels (2 * index) ++ tree.collectLevels levels (2 * index + 1)

def collectNodeIds (tree : MerkleTree) (depth index : Nat) : List String :=
  if depth > merkleTreeDepth then [] else tree.collectLevels (merkleTreeDepth - depth) index

end MerkleTree

/-! ### The flat layout -/

theorem flatIndex_inj {depth depth' index index' : Nat} (inRange : index < 2 ^ depth)
    (inRange' : index' < 2 ^ depth') (same : flatIndex depth index = flatIndex depth' index') :
    depth = depth' ∧ index = index' := by
  have above : ∀ {d d' : Nat}, d < d' → 2 * 2 ^ d ≤ 2 ^ d' := by
    intro d d' less
    rw [← Nat.pow_succ']
    exact Nat.pow_le_pow_right (by omega) less
  unfold flatIndex at same
  rcases lt_trichotomy depth depth' with less | equal | greater
  · have gap := above less
    omega
  · subst equal
    exact ⟨rfl, by omega⟩
  · have gap := above greater
    omega

theorem emptyHashes_getD {depth : Nat} (within : depth ≤ merkleTreeDepth) :
    (emptyHashes blake3).getD depth (hashEmpty blake3) =
      uniform (hashInner blake3) (hashEmpty blake3) (merkleTreeDepth - depth) := by
  have ladder : ∀ n, (List.range n).foldl
      (fun (acc : List Hash × Hash) _ =>
        (acc.1 ++ [hashInner blake3 acc.2 acc.2], hashInner blake3 acc.2 acc.2))
      ([hashEmpty blake3], hashEmpty blake3) =
      ((List.range (n + 1)).map (uniform (hashInner blake3) (hashEmpty blake3)),
        uniform (hashInner blake3) (hashEmpty blake3) n) := by
    intro n
    induction n with
    | zero => rfl
    | succ n ih =>
      rw [List.range_succ, List.foldl_append, ih, List.range_succ (n := n + 1), List.map_append]
      rfl
  have length : ((List.range (merkleTreeDepth + 1)).map
      (uniform (hashInner blake3) (hashEmpty blake3))).length = merkleTreeDepth + 1 := by
    rw [List.length_map, List.length_range]
  have fromTop : merkleTreeDepth + 1 - 1 - depth = merkleTreeDepth - depth := by omega
  rw [emptyHashes, ladder]
  dsimp only
  rw [List.getD_eq_getElem?_getD, List.getElem?_reverse (by omega), length, fromTop,
    List.getElem?_map, List.getElem?_range (by omega), Option.map_some, Option.getD_some]

theorem prefilled_flatIndex {depth index : Nat} (within : depth ≤ merkleTreeDepth)
    (inRange : index < 2 ^ depth) :
    prefilled blake3 (flatIndex depth index) =
      uniform (hashInner blake3) (hashEmpty blake3) (merkleTreeDepth - depth) := by
  have levels : ∀ n ≤ merkleTreeDepth, (List.range n).foldl
      (fun nodes depth => fillLevel nodes depth ((emptyHashes blake3).getD depth (hashEmpty blake3)))
      (fun _ => hashEmpty blake3) (flatIndex depth index) =
      if depth < n then uniform (hashInner blake3) (hashEmpty blake3) (merkleTreeDepth - depth)
      else hashEmpty blake3 := by
    intro n bound
    induction n with
    | zero => rfl
    | succ n ih =>
      rw [List.range_succ, List.foldl_append, List.foldl_cons, List.foldl_nil, fillLevel]
      by_cases here : depth = n
      · subst here
        have inside : 2 ^ depth ≤ flatIndex depth index ∧
            flatIndex depth index < 2 ^ (depth + 1) := by
          unfold flatIndex
          omega
        rw [if_pos inside, if_pos (by omega), emptyHashes_getD blake3 within]
      · have outside : ¬ (2 ^ n ≤ flatIndex depth index ∧ flatIndex depth index < 2 ^ (n + 1)) := by
          rintro ⟨low, high⟩
          have again : flatIndex depth index = flatIndex n (flatIndex depth index - 2 ^ n) := by
            rw [flatIndex.eq_1 n]
            omega
          exact here (flatIndex_inj inRange (by omega) again).1
        rw [if_neg outside, ih (by omega)]
        by_cases before : depth < n
        · rw [if_pos before, if_pos (by omega)]
        · rw [if_neg before, if_neg (by omega)]
  rw [prefilled, levels merkleTreeDepth (Nat.le_refl _)]
  by_cases leaf : depth < merkleTreeDepth
  · rw [if_pos leaf]
  · rw [if_neg leaf]
    have bottom : merkleTreeDepth - depth = 0 := by omega
    rw [bottom]
    rfl

/-! ### The bottom-up pass -/

section Build

variable {leaf : Nat → Hash}

/-- The nodes of one level hold their subtrees over the given leaves. -/
def LevelBuilt (leaf : Nat → Hash) (nodes : Nat → Hash) (depth : Nat) : Prop :=
  ∀ index < 2 ^ depth, nodes (flatIndex depth index) =
    subtree (hashInner blake3) leaf (merkleTreeDepth - depth) index

/-- The nodes of one level still hold the hash of an empty subtree. -/
def LevelEmpty (nodes : Nat → Hash) (depth : Nat) : Prop :=
  ∀ index < 2 ^ depth, nodes (flatIndex depth index) =
    uniform (hashInner blake3) (hashEmpty blake3) (merkleTreeDepth - depth)

theorem buildLevel_other {nodes : Nat → Hash} {depth other index : Nat} (differ : depth ≠ other)
    (inRange : index < 2 ^ other) :
    buildLevel blake3 nodes depth (flatIndex other index) = nodes (flatIndex other index) := by
  apply foldl_writeSlot_other
  intro i small same
  exact differ (flatIndex_inj small inRange same).1

theorem buildLevel_built {nodes : Nat → Hash} {depth : Nat} (within : depth < merkleTreeDepth)
    (children : LevelBuilt blake3 leaf nodes (depth + 1)) (empty : LevelEmpty blake3 nodes depth) :
    LevelBuilt blake3 leaf (buildLevel blake3 nodes depth) depth := by
  intro index inRange
  have twice : 2 ^ (depth + 1) = 2 * 2 ^ depth := Nat.pow_succ'
  have written : buildLevel blake3 nodes depth (flatIndex depth index) =
      (innerStep blake3 depth nodes index).getD (nodes (flatIndex depth index)) := by
    apply foldl_writeSlot_self nodes _ _ inRange
    · intro i small j small' same
      exact (flatIndex_inj small small' same).2
    · intro before untouched i small
      have child : ∀ c < 2 ^ (depth + 1),
          before (flatIndex (depth + 1) c) = nodes (flatIndex (depth + 1) c) := by
        intro c inside
        apply untouched
        intro j small' same
        have equal := (flatIndex_inj small' inside same).1
        omega
      rw [innerStep, innerStep, child _ (by omega), child _ (by omega)]
  have level : merkleTreeDepth - depth = (merkleTreeDepth - (depth + 1)) + 1 := by omega
  rw [written, innerStep, children _ (by omega), children _ (by omega), emptyHashes_getD blake3 within,
    level, subtree]
  -- A node with two empty children is left alone: the level was filled with that very hash.
  split
  · rename_i both
    rw [Option.getD_none, empty index inRange, level, uniform, both.1, both.2]
  · rfl

theorem foldl_buildLevel (n : Nat) (within : n ≤ merkleTreeDepth) {nodes : Nat → Hash}
    (below : ∀ depth, n ≤ depth → depth ≤ merkleTreeDepth → LevelBuilt blake3 leaf nodes depth)
    (above : ∀ depth < n, LevelEmpty blake3 nodes depth) {depth : Nat}
    (inTree : depth ≤ merkleTreeDepth) :
    LevelBuilt blake3 leaf ((List.range n).reverse.foldl (buildLevel blake3) nodes) depth := by
  induction n generalizing nodes with
  | zero => exact below depth (Nat.zero_le _) inTree
  | succ n ih =>
    rw [List.range_succ, List.reverse_append, List.reverse_singleton, List.singleton_append,
      List.foldl_cons]
    apply ih (by omega)
    · intro level low high
      by_cases here : level = n
      · subst here
        exact buildLevel_built blake3 (by omega) (below (level + 1) (Nat.le_refl _) (by omega))
          (above level (by omega))
      · intro index inRange
        rw [buildLevel_other blake3 (fun same => here same.symm) inRange]
        exact below level (by omega) high index inRange
    · intro level low index inRange
      rw [buildLevel_other blake3 (by omega) inRange]
      exact above level (by omega) index inRange

theorem leafNodes_built (buckets : Nat → List (String × Hash)) :
    LevelBuilt blake3 (fun i => hashLeafBucket blake3 (buckets i)) (leafNodes blake3 buckets)
      merkleTreeDepth := by
  intro index inRange
  have written : leafNodes blake3 buckets (flatIndex merkleTreeDepth index) =
      (leafStep blake3 buckets (prefilled blake3) index).getD
        (prefilled blake3 (flatIndex merkleTreeDepth index)) := by
    apply foldl_writeSlot_self (prefilled blake3) _ _ inRange
    · intro i inside j inside' same
      exact (flatIndex_inj inside inside' same).2
    · intro before _ i _
      rfl
  rw [written, Nat.sub_self, subtree, leafStep]
  split
  · rename_i vacant
    rw [Option.getD_none, prefilled_flatIndex blake3 (Nat.le_refl _) inRange, Nat.sub_self,
      hashLeafBucket, if_pos vacant, uniform]
  · rfl

theorem leafNodes_empty (buckets : Nat → List (String × Hash)) {depth : Nat}
    (within : depth < merkleTreeDepth) :
    LevelEmpty blake3 (leafNodes blake3 buckets) depth := by
  intro index inRange
  have kept : leafNodes blake3 buckets (flatIndex depth index) =
      prefilled blake3 (flatIndex depth index) := by
    apply foldl_writeSlot_other
    intro i inside same
    have equal := (flatIndex_inj inside inRange same).1
    omega
  rw [kept, prefilled_flatIndex blake3 (by omega) inRange]

/-- The sparse build holds the plain recursion over the bucket hashes at every node. -/
theorem buildNodes_built (buckets : Nat → List (String × Hash)) {depth : Nat}
    (within : depth ≤ merkleTreeDepth) :
    LevelBuilt blake3 (fun i => hashLeafBucket blake3 (buckets i)) (buildNodes blake3 buckets)
      depth := by
  apply foldl_buildLevel blake3 merkleTreeDepth (Nat.le_refl _) _ _ within
  · intro level low high
    have bottom : level = merkleTreeDepth := by omega
    rw [bottom]
    exact leafNodes_built blake3 buckets
  · intro level small
    exact leafNodes_empty blake3 buckets small

end Build

/-! ### Buckets -/

theorem leafIndex_lt (nodeId : String) : leafIndex blake3 nodeId < 2 ^ merkleTreeDepth := by
  have twoBytes : ∀ a b : UInt8, ((0 <<< 8 ||| a.toNat) <<< 8) ||| b.toNat < 2 ^ 16 := by
    intro a b
    have small := a.toNat_lt
    rw [Nat.zero_shiftLeft, Nat.zero_or, Nat.shiftLeft_eq]
    exact Nat.or_lt_two_pow (by omega) (lt_trans b.toNat_lt (by norm_num))
  obtain ⟨a, b, rest, bytes⟩ : ∃ a b rest, (blake3 (utf8 nodeId)).toList = a :: b :: rest := by
    match listed : (blake3 (utf8 nodeId)).toList with
    | a :: b :: rest => exact ⟨a, b, rest, rfl⟩
    | [] => simpa [listed] using (blake3 (utf8 nodeId)).length_toList
    | [_] => simpa [listed] using (blake3 (utf8 nodeId)).length_toList
  simp only [leafIndex, merkleTreeDepth, bytes]
  exact twoBytes a b

def BeforeById (a b : String × Hash) : Prop := a.1 < b.1

instance : Std.Irrefl BeforeById := ⟨fun a => lt_irrefl a.1⟩

instance : Std.Antisymm BeforeById := ⟨fun _ _ less greater => absurd greater (lt_asymm less)⟩

theorem collected_eq (registers : List MemberRegister) (buckets : Nat → List (String × Hash))
    (i : Nat) :
    registers.foldl (pushRegister blake3) buckets i =
      buckets i ++ (registers.filter fun register => leafIndex blake3 register.nodeId = i).map
        fun register => (register.nodeId, hashRegister blake3 register) := by
  induction registers generalizing buckets with
  | nil => simp
  | cons register rest ih =>
    rw [List.foldl_cons, ih, pushRegister]
    by_cases here : leafIndex blake3 register.nodeId = i
    · subst here
      simp
    · rw [Function.update_of_ne (Ne.symm here), List.filter_cons_of_neg (by simpa using here)]

section Members

variable {membership : Membership} {order : HashOrder MemberRegister}

/-- A bucket holds the ids and hashes of the members that fall into it. -/
theorem mem_memberBuckets {entry : String × Hash} {i : Nat} :
    entry ∈ memberBuckets blake3 membership order i ↔
      leafIndex blake3 entry.1 = i ∧
        ∃ register, membership.get entry.1 = some register ∧
          hashRegister blake3 register = entry.2 := by
  rw [memberBuckets, sortBucket, List.mem_mergeSort, collected_eq, List.nil_append, List.mem_map]
  constructor
  · rintro ⟨register, kept, same⟩
    obtain ⟨listed, here⟩ := List.mem_filter.mp kept
    have member := KeyedMap.mem_iff.mp (KeyedMap.mem_iter.mp listed)
    rw [← same]
    exact ⟨of_decide_eq_true here, register, member, rfl⟩
  · rintro ⟨here, register, found, hash⟩
    have named := Membership.nodeId_of_get found
    refine ⟨register, List.mem_filter.mpr ⟨KeyedMap.mem_iter.mpr ?_, ?_⟩, ?_⟩
    · exact KeyedMap.mem_of_get? found
    · rw [named]
      exact decide_eq_true here
    · rw [named, hash]

theorem memberBuckets_sorted (i : Nat) :
    (memberBuckets blake3 membership order i).Pairwise BeforeById := by
  rw [memberBuckets, collected_eq, List.nil_append]
  let entries := ((membership.all order).filter fun register => leafIndex blake3 register.nodeId = i).map
    fun register => (register.nodeId, hashRegister blake3 register)
  show (sortBucket entries).Pairwise BeforeById
  have distinct : entries.Pairwise fun a b => a.1 ≠ b.1 := by
    have ids := (order.perm membership.members.vals).pairwise_iff (fun differ => Ne.symm differ)
      |>.mpr (List.pairwise_map.mp membership.members.nodup_keys)
    exact List.pairwise_map.mpr (ids.filter _)
  have sorted : (sortBucket entries).Pairwise fun a b => decide (a.1 ≤ b.1) = true :=
    List.pairwise_mergeSort
      (fun a b c first second => by simpa using le_trans (by simpa using first) (by simpa using second))
      (fun a b => by simpa using le_total a.1 b.1) entries
  have apart := (List.mergeSort_perm entries fun a b => decide (a.1 ≤ b.1)).pairwise_iff
    (fun differ => Ne.symm differ) |>.mpr distinct
  refine (sorted.and apart).imp ?_
  rintro a b ⟨le, differ⟩
  exact lt_of_le_of_ne (of_decide_eq_true le) differ

end Members

theorem hashRegister_congr {r s : MemberRegister} (same : r.hashedFields = s.hashedFields) :
    hashRegister blake3 r = hashRegister blake3 s := by
  obtain ⟨nodeId, address, state, incarnation, labels, annotations⟩ := HashedFields.mk.inj same
  rw [hashRegister, hashRegister, registerBytes, registerBytes, nodeId, address, state, incarnation,
    labels, annotations]

/-- The tree is a function of the hashed fields: neither the iteration order nor the rest of the
registers matters. -/
theorem MerkleTree.fromMembership_congr {m m' : Membership}
    (same : ∀ nodeId, (m.get nodeId).map MemberRegister.hashedFields =
      (m'.get nodeId).map MemberRegister.hashedFields) (order order' : HashOrder MemberRegister) :
    fromMembership blake3 m order = fromMembership blake3 m' order' := by
  have oneWay : ∀ {m m' : Membership} {order order' : HashOrder MemberRegister},
      (∀ nodeId, (m.get nodeId).map MemberRegister.hashedFields =
        (m'.get nodeId).map MemberRegister.hashedFields) →
      ∀ i entry, entry ∈ memberBuckets blake3 m order i → entry ∈ memberBuckets blake3 m' order' i := by
    intro m m' order order' same i entry member
    obtain ⟨here, register, found, hash⟩ := (mem_memberBuckets blake3).mp member
    have agree := same entry.1
    rw [found, Option.map_some] at agree
    obtain ⟨register', found', fields⟩ := Option.map_eq_some_iff.mp agree.symm
    exact (mem_memberBuckets blake3).mpr
      ⟨here, register', found', (hashRegister_congr blake3 fields).trans hash⟩
  have buckets : memberBuckets blake3 m order = memberBuckets blake3 m' order' := by
    funext i
    apply (memberBuckets_sorted blake3 i).eq_of_mem_iff (memberBuckets_sorted blake3 i)
    intro entry
    exact ⟨oneWay same i entry, oneWay (fun nodeId => (same nodeId).symm) i entry⟩
  unfold fromMembership
  rw [buckets]

end Lycoris.Cluster
