import Lycoris.Cluster.Merkle

/-!
What equal hashes say about two trees. blake3 stands for any function that has no collision among
the strings the two builds hash; equal nodes then have equal buckets below them.
-/

namespace Lycoris.Cluster
open Lib

variable {blake3 : Bytes → Hash}

/-- The strings that a build hashes: the empty leaf, the ladder of empty subtrees, the buckets in use
and the inner nodes. -/
inductive Hashed (blake3 : Bytes → Hash) (tree : MerkleTree) : Bytes → Prop
  | empty : Hashed blake3 tree emptyPrefix
  | ladder {height : Nat} (within : height < merkleTreeDepth) :
      Hashed blake3 tree
        (innerBytes (uniform (hashInner blake3) (hashEmpty blake3) height)
          (uniform (hashInner blake3) (hashEmpty blake3) height))
  | bucket {index : Nat} (inRange : index < 2 ^ merkleTreeDepth) (occupied : tree.buckets index ≠ []) :
      Hashed blake3 tree (bucketBytes (tree.buckets index))
  | inner {depth index : Nat} (within : depth < merkleTreeDepth) (inRange : index < 2 ^ depth) :
      Hashed blake3 tree
        (innerBytes (tree.nodes (flatIndex (depth + 1) (2 * index)))
          (tree.nodes (flatIndex (depth + 1) (2 * index + 1))))

/-- No two of the strings that the two builds hash collide. -/
def CollisionFree (blake3 : Bytes → Hash) (tree tree' : MerkleTree) : Prop :=
  Set.InjOn blake3 {bytes | Hashed blake3 tree bytes ∨ Hashed blake3 tree' bytes}

theorem CollisionFree.symm {blake3 : Bytes → Hash} {tree tree' : MerkleTree}
    (free : CollisionFree blake3 tree tree') : CollisionFree blake3 tree' tree := by
  refine Set.InjOn.mono ?_ free
  exact fun bytes hashed => hashed.symm

/-! ### Encodings -/

theorem innerBytes_inj {left right left' right' : Hash}
    (same : innerBytes left right = innerBytes left' right') : left = left' ∧ right = right' := by
  unfold innerBytes at same
  rw [List.append_assoc, List.append_assoc] at same
  have halves := List.append_cancel_left same
  have lengths : left.toList.length = left'.toList.length := by
    rw [Vector.length_toList, Vector.length_toList]
  obtain ⟨first, second⟩ := List.append_inj halves lengths
  exact ⟨Vector.toList_inj.mp first, Vector.toList_inj.mp second⟩

theorem emptyPrefix_ne_bucketBytes (bucket : List (String × Hash)) :
    emptyPrefix ≠ bucketBytes bucket := by
  intro same
  have heads := congrArg List.head? same
  simp [bucketBytes, emptyPrefix, leafPrefix] at heads

/-- Two buckets with one encoding are equal when a register hash gives its node id away. The hashes
are read from the end: ids are not delimited from the front. -/
theorem bucketBytes_inj {bucket bucket' : List (String × Hash)}
    (named : ∀ entry ∈ bucket, ∀ entry' ∈ bucket', entry.2 = entry'.2 → entry.1 = entry'.1)
    (same : bucketBytes bucket = bucketBytes bucket') : bucket = bucket' := by
  let encode := fun entry : String × Hash => utf8 entry.1 ++ [0] ++ entry.2.toList
  have long : ∀ entry, 0 < (encode entry).length := by
    intro entry
    simp [encode]
  have bodies : bucket.flatMap encode = bucket'.flatMap encode := List.append_cancel_left same
  clear same
  induction bucket using List.reverseRecOn generalizing bucket' with
  | nil =>
    cases bucket' with
    | nil => rfl
    | cons entry rest =>
      have lengths := congrArg List.length bodies
      have positive := long entry
      simp only [List.flatMap_nil, List.length_nil, List.flatMap_cons, List.length_append] at lengths
      omega
  | append_singleton front last ih =>
    rcases List.eq_nil_or_concat bucket' with none | ⟨front', last', concat⟩
    · have lengths := congrArg List.length bodies
      have positive := long last
      rw [none] at lengths
      simp only [List.flatMap_append, List.flatMap_singleton, List.length_append, List.flatMap_nil,
        List.length_nil] at lengths
      omega
    · rw [List.concat_eq_append] at concat
      subst concat
      simp only [List.flatMap_append, List.flatMap_singleton] at bodies
      have regrouped : (front.flatMap encode ++ (utf8 last.1 ++ [0])) ++ last.2.toList =
          (front'.flatMap encode ++ (utf8 last'.1 ++ [0])) ++ last'.2.toList := by
        rw [List.append_assoc (front.flatMap encode), List.append_assoc (front'.flatMap encode)]
        exact bodies
      have lengths : last.2.toList.length = last'.2.toList.length := by
        rw [Vector.length_toList, Vector.length_toList]
      have hashes : last.2 = last'.2 := Vector.toList_inj.mp (List.append_inj' regrouped lengths).2
      have ids := named last (by simp) last' (by simp) hashes
      have lasts : last = last' := Prod.ext ids hashes
      subst lasts
      rw [ih (fun entry member entry' member' => named entry (by simp [member]) entry' (by simp [member']))
        (List.append_cancel_right bodies)]

theorem byteArray_loop (bytes : ByteArray) (i : Nat) (done : List UInt8) :
    ByteArray.toList.loop bytes i done = done.reverse ++ bytes.data.toList.drop i := by
  fun_induction ByteArray.toList.loop bytes i done with
  | case1 i done inside ih =>
    have bound : i < bytes.data.toList.length := inside
    have byte : bytes.get! i = bytes.data.toList[i] := by
      show bytes.data[i]! = _
      rw [getElem!_pos bytes.data i inside]
      rfl
    rw [ih, List.drop_eq_getElem_cons bound, List.reverse_cons, List.append_assoc, byte]
    rfl
  | case2 i done outside =>
    have bound : bytes.data.toList.length ≤ i := not_lt.mp outside
    rw [List.drop_of_length_le bound, List.append_nil]

theorem utf8_injective : Function.Injective utf8 := by
  intro text text' same
  unfold utf8 ByteArray.toList at same
  rw [byteArray_loop, byteArray_loop] at same
  have bytes : text.toUTF8.data.toList = text'.toUTF8.data.toList := by simpa using same
  exact String.toByteArray_inj.mp (ByteArray.ext (Array.toList_inj.mp bytes))

/-- What stands before the first zero byte. -/
theorem front_eq {front front' back back' : Bytes} (clean : 0 ∉ front) (clean' : 0 ∉ front')
    (same : front ++ 0 :: back = front' ++ 0 :: back') : front = front' := by
  have cut : ∀ {front back : Bytes}, 0 ∉ front → (front ++ 0 :: back).takeWhile (· ≠ 0) = front := by
    intro front back clean
    rw [List.takeWhile_append_of_pos, List.takeWhile_cons_of_neg (by simp), List.append_nil]
    intro byte member
    apply decide_eq_true
    intro zero
    exact clean (zero ▸ member)
  rw [← cut clean, same, cut clean']

/-- The node id ends at the first zero byte of a register's string. -/
theorem nodeId_of_registerBytes {register register' : MemberRegister}
    (clean : 0 ∉ utf8 register.nodeId) (clean' : 0 ∉ utf8 register'.nodeId)
    (same : registerBytes register = registerBytes register') : register.nodeId = register'.nodeId := by
  simp only [registerBytes, List.append_assoc, List.singleton_append] at same
  exact utf8_injective (front_eq clean clean' (List.append_cancel_left same))

/-! ### Trees -/

/-- A tree of the sparse build, over whatever buckets. -/
structure MerkleTree.Built (blake3 : Bytes → Hash) (tree : MerkleTree) : Prop where
  nodes : tree.nodes = buildNodes blake3 tree.buckets
  emptyHashes : tree.emptyHashes = Cluster.emptyHashes blake3

theorem MerkleTree.fromMembership_built (membership : Membership)
    (order : HashOrder MemberRegister) :
    (MerkleTree.fromMembership blake3 membership order).Built blake3 :=
  ⟨rfl, rfl⟩

namespace MerkleTree.Built

variable {tree tree' : MerkleTree} (built : tree.Built blake3) (built' : tree'.Built blake3)
include built

theorem node {depth index : Nat} (within : depth ≤ merkleTreeDepth) (inRange : index < 2 ^ depth) :
    tree.nodes (flatIndex depth index) =
      subtree (hashInner blake3) (fun i => hashLeafBucket blake3 (tree.buckets i))
        (merkleTreeDepth - depth) index := by
  rw [built.nodes]
  exact buildNodes_built blake3 tree.buckets within index inRange

/-- The inner strings are those of the plain recursion. -/
theorem hashed_inner {height index : Nat} (within : height < merkleTreeDepth)
    (inRange : index < 2 ^ (merkleTreeDepth - (height + 1))) :
    Hashed blake3 tree
      (innerBytes
        (subtree (hashInner blake3) (fun i => hashLeafBucket blake3 (tree.buckets i)) height (2 * index))
        (subtree (hashInner blake3) (fun i => hashLeafBucket blake3 (tree.buckets i)) height
          (2 * index + 1))) := by
  obtain ⟨depth, top⟩ : ∃ depth, merkleTreeDepth - (height + 1) = depth := ⟨_, rfl⟩
  rw [top] at inRange
  have level : merkleTreeDepth - (depth + 1) = height := by omega
  have twice : 2 ^ (depth + 1) = 2 * 2 ^ depth := Nat.pow_succ'
  have string : Hashed blake3 tree
      (innerBytes (tree.nodes (flatIndex (depth + 1) (2 * index)))
        (tree.nodes (flatIndex (depth + 1) (2 * index + 1)))) := .inner (by omega) inRange
  rw [built.node (by omega) (by omega), built.node (by omega) (by omega), level] at string
  exact string

include built'

/-- Equal nodes have equal bucket hashes below them. -/
theorem bucketHash_eq (free : CollisionFree blake3 tree tree') {depth index position : Nat}
    (within : depth ≤ merkleTreeDepth) (inRange : index < 2 ^ depth)
    (same : tree.nodes (flatIndex depth index) = tree'.nodes (flatIndex depth index))
    (below : position / 2 ^ (merkleTreeDepth - depth) = index) :
    hashLeafBucket blake3 (tree.buckets position) = hashLeafBucket blake3 (tree'.buckets position) := by
  rw [built.node within inRange, built'.node within inRange] at same
  refine leaf_eq_of_subtree_eq ?_ (Nat.sub_le _ _) ?_ same below
  · intro height small i inside equal
    apply innerBytes_inj
    exact free (.inl (built.hashed_inner small inside)) (.inr (built'.hashed_inner small inside)) equal
  · have level : merkleTreeDepth - (merkleTreeDepth - depth) = depth := by omega
    rw [level]
    exact inRange

omit built'

/-- A node with the hash of an empty subtree has nothing below it. -/
theorem bucket_empty (free : CollisionFree blake3 tree tree') {depth index position : Nat}
    (within : depth ≤ merkleTreeDepth) (inRange : index < 2 ^ depth)
    (same : tree.nodes (flatIndex depth index) =
      uniform (hashInner blake3) (hashEmpty blake3) (merkleTreeDepth - depth))
    (below : position / 2 ^ (merkleTreeDepth - depth) = index) (inLeaves : position < 2 ^ merkleTreeDepth) :
    tree.buckets position = [] := by
  rw [built.node within inRange, ← subtree_uniform _ _ index] at same
  have leaf : hashLeafBucket blake3 (tree.buckets position) = hashEmpty blake3 := by
    refine leaf_eq_of_subtree_eq ?_ (Nat.sub_le _ _) ?_ same below
    · intro height small i inside equal
      have ladder : Hashed blake3 tree
          (innerBytes (subtree (hashInner blake3) (fun _ => hashEmpty blake3) height (2 * i))
            (subtree (hashInner blake3) (fun _ => hashEmpty blake3) height (2 * i + 1))) := by
        rw [subtree_uniform, subtree_uniform]
        exact .ladder small
      apply innerBytes_inj
      exact free (.inl (built.hashed_inner small inside)) (.inl ladder) equal
    · have level : merkleTreeDepth - (merkleTreeDepth - depth) = depth := by omega
      rw [level]
      exact inRange
  by_contra occupied
  rw [hashLeafBucket, if_neg (by simpa using occupied)] at leaf
  have strings := free (.inl (.bucket inLeaves occupied)) (.inl .empty) leaf
  exact emptyPrefix_ne_bucketBytes _ strings.symm

end MerkleTree.Built

theorem bucketBytes_eq_leafPrefix {bucket : List (String × Hash)} :
    bucketBytes bucket = leafPrefix ↔ bucket = [] := by
  cases bucket with
  | nil => simp [bucketBytes]
  | cons entry rest => simp [bucketBytes]

/-- Two buckets with one hash have one encoding. -/
theorem bucketBytes_eq_of_hash_eq {tree tree' : MerkleTree} (free : CollisionFree blake3 tree tree')
    {position : Nat} (inLeaves : position < 2 ^ merkleTreeDepth)
    (same : hashLeafBucket blake3 (tree.buckets position) =
      hashLeafBucket blake3 (tree'.buckets position)) :
    bucketBytes (tree.buckets position) = bucketBytes (tree'.buckets position) := by
  by_cases vacant : tree.buckets position = []
  · by_cases vacant' : tree'.buckets position = []
    · rw [vacant, vacant']
    · rw [hashLeafBucket, hashLeafBucket, if_pos (by simpa using vacant),
        if_neg (by simpa using vacant')] at same
      have strings := free (.inl .empty) (.inr (.bucket inLeaves vacant')) same
      exact absurd strings (emptyPrefix_ne_bucketBytes _)
  · by_cases vacant' : tree'.buckets position = []
    · rw [hashLeafBucket, hashLeafBucket, if_neg (by simpa using vacant),
        if_pos (by simpa using vacant')] at same
      have strings := free (.inl (.bucket inLeaves vacant)) (.inr .empty) same
      exact absurd strings.symm (emptyPrefix_ne_bucketBytes _)
    · rw [hashLeafBucket, hashLeafBucket, if_neg (by simpa using vacant),
        if_neg (by simpa using vacant')] at same
      exact free (.inl (.bucket inLeaves vacant)) (.inr (.bucket inLeaves vacant')) same

theorem hashLeafBucket_congr {bucket bucket' : List (String × Hash)}
    (same : bucketBytes bucket = bucketBytes bucket') :
    hashLeafBucket blake3 bucket = hashLeafBucket blake3 bucket' := by
  have vacant : bucket = [] ↔ bucket' = [] := by
    rw [← bucketBytes_eq_leafPrefix, ← bucketBytes_eq_leafPrefix, same]
  simp only [hashLeafBucket, List.isEmpty_iff, vacant, same]

/-! ### A stand-in for blake3 -/

/-- A checksum behind two zero bytes, so that every id falls into the first bucket, and in front of a
zero level. -/
def sampleChecksum (bytes : Bytes) : Hash :=
  let sum := bytes.foldl (fun sum byte => sum * 31 + byte.toNat) 1
  Vector.ofFn fun i : Fin 32 =>
    if i.val < 2 ∨ i.val = 31 then 0 else UInt8.ofNat (sum / 256 ^ (i.val - 2))

def sampleLevel (hash : Hash) : UInt8 := hash[31]

def sampleRaise (hash : Hash) : Hash := hash.set 31 (sampleLevel hash + 1)

/-- A stand-in for blake3: an inner node is its left child, one level up. -/
def sampleBlake3 : Bytes → Hash
  | 73 :: rest => match hashFromBytes (rest.take 32) with
    | some left => sampleRaise left
    | none => sampleChecksum rest
  | bytes => sampleChecksum bytes

theorem sampleBlake3_inner (left right : Hash) :
    hashInner sampleBlake3 left right = sampleRaise left := by
  have head : (left.toList ++ right.toList).take 32 = left.toList := by
    rw [List.take_append_of_le_length (by simp), List.take_of_length_le (by simp)]
  show (match hashFromBytes ((left.toList ++ right.toList).take 32) with
    | some left => sampleRaise left
    | none => sampleChecksum _) = sampleRaise left
  rw [head, hashFromBytes_toList]

theorem sampleLevel_raise (hash : Hash) : sampleLevel (sampleRaise hash) = sampleLevel hash + 1 := by
  simp [sampleLevel, sampleRaise]

theorem sampleRaise_injective : Function.Injective sampleRaise := by
  apply Function.LeftInverse.injective (g := fun hash => hash.set 31 (sampleLevel hash - 1))
  intro hash
  simp [sampleRaise, sampleLevel]

theorem sampleLevel_iterate (hash : Hash) (n : Nat) :
    sampleLevel (sampleRaise^[n] hash) = sampleLevel hash + UInt8.ofNat n := by
  induction n with
  | zero => simp
  | succ n ih =>
    rw [Function.iterate_succ_apply', sampleLevel_raise, ih, UInt8.ofNat_add, UInt8.add_assoc]
    rfl

theorem subtree_sample (leaf : Nat → Hash) (height index : Nat) :
    subtree (hashInner sampleBlake3) leaf height index =
      sampleRaise^[height] (leaf (index * 2 ^ height)) := by
  induction height generalizing index with
  | zero => simp [subtree]
  | succ height ih =>
    rw [subtree, sampleBlake3_inner, ih, Function.iterate_succ_apply', Nat.pow_succ]
    congr 3
    ring

theorem uniform_sample (value : Hash) (height : Nat) :
    uniform (hashInner sampleBlake3) value height = sampleRaise^[height] value := by
  induction height with
  | zero => rfl
  | succ height ih => rw [uniform, sampleBlake3_inner, ih, Function.iterate_succ_apply']

/-- The strings on the way up from a leaf whose right neighbours are all empty. -/
def climb (start : Bytes) : Nat → Bytes
  | 0 => start
  | height + 1 =>
    innerBytes (sampleRaise^[height] (sampleBlake3 start))
      (sampleRaise^[height] (hashEmpty sampleBlake3))

theorem sampleBlake3_climb (start : Bytes) (height : Nat) :
    sampleBlake3 (climb start height) = sampleRaise^[height] (sampleBlake3 start) := by
  cases height with
  | zero => rfl
  | succ height =>
    rw [Function.iterate_succ_apply']
    exact sampleBlake3_inner _ _

theorem climb_injOn {starts : List Bytes}
    (ground : ∀ start ∈ starts, sampleLevel (sampleBlake3 start) = 0)
    (apart : ∀ start ∈ starts, ∀ start' ∈ starts,
      sampleBlake3 start = sampleBlake3 start' → start = start') :
    Set.InjOn sampleBlake3 {bytes | ∃ start ∈ starts, ∃ height < 256, bytes = climb start height} := by
  rintro _ ⟨start, member, height, small, string⟩ _ ⟨start', member', height', small', string'⟩ same
  rw [string, string', sampleBlake3_climb, sampleBlake3_climb] at same
  have levels := congrArg sampleLevel same
  rw [sampleLevel_iterate, sampleLevel_iterate, ground start member, ground start' member'] at levels
  have heights : height = height' := by
    have sums := congrArg UInt8.toNat levels
    simp only [UInt8.zero_add, UInt8.toNat_ofNat'] at sums
    omega
  rw [heights] at same
  have starts := apart start member start' member' (sampleRaise_injective.iterate height' same)
  rw [string, string', heights, starts]

/-- With every id in the first bucket, a build hashes only what lies on the way up. -/
theorem climb_of_hashed {tree : MerkleTree} (built : tree.Built sampleBlake3)
    (others : ∀ index ≠ 0, tree.buckets index = []) {bytes : Bytes}
    (hashed : Hashed sampleBlake3 tree bytes) :
    ∃ start ∈ [emptyPrefix, bucketBytes (tree.buckets 0)], ∃ height < 256,
      bytes = climb start height := by
  have bound := merkleTreeDepth_lt
  have leaf : ∀ index, ∃ start ∈ [emptyPrefix, bucketBytes (tree.buckets 0)],
      hashLeafBucket sampleBlake3 (tree.buckets index) = sampleBlake3 start := by
    intro index
    by_cases vacant : tree.buckets index = []
    · refine ⟨emptyPrefix, by simp, ?_⟩
      rw [vacant]
      rfl
    · have first : index = 0 := not_not.mp fun other => vacant (others index other)
      refine ⟨bucketBytes (tree.buckets 0), by simp, ?_⟩
      rw [hashLeafBucket, if_neg (by simpa using vacant), first]
  cases hashed with
  | empty => exact ⟨emptyPrefix, by simp, 0, by omega, rfl⟩
  | @ladder height within =>
    refine ⟨emptyPrefix, by simp, height + 1, by omega, ?_⟩
    rw [uniform_sample]
    rfl
  | @bucket index inRange occupied =>
    have first : index = 0 := not_not.mp fun other => occupied (others index other)
    rw [first]
    exact ⟨bucketBytes (tree.buckets 0), by simp, 0, by omega, rfl⟩
  | @inner depth index within inRange =>
    have twice : 2 ^ (depth + 1) = 2 * 2 ^ depth := Nat.pow_succ'
    have right : (2 * index + 1) * 2 ^ (merkleTreeDepth - (depth + 1)) ≠ 0 := by positivity
    obtain ⟨start, member, left⟩ := leaf (2 * index * 2 ^ (merkleTreeDepth - (depth + 1)))
    refine ⟨start, member, merkleTreeDepth - (depth + 1) + 1, by omega, ?_⟩
    rw [built.node (by omega) (by omega), built.node (by omega) (by omega), subtree_sample,
      subtree_sample, left, others _ right]
    rfl

end Lycoris.Cluster
