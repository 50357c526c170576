import Lycoris.Lib.Runs
import Lycoris.Cluster.Register

/-!
Counters persisted in the meta table of a node, and the gossip sequence (`daemon/src/lib.rs`,
`daemon/src/sync/gossip.rs`). A call of `next` takes its number and writes it in two steps, so the writes
of concurrent calls reach the table in any order, and a restart resumes from the last of them.
-/

namespace Lycoris.Daemon
open Lib Cluster

/-! ### Persisted counters -/

/-- `str::parse::<u64>`. -/
def parseU64 (raw : String) : Option UInt64 :=
  let digits := match raw.toList with
    | '+' :: rest => rest
    | chars => chars
  if digits ≠ [] ∧ digits.all Char.isDigit ∧ Nat.ofDigitChars 10 digits 0 < 2 ^ 64 then
    some (UInt64.ofNat (Nat.ofDigitChars 10 digits 0))
  else none

/-- The counter under the key, if the table can be read. -/
def persistedCounter (readable : Bool) (table : StringMap) (key : String) : Option UInt64 :=
  if readable then table[key]?.bind parseU64 else none

theorem parseU64_toString (number : UInt64) : parseU64 (toString number.toNat) = some number := by
  have text : (toString number.toNat).toList = Nat.toDigits 10 number.toNat := Nat.toList_repr
  have digit : ∀ char ∈ Nat.toDigits 10 number.toNat, char.isDigit = true :=
    fun char member => Nat.isDigit_of_mem_toDigits (by decide) (by decide) member
  have unsigned : (match Nat.toDigits 10 number.toNat with
      | '+' :: rest => rest
      | chars => chars) = Nat.toDigits 10 number.toNat := by
    split
    · rename_i rest signed
      exact absurd (digit '+' (signed ▸ List.mem_cons_self)) (by decide)
    · rfl
  have read : Nat.ofDigitChars 10 (Nat.toDigits 10 number.toNat) 0 = number.toNat :=
    Nat.ofDigitChars_ten_toDigits
  unfold parseU64
  dsimp only
  rw [text, unsigned, read, UInt64.ofNat_toNat]
  exact if_pos ⟨Nat.toDigits_ne_nil, List.all_eq_true.mpr digit, number.toNat_lt⟩

theorem persistedCounter_insert (table : StringMap) (key : String) (number : UInt64) :
    persistedCounter true (table.insert key (toString number.toNat)) key = some number := by
  rw [persistedCounter, if_pos rfl, Std.ExtTreeMap.getElem?_insert_self]
  exact parseU64_toString number

theorem saturatingSucc_ne_zero (number : UInt64) : saturatingSucc number ≠ 0 := by
  intro zero
  have positive := saturatingSucc_pos number
  rw [zero] at positive
  exact absurd positive (by decide)

/-! ### The gossip sequence -/

def gossipSequenceKey : String := "gossip_sequence"

/-- The counter in memory and the meta table. -/
structure PersistedSequence where
  counter : UInt64
  table : StringMap

namespace PersistedSequence

def load (table : StringMap) (readable : Bool) : PersistedSequence :=
  ⟨((persistedCounter readable table gossipSequenceKey).map saturatingSucc).getD 1, table⟩

/-- `fetch_add` wraps around. -/
def fetchAdd (sequence : PersistedSequence) : PersistedSequence × UInt64 :=
  ({ sequence with counter := sequence.counter + 1 }, sequence.counter)

/-- A failed write is logged and leaves the table as it was. -/
def set (sequence : PersistedSequence) (number : UInt64) (written : Bool) : PersistedSequence :=
  if written then
    { sequence with table := sequence.table.insert gossipSequenceKey (toString number.toNat) }
  else sequence

/-- The whole call. -/
def next (sequence : PersistedSequence) (written : Bool) : PersistedSequence × UInt64 :=
  let taken := sequence.fetchAdd
  (taken.1.set taken.2 written, taken.2)

end PersistedSequence

/-! ### Runs -/

/-- A call of `next` that has its number and may have made its write. -/
structure NextCall where
  number : UInt64
  tried : Bool
  deriving DecidableEq

/-- A node with its open calls, in the order in which they took their numbers, and all the numbers that
were returned, newest first. -/
structure Origin where
  sequence : PersistedSequence
  calls : List NextCall
  returned : List UInt64

inductive SequenceStep where
  | take
  | write (call : Nat) (written : Bool)
  | answer (call : Nat)
  /-- A crash, and the `load` of the next process. -/
  | restart (readable : Bool)

namespace Origin

def load (table : StringMap) (readable : Bool) : Origin := ⟨.load table readable, [], []⟩

def step (origin : Origin) : SequenceStep → Origin
  | .take =>
    let taken := origin.sequence.fetchAdd
    { origin with sequence := taken.1, calls := origin.calls ++ [⟨taken.2, false⟩] }
  | .write call written =>
    match origin.calls[call]? with
    | some ⟨number, false⟩ =>
      { origin with
        sequence := origin.sequence.set number written, calls := origin.calls.set call ⟨number, true⟩ }
    | _ => origin
  | .answer call =>
    match origin.calls[call]? with
    | some ⟨number, true⟩ =>
      { origin with calls := origin.calls.eraseIdx call, returned := number :: origin.returned }
    | _ => origin
  | .restart readable =>
    { origin with sequence := .load origin.sequence.table readable, calls := [] }

/-- The steps of one call make up the call. -/
theorem steps_alone (sequence : PersistedSequence) (returned : List UInt64) (written : Bool) :
    [.take, .write 0 written, .answer 0].foldl step ⟨sequence, [], returned⟩ =
      ⟨(sequence.next written).1, [], (sequence.next written).2 :: returned⟩ := rfl

/-- A restart reads a counter that covers every number returned before it, below the last number. -/
def Covered (origin : Origin) (readable : Bool) : Prop :=
  origin.returned = [] ∨ ∃ last, persistedCounter readable origin.sequence.table gossipSequenceKey = some last ∧
    ∀ number ∈ origin.returned, number ≤ last ∧ number.toNat < 2 ^ 64 - 1

/-- Restarts are covered, and no number is taken after the last one. -/
def Resumes (origin : Origin) : SequenceStep → Prop
  | .take => origin.sequence.counter ≠ 0
  | .restart readable => origin.Covered readable
  | _ => True

/-! ### Numbers are fresh -/

/-- Every number in use, by an open call or returned. -/
def used (origin : Origin) : List UInt64 := origin.calls.map (·.number) ++ origin.returned

/-- The counter is ahead of every number in use, unless the numbers are used up. -/
structure Fresh (origin : Origin) : Prop where
  distinct : origin.used.Nodup
  positive : ∀ number ∈ origin.used, number ≠ 0
  ahead : origin.sequence.counter ≠ 0 → ∀ number ∈ origin.used, number < origin.sequence.counter

variable {origin : Origin} {action : SequenceStep}

/-- The counter wraps to zero only. -/
theorem toNat_succ {number : UInt64} (unwrapped : number + 1 ≠ 0) :
    (number + 1).toNat = number.toNat + 1 := by
  have sum := UInt64.toNat_add number 1
  have bound := number.toNat_lt
  have positive : (number + 1).toNat ≠ 0 := fun zero => unwrapped (UInt64.toNat_inj.mp zero)
  rw [show (1 : UInt64).toNat = 1 from rfl] at sum
  omega

theorem Fresh.take (fresh : Fresh origin) (left : origin.sequence.counter ≠ 0) :
    Fresh (origin.step .take) := by
  have uses : (origin.step .take).used.Perm (origin.sequence.counter :: origin.used) := by
    simp only [used, step, PersistedSequence.fetchAdd, List.map_append, List.map_cons, List.map_nil,
      List.append_assoc, List.singleton_append]
    exact List.perm_middle
  have below := fresh.ahead left
  refine ⟨?_, ?_, ?_⟩
  · rw [uses.nodup_iff]
    exact List.nodup_cons.mpr ⟨fun member => UInt64.lt_irrefl _ (below _ member), fresh.distinct⟩
  · intro number member
    rcases List.mem_cons.mp (uses.mem_iff.mp member) with rfl | before
    · exact left
    · exact fresh.positive number before
  · intro more number member
    have next := toNat_succ more
    rw [UInt64.lt_iff_toNat_lt]
    show number.toNat < (origin.sequence.counter + 1).toNat
    rcases List.mem_cons.mp (uses.mem_iff.mp member) with rfl | before
    · omega
    · have earlier := UInt64.lt_iff_toNat_lt.mp (below number before)
      omega

theorem numbers_set {calls : List NextCall} {call : Nat} {number : UInt64} {tried : Bool}
    (found : calls[call]? = some ⟨number, tried⟩) :
    (calls.set call ⟨number, true⟩).map (·.number) = calls.map (·.number) := by
  rw [List.map_set]
  refine List.ext_getElem? fun index => ?_
  rw [List.getElem?_set]
  split
  · rename_i own
    subst own
    obtain ⟨inside, same⟩ := List.getElem?_eq_some_iff.mp found
    simp [inside, same]
  · rfl

theorem Fresh.write (fresh : Fresh origin) (call : Nat) (written : Bool) :
    Fresh (origin.step (.write call written)) := by
  simp only [step]
  split
  · rename_i number found
    have uses := numbers_set found
    have counter : (origin.sequence.set number written).counter = origin.sequence.counter := by
      unfold PersistedSequence.set
      split <;> rfl
    refine ⟨?_, ?_, ?_⟩
    · simpa only [used, uses] using fresh.distinct
    · simpa only [used, uses] using fresh.positive
    · simpa only [used, uses, counter] using fresh.ahead
  · exact fresh

theorem Fresh.answer (fresh : Fresh origin) (call : Nat) : Fresh (origin.step (.answer call)) := by
  simp only [step]
  split
  · rename_i number found
    obtain ⟨inside, same⟩ := List.getElem?_eq_some_iff.mp found
    have erased := (List.getElem_cons_eraseIdx_perm inside).map NextCall.number
    rw [same] at erased
    have uses : (used { origin with
        calls := origin.calls.eraseIdx call, returned := number :: origin.returned }).Perm origin.used :=
      List.perm_middle.trans (erased.append_right origin.returned)
    refine ⟨uses.nodup_iff.mpr fresh.distinct, ?_, ?_⟩
    · exact fun number member => fresh.positive number (uses.mem_iff.mp member)
    · exact fun left number member => fresh.ahead left number (uses.mem_iff.mp member)
  · exact fresh

theorem load_pos (table : StringMap) (readable : Bool) :
    (PersistedSequence.load table readable).counter ≠ 0 := by
  unfold PersistedSequence.load
  cases persistedCounter readable table gossipSequenceKey with
  | none => exact (by decide : (1 : UInt64) ≠ 0)
  | some last => exact saturatingSucc_ne_zero last

/-- A covered restart goes on after every number that was returned. -/
theorem Covered.below {readable : Bool} (covered : origin.Covered readable) :
    ∀ number ∈ origin.returned,
      number < (PersistedSequence.load origin.sequence.table readable).counter := by
  intro number member
  rcases covered with none | ⟨last, read, bounds⟩
  · rw [none] at member
    cases member
  · obtain ⟨small, notLast⟩ := bounds number member
    have resumed := saturatingSucc_toNat last
    rw [UInt64.le_iff_toNat_le] at small
    rw [PersistedSequence.load, read, UInt64.lt_iff_toNat_lt]
    show number.toNat < (saturatingSucc last).toNat
    omega

theorem Fresh.restart (fresh : Fresh origin) {readable : Bool} (covered : origin.Covered readable) :
    Fresh (origin.step (.restart readable)) := by
  have kept : ∀ number ∈ origin.returned, number ∈ origin.used :=
    fun number member => List.mem_append_right _ member
  refine ⟨(List.nodup_append.mp fresh.distinct).2.1, ?_, ?_⟩
  · exact fun number member => fresh.positive number (kept number member)
  · exact fun _ => covered.below

theorem Fresh.step (fresh : Fresh origin) (resumes : origin.Resumes action) : Fresh (origin.step action) := by
  cases action with
  | take => exact fresh.take resumes
  | write call written => exact fresh.write call written
  | answer call => exact fresh.answer call
  | restart readable => exact fresh.restart resumes

theorem load_fresh (table : StringMap) (readable : Bool) : Fresh (load table readable) :=
  ⟨List.nodup_nil, List.forall_mem_nil _, fun _ => List.forall_mem_nil _⟩

/-! ### A restart that is not covered -/

/-- One call after the other, each with its write. -/
def callsInTurn : Nat → List SequenceStep
  | 0 => []
  | count + 1 => .take :: .write 0 true :: .answer 0 :: callsInTurn count

/-- Calls in turn return the numbers from the counter on. -/
theorem callsInTurn_returns {sequence : PersistedSequence} {returned : List UInt64} (count : Nat)
    (positive : sequence.counter ≠ 0) (left : sequence.counter.toNat + count < 2 ^ 64) :
    Steps step Resumes ⟨sequence, [], returned⟩ (callsInTurn (count + 1)) ∧
      ∃ number numbers, ((callsInTurn (count + 1)).foldl step ⟨sequence, [], returned⟩).returned =
        number :: numbers ∧ number.toNat = sequence.counter.toNat + count ∧ returned ⊆ numbers := by
  induction count generalizing sequence returned with
  | zero =>
    exact ⟨⟨positive, trivial, trivial, trivial⟩, sequence.counter, returned, rfl, rfl, List.Subset.refl _⟩
  | succ count ih =>
    have counter : ((sequence.next true).1.counter).toNat = sequence.counter.toNat + 1 := by
      have sum := UInt64.toNat_add sequence.counter 1
      rw [show (1 : UInt64).toNat = 1 from rfl, Nat.mod_eq_of_lt (by omega)] at sum
      exact sum
    have positive' : (sequence.next true).1.counter ≠ 0 := by
      intro zero
      rw [zero] at counter
      exact absurd counter (by simp)
    obtain ⟨steps, number, numbers, last, reached, kept⟩ :=
      @ih (sequence.next true).1 ((sequence.next true).2 :: returned) positive' (by omega)
    refine ⟨⟨positive, trivial, trivial, steps⟩, number, numbers, last, by omega, ?_⟩
    exact fun number member => kept (List.mem_cons_of_mem _ member)

/-- A restart that is not covered goes back behind a number that was returned. -/
theorem resumed_of_uncovered (fresh : Fresh origin) {readable : Bool} (uncovered : ¬ origin.Covered readable) :
    ∃ number ∈ origin.returned,
      (PersistedSequence.load origin.sequence.table readable).counter.toNat ≤ number.toNat := by
  by_contra none
  have below : ∀ number ∈ origin.returned, number.toNat <
      (PersistedSequence.load origin.sequence.table readable).counter.toNat :=
    fun number member => Nat.lt_of_not_le fun reached => none ⟨number, member, reached⟩
  cases read : persistedCounter readable origin.sequence.table gossipSequenceKey with
  | none =>
    simp only [PersistedSequence.load, read] at below
    refine uncovered (.inl (List.eq_nil_iff_forall_not_mem.mpr fun number member => ?_))
    have positive := fresh.positive number (List.mem_append_right _ member)
    have zero : number.toNat < 1 := below number member
    exact positive (UInt64.toNat_inj.mp (show number.toNat = 0 by omega))
  | some last =>
    refine uncovered (.inr ⟨last, read, fun number member => ?_⟩)
    have resumed := saturatingSucc_toNat last
    have small : number.toNat < (saturatingSucc last).toNat := by
      simpa [PersistedSequence.load, read] using below number member
    rw [UInt64.le_iff_toNat_le]
    omega

/-- After a restart that is not covered a number can be returned again. -/
theorem returned_again (fresh : Fresh origin) {readable : Bool} (uncovered : ¬ origin.Covered readable) :
    ∃ life, Steps step Resumes (origin.step (.restart readable)) life ∧
      ¬ (life.foldl step (origin.step (.restart readable))).returned.Nodup := by
  obtain ⟨again, member, behind⟩ := resumed_of_uncovered fresh uncovered
  obtain ⟨count, later⟩ := Nat.exists_eq_add_of_le behind
  obtain ⟨steps, number, numbers, last, reached, kept⟩ :=
    @callsInTurn_returns (.load origin.sequence.table readable) origin.returned count
      (load_pos origin.sequence.table readable) (later ▸ again.toNat_lt)
  refine ⟨callsInTurn (count + 1), steps, ?_⟩
  have same : number = again := UInt64.toNat_inj.mp (reached.trans later.symm)
  simp only [step]
  rw [last, same]
  exact fun distinct => (List.nodup_cons.mp distinct).1 (kept member)

/-! ### Writes in order -/

/-- The table works, the writes are made in the order of the numbers, and the numbers are not used up. -/
def Orderly (origin : Origin) : SequenceStep → Prop
  | .take => origin.sequence.counter ≠ 0
  | .write call written => written = true ∧
      ∀ earlier < call, ∀ before, origin.calls[earlier]? = some before → before.tried = true
  | .answer _ => True
  | .restart readable => readable = true ∧ origin.sequence.counter ≠ 0

/-- Nothing was written yet, or the table is at the last number that was. -/
def Recorded (origin : Origin) : Prop :=
  (origin.returned = [] ∧ ∀ call ∈ origin.calls, call.tried = false) ∨
    ∃ last, persistedCounter true origin.sequence.table gossipSequenceKey = some last ∧
      (∀ number ∈ origin.returned, number ≤ last) ∧
      (∀ call ∈ origin.calls, if call.tried then call.number ≤ last else last < call.number) ∧
      (origin.sequence.counter ≠ 0 → last < origin.sequence.counter)

structure InOrder (origin : Origin) : Prop where
  fresh : Fresh origin
  rising : origin.calls.Pairwise fun call later => call.number < later.number
  recorded : origin.Recorded

theorem InOrder.take (inOrder : InOrder origin) (left : origin.sequence.counter ≠ 0) :
    InOrder (origin.step .take) := by
  refine ⟨inOrder.fresh.take left, ?_, ?_⟩
  · refine List.pairwise_append.mpr ⟨inOrder.rising, List.pairwise_singleton _ _, ?_⟩
    intro call member later last
    rw [List.mem_singleton.mp last]
    exact inOrder.fresh.ahead left _ (List.mem_append_left _ (List.mem_map_of_mem member))
  · rcases inOrder.recorded with ⟨nothing, untried⟩ | ⟨last, read, returned, calls, counter⟩
    · refine .inl ⟨nothing, fun call member => ?_⟩
      rcases List.mem_append.mp member with before | new
      · exact untried call before
      · rw [List.mem_singleton.mp new]
    · refine .inr ⟨last, read, returned, fun call member => ?_, fun more => ?_⟩
      · rcases List.mem_append.mp member with before | new
        · exact calls call before
        · rw [List.mem_singleton.mp new]
          exact counter left
      · have below := UInt64.lt_iff_toNat_lt.mp (counter left)
        have next := toNat_succ more
        rw [UInt64.lt_iff_toNat_lt]
        show last.toNat < (origin.sequence.counter + 1).toNat
        omega

/-- A write in order goes past everything recorded. -/
theorem InOrder.unrecorded (inOrder : InOrder origin) {call : NextCall} (member : call ∈ origin.calls)
    (untried : call.tried = false) :
    (∀ number ∈ origin.returned, number ≤ call.number) ∧
      ∀ other ∈ origin.calls, other.tried = true → other.number < call.number := by
  rcases inOrder.recorded with ⟨nothing, allUntried⟩ | ⟨last, -, returned, calls, -⟩
  · refine ⟨fun number returned => ?_, fun other open' tried => ?_⟩
    · rw [nothing] at returned
      cases returned
    · rw [allUntried other open'] at tried
      cases tried
  · have above : last < call.number := by simpa [untried] using calls call member
    refine ⟨fun number done => ?_, fun other open' tried => ?_⟩
    · exact UInt64.le_of_lt (UInt64.lt_of_le_of_lt (returned number done) above)
    · have small : other.number ≤ last := by simpa [tried] using calls other open'
      exact UInt64.lt_of_le_of_lt small above

theorem InOrder.write (inOrder : InOrder origin) {call : Nat}
    (earlier : ∀ earlier < call, ∀ before, origin.calls[earlier]? = some before → before.tried = true) :
    InOrder (origin.step (.write call true)) := by
  refine ⟨inOrder.fresh.write call true, ?_, ?_⟩
  · simp only [step]
    split
    · rename_i number found
      have numbers := List.pairwise_map.mpr inOrder.rising
      rw [← numbers_set found] at numbers
      exact List.pairwise_map.mp numbers
    · exact inOrder.rising
  · simp only [step]
    split
    · rename_i number found
      have member := List.mem_of_getElem? found
      obtain ⟨returned, tried⟩ := inOrder.unrecorded member rfl
      refine .inr ⟨number, persistedCounter_insert _ _ _, returned, fun other open' => ?_, fun left => ?_⟩
      · obtain ⟨index, listed⟩ := List.mem_iff_getElem?.mp open'
        rw [List.getElem?_set] at listed
        split at listed
        · simp only [Option.ite_none_right_eq_some, Option.some.injEq] at listed
          obtain ⟨-, rfl⟩ := listed
          exact UInt64.le_refl _
        · rename_i elsewhere
          have before := List.mem_of_getElem? listed
          obtain ⟨inside, own⟩ := List.getElem?_eq_some_iff.mp found
          obtain ⟨inside', other'⟩ := List.getElem?_eq_some_iff.mp listed
          have ordered := List.pairwise_iff_getElem.mp inOrder.rising
          rcases Nat.lt_or_gt_of_ne elsewhere with later | sooner
          · have above := ordered call index inside inside' later
            rw [own, other'] at above
            have untried : other.tried = false := by
              rw [Bool.eq_false_iff]
              exact fun written => UInt64.lt_asymm above (tried other before written)
            simpa [untried] using above
          · have written := earlier index sooner other listed
            simpa [written] using UInt64.le_of_lt (tried other before written)
      · exact inOrder.fresh.ahead left number (List.mem_append_left _ (List.mem_map_of_mem member))
    · exact inOrder.recorded

theorem InOrder.answer (inOrder : InOrder origin) (call : Nat) : InOrder (origin.step (.answer call)) := by
  refine ⟨inOrder.fresh.answer call, ?_, ?_⟩
  · simp only [step]
    split
    · exact inOrder.rising.sublist (List.eraseIdx_sublist _ _)
    · exact inOrder.rising
  · simp only [step]
    split
    · rename_i number found
      have member := List.mem_of_getElem? found
      have kept : ∀ open' ∈ origin.calls.eraseIdx call, open' ∈ origin.calls :=
        fun open' => List.mem_of_mem_eraseIdx
      rcases inOrder.recorded with ⟨-, untried⟩ | ⟨last, read, returned, calls, counter⟩
      · exact absurd (untried _ member) (by simp)
      · refine .inr ⟨last, read, List.forall_mem_cons.mpr ⟨?_, returned⟩, ?_, counter⟩
        · simpa using calls _ member
        · exact fun open' left => calls open' (kept open' left)
    · exact inOrder.recorded

theorem InOrder.covered (inOrder : InOrder origin) (left : origin.sequence.counter ≠ 0) :
    origin.Covered true := by
  rcases inOrder.recorded with ⟨nothing, -⟩ | ⟨last, read, returned, -⟩
  · exact .inl nothing
  · refine .inr ⟨last, read, fun number member => ⟨returned number member, ?_⟩⟩
    have below := UInt64.lt_iff_toNat_lt.mp
      (inOrder.fresh.ahead left number (List.mem_append_right _ member))
    have bound := origin.sequence.counter.toNat_lt
    omega

theorem InOrder.restart (inOrder : InOrder origin) (left : origin.sequence.counter ≠ 0) :
    InOrder (origin.step (.restart true)) := by
  refine ⟨inOrder.fresh.restart (inOrder.covered left), .nil, ?_⟩
  rcases inOrder.recorded with ⟨nothing, -⟩ | ⟨last, read, returned, -, counter⟩
  · exact .inl ⟨nothing, List.forall_mem_nil _⟩
  · refine .inr ⟨last, read, returned, List.forall_mem_nil _, fun _ => ?_⟩
    have below := UInt64.lt_iff_toNat_lt.mp (counter left)
    have bound := origin.sequence.counter.toNat_lt
    have resumed := saturatingSucc_toNat last
    simp only [step, PersistedSequence.load, read, UInt64.lt_iff_toNat_lt]
    show last.toNat < (saturatingSucc last).toNat
    omega

theorem InOrder.step (inOrder : InOrder origin) (orderly : origin.Orderly action) :
    InOrder (origin.step action) := by
  cases action with
  | take => exact inOrder.take orderly
  | write call written =>
    obtain ⟨rfl, earlier⟩ := orderly
    exact inOrder.write earlier
  | answer call => exact inOrder.answer call
  | restart readable =>
    obtain ⟨rfl, left⟩ := orderly
    exact inOrder.restart left

theorem InOrder.resumes (inOrder : InOrder origin) (orderly : origin.Orderly action) :
    origin.Resumes action := by
  cases action with
  | take => exact orderly
  | write call written => trivial
  | answer call => trivial
  | restart readable =>
    obtain ⟨rfl, left⟩ := orderly
    exact inOrder.covered left

theorem load_inOrder (table : StringMap) (readable : Bool) : InOrder (load table readable) :=
  ⟨load_fresh table readable, .nil, .inl ⟨rfl, List.forall_mem_nil _⟩⟩

end Origin

/-- No number is returned twice in a run whose restarts all read a counter that covers the numbers
returned before; after a restart that does not, a number can be returned again; and restarts are covered
in a run whose writes are made in the order of the numbers over a working table. -/
theorem sequence_never_reused (table : StringMap) (readable : Bool) (actions : List SequenceStep) :
    (Steps Origin.step Origin.Resumes (.load table readable) actions →
      Throughout Origin.step (·.returned.Nodup) (.load table readable) actions) ∧
    (Steps Origin.step Origin.Resumes (.load table readable) actions →
      ∀ readable', ¬ (actions.foldl Origin.step (.load table readable)).Covered readable' →
        ∃ life, Steps Origin.step Origin.Resumes
            ((actions.foldl Origin.step (.load table readable)).step (.restart readable')) life ∧
          ¬ (life.foldl Origin.step
            ((actions.foldl Origin.step (.load table readable)).step (.restart readable'))).returned.Nodup) ∧
    (Steps Origin.step Origin.Orderly (.load table readable) actions →
      Steps Origin.step Origin.Resumes (.load table readable) actions) := by
  have fresh : Steps Origin.step Origin.Resumes (.load table readable) actions →
      Throughout Origin.step Origin.Fresh (.load table readable) actions :=
    Throughout.of_steps (Origin.load_fresh table readable) fun _ _ _ fresh resumes => fresh.step resumes
  refine ⟨fun resumes => ?_, fun resumes readable' uncovered => ?_, fun orderly => ?_⟩
  · exact (fresh resumes).mono fun origin fresh => (List.nodup_append.mp fresh.distinct).2.1
  · exact Origin.returned_again (fresh resumes).last uncovered
  · exact Steps.mono Origin.InOrder (Origin.load_inOrder table readable)
      (fun origin action inOrder orderly => inOrder.step orderly)
      (fun origin action inOrder orderly => inOrder.resumes orderly) orderly

/-- Calls that overlap, with their writes in order, and a restart that resumes after them. -/
theorem ordered_writes_never_reused :
    Throughout Origin.step (·.returned.Nodup) (.load ∅ true)
      [.take, .take, .write 0 true, .write 1 true, .answer 1, .answer 0, .restart true,
       .take, .write 0 true, .answer 0] := by
  have spec := sequence_never_reused ∅ true [.take, .take, .write 0 true, .write 1 true, .answer 1,
    .answer 0, .restart true, .take, .write 0 true, .answer 0]
  refine spec.1 (spec.2.2 ⟨?_, ?_, ⟨rfl, by simp⟩, ⟨rfl, ?_⟩, trivial, trivial, ⟨rfl, by decide⟩, ?_,
    ⟨rfl, by simp⟩, trivial, trivial⟩)
  · exact Origin.load_pos ∅ true
  · exact (by decide : ((Origin.load ∅ true).step .take).sequence.counter ≠ 0)
  · intro earlier small before found
    obtain rfl : earlier = 0 := by omega
    obtain rfl := Option.some.inj found
    rfl
  · exact Origin.load_pos _ true

/-- Two calls whose writes are made in the opposite order, and a restart. -/
def sampleSequence : List SequenceStep :=
  [.take, .take, .write 1 true, .answer 1, .write 0 true, .answer 0, .restart true,
   .take, .write 0 true, .answer 0]

theorem second_number_returned_twice :
    ¬ Throughout Origin.step (·.returned.Nodup) (.load ∅ true) sampleSequence := by
  intro distinct
  exact absurd distinct.last (by decide)

end Lycoris.Daemon
