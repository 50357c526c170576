import Lycoris.Cluster.Ownership

/-!
The accounting of the failure detector: pending pings, failure counters and the outcomes of the probes.
A ledger written from messages and actions alone follows every probe, and a member is suspected by a
tick only when its last outcomes are all timeouts.
-/

namespace Lycoris.Cluster
open Lib

/-! ### What a timeout does to its target -/

/-- What the detector holds against one member: its failures, and its register. -/
structure Standing where
  failures : Option Nat
  register : Option MemberRegister

/-- One more failure: counted below the threshold, else turned into a suspicion. -/
def Standing.strike (threshold : Nat) (nowMs : Int) (standing : Standing) : Standing :=
  let failures := standing.failures.getD 0 + 1
  if failures < threshold then ⟨some failures, standing.register⟩
  else ⟨none, standing.register.map (·.suspect nowMs)⟩

namespace Standing

variable {threshold : Nat} {nowMs : Int} {standing : Standing}

theorem strike_counts (below : standing.failures.getD 0 + 1 < threshold) :
    standing.strike threshold nowMs = ⟨some (standing.failures.getD 0 + 1), standing.register⟩ := by
  unfold strike
  rw [if_pos below]

theorem strike_suspects (reached : threshold ≤ standing.failures.getD 0 + 1) :
    standing.strike threshold nowMs = ⟨none, standing.register.map (·.suspect nowMs)⟩ := by
  unfold strike
  rw [if_neg (Nat.not_lt.mpr reached)]

end Standing

namespace Swim

def standing (swim : Swim) (target : String) : Standing :=
  ⟨swim.consecutiveFailures[target]?, swim.membership.get target⟩

theorem markSuspected_standing (swim : Swim) (target other : String) (nowMs : Int) :
    (swim.markSuspected target nowMs).1.standing other =
      if target = other then (swim.standing other).strike swim.config.failureThreshold nowMs
      else swim.standing other := by
  have count : swim.consecutiveFailures.getD target 0 = (swim.consecutiveFailures[target]?).getD 0 :=
    Std.ExtTreeMap.getD_eq_getD_getElem?
  unfold markSuspected
  dsimp only
  by_cases same : target = other
  · subst same
    rw [if_pos rfl, Standing.strike, count]
    dsimp only [standing]
    split
    · simp [*]
    · simp [*, Membership.get_suspect]
  · rw [if_neg same]
    dsimp only [standing]
    split
    · simp [Std.ExtTreeMap.getElem?_insert, same]
    · simp [Std.ExtTreeMap.getElem?_erase, Membership.get_suspect, same]

/-- Everything but pings, counters and membership is as it was. -/
structure SameClocks (swim next : Swim) : Prop where
  self : next.localNodeId = swim.localNodeId
  config : next.config = swim.config
  sequence : next.sequence = swim.sequence
  timers : next.suspectedSinceMs = swim.suspectedSinceMs

theorem SameClocks.trans {swim next last : Swim} (first : SameClocks swim next)
    (second : SameClocks next last) : SameClocks swim last :=
  ⟨second.self.trans first.self, second.config.trans first.config,
    second.sequence.trans first.sequence, second.timers.trans first.timers⟩

theorem markSuspected_frame (swim : Swim) (target : String) (nowMs : Int) :
    SameClocks swim (swim.markSuspected target nowMs).1 ∧
      (swim.markSuspected target nowMs).1.pendingPings = swim.pendingPings := by
  unfold markSuspected
  dsimp only
  split
  · exact ⟨⟨rfl, rfl, rfl, rfl⟩, rfl⟩
  · exact ⟨⟨rfl, rfl, rfl, rfl⟩, rfl⟩

/-- At most one ping is under way to each target. -/
def OnePing (swim : Swim) : Prop :=
  ∀ (seq seq' : UInt64) (pending pending' : PendingPing), swim.pendingPings[seq]? = some pending →
    swim.pendingPings[seq']? = some pending' → pending.target = pending'.target → seq = seq'

theorem OnePing.of_subset {swim next : Swim} (one : swim.OnePing)
    (fewer : ∀ (seq : UInt64) (pending : PendingPing),
      next.pendingPings[seq]? = some pending → swim.pendingPings[seq]? = some pending) : next.OnePing := by
  intro seq seq' pending pending' found found'
  exact one seq seq' pending pending' (fewer _ _ found) (fewer _ _ found')

/-- One of the listed pings goes to the target. -/
def AimedAt (swim : Swim) (seqs : List UInt64) (target : String) : Prop :=
  ∃ seq ∈ seqs, ∃ pending, swim.pendingPings[seq]? = some pending ∧ pending.target = target

/-- The state after a list of pings has timed out. -/
structure TimedOut (nowMs : Int) (swim next : Swim) (seqs : List UInt64) : Prop where
  clocks : SameClocks swim next
  pings : ∀ seq, next.pendingPings[seq]? = if seq ∈ seqs then none else swim.pendingPings[seq]?
  struck : ∀ target, swim.AimedAt seqs target →
    next.standing target = (swim.standing target).strike swim.config.failureThreshold nowMs
  kept : ∀ target, ¬ swim.AimedAt seqs target → next.standing target = swim.standing target

theorem timedOut_pending {nowMs : Int} {acc : Swim × List SwimAction} {seq : UInt64}
    {pending : PendingPing} (found : acc.1.pendingPings[seq]? = some pending) :
    (timedOut nowMs acc seq).1 =
      (({ acc.1 with pendingPings := acc.1.pendingPings.erase seq } : Swim).markSuspected
        pending.target nowMs).1 := by
  unfold timedOut
  rw [found]

theorem timedOut_missing {nowMs : Int} {acc : Swim × List SwimAction} {seq : UInt64}
    (missing : acc.1.pendingPings[seq]? = none) : timedOut nowMs acc seq = acc := by
  unfold timedOut
  rw [missing]

theorem timedOut_one {nowMs : Int} {acc : Swim × List SwimAction} (seq : UInt64) :
    TimedOut nowMs acc.1 (timedOut nowMs acc seq).1 [seq] := by
  cases found : acc.1.pendingPings[seq]? with
  | none =>
    rw [timedOut_missing found]
    refine ⟨⟨rfl, rfl, rfl, rfl⟩, ?_, ?_, fun _ _ => rfl⟩
    · intro other
      by_cases same : other = seq
      · simp [same, found]
      · simp [same]
    · rintro target ⟨other, listed, pending, waiting, _⟩
      rw [List.mem_singleton.mp listed, found] at waiting
      cases waiting
  | some pending =>
    rw [timedOut_pending found]
    obtain ⟨clocks, pings⟩ := markSuspected_frame
      { acc.1 with pendingPings := acc.1.pendingPings.erase seq } pending.target nowMs
    refine ⟨⟨clocks.self, clocks.config, clocks.sequence, clocks.timers⟩, ?_, ?_, ?_⟩
    · intro other
      rw [pings]
      by_cases same : other = seq
      · simp [same]
      · simp [Std.ExtTreeMap.getElem?_erase, same, Ne.symm same]
    · rintro target ⟨other, listed, waiting, waits, rfl⟩
      rw [List.mem_singleton.mp listed, found] at waits
      rw [markSuspected_standing, if_pos (congrArg PendingPing.target (Option.some.inj waits))]
      rfl
    · intro target missed
      have other : pending.target ≠ target := by
        rintro rfl
        exact missed ⟨seq, List.mem_singleton_self seq, pending, found, rfl⟩
      rw [markSuspected_standing, if_neg other]
      rfl

namespace TimedOut

variable {nowMs : Int} {swim mid next : Swim} {seqs rest : List UInt64}

theorem aimedAt_append (first : TimedOut nowMs swim mid seqs) (target : String) :
    swim.AimedAt (seqs ++ rest) target ↔ swim.AimedAt seqs target ∨ mid.AimedAt rest target := by
  constructor
  · rintro ⟨seq, listed, pending, waits, aimed⟩
    by_cases gone : seq ∈ seqs
    · exact .inl ⟨seq, gone, pending, waits, aimed⟩
    · have later := (List.mem_append.mp listed).resolve_left gone
      exact .inr ⟨seq, later, pending, by rw [first.pings, if_neg gone, waits], aimed⟩
  · rintro (⟨seq, listed, found⟩ | ⟨seq, listed, pending, waits, aimed⟩)
    · exact ⟨seq, List.mem_append_left rest listed, found⟩
    · rw [first.pings] at waits
      split at waits
      · cases waits
      · exact ⟨seq, List.mem_append_right seqs listed, pending, waits, aimed⟩

/-- No target is struck twice: its only ping is gone with the first strike. -/
theorem not_both (first : TimedOut nowMs swim mid seqs) (one : swim.OnePing) {target : String}
    (early : swim.AimedAt seqs target) : ¬ mid.AimedAt rest target := by
  rintro ⟨seq', _, pending', waits', rfl⟩
  obtain ⟨seq, listed, pending, waits, aimed⟩ := early
  rw [first.pings] at waits'
  split at waits'
  · cases waits'
  · rename_i still
    rw [one seq seq' pending pending' waits waits' aimed] at listed
    exact still listed

theorem append (one : swim.OnePing) (first : TimedOut nowMs swim mid seqs)
    (second : TimedOut nowMs mid next rest) : TimedOut nowMs swim next (seqs ++ rest) where
  clocks := first.clocks.trans second.clocks
  pings := by
    intro seq
    rw [second.pings, first.pings]
    by_cases early : seq ∈ seqs
    · simp [early]
    · simp [early]
  struck := by
    intro target aimed
    rcases first.aimedAt_append target |>.mp aimed with early | late
    · rw [second.kept target (first.not_both one early), first.struck target early]
    · have missed : ¬ swim.AimedAt seqs target := fun early => first.not_both one early late
      rw [second.struck target late, first.clocks.config, first.kept target missed]
  kept := by
    intro target missed
    rw [first.aimedAt_append target, not_or] at missed
    rw [second.kept target missed.2, first.kept target missed.1]

theorem onePing (first : TimedOut nowMs swim next seqs) (one : swim.OnePing) : next.OnePing := by
  apply one.of_subset
  intro seq pending found
  rw [first.pings] at found
  split at found
  · cases found
  · exact found

end TimedOut

theorem timedOut_foldl {nowMs : Int} (seqs : List UInt64) (acc : Swim × List SwimAction)
    (one : acc.1.OnePing) : TimedOut nowMs acc.1 (seqs.foldl (timedOut nowMs) acc).1 seqs := by
  induction seqs generalizing acc with
  | nil =>
    refine ⟨⟨rfl, rfl, rfl, rfl⟩, by simp, ?_, fun _ _ => rfl⟩
    rintro target ⟨seq, listed, _⟩
    cases listed
  | cons seq rest ih =>
    have head : TimedOut nowMs acc.1 (timedOut nowMs acc seq).1 [seq] := timedOut_one seq
    exact head.append one (ih (timedOut nowMs acc seq) (head.onePing one))

/-- A ping to the target has waited for the timeout. -/
def Overdue (swim : Swim) (nowU64 : Nat) (target : String) : Prop :=
  ∃ (seq : UInt64) (pending : PendingPing), swim.pendingPings[seq]? = some pending ∧
    pending.target = target ∧ nowU64 - pending.sentAt ≥ swim.config.pingTimeoutMs

/-- The sequence numbers `checkTimeouts` finds overdue. -/
def overduePings (swim : Swim) (iteration : Iteration) (nowU64 : Nat) : List UInt64 :=
  ((iteration.pings.arrange swim.pendingPings.toList).filter fun ping =>
    nowU64 - ping.2.sentAt ≥ swim.config.pingTimeoutMs).map Prod.fst

theorem mem_overduePings {swim : Swim} {iteration : Iteration} {nowU64 : Nat} {seq : UInt64} :
    seq ∈ swim.overduePings iteration nowU64 ↔ ∃ pending, swim.pendingPings[seq]? = some pending ∧
      nowU64 - pending.sentAt ≥ swim.config.pingTimeoutMs := by
  unfold overduePings
  simp only [List.mem_map, List.mem_filter, HashOrder.mem_arrange, Prod.exists,
    Std.ExtTreeMap.mem_toList_iff_getElem?_eq_some, decide_eq_true_eq]
  constructor
  · rintro ⟨_, pending, found, rfl⟩
    exact ⟨pending, found⟩
  · rintro ⟨pending, found⟩
    exact ⟨seq, pending, found, rfl⟩

theorem aimedAt_overdue {swim : Swim} {iteration : Iteration} {nowU64 : Nat} {target : String} :
    swim.AimedAt (swim.overduePings iteration nowU64) target ↔ swim.Overdue nowU64 target := by
  constructor
  · rintro ⟨seq, listed, pending, found, aimed⟩
    obtain ⟨same, waits, late⟩ := mem_overduePings.mp listed
    rw [found] at waits
    cases waits
    exact ⟨seq, pending, found, aimed, late⟩
  · rintro ⟨seq, pending, found, aimed, late⟩
    exact ⟨seq, mem_overduePings.mpr ⟨pending, found, late⟩, pending, found, aimed⟩

theorem checkTimeouts_spec {swim : Swim} (one : swim.OnePing) (iteration : Iteration) (nowU64 : Nat)
    (nowMs : Int) :
    TimedOut nowMs swim (swim.checkTimeouts iteration nowU64 nowMs).1
      (swim.overduePings iteration nowU64) :=
  timedOut_foldl (swim.overduePings iteration nowU64) (swim, []) one

/-! ### The suspicion timers -/

/-- The local view holds the member as suspected. -/
def Suspects (swim : Swim) (nodeId : String) : Prop :=
  ∃ register, swim.membership.get nodeId = some register ∧ register.state = .suspected

/-- The members whose timers `checkSuspectTimeouts` runs. -/
def suspectedMembers (swim : Swim) (iteration : Iteration) : List String :=
  ((swim.membership.active iteration.members).filter fun register =>
    register.nodeId ≠ swim.localNodeId && register.state = .suspected).map (·.nodeId)

theorem mem_suspectedMembers {swim : Swim} {iteration : Iteration} {nodeId : String} :
    nodeId ∈ swim.suspectedMembers iteration ↔ nodeId ≠ swim.localNodeId ∧ swim.Suspects nodeId := by
  unfold suspectedMembers Membership.active
  simp only [List.mem_map, List.mem_filter, KeyedMap.mem_iter, ne_eq, decide_not, Bool.and_eq_true,
    Bool.not_eq_true', decide_eq_false_iff_not, decide_eq_true_eq]
  constructor
  · rintro ⟨register, ⟨⟨known, _⟩, other, suspected⟩, rfl⟩
    exact ⟨other, register, KeyedMap.mem_iff.mp known, suspected⟩
  · rintro ⟨other, register, found, suspected⟩
    obtain rfl := Membership.nodeId_of_get found
    refine ⟨register, ⟨⟨KeyedMap.mem_of_get? found, ?_⟩, other, suspected⟩, rfl⟩
    rw [suspected]
    rfl

theorem suspectTimer_foldl (timeout nowMs : Int) (suspected : List String)
    (acc : Std.ExtTreeMap String Int compare × List String) (nodeId : String) :
    (suspected.foldl (suspectTimer timeout nowMs) acc).1[nodeId]? =
        (if nodeId ∈ suspected then some (acc.1.getD nodeId nowMs) else acc.1[nodeId]?) ∧
      (nodeId ∈ (suspected.foldl (suspectTimer timeout nowMs) acc).2 ↔
        nodeId ∈ acc.2 ∨ nodeId ∈ suspected ∧ nowMs - acc.1.getD nodeId nowMs ≥ timeout) := by
  induction suspected generalizing acc with
  | nil => simp
  | cons first rest ih =>
    obtain ⟨timer, noted⟩ := ih (suspectTimer timeout nowMs acc first)
    rw [List.foldl_cons]
    by_cases same : nodeId = first
    · subst same
      have since : (suspectTimer timeout nowMs acc nodeId).1.getD nodeId nowMs = acc.1.getD nodeId nowMs := by
        simp [suspectTimer]
      rw [timer, noted, since]
      constructor
      · by_cases again : nodeId ∈ rest
        · simp [again]
        · simp [again, suspectTimer]
      · unfold suspectTimer
        dsimp only
        split <;> simp [*]
    · have since : (suspectTimer timeout nowMs acc first).1.getD nodeId nowMs = acc.1.getD nodeId nowMs := by
        simp [suspectTimer, Std.ExtTreeMap.getD_insert, Ne.symm same]
      rw [timer, noted, since]
      constructor
      · simp [suspectTimer, Std.ExtTreeMap.getElem?_insert, same, Ne.symm same]
      · unfold suspectTimer
        dsimp only
        split <;> simp [same]

theorem expire_foldl_kept {nowMs : Int} {expired : List String} (acc : Swim × List SwimAction)
    {nodeId : String} (missed : nodeId ∉ expired) :
    (expired.foldl (expire nowMs) acc).1.membership.get nodeId = acc.1.membership.get nodeId := by
  induction expired generalizing acc with
  | nil => rfl
  | cons first rest ih =>
    obtain ⟨other, later⟩ : nodeId ≠ first ∧ nodeId ∉ rest := by simpa using missed
    rw [List.foldl_cons, ih _ later]
    show (acc.1.membership.offline first nowMs).1.get nodeId = _
    rw [Membership.get_offline, if_neg (Ne.symm other)]

/-- Only the membership differs. -/
structure SameBooks (swim next : Swim) : Prop where
  self : next.localNodeId = swim.localNodeId
  config : next.config = swim.config
  sequence : next.sequence = swim.sequence
  pings : next.pendingPings = swim.pendingPings
  failures : next.consecutiveFailures = swim.consecutiveFailures

theorem SameBooks.refl (swim : Swim) : SameBooks swim swim := ⟨rfl, rfl, rfl, rfl, rfl⟩

theorem expire_foldl_books (nowMs : Int) (expired : List String) (acc : Swim × List SwimAction) :
    SameBooks acc.1 (expired.foldl (expire nowMs) acc).1 ∧
      (expired.foldl (expire nowMs) acc).1.suspectedSinceMs = acc.1.suspectedSinceMs := by
  induction expired generalizing acc with
  | nil => exact ⟨.refl _, rfl⟩
  | cons first rest ih =>
    obtain ⟨books, timers⟩ := ih (expire nowMs acc first)
    exact ⟨⟨books.self, books.config, books.sequence, books.pings, books.failures⟩, timers⟩

/-- The timer of a suspected member is out at this reading of the clock. -/
def TimerOut (swim : Swim) (nowMs : Int) (nodeId : String) : Prop :=
  nodeId ≠ swim.localNodeId ∧ swim.Suspects nodeId ∧
    nowMs - swim.suspectedSinceMs.getD nodeId nowMs ≥ min (swim.config.suspectTimeoutMs : Int) (2 ^ 63 - 1)

structure TimersChecked (nowMs : Int) (swim next : Swim) : Prop where
  books : SameBooks swim next
  running : ∀ nodeId, nodeId ≠ swim.localNodeId → swim.Suspects nodeId →
    next.suspectedSinceMs[nodeId]? = some (swim.suspectedSinceMs.getD nodeId nowMs)
  dropped : ∀ nodeId, ¬ (nodeId ≠ swim.localNodeId ∧ swim.Suspects nodeId) →
    next.suspectedSinceMs[nodeId]? = none
  kept : ∀ nodeId, ¬ swim.TimerOut nowMs nodeId → next.membership.get nodeId = swim.membership.get nodeId

theorem checkSuspectTimeouts_spec (swim : Swim) (iteration : Iteration) (nowMs : Int) :
    TimersChecked nowMs swim (swim.checkSuspectTimeouts iteration nowMs).1 := by
  unfold checkSuspectTimeouts
  extract_lets timeout suspected retained timers
  have listed : ∀ nodeId, nodeId ∈ suspected ↔ nodeId ≠ swim.localNodeId ∧ swim.Suspects nodeId :=
    fun _ => mem_suspectedMembers
  obtain ⟨books, same⟩ := expire_foldl_books nowMs timers.2
    ({ swim with suspectedSinceMs := timers.1 }, [])
  have retains : ∀ nodeId, retained[nodeId]? =
      if nodeId ∈ suspected then swim.suspectedSinceMs[nodeId]? else none := by
    intro nodeId
    rw [Std.ExtTreeMap.getElem?_filter']
    cases swim.suspectedSinceMs[nodeId]? with
    | none => simp
    | some since => simp [Option.filter]
  refine ⟨⟨books.self, books.config, books.sequence, books.pings, books.failures⟩, ?_, ?_, ?_⟩
  · intro nodeId other suspects
    have member := (listed nodeId).mpr ⟨other, suspects⟩
    rw [same]
    show timers.1[nodeId]? = _
    rw [(suspectTimer_foldl timeout nowMs suspected (retained, []) nodeId).1, if_pos member]
    dsimp only
    rw [Std.ExtTreeMap.getD_eq_getD_getElem?, retains, if_pos member, ← Std.ExtTreeMap.getD_eq_getD_getElem?]
  · intro nodeId untimed
    have absent : nodeId ∉ suspected := fun member => untimed ((listed nodeId).mp member)
    rw [same]
    show timers.1[nodeId]? = _
    rw [(suspectTimer_foldl timeout nowMs suspected (retained, []) nodeId).1, if_neg absent]
    dsimp only
    rw [retains, if_neg absent]
  · intro nodeId early
    apply expire_foldl_kept
    intro noted
    have out := ((suspectTimer_foldl timeout nowMs suspected (retained, []) nodeId).2.mp noted).resolve_left
      List.not_mem_nil
    apply early
    obtain ⟨other, suspects⟩ := (listed nodeId).mp out.1
    refine ⟨other, suspects, ?_⟩
    have late := out.2
    dsimp only at late
    rwa [Std.ExtTreeMap.getD_eq_getD_getElem?, retains, if_pos out.1,
      ← Std.ExtTreeMap.getD_eq_getD_getElem?] at late

/-! ### The next probe -/

theorem probeCandidate_idle (swim : Swim) (nowU64 : Nat) (targets : List String)
    (best : Option String × Nat) {target : String}
    (chosen : (targets.foldl (swim.probeCandidate nowU64) best).1 = some target) :
    best.1 = some target ∨ ∀ (seq : UInt64) (pending : PendingPing),
      swim.pendingPings[seq]? = some pending → pending.target ≠ target := by
  induction targets generalizing best with
  | nil => exact .inl chosen
  | cons first rest ih =>
    rcases ih _ chosen with before | idle
    · unfold probeCandidate at before
      split at before
      · exact .inl before
      · rename_i free
        dsimp only at before
        split at before
        · obtain rfl := Option.some.inj before
          refine .inr fun seq pending found same => free (List.any_eq_true.mpr ?_)
          exact ⟨(seq, pending), Std.ExtTreeMap.mem_toList_iff_getElem?_eq_some.mpr found,
            decide_eq_true same⟩
        · exact .inl before
    · exact .inr idle

/-- A tick probes at most one member, never the node itself and none that is being probed. -/
theorem generateProbes_cases (swim : Swim) (iteration : Iteration) (nowU64 : Nat) (nowMs : Int) :
    swim.generateProbes iteration nowU64 nowMs = (swim, []) ∨
      ∃ target, target ≠ swim.localNodeId ∧
        (∀ (seq : UInt64) (pending : PendingPing),
          swim.pendingPings[seq]? = some pending → pending.target ≠ target) ∧
        swim.generateProbes iteration nowU64 nowMs =
          ((swim.sendPingTo target nowMs).1, [.sendPing target (swim.sequence + 1)]) := by
  unfold generateProbes
  extract_lets active
  cases chosen : (active.foldl (swim.probeCandidate nowU64) (none, 0)).1 with
  | none => exact .inl rfl
  | some target =>
    have idle := (probeCandidate_idle swim nowU64 active (none, 0) chosen).resolve_left (by simp)
    exact .inr ⟨target, probed_elsewhere swim nowU64 chosen, idle, rfl⟩

/-! ### A whole tick -/

/-- The local view as a tick first sees it, with its own heartbeat. -/
def beaten (swim : Swim) (nowMs : Int) : Swim :=
  { swim with membership := (swim.membership.heartbeat swim.localNodeId nowMs).1 }

/-- The local view of a tick once its timeouts are counted. -/
def counted (swim : Swim) (iteration : Iteration) (nowMs : Int) : Swim :=
  ((swim.beaten nowMs).checkTimeouts iteration nowMs.toNat nowMs).1

/-- The local view of a tick once its suspicion timers are checked. -/
def judged (swim : Swim) (iteration : Iteration) (nowMs : Int) : Swim :=
  ((swim.counted iteration nowMs).checkSuspectTimeouts iteration nowMs).1

theorem tick_fst (swim : Swim) (iteration : Iteration) (nowMs : Int) :
    (swim.tick iteration nowMs).1 =
      ((swim.judged iteration nowMs).generateProbes iteration nowMs.toNat nowMs).1 := rfl

theorem tick_snd (swim : Swim) (iteration : Iteration) (nowMs : Int) :
    (swim.tick iteration nowMs).2 =
      ((swim.beaten nowMs).checkTimeouts iteration nowMs.toNat nowMs).2
        ++ ((swim.counted iteration nowMs).checkSuspectTimeouts iteration nowMs).2
        ++ ((swim.judged iteration nowMs).generateProbes iteration nowMs.toNat nowMs).2 := rfl

theorem standing_beaten (swim : Swim) (nowMs : Int) {target : String} (other : target ≠ swim.localNodeId) :
    (swim.beaten nowMs).standing target = swim.standing target := by
  simp [standing, beaten, Membership.get_heartbeat, Ne.symm other]

theorem counted_spec {swim : Swim} (one : swim.OnePing) (iteration : Iteration) (nowMs : Int) :
    TimedOut nowMs (swim.beaten nowMs) (swim.counted iteration nowMs)
      (swim.overduePings iteration nowMs.toNat) :=
  @checkTimeouts_spec (swim.beaten nowMs) one iteration nowMs.toNat nowMs

theorem judged_spec (swim : Swim) (iteration : Iteration) (nowMs : Int) :
    TimersChecked nowMs (swim.counted iteration nowMs) (swim.judged iteration nowMs) :=
  checkSuspectTimeouts_spec (swim.counted iteration nowMs) iteration nowMs

theorem tick_membership (swim : Swim) (iteration : Iteration) (nowMs : Int) :
    (swim.tick iteration nowMs).1.membership = (swim.judged iteration nowMs).membership ∧
      (swim.tick iteration nowMs).1.suspectedSinceMs = (swim.judged iteration nowMs).suspectedSinceMs := by
  rw [tick_fst]
  rcases generateProbes_cases (swim.judged iteration nowMs) iteration nowMs.toNat nowMs with
    none | ⟨target, _, _, sent⟩
  · rw [none]
    exact ⟨rfl, rfl⟩
  · rw [sent]
    exact ⟨rfl, rfl⟩

/-- The standing of a remote member once the timeouts are counted. -/
theorem counted_standing {swim : Swim} (one : swim.OnePing) (iteration : Iteration) (nowMs : Int)
    {target : String} (other : target ≠ swim.localNodeId) :
    (swim.Overdue nowMs.toNat target → (swim.counted iteration nowMs).standing target =
        (swim.standing target).strike swim.config.failureThreshold nowMs) ∧
      (¬ swim.Overdue nowMs.toNat target →
        (swim.counted iteration nowMs).standing target = swim.standing target) := by
  have spec := counted_spec one iteration nowMs
  have same := standing_beaten swim nowMs other
  constructor
  · intro overdue
    rw [spec.struck target (aimedAt_overdue.mpr overdue), same]
    rfl
  · intro punctual
    rw [spec.kept target fun aimed => punctual (aimedAt_overdue.mp aimed), same]

end Swim

/-! ### The ledger of probes -/

structure Probe where
  target : String
  seq : UInt64
  sentAt : Nat
  deriving DecidableEq

inductive Outcome where
  | timedOut | acknowledged
  deriving DecidableEq

/-- What an observer of messages and actions notes: how many probes went out, those still waiting, and
how the others ended, newest first. -/
structure Ledger where
  sent : Nat
  waiting : List Probe
  outcomes : List (String × Outcome)

namespace Ledger

def new : Ledger := ⟨0, [], []⟩

/-- Closes the waiting probes that `ended` selects. -/
def settle (ledger : Ledger) (ended : Probe → Bool) (outcome : Outcome) : Ledger :=
  { ledger with
    waiting := ledger.waiting.filter fun probe => !ended probe
    outcomes := ((ledger.waiting.filter ended).map fun probe => (probe.target, outcome)) ++ ledger.outcomes }

def launch (sentAt : Nat) (ledger : Ledger) : SwimAction → Ledger
  | .sendPing target seq =>
    { ledger with sent := ledger.sent + 1, waiting := ⟨target, seq, sentAt⟩ :: ledger.waiting }
  | _ => ledger

/-- An ack ends the probe it numbers; a tick ends those that have waited for the timeout, then starts
the one it sends. -/
def observe (config : SwimConfig) (ledger : Ledger) : SwimEvent → List SwimAction → Ledger
  | .message _ (.ack seq) _, _ => ledger.settle (·.seq = seq) .acknowledged
  | .tick _ nowMs, actions =>
    actions.foldl (launch nowMs.toNat)
      (ledger.settle (fun probe => nowMs.toNat - probe.sentAt ≥ config.pingTimeoutMs) .timedOut)
  | _, _ => ledger

/-- The outcomes of the probes to one target, newest first. -/
def outcomesOf (ledger : Ledger) (target : String) : List Outcome :=
  (ledger.outcomes.filter (·.1 = target)).map Prod.snd

/-- How many of the last probes to the target timed out, with none acknowledged in between. -/
def streak (ledger : Ledger) (target : String) : Nat :=
  ((ledger.outcomesOf target).takeWhile (· = .timedOut)).length

end Ledger

namespace Swim

/-- The actions a step asks for. -/
def reaction (swim : Swim) : SwimEvent → List SwimAction
  | .message sender message nowMs => (swim.onMessage sender message nowMs).2
  | .tick iteration nowMs => (swim.tick iteration nowMs).2
  | _ => []

/-- The states a detector reaches, with the ledger of what was seen on the way. -/
inductive Observed : Swim → Ledger → Prop
  | start (localNodeId : String) (config : SwimConfig) (localRegister : MemberRegister) :
      Observed (new localNodeId config localRegister) .new
  | step {swim : Swim} {ledger : Ledger} (observed : Observed swim ledger) (event : SwimEvent) :
      Observed (swim.step event) (ledger.observe swim.config event (swim.reaction event))

end Swim

namespace Ledger

theorem outcomesOf_settle (ledger : Ledger) (ended : Probe → Bool) (outcome : Outcome) (target : String) :
    (ledger.settle ended outcome).outcomesOf target =
      List.replicate (ledger.waiting.filter fun probe => ended probe && probe.target = target).length outcome
        ++ ledger.outcomesOf target := by
  unfold outcomesOf settle
  rw [List.filter_append, List.map_append, List.filter_map, List.map_map, List.filter_filter]
  congr 1
  rw [List.eq_replicate_iff]
  refine ⟨?_, ?_⟩
  · simp [Bool.and_comm]
  · intro listed member
    obtain ⟨probe, _, rfl⟩ := List.mem_map.mp member
    rfl

theorem streak_settle (ledger : Ledger) (ended : Probe → Bool) (target : String) :
    (ledger.settle ended .timedOut).streak target =
      (ledger.waiting.filter fun probe => ended probe && probe.target = target).length
        + ledger.streak target := by
  unfold streak
  rw [outcomesOf_settle, List.takeWhile_append_of_pos]
  · simp
  · simp

theorem streak_settle_other (ledger : Ledger) (ended : Probe → Bool) (outcome : Outcome) {target : String}
    (none : ∀ probe ∈ ledger.waiting, ended probe = true → probe.target ≠ target) :
    (ledger.settle ended outcome).streak target = ledger.streak target := by
  have empty : (ledger.waiting.filter fun probe => ended probe && probe.target = target) = [] := by
    rw [List.filter_eq_nil_iff]
    intro probe member
    simpa using none probe member
  unfold streak
  rw [outcomesOf_settle, empty]
  rfl

end Ledger

/-! ### What a step does to the books -/

namespace Swim

theorem onMessage_timers (swim : Swim) (sender : String) (message : SwimMessage) (nowMs : Int) :
    (swim.onMessage sender message nowMs).1.suspectedSinceMs = swim.suspectedSinceMs := by
  cases message <;> simp only [onMessage, handleAck, handleSuspectState, handleAliveState, handleLeaveState,
    refuteIfDominated, refuteAndBroadcast] <;> (repeat' split) <;> rfl

theorem onMessage_books (swim : Swim) (sender : String) {message : SwimMessage}
    (other : ∀ seq, message ≠ .ack seq) (nowMs : Int) :
    SameBooks swim (swim.onMessage sender message nowMs).1 := by
  cases message with
  | ping seq => exact .refl swim
  | ack seq => exact absurd rfl (other seq)
  | suspect nodeId incarnation =>
    simp only [onMessage, handleSuspectState, refuteAndBroadcast]
    repeat' split
    all_goals exact ⟨rfl, rfl, rfl, rfl, rfl⟩
  | alive register =>
    simp only [onMessage, handleAliveState, refuteIfDominated, refuteAndBroadcast]
    repeat' split
    all_goals exact ⟨rfl, rfl, rfl, rfl, rfl⟩
  | leave nodeId incarnation =>
    simp only [onMessage, handleLeaveState]
    repeat' split
    all_goals exact ⟨rfl, rfl, rfl, rfl, rfl⟩

/-- Only acks and ticks touch the books of the detector. -/
theorem step_cases (swim : Swim) (event : SwimEvent) :
    (∃ sender seq nowMs, event = .message sender (.ack seq) nowMs) ∨
      (∃ iteration nowMs, event = .tick iteration nowMs) ∨
      SameBooks swim (swim.step event) ∧
        ∀ (ledger : Ledger) actions, ledger.observe swim.config event actions = ledger := by
  cases event with
  | message sender message nowMs =>
    by_cases ack : ∃ seq, message = .ack seq
    · obtain ⟨seq, rfl⟩ := ack
      exact .inl ⟨sender, seq, nowMs, rfl⟩
    · have other : ∀ seq, message ≠ .ack seq := fun seq same => ack ⟨seq, same⟩
      refine .inr (.inr ⟨onMessage_books swim sender other nowMs, fun ledger actions => ?_⟩)
      cases message with
      | ack seq => exact absurd rfl (other seq)
      | _ => rfl
  | tick iteration nowMs => exact .inr (.inl ⟨iteration, nowMs, rfl⟩)
  | leave nowMs => exact .inr (.inr ⟨⟨rfl, rfl, rfl, rfl, rfl⟩, fun _ _ => rfl⟩)
  | annotate annotations nowMs =>
    refine .inr (.inr ⟨?_, fun _ _ => rfl⟩)
    unfold step
    dsimp only
    split
    · exact ⟨rfl, rfl, rfl, rfl, rfl⟩
    · exact .refl swim

/-- What an ack does to the books: the ping it numbers is gone, and its target's failures with it. -/
theorem handleAck_cases (swim : Swim) (seq : UInt64) :
    (swim.pendingPings[seq]? = none ∧ swim.handleAck seq = swim) ∨
      ∃ pending, swim.pendingPings[seq]? = some pending ∧
        swim.handleAck seq =
          { swim with
            pendingPings := swim.pendingPings.erase seq
            consecutiveFailures := swim.consecutiveFailures.erase pending.target } := by
  unfold handleAck
  cases found : swim.pendingPings[seq]? with
  | none => exact .inl ⟨rfl, rfl⟩
  | some pending => exact .inr ⟨pending, rfl, rfl⟩

/-! ### One ping per target, and counters below the threshold -/

structure Tidy (swim : Swim) : Prop where
  one : swim.OnePing
  elsewhere : swim.PingsElsewhere
  counters : ∀ (target : String) (count : Nat), swim.consecutiveFailures[target]? = some count →
    1 ≤ count ∧ count < max swim.config.failureThreshold 1

theorem SameBooks.tidy {swim next : Swim} (books : SameBooks swim next) (tidy : swim.Tidy) : next.Tidy where
  one := by
    unfold OnePing
    rw [books.pings]
    exact tidy.one
  elsewhere := by
    unfold PingsElsewhere
    rw [books.pings, books.self]
    exact tidy.elsewhere
  counters := by
    rw [books.failures, books.config]
    exact tidy.counters

theorem handleAck_tidy {swim : Swim} (tidy : swim.Tidy) (seq : UInt64) : (swim.handleAck seq).Tidy := by
  rcases handleAck_cases swim seq with ⟨_, same⟩ | ⟨pending, _, same⟩
  · rw [same]
    exact tidy
  · rw [same]
    have fewer : ∀ (other : UInt64) (waiting : PendingPing),
        (swim.pendingPings.erase seq)[other]? = some waiting → swim.pendingPings[other]? = some waiting := by
      intro other waiting found
      rw [Std.ExtTreeMap.getElem?_erase] at found
      split at found
      · cases found
      · exact found
    refine ⟨tidy.one.of_subset fewer, fun other waiting found => tidy.elsewhere other waiting (fewer _ _ found), ?_⟩
    intro target count found
    rw [Std.ExtTreeMap.getElem?_erase] at found
    split at found
    · cases found
    · exact tidy.counters target count found

theorem strike_counter {threshold count : Nat} {nowMs : Int} {standing : Standing}
    (struck : (standing.strike threshold nowMs).failures = some count) :
    1 ≤ count ∧ count < max threshold 1 := by
  unfold Standing.strike at struck
  dsimp only at struck
  split at struck
  · cases struck
    omega
  · cases struck

theorem counted_tidy {swim : Swim} (tidy : swim.Tidy) (iteration : Iteration) (nowMs : Int) :
    (swim.counted iteration nowMs).Tidy := by
  have spec := counted_spec tidy.one iteration nowMs
  refine ⟨spec.onePing tidy.one, ?_, ?_⟩
  · intro seq pending found
    rw [spec.pings] at found
    split at found
    · cases found
    · rw [spec.clocks.self]
      exact tidy.elsewhere seq pending found
  · intro target count found
    rw [spec.clocks.config]
    by_cases aimed : (swim.beaten nowMs).AimedAt (swim.overduePings iteration nowMs.toNat) target
    · have struck := congrArg Standing.failures (spec.struck target aimed)
      exact strike_counter (struck.symm.trans found)
    · have kept := congrArg Standing.failures (spec.kept target aimed)
      exact tidy.counters target count (kept.symm.trans found)

theorem sendPingTo_tidy {swim : Swim} (tidy : swim.Tidy) {target : String} (other : target ≠ swim.localNodeId)
    (idle : ∀ (seq : UInt64) (pending : PendingPing),
      swim.pendingPings[seq]? = some pending → pending.target ≠ target) (nowMs : Int) :
    (swim.sendPingTo target nowMs).1.Tidy := by
  refine ⟨?_, ?_, tidy.counters⟩
  · intro seq seq' pending pending' found found' same
    unfold sendPingTo at found found'
    rw [Std.ExtTreeMap.getElem?_insert] at found found'
    split at found
    · split at found'
      · rename_i first second
        exact (Std.LawfulEqCmp.eq_of_compare first).symm.trans (Std.LawfulEqCmp.eq_of_compare second)
      · cases found
        exact absurd same.symm (idle seq' pending' found')
    · split at found'
      · cases found'
        exact absurd same (idle seq pending found)
      · exact tidy.one seq seq' pending pending' found found' same
  · have sent : Gossiped (fun _ => False) swim (swim.sendPingTo target nowMs).1 :=
      sendPingTo_gossips tidy.elsewhere other nowMs
    exact sent.pings

theorem tick_tidy {swim : Swim} (tidy : swim.Tidy) (iteration : Iteration) (nowMs : Int) :
    (swim.tick iteration nowMs).1.Tidy := by
  have judged := (judged_spec swim iteration nowMs).books.tidy (counted_tidy tidy iteration nowMs)
  rw [tick_fst]
  rcases generateProbes_cases (swim.judged iteration nowMs) iteration nowMs.toNat nowMs with
    none | ⟨target, other, idle, sent⟩
  · rw [none]
    exact judged
  · rw [sent]
    exact sendPingTo_tidy judged other idle nowMs

theorem new_tidy (localNodeId : String) (config : SwimConfig) (localRegister : MemberRegister) :
    (new localNodeId config localRegister).Tidy := by
  refine ⟨?_, ?_, ?_⟩
  · intro seq seq' pending pending' found
    simp [new] at found
  · intro seq pending found
    simp [new] at found
  · intro target count found
    simp [new] at found

theorem step_tidy {swim : Swim} (tidy : swim.Tidy) (event : SwimEvent) : (swim.step event).Tidy := by
  rcases step_cases swim event with ⟨sender, seq, nowMs, rfl⟩ | ⟨iteration, nowMs, rfl⟩ | ⟨books, _⟩
  · exact handleAck_tidy tidy seq
  · exact tick_tidy tidy iteration nowMs
  · exact books.tidy tidy

/-! ### The books agree with the ledger -/

structure Agrees (swim : Swim) (ledger : Ledger) : Prop where
  tidy : swim.Tidy
  sequence : swim.sequence.toNat = ledger.sent
  waiting : ∀ probe, probe ∈ ledger.waiting ↔
    swim.pendingPings[probe.seq]? = some ⟨probe.target, probe.sentAt⟩
  numbered : ∀ (seq : UInt64) (pending : PendingPing),
    swim.pendingPings[seq]? = some pending → seq.toNat ≤ ledger.sent
  failures : ∀ target : String, (swim.consecutiveFailures[target]?).getD 0 ≤ ledger.streak target

theorem SameBooks.agrees {swim next : Swim} {ledger : Ledger} (books : SameBooks swim next)
    (agrees : Agrees swim ledger) : Agrees next ledger where
  tidy := books.tidy agrees.tidy
  sequence := by
    rw [books.sequence]
    exact agrees.sequence
  waiting := by
    rw [books.pings]
    exact agrees.waiting
  numbered := by
    rw [books.pings]
    exact agrees.numbered
  failures := by
    rw [books.failures]
    exact agrees.failures

theorem new_agrees (localNodeId : String) (config : SwimConfig) (localRegister : MemberRegister) :
    Agrees (new localNodeId config localRegister) .new where
  tidy := new_tidy localNodeId config localRegister
  sequence := rfl
  waiting := by simp [new, Ledger.new]
  numbered := by simp [new]
  failures := by simp [new]

theorem Agrees.pending {swim : Swim} {ledger : Ledger} (agrees : Agrees swim ledger) {seq : UInt64}
    {pending : PendingPing} (found : swim.pendingPings[seq]? = some pending) :
    ⟨pending.target, seq, pending.sentAt⟩ ∈ ledger.waiting :=
  (agrees.waiting _).mpr found

theorem handleAck_agrees {swim : Swim} {ledger : Ledger} (agrees : Agrees swim ledger) (seq : UInt64) :
    Agrees (swim.handleAck seq) (ledger.settle (·.seq = seq) .acknowledged) := by
  have tidy := handleAck_tidy agrees.tidy seq
  rcases handleAck_cases swim seq with ⟨missing, same⟩ | ⟨pending, found, same⟩
  · rw [same] at tidy ⊢
    have none : ∀ probe ∈ ledger.waiting, probe.seq ≠ seq := by
      rintro probe member rfl
      have waits := (agrees.waiting probe).mp member
      rw [missing] at waits
      cases waits
    have empty : ledger.waiting.filter (fun probe => !decide (probe.seq = seq)) = ledger.waiting := by
      rw [List.filter_eq_self]
      intro probe member
      simpa using none probe member
    refine ⟨tidy, agrees.sequence, ?_, agrees.numbered, ?_⟩
    · intro probe
      show probe ∈ ledger.waiting.filter _ ↔ _
      rw [empty]
      exact agrees.waiting probe
    · intro target
      rw [Ledger.streak_settle_other]
      · exact agrees.failures target
      · intro probe member ended
        exact absurd (of_decide_eq_true ended) (none probe member)
  · rw [same] at tidy ⊢
    refine ⟨tidy, agrees.sequence, ?_, ?_, ?_⟩
    · intro probe
      show probe ∈ ledger.waiting.filter _ ↔ (swim.pendingPings.erase seq)[probe.seq]? = _
      rw [List.mem_filter, agrees.waiting, Std.ExtTreeMap.getElem?_erase]
      by_cases ended : probe.seq = seq
      · simp [ended]
      · simp [ended, Ne.symm ended]
    · intro other waiting still
      apply agrees.numbered other waiting
      change (swim.pendingPings.erase seq)[other]? = _ at still
      rw [Std.ExtTreeMap.getElem?_erase] at still
      split at still
      · cases still
      · exact still
    · intro target
      show ((swim.consecutiveFailures.erase pending.target)[target]?).getD 0 ≤ _
      rw [Std.ExtTreeMap.getElem?_erase]
      by_cases aimed : pending.target = target
      · simp [aimed]
      · have other : ∀ probe ∈ ledger.waiting, decide (probe.seq = seq) = true → probe.target ≠ target := by
          intro probe member ended
          have waits := (agrees.waiting probe).mp member
          rw [of_decide_eq_true ended, found] at waits
          cases waits
          exact aimed
        rw [Ledger.streak_settle_other _ _ _ other]
        simpa [aimed] using agrees.failures target

/-- Every strike of a tick is a timeout in the ledger. -/
theorem strike_failures (threshold : Nat) (nowMs : Int) (standing : Standing) :
    ((standing.strike threshold nowMs).failures).getD 0 ≤ standing.failures.getD 0 + 1 := by
  unfold Standing.strike
  dsimp only
  split <;> simp

theorem Agrees.struck {swim : Swim} {ledger : Ledger} (agrees : Agrees swim ledger) {nowU64 : Nat}
    {target : String} (overdue : swim.Overdue nowU64 target) :
    ledger.streak target + 1 ≤
      (ledger.settle (fun probe => nowU64 - probe.sentAt ≥ swim.config.pingTimeoutMs) .timedOut).streak target := by
  obtain ⟨seq, pending, found, aimed, late⟩ := overdue
  rw [Ledger.streak_settle]
  have listed : (⟨pending.target, seq, pending.sentAt⟩ : Probe) ∈ ledger.waiting.filter fun probe =>
      nowU64 - probe.sentAt ≥ swim.config.pingTimeoutMs && probe.target = target := by
    rw [List.mem_filter]
    exact ⟨agrees.pending found, by simp [aimed, late]⟩
  have positive := List.length_pos_of_mem listed
  omega

theorem counted_agrees {swim : Swim} {ledger : Ledger} (agrees : Agrees swim ledger) (iteration : Iteration)
    (nowMs : Int) :
    Agrees (swim.counted iteration nowMs)
      (ledger.settle (fun probe => nowMs.toNat - probe.sentAt ≥ swim.config.pingTimeoutMs) .timedOut) := by
  have spec := counted_spec agrees.tidy.one iteration nowMs
  refine ⟨counted_tidy agrees.tidy iteration nowMs, ?_, ?_, ?_, ?_⟩
  · rw [spec.clocks.sequence]
    exact agrees.sequence
  · intro probe
    show probe ∈ ledger.waiting.filter _ ↔ _
    rw [List.mem_filter, agrees.waiting, spec.pings]
    by_cases late : probe.seq ∈ swim.overduePings iteration nowMs.toNat
    · obtain ⟨pending, found, overdue⟩ := mem_overduePings.mp late
      rw [if_pos late, found]
      constructor
      · rintro ⟨same, punctual⟩
        cases same
        simp at punctual overdue
        omega
      · intro absurd
        cases absurd
    · rw [if_neg late]
      show _ ↔ swim.pendingPings[probe.seq]? = _
      constructor
      · exact And.left
      · intro found
        refine ⟨found, ?_⟩
        rw [mem_overduePings] at late
        have punctual := fun overdue => late ⟨_, found, overdue⟩
        simpa using punctual
  · intro seq pending found
    rw [spec.pings] at found
    split at found
    · cases found
    · exact agrees.numbered seq pending found
  · intro target
    by_cases aimed : (swim.beaten nowMs).AimedAt (swim.overduePings iteration nowMs.toNat) target
    · have more := agrees.struck (aimedAt_overdue.mp aimed)
      have failures : (swim.counted iteration nowMs).consecutiveFailures[target]? = _ :=
        congrArg Standing.failures (spec.struck target aimed)
      have bound := strike_failures (swim.beaten nowMs).config.failureThreshold nowMs
        ((swim.beaten nowMs).standing target)
      rw [failures]
      calc _ ≤ (swim.consecutiveFailures[target]?).getD 0 + 1 := bound
        _ ≤ ledger.streak target + 1 := Nat.add_le_add_right (agrees.failures target) 1
        _ ≤ _ := more
    · have failures : (swim.counted iteration nowMs).consecutiveFailures[target]? =
          swim.consecutiveFailures[target]? := congrArg Standing.failures (spec.kept target aimed)
      rw [failures, Ledger.streak_settle]
      exact Nat.le_add_left_of_le (agrees.failures target)

/-! ### Only the last stage of a tick sends probes -/

def Silent (actions : List SwimAction) : Prop := ∀ target seq, .sendPing target seq ∉ actions

theorem silent_nil : Silent [] := fun _ _ => List.not_mem_nil

theorem Silent.append {first second : List SwimAction} (silent : Silent first) (also : Silent second) :
    Silent (first ++ second) := by
  intro target seq member
  rcases List.mem_append.mp member with early | late
  · exact silent target seq early
  · exact also target seq late

theorem silent_broadcast (message : SwimMessage) : Silent [.broadcast message] := by
  intro target seq member
  cases List.mem_singleton.mp member

theorem silent_foldl {α : Type} {turn : Swim × List SwimAction → α → Swim × List SwimAction}
    (turns : ∀ acc item, Silent acc.2 → Silent (turn acc item).2) (items : List α)
    {acc : Swim × List SwimAction} (silent : Silent acc.2) : Silent (items.foldl turn acc).2 := by
  induction items generalizing acc with
  | nil => exact silent
  | cons item rest ih => exact ih (turns acc item silent)

theorem markSuspected_silent (swim : Swim) (target : String) (nowMs : Int) :
    Silent (swim.markSuspected target nowMs).2 := by
  unfold markSuspected
  dsimp only
  split
  · exact silent_nil
  · split
    · exact silent_broadcast _
    · exact silent_nil

theorem timedOut_silent (nowMs : Int) (acc : Swim × List SwimAction) (seq : UInt64) (silent : Silent acc.2) :
    Silent (timedOut nowMs acc seq).2 := by
  unfold timedOut
  split
  · exact silent.append (markSuspected_silent _ _ nowMs)
  · exact silent

theorem expire_silent (nowMs : Int) (acc : Swim × List SwimAction) (nodeId : String) (silent : Silent acc.2) :
    Silent (expire nowMs acc nodeId).2 := by
  unfold expire
  dsimp only
  split
  · exact silent.append (silent_broadcast _)
  · exact silent

theorem launch_silent {actions : List SwimAction} (silent : Silent actions) (sentAt : Nat) (ledger : Ledger) :
    actions.foldl (Ledger.launch sentAt) ledger = ledger := by
  induction actions generalizing ledger with
  | nil => rfl
  | cons action rest ih =>
    have quiet : Ledger.launch sentAt ledger action = ledger := by
      cases action with
      | sendPing target seq => exact absurd List.mem_cons_self (silent target seq)
      | sendAck recipient seq => rfl
      | broadcast message => rfl
    rw [List.foldl_cons, quiet]
    exact ih (fun target seq member => silent target seq (List.mem_cons_of_mem _ member)) ledger

/-- The ledger of a tick: the timeouts, then the probe it sends. -/
theorem observe_tick (swim : Swim) (ledger : Ledger) (iteration : Iteration) (nowMs : Int) :
    ledger.observe swim.config (.tick iteration nowMs) (swim.reaction (.tick iteration nowMs)) =
      ((swim.judged iteration nowMs).generateProbes iteration nowMs.toNat nowMs).2.foldl
        (Ledger.launch nowMs.toNat)
        (ledger.settle (fun probe => nowMs.toNat - probe.sentAt ≥ swim.config.pingTimeoutMs) .timedOut) := by
  have timeouts : Silent ((swim.beaten nowMs).checkTimeouts iteration nowMs.toNat nowMs).2 :=
    silent_foldl (timedOut_silent nowMs) _ silent_nil
  have suspects : Silent ((swim.counted iteration nowMs).checkSuspectTimeouts iteration nowMs).2 :=
    silent_foldl (expire_silent nowMs) _ silent_nil
  show List.foldl (Ledger.launch nowMs.toNat) _ (swim.tick iteration nowMs).2 = _
  rw [tick_snd, List.foldl_append, launch_silent (timeouts.append suspects)]

theorem sendPingTo_agrees {swim : Swim} {ledger : Ledger} (agrees : Agrees swim ledger)
    (few : ledger.sent + 1 < 2 ^ 64) {target : String} (other : target ≠ swim.localNodeId)
    (idle : ∀ (seq : UInt64) (pending : PendingPing),
      swim.pendingPings[seq]? = some pending → pending.target ≠ target) (nowMs : Int) :
    Agrees (swim.sendPingTo target nowMs).1
      (ledger.launch nowMs.toNat (.sendPing target (swim.sequence + 1))) := by
  have next : (swim.sequence + 1).toNat = ledger.sent + 1 := by
    have one : (1 : UInt64).toNat = 1 := rfl
    rw [UInt64.toNat_add, agrees.sequence, one, Nat.mod_eq_of_lt few]
  have fresh : swim.pendingPings[swim.sequence + 1]? = none := by
    cases found : swim.pendingPings[swim.sequence + 1]? with
    | none => rfl
    | some pending =>
      have bound := agrees.numbered _ _ found
      omega
  refine ⟨sendPingTo_tidy agrees.tidy other idle nowMs, next, ?_, ?_, agrees.failures⟩
  · intro probe
    show probe ∈ _ :: ledger.waiting ↔ (swim.pendingPings.insert (swim.sequence + 1) _)[probe.seq]? = _
    rw [List.mem_cons, agrees.waiting, Std.ExtTreeMap.getElem?_insert]
    by_cases same : swim.sequence + 1 = probe.seq
    · rw [← same, fresh, if_pos (by simp)]
      constructor
      · rintro (rfl | absurd)
        · rfl
        · cases absurd
      · intro named
        obtain ⟨aimed, sent⟩ := PendingPing.mk.inj (Option.some.inj named)
        obtain ⟨target', seq, sentAt⟩ := probe
        exact .inl (by rw [aimed, sent, same])
    · have another : probe ≠ ⟨target, swim.sequence + 1, nowMs.toNat⟩ := by
        rintro rfl
        exact same rfl
      simp [same, another]
  · intro seq pending found
    change (swim.pendingPings.insert (swim.sequence + 1) _)[seq]? = _ at found
    show seq.toNat ≤ ledger.sent + 1
    rw [Std.ExtTreeMap.getElem?_insert] at found
    split at found
    · rename_i same
      rw [← Std.LawfulEqCmp.eq_of_compare same, next]
    · exact Nat.le_succ_of_le (agrees.numbered seq pending found)

theorem tick_agrees {swim : Swim} {ledger : Ledger} (agrees : Agrees swim ledger) (iteration : Iteration)
    (nowMs : Int)
    (few : (ledger.observe swim.config (.tick iteration nowMs)
      (swim.reaction (.tick iteration nowMs))).sent < 2 ^ 64) :
    Agrees (swim.tick iteration nowMs).1
      (ledger.observe swim.config (.tick iteration nowMs) (swim.reaction (.tick iteration nowMs))) := by
  have judged := (judged_spec swim iteration nowMs).books.agrees (counted_agrees agrees iteration nowMs)
  rw [observe_tick] at few ⊢
  rw [tick_fst]
  rcases generateProbes_cases (swim.judged iteration nowMs) iteration nowMs.toNat nowMs with
    none | ⟨target, other, idle, sent⟩
  · rw [none]
    exact judged
  · rw [sent] at few ⊢
    exact sendPingTo_agrees judged few other idle nowMs

theorem sent_le_launch (sentAt : Nat) (actions : List SwimAction) (ledger : Ledger) :
    ledger.sent ≤ (actions.foldl (Ledger.launch sentAt) ledger).sent := by
  induction actions generalizing ledger with
  | nil => exact Nat.le_refl _
  | cons action rest ih =>
    have next : ledger.sent ≤ (ledger.launch sentAt action).sent := by
      cases action with
      | sendPing target seq => exact Nat.le_succ _
      | sendAck recipient seq => exact Nat.le_refl _
      | broadcast message => exact Nat.le_refl _
    exact next.trans (ih _)

theorem outcomes_launch (sentAt : Nat) (actions : List SwimAction) (ledger : Ledger) :
    (actions.foldl (Ledger.launch sentAt) ledger).outcomes = ledger.outcomes := by
  induction actions generalizing ledger with
  | nil => rfl
  | cons action rest ih =>
    rw [List.foldl_cons, ih]
    cases action with
    | _ => rfl

theorem sent_le_observe (config : SwimConfig) (ledger : Ledger) (event : SwimEvent) (actions : List SwimAction) :
    ledger.sent ≤ (ledger.observe config event actions).sent := by
  cases event with
  | message sender message nowMs =>
    cases message with
    | _ => exact Nat.le_refl _
  | tick iteration nowMs => exact sent_le_launch nowMs.toNat actions (ledger.settle _ .timedOut)
  | leave nowMs => exact Nat.le_refl _
  | annotate annotations nowMs => exact Nat.le_refl _

theorem Observed.agrees {swim : Swim} {ledger : Ledger} (observed : Observed swim ledger)
    (few : ledger.sent < 2 ^ 64) : Agrees swim ledger := by
  induction observed with
  | start localNodeId config localRegister => exact new_agrees localNodeId config localRegister
  | @step swim ledger observed event ih =>
    have before := ih ((sent_le_observe _ _ _ _).trans_lt few)
    rcases step_cases swim event with ⟨sender, seq, nowMs, rfl⟩ | ⟨iteration, nowMs, rfl⟩ | ⟨books, same⟩
    · exact handleAck_agrees before seq
    · exact tick_agrees before iteration nowMs few
    · rw [same]
      exact books.agrees before

/-! ### The verdict of a tick -/

/-- A member that a tick no longer holds active was struck, with the threshold reached. -/
theorem tick_strikes {swim : Swim} (one : swim.OnePing) {iteration : Iteration} {nowMs : Int}
    {target : String} (other : target ≠ swim.localNodeId) {before after : MemberRegister}
    (known : swim.membership.get target = some before) (active : before.state = .active)
    (found : (swim.tick iteration nowMs).1.membership.get target = some after)
    (moved : after.state ≠ .active) :
    swim.Overdue nowMs.toNat target ∧
      swim.config.failureThreshold ≤ (swim.consecutiveFailures[target]?).getD 0 + 1 := by
  by_contra spared
  obtain ⟨struck, kept⟩ := counted_standing one iteration nowMs other
  have register : (swim.counted iteration nowMs).membership.get target = some before := by
    by_cases overdue : swim.Overdue nowMs.toNat target
    · have low : (swim.consecutiveFailures[target]?).getD 0 + 1 < swim.config.failureThreshold := by
        by_contra reached
        exact spared ⟨overdue, Nat.not_lt.mp reached⟩
      have standing := congrArg Standing.register (struck overdue)
      rw [Standing.strike_counts low] at standing
      exact standing.trans known
    · exact (congrArg Standing.register (kept overdue)).trans known
  have unsuspected : ¬ (swim.counted iteration nowMs).Suspects target := by
    rintro ⟨register', found', suspected⟩
    rw [register] at found'
    cases found'
    rw [active] at suspected
    cases suspected
  have same := (judged_spec swim iteration nowMs).kept target fun out => unsuspected out.2.1
  rw [(tick_membership swim iteration nowMs).1, same, register] at found
  cases found
  exact moved active

/-- Probes, counters and suspicions of every state a detector reaches before it has sent `2 ^ 64`
probes. -/
theorem detector_accounts {swim : Swim} {ledger : Ledger} (observed : Observed swim ledger)
    (few : ledger.sent < 2 ^ 64) :
    (∀ (seq seq' : UInt64) (pending pending' : PendingPing), swim.pendingPings[seq]? = some pending →
      swim.pendingPings[seq']? = some pending' → pending.target = pending'.target → seq = seq') ∧
    (∀ (seq : UInt64) (pending : PendingPing), swim.pendingPings[seq]? = some pending →
      pending.target ≠ swim.localNodeId) ∧
    (∀ (target : String) (count : Nat), swim.consecutiveFailures[target]? = some count →
      1 ≤ count ∧ count < max swim.config.failureThreshold 1) ∧
    ∀ (iteration : Iteration) (nowMs : Int) (target : String) (before after : MemberRegister),
      target ≠ swim.localNodeId → swim.membership.get target = some before → before.state = .active →
      (swim.tick iteration nowMs).1.membership.get target = some after → after.state ≠ .active →
      max swim.config.failureThreshold 1 ≤
        (ledger.observe swim.config (.tick iteration nowMs)
          (swim.reaction (.tick iteration nowMs))).streak target := by
  have agrees := observed.agrees few
  refine ⟨agrees.tidy.one, agrees.tidy.elsewhere, agrees.tidy.counters, ?_⟩
  intro iteration nowMs target before after other known active found moved
  obtain ⟨overdue, reached⟩ := tick_strikes agrees.tidy.one other known active found moved
  have struck := agrees.struck overdue
  have failures := agrees.failures target
  rw [observe_tick, Ledger.streak, Ledger.outcomesOf, outcomes_launch]
  change _ ≤ Ledger.streak _ target
  omega

/-- A detector that suspects after one failure, and has probed its only peer. -/
def probing : Swim :=
  (((new "self" ⟨1000, 3000, 1, 30000⟩ (.new "self" "127.0.0.1:1" 1 0)).step
    (.message "peer" (.alive (.new "peer" "127.0.0.1:2" 1 0)) 0)).step
      (.tick ⟨.sorted _, .sorted _⟩ 1000))

theorem unanswered_probe_accounts :
    ∃ ledger, Observed probing ledger ∧ ledger.sent = 1 ∧
      max probing.config.failureThreshold 1 ≤
        (ledger.observe probing.config (.tick ⟨.sorted _, .sorted _⟩ 4000)
          (probing.reaction (.tick ⟨.sorted _, .sorted _⟩ 4000))).streak "peer" := by
  have observed := ((Observed.start "self" ⟨1000, 3000, 1, 30000⟩ (.new "self" "127.0.0.1:1" 1 0)).step
    (.message "peer" (.alive (.new "peer" "127.0.0.1:2" 1 0)) 0)).step (.tick ⟨.sorted _, .sorted _⟩ 1000)
  refine ⟨_, observed, by decide +kernel, ?_⟩
  obtain ⟨_, _, _, suspicions⟩ := detector_accounts observed (by decide +kernel)
  exact suspicions ⟨.sorted _, .sorted _⟩ 4000 "peer" (.new "peer" "127.0.0.1:2" 1 0)
    ((MemberRegister.new "peer" "127.0.0.1:2" 1 0).suspect 4000) (by decide) (by decide +kernel) rfl
    (by decide +kernel) (by decide)

end Swim

end Lycoris.Cluster
