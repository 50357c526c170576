import Lycoris.Cluster.Probes
import Lycoris.Lib.Runs

/-!
What a suspicion is worth. A member goes offline when its timer is out, and the timer is set and dropped
by ticks alone: as long as no member is suspected again while its old timer still runs, the verdict rests
on an unbroken suspicion. A `Suspect` rumor at a newer incarnation is recorded as such exactly for
members that are not terminal.
-/

namespace Lycoris.Cluster
open Lib

/-! ### A rumor at a newer incarnation -/

/-- Every terminal register of the view rests on a report about its node and incarnation. -/
def Reported (reports : String → UInt64 → Prop) (membership : Membership) : Prop :=
  ∀ nodeId register, membership.get nodeId = some register → register.state.isActive = false →
    reports nodeId register.incarnation

namespace MemberRegister

theorem merge_newer {self other : MemberRegister}
    (newer : self.incarnation.toNat < other.incarnation.toNat) : self.merge other = other := by
  have dominates : other.dominates self = true := dominates_iff.mpr (orderKey_lt.mpr (.inl newer))
  unfold merge
  rw [if_pos dominates]

end MemberRegister

namespace Swim

/-- Handling a `Suspect` about a remote member at a newer incarnation lifts the stored register to that
incarnation and leaves every other member alone. -/
theorem get_newer_suspect {swim : Swim} {nodeId : String} {known : MemberRegister} {incarnation : UInt64}
    (remote : nodeId ≠ swim.localNodeId) (found : swim.membership.get nodeId = some known)
    (newer : known.incarnation < incarnation) (sender : String) (nowMs : Int) (other : String) :
    (swim.onMessage sender (.suspect nodeId incarnation) nowMs).1.membership.get other =
      if nodeId = other then some (({ known with incarnation := incarnation } : MemberRegister).suspect nowMs)
      else swim.membership.get other := by
  have current : ¬ known.incarnation > incarnation := UInt64.lt_asymm newer
  simp only [onMessage, handleSuspectState, if_neg remote, found, if_neg current]
  have named : (({ known with incarnation := incarnation } : MemberRegister).suspect nowMs).nodeId = nodeId := by
    have keyed := Membership.nodeId_of_get found
    rw [Membership.nodeId_suspect]
    exact keyed
  have lifted : (({ known with incarnation := incarnation } : MemberRegister).suspect nowMs).incarnation =
      incarnation := by
    unfold MemberRegister.suspect
    split <;> rfl
  by_cases same : nodeId = other
  · subst same
    rw [if_pos rfl, Membership.get_mergeRegister_known named found, MemberRegister.merge_newer]
    rw [lifted]
    exact UInt64.lt_iff_toNat_lt.mp newer
  · rw [if_neg same, Membership.get_mergeRegister_other (named ▸ same)]

/-- The rumor is taken for what it says exactly when the member is not recorded as leaving or offline. -/
theorem newer_suspicion_taken_iff {swim : Swim} {nodeId : String} {known : MemberRegister}
    {incarnation : UInt64} (remote : nodeId ≠ swim.localNodeId)
    (found : swim.membership.get nodeId = some known) (newer : known.incarnation < incarnation)
    (sender : String) (nowMs : Int) :
    let next := (swim.onMessage sender (.suspect nodeId incarnation) nowMs).1
    ((∃ after, next.membership.get nodeId = some after ∧ after.state = .suspected ∧
        after.incarnation = incarnation) ∧
      ∀ reports, Reported reports swim.membership → Reported reports next.membership) ↔
      known.state.isActive = true := by
  intro next
  have get := get_newer_suspect remote found newer sender nowMs
  constructor
  · rintro ⟨⟨after, taken, suspected, _⟩, _⟩
    rw [get, if_pos rfl] at taken
    cases taken
    cases state : known.state <;> simp_all [MemberRegister.suspect, MemberState.isActive]
  · intro active
    have state : (({ known with incarnation := incarnation } : MemberRegister).suspect nowMs).state =
          .suspected ∧
        (({ known with incarnation := incarnation } : MemberRegister).suspect nowMs).incarnation =
          incarnation := by
      cases state : known.state <;> simp_all [MemberRegister.suspect, MemberState.isActive]
    refine ⟨⟨_, by rw [get, if_pos rfl], state⟩, ?_⟩
    intro reports reported other register recorded terminal
    rw [get] at recorded
    split at recorded
    · cases recorded
      rw [state.1] at terminal
      cases terminal
    · exact reported other register recorded terminal

/-- A node that knows `peer`, in the given state at incarnation 1. -/
def acquainted (state : MemberState) : Swim :=
  (new "self" .default (.new "self" "127.0.0.1:1" 1 0)).step
    (.message "peer" (.alive { MemberRegister.new "peer" "127.0.0.1:2" 1 0 with state := state }) 0)

theorem active_peer_suspected :
    let next := ((acquainted .active).onMessage "third" (.suspect "peer" 2) 5).1
    (∃ after, next.membership.get "peer" = some after ∧ after.state = .suspected ∧ after.incarnation = 2) ∧
      ∀ reports, Reported reports (acquainted .active).membership → Reported reports next.membership := by
  have known : (acquainted .active).membership.get "peer" =
      some (MemberRegister.new "peer" "127.0.0.1:2" 1 0) := by decide
  exact (newer_suspicion_taken_iff (by decide) known (by decide) "third" 5).mpr rfl

/-- A suspicion of a departed peer that has come back at incarnation 2 makes it offline there, although
nobody has reported that. -/
theorem offline_peer_lifted :
    let next := ((acquainted .offline).onMessage "third" (.suspect "peer" 2) 5).1
    "peer" ≠ (acquainted .offline).localNodeId ∧
    (acquainted .offline).membership.get "peer" =
      some { MemberRegister.new "peer" "127.0.0.1:2" 1 0 with state := .offline } ∧
    ¬ (∃ after, next.membership.get "peer" = some after ∧ after.state = .suspected ∧
        after.incarnation = 2) ∧
    ¬ ∀ reports, Reported reports (acquainted .offline).membership → Reported reports next.membership := by
  have known : (acquainted .offline).membership.get "peer" =
      some { MemberRegister.new "peer" "127.0.0.1:2" 1 0 with state := .offline } := by decide
  have lifted : ((acquainted .offline).onMessage "third" (.suspect "peer" 2) 5).1.membership.get "peer" =
      some { MemberRegister.new "peer" "127.0.0.1:2" 2 0 with state := .offline } := by decide
  refine ⟨by decide, known, ?_, ?_⟩
  · rintro ⟨after, taken, suspected, _⟩
    rw [lifted] at taken
    cases taken
    cases suspected
  · intro keeps
    have reported : Reported (fun nodeId incarnation => ∃ register,
        (acquainted .offline).membership.get nodeId = some register ∧ register.incarnation = incarnation)
        (acquainted .offline).membership := fun _ register found _ => ⟨register, found, rfl⟩
    obtain ⟨register, found, reused⟩ := keeps _ reported "peer" _ lifted rfl
    rw [known] at found
    cases found
    exact absurd reused (by decide)

end Swim

/-! ### Who suspects whom -/

def SwimEvent.nowMs : SwimEvent → Int
  | .message _ _ nowMs => nowMs
  | .tick _ nowMs => nowMs
  | .leave nowMs => nowMs
  | .annotate _ nowMs => nowMs

namespace Swim

/-- The event makes the view suspect the member: by a rumor, by a register that outranks the one held, or
by the probe that reaches the failure threshold. -/
def Accuses (swim : Swim) (nodeId : String) : SwimEvent → Prop
  | .message _ (.suspect accused incarnation) _ =>
    accused = nodeId ∧ ∃ known, swim.membership.get nodeId = some known ∧ known.state = .active ∧
      known.incarnation ≤ incarnation
  | .message _ (.alive register) _ =>
    register.nodeId = nodeId ∧ register.state = .suspected ∧
      ∀ known, swim.membership.get nodeId = some known → register.dominates known = true
  | .tick _ nowMs =>
    swim.Overdue nowMs.toNat nodeId ∧
      swim.config.failureThreshold ≤ (swim.consecutiveFailures[nodeId]?).getD 0 + 1 ∧
      ∃ known, swim.membership.get nodeId = some known ∧ known.state = .active
  | _ => False

instance (swim : Swim) (nodeId : String) : Decidable (swim.Suspects nodeId) :=
  decidable_of_iff ((swim.membership.get nodeId).any (·.state = .suspected) = true)
    (by simp [Suspects, Option.any_eq_true])

theorem suspects_of_get {swim next : Swim} {nodeId : String}
    (same : next.membership.get nodeId = swim.membership.get nodeId) (suspects : next.Suspects nodeId) :
    swim.Suspects nodeId := by
  unfold Suspects at suspects
  rwa [same] at suspects

theorem suspect_state {register : MemberRegister} {nowMs : Int}
    (suspected : (register.suspect nowMs).state = .suspected) :
    register.state = .active ∨ register.state = .suspected := by
  unfold MemberRegister.suspect at suspected
  split at suspected
  · rename_i active
    exact .inl active
  · exact .inr suspected

theorem get_refuteAndBroadcast_remote {swim : Swim} {nodeId : String} (remote : nodeId ≠ swim.localNodeId)
    (nowMs : Int) :
    (swim.refuteAndBroadcast nowMs).1.membership.get nodeId = swim.membership.get nodeId := by
  show (swim.membership.refute swim.localNodeId nowMs).1.get nodeId = _
  rw [Membership.get_refute, if_neg (Ne.symm remote)]

theorem get_refuteIfDominated_remote {swim : Swim} {nodeId : String} (remote : nodeId ≠ swim.localNodeId)
    (rumor : MemberRegister) (nowMs : Int) :
    (swim.refuteIfDominated rumor nowMs).1.membership.get nodeId = swim.membership.get nodeId := by
  unfold refuteIfDominated
  split
  · rfl
  · split
    · split
      · rfl
      · exact get_refuteAndBroadcast_remote remote nowMs
    · rfl

theorem handleSuspectState_suspects {swim : Swim} {nodeId accused : String} {incarnation : UInt64}
    {nowMs : Int} (remote : nodeId ≠ swim.localNodeId)
    (suspects : (swim.handleSuspectState accused incarnation nowMs).1.Suspects nodeId) :
    swim.Suspects nodeId ∨ accused = nodeId ∧ ∃ known, swim.membership.get nodeId = some known ∧
      known.state = .active ∧ known.incarnation ≤ incarnation := by
  unfold handleSuspectState at suspects
  split at suspects
  · extract_lets dominated at suspects
    split at suspects
    · exact .inl (suspects_of_get (get_refuteAndBroadcast_remote remote nowMs) suspects)
    · exact .inl suspects
  · split at suspects
    · rename_i existing found
      split at suspects
      · exact .inl suspects
      · rename_i current
        have keyed := Membership.nodeId_of_get found
        have named : (({ existing with incarnation := incarnation } : MemberRegister).suspect nowMs).nodeId =
            accused := by
          rw [Membership.nodeId_suspect]
          exact keyed
        by_cases same : accused = nodeId
        · subst same
          obtain ⟨after, taken, suspected⟩ := suspects
          rw [Membership.get_mergeRegister_known named found] at taken
          cases taken
          rcases MemberRegister.merge_state existing
            (({ existing with incarnation := incarnation } : MemberRegister).suspect nowMs) with kept | adopted
          · exact .inl ⟨existing, found, kept.symm.trans suspected⟩
          · rcases suspect_state (adopted.symm.trans suspected) with active | suspected
            · exact .inr ⟨rfl, existing, found, active, UInt64.not_lt.mp current⟩
            · exact .inl ⟨existing, found, suspected⟩
        · refine .inl (suspects_of_get ?_ suspects)
          rw [Membership.get_mergeRegister_other (named ▸ same)]
    · exact .inl suspects

theorem mergeRegister_suspects {swim : Swim} {register : MemberRegister} {nodeId : String}
    (suspects : ({ swim with membership := swim.membership.mergeRegister register } : Swim).Suspects nodeId) :
    swim.Suspects nodeId ∨ register.nodeId = nodeId ∧ register.state = .suspected ∧
      ∀ known, swim.membership.get nodeId = some known → register.dominates known = true := by
  obtain ⟨after, taken, suspected⟩ := suspects
  rw [Membership.get_mergeRegister] at taken
  split at taken
  · rename_i named
    cases found : swim.membership.get nodeId with
    | none =>
      rw [found] at taken
      cases taken
      refine .inr ⟨named, suspected, fun known absurd => ?_⟩
      cases absurd
    | some known =>
      rw [found] at taken
      obtain rfl : known.merge register = after := Option.some.inj taken
      unfold MemberRegister.merge at suspected
      split at suspected
      · rename_i dominates
        refine .inr ⟨named, suspected, fun known' same => ?_⟩
        cases same
        exact dominates
      · split at suspected
        · exact .inl ⟨known, found, suspected⟩
        · exact .inl ⟨known, found, suspected⟩
  · exact .inl ⟨after, taken, suspected⟩

theorem handleLeaveState_suspects {swim : Swim} {nodeId leaver : String} {incarnation : UInt64} {nowMs : Int}
    (suspects : (swim.handleLeaveState leaver incarnation nowMs).Suspects nodeId) : swim.Suspects nodeId := by
  unfold handleLeaveState at suspects
  split at suspects
  · exact suspects
  · split at suspects
    · split at suspects
      · exact suspects
      · rcases mergeRegister_suspects suspects with before | ⟨_, leaving, _⟩
        · exact before
        · cases leaving
    · exact suspects

/-- A remote member becomes suspected between ticks only by an accusation. -/
theorem step_accuses {swim : Swim} {event : SwimEvent} {nodeId : String} (remote : nodeId ≠ swim.localNodeId)
    (between : ∀ iteration nowMs, event ≠ .tick iteration nowMs)
    (suspects : (swim.step event).Suspects nodeId) : swim.Suspects nodeId ∨ swim.Accuses nodeId event := by
  cases event with
  | tick iteration nowMs => exact absurd rfl (between iteration nowMs)
  | message sender message nowMs =>
    cases message with
    | ping seq => exact .inl suspects
    | ack seq =>
      refine .inl (suspects_of_get ?_ suspects)
      show (swim.handleAck seq).membership.get nodeId = _
      rcases handleAck_cases swim seq with ⟨_, same⟩ | ⟨_, _, same⟩
      · rw [same]
      · rw [same]
    | suspect accused incarnation => exact handleSuspectState_suspects remote suspects
    | leave leaver incarnation => exact .inl (handleLeaveState_suspects suspects)
    | alive register =>
      change ((swim.handleAliveState register nowMs).1).Suspects nodeId at suspects
      unfold handleAliveState at suspects
      split at suspects
      · exact .inl (suspects_of_get (get_refuteIfDominated_remote remote register nowMs) suspects)
      · exact mergeRegister_suspects suspects
  | leave nowMs =>
    refine .inl (suspects_of_get ?_ suspects)
    show (swim.membership.leave swim.localNodeId nowMs).1.get nodeId = _
    rw [Membership.get_leave, if_neg (Ne.symm remote)]
  | annotate annotations nowMs =>
    refine .inl (suspects_of_get ?_ suspects)
    unfold step
    dsimp only
    split
    · rename_i current found
      have keyed := Membership.nodeId_of_get found
      rw [Membership.get_mergeRegister_other]
      show current.nodeId ≠ nodeId
      rw [keyed]
      exact Ne.symm remote
    · rfl

theorem step_timers {swim : Swim} {event : SwimEvent} (between : ∀ iteration nowMs, event ≠ .tick iteration nowMs) :
    (swim.step event).suspectedSinceMs = swim.suspectedSinceMs := by
  cases event with
  | tick iteration nowMs => exact absurd rfl (between iteration nowMs)
  | message sender message nowMs => exact onMessage_timers swim sender message nowMs
  | leave nowMs => rfl
  | annotate annotations nowMs =>
    unfold step
    dsimp only
    split <;> rfl

theorem counted_accuses {swim : Swim} (one : swim.OnePing) {iteration : Iteration} {nowMs : Int}
    {nodeId : String} (remote : nodeId ≠ swim.localNodeId)
    (suspects : (swim.counted iteration nowMs).Suspects nodeId) :
    swim.Suspects nodeId ∨ swim.Accuses nodeId (.tick iteration nowMs) := by
  obtain ⟨struck, kept⟩ := counted_standing one iteration nowMs remote
  by_cases overdue : swim.Overdue nowMs.toNat nodeId
  · have standing := congrArg Standing.register (struck overdue)
    by_cases reached : swim.config.failureThreshold ≤ (swim.consecutiveFailures[nodeId]?).getD 0 + 1
    · rw [Standing.strike_suspects reached] at standing
      obtain ⟨after, taken, suspected⟩ := suspects
      have mapped := standing.symm.trans taken
      obtain ⟨known, found, rfl⟩ := Option.map_eq_some_iff.mp mapped
      rcases suspect_state suspected with active | already
      · exact .inr ⟨overdue, reached, known, found, active⟩
      · exact .inl ⟨known, found, already⟩
    · rw [Standing.strike_counts (Nat.not_le.mp reached)] at standing
      exact .inl (suspects_of_get standing suspects)
  · exact .inl (suspects_of_get (congrArg Standing.register (kept overdue)) suspects)

end Swim

/-! ### Watching a run -/

/-- What the local view shows from some reading of the clock on. -/
structure View where
  sinceMs : Int
  swim : Swim

/-- A detector and the views of its run, newest first. -/
structure Watch where
  swim : Swim
  views : List View

namespace Watch

def start (swim : Swim) (nowMs : Int) : Watch := ⟨swim, [⟨nowMs, swim⟩]⟩

/-- A tick shows two views: one once its timeouts are counted, one at its end. -/
def step (watch : Watch) (event : SwimEvent) : Watch where
  swim := watch.swim.step event
  views :=
    match event with
    | .tick iteration nowMs =>
      ⟨nowMs, watch.swim.step event⟩ :: ⟨nowMs, watch.swim.counted iteration nowMs⟩ :: watch.views
    | _ => ⟨event.nowMs, watch.swim.step event⟩ :: watch.views

/-- The clock does not run backwards. -/
def Later (watch : Watch) (event : SwimEvent) : Prop := ∀ view ∈ watch.views, view.sinceMs ≤ event.nowMs

instance (watch : Watch) (event : SwimEvent) : Decidable (watch.Later event) :=
  inferInstanceAs (Decidable (∀ view ∈ watch.views, view.sinceMs ≤ event.nowMs))

end Watch

/-- The views show the member as suspected without a break, from `start` at the latest. -/
def Unbroken (nodeId : String) (start : Int) : List View → Prop
  | [] => False
  | view :: older => view.swim.Suspects nodeId ∧ (view.sinceMs ≤ start ∨ Unbroken nodeId start older)

instance (nodeId : String) (start : Int) : (views : List View) → Decidable (Unbroken nodeId start views)
  | [] => inferInstanceAs (Decidable False)
  | view :: older =>
    have := instDecidableUnbroken nodeId start older
    inferInstanceAs (Decidable (view.swim.Suspects nodeId ∧ (view.sinceMs ≤ start ∨ _)))

theorem Unbroken.mono {nodeId : String} {start start' : Int} {views : List View} (later : start ≤ start')
    (unbroken : Unbroken nodeId start views) : Unbroken nodeId start' views := by
  induction views with
  | nil => exact unbroken
  | cons view older ih =>
    obtain ⟨suspects, reached | earlier⟩ := unbroken
    · exact ⟨suspects, .inl (reached.trans later)⟩
    · exact ⟨suspects, .inr (ih earlier)⟩

namespace Watch

/-- Every timer of a suspected member was started within the suspicion it is under. -/
def Fresh (watch : Watch) : Prop :=
  ∀ nodeId since, nodeId ≠ watch.swim.localNodeId → watch.swim.Suspects nodeId →
    watch.swim.suspectedSinceMs[nodeId]? = some since → Unbroken nodeId since watch.views

/-- A step that takes nobody offline before an unbroken suspicion has lasted for the timeout, and leaves
no old timer to a new suspicion. -/
def Patient (watch : Watch) (event : SwimEvent) : Prop :=
  (watch.step event).Fresh ∧
  ∀ iteration nowMs nodeId after, event = .tick iteration nowMs → nodeId ≠ watch.swim.localNodeId →
    (watch.swim.counted iteration nowMs).Suspects nodeId →
    (watch.step event).swim.membership.get nodeId = some after → after.state = .offline →
    Unbroken nodeId (nowMs - watch.swim.config.suspectTimeoutMs)
      (⟨nowMs, watch.swim.counted iteration nowMs⟩ :: watch.views)

/-- Nobody is accused again while the timer of an earlier suspicion, now ended, is still kept. -/
def Calm (watch : Watch) (event : SwimEvent) : Prop :=
  ∀ nodeId since, watch.swim.suspectedSinceMs[nodeId]? = some since → ¬ watch.swim.Suspects nodeId →
    ¬ watch.swim.Accuses nodeId event

theorem step_between {watch : Watch} {event : SwimEvent} (between : ∀ iteration nowMs, event ≠ .tick iteration nowMs) :
    (watch.step event).views = ⟨event.nowMs, watch.swim.step event⟩ :: watch.views := by
  cases event with
  | tick iteration nowMs => exact absurd rfl (between iteration nowMs)
  | _ => rfl

/-- Between ticks the timers stand still, so a suspicion without an accusation was there before. -/
theorem fresh_between {watch : Watch} {event : SwimEvent} (fresh : watch.Fresh) (calm : watch.Calm event)
    (self : (watch.swim.step event).localNodeId = watch.swim.localNodeId)
    (between : ∀ iteration nowMs, event ≠ .tick iteration nowMs) : (watch.step event).Fresh := by
  intro nodeId since remote suspects timer
  change nodeId ≠ (watch.swim.step event).localNodeId at remote
  change (watch.swim.step event).suspectedSinceMs[nodeId]? = some since at timer
  rw [self] at remote
  rw [Swim.step_timers between] at timer
  rw [step_between between]
  refine ⟨suspects, .inr (fresh nodeId since remote ?_ timer)⟩
  by_contra ended
  rcases Swim.step_accuses remote between suspects with before | accused
  · exact ended before
  · exact calm nodeId since timer ended accused

/-- The timer a tick reads for a suspected member was started within the suspicion it is under. -/
theorem fresh_counted {watch : Watch} {iteration : Iteration} {nowMs : Int} (tidy : watch.swim.Tidy)
    (fresh : watch.Fresh) (calm : watch.Calm (.tick iteration nowMs)) {nodeId : String}
    (remote : nodeId ≠ watch.swim.localNodeId)
    (suspects : (watch.swim.counted iteration nowMs).Suspects nodeId) :
    Unbroken nodeId ((watch.swim.counted iteration nowMs).suspectedSinceMs.getD nodeId nowMs)
      (⟨nowMs, watch.swim.counted iteration nowMs⟩ :: watch.views) := by
  have timers : (watch.swim.counted iteration nowMs).suspectedSinceMs = watch.swim.suspectedSinceMs :=
    (Swim.counted_spec tidy.one iteration nowMs).clocks.timers
  refine ⟨suspects, ?_⟩
  rw [timers, Std.ExtTreeMap.getD_eq_getD_getElem?]
  cases timer : watch.swim.suspectedSinceMs[nodeId]? with
  | none => exact .inl (Int.le_refl nowMs)
  | some since =>
    refine .inr (fresh nodeId since remote ?_ timer)
    by_contra ended
    rcases Swim.counted_accuses tidy.one remote suspects with before | accused
    · exact ended before
    · exact calm nodeId since timer ended accused

theorem counted_self {swim : Swim} (one : swim.OnePing) (iteration : Iteration) (nowMs : Int) :
    (swim.counted iteration nowMs).localNodeId = swim.localNodeId ∧
      (swim.counted iteration nowMs).config = swim.config :=
  ⟨(Swim.counted_spec one iteration nowMs).clocks.self, (Swim.counted_spec one iteration nowMs).clocks.config⟩

theorem fresh_tick {watch : Watch} {iteration : Iteration} {nowMs : Int} (tidy : watch.swim.Tidy)
    (fresh : watch.Fresh) (calm : watch.Calm (.tick iteration nowMs))
    (self : (watch.swim.step (.tick iteration nowMs)).localNodeId = watch.swim.localNodeId) :
    (watch.step (.tick iteration nowMs)).Fresh := by
  have judged := Swim.judged_spec watch.swim iteration nowMs
  obtain ⟨membership, timers⟩ := Swim.tick_membership watch.swim iteration nowMs
  obtain ⟨local', _⟩ := counted_self tidy.one iteration nowMs
  intro nodeId since remote suspects timer
  change nodeId ≠ (watch.swim.step (.tick iteration nowMs)).localNodeId at remote
  change (watch.swim.tick iteration nowMs).1.suspectedSinceMs[nodeId]? = some since at timer
  rw [self] at remote
  rw [timers] at timer
  have remote' : nodeId ≠ (watch.swim.counted iteration nowMs).localNodeId := by rwa [local']
  have counted : (watch.swim.counted iteration nowMs).Suspects nodeId := by
    by_contra unsuspected
    have same := judged.kept nodeId fun out => unsuspected out.2.1
    exact unsuspected (Swim.suspects_of_get ((congrArg (·.get nodeId) membership).trans same) suspects)
  rw [judged.running nodeId remote' counted] at timer
  obtain rfl := Option.some.inj timer
  exact ⟨suspects, .inr (fresh_counted tidy fresh calm remote counted)⟩

theorem step_fresh {watch : Watch} {event : SwimEvent} (tidy : watch.swim.Tidy) (fresh : watch.Fresh)
    (calm : watch.Calm event) : (watch.step event).Fresh := by
  have self := (Swim.step_advances tidy.elsewhere event).self
  by_cases tick : ∃ iteration nowMs, event = .tick iteration nowMs
  · obtain ⟨iteration, nowMs, rfl⟩ := tick
    exact fresh_tick tidy fresh calm self
  · exact fresh_between fresh calm self fun iteration nowMs same => tick ⟨iteration, nowMs, same⟩

theorem step_patient {watch : Watch} {event : SwimEvent} (tidy : watch.swim.Tidy)
    (fits : watch.swim.config.suspectTimeoutMs < 2 ^ 63) (fresh : watch.Fresh) (calm : watch.Calm event) :
    watch.Patient event := by
  refine ⟨step_fresh tidy fresh calm, ?_⟩
  rintro iteration nowMs nodeId after rfl remote suspects found offline
  have judged := Swim.judged_spec watch.swim iteration nowMs
  obtain ⟨_, config⟩ := counted_self tidy.one iteration nowMs
  have out : (watch.swim.counted iteration nowMs).TimerOut nowMs nodeId := by
    by_contra running
    obtain ⟨register, held, suspected⟩ := suspects
    have same := judged.kept nodeId running
    change (watch.swim.tick iteration nowMs).1.membership.get nodeId = some after at found
    rw [(Swim.tick_membership watch.swim iteration nowMs).1, same, held] at found
    cases found
    rw [suspected] at offline
    cases offline
  refine (fresh_counted tidy fresh calm remote suspects).mono ?_
  have late := out.2.2
  rw [config] at late
  omega

/-- In a run where nobody is accused again while the timer of an ended suspicion is kept, every step is
patient. -/
theorem offline_rests_on_unbroken_suspicion (localNodeId : String) (config : SwimConfig)
    (localRegister : MemberRegister) (nowMs : Int) (fits : config.suspectTimeoutMs < 2 ^ 63)
    (events : List SwimEvent)
    (run : Steps Watch.step (fun watch event => watch.Later event ∧ watch.Calm event)
      (.start (.new localNodeId config localRegister) nowMs) events) :
    Steps Watch.step Watch.Patient (.start (.new localNodeId config localRegister) nowMs) events := by
  let inv (watch : Watch) : Prop := watch.swim.Tidy ∧ watch.swim.config = config ∧ watch.Fresh
  have start : inv (.start (.new localNodeId config localRegister) nowMs) := by
    refine ⟨Swim.new_tidy localNodeId config localRegister, rfl, ?_⟩
    intro nodeId since _ _ timer
    simp [Watch.start, Swim.new] at timer
  refine Steps.mono inv start ?_ ?_ run
  · rintro watch event ⟨tidy, same, fresh⟩ ⟨_, calm⟩
    refine ⟨Swim.step_tidy tidy event, ?_, step_fresh tidy fresh calm⟩
    exact (Swim.step_advances tidy.elsewhere event).config.trans same
  · rintro watch event ⟨tidy, same, fresh⟩ ⟨_, calm⟩
    exact step_patient tidy (by rw [same]; exact fits) fresh calm

/-- A peer heard of as suspected, as recovered, and again as suspected. -/
def suspectedPeer : MemberRegister :=
  { MemberRegister.new "peer" "127.0.0.1:2" 1 0 with state := .suspected }

def recoveredPeer : MemberRegister := .new "peer" "127.0.0.1:2" 2 0

def inOrder : Iteration := ⟨.sorted _, .sorted _⟩

def lonely : Watch := .start (.new "self" .default (.new "self" "127.0.0.1:1" 1 0)) 0

def suspectedForGood : List SwimEvent :=
  [.message "peer" (.alive suspectedPeer) 0, .tick inOrder 0, .tick inOrder 30000]

theorem suspectedForGood_patient : Steps Watch.step Watch.Patient lonely suspectedForGood ∧
    (suspectedForGood.foldl Watch.step lonely).swim.membership.get "peer" =
      some (suspectedPeer.offline 30000) := by
  let warned := (lonely.step (.message "peer" (.alive suspectedPeer) 0)).step (.tick inOrder 0)
  have timers : warned.swim.suspectedSinceMs = (∅ : Std.ExtTreeMap String Int compare).insert "peer" 0 := by
    decide +kernel
  have suspects : warned.swim.Suspects "peer" := by decide +kernel
  refine ⟨offline_rests_on_unbroken_suspicion "self" .default (.new "self" "127.0.0.1:1" 1 0) 0 (by decide)
    suspectedForGood ⟨⟨by decide, ?_⟩, ⟨by decide, ?_⟩, ⟨by decide, ?_⟩, trivial⟩, by decide +kernel⟩
  · intro nodeId since timer
    simp [Watch.start, Swim.new] at timer
  · intro nodeId since timer
    change (∅ : Std.ExtTreeMap String Int compare)[nodeId]? = some since at timer
    simp at timer
  · intro nodeId since timer ended
    change warned.swim.suspectedSinceMs[nodeId]? = some since at timer
    rw [timers, Std.ExtTreeMap.getElem?_insert] at timer
    split at timer
    · rename_i same
      exact absurd (Std.LawfulEqCmp.eq_of_compare same ▸ suspects) ended
    · simp at timer

def suspectedTwice : List SwimEvent :=
  [.message "peer" (.alive suspectedPeer) 0, .tick inOrder 0, .message "peer" (.alive recoveredPeer) 10,
    .message "third" (.suspect "peer" 2) 29000, .tick inOrder 30000]

/-- The peer recovers and is suspected again between two ticks: the first timer runs on and takes it
offline one second into the second suspicion. -/
theorem recovered_peer_taken_offline : Steps Watch.step Watch.Later lonely suspectedTwice ∧
    ¬ Steps Watch.step Watch.Patient lonely suspectedTwice := by
  refine ⟨⟨by decide, by decide, by decide, by decide, by decide, trivial⟩, ?_⟩
  rintro ⟨_, _, _, _, last, _⟩
  have broken := last.2 inOrder 30000 "peer" ((recoveredPeer.suspect 29000).offline 30000) rfl (by decide)
    (by decide +kernel) (by decide +kernel) rfl
  revert broken
  decide +kernel

end Watch

end Lycoris.Cluster
