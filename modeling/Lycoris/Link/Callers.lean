import Lycoris.Link.Desk
import Lycoris.Link.Forwards

/-!
Callers of the link. A caller asks with a request, and is told a response or an error. Over a whole run every
request is answered at most once, and once its deadline has passed and the actor has looked for such requests it
is answered.
-/

namespace Lycoris.Link
open Lib Overlay

variable {P : Primitives}

/-! ### Counts -/

/-- How often an event asks for a caller. -/
def LinkEvent.asked (caller : Caller) (event : LinkEvent P) : Nat :=
  event.asks.toList.countP fun ask => ask.2 = caller

/-- The requests of callers in a run. -/
def asks (events : List (Moment × LinkEvent P)) : List (Envelope × Caller) :=
  events.flatMap fun event => event.2.asks.toList

def asked (caller : Caller) (events : List (Moment × LinkEvent P)) : Nat :=
  (asks events).countP fun ask => ask.2 = caller

def LinkOutput.tells (caller : Caller) : LinkOutput P → Bool
  | .reply other _ => other = caller
  | _ => false

/-- How often a caller is told. -/
def told (caller : Caller) (outputs : List (LinkOutput P)) : Nat := outputs.countP (LinkOutput.tells caller)

/-- How many requests of a caller are not answered yet. -/
def Desk.waiting (desk : Desk P) (caller : Caller) : Nat :=
  desk.own.toList.countP fun entry => entry.2.reply = caller

theorem told_append (caller : Caller) (outputs more : List (LinkOutput P)) :
    told caller (outputs ++ more) = told caller outputs + told caller more :=
  List.countP_append

theorem told_mail (caller : Caller) (outputs : List (LinkOutput P)) :
    told caller (mail outputs) = told caller outputs := by
  rw [told, told, mail, List.countP_filter]
  refine List.countP_congr ?_
  intro output _
  cases output with
  | reply other result => simp [LinkOutput.tells, LinkOutput.isMail]
  | _ => simp [LinkOutput.tells]

theorem asked_none {event : LinkEvent P} (other : event.asks = none) (caller : Caller) : event.asked caller = 0 := by
  rw [LinkEvent.asked, other]
  rfl

theorem asked_some {event : LinkEvent P} {envelope : Envelope} {reply : Caller}
    (asks : event.asks = some (envelope, reply)) (caller : Caller) :
    event.asked caller = if reply = caller then 1 else 0 := by
  rw [LinkEvent.asked, asks]
  simp [List.countP_cons]

/-! ### One pass -/

namespace Desk

variable {desk last : Desk P} {outputs : List (LinkOutput P)}

/-- No request has a number that is still to be given. -/
def Numbered (desk : Desk P) : Prop := ∀ id pending, desk.own[id]? = some pending → id < desk.next

theorem waiting_insert {id : OutboundRequestId} (fresh : desk.own[id]? = none) (pending : PendingRequest P)
    (next : OutboundRequestId) (caller : Caller) :
    ({ desk with own := desk.own.insert id pending, next := next } : Desk P).waiting caller =
      desk.waiting caller + if pending.reply = caller then 1 else 0 := by
  rw [waiting, (toList_insert_perm fresh pending).countP_eq, List.countP_cons, waiting]
  simp

theorem waiting_erase {id : OutboundRequestId} {pending : PendingRequest P} (found : desk.own[id]? = some pending)
    (caller : Caller) :
    desk.waiting caller = ({ desk with own := desk.own.erase id } : Desk P).waiting caller +
      if pending.reply = caller then 1 else 0 := by
  rw [waiting, (toList_erase_perm found).countP_eq, List.countP_cons, waiting]
  simp

theorem told_reply (caller other : Caller) (result : Except (LinkError P) Envelope) :
    told caller [.reply other result] = if other = caller then 1 else 0 := by
  simp [told, LinkOutput.tells, List.countP_cons]

theorem Touch.numbered (touch : Touch desk outputs last) (numbered : desk.Numbered) : last.Numbered := by
  cases touch with
  | fail found error => exact forall_erase numbered _
  | release requestId => exact numbered
  | forget token => exact numbered
  | tell peerId linkState still => exact fun id pending found => Nat.lt_succ_of_lt (numbered id pending found)

theorem Touch.accounts (touch : Touch desk outputs last) (caller : Caller) :
    desk.waiting caller = told caller outputs + last.waiting caller := by
  cases touch with
  | fail found error => rw [waiting_erase found caller, told_reply, Nat.add_comm]
  | release requestId => exact (Nat.zero_add _).symm
  | forget token => exact (Nat.zero_add _).symm
  | tell peerId linkState still => exact (Nat.zero_add _).symm

theorem Tidy.numbered (tidy : Tidy desk outputs last) (numbered : desk.Numbered) : last.Numbered := by
  induction tidy with
  | refl => exact numbered
  | step first _ ih => exact ih (first.numbered numbered)

theorem Tidy.accounts (tidy : Tidy desk outputs last) (caller : Caller) :
    desk.waiting caller = told caller outputs + last.waiting caller := by
  induction tidy with
  | refl desk => exact (Nat.zero_add _).symm
  | step first _ ih => rw [told_append, first.accounts caller, ih, Nat.add_assoc]

variable {localId : NodeId} {event : LinkEvent P}

theorem Main.numbered (main : Main localId event desk outputs last) (numbered : desk.Numbered) : last.Numbered := by
  cases main with
  | ask asks sponsored =>
    exact forall_insert (fun id pending _ found => Nat.lt_succ_of_lt (numbered id pending found)) (Nat.lt_succ_self _)
  | accept arrives found valid => exact forall_erase numbered _
  | pass arrives plain passed nextPeer => exact fun id pending found => Nat.lt_succ_of_lt (numbered id pending found)
  | _ => exact numbered

theorem Main.accounts (main : Main localId event desk outputs last) (numbered : desk.Numbered) (caller : Caller) :
    event.asked caller + desk.waiting caller = told caller outputs + last.waiting caller := by
  cases main with
  | still other =>
    rw [asked_none other]
    rfl
  | ask asks sponsored =>
    have fresh : desk.own[desk.next]? = none := by
      by_contra taken
      obtain ⟨pending, found⟩ := Option.ne_none_iff_exists'.mp taken
      exact Nat.lt_irrefl _ (numbered _ _ found)
    rw [asked_some asks, waiting_insert fresh, Nat.add_comm]
    exact (Nat.zero_add _).symm
  | refuse asks error => rw [asked_some asks, told_reply]
  | accept arrives found valid =>
    rw [asked_none (by rw [arrives]; rfl), waiting_erase found caller, told_reply, Nat.zero_add, Nat.add_comm]
  | answer answers found =>
    rw [asked_none (by rw [answers]; rfl)]
    rfl
  | hand arrives here token deadlineUnixMs =>
    rw [asked_none (by rw [arrives]; rfl)]
    rfl
  | pass arrives plain passed nextPeer =>
    rw [asked_none (by rw [arrives]; rfl)]
    rfl
  | acknowledge arrives linkState response =>
    rw [asked_none (by rw [arrives]; rfl)]
    rfl
  | back arrives found valid =>
    rw [asked_none (by rw [arrives]; rfl)]
    rfl

theorem Pass.numbered (pass : Pass localId event desk outputs last) (numbered : desk.Numbered) : last.Numbered := by
  obtain ⟨mid, main, besides, done, tidied, _⟩ := pass
  exact tidied.numbered (done.numbered numbered)

theorem Pass.accounts (pass : Pass localId event desk outputs last) (numbered : desk.Numbered) (caller : Caller) :
    event.asked caller + desk.waiting caller = told caller outputs + last.waiting caller := by
  obtain ⟨mid, main, besides, done, tidied, split⟩ := pass
  rw [done.accounts numbered caller, tidied.accounts caller, ← told_mail caller outputs, split, told_append,
    Nat.add_assoc]

/-- Every request that waits has the deadline its caller asked with. -/
def Dated (desk : Desk P) (asks : List (Envelope × Caller)) : Prop :=
  ∀ (id : OutboundRequestId) (pending : PendingRequest P), desk.own[id]? = some pending →
    ∃ ask ∈ asks, ask.2 = pending.reply ∧ pending.expected.deadlineUnixMs = ask.1.header.deadlineUnixMs

theorem Dated.mono {asks more : List (Envelope × Caller)} (dated : desk.Dated asks) (within : asks ⊆ more) :
    desk.Dated more := by
  intro id pending found
  obtain ⟨ask, member, same⟩ := dated id pending found
  exact ⟨ask, within member, same⟩

theorem Touch.dated (touch : Touch desk outputs last) {asks : List (Envelope × Caller)} (dated : desk.Dated asks) :
    last.Dated asks := by
  cases touch with
  | fail found error => exact forall_erase dated _
  | _ => exact dated

theorem Tidy.dated (tidy : Tidy desk outputs last) {asks : List (Envelope × Caller)} (dated : desk.Dated asks) :
    last.Dated asks := by
  induction tidy with
  | refl => exact dated
  | step first _ ih => exact ih (first.dated dated)

theorem Main.dated (main : Main localId event desk outputs last) {asks : List (Envelope × Caller)}
    (dated : desk.Dated asks) : last.Dated (asks ++ event.asks.toList) := by
  have kept : desk.Dated (asks ++ event.asks.toList) := dated.mono (List.subset_append_left _ _)
  cases main with
  | @ask envelope caller asking peerId sponsored =>
    have member : (envelope, caller) ∈ asks ++ event.asks.toList := by
      rw [asking]
      exact List.mem_append_right _ List.mem_cons_self
    exact forall_insert (fun id pending _ found => kept id pending found) ⟨(envelope, caller), member, rfl, rfl⟩
  | accept arrives found valid => exact forall_erase kept _
  | _ => exact kept

theorem Pass.dated (pass : Pass localId event desk outputs last) {asks : List (Envelope × Caller)}
    (dated : desk.Dated asks) : last.Dated (asks ++ event.asks.toList) := by
  obtain ⟨mid, main, besides, done, tidied, _⟩ := pass
  exact tidied.dated (done.dated dated)

end Desk

/-! ### Runs -/

namespace LinkActor

variable (E : LinkEncoding)

/-- The actor and what it said, after the callers asked. -/
structure Accounts (events : List (Moment × LinkEvent P)) (ran : LinkActor P × List (LinkOutput P)) : Prop where
  numbered : ran.1.desk.Numbered
  dated : ran.1.desk.Dated (asks events)
  counted : ∀ caller, asked caller events = told caller ran.2 + ran.1.desk.waiting caller

theorem Accounts.append {events : List (Moment × LinkEvent P)} {ran : LinkActor P × List (LinkOutput P)}
    (accounts : Accounts events ran) (later : List (Moment × LinkEvent P)) :
    Accounts (events ++ later) ((ran.1.run E later).1, ran.2 ++ (ran.1.run E later).2) := by
  induction later generalizing events ran with
  | nil =>
    rw [List.append_nil, run, List.append_nil]
    exact accounts
  | cons next rest ih =>
    obtain ⟨moment, event⟩ := next
    have pass := ran.1.step_pass moment E event
    have split : asks (events ++ [(moment, event)]) = asks events ++ event.asks.toList := by
      simp [asks]
    have stepped : Accounts (events ++ [(moment, event)])
        ((ran.1.step E moment event).1, ran.2 ++ (ran.1.step E moment event).2) := by
      refine ⟨pass.numbered accounts.numbered, split ▸ pass.dated accounts.dated, ?_⟩
      intro caller
      have one := pass.accounts accounts.numbered caller
      calc asked caller (events ++ [(moment, event)])
          = asked caller events + event.asked caller := by rw [asked, split, List.countP_append]; rfl
        _ = told caller ran.2 + (event.asked caller + ran.1.desk.waiting caller) := by
            rw [accounts.counted caller, Nat.add_assoc, Nat.add_comm (ran.1.desk.waiting caller)]
        _ = told caller ran.2 + (told caller (ran.1.step E moment event).2 +
              (ran.1.step E moment event).1.desk.waiting caller) := by
            rw [pass.accounts accounts.numbered caller]
        _ = _ := by rw [told_append, Nat.add_assoc]
    have whole := ih stepped
    rw [List.append_assoc, List.append_assoc] at whole
    exact whole

theorem accounts_run (identity : NodeIdentity P) (authorization : AuthorizationRegistry) (bootId : Bytes)
    (nextSequence : UInt64) (events : List (Moment × LinkEvent P)) :
    Accounts events ((new identity authorization bootId nextSequence).run E events) := by
  have start : Accounts [] (new identity authorization bootId nextSequence, []) := by
    refine ⟨?_, ?_, ?_⟩
    · simp [Desk.Numbered, desk, new]
    · simp [Desk.Dated, desk, new]
    · intro caller
      show 0 = 0 + List.countP _ (∅ : Std.ExtTreeMap OutboundRequestId (PendingRequest P) compare).toList
      rw [Std.ExtTreeMap.toList_eq_nil_iff.mpr rfl]
      rfl
  exact start.append E events

theorem foldl_expireOutbound_pending (actor : LinkActor P) (requestIds : List OutboundRequestId)
    (id : OutboundRequestId) : (requestIds.foldl expireOutbound actor).pendingOutbound[id]? =
      if id ∈ requestIds then none else actor.pendingOutbound[id]? := by
  induction requestIds generalizing actor with
  | nil => simp
  | cons requestId rest ih =>
    rw [List.foldl_cons, ih, expireOutbound, Std.ExtTreeMap.getElem?_erase]
    simp only [Std.LawfulEqOrd.compare_eq_iff_eq, List.mem_cons]
    grind

theorem foldl_own {K : Type} {move : LinkActor P → K → LinkActor P}
    (same : ∀ actor key, (move actor key).pendingOutbound = actor.pendingOutbound) (keys : List K)
    (actor : LinkActor P) : (keys.foldl move actor).pendingOutbound = actor.pendingOutbound := by
  induction keys generalizing actor with
  | nil => rfl
  | cons key rest ih => rw [List.foldl_cons, ih, same]

theorem expireForward_own (actor : LinkActor P) (requestId : OutboundRequestId) :
    (actor.expireForward requestId).pendingOutbound = actor.pendingOutbound := by
  unfold expireForward
  split
  · rfl
  · rfl

theorem removePendingInbound_own (actor : LinkActor P) (token : InboundToken) :
    (actor.removePendingInbound token).pendingOutbound = actor.pendingOutbound := by
  unfold removePendingInbound
  split
  · rfl
  · rfl

/-- No request is left whose deadline has passed. -/
theorem expirePendingRequests_due (actor : LinkActor P) (now : Int) {id : OutboundRequestId}
    {pending : PendingRequest P}
    (left : (actor.expirePendingRequests now).1.pendingOutbound[id]? = some pending) :
    now < pending.expected.deadlineUnixMs := by
  unfold expirePendingRequests at left
  dsimp only at left
  rw [foldl_own removePendingInbound_own, foldl_own expireForward_own, foldl_expireOutbound_pending] at left
  split at left
  · cases left
  · rename_i spared
    by_contra late
    have listed := Std.ExtTreeMap.mem_toList_iff_getElem?_eq_some.mpr left
    refine spared (List.mem_map.mpr ⟨(id, pending), ?_, rfl⟩)
    exact List.mem_filter.mpr ⟨listed, decide_eq_true (not_lt.mp late)⟩

/-- Every request of a caller is answered at most once, and one that is not answered is still pending. Once
the actor has looked for requests whose time is up, every request of a caller is answered if the deadlines of
the caller's requests have passed. -/
theorem callers_answered_once (identity : NodeIdentity P) (authorization : AuthorizationRegistry)
    (bootId : Bytes) (nextSequence : UInt64) (events : List (Moment × LinkEvent P)) (caller : Caller) :
    let actor := new identity authorization bootId nextSequence
    asked caller events = told caller (actor.run E events).2 + (actor.run E events).1.desk.waiting caller ∧
    ∀ moment : Moment,
      (∀ ask ∈ asks events, ask.2 = caller → ask.1.header.deadlineUnixMs ≤ moment.now) →
      told caller (actor.run E (events ++ [(moment, .expire)])).2 = asked caller events := by
  intro actor
  refine ⟨(accounts_run E identity authorization bootId nextSequence events).counted caller, ?_⟩
  intro moment due
  have accounts := accounts_run E identity authorization bootId nextSequence (events ++ [(moment, .expire)])
  have same : asks (events ++ [(moment, .expire)]) = asks events := by
    rw [asks, List.flatMap_append]
    exact List.append_nil _
  have counted := accounts.counted caller
  have empty : (actor.run E (events ++ [(moment, .expire)])).1.desk.waiting caller = 0 := by
    rw [Desk.waiting, List.countP_eq_zero]
    intro entry member mine
    have left : (actor.run E (events ++ [(moment, .expire)])).1.pendingOutbound[entry.1]? = some entry.2 :=
      Std.ExtTreeMap.mem_toList_iff_getElem?_eq_some.mp member
    obtain ⟨ask, asked, named, deadline⟩ := accounts.dated _ _ left
    rw [run_append] at left
    have open' := expirePendingRequests_due _ _ left
    rw [same] at asked
    rw [deadline] at open'
    exact absurd (due ask asked (named.trans (of_decide_eq_true mine))) (not_le.mpr open')
  rw [asked, same, empty] at counted
  exact counted.symm

end LinkActor

/-! ### Two callers -/

section Patience
open LinkActor Transparent

/-- A request for admission that waits until the given time. -/
def plea (deadlineUnixMs : Int) : Envelope :=
  ⟨⟨protocolVersion, cluster, .ofNat 1, founder.nodeId, member.nodeId, .admission, .request, deadlineUnixMs, 0⟩, []⟩

/-- The founder meets the member before it has admitted it; two callers ask, one of them with more time. -/
def pleas : List (Moment × LinkEvent primitives) :=
  [(trioMoment, .swarm (.connectionEstablished member.peerId 1 (.dialer []))),
    (trioMoment, .command (.requestAdmission member.peerId (plea 2000) 7)),
    (trioMoment, .command (.requestAdmission member.peerId (plea 9000) 8))]

theorem patient_caller_waits :
    let events := pleas ++ [({ trioMoment with now := 3000, inRange := by decide }, .expire)]
    told 7 ((new founder (.new cluster) [] 0).run linkEncoding events).2 = 1 ∧
    told 8 ((new founder (.new cluster) [] 0).run linkEncoding events).2 = 0 := by
  intro events
  have answered := (callers_answered_once linkEncoding founder (.new cluster) [] 0 pleas 7).2
    { trioMoment with now := 3000, inRange := by decide } (by decide +kernel)
  exact ⟨answered, by decide +kernel⟩

end Patience

end Lycoris.Link
