import Lycoris.Link.Calls

/-!
How often a request is sent. Each node that passes a request on takes one from the hops it has left, so that the
hops a caller allows bound what all the nodes together send for it, whatever their routes are.
-/

namespace Lycoris.Link
open Lib Overlay

variable {ι : Type} {P : Primitives}

/-! ### Weights -/

instance (envelope : Envelope) : Decidable (isLinkState envelope) := inferInstanceAs (Decidable (_ ∧ _))

/-- A request under this name that nodes route. -/
def Routed (requestId : RequestId) (envelope : Envelope) : Prop :=
  envelope.header.requestId = requestId ∧ ¬ isLinkState envelope

instance (requestId : RequestId) (envelope : Envelope) : Decidable (Routed requestId envelope) :=
  inferInstanceAs (Decidable (_ ∧ _))

def hopsLeft (requestId : RequestId) (envelope : Envelope) : Nat :=
  if Routed requestId envelope then envelope.header.remainingHops.toNat else 0

/-- The request itself and the hops it has left. -/
def weight (requestId : RequestId) (envelope : Envelope) : Nat :=
  if Routed requestId envelope then envelope.header.remainingHops.toNat + 1 else 0

def LinkOutput.weight (requestId : RequestId) : LinkOutput P → Nat
  | .sendRequest _ _ envelope => Link.weight requestId envelope
  | _ => 0

/-- What an actor sends. -/
def sentWeight (requestId : RequestId) (outputs : List (LinkOutput P)) : Nat :=
  (outputs.map (LinkOutput.weight requestId)).sum

/-- What a caller allows. -/
def LinkEvent.asksWeight (requestId : RequestId) (event : LinkEvent P) : Nat :=
  (event.asks.toList.map fun ask => weight requestId ask.1).sum

/-- What a request that arrives has left. -/
def LinkEvent.bringsHops (requestId : RequestId) : LinkEvent P → Nat
  | .swarm (.request _ _ envelope _) => hopsLeft requestId envelope
  | _ => 0

theorem sentWeight_append (requestId : RequestId) (outputs more : List (LinkOutput P)) :
    sentWeight requestId (outputs ++ more) = sentWeight requestId outputs + sentWeight requestId more := by
  rw [sentWeight, List.map_append, List.sum_append, sentWeight, sentWeight]

theorem sentWeight_mail (requestId : RequestId) (outputs : List (LinkOutput P)) :
    sentWeight requestId (mail outputs) = sentWeight requestId outputs := by
  induction outputs with
  | nil => rfl
  | cons output rest ih =>
    have split : sentWeight requestId (output :: rest) = output.weight requestId + sentWeight requestId rest := rfl
    rw [split, ← ih]
    cases output with
    | sendRequest id peerId envelope => rfl
    | sendResponse channel envelope => rfl
    | reply caller result => rfl
    | inbound token sender envelope => rfl
    | closeConnection connectionId => exact (Nat.zero_add _).symm
    | settle caller result => exact (Nat.zero_add _).symm
    | routed id decision => exact (Nat.zero_add _).symm

theorem weight_of_isLinkState {envelope : Envelope} (linkState : isLinkState envelope) (requestId : RequestId) :
    weight requestId envelope = 0 :=
  if_neg fun routed => routed.2 linkState

/-- A hop is used up. -/
theorem Passed.weight {request forwarded : Envelope} (passed : Passed request forwarded) (requestId : RequestId) :
    Link.weight requestId forwarded = hopsLeft requestId request := by
  obtain ⟨left, rfl⟩ := passed
  have some : 1 ≤ request.header.remainingHops := by
    rw [UInt8.le_iff_toNat_le, UInt8.toNat_one, Nat.one_le_iff_ne_zero]
    exact fun none => left (UInt8.toNat_inj.mp none)
  have less : (request.header.remainingHops - 1).toNat + 1 = request.header.remainingHops.toNat := by
    rw [UInt8.toNat_sub_of_le _ _ some, UInt8.toNat_one]
    exact Nat.sub_add_cancel (UInt8.le_iff_toNat_le.mp some)
  rw [Link.weight, hopsLeft, less]
  rfl

/-! ### One pass -/

namespace Desk

variable {desk last : Desk P} {outputs : List (LinkOutput P)} {localId : NodeId} {event : LinkEvent P}

theorem Touch.weight (touch : Touch desk outputs last) (requestId : RequestId) : sentWeight requestId outputs = 0 := by
  cases touch with
  | tell peerId linkState still => exact weight_of_isLinkState linkState requestId
  | _ => rfl

theorem Tidy.weight (tidy : Tidy desk outputs last) (requestId : RequestId) : sentWeight requestId outputs = 0 := by
  induction tidy with
  | refl => rfl
  | step first _ ih => rw [sentWeight_append, first.weight, ih]

theorem Main.weight (main : Main localId event desk outputs last) (requestId : RequestId) :
    sentWeight requestId outputs ≤ event.asksWeight requestId + event.bringsHops requestId := by
  cases main with
  | ask asks sponsored =>
    rw [LinkEvent.asksWeight, asks]
    exact Nat.le_add_right _ _
  | pass arrives plain passed nextPeer =>
    subst arrives
    show Link.weight requestId _ + 0 ≤ 0 + hopsLeft requestId _
    rw [passed.weight, Nat.add_zero, Nat.zero_add]
  | _ => exact Nat.zero_le _

theorem Pass.weight (pass : Pass localId event desk outputs last) (requestId : RequestId) :
    sentWeight requestId outputs ≤ event.asksWeight requestId + event.bringsHops requestId := by
  obtain ⟨mid, main, besides, done, tidied, split⟩ := pass
  rw [← sentWeight_mail, split, sentWeight_append, tidied.weight requestId, Nat.add_zero]
  exact done.weight requestId

end Desk

/-! ### Letters -/

namespace Letters

variable (requestId : RequestId) (letters : Letters ι P)

/-- How often the request was sent, by any node. -/
def transmissions : Nat := letters.sent.countP fun call => Routed requestId call.envelope

/-- The hops left to what is in flight. -/
def travelling : Nat := (letters.requests.map fun call => hopsLeft requestId call.envelope).sum

/-- What the callers allow: for each request, to be sent once and for each of its hops. -/
def allowed : Nat := (letters.asked.map fun ask => weight requestId ask.envelope).sum

/-- What was sent and what can still be sent. -/
def spent : Nat := letters.transmissions requestId + letters.travelling requestId

variable {requestId letters}

theorem spent_note (i : ι) (event : LinkEvent P) :
    (letters.note i event).spent requestId = letters.spent requestId := rfl

theorem allowed_note (i : ι) (event : LinkEvent P) :
    (letters.note i event).allowed requestId = letters.allowed requestId + event.asksWeight requestId := by
  unfold allowed note
  rw [List.map_append, List.sum_append, List.map_map]
  rfl

theorem spent_withoutRequest {position : Nat} {call : Call ι P} (found : letters.requests[position]? = some call) :
    (letters.withoutRequest position).spent requestId + hopsLeft requestId call.envelope =
      letters.spent requestId := by
  obtain ⟨inside, same⟩ := List.getElem?_eq_some_iff.mp found
  have perm := (List.getElem_cons_eraseIdx_perm inside).map fun call => hopsLeft requestId call.envelope
  have sum := perm.sum_eq
  rw [List.map_cons, List.sum_cons, same] at sum
  rw [spent, spent, travelling, travelling, ← sum, withoutRequest, Nat.add_assoc,
    Nat.add_comm (hopsLeft requestId call.envelope)]
  rfl

theorem spent_withoutRequest_le (position : Nat) :
    (letters.withoutRequest position).spent requestId ≤ letters.spent requestId := by
  cases found : letters.requests[position]? with
  | none =>
    rw [withoutRequest, List.eraseIdx_of_length_le (List.getElem?_eq_none_iff.mp found)]
  | some call => exact (Nat.le_add_right _ _).trans_eq (spent_withoutRequest found)

variable [DecidableEq ι]

theorem spent_post (i : ι) (output : LinkOutput P) :
    (letters.post i output).spent requestId = letters.spent requestId + output.weight requestId := by
  cases output with
  | sendRequest id peerId envelope =>
    rw [spent, transmissions, travelling, post, List.countP_append, List.map_append, List.sum_append,
      LinkOutput.weight, spent, transmissions, travelling, weight]
    by_cases routed : Routed requestId envelope
    · simp [hopsLeft, routed]
      omega
    · simp [hopsLeft, routed]
  | sendResponse channel envelope =>
    rw [post]
    split
    · split
      · rfl
      · rfl
    · rfl
  | _ => rfl

theorem spent_postAll (i : ι) (outputs : List (LinkOutput P)) :
    (letters.postAll i outputs).spent requestId = letters.spent requestId + sentWeight requestId outputs := by
  induction outputs generalizing letters with
  | nil => rfl
  | cons output rest ih =>
    calc ((letters.post i output).postAll i rest).spent requestId
        = (letters.post i output).spent requestId + sentWeight requestId rest := ih
      _ = letters.spent requestId + (output.weight requestId + sentWeight requestId rest) := by
          rw [spent_post, Nat.add_assoc]

theorem allowed_post (i : ι) (output : LinkOutput P) :
    (letters.post i output).allowed requestId = letters.allowed requestId := by
  cases output with
  | sendResponse channel envelope =>
    rw [post]
    split
    · split
      · rfl
      · rfl
    · rfl
  | _ => rfl

theorem allowed_postAll (i : ι) (outputs : List (LinkOutput P)) :
    (letters.postAll i outputs).allowed requestId = letters.allowed requestId := by
  induction outputs generalizing letters with
  | nil => rfl
  | cons output rest ih => exact ih.trans (allowed_post i output)

end Letters

/-! ### Runs -/

namespace CallNetwork

variable [DecidableEq ι] {network : CallNetwork ι P} {E : LinkEncoding} {requestId : RequestId}

/-- What is sent stays within what is allowed. -/
def Within (requestId : RequestId) (network : CallNetwork ι P) : Prop :=
  network.letters.spent requestId ≤ network.letters.allowed requestId

theorem bringsHops_of_isLocal {event : LinkEvent P} (own : event.isLocal = true) :
    event.bringsHops requestId = 0 := by
  cases event with
  | swarm event =>
    cases event with
    | request peerId id envelope channel => cases own
    | _ => rfl
  | _ => rfl

theorem within_act (moment : Moment) (i : ι) {event : LinkEvent P}
    (within : network.letters.spent requestId + event.bringsHops requestId ≤ network.letters.allowed requestId) :
    (network.act E moment i event).Within requestId := by
  have pass := ((network.actors i).step_pass moment E event).weight requestId
  rw [Within, act, Letters.spent_postAll, Letters.allowed_postAll, Letters.spent_note, Letters.allowed_note]
  omega

theorem Within.step (within : network.Within requestId) (moment : Moment) (event : CallEvent P ι) :
    (network.step E moment event).Within requestId := by
  cases event with
  | act i event =>
    rw [CallNetwork.step]
    split
    · rename_i own
      refine within_act moment i ?_
      rw [bringsHops_of_isLocal own]
      exact within
    · exact within
  | deliver position i requestId =>
    rw [CallNetwork.step]
    split
    · exact within
    · rename_i call found
      split
      · refine within_act moment i ?_
        exact (Letters.spent_withoutRequest found).trans_le within
      · exact within
  | answer position =>
    rw [CallNetwork.step]
    split
    · exact within
    · exact within_act moment _ within
  | loseRequest position => exact (Letters.spent_withoutRequest_le position).trans within
  | loseResponse position => exact within

theorem Within.run (within : network.Within requestId) (events : List (Moment × CallEvent P ι)) :
    (network.run E events).Within requestId := by
  induction events generalizing network with
  | nil => exact within
  | cons event rest ih => exact ih (within.step event.1 event.2)

/-- All nodes together send a request at most once for the caller and once for each hop the caller allows. -/
theorem transmissions_bounded (E : LinkEncoding) (identities : ι → NodeIdentity P)
    (registries : ι → AuthorizationRegistry) (bootIds : ι → Bytes) (sequences : ι → UInt64)
    (events : List (Moment × CallEvent P ι)) (requestId : RequestId) :
    let letters := ((new identities registries bootIds sequences).run E events).letters
    letters.transmissions requestId ≤ letters.allowed requestId := by
  have start : (new identities registries bootIds sequences).Within requestId := Nat.le_refl 0
  exact (Nat.le_add_right _ _).trans (start.run events)

end CallNetwork

end Lycoris.Link
