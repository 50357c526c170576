import Lycoris.Lib.Json
import Lycoris.Lib.Runs

/-!
The instruction budget of Lua calls (`extension/src/lua.rs`; `invoke_local` in
`daemon/src/extension/mod.rs` runs calls on one instance side by side). A call arms the hook of the state, runs
its guest function and removes the hook, in three steps. The state has one hook, so a step of another call
between the arming and the guest call leaves the latter without its own hook.
-/

namespace Lycoris.Extension
open Lib

variable {V : Type}

/-! ### The budget -/

def hookGranularity : Nat := 1024

/-- `budget.div_ceil(HOOK_GRANULARITY)`. -/
def allowedHookFires (budget : UInt64) : Nat := (budget.toNat + (hookGranularity - 1)) / hookGranularity

inductive LuaError where
  | memory (message : String)
  | other (text : String)

/-- The errors of an invocation. -/
inductive ExtensionError where
  | engine (message : String)
  | script (message : String)
  | timeout
  | budgetExceeded (message : String)
  | invalidPayload (message : String)

def instructionsExceeded (budget : UInt64) : ExtensionError :=
  .budgetExceeded ("lua instruction budget of " ++ toString budget.toNat ++ " instructions exceeded")

def classifyScriptError (err : LuaError) (fired : Nat) (budget : UInt64) : ExtensionError :=
  if allowedHookFires budget < fired then instructionsExceeded budget
  else
    match err with
    | .memory message => .budgetExceeded ("lua memory budget exceeded: " ++ message)
    | .other text => .script text

/-! ### Calls -/

/-- How a guest's value leaves the state. -/
structure LuaBridge (V : Type) where
  fromValue : V → Except String Json
  toVec : Json → Except String ByteArray

/-- Where a call stands. -/
inductive Phase (V : Type) where
  | idle
  /-- The payload is JSON; the blocking task takes over. -/
  | entered
  /-- The payload is a value of the state. -/
  | bridged
  | armed
  | running
  | returned (result : Except LuaError V)
  | disarmed (result : Except LuaError V)
  | done

/-- A call of `invoke`. Its task goes on when the deadline has passed. -/
structure Call (V : Type) where
  phase : Phase V
  /-- The counter that its hook was armed with. -/
  fired : Nat
  /-- The VM instructions its guest function has executed. -/
  executed : Nat
  report : Option (Except ExtensionError ByteArray)

structure Hook where
  owner : Nat
  /-- The instructions until it fires. -/
  left : Nat

/-- One loaded instance with its calls. -/
structure LuaState (V : Type) where
  hook : Option Hook
  /-- The call whose guest function runs and holds the lock of the state. -/
  holder : Option Nat
  calls : Nat → Call V

def LuaState.loaded : LuaState V where
  hook := none
  holder := none
  calls := fun _ => { phase := .idle, fired := 0, executed := 0, report := none }

inductive LuaAction (V : Type) where
  | enter (call : Nat) (payload : Except String Unit)
  | bridge (call : Nat) (value : Except String Unit)
  | arm (call : Nat) (set : Except String Unit)
  | begin (call : Nat)
  | instruction (call : Nat)
  /-- The guest function ends by itself. -/
  | finish (call : Nat) (result : Except LuaError V)
  | remove (call : Nat)
  | answer (call : Nat)
  | expire (call : Nat)

/-- The end of the task; after the deadline nobody waits for its outcome. -/
def Call.ended (call : Call V) (outcome : Except ExtensionError ByteArray) : Call V :=
  { call with phase := .done, report := call.report.or (some outcome) }

def encodeOutput (bridge : LuaBridge V) (output : V) : Except ExtensionError ByteArray := do
  let json ← (bridge.fromValue output).mapError fun err =>
    .invalidPayload ("guest returned a non-JSON value: " ++ err)
  (bridge.toVec json).mapError fun err => .invalidPayload ("failed to encode guest output: " ++ err)

def Call.outcome (bridge : LuaBridge V) (budget : UInt64) (call : Call V) :
    Except LuaError V → Except ExtensionError ByteArray
  | .ok output => encodeOutput bridge output
  | .error err => .error (classifyScriptError err call.fired budget)

namespace LuaState

def put (state : LuaState V) (i : Nat) (call : Call V) : LuaState V :=
  { state with calls := Function.update state.calls i call }

/-- One VM instruction of a guest function. The hook counts it; when it fires, it counts in its own counter
and may end the running function with an error. -/
def instruction (budget : UInt64) (state : LuaState V) (i : Nat) : LuaState V :=
  let counted := state.put i { state.calls i with executed := (state.calls i).executed + 1 }
  match state.hook with
  | none => counted
  | some hook =>
    if hook.left ≠ 1 then { counted with hook := some { hook with left := hook.left - 1 } }
    else
      let armed := counted.calls hook.owner
      let fired := { counted.put hook.owner { armed with fired := (armed.fired + 1) % 2 ^ 64 } with
        hook := some { hook with left := hookGranularity } }
      if armed.fired < allowedHookFires budget then fired
      else
        let failure : LuaError := .other "lua instruction budget exceeded"
        { fired.put i { fired.calls i with phase := .returned (.error failure) } with holder := none }

/-- The steps of `invoke` and `call_entry`. Every access to the state waits for the lock; a step that is not
due does nothing. -/
def step (bridge : LuaBridge V) (budget : UInt64) (state : LuaState V) : LuaAction V → LuaState V
  | .enter i payload =>
    match (state.calls i).phase, payload with
    | .idle, .ok () => state.put i { state.calls i with phase := .entered }
    | .idle, .error err => state.put i
        ((state.calls i).ended (.error (.invalidPayload ("request payload is not valid JSON: " ++ err))))
    | _, _ => state
  | .bridge i value =>
    match (state.calls i).phase, state.holder, value with
    | .entered, none, .ok () => state.put i { state.calls i with phase := .bridged }
    | .entered, none, .error err => state.put i
        ((state.calls i).ended (.error (.invalidPayload ("failed to bridge payload to lua: " ++ err))))
    | _, _, _ => state
  | .arm i set =>
    match (state.calls i).phase, state.holder, set with
    | .bridged, none, .ok () =>
      { state.put i { state.calls i with phase := .armed, fired := 0 } with
        hook := some { owner := i, left := hookGranularity } }
    | .bridged, none, .error err => state.put i
        ((state.calls i).ended (.error (.engine ("failed to arm instruction hook: " ++ err))))
    | _, _, _ => state
  | .begin i =>
    match (state.calls i).phase, state.holder with
    | .armed, none => { state.put i { state.calls i with phase := .running } with holder := some i }
    | _, _ => state
  | .instruction i =>
    match (state.calls i).phase with
    | .running => state.instruction budget i
    | _ => state
  | .finish i result =>
    match (state.calls i).phase with
    | .running => { state.put i { state.calls i with phase := .returned result } with holder := none }
    | _ => state
  | .remove i =>
    match (state.calls i).phase, state.holder with
    | .returned result, none =>
      { state.put i { state.calls i with phase := .disarmed result } with hook := none }
    | _, _ => state
  | .answer i =>
    match (state.calls i).phase with
    | .disarmed result => state.put i ((state.calls i).ended ((state.calls i).outcome bridge budget result))
    | _ => state
  | .expire i =>
    match (state.calls i).phase, (state.calls i).report with
    | .idle, _ => state
    | _, none => state.put i { state.calls i with report := some (.error .timeout) }
    | _, some _ => state

/-! ### What is promised -/

/-- Every guest function runs under the hook armed for it, within the budget up to two periods of the hook,
and a call is told to have exceeded its instructions only when it has. -/
structure Within (budget : UInt64) (state : LuaState V) : Prop where
  own : ∀ i, (state.calls i).phase = .running → ∃ left, state.hook = some ⟨i, left⟩
  bounded : ∀ i, (state.calls i).executed ≤ budget.toNat + 2 * hookGranularity
  reported : ∀ i, (state.calls i).report = some (.error (instructionsExceeded budget)) →
    budget.toNat < (state.calls i).executed

/-- The hook is neither armed nor removed by a call while another has armed it and not yet begun. -/
def Undisturbed (state : LuaState V) : LuaAction V → Prop
  | .arm i (.ok ()) => ∀ j, j ≠ i → (state.calls j).phase ≠ .armed
  | .remove i => ∀ j, j ≠ i → (state.calls j).phase ≠ .armed
  | _ => True

/-! ### The invariant -/

/-- A call whose guest function has ended by itself, or at the first fire that was not allowed. -/
def Spent (budget : UInt64) (call : Call V) : Prop :=
  (call.fired ≤ allowedHookFires budget ∧ call.executed < (call.fired + 1) * hookGranularity) ∨
  (call.fired = allowedHookFires budget + 1 ∧
    call.executed = (allowedHookFires budget + 1) * hookGranularity)

/-- What holds of a call in each of its phases. -/
def CallSound (budget : UInt64) (hook : Option Hook) (i : Nat) (call : Call V) : Prop :=
  match call.phase with
  | .idle => call.fired = 0 ∧ call.executed = 0
  | .entered => call.fired = 0 ∧ call.executed = 0
  | .bridged => call.fired = 0 ∧ call.executed = 0
  | .armed => hook = some ⟨i, hookGranularity⟩ ∧ call.fired = 0 ∧ call.executed = 0
  | .running => ∃ left, hook = some ⟨i, left⟩ ∧ 1 ≤ left ∧ left ≤ hookGranularity ∧
      call.executed + left = (call.fired + 1) * hookGranularity ∧ call.fired ≤ allowedHookFires budget
  | .returned _ => Spent budget call
  | .disarmed _ => Spent budget call
  | .done => Spent budget call

/-- A call that is told to have exceeded its instructions is done, and its hook fired once too often. -/
def Told (budget : UInt64) (call : Call V) : Prop :=
  call.report = some (.error (instructionsExceeded budget)) →
    call.phase = .done ∧ allowedHookFires budget < call.fired

structure Sound (budget : UInt64) (state : LuaState V) : Prop where
  calls : ∀ i, CallSound budget state.hook i (state.calls i)
  told : ∀ i, Told budget (state.calls i)
  held : ∀ i, (state.calls i).phase = .running → state.holder = some i

section Proofs

variable {bridge : LuaBridge V} {budget : UInt64} {state : LuaState V} {i : Nat}

/-- A call that is neither armed nor running does not depend on the hook. -/
theorem CallSound.quiet {hook hook' : Option Hook} {call : Call V} (sound : CallSound budget hook i call)
    (notArmed : call.phase ≠ .armed) (notRunning : call.phase ≠ .running) :
    CallSound budget hook' i call := by
  obtain ⟨phase, fired, executed, report⟩ := call
  cases phase with
  | armed => exact absurd rfl notArmed
  | running => exact absurd rfl notRunning
  | _ => exact sound

theorem Sound.loaded : Sound budget (LuaState.loaded : LuaState V) := by
  refine ⟨fun _ => ⟨rfl, rfl⟩, ?_, ?_⟩
  · intro i told
    cases told
  · intro i running
    cases running

/-- A step that changes one call, the hook and the lock. -/
theorem Sound.update (sound : Sound budget state) {hook : Option Hook} {holder : Option Nat} {call : Call V}
    (own : CallSound budget hook i call) (told : Told budget call)
    (held : call.phase = .running → holder = some i)
    (others : ∀ j, j ≠ i → CallSound budget hook j (state.calls j) ∧
      ((state.calls j).phase = .running → holder = some j)) :
    Sound budget { hook := hook, holder := holder, calls := Function.update state.calls i call } := by
  refine ⟨?_, ?_, ?_⟩
  · intro j
    by_cases same : j = i
    · subst same
      simpa using own
    · simpa [same] using (others j same).1
  · intro j
    by_cases same : j = i
    · subst same
      simpa using told
    · simpa [same] using sound.told j
  · intro j
    by_cases same : j = i
    · subst same
      simpa using held
    · simpa [same] using (others j same).2

/-- A step that leaves the hook and the lock alone. -/
theorem Sound.put (sound : Sound budget state) {call : Call V}
    (own : CallSound budget state.hook i call) (told : Told budget call)
    (held : call.phase = .running → state.holder = some i) : Sound budget (state.put i call) :=
  sound.update own told held fun j _ => ⟨sound.calls j, sound.held j⟩

/-! ### Steps -/

/-- What is known of a call in a phase. -/
theorem Sound.at {phase : Phase V} (sound : Sound budget state) (here : (state.calls i).phase = phase) :
    CallSound budget state.hook i { state.calls i with phase := phase } := by
  have known := sound.calls i
  rw [← here]
  exact known

/-- Before its end a call is not told of its instructions. -/
theorem Sound.untold {phase : Phase V} (sound : Sound budget state) (here : (state.calls i).phase = phase)
    (early : phase ≠ .done) : (state.calls i).report ≠ some (.error (instructionsExceeded budget)) := by
  intro report
  exact early (here.symm.trans (sound.told i report).1)

/-- A step before the end that leaves the report as it is. -/
theorem Sound.silent {phase : Phase V} {call : Call V} (sound : Sound budget state)
    (here : (state.calls i).phase = phase) (early : phase ≠ .done)
    (same : call.report = (state.calls i).report) : Told budget call := by
  intro told
  rw [same] at told
  exact absurd told (sound.untold here early)

theorem spent_of_unspent {call : Call V} (fired : call.fired = 0) (executed : call.executed = 0) :
    Spent budget call := by
  refine .inl ⟨by omega, ?_⟩
  rw [fired, executed]
  decide

/-- A task that fails before it arms the hook. -/
theorem Sound.fails {phase : Phase V} (sound : Sound budget state) (here : (state.calls i).phase = phase)
    (early : phase ≠ .done) (fired : (state.calls i).fired = 0) (executed : (state.calls i).executed = 0)
    {error : ExtensionError} (other : error ≠ instructionsExceeded budget) :
    Sound budget (state.put i ((state.calls i).ended (.error error))) := by
  refine sound.put (spent_of_unspent fired executed) ?_ ?_
  · intro told
    have untold := sound.untold here early
    cases report : (state.calls i).report with
    | none =>
      rw [Call.ended, report] at told
      exact absurd (Except.error.inj (Option.some.inj told)) other
    | some earlier =>
      rw [Call.ended, report] at told
      exact absurd (report.trans told) untold
  · intro running
    cases running

/-- While a call runs or waits under its hook, no other call is armed. -/
theorem Sound.alone {left : Nat} (sound : Sound budget state) (hook : state.hook = some ⟨i, left⟩) (j : Nat)
    (other : j ≠ i) : (state.calls j).phase ≠ .armed := by
  intro armed
  obtain ⟨hook', _⟩ := sound.at armed
  cases hook.symm.trans hook'
  exact other rfl

/-- Only one guest function runs at a time. -/
theorem Sound.only (sound : Sound budget state) (running : (state.calls i).phase = .running) (j : Nat)
    (other : j ≠ i) : (state.calls j).phase ≠ .running := by
  intro also
  cases (sound.held i running).symm.trans (sound.held j also)
  exact other rfl

/-- The other calls when the hook or the lock changes. -/
theorem Sound.others (sound : Sound budget state) {hook : Option Hook} {holder : Option Nat}
    (noneArmed : ∀ j, j ≠ i → (state.calls j).phase ≠ .armed)
    (noneRunning : ∀ j, j ≠ i → (state.calls j).phase ≠ .running) (j : Nat) (other : j ≠ i) :
    CallSound budget hook j (state.calls j) ∧ ((state.calls j).phase = .running → holder = some j) :=
  ⟨(sound.calls j).quiet (noneArmed j other) (noneRunning j other),
    fun running => absurd running (noneRunning j other)⟩

theorem Sound.noneRunning (sound : Sound budget state) (free : state.holder = none) (j : Nat) :
    (state.calls j).phase ≠ .running := by
  intro running
  cases free.symm.trans (sound.held j running)

theorem allowed_lt (budget : UInt64) : allowedHookFires budget + 1 < 2 ^ 64 := by
  have bound := budget.toNat_lt
  simp only [allowedHookFires, hookGranularity]
  omega

/-- An instruction under the hook of the call itself. -/
theorem instruction_own {left : Nat} (hook : state.hook = some ⟨i, left⟩) :
    state.instruction budget i =
      if left ≠ 1 then
        { hook := some ⟨i, left - 1⟩
          holder := state.holder
          calls := Function.update state.calls i
            { state.calls i with executed := (state.calls i).executed + 1 } }
      else if (state.calls i).fired < allowedHookFires budget then
        { hook := some ⟨i, hookGranularity⟩
          holder := state.holder
          calls := Function.update state.calls i
            { state.calls i with
              executed := (state.calls i).executed + 1
              fired := ((state.calls i).fired + 1) % 2 ^ 64 } }
      else
        { hook := some ⟨i, hookGranularity⟩
          holder := none
          calls := Function.update state.calls i
            { state.calls i with
              phase := .returned (.error (.other "lua instruction budget exceeded"))
              executed := (state.calls i).executed + 1
              fired := ((state.calls i).fired + 1) % 2 ^ 64 } } := by
  simp only [instruction, put, hook, Function.update_self, Function.update_idem]

theorem Sound.instruction (sound : Sound budget state) (running : (state.calls i).phase = .running) :
    Sound budget (state.instruction budget i) := by
  have known := sound.calls i
  simp only [CallSound, running] at known
  obtain ⟨left, hook, positive, least, sum, fires⟩ := known
  have untold := sound.untold running (by simp)
  have others {hook' : Option Hook} {holder : Option Nat} :=
    @Sound.others _ _ _ i sound hook' holder (sound.alone hook) (sound.only running)
  have room := allowed_lt budget
  rw [instruction_own hook]
  split_ifs with counting allowed
  · refine sound.update ?_ (fun told => absurd told untold) (fun _ => sound.held i running) others
    simp only [CallSound, running]
    exact ⟨left - 1, rfl, by omega, by omega, by omega, fires⟩
  · have first : left = 1 := not_not.mp counting
    have wraps : ((state.calls i).fired + 1) % 2 ^ 64 = (state.calls i).fired + 1 :=
      Nat.mod_eq_of_lt (by omega)
    refine sound.update ?_ (fun told => absurd told untold) (fun _ => sound.held i running) others
    simp only [CallSound, running, wraps]
    refine ⟨hookGranularity, rfl, by decide, le_rfl, ?_, allowed⟩
    rw [Nat.add_one_mul ((state.calls i).fired + 1), ← sum, first]
  · have first : left = 1 := not_not.mp counting
    have last : (state.calls i).fired = allowedHookFires budget := le_antisymm fires (not_lt.mp allowed)
    refine sound.update ?_ (fun told => absurd told untold) (fun later => by cases later) others
    refine .inr ⟨?_, ?_⟩
    · simp only [last]
      exact Nat.mod_eq_of_lt room
    · simp only
      rw [← last, ← sum, first]

theorem memory_ne_instructions (message : String) :
    ExtensionError.budgetExceeded ("lua memory budget exceeded: " ++ message)
      ≠ instructionsExceeded budget := by
  intro same
  have texts := congrArg (fun text => text.toList[4]?) (ExtensionError.budgetExceeded.inj same)
  simp at texts

/-- The instruction error comes of a hook that fired more often than allowed. -/
theorem outcome_told {call : Call V} {result : Except LuaError V}
    (told : call.outcome bridge budget result = .error (instructionsExceeded budget)) :
    allowedHookFires budget < call.fired := by
  cases result with
  | ok output =>
    simp only [Call.outcome, encodeOutput] at told
    cases value : bridge.fromValue output with
    | error err => simp [value, Except.mapError, bind, Except.bind, instructionsExceeded] at told
    | ok json => cases encoded : bridge.toVec json <;>
        simp [value, encoded, Except.mapError, bind, Except.bind, instructionsExceeded] at told
  | error err =>
    have classified := Except.error.inj told
    unfold classifyScriptError at classified
    split_ifs at classified with exceeded
    · exact exceeded
    · cases err with
      | memory message => exact absurd classified (memory_ne_instructions message)
      | other text => cases classified

theorem Sound.answer {result : Except LuaError V} (sound : Sound budget state)
    (here : (state.calls i).phase = .disarmed result) :
    Sound budget (state.put i ((state.calls i).ended ((state.calls i).outcome bridge budget result))) := by
  have untold := sound.untold here (by simp)
  refine sound.put (sound.at here) ?_ (fun running => by cases running)
  intro told
  refine ⟨rfl, ?_⟩
  cases report : (state.calls i).report with
  | none =>
    rw [Call.ended, report] at told
    exact outcome_told (Option.some.inj told)
  | some earlier =>
    rw [Call.ended, report] at told
    exact absurd (report.trans told) untold

/-- A guest function begins under the hook just armed for it. -/
theorem Sound.begins (sound : Sound budget state) (here : (state.calls i).phase = .armed) :
    CallSound budget state.hook i ({ state.calls i with phase := .running } : Call V) := by
  obtain ⟨hook, fired, executed⟩ := sound.at here
  simp only at fired executed
  refine ⟨hookGranularity, hook, by decide, le_rfl, ?_, ?_⟩
  · simp only
    rw [fired, executed, Nat.zero_add, Nat.zero_add, Nat.one_mul]
  · simp only
    omega

theorem Sound.finishes (sound : Sound budget state) (here : (state.calls i).phase = .running)
    (result : Except LuaError V) : Spent budget { state.calls i with phase := .returned result } := by
  obtain ⟨left, _, positive, _, sum, fires⟩ := sound.at here
  refine .inl ⟨fires, ?_⟩
  simp only at sum ⊢
  omega

/-- A step that no other call is disturbed by keeps the invariant. -/
theorem Sound.step {action : LuaAction V} (sound : Sound budget state)
    (undisturbed : state.Undisturbed action) : Sound budget (state.step bridge budget action) := by
  cases action with
  | enter i payload =>
    dsimp only [LuaState.step]
    split
    · rename_i here
      obtain ⟨fired, executed⟩ := sound.at here
      exact sound.put ⟨fired, executed⟩ (sound.silent here (by simp) rfl)
        (fun running => by cases running)
    · rename_i here
      obtain ⟨fired, executed⟩ := sound.at here
      exact sound.fails here (by simp) fired executed (by simp [instructionsExceeded])
    · exact sound
  | bridge i value =>
    dsimp only [LuaState.step]
    split
    · rename_i here _
      obtain ⟨fired, executed⟩ := sound.at here
      exact sound.put ⟨fired, executed⟩ (sound.silent here (by simp) rfl)
        (fun running => by cases running)
    · rename_i here _
      obtain ⟨fired, executed⟩ := sound.at here
      exact sound.fails here (by simp) fired executed (by simp [instructionsExceeded])
    · exact sound
  | arm i set =>
    dsimp only [LuaState.step]
    split
    · rename_i here free
      obtain ⟨_, executed⟩ := sound.at here
      exact sound.update ⟨rfl, rfl, executed⟩ (sound.silent here (by simp) rfl)
        (fun running => by cases running) (sound.others undisturbed fun j _ => sound.noneRunning free j)
    · rename_i here _
      obtain ⟨fired, executed⟩ := sound.at here
      exact sound.fails here (by simp) fired executed (by simp [instructionsExceeded])
    · exact sound
  | begin i =>
    dsimp only [LuaState.step]
    split
    · rename_i here free
      refine sound.update (sound.begins here) (sound.silent here (by simp) rfl) (fun _ => rfl) ?_
      exact fun j _ => ⟨sound.calls j, fun running => absurd running (sound.noneRunning free j)⟩
    · exact sound
  | instruction i =>
    dsimp only [LuaState.step]
    split
    · rename_i here
      exact sound.instruction here
    · exact sound
  | finish i result =>
    dsimp only [LuaState.step]
    split
    · rename_i here
      obtain ⟨left, hook, _⟩ := sound.at here
      exact sound.update (sound.finishes here result) (sound.silent here (by simp) rfl)
        (fun running => by cases running) (sound.others (sound.alone hook) (sound.only here))
    · exact sound
  | remove i =>
    dsimp only [LuaState.step]
    split
    · rename_i here free
      exact sound.update (sound.at here) (sound.silent here (by simp) rfl)
        (fun running => by cases running) (sound.others undisturbed fun j _ => sound.noneRunning free j)
    · exact sound
  | answer i =>
    dsimp only [LuaState.step]
    split
    · rename_i here
      exact sound.answer here
    · exact sound
  | expire i =>
    dsimp only [LuaState.step]
    split
    · exact sound
    · refine sound.put (sound.calls i) (fun told => ?_) (sound.held i)
      simp [instructionsExceeded] at told
    · exact sound

/-- A guest function has executed no more than the fires of its hook allow. -/
theorem CallSound.executed_le {hook : Option Hook} {call : Call V} (sound : CallSound budget hook i call) :
    call.executed ≤ (allowedHookFires budget + 1) * hookGranularity := by
  have spent (spent : Spent budget call) :
      call.executed ≤ (allowedHookFires budget + 1) * hookGranularity := by
    rcases spent with ⟨fires, below⟩ | ⟨_, all⟩
    · have rounds : (call.fired + 1) * hookGranularity ≤ (allowedHookFires budget + 1) * hookGranularity :=
        Nat.mul_le_mul_right _ (by omega)
      omega
    · exact all.le
  unfold CallSound at sound
  split at sound
  · omega
  · omega
  · omega
  · obtain ⟨_, _, none⟩ := sound
    omega
  · obtain ⟨left, _, _, _, sum, fires⟩ := sound
    have rounds : (call.fired + 1) * hookGranularity ≤ (allowedHookFires budget + 1) * hookGranularity :=
      Nat.mul_le_mul_right _ (by omega)
    omega
  · exact spent sound
  · exact spent sound
  · exact spent sound

theorem allowed_le (budget : UInt64) :
    (allowedHookFires budget + 1) * hookGranularity ≤ budget.toNat + 2 * hookGranularity := by
  simp only [allowedHookFires, hookGranularity]
  omega

theorem budget_lt (budget : UInt64) : budget.toNat < (allowedHookFires budget + 1) * hookGranularity := by
  simp only [allowedHookFires, hookGranularity]
  omega

theorem Sound.within (sound : Sound budget state) : state.Within budget := by
  refine ⟨?_, ?_, ?_⟩
  · intro i running
    obtain ⟨left, hook, _⟩ := sound.at running
    exact ⟨left, hook⟩
  · intro i
    exact (sound.calls i).executed_le.trans (allowed_le budget)
  · intro i report
    obtain ⟨done, exceeded⟩ := sound.told i report
    rcases sound.at done with ⟨fires, _⟩ | ⟨_, all⟩
    · exact absurd exceeded (not_lt.mpr fires)
    · exact lt_of_lt_of_eq (budget_lt budget) all.symm

/-- In every run in which no call arms or removes the hook while another has armed it and not yet begun,
every guest function runs under its own hook and within its budget. -/
theorem budget_holds (bridge : LuaBridge V) (budget : UInt64) {actions : List (LuaAction V)}
    (undisturbed : Steps (LuaState.step bridge budget) Undisturbed LuaState.loaded actions) :
    Throughout (LuaState.step bridge budget) (Within budget) LuaState.loaded actions := by
  refine (Throughout.of_steps Sound.loaded ?_ undisturbed).mono fun _ sound => sound.within
  intro state action _ sound allowed
  exact sound.step allowed

end Proofs

/-! ### Two calls -/

def sampleBridge : LuaBridge Json where
  fromValue := .ok
  toVec := fun _ => .ok "null".toUTF8

/-- A call up to its arming. -/
def entering (i : Nat) : List (LuaAction Json) := [.enter i (.ok ()), .bridge i (.ok ())]

/-- The second call arms its hook when the first has ended its guest function. -/
def inTurn : List (LuaAction Json) :=
  entering 0 ++ entering 1 ++ [.arm 0 (.ok ()), .begin 0, .instruction 0, .finish 0 (.ok .null), .remove 0,
    .arm 1 (.ok ()), .begin 1, .instruction 1, .finish 1 (.ok .null), .remove 1, .answer 0, .answer 1]

theorem calls_in_turn_within :
    Throughout (step sampleBridge 1000) (Within 1000) LuaState.loaded inTurn := by
  refine budget_holds sampleBridge 1000 ?_
  refine ⟨trivial, trivial, trivial, trivial, ?_, trivial, trivial, trivial, ?_, ?_, trivial, trivial,
    trivial, ?_, trivial, trivial, trivial⟩
  all_goals
    intro j other armed
    rcases j with _ | _ | j
    all_goals cases armed

/-- The second call arms its hook before the first has removed its own. -/
def crossed : List (LuaAction Json) :=
  entering 0 ++ entering 1 ++
    [.arm 0 (.ok ()), .begin 0, .finish 0 (.ok .null), .arm 1 (.ok ()), .remove 0, .begin 1]

/-- Without a hook a guest function runs as long as it likes. -/
theorem executed_unhooked {bridge : LuaBridge V} {budget : UInt64} {state : LuaState V} {i : Nat}
    (unhooked : state.hook = none) (running : (state.calls i).phase = .running) (n : Nat) :
    (((List.replicate n (.instruction i)).foldl (step bridge budget) state).calls i).executed
      = (state.calls i).executed + n := by
  induction n generalizing state with
  | zero => rfl
  | succ n ih =>
    obtain ⟨after, next, unhooked', running', executed⟩ : ∃ after,
        state.step bridge budget (.instruction i) = after ∧ after.hook = none ∧
          (after.calls i).phase = .running ∧ (after.calls i).executed = (state.calls i).executed + 1 :=
      ⟨_, rfl, by simp [step, running, instruction, unhooked, put]⟩
    rw [List.replicate_succ, List.foldl_cons, next, ih unhooked' running', executed]
    omega

/-- The first call removes the hook of the second, which then goes past its budget. -/
theorem crossed_call_unbounded :
    ¬ Throughout (step sampleBridge 1) (Within 1) LuaState.loaded
      (crossed ++ List.replicate 2050 (.instruction 1)) := by
  intro within
  have bounded := within.last.bounded 1
  rw [List.foldl_append, executed_unhooked rfl rfl] at bounded
  exact absurd bounded (by decide)

end LuaState

end Lycoris.Extension
