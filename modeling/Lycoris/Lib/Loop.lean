import Mathlib

/-!
Source loops as functions. `loop` runs one turn at a time under a fuel bound and returns `none`
when the fuel runs out; `loop_total` is the rule that shows a loop stops and what it returns, and
`Ends` is the same loop without a bound.
`ensure` and the bind lemmas serve the early returns of fallible code.
-/

namespace Lycoris.Lib

/-- The outcome of one pass through a loop body. -/
inductive Turn (σ β : Type) where
  | done (result : β)
  | next (state : σ)

variable {σ β : Type}

def loop (turn : σ → Option (Turn σ β)) : Nat → σ → Option β
  | 0, _ => none
  | fuel + 1, state =>
    match turn state with
    | none => none
    | some (.done result) => some result
    | some (.next state') => loop turn fuel state'

/-- A loop whose turns keep `Inv` and lower `measure` stops, and `Post` holds of what it returns
once it holds of every last turn and is carried back over the others. -/
theorem loop_total (turn : σ → Option (Turn σ β)) (Inv : σ → Prop) (measure : σ → Nat)
    (Post : σ → β → Prop) (fuel : Nat)
    (turns : ∀ s, Inv s → (∃ b, turn s = some (.done b) ∧ Post s b) ∨
      (∃ s', turn s = some (.next s') ∧ Inv s' ∧ measure s' < measure s ∧ ∀ b, Post s' b → Post s b))
    {s : σ} (start : Inv s) (enough : measure s < fuel) :
    ∃ b, loop turn fuel s = some b ∧ Post s b := by
  induction fuel generalizing s with
  | zero => exact absurd enough (Nat.not_lt_zero _)
  | succ fuel ih =>
    rcases turns s start with ⟨b, last, post⟩ | ⟨s', step, inv, less, back⟩
    · exact ⟨b, by simp only [loop, last], post⟩
    · obtain ⟨b, rest, post⟩ := ih inv (by omega)
      exact ⟨b, by simp only [loop, step, rest], back b post⟩

/-- The loop without a bound: it returns what its last turn returns, after finitely many turns. -/
inductive Ends (turn : σ → Turn σ β → Prop) : σ → β → Prop
  | done {s : σ} {b : β} (last : turn s (.done b)) : Ends turn s b
  | next {s s' : σ} {b : β} (step : turn s (.next s')) (rest : Ends turn s' b) : Ends turn s b

/-- A loop that does not run out of fuel ends the same way without it. -/
theorem Ends.of_loop {turn : σ → Option (Turn σ β)} {Turns : σ → Turn σ β → Prop}
    (sound : ∀ s t, turn s = some t → Turns s t) {fuel : Nat} {s : σ} {b : β}
    (answer : loop turn fuel s = some b) : Ends Turns s b := by
  induction fuel generalizing s with
  | zero => cases answer
  | succ fuel ih =>
    rw [loop] at answer
    split at answer
    · cases answer
    · rename_i result last
      cases answer
      exact .done (sound s _ last)
    · rename_i s' step
      exact .next (sound s _ step) (ih answer)

section Fallible

variable {ε α γ : Type}

def ensure (condition : Prop) [Decidable condition] (error : ε) : Except ε Unit :=
  if condition then .ok () else .error error

/-- `Option::ok_or`. -/
def okOr (found : Option α) (error : ε) : Except ε α :=
  match found with
  | some value => .ok value
  | none => .error error

@[simp] theorem okOr_ok {found : Option α} {error : ε} {a : α} :
    okOr found error = .ok a ↔ found = some a := by
  cases found <;> simp [okOr]

@[simp] theorem ensure_ok {condition : Prop} [Decidable condition] {error : ε} {u : Unit} :
    ensure condition error = .ok u ↔ condition := by
  unfold ensure
  split <;> simp_all

theorem bind_ok {x : Except ε α} {f : α → Except ε γ} {c : γ} :
    (x >>= f) = .ok c ↔ ∃ a, x = .ok a ∧ f a = .ok c := by
  cases x with
  | ok a => simp [bind, Except.bind]
  | error e => simp [bind, Except.bind]

theorem mapError_ok {ε' : Type} {x : Except ε α} {f : ε → ε'} {a : α} :
    x.mapError f = .ok a ↔ x = .ok a := by
  cases x with
  | ok a => simp [Except.mapError]
  | error e => simp [Except.mapError]

end Fallible

end Lycoris.Lib
