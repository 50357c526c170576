import Mathlib

/-!
Handles that are spent once. A handle arrives and is kept by a holder, dropped or spent at once; a holder
drops what it keeps or spends it. No handle is spent twice as long as none arrives twice, and one that no
holder has any more is not spent again.
-/

namespace Lycoris.Lib

variable {H C : Type}

/-- The handle each holder keeps. -/
abbrev Leases (H C : Type) := H → Option C

namespace Leases

/-- One step, with the handle that arrives and the one that is spent. -/
inductive Step : Leases H C → Option C → Option C → Leases H C → Prop where
  | drop {held held' : Leases H C} (arrived : Option C)
      (kept : ∀ holder handle, held' holder = some handle → held holder = some handle) :
      Step held arrived none held'
  | take {held held' : Leases H C} (holder : H) (handle : C)
      (kept : ∀ other found, held' other = some found →
        held other = some found ∨ (other = holder ∧ found = handle)) :
      Step held (some handle) none held'
  | pass {held held' : Leases H C} (handle : C)
      (kept : ∀ holder handle, held' holder = some handle → held holder = some handle) :
      Step held (some handle) (some handle) held'
  | spend {held held' : Leases H C} (holder : H) (handle : C) (found : held holder = some handle)
      (kept : ∀ other found, held' other = some found → other ≠ holder ∧ held other = some found) :
      Step held none (some handle) held'

variable {held held' : Leases H C} {arrived spent : Option C}

/-- What is kept after a step and did not arrive with it was kept by the same holder before. -/
theorem Step.back (step : Step held arrived spent held') {holder : H} {handle : C}
    (found : held' holder = some handle) (old : arrived ≠ some handle) : held holder = some handle := by
  cases step with
  | drop _ kept => exact kept holder handle found
  | take _ _ kept =>
    rcases kept holder handle found with before | ⟨_, rfl⟩
    · exact before
    · exact absurd rfl old
  | pass _ kept => exact kept holder handle found
  | spend _ _ _ kept => exact (kept holder handle found).2

/-- Only what arrives or is kept is spent. -/
theorem Step.spent_held (step : Step held arrived spent held') {handle : C} (now : spent = some handle) :
    arrived = some handle ∨ ∃ holder, held holder = some handle := by
  cases step with
  | drop => cases now
  | take => cases now
  | pass => exact .inl now
  | spend holder _ found => exact .inr ⟨holder, found.trans now⟩

/-- What is spent is kept by nobody afterwards. -/
theorem Step.spent_gone (step : Step held arrived spent held') {handle : C} (now : spent = some handle)
    (single : ∀ first second, held first = some handle → held second = some handle → first = second)
    (new : arrived = some handle → ∀ holder, held holder ≠ some handle) (holder : H) :
    held' holder ≠ some handle := by
  intro found
  cases step with
  | drop => cases now
  | take => cases now
  | pass _ kept => exact new now holder (kept holder handle found)
  | spend other _ before kept =>
    obtain ⟨different, still⟩ := kept holder handle found
    exact different (single holder other still (before.trans now))

/-- `seen` has arrived and `used` been spent. -/
structure Kept (held : Leases H C) (seen used : List C) : Prop where
  single : ∀ {first second handle}, held first = some handle → held second = some handle → first = second
  known : ∀ {holder handle}, held holder = some handle → handle ∈ seen
  unspent : ∀ {holder handle}, held holder = some handle → handle ∉ used
  once : used.Nodup
  arrived : ∀ handle ∈ used, handle ∈ seen

theorem Kept.empty (nothing : ∀ holder, held holder = none) : Kept held [] [] where
  single := by simp [nothing]
  known := by simp [nothing]
  unspent := by simp [nothing]
  once := List.nodup_nil
  arrived := by simp

theorem Kept.step {seen used : List C} (before : Kept held seen used)
    (step : Step held arrived spent held') (fresh : ∀ handle, arrived = some handle → handle ∉ seen) :
    Kept held' (seen ++ arrived.toList) (used ++ spent.toList) := by
  have new : ∀ handle, arrived = some handle → ∀ holder, held holder ≠ some handle :=
    fun handle here holder found => fresh handle here (before.known found)
  have single : ∀ {first second handle}, held' first = some handle → held' second = some handle →
      first = second := by
    intro first second handle left right
    by_cases here : arrived = some handle
    · -- Only `take` leaves a handle that has just arrived with somebody.
      cases step with
      | drop _ kept => exact absurd (kept first handle left) (new handle here first)
      | take holder _ kept =>
        rcases kept first handle left with old | ⟨rfl, _⟩
        · exact absurd old (new handle here first)
        · rcases kept second handle right with old | ⟨rfl, _⟩
          · exact absurd old (new handle here second)
          · rfl
      | pass _ kept => exact absurd (kept first handle left) (new handle here first)
      | spend => cases here
    · exact before.single (step.back left here) (step.back right here)
  refine ⟨single, ?_, ?_, ?_, ?_⟩
  · intro holder handle found
    by_cases here : arrived = some handle
    · simp [here]
    · exact List.mem_append_left _ (before.known (step.back found here))
  · intro holder handle found used
    rcases List.mem_append.mp used with earlier | now
    · by_cases here : arrived = some handle
      · exact fresh handle here (before.arrived handle earlier)
      · exact before.unspent (step.back found here) earlier
    · exact step.spent_gone (Option.mem_toList.mp now) (fun _ _ => before.single) (new handle) holder found
  · refine List.nodup_append.mpr ⟨before.once, ?_, ?_⟩
    · cases spent <;> simp
    · rintro handle earlier _ now rfl
      rcases step.spent_held (Option.mem_toList.mp now) with here | ⟨holder, found⟩
      · exact fresh handle here (before.arrived handle earlier)
      · exact before.unspent found earlier
  · intro handle used
    rcases List.mem_append.mp used with earlier | now
    · exact List.mem_append_left _ (before.arrived handle earlier)
    · rcases step.spent_held (Option.mem_toList.mp now) with here | ⟨holder, found⟩
      · simp [here]
      · exact List.mem_append_left _ (before.known found)

end Leases

end Lycoris.Lib
