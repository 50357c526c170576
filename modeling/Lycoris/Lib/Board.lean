import Mathlib

/-!
Latest values told to listeners. A participant announces values of growing version, and a copy travels to
each of its listeners; copies arrive in any order and are kept where they are newer than what is held.
`Kept` is the invariant: a listener holds the latest value or a copy of it is underway.
-/

namespace Lycoris.Lib

structure Board (ι R : Type) where
  /-- `listens i j`: the participant `j` is to hear of `i`. -/
  listens : ι → ι → Prop
  /-- `holds j i`: what `j` has heard of `i`, and for `j = i` what `i` announced last. -/
  holds : ι → ι → Option R
  /-- `underway i j value`: a copy from `i` to `j` has not arrived. -/
  underway : ι → ι → R → Prop

namespace Board

variable {ι R : Type} (version : R → Nat) (before after : Board ι R)

/-- What one announcement does. The announcer may forget what it has heard from others, except from one
it listens to whose latest value is not underway any more. -/
structure Announce (i : ι) (value : R) : Prop where
  newer : ∀ {old}, before.holds i i = some old → version old < version value
  held : after.holds i i = some value
  others : ∀ {j k}, j ≠ i → after.holds j k = before.holds j k
  forgets : ∀ {k}, k ≠ i → after.holds i k = before.holds i k ∨
    (after.holds i k = none ∧ (before.listens k i →
      ∀ {latest}, before.holds k k = some latest → before.underway k i latest))
  listens : ∀ {k j}, k ≠ i → (after.listens k j ↔ before.listens k j)
  tells : ∀ {j}, after.listens i j → after.underway i j value
  keeps : ∀ {k j copy}, before.underway k j copy → after.underway k j copy
  adds : ∀ {k j copy}, after.underway k j copy → before.underway k j copy ∨ (k = i ∧ copy = value)

/-- What the arrival of a copy does: it is ignored, it is stale, or it is held from now on. A copy is not
ignored when it is the latest value and the receiver listens. -/
structure Arrive (i j : ι) (value : R) : Prop where
  arrives : before.underway i j value
  others : ∀ {k l}, ¬ (k = j ∧ l = i) → after.holds k l = before.holds k l
  heard :
    (after.holds j i = before.holds j i ∧ ¬ (before.listens i j ∧ before.holds i i = some value)) ∨
    (after.holds j i = before.holds j i ∧
      ∃ current, before.holds j i = some current ∧ version value ≤ version current) ∨
    (after.holds j i = some value ∧
      ∀ {current}, before.holds j i = some current → version current < version value)
  listens : ∀ {k l}, after.listens k l ↔ before.listens k l
  keeps : ∀ {k l copy}, before.underway k l copy →
    (k = i ∧ l = j ∧ copy = value) ∨ after.underway k l copy
  adds : ∀ {k l copy}, after.underway k l copy → before.underway k l copy

inductive Step : Prop where
  | quiet (same : after = before)
  | announce {i : ι} {value : R} (announce : Announce version before after i value)
  | arrive {i j : ι} {value : R} (arrive : Arrive version before after i j value)

/-- The latest value of `i`, or an older one. -/
def Genuine (board : Board ι R) (i : ι) (value : R) : Prop :=
  ∃ latest, board.holds i i = some latest ∧ (value = latest ∨ version value < version latest)

structure Kept (board : Board ι R) : Prop where
  held : ∀ {i j value}, board.holds j i = some value → board.Genuine version i value
  sent : ∀ {i j value}, board.underway i j value → board.Genuine version i value
  told : ∀ {i j}, board.listens i j → ∃ latest, board.holds i i = some latest ∧
    (board.underway i j latest ∨ board.holds j i = some latest)

variable {version before after}

theorem kept_of_empty {board : Board ι R} (nobody : ∀ i j, ¬ board.listens i j)
    (nothing : ∀ i j, board.holds j i = none) (none : ∀ i j value, ¬ board.underway i j value) :
    board.Kept version where
  held {i j _} found := by
    rw [nothing i j] at found
    cases found
  sent underway := absurd underway (none _ _ _)
  told listens := absurd listens (nobody _ _)

theorem Genuine.version_le {board : Board ι R} {i : ι} {value latest : R}
    (genuine : board.Genuine version i value) (held : board.holds i i = some latest) :
    version value ≤ version latest := by
  obtain ⟨same, found, equal | older⟩ := genuine
  · rw [equal, Option.some.inj (found.symm.trans held)]
  · rw [← Option.some.inj (found.symm.trans held)]
    exact older.le

theorem Genuine.congr {i : ι} {value : R} (genuine : before.Genuine version i value)
    (same : after.holds i i = before.holds i i) : after.Genuine version i value := by
  obtain ⟨latest, found, older⟩ := genuine
  exact ⟨latest, same.trans found, older⟩

/-! ### Announcements -/

namespace Announce

variable {i : ι} {value : R}

theorem genuine (announce : Announce version before after i value) {k : ι} {copy : R}
    (genuine : before.Genuine version k copy) : after.Genuine version k copy := by
  by_cases self : k = i
  · subst self
    have ⟨_, found, _⟩ := genuine
    have newer := announce.newer found
    exact ⟨value, announce.held, .inr ((genuine.version_le found).trans_lt newer)⟩
  · exact genuine.congr (announce.others self)

theorem told (announce : Announce version before after i value) (kept : before.Kept version) {k j : ι}
    (listens : before.listens k j) (other : k ≠ i) :
    ∃ latest, after.holds k k = some latest ∧
      (after.underway k j latest ∨ after.holds j k = some latest) := by
  obtain ⟨latest, found, underway | held⟩ := kept.told listens
  · exact ⟨latest, (announce.others other).trans found, .inl (announce.keeps underway)⟩
  · refine ⟨latest, (announce.others other).trans found, ?_⟩
    by_cases self : j = i
    · subst self
      rcases announce.forgets other with same | ⟨_, underway⟩
      · exact .inr (same.trans held)
      · exact .inl (announce.keeps (underway listens found))
    · exact .inr ((announce.others self).trans held)

theorem kept (announce : Announce version before after i value) (kept : before.Kept version) :
    after.Kept version where
  held {k j copy} found := by
    by_cases receiver : j = i
    · subst receiver
      by_cases self : k = j
      · subst self
        exact ⟨value, announce.held, .inl (Option.some.inj (found.symm.trans announce.held))⟩
      · rcases announce.forgets self with same | ⟨none, _⟩
        · exact announce.genuine (kept.held (same.symm.trans found))
        · rw [none] at found
          cases found
    · exact announce.genuine (kept.held ((announce.others receiver).symm.trans found))
  sent underway := by
    rcases announce.adds underway with old | ⟨rfl, rfl⟩
    · exact announce.genuine (kept.sent old)
    · exact ⟨_, announce.held, .inl rfl⟩
  told {k j} listens := by
    by_cases self : k = i
    · subst self
      exact ⟨value, announce.held, .inl (announce.tells listens)⟩
    · exact announce.told kept ((announce.listens self).mp listens) self

end Announce

/-! ### Arrivals -/

namespace Arrive

variable {i j : ι} {value : R}

/-- A participant's own value never changes by a copy that arrives. -/
theorem own (arrive : Arrive version before after i j value) (kept : before.Kept version) (k : ι) :
    after.holds k k = before.holds k k := by
  by_cases self : k = j ∧ k = i
  · obtain ⟨rfl, rfl⟩ := self
    rcases arrive.heard with ⟨same, _⟩ | ⟨same, _⟩ | ⟨_, newer⟩
    · exact same
    · exact same
    · have genuine := kept.sent arrive.arrives
      have ⟨_, found, _⟩ := genuine
      exact absurd (newer found) (not_lt.mpr (genuine.version_le found))
  · exact arrive.others self

/-- The latest value is held by a listener once a copy of it arrived. -/
theorem latest (arrive : Arrive version before after i j value) (kept : before.Kept version)
    (listens : before.listens i j) (latest : before.holds i i = some value) :
    after.holds j i = some value := by
  rcases arrive.heard with ⟨_, ignored⟩ | ⟨same, current, found, stale⟩ | ⟨held, _⟩
  · exact absurd ⟨listens, latest⟩ ignored
  · obtain ⟨own, announced, equal | older⟩ := kept.held found
    · rw [same, found, equal]
      exact announced.symm.trans latest
    · rw [Option.some.inj (announced.symm.trans latest)] at older
      exact absurd older (not_lt.mpr stale)
  · exact held

theorem kept (arrive : Arrive version before after i j value) (kept : before.Kept version) :
    after.Kept version := by
  have carry : ∀ {k copy}, before.Genuine version k copy → after.Genuine version k copy :=
    fun genuine => genuine.congr (arrive.own kept _)
  refine ⟨?_, fun underway => carry (kept.sent (arrive.adds underway)), ?_⟩
  · intro k l copy found
    by_cases receiver : l = j ∧ k = i
    · obtain ⟨rfl, rfl⟩ := receiver
      rcases arrive.heard with ⟨same, _⟩ | ⟨same, _⟩ | ⟨held, _⟩
      · exact carry (kept.held (same.symm.trans found))
      · exact carry (kept.held (same.symm.trans found))
      · rw [← Option.some.inj (held.symm.trans found)]
        exact carry (kept.sent arrive.arrives)
    · exact carry (kept.held ((arrive.others receiver).symm.trans found))
  · intro k l listens
    have listened := arrive.listens.mp listens
    obtain ⟨latest, announced, told⟩ := kept.told listened
    refine ⟨latest, (arrive.own kept k).trans announced, ?_⟩
    rcases told with underway | held
    · rcases arrive.keeps underway with ⟨rfl, rfl, rfl⟩ | still
      · exact .inr (arrive.latest kept listened announced)
      · exact .inl still
    · by_cases receiver : l = j ∧ k = i
      · obtain ⟨rfl, rfl⟩ := receiver
        rcases arrive.heard with ⟨same, _⟩ | ⟨same, _⟩ | ⟨_, newer⟩
        · exact .inr (same.trans held)
        · exact .inr (same.trans held)
        · -- a copy newer than the latest value would not be genuine
          have older := (kept.sent arrive.arrives).version_le announced
          exact absurd (newer held) (not_lt.mpr older)
      · exact .inr ((arrive.others receiver).trans held)

end Arrive

theorem Kept.step (kept : before.Kept version) (step : Step version before after) : after.Kept version := by
  cases step with
  | quiet same => exact same ▸ kept
  | announce announce => exact announce.kept kept
  | arrive arrive => exact arrive.kept kept

/-- With nothing underway every listener holds the latest value. -/
theorem Kept.settled {board : Board ι R} (kept : board.Kept version)
    (nothing : ∀ i j value, ¬ board.underway i j value) {i j : ι} (listens : board.listens i j) :
    ∃ latest, board.holds i i = some latest ∧ board.holds j i = some latest := by
  obtain ⟨latest, announced, underway | held⟩ := kept.told listens
  · exact absurd underway (nothing i j latest)
  · exact ⟨latest, announced, held⟩

end Board

end Lycoris.Lib
