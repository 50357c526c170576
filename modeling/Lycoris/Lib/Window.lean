import Mathlib

/-!
A window over the last values of a list, and what it lets through: values that enter only when the
window does not hold them repeat only after as many others as the window is wide. A queue that refuses
what it holds and drops the oldest beyond its width is the window over what it accepted.
-/

namespace Lycoris.Lib

variable {α : Type}

/-- The last `width` values. -/
def window (width : Nat) (values : List α) : List α := values.drop (values.length - width)

theorem window_of_length_le {width : Nat} {values : List α} (short : values.length ≤ width) :
    window width values = values := by
  rw [window, Nat.sub_eq_zero_of_le short, List.drop_zero]

theorem length_window_le (width : Nat) (values : List α) : (window width values).length ≤ width := by
  rw [window, List.length_drop]
  omega

/-- A window moves on without what it has left behind. -/
theorem window_snoc (width : Nat) (values : List α) (value : α) :
    window width (window width values ++ [value]) = window width (values ++ [value]) := by
  rcases Nat.le_total values.length width with short | long
  · rw [window_of_length_le short]
  · have kept : window width values ++ [value] = (values ++ [value]).drop (values.length - width) := by
      rw [window, List.drop_append_of_le_length (Nat.sub_le _ _)]
    rw [kept]
    unfold window
    rw [List.drop_drop, List.length_drop, List.length_append, List.length_singleton]
    congr 1
    omega

theorem window_window (width : Nat) (values : List α) : window width (window width values) = window width values :=
  window_of_length_le (length_window_le width values)

theorem window_append (width : Nat) (values more : List α) :
    window width (window width values ++ more) = window width (values ++ more) := by
  induction more using List.reverseRecOn with
  | nil => rw [List.append_nil, List.append_nil, window_window]
  | append_singleton more value ih =>
    rw [← List.append_assoc, ← window_snoc, ih, window_snoc, List.append_assoc]

/-- The values at the end that fit are in the window. -/
theorem mem_window {width : Nat} {front back : List α} {value : α} (member : value ∈ back)
    (fits : back.length ≤ width) : value ∈ window width (front ++ back) := by
  have start : (front ++ back).length - width ≤ front.length := by
    rw [List.length_append]
    omega
  rw [window, List.drop_append_of_le_length start]
  exact List.mem_append_right _ member

/-- Each value entered when the window over what came before did not hold it. -/
def EntersFresh (width : Nat) (before : List α) : List α → Prop
  | [] => True
  | value :: rest => value ∉ window width before ∧ EntersFresh width (before ++ [value]) rest

theorem EntersFresh.append {width : Nat} {before first second : List α}
    (fresh : EntersFresh width before (first ++ second)) :
    EntersFresh width before first ∧ EntersFresh width (before ++ first) second := by
  induction first generalizing before with
  | nil =>
    rw [List.append_nil]
    exact ⟨trivial, fresh⟩
  | cons value rest ih =>
    obtain ⟨kept, later⟩ := ih fresh.2
    rw [List.append_assoc] at later
    exact ⟨⟨fresh.1, kept⟩, later⟩

/-- Only the window over what came before matters. -/
theorem entersFresh_window {width : Nat} {before entered : List α} :
    EntersFresh width (window width before) entered ↔ EntersFresh width before entered := by
  induction entered generalizing before with
  | nil => exact Iff.rfl
  | cons value rest ih =>
    unfold EntersFresh
    rw [window_window, ← ih, window_snoc, ih]

theorem EntersFresh.concat {width : Nat} {before first second : List α}
    (start : EntersFresh width before first)
    (later : EntersFresh width (window width (before ++ first)) second) :
    EntersFresh width before (first ++ second) := by
  induction first generalizing before with
  | nil =>
    rw [List.append_nil] at later
    exact entersFresh_window.mp later
  | cons value rest ih =>
    refine ⟨start.1, ih start.2 ?_⟩
    rw [List.append_assoc]
    exact later

/-- With fewer other values than the window is wide, nothing enters twice. -/
theorem EntersFresh.nodup [DecidableEq α] {width : Nat} {before entered : List α}
    (fresh : EntersFresh width before entered) (value : α)
    (few : (entered.toFinset.erase value).card < width) : entered.Nodup := by
  induction entered using List.reverseRecOn with
  | nil => exact List.nodup_nil
  | append_singleton earlier last ih =>
    obtain ⟨kept, entering⟩ := fresh.append
    have fewer : (earlier.toFinset.erase value).card < width := by
      refine lt_of_le_of_lt (Finset.card_le_card (Finset.erase_subset_erase value ?_)) few
      rw [List.toFinset_append]
      exact Finset.subset_union_left
    have nodup := ih kept fewer
    have unseen : last ∉ earlier := by
      intro member
      obtain ⟨front, back, split⟩ := List.append_of_mem member
      have wide : width < (last :: back).length := by
        by_contra fits
        have inside := @mem_window α width (before ++ front) (last :: back) last List.mem_cons_self
          (not_lt.mp fits)
        rw [List.append_assoc, ← split] at inside
        exact entering.1 inside
      have repeated : (last :: back).Nodup := by
        rw [split] at nodup
        exact (List.nodup_append.mp nodup).2.1
      have distinct : (last :: back).toFinset.card = (last :: back).length :=
        List.toFinset_card_of_nodup repeated
      have part : (last :: back).toFinset ⊆ (earlier ++ [last]).toFinset := by
        intro other inside
        rw [List.mem_toFinset] at inside ⊢
        rw [split]
        exact List.mem_append_left _ (List.mem_append_right _ inside)
      have many := Finset.card_le_card (Finset.erase_subset_erase value part)
      have erased : (last :: back).toFinset.card - 1 ≤ ((last :: back).toFinset.erase value).card :=
        Finset.pred_card_le_card_erase
      omega
    rw [List.nodup_append]
    refine ⟨nodup, List.nodup_singleton last, ?_⟩
    intro other member same last'
    rw [List.mem_singleton.mp last']
    rintro rfl
    exact unseen member

/-! ### Queues -/

section Queue

variable {S : Type}

/-- The state after a sequence of keys. -/
def fed (feed : S → α → S × Bool) (s : S) (keys : List α) : S := keys.foldl (fun s key => (feed s key).1) s

/-- The keys of a sequence for which the call returned true. -/
def accepted (feed : S → α → S × Bool) (s : S) : List α → List α
  | [] => []
  | key :: keys =>
    if (feed s key).2 then key :: accepted feed (feed s key).1 keys
    else accepted feed (feed s key).1 keys

/-- A state that holds the keys of a queue, refuses them, and lets any other key in at the end while
the oldest leave beyond the width. -/
structure Queues (feed : S → α → S × Bool) (width : Nat) (queue : S → List α) (Holds : S → α → Prop)
    (Sound : S → Prop) : Prop where
  same : ∀ {s}, Sound s → ∀ key, Holds s key ↔ key ∈ queue s
  refuses : ∀ {s key}, Sound s → Holds s key → feed s key = (s, false)
  enters : ∀ {s key}, Sound s → ¬ Holds s key → (feed s key).2 = true ∧ Sound (feed s key).1 ∧
    queue (feed s key).1 = window width (queue s ++ [key])

namespace Queues

variable {feed : S → α → S × Bool} {width : Nat} {queue : S → List α} {Holds : S → α → Prop}
  {Sound : S → Prop} (queues : Queues feed width queue Holds Sound)
include queues

theorem fed_window {s : S} (sound : Sound s) {before : List α} (start : queue s = window width before)
    (keys : List α) :
    Sound (fed feed s keys) ∧ queue (fed feed s keys) = window width (before ++ accepted feed s keys) := by
  induction keys generalizing s before with
  | nil =>
    rw [accepted, List.append_nil]
    exact ⟨sound, start⟩
  | cons key keys ih =>
    have later : fed feed s (key :: keys) = fed feed (feed s key).1 keys := rfl
    rw [later, accepted]
    by_cases held : Holds s key
    · rw [queues.refuses sound held, if_neg (by simp)]
      exact ih sound start
    · obtain ⟨entered, sound', moved⟩ := queues.enters sound held
      rw [start, window_snoc] at moved
      have rest := ih sound' moved
      rw [List.append_assoc] at rest
      rw [if_pos entered]
      exact rest

/-- A call is refused exactly for the keys of the window, and then changes nothing. -/
theorem refused_iff {s : S} (sound : Sound s) (key : α) :
    ((feed s key).2 = false ↔ key ∈ queue s) ∧ ((feed s key).2 = false → (feed s key).1 = s) := by
  by_cases held : Holds s key
  · rw [queues.refuses sound held]
    exact ⟨iff_of_true rfl ((queues.same sound key).mp held), fun _ => rfl⟩
  · obtain ⟨entered, _⟩ := queues.enters sound held
    rw [entered]
    refine ⟨iff_of_false (by simp) fun inside => held ((queues.same sound key).mpr inside), by simp⟩

end Queues

end Queue

end Lycoris.Lib
