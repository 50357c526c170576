import Lycoris.Lib.KeyedMap

/-!
Joins of keyed values. `JoinsByKey key join` says that `join` is a semilattice operation among the
values of one key. `larger` joins by an injective measure, `lexJoin` by a rank and a join of equally
ranked values, and `KeyedMap.joinIn` folds values into a map, in any order and any number of times.
-/

namespace Lycoris.Lib

variable {K V R σ : Type}

/-- `join` keeps the key and is a semilattice operation among the values of one key. -/
structure JoinsByKey (key : V → K) (join : V → V → V) : Prop where
  keeps : ∀ v w, key v = key w → key (join v w) = key v
  comm : ∀ v w, key v = key w → join v w = join w v
  assoc : ∀ u v w, key u = key v → key v = key w → join (join u v) w = join u (join v w)
  idem : ∀ v, join v v = v

section Larger

variable [LinearOrder R] {measure : V → R}

/-- The value of the larger measure, and the first of two equal ones. -/
def larger (measure : V → R) (v w : V) : V := if measure v < measure w then w else v

theorem measure_larger (measure : V → R) (v w : V) : measure (larger measure v w) = max (measure v) (measure w) := by
  unfold larger
  split
  · rename_i less
    exact (max_eq_right less.le).symm
  · rename_i notLess
    exact (max_eq_left (not_lt.mp notLess)).symm

theorem larger_self (v : V) : larger measure v v = v := ite_self v

theorem larger_comm (injective : Function.Injective measure) (v w : V) :
    larger measure v w = larger measure w v := by
  apply injective
  rw [measure_larger measure, measure_larger measure, max_comm]

theorem larger_assoc (injective : Function.Injective measure) (u v w : V) :
    larger measure (larger measure u v) w = larger measure u (larger measure v w) := by
  apply injective
  simp only [measure_larger measure, max_assoc]

end Larger

section Lex

variable [LinearOrder R] {rank : V → R} {tie : V → V → V}

/-- The value of the larger rank, and the `tie` of two values of one rank. -/
def lexJoin (rank : V → R) (tie : V → V → V) (v w : V) : V :=
  if rank v < rank w then w else if rank w < rank v then v else tie v w

theorem lexJoin_of_lt {v w : V} (less : rank v < rank w) : lexJoin rank tie v w = w :=
  if_pos less

theorem lexJoin_of_gt {v w : V} (greater : rank w < rank v) : lexJoin rank tie v w = v := by
  rw [lexJoin, if_neg (lt_asymm greater), if_pos greater]

theorem lexJoin_of_eq {v w : V} (equal : rank v = rank w) : lexJoin rank tie v w = tie v w := by
  rw [lexJoin, if_neg (not_lt_of_ge equal.ge), if_neg (not_lt_of_ge equal.le)]

/-- Ties that join within a key and a rank make a lexicographic join within the key. -/
theorem lexJoin_joins {key : V → K} (ties : JoinsByKey (fun v => (key v, rank v)) tie) :
    JoinsByKey key (lexJoin rank tie) where
  keeps v w same := by
    rcases lt_trichotomy (rank v) (rank w) with less | equal | greater
    · rw [lexJoin_of_lt less, same]
    · rw [lexJoin_of_eq equal]
      exact congrArg Prod.fst (ties.keeps v w (Prod.ext same equal))
    · rw [lexJoin_of_gt greater]
  comm v w same := by
    rcases lt_trichotomy (rank v) (rank w) with less | equal | greater
    · rw [lexJoin_of_lt less, lexJoin_of_gt less]
    · rw [lexJoin_of_eq equal, lexJoin_of_eq equal.symm]
      exact ties.comm v w (Prod.ext same equal)
    · rw [lexJoin_of_gt greater, lexJoin_of_lt greater]
  assoc u v w left right := by
    have tied : ∀ x y, key x = key y → rank x = rank y → rank (tie x y) = rank x :=
      fun x y same equal => congrArg Prod.snd (ties.keeps x y (Prod.ext same equal))
    -- The middle value decides: where it loses on either side it drops out of both groupings.
    rcases lt_trichotomy (rank u) (rank v) with uv | uv | uv <;>
      rcases lt_trichotomy (rank v) (rank w) with vw | vw | vw
    · rw [lexJoin_of_lt uv, lexJoin_of_lt vw, lexJoin_of_lt (uv.trans vw)]
    · rw [lexJoin_of_lt uv, lexJoin_of_eq vw, lexJoin_of_lt (by rwa [tied v w right vw])]
    · rw [lexJoin_of_lt uv, lexJoin_of_gt vw, lexJoin_of_lt uv]
    · rw [lexJoin_of_eq uv, lexJoin_of_lt vw, lexJoin_of_lt (uv.trans_lt vw),
        lexJoin_of_lt (by rw [tied u v left uv]; exact uv.trans_lt vw)]
    · rw [lexJoin_of_eq uv, lexJoin_of_eq vw, lexJoin_of_eq ((tied u v left uv).trans (uv.trans vw)),
        lexJoin_of_eq (uv.trans (tied v w right vw).symm)]
      exact ties.assoc u v w (Prod.ext left uv) (Prod.ext right vw)
    · rw [lexJoin_of_eq uv, lexJoin_of_gt vw, lexJoin_of_eq uv,
        lexJoin_of_gt (by rw [tied u v left uv]; exact vw.trans_eq uv.symm)]
    · rw [lexJoin_of_gt uv, lexJoin_of_lt vw]
    · rw [lexJoin_of_gt uv, lexJoin_of_eq vw, lexJoin_of_gt (vw.symm.trans_lt uv),
        lexJoin_of_gt (by rwa [tied v w right vw])]
    · rw [lexJoin_of_gt uv, lexJoin_of_gt vw, lexJoin_of_gt (vw.trans uv), lexJoin_of_gt uv]
  idem v := by
    rw [lexJoin_of_eq rfl]
    exact ties.idem v

end Lex

/-- A fold whose steps commute and repeat without effect depends only on which values it meets. -/
theorem foldl_eq_of_same_values {step : σ → V → σ}
    (swap : ∀ s v w, step (step s v) w = step (step s w) v)
    (again : ∀ s v, step (step s v) v = step s v) {xs ys : List V}
    (same : ∀ v, v ∈ xs ↔ v ∈ ys) (s : σ) : xs.foldl step s = ys.foldl step s := by
  have reorder : ∀ {l l' : List V}, l.Perm l' → l.foldl step s = l'.foldl step s :=
    fun perm => perm.foldl_eq' (fun v _ w _ t => swap t v w) s
  have absorb : ∀ {l : List V} {v : V}, v ∈ l → step (l.foldl step s) v = l.foldl step s := by
    intro l v member
    obtain ⟨before, after, rfl⟩ := List.append_of_mem member
    have last : (before ++ v :: after).Perm ((before ++ after) ++ [v]) :=
      List.perm_middle.trans (List.perm_append_singleton v _).symm
    rw [reorder last, List.foldl_append, List.foldl_cons, List.foldl_nil, again]
  have extend : ∀ {l l' : List V}, (∀ v ∈ l', v ∈ l) → (l ++ l').foldl step s = l.foldl step s := by
    intro l l' inside
    rw [List.foldl_append]
    induction l' with
    | nil => rfl
    | cons v rest ih =>
      rw [List.foldl_cons, absorb (inside v List.mem_cons_self)]
      exact ih fun w member => inside w (List.mem_cons_of_mem v member)
  calc xs.foldl step s = (xs ++ ys).foldl step s := (extend fun v => (same v).mpr).symm
    _ = (ys ++ xs).foldl step s := reorder List.perm_append_comm
    _ = ys.foldl step s := extend fun v => (same v).mp

namespace KeyedMap

variable [Ord K] [Std.TransOrd K] [Std.LawfulEqOrd K] {key : V → K} {join : V → V → V}

/-- A value joined with what is already there. -/
def joined (join : V → V → V) : Option V → V → V
  | some existing, v => join existing v
  | none, v => v

def joinIn (join : V → V → V) (m : KeyedMap key) (v : V) : KeyedMap key :=
  m.insert (joined join (m.get? (key v)) v)

section Laws

variable (laws : JoinsByKey key join)
include laws

theorem key_joined (m : KeyedMap key) (v : V) : key (joined join (m.get? (key v)) v) = key v := by
  cases found : m.get? (key v) with
  | none => rfl
  | some existing =>
    have same := key_of_get? found
    exact (laws.keeps existing v same).trans same

theorem get?_joinIn [DecidableEq K] (m : KeyedMap key) (v : V) (k : K) :
    (m.joinIn join v).get? k =
      if key v = k then some (joined join (m.get? k) v) else m.get? k := by
  rw [joinIn, get?_insert, key_joined laws]
  split
  · rename_i same
    rw [same]
  · rfl

theorem joinIn_swap (m : KeyedMap key) (v w : V) :
    (m.joinIn join v).joinIn join w = (m.joinIn join w).joinIn join v := by
  classical
  refine ext_get? fun k => ?_
  simp only [get?_joinIn laws]
  by_cases hv : key v = k
  · by_cases hw : key w = k
    · have same : key v = key w := hv.trans hw.symm
      simp only [if_pos hv, if_pos hw, Option.some.injEq]
      cases found : m.get? k with
      | none => exact laws.comm v w same
      | some existing =>
        have keyed : key existing = key v := (key_of_get? found).trans hv.symm
        show join (join existing v) w = join (join existing w) v
        rw [laws.assoc existing v w keyed same, laws.comm v w same,
          ← laws.assoc existing w v (keyed.trans same) same.symm]
    · simp only [if_pos hv, if_neg hw]
  · by_cases hw : key w = k
    · simp only [if_neg hv, if_pos hw]
    · simp only [if_neg hv, if_neg hw]

theorem joinIn_again (m : KeyedMap key) (v : V) :
    (m.joinIn join v).joinIn join v = m.joinIn join v := by
  classical
  refine ext_get? fun k => ?_
  simp only [get?_joinIn laws]
  by_cases hv : key v = k
  · simp only [if_pos hv, Option.some.injEq]
    cases found : m.get? k with
    | none => exact laws.idem v
    | some existing =>
      have keyed : key existing = key v := (key_of_get? found).trans hv.symm
      show join (join existing v) v = join existing v
      rw [laws.assoc existing v v keyed rfl, laws.idem]
  · simp only [if_neg hv]

/-- Joining in values gives one map for every order and repetition of them. -/
theorem foldl_joinIn_eq {xs ys : List V} (same : ∀ v, v ∈ xs ↔ v ∈ ys) (m : KeyedMap key) :
    xs.foldl (joinIn join) m = ys.foldl (joinIn join) m :=
  foldl_eq_of_same_values (joinIn_swap laws) (joinIn_again laws) same m

end Laws

end KeyedMap

end Lycoris.Lib
