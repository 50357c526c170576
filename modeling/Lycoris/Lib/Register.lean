import Lycoris.Lib.Join

/-!
Last-writer cells. A cell keeps the value of the largest stamp it was offered, and beside it a file that
is rewritten only when the tag of the value changes. Where the bodies are settled by their tags, a set of
offers leaves one cell for all orders and repetitions exactly when the winning value is one, and the file
it finds under its own tag is its body or is found under that tag in every order.
-/

namespace Lycoris.Lib

variable {V C M T : Type}

structure Cell (V C : Type) where
  row : Option V
  file : Option C

/-- A value with the body of its file. Values without files have no body. -/
structure Offer (V C : Type) where
  value : V
  body : Option C

section Offers

variable [LinearOrder M] [DecidableEq T] (stamp : V → M) (tag : V → T)

/-- The stamp of what is held, below every stamp where nothing is. -/
def Cell.rank (cell : Cell V C) : WithBot M := cell.row.elim ⊥ fun value => stamp value

def Cell.offer (cell : Cell V C) (offered : Offer V C) : Cell V C :=
  if cell.rank stamp < stamp offered.value then
    { row := some offered.value
      file := if cell.row.map tag = some (tag offered.value) then cell.file else offered.body }
  else cell

variable {stamp tag} {cell : Cell V C} {offered : Offer V C} {offers others : List (Offer V C)}

namespace Cell

theorem offer_taken (larger : cell.rank stamp < stamp offered.value) :
    cell.offer stamp tag offered =
      { row := some offered.value
        file := if cell.row.map tag = some (tag offered.value) then cell.file else offered.body } :=
  if_pos larger

theorem offer_kept (notLarger : (stamp offered.value : WithBot M) ≤ cell.rank stamp) :
    cell.offer stamp tag offered = cell :=
  if_neg notLarger.not_gt

theorem rank_offer :
    (cell.offer stamp tag offered).rank stamp = max (cell.rank stamp) (stamp offered.value) := by
  by_cases larger : cell.rank stamp < stamp offered.value
  · rw [offer_taken larger, max_eq_right larger.le]
    rfl
  · rw [offer_kept (not_lt.mp larger), max_eq_left (not_lt.mp larger)]

/-- The rank after a run of offers is the largest of the rank before and the stamps. -/
theorem rank_foldl_offer :
    (offers.foldl (offer stamp tag) cell).rank stamp =
      offers.foldl (fun top offered => max top (stamp offered.value : WithBot M)) (cell.rank stamp) := by
  induction offers generalizing cell with
  | nil => rfl
  | cons offered rest ih =>
    rw [List.foldl_cons, List.foldl_cons, ih, rank_offer]

theorem rank_le_foldl_offer :
    cell.rank stamp ≤ (offers.foldl (offer stamp tag) cell).rank stamp := by
  induction offers generalizing cell with
  | nil => exact le_refl _
  | cons offered rest ih =>
    have first : cell.rank stamp ≤ (cell.offer stamp tag offered).rank stamp := by
      rw [rank_offer]
      exact le_max_left _ _
    exact first.trans ih

variable (stamp tag cell) in
theorem stamp_le_foldl_offer (listed : offered ∈ offers) :
    (stamp offered.value : WithBot M) ≤ (offers.foldl (offer stamp tag) cell).rank stamp := by
  obtain ⟨before, after, rfl⟩ := List.append_of_mem listed
  rw [List.foldl_append, List.foldl_cons]
  refine le_trans ?_ rank_le_foldl_offer
  rw [rank_offer]
  exact le_max_right _ _

/-- A cell that no offer outranks stays. -/
theorem foldl_offer_kept
    (notLarger : ∀ offered ∈ offers, (stamp offered.value : WithBot M) ≤ cell.rank stamp) :
    offers.foldl (offer stamp tag) cell = cell := by
  induction offers with
  | nil => rfl
  | cons offered rest ih =>
    obtain ⟨first, others⟩ := List.forall_mem_cons.mp notLarger
    rw [List.foldl_cons, offer_kept first, ih others]

variable (stamp tag cell offers) in
/-- What a run of offers leaves: the cell as it was, or the value of an offer that outranked it. -/
theorem foldl_offer_row :
    offers.foldl (offer stamp tag) cell = cell ∨
      ∃ offered ∈ offers, cell.rank stamp < stamp offered.value ∧
        (offers.foldl (offer stamp tag) cell).row = some offered.value := by
  induction offers generalizing cell with
  | nil => exact .inl rfl
  | cons offered rest ih =>
    rw [List.foldl_cons]
    by_cases larger : cell.rank stamp < stamp offered.value
    · right
      rcases ih (cell.offer stamp tag offered) with same | ⟨later, listed, outranks, left⟩
      · refine ⟨offered, List.mem_cons_self, larger, ?_⟩
        rw [same, offer_taken larger]
      · refine ⟨later, List.mem_cons_of_mem _ listed, ?_, left⟩
        rw [rank_offer] at outranks
        exact (le_max_left _ _).trans_lt outranks
    · rw [offer_kept (not_lt.mp larger)]
      rcases ih cell with same | ⟨later, listed, outranks, left⟩
      · exact .inl same
      · exact .inr ⟨later, List.mem_cons_of_mem _ listed, outranks, left⟩

/-! ### Convergence -/

/-- The offer outranks the cell and no other offer outranks it. -/
structure Top (stamp : V → M) (cell : Cell V C) (offers : List (Offer V C)) (offered : Offer V C) :
    Prop where
  listed : offered ∈ offers
  larger : cell.rank stamp < stamp offered.value
  largest : ∀ other ∈ offers, stamp other.value ≤ stamp offered.value

/-- Bodies of one tag are one body. -/
def SettledByTag (tag : V → T) (offers : List (Offer V C)) : Prop :=
  ∀ offered ∈ offers, ∀ other ∈ offers, tag offered.value = tag other.value → offered.body = other.body

/-- The winner is one value, and a file it finds under its own tag is its body, or stays under that tag
through all offers that outrank the cell. -/
structure Decided (stamp : V → M) (tag : V → T) (cell : Cell V C) (offers : List (Offer V C)) : Prop where
  one : ∀ offered other, Top stamp cell offers offered → Top stamp cell offers other →
    offered.value = other.value
  found : ∀ offered, Top stamp cell offers offered → cell.row.map tag = some (tag offered.value) →
    cell.file ≠ offered.body → ∀ other ∈ offers, cell.rank stamp < stamp other.value →
      tag other.value = tag offered.value

theorem exists_top (larger : ∃ offered ∈ offers, cell.rank stamp < stamp offered.value) :
    ∃ offered, Top stamp cell offers offered := by
  classical
  obtain ⟨first, listed, larger⟩ := larger
  obtain ⟨best, member, largest⟩ :=
    offers.toFinset.exists_max_image (fun offered => stamp offered.value) ⟨first, by simpa using listed⟩
  refine ⟨best, by simpa using member, ?_, fun other listed => largest other (by simpa using listed)⟩
  exact larger.trans_le (WithBot.coe_le_coe.mpr (largest first (by simpa using listed)))

theorem Top.of_same (top : Top stamp cell offers offered)
    (same : ∀ offered, offered ∈ offers ↔ offered ∈ others) : Top stamp cell others offered :=
  ⟨(same offered).mp top.listed, top.larger, fun other listed => top.largest other ((same other).mpr listed)⟩

theorem Top.stamp_eq {other : Offer V C} (top : Top stamp cell offers offered)
    (top' : Top stamp cell offers other) : stamp offered.value = stamp other.value :=
  le_antisymm (top'.largest offered top.listed) (top.largest other top'.listed)

omit [DecidableEq T] in
theorem Decided.of_same (decided : Decided stamp tag cell offers)
    (same : ∀ offered, offered ∈ offers ↔ offered ∈ others) : Decided stamp tag cell others where
  one offered other top top' :=
    decided.one offered other (top.of_same fun o => (same o).symm) (top'.of_same fun o => (same o).symm)
  found offered top tagged differs other listed :=
    decided.found offered (top.of_same fun o => (same o).symm) tagged differs other ((same other).mpr listed)

/-- Where a cell came from: the value of an offer, with its body or with a file found under its tag. -/
def Traced (stamp : V → M) (tag : V → T) (start : Cell V C) (offers : List (Offer V C)) (cell : Cell V C) :
    Prop :=
  cell = start ∨ ∃ offered ∈ offers, start.rank stamp < stamp offered.value ∧
    cell.row = some offered.value ∧ (cell.file = offered.body ∨
      (start.row.map tag = some (tag offered.value) ∧ cell.file = start.file))

theorem traced_offer {start : Cell V C} (settled : SettledByTag tag offers)
    (traced : Traced stamp tag start offers cell) (listed : offered ∈ offers) :
    Traced stamp tag start offers (cell.offer stamp tag offered) := by
  by_cases larger : cell.rank stamp < stamp offered.value
  · rw [offer_taken larger]
    right
    rcases traced with rfl | ⟨earlier, known, outranks, row, file⟩
    · refine ⟨offered, listed, larger, rfl, ?_⟩
      dsimp only
      split
      · rename_i tagged
        exact .inr ⟨tagged, rfl⟩
      · exact .inl rfl
    · have below : cell.rank stamp = stamp earlier.value := by rw [rank, row]; rfl
      refine ⟨offered, listed, outranks.trans (below ▸ larger), rfl, ?_⟩
      dsimp only
      rw [row]
      split
      · rename_i same
        have tagged : tag earlier.value = tag offered.value := Option.some.inj same
        rw [← tagged, settled offered listed earlier known tagged.symm]
        exact file
      · exact .inl rfl
  · rw [offer_kept (not_lt.mp larger)]
    exact traced

variable (stamp cell) in
theorem traced_foldl_offer (settled : SettledByTag tag offers) :
    Traced stamp tag cell offers (offers.foldl (offer stamp tag) cell) := by
  suffices run : ∀ (rest : List (Offer V C)) (current : Cell V C), (∀ offered ∈ rest, offered ∈ offers) →
      Traced stamp tag cell offers current →
      Traced stamp tag cell offers (rest.foldl (offer stamp tag) current) from
    run offers cell (fun _ listed => listed) (.inl rfl)
  intro rest
  induction rest with
  | nil => exact fun _ _ traced => traced
  | cons offered rest ih =>
    intro current inside traced
    obtain ⟨listed, later⟩ := List.forall_mem_cons.mp inside
    exact ih _ later (traced_offer settled traced listed)

/-- Offers that all carry the tag of the cell leave its file. -/
theorem file_foldl_offer (tagged : ∀ offered ∈ offers, cell.rank stamp < stamp offered.value →
    cell.row.map tag = some (tag offered.value)) :
    (offers.foldl (offer stamp tag) cell).file = cell.file := by
  induction offers generalizing cell with
  | nil => rfl
  | cons offered rest ih =>
    obtain ⟨first, later⟩ := List.forall_mem_cons.mp tagged
    by_cases larger : cell.rank stamp < stamp offered.value
    · have next : cell.offer stamp tag offered = { row := some offered.value, file := cell.file } := by
        rw [offer_taken larger, if_pos (first larger)]
      rw [List.foldl_cons, next, ih]
      intro other listed outranks
      rw [← later other listed (larger.trans outranks), first larger]
      rfl
    · rw [List.foldl_cons, offer_kept (not_lt.mp larger), ih later]

variable (tag) in
theorem row_foldl_offer (one : ∀ offered other, Top stamp cell offers offered →
    Top stamp cell offers other → offered.value = other.value) (top : Top stamp cell offers offered) :
    (offers.foldl (offer stamp tag) cell).row = some offered.value := by
  have reached := stamp_le_foldl_offer stamp tag cell top.listed
  rcases foldl_offer_row stamp tag cell offers with
    same | ⟨last, listed, larger, row⟩
  · rw [same] at reached
    exact absurd top.larger reached.not_gt
  · have winner : Top stamp cell offers last := by
      refine ⟨listed, larger, fun other known => ?_⟩
      have bound := stamp_le_foldl_offer stamp tag cell known
      rw [rank, row] at bound
      exact WithBot.coe_le_coe.mp bound
    rw [row, one last offered winner top]

/-- A decided set of offers does what its winner alone does. -/
theorem foldl_offer_eq_top (settled : SettledByTag tag offers) (decided : Decided stamp tag cell offers)
    (top : Top stamp cell offers offered) :
    offers.foldl (offer stamp tag) cell = cell.offer stamp tag offered := by
  have row := row_foldl_offer tag decided.one top
  suffices file : (offers.foldl (offer stamp tag) cell).file =
      if cell.row.map tag = some (tag offered.value) then cell.file else offered.body by
    rw [offer_taken top.larger]
    generalize offers.foldl (offer stamp tag) cell = last at row file ⊢
    obtain ⟨lastRow, lastFile⟩ := last
    exact congrArg₂ Cell.mk row file
  by_cases drifted : cell.row.map tag = some (tag offered.value) ∧ cell.file ≠ offered.body
  · obtain ⟨tagged, differs⟩ := drifted
    rw [if_pos tagged]
    refine file_foldl_offer fun other listed larger => ?_
    rw [tagged, decided.found offered top tagged differs other listed larger]
  · rcases traced_foldl_offer stamp cell settled with
      same | ⟨last, listed, larger, lastRow, file⟩
    · rw [same] at row
      have none : cell.rank stamp = stamp offered.value := by rw [rank, row]; rfl
      exact absurd top.larger (not_lt_of_ge none.ge)
    · have value : last.value = offered.value := Option.some.inj (lastRow.symm.trans row)
      have body : last.body = offered.body :=
        settled last listed offered top.listed (congrArg tag value)
      rw [value, body] at file
      split
      · rename_i tagged
        have kept : cell.file = offered.body := not_not.mp fun differs => drifted ⟨tagged, differs⟩
        rcases file with file | ⟨-, file⟩
        · rw [file, kept]
        · exact file
      · rename_i untagged
        rcases file with file | ⟨tagged, -⟩
        · exact file
        · exact absurd tagged untagged

theorem foldl_cons_top (top : Top stamp cell offers offered) :
    (offered :: offers).foldl (offer stamp tag) cell = cell.offer stamp tag offered := by
  rw [List.foldl_cons]
  refine foldl_offer_kept fun other listed => ?_
  rw [offer_taken top.larger]
  exact WithBot.coe_le_coe.mpr (top.largest other listed)

/-- Decided offers leave one cell in all orders and repetitions. -/
theorem foldl_offer_eq_of_same (settled : SettledByTag tag offers) (decided : Decided stamp tag cell offers)
    (same : ∀ offered, offered ∈ offers ↔ offered ∈ others) :
    offers.foldl (offer stamp tag) cell = others.foldl (offer stamp tag) cell := by
  by_cases larger : ∃ offered ∈ offers, cell.rank stamp < stamp offered.value
  · obtain ⟨best, top⟩ := exists_top larger
    have settled' : SettledByTag tag others := fun o listed o' listed' =>
      settled o ((same o).mpr listed) o' ((same o').mpr listed')
    rw [foldl_offer_eq_top settled decided top,
      foldl_offer_eq_top settled' (decided.of_same same) (top.of_same same)]
  · have kept : ∀ offered ∈ offers, (stamp offered.value : WithBot M) ≤ cell.rank stamp :=
      fun offered listed => not_lt.mp fun outranks => larger ⟨offered, listed, outranks⟩
    rw [foldl_offer_kept kept, foldl_offer_kept fun offered listed => kept offered ((same offered).mpr listed)]

/-- Offers that leave one cell whichever of them come first, once more, are decided. -/
theorem decided_of_absorbs (absorbs : ∀ firsts : List (Offer V C), (∀ offered ∈ firsts, offered ∈ offers) →
    (firsts ++ offers).foldl (offer stamp tag) cell = offers.foldl (offer stamp tag) cell) :
    Decided stamp tag cell offers := by
  have first : ∀ offered, Top stamp cell offers offered →
      offers.foldl (offer stamp tag) cell = cell.offer stamp tag offered := by
    intro offered top
    rw [← foldl_cons_top top]
    exact (absorbs [offered] (by simpa using top.listed)).symm
  have one : ∀ offered other, Top stamp cell offers offered → Top stamp cell offers other →
      offered.value = other.value := by
    intro offered other top top'
    have same := (first offered top).symm.trans (first other top')
    rw [offer_taken top.larger, offer_taken top'.larger] at same
    exact Option.some.inj (congrArg Cell.row same)
  refine ⟨one, fun offered top tagged differs other listed larger => ?_⟩
  by_contra untagged
  -- Offered first, the winner finds the file under its tag; behind the other one it writes its body.
  have less : stamp other.value < stamp offered.value := by
    refine lt_of_le_of_ne (top.largest other listed) fun equal => untagged ?_
    have tied : Top stamp cell offers other := by
      refine ⟨listed, larger, fun third known => ?_⟩
      rw [equal]
      exact top.largest third known
    rw [one other offered tied top]
  have next : (cell.offer stamp tag other).rank stamp < stamp offered.value := by
    rw [offer_taken larger]
    exact WithBot.coe_lt_coe.mpr less
  have behind : (other :: offered :: offers).foldl (offer stamp tag) cell =
      { row := some offered.value, file := offered.body } := by
    rw [List.foldl_cons, foldl_cons_top ⟨top.listed, next, top.largest⟩, offer_taken next,
      offer_taken larger]
    exact congrArg (Cell.mk _) (if_neg fun same => untagged (Option.some.inj same))
  have same := absorbs [other, offered] (by simpa using ⟨listed, top.listed⟩)
  rw [List.cons_append, List.cons_append, List.nil_append, behind, first offered top,
    offer_taken top.larger, if_pos tagged] at same
  exact differs (congrArg Cell.file same).symm

end Cell

end Offers

end Lycoris.Lib
