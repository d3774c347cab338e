/-
Wear levelling and the block mapping: when do two blocks get one place?

A page's blocks get their first-fit places, and those that do not fit into the
page overflow behind it. The overflow must find unused numbers there: a block
beyond the page that has not moved holds the number behind its own although the
bitmap shows that number as unused.
-/

import OsCompiler.Nvmsim.WearLevel

namespace OsCompiler.Nvmsim

open OsCompiler.FirstFit

variable {occupied : Nat → Prop} [DecidablePred occupied]

/-! ### Places and room -/

/-- The first-fit place of a block among the blocks of its page. -/
noncomputable def wearPlace (occupied : Nat → Prop) [DecidablePred occupied] (lbn : Nat) : Nat :=
  slot occupied (lbn / bitWidthInBits * bitWidthInBits) (lbn % bitWidthInBits)

def overflowEnd (occupied : Nat → Prop) [DecidablePred occupied] (lpn : Nat) : Nat :=
  lpn * bitWidthInBits + bitWidthInBits +
    backlog occupied (lpn * bitWidthInBits) bitWidthInBits

/-- The page's overflow fits into the table and meets no allocated block. -/
structure PageRoom (occupied : Nat → Prop) [DecidablePred occupied] (lpn : Nat) : Prop where
  vacant : RoomBehind occupied (lpn * bitWidthInBits) bitWidthInBits
  inTable : overflowEnd occupied lpn ≤ bitTableSize

theorem page_split (lbn : Nat) :
    lbn / bitWidthInBits * bitWidthInBits + lbn % bitWidthInBits = lbn :=
  Nat.div_add_mod' lbn bitWidthInBits

private theorem page_offset_lt (lbn : Nat) : lbn % bitWidthInBits < bitWidthInBits :=
  Nat.mod_lt lbn (by decide)

theorem wearPlace_page {lpn turns : Nat} (inside : turns < bitWidthInBits) :
    wearPlace occupied (lpn * bitWidthInBits + turns) =
      slot occupied (lpn * bitWidthInBits) turns := by
  have page : (lpn * bitWidthInBits + turns) / bitWidthInBits = lpn := by
    unfold bitWidthInBits at *
    omega
  have offset : (lpn * bitWidthInBits + turns) % bitWidthInBits = turns := by
    unfold bitWidthInBits at *
    omega
  rw [wearPlace, page, offset]

theorem wearPlace_lt_overflowEnd {lbn : Nat} (room : PageRoom occupied (lbn / bitWidthInBits))
    (block : occupied lbn) :
    wearPlace occupied lbn < overflowEnd occupied (lbn / bitWidthInBits) :=
  slot_lt_of_roomBehind room.vacant (page_offset_lt lbn) ((page_split lbn).symm ▸ block)

/-- The blocks of later pages lie behind the overflow. -/
theorem PageRoom.overflowEnd_le {lpn other : Nat} (room : PageRoom occupied lpn)
    (block : occupied other) (later : lpn < other / bitWidthInBits) :
    overflowEnd occupied lpn ≤ other := by
  by_contra before
  have behind : lpn * bitWidthInBits + bitWidthInBits ≤ other := by
    unfold bitWidthInBits at *
    omega
  exact room.vacant other behind (Nat.lt_of_not_le before) block

section Unbounded

variable (unbounded : {position | Vacant occupied position}.Infinite)
include unbounded

theorem wearPlace_vacant (lbn : Nat) : ¬ occupied (wearPlace occupied lbn) :=
  slot_vacant unbounded

theorem lt_wearPlace {lbn : Nat} (block : occupied lbn) : lbn < wearPlace occupied lbn := by
  have behind := lt_slot unbounded ((page_split lbn).symm ▸ block)
  rwa [page_split] at behind

/-- Places keep the order of the blocks, within a page and across pages with room. -/
theorem wearPlace_lt_wearPlace {lbn other : Nat} (block : occupied lbn)
    (otherBlock : occupied other) (before : lbn < other)
    (room : lbn / bitWidthInBits = other / bitWidthInBits ∨
      PageRoom occupied (lbn / bitWidthInBits)) :
    wearPlace occupied lbn < wearPlace occupied other := by
  by_cases samePage : lbn / bitWidthInBits = other / bitWidthInBits
  · have offsets : lbn % bitWidthInBits < other % bitWidthInBits := by
      unfold bitWidthInBits at *
      omega
    rw [wearPlace, wearPlace, ← samePage]
    exact slot_lt_slot unbounded ((page_split lbn).symm ▸ block) offsets
  · have pageRoom := room.resolve_left samePage
    have later : lbn / bitWidthInBits < other / bitWidthInBits := by
      unfold bitWidthInBits at *
      omega
    calc
      wearPlace occupied lbn < overflowEnd occupied (lbn / bitWidthInBits) :=
        wearPlace_lt_overflowEnd pageRoom block
      _ ≤ other := pageRoom.overflowEnd_le otherBlock later
      _ < wearPlace occupied other := lt_wearPlace unbounded otherBlock

/-- Before a block's place every number is in use, provided that the earlier blocks
of its page have moved and the blocks in front of the place have not. -/
theorem taken_of_lt_wearPlace {moved : Nat → Prop} {lbn pos : Nat}
    (earlier : ∀ other, occupied other → other / bitWidthInBits = lbn / bitWidthInBits →
      other < lbn → moved other)
    (ahead : occupied pos → ¬ moved pos) (lower : lbn < pos)
    (upper : pos < wearPlace occupied lbn) : Taken occupied moved (wearPlace occupied) pos := by
  have base := page_split lbn
  rcases occupied_or_slot_of_lt_slot unbounded (by omega) upper with
    own | ⟨offset, below, taken, here⟩
  · exact Or.inl ⟨own, ahead own⟩
  · have offsetInside : offset < bitWidthInBits := Nat.lt_trans below (page_offset_lt lbn)
    refine Or.inr ⟨_, taken, earlier _ taken ?_ (by omega), ?_⟩
    · unfold bitWidthInBits at *
      omega
    · rw [wearPlace_page offsetInside, here]

private theorem fits_wearPlace {moved : Nat → Prop} {lbn : Nat} (block : occupied lbn)
    (inside : wearPlace occupied lbn < bitTableSize)
    (ahead : ∀ pos, lbn < pos → pos < wearPlace occupied lbn → occupied pos → ¬ moved pos)
    (earlier : ∀ other, occupied other → other / bitWidthInBits = lbn / bitWidthInBits →
      other < lbn → moved other)
    (apart : ∀ other, occupied other → moved other →
      wearPlace occupied other ≠ wearPlace occupied lbn) :
    Fits occupied moved (wearPlace occupied) lbn where
  behind := lt_wearPlace unbounded block
  inside := inside
  crowded pos lower upper :=
    taken_of_lt_wearPlace unbounded earlier (ahead pos lower upper) lower upper
  free := by
    intro taken
    rcases taken with ⟨own, _⟩ | ⟨other, otherBlock, gone, same⟩
    · exact wearPlace_vacant unbounded lbn own
    · exact apart other otherBlock gone same

end Unbounded

/-! ### Levelling pages that have room -/

/-- Blocks of different pages with room, and blocks of one page, have different places. -/
theorem wearPlace_injective (unbounded : {position | Vacant occupied position}.Infinite)
    {lbn other : Nat} (block : occupied lbn) (otherBlock : occupied other) (apart : lbn ≠ other)
    (room : lbn / bitWidthInBits = other / bitWidthInBits ∨
      PageRoom occupied (lbn / bitWidthInBits) ∧ PageRoom occupied (other / bitWidthInBits)) :
    wearPlace occupied lbn ≠ wearPlace occupied other := by
  rcases Nat.lt_or_gt_of_ne apart with before | behind
  · exact Nat.ne_of_lt (wearPlace_lt_wearPlace unbounded block otherBlock before
      (room.imp_right And.left))
  · exact Nat.ne_of_gt (wearPlace_lt_wearPlace unbounded otherBlock block behind
      (room.imp Eq.symm And.right))

variable {tables : PbiTables}

/-- The blocks of the pages in `done` have moved, and each of these pages has room. -/
structure Levelled (occupied : Nat → Prop) [DecidablePred occupied] (done : List Nat)
    (tables : PbiTables) : Prop where
  rooms : ∀ lpn ∈ done, PageRoom occupied lpn
  placed : Placed occupied (fun lbn => lbn / bitWidthInBits ∈ done) (wearPlace occupied) tables

theorem in_page_iff {lpn lbn : Nat} :
    lpn * bitWidthInBits ≤ lbn ∧ lbn < lpn * bitWidthInBits + bitWidthInBits ↔
      lbn / bitWidthInBits = lpn := by
  unfold bitWidthInBits
  omega

/-- In a page with room that has not been levelled yet, every block fits its place. -/
theorem Levelled.fits (unbounded : {position | Vacant occupied position}.Infinite)
    {done : List Nat} (levelled : Levelled occupied done tables) {lpn j : Nat}
    (room : PageRoom occupied lpn) (page : j / bitWidthInBits = lpn) (block : occupied j)
    (unmoved : j / bitWidthInBits ∉ done) :
    Fits occupied (fun lbn => lbn / bitWidthInBits ∈ done ∨ lpn * bitWidthInBits ≤ lbn ∧ lbn < j)
      (wearPlace occupied) j := by
  subst page
  have reach := wearPlace_lt_overflowEnd room block
  apply fits_wearPlace unbounded block (Nat.lt_of_lt_of_le reach room.inTable)
  · intro pos behind before own gone
    rcases gone with gone | ⟨_, passed⟩
    · have apart : pos / bitWidthInBits ≠ j / bitWidthInBits := fun same => unmoved (same ▸ gone)
      have limit := room.overflowEnd_le own (by unfold bitWidthInBits at *; omega)
      omega
    · omega
  · intro other _ samePage before
    exact Or.inr ⟨(in_page_iff.mpr samePage).1, before⟩
  · intro other otherBlock gone
    rcases gone with gone | ⟨behind, before⟩
    · have apart : other ≠ j := fun same => unmoved (same ▸ gone)
      exact wearPlace_injective unbounded otherBlock block apart
        (Or.inr ⟨levelled.rooms _ gone, room⟩)
    · have inPage := (in_page_iff.mpr (rfl : j / bitWidthInBits = j / bitWidthInBits)).2
      have samePage := in_page_iff.mp ⟨behind, Nat.lt_trans before inPage⟩
      exact wearPlace_injective unbounded otherBlock block (Nat.ne_of_lt before) (Or.inl samePage)

theorem Levelled.wearPage (unbounded : {position | Vacant occupied position}.Infinite)
    {done : List Nat} (levelled : Levelled occupied done tables) {lpn : Nat}
    (valid : lpn < bitTableSize / bitWidthInBits) (room : PageRoom occupied lpn) :
    ∃ after, Nvmsim.wearPage tables lpn = some after ∧ Levelled occupied (lpn :: done) after := by
  rw [wearPage_eq tables valid]
  have bound : lpn * bitWidthInBits + bitWidthInBits ≤ bitTableSize :=
    Nat.le_trans (Nat.le_add_right _ _) room.inTable
  have fits : ∀ j, lpn * bitWidthInBits ≤ j → j < lpn * bitWidthInBits + bitWidthInBits →
      occupied j → j / bitWidthInBits ∉ done → Fits occupied (fun lbn =>
        lbn / bitWidthInBits ∈ done ∨ lpn * bitWidthInBits ≤ lbn ∧ lbn < j)
        (wearPlace occupied) j := by
    intro j lower upper block unmoved
    exact levelled.fits unbounded room (in_page_iff.mp ⟨lower, upper⟩) block unmoved
  rcases levelled.placed.wearBlocks (wearPlace_vacant unbounded) (Nat.le_add_right _ _) bound fits
    with ⟨after, run, placed⟩
  refine ⟨after, run, List.forall_mem_cons.mpr ⟨room, levelled.rooms⟩, placed.congr ?_⟩
  intro lbn _
  rw [in_page_iff, List.mem_cons, or_comm]

theorem Levelled.wearLevel (unbounded : {position | Vacant occupied position}.Infinite)
    {done : List Nat} (levelled : Levelled occupied done tables) (lpns : List Nat)
    (valid : ∀ lpn ∈ lpns, lpn < bitTableSize / bitWidthInBits)
    (rooms : ∀ lpn ∈ lpns, PageRoom occupied lpn) :
    ∃ after done', Nvmsim.wearLevel tables lpns = some after ∧ Levelled occupied done' after := by
  induction lpns generalizing tables done with
  | nil => exact ⟨tables, done, rfl, levelled⟩
  | cons lpn lpns ih =>
      rcases levelled.wearPage unbounded (valid lpn List.mem_cons_self)
        (rooms lpn List.mem_cons_self) with ⟨middle, first, next⟩
      rcases ih next (fun other member => valid other (List.mem_cons_of_mem lpn member))
        (fun other member => rooms other (List.mem_cons_of_mem lpn member)) with
        ⟨after, done', rest, final⟩
      refine ⟨after, done', ?_, final⟩
      rw [Nvmsim.wearLevel, List.foldlM_cons, first]
      exact rest

/-! ### The mapping -/

/-- No two blocks share a non-zero entry, and no block lost its entry. -/
structure KeepsMapping (before after : PbiTables) : Prop where
  distinct : ∀ left right pbn, left ≠ right → after.mapTable.read left = some pbn →
    after.mapTable.read right = some pbn → pbn = 0
  mapped : ∀ lbn pbn, before.mapTable.read lbn = some pbn → pbn ≠ 0 →
    ∃ pbn', after.mapTable.read lbn = some pbn' ∧ pbn' ≠ 0

theorem Placed.occupied_of_read {moved : Nat → Prop} {place : Nat → Nat}
    (placed : Placed occupied moved place tables) {lbn pbn : Nat}
    (entry : tables.mapTable.read lbn = some pbn) (mapped : pbn ≠ 0) : occupied lbn := by
  by_contra absent
  rw [placed.unmapped lbn (Nat.le_of_lt_succ (Region.lt_of_read entry)) absent] at entry
  exact mapped (Option.some.inj entry).symm

/-- An unmoved block behind a moved one has a number the moved one did not get. -/
theorem Levelled.wearPlace_ne_succ (unbounded : {position | Vacant occupied position}.Infinite)
    {done : List Nat} (levelled : Levelled occupied done tables) {lbn other : Nat}
    (block : occupied lbn) (gone : lbn / bitWidthInBits ∈ done) (otherBlock : occupied other)
    (stays : other / bitWidthInBits ∉ done) : wearPlace occupied lbn ≠ other + 1 := by
  intro same
  have behind := lt_wearPlace unbounded block
  have apart : lbn / bitWidthInBits ≠ other / bitWidthInBits := fun equal => stays (equal ▸ gone)
  have room := levelled.rooms _ gone
  have limit := room.overflowEnd_le otherBlock (by unfold bitWidthInBits at *; omega)
  have reach := wearPlace_lt_overflowEnd room block
  omega

theorem Levelled.keepsMapping (unbounded : {position | Vacant occupied position}.Infinite)
    {done : List Nat} {before : PbiTables}
    (start : Placed occupied (fun _ => False) (wearPlace occupied) before)
    (levelled : Levelled occupied done tables) : KeepsMapping before tables where
  distinct left right pbn apart leftEntry rightEntry := by
    by_contra mapped
    have leftBlock := levelled.placed.occupied_of_read leftEntry mapped
    have rightBlock := levelled.placed.occupied_of_read rightEntry mapped
    have leftInside := Nat.le_of_lt_succ (Region.lt_of_read leftEntry)
    have rightInside := Nat.le_of_lt_succ (Region.lt_of_read rightEntry)
    by_cases leftGone : left / bitWidthInBits ∈ done
    · rw [levelled.placed.placed left leftInside leftBlock leftGone, Option.some.injEq] at leftEntry
      by_cases rightGone : right / bitWidthInBits ∈ done
      · rw [levelled.placed.placed right rightInside rightBlock rightGone,
          Option.some.injEq] at rightEntry
        exact wearPlace_injective unbounded leftBlock rightBlock apart
          (Or.inr ⟨levelled.rooms _ leftGone, levelled.rooms _ rightGone⟩)
          (leftEntry.trans rightEntry.symm)
      · rw [levelled.placed.waiting right rightInside rightBlock rightGone,
          Option.some.injEq] at rightEntry
        exact levelled.wearPlace_ne_succ unbounded leftBlock leftGone rightBlock rightGone
          (leftEntry.trans rightEntry.symm)
    · rw [levelled.placed.waiting left leftInside leftBlock leftGone,
        Option.some.injEq] at leftEntry
      by_cases rightGone : right / bitWidthInBits ∈ done
      · rw [levelled.placed.placed right rightInside rightBlock rightGone,
          Option.some.injEq] at rightEntry
        exact levelled.wearPlace_ne_succ unbounded rightBlock rightGone leftBlock leftGone
          (rightEntry.trans leftEntry.symm)
      · rw [levelled.placed.waiting right rightInside rightBlock rightGone,
          Option.some.injEq] at rightEntry
        omega
  mapped lbn pbn entry nonzero := by
    have block := start.occupied_of_read entry nonzero
    have inside := Nat.le_of_lt_succ (Region.lt_of_read entry)
    by_cases gone : lbn / bitWidthInBits ∈ done
    · refine ⟨_, levelled.placed.placed lbn inside block gone, ?_⟩
      exact Nat.ne_of_gt (Nat.zero_lt_of_lt (lt_wearPlace unbounded block))
    · exact ⟨_, levelled.placed.waiting lbn inside block gone, Nat.succ_ne_zero lbn⟩

/-! ### Levelling a page without room

Either every block of the page finds a place before the end of the table, and one
of them lands on the number of an unmoved block; or a search wraps around, and the
first unused number is 0 or the number of the unmoved block in front of it. -/

/-- The turns before the first block whose place would lie outside the table. -/
theorem Placed.wearBlocks_onePage (unbounded : {position | Vacant occupied position}.Infinite)
    (start : Placed occupied (fun _ => False) (wearPlace occupied) tables) {lpn turns : Nat}
    (valid : lpn < bitTableSize / bitWidthInBits) (inPage : turns ≤ bitWidthInBits)
    (inside : ∀ offset < turns, occupied (lpn * bitWidthInBits + offset) →
      wearPlace occupied (lpn * bitWidthInBits + offset) < bitTableSize) :
    ∃ after, forRange (lpn * bitWidthInBits) (lpn * bitWidthInBits + turns) wearBlock tables =
        some after ∧
      Placed occupied (fun lbn => lpn * bitWidthInBits ≤ lbn ∧ lbn < lpn * bitWidthInBits + turns)
        (wearPlace occupied) after := by
  have bound : lpn * bitWidthInBits + turns ≤ bitTableSize := by
    unfold bitTableSize bitWidthInBits at *
    omega
  have fits : ∀ j, lpn * bitWidthInBits ≤ j → j < lpn * bitWidthInBits + turns → occupied j →
      ¬ False → Fits occupied (fun lbn => False ∨ lpn * bitWidthInBits ≤ lbn ∧ lbn < j)
        (wearPlace occupied) j := by
    intro j lower upper block _
    have page : j / bitWidthInBits = lpn := in_page_iff.mp ⟨lower, by omega⟩
    rcases Nat.exists_eq_add_of_le lower with ⟨offset, rfl⟩
    apply fits_wearPlace unbounded block (inside offset (by omega) block)
    · intro pos behind _ _ gone
      rcases gone with impossible | ⟨_, passed⟩
      · exact impossible
      · omega
    · intro other _ samePage before
      exact Or.inr ⟨(in_page_iff.mpr (samePage.trans page)).1, before⟩
    · intro other otherBlock gone
      rcases gone with impossible | ⟨behind, before⟩
      · exact impossible.elim
      · have samePage := in_page_iff.mp ⟨behind, by omega⟩
        exact wearPlace_injective unbounded otherBlock block (Nat.ne_of_lt before)
          (Or.inl (samePage.trans page.symm))
  rcases start.wearBlocks (wearPlace_vacant unbounded) (Nat.le_add_right _ _) bound fits with
    ⟨after, run, placed⟩
  exact ⟨after, run, placed.congr fun lbn _ => by simp⟩

/-- Without a wrapped search the overflow meets no block and stays in the table. -/
theorem pageRoom_of_distinct (unbounded : {position | Vacant occupied position}.Infinite)
    {lpn : Nat} (valid : lpn < bitTableSize / bitWidthInBits)
    (inTable : ∀ lbn, occupied lbn → lbn < bitTableSize)
    (inside : ∀ offset < bitWidthInBits, occupied (lpn * bitWidthInBits + offset) →
      wearPlace occupied (lpn * bitWidthInBits + offset) < bitTableSize)
    (placed : Placed occupied (fun lbn => lpn * bitWidthInBits ≤ lbn ∧
      lbn < lpn * bitWidthInBits + bitWidthInBits) (wearPlace occupied) tables)
    (distinct : ∀ left right pbn, left ≠ right → tables.mapTable.read left = some pbn →
      tables.mapTable.read right = some pbn → pbn = 0) : PageRoom occupied lpn := by
  have vacant : RoomBehind occupied (lpn * bitWidthInBits) bitWidthInBits := by
    by_contra crowded
    rcases exists_slot_behind_occupied unbounded crowded with
      ⟨offset, below, block, other, behind, otherBlock, place⟩
    have mover := placed.placed (lpn * bitWidthInBits + offset)
      (Nat.le_of_lt (inTable _ block)) block ⟨Nat.le_add_right _ _, by omega⟩
    have waiter := placed.waiting other (Nat.le_of_lt (inTable _ otherBlock)) otherBlock
      (fun gone => Nat.not_lt.mpr behind gone.2)
    rw [wearPlace_page below, place] at mover
    exact absurd (distinct _ other _ (by omega) mover waiter) (Nat.succ_ne_zero other)
  refine ⟨vacant, overflow_le_of_slot_lt vacant ?_ ?_⟩
  · unfold bitTableSize bitWidthInBits at *
    omega
  · intro offset below block
    rw [← wearPlace_page below]
    exact inside offset below block

/-- A search that wraps around finds no unused number, or one in front of the page's blocks. -/
theorem Placed.wrapped_le (unbounded : {position | Vacant occupied position}.Infinite)
    {start j next : Nat} (placed : Placed occupied (fun lbn => start ≤ lbn ∧ lbn < j)
      (wearPlace occupied) tables) (lower : start ≤ j) (inside : j < bitTableSize)
    (before : next < j + 1) (first : ∀ i < next, bool i tables.bitMap = some true) :
    next ≤ start := by
  by_contra beyond
  have taken := (placed.bits start (by omega)).mp (first start (by omega))
  rcases taken with ⟨_, stays⟩ | ⟨lbn, block, gone, same⟩
  · exact stays ⟨Nat.le_refl start, by omega⟩
  · have behind := lt_wearPlace unbounded block
    omega

/-- The block of a wrapped search becomes unmapped or joins a block in front of the page. -/
theorem Placed.wearBlock_wraps (unbounded : {position | Vacant occupied position}.Infinite)
    {lpn j : Nat} (placed : Placed occupied (fun lbn => lpn * bitWidthInBits ≤ lbn ∧ lbn < j)
      (wearPlace occupied) tables) (page : j / bitWidthInBits = lpn) (inside : j < bitTableSize)
    (block : occupied j) (outside : bitTableSize ≤ wearPlace occupied j) :
    ∃ next after, wearBlock j tables = some after ∧ after.mapTable.read j = some next ∧
      (next = 0 ∨ ∃ other < j, after.mapTable.read other = some next) := by
  have lower : lpn * bitWidthInBits ≤ j := (in_page_iff.mpr page).1
  rcases placed.wearBlock_query inside block (fun gone => Nat.lt_irrefl j gone.2) with
    ⟨next, after, outcome, turn, _, entries⟩
  refine ⟨next, after, turn, by rw [entries j, if_pos rfl], ?_⟩
  cases outcome with
  | ahead behind below free first =>
      have taken : Taken occupied (fun lbn => lpn * bitWidthInBits ≤ lbn ∧ lbn < j)
          (wearPlace occupied) next := by
        apply taken_of_lt_wearPlace unbounded _ _ behind (Nat.lt_of_lt_of_le below outside)
        · intro other _ samePage earlier
          exact ⟨(in_page_iff.mpr (samePage.trans page)).1, earlier⟩
        · intro _ gone
          omega
      exact absurd taken (placed.not_taken below free)
  | wrapped full back =>
      rcases back with zero | ⟨before, free, first⟩
      · exact Or.inl zero
      · have front := placed.wrapped_le unbounded lower inside before first
        rcases Nat.eq_zero_or_pos next with zero | positive
        · exact Or.inl zero
        · -- The number in front of the first unused one belongs to an unmoved block.
          have used := first (next - 1) (by omega)
          rcases (placed.bits (next - 1) (by omega)).mp used with
            ⟨otherBlock, stays⟩ | ⟨lbn, mover, gone, same⟩
          · refine Or.inr ⟨next - 1, by omega, ?_⟩
            rw [entries (next - 1), if_neg (by omega),
              placed.waiting (next - 1) (by unfold mapTableSize bitTableSize at *; omega)
                otherBlock stays]
            congr 1
            omega
          · have behind := lt_wearPlace unbounded mover
            omega

/-- What the first wrapped search of a page did is still there at the end of the page. -/
theorem Placed.wearPage_wraps (unbounded : {position | Vacant occupied position}.Infinite)
    (start : Placed occupied (fun _ => False) (wearPlace occupied) tables) {lpn offset : Nat}
    (valid : lpn < bitTableSize / bitWidthInBits) (inPage : offset < bitWidthInBits)
    (block : occupied (lpn * bitWidthInBits + offset))
    (outside : bitTableSize ≤ wearPlace occupied (lpn * bitWidthInBits + offset))
    (earlier : ∀ turn < offset, occupied (lpn * bitWidthInBits + turn) →
      wearPlace occupied (lpn * bitWidthInBits + turn) < bitTableSize) :
    ∃ next after, wearPage tables lpn = some after ∧
      after.mapTable.read (lpn * bitWidthInBits + offset) = some next ∧
      (next = 0 ∨ ∃ other < lpn * bitWidthInBits + offset,
        after.mapTable.read other = some next) := by
  have ends : lpn * bitWidthInBits + offset < lpn * bitWidthInBits + bitWidthInBits :=
    Nat.add_lt_add_left inPage _
  have bound : lpn * bitWidthInBits + bitWidthInBits ≤ bitTableSize := by
    unfold bitTableSize bitWidthInBits at *
    omega
  rcases start.wearBlocks_onePage unbounded valid (Nat.le_of_lt inPage) earlier with
    ⟨middle, front, placed⟩
  rcases placed.wearBlock_wraps unbounded (in_page_iff.mp ⟨Nat.le_add_right _ _, ends⟩)
    (Nat.lt_of_lt_of_le ends bound) block outside with ⟨next, changed, turn, entry, bad⟩
  rcases wearBlocks_frame changed (Nat.succ_le_of_lt ends) bound with ⟨after, back, others⟩
  refine ⟨next, after, ?_, ?_, bad.imp_right fun ⟨other, before, shared⟩ => ⟨other, before, ?_⟩⟩
  · rw [wearPage_eq tables valid, forRange_split (Nat.le_add_right _ offset) (Nat.le_of_lt ends),
      front, Option.bind_some, forRange_step ends, turn]
    exact back
  · rw [others _ (Nat.lt_succ_self _), entry]
  · rw [others other (Nat.lt_succ_of_lt before), shared]

/-- One page alone keeps the mapping only if it has room. -/
theorem pageRoom_of_keepsMapping (unbounded : {position | Vacant occupied position}.Infinite)
    (inTable : ∀ lbn, occupied lbn → lbn < bitTableSize)
    (start : Placed occupied (fun _ => False) (wearPlace occupied) tables) {lpn : Nat}
    (valid : lpn < bitTableSize / bitWidthInBits) {after : PbiTables}
    (page : wearPage tables lpn = some after) (kept : KeepsMapping tables after) :
    PageRoom occupied lpn := by
  classical
  by_cases wraps : ∃ offset, offset < bitWidthInBits ∧
      occupied (lpn * bitWidthInBits + offset) ∧
      bitTableSize ≤ wearPlace occupied (lpn * bitWidthInBits + offset)
  · exfalso
    rcases Nat.findX wraps with ⟨offset, ⟨inPage, block, outside⟩, least⟩
    have earlier : ∀ turn < offset, occupied (lpn * bitWidthInBits + turn) →
        wearPlace occupied (lpn * bitWidthInBits + turn) < bitTableSize := by
      intro turn before mover
      by_contra beyond
      exact least turn before ⟨Nat.lt_trans before inPage, mover, Nat.le_of_not_lt beyond⟩
    rcases start.wearPage_wraps unbounded valid inPage block outside earlier with
      ⟨next, final, run, entry, bad⟩
    rw [page, Option.some.injEq] at run
    subst run
    have waiting := start.waiting _ (Nat.le_of_lt (inTable _ block)) block not_false
    rcases kept.mapped _ _ waiting (Nat.succ_ne_zero _) with ⟨pbn, found, nonzero⟩
    rw [entry, Option.some.injEq] at found
    subst found
    rcases bad with zero | ⟨other, before, shared⟩
    · exact nonzero zero
    · exact nonzero (kept.distinct _ _ next (Nat.ne_of_lt before) shared entry)
  · have inside : ∀ offset < bitWidthInBits, occupied (lpn * bitWidthInBits + offset) →
        wearPlace occupied (lpn * bitWidthInBits + offset) < bitTableSize := by
      intro offset below block
      by_contra beyond
      exact wraps ⟨offset, below, block, Nat.le_of_not_lt beyond⟩
    rcases start.wearBlocks_onePage unbounded valid (Nat.le_refl _) inside with
      ⟨final, run, placed⟩
    rw [wearPage_eq tables valid, run, Option.some.injEq] at page
    subst page
    exact pageRoom_of_distinct unbounded valid inTable inside placed kept.distinct

/-! ### Wear levelling from an allocated state -/

theorem requested_unbounded {requests : List AllocRequest}
    (inTable : ∀ lbn, Requested requests lbn → lbn < bitTableSize - 1) :
    {position | Vacant (Requested requests) position}.Infinite :=
  vacant_infinite inTable

private theorem keepsMapping_of_pageRoom {requests : List AllocRequest}
    (inTable : ∀ lbn, Requested requests lbn → lbn < bitTableSize - 1) {before : PbiTables}
    (start : Placed (Requested requests) (fun _ => False) (wearPlace (Requested requests)) before)
    {lpn : List Nat} (valid : ∀ page ∈ lpn, page < bitTableSize / bitWidthInBits)
    (rooms : ∀ page ∈ lpn, PageRoom (Requested requests) page) :
    ∃ after, wearLevel before lpn = some after ∧ KeepsMapping before after := by
  have unbounded := requested_unbounded inTable
  have fresh : Levelled (Requested requests) [] before :=
    ⟨fun page member => absurd member List.not_mem_nil, start.congr fun lbn _ => by simp⟩
  rcases fresh.wearLevel unbounded lpn valid rooms with ⟨after, done, run, levelled⟩
  exact ⟨after, run, levelled.keepsMapping unbounded start⟩

/-- Levelling pages drawn from a set of pages, in any order and with repetitions,
keeps the mapping exactly when every page of the set has room for its overflow. -/
theorem wearLevel_keeps_mapping_iff (requests : List AllocRequest)
    (inTable : ∀ lbn, Requested requests lbn → lbn < bitTableSize - 1) (pages : List Nat)
    (valid : ∀ page ∈ pages, page < bitTableSize / bitWidthInBits) :
    ∃ before, allocated requests = some before ∧
      ((∀ lpn, lpn ⊆ pages →
          ∃ after, wearLevel before lpn = some after ∧ KeepsMapping before after) ↔
        ∀ page ∈ pages, PageRoom (Requested requests) page) := by
  have inside : ∀ lbn, Requested requests lbn → lbn < bitTableSize := by
    intro lbn block
    exact Nat.lt_of_lt_of_le (inTable lbn block) (Nat.sub_le _ _)
  rcases allocated_placed requests (wearPlace (Requested requests)) inside with
    ⟨before, allocation, start⟩
  refine ⟨before, allocation, ?_, ?_⟩
  · intro keeps page member
    rcases keeps [page] (List.cons_subset.mpr ⟨member, List.nil_subset pages⟩) with ⟨after, run, kept⟩
    have onePage : wearPage before page = some after := by
      simpa [wearLevel] using run
    exact pageRoom_of_keepsMapping (requested_unbounded inTable) inside start (valid page member)
      onePage kept
  · intro rooms lpn subset
    exact keepsMapping_of_pageRoom inTable start (fun page member => valid page (subset member))
      (fun page member => rooms page (subset member))

/-- The first three blocks do not leave their page. -/
theorem first_blocks_keep_mapping :
    ∃ before, allocated [⟨0, 3, 1⟩] = some before ∧ ∀ lpn, lpn ⊆ [0] →
      ∃ after, wearLevel before lpn = some after ∧ KeepsMapping before after := by
  have bound : ∀ lbn, Requested [⟨0, 3, 1⟩] lbn → lbn < 3 := by
    simp [Requested]
  have inTable : ∀ lbn, Requested [⟨0, 3, 1⟩] lbn → lbn < bitTableSize - 1 := by
    intro lbn block
    exact Nat.lt_trans (bound lbn block) (by decide)
  rcases wearLevel_keeps_mapping_iff [⟨0, 3, 1⟩] inTable [0] (by decide) with
    ⟨before, allocation, keeps⟩
  refine ⟨before, allocation, keeps.mpr ?_⟩
  intro page member
  rw [List.mem_singleton] at member
  subst member
  refine ⟨fun position behind _ block => ?_, by decide⟩
  exact absurd (bound position block) (Nat.not_lt.mpr (Nat.le_trans (by decide) behind))

private theorem wearPlace_thirtyOne : wearPlace (Requested [⟨31, 33, 1⟩]) 31 = 33 := by
  have vacant : Vacant (Requested [⟨31, 33, 1⟩]) 33 := by decide
  have rank : claimed (Requested [⟨31, 33, 1⟩]) 0 31 =
      Nat.count (Vacant (Requested [⟨31, 33, 1⟩])) 33 := by decide
  change slot (Requested [⟨31, 33, 1⟩]) 0 31 = 33
  rw [slot, rank, Nat.nth_count vacant]

/-- Block 31 asks for the first unused number from 32 on. Bit 32 is set for block 32,
whose number is 33; bit 33 is clear, so both blocks get number 33. -/
theorem wearLevel_shares_block :
    ∃ before after, allocated [⟨31, 33, 1⟩] = some before ∧ wearLevel before [0] = some after ∧
      before.mapTable.read 31 = some 32 ∧ before.mapTable.read 32 = some 33 ∧
      after.mapTable.read 31 = some 33 ∧ after.mapTable.read 32 = some 33 ∧
      ¬ KeepsMapping before after := by
  have requested : ∀ lbn, Requested [⟨31, 33, 1⟩] lbn ↔ 31 ≤ lbn ∧ lbn < 33 := by
    simp [Requested]
  have inTable : ∀ lbn, Requested [⟨31, 33, 1⟩] lbn → lbn < bitTableSize - 1 := by
    intro lbn block
    exact Nat.lt_trans ((requested lbn).mp block).2 (by decide)
  rcases allocated_placed [⟨31, 33, 1⟩] (wearPlace (Requested [⟨31, 33, 1⟩]))
    (fun lbn block => Nat.lt_of_lt_of_le (inTable lbn block) (Nat.sub_le _ _)) with
    ⟨before, allocation, start⟩
  have inside : ∀ offset < bitWidthInBits, Requested [⟨31, 33, 1⟩] (0 * bitWidthInBits + offset) →
      wearPlace (Requested [⟨31, 33, 1⟩]) (0 * bitWidthInBits + offset) < bitTableSize := by
    intro offset below block
    rw [Nat.zero_mul, Nat.zero_add] at block ⊢
    have only : offset = 31 := by
      have lower := ((requested offset).mp block).1
      unfold bitWidthInBits at below
      omega
    rw [only, wearPlace_thirtyOne]
    decide
  rcases start.wearBlocks_onePage (requested_unbounded inTable) (by decide) (Nat.le_refl _)
    inside with ⟨after, run, placed⟩
  have moved := placed.placed 31 (by decide) (by decide) (by decide)
  have waiting := placed.waiting 32 (by decide) (by decide) (by decide)
  rw [wearPlace_thirtyOne] at moved
  refine ⟨before, after, allocation, ?_, start.waiting 31 (by decide) (by decide) not_false,
    start.waiting 32 (by decide) (by decide) not_false, moved, waiting, fun kept => ?_⟩
  · rw [← wearPage_eq before (by decide)] at run
    simp [wearLevel, run]
  · exact absurd (kept.distinct 31 32 33 (by decide) moved waiting) (by decide)

end OsCompiler.Nvmsim
