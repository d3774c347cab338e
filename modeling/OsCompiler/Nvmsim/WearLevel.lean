/-
Wear levelling of the NVM simulator: `wear_level` takes the blocks of the worn
pages one by one, asks `query_bitmap` for the first unused bit from the block's
physical number on, and lets `exchange_pbi` move the block there.

The bitmap is read by physical number here but is set by logical number when a
block is allocated, where physical number `lbn + 1` goes with bit `lbn`. Until the
search wraps around, the place that a block gets is the first fit of `FirstFit`.
-/

import OsCompiler.Lib.FirstFit
import OsCompiler.Nvmsim.WriteHelper

namespace OsCompiler.Nvmsim

open OsCompiler.FirstFit

/-! ### The allocation under test and the levelling -/

structure AllocRequest where
  rangeBegin : Nat
  rangeEnd : Nat
  repeats : Nat

/-- One turn of the allocation loop, with its inner loop of `repeat` accesses. -/
def allocBlock (repeats i : Nat) (tables : PbiTables) : Option PbiTables := do
  let (mapTable, _raw) ← Nvmsim.mapTable tables.mapTable i (i + 1)
  let bitMap ← setBitmap i tables.bitMap
  forRange 0 repeats (fun _j => countPage (i >>> infoPageSizeShift))
    { tables with mapTable := mapTable, bitMap := bitMap }

def pbiTestAlloc (tables : PbiTables) (request : AllocRequest) : Option PbiTables :=
  forRange request.rangeBegin request.rangeEnd (allocBlock request.repeats) tables

def allocated (requests : List AllocRequest) : Option PbiTables :=
  requests.foldlM pbiTestAlloc nvmPbiSpaceAlloc

section Query

variable {words : Nat}

def unused (bitMap : Region Word words) (i : Nat) : Option Bool := do
  let used ← bool i bitMap
  pure (!used)

/-- The bitmap pointer is never null here, and `pos < 0` is never true of a `word_t`. -/
def queryBitmap (bitMap : Region Word words) (pos len : Nat) : Option Nat :=
  if pos > len then some 0
  else do
    match ← searchRange pos len (unused bitMap) with
    | some i => pure i
    | none =>
        match ← searchRange 0 pos (unused bitMap) with
        | some i => pure i
        | none => pure 0

end Query

def exchangePbi (tables : PbiTables) (lbn pbn : Nat) : Option PbiTables := do
  let bitMap ← clearBitmap lbn tables.bitMap
  let bitMap ← setBitmap pbn bitMap
  let (mapTable, _raw) ← demapMaptable tables.mapTable lbn
  let (mapTable, _raw) ← Nvmsim.mapTable mapTable lbn pbn
  let (infoTable, _refused) ← updateInfotable tables.infoTable (pbn >>> infoPageSizeShift)
  pure { mapTable := mapTable, bitMap := bitMap, infoTable := infoTable }

/-- One turn of the inner loop; the table is read without a check. -/
def wearBlock (j : Nat) (tables : PbiTables) : Option PbiTables := do
  let used ← bool j tables.bitMap
  if used then
    let pbn ← tables.mapTable.read j
    if pbn = 0 then pure tables
    else
      let nextPbn ← queryBitmap tables.bitMap pbn bitTableSize
      exchangePbi tables j nextPbn
  else pure tables

def wearPage (tables : PbiTables) (lpn : Nat) : Option PbiTables :=
  let lbnBegin := lpn * bitWidthInBits % 2 ^ 32
  let lbnEnd := (lpn + 1) * bitWidthInBits % 2 ^ 32
  forRange lbnBegin lbnEnd wearBlock tables

def wearLevel (tables : PbiTables) (lpn : List Nat) : Option PbiTables :=
  lpn.foldlM wearPage tables

/-! ### One query, one exchange -/

/-- The two loops of `query_bitmap`: the first unused position from `pos` on, else
the first one before it, else 0. -/
inductive QueryOutcome {words : Nat} (bitMap : Region Word words) (pos len next : Nat) : Prop
  | ahead (lower : pos ≤ next) (upper : next < len) (free : bool next bitMap = some false)
      (first : ∀ i, pos ≤ i → i < next → bool i bitMap = some true)
  | wrapped (full : ∀ i, pos ≤ i → i < len → bool i bitMap = some true)
      (outcome : next = 0 ∨ next < pos ∧ bool next bitMap = some false ∧
        ∀ i < next, bool i bitMap = some true)

theorem unused_eq {words : Nat} (bitMap : Region Word words) (i : Nat) (passes : Bool) :
    unused bitMap i = some passes ↔ bool i bitMap = some (!passes) := by
  unfold unused
  cases bool i bitMap with
  | none => simp
  | some used => cases used <;> cases passes <;> decide

/-- The test of the two loops answers at every position of the bitmap. -/
theorem exists_unused {words : Nat} (bitMap : Region Word words) {i : Nat}
    (inside : intOffset i < words) :
    ∃ passes, unused bitMap i = some passes := by
  rcases exists_bool bitMap inside with ⟨used, found⟩
  exact ⟨!used, (unused_eq bitMap i _).mpr (by rw [found, Bool.not_not])⟩

private theorem queryBitmap_spec (bitMap : Region Word (bitTableSize / bitWidthInBits + 1))
    {pos : Nat}
    (inside : pos ≤ bitTableSize) :
    ∃ next, queryBitmap bitMap pos bitTableSize = some next ∧
      QueryOutcome bitMap pos bitTableSize next := by
  have answers : ∀ i < bitTableSize, ∃ passes, unused bitMap i = some passes :=
    fun i below => exists_unused bitMap (intOffset_lt_iff.mpr (Nat.lt_add_right 32 below))
  rcases searchRange_spec inside (fun i _ upper => answers i upper) with
    ⟨front, frontSearch, frontReport⟩
  cases front with
  | some next =>
      rcases frontReport with ⟨lower, upper, free, first⟩
      refine ⟨next, by simp [queryBitmap, Nat.not_lt.mpr inside, frontSearch],
        QueryOutcome.ahead lower upper ((unused_eq bitMap next true).mp free) ?_⟩
      intro i lower below
      exact (unused_eq bitMap i false).mp (first i lower below)
  | none =>
      have full : ∀ i, pos ≤ i → i < bitTableSize → bool i bitMap = some true := by
        intro i lower upper
        exact (unused_eq bitMap i false).mp (frontReport i lower upper)
      rcases searchRange_spec (Nat.zero_le pos) (fun i _ upper => answers i (by omega)) with
        ⟨back, backSearch, backReport⟩
      cases back with
      | none =>
          exact ⟨0, by simp [queryBitmap, Nat.not_lt.mpr inside, frontSearch, backSearch],
            QueryOutcome.wrapped full (Or.inl rfl)⟩
      | some next =>
          rcases backReport with ⟨_, upper, free, first⟩
          refine ⟨next, by simp [queryBitmap, Nat.not_lt.mpr inside, frontSearch, backSearch],
            QueryOutcome.wrapped full (Or.inr ⟨upper, (unused_eq bitMap next true).mp free, ?_⟩)⟩
          intro i below
          exact (unused_eq bitMap i false).mp (first i (Nat.zero_le i) below)

theorem QueryOutcome.lt {words : Nat} {bitMap : Region Word words} {pos next : Nat}
    (outcome : QueryOutcome bitMap pos bitTableSize next) (inside : pos ≤ bitTableSize) :
    next < bitTableSize := by
  cases outcome with
  | ahead lower upper free first => exact upper
  | wrapped full back =>
      rcases back with zero | ⟨below, _, _⟩
      · exact zero ▸ (by decide)
      · omega

private theorem queryBitmap_lt (bitMap : Region Word (bitTableSize / bitWidthInBits + 1))
    (pos : Nat) :
    ∃ next < bitTableSize, queryBitmap bitMap pos bitTableSize = some next := by
  by_cases inside : pos ≤ bitTableSize
  · rcases queryBitmap_spec bitMap inside with ⟨next, query, outcome⟩
    exact ⟨next, outcome.lt inside, query⟩
  · exact ⟨0, by decide, by rw [queryBitmap, if_pos (Nat.lt_of_not_le inside)]⟩

/-- An exchange clears the bit of the logical block, sets the bit of the physical
one and maps the first to the second; the order of the two bit writes matters. -/
theorem exchangePbi_eq_some (tables : PbiTables) {lbn pbn : Nat} (logical : lbn < bitTableSize)
    (physical : pbn < bitTableSize) :
    ∃ after, exchangePbi tables lbn pbn = some after ∧
      (∀ pos, bool pos after.bitMap = if pos = pbn then some true
        else if pos = lbn then some false else bool pos tables.bitMap) ∧
      ∀ other, after.mapTable.read other =
        if other = lbn then some pbn else tables.mapTable.read other := by
  have entry : lbn < mapTableSize + 1 := Nat.lt_succ_of_lt logical
  have bound : lbn ≤ mapTableSize := Nat.le_of_lt logical
  rcases clearBitmap_eq_some tables.bitMap (intOffset_lt_iff.mpr (Nat.lt_add_right 32 logical)) with
    ⟨cleared, clearing, clearedBits⟩
  rcases setBitmap_eq_some cleared (intOffset_lt_iff.mpr (Nat.lt_add_right 32 physical)) with
    ⟨marked, marking, markedBits⟩
  rcases demapMaptable_eq_some tables.mapTable entry bound with ⟨demapped, raw, demapping, others⟩
  rcases mapTable_eq_some demapped pbn entry bound with ⟨replaced, mapping⟩
  rcases exists_updateInfotable tables.infoTable (pbn >>> infoPageSizeShift) with
    ⟨counted, counting⟩
  refine ⟨⟨demapped.set lbn pbn, marked, counted.1⟩,
    by simp [exchangePbi, clearing, marking, demapping, mapping, counting], ?_, ?_⟩
  · intro pos
    rw [markedBits, clearedBits]
  · intro other
    by_cases here : other = lbn
    · rw [if_pos here, here]
      exact Region.read_set_self _ _ entry
    · rw [if_neg here, ← others other here]
      exact Region.read_set_ne _ _ here

/-- Whatever the tables hold, a turn changes no other block's entry. -/
theorem wearBlock_frame (tables : PbiTables) {j : Nat} (inside : j < bitTableSize) :
    ∃ after, wearBlock j tables = some after ∧
      ∀ other, other ≠ j → after.mapTable.read other = tables.mapTable.read other := by
  rcases exists_bool tables.bitMap (intOffset_lt_iff.mpr (Nat.lt_add_right 32 inside)) with
    ⟨used, found⟩
  rcases tables.mapTable.exists_read (Nat.lt_succ_of_lt inside) with ⟨pbn, entry⟩
  by_cases idle : used = false ∨ pbn = 0
  · refine ⟨tables, ?_, fun other _ => rfl⟩
    rcases idle with clear | unmapped
    · simp [wearBlock, found, clear]
    · cases used <;> simp [wearBlock, found, entry, unmapped]
  · rcases not_or.mp idle with ⟨set, mapped⟩
    rcases queryBitmap_lt tables.bitMap pbn with ⟨next, physical, query⟩
    rcases exchangePbi_eq_some tables inside physical with ⟨after, exchange, _, entries⟩
    refine ⟨after, by simp [wearBlock, found, entry, query, exchange, set, mapped], ?_⟩
    intro other different
    rw [entries other, if_neg different]

theorem wearBlocks_frame (tables : PbiTables) {start stop : Nat} (ordered : start ≤ stop)
    (bound : stop ≤ bitTableSize) :
    ∃ after, forRange start stop wearBlock tables = some after ∧
      ∀ other < start, after.mapTable.read other = tables.mapTable.read other := by
  apply forRange_progress (fun _ (after : PbiTables) => ∀ other < start,
    after.mapTable.read other = tables.mapTable.read other) ordered (fun _ _ => rfl)
  intro j middle lower upper same
  rcases wearBlock_frame middle (Nat.lt_of_lt_of_le upper bound) with ⟨after, turn, others⟩
  refine ⟨after, turn, fun other before => ?_⟩
  rw [others other (by omega), same other before]

theorem wearPage_eq (tables : PbiTables) {lpn : Nat} (valid : lpn < bitTableSize / bitWidthInBits) :
    wearPage tables lpn =
      forRange (lpn * bitWidthInBits) (lpn * bitWidthInBits + bitWidthInBits) wearBlock tables := by
  unfold bitTableSize bitWidthInBits at valid
  unfold wearPage bitWidthInBits
  rw [Nat.mod_eq_of_lt (by omega), Nat.mod_eq_of_lt (by omega), Nat.succ_mul]

/-! ### The tables while some of the blocks have moved

`place` says where the moved blocks are; the others still have the bit and the
entry of their allocation. -/

section Placement

variable (occupied moved : Nat → Prop) (place : Nat → Nat)

def Taken (pos : Nat) : Prop :=
  occupied pos ∧ ¬ moved pos ∨ ∃ lbn, occupied lbn ∧ moved lbn ∧ place lbn = pos

structure Placed (tables : PbiTables) : Prop where
  bits : ∀ pos < bitTableSize,
    (bool pos tables.bitMap = some true ↔ Taken occupied moved place pos)
  unmapped : ∀ lbn ≤ mapTableSize, ¬ occupied lbn → tables.mapTable.read lbn = some 0
  waiting : ∀ lbn ≤ mapTableSize, occupied lbn → ¬ moved lbn →
    tables.mapTable.read lbn = some (lbn + 1)
  placed : ∀ lbn ≤ mapTableSize, occupied lbn → moved lbn →
    tables.mapTable.read lbn = some (place lbn)

/-- `place lbn` is what a query for block `lbn` finds without wrapping around. -/
structure Fits (lbn : Nat) : Prop where
  behind : lbn < place lbn
  inside : place lbn < bitTableSize
  crowded : ∀ pos, lbn < pos → pos < place lbn → Taken occupied moved place pos
  free : ¬ Taken occupied moved place (place lbn)

variable {occupied moved place} {tables : PbiTables}

/-- Only which of the allocated blocks have moved matters. -/
theorem Placed.congr {moved' : Nat → Prop} (placed : Placed occupied moved place tables)
    (same : ∀ lbn, occupied lbn → (moved lbn ↔ moved' lbn)) :
    Placed occupied moved' place tables where
  bits pos below := by
    rw [placed.bits pos below]
    apply or_congr
    · exact and_congr_right fun block => not_congr (same pos block)
    · apply exists_congr
      intro lbn
      exact and_congr_right fun block => and_congr_left fun _ => same lbn block
  unmapped := placed.unmapped
  waiting lbn bound block stays :=
    placed.waiting lbn bound block (fun gone => stays ((same lbn block).mp gone))
  placed lbn bound block gone := placed.placed lbn bound block ((same lbn block).mpr gone)

theorem Placed.congr_occupied {occupied' : Nat → Prop}
    (placed : Placed occupied moved place tables) (same : ∀ lbn, occupied lbn ↔ occupied' lbn) :
    Placed occupied' moved place tables := by
  have equal : occupied = occupied' := funext fun lbn => propext (same lbn)
  exact equal ▸ placed

theorem Placed.bool_eq_false (placed : Placed occupied moved place tables) {pos : Nat}
    (inside : pos < bitTableSize) (free : ¬ Taken occupied moved place pos) :
    bool pos tables.bitMap = some false := by
  rcases exists_bool tables.bitMap (intOffset_lt_iff.mpr (Nat.lt_add_right 32 inside)) with
    ⟨used, found⟩
  cases used with
  | true => exact absurd ((placed.bits pos inside).mp found) free
  | false => exact found

theorem Placed.not_taken (placed : Placed occupied moved place tables) {pos : Nat}
    (inside : pos < bitTableSize) (found : bool pos tables.bitMap = some false) :
    ¬ Taken occupied moved place pos := by
  intro taken
  rw [(placed.bits pos inside).mpr taken] at found
  cases found

/-- A bit that stands for a moved block is set, but its logical block is unmapped. -/
theorem Placed.wearBlock_skip (placed : Placed occupied moved place tables)
    (vacant : ∀ lbn, ¬ occupied (place lbn)) {j : Nat} (inside : j < bitTableSize)
    (idle : ¬ (occupied j ∧ ¬ moved j)) : wearBlock j tables = some tables := by
  rcases exists_bool tables.bitMap (intOffset_lt_iff.mpr (Nat.lt_add_right 32 inside)) with
    ⟨used, found⟩
  cases used with
  | false => simp [wearBlock, found]
  | true =>
      rcases (placed.bits j inside).mp found with own | ⟨lbn, _, _, here⟩
      · exact absurd own idle
      · have zero := placed.unmapped j (Nat.le_of_lt inside) (here ▸ vacant lbn)
        simp [wearBlock, found, zero]

/-- A block that has not moved asks for a place from the position behind it on. -/
theorem Placed.wearBlock_query (placed : Placed occupied moved place tables) {j : Nat}
    (inside : j < bitTableSize) (here : occupied j) (unmoved : ¬ moved j) :
    ∃ next after, QueryOutcome tables.bitMap (j + 1) bitTableSize next ∧
      wearBlock j tables = some after ∧
      (∀ pos, bool pos after.bitMap = if pos = next then some true
        else if pos = j then some false else bool pos tables.bitMap) ∧
      ∀ other, after.mapTable.read other =
        if other = j then some next else tables.mapTable.read other := by
  have found := (placed.bits j inside).mpr (Or.inl ⟨here, unmoved⟩)
  have entry := placed.waiting j (Nat.le_of_lt inside) here unmoved
  rcases queryBitmap_spec tables.bitMap (Nat.succ_le_of_lt inside) with ⟨next, query, outcome⟩
  rcases exchangePbi_eq_some tables inside (outcome.lt (Nat.succ_le_of_lt inside)) with
    ⟨after, exchange, bits, entries⟩
  exact ⟨next, after, outcome, by simp [wearBlock, found, entry, query, exchange], bits, entries⟩

/-- Moving a block frees its position and takes its place. -/
theorem taken_move (vacant : ∀ lbn, ¬ occupied (place lbn)) {j : Nat} (here : occupied j)
    {pos : Nat} : Taken occupied (fun lbn => moved lbn ∨ lbn = j) place pos ↔
      pos = place j ∨ pos ≠ j ∧ Taken occupied moved place pos := by
  constructor
  · intro taken
    rcases taken with ⟨block, stays⟩ | ⟨lbn, block, gone, same⟩
    · exact Or.inr ⟨fun last => stays (Or.inr last),
        Or.inl ⟨block, fun gone => stays (Or.inl gone)⟩⟩
    · rcases gone with gone | last
      · have apart : pos ≠ j := fun equal => vacant lbn ((same.trans equal).symm ▸ here)
        exact Or.inr ⟨apart, Or.inr ⟨lbn, block, gone, same⟩⟩
      · exact Or.inl (last ▸ same).symm
  · intro either
    rcases either with new | ⟨apart, ⟨block, stays⟩ | ⟨lbn, block, gone, same⟩⟩
    · exact Or.inr ⟨j, here, Or.inr rfl, new.symm⟩
    · exact Or.inl ⟨block, fun gone => gone.elim stays apart⟩
    · exact Or.inr ⟨lbn, block, Or.inl gone, same⟩

theorem Placed.wearBlock_move (placed : Placed occupied moved place tables)
    (vacant : ∀ lbn, ¬ occupied (place lbn)) {j : Nat} (inside : j < bitTableSize)
    (here : occupied j) (unmoved : ¬ moved j) (fits : Fits occupied moved place j) :
    ∃ after, wearBlock j tables = some after ∧
      Placed occupied (fun lbn => moved lbn ∨ lbn = j) place after := by
  rcases placed.wearBlock_query inside here unmoved with
    ⟨next, after, outcome, turn, bits, entries⟩
  have atPlace : next = place j := by
    have free := placed.bool_eq_false fits.inside fits.free
    cases outcome with
    | wrapped full _ =>
        rw [full _ fits.behind fits.inside] at free
        cases free
    | ahead lower upper unusedBit first =>
        rcases Nat.lt_trichotomy next (place j) with before | same | beyond
        · exact absurd (fits.crowded next lower before) (placed.not_taken upper unusedBit)
        · exact same
        · rw [first _ fits.behind beyond] at free
          cases free
  subst atPlace
  refine ⟨after, turn, ?_, ?_, ?_, ?_⟩
  · intro pos below
    rw [bits pos, taken_move vacant here, ← placed.bits pos below]
    by_cases new : pos = place j
    · simp [new]
    · by_cases old : pos = j
      · simp [old]
      · simp [new, old]
  · intro lbn bound block
    have other : lbn ≠ j := fun same => block (same ▸ here)
    rw [entries lbn, if_neg other]
    exact placed.unmapped lbn bound block
  · intro lbn bound block stays
    have other : lbn ≠ j := fun same => stays (Or.inr same)
    rw [entries lbn, if_neg other]
    exact placed.waiting lbn bound block (fun gone => stays (Or.inl gone))
  · intro lbn bound block gone
    rw [entries lbn]
    by_cases last : lbn = j
    · rw [if_pos last, last]
    · rw [if_neg last]
      exact placed.placed lbn bound block (gone.resolve_right last)

/-- A run of turns in which every block that has yet to move fits its place. -/
theorem Placed.wearBlocks (placed : Placed occupied moved place tables)
    (vacant : ∀ lbn, ¬ occupied (place lbn)) {start stop : Nat} (ordered : start ≤ stop)
    (bound : stop ≤ bitTableSize)
    (fits : ∀ j, start ≤ j → j < stop → occupied j → ¬ moved j →
      Fits occupied (fun lbn => moved lbn ∨ start ≤ lbn ∧ lbn < j) place j) :
    ∃ after, forRange start stop wearBlock tables = some after ∧
      Placed occupied (fun lbn => moved lbn ∨ start ≤ lbn ∧ lbn < stop) place after := by
  apply forRange_progress (fun j tables =>
    Placed occupied (fun lbn => moved lbn ∨ start ≤ lbn ∧ lbn < j) place tables) ordered
  · refine placed.congr fun lbn _ => ⟨Or.inl, fun gone => gone.resolve_right ?_⟩
    omega
  · intro j tables lower upper sofar
    have inside := Nat.lt_of_lt_of_le upper bound
    by_cases mover : occupied j ∧ ¬ moved j
    · rcases mover with ⟨here, unmoved⟩
      have waits : ¬ (moved j ∨ start ≤ j ∧ j < j) := by
        intro gone
        exact gone.elim unmoved (fun before => Nat.lt_irrefl j before.2)
      rcases sofar.wearBlock_move vacant inside here waits (fits j lower upper here unmoved) with
        ⟨after, turn, next⟩
      refine ⟨after, turn, next.congr fun lbn _ => ?_⟩
      rw [or_assoc]
      apply or_congr_right
      omega
    · refine ⟨tables, sofar.wearBlock_skip vacant inside ?_, sofar.congr fun lbn block => ?_⟩
      · intro busy
        exact mover ⟨busy.1, fun gone => busy.2 (Or.inl gone)⟩
      · by_cases here : lbn = j
        · subst here
          have gone : moved lbn := by
            by_contra unmoved
            exact mover ⟨block, unmoved⟩
          exact ⟨fun _ => Or.inl gone, fun _ => Or.inl gone⟩
        · apply or_congr_right
          omega

/-! ### The tables after the allocation -/

theorem Placed.allocBlock (placed : Placed occupied (fun _ => False) place tables) (repeats : Nat)
    {i : Nat} (inside : i < bitTableSize) :
    ∃ after, Nvmsim.allocBlock repeats i tables = some after ∧
      Placed (fun lbn => occupied lbn ∨ lbn = i) (fun _ => False) place after := by
  rcases mapTable_eq_some tables.mapTable (i + 1) (Nat.lt_succ_of_lt inside)
    (Nat.le_of_lt inside) with ⟨raw, mapping⟩
  rcases setBitmap_eq_some tables.bitMap (intOffset_lt_iff.mpr (Nat.lt_add_right 32 inside)) with
    ⟨bitMap, marking, marked⟩
  rcases countPages_eq_some
    { tables with mapTable := tables.mapTable.set i (i + 1), bitMap := bitMap }
    (fun _j => countPage_eq_some (i >>> infoPageSizeShift)) 0 repeats with
    ⟨after, counting, sameBits, sameEntries⟩
  change after.bitMap = bitMap at sameBits
  change after.mapTable = tables.mapTable.set i (i + 1) at sameEntries
  refine ⟨after, by simp [Nvmsim.allocBlock, mapping, marking, counting], ?_, ?_, ?_, ?_⟩
  · intro pos below
    rw [sameBits, marked pos]
    have before := placed.bits pos below
    by_cases here : pos = i
    · simp [here, Taken]
    · simpa [here, Taken] using before
  · intro lbn bound absent
    rw [sameEntries, Region.read_set_ne _ _ (fun here => absent (Or.inr here))]
    exact placed.unmapped lbn bound (fun block => absent (Or.inl block))
  · intro lbn bound block stays
    rw [sameEntries]
    by_cases here : lbn = i
    · rw [here]
      exact Region.read_set_self _ _ (Nat.lt_succ_of_lt inside)
    · rw [Region.read_set_ne _ _ here]
      exact placed.waiting lbn bound (block.resolve_right here) stays
  · intro lbn _ _ gone
    exact gone.elim

end Placement

def Requested (requests : List AllocRequest) (lbn : Nat) : Prop :=
  ∃ request ∈ requests, request.rangeBegin ≤ lbn ∧ lbn < request.rangeEnd

instance (requests : List AllocRequest) : DecidablePred (Requested requests) :=
  fun lbn => inferInstanceAs (Decidable (∃ request ∈ requests, _ ≤ lbn ∧ lbn < _))

private theorem placed_nvmPbiSpaceAlloc (place : Nat → Nat) :
    Placed (fun _ => False) (fun _ => False) place nvmPbiSpaceAlloc where
  bits pos below := by
    have clear : bool pos nvmPbiSpaceAlloc.bitMap = some false := bool_initBitmap below
    simp [clear, Taken]
  unmapped lbn bound _ := Region.read_fill 0 (Nat.lt_succ_of_le bound)
  waiting lbn _ absent := absent.elim
  placed lbn _ absent := absent.elim

theorem Placed.pbiTestAlloc {occupied : Nat → Prop} {place : Nat → Nat} {tables : PbiTables}
    (placed : Placed occupied (fun _ => False) place tables) (request : AllocRequest)
    (inTable : ∀ lbn, request.rangeBegin ≤ lbn → lbn < request.rangeEnd → lbn < bitTableSize) :
    ∃ after, Nvmsim.pbiTestAlloc tables request = some after ∧
      Placed (fun lbn => occupied lbn ∨ request.rangeBegin ≤ lbn ∧ lbn < request.rangeEnd)
        (fun _ => False) place after := by
  by_cases ordered : request.rangeBegin ≤ request.rangeEnd
  · apply forRange_progress (fun i tables =>
      Placed (fun lbn => occupied lbn ∨ request.rangeBegin ≤ lbn ∧ lbn < i)
        (fun _ => False) place tables) ordered
    · refine placed.congr_occupied fun lbn => ⟨Or.inl, fun block => block.resolve_right ?_⟩
      omega
    · intro i tables lower upper sofar
      rcases sofar.allocBlock request.repeats (inTable i lower upper) with ⟨after, turn, next⟩
      refine ⟨after, turn, next.congr_occupied fun lbn => ?_⟩
      rw [or_assoc]
      apply or_congr_right
      omega
  · refine ⟨tables, forRange_empty (by omega), placed.congr_occupied fun lbn =>
      ⟨Or.inl, fun block => block.resolve_right ?_⟩⟩
    omega

/-- Any set of blocks can be allocated, each mapped to the number behind its own. -/
theorem allocated_placed (requests : List AllocRequest) (place : Nat → Nat)
    (inTable : ∀ lbn, Requested requests lbn → lbn < bitTableSize) :
    ∃ tables, allocated requests = some tables ∧
      Placed (Requested requests) (fun _ => False) place tables := by
  suffices general : ∀ (occupied : Nat → Prop) (tables : PbiTables),
      Placed occupied (fun _ => False) place tables →
      ∃ after, requests.foldlM Nvmsim.pbiTestAlloc tables = some after ∧
        Placed (fun lbn => occupied lbn ∨ Requested requests lbn) (fun _ => False) place after by
    rcases general _ _ (placed_nvmPbiSpaceAlloc place) with ⟨tables, allocation, placed⟩
    exact ⟨tables, allocation, placed.congr_occupied fun lbn => by simp⟩
  induction requests with
  | nil =>
      intro occupied tables placed
      exact ⟨tables, rfl, placed.congr_occupied fun lbn => by simp [Requested]⟩
  | cons request requests ih =>
      intro occupied tables placed
      rcases placed.pbiTestAlloc request (fun lbn lower upper =>
        inTable lbn ⟨request, List.mem_cons_self, lower, upper⟩) with ⟨middle, first, next⟩
      have rest := ih fun lbn block => by
        rcases block with ⟨other, member, range⟩
        exact inTable lbn ⟨other, List.mem_cons_of_mem request member, range⟩
      rcases rest _ middle next with ⟨after, later, final⟩
      refine ⟨after, ?_, final.congr_occupied fun lbn => ?_⟩
      · rw [List.foldlM_cons, first]
        exact later
      · simp [Requested, or_assoc]

end OsCompiler.Nvmsim
