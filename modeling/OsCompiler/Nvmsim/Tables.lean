/-
The three block tables of the NVM simulator: the bitmap of used blocks, the
logical-to-physical map table and the access-information table.

A `word_t` that serves as an index, a counter or a block number is a natural
number; bitmap words are bit vectors, since the macros work on their bits. The
tables are regions of the sizes their `init_*` functions allocate, so an index
outside a table makes the access fail instead of reading a default.
-/

import Mathlib.Algebra.Group.Nat.Defs
import OsCompiler.Lib.Region

namespace OsCompiler.Nvmsim

abbrev Word := BitVec 32

def mapTableSize : Nat := 8388608
def bitTableSize : Nat := 8388608
def infoTableSize : Nat := 262144

def bitWidthInBits : Nat := 32
def infoPageSizeShift : Nat := 5
def mapPerSectorsShift : Nat := 5
def sectorShift : Nat := 9

/-! ### Bitmap macros -/

def bitOffset (pos : Nat) : Nat := pos % bitWidthInBits
def intOffset (pos : Nat) : Nat := pos / bitWidthInBits

variable {words : Nat}

def setBitmap (pos : Nat) (bitMap : Region Word words) : Option (Region Word words) := do
  let word ← bitMap.read (intOffset pos)
  bitMap.write (intOffset pos) (word ||| (1#32 <<< bitOffset pos))

def clearBitmap (pos : Nat) (bitMap : Region Word words) : Option (Region Word words) := do
  let word ← bitMap.read (intOffset pos)
  bitMap.write (intOffset pos) (word &&& ~~~(1#32 <<< bitOffset pos))

def bool (pos : Nat) (bitMap : Region Word words) : Option Bool := do
  let word ← bitMap.read (intOffset pos)
  pure (word &&& (1#32 <<< bitOffset pos) != 0#32)

def initBitmap (num : Nat) : Region Word (num / bitWidthInBits + 1) :=
  Region.fill _ 0#32

private theorem bitOffset_lt (pos : Nat) : bitOffset pos < 32 :=
  Nat.mod_lt pos (by decide)

/-- Word and bit offset together determine the position. -/
theorem position_ext {left right : Nat} (word : intOffset left = intOffset right)
    (bit : bitOffset left = bitOffset right) : left = right := by
  unfold intOffset bitWidthInBits at word
  unfold bitOffset bitWidthInBits at bit
  omega

private theorem one_shift_getLsbD (amount bit : Nat) (inside : bit < 32) :
    (1#32 <<< amount).getLsbD bit = decide (bit = amount) := by
  rw [BitVec.getLsbD_shiftLeft, BitVec.getLsbD_one]
  by_cases same : bit = amount
  · subst same
    simp [inside]
  · by_cases below : bit < amount
    · simp [below, same]
    · have apart : bit - amount ≠ 0 := by omega
      simp [below, same, apart]

private theorem and_one_shift_ne_zero (word : Word) (bit : Nat) (inside : bit < 32) :
    (word &&& (1#32 <<< bit) != 0#32) = word.getLsbD bit := by
  cases found : word.getLsbD bit with
  | true =>
      apply bne_iff_ne.mpr
      intro zero
      have atBit := congrArg (fun w => w.getLsbD bit) zero
      simp [found, one_shift_getLsbD bit bit inside] at atBit
  | false =>
      have zero : word &&& (1#32 <<< bit) = 0#32 := by
        apply BitVec.eq_of_getLsbD_eq
        intro other below
        rw [BitVec.getLsbD_and, one_shift_getLsbD bit other below]
        by_cases same : other = bit
        · subst same
          simp [found]
        · simp [same]
      rw [zero]
      rfl

/-- `BOOL` reads the bit at the position's word and bit offset. -/
theorem bool_eq_getLsbD (bitMap : Region Word words) {pos : Nat} {word : Word}
    (found : bitMap.read (intOffset pos) = some word) :
    bool pos bitMap = some (word.getLsbD (bitOffset pos)) := by
  simp only [bool, found, Option.bind_eq_bind, Option.bind_some]
  rw [and_one_shift_ne_zero word _ (bitOffset_lt pos)]
  rfl

theorem exists_bool (bitMap : Region Word words) {pos : Nat} (inside : intOffset pos < words) :
    ∃ bit, bool pos bitMap = some bit := by
  obtain ⟨word, found⟩ := bitMap.exists_read inside
  exact ⟨_, bool_eq_getLsbD bitMap found⟩

theorem bool_eq_none (bitMap : Region Word words) {pos : Nat} (outside : words ≤ intOffset pos) :
    bool pos bitMap = none := by
  simp [bool, bitMap.read_eq_none.mpr outside]

theorem bool_initBitmap {num pos : Nat} (inside : pos < num) :
    bool pos (initBitmap num) = some false := by
  have wordInside : intOffset pos < num / bitWidthInBits + 1 := by
    unfold intOffset bitWidthInBits
    omega
  have zeroed : (initBitmap num).read (intOffset pos) = some 0#32 :=
    Region.read_fill _ wordInside
  rw [bool_eq_getLsbD _ zeroed]
  simp

/-- A read-modify-write of one word that changes one bit changes one position. -/
private theorem bool_after_write {before after : Region Word words} {pos : Nat}
    {word changed : Word} {bit : Bool} (found : before.read (intOffset pos) = some word)
    (wrote : before.write (intOffset pos) changed = some after)
    (bits : ∀ other < 32, changed.getLsbD other =
      if other = bitOffset pos then bit else word.getLsbD other) (other : Nat) :
    bool other after = if other = pos then some bit else bool other before := by
  have inside := Region.lt_of_read found
  rw [Region.write_eq_set _ _ inside, Option.some.injEq] at wrote
  subst wrote
  by_cases sameWord : intOffset other = intOffset pos
  · have readAfter : (before.set (intOffset pos) changed).read (intOffset other) = some changed := by
      rw [sameWord, Region.read_set_self _ _ inside]
    rw [bool_eq_getLsbD _ readAfter, bits _ (bitOffset_lt other)]
    by_cases same : other = pos
    · subst same
      simp
    · have apart : bitOffset other ≠ bitOffset pos := fun equal =>
        same (position_ext sameWord equal)
      rw [if_neg apart, if_neg same, bool_eq_getLsbD before (sameWord ▸ found)]
  · have different : other ≠ pos := fun equal => sameWord (equal ▸ rfl)
    rw [if_neg different]
    simp only [bool, Region.read_set_ne before changed sameWord]

/-- `SET_BITMAP` sets one position of one 32-bit word and changes no other. -/
theorem setBitmap_eq_some (bitMap : Region Word words) {pos : Nat}
    (inside : intOffset pos < words) :
    ∃ after, setBitmap pos bitMap = some after ∧
      ∀ other, bool other after = if other = pos then some true else bool other bitMap := by
  obtain ⟨word, found⟩ := bitMap.exists_read inside
  refine ⟨bitMap.set (intOffset pos) (word ||| (1#32 <<< bitOffset pos)), ?_, ?_⟩
  · simp only [setBitmap, found, Option.bind_eq_bind, Option.bind_some]
    exact Region.write_eq_set _ _ inside
  · apply bool_after_write found (Region.write_eq_set _ _ inside)
    intro other below
    rw [BitVec.getLsbD_or, one_shift_getLsbD _ other below]
    by_cases same : other = bitOffset pos <;> simp [same]

theorem clearBitmap_eq_some (bitMap : Region Word words) {pos : Nat}
    (inside : intOffset pos < words) :
    ∃ after, clearBitmap pos bitMap = some after ∧
      ∀ other, bool other after = if other = pos then some false else bool other bitMap := by
  obtain ⟨word, found⟩ := bitMap.exists_read inside
  refine ⟨bitMap.set (intOffset pos) (word &&& ~~~(1#32 <<< bitOffset pos)), ?_, ?_⟩
  · simp only [clearBitmap, found, Option.bind_eq_bind, Option.bind_some]
    exact Region.write_eq_set _ _ inside
  · apply bool_after_write found (Region.write_eq_set _ _ inside)
    intro other below
    rw [BitVec.getLsbD_and, BitVec.getLsbD_not, one_shift_getLsbD _ other below]
    by_cases same : other = bitOffset pos <;> simp [same, below]

/-! ### Map table

`lbn < 0` in the source is never true of an unsigned number, so only the upper
bound is a check. The second component of a result is the returned `int`. -/

variable {entries : Nat}

def initMaptable (size : Nat) : Region Nat (size + 1) := Region.fill _ 0

def updateMaptable (table : Region Nat entries) (lbn pbn : Nat) :
    Option (Region Nat entries × Nat) :=
  if lbn > mapTableSize then some (table, 0)
  else do
    let table ← table.write lbn pbn
    pure (table, 1)

def getMaptable (table : Region Nat entries) (lbn : Nat) : Option Nat :=
  if lbn > mapTableSize then some 0 else table.read lbn

def mapTable (table : Region Nat entries) (lbn pbn : Nat) : Option (Region Nat entries × Nat) := do
  let rawPbn ← getMaptable table lbn
  let (table, updated) ← updateMaptable table lbn pbn
  if updated = 0 then pure (table, 0) else pure (table, rawPbn)

def demapMaptable (table : Region Nat entries) (lbn : Nat) : Option (Region Nat entries × Nat) := do
  let rawPbn ← getMaptable table lbn
  if rawPbn = 0 then pure (table, 0)
  else
    let (table, updated) ← updateMaptable table lbn 0
    if updated = 0 then pure (table, 0) else pure (table, rawPbn)

theorem mapTable_eq_some (table : Region Nat entries) {lbn : Nat} (pbn : Nat)
    (inside : lbn < entries) (bound : lbn ≤ mapTableSize) :
    ∃ rawPbn, mapTable table lbn pbn = some (table.set lbn pbn, rawPbn) := by
  obtain ⟨rawPbn, found⟩ := table.exists_read inside
  refine ⟨rawPbn, ?_⟩
  simp [mapTable, getMaptable, updateMaptable, Nat.not_lt.mpr bound, found,
    Region.write_eq_set table pbn inside]

/-- Beyond the table's last entry `map_table` refuses and touches nothing. -/
theorem mapTable_refused (table : Region Nat entries) {lbn : Nat} (pbn : Nat)
    (outside : mapTableSize < lbn) : mapTable table lbn pbn = some (table, 0) := by
  simp [mapTable, getMaptable, updateMaptable, outside]

/-- Demapping touches no other entry, whether or not the block was mapped. -/
theorem demapMaptable_eq_some (table : Region Nat entries) {lbn : Nat}
    (inside : lbn < entries) (bound : lbn ≤ mapTableSize) :
    ∃ after rawPbn, demapMaptable table lbn = some (after, rawPbn) ∧
      ∀ other, other ≠ lbn → after.read other = table.read other := by
  rcases table.exists_read inside with ⟨rawPbn, found⟩
  by_cases unmapped : rawPbn = 0
  · refine ⟨table, 0, ?_, fun other _ => rfl⟩
    simp [demapMaptable, getMaptable, Nat.not_lt.mpr bound, found, unmapped]
  · refine ⟨table.set lbn 0, rawPbn, ?_, fun other different => Region.read_set_ne _ _ different⟩
    simp [demapMaptable, getMaptable, updateMaptable, Nat.not_lt.mpr bound, found, unmapped,
      Region.write_eq_set table 0 inside]

/-! ### Access-information table -/

def initInfotable (size : Nat) : Region Nat size := Region.fill _ 0

/-- The returned 1 reports an index outside the table. -/
def updateInfotable (table : Region Nat entries) (lbn : Nat) : Option (Region Nat entries × Nat) :=
  if lbn ≥ infoTableSize then some (table, 1)
  else do
    let times ← table.read lbn
    let table ← table.write lbn ((times + 1) % 2 ^ 32)
    pure (table, 0)

theorem exists_updateInfotable (table : Region Nat infoTableSize) (lbn : Nat) :
    ∃ after, updateInfotable table lbn = some after := by
  by_cases outside : lbn ≥ infoTableSize
  · exact ⟨(table, 1), by rw [updateInfotable, if_pos outside]⟩
  · obtain ⟨times, found⟩ := table.exists_read (Nat.lt_of_not_le outside)
    refine ⟨(table.set lbn ((times + 1) % 2 ^ 32), 0), ?_⟩
    rw [updateInfotable, if_neg outside]
    simp [found, Region.write_eq_set table _ (Nat.lt_of_not_le outside)]

structure PbiTables where
  mapTable : Region Nat (mapTableSize + 1)
  bitMap : Region Word (bitTableSize / bitWidthInBits + 1)
  infoTable : Region Nat infoTableSize

def nvmPbiSpaceAlloc : PbiTables where
  mapTable := initMaptable mapTableSize
  bitMap := initBitmap bitTableSize
  infoTable := initInfotable infoTableSize

end OsCompiler.Nvmsim
