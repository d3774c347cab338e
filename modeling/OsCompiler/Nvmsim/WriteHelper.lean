/-
The write path of the NVM simulator: `write_helper` counts the accessed pages and
marks and maps every sector of the written range.

One call is described by what it does to the bitmap and the map table on its
sector range; the coherence of the two tables over whole runs follows from that.
-/

import OsCompiler.Lib.Loop
import OsCompiler.Lib.Transition
import OsCompiler.Nvmsim.Tables

namespace OsCompiler.Nvmsim

open OsCompiler.Transition

def allocSector (i : Nat) (tables : PbiTables) : Option PbiTables := do
  let used ← bool i tables.bitMap
  if used = false then
    let bitMap ← setBitmap i tables.bitMap
    let (mapTable, _rtn) ← Nvmsim.mapTable tables.mapTable i (i + 1)
    pure { tables with bitMap := bitMap, mapTable := mapTable }
  else pure tables

/-- One turn of the first loop; a refused index is only reported to the log. -/
def countPage (i : Nat) (tables : PbiTables) : Option PbiTables := do
  let (infoTable, _refused) ← updateInfotable tables.infoTable i
  pure { tables with infoTable := infoTable }

def writeHelper (tables : PbiTables) (sector : BitVec 64) (len : Word) : Option PbiTables := do
  let sectorBegin : Word := sector.setWidth 32
  let sectorEnd : Word := (sector + (len >>> sectorShift).setWidth 64).setWidth 32
  let lbnBegin := sectorBegin >>> mapPerSectorsShift
  let lbnEnd := sectorEnd >>> mapPerSectorsShift
  let tables ← forRange lbnBegin.toNat (lbnEnd.toNat + 1) countPage tables
  forRange sectorBegin.toNat sectorEnd.toNat allocSector tables

/-! ### One sector, one range, one call -/

theorem intOffset_lt_iff {pos : Nat} :
    intOffset pos < bitTableSize / bitWidthInBits + 1 ↔ pos < bitTableSize + 32 := by
  unfold intOffset bitTableSize bitWidthInBits
  omega

/-- What marking and mapping the sectors of `[first, stop)` does to the tables. -/
structure AllocatedRange (before after : PbiTables) (first stop : Nat) : Prop where
  bits : ∀ pos, bool pos after.bitMap =
    if first ≤ pos ∧ pos < stop then some true else bool pos before.bitMap
  entries : ∀ lbn, after.mapTable.read lbn =
    if first ≤ lbn ∧ lbn < stop ∧ lbn ≤ mapTableSize ∧ bool lbn before.bitMap = some false
    then some (lbn + 1) else before.mapTable.read lbn

theorem AllocatedRange.refl {before after : PbiTables} (first : Nat)
    (bitMap : after.bitMap = before.bitMap) (mapTable : after.mapTable = before.mapTable) :
    AllocatedRange before after first first where
  bits pos := by
    rw [if_neg (by omega), bitMap]
  entries lbn := by
    rw [if_neg (by omega), mapTable]

private theorem allocSector_eq_some (tables : PbiTables) {i : Nat}
    (inside : i < bitTableSize + 32) :
    ∃ after, allocSector i tables = some after ∧ AllocatedRange tables after i (i + 1) := by
  have word : intOffset i < bitTableSize / bitWidthInBits + 1 := intOffset_lt_iff.mpr inside
  obtain ⟨used, found⟩ := exists_bool tables.bitMap word
  cases used with
  | true =>
      refine ⟨tables, by simp [allocSector, found], ?_, ?_⟩
      · intro pos
        by_cases here : pos = i
        · subst here
          rw [if_pos ⟨Nat.le_refl pos, Nat.lt_succ_self pos⟩, found]
        · rw [if_neg (by omega)]
      · intro lbn
        by_cases here : lbn = i
        · subst here
          rw [if_neg (by rw [found]; simp)]
        · rw [if_neg (by omega)]
  | false =>
      obtain ⟨bitMap, marked, bits⟩ := setBitmap_eq_some tables.bitMap word
      have bitsAfter : ∀ pos, bool pos bitMap =
          if i ≤ pos ∧ pos < i + 1 then some true else bool pos tables.bitMap := by
        intro pos
        rw [bits pos]
        by_cases here : pos = i
        · rw [if_pos here, if_pos (by omega)]
        · rw [if_neg here, if_neg (by omega)]
      by_cases mappable : i ≤ mapTableSize
      · obtain ⟨rawPbn, mapped⟩ := mapTable_eq_some tables.mapTable (i + 1)
          (Nat.lt_succ_of_le mappable) mappable
        refine ⟨{ tables with bitMap := bitMap, mapTable := tables.mapTable.set i (i + 1) },
          by simp [allocSector, found, marked, mapped], bitsAfter, ?_⟩
        intro lbn
        by_cases here : lbn = i
        · subst here
          rw [if_pos ⟨Nat.le_refl lbn, Nat.lt_succ_self lbn, mappable, found⟩]
          exact Region.read_set_self _ _ (Nat.lt_succ_of_le mappable)
        · rw [if_neg (by omega)]
          exact Region.read_set_ne _ _ here
      · have refused := mapTable_refused tables.mapTable (i + 1) (Nat.lt_of_not_le mappable)
        refine ⟨{ tables with bitMap := bitMap },
          by simp [allocSector, found, marked, refused], bitsAfter, ?_⟩
        intro lbn
        rw [if_neg (by omega)]

theorem AllocatedRange.snoc {before middle after : PbiTables} {first stop : Nat}
    (ordered : first ≤ stop) (earlier : AllocatedRange before middle first stop)
    (last : AllocatedRange middle after stop (stop + 1)) :
    AllocatedRange before after first (stop + 1) where
  bits pos := by
    rw [last.bits pos, earlier.bits pos]
    by_cases here : pos = stop
    · rw [if_pos (by omega), if_pos (by omega)]
    · rw [if_neg (by omega)]
      by_cases covered : first ≤ pos ∧ pos < stop
      · rw [if_pos covered, if_pos (by omega)]
      · rw [if_neg covered, if_neg (by omega)]
  entries lbn := by
    rw [last.entries lbn, earlier.entries lbn, earlier.bits lbn]
    by_cases here : lbn = stop
    · simp only [here, if_false, Nat.le_refl, Nat.lt_irrefl, Nat.lt_succ_self, ordered,
        true_and, and_false, false_and]
    · have apart : ¬ (stop ≤ lbn ∧ lbn < stop + 1 ∧ lbn ≤ mapTableSize ∧
          (if first ≤ lbn ∧ lbn < stop then some true else bool lbn before.bitMap) =
            some false) := by
        omega
      rw [if_neg apart]
      have sameRange : (first ≤ lbn ∧ lbn < stop + 1) ↔ (first ≤ lbn ∧ lbn < stop) := by omega
      simp only [← and_assoc, sameRange]

theorem allocSectors_eq_some (tables : PbiTables) {first stop : Nat} (ordered : first ≤ stop)
    (inside : stop ≤ bitTableSize + 32) :
    ∃ after, forRange first stop allocSector tables = some after ∧
      AllocatedRange tables after first stop := by
  apply forRange_progress (fun index after => AllocatedRange tables after first index)
    ordered (AllocatedRange.refl first rfl rfl)
  intro index middle lower upper earlier
  obtain ⟨after, moved, last⟩ := allocSector_eq_some middle (i := index) (by omega)
  exact ⟨after, moved, earlier.snoc lower last⟩

/-- A sector past the last bitmap word is looked up outside the bitmap. -/
theorem allocSectors_eq_none (tables : PbiTables) {first stop : Nat} (nonempty : first < stop)
    (outside : bitTableSize + 32 < stop) :
    forRange first stop allocSector tables = none := by
  apply forRange_eq_none (stop - 1) (by omega) (by omega)
  intro state
  have word : bitTableSize / bitWidthInBits + 1 ≤ intOffset (stop - 1) := by
    have beyond : ¬ stop - 1 < bitTableSize + 32 := by omega
    exact Nat.le_of_not_lt (fun below => beyond (intOffset_lt_iff.mp below))
  simp [allocSector, bool_eq_none state.bitMap word]

/-- Counting an access never leaves the tables and only touches the information table. -/
theorem countPage_eq_some (page : Nat) (tables : PbiTables) :
    ∃ after, countPage page tables = some after ∧
      after.bitMap = tables.bitMap ∧ after.mapTable = tables.mapTable := by
  rcases exists_updateInfotable tables.infoTable page with ⟨⟨infoTable, refused⟩, counted⟩
  exact ⟨{ tables with infoTable := infoTable }, by simp [countPage, counted], rfl, rfl⟩

/-- So does a loop that counts one access in each turn. -/
theorem countPages_eq_some (tables : PbiTables) {body : Nat → PbiTables → Option PbiTables}
    (counts : ∀ i middle, ∃ after, body i middle = some after ∧
      after.bitMap = middle.bitMap ∧ after.mapTable = middle.mapTable) (first stop : Nat) :
    ∃ after, forRange first stop body tables = some after ∧
      after.bitMap = tables.bitMap ∧ after.mapTable = tables.mapTable := by
  by_cases ordered : first ≤ stop
  · apply forRange_progress
      (fun _ (after : PbiTables) =>
        after.bitMap = tables.bitMap ∧ after.mapTable = tables.mapTable)
      ordered ⟨rfl, rfl⟩
    intro i middle _ _ same
    rcases counts i middle with ⟨after, counted, bitMap, mapTable⟩
    exact ⟨after, counted, bitMap.trans same.1, mapTable.trans same.2⟩
  · exact ⟨tables, forRange_empty (by omega), rfl, rfl⟩

def lenSectors (len : Word) : Nat := len.toNat / 512

theorem len_shift_toNat (len : Word) :
    ((len >>> sectorShift).setWidth 64).toNat = lenSectors len := by
  have small := len.isLt
  simp only [sectorShift, lenSectors, BitVec.toNat_setWidth, BitVec.toNat_ushiftRight,
    Nat.shiftRight_eq_div_pow]
  omega

theorem sectorEnd_toNat (sector : BitVec 64) (len : Word)
    (small : sector.toNat + lenSectors len < 2 ^ 32) :
    ((sector + (len >>> sectorShift).setWidth 64).setWidth 32 : Word).toNat =
      sector.toNat + lenSectors len := by
  rw [BitVec.toNat_setWidth, BitVec.toNat_add, len_shift_toNat]
  omega

theorem sectorBegin_toNat (sector : BitVec 64) (small : sector.toNat < 2 ^ 32) :
    (sector.setWidth 32 : Word).toNat = sector.toNat := by
  rw [BitVec.toNat_setWidth]
  omega

private theorem sectorEnd_empty (sector : BitVec 64) (len : Word) (empty : lenSectors len = 0) :
    (sector + (len >>> sectorShift).setWidth 64).setWidth 32 = (sector.setWidth 32 : Word) := by
  have zero : (len >>> sectorShift).setWidth 64 = 0#64 := by
    apply BitVec.eq_of_toNat_eq
    rw [len_shift_toNat, empty]
    rfl
  rw [zero, BitVec.add_zero]

/-- A call whose range stays within the bitmap's words allocates exactly its range. -/
theorem writeHelper_eq_some (tables : PbiTables) (sector : BitVec 64) (len : Word)
    (inside : lenSectors len = 0 ∨ sector.toNat + lenSectors len ≤ bitTableSize + 32) :
    ∃ after, writeHelper tables sector len = some after ∧
      AllocatedRange tables after sector.toNat (sector.toNat + lenSectors len) := by
  obtain ⟨counted, countedRun, sameBits, sameEntries⟩ := countPages_eq_some tables countPage_eq_some
    ((sector.setWidth 32 : Word) >>> mapPerSectorsShift).toNat
    ((((sector + (len >>> sectorShift).setWidth 64).setWidth 32 : Word)
      >>> mapPerSectorsShift).toNat + 1)
  have unfolded : writeHelper tables sector len =
      forRange (sector.setWidth 32 : Word).toNat
        ((sector + (len >>> sectorShift).setWidth 64).setWidth 32 : Word).toNat
        allocSector counted := by
    simp only [writeHelper, countedRun, Option.bind_eq_bind, Option.bind_some]
  rw [unfolded]
  by_cases empty : lenSectors len = 0
  · rw [sectorEnd_empty sector len empty, empty, Nat.add_zero]
    exact ⟨counted, forRange_empty (Nat.le_refl _),
      AllocatedRange.refl sector.toNat sameBits sameEntries⟩
  · have bound : sector.toNat + lenSectors len ≤ bitTableSize + 32 := inside.resolve_left empty
    have small : sector.toNat + lenSectors len < 2 ^ 32 := by
      unfold bitTableSize at bound
      omega
    rw [sectorEnd_toNat sector len small, sectorBegin_toNat sector (by omega)]
    obtain ⟨after, allocated, range⟩ := allocSectors_eq_some counted
      (by omega : sector.toNat ≤ sector.toNat + lenSectors len) bound
    refine ⟨after, allocated, ?_, ?_⟩
    · intro pos
      rw [range.bits pos, sameBits]
    · intro lbn
      rw [range.entries lbn, sameBits, sameEntries]

/-- A call with a sector past the bitmap's last word leaves the tables. -/
theorem writeHelper_eq_none (tables : PbiTables) (sector : BitVec 64) (len : Word)
    (nonempty : 0 < lenSectors len) (small : sector.toNat + lenSectors len < 2 ^ 32)
    (outside : bitTableSize + 32 < sector.toNat + lenSectors len) :
    writeHelper tables sector len = none := by
  obtain ⟨counted, countedRun, _, _⟩ := countPages_eq_some tables countPage_eq_some
    ((sector.setWidth 32 : Word) >>> mapPerSectorsShift).toNat
    ((((sector + (len >>> sectorShift).setWidth 64).setWidth 32 : Word)
      >>> mapPerSectorsShift).toNat + 1)
  simp only [writeHelper, countedRun, Option.bind_eq_bind, Option.bind_some]
  rw [sectorEnd_toNat sector len small, sectorBegin_toNat sector (by omega)]
  exact allocSectors_eq_none counted (by omega) outside

/-! ### Bitmap and map table over whole runs -/

structure WriteCall where
  sector : BitVec 64
  len : Word

def WriteCall.Covers (call : WriteCall) (i : Nat) : Prop :=
  call.sector.toNat ≤ i ∧ i < call.sector.toNat + lenSectors call.len

instance (call : WriteCall) (i : Nat) : Decidable (call.Covers i) :=
  inferInstanceAs (Decidable (_ ∧ _))

def WriteCall.run (tables : PbiTables) (call : WriteCall) : Option PbiTables :=
  writeHelper tables call.sector call.len

/-- A set bit, a mapped block and an earlier write to the sector are one thing. -/
structure Coherent (calls : List WriteCall) (tables : PbiTables) : Prop where
  bits : ∀ i < bitTableSize, bool i tables.bitMap = some (decide (∃ call ∈ calls, call.Covers i))
  entries : ∀ i < bitTableSize, tables.mapTable.read i =
    if ∃ call ∈ calls, call.Covers i then some (i + 1) else some 0

private theorem coherent_nvmPbiSpaceAlloc : Coherent [] nvmPbiSpaceAlloc where
  bits i inside := by
    have zeroed : bool i nvmPbiSpaceAlloc.bitMap = some false := bool_initBitmap inside
    rw [zeroed]
    simp
  entries i inside := by
    have zeroed : nvmPbiSpaceAlloc.mapTable.read i = some 0 :=
      Region.read_fill 0 (Nat.lt_succ_of_lt inside)
    rw [zeroed]
    simp

theorem Coherent.step {calls : List WriteCall} {before after : PbiTables} {call : WriteCall}
    (coherent : Coherent calls before)
    (range : AllocatedRange before after call.sector.toNat
      (call.sector.toNat + lenSectors call.len)) :
    Coherent (calls ++ [call]) after := by
  have covered (i : Nat) : (∃ other ∈ calls ++ [call], other.Covers i) ↔
      (∃ other ∈ calls, other.Covers i) ∨ call.Covers i := by
    simp only [List.mem_append, List.mem_singleton, or_and_right, exists_or, exists_eq_left]
  constructor
  · intro i inside
    rw [range.bits i, coherent.bits i inside]
    by_cases here : call.sector.toNat ≤ i ∧ i < call.sector.toNat + lenSectors call.len
    · have covers : call.Covers i := here
      rw [if_pos here]
      simp [covers]
    · have uncovered : ¬ call.Covers i := here
      rw [if_neg here]
      simp [uncovered]
  · intro i inside
    have mappable : i ≤ mapTableSize := Nat.le_of_lt inside
    rw [range.entries i, coherent.bits i inside, coherent.entries i inside]
    by_cases earlier : ∃ other ∈ calls, other.Covers i
    · rw [if_neg (by simp [earlier]), if_pos earlier, if_pos ((covered i).mpr (Or.inl earlier))]
    · by_cases here : call.Covers i
      · rw [if_pos ⟨here.1, here.2, mappable, by simp [earlier]⟩,
          if_pos ((covered i).mpr (Or.inr here))]
      · have uncovered : ¬ ∃ other ∈ calls ++ [call], other.Covers i :=
          fun both => ((covered i).mp both).elim earlier here
        rw [if_neg (fun both => here ⟨both.1, both.2.1⟩), if_neg earlier, if_neg uncovered]

private theorem exists_coherent_run (calls : List WriteCall)
    (inTable : ∀ call ∈ calls, ∀ i, call.Covers i → i < bitTableSize) :
    ∃ tables, runAll WriteCall.run nvmPbiSpaceAlloc calls = some tables ∧
      Coherent calls tables := by
  apply runAll_progress Coherent (fun call => ∀ i, call.Covers i → i < bitTableSize) inTable
    coherent_nvmPbiSpaceAlloc
  intro done before call coherent inside
  have bound : lenSectors call.len = 0 ∨
      call.sector.toNat + lenSectors call.len ≤ bitTableSize + 32 := by
    by_cases empty : lenSectors call.len = 0
    · exact Or.inl empty
    · have last := inside (call.sector.toNat + lenSectors call.len - 1)
        ⟨by omega, by omega⟩
      right
      omega
  obtain ⟨after, moved, range⟩ := writeHelper_eq_some before call.sector call.len bound
  exact ⟨after, moved, coherent.step range⟩

/-- From zeroed tables, every sequence of writes inside the device keeps bitmap and
map table in step: a bit is set exactly for the sectors written so far, exactly these
are mapped, each to its own number plus 1, and so no two share a physical block. -/
theorem writeHelper_tables_coherent (calls : List WriteCall)
    (inTable : ∀ call ∈ calls, ∀ i, call.Covers i → i < bitTableSize) :
    ∃ tables, runAll WriteCall.run nvmPbiSpaceAlloc calls = some tables ∧
      (∀ i < bitTableSize,
        bool i tables.bitMap = some (decide (∃ call ∈ calls, call.Covers i))) ∧
      (∀ i < bitTableSize, tables.mapTable.read i =
        some (if bool i tables.bitMap = some true then i + 1 else 0)) ∧
      (∀ left < bitTableSize, ∀ right < bitTableSize, left ≠ right →
        tables.mapTable.read left ≠ some 0 → tables.mapTable.read right ≠ some 0 →
        tables.mapTable.read left ≠ tables.mapTable.read right) := by
  obtain ⟨tables, run, coherent⟩ := exists_coherent_run calls inTable
  have entries : ∀ i < bitTableSize, tables.mapTable.read i =
      some (if bool i tables.bitMap = some true then i + 1 else 0) := by
    intro i inside
    rw [coherent.entries i inside, coherent.bits i inside]
    by_cases written : ∃ call ∈ calls, call.Covers i <;> simp [written]
  refine ⟨tables, run, coherent.bits, entries, ?_⟩
  intro left leftInside right rightInside different leftMapped rightMapped
  rw [entries left leftInside] at leftMapped ⊢
  rw [entries right rightInside] at rightMapped ⊢
  intro shared
  by_cases leftBit : bool left tables.bitMap = some true
  · by_cases rightBit : bool right tables.bitMap = some true
    · rw [if_pos leftBit, if_pos rightBit, Option.some.injEq] at shared
      exact different (Nat.succ.inj shared)
    · exact rightMapped (by rw [if_neg rightBit])
  · exact leftMapped (by rw [if_neg leftBit])

/-- Two overlapping writes of two sectors each. -/
theorem overlapping_writes_coherent :
    ∃ tables, runAll WriteCall.run nvmPbiSpaceAlloc [⟨3, 1024⟩, ⟨4, 1024⟩] = some tables ∧
      tables.mapTable.read 4 = some 5 ∧ tables.mapTable.read 6 = some 0 := by
  obtain ⟨tables, run, bits, entries, _⟩ := writeHelper_tables_coherent [⟨3, 1024⟩, ⟨4, 1024⟩] (by
    intro call member i covers
    simp only [List.mem_cons, List.not_mem_nil, or_false] at member
    rcases member with rfl | rfl <;> exact Nat.lt_of_lt_of_le covers.2 (by decide))
  refine ⟨tables, run, ?_, ?_⟩
  · rw [entries 4 (by decide), bits 4 (by decide)]
    decide
  · rw [entries 6 (by decide), bits 6 (by decide)]
    decide

end OsCompiler.Nvmsim
