/-
Access accounting of the NVM simulator: how often each page of 32 sectors is
counted over a sequence of writes.

`write_helper` counts the pages from the one of its first sector to the one of its
end sector, and the end sector is the first one the write does not touch. A range
that ends on a page edge therefore counts the page behind it as well.
-/

import Mathlib.Algebra.Group.Nat.Defs
import OsCompiler.Nvmsim.WriteHelper

namespace OsCompiler.Nvmsim

open OsCompiler.Transition

/-- The tables together with the number of updates reported to the log as failed. -/
structure LoggedTables where
  tables : PbiTables
  refused : Nat

def countPageLogged (i : Nat) (state : LoggedTables) : Option LoggedTables := do
  let (infoTable, refused) ← updateInfotable state.tables.infoTable i
  pure { tables := { state.tables with infoTable := infoTable }
         refused := state.refused + refused }

def writeHelperLogged (state : LoggedTables) (sector : BitVec 64) (len : Word) :
    Option LoggedTables := do
  let sectorBegin : Word := sector.setWidth 32
  let sectorEnd : Word := (sector + (len >>> sectorShift).setWidth 64).setWidth 32
  let lbnBegin := sectorBegin >>> mapPerSectorsShift
  let lbnEnd := sectorEnd >>> mapPerSectorsShift
  let state ← forRange lbnBegin.toNat (lbnEnd.toNat + 1) countPageLogged state
  let tables ← forRange sectorBegin.toNat sectorEnd.toNat allocSector state.tables
  pure { state with tables := tables }

def WriteCall.runLogged (state : LoggedTables) (call : WriteCall) : Option LoggedTables :=
  writeHelperLogged state call.sector call.len

def zeroedTables : LoggedTables where
  tables := nvmPbiSpaceAlloc
  refused := 0

/-- Keeping the log changes nothing in the tables. -/
theorem writeHelperLogged_tables (state : LoggedTables) (sector : BitVec 64) (len : Word) :
    (writeHelperLogged state sector len).map LoggedTables.tables =
      writeHelper state.tables sector len := by
  have turn : ∀ i (middle : LoggedTables),
      (countPageLogged i middle).map LoggedTables.tables = countPage i middle.tables := by
    intro i middle
    unfold countPageLogged countPage
    cases updateInfotable middle.tables.infoTable i <;> rfl
  unfold writeHelperLogged writeHelper
  simp only [← forRange_map LoggedTables.tables turn]
  cases forRange _ _ countPageLogged state with
  | none => rfl
  | some counted =>
      simp only [Option.bind_eq_bind, Option.bind_some, Option.map_some]
      cases forRange _ _ allocSector counted.tables <;> rfl

/-! ### One call -/

/-- Counting page `i` once: its own counter goes up, or the update is refused. -/
structure CountedRange (before after : LoggedTables) (first stop : Nat) : Prop where
  counters : ∀ page < infoTableSize, after.tables.infoTable.read page =
    if first ≤ page ∧ page < stop
    then (before.tables.infoTable.read page).map (fun times => (times + 1) % 2 ^ 32)
    else before.tables.infoTable.read page
  reported : after.refused =
    before.refused + if first ≤ infoTableSize ∧ infoTableSize < stop then 1 else 0

private theorem countPageLogged_eq_some (state : LoggedTables) {i : Nat}
    (bound : i ≤ infoTableSize) :
    ∃ after, countPageLogged i state = some after ∧ CountedRange state after i (i + 1) := by
  by_cases outside : i ≥ infoTableSize
  · refine ⟨{ state with refused := state.refused + 1 }, ?_, ?_, ?_⟩
    · simp [countPageLogged, updateInfotable, outside]
    · intro page inside
      rw [if_neg (by omega)]
    · rw [if_pos ⟨bound, Nat.lt_succ_of_le outside⟩]
  · have inside : i < infoTableSize := Nat.lt_of_not_le outside
    rcases state.tables.infoTable.exists_read inside with ⟨times, found⟩
    let counted := state.tables.infoTable.set i ((times + 1) % 2 ^ 32)
    refine ⟨{ state with tables := { state.tables with infoTable := counted } }, ?_, ?_, ?_⟩
    · simp [countPageLogged, updateInfotable, Nat.not_le.mpr inside, found,
        Region.write_eq_set _ _ inside, counted]
    · intro page _
      by_cases here : page = i
      · subst here
        rw [if_pos ⟨Nat.le_refl page, Nat.lt_succ_self page⟩, found]
        exact Region.read_set_self _ _ inside
      · rw [if_neg (by omega)]
        exact Region.read_set_ne _ _ here
    · rw [if_neg (by omega), Nat.add_zero]

theorem CountedRange.refl (state : LoggedTables) (first : Nat) :
    CountedRange state state first first where
  counters page _ := by rw [if_neg (by omega)]
  reported := by rw [if_neg (by omega), Nat.add_zero]

theorem CountedRange.snoc {before middle after : LoggedTables} {first stop : Nat}
    (ordered : first ≤ stop) (earlier : CountedRange before middle first stop)
    (last : CountedRange middle after stop (stop + 1)) :
    CountedRange before after first (stop + 1) where
  counters page inside := by
    rw [last.counters page inside, earlier.counters page inside]
    by_cases here : page = stop
    · rw [if_pos (by omega), if_neg (by omega), if_pos (by omega)]
    · rw [if_neg (by omega)]
      by_cases covered : first ≤ page ∧ page < stop
      · rw [if_pos covered, if_pos (by omega)]
      · rw [if_neg covered, if_neg (by omega)]
  reported := by
    rw [last.reported, earlier.reported]
    by_cases here : infoTableSize = stop
    · rw [if_neg (by omega), if_pos (by omega), if_pos (by omega)]
    · rw [if_neg (by omega : ¬ (stop ≤ infoTableSize ∧ infoTableSize < stop + 1))]
      by_cases covered : first ≤ infoTableSize ∧ infoTableSize < stop
      · rw [if_pos covered, if_pos (by omega)]
      · rw [if_neg covered, if_neg (by omega)]

private theorem countPagesLogged_eq_some (state : LoggedTables) {first stop : Nat}
    (ordered : first ≤ stop) (bound : stop ≤ infoTableSize + 1) :
    ∃ after, forRange first stop countPageLogged state = some after ∧
      CountedRange state after first stop := by
  apply forRange_progress (fun index after => CountedRange state after first index)
    ordered (CountedRange.refl state first)
  intro index middle lower upper earlier
  rcases countPageLogged_eq_some middle (i := index) (by omega) with ⟨after, counted, last⟩
  exact ⟨after, counted, earlier.snoc lower last⟩

private theorem allocSector_infoTable {i : Nat} {before after : PbiTables}
    (run : allocSector i before = some after) : after.infoTable = before.infoTable := by
  simp only [allocSector, Option.bind_eq_bind, Option.bind_eq_some_iff] at run
  rcases run with ⟨used, _, rest⟩
  split at rest
  · simp only [Option.bind_eq_some_iff] at rest
    rcases rest with ⟨bitMap, _, mapped, _, finished⟩
    cases finished
    rfl
  · cases rest
    rfl

def WriteCall.endSector (call : WriteCall) : Nat := call.sector.toNat + lenSectors call.len

/-- A length that is a positive multiple of 512 and a range inside the device. -/
structure WriteCall.Proper (call : WriteCall) : Prop where
  positive : 0 < call.len.toNat
  whole : call.len.toNat % 512 = 0
  inside : call.endSector ≤ mapTableSize

theorem WriteCall.Proper.nonempty {call : WriteCall} (proper : call.Proper) :
    0 < lenSectors call.len := by
  have positive := proper.positive
  have whole := proper.whole
  unfold lenSectors
  omega

def infoPageSectors : Nat := 32

/-- The page counts of one call run one page past the last touched sector's page when the
range ends on a page edge. -/
theorem runLogged_eq_some (state : LoggedTables) {call : WriteCall} (proper : call.Proper) :
    ∃ after, call.runLogged state = some after ∧
      CountedRange state after (call.sector.toNat / infoPageSectors)
        (call.endSector / infoPageSectors + 1) := by
  have nonempty := proper.nonempty
  have inside := proper.inside
  unfold WriteCall.endSector mapTableSize at inside
  have pages (number : Word) :
      (number >>> mapPerSectorsShift).toNat = number.toNat / infoPageSectors := by
    simp only [BitVec.toNat_ushiftRight, Nat.shiftRight_eq_div_pow, mapPerSectorsShift,
      infoPageSectors]
  have ends := sectorEnd_toNat call.sector call.len (by omega)
  have begins := sectorBegin_toNat call.sector (by omega)
  have ordered : call.sector.toNat / infoPageSectors ≤ call.endSector / infoPageSectors + 1 := by
    unfold WriteCall.endSector infoPageSectors
    omega
  have bound : call.endSector / infoPageSectors + 1 ≤ infoTableSize + 1 := by
    unfold WriteCall.endSector infoPageSectors infoTableSize
    omega
  rcases countPagesLogged_eq_some state ordered bound with ⟨counted, countedRun, range⟩
  rcases allocSectors_eq_some counted.tables
    (by omega : call.sector.toNat ≤ call.sector.toNat + lenSectors call.len)
    (by unfold bitTableSize; omega) with ⟨tables, allocated, _⟩
  have sameInfo : tables.infoTable = counted.tables.infoTable := by
    apply forRange_invariant (fun middle => middle.infoTable = counted.tables.infoTable)
      allocated rfl
    intro index before after same moved
    rw [allocSector_infoTable moved, same]
  refine ⟨{ counted with tables := tables }, ?_, ?_, range.reported⟩
  · unfold WriteCall.runLogged writeHelperLogged
    simp only [pages, ends, begins]
    unfold WriteCall.endSector at countedRun
    simp only [countedRun, Option.bind_eq_bind, Option.bind_some, allocated]
    rfl
  · intro page below
    simp only [sameInfo]
    exact range.counters page below

/-! ### Whole runs -/

def WriteCall.Touches (call : WriteCall) (page : Nat) : Prop :=
  ∃ i, call.Covers i ∧ i / infoPageSectors = page

theorem WriteCall.touches_iff (call : WriteCall) (page : Nat) :
    call.Touches page ↔
      call.sector.toNat < call.endSector ∧ call.sector.toNat / infoPageSectors ≤ page ∧
        page ≤ (call.endSector - 1) / infoPageSectors := by
  unfold WriteCall.Touches WriteCall.Covers WriteCall.endSector infoPageSectors
  constructor
  · intro touched
    rcases touched with ⟨i, covers, same⟩
    omega
  · intro range
    by_cases begins : call.sector.toNat / 32 = page
    · exact ⟨call.sector.toNat, ⟨Nat.le_refl _, by omega⟩, begins⟩
    · exact ⟨32 * page, ⟨by omega, by omega⟩, by omega⟩

instance (call : WriteCall) (page : Nat) : Decidable (call.Touches page) :=
  decidable_of_iff _ (call.touches_iff page).symm

/-- The exact counts: one for each write that touches the page, none refused. -/
structure Accounted (calls : List WriteCall) (state : LoggedTables) : Prop where
  counters : ∀ page < infoTableSize, state.tables.infoTable.read page =
    some (calls.countP (fun call => call.Touches page) % 2 ^ 32)
  accepted : state.refused = 0

def EndsAtPage (page : Nat) (call : WriteCall) : Prop :=
  call.endSector = page * infoPageSectors

instance (page : Nat) (call : WriteCall) : Decidable (EndsAtPage page call) :=
  inferInstanceAs (Decidable (_ = _))

/-- What the code counts instead: the writes that end at the page's edge as well. -/
structure EdgeAccounted (calls : List WriteCall) (state : LoggedTables) : Prop where
  counters : ∀ page < infoTableSize, state.tables.infoTable.read page =
    some ((calls.countP (fun call => call.Touches page) +
      calls.countP (fun call => EndsAtPage page call)) % 2 ^ 32)
  reported : state.refused = calls.countP (fun call => EndsAtPage infoTableSize call)

private theorem edgeAccounted_zeroedTables : EdgeAccounted [] zeroedTables where
  counters page inside := by
    have zeroed : zeroedTables.tables.infoTable.read page = some 0 := Region.read_fill 0 inside
    rw [zeroed]
    rfl
  reported := rfl

theorem WriteCall.Proper.counted_iff {call : WriteCall} (proper : call.Proper) (page : Nat) :
    (call.sector.toNat / infoPageSectors ≤ page ∧
      page < call.endSector / infoPageSectors + 1) ↔
        call.Touches page ∨ EndsAtPage page call := by
  have nonempty := proper.nonempty
  rw [call.touches_iff]
  unfold EndsAtPage WriteCall.endSector infoPageSectors
  omega

theorem WriteCall.not_touches_of_endsAtPage {call : WriteCall} {page : Nat}
    (ends : EndsAtPage page call) : ¬ call.Touches page := by
  unfold EndsAtPage infoPageSectors at ends
  rw [call.touches_iff]
  unfold infoPageSectors
  omega

theorem EdgeAccounted.step {calls : List WriteCall} {before after : LoggedTables}
    {call : WriteCall} (accounted : EdgeAccounted calls before) (proper : call.Proper)
    (range : CountedRange before after (call.sector.toNat / infoPageSectors)
      (call.endSector / infoPageSectors + 1)) :
    EdgeAccounted (calls ++ [call]) after where
  counters page inside := by
    rw [range.counters page inside, accounted.counters page inside]
    simp only [proper.counted_iff page, List.countP_append, List.countP_singleton,
      decide_eq_true_eq]
    by_cases ends : EndsAtPage page call
    · have apart := WriteCall.not_touches_of_endsAtPage ends
      simp only [ends, apart, or_true, if_true, if_false, Option.map_some, Option.some.injEq]
      omega
    · by_cases touches : call.Touches page
      · simp only [ends, touches, or_false, if_true, if_false, Option.map_some,
          Option.some.injEq]
        omega
      · simp only [ends, touches, or_false, if_false, Nat.add_zero]
  reported := by
    have untouched : ¬ call.Touches infoTableSize := by
      have inside := proper.inside
      unfold mapTableSize at inside
      rw [call.touches_iff]
      unfold infoTableSize infoPageSectors
      omega
    rw [range.reported, accounted.reported]
    simp only [proper.counted_iff infoTableSize, untouched, false_or, List.countP_append,
      List.countP_singleton, decide_eq_true_eq]

/-- Every sequence of proper writes runs and counts the edges it ends at as touched. -/
theorem exists_edgeAccounted_run (calls : List WriteCall) (proper : ∀ call ∈ calls, call.Proper) :
    ∃ state, runAll WriteCall.runLogged zeroedTables calls = some state ∧
      EdgeAccounted calls state := by
  apply runAll_progress EdgeAccounted WriteCall.Proper proper edgeAccounted_zeroedTables
  intro done before call accounted isProper
  rcases runLogged_eq_some before isProper with ⟨after, moved, range⟩
  exact ⟨after, moved, accounted.step isProper range⟩

def CountedExactly (calls : List WriteCall) : Prop :=
  ∃ state, runAll WriteCall.runLogged zeroedTables calls = some state ∧ Accounted calls state

theorem countedExactly_iff_edges (calls : List WriteCall) (proper : ∀ call ∈ calls, call.Proper) :
    CountedExactly calls ↔
      (∀ page < infoTableSize, calls.countP (fun call => EndsAtPage page call) % 2 ^ 32 = 0) ∧
        calls.countP (fun call => EndsAtPage infoTableSize call) = 0 := by
  rcases exists_edgeAccounted_run calls proper with ⟨state, run, edges⟩
  have counted : CountedExactly calls ↔ Accounted calls state := by
    constructor
    · intro exactly
      rcases exactly with ⟨other, reached, accounted⟩
      rw [run, Option.some.injEq] at reached
      exact reached ▸ accounted
    · intro accounted
      exact ⟨state, run, accounted⟩
  rw [counted]
  constructor
  · intro accounted
    constructor
    · intro page inside
      have same := accounted.counters page inside
      rw [edges.counters page inside, Option.some.injEq] at same
      omega
    · exact edges.reported.symm.trans accounted.accepted
  · intro none
    rcases none with ⟨onEdges, atEnd⟩
    constructor
    · intro page inside
      have zero := onEdges page inside
      rw [edges.counters page inside, Option.some.injEq]
      omega
    · exact edges.reported.trans atEnd

/-- From zeroed counters, a sequence of writes is counted exactly after each of its calls
if and only if none of its ranges ends on the edge of a page. -/
theorem countedExactly_throughout_iff (calls : List WriteCall)
    (proper : ∀ call ∈ calls, call.Proper) :
    (∀ done rest, calls = done ++ rest → CountedExactly done) ↔
      ∀ call ∈ calls, call.endSector % infoPageSectors ≠ 0 := by
  constructor
  · intro throughout call member onEdge
    rcases List.append_of_mem member with ⟨done, rest, split⟩
    have properBefore : ∀ other ∈ done, other.Proper := by
      intro other earlier
      exact proper other (by rw [split]; exact List.mem_append_left _ earlier)
    have properAfter : ∀ other ∈ done ++ [call], other.Proper := by
      intro other earlier
      rcases List.mem_append.mp earlier with before | last
      · exact properBefore other before
      · rw [List.mem_singleton.mp last]
        exact proper call member
    have before := (countedExactly_iff_edges done properBefore).mp
      (throughout done (call :: rest) split)
    have after := (countedExactly_iff_edges (done ++ [call]) properAfter).mp
      (throughout (done ++ [call]) rest (by rw [split]; simp))
    simp only [List.countP_append, List.countP_singleton, decide_eq_true_eq] at after
    -- The page behind the range is counted once more by this call than it was touched.
    have ends : EndsAtPage (call.endSector / infoPageSectors) call := by
      unfold EndsAtPage
      unfold infoPageSectors at onEdge ⊢
      omega
    have inside := (proper call member).inside
    by_cases last : call.endSector / infoPageSectors = infoTableSize
    · rw [last] at ends
      have grown := after.2
      simp only [ends, if_true] at grown
      omega
    · have page : call.endSector / infoPageSectors < infoTableSize := by
        unfold infoPageSectors infoTableSize at last ⊢
        unfold mapTableSize at inside
        omega
      have grown := after.1 _ page
      have same := before.1 _ page
      simp only [ends, if_true] at grown
      omega
  · intro inner done rest split
    have properDone : ∀ call ∈ done, call.Proper := by
      intro call member
      exact proper call (by rw [split]; exact List.mem_append_left _ member)
    have noEdge : ∀ page, done.countP (fun call => EndsAtPage page call) = 0 := by
      intro page
      apply List.countP_eq_zero.mpr
      intro call member ends
      have edge : EndsAtPage page call := of_decide_eq_true ends
      apply inner call (by rw [split]; exact List.mem_append_left _ member)
      unfold EndsAtPage at edge
      rw [edge]
      exact Nat.mul_mod_left page infoPageSectors
    apply (countedExactly_iff_edges done properDone).mpr
    constructor
    · intro page _
      rw [noEdge page, Nat.zero_mod]
    · exact noEdge infoTableSize

/-- A write of the sectors 3 to 6 and one of sector 40 stay inside their pages. -/
theorem inner_writes_counted : CountedExactly [⟨3, 2048⟩, ⟨40, 512⟩] := by
  have proper : ∀ call ∈ ([⟨3, 2048⟩, ⟨40, 512⟩] : List WriteCall), call.Proper := by
    intro call member
    simp only [List.mem_cons, List.not_mem_nil, or_false] at member
    rcases member with rfl | rfl <;> constructor <;> decide
  apply (countedExactly_throughout_iff _ proper).mpr _ _ [] (by rfl)
  intro call member
  simp only [List.mem_cons, List.not_mem_nil, or_false] at member
  rcases member with rfl | rfl <;> decide

/-- One write of exactly the first page: page 1 is counted without being touched. -/
theorem edge_write_miscounted :
    (WriteCall.mk 0 16384).Proper ∧ ¬ CountedExactly [⟨0, 16384⟩] := by
  have proper : (WriteCall.mk 0 16384).Proper := by constructor <;> decide
  refine ⟨proper, ?_⟩
  intro exactly
  have edges := (countedExactly_iff_edges [⟨0, 16384⟩] (by simpa using proper)).mp exactly
  exact absurd (edges.1 1 (by decide)) (by decide)

end OsCompiler.Nvmsim
