/-
Extraction of hot and cold pages: the used pages are gathered in one array and their
access counts in another, the extreme counts are selected, and the selected positions
are translated back into page numbers.

The three functions share their first part and, two of them, the rest as well. The sizes
of the work arrays are computed in 32-bit words, so from 2^30 pages on the arrays are
smaller than the page count.
-/

import OsCompiler.Nvmsim.BitmapCount
import OsCompiler.Nvmsim.Syncer

namespace OsCompiler.Nvmsim

/-- Which of the arrays the kernel grants. -/
structure ExtractGrants where
  barray : Bool
  marray : Bool
  bigK : KGrants
  smallK : KGrants
  rarray : Bool
  parray : Bool

def ExtractGrants.all : ExtractGrants := ⟨true, true, ⟨true, true⟩, ⟨true, true⟩, true, true⟩

theorem ExtractGrants.all_work : all.barray = true ∧ all.marray = true := ⟨rfl, rfl⟩

abbrev WordArray := (words : Nat) × Region Nat words

/-- The two work arrays with the sum of the counts and the number of pages. -/
structure Compaction (words : Nat) where
  barray : Region Nat words
  marray : Region Nat words
  avg : Nat
  j : Nat

section Functions

variable {bits entries words size : Nat}

def compactPage (bitmap : Region Word bits) (infotable : Region Nat entries) (i : Nat)
    (work : Compaction words) : Option (Compaction words) := do
  let word ← bitmap.read i
  if word ≠ 0#32 then
    let barray ← work.barray.write work.j i
    let page ← barray.read work.j
    let count ← infotable.read page
    let marray ← work.marray.write work.j count
    let added ← marray.read work.j
    pure
      { barray := barray, marray := marray, avg := (work.avg + added) % 2 ^ 32,
        j := (work.j + 1) % 2 ^ 32 }
  else pure work

def workWords (pageCount : Word) : Nat := wordBytes * pageCount.toNat % 2 ^ 32 / wordBytes

/-- Up to the check of the page count; the inner `none` is the jump to `err`. -/
def compactPages (granted : ExtractGrants) (bitmap : Region Word bits)
    (infotable : Region Nat entries) (pageCount n : Word) :
    Option (Option (Compaction (workWords pageCount))) :=
  match autoMalloc granted.barray (wordBytes * pageCount.toNat),
    autoMalloc granted.marray (wordBytes * pageCount.toNat) with
  | some barray, some marray => do
      let work ← forRange 0 n.toNat (compactPage bitmap infotable)
        { barray := barray, marray := marray, avg := 0, j := 0 }
      if work.j ≠ pageCount.toNat then pure none else pure (some work)
  | _, _ => some none

def translate (barray : Region Nat words) (positions : Region Nat size) (i : Nat)
    (pages : Region Nat size) : Option (Region Nat size) := do
  let position ← positions.read i
  let page ← barray.read position
  pages.write i page

/-- A failed allocation of an output array is not checked: its first use is a fault. -/
def extractBigSmall (granted : ExtractGrants) (bitmap : Option (Region Word bits))
    (infotable : Option (Region Nat entries)) (pageCount n k : Word)
    (bigArr smallArr : Option WordArray) : Option (Nat × Option WordArray × Option WordArray) :=
  match infotable, bitmap with
  | some infotable, some bitmap => do
      match ← compactPages granted bitmap infotable pageCount n with
      | none => pure (0, bigArr, smallArr)
      | some work =>
          let earray ← bigKIndex granted.bigK (some work.marray) pageCount.toNat k.toNat
          let farray ← smallKIndex granted.smallK (some work.marray) pageCount.toNat k.toNat
          match earray, farray with
          | some earray, some farray =>
              let rarray ← autoMalloc granted.rarray (wordBytes * k.toNat)
              let parray ← autoMalloc granted.parray (wordBytes * k.toNat)
              let (rarray, parray) ← forRange 0 k.toNat (fun i (rarray, parray) => do
                let rarray ← translate work.barray earray i rarray
                let parray ← translate work.barray farray i parray
                pure (rarray, parray)) (rarray, parray)
              pure (work.avg / pageCount.toNat, some ⟨_, rarray⟩, some ⟨_, parray⟩)
          | _, _ => pure (0, bigArr, smallArr)
  | _, _ => some (0, bigArr, smallArr)

def extractExtreme (beyond : Nat → Nat → Prop) [DecidableRel beyond] (granted : ExtractGrants)
    (kGranted : KGrants) (bitmap : Region Word bits) (infotable : Region Nat entries)
    (pageCount n k : Word) (arr : Option WordArray) : Option (Nat × Option WordArray) := do
  match ← compactPages granted bitmap infotable pageCount n with
  | none => pure (0, arr)
  | some work =>
      match ← kIndex beyond kGranted (some work.marray) pageCount.toNat k.toNat with
      | none => pure (0, arr)
      | some earray =>
          let rarray ← autoMalloc granted.rarray (wordBytes * k.toNat)
          let rarray ← forRange 0 k.toNat (translate work.barray earray) rarray
          pure (work.avg / pageCount.toNat, some ⟨_, rarray⟩)

def extractSmall (granted : ExtractGrants) (bitmap : Option (Region Word bits))
    (infotable : Option (Region Nat entries)) (pageCount n k : Word) (arr : Option WordArray) :
    Option (Nat × Option WordArray) :=
  match infotable, bitmap with
  | some infotable, some bitmap =>
      extractExtreme (· > ·) granted granted.smallK bitmap infotable pageCount n k arr
  | _, _ => some (0, arr)

/-- This one counts the used pages itself. -/
def extractBig (granted : ExtractGrants) (bitmap : Option (Region Word bits))
    (infotable : Option (Region Nat entries)) (n k : Word) (arr : Option WordArray) :
    Option (Nat × Option WordArray) :=
  match infotable, bitmap with
  | some infotable, some bitmap => do
      let pageCount ← Nvmsim.pageCount (some bitmap) n
      extractExtreme (· < ·) granted granted.bigK bitmap infotable pageCount n k arr
  | _, _ => some (0, arr)

end Functions

/-! ### The used pages -/

section Used

variable {bits entries : Nat}

def usedPages (bitmap : Region Word bits) (n : Nat) : List Nat :=
  (List.range n).filter fun i => bitmap.contents i ≠ 0#32

def totalCount (infotable : Region Nat entries) (pages : List Nat) : Nat :=
  pages.foldl (fun total page => total + infotable.contents page) 0

theorem mem_usedPages {bitmap : Region Word bits} {n page : Nat} :
    page ∈ usedPages bitmap n ↔ page < n ∧ bitmap.contents page ≠ 0#32 := by
  simp [usedPages]

private theorem usedPages_nodup (bitmap : Region Word bits) (n : Nat) :
    (usedPages bitmap n).Nodup :=
  List.nodup_range.filter _

theorem usedPages_succ (bitmap : Region Word bits) (i : Nat) :
    usedPages bitmap (i + 1) =
      if bitmap.contents i = 0#32 then usedPages bitmap i else usedPages bitmap i ++ [i] := by
  rw [usedPages, List.range_succ, List.filter_append]
  by_cases unused : bitmap.contents i = 0#32
  · rw [if_pos unused]
    simp [usedPages, unused]
  · rw [if_neg unused]
    simp [usedPages, unused]

theorem usedPages_length (bitmap : Region Word bits) (n : Nat) :
    (usedPages bitmap n).length = Nat.count (WordUsed bitmap) n := by
  induction n with
  | zero => rfl
  | succ i ih =>
      have used : bitmap.contents i ≠ 0#32 ↔ WordUsed bitmap i := wordUsed_iff_getD bitmap i
      rw [usedPages_succ, Nat.count_succ, ← ih]
      by_cases unused : bitmap.contents i = 0#32
      · rw [if_pos unused, if_neg fun set => used.mpr set unused, Nat.add_zero]
      · rw [if_neg unused, if_pos (used.mp unused), List.length_append, List.length_singleton]

private theorem usedPages_length_le (bitmap : Region Word bits) (n : Nat) :
    (usedPages bitmap n).length ≤ n :=
  usedPages_length bitmap n ▸ Nat.count_le _

private theorem usedPages_length_mono (bitmap : Region Word bits) {i n : Nat} (ordered : i ≤ n) :
    (usedPages bitmap i).length ≤ (usedPages bitmap n).length := by
  rw [usedPages_length, usedPages_length]
  exact Nat.count_monotone _ ordered

theorem pageCount_eq_usedPages {bitmap : Region Word bits} {n pages : Word}
    (covered : n.toNat ≤ bits) (counted : pageCount (some bitmap) n = some pages) :
    pages.toNat = (usedPages bitmap n.toNat).length := by
  rcases pageCount_eq bitmap covered with ⟨total, run, exact⟩
  rw [run, Option.some.injEq] at counted
  rw [← counted, exact, usedPages_length]

theorem totalCount_append (infotable : Region Nat entries) (pages : List Nat) (page : Nat) :
    totalCount infotable (pages ++ [page]) =
      totalCount infotable pages + infotable.contents page := by
  rw [totalCount, List.foldl_append]
  rfl

end Used

/-! ### The compaction -/

section Compact

variable {bits entries words : Nat} {bitmap : Region Word bits} {infotable : Region Nat entries}

/-- The work arrays hold these pages and their counts. -/
structure Compaction.Holds (infotable : Region Nat entries) (pages : List Nat)
    (work : Compaction words) : Prop where
  j : work.j = pages.length
  room : pages.length ≤ words
  barray : work.barray.StartsWith pages
  marray : work.marray.StartsWith (pages.map infotable.contents)
  avg : work.avg = totalCount infotable pages % 2 ^ 32

private theorem compactPage_unused (work : Compaction words) {i : Nat} (inside : i < bits)
    (unused : bitmap.contents i = 0#32) : compactPage bitmap infotable i work = some work := by
  rw [compactPage, bitmap.read_eq_contents inside, unused]
  rfl

private theorem compactPage_used {work : Compaction words} {pages : List Nat} {i : Nat}
    (holds : work.Holds infotable pages) (inside : i < bits) (listed : i < entries)
    (used : bitmap.contents i ≠ 0#32) (room : pages.length < words)
    (small : pages.length + 1 < 2 ^ 32) :
    ∃ next, compactPage bitmap infotable i work = some next ∧
      next.Holds infotable (pages ++ [i]) := by
  have slot : work.j < words := holds.j ▸ room
  refine ⟨⟨work.barray.set work.j i, work.marray.set work.j (infotable.contents i),
    (work.avg + infotable.contents i) % 2 ^ 32, (work.j + 1) % 2 ^ 32⟩, ?_, ?_, ?_, ?_, ?_, ?_⟩
  · simp [compactPage, bitmap.read_eq_contents inside, used, Region.write_eq_set _ _ slot,
      Region.read_set_self _ _ slot, infotable.read_eq_contents listed]
  · rw [holds.j, List.length_append, List.length_singleton]
    exact Nat.mod_eq_of_lt small
  · rw [List.length_append, List.length_singleton]
    exact room
  · rw [holds.j]
    exact holds.barray.set room i
  · have counts : (pages.map infotable.contents).length = work.j := by rw [List.length_map, holds.j]
    rw [← counts, List.map_append]
    exact holds.marray.set (counts ▸ slot) _
  · rw [totalCount_append, holds.avg, Nat.mod_add_mod]

/-- A page beyond the allocated words is written outside the array. -/
theorem compactPage_full {work : Compaction words} {pages : List Nat} {i : Nat}
    (holds : work.Holds infotable pages) (inside : i < bits) (used : bitmap.contents i ≠ 0#32)
    (full : words ≤ pages.length) : compactPage bitmap infotable i work = none := by
  simp [compactPage, bitmap.read_eq_contents inside, used,
    work.barray.write_eq_none i (holds.j ▸ full)]

/-- The loop succeeds exactly when the used pages fit the arrays. -/
theorem compactLoop_eq_some (barray marray : Region Nat words) {n : Nat} (small : n < 2 ^ 32)
    (covered : n ≤ bits) (listed : n ≤ entries) (room : (usedPages bitmap n).length ≤ words) :
    ∃ work, forRange 0 n (compactPage bitmap infotable) ⟨barray, marray, 0, 0⟩ = some work ∧
      work.Holds infotable (usedPages bitmap n) := by
  apply forRange_progress (fun i (work : Compaction words) =>
    work.Holds infotable (usedPages bitmap i)) (Nat.zero_le n)
  · exact ⟨rfl, Nat.zero_le words, Region.startsWith_nil _, Region.startsWith_nil _, rfl⟩
  · intro i work _ below holds
    have grown := usedPages_length_mono bitmap below
    rw [usedPages_succ] at grown ⊢
    by_cases unused : bitmap.contents i = 0#32
    · rw [if_pos unused] at grown ⊢
      exact ⟨work, compactPage_unused work (by omega) unused, holds⟩
    · rw [if_neg unused] at grown ⊢
      rw [List.length_append, List.length_singleton] at grown
      have few := usedPages_length_le bitmap i
      exact compactPage_used holds (by omega) (by omega) unused (by omega) (by omega)

private theorem compactLoop_eq_none (barray marray : Region Nat words) {n : Nat}
    (small : n < 2 ^ 32)
    (covered : n ≤ bits) (listed : n ≤ entries) (short : words < (usedPages bitmap n).length) :
    forRange 0 n (compactPage bitmap infotable) ⟨barray, marray, 0, 0⟩ = none := by
  cases run : forRange 0 n (compactPage bitmap infotable) ⟨barray, marray, 0, 0⟩ with
  | none => rfl
  | some work =>
      refine absurd ?_ (Nat.not_le_of_lt short)
      have final : work.Holds infotable (usedPages bitmap n) := by
        refine forRange_indexed (fun i (work : Compaction words) =>
          work.Holds infotable (usedPages bitmap i)) (Nat.zero_le n) ?_ ?_ run
        · exact ⟨rfl, Nat.zero_le words, Region.startsWith_nil _, Region.startsWith_nil _, rfl⟩
        · intro i before after _ below holds turn
          rw [usedPages_succ]
          by_cases unused : bitmap.contents i = 0#32
          · rw [compactPage_unused before (by omega) unused, Option.some.injEq] at turn
            rw [if_pos unused, ← turn]
            exact holds
          · rw [if_neg unused]
            by_cases full : words ≤ (usedPages bitmap i).length
            · rw [compactPage_full holds (by omega) unused full] at turn
              cases turn
            · have few := usedPages_length_le bitmap i
              rcases compactPage_used holds (by omega) (by omega) unused (by omega) (by omega) with
                ⟨next, moved, kept⟩
              rw [turn, Option.some.injEq] at moved
              rw [moved]
              exact kept
      exact final.room

theorem workWords_eq_mod (pageCount : Word) : workWords pageCount = pageCount.toNat % 2 ^ 30 := by
  unfold workWords wordBytes
  omega

variable {granted : ExtractGrants} {pageCount n : Word}

theorem compactPages_refused (unavailable : ¬ (granted.barray = true ∧ granted.marray = true)) :
    compactPages granted bitmap infotable pageCount n = some none := by
  unfold compactPages autoMalloc
  cases barray : granted.barray <;> cases marray : granted.marray <;> simp_all

private theorem compactPages_granted (available : granted.barray = true ∧ granted.marray = true) :
    compactPages granted bitmap infotable pageCount n =
      (forRange 0 n.toNat (compactPage bitmap infotable)
        ⟨Region.fill (workWords pageCount) 0, Region.fill _ 0, 0, 0⟩).bind fun work =>
          if work.j ≠ pageCount.toNat then some none else some (some work) := by
  unfold compactPages
  rw [available.1, available.2]
  rfl

theorem compactPages_overflow (available : granted.barray = true ∧ granted.marray = true)
    (covered : n.toNat ≤ bits) (listed : n.toNat ≤ entries)
    (short : workWords pageCount < (usedPages bitmap n.toNat).length) :
    compactPages granted bitmap infotable pageCount n = none := by
  rw [compactPages_granted available, compactLoop_eq_none _ _ n.isLt covered listed short]
  rfl

private theorem compactPages_fits (available : granted.barray = true ∧ granted.marray = true)
    (covered : n.toNat ≤ bits) (listed : n.toNat ≤ entries)
    (room : (usedPages bitmap n.toNat).length ≤ workWords pageCount) :
    ∃ work : Compaction (workWords pageCount),
      work.Holds infotable (usedPages bitmap n.toNat) ∧
      compactPages granted bitmap infotable pageCount n =
        if (usedPages bitmap n.toNat).length ≠ pageCount.toNat then some none
        else some (some work) := by
  rcases compactLoop_eq_some (Region.fill (workWords pageCount) 0) (Region.fill _ 0) n.isLt covered
    listed room with ⟨work, run, holds⟩
  refine ⟨work, holds, ?_⟩
  rw [compactPages_granted available, run, Option.bind_some, holds.j]

/-- A count that differs from the pages found is refused after the loop, or before it. -/
theorem compactPages_stale (covered : n.toNat ≤ bits) (listed : n.toNat ≤ entries)
    (stale : pageCount.toNat ≠ (usedPages bitmap n.toNat).length)
    (inside : (usedPages bitmap n.toNat).length ≤ workWords pageCount ∨
      ¬ (granted.barray = true ∧ granted.marray = true)) :
    compactPages granted bitmap infotable pageCount n = some none := by
  by_cases available : granted.barray = true ∧ granted.marray = true
  · have room := inside.resolve_right (not_not.mpr available)
    rcases compactPages_fits available covered listed room with ⟨work, _, run⟩
    rw [run, if_pos stale.symm]
  · exact compactPages_refused available

end Compact

/-! ### From positions back to pages -/

section Translate

variable {words size : Nat}

def pagesAt (used selected : List Nat) : List Nat := selected.map fun position => used.getD position 0

private theorem translate_eq_some {barray : Region Nat words} {positions pages : Region Nat size}
    {used selected : List Nat} {i : Nat} (gathered : barray.StartsWith used)
    (chosen : positions.StartsWith selected) (inside : ∀ position ∈ selected, position < used.length)
    (room : selected.length ≤ size) (below : i < selected.length)
    (done : pages.StartsWith ((pagesAt used selected).take i)) :
    ∃ next, translate barray positions i pages = some next ∧
      next.StartsWith ((pagesAt used selected).take (i + 1)) := by
  have position := List.getElem?_eq_getElem below
  have bound := inside _ (List.getElem_mem below)
  have length : ((pagesAt used selected).take i).length = i := by
    simp [pagesAt, Nat.le_of_lt below]
  have extended : (pagesAt used selected).take (i + 1) =
      (pagesAt used selected).take i ++ [used[selected[i]]] := by
    rw [List.take_add_one]
    simp [pagesAt, below, bound]
  refine ⟨pages.set i used[selected[i]], ?_, ?_⟩
  · rw [translate, chosen i below, position]
    simp [gathered _ bound, bound, Region.write_eq_set _ _ (Nat.lt_of_lt_of_le below room)]
  · rw [extended]
    have appended := done.set (length.symm ▸ Nat.lt_of_lt_of_le below room) used[selected[i]]
    rwa [length] at appended

private theorem translateAll {barray : Region Nat words} {positions : Region Nat size}
    (pages : Region Nat size) {used selected : List Nat} (gathered : barray.StartsWith used)
    (chosen : positions.StartsWith selected) (inside : ∀ position ∈ selected, position < used.length)
    (room : selected.length ≤ size) :
    ∃ final, forRange 0 selected.length (translate barray positions) pages = some final ∧
      final.StartsWith (pagesAt used selected) := by
  have loop : ∃ final, forRange 0 selected.length (translate barray positions) pages = some final ∧
      final.StartsWith ((pagesAt used selected).take selected.length) := by
    apply forRange_progress (fun i (pages : Region Nat size) =>
      pages.StartsWith ((pagesAt used selected).take i)) (Nat.zero_le _) (pages.startsWith_nil)
    intro i pages _ below done
    exact translate_eq_some gathered chosen inside room below done
  have whole : (pagesAt used selected).take selected.length = pagesAt used selected :=
    List.take_of_length_le (by simp [pagesAt])
  rwa [whole] at loop

end Translate

/-! ### What the output arrays name -/

section Extreme

variable {bits entries words : Nat}

/-- `k` different used pages below `n`, and no used page left out has a count on the far
side of a named one. -/
structure ExtremePages (beyond : Nat → Nat → Prop) (bitmap : Region Word bits)
    (infotable : Region Nat entries) (n k : Nat) (pages : List Nat) : Prop where
  length : pages.length = k
  nodup : pages.Nodup
  inside : ∀ page ∈ pages, page < n
  used : ∀ page ∈ pages, bitmap.contents page ≠ 0#32
  extreme : ∀ page ∈ pages, ∀ other < n, bitmap.contents other ≠ 0#32 → other ∉ pages →
    ¬ beyond (infotable.contents page) (infotable.contents other)

/-- The output pointer refers to an array whose first `k` words name such pages. -/
def PointsToExtreme (beyond : Nat → Nat → Prop) (bitmap : Region Word bits)
    (infotable : Region Nat entries) (n k : Nat) (arr : Option WordArray) : Prop :=
  ∃ (array : WordArray) (pages : List Nat), arr = some array ∧
    array.2.copyOut 0 k = some pages ∧ ExtremePages beyond bitmap infotable n k pages

private theorem getD_mem {used : List Nat} {position : Nat} (inside : position < used.length) :
    used.getD position 0 ∈ used := by
  rw [List.getD_eq_getElem _ _ inside]
  exact List.getElem_mem inside

private theorem extremePages_pagesAt {beyond : Nat → Nat → Prop} {bitmap : Region Word bits}
    {infotable : Region Nat entries} {n k : Nat} {work : Compaction words} {selected : List Nat}
    (holds : work.Holds infotable (usedPages bitmap n))
    (selects : SelectsExtreme beyond work.marray.contents (usedPages bitmap n).length k selected) :
    ExtremePages beyond bitmap infotable n k (pagesAt (usedPages bitmap n) selected) := by
  have listed : ∀ position ∈ selected, (usedPages bitmap n).getD position 0 ∈ usedPages bitmap n :=
    fun position member => getD_mem (selects.inside position member)
  have counts : ∀ position < (usedPages bitmap n).length,
      work.marray.contents position = infotable.contents ((usedPages bitmap n).getD position 0) := by
    intro position inside
    rw [Region.contents, holds.marray position (by rwa [List.length_map])]
    simp [inside]
  constructor
  · rw [pagesAt, List.length_map, selects.length]
  · refine selects.nodup.map_on ?_
    intro first firstMember second secondMember same
    have firstInside := selects.inside first firstMember
    have secondInside := selects.inside second secondMember
    rw [List.getD_eq_getElem _ _ firstInside, List.getD_eq_getElem _ _ secondInside] at same
    exact (usedPages_nodup bitmap n).getElem_inj_iff.mp same
  · intro page member
    rcases List.mem_map.mp member with ⟨position, chosen, rfl⟩
    exact (mem_usedPages.mp (listed position chosen)).1
  · intro page member
    rcases List.mem_map.mp member with ⟨position, chosen, rfl⟩
    exact (mem_usedPages.mp (listed position chosen)).2
  · intro page member other below used out further
    rcases List.mem_map.mp member with ⟨position, chosen, rfl⟩
    rcases List.getElem_of_mem (mem_usedPages.mpr ⟨below, used⟩) with ⟨left, leftInside, named⟩
    have leftOut : left ∉ selected := by
      intro leftMember
      apply out
      rw [← named, ← List.getD_eq_getElem _ 0 leftInside]
      exact List.mem_map_of_mem leftMember
    refine selects.extreme position chosen left leftInside leftOut ?_
    rw [counts position (selects.inside position chosen), counts left leftInside,
      List.getD_eq_getElem _ 0 leftInside, named]
    exact further

/-- Selection and translation of gathered pages, in either direction. -/
theorem selectPages {α : Type} [LinearOrder α] {beyond : Nat → Nat → Prop} [DecidableRel beyond]
    {rank : Nat → α} (order : ∀ left right, beyond left right ↔ rank left < rank right)
    {bitmap : Region Word bits} {infotable : Region Nat entries} {n k : Nat}
    {work : Compaction words} (holds : work.Holds infotable (usedPages bitmap n))
    (positive : 1 ≤ k) (bound : k ≤ (usedPages bitmap n).length)
    (fits : wordBytes * k < 2 ^ 32) :
    ∃ earray rarray,
      kIndex beyond ⟨true, true⟩ (some work.marray) (usedPages bitmap n).length k =
        some (some earray) ∧
      forRange 0 k (translate work.barray earray) (Region.fill _ 0) = some rarray ∧
      PointsToExtreme beyond bitmap infotable n k (some ⟨_, rarray⟩) := by
  rcases kIndex_returns order work.marray positive bound holds.room fits with
    ⟨earray, selected, run, copied, selects⟩
  have length := selects.length
  have starts : earray.StartsWith selected := by
    rw [Region.startsWith_iff_copyOut, length]
    exact copied
  rcases translateAll (Region.fill _ 0) holds.barray starts selects.inside
    (length.trans_le (Nat.le_of_eq (allocated_words fits).symm)) with ⟨rarray, loop, named⟩
  have pages := extremePages_pagesAt holds selects
  rw [length] at loop
  rw [Region.startsWith_iff_copyOut, pages.length] at named
  exact ⟨earray, rarray, run, loop, ⟨_, rarray⟩, _, rfl, named, pages⟩

end Extreme

/-! ### The extraction functions -/

section Extract

variable {bits entries : Nat} {bitmap : Region Word bits} {infotable : Region Nat entries}
  {pageCount n k : Word}

/-- From 2^30 pages on the arrays are too small for the pages they are to hold. -/
theorem compactPages_eq_none {granted : ExtractGrants}
    (available : granted.barray = true ∧ granted.marray = true) (covered : n.toNat ≤ bits)
    (listed : n.toNat ≤ entries)
    (counted : pageCount.toNat = (usedPages bitmap n.toNat).length)
    (many : 2 ^ 30 ≤ pageCount.toNat) :
    compactPages granted bitmap infotable pageCount n = none := by
  refine compactPages_overflow available covered listed ?_
  rw [workWords_eq_mod, ← counted]
  have less := Nat.mod_lt pageCount.toNat (Nat.two_pow_pos 30)
  omega

private theorem compactPages_eq_some {granted : ExtractGrants}
    (available : granted.barray = true ∧ granted.marray = true) (covered : n.toNat ≤ bits)
    (listed : n.toNat ≤ entries)
    (counted : pageCount.toNat = (usedPages bitmap n.toNat).length)
    (few : pageCount.toNat < 2 ^ 30) :
    ∃ work : Compaction (workWords pageCount),
      compactPages granted bitmap infotable pageCount n = some (some work) ∧
      work.Holds infotable (usedPages bitmap n.toNat) := by
  have room : (usedPages bitmap n.toNat).length ≤ workWords pageCount := by
    rw [workWords_eq_mod, ← counted, Nat.mod_eq_of_lt few]
  rcases compactPages_fits available covered listed room with ⟨work, holds, run⟩
  refine ⟨work, ?_, holds⟩
  rw [run, if_neg (not_not.mpr counted.symm)]

theorem extractExtreme_eq_some {α : Type} [LinearOrder α] {beyond : Nat → Nat → Prop}
    [DecidableRel beyond] {rank : Nat → α}
    (order : ∀ left right, beyond left right ↔ rank left < rank right) (arr : Option WordArray)
    (covered : n.toNat ≤ bits) (listed : n.toNat ≤ entries)
    (counted : pageCount.toNat = (usedPages bitmap n.toNat).length)
    (few : pageCount.toNat < 2 ^ 30) (positive : 1 ≤ k.toNat) (bound : k.toNat ≤ pageCount.toNat) :
    ∃ out, extractExtreme beyond ExtractGrants.all ⟨true, true⟩ bitmap infotable pageCount n k arr =
        some (totalCount infotable (usedPages bitmap n.toNat) % 2 ^ 32 / pageCount.toNat, out) ∧
      PointsToExtreme beyond bitmap infotable n.toNat k.toNat out := by
  rcases compactPages_eq_some ExtractGrants.all_work covered listed counted few with
    ⟨work, compacted, holds⟩
  have fits : wordBytes * k.toNat < 2 ^ 32 := by
    unfold wordBytes
    omega
  rcases selectPages order holds positive (counted ▸ bound) fits with
    ⟨earray, rarray, selection, loop, points⟩
  have output : autoMalloc ExtractGrants.all.rarray (wordBytes * k.toNat) =
    some (Region.fill _ 0) := rfl
  refine ⟨_, ?_, points⟩
  rw [← counted] at selection
  rw [extractExtreme, compacted]
  simp only [Option.bind_eq_bind, Option.bind_some, selection, output, loop, holds.avg]
  rfl

theorem extractBigSmall_eq_some (bigArr smallArr : Option WordArray)
    (covered : n.toNat ≤ bits) (listed : n.toNat ≤ entries)
    (counted : pageCount.toNat = (usedPages bitmap n.toNat).length)
    (few : pageCount.toNat < 2 ^ 30) (positive : 1 ≤ k.toNat) (bound : k.toNat ≤ pageCount.toNat) :
    ∃ bigOut smallOut,
      extractBigSmall ExtractGrants.all (some bitmap) (some infotable) pageCount n k bigArr smallArr =
        some (totalCount infotable (usedPages bitmap n.toNat) % 2 ^ 32 / pageCount.toNat,
          bigOut, smallOut) ∧
      PointsToExtreme (· < ·) bitmap infotable n.toNat k.toNat bigOut ∧
      PointsToExtreme (· > ·) bitmap infotable n.toNat k.toNat smallOut := by
  rcases compactPages_eq_some ExtractGrants.all_work covered listed counted few with
    ⟨work, compacted, holds⟩
  have fits : wordBytes * k.toNat < 2 ^ 32 := by
    unfold wordBytes
    omega
  rcases selectPages natOrder holds positive (counted ▸ bound) fits with
    ⟨earray, rarray, bigSelection, bigLoop, bigPoints⟩
  rcases selectPages dualOrder holds positive (counted ▸ bound) fits with
    ⟨farray, parray, smallSelection, smallLoop, smallPoints⟩
  have bigOutput : autoMalloc ExtractGrants.all.rarray (wordBytes * k.toNat) =
    some (Region.fill _ 0) := rfl
  have smallOutput : autoMalloc ExtractGrants.all.parray (wordBytes * k.toNat) =
    some (Region.fill _ 0) := rfl
  have bigK : bigKIndex ExtractGrants.all.bigK (some work.marray) pageCount.toNat k.toNat =
    some (some earray) := counted ▸ bigSelection
  have smallK : smallKIndex ExtractGrants.all.smallK (some work.marray) pageCount.toNat k.toNat =
    some (some farray) := counted ▸ smallSelection
  refine ⟨_, _, ?_, bigPoints, smallPoints⟩
  rw [extractBigSmall, compacted]
  simp only [Option.bind_eq_bind, Option.bind_some, bigK, smallK, bigOutput, smallOutput, holds.avg]
  have both := forRange_pair bigLoop smallLoop
  simp only [Option.bind_eq_bind] at both
  rw [both]
  rfl

theorem extractBigSmall_eq_none {granted : ExtractGrants}
    (overflow : compactPages granted bitmap infotable pageCount n = none)
    (bigArr smallArr : Option WordArray) :
    extractBigSmall granted (some bitmap) (some infotable) pageCount n k bigArr smallArr = none := by
  rw [extractBigSmall, overflow]
  rfl

theorem extractExtreme_eq_none {granted : ExtractGrants} {beyond : Nat → Nat → Prop}
    [DecidableRel beyond] {kGranted : KGrants}
    (overflow : compactPages granted bitmap infotable pageCount n = none)
    (arr : Option WordArray) :
    extractExtreme beyond granted kGranted bitmap infotable pageCount n k arr = none := by
  rw [extractExtreme, overflow]
  rfl

theorem extractSmall_eq (granted : ExtractGrants) (arr : Option WordArray) :
    extractSmall granted (some bitmap) (some infotable) pageCount n k arr =
      extractExtreme (· > ·) granted granted.smallK bitmap infotable pageCount n k arr := rfl

theorem extractBig_eq (granted : ExtractGrants)
    (counted : Nvmsim.pageCount (some bitmap) n = some pageCount) (arr : Option WordArray) :
    extractBig granted (some bitmap) (some infotable) n k arr =
      extractExtreme (· < ·) granted granted.bigK bitmap infotable pageCount n k arr := by
  rw [extractBig, counted]
  rfl

end Extract

end OsCompiler.Nvmsim
