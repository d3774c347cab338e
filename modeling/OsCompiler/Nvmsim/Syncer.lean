/-
Selection in the syncer: `minium` and `maxium` find an extreme entry of an array,
`bigK_index` and `smallK_index` the positions of the `k` extreme ones.

The functions come in pairs that differ in the direction of one comparison; each pair is
one definition over that comparison. Memory comes from `auto_malloc`, which takes the
size as a 32-bit word and asks `kzalloc` or `vzalloc`; whether the kernel grants it is an
argument, and what is granted is zeroed. The calls of `auto_free` have no result and are
left out.
-/

import Mathlib.Order.OrderDual
import OsCompiler.Lib.FlatArray
import OsCompiler.Lib.TopK
import OsCompiler.Nvmsim.Tables

namespace OsCompiler.Nvmsim

def wordBytes : Nat := 4

def autoMalloc (granted : Bool) (size : Nat) : Option (Region Nat (size % 2 ^ 32 / wordBytes)) :=
  if granted then some (Region.fill _ 0) else none

section Functions

variable {size words : Nat}

/-- The null check aside, a scan of the first `n` entries that starts from entry 0. -/
def extremeIndex (beyond : Nat → Nat → Prop) [DecidableRel beyond] (arr : Region Nat size)
    (n : Nat) : Option Nat := do
  let first ← arr.read 0
  let (_extreme, index) ← forRange 0 n (fun i (extreme, index) => do
    let value ← arr.read i
    if beyond value extreme then pure (value, i) else pure (extreme, index)) (first, 0)
  pure index

def minium (arr : Option (Region Nat size)) (n : Nat) : Option Nat :=
  match arr with
  | none => some 0
  | some arr => extremeIndex (· < ·) arr n

def maxium (arr : Option (Region Nat size)) (n : Nat) : Option Nat :=
  match arr with
  | none => some 0
  | some arr => extremeIndex (· > ·) arr n

/-- The state of the second loop: the kept keys, their positions and the weakest key. -/
structure Selection (words : Nat) where
  key : Region Nat words
  addr : Region Nat words
  extremeIndex : Nat
  extreme : Nat

def keepFirst (arr : Region Nat size) (i : Nat) (kept : Region Nat words × Region Nat words) :
    Option (Region Nat words × Region Nat words) := do
  let value ← arr.read i
  let key ← kept.1.write i value
  let addr ← kept.2.write i i
  pure (key, addr)

/-- One turn of the second loop: an entry on the other side of the weakest key replaces it. -/
def replaceExtreme (beyond : Nat → Nat → Prop) [DecidableRel beyond] (arr : Region Nat size)
    (k i : Nat) (selection : Selection words) : Option (Selection words) := do
  let value ← arr.read i
  if beyond selection.extreme value then
    let key ← selection.key.write selection.extremeIndex value
    let addr ← selection.addr.write selection.extremeIndex i
    let index ← Nvmsim.extremeIndex beyond key k
    let extreme ← key.read index
    pure { key := key, addr := addr, extremeIndex := index, extreme := extreme }
  else pure selection

structure KGrants where
  key : Bool
  addr : Bool

def kIndex (beyond : Nat → Nat → Prop) [DecidableRel beyond] (granted : KGrants)
    (arr : Option (Region Nat size)) (n k : Nat) :
    Option (Option (Region Nat (wordBytes * k % 2 ^ 32 / wordBytes))) :=
  match arr with
  | none => some none
  | some arr =>
      if n = 0 ∨ k > n ∨ k = 0 then some none
      else
        match autoMalloc granted.key (wordBytes * k), autoMalloc granted.addr (wordBytes * k) with
        | some key, some addr => do
            let (key, addr) ← forRange 0 k (keepFirst arr) (key, addr)
            let index ← Nvmsim.extremeIndex beyond key k
            let extreme ← key.read index
            let selection ← forRange k n (replaceExtreme beyond arr k)
              { key := key, addr := addr, extremeIndex := index, extreme := extreme }
            pure (some selection.addr)
        | _, _ => some none

/-- Keeps the greatest entries: the weakest key is the least. -/
def bigKIndex (granted : KGrants) (arr : Option (Region Nat size)) (n k : Nat) :
    Option (Option (Region Nat (wordBytes * k % 2 ^ 32 / wordBytes))) :=
  kIndex (· < ·) granted arr n k

def smallKIndex (granted : KGrants) (arr : Option (Region Nat size)) (n k : Nat) :
    Option (Option (Region Nat (wordBytes * k % 2 ^ 32 / wordBytes))) :=
  kIndex (· > ·) granted arr n k

end Functions

private theorem autoMalloc_granted (size : Nat) :
    autoMalloc true size = some (Region.fill _ 0) := rfl

theorem allocated_words {count : Nat} (fits : wordBytes * count < 2 ^ 32) :
    wordBytes * count % 2 ^ 32 / wordBytes = count := by
  rw [Nat.mod_eq_of_lt fits]
  exact Nat.mul_div_cancel_left count (by decide)

/-! ### The two work arrays -/

/-- The first `k` slots hold the positions `place` and the entries of `arr` there. -/
structure Stored {size words : Nat} (arr : Region Nat size) (k : Nat) (key addr : Region Nat words)
    (place : Nat → Nat) : Prop where
  addr : ∀ slot < k, addr.read slot = some (place slot)
  key : ∀ slot < k, key.read slot = some (arr.contents (place slot))

section Arrays

variable {size words k slot : Nat} {arr : Region Nat size} {key addr : Region Nat words}
  {place : Nat → Nat}

theorem Stored.key_contents (stored : Stored arr k key addr place) (below : slot < k) :
    key.contents slot = arr.contents (place slot) := by
  rw [Region.contents, stored.key slot below]
  rfl

theorem Stored.set (stored : Stored arr k key addr place) (inside : slot < words) (i : Nat) :
    Stored arr k (key.set slot (arr.contents i)) (addr.set slot i)
      (Function.update place slot i) where
  addr := by
    intro other below
    by_cases here : other = slot
    · rw [here, Region.read_set_self _ _ inside, Function.update_self]
    · rw [Region.read_set_ne _ _ here, Function.update_of_ne here, stored.addr other below]
  key := by
    intro other below
    by_cases here : other = slot
    · rw [here, Region.read_set_self _ _ inside, Function.update_self]
    · rw [Region.read_set_ne _ _ here, Function.update_of_ne here, stored.key other below]

private theorem keepFirsts (arr : Region Nat size) (key addr : Region Nat words)
    (covered : k ≤ size)
    (room : k ≤ words) :
    ∃ kept, forRange 0 k (keepFirst arr) (key, addr) = some kept ∧
      Stored arr k kept.1 kept.2 id := by
  apply forRange_progress (fun turns (kept : Region Nat words × Region Nat words) =>
    Stored arr turns kept.1 kept.2 id) (Nat.zero_le k)
  · exact ⟨fun slot below => absurd below (Nat.not_lt_zero slot),
      fun slot below => absurd below (Nat.not_lt_zero slot)⟩
  · rintro i ⟨key, addr⟩ _ below stored
    have inside : i < words := by omega
    refine ⟨(key.set i (arr.contents i), addr.set i i), ?_, ?_, ?_⟩
    · rw [keepFirst, arr.read_eq_contents (by omega)]
      simp [Region.write_eq_set _ _ inside]
    all_goals
      intro slot bound
      rcases Nat.lt_succ_iff_lt_or_eq.mp bound with earlier | rfl
    · rw [Region.read_set_ne _ _ (Nat.ne_of_lt earlier), stored.addr slot earlier]
    · exact Region.read_set_self _ _ inside
    · rw [Region.read_set_ne _ _ (Nat.ne_of_lt earlier), stored.key slot earlier]
    · exact Region.read_set_self _ _ inside

end Arrays

/-! ### Both directions at once

`rank` turns the comparison of a pair of functions into the order of some linear order. -/

section Ranked

open OsCompiler.TopK

variable {α : Type} [LinearOrder α] {beyond : Nat → Nat → Prop} [DecidableRel beyond]
variable {rank : Nat → α} (order : ∀ left right, beyond left right ↔ rank left < rank right)
variable {size words n k : Nat}

include order

/-- The scan returns a position of a least entry, in the order of the ranks. -/
theorem extremeIndex_eq_some (arr : Region Nat size) (positive : 0 < n) (covered : n ≤ size) :
    ∃ index < n, extremeIndex beyond arr n = some index ∧
      ∀ i < n, rank (arr.contents index) ≤ rank (arr.contents i) := by
  have scan : ∃ final, forRange 0 n (fun i (state : Nat × Nat) => do
      let value ← arr.read i
      if beyond value state.1 then pure (value, i) else pure (state.1, state.2))
        (arr.contents 0, 0) = some final ∧
      final.2 < n ∧ final.1 = arr.contents final.2 ∧
        ∀ i < n, rank final.1 ≤ rank (arr.contents i) := by
    apply forRange_progress (fun seen (state : Nat × Nat) => state.2 < n ∧
      state.1 = arr.contents state.2 ∧ ∀ i < seen, rank state.1 ≤ rank (arr.contents i))
      (Nat.zero_le n)
    · exact ⟨positive, rfl, fun i below => absurd below (Nat.not_lt_zero i)⟩
    · rintro i ⟨extreme, index⟩ _ below ⟨inside, here, least⟩
      rw [arr.read_eq_contents (Nat.lt_of_lt_of_le below covered)]
      by_cases smaller : beyond (arr.contents i) extreme
      · refine ⟨(arr.contents i, i), by simp [smaller], below, rfl, ?_⟩
        intro other bound
        rcases Nat.lt_succ_iff_lt_or_eq.mp bound with earlier | rfl
        · exact ((order _ _).mp smaller).le.trans (least other earlier)
        · exact le_rfl
      · refine ⟨(extreme, index), by simp [smaller], inside, here, ?_⟩
        intro other bound
        rcases Nat.lt_succ_iff_lt_or_eq.mp bound with earlier | rfl
        · exact least other earlier
        · exact not_lt.mp fun less => smaller ((order _ _).mpr less)
  rcases scan with ⟨⟨extreme, index⟩, run, inside, here, least⟩
  refine ⟨index, inside, ?_, fun i below => here ▸ least i below⟩
  rw [extremeIndex, arr.read_eq_contents (Nat.lt_of_lt_of_le positive covered)]
  simp only [Option.bind_eq_bind, Option.bind_some] at run ⊢
  rw [run]
  rfl

theorem Stored.weakest {arr : Region Nat size} {key addr : Region Nat words} {place : Nat → Nat}
    (stored : Stored arr k key addr place) (positive : 0 < k) (room : k ≤ words) :
    ∃ index, extremeIndex beyond key k = some index ∧
      key.read index = some (arr.contents (place index)) ∧
      Weakest (fun i => rank (arr.contents i)) k place index := by
  rcases extremeIndex_eq_some order key positive room with ⟨index, inside, scan, least⟩
  refine ⟨index, scan, stored.key index inside, inside, ?_⟩
  intro other below
  have smallest := least other below
  rw [stored.key_contents inside, stored.key_contents below] at smallest
  exact smallest

/-- Between the turns of the second loop, `seen` entries having been looked at. -/
structure Selection.Holds (rank : Nat → α) (arr : Region Nat size) (k seen : Nat)
    (place : Nat → Nat) (selection : Selection words) : Prop where
  stored : Stored arr k selection.key selection.addr place
  keeps : Keeps (fun i => rank (arr.contents i)) k seen place
  weakest : Weakest (fun i => rank (arr.contents i)) k place selection.extremeIndex
  extreme : selection.extreme = arr.contents (place selection.extremeIndex)

private theorem replaceExtreme_eq_some {arr : Region Nat size} {seen : Nat} {place : Nat → Nat}
    {selection : Selection words} (holds : selection.Holds rank arr k seen place)
    (room : k ≤ words) (inside : seen < size) :
    ∃ next place', replaceExtreme beyond arr k seen selection = some next ∧
      next.Holds rank arr k (seen + 1) place' := by
  have slot := holds.weakest.1
  unfold replaceExtreme
  rw [arr.read_eq_contents inside]
  by_cases further : beyond selection.extreme (arr.contents seen)
  · have great := (order _ _).mp further
    rw [holds.extreme] at great
    have stored := holds.stored.set (Nat.lt_of_lt_of_le slot room) seen
    rcases stored.weakest order (Nat.zero_lt_of_lt slot) room with ⟨index, scan, read, weakest⟩
    refine ⟨⟨selection.key.set selection.extremeIndex (arr.contents seen),
      selection.addr.set selection.extremeIndex seen, index,
      arr.contents (Function.update place selection.extremeIndex seen index)⟩, _, ?_, stored,
      holds.keeps.replace holds.weakest great, weakest, rfl⟩
    simp [further, Region.write_eq_set _ _ (Nat.lt_of_lt_of_le slot room), scan, read]
  · refine ⟨selection, place, by simp [further], holds.stored, ?_, holds.weakest, holds.extreme⟩
    refine holds.keeps.skip holds.weakest (not_lt.mp fun great => further ?_)
    rw [holds.extreme]
    exact (order _ _).mpr great

/-- With both arrays granted the result names the `k` greatest entries in the order of the
ranks. -/
theorem kIndex_eq_some (arr : Region Nat size) (positive : 1 ≤ k) (bound : k ≤ n)
    (covered : n ≤ size) (fits : wordBytes * k < 2 ^ 32) :
    ∃ addr place, kIndex beyond ⟨true, true⟩ (some arr) n k = some (some addr) ∧
      (∀ slot < k, addr.read slot = some (place slot)) ∧
      Keeps (fun i => rank (arr.contents i)) k n place := by
  have room := Nat.le_of_eq (allocated_words fits).symm
  have guard : ¬ (n = 0 ∨ k > n ∨ k = 0) := by omega
  rcases keepFirsts arr (Region.fill (wordBytes * k % 2 ^ 32 / wordBytes) 0) (Region.fill _ 0)
    (bound.trans covered) room with ⟨⟨key, addr⟩, filled, stored⟩
  rcases stored.weakest order positive room with ⟨index, scan, read, weakest⟩
  have loop : ∃ final, forRange k n (replaceExtreme beyond arr k)
      ⟨key, addr, index, arr.contents (id index)⟩ = some final ∧
      ∃ place, final.Holds rank arr k n place := by
    apply forRange_progress (fun seen (selection : Selection _) =>
      ∃ place, selection.Holds rank arr k seen place) bound
    · exact ⟨id, stored, Keeps.initial _ k, weakest, rfl⟩
    · rintro seen selection _ below ⟨place, holds⟩
      rcases replaceExtreme_eq_some order holds room (Nat.lt_of_lt_of_le below covered) with
        ⟨next, place', turn, kept⟩
      exact ⟨next, turn, place', kept⟩
  rcases loop with ⟨final, run, place, holds⟩
  refine ⟨final.addr, place, ?_, holds.stored.addr, holds.keeps⟩
  simp only [kIndex, if_neg guard, autoMalloc_granted, filled, Option.bind_eq_bind,
    Option.bind_some, scan, read, run]
  rfl

end Ranked

/-! ### The two selections -/

/-- `selected` lists `k` different positions below `n`, and no entry left out is on the
far side of a selected one. -/
structure SelectsExtreme (beyond : Nat → Nat → Prop) (entries : Nat → Nat) (n k : Nat)
    (selected : List Nat) : Prop where
  length : selected.length = k
  nodup : selected.Nodup
  inside : ∀ i ∈ selected, i < n
  extreme : ∀ i ∈ selected, ∀ left < n, left ∉ selected → ¬ beyond (entries i) (entries left)

section Selections

open OsCompiler.TopK

variable {size n k : Nat}

def ReturnsExtreme (beyond : Nat → Nat → Prop) (arr : Region Nat size) (n k : Nat) {words : Nat}
    (result : Option (Option (Region Nat words))) : Prop :=
  ∃ addr selected, result = some (some addr) ∧ addr.copyOut 0 k = some selected ∧
    SelectsExtreme beyond arr.contents n k selected

private theorem copyOut_selected {words : Nat} {addr : Region Nat words} {place : Nat → Nat}
    (cells : ∀ slot < k, addr.read slot = some (place slot)) :
    addr.copyOut 0 k = some (selected k place) := by
  have inside : k = 0 ∨ 0 + k ≤ words := by
    rcases Nat.eq_zero_or_pos k with zero | positive
    · exact Or.inl zero
    · have last := Region.lt_of_read (cells (k - 1) (by omega))
      exact Or.inr (by omega)
  rw [addr.copyOut_eq_slice inside, FlatArray.slice, selected, List.range_eq_range',
    Option.some.injEq]
  apply List.map_congr_left
  intro slot member
  have below := (List.mem_range'_1.mp member).2
  rw [Region.contents, cells slot (by omega)]
  rfl

theorem kIndex_returns {α : Type} [LinearOrder α] {beyond : Nat → Nat → Prop}
    [DecidableRel beyond] {rank : Nat → α}
    (order : ∀ left right, beyond left right ↔ rank left < rank right) (arr : Region Nat size)
    (positive : 1 ≤ k) (bound : k ≤ n) (covered : n ≤ size) (fits : wordBytes * k < 2 ^ 32) :
    ReturnsExtreme beyond arr n k (kIndex beyond ⟨true, true⟩ (some arr) n k) := by
  rcases kIndex_eq_some order arr positive bound covered fits with ⟨addr, place, run, cells, keeps⟩
  refine ⟨addr, selected k place, run, copyOut_selected cells, ?_, keeps.nodup, ?_, ?_⟩
  · simp [selected]
  · intro i member
    rcases mem_selected.mp member with ⟨slot, below, rfl⟩
    exact keeps.inside slot below
  · intro i member left below out further
    exact not_lt.mpr (keeps.selected_above member below out) ((order _ _).mp further)

/-- An impossible count of positions is refused before anything is allocated. -/
theorem kIndex_refused {beyond : Nat → Nat → Prop} [DecidableRel beyond] (granted : KGrants)
    (arr : Option (Region Nat size)) (invalid : ¬ (1 ≤ k ∧ k ≤ n)) :
    kIndex beyond granted arr n k = some none := by
  cases arr with
  | none => rfl
  | some arr => rw [kIndex, if_pos (by omega)]

/-- `bigK_index` ranks an entry by itself. -/
theorem natOrder (left right : Nat) : left < right ↔ id left < id right := Iff.rfl

/-- `smallK_index` ranks the entries in the dual order. -/
theorem dualOrder (left right : Nat) :
    left > right ↔ OrderDual.toDual left < OrderDual.toDual right := Iff.rfl

theorem minium_eq_some (arr : Region Nat size) (positive : 0 < n) (covered : n ≤ size) :
    ∃ index < n, minium (some arr) n = some index ∧
      ∀ i < n, arr.contents index ≤ arr.contents i :=
  extremeIndex_eq_some natOrder arr positive covered

theorem maxium_eq_some (arr : Region Nat size) (positive : 0 < n) (covered : n ≤ size) :
    ∃ index < n, maxium (some arr) n = some index ∧
      ∀ i < n, arr.contents i ≤ arr.contents index :=
  extremeIndex_eq_some dualOrder arr positive covered

private theorem bigKIndex_returns (arr : Region Nat size) (positive : 1 ≤ k) (bound : k ≤ n)
    (covered : n ≤ size) (fits : wordBytes * k < 2 ^ 32) :
    ReturnsExtreme (· < ·) arr n k (bigKIndex ⟨true, true⟩ (some arr) n k) :=
  kIndex_returns natOrder arr positive bound covered fits

private theorem smallKIndex_returns (arr : Region Nat size) (positive : 1 ≤ k) (bound : k ≤ n)
    (covered : n ≤ size) (fits : wordBytes * k < 2 ^ 32) :
    ReturnsExtreme (· > ·) arr n k (smallKIndex ⟨true, true⟩ (some arr) n k) :=
  kIndex_returns dualOrder arr positive bound covered fits

/-- Both functions select the extreme entries where the counts allow it, and return a
null pointer for all other counts. -/
theorem select_extreme_entries (arr : Region Nat n) :
    (1 ≤ k → k ≤ n → wordBytes * k < 2 ^ 32 →
      ReturnsExtreme (· < ·) arr n k (bigKIndex ⟨true, true⟩ (some arr) n k) ∧
      ReturnsExtreme (· > ·) arr n k (smallKIndex ⟨true, true⟩ (some arr) n k)) ∧
    (¬ (1 ≤ k ∧ k ≤ n) → ∀ granted,
      bigKIndex granted (some arr) n k = some none ∧
      smallKIndex granted (some arr) n k = some none) := by
  constructor
  · intro positive bound fits
    exact ⟨bigKIndex_returns arr positive bound (Nat.le_refl n) fits,
      smallKIndex_returns arr positive bound (Nat.le_refl n) fits⟩
  · intro invalid granted
    exact ⟨kIndex_refused granted _ invalid, kIndex_refused granted _ invalid⟩

/-- Four entries with a tie, of which the three smallest are asked for. -/
theorem select_extreme_entries_four :
    ReturnsExtreme (· > ·) (⟨fun i => i.val / 2⟩ : Region Nat 4) 4 3
      (smallKIndex ⟨true, true⟩ (some (⟨fun i => i.val / 2⟩ : Region Nat 4)) 4 3) :=
  ((@select_extreme_entries 4 3 ⟨fun i => i.val / 2⟩).1 (by decide) (by decide) (by decide)).2

end Selections

end OsCompiler.Nvmsim
