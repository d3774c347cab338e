/-
The reserved high memory: `hmalloc` cuts the backing memory of the devices out of one
mapped area and never takes any of it back.

Addresses and sizes are 64-bit words. The available space is a difference of pointers,
which is signed, but it is compared with an unsigned size and is unsigned there. While
the cursor stays inside an area that does not wrap, the allocator is a `BumpArena`.
-/

import Mathlib.Algebra.Group.Nat.Defs
import OsCompiler.Lib.BumpArena

namespace OsCompiler.Nvmsim

abbrev Address := BitVec 64

def null : Address := 0#64

structure Highmem where
  virtAddr : Address
  size : BitVec 64
  currAddr : Address

/-- `mapped` is what `ioremap_cache` returned for the area of that size. -/
def nvmHighmemMap (highmem : Highmem) (mapped : Address) : Highmem × Address :=
  let highmem := { highmem with virtAddr := mapped }
  if mapped ≠ null then ({ highmem with currAddr := mapped }, mapped) else (highmem, null)

def availableSpace (highmem : Highmem) : BitVec 64 :=
  highmem.virtAddr + highmem.size - highmem.currAddr

def hmalloc (highmem : Highmem) (bytes : BitVec 64) : Highmem × Address :=
  if bytes ≤ availableSpace highmem then
    ({ highmem with currAddr := highmem.currAddr + bytes }, highmem.currAddr)
  else (highmem, null)

def hmallocAll (highmem : Highmem) : List (BitVec 64) → Highmem × List (BitVec 64 × Address)
  | [] => (highmem, [])
  | bytes :: rest =>
      let (next, rtn) := hmalloc highmem bytes
      let (final, answers) := hmallocAll next rest
      (final, (bytes, rtn) :: answers)

private theorem hmallocAll_cons (highmem : Highmem) (bytes : BitVec 64) (rest : List (BitVec 64)) :
    hmallocAll highmem (bytes :: rest) =
      ((hmallocAll (hmalloc highmem bytes).1 rest).1,
        (bytes, (hmalloc highmem bytes).2) :: (hmallocAll (hmalloc highmem bytes).1 rest).2) :=
  rfl

def regions (answers : List (BitVec 64 × Address)) : List Span :=
  (answers.filter fun answer => answer.2 ≠ null).map fun answer =>
    ⟨answer.2.toNat, answer.1.toNat⟩

/-- A mapped area: the mapping succeeded and its end is an address as well. -/
structure ReservedArea where
  virtAddr : Address
  size : BitVec 64
  mapped : virtAddr ≠ null
  unwrapped : virtAddr.toNat + size.toNat < 2 ^ 64

namespace ReservedArea

def span (area : ReservedArea) : Span := ⟨area.virtAddr.toNat, area.size.toNat⟩

def fresh (area : ReservedArea) : Highmem :=
  (nvmHighmemMap ⟨null, area.size, null⟩ area.virtAddr).1

private theorem fresh_eq (area : ReservedArea) :
    area.fresh = ⟨area.virtAddr, area.size, area.virtAddr⟩ := by
  simp [fresh, nvmHighmemMap, area.mapped]

/-- The globals stand for an arena over the area. -/
structure Represents (area : ReservedArea) (highmem : Highmem) (arena : Arena) : Prop where
  virtAddr : highmem.virtAddr = area.virtAddr
  size : highmem.size = area.size
  start : arena.start = area.span.first
  limit : arena.limit = area.span.stop
  cursor : highmem.currAddr.toNat = arena.cursor

theorem fresh_represents (area : ReservedArea) :
    area.Represents area.fresh (Arena.whole area.span) := by
  rw [fresh_eq]
  exact ⟨rfl, rfl, rfl, rfl, rfl⟩

variable {area : ReservedArea} {highmem : Highmem} {arena : Arena}

theorem Represents.availableSpace_eq (same : area.Represents highmem arena) :
    (availableSpace highmem).toNat = arena.limit - arena.cursor := by
  have unwrapped := area.unwrapped
  have bounded := arena.bounded
  have limit : arena.limit = area.virtAddr.toNat + area.size.toNat := same.limit
  have cursor := same.cursor
  rw [availableSpace, same.virtAddr, same.size]
  have room : highmem.currAddr ≤ area.virtAddr + area.size := by
    rw [BitVec.le_def, BitVec.toNat_add_of_lt unwrapped]
    omega
  rw [BitVec.toNat_sub_of_le room, BitVec.toNat_add_of_lt unwrapped, limit, cursor]

/-- The cursor is an address of the area or its end, never the null pointer. -/
theorem Represents.currAddr_ne_null (same : area.Represents highmem arena) :
    highmem.currAddr ≠ null := by
  intro zero
  have cursor := same.cursor
  have reached := arena.reached
  have start : arena.start = area.virtAddr.toNat := same.start
  rw [zero] at cursor
  apply area.mapped
  apply BitVec.eq_of_toNat_eq
  change area.virtAddr.toNat = 0
  change 0 = arena.cursor at cursor
  omega

/-- One request does what the arena does, and a refusal is a null pointer. -/
theorem Represents.granted (same : area.Represents highmem arena) {bytes : BitVec 64}
    {next : Arena} (grant : arena.grant bytes.toNat = some next) :
    (hmalloc highmem bytes).2 = highmem.currAddr ∧ area.Represents (hmalloc highmem bytes).1 next := by
  rcases Arena.grant_eq_some.mp grant with ⟨enough, start, cursor, limit⟩
  have room : bytes ≤ availableSpace highmem := by
    rw [BitVec.le_def, same.availableSpace_eq]
    omega
  have unwrapped := area.unwrapped
  have stop : arena.limit = area.virtAddr.toNat + area.size.toNat := same.limit
  have here := same.cursor
  rw [hmalloc, if_pos room]
  refine ⟨rfl, same.virtAddr, same.size, start.trans same.start, limit.trans same.limit, ?_⟩
  rw [BitVec.toNat_add_of_lt (by omega), here, cursor]

theorem Represents.refused (same : area.Represents highmem arena) {bytes : BitVec 64}
    (grant : arena.grant bytes.toNat = none) : hmalloc highmem bytes = (highmem, null) := by
  have short := Arena.grant_eq_none.mp grant
  rw [hmalloc, if_neg]
  rw [BitVec.le_def, same.availableSpace_eq]
  exact Nat.not_le_of_lt short

theorem Represents.hmallocAll (same : area.Represents highmem arena)
    (requests : List (BitVec 64)) :
    area.Represents (hmallocAll highmem requests).1 (arena.serve (requests.map BitVec.toNat)) ∧
      regions (hmallocAll highmem requests).2 = arena.spans (requests.map BitVec.toNat) := by
  induction requests generalizing highmem arena with
  | nil => exact ⟨same, rfl⟩
  | cons bytes rest ih =>
      rw [List.map_cons, hmallocAll_cons]
      cases grant : arena.grant bytes.toNat with
      | some next =>
          rcases same.granted grant with ⟨pointer, represents⟩
          rcases ih represents with ⟨final, answers⟩
          simp only [Arena.serve, Arena.spans, grant]
          refine ⟨final, ?_⟩
          rw [← answers, ← same.cursor]
          simp [regions, pointer, same.currAddr_ne_null]
      | none =>
          rw [same.refused grant]
          rcases ih same with ⟨final, answers⟩
          simp only [Arena.serve, Arena.spans, grant]
          refine ⟨final, ?_⟩
          rw [← answers]
          simp [regions]

def lastStop (area : ReservedArea) (answers : List (BitVec 64 × Address)) : Nat :=
  ((regions answers).getLast?.map Span.stop).getD area.span.first

end ReservedArea

/-- After any requests the regions are disjoint and lie in the area, and the next request
fails only where the rest of the area is too small for it, leaving the cursor alone. -/
theorem hmalloc_regions (area : ReservedArea) (requests : List (BitVec 64)) :
    ((regions (hmallocAll area.fresh requests).2).Pairwise fun left right =>
      Disjoint left.addresses right.addresses) ∧
    (∀ region ∈ regions (hmallocAll area.fresh requests).2,
      area.span.first ≤ region.first ∧ region.stop ≤ area.span.stop) ∧
    ∀ bytes, (hmalloc (hmallocAll area.fresh requests).1 bytes).2 = null →
      area.span.stop - area.lastStop (hmallocAll area.fresh requests).2 < bytes.toNat ∧
      (hmalloc (hmallocAll area.fresh requests).1 bytes).1.currAddr =
        (hmallocAll area.fresh requests).1.currAddr := by
  rcases area.fresh_represents.hmallocAll requests with ⟨same, spans⟩
  rw [ReservedArea.lastStop, spans]
  refine ⟨Arena.spans_disjoint _ _, Arena.spans_inside _ _, ?_⟩
  intro bytes failed
  cases grant : (Arena.serve (Arena.whole area.span)
      (requests.map BitVec.toNat)).grant bytes.toNat with
  | some next =>
      rw [(same.granted grant).1] at failed
      exact absurd failed same.currAddr_ne_null
  | none =>
      have short := Arena.grant_eq_none.mp grant
      rw [Arena.serve_cursor, Arena.serve_limit] at short
      exact ⟨short, by rw [same.refused grant]⟩

/-- In an area of 100 bytes the second of three requests is refused. -/
theorem hmalloc_regions_hundred :
    (hmalloc (hmallocAll (ReservedArea.fresh ⟨4096#64, 100#64, by decide, by decide⟩)
      [60#64]).1 50#64).1.currAddr = 4156#64 :=
  ((hmalloc_regions ⟨4096#64, 100#64, by decide, by decide⟩ [60#64]).2.2 50#64 (by decide)).2.trans
    (by decide)

end OsCompiler.Nvmsim
