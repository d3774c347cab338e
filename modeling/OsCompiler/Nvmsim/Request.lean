/-
The request path of the NVM simulator: `nvm_make_request` checks the range of a
bio, moves its segments one after another and counts the request.

A request that touches a byte outside the backing store, or an entry outside the
tables, yields `none`. Pointer arithmetic is modulo `2^64`: an offset that runs
below the backing store comes out as an index far above its size.
-/

import OsCompiler.Lib.FlatArray
import OsCompiler.Nvmsim.WriteHelper

namespace OsCompiler.Nvmsim

def READ : Int := 0
def WRITE : Int := 1

def mbPerSectorShift : Nat := 11

/-- `nvmdev_capacity`, the 32-bit `capacity_mb << MB_PER_SECTOR_SHIFT` in sectors. -/
def nvmdevCapacity (capacityMb : Word) : Word := capacityMb <<< mbPerSectorShift

/-- One segment: a buffer of exactly `bv_len` bytes at `bv_page + bv_offset`. -/
structure BioVec where
  bvLen : Word
  buffer : List UInt8
  bufferLength : buffer.length = bvLen.toNat

def segmentBytes (segments : List BioVec) : List UInt8 :=
  (segments.map BioVec.buffer).flatten

def segmentLengths (segments : List BioVec) : List Nat :=
  segments.map fun bvec => bvec.bvLen.toNat

/-- `bio_for_each_segment` visits segments until `bi_size` bytes are done, so the
segments of a bio always add up to it. -/
structure Bio where
  biSector : BitVec 64
  biSize : Word
  isWrite : Bool
  segments : List BioVec
  biStatus : UInt8
  sizeSum : (segmentBytes segments).length = biSize.toNat

def bioDataDir (bio : Bio) : Int := if bio.isWrite then WRITE else READ

def bioSectors (bio : Bio) : Word := bio.biSize >>> sectorShift

structure NvmStat where
  lastAccessJiffies : Word
  numSectorsRead : BitVec 64
  numSectorsWrite : BitVec 64
  numRequestsRead : BitVec 64
  numRequestsWrite : BitVec 64

def dataBytes (capacity : Word) : Nat := 512 * capacity.toNat

structure NvmDevice (capacity : Word) where
  nvmdevData : Region UInt8 (dataBytes capacity)
  tables : PbiTables
  nvmStat : NvmStat

variable {capacity : Word}

def copyFromNvm (device : NvmDevice capacity) (sector : BitVec 64) (n : Nat) :
    Option (List UInt8) :=
  device.nvmdevData.copyOut (sector <<< sectorShift).toNat n

def copyToNvm (device : NvmDevice capacity) (src : List UInt8) (sector : BitVec 64) :
    Option (NvmDevice capacity) := do
  let data ← device.nvmdevData.copyIn (sector <<< sectorShift).toNat src
  pure { device with nvmdevData := data }

/-- The device, the segment's buffer and `err` after one segment. -/
def nvmDoBvec (device : NvmDevice capacity) (bvec : BioVec) (rw : Int) (sector : BitVec 64) :
    Option (NvmDevice capacity × List UInt8 × Int) :=
  if rw = READ then do
    let buffer ← copyFromNvm device sector bvec.bvLen.toNat
    pure (device, buffer, 0)
  else do
    let tables ← writeHelper device.tables sector bvec.bvLen
    let device ← copyToNvm { device with tables := tables } bvec.buffer sector
    pure (device, bvec.buffer, 0)

def forEachSegment (rw : Int) (device : NvmDevice capacity) (sector : BitVec 64) :
    List BioVec → Option (NvmDevice capacity × List (List UInt8))
  | [] => some (device, [])
  | bvec :: rest => do
      let (device, buffer, err) ← nvmDoBvec device bvec rw sector
      if err ≠ 0 then pure (device, buffer :: rest.map BioVec.buffer)
      else
        let (device, buffers) ← forEachSegment rw device
          (sector + (bvec.bvLen >>> sectorShift).setWidth 64) rest
        pure (device, buffer :: buffers)

/-- What the surroundings supply to one call: the clock and the bits that happen to
be in the local `rw` before it is assigned. -/
structure RequestEnv where
  jiffies : BitVec 64
  rwUninitialised : Int

/-- What `bio_endio` reports and what the segments hold then. -/
structure BioOutcome where
  status : UInt8
  buffers : List (List UInt8)

def updateStat (stat : NvmStat) (rw : Int) (numSectors : Word) : NvmStat :=
  if rw = READ then
    { stat with
      numRequestsRead := stat.numRequestsRead + 1
      numSectorsRead := stat.numSectorsRead + numSectors.signExtend 64 }
  else
    { stat with
      numRequestsWrite := stat.numRequestsWrite + 1
      numSectorsWrite := stat.numSectorsWrite + numSectors.signExtend 64 }

/-- `NVM_DEV_UPDATE_ACCESS_TIME`; the timestamp keeps the low 32 bits only. -/
def nvmDevUpdateAccessTime (device : NvmDevice capacity) (jiffies : BitVec 64) :
    NvmDevice capacity :=
  { device with nvmStat := { device.nvmStat with lastAccessJiffies := jiffies.setWidth 32 } }

/-- The range check at the head of `nvm_make_request`: a 64-bit sum against the
32-bit capacity. -/
def exceedsCapacity (capacity : Word) (bio : Bio) : Prop :=
  bio.biSector + (bio.biSize >>> sectorShift).setWidth 64 > capacity.setWidth 64

instance (capacity : Word) (bio : Bio) : Decidable (exceedsCapacity capacity bio) :=
  inferInstanceAs (Decidable (_ > _))

def nvmMakeRequest (env : RequestEnv) (device : NvmDevice capacity) (bio : Bio) :
    Option (NvmDevice capacity × BioOutcome) :=
  if exceedsCapacity capacity bio then
    let stat := updateStat device.nvmStat env.rwUninitialised (bioSectors bio)
    some ({ device with nvmStat := stat },
      { status := bio.biStatus, buffers := bio.segments.map BioVec.buffer })
  else do
    let rw := bioDataDir bio
    let device := nvmDevUpdateAccessTime device env.jiffies
    let (device, buffers) ← forEachSegment rw device bio.biSector bio.segments
    let stat := updateStat device.nvmStat rw (bioSectors bio)
    pure ({ device with nvmStat := stat }, { status := bio.biStatus, buffers := buffers })

/-! ### A device right after allocation, and a small request -/

def zeroedDevice (capacity : Word) : NvmDevice capacity where
  nvmdevData := Region.fill _ 0
  tables := nvmPbiSpaceAlloc
  nvmStat := ⟨0, 0, 0, 0, 0⟩

def zeroSector : BioVec where
  bvLen := 512#32
  buffer := List.replicate 512 0
  bufferLength := List.length_replicate

def oneSectorBio (sector : BitVec 64) (isWrite : Bool) : Bio where
  biSector := sector
  biSize := 512#32
  isWrite := isWrite
  segments := [zeroSector]
  biStatus := 0
  sizeSum := by
    change (List.replicate 512 (0 : UInt8) ++ []).length = 512
    rw [List.append_nil, List.length_replicate]

/-! ### Well-formed segments and the sector cursor -/

def SectorAligned (segments : List BioVec) : Prop :=
  ∀ bvec ∈ segments, 512 ∣ bvec.bvLen.toNat

theorem oneSectorBio_aligned (sector : BitVec 64) (isWrite : Bool) :
    SectorAligned (oneSectorBio sector isWrite).segments := by
  intro bvec member
  rw [List.mem_singleton.mp member]
  exact Nat.dvd_refl 512

def sectorCount (segments : List BioVec) : Nat := (segmentBytes segments).length / 512

theorem segmentBytes_cons (bvec : BioVec) (rest : List BioVec) :
    segmentBytes (bvec :: rest) = bvec.buffer ++ segmentBytes rest := rfl

private theorem segmentBytes_aligned {segments : List BioVec} (aligned : SectorAligned segments) :
    512 ∣ (segmentBytes segments).length := by
  induction segments with
  | nil => exact Nat.dvd_zero 512
  | cons bvec rest ih =>
      rw [segmentBytes_cons, List.length_append, bvec.bufferLength]
      exact Nat.dvd_add (aligned bvec List.mem_cons_self)
        (ih (fun other member => aligned other (List.mem_cons_of_mem bvec member)))

theorem segmentBytes_length {segments : List BioVec} (aligned : SectorAligned segments) :
    (segmentBytes segments).length = 512 * sectorCount segments :=
  (Nat.mul_div_cancel' (segmentBytes_aligned aligned)).symm

theorem sectorCount_cons {bvec : BioVec} {rest : List BioVec}
    (aligned : SectorAligned (bvec :: rest)) :
    sectorCount (bvec :: rest) = lenSectors bvec.bvLen + sectorCount rest := by
  obtain ⟨sectors, exact⟩ := aligned bvec List.mem_cons_self
  unfold sectorCount lenSectors
  rw [segmentBytes_cons, List.length_append, bvec.bufferLength, exact]
  omega

theorem sectorShift_toNat {sector : BitVec 64} (small : sector.toNat < 2 ^ 55) :
    (sector <<< sectorShift).toNat = 512 * sector.toNat := by
  rw [sectorShift, BitVec.toNat_shiftLeft, Nat.shiftLeft_eq]
  omega

theorem cursor_toNat (sector : BitVec 64) (len : Word)
    (small : sector.toNat + lenSectors len < 2 ^ 64) :
    (sector + (len >>> sectorShift).setWidth 64).toNat = sector.toNat + lenSectors len := by
  rw [BitVec.toNat_add, len_shift_toNat]
  exact Nat.mod_eq_of_lt small

/-! ### The segment loop moves one contiguous range -/

theorem copyFromNvm_eq_some (device : NvmDevice capacity) (sector : BitVec 64) (n : Nat)
    (inside : n = 0 ∨ 512 * sector.toNat + n ≤ dataBytes capacity) :
    copyFromNvm device sector n =
      some (device.nvmdevData.contents.slice (512 * sector.toNat) n) := by
  rcases inside with rfl | bound
  · rfl
  · have cap := capacity.isLt
    have small : sector.toNat < 2 ^ 55 := by
      unfold dataBytes at bound
      omega
    rw [copyFromNvm, sectorShift_toNat small]
    exact device.nvmdevData.copyOut_eq_slice (Or.inr bound)

theorem copyToNvm_eq_some (device : NvmDevice capacity) (sector : BitVec 64)
    {src : List UInt8} (inside : src = [] ∨ 512 * sector.toNat + src.length ≤ dataBytes capacity) :
    ∃ data, copyToNvm device src sector = some { device with nvmdevData := data } ∧
      data.contents = device.nvmdevData.contents.overlay (512 * sector.toNat) src := by
  rcases inside with rfl | bound
  · exact ⟨device.nvmdevData, rfl, (FlatArray.overlay_nil _ _).symm⟩
  · have cap := capacity.isLt
    have small : sector.toNat < 2 ^ 55 := by
      unfold dataBytes at bound
      omega
    obtain ⟨data, copied, contents⟩ := device.nvmdevData.copyIn_eq_overlay _ _ (Or.inr bound)
    refine ⟨data, ?_, contents⟩
    simp [copyToNvm, sectorShift_toNat small, copied]

/-- `nvm_do_bvec` never reports an error of its own and leaves the statistics alone. -/
theorem nvmDoBvec_keeps {device next : NvmDevice capacity} {bvec : BioVec} {rw err : Int}
    {sector : BitVec 64} {buffer : List UInt8}
    (moved : nvmDoBvec device bvec rw sector = some (next, buffer, err)) :
    err = 0 ∧ next.nvmStat = device.nvmStat := by
  unfold nvmDoBvec at moved
  by_cases reading : rw = READ
  · rw [if_pos reading] at moved
    simp only [Option.bind_eq_bind, Option.bind_eq_some_iff] at moved
    obtain ⟨_, _, same⟩ := moved
    cases same
    exact ⟨rfl, rfl⟩
  · rw [if_neg reading] at moved
    simp only [copyToNvm, Option.bind_eq_bind, Option.bind_eq_some_iff] at moved
    obtain ⟨_, _, _, ⟨_, _, copied⟩, same⟩ := moved
    cases same
    cases copied
    exact ⟨rfl, rfl⟩

theorem forEachSegment_cons {device next : NvmDevice capacity} {bvec : BioVec} {rw : Int}
    {sector : BitVec 64} {buffer : List UInt8} (rest : List BioVec)
    (moved : nvmDoBvec device bvec rw sector = some (next, buffer, 0)) :
    forEachSegment rw device sector (bvec :: rest) =
      (forEachSegment rw next (sector + (bvec.bvLen >>> sectorShift).setWidth 64) rest).map
        (fun done => (done.1, buffer :: done.2)) := by
  simp only [forEachSegment, moved, Option.bind_eq_bind, Option.bind_some, ne_eq, not_true_eq_false,
    if_false]
  cases forEachSegment rw next (sector + (bvec.bvLen >>> sectorShift).setWidth 64) rest <;> rfl

theorem forEachSegment_cons_eq_none {device : NvmDevice capacity} {bvec : BioVec} {rw : Int}
    {sector : BitVec 64} {rest : List BioVec}
    (fails : ∀ next buffer, nvmDoBvec device bvec rw sector = some (next, buffer, 0) →
      forEachSegment rw next (sector + (bvec.bvLen >>> sectorShift).setWidth 64) rest = none) :
    forEachSegment rw device sector (bvec :: rest) = none := by
  cases moved : nvmDoBvec device bvec rw sector with
  | none => simp [forEachSegment, moved]
  | some done =>
      obtain ⟨next, buffer, err⟩ := done
      obtain ⟨rfl, _⟩ := nvmDoBvec_keeps moved
      rw [forEachSegment_cons rest moved, fails next buffer moved]
      rfl

theorem forEachSegment_stat {device after : NvmDevice capacity} {rw : Int}
    {sector : BitVec 64} {segments : List BioVec} {buffers : List (List UInt8)}
    (run : forEachSegment rw device sector segments = some (after, buffers)) :
    after.nvmStat = device.nvmStat := by
  induction segments generalizing device sector buffers with
  | nil =>
      cases run
      rfl
  | cons bvec rest ih =>
      cases moved : nvmDoBvec device bvec rw sector with
      | none => simp [forEachSegment, moved] at run
      | some done =>
          obtain ⟨next, buffer, err⟩ := done
          obtain ⟨rfl, stat⟩ := nvmDoBvec_keeps moved
          rw [forEachSegment_cons rest moved, Option.map_eq_some_iff] at run
          obtain ⟨⟨final, later⟩, restRun, same⟩ := run
          cases same
          exact (ih restRun).trans stat

theorem updateStat_lastAccess (stat : NvmStat) (rw : Int) (numSectors : Word) :
    (updateStat stat rw numSectors).lastAccessJiffies = stat.lastAccessJiffies := by
  unfold updateStat
  split <;> rfl

theorem forEachSegment_read (device : NvmDevice capacity) (sector : BitVec 64)
    {segments : List BioVec} (aligned : SectorAligned segments)
    (inside : sectorCount segments = 0 ∨
      sector.toNat + sectorCount segments ≤ capacity.toNat) :
    ∃ buffers, forEachSegment READ device sector segments = some (device, buffers) ∧
      buffers.flatten = device.nvmdevData.contents.slice (512 * sector.toNat)
        (segmentBytes segments).length ∧
      buffers.map List.length = segmentLengths segments := by
  induction segments generalizing sector with
  | nil => exact ⟨[], rfl, rfl, rfl⟩
  | cons bvec rest ih =>
      have count := sectorCount_cons aligned
      have restAligned : SectorAligned rest :=
        fun other member => aligned other (List.mem_cons_of_mem bvec member)
      have bvecBytes : bvec.bvLen.toNat = 512 * lenSectors bvec.bvLen :=
        (Nat.mul_div_cancel' (aligned bvec List.mem_cons_self)).symm
      have cap := capacity.isLt
      have cursor := cursor_toNat sector bvec.bvLen (by
        have bound := sector.isLt
        omega)
      have copied := copyFromNvm_eq_some device sector bvec.bvLen.toNat (by
        unfold dataBytes
        omega)
      obtain ⟨buffers, run, flat, lengths⟩ := ih
        (sector + (bvec.bvLen >>> sectorShift).setWidth 64) restAligned (by omega)
      refine ⟨device.nvmdevData.contents.slice (512 * sector.toNat) bvec.bvLen.toNat :: buffers,
        ?_, ?_, ?_⟩
      · have moved : nvmDoBvec device bvec READ sector = some (device,
            device.nvmdevData.contents.slice (512 * sector.toNat) bvec.bvLen.toNat, 0) := by
          simp [nvmDoBvec, copied]
        rw [forEachSegment_cons rest moved, run]
        rfl
      · have next : 512 * (sector + (bvec.bvLen >>> sectorShift).setWidth 64).toNat =
            512 * sector.toNat + bvec.bvLen.toNat := by
          rw [cursor, bvecBytes]
          omega
        rw [List.flatten_cons, flat, next, segmentBytes_cons, List.length_append,
          bvec.bufferLength, FlatArray.slice_add]
      · rw [List.map_cons, lengths, FlatArray.slice_length]
        rfl

/-- A write bio whose sectors fit both the backing store and the bitmap. -/
theorem forEachSegment_write (device : NvmDevice capacity) (sector : BitVec 64)
    {segments : List BioVec} (aligned : SectorAligned segments)
    (inside : sectorCount segments = 0 ∨
      (sector.toNat + sectorCount segments ≤ capacity.toNat ∧
        sector.toNat + sectorCount segments ≤ bitTableSize + 32)) :
    ∃ after, forEachSegment WRITE device sector segments =
        some (after, segments.map BioVec.buffer) ∧
      after.nvmdevData.contents = device.nvmdevData.contents.overlay (512 * sector.toNat)
        (segmentBytes segments) := by
  induction segments generalizing device sector with
  | nil => exact ⟨device, rfl, (FlatArray.overlay_nil _ _).symm⟩
  | cons bvec rest ih =>
      have count := sectorCount_cons aligned
      have restAligned : SectorAligned rest :=
        fun other member => aligned other (List.mem_cons_of_mem bvec member)
      have bvecBytes : bvec.bvLen.toNat = 512 * lenSectors bvec.bvLen :=
        (Nat.mul_div_cancel' (aligned bvec List.mem_cons_self)).symm
      have cap := capacity.isLt
      have cursor := cursor_toNat sector bvec.bvLen (by
        have bound := sector.isLt
        omega)
      obtain ⟨tables, helped, _⟩ := writeHelper_eq_some device.tables sector bvec.bvLen (by omega)
      have fits : bvec.buffer = [] ∨
          512 * sector.toNat + bvec.buffer.length ≤ dataBytes capacity := by
        by_cases empty : bvec.buffer = []
        · exact Or.inl empty
        · have positive : 0 < bvec.buffer.length := List.length_pos_iff.mpr empty
          have exact := bvec.bufferLength
          unfold dataBytes
          omega
      obtain ⟨data, copied, contents⟩ :=
        copyToNvm_eq_some { device with tables := tables } sector fits
      obtain ⟨after, run, flat⟩ := ih { device with tables := tables, nvmdevData := data }
        (sector + (bvec.bvLen >>> sectorShift).setWidth 64) restAligned (by omega)
      refine ⟨after, ?_, ?_⟩
      · have notRead : WRITE ≠ READ := by decide
        have moved : nvmDoBvec device bvec WRITE sector =
            some ({ device with tables := tables, nvmdevData := data }, bvec.buffer, 0) := by
          simp [nvmDoBvec, notRead, helped, copied]
        rw [forEachSegment_cons rest moved, run]
        rfl
      · have next : 512 * (sector + (bvec.bvLen >>> sectorShift).setWidth 64).toNat =
            512 * sector.toNat + bvec.buffer.length := by
          rw [cursor, bvec.bufferLength, bvecBytes]
          omega
        rw [flat, next, contents, segmentBytes_cons, FlatArray.overlay_append]

/-! ### Requests that leave the allocated memory -/

theorem copyFromNvm_eq_none (device : NvmDevice capacity) {sector : BitVec 64} {n : Nat}
    (positive : 0 < n) (outside : dataBytes capacity ≤ (sector <<< sectorShift).toNat) :
    copyFromNvm device sector n = none :=
  device.nvmdevData.copyOut_eq_none positive (by omega)

private theorem copyToNvm_eq_none (device : NvmDevice capacity) {sector : BitVec 64}
    {src : List UInt8}
    (nonempty : src ≠ []) (outside : dataBytes capacity ≤ (sector <<< sectorShift).toNat) :
    copyToNvm device src sector = none := by
  have positive : 0 < src.length := List.length_pos_iff.mpr nonempty
  have failed := device.nvmdevData.copyIn_eq_none nonempty
    (by omega : dataBytes capacity < (sector <<< sectorShift).toNat + src.length)
  rw [copyToNvm, failed]
  rfl

private theorem nvmDoBvec_eq_none (device : NvmDevice capacity) {bvec : BioVec} (rw : Int)
    {sector : BitVec 64} (positive : 0 < bvec.bvLen.toNat)
    (outside : dataBytes capacity ≤ (sector <<< sectorShift).toNat) :
    nvmDoBvec device bvec rw sector = none := by
  unfold nvmDoBvec
  by_cases reading : rw = READ
  · rw [if_pos reading, copyFromNvm_eq_none device positive outside]
    rfl
  · have nonempty : bvec.buffer ≠ [] := by
      apply List.length_pos_iff.mp
      rw [bvec.bufferLength]
      exact positive
    rw [if_neg reading]
    cases writeHelper device.tables sector bvec.bvLen with
    | none => rfl
    | some tables =>
        simp [copyToNvm_eq_none { device with tables := tables } nonempty outside]

/-- A start sector whose byte offset wraps below the backing store: the first segment
with data leaves it, however many empty segments come before. -/
theorem forEachSegment_wrapped (device : NvmDevice capacity) (rw : Int) {sector : BitVec 64}
    {segments : List BioVec} (nonempty : 0 < (segmentBytes segments).length)
    (outside : dataBytes capacity ≤ (sector <<< sectorShift).toNat) :
    forEachSegment rw device sector segments = none := by
  induction segments generalizing device sector with
  | nil => exact absurd nonempty (Nat.lt_irrefl 0)
  | cons bvec rest ih =>
      apply forEachSegment_cons_eq_none
      intro next buffer moved
      by_cases positive : 0 < bvec.bvLen.toNat
      · rw [nvmDoBvec_eq_none device rw positive outside] at moved
        cases moved
      · have empty : lenSectors bvec.bvLen = 0 := by
          unfold lenSectors
          omega
        have sameSector : sector + (bvec.bvLen >>> sectorShift).setWidth 64 = sector := by
          apply BitVec.eq_of_toNat_eq
          have bound := sector.isLt
          rw [cursor_toNat _ _ (by omega), empty, Nat.add_zero]
        rw [segmentBytes_cons, List.length_append, bvec.bufferLength] at nonempty
        rw [sameSector]
        exact ih next (by omega) outside

/-- A write that runs past the last bitmap word leaves the bitmap. -/
theorem forEachSegment_past_bitmap (device : NvmDevice capacity) {sector : BitVec 64}
    {segments : List BioVec} (aligned : SectorAligned segments)
    (nonempty : 0 < sectorCount segments)
    (small : sector.toNat + sectorCount segments < 2 ^ 32)
    (outside : bitTableSize + 32 < sector.toNat + sectorCount segments) :
    forEachSegment WRITE device sector segments = none := by
  induction segments generalizing device sector with
  | nil => exact absurd nonempty (Nat.lt_irrefl 0)
  | cons bvec rest ih =>
      have count := sectorCount_cons aligned
      have cursor := cursor_toNat sector bvec.bvLen (by omega)
      apply forEachSegment_cons_eq_none
      intro next buffer moved
      by_cases here : 0 < lenSectors bvec.bvLen ∧
          bitTableSize + 32 < sector.toNat + lenSectors bvec.bvLen
      · have helper := writeHelper_eq_none device.tables sector bvec.bvLen here.1 (by omega) here.2
        have notRead : WRITE ≠ READ := by decide
        simp [nvmDoBvec, notRead, helper] at moved
      · exact ih next (fun other member => aligned other (List.mem_cons_of_mem bvec member))
          (by omega) (by omega) (by omega)

/-! ### Whole requests -/

def Bio.sectors (bio : Bio) : Nat := bio.biSize.toNat / 512

theorem Bio.sectorCount_segments (bio : Bio) : sectorCount bio.segments = bio.sectors := by
  rw [sectorCount, bio.sizeSum, Bio.sectors]

theorem not_exceedsCapacity_iff {bio : Bio} :
    ¬ exceedsCapacity capacity bio ↔
      (bio.biSector.toNat + bio.sectors) % 2 ^ 64 ≤ capacity.toNat := by
  have cap : (capacity.setWidth 64).toNat = capacity.toNat := by
    rw [BitVec.toNat_setWidth]
    have bound := capacity.isLt
    omega
  unfold exceedsCapacity
  rw [gt_iff_lt, BitVec.lt_def, BitVec.toNat_add, len_shift_toNat, cap]
  exact Nat.not_lt

theorem Bio.biSize_eq_zero_iff {bio : Bio} (aligned : SectorAligned bio.segments) :
    bio.biSize = 0 ↔ bio.sectors = 0 := by
  have whole := segmentBytes_aligned aligned
  rw [bio.sizeSum] at whole
  constructor
  · intro zero
    rw [Bio.sectors, zero]
    rfl
  · intro zero
    apply BitVec.eq_of_toNat_eq
    change bio.biSize.toNat = 0
    unfold Bio.sectors at zero
    omega

def Bio.InDevice (bio : Bio) (capacity : Word) : Prop :=
  ∀ i, bio.biSector.toNat ≤ i → i < bio.biSector.toNat + bio.sectors → i < capacity.toNat

theorem Bio.InDevice.bound {bio : Bio} (inside : bio.InDevice capacity) :
    bio.sectors = 0 ∨ bio.biSector.toNat + bio.sectors ≤ capacity.toNat := by
  by_cases empty : bio.sectors = 0
  · exact Or.inl empty
  · have last := inside (bio.biSector.toNat + bio.sectors - 1) (by omega) (by omega)
    right
    omega

/-- An accepted request is its segment loop between two updates of the statistics. -/
theorem nvmMakeRequest_accepted {env : RequestEnv} {device : NvmDevice capacity} {bio : Bio}
    (accepted : ¬ exceedsCapacity capacity bio) :
    nvmMakeRequest env device bio =
      (forEachSegment (bioDataDir bio) (nvmDevUpdateAccessTime device env.jiffies)
        bio.biSector bio.segments).map fun done =>
          ({ done.1 with nvmStat := updateStat done.1.nvmStat (bioDataDir bio) (bioSectors bio) },
            { status := bio.biStatus, buffers := done.2 }) := by
  simp only [nvmMakeRequest, accepted, if_false]
  cases forEachSegment (bioDataDir bio) (nvmDevUpdateAccessTime device env.jiffies)
    bio.biSector bio.segments <;> rfl

end OsCompiler.Nvmsim
