/-
Which accepted requests stay inside the allocated memory.

The range check compares a 64-bit sum, which may wrap, with the capacity; the
bitmap has the size of a 4096 MB device whatever the capacity is. An accepted
request stays in bounds exactly when neither of the two matters to it.
-/

import OsCompiler.Nvmsim.Request

namespace OsCompiler.Nvmsim

variable {capacity : Word}

/-- A byte offset that wraps lies far above every backing store. -/
private theorem wrapped_offset {sector : BitVec 64} {sectors : Nat} (small : sectors < 2 ^ 23)
    (wraps : 2 ^ 64 ≤ sector.toNat + sectors) :
    dataBytes capacity ≤ (sector <<< sectorShift).toNat := by
  have cap := capacity.isLt
  have bound := sector.isLt
  rw [sectorShift, BitVec.toNat_shiftLeft, Nat.shiftLeft_eq]
  unfold dataBytes
  omega

theorem Bio.sectors_lt (bio : Bio) : bio.sectors < 2 ^ 23 := by
  have bound := bio.biSize.isLt
  unfold Bio.sectors
  omega

private theorem nvmMakeRequest_wrapped {env : RequestEnv} {device : NvmDevice capacity} {bio : Bio}
    (accepted : ¬ exceedsCapacity capacity bio)
    (wraps : 2 ^ 64 ≤ bio.biSector.toNat + bio.sectors) :
    nvmMakeRequest env device bio = none := by
  have bound := bio.biSector.isLt
  have nonempty : 0 < (segmentBytes bio.segments).length := by
    rw [bio.sizeSum]
    unfold Bio.sectors at wraps
    omega
  rw [nvmMakeRequest_accepted accepted,
    forEachSegment_wrapped _ _ nonempty (wrapped_offset bio.sectors_lt wraps)]
  rfl

theorem nvmMakeRequest_past_bitmap {env : RequestEnv} {device : NvmDevice capacity} {bio : Bio}
    (aligned : SectorAligned bio.segments) (accepted : ¬ exceedsCapacity capacity bio)
    (writing : bio.isWrite = true) (nonempty : bio.sectors ≠ 0)
    (small : bio.biSector.toNat + bio.sectors < 2 ^ 64)
    (outside : bitTableSize + 32 < bio.biSector.toNat + bio.sectors) :
    nvmMakeRequest env device bio = none := by
  have check := not_exceedsCapacity_iff.mp accepted
  rw [Nat.mod_eq_of_lt small] at check
  have cap := capacity.isLt
  have direction : bioDataDir bio = WRITE := by
    rw [bioDataDir, writing]
    rfl
  have count := bio.sectorCount_segments
  rw [nvmMakeRequest_accepted accepted, direction, forEachSegment_past_bitmap _ aligned
    (by omega) (by omega) (by omega)]
  rfl

def Bio.transfer (bio : Bio) : FlatArray.Transfer UInt8 :=
  if bio.isWrite then .write (512 * bio.biSector.toNat) (segmentBytes bio.segments)
  else .read (512 * bio.biSector.toNat) bio.biSize.toNat

/-- The request has moved its bytes: the backing store and the buffers afterwards
are those of one contiguous transfer. -/
structure Moved (device after : NvmDevice capacity) (bio : Bio) (outcome : BioOutcome) : Prop where
  contents : after.nvmdevData.contents =
    (device.nvmdevData.contents.transfer bio.transfer).1
  bytes : outcome.buffers.flatten = (device.nvmdevData.contents.transfer bio.transfer).2
  lengths : outcome.buffers.map List.length = segmentLengths bio.segments

private theorem buffers_lengths (segments : List BioVec) :
    (segments.map BioVec.buffer).map List.length = segmentLengths segments := by
  rw [List.map_map]
  exact List.map_congr_left (fun bvec _ => bvec.bufferLength)

/-- A bio without data passes or fails the range check and moves nothing either way. -/
private theorem transfer_of_empty {bio : Bio} (aligned : SectorAligned bio.segments)
    (empty : bio.sectors = 0) (array : FlatArray UInt8) :
    array.transfer bio.transfer = (array, segmentBytes bio.segments) := by
  have size : bio.biSize = 0 := (Bio.biSize_eq_zero_iff aligned).mpr empty
  have noBytes : segmentBytes bio.segments = [] := by
    apply List.eq_nil_of_length_eq_zero
    rw [bio.sizeSum, size]
    rfl
  unfold Bio.transfer
  cases bio.isWrite with
  | true => simp [FlatArray.transfer, noBytes, FlatArray.overlay_nil]
  | false => simp [FlatArray.transfer, noBytes, size, FlatArray.slice]

/-- A request inside the device, and as a write inside the bitmap, moves its bytes. -/
theorem nvmMakeRequest_moves (env : RequestEnv) (device : NvmDevice capacity) {bio : Bio}
    (aligned : SectorAligned bio.segments) (inside : bio.InDevice capacity)
    (fits : bio.isWrite = true → bio.sectors = 0 ∨
      bio.biSector.toNat + bio.sectors ≤ bitTableSize + 32) :
    ∃ after outcome, nvmMakeRequest env device bio = some (after, outcome) ∧
      Moved device after bio outcome := by
  have range := inside.bound
  by_cases exceeds : exceedsCapacity capacity bio
  · have empty : bio.sectors = 0 := by
      apply range.resolve_right
      intro bound
      have cap := capacity.isLt
      exact not_exceedsCapacity_iff.mpr (by omega) exceeds
    refine ⟨_, _, by rw [nvmMakeRequest, if_pos exceeds], ?_, ?_, buffers_lengths bio.segments⟩
    · rw [transfer_of_empty aligned empty]
    · rw [transfer_of_empty aligned empty]
      rfl
  · have count := bio.sectorCount_segments
    rw [nvmMakeRequest_accepted exceeds]
    cases writing : bio.isWrite with
    | false =>
        have direction : bioDataDir bio = READ := by
          rw [bioDataDir, writing]
          rfl
        have transfer : bio.transfer = .read (512 * bio.biSector.toNat) bio.biSize.toNat := by
          rw [Bio.transfer, writing]
          rfl
        obtain ⟨buffers, run, bytes, lengths⟩ := forEachSegment_read
          (nvmDevUpdateAccessTime device env.jiffies)
          bio.biSector aligned (by omega)
        rw [direction, run]
        refine ⟨_, _, rfl, ?_, ?_, lengths⟩
        · rw [transfer]
          rfl
        · rw [transfer]
          rw [bio.sizeSum] at bytes
          exact bytes
    | true =>
        have direction : bioDataDir bio = WRITE := by
          rw [bioDataDir, writing]
          rfl
        have transfer : bio.transfer =
            .write (512 * bio.biSector.toNat) (segmentBytes bio.segments) := by
          rw [Bio.transfer, writing]
          rfl
        have room := fits writing
        obtain ⟨after, run, contents⟩ := forEachSegment_write
          (nvmDevUpdateAccessTime device env.jiffies)
          bio.biSector aligned (by omega)
        rw [direction, run]
        refine ⟨_, _, rfl, ?_, ?_, buffers_lengths bio.segments⟩
        · rw [transfer]
          exact contents
        · rw [transfer]
          rfl

/-- An accepted request touches allocated memory only, exactly when it moves no data,
or its sum of start and length does not wrap and, being a write, it ends within the
bitmap's words. -/
theorem nvmMakeRequest_in_bounds_iff (capacityMb : Word) (env : RequestEnv)
    (device : NvmDevice (nvmdevCapacity capacityMb)) (bio : Bio)
    (aligned : SectorAligned bio.segments)
    (accepted : ¬ exceedsCapacity (nvmdevCapacity capacityMb) bio) :
    (nvmMakeRequest env device bio).isSome = true ↔
      bio.biSize = 0 ∨ (bio.biSector.toNat + bio.sectors < 2 ^ 64 ∧
        (bio.isWrite = true → bio.biSector.toNat + bio.sectors ≤ bitTableSize + 32)) := by
  rw [Bio.biSize_eq_zero_iff aligned]
  constructor
  · intro inBounds
    by_cases empty : bio.sectors = 0
    · exact Or.inl empty
    · right
      have small : bio.biSector.toNat + bio.sectors < 2 ^ 64 := by
        by_contra wraps
        rw [nvmMakeRequest_wrapped accepted (Nat.le_of_not_lt wraps)] at inBounds
        cases inBounds
      refine ⟨small, ?_⟩
      intro writing
      by_contra outside
      rw [nvmMakeRequest_past_bitmap aligned accepted writing empty small
        (Nat.lt_of_not_le outside)] at inBounds
      cases inBounds
  · intro either
    rcases either with empty | ⟨small, fits⟩
    · obtain ⟨after, outcome, run, _⟩ := nvmMakeRequest_moves env device aligned
        (fun i lower upper => by omega) (fun _ => Or.inl empty)
      rw [run]
      rfl
    · have check := not_exceedsCapacity_iff.mp accepted
      rw [Nat.mod_eq_of_lt small] at check
      obtain ⟨after, outcome, run, _⟩ := nvmMakeRequest_moves env device aligned
        (fun i lower upper => by omega) (fun writing => Or.inr (fits writing))
      rw [run]
      rfl

/-- The last sector of a 4096 MB device may be written. -/
theorem last_sector_in_bounds :
    (nvmMakeRequest ⟨0, 0⟩ (zeroedDevice (nvmdevCapacity 4096#32))
      (oneSectorBio 8388607#64 true)).isSome = true :=
  (nvmMakeRequest_in_bounds_iff 4096#32 ⟨0, 0⟩ _ (oneSectorBio 8388607#64 true)
    (oneSectorBio_aligned _ _) (by decide)).mpr
    (Or.inr ⟨by decide, fun _ => by decide⟩)

/-- On an 8192 MB device an accepted write of sector 9000000 looks its block up far
outside the bitmap. -/
theorem large_device_write_out_of_bounds :
    ¬ exceedsCapacity (nvmdevCapacity 8192#32) (oneSectorBio 9000000#64 true) ∧
    SectorAligned (oneSectorBio 9000000#64 true).segments ∧
    nvmMakeRequest ⟨0, 0⟩ (zeroedDevice (nvmdevCapacity 8192#32))
      (oneSectorBio 9000000#64 true) = none :=
  ⟨by decide, oneSectorBio_aligned _ _,
    nvmMakeRequest_past_bitmap (oneSectorBio_aligned _ _) (by decide) rfl (by decide) (by decide)
      (by decide)⟩

end OsCompiler.Nvmsim
