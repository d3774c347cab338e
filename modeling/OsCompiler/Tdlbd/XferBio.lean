/-
The tdlbd block device: `vmem_disk_transfer` and the segment loop of
`vmem_disk_xfer_bio`.

An access outside a segment's buffer or outside the data array yields `none`. The
loop takes its lengths from `bio_cur_bytes(bio)`, and `bio->bi_iter` stays at the
first segment while the loop's own iterator moves on.
-/

import OsCompiler.Lib.FlatArray

namespace OsCompiler.Tdlbd

def BLOCK_SIZE : Nat := 512
def SECTOR_SIZE : Nat := 1024
def KERNEL_SECTOR_SIZE : BitVec 64 := 512

def deviceSize : Nat := SECTOR_SIZE * BLOCK_SIZE

structure VmemDiskDev where
  data : Region UInt8 deviceSize

/-- One segment: a buffer of exactly `bv_len` bytes at `bv_page + bv_offset`.
`bio_for_each_segment` never stops at an empty one. -/
structure BioVec where
  bvLen : BitVec 32
  buffer : List UInt8
  bufferLength : buffer.length = bvLen.toNat
  nonempty : 0 < bvLen.toNat

structure Bio where
  biSector : BitVec 64
  isWrite : Bool
  segments : List BioVec

def bioCurBytes (bio : Bio) : BitVec 32 :=
  match bio.segments with
  | [] => 0
  | bvec :: _ => bvec.bvLen

/-- A `memcpy` between the front of a segment's buffer and `dev->data + offset`. -/
structure Memcpy where
  offset : Nat
  nbytes : Nat

structure Xfer where
  dev : VmemDiskDev
  buffers : List (List UInt8)
  memcpys : List Memcpy

def vmemDiskTransfer (dev : VmemDiskDev) (sector nsect : BitVec 64) (buffer : List UInt8)
    (write : Bool) : Option (VmemDiskDev × List UInt8 × List Memcpy) :=
  let offset := sector * KERNEL_SECTOR_SIZE
  let nbytes := nsect * KERNEL_SECTOR_SIZE
  if offset + nbytes > BitVec.ofNat 64 deviceSize then some (dev, buffer, [])
  else if buffer.length < nbytes.toNat then none
  else if write then do
    let data ← dev.data.copyIn offset.toNat (buffer.take nbytes.toNat)
    pure ({ data := data }, buffer, [⟨offset.toNat, nbytes.toNat⟩])
  else do
    let bytes ← dev.data.copyOut offset.toNat nbytes.toNat
    pure (dev, bytes ++ buffer.drop nbytes.toNat, [⟨offset.toNat, nbytes.toNat⟩])

/-- `nsect` is `bio_cur_bytes(bio) >> 9`. -/
def forEachSegment (nsect : BitVec 64) (write : Bool) (dev : VmemDiskDev) (sector : BitVec 64) :
    List BioVec → Option Xfer
  | [] => some ⟨dev, [], []⟩
  | bvec :: rest => do
      let (dev, buffer, memcpys) ← vmemDiskTransfer dev sector nsect bvec.buffer write
      let later ← forEachSegment nsect write dev (sector + nsect) rest
      pure ⟨later.dev, buffer :: later.buffers, memcpys ++ later.memcpys⟩

def vmemDiskXferBio (dev : VmemDiskDev) (bio : Bio) : Option Xfer :=
  forEachSegment ((bioCurBytes bio >>> 9).setWidth 64) bio.isWrite dev bio.biSector bio.segments

/-! ### What a bio asks for -/

def segmentBytes (segments : List BioVec) : List UInt8 :=
  (segments.map BioVec.buffer).flatten

/-- Each segment against the device bytes that follow those of the previous one. -/
def ownCopies (offset : Nat) : List BioVec → List Memcpy
  | [] => []
  | bvec :: rest => ⟨offset, bvec.bvLen.toNat⟩ :: ownCopies (offset + bvec.bvLen.toNat) rest

def received (array : FlatArray UInt8) (copies : List Memcpy) : List (List UInt8) :=
  copies.map fun copy => array.slice copy.offset copy.nbytes

/-- Every segment's own bytes move, and nothing else does. -/
structure MovesExactly (dev : VmemDiskDev) (bio : Bio) (done : Xfer) : Prop where
  copies : done.memcpys = ownCopies (512 * bio.biSector.toNat) bio.segments
  written : bio.isWrite = true → done.buffers = bio.segments.map BioVec.buffer ∧
    done.dev.data.contents =
      dev.data.contents.overlay (512 * bio.biSector.toNat) (segmentBytes bio.segments)
  read : bio.isWrite = false → done.dev = dev ∧
    done.buffers = received dev.data.contents (ownCopies (512 * bio.biSector.toNat) bio.segments)

/-- The call touches no byte outside its buffers and moves what the bio asks for. -/
def TransfersExactly (dev : VmemDiskDev) (bio : Bio) : Prop :=
  ∃ done, vmemDiskXferBio dev bio = some done ∧ MovesExactly dev bio done

def SectorAligned (segments : List BioVec) : Prop :=
  ∀ bvec ∈ segments, 512 ∣ bvec.bvLen.toNat

def InDevice (bio : Bio) : Prop :=
  512 * bio.biSector.toNat + (segmentBytes bio.segments).length ≤ deviceSize

theorem segmentBytes_cons (bvec : BioVec) (rest : List BioVec) :
    segmentBytes (bvec :: rest) = bvec.buffer ++ segmentBytes rest := rfl

/-! ### One turn of the loop -/

/-- The code's sector arithmetic is exact for a range inside the device. -/
private theorem sector_bytes {sector : BitVec 64} (inside : 512 * sector.toNat ≤ deviceSize) :
    (sector * KERNEL_SECTOR_SIZE).toNat = 512 * sector.toNat := by
  have small : deviceSize = 524288 := rfl
  rw [KERNEL_SECTOR_SIZE, BitVec.toNat_mul]
  change sector.toNat * 512 % 2 ^ 64 = 512 * sector.toNat
  omega

private theorem not_beyond_end {sector nsect : BitVec 64}
    (inside : 512 * sector.toNat + 512 * nsect.toNat ≤ deviceSize) :
    ¬ sector * KERNEL_SECTOR_SIZE + nsect * KERNEL_SECTOR_SIZE > BitVec.ofNat 64 deviceSize := by
  have start : (sector * KERNEL_SECTOR_SIZE).toNat = 512 * sector.toNat := sector_bytes (by omega)
  have length : (nsect * KERNEL_SECTOR_SIZE).toNat = 512 * nsect.toNat := sector_bytes (by omega)
  have small : deviceSize = 524288 := rfl
  rw [gt_iff_lt, BitVec.lt_def, BitVec.toNat_add, start, length, BitVec.toNat_ofNat, small]
  omega

private theorem vmemDiskTransfer_write {dev : VmemDiskDev} {sector nsect : BitVec 64}
    {buffer : List UInt8} (full : buffer.length = 512 * nsect.toNat)
    (inside : 512 * sector.toNat + 512 * nsect.toNat ≤ deviceSize) :
    ∃ after, vmemDiskTransfer dev sector nsect buffer true =
        some (after, buffer, [⟨512 * sector.toNat, buffer.length⟩]) ∧
      after.data.contents = dev.data.contents.overlay (512 * sector.toNat) buffer := by
  have start : (sector * KERNEL_SECTOR_SIZE).toNat = 512 * sector.toNat := sector_bytes (by omega)
  have length : (nsect * KERNEL_SECTOR_SIZE).toNat = 512 * nsect.toNat := sector_bytes (by omega)
  obtain ⟨data, copied, contents⟩ := dev.data.copyIn_eq_overlay (512 * sector.toNat) buffer
    (Or.inr (by omega))
  refine ⟨⟨data⟩, ?_, contents⟩
  unfold vmemDiskTransfer
  rw [if_neg (not_beyond_end inside), start, length, ← full, if_neg (Nat.lt_irrefl _),
    if_pos rfl, List.take_length, copied]
  rfl

private theorem vmemDiskTransfer_read {dev : VmemDiskDev} {sector nsect : BitVec 64}
    {buffer : List UInt8} (full : buffer.length = 512 * nsect.toNat)
    (inside : 512 * sector.toNat + 512 * nsect.toNat ≤ deviceSize) :
    vmemDiskTransfer dev sector nsect buffer false =
      some (dev, dev.data.contents.slice (512 * sector.toNat) buffer.length,
        [⟨512 * sector.toNat, buffer.length⟩]) := by
  have start : (sector * KERNEL_SECTOR_SIZE).toNat = 512 * sector.toNat := sector_bytes (by omega)
  have length : (nsect * KERNEL_SECTOR_SIZE).toNat = 512 * nsect.toNat := sector_bytes (by omega)
  have copied : dev.data.copyOut (512 * sector.toNat) buffer.length =
      some (dev.data.contents.slice (512 * sector.toNat) buffer.length) :=
    dev.data.copyOut_eq_slice (Or.inr (by omega))
  unfold vmemDiskTransfer
  rw [if_neg (not_beyond_end inside), start, length, ← full, if_neg (Nat.lt_irrefl _),
    if_neg Bool.false_ne_true, copied, List.drop_length]
  simp

/-- Whatever a turn copies, its length is that of the loop. -/
theorem vmemDiskTransfer_nbytes {dev after : VmemDiskDev} {sector nsect : BitVec 64}
    {buffer left : List UInt8} {write : Bool} {memcpys : List Memcpy}
    (turn : vmemDiskTransfer dev sector nsect buffer write = some (after, left, memcpys)) :
    ∀ copy ∈ memcpys, copy.nbytes = (nsect * KERNEL_SECTOR_SIZE).toNat := by
  unfold vmemDiskTransfer at turn
  by_cases beyond : sector * KERNEL_SECTOR_SIZE + nsect * KERNEL_SECTOR_SIZE >
      BitVec.ofNat 64 deviceSize
  · rw [if_pos beyond] at turn
    cases turn
    intro copy member
    cases member
  · rw [if_neg beyond] at turn
    by_cases short : buffer.length < (nsect * KERNEL_SECTOR_SIZE).toNat
    · rw [if_pos short] at turn
      cases turn
    · rw [if_neg short] at turn
      have single : memcpys =
          [⟨(sector * KERNEL_SECTOR_SIZE).toNat, (nsect * KERNEL_SECTOR_SIZE).toNat⟩] := by
        cases write with
        | true =>
            rw [if_pos rfl] at turn
            rcases Option.bind_eq_some_iff.mp turn with ⟨data, _, result⟩
            cases result
            rfl
        | false =>
            rw [if_neg Bool.false_ne_true] at turn
            rcases Option.bind_eq_some_iff.mp turn with ⟨bytes, _, result⟩
            cases result
            rfl
      intro copy member
      rw [single, List.mem_singleton] at member
      rw [member]

/-! ### The whole loop -/

theorem forEachSegment_nbytes {dev : VmemDiskDev} {sector nsect : BitVec 64} {write : Bool}
    {segments : List BioVec} {done : Xfer}
    (run : forEachSegment nsect write dev sector segments = some done) :
    ∀ copy ∈ done.memcpys, copy.nbytes = (nsect * KERNEL_SECTOR_SIZE).toNat := by
  induction segments generalizing dev sector done with
  | nil =>
      cases run
      intro copy member
      cases member
  | cons bvec rest ih =>
      rcases Option.bind_eq_some_iff.mp run with ⟨⟨middle, buffer, memcpys⟩, turn, after⟩
      rcases Option.bind_eq_some_iff.mp after with ⟨later, tail, result⟩
      cases result
      intro copy member
      rcases List.mem_append.mp member with here | there
      · exact vmemDiskTransfer_nbytes turn copy here
      · exact ih tail copy there

private theorem mem_ownCopies {segments : List BioVec} {bvec : BioVec} (member : bvec ∈ segments)
    (offset : Nat) : ∃ copy ∈ ownCopies offset segments, copy.nbytes = bvec.bvLen.toNat := by
  induction segments generalizing offset with
  | nil => cases member
  | cons first rest ih =>
      rcases List.mem_cons.mp member with rfl | later
      · exact ⟨_, List.mem_cons_self, rfl⟩
      · rcases ih later (offset + first.bvLen.toNat) with ⟨copy, present, length⟩
        exact ⟨copy, List.mem_cons_of_mem _ present, length⟩

/-- Segments of the loop's own length move one after another. -/
theorem forEachSegment_uniform {nsect : BitVec 64} {segments : List BioVec}
    (uniform : ∀ bvec ∈ segments, bvec.bvLen.toNat = 512 * nsect.toNat) (write : Bool)
    (dev : VmemDiskDev) (sector : BitVec 64)
    (inside : 512 * sector.toNat + (segmentBytes segments).length ≤ deviceSize) :
    ∃ done, forEachSegment nsect write dev sector segments = some done ∧
      done.memcpys = ownCopies (512 * sector.toNat) segments ∧
      (write = true → done.buffers = segments.map BioVec.buffer ∧
        done.dev.data.contents =
          dev.data.contents.overlay (512 * sector.toNat) (segmentBytes segments)) ∧
      (write = false → done.dev = dev ∧
        done.buffers = received dev.data.contents (ownCopies (512 * sector.toNat) segments)) := by
  induction segments generalizing dev sector with
  | nil =>
      refine ⟨⟨dev, [], []⟩, rfl, rfl, ?_, fun _ => ⟨rfl, rfl⟩⟩
      intro _
      exact ⟨rfl, (FlatArray.overlay_nil _ _).symm⟩
  | cons bvec rest ih =>
      have here : bvec.bvLen.toNat = 512 * nsect.toNat := uniform bvec List.mem_cons_self
      have full : bvec.buffer.length = 512 * nsect.toNat := bvec.bufferLength.trans here
      have small : deviceSize = 524288 := rfl
      rw [segmentBytes_cons, List.length_append] at inside
      have next : 512 * (sector + nsect).toNat = 512 * sector.toNat + bvec.bvLen.toNat := by
        rw [BitVec.toNat_add]
        omega
      have later := fun dev => ih (fun other member => uniform other (List.mem_cons_of_mem _ member))
        dev (sector + nsect) (by omega)
      cases write with
      | true =>
          rcases @vmemDiskTransfer_write dev sector nsect _ full (by omega) with
            ⟨middle, turn, contents⟩
          rcases later middle with ⟨done, run, copies, written, _⟩
          rcases written rfl with ⟨kept, overlaid⟩
          refine ⟨⟨done.dev, bvec.buffer :: done.buffers,
            ⟨512 * sector.toNat, bvec.buffer.length⟩ :: done.memcpys⟩, ?_, ?_, ?_, ?_⟩
          · simp only [forEachSegment, turn, run, Option.bind_eq_bind, Option.bind_some]
            rfl
          · rw [copies, next, bvec.bufferLength]
            rfl
          · intro _
            rw [kept, overlaid, contents, next, segmentBytes_cons, FlatArray.overlay_append,
              bvec.bufferLength]
            exact ⟨rfl, rfl⟩
          · intro impossible
            cases impossible
      | false =>
          have turn := @vmemDiskTransfer_read dev sector nsect _ full (by omega)
          rcases later dev with ⟨done, run, copies, _, read⟩
          rcases read rfl with ⟨same, filled⟩
          refine ⟨⟨done.dev, dev.data.contents.slice (512 * sector.toNat) bvec.buffer.length ::
            done.buffers, ⟨512 * sector.toNat, bvec.buffer.length⟩ :: done.memcpys⟩, ?_, ?_, ?_, ?_⟩
          · simp only [forEachSegment, turn, run, Option.bind_eq_bind, Option.bind_some]
            rfl
          · rw [copies, next, bvec.bufferLength]
            rfl
          · intro impossible
            cases impossible
          · intro _
            rw [filled, next, bvec.bufferLength]
            exact ⟨same, rfl⟩

/-- The loop's `nsect` is the first segment's length in sectors. -/
private theorem curBytes_sectors {len : BitVec 32} (aligned : 512 ∣ len.toNat) :
    len.toNat = 512 * ((len >>> 9).setWidth 64 : BitVec 64).toNat := by
  have bound := len.isLt
  rw [BitVec.toNat_setWidth, BitVec.toNat_ushiftRight, Nat.shiftRight_eq_div_pow]
  omega

/-- A bio that is transferred exactly has segments of one length only. -/
theorem TransfersExactly.uniform {dev : VmemDiskDev} {bio : Bio}
    (exactly : TransfersExactly dev bio) :
    ∀ bvec ∈ bio.segments, bvec.bvLen = bioCurBytes bio := by
  rcases exactly with ⟨done, run, moves⟩
  have lengths := forEachSegment_nbytes run
  rw [moves.copies] at lengths
  have loopLength : ∀ bvec ∈ bio.segments, bvec.bvLen.toNat =
      (((bioCurBytes bio >>> 9).setWidth 64 : BitVec 64) * KERNEL_SECTOR_SIZE).toNat := by
    intro bvec member
    rcases mem_ownCopies member (512 * bio.biSector.toNat) with ⟨copy, present, length⟩
    rw [← length, lengths copy present]
  intro bvec member
  apply BitVec.eq_of_toNat_eq
  unfold bioCurBytes at *
  cases shape : bio.segments with
  | nil =>
      rw [shape] at member
      cases member
  | cons first rest =>
      have isFirst : first ∈ bio.segments := by
        rw [shape]
        exact List.mem_cons_self
      exact (loopLength bvec member).trans (loopLength first isFirst).symm

/-- A bio inside the device is transferred exactly if and only if all its segments are as
long as the first. -/
theorem vmem_disk_xfer_bio_exact_iff (dev : VmemDiskDev) (bio : Bio)
    (aligned : SectorAligned bio.segments) (inside : InDevice bio) :
    TransfersExactly dev bio ↔ ∀ bvec ∈ bio.segments, bvec.bvLen = bioCurBytes bio := by
  constructor
  · exact TransfersExactly.uniform
  · intro uniform
    have sectors : ∀ bvec ∈ bio.segments, bvec.bvLen.toNat =
        512 * ((bioCurBytes bio >>> 9).setWidth 64 : BitVec 64).toNat := by
      intro bvec member
      rw [← uniform bvec member]
      exact curBytes_sectors (aligned bvec member)
    rcases forEachSegment_uniform sectors bio.isWrite dev bio.biSector inside with
      ⟨done, run, copies, written, read⟩
    exact ⟨done, run, copies, written, read⟩

/-! ### Two bios on a zeroed device -/

def zeroedDev : VmemDiskDev := ⟨Region.fill deviceSize 0⟩

def zeroSegment (len : BitVec 32) (nonempty : 0 < len.toNat) : BioVec where
  bvLen := len
  buffer := List.replicate len.toNat 0
  bufferLength := List.length_replicate
  nonempty := nonempty

def unevenBio : Bio where
  biSector := 0
  isWrite := true
  segments := [zeroSegment 1024 (by decide), zeroSegment 512 (by decide)]

def evenBio : Bio where
  biSector := 0
  isWrite := true
  segments := [zeroSegment 512 (by decide), zeroSegment 512 (by decide)]

private theorem segmentBytes_length (segments : List BioVec) : (segmentBytes segments).length =
    segments.foldr (fun bvec total => bvec.bvLen.toNat + total) 0 := by
  induction segments with
  | nil => rfl
  | cons bvec rest ih =>
      rw [segmentBytes_cons, List.length_append, ih, bvec.bufferLength]
      rfl

private theorem inDevice_zero {bio : Bio} (start : bio.biSector = 0)
    (total : bio.segments.foldr (fun bvec total => bvec.bvLen.toNat + total) 0 ≤ deviceSize) :
    InDevice bio := by
  have zero : bio.biSector.toNat = 0 := by
    rw [start]
    rfl
  rw [InDevice, zero, segmentBytes_length]
  omega

theorem evenBio_exact : TransfersExactly zeroedDev evenBio := by
  apply (vmem_disk_xfer_bio_exact_iff zeroedDev evenBio ?_ ?_).mpr
  · intro bvec member
    have same : bvec = zeroSegment 512 (by decide) := by
      simpa [evenBio] using member
    rw [same]
    rfl
  · intro bvec member
    have same : bvec = zeroSegment 512 (by decide) := by
      simpa [evenBio] using member
    rw [same]
    exact Nat.dvd_refl 512
  · exact inDevice_zero rfl (by decide)

/-- The second turn takes two sectors from a buffer of one. -/
theorem unevenBio_not_exact : SectorAligned unevenBio.segments ∧ InDevice unevenBio ∧
    ¬ TransfersExactly zeroedDev unevenBio := by
  have members : ∀ bvec ∈ unevenBio.segments, bvec = zeroSegment 1024 (by decide) ∨
      bvec = zeroSegment 512 (by decide) := by
    intro bvec member
    simpa [unevenBio] using member
  refine ⟨?_, ?_, ?_⟩
  · intro bvec member
    rcases members bvec member with rfl | rfl
    · exact ⟨2, rfl⟩
    · exact ⟨1, rfl⟩
  · exact inDevice_zero rfl (by decide)
  · intro exactly
    have same := exactly.uniform (zeroSegment 512 (by decide))
      (List.mem_cons_of_mem _ List.mem_cons_self)
    have lengths := congrArg BitVec.toNat same
    cases lengths

end OsCompiler.Tdlbd
