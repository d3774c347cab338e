/-
The block device as a flat byte array.

A history of requests is compared with the same transfers on a flat array: the
segments a bio is cut into do not occur on that side at all. The device refines
the array on a history exactly when no write of it runs past the bitmap.
-/

import OsCompiler.Nvmsim.Bounds

namespace OsCompiler.Nvmsim

variable {capacity : Word}

structure Request where
  env : RequestEnv
  bio : Bio

def processBios (device : NvmDevice capacity) :
    List Request → Option (NvmDevice capacity × List BioOutcome)
  | [] => some (device, [])
  | request :: rest => do
      let (device, outcome) ← nvmMakeRequest request.env device request.bio
      let (device, outcomes) ← processBios device rest
      pure (device, outcome :: outcomes)

def transfersOf (requests : List Request) : List (FlatArray.Transfer UInt8) :=
  requests.map fun request => request.bio.transfer

/-- What a caller may hand to the device: whole sectors, all of them the device's. -/
def Request.Valid (capacity : Word) (request : Request) : Prop :=
  SectorAligned request.bio.segments ∧ request.bio.InDevice capacity

/-- What can be seen of a processed history: the stored bytes and, request by
request, the bytes the segments hold at its completion. -/
def observe (result : Option (NvmDevice capacity × List BioOutcome)) :
    Option (FlatArray UInt8 × List (List UInt8)) :=
  result.map fun done =>
    (done.1.nvmdevData.contents, done.2.map fun outcome => outcome.buffers.flatten)

/-- Every request completes, the stored and delivered bytes are those of the flat
array, and each segment receives its own length of them. -/
def RefinesFlat (device : NvmDevice capacity) (requests : List Request) : Prop :=
  observe (processBios device requests) =
      some (device.nvmdevData.contents.transfers (transfersOf requests)) ∧
    ∀ final outcomes, processBios device requests = some (final, outcomes) →
      outcomes.map (fun outcome => outcome.buffers.map List.length) =
        requests.map fun request => segmentLengths request.bio.segments

/-- The write, if it has data, ends within the words of the bitmap. -/
def FitsBitmap : FlatArray.Transfer UInt8 → Prop
  | .read _ _ => True
  | .write offset values => values = [] ∨ offset + values.length ≤ 512 * (bitTableSize + 32)

theorem fitsBitmap_transfer_iff {bio : Bio} (aligned : SectorAligned bio.segments) :
    FitsBitmap bio.transfer ↔ (bio.isWrite = true → bio.sectors = 0 ∨
      bio.biSector.toNat + bio.sectors ≤ bitTableSize + 32) := by
  cases writing : bio.isWrite with
  | false => simp [Bio.transfer, writing, FitsBitmap]
  | true =>
      have length := segmentBytes_length aligned
      rw [bio.sectorCount_segments] at length
      have empty : segmentBytes bio.segments = [] ↔ bio.sectors = 0 := by
        rw [← List.length_eq_zero_iff, length]
        omega
      simp only [Bio.transfer, writing, if_true, FitsBitmap, empty, length, true_implies]
      omega

private theorem processBios_refines (device : NvmDevice capacity) {requests : List Request}
    (valid : ∀ request ∈ requests, request.Valid capacity)
    (fits : ∀ transfer ∈ transfersOf requests, FitsBitmap transfer) :
    RefinesFlat device requests := by
  induction requests generalizing device with
  | nil =>
      refine ⟨rfl, ?_⟩
      intro final outcomes run
      cases run
      rfl
  | cons request rest ih =>
      obtain ⟨aligned, inside⟩ := valid request List.mem_cons_self
      have fitsHere : FitsBitmap request.bio.transfer := fits _ List.mem_cons_self
      obtain ⟨after, outcome, run, moved⟩ := nvmMakeRequest_moves request.env device aligned inside
        ((fitsBitmap_transfer_iff aligned).mp fitsHere)
      obtain ⟨observed, lengths⟩ := ih after
        (fun other member => valid other (List.mem_cons_of_mem request member))
        (fun other member => fits other (List.mem_cons_of_mem _ member))
      cases restRun : processBios after rest with
      | none =>
          rw [restRun] at observed
          cases observed
      | some done =>
          obtain ⟨final, outcomes⟩ := done
          have whole : processBios device (request :: rest) = some (final, outcome :: outcomes) := by
            simp [processBios, run, restRun]
          rw [restRun] at observed
          simp only [observe, Option.map_some, Option.some.injEq] at observed
          constructor
          · have split : transfersOf (request :: rest) =
                request.bio.transfer :: transfersOf rest := rfl
            rw [whole, split, FlatArray.transfers_cons, ← moved.contents, ← moved.bytes, ← observed]
            rfl
          · intro final' outcomes' run'
            rw [whole] at run'
            cases run'
            rw [List.map_cons, List.map_cons, moved.lengths, lengths final outcomes restRun]

private theorem fits_of_processBios {device final : NvmDevice capacity} {requests : List Request}
    {outcomes : List BioOutcome} (valid : ∀ request ∈ requests, request.Valid capacity)
    (run : processBios device requests = some (final, outcomes)) :
    ∀ transfer ∈ transfersOf requests, FitsBitmap transfer := by
  induction requests generalizing device final outcomes with
  | nil =>
      intro transfer member
      cases member
  | cons request rest ih =>
      obtain ⟨aligned, inside⟩ := valid request List.mem_cons_self
      simp only [processBios, Option.bind_eq_bind, Option.bind_eq_some_iff] at run
      obtain ⟨⟨after, outcome⟩, here, ⟨final', outcomes'⟩, restRun, _⟩ := run
      intro transfer member
      rcases List.mem_cons.mp member with rfl | later
      · apply (fitsBitmap_transfer_iff aligned).mpr
        intro writing
        by_contra outside
        rw [not_or] at outside
        have bound := inside.bound
        have cap := capacity.isLt
        have accepted : ¬ exceedsCapacity capacity request.bio :=
          not_exceedsCapacity_iff.mpr (by omega)
        rw [nvmMakeRequest_past_bitmap aligned accepted writing outside.1 (by omega)
          (by omega)] at here
        cases here
      · exact ih (fun other member => valid other (List.mem_cons_of_mem request member))
          restRun transfer later

/-- On every history of valid requests the device refines the flat array, however the
bios are cut into segments, exactly when every write with data ends within the words
of the bitmap. -/
theorem nvmMakeRequest_refines_flat_iff (device : NvmDevice capacity) (requests : List Request)
    (valid : ∀ request ∈ requests, request.Valid capacity) :
    (RefinesFlat device requests ∧
      ∀ recut : List Request, (∀ request ∈ recut, request.Valid capacity) →
        transfersOf recut = transfersOf requests →
        observe (processBios device recut) = observe (processBios device requests)) ↔
    ∀ transfer ∈ transfersOf requests, FitsBitmap transfer := by
  constructor
  · intro both
    rcases both with ⟨⟨observed, _⟩, _⟩
    cases run : processBios device requests with
    | none =>
        rw [run] at observed
        cases observed
    | some done => exact fits_of_processBios valid run
  · intro fits
    have refines := processBios_refines device valid fits
    refine ⟨refines, ?_⟩
    intro recut recutValid same
    have recutRefines := processBios_refines device recutValid
      (by rw [same]; exact fits)
    rw [recutRefines.1, refines.1, same]

/-- A write and a read back on a 4096 MB device. -/
theorem write_read_refines_flat :
    RefinesFlat (zeroedDevice (nvmdevCapacity 4096#32))
      [⟨⟨0, 0⟩, oneSectorBio 8388607#64 true⟩, ⟨⟨0, 0⟩, oneSectorBio 8388607#64 false⟩] := by
  refine ((nvmMakeRequest_refines_flat_iff (zeroedDevice (nvmdevCapacity 4096#32)) _ ?_).mpr ?_).1
  · intro request member
    simp only [List.mem_cons, List.not_mem_nil, or_false] at member
    rcases member with rfl | rfl <;>
      refine ⟨oneSectorBio_aligned _ _, fun i _ upper => Nat.lt_of_lt_of_le upper ?_⟩ <;> decide
  · intro transfer member
    simp only [transfersOf, List.map_cons, List.map_nil, List.mem_cons, List.not_mem_nil,
      or_false] at member
    rcases member with rfl | rfl <;>
      refine (fitsBitmap_transfer_iff (oneSectorBio_aligned _ _)).mpr (fun _ => Or.inr ?_) <;> decide

/-- On an 8192 MB device a valid write of sector 9000000 does not complete. -/
theorem large_device_write_not_flat :
    Request.Valid (nvmdevCapacity 8192#32) ⟨⟨0, 0⟩, oneSectorBio 9000000#64 true⟩ ∧
    ¬ RefinesFlat (zeroedDevice (nvmdevCapacity 8192#32))
      [⟨⟨0, 0⟩, oneSectorBio 9000000#64 true⟩] := by
  have valid : Request.Valid (nvmdevCapacity 8192#32) ⟨⟨0, 0⟩, oneSectorBio 9000000#64 true⟩ :=
    ⟨oneSectorBio_aligned _ _, fun i _ upper => Nat.lt_of_lt_of_le upper (by decide)⟩
  refine ⟨valid, ?_⟩
  intro both
  rcases both with ⟨observed, _⟩
  have stopped : processBios (zeroedDevice (nvmdevCapacity 8192#32))
      [⟨⟨0, 0⟩, oneSectorBio 9000000#64 true⟩] = none := by
    rw [processBios, nvmMakeRequest_past_bitmap valid.1 (by decide) rfl (by decide) (by decide)
      (by decide)]
    rfl
  rw [stopped] at observed
  cases observed

end OsCompiler.Nvmsim
