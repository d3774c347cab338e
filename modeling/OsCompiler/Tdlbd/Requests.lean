/-
The two ways in which tdlbd serves its bios: `vmem_disk_request` takes requests off the
queue, `vmem_disk_make_request` is called for each bio.

Both leave the same device and fill the same buffers, whatever the bios. On bios that are
transferred exactly, the device is a flat array of bytes.
-/

import OsCompiler.Tdlbd.XferBio

namespace OsCompiler.Tdlbd

def EIO : Int := 5

/-- A request on the queue; one that is not from a file system is passed through. -/
structure Request where
  isPassthrough : Bool
  bios : List Bio

/-- How a request is ended, and the buffers of its bios where they have been transferred. -/
structure Completion where
  error : Int
  buffers : List (List (List UInt8))

def forEachBio (dev : VmemDiskDev) :
    List Bio → Option (VmemDiskDev × List (List (List UInt8)))
  | [] => some (dev, [])
  | bio :: rest => do
      let done ← vmemDiskXferBio dev bio
      let (dev, buffers) ← forEachBio done.dev rest
      pure (dev, done.buffers :: buffers)

/-- Each request is started, which takes it off the queue, and ended as a whole. -/
def vmemDiskRequest (dev : VmemDiskDev) :
    List Request → Option (VmemDiskDev × List Completion)
  | [] => some (dev, [])
  | req :: queue =>
      if req.isPassthrough then do
        let (dev, completions) ← vmemDiskRequest dev queue
        pure (dev, ⟨- EIO, []⟩ :: completions)
      else do
        let (dev, buffers) ← forEachBio dev req.bios
        let (dev, completions) ← vmemDiskRequest dev queue
        pure (dev, ⟨0, buffers⟩ :: completions)

/-- `bio_endio` is not given the status. -/
def vmemDiskMakeRequest (dev : VmemDiskDev) (bio : Bio) :
    Option (VmemDiskDev × List (List UInt8)) := do
  let done ← vmemDiskXferBio dev bio
  pure (done.dev, done.buffers)

def submitBios (dev : VmemDiskDev) : List Bio → Option (VmemDiskDev × List (List (List UInt8)))
  | [] => some (dev, [])
  | bio :: rest => do
      let (dev, buffers) ← vmemDiskMakeRequest dev bio
      let (dev, later) ← submitBios dev rest
      pure (dev, buffers :: later)

def fsBios (queue : List Request) : List Bio :=
  (queue.filter fun req => !req.isPassthrough).flatMap Request.bios

/-! ### Both ways agree -/

theorem forEachBio_eq (dev : VmemDiskDev) (bios : List Bio) :
    forEachBio dev bios = submitBios dev bios := by
  induction bios generalizing dev with
  | nil => rfl
  | cons bio rest ih =>
      rw [forEachBio, submitBios, vmemDiskMakeRequest]
      cases vmemDiskXferBio dev bio with
      | none => rfl
      | some done =>
          simp only [Option.bind_eq_bind, Option.bind_some, Option.pure_def]
          rw [ih]

private theorem submitBios_append (dev : VmemDiskDev) (first second : List Bio) :
    submitBios dev (first ++ second) = (submitBios dev first).bind fun here =>
      (submitBios here.1 second).map fun later => (later.1, here.2 ++ later.2) := by
  induction first generalizing dev with
  | nil =>
      rw [List.nil_append, submitBios, Option.bind_some]
      cases submitBios dev second <;> rfl
  | cons bio rest ih =>
      rw [List.cons_append, submitBios, submitBios]
      cases vmemDiskMakeRequest dev bio with
      | none => rfl
      | some done =>
          rcases done with ⟨after, buffers⟩
          simp only [Option.bind_eq_bind, Option.bind_some, Option.pure_def, ih]
          cases submitBios after rest with
          | none => rfl
          | some here =>
              rcases here with ⟨middle, moved⟩
              simp only [Option.bind_some]
              cases submitBios middle second <;> rfl

def served (done : VmemDiskDev × List Completion) : VmemDiskDev × List (List (List UInt8)) :=
  (done.1, done.2.flatMap Completion.buffers)

private theorem fsBios_cons (req : Request) (queue : List Request) :
    fsBios (req :: queue) = (if req.isPassthrough then [] else req.bios) ++ fsBios queue := by
  rcases req with ⟨_ | _, bios⟩
  · rfl
  · rfl

private theorem vmemDiskRequest_served (dev : VmemDiskDev) (queue : List Request) :
    (vmemDiskRequest dev queue).map served = submitBios dev (fsBios queue) := by
  induction queue generalizing dev with
  | nil => rfl
  | cons req queue ih =>
      rw [fsBios_cons, submitBios_append, vmemDiskRequest]
      by_cases passed : req.isPassthrough = true
      · rw [if_pos passed, if_pos passed, submitBios]
        simp only [Option.bind_eq_bind, Option.bind_some, Option.pure_def, List.nil_append, ← ih]
        cases vmemDiskRequest dev queue <;> rfl
      · rw [if_neg passed, if_neg passed, forEachBio_eq]
        cases submitBios dev req.bios with
        | none => rfl
        | some here =>
            rcases here with ⟨after, buffers⟩
            simp only [Option.bind_eq_bind, Option.bind_some, Option.pure_def, ← ih]
            cases vmemDiskRequest after queue <;> rfl

private theorem vmemDiskRequest_errors {dev after : VmemDiskDev} {queue : List Request}
    {completions : List Completion} (run : vmemDiskRequest dev queue = some (after, completions)) :
    completions.map Completion.error =
      queue.map fun req => if req.isPassthrough then - EIO else 0 := by
  induction queue generalizing dev after completions with
  | nil =>
      cases run
      rfl
  | cons req queue ih =>
      rw [vmemDiskRequest] at run
      by_cases passed : req.isPassthrough = true
      · rw [if_pos passed] at run
        rcases Option.bind_eq_some_iff.mp run with ⟨⟨last, later⟩, rest, result⟩
        cases result
        rw [List.map_cons, List.map_cons, if_pos passed, ih rest]
      · rw [if_neg passed] at run
        rcases Option.bind_eq_some_iff.mp run with ⟨⟨middle, buffers⟩, _, after⟩
        rcases Option.bind_eq_some_iff.mp after with ⟨⟨last, later⟩, rest, result⟩
        cases result
        rw [List.map_cons, List.map_cons, if_neg passed, ih rest]

/-! ### The device as a flat array -/

def Bio.transfer (bio : Bio) : FlatArray.Transfer UInt8 :=
  if bio.isWrite then .write (512 * bio.biSector.toNat) (segmentBytes bio.segments)
  else .read (512 * bio.biSector.toNat) (segmentBytes bio.segments).length

/-- Whole sectors of the device in segments of one length. -/
structure Bio.Fits (bio : Bio) : Prop where
  aligned : SectorAligned bio.segments
  inside : InDevice bio
  uniform : ∀ bvec ∈ bio.segments, bvec.bvLen = bioCurBytes bio

private theorem received_flatten (array : FlatArray UInt8) (offset : Nat) (segments : List BioVec) :
    (received array (ownCopies offset segments)).flatten =
      array.slice offset (segmentBytes segments).length := by
  induction segments generalizing offset with
  | nil => rfl
  | cons bvec rest ih =>
      rw [segmentBytes_cons, List.length_append, bvec.bufferLength, FlatArray.slice_add, ← ih]
      rfl

theorem Bio.Fits.uniform_sectors {bio : Bio} (fits : bio.Fits) :
    ∀ bvec ∈ bio.segments, bvec.bvLen.toNat =
      512 * ((bioCurBytes bio >>> 9).setWidth 64 : BitVec 64).toNat := by
  intro bvec member
  rcases fits.aligned bvec member with ⟨sectors, length⟩
  have bound := bvec.bvLen.isLt
  rw [← fits.uniform bvec member, BitVec.toNat_setWidth, BitVec.toNat_ushiftRight,
    Nat.shiftRight_eq_div_pow]
  omega

private theorem vmemDiskMakeRequest_fits (dev : VmemDiskDev) {bio : Bio} (fits : bio.Fits) :
    ∃ after buffers, vmemDiskMakeRequest dev bio = some (after, buffers) ∧
      (after.data.contents, buffers.flatten) = dev.data.contents.transfer bio.transfer := by
  rcases forEachSegment_uniform fits.uniform_sectors bio.isWrite dev bio.biSector fits.inside with
    ⟨done, run, _, written, read⟩
  refine ⟨done.dev, done.buffers, ?_, ?_⟩
  · rw [vmemDiskMakeRequest, vmemDiskXferBio, run]
    rfl
  · unfold Bio.transfer
    cases writing : bio.isWrite with
    | true =>
        rcases written writing with ⟨kept, overlaid⟩
        rw [kept, overlaid]
        rfl
    | false =>
        rcases read writing with ⟨same, filled⟩
        rw [same, filled, received_flatten]
        rfl

private theorem submitBios_fits (dev : VmemDiskDev) {bios : List Bio}
    (fits : ∀ bio ∈ bios, bio.Fits) :
    ∃ after buffers, submitBios dev bios = some (after, buffers) ∧
      (after.data.contents, buffers.map List.flatten) =
        dev.data.contents.transfers (bios.map Bio.transfer) := by
  induction bios generalizing dev with
  | nil => exact ⟨dev, [], rfl, rfl⟩
  | cons bio rest ih =>
      rcases vmemDiskMakeRequest_fits dev (fits bio List.mem_cons_self) with
        ⟨middle, buffers, here, moved⟩
      rcases ih middle fun other member => fits other (List.mem_cons_of_mem bio member) with
        ⟨after, later, run, flat⟩
      refine ⟨after, buffers :: later, ?_, ?_⟩
      · rw [submitBios, here]
        simp only [Option.bind_eq_bind, Option.bind_some, run]
        rfl
      · rw [List.map_cons, List.map_cons, FlatArray.transfers_cons, ← moved, ← flat]

/-- Serving a queue of requests leaves the device and the buffers that the bios of its file
system requests leave when each is submitted by itself, and ends the other requests with
`-EIO`; where each of these bios fits, both are what a flat array of bytes gives. -/
theorem vmem_disk_modes_agree (dev : VmemDiskDev) (queue : List Request) :
    (vmemDiskRequest dev queue).map served = submitBios dev (fsBios queue) ∧
      (∀ after completions, vmemDiskRequest dev queue = some (after, completions) →
        completions.map Completion.error =
          queue.map fun req => if req.isPassthrough then - EIO else 0) ∧
      ((∀ bio ∈ fsBios queue, bio.Fits) →
        ∃ after completions, vmemDiskRequest dev queue = some (after, completions) ∧
          (after.data.contents, (completions.flatMap Completion.buffers).map List.flatten) =
            dev.data.contents.transfers ((fsBios queue).map Bio.transfer)) := by
  have agree := vmemDiskRequest_served dev queue
  refine ⟨agree, fun after completions => vmemDiskRequest_errors, ?_⟩
  intro fits
  rcases submitBios_fits dev fits with ⟨after, buffers, run, flat⟩
  rw [run] at agree
  rcases Option.map_eq_some_iff.mp agree with ⟨⟨last, completions⟩, done, same⟩
  cases same
  exact ⟨last, completions, done, flat⟩

end OsCompiler.Tdlbd
