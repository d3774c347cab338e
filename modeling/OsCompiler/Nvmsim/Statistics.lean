/-
Completion and statistics of requests: what `nvm_make_request` moves, reports and counts
for any bio, its segments cut at whole sectors or not.

A bio that is refused ends in the same completion and counting code as one that is
carried out. There `err` is not looked at, and the direction is whatever the local `rw`
held before, so no refused bio is reported or left uncounted. Whether segments that are
moved to the wrong place leave the wrong bytes is a matter of the data, so the condition is
one for all data of a cut.
-/

import OsCompiler.Nvmsim.SegmentCursor

namespace OsCompiler.Nvmsim

variable {capacity : Word}

/-! ### One request, all or nothing -/

/-- The bytes of the bio end within the device; the sum is one of numbers and does not wrap. -/
def Bio.Inside (capacity : Word) (bio : Bio) : Prop :=
  512 * bio.biSector.toNat + bio.biSize.toNat ≤ dataBytes capacity

instance (capacity : Word) (bio : Bio) : Decidable (bio.Inside capacity) :=
  inferInstanceAs (Decidable (_ ≤ _))

def Bio.requestsIn (bio : Bio) (isWrite : Bool) : Nat := if bio.isWrite = isWrite then 1 else 0

def Bio.sectorsIn (bio : Bio) (isWrite : Bool) : Nat :=
  if bio.isWrite = isWrite then bio.sectors else 0

structure Grown (before after : NvmStat) (requests sectors : Bool → Nat) : Prop where
  requestsRead : after.numRequestsRead = before.numRequestsRead + BitVec.ofNat 64 (requests false)
  sectorsRead : after.numSectorsRead = before.numSectorsRead + BitVec.ofNat 64 (sectors false)
  requestsWrite : after.numRequestsWrite =
    before.numRequestsWrite + BitVec.ofNat 64 (requests true)
  sectorsWrite : after.numSectorsWrite = before.numSectorsWrite + BitVec.ofNat 64 (sectors true)

/-- Either all bytes of the bio are moved, those of each segment behind those of the segments
before it, or nothing happens and an error is reported. -/
inductive AllOrNothing (device after : NvmDevice capacity) (bio : Bio) (outcome : BioOutcome) :
    Prop
  | all (inside : bio.Inside capacity) (moved : Moved device after bio outcome)
      (success : outcome.status = 0)
      (counted : Grown device.nvmStat after.nvmStat bio.requestsIn bio.sectorsIn)
  | nothing (exceeds : ¬ bio.Inside capacity)
      (contents : after.nvmdevData.contents = device.nvmdevData.contents)
      (buffers : outcome.buffers = bio.segments.map BioVec.buffer)
      (error : outcome.status ≠ 0) (uncounted : after.nvmStat = device.nvmStat)

/-- The request completes and is all or nothing. -/
def Settled (env : RequestEnv) (device : NvmDevice capacity) (bio : Bio) : Prop :=
  ∃ after outcome, nvmMakeRequest env device bio = some (after, outcome) ∧
    AllOrNothing device after bio outcome

/-- Where the request path does what it should: the bio is inside the device, all its segments
but the last with data are whole sectors, and a write ends within the words of the bitmap. -/
structure Bio.Fits (capacity : Word) (bio : Bio) : Prop where
  inside : bio.Inside capacity
  whole : WholeSectors (bio.segments.map BioVec.bvLen)
  bitmap : bio.isWrite = true → bio.sectors = 0 ∨
    bio.biSector.toNat + bio.sectors ≤ bitTableSize + 32

private theorem bioSectors_signExtend (bio : Bio) :
    (bioSectors bio).signExtend 64 = BitVec.ofNat 64 bio.sectors := by
  have few := bio.sectors_lt
  have small : (bioSectors bio).toNat = bio.sectors := by
    rw [bioSectors, BitVec.toNat_ushiftRight, Nat.shiftRight_eq_div_pow]
    rfl
  have positive : (bioSectors bio).msb = false := by
    rw [BitVec.msb_eq_decide, small]
    exact decide_eq_false (by omega)
  rw [BitVec.signExtend_eq_setWidth_of_msb_false positive]
  apply BitVec.eq_of_toNat_eq
  rw [BitVec.toNat_setWidth, small, BitVec.toNat_ofNat]

/-- The counting code adds one request and the bio's sectors in its direction. -/
theorem updateStat_grown (stat : NvmStat) (bio : Bio) :
    Grown stat (updateStat stat (bioDataDir bio) (bioSectors bio)) bio.requestsIn
      bio.sectorsIn := by
  have sectors := bioSectors_signExtend bio
  rw [bioDataDir_eq]
  cases writing : bio.isWrite with
  | false =>
      constructor <;>
        simp [updateStat, direction, Bio.requestsIn, Bio.sectorsIn, writing, sectors]
  | true =>
      have notRead : WRITE ≠ READ := by decide
      constructor <;>
        simp [updateStat, direction, notRead, Bio.requestsIn, Bio.sectorsIn, writing, sectors]

theorem Bio.Inside.sectors_le {bio : Bio} (inside : bio.Inside capacity) :
    bio.biSector.toNat + bio.sectors ≤ capacity.toNat := by
  unfold Bio.Inside dataBytes at inside
  unfold Bio.sectors
  omega

theorem Bio.Inside.accepted {bio : Bio} (inside : bio.Inside capacity) :
    ¬ exceedsCapacity capacity bio := by
  have cap := capacity.isLt
  have range := inside.sectors_le
  exact not_exceedsCapacity_iff.mpr (by omega)

theorem Bio.Inside.cursor_lt {bio : Bio} (inside : bio.Inside capacity) :
    bio.biSector.toNat + cursorSectors bio.segments < 2 ^ 32 := by
  have cap := capacity.isLt
  have few := bio.cursorSectors_le_sectors
  have range := inside.sectors_le
  omega

theorem Bio.Inside.segmentsFit_iff {bio : Bio} (inside : bio.Inside capacity) :
    SegmentsFit capacity bio.isWrite bio.biSector.toNat bio.segments ↔
      (bio.isWrite = true → cursorSectors bio.segments = 0 ∨
        bio.biSector.toNat + cursorSectors bio.segments ≤ bitTableSize + 32) := by
  unfold Bio.Inside at inside
  rw [← bio.sizeSum] at inside
  exact Nvmsim.segmentsFit_iff inside

theorem Bio.cursorSectors_eq {bio : Bio} (whole : WholeSectors (bio.segments.map BioVec.bvLen)) :
    cursorSectors bio.segments = bio.sectors := by
  rw [cursorSectors_of_whole whole, bio.sizeSum, Bio.sectors]

/-- What the loop leaves where it touches nothing outside. -/
theorem nvmMakeRequest_transfers (env : RequestEnv) (device : NvmDevice capacity) {bio : Bio}
    (inside : bio.Inside capacity)
    (segments : SegmentsFit capacity bio.isWrite bio.biSector.toNat bio.segments) :
    ∃ after outcome, nvmMakeRequest env device bio = some (after, outcome) ∧
      after.nvmdevData.contents = (device.nvmdevData.contents.transfers
        (segmentTransfers bio.isWrite bio.biSector.toNat bio.segments)).1 ∧
      outcome.buffers = (device.nvmdevData.contents.transfers
        (segmentTransfers bio.isWrite bio.biSector.toNat bio.segments)).2 ∧
      outcome.status = bio.biStatus ∧
      Grown device.nvmStat after.nvmStat bio.requestsIn bio.sectorsIn := by
  rcases forEachSegment_fits (nvmDevUpdateAccessTime device env.jiffies) inside.cursor_lt segments
    with ⟨after, run, contents⟩
  have stat := forEachSegment_stat run
  have grown := updateStat_grown after.nvmStat bio
  rw [stat] at grown
  rw [nvmMakeRequest_accepted inside.accepted, bioDataDir_eq, run]
  refine ⟨_, _, rfl, contents, rfl, rfl, ?_⟩
  rw [stat]
  exact ⟨grown.requestsRead, grown.sectorsRead, grown.requestsWrite, grown.sectorsWrite⟩

private theorem settled_of_fits (env : RequestEnv) (device : NvmDevice capacity) {bio : Bio}
    (fits : bio.Fits capacity) (initially : bio.biStatus = 0) : Settled env device bio := by
  have segments : SegmentsFit capacity bio.isWrite bio.biSector.toNat bio.segments := by
    rw [fits.inside.segmentsFit_iff, Bio.cursorSectors_eq fits.whole]
    exact fits.bitmap
  rcases nvmMakeRequest_transfers env device fits.inside segments
    with ⟨after, outcome, run, contents, buffers, status, grown⟩
  refine ⟨after, outcome, run, .all fits.inside ?_ (status.trans initially) grown⟩
  cases writing : bio.isWrite with
  | false =>
      rw [writing] at contents buffers
      refine ⟨?_, ?_, ?_⟩
      · rw [contents, readTransfers_fst, Bio.transfer, writing]
        rfl
      · rw [buffers, readTransfers_of_whole _ _ fits.whole, bio.sizeSum, Bio.transfer, writing]
        rfl
      · rw [buffers, readTransfers_lengths]
  | true =>
      rw [writing] at contents buffers
      refine ⟨?_, ?_, ?_⟩
      · rw [contents, writeTransfers_of_whole _ _ fits.whole, Bio.transfer, writing]
        rfl
      · rw [buffers, writeTransfers_snd, Bio.transfer, writing]
        rfl
      · rw [buffers, writeTransfers_snd, List.map_map]
        exact List.map_congr_left fun bvec _ => bvec.bufferLength

/-- A refused bio completes with the status it came with and is counted all the same. -/
theorem nvmMakeRequest_exceeding (env : RequestEnv) (device : NvmDevice capacity) {bio : Bio}
    (exceeds : exceedsCapacity capacity bio) :
    nvmMakeRequest env device bio = some
      ({ device with nvmStat := updateStat device.nvmStat env.rwUninitialised (bioSectors bio) },
        { status := bio.biStatus, buffers := bio.segments.map BioVec.buffer }) := by
  rw [nvmMakeRequest, if_pos exceeds]

private theorem nvmMakeRequest_status {env : RequestEnv} {device after : NvmDevice capacity}
    {bio : Bio}
    {outcome : BioOutcome} (run : nvmMakeRequest env device bio = some (after, outcome)) :
    outcome.status = bio.biStatus := by
  by_cases exceeds : exceedsCapacity capacity bio
  · rw [nvmMakeRequest_exceeding env device exceeds, Option.some.injEq, Prod.mk.injEq] at run
    rw [← run.2]
  · rw [nvmMakeRequest_accepted exceeds, Option.map_eq_some_iff] at run
    rcases run with ⟨_, _, same⟩
    rw [← (Prod.mk.inj same).2]

/-- Whatever the data, a bio that is not inside the device fails, and so does a write whose
cursor leaves the bitmap. -/
theorem Settled.inside {env : RequestEnv} {device : NvmDevice capacity} {bio : Bio}
    (settled : Settled env device bio) (initially : bio.biStatus = 0) :
    bio.Inside capacity ∧
      SegmentsFit capacity bio.isWrite bio.biSector.toNat bio.segments := by
  rcases settled with ⟨after, outcome, run, either⟩
  cases either with
  | nothing exceeds contents buffers error uncounted =>
      exact absurd ((nvmMakeRequest_status run).trans initially) error
  | all inside moved success counted =>
      refine ⟨inside, ?_⟩
      by_contra misfit
      rw [nvmMakeRequest_accepted inside.accepted, bioDataDir_eq,
        forEachSegment_not_fits _ inside.cursor_lt misfit] at run
      cases run

/-! ### Bios with given data -/

/-- The segments with the bytes of an array from an offset on. -/
def layOn (data : FlatArray UInt8) (offset : Nat) : List BioVec → List BioVec
  | [] => []
  | bvec :: rest =>
      ⟨bvec.bvLen, data.slice offset bvec.bvLen.toNat, FlatArray.slice_length _ _ _⟩ ::
        layOn data (offset + bvec.bvLen.toNat) rest

theorem map_bvLen_layOn (data : FlatArray UInt8) (offset : Nat) (segments : List BioVec) :
    (layOn data offset segments).map BioVec.bvLen = segments.map BioVec.bvLen := by
  induction segments generalizing offset with
  | nil => rfl
  | cons bvec rest ih => exact congrArg (bvec.bvLen :: ·) (ih _)

theorem segmentBytes_layOn (data : FlatArray UInt8) (offset : Nat) (segments : List BioVec) :
    segmentBytes (layOn data offset segments) =
      data.slice offset (segmentBytes segments).length := by
  induction segments generalizing offset with
  | nil => rfl
  | cons bvec rest ih =>
      rw [layOn, segmentBytes_cons, segmentBytes_cons, ih, List.length_append, bvec.bufferLength,
        FlatArray.slice_add]

/-- The place and length of everything a bio moves, without the data. -/
def Bio.shape (bio : Bio) : BitVec 64 × Bool × List Word :=
  (bio.biSector, bio.isWrite, bio.segments.map BioVec.bvLen)

def Bio.laid (bio : Bio) (data : FlatArray UInt8) : Bio where
  biSector := bio.biSector
  biSize := bio.biSize
  isWrite := bio.isWrite
  segments := layOn data (512 * bio.biSector.toNat) bio.segments
  biStatus := 0
  sizeSum := by rw [segmentBytes_layOn, FlatArray.slice_length, bio.sizeSum]

theorem Bio.shape_laid (bio : Bio) (data : FlatArray UInt8) :
    (bio.laid data).shape = bio.shape := by
  rw [shape, laid, map_bvLen_layOn]
  rfl

def Holds (cells : FlatArray UInt8) (device : NvmDevice capacity) : Prop :=
  ∀ index < dataBytes capacity, device.nvmdevData.contents index = cells index

def deviceHolding (capacity : Word) (cells : FlatArray UInt8) : NvmDevice capacity :=
  { zeroedDevice capacity with nvmdevData := ⟨fun index => cells index⟩ }

private theorem holds_deviceHolding (cells : FlatArray UInt8) :
    Holds cells (deviceHolding capacity cells) := by
  intro index inside
  have read := Region.read_eq_contents (deviceHolding capacity cells).nvmdevData inside
  rw [Region.read_eq_cell _ inside, Option.some.injEq] at read
  exact read.symm

/-- A write of what the device holds leaves its bytes as they are. -/
theorem contents_echo {device after : NvmDevice capacity} {bio : Bio} {outcome : BioOutcome}
    (either : AllOrNothing device after (bio.laid device.nvmdevData.contents) outcome) :
    after.nvmdevData.contents = device.nvmdevData.contents := by
  cases either with
  | nothing exceeds contents buffers error uncounted => exact contents
  | all inside moved success counted =>
      rw [moved.contents, Bio.transfer]
      cases writing : (bio.laid device.nvmdevData.contents).isWrite with
      | false => rfl
      | true =>
          change device.nvmdevData.contents.overlay _ (segmentBytes (layOn _ _ bio.segments)) = _
          rw [segmentBytes_layOn]
          exact FlatArray.overlay_slice _ _ _

/-- What a settled request has moved in the loop is the one contiguous transfer. -/
theorem Settled.transfers {env : RequestEnv} {device : NvmDevice capacity} {bio : Bio}
    (settled : Settled env device bio) (initially : bio.biStatus = 0) :
    (device.nvmdevData.contents.transfers
        (segmentTransfers bio.isWrite bio.biSector.toNat bio.segments)).1 =
      (device.nvmdevData.contents.transfer bio.transfer).1 ∧
      (device.nvmdevData.contents.transfers
        (segmentTransfers bio.isWrite bio.biSector.toNat bio.segments)).2.flatten =
        (device.nvmdevData.contents.transfer bio.transfer).2 := by
  rcases settled.inside initially with ⟨inside, segments⟩
  rcases nvmMakeRequest_transfers env device inside segments
    with ⟨after, outcome, run, contents, buffers, _, _⟩
  rcases settled with ⟨after', outcome', run', either⟩
  rw [run, Option.some.injEq, Prod.mk.injEq] at run'
  rcases run' with ⟨rfl, rfl⟩
  cases either with
  | nothing exceeds unchanged unread error uncounted => exact absurd inside exceeds
  | all within moved success counted =>
      rw [← contents, ← buffers]
      exact ⟨moved.contents, moved.bytes⟩

/-- A write that settles though it is displaced finds its last byte on the device. -/
theorem Settled.displaced_write {env : RequestEnv} {device : NvmDevice capacity} {bio : Bio}
    (settled : Settled env device bio) (initially : bio.biStatus = 0)
    (writing : bio.isWrite = true)
    (displaced : Displaced bio.biSector.toNat (512 * bio.biSector.toNat) bio.segments) :
    (segmentBytes bio.segments)[(segmentBytes bio.segments).length - 1]? =
      some (device.nvmdevData.contents
        (512 * bio.biSector.toNat + (segmentBytes bio.segments).length - 1)) := by
  have positive := List.length_pos_iff.mpr displaced.nonempty
  have same := (settled.transfers initially).1
  rw [writing, Bio.transfer, if_pos writing] at same
  have last := congrFun same
    (512 * bio.biSector.toNat + (segmentBytes bio.segments).length - 1)
  rw [FlatArray.transfers_of_misses _ displaced.misses] at last
  have inside := FlatArray.overlay_inside device.nvmdevData.contents
    (by omega : 512 * bio.biSector.toNat ≤
      512 * bio.biSector.toNat + (segmentBytes bio.segments).length - 1)
    (by omega : _ < 512 * bio.biSector.toNat + (segmentBytes bio.segments).length)
  have place : 512 * bio.biSector.toNat + (segmentBytes bio.segments).length - 1 -
      512 * bio.biSector.toNat = (segmentBytes bio.segments).length - 1 := by omega
  rw [place] at inside
  rw [← inside, last]
  rfl

/-- A read that settles though it is displaced finds the same byte in two places. -/
theorem Settled.displaced_read {env : RequestEnv} {device : NvmDevice capacity} {bio : Bio}
    (settled : Settled env device bio) (initially : bio.biStatus = 0)
    (reading : bio.isWrite = false) {low high : Nat}
    (equal : ∀ array : FlatArray UInt8,
      (array.transfers (segmentTransfers false bio.biSector.toNat bio.segments)).2.flatten =
        array.slice (512 * bio.biSector.toNat) (segmentBytes bio.segments).length →
      array low = array high) :
    device.nvmdevData.contents low = device.nvmdevData.contents high := by
  have same := (settled.transfers initially).2
  rw [reading, Bio.transfer, reading, ← bio.sizeSum] at same
  exact equal _ same

/-- If a bio settles on some device with any given bytes, whatever its own data, it fits. -/
theorem fits_of_settled {bio : Bio}
    (always : ∀ cells : FlatArray UInt8, ∃ device : NvmDevice capacity, Holds cells device ∧
      ∀ data, ∃ env, Settled env device (bio.laid data)) :
    bio.Fits capacity := by
  rcases always fun _ => 0 with ⟨zeroed, zeros, settles⟩
  rcases settles fun _ => 1 with ⟨env, settled⟩
  rcases settled.inside rfl with ⟨(inside : bio.Inside capacity), segments⟩
  have range : 512 * bio.biSector.toNat + (segmentBytes (bio.laid fun _ => 1).segments).length ≤
      dataBytes capacity := by
    rw [(bio.laid fun _ => 1).sizeSum]
    exact inside
  have whole : WholeSectors (bio.segments.map BioVec.bvLen) := by
    by_contra split
    have displaced : Displaced bio.biSector.toNat (512 * bio.biSector.toNat)
        (bio.laid fun _ => 1).segments :=
      ⟨le_rfl, Or.inr (by rw [Bio.laid, map_bvLen_layOn]; exact split)⟩
    have positive := List.length_pos_iff.mpr displaced.nonempty
    cases writing : bio.isWrite with
    | true =>
        have found := settled.displaced_write rfl writing displaced
        change _ = some (zeroed.nvmdevData.contents (512 * bio.biSector.toNat +
          (segmentBytes (bio.laid fun _ => 1).segments).length - 1)) at found
        rw [zeros _ (by omega), Bio.laid, segmentBytes_layOn, FlatArray.slice_length] at found
        rw [Bio.laid, segmentBytes_layOn, FlatArray.slice_length] at positive
        have last : (segmentBytes bio.segments).length - 1 < (segmentBytes bio.segments).length := by
          omega
        simp [FlatArray.slice, last] at found
    | false =>
        rcases displaced.read with ⟨low, high, below, above, equal⟩
        rcases always fun index => if index = low then 1 else 0 with ⟨device, holds, settles⟩
        rcases settles fun _ => 1 with ⟨env, settled⟩
        have same := settled.displaced_read rfl writing equal
        rw [holds low (by omega), holds high (by omega)] at same
        simp only [if_pos, if_neg (by omega : ¬ high = low)] at same
        exact absurd same (by decide)
  refine ⟨inside, whole, ?_⟩
  rw [(settled.inside rfl).1.segmentsFit_iff] at segments
  have cursor := Bio.cursorSectors_eq
    (by rw [Bio.laid, map_bvLen_layOn]; exact whole :
      WholeSectors ((bio.laid fun _ => 1).segments.map BioVec.bvLen))
  rw [cursor] at segments
  exact segments

/-! ### Histories of requests -/

def tally (capacity : Word) (weight : Bio → Nat) : List Request → Nat
  | [] => 0
  | request :: rest =>
      (if request.bio.Inside capacity then weight request.bio else 0) + tally capacity weight rest

def StepsAllOrNothing (device : NvmDevice capacity) : List Request → Prop
  | [] => True
  | request :: rest => ∃ after outcome,
      nvmMakeRequest request.env device request.bio = some (after, outcome) ∧
        AllOrNothing device after request.bio outcome ∧ StepsAllOrNothing after rest

/-- After every beginning of the history each counter has grown by the total of its
direction over the requests accepted so far. -/
def CountersAreTotals (device : NvmDevice capacity) (requests : List Request) : Prop :=
  ∀ done rest, requests = done ++ rest → ∃ final outcomes,
    processBios device done = some (final, outcomes) ∧
      Grown device.nvmStat final.nvmStat
        (fun isWrite => tally capacity (fun bio => bio.requestsIn isWrite) done)
        (fun isWrite => tally capacity (fun bio => bio.sectorsIn isWrite) done)

theorem Grown.trans {first second third : NvmStat} {requests sectors requests' sectors' : Bool → Nat}
    (earlier : Grown first second requests sectors)
    (later : Grown second third requests' sectors') :
    Grown first third (fun isWrite => requests isWrite + requests' isWrite)
      (fun isWrite => sectors isWrite + sectors' isWrite) where
  requestsRead := by
    rw [later.requestsRead, earlier.requestsRead, BitVec.ofNat_add, BitVec.add_assoc]
  sectorsRead := by
    rw [later.sectorsRead, earlier.sectorsRead, BitVec.ofNat_add, BitVec.add_assoc]
  requestsWrite := by
    rw [later.requestsWrite, earlier.requestsWrite, BitVec.ofNat_add, BitVec.add_assoc]
  sectorsWrite := by
    rw [later.sectorsWrite, earlier.sectorsWrite, BitVec.ofNat_add, BitVec.add_assoc]

private theorem stepsAllOrNothing_of_fits (device : NvmDevice capacity) {requests : List Request}
    (initially : ∀ request ∈ requests, request.bio.biStatus = 0)
    (fits : ∀ request ∈ requests, request.bio.Fits capacity) :
    StepsAllOrNothing device requests := by
  induction requests generalizing device with
  | nil => trivial
  | cons request rest ih =>
      rcases settled_of_fits request.env device (fits request List.mem_cons_self)
        (initially request List.mem_cons_self) with ⟨after, outcome, run, either⟩
      exact ⟨after, outcome, run, either, ih after
        (fun other member => initially other (List.mem_cons_of_mem request member))
        fun other member => fits other (List.mem_cons_of_mem request member)⟩

def Request.laid (request : Request) (data : FlatArray UInt8) : Request :=
  { request with bio := request.bio.laid data }

/-- If a history is all or nothing on some device with any given bytes, whatever its own data, all
its bios fit: those before a bio may write what is there. -/
theorem fits_of_steps {requests : List Request}
    (always : ∀ cells : FlatArray UInt8, ∃ device : NvmDevice capacity, Holds cells device ∧
      ∀ others : List Request,
        others.map (fun request => request.bio.shape) =
          requests.map (fun request => request.bio.shape) →
        (∀ request ∈ others, request.bio.biStatus = 0) → StepsAllOrNothing device others) :
    ∀ request ∈ requests, request.bio.Fits capacity := by
  induction requests with
  | nil => exact fun request member => absurd member List.not_mem_nil
  | cons request rest ih =>
      have later : ∀ others : List Request, ∀ data,
          others.map (fun request => request.bio.shape) =
            rest.map (fun request => request.bio.shape) →
          (request.laid data :: others).map (fun request => request.bio.shape) =
            (request :: rest).map fun request => request.bio.shape := by
        intro others data same
        rw [List.map_cons, List.map_cons, same]
        exact congrArg (· :: _) (request.bio.shape_laid data)
      have started : ∀ data, ∀ others : List Request,
          (∀ other ∈ others, other.bio.biStatus = 0) →
          ∀ other ∈ request.laid data :: others, other.bio.biStatus = 0 := by
        intro data others status other member
        rcases List.mem_cons.mp member with rfl | inside
        · rfl
        · exact status other inside
      have restShape : (rest.map fun other => other.laid fun _ => 0).map
          (fun request => request.bio.shape) = rest.map fun request => request.bio.shape := by
        rw [List.map_map]
        exact List.map_congr_left fun other _ => other.bio.shape_laid _
      have restStatus : ∀ other ∈ rest.map fun other => other.laid fun _ => 0,
          other.bio.biStatus = 0 := by
        intro other member
        rcases List.mem_map.mp member with ⟨_, _, rfl⟩
        rfl
      rw [List.forall_mem_cons]
      constructor
      · refine fits_of_settled fun cells => ?_
        rcases always cells with ⟨device, holds, steps⟩
        refine ⟨device, holds, fun data => ⟨request.env, ?_⟩⟩
        rcases steps _ (later _ data restShape) (started data _ restStatus)
          with ⟨after, outcome, run, either, _⟩
        exact ⟨after, outcome, run, either⟩
      · refine ih fun cells => ?_
        rcases always cells with ⟨device, holds, steps⟩
        rcases steps _ (later _ device.nvmdevData.contents restShape)
          (started _ _ restStatus) with ⟨after, outcome, run, either, _⟩
        refine ⟨after, fun index inside => ?_, fun others same status => ?_⟩
        · rw [contents_echo either]
          exact holds index inside
        · rcases steps _ (later _ device.nvmdevData.contents same) (started _ _ status)
            with ⟨after', outcome', run', _, restSteps⟩
          rw [run, Option.some.injEq, Prod.mk.injEq] at run'
          rw [run'.1]
          exact restSteps

theorem AllOrNothing.grown {device after : NvmDevice capacity} {bio : Bio} {outcome : BioOutcome}
    (either : AllOrNothing device after bio outcome) :
    Grown device.nvmStat after.nvmStat
      (fun isWrite => if bio.Inside capacity then bio.requestsIn isWrite else 0)
      (fun isWrite => if bio.Inside capacity then bio.sectorsIn isWrite else 0) := by
  cases either with
  | all inside moved success counted =>
      simp only [if_pos inside]
      exact counted
  | nothing exceeds contents buffers error uncounted =>
      simp only [if_neg exceeds, uncounted]
      constructor <;> simp

private theorem countersAreTotals (device : NvmDevice capacity) {requests : List Request}
    (steps : StepsAllOrNothing device requests) : CountersAreTotals device requests := by
  intro done rest split
  subst split
  induction done generalizing device with
  | nil =>
      refine ⟨device, [], rfl, ?_⟩
      constructor <;> simp [tally]
  | cons request done ih =>
      rcases steps with ⟨after, outcome, run, either, later⟩
      rcases ih after later with ⟨final, outcomes, history, grown⟩
      refine ⟨final, outcome :: outcomes, by simp [processBios, run, history], ?_⟩
      exact either.grown.trans grown

private theorem length_segmentBytes_congr {segments segments' : List BioVec}
    (same : segments.map BioVec.bvLen = segments'.map BioVec.bvLen) :
    (segmentBytes segments).length = (segmentBytes segments').length := by
  induction segments generalizing segments' with
  | nil =>
      rw [List.map_nil, eq_comm, List.map_eq_nil_iff] at same
      rw [same]
  | cons bvec rest ih =>
      cases segments' with
      | nil => cases same
      | cons bvec' rest' =>
          rw [List.map_cons, List.map_cons, List.cons.injEq] at same
          rw [segmentBytes_cons, segmentBytes_cons, List.length_append, List.length_append,
            bvec.bufferLength, bvec'.bufferLength, same.1, ih same.2]

theorem Bio.Fits.of_shape {bio other : Bio} (fits : bio.Fits capacity)
    (same : other.shape = bio.shape) : other.Fits capacity := by
  simp only [shape, Prod.mk.injEq] at same
  rcases same with ⟨sector, isWrite, lens⟩
  have size : other.biSize = bio.biSize := by
    apply BitVec.eq_of_toNat_eq
    rw [← other.sizeSum, ← bio.sizeSum, length_segmentBytes_congr lens]
  have sectors : other.sectors = bio.sectors := by rw [Bio.sectors, Bio.sectors, size]
  refine ⟨?_, ?_, ?_⟩
  · rw [Inside, sector, size]
    exact fits.inside
  · rw [lens]
    exact fits.whole
  · rw [isWrite, sectors, sector]
    exact fits.bitmap

private theorem forall_fits_of_shape {requests others : List Request}
    (same : others.map (fun request => request.bio.shape) =
      requests.map (fun request => request.bio.shape))
    (fits : ∀ request ∈ requests, request.bio.Fits capacity) :
    ∀ request ∈ others, request.bio.Fits capacity := by
  intro request member
  have inside : request.bio.shape ∈ requests.map fun request => request.bio.shape := by
    rw [← same]
    exact List.mem_map_of_mem member
  rcases List.mem_map.mp inside with ⟨original, listed, equal⟩
  exact (fits original listed).of_shape equal.symm

/-- For a single bio, and for any history of them, the request path is all or nothing and counts
exactly, whatever the bytes on the device and in the bios, if and only if every bio stays inside
the device and the bitmap and is cut at whole sectors. -/
theorem request_all_or_nothing_iff (capacity : Word) :
    (∀ bio : Bio,
      (∀ env (device : NvmDevice capacity) (other : Bio), other.shape = bio.shape →
        other.biStatus = 0 → Settled env device other) ↔ bio.Fits capacity) ∧
    ∀ requests : List Request,
      (∀ (device : NvmDevice capacity) (others : List Request),
        others.map (fun request => request.bio.shape) =
          requests.map (fun request => request.bio.shape) →
        (∀ request ∈ others, request.bio.biStatus = 0) →
        StepsAllOrNothing device others ∧ CountersAreTotals device others) ↔
      ∀ request ∈ requests, request.bio.Fits capacity := by
  constructor
  · intro bio
    constructor
    · intro always
      refine fits_of_settled fun cells => ⟨deviceHolding capacity cells,
        holds_deviceHolding cells, fun data => ⟨⟨0, 0⟩, ?_⟩⟩
      exact always _ _ _ (bio.shape_laid data) rfl
    · exact fun fits env device other same initially =>
        settled_of_fits env device (fits.of_shape same) initially
  · intro requests
    constructor
    · intro always
      exact fits_of_steps fun cells => ⟨deviceHolding capacity cells, holds_deviceHolding cells,
        fun others same initially => (always _ others same initially).1⟩
    · intro fits device others same initially
      have steps := stepsAllOrNothing_of_fits device initially (forall_fits_of_shape same fits)
      exact ⟨steps, countersAreTotals device steps⟩

/-- A write behind the end of a 1 MB device is reported as a success and counted, here as
a read. -/
theorem exceeding_bio_succeeds :
    ∃ after outcome, nvmMakeRequest ⟨0, 0⟩ (zeroedDevice (nvmdevCapacity 1#32))
        (oneSectorBio 2048#64 true) = some (after, outcome) ∧
      outcome.status = 0 ∧ after.nvmStat.numRequestsRead = 1 ∧
      ¬ AllOrNothing (zeroedDevice (nvmdevCapacity 1#32)) after (oneSectorBio 2048#64 true)
        outcome := by
  have exceeds : exceedsCapacity (nvmdevCapacity 1#32) (oneSectorBio 2048#64 true) := by decide
  have run := nvmMakeRequest_exceeding ⟨0, 0⟩ (zeroedDevice (nvmdevCapacity 1#32)) exceeds
  refine ⟨_, _, run, rfl, by decide, fun either => ?_⟩
  exact (Settled.inside ⟨_, _, run, either⟩ rfl).1.accepted exceeds

private def lastSector : List Request :=
  [⟨⟨0, 0⟩, oneSectorBio 2047#64 true⟩, ⟨⟨0, 7⟩, oneSectorBio 2047#64 false⟩]

/-- A write and a read of the last sector of that device. -/
theorem request_all_or_nothing_iff_last :
    StepsAllOrNothing (zeroedDevice (nvmdevCapacity 1#32)) lastSector ∧
      CountersAreTotals (zeroedDevice (nvmdevCapacity 1#32)) lastSector := by
  refine ((request_all_or_nothing_iff (nvmdevCapacity 1#32)).2 lastSector).mpr ?_ _ _ rfl ?_
  · intro request member
    simp only [lastSector, List.mem_cons, List.not_mem_nil, or_false] at member
    rcases member with rfl | rfl <;>
      exact ⟨by decide, wholeSectors_of_aligned (oneSectorBio_aligned _ _),
        fun _ => Or.inr (by decide)⟩
  · intro request member
    simp only [lastSector, List.mem_cons, List.not_mem_nil, or_false] at member
    rcases member with rfl | rfl <;> rfl

end OsCompiler.Nvmsim
