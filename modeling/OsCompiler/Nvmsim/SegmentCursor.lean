/-
The cursor of the segment loop of `nvm_make_request`.

`sector += len >> SECTOR_SHIFT` counts whole sectors, so the segments behind one that ends
within a sector are moved to the wrong place. Where all segments but the last with data are
whole sectors, what the loop moves is one contiguous transfer.
-/

import OsCompiler.Nvmsim.FlatDisk

namespace OsCompiler.Nvmsim

variable {capacity : Word}

/-! ### The transfers of the loop -/

def segmentTransfer (isWrite : Bool) (sector : Nat) (bvec : BioVec) : FlatArray.Transfer UInt8 :=
  if isWrite then .write (512 * sector) bvec.buffer else .read (512 * sector) bvec.bvLen.toNat

def segmentTransfers (isWrite : Bool) (sector : Nat) : List BioVec → List (FlatArray.Transfer UInt8)
  | [] => []
  | bvec :: rest =>
      segmentTransfer isWrite sector bvec ::
        segmentTransfers isWrite (sector + lenSectors bvec.bvLen) rest

/-- The segment stays in the backing store and, written, in the words of the bitmap. -/
def SegmentFits (capacity : Word) (isWrite : Bool) (sector : Nat) (bvec : BioVec) : Prop :=
  (bvec.bvLen.toNat = 0 ∨ 512 * sector + bvec.bvLen.toNat ≤ dataBytes capacity) ∧
    (isWrite = true → lenSectors bvec.bvLen = 0 ∨
      sector + lenSectors bvec.bvLen ≤ bitTableSize + 32)

def SegmentsFit (capacity : Word) (isWrite : Bool) (sector : Nat) : List BioVec → Prop
  | [] => True
  | bvec :: rest =>
      SegmentFits capacity isWrite sector bvec ∧
        SegmentsFit capacity isWrite (sector + lenSectors bvec.bvLen) rest

def cursorSectors : List BioVec → Nat
  | [] => 0
  | bvec :: rest => lenSectors bvec.bvLen + cursorSectors rest

private theorem cursorSectors_le (segments : List BioVec) :
    512 * cursorSectors segments ≤ (segmentBytes segments).length := by
  induction segments with
  | nil => exact Nat.zero_le _
  | cons bvec rest ih =>
      rw [segmentBytes_cons, List.length_append, bvec.bufferLength, cursorSectors]
      unfold lenSectors
      omega

theorem Bio.cursorSectors_le_sectors (bio : Bio) : cursorSectors bio.segments ≤ bio.sectors := by
  have bytes := cursorSectors_le bio.segments
  rw [bio.sizeSum] at bytes
  unfold Bio.sectors
  omega

def direction (isWrite : Bool) : Int := if isWrite then WRITE else READ

theorem bioDataDir_eq (bio : Bio) : bioDataDir bio = direction bio.isWrite := rfl

private theorem nvmDoBvec_fits (device : NvmDevice capacity) {bvec : BioVec} {isWrite : Bool}
    {sector : BitVec 64} (fits : SegmentFits capacity isWrite sector.toNat bvec) :
    ∃ after, nvmDoBvec device bvec (direction isWrite) sector = some (after,
        (device.nvmdevData.contents.transfer (segmentTransfer isWrite sector.toNat bvec)).2, 0) ∧
      after.nvmdevData.contents =
        (device.nvmdevData.contents.transfer (segmentTransfer isWrite sector.toNat bvec)).1 := by
  rcases fits with ⟨store, bitmap⟩
  cases isWrite with
  | false =>
      have copied := copyFromNvm_eq_some device sector bvec.bvLen.toNat store
      refine ⟨device, ?_, rfl⟩
      simp [nvmDoBvec, direction, copied, segmentTransfer, FlatArray.transfer]
  | true =>
      have notRead : WRITE ≠ READ := by decide
      have room : bvec.buffer = [] ∨
          512 * sector.toNat + bvec.buffer.length ≤ dataBytes capacity := by
        rw [← List.length_eq_zero_iff, bvec.bufferLength]
        exact store
      rcases writeHelper_eq_some device.tables sector bvec.bvLen (bitmap rfl) with
        ⟨tables, helped, _⟩
      rcases copyToNvm_eq_some { device with tables := tables } sector room with
        ⟨data, copied, contents⟩
      refine ⟨{ device with tables := tables, nvmdevData := data }, ?_, contents⟩
      simp [nvmDoBvec, direction, notRead, helped, copied, segmentTransfer, FlatArray.transfer]

/-- A segment that does not fit touches a byte or a table entry outside. -/
theorem nvmDoBvec_not_fits (device : NvmDevice capacity) {bvec : BioVec} {isWrite : Bool}
    {sector : BitVec 64} (small : sector.toNat + lenSectors bvec.bvLen < 2 ^ 32)
    (outside : ¬ SegmentFits capacity isWrite sector.toNat bvec) :
    nvmDoBvec device bvec (direction isWrite) sector = none := by
  have offset := sectorShift_toNat (by omega : sector.toNat < 2 ^ 55)
  cases isWrite with
  | false =>
      have store : ¬ (bvec.bvLen.toNat = 0 ∨
          512 * sector.toNat + bvec.bvLen.toNat ≤ dataBytes capacity) := fun store =>
        outside ⟨store, by simp⟩
      have copied : copyFromNvm device sector bvec.bvLen.toNat = none := by
        rw [copyFromNvm, offset]
        exact device.nvmdevData.copyOut_eq_none (by omega) (by omega)
      simp [nvmDoBvec, direction, copied]
  | true =>
      have notRead : WRITE ≠ READ := by decide
      by_cases bitmap : lenSectors bvec.bvLen = 0 ∨
          sector.toNat + lenSectors bvec.bvLen ≤ bitTableSize + 32
      · have store : ¬ (bvec.bvLen.toNat = 0 ∨
            512 * sector.toNat + bvec.bvLen.toNat ≤ dataBytes capacity) := fun store =>
          outside ⟨store, fun _ => bitmap⟩
        have length := bvec.bufferLength
        rcases writeHelper_eq_some device.tables sector bvec.bvLen bitmap with ⟨tables, helped, _⟩
        have copied : device.nvmdevData.copyIn (512 * sector.toNat) bvec.buffer = none := by
          refine device.nvmdevData.copyIn_eq_none ?_ (by omega)
          rw [← List.length_pos_iff]
          omega
        simp [nvmDoBvec, direction, notRead, helped, copyToNvm, offset, copied]
      · rcases not_or.mp bitmap with ⟨positive, beyond⟩
        have helper := writeHelper_eq_none device.tables sector bvec.bvLen
          (Nat.pos_of_ne_zero positive) small (Nat.lt_of_not_le beyond)
        simp [nvmDoBvec, direction, notRead, helper]

/-! ### The segment loop -/

theorem forEachSegment_fits (device : NvmDevice capacity) {isWrite : Bool} {sector : BitVec 64}
    {segments : List BioVec} (small : sector.toNat + cursorSectors segments < 2 ^ 32)
    (fits : SegmentsFit capacity isWrite sector.toNat segments) :
    ∃ after, forEachSegment (direction isWrite) device sector segments = some (after,
        (device.nvmdevData.contents.transfers
          (segmentTransfers isWrite sector.toNat segments)).2) ∧
      after.nvmdevData.contents = (device.nvmdevData.contents.transfers
        (segmentTransfers isWrite sector.toNat segments)).1 := by
  induction segments generalizing device sector with
  | nil => exact ⟨device, rfl, rfl⟩
  | cons bvec rest ih =>
      rw [cursorSectors] at small
      rcases fits with ⟨here, later⟩
      have cursor := cursor_toNat sector bvec.bvLen (by omega)
      rw [← cursor] at later
      rcases nvmDoBvec_fits device here with ⟨middle, moved, contents⟩
      rcases ih middle (by omega) later with ⟨after, run, final⟩
      rw [cursor, contents] at run final
      refine ⟨after, ?_, ?_⟩
      · rw [forEachSegment_cons rest moved, run, segmentTransfers, FlatArray.transfers_cons]
        rfl
      · rw [final, segmentTransfers, FlatArray.transfers_cons]

theorem forEachSegment_not_fits (device : NvmDevice capacity) {isWrite : Bool}
    {sector : BitVec 64} {segments : List BioVec}
    (small : sector.toNat + cursorSectors segments < 2 ^ 32)
    (outside : ¬ SegmentsFit capacity isWrite sector.toNat segments) :
    forEachSegment (direction isWrite) device sector segments = none := by
  induction segments generalizing device sector with
  | nil => exact absurd trivial outside
  | cons bvec rest ih =>
      rw [cursorSectors] at small
      have cursor := cursor_toNat sector bvec.bvLen (by omega)
      apply forEachSegment_cons_eq_none
      intro next buffer moved
      by_cases here : SegmentFits capacity isWrite sector.toNat bvec
      · exact ih next (by omega) fun later => outside ⟨here, cursor ▸ later⟩
      · rw [nvmDoBvec_not_fits device (by omega) here] at moved
        cases moved

/-- Inside the store, the loop can only leave the words of the bitmap. -/
theorem segmentsFit_iff {isWrite : Bool} {sector : Nat} {segments : List BioVec}
    (inside : 512 * sector + (segmentBytes segments).length ≤ dataBytes capacity) :
    SegmentsFit capacity isWrite sector segments ↔
      (isWrite = true → cursorSectors segments = 0 ∨
        sector + cursorSectors segments ≤ bitTableSize + 32) := by
  induction segments generalizing sector with
  | nil => exact iff_of_true trivial fun _ => Or.inl rfl
  | cons bvec rest ih =>
      have whole : 512 * lenSectors bvec.bvLen ≤ bvec.bvLen.toNat := by
        unfold lenSectors
        omega
      rw [segmentBytes_cons, List.length_append, bvec.bufferLength] at inside
      rw [SegmentsFit, SegmentFits, cursorSectors, ih (by omega)]
      cases isWrite with
      | false =>
          simp only [Bool.false_eq_true, false_implies, and_true, iff_true]
          omega
      | true =>
          simp only [true_implies]
          omega

/-! ### Segments of whole sectors -/

/-- Each segment with data behind it is a whole number of sectors. -/
def WholeSectors : List Word → Prop
  | [] => True
  | len :: rest => (512 ∣ len.toNat ∨ ∀ other ∈ rest, other = 0) ∧ WholeSectors rest

instance WholeSectors.decidable : (lens : List Word) → Decidable (WholeSectors lens)
  | [] => .isTrue trivial
  | len :: rest =>
      have := WholeSectors.decidable rest
      inferInstanceAs (Decidable ((512 ∣ len.toNat ∨ ∀ other ∈ rest, other = 0) ∧ WholeSectors rest))

theorem wholeSectors_of_aligned {segments : List BioVec} (aligned : SectorAligned segments) :
    WholeSectors (segments.map BioVec.bvLen) := by
  induction segments with
  | nil => trivial
  | cons bvec rest ih =>
      exact ⟨Or.inl (aligned bvec List.mem_cons_self),
        ih fun other member => aligned other (List.mem_cons_of_mem bvec member)⟩

theorem segmentBytes_eq_nil_iff {segments : List BioVec} :
    segmentBytes segments = [] ↔ ∀ len ∈ segments.map BioVec.bvLen, len = 0 := by
  induction segments with
  | nil => simp [segmentBytes]
  | cons bvec rest ih =>
      have empty : bvec.buffer = [] ↔ bvec.bvLen = 0 := by
        rw [← List.length_eq_zero_iff, bvec.bufferLength, ← BitVec.toNat_inj]
        rfl
      rw [segmentBytes_cons, List.append_eq_nil_iff, List.map_cons, List.forall_mem_cons, ih, empty]

/-- The cursor behind a segment is where the data behind it belong, if there are any. -/
theorem next_offset {bvec : BioVec} {rest : List BioVec}
    (whole : WholeSectors (bvec.bvLen :: rest.map BioVec.bvLen)) (sector : Nat) :
    512 * (sector + lenSectors bvec.bvLen) = 512 * sector + bvec.bvLen.toNat ∨
      segmentBytes rest = [] := by
  rcases whole.1 with divides | nothing
  · left
    rw [Nat.mul_add, lenSectors, Nat.mul_div_cancel' divides]
  · exact Or.inr (segmentBytes_eq_nil_iff.mpr nothing)

theorem cursorSectors_of_whole {segments : List BioVec}
    (whole : WholeSectors (segments.map BioVec.bvLen)) :
    cursorSectors segments = (segmentBytes segments).length / 512 := by
  induction segments with
  | nil => rfl
  | cons bvec rest ih =>
      have here := next_offset whole 0
      rw [cursorSectors, ih whole.2, segmentBytes_cons, List.length_append, bvec.bufferLength]
      unfold lenSectors at here ⊢
      rcases here with same | nothing
      · omega
      · rw [nothing, List.length_nil]
        omega

private theorem writeTransfers_empty (array : FlatArray UInt8) (sector : Nat)
    {segments : List BioVec}
    (nothing : segmentBytes segments = []) :
    (array.transfers (segmentTransfers true sector segments)).1 = array := by
  induction segments generalizing array sector with
  | nil => rfl
  | cons bvec rest ih =>
      rw [segmentBytes_cons, List.append_eq_nil_iff] at nothing
      rw [segmentTransfers, FlatArray.transfers_cons, ih _ _ nothing.2, segmentTransfer, if_pos rfl,
        nothing.1]
      exact FlatArray.overlay_nil _ _

theorem writeTransfers_snd (array : FlatArray UInt8) (sector : Nat) (segments : List BioVec) :
    (array.transfers (segmentTransfers true sector segments)).2 =
      segments.map BioVec.buffer := by
  induction segments generalizing array sector with
  | nil => rfl
  | cons bvec rest ih =>
      rw [segmentTransfers, FlatArray.transfers_cons, ih]
      rfl

/-- The writes of the loop are the one contiguous write. -/
theorem writeTransfers_of_whole (array : FlatArray UInt8) (sector : Nat)
    {segments : List BioVec} (whole : WholeSectors (segments.map BioVec.bvLen)) :
    (array.transfers (segmentTransfers true sector segments)).1 =
      array.overlay (512 * sector) (segmentBytes segments) := by
  induction segments generalizing array sector with
  | nil => exact (FlatArray.overlay_nil _ _).symm
  | cons bvec rest ih =>
      rw [segmentTransfers, FlatArray.transfers_cons, segmentBytes_cons, FlatArray.overlay_append,
        bvec.bufferLength]
      rcases next_offset whole sector with same | nothing
      · rw [ih _ _ whole.2, same]
        rfl
      · rw [writeTransfers_empty _ _ nothing, nothing, FlatArray.overlay_nil]
        rfl

theorem readTransfers_fst (array : FlatArray UInt8) (sector : Nat) (segments : List BioVec) :
    (array.transfers (segmentTransfers false sector segments)).1 = array := by
  induction segments generalizing sector with
  | nil => rfl
  | cons bvec rest ih => exact ih _

theorem readTransfers_lengths (array : FlatArray UInt8) (sector : Nat) (segments : List BioVec) :
    (array.transfers (segmentTransfers false sector segments)).2.map List.length =
      segmentLengths segments := by
  induction segments generalizing sector with
  | nil => rfl
  | cons bvec rest ih =>
      have here : (array.transfer (segmentTransfer false sector bvec)).2.length =
          bvec.bvLen.toNat := FlatArray.slice_length array _ _
      rw [segmentTransfers, FlatArray.transfers_cons, List.map_cons, here]
      exact congrArg (bvec.bvLen.toNat :: ·) (ih _)

private theorem length_readTransfers (array : FlatArray UInt8) (sector : Nat)
    (segments : List BioVec) :
    (array.transfers (segmentTransfers false sector segments)).2.flatten.length =
      (segmentBytes segments).length := by
  induction segments generalizing sector with
  | nil => rfl
  | cons bvec rest ih =>
      have here : (array.transfer (segmentTransfer false sector bvec)).2.length =
          bvec.bvLen.toNat := FlatArray.slice_length array _ _
      rw [segmentTransfers, FlatArray.transfers_cons, List.flatten_cons, List.length_append, here,
        segmentBytes_cons, List.length_append, bvec.bufferLength]
      exact congrArg (bvec.bvLen.toNat + ·) (ih _)

theorem readTransfers_of_whole (array : FlatArray UInt8) (sector : Nat)
    {segments : List BioVec} (whole : WholeSectors (segments.map BioVec.bvLen)) :
    (array.transfers (segmentTransfers false sector segments)).2.flatten =
      array.slice (512 * sector) (segmentBytes segments).length := by
  induction segments generalizing sector with
  | nil => rfl
  | cons bvec rest ih =>
      have later := ih (sector + lenSectors bvec.bvLen) whole.2
      rw [segmentTransfers, FlatArray.transfers_cons, List.flatten_cons, segmentBytes_cons,
        List.length_append, bvec.bufferLength, FlatArray.slice_add]
      rcases next_offset whole sector with same | nothing
      · rw [same] at later
        rw [← later]
        rfl
      · have empty : (array.transfers (segmentTransfers false
            (sector + lenSectors bvec.bvLen) rest)).2.flatten = [] := by
          rw [← List.length_eq_zero_iff, length_readTransfers, nothing]
          rfl
        rw [nothing, List.length_nil]
        exact congrArg _ empty

/-! ### Segments that are moved to the wrong place

Behind a segment that ends within a sector the cursor stands too low. Whether the bytes
that are moved differ from those that should be is a matter of the data: it is so for
some data of every such cut. -/

/-- The cursor is below the place of the next data, or will be so below the place of some. -/
def Displaced (sector offset : Nat) (segments : List BioVec) : Prop :=
  512 * sector ≤ offset ∧
    (512 * sector < offset ∧ segmentBytes segments ≠ [] ∨
      ¬ WholeSectors (segments.map BioVec.bvLen))

theorem Displaced.next {sector offset : Nat} {bvec : BioVec} {rest : List BioVec}
    (displaced : Displaced sector offset (bvec :: rest)) (more : segmentBytes rest ≠ []) :
    Displaced (sector + lenSectors bvec.bvLen) (offset + bvec.bvLen.toNat) rest := by
  rcases displaced with ⟨below, either⟩
  have whole : 512 * lenSectors bvec.bvLen ≤ bvec.bvLen.toNat := by
    unfold lenSectors
    omega
  refine ⟨by omega, ?_⟩
  rcases either with ⟨strict, _⟩ | split
  · exact Or.inl ⟨by omega, more⟩
  · rw [List.map_cons, WholeSectors, not_and_or, not_or] at split
    rcases split with ⟨cut, _⟩ | later
    · refine Or.inl ⟨?_, more⟩
      unfold lenSectors at whole ⊢
      omega
    · exact Or.inr later

/-- A displaced list without data behind the first segment has data in it, below its place. -/
theorem Displaced.last {sector offset : Nat} {bvec : BioVec} {rest : List BioVec}
    (displaced : Displaced sector offset (bvec :: rest)) (nothing : segmentBytes rest = []) :
    512 * sector < offset ∧ 0 < bvec.bvLen.toNat := by
  rcases displaced with ⟨_, ⟨strict, some⟩ | split⟩
  · refine ⟨strict, ?_⟩
    rw [segmentBytes_cons, nothing, List.append_nil, ← List.length_pos_iff,
      bvec.bufferLength] at some
    exact some
  · have empty := segmentBytes_eq_nil_iff.mp nothing
    have whole : WholeSectors (rest.map BioVec.bvLen) :=
      wholeSectors_of_aligned fun other member => by
        rw [empty _ (List.mem_map_of_mem member)]
        exact Nat.dvd_zero 512
    exact absurd ⟨Or.inr empty, whole⟩ split

private theorem emptyWrites_miss {segments : List BioVec} (nothing : segmentBytes segments = [])
    (sector index : Nat) :
    ∀ next ∈ segmentTransfers true sector segments, next.Misses index := by
  induction segments generalizing sector with
  | nil => exact fun next member => absurd member List.not_mem_nil
  | cons bvec rest ih =>
      rw [segmentBytes_cons, List.append_eq_nil_iff] at nothing
      intro next member
      rcases List.mem_cons.mp member with rfl | later
      · rw [segmentTransfer, if_pos rfl, nothing.1]
        exact fun inside => Nat.lt_irrefl _ (inside.1.trans_lt inside.2)
      · exact ih nothing.2 _ next later

/-- No write of the loop reaches the place of the last byte. -/
theorem Displaced.misses {sector offset : Nat} {segments : List BioVec}
    (displaced : Displaced sector offset segments) :
    ∀ next ∈ segmentTransfers true sector segments,
      next.Misses (offset + (segmentBytes segments).length - 1) := by
  induction segments generalizing sector offset with
  | nil => exact fun next member => absurd member List.not_mem_nil
  | cons bvec rest ih =>
      intro next member
      have below := displaced.1
      have here : ∀ index, 512 * sector + bvec.bvLen.toNat ≤ index →
          (segmentTransfer true sector bvec).Misses index := by
        intro index behind inside
        rw [bvec.bufferLength] at inside
        omega
      rw [segmentBytes_cons, List.length_append, bvec.bufferLength]
      by_cases nothing : segmentBytes rest = []
      · rcases displaced.last nothing with ⟨strict, positive⟩
        rw [nothing, List.length_nil, Nat.add_zero]
        rcases List.mem_cons.mp member with rfl | later
        · exact here _ (by omega)
        · exact emptyWrites_miss nothing _ _ next later
      · have positive := List.length_pos_iff.mpr nothing
        rcases List.mem_cons.mp member with rfl | later
        · exact here _ (by omega)
        · rw [← Nat.add_assoc]
          exact ih (displaced.next nothing) next later

/-- If the reads of the loop are the one contiguous read, the array has the same byte in two
places, whatever it holds. -/
theorem Displaced.read {sector offset : Nat} {segments : List BioVec}
    (displaced : Displaced sector offset segments) :
    ∃ low high, low < high ∧ high < offset + (segmentBytes segments).length ∧
      ∀ array : FlatArray UInt8,
        (array.transfers (segmentTransfers false sector segments)).2.flatten =
          array.slice offset (segmentBytes segments).length → array low = array high := by
  induction segments generalizing sector offset with
  | nil =>
      rcases displaced.2 with ⟨_, some⟩ | split
      · exact absurd rfl some
      · exact absurd trivial split
  | cons bvec rest ih =>
      have taken : ∀ array : FlatArray UInt8,
          (array.transfers (segmentTransfers false sector (bvec :: rest))).2.flatten =
            array.slice offset (segmentBytes (bvec :: rest)).length →
          array.slice (512 * sector) bvec.bvLen.toNat = array.slice offset bvec.bvLen.toNat ∧
            (array.transfers (segmentTransfers false (sector + lenSectors bvec.bvLen)
              rest)).2.flatten =
              array.slice (offset + bvec.bvLen.toNat) (segmentBytes rest).length := by
        intro array same
        rw [segmentTransfers, FlatArray.transfers_cons, List.flatten_cons, segmentBytes_cons,
          List.length_append, bvec.bufferLength, FlatArray.slice_add] at same
        exact List.append_inj same ((FlatArray.slice_length _ _ _).trans
          (FlatArray.slice_length _ _ _).symm)
      have total : (segmentBytes (bvec :: rest)).length =
          bvec.bvLen.toNat + (segmentBytes rest).length := by
        rw [segmentBytes_cons, List.length_append, bvec.bufferLength]
      by_cases nothing : segmentBytes rest = []
      · rcases displaced.last nothing with ⟨strict, positive⟩
        refine ⟨512 * sector, offset, strict, by omega, fun array same => ?_⟩
        have first := congrArg (fun bytes => bytes[0]?) (taken array same).1
        simpa [FlatArray.slice, positive] using first
      · rcases ih (displaced.next nothing) with ⟨low, high, below, inside, equal⟩
        exact ⟨low, high, below, by omega, fun array same => equal array (taken array same).2⟩

theorem Displaced.nonempty {sector offset : Nat} {segments : List BioVec}
    (displaced : Displaced sector offset segments) : segmentBytes segments ≠ [] := by
  intro nothing
  rcases displaced.2 with ⟨_, some⟩ | split
  · exact some nothing
  · refine split (wholeSectors_of_aligned fun bvec member => ?_)
    rw [segmentBytes_eq_nil_iff.mp nothing _ (List.mem_map_of_mem member)]
    exact Nat.dvd_zero 512

end OsCompiler.Nvmsim
