/-
Loading the module on reserved high memory, the default of `g_nvm_type`.

`nvm_init` maps `nvm_capacity_mb` megabytes in all, and every device asks `hmalloc` for
its whole capacity: the sectors of `nvm_alloc` are a 32-bit number, their bytes a 64-bit
one.
-/

import OsCompiler.Nvmsim.Highmem
import OsCompiler.Nvmsim.ModuleInit
import OsCompiler.Nvmsim.Request

namespace OsCompiler.Nvmsim.ModuleInit

def mbPerBytesShift : Nat := 20

def gHighmemSize (nvmCapacityMb : Word) : BitVec 64 :=
  nvmCapacityMb.signExtend 64 <<< mbPerBytesShift

def memSpaceBytes (nvmCapacityMb : Word) : BitVec 64 :=
  (nvmdevCapacity nvmCapacityMb).setWidth 64 <<< sectorShift

/-- The devices before this one have asked for their memory already. -/
def hmallocGrants (area : ReservedArea) (nvmCapacityMb : Word) (index : Nat) : Bool :=
  let highmem := (hmallocAll area.fresh (List.replicate index (memSpaceBytes nvmCapacityMb))).1
  decide ((hmalloc highmem (memSpaceBytes nvmCapacityMb)).2 ≠ null)

/-- What is granted when the backing memory comes from the mapped area. -/
def highmemGrants (others : Grants) (area : ReservedArea) (nvmCapacityMb : Word) : Grants
  | .memory index => hmallocGrants area nvmCapacityMb index
  | resource => others resource

/-- Everything a load needs but the backing memory. -/
def OthersGranted (others : Grants) (nvmNumDevices : Int) : Prop :=
  others .major = true ∧ ∀ i < nvmNumDevices.toNat, ∀ resource ∈ deviceResources i,
    resource ≠ .memory i → others resource = true

private theorem gHighmemSize_toNat {nvmCapacityMb : Word}
    (nonnegative : nvmCapacityMb.msb = false) :
    (gHighmemSize nvmCapacityMb).toNat = nvmCapacityMb.toNat * 2 ^ 20 := by
  have below : nvmCapacityMb.toNat < 2 ^ 31 := by
    have top := BitVec.msb_eq_false_iff_two_mul_lt.mp nonnegative
    omega
  rw [gHighmemSize, BitVec.signExtend_eq_setWidth_of_msb_false nonnegative,
    BitVec.toNat_shiftLeft, BitVec.toNat_setWidth, Nat.shiftLeft_eq, mbPerBytesShift]
  omega

private theorem memSpaceBytes_toNat (nvmCapacityMb : Word) :
    (memSpaceBytes nvmCapacityMb).toNat = nvmCapacityMb.toNat % 2 ^ 21 * 2 ^ 20 := by
  have below := nvmCapacityMb.isLt
  rw [memSpaceBytes, nvmdevCapacity, BitVec.toNat_shiftLeft, BitVec.toNat_setWidth,
    BitVec.toNat_shiftLeft, Nat.shiftLeft_eq, Nat.shiftLeft_eq, sectorShift, mbPerSectorShift]
  omega

private theorem hmallocGrants_iff (area : ReservedArea) (nvmCapacityMb : Word) (index : Nat) :
    hmallocGrants area nvmCapacityMb index = true ↔
      (((Arena.whole area.span).serve
        (List.replicate index (memSpaceBytes nvmCapacityMb).toNat)).grant
          (memSpaceBytes nvmCapacityMb).toNat).isSome = true := by
  obtain ⟨same, _⟩ := area.fresh_represents.hmallocAll
    (List.replicate index (memSpaceBytes nvmCapacityMb))
  rw [List.map_replicate] at same
  rw [hmallocGrants, decide_eq_true_eq]
  cases grant : ((Arena.whole area.span).serve
      (List.replicate index (memSpaceBytes nvmCapacityMb).toNat)).grant
        (memSpaceBytes nvmCapacityMb).toNat with
  | some next =>
      rw [(same.granted grant).1]
      exact iff_of_true same.currAddr_ne_null rfl
  | none =>
      rw [same.refused grant]
      exact iff_of_false (fun different => different rfl) Bool.false_ne_true

private theorem not_memory {index : Nat} {resource : Resource}
    (listed : resource ∈ deviceResources index) (apart : resource ≠ .memory index) :
    ∀ i, resource ≠ .memory i := by
  intro i same
  subst same
  have owned : i = index := by simpa [deviceResources, createResources] using listed
  exact apart (by rw [owned])

private theorem allGranted_highmem_iff (others : Grants) (area : ReservedArea)
    (nvmCapacityMb : Word)
    (count : Int) :
    AllGranted (highmemGrants others area nvmCapacityMb) count ↔
      OthersGranted others count ∧
        ∀ i < count.toNat, hmallocGrants area nvmCapacityMb i = true := by
  have other : ∀ resource, (∀ i, resource ≠ .memory i) →
      highmemGrants others area nvmCapacityMb resource = others resource := by
    intro resource apart
    cases resource with
    | memory i => exact absurd rfl (apart i)
    | _ => rfl
  constructor
  · intro all
    rcases all with ⟨major, devices⟩
    refine ⟨⟨major, ?_⟩, fun i below => devices i below (.memory i) (by simp [deviceResources,
      createResources])⟩
    intro i below resource listed apart
    rw [← other resource (not_memory listed apart)]
    exact devices i below resource listed
  · intro both
    rcases both with ⟨⟨major, devices⟩, memory⟩
    refine ⟨major, ?_⟩
    intro i below resource listed
    by_cases same : resource = .memory i
    · rw [same]
      exact memory i below
    · rw [other resource (not_memory listed same)]
      exact devices i below resource listed same

/-- On high memory a load succeeds exactly if nothing else is refused and the devices,
each of `nvm_capacity_mb` modulo 2^21 megabytes, fit together into the size of one. -/
theorem highmem_load_succeeds_iff (others : Grants) (area : ReservedArea)
    {nvmCapacityMb : Word} (nonnegative : nvmCapacityMb.msb = false)
    (sized : area.size = gHighmemSize nvmCapacityMb) (mapped : others .remap = true)
    (count : Int) :
    (nvmInit (highmemGrants others area nvmCapacityMb) count).1 = 0 ↔
      OthersGranted others count ∧
        count.toNat * (nvmCapacityMb.toNat % 2 ^ 21) ≤ nvmCapacityMb.toNat := by
  have room := (Arena.whole area.span).grants_all_equal count.toNat
    (memSpaceBytes nvmCapacityMb).toNat
  have size : (Arena.whole area.span).limit - (Arena.whole area.span).cursor =
      nvmCapacityMb.toNat * 2 ^ 20 := by
    change area.virtAddr.toNat + area.size.toNat - area.virtAddr.toNat = _
    rw [Nat.add_sub_cancel_left, sized, gHighmemSize_toNat nonnegative]
  rw [size, memSpaceBytes_toNat, ← Nat.mul_assoc, Nat.mul_le_mul_right_iff (by decide)] at room
  have remapped : highmemGrants others area nvmCapacityMb .remap = true := mapped
  rw [nvmInit_succeeds_iff remapped, allGranted_highmem_iff, ← room]
  apply and_congr_right
  intro _
  apply forall_congr'
  intro index
  apply imp_congr_right
  intro _
  rw [hmallocGrants_iff, memSpaceBytes_toNat]

/-- Two devices of 4096 MB: the area is as large as one of them. -/
theorem highmem_load_refuses_second :
    (nvmInit (highmemGrants (fun _ => true)
      ⟨0xffffc90000000000, gHighmemSize 4096, by decide, by decide⟩ 4096) 2).1 ≠ 0 := by
  intro loaded
  have fits := ((highmem_load_succeeds_iff (fun _ => true)
    ⟨0xffffc90000000000, gHighmemSize 4096, by decide, by decide⟩ (by decide) rfl rfl 2).mp
      loaded).2
  exact absurd fits (by decide)

end OsCompiler.Nvmsim.ModuleInit
