/-
Unloading the module: `nvm_exit` behind a load that succeeded, and the account of all
acquisitions and releases of both.

The load goes on without its /proc entries, and the unloading removes them all the same. It
also unregisters a region of block device numbers that the load never registers.
-/

import Mathlib.Data.List.Nodup
import Mathlib.Data.List.Perm.Basic
import OsCompiler.Nvmsim.ModuleInit

namespace OsCompiler.Nvmsim.ModuleInit

open OsCompiler.ResourceEvent OsCompiler.ResourceLedger

def nvmListHead (grants : Grants) (nvmNumDevices : Int) : List Device :=
  (allocDevices grants nvmNumDevices.toNat 0 []
    ((nvmProcCreate grants [acquired .remap]).2.acquire .major)).1

def nvmHighmemUnmap (events : Events) : Events := events.release .remap

def nvmProcDestroy (events : Events) : Events :=
  ((events.release .procNvmcfg).release .procNvmstat).release .procNvm

/-- `nvm_del_one` takes the device off the list and its disk away, and frees it. -/
def nvmDelOne (events : Events) (device : Device) : Events :=
  nvmFree device (events.release (.added device.nvmdevNumber))

def nvmExit (devices : List Device) (events : Events) : Events :=
  let events := nvmHighmemUnmap (devices.foldl nvmDelOne events)
  let events := events.release .region
  nvmProcDestroy (events.release .major)

/-! ### What a device acquires and releases -/

def Device.complete (index : Nat) : Device :=
  ⟨index, true, true, true, true, true, true, true, true⟩

def freedResources (index : Nat) : List Resource :=
  [.added index, .disk index, .queue index, .procDevstat index, .syncer index, .mapTable index,
    .bitMap index, .infoTable index, .memory index, .stat index, .device index]

private theorem freedResources_perm (index : Nat) :
    (freedResources index).Perm (.added index :: deviceResources index) := by
  rw [List.perm_ext_iff_of_nodup (by simp [freedResources])
    (by simp [deviceResources, createResources])]
  intro resource
  simp only [freedResources, deviceResources, createResources, List.mem_cons, List.not_mem_nil,
    or_false]
  tauto

private theorem nvmAlloc_granted {grants : Grants} {index : Nat}
    (granted : ∀ resource ∈ deviceResources index, grants resource = true) (events : Events) :
    nvmAlloc grants index events =
      (some (Device.complete index), events ++ (deviceResources index).map acquired) := by
  simp only [deviceResources, createResources, List.forall_mem_cons] at granted
  rcases granted with ⟨device, queue, disk, stat, memory, map, bit, info, syncer, proc, _⟩
  simp [nvmAlloc, nvmCreate, nvmStatAlloc, nvmMemSpaceAlloc, nvmPbiSpaceAlloc,
    nvmBufferSpaceAlloc, nvmSyncerInit, nvmProcDevstatCreate, fillField, Stage.orError, request,
    Device.zeroed, Device.complete, ResourceLedger.acquire, deviceResources, createResources,
    device, queue, disk, stat, memory, map, bit, info, syncer, proc]

private theorem nvmDelOne_complete (index : Nat) (events : Events) :
    nvmDelOne events (Device.complete index) = events ++ (freedResources index).map released := by
  simp [nvmDelOne, nvmFree, nvmDestroy, nvmProcDevstatDestroy, nvmBufferSpaceFree, nvmPbiSpaceFree,
    nvmMemSpaceFree, nvmStatFree, releaseField, Device.complete, ResourceLedger.release,
    freedResources]

private theorem allocDevices_granted {grants : Grants} (count : Nat) {index : Nat}
    (granted : ∀ i, index ≤ i → i < index + count → ∀ resource ∈ deviceResources i,
      grants resource = true) (devices : List Device) (events : Events) :
    allocDevices grants count index devices events =
      (devices ++ (List.range' index count).map Device.complete, true,
        events ++ ((List.range' index count).flatMap deviceResources).map acquired) := by
  induction count generalizing index devices events with
  | zero => simp [allocDevices]
  | succ count ih =>
      have here := nvmAlloc_granted (granted index (Nat.le_refl index) (by omega)) events
      have later := @ih (index + 1) (fun i lower upper => granted i (by omega) (by omega))
        (devices ++ [Device.complete index]) (events ++ (deviceResources index).map acquired)
      rw [allocDevices, here]
      dsimp only
      rw [later, List.range'_succ, List.map_cons, List.flatMap_cons, List.map_append,
        List.append_assoc, List.append_assoc]
      rfl

def addedEvents (index : Nat) : Events := [acquired (.added index)]

private theorem addDisks_complete (numbers : List Nat) (events : Events) :
    addDisks (numbers.map Device.complete) events = events ++ numbers.flatMap addedEvents := by
  unfold addDisks
  induction numbers generalizing events with
  | nil => simp
  | cons index rest ih =>
      rw [List.map_cons, List.foldl_cons, ih, List.flatMap_cons, ← List.append_assoc]
      rfl

private theorem foldl_nvmDelOne (numbers : List Nat) (events : Events) :
    (numbers.map Device.complete).foldl nvmDelOne events =
      events ++ (numbers.flatMap freedResources).map released := by
  induction numbers generalizing events with
  | nil => simp
  | cons index rest ih =>
      rw [List.map_cons, List.foldl_cons, nvmDelOne_complete, ih, List.flatMap_cons,
        List.map_append, List.append_assoc]

/-! ### The /proc entries -/

/-- The entries that were made, and those removed because they could not be made. -/
structure ProcEntries (grants : Grants) (made undone : List Resource) : Prop where
  order : made <+: [.procNvm, .procNvmstat, .procNvmcfg]
  apart : ∀ resource ∈ undone, resource ∈ [Resource.procNvmstat, .procNvmcfg] ∧ resource ∉ made
  whole : made = [.procNvm, .procNvmstat, .procNvmcfg] ↔
    grants .procNvm = true ∧ grants .procNvmstat = true ∧ grants .procNvmcfg = true
  plain : made = [.procNvm, .procNvmstat, .procNvmcfg] → undone = []

private theorem nvmProcCreate_entries (grants : Grants) (events : Events) :
    ∃ made undone, ProcEntries grants made undone ∧
      (nvmProcCreate grants events).2 = events ++ made.map acquired ++ undone.map released := by
  unfold nvmProcCreate request
  cases nvm : grants .procNvm with
  | false => exact ⟨[], [], ⟨by decide, nofun, by simp [nvm], nofun⟩, by simp⟩
  | true =>
      cases stat : grants .procNvmstat with
      | false =>
          exact ⟨[.procNvm], [.procNvmstat], ⟨by decide, by decide, by simp [stat], nofun⟩,
            by simp [ResourceLedger.acquire, ResourceLedger.release]⟩
      | true =>
          cases cfg : grants .procNvmcfg with
          | false =>
              exact ⟨[.procNvm, .procNvmstat], [.procNvmcfg],
                ⟨by decide, by decide, by simp [cfg], nofun⟩,
                by simp [ResourceLedger.acquire, ResourceLedger.release]⟩
          | true =>
              exact ⟨[.procNvm, .procNvmstat, .procNvmcfg], [],
                ⟨by decide, nofun, by simp [nvm, stat, cfg], fun _ => rfl⟩,
                by simp [ResourceLedger.acquire]⟩

theorem ProcEntries.cfg_last {grants : Grants} {made undone : List Resource}
    (entries : ProcEntries grants made undone) (last : .procNvmcfg ∈ made) :
    made = [.procNvm, .procNvmstat, .procNvmcfg] := by
  have order := entries.order
  simp only [List.prefix_cons_iff, List.prefix_nil] at order
  rcases order with rfl | ⟨_, rfl, rfl | ⟨_, rfl, rfl | ⟨_, rfl, rfl⟩⟩⟩
  · cases last
  · exact absurd last (by decide)
  · exact absurd last (by decide)
  · rfl

/-! ### The account of a load and its unloading -/

def exitResources : List Resource :=
  [.remap, .region, .major, .procNvmcfg, .procNvmstat, .procNvm]

def allDevices (freed : Nat → List Resource) (nvmNumDevices : Int) : List Resource :=
  (List.range' 0 nvmNumDevices.toNat).flatMap freed

/-- The events of a load that succeeds and of the unloading behind it. -/
theorem load_unload_events {grants : Grants} {count : Int}
    (loaded : (nvmInit grants count).1 = 0) :
    ∃ made undone, ProcEntries grants made undone ∧
      nvmExit (nvmListHead grants count) (nvmInit grants count).2 =
        (.remap :: made).map acquired ++ undone.map released ++
          (.major :: allDevices deviceResources count).map acquired ++
          (List.range' 0 count.toNat).flatMap addedEvents ++
          (allDevices freedResources count ++ exitResources).map released := by
  have mapped : grants .remap = true := by
    by_contra denied
    rw [nvmInit_unmapped (Bool.eq_false_iff.mpr denied)] at loaded
    exact absurd loaded (by decide)
  have all : AllGranted grants count := (nvmInit_succeeds_iff mapped count).mp loaded
  have granted : ∀ i, 0 ≤ i → i < 0 + count.toNat → ∀ resource ∈ deviceResources i,
      grants resource = true :=
    fun i _ upper => all.2 i (by omega)
  rcases nvmProcCreate_entries grants [acquired .remap] with ⟨made, undone, entries, made_events⟩
  have devices := allocDevices_granted count.toNat granted []
    ((nvmProcCreate grants [acquired .remap]).2.acquire .major)
  have registered : ¬ grants .major = false := by
    rw [all.1]
    decide
  refine ⟨made, undone, entries, ?_⟩
  rw [nvmInit_mapped mapped, nvmListHead]
  dsimp only
  rw [if_neg registered, devices, if_pos rfl, nvmExit, List.nil_append, addDisks_complete,
    foldl_nvmDelOne, made_events]
  simp [nvmProcDestroy, nvmHighmemUnmap, ResourceLedger.acquire, ResourceLedger.release,
    allDevices, exitResources]

def sharedEvents (made undone : List Resource) : Events :=
  (.remap :: made).map acquired ++ undone.map released ++ [acquired .major] ++
    exitResources.map released

def deviceEvents (index : Nat) : Events :=
  (deviceResources index).map acquired ++
    (addedEvents index ++ (freedResources index).map released)

theorem count_load_unload (made undone : List Resource) (count : Int)
    (event : ResourceEvent Resource) :
    ((.remap :: made).map acquired ++ undone.map released ++
        (.major :: allDevices deviceResources count).map acquired ++
        (List.range' 0 count.toNat).flatMap addedEvents ++
        (allDevices freedResources count ++ exitResources).map released).count event =
      (sharedEvents made undone).count event +
        ((List.range' 0 count.toNat).flatMap deviceEvents).count event := by
  have later := (List.flatMap_append_perm (List.range' 0 count.toNat) addedEvents
    (fun index => (freedResources index).map released)).count_eq event
  have parts := (List.flatMap_append_perm (List.range' 0 count.toNat)
    (fun index => (deviceResources index).map acquired)
    (fun index => addedEvents index ++ (freedResources index).map released)).count_eq event
  rw [List.count_append] at later parts
  have sum : ((List.range' 0 count.toNat).flatMap deviceEvents).count event = _ := parts.symm
  rw [sum, ← later, allDevices, allDevices, sharedEvents]
  simp only [List.map_append, List.map_cons, List.map_flatMap, List.count_append,
    List.count_cons, List.count_nil]
  omega

private theorem deviceResources_owner {index : Nat} {resource : Resource}
    (listed : resource ∈ deviceResources index) : resource.owner = some index := by
  simp only [deviceResources, createResources, List.mem_cons, List.not_mem_nil, or_false]
    at listed
  rcases listed with rfl | rfl | rfl | rfl | rfl | rfl | rfl | rfl | rfl | rfl <;> rfl

private theorem deviceEvents_owner (index : Nat) :
    ∀ event ∈ deviceEvents index, event.resource.owner = some index := by
  intro event member
  rcases List.mem_append.mp member with made | later
  · rcases List.mem_map.mp made with ⟨resource, listed, rfl⟩
    exact deviceResources_owner listed
  rcases List.mem_append.mp later with added | freed
  · rw [List.mem_singleton.mp added]
    rfl
  · rcases List.mem_map.mp freed with ⟨resource, listed, rfl⟩
    rcases List.mem_cons.mp ((freedResources_perm index).mem_iff.mp listed) with rfl | own
    · rfl
    · exact deviceResources_owner own

theorem acquired_deviceEvents (index : Nat) (resource : Resource) :
    (deviceEvents index).count (acquired resource) =
      (.added index :: deviceResources index).count resource := by
  have added : (addedEvents index).count (acquired resource) =
      [Resource.added index].count resource :=
    count_acquired_map_acquired [Resource.added index] resource
  rw [deviceEvents, List.count_append, List.count_append, count_acquired_map_acquired, added,
    count_acquired_map_released, Nat.add_zero, ← List.count_append]
  exact List.perm_append_comm.count_eq resource

private theorem deviceEvents_balanced (index : Nat) : (deviceEvents index).Balanced := by
  intro resource
  have added : (addedEvents index).count (released resource) = 0 :=
    count_released_map_acquired [Resource.added index] resource
  rw [acquired_deviceEvents, deviceEvents, List.count_append, List.count_append,
    count_released_map_acquired, count_released_map_released, added, Nat.zero_add, Nat.zero_add]
  exact (freedResources_perm index).count_eq resource

private theorem deviceEvents_settled (index : Nat) : (deviceEvents index).Settled := by
  intro resource member
  rw [← List.count_pos_iff, acquired_deviceEvents, List.count_pos_iff] at member
  rw [deviceEvents_balanced, acquired_deviceEvents]
  exact List.count_eq_one_of_mem (by simp [deviceResources, createResources]) member

private theorem exitResources_owner : ∀ resource ∈ exitResources, resource.owner = none := by decide

/-- All that is about no device is about something that `nvm_exit` releases. -/
theorem sharedEvents_resource {grants : Grants} {made undone : List Resource}
    (entries : ProcEntries grants made undone) :
    ∀ event ∈ sharedEvents made undone, event.resource ∈ exitResources := by
  have procEntries : ∀ other ∈ [Resource.procNvm, .procNvmstat, .procNvmcfg],
      other ∈ exitResources := by decide
  intro event member
  simp only [sharedEvents, List.mem_append, List.mem_map, List.mem_cons, List.not_mem_nil,
    or_false] at member
  rcases member with ((⟨resource, rfl | inMade, rfl⟩ | ⟨resource, inUndone, rfl⟩) | rfl) |
    ⟨resource, inExit, rfl⟩
  · exact List.mem_cons_self
  · exact procEntries resource (entries.order.subset inMade)
  · exact procEntries resource (List.mem_cons_of_mem _ (entries.apart resource inUndone).1)
  · exact (by decide : Resource.major ∈ exitResources)
  · exact inExit

private theorem sharedEvents_owner {grants : Grants} {made undone : List Resource}
    (entries : ProcEntries grants made undone) :
    ∀ event ∈ sharedEvents made undone, event.resource.owner = none := by
  intro event member
  exact exitResources_owner _ (sharedEvents_resource entries event member)

theorem released_sharedEvents (made undone : List Resource) (resource : Resource) :
    (sharedEvents made undone).count (released resource) =
      undone.count resource + exitResources.count resource := by
  simp [sharedEvents]

theorem acquired_sharedEvents (made undone : List Resource) (resource : Resource) :
    (sharedEvents made undone).count (acquired resource) =
      (Resource.remap :: made ++ [Resource.major]).count resource := by
  rw [sharedEvents, List.count_append, List.count_append, List.count_append,
    count_acquired_map_acquired, count_acquired_map_released, count_acquired_map_released,
    List.count_append]
  exact congrArg _ (count_acquired_map_acquired [.major] resource)

private theorem sharedEvents_settled {grants : Grants} {made undone : List Resource}
    (entries : ProcEntries grants made undone) : (sharedEvents made undone).Settled := by
  intro resource member
  have inExit : resource ∈ exitResources := sharedEvents_resource entries _ member
  have kept : resource ∈ Resource.remap :: made ++ [Resource.major] := by
    rwa [← List.count_pos_iff, acquired_sharedEvents, List.count_pos_iff] at member
  have notUndone : resource ∉ undone := by
    intro member
    have apart := entries.apart resource member
    simp only [List.mem_append, List.mem_cons, List.not_mem_nil, or_false] at kept
    rcases kept with (rfl | inMade) | rfl
    · exact absurd apart.1 (by decide)
    · exact apart.2 inMade
    · exact absurd apart.1 (by decide)
  rw [released_sharedEvents, List.count_eq_zero.mpr notUndone,
    List.count_eq_one_of_mem (by decide) inExit]

/-- But for the region, of which the load knows nothing. -/
theorem sharedEvents_balanced_iff {grants : Grants} {made undone : List Resource}
    (entries : ProcEntries grants made undone) :
    ResourceLedger.Balanced ((sharedEvents made undone).erase (released .region)) ↔
      made = [.procNvm, .procNvmstat, .procNvmcfg] := by
  constructor
  · intro balanced
    apply entries.cfg_last
    have even := balanced .procNvmcfg
    rw [List.count_erase_of_ne (by decide), List.count_erase_of_ne (by decide),
      released_sharedEvents, acquired_sharedEvents] at even
    have once : exitResources.count .procNvmcfg = 1 := by decide
    have among : .procNvmcfg ∈ Resource.remap :: made ++ [Resource.major] :=
      List.count_pos_iff.mp (by omega)
    simpa using among
  · intro whole resource
    have sorted : exitResources.Perm (.region :: (.remap :: made ++ [.major])) := by
      rw [whole]
      decide
    have freed := released_sharedEvents made undone resource
    rw [congrArg (List.count resource) (entries.plain whole), List.count_nil, Nat.zero_add,
      sorted.count_eq] at freed
    rw [List.count_erase, freed, List.count_erase_of_ne (by simp), acquired_sharedEvents]
    by_cases region : Resource.region = resource
    · subst region
      simp
    · rw [List.count_cons_of_ne region]
      simp [region]

/-- Behind a load that succeeded, `nvm_exit` releases once whatever the load has acquired, and
the region, which the load does not acquire. It releases nothing else exactly where the load
could make all /proc entries. -/
theorem load_unload_settled {grants : Grants} {count : Int}
    (loaded : (nvmInit grants count).1 = 0) :
    let events := nvmExit (nvmListHead grants count) (nvmInit grants count).2
    events.Settled ∧ released .region ∈ events ∧ acquired .region ∉ events ∧
      (ResourceLedger.Balanced (events.erase (released .region)) ↔
        grants .procNvm = true ∧ grants .procNvmstat = true ∧ grants .procNvmcfg = true) := by
  intro events
  rcases load_unload_events loaded with ⟨made, undone, entries, account⟩
  have whole (event : ResourceEvent Resource) : events.count event =
      (sharedEvents made undone).count event +
        ((List.range' 0 count.toNat).flatMap deviceEvents).count event := by
    rw [← count_load_unload, ← account]
  have foreign (event : ResourceEvent Resource) (region : event.resource = .region) :
      ((List.range' 0 count.toNat).flatMap deviceEvents).count event = 0 := by
    apply count_flatMap_foreign deviceEvents_owner
    intro index _ mine
    rw [region] at mine
    cases mine
  refine ⟨?_, ?_, ?_, ?_⟩
  · rw [settled_iff_of_parts deviceEvents_owner List.nodup_range' (sharedEvents_owner entries) whole]
    exact ⟨sharedEvents_settled entries, fun index _ => deviceEvents_settled index⟩
  · have once : exitResources.count .region = 1 := by decide
    rw [← List.count_pos_iff, whole, released_sharedEvents]
    omega
  · have never : .region ∉ Resource.remap :: made ++ [Resource.major] := by
      intro member
      simp only [List.mem_append, List.mem_cons, List.not_mem_nil, or_false, reduceCtorEq,
        false_or] at member
      exact absurd (entries.order.subset member) (by decide)
    rw [← List.count_eq_zero, whole, foreign _ rfl, acquired_sharedEvents,
      List.count_eq_zero.mpr never]
  · have struck (event : ResourceEvent Resource) :
        (events.erase (released .region)).count event =
          ((sharedEvents made undone).erase (released .region)).count event +
            ((List.range' 0 count.toNat).flatMap deviceEvents).count event := by
      rw [List.count_erase, List.count_erase, whole]
      by_cases same : event = released .region
      · rw [foreign event (by rw [same]; rfl), Nat.add_zero, Nat.add_zero]
      · have apart : (released Resource.region == event) = false := by
          simpa using Ne.symm same
        rw [apart]
        rfl
    rw [balanced_iff_of_parts deviceEvents_balanced struck, sharedEvents_balanced_iff entries,
      entries.whole]

/-- Two devices with all that they ask for, where one /proc entry is refused and removed
twice. -/
theorem load_unload_two :
    let grants : Grants := fun resource => resource ≠ .procNvmcfg
    let events := nvmExit (nvmListHead grants 2) (nvmInit grants 2).2
    events.Settled ∧ released .region ∈ events ∧ acquired .region ∉ events ∧
      ¬ ResourceLedger.Balanced (events.erase (released .region)) := by
  intro grants events
  have loaded : (nvmInit grants 2).1 = 0 := by decide
  obtain ⟨settled, region, never, balanced⟩ :=
    load_unload_settled loaded
  exact ⟨settled, region, never, fun even => absurd (balanced.mp even).2.2 (by decide)⟩

end OsCompiler.Nvmsim.ModuleInit
