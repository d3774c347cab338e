/-
Loading the module: `nvm_init` with the ladders of `nvm_proc_create`, `nvm_alloc` and
`nvm_create`, and what each of them releases when an acquisition fails.

Which acquisitions the kernel grants is an argument, so that a load may fail at any
point. A pointer field of a device is kept as whether it is set. Backing memory counts
as acquired by `nvm_mem_space_alloc` and as released by `nvm_mem_space_free`, wherever it
comes from.
-/

import OsCompiler.Lib.ResourceLedger

namespace OsCompiler.Nvmsim.ModuleInit

open OsCompiler.ResourceEvent

inductive Resource
  | remap
  | procNvm
  | procNvmstat
  | procNvmcfg
  | major
  | region
  | device (index : Nat)
  | queue (index : Nat)
  | disk (index : Nat)
  | added (index : Nat)
  | stat (index : Nat)
  | memory (index : Nat)
  | mapTable (index : Nat)
  | bitMap (index : Nat)
  | infoTable (index : Nat)
  | syncer (index : Nat)
  | procDevstat (index : Nat)
deriving DecidableEq

abbrev Events := ResourceLedger Resource

def ENOMEM : Int := 12
def EIO : Int := 5

abbrev Grants := Resource → Bool

def request (grants : Grants) (resource : Resource) (events : Events) : Bool × Events :=
  if grants resource then (true, events.acquire resource) else (false, events)

/-- The fields of `struct nvm_device` that the ladders look at; `kzalloc` clears them. -/
structure Device where
  nvmdevNumber : Nat
  nvmdevQueue : Bool
  nvmdevDisk : Bool
  nvmStat : Bool
  nvmdevData : Bool
  mapTable : Bool
  bitMap : Bool
  infoTable : Bool
  syncer : Bool

def Device.zeroed (index : Nat) : Device :=
  ⟨index, false, false, false, false, false, false, false, false⟩

/-! ### The /proc entries -/

/-- An entry that could not be created is removed all the same; the directory stays. -/
def nvmProcCreate (grants : Grants) (events : Events) : Int × Events :=
  let (procNvm, events) := request grants .procNvm events
  if !procNvm then (-ENOMEM, events)
  else
    let (procNvmstat, events) := request grants .procNvmstat events
    if !procNvmstat then (-ENOMEM, events.release .procNvmstat)
    else
      let (procNvmcfg, events) := request grants .procNvmcfg events
      if !procNvmcfg then (-ENOMEM, events.release .procNvmcfg) else (0, events)

/-! ### The allocation of a device -/

/-- A step of the ladder in `nvm_create`: an error code with the device and the events. -/
abbrev Stage := Device → Events → Int × Device × Events

/-- `if ((err = first(device)) < 0) goto error;` and on to the next step. -/
def Stage.orError (first second : Stage) : Stage := fun device events =>
  let (err, device, events) := first device events
  if err < 0 then (err, device, events) else second device events

def fillField (grants : Grants) (resource : Nat → Resource) (fill : Device → Bool → Device) :
    Stage := fun device events =>
  let (pointer, events) := request grants (resource device.nvmdevNumber) events
  (if pointer then 0 else -ENOMEM, fill device pointer, events)

def nvmStatAlloc (grants : Grants) : Stage :=
  fillField grants .stat fun device pointer => { device with nvmStat := pointer }

def nvmMemSpaceAlloc (grants : Grants) : Stage :=
  fillField grants .memory fun device pointer => { device with nvmdevData := pointer }

def nvmPbiSpaceAlloc (grants : Grants) : Stage :=
  (fillField grants .mapTable fun device pointer => { device with mapTable := pointer }).orError <|
  (fillField grants .bitMap fun device pointer => { device with bitMap := pointer }).orError <|
  fillField grants .infoTable fun device pointer => { device with infoTable := pointer }

/-- A thread that could not be started leaves its field alone. -/
def nvmSyncerInit (grants : Grants) : Stage :=
  fillField grants .syncer fun device pointer =>
    if pointer then { device with syncer := true } else device

/-- The other buffer fields are only cleared. -/
def nvmBufferSpaceAlloc (grants : Grants) : Stage := nvmSyncerInit grants

def nvmProcDevstatCreate (grants : Grants) : Stage := fun device events =>
  let (procDevstat, events) := request grants (.procDevstat device.nvmdevNumber) events
  if !procDevstat then (-ENOMEM, device, events.release (.procDevstat device.nvmdevNumber))
  else (0, device, events)

def nvmCreate (grants : Grants) : Stage :=
  (nvmStatAlloc grants).orError <| (nvmMemSpaceAlloc grants).orError <|
  (nvmPbiSpaceAlloc grants).orError <| (nvmBufferSpaceAlloc grants).orError <|
  nvmProcDevstatCreate grants

def releaseField (field : Bool) (resource : Resource) (events : Events) : Events :=
  if field then events.release resource else events

def nvmMemSpaceFree (device : Device) (events : Events) : Events :=
  releaseField device.nvmdevData (.memory device.nvmdevNumber) events

def outFreeStruct (device : Device) (events : Events) : Option Device × Events :=
  (none, events.release (.device device.nvmdevNumber))

def outFreeDev (device : Device) (events : Events) : Option Device × Events :=
  outFreeStruct device (nvmMemSpaceFree device events)

def outFreeQueue (device : Device) (events : Events) : Option Device × Events :=
  outFreeDev device (events.release (.queue device.nvmdevNumber))

def nvmAlloc (grants : Grants) (index : Nat) (events : Events) : Option Device × Events :=
  let (pointer, events) := request grants (.device index) events
  if !pointer then (none, events)
  else
    let (queue, events) := request grants (.queue index) events
    let device := { Device.zeroed index with nvmdevQueue := queue }
    if !queue then outFreeDev device events
    else
      let (disk, events) := request grants (.disk index) events
      let device := { device with nvmdevDisk := disk }
      if !disk then outFreeQueue device events
      else
        let (err, device, events) := nvmCreate grants device events
        if err < 0 then outFreeQueue device events else (some device, events)

/-! ### Freeing a device -/

def nvmProcDevstatDestroy (device : Device) (events : Events) : Events :=
  events.release (.procDevstat device.nvmdevNumber)

/-- The syncer is stopped; the extracted tables are never allocated. -/
def nvmBufferSpaceFree (device : Device) (events : Events) : Events :=
  releaseField device.syncer (.syncer device.nvmdevNumber) events

def nvmPbiSpaceFree (device : Device) (events : Events) : Events :=
  let events := releaseField device.mapTable (.mapTable device.nvmdevNumber) events
  let events := releaseField device.bitMap (.bitMap device.nvmdevNumber) events
  releaseField device.infoTable (.infoTable device.nvmdevNumber) events

def nvmStatFree (device : Device) (events : Events) : Events :=
  releaseField device.nvmStat (.stat device.nvmdevNumber) events

def nvmDestroy (device : Device) (events : Events) : Events :=
  let events := nvmProcDevstatDestroy device events
  let events := nvmBufferSpaceFree device events
  let events := nvmPbiSpaceFree device events
  let events := nvmMemSpaceFree device events
  nvmStatFree device events

def nvmFree (device : Device) (events : Events) : Events :=
  let events := events.release (.disk device.nvmdevNumber)
  let events := events.release (.queue device.nvmdevNumber)
  let events := nvmDestroy device events
  events.release (.device device.nvmdevNumber)

/-! ### The load -/

def allocDevices (grants : Grants) :
    (count index : Nat) → List Device → Events → List Device × Bool × Events
  | 0, _, devices, events => (devices, true, events)
  | count + 1, index, devices, events =>
      match nvmAlloc grants index events with
      | (some device, events) => allocDevices grants count (index + 1) (devices ++ [device]) events
      | (none, events) => (devices, false, events)

def freeDevices (devices : List Device) (events : Events) : Events :=
  devices.foldl (fun events device => nvmFree device events) events

/-- `add_disk` for each device on the list; it cannot fail. -/
def addDisks (devices : List Device) (events : Events) : Events :=
  devices.foldl (fun events device => events.acquire (.added device.nvmdevNumber)) events

/-- The result of `nvm_proc_create` is not looked at. -/
def nvmInit (grants : Grants) (nvmNumDevices : Int) : Int × Events :=
  let (mapped, events) := request grants .remap []
  if !mapped then (-ENOMEM, events)
  else
    let (_err, events) := nvmProcCreate grants events
    let (major, events) := request grants .major events
    if !major then (- EIO, events)
    else
      let (devices, complete, events) := allocDevices grants nvmNumDevices.toNat 0 [] events
      if complete then (0, addDisks devices events)
      else (-ENOMEM, (freeDevices devices events).release .major)

/-! ### Every function keeps to its own resources -/

def Resource.owner : Resource → Option Nat
  | .remap | .procNvm | .procNvmstat | .procNvmcfg | .major | .region => none
  | .device index | .queue index | .disk index | .added index | .stat index | .memory index
  | .mapTable index | .bitMap index | .infoTable index | .syncer index
  | .procDevstat index => some index

def Resource.Of (index : Nat) (resource : Resource) : Prop := resource.owner = some index

open ResourceLedger (Extends)

private theorem request_extends {own : Resource → Prop} (grants : Grants) {resource : Resource}
    (mine : own resource) (events : Events) :
    Extends own events (request grants resource events).2 := by
  unfold request
  by_cases granted : grants resource = true
  · rw [if_pos granted]
    exact (Extends.refl own events).acquire mine
  · rw [if_neg granted]
    exact Extends.refl own events

theorem releaseField_extends {own : Resource → Prop} (field : Bool) {resource : Resource}
    (mine : own resource) {before events : Events} (extended : Extends own before events) :
    Extends own before (releaseField field resource events) := by
  cases field with
  | false => exact extended
  | true => exact extended.release mine

/-- The stage keeps the device's number, touches resources of that device only, and
fails exactly when one of the listed acquisitions is denied. -/
structure Stage.Acquires (stage : Stage) (grants : Grants) (resources : Nat → List Resource) :
    Prop where
  number : ∀ device events, (stage device events).2.1.nvmdevNumber = device.nvmdevNumber
  extended : ∀ device events,
    Extends (Resource.Of device.nvmdevNumber) events (stage device events).2.2
  fails : ∀ device events, (stage device events).1 < 0 ↔
    ∃ resource ∈ resources device.nvmdevNumber, grants resource = false

theorem fillField_acquires (grants : Grants) (resource : Nat → Resource)
    (fill : Device → Bool → Device) (mine : ∀ index, (resource index).Of index)
    (kept : ∀ device pointer, (fill device pointer).nvmdevNumber = device.nvmdevNumber) :
    (fillField grants resource fill).Acquires grants fun index => [resource index] where
  number := fun _ _ => kept _ _
  extended := fun _ events => request_extends grants (mine _) events
  fails := by
    intro device events
    unfold fillField request
    cases granted : grants (resource device.nvmdevNumber) <;> simp [granted, ENOMEM]

theorem Stage.Acquires.orError {grants : Grants} {first second : Stage}
    {early late : Nat → List Resource} (left : first.Acquires grants early)
    (right : second.Acquires grants late) :
    (first.orError second).Acquires grants fun index => early index ++ late index := by
  have taken : ∀ device events, first.orError second device events =
      if (first device events).1 < 0 then first device events
      else second (first device events).2.1 (first device events).2.2 := fun _ _ => rfl
  constructor
  · intro device events
    rw [taken]
    by_cases failed : (first device events).1 < 0
    · rw [if_pos failed, left.number]
    · rw [if_neg failed, right.number, left.number]
  · intro device events
    have here := left.extended device events
    rw [taken]
    by_cases failed : (first device events).1 < 0
    · rw [if_pos failed]
      exact here
    · have further := right.extended (first device events).2.1 (first device events).2.2
      rw [left.number] at further
      rw [if_neg failed]
      exact here.trans further
  · intro device events
    rw [taken]
    simp only [List.mem_append, or_and_right, exists_or]
    rw [← left.fails device events]
    by_cases failed : (first device events).1 < 0
    · rw [if_pos failed]
      exact iff_of_true failed (Or.inl failed)
    · rw [if_neg failed, or_iff_right failed, right.fails, left.number]

private theorem nvmStatAlloc_acquires (grants : Grants) :
    (nvmStatAlloc grants).Acquires grants fun index => [.stat index] :=
  fillField_acquires grants _ _ (fun _ => rfl) fun _ _ => rfl

private theorem nvmMemSpaceAlloc_acquires (grants : Grants) :
    (nvmMemSpaceAlloc grants).Acquires grants fun index => [.memory index] :=
  fillField_acquires grants _ _ (fun _ => rfl) fun _ _ => rfl

private theorem nvmPbiSpaceAlloc_acquires (grants : Grants) :
    (nvmPbiSpaceAlloc grants).Acquires grants fun index =>
      [.mapTable index] ++ ([.bitMap index] ++ [.infoTable index]) := by
  unfold nvmPbiSpaceAlloc
  refine Stage.Acquires.orError ?_ (Stage.Acquires.orError ?_ ?_)
  all_goals exact fillField_acquires grants _ _ (fun _ => rfl) fun _ _ => rfl

private theorem nvmBufferSpaceAlloc_acquires (grants : Grants) :
    (nvmBufferSpaceAlloc grants).Acquires grants fun index => [.syncer index] := by
  unfold nvmBufferSpaceAlloc nvmSyncerInit
  exact fillField_acquires grants _ _ (fun _ => rfl) fun _ pointer => by cases pointer <;> rfl

private theorem nvmProcDevstatCreate_acquires (grants : Grants) :
    (nvmProcDevstatCreate grants).Acquires grants fun index => [.procDevstat index] := by
  constructor <;> intro device events <;> unfold nvmProcDevstatCreate request <;>
    cases granted : grants (.procDevstat device.nvmdevNumber)
  · rfl
  · rfl
  · exact (Extends.refl _ events).release rfl
  · exact (Extends.refl _ events).acquire rfl
  · simp [granted, ENOMEM]
  · simp [granted]

def createResources (index : Nat) : List Resource :=
  [.stat index, .memory index, .mapTable index, .bitMap index, .infoTable index, .syncer index,
    .procDevstat index]

def deviceResources (index : Nat) : List Resource :=
  .device index :: .queue index :: .disk index :: createResources index

theorem nvmCreate_acquires (grants : Grants) :
    (nvmCreate grants).Acquires grants createResources :=
  (nvmStatAlloc_acquires grants).orError <| (nvmMemSpaceAlloc_acquires grants).orError <|
  (nvmPbiSpaceAlloc_acquires grants).orError <| (nvmBufferSpaceAlloc_acquires grants).orError <|
  nvmProcDevstatCreate_acquires grants

private theorem nvmMemSpaceFree_extends {before events : Events} {device : Device}
    (extended : Extends (Resource.Of device.nvmdevNumber) before events) :
    Extends (Resource.Of device.nvmdevNumber) before (nvmMemSpaceFree device events) :=
  releaseField_extends _ (by exact rfl) extended

private theorem outFreeDev_extends {before events : Events} {device : Device} {index : Nat}
    (number : device.nvmdevNumber = index) (extended : Extends (Resource.Of index) before events) :
    Extends (Resource.Of index) before (outFreeDev device events).2 := by
  subst number
  exact (nvmMemSpaceFree_extends extended).release (by exact rfl)

private theorem outFreeQueue_extends {before events : Events} {device : Device} {index : Nat}
    (number : device.nvmdevNumber = index) (extended : Extends (Resource.Of index) before events) :
    Extends (Resource.Of index) before (outFreeQueue device events).2 := by
  subst number
  exact outFreeDev_extends rfl (extended.release (by exact rfl))

private theorem nvmDestroy_extends {before events : Events} {device : Device}
    (extended : Extends (Resource.Of device.nvmdevNumber) before events) :
    Extends (Resource.Of device.nvmdevNumber) before (nvmDestroy device events) := by
  have removed := extended.release
    (rfl : Resource.Of device.nvmdevNumber (.procDevstat device.nvmdevNumber))
  have stopped := releaseField_extends device.syncer
    (rfl : Resource.Of device.nvmdevNumber (.syncer device.nvmdevNumber)) removed
  have unmapped := releaseField_extends device.mapTable
    (rfl : Resource.Of device.nvmdevNumber (.mapTable device.nvmdevNumber)) stopped
  have cleared := releaseField_extends device.bitMap
    (rfl : Resource.Of device.nvmdevNumber (.bitMap device.nvmdevNumber)) unmapped
  have forgotten := releaseField_extends device.infoTable
    (rfl : Resource.Of device.nvmdevNumber (.infoTable device.nvmdevNumber)) cleared
  exact releaseField_extends device.nvmStat (by exact rfl) (nvmMemSpaceFree_extends forgotten)

private theorem nvmFree_extends (device : Device) (events : Events) :
    Extends (Resource.Of device.nvmdevNumber) events (nvmFree device events) := by
  have put := (Extends.refl (Resource.Of device.nvmdevNumber) events).release
    (rfl : Resource.Of device.nvmdevNumber (.disk device.nvmdevNumber))
  have cleaned := put.release
    (rfl : Resource.Of device.nvmdevNumber (.queue device.nvmdevNumber))
  exact (nvmDestroy_extends cleaned).release (by exact rfl)

def Device.created (index : Nat) : Device :=
  { Device.zeroed index with nvmdevQueue := true, nvmdevDisk := true }

def createdEvents (index : Nat) (events : Events) : Events :=
  ((events.acquire (.device index)).acquire (.queue index)).acquire (.disk index)

/-- The ladder of `nvm_alloc`, one case for each label it may jump to. -/
theorem nvmAlloc_eq (grants : Grants) (index : Nat) (events : Events) :
    nvmAlloc grants index events =
      if grants (.device index) = false then (none, events)
      else if grants (.queue index) = false then
        outFreeDev (Device.zeroed index) (events.acquire (.device index))
      else if grants (.disk index) = false then
        outFreeQueue { Device.zeroed index with nvmdevQueue := true }
          ((events.acquire (.device index)).acquire (.queue index))
      else
        let done := nvmCreate grants (Device.created index) (createdEvents index events)
        if done.1 < 0 then outFreeQueue done.2.1 done.2.2 else (some done.2.1, done.2.2) := by
  unfold nvmAlloc request
  cases grants (.device index) with
  | false => rfl
  | true =>
      cases grants (.queue index) with
      | false => rfl
      | true => cases grants (.disk index) <;> rfl

/-- The allocation touches the one device only, and succeeds exactly when everything that
belongs to the device is granted. -/
theorem nvmAlloc_spec (grants : Grants) (index : Nat) (events : Events) :
    Extends (Resource.Of index) events (nvmAlloc grants index events).2 ∧
    ((nvmAlloc grants index events).1 = none ↔
      ∃ resource ∈ deviceResources index, grants resource = false) ∧
    ∀ device, (nvmAlloc grants index events).1 = some device → device.nvmdevNumber = index := by
  have acquired := (Extends.refl (Resource.Of index) events).acquire
    (rfl : Resource.Of index (.device index))
  have queued := acquired.acquire (rfl : Resource.Of index (.queue index))
  have created := queued.acquire (rfl : Resource.Of index (.disk index))
  rw [nvmAlloc_eq]
  by_cases noDevice : grants (.device index) = false
  · rw [if_pos noDevice]
    exact ⟨Extends.refl _ _, iff_of_true rfl ⟨_, by simp [deviceResources], noDevice⟩,
      fun _ impossible => by cases impossible⟩
  rw [if_neg noDevice]
  by_cases noQueue : grants (.queue index) = false
  · rw [if_pos noQueue]
    exact ⟨outFreeDev_extends rfl acquired, iff_of_true rfl ⟨_, by simp [deviceResources], noQueue⟩,
      fun _ impossible => by cases impossible⟩
  rw [if_neg noQueue]
  by_cases noDisk : grants (.disk index) = false
  · rw [if_pos noDisk]
    exact ⟨outFreeQueue_extends rfl queued, iff_of_true rfl ⟨_, by simp [deviceResources], noDisk⟩,
      fun _ impossible => by cases impossible⟩
  rw [if_neg noDisk]
  have number := (nvmCreate_acquires grants).number (Device.created index)
    (createdEvents index events)
  have fails := (nvmCreate_acquires grants).fails (Device.created index)
    (createdEvents index events)
  have extended := created.trans ((nvmCreate_acquires grants).extended (Device.created index)
    (createdEvents index events))
  have needed : (∃ resource ∈ deviceResources index, grants resource = false) ↔
      ∃ resource ∈ createResources index, grants resource = false := by
    simp [deviceResources, noDevice, noQueue, noDisk]
  rw [needed]
  by_cases failed : (nvmCreate grants (Device.created index) (createdEvents index events)).1 < 0
  · simp only [if_pos failed]
    exact ⟨outFreeQueue_extends number extended, iff_of_true rfl (fails.mp failed),
      fun _ impossible => by cases impossible⟩
  · simp only [if_neg failed]
    refine ⟨extended, iff_of_false (by simp) fun denied => failed (fails.mpr denied), ?_⟩
    intro device same
    cases same
    exact number

/-! ### The load as a whole -/

def Resource.OfDevice (resource : Resource) : Prop := ∃ index, resource.Of index

private theorem freeDevices_extends (devices : List Device) (events : Events) :
    Extends Resource.OfDevice events (freeDevices devices events) := by
  unfold freeDevices
  induction devices generalizing events with
  | nil => exact Extends.refl _ _
  | cons device rest ih =>
      have freed := (nvmFree_extends device events).mono fun _ mine =>
        (⟨_, mine⟩ : Resource.OfDevice _)
      exact freed.trans (ih _)

private theorem addDisks_extends (devices : List Device) (events : Events) :
    Extends Resource.OfDevice events (addDisks devices events) := by
  unfold addDisks
  induction devices generalizing events with
  | nil => exact Extends.refl _ _
  | cons device rest ih =>
      have added := (Extends.refl Resource.OfDevice events).acquire
        (⟨_, rfl⟩ : Resource.OfDevice (.added device.nvmdevNumber))
      exact added.trans (ih _)

private theorem allocDevices_extends (grants : Grants) (count index : Nat) (devices : List Device)
    (events : Events) :
    Extends Resource.OfDevice events (allocDevices grants count index devices events).2.2 := by
  induction count generalizing index devices events with
  | zero => exact Extends.refl _ _
  | succ count ih =>
      have here := (nvmAlloc_spec grants index events).1.mono fun _ mine =>
        (⟨_, mine⟩ : Resource.OfDevice _)
      unfold allocDevices
      rcases alloc : nvmAlloc grants index events with ⟨outcome, next⟩
      rw [alloc] at here
      cases outcome with
      | none => exact here
      | some device => exact here.trans (ih _ _ _)

private theorem allocDevices_complete (grants : Grants) (count index : Nat) (devices : List Device)
    (events : Events) :
    (allocDevices grants count index devices events).2.1 = true ↔
      ∀ i, index ≤ i → i < index + count → ∀ resource ∈ deviceResources i,
        grants resource = true := by
  induction count generalizing index devices events with
  | zero => exact iff_of_true rfl fun i lower upper => by omega
  | succ count ih =>
      have denied := (nvmAlloc_spec grants index events).2.1
      unfold allocDevices
      rcases alloc : nvmAlloc grants index events with ⟨outcome, next⟩
      rw [alloc] at denied
      cases outcome with
      | none =>
          rcases denied.mp rfl with ⟨resource, listed, refused⟩
          refine iff_of_false (by simp) fun all => ?_
          rw [all index (Nat.le_refl _) (by omega) resource listed] at refused
          cases refused
      | some device =>
          have granted : ∀ resource ∈ deviceResources index, grants resource = true := by
            intro resource listed
            by_contra refused
            cases denied.mpr ⟨resource, listed, Bool.not_eq_true _ ▸ refused⟩
          simp only
          rw [ih]
          constructor
          · intro later i lower upper
            rcases Nat.eq_or_lt_of_le lower with rfl | behind
            · exact granted
            · exact later i behind (by omega)
          · intro all i lower upper
            exact all i (by omega) (by omega)

private theorem nvmProcCreate_extends (grants : Grants) (events : Events) :
    Extends (fun resource => resource ≠ .remap) events (nvmProcCreate grants events).2 := by
  unfold nvmProcCreate request
  have start := Extends.refl (fun resource : Resource => resource ≠ .remap) events
  cases grants .procNvm with
  | false => exact start
  | true =>
      have made := start.acquire (by decide : Resource.procNvm ≠ .remap)
      cases grants .procNvmstat with
      | false => exact made.release (by decide)
      | true =>
          have shown := made.acquire (by decide : Resource.procNvmstat ≠ .remap)
          cases grants .procNvmcfg with
          | false => exact shown.release (by decide)
          | true => exact shown.acquire (by decide)

/-- The load returns an error only if everything acquired was released exactly once. -/
def CleansUp (grants : Grants) (nvmNumDevices : Int) : Prop :=
  (nvmInit grants nvmNumDevices).1 ≠ 0 → (nvmInit grants nvmNumDevices).2.Settled

def AllGranted (grants : Grants) (nvmNumDevices : Int) : Prop :=
  grants .major = true ∧ ∀ i < nvmNumDevices.toNat, ∀ resource ∈ deviceResources i,
    grants resource = true

theorem nvmInit_unmapped {grants : Grants} (denied : grants .remap = false) (count : Int) :
    nvmInit grants count = (-ENOMEM, []) := by
  simp [nvmInit, request, denied]

theorem nvmInit_mapped {grants : Grants} (mapped : grants .remap = true) (count : Int) :
    nvmInit grants count =
      let events := (nvmProcCreate grants [acquired .remap]).2
      let done := allocDevices grants count.toNat 0 [] (events.acquire .major)
      if grants .major = false then (- EIO, events)
      else if done.2.1 then (0, addDisks done.1 done.2.2)
      else (-ENOMEM, (freeDevices done.1 done.2.2).release .major) := by
  unfold nvmInit request
  rw [mapped]
  cases grants .major <;> rfl

/-- Past the mapping nothing in `nvm_init` undoes it. -/
theorem nvmInit_keeps_mapping {grants : Grants} (mapped : grants .remap = true) (count : Int) :
    Extends (fun resource => resource ≠ .remap) [acquired .remap] (nvmInit grants count).2 := by
  have foreign : ∀ resource : Resource, resource.OfDevice → resource ≠ .remap := by
    rintro _ ⟨index, mine⟩ rfl
    cases mine
  have shown := nvmProcCreate_extends grants [acquired .remap]
  have registered := shown.acquire (by decide : Resource.major ≠ .remap)
  rw [nvmInit_mapped mapped]
  by_cases occupied : grants .major = false
  · simp only [if_pos occupied]
    exact shown
  · have allocated := registered.trans
      ((allocDevices_extends grants count.toNat 0 [] _).mono foreign)
    simp only [if_neg occupied]
    by_cases complete : (allocDevices grants count.toNat 0 []
        ((nvmProcCreate grants [acquired .remap]).2.acquire .major)).2.1 = true
    · rw [if_pos complete]
      exact allocated.trans ((addDisks_extends _ _).mono foreign)
    · rw [if_neg complete]
      exact (allocated.trans ((freeDevices_extends _ _).mono foreign)).release (by decide)

theorem nvmInit_succeeds_iff {grants : Grants} (mapped : grants .remap = true) (count : Int) :
    (nvmInit grants count).1 = 0 ↔ AllGranted grants count := by
  have devices := allocDevices_complete grants count.toNat 0 []
    ((nvmProcCreate grants [acquired .remap]).2.acquire .major)
  rw [nvmInit_mapped mapped, AllGranted]
  by_cases occupied : grants .major = false
  · simp only [if_pos occupied]
    exact iff_of_false (by decide) fun both => by simp [occupied] at both
  · simp only [if_neg occupied]
    have registered : grants .major = true := by simpa using occupied
    have needed : (∀ i, 0 ≤ i → i < 0 + count.toNat → ∀ resource ∈ deviceResources i,
        grants resource = true) ↔ ∀ i < count.toNat, ∀ resource ∈ deviceResources i,
        grants resource = true := by simp
    rw [needed] at devices
    rw [and_iff_right registered, ← devices]
    by_cases complete : (allocDevices grants count.toNat 0 []
        ((nvmProcCreate grants [acquired .remap]).2.acquire .major)).2.1 = true
    · rw [if_pos complete]
      exact iff_of_true rfl complete
    · rw [if_neg complete]
      exact iff_of_false (by simp [ENOMEM]) complete

/-- The mapping is there after every failed load. -/
theorem nvmInit_leaks_mapping {grants : Grants} (mapped : grants .remap = true) (count : Int) :
    ResourceLedger.Leaked (nvmInit grants count).2 .remap := by
  have kept := (nvmInit_keeps_mapping mapped count).leaked_iff (fun apart => apart rfl)
  exact kept.mpr ⟨List.mem_cons_self, by decide⟩

/-- A failed load has released everything exactly when there was nothing to release, the
mapping itself having failed; all other failures leave something behind. -/
theorem cleansUp_iff (grants : Grants) (nvmNumDevices : Int) :
    CleansUp grants nvmNumDevices ↔
      grants .remap = false ∨ AllGranted grants nvmNumDevices := by
  cases mapped : grants .remap with
  | false =>
      refine iff_of_true (fun _ => ?_) (Or.inl rfl)
      rw [nvmInit_unmapped mapped]
      intro resource impossible
      cases impossible
  | true =>
      have leaks := (nvmInit_leaks_mapping mapped nvmNumDevices).not_settled
      rw [← nvmInit_succeeds_iff mapped, or_iff_right (by decide), CleansUp]
      constructor
      · intro cleans
        by_contra fails
        exact leaks (cleans fails)
      · intro succeeds fails
        exact absurd succeeds fails

/-- The /proc entry of the only device cannot be made: its structure is freed while its
thread, which uses it, goes on. -/
theorem load_leaves_thread_running :
    ResourceLedger.Leaked (nvmInit (fun resource => resource ≠ .procDevstat 0) 1).2 (.syncer 0) ∧
      released (.device 0) ∈ (nvmInit (fun resource => resource ≠ .procDevstat 0) 1).2 ∧
      ¬ CleansUp (fun resource => resource ≠ .procDevstat 0) 1 := by
  have fails : (nvmInit (fun resource => resource ≠ .procDevstat 0) 1).1 ≠ 0 := by decide
  have leaks : ResourceLedger.Leaked (nvmInit (fun resource => resource ≠ .procDevstat 0) 1).2
      (.syncer 0) := ⟨by decide, by decide⟩
  exact ⟨leaks, by decide, fun cleans => leaks.not_settled (cleans fails)⟩

end OsCompiler.Nvmsim.ModuleInit
