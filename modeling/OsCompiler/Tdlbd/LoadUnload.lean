/-
Loading and unloading the tdlbd module: `setup_device`, `vmem_disk_init` and
`vmem_disk_exit`, with all that they acquire and release.

`setup_device` returns nothing, so that a device may be left half set up; the unloading
then goes by its pointers. Behind the label `out_vfree` the pointer to the data array is
still set.

`register_blkdev` answers a request for a number of one's own with 0, which the load takes
for a failure.
-/

import Mathlib.Data.List.Perm.Basic
import OsCompiler.Lib.ResourceLedger

namespace OsCompiler.Tdlbd.LoadUnload

open OsCompiler.ResourceEvent OsCompiler.ResourceLedger

def DEVICES_NUM : Nat := 4
def VMEMD_QUEUE : Int := 0
def VMEMD_NOQUEUE : Int := 1
def EBUSY : Int := 16
def ENOMEM : Int := 12

/-- `blk_alloc_queue` with `kobject_put`, and `blk_init_queue` with `blk_cleanup_queue`. -/
inductive QueueKind
  | alloc
  | init
  deriving DecidableEq

inductive Resource
  | major
  | devices
  | data (which : Nat)
  | queue (which : Nat) (kind : QueueKind)
  | disk (which : Nat)
  deriving DecidableEq

abbrev Events := ResourceLedger Resource

abbrev Grants := Resource → Bool

/-- `register_blkdev` returns the number `chosen` where 0 asks for any number, 0 where it has
registered the number asked for, and an error below 0. -/
def registerBlkdev (grants : Grants) (chosen : { number : Nat // 0 < number }) (major : Int)
    (events : Events) : Int × Events :=
  if grants .major = false then (-EBUSY, events)
  else (if major = 0 then chosen.val else 0, events.acquire .major)

/-- The pointers of `struct vmem_disk_dev`; `memset` clears them. -/
structure VmemDiskDev where
  which : Nat
  data : Bool
  queue : Bool
  gd : Bool

/-- What the `switch` over `request_mode` in `setup_device` comes to; a bad mode is reported and
treated as `VMEMD_QUEUE`. -/
def queueKind (requestMode : Int) : QueueKind :=
  if requestMode = VMEMD_NOQUEUE then .alloc else .init

def setupDevice (grants : Grants) (requestMode : Int) (which : Nat) (events : Events) :
    VmemDiskDev × Events :=
  let dev : VmemDiskDev := ⟨which, false, false, false⟩
  if grants (.data which) = false then (dev, events)
  else
    let events := events.acquire (.data which)
    let dev := { dev with data := true }
    let queue := .queue which (queueKind requestMode)
    if grants queue = false then (dev, events.release (.data which))
    else
      let events := events.acquire queue
      let dev := { dev with queue := true }
      if grants (.disk which) = false then (dev, events.release (.data which))
      else ({ dev with gd := true }, events.acquire (.disk which))

def setupDevices (grants : Grants) (requestMode : Int) :
    List Nat → Events → List VmemDiskDev × Events
  | [], events => ([], events)
  | which :: rest, events =>
      let (dev, events) := setupDevice grants requestMode which events
      let (later, events) := setupDevices grants requestMode rest events
      (dev :: later, events)

def vmemDiskInit (grants : Grants) (requestMode : Int) (chosen : { number : Nat // 0 < number })
    (vmemDiskMajor : Int) : Int × List VmemDiskDev × Events :=
  let (vmemDiskMajor, events) := registerBlkdev grants chosen vmemDiskMajor []
  if vmemDiskMajor ≤ 0 then (-EBUSY, [], events)
  else if grants .devices = false then (-ENOMEM, [], events.release .major)
  else
    let (devices, events) := setupDevices grants requestMode (List.range DEVICES_NUM)
      (events.acquire .devices)
    (0, devices, events)

def releaseIf (pointer : Bool) (resource : Resource) (events : Events) : Events :=
  if pointer then events.release resource else events

def exitDevice (requestMode : Int) (events : Events) (dev : VmemDiskDev) : Events :=
  let events := releaseIf dev.gd (.disk dev.which) events
  let events :=
    if requestMode = VMEMD_NOQUEUE then releaseIf dev.queue (.queue dev.which .alloc) events
    else releaseIf dev.queue (.queue dev.which .init) events
  releaseIf dev.data (.data dev.which) events

def vmemDiskExit (requestMode : Int) (devices : List VmemDiskDev) (events : Events) : Events :=
  ((devices.foldl (exitDevice requestMode) events).release .major).release .devices

/-! ### The part of one device -/

/-- How far `setup_device` comes. -/
def setupEvents (grants : Grants) (requestMode : Int) (which : Nat) : Events :=
  (setupDevice grants requestMode which []).2

def leftDevice (grants : Grants) (requestMode : Int) (which : Nat) : VmemDiskDev :=
  (setupDevice grants requestMode which []).1

def exitEvents (grants : Grants) (requestMode : Int) (which : Nat) : Events :=
  exitDevice requestMode [] (leftDevice grants requestMode which)

variable (grants : Grants) (requestMode : Int)

private theorem setupDevice_eq (which : Nat) (events : Events) :
    setupDevice grants requestMode which events =
      (leftDevice grants requestMode which, events ++ setupEvents grants requestMode which) := by
  unfold leftDevice setupEvents setupDevice
  by_cases data : grants (.data which) = false
  · simp [data]
  by_cases queue : grants (.queue which (queueKind requestMode)) = false
  · simp [data, queue, ResourceLedger.acquire, ResourceLedger.release]
  by_cases disk : grants (.disk which) = false
  · simp [data, queue, disk, ResourceLedger.acquire, ResourceLedger.release]
  · simp [data, queue, disk, ResourceLedger.acquire]

private theorem exitDevice_eq (events : Events) (dev : VmemDiskDev) :
    exitDevice requestMode events dev = events ++ exitDevice requestMode [] dev := by
  rcases dev with ⟨which, _ | _, _ | _, _ | _⟩ <;>
    by_cases noQueue : requestMode = VMEMD_NOQUEUE <;>
      simp [exitDevice, releaseIf, ResourceLedger.release, noQueue]

private theorem setupDevices_eq (numbers : List Nat) (events : Events) :
    setupDevices grants requestMode numbers events =
      (numbers.map (leftDevice grants requestMode),
        events ++ numbers.flatMap (setupEvents grants requestMode)) := by
  induction numbers generalizing events with
  | nil => simp [setupDevices]
  | cons which rest ih => simp [setupDevices, setupDevice_eq, ih]

private theorem foldl_exitDevice (numbers : List Nat) (events : Events) :
    (numbers.map (leftDevice grants requestMode)).foldl (exitDevice requestMode) events =
      events ++ numbers.flatMap (exitEvents grants requestMode) := by
  induction numbers generalizing events with
  | nil => simp
  | cons which rest ih =>
      rw [List.map_cons, List.foldl_cons, exitDevice_eq, ih, List.flatMap_cons, List.append_assoc]
      rfl

def Resource.owner : Resource → Option Nat
  | .major | .devices => none
  | .data which | .queue which _ | .disk which => some which

def deviceEvents (which : Nat) : Events :=
  setupEvents grants requestMode which ++ exitEvents grants requestMode which

/-- Where the data array was granted, so were the queue and the disk. -/
def NotHalfSetUp (which : Nat) : Prop :=
  grants (.data which) = true →
    grants (.queue which (queueKind requestMode)) = true ∧ grants (.disk which) = true

/-- The four ways in which a device may be set up. -/
theorem deviceEvents_cases (which : Nat) :
    (deviceEvents grants requestMode which = [] ∧ grants (.data which) = false) ∨
    (deviceEvents grants requestMode which =
        [acquired (.data which), released (.data which), released (.data which)] ∧
      ¬ NotHalfSetUp grants requestMode which) ∨
    (deviceEvents grants requestMode which =
        [acquired (.data which), acquired (.queue which (queueKind requestMode)),
          released (.data which), released (.queue which (queueKind requestMode)),
          released (.data which)] ∧ ¬ NotHalfSetUp grants requestMode which) ∨
    (deviceEvents grants requestMode which =
        [acquired (.data which), acquired (.queue which (queueKind requestMode)),
          acquired (.disk which), released (.disk which),
          released (.queue which (queueKind requestMode)), released (.data which)] ∧
      NotHalfSetUp grants requestMode which) := by
  have kinds : (requestMode = VMEMD_NOQUEUE ∧ queueKind requestMode = .alloc) ∨
      (requestMode ≠ VMEMD_NOQUEUE ∧ queueKind requestMode = .init) := by
    unfold queueKind
    by_cases noQueue : requestMode = VMEMD_NOQUEUE
    · exact Or.inl ⟨noQueue, if_pos noQueue⟩
    · exact Or.inr ⟨noQueue, if_neg noQueue⟩
  unfold NotHalfSetUp deviceEvents setupEvents exitEvents leftDevice setupDevice
  generalize queueKind requestMode = kind at kinds ⊢
  cases data : grants (.data which) with
  | false => exact Or.inl ⟨by simp [exitDevice, releaseIf], rfl⟩
  | true =>
      right
      cases queue : grants (.queue which kind) with
      | false =>
          left
          simp [queue, exitDevice, releaseIf, ResourceLedger.acquire, ResourceLedger.release]
      | true =>
          right
          cases disk : grants (.disk which) with
          | false =>
              left
              rcases kinds with ⟨mode, rfl⟩ | ⟨mode, rfl⟩
              · simp [queue, mode, exitDevice, releaseIf, ResourceLedger.acquire,
                  ResourceLedger.release]
              · simp [queue, mode, exitDevice, releaseIf, ResourceLedger.acquire,
                  ResourceLedger.release]
          | true =>
              right
              rcases kinds with ⟨mode, rfl⟩ | ⟨mode, rfl⟩
              · simp [queue, mode, exitDevice, releaseIf, ResourceLedger.acquire,
                  ResourceLedger.release]
              · simp [queue, mode, exitDevice, releaseIf, ResourceLedger.acquire,
                  ResourceLedger.release]

private theorem deviceEvents_own (which : Nat) :
    ∀ event ∈ deviceEvents grants requestMode which, event.resource.owner = some which := by
  rcases deviceEvents_cases grants requestMode which with same | same | same | same <;>
    simp [same.1, ResourceEvent.resource, Resource.owner]

/-- Each device is settled by itself exactly if it was not left half set up. -/
theorem deviceEvents_settled_iff (which : Nat) :
    (deviceEvents grants requestMode which).Settled ↔ NotHalfSetUp grants requestMode which := by
  unfold Settled
  rcases deviceEvents_cases grants requestMode which with same | same | same | same
  · refine iff_of_true ?_ ?_
    · rw [same.1]
      exact fun resource member => absurd member List.not_mem_nil
    · intro granted
      rw [same.2] at granted
      cases granted
  · refine iff_of_false ?_ same.2
    intro settled
    have twice := settled (.data which) (by simp [same.1])
    simp [same.1] at twice
  · refine iff_of_false ?_ same.2
    intro settled
    have twice := settled (.data which) (by simp [same.1])
    simp [same.1] at twice
  · refine iff_of_true ?_ same.2
    rw [same.1]
    intro resource member
    simp only [List.mem_cons, List.not_mem_nil, or_false, reduceCtorEq, acquired.injEq] at member
    rcases member with rfl | rfl | rfl <;> simp

/-! ### The module as a whole -/

variable {chosen : { number : Nat // 0 < number }} {vmemDiskMajor : Int}

/-- The four ways out of the load. -/
theorem vmemDiskInit_cases :
    (grants .major = false ∧
      vmemDiskInit grants requestMode chosen vmemDiskMajor = (-EBUSY, [], [])) ∨
    (grants .major = true ∧ vmemDiskMajor ≠ 0 ∧
      vmemDiskInit grants requestMode chosen vmemDiskMajor = (-EBUSY, [], [acquired .major])) ∨
    (vmemDiskMajor = 0 ∧ vmemDiskInit grants requestMode chosen vmemDiskMajor =
      (-ENOMEM, [], [acquired .major, released .major])) ∨
    (vmemDiskMajor = 0 ∧ vmemDiskInit grants requestMode chosen vmemDiskMajor =
      (0, setupDevices grants requestMode (List.range DEVICES_NUM)
        [acquired .major, acquired .devices])) := by
  have positive : chosen.val ≠ 0 := Nat.ne_of_gt chosen.property
  unfold vmemDiskInit registerBlkdev
  cases major : grants .major with
  | false => exact Or.inl ⟨rfl, rfl⟩
  | true =>
      right
      by_cases any : vmemDiskMajor = 0
      · right
        cases devices : grants .devices with
        | false =>
            left
            simp [any, positive, ResourceLedger.acquire, ResourceLedger.release]
        | true =>
            right
            simp [any, positive, ResourceLedger.acquire]
      · left
        simp [any, ResourceLedger.acquire]

/-- The events of a load that succeeds and of the unloading behind it. -/
theorem load_unload_events {devices : List VmemDiskDev} {events : Events}
    (loaded : vmemDiskInit grants requestMode chosen vmemDiskMajor = (0, devices, events)) :
    vmemDiskExit requestMode devices events =
      [acquired .major, acquired .devices] ++
        (List.range DEVICES_NUM).flatMap (setupEvents grants requestMode) ++
        (List.range DEVICES_NUM).flatMap (exitEvents grants requestMode) ++
        [released .major, released .devices] := by
  have busy : -EBUSY ≠ 0 := by decide
  have noMemory : -ENOMEM ≠ 0 := by decide
  rcases vmemDiskInit_cases grants requestMode with ⟨_, done⟩ | ⟨_, _, done⟩ | ⟨_, done⟩ | ⟨_, done⟩
  · exact absurd (congrArg Prod.fst (done.symm.trans loaded)) busy
  · exact absurd (congrArg Prod.fst (done.symm.trans loaded)) busy
  · exact absurd (congrArg Prod.fst (done.symm.trans loaded)) noMemory
  · rw [done, setupDevices_eq] at loaded
    cases loaded
    rw [vmemDiskExit, foldl_exitDevice]
    simp [ResourceLedger.release]

theorem count_load_unload {devices : List VmemDiskDev} {events : Events}
    (loaded : vmemDiskInit grants requestMode chosen vmemDiskMajor = (0, devices, events))
    (event : ResourceEvent Resource) :
    (vmemDiskExit requestMode devices events).count event =
      [acquired Resource.major, acquired .devices, released .major, released .devices].count event +
        ((List.range DEVICES_NUM).flatMap (deviceEvents grants requestMode)).count event := by
  have parts : ((List.range DEVICES_NUM).flatMap (deviceEvents grants requestMode)).count event =
      ((List.range DEVICES_NUM).flatMap (setupEvents grants requestMode)).count event +
        ((List.range DEVICES_NUM).flatMap (exitEvents grants requestMode)).count event := by
    rw [← List.count_append]
    exact ((List.range DEVICES_NUM).flatMap_append_perm _ _).symm.count_eq event
  have ends : [acquired Resource.major, acquired .devices, released .major,
      released .devices].count event =
      [acquired Resource.major, acquired .devices].count event +
        [released Resource.major, released .devices].count event := by
    rw [← List.count_append]
    rfl
  rw [load_unload_events grants requestMode loaded, parts, ends]
  simp only [List.count_append]
  omega

/-- A load that fails has released all that it acquired, unless it had asked for a major number
of its own and was given it. Behind a load that succeeds the unloading releases all exactly once
if and only if no device was left half set up, whose data array is freed twice. -/
theorem load_unload_settled_iff {code : Int} {devices : List VmemDiskDev} {events : Events}
    (loaded : vmemDiskInit grants requestMode chosen vmemDiskMajor = (code, devices, events)) :
    (code ≠ 0 → (events.Settled ↔ vmemDiskMajor = 0 ∨ grants .major = false)) ∧
      (code = 0 → ((vmemDiskExit requestMode devices events).Settled ↔
        ∀ which < DEVICES_NUM, NotHalfSetUp grants requestMode which)) := by
  constructor
  · intro failed
    rcases vmemDiskInit_cases grants requestMode with ⟨refused, done⟩ | ⟨given, asked, done⟩ |
      ⟨any, done⟩ | ⟨_, done⟩ <;>
        rw [loaded] at done <;> cases done
    · exact iff_of_true (fun resource member => absurd member List.not_mem_nil) (Or.inr refused)
    · refine iff_of_false ?_ (by simp [given, asked])
      have leaks : ResourceLedger.Leaked [acquired Resource.major] .major := by
        simp [ResourceLedger.Leaked]
      exact leaks.not_settled
    · refine iff_of_true ?_ (Or.inl any)
      intro resource member
      have isMajor : resource = .major := by simpa using member
      rw [isMajor]
      decide
    · exact absurd rfl failed
  · rintro rfl
    have own := deviceEvents_own grants requestMode
    have shared : ∀ event ∈ [acquired Resource.major, acquired .devices, released .major,
        released .devices], event.resource.owner = none := by decide
    have sharedSettled : ResourceLedger.Settled [acquired Resource.major, acquired .devices,
        released .major, released .devices] := by
      intro resource member
      simp only [List.mem_cons, List.not_mem_nil, or_false, reduceCtorEq, acquired.injEq] at member
      rcases member with rfl | rfl <;> decide
    rw [settled_iff_of_parts own List.nodup_range shared
      (count_load_unload grants requestMode loaded), and_iff_right sharedSettled]
    apply forall_congr'
    intro which
    rw [List.mem_range, deviceEvents_settled_iff]

/-- The second disk cannot be made; and the number 240 is asked for and given. -/
theorem load_unload_one_half :
    let half := vmemDiskInit (fun resource => resource ≠ .disk 1) VMEMD_QUEUE ⟨254, by decide⟩ 0
    let asked := vmemDiskInit (fun _ => true) VMEMD_QUEUE ⟨254, by decide⟩ 240
    (half.1 = 0 ∧ ¬ (vmemDiskExit VMEMD_QUEUE half.2.1 half.2.2).Settled) ∧
      asked.1 = -EBUSY ∧ ¬ asked.2.2.Settled := by
  intro half asked
  have ofHalf := load_unload_settled_iff (fun resource => resource ≠ .disk 1) VMEMD_QUEUE
    (Prod.ext rfl (Prod.ext rfl rfl) : half = (half.1, half.2.1, half.2.2))
  have ofAsked := load_unload_settled_iff (fun _ => true) VMEMD_QUEUE
    (Prod.ext rfl (Prod.ext rfl rfl) : asked = (asked.1, asked.2.1, asked.2.2))
  have loaded : half.1 = 0 := rfl
  have failed : asked.1 ≠ 0 := by decide
  refine ⟨⟨loaded, ?_⟩, rfl, ?_⟩
  · intro settled
    have whole := (ofHalf.2 loaded).mp settled 1 (by decide) rfl
    exact absurd whole.2 (by decide)
  · intro settled
    rcases (ofAsked.1 failed).mp settled with none | refused
    · exact absurd none (by decide)
    · exact absurd refused (by decide)

end OsCompiler.Tdlbd.LoadUnload
