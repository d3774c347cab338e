/-
Loading and unloading the tdlcd modules: `tdlcd_init` and `tdlcd_exit`, which are the same
for the memory device and for the FIFO.

Whether `cdev_add` succeeds is reported but not noted, and `tdlcd_exit` deletes every
`cdev`, the first one once more behind its loop.
-/

import Mathlib.Data.List.Nodup
import OsCompiler.Lib.ResourceLedger

namespace OsCompiler.Tdlcd.LoadUnload

open OsCompiler.ResourceEvent OsCompiler.ResourceLedger

def TDLCD_NUM : Nat := 10
def ENOMEM : Int := 12

inductive Resource
  | region
  | memory
  | cdev (index : Nat)
  deriving DecidableEq

abbrev Events := ResourceLedger Resource

/-- What the kernel grants; `refusal` is the negative answer of the registration. -/
structure Grants where
  granted : Resource → Bool
  refusal : Int
  negative : refusal < 0

def tdlcdSetupCdev (grants : Grants) (events : Events) (index : Nat) : Events :=
  if grants.granted (.cdev index) then events.acquire (.cdev index) else events

def tdlcdInit (grants : Grants) : Int × Events :=
  if grants.granted .region = false then (grants.refusal, [])
  else
    let events : Events := ResourceLedger.acquire [] .region
    if grants.granted .memory = false then (-ENOMEM, events.release .region)
    else (0, (List.range TDLCD_NUM).foldl (tdlcdSetupCdev grants) (events.acquire .memory))

def cdevDel (events : Events) (index : Nat) : Events := events.release (.cdev index)

def tdlcdExit (events : Events) : Events :=
  ((cdevDel ((List.range TDLCD_NUM).foldl cdevDel events) 0).release .memory).release .region

/-! ### The two loops -/

variable {grants : Grants}

private theorem foldl_tdlcdSetupCdev (numbers : List Nat) (events : Events) :
    numbers.foldl (tdlcdSetupCdev grants) events =
      events ++ ((numbers.filter fun index => grants.granted (.cdev index)).map .cdev).map
        acquired := by
  induction numbers generalizing events with
  | nil => simp
  | cons index rest ih =>
      rw [List.foldl_cons, ih, tdlcdSetupCdev, List.filter_cons]
      by_cases added : grants.granted (.cdev index) = true
      · rw [if_pos added, if_pos added]
        simp [ResourceLedger.acquire]
      · rw [if_neg added, if_neg added]

private theorem foldl_cdevDel (numbers : List Nat) (events : Events) :
    numbers.foldl cdevDel events = events ++ (numbers.map .cdev).map released := by
  induction numbers generalizing events with
  | nil => simp
  | cons index rest ih =>
      rw [List.foldl_cons, ih, cdevDel]
      simp [ResourceLedger.release]

def loadResources (grants : Grants) : List Resource :=
  .region :: .memory ::
    ((List.range TDLCD_NUM).filter fun index => grants.granted (.cdev index)).map .cdev

def exitResources : List Resource :=
  (List.range TDLCD_NUM).map .cdev ++ [.cdev 0, .memory, .region]

private theorem tdlcdExit_eq (events : Events) :
    tdlcdExit events = events ++ exitResources.map released := by
  rw [tdlcdExit, foldl_cdevDel, cdevDel]
  simp [ResourceLedger.release, exitResources]

private theorem tdlcdInit_loaded (loaded : (tdlcdInit grants).1 = 0) :
    (tdlcdInit grants).2 = (loadResources grants).map acquired := by
  unfold tdlcdInit at loaded ⊢
  by_cases region : grants.granted .region = false
  · rw [if_pos region] at loaded
    exact absurd loaded (Int.ne_of_lt grants.negative)
  rw [if_neg region] at loaded ⊢
  dsimp only at loaded ⊢
  by_cases memory : grants.granted .memory = false
  · rw [if_pos memory] at loaded
    exact absurd loaded (by decide)
  rw [if_neg memory, foldl_tdlcdSetupCdev]
  simp [ResourceLedger.acquire, loadResources]

private theorem exitResources_count {resource : Resource}
    (listed : resource ∈ loadResources grants) :
    exitResources.count resource = if resource = .cdev 0 then 2 else 1 := by
  have range : ∀ index < TDLCD_NUM,
      exitResources.count (.cdev index) = if Resource.cdev index = .cdev 0 then 2 else 1 := by
    decide
  rw [loadResources, List.mem_cons, List.mem_cons] at listed
  rcases listed with rfl | rfl | isCdev
  · decide
  · decide
  · rcases List.mem_map.mp isCdev with ⟨index, inside, rfl⟩
    exact range index (List.mem_range.mp (List.mem_filter.mp inside).1)

/-- A load that fails has released all that it acquired; behind one that succeeds the unloading
releases each acquired thing once, except that it deletes the first `cdev` twice. -/
theorem tdlcd_load_unload (grants : Grants) :
    ((tdlcdInit grants).1 ≠ 0 → (tdlcdInit grants).2.Settled) ∧
      ((tdlcdInit grants).1 = 0 → ∀ resource,
        acquired resource ∈ tdlcdExit (tdlcdInit grants).2 →
          (tdlcdExit (tdlcdInit grants).2).count (released resource) =
            if resource = .cdev 0 then 2 else 1) := by
  constructor
  · intro failed
    unfold tdlcdInit at failed ⊢
    by_cases region : grants.granted .region = false
    · rw [if_pos region]
      exact fun resource member => absurd member List.not_mem_nil
    rw [if_neg region] at failed ⊢
    dsimp only at failed ⊢
    by_cases memory : grants.granted .memory = false
    · rw [if_pos memory]
      intro resource member
      have isRegion : resource = .region := by
        simpa [ResourceLedger.acquire, ResourceLedger.release] using member
      rw [isRegion]
      decide
    · rw [if_neg memory] at failed
      exact absurd rfl failed
  · intro loaded resource member
    rw [tdlcdInit_loaded loaded, tdlcdExit_eq] at member ⊢
    rw [List.count_append, count_released_map_acquired, count_released_map_released, Nat.zero_add]
    refine exitResources_count (?_ : resource ∈ loadResources grants)
    rw [← List.count_pos_iff, ← count_acquired_map_acquired]
    have present := List.count_pos_iff.mpr member
    rw [List.count_append, count_acquired_map_released] at present
    exact present

end OsCompiler.Tdlcd.LoadUnload
