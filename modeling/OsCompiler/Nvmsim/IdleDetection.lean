/-
How long the device has been idle.

`last_access_jiffies` keeps 32 of the 64 bits of `jiffies`. The difference that
`nvm_device_is_idle` hands to `jiffies_to_msecs` is wrong by a multiple of `2^32` once the
clock has left the range of an `unsigned`, but the milliseconds are an `unsigned` again.

`jiffies_to_msecs` is the kernel's and a parameter here.
-/

import OsCompiler.Lib.TruncatedStamp
import OsCompiler.Nvmsim.FlatDisk

namespace OsCompiler.Nvmsim

open OsCompiler.TruncatedStamp

variable {capacity : Word}

/-- In milliseconds. -/
def NVM_FLUSH_IDLE_TIMEOUT : Nat := 12

/-- `NVM_DEV_GET_ACCESS_TIME`, into an `unsigned long`. -/
def nvmDevGetAccessTime (device : NvmDevice capacity) : BitVec 64 :=
  device.nvmStat.lastAccessJiffies.setWidth 64

def nvmDevIsIdle (idle : BitVec 64) : Prop := idle.toNat > NVM_FLUSH_IDLE_TIMEOUT

instance (idle : BitVec 64) : Decidable (nvmDevIsIdle idle) := inferInstanceAs (Decidable (_ > _))

/-- `jiffies` is read before the device, whose timestamp may have changed in between. -/
def nvmDeviceIsIdle (jiffiesToMsecs : BitVec 64 → Word) (jiffies : BitVec 64)
    (device : NvmDevice capacity) : BitVec 64 :=
  let nowJiffies := jiffies
  let lastJiffies := nvmDevGetAccessTime device
  let interval := (jiffiesToMsecs (nowJiffies - lastJiffies)).setWidth 64
  if nvmDevIsIdle interval then interval else 0

/-! ### One call -/

/-- The kernel's conversion, for a clock that ticks every few whole milliseconds. -/
structure ConvertsJiffies (HZ : Nat) (jiffiesToMsecs : BitVec 64 → Word) : Prop where
  wholeMsecs : HZ ∣ 1000
  converts : ∀ j, (jiffiesToMsecs j).toNat = 1000 / HZ * j.toNat % 2 ^ 32

def elapsedMsecs (HZ : Nat) (last now : BitVec 64) : Nat := (now.toNat - last.toNat) * 1000 / HZ

/-- Non-zero just when the timeout is exceeded, and then the exact time. -/
structure ReportsIdle (result : BitVec 64) (elapsed : Nat) : Prop where
  idle : result ≠ 0 ↔ elapsed > NVM_FLUSH_IDLE_TIMEOUT
  time : result ≠ 0 → result.toNat = elapsed

private theorem reportsIdle_of_toNat {result : BitVec 64} {elapsed : Nat}
    (returned : result.toNat = if elapsed > NVM_FLUSH_IDLE_TIMEOUT then elapsed else 0) :
    ReportsIdle result elapsed := by
  by_cases timedOut : elapsed > NVM_FLUSH_IDLE_TIMEOUT
  · rw [if_pos timedOut] at returned
    have nonzero : result ≠ 0 := by
      rintro rfl
      rw [← returned] at timedOut
      exact Nat.not_lt_zero _ timedOut
    exact ⟨iff_of_true nonzero timedOut, fun _ => returned⟩
  · rw [if_neg timedOut] at returned
    have zero : result = 0 := BitVec.eq_of_toNat_eq returned
    exact ⟨iff_of_false (not_not_intro zero) timedOut, fun nonzero => absurd zero nonzero⟩

def AccessedAt (device : NvmDevice capacity) (last : BitVec 64) : Prop :=
  device.nvmStat.lastAccessJiffies = last.setWidth 32

private theorem accessedAt_update (device : NvmDevice capacity) (jiffies : BitVec 64) :
    AccessedAt (nvmDevUpdateAccessTime device jiffies) jiffies := rfl

section OneCall

variable {HZ : Nat} {jiffiesToMsecs : BitVec 64 → Word} {device : NvmDevice capacity}
  {last now : BitVec 64}

theorem ConvertsJiffies.elapsed_eq (kernel : ConvertsJiffies HZ jiffiesToMsecs) :
    elapsedMsecs HZ last now = 1000 / HZ * (now.toNat - last.toNat) := by
  rw [elapsedMsecs, Nat.mul_div_assoc _ kernel.wholeMsecs, Nat.mul_comm]

/-- What a call returns, whatever has become of the clock since the last access. -/
theorem nvmDeviceIsIdle_toNat (kernel : ConvertsJiffies HZ jiffiesToMsecs)
    (accessed : AccessedAt device last) :
    (nvmDeviceIsIdle jiffiesToMsecs now device).toNat =
      if passed 32 (1000 / HZ) now last > NVM_FLUSH_IDLE_TIMEOUT then
        passed 32 (1000 / HZ) now last
      else 0 := by
  have stamp : nvmDevGetAccessTime device = kept 32 last := by
    rw [nvmDevGetAccessTime, accessed, kept]
  have interval : ((jiffiesToMsecs (now - kept 32 last)).setWidth 64).toNat =
      passed 32 (1000 / HZ) now last := by
    rw [BitVec.toNat_setWidth_of_le (by decide), kernel.converts, passed]
  rw [← interval]
  unfold nvmDeviceIsIdle
  rw [stamp]
  dsimp only
  split
  · rename_i idle
    exact (if_pos idle).symm
  · rename_i busy
    exact (if_neg busy).symm

private theorem nvmDeviceIsIdle_lt (kernel : ConvertsJiffies HZ jiffiesToMsecs)
    (accessed : AccessedAt device last) :
    (nvmDeviceIsIdle jiffiesToMsecs now device).toNat < 2 ^ 32 := by
  have word : passed 32 (1000 / HZ) now last < 2 ^ 32 := Nat.mod_lt _ (by decide)
  rw [nvmDeviceIsIdle_toNat kernel accessed]
  split
  · exact word
  · decide

private theorem nvmDeviceIsIdle_short (kernel : ConvertsJiffies HZ jiffiesToMsecs)
    (accessed : AccessedAt device last) (ordered : last ≤ now)
    (short : elapsedMsecs HZ last now < 2 ^ 32) :
    (nvmDeviceIsIdle jiffiesToMsecs now device).toNat =
      if elapsedMsecs HZ last now > NVM_FLUSH_IDLE_TIMEOUT then elapsedMsecs HZ last now else 0 := by
  rw [kernel.elapsed_eq] at short ⊢
  rw [nvmDeviceIsIdle_toNat kernel accessed, (passed_exact_iff (by decide) ordered).mpr short]

/-- A call reports exactly the times that fit in an `unsigned`. -/
theorem reportsIdle_iff (kernel : ConvertsJiffies HZ jiffiesToMsecs)
    (accessed : AccessedAt device last) (ordered : last ≤ now) :
    ReportsIdle (nvmDeviceIsIdle jiffiesToMsecs now device) (elapsedMsecs HZ last now) ↔
      elapsedMsecs HZ last now < 2 ^ 32 := by
  constructor
  · intro reports
    by_contra long
    have timeout : NVM_FLUSH_IDLE_TIMEOUT < 2 ^ 32 := by decide
    have time := reports.time (reports.idle.mpr (by omega))
    have word : (nvmDeviceIsIdle jiffiesToMsecs now device).toNat < 2 ^ 32 :=
      nvmDeviceIsIdle_lt kernel accessed
    omega
  · intro short
    exact reportsIdle_of_toNat (nvmDeviceIsIdle_short kernel accessed ordered short)

/-- An access between the reading of the clock and that of its timestamp looks like almost
`2^32` milliseconds without one. -/
theorem nvmDeviceIsIdle_raced (kernel : ConvertsJiffies HZ jiffiesToMsecs)
    (accessed : AccessedAt device last) (raced : now < last)
    (short : elapsedMsecs HZ now last + NVM_FLUSH_IDLE_TIMEOUT < 2 ^ 32) :
    (nvmDeviceIsIdle jiffiesToMsecs now device).toNat = 2 ^ 32 - elapsedMsecs HZ now last := by
  have tick : 0 < 1000 / HZ :=
    Nat.div_pos (Nat.le_of_dvd (by decide) kernel.wholeMsecs)
      (Nat.pos_of_dvd_of_pos kernel.wholeMsecs (by decide))
  have positive : 0 < 1000 / HZ * (last.toNat - now.toNat) :=
    Nat.mul_pos tick (Nat.sub_pos_of_lt raced)
  rw [kernel.elapsed_eq] at short ⊢
  rw [nvmDeviceIsIdle_toNat kernel accessed, passed_of_gt (by decide) positive (by omega),
    if_pos (by omega)]

end OneCall

/-- For every two readings of the 64-bit clock, in order and less than `2^32` milliseconds
apart, the device is reported idle just when it was left alone for more than the timeout. -/
theorem nvm_device_is_idle_exact {HZ : Nat} {jiffiesToMsecs : BitVec 64 → Word}
    (kernel : ConvertsJiffies HZ jiffiesToMsecs) (device : NvmDevice capacity)
    {last now : BitVec 64} (ordered : last ≤ now) (short : elapsedMsecs HZ last now < 2 ^ 32) :
    ReportsIdle (nvmDeviceIsIdle jiffiesToMsecs now (nvmDevUpdateAccessTime device last))
      (elapsedMsecs HZ last now) := by
  have accessed := accessedAt_update device last
  exact (reportsIdle_iff kernel accessed ordered).mpr short

/-- The conversion of the kernel, a product of two `unsigned long`. -/
def msecsOfJiffies (HZ : Nat) (j : BitVec 64) : Word := (BitVec.ofNat 64 (1000 / HZ) * j).setWidth 32

private theorem convertsJiffies_msecsOfJiffies {HZ : Nat} (divides : HZ ∣ 1000) :
    ConvertsJiffies HZ (msecsOfJiffies HZ) where
  wholeMsecs := divides
  converts j := by
    have narrower : 2 ^ 32 ∣ 2 ^ 64 := Nat.pow_dvd_pow 2 (by decide)
    have few : 1000 / HZ < 2 ^ 64 := Nat.lt_of_le_of_lt (Nat.div_le_self _ _) (by decide)
    rw [msecsOfJiffies, BitVec.toNat_setWidth, BitVec.toNat_mul, BitVec.toNat_ofNat,
      Nat.mod_mod_of_dvd _ narrower, Nat.mod_eq_of_lt few]

/-- Five ticks of 4 milliseconds, over the end of the 32 bits. -/
theorem nvm_device_is_idle_over_the_end :
    nvmDeviceIsIdle (msecsOfJiffies 250) 0x200000003#64
      (nvmDevUpdateAccessTime (zeroedDevice 2048#32) 0x1fffffffe#64) = 20#64 := by
  have kernel : ConvertsJiffies 250 (msecsOfJiffies 250) :=
    convertsJiffies_msecsOfJiffies (by decide)
  have ordered : 0x1fffffffe#64 ≤ 0x200000003#64 := by decide
  have reports := nvm_device_is_idle_exact kernel (zeroedDevice 2048#32) ordered (by decide)
  have idle := reports.idle.mpr (by decide)
  exact BitVec.eq_of_toNat_eq (reports.time idle)

/-! ### After any requests -/

section Requests

variable {device after : NvmDevice capacity} {last now : BitVec 64}

/-- A request that is not refused is an access, at the time it came. -/
theorem nvmMakeRequest_accessedAt {env : RequestEnv} {bio : Bio} {outcome : BioOutcome}
    (accessed : AccessedAt device last)
    (run : nvmMakeRequest env device bio = some (after, outcome)) :
    AccessedAt after (if exceedsCapacity capacity bio then last else env.jiffies) := by
  by_cases exceeds : exceedsCapacity capacity bio
  · rw [nvmMakeRequest, if_pos exceeds] at run
    cases run
    rw [if_pos exceeds]
    exact (updateStat_lastAccess _ _ _).trans accessed
  · rw [nvmMakeRequest_accepted exceeds, Option.map_eq_some_iff] at run
    obtain ⟨⟨served, buffers⟩, segments, same⟩ := run
    cases same
    have updated := accessedAt_update device env.jiffies
    rw [if_neg exceeds, AccessedAt, updateStat_lastAccess, forEachSegment_stat segments]
    exact updated

def lastAccess (capacity : Word) (start : BitVec 64) : List Request → BitVec 64
  | [] => start
  | request :: rest =>
      lastAccess capacity
        (if exceedsCapacity capacity request.bio then start else request.env.jiffies) rest

private theorem processBios_accessedAt {start : BitVec 64} {requests : List Request}
    {outcomes : List BioOutcome} (accessed : AccessedAt device start)
    (run : processBios device requests = some (after, outcomes)) :
    AccessedAt after (lastAccess capacity start requests) := by
  induction requests generalizing device start outcomes with
  | nil =>
      cases run
      exact accessed
  | cons request rest ih =>
      simp only [processBios, Option.bind_eq_bind, Option.bind_eq_some_iff] at run
      obtain ⟨⟨served, outcome⟩, here, ⟨final, later⟩, restRun, same⟩ := run
      cases same
      exact ih (nvmMakeRequest_accessedAt accessed here) restRun

private theorem lastAccess_le {start : BitVec 64} {requests : List Request} (started : start ≤ now)
    (earlier : ∀ request ∈ requests, request.env.jiffies ≤ now) :
    lastAccess capacity start requests ≤ now := by
  induction requests generalizing start with
  | nil => exact started
  | cons request rest ih =>
      rw [List.forall_mem_cons] at earlier
      apply ih _ earlier.2
      split
      · exact started
      · exact earlier.1

/-- Whatever requests came before, the device tells how long ago the last one was served,
up to `2^32` milliseconds. A device that served none counts from a clock of 0. -/
theorem idle_after_requests_iff {HZ : Nat} {jiffiesToMsecs : BitVec 64 → Word}
    (kernel : ConvertsJiffies HZ jiffiesToMsecs) {requests : List Request}
    {outcomes : List BioOutcome} (earlier : ∀ request ∈ requests, request.env.jiffies ≤ now)
    (run : processBios (zeroedDevice capacity) requests = some (after, outcomes)) :
    ReportsIdle (nvmDeviceIsIdle jiffiesToMsecs now after)
        (elapsedMsecs HZ (lastAccess capacity 0 requests) now) ↔
      elapsedMsecs HZ (lastAccess capacity 0 requests) now < 2 ^ 32 := by
  have allocated : AccessedAt (zeroedDevice capacity) 0 := rfl
  exact reportsIdle_iff kernel (processBios_accessedAt allocated run)
    (lastAccess_le (BitVec.le_def.mpr (Nat.zero_le _)) earlier)

end Requests

end OsCompiler.Nvmsim
