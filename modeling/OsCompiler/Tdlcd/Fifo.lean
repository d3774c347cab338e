/-
The tdlcd FIFO device: the mutex-protected bodies of read, write and ioctl.

A body runs while the caller holds `dev->mutex`, so bodies of any number of threads
take effect one after another in some order. A call that has to sleep lets the mutex
go with the device as it was; a later body of the same call tests again.
-/

import OsCompiler.Lib.ByteStream
import OsCompiler.Lib.FlatArray
import OsCompiler.Lib.Transition

namespace OsCompiler.Tdlcd

open OsCompiler.Transition

def SIZE : Nat := 0x1000
def CTRL_CLC : Nat := 0x1

inductive Errno
  | EAGAIN
  | EFAULT
  | ERESTARTSYS
  | EINVAL
  deriving DecidableEq

structure TdlcdDev where
  mem : Region UInt8 SIZE
  currentLen : Nat

def kzallocDev : TdlcdDev := ⟨Region.fill SIZE 0, 0⟩

/-- A system call on the device. A write that faults in the user copy leaves some
bytes in the range it was copying to, here any list at all. -/
inductive Call
  | read (count : Nat) (nonblock userFault : Bool)
  | write (buf : List UInt8) (nonblock : Bool) (userFault : Option (List UInt8))
  | ioctl (cmd : Nat)

/-- How a body ends: the thread goes to sleep, the call returns an error, or it
returns after moving bytes or clearing the device. -/
inductive Outcome
  | sleeps
  | error (errno : Errno)
  | delivered (bytes : List UInt8)
  | accepted (bytes : List UInt8)
  | cleared

/-- `tdlcd_read` after its wait loop. -/
def readBody (dev : TdlcdDev) (count : Nat) (userFault : Bool) : Option (TdlcdDev × Outcome) :=
  let count := if count > dev.currentLen then dev.currentLen else count
  if userFault then some (dev, .error .EFAULT)
  else do
    let bytes ← dev.mem.copyOut 0 count
    let mem ← dev.mem.copyForward 0 count (dev.currentLen - count)
    pure ({ dev with mem := mem, currentLen := dev.currentLen - count }, .delivered bytes)

/-- `tdlcd_write` after its wait loop. -/
def writeBody (dev : TdlcdDev) (buf : List UInt8) (userFault : Option (List UInt8)) :
    Option (TdlcdDev × Outcome) :=
  let count := if buf.length > SIZE - dev.currentLen then SIZE - dev.currentLen else buf.length
  match userFault with
  | some left => do
      let mem ← dev.mem.copyIn dev.currentLen (left.take count)
      pure ({ dev with mem := mem }, .error .EFAULT)
  | none => do
      let mem ← dev.mem.copyIn dev.currentLen (buf.take count)
      pure ({ dev with mem := mem, currentLen := dev.currentLen + count },
        .accepted (buf.take count))

/-- `tdlcd_ioctl`; only `CTRL_CLC` takes the mutex. -/
def ioctlBody (dev : TdlcdDev) (cmd : Nat) : TdlcdDev × Outcome :=
  if cmd = CTRL_CLC then ({ dev with currentLen := 0, mem := Region.fill SIZE 0 }, .cleared)
  else (dev, .error .EINVAL)

def mustWait (dev : TdlcdDev) : Call → Bool
  | .read .. => dev.currentLen == 0
  | .write .. => dev.currentLen == SIZE
  | .ioctl _ => false

def isNonblocking : Call → Bool
  | .read _ nonblock _ => nonblock
  | .write _ nonblock _ => nonblock
  | .ioctl _ => true

def afterWait (dev : TdlcdDev) : Call → Option (TdlcdDev × Outcome)
  | .read count _ userFault => readBody dev count userFault
  | .write buf _ userFault => writeBody dev buf userFault
  | .ioctl cmd => some (ioctlBody dev cmd)

/-- One mutex-protected body of a call, from taking the mutex to letting it go. -/
def execBody (dev : TdlcdDev) (call : Call) : Option (TdlcdDev × Outcome) :=
  if mustWait dev call then
    if isNonblocking call then some (dev, .error .EAGAIN) else some (dev, .sleeps)
  else afterWait dev call

/-! ### What a body does to the stored bytes -/

def TdlcdDev.stored (dev : TdlcdDev) : List UInt8 := dev.mem.contents.slice 0 dev.currentLen

def TdlcdDev.Bounded (dev : TdlcdDev) : Prop := dev.currentLen ≤ SIZE

def Outcome.event : Outcome → StreamEvent UInt8
  | .sleeps => .idle
  | .error _ => .idle
  | .delivered bytes => .took bytes
  | .accepted bytes => .put bytes
  | .cleared => .cleared

theorem kzallocDev_bounded : kzallocDev.Bounded := Nat.zero_le SIZE

theorem TdlcdDev.stored_length (dev : TdlcdDev) : dev.stored.length = dev.currentLen :=
  FlatArray.slice_length _ _ _

/-- A body stays inside `mem` and its outcome explains the change of the stream. -/
structure BodySpec (dev after : TdlcdDev) (outcome : Outcome) : Prop where
  bounded : after.Bounded
  explained : outcome.event.Explains dev.stored after.stored

private theorem readBody_spec {dev : TdlcdDev} (bounded : dev.Bounded) (count : Nat)
    (userFault : Bool) :
    ∃ after outcome, readBody dev count userFault = some (after, outcome) ∧
      BodySpec dev after outcome := by
  cases userFault with
  | true => exact ⟨dev, .error .EFAULT, rfl, bounded, rfl⟩
  | false =>
      unfold TdlcdDev.Bounded at bounded
      obtain ⟨moved, movedAt⟩ : ∃ moved, moved =
          if count > dev.currentLen then dev.currentLen else count := ⟨_, rfl⟩
      have within : moved ≤ dev.currentLen := by
        rw [movedAt]
        split <;> omega
      have copied : dev.mem.copyOut 0 moved = some (dev.mem.contents.slice 0 moved) :=
        dev.mem.copyOut_eq_slice (by omega)
      obtain ⟨mem, shifted, kept⟩ := dev.mem.copyForward_contents
        0 moved (dev.currentLen - moved) (Nat.zero_le moved) (by omega)
      refine ⟨{ dev with mem := mem, currentLen := dev.currentLen - moved },
        .delivered (dev.mem.contents.slice 0 moved), ?_, ?_, ?_⟩
      · simp [readBody, ← movedAt, copied, shifted]
      · exact Nat.le_trans (Nat.sub_le _ _) bounded
      · change dev.stored = dev.mem.contents.slice 0 moved ++
          mem.contents.slice 0 (dev.currentLen - moved)
        rw [kept, TdlcdDev.stored]
        have whole : dev.currentLen = moved + (dev.currentLen - moved) := by omega
        conv => lhs; rw [whole, FlatArray.slice_add, Nat.zero_add]

/-- Bytes copied in behind the stored ones do not touch these. -/
theorem stored_unchanged {array : FlatArray UInt8} {len : Nat} {bytes : List UInt8} :
    (array.overlay len bytes).slice 0 len = array.slice 0 len := by
  apply FlatArray.slice_congr
  intro index _ upper
  exact array.overlay_outside (by omega)

private theorem writeBody_spec {dev : TdlcdDev} (bounded : dev.Bounded) (buf : List UInt8)
    (userFault : Option (List UInt8)) :
    ∃ after outcome, writeBody dev buf userFault = some (after, outcome) ∧
      BodySpec dev after outcome := by
  unfold TdlcdDev.Bounded at bounded
  obtain ⟨moved, movedAt⟩ : ∃ moved, moved = if buf.length > SIZE - dev.currentLen
      then SIZE - dev.currentLen else buf.length := ⟨_, rfl⟩
  have room : moved ≤ SIZE - dev.currentLen ∧ moved ≤ buf.length := by
    rw [movedAt]
    split <;> omega
  cases userFault with
  | some left =>
      obtain ⟨mem, copied, contents⟩ := dev.mem.copyIn_eq_overlay dev.currentLen
        (left.take moved) (Or.inr (by rw [List.length_take]; omega))
      refine ⟨{ dev with mem := mem }, .error .EFAULT, ?_, bounded, ?_⟩
      · simp [writeBody, ← movedAt, copied]
      · change mem.contents.slice 0 dev.currentLen = dev.stored
        rw [contents, stored_unchanged]
        rfl
  | none =>
      have taken : (buf.take moved).length = moved := by
        rw [List.length_take]
        omega
      obtain ⟨mem, copied, contents⟩ := dev.mem.copyIn_eq_overlay dev.currentLen
        (buf.take moved) (Or.inr (by omega))
      refine ⟨{ dev with mem := mem, currentLen := dev.currentLen + moved },
        .accepted (buf.take moved), ?_, ?_, ?_⟩
      · simp [writeBody, ← movedAt, copied]
      · change dev.currentLen + moved ≤ SIZE
        omega
      · change mem.contents.slice 0 (dev.currentLen + moved) = dev.stored ++ buf.take moved
        have back := dev.mem.contents.slice_overlay dev.currentLen (buf.take moved)
        rw [taken] at back
        rw [contents, FlatArray.slice_add, Nat.zero_add, stored_unchanged, back]
        rfl

private theorem ioctlBody_spec {dev : TdlcdDev} (bounded : dev.Bounded) (cmd : Nat) :
    BodySpec dev (ioctlBody dev cmd).1 (ioctlBody dev cmd).2 := by
  unfold ioctlBody
  by_cases clearing : cmd = CTRL_CLC
  · rw [if_pos clearing]
    exact ⟨Nat.zero_le SIZE, rfl⟩
  · rw [if_neg clearing]
    exact ⟨bounded, rfl⟩

theorem afterWait_spec {dev : TdlcdDev} (bounded : dev.Bounded) (call : Call) :
    ∃ after outcome, afterWait dev call = some (after, outcome) ∧ BodySpec dev after outcome := by
  cases call with
  | read count nonblock userFault => exact readBody_spec bounded count userFault
  | write buf nonblock userFault => exact writeBody_spec bounded buf userFault
  | ioctl cmd => exact ⟨_, _, rfl, ioctlBody_spec bounded cmd⟩

theorem execBody_spec {dev : TdlcdDev} (bounded : dev.Bounded) (call : Call) :
    ∃ after outcome, execBody dev call = some (after, outcome) ∧ BodySpec dev after outcome := by
  unfold execBody
  by_cases waits : mustWait dev call
  · rw [if_pos waits]
    by_cases nonblock : isNonblocking call
    · rw [if_pos nonblock]
      exact ⟨dev, .error .EAGAIN, rfl, bounded, rfl⟩
    · rw [if_neg nonblock]
      exact ⟨dev, .sleeps, rfl, bounded, rfl⟩
  · rw [if_neg waits]
    exact afterWait_spec bounded call

/-! ### What a call may bring about -/

/-- A read delivers no more than it asked for, a write accepts a beginning of its `buf`. -/
def Call.Admits : Call → Outcome → Prop
  | .read count _ _, .delivered bytes => bytes.length ≤ count
  | .write buf _ _, .accepted bytes => bytes <+: buf
  | .ioctl cmd, .cleared => cmd = CTRL_CLC
  | .ioctl _, .sleeps => False
  | _, .sleeps | _, .error _ => True
  | _, _ => False

private theorem readBody_admits {dev after : TdlcdDev} {count : Nat} {nonblock userFault : Bool}
    {outcome : Outcome} (executed : readBody dev count userFault = some (after, outcome)) :
    (Call.read count nonblock userFault).Admits outcome := by
  unfold readBody at executed
  cases userFault with
  | true =>
      cases executed
      exact trivial
  | false =>
      simp only [Bool.false_eq_true, if_false, Option.bind_eq_bind, Option.bind_eq_some_iff]
        at executed
      obtain ⟨bytes, copied, mem, _, same⟩ := executed
      cases same
      change bytes.length ≤ count
      rw [Region.copyOut_length copied]
      split <;> omega

private theorem writeBody_admits {dev after : TdlcdDev} {buf : List UInt8} {nonblock : Bool}
    {userFault : Option (List UInt8)} {outcome : Outcome}
    (executed : writeBody dev buf userFault = some (after, outcome)) :
    (Call.write buf nonblock userFault).Admits outcome := by
  unfold writeBody at executed
  cases userFault with
  | some left =>
      simp only [Option.bind_eq_bind, Option.bind_eq_some_iff] at executed
      obtain ⟨mem, _, same⟩ := executed
      cases same
      exact trivial
  | none =>
      simp only [Option.bind_eq_bind, Option.bind_eq_some_iff] at executed
      obtain ⟨mem, _, same⟩ := executed
      cases same
      exact List.take_prefix _ _

private theorem execBody_admits {dev after : TdlcdDev} {call : Call} {outcome : Outcome}
    (executed : execBody dev call = some (after, outcome)) : call.Admits outcome := by
  unfold execBody at executed
  by_cases waits : mustWait dev call = true
  · rw [if_pos waits] at executed
    cases call with
    | read count nonblock userFault => cases nonblock <;> cases executed <;> exact trivial
    | write buf nonblock userFault => cases nonblock <;> cases executed <;> exact trivial
    | ioctl cmd => exact absurd waits (by simp [mustWait])
  · rw [if_neg waits] at executed
    cases call with
    | read count nonblock userFault => exact readBody_admits executed
    | write buf nonblock userFault => exact writeBody_admits executed
    | ioctl cmd =>
        have same : ioctlBody dev cmd = (after, outcome) := Option.some.inj executed
        unfold ioctlBody at same
        by_cases clearing : cmd = CTRL_CLC
        · rw [if_pos clearing] at same
          cases same
          exact clearing
        · rw [if_neg clearing] at same
          cases same
          exact trivial

/-! ### The byte stream over any order of bodies -/

/-- A thread executes a body of a call, or returns from its sleep on a signal. -/
inductive Execution (Thread : Type)
  | body (thread : Thread) (call : Call)
  | interrupted (thread : Thread)

structure Traced where
  dev : TdlcdDev
  ledger : Ledger UInt8

variable {Thread : Type}

def execute (dev : TdlcdDev) : Execution Thread → Option (TdlcdDev × Outcome)
  | .body _ call => execBody dev call
  | .interrupted _ => some (dev, .error .ERESTARTSYS)

def Traced.execute (traced : Traced) (execution : Execution Thread) : Option Traced := do
  let (dev, outcome) ← Tdlcd.execute traced.dev execution
  pure { dev := dev, ledger := traced.ledger.record outcome.event }

private theorem execute_spec {dev : TdlcdDev} (bounded : dev.Bounded)
    (execution : Execution Thread) :
    ∃ after outcome, execute dev execution = some (after, outcome) ∧
      BodySpec dev after outcome := by
  cases execution with
  | body thread call => exact execBody_spec bounded call
  | interrupted thread => exact ⟨dev, .error .ERESTARTSYS, rfl, bounded, rfl⟩

/-- In any order of bodies of any number of threads no access leaves `mem`, the bytes
read since the last clear followed by the stored ones are the bytes written since then,
`current_len` stays within `SIZE`, an error changes nothing of the stream, and the bytes that
are recorded are those of the call: a beginning of what it writes, no more than it reads. -/
theorem tdlcd_byte_stream (executions : List (Execution Thread)) :
    ∃ final : Traced, runAll Traced.execute ⟨kzallocDev, Ledger.empty⟩ executions = some final ∧
      final.ledger.taken ++ final.dev.stored = final.ledger.given ∧
      final.dev.currentLen ≤ SIZE ∧
      (∀ (next : Execution Thread) (after : TdlcdDev) (errno : Errno),
        execute final.dev next = some (after, .error errno) →
        after.currentLen = final.dev.currentLen ∧ after.stored = final.dev.stored) ∧
      ∀ (thread : Thread) (call : Call) (after : TdlcdDev) (outcome : Outcome),
        execute final.dev (.body thread call) = some (after, outcome) → call.Admits outcome := by
  have total : ∃ final : Traced,
      runAll Traced.execute ⟨kzallocDev, Ledger.empty⟩ executions = some final ∧
        final.ledger.Balanced final.dev.stored ∧ final.dev.Bounded := by
    apply runAll_progress
      (fun _ (traced : Traced) => traced.ledger.Balanced traced.dev.stored ∧ traced.dev.Bounded)
      (fun _ : Execution Thread => True) (fun _ _ => trivial)
    · exact ⟨rfl, kzallocDev_bounded⟩
    · intro done before next both _
      rcases both with ⟨balanced, bounded⟩
      obtain ⟨after, outcome, executed, spec⟩ := execute_spec bounded next
      refine ⟨⟨after, before.ledger.record outcome.event⟩, ?_,
        balanced.record spec.explained, spec.bounded⟩
      simp [Traced.execute, executed]
  obtain ⟨final, run, balanced, bounded⟩ := total
  refine ⟨final, run, balanced, bounded, ?_, fun _ _ _ _ => execBody_admits⟩
  intro next after errno executed
  obtain ⟨after', outcome, executed', spec⟩ := execute_spec bounded next
  rw [executed] at executed'
  cases executed'
  have same : after.stored = final.dev.stored := spec.explained
  have lengths := congrArg List.length same
  rw [TdlcdDev.stored_length, TdlcdDev.stored_length] at lengths
  exact ⟨lengths, same⟩

end OsCompiler.Tdlcd
