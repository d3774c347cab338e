/-
The tdlcd character device of chapter 6: a memory of `SIZE` bytes behind one mutex,
read and written at file positions.

`tdlcd_read` checks the position before it takes the mutex, `tdlcd_write` after it.
A write behind the end of the memory returns 0 with the mutex held, and the next
call that wants it never returns.
-/

import Mathlib.Algebra.Group.Nat.Defs
import Mathlib.Logic.Function.Basic
import OsCompiler.Lib.FlatArray
import OsCompiler.Lib.Transition

namespace OsCompiler.Ch6

open OsCompiler.Transition

def SIZE : Nat := 0x1000
def CTRL_CLC : BitVec 32 := 0x1

/-- `loff_t`, `size_t` and `unsigned long` are 64 bits wide. -/
abbrev Loff := BitVec 64

inductive Errno
  | EFAULT
  | EINVAL
  deriving DecidableEq

inductive Stop
  | hangs
  | outOfBounds

structure TdlcdDev where
  mem : Region UInt8 SIZE
  mutexHeld : Bool

def kzallocDev : TdlcdDev := ⟨Region.fill SIZE 0, false⟩

def mutexLock (dev : TdlcdDev) : Except Stop TdlcdDev :=
  if dev.mutexHeld then .error .hangs else .ok { dev with mutexHeld := true }

def mutexUnlock (dev : TdlcdDev) : TdlcdDev := { dev with mutexHeld := false }

/-- An access of `mem`; `none` is one outside of it. -/
def access {α : Type} : Option α → Except Stop α
  | some result => .ok result
  | none => .error .outOfBounds

/-- How a call returns: `spoiled` is `-EFAULT` after some bytes were copied in. -/
inductive Outcome
  | error (errno : Errno)
  | delivered (bytes : List UInt8)
  | accepted (bytes : List UInt8)
  | spoiled (bytes : List UInt8)
  | position (pos : Loff)
  | cleared

/-- `count` after its conversion to `unsigned int` and the cut at the end of `mem`. -/
def clipped (pos : Loff) (size : BitVec 64) : Nat :=
  let count := (size.setWidth 32).toNat
  if count > SIZE - pos.toNat then SIZE - pos.toNat else count

/-- The last component is the new `*ppos`. -/
def tdlcdRead (dev : TdlcdDev) (pos : Loff) (size : BitVec 64) (userFault : Bool) :
    Except Stop (TdlcdDev × Outcome × Loff) :=
  if pos.toNat > SIZE then .ok (dev, .delivered [], pos)
  else do
    let count := clipped pos size
    let dev ← mutexLock dev
    let bytes ← access (dev.mem.copyOut pos.toNat count)
    if userFault then pure (mutexUnlock dev, .error .EFAULT, pos)
    else pure (mutexUnlock dev, .delivered bytes, pos + BitVec.ofNat 64 count)

/-- `buf` is the user memory from `buf` on. A copy that faults leaves some bytes in the
range it was copying to, here the front of any list at all. -/
def tdlcdWrite (dev : TdlcdDev) (pos : Loff) (size : BitVec 64) (buf : Nat → UInt8)
    (userFault : Option (List UInt8)) : Except Stop (TdlcdDev × Outcome × Loff) := do
  let dev ← mutexLock dev
  if pos.toNat > SIZE then pure (dev, .accepted [], pos)
  else
    let count := clipped pos size
    match userFault with
    | some left =>
        let mem ← access (dev.mem.copyIn pos.toNat (left.take count))
        pure (mutexUnlock { dev with mem := mem }, .spoiled (left.take count), pos)
    | none =>
        let bytes := (List.range count).map buf
        let mem ← access (dev.mem.copyIn pos.toNat bytes)
        pure (mutexUnlock { dev with mem := mem }, .accepted bytes, pos + BitVec.ofNat 64 count)

def tdlcdIoctl (dev : TdlcdDev) (cmd : BitVec 32) : Except Stop (TdlcdDev × Outcome) :=
  if cmd = CTRL_CLC then do
    let dev ← mutexLock dev
    pure (mutexUnlock { dev with mem := Region.fill SIZE 0 }, .cleared)
  else .ok (dev, .error .EINVAL)

def tdlcdLlseek (fPos offset : Loff) (orig : Int) : Loff × Outcome :=
  if orig = 0 then
    if offset.toInt < 0 then (fPos, .error .EINVAL)
    else if (offset.setWidth 32).toNat > SIZE then (fPos, .error .EINVAL)
    else
      let target := (offset.setWidth 32).setWidth 64
      (target, .position target)
  else if orig = 1 then
    if (fPos + offset).toInt > SIZE then (fPos, .error .EINVAL)
    else if (fPos + offset).toInt < 0 then (fPos, .error .EINVAL)
    else (fPos + offset, .position (fPos + offset))
  else (fPos, .error .EINVAL)

/-! ### Sequences of calls on one device -/

variable {File : Type}

/-- What `ppos` points to: the file's own position, or one supplied by `pread`/`pwrite`. -/
inductive Ppos (File : Type)
  | own (file : File)
  | supplied (pos : Loff)

inductive Call (File : Type)
  | read (ppos : Ppos File) (size : BitVec 64) (userFault : Bool)
  | write (ppos : Ppos File) (size : BitVec 64) (buf : Nat → UInt8)
      (userFault : Option (List UInt8))
  | llseek (file : File) (offset : Loff) (orig : Int)
  | ioctl (cmd : BitVec 32)

/-- `stores` records what was put into `mem` and where, in the order of the calls. -/
structure System (File : Type) where
  dev : TdlcdDev
  fPos : File → Loff
  stores : List (FlatArray.Transfer UInt8)

def System.pos (system : System File) : Ppos File → Loff
  | .own file => system.fPos file
  | .supplied pos => pos

def Outcome.stores (pos : Loff) : Outcome → List (FlatArray.Transfer UInt8)
  | .accepted bytes | .spoiled bytes => [.write pos.toNat bytes]
  | .cleared => [.write 0 (List.replicate SIZE 0)]
  | _ => []

section Calls

variable [DecidableEq File]

def System.setPos (system : System File) (ppos : Ppos File) (pos : Loff) : System File :=
  match ppos with
  | .own file => { system with fPos := Function.update system.fPos file pos }
  | .supplied _ => system

def exec (system : System File) : Call File → Except Stop (System File × Outcome)
  | .read ppos size userFault => do
      let (dev, outcome, pos) ← tdlcdRead system.dev (system.pos ppos) size userFault
      pure ({ system.setPos ppos pos with dev := dev }, outcome)
  | .write ppos size buf userFault => do
      let (dev, outcome, pos) ← tdlcdWrite system.dev (system.pos ppos) size buf userFault
      pure ({ system.setPos ppos pos with
        dev := dev, stores := system.stores ++ outcome.stores (system.pos ppos) }, outcome)
  | .llseek file offset orig =>
      let (pos, outcome) := tdlcdLlseek (system.fPos file) offset orig
      .ok (system.setPos (.own file) pos, outcome)
  | .ioctl cmd => do
      let (dev, outcome) ← tdlcdIoctl system.dev cmd
      pure ({ system with dev := dev, stores := system.stores ++ outcome.stores 0 }, outcome)

def completed (system : System File) (call : Call File) : Option (System File) :=
  (exec system call).toOption.map Prod.fst

end Calls

def opened (fPos : File → Loff) : System File := ⟨kzallocDev, fPos, []⟩

/-! ### The property -/

def lastStored (stores : List (FlatArray.Transfer UInt8)) : FlatArray UInt8 :=
  (FlatArray.transfers (fun _ => 0) stores).1

/-- A later store over the same position replaces an earlier one, and no other does. -/
theorem lastStored_of_puts {earlier later : List (FlatArray.Transfer UInt8)}
    {store : FlatArray.Transfer UInt8} {index : Nat} {byte : UInt8} (puts : store.Puts index byte)
    (untouched : ∀ other ∈ later, other.Misses index) :
    lastStored (earlier ++ store :: later) index = byte :=
  FlatArray.transfers_last_write _ earlier later puts untouched

/-- A read that returns bytes returns what was last stored from its position on. -/
def ReadsStored (before : System File) : Call File → Outcome → Prop
  | .read ppos size _, .delivered bytes =>
      bytes = (lastStored before.stores).slice (before.pos ppos).toNat
        (clipped (before.pos ppos) size)
  | _, _ => True

/-- Each call in turn completes with all its accesses inside `mem`, leaves the mutex free and
reads what was stored. -/
def Disciplined [DecidableEq File] (start : System File) (calls : List (Call File)) : Prop :=
  ∀ done call rest, calls = done ++ call :: rest →
    ∃ before after outcome, runAll completed start done = some before ∧
      exec before call = .ok (after, outcome) ∧ after.dev.mutexHeld = false ∧
      ReadsStored before call outcome

/-- A write is at a position up to the end of `mem`. -/
def WritesInside (before : System File) : Call File → Prop
  | .write ppos _ _ _ => (before.pos ppos).toNat ≤ SIZE
  | _ => True

structure System.Sound (system : System File) : Prop where
  mutexFree : system.dev.mutexHeld = false
  contents : system.dev.mem.contents = lastStored system.stores

private theorem sound_opened (fPos : File → Loff) : (opened fPos).Sound where
  mutexFree := rfl
  contents := Region.contents_fill rfl

/-! ### The three operations on `mem` -/

theorem clipped_le (pos : Loff) (size : BitVec 64) : clipped pos size ≤ SIZE - pos.toNat := by
  unfold clipped
  dsimp only
  split <;> omega

theorem mutexLock_free {dev : TdlcdDev} (free : dev.mutexHeld = false) :
    mutexLock dev = .ok { dev with mutexHeld := true } := by
  rw [mutexLock, free]
  rfl

private theorem mutexLock_held {dev : TdlcdDev} (held : dev.mutexHeld = true) :
    mutexLock dev = .error .hangs := by
  rw [mutexLock, held]
  rfl

private theorem tdlcdRead_spec {dev : TdlcdDev} (free : dev.mutexHeld = false) (pos : Loff)
    (size : BitVec 64) (userFault : Bool) :
    ∃ outcome after, tdlcdRead dev pos size userFault = .ok (dev, outcome, after) ∧
      (outcome = .error .EFAULT ∨
        outcome = .delivered (dev.mem.contents.slice pos.toNat (clipped pos size))) := by
  have bound := clipped_le pos size
  by_cases behind : pos.toNat > SIZE
  · have none : clipped pos size = 0 := by omega
    refine ⟨.delivered [], pos, ?_, Or.inr ?_⟩
    · rw [tdlcdRead, if_pos behind]
    · rw [none]
      rfl
  · have copied := dev.mem.copyOut_eq_slice
      (by omega : clipped pos size = 0 ∨ pos.toNat + clipped pos size ≤ SIZE)
    have restored : mutexUnlock { dev with mutexHeld := true } = dev := by
      rw [mutexUnlock, ← free]
    rw [tdlcdRead, if_neg behind, mutexLock_free free]
    cases userFault with
    | true =>
        refine ⟨.error .EFAULT, pos, ?_, Or.inl rfl⟩
        simp only [bind, Except.bind, copied, access, if_true, restored]
        rfl
    | false =>
        refine ⟨.delivered _, pos + BitVec.ofNat 64 (clipped pos size), ?_, Or.inr rfl⟩
        simp only [bind, Except.bind, copied, access, Bool.false_eq_true, if_false, restored]
        rfl

/-- A write inside `mem` lays its bytes over the contents and lets the mutex go. -/
theorem tdlcdWrite_spec {dev : TdlcdDev} (free : dev.mutexHeld = false) {pos : Loff}
    (inside : pos.toNat ≤ SIZE) (size : BitVec 64) (buf : Nat → UInt8)
    (userFault : Option (List UInt8)) :
    ∃ after outcome newPos bytes,
      tdlcdWrite dev pos size buf userFault = .ok (after, outcome, newPos) ∧
        after.mutexHeld = false ∧ outcome.stores pos = [.write pos.toNat bytes] ∧
        after.mem.contents = dev.mem.contents.overlay pos.toNat bytes := by
  have bound := clipped_le pos size
  rw [tdlcdWrite, mutexLock_free free]
  cases userFault with
  | some left =>
      have short : (left.take (clipped pos size)).length ≤ SIZE - pos.toNat := by
        rw [List.length_take]
        omega
      rcases dev.mem.copyIn_eq_overlay pos.toNat (left.take (clipped pos size))
        (Or.inr (by omega)) with ⟨mem, copied, contents⟩
      refine ⟨⟨mem, false⟩, .spoiled _, pos, _, ?_, rfl, rfl, contents⟩
      simp only [bind, Except.bind, if_neg (Nat.not_lt.mpr inside), copied, access]
      rfl
  | none =>
      have length : ((List.range (clipped pos size)).map buf).length = clipped pos size := by
        rw [List.length_map, List.length_range]
      rcases dev.mem.copyIn_eq_overlay pos.toNat ((List.range (clipped pos size)).map buf)
        (Or.inr (by omega)) with ⟨mem, copied, contents⟩
      refine ⟨⟨mem, false⟩, .accepted _, pos + BitVec.ofNat 64 (clipped pos size), _, ?_, rfl, rfl,
        contents⟩
      simp only [bind, Except.bind, if_neg (Nat.not_lt.mpr inside), copied, access]
      rfl

/-- A write behind `mem` returns with the mutex held. -/
theorem tdlcdWrite_behind {dev after : TdlcdDev} {pos newPos : Loff} {outcome : Outcome}
    {size : BitVec 64} {buf : Nat → UInt8} {userFault : Option (List UInt8)}
    (behind : SIZE < pos.toNat)
    (returned : tdlcdWrite dev pos size buf userFault = .ok (after, outcome, newPos)) :
    after.mutexHeld = true := by
  cases held : dev.mutexHeld with
  | true =>
      rw [tdlcdWrite, mutexLock_held held] at returned
      cases returned
  | false =>
      rw [tdlcdWrite, mutexLock_free held] at returned
      simp only [bind, Except.bind, if_pos behind] at returned
      cases returned
      rfl

private theorem contents_cleared {stores : List (FlatArray.Transfer UInt8)}
    {mem : Region UInt8 SIZE}
    (contents : mem.contents = lastStored stores) :
    (Region.fill SIZE (0 : UInt8)).contents =
      lastStored (stores ++ [.write 0 (List.replicate SIZE 0)]) := by
  rw [lastStored, FlatArray.transfers_snoc, ← lastStored, ← contents,
    Region.contents_fill (rfl : (0 : UInt8) = default)]
  funext index
  show 0 = mem.contents.overlay 0 (List.replicate SIZE 0) index
  by_cases inside : index < SIZE
  · have atIndex := mem.contents.overlay_inside (Nat.zero_le index)
      (by rw [List.length_replicate]; omega : index < 0 + (List.replicate SIZE (0 : UInt8)).length)
    rw [List.getElem?_replicate, if_pos (by omega), Option.some.injEq] at atIndex
    exact atIndex.symm
  · rw [mem.contents.overlay_outside (by rw [List.length_replicate]; omega),
      Region.contents_outside mem (Nat.le_of_not_lt inside)]
    rfl

/-! ### Calls and sequences of calls -/

section Runs

variable [DecidableEq File]

private theorem setPos_stores (system : System File) (ppos : Ppos File) (pos : Loff) :
    (system.setPos ppos pos).stores = system.stores := by
  cases ppos <;> rfl

theorem System.Sound.exec {before : System File} (sound : before.Sound) {call : Call File}
    (inside : WritesInside before call) :
    ∃ after outcome, exec before call = .ok (after, outcome) ∧ after.Sound ∧
      ReadsStored before call outcome := by
  cases call with
  | read ppos size userFault =>
      rcases tdlcdRead_spec sound.mutexFree (before.pos ppos) size userFault with
        ⟨outcome, pos, completes, result⟩
      refine ⟨{ before.setPos ppos pos with dev := before.dev }, outcome, ?_, ?_, ?_⟩
      · simp only [Ch6.exec, completes, bind, Except.bind]
        rfl
      · constructor
        · exact sound.mutexFree
        · rw [setPos_stores]
          exact sound.contents
      · rcases result with rfl | rfl
        · trivial
        · show _ = _
          rw [sound.contents]
  | write ppos size buf userFault =>
      rcases tdlcdWrite_spec sound.mutexFree inside size buf userFault with
        ⟨dev, outcome, pos, bytes, completes, free, stores, contents⟩
      refine ⟨{ before.setPos ppos pos with
        dev := dev, stores := before.stores ++ outcome.stores (before.pos ppos) },
        outcome, ?_, ?_, trivial⟩
      · simp only [Ch6.exec, completes, bind, Except.bind]
        rfl
      · constructor
        · exact free
        · dsimp only
          rw [contents, sound.contents, stores, lastStored, lastStored, FlatArray.transfers_snoc]
          rfl
  | llseek file offset orig =>
      refine ⟨_, _, rfl, ?_, trivial⟩
      exact ⟨sound.mutexFree, sound.contents⟩
  | ioctl cmd =>
      by_cases clears : cmd = CTRL_CLC
      · refine ⟨{ before with
          dev := ⟨Region.fill SIZE 0, false⟩,
          stores := before.stores ++ [.write 0 (List.replicate SIZE 0)] },
          .cleared, ?_, ⟨rfl, contents_cleared sound.contents⟩, trivial⟩
        simp only [Ch6.exec, tdlcdIoctl, if_pos clears, mutexLock_free sound.mutexFree, bind,
          Except.bind]
        rfl
      · refine ⟨before, .error .EINVAL, ?_, sound, trivial⟩
        simp only [Ch6.exec, tdlcdIoctl, if_neg clears, bind, Except.bind, Outcome.stores,
          List.append_nil]
        rfl

private theorem completed_eq_some {before after : System File} {call : Call File}
    {outcome : Outcome}
    (completes : exec before call = .ok (after, outcome)) : completed before call = some after := by
  rw [completed, completes]
  rfl

/-- Whatever it stores or faults on, a write that returns from behind `mem` keeps the mutex. -/
theorem mutexHeld_of_not_writesInside {before after : System File} {call : Call File}
    {outcome : Outcome} (outside : ¬ WritesInside before call)
    (completes : exec before call = .ok (after, outcome)) : after.dev.mutexHeld = true := by
  cases call with
  | write ppos size buf userFault =>
      rcases bind_eq_ok.mp completes with ⟨⟨dev, result, pos⟩, wrote, finished⟩
      cases finished
      exact tdlcdWrite_behind (Nat.lt_of_not_le outside) wrote
  | read ppos size userFault => exact absurd trivial outside
  | llseek file offset orig => exact absurd trivial outside
  | ioctl cmd => exact absurd trivial outside

/-- A sequence of calls keeps the discipline if and only if none of its writes is at a
position behind the end of `mem`. -/
theorem disciplined_iff_writesInside (fPos : File → Loff) (calls : List (Call File)) :
    Disciplined (opened fPos) calls ↔ EachStep completed (opened fPos) calls WritesInside := by
  constructor
  · intro disciplined done call rest before split reached
    by_contra outside
    rcases disciplined done call rest split with
      ⟨other, after, outcome, otherReached, completes, free, _⟩
    have same : other = before := Option.some.inj (otherReached.symm.trans reached)
    subst same
    have held := mutexHeld_of_not_writesInside outside completes
    rw [free] at held
    cases held
  · intro each done call rest split
    have earlier : EachStep completed (opened fPos) done WritesInside :=
      eachStep_left (split ▸ each)
    rcases runAll_of_eachStep (sound_opened fPos) (fun before next sound inside => by
      rcases sound.exec inside with ⟨after, outcome, completes, kept, _⟩
      exact ⟨after, completed_eq_some completes, kept⟩) earlier with ⟨before, reached, sound⟩
    rcases sound.exec (each done call rest before split reached) with
      ⟨after, outcome, completes, kept, reads⟩
    exact ⟨before, after, outcome, reached, completes, kept.mutexFree, reads⟩

end Runs

/-- A `pwrite` of one byte behind the end returns 0; the next read never returns. -/
theorem write_behind_hangs_device :
    ¬ Disciplined (opened fun _ : Unit => 0) [.write (.supplied 4097) 1 (fun _ => 7) none] ∧
      ∃ after, completed (opened fun _ : Unit => 0)
        (.write (.supplied 4097) 1 (fun _ => 7) none) = some after ∧
          exec after (.read (.supplied 0) 1 false) = .error .hangs := by
  constructor
  · intro disciplined
    rcases disciplined [] _ [] rfl with ⟨before, after, outcome, reached, completes, free, _⟩
    cases reached
    have behind : ¬ WritesInside (opened fun _ : Unit => 0)
        (.write (.supplied 4097) 1 (fun _ => 7) none) := by
      show ¬ (4097 : Loff).toNat ≤ SIZE
      decide
    have held := mutexHeld_of_not_writesInside behind completes
    rw [free] at held
    cases held
  · exact ⟨_, rfl, rfl⟩

end OsCompiler.Ch6
