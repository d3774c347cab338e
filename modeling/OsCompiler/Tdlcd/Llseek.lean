/-
`tdlcd_llseek`, the same function in the FIFO driver and in the driver of chapter 6.

Seeks from the start of the file compare the low 32 bits of the offset with `SIZE`;
relative seeks compare the whole sum, which may wrap only above `SIZE`.
-/

import Mathlib.Algebra.Group.Int.Defs
import OsCompiler.Ch6.Tdlcd
import OsCompiler.Tdlcd.Fifo

namespace OsCompiler.Tdlcd

open OsCompiler.Transition

/-- `loff_t`, read as a signed number. -/
abbrev Loff := BitVec 64

structure Seek where
  offset : Loff
  orig : Int

def tdlcdLlseek (fPos offset : Loff) (orig : Int) : Loff × Except Errno Loff :=
  if orig = 0 then
    if offset.toInt < 0 then (fPos, .error .EINVAL)
    else if (offset.setWidth 32).toNat > SIZE then (fPos, .error .EINVAL)
    else
      let target := (offset.setWidth 32).setWidth 64
      (target, .ok target)
  else if orig = 1 then
    if (fPos + offset).toInt > SIZE then (fPos, .error .EINVAL)
    else if (fPos + offset).toInt < 0 then (fPos, .error .EINVAL)
    else (fPos + offset, .ok (fPos + offset))
  else (fPos, .error .EINVAL)

def asCh6Outcome : Except Errno Loff → Ch6.Outcome
  | .ok pos => .position pos
  | .error _ => .error .EINVAL

/-- The driver of chapter 6 has the same function. -/
theorem ch6_llseek_eq (fPos offset : Loff) (orig : Int) : Ch6.tdlcdLlseek fPos offset orig =
    ((tdlcdLlseek fPos offset orig).1, asCh6Outcome (tdlcdLlseek fPos offset orig).2) := by
  have size : Ch6.SIZE = SIZE := rfl
  unfold Ch6.tdlcdLlseek tdlcdLlseek
  rw [size]
  repeat' split
  all_goals rfl

/-! ### What a seek promises -/

def InFile (fPos : Loff) : Prop := 0 ≤ fPos.toInt ∧ fPos.toInt ≤ SIZE

def target (fPos : Loff) (seek : Seek) : Option Int :=
  if seek.orig = 0 then some seek.offset.toInt
  else if seek.orig = 1 then some (fPos.toInt + seek.offset.toInt)
  else none

/-- The seek lands on its target if the file has it, and otherwise fails and stays. -/
def SeeksExactly (fPos : Loff) (seek : Seek) : Prop :=
  (∀ pos, target fPos seek = some pos → 0 ≤ pos → pos ≤ SIZE →
    ∃ landed : Loff, tdlcdLlseek fPos seek.offset seek.orig = (landed, .ok landed) ∧
      landed.toInt = pos) ∧
  ((∀ pos, target fPos seek = some pos → ¬ (0 ≤ pos ∧ pos ≤ SIZE)) →
    tdlcdLlseek fPos seek.offset seek.orig = (fPos, .error .EINVAL))

/-- The offset from the start of the file fits into `SIZE` with its low 32 bits only. -/
def LosesHighBits (seek : Seek) : Prop :=
  seek.orig = 0 ∧ 2 ^ 32 ≤ seek.offset.toInt ∧ seek.offset.toInt % 2 ^ 32 ≤ SIZE

private theorem size_eq : ((SIZE : Nat) : Int) = 4096 := rfl

private theorem low_bits {offset : Loff} (positive : 0 ≤ offset.toInt) :
    ((offset.setWidth 32).toNat : Int) = offset.toInt % 2 ^ 32 := by
  have bound := offset.isLt
  rw [BitVec.toNat_setWidth]
  rw [BitVec.toInt_eq_toNat_cond] at positive ⊢
  split at positive
  · rename_i small
    rw [if_pos small]
    omega
  · omega

private theorem widened_toInt (low : BitVec 32) : (low.setWidth 64).toInt = low.toNat := by
  have bound := low.isLt
  rw [BitVec.toInt_eq_toNat_cond, BitVec.toNat_setWidth]
  split <;> omega

/-- A sum with a position of the file wraps only to a negative number. -/
private theorem sum_toInt {fPos : Loff} (inside : InFile fPos) (offset : Loff) :
    (fPos + offset).toInt = fPos.toInt + offset.toInt ∨
      ((fPos + offset).toInt < 0 ∧ SIZE < fPos.toInt + offset.toInt) := by
  rcases inside with ⟨lower, upper⟩
  have low := BitVec.le_toInt offset
  have high := @BitVec.toInt_lt 64 offset
  have size := size_eq
  rw [BitVec.toInt_add, Int.bmod_eq_emod]
  split <;> omega

/-! ### One seek -/

theorem llseek_set_refused {fPos offset : Loff}
    (outside : offset.toInt < 0 ∨ SIZE < offset.toInt % 2 ^ 32) :
    tdlcdLlseek fPos offset 0 = (fPos, .error .EINVAL) := by
  unfold tdlcdLlseek
  rw [if_pos rfl]
  by_cases negative : offset.toInt < 0
  · rw [if_pos negative]
  · have low := low_bits (Int.not_lt.mp negative)
    rw [if_neg negative, if_pos (by omega)]

private theorem llseek_set_lands {fPos offset : Loff} (positive : 0 ≤ offset.toInt)
    (fits : offset.toInt % 2 ^ 32 ≤ SIZE) : ∃ landed : Loff,
    tdlcdLlseek fPos offset 0 = (landed, .ok landed) ∧ landed.toInt = offset.toInt % 2 ^ 32 := by
  have low := low_bits positive
  refine ⟨(offset.setWidth 32).setWidth 64, ?_, (widened_toInt _).trans low⟩
  unfold tdlcdLlseek
  rw [if_pos rfl, if_neg (by omega), if_neg (by omega)]

private theorem llseek_cur {fPos : Loff} (inside : InFile fPos) (offset : Loff) :
    SeeksExactly fPos ⟨offset, 1⟩ := by
  have sum := sum_toInt inside offset
  have evaluated : tdlcdLlseek fPos offset 1 =
      if (fPos + offset).toInt > SIZE then (fPos, .error .EINVAL)
      else if (fPos + offset).toInt < 0 then (fPos, .error .EINVAL)
      else (fPos + offset, .ok (fPos + offset)) := rfl
  have asked : target fPos ⟨offset, 1⟩ = some (fPos.toInt + offset.toInt) := rfl
  constructor
  · intro pos isTarget lower upper
    rw [asked, Option.some.injEq] at isTarget
    refine ⟨fPos + offset, ?_, by omega⟩
    rw [evaluated, if_neg (by omega), if_neg (by omega)]
  · intro outside
    have beyond := outside _ asked
    rw [evaluated]
    by_cases above : (fPos + offset).toInt > SIZE
    · rw [if_pos above]
    · rw [if_neg above, if_pos (by omega)]

private theorem llseek_other {fPos : Loff} {seek : Seek} (notSet : seek.orig ≠ 0)
    (notCur : seek.orig ≠ 1) : SeeksExactly fPos seek := by
  have asked : target fPos seek = none := by
    rw [target, if_neg notSet, if_neg notCur]
  constructor
  · intro pos isTarget
    rw [asked] at isTarget
    cases isTarget
  · intro _
    rw [tdlcdLlseek, if_neg notSet, if_neg notCur]

private theorem llseek_set_exact_iff (fPos offset : Loff) :
    SeeksExactly fPos ⟨offset, 0⟩ ↔ ¬ LosesHighBits ⟨offset, 0⟩ := by
  have asked : target fPos ⟨offset, 0⟩ = some offset.toInt := rfl
  have loses : LosesHighBits ⟨offset, 0⟩ ↔
      2 ^ 32 ≤ offset.toInt ∧ offset.toInt % 2 ^ 32 ≤ SIZE := by
    simp [LosesHighBits]
  rw [loses]
  have size := size_eq
  constructor
  · intro exactly both
    rcases both with ⟨large, fits⟩
    rcases @llseek_set_lands fPos offset (by omega) fits with ⟨landed, lands, _⟩
    have refused := exactly.2 (by
      intro pos isTarget
      rw [asked, Option.some.injEq] at isTarget
      omega)
    rw [lands] at refused
    cases refused
  · intro keeps
    have small : offset.toInt % 2 ^ 32 ≤ SIZE → offset.toInt < 2 ^ 32 := by
      intro fits
      by_contra large
      exact keeps ⟨by omega, fits⟩
    constructor
    · intro pos isTarget lower upper
      rw [asked, Option.some.injEq] at isTarget
      rcases @llseek_set_lands fPos offset (by omega) (by omega) with ⟨landed, lands, position⟩
      exact ⟨landed, lands, by omega⟩
    · intro outside
      have beyond : ¬ (0 ≤ offset.toInt ∧ offset.toInt ≤ SIZE) := outside _ asked
      have refused : tdlcdLlseek fPos offset 0 = (fPos, .error .EINVAL) :=
        llseek_set_refused (by omega)
      exact refused

private theorem llseek_exact_iff {fPos : Loff} (inside : InFile fPos) (seek : Seek) :
    SeeksExactly fPos seek ↔ ¬ LosesHighBits seek := by
  rcases seek with ⟨offset, orig⟩
  by_cases fromStart : orig = 0
  · subst fromStart
    exact llseek_set_exact_iff fPos offset
  · have keeps : ¬ LosesHighBits ⟨offset, orig⟩ := fun loses => fromStart loses.1
    by_cases relative : orig = 1
    · subst relative
      exact iff_of_true (llseek_cur inside offset) keeps
    · exact iff_of_true (llseek_other fromStart relative) keeps

/-! ### Sequences of seeks -/

def seekStep (fPos : Loff) (seek : Seek) : Option Loff :=
  some (tdlcdLlseek fPos seek.offset seek.orig).1

private theorem seekStep_inFile {fPos after : Loff} {seek : Seek} (inside : InFile fPos)
    (step : seekStep fPos seek = some after) : InFile after := by
  cases step
  unfold tdlcdLlseek
  by_cases fromStart : seek.orig = 0
  · rw [if_pos fromStart]
    by_cases negative : seek.offset.toInt < 0
    · rw [if_pos negative]
      exact inside
    · rw [if_neg negative]
      by_cases large : (seek.offset.setWidth 32).toNat > SIZE
      · rw [if_pos large]
        exact inside
      · rw [if_neg large]
        have position := widened_toInt (seek.offset.setWidth 32)
        constructor <;> simp only [position] <;> omega
  · rw [if_neg fromStart]
    by_cases relative : seek.orig = 1
    · rw [if_pos relative]
      by_cases above : (fPos + seek.offset).toInt > SIZE
      · rw [if_pos above]
        exact inside
      · rw [if_neg above]
        by_cases below : (fPos + seek.offset).toInt < 0
        · rw [if_pos below]
          exact inside
        · rw [if_neg below]
          exact ⟨Int.not_lt.mp below, Int.not_lt.mp above⟩
    · rw [if_neg relative]
      exact inside

private theorem seeks_inFile {start : Loff} (inside : InFile start) (seeks : List Seek) :
    ∃ final, runAll seekStep start seeks = some final ∧ InFile final := by
  apply runAll_progress (fun _ fPos => InFile fPos) (fun _ => True) (fun _ _ => trivial) inside
  intro done before seek insideBefore _
  exact ⟨_, rfl, seekStep_inFile insideBefore rfl⟩

/-- No sequence of seeks leaves the file, and each of them does what it promises if and
only if none asks for an offset from the start that only fits without its high bits. -/
theorem tdlcd_llseek_exact_iff {start : Loff} (inside : InFile start) (seeks : List Seek) :
    Throughout seekStep start seeks InFile ∧
      (EachStep seekStep start seeks SeeksExactly ↔ ∀ seek ∈ seeks, ¬ LosesHighBits seek) ∧
      ∀ fPos offset orig, Ch6.tdlcdLlseek fPos offset orig =
        ((tdlcdLlseek fPos offset orig).1, asCh6Outcome (tdlcdLlseek fPos offset orig).2) := by
  have reached : Throughout seekStep start seeks InFile := by
    intro done rest state _ run
    exact runAll_invariant run inside fun _ _ _ => seekStep_inFile
  refine ⟨reached, ?_, ch6_llseek_eq⟩
  constructor
  · intro each seek member
    rcases List.mem_iff_append.mp member with ⟨done, rest, split⟩
    rcases seeks_inFile inside done with ⟨before, run, insideBefore⟩
    exact (llseek_exact_iff insideBefore seek).mp (each done seek rest before split run)
  · intro keeps done seek rest before split run
    have member : seek ∈ seeks := by
      rw [split]
      exact List.mem_append_right _ List.mem_cons_self
    have insideBefore := reached done (seek :: rest) before split run
    exact (llseek_exact_iff insideBefore seek).mpr (keeps seek member)

theorem llseek_twice_exact : EachStep seekStep 0 [⟨4096, 0⟩, ⟨-4096, 1⟩] SeeksExactly := by
  have start : InFile 0 := by
    unfold InFile
    decide
  apply (tdlcd_llseek_exact_iff start [⟨4096, 0⟩, ⟨-4096, 1⟩]).2.1.mpr
  intro seek member loses
  rcases loses with ⟨fromStart, large, _⟩
  rcases List.mem_cons.mp member with rfl | later
  · revert large
    decide
  · rw [List.mem_singleton.mp later] at fromStart
    revert fromStart
    decide

/-- Byte 8 of the file stands in for byte `2^32 + 8`. -/
theorem llseek_beyond_4GiB_not_exact : InFile 0 ∧ ¬ SeeksExactly 0 ⟨0x100000008, 0⟩ ∧
    tdlcdLlseek 0 0x100000008 0 = (8, .ok 8) := by
  have lands : tdlcdLlseek 0 0x100000008 0 = (8, .ok 8) := by decide
  refine ⟨?_, ?_, lands⟩
  · unfold InFile
    decide
  · intro exactly
    have refused := exactly.2 (by
      intro pos isTarget
      have asked : pos = 2 ^ 32 + 8 := (Option.some.inj isTarget).symm
      have size := size_eq
      omega)
    rw [lands] at refused
    cases refused

end OsCompiler.Tdlcd
