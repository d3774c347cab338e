/-
Parallel counting inside one number.

A number is cut into lanes of equal width. One masked shift-and-add stage adds the
two halves of every lane at once; no carry leaves a lane, so the sum of all lanes
stays the same while their number is halved. With lanes of one bit the sum is the
number of set bits.
-/

import Mathlib.Data.Nat.Bitwise
import Mathlib.Data.Nat.Count
import Mathlib.Tactic.Ring

namespace OsCompiler.LaneSum

/-- The mask of the lower half of each of the lowest `lanes` lanes. -/
def lowHalves (half : Nat) : (lanes : Nat) → Nat
  | 0 => 0
  | lanes + 1 => (2 ^ half - 1) + 2 ^ (2 * half) * lowHalves half lanes

def mergeLanes (half lanes value : Nat) : Nat :=
  (value &&& lowHalves half lanes) + ((value >>> half) &&& lowHalves half lanes)

def laneSum (width : Nat) : (lanes value : Nat) → Nat
  | 0, _ => 0
  | lanes + 1, value => value % 2 ^ width + laneSum width lanes (value / 2 ^ width)

/-! ### A mask acts on every lane by itself -/

theorem and_lane (width value low high : Nat) (small : low < 2 ^ width) :
    value &&& (low + 2 ^ width * high) =
      (value % 2 ^ width &&& low) + 2 ^ width * (value / 2 ^ width &&& high) := by
  have lower : (value &&& (low + 2 ^ width * high)) % 2 ^ width = value % 2 ^ width &&& low := by
    rw [Nat.and_mod_two_pow, Nat.add_mul_mod_self_left, Nat.mod_eq_of_lt small]
  have upper : (value &&& (low + 2 ^ width * high)) / 2 ^ width = value / 2 ^ width &&& high := by
    rw [Nat.and_div_two_pow, Nat.add_mul_div_left _ _ (Nat.two_pow_pos width),
      Nat.div_eq_of_lt small, Nat.zero_add]
  rw [← Nat.mod_add_div (value &&& (low + 2 ^ width * high)) (2 ^ width), lower, upper]

theorem and_lowHalves_succ (half lanes value : Nat) :
    value &&& lowHalves half (lanes + 1) =
      value % 2 ^ half + 2 ^ (2 * half) * (value / 2 ^ (2 * half) &&& lowHalves half lanes) := by
  have positive := Nat.two_pow_pos half
  have below : 2 ^ half - 1 < 2 ^ (2 * half) := by
    have wider : 2 ^ half ≤ 2 ^ (2 * half) := Nat.pow_le_pow_right (by decide) (by omega)
    omega
  rw [lowHalves, and_lane _ _ _ _ below, Nat.and_two_pow_sub_one_eq_mod,
    Nat.mod_mod_of_dvd _ (Nat.pow_dvd_pow 2 (by omega))]

theorem mergeLanes_succ (half lanes value : Nat) :
    mergeLanes half (lanes + 1) value =
      (value % 2 ^ half + value / 2 ^ half % 2 ^ half) +
        2 ^ (2 * half) * mergeLanes half lanes (value / 2 ^ (2 * half)) := by
  have shifted : value / 2 ^ half / 2 ^ (2 * half) = value / 2 ^ (2 * half) / 2 ^ half := by
    rw [Nat.div_div_eq_div_mul, Nat.div_div_eq_div_mul, Nat.mul_comm]
  unfold mergeLanes
  rw [and_lowHalves_succ, and_lowHalves_succ, Nat.shiftRight_eq_div_pow,
    Nat.shiftRight_eq_div_pow, shifted]
  ring

/-! ### No carry, and the sum stays -/

theorem halves_lt {half : Nat} (positive : 0 < half) (value : Nat) :
    value % 2 ^ half + value / 2 ^ half % 2 ^ half < 2 ^ (2 * half) := by
  have power := Nat.two_pow_pos half
  have first := Nat.mod_lt value power
  have second := Nat.mod_lt (value / 2 ^ half) power
  have doubled : 2 * 2 ^ half ≤ 2 ^ (2 * half) := by
    calc 2 * 2 ^ half = 2 ^ (half + 1) := by rw [Nat.pow_succ, Nat.mul_comm]
      _ ≤ 2 ^ (2 * half) := Nat.pow_le_pow_right (by decide) (by omega)
  omega

theorem mergeLanes_lt {half : Nat} (positive : 0 < half) (lanes value : Nat) :
    mergeLanes half lanes value < 2 ^ (2 * half * lanes) := by
  induction lanes generalizing value with
  | zero => simp [mergeLanes, lowHalves]
  | succ lanes ih =>
      have lane := halves_lt positive value
      have rest := ih (value / 2 ^ (2 * half))
      rw [mergeLanes_succ]
      calc _ < 2 ^ (2 * half) + 2 ^ (2 * half) * mergeLanes half lanes (value / 2 ^ (2 * half)) :=
            Nat.add_lt_add_right lane _
        _ = 2 ^ (2 * half) * (mergeLanes half lanes (value / 2 ^ (2 * half)) + 1) := by ring
        _ ≤ 2 ^ (2 * half) * 2 ^ (2 * half * lanes) := Nat.mul_le_mul_left _ rest
        _ = 2 ^ (2 * half * (lanes + 1)) := by rw [← Nat.pow_add, Nat.mul_succ, Nat.add_comm]

/-- A stage halves the number of lanes and keeps their sum. -/
theorem laneSum_mergeLanes {half : Nat} (positive : 0 < half) (lanes value : Nat) :
    laneSum (2 * half) lanes (mergeLanes half lanes value) = laneSum half (2 * lanes) value := by
  induction lanes generalizing value with
  | zero => rfl
  | succ lanes ih =>
      have lane := halves_lt positive value
      have twice : value / 2 ^ half / 2 ^ half = value / 2 ^ (2 * half) := by
        rw [Nat.div_div_eq_div_mul, ← Nat.pow_add, Nat.two_mul]
      have pairs : 2 * (lanes + 1) = 2 * lanes + 1 + 1 := by ring
      rw [pairs, laneSum, laneSum, laneSum, mergeLanes_succ, Nat.add_mul_mod_self_left,
        Nat.mod_eq_of_lt lane, Nat.add_mul_div_left _ _ (Nat.two_pow_pos _), Nat.div_eq_of_lt lane,
        Nat.zero_add, ih, twice, Nat.add_assoc]

theorem laneSum_one {width value : Nat} (small : value < 2 ^ width) :
    laneSum width 1 value = value := by
  rw [laneSum, laneSum, Nat.mod_eq_of_lt small, Nat.add_zero]

theorem laneSum_bits (lanes value : Nat) :
    laneSum 1 lanes value = Nat.count (fun bit => value.testBit bit = true) lanes := by
  induction lanes generalizing value with
  | zero => rfl
  | succ lanes ih =>
      have lowest : value % 2 = if value.testBit 0 = true then 1 else 0 := by
        rw [Nat.testBit_zero]
        rcases Nat.mod_two_eq_zero_or_one value with even | odd
        · simp [even]
        · simp [odd]
      rw [laneSum, Nat.pow_one, ih, Nat.count_succ', lowest, Nat.add_comm]
      simp only [Nat.testBit_succ]

/-! ### The stage on machine words -/

/-- On a word whose lanes fill it exactly the addition of a stage does not wrap. -/
theorem toNat_mergeLanes {width half lanes : Nat} (positive : 0 < half)
    (filled : 2 * half * lanes = width) (word mask : BitVec width)
    (halves : mask.toNat = lowHalves half lanes) :
    ((word &&& mask) + ((word >>> half) &&& mask)).toNat = mergeLanes half lanes word.toNat := by
  have small := mergeLanes_lt positive lanes word.toNat
  rw [filled] at small
  rw [BitVec.toNat_add, BitVec.toNat_and, BitVec.toNat_and, BitVec.toNat_ushiftRight, halves]
  exact Nat.mod_eq_of_lt small

theorem laneSum_stage {width : Nat} (half lanes : Nat) (positive : 0 < half)
    (filled : 2 * half * lanes = width) (word mask : BitVec width)
    (halves : mask.toNat = lowHalves half lanes) :
    laneSum (2 * half) lanes ((word &&& mask) + ((word >>> half) &&& mask)).toNat =
      laneSum half (2 * lanes) word.toNat := by
  rw [toNat_mergeLanes positive filled word mask halves, laneSum_mergeLanes positive]

end OsCompiler.LaneSum
