/-
Stamps of a wide counter, kept with their low bits only.

A stamp is cut to a narrow word and read back with zeros above it. What a later reading
exceeds it by is then wrong by a multiple of the narrow word, whatever positions the two
counters were in. A multiple of that difference, cut to the narrow word again, no longer
shows the error: it is exact as long as it fits.
-/

import Mathlib.Data.Int.ModEq

namespace OsCompiler.TruncatedStamp

variable {wide narrow factor : Nat}

/-- A stamp as it is read back from the narrow word. -/
def kept (narrow : Nat) (stamp : BitVec wide) : BitVec wide :=
  (stamp.setWidth narrow).setWidth wide

/-- What the narrow word shows of a multiple of the time since the stamp. -/
def passed (narrow factor : Nat) (now last : BitVec wide) : Nat :=
  factor * (now - kept narrow last).toNat % 2 ^ narrow

theorem toNat_kept (fits : narrow ≤ wide) (stamp : BitVec wide) :
    (kept narrow stamp).toNat = stamp.toNat % 2 ^ narrow := by
  rw [kept, BitVec.toNat_setWidth_of_le fits, BitVec.toNat_setWidth]

theorem sub_modEq (left right : BitVec wide) :
    ((left - right).toNat : Int) ≡ left.toNat - right.toNat [ZMOD (2 ^ wide : Nat)] := by
  have bound := right.isLt
  have shifted : ((2 ^ wide - right.toNat + left.toNat : Nat) : Int) =
      left.toNat - right.toNat + (2 ^ wide : Nat) := by
    omega
  rw [BitVec.toNat_sub, Int.natCast_mod, shifted]
  exact (Int.mod_modEq _ _).trans Int.add_modEq_right

/-- The low bits of the difference are right, the others need not be. -/
theorem sub_kept_modEq (fits : narrow ≤ wide) (now last : BitVec wide) :
    ((now - kept narrow last).toNat : Int) ≡ now.toNat - last.toNat [ZMOD (2 ^ narrow : Nat)] := by
  have divides : ((2 ^ narrow : Nat) : Int) ∣ (2 ^ wide : Nat) :=
    Int.natCast_dvd_natCast.mpr (Nat.pow_dvd_pow 2 fits)
  have low : ((kept narrow last).toNat : Int) ≡ last.toNat [ZMOD (2 ^ narrow : Nat)] := by
    rw [toNat_kept fits, Int.natCast_mod]
    exact Int.mod_modEq _ _
  exact ((sub_modEq now (kept narrow last)).of_dvd divides).trans ((Int.ModEq.refl _).sub low)

theorem passed_eq (fits : narrow ≤ wide) (now last : BitVec wide) :
    (passed narrow factor now last : Int) =
      factor * ((now.toNat : Int) - last.toNat) % (2 ^ narrow : Nat) := by
  rw [passed, Int.natCast_mod, Int.natCast_mul]
  exact (sub_kept_modEq fits now last).mul_left factor

/-! ### In order, and out of order -/

theorem passed_of_le (fits : narrow ≤ wide) {now last : BitVec wide} (ordered : last ≤ now) :
    passed narrow factor now last = factor * (now.toNat - last.toNat) % 2 ^ narrow := by
  have integers : (passed narrow factor now last : Int) =
      (factor * (now.toNat - last.toNat) % 2 ^ narrow : Nat) := by
    rw [passed_eq fits, Int.natCast_mod, Int.natCast_mul, Int.natCast_sub ordered]
  exact Int.ofNat_inj.mp integers

/-- What has passed since the stamp is exact just as long as it fits. -/
theorem passed_exact_iff (fits : narrow ≤ wide) {now last : BitVec wide} (ordered : last ≤ now) :
    passed narrow factor now last = factor * (now.toNat - last.toNat) ↔
      factor * (now.toNat - last.toNat) < 2 ^ narrow := by
  rw [passed_of_le fits ordered]
  constructor
  · intro same
    rw [← same]
    exact Nat.mod_lt _ (Nat.two_pow_pos narrow)
  · exact Nat.mod_eq_of_lt

/-- A stamp from just behind the reading shows as almost all that the word can hold. -/
theorem passed_of_gt (fits : narrow ≤ wide) {now last : BitVec wide}
    (positive : 0 < factor * (last.toNat - now.toNat))
    (short : factor * (last.toNat - now.toNat) ≤ 2 ^ narrow) :
    passed narrow factor now last = 2 ^ narrow - factor * (last.toNat - now.toNat) := by
  have later : now.toNat ≤ last.toNat := by
    by_contra earlier
    rw [Nat.sub_eq_zero_of_le (by omega), Nat.mul_zero] at positive
    exact Nat.lt_irrefl 0 positive
  have behind : (factor : Int) * ((now.toNat : Int) - last.toNat) =
      (2 ^ narrow - factor * (last.toNat - now.toNat) : Nat) + (2 ^ narrow : Nat) * (-1) := by
    rw [Int.natCast_sub short, Int.natCast_mul, Int.natCast_sub later, Int.mul_sub, Int.mul_sub]
    omega
  have wrapped : (passed narrow factor now last : Int) =
      (2 ^ narrow - factor * (last.toNat - now.toNat) : Nat) := by
    rw [passed_eq fits, behind, Int.add_mul_emod_self_left]
    exact Int.emod_eq_of_lt (Int.natCast_nonneg _) (by omega)
  exact Int.ofNat_inj.mp wrapped

end OsCompiler.TruncatedStamp
