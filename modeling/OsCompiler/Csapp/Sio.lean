/-
The signal-safe output of `csapp.c`: a `long` is turned into text in a buffer on the
stack, least significant digit first, and the text is then reversed in place.

`v % b` has the sign of `v` and the loop goes on while `v` is positive, so a negative
number leaves the loop after one digit, and that digit is not above `'0'`.
-/

import Mathlib.Data.List.Induction
import OsCompiler.Lib.Window

namespace OsCompiler.Sio

/-- A base in which the loop of `sio_ltoa` comes to an end. -/
structure Base where
  value : Nat
  two_le : 2 ≤ value

def decimal : Base := ⟨10, by decide⟩

theorem tdiv_natCast (n b : Nat) : (n : Int).tdiv b = (n / b : Nat) := rfl

private theorem tdiv_nonpos {v : Int} (negative : v ≤ 0) (b : Nat) : v.tdiv b ≤ 0 := by
  obtain ⟨n, rfl⟩ := Int.exists_eq_neg_ofNat negative
  rw [Int.neg_tdiv, tdiv_natCast]
  exact Int.neg_nonpos_of_nonneg (Int.natCast_nonneg _)

theorem tdiv_lt (b : Base) {v : Int} (more : 0 < v.tdiv b.value) :
    (v.tdiv b.value).toNat < v.toNat := by
  have positive : 0 < v := by
    by_contra negative
    have quotient := tdiv_nonpos (Int.le_of_not_gt negative) b.value
    omega
  obtain ⟨n, rfl⟩ := Int.eq_ofNat_of_zero_le (Int.le_of_lt positive)
  rw [tdiv_natCast, Int.toNat_natCast, Int.toNat_natCast]
  exact Nat.div_lt_self (by omega) b.two_le

def digit (c : Int) : UInt8 := UInt8.ofInt (if c < 10 then c + 48 else c - 10 + 97)

def ltoaLoop (window : Window) (b : Base) (s : List UInt8) (i : Nat) (v : Int) :
    Option (List UInt8 × Nat) := do
  let s ← window.store s i (digit (v.tmod b.value))
  if more : 0 < v.tdiv b.value then ltoaLoop window b s (i + 1) (v.tdiv b.value)
  else return (s, i + 1)
termination_by v.toNat
decreasing_by exact tdiv_lt b more

theorem lt_of_load {window : Window} {s : List UInt8} {i : Int} {c : UInt8}
    (loaded : window.load s i = some c) : i < window.last + 1 := by
  rw [Window.load] at loaded
  split at loaded
  · next inside => exact Int.lt_add_one_of_le inside.1.2
  · cases loaded

def strlenLoop (window : Window) (s : List UInt8) (i : Int) : Option Int :=
  match loaded : window.load s i with
  | none => none
  | some c => if c = 0 then some i else strlenLoop window s (i + 1)
termination_by (window.last + 1 - i).toNat
decreasing_by
  have below := lt_of_load loaded
  omega

def sioStrlen (window : Window) (s : List UInt8) : Option Int := strlenLoop window s 0

/-- `for (...; i < j; i++, j--) { c = s[i]; s[i] = s[j]; s[j] = c; }` -/
def reverseLoop (window : Window) (s : List UInt8) (i j : Int) : Option (List UInt8) :=
  if i < j then do
    let c ← window.load s i
    let s ← window.store s i (← window.load s j)
    let s ← window.store s j c
    reverseLoop window s (i + 1) (j - 1)
  else some s
termination_by (j - i).toNat

/-- The library's `strlen` counts like `sio_strlen`. -/
def sioReverse (window : Window) (s : List UInt8) : Option (List UInt8) := do
  reverseLoop window s 0 ((← sioStrlen window s) - 1)

def sioLtoa (window : Window) (v : Int) (s : List UInt8) (b : Base) : Option (List UInt8) := do
  let (s, i) ← ltoaLoop window b s 0 v
  sioReverse window (← window.store s i 0)

def sioPuts (window : Window) (s : List UInt8) : Option (List UInt8) := do
  return s.take (← sioStrlen window s).toNat

/-- `sio_putl` with what the stack holds where `char s[128]` comes to lie. -/
def sioPutl (stack : Vector UInt8 128) (v : Int64) : Option (List UInt8) := do
  let window : Window := ⟨0, 127⟩
  sioPuts window (← sioLtoa window v.toInt stack.toList decimal)

/-! ### The digits -/

def numeral (b n : Nat) : List UInt8 := (Nat.toDigits b n).map Char.toUInt8

theorem numeral_eq (b : Base) (n : Nat) : numeral b.value n =
    if n < b.value then [(Nat.digitChar n).toUInt8]
    else numeral b.value (n / b.value) ++ [(Nat.digitChar (n % b.value)).toUInt8] := by
  rw [numeral, Nat.toDigits_eq_if b.two_le]
  split
  · rfl
  · rw [List.map_append, numeral]
    rfl

private theorem digit_natCast {c : Nat} (small : c < 16) : digit c = (Nat.digitChar c).toUInt8 := by
  have every : ∀ c : Fin 16, digit (c : Nat) = (Nat.digitChar c).toUInt8 := by decide
  exact every ⟨c, small⟩

private theorem digitChar_ne_nul {c : Nat} (small : c < 16) : (Nat.digitChar c).toUInt8 ≠ 0 := by
  have every : ∀ c : Fin 16, (Nat.digitChar c).toUInt8 ≠ 0 := by decide
  exact every ⟨c, small⟩

private theorem nul_not_mem_numeral (b : Base) (hex : b.value ≤ 16) (n : Nat) :
    0 ∉ numeral b.value n := by
  induction n using Nat.strongRecOn with
  | ind n ih =>
      rw [numeral_eq]
      split
      · next small => simpa using (digitChar_ne_nul (by omega)).symm
      · next large =>
          have two := b.two_le
          have smaller : n / b.value < n := Nat.div_lt_self (by omega) two
          have last := digitChar_ne_nul (c := n % b.value)
            (Nat.lt_of_lt_of_le (Nat.mod_lt n (by omega)) hex)
          rw [List.mem_append, List.mem_singleton]
          exact not_or.mpr ⟨ih _ smaller, last.symm⟩

/-! ### The loops -/

variable {window : Window}

def Holds (window : Window) (size : Nat) : Prop := ∀ k : Nat, k < size → window.Contains k

theorem Holds.mono {size smaller : Nat} (holds : Holds window size) (le : smaller ≤ size) :
    Holds window smaller :=
  fun k below => holds k (Nat.lt_of_lt_of_le below le)

private theorem ltoaLoop_last {b : Base} {s stored : List UInt8} {i : Nat} {v : Int}
    (store : window.store s i (digit (v.tmod b.value)) = some stored)
    (last : ¬ 0 < v.tdiv b.value) : ltoaLoop window b s i v = some (stored, i + 1) := by
  rw [ltoaLoop, store]
  simp [last]

private theorem ltoaLoop_more {b : Base} {s stored : List UInt8} {i : Nat} {v : Int}
    (store : window.store s i (digit (v.tmod b.value)) = some stored)
    (more : 0 < v.tdiv b.value) :
    ltoaLoop window b s i v = ltoaLoop window b stored (i + 1) (v.tdiv b.value) := by
  rw [ltoaLoop, store]
  simp [more]

/-- The digits arrive with the least significant one first. -/
theorem ltoaLoop_spec (b : Base) (hex : b.value ≤ 16) (n : Nat) (front room : List UInt8)
    (fits : (numeral b.value n).length ≤ room.length)
    (holds : Holds window (front.length + room.length)) :
    ∃ rest, (numeral b.value n).length + rest.length = room.length ∧
      ltoaLoop window b (front ++ room) front.length n =
        some (front ++ ((numeral b.value n).reverse ++ rest),
          front.length + (numeral b.value n).length) := by
  have two := b.two_le
  induction n using Nat.strongRecOn generalizing front room with
  | ind n ih =>
      rcases room with _ | ⟨old, rest⟩
      · rw [numeral_eq] at fits
        split at fits <;> simp at fits
      have last : digit ((n : Int).tmod b.value) = (Nat.digitChar (n % b.value)).toUInt8 :=
        digit_natCast (Nat.lt_of_lt_of_le (Nat.mod_lt n (by omega)) hex)
      have store := Window.store_mid (holds front.length (by simp)) front rest rfl old
        (digit ((n : Int).tmod b.value))
      by_cases small : n < b.value
      · have stop : ¬ 0 < (n : Int).tdiv b.value := by
          rw [tdiv_natCast, Nat.div_eq_of_lt small]
          omega
        refine ⟨rest, by simp [numeral_eq, small, Nat.add_comm], ?_⟩
        rw [ltoaLoop_last store stop, last, numeral_eq, if_pos small, Nat.mod_eq_of_lt small]
        rfl
      · have smaller : n / b.value < n := Nat.div_lt_self (by omega) two
        have more : 0 < (n : Int).tdiv b.value := by
          have quotient := Nat.div_pos (Nat.le_of_not_lt small) (by omega)
          rw [tdiv_natCast]
          omega
        rw [numeral_eq, if_neg small, List.length_append, List.length_singleton] at fits ⊢
        rw [List.length_cons] at fits holds
        rcases ih (n / b.value) smaller (front ++ [digit ((n : Int).tmod b.value)]) rest
          (by omega) (holds.mono (by simp; omega)) with ⟨behind, size, run⟩
        refine ⟨behind, by rw [List.length_cons]; omega, ?_⟩
        rw [List.append_assoc, List.length_append] at run
        rw [ltoaLoop_more store more, tdiv_natCast]
        refine run.trans ?_
        rw [List.reverse_append, last]
        simp [Nat.add_assoc, Nat.add_comm 1]

private theorem strlenLoop_spec {text : List UInt8} (front back : List UInt8) (noNul : 0 ∉ text)
    (holds : Holds window (front.length + text.length + 1)) :
    strlenLoop window (front ++ (text ++ 0 :: back)) front.length =
      some (front.length + text.length : Nat) := by
  induction text generalizing front with
  | nil =>
      have loaded : window.load (front ++ ([] ++ 0 :: back)) front.length = some 0 :=
        Window.load_mid (holds _ (by simp)) front back rfl 0
      rw [strlenLoop, loaded]
      simp
  | cons c text ih =>
      rw [List.mem_cons, not_or] at noNul
      have loaded : window.load (front ++ (c :: text ++ 0 :: back)) front.length = some c :=
        Window.load_mid (holds _ (by omega)) front (text ++ 0 :: back) rfl c
      have rest := ih (front ++ [c]) noNul.2 (holds.mono (by simp; omega))
      rw [strlenLoop, loaded]
      simp only [Ne.symm noNul.1, if_false]
      simpa [Nat.add_assoc, Nat.add_comm 1] using rest

private theorem reverseLoop_met {s : List UInt8} {i j : Int} (met : ¬ i < j) :
    reverseLoop window s i j = some s := by
  rw [reverseLoop, if_neg met]

/-- The two outermost characters change places. -/
theorem reverseLoop_step (front back text : List UInt8) (a b : UInt8) {high : Int}
    (here : high = front.length + text.length + 1) (low : window.Contains front.length)
    (inside : window.Contains high) :
    reverseLoop window (front ++ a :: (text ++ b :: back)) front.length high =
      reverseLoop window (front ++ b :: (text ++ a :: back)) (front.length + 1) (high - 1) := by
  rw [reverseLoop, if_pos (by omega), Window.load_mid low front _ rfl,
    Window.load_high inside here]
  simp only [Option.bind_eq_bind, Option.bind_some]
  rw [Window.store_mid low front _ rfl, Option.bind_some,
    Window.store_high inside here, Option.bind_some]

private theorem reverseLoop_spec (front back text : List UInt8)
    (holds : Holds window (front.length + text.length)) :
    reverseLoop window (front ++ (text ++ back)) front.length
      (front.length + text.length - 1) = some (front ++ (text.reverse ++ back)) := by
  induction text using List.bidirectionalRec generalizing front back with
  | nil => exact reverseLoop_met (by rw [List.length_nil]; omega)
  | singleton c => exact reverseLoop_met (by rw [List.length_singleton]; omega)
  | cons_append a text b ih =>
      have size : (a :: (text ++ [b])).length = text.length + 2 := by simp
      rw [size] at holds ⊢
      have high : ((front.length : Int) + (text.length + 2 : Nat) - 1) =
          (front.length + text.length + 1 : Nat) := by omega
      have cells : front ++ (a :: (text ++ [b]) ++ back) =
          front ++ a :: (text ++ b :: back) := by simp
      have inner := ih (front ++ [b]) (a :: back) (holds.mono (by simp; omega))
      rw [high, cells, reverseLoop_step front back text a b (by omega)
        (holds front.length (by omega)) (holds _ (by omega))]
      rw [List.length_append, List.length_singleton] at inner
      simpa [Int.add_right_comm] using inner

private theorem sioReverse_spec (text back : List UInt8) (noNul : 0 ∉ text)
    (holds : Holds window (text.length + 1)) :
    sioReverse window (text ++ 0 :: back) = some (text.reverse ++ 0 :: back) := by
  have counted := strlenLoop_spec [] back noNul (by simpa using holds)
  have turned := reverseLoop_spec [] (0 :: back) text (holds.mono (by simp))
  simp at counted turned
  simp [sioReverse, sioStrlen, counted, turned]

private theorem sioPuts_spec (text back : List UInt8) (noNul : 0 ∉ text)
    (holds : Holds window (text.length + 1)) :
    sioPuts window (text ++ 0 :: back) = some text := by
  have counted := strlenLoop_spec [] back noNul (by simpa using holds)
  simp at counted
  simp [sioPuts, sioStrlen, counted]

/-! ### Output of a `long` -/

/-- What comes out of the loop is reversed and ends with a 0. -/
theorem sioLtoa_of_loop {b : Base} {v : Int} {s digits rest : List UInt8} (noNul : 0 ∉ digits)
    (holds : Holds window (digits.length + 1)) (room : rest ≠ [])
    (run : ltoaLoop window b s 0 v = some (digits ++ rest, digits.length)) :
    ∃ behind, sioLtoa window v s b = some (digits.reverse ++ 0 :: behind) := by
  rcases rest with _ | ⟨old, behind⟩
  · exact absurd rfl room
  refine ⟨behind, ?_⟩
  have store := Window.store_mid (holds digits.length (by omega)) digits behind rfl old 0
  simp [sioLtoa, run, store, sioReverse_spec digits behind noNul holds]

private theorem sioLtoa_natCast (b : Base) (hex : b.value ≤ 16) (n : Nat) (s : List UInt8)
    (fits : (numeral b.value n).length < s.length) (holds : Holds window s.length) :
    ∃ behind, sioLtoa window n s b = some (numeral b.value n ++ 0 :: behind) := by
  rcases ltoaLoop_spec b hex n [] s (Nat.le_of_lt fits) (holds.mono (by simp)) with
    ⟨rest, size, run⟩
  have room : rest ≠ [] := by
    rintro rfl
    rw [List.length_nil] at size
    omega
  have loop : ltoaLoop window b s 0 n =
      some ((numeral b.value n).reverse ++ rest, (numeral b.value n).reverse.length) := by
    simpa using run
  have noNul := nul_not_mem_numeral b hex n
  rcases sioLtoa_of_loop (by simpa using noNul) (holds.mono (by simp; omega)) room loop with
    ⟨behind, done⟩
  exact ⟨behind, by rwa [List.reverse_reverse] at done⟩

/-- The loop is left after one digit. -/
theorem sioLtoa_negative (b : Base) {v : Int} (negative : v ≤ 0) {s : List UInt8}
    (noNul : digit (v.tmod b.value) ≠ 0) (fits : 2 ≤ s.length)
    (holds : Holds window s.length) :
    ∃ behind, sioLtoa window v s b = some ([digit (v.tmod b.value)] ++ 0 :: behind) := by
  rcases s with _ | ⟨old, _ | ⟨next, rest⟩⟩
  · simp at fits
  · simp at fits
  have store := Window.store_mid (holds 0 (by simp)) [] (next :: rest) rfl old
    (digit (v.tmod b.value))
  have stop := Int.not_lt.mpr (tdiv_nonpos negative b.value)
  have loop : ltoaLoop window b (old :: next :: rest) 0 v =
      some ([digit (v.tmod b.value)] ++ next :: rest, [digit (v.tmod b.value)].length) :=
    ltoaLoop_last store stop
  exact sioLtoa_of_loop (by simpa using noNul.symm) (holds.mono (by simp))
    (List.cons_ne_nil next rest) loop

def longText (v : Int) : List UInt8 := (toString v).toList.map Char.toUInt8

private theorem longText_natCast (n : Nat) : longText n = numeral decimal.value n := by
  have same : (toString (n : Int)).toList = n.repr.toList := rfl
  rw [longText, same, Nat.toList_repr]
  rfl

private theorem one_lt_longText_length {v : Int} (negative : v < 0) : 1 < (longText v).length := by
  rcases v with n | n
  · exact absurd negative (Int.not_lt.mpr (Int.natCast_nonneg n))
  · have same : (toString (Int.negSucc n)).toList = '-' :: (n + 1).repr.toList := by
      simp [Int.repr]
    have digits := Nat.length_repr_pos (n := n + 1)
    rw [longText, same, List.length_map, List.length_cons, String.length_toList]
    omega

private theorem numeral_length_lt (v : Int64) {n : Nat} (value : v.toInt = n) :
    (numeral decimal.value n).length < 128 := by
  have bound := v.toInt_lt
  have size : (Nat.toDigits 10 n).length ≤ 19 :=
    (Nat.length_toDigits_le_iff (by decide) (by decide)).mpr (by omega)
  rw [numeral, List.length_map]
  exact Nat.lt_of_le_of_lt size (by decide)

private theorem holds_stack : Holds ⟨0, 127⟩ 128 := by
  intro k below
  have last : (k : Int) ≤ 127 := by omega
  exact ⟨Int.natCast_nonneg k, last⟩

private theorem digit_negative (n : Nat) :
    digit (-((n % 10 : Nat) : Int)) = UInt8.ofNat (48 - n % 10) ∧
      UInt8.ofNat (48 - n % 10) ≠ 0 := by
  have every : ∀ c : Fin 10, digit (-((c : Nat) : Int)) = UInt8.ofNat (48 - c) ∧
      UInt8.ofNat (48 - c) ≠ 0 := by decide
  exact every ⟨n % 10, Nat.mod_lt n (by decide)⟩

private theorem sioPutl_of_sioLtoa {stack : Vector UInt8 128} {v : Int64}
    {bytes behind : List UInt8}
    (noNul : 0 ∉ bytes) (short : bytes.length < 128)
    (written : sioLtoa ⟨0, 127⟩ v.toInt stack.toList decimal = some (bytes ++ 0 :: behind)) :
    sioPutl stack v = some bytes := by
  rw [sioPutl, written]
  exact sioPuts_spec bytes behind noNul (holds_stack.mono short)

/-- `sio_putl` stays in its buffer for every `long`. What it writes is the number if and only
if the number is not negative; of a negative one it writes one byte. -/
theorem sio_putl_prints_iff (stack : Vector UInt8 128) (v : Int64) :
    ∃ bytes, sioPutl stack v = some bytes ∧ (bytes = longText v.toInt ↔ 0 ≤ v.toInt) ∧
      (v.toInt < 0 → bytes = [UInt8.ofNat (48 - v.toInt.natAbs % 10)]) := by
  have holds : Holds ⟨0, 127⟩ stack.toList.length := holds_stack.mono (by simp)
  rcases Int.lt_or_le v.toInt 0 with negative | positive
  · obtain ⟨n, value⟩ := Int.exists_eq_neg_ofNat (Int.le_of_lt negative)
    rcases digit_negative n with ⟨last, noNul⟩
    have remainder : digit (v.toInt.tmod decimal.value) = UInt8.ofNat (48 - n % 10) := by
      rw [value, Int.neg_tmod]
      exact last
    rcases sioLtoa_negative decimal (Int.le_of_lt negative) (remainder ▸ noNul) (by simp)
      holds with ⟨behind, written⟩
    rw [remainder] at written
    refine ⟨_, sioPutl_of_sioLtoa (by simpa using noNul.symm) (by simp) written, ?_, ?_⟩
    · refine iff_of_false ?_ (Int.not_le.mpr negative)
      intro same
      have size := one_lt_longText_length negative
      rw [← same] at size
      exact absurd size (by simp)
    · intro _
      rw [value, Int.natAbs_neg, Int.natAbs_natCast]
  · obtain ⟨n, value⟩ := Int.eq_ofNat_of_zero_le positive
    have short := numeral_length_lt v value
    rcases sioLtoa_natCast decimal (by decide) n stack.toList (by simpa using short) holds with
      ⟨behind, written⟩
    rw [← value] at written
    refine ⟨_, sioPutl_of_sioLtoa (nul_not_mem_numeral decimal (by decide) n) short written,
      ?_, ?_⟩
    · exact iff_of_true (by rw [value, longText_natCast]) positive
    · intro negative
      exact absurd negative (Int.not_lt.mpr positive)

end OsCompiler.Sio
