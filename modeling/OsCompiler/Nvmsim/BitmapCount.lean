/-
The counting functions over a bitmap: `bitCount` of one word, `total_bitmap` of the
whole table and `pageCount` of the words in which some position is set.

The counters are 32-bit words here, as in the source, so that an addition could wrap;
none does. A count is stated over the positions that `BOOL` reads.
-/

import OsCompiler.Lib.LaneSum
import OsCompiler.Nvmsim.Tables

namespace OsCompiler.Nvmsim

open OsCompiler.LaneSum

/-- The stages add pairs, nibbles, bytes and half words side by side in one word. -/
def bitCount (x : Word) : Word :=
  let v := x
  let c := (v &&& 0x55555555#32) + ((v >>> 1) &&& 0x55555555#32)
  let c := (c &&& 0x33333333#32) + ((c >>> 2) &&& 0x33333333#32)
  let c := (c &&& 0x0F0F0F0F#32) + ((c >>> 4) &&& 0x0F0F0F0F#32)
  let c := (c &&& 0x00FF00FF#32) + ((c >>> 8) &&& 0x00FF00FF#32)
  let c := (c &&& 0x0000FFFF#32) + ((c >>> 16) &&& 0x0000FFFF#32)
  c

section Loops

variable {words : Nat}

def countUsedWord (bitMap : Region Word words) (i : Nat) (total : Word) : Option Word := do
  let word ← bitMap.read i
  if word ≠ 0#32 then pure (total + 1#32) else pure total

def pageCount (bitMap : Option (Region Word words)) (len : Word) : Option Word :=
  match bitMap with
  | none => some 0#32
  | some bitMap => forRange 0 len.toNat (countUsedWord bitMap) 0#32

def addBitCount (bitMap : Region Word words) (i : Nat) (total : Word) : Option Word := do
  let word ← bitMap.read i
  pure (total + bitCount word)

def totalBitmap (bitMap : Region Word words) : Option Word :=
  let size := bitTableSize / bitWidthInBits + 1
  forRange 0 size (addBitCount bitMap) 0#32

def WordUsed (bitMap : Region Word words) (w : Nat) : Prop :=
  ∃ i, intOffset i = w ∧ bool i bitMap = some true

end Loops

/-! ### One word -/

/-- The result is the number of set bits, whatever the word. -/
theorem toNat_bitCount (x : Word) :
    (bitCount x).toNat = Nat.count (fun bit => x.getLsbD bit = true) 32 := by
  have halfWords := fun c : Word =>
    laneSum_stage 16 1 (by decide) rfl c 0x0000FFFF#32 (by decide)
  have bytes := fun c : Word => laneSum_stage 8 2 (by decide) rfl c 0x00FF00FF#32 (by decide)
  have nibbles := fun c : Word => laneSum_stage 4 4 (by decide) rfl c 0x0F0F0F0F#32 (by decide)
  have pairs := fun c : Word => laneSum_stage 2 8 (by decide) rfl c 0x33333333#32 (by decide)
  have bits := laneSum_stage 1 16 (by decide) rfl x 0x55555555#32 (by decide)
  calc (bitCount x).toNat = laneSum 32 1 (bitCount x).toNat := (laneSum_one (BitVec.isLt _)).symm
    _ = laneSum 16 2 _ := halfWords _
    _ = laneSum 8 4 _ := bytes _
    _ = laneSum 4 8 _ := nibbles _
    _ = laneSum 2 16 _ := pairs _
    _ = laneSum 1 32 x.toNat := bits
    _ = Nat.count (fun bit => x.getLsbD bit = true) 32 := laneSum_bits 32 x.toNat

variable {words : Nat}

private theorem bool_in_word (bitMap : Region Word words) {w bit : Nat} {word : Word}
    (found : bitMap.read w = some word) (below : bit < 32) :
    bool (32 * w + bit) bitMap = some (word.getLsbD bit) := by
  have atWord : intOffset (32 * w + bit) = w := by
    unfold intOffset bitWidthInBits
    omega
  have atBit : bitOffset (32 * w + bit) = bit := by
    unfold bitOffset bitWidthInBits
    omega
  rw [← atWord] at found
  rw [bool_eq_getLsbD bitMap found, atBit]

/-- The positions of one word contribute what `bitCount` returns for it. -/
theorem count_word (bitMap : Region Word words) {w : Nat} {word : Word}
    (found : bitMap.read w = some word) :
    Nat.count (fun bit => bool (32 * w + bit) bitMap = some true) 32 = (bitCount word).toNat := by
  rw [toNat_bitCount, Nat.count_eq_card_filter_range, Nat.count_eq_card_filter_range]
  congr 1
  apply Finset.filter_congr
  intro bit member
  rw [bool_in_word bitMap found (Finset.mem_range.mp member), Option.some.injEq]

private theorem wordUsed_iff (bitMap : Region Word words) {w : Nat} {word : Word}
    (found : bitMap.read w = some word) : WordUsed bitMap w ↔ word ≠ 0#32 := by
  constructor
  · rintro ⟨i, rfl, set⟩ zero
    rw [bool_eq_getLsbD bitMap found, zero] at set
    simp at set
  · intro nonzero
    by_contra unused
    apply nonzero
    apply BitVec.eq_of_getLsbD_eq
    intro bit below
    have position := bool_in_word bitMap found below
    cases clear : word.getLsbD bit with
    | false => simp
    | true =>
        refine absurd ⟨32 * w + bit, ?_, by rw [position, clear]⟩ unused
        unfold intOffset bitWidthInBits
        omega

theorem wordUsed_iff_getD (bitMap : Region Word words) (w : Nat) :
    (bitMap.read w).getD 0#32 ≠ 0#32 ↔ WordUsed bitMap w := by
  cases found : bitMap.read w with
  | some word => exact (wordUsed_iff bitMap found).symm
  | none =>
      refine iff_of_false (fun nonzero => nonzero rfl) ?_
      rintro ⟨i, rfl, set⟩
      rw [bool_eq_none bitMap (bitMap.read_eq_none.mp found)] at set
      cases set

instance (bitMap : Region Word words) : DecidablePred (WordUsed bitMap) := fun w =>
  decidable_of_iff _ (wordUsed_iff_getD bitMap w)

/-! ### The loops -/

private theorem count_lt_word {p : Nat → Prop} [DecidablePred p] {bound : Nat}
    (small : bound < 2 ^ 32) : Nat.count p bound < 2 ^ 32 :=
  Nat.lt_of_le_of_lt (Nat.count_le p) small

/-- After `stop` turns the total counts the positions of the words seen. -/
theorem addBitCounts (bitMap : Region Word words) {stop : Nat} (inside : stop ≤ words)
    (small : 32 * stop < 2 ^ 32) :
    ∃ total, forRange 0 stop (addBitCount bitMap) 0#32 = some total ∧
      total.toNat = Nat.count (fun i => bool i bitMap = some true) (32 * stop) := by
  apply forRange_progress (fun turns (total : Word) =>
    total.toNat = Nat.count (fun i => bool i bitMap = some true) (32 * turns)) (Nat.zero_le stop) rfl
  intro i total _ below counted
  rcases bitMap.exists_read (Nat.lt_of_lt_of_le below inside) with ⟨word, found⟩
  refine ⟨total + bitCount word, by simp [addBitCount, found], ?_⟩
  have grown : Nat.count (fun i => bool i bitMap = some true) (32 * (i + 1)) =
      total.toNat + (bitCount word).toNat := by
    rw [Nat.mul_succ, Nat.count_add, count_word bitMap found, counted]
  rw [BitVec.toNat_add, ← grown]
  exact Nat.mod_eq_of_lt (count_lt_word (by omega))

private theorem countUsedWords (bitMap : Region Word words) {stop : Nat} (inside : stop ≤ words)
    (small : stop < 2 ^ 32) :
    ∃ total, forRange 0 stop (countUsedWord bitMap) 0#32 = some total ∧
      total.toNat = Nat.count (WordUsed bitMap) stop := by
  apply forRange_progress (fun turns (total : Word) =>
    total.toNat = Nat.count (WordUsed bitMap) turns) (Nat.zero_le stop) rfl
  intro i total _ below counted
  rcases bitMap.exists_read (Nat.lt_of_lt_of_le below inside) with ⟨word, found⟩
  have used := wordUsed_iff bitMap found
  by_cases zero : word = 0#32
  · refine ⟨total, by simp [countUsedWord, found, zero], ?_⟩
    rw [Nat.count_succ, if_neg (fun set => used.mp set zero), counted, Nat.add_zero]
  · refine ⟨total + 1#32, by simp [countUsedWord, found, zero], ?_⟩
    have grown : Nat.count (WordUsed bitMap) (i + 1) = total.toNat + 1 := by
      rw [Nat.count_succ, if_pos (used.mpr zero), counted]
    rw [BitVec.toNat_add, BitVec.toNat_one (by decide), ← grown]
    exact Nat.mod_eq_of_lt (count_lt_word (by omega))

private theorem totalBitmap_eq (bitMap : Region Word (bitTableSize / bitWidthInBits + 1)) :
    ∃ total, totalBitmap bitMap = some total ∧
      total.toNat = Nat.count (fun i => bool i bitMap = some true) (bitTableSize + 32) :=
  addBitCounts bitMap (Nat.le_refl _) (by decide)

theorem pageCount_eq (bitMap : Region Word words) {len : Word} (inside : len.toNat ≤ words) :
    ∃ total, pageCount (some bitMap) len = some total ∧
      total.toNat = Nat.count (WordUsed bitMap) len.toNat :=
  countUsedWords bitMap inside len.isLt

/-- What turn `i` adds still fits the counter, and so does the next index. -/
def TurnFits (turn : Nat → Word → Option Word) (term : Nat → Option Word) (i : Nat) : Prop :=
  i + 1 < 2 ^ 32 ∧ ∃ total added, forRange 0 i turn 0#32 = some total ∧ term i = some added ∧
    total.toNat + added.toNat < 2 ^ 32

private theorem addBitCount_fits (bitMap : Region Word words) {i : Nat} (inside : i < words)
    (small : 32 * (i + 1) < 2 ^ 32) :
    TurnFits (addBitCount bitMap) (fun i => (bitMap.read i).map bitCount) i := by
  rcases bitMap.exists_read inside with ⟨word, found⟩
  rcases addBitCounts bitMap (Nat.le_of_lt inside) (by omega) with ⟨total, run, counted⟩
  refine ⟨by omega, total, bitCount word, run, by simp [found], ?_⟩
  rw [counted, ← count_word bitMap found, ← Nat.count_add, ← Nat.mul_succ]
  exact count_lt_word small

private theorem countUsedWord_fits (bitMap : Region Word words) {i : Nat} (inside : i < words)
    (small : i + 1 < 2 ^ 32) : TurnFits (countUsedWord bitMap) (fun _ => some 1#32) i := by
  rcases countUsedWords bitMap (Nat.le_of_lt inside) (by omega) with ⟨total, run, counted⟩
  refine ⟨small, total, 1#32, run, rfl, ?_⟩
  have seen : total.toNat ≤ i := counted ▸ Nat.count_le _
  rw [BitVec.toNat_one (by decide)]
  omega

/-- Both counting functions return exact counts, of positions and of used words, and
no turn of their loops wraps. -/
theorem bitmap_counting_exact :
    (∀ bitMap : Region Word (bitTableSize / bitWidthInBits + 1),
      (∃ total, totalBitmap bitMap = some total ∧
        total.toNat = Nat.count (fun i => bool i bitMap = some true) (bitTableSize + 32)) ∧
      ∀ i < bitTableSize / bitWidthInBits + 1,
        TurnFits (addBitCount bitMap) (fun i => (bitMap.read i).map bitCount) i) ∧
    ∀ (words : Nat) (bitMap : Region Word words) (len : Word), len.toNat ≤ words →
      (∃ total, pageCount (some bitMap) len = some total ∧
        total.toNat = Nat.count (WordUsed bitMap) len.toNat) ∧
      ∀ i < len.toNat, TurnFits (countUsedWord bitMap) (fun _ => some 1#32) i := by
  refine ⟨fun bitMap => ⟨totalBitmap_eq bitMap, ?_⟩, fun words bitMap len inside =>
    ⟨pageCount_eq bitMap inside, ?_⟩⟩
  · intro i below
    refine addBitCount_fits bitMap below ?_
    have limit : bitTableSize / bitWidthInBits + 1 = 262145 := rfl
    omega
  · intro i below
    have fits := len.isLt
    exact countUsedWord_fits bitMap (by omega) (by omega)

/-- A bitmap of three words of which the middle one is used. -/
theorem bitmap_counting_middle :
    ∃ total, pageCount (some (⟨fun w => if w.val = 1 then 6#32 else 0#32⟩ : Region Word 3)) 3#32 =
      some total ∧ total.toNat = 1 := by
  rcases (bitmap_counting_exact.2 3 ⟨fun w => if w.val = 1 then 6#32 else 0#32⟩ 3#32
    (by decide)).1 with ⟨total, run, counted⟩
  exact ⟨total, run, counted.trans (by decide)⟩

end OsCompiler.Nvmsim
