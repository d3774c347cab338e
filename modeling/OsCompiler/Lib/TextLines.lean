/-
Texts as lists of characters: padding, stripping, lines of a file and decimal
numbers, with the behaviour of Python's `str` methods and text files.

The rules at the end are for files of records, each a padded word, a separating
blank and a number on a line of its own.
-/

import Mathlib.Algebra.Group.Nat.Defs
import Mathlib.Data.List.DropRight

namespace OsCompiler.TextLines

/-- `str.isspace` of one character. -/
def isSpace (c : Char) : Bool :=
  let code := c.toNat
  (9 ≤ code && code ≤ 13) || (28 ≤ code && code ≤ 32) || code == 0x85 || code == 0xa0 ||
    code == 0x1680 || (0x2000 ≤ code && code ≤ 0x200a) || code == 0x2028 || code == 0x2029 ||
    code == 0x202f || code == 0x205f || code == 0x3000

def strip (text : List Char) : List Char := (text.dropWhile isSpace).rdropWhile isSpace

def rjust (width : Nat) (text : List Char) : List Char :=
  List.replicate (width - text.length) ' ' ++ text

/-! ### Files in text mode -/

/-- What the platform writes for a newline. -/
inductive LineEnd
  | lf
  | crlf

def LineEnd.chars : LineEnd → List Char
  | .lf => ['\n']
  | .crlf => ['\r', '\n']

def writeText (lineEnd : LineEnd) (text : List Char) : List Char :=
  text.flatMap fun c => if c = '\n' then lineEnd.chars else [c]

/-- Universal newlines: every line end is read as a newline. -/
def readText : List Char → List Char
  | [] => []
  | '\r' :: '\n' :: rest => '\n' :: readText rest
  | '\r' :: rest => '\n' :: readText rest
  | c :: rest => c :: readText rest

/-- The lines of a text with their newlines; the last one may lack it. -/
def fileLines : List Char → List (List Char)
  | [] => []
  | c :: rest =>
      if c = '\n' then [c] :: fileLines rest
      else
        match fileLines rest with
        | [] => [[c]]
        | line :: lines => (c :: line) :: lines

/-! ### Decimal numbers -/

def decimal (number : Nat) : List Char := Nat.toDigits 10 number

def parseDigits (digits : List Char) : Option Nat :=
  if digits ≠ [] ∧ digits.all Char.isDigit then some (Nat.ofDigitChars 10 digits 0) else none

def parseInt (text : List Char) : Option Int :=
  match strip text with
  | '-' :: digits => (parseDigits digits).map fun number => -(number : Int)
  | '+' :: digits => (parseDigits digits).map Nat.cast
  | digits => (parseDigits digits).map Nat.cast

/-! ### What is read back -/

theorem readText_cons {c : Char} (plain : c ≠ '\r') (rest : List Char) :
    readText (c :: rest) = c :: readText rest := by
  rw [readText]
  · intro _ same
    exact absurd same plain
  · intro same
    exact absurd same plain

theorem writeText_cons (lineEnd : LineEnd) (c : Char) (rest : List Char) :
    writeText lineEnd (c :: rest) =
      (if c = '\n' then lineEnd.chars else [c]) ++ writeText lineEnd rest :=
  List.flatMap_cons

/-- A text without carriage returns is read as it was written. -/
theorem readText_writeText (lineEnd : LineEnd) {text : List Char} (plain : '\r' ∉ text) :
    readText (writeText lineEnd text) = text := by
  induction text with
  | nil => rfl
  | cons c rest ih =>
      rcases not_or.mp (fun either => plain (List.mem_cons.mpr either)) with ⟨here, later⟩
      rw [writeText_cons]
      by_cases newline : c = '\n'
      · subst newline
        rw [if_pos rfl]
        cases lineEnd with
        | lf => rw [LineEnd.chars, List.singleton_append, readText_cons (by decide), ih later]
        | crlf => rw [LineEnd.chars, List.cons_append, List.singleton_append, readText, ih later]
      · rw [if_neg newline, List.singleton_append, readText_cons (Ne.symm here), ih later]

theorem fileLines_append {line : List Char} (whole : '\n' ∉ line) (rest : List Char) :
    fileLines (line ++ '\n' :: rest) = (line ++ ['\n']) :: fileLines rest := by
  induction line with
  | nil => rw [List.nil_append, fileLines, if_pos rfl, List.nil_append]
  | cons c line ih =>
      rcases not_or.mp (fun either => whole (List.mem_cons.mpr either)) with ⟨here, later⟩
      rw [List.cons_append, fileLines, if_neg (Ne.symm here), ih later]
      rfl

theorem fileLines_flatMap {Row : Type} (format : Row → List Char)
    {rows : List Row} (whole : ∀ row ∈ rows, '\n' ∉ format row) :
    fileLines (rows.flatMap fun row => format row ++ ['\n']) =
      rows.map fun row => format row ++ ['\n'] := by
  induction rows with
  | nil => rfl
  | cons row rows ih =>
      rw [List.flatMap_cons, List.append_assoc, List.singleton_append,
        fileLines_append (whole row List.mem_cons_self),
        ih (fun other member => whole other (List.mem_cons_of_mem row member)), List.map_cons]

theorem strip_eq {front body back : List Char} (blankFront : ∀ c ∈ front, isSpace c = true)
    (blankBack : ∀ c ∈ back, isSpace c = true)
    (begins : ∃ c rest, body = c :: rest ∧ isSpace c = false)
    (ends : ∃ c rest, body = rest ++ [c] ∧ isSpace c = false) :
    strip (front ++ body ++ back) = body := by
  rcases begins with ⟨first, rest, begins, firstSolid⟩
  rcases ends with ⟨last, initial, ends, lastSolid⟩
  have dropped : (front ++ body ++ back).dropWhile isSpace = body ++ back := by
    rw [List.append_assoc, List.dropWhile_append_of_pos blankFront, begins, List.cons_append,
      List.dropWhile_cons_of_neg (by simp [firstSolid])]
  have reversed : (body ++ back).reverse.dropWhile isSpace = body.reverse := by
    have blankReverse : ∀ c ∈ back.reverse, isSpace c = true :=
      fun c member => blankBack c (List.mem_reverse.mp member)
    rw [List.reverse_append, List.dropWhile_append_of_pos blankReverse, ends,
      List.reverse_append, List.reverse_singleton, List.singleton_append,
      List.dropWhile_cons_of_neg (by simp [lastSolid])]
  rw [strip, dropped, List.rdropWhile, reversed, List.reverse_reverse]

theorem isSpace_of_isDigit {c : Char} (digit : c.isDigit = true) : isSpace c = false := by
  have range : 48 ≤ c.toNat ∧ c.toNat ≤ 57 := by
    simpa [Char.isDigit, UInt32.le_iff_toNat_le] using digit
  simp only [isSpace, Bool.or_eq_false_iff, Bool.and_eq_false_iff, decide_eq_false_iff_not,
    beq_eq_false_iff_ne]
  omega

theorem isDigit_of_mem_decimal (number : Nat) {c : Char} (member : c ∈ decimal number) :
    c.isDigit = true :=
  Nat.isDigit_of_mem_toDigits (by decide) (by decide) member

theorem decimal_ne_nil (number : Nat) : decimal number ≠ [] := Nat.toDigits_ne_nil

theorem parseInt_decimal (number : Nat) : parseInt (decimal number) = some (number : Int) := by
  have solid : ∀ c ∈ decimal number, isSpace c = false :=
    fun c member => isSpace_of_isDigit (isDigit_of_mem_decimal number member)
  have parsed : parseDigits (decimal number) = some number := by
    rw [parseDigits, if_pos ⟨decimal_ne_nil number, List.all_eq_true.mpr
      fun c member => isDigit_of_mem_decimal number member⟩, decimal, Nat.ofDigitChars_ten_toDigits]
  have stripped : strip (decimal number) = decimal number := by
    have kept : (decimal number).dropWhile isSpace = decimal number := by
      cases digits : decimal number with
      | nil => rfl
      | cons first rest =>
          rw [digits] at solid
          rw [List.dropWhile_cons_of_neg (by simp [solid first List.mem_cons_self])]
    rw [strip, kept, List.rdropWhile_eq_self_iff]
    intro nonempty
    rw [solid _ (List.getLast_mem nonempty)]
    decide
  rw [parseInt, stripped]
  cases digits : decimal number with
  | nil => exact absurd digits (decimal_ne_nil number)
  | cons first rest =>
      have digit : first.isDigit = true := by
        apply isDigit_of_mem_decimal number
        rw [digits]
        exact List.mem_cons_self
      rw [digits] at parsed
      split
      · rename_i same
        rw [List.cons.injEq] at same
        rw [same.1] at digit
        cases digit
      · rename_i same
        rw [List.cons.injEq] at same
        rw [same.1] at digit
        cases digit
      · rw [parsed]
        rfl

/-! ### Files of records -/

def record (width : Nat) (word : List Char) (number : Nat) : List Char :=
  rjust width word ++ ' ' :: decimal number

/-- A word that padding, stripping and splitting leave whole. -/
structure Solid (word : List Char) : Prop where
  nonempty : word ≠ []
  noSpace : ∀ c ∈ word, isSpace c = false

theorem strip_record (width : Nat) {word : List Char} (solid : Solid word) (number : Nat) :
    strip (record width word number ++ ['\n']) = word ++ ' ' :: decimal number := by
  have regroup : record width word number ++ ['\n'] =
      List.replicate (width - word.length) ' ' ++ (word ++ ' ' :: decimal number) ++ ['\n'] := by
    simp only [record, rjust, List.append_assoc]
  rw [regroup]
  apply strip_eq
  · intro c member
    rw [List.eq_of_mem_replicate member]
    decide
  · intro c member
    rw [List.mem_singleton.mp member]
    decide
  · rcases List.exists_cons_of_ne_nil solid.nonempty with ⟨first, rest, rfl⟩
    exact ⟨first, rest ++ ' ' :: decimal number, rfl, solid.noSpace first List.mem_cons_self⟩
  · rcases List.eq_nil_or_concat (decimal number) with empty | ⟨digits, last, split⟩
    · exact absurd empty (decimal_ne_nil number)
    · refine ⟨last, word ++ ' ' :: digits, ?_, ?_⟩
      · rw [split, List.concat_eq_append, List.append_assoc, List.cons_append]
      · apply isSpace_of_isDigit
        apply isDigit_of_mem_decimal number
        rw [split, List.concat_eq_append]
        exact List.mem_append_right _ (List.mem_singleton.mpr rfl)

theorem splitOn_record {word : List Char} (solid : Solid word) (number : Nat) :
    (word ++ ' ' :: decimal number).splitOn ' ' = [word, decimal number] := by
  have noBlank : ∀ text : List Char, (∀ c ∈ text, isSpace c = false) →
      ∀ c ∈ text, (c == ' ') = false := by
    intro text noSpace c member
    apply beq_eq_false_iff_ne.mpr
    intro same
    have space := noSpace c member
    rw [same] at space
    cases space
  rw [List.splitOn_eq_splitOnP,
    List.splitOnP_append_cons_of_forall_mem (noBlank word solid.noSpace) ' ' (by decide),
    List.splitOnP_eq_singleton (noBlank _ fun c member =>
      isSpace_of_isDigit (isDigit_of_mem_decimal number member))]

/-- Blanks are the only white space of a record. -/
theorem isSpace_of_mem_record {width : Nat} {word : List Char} (solid : Solid word)
    {number : Nat} {c : Char} (member : c ∈ record width word number) :
    c = ' ' ∨ isSpace c = false := by
  rw [record, rjust] at member
  rcases List.mem_append.mp member with front | back
  · rcases List.mem_append.mp front with padding | inWord
    · exact Or.inl (List.eq_of_mem_replicate padding)
    · exact Or.inr (solid.noSpace c inWord)
  · rcases List.mem_cons.mp back with blank | digit
    · exact Or.inl blank
    · exact Or.inr (isSpace_of_isDigit (isDigit_of_mem_decimal number digit))

theorem newline_notMem_record (width : Nat) {word : List Char} (solid : Solid word)
    (number : Nat) : '\n' ∉ record width word number := by
  intro member
  exact absurd (isSpace_of_mem_record solid member) (by decide)

end OsCompiler.TextLines
