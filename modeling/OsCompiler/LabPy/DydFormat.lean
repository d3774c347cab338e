/-
The token file between `lex.py` and `lab_parser.py`: what `Print` writes, a line for
each token, and what `init_files` reads back.

No lexeme contains a blank or anything else that `strip` removes, so the padding and
the one blank in front of the code are the only separators of a line.
-/

import OsCompiler.LabPy.Lex

namespace OsCompiler.LabPy

open OsCompiler.TextLines

/-- An element of `dyd_list`: the two fields that are used and what `split` leaves behind. -/
structure DydRow where
  word : List Char
  code : Int
  others : List (List Char)
  deriving DecidableEq

/-- The body of the loop of `init_files`; `none` where an index or `int` raises. -/
def readRow (line : List Char) : Option DydRow :=
  match (strip line).splitOn ' ' with
  | word :: field :: others => do
      let code ← parseInt field
      pure ⟨word, code, others⟩
  | _ => none

def initFiles (dydFile : List Char) : Option (List DydRow) :=
  (fileLines (readText dydFile)).mapM readRow

private theorem isSpace_of_isWordChar {c : Char} (wordChar : isWordChar c = true) :
    isSpace c = false := by
  have range : 65 ≤ c.toNat ∧ c.toNat ≤ 122 := by
    simpa [isWordChar, Char.le_def, UInt32.le_iff_toNat_le] using wordChar
  simp only [isSpace, Bool.or_eq_false_iff, Bool.and_eq_false_iff, decide_eq_false_iff_not,
    beq_eq_false_iff_ne]
  omega

theorem Lexeme.solid {word : List Char} (lexeme : Lexeme word) : Solid word := by
  cases lexeme with
  | word nonempty all => exact ⟨nonempty, fun c member => isSpace_of_isWordChar (all c member)⟩
  | number nonempty all =>
      refine ⟨nonempty, ?_⟩
      intro c member
      apply isSpace_of_isDigit
      simpa [Char.isDigit, Char.le_def] using all c member
  | sign listed =>
      have every : ∀ sign ∈ signs, sign ≠ [] ∧ sign.any isSpace = false := by decide
      rcases every word listed with ⟨nonempty, noSpace⟩
      exact ⟨nonempty, fun c member => Bool.eq_false_iff.mpr (List.any_eq_false.mp noSpace c member)⟩

private theorem readRow_record {word : List Char} (solid : Solid word) (code : Nat) :
    readRow (record 16 word code ++ ['\n']) = some ⟨word, code, []⟩ := by
  rw [readRow, strip_record 16 solid code, splitOn_record solid code]
  simp only [parseInt_decimal, Option.bind_eq_bind, Option.bind_some]
  rfl

private theorem mapM_readRow {rows : List (List Char × Nat)} (solid : ∀ row ∈ rows, Solid row.1) :
    (rows.map fun row => record 16 row.1 row.2 ++ ['\n']).mapM readRow =
      some (rows.map fun row => ⟨row.1, row.2, []⟩) := by
  induction rows with
  | nil => rfl
  | cons row rows ih =>
      have here := readRow_record (solid row List.mem_cons_self) row.2
      have later := ih fun other member => solid other (List.mem_cons_of_mem row member)
      simp only [List.map_cons, List.mapM_cons, here, later, Option.bind_eq_bind,
        Option.bind_some]
      rfl

/-- No carriage return is written, so text mode gives back what was written. -/
theorem notMem_targetText {rows : List (List Char × Nat)} (solid : ∀ row ∈ rows, Solid row.1) :
    '\r' ∉ targetText rows := by
  intro member
  rcases List.mem_flatMap.mp member with ⟨row, inRows, inRow⟩
  rcases List.mem_append.mp inRow with inRecord | newline
  · have space := isSpace_of_mem_record (solid row inRows) inRecord
    exact absurd space (by decide)
  · cases List.mem_singleton.mp newline

theorem initFiles_targetText (lineEnd : LineEnd) {rows : List (List Char × Nat)}
    (solid : ∀ row ∈ rows, Solid row.1) :
    initFiles (writeText lineEnd (targetText rows)) =
      some (rows.map fun row => ⟨row.1, row.2, []⟩) := by
  rw [initFiles, readText_writeText lineEnd (notMem_targetText solid), targetText,
    fileLines_flatMap _ fun row member => newline_notMem_record 16 (solid row member) row.2,
    mapM_readRow solid]

/-- Whatever the source text and the platform's line ends, the parser reads exactly the words
and codes that the lexer has passed to `Print`. -/
theorem initFiles_lexMain (lineEnd : LineEnd) (text : List Char) :
    initFiles (writeText lineEnd (lexMain text).target) =
      some ((lexMain text).printed.map fun row => ⟨row.1, row.2, []⟩) := by
  rcases lexMain_lexemes text with ⟨lexemes, target⟩
  rw [target]
  exact initFiles_targetText lineEnd fun row member => (lexemes row member).solid

/-- A word, a sign in two characters, an illegal character and a newline. -/
example : initFiles (writeText .crlf (lexMain "a:=$\n".toList).target) =
    some [⟨['a'], 10, []⟩, ⟨[':', '='], 20, []⟩, ⟨['E', 'O', 'L', 'N'], 24, []⟩,
      ⟨['E', 'O', 'F'], 25, []⟩] := by
  decide

end OsCompiler.LabPy
