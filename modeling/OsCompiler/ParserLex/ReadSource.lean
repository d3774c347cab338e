/-
`read`: the source file is copied into the array `code` in pieces of a line or less.

A piece is a C string, so that what stands behind a null character of its line is lost.
A file without one that fits the array is the text that is scanned.
-/

import OsCompiler.ParserLex.LabLex

namespace OsCompiler.ParserLex

/-- `fgets` with room for so many characters: they end behind the first newline. -/
def fgets : Nat → List Char → List Char × List Char
  | 0, file => ([], file)
  | _ + 1, [] => ([], [])
  | room + 1, c :: file =>
      if c = '\n' then ([c], file) else (c :: (fgets room file).1, (fgets room file).2)

private theorem fgets_append (room : Nat) (file : List Char) :
    (fgets room file).1 ++ (fgets room file).2 = file := by
  induction room generalizing file with
  | zero => rfl
  | succ room ih =>
      cases file with
      | nil => rfl
      | cons c file =>
          rw [fgets]
          split
          · rfl
          · exact congrArg (c :: ·) (ih file)

/-- A piece of a file that has not ended is not empty. -/
theorem fgets_shorter {room : Nat} {file : List Char} (nonempty : file ≠ []) :
    (fgets (room + 1) file).2.length < file.length := by
  have whole := congrArg List.length (fgets_append (room + 1) file)
  rw [List.length_append] at whole
  have taken : (fgets (room + 1) file).1 ≠ [] := by
    rcases List.exists_cons_of_ne_nil nonempty with ⟨c, rest, rfl⟩
    rw [fgets]
    split
    · exact List.cons_ne_nil c []
    · exact List.cons_ne_nil c _
  have positive := List.length_pos_iff.mpr taken
  omega

def notNul (c : Char) : Bool := c != nul

def cString (buf : List Char) : List Char := buf.takeWhile notNul

theorem nul_notMem_cString (buf : List Char) : nul ∉ cString buf := by
  intro member
  have live : notNul nul = true := List.mem_takeWhile_imp member
  cases live

theorem cString_eq {buf : List Char} (isString : nul ∉ buf) : cString buf = buf := by
  rw [cString, List.takeWhile_eq_self_iff]
  intro c member
  exact bne_iff_ne.mpr fun same => isString (same ▸ member)

def SourceText.append (code : SourceText) (buf : List Char) : Option SourceText :=
  if room : code.chars.length + (cString buf).length < MAXSIZE then
    some {
      chars := code.chars ++ cString buf
      isString := fun member =>
        (List.mem_append.mp member).elim code.isString (nul_notMem_cString buf)
      inBuffer := List.length_append ▸ room }
  else none

def readLines (code : SourceText) (file : List Char) : Option SourceText :=
  if file = [] then some code
  else
    match code.append (fgets (MAXLINE - 1) file).1 with
    | none => none
    | some code => readLines code (fgets (MAXLINE - 1) file).2
termination_by file.length
decreasing_by exact fgets_shorter (by assumption)

def read (file : List Char) : Option SourceText :=
  readLines ⟨[], List.not_mem_nil, by decide⟩ file

/-- What is copied of a file: the strings that its pieces begin with. -/
def copied (file : List Char) : List Char :=
  if file = [] then []
  else cString (fgets (MAXLINE - 1) file).1 ++ copied (fgets (MAXLINE - 1) file).2
termination_by file.length
decreasing_by exact fgets_shorter (by assumption)

theorem nul_notMem_copied (file : List Char) : nul ∉ copied file := by
  induction file using copied.induct with
  | case1 =>
      rw [copied, if_pos rfl]
      exact List.not_mem_nil
  | case2 file nonempty ih =>
      rw [copied, if_neg nonempty, List.mem_append, not_or]
      exact ⟨nul_notMem_cString _, ih⟩

private theorem copied_eq {file : List Char} (isString : nul ∉ file) : copied file = file := by
  induction file using copied.induct with
  | case1 => rw [copied, if_pos rfl]
  | case2 file nonempty ih =>
      have split := fgets_append (MAXLINE - 1) file
      rw [← split, List.mem_append, not_or] at isString
      rw [copied, if_neg nonempty, cString_eq isString.1, ih isString.2, split]

theorem SourceText.chars_inj {source other : SourceText} (same : source.chars = other.chars) :
    source = other := by
  cases source
  cases other
  cases same
  rfl

private theorem readLines_eq_some {code source : SourceText} {file : List Char} :
    readLines code file = some source ↔ source.chars = code.chars ++ copied file := by
  induction code, file using readLines.induct with
  | case1 code =>
      rw [readLines, if_pos rfl, copied, if_pos rfl, List.append_nil, Option.some.injEq]
      exact ⟨fun same => same ▸ rfl, fun same => (SourceText.chars_inj same).symm⟩
  | case2 code file nonempty overflow =>
      rw [readLines, if_neg nonempty, overflow, copied, if_neg nonempty]
      refine iff_of_false nofun fun same => ?_
      have room := source.inBuffer
      rw [same, List.length_append, List.length_append] at room
      rw [SourceText.append, dif_pos (by omega)] at overflow
      cases overflow
  | case3 code file nonempty longer appended ih =>
      have chars : longer.chars = code.chars ++ cString (fgets (MAXLINE - 1) file).1 := by
        rw [SourceText.append] at appended
        split at appended
        · cases appended
          rfl
        · cases appended
      rw [readLines, if_neg nonempty, appended, copied, if_neg nonempty, ← List.append_assoc,
        ← chars]
      exact ih

theorem read_eq_some {file : List Char} {source : SourceText} :
    read file = some source ↔ source.chars = copied file :=
  readLines_eq_some

/-- A file without null characters that the array holds is read as it stands. -/
theorem read_eq {file : List Char} (isString : nul ∉ file) (inBuffer : file.length < MAXSIZE) :
    read file = some ⟨file, isString, inBuffer⟩ :=
  read_eq_some.mpr (copied_eq isString).symm

end OsCompiler.ParserLex
