/-
The command line of tShell: `parser` and the calls of it that `main` makes.

A line is what `fgets` stores in front of the first NUL of the buffer. A pointer into
the buffer is the text from there on with that NUL behind it; reading on behind the NUL
and writing behind the end of a destination end the call. The destinations are zero when
a line is read.
-/

import Mathlib.Data.List.TakeWhile
import Mathlib.Data.List.TakeDrop
import OsCompiler.Lib.Transition

namespace OsCompiler.TShell

open OsCompiler.Transition

def BUFFER_LEN : Nat := 64

def NUL : UInt8 := 0
def NEWLINE : UInt8 := 10
def BLANK : UInt8 := 32

def ascii (text : String) : List UInt8 := text.toList.map fun c => c.toNat.toUInt8

structure Line where
  bytes : List UInt8
  fits : bytes.length < BUFFER_LEN
  noNul : NUL ∉ bytes
  newlineLast : NEWLINE ∉ bytes.dropLast

inductive Fault
  | readsPastNul
  | writesPastEnd
  deriving DecidableEq

/-- `while (*str == ' ' && *(str++) != '\n')` -/
def skipBlanks : List UInt8 → Except Fault (List UInt8)
  | [] => .error .readsPastNul
  | c :: rest => if c = BLANK then skipBlanks rest else .ok (c :: rest)

/-- `while (*str != '\n' && *(str++) != ' ') n++`. A blank is passed, a newline is not. -/
def countWord (n : Nat) : List UInt8 → Except Fault (Nat × List UInt8)
  | [] => .error .readsPastNul
  | c :: rest =>
      if c = NEWLINE then .ok (n, c :: rest)
      else if c = BLANK then .ok (n, rest)
      else countWord (n + 1) rest

def strncpy (size : Nat) (des src : List UInt8) (n : Nat) : Except Fault (List UInt8) :=
  if size < n then .error .writesPastEnd
  else
    let copied := (src.take n).takeWhile (· ≠ NUL)
    .ok (copied ++ List.replicate (n - copied.length) NUL ++ des.drop n)

/-- The destination of `size` bytes and the pointer returned. -/
def parser (size : Nat) (des src : List UInt8) : Except Fault (List UInt8 × List UInt8) := do
  let str ← skipBlanks src
  let (n, str) ← countWord 0 str
  let des ← strncpy size des src n
  pure (des, str)

inductive CmdType
  | CR
  | DE
  | REQ
  | REL
  | TO
  | LS
  | unknown
  deriving DecidableEq

/-- What `strcmp` sees of a destination. -/
def cString (field : List UInt8) : List UInt8 := field.takeWhile (· ≠ NUL)

def cmdType (cmd : List UInt8) : CmdType :=
  if cString cmd = ascii "cr" then .CR
  else if cString cmd = ascii "de" then .DE
  else if cString cmd = ascii "req" then .REQ
  else if cString cmd = ascii "rel" then .REL
  else if cString cmd = ascii "to" then .TO
  else if cString cmd = ascii "ls" then .LS
  else .unknown

def commandSize : Nat := 4
def pNameSize : Nat := 16
def rNumSize : Nat := 1

def argumentSizes : CmdType → List Nat
  | .CR => [pNameSize, rNumSize]
  | .REQ => [pNameSize, rNumSize]
  | .REL => [pNameSize, rNumSize]
  | .DE => [pNameSize]
  | .TO => []
  | .LS => []
  | .unknown => []

def parseAll : List Nat → List UInt8 → Except Fault (List (List UInt8))
  | [], _ => .ok []
  | size :: sizes, src => do
      let (des, tem) ← parser size (List.replicate size NUL) src
      let later ← parseAll sizes tem
      pure (des :: later)

def parseLine (line : Line) : Except Fault (List (List UInt8)) := do
  let (command, tem) ← parser commandSize (List.replicate commandSize NUL) (line.bytes ++ [NUL])
  let arguments ← parseAll (argumentSizes (cmdType command)) tem
  pure (command :: arguments)

/-! ### What the words of a line are -/

def words (text : List UInt8) : List (List UInt8) :=
  ((text.takeWhile (· ≠ NEWLINE)).splitOn BLANK).filter (· ≠ [])

def padded (size : Nat) (word : List UInt8) : List UInt8 :=
  word ++ List.replicate (size - word.length) NUL

/-- Each destination holds its word, or nothing where the text has no more words. -/
def HoldWords : List Nat → List (List UInt8) → List (List UInt8) → Prop
  | _, _, [] => True
  | [], _, _ :: _ => False
  | size :: sizes, words, des :: later =>
      des = padded size (words.headD []) ∧ HoldWords sizes words.tail later

/-- The calls stay inside the line and the destinations, and find its words in order. -/
def ParsesWords (line : Line) : Prop :=
  ∃ fields, parseLine line = .ok fields ∧
    HoldWords [commandSize, pNameSize, rNumSize] (words line.bytes) fields

/-! ### What a call does -/

def solid (c : UInt8) : Bool := c ≠ BLANK && c ≠ NEWLINE

def wordOf (text : List UInt8) : List UInt8 := (text.dropWhile (· == BLANK)).takeWhile solid

def behindWord (text : List UInt8) : List UInt8 := (text.dropWhile (· == BLANK)).dropWhile solid

def passBlank : List UInt8 → List UInt8
  | [] => []
  | c :: rest => if c = BLANK then rest else c :: rest

def afterCall (text : List UInt8) : List UInt8 := passBlank (behindWord text)

private theorem skipBlanks_eq (text : List UInt8) :
    skipBlanks (text ++ [NUL]) = .ok (text.dropWhile (· == BLANK) ++ [NUL]) := by
  induction text with
  | nil => rfl
  | cons c rest ih =>
      rw [List.cons_append, skipBlanks]
      by_cases blank : c = BLANK
      · rw [if_pos blank, ih, List.dropWhile_cons_of_pos (by simpa using blank)]
      · rw [if_neg blank, List.dropWhile_cons_of_neg (by simpa using blank)]
        rfl

private theorem countWord_eq (text : List UInt8) (n : Nat) : countWord n (text ++ [NUL]) =
    if text.dropWhile solid = [] then .error .readsPastNul
    else .ok (n + (text.takeWhile solid).length, passBlank (text.dropWhile solid) ++ [NUL]) := by
  induction text generalizing n with
  | nil => rfl
  | cons c rest ih =>
      rw [List.cons_append, countWord]
      by_cases newline : c = NEWLINE
      · have stops : ¬ solid c = true := by simp [solid, newline]
        rw [if_pos newline, List.dropWhile_cons_of_neg stops, List.takeWhile_cons_of_neg stops,
          if_neg (List.cons_ne_nil c rest), passBlank, if_neg (by rw [newline]; decide)]
        rfl
      · rw [if_neg newline]
        by_cases blank : c = BLANK
        · have stops : ¬ solid c = true := by simp [solid, blank]
          rw [if_pos blank, List.dropWhile_cons_of_neg stops, List.takeWhile_cons_of_neg stops,
            if_neg (List.cons_ne_nil c rest), passBlank, if_pos blank]
          rfl
        · have passes : solid c = true := by simp [solid, newline, blank]
          rw [if_neg blank, ih, List.dropWhile_cons_of_pos passes,
            List.takeWhile_cons_of_pos passes, List.length_cons]
          have counted : n + 1 + (rest.takeWhile solid).length =
              n + ((rest.takeWhile solid).length + 1) := by omega
          rw [counted]

private theorem wordOf_length_le (text : List UInt8) : (wordOf text).length ≤ text.length :=
  Nat.le_trans (List.takeWhile_prefix solid).length_le (List.dropWhile_suffix _).length_le

/-- The copy starts at the blanks in front of the word. -/
theorem strncpy_eq {text : List UInt8} (noNul : NUL ∉ text) {size n : Nat} (inside : n ≤ text.length)
    (room : n ≤ size) (des : List UInt8) :
    strncpy size des (text ++ [NUL]) n = .ok (text.take n ++ des.drop n) := by
  have taken : (text ++ [NUL]).take n = text.take n := List.take_append_of_le_length inside
  have whole : (text.take n).takeWhile (fun c => decide (c ≠ NUL)) = text.take n := by
    rw [List.takeWhile_eq_self_iff]
    intro c member
    have plain : c ≠ NUL := fun same => noNul (same ▸ List.mem_of_mem_take member)
    simpa using plain
  have full : n - (text.take n).length = 0 := by
    rw [List.length_take]
    omega
  unfold strncpy
  rw [if_neg (Nat.not_lt.mpr room), taken, whole]
  simp only [full, List.replicate_zero, List.append_nil]

theorem parser_eq {text : List UInt8} (noNul : NUL ∉ text) (size : Nat) (des : List UInt8) :
    parser size des (text ++ [NUL]) =
      if behindWord text = [] then .error .readsPastNul
      else if size < (wordOf text).length then .error .writesPastEnd
      else .ok (text.take (wordOf text).length ++ des.drop (wordOf text).length,
        afterCall text ++ [NUL]) := by
  have counted := countWord_eq (text.dropWhile (· == BLANK)) 0
  rw [Nat.zero_add] at counted
  unfold parser
  rw [skipBlanks_eq]
  change (do
    let (n, str) ← countWord 0 (text.dropWhile (· == BLANK) ++ [NUL])
    let des ← strncpy size des (text ++ [NUL]) n
    pure (des, str)) = _
  rw [counted]
  by_cases ends : behindWord text = []
  · rw [if_pos ends, if_pos (by exact ends)]
    rfl
  · rw [if_neg ends, if_neg (by exact ends)]
    by_cases long : size < (wordOf text).length
    · have overflow : strncpy size des (text ++ [NUL]) (wordOf text).length =
          .error .writesPastEnd := if_pos long
      rw [if_pos long]
      change (do
        let des ← strncpy size des (text ++ [NUL]) (wordOf text).length
        pure (des, afterCall text ++ [NUL])) = _
      rw [overflow]
      rfl
    · rw [if_neg long]
      change (do
        let des ← strncpy size des (text ++ [NUL]) (wordOf text).length
        pure (des, afterCall text ++ [NUL])) = _
      rw [strncpy_eq noNul (wordOf_length_le text) (Nat.not_lt.mp long)]
      rfl

/-! ### What a call finds -/

theorem words_blank (rest : List UInt8) : words (BLANK :: rest) = words rest := by
  have kept : (BLANK :: rest).takeWhile (fun c => decide (c ≠ NEWLINE)) =
      BLANK :: rest.takeWhile (fun c => decide (c ≠ NEWLINE)) :=
    List.takeWhile_cons_of_pos (by decide)
  unfold words
  rw [kept, List.splitOn_eq_splitOnP, List.splitOnP_cons_eq_if_modifyHead,
    if_pos (beq_self_eq_true BLANK), List.filter_cons_of_neg (by simp)]
  rfl

private theorem words_dropWhile (text : List UInt8) :
    words (text.dropWhile (· == BLANK)) = words text := by
  induction text with
  | nil => rfl
  | cons c rest ih =>
      by_cases blank : c = BLANK
      · rw [List.dropWhile_cons_of_pos (by simpa using blank), ih, blank, words_blank]
      · rw [List.dropWhile_cons_of_neg (by simpa using blank)]

private theorem solid_iff {c : UInt8} : solid c = true ↔ c ≠ BLANK ∧ c ≠ NEWLINE := by
  simp [solid]

/-- A word at the end of the line, or none at all. -/
theorem words_last {word behind : List UInt8} (isWord : ∀ c ∈ word, solid c = true)
    (ends : behind = [] ∨ ∃ rest, behind = NEWLINE :: rest) :
    words (word ++ behind) = if word = [] then [] else [word] := by
  have kept : (word ++ behind).takeWhile (fun c => decide (c ≠ NEWLINE)) = word := by
    have all : ∀ c ∈ word, decide (c ≠ NEWLINE) = true := by
      intro c member
      simpa using (solid_iff.mp (isWord c member)).2
    rw [List.takeWhile_append_of_pos all]
    rcases ends with rfl | ⟨rest, rfl⟩
    · rw [List.takeWhile_nil, List.append_nil]
    · rw [List.takeWhile_cons_of_neg (by decide), List.append_nil]
  have single : word.splitOn BLANK = [word] := by
    rw [List.splitOn_eq_splitOnP]
    apply List.splitOnP_eq_singleton
    intro c member
    simpa using (solid_iff.mp (isWord c member)).1
  unfold words
  rw [kept, single]
  by_cases empty : word = []
  · rw [if_pos empty, empty]
    rfl
  · rw [if_neg empty, List.filter_cons_of_pos (by simpa using empty)]
    rfl

/-- A word with a blank behind it. -/
theorem words_next {word : List UInt8} (isWord : ∀ c ∈ word, solid c = true)
    (nonempty : word ≠ []) (rest : List UInt8) :
    words (word ++ BLANK :: rest) = word :: words rest := by
  have kept : (word ++ BLANK :: rest).takeWhile (fun c => decide (c ≠ NEWLINE)) =
      word ++ BLANK :: rest.takeWhile (fun c => decide (c ≠ NEWLINE)) := by
    have all : ∀ c ∈ word, decide (c ≠ NEWLINE) = true := by
      intro c member
      simpa using (solid_iff.mp (isWord c member)).2
    rw [List.takeWhile_append_of_pos all, List.takeWhile_cons_of_pos (by decide)]
  have noBlank : ∀ c ∈ word, (c == BLANK) = false := by
    intro c member
    simpa using (solid_iff.mp (isWord c member)).1
  unfold words
  rw [kept, List.splitOn_eq_splitOnP,
    List.splitOnP_append_cons_of_forall_mem noBlank BLANK (beq_self_eq_true BLANK),
    List.filter_cons_of_pos (by simpa using nonempty), List.splitOn_eq_splitOnP]

private theorem dropWhile_stops {test : UInt8 → Bool} {text rest : List UInt8} {c : UInt8}
    (left : text.dropWhile test = c :: rest) : test c = false := by
  have head := List.head?_dropWhile_not test text
  rw [left] at head
  exact head

/-- The word of a call is the first of the text and the later ones are left, if there is
one, and otherwise nothing is left. -/
theorem words_cases (text : List UInt8) :
    (wordOf text = [] ∧ words text = [] ∧ words (afterCall text) = []) ∨
      words text = wordOf text :: words (afterCall text) := by
  have isWord : ∀ c ∈ wordOf text, solid c = true := fun c member =>
    List.all_eq_true.mp (List.all_takeWhile) c member
  have split : text.dropWhile (· == BLANK) = wordOf text ++ behindWord text :=
    (List.takeWhile_append_dropWhile).symm
  have same := words_dropWhile text
  rw [split] at same
  cases behind : behindWord text with
  | nil =>
      rw [behind] at same
      have last := words_last isWord (Or.inl rfl)
      have nothing : words (afterCall text) = [] := by
        rw [afterCall, behind]
        rfl
      rw [← same, last, nothing]
      by_cases empty : wordOf text = []
      · exact Or.inl ⟨empty, if_pos empty, rfl⟩
      · exact Or.inr (if_neg empty)
  | cons c rest =>
      have stops : ¬ solid c = true := by
        rw [dropWhile_stops behind]
        exact Bool.false_ne_true
      rw [behind] at same
      by_cases blank : c = BLANK
      · subst blank
        have nonempty : wordOf text ≠ [] := by
          intro empty
          rw [empty, behind, List.nil_append] at split
          have stopped : (BLANK == BLANK) = false :=
            @dropWhile_stops (fun c => c == BLANK) text rest BLANK split
          exact Bool.false_ne_true (stopped.symm.trans (beq_self_eq_true BLANK))
        rw [← same, words_next isWord nonempty, afterCall, behind, passBlank, if_pos rfl]
        exact Or.inr rfl
      · have newline : c = NEWLINE := by
          by_contra other
          exact stops (solid_iff.mpr ⟨blank, other⟩)
        have nothing : words (afterCall text) = [] := by
          rw [afterCall, behind, passBlank, if_neg blank, newline]
          have isEmpty : ∀ c ∈ ([] : List UInt8), solid c = true := fun _ member => by cases member
          exact words_last isEmpty (Or.inr ⟨rest, rfl⟩)
        rw [← same, words_last isWord (Or.inr ⟨rest, by rw [newline]⟩), nothing]
        by_cases empty : wordOf text = []
        · exact Or.inl ⟨empty, if_pos empty, rfl⟩
        · exact Or.inr (if_neg empty)

theorem words_headD (text : List UInt8) : (words text).headD [] = wordOf text := by
  rcases words_cases text with ⟨empty, none, _⟩ | some
  · rw [none, empty]
    rfl
  · rw [some]
    rfl

theorem words_tail (text : List UInt8) : (words text).tail = words (afterCall text) := by
  rcases words_cases text with ⟨_, none, nothing⟩ | some
  · rw [none, nothing]
    rfl
  · rw [some]
    rfl

/-- The bytes copied are the word unless blanks stand in front of one. -/
theorem take_eq_word_iff (text : List UInt8) : text.take (wordOf text).length = wordOf text ↔
    (text.head? = some BLANK → wordOf text = []) := by
  cases text with
  | nil => exact iff_of_true rfl (fun _ => rfl)
  | cons c rest =>
      by_cases blank : c = BLANK
      · subst blank
        constructor
        · intro same _
          by_contra some
          rcases List.exists_cons_of_ne_nil some with ⟨first, later, word⟩
          have isSolid : solid first = true :=
            List.all_eq_true.mp List.all_takeWhile first
              (by change first ∈ wordOf (BLANK :: rest); rw [word]; exact List.mem_cons_self)
          rw [word, List.length_cons, List.take_succ_cons, List.cons.injEq] at same
          exact (solid_iff.mp isSolid).1 same.1.symm
        · intro empty
          rw [empty rfl]
          rfl
      · have whole : wordOf (c :: rest) = (c :: rest).takeWhile solid := by
          rw [wordOf, List.dropWhile_cons_of_neg (by simpa using blank)]
        refine iff_of_true ?_ (fun head => absurd (Option.some.inj head) blank)
        rw [whole]
        exact (List.prefix_iff_eq_take.mp (List.takeWhile_prefix solid)).symm

/-- The word has a blank or a newline behind it, fits, and no blank too many in front. -/
structure CleanCall (size : Nat) (text : List UInt8) : Prop where
  delimited : behindWord text ≠ []
  fits : (wordOf text).length ≤ size
  noExtraBlank : text.head? = some BLANK → wordOf text = []

/-- Successive calls with destinations of these sizes. -/
def CleanCalls : List Nat → List UInt8 → Prop
  | [], _ => True
  | size :: sizes, text => CleanCall size text ∧ CleanCalls sizes (afterCall text)

private theorem padded_replicate (text : List UInt8) (size : Nat) :
    text.take (wordOf text).length ++ (List.replicate size NUL).drop (wordOf text).length =
        padded size (wordOf text) ↔ (text.head? = some BLANK → wordOf text = []) := by
  rw [List.drop_replicate, padded, ← take_eq_word_iff]
  constructor
  · exact fun same => List.append_inj_left' same rfl
  · intro same
    rw [same]

theorem CleanCall.parser_eq {text : List UInt8} (noNul : NUL ∉ text) {size : Nat}
    (clean : CleanCall size text) :
    parser size (List.replicate size NUL) (text ++ [NUL]) =
      .ok (padded size (wordOf text), afterCall text ++ [NUL]) := by
  rw [TShell.parser_eq noNul, if_neg clean.delimited, if_neg (Nat.not_lt.mpr clean.fits),
    (padded_replicate text size).mpr clean.noExtraBlank]

/-- A call that stays in bounds and finds its word is clean. -/
theorem CleanCall.of_parser {text des tem : List UInt8} (noNul : NUL ∉ text) {size : Nat}
    (called : parser size (List.replicate size NUL) (text ++ [NUL]) = .ok (des, tem))
    (holds : des = padded size (wordOf text)) : CleanCall size text := by
  rw [TShell.parser_eq noNul] at called
  by_cases ends : behindWord text = []
  · rw [if_pos ends] at called
    cases called
  · rw [if_neg ends] at called
    by_cases long : size < (wordOf text).length
    · rw [if_pos long] at called
      cases called
    · rw [if_neg long] at called
      cases called
      exact ⟨ends, Nat.not_lt.mp long, (padded_replicate text size).mp holds⟩

/-! ### The calls for one line -/

theorem afterCall_subset (text : List UInt8) : afterCall text ⊆ text := by
  have behind : behindWord text ⊆ text := fun c member =>
    (List.dropWhile_suffix _).subset ((List.dropWhile_suffix _).subset member)
  refine List.Subset.trans ?_ behind
  unfold afterCall
  cases behindWord text with
  | nil => exact List.Subset.refl []
  | cons c rest =>
      rw [passBlank]
      split
      · exact List.subset_cons_self c rest
      · exact List.Subset.refl _

private theorem parseAll_holds_iff (sizes : List Nat) {text : List UInt8} (noNul : NUL ∉ text) :
    (∃ fields, parseAll sizes (text ++ [NUL]) = .ok fields ∧
      HoldWords sizes (words text) fields) ↔ CleanCalls sizes text := by
  induction sizes generalizing text with
  | nil => exact iff_of_true ⟨[], rfl, trivial⟩ trivial
  | cons size sizes ih =>
      have rest := @ih (afterCall text) (fun member => noNul (afterCall_subset text member))
      constructor
      · intro parsed
        rcases parsed with ⟨fields, calls, holds⟩
        rcases bind_eq_ok.mp calls with ⟨⟨des, tem⟩, called, later⟩
        rcases bind_eq_ok.mp later with ⟨others, calledLater, result⟩
        cases result
        rcases holds with ⟨first, holdsLater⟩
        rw [words_headD] at first
        rw [words_tail] at holdsLater
        have clean := CleanCall.of_parser noNul called first
        rw [clean.parser_eq noNul] at called
        cases called
        exact ⟨clean, rest.mp ⟨others, calledLater, holdsLater⟩⟩
      · intro both
        rcases both with ⟨clean, cleanLater⟩
        rcases rest.mpr cleanLater with ⟨others, calledLater, holdsLater⟩
        refine ⟨padded size (wordOf text) :: others, ?_, ?_⟩
        · refine bind_eq_ok.mpr ⟨_, clean.parser_eq noNul, ?_⟩
          exact bind_eq_ok.mpr ⟨others, calledLater, rfl⟩
        · refine ⟨by rw [words_headD], ?_⟩
          rw [words_tail]
          exact holdsLater

private theorem parseAll_length {sizes : List Nat} {src : List UInt8} {fields : List (List UInt8)}
    (parsed : parseAll sizes src = .ok fields) : fields.length = sizes.length := by
  induction sizes generalizing src fields with
  | nil =>
      cases parsed
      rfl
  | cons size sizes ih =>
      rcases bind_eq_ok.mp parsed with ⟨⟨des, tem⟩, _, later⟩
      rcases bind_eq_ok.mp later with ⟨others, calledLater, result⟩
      cases result
      rw [List.length_cons, List.length_cons, ih calledLater]

/-- Destinations that are not parsed do not matter. -/
theorem holdWords_append {sizes more : List Nat} {words fields : List (List UInt8)}
    (short : fields.length ≤ sizes.length) :
    HoldWords (sizes ++ more) words fields ↔ HoldWords sizes words fields := by
  induction fields generalizing sizes words with
  | nil => exact iff_of_true (by cases sizes <;> cases more <;> trivial) (by cases sizes <;> trivial)
  | cons des later ih =>
      cases sizes with
      | nil => exact absurd short (Nat.not_succ_le_zero _)
      | cons size sizes => exact and_congr_right fun _ => ih (Nat.le_of_succ_le_succ short)

private theorem argumentSizes_extended (cmd : CmdType) :
    ∃ more, [pNameSize, rNumSize] = argumentSizes cmd ++ more := by
  cases cmd
  all_goals exact ⟨_, rfl⟩

/-- The call for the command is clean, and so are those for its arguments. -/
def CleanLine (line : Line) : Prop :=
  CleanCall commandSize line.bytes ∧
    CleanCalls (argumentSizes (cmdType (padded commandSize (wordOf line.bytes))))
      (afterCall line.bytes)

/-- For any line, `main` parses its words in order and in bounds exactly when each word it
asks for is followed by a blank or a newline, fits its destination and has no blank in
front but the one that ends the word before it. -/
theorem tShell_parser_iff (line : Line) : ParsesWords line ↔ CleanLine line := by
  have noNulLater : NUL ∉ afterCall line.bytes := fun member =>
    line.noNul (afterCall_subset line.bytes member)
  rcases argumentSizes_extended (cmdType (padded commandSize (wordOf line.bytes))) with
    ⟨more, extended⟩
  have arguments := @parseAll_holds_iff
    (argumentSizes (cmdType (padded commandSize (wordOf line.bytes)))) _ noNulLater
  constructor
  · intro parsed
    rcases parsed with ⟨fields, calls, holds⟩
    rcases bind_eq_ok.mp calls with ⟨⟨command, tem⟩, called, later⟩
    rcases bind_eq_ok.mp later with ⟨others, calledLater, result⟩
    cases result
    rcases holds with ⟨first, holdsLater⟩
    rw [words_headD] at first
    have clean := CleanCall.of_parser line.noNul called first
    rw [clean.parser_eq line.noNul] at called
    cases called
    refine ⟨clean, arguments.mp ⟨others, calledLater, ?_⟩⟩
    rw [words_tail, extended,
      holdWords_append (Nat.le_of_eq (parseAll_length calledLater))] at holdsLater
    exact holdsLater
  · intro both
    rcases both with ⟨clean, cleanLater⟩
    rcases arguments.mpr cleanLater with ⟨others, calledLater, holdsLater⟩
    refine ⟨padded commandSize (wordOf line.bytes) :: others, ?_, ?_⟩
    · refine bind_eq_ok.mpr ⟨_, clean.parser_eq line.noNul, ?_⟩
      exact bind_eq_ok.mpr ⟨others, calledLater, rfl⟩
    · refine ⟨by rw [words_headD], ?_⟩
      rw [words_tail, extended,
        holdWords_append (Nat.le_of_eq (parseAll_length calledLater))]
      exact holdsLater

def indentedLine : Line := ⟨ascii " to\n", by decide, by decide, by decide⟩

def openLine : Line := ⟨ascii "to", by decide, by decide, by decide⟩

def longLine : Line := ⟨ascii "create x 1\n", by decide, by decide, by decide⟩

theorem lines_misparsed : ¬ ParsesWords indentedLine ∧ ¬ ParsesWords openLine ∧
    parseLine openLine = .error .readsPastNul ∧ parseLine longLine = .error .writesPastEnd := by
  have reads : parseLine openLine = .error .readsPastNul := by decide
  refine ⟨?_, ?_, reads, by decide⟩
  · intro parsed
    rcases parsed with ⟨fields, calls, holds⟩
    have found : parseLine indentedLine = .ok [ascii " t" ++ [NUL, NUL]] := by decide
    rw [found] at calls
    cases calls
    exact absurd holds.1 (by decide)
  · intro parsed
    rcases parsed with ⟨fields, calls, _⟩
    rw [reads] at calls
    cases calls

end OsCompiler.TShell
