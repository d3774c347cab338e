/-
The scanner with buffers that are large enough for anything, and a text whose end is
checked: `none` stands for a character read behind the terminating null character.

A call that is not the last one moves the pointer on and never past the end of the
text. Where the buffers of the program do not overflow, it does the same.
-/

import Mathlib.Data.Nat.Digits.Defs
import OsCompiler.ParserLex.Tokens

namespace OsCompiler.ParserLex

open TextLines

/-- Buffers that hold any string, and a text that is read up to its null character. -/
@[reducible] def roomy : Buffers where
  holds _ _ := true
  reads length position := position ≤ length
  shorter _ _ := rfl
  inside := decide_eq_true

/-- What `Print` does to buffers that hold the line. -/
def Lexer.print (str : List Char) (num : Nat) (s : Lexer) : Lexer :=
  { s with dydFile := s.dydFile ++ printLine str num, outputs := s.outputs ++ [.printed str num] }

def Lexer.error (info : List Char) (s : Lexer) : Lexer :=
  { s with
    errFile := s.errFile ++ errorLine s.line info
    outputs := s.outputs ++ [.reported s.line info] }

namespace Unbounded

/-- A call with such buffers. -/
abbrev lexAnalyze := @ParserLex.lexAnalyze roomy

end Unbounded

/-! ### Reading on from a position -/

def Lexer.rest (s : Lexer) : List Char := s.code.chars.drop s.project

/-- The scanner that has just read the character at a position. -/
def Lexer.readAt (s : Lexer) (position : Nat) : Lexer :=
  { s with word := s.code.chars.getD position nul, project := position + 1 }

def isBlank (c : Char) : Bool := c == ' '

section Positions

variable {s : Lexer} {position : Nat} {c : Char} {rest : List Char}

/-- A pass over the characters of a class. -/
theorem drop_takeWhile {text left : List Char} (test : Char → Bool)
    (here : text.drop position = left) :
    text.drop (position + (left.takeWhile test).length) = left.dropWhile test := by
  have whole := @List.takeWhile_append_dropWhile _ test left
  have dropped := @List.drop_left _ (left.takeWhile test) (left.dropWhile test)
  rw [whole] at dropped
  rw [← List.drop_drop, here, dropped]

private theorem takeWhile_inside {text : List Char} (test : Char → Bool)
    (inside : position ≤ text.length) :
    position + ((text.drop position).takeWhile test).length ≤ text.length := by
  have short := (List.takeWhile_sublist (l := text.drop position) test).length_le
  rw [List.length_drop] at short
  omega

theorem drop_succ {text : List Char} (here : text.drop position = c :: rest) :
    text.drop (position + 1) = rest := by
  rw [← List.tail_drop, here, List.tail_cons]

theorem lt_of_drop {text : List Char} (here : text.drop position = c :: rest) :
    position < text.length := by
  by_contra beyond
  rw [List.drop_eq_nil_of_le (Nat.le_of_not_lt beyond)] at here
  cases here

theorem readAt_word (s : Lexer) (position : Nat) :
    (s.readAt position).word = (s.code.chars.drop position).headD nul := by
  rw [List.headD_eq_head?_getD, List.head?_drop, ← List.getD_eq_getElem?_getD]
  rfl

theorem word_of_drop_eq_cons (here : s.code.chars.drop position = c :: rest) :
    (s.readAt position).word = c := by
  rw [readAt_word, here]
  rfl

theorem word_of_drop_eq_nil (ended : s.code.chars.drop position = []) :
    (s.readAt position).word = nul := by
  rw [readAt_word, ended]
  rfl

theorem readAt_word_iff {d : Char} (here : s.code.chars.drop position = c :: rest)
    (live : d ≠ nul) : (s.readAt (position + 1)).word = d ↔ rest.head? = some d := by
  rw [readAt_word, drop_succ here]
  cases rest with
  | nil => exact iff_of_false (fun same => live same.symm) (fun same => nomatch same)
  | cons e others => rw [List.headD_cons, List.head?_cons, Option.some.injEq]

section Reading

variable [Buffers]

private theorem getchar1_inside (inside : s.project ≤ s.code.chars.length) :
    getchar1 s = some (s.readAt s.project) :=
  if_pos (Buffers.inside inside)

theorem getchar1_readAt (inside : position < s.code.chars.length) :
    getchar1 (s.readAt position) = some (s.readAt (position + 1)) :=
  @getchar1_inside (s.readAt position) _ inside

private theorem getnbc_readAt :
    getnbc (s.readAt position) = some
      (s.readAt (position + ((s.code.chars.drop position).takeWhile isBlank).length)) := by
  induction here : s.code.chars.drop position generalizing position with
  | nil =>
      rw [getnbc, if_neg]
      · rfl
      · rw [word_of_drop_eq_nil here]
        decide
  | cons c rest ih =>
      by_cases blank : isBlank c = true
      · have space : (s.readAt position).word = ' ' :=
          (word_of_drop_eq_cons here).trans (beq_iff_eq.mp blank)
        have behind : position + (c :: rest.takeWhile isBlank).length =
            position + 1 + (rest.takeWhile isBlank).length := by
          rw [List.length_cons]
          omega
        rw [getnbc, if_pos space, getchar1_readAt (lt_of_drop here),
          List.takeWhile_cons_of_pos blank, behind]
        exact ih (drop_succ here)
      · rw [getnbc, if_neg, List.takeWhile_cons_of_neg blank]
        · rfl
        · rw [word_of_drop_eq_cons here]
          exact fun same => blank (beq_iff_eq.mpr same)

/-- One more character of a lexeme. -/
theorem collect_readAt_succ {test : Char → Bool} {stops : test nul = false}
    (here : s.code.chars.drop position = c :: rest) (inClass : test c = true) :
    collect test stops (s.readAt position) =
      if Buffers.holds TOKENSIZE (s.token.length + 1) = true then
        collect test stops ({ s with token := s.token ++ [c] }.readAt (position + 1))
      else none := by
  have word := word_of_drop_eq_cons here
  have appended : (s.readAt position).append.advance =
      { s with token := s.token ++ [c] }.readAt (position + 1) := by
    rw [← word]
    rfl
  have grown : (concat (s.readAt position)).bind getchar1 =
      if Buffers.holds TOKENSIZE (s.token.length + 1) = true then
        some ({ s with token := s.token ++ [c] }.readAt (position + 1))
      else none := by
    rw [concat_eq, ← appended]
    split
    · rename_i room
      exact (if_pos (Buffers.inside (lt_of_drop here))).trans (if_pos room).symm
    · rename_i full
      exact (if_neg full).symm
  rw [collect, if_pos (word ▸ inClass), grown]
  split
  · rename_i stopped
    split at stopped
    · cases stopped
    · rename_i full
      exact (if_neg full).symm
  · rename_i next read
    rcases Option.ite_none_right_eq_some.mp read with ⟨room, same⟩
    cases same
    exact (if_pos room).symm

/-- A lexeme that the buffer does not hold stops the program while it is collected. -/
theorem collect_readAt {test : Char → Bool} {stops : test nul = false} {lexeme : List Char}
    (short : Buffers.holds TOKENSIZE s.token.length = true)
    (cut : (s.code.chars.drop position).takeWhile test = lexeme) :
    collect test stops (s.readAt position) =
      if Buffers.holds TOKENSIZE (s.token ++ lexeme).length = true then
        some ({ s with token := s.token ++ lexeme }.readAt (position + lexeme.length))
      else none := by
  induction here : s.code.chars.drop position generalizing position s lexeme with
  | nil =>
      have ended : ¬ test (s.readAt position).word = true := by
        rw [word_of_drop_eq_nil here, stops]
        decide
      rw [here, List.takeWhile_nil] at cut
      rw [collect, if_neg ended, ← cut, List.append_nil, if_pos short]
      rfl
  | cons c rest ih =>
      by_cases inClass : test c = true
      · rw [here, List.takeWhile_cons_of_pos inClass] at cut
        have appended : s.token ++ lexeme = s.token ++ [c] ++ rest.takeWhile test :=
          cut ▸ List.append_cons s.token c _
        have behind : position + lexeme.length = position + 1 + (rest.takeWhile test).length := by
          rw [← cut, List.length_cons]
          omega
        rw [collect_readAt_succ here inClass, appended, behind]
        by_cases room : Buffers.holds TOKENSIZE (s.token.length + 1) = true
        · have longer : Buffers.holds TOKENSIZE (s.token ++ [c]).length = true := by
            rw [List.length_append]
            exact room
          have next := drop_succ here
          rw [if_pos room]
          exact @ih { s with token := s.token ++ [c] } (position + 1) _ longer
            (congrArg (List.takeWhile test) next) next
        · have full : ¬ Buffers.holds TOKENSIZE
              (s.token ++ [c] ++ rest.takeWhile test).length = true := by
            intro holds
            apply room
            apply Buffers.shorter _ holds
            rw [List.length_append, List.length_append]
            exact Nat.le_add_right _ _
          rw [if_neg room, if_neg full]
      · have outside : ¬ test (s.readAt position).word = true := by
          rw [word_of_drop_eq_cons here]
          exact inClass
        rw [here, List.takeWhile_cons_of_neg inClass] at cut
        rw [collect, if_neg outside, ← cut, List.append_nil, if_pos short]
        rfl

end Reading

/-- A call begins behind the blanks. -/
theorem getnbc_start (inside : s.project ≤ s.code.chars.length) :
    ∃ position, s.project ≤ position ∧ position ≤ s.code.chars.length ∧
      s.code.chars.drop position = s.rest.dropWhile isBlank ∧
      ∀ buffers : Buffers,
        @getchar1 buffers { s with token := [] } = some ({ s with token := [] }.readAt s.project) ∧
        @getnbc buffers ({ s with token := [] }.readAt s.project) =
          some ({ s with token := [] }.readAt position) :=
  ⟨s.project + (s.rest.takeWhile isBlank).length, Nat.le_add_right _ _,
    takeWhile_inside isBlank inside, drop_takeWhile isBlank rfl,
    fun _ => ⟨@getchar1_inside { s with token := [] } _ inside, getnbc_readAt⟩⟩

end Positions

/-! ### What a call writes -/

def Output.item : Output → Item
  | .printed _ num => .code num
  | .reported _ _ => .illegal

def Output.text : Output → List Char
  | .printed str num => printLine str num
  | .reported line info => errorLine line info

/-- The length of the word or number at the front of a text, 0 for a sign. -/
def lexemeLength (c : Char) (rest : List Char) : Nat :=
  if letter c then (rest.takeWhile wordChar).length + 1
  else if digit c then (rest.takeWhile digit).length + 1
  else 0

def Item.width (line lexeme : Nat) : Item → Nat
  | .code num => if num = 10 then max 16 lexeme + 4 else 20
  | .illegal => 25 + (decimal line).length

theorem decimal_length {number digits : Nat} (positive : 0 < digits)
    (small : number < 10 ^ digits) : (decimal number).length ≤ digits :=
  Nat.toDigits_length 10 number digits positive small

private theorem rjust_length (width : Nat) (text : List Char) :
    (rjust width text).length = max width text.length := by
  rw [rjust, List.length_append, List.length_replicate]
  omega

private theorem printLine_length {str : List Char} {num : Nat} (small : num < 100) :
    (printLine str num).length = max 16 str.length + 4 := by
  have digits : (decimal num).length ≤ 2 := decimal_length (by decide) (by omega)
  rw [printLine, List.length_append, List.length_append, List.length_cons, rjust_length,
    rjust_length, List.length_singleton, max_eq_left digits]

private theorem errorText_length (digits info : List Char) :
    ("**LINE:".toList ++ digits ++ ' ' :: info ++ ['\n']).length =
      digits.length + info.length + 9 := by
  have label : "**LINE:".toList.length = 7 := rfl
  simp only [List.length_append, List.length_cons, List.length_nil, label]
  omega

private theorem errorLine_length (line : Nat) (info : List Char) :
    (errorLine line info).length = (decimal line).length + info.length + 9 :=
  errorText_length (decimal line) info

/-- Nothing has been written yet, and the lexeme is short enough. -/
structure Quiet (s t : Lexer) : Prop where
  token : t.token.length < TOKENSIZE
  outputs : t.outputs = s.outputs
  dydFile : t.dydFile = s.dydFile
  errFile : t.errFile = s.errFile

namespace Unbounded

/-- The lines behind those written before. -/
structure Writes (s : Lexer) (shown : List Output) (next : Lexer) : Prop where
  outputs : next.outputs = s.outputs ++ shown
  dydFile : next.dydFile.length = s.dydFile.length +
    ((shown.filter fun output => output.item ≠ .illegal).map fun output => output.text.length).sum
  errFile : next.errFile.length = s.errFile.length +
    ((shown.filter fun output => output.item = .illegal).map fun output => output.text.length).sum

/-- The scanner has only gone on, past a lexeme that it holds, and has this text left. -/
structure Moved (s : Lexer) (position : Nat) (left : List Char) (lexeme : Nat) (t : Lexer) :
    Prop where
  code : t.code = s.code
  line : t.line = s.line
  token : t.token.length = lexeme
  lower : position < t.project
  upper : t.project ≤ s.code.chars.length
  unread : t.rest = left

/-- What a call has done at a text `c :: rest`. -/
structure Scans (s : Lexer) (position : Nat) (c : Char) (rest : List Char) (more : Bool)
    (next : Lexer) : Prop where
  code : next.code = s.code
  line : ((firstPrinted c rest).1 = [.code 24] ∧ next.line = s.line + 1) ∨
    (.code 24 ∉ (firstPrinted c rest).1 ∧ next.line = s.line)
  token : next.token.length = lexemeLength c rest
  lower : position < next.project
  upper : next.project ≤ s.code.chars.length
  goesOn : more = true ↔ c ≠ eof
  unread : more = true → next.rest = (firstPrinted c rest).2
  written : ∃ shown, Writes s shown next ∧ shown.map Output.item = (firstPrinted c rest).1 ∧
    ∀ output ∈ shown, output.text.length = output.item.width s.line (lexemeLength c rest)

section Cases

variable {s t : Lexer} {position : Nat} {c : Char} {rest left : List Char}

private theorem moved_one (here : s.code.chars.drop position = c :: rest) (empty : s.token = []) :
    Moved s position rest 0 (s.readAt position) where
  code := rfl
  line := rfl
  token := congrArg List.length empty
  lower := Nat.lt_succ_self position
  upper := lt_of_drop here
  unread := drop_succ here

theorem moved_two {d : Char} (here : s.code.chars.drop position = c :: d :: rest)
    (empty : s.token = []) : Moved s position rest 0 (s.readAt (position + 1)) where
  code := rfl
  line := rfl
  token := congrArg List.length empty
  lower := Nat.lt_succ_of_lt (Nat.lt_succ_self position)
  upper := lt_of_drop (drop_succ here)
  unread := drop_succ (drop_succ here)

theorem moved_back (here : s.code.chars.drop position = c :: rest) (empty : s.token = []) :
    Moved s position rest 0 (retract (s.readAt (position + 1))) where
  code := rfl
  line := rfl
  token := congrArg List.length empty
  lower := Nat.lt_succ_self position
  upper := lt_of_drop here
  unread := drop_succ here

theorem writes_none (outputs : t.outputs = s.outputs) (dydFile : t.dydFile = s.dydFile)
    (errFile : t.errFile = s.errFile) : Writes s [] t where
  outputs := by rw [outputs, List.append_nil]
  dydFile := congrArg List.length dydFile
  errFile := congrArg List.length errFile

theorem writes_print (str : List Char) (num : Nat) (nothing : Writes s [] t) :
    Writes s [.printed str num] (Lexer.print str num t) where
  outputs := by
    rw [← List.append_nil s.outputs, ← nothing.outputs]
    rfl
  dydFile := by
    rw [Lexer.print, List.length_append, nothing.dydFile]
    rfl
  errFile := nothing.errFile

private theorem writes_error {info : List Char} (nothing : Writes s [] t) (line : t.line = s.line) :
    Writes s [.reported s.line info] (Lexer.error info t) where
  outputs := by
    rw [← List.append_nil s.outputs, ← nothing.outputs, ← line]
    rfl
  dydFile := nothing.dydFile
  errFile := by
    rw [Lexer.error, List.length_append, nothing.errFile, line]
    rfl

theorem Writes.trans {first second : List Output} {next : Lexer} (before : Writes s first t)
    (behind : Writes t second next) : Writes s (first ++ second) next where
  outputs := by rw [behind.outputs, before.outputs, List.append_assoc]
  dydFile := by
    rw [behind.dydFile, before.dydFile, List.filter_append, List.map_append, List.sum_append,
      Nat.add_assoc]
  errFile := by
    rw [behind.errFile, before.errFile, List.filter_append, List.map_append, List.sum_append,
      Nat.add_assoc]

theorem Moved.print {lexeme num : Nat} {str : List Char} (moved : Moved s position left lexeme t) :
    Moved s position left lexeme (Lexer.print str num t) :=
  ⟨moved.code, moved.line, moved.token, moved.lower, moved.upper, moved.unread⟩

theorem Moved.error {lexeme : Nat} {info : List Char} (moved : Moved s position left lexeme t) :
    Moved s position left lexeme (Lexer.error info t) :=
  ⟨moved.code, moved.line, moved.token, moved.lower, moved.upper, moved.unread⟩

theorem Moved.scans (left : List Char) {shown : List Output}
    (moved : Moved s position left (lexemeLength c rest) t)
    (writes : Writes s shown t) (cut : firstPrinted c rest = (shown.map Output.item, left))
    (noEof : c ≠ eof) (noBreak : .code 24 ∉ shown.map Output.item)
    (widths : ∀ output ∈ shown,
      output.text.length = output.item.width s.line (lexemeLength c rest)) :
    Scans s position c rest true t where
  code := moved.code
  line := Or.inr ⟨by rw [cut]; exact noBreak, moved.line⟩
  token := moved.token
  lower := moved.lower
  upper := moved.upper
  goesOn := iff_of_true rfl noEof
  unread _ := by rw [cut]; exact moved.unread
  written := ⟨shown, writes, by rw [cut], widths⟩

/-- A call that prints one line, for a lexeme or a sign. -/
theorem scans_print {str : List Char} {num : Nat}
    (moved : Moved s position left (lexemeLength c rest) t) (nothing : Writes s [] t)
    (cut : firstPrinted c rest = ([.code num], left)) (noEof : c ≠ eof) (noBreak : num ≠ 24)
    (width : (printLine str num).length = Item.width s.line (lexemeLength c rest) (.code num)) :
    Scans s position c rest true (Lexer.print str num t) := by
  apply moved.print.scans _ (writes_print _ _ nothing) cut noEof
  · intro member
    cases List.mem_singleton.mp member
    exact noBreak rfl
  · intro output member
    rw [List.mem_singleton.mp member]
    exact width

/-- The lines of the signs, and of the words that are no names, are of one width. -/
theorem row_width {str : List Char} {num lexeme line : Nat} (short : str.length ≤ 16)
    (small : num < 100) (noName : num ≠ 10) :
    (printLine str num).length = Item.width line lexeme (.code num) := by
  rw [printLine_length small, Item.width, if_neg noName, max_eq_left short]

theorem scans_sign {str : List Char} {num : Nat} (sign : lexemeLength c rest = 0)
    (moved : Moved s position left 0 t) (nothing : Writes s [] t)
    (cut : firstPrinted c rest = ([.code num], left)) (noEof : c ≠ eof)
    (printed : str.length ≤ 16 ∧ num < 100 ∧ num ≠ 10 ∧ num ≠ 24) :
    Scans s position c rest true (Lexer.print str num t) :=
  scans_print (sign ▸ moved) nothing cut noEof printed.2.2.2
    (row_width printed.1 printed.2.1 printed.2.2.1)

private theorem lessCase_scans (here : s.code.chars.drop position = '<' :: rest)
    (empty : s.token = []) :
    ∃ next, @lessCase roomy (s.readAt position) = some next ∧
      Scans s position '<' rest true next := by
  unfold lessCase
  rw [@getchar1_readAt _ _ roomy (lt_of_drop here), Option.bind_eq_bind, Option.bind_some]
  split
  · rename_i greater
    rw [readAt_word_iff here (by decide)] at greater
    rcases List.head?_eq_some_iff.mp greater with ⟨others, rfl⟩
    exact ⟨_, rfl, scans_sign rfl (moved_two here empty) (writes_none rfl rfl rfl) rfl (by decide)
      (by decide)⟩
  split
  · rename_i equal
    rw [readAt_word_iff here (by decide)] at equal
    rcases List.head?_eq_some_iff.mp equal with ⟨others, rfl⟩
    exact ⟨_, rfl, scans_sign rfl (moved_two here empty) (writes_none rfl rfl rfl) rfl (by decide)
      (by decide)⟩
  · rename_i noGreater noEqual
    rw [readAt_word_iff here (by decide)] at noGreater noEqual
    have alone : ∀ d, rest.head? = some d → operators.lookup ['<', d] = none := by
      intro d head
      have greater : d ≠ '>' := fun same => noGreater (same ▸ head)
      have equal : d ≠ '=' := fun same => noEqual (same ▸ head)
      simp [operators, List.lookup_cons, beq_false_of_ne greater, beq_false_of_ne equal]
    refine ⟨_, rfl, ?_⟩
    apply scans_sign rfl (moved_back here empty) (writes_none rfl rfl rfl) _ (by decide) (by decide)
    exact firstPrinted_sign (by decide) (fun same => absurd same (by decide)) (by decide) rfl rfl
      (by decide) alone

private theorem greaterCase_scans (here : s.code.chars.drop position = '>' :: rest)
    (empty : s.token = []) :
    ∃ next, @greaterCase roomy (s.readAt position) = some next ∧
      Scans s position '>' rest true next := by
  unfold greaterCase
  rw [@getchar1_readAt _ _ roomy (lt_of_drop here), Option.bind_eq_bind, Option.bind_some]
  split
  · rename_i equal
    rw [readAt_word_iff here (by decide)] at equal
    rcases List.head?_eq_some_iff.mp equal with ⟨others, rfl⟩
    exact ⟨_, rfl, scans_sign rfl (moved_two here empty) (writes_none rfl rfl rfl) rfl (by decide)
      (by decide)⟩
  · rename_i noEqual
    rw [readAt_word_iff here (by decide)] at noEqual
    have alone : ∀ d, rest.head? = some d → operators.lookup ['>', d] = none := by
      intro d head
      have equal : d ≠ '=' := fun same => noEqual (same ▸ head)
      simp [operators, List.lookup_cons, beq_false_of_ne equal]
    refine ⟨_, rfl, ?_⟩
    apply scans_sign rfl (moved_back here empty) (writes_none rfl rfl rfl) _ (by decide) (by decide)
    exact firstPrinted_sign (by decide) (fun same => absurd same (by decide)) (by decide) rfl rfl
      (by decide) alone

/-- The case of `':'` goes on behind the character just read, whichever that was. -/
theorem colonCase_moves (here : s.code.chars.drop position = c :: rest) (empty : s.token = []) :
    (∃ t others, rest = '=' :: others ∧
        @colonCase roomy (s.readAt position) = some (Lexer.print "$ASSIGN".toList 20 t) ∧
        Moved s position others 0 t ∧ Writes s [] t) ∨
      ∃ t, rest.head? ≠ some '=' ∧ @colonCase roomy (s.readAt position) = some t ∧
        Moved s position rest 0 t ∧ Writes s [] t := by
  unfold colonCase
  rw [@getchar1_readAt _ _ roomy (lt_of_drop here), Option.bind_eq_bind, Option.bind_some]
  by_cases equal : (s.readAt (position + 1)).word = '='
  · have head := (readAt_word_iff here (by decide)).mp equal
    rcases List.head?_eq_some_iff.mp head with ⟨others, rfl⟩
    left
    refine ⟨_, others, rfl, ?_, moved_two here empty, writes_none rfl rfl rfl⟩
    exact if_pos equal
  · right
    refine ⟨_, ?_, if_neg equal, moved_back here empty, writes_none rfl rfl rfl⟩
    exact fun head => equal ((readAt_word_iff here (by decide)).mpr head)

private theorem colonCase_scans (here : s.code.chars.drop position = ':' :: rest)
    (empty : s.token = []) :
    ∃ next, @colonCase roomy (s.readAt position) = some next ∧
      Scans s position ':' rest true next := by
  rcases colonCase_moves here empty with
    ⟨t, others, rfl, done, moved, nothing⟩ | ⟨t, alone, done, moved, nothing⟩
  · exact ⟨_, done, scans_sign rfl moved nothing rfl (by decide) (by decide)⟩
  · refine ⟨t, done, ?_⟩
    exact Moved.scans _ moved nothing (firstPrinted_colon alone) (by decide) nofun nofun

private theorem starCase_scans (here : s.code.chars.drop position = '*' :: rest)
    (empty : s.token = []) :
    ∃ next, @colonCase roomy (Lexer.print "$MUTIPLY".toList 19 (s.readAt position)) = some next ∧
      Scans s position '*' rest true next := by
  have first : Writes s [.printed "$MUTIPLY".toList 19] (Lexer.print "$MUTIPLY".toList 19 s) :=
    writes_print _ _ (writes_none rfl rfl rfl)
  rcases @colonCase_moves (Lexer.print "$MUTIPLY".toList 19 s) position '*' rest here empty with
    ⟨t, others, rfl, done, moved, nothing⟩ | ⟨t, alone, done, moved, nothing⟩
  · have both := first.trans (writes_print "$ASSIGN".toList 20 nothing)
    refine ⟨_, done, Moved.scans others ?_ both rfl (by decide) (by decide) ?_⟩
    · exact ⟨moved.code, moved.line, moved.token, moved.lower, moved.upper, moved.unread⟩
    · intro output member
      rcases List.mem_pair.mp member with rfl | rfl
      · rfl
      · rfl
  · refine ⟨t, done, Moved.scans rest ?_ (first.trans nothing) ?_ (by decide) (by decide) ?_⟩
    · exact ⟨moved.code, moved.line, moved.token, moved.lower, moved.upper, moved.unread⟩
    · exact firstPrinted_sign (by decide) (fun _ => alone) (by decide) rfl rfl (by decide)
        fun d _ => lookup_pair_none d (by decide)
    · intro output member
      rw [List.mem_singleton.mp member]
      rfl

private theorem newline_scans (here : s.code.chars.drop position = '\n' :: rest)
    (empty : s.token = []) :
    Scans s position '\n' rest true
      { Lexer.print "$EOLN".toList 24 (s.readAt position) with line := s.line + 1 } where
  code := rfl
  line := Or.inl ⟨by rw [firstPrinted_single rest rfl rfl (by decide)]; rfl, rfl⟩
  token := congrArg List.length empty
  lower := Nat.lt_succ_self position
  upper := lt_of_drop here
  goesOn := iff_of_true rfl (by decide)
  unread _ := by
    rw [firstPrinted_single rest rfl rfl (by decide)]
    exact drop_succ here
  written := by
    have one : Writes s [.printed "$EOLN".toList 24]
        (Lexer.print "$EOLN".toList 24 (s.readAt position)) :=
      writes_print _ _ (writes_none rfl rfl rfl)
    refine ⟨_, ⟨one.outputs, one.dydFile, one.errFile⟩, ?_, ?_⟩
    · rw [firstPrinted_single rest rfl rfl (by decide)]
      rfl
    intro output member
    rw [List.mem_singleton.mp member]
    rfl

private theorem eof_scans (here : s.code.chars.drop position = eof :: rest) (empty : s.token = []) :
    Scans s position eof rest false (Lexer.print "$EOF".toList 25 (s.readAt position)) where
  code := rfl
  line := Or.inr ⟨by rw [firstPrinted, if_pos rfl]; decide, rfl⟩
  token := congrArg List.length empty
  lower := Nat.lt_succ_self position
  upper := lt_of_drop here
  goesOn := iff_of_false Bool.false_ne_true fun differ => differ rfl
  unread goesOn := absurd goesOn Bool.false_ne_true
  written := by
    refine ⟨_, writes_print _ _ (writes_none rfl rfl rfl), rfl, ?_⟩
    intro output member
    rw [List.mem_singleton.mp member]
    rfl

/-- The signs that the `switch` names are the operators of the language. -/
theorem lookup_other (noNewline : c ≠ '\n') (noEqual : c ≠ '=') (noLess : c ≠ '<')
    (noGreater : c ≠ '>') (noMinus : c ≠ '-') (noStar : c ≠ '*') (noLeft : c ≠ '(')
    (noRight : c ≠ ')') (noSemi : c ≠ ';') : operators.lookup [c] = none := by
  simp [operators, List.lookup_cons, beq_false_of_ne noNewline, beq_false_of_ne noEqual,
    beq_false_of_ne noLess, beq_false_of_ne noGreater, beq_false_of_ne noMinus,
    beq_false_of_ne noStar, beq_false_of_ne noLeft, beq_false_of_ne noRight,
    beq_false_of_ne noSemi]

private theorem switchWord_scans (here : s.code.chars.drop position = c :: rest)
    (empty : s.token = [])
    (noLetter : letter c = false) (noDigit : digit c = false) (noBlank : c ≠ ' ') :
    ∃ more next, @switchWord roomy (s.readAt position) = some (more, next) ∧
      Scans s position c rest more next := by
  have sign : lexemeLength c rest = 0 := by
    rw [lexemeLength, noLetter, noDigit]
    rfl
  have single : ∀ {str num}, firstPrinted c rest = ([.code num], rest) → c ≠ eof →
      str.length ≤ 16 ∧ num < 100 ∧ num ≠ 10 ∧ num ≠ 24 →
      Scans s position c rest true (Lexer.print str num (s.readAt position)) :=
    scans_sign sign (moved_one here empty) (writes_none rfl rfl rfl)
  unfold switchWord
  rw [word_of_drop_eq_cons here]
  by_cases newline : c = '\n'
  · subst newline
    exact ⟨true, _, if_pos rfl, newline_scans here empty⟩
  rw [if_neg newline]
  by_cases atEof : c = eof
  · subst atEof
    exact ⟨false, _, if_pos rfl, eof_scans here empty⟩
  rw [if_neg atEof]
  have inside : c ≠ nul := by
    rintro rfl
    have member : nul ∈ s.code.chars := List.mem_of_mem_drop (here ▸ List.mem_cons_self)
    exact s.code.isString member
  rw [if_neg inside]
  by_cases equal : c = '='
  · subst equal
    exact ⟨true, _, if_pos rfl, single (firstPrinted_single rest rfl rfl (by decide))
      (by decide) (by decide)⟩
  rw [if_neg equal]
  by_cases less : c = '<'
  · subst less
    rcases lessCase_scans here empty with ⟨next, done, scans⟩
    exact ⟨true, next, by rw [if_pos rfl, done]; rfl, scans⟩
  rw [if_neg less]
  by_cases greater : c = '>'
  · subst greater
    rcases greaterCase_scans here empty with ⟨next, done, scans⟩
    exact ⟨true, next, by rw [if_pos rfl, done]; rfl, scans⟩
  rw [if_neg greater]
  by_cases minus : c = '-'
  · subst minus
    exact ⟨true, _, if_pos rfl, single (firstPrinted_single rest rfl rfl (by decide))
      (by decide) (by decide)⟩
  rw [if_neg minus]
  by_cases star : c = '*'
  · subst star
    rcases starCase_scans here empty with ⟨next, done, scans⟩
    have printed : @print roomy "$MUTIPLY".toList 19 (s.readAt position) =
        some (Lexer.print "$MUTIPLY".toList 19 (s.readAt position)) := rfl
    refine ⟨true, next, ?_, scans⟩
    rw [if_pos rfl, printed, Option.bind_eq_bind, Option.bind_some, done]
    rfl
  rw [if_neg star]
  by_cases colon : c = ':'
  · subst colon
    rcases colonCase_scans here empty with ⟨next, done, scans⟩
    exact ⟨true, next, by rw [if_pos rfl, done]; rfl, scans⟩
  rw [if_neg colon]
  by_cases left : c = '('
  · subst left
    exact ⟨true, _, if_pos rfl, single (firstPrinted_single rest rfl rfl (by decide))
      (by decide) (by decide)⟩
  rw [if_neg left]
  by_cases right : c = ')'
  · subst right
    exact ⟨true, _, if_pos rfl, single (firstPrinted_single rest rfl rfl (by decide))
      (by decide) (by decide)⟩
  rw [if_neg right]
  by_cases semi : c = ';'
  · subst semi
    exact ⟨true, _, if_pos rfl, single (firstPrinted_single rest rfl rfl (by decide))
      (by decide) (by decide)⟩
  rw [if_neg semi]
  have plain : c ∉ [eof, ' ', '*', ':', '<', '>'] := by
    simp only [List.mem_cons, List.not_mem_nil, or_false, not_or]
    exact ⟨atEof, noBlank, star, colon, less, greater⟩
  have shown : firstPrinted c rest = ([.illegal], rest) := by
    rw [firstPrinted_single rest noLetter noDigit plain,
      lookup_other newline equal less greater minus star left right semi]
    rfl
  refine ⟨true, _, rfl, Moved.scans rest ?_
    (writes_error (writes_none rfl rfl rfl) rfl) shown atEof ?_ ?_⟩
  · rw [sign]
    exact (moved_one here empty).error
  · exact fun member => nomatch List.mem_singleton.mp member
  · intro output member
    rw [List.mem_singleton.mp member]
    show (errorLine s.line _).length = 25 + (decimal s.line).length
    rw [errorLine_length]
    show _ + 16 + 9 = _
    omega

/-- The chain of `reserved` goes through the keywords of the language. -/
theorem reserved_eq (name : List Char) : reserved name = (keywords.lookup name).getD 0 := by
  by_cases listed : ∃ num, (name, num) ∈ keywords
  · rcases listed with ⟨num, member⟩
    have every : keywords.all (fun entry =>
        reserved entry.1 == (keywords.lookup entry.1).getD 0) = true := by
      decide
    exact beq_iff_eq.mp (List.all_eq_true.mp every _ member)
  · have absent : ∀ entry ∈ keywords, name ≠ entry.1 :=
      fun entry member same => listed ⟨entry.2, same ▸ member⟩
    have missed : keywords.lookup name = none := by
      rw [List.lookup_eq_none_iff]
      exact fun entry member => bne_iff_ne.mpr (absent entry member)
    rw [missed]
    simp only [keywords, List.forall_mem_cons] at absent
    rcases absent with ⟨noBegin, noEnd, noInteger, noIf, noThen, noElse, noFunction, noRead,
      noWrite, _⟩
    rw [reserved, if_neg noBegin, if_neg noEnd, if_neg noInteger, if_neg noIf, if_neg noThen,
      if_neg noElse, if_neg noFunction, if_neg noRead, if_neg noWrite]
    rfl

private theorem wordCode_eq (name : List Char) :
    wordCode name = if reserved name ≠ 0 then reserved name else 10 := by
  rw [reserved_eq, wordCode]
  cases found : keywords.lookup name with
  | none => rfl
  | some num =>
      have positive : keywords.all (fun entry => entry.2 != 0) = true := by decide
      have live := List.all_eq_true.mp positive _ (mem_of_lookup found)
      rw [Option.getD_some, Option.getD_some, if_pos (bne_iff_ne.mp live)]

private theorem reserved_range (name : List Char) : reserved name < 10 := by
  rw [reserved_eq]
  cases found : keywords.lookup name with
  | none => exact Nat.zero_lt_succ _
  | some num =>
      have small : keywords.all (fun entry => entry.2 < 10) = true := by decide
      exact of_decide_eq_true (List.all_eq_true.mp small _ (mem_of_lookup found))

private theorem num2word_short (num : Nat) : (num2word.getD num []).length ≤ 16 := by
  rw [List.getD_eq_getElem?_getD]
  cases entry : num2word[num]? with
  | none => exact Nat.zero_le _
  | some word =>
      have short : num2word.all (fun word => word.length ≤ 16) = true := by decide
      exact of_decide_eq_true (List.all_eq_true.mp short word (List.mem_of_getElem? entry))

/-- A pass over the characters of a class ends in front of the first one outside it. -/
theorem collect_moves {test : Char → Bool} {stops : test nul = false}
    (here : s.code.chars.drop position = c :: rest) (empty : s.token = [])
    (inClass : test c = true) :
    ∃ t, @collect roomy test stops (s.readAt position) = some t ∧
      (retract t).token = c :: rest.takeWhile test ∧
      Moved s position (rest.dropWhile test) ((rest.takeWhile test).length + 1) (retract t) ∧
      Writes s [] (retract t) := by
  have cut : (s.code.chars.drop position).takeWhile test = c :: rest.takeWhile test := by
    rw [here, List.takeWhile_cons_of_pos inClass]
  have token : s.token ++ c :: rest.takeWhile test = c :: rest.takeWhile test := by
    rw [empty]
    rfl
  have left := drop_takeWhile test here
  rw [List.takeWhile_cons_of_pos inClass, List.dropWhile_cons_of_pos inClass] at left
  have upper := takeWhile_inside test (Nat.le_of_lt (lt_of_drop here))
  rw [cut] at upper
  refine ⟨_, (@collect_readAt s position roomy test stops _ rfl cut).trans (if_pos rfl), token,
    ⟨rfl, rfl, congrArg List.length token, ?_, upper, left⟩, writes_none rfl rfl rfl⟩
  exact Nat.lt_of_lt_of_le (Nat.lt_succ_self position)
    (Nat.add_le_add_left (Nat.succ_pos (rest.takeWhile test).length) position)

private theorem word_scans (here : s.code.chars.drop position = c :: rest) (empty : s.token = [])
    (isLetter : letter c = true) :
    ∃ t, @collect roomy (fun word => digit word || letter word) digit_or_letter_nul
        (s.readAt position) = some t ∧
      (reserved (retract t).token ≠ 0 → Scans s position c rest true
        (Lexer.print (num2word.getD (reserved (retract t).token) []) (reserved (retract t).token)
          (retract t))) ∧
      (reserved (retract t).token = 0 →
        Scans s position c rest true (Lexer.print (retract t).token 10 (retract t))) := by
  have same : (fun word => digit word || letter word) = wordChar :=
    funext fun word => Bool.or_comm _ _
  have inClass : (digit c || letter c) = true := by rw [isLetter, Bool.or_true]
  have long : lexemeLength c rest = (rest.takeWhile wordChar).length + 1 := by
    rw [lexemeLength, if_pos isLetter]
  have noEof : c ≠ eof := fun same => absurd (same ▸ isLetter) (by decide)
  rcases @collect_moves s position c rest (fun word => digit word || letter word) rfl here empty
      inClass with
    ⟨t, collected, token, moved, nothing⟩
  rw [same, ← long] at moved
  rw [same] at token
  have cut := firstPrinted_word rest isLetter
  rw [wordCode_eq, ← token] at cut
  refine ⟨t, collected, fun keyword => ?_, fun name => ?_⟩
  · rw [if_pos keyword] at cut
    have small := reserved_range (retract t).token
    exact scans_print moved nothing cut noEof (by omega)
      (row_width (num2word_short _) (by omega) (Nat.ne_of_lt small))
  · rw [if_neg (not_not.mpr name)] at cut
    apply scans_print moved nothing cut noEof (by decide)
    rw [printLine_length (by decide), Item.width, if_pos rfl, long, token, List.length_cons]

private theorem number_scans (here : s.code.chars.drop position = c :: rest) (empty : s.token = [])
    (noLetter : letter c = false) (isDigit : digit c = true) :
    ∃ t, @collect roomy digit digit_nul (s.readAt position) = some t ∧
      Scans s position c rest true (Lexer.print "$CONSTANT".toList 11 (retract t)) := by
  have long : lexemeLength c rest = (rest.takeWhile digit).length + 1 := by
    rw [lexemeLength, noLetter, isDigit]
    rfl
  have noEof : c ≠ eof := fun same => absurd (same ▸ isDigit) (by decide)
  rcases @collect_moves s position c rest digit rfl here empty isDigit with
    ⟨t, collected, _, moved, nothing⟩
  rw [← long] at moved
  exact ⟨t, collected, scans_print moved nothing (firstPrinted_number rest noLetter isDigit) noEof
    (by decide) (row_width (by decide) (by decide) (by decide))⟩

end Cases

/-- A call at an unread text `c :: rest` behind its blanks. -/
theorem lexAnalyze_scans {s : Lexer} {c : Char} {rest : List Char}
    (inside : s.project ≤ s.code.chars.length) (unread : s.rest.dropWhile isBlank = c :: rest) :
    ∃ position more next, s.project ≤ position ∧ lexAnalyze s = some (more, next) ∧
      Scans s position c rest more next := by
  rcases getnbc_start inside with ⟨position, lower, _, left, start⟩
  have here : s.code.chars.drop position = c :: rest := left.trans unread
  have word : ({ s with token := [] }.readAt position).word = c := word_of_drop_eq_cons here
  have sound : ∃ more next, lexAnalyze s = some (more, next) ∧
      Scans { s with token := [] } position c rest more next := by
    unfold lexAnalyze ParserLex.lexAnalyze
    rw [(start roomy).1, Option.bind_eq_bind, Option.bind_some, (start roomy).2,
      Option.bind_some, word]
    by_cases isLetter : letter c = true
    · rw [if_pos isLetter]
      rcases @word_scans { s with token := [] } position c rest here rfl isLetter with
        ⟨t, collected, keyword, name⟩
      rw [collected, Option.bind_some]
      by_cases listed : reserved (retract t).token ≠ 0
      · exact ⟨true, _, if_pos listed, keyword listed⟩
      · exact ⟨true, _, if_neg listed, name (not_not.mp listed)⟩
    rw [if_neg isLetter]
    have noLetter : letter c = false := Bool.eq_false_iff.mpr isLetter
    by_cases isDigit : digit c = true
    · rw [if_pos isDigit]
      rcases @number_scans { s with token := [] } position c rest here rfl noLetter isDigit with
        ⟨t, collected, scans⟩
      rw [collected, Option.bind_some]
      exact ⟨true, _, rfl, scans⟩
    · rw [if_neg isDigit]
      have noBlank : c ≠ ' ' := by
        have stopped := List.head?_dropWhile_not isBlank s.rest
        rw [unread] at stopped
        exact bne_iff_ne.mp (congrArg not stopped)
      exact @switchWord_scans { s with token := [] } position c rest here rfl noLetter
        (Bool.eq_false_iff.mpr isDigit) noBlank
  rcases sound with ⟨more, next, call, scans⟩
  rcases scans.written with ⟨shown, writes, items, widths⟩
  refine ⟨position, more, next, lower, call, scans.code, scans.line, scans.token, scans.lower,
    scans.upper, scans.goesOn, scans.unread, shown, ?_, items, widths⟩
  exact ⟨writes.outputs, writes.dydFile, writes.errFile⟩

/-- The call at the end of the text. -/
theorem lexAnalyze_ends {s : Lexer} (inside : s.project ≤ s.code.chars.length)
    (unread : s.rest.dropWhile isBlank = []) :
    ∃ next, lexAnalyze s = some (false, next) ∧ next.code = s.code ∧ Quiet s next := by
  rcases getnbc_start inside with ⟨position, _, _, left, start⟩
  have ended : s.code.chars.drop position = [] := left.trans unread
  have word : ({ s with token := [] }.readAt position).word = nul := word_of_drop_eq_nil ended
  refine ⟨{ s with token := [] }.readAt position, ?_, rfl, ⟨?_, rfl, rfl, rfl⟩⟩
  swap
  · show 0 < TOKENSIZE
    decide
  unfold lexAnalyze ParserLex.lexAnalyze switchWord
  rw [(start roomy).1, Option.bind_eq_bind, Option.bind_some, (start roomy).2, Option.bind_some,
    word, if_neg (by decide), if_neg (by decide), if_neg (by decide), if_neg (by decide),
    if_pos rfl]
  rfl

end Unbounded

end OsCompiler.ParserLex
