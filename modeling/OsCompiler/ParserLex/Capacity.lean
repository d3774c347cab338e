/-
Which source files fit the buffers of the program.

A row of the token file takes 20 characters, and more for a name of more than 16; a message
takes 25 and the digits of its line. A file fits exactly when the text that is copied of it
does, no number or name is too long for its buffers, and neither file gets too long.
-/

import OsCompiler.ParserLex.ReadSource
import OsCompiler.ParserLex.Tokenisation

namespace OsCompiler.ParserLex

open TextLines

def scanFile (file : List Char) : Option Lexer := do lexMain (← read file)

/-! ### The lengths of what a text makes -/

def sizedCut : Tokeniser Char (Item × Nat) where
  first c rest :=
    ((firstPrinted c rest).1.map fun item => (item, lexemeLength c rest), (firstPrinted c rest).2)
  shrinks := firstPrinted_shrinks

def sizedItems (text : List Char) : List (Item × Nat) := sizedCut.run text

def rowsLength : List (Item × Nat) → Nat
  | [] => 0
  | (.code num, lexeme) :: rest => (if num = 10 then max 16 lexeme + 4 else 20) + rowsLength rest
  | (.illegal, _) :: rest => rowsLength rest

def messagesLength : Nat → List (Item × Nat) → Nat
  | _, [] => 0
  | line, (.code num, _) :: rest => messagesLength (if num = 24 then line + 1 else line) rest
  | line, (.illegal, _) :: rest => 25 + (decimal line).length + messagesLength line rest

/-- The buffers can hold all that a text makes. -/
structure InLimits (text : List Char) : Prop where
  code : text.length < MAXSIZE
  lexemes : ∀ sized ∈ sizedItems text, sized.2 < TOKENSIZE
  names : ∀ lexeme, (.code 10, lexeme) ∈ sizedItems text → lexeme + 4 < MAXLINE
  dydFile : rowsLength (sizedItems text) < MAXSIZE
  errFile : messagesLength 1 (sizedItems text) < MAXSIZE

/-! ### What is left to write -/

/-- The buffers have room for these items behind what has been written. -/
structure Room (s : Lexer) (items : List (Item × Nat)) : Prop where
  lexemes : ∀ sized ∈ items, sized.2 < TOKENSIZE
  names : ∀ lexeme, (.code 10, lexeme) ∈ items → lexeme + 4 < MAXLINE
  dydFile : s.dydFile.length + rowsLength items < MAXSIZE
  errFile : s.errFile.length + messagesLength s.line items < MAXSIZE

theorem rowsLength_append (first second : List (Item × Nat)) :
    rowsLength (first ++ second) = rowsLength first + rowsLength second := by
  induction first with
  | nil => exact (Nat.zero_add _).symm
  | cons sized rest ih =>
      rcases sized with ⟨num | _, lexeme⟩
      · rw [List.cons_append, rowsLength, rowsLength, ih, Nat.add_assoc]
      · rw [List.cons_append, rowsLength, rowsLength, ih]

private theorem messagesLength_append {line : Nat} {first : List (Item × Nat)}
    (noBreak : ∀ sized ∈ first, sized.1 ≠ .code 24) (second : List (Item × Nat)) :
    messagesLength line (first ++ second) =
      messagesLength line first + messagesLength line second := by
  induction first with
  | nil => exact (Nat.zero_add _).symm
  | cons sized rest ih =>
      rw [List.forall_mem_cons] at noBreak
      rcases sized with ⟨num | _, lexeme⟩
      · have other : num ≠ 24 := fun same => noBreak.1 (congrArg Item.code same)
        rw [List.cons_append, messagesLength, messagesLength, if_neg other, ih noBreak.2]
      · rw [List.cons_append, messagesLength, messagesLength, ih noBreak.2]
        omega

section Written

variable {shown : List Output} {line lexeme : Nat}

private theorem rows_written
    (widths : ∀ output ∈ shown, output.text.length = output.item.width line lexeme) :
    ((shown.filter fun output => output.item ≠ .illegal).map
        fun output => output.text.length).sum =
      rowsLength ((shown.map Output.item).map fun item => (item, lexeme)) := by
  induction shown with
  | nil => rfl
  | cons output rest ih =>
      rw [List.forall_mem_cons] at widths
      have later := ih widths.2
      cases output with
      | printed str num =>
          have width : (Output.printed str num).text.length = _ := widths.1
          rw [List.filter_cons_of_pos (by simp [Output.item]), List.map_cons, List.sum_cons, later,
            width]
          rfl
      | reported line info =>
          rw [List.filter_cons_of_neg (by simp [Output.item]), later]
          rfl

private theorem messages_written
    (widths : ∀ output ∈ shown, output.text.length = output.item.width line lexeme)
    (noBreak : .code 24 ∉ shown.map Output.item) :
    ((shown.filter fun output => output.item = .illegal).map
        fun output => output.text.length).sum =
      messagesLength line ((shown.map Output.item).map fun item => (item, lexeme)) := by
  induction shown with
  | nil => rfl
  | cons output rest ih =>
      rw [List.forall_mem_cons] at widths
      rw [List.map_cons, List.mem_cons, not_or] at noBreak
      have later := ih widths.2 noBreak.2
      cases output with
      | printed str num =>
          have other : num ≠ 24 := fun same => noBreak.1 (congrArg Item.code same.symm)
          rw [List.filter_cons_of_neg (by simp [Output.item]), later, List.map_cons, List.map_cons,
            Output.item, messagesLength, if_neg other]
      | reported at_ info =>
          have width : (Output.reported at_ info).text.length = _ := widths.1
          rw [List.filter_cons_of_pos (by simp [Output.item]), List.map_cons, List.sum_cons, later,
            width]
          rfl

end Written

/-- Where nothing is shown there is no lexeme. -/
theorem lexeme_of_silent {c : Char} {rest : List Char} (silent : (firstPrinted c rest).1 = []) :
    lexemeLength c rest = 0 := by
  unfold lexemeLength
  split
  · rename_i isLetter
    rw [firstPrinted_word rest isLetter] at silent
    cases silent
  split
  · rename_i noLetter isDigit
    rw [firstPrinted_number rest (Bool.eq_false_iff.mpr noLetter) isDigit] at silent
    cases silent
  · rfl

/-! ### One call -/

/-- A scanner whose pointer is in the text and whose files have not overflowed. -/
structure Held (s : Lexer) : Prop where
  inside : s.project ≤ s.code.chars.length
  line : s.line ≤ s.project + 1
  dydFile : s.dydFile.length < MAXSIZE
  errFile : s.errFile.length < MAXSIZE

section OneCall

variable {s next : Lexer} {position : Nat} {c : Char} {rest : List Char} {more : Bool}

theorem Held.line_digits (held : Held s) : (decimal s.line).length ≤ 4 := by
  apply decimal_length (by decide)
  have inBuffer : s.code.chars.length < 2048 := s.code.inBuffer
  have line := held.line
  have inside := held.inside
  omega

theorem Held.scanned (held : Held s) (behind : s.project ≤ position)
    (scans : Unbounded.Scans s position c rest more next) (fits : Fits s next) : Held next where
  inside := by
    rw [scans.code]
    exact scans.upper
  line := by
    have lower := scans.lower
    have line := held.line
    rcases scans.line with ⟨_, same⟩ | ⟨_, same⟩
    · rw [same]
      omega
    · rw [same]
      omega
  dydFile := fits.dydFile.elim id fun same => same ▸ held.dydFile
  errFile := fits.errFile.elim id fun same => same ▸ held.errFile

private theorem shown_scanned (scans : Unbounded.Scans s position c rest more next) :
    (next.outputs.drop s.outputs.length).map Output.item = (firstPrinted c rest).1 ∧
      ∀ output ∈ next.outputs.drop s.outputs.length,
        output.text.length = output.item.width s.line (lexemeLength c rest) := by
  rcases scans.written with ⟨shown, writes, items, widths⟩
  rw [writes.outputs, List.drop_left]
  exact ⟨items, widths⟩

theorem dydFile_scanned (scans : Unbounded.Scans s position c rest more next) :
    next.dydFile.length = s.dydFile.length +
      rowsLength ((firstPrinted c rest).1.map fun item => (item, lexemeLength c rest)) := by
  rcases scans.written with ⟨shown, writes, items, widths⟩
  rw [writes.dydFile, rows_written widths, items]

/-- The messages of one call and of what follows, each with the line it is at. -/
theorem errFile_scanned (scans : Unbounded.Scans s position c rest more next)
    (later : List (Item × Nat)) :
    next.errFile.length + messagesLength next.line later =
      s.errFile.length + messagesLength s.line
        (((firstPrinted c rest).1.map fun item => (item, lexemeLength c rest)) ++ later) := by
  rcases scans.written with ⟨shown, writes, items, widths⟩
  rw [writes.errFile]
  rcases scans.line with ⟨break_, line⟩ | ⟨noBreak, line⟩
  · have single : shown.map Output.item = [.code 24] := items.trans break_
    have none : shown.filter (fun output => output.item = .illegal) = [] := by
      rw [List.filter_eq_nil_iff]
      intro output member
      have code : output.item = .code 24 :=
        List.mem_singleton.mp (single ▸ List.mem_map_of_mem member)
      simp [code]
    rw [none, break_, line]
    rfl
  · rw [messages_written widths (items ▸ noBreak), items, line, messagesLength_append,
      Nat.add_assoc]
    rintro sized member code
    rcases List.mem_map.mp member with ⟨item, shown, rfl⟩
    exact noBreak (code ▸ shown)

private theorem token_fits (scans : Unbounded.Scans s position c rest more next)
    (lexemes : ∀ item ∈ (firstPrinted c rest).1, lexemeLength c rest < TOKENSIZE) :
    next.token.length < TOKENSIZE := by
  rw [scans.token]
  cases cut : (firstPrinted c rest).1 with
  | nil =>
      rw [lexeme_of_silent cut]
      decide
  | cons item others => exact lexemes item (cut ▸ List.mem_cons_self)

/-- A line for a name takes the name and 4 more; the other lines are short enough. -/
theorem lines_fit_iff (held : Held s) (scans : Unbounded.Scans s position c rest more next) :
    (∀ output ∈ next.outputs.drop s.outputs.length, output.text.length < MAXLINE) ↔
      (.code 10 ∈ (firstPrinted c rest).1 → lexemeLength c rest + 4 < MAXLINE) := by
  rcases shown_scanned scans with ⟨items, widths⟩
  rw [← items]
  constructor
  · intro lines name
    rcases List.mem_map.mp name with ⟨output, written, code⟩
    have line := lines output written
    rw [widths output written, code, Item.width, if_pos rfl] at line
    omega
  · intro names output written
    rw [widths output written]
    cases code : output.item with
    | code num =>
        rw [Item.width]
        split
        · rename_i name
          have short := names (List.mem_map.mpr ⟨output, written, by rw [code, name]⟩)
          rw [MAXLINE] at short ⊢
          omega
        · decide
    | illegal =>
        have digits := held.line_digits
        rw [Item.width, MAXLINE]
        omega

private theorem fits_of_room (held : Held s) (scans : Unbounded.Scans s position c rest more next)
    {later : List (Item × Nat)}
    (room : Room s
      (((firstPrinted c rest).1.map fun item => (item, lexemeLength c rest)) ++ later)) :
    Fits s next := by
  have listed : ∀ item ∈ (firstPrinted c rest).1, (item, lexemeLength c rest) ∈
      ((firstPrinted c rest).1.map fun item => (item, lexemeLength c rest)) ++ later :=
    fun item member => List.mem_append_left _ (List.mem_map.mpr ⟨item, member, rfl⟩)
  have rows := room.dydFile
  rw [rowsLength_append] at rows
  have messages := room.errFile
  rw [← errFile_scanned scans] at messages
  have written := dydFile_scanned scans
  refine ⟨?_, ?_, Or.inl (by omega), Or.inl (by omega)⟩
  · exact token_fits scans fun item member => room.lexemes _ (listed item member)
  · exact (lines_fit_iff held scans).mpr fun name => room.names _ (listed _ name)

private theorem room_later (scans : Unbounded.Scans s position c rest more next)
    {later : List (Item × Nat)}
    (room : Room s
      (((firstPrinted c rest).1.map fun item => (item, lexemeLength c rest)) ++ later)) :
    Room next later where
  lexemes sized member := room.lexemes sized (List.mem_append_right _ member)
  names lexeme member := room.names lexeme (List.mem_append_right _ member)
  dydFile := by
    have rows := room.dydFile
    rw [rowsLength_append] at rows
    rw [dydFile_scanned scans]
    omega
  errFile := errFile_scanned scans later ▸ room.errFile

private theorem room_of_fits (held : Held s) (scans : Unbounded.Scans s position c rest more next)
    {later : List (Item × Nat)} (fits : Fits s next) (room : Room next later) :
    Room s (((firstPrinted c rest).1.map fun item => (item, lexemeLength c rest)) ++ later) where
  lexemes sized member := by
    rcases List.mem_append.mp member with here | after
    · rcases List.mem_map.mp here with ⟨item, _, rfl⟩
      rw [← scans.token]
      exact fits.token
    · exact room.lexemes sized after
  names lexeme member := by
    rcases List.mem_append.mp member with here | after
    · rcases List.mem_map.mp here with ⟨item, listed, same⟩
      cases same
      exact (lines_fit_iff held scans).mp fits.lines listed
    · exact room.names lexeme after
  dydFile := by
    have rows := room.dydFile
    rw [dydFile_scanned scans] at rows
    rw [rowsLength_append]
    omega
  errFile := errFile_scanned scans later ▸ room.errFile

/-- The items of one call, behind which others follow. -/
theorem room_iff (held : Held s) (scans : Unbounded.Scans s position c rest more next)
    (later : List (Item × Nat)) :
    Room s (((firstPrinted c rest).1.map fun item => (item, lexemeLength c rest)) ++ later) ↔
      Fits s next ∧ Room next later := by
  constructor
  · intro room
    exact ⟨fits_of_room held scans room, room_later scans room⟩
  · rintro ⟨fits, room⟩
    exact room_of_fits held scans fits room

end OneCall

/-! ### The whole loop -/

theorem sizedItems_dropWhile (text : List Char) :
    sizedItems (text.dropWhile isBlank) = sizedItems text := by
  apply Tokeniser.run_dropWhile
  intro c rest blank
  show ((firstPrinted c rest).1.map _, (firstPrinted c rest).2) = ([], rest)
  rw [beq_iff_eq.mp blank, firstPrinted_blank]
  rfl

theorem sizedItems_cons (c : Char) (rest : List Char) :
    sizedItems (c :: rest) =
      ((firstPrinted c rest).1.map fun item => (item, lexemeLength c rest)) ++
        sizedItems (firstPrinted c rest).2 :=
  sizedCut.run_cons c rest

private theorem room_nil {s : Lexer} (held : Held s) : Room s [] :=
  ⟨nofun, nofun, held.dydFile, held.errFile⟩

/-- The call at the end of the text succeeds; another one does where its lines fit. -/
theorem lexAnalyze_held {s : Lexer} (held : Held s) :
    (s.rest.dropWhile isBlank = [] ∧ ∃ last, lexAnalyze s = some (false, last)) ∨
      ∃ c rest position more next, s.rest.dropWhile isBlank = c :: rest ∧
        s.project ≤ position ∧ Unbounded.Scans s position c rest more next ∧
        ∀ result, lexAnalyze s = some result ↔ result = (more, next) ∧ Fits s next := by
  cases unread : s.rest.dropWhile isBlank with
  | nil =>
      rcases Unbounded.lexAnalyze_ends held.inside unread with ⟨last, ended, _, quiet⟩
      exact Or.inl ⟨rfl, last, (lexAnalyze_narrows held.inside _).mpr ⟨ended, quiet.fits⟩⟩
  | cons c rest =>
      rcases Unbounded.lexAnalyze_scans held.inside unread with
        ⟨position, more, next, behind, call, scans⟩
      right
      refine ⟨c, rest, position, more, next, rfl, behind, scans, fun result => ?_⟩
      rw [lexAnalyze_narrows held.inside, call, Option.some.injEq, eq_comm]
      exact and_congr_right fun same => by rw [same]

private theorem lexLoop_isSome_iff {s : Lexer} (held : Held s) :
    (lexLoop s).isSome = true ↔ Room s (sizedItems s.rest) := by
  induction s using lexLoop.induct with
  | case1 s overflow =>
      have fails : (lexLoop s).isSome = false := by
        rw [lexLoop, overflow]
        rfl
      rcases lexAnalyze_held held with ⟨_, last, call⟩ | ⟨c, rest, position, more, next, unread, _,
        scans, calls⟩
      · cases overflow.symm.trans call
      · rw [fails, ← sizedItems_dropWhile, unread, sizedItems_cons, room_iff held scans]
        refine iff_of_false Bool.false_ne_true fun room => ?_
        cases overflow.symm.trans ((calls _).mpr ⟨rfl, room.1⟩)
  | case2 s next call ih =>
      have goesOn : lexLoop s = lexLoop next := by
        rw [lexLoop, call]
      rcases lexAnalyze_held held with ⟨_, last, ended⟩ | ⟨c, rest, position, more, other, unread,
        behind, scans, calls⟩
      · cases call.symm.trans ended
      · rcases (calls _).mp call with ⟨same, fits⟩
        cases same
        rw [goesOn, ih (held.scanned behind scans fits), ← sizedItems_dropWhile s.rest, unread,
          sizedItems_cons, room_iff held scans, scans.unread rfl]
        exact ⟨fun room => ⟨fits, room⟩, fun both => both.2⟩
  | case3 s last call =>
      have ends : (lexLoop s).isSome = true := by
        rw [lexLoop, call]
        rfl
      rw [ends, ← sizedItems_dropWhile]
      refine iff_of_true rfl ?_
      rcases lexAnalyze_held held with ⟨unread, _, _⟩ | ⟨c, rest, position, more, other, unread,
        behind, scans, calls⟩
      · rw [unread, sizedItems, sizedCut.run_nil]
        exact room_nil held
      · rcases (calls _).mp call with ⟨same, fits⟩
        cases same
        have atEof : c = eof := by
          by_contra inside
          cases scans.goesOn.mpr inside
        have nothing : sizedItems (firstPrinted c rest).2 = [] := by
          rw [firstPrinted, if_pos atEof, sizedItems, sizedCut.run_nil]
        rw [unread, sizedItems_cons, room_iff held scans, nothing]
        exact ⟨fits, room_nil (held.scanned behind scans fits)⟩

private theorem fitsBuffers_iff (source : SourceText) :
    FitsBuffers source ↔ Room (start source) (sizedItems source.chars) :=
  lexLoop_isSome_iff ⟨Nat.zero_le _, Nat.le_refl _, Nat.zero_lt_succ _, Nat.zero_lt_succ _⟩

/-- No buffer overflows while a file is read and scanned exactly when its text is in the limits. -/
theorem scanFile_isSome_iff (file : List Char) :
    (scanFile file).isSome = true ↔ InLimits (copied file) := by
  by_cases inBuffer : (copied file).length < MAXSIZE
  · have source : read file = some ⟨copied file, nul_notMem_copied file, inBuffer⟩ :=
      read_eq_some.mpr rfl
    rw [scanFile, source]
    show FitsBuffers _ ↔ _
    rw [fitsBuffers_iff]
    constructor
    · intro room
      have dydFile := room.dydFile
      have errFile := room.errFile
      refine ⟨inBuffer, room.lexemes, room.names, ?_, ?_⟩
      · rwa [start, List.length_nil, Nat.zero_add] at dydFile
      · rwa [start, List.length_nil, Nat.zero_add] at errFile
    · intro limits
      refine ⟨limits.lexemes, limits.names, ?_, ?_⟩
      · rw [start, List.length_nil, Nat.zero_add]
        exact limits.dydFile
      · rw [start, List.length_nil, Nat.zero_add]
        exact limits.errFile
  · have overflow : read file = none := by
      rw [Option.eq_none_iff_forall_ne_some]
      intro source done
      have inside := source.inBuffer
      rw [read_eq_some.mp done] at inside
      exact inBuffer inside
    rw [scanFile, overflow]
    exact iff_of_false Bool.false_ne_true fun limits => inBuffer limits.code

/-- 103 empty lines, whose rows are 2060 characters -/
theorem emptyLines_overflow : scanFile (List.replicate 103 '\n') = none := by
  decide +kernel

/-! ### Short texts -/

/-- A cut takes a character for each item, and for each of a lexeme. -/
theorem firstPrinted_takes (c : Char) (rest : List Char) :
    (firstPrinted c rest).1.length + (firstPrinted c rest).2.length ≤ rest.length + 1 ∧
      lexemeLength c rest + (firstPrinted c rest).2.length ≤ rest.length + 1 ∧
      ((firstPrinted c rest).1.length ≤ 1 ∨ lexemeLength c rest = 0) := by
  by_cases isLetter : letter c = true
  · have parts := congrArg List.length (List.takeWhile_append_dropWhile (p := wordChar) (l := rest))
    rw [List.length_append] at parts
    rw [firstPrinted_word rest isLetter, lexemeLength, if_pos isLetter, List.length_singleton]
    dsimp only
    exact ⟨by omega, by omega, Or.inl (Nat.le_refl _)⟩
  have noLetter : letter c = false := Bool.eq_false_iff.mpr isLetter
  by_cases isDigit : digit c = true
  · have parts := congrArg List.length (List.takeWhile_append_dropWhile (p := digit) (l := rest))
    rw [List.length_append] at parts
    rw [firstPrinted_number rest noLetter isDigit, lexemeLength, if_neg isLetter, if_pos isDigit,
      List.length_singleton]
    dsimp only
    exact ⟨by omega, by omega, Or.inl (Nat.le_refl _)⟩
  have sign : lexemeLength c rest = 0 := by rw [lexemeLength, if_neg isLetter, if_neg isDigit]
  have shrinks := firstPrinted_shrinks c rest
  refine ⟨?_, by omega, Or.inr sign⟩
  rcases cut_cases c rest with rfl | ⟨rfl, others, rfl⟩ | ⟨rfl, alone⟩ | ⟨noEof, noStar, noColon⟩
  · rw [firstPrinted, if_pos rfl, List.length_singleton, List.length_nil]
    omega
  · exact Nat.le_of_eq (by rw [Nat.add_comm]; rfl)
  · rw [firstPrinted_colon alone]
    show 0 + rest.length ≤ rest.length + 1
    omega
  · rw [firstPrinted_else noEof noStar noColon] at shrinks ⊢
    have one : (firstToken c rest).1.length ≤ 1 := by
      unfold firstToken firstOperator
      rw [if_neg isLetter, if_neg isDigit]
      split
      · exact Nat.zero_le _
      · dsimp only
        split
        · exact Nat.le_refl _
        · split <;> exact Nat.le_refl _
    omega

private theorem rowsLength_le (items : List Item) {lexeme : Nat}
    (few : items.length ≤ 1 ∨ lexeme = 0) :
    rowsLength (items.map fun item => (item, lexeme)) ≤ 20 * max items.length lexeme := by
  induction items with
  | nil => exact Nat.zero_le _
  | cons item rest ih =>
      rw [List.length_cons] at few
      have later : rowsLength (rest.map fun item => (item, lexeme)) ≤ 20 * rest.length := by
        rcases few with single | sign
        · rw [List.length_eq_zero_iff.mp (Nat.le_zero.mp (Nat.le_of_succ_le_succ single))]
          exact Nat.le_refl _
        · have short := ih (Or.inr sign)
          rw [sign, Nat.max_zero] at short
          exact sign ▸ short
      rw [List.map_cons, List.length_cons]
      cases item with
      | code num =>
          rw [rowsLength]
          split <;> omega
      | illegal =>
          rw [rowsLength]
          omega

/-- A character makes at most one item and 20 characters of a row. -/
theorem sizedItems_le (text : List Char) :
    (sizedItems text).length ≤ text.length ∧ rowsLength (sizedItems text) ≤ 20 * text.length ∧
      ∀ sized ∈ sizedItems text, sized.2 ≤ text.length := by
  induction text using sizedCut.induction with
  | empty =>
      rw [sizedItems, sizedCut.run_nil]
      exact ⟨Nat.le_refl _, Nat.le_refl _, nofun⟩
  | step c rest ih =>
      rcases ih with ⟨items, rows, lexemes⟩
      rcases firstPrinted_takes c rest with ⟨each, lexeme, few⟩
      have here := rowsLength_le (firstPrinted c rest).1 few
      have same : (sizedCut.first c rest).2 = (firstPrinted c rest).2 := rfl
      rw [same] at items rows lexemes
      rw [sizedItems_cons, List.length_append, List.length_map, rowsLength_append, List.length_cons]
      refine ⟨by omega, by omega, ?_⟩
      intro sized member
      rcases List.mem_append.mp member with first | later
      · rcases List.mem_map.mp first with ⟨item, _, rfl⟩
        dsimp only
        omega
      · have short := lexemes sized later
        omega

private theorem messagesLength_le {line : Nat} {items : List (Item × Nat)}
    (few : line + items.length < 1000) : messagesLength line items ≤ 28 * items.length := by
  induction items generalizing line with
  | nil => exact Nat.le_refl _
  | cons sized rest ih =>
      rw [List.length_cons] at few ⊢
      rcases sized with ⟨num | _, lexeme⟩
      · rw [messagesLength]
        have later := @ih (if num = 24 then line + 1 else line) (by split <;> omega)
        omega
      · have digits : (decimal line).length ≤ 3 := decimal_length (by decide) (by omega)
        have later := @ih line (by omega)
        rw [messagesLength]
        omega

/-- A text of at most 73 characters is scanned without an overflow, whatever it holds. -/
theorem fitsBuffers_of_short {source : SourceText} (short : source.chars.length ≤ 73) :
    FitsBuffers source := by
  rcases sizedItems_le source.chars with ⟨items, rows, lexemes⟩
  have messages := @messagesLength_le 1 (sizedItems source.chars) (by omega)
  rw [fitsBuffers_iff]
  refine ⟨?_, ?_, ?_, ?_⟩
  · intro sized member
    have lexeme := lexemes sized member
    rw [TOKENSIZE]
    omega
  · intro length member
    have lexeme : length ≤ source.chars.length := lexemes _ member
    rw [MAXLINE]
    omega
  · show 0 + rowsLength (sizedItems source.chars) < 2048
    omega
  · show 0 + messagesLength 1 (sizedItems source.chars) < 2048
    omega

end OsCompiler.ParserLex
