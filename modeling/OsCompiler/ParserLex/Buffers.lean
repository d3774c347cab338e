/-
The buffers of the program: a call does what it would do with large ones, exactly where
its own hold the lexeme, the lines and the files.
-/

import OsCompiler.ParserLex.Unbounded

namespace OsCompiler.ParserLex

/-- The buffers hold the lexeme, each line that is written, and a file that is written to. -/
structure Fits (s next : Lexer) : Prop where
  token : next.token.length < TOKENSIZE
  lines : ∀ output ∈ next.outputs.drop s.outputs.length, output.text.length < MAXLINE
  dydFile : next.dydFile.length < MAXSIZE ∨ next.dydFile = s.dydFile
  errFile : next.errFile.length < MAXSIZE ∨ next.errFile = s.errFile

theorem Quiet.fits {s t : Lexer} (quiet : Quiet s t) : Fits s t where
  token := quiet.token
  lines := by
    rw [quiet.outputs, List.drop_length]
    exact nofun
  dydFile := Or.inr quiet.dydFile
  errFile := Or.inr quiet.errFile

/-- The program returns what it would return with large buffers, where its own hold that. -/
def Narrows {Result : Type} (fits : Result → Prop) (fixed roomy : Option Result) : Prop :=
  ∀ result, fixed = some result ↔ roomy = some result ∧ fits result

section Narrows

variable {Result : Type} {fits : Result → Prop} {s t : Lexer}

theorem narrows_ite {test : Prop} [Decidable test] {yes no yes' no' : Option Result}
    (holds : test → Narrows fits yes yes') (fails : ¬ test → Narrows fits no no') :
    Narrows fits (if test then yes else no) (if test then yes' else no') := by
  by_cases onTrue : test
  · rw [if_pos onTrue, if_pos onTrue]
    exact holds onTrue
  · rw [if_neg onTrue, if_neg onTrue]
    exact fails onTrue

/-- The flag that is returned behind an action. -/
theorem narrows_return {fixed roomy : Option Lexer} {more : Bool}
    (narrows : Narrows (Fits s) fixed roomy) :
    Narrows (fun result : Bool × Lexer => Fits s result.2) (do return (more, ← fixed))
      (do return (more, ← roomy)) := by
  rintro ⟨flag, next⟩
  have returned : ∀ action : Option Lexer,
      (do return (more, ← action) : Option (Bool × Lexer)) = some (flag, next) ↔
        more = flag ∧ action = some next := by
    intro action
    cases action with
    | none => simp
    | some reached => simp
  rw [returned, returned, narrows next, and_assoc]

theorem print_eq_some {str : List Char} {num : Nat} {next : Lexer} :
    print str num t = some next ↔ next = Lexer.print str num t ∧
      (printLine str num).length < MAXLINE ∧
      t.dydFile.length + (printLine str num).length < MAXSIZE := by
  simp only [print, strcat, Buffers.holds, decide_eq_true_eq, List.length_nil, Nat.zero_add,
    List.nil_append]
  by_cases line : (printLine str num).length < MAXLINE
  · by_cases file : t.dydFile.length + (printLine str num).length < MAXSIZE
    · simp [line, file, Lexer.print, eq_comm]
    · simp [line, file]
  · simp [line]

private theorem error_eq_some {info : List Char} {next : Lexer} :
    error info t = some next ↔ next = Lexer.error info t ∧
      (errorLine t.line info).length < MAXLINE ∧
      t.errFile.length + (errorLine t.line info).length < MAXSIZE := by
  simp only [error, strcat, Buffers.holds, decide_eq_true_eq, List.length_nil, Nat.zero_add,
    List.nil_append]
  by_cases line : (errorLine t.line info).length < MAXLINE
  · by_cases file : t.errFile.length + (errorLine t.line info).length < MAXSIZE
    · simp [line, file, Lexer.error, eq_comm]
    · simp [line, file]
  · simp [line]

private theorem fits_one {next : Lexer} {output : Output} (token : next.token.length < TOKENSIZE)
    (outputs : next.outputs = s.outputs ++ [output]) :
    Fits s next ↔ output.text.length < MAXLINE ∧
      (next.dydFile.length < MAXSIZE ∨ next.dydFile = s.dydFile) ∧
      (next.errFile.length < MAXSIZE ∨ next.errFile = s.errFile) := by
  have shown : next.outputs.drop s.outputs.length = [output] := by
    rw [outputs, List.drop_left]
  constructor
  · intro fits
    exact ⟨fits.lines output (shown ▸ List.mem_singleton_self output), fits.dydFile,
      fits.errFile⟩
  · rintro ⟨line, dydFile, errFile⟩
    refine ⟨token, ?_, dydFile, errFile⟩
    rw [shown]
    intro other member
    exact List.mem_singleton.mp member ▸ line

/-- A file that has grown must have room for what was written. -/
theorem grown_iff {before after added : List Char} (grown : after = before ++ added)
    (nonempty : added ≠ []) :
    (after.length < MAXSIZE ∨ after = before) ↔ before.length + added.length < MAXSIZE := by
  rw [grown, List.length_append, or_iff_left]
  exact fun same => nonempty (List.append_right_eq_self.mp same.symm.symm)

private theorem printLine_ne_nil (str : List Char) (num : Nat) : printLine str num ≠ [] :=
  List.append_ne_nil_of_right_ne_nil _ (List.cons_ne_nil _ _)

private theorem errorLine_ne_nil (line : Nat) (info : List Char) : errorLine line info ≠ [] :=
  List.append_ne_nil_of_right_ne_nil _ (List.cons_ne_nil _ _)

theorem narrows_print {str : List Char} {num : Nat} (quiet : Quiet s t) :
    Narrows (Fits s) (print str num t) (@print roomy str num t) := by
  intro next
  show _ ↔ some (Lexer.print str num t) = some next ∧ _
  rw [print_eq_some, Option.some.injEq, eq_comm (a := next)]
  apply and_congr_right
  rintro rfl
  have one := @fits_one s (Lexer.print str num t) (.printed str num) quiet.token
    (congrArg (· ++ [_]) quiet.outputs)
  have file : (Lexer.print str num t).dydFile = s.dydFile ++ printLine str num :=
    congrArg (· ++ printLine str num) quiet.dydFile
  have other : (Lexer.print str num t).errFile = s.errFile := quiet.errFile
  rw [one, grown_iff file (printLine_ne_nil str num), and_iff_left (Or.inr other), quiet.dydFile]
  rfl

private theorem narrows_error {info : List Char} (quiet : Quiet s t) :
    Narrows (Fits s) (error info t) (@error roomy info t) := by
  intro next
  show _ ↔ some (Lexer.error info t) = some next ∧ _
  rw [error_eq_some, Option.some.injEq, eq_comm (a := next)]
  apply and_congr_right
  rintro rfl
  have one := @fits_one s (Lexer.error info t) (.reported t.line info) quiet.token
    (congrArg (· ++ [_]) quiet.outputs)
  have file : (Lexer.error info t).errFile = s.errFile ++ errorLine t.line info :=
    congrArg (· ++ errorLine t.line info) quiet.errFile
  have other : (Lexer.error info t).dydFile = s.dydFile := quiet.dydFile
  rw [one, grown_iff file (errorLine_ne_nil t.line info), and_iff_right (Or.inr other),
    quiet.errFile]
  rfl

private theorem narrows_some {result : Result} (holds : fits result) :
    Narrows fits (some result) (some result) := by
  intro other
  rw [Option.some.injEq]
  exact ⟨fun same => ⟨same, same ▸ holds⟩, fun both => both.1⟩

/-- A call that has printed something fits exactly when that and what follows does. -/
theorem fits_behind_print {next : Lexer} {shown : List Output} {str : List Char} {num : Nat}
    (quiet : Quiet s t) (behind : Unbounded.Writes (Lexer.print str num t) shown next)
    (errFile : next.errFile = s.errFile) :
    Fits s next ↔ ((printLine str num).length < MAXLINE ∧
        t.dydFile.length + (printLine str num).length < MAXSIZE) ∧
      Fits (Lexer.print str num t) next := by
  have first : (Lexer.print str num t).outputs = s.outputs ++ [.printed str num] :=
    congrArg (· ++ [_]) quiet.outputs
  have file : (Lexer.print str num t).dydFile.length =
      s.dydFile.length + (printLine str num).length := by
    rw [Lexer.print, List.length_append, quiet.dydFile]
  have longer := List.length_pos_iff.mpr (printLine_ne_nil str num)
  have earlier : next.outputs.drop (Lexer.print str num t).outputs.length = shown := by
    rw [behind.outputs, List.drop_left]
  have all : next.outputs.drop s.outputs.length = .printed str num :: shown := by
    rw [behind.outputs, first, List.append_assoc, List.drop_left]
    rfl
  have grown := behind.dydFile
  rw [quiet.dydFile]
  constructor
  · intro fits
    have lines := fits.lines
    rw [all, List.forall_mem_cons] at lines
    have room : next.dydFile.length < MAXSIZE := by
      rcases fits.dydFile with room | same
      · exact room
      · rw [same] at grown
        omega
    exact ⟨⟨lines.1, by omega⟩, fits.token, earlier ▸ lines.2, Or.inl room,
      Or.inr (errFile.trans quiet.errFile.symm)⟩
  · rintro ⟨⟨line, room⟩, fits⟩
    refine ⟨fits.token, ?_, ?_, Or.inr errFile⟩
    · rw [all, List.forall_mem_cons]
      exact ⟨line, earlier ▸ fits.lines⟩
    · left
      rcases fits.dydFile with room | same
      · exact room
      · rw [same]
        omega

section Cases

variable {position : Nat} {c : Char} {rest : List Char}

/-- Reading on in the text needs no buffer. -/
theorem narrows_getchar1 {behind behind' : Lexer → Option Result}
    (inside : position < s.code.chars.length)
    (narrows : Narrows fits (behind (s.readAt (position + 1)))
      (behind' (s.readAt (position + 1)))) :
    Narrows fits ((getchar1 (s.readAt position)).bind behind)
      ((@getchar1 roomy (s.readAt position)).bind behind') := by
  rw [getchar1_readAt inside, @getchar1_readAt _ _ roomy inside]
  exact narrows

private theorem lessCase_narrows (inside : position < s.code.chars.length)
    (short : s.token.length < TOKENSIZE) :
    Narrows (Fits s) (lessCase (s.readAt position)) (@lessCase roomy (s.readAt position)) := by
  have printed : ∀ {str num}, Narrows (Fits s) (print str num (s.readAt (position + 1)))
      (@print roomy str num (s.readAt (position + 1))) :=
    narrows_print ⟨short, rfl, rfl, rfl⟩
  have back : Narrows (Fits s) (print "$L".toList 15 (retract (s.readAt (position + 1))))
      (@print roomy "$L".toList 15 (retract (s.readAt (position + 1)))) :=
    narrows_print ⟨short, rfl, rfl, rfl⟩
  unfold lessCase
  apply narrows_getchar1 inside
  exact narrows_ite (fun _ => printed) fun _ => narrows_ite (fun _ => printed) fun _ => back

private theorem greaterCase_narrows (inside : position < s.code.chars.length)
    (short : s.token.length < TOKENSIZE) :
    Narrows (Fits s) (greaterCase (s.readAt position))
      (@greaterCase roomy (s.readAt position)) := by
  have printed : Narrows (Fits s) (print "$GE".toList 16 (s.readAt (position + 1)))
      (@print roomy "$GE".toList 16 (s.readAt (position + 1))) :=
    narrows_print ⟨short, rfl, rfl, rfl⟩
  have back : Narrows (Fits s) (print "$G".toList 17 (retract (s.readAt (position + 1))))
      (@print roomy "$G".toList 17 (retract (s.readAt (position + 1)))) :=
    narrows_print ⟨short, rfl, rfl, rfl⟩
  unfold greaterCase
  apply narrows_getchar1 inside
  exact narrows_ite (fun _ => printed) fun _ => back

private theorem colonCase_narrows (inside : position < s.code.chars.length)
    (short : s.token.length < TOKENSIZE) :
    Narrows (Fits s) (colonCase (s.readAt position)) (@colonCase roomy (s.readAt position)) := by
  have printed : Narrows (Fits s) (print "$ASSIGN".toList 20 (s.readAt (position + 1)))
      (@print roomy "$ASSIGN".toList 20 (s.readAt (position + 1))) :=
    narrows_print ⟨short, rfl, rfl, rfl⟩
  have quiet : Quiet s (retract (s.readAt (position + 1))) := ⟨short, rfl, rfl, rfl⟩
  unfold colonCase
  apply narrows_getchar1 inside
  exact narrows_ite (fun _ => printed) fun _ => narrows_some quiet.fits

private theorem colonCase_writes {next : Lexer} (inside : position < s.code.chars.length)
    (done : @colonCase roomy (s.readAt position) = some next) :
    (∃ shown, Unbounded.Writes s shown next) ∧ next.errFile = s.errFile := by
  unfold colonCase at done
  rw [@getchar1_readAt _ _ roomy inside, Option.bind_eq_bind, Option.bind_some] at done
  split at done
  · cases done
    exact ⟨⟨_, Unbounded.writes_print _ _ (Unbounded.writes_none rfl rfl rfl)⟩, rfl⟩
  · cases done
    exact ⟨⟨[], Unbounded.writes_none rfl rfl rfl⟩, rfl⟩

private theorem starCase_narrows (inside : position < s.code.chars.length)
    (short : s.token.length < TOKENSIZE) :
    Narrows (Fits s)
      (do
        let s ← print "$MUTIPLY".toList 19 (s.readAt position)
        colonCase s)
      (do
        let s ← @print roomy "$MUTIPLY".toList 19 (s.readAt position)
        @colonCase roomy s) := by
  intro next
  show _ ↔ @colonCase roomy (Lexer.print "$MUTIPLY".toList 19 (s.readAt position)) = some next ∧ _
  -- what was printed does not matter to reading on
  have moved : Lexer.print "$MUTIPLY".toList 19 (s.readAt position) =
      (Lexer.print "$MUTIPLY".toList 19 s).readAt position := rfl
  have second := @colonCase_narrows (Lexer.print "$MUTIPLY".toList 19 s) position inside short
    next
  have whole : @colonCase roomy ((Lexer.print "$MUTIPLY".toList 19 s).readAt position) =
      some next → (Fits s next ↔ ((printLine "$MUTIPLY".toList 19).length < MAXLINE ∧
        s.dydFile.length + (printLine "$MUTIPLY".toList 19).length < MAXSIZE) ∧
          Fits (Lexer.print "$MUTIPLY".toList 19 s) next) := by
    intro done
    rcases colonCase_writes (s := Lexer.print "$MUTIPLY".toList 19 s) inside done with
      ⟨⟨shown, writes⟩, errFile⟩
    exact fits_behind_print (t := s) ⟨short, rfl, rfl, rfl⟩ writes errFile
  rw [Option.bind_eq_bind, Option.bind_eq_some_iff, moved]
  constructor
  · rintro ⟨t, printed, done⟩
    rcases print_eq_some.mp printed with ⟨rfl, room⟩
    rcases second.mp done with ⟨done, behind⟩
    exact ⟨done, (whole done).mpr ⟨room, behind⟩⟩
  · rintro ⟨done, fits⟩
    rcases (whole done).mp fits with ⟨room, behind⟩
    exact ⟨_, print_eq_some.mpr ⟨rfl, room⟩, second.mpr ⟨done, behind⟩⟩

private theorem switchWord_narrows (short : s.token.length < TOKENSIZE)
    (live : (s.readAt position).word ≠ nul → position < s.code.chars.length) :
    Narrows (fun result : Bool × Lexer => Fits s result.2) (switchWord (s.readAt position))
      (@switchWord roomy (s.readAt position)) := by
  have quiet : Quiet s (s.readAt position) := ⟨short, rfl, rfl, rfl⟩
  have single : ∀ {more str num}, Narrows (fun result : Bool × Lexer => Fits s result.2)
      (do return (more, ← print str num (s.readAt position)))
      (do return (more, ← @print roomy str num (s.readAt position))) :=
    narrows_return (narrows_print quiet)
  have ended : Narrows (fun result : Bool × Lexer => Fits s result.2)
      (some (false, s.readAt position)) (some (false, s.readAt position)) :=
    narrows_some quiet.fits
  have inside : ∀ {sign}, sign ≠ nul → (s.readAt position).word = sign →
      position < s.code.chars.length :=
    fun sign here => live (here ▸ sign)
  unfold switchWord
  apply narrows_ite
  · rintro _ ⟨more, next⟩
    have printed := @narrows_print _ _ "$EOLN".toList 24 quiet
      (Lexer.print "$EOLN".toList 24 (s.readAt position))
    show _ ↔ some (true, { Lexer.print "$EOLN".toList 24 (s.readAt position) with
      line := s.line + 1 }) = some (more, next) ∧ _
    rw [Option.bind_eq_bind, Option.bind_eq_some_iff, Option.some.injEq]
    constructor
    · rintro ⟨t, done, returned⟩
      have same := (print_eq_some.mp done).1
      subst same
      cases returned
      have fits := (printed.mp done).2
      exact ⟨rfl, fits.token, fits.lines, fits.dydFile, fits.errFile⟩
    · rintro ⟨returned, fits⟩
      cases returned
      have done := printed.mpr ⟨rfl, fits.token, fits.lines, fits.dydFile, fits.errFile⟩
      exact ⟨_, done, rfl⟩
  intro _
  apply narrows_ite (fun _ => single)
  intro _
  apply narrows_ite (fun _ => ended)
  intro _
  apply narrows_ite (fun _ => single)
  intro _
  apply narrows_ite (fun less => narrows_return (lessCase_narrows (inside (by decide) less) short))
  intro _
  apply narrows_ite
    (fun greater => narrows_return (greaterCase_narrows (inside (by decide) greater) short))
  intro _
  apply narrows_ite (fun _ => single)
  intro _
  apply narrows_ite
  · intro star
    have both := @narrows_return _ _ _ true (starCase_narrows (inside (by decide) star) short)
    rw [bind_assoc] at both
    exact both
  intro _
  apply narrows_ite
    (fun colon => narrows_return (colonCase_narrows (inside (by decide) colon) short))
  intro _
  apply narrows_ite (fun _ => single)
  intro _
  apply narrows_ite (fun _ => single)
  intro _
  apply narrows_ite (fun _ => single)
  intro _
  exact narrows_return (narrows_error quiet)

/-- A lexeme that the buffer does not hold stops the program while it is collected. -/
theorem collect_narrows {test : Char → Bool} {stops : test nul = false}
    {behind behind' : Lexer → Option (Bool × Lexer)} {u : Lexer}
    (collected : @collect roomy test stops (s.readAt position) = some u)
    (short : s.token.length < TOKENSIZE)
    (narrows : u.token.length < TOKENSIZE →
      Narrows (fun result => Fits t result.2) (behind u) (behind' u))
    (token : ∀ result, behind' u = some result → result.2.token = u.token) :
    Narrows (fun result => Fits t result.2) ((collect test stops (s.readAt position)).bind behind)
      ((@collect roomy test stops (s.readAt position)).bind behind') := by
  have whole := (@collect_readAt s position roomy test stops _ rfl rfl).trans (if_pos rfl)
  cases collected.symm.trans whole
  rw [collected, collect_readAt (decide_eq_true short) rfl, Option.bind_some]
  split
  · rename_i room
    exact narrows (of_decide_eq_true room)
  · rename_i full
    intro result
    constructor
    · exact nofun
    · rintro ⟨done, fits⟩
      have same : result.2.token = s.token ++ _ := token result done
      exact absurd (decide_eq_true (same ▸ fits.token)) full

/-- A call does what it would do with large buffers, exactly where its own hold that. -/
theorem lexAnalyze_narrows (inside : s.project ≤ s.code.chars.length) :
    Narrows (fun result : Bool × Lexer => Fits s result.2) (lexAnalyze s)
      (Unbounded.lexAnalyze s) := by
  rcases getnbc_start inside with ⟨position, _, _, _, start⟩
  have collects : ∀ test stops, ∃ u,
      @collect roomy test stops ({ s with token := [] }.readAt position) = some u ∧
        (u.token.length < TOKENSIZE → Quiet s (retract u)) :=
    fun test stops => ⟨_, (@collect_readAt { s with token := [] } position roomy test stops _ rfl
      rfl).trans (if_pos rfl), fun short => ⟨short, rfl, rfl, rfl⟩⟩
  have empty : ({ s with token := [] }.readAt position).token.length < TOKENSIZE := by
    show 0 < TOKENSIZE
    decide
  unfold Unbounded.lexAnalyze lexAnalyze
  rw [(start declared).1, (start roomy).1, Option.bind_eq_bind, Option.bind_some,
    Option.bind_some, (start declared).2, (start roomy).2, Option.bind_some, Option.bind_some]
  apply narrows_ite
  · intro _
    rcases collects (fun word => digit word || letter word) digit_or_letter_nul with
      ⟨u, collected, quiet⟩
    apply collect_narrows collected empty
    · intro room
      exact narrows_ite (fun _ => narrows_return (narrows_print (quiet room)))
        fun _ => narrows_return (narrows_print (quiet room))
    · intro result done
      dsimp only at done
      split at done <;> cases done <;> rfl
  intro _
  apply narrows_ite
  · intro _
    rcases collects digit digit_nul with ⟨u, collected, quiet⟩
    apply collect_narrows collected empty
    · exact fun room => narrows_return (narrows_print (quiet room))
    · intro result done
      cases done
      rfl
  intro _
  have live : ({ s with token := [] }.readAt position).word ≠ nul →
      position < s.code.chars.length := by
    intro word
    by_contra beyond
    exact word (word_of_drop_eq_nil (List.drop_eq_nil_of_le (Nat.le_of_not_lt beyond)))
  have narrows := @switchWord_narrows { s with token := [] } position empty live
  intro result
  rw [narrows result]
  exact and_congr_right fun _ =>
    ⟨fun fits => ⟨fits.token, fits.lines, fits.dydFile, fits.errFile⟩,
      fun fits => ⟨fits.token, fits.lines, fits.dydFile, fits.errFile⟩⟩

end Cases

/-- What the program does is what it would do with such buffers. -/
theorem lexAnalyze_unbounded {next : Lexer} {more : Bool}
    (inside : s.project ≤ s.code.chars.length) (call : lexAnalyze s = some (more, next)) :
    Unbounded.lexAnalyze s = some (more, next) :=
  ((lexAnalyze_narrows inside _).mp call).1

end Narrows

end OsCompiler.ParserLex
