/-
The main loop of tShell over a script: each line is parsed and dispatched, and what a
script does is what the commands do that its words spell.

A destination that a line does not parse is zero. `Create` and `Destroy` read `pName` up
to its NUL, so a name that fills it makes them read on behind it.
-/

import OsCompiler.TShell.Commands
import OsCompiler.TShell.Parser

namespace OsCompiler.TShell

open OsCompiler.Transition

/-- How a script ends before its last line. -/
inductive Crash
  | parse (fault : Fault)
  | unterminated
  | stop (stop : Stop)
  deriving DecidableEq

def numOf (rNum : List UInt8) : Int := (rNum.headD NUL).toBitVec.toInt - 48

def ridOf (pName : List UInt8) : Option Rid :=
  if cString pName = ascii "R1" then some .R1
  else if cString pName = ascii "R2" then some .R2
  else if cString pName = ascii "R3" then some .R3
  else if cString pName = ascii "R4" then some .R4
  else none

/-- The name that `strcpy` and `strcmp` read, if a NUL ends it. -/
def nameOf (pName : List UInt8) : Option Name :=
  let chars := (cString pName).map fun c => Char.ofNat c.toNat
  if fits : chars.length < NAME_LEN then some ⟨chars, fits⟩ else none

def stopped (result : Except Stop Shell) : Except Crash Shell := result.mapError .stop

/-- What `main` does with the destinations `command`, `pName` and `rNum`. -/
def dispatch (shell : Shell) (command pName rNum : List UInt8) : Except Crash Shell :=
  match cmdType command with
  | .CR =>
      match nameOf pName with
      | some name => stopped (shell.exec (.cr name (numOf rNum)))
      | none => throw .unterminated
  | .REQ =>
      match ridOf pName with
      | some rid => stopped (shell.exec (.req rid (numOf rNum)))
      | none => pure shell
  | .REL =>
      match ridOf pName with
      | some rid => stopped (shell.exec (.rel rid (numOf rNum)))
      | none => pure shell
  | .DE =>
      match nameOf pName with
      | some name => stopped (shell.exec (.de name))
      | none => throw .unterminated
  | .TO => stopped (shell.exec .to)
  | .LS => pure shell
  | .unknown => pure shell

def mainLine (shell : Shell) (line : Line) : Except Crash Shell := do
  let fields ← (parseLine line).mapError .parse
  dispatch shell (fields.getD 0 (List.replicate commandSize NUL))
    (fields.getD 1 (List.replicate pNameSize NUL)) (fields.getD 2 (List.replicate rNumSize NUL))

def main (lines : List Line) : Except Crash Shell := do
  let shell ← stopped Shell.initProcess
  lines.foldlM mainLine shell

/-! ### The commands that the words of a script spell -/

/-- The command of three words; a word that is not there is empty. -/
def commandOf (words : List (List UInt8)) : Option Command :=
  let pName := words.tail.headD []
  let rNum := words.tail.tail.headD []
  match cmdType (words.headD []) with
  | .CR => (nameOf pName).map fun name => .cr name (numOf rNum)
  | .REQ => (ridOf pName).map fun rid => .req rid (numOf rNum)
  | .REL => (ridOf pName).map fun rid => .rel rid (numOf rNum)
  | .DE => (nameOf pName).map .de
  | .TO => some .to
  | .LS => none
  | .unknown => none

/-- Each line parses cleanly, and a name for `cr` or `de` leaves room for its NUL. -/
structure ProperLine (line : Line) : Prop where
  clean : CleanLine line
  named : cmdType ((words line.bytes).headD []) = .CR ∨
    cmdType ((words line.bytes).headD []) = .DE →
      ((words line.bytes).tail.headD []).length < NAME_LEN

/-! ### What the destinations hold -/

theorem cString_eq {word : List UInt8} (noNul : NUL ∉ word) : cString word = word :=
  List.takeWhile_eq_self_iff.mpr fun _ member =>
    decide_eq_true fun same => noNul (same ▸ member)

theorem cString_padded {word : List UInt8} (noNul : NUL ∉ word) (size : Nat) :
    cString (padded size word) = cString word := by
  rw [cString_eq noNul, cString, padded, List.takeWhile_append_of_pos]
  · cases size - word.length with
    | zero => rw [List.replicate_zero, List.takeWhile_nil, List.append_nil]
    | succ further =>
        rw [List.replicate_succ, List.takeWhile_cons_of_neg (by simp), List.append_nil]
  · intro c member
    exact decide_eq_true fun same => noNul (same ▸ member)

private theorem cmdType_padded {word : List UInt8} (noNul : NUL ∉ word) (size : Nat) :
    cmdType (padded size word) = cmdType word := by
  rw [cmdType, cmdType, cString_padded noNul]

theorem ridOf_padded {word : List UInt8} (noNul : NUL ∉ word) (size : Nat) :
    ridOf (padded size word) = ridOf word := by
  rw [ridOf, ridOf, cString_padded noNul]

private theorem nameOf_padded {word : List UInt8} (noNul : NUL ∉ word) (size : Nat) :
    nameOf (padded size word) = nameOf word := by
  rw [nameOf, nameOf, cString_padded noNul]

theorem numOf_padded (size : Nat) (word : List UInt8) :
    numOf (padded size word) = numOf word := by
  cases word with
  | nil => cases size <;> rfl
  | cons c rest => rfl

private theorem nameOf_short {word : List UInt8} (noNul : NUL ∉ word)
    (short : word.length < NAME_LEN) :
    ∃ name, nameOf word = some name := by
  rw [nameOf]
  have fits : ((cString word).map fun c => Char.ofNat c.toNat).length < NAME_LEN := by
    rw [List.length_map, cString_eq noNul]
    exact short
  exact ⟨_, dif_pos fits⟩

/-- The destinations after the calls for a text that parses cleanly. -/
def paddedWords : List Nat → List UInt8 → List (List UInt8)
  | [], _ => []
  | size :: sizes, text => padded size (wordOf text) :: paddedWords sizes (afterCall text)

private theorem parseAll_clean {sizes : List Nat} {text : List UInt8} (noNul : NUL ∉ text)
    (clean : CleanCalls sizes text) :
    parseAll sizes (text ++ [NUL]) = .ok (paddedWords sizes text) := by
  induction sizes generalizing text with
  | nil => rfl
  | cons size sizes ih =>
      rcases clean with ⟨first, later⟩
      have noNulLater : NUL ∉ afterCall text := fun member => noNul (afterCall_subset text member)
      exact bind_eq_ok.mpr ⟨_, first.parser_eq noNul,
        bind_eq_ok.mpr ⟨_, ih noNulLater later, rfl⟩⟩

theorem wordOf_subset (text : List UInt8) : wordOf text ⊆ text := by
  intro c member
  exact (List.dropWhile_suffix _).subset ((List.takeWhile_prefix _).subset member)

private theorem parseLine_clean {line : Line} (clean : CleanLine line) :
    parseLine line = .ok (padded commandSize (wordOf line.bytes) ::
      paddedWords (argumentSizes (cmdType (wordOf line.bytes))) (afterCall line.bytes)) := by
  rcases clean with ⟨first, later⟩
  have noNulWord : NUL ∉ wordOf line.bytes := fun member =>
    line.noNul (wordOf_subset line.bytes member)
  have noNulLater : NUL ∉ afterCall line.bytes := fun member =>
    line.noNul (afterCall_subset line.bytes member)
  rw [← cmdType_padded noNulWord commandSize]
  exact bind_eq_ok.mpr ⟨_, first.parser_eq line.noNul,
    bind_eq_ok.mpr ⟨_, parseAll_clean noNulLater later, rfl⟩⟩

/-! ### A line, and a script -/

/-- What one line does: its command, or nothing if its words spell none. -/
def runWords (shell : Shell) (words : List (List UInt8)) : Except Stop Shell :=
  match commandOf words with
  | some command => shell.exec command
  | none => pure shell

private theorem mainLine_proper (shell : Shell) {line : Line} (proper : ProperLine line) :
    mainLine shell line = stopped (runWords shell (words line.bytes)) := by
  have noNul := line.noNul
  have noNulSecond : NUL ∉ afterCall line.bytes := fun member =>
    noNul (afterCall_subset line.bytes member)
  have noNulWord : NUL ∉ wordOf line.bytes := fun member =>
    noNul (wordOf_subset line.bytes member)
  have noNulName : NUL ∉ wordOf (afterCall line.bytes) := fun member =>
    noNulSecond (wordOf_subset _ member)
  have named := proper.named
  rw [words_tail, words_headD, words_headD] at named
  rw [mainLine, parseLine_clean proper.clean, runWords, commandOf, words_tail, words_tail,
    words_headD, words_headD, words_headD]
  change dispatch shell (padded commandSize (wordOf line.bytes)) _ _ = _
  unfold dispatch
  rw [cmdType_padded noNulWord]
  cases type : cmdType (wordOf line.bytes) with
  | CR =>
      obtain ⟨name, found⟩ := nameOf_short noNulName (named (Or.inl type))
      simp [argumentSizes, paddedWords, nameOf_padded noNulName, numOf_padded, found]
  | DE =>
      obtain ⟨name, found⟩ := nameOf_short noNulName (named (Or.inr type))
      simp [argumentSizes, paddedWords, nameOf_padded noNulName, found]
  | REQ =>
      cases found : ridOf (wordOf (afterCall line.bytes)) with
      | none => simp [argumentSizes, paddedWords, ridOf_padded noNulName, found]; rfl
      | some rid =>
          simp [argumentSizes, paddedWords, ridOf_padded noNulName, numOf_padded, found]
  | REL =>
      cases found : ridOf (wordOf (afterCall line.bytes)) with
      | none => simp [argumentSizes, paddedWords, ridOf_padded noNulName, found]; rfl
      | some rid =>
          simp [argumentSizes, paddedWords, ridOf_padded noNulName, numOf_padded, found]
  | TO => rfl
  | LS => rfl
  | unknown => rfl

def commands (lines : List Line) : List Command :=
  lines.filterMap fun line => commandOf (words line.bytes)

private theorem foldlM_mainLine {lines : List Line} (proper : ∀ line ∈ lines, ProperLine line)
    (shell : Shell) :
    lines.foldlM mainLine shell = stopped ((commands lines).foldlM Shell.exec shell) := by
  induction lines generalizing shell with
  | nil => rfl
  | cons line rest ih =>
      have later := ih fun other member => proper other (List.mem_cons_of_mem _ member)
      rw [List.foldlM_cons, mainLine_proper shell (proper line List.mem_cons_self), commands,
        List.filterMap_cons, runWords]
      cases commandOf (words line.bytes) with
      | none => exact later shell
      | some command =>
          simp only [List.foldlM_cons]
          cases shell.exec command with
          | error stop => rfl
          | ok next => exact later next

/-- A script of proper lines does exactly what the commands do that its words spell, up to
where one of them stops the program; all other lines do nothing. -/
theorem main_runs_commands {lines : List Line} (proper : ∀ line ∈ lines, ProperLine line) :
    main lines = stopped ((commands lines).foldlM Shell.exec Shell.boot) := by
  rw [main, Shell.initProcess_eq]
  exact foldlM_mainLine proper Shell.boot

def smallScript : List Line :=
  [⟨ascii "cr x 1\n", by decide, by decide, by decide⟩,
    ⟨ascii "req R1 1\n", by decide, by decide, by decide⟩,
    ⟨ascii "req R9 1\n", by decide, by decide, by decide⟩]

private theorem smallScript_proper : ∀ line ∈ smallScript, ProperLine line := by
  have both (line : Line) (command : CleanCall commandSize line.bytes)
      (arguments : CleanCalls [pNameSize, rNumSize] (afterCall line.bytes))
      (sizes : argumentSizes (cmdType (padded commandSize (wordOf line.bytes))) =
        [pNameSize, rNumSize])
      (short : ((words line.bytes).tail.headD []).length < NAME_LEN) : ProperLine line := by
    refine ⟨⟨command, ?_⟩, fun _ => short⟩
    rw [sizes]
    exact arguments
  intro line member
  rcases List.mem_cons.mp member with rfl | member
  · exact both _ ⟨by decide, by decide, by decide⟩ ⟨⟨by decide, by decide, by decide⟩,
      ⟨by decide, by decide, by decide⟩, trivial⟩ (by decide) (by decide)
  · rcases List.mem_cons.mp member with rfl | member
    · exact both _ ⟨by decide, by decide, by decide⟩ ⟨⟨by decide, by decide, by decide⟩,
        ⟨by decide, by decide, by decide⟩, trivial⟩ (by decide) (by decide)
    · rcases List.mem_singleton.mp member with rfl
      exact both _ ⟨by decide, by decide, by decide⟩ ⟨⟨by decide, by decide, by decide⟩,
        ⟨by decide, by decide, by decide⟩, trivial⟩ (by decide) (by decide)

theorem main_runs_smallScript :
    main smallScript = stopped ([.cr ⟨['x'], by decide⟩ 1, .req .R1 1].foldlM Shell.exec
      Shell.boot) :=
  main_runs_commands smallScript_proper

end OsCompiler.TShell
