/-
Buffered reading as plain reading of a stream.

Whatever the kernel answers, the calls on one `rio_t` cut the descriptor's bytes into
pieces without losing, repeating or reordering any. As long as it reports neither an
error nor an end of file too early, the pieces are those that the calls ask for: they do
not depend on how the kernel splits the bytes or on what the buffer holds.
-/

import Mathlib.Algebra.Ring.Nat
import OsCompiler.Csapp.Rio
import OsCompiler.Lib.FirstLine

namespace OsCompiler.Rio

open OsCompiler.FirstLine
open OsCompiler.Sbuf (INT_MAX)

def Answer.isMove : Answer → Bool
  | .moves _ => true
  | _ => false

/-- The answers to come that move bytes or, behind the last byte, report the end. -/
def moves (answers : List Answer) : Nat := answers.countP Answer.isMove

def Plain (answers : List Answer) : Prop := ∀ answer ∈ answers, answer ≠ .nothing ∧ answer ≠ .failed

instance (answers : List Answer) : Decidable (Plain answers) :=
  inferInstanceAs (Decidable (∀ answer ∈ answers, answer ≠ .nothing ∧ answer ≠ .failed))

theorem Plain.suffix {answers later : List Answer} (plain : Plain answers)
    (suffix : later <:+ answers) : Plain later :=
  fun answer member => plain answer (suffix.subset member)

/-- From one state of the reader to another, exactly `got` has been handed out and the kernel
has given the answers `used`. -/
structure Delivers (before : Reader) (used : List Answer) (got : List Byte) (after : Reader) :
    Prop where
  sound : after.rio.Sound
  answers : used ++ after.answers = before.answers
  stream : got ++ after.stream = before.stream

theorem Delivers.refl {reader : Reader} (sound : reader.rio.Sound) :
    Delivers reader [] [] reader :=
  ⟨sound, rfl, rfl⟩

theorem Delivers.trans {first second third : Reader} {used later : List Answer}
    {got more : List Byte} (one : Delivers first used got second)
    (two : Delivers second later more third) :
    Delivers first (used ++ later) (got ++ more) third where
  sound := two.sound
  answers := by rw [List.append_assoc, two.answers, one.answers]
  stream := by rw [List.append_assoc, two.stream, one.stream]

theorem Delivers.plain {before after : Reader} {used : List Answer} {got : List Byte}
    (step : Delivers before used got after) (plain : Plain before.answers) : Plain after.answers :=
  plain.suffix ⟨used, step.answers⟩

theorem Delivers.failed_not_mem {before after : Reader} {used : List Answer} {got : List Byte}
    (step : Delivers before used got after) (plain : Plain before.answers) : .failed ∉ used := by
  intro failed
  refine (plain .failed ?_).2 rfl
  rw [← step.answers]
  exact List.mem_append_left _ failed

def ReadResult.chunk : ReadResult → List Byte
  | .bytes chunk => chunk
  | .error => []

/-! ### One call of `rio_read` -/

/-- What `rio_read` with a count of `n` may do. -/
structure ReadStep (n : Nat) (before : Reader) (used : List Answer) (result : ReadResult)
    (after : Reader) : Prop where
  delivers : Delivers before used result.chunk after
  within : result.chunk.length ≤ n
  oneMove : moves before.answers ≤ moves after.answers + 1
  ended : result = .bytes [] → Plain before.answers → before.stream = []
  failed : result = .error ↔ .failed ∈ used

variable {n : Nat}

theorem moves_cons_le (answer : Answer) (answers : List Answer) :
    moves (answer :: answers) ≤ moves answers + 1 := by
  unfold moves
  rw [List.countP_cons]
  split <;> omega

theorem moves_cons_interrupted (answers : List Answer) :
    moves (.interrupted :: answers) = moves answers :=
  List.countP_cons_of_neg (by decide)

theorem minusOne_nonpos : (-1 : Int) ≤ 0 := by decide

private theorem rioRefill_step (positive : 0 < n) {rio : RioT} {input : List Byte}
    {answers : List Answer} {result : ReadResult} {after : Reader} (sound : rio.Sound)
    (empty : rio.rio_cnt ≤ 0) (done : rioRefill n rio input answers = some (result, after)) :
    ∃ used, ReadStep n ⟨rio, input, answers⟩ used result after := by
  have whole : (⟨rio, input, answers⟩ : Reader).stream = input := by
    rw [Reader.stream, RioT.unread_empty empty, List.nil_append]
  induction answers generalizing rio with
  | nil => cases done
  | cons answer answers ih =>
      cases answer with
      | moves short =>
          rw [rioRefill] at done
          dsimp only at done
          generalize read : input.take (min RIO_BUFSIZE (short + 1)) = chunk at done
          have fits : chunk.length ≤ RIO_BUFSIZE := by
            rw [← read, List.length_take]
            omega
          by_cases atEnd : chunk = []
          · rw [if_pos atEnd] at done
            cases done
            have inputEnd : input = [] := by
              rw [atEnd] at read
              rcases List.take_eq_nil_iff.mp read with zero | none
              · exact absurd zero (by rw [RIO_BUFSIZE]; omega)
              · exact none
            refine ⟨[.moves short], ⟨sound.emptied (Int.le_refl 0), rfl, ?_⟩, Nat.zero_le n,
              moves_cons_le _ _, fun _ _ => whole.trans inputEnd, by simp⟩
            rw [whole, Reader.stream, RioT.unread_empty (Int.le_refl 0)]
            rfl
          · rw [if_neg atEnd] at done
            cases done
            have filled := sound_filled sound.size fits
            have nonempty := List.length_pos_iff.mpr atEnd
            have copied := filled.1.copyOut (by simpa using nonempty) n
            rw [filled.2] at copied
            refine ⟨[.moves short], ⟨copied.1, rfl, ?_⟩, ?_, moves_cons_le _ _, ?_, by simp⟩
            · rw [whole, Reader.stream, ReadResult.chunk, ← List.append_assoc, copied.2.2]
              have beginning : chunk <+: input := read ▸ List.take_prefix _ _
              exact List.prefix_iff_eq_append.mp beginning
            · rw [ReadResult.chunk, copied.2.1, List.length_take]
              omega
            · intro nothing
              injection nothing with nothing
              rw [copied.2.1] at nothing
              rcases List.take_eq_nil_iff.mp nothing with zero | none
              · omega
              · exact absurd none atEnd
      | nothing =>
          cases done
          refine ⟨[.nothing], ⟨sound.emptied (Int.le_refl 0), rfl, ?_⟩, Nat.zero_le n,
            moves_cons_le _ _, ?_, by simp⟩
          · rw [whole, Reader.stream, RioT.unread_empty (Int.le_refl 0)]
            rfl
          · intro _ plain
            exact absurd rfl (plain .nothing (by simp)).1
      | interrupted =>
          have negative : ({ rio with rio_cnt := -1 } : RioT).rio_cnt ≤ 0 := minusOne_nonpos
          obtain ⟨used, later⟩ := ih (sound.emptied negative) negative done (by
            rw [Reader.stream, RioT.unread_empty negative, List.nil_append])
          have answered := congrArg (Answer.interrupted :: ·) later.delivers.answers
          refine ⟨.interrupted :: used, ⟨later.delivers.sound, answered, ?_⟩, later.within, ?_, ?_,
            ?_⟩
          · rw [whole, later.delivers.stream, Reader.stream, RioT.unread_empty negative,
              List.nil_append]
          · rw [moves_cons_interrupted]
            exact later.oneMove
          · intro nothing plain
            have inputEnd := later.ended nothing (plain.suffix (List.suffix_cons _ _))
            rw [Reader.stream, RioT.unread_empty negative, List.nil_append] at inputEnd
            exact whole.trans inputEnd
          · rw [later.failed, List.mem_cons]
            exact (or_iff_right (by decide)).symm
      | failed =>
          cases done
          refine ⟨[.failed], ⟨sound.emptied minusOne_nonpos, rfl, ?_⟩, Nat.zero_le n,
            moves_cons_le _ _, nofun, by simp⟩
          rw [whole, Reader.stream, RioT.unread_empty minusOne_nonpos]
          rfl

theorem rioRead_step (positive : 0 < n) {reader after : Reader} {result : ReadResult}
    (sound : reader.rio.Sound) (done : rioRead reader n = some (result, after)) :
    ∃ used, ReadStep n reader used result after := by
  unfold rioRead at done
  by_cases filled : 0 < reader.rio.rio_cnt
  · rw [if_pos filled] at done
    cases done
    have copied := sound.copyOut filled n
    refine ⟨[], ⟨copied.1, rfl, ?_⟩, ?_, Nat.le_succ _, ?_, by simp⟩
    · rw [Reader.stream, Reader.stream, ReadResult.chunk, ← List.append_assoc, copied.2.2]
    · rw [ReadResult.chunk, copied.2.1, List.length_take]
      omega
    · intro nothing _
      injection nothing with nothing
      rw [copied.2.1] at nothing
      have unread := sound.length_unread
      rcases List.take_eq_nil_iff.mp nothing with zero | none
      · omega
      · rw [none, List.length_nil] at unread
        omega
  · rw [if_neg filled] at done
    exact rioRefill_step positive sound (by omega) done

/-- `rio_read` waits only until bytes come. -/
theorem rioRead_waits {reader : Reader} (waits : rioRead reader n = none) :
    moves reader.answers = 0 := by
  unfold rioRead at waits
  by_cases filled : 0 < reader.rio.rio_cnt
  · rw [if_pos filled] at waits
    cases waits
  · rw [if_neg filled] at waits
    generalize reader.rio = rio at waits
    generalize reader.answers = answers at waits
    induction answers generalizing rio with
    | nil => rfl
    | cons answer answers ih =>
        cases answer with
        | moves short =>
            rw [rioRefill] at waits
            dsimp only at waits
            split at waits <;> cases waits
        | nothing => cases waits
        | interrupted =>
            rw [moves_cons_interrupted]
            exact ih { rio with rio_cnt := -1 } waits
        | failed => cases waits

/-! ### One buffered call -/

/-- What a loop that still wants `room` bytes does: it hands out `got`, as `wanted` of the
stream says unless the kernel reports an error or an end too early. -/
structure LoopStep (room : Nat) (wanted : List Byte → List Byte) (base : Int) (data : List Byte)
    (before : Reader) (used : List Answer) (got : List Byte) (delivery : Delivery)
    (after : Reader) : Prop where
  delivers : Delivers before used got after
  data_eq : delivery.data = data ++ got
  within : got.length ≤ room
  someMoves : moves before.answers ≤ moves after.answers + room
  ret : delivery.ret = if .failed ∈ used then -1 else base + got.length
  plain : Plain before.answers → got = wanted before.stream

/-- A read that fails ends the loop. -/
theorem ReadStep.fails {room : Nat} {before after : Reader} {used : List Answer}
    (one : ReadStep n before used .error after) (more : 0 < room) (wanted : List Byte → List Byte)
    (base : Int) (data : List Byte) (terminated : Bool) :
    LoopStep room wanted base data before used [] ⟨-1, data, terminated⟩ after where
  delivers := one.delivers
  data_eq := (List.append_nil data).symm
  within := Nat.zero_le _
  someMoves := by
    have oneMove := one.oneMove
    omega
  ret := (if_pos (one.failed.mp rfl)).symm
  plain := fun plain => absurd (one.failed.mp rfl) (one.delivers.failed_not_mem plain)

/-- A read that comes to an end of file ends the loop. -/
theorem ReadStep.ends {room : Nat} {wanted : List Byte → List Byte} {base ret : Int}
    {data : List Byte} {before after : Reader} {used : List Answer} {terminated : Bool}
    (one : ReadStep n before used (.bytes []) after) (more : 0 < room) (counted : ret = base)
    (nothing : wanted [] = []) :
    LoopStep room wanted base data before used [] ⟨ret, data, terminated⟩ after where
  delivers := one.delivers
  data_eq := (List.append_nil data).symm
  within := Nat.zero_le _
  someMoves := by
    have oneMove := one.oneMove
    omega
  ret := by
    have noError : .failed ∉ used := fun failed => absurd (one.failed.mpr failed) (by simp)
    rw [if_neg noError, List.length_nil]
    exact counted.trans (Int.add_zero _).symm
  plain := by
    intro plain
    rw [one.ended rfl plain, nothing]

/-- A loop that has no turns left. -/
theorem LoopStep.refl {wanted : List Byte → List Byte} {base ret : Int} {data : List Byte}
    {reader : Reader} {terminated : Bool} (sound : reader.rio.Sound) (counted : ret = base)
    (nothing : ∀ stream, wanted stream = []) :
    LoopStep 0 wanted base data reader [] [] ⟨ret, data, terminated⟩ reader where
  delivers := Delivers.refl sound
  data_eq := (List.append_nil data).symm
  within := Nat.zero_le _
  someMoves := Nat.le_refl _
  ret := by simpa using counted
  plain := fun _ => (nothing _).symm

/-- A read that moved something, and the rest of the loop. -/
theorem ReadStep.andThen {room : Nat} {wanted rest : List Byte → List Byte} {base : Int}
    {data chunk got : List Byte} {before middle after : Reader} {used more : List Answer}
    {delivery : Delivery} (one : ReadStep n before used (.bytes chunk) middle)
    (nonempty : chunk ≠ [])
    (later : LoopStep room rest (base + chunk.length) (data ++ chunk) middle more got delivery after)
    (first : wanted before.stream = chunk ++ rest middle.stream) :
    LoopStep (chunk.length + room) wanted base data before (used ++ more) (chunk ++ got) delivery
      after where
  delivers := one.delivers.trans later.delivers
  data_eq := by rw [later.data_eq, List.append_assoc]
  within := by
    rw [List.length_append]
    exact Nat.add_le_add_left later.within _
  someMoves := by
    have oneMove := one.oneMove
    have laterMoves := later.someMoves
    have some := List.length_pos_iff.mpr nonempty
    omega
  ret := by
    have noError : .failed ∉ used := fun failed => absurd (one.failed.mpr failed) (by simp)
    have length : base + (chunk ++ got).length = base + chunk.length + got.length := by
      rw [List.length_append]
      omega
    rw [later.ret, length]
    simp only [List.mem_append, noError, false_or]
  plain := by
    intro plain
    rw [first, later.plain (one.delivers.plain plain)]

private theorem rioReadnbLoop_step {size nleft : Nat} {data : List Byte} {reader after : Reader}
    {delivery : Delivery} (sound : reader.rio.Sound)
    (done : rioReadnbLoop size nleft data reader = some (delivery, after)) :
    delivery.terminated = false ∧ ∃ used got,
      LoopStep nleft (List.take nleft) (size - nleft) data reader used got delivery after := by
  induction nleft using Nat.strong_induction_on generalizing data reader with
  | _ nleft ih =>
      rw [rioReadnbLoop] at done
      by_cases through : nleft = 0
      · rw [if_pos through] at done
        cases done
        subst through
        exact ⟨rfl, [], [], LoopStep.refl sound rfl fun _ => List.take_zero⟩
      · rw [if_neg through] at done
        cases read : rioRead reader nleft with
        | none =>
            rw [read] at done
            cases done
        | some pair =>
            obtain ⟨result, next⟩ := pair
            obtain ⟨used, one⟩ := rioRead_step (Nat.pos_of_ne_zero through) sound read
            rw [read] at done
            match result with
            | .error =>
                cases done
                exact ⟨rfl, used, [], one.fails (Nat.pos_of_ne_zero through) _ _ data false⟩
            | .bytes [] =>
                cases done
                exact ⟨rfl, used, [], one.ends (Nat.pos_of_ne_zero through) rfl List.take_nil⟩
            | .bytes (byte :: more) =>
                have within : more.length + 1 ≤ nleft := one.within
                obtain ⟨terminated, later, got, rest⟩ :=
                  ih (nleft - (more.length + 1)) (by omega) one.delivers.sound done
                have first : reader.stream.take nleft =
                    byte :: more ++ next.stream.take (nleft - (more.length + 1)) := by
                  have whole : (byte :: more).take nleft = byte :: more :=
                    List.take_of_length_le within
                  rw [← one.delivers.stream, ReadResult.chunk, List.take_append, whole]
                  rfl
                have base : (size : Int) - (nleft - (more.length + 1) : Nat) =
                    size - nleft + (byte :: more).length := by
                  rw [List.length_cons]
                  omega
                rw [base] at rest
                have both := one.andThen (List.cons_ne_nil byte more) rest first
                have room : (byte :: more).length + (nleft - (more.length + 1)) = nleft := by
                  rw [List.length_cons]
                  omega
                rw [room] at both
                exact ⟨terminated, used ++ later, byte :: more ++ got, both⟩

private theorem rioReadnbLoop_waits {size nleft : Nat} {data : List Byte} {reader : Reader}
    (sound : reader.rio.Sound) (waits : rioReadnbLoop size nleft data reader = none) :
    moves reader.answers < nleft := by
  induction nleft using Nat.strong_induction_on generalizing data reader with
  | _ nleft ih =>
      rw [rioReadnbLoop] at waits
      by_cases through : nleft = 0
      · rw [if_pos through] at waits
        cases waits
      · rw [if_neg through] at waits
        cases read : rioRead reader nleft with
        | none =>
            rw [rioRead_waits read]
            exact Nat.pos_of_ne_zero through
        | some pair =>
            obtain ⟨result, next⟩ := pair
            obtain ⟨_, one⟩ := rioRead_step (Nat.pos_of_ne_zero through) sound read
            rw [read] at waits
            match result with
            | .error => cases waits
            | .bytes [] => cases waits
            | .bytes (byte :: more) =>
                have fewer := ih (nleft - (more.length + 1)) (by omega) one.delivers.sound waits
                have oneMove := one.oneMove
                omega

private theorem rioReadlinebLoop_step {turns size : Nat} {data : List Byte} {reader after : Reader}
    {delivery : Delivery} (counted : size = data.length + 1) (sound : reader.rio.Sound)
    (done : rioReadlinebLoop turns size data reader = some (delivery, after)) :
    ∃ used got,
      LoopStep turns (firstLine 10 turns) data.length data reader used got delivery after ∧
      (delivery.terminated = false → delivery.ret = -1 ∨ (0 < turns ∧ data = [] ∧ got = [])) ∧
      (delivery.terminated = true → turns = 0 ∨ data ++ got ≠ []) := by
  induction turns generalizing size data reader with
  | zero =>
      rw [rioReadlinebLoop] at done
      cases done
      exact ⟨[], [], LoopStep.refl sound (by omega) fun _ => rfl, nofun, fun _ => Or.inl rfl⟩
  | succ turns ih =>
      rw [rioReadlinebLoop] at done
      cases read : rioRead reader 1 with
      | none =>
          rw [read] at done
          cases done
      | some pair =>
          obtain ⟨result, next⟩ := pair
          obtain ⟨used, one⟩ := rioRead_step Nat.one_pos sound read
          have oneMove := one.oneMove
          rw [read] at done
          match result with
          | .error =>
              cases done
              exact ⟨used, [], one.fails (Nat.succ_pos turns) _ _ data false, fun _ => Or.inl rfl,
                nofun⟩
          | .bytes [] =>
              dsimp only at done
              by_cases nothing : size = 1
              · rw [if_pos nothing] at done
                cases done
                have empty : data = [] := List.eq_nil_of_length_eq_zero (by omega)
                subst empty
                exact ⟨used, [], one.ends (Nat.succ_pos turns) rfl rfl,
                  fun _ => Or.inr ⟨Nat.succ_pos turns, rfl, rfl⟩, nofun⟩
              · rw [if_neg nothing] at done
                cases done
                refine ⟨used, [], one.ends (Nat.succ_pos turns) (by omega) rfl, nofun,
                  fun _ => Or.inr ?_⟩
                intro empty
                rw [List.append_nil] at empty
                rw [empty] at counted
                exact nothing counted
          | .bytes (c :: more) =>
              have single : more = [] :=
                List.eq_nil_of_length_eq_zero (Nat.le_zero.mp (Nat.le_of_succ_le_succ one.within))
              subst single
              have stream : reader.stream = c :: next.stream := one.delivers.stream.symm
              dsimp only at done
              by_cases beyond : INT_MAX ≤ size
              · rw [if_pos beyond] at done
                cases done
              rw [if_neg beyond] at done
              by_cases ends : c = 10
              · rw [if_pos ends] at done
                cases done
                refine ⟨used, [c], ⟨one.delivers, rfl, Nat.succ_le_succ (Nat.zero_le turns),
                  by omega, ?_, ?_⟩, nofun, fun _ => Or.inr (by simp)⟩
                · have noError : .failed ∉ used :=
                    fun failed => absurd (one.failed.mpr failed) (by simp)
                  rw [if_neg noError, List.length_singleton]
                  dsimp only
                  omega
                · intro _
                  rw [stream, firstLine, if_pos ends]
              · rw [if_neg ends] at done
                obtain ⟨later, got, rest, unended, _⟩ :=
                  ih (by rw [List.length_append, counted]; rfl) one.delivers.sound done
                have first : firstLine 10 (turns + 1) reader.stream =
                    [c] ++ firstLine 10 turns next.stream := by
                  rw [stream, firstLine, if_neg ends]
                  rfl
                have base : ((data ++ [c]).length : Int) = data.length + [c].length := by
                  rw [List.length_append]
                  rfl
                rw [base] at rest
                have both := one.andThen (List.cons_ne_nil c []) rest first
                rw [List.length_singleton, Nat.add_comm 1] at both
                refine ⟨used ++ later, c :: got, both, ?_, ?_⟩
                · intro unterminated
                  rcases unended unterminated with failed | ⟨_, empty, _⟩
                  · exact Or.inl failed
                  · exact absurd empty (by simp)
                · intro _
                  exact Or.inr (by simp)

/-- With a counter that stays within `int` only the kernel keeps a line waiting. -/
theorem rioReadlinebLoop_waits {turns size : Nat} {data : List Byte} {reader : Reader}
    (sound : reader.rio.Sound) (counts : size + turns ≤ INT_MAX)
    (waits : rioReadlinebLoop turns size data reader = none) :
    moves reader.answers < turns := by
  induction turns generalizing size data reader with
  | zero => cases waits
  | succ turns ih =>
      rw [rioReadlinebLoop] at waits
      cases read : rioRead reader 1 with
      | none =>
          rw [rioRead_waits read]
          exact Nat.succ_pos turns
      | some pair =>
          obtain ⟨result, next⟩ := pair
          obtain ⟨_, one⟩ := rioRead_step Nat.one_pos sound read
          have oneMove := one.oneMove
          have below : ¬ INT_MAX ≤ size := by omega
          rw [read] at waits
          match result with
          | .error => cases waits
          | .bytes [] =>
              dsimp only at waits
              split at waits <;> cases waits
          | .bytes (c :: _) =>
              dsimp only at waits
              rw [if_neg below] at waits
              split at waits
              · cases waits
              · have fewer := ih one.delivers.sound (by omega) waits
                omega

/-! ### Any mix of calls -/

def Call.wanted : Call → List Byte → List Byte
  | .readnb n => List.take n
  | .readlineb maxlen => firstLine 10 (maxlen - 1)

def Call.room : Call → Nat
  | .readnb n => n
  | .readlineb maxlen => maxlen - 1

/-- What a call returns from a stream that is simply there. A line is terminated but for an
end of file in front of it, which shows only if there was room for a byte. -/
def Call.plainly (call : Call) (stream : List Byte) : Delivery :=
  let data := call.wanted stream
  match call with
  | .readnb _ => ⟨data.length, data, false⟩
  | .readlineb maxlen => ⟨data.length, data, decide (maxlen ≤ 1 ∨ data ≠ [])⟩

def plainCalls : List Call → List Byte → List Delivery × List Byte
  | [], stream => ([], stream)
  | call :: calls, stream =>
      let rest := plainCalls calls (stream.drop (call.wanted stream).length)
      (call.plainly stream :: rest.1, rest.2)

def Delivery.stored (delivery : Delivery) : Nat :=
  delivery.data.length + if delivery.terminated then 1 else 0

def Call.size : Call → Nat
  | .readnb n => n
  | .readlineb maxlen => maxlen

def Call.WithinInt : Call → Prop
  | .readnb _ => True
  | .readlineb maxlen => maxlen ≤ INT_MAX

instance : DecidablePred Call.WithinInt
  | .readnb _ => inferInstanceAs (Decidable True)
  | .readlineb maxlen => inferInstanceAs (Decidable (maxlen ≤ INT_MAX))

/-- A call to which the kernel has given the answers `used` stores no more than there is room
for, a line of no room apart, which is terminated all the same. It returns -1 if the kernel
has reported an error, and else the count of its bytes. -/
structure Call.Keeps (call : Call) (used : List Answer) (delivery : Delivery) : Prop where
  fits : delivery.stored ≤ call.size ↔ call ≠ .readlineb 0
  ret : delivery.ret = if .failed ∈ used then -1 else (delivery.data.length : Int)

theorem Reader.call_step {reader after : Reader} {call : Call} {delivery : Delivery}
    (sound : reader.rio.Sound) (done : reader.call call = some (delivery, after)) :
    ∃ used, Delivers reader used delivery.data after ∧ call.Keeps used delivery ∧
      moves reader.answers ≤ moves after.answers + call.room ∧
      (Plain reader.answers → delivery = call.plainly reader.stream) := by
  cases call with
  | readnb n =>
      obtain ⟨terminated, used, got, step⟩ := rioReadnbLoop_step sound done
      obtain rfl : delivery.data = got := step.data_eq
      have base (count : Nat) : (n : Int) - n + count = count := by omega
      have ret := step.ret
      rw [base] at ret
      refine ⟨used, step.delivers, ⟨iff_of_true ?_ (by simp), ret⟩, step.someMoves, ?_⟩
      · rw [Delivery.stored, terminated]
        exact step.within
      · intro plain
        rw [if_neg (step.delivers.failed_not_mem plain), step.plain plain] at ret
        exact Delivery.ext ret (step.plain plain) terminated
  | readlineb maxlen =>
      have begins : rioReadlinebLoop (maxlen - 1) (([] : List Byte).length + 1) [] reader =
          some (delivery, after) := done
      obtain ⟨used, got, step, unended, ended⟩ := rioReadlinebLoop_step rfl sound begins
      obtain rfl : delivery.data = got := step.data_eq
      have base (count : Nat) : (([] : List Byte).length : Int) + count = count := Int.zero_add _
      rw [List.nil_append] at ended
      have within := step.within
      have ret := step.ret
      rw [base] at ret
      refine ⟨used, step.delivers, ⟨?_, ret⟩, step.someMoves, ?_⟩
      · rcases Nat.eq_zero_or_pos maxlen with none | room
        · subst none
          have terminated : delivery.terminated = true := by
            cases done
            rfl
          refine iff_of_false ?_ (by simp)
          rw [Delivery.stored, terminated, Call.size]
          simp
        · refine iff_of_true ?_ (by simp only [ne_eq, Call.readlineb.injEq]; omega)
          dsimp only [Delivery.stored, Call.size]
          split <;> omega
      · intro plain
        have data := step.plain plain
        have counted := ret
        rw [if_neg (step.delivers.failed_not_mem plain)] at counted
        have terminated : delivery.terminated = decide (maxlen ≤ 1 ∨ delivery.data ≠ []) := by
          cases has : delivery.terminated with
          | true =>
              symm
              rw [decide_eq_true_eq]
              rcases ended has with none | some
              · exact Or.inl (by omega)
              · exact Or.inr some
          | false =>
              symm
              rw [decide_eq_false_iff_not]
              rcases unended has with failed | ⟨room, _, nothing⟩
              · omega
              · rintro (none | some)
                · omega
                · exact some nothing
        rw [data] at counted terminated
        exact Delivery.ext counted data terminated

theorem Reader.call_waits {reader : Reader} {call : Call} (sound : reader.rio.Sound)
    (counts : call.WithinInt) (waits : reader.call call = none) :
    moves reader.answers < call.room := by
  cases call with
  | readnb n => exact rioReadnbLoop_waits sound waits
  | readlineb maxlen =>
      have within : 1 + (maxlen - 1) ≤ INT_MAX := by
        have below : maxlen ≤ INT_MAX := counts
        rw [INT_MAX] at below ⊢
        omega
      exact rioReadlinebLoop_waits sound within waits

private theorem runCalls_cons_eq_some {reader after : Reader} {call : Call} {calls : List Call}
    {deliveries : List Delivery}
    (run : runCalls reader (call :: calls) = some (deliveries, after)) :
    ∃ one next rest, reader.call call = some (one, next) ∧
      runCalls next calls = some (rest, after) ∧ deliveries = one :: rest := by
  rw [runCalls] at run
  obtain ⟨⟨one, next⟩, called, run⟩ := Option.bind_eq_some_iff.mp run
  obtain ⟨⟨rest, last⟩, later, same⟩ := Option.map_eq_some_iff.mp run
  cases same
  exact ⟨one, next, rest, called, later, rfl⟩

/-- Each call keeps its contract with the answers it has had from the kernel, which are one
after the other all that the kernel has given. -/
inductive Kept : List Call → List Answer → List Delivery → Prop
  | nil : Kept [] [] []
  | cons {call : Call} {calls : List Call} {used more : List Answer} {delivery : Delivery}
      {deliveries : List Delivery} (one : call.Keeps used delivery)
      (rest : Kept calls more deliveries) :
      Kept (call :: calls) (used ++ more) (delivery :: deliveries)

private theorem runCalls_step {calls : List Call} {reader after : Reader}
    {deliveries : List Delivery}
    (sound : reader.rio.Sound) (run : runCalls reader calls = some (deliveries, after)) :
    ∃ used, Delivers reader used (deliveries.flatMap Delivery.data) after ∧
      Kept calls used deliveries := by
  induction calls generalizing reader deliveries with
  | nil =>
      cases run
      exact ⟨[], Delivers.refl sound, Kept.nil⟩
  | cons call calls ih =>
      obtain ⟨one, next, rest, called, later, rfl⟩ := runCalls_cons_eq_some run
      obtain ⟨used, step, keeps, _⟩ := reader.call_step sound called
      obtain ⟨more, others, kept⟩ := ih step.sound later
      exact ⟨used ++ more, step.trans others, Kept.cons keeps kept⟩

theorem runCalls_plain {calls : List Call} {reader : Reader} (sound : reader.rio.Sound)
    (counts : ∀ call ∈ calls, call.WithinInt) (plain : Plain reader.answers)
    (enough : (calls.map Call.room).sum ≤ moves reader.answers) :
    ∃ after, runCalls reader calls = some ((plainCalls calls reader.stream).1, after) ∧
      after.stream = (plainCalls calls reader.stream).2 := by
  induction calls generalizing reader with
  | nil => exact ⟨reader, rfl, rfl⟩
  | cons call calls ih =>
      rw [List.map_cons, List.sum_cons] at enough
      cases called : reader.call call with
      | none =>
          have few := reader.call_waits sound (counts call List.mem_cons_self) called
          omega
      | some pair =>
          obtain ⟨one, next⟩ := pair
          obtain ⟨_, step, _, someMoves, plainly⟩ := reader.call_step sound called
          have same := plainly plain
          obtain ⟨after, run, rest⟩ := ih step.sound
            (fun later member => counts later (List.mem_cons_of_mem call member))
            (step.plain plain) (by omega)
          have behind : next.stream = reader.stream.drop (call.wanted reader.stream).length := by
            have data : one.data = call.wanted reader.stream := by
              rw [same]
              cases call <;> rfl
            rw [← data, ← step.stream, List.drop_left]
          rw [behind] at run rest
          refine ⟨after, ?_, rest⟩
          rw [runCalls, called, Option.bind_some, run, same]
          rfl

/-! ### The results -/

/-- Whatever the kernel answers to any mix of calls on one descriptor: what they stored, one
after the other, and what is then in the buffer and in the descriptor, is what the descriptor
held. Each call keeps within its buffer, unless it asks for a line of no room, and counts its
bytes, unless the kernel has reported an error to it. -/
theorem rio_calls_lose_nothing (rio_buf input : List Byte) (size : rio_buf.length = RIO_BUFSIZE)
    (answers : List Answer) (calls : List Call) (deliveries : List Delivery) (after : Reader)
    (run : runCalls (rioReadinitb rio_buf input answers) calls = some (deliveries, after)) :
    deliveries.flatMap Delivery.data ++ after.rio.unread ++ after.input = input ∧
      after.rio.Sound ∧
      ∃ used, used ++ after.answers = answers ∧ Kept calls used deliveries := by
  have sound : (rioReadinitb rio_buf input answers).rio.Sound := ⟨size, Nat.zero_le _⟩
  obtain ⟨used, delivers, kept⟩ := runCalls_step sound run
  refine ⟨?_, delivers.sound, used, delivers.answers, kept⟩
  rw [List.append_assoc]
  exact delivers.stream

/-- A line of no room and a line that fails behind its first byte: the byte stays delivered. -/
theorem rio_failed_call_loses_nothing : ∃ deliveries after,
    runCalls (rioReadinitb (List.replicate RIO_BUFSIZE 0) [97, 98] [.moves 0, .failed])
      [.readlineb 0, .readlineb 3] = some (deliveries, after) ∧
      deliveries = [⟨0, [], true⟩, ⟨-1, [97], false⟩] ∧
      deliveries.flatMap Delivery.data ++ after.rio.unread ++ after.input = [97, 98] ∧
      Kept [.readlineb 0, .readlineb 3] [.moves 0, .failed] deliveries := by
  refine ⟨_, _, rfl, rfl, ?_⟩
  obtain ⟨stream, _, used, answers, kept⟩ :=
    rio_calls_lose_nothing (List.replicate RIO_BUFSIZE 0) [97, 98] List.length_replicate
      [.moves 0, .failed] [.readlineb 0, .readlineb 3] _ _ rfl
  refine ⟨stream, ?_⟩
  rw [← answers]
  simpa using kept

/-- Where the kernel splits the bytes as it likes and interrupts as often as it likes, but
reports neither an error nor an early end, calls that count within an `int` return what they
would return from the bare bytes, and do so once it has moved bytes often enough. -/
theorem rio_calls_plain (rio_buf input : List Byte) (size : rio_buf.length = RIO_BUFSIZE)
    (answers : List Answer) (calls : List Call) (counts : ∀ call ∈ calls, call.WithinInt)
    (plain : Plain answers) (enough : (calls.map Call.room).sum ≤ moves answers) :
    ∃ after, runCalls (rioReadinitb rio_buf input answers) calls =
        some ((plainCalls calls input).1, after) ∧
      after.rio.unread ++ after.input = (plainCalls calls input).2 := by
  have sound : (rioReadinitb rio_buf input answers).rio.Sound := ⟨size, Nat.zero_le _⟩
  exact runCalls_plain sound counts plain enough

/-- A line, two bytes of the next one and its end, from a descriptor that gives one byte a time. -/
theorem rio_calls_plain_bytewise : ∃ after,
    runCalls (rioReadinitb (List.replicate RIO_BUFSIZE 0) [97, 10, 98, 99, 10, 100]
      (.interrupted :: List.replicate 20 (.moves 0))) [.readlineb 9, .readnb 2, .readlineb 9] =
      some ([⟨2, [97, 10], true⟩, ⟨2, [98, 99], false⟩, ⟨1, [10], true⟩], after) ∧
      after.rio.unread ++ after.input = [100] :=
  rio_calls_plain _ _ List.length_replicate _ [.readlineb 9, .readnb 2, .readlineb 9] (by decide)
    (by decide) (by decide)

end OsCompiler.Rio
