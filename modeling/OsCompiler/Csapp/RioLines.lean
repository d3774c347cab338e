/-
Unbuffered calls, and lines sent through a descriptor from one process to another.

`rio_writen` writes all or reports an error, `rio_readlineb` finds the line ends again, so
the lines written arrive one for each call, however the kernel splits them on either side.
-/

import OsCompiler.Csapp.RioStream

namespace OsCompiler.Rio

open OsCompiler.FirstLine
open OsCompiler.Sbuf (INT_MAX)

/-! ### Reading without a buffer -/

theorem moves_cons_move (short : Nat) (answers : List Answer) :
    moves (.moves short :: answers) = moves answers + 1 :=
  List.countP_cons_of_pos rfl

private theorem rioReadnLoop_plain (n nleft : Nat) (data input : List Byte) {answers : List Answer}
    (plain : Plain answers) (enough : nleft ≤ moves answers) :
    ∃ later, later <:+ answers ∧ moves answers ≤ moves later + nleft ∧
      rioReadnLoop n nleft data input answers =
        some (⟨n - nleft + (input.take nleft).length, data ++ input.take nleft, false⟩,
          ⟨input.drop nleft, later⟩) := by
  induction answers generalizing nleft data input with
  | nil =>
      have through : nleft = 0 := Nat.le_zero.mp enough
      subst through
      exact ⟨[], List.suffix_refl _, Nat.le_refl _, by simp [rioReadnLoop]⟩
  | cons answer answers ih =>
      by_cases through : nleft = 0
      · subst through
        exact ⟨answer :: answers, List.suffix_refl _, Nat.le_refl _, by simp [rioReadnLoop]⟩
      · have rest : Plain answers := plain.suffix (List.suffix_cons _ _)
        unfold rioReadnLoop
        rw [if_neg through]
        cases answer with
        | moves short =>
            rw [moves_cons_move] at enough ⊢
            dsimp only
            generalize read : input.take (min nleft (short + 1)) = chunk
            by_cases atEnd : chunk = []
            · rw [if_pos atEnd]
              have inputEnd : input = [] := by
                rw [atEnd] at read
                rcases List.take_eq_nil_iff.mp read with zero | none
                · omega
                · exact none
              subst inputEnd
              exact ⟨answers, List.suffix_cons _ _, by omega, by simp⟩
            · rw [if_neg atEnd]
              have positive := List.length_pos_iff.mpr atEnd
              have length : chunk.length = min (min nleft (short + 1)) input.length := by
                rw [← read, List.length_take]
              obtain ⟨later, suffix, someMoves, done⟩ := ih (nleft - chunk.length)
                (data ++ chunk) (input.drop chunk.length) rest (by omega)
              have pieces : chunk ++ (input.drop chunk.length).take (nleft - chunk.length) =
                  input.take nleft := by
                have beginning : chunk = input.take chunk.length := by
                  rw [length, ← read, List.take_eq_take_iff]
                  omega
                nth_rewrite 1 [beginning]
                rw [← List.take_add]
                congr 1
                omega
              have counted := congrArg List.length pieces
              rw [List.length_append] at counted
              refine ⟨later, suffix.trans (List.suffix_cons _ _), by omega, ?_⟩
              rw [done, List.append_assoc, pieces, List.drop_drop]
              congr 3
              · omega
              · congr 1
                omega
        | nothing => exact absurd rfl (plain .nothing (by simp)).1
        | interrupted =>
            rw [moves_cons_interrupted] at enough ⊢
            obtain ⟨later, suffix, someMoves, done⟩ := ih nleft data input rest enough
            exact ⟨later, suffix.trans (List.suffix_cons _ _), someMoves, done⟩
        | failed => exact absurd rfl (plain .failed (by simp)).2

def runReadn (source : Source) : List Nat → Option (List Delivery × Source)
  | [] => some ([], source)
  | n :: sizes =>
      (rioReadn source n).bind fun one =>
        (runReadn one.2 sizes).map fun rest => (one.1 :: rest.1, rest.2)

private theorem runReadn_plain {sizes : List Nat} (input : List Byte) {answers : List Answer}
    (plain : Plain answers) (enough : sizes.sum ≤ moves answers) :
    ∃ after, runReadn ⟨input, answers⟩ sizes =
      some ((plainCalls (sizes.map Call.readnb) input).1, after) := by
  induction sizes generalizing input answers with
  | nil => exact ⟨⟨input, answers⟩, rfl⟩
  | cons n sizes ih =>
      rw [List.sum_cons] at enough
      obtain ⟨later, suffix, someMoves, done⟩ :=
        rioReadnLoop_plain n n [] input plain (by omega)
      have counted : (n : Int) - n + (input.take n).length = (input.take n).length := by
        omega
      rw [counted, List.nil_append] at done
      obtain ⟨after, rest⟩ := ih (input.drop n) (plain.suffix suffix) (by omega)
      have behind : input.drop (input.take n).length = input.drop n := by
        rw [List.length_take]
        rcases Nat.le_total n input.length with inside | beyond
        · rw [Nat.min_eq_left inside]
        · rw [Nat.min_eq_right beyond, List.drop_length, List.drop_eq_nil_of_le beyond]
      refine ⟨after, ?_⟩
      rw [runReadn, rioReadn, done, Option.bind_some, rest, List.map_cons, plainCalls, Call.wanted,
        behind]
      rfl

/-- The buffered calls return what the unbuffered ones return, each with a schedule of its own:
the buffer changes neither what is read nor where a short read ends. -/
theorem rio_readnb_as_readn (rio_buf input : List Byte) (size : rio_buf.length = RIO_BUFSIZE)
    (sizes : List Nat) (buffered unbuffered : List Answer) (plain : Plain buffered)
    (plainToo : Plain unbuffered) (enough : sizes.sum ≤ moves buffered)
    (enoughToo : sizes.sum ≤ moves unbuffered) :
    ∃ deliveries after source,
      runCalls (rioReadinitb rio_buf input buffered) (sizes.map Call.readnb) =
        some (deliveries, after) ∧
      runReadn ⟨input, unbuffered⟩ sizes = some (deliveries, source) := by
  have rooms : ((sizes.map Call.readnb).map Call.room).sum = sizes.sum := by
    have same : Call.room ∘ Call.readnb = id := rfl
    rw [List.map_map, same, List.map_id]
  have sound : (rioReadinitb rio_buf input buffered).rio.Sound := ⟨size, Nat.zero_le _⟩
  have within : ∀ call ∈ sizes.map Call.readnb, call.WithinInt := by
    intro call member
    obtain ⟨n, _, rfl⟩ := List.mem_map.mp member
    exact trivial
  obtain ⟨after, run, _⟩ := runCalls_plain sound within plain
    (by rw [rooms]; exact enough)
  obtain ⟨source, plainRun⟩ := runReadn_plain input plainToo enoughToo
  exact ⟨_, after, source, run, plainRun⟩

/-- Three bytes, one at a time behind a buffer and in two pieces without. -/
theorem rio_readnb_as_readn_pieces : ∃ deliveries after source,
    runCalls (rioReadinitb (List.replicate RIO_BUFSIZE 0) [97, 98, 99]
      (.interrupted :: List.replicate 4 (.moves 0))) ([2, 2].map Call.readnb) =
        some (deliveries, after) ∧
      runReadn ⟨[97, 98, 99], List.replicate 4 (.moves 1)⟩ [2, 2] = some (deliveries, source) :=
  rio_readnb_as_readn _ _ List.length_replicate [2, 2] _ _ (by decide) (by decide) (by decide)
    (by decide)

/-! ### Writing -/

/-- `rio_writen` writes a beginning of `usrbuf`, all of it exactly if it does not return -1. -/
theorem rioWritenLoop_step {n : Nat} {left output : List Byte} {eintr : Bool}
    {answers : List Answer} {ret : Int} {sink : Sink}
    (done : rioWritenLoop n left output eintr answers = some (ret, sink)) :
    ∃ written, sink.output = output ++ written ∧ written <+: left ∧
      ((ret = n ∧ written = left) ∨ (ret = -1 ∧ written ≠ left)) := by
  induction answers generalizing left output eintr with
  | nil =>
      unfold rioWritenLoop at done
      by_cases through : left = []
      · rw [if_pos through] at done
        cases done
        exact ⟨[], (List.append_nil output).symm, List.nil_prefix, Or.inl ⟨rfl, through.symm⟩⟩
      · rw [if_neg through] at done
        cases done
  | cons answer answers ih =>
      unfold rioWritenLoop at done
      by_cases through : left = []
      · rw [if_pos through] at done
        cases done
        exact ⟨[], (List.append_nil output).symm, List.nil_prefix, Or.inl ⟨rfl, through.symm⟩⟩
      · rw [if_neg through] at done
        have nothing : output = output ++ [] ∧ [] <+: left ∧
            (((-1 : Int) = n ∧ [] = left) ∨ ((-1 : Int) = -1 ∧ [] ≠ left)) :=
          ⟨(List.append_nil output).symm, List.nil_prefix, Or.inr ⟨rfl, Ne.symm through⟩⟩
        cases answer with
        | moves short =>
            obtain ⟨written, out, beginning, all⟩ := ih done
            have whole := List.take_append_drop (min left.length (short + 1)) left
            generalize left.take (min left.length (short + 1)) = front at out whole
            generalize left.drop (min left.length (short + 1)) = back at beginning all whole
            rw [← whole]
            refine ⟨front ++ written, ?_, (List.prefix_append_right_inj _).mpr beginning, ?_⟩
            · rw [out, List.append_assoc]
            · rcases all with ⟨counted, same⟩ | ⟨failed, short⟩
              · exact Or.inl ⟨counted, by rw [same]⟩
              · right
                refine ⟨failed, ?_⟩
                intro same
                exact short (List.append_cancel_left same)
        | nothing =>
            dsimp only at done
            by_cases retry : eintr = true
            · rw [if_pos retry] at done
              exact ih done
            · rw [if_neg retry] at done
              cases done
              exact ⟨[], nothing⟩
        | interrupted => exact ih done
        | failed =>
            cases done
            exact ⟨[], nothing⟩

def rioWriteAll (sink : Sink) : List (List Byte) → Option (Bool × Sink)
  | [] => some (true, sink)
  | usrbuf :: rest =>
      (rioWriten sink usrbuf).bind fun one =>
        if one.1 = usrbuf.length then rioWriteAll one.2 rest else some (false, one.2)

/-- What a writer leaves: the lines it wrote whole and the beginning of the next one. -/
structure Written (lines : List (List Byte)) (finished : Bool) (output : List Byte)
    (sent : List (List Byte)) (part : List Byte) : Prop where
  output_eq : output = sent.flatten ++ part
  beginning : sent <+: lines
  all : finished = true → sent = lines ∧ part = []
  stopped : finished = false → ∃ line rest, lines = sent ++ line :: rest ∧ part <+: line ∧ part ≠ line

private theorem rioWriteAll_written {lines : List (List Byte)} {sink after : Sink} {finished : Bool}
    (done : rioWriteAll sink lines = some (finished, after)) :
    ∃ output sent part, after.output = sink.output ++ output ∧
      Written lines finished output sent part := by
  induction lines generalizing sink with
  | nil =>
      cases done
      exact ⟨[], [], [], (List.append_nil _).symm, rfl, List.nil_prefix, fun _ => ⟨rfl, rfl⟩, nofun⟩
  | cons line lines ih =>
      rw [rioWriteAll] at done
      obtain ⟨⟨ret, next⟩, wrote, done⟩ := Option.bind_eq_some_iff.mp done
      obtain ⟨written, out, beginning, all⟩ := rioWritenLoop_step wrote
      dsimp only at done
      rcases all with ⟨counted, same⟩ | ⟨failed, short⟩
      · rw [if_pos counted] at done
        obtain ⟨output, sent, part, later, rest⟩ := ih done
        refine ⟨line ++ output, line :: sent, part, ?_, ?_⟩
        · rw [later, out, same, List.append_assoc]
        · refine ⟨?_, ?_, ?_, ?_⟩
          · rw [rest.output_eq, List.flatten_cons, List.append_assoc]
          · exact List.prefix_cons_inj line |>.mpr rest.beginning
          · intro through
            rw [(rest.all through).1]
            exact ⟨rfl, (rest.all through).2⟩
          · intro stopped
            obtain ⟨other, behind, split, partly⟩ := rest.stopped stopped
            exact ⟨other, behind, by rw [split, List.cons_append], partly⟩
      · have different : ret ≠ line.length := by omega
        rw [if_neg different] at done
        cases done
        exact ⟨written, [], written, out, rfl, List.nil_prefix, nofun,
          fun _ => ⟨line, lines, rfl, beginning, short⟩⟩

/-! ### From a writer to a reader -/

def lineDelivery (line : List Byte) : Delivery := ⟨line.length, line, decide (line ≠ [])⟩

private theorem plainCalls_lines {maxlen : Nat} (room : 1 < maxlen) (count : Nat)
    (stream : List Byte) :
    (plainCalls (List.replicate count (.readlineb maxlen)) stream).1 =
      (readLines 10 (List.replicate count (maxlen - 1)) stream).1.map lineDelivery := by
  induction count generalizing stream with
  | zero => rfl
  | succ count ih =>
      have noLine : ¬ maxlen ≤ 1 := Nat.not_le.mpr room
      rw [List.replicate_succ, plainCalls, List.replicate_succ, readLines]
      dsimp only
      rw [List.map_cons, ← ih]
      simp only [Call.plainly, Call.wanted, lineDelivery, noLine, false_or]

theorem Written.readable {lines sent : List (List Byte)} {finished : Bool} {output part : List Byte}
    {maxlen : Nat} (room : 1 < maxlen) (areLines : ∀ line ∈ lines, IsLine 10 (maxlen - 1) line)
    (written : Written lines finished output sent part) :
    (plainCalls (List.replicate (sent.length + 1) (.readlineb maxlen)) output).1 =
      (sent ++ [part]).map lineDelivery := by
  have whole : readLines 10 (List.replicate sent.length (maxlen - 1)) output = (sent, part) := by
    rw [written.output_eq]
    exact readLines_flatten (fun line member => areLines line (written.beginning.subset member)) part
  have last : firstLine 10 (maxlen - 1) part = part := by
    cases finished with
    | true =>
        rw [(written.all rfl).2]
        exact firstLine_of_absent List.not_mem_nil (Nat.zero_le _)
    | false =>
        obtain ⟨line, rest, split, beginning, short⟩ := written.stopped rfl
        exact (areLines line (by rw [split]; simp)).firstLine_part beginning short
  rw [plainCalls_lines room, readLines_snoc whole, last]

/-- Lines that fit into `maxlen`, an `int`, are written one by one into a descriptor and read from it.
Whatever happens to the writer, the reader gets the lines that were written whole, one with
each call and unchanged, and then the part of the next line that was written, which is empty
when all were. -/
theorem rio_lines_arrive (rio_buf : List Byte) (size : rio_buf.length = RIO_BUFSIZE)
    (maxlen : Nat) (room : 1 < maxlen) (counts : maxlen ≤ INT_MAX) (lines : List (List Byte))
    (areLines : ∀ line ∈ lines, IsLine 10 (maxlen - 1) line) (writes reads : List Answer)
    (finished : Bool) (sink : Sink) (wrote : rioWriteAll ⟨[], false, writes⟩ lines =
      some (finished, sink)) (plain : Plain reads)
    (enough : (lines.length + 1) * (maxlen - 1) ≤ moves reads) :
    ∃ sent part, Written lines finished sink.output sent part ∧
      ∃ after, runCalls (rioReadinitb rio_buf sink.output reads)
        (List.replicate (sent.length + 1) (.readlineb maxlen)) =
          some ((sent ++ [part]).map lineDelivery, after) := by
  obtain ⟨output, sent, part, out, written⟩ := rioWriteAll_written wrote
  rw [List.nil_append] at out
  subst out
  refine ⟨sent, part, written, ?_⟩
  have fewer := written.beginning.length_le
  have rooms : ((List.replicate (sent.length + 1) (Call.readlineb maxlen)).map Call.room).sum ≤
      moves reads := by
    rw [List.map_replicate, List.sum_replicate_nat]
    exact (Nat.mul_le_mul_right (maxlen - 1) (Nat.succ_le_succ fewer)).trans enough
  have sound : (rioReadinitb rio_buf sink.output reads).rio.Sound := ⟨size, Nat.zero_le _⟩
  have within : ∀ call ∈ List.replicate (sent.length + 1) (Call.readlineb maxlen),
      call.WithinInt := by
    intro call member
    rw [List.eq_of_mem_replicate member]
    exact counts
  obtain ⟨after, run, _⟩ := runCalls_plain sound within plain rooms
  refine ⟨after, ?_⟩
  rw [run]
  exact congrArg (fun deliveries => some (deliveries, after)) (written.readable room areLines)

/-- The writer fails in its second line, of which the reader gets one byte. -/
theorem rio_line_and_part_arrive : ∃ finished sink,
    rioWriteAll ⟨[], false, [.moves 0, .interrupted, .nothing, .moves 7, .moves 0, .failed]⟩
      [[97, 10], [98, 10]] = some (finished, sink) ∧ sink.output = [97, 10, 98] ∧
      ∃ sent part, Written [[97, 10], [98, 10]] finished sink.output sent part := by
  refine ⟨false, _, rfl, rfl, ?_⟩
  obtain ⟨sent, part, written, _⟩ := rio_lines_arrive (List.replicate RIO_BUFSIZE 0)
    List.length_replicate 3 (by decide) (by decide) [[97, 10], [98, 10]]
    (fun line member => by
      rcases List.mem_cons.mp member with rfl | later
      · exact ⟨⟨[97], rfl, by decide⟩, by decide⟩
      · rcases List.mem_singleton.mp later with rfl
        exact ⟨⟨[98], rfl, by decide⟩, by decide⟩)
    [.moves 0, .interrupted, .nothing, .moves 7, .moves 0, .failed]
    (.interrupted :: List.replicate 6 (.moves 0)) false _ rfl (by decide) (by decide)
  exact ⟨sent, part, written⟩

end OsCompiler.Rio
