/-
The first line of a stream, cut at a separator or at a limit, whichever comes first.

A stream put together from lines that each end in their only separator and are within
the limit falls apart into the same lines again.
-/

import Mathlib.Data.List.Infix

namespace OsCompiler.FirstLine

variable {α : Type} [DecidableEq α] {separator : α}

/-- At most `limit` items, up to the first separator and with it. -/
def firstLine (separator : α) : (limit : Nat) → List α → List α
  | 0, _ => []
  | _ + 1, [] => []
  | limit + 1, item :: rest =>
      if item = separator then [item] else item :: firstLine separator limit rest

theorem firstLine_of_absent {limit : Nat} {part : List α} (absent : separator ∉ part)
    (within : part.length ≤ limit) : firstLine separator limit part = part := by
  induction part generalizing limit with
  | nil => cases limit <;> rfl
  | cons item part ih =>
      cases limit with
      | zero => exact absurd within (by simp)
      | succ limit =>
          have different : item ≠ separator := by
            intro same
            exact absent (List.mem_cons.mpr (Or.inl same.symm))
          have later : separator ∉ part := fun member => absent (List.mem_cons_of_mem item member)
          rw [firstLine, if_neg different, ih later (Nat.le_of_succ_le_succ within)]

/-- A line that ends in its only separator. -/
structure IsLine (separator : α) (limit : Nat) (line : List α) : Prop where
  ends : ∃ body, line = body ++ [separator] ∧ separator ∉ body
  within : line.length ≤ limit

theorem IsLine.firstLine_append {limit : Nat} {line : List α} (isLine : IsLine separator limit line)
    (rest : List α) : firstLine separator limit (line ++ rest) = line := by
  rcases isLine with ⟨⟨body, rfl, absent⟩, within⟩
  induction body generalizing limit with
  | nil =>
      cases limit with
      | zero => exact absurd within (by simp)
      | succ limit => simp [firstLine]
  | cons item body ih =>
      cases limit with
      | zero => exact absurd within (by simp)
      | succ limit =>
          have different : item ≠ separator := by
            intro same
            exact absent (List.mem_cons.mpr (Or.inl same.symm))
          have later : separator ∉ body := fun member => absent (List.mem_cons_of_mem item member)
          rw [List.cons_append, List.cons_append, firstLine, if_neg different]
          rw [ih later (by simpa using within)]

/-- A line that was cut short is read as it is. -/
theorem IsLine.firstLine_part {limit : Nat} {line part : List α} (isLine : IsLine separator limit line)
    (beginning : part <+: line) (short : part ≠ line) : firstLine separator limit part = part := by
  obtain ⟨⟨body, rfl, absent⟩, within⟩ := isLine
  have inside : part <+: body := by
    rcases List.prefix_concat_iff.mp beginning with whole | inside
    · exact absurd whole short
    · exact inside
  have length := inside.length_le
  rw [List.length_append, List.length_singleton] at within
  apply firstLine_of_absent
  · intro member
    exact absent (inside.subset member)
  · omega

def readLines (separator : α) : (limits : List Nat) → List α → List (List α) × List α
  | [], stream => ([], stream)
  | limit :: limits, stream =>
      let line := firstLine separator limit stream
      let later := readLines separator limits (stream.drop line.length)
      (line :: later.1, later.2)

/-- Lines that were joined come apart again. -/
theorem readLines_flatten {limit : Nat} {lines : List (List α)}
    (areLines : ∀ line ∈ lines, IsLine separator limit line) (rest : List α) :
    readLines separator (List.replicate lines.length limit) (lines.flatten ++ rest) =
      (lines, rest) := by
  induction lines with
  | nil => rfl
  | cons line lines ih =>
      rw [List.length_cons, List.replicate_succ, readLines, List.flatten_cons, List.append_assoc,
        (areLines line (by simp)).firstLine_append, List.drop_left,
        ih fun other member => areLines other (List.mem_cons_of_mem line member)]

theorem readLines_snoc {limit count : Nat} {stream rest : List α} {lines : List (List α)}
    (begins : readLines separator (List.replicate count limit) stream = (lines, rest)) :
    (readLines separator (List.replicate (count + 1) limit) stream).1 =
      lines ++ [firstLine separator limit rest] := by
  induction count generalizing stream lines with
  | zero =>
      cases begins
      rfl
  | succ count ih =>
      rw [List.replicate_succ, readLines] at begins
      generalize later : readLines separator (List.replicate count limit)
        (stream.drop (firstLine separator limit stream).length) = pair at begins
      obtain ⟨others, last⟩ := pair
      cases begins
      rw [List.replicate_succ, readLines]
      simp only [ih later, List.cons_append]

end OsCompiler.FirstLine
