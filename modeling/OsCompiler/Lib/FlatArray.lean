/-
A flat array as a function of the offset, with transfers of contiguous ranges.

This is the abstract memory of a block store: a write replaces one range, a read
returns one range, and cutting a transfer into consecutive pieces changes nothing.
The last section relates it to bounded regions.
-/

import Mathlib.Data.List.Range
import OsCompiler.Lib.Region

namespace OsCompiler

abbrev FlatArray (α : Type) := Nat → α

namespace FlatArray

variable {α : Type}

def overlay (array : FlatArray α) (offset : Nat) (values : List α) : FlatArray α :=
  fun index => if index < offset then array index else (values[index - offset]?).getD (array index)

def slice (array : FlatArray α) (offset count : Nat) : List α :=
  (List.range' offset count).map array

theorem overlay_nil (array : FlatArray α) (offset : Nat) : array.overlay offset [] = array := by
  funext index
  simp [overlay]

theorem overlay_outside (array : FlatArray α) {offset index : Nat} {values : List α}
    (outside : ¬ (offset ≤ index ∧ index < offset + values.length)) :
    array.overlay offset values index = array index := by
  unfold overlay
  by_cases before : index < offset
  · rw [if_pos before]
  · rw [if_neg before, List.getElem?_eq_none (by omega)]
    rfl

theorem overlay_inside (array : FlatArray α) {offset index : Nat} {values : List α}
    (lower : offset ≤ index) (upper : index < offset + values.length) :
    some (array.overlay offset values index) = values[index - offset]? := by
  unfold overlay
  rw [if_neg (by omega), List.getElem?_eq_getElem (by omega)]
  rfl

theorem overlay_append (array : FlatArray α) (offset : Nat) (first second : List α) :
    array.overlay offset (first ++ second) =
      (array.overlay offset first).overlay (offset + first.length) second := by
  funext index
  unfold overlay
  by_cases before : index < offset
  · rw [if_pos before, if_pos (by omega), if_pos before]
  · rw [if_neg before]
    by_cases early : index < offset + first.length
    · rw [if_pos early, if_neg before, List.getElem?_append_left (by omega)]
    · rw [if_neg early, if_neg before, List.getElem?_append_right (by omega),
        List.getElem?_eq_none (l := first) (by omega)]
      have shifted : index - offset - first.length = index - (offset + first.length) := by omega
      rw [shifted]
      rfl

theorem slice_add (array : FlatArray α) (offset first second : Nat) :
    array.slice offset (first + second) =
      array.slice offset first ++ array.slice (offset + first) second := by
  unfold slice
  rw [← List.map_append, ← List.range'_append_1]

theorem slice_length (array : FlatArray α) (offset count : Nat) :
    (array.slice offset count).length = count := by
  simp [slice]

theorem slice_congr {left right : FlatArray α} {offset count : Nat}
    (same : ∀ index, offset ≤ index → index < offset + count → left index = right index) :
    left.slice offset count = right.slice offset count := by
  apply List.map_congr_left
  intro index member
  obtain ⟨lower, upper⟩ := List.mem_range'_1.mp member
  exact same index lower upper

theorem slice_shift {left right : FlatArray α} {offset source count : Nat}
    (same : ∀ step < count, left (offset + step) = right (source + step)) :
    left.slice offset count = right.slice source count := by
  unfold slice
  rw [List.range'_eq_map_range, List.range'_eq_map_range, List.map_map, List.map_map]
  apply List.map_congr_left
  intro step member
  exact same step (List.mem_range.mp member)

/-- Reading back the range just laid over the array. -/
theorem slice_overlay (array : FlatArray α) (offset : Nat) (values : List α) :
    (array.overlay offset values).slice offset values.length = values := by
  apply List.ext_getElem?
  intro index
  by_cases below : index < values.length
  · have atIndex := array.overlay_inside (Nat.le_add_right offset index)
      (by omega : offset + index < offset + values.length)
    rw [Nat.add_sub_cancel_left] at atIndex
    simp [slice, below, atIndex]
  · rw [List.getElem?_eq_none (by rw [slice_length]; omega), List.getElem?_eq_none (by omega)]

/-- Laying over the array what is there already changes nothing. -/
theorem overlay_slice (array : FlatArray α) (offset count : Nat) :
    array.overlay offset (array.slice offset count) = array := by
  funext index
  by_cases inside : offset ≤ index ∧ index < offset + (array.slice offset count).length
  · have atIndex := array.overlay_inside inside.1 inside.2
    rw [slice_length] at inside
    have here : (array.slice offset count)[index - offset]? = some (array index) := by
      have covered : index - offset < count := by omega
      have place : offset + (index - offset) = index := by omega
      simp [slice, covered, place]
    rw [here, Option.some.injEq] at atIndex
    exact atIndex
  · exact array.overlay_outside inside

/-! ### Histories of transfers -/

inductive Transfer (α : Type)
  | read (offset count : Nat)
  | write (offset : Nat) (values : List α)

def transfer (array : FlatArray α) : Transfer α → FlatArray α × List α
  | .read offset count => (array, array.slice offset count)
  | .write offset values => (array.overlay offset values, values)

def transfers (array : FlatArray α) : List (Transfer α) → FlatArray α × List (List α)
  | [] => (array, [])
  | next :: rest =>
      let (array, moved) := array.transfer next
      let (array, later) := array.transfers rest
      (array, moved :: later)

theorem transfers_cons (array : FlatArray α) (next : Transfer α) (rest : List (Transfer α)) :
    array.transfers (next :: rest) =
      (((array.transfer next).1.transfers rest).1,
        (array.transfer next).2 :: ((array.transfer next).1.transfers rest).2) := rfl

theorem transfers_snoc (array : FlatArray α) (history : List (Transfer α)) (last : Transfer α) :
    (array.transfers (history ++ [last])).1 = ((array.transfers history).1.transfer last).1 := by
  induction history generalizing array with
  | nil => rfl
  | cons next rest ih => exact ih (array.transfer next).1

/-- The write covers the index and puts this value there. -/
def Transfer.Puts (next : Transfer α) (index : Nat) (value : α) : Prop :=
  match next with
  | .read _ _ => False
  | .write offset values => offset ≤ index ∧ values[index - offset]? = some value

def Transfer.Misses (next : Transfer α) (index : Nat) : Prop :=
  match next with
  | .read _ _ => True
  | .write offset values => ¬ (offset ≤ index ∧ index < offset + values.length)

theorem transfer_of_misses (array : FlatArray α) {next : Transfer α} {index : Nat}
    (misses : next.Misses index) : (array.transfer next).1 index = array index := by
  cases next with
  | read offset count => rfl
  | write offset values => exact array.overlay_outside misses

theorem transfer_of_puts (array : FlatArray α) {next : Transfer α} {index : Nat} {value : α}
    (puts : next.Puts index value) : (array.transfer next).1 index = value := by
  cases next with
  | read offset count => exact puts.elim
  | write offset values =>
      obtain ⟨lower, found⟩ := puts
      have upper : index - offset < values.length :=
        (List.getElem?_eq_some_iff.mp found).1
      have atIndex := array.overlay_inside lower (by omega : index < offset + values.length)
      rw [found, Option.some.injEq] at atIndex
      exact atIndex

theorem transfers_of_misses (array : FlatArray α) {history : List (Transfer α)} {index : Nat}
    (misses : ∀ next ∈ history, next.Misses index) :
    (array.transfers history).1 index = array index := by
  induction history generalizing array with
  | nil => rfl
  | cons next rest ih =>
      rw [transfers_cons, ih _ (fun other member => misses other (List.mem_cons_of_mem next member)),
        array.transfer_of_misses (misses next List.mem_cons_self)]

/-- After a history, an index holds what the last write that covers it put there. -/
theorem transfers_last_write (array : FlatArray α) (earlier later : List (Transfer α))
    {next : Transfer α} {index : Nat} {value : α} (puts : next.Puts index value)
    (untouched : ∀ other ∈ later, other.Misses index) :
    (array.transfers (earlier ++ next :: later)).1 index = value := by
  induction earlier generalizing array with
  | nil =>
      rw [List.nil_append, transfers_cons, transfers_of_misses _ untouched,
        array.transfer_of_puts puts]
  | cons first rest ih => exact ih (array.transfer first).1

end FlatArray

/-! ### A region as a flat array -/

namespace Region

variable {α : Type} {size : Nat}

def contents [Inhabited α] (region : Region α size) : FlatArray α :=
  fun index => (region.read index).getD default

theorem read_eq_contents [Inhabited α] (region : Region α size) {index : Nat}
    (inside : index < size) : region.read index = some (region.contents index) := by
  rw [contents, read_eq_cell region inside]
  rfl

theorem contents_outside [Inhabited α] (region : Region α size) {index : Nat}
    (outside : size ≤ index) : region.contents index = default := by
  rw [contents, region.read_eq_none.mpr outside]
  rfl

theorem contents_fill [Inhabited α] {value : α} (isDefault : value = default) :
    (fill size value).contents = fun _ => value := by
  funext index
  by_cases inside : index < size
  · rw [contents, read_fill value inside]
    rfl
  · rw [contents_outside _ (Nat.le_of_not_lt inside), isDefault]

theorem copyOut_eq_slice [Inhabited α] (region : Region α size) {offset count : Nat}
    (inside : count = 0 ∨ offset + count ≤ size) :
    region.copyOut offset count = some (region.contents.slice offset count) := by
  obtain ⟨values, copied, cells⟩ := region.copyOut_eq_some inside
  rw [copied, Option.some.injEq]
  apply List.ext_getElem?
  intro index
  by_cases below : index < count
  · rw [cells index below, read_eq_contents region (by omega)]
    simp [FlatArray.slice, below]
  · have short : values.length ≤ index := by
      rw [copyOut_length copied]
      omega
    have sliceShort : (region.contents.slice offset count).length ≤ index := by
      rw [FlatArray.slice_length]
      omega
    rw [List.getElem?_eq_none short, List.getElem?_eq_none sliceShort]

theorem copyIn_eq_overlay [Inhabited α] (region : Region α size) (offset : Nat)
    (values : List α) (inside : values = [] ∨ offset + values.length ≤ size) :
    ∃ after, region.copyIn offset values = some after ∧
      after.contents = region.contents.overlay offset values := by
  obtain ⟨after, copied, cells⟩ := region.copyIn_eq_some inside
  refine ⟨after, copied, ?_⟩
  funext index
  by_cases below : index < size
  · have here := cells index below
    rw [read_eq_contents after below] at here
    by_cases covered : offset ≤ index ∧ index < offset + values.length
    · rw [if_pos covered, ← FlatArray.overlay_inside region.contents covered.1 covered.2,
        Option.some.injEq] at here
      exact here
    · rw [if_neg covered, read_eq_contents region below, Option.some.injEq] at here
      rw [here, FlatArray.overlay_outside _ covered]
  · rw [contents_outside after (Nat.le_of_not_lt below), FlatArray.overlay_outside,
      contents_outside region (Nat.le_of_not_lt below)]
    rcases inside with rfl | bound
    · simp only [List.length_nil]
      omega
    · omega

theorem copyForward_contents [Inhabited α] (region : Region α size) (dest src count : Nat)
    (down : dest ≤ src) (inside : src + count ≤ size) :
    ∃ after, region.copyForward dest src count = some after ∧
      after.contents.slice dest count = region.contents.slice src count := by
  obtain ⟨after, copied, cells⟩ := region.copyForward_eq_some down inside
  refine ⟨after, copied, FlatArray.slice_shift ?_⟩
  intro step below
  have here := cells (dest + step) (by omega)
  rw [if_pos (by omega), Nat.add_sub_cancel_left, read_eq_contents after (by omega),
    read_eq_contents region (by omega), Option.some.injEq] at here
  exact here

end Region

end OsCompiler
