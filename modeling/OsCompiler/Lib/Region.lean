/-
Fixed-size memory regions with checked access.

A region is an allocated block of a given number of cells. Every load, store and
copy checks its index and yields `none` outside the block, so that a computation
over regions that ends in `some` has touched allocated cells only.
-/

import Mathlib.Data.List.Range
import OsCompiler.Lib.Loop

namespace OsCompiler

structure Region (α : Type) (size : Nat) where
  cell : Fin size → α

namespace Region

variable {α : Type} {size : Nat}

def fill (size : Nat) (value : α) : Region α size := ⟨fun _ => value⟩

def set (region : Region α size) (index : Nat) (value : α) : Region α size :=
  ⟨fun other => if other.val = index then value else region.cell other⟩

def read (region : Region α size) (index : Nat) : Option α :=
  if inside : index < size then some (region.cell ⟨index, inside⟩) else none

def write (region : Region α size) (index : Nat) (value : α) : Option (Region α size) :=
  if index < size then some (region.set index value) else none

theorem read_eq_cell (region : Region α size) {index : Nat} (inside : index < size) :
    region.read index = some (region.cell ⟨index, inside⟩) := by
  rw [read, dif_pos inside]

theorem exists_read (region : Region α size) {index : Nat} (inside : index < size) :
    ∃ value, region.read index = some value :=
  ⟨_, region.read_eq_cell inside⟩

theorem read_eq_none (region : Region α size) {index : Nat} :
    region.read index = none ↔ size ≤ index := by
  by_cases inside : index < size
  · simp [read, inside]
  · simp [read, inside, Nat.le_of_not_lt inside]

theorem lt_of_read {region : Region α size} {index : Nat} {value : α}
    (found : region.read index = some value) : index < size := by
  by_contra outside
  rw [region.read_eq_none.mpr (Nat.le_of_not_lt outside)] at found
  cases found

@[simp] theorem read_fill (value : α) {index : Nat} (inside : index < size) :
    (fill size value).read index = some value := by
  rw [read_eq_cell _ inside]
  rfl

theorem write_eq_set (region : Region α size) {index : Nat} (value : α)
    (inside : index < size) : region.write index value = some (region.set index value) := by
  rw [write, if_pos inside]

theorem write_eq_none (region : Region α size) {index : Nat} (value : α)
    (outside : size ≤ index) : region.write index value = none := by
  rw [write, if_neg (Nat.not_lt.mpr outside)]

theorem read_set_self (region : Region α size) {index : Nat} (value : α)
    (inside : index < size) : (region.set index value).read index = some value := by
  rw [read_eq_cell _ inside]
  simp [set]

theorem read_set_ne (region : Region α size) {index other : Nat} (value : α)
    (different : other ≠ index) : (region.set index value).read other = region.read other := by
  by_cases inside : other < size
  · rw [read_eq_cell _ inside, read_eq_cell _ inside]
    simp [set, different]
  · rw [read_eq_none _ |>.mpr (Nat.le_of_not_lt inside),
      read_eq_none _ |>.mpr (Nat.le_of_not_lt inside)]

/-! ### A list in the first cells -/

def StartsWith (region : Region α size) (values : List α) : Prop :=
  ∀ index < values.length, region.read index = values[index]?

theorem startsWith_nil (region : Region α size) : region.StartsWith [] :=
  fun index below => absurd below (Nat.not_lt_zero index)

/-- Writing behind the list appends to it. -/
theorem StartsWith.set {region : Region α size} {values : List α}
    (starts : region.StartsWith values) (room : values.length < size) (value : α) :
    (region.set values.length value).StartsWith (values ++ [value]) := by
  intro index below
  rw [List.length_append, List.length_singleton] at below
  rcases Nat.lt_succ_iff_lt_or_eq.mp below with earlier | rfl
  · rw [read_set_ne _ _ (Nat.ne_of_lt earlier), starts index earlier,
      List.getElem?_append_left earlier]
  · rw [read_set_self _ _ room, List.getElem?_concat_length]

/-! ### Copies: one checked access for each cell, in rising order -/

def copyOut (region : Region α size) (offset : Nat) : Nat → Option (List α)
  | 0 => some []
  | count + 1 => do
      let value ← region.read offset
      let rest ← region.copyOut (offset + 1) count
      pure (value :: rest)

def copyIn (region : Region α size) (offset : Nat) : List α → Option (Region α size)
  | [] => some region
  | value :: rest => do
      let region ← region.write offset value
      region.copyIn (offset + 1) rest

theorem copyOut_length {region : Region α size} {offset count : Nat} {values : List α}
    (copied : region.copyOut offset count = some values) : values.length = count := by
  induction count generalizing offset values with
  | zero =>
      cases copied
      rfl
  | succ count ih =>
      simp only [copyOut, Option.bind_eq_bind, Option.bind_eq_some_iff] at copied
      obtain ⟨value, _, rest, restCopied, same⟩ := copied
      cases same
      rw [List.length_cons, ih restCopied]

/-- A copy out of the region is the list of its cells in that range. -/
theorem copyOut_eq_some (region : Region α size) {offset count : Nat}
    (inside : count = 0 ∨ offset + count ≤ size) :
    ∃ values, region.copyOut offset count = some values ∧
      ∀ index < count, values[index]? = region.read (offset + index) := by
  induction count generalizing offset with
  | zero => exact ⟨[], rfl, fun index below => absurd below (Nat.not_lt_zero index)⟩
  | succ count ih =>
      have here : offset < size := by omega
      obtain ⟨rest, restCopied, restCells⟩ := ih
        (by omega : count = 0 ∨ offset + 1 + count ≤ size)
      refine ⟨region.cell ⟨offset, here⟩ :: rest, ?_, ?_⟩
      · simp only [copyOut, read_eq_cell region here, restCopied, Option.bind_eq_bind,
          Option.bind_some]
        rfl
      · intro index below
        cases index with
        | zero => simp [read_eq_cell region here]
        | succ index =>
            rw [List.getElem?_cons_succ, restCells index (by omega)]
            congr 1
            omega

theorem copyOut_eq_none (region : Region α size) {offset count : Nat}
    (positive : 0 < count) (outside : size < offset + count) :
    region.copyOut offset count = none := by
  induction count generalizing offset with
  | zero => exact absurd positive (Nat.lt_irrefl 0)
  | succ count ih =>
      by_cases here : offset < size
      · have later : region.copyOut (offset + 1) count = none :=
          ih (by omega) (by omega)
        simp [copyOut, later]
      · simp [copyOut, region.read_eq_none.mpr (Nat.le_of_not_lt here)]

/-- A copy into the region changes the copied range and nothing else. -/
theorem copyIn_eq_some (region : Region α size) {offset : Nat} {values : List α}
    (inside : values = [] ∨ offset + values.length ≤ size) :
    ∃ after, region.copyIn offset values = some after ∧
      ∀ index < size, after.read index =
        if offset ≤ index ∧ index < offset + values.length then values[index - offset]?
        else region.read index := by
  induction values generalizing offset region with
  | nil =>
      refine ⟨region, rfl, ?_⟩
      intro index _
      rw [if_neg]
      simp only [List.length_nil]
      omega
  | cons value rest ih =>
      have bound : offset + (rest.length + 1) ≤ size := by
        rcases inside with impossible | bound
        · cases impossible
        · exact bound
      have here : offset < size := by omega
      obtain ⟨after, copied, cells⟩ := ih (region.set offset value)
        (Or.inr (by omega) : rest = [] ∨ offset + 1 + rest.length ≤ size)
      refine ⟨after, ?_, ?_⟩
      · simp only [copyIn, write_eq_set region value here, Option.bind_eq_bind, Option.bind_some]
        exact copied
      · intro index below
        rw [cells index below]
        rcases Nat.lt_trichotomy index offset with before | same | behind
        · rw [if_neg (by omega), if_neg (by omega), read_set_ne _ _ (by omega)]
        · subst same
          rw [if_neg (by omega), if_pos (by simp), read_set_self _ _ here]
          simp
        · simp only [List.length_cons]
          by_cases covered : index < offset + (rest.length + 1)
          · rw [if_pos (by omega), if_pos (by omega)]
            obtain ⟨gap, rfl⟩ := Nat.exists_eq_add_of_lt behind
            have first : offset + gap + 1 - (offset + 1) = gap := by omega
            have second : offset + gap + 1 - offset = gap + 1 := by omega
            rw [first, second, List.getElem?_cons_succ]
          · rw [if_neg (by omega), if_neg (by omega), read_set_ne _ _ (by omega)]

theorem copyIn_eq_none (region : Region α size) {offset : Nat} {values : List α}
    (nonempty : values ≠ []) (outside : size < offset + values.length) :
    region.copyIn offset values = none := by
  induction values generalizing offset region with
  | nil => exact absurd rfl nonempty
  | cons value rest ih =>
      by_cases here : offset < size
      · simp only [copyIn, write_eq_set region value here, Option.bind_eq_bind, Option.bind_some]
        rw [List.length_cons] at outside
        apply ih
        · intro same
          subst same
          rw [List.length_nil] at outside
          omega
        · omega
      · simp [copyIn, region.write_eq_none value (Nat.le_of_not_lt here)]

/-- A region starts with the list that a copy of as many cells returns. -/
theorem startsWith_iff_copyOut {region : Region α size} {values : List α} :
    region.StartsWith values ↔ region.copyOut 0 values.length = some values := by
  constructor
  · intro starts
    have inside : values.length = 0 ∨ 0 + values.length ≤ size := by
      rcases Nat.eq_zero_or_pos values.length with zero | positive
      · exact Or.inl zero
      · have last : values.length - 1 < values.length := by omega
        have bound := lt_of_read ((starts _ last).trans (List.getElem?_eq_getElem last))
        exact Or.inr (by omega)
    rcases region.copyOut_eq_some inside with ⟨copied, copy, cells⟩
    rw [copy, Option.some.injEq]
    apply List.ext_getElem? fun index => ?_
    by_cases below : index < values.length
    · rw [cells index below, Nat.zero_add, starts index below]
    · have short := Nat.le_of_not_lt below
      rw [List.getElem?_eq_none short, List.getElem?_eq_none ((copyOut_length copy).trans_le short)]
  · intro copy index below
    have inside : values.length = 0 ∨ 0 + values.length ≤ size := by
      by_contra outside
      have fails := region.copyOut_eq_none (by omega : 0 < values.length)
        (by omega : size < 0 + values.length)
      rw [copy] at fails
      cases fails
    rcases region.copyOut_eq_some inside with ⟨copied, copied', cells⟩
    rw [copy, Option.some.injEq] at copied'
    rw [copied', cells index below, Nat.zero_add]

/-! ### Copying within one region -/

/-- A copy inside the region that moves its cells in rising order. -/
def copyForward (region : Region α size) (dest src count : Nat) : Option (Region α size) :=
  forRange 0 count (fun step region => do
    let value ← region.read (src + step)
    region.write (dest + step) value) region

/-- Moving down is safe in rising order: no source cell is overwritten before its turn. -/
theorem copyForward_eq_some (region : Region α size) {dest src count : Nat}
    (down : dest ≤ src) (inside : src + count ≤ size) :
    ∃ after, region.copyForward dest src count = some after ∧
      ∀ index < size, after.read index =
        if dest ≤ index ∧ index < dest + count then region.read (src + (index - dest))
        else region.read index := by
  apply forRange_progress (fun step (after : Region α size) => ∀ index < size,
    after.read index = if dest ≤ index ∧ index < dest + step
      then region.read (src + (index - dest)) else region.read index) (Nat.zero_le count)
  · intro index _
    rw [if_neg (by omega)]
  · intro step middle _ upper cells
    have source : src + step < size := by omega
    have untouched : middle.read (src + step) = some (region.cell ⟨src + step, source⟩) := by
      rw [cells _ source, if_neg (by omega), read_eq_cell region source]
    refine ⟨middle.set (dest + step) (region.cell ⟨src + step, source⟩), ?_, ?_⟩
    · simp only [untouched, Option.bind_eq_bind, Option.bind_some]
      exact write_eq_set _ _ (by omega)
    · intro index below
      by_cases here : index = dest + step
      · rw [here, read_set_self _ _ (by omega), if_pos (by omega)]
        have gap : dest + step - dest = step := by omega
        rw [gap, read_eq_cell region source]
      · rw [read_set_ne _ _ here, cells index below]
        by_cases covered : dest ≤ index ∧ index < dest + step
        · rw [if_pos covered, if_pos (by omega)]
        · rw [if_neg covered, if_neg (by omega)]

end Region

end OsCompiler
