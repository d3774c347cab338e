/-
The copy assistant: files of a directory that are newer than a given time are copied
into another one, with the directories they lie in.

The source is what `opendir`, `readdir`, `stat` and `read` answer in the course of the run,
the destination a tree that the calls change. Path strings are kept as the names they are
made of, with the length of the string beside them, since they are built with `strcat` in
buffers of 256 bytes. A string too long for its buffer yields `none`, and so does a look at
a `Stat` that `stat` has not filled.

A directory is never closed, and a source file stays open where its destination cannot be
opened, so that the process may run out of descriptors.
-/

import Mathlib.Data.List.Basic
import Mathlib.Logic.Function.Basic

namespace OsCompiler.CopyAssitants

abbrev Bytes := List UInt8

/-- A name in a directory: no slash and no NUL in it. -/
abbrev Name := List UInt8

def dirMaxDepth : Nat := 256
def buffMaxSize : Nat := 256

/-- What `stat` says of a name. A directory that `opendir` refuses is `sealed`; a regular file
that may not be read is treated like all that is neither a directory nor a regular file. -/
inductive Stat
  | regular (content : Bytes) (mtime : Int)
  | sealed
  | other
  | failed
  deriving DecidableEq

/-- What `readdir` returns of an opened directory, in its order. A name that starts with a
dot is passed over whatever it is. -/
inductive Listing
  | done
  | leaf (name : Name) (stat : Stat) (rest : Listing)
  | directory (name : Name) (inner rest : Listing)

inductive Entry
  | directory
  | regular (content : Bytes)
  deriving DecidableEq

/-- The destination by path; `[]` is the directory given on the command line. -/
abbrev Tree := List Name → Option Entry

/-- The destination and how many files the process may still open. -/
structure State where
  tree : Tree
  descriptors : Nat

/-- What the kernel grants the process: to make the destination, to make or to write what is
at a path in it, and that many open files at once. -/
structure Grants where
  desParent : Bool
  permits : List Name → Bool
  descriptors : Nat

/-! ### Files -/

def writeAt (content : Bytes) (offset : Nat) (bytes : Bytes) : Bytes :=
  content.take offset ++ bytes ++ content.drop (offset + bytes.length)

def copyLoop (content : Bytes) (offset : Nat) (left : Bytes) : Bytes :=
  if left.length = 0 then content
  else
    let buf := left.take buffMaxSize
    copyLoop (writeAt content offset buf) (offset + buf.length) (left.drop buffMaxSize)
termination_by left.length
decreasing_by simp only [List.length_drop, buffMaxSize]; omega

section Calls

variable (permits : List Name → Bool)

/-- `open(dest, O_RDWR | O_CREAT)` with a descriptor to spare: what the file holds then. -/
def openDest (tree : Tree) (des : List Name) (name : Name) : Option Bytes :=
  if !permits (des ++ [name]) then none
  else
    match tree (des ++ [name]) with
    | some .directory => none
    | some (.regular content) => some content
    | none => if tree des = some .directory then some [] else none

/-- The source takes one descriptor and the destination another. -/
def copyFile (state : State) (des : List Name) (name : Name) (src : Bytes) : State × Int :=
  if state.descriptors = 0 then (state, -1)
  else
    let destFd := if state.descriptors = 1 then none else openDest permits state.tree des name
    match destFd with
    | none => ({ state with descriptors := state.descriptors - 1 }, -1)
    | some content =>
        let copied : Entry := .regular (copyLoop content 0 src)
        ({ state with tree := Function.update state.tree (des ++ [name]) (some copied) }, 0)

def folderMake (tree : Tree) (des : List Name) (name : Name) : Tree × Int :=
  if (tree (des ++ [name])).isSome then (tree, 1)
  else if permits (des ++ [name]) = true ∧ tree des = some .directory then
    (Function.update tree (des ++ [name]) (some .directory), 0)
  else (tree, -1)

/-! ### The recursion over the source -/

def fits (length : Nat) (name : Name) : Bool := length + 1 + name.length < dirMaxDepth

def isHidden (name : Name) : Bool := name.head? == some 46

/-- `recursive` behind its `opendir`. `desLen` and `pathLen` are the lengths of the two path
strings. -/
def recursive (time : Int) :
    Listing → (desLen pathLen : Nat) → (des : List Name) → State → Option State
  | .done, _, _, _, state => some state
  | .leaf name stat rest, desLen, pathLen, des, state =>
      if !fits pathLen name then none
      else if isHidden name then recursive time rest desLen pathLen des state
      else if !fits desLen name then none
      else
        match stat with
        | .failed => none
        | .sealed =>
            let tree := (folderMake permits state.tree des name).1
            recursive time rest desLen pathLen des { state with tree := tree }
        | .regular content mtime =>
            if mtime > time then
              recursive time rest desLen pathLen des (copyFile permits state des name content).1
            else recursive time rest desLen pathLen des state
        | .other => recursive time rest desLen pathLen des state
  | .directory name inner rest, desLen, pathLen, des, state =>
      if !fits pathLen name then none
      else if isHidden name then recursive time rest desLen pathLen des state
      else if !fits desLen name then none
      else
        let tree := (folderMake permits state.tree des name).1
        let below :=
          if state.descriptors = 0 then some { state with tree := tree }
          else
            recursive time inner (desLen + 1 + name.length) (pathLen + 1 + name.length)
              (des ++ [name]) ⟨tree, state.descriptors - 1⟩
        below.bind fun state => recursive time rest desLen pathLen des state

end Calls

def timeToInt (mktime : Bytes → Int) (time : Bytes) : Int :=
  if time.length ≠ 14 then 0 else mktime time

/-- The source path of the command line: nothing there, nothing that `opendir` opens, or a
directory. -/
inductive Source
  | absent
  | noDirectory
  | directory (listing : Listing)

def main (mktime : Bytes → Int) (time : Bytes) (desLen srcLen : Nat) (src : Source)
    (grants : Grants) (tree : Tree) : Option Tree :=
  let timeFile := timeToInt mktime time
  match src with
  | .absent => some tree
  | .noDirectory => some (makeDes tree)
  | .directory listing =>
      if grants.descriptors = 0 then some (makeDes tree)
      else
        let opened : State := ⟨makeDes tree, grants.descriptors - 1⟩
        (recursive grants.permits timeFile listing desLen srcLen [] opened).map State.tree
where
  makeDes (tree : Tree) : Tree :=
    if (tree []).isNone && grants.desParent then Function.update tree [] (some .directory)
    else tree

/-! ### One copied file -/

section WriteAt

variable {content : Bytes} {offset : Nat}

theorem length_upTo (bytes : Bytes) (inside : offset ≤ content.length) :
    (content.take offset ++ bytes).length = offset + bytes.length := by
  rw [List.length_append, List.length_take_of_le inside]

private theorem take_writeAt (bytes : Bytes) (inside : offset ≤ content.length) :
    (writeAt content offset bytes).take (offset + bytes.length) =
      content.take offset ++ bytes := by
  rw [writeAt, ← length_upTo bytes inside, List.take_left]

private theorem drop_writeAt (bytes : Bytes) (inside : offset ≤ content.length) (further : Nat) :
    (writeAt content offset bytes).drop (offset + bytes.length + further) =
      content.drop (offset + bytes.length + further) := by
  rw [writeAt, ← List.drop_drop, ← length_upTo bytes inside, List.drop_left,
    length_upTo bytes inside, List.drop_drop]

private theorem le_length_writeAt (bytes : Bytes) (inside : offset ≤ content.length) :
    offset + bytes.length ≤ (writeAt content offset bytes).length := by
  rw [writeAt, List.length_append, length_upTo bytes inside]
  exact Nat.le_add_right _ _

end WriteAt

/-- The pieces end up one behind the other, and what lay behind them stays. -/
theorem copyLoop_eq (content : Bytes) {offset : Nat} (left : Bytes)
    (inside : offset ≤ content.length) :
    copyLoop content offset left =
      content.take offset ++ left ++ content.drop (offset + left.length) := by
  fun_induction copyLoop content offset left with
  | case1 content offset left empty =>
      rw [List.length_eq_zero_iff.mp empty, List.append_nil, List.length_nil, Nat.add_zero,
        List.take_append_drop]
  | case2 content offset left more buf ih =>
      have pieces : buf ++ left.drop buffMaxSize = left := List.take_append_drop _ _
      have lengths : offset + buf.length + (left.drop buffMaxSize).length =
          offset + left.length := by
        rw [Nat.add_assoc, ← List.length_append, pieces]
      rw [ih (le_length_writeAt buf inside), take_writeAt buf inside, drop_writeAt buf inside,
        lengths, List.append_assoc (content.take offset), pieces]

def overwritten (content src : Bytes) : Bytes := src ++ content.drop src.length

theorem copyLoop_zero (content src : Bytes) :
    copyLoop content 0 src = overwritten content src := by
  rw [copyLoop_eq content src (Nat.zero_le _), List.take_zero, List.nil_append, Nat.zero_add,
    overwritten]

theorem overwritten_nil (src : Bytes) : overwritten [] src = src := by
  rw [overwritten, List.drop_nil, List.append_nil]

theorem overwritten_twice (content src : Bytes) :
    overwritten (overwritten content src) src = overwritten content src := by
  rw [overwritten, overwritten, List.drop_left]

theorem overwritten_eq_iff (content src : Bytes) :
    overwritten content src = src ↔ content.length ≤ src.length := by
  rw [overwritten, List.append_right_eq_self, List.drop_eq_nil_iff]

end OsCompiler.CopyAssitants
