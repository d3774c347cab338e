/-
The process and resource tables of tShell and the list operations on them.

A `PCB *` is the number of the process in order of creation; PCBs are never freed.
Every list of the source begins with a header node, so a list here holds what
follows the header. `malloc` memory that the source leaves unset reads as zero.
-/

import Mathlib.Logic.Function.Basic

namespace OsCompiler.TShell

def NAME_LEN : Nat := 16

/-- A process name with its terminating zero fits in `pid`. -/
structure Name where
  chars : List Char
  fits : chars.length < NAME_LEN
  deriving DecidableEq

inductive Status
  | READY
  | BLOCKED
  | RUNNING
  deriving DecidableEq

inductive Rid
  | R1
  | R2
  | R3
  | R4
  deriving DecidableEq

/-- `RID`, also the number of units that `init_resource` starts with. -/
def Rid.RID : Rid → Int
  | .R1 => 1
  | .R2 => 2
  | .R3 => 3
  | .R4 => 4

inductive Level
  | System
  | User
  | Init
  deriving DecidableEq

def levelOf (priority : Int) : Option Level :=
  if priority = 2 then some .System
  else if priority = 1 then some .User
  else if priority = 0 then some .Init
  else none

structure PCB where
  pid : Name
  priority : Int
  status : Status
  blockedList : List Rid
  blockedNum : Int
  parent : Option Nat
  child : List Nat
  resours : List Rid

structure RCB where
  status : Int
  waitList : List Nat

inductive Stop
  | exit
  | nullDereference
  | stackOverflow
  deriving DecidableEq

structure Shell where
  created : Nat
  pcb : Nat → PCB
  rcb : Rid → RCB
  ready : Level → List Nat
  current : Option Nat

namespace Shell

def setPcb (shell : Shell) (id : Nat) (pcb : PCB) : Shell :=
  { shell with pcb := Function.update shell.pcb id pcb }

def setRcb (shell : Shell) (rid : Rid) (rcb : RCB) : Shell :=
  { shell with rcb := Function.update shell.rcb rid rcb }

def setReady (shell : Shell) (level : Level) (list : List Nat) : Shell :=
  { shell with ready := Function.update shell.ready level list }

section Fields

variable (shell : Shell)

@[simp] theorem setPcb_pcb (id : Nat) (pcb : PCB) :
    (shell.setPcb id pcb).pcb = Function.update shell.pcb id pcb := rfl

@[simp] theorem setPcb_rcb (id : Nat) (pcb : PCB) : (shell.setPcb id pcb).rcb = shell.rcb := rfl

@[simp] theorem setPcb_ready (id : Nat) (pcb : PCB) :
    (shell.setPcb id pcb).ready = shell.ready := rfl

@[simp] theorem setPcb_created (id : Nat) (pcb : PCB) :
    (shell.setPcb id pcb).created = shell.created := rfl

@[simp] theorem setPcb_current (id : Nat) (pcb : PCB) :
    (shell.setPcb id pcb).current = shell.current := rfl

@[simp] theorem setRcb_pcb (rid : Rid) (rcb : RCB) : (shell.setRcb rid rcb).pcb = shell.pcb := rfl

@[simp] theorem setRcb_rcb (rid : Rid) (rcb : RCB) :
    (shell.setRcb rid rcb).rcb = Function.update shell.rcb rid rcb := rfl

@[simp] theorem setRcb_ready (rid : Rid) (rcb : RCB) :
    (shell.setRcb rid rcb).ready = shell.ready := rfl

@[simp] theorem setRcb_created (rid : Rid) (rcb : RCB) :
    (shell.setRcb rid rcb).created = shell.created := rfl

@[simp] theorem setRcb_current (rid : Rid) (rcb : RCB) :
    (shell.setRcb rid rcb).current = shell.current := rfl

@[simp] theorem setReady_pcb (level : Level) (list : List Nat) :
    (shell.setReady level list).pcb = shell.pcb := rfl

@[simp] theorem setReady_rcb (level : Level) (list : List Nat) :
    (shell.setReady level list).rcb = shell.rcb := rfl

@[simp] theorem setReady_ready (level : Level) (list : List Nat) :
    (shell.setReady level list).ready = Function.update shell.ready level list := rfl

@[simp] theorem setReady_created (level : Level) (list : List Nat) :
    (shell.setReady level list).created = shell.created := rfl

@[simp] theorem setReady_current (level : Level) (list : List Nat) :
    (shell.setReady level list).current = shell.current := rfl

end Fields

/-! ### Helper functions -/

def insertPriority (shell : Shell) (id : Nat) : Shell :=
  match levelOf (shell.pcb id).priority with
  | some level => shell.setReady level (shell.ready level ++ [id])
  | none => shell

def resourceAlloc (shell : Shell) (rid : Rid) (id : Nat) : Shell :=
  shell.setPcb id { shell.pcb id with resours := (shell.pcb id).resours ++ [rid] }

def resourceAllocs (shell : Shell) (rid : Rid) (id : Nat) : Nat → Shell
  | 0 => shell
  | count + 1 => (shell.resourceAlloc rid id).resourceAllocs rid id count

def freeNodes (rid : Rid) : List Rid → Int → List Rid
  | [], _ => []
  | node :: rest, n =>
      if n > 0 then
        if node = rid then freeNodes rid rest (n - 1) else node :: freeNodes rid rest n
      else node :: rest

def dropUnits (shell : Shell) (rid : Rid) (id : Nat) (n : Int) : Shell :=
  shell.setPcb id { shell.pcb id with resours := freeNodes rid (shell.pcb id).resours n }

def resourceFree (shell : Shell) (rid : Rid) (id : Nat) (n : Int) : Except Stop Shell :=
  if (shell.pcb id).resours = [] then throw .exit else pure (shell.dropUnits rid id n)

/-- Removes the first node of that name. The loop reads `temNode->pcb` before it tests
`temNode` for `NULL`. -/
def removeReadySingle (shell : Shell) (id : Nat) : List Nat → Except Stop (List Nat)
  | [] => throw .nullDereference
  | node :: rest =>
      if (shell.pcb node).pid = (shell.pcb id).pid then pure rest
      else do
        let rest ← shell.removeReadySingle id rest
        pure (node :: rest)

def removeReady (shell : Shell) (id : Nat) : Except Stop Shell :=
  match levelOf (shell.pcb id).priority with
  | some level => do
      let list ← shell.removeReadySingle id (shell.ready level)
      pure (shell.setReady level list)
  | none => pure shell

/-- `Remove_Waiting` looks at the first waiting process and removes nothing. -/
def removeWaiting (waitList : List Nat) : Option Nat := waitList.head?

def findPcb (shell : Shell) : Option Nat :=
  match shell.ready .System with
  | id :: _ => some id
  | [] =>
      match shell.ready .User with
      | id :: _ => some id
      | [] => (shell.ready .Init).head?

def findNamePcb (shell : Shell) (name : Name) : Option Nat :=
  let named := fun id => (shell.pcb id).pid = name
  match (shell.ready .System).find? named with
  | some id => some id
  | none =>
      match (shell.ready .User).find? named with
      | some id => some id
      | none => (shell.ready .Init).find? named

def deleteNodeList (shell : Shell) (list : List Nat) (id : Nat) : List Nat :=
  list.eraseP fun node => (shell.pcb node).pid = (shell.pcb id).pid

/-- `preempt` prints the name of the process it is given. -/
def preempt (shell : Shell) : Option Nat → Except Stop Shell
  | some curr => pure { shell with current := some curr }
  | none => throw .nullDereference

def scheduler (shell : Shell) : Except Stop Shell :=
  let curPcb := shell.findPcb
  match shell.current with
  | none => shell.preempt curPcb
  | some id =>
      if (shell.pcb id).status ≠ .RUNNING then shell.preempt curPcb
      else
        match curPcb with
        | none => throw .nullDereference
        | some cur =>
            if (shell.pcb id).priority < (shell.pcb cur).priority then
              (shell.setPcb id { shell.pcb id with status := .READY }).preempt (some cur)
            else pure shell

end Shell

end OsCompiler.TShell
