/-
The commands of tShell.

A command runs to its end or stops the program, by `exit(0)` or by following a
`NULL` pointer. The recursion of `Kill_Tree` takes its depth as a parameter here; the
processes created so far bound it.
-/

import OsCompiler.TShell.State

namespace OsCompiler.TShell

inductive Command
  | cr (name : Name) (pri : Int)
  | de (name : Name)
  | req (rid : Rid) (n : Int)
  | rel (rid : Rid) (n : Int)
  | to

namespace Shell

def newPcb (shell : Shell) (name : Name) (pri : Int) : PCB where
  pid := name
  priority := pri
  status := .READY
  blockedList := []
  blockedNum := 0
  parent := shell.current
  child := []
  resours := []

/-- `Create` up to its insertion into a ready list: allocate the PCB and link it to the
creation tree. -/
def allocate (shell : Shell) (name : Name) (pri : Int) : Shell :=
  let pcb := shell.created
  let made := { shell.setPcb pcb (shell.newPcb name pri) with created := shell.created + 1 }
  match shell.current with
  | some id => made.setPcb id { made.pcb id with child := (made.pcb id).child ++ [pcb] }
  | none => made

def create (shell : Shell) (name : Name) (pri : Int) : Except Stop Shell :=
  ((shell.allocate name pri).insertPriority shell.created).scheduler

def freeUnits (shell : Shell) (resours : List Rid) : Shell :=
  resours.foldl (fun freed rid =>
    freed.setRcb rid { freed.rcb rid with status := (freed.rcb rid).status + 1 }) shell

/-- The part of `Kill_Tree` after its recursion: free what the process holds and
unlink it from its ready list. -/
def killOne (shell : Shell) (id : Nat) : Shell :=
  let freed := shell.freeUnits (shell.pcb id).resours
  let emptied := freed.setPcb id { freed.pcb id with resours := [] }
  match levelOf (emptied.pcb id).priority with
  | some level => emptied.setReady level (emptied.deleteNodeList (emptied.ready level) id)
  | none => emptied

def killTree : Nat → Shell → Nat → Except Stop Shell
  | 0, _, _ => throw .stackOverflow
  | depth + 1, shell, id => do
      let killed ← (shell.pcb id).child.foldlM (killTree depth) shell
      pure (killed.killOne id)

def destroy (shell : Shell) (name : Name) : Except Stop Shell :=
  match shell.findNamePcb name with
  | none => pure shell
  | some toDestroy => do
      let killed ← shell.killTree shell.created toDestroy
      killed.scheduler

/-- What `Request` notes in the PCB of a process that has to wait. -/
def block (shell : Shell) (rid : Rid) (id : Nat) (n : Int) : Shell :=
  shell.setPcb id { shell.pcb id with
    status := .BLOCKED, blockedList := (shell.pcb id).blockedList ++ [rid], blockedNum := n }

def enqueueWaiting (shell : Shell) (rid : Rid) (id : Nat) : Shell :=
  shell.setRcb rid { shell.rcb rid with waitList := (shell.rcb rid).waitList ++ [id] }

def grant (shell : Shell) (rid : Rid) (id : Nat) (n : Int) : Shell :=
  let taken := shell.setRcb rid { shell.rcb rid with status := (shell.rcb rid).status - n }
  taken.resourceAllocs rid id n.toNat

def request (shell : Shell) (rid : Rid) (id : Nat) (n : Int) : Except Stop Shell :=
  if (shell.rcb rid).status - n ≥ 0 then pure (shell.grant rid id n)
  else if n > rid.RID then throw .exit
  else do
    let removed ← (shell.block rid id n).removeReady id
    (removed.enqueueWaiting rid id).scheduler

def setStatus (shell : Shell) (id : Nat) (status : Status) : Shell :=
  shell.setPcb id { shell.pcb id with status := status }

/-- One round of the loop of `Release`: `node` is the node under the loop pointer, `q` the
first waiting process. The units and the place on the ready list go to `id`, who releases. -/
def serveNode (shell : Shell) (rid : Rid) (id node q : Nat) : Shell :=
  let paid := shell.setRcb rid
    { shell.rcb rid with status := (shell.rcb rid).status - (shell.pcb node).blockedNum }
  let woken := paid.setStatus q .READY
  let served := woken.resourceAllocs rid id (woken.pcb node).blockedNum.toNat
  served.insertPriority id

/-- The loop of `Release` from the node that `waitList` points to. -/
def serveWaiting (rid : Rid) (id : Nat) : List Nat → Shell → Except Stop Shell
  | [], shell => pure shell
  | node :: rest, shell =>
      if (shell.rcb rid).status ≥ (shell.pcb node).blockedNum then
        match removeWaiting (shell.rcb rid).waitList with
        | none => throw .nullDereference
        | some q => do
            let scheduled ← (shell.serveNode rid id node q).scheduler
            serveWaiting rid id rest scheduled
      else pure shell

/-- `Release` credits what it was asked for, whatever `Resource_Free` removed. -/
def credit (shell : Shell) (rid : Rid) (n : Int) : Shell :=
  shell.setRcb rid { shell.rcb rid with status := (shell.rcb rid).status + n }

def release (shell : Shell) (rid : Rid) (id : Nat) (n : Int) : Except Stop Shell := do
  let freed ← shell.resourceFree rid id n
  let credited := freed.credit rid n
  serveWaiting rid id (credited.rcb rid).waitList credited

def timeOut (shell : Shell) (curr : Nat) : Except Stop Shell := do
  let removed ← shell.removeReady curr
  ((removed.setStatus curr .READY).insertPriority curr).scheduler

/-- The dispatch of `main`. Without a current process the command follows `NULL`. -/
def exec (shell : Shell) : Command → Except Stop Shell
  | .cr name pri => shell.create name pri
  | .de name => shell.destroy name
  | .req rid n =>
      match shell.current with
      | some id => shell.request rid id n
      | none => throw .nullDereference
  | .rel rid n =>
      match shell.current with
      | some id => shell.release rid id n
      | none => throw .nullDereference
  | .to =>
      match shell.current with
      | some id => shell.timeOut id
      | none => throw .nullDereference

def step (shell : Shell) (command : Command) : Option Shell := (shell.exec command).toOption

def initResource : Shell where
  created := 0
  pcb := fun _ => ⟨⟨[], by decide⟩, 0, .READY, [], 0, none, [], []⟩
  rcb := fun rid => ⟨rid.RID, []⟩
  ready := fun _ => []
  current := none

def initName : Name := ⟨['i', 'n', 'i', 't'], by decide⟩

def initProcess : Except Stop Shell := initResource.create initName 0

def boot : Shell where
  created := 1
  pcb := Function.update initResource.pcb 0 (initResource.newPcb initName 0)
  rcb := initResource.rcb
  ready := Function.update initResource.ready .Init [0]
  current := some 0

theorem initProcess_eq : initProcess = .ok boot := rfl

end Shell

end OsCompiler.TShell
