/-
What a command of tShell can do, and the scheduling invariant of all its runs.

`Effect` lists the ways in which a command completes. It is read off the commands
under the invariant `Consistent`, which it keeps; the other results about runs go by
cases on it.
-/

import OsCompiler.TShell.KillTree
import OsCompiler.Lib.Transition

namespace OsCompiler.TShell

open OsCompiler.Transition

/-- The ready lists that `Find_PCB` looks at before this one. -/
def Level.above : Level → List Level
  | .System => []
  | .User => [.System]
  | .Init => [.System, .User]

namespace Shell

variable {shell after : Shell}

/-! ### Frames of the helper functions -/

@[simp] theorem insertPriority_pcb (id : Nat) : (shell.insertPriority id).pcb = shell.pcb := by
  unfold insertPriority
  split <;> rfl

@[simp] theorem insertPriority_rcb (id : Nat) : (shell.insertPriority id).rcb = shell.rcb := by
  unfold insertPriority
  split <;> rfl

@[simp] theorem insertPriority_created (id : Nat) :
    (shell.insertPriority id).created = shell.created := by
  unfold insertPriority
  split <;> rfl

@[simp] theorem insertPriority_current (id : Nat) :
    (shell.insertPriority id).current = shell.current := by
  unfold insertPriority
  split <;> rfl

theorem insertPriority_ready (id : Nat) (level : Level) :
    (shell.insertPriority id).ready level =
      if levelOf (shell.pcb id).priority = some level then shell.ready level ++ [id]
      else shell.ready level := by
  unfold insertPriority
  cases own : levelOf (shell.pcb id).priority with
  | none => simp
  | some inside =>
      by_cases same : inside = level
      · subst same
        simp
      · simp [same, Ne.symm same]

theorem mem_insertPriority_ready {id other : Nat} {level : Level} :
    other ∈ (shell.insertPriority id).ready level ↔
      other ∈ shell.ready level ∨
        (other = id ∧ levelOf (shell.pcb id).priority = some level) := by
  rw [insertPriority_ready]
  split <;> simp [*]

@[simp] theorem setStatus_rcb (id : Nat) (status : Status) :
    (shell.setStatus id status).rcb = shell.rcb := rfl

@[simp] theorem setStatus_ready (id : Nat) (status : Status) :
    (shell.setStatus id status).ready = shell.ready := rfl

@[simp] theorem setStatus_created (id : Nat) (status : Status) :
    (shell.setStatus id status).created = shell.created := rfl

/-- A change of status leaves every other field of every PCB alone. -/
theorem setStatus_pcb (id : Nat) (status : Status) (other : Nat) :
    (shell.setStatus id status).pcb other = { shell.pcb other with
      status := if other = id then status else (shell.pcb other).status } := by
  unfold setStatus
  rw [setPcb_pcb, Function.update_apply]
  split
  · rename_i same
    rw [same]
  · rfl

theorem resourceAllocs_eq (rid : Rid) (id : Nat) (count : Nat) :
    shell.resourceAllocs rid id count = shell.setPcb id
      { shell.pcb id with resours := (shell.pcb id).resours ++ List.replicate count rid } := by
  induction count generalizing shell with
  | zero => simp [resourceAllocs, setPcb]
  | succ count ih =>
      rw [resourceAllocs, ih]
      simp [resourceAlloc, setPcb, List.replicate_succ]

@[simp] theorem block_rcb (rid : Rid) (id : Nat) (n : Int) :
    (shell.block rid id n).rcb = shell.rcb := rfl

@[simp] theorem block_ready (rid : Rid) (id : Nat) (n : Int) :
    (shell.block rid id n).ready = shell.ready := rfl

/-- A blocked process keeps its name, its priority and what it holds. -/
theorem block_pcb (rid : Rid) (id : Nat) (n : Int) (other : Nat) :
    (shell.block rid id n).pcb other =
      if other = id then { shell.pcb other with
        status := .BLOCKED, blockedList := (shell.pcb other).blockedList ++ [rid], blockedNum := n }
      else shell.pcb other := by
  unfold block
  rw [setPcb_pcb, Function.update_apply]
  split
  · rename_i same
    rw [same]
  · rfl

theorem enqueueWaiting_rcb (rid : Rid) (id : Nat) (other : Rid) :
    (shell.enqueueWaiting rid id).rcb other = { shell.rcb other with
      waitList := if other = rid then (shell.rcb other).waitList ++ [id]
        else (shell.rcb other).waitList } := by
  unfold enqueueWaiting
  rw [setRcb_rcb, Function.update_apply]
  split
  · rename_i same
    rw [same]
  · rfl

@[simp] theorem enqueueWaiting_pcb (rid : Rid) (id : Nat) :
    (shell.enqueueWaiting rid id).pcb = shell.pcb := rfl

@[simp] theorem enqueueWaiting_ready (rid : Rid) (id : Nat) :
    (shell.enqueueWaiting rid id).ready = shell.ready := rfl

/-- Units granted leave every other field of every PCB alone. -/
theorem resourceAllocs_pcb (rid : Rid) (id count other : Nat) :
    (shell.resourceAllocs rid id count).pcb other = { shell.pcb other with
      resours := if other = id then (shell.pcb other).resours ++ List.replicate count rid
        else (shell.pcb other).resours } := by
  rw [resourceAllocs_eq, setPcb_pcb, Function.update_apply]
  split
  · rename_i same
    rw [same]
  · rfl

theorem resourceAllocs_rcb (rid : Rid) (id count : Nat) :
    (shell.resourceAllocs rid id count).rcb = shell.rcb := by
  rw [resourceAllocs_eq, setPcb_rcb]

theorem resourceAllocs_ready (rid : Rid) (id count : Nat) :
    (shell.resourceAllocs rid id count).ready = shell.ready := by
  rw [resourceAllocs_eq, setPcb_ready]

theorem allocate_frame (name : Name) (pri : Int) :
    (shell.allocate name pri).ready = shell.ready ∧ (shell.allocate name pri).rcb = shell.rcb ∧
      (shell.allocate name pri).created = shell.created + 1 := by
  unfold allocate
  split <;> exact ⟨rfl, rfl, rfl⟩

/-- Only the child list of the current process grows. -/
theorem allocate_pcb (name : Name) (pri : Int) (id : Nat) :
    (shell.allocate name pri).pcb id =
      let pcb := if id = shell.created then shell.newPcb name pri else shell.pcb id
      if shell.current = some id then { pcb with child := pcb.child ++ [shell.created] }
      else pcb := by
  unfold allocate
  cases parent : shell.current with
  | none => simp [setPcb, Function.update_apply]
  | some current =>
      by_cases same : current = id
      · subst same
        simp [setPcb, Function.update_apply]
      · simp [setPcb, Function.update_apply, same, Ne.symm same]

/-! ### The scheduler -/

def reschedule (shell : Shell) : Shell := { shell with current := shell.findPcb }

@[simp] theorem reschedule_pcb : shell.reschedule.pcb = shell.pcb := rfl

@[simp] theorem reschedule_rcb : shell.reschedule.rcb = shell.rcb := rfl

@[simp] theorem reschedule_ready : shell.reschedule.ready = shell.ready := rfl

@[simp] theorem reschedule_created : shell.reschedule.created = shell.created := rfl

/-- `Find_PCB` takes the head of the first list that is not empty. -/
theorem findPcb_eq_some {id : Nat} : shell.findPcb = some id ↔
    ∃ level rest, shell.ready level = id :: rest ∧
      ∀ higher ∈ level.above, shell.ready higher = [] := by
  unfold findPcb
  constructor
  · intro found
    split at found
    · rename_i head rest list
      cases found
      exact ⟨.System, rest, list, by simp [Level.above]⟩
    · rename_i noSystem
      split at found
      · rename_i head rest list
        cases found
        exact ⟨.User, rest, list, by simpa [Level.above] using noSystem⟩
      · rename_i noUser
        obtain ⟨rest, list⟩ := List.head?_eq_some_iff.mp found
        exact ⟨.Init, rest, list, by simpa [Level.above] using ⟨noSystem, noUser⟩⟩
  · intro both
    rcases both with ⟨level, rest, list, empty⟩
    cases level <;> simp_all [Level.above]

/-- With no process `RUNNING` the scheduler always preempts. -/
theorem scheduler_ok (notRunning : ∀ id, (shell.pcb id).status ≠ .RUNNING)
    (executed : shell.scheduler = .ok after) :
    after = shell.reschedule ∧ ∃ id, after.current = some id := by
  have preempted : shell.preempt shell.findPcb = .ok after := by
    unfold scheduler at executed
    cases current : shell.current with
    | none => simpa [current] using executed
    | some id => simpa [current, notRunning id] using executed
  unfold reschedule
  cases found : shell.findPcb with
  | none =>
      rw [found] at preempted
      cases preempted
  | some id =>
      rw [found] at preempted
      cases preempted
      exact ⟨rfl, id, rfl⟩

/-! ### The invariant -/

/-- The tables refer to processes that exist, each on the ready list of its priority. -/
structure WellFormed (shell : Shell) : Prop where
  leveled : ∀ level, ∀ id ∈ shell.ready level, levelOf (shell.pcb id).priority = some level
  notRunning : ∀ id, (shell.pcb id).status ≠ .RUNNING
  listed : ∀ level, ∀ id ∈ shell.ready level, id < shell.created
  waiting : ∀ rid, ∀ id ∈ (shell.rcb rid).waitList, id < shell.created
  younger : shell.Younger

structure Consistent (shell : Shell) : Prop extends WellFormed shell where
  scheduled : shell.current = shell.findPcb
  running : ∃ id, shell.current = some id

namespace WellFormed

theorem insertPriority (wellFormed : shell.WellFormed) (id : Nat) (below : id < shell.created) :
    (shell.insertPriority id).WellFormed where
  leveled level other member := by
    rw [insertPriority_pcb]
    obtain old | ⟨rfl, inside⟩ := mem_insertPriority_ready.mp member
    · exact wellFormed.leveled level other old
    · exact inside
  notRunning := by
    rw [insertPriority_pcb]
    exact wellFormed.notRunning
  listed level other member := by
    rw [insertPriority_created]
    obtain old | ⟨rfl, _⟩ := mem_insertPriority_ready.mp member
    · exact wellFormed.listed level other old
    · exact below
  waiting := by
    rw [insertPriority_rcb, insertPriority_created]
    exact wellFormed.waiting
  younger := by
    unfold Younger
    rw [insertPriority_pcb, insertPriority_created]
    exact wellFormed.younger

/-- A change of one PCB that leaves its place in the tables alone. -/
theorem setPcb (wellFormed : shell.WellFormed) (id : Nat) (pcb : PCB)
    (priority : pcb.priority = (shell.pcb id).priority) (child : pcb.child = (shell.pcb id).child)
    (status : pcb.status ≠ .RUNNING) : (shell.setPcb id pcb).WellFormed where
  leveled level other member := by
    have inside := wellFormed.leveled level other member
    rw [setPcb_pcb, Function.update_apply]
    split
    · rename_i same
      rw [priority, ← same]
      exact inside
    · exact inside
  notRunning other := by
    rw [setPcb_pcb, Function.update_apply]
    split
    · exact status
    · exact wellFormed.notRunning other
  listed := wellFormed.listed
  waiting := wellFormed.waiting
  younger parent other member := by
    rw [setPcb_pcb, Function.update_apply] at member
    split at member
    · rename_i same
      rw [child, ← same] at member
      exact wellFormed.younger parent other member
    · exact wellFormed.younger parent other member

theorem setRcb (wellFormed : shell.WellFormed) (rid : Rid) (rcb : RCB)
    (inside : ∀ id ∈ rcb.waitList, id < shell.created) : (shell.setRcb rid rcb).WellFormed where
  leveled := wellFormed.leveled
  notRunning := wellFormed.notRunning
  listed := wellFormed.listed
  waiting other := by
    rw [setRcb_rcb, Function.update_apply]
    split
    · exact inside
    · exact wellFormed.waiting other
  younger := wellFormed.younger

theorem setReady (wellFormed : shell.WellFormed) (level : Level) (list : List Nat)
    (fewer : list ⊆ shell.ready level) : (shell.setReady level list).WellFormed := by
  have kept (other : Level) (id : Nat) (member : id ∈ (shell.setReady level list).ready other) :
      id ∈ shell.ready other := by
    rw [setReady_ready, Function.update_apply] at member
    split at member
    · rename_i same
      exact same ▸ fewer member
    · exact member
  exact {
    leveled := fun other id member => wellFormed.leveled other id (kept other id member)
    notRunning := wellFormed.notRunning
    listed := fun other id member => wellFormed.listed other id (kept other id member)
    waiting := wellFormed.waiting
    younger := wellFormed.younger }

theorem reschedule (wellFormed : shell.WellFormed) : shell.reschedule.WellFormed :=
  ⟨wellFormed.leveled, wellFormed.notRunning, wellFormed.listed, wellFormed.waiting,
    wellFormed.younger⟩

/-- What `scheduler` leaves when it does not stop the program. -/
theorem scheduler (wellFormed : shell.WellFormed) (executed : shell.scheduler = .ok after) :
    after = shell.reschedule ∧ after.Consistent := by
  obtain ⟨rfl, running⟩ := scheduler_ok wellFormed.notRunning executed
  exact ⟨rfl, wellFormed.reschedule, rfl, running⟩

theorem resourceAllocs (wellFormed : shell.WellFormed) (rid : Rid) (id count : Nat) :
    (shell.resourceAllocs rid id count).WellFormed := by
  rw [resourceAllocs_eq]
  exact wellFormed.setPcb _ _ rfl rfl (wellFormed.notRunning id)

theorem killOne (wellFormed : shell.WellFormed) (id : Nat) : (shell.killOne id).WellFormed := by
  have kept (level : Level) (other : Nat) (member : other ∈ (shell.killOne id).ready level) :
      other ∈ shell.ready level := by
    rw [killOne_ready] at member
    split at member
    · exact List.mem_of_mem_eraseP member
    · exact member
  have emptied := wellFormed.setPcb id { shell.pcb id with resours := [] }
    rfl rfl (wellFormed.notRunning id)
  constructor
  · intro level other member
    rw [killOne_pcb]
    exact emptied.leveled level other (kept level other member)
  · rw [killOne_pcb]
    exact emptied.notRunning
  · intro level other member
    rw [killOne_created]
    exact wellFormed.listed level other (kept level other member)
  · intro rid other member
    rw [killOne_rcb] at member
    rw [killOne_created]
    exact wellFormed.waiting rid other member
  · intro parent child member
    rw [killOne_pcb] at member
    rw [killOne_created]
    exact emptied.younger parent child member

theorem killAll (wellFormed : shell.WellFormed) (visits : List Nat) :
    (shell.killAll visits).WellFormed := by
  induction visits generalizing shell with
  | nil => exact wellFormed
  | cons id visits ih => exact ih (wellFormed.killOne id)

theorem allocate (wellFormed : shell.WellFormed)
    (below : ∀ id, shell.current = some id → id < shell.created) (name : Name) (pri : Int) :
    (shell.allocate name pri).WellFormed := by
  obtain ⟨ready, rcb, created⟩ := shell.allocate_frame name pri
  constructor
  · intro level id member
    rw [ready] at member
    have old := wellFormed.listed level id member
    rw [allocate_pcb]
    simp only [Nat.ne_of_lt old, if_false]
    split <;> exact wellFormed.leveled level id member
  · intro id
    rw [allocate_pcb]
    by_cases fresh : id = shell.created
    · simp only [fresh, if_true]
      split <;> simp [newPcb]
    · simp only [fresh, if_false]
      split <;> exact wellFormed.notRunning id
  · intro level id member
    rw [ready] at member
    rw [created]
    exact Nat.lt_succ_of_lt (wellFormed.listed level id member)
  · intro rid id member
    rw [rcb] at member
    rw [created]
    exact Nat.lt_succ_of_lt (wellFormed.waiting rid id member)
  · intro id child member
    rw [created]
    -- A child is an old one, or the process just made, which is younger than `current`.
    have shape : id < shell.created ∧ child = shell.created ∨
        child ∈ (shell.pcb id).child := by
      rw [allocate_pcb] at member
      by_cases fresh : id = shell.created
      · subst fresh
        have orphan : shell.current ≠ some shell.created :=
          fun same => Nat.lt_irrefl _ (below _ same)
        simp [orphan, newPcb] at member
      · simp only [fresh, if_false] at member
        split at member
        · rename_i parent
          obtain old | new := List.mem_append.mp member
          · exact Or.inr old
          · exact Or.inl ⟨below id parent, by simpa using new⟩
        · exact Or.inr member
    obtain ⟨parent, rfl⟩ | old := shape
    · exact ⟨parent, Nat.lt_succ_self _⟩
    · have inside := wellFormed.younger id child old
      exact ⟨inside.1, Nat.lt_succ_of_lt inside.2⟩

/-- A round of the loop of `Release` up to its `Scheduler`. -/
theorem serveNode (wellFormed : shell.WellFormed) {rid : Rid} {id node q : Nat}
    (below : id < shell.created) : (shell.serveNode rid id node q).WellFormed := by
  have paid := wellFormed.setRcb rid { shell.rcb rid with
    status := (shell.rcb rid).status - (shell.pcb node).blockedNum } (wellFormed.waiting rid)
  have woken := paid.setPcb q { shell.pcb q with status := .READY } rfl rfl (by simp)
  exact (woken.resourceAllocs rid id _).insertPriority id (by simpa [resourceAllocs_eq] using below)

end WellFormed

theorem Consistent.head (consistent : shell.Consistent) {id : Nat}
    (current : shell.current = some id) : ∃ level rest, shell.ready level = id :: rest ∧
      levelOf (shell.pcb id).priority = some level ∧
      ∀ higher ∈ level.above, shell.ready higher = [] := by
  obtain ⟨level, rest, list, first⟩ := findPcb_eq_some.mp (consistent.scheduled ▸ current)
  exact ⟨level, rest, list, consistent.leveled level id (by simp [list]), first⟩

theorem Consistent.current_lt (consistent : shell.Consistent) {id : Nat}
    (current : shell.current = some id) : id < shell.created := by
  obtain ⟨level, rest, list, _⟩ := consistent.head current
  exact consistent.listed level id (by simp [list])

/-- `Remove_Ready` of a process at the head of its list takes that node off. -/
theorem removeReady_head {id : Nat} {level : Level} {rest : List Nat}
    (list : shell.ready level = id :: rest)
    (inside : levelOf (shell.pcb id).priority = some level) :
    shell.removeReady id = .ok (shell.setReady level rest) := by
  unfold removeReady
  rw [inside]
  simp [list, removeReadySingle]
  rfl

inductive Effect (shell : Shell) : Command → Shell → Prop
  | created (name : Name) (pri : Int) : Effect shell (.cr name pri)
      ((shell.allocate name pri).insertPriority shell.created).reschedule
  | notFound {name : Name} (absent : shell.findNamePcb name = none) :
      Effect shell (.de name) shell
  | destroyed {name : Name} {id : Nat} (found : shell.findNamePcb name = some id) :
      Effect shell (.de name) (shell.killAll (shell.killOrder shell.created id)).reschedule
  | granted {rid : Rid} {id : Nat} {n : Int} (current : shell.current = some id)
      (enough : (shell.rcb rid).status - n ≥ 0) : Effect shell (.req rid n) (shell.grant rid id n)
  | blocked {rid : Rid} {id : Nat} {n : Int} {level : Level} {rest : List Nat}
      (current : shell.current = some id) (short : (shell.rcb rid).status - n < 0)
      (capacity : n ≤ rid.RID) (list : shell.ready level = id :: rest) :
      Effect shell (.req rid n)
        (((shell.block rid id n).setReady level rest).enqueueWaiting rid id).reschedule
  | released {rid : Rid} {id : Nat} {n : Int} {after : Shell} (current : shell.current = some id)
      (holding : (shell.pcb id).resours ≠ [])
      (served : serveWaiting rid id (shell.rcb rid).waitList
        ((shell.dropUnits rid id n).credit rid n) = .ok after) : Effect shell (.rel rid n) after
  | rotated {id : Nat} {level : Level} {rest : List Nat} (current : shell.current = some id)
      (list : shell.ready level = id :: rest) : Effect shell .to
        (((shell.setReady level rest).setStatus id .READY).insertPriority id).reschedule

/-! ### Reading the effects off the commands -/

@[simp] theorem serveNode_created {rid : Rid} {id node q : Nat} :
    (shell.serveNode rid id node q).created = shell.created := by
  simp [serveNode, resourceAllocs_eq]

theorem dropUnits_pcb (rid : Rid) (id : Nat) (n : Int) (other : Nat) :
    (shell.dropUnits rid id n).pcb other = { shell.pcb other with
      resours := if other = id then freeNodes rid (shell.pcb other).resours n
        else (shell.pcb other).resours } := by
  unfold dropUnits
  rw [setPcb_pcb, Function.update_apply]
  split
  · rename_i same
    rw [same]
  · rfl

theorem credit_rcb (rid : Rid) (n : Int) (other : Rid) :
    (shell.credit rid n).rcb other = { shell.rcb other with
      status := if other = rid then (shell.rcb other).status + n
        else (shell.rcb other).status } := by
  unfold credit
  rw [setRcb_rcb, Function.update_apply]
  split
  · rename_i same
    rw [same]
  · rfl

/-- A property that every served round keeps is kept by the loop of `Release`. -/
theorem serveWaiting_induction {rid : Rid} {id : Nat} (Inv : Shell → Prop)
    (kept : ∀ (shell : Shell) (node q : Nat), Inv shell → shell.Consistent → id < shell.created →
      (shell.pcb node).blockedNum ≤ (shell.rcb rid).status →
      removeWaiting (shell.rcb rid).waitList = some q →
      Inv (shell.serveNode rid id node q).reschedule)
    {nodes : List Nat} (initial : Inv shell) (consistent : shell.Consistent)
    (below : id < shell.created) (served : serveWaiting rid id nodes shell = .ok after) :
    Inv after ∧ after.Consistent := by
  induction nodes generalizing shell with
  | nil =>
      cases served
      exact ⟨initial, consistent⟩
  | cons node nodes ih =>
      rw [serveWaiting] at served
      split at served
      · rename_i enough
        split at served
        · cases served
        · rename_i q first
          obtain ⟨next, scheduled, rest⟩ := bind_eq_ok.mp served
          obtain ⟨rfl, rescheduled⟩ := (consistent.serveNode below).scheduler scheduled
          exact ih (kept shell node q initial consistent below enough first)
            rescheduled (by simpa [reschedule] using below) rest
      · cases served
        exact ⟨initial, consistent⟩

/-- The shell as the loop of `Release` finds it. -/
theorem Consistent.credited (consistent : shell.Consistent) (rid : Rid) (id : Nat) (n : Int) :
    ((shell.dropUnits rid id n).credit rid n).Consistent where
  toWellFormed := (consistent.setPcb id { shell.pcb id with
    resours := freeNodes rid (shell.pcb id).resours n } rfl rfl (consistent.notRunning id)).setRcb
      rid _ (consistent.waiting rid)
  scheduled := consistent.scheduled
  running := consistent.running

theorem Consistent.grant (consistent : shell.Consistent) (rid : Rid) (id : Nat) (n : Int) :
    (shell.grant rid id n).Consistent where
  toWellFormed := (consistent.setRcb rid { shell.rcb rid with
    status := (shell.rcb rid).status - n } (consistent.waiting rid)).resourceAllocs rid id n.toNat
  scheduled := by
    rw [Shell.grant, resourceAllocs_eq]
    exact consistent.scheduled
  running := by
    rw [Shell.grant, resourceAllocs_eq]
    exact consistent.running

/-- A command that completes has one of the effects and keeps the invariant. -/
theorem exec_effect (consistent : shell.Consistent) {command : Command}
    (executed : shell.exec command = .ok after) :
    shell.Effect command after ∧ after.Consistent := by
  cases command with
  | cr name pri =>
      have allocated := consistent.allocate (fun id => consistent.current_lt) name pri
      have inserted := allocated.insertPriority shell.created
        (by rw [(shell.allocate_frame name pri).2.2]; exact Nat.lt_succ_self _)
      obtain ⟨rfl, rescheduled⟩ := inserted.scheduler executed
      exact ⟨.created name pri, rescheduled⟩
  | de name =>
      change shell.destroy name = .ok after at executed
      unfold destroy at executed
      split at executed
      · rename_i absent
        cases executed
        exact ⟨.notFound absent, consistent⟩
      · rename_i id found
        obtain ⟨killed, tree, scheduled⟩ := bind_eq_ok.mp executed
        have closed := killTree_ok tree
        subst closed
        obtain ⟨rfl, rescheduled⟩ := (consistent.killAll _).scheduler scheduled
        exact ⟨.destroyed found, rescheduled⟩
  | req rid n =>
      obtain ⟨id, current⟩ := consistent.running
      obtain ⟨level, rest, list, inside, _⟩ := consistent.head current
      simp only [exec, current, request] at executed
      split at executed
      · rename_i enough
        cases executed
        exact ⟨.granted current enough, consistent.grant rid id n⟩
      · rename_i short
        split at executed
        · cases executed
        · rename_i capacity
          have blocked := consistent.setPcb id { shell.pcb id with
            status := .BLOCKED, blockedList := (shell.pcb id).blockedList ++ [rid],
            blockedNum := n } rfl rfl (by simp)
          have removed : (shell.block rid id n).removeReady id =
              .ok ((shell.block rid id n).setReady level rest) :=
            removeReady_head list (by simpa [block] using inside)
          obtain ⟨_, same, scheduled⟩ := bind_eq_ok.mp executed
          rw [removed] at same
          cases same
          have waiting := (blocked.setReady level rest (by simp [list])).setRcb rid
            { shell.rcb rid with waitList := (shell.rcb rid).waitList ++ [id] } (by
                intro other member
                obtain old | new := List.mem_append.mp member
                · exact consistent.waiting rid other old
                · rw [List.mem_singleton.mp new]
                  exact consistent.current_lt current)
          obtain ⟨rfl, rescheduled⟩ := waiting.scheduler scheduled
          exact ⟨.blocked current (by omega) (by omega) list, rescheduled⟩
  | rel rid n =>
      obtain ⟨id, current⟩ := consistent.running
      simp only [exec, current, release] at executed
      obtain ⟨freed, dropped, served⟩ := bind_eq_ok.mp executed
      unfold resourceFree at dropped
      split at dropped
      · cases dropped
      · rename_i holding
        cases dropped
        have looped : serveWaiting rid id (shell.rcb rid).waitList
            ((shell.dropUnits rid id n).credit rid n) = .ok after := by
          simpa [credit, dropUnits] using served
        have final := serveWaiting_induction (fun _ => True) (fun _ _ _ _ _ _ _ _ => trivial)
          trivial (consistent.credited rid id n) (consistent.current_lt current) looped
        exact ⟨.released current holding looped, final.2⟩
  | «to» =>
      obtain ⟨id, current⟩ := consistent.running
      obtain ⟨level, rest, list, inside, _⟩ := consistent.head current
      simp only [exec, current, timeOut] at executed
      obtain ⟨_, same, scheduled⟩ := bind_eq_ok.mp executed
      rw [removeReady_head list inside] at same
      cases same
      have readied := (consistent.setReady level rest (by simp [list])).setPcb id
        { shell.pcb id with status := .READY } rfl rfl (by simp)
      have inserted := readied.insertPriority id (consistent.current_lt current)
      obtain ⟨rfl, rescheduled⟩ := inserted.scheduler scheduled
      exact ⟨.rotated current list, rescheduled⟩

/-! ### Runs -/

theorem boot_consistent : boot.Consistent where
  leveled level id member := by
    cases level <;> simp [boot, initResource, Function.update] at member
    subst member
    rfl
  notRunning id := by
    by_cases first : id = 0
    · subst first
      simp [boot, newPcb]
    · simp [boot, initResource, first]
  listed level id member := by
    cases level <;> simp [boot, initResource, Function.update] at member
    subst member
    exact Nat.zero_lt_one
  waiting rid id member := by cases member
  younger id child member := by
    by_cases first : id = 0
    · subst first
      simp [boot, newPcb] at member
    · simp [boot, initResource, first] at member
  scheduled := rfl
  running := ⟨0, rfl⟩

theorem run_consistent {commands : List Command}
    (run : runAll step boot commands = some shell) : shell.Consistent :=
  runAll_invariant run boot_consistent fun _ _ _ consistent stepped =>
    (exec_effect consistent (toOption_eq_some.mp stepped)).2

theorem findNamePcb_eq_some {name : Name} {id : Nat} (found : shell.findNamePcb name = some id) :
    (shell.pcb id).pid = name ∧ ∃ level, id ∈ shell.ready level := by
  have inList (level : Level)
      (here : (shell.ready level).find? (fun id => (shell.pcb id).pid = name) = some id) :
      (shell.pcb id).pid = name ∧ ∃ level, id ∈ shell.ready level :=
    ⟨by simpa using List.find?_some here, level, List.mem_of_find?_eq_some here⟩
  simp only [findNamePcb] at found
  split at found
  · rename_i here
    exact inList .System (here.trans found)
  · split at found
    · rename_i here
      exact inList .User (here.trans found)
    · exact inList .Init found

theorem scheduler_ne_stackOverflow : shell.scheduler ≠ .error .stackOverflow := by
  have preempted (shell : Shell) (curr : Option Nat) :
      shell.preempt curr ≠ .error .stackOverflow := by
    cases curr <;> simp [preempt, throw, throwThe, MonadExceptOf.throw, pure, Except.pure]
  unfold scheduler
  cases shell.current with
  | none => exact preempted _ _
  | some id =>
      simp only
      split
      · exact preempted _ _
      · cases shell.findPcb with
        | none => simp [throw, throwThe, MonadExceptOf.throw]
        | some cur =>
            simp only
            split
            · exact preempted _ _
            · simp [pure, Except.pure]

private theorem serveWaiting_ne_stackOverflow (rid : Rid) (id : Nat) (nodes : List Nat) :
    serveWaiting rid id nodes shell ≠ .error .stackOverflow := by
  induction nodes generalizing shell with
  | nil => simp [serveWaiting, pure, Except.pure]
  | cons node nodes ih =>
      rw [serveWaiting]
      split
      · cases removeWaiting (shell.rcb rid).waitList with
        | none => simp [throw, throwThe, MonadExceptOf.throw]
        | some q => exact bind_ne_error scheduler_ne_stackOverflow fun next _ => ih
      · simp [pure, Except.pure]

/-- The depth of `Kill_Tree` is never exhausted: a command stops the program only by
`exit(0)` or a `NULL` pointer. -/
theorem Consistent.exec_ne_stackOverflow (consistent : shell.Consistent) (command : Command) :
    shell.exec command ≠ .error .stackOverflow := by
  obtain ⟨id, current⟩ := consistent.running
  obtain ⟨level, rest, list, inside, _⟩ := consistent.head current
  cases command with
  | cr name pri => exact scheduler_ne_stackOverflow
  | de name =>
      change shell.destroy name ≠ _
      unfold destroy
      cases found : shell.findNamePcb name with
      | none => simp [pure, Except.pure]
      | some toDestroy =>
          obtain ⟨_, own, member⟩ := findNamePcb_eq_some found
          obtain ⟨killed, tree⟩ := killTree_exists consistent.younger
            (consistent.listed own toDestroy member) (Nat.le_add_left shell.created toDestroy)
          refine bind_ne_error (by simp [tree]) fun _ _ => scheduler_ne_stackOverflow
  | req rid n =>
      simp only [exec, current, request]
      split
      · simp [pure, Except.pure]
      · split
        · simp [throw, throwThe, MonadExceptOf.throw]
        · have removed : (shell.block rid id n).removeReady id = _ :=
            removeReady_head list (by simpa [block] using inside)
          exact bind_ne_error (by simp [removed]) fun _ _ => scheduler_ne_stackOverflow
  | rel rid n =>
      simp only [exec, current, release]
      refine bind_ne_error ?_ fun _ _ => serveWaiting_ne_stackOverflow rid id _
      unfold resourceFree
      split <;> simp [throw, throwThe, MonadExceptOf.throw, pure, Except.pure]
  | «to» =>
      simp only [exec, current, timeOut]
      rw [removeReady_head list inside]
      exact scheduler_ne_stackOverflow

/-- After every command that completes the current process is the first of the first ready
list that is not empty, ready lists hold processes of their own priority, and `Remove_Ready`
of the current process takes off that head, in `Time_Out` and inside `Request` alike. What
stops a command is `exit(0)` or a `NULL` pointer. -/
theorem tShell_scheduling {commands : List Command}
    (run : runAll step boot commands = some shell) :
    ∃ id level rest, shell.current = some id ∧ shell.ready level = id :: rest ∧
      (∀ higher ∈ level.above, shell.ready higher = []) ∧
      (∀ level, ∀ other ∈ shell.ready level,
        levelOf (shell.pcb other).priority = some level) ∧
      shell.removeReady id = .ok (shell.setReady level rest) ∧
      (∀ rid n, (shell.block rid id n).removeReady id =
        .ok ((shell.block rid id n).setReady level rest)) ∧
      ∀ command, shell.exec command ≠ .error .stackOverflow := by
  have consistent := run_consistent run
  obtain ⟨id, current⟩ := consistent.running
  obtain ⟨level, rest, list, inside, first⟩ := consistent.head current
  refine ⟨id, level, rest, current, list, first, consistent.leveled,
    removeReady_head list inside, ?_, consistent.exec_ne_stackOverflow⟩
  intro rid n
  exact removeReady_head list (by simpa [block] using inside)

def nameX : Name := ⟨['x'], by decide⟩

def nameY : Name := ⟨['y'], by decide⟩

/-- Two processes of one name, one of which is destroyed. -/
theorem repeated_names_scheduling : ∃ shell id level rest,
    runAll step boot [.cr nameX 2, .cr nameX 2, .to, .de nameX] = some shell ∧
      shell.current = some id ∧ shell.removeReady id = .ok (shell.setReady level rest) := by
  obtain ⟨id, level, rest, current, _, _, _, removed, _⟩ :=
    tShell_scheduling (rfl : runAll step boot [.cr nameX 2, .cr nameX 2, .to, .de nameX] = some _)
  exact ⟨_, id, level, rest, rfl, current, removed⟩

end Shell

end OsCompiler.TShell
