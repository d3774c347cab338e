/-
When `Scheduler` finds a process to run.

`preempt` follows the pointer that `Find_PCB` returns. Only `Request`, which takes the
current process off its list, and `Destroy` can empty the ready lists; `init` is a process
like every other.
-/

import OsCompiler.TShell.ServeWaiters
import OsCompiler.TShell.Subtree

namespace OsCompiler.TShell.Shell

open OsCompiler.Transition

variable {shell after : Shell}

def readyCount (shell : Shell) : Nat :=
  (shell.ready .System).length + (shell.ready .User).length + (shell.ready .Init).length

/-- A request that blocks finds a second node on the ready lists, and a kill finds a name on
a ready list more often than among the processes of that priority that it destroys. -/
def LeavesReady (shell : Shell) (command : Command) : Prop :=
  (∀ rid n, command = .req rid n → (shell.rcb rid).status - n < 0 → n ≤ rid.RID →
    2 ≤ shell.readyCount) ∧
  ∀ name root, command = .de name → shell.findNamePcb name = some root →
    ∃ level own, ((shell.atLevel level (shell.subtree root)).map shell.nameOf).count own <
      ((shell.ready level).map shell.nameOf).count own

/-- The command does not follow a `NULL` pointer. -/
def FindsProcess (shell : Shell) (command : Command) : Prop :=
  shell.exec command ≠ .error .nullDereference

/-! ### The scheduler -/

theorem scheduler_empty (notRunning : ∀ id, (shell.pcb id).status ≠ .RUNNING)
    (empty : ∀ level, shell.ready level = []) : shell.scheduler = .error .nullDereference := by
  have missing : shell.findPcb = none := by
    unfold findPcb
    rw [empty .System, empty .User, empty .Init]
    rfl
  unfold scheduler
  rw [missing]
  cases current : shell.current with
  | none => rfl
  | some id =>
      simp only
      rw [if_pos (notRunning id)]
      rfl

theorem scheduler_finds_iff (notRunning : ∀ id, (shell.pcb id).status ≠ .RUNNING) :
    shell.scheduler ≠ .error .nullDereference ↔ ∃ level, shell.ready level ≠ [] := by
  constructor
  · intro finds
    by_contra none
    have empty : ∀ level, shell.ready level = [] := by
      intro level
      by_contra some
      exact none ⟨level, some⟩
    exact finds (scheduler_empty notRunning empty)
  · intro both
    rcases both with ⟨level, some⟩
    rcases List.exists_mem_of_ne_nil _ some with ⟨id, member⟩
    rw [scheduler_of_ready notRunning member]
    intro failed
    cases failed

private theorem exists_ready_iff : (∃ level, shell.ready level ≠ []) ↔ 0 < shell.readyCount := by
  unfold readyCount
  constructor
  · intro both
    rcases both with ⟨level, some⟩
    have long := List.length_pos_iff.mpr some
    cases level <;> omega
  · intro more
    by_contra none
    have empty (level : Level) : (shell.ready level).length = 0 := by
      by_contra some
      exact none ⟨level, fun nil => some (by rw [nil]; rfl)⟩
    rw [empty, empty, empty] at more
    exact Nat.lt_irrefl 0 more

theorem Consistent.ready_ne_nil (consistent : shell.Consistent) :
    ∃ level, shell.ready level ≠ [] := by
  rcases consistent.running with ⟨id, current⟩
  rcases consistent.head current with ⟨level, rest, list, _⟩
  exact ⟨level, by simp [list]⟩

/-! ### The loop of `Release` -/

/-- Each round leaves the releaser ready, and the waiting list keeps its first process. -/
theorem serveWaiting_finds (consistent : shell.Consistent) {rid : Rid} {id : Nat}
    (below : id < shell.created) (nodes : List Nat)
    (waits : nodes ≠ [] → (shell.rcb rid).waitList ≠ []) :
    serveWaiting rid id nodes shell ≠ .error .nullDereference := by
  induction nodes generalizing shell with
  | nil => simp [serveWaiting, pure, Except.pure]
  | cons node nodes ih =>
      rw [serveWaiting]
      by_cases enough : (shell.rcb rid).status ≥ (shell.pcb node).blockedNum
      · rw [if_pos enough]
        rcases List.exists_cons_of_ne_nil (waits (List.cons_ne_nil _ _)) with ⟨q, others, list⟩
        have first : removeWaiting (shell.rcb rid).waitList = some q := by
          rw [list]
          rfl
        rw [first]
        have wellFormed : (shell.serveNode rid id node q).WellFormed :=
          consistent.toWellFormed.serveNode below
        apply bind_ne_error
        · rw [scheduler_finds_iff wellFormed.notRunning]
          rcases consistent.ready_ne_nil with ⟨level, some⟩
          refine ⟨level, ?_⟩
          rw [serveNode_ready]
          split
          · simp
          · exact some
        · intro next scheduled
          rcases wellFormed.scheduler scheduled with ⟨rfl, rescheduled⟩
          apply ih rescheduled (by simpa using below)
          intro _
          rw [reschedule_rcb, serveNode_waitList, list]
          exact List.cons_ne_nil _ _
      · rw [if_neg enough]
        simp [pure, Except.pure]

private theorem release_finds (consistent : shell.Consistent) {id : Nat}
    (current : shell.current = some id) (rid : Rid) (n : Int) :
    shell.release rid id n ≠ .error .nullDereference := by
  apply bind_ne_error
  · unfold resourceFree
    split <;> simp [throw, throwThe, MonadExceptOf.throw, pure, Except.pure]
  · intro freed dropped
    unfold resourceFree at dropped
    by_cases nothing : (shell.pcb id).resours = []
    · rw [if_pos nothing] at dropped
      cases dropped
    · rw [if_neg nothing] at dropped
      cases dropped
      exact serveWaiting_finds (consistent.credited rid id n) (consistent.current_lt current) _
        (fun some => some)

/-! ### Each command -/

theorem create_finds (consistent : shell.Consistent) (name : Name) (pri : Int) :
    shell.create name pri ≠ .error .nullDereference := by
  have allocated := consistent.allocate (fun id => consistent.current_lt) name pri
  have inserted := allocated.insertPriority shell.created
    (by rw [(shell.allocate_frame name pri).2.2]; exact Nat.lt_succ_self _)
  unfold create
  rw [scheduler_finds_iff inserted.notRunning]
  rcases consistent.ready_ne_nil with ⟨level, some⟩
  refine ⟨level, ?_⟩
  rw [insertPriority_ready, (shell.allocate_frame name pri).1]
  split
  · simp
  · exact some

/-- A time-out always completes: the process it puts back is ready. -/
theorem exec_to_ok (consistent : shell.Consistent) {id : Nat} {level : Level} {rest : List Nat}
    (current : shell.current = some id) (list : shell.ready level = id :: rest) :
    shell.exec .to =
      .ok (((shell.setReady level rest).setStatus id .READY).insertPriority id).reschedule := by
  have inside := consistent.leveled level id (by simp [list])
  have readied := (consistent.setReady level rest (by simp [list])).setPcb id
    { shell.pcb id with status := .READY } rfl rfl (by simp)
  have inserted : (((shell.setReady level rest).setStatus id .READY).insertPriority id).WellFormed :=
    readied.insertPriority id (consistent.current_lt current)
  have back : id ∈
      (((shell.setReady level rest).setStatus id .READY).insertPriority id).ready level := by
    rw [rotated_ready consistent list, if_pos rfl]
    simp
  have executed : shell.exec .to = shell.timeOut id := by
    simp only [exec, current]
  rw [executed]
  exact bind_eq_ok.mpr ⟨_, removeReady_head list inside,
    scheduler_of_ready inserted.notRunning back⟩

/-- A request that blocks needs a second node on the ready lists. -/
theorem blocked_finds_iff (consistent : shell.Consistent) {rid : Rid} {id : Nat} {n : Int}
    (current : shell.current = some id) (short : (shell.rcb rid).status - n < 0)
    (capacity : n ≤ rid.RID) :
    shell.request rid id n ≠ .error .nullDereference ↔ 2 ≤ shell.readyCount := by
  rcases consistent.head current with ⟨level, rest, list, inside, _⟩
  have removed : (shell.block rid id n).removeReady id =
      .ok ((shell.block rid id n).setReady level rest) :=
    removeReady_head list (by simpa [block] using inside)
  have blocked := consistent.setPcb id { shell.pcb id with
    status := .BLOCKED, blockedList := (shell.pcb id).blockedList ++ [rid],
    blockedNum := n } rfl rfl (by simp)
  have notRunning : ∀ other, ((((shell.block rid id n).setReady level rest).enqueueWaiting
      rid id).pcb other).status ≠ .RUNNING :=
    (blocked.setReady level rest (by simp [list])).notRunning
  have executed : shell.request rid id n =
      (((shell.block rid id n).setReady level rest).enqueueWaiting rid id).scheduler := by
    unfold request
    rw [if_neg (by omega), if_neg (by omega), removed]
    rfl
  have fewer : (((shell.block rid id n).setReady level rest).enqueueWaiting rid id).readyCount + 1 =
      shell.readyCount := by
    cases level <;> simp [readyCount, list] <;> omega
  rw [executed, scheduler_finds_iff notRunning, exists_ready_iff]
  omega

private theorem request_finds_iff (consistent : shell.Consistent) {rid : Rid} {id : Nat} {n : Int}
    (current : shell.current = some id) : shell.request rid id n ≠ .error .nullDereference ↔
      ((shell.rcb rid).status - n < 0 → n ≤ rid.RID → 2 ≤ shell.readyCount) := by
  by_cases enough : (shell.rcb rid).status - n ≥ 0
  · have granted : shell.request rid id n = .ok (shell.grant rid id n) := if_pos enough
    rw [granted]
    refine iff_of_true (by simp) ?_
    intro short
    omega
  · by_cases capacity : n ≤ rid.RID
    · rw [blocked_finds_iff consistent current (Int.not_le.mp enough) capacity]
      constructor
      · exact fun more _ _ => more
      · exact fun more => more (Int.not_le.mp enough) capacity
    · have exits : shell.request rid id n = .error .exit := by
        unfold request
        rw [if_neg enough, if_pos (by omega)]
        rfl
      rw [exits]
      exact iff_of_true (by simp) (fun _ within => absurd within capacity)

/-- A kill has to spare a node of some ready list. -/
theorem destroy_finds_iff (consistent : shell.Consistent) {name : Name} {root : Nat}
    (found : shell.findNamePcb name = some root) :
    shell.destroy name ≠ .error .nullDereference ↔
      ∃ level own, ((shell.atLevel level (shell.subtree root)).map shell.nameOf).count own <
        ((shell.ready level).map shell.nameOf).count own := by
  rcases findNamePcb_eq_some found with ⟨_, own, listed⟩
  rcases killTree_exists consistent.younger (consistent.listed own root listed)
    (Nat.le_add_left shell.created root) with ⟨killed, tree⟩
  have closed := killTree_ok tree
  subst closed
  have executed : shell.destroy name = (shell.killAll (shell.subtree root)).scheduler := by
    unfold destroy
    simp only [found, tree]
    rfl
  rw [executed, scheduler_finds_iff (consistent.toWellFormed.killAll _).notRunning]
  simp only [killAll_ready, eraseKeys_ne_nil_iff]

private theorem finds_iff (consistent : shell.Consistent) (command : Command) :
    shell.FindsProcess command ↔ shell.LeavesReady command := by
  rcases consistent.running with ⟨id, current⟩
  unfold FindsProcess LeavesReady
  cases command with
  | cr name pri =>
      change shell.create name pri ≠ _ ↔ _
      simpa using create_finds consistent name pri
  | de name =>
      change shell.destroy name ≠ _ ↔ _
      cases found : shell.findNamePcb name with
      | none =>
          have kept : shell.destroy name = .ok shell := by
            unfold destroy
            rw [found]
            rfl
          rw [kept]
          refine iff_of_true (by simp) ⟨by simp, ?_⟩
          intro other root same present
          cases same
          rw [found] at present
          cases present
      | some root =>
          rw [destroy_finds_iff consistent found]
          constructor
          · intro spared
            refine ⟨by simp, ?_⟩
            intro other victim same present
            cases same
            rw [found, Option.some.injEq] at present
            exact present ▸ spared
          · intro both
            exact both.2 name root rfl found
  | req rid n =>
      have executed : shell.exec (.req rid n) = shell.request rid id n := by
        simp only [exec, current]
      rw [executed, request_finds_iff consistent current]
      constructor
      · intro more
        refine ⟨?_, by simp⟩
        intro other amount same
        cases same
        exact more
      · intro both
        exact both.1 rid n rfl
  | rel rid n =>
      have executed : shell.exec (.rel rid n) = shell.release rid id n := by
        simp only [exec, current]
      rw [executed]
      simpa using release_finds consistent current rid n
  | «to» =>
      rcases consistent.head current with ⟨level, rest, list, _⟩
      rw [exec_to_ok consistent current list]
      simp

/-! ### Runs -/

/-- No command of a run follows a `NULL` pointer exactly when no command takes the last node
off the ready lists, and in every state `Find_PCB` returns the current process. -/
theorem tShell_runnable_iff (commands : List Command) :
    (EachStep step boot commands FindsProcess ↔ EachStep step boot commands LeavesReady) ∧
      Throughout step boot commands fun shell =>
        ∃ id, shell.current = some id ∧ shell.findPcb = some id := by
  constructor
  · constructor
    · intro finds done command rest before split run
      exact (finds_iff (run_consistent run) command).mp (finds done command rest before split run)
    · intro leaves done command rest before split run
      exact (finds_iff (run_consistent run) command).mpr (leaves done command rest before split run)
  · intro done rest shell _ run
    have consistent := run_consistent run
    rcases consistent.running with ⟨id, current⟩
    exact ⟨id, current, consistent.scheduled ▸ current⟩

/-- `init` asks for the only unit of `R1` twice. -/
theorem init_blocks_itself : ¬ EachStep step boot [.req .R1 1, .req .R1 1] FindsProcess := by
  intro finds
  exact finds [.req .R1 1] (.req .R1 1) [] _ rfl rfl rfl

end OsCompiler.TShell.Shell
