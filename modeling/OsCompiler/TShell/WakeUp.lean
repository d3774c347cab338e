/-
Lost wake-ups of tShell: units that become free while a process waits for them.

`Release` looks at its waiting list, although it never takes anybody off it;
`Kill_Tree` frees units and looks at no waiting list at all.
-/

import OsCompiler.TShell.Location
import OsCompiler.TShell.Resources

namespace OsCompiler.TShell.Shell

open OsCompiler.Transition

variable {shell after : Shell}

/-- The free units of a resource do not cover the demand of who waits first for it. -/
def NoLostWakeUp (shell : Shell) : Prop :=
  ∀ rid first, (shell.rcb rid).waitList.head? = some first →
    (shell.rcb rid).status < (shell.pcb first).blockedNum

def heldBy (shell : Shell) (visits : List Nat) (rid : Rid) : Nat :=
  ∑ id ∈ (Finset.range shell.created).filter (· ∈ visits), (shell.pcb id).resours.count rid

/-- The process that `de name` is about: the one that `Destroy` finds on a ready list or, where
no ready list has that name, any process of that name. -/
def Meant (shell : Shell) (name : Name) (root : Nat) : Prop :=
  root < shell.created ∧ shell.nameOf root = name ∧
    (shell.findNamePcb name = some root ∨ shell.findNamePcb name = none)

def Satisfies (shell : Shell) (root : Nat) (rid : Rid) (first : Nat) : Prop :=
  (shell.rcb rid).waitList.head? = some first ∧
    (shell.pcb first).blockedNum ≤
      (shell.rcb rid).status + shell.heldBy (shell.killOrder shell.created root) rid

/-- Destroying a process whose units satisfy a waiting one takes that one off its list. -/
def LetsWaiterRun (before : Shell) (command : Command) (after : Shell) : Prop :=
  ∀ name root rid first, command = .de name → before.Meant name root →
    before.Satisfies root rid first → first ∉ (after.rcb rid).waitList

/-- What the command would set free does not cover the demand of who waits first: the units
a release gives back, the units of the processes to be destroyed, or those that a request for
a negative number adds. -/
def LeavesWaitersShort (shell : Shell) (command : Command) : Prop :=
  shell.ServesNobody command ∧
    (∀ name root rid first, command = .de name → shell.Meant name root →
      ¬ shell.Satisfies root rid first) ∧
    ∀ rid n first, command = .req rid n → n < 0 →
      (shell.rcb rid).waitList.head? = some first →
      (shell.rcb rid).status - n < (shell.pcb first).blockedNum

/-- `Kill_Tree` moves what the destroyed processes hold to the counters. -/
theorem killAll_status {visits : List Nat} (below : ∀ id ∈ visits, id < shell.created) (rid : Rid) :
    ((shell.killAll visits).rcb rid).status = (shell.rcb rid).status + shell.heldBy visits rid := by
  have kept := units_killAll below rid
  have split : shell.held rid = shell.heldBy visits rid + (shell.killAll visits).held rid := by
    unfold held heldBy
    rw [killAll_created, ← Finset.sum_filter_add_sum_filter_not (Finset.range shell.created)
      (· ∈ visits), ← Finset.sum_filter_add_sum_filter_not (Finset.range shell.created)
      (· ∈ visits) fun id => ((shell.killAll visits).pcb id).resours.count rid]
    have destroyed : ∑ id ∈ (Finset.range shell.created).filter (· ∈ visits),
        ((shell.killAll visits).pcb id).resours.count rid = 0 := by
      apply Finset.sum_eq_zero
      intro id member
      rw [killAll_pcb, if_pos (Finset.mem_filter.mp member).2]
      rfl
    have others : ∑ id ∈ (Finset.range shell.created).filter (· ∉ visits),
        ((shell.killAll visits).pcb id).resours.count rid =
        ∑ id ∈ (Finset.range shell.created).filter (· ∉ visits),
          (shell.pcb id).resours.count rid := by
      apply Finset.sum_congr rfl
      intro id member
      rw [killAll_pcb, if_neg (Finset.mem_filter.mp member).2]
    omega
  unfold units at kept
  omega

/-- After a kill nobody could run who waits exactly when the units set free were too few. -/
theorem destroyed_noLostWakeUp_iff {visits : List Nat}
    (below : ∀ id ∈ visits, id < shell.created) :
    (shell.killAll visits).reschedule.NoLostWakeUp ↔
      ∀ rid first, (shell.rcb rid).waitList.head? = some first →
        (shell.rcb rid).status + shell.heldBy visits rid < (shell.pcb first).blockedNum := by
  unfold NoLostWakeUp
  have demand (id : Nat) : ((shell.killAll visits).pcb id).blockedNum =
      (shell.pcb id).blockedNum := by
    rcases shell.killAll_pcb_frame visits id with ⟨resours, frame⟩
    rw [frame]
  simp only [reschedule_rcb, reschedule_pcb, killAll_waitList, killAll_status below, demand]

/-- Where only the counters and the waiting lists of one resource change. -/
theorem NoLostWakeUp.congr (short : shell.NoLostWakeUp)
    (waitList : ∀ rid, (after.rcb rid).waitList = (shell.rcb rid).waitList)
    (demand : ∀ rid, ∀ id ∈ (shell.rcb rid).waitList,
      (after.pcb id).blockedNum = (shell.pcb id).blockedNum)
    (status : ∀ rid first, (shell.rcb rid).waitList.head? = some first →
      (after.rcb rid).status ≤ (shell.rcb rid).status ∨
        (after.rcb rid).status < (shell.pcb first).blockedNum) : after.NoLostWakeUp := by
  intro rid first waits
  rw [waitList] at waits
  rw [demand rid first (List.mem_of_mem_head? waits)]
  rcases status rid first waits with fewer | enough
  · exact Int.lt_of_le_of_lt fewer (short rid first waits)
  · exact enough

theorem NoLostWakeUp.blocked (placed : shell.Placed) (short : shell.NoLostWakeUp) {rid : Rid}
    {id : Nat} {n : Int} {level : Level} {rest : List Nat} (demand : (shell.rcb rid).status - n < 0)
    (list : shell.ready level = id :: rest) :
    (((shell.block rid id n).setReady level rest).enqueueWaiting rid id).reschedule.NoLostWakeUp := by
  intro other first waits
  rw [reschedule_rcb, enqueueWaiting_rcb] at waits ⊢
  rw [reschedule_pcb, enqueueWaiting_pcb, setReady_pcb, block_pcb]
  change (if other = rid then (shell.rcb other).waitList ++ [id]
    else (shell.rcb other).waitList).head? = some first at waits
  change (shell.rcb other).status < _
  have head : id ∈ shell.ready level := by
    rw [list]
    exact List.mem_cons_self
  -- The first of an old list is somebody else; the first of a new one is the blocked process.
  have old (before : (shell.rcb other).waitList.head? = some first) :
      (shell.rcb other).status < (if first = id then { shell.pcb first with
        status := .BLOCKED, blockedList := (shell.pcb first).blockedList ++ [rid],
        blockedNum := n } else shell.pcb first).blockedNum := by
    have different : first ≠ id := by
      intro same
      subst same
      exact placed.notWaiting head other (List.mem_of_mem_head? before)
    rw [if_neg different]
    exact short other first before
  split at waits
  · rename_i same
    subst same
    cases waiting : (shell.rcb other).waitList with
    | nil =>
        rw [waiting] at waits
        cases waits
        rw [if_pos rfl]
        simp only
        omega
    | cons head tail =>
        rw [waiting] at waits
        exact old (by rw [waiting]; exact waits)
  · exact old waits

theorem NoLostWakeUp.effect (consistent : shell.Consistent) (placed : shell.Placed)
    (short : shell.NoLostWakeUp) {command : Command} (leaves : shell.LeavesWaitersShort command)
    (effect : shell.Effect command after) : after.NoLostWakeUp := by
  rcases leaves with ⟨nobody, kills, requests⟩
  cases effect with
  | created name pri =>
      rcases shell.allocate_frame name pri with ⟨_, rcb, _⟩
      apply short.congr
      · intro rid
        rw [reschedule_rcb, insertPriority_rcb, rcb]
      · intro rid id member
        rcases shell.allocate_pcb_frame name pri (consistent.waiting rid id member) with
          ⟨child, frame⟩
        rw [reschedule_pcb, insertPriority_pcb, frame]
      · intro rid first _
        rw [reschedule_rcb, insertPriority_rcb, rcb]
        exact Or.inl (Int.le_refl _)
  | notFound absent => exact short
  | @destroyed name root found =>
      rcases findNamePcb_eq_some found with ⟨_, level, member⟩
      have inside := killOrder_lt shell.created consistent.younger
        (consistent.listed level root member)
      refine (destroyed_noLostWakeUp_iff inside).mpr ?_
      intro rid first waits
      have meant : shell.Meant name root :=
        ⟨consistent.listed level root member, (findNamePcb_eq_some found).1, Or.inl found⟩
      exact Int.not_le.mp fun enough => kills name root rid first rfl meant ⟨waits, enough⟩
  | @granted rid id n current enough =>
      apply short.congr
      · intro other
        rw [grant, resourceAllocs_rcb, setRcb_rcb, Function.update_apply]
        split
        · rename_i same
          rw [same]
        · rfl
      · intro other first _
        rw [grant, resourceAllocs_pcb, setRcb_pcb]
      · intro other first waits
        rw [grant, resourceAllocs_rcb, setRcb_rcb, Function.update_apply]
        split
        · rename_i same
          subst same
          rcases Int.lt_or_le n 0 with negative | amount
          · exact Or.inr (requests other n first rfl negative waits)
          · left
            simp only
            omega
        · exact Or.inl (Int.le_refl _)
  | blocked current demand capacity list => exact short.blocked placed demand list
  | @released rid id n after current holding served =>
      rw [serveWaiting_nobody nobody served]
      apply short.congr
      · intro other
        rw [credit_rcb]
        rfl
      · intro other first _
        change ((shell.dropUnits rid id n).pcb first).blockedNum = _
        rw [dropUnits_pcb]
      · intro other first waits
        rw [credit_rcb]
        change (if other = rid then (shell.rcb other).status + n else (shell.rcb other).status) ≤ _ ∨
          (if other = rid then (shell.rcb other).status + n else (shell.rcb other).status) < _
        split
        · rename_i same
          subst same
          exact Or.inr (nobody other n first rfl waits)
        · exact Or.inl (Int.le_refl _)
  | @rotated id level rest current list =>
      apply short.congr
      · intro rid
        rw [reschedule_rcb, insertPriority_rcb, setStatus_rcb, setReady_rcb]
      · intro rid first _
        rw [reschedule_pcb, insertPriority_pcb, setStatus_pcb, setReady_pcb]
      · intro rid first _
        rw [reschedule_rcb, insertPriority_rcb, setStatus_rcb, setReady_rcb]
        exact Or.inl (Int.le_refl _)

/-! ### Runs -/

/-- `Destroy` changes no waiting list, so it lets nobody run. -/
theorem letsWaiterRun_iff (consistent : shell.Consistent) {command : Command}
    (stepped : shell.step command = some after) :
    shell.LetsWaiterRun command after ↔
      ∀ name root rid first, command = .de name → shell.Meant name root →
        ¬ shell.Satisfies root rid first := by
  constructor
  · intro lets name root rid first same meant satisfies
    subst same
    refine lets name root rid first rfl meant satisfies ?_
    have member := List.mem_of_mem_head? satisfies.1
    cases (exec_effect consistent (toOption_eq_some.mp stepped)).1 with
    | notFound absent => exact member
    | destroyed found =>
        rw [reschedule_rcb, killAll_waitList]
        exact member
  · intro none name root rid first same meant satisfies
    exact absurd satisfies (none name root rid first same meant)

/-- In a run whose commands never set free what the first waiting process of a resource
needs, no wake-up is lost in any state, nor by any destruction. -/
theorem tShell_no_lost_wake_up {commands : List Command}
    (leaves : EachStep step boot commands LeavesWaitersShort) :
    Throughout step boot commands NoLostWakeUp ∧
      ∀ done command rest before after, commands = done ++ command :: rest →
        runAll step boot done = some before → before.step command = some after →
        before.LetsWaiterRun command after := by
  have strong : Throughout step boot commands fun shell =>
      shell.Consistent ∧ shell.Placed ∧ shell.NoLostWakeUp := by
    refine throughout_of_eachStep (fun _ => True) (fun _ _ => trivial) ?_ ?_ leaves
    · exact ⟨boot_consistent, boot_placed, fun rid first waits => by cases waits⟩
    · intro before command after both _ met stepped
      rcases both with ⟨consistent, placed, short⟩
      rcases exec_effect consistent (toOption_eq_some.mp stepped) with ⟨effect, kept⟩
      exact ⟨kept, placed.effect consistent met.1 effect,
        short.effect consistent placed met effect⟩
  constructor
  · intro done rest state split run
    exact (strong done rest state split run).2.2
  · intro done command rest before after split run stepped
    have consistent := (strong done (command :: rest) before split run).1
    exact (letsWaiterRun_iff consistent stepped).mpr (leaves done command rest before split run).2.1

/-- `x` holds the unit that `y` waits for when it is destroyed. -/
theorem destroy_loses_wake_up : ¬ ∀ (commands : List Command) (final : Shell),
    runAll step boot commands = some final → final.NoLostWakeUp := by
  intro always
  have short := always [.cr nameX 0, .cr nameY 0, .to, .req .R1 1, .to, .req .R1 1, .de nameX] _
    rfl .R1 2 rfl
  exact absurd short (by decide)

def holdAndWait : List Command := [.cr nameX 1, .req .R1 1, .cr nameY 2, .req .R1 1]

theorem holdAndWait_no_lost_wake_up : ∃ final, runAll step boot holdAndWait = some final ∧
    (final.rcb .R1).waitList = [2] ∧ final.NoLostWakeUp := by
  refine ⟨_, rfl, rfl, ?_⟩
  refine (tShell_no_lost_wake_up ?_).1 holdAndWait [] _ (List.append_nil _).symm rfl
  intro done command rest before split _
  have member : command ∈ holdAndWait := by
    rw [split]
    simp
  simp only [holdAndWait, List.mem_cons, List.not_mem_nil, or_false] at member
  refine ⟨?_, ?_, ?_⟩
  · intro rid n first same
    subst same
    simp at member
  · intro name root rid first same
    subst same
    simp at member
  · intro rid n first same negative
    subst same
    simp at member
    omega

end OsCompiler.TShell.Shell
