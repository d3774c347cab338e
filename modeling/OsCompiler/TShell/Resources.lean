/-
Conservation of resource units: the free units of a resource and the nodes for it on
all resource lists make up its capacity.

`Release` takes nodes off a list and credits the counter by two computations. They
agree while nobody releases more than it holds.
-/

import OsCompiler.TShell.Scheduling
import Mathlib.Algebra.BigOperators.Group.Finset.Basic

namespace OsCompiler.TShell

open OsCompiler.Transition

def Command.Nonnegative : Command → Prop
  | .req _ n => 0 ≤ n
  | .rel _ n => 0 ≤ n
  | _ => True

namespace Shell

variable {shell after : Shell}

def held (shell : Shell) (rid : Rid) : Nat :=
  ∑ id ∈ Finset.range shell.created, (shell.pcb id).resours.count rid

def units (shell : Shell) (rid : Rid) : Int := (shell.rcb rid).status + shell.held rid

def Conserved (shell : Shell) : Prop :=
  ∀ rid, shell.units rid = rid.RID ∧ 0 ≤ (shell.rcb rid).status ∧ (shell.rcb rid).status ≤ rid.RID

/-- The current process holds as many units as the command releases. -/
def ReleasesHeld (shell : Shell) (command : Command) : Prop :=
  ∀ rid n id, command = .rel rid n → shell.current = some id →
    n ≤ (shell.pcb id).resours.count rid

/-! ### How the operations move units -/

theorem held_setPcb {id : Nat} (below : id < shell.created) (pcb : PCB) (rid : Rid) :
    (shell.setPcb id pcb).held rid + (shell.pcb id).resours.count rid =
      shell.held rid + pcb.resours.count rid := by
  have member : id ∈ Finset.range shell.created := Finset.mem_range.mpr below
  unfold held
  rw [setPcb_created, setPcb_pcb, ← Finset.add_sum_erase _ _ member,
    ← Finset.add_sum_erase _ (fun other => (shell.pcb other).resours.count rid) member,
    Function.update_self]
  have others : ∑ other ∈ (Finset.range shell.created).erase id,
      (Function.update shell.pcb id pcb other).resours.count rid =
      ∑ other ∈ (Finset.range shell.created).erase id, (shell.pcb other).resours.count rid := by
    apply Finset.sum_congr rfl
    intro other inside
    rw [Function.update_of_ne (Finset.ne_of_mem_erase inside)]
  omega

private theorem held_congr {other : Shell} (created : other.created = shell.created)
    (same : ∀ id, (other.pcb id).resours = (shell.pcb id).resours) (rid : Rid) :
    other.held rid = shell.held rid := by
  simp only [held, created, same]

theorem count_freeNodes (rid other : Rid) (resours : List Rid) (n : Int) :
    (freeNodes rid resours n).count other =
      if other = rid then resours.count rid - n.toNat else resours.count other := by
  induction resours generalizing n with
  | nil => simp [freeNodes]
  | cons node rest ih =>
      rw [freeNodes]
      by_cases more : n > 0
      · rw [if_pos more]
        by_cases here : node = rid
        · subst here
          rw [if_pos rfl, ih]
          by_cases same : other = node
          · subst same
            simp only [if_true, List.count_cons_self]
            omega
          · simp [same, Ne.symm same]
        · rw [if_neg here, List.count_cons, ih]
          by_cases same : other = rid
          · subst same
            simp [here]
          · simp [same, List.count_cons]
      · rw [if_neg more]
        have none : n.toNat = 0 := by omega
        by_cases same : other = rid
        · subst same
          simp [none]
        · simp [same]

theorem units_setRcb (rid : Rid) (rcb : RCB) (other : Rid) :
    (shell.setRcb rid rcb).units other =
      if other = rid then rcb.status + shell.held other else shell.units other := by
  unfold units
  rw [setRcb_rcb, Function.update_apply]
  split <;> rfl

private theorem units_setPcb {id : Nat} (below : id < shell.created) (pcb : PCB) (rid : Rid) :
    (shell.setPcb id pcb).units rid =
      shell.units rid + pcb.resours.count rid - (shell.pcb id).resours.count rid := by
  have moved := held_setPcb below pcb rid
  unfold units
  rw [setPcb_rcb]
  omega

/-- A PCB that keeps its resource list. -/
theorem units_setPcb_of_resours (shell : Shell) (id : Nat) (pcb : PCB)
    (same : pcb.resours = (shell.pcb id).resours) (rid : Rid) :
    (shell.setPcb id pcb).units rid = shell.units rid := by
  unfold units
  rw [setPcb_rcb, held_congr (setPcb_created shell id pcb)]
  intro other
  rw [setPcb_pcb, Function.update_apply]
  split
  · rename_i here
    rw [same, here]
  · rfl

private theorem units_resourceAllocs {id : Nat} (below : id < shell.created) (rid other : Rid)
    (count : Nat) : (shell.resourceAllocs rid id count).units other =
      shell.units other + if other = rid then count else 0 := by
  rw [resourceAllocs_eq, units_setPcb below, List.count_append, List.count_replicate]
  by_cases same : other = rid
  · subst same
    simp only [beq_self_eq_true, if_true]
    omega
  · simp only [if_neg same, beq_iff_eq, Ne.symm same, if_false]
    omega

theorem units_insertPriority (shell : Shell) (id : Nat) (rid : Rid) :
    (shell.insertPriority id).units rid = shell.units rid := by
  simp [units, held]

private theorem units_grant {id : Nat} (below : id < shell.created) {rid : Rid} {n : Int}
    (amount : 0 ≤ n)
    (other : Rid) : (shell.grant rid id n).units other = shell.units other := by
  unfold grant
  rw [units_resourceAllocs (by exact below), units_setRcb]
  split
  · rename_i same
    subst same
    unfold units
    simp only
    omega
  · omega

/-- `Release` before its loop: the counter gains `n`, the list loses what it has of them. -/
theorem units_credited {id : Nat} (below : id < shell.created) (rid : Rid) (n : Int) (other : Rid) :
    ((shell.dropUnits rid id n).credit rid n).units other = shell.units other +
      if other = rid then n - min n.toNat ((shell.pcb id).resours.count rid) else 0 := by
  have dropped := units_setPcb below { shell.pcb id with
    resours := freeNodes rid (shell.pcb id).resours n } other
  rw [count_freeNodes] at dropped
  unfold credit dropUnits
  rw [units_setRcb]
  by_cases same : other = rid
  · subst same
    simp only [if_true] at dropped ⊢
    unfold units at dropped ⊢
    simp only [setPcb_rcb] at dropped ⊢
    omega
  · simp only [if_neg same] at dropped ⊢
    rw [dropped]
    omega

/-- A served waiter is paid for by the releaser, who gets the units. -/
theorem units_serveNode {rid : Rid} {id node q : Nat} (below : id < shell.created)
    (demand : 0 ≤ (shell.pcb node).blockedNum) (other : Rid) :
    (shell.serveNode rid id node q).units other = shell.units other := by
  unfold serveNode
  rw [units_insertPriority, units_resourceAllocs (by exact below), setStatus_pcb, setStatus,
    units_setPcb_of_resours _ _ _ (by rfl), units_setRcb]
  simp only [setRcb_pcb]
  split
  · rename_i same
    subst same
    unfold units
    omega
  · omega

/-- A process that has to wait keeps what it holds. -/
theorem units_blocked (rid : Rid) (id : Nat) (n : Int) (level : Level) (rest : List Nat)
    (other : Rid) : (((shell.block rid id n).setReady level rest).enqueueWaiting rid id).units other =
      shell.units other := by
  have same : (((shell.block rid id n).setReady level rest).enqueueWaiting rid id).held other =
      shell.held other := by
    refine held_congr ?_ ?_ other
    · rfl
    intro process
    rw [enqueueWaiting_pcb, setReady_pcb, block_pcb]
    split <;> rfl
  unfold units
  rw [enqueueWaiting_rcb, same]
  rfl

theorem units_killAll {visits : List Nat} (below : ∀ id ∈ visits, id < shell.created) (rid : Rid) :
    (shell.killAll visits).units rid = shell.units rid := by
  induction visits generalizing shell with
  | nil => rfl
  | cons id visits ih =>
      have own := below id List.mem_cons_self
      have emptied := held_setPcb own { shell.pcb id with resours := [] } rid
      have same : (shell.killOne id).held rid =
          (shell.setPcb id { shell.pcb id with resours := [] }).held rid := by
        simp only [held, killOne_created, killOne_pcb, setPcb_created, setPcb_pcb]
      rw [killAll_cons, ih (fun other member => by
        rw [killOne_created]
        exact below other (List.mem_cons_of_mem _ member))]
      unfold units
      rw [killOne_rcb, same]
      simp only [List.count_nil] at emptied ⊢
      omega

private theorem units_allocate (name : Name) (pri : Int) (rid : Rid) :
    (shell.allocate name pri).units rid = shell.units rid := by
  obtain ⟨_, rcb, created⟩ := shell.allocate_frame name pri
  have resours (id : Nat) : ((shell.allocate name pri).pcb id).resours =
      if id = shell.created then [] else (shell.pcb id).resours := by
    rw [allocate_pcb]
    by_cases fresh : id = shell.created
    · simp only [fresh, if_true]
      split <;> rfl
    · simp only [fresh, if_false]
      split <;> rfl
  have olds : ∑ id ∈ Finset.range shell.created, ((shell.allocate name pri).pcb id).resours.count rid
      = shell.held rid := by
    apply Finset.sum_congr rfl
    intro id member
    rw [resours, if_neg (Nat.ne_of_lt (Finset.mem_range.mp member))]
  unfold units
  rw [rcb, held, created, Finset.sum_range_succ, olds, resours, if_pos rfl]
  simp

/-! ### Runs -/

/-- What runs that release only held units keep. Demands are what was asked for. -/
structure Balanced (shell : Shell) : Prop extends Consistent shell where
  conserved : shell.Conserved
  demands : ∀ id, 0 ≤ (shell.pcb id).blockedNum

private theorem boot_balanced : boot.Balanced where
  toConsistent := boot_consistent
  conserved rid := by cases rid <;> decide
  demands id := by
    by_cases first : id = 0
    · subst first
      exact Int.le_refl 0
    · simp [boot, initResource, first]

private theorem serveNode_blockedNum (rid : Rid) (id node q other : Nat) :
    ((shell.serveNode rid id node q).pcb other).blockedNum = (shell.pcb other).blockedNum := by
  unfold serveNode
  rw [insertPriority_pcb, resourceAllocs_pcb, setStatus_pcb, setRcb_pcb]

private theorem serveNode_status (rid : Rid) (id node q : Nat) (other : Rid) :
    ((shell.serveNode rid id node q).rcb other).status =
      if other = rid then (shell.rcb rid).status - (shell.pcb node).blockedNum
      else (shell.rcb other).status := by
  simp only [serveNode, insertPriority_rcb, resourceAllocs_rcb, setStatus_rcb, setRcb_rcb,
    Function.update_apply]
  split <;> rfl

/-- The loop of `Release` moves units between the counter and the releaser's list. -/
theorem serveWaiting_units {rid : Rid} {id : Nat} {nodes : List Nat} (consistent : shell.Consistent)
    (below : id < shell.created) (demands : ∀ id, 0 ≤ (shell.pcb id).blockedNum)
    (free : ∀ rid, 0 ≤ (shell.rcb rid).status)
    (served : serveWaiting rid id nodes shell = .ok after) :
    (∀ rid, after.units rid = shell.units rid) ∧ (∀ id, 0 ≤ (after.pcb id).blockedNum) ∧
      (∀ rid, 0 ≤ (after.rcb rid).status) ∧ after.Consistent := by
  have looped := serveWaiting_induction (fun now : Shell =>
    (∀ rid, now.units rid = shell.units rid) ∧ (∀ id, 0 ≤ (now.pcb id).blockedNum) ∧
      ∀ rid, 0 ≤ (now.rcb rid).status) (by
    intro now node q both _ belowNow enough _
    rcases both with ⟨same, demandsNow, freeNow⟩
    refine ⟨?_, ?_, ?_⟩
    · intro other
      exact (units_serveNode belowNow (demandsNow node) other).trans (same other)
    · intro other
      exact (serveNode_blockedNum rid id node q other).symm ▸ demandsNow other
    · intro other
      refine (serveNode_status rid id node q other).symm ▸ ?_
      split
      · omega
      · exact freeNow other)
    ⟨fun _ => rfl, demands, free⟩ consistent below served
  exact ⟨looped.1.1, looped.1.2.1, looped.1.2.2, looped.2⟩

/-- The units that a command makes up: what `Release` credits beyond what it took back. -/
def excess (shell : Shell) (command : Command) (rid : Rid) : Int :=
  match command, shell.current with
  | .rel released n, some id =>
      if rid = released then n - min n.toNat ((shell.pcb id).resours.count rid) else 0
  | _, _ => 0

private theorem conserved_of_units (units : ∀ rid, shell.units rid = rid.RID)
    (free : ∀ rid, 0 ≤ (shell.rcb rid).status) : shell.Conserved := by
  intro rid
  refine ⟨units rid, free rid, ?_⟩
  have total := units rid
  unfold Shell.units at total
  omega

/-- One command changes the units of a resource by its excess. -/
theorem effect_units {command : Command} (balanced : shell.Balanced)
    (amounts : command.Nonnegative) (effect : shell.Effect command after) :
    (∀ rid, after.units rid = shell.units rid + shell.excess command rid) ∧
      (∀ id, 0 ≤ (after.pcb id).blockedNum) ∧ ∀ rid, 0 ≤ (after.rcb rid).status := by
  have free rid := (balanced.conserved rid).2.1
  have demands := balanced.demands
  cases effect with
  | created name pri =>
      obtain ⟨_, rcb, _⟩ := shell.allocate_frame name pri
      refine ⟨?_, ?_, ?_⟩
      · intro rid
        have inserted := units_insertPriority (shell.allocate name pri) shell.created rid
        exact inserted.trans ((units_allocate name pri rid).trans (Int.add_zero _).symm)
      · intro id
        rw [reschedule_pcb, insertPriority_pcb, allocate_pcb]
        by_cases fresh : id = shell.created
        · simp only [fresh, if_true]
          split <;> exact Int.le_refl 0
        · simp only [fresh, if_false]
          split <;> exact demands id
      · rw [reschedule_rcb, insertPriority_rcb, rcb]
        exact free
  | notFound absent => exact ⟨fun _ => (Int.add_zero _).symm, demands, free⟩
  | @destroyed name id found =>
      obtain ⟨_, level, member⟩ := findNamePcb_eq_some found
      have inside := killOrder_lt shell.created balanced.younger
        (balanced.listed level id member)
      refine ⟨fun rid => (units_killAll inside rid).trans (Int.add_zero _).symm, ?_, ?_⟩
      · intro other
        obtain ⟨resours, frame⟩ := shell.killAll_pcb_frame
          (shell.killOrder shell.created id) other
        rw [reschedule_pcb, frame]
        exact demands other
      · intro rid
        exact Int.le_trans (free rid) (killAll_status_le _ rid)
  | @granted rid id n current enough =>
      have below := balanced.current_lt current
      refine ⟨fun other => (units_grant below amounts other).trans (Int.add_zero _).symm, ?_, ?_⟩
      · intro other
        rw [grant, resourceAllocs_pcb]
        exact demands other
      · intro other
        rw [grant, resourceAllocs_rcb, setRcb_rcb, Function.update_apply]
        split
        · exact enough
        · exact free other
  | @blocked rid id n level rest current short capacity list =>
      refine ⟨?_, ?_, ?_⟩
      · intro other
        exact (units_blocked rid id n level rest other).trans (Int.add_zero _).symm
      · intro other
        rw [reschedule_pcb, enqueueWaiting_pcb, setReady_pcb, block_pcb]
        split
        · exact amounts
        · exact demands other
      · intro other
        rw [reschedule_rcb, enqueueWaiting_rcb]
        exact free other
  | @released rid id n after current holding served =>
      have below := balanced.current_lt current
      have credited := units_credited below rid n
      obtain ⟨units, demandsAfter, freeAfter, _⟩ := serveWaiting_units
        (balanced.credited rid id n) below (by
          intro other
          change 0 ≤ ((shell.dropUnits rid id n).pcb other).blockedNum
          rw [dropUnits_pcb]
          exact demands other) (by
          intro other
          rw [credit_rcb]
          change 0 ≤ if other = rid then (shell.rcb other).status + n else (shell.rcb other).status
          split
          · exact Int.add_nonneg (free other) amounts
          · exact free other) served
      refine ⟨?_, demandsAfter, freeAfter⟩
      intro other
      rw [units, credited]
      simp only [excess, current]
      split
      · rename_i same
        rw [same]
      · rfl
  | @rotated id level rest current list =>
      refine ⟨?_, ?_, ?_⟩
      · intro rid
        have inserted := units_insertPriority
          ((shell.setReady level rest).setStatus id .READY) id rid
        have readied := units_setPcb_of_resours (shell.setReady level rest) id
          { shell.pcb id with status := .READY } rfl rid
        exact inserted.trans (readied.trans (Int.add_zero _).symm)
      · intro other
        rw [reschedule_pcb, insertPriority_pcb, setStatus_pcb]
        exact demands other
      · rw [reschedule_rcb, insertPriority_rcb, setStatus_rcb]
        exact free

private theorem excess_eq_zero {command : Command} (releases : shell.ReleasesHeld command)
    (amounts : command.Nonnegative) (rid : Rid) : shell.excess command rid = 0 := by
  unfold excess
  split
  · rename_i released n id current
    have within := releases released n id rfl current
    have amount : 0 ≤ n := amounts
    split
    · rename_i same
      subst same
      omega
    · rfl
  · rfl

private theorem releasesHeld_of_excess {command : Command}
    (none : ∀ rid, shell.excess command rid = 0) :
    shell.ReleasesHeld command := by
  intro rid n id same current
  subst same
  have own := none rid
  simp only [excess, current, if_true] at own
  omega

/-- In a run of commands with nonnegative numbers every state conserves the units of every
resource exactly when no process ever releases more units than it holds. -/
theorem tShell_conservation_iff {commands : List Command} {final : Shell}
    (run : runAll step boot commands = some final)
    (amounts : ∀ command ∈ commands, command.Nonnegative) :
    Throughout step boot commands Conserved ↔ EachStep step boot commands ReleasesHeld := by
  have exact_step {before : Shell} {command : Command} {after : Shell}
      (balanced : before.Balanced) (amount : command.Nonnegative)
      (stepped : before.step command = some after) :=
    And.intro (exec_effect balanced.toConsistent (toOption_eq_some.mp stepped)).2
      (effect_units balanced amount
        (exec_effect balanced.toConsistent (toOption_eq_some.mp stepped)).1)
  refine throughout_iff_eachStep_of_strong run Command.Nonnegative amounts boot_balanced
    (fun _ balanced => balanced.conserved) ?_ ?_
  · intro before command after balanced amount releases stepped
    obtain ⟨consistent, units, demands, free⟩ := exact_step balanced amount stepped
    refine ⟨consistent, conserved_of_units ?_ free, demands⟩
    intro rid
    rw [units, excess_eq_zero releases amount, Int.add_zero]
    exact (balanced.conserved rid).1
  · intro before command after balanced amount stepped conserved
    obtain ⟨_, units, _⟩ := exact_step balanced amount stepped
    apply releasesHeld_of_excess
    intro rid
    have total := units rid
    rw [(conserved rid).1, (balanced.conserved rid).1] at total
    omega

/-- A release of two units by a process that holds one. -/
theorem release_creates_unit : ¬ ∀ (commands : List Command) (final : Shell),
    runAll step boot commands = some final → final.Conserved := by
  intro always
  have conserved := always [.cr nameX 1, .req .R1 1, .rel .R1 2] _ rfl .R1
  revert conserved
  decide

theorem request_release_conserved :
    Throughout step boot [.cr nameX 1, .req .R1 1, .rel .R1 1] Conserved ↔
      EachStep step boot [.cr nameX 1, .req .R1 1, .rel .R1 1] ReleasesHeld := by
  refine tShell_conservation_iff rfl ?_
  intro command member
  simp only [List.mem_cons, List.not_mem_nil, or_false] at member
  rcases member with rfl | rfl | rfl <;> simp [Command.Nonnegative]

end Shell

end OsCompiler.TShell
