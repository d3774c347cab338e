/-
The child lists of tShell, and how many calls `Kill_Tree` makes over them.

No command takes a process off a child list. Still each process stands on one list at
most, that of the process that was current when it was made, so the processes visited
are all different.
-/

import OsCompiler.TShell.Subtree

namespace OsCompiler.TShell.Shell

open OsCompiler.Transition

variable {shell after : Shell}

def childOf (shell : Shell) (parent : Nat) : List Nat := (shell.pcb parent).child

/-- A process stands on one child list at most, and there once. -/
structure SingleParent (shell : Shell) : Prop where
  once : ∀ parent, (shell.childOf parent).Nodup
  unique : ∀ parent other, ∀ child ∈ shell.childOf parent, child ∈ shell.childOf other →
    other = parent

/-! ### Every command -/

/-- Who is not made yet has no children. -/
theorem childOf_fresh (younger : shell.Younger) : shell.childOf shell.created = [] := by
  refine List.eq_nil_iff_forall_not_mem.mpr fun child member => ?_
  have order := younger shell.created child member
  omega

private theorem serveNode_childOf (rid : Rid) (id node q : Nat) :
    (shell.serveNode rid id node q).childOf = shell.childOf := by
  funext other
  simp only [childOf, serveNode, insertPriority_pcb, resourceAllocs_pcb, setStatus_pcb, setRcb_pcb]

/-- Only `Create` changes a child list: it puts the new process behind the children of the
current one. -/
theorem Effect.children {command : Command} (consistent : shell.Consistent)
    (effect : shell.Effect command after) :
    after.childOf = shell.childOf ∨ ∃ current, current < shell.created ∧
      after.childOf = Function.update shell.childOf current
        (shell.childOf current ++ [shell.created]) := by
  cases effect with
  | created name pri =>
      rcases consistent.running with ⟨current, running⟩
      have below := consistent.current_lt running
      refine Or.inr ⟨current, below, ?_⟩
      funext id
      change (((shell.allocate name pri).insertPriority shell.created).pcb id).child = _
      rw [insertPriority_pcb, allocate_pcb, Function.update_apply, running]
      by_cases parent : id = current
      · subst parent
        simp [childOf, Nat.ne_of_lt below]
      · by_cases fresh : id = shell.created
        · subst fresh
          simp [parent, Ne.symm parent, newPcb, childOf_fresh consistent.younger]
        · simp [childOf, parent, Ne.symm parent, fresh]
  | notFound absent => exact Or.inl rfl
  | destroyed found =>
      refine Or.inl (funext fun id => ?_)
      rcases shell.killAll_pcb_frame (shell.killOrder shell.created _) id with ⟨resours, frame⟩
      change ((shell.killAll _).pcb id).child = _
      rw [frame]
      rfl
  | granted current enough =>
      refine Or.inl (funext fun id => ?_)
      change ((shell.grant _ _ _).pcb id).child = _
      rw [grant, resourceAllocs_pcb]
      rfl
  | blocked current short capacity list =>
      refine Or.inl (funext fun id => ?_)
      change ((shell.block _ _ _).pcb id).child = _
      rw [block_pcb]
      split <;> rfl
  | released current holding served =>
      have below := consistent.current_lt current
      have kept := serveWaiting_induction (fun now => now.childOf = shell.childOf)
        (fun now node q same _ _ _ _ => (serveNode_childOf _ _ node q).trans same)
        (funext fun other => by rw [childOf, credit, setRcb_pcb, dropUnits_pcb]; rfl)
        (consistent.credited _ _ _) below served
      exact Or.inl kept.1
  | rotated current list =>
      refine Or.inl (funext fun id => ?_)
      change (((shell.setReady _ _).setStatus _ _).insertPriority _).childOf id = _
      rw [childOf, insertPriority_pcb, setStatus_pcb]
      rfl

theorem SingleParent.append (single : shell.SingleParent) (younger : shell.Younger) {current : Nat}
    (grown : after.childOf = Function.update shell.childOf current
      (shell.childOf current ++ [shell.created])) : after.SingleParent := by
  have fresh : ∀ parent, shell.created ∉ shell.childOf parent := fun parent member =>
    Nat.lt_irrefl _ (younger parent shell.created member).2
  -- A process on a child list was on it before, or is the one just made.
  have cases_of_mem : ∀ {parent child}, child ∈ after.childOf parent →
      child ∈ shell.childOf parent ∨ parent = current ∧ child = shell.created := by
    intro parent child member
    rw [grown, Function.update_apply] at member
    split at member
    · rename_i same
      rcases List.mem_append.mp member with old | new
      · exact Or.inl (same ▸ old)
      · exact Or.inr ⟨same, List.mem_singleton.mp new⟩
    · exact Or.inl member
  constructor
  · intro parent
    rw [grown, Function.update_apply]
    split
    · exact List.nodup_append.mpr ⟨single.once current, List.nodup_singleton _,
        fun old member new newMember same => fresh current
          (List.mem_singleton.mp newMember ▸ same ▸ member)⟩
    · exact single.once parent
  · intro parent other child member otherMember
    rcases cases_of_mem member with old | ⟨rfl, rfl⟩
    · rcases cases_of_mem otherMember with otherOld | ⟨rfl, rfl⟩
      · exact single.unique parent other child old otherOld
      · exact absurd old (fresh parent)
    · rcases cases_of_mem otherMember with otherOld | ⟨rfl, _⟩
      · exact absurd otherOld (fresh other)
      · rfl

private theorem boot_singleParent : boot.SingleParent := by
  have none : ∀ parent, boot.childOf parent = [] := by
    intro parent
    by_cases first : parent = 0
    · subst first
      rfl
    · simp [childOf, boot, initResource, first]
  constructor
  · intro parent
    rw [none]
    exact List.nodup_nil
  · intro parent other child member
    rw [none] at member
    cases member

private theorem run_singleParent {commands : List Command}
    (run : runAll step boot commands = some shell) : shell.SingleParent := by
  have both : shell.Consistent ∧ shell.SingleParent := by
    refine @runAll_invariant _ _ step boot (fun shell => shell.Consistent ∧ shell.SingleParent)
      commands shell run ⟨boot_consistent, boot_singleParent⟩ ?_
    rintro before command next ⟨consistent, single⟩ stepped
    rcases exec_effect consistent (toOption_eq_some.mp stepped) with ⟨effect, consistentAfter⟩
    refine ⟨consistentAfter, ?_⟩
    rcases effect.children consistent with same | ⟨current, _, grown⟩
    · exact ⟨fun parent => same ▸ single.once parent, fun parent other => same ▸
        single.unique parent other⟩
    · exact single.append consistent.younger grown
  exact both.2

/-! ### The calls -/

theorem Descends.le (younger : shell.Younger) {root id : Nat} (descends : shell.Descends root id) :
    root ≤ id := by
  induction descends with
  | refl => exact Nat.le_refl root
  | tail _ isChild ih => exact Nat.le_trans ih (Nat.le_of_lt (younger _ _ isChild).1)

/-- Of two processes above the same one, one is above the other. -/
theorem SingleParent.descends_total (single : shell.SingleParent) {left right id : Nat}
    (first : shell.Descends left id) (second : shell.Descends right id) :
    shell.Descends left right ∨ shell.Descends right left := by
  induction first generalizing right with
  | refl => exact Or.inr second
  | tail above isChild ih =>
      rcases Relation.ReflTransGen.cases_tail second with rfl | ⟨parent, below, alsoChild⟩
      · exact Or.inl (above.tail isChild)
      · have same := single.unique _ _ _ isChild alsoChild
        exact ih (same ▸ below)

/-- No process descends from two children of one process. -/
theorem SingleParent.siblings_disjoint (single : shell.SingleParent) (younger : shell.Younger)
    {parent left right id : Nat} (leftChild : left ∈ shell.childOf parent)
    (rightChild : right ∈ shell.childOf parent) (first : shell.Descends left id)
    (second : shell.Descends right id) : left = right := by
  -- A child that descends from the other one has its parent below that one.
  have equal : ∀ {upper lower : Nat}, upper ∈ shell.childOf parent →
      lower ∈ shell.childOf parent → shell.Descends upper lower → upper = lower := by
    intro upper lower upperChild lowerChild descends
    rcases Relation.ReflTransGen.cases_tail descends with same | ⟨middle, above, isChild⟩
    · exact same.symm
    · have same := single.unique parent middle lower lowerChild isChild
      have order := Descends.le younger above
      have later := (younger parent upper upperChild).1
      omega
  rcases single.descends_total first second with down | up
  · exact equal leftChild rightChild down
  · exact (equal rightChild leftChild up).symm

theorem SingleParent.killOrder_nodup (single : shell.SingleParent) (younger : shell.Younger)
    (depth id : Nat) : (shell.killOrder depth id).Nodup := by
  induction depth generalizing id with
  | zero => exact List.nodup_nil
  | succ depth ih =>
      rw [killOrder]
      refine List.nodup_append.mpr ⟨?_, List.nodup_singleton id, ?_⟩
      · refine List.nodup_flatMap.mpr ⟨fun child _ => ih child, ?_⟩
        refine (single.once id).imp_of_mem ?_
        intro left right leftChild rightChild different visited inLeft inRight
        exact different (single.siblings_disjoint younger leftChild rightChild
          (descends_of_mem_killOrder inLeft) (descends_of_mem_killOrder inRight))
      · intro visited member other isRoot same
        rcases List.mem_flatMap.mp member with ⟨child, isChild, below⟩
        have order := Descends.le younger (descends_of_mem_killOrder below)
        have later := (younger id child isChild).1
        rw [List.mem_singleton.mp isRoot] at same
        omega

/-- Calls that go deep enough make the same visits. -/
theorem killOrder_eq (younger : shell.Younger) {depth other id : Nat} (below : id < shell.created)
    (enough : shell.created ≤ id + depth) (otherEnough : shell.created ≤ id + other) :
    shell.killOrder depth id = shell.killOrder other id := by
  induction depth generalizing other id with
  | zero => omega
  | succ depth ih =>
      cases other with
      | zero => omega
      | succ other =>
          have children : ∀ child ∈ (shell.pcb id).child,
              shell.killOrder depth child = shell.killOrder other child := by
            intro child isChild
            have order := younger id child isChild
            exact ih order.2 (by omega) (by omega)
          rw [killOrder, killOrder, List.flatMap_congr children]

private theorem subtree_length_le (single : shell.SingleParent) (younger : shell.Younger) {id : Nat}
    (below : id < shell.created) : (shell.subtree id).length ≤ shell.created - id := by
  have inRange : shell.subtree id ⊆ List.range' id (shell.created - id) := by
    intro visited member
    have lower := Descends.le younger (descends_of_mem_killOrder member)
    have upper := killOrder_lt shell.created younger below visited member
    rw [List.mem_range'_1]
    omega
  have bound := ((single.killOrder_nodup younger _ id).subperm inRange).length_le
  rwa [List.length_range'] at bound

/-- From any reachable state the recursion of `Kill_Tree` ends, started at any process: it
visits no process twice. -/
theorem tShell_killTree_ends {commands : List Command}
    (run : runAll step boot commands = some shell) :
    (∀ parent, ∀ child ∈ shell.childOf parent, parent < child ∧
      (shell.childOf parent).count child = 1 ∧
      ∀ other, child ∈ shell.childOf other → other = parent) ∧
    ∀ id < shell.created, (shell.subtree id).Nodup ∧
      (shell.subtree id).length ≤ shell.created - id ∧
      ∀ depth, shell.created ≤ id + depth →
        killTree depth shell id = .ok (shell.killAll (shell.subtree id)) := by
  have consistent := run_consistent run
  have single := run_singleParent run
  refine ⟨fun parent child isChild => ?_, fun id below => ?_⟩
  · exact ⟨(consistent.younger parent child isChild).1,
      List.count_eq_one_of_mem (single.once parent) isChild,
      fun other => single.unique parent other child isChild⟩
  · refine ⟨single.killOrder_nodup consistent.younger _ id,
      subtree_length_le single consistent.younger below, fun depth enough => ?_⟩
    rcases killTree_exists consistent.younger below enough with ⟨killed, executed⟩
    rw [executed, killTree_ok executed, subtree,
      killOrder_eq consistent.younger below enough (Nat.le_add_left _ _)]

/-- A child that was destroyed still stands on its list. -/
theorem destroyed_child_killTree : ∃ shell,
    runAll step boot [.cr nameX 1, .cr nameY 2, .de nameY, .cr nameY 1] = some shell ∧
      (shell.subtree 0).Nodup :=
  ⟨_, rfl, ((tShell_killTree_ends (rfl : runAll step boot
    [.cr nameX 1, .cr nameY 2, .de nameY, .cr nameY 1] = some _)).2 0 (by decide)).1⟩

end OsCompiler.TShell.Shell
