/-
Which processes `Destroy` takes off the lists.

The processes meant are a process and its descendants in the creation tree, whose child
lists keep what was destroyed. `Destroy` looks for a name on the ready lists, `Kill_Tree`
unlinks by name from ready lists and leaves every waiting list as it is.
-/

import OsCompiler.TShell.WakeUp
import Mathlib.Logic.Relation

namespace OsCompiler.TShell.Shell

open OsCompiler.Transition

variable {shell after : Shell}

/-- The process itself or one that descends from it in the creation tree. -/
def Descends (shell : Shell) (root id : Nat) : Prop :=
  Relation.ReflTransGen (fun parent child => child ∈ (shell.pcb parent).child) root id

def subtree (shell : Shell) (root : Nat) : List Nat := shell.killOrder shell.created root

/-- `de` with the name of the process takes the subtree off all lists, gives back what it
held and leaves all other processes alone. -/
structure RemovesSubtree (shell : Shell) (root : Nat) (after : Shell) : Prop where
  ready : ∀ level, after.ready level =
    (shell.ready level).filter (fun id => id ∉ shell.subtree root)
  waitList : ∀ rid, (after.rcb rid).waitList =
    (shell.rcb rid).waitList.filter (fun id => id ∉ shell.subtree root)
  units : ∀ rid, (after.rcb rid).status =
    (shell.rcb rid).status + shell.heldBy (shell.subtree root) rid
  emptied : ∀ id ∈ shell.subtree root, (after.pcb id).resours = []
  others : ∀ id, id ∉ shell.subtree root → after.pcb id = shell.pcb id

def DestroysSubtree (shell : Shell) (root : Nat) : Prop :=
  ∃ after, shell.exec (.de (shell.nameOf root)) = .ok after ∧ shell.RemovesSubtree root after

def UniqueName (shell : Shell) (root : Nat) : Prop :=
  ∀ other, shell.Listed other → shell.nameOf other = shell.nameOf root → other = root

/-- The process is found on a ready list, nobody of its subtree waits, on each ready list and
for each name the nodes unlinked are those of the subtree, and some process stays ready. -/
structure Destroyable (shell : Shell) (root : Nat) : Prop where
  found : shell.findNamePcb (shell.nameOf root) = some root
  noneWaits : ∀ rid, ∀ id ∈ (shell.rcb rid).waitList, id ∉ shell.subtree root
  ownNodes : ∀ level, ErasesExactly shell.nameOf (shell.ready level)
    ((shell.atLevel level (shell.subtree root)).map shell.nameOf) (shell.subtree root)
  remains : ∃ level, ∃ id ∈ shell.ready level, id ∉ shell.subtree root

/-! ### The creation tree -/

theorem descends_of_mem_killOrder {depth root id : Nat} (member : id ∈ shell.killOrder depth root) :
    shell.Descends root id := by
  induction depth generalizing root with
  | zero => cases member
  | succ depth ih =>
      rw [killOrder, List.mem_append, List.mem_flatMap, List.mem_singleton] at member
      rcases member with ⟨child, isChild, below⟩ | rfl
      · exact Relation.ReflTransGen.head isChild (ih below)
      · exact Relation.ReflTransGen.refl

/-- The processes created so far bound the depth of the tree. -/
theorem mem_killOrder_of_descends (younger : shell.Younger) {root id : Nat}
    (descends : shell.Descends root id) :
    ∀ depth, root < shell.created → shell.created ≤ root + depth →
      id ∈ shell.killOrder depth root := by
  refine Relation.ReflTransGen.head_induction_on descends ?_ ?_
  · intro depth below enough
    cases depth with
    | zero => omega
    | succ depth => exact List.mem_append_right _ List.mem_cons_self
  · intro parent child isChild _ ih depth below enough
    have order := younger parent child isChild
    cases depth with
    | zero => omega
    | succ depth =>
        refine List.mem_append_left _ (List.mem_flatMap.mpr ⟨child, isChild, ?_⟩)
        exact ih depth order.2 (by omega)

private theorem mem_subtree_iff (younger : shell.Younger) {root : Nat}
    (below : root < shell.created)
    (id : Nat) : id ∈ shell.subtree root ↔ shell.Descends root id :=
  ⟨descends_of_mem_killOrder, fun descends =>
    mem_killOrder_of_descends younger descends shell.created below (Nat.le_add_left _ _)⟩

private theorem root_mem_subtree (younger : shell.Younger) {root : Nat}
    (below : root < shell.created) :
    root ∈ shell.subtree root :=
  (mem_subtree_iff younger below root).mpr Relation.ReflTransGen.refl

theorem Consistent.listed_lt (consistent : shell.Consistent) {id : Nat}
    (listed : shell.Listed id) : id < shell.created := by
  rcases listed with ⟨level, member⟩ | ⟨rid, member⟩
  · exact consistent.listed level id member
  · exact consistent.waiting rid id member

/-! ### `Destroy` of a process that it finds -/

/-- The scheduler completes while some process is ready. -/
theorem scheduler_of_ready (notRunning : ∀ id, (shell.pcb id).status ≠ .RUNNING) {level : Level}
    {id : Nat} (member : id ∈ shell.ready level) : shell.scheduler = .ok shell.reschedule := by
  have found : ∃ cur, shell.findPcb = some cur := by
    unfold findPcb
    cases system : shell.ready .System with
    | cons head rest => exact ⟨head, rfl⟩
    | nil =>
        cases user : shell.ready .User with
        | cons head rest => exact ⟨head, rfl⟩
        | nil =>
            cases init : shell.ready .Init with
            | cons head rest => exact ⟨head, rfl⟩
            | nil => cases level <;> simp_all
  rcases found with ⟨cur, found⟩
  unfold scheduler reschedule
  cases current : shell.current with
  | none => simp [found, preempt, pure, Except.pure]
  | some running => simp [found, preempt, pure, Except.pure, notRunning running]

private theorem exec_de_found (consistent : shell.Consistent) {name : Name} {root : Nat}
    (found : shell.findNamePcb name = some root) {level : Level} {id : Nat}
    (member : id ∈ (shell.killAll (shell.subtree root)).ready level) :
    shell.exec (.de name) = .ok (shell.killAll (shell.subtree root)).reschedule := by
  rcases findNamePcb_eq_some found with ⟨_, own, listed⟩
  rcases killTree_exists consistent.younger (consistent.listed own root listed)
    (Nat.le_add_left shell.created root) with ⟨killed, tree⟩
  have closed := killTree_ok tree
  subst closed
  have executed : shell.exec (.de name) = (do
      let killed ← shell.killTree shell.created root
      killed.scheduler) := by
    change shell.destroy name = _
    unfold destroy
    rw [found]
  rw [executed]
  refine bind_eq_ok.mpr ⟨_, tree, ?_⟩
  exact scheduler_of_ready (consistent.toWellFormed.killAll _).notRunning member

private theorem killAll_ready_eq_filter_iff (root : Nat) (level : Level) :
    (shell.killAll (shell.subtree root)).ready level =
        (shell.ready level).filter (fun id => id ∉ shell.subtree root) ↔
      ErasesExactly shell.nameOf (shell.ready level)
        ((shell.atLevel level (shell.subtree root)).map shell.nameOf) (shell.subtree root) := by
  rw [killAll_ready]
  exact eraseKeys_eq_filter_iff

theorem filter_subtree_eq_self_iff {list : List Nat} {root : Nat} :
    list.filter (fun id => id ∉ shell.subtree root) = list ↔
      ∀ id ∈ list, id ∉ shell.subtree root := by
  rw [List.filter_eq_self]
  simp

/-- Where the conditions are met the whole subtree goes and nobody else. -/
theorem Destroyable.destroys (consistent : shell.Consistent) {root : Nat}
    (destroyable : shell.Destroyable root) : shell.DestroysSubtree root := by
  rcases findNamePcb_eq_some destroyable.found with ⟨_, own, listed⟩
  have below := consistent.listed own root listed
  have ready (level : Level) := (killAll_ready_eq_filter_iff root level).mpr
    (destroyable.ownNodes level)
  rcases destroyable.remains with ⟨level, id, member, outside⟩
  have stays : id ∈ (shell.killAll (shell.subtree root)).ready level := by
    rw [ready]
    exact List.mem_filter.mpr ⟨member, by simpa using outside⟩
  refine ⟨_, exec_de_found consistent destroyable.found stays, ?_⟩
  constructor
  · exact ready
  · intro rid
    rw [reschedule_rcb, killAll_waitList]
    exact (filter_subtree_eq_self_iff.mpr (destroyable.noneWaits rid)).symm
  · intro rid
    exact killAll_status (killOrder_lt shell.created consistent.younger below) rid
  · intro process member
    rw [reschedule_pcb, killAll_pcb, if_pos member]
  · intro process outside
    rw [reschedule_pcb, killAll_pcb, if_neg outside]

private theorem findNamePcb_ne_none {level : Level} {id : Nat} (member : id ∈ shell.ready level) :
    shell.findNamePcb (shell.nameOf id) ≠ none := by
  intro absent
  have missing (own : Level) (none : (shell.ready own).find?
      (fun other => (shell.pcb other).pid = shell.nameOf id) = none) : id ∉ shell.ready own := by
    intro here
    have different := List.find?_eq_none.mp none id here
    exact different (by simp [nameOf])
  simp only [findNamePcb] at absent
  split at absent
  · cases absent
  · rename_i noSystem
    split at absent
    · cases absent
    · rename_i noUser
      cases level with
      | System => exact missing .System noSystem member
      | User => exact missing .User noUser member
      | Init => exact missing .Init absent member

/-- A destruction of exactly the subtree has found the process on a ready list and all of
its subtree on none but these. -/
theorem DestroysSubtree.destroyable (consistent : shell.Consistent) {root : Nat}
    (listed : shell.Listed root) (unique : shell.UniqueName root)
    (destroys : shell.DestroysSubtree root) : shell.Destroyable root := by
  have below := consistent.listed_lt listed
  have own := root_mem_subtree consistent.younger below
  rcases destroys with ⟨after, executed, removes⟩
  rcases exec_effect consistent executed with ⟨effect, consistentAfter⟩
  generalize named : shell.nameOf root = name at effect
  cases effect with
  | notFound absent =>
      rw [← named] at absent
      rcases listed with ⟨level, member⟩ | ⟨rid, member⟩
      · exact absurd absent (findNamePcb_ne_none member)
      · have stays := filter_subtree_eq_self_iff.mp (removes.waitList rid).symm
        exact absurd own (stays root member)
  | @destroyed _ victim found =>
      have victimNamed := findNamePcb_eq_some found
      have same : victim = root := by
        rcases victimNamed with ⟨victimName, level, member⟩
        exact unique victim (Or.inl ⟨level, member⟩) (victimName.trans named.symm)
      subst same
      have ready (level : Level) : (shell.killAll (shell.subtree victim)).ready level =
          (shell.ready level).filter (fun id => id ∉ shell.subtree victim) := removes.ready level
      constructor
      · rw [named]
        exact found
      · intro rid
        have kept := removes.waitList rid
        rw [reschedule_rcb, killAll_waitList] at kept
        exact filter_subtree_eq_self_iff.mp kept.symm
      · intro level
        exact (killAll_ready_eq_filter_iff victim level).mp (ready level)
      · rcases consistentAfter.running with ⟨id, current⟩
        rcases consistentAfter.head current with ⟨level, rest, list, _⟩
        have stays : id ∈ (shell.killAll (shell.subtree victim)).ready level := by
          change (shell.killAll (shell.subtree victim)).ready level = id :: rest at list
          rw [list]
          exact List.mem_cons_self
        rw [ready] at stays
        rcases List.mem_filter.mp stays with ⟨member, outside⟩
        exact ⟨level, id, member, by simpa using outside⟩

/-- From any reachable state the conditions are enough for `de` to remove exactly the process
and its descendants, and for a listed process with a unique name they are necessary. -/
theorem tShell_destroy_subtree_iff {commands : List Command}
    (run : runAll step boot commands = some shell) {root : Nat} (listed : shell.Listed root) :
    (∀ id, id ∈ shell.subtree root ↔ shell.Descends root id) ∧
      (shell.Destroyable root → shell.DestroysSubtree root) ∧
      (shell.UniqueName root → (shell.DestroysSubtree root ↔ shell.Destroyable root)) := by
  have consistent := run_consistent run
  refine ⟨mem_subtree_iff consistent.younger (consistent.listed_lt listed), ?_, ?_⟩
  · exact Destroyable.destroys consistent
  · intro unique
    exact ⟨DestroysSubtree.destroyable consistent listed unique, Destroyable.destroys consistent⟩

/-- `x` and its child `y` go together, `init` stays. -/
theorem parent_child_destroyed : ∃ shell,
    runAll step boot [.cr nameX 1, .cr nameY 1] = some shell ∧ shell.DestroysSubtree 1 := by
  refine ⟨_, rfl, ?_⟩
  refine (tShell_destroy_subtree_iff (rfl : runAll step boot [.cr nameX 1, .cr nameY 1] = some _)
    (Or.inl ⟨.User, List.mem_cons_self⟩)).2.1 ?_
  constructor
  · rfl
  · intro rid id member
    cases member
  · intro level
    refine eraseKeys_eq_filter_iff.mp ?_
    cases level <;> rfl
  · exact ⟨.Init, 0, List.mem_cons_self, by decide⟩

/-- `y` waits for the unit of `x`: `de y` does not find it. -/
theorem blocked_process_not_destroyed : ∃ shell, runAll step boot holdAndWait = some shell ∧
    shell.Listed 2 ∧ shell.UniqueName 2 ∧ ¬ shell.DestroysSubtree 2 := by
  refine ⟨_, rfl, Or.inr ⟨.R1, List.mem_cons_self⟩, ?_, ?_⟩
  · intro other listed same
    rcases listed with ⟨level, member⟩ | ⟨rid, member⟩
    · cases level with
      | System => cases member
      | User =>
          rw [List.mem_singleton.mp (member : other ∈ [1])] at same
          exact absurd same (by decide)
      | Init =>
          rw [List.mem_singleton.mp (member : other ∈ [0])] at same
          exact absurd same (by decide)
    · cases rid with
      | R1 => exact List.mem_singleton.mp (member : other ∈ [2])
      | _ => cases member
  · intro destroys
    rcases destroys with ⟨after, executed, removes⟩
    cases executed
    have left := removes.waitList .R1
    revert left
    decide

/-- `x` has a destroyed child `y`; destroying `x` unlinks the `y` that `init` made since. -/
example :
    (runAll step boot [.cr nameX 0, .to, .cr nameY 0, .de nameY, .to, .cr nameY 0]).map
        (fun shell => (shell.ready .Init, shell.subtree 1)) = some ([0, 1, 3], [2, 1]) ∧
      (runAll step boot [.cr nameX 0, .to, .cr nameY 0, .de nameY, .to, .cr nameY 0, .de nameX]).map
        (fun shell => shell.ready .Init) = some [0] := by
  decide

end OsCompiler.TShell.Shell
