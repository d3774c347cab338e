/-
`Kill_Tree` as a fold: it visits the processes of the subtree in the order
`killOrder` and does the same to each of them.

Children are created after their parents and child lists never lose a node, so the
number of processes bounds the depth of the recursion.
-/

import OsCompiler.TShell.Commands
import OsCompiler.Lib.KeyedErase
import OsCompiler.Lib.Transition

namespace OsCompiler.TShell.Shell

open OsCompiler.Transition

variable {shell : Shell}

/-- The processes that `killTree depth` visits, in its order. -/
def killOrder (shell : Shell) : Nat → Nat → List Nat
  | 0, _ => []
  | depth + 1, id => (shell.pcb id).child.flatMap (shell.killOrder depth) ++ [id]

def killAll (shell : Shell) (visits : List Nat) : Shell := visits.foldl killOne shell

/-! ### One process -/

theorem freeUnits_frame (shell : Shell) (resours : List Rid) :
    (shell.freeUnits resours).pcb = shell.pcb ∧ (shell.freeUnits resours).ready = shell.ready ∧
      (shell.freeUnits resours).created = shell.created ∧
      (shell.freeUnits resours).current = shell.current := by
  induction resours generalizing shell with
  | nil => exact ⟨rfl, rfl, rfl, rfl⟩
  | cons rid rest ih =>
      exact ih (shell.setRcb rid { shell.rcb rid with status := (shell.rcb rid).status + 1 })

private theorem freeUnits_rcb (resours : List Rid) (rid : Rid) :
    (shell.freeUnits resours).rcb rid =
      { shell.rcb rid with status := (shell.rcb rid).status + resours.count rid } := by
  induction resours generalizing shell with
  | nil => simp [freeUnits]
  | cons node rest ih =>
      change ((shell.setRcb node _).freeUnits rest).rcb rid = _
      rw [ih]
      by_cases same : node = rid
      · subst same
        simp [Int.add_assoc, Int.add_comm]
      · simp [same, Ne.symm same]

theorem killOne_pcb (id : Nat) : (shell.killOne id).pcb =
    Function.update shell.pcb id { shell.pcb id with resours := [] } := by
  have frame := shell.freeUnits_frame (shell.pcb id).resours
  simp only [killOne]
  split <;> simp [frame]

theorem killOne_rcb (id : Nat) (rid : Rid) : (shell.killOne id).rcb rid =
    { shell.rcb rid with
      status := (shell.rcb rid).status + (shell.pcb id).resours.count rid } := by
  rw [← freeUnits_rcb]
  simp only [killOne]
  split <;> rfl

theorem killOne_ready (id : Nat) (level : Level) : (shell.killOne id).ready level =
    if levelOf (shell.pcb id).priority = some level
      then shell.deleteNodeList (shell.ready level) id else shell.ready level := by
  have frame := shell.freeUnits_frame (shell.pcb id).resours
  simp only [killOne]
  split
  · rename_i own inside
    simp only [setPcb_pcb, Function.update_self, frame] at inside
    by_cases same : own = level
    · subst same
      have samePid (node : Nat) : (Function.update shell.pcb id
          { shell.pcb id with resours := [] } node).pid = (shell.pcb node).pid := by
        rw [Function.update_apply]
        split
        · simp [*]
        · rfl
      simp only [inside, frame, deleteNodeList, setPcb_pcb, setPcb_ready, samePid,
        setReady_ready, Function.update_self, if_true]
    · simp [inside, same, Ne.symm same, frame]
  · rename_i outside
    simp only [setPcb_pcb, Function.update_self, frame] at outside
    simp [outside, frame]

theorem killOne_created (id : Nat) : (shell.killOne id).created = shell.created := by
  have frame := shell.freeUnits_frame (shell.pcb id).resours
  simp only [killOne]
  split <;> simp [frame]

def nameOf (shell : Shell) (id : Nat) : Name := (shell.pcb id).pid

def atLevel (shell : Shell) (level : Level) (visits : List Nat) : List Nat :=
  visits.filter fun id => levelOf (shell.pcb id).priority = some level

private theorem killOne_nameOf (id : Nat) : (shell.killOne id).nameOf = shell.nameOf := by
  funext other
  unfold nameOf
  rw [killOne_pcb, Function.update_apply]
  split
  · rename_i same
    rw [same]
  · rfl

private theorem killOne_atLevel (id : Nat) (level : Level) (visits : List Nat) :
    (shell.killOne id).atLevel level visits = shell.atLevel level visits := by
  unfold atLevel
  congr 1
  funext other
  rw [killOne_pcb, Function.update_apply]
  split
  · rename_i same
    rw [same]
  · rfl

/-! ### All processes visited -/

@[simp] theorem killAll_nil : shell.killAll [] = shell := rfl

theorem killAll_cons (id : Nat) (visits : List Nat) :
    shell.killAll (id :: visits) = (shell.killOne id).killAll visits := rfl

private theorem killAll_append (first second : List Nat) :
    shell.killAll (first ++ second) = (shell.killAll first).killAll second :=
  List.foldl_append

theorem killAll_pcb (visits : List Nat) (other : Nat) : (shell.killAll visits).pcb other =
    if other ∈ visits then { shell.pcb other with resours := [] } else shell.pcb other := by
  induction visits generalizing shell with
  | nil => simp
  | cons id visits ih =>
      rw [killAll_cons, ih, killOne_pcb]
      by_cases same : other = id
      · subst same
        simp
      · simp [same]

theorem killAll_created (visits : List Nat) : (shell.killAll visits).created = shell.created := by
  induction visits generalizing shell with
  | nil => rfl
  | cons id visits ih => rw [killAll_cons, ih, killOne_created]

theorem killAll_ready (visits : List Nat) (level : Level) :
    (shell.killAll visits).ready level = eraseKeys shell.nameOf (shell.ready level)
      ((shell.atLevel level visits).map shell.nameOf) := by
  induction visits generalizing shell with
  | nil => rfl
  | cons id visits ih =>
      rw [killAll_cons, ih, killOne_ready, killOne_nameOf, killOne_atLevel]
      by_cases here : levelOf (shell.pcb id).priority = some level
      · have first : shell.atLevel level (id :: visits) = id :: shell.atLevel level visits := by
          simp [atLevel, here]
        rw [if_pos here, first]
        rfl
      · have skipped : shell.atLevel level (id :: visits) = shell.atLevel level visits := by
          simp [atLevel, here]
        rw [if_neg here, skipped]

theorem killAll_waitList (visits : List Nat) (rid : Rid) :
    ((shell.killAll visits).rcb rid).waitList = (shell.rcb rid).waitList := by
  induction visits generalizing shell with
  | nil => rfl
  | cons id visits ih => rw [killAll_cons, ih, killOne_rcb]

theorem killAll_status_le (visits : List Nat) (rid : Rid) :
    (shell.rcb rid).status ≤ ((shell.killAll visits).rcb rid).status := by
  induction visits generalizing shell with
  | nil => exact Int.le_refl _
  | cons id visits ih =>
      rw [killAll_cons]
      refine Int.le_trans ?_ ih
      rw [killOne_rcb]
      exact Int.le_add_of_nonneg_right (Int.natCast_nonneg _)

/-- Everything in a PCB but the resource list outlives the kill. -/
theorem killAll_pcb_frame (shell : Shell) (visits : List Nat) (other : Nat) :
    ∃ resours, (shell.killAll visits).pcb other = { shell.pcb other with resours := resours } := by
  rw [killAll_pcb]
  split
  · exact ⟨[], rfl⟩
  · exact ⟨(shell.pcb other).resours, rfl⟩

private theorem killOrder_congr {other : Shell}
    (same : ∀ id, (other.pcb id).child = (shell.pcb id).child) (depth : Nat) (id : Nat) :
    other.killOrder depth id = shell.killOrder depth id := by
  induction depth generalizing id with
  | zero => rfl
  | succ depth ih =>
      have inner : other.killOrder depth = shell.killOrder depth := funext ih
      simp only [killOrder, same, inner]

private theorem killOrder_killAll (visits : List Nat) (depth : Nat) (id : Nat) :
    (shell.killAll visits).killOrder depth id = shell.killOrder depth id := by
  apply killOrder_congr
  intro other
  obtain ⟨resours, frame⟩ := shell.killAll_pcb_frame visits other
  rw [frame]

/-! ### The recursion -/

/-- Where `killTree` agrees with the fold on each child, it does so on a list of them. -/
theorem foldlM_killTree {depth : Nat} {children : List Nat} {killed : Shell}
    (each : ∀ (shell killed : Shell) (id : Nat), killTree depth shell id = .ok killed →
      killed = shell.killAll (shell.killOrder depth id))
    (executed : children.foldlM (killTree depth) shell = .ok killed) :
    killed = shell.killAll (children.flatMap (shell.killOrder depth)) := by
  induction children generalizing shell with
  | nil =>
      cases executed
      rfl
  | cons id children ih =>
      rw [List.foldlM_cons] at executed
      obtain ⟨next, first, rest⟩ := bind_eq_ok.mp executed
      have own := each shell next id first
      subst own
      have orders : (shell.killAll (shell.killOrder depth id)).killOrder depth =
          shell.killOrder depth := funext fun child => killOrder_killAll _ depth child
      rw [ih rest, orders, List.flatMap_cons, killAll_append]

theorem killTree_ok {depth : Nat} {id : Nat} {killed : Shell}
    (executed : killTree depth shell id = .ok killed) :
    killed = shell.killAll (shell.killOrder depth id) := by
  induction depth generalizing shell id killed with
  | zero => cases executed
  | succ depth ih =>
      unfold killTree at executed
      obtain ⟨children, inner, last⟩ := bind_eq_ok.mp executed
      cases last
      have below := foldlM_killTree (fun _ _ _ => ih) inner
      rw [killOrder, killAll_append, ← below]
      rfl

/-- Children are younger than their parents. -/
def Younger (shell : Shell) : Prop :=
  ∀ id, ∀ child ∈ (shell.pcb id).child, id < child ∧ child < shell.created

theorem Younger.killAll (younger : shell.Younger) (visits : List Nat) :
    (shell.killAll visits).Younger := by
  intro id child member
  obtain ⟨resours, frame⟩ := shell.killAll_pcb_frame visits id
  rw [frame] at member
  rw [killAll_created]
  exact younger id child member

/-- The depth that `Destroy` passes is enough. -/
theorem killTree_exists {depth : Nat} {id : Nat} (younger : shell.Younger)
    (below : id < shell.created) (enough : shell.created ≤ id + depth) :
    ∃ killed, killTree depth shell id = .ok killed := by
  induction depth generalizing shell id with
  | zero => omega
  | succ depth ih =>
      have fold : ∀ (children : List Nat) (current : Shell), current.Younger →
          current.created = shell.created → (∀ child ∈ children, id < child ∧ child < shell.created) →
          ∃ killed, children.foldlM (killTree depth) current = .ok killed := by
        intro children
        induction children with
        | nil => exact fun current _ _ _ => ⟨current, rfl⟩
        | cons child children step =>
            intro current youngerNow same inside
            obtain ⟨above, bounded⟩ := inside child List.mem_cons_self
            obtain ⟨next, executed⟩ := ih youngerNow
              (by omega : child < current.created) (by omega)
            have closed := killTree_ok executed
            obtain ⟨killed, rest⟩ := step next (closed ▸ youngerNow.killAll _)
              (by rw [closed, killAll_created, same])
              (fun other member => inside other (List.mem_cons_of_mem _ member))
            refine ⟨killed, ?_⟩
            rw [List.foldlM_cons, executed]
            exact rest
      obtain ⟨killed, executed⟩ := fold (shell.pcb id).child shell younger rfl (younger id)
      refine ⟨killed.killOne id, ?_⟩
      rw [killTree, executed]
      rfl

theorem killOrder_lt (depth : Nat) {id : Nat} (younger : shell.Younger)
    (below : id < shell.created) : ∀ visited ∈ shell.killOrder depth id, visited < shell.created := by
  induction depth generalizing id with
  | zero => simp [killOrder]
  | succ depth ih =>
      intro visited member
      rw [killOrder, List.mem_append, List.mem_flatMap, List.mem_singleton] at member
      obtain ⟨child, inside, deeper⟩ | rfl := member
      · exact ih (younger id child inside).2 visited deeper
      · exact below

end OsCompiler.TShell.Shell
