/-
What `Release` owes the processes that wait for the released resource.

The obligation is the usual one: a longest front of the waiting list whose demands fit
leaves that list with its units. `Release` gives the units and the places on the ready
lists to the releaser, and its waiting list never shrinks.
-/

import OsCompiler.TShell.WakeUp

namespace OsCompiler.TShell.Shell

open OsCompiler.Transition

variable {shell after : Shell}

/-- The longest front of a waiting list whose demands fit into the free units one after
another. -/
def servedFront (demand : Nat → Int) (free : Int) : List Nat → List Nat
  | [] => []
  | id :: rest =>
      if demand id ≤ free then id :: servedFront demand (free - demand id) rest else []

def demand (shell : Shell) (id : Nat) : Int := (shell.pcb id).blockedNum

def served (shell : Shell) (rid : Rid) (n : Int) : List Nat :=
  servedFront shell.demand ((shell.rcb rid).status + n) (shell.rcb rid).waitList

def totalDemand (shell : Shell) (visits : List Nat) : Int :=
  visits.foldr (fun id total => shell.demand id + total) 0

/-- The state after a release by `id` that takes its units back and serves its waiters. -/
structure ServesWaiters (shell : Shell) (rid : Rid) (id : Nat) (n : Int) (after : Shell) :
    Prop where
  waitList : (after.rcb rid).waitList =
    (shell.rcb rid).waitList.drop (shell.served rid n).length
  status : (after.rcb rid).status =
    (shell.rcb rid).status + n - shell.totalDemand (shell.served rid n)
  elsewhere : ∀ other, other ≠ rid → after.rcb other = shell.rcb other
  holdings : ∀ process resource, ((after.pcb process).resours.count resource : Int) =
    (shell.pcb process).resours.count resource -
      (if process = id ∧ resource = rid then n else 0) +
      (if resource = rid then (shell.served rid n).count process * shell.demand process else 0)
  ready : ∀ level, after.ready level =
    shell.ready level ++ shell.atLevel level (shell.served rid n)
  woken : ∀ process ∈ shell.served rid n, (after.pcb process).status = .READY
  others : ∀ process, process ≠ id → process ∉ shell.served rid n →
    after.pcb process = shell.pcb process
  releaser : id ∉ shell.served rid n →
    ∃ resours, after.pcb id = { shell.pcb id with resours := resours }

/-- `rel` completes and serves the waiting processes. -/
def ReleaseServes (shell : Shell) (rid : Rid) (n : Int) : Prop :=
  ∃ id after, shell.current = some id ∧ shell.exec (.rel rid n) = .ok after ∧
    shell.ServesWaiters rid id n after

/-- `Release` exits when the current process holds nothing at all. -/
def CurrentHolds (shell : Shell) : Prop :=
  ∀ id, shell.current = some id → (shell.pcb id).resours ≠ []

/-! ### What the loop of `Release` leaves alone -/

theorem serveNode_waitList (rid : Rid) (id node q : Nat) (other : Rid) :
    ((shell.serveNode rid id node q).rcb other).waitList = (shell.rcb other).waitList := by
  simp only [serveNode, insertPriority_rcb, resourceAllocs_rcb, setStatus_rcb, setRcb_rcb,
    Function.update_apply]
  split
  · rename_i same
    rw [same]
  · rfl

private theorem serveWaiting_waitList (consistent : shell.Consistent) {rid : Rid} {id : Nat}
    {nodes : List Nat} (below : id < shell.created)
    (served : serveWaiting rid id nodes shell = .ok after) (other : Rid) :
    (after.rcb other).waitList = (shell.rcb other).waitList := by
  refine (serveWaiting_induction (fun now : Shell =>
    (now.rcb other).waitList = (shell.rcb other).waitList) ?_ rfl consistent below served).1
  intro now node q kept _ _ _ _
  rw [reschedule_rcb, serveNode_waitList]
  exact kept

/-! ### Who has to be served -/

theorem served_eq_nil_iff {rid : Rid} {n : Int} :
    shell.served rid n = [] ↔ shell.ServesNobody (.rel rid n) := by
  unfold served
  cases list : (shell.rcb rid).waitList with
  | nil =>
      refine iff_of_true rfl ?_
      intro other amount first same waits
      cases same
      rw [list] at waits
      cases waits
  | cons first rest =>
      rw [servedFront]
      constructor
      · intro none other amount head same waits
        cases same
        rw [list, List.head?_cons, Option.some.injEq] at waits
        subst waits
        by_contra enough
        have fits : shell.demand first ≤ (shell.rcb rid).status + n := Int.not_lt.mp enough
        rw [if_pos fits] at none
        cases none
      · intro nobody
        have short := nobody rid n first rfl (by rw [list]; rfl)
        exact if_neg (Int.not_le.mpr short)

/-- The waiting list stays as it is, so nobody may have had to leave it. -/
theorem ServesWaiters.nobody {rid : Rid} {id : Nat} {n : Int}
    (serves : shell.ServesWaiters rid id n after)
    (kept : (after.rcb rid).waitList = (shell.rcb rid).waitList) :
    shell.ServesNobody (.rel rid n) := by
  rw [← served_eq_nil_iff]
  have lengths := congrArg List.length (kept.symm.trans serves.waitList)
  rw [List.length_drop] at lengths
  have none : (shell.rcb rid).waitList = [] ∨ (shell.served rid n).length = 0 := by
    rcases Nat.eq_zero_or_pos (shell.rcb rid).waitList.length with empty | some
    · exact Or.inl (List.length_eq_zero_iff.mp empty)
    · exact Or.inr (by omega)
  rcases none with empty | zero
  · unfold served
    rw [empty]
    rfl
  · exact List.length_eq_zero_iff.mp zero

/-! ### A release that serves nobody -/

theorem exec_rel_nobody {rid : Rid} {id : Nat} {n : Int} (current : shell.current = some id)
    (holding : (shell.pcb id).resours ≠ []) (nobody : shell.ServesNobody (.rel rid n)) :
    shell.exec (.rel rid n) = .ok ((shell.dropUnits rid id n).credit rid n) := by
  have freed : shell.resourceFree rid id n = .ok (shell.dropUnits rid id n) := if_neg holding
  have list : (((shell.dropUnits rid id n).credit rid n).rcb rid).waitList =
      (shell.rcb rid).waitList := by
    rw [credit_rcb]
    rfl
  have executed : shell.exec (.rel rid n) = shell.release rid id n := by
    simp only [exec, current]
  rw [executed]
  refine bind_eq_ok.mpr ⟨_, freed, ?_⟩
  simp only [list]
  exact serveWaiting_refused nobody id

private theorem credited_serves {rid : Rid} {id : Nat} {n : Int} (amount : 0 ≤ n)
    (holds : n ≤ (shell.pcb id).resours.count rid) (nobody : shell.ServesNobody (.rel rid n)) :
    shell.ServesWaiters rid id n ((shell.dropUnits rid id n).credit rid n) := by
  have none := served_eq_nil_iff.mpr nobody
  have pcb (process : Nat) : ((shell.dropUnits rid id n).credit rid n).pcb process =
      (shell.dropUnits rid id n).pcb process := rfl
  constructor
  · rw [none, credit_rcb]
    rfl
  · rw [none, credit_rcb]
    simp [totalDemand, dropUnits]
  · intro other different
    rw [credit_rcb, if_neg different]
    rfl
  · intro process resource
    rw [none, pcb, dropUnits_pcb]
    by_cases own : process = id
    · subst own
      rw [if_pos rfl, count_freeNodes]
      by_cases same : resource = rid
      · subst same
        simp
        omega
      · simp [same]
    · simp [own]
  · intro level
    rw [none]
    exact (List.append_nil _).symm
  · intro process member
    rw [none] at member
    cases member
  · intro process different _
    rw [pcb, dropUnits_pcb, if_neg different]
  · intro _
    rw [pcb, dropUnits_pcb]
    exact ⟨_, rfl⟩

/-- From any reachable state, a release of units that the current process holds serves its
waiters exactly when there is nobody to serve and the process holds some unit, without which
`Release` exits. -/
theorem tShell_release_serves_iff {commands : List Command}
    (run : runAll step boot commands = some shell) {rid : Rid} {n : Int} (amount : 0 ≤ n)
    (holds : shell.ReleasesHeld (.rel rid n)) :
    shell.ReleaseServes rid n ↔ shell.CurrentHolds ∧ shell.ServesNobody (.rel rid n) := by
  have consistent := run_consistent run
  constructor
  · intro serves
    rcases serves with ⟨id, after, current, executed, serves⟩
    cases (exec_effect consistent executed).1 with
    | @released _ releaser _ _ releases holding looped =>
        have same : releaser = id := Option.some.inj (releases.symm.trans current)
        subst same
        have kept := serveWaiting_waitList (consistent.credited rid releaser n)
          (consistent.current_lt current) looped rid
        rw [credit_rcb] at kept
        refine ⟨?_, serves.nobody kept⟩
        intro other others
        rw [Option.some.inj (others.symm.trans current)]
        exact holding
  · intro both
    rcases both with ⟨holding, nobody⟩
    rcases consistent.running with ⟨id, current⟩
    exact ⟨id, _, current, exec_rel_nobody current (holding id current) nobody,
      credited_serves amount (holds rid n id rfl current) nobody⟩

/-- `x` gives back the unit that `y` waits for and has it again. -/
theorem release_serves_releaser : ∃ shell, runAll step boot holdAndWait = some shell ∧
    shell.ReleasesHeld (.rel .R1 1) ∧ ¬ shell.ReleaseServes .R1 1 := by
  refine ⟨_, rfl, ?_, ?_⟩
  · intro rid n id same current
    cases same
    cases current
    decide
  · intro serves
    rcases serves with ⟨id, after, current, executed, serves⟩
    cases current
    cases executed
    have left := serves.waitList
    revert left
    decide

/-- `x` gives back a unit that nobody waits for. -/
theorem request_release_serves : ∃ shell,
    runAll step boot [.cr nameX 1, .req .R1 1] = some shell ∧ shell.ReleaseServes .R1 1 := by
  refine ⟨_, rfl, ?_⟩
  apply (tShell_release_serves_iff
    (rfl : runAll step boot [.cr nameX 1, .req .R1 1] = some _) (by decide) ?_).mpr
  · constructor
    · intro id current
      cases current
      decide
    · intro rid n first same waits
      cases same
      cases waits
  · intro rid n id same current
    cases same
    cases current
    decide

end OsCompiler.TShell.Shell
