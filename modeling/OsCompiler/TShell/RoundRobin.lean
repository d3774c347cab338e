/-
`Time_Out` as a round robin over the ready list of the current process.

A time-out turns that list by one node and schedules its new head; the lists above it
stay empty. A process may be on the list more than once, so what goes round are nodes.
-/

import OsCompiler.TShell.Runnable
import Mathlib.Data.List.Rotate

namespace OsCompiler.TShell.Shell

open OsCompiler.Transition

variable {shell after : Shell}

/-- The list has been turned so many times since the shell given, and its head runs. -/
structure Turned (shell : Shell) (level : Level) (turns : Nat) (after : Shell) : Prop where
  consistent : after.Consistent
  turned : after.ready level = (shell.ready level).rotate turns
  others : ∀ other, other ≠ level → after.ready other = shell.ready other
  current : after.current = ((shell.ready level).rotate turns).head?

theorem Turned.start (consistent : shell.Consistent) {id : Nat} {level : Level} {rest : List Nat}
    (current : shell.current = some id) (list : shell.ready level = id :: rest) :
    shell.Turned level 0 shell where
  consistent := consistent
  turned := (List.rotate_zero _).symm
  others _ _ := rfl
  current := by
    rw [List.rotate_zero, list]
    exact current

/-- One time-out turns the list once more. -/
theorem Turned.next {level : Level} {turns : Nat} (nonempty : shell.ready level ≠ [])
    (above : ∀ higher ∈ level.above, shell.ready higher = [])
    (turned : shell.Turned level turns after) :
    ∃ later, after.step .to = some later ∧ shell.Turned level (turns + 1) later := by
  have some : (shell.ready level).rotate turns ≠ [] := by
    rw [ne_eq, List.rotate_eq_nil_iff]
    exact nonempty
  rcases List.exists_cons_of_ne_nil some with ⟨id, rest, list⟩
  have current : after.current = .some id := by
    rw [turned.current, list]
    rfl
  have here : after.ready level = id :: rest := turned.turned.trans list
  have executed := exec_to_ok turned.consistent current here
  have ready (own : Level) : (((after.setReady level rest).setStatus id .READY).insertPriority
      id).reschedule.ready own = if own = level then rest ++ [id] else after.ready own :=
    rotated_ready turned.consistent here own
  have oneMore : (shell.ready level).rotate (turns + 1) = rest ++ [id] := by
    rw [← List.rotate_rotate, list, List.rotate_cons_succ, List.rotate_zero]
  refine ⟨_, toOption_eq_some.mpr executed, (exec_effect turned.consistent executed).2, ?_, ?_, ?_⟩
  · rw [ready, if_pos rfl, oneMore]
  · intro other different
    rw [ready, if_neg different]
    exact turned.others other different
  · rw [oneMore]
    have notAbove : ∀ higher ∈ level.above, higher ≠ level := by
      cases level <;> simp [Level.above]
    rcases List.exists_cons_of_ne_nil (List.append_ne_nil_of_right_ne_nil rest
      (List.cons_ne_nil id [])) with ⟨head, tail, order⟩
    rw [order, List.head?_cons]
    refine findPcb_eq_some.mpr ⟨level, tail, ?_, ?_⟩
    · rw [← order]
      exact (ready level).trans (if_pos rfl)
    · intro higher isAbove
      have different := notAbove higher isAbove
      exact (ready higher).trans ((if_neg different).trans
        ((turned.others higher different).trans (above higher isAbove)))

private theorem turned_run (consistent : shell.Consistent) {id : Nat} {level : Level}
    {rest : List Nat}
    (current : shell.current = some id) (list : shell.ready level = id :: rest)
    (above : ∀ higher ∈ level.above, shell.ready higher = []) (turns : Nat) :
    ∃ after, runAll step shell (List.replicate turns .to) = some after ∧
      shell.Turned level turns after := by
  have nonempty : shell.ready level ≠ [] := by simp [list]
  induction turns with
  | zero => exact ⟨shell, rfl, Turned.start consistent current list⟩
  | succ turns ih =>
      rcases ih with ⟨before, reached, turned⟩
      rcases turned.next nonempty above with ⟨later, stepped, turnedOnce⟩
      refine ⟨later, ?_, turnedOnce⟩
      rw [List.replicate_succ']
      exact runAll_snoc_eq_some.mpr ⟨before, reached, stepped⟩

/-- The ready list of the current process goes round: as many time-outs as it has nodes
schedule its nodes in order, from the second to the first, and leave all ready lists as
they were. -/
theorem tShell_time_out_round_robin {commands : List Command}
    (run : runAll step boot commands = some shell) :
    ∃ id level, shell.current = some id ∧ id ∈ shell.ready level ∧
      (∀ other, id ∈ shell.ready other → other = level) ∧
      (∀ turn < (shell.ready level).length, ∃ after,
        runAll step shell (List.replicate (turn + 1) .to) = some after ∧
        after.current = ((shell.ready level).rotate 1)[turn]?) ∧
      ∃ final, runAll step shell (List.replicate (shell.ready level).length .to) = some final ∧
        final.ready = shell.ready := by
  have consistent := run_consistent run
  rcases consistent.running with ⟨id, current⟩
  rcases consistent.head current with ⟨level, rest, list, inside, above⟩
  have turns := turned_run consistent current list above
  refine ⟨id, level, current, by simp [list], ?_, ?_, ?_⟩
  · intro other member
    exact (Option.some.inj (inside.symm.trans (consistent.leveled other id member))).symm
  · intro turn below
    rcases turns (turn + 1) with ⟨after, reached, turned⟩
    refine ⟨after, reached, ?_⟩
    rw [turned.current, List.head?_eq_getElem?,
      List.getElem?_rotate (Nat.lt_of_le_of_lt (Nat.zero_le turn) below),
      List.getElem?_rotate below, Nat.zero_add]
  · rcases turns (shell.ready level).length with ⟨final, reached, turned⟩
    refine ⟨final, reached, ?_⟩
    funext own
    by_cases same : own = level
    · rw [same, turned.turned, List.rotate_length]
    · exact turned.others own same

/-- Two processes take turns: the second runs after one time-out, the first again after two,
and the lists are as they were. -/
theorem two_processes_round_robin : ∃ shell,
    runAll step boot [.cr nameX 1, .cr nameY 1] = some shell ∧ shell.current = some 1 ∧
      shell.ready .User = [1, 2] ∧
      (∃ after, runAll step shell [.to] = some after ∧ after.current = some 2) ∧
      (∃ after, runAll step shell [.to, .to] = some after ∧ after.current = some 1) ∧
      ∃ final, runAll step shell [.to, .to] = some final ∧ final.ready = shell.ready := by
  refine ⟨_, rfl, rfl, rfl, ?_⟩
  rcases tShell_time_out_round_robin
    (rfl : runAll step boot [.cr nameX 1, .cr nameY 1] = some _)
    with ⟨id, level, current, member, only, turns, restored⟩
  obtain rfl : 1 = id := Option.some.inj current
  obtain rfl : Level.User = level := only .User (by decide)
  exact ⟨turns 0 (by decide), turns 1 (by decide), restored⟩

end OsCompiler.TShell.Shell
