/-
Where the processes of tShell are: on ready lists or on waiting lists.

`Placed` says that no list repeats a process and that the status tells which kind of
list a process is on. Runs in which `Release` serves nobody keep it. That no process
is lost needs more: `Kill_Tree` must not unlink a namesake of what it destroys.
-/

import OsCompiler.TShell.Scheduling

namespace OsCompiler.TShell

open OsCompiler.Transition

namespace Shell

variable {shell after : Shell}

/-- Either nobody waits for the released resource, or the units free after the release do
not cover the demand of the first waiting process. -/
def ServesNobody (shell : Shell) (command : Command) : Prop :=
  ∀ rid n first, command = .rel rid n → (shell.rcb rid).waitList.head? = some first →
    (shell.rcb rid).status + n < (shell.pcb first).blockedNum

structure Placed (shell : Shell) : Prop where
  readyNodup : ∀ level, (shell.ready level).Nodup
  waitNodup : ∀ rid, (shell.rcb rid).waitList.Nodup
  readyStatus : ∀ level, ∀ id ∈ shell.ready level, (shell.pcb id).status = .READY
  waitStatus : ∀ rid, ∀ id ∈ (shell.rcb rid).waitList, (shell.pcb id).status = .BLOCKED
  waitApart : ∀ rid other id, id ∈ (shell.rcb rid).waitList → id ∈ (shell.rcb other).waitList →
    rid = other

theorem Placed.notWaiting (placed : shell.Placed) {id : Nat} {level : Level}
    (member : id ∈ shell.ready level) (rid : Rid) : id ∉ (shell.rcb rid).waitList := by
  intro waits
  have blocked := placed.waitStatus rid id waits
  rw [placed.readyStatus level id member] at blocked
  cases blocked

/-- The loop of `Release` does nothing when the first waiting process cannot be served. -/
theorem serveWaiting_refused {rid : Rid} {n : Int} (nobody : shell.ServesNobody (.rel rid n))
    (id : Nat) : serveWaiting rid id (shell.rcb rid).waitList
      ((shell.dropUnits rid id n).credit rid n) = .ok ((shell.dropUnits rid id n).credit rid n) := by
  cases list : (shell.rcb rid).waitList with
  | nil => rfl
  | cons first rest =>
      have short := nobody rid n first rfl (by rw [list]; rfl)
      have refused : ¬ ((((shell.dropUnits rid id n).credit rid n).rcb rid).status ≥
          (((shell.dropUnits rid id n).credit rid n).pcb first).blockedNum) := by
        change ¬ ((((shell.dropUnits rid id n).credit rid n).rcb rid).status ≥
          ((shell.dropUnits rid id n).pcb first).blockedNum)
        rw [credit_rcb, dropUnits_pcb]
        simp only [if_true]
        exact Int.not_le.mpr short
      rw [serveWaiting, if_neg refused]
      rfl

theorem serveWaiting_nobody {rid : Rid} {id : Nat} {n : Int}
    (nobody : shell.ServesNobody (.rel rid n))
    (served : serveWaiting rid id (shell.rcb rid).waitList
      ((shell.dropUnits rid id n).credit rid n) = .ok after) :
    after = (shell.dropUnits rid id n).credit rid n := by
  rw [serveWaiting_refused nobody id] at served
  cases served
  rfl

/-- A new process is on no list yet; of the others only child lists change. -/
theorem allocate_pcb_frame (name : Name) (pri : Int) {id : Nat} (below : id < shell.created) :
    ∃ child, (shell.allocate name pri).pcb id = { shell.pcb id with child := child } := by
  rw [allocate_pcb]
  simp only [Nat.ne_of_lt below, if_false]
  split
  · exact ⟨_, rfl⟩
  · exact ⟨_, rfl⟩

private theorem allocate_pcb_new (name : Name) (pri : Int) : ∃ child,
    (shell.allocate name pri).pcb shell.created = { shell.newPcb name pri with child := child } := by
  rw [allocate_pcb]
  simp only [if_true]
  split
  · exact ⟨_, rfl⟩
  · exact ⟨_, rfl⟩

/-- Places depend on these parts of the state only, and not on the order of ready lists. -/
theorem Placed.congr (placed : shell.Placed)
    (ready : ∀ level, (after.ready level).Perm (shell.ready level))
    (waitList : ∀ rid, (after.rcb rid).waitList = (shell.rcb rid).waitList)
    (status : ∀ id, (after.pcb id).status = (shell.pcb id).status) : after.Placed where
  readyNodup level := (ready level).nodup_iff.mpr (placed.readyNodup level)
  waitNodup rid := by
    rw [waitList]
    exact placed.waitNodup rid
  readyStatus level id member := by
    rw [status]
    exact placed.readyStatus level id ((ready level).mem_iff.mp member)
  waitStatus rid id member := by
    rw [waitList] at member
    rw [status]
    exact placed.waitStatus rid id member
  waitApart rid other id member elsewhere := by
    rw [waitList] at member elsewhere
    exact placed.waitApart rid other id member elsewhere

theorem Placed.created (consistent : shell.Consistent) (placed : shell.Placed) (name : Name)
    (pri : Int) : ((shell.allocate name pri).insertPriority shell.created).reschedule.Placed := by
  rcases shell.allocate_frame name pri with ⟨ready, rcb, _⟩
  have member {level : Level} {id : Nat}
      (inside : id ∈ ((shell.allocate name pri).insertPriority shell.created).ready level) :
      id ∈ shell.ready level ∨ id = shell.created := by
    rcases mem_insertPriority_ready.mp inside with old | ⟨fresh, _⟩
    · rw [ready] at old
      exact Or.inl old
    · exact Or.inr fresh
  have status {id : Nat} (below : id < shell.created) :
      ((shell.allocate name pri).pcb id).status = (shell.pcb id).status := by
    rcases shell.allocate_pcb_frame name pri below with ⟨child, frame⟩
    rw [frame]
  constructor
  · intro level
    rw [reschedule_ready, insertPriority_ready, ready]
    split
    · have fresh : shell.created ∉ shell.ready level :=
        fun old => Nat.lt_irrefl _ (consistent.listed level _ old)
      rw [← List.concat_eq_append]
      exact (placed.readyNodup level).concat fresh
    · exact placed.readyNodup level
  · intro rid
    rw [reschedule_rcb, insertPriority_rcb, rcb]
    exact placed.waitNodup rid
  · intro level id inside
    rw [reschedule_pcb, insertPriority_pcb]
    rcases member inside with old | rfl
    · rw [status (consistent.listed level id old)]
      exact placed.readyStatus level id old
    · rcases shell.allocate_pcb_new name pri with ⟨child, frame⟩
      rw [frame]
      rfl
  · intro rid id inside
    rw [reschedule_rcb, insertPriority_rcb, rcb] at inside
    rw [reschedule_pcb, insertPriority_pcb, status (consistent.waiting rid id inside)]
    exact placed.waitStatus rid id inside
  · intro rid other id inside elsewhere
    rw [reschedule_rcb, insertPriority_rcb, rcb] at inside elsewhere
    exact placed.waitApart rid other id inside elsewhere

theorem Placed.destroyed (placed : shell.Placed) (visits : List Nat) :
    (shell.killAll visits).reschedule.Placed := by
  have status (id : Nat) : ((shell.killAll visits).pcb id).status = (shell.pcb id).status := by
    rcases shell.killAll_pcb_frame visits id with ⟨resours, frame⟩
    rw [frame]
  constructor
  · intro level
    rw [reschedule_ready, killAll_ready]
    exact (placed.readyNodup level).sublist (eraseKeys_sublist _ _ _)
  · intro rid
    rw [reschedule_rcb, killAll_waitList]
    exact placed.waitNodup rid
  · intro level id inside
    rw [reschedule_ready, killAll_ready] at inside
    rw [reschedule_pcb, status]
    exact placed.readyStatus level id ((eraseKeys_sublist _ _ _).subset inside)
  · intro rid id inside
    rw [reschedule_rcb, killAll_waitList] at inside
    rw [reschedule_pcb, status]
    exact placed.waitStatus rid id inside
  · intro rid other id inside elsewhere
    rw [reschedule_rcb, killAll_waitList] at inside elsewhere
    exact placed.waitApart rid other id inside elsewhere

theorem Placed.blocked (consistent : shell.Consistent) (placed : shell.Placed) {rid : Rid}
    {id : Nat} {n : Int} {level : Level} {rest : List Nat}
    (list : shell.ready level = id :: rest) :
    (((shell.block rid id n).setReady level rest).enqueueWaiting rid id).reschedule.Placed := by
  have head : id ∈ shell.ready level := by simp [list]
  have split : id ∉ rest ∧ rest.Nodup := List.nodup_cons.mp (list ▸ placed.readyNodup level)
  have elsewhere := placed.notWaiting head
  -- The blocked process was on its own ready list only.
  have gone {own : Level} {other : Nat}
      (inside : other ∈ Function.update shell.ready level rest own) :
      other ≠ id ∧ other ∈ shell.ready own := by
    rw [Function.update_apply] at inside
    split at inside
    · rename_i same
      subst same
      refine ⟨fun here => split.1 (here ▸ inside), ?_⟩
      rw [list]
      exact List.mem_cons_of_mem id inside
    · rename_i different
      refine ⟨?_, inside⟩
      intro same
      subst same
      have levels := consistent.leveled own _ inside
      rw [consistent.leveled level _ head] at levels
      exact different (Option.some.inj levels).symm
  have waits {own : Rid} {other : Nat}
      (inside : other ∈ (if own = rid then (shell.rcb own).waitList ++ [id]
        else (shell.rcb own).waitList)) :
      (other ∈ (shell.rcb own).waitList ∧ other ≠ id) ∨ (other = id ∧ own = rid) := by
    have old (waiting : other ∈ (shell.rcb own).waitList) : other ≠ id :=
      fun same => elsewhere own (same ▸ waiting)
    split at inside
    · rename_i here
      rcases List.mem_append.mp inside with waiting | new
      · exact Or.inl ⟨waiting, old waiting⟩
      · exact Or.inr ⟨List.mem_singleton.mp new, here⟩
    · exact Or.inl ⟨inside, old inside⟩
  constructor
  · intro own
    change (Function.update shell.ready level rest own).Nodup
    rw [Function.update_apply]
    split
    · exact split.2
    · exact placed.readyNodup own
  · intro own
    rw [reschedule_rcb, enqueueWaiting_rcb]
    simp only [setReady_rcb, block_rcb]
    split
    · rw [← List.concat_eq_append]
      exact (placed.waitNodup own).concat (elsewhere own)
    · exact placed.waitNodup own
  · intro own other inside
    rcases gone inside with ⟨different, old⟩
    rw [reschedule_pcb, enqueueWaiting_pcb, setReady_pcb, block_pcb, if_neg different]
    exact placed.readyStatus own other old
  · intro own other inside
    rw [reschedule_rcb, enqueueWaiting_rcb] at inside
    rw [reschedule_pcb, enqueueWaiting_pcb, setReady_pcb, block_pcb]
    rcases waits inside with ⟨old, different⟩ | ⟨rfl, _⟩
    · rw [if_neg different]
      exact placed.waitStatus own other old
    · rw [if_pos rfl]
  · intro own another other inside elsewhereToo
    rw [reschedule_rcb, enqueueWaiting_rcb] at inside elsewhereToo
    rcases waits inside with ⟨old, different⟩ | ⟨same, here⟩
    · rcases waits elsewhereToo with ⟨oldToo, _⟩ | ⟨same, _⟩
      · exact placed.waitApart own another other old oldToo
      · exact absurd same different
    · rcases waits elsewhereToo with ⟨_, different⟩ | ⟨_, hereToo⟩
      · exact absurd same different
      · exact here.trans hereToo.symm

/-- `Time_Out` turns one ready list and changes nothing else. -/
theorem rotated_ready (consistent : shell.Consistent) {id : Nat} {level : Level} {rest : List Nat}
    (list : shell.ready level = id :: rest) (own : Level) :
    (((shell.setReady level rest).setStatus id .READY).insertPriority id).ready own =
      if own = level then rest ++ [id] else shell.ready own := by
  have inside := consistent.leveled level id (by simp [list])
  rw [insertPriority_ready, setStatus_pcb, setStatus_ready, setReady_ready, setReady_pcb,
    Function.update_apply, inside]
  by_cases same : own = level
  · subst same
    simp
  · simp [same, Ne.symm same]

theorem Placed.rotated (consistent : shell.Consistent) (placed : shell.Placed) {id : Nat}
    {level : Level} {rest : List Nat} (list : shell.ready level = id :: rest) :
    (((shell.setReady level rest).setStatus id .READY).insertPriority id).reschedule.Placed := by
  apply placed.congr
  · intro own
    rw [reschedule_ready, rotated_ready consistent list]
    split
    · rename_i same
      subst same
      rw [list]
      exact List.perm_append_singleton id rest
    · exact List.Perm.refl _
  · intro rid
    rw [reschedule_rcb, insertPriority_rcb, setStatus_rcb, setReady_rcb]
  · intro other
    rw [reschedule_pcb, insertPriority_pcb, setStatus_pcb, setReady_pcb]
    simp only
    split
    · rename_i same
      rw [same]
      exact (placed.readyStatus level id (by simp [list])).symm
    · rfl

/-- Every command keeps the places, a release where it serves nobody. -/
theorem Placed.effect (consistent : shell.Consistent) (placed : shell.Placed) {command : Command}
    (nobody : shell.ServesNobody command) (effect : shell.Effect command after) : after.Placed := by
  cases effect with
  | created name pri => exact placed.created consistent name pri
  | notFound absent => exact placed
  | destroyed found => exact placed.destroyed _
  | granted current enough =>
      apply placed.congr
      · intro level
        rw [grant, resourceAllocs_ready, setRcb_ready]
      · intro other
        rw [grant, resourceAllocs_rcb, setRcb_rcb, Function.update_apply]
        split
        · rename_i same
          rw [same]
        · rfl
      · intro other
        rw [grant, resourceAllocs_pcb, setRcb_pcb]
  | blocked current short capacity list => exact placed.blocked consistent list
  | released current holding served =>
      rw [serveWaiting_nobody nobody served]
      apply placed.congr
      · exact fun level => List.Perm.refl _
      · intro other
        rw [credit_rcb]
        rfl
      · intro other
        change ((shell.dropUnits _ _ _).pcb other).status = _
        rw [dropUnits_pcb]
  | rotated current list => exact placed.rotated consistent list

/-! ### What `Release` does when it serves somebody -/

theorem serveNode_ready (rid : Rid) (id node q : Nat) (level : Level) :
    (shell.serveNode rid id node q).ready level =
      if levelOf (shell.pcb id).priority = some level then shell.ready level ++ [id]
      else shell.ready level := by
  unfold serveNode
  rw [insertPriority_ready, resourceAllocs_pcb, resourceAllocs_ready, setStatus_pcb,
    setStatus_ready, setRcb_pcb, setRcb_ready]

/-- The loop of `Release` takes nothing off a ready list. -/
theorem serveWaiting_count_le (consistent : shell.Consistent) {rid : Rid} {id : Nat}
    {nodes : List Nat} (below : id < shell.created)
    (served : serveWaiting rid id nodes shell = .ok after) :
    after.created = shell.created ∧
      ∀ level, (shell.ready level).count id ≤ (after.ready level).count id := by
  refine (serveWaiting_induction (fun now : Shell => now.created = shell.created ∧
    ∀ level, (shell.ready level).count id ≤ (now.ready level).count id) ?_
    ⟨rfl, fun level => Nat.le_refl _⟩ consistent below served).1
  intro now node q both _ _ _ _
  rcases both with ⟨created, more⟩
  refine ⟨serveNode_created.trans created, ?_⟩
  intro level
  refine Nat.le_trans (more level) ?_
  rw [reschedule_ready, serveNode_ready]
  split
  · exact List.Sublist.count_le _ (List.sublist_append_left _ _)
  · exact Nat.le_refl _

/-- The releaser is put on its ready list once more for a process served. -/
theorem serveWaiting_inserts (consistent : shell.Consistent) {rid : Rid} {id node : Nat}
    {nodes : List Nat} (below : id < shell.created)
    (enough : (shell.pcb node).blockedNum ≤ (shell.rcb rid).status)
    (served : serveWaiting rid id (node :: nodes) shell = .ok after) :
    after.created = shell.created ∧ ∀ level, levelOf (shell.pcb id).priority = some level →
      (shell.ready level).count id + 1 ≤ (after.ready level).count id := by
  rw [serveWaiting, if_pos enough] at served
  cases waiting : removeWaiting (shell.rcb rid).waitList with
  | none =>
      rw [waiting] at served
      cases served
  | some q =>
      rw [waiting] at served
      rcases bind_eq_ok.mp served with ⟨next, scheduled, rest⟩
      rcases (consistent.serveNode below).scheduler scheduled with ⟨rfl, rescheduled⟩
      rcases serveWaiting_count_le rescheduled (by simpa using below) rest with ⟨created, more⟩
      refine ⟨created.trans serveNode_created, ?_⟩
      intro level own
      refine Nat.le_trans ?_ (more level)
      rw [reschedule_ready, serveNode_ready, if_pos own, List.count_append]
      simp

end Shell

/-! ### Runs with the processes destroyed so far -/

def Command.HasLevel : Command → Prop
  | .cr _ pri => pri = 0 ∨ pri = 1 ∨ pri = 2
  | _ => True

namespace Shell

variable {shell after : Shell}

def killed (shell : Shell) : Command → List Nat
  | .de name =>
      match shell.findNamePcb name with
      | some id => shell.killOrder shell.created id
      | none => []
  | _ => []

/-- On each ready list and for each name, the nodes that `Kill_Tree` unlinks, the first of that
name, are processes it destroys. -/
def KillsOwn (shell : Shell) (command : Command) : Prop :=
  ∀ level, ErasesOwn shell.nameOf (shell.ready level) (shell.atLevel level (shell.killed command))

structure ReadyOnce (shell : Shell) (id : Nat) : Prop where
  status : (shell.pcb id).status = .READY
  own : ∃ level, levelOf (shell.pcb id).priority = some level ∧
    (shell.ready level).count id = 1 ∧ ∀ other, other ≠ level → id ∉ shell.ready other
  notWaiting : ∀ rid, id ∉ (shell.rcb rid).waitList

structure WaitingOnce (shell : Shell) (id : Nat) : Prop where
  status : (shell.pcb id).status = .BLOCKED
  own : ∃ rid, (shell.rcb rid).waitList.count id = 1 ∧
    ∀ other, other ≠ rid → id ∉ (shell.rcb other).waitList
  notReady : ∀ level, id ∉ shell.ready level

def Listed (shell : Shell) (id : Nat) : Prop :=
  (∃ level, id ∈ shell.ready level) ∨ ∃ rid, id ∈ (shell.rcb rid).waitList

theorem Placed.once (consistent : shell.Consistent) (placed : shell.Placed) {id : Nat}
    (listed : shell.Listed id) : shell.ReadyOnce id ∨ shell.WaitingOnce id := by
  rcases listed with ⟨level, member⟩ | ⟨rid, member⟩
  · left
    have inside := consistent.leveled level id member
    refine ⟨placed.readyStatus level id member, ⟨level, inside, ?_, ?_⟩, placed.notWaiting member⟩
    · exact List.count_eq_one_of_mem (placed.readyNodup level) member
    · intro other different elsewhere
      have insideToo := consistent.leveled other id elsewhere
      rw [inside] at insideToo
      exact different (Option.some.inj insideToo).symm
  · right
    refine ⟨placed.waitStatus rid id member, ⟨rid, ?_, ?_⟩, ?_⟩
    · exact List.count_eq_one_of_mem (placed.waitNodup rid) member
    · intro other different elsewhere
      exact different (placed.waitApart other rid id elsewhere member)
    · intro level ready
      exact placed.notWaiting ready rid member

private theorem killed_lt (consistent : shell.Consistent) (command : Command) :
    ∀ id ∈ shell.killed command, id < shell.created := by
  cases command with
  | de name =>
      cases found : shell.findNamePcb name with
      | none => simp [killed, found]
      | some id =>
          rcases findNamePcb_eq_some found with ⟨_, level, member⟩
          simp only [killed, found]
          exact killOrder_lt shell.created consistent.younger (consistent.listed level id member)
  | _ => simp [killed]

theorem boot_placed : boot.Placed where
  readyNodup level := by cases level <;> decide
  waitNodup rid := List.nodup_nil
  readyStatus level id member := by
    cases level <;> simp [boot, initResource, Function.update] at member
    subst member
    rfl
  waitStatus rid id member := by cases member
  waitApart rid other id member := by cases member

/-- No command takes a process off a waiting list. -/
theorem Effect.waitList_subset {command : Command} (nobody : shell.ServesNobody command)
    (effect : shell.Effect command after) (rid : Rid) :
    (shell.rcb rid).waitList ⊆ (after.rcb rid).waitList := by
  intro id member
  cases effect with
  | created name pri =>
      rcases shell.allocate_frame name pri with ⟨_, rcb, _⟩
      rw [reschedule_rcb, insertPriority_rcb, rcb]
      exact member
  | notFound absent => exact member
  | destroyed found =>
      rw [reschedule_rcb, killAll_waitList]
      exact member
  | granted current enough =>
      rw [grant, resourceAllocs_rcb, setRcb_rcb, Function.update_apply]
      split
      · rename_i same
        exact same ▸ member
      · exact member
  | blocked current short capacity list =>
      rw [reschedule_rcb, enqueueWaiting_rcb]
      simp only [setReady_rcb, block_rcb]
      split
      · exact List.mem_append_left _ member
      · exact member
  | released current holding served =>
      rw [serveWaiting_nobody nobody served, credit_rcb]
      exact member
  | rotated current list =>
      rw [reschedule_rcb, insertPriority_rcb, setStatus_rcb, setReady_rcb]
      exact member

/-- A ready process that the command does not destroy stays on a list. -/
theorem Effect.listed_of_ready (consistent : shell.Consistent) (placed : shell.Placed)
    {command : Command} (nobody : shell.ServesNobody command) (own : shell.KillsOwn command)
    (effect : shell.Effect command after) {id : Nat} {level : Level}
    (member : id ∈ shell.ready level) (spared : id ∉ shell.killed command) : after.Listed id := by
  cases effect with
  | created name pri =>
      rcases shell.allocate_frame name pri with ⟨ready, _⟩
      refine Or.inl ⟨level, ?_⟩
      rw [reschedule_ready, mem_insertPriority_ready, ready]
      exact Or.inl member
  | notFound absent => exact Or.inl ⟨level, member⟩
  | @destroyed name root found =>
      refine Or.inl ⟨level, ?_⟩
      rw [reschedule_ready, killAll_ready]
      have visits : shell.killed (.de name) = shell.killOrder shell.created root := by
        simp only [killed, found]
      rw [← visits]
      refine (erasesOwn_iff (placed.readyNodup level)).mp (own level) id member ?_
      exact fun target => spared (List.mem_of_mem_filter target)
  | granted current enough =>
      refine Or.inl ⟨level, ?_⟩
      rw [grant, resourceAllocs_ready]
      exact member
  | @blocked rid current n ownLevel rest isCurrent short capacity list =>
      by_cases blocks : id = current
      · -- The blocked process goes to the end of the waiting list.
        refine Or.inr ⟨rid, ?_⟩
        rw [reschedule_rcb, enqueueWaiting_rcb, if_pos rfl, blocks]
        exact List.mem_append_right _ List.mem_cons_self
      · refine Or.inl ⟨level, ?_⟩
        change id ∈ Function.update shell.ready ownLevel rest level
        rw [Function.update_apply]
        split
        · rename_i same
          rw [same, list] at member
          exact (List.mem_cons.mp member).resolve_left blocks
        · exact member
  | released current holding served =>
      rw [serveWaiting_nobody nobody served]
      exact Or.inl ⟨level, member⟩
  | @rotated current ownLevel rest isCurrent list =>
      refine Or.inl ⟨level, ?_⟩
      rw [reschedule_ready, rotated_ready consistent list]
      split
      · rename_i same
        rw [same, list] at member
        exact (List.perm_append_singleton current rest).mem_iff.mpr member
      · exact member

/-- A listed process that the command does not destroy stays listed. -/
theorem Listed.effect (consistent : shell.Consistent) (placed : shell.Placed) {command : Command}
    (nobody : shell.ServesNobody command) (own : shell.KillsOwn command)
    (effect : shell.Effect command after) {id : Nat} (listed : shell.Listed id)
    (spared : id ∉ shell.killed command) : after.Listed id := by
  rcases listed with ⟨level, member⟩ | ⟨rid, member⟩
  · exact effect.listed_of_ready consistent placed nobody own member spared
  · exact Or.inr ⟨rid, effect.waitList_subset nobody rid member⟩

/-- What is on a ready list after a command was on one before or is new, and the command
has not destroyed it. -/
theorem Effect.ready_of_ready (consistent : shell.Consistent) (placed : shell.Placed)
    {command : Command} (nobody : shell.ServesNobody command) (own : shell.KillsOwn command)
    (effect : shell.Effect command after) {id : Nat} {level : Level}
    (member : id ∈ after.ready level) :
    id ∉ shell.killed command ∧ (id ∈ shell.ready level ∨ id = shell.created) := by
  cases effect with
  | created name pri =>
      refine ⟨List.not_mem_nil, ?_⟩
      rw [reschedule_ready, mem_insertPriority_ready, (shell.allocate_frame name pri).1] at member
      rcases member with old | ⟨fresh, _⟩
      · exact Or.inl old
      · exact Or.inr fresh
  | @notFound name absent =>
      have nothing : shell.killed (.de name) = [] := by simp only [killed, absent]
      rw [nothing]
      exact ⟨List.not_mem_nil, Or.inl member⟩
  | @destroyed name root found =>
      have visits : shell.killed (.de name) = shell.killOrder shell.created root := by
        simp only [killed, found]
      rw [reschedule_ready, killAll_ready, ← visits] at member
      have old := (eraseKeys_sublist _ _ _).subset member
      refine ⟨?_, Or.inl old⟩
      intro target
      refine (own level).notMem (placed.readyNodup level) ?_ member
      exact List.mem_filter.mpr ⟨target, by simpa using consistent.leveled level id old⟩
  | granted current enough =>
      rw [grant, resourceAllocs_ready] at member
      exact ⟨List.not_mem_nil, Or.inl member⟩
  | @blocked rid current n head rest isCurrent short capacity list =>
      refine ⟨List.not_mem_nil, Or.inl ?_⟩
      change id ∈ Function.update shell.ready head rest level at member
      rw [Function.update_apply] at member
      split at member
      · rename_i same
        rw [same, list]
        exact List.mem_cons_of_mem current member
      · exact member
  | released current holding served =>
      rw [serveWaiting_nobody nobody served] at member
      exact ⟨List.not_mem_nil, Or.inl member⟩
  | @rotated current head rest isCurrent list =>
      refine ⟨List.not_mem_nil, Or.inl ?_⟩
      rw [reschedule_ready, rotated_ready consistent list] at member
      split at member
      · rename_i same
        rw [same, list]
        exact (List.perm_append_singleton current rest).mem_iff.mp member
      · exact member

/-- A process is created on a ready list. -/
theorem Effect.created_cases {command : Command} (hasLevel : command.HasLevel)
    (nobody : shell.ServesNobody command) (effect : shell.Effect command after) :
    after.created = shell.created ∨
      (after.created = shell.created + 1 ∧ after.Listed shell.created) := by
  cases effect with
  | created name pri =>
      rcases shell.allocate_frame name pri with ⟨_, _, created⟩
      refine Or.inr ⟨by rw [reschedule_created, insertPriority_created, created], Or.inl ?_⟩
      have priority : ((shell.allocate name pri).pcb shell.created).priority = pri := by
        rcases shell.allocate_pcb_new name pri with ⟨child, frame⟩
        rw [frame]
        rfl
      have level : ∃ level, levelOf pri = some level := by
        rcases hasLevel with rfl | rfl | rfl
        · exact ⟨.Init, rfl⟩
        · exact ⟨.User, rfl⟩
        · exact ⟨.System, rfl⟩
      rcases level with ⟨level, inside⟩
      refine ⟨level, ?_⟩
      rw [reschedule_ready, mem_insertPriority_ready, priority]
      exact Or.inr ⟨rfl, inside⟩
  | notFound absent => exact Or.inl rfl
  | destroyed found => exact Or.inl (by rw [reschedule_created, killAll_created])
  | granted current enough => exact Or.inl (by rw [grant, resourceAllocs_eq]; rfl)
  | blocked current short capacity list => exact Or.inl rfl
  | released current holding served =>
      rw [serveWaiting_nobody nobody served]
      exact Or.inl rfl
  | rotated current list => exact Or.inl (by simp)

end Shell

structure Tracked where
  shell : Shell
  destroyed : List Nat

namespace Tracked

variable {tracked after : Tracked}

def step (tracked : Tracked) (command : Command) : Option Tracked := do
  let shell ← tracked.shell.step command
  pure ⟨shell, tracked.destroyed ++ tracked.shell.killed command⟩

/-- Every process created and not destroyed is in one place. -/
def Located (tracked : Tracked) : Prop :=
  ∀ id < tracked.shell.created, id ∉ tracked.destroyed →
    tracked.shell.ReadyOnce id ∨ tracked.shell.WaitingOnce id

/-- A release serves nobody, a kill unlinks its own processes. -/
def KeepsPlaces (tracked : Tracked) (command : Command) : Prop :=
  tracked.shell.ServesNobody command ∧ tracked.shell.KillsOwn command

structure Settled (tracked : Tracked) : Prop where
  consistent : tracked.shell.Consistent
  placed : tracked.shell.Placed
  destroyedOld : ∀ id ∈ tracked.destroyed, id < tracked.shell.created
  readyLive : ∀ level, ∀ id ∈ tracked.shell.ready level, id ∉ tracked.destroyed
  liveListed : ∀ id < tracked.shell.created, id ∉ tracked.destroyed → tracked.shell.Listed id

theorem Settled.located (settled : tracked.Settled) : tracked.Located := by
  intro id below live
  exact settled.placed.once settled.consistent (settled.liveListed id below live)

theorem step_eq_some {command : Command} : tracked.step command = some after ↔
    ∃ shell, tracked.shell.exec command = .ok shell ∧
      after = ⟨shell, tracked.destroyed ++ tracked.shell.killed command⟩ := by
  unfold step
  simp only [Option.bind_eq_bind, Option.bind_eq_some_iff, Shell.step, toOption_eq_some]
  constructor
  · intro both
    rcases both with ⟨shell, executed, same⟩
    cases same
    exact ⟨shell, executed, rfl⟩
  · intro both
    rcases both with ⟨shell, executed, rfl⟩
    exact ⟨shell, executed, rfl⟩

/-- A step under the condition keeps every process that is not destroyed in its place. -/
theorem Settled.step (settled : tracked.Settled) {command : Command} (hasLevel : command.HasLevel)
    (keeps : tracked.KeepsPlaces command) (stepped : tracked.step command = some after) :
    after.Settled := by
  rcases step_eq_some.mp stepped with ⟨shell, executed, rfl⟩
  rcases keeps with ⟨nobody, own⟩
  rcases Shell.exec_effect settled.consistent executed with ⟨effect, consistent⟩
  have older := Shell.killed_lt settled.consistent command
  have created := effect.created_cases hasLevel nobody
  constructor
  · exact consistent
  · exact settled.placed.effect settled.consistent nobody effect
  · intro id member
    have old : id < tracked.shell.created := by
      rcases List.mem_append.mp member with before | now
      · exact settled.destroyedOld id before
      · exact older id now
    rcases created with same | ⟨more, _⟩
    · exact same ▸ old
    · exact more ▸ Nat.lt_succ_of_lt old
  · intro level id member destroyed
    rcases effect.ready_of_ready settled.consistent settled.placed nobody own member with
      ⟨spared, before⟩
    rcases List.mem_append.mp destroyed with earlier | now
    · rcases before with ready | fresh
      · exact settled.readyLive level id ready earlier
      · exact Nat.lt_irrefl _ (fresh ▸ settled.destroyedOld id earlier)
    · exact spared now
  · intro id below live
    rw [List.mem_append, not_or] at live
    have kept (old : id < tracked.shell.created) : shell.Listed id :=
      (settled.liveListed id old live.1).effect settled.consistent settled.placed nobody own effect
        live.2
    rcases created with same | ⟨more, listed⟩
    · exact kept (same ▸ below)
    · rcases Nat.lt_or_ge id tracked.shell.created with old | new
      · exact kept old
      · have fresh : id = tracked.shell.created := by
          simp only [more] at below
          omega
        exact fresh ▸ listed

/-- A release that serves somebody puts the releaser on its ready list twice. -/
theorem Settled.servesNobody (settled : tracked.Settled) {command : Command} {shell : Shell}
    (effect : tracked.shell.Effect command shell)
    (located : Located ⟨shell, tracked.destroyed ++ tracked.shell.killed command⟩) :
    tracked.shell.ServesNobody command := by
  intro rid n first same waits
  subst same
  by_contra enough
  cases effect with
  | @released _ id _ _ current holding served =>
      have below := settled.consistent.current_lt current
      rcases settled.consistent.head current with ⟨level, rest, list, inside, _⟩
      have member : id ∈ tracked.shell.ready level := by simp [list]
      rcases List.head?_eq_some_iff.mp waits with ⟨others, waitList⟩
      rw [waitList] at served
      have affordable : (((tracked.shell.dropUnits rid id n).credit rid n).pcb first).blockedNum ≤
          (((tracked.shell.dropUnits rid id n).credit rid n).rcb rid).status := by
        rw [Shell.credit_rcb]
        change ((tracked.shell.dropUnits rid id n).pcb first).blockedNum ≤ _
        rw [Shell.dropUnits_pcb]
        simp only [if_true]
        exact Int.not_lt.mp enough
      have ownLevel : levelOf (((tracked.shell.dropUnits rid id n).credit rid n).pcb id).priority =
          some level := by
        change levelOf ((tracked.shell.dropUnits rid id n).pcb id).priority = some level
        rw [Shell.dropUnits_pcb]
        exact inside
      rcases Shell.serveWaiting_inserts (settled.consistent.credited rid id n) below affordable
        served with ⟨created, inserts⟩
      have twice : 2 ≤ (shell.ready level).count id := by
        have once : 1 ≤ (tracked.shell.ready level).count id := List.one_le_count_iff.mpr member
        exact Nat.le_trans (Nat.succ_le_succ once) (inserts level ownLevel)
      have live : id ∉ tracked.destroyed ++ tracked.shell.killed (.rel rid n) := by
        have nothing : tracked.shell.killed (.rel rid n) = [] := rfl
        rw [nothing, List.append_nil]
        exact settled.readyLive level id member
      have listed : id ∈ shell.ready level := List.count_pos_iff.mp (by omega)
      rcases located id (created ▸ below) live with ready | waiting
      · rcases ready.own with ⟨own, _, once, elsewhere⟩
        by_cases same : own = level
        · have onceHere : (shell.ready level).count id = 1 := same ▸ once
          omega
        · exact elsewhere level (Ne.symm same) listed
      · exact waiting.notReady level listed

/-- A process not destroyed has to be on its ready list after the kill. -/
theorem Settled.killsOwn (settled : tracked.Settled) {command : Command} {shell : Shell}
    (effect : tracked.shell.Effect command shell) (consistent : shell.Consistent)
    (located : Located ⟨shell, tracked.destroyed ++ tracked.shell.killed command⟩) :
    tracked.shell.KillsOwn command := by
  intro level
  cases effect with
  | @destroyed name root found =>
      have visits : tracked.shell.killed (.de name) =
          tracked.shell.killOrder tracked.shell.created root := by
        simp only [Shell.killed, found]
      rw [visits] at located ⊢
      refine (erasesOwn_iff (settled.placed.readyNodup level)).mpr ?_
      intro id member other
      have inside := settled.consistent.leveled level id member
      have spared : id ∉ tracked.shell.killOrder tracked.shell.created root :=
        fun target => other (List.mem_filter.mpr ⟨target, by simpa using inside⟩)
      have live : id ∉ tracked.destroyed ++ tracked.shell.killOrder tracked.shell.created root := by
        rw [List.mem_append, not_or]
        exact ⟨settled.readyLive level id member, spared⟩
      have below : id < (tracked.shell.killAll
          (tracked.shell.killOrder tracked.shell.created root)).reschedule.created := by
        rw [Shell.reschedule_created, Shell.killAll_created]
        exact settled.consistent.listed level id member
      rcases located id below live with ready | waiting
      · rcases ready.own with ⟨own, _, once, _⟩
        have stays := List.count_pos_iff.mp (Nat.lt_of_lt_of_eq Nat.zero_lt_one once.symm)
        rw [Shell.reschedule_ready, Shell.killAll_ready] at stays
        have before := (eraseKeys_sublist _ _ _).subset stays
        have same := settled.consistent.leveled own id before
        rw [inside, Option.some.injEq] at same
        exact same ▸ stays
      · have blocked := waiting.status
        rw [Shell.reschedule_pcb, Shell.killAll_pcb, if_neg spared,
          settled.placed.readyStatus level id member] at blocked
        cases blocked
  | @notFound name absent =>
      have nothing : tracked.shell.killed (.de name) = [] := by simp only [Shell.killed, absent]
      rw [nothing]
      exact erasesOwn_nil _
  | _ => exact erasesOwn_nil _

/-- A step that serves somebody, or unlinks a namesake, misplaces a process. -/
theorem Settled.keepsPlaces (settled : tracked.Settled) {command : Command}
    (stepped : tracked.step command = some after) (located : after.Located) :
    tracked.KeepsPlaces command := by
  rcases step_eq_some.mp stepped with ⟨shell, executed, rfl⟩
  rcases Shell.exec_effect settled.consistent executed with ⟨effect, consistent⟩
  exact ⟨settled.servesNobody effect located, settled.killsOwn effect consistent located⟩

def boot : Tracked := ⟨Shell.boot, []⟩

private theorem boot_settled : boot.Settled where
  consistent := Shell.boot_consistent
  placed := Shell.boot_placed
  destroyedOld id member := by cases member
  readyLive level id _ := List.not_mem_nil
  liveListed id below _ := by
    have first : id = 0 := Nat.lt_one_iff.mp below
    exact Or.inl ⟨.Init, by rw [first]; exact List.mem_cons_self⟩

end Tracked

/-- In a run every process that has been created with a priority of 0, 1 or 2 and not been
destroyed is in exactly one place, in every state, exactly when no release ever serves a
waiting process and no kill unlinks a namesake of what it destroys. -/
theorem tShell_places_iff {commands : List Command} {final : Tracked}
    (run : runAll Tracked.step Tracked.boot commands = some final)
    (priorities : ∀ command ∈ commands, command.HasLevel) :
    Throughout Tracked.step Tracked.boot commands Tracked.Located ↔
      EachStep Tracked.step Tracked.boot commands Tracked.KeepsPlaces :=
  throughout_iff_eachStep_of_strong run Command.HasLevel priorities Tracked.boot_settled
    (fun _ settled => settled.located)
    (fun _ _ _ settled hasLevel keeps stepped => settled.step hasLevel keeps stepped)
    (fun _ _ _ settled _ stepped located => settled.keepsPlaces stepped located)

def serveWaiter : List Command :=
  [.cr Shell.nameX 1, .req .R1 1, .cr Shell.nameY 2, .req .R1 1, .rel .R1 1]

private theorem serveWaiter_hasLevel : ∀ command ∈ serveWaiter, command.HasLevel := by
  simp [serveWaiter, Command.HasLevel]

/-- `x` is on the `User` list twice, `y` is `READY` and still waits. -/
theorem serveWaiter_run : ∃ final,
    runAll Tracked.step Tracked.boot serveWaiter = some final ∧ ¬ final.Located := by
  refine ⟨_, rfl, ?_⟩
  intro located
  rcases located 1 (by decide) (by decide) with ready | waiting
  · rcases ready.own with ⟨level, _, once, _⟩
    cases level <;> exact absurd once (by decide)
  · exact absurd waiting.status (by decide)

theorem release_misplaces : ¬ ∀ (commands : List Command) (final : Tracked),
    (∀ command ∈ commands, command.HasLevel) →
    runAll Tracked.step Tracked.boot commands = some final → final.Located := by
  intro always
  rcases serveWaiter_run with ⟨final, run, misplaced⟩
  exact misplaced (always serveWaiter final serveWaiter_hasLevel run)

theorem serveWaiter_not_keepsPlaces :
    ¬ EachStep Tracked.step Tracked.boot serveWaiter Tracked.KeepsPlaces := by
  rcases serveWaiter_run with ⟨final, run, misplaced⟩
  intro each
  have located := (tShell_places_iff run serveWaiter_hasLevel).mpr each
  exact misplaced (located serveWaiter [] final (by simp) run)

end OsCompiler.TShell
