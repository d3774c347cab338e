/-
Whole runs of the threads that share one `sbuf_t`.

How many items a run that cannot go on has moved does not depend on the schedule: all
that were to be inserted, unless the buffer is full and nobody is left to remove.
-/

import Mathlib.Data.Fintype.Sum
import OsCompiler.Csapp.Sbuf

namespace OsCompiler.Sbuf

open OsCompiler.Semaphore OsCompiler.Transition OsCompiler.Countdown

variable {n : Nat} {Inserting Removing : Type} [DecidableEq Inserting] [DecidableEq Removing]
  {positive : 0 < n} {before after : System n Inserting Removing}

/-! ### How many steps are left -/

def InsertPlace.left : InsertPlace → Nat
  | .idle => 0
  | .waitingSlots _ => 5
  | .waitingMutex _ => 4
  | .storing _ => 3
  | .postingMutex => 2
  | .postingItems => 1

def RemovePlace.left : RemovePlace → Nat
  | .idle => 0
  | .waitingItems => 5
  | .waitingMutex => 4
  | .taking => 3
  | .postingMutex _ => 2
  | .postingSlots _ => 1

def Inserter.left (inserter : Inserter) : Nat := 6 * inserter.calls.length + inserter.place.left

def Remover.left (remover : Remover) : Nat := 6 * remover.calls + remover.place.left

def System.left (system : System n Inserting Removing) : Inserting ⊕ Removing → Nat
  | .inl thread => (system.inserter thread).left
  | .inr thread => (system.remover thread).left

omit [DecidableEq Removing] in
private theorem sbufInsert_left {thread : Inserting}
    (moved : sbufInsert positive before thread = some after) :
    (∃ next, after.inserter = Function.update before.inserter thread next ∧
      next.left + 1 = (before.inserter thread).left) ∧ after.remover = before.remover := by
  unfold Inserter.left
  unfold sbufInsert at moved
  dsimp only at moved
  split at moved
  case h_1 atPlace =>
      split at moved
      · cases moved
      case h_2 item later calls =>
          cases moved
          refine ⟨⟨_, rfl, ?_⟩, rfl⟩
          rw [atPlace, calls, List.length_cons]
          simp only [InsertPlace.left]
          omega
  case h_2 item atPlace =>
      rcases Option.bind_eq_some_iff.mp moved with ⟨slots, _, finished⟩
      cases finished
      exact ⟨⟨_, rfl, by rw [atPlace]; rfl⟩, rfl⟩
  case h_3 item atPlace =>
      rcases Option.bind_eq_some_iff.mp moved with ⟨mutex, _, finished⟩
      cases finished
      exact ⟨⟨_, rfl, by rw [atPlace]; rfl⟩, rfl⟩
  case h_4 item atPlace =>
      split at moved
      · cases moved
        exact ⟨⟨_, rfl, by rw [atPlace]; rfl⟩, rfl⟩
      · cases moved
        exact ⟨⟨_, rfl, by rw [atPlace]; rfl⟩, rfl⟩
  case h_5 atPlace =>
      cases moved
      exact ⟨⟨_, rfl, by rw [atPlace]; rfl⟩, rfl⟩
  case h_6 atPlace =>
      cases moved
      exact ⟨⟨_, rfl, by rw [atPlace]; rfl⟩, rfl⟩

omit [DecidableEq Inserting] in
private theorem sbufRemove_left {thread : Removing}
    (moved : sbufRemove positive before thread = some after) :
    (∃ next, after.remover = Function.update before.remover thread next ∧
      next.left + 1 = (before.remover thread).left) ∧ after.inserter = before.inserter := by
  unfold Remover.left
  unfold sbufRemove at moved
  dsimp only at moved
  split at moved
  case h_1 atPlace =>
      split at moved
      · cases moved
      case h_2 later calls =>
          cases moved
          refine ⟨⟨_, rfl, ?_⟩, rfl⟩
          rw [atPlace, calls]
          simp only [RemovePlace.left]
          omega
  case h_2 atPlace =>
      rcases Option.bind_eq_some_iff.mp moved with ⟨items, _, finished⟩
      cases finished
      exact ⟨⟨_, rfl, by rw [atPlace]; rfl⟩, rfl⟩
  case h_3 atPlace =>
      rcases Option.bind_eq_some_iff.mp moved with ⟨mutex, _, finished⟩
      cases finished
      exact ⟨⟨_, rfl, by rw [atPlace]; rfl⟩, rfl⟩
  case h_4 atPlace =>
      split at moved
      · cases moved
        exact ⟨⟨_, rfl, by rw [atPlace]; rfl⟩, rfl⟩
      · cases moved
        exact ⟨⟨_, rfl, by rw [atPlace]; rfl⟩, rfl⟩
  case h_5 rt atPlace =>
      cases moved
      exact ⟨⟨_, rfl, by rw [atPlace]; rfl⟩, rfl⟩
  case h_6 rt atPlace =>
      cases moved
      exact ⟨⟨_, rfl, by rw [atPlace]; rfl⟩, rfl⟩

theorem step_eq_some {thread : Inserting ⊕ Removing}
    (moved : step positive before thread = some after) :
    before.overflowed = false ∧ Sum.elim (fun thread => sbufInsert positive before thread)
      (fun thread => sbufRemove positive before thread) thread = some after := by
  cases overflowed : before.overflowed with
  | true => cases thread <;> simp [step, overflowed] at moved
  | false => cases thread <;> simpa [step, overflowed] using moved

theorem countsDown (positive : 0 < n) :
    CountsDown (step positive : System n Inserting Removing → Inserting ⊕ Removing → _)
      System.left where
  own before thread after moved := by
    cases thread with
    | inl thread =>
        obtain ⟨⟨next, inserter, falls⟩, _⟩ := sbufInsert_left (step_eq_some moved).2
        rw [System.left, inserter, Function.update_self]
        exact falls
    | inr thread =>
        obtain ⟨⟨next, remover, falls⟩, _⟩ := sbufRemove_left (step_eq_some moved).2
        rw [System.left, remover, Function.update_self]
        exact falls
  others before thread after other moved different := by
    cases thread with
    | inl thread =>
        obtain ⟨⟨next, inserter, _⟩, remover⟩ := sbufInsert_left (step_eq_some moved).2
        cases other with
        | inl other =>
            have apart : other ≠ thread := fun same => different (congrArg Sum.inl same)
            rw [System.left, System.left, inserter, Function.update_of_ne apart]
        | inr other => rw [System.left, System.left, remover]
    | inr thread =>
        obtain ⟨⟨next, remover, _⟩, inserter⟩ := sbufRemove_left (step_eq_some moved).2
        cases other with
        | inl other => rw [System.left, System.left, inserter]
        | inr other =>
            have apart : other ≠ thread := fun same => different (congrArg Sum.inr same)
            rw [System.left, System.left, remover, Function.update_of_ne apart]

/-! ### Every step keeps the invariant -/

section Runs

variable [Fintype Inserting] [Fintype Removing]
  {work : Inserting → List Int} {wanted : Removing → Nat}

def storable (n : Nat) (work : Inserting → List Int) (wanted : Removing → Nat) : Nat :=
  min (∑ thread, (work thread).length) (n + ∑ thread, wanted thread)

/-- Sound up to an overflow, which needs more than `INT_MAX` items. -/
structure System.Good (positive : 0 < n) (work : Inserting → List Int) (wanted : Removing → Nat)
    (system : System n Inserting Removing) : Prop where
  sound : system.overflowed = false → system.Sound positive work wanted
  overflow : system.overflowed = true → INT_MAX < storable n work wanted

theorem System.Sound.good (sound : before.Sound positive work wanted)
    (clear : before.overflowed = false) : before.Good positive work wanted where
  sound _ := sound
  overflow overflowed := by
    rw [clear] at overflowed
    cases overflowed

theorem System.Sound.taken_le (sound : before.Sound positive work wanted) :
    before.taken.length ≤ ∑ thread, wanted thread := by
  have total := sound.takenTotal
  omega

theorem System.Sound.overflow (sound : before.Sound positive work wanted) {thread : Inserting}
    {item : Int} (atPlace : (before.inserter thread).place = .storing item)
    (above : ¬ before.rear < INT_MAX) : INT_MAX < storable n work wanted := by
  have storedTotal := sound.storedTotal
  have same := sound.rear_eq
  have taken := sound.taken_le
  have room := sound.exists_room (by rw [atPlace]; rfl)
  have one : (before.inserter thread).pending.length ≤
      ∑ other, (before.inserter other).pending.length :=
    Finset.single_le_sum (f := fun other => (before.inserter other).pending.length)
      (fun _ _ => Nat.zero_le _) (Finset.mem_univ thread)
  rw [Inserter.pending, atPlace, List.length_append] at one
  change 1 + _ ≤ _ at one
  apply Nat.lt_min.mpr
  constructor <;> omega

theorem System.Sound.sbufInsert (sound : before.Sound positive work wanted)
    (clear : before.overflowed = false) {thread : Inserting}
    (moved : Sbuf.sbufInsert positive before thread = some after) :
    after.Good positive work wanted := by
  have guards := sound.mutexGuards
  unfold Sbuf.sbufInsert at moved
  dsimp only at moved
  split at moved
  case h_1 atPlace =>
      split at moved
      · cases moved
      case h_2 item later calls =>
          cases moved
          refine (sound.inserter_moved thread (.waitingSlots item) later before.slots before.items
            before.mutex (guards.move ?_ inMutex_setInserter) ?_ ?_ ?_).good clear
          · simp only [InMutex, System.setInserter, Function.update_self, atPlace]
            rfl
          · rw [atPlace]
            rfl
          · rw [atPlace]
            rfl
          · rw [Inserter.pending, atPlace, calls]
            rfl
  case h_2 item atPlace =>
      rcases Option.bind_eq_some_iff.mp moved with ⟨slots, waited, finished⟩
      cases finished
      refine (sound.inserter_moved thread (.waitingMutex item) (before.inserter thread).calls slots
        before.items before.mutex (guards.move ?_ inMutex_setInserter) ?_ ?_ ?_).good clear
      · simp only [InMutex, System.setInserter, Function.update_self, atPlace]
        rfl
      · rw [atPlace]
        rfl
      · rw [atPlace, semWait_eq_some.mp waited]
        rfl
      · rw [Inserter.pending, atPlace]
        rfl
  case h_3 item atPlace =>
      rcases Option.bind_eq_some_iff.mp moved with ⟨mutex, waited, finished⟩
      cases finished
      rw [semWait_eq_some.mp waited] at guards
      refine (sound.inserter_moved thread (.storing item) (before.inserter thread).calls before.slots
        before.items mutex (guards.enter ?_ inMutex_setInserter) ?_ ?_ ?_).good clear
      · simp only [InMutex, System.setInserter, Function.update_self]
        trivial
      · rw [atPlace]
        rfl
      · rw [atPlace]
        rfl
      · rw [Inserter.pending, atPlace]
        rfl
  case h_4 item atPlace =>
      split at moved
      case isTrue below =>
          cases moved
          exact (sound.storing atPlace below).good clear
      case isFalse above =>
          cases moved
          exact ⟨fun stays => Bool.noConfusion stays, fun _ => sound.overflow atPlace above⟩
  case h_5 atPlace =>
      cases moved
      have inside : InMutex before.inserter before.remover (.inl thread) := by
        rw [InMutex, atPlace]
        trivial
      refine (sound.inserter_moved thread .postingItems (before.inserter thread).calls before.slots
        before.items (semPost before.mutex) (guards.leave inside ?_ inMutex_setInserter)
        ?_ ?_ ?_).good clear
      · simp only [InMutex, System.setInserter, Function.update_self]
        exact id
      · rw [atPlace]
        rfl
      · rw [atPlace]
        rfl
      · rw [Inserter.pending, atPlace]
        rfl
  case h_6 atPlace =>
      cases moved
      refine (sound.inserter_moved thread .idle (before.inserter thread).calls before.slots
        (semPost before.items) before.mutex (guards.move ?_ inMutex_setInserter) ?_ ?_ ?_).good clear
      · simp only [InMutex, System.setInserter, Function.update_self, atPlace]
        rfl
      · rw [atPlace]
        rfl
      · rw [atPlace]
        rfl
      · rw [Inserter.pending, atPlace]
        rfl

/-- `front` stays behind `rear`, so a removal never overflows. -/
theorem System.Sound.sbufRemove (sound : before.Sound positive work wanted)
    (clear : before.overflowed = false) {thread : Removing}
    (moved : Sbuf.sbufRemove positive before thread = some after) :
    after.Good positive work wanted := by
  have guards := sound.mutexGuards
  unfold Sbuf.sbufRemove at moved
  dsimp only at moved
  split at moved
  case h_1 atPlace =>
      split at moved
      · cases moved
      case h_2 later calls =>
          cases moved
          refine (sound.remover_moved thread ⟨.waitingItems, later, (before.remover thread).returned⟩
            before.slots before.items before.mutex (guards.move ?_ inMutex_setRemover)
            ?_ ?_ ?_ ?_).good clear
          · simp only [InMutex, System.setRemover, Function.update_self, atPlace]
            rfl
          · rw [atPlace]
            rfl
          · rw [atPlace]
            rfl
          · rw [Remover.received, Remover.received, atPlace]
            rfl
          · rw [Remover.due, Remover.due, atPlace, calls]
            simp only [RemovePlace.untaken]
            omega
  case h_2 atPlace =>
      rcases Option.bind_eq_some_iff.mp moved with ⟨items, waited, finished⟩
      cases finished
      refine (sound.remover_moved thread { before.remover thread with place := .waitingMutex }
        before.slots items before.mutex (guards.move ?_ inMutex_setRemover) ?_ ?_ ?_ ?_).good clear
      · simp only [InMutex, System.setRemover, Function.update_self, atPlace]
        rfl
      · rw [atPlace, semWait_eq_some.mp waited]
        rfl
      · rw [atPlace]
        rfl
      · rw [Remover.received, Remover.received, atPlace]
        rfl
      · rw [Remover.due, Remover.due, atPlace]
        rfl
  case h_3 atPlace =>
      rcases Option.bind_eq_some_iff.mp moved with ⟨mutex, waited, finished⟩
      cases finished
      rw [semWait_eq_some.mp waited] at guards
      refine (sound.remover_moved thread { before.remover thread with place := .taking }
        before.slots before.items mutex (guards.enter ?_ inMutex_setRemover) ?_ ?_ ?_ ?_).good clear
      · simp only [InMutex, System.setRemover, Function.update_self]
        trivial
      · rw [atPlace]
        rfl
      · rw [atPlace]
        rfl
      · rw [Remover.received, Remover.received, atPlace]
        rfl
      · rw [Remover.due, Remover.due, atPlace]
        rfl
  case h_4 atPlace =>
      split at moved
      case isTrue =>
          cases moved
          exact (sound.taking atPlace).good clear
      case isFalse above =>
          obtain ⟨entry, found⟩ := sound.exists_item (by rw [atPlace]; rfl)
          have behind := (List.getElem?_eq_some_iff.mp found).1
          have within := sound.within
          have same := sound.front_eq
          omega
  case h_5 rt atPlace =>
      cases moved
      have inside : InMutex before.inserter before.remover (.inr thread) := by
        rw [InMutex, atPlace]
        trivial
      refine (sound.remover_moved thread { before.remover thread with place := .postingSlots rt }
        before.slots before.items (semPost before.mutex)
        (guards.leave inside ?_ inMutex_setRemover) ?_ ?_ ?_ ?_).good clear
      · simp only [InMutex, System.setRemover, Function.update_self]
        exact id
      · rw [atPlace]
        rfl
      · rw [atPlace]
        rfl
      · rw [Remover.received, Remover.received, atPlace]
        rfl
      · rw [Remover.due, Remover.due, atPlace]
        rfl
  case h_6 rt atPlace =>
      cases moved
      refine (sound.remover_moved thread
        ⟨.idle, (before.remover thread).calls, (before.remover thread).returned ++ [rt]⟩
        (semPost before.slots) before.items before.mutex (guards.move ?_ inMutex_setRemover)
        ?_ ?_ ?_ ?_).good clear
      · simp only [InMutex, System.setRemover, Function.update_self, atPlace]
        rfl
      · rw [atPlace]
        rfl
      · rw [atPlace]
        rfl
      · rw [Remover.received, Remover.received, atPlace]
        exact List.append_nil _
      · rw [Remover.due, Remover.due, atPlace]
        rfl

theorem System.Good.step (good : before.Good positive work wanted)
    {thread : Inserting ⊕ Removing} (moved : Sbuf.step positive before thread = some after) :
    after.Good positive work wanted := by
  rcases step_eq_some moved with ⟨clear, move⟩
  cases thread with
  | inl thread => exact (good.sound clear).sbufInsert clear move
  | inr thread => exact (good.sound clear).sbufRemove clear move

private theorem good_of_run {schedule : List (Inserting ⊕ Removing)}
    {system : System n Inserting Removing}
    (run : runAll (Sbuf.step positive) (sbufInit n work wanted) schedule = some system) :
    system.Good positive work wanted :=
  runAll_invariant run (sound_sbufInit.good rfl) fun _ _ _ good moved => good.step moved

/-! ### Where nothing moves any more -/

omit [DecidableEq Removing] [Fintype Inserting] [Fintype Removing] in
private theorem sbufInsert_eq_none {system : System n Inserting Removing} {thread : Inserting}
    (blocked : Sbuf.sbufInsert positive system thread = none) :
    ((system.inserter thread).place = .idle ∧ (system.inserter thread).calls = []) ∨
      (∃ item, (system.inserter thread).place = .waitingSlots item ∧ system.slots = 0) ∨
      ∃ item, (system.inserter thread).place = .waitingMutex item ∧ system.mutex = 0 := by
  unfold Sbuf.sbufInsert at blocked
  dsimp only at blocked
  split at blocked
  case h_1 atPlace =>
      split at blocked
      case h_1 calls => exact Or.inl ⟨atPlace, calls⟩
      case h_2 => cases blocked
  case h_2 item atPlace =>
      refine Or.inr (Or.inl ⟨item, atPlace, ?_⟩)
      cases available : system.slots with
      | zero => rfl
      | succ slots => simp [available, semWait] at blocked
  case h_3 item atPlace =>
      refine Or.inr (Or.inr ⟨item, atPlace, ?_⟩)
      cases available : system.mutex with
      | zero => rfl
      | succ mutex => simp [available, semWait] at blocked
  case h_4 =>
      split at blocked <;> cases blocked
  case h_5 => cases blocked
  case h_6 => cases blocked

omit [DecidableEq Inserting] [Fintype Inserting] [Fintype Removing] in
private theorem sbufRemove_eq_none {system : System n Inserting Removing} {thread : Removing}
    (blocked : Sbuf.sbufRemove positive system thread = none) :
    ((system.remover thread).place = .idle ∧ (system.remover thread).calls = 0) ∨
      ((system.remover thread).place = .waitingItems ∧ system.items = 0) ∨
      ((system.remover thread).place = .waitingMutex ∧ system.mutex = 0) := by
  unfold Sbuf.sbufRemove at blocked
  dsimp only at blocked
  split at blocked
  case h_1 atPlace =>
      split at blocked
      case h_1 calls => exact Or.inl ⟨atPlace, calls⟩
      case h_2 => cases blocked
  case h_2 atPlace =>
      refine Or.inr (Or.inl ⟨atPlace, ?_⟩)
      cases available : system.items with
      | zero => rfl
      | succ items => simp [available, semWait] at blocked
  case h_3 atPlace =>
      refine Or.inr (Or.inr ⟨atPlace, ?_⟩)
      cases available : system.mutex with
      | zero => rfl
      | succ mutex => simp [available, semWait] at blocked
  case h_4 =>
      split at blocked <;> cases blocked
  case h_5 => cases blocked
  case h_6 => cases blocked

/-- The mutex is free, so each thread is through or waits for what there is none of. -/
structure System.AtRest (system : System n Inserting Removing) : Prop where
  inserters : ∀ thread,
    ((system.inserter thread).place = .idle ∧ (system.inserter thread).calls = []) ∨
      ∃ item, (system.inserter thread).place = .waitingSlots item ∧ system.slots = 0
  removers : ∀ thread,
    ((system.remover thread).place = .idle ∧ (system.remover thread).calls = 0) ∨
      ((system.remover thread).place = .waitingItems ∧ system.items = 0)

variable {system : System n Inserting Removing}

theorem System.Sound.atRest (sound : system.Sound positive work wanted)
    (clear : system.overflowed = false) (stuck : Stuck (Sbuf.step positive) system) :
    system.AtRest := by
  have inserter (thread : Inserting) : Sbuf.sbufInsert positive system thread = none := by
    have blocked := stuck (.inl thread)
    rwa [Sbuf.step, clear] at blocked
  have remover (thread : Removing) : Sbuf.sbufRemove positive system thread = none := by
    have blocked := stuck (.inr thread)
    rwa [Sbuf.step, clear] at blocked
  have free : system.mutex = 1 := by
    apply sound.mutexGuards.value_eq_one
    intro thread inside
    cases thread with
    | inl thread =>
        rw [InMutex] at inside
        rcases sbufInsert_eq_none (inserter thread) with ⟨place, _⟩ | ⟨_, place, _⟩ | ⟨_, place, _⟩
          <;> rw [place] at inside <;> exact inside
    | inr thread =>
        rw [InMutex] at inside
        rcases sbufRemove_eq_none (remover thread) with ⟨place, _⟩ | ⟨place, _⟩ | ⟨place, _⟩
          <;> rw [place] at inside <;> exact inside
  constructor
  · intro thread
    rcases sbufInsert_eq_none (inserter thread) with through | full | ⟨item, _, zero⟩
    · exact Or.inl through
    · exact Or.inr full
    · rw [free] at zero
      cases zero
  · intro thread
    rcases sbufRemove_eq_none (remover thread) with through | empty | ⟨_, zero⟩
    · exact Or.inl through
    · exact Or.inr empty
    · rw [free] at zero
      cases zero

/-- At rest nobody is between a wait and its post, so the counts are exact. -/
theorem System.Sound.counts_at_rest (sound : system.Sound positive work wanted)
    (rest : system.AtRest) : system.items + system.taken.length = system.stored.length ∧
      system.slots + system.stored.length = n + system.taken.length := by
  have itemsCounted := sound.itemsCounted
  have slotsCounted := sound.slotsCounted
  have inserters (thread : Inserting) : (system.inserter thread).place.owesItem = 0 ∧
      (system.inserter thread).place.claimsSlot = 0 := by
    rcases rest.inserters thread with ⟨place, _⟩ | ⟨_, place, _⟩ <;> rw [place] <;> exact ⟨rfl, rfl⟩
  have removers (thread : Removing) : (system.remover thread).place.claimsItem = 0 ∧
      (system.remover thread).place.owesSlot = 0 := by
    rcases rest.removers thread with ⟨place, _⟩ | ⟨place, _⟩ <;> rw [place] <;> exact ⟨rfl, rfl⟩
  rw [Finset.sum_eq_zero fun thread _ => (removers thread).1,
    Finset.sum_eq_zero fun thread _ => (inserters thread).1] at itemsCounted
  rw [Finset.sum_eq_zero fun thread _ => (inserters thread).2,
    Finset.sum_eq_zero fun thread _ => (removers thread).2] at slotsCounted
  omega

theorem System.Sound.all_stored (sound : system.Sound positive work wanted)
    (rest : system.AtRest) (room : 0 < system.slots) :
    system.stored.length = ∑ thread, (work thread).length := by
  have total := sound.storedTotal
  have none (thread : Inserting) : (system.inserter thread).pending.length = 0 := by
    rcases rest.inserters thread with ⟨place, calls⟩ | ⟨_, _, full⟩
    · rw [Inserter.pending, place, calls]
      rfl
    · omega
  rw [Finset.sum_eq_zero fun thread _ => none thread] at total
  exact total

theorem System.Sound.all_taken (sound : system.Sound positive work wanted)
    (rest : system.AtRest) (available : 0 < system.items) :
    system.taken.length = ∑ thread, wanted thread := by
  have total := sound.takenTotal
  have none (thread : Removing) : (system.remover thread).due = 0 := by
    rcases rest.removers thread with ⟨place, calls⟩ | ⟨_, empty⟩
    · rw [Remover.due, place, calls]
      rfl
    · omega
  rw [Finset.sum_eq_zero fun thread _ => none thread] at total
  exact total

theorem System.Sound.moved_at_rest (sound : system.Sound positive work wanted)
    (rest : system.AtRest) : system.stored.length = storable n work wanted ∧
      system.taken.length = min (∑ thread, (work thread).length) (∑ thread, wanted thread) := by
  have counts := sound.counts_at_rest rest
  have taken := sound.taken_le
  have stored : system.stored.length ≤ ∑ thread, (work thread).length := by
    have total := sound.storedTotal
    omega
  unfold storable
  by_cases room : 0 < system.slots
  · have all := sound.all_stored rest room
    by_cases available : 0 < system.items
    · have through := sound.all_taken rest available
      omega
    · omega
  · have through := sound.all_taken rest (by omega)
    omega

/-! ### The results -/

/-- However the threads interleave: what was taken is, in the order of the insertions, the
beginning of what was stored, and at most `n` items are in between; each inserting thread
stored its own items in its own order and has the rest still to store; each removing thread
got exactly the items it took, in this order; and one thread at a time is in the section. -/
theorem sbuf_is_fifo (positive : 0 < n) (work : Inserting → List Int) (wanted : Removing → Nat)
    (schedule : List (Inserting ⊕ Removing)) (system : System n Inserting Removing)
    (run : runAll (Sbuf.step positive) (sbufInit n work wanted) schedule = some system)
    (clear : system.overflowed = false) :
    (system.taken.map Prod.snd <+: system.stored.map Prod.snd ∧
      system.stored.length ≤ system.taken.length + n) ∧
      (∀ thread, ofThread thread system.stored ++ (system.inserter thread).pending =
        work thread) ∧
      (∀ thread, ofThread thread system.taken = (system.remover thread).received) ∧
      ∀ one other, InMutex system.inserter system.remover one →
        InMutex system.inserter system.remover other → one = other := by
  have sound := (good_of_run run).sound clear
  have slotsCounted := sound.slotsCounted
  exact ⟨⟨sound.inOrder, by omega⟩, sound.storedBy, sound.takenBy, sound.mutexGuards.atMostOne⟩

/-- Every run can be continued until nothing moves. It then has overflowed exactly if there
was reason to store more than `INT_MAX` items; otherwise everything was stored that was to be
inserted and that fits beside what is ever removed, and as much of it was taken as wanted. -/
theorem sbuf_completes (positive : 0 < n) (work : Inserting → List Int) (wanted : Removing → Nat)
    (schedule : List (Inserting ⊕ Removing)) (system : System n Inserting Removing)
    (run : runAll (Sbuf.step positive) (sbufInit n work wanted) schedule = some system) :
    (system.overflowed = true → INT_MAX < storable n work wanted) ∧
      (Stuck (Sbuf.step positive) system →
        (system.overflowed = true ↔ INT_MAX < storable n work wanted) ∧
        (system.overflowed = false → system.stored.length = storable n work wanted ∧
          system.taken.length =
            min (∑ thread, (work thread).length) (∑ thread, wanted thread))) ∧
      ∃ rest last, runAll (Sbuf.step positive) system rest = some last ∧
        Stuck (Sbuf.step positive) last := by
  have good := good_of_run run
  refine ⟨good.overflow, ?_, (countsDown positive).exists_stuck system⟩
  intro stuck
  have moved (clear : system.overflowed = false) :=
    (good.sound clear).moved_at_rest ((good.sound clear).atRest clear stuck)
  refine ⟨⟨good.overflow, ?_⟩, moved⟩
  intro above
  by_contra notSet
  have clear : system.overflowed = false := by simpa using notSet
  have within := (good.sound clear).within
  have stored := (moved clear).1
  omega

end Runs

/-- Two threads insert three items into one slot and a third removes two. -/
theorem sbuf_one_slot : ∃ system : System 1 Bool Unit,
    runAll (step Nat.one_pos) (sbufInit 1 (fun first => if first then [7, 8] else [9]) fun _ => 2)
      (List.replicate 6 (.inl true) ++ List.replicate 6 (.inr ()) ++
        List.replicate 6 (.inl false) ++ List.replicate 5 (.inr ())) = some system ∧
      system.overflowed = false ∧ (system.remover ()).received = [7, 9] := by
  refine ⟨_, rfl, rfl, ?_⟩
  have fifo := sbuf_is_fifo Nat.one_pos (fun first => if first then [7, 8] else [9]) (fun _ => 2)
    (List.replicate 6 (.inl true) ++ List.replicate 6 (.inr ()) ++
      List.replicate 6 (.inl false) ++ List.replicate 5 (.inr ())) _ rfl rfl
  rw [← fifo.2.2.1 ()]
  decide

/-- The same threads run on: the third item stays in the buffer. -/
theorem sbuf_one_slot_completes : ∃ system : System 1 Bool Unit,
    runAll (step Nat.one_pos) (sbufInit 1 (fun first => if first then [7, 8] else [9]) fun _ => 2)
      (List.replicate 6 (.inl true) ++ List.replicate 6 (.inr ()) ++
        List.replicate 6 (.inl false) ++ List.replicate 6 (.inr ()) ++
        List.replicate 6 (.inl true)) = some system ∧
      system.stored.length = 3 ∧ system.taken.length = 2 := by
  refine ⟨_, rfl, ?_⟩
  have completes := sbuf_completes Nat.one_pos (fun first => if first then [7, 8] else [9])
    (fun _ => 2) (List.replicate 6 (.inl true) ++ List.replicate 6 (.inr ()) ++
      List.replicate 6 (.inl false) ++ List.replicate 6 (.inr ()) ++
      List.replicate 6 (.inl true)) _ rfl
  refine (completes.2.1 ?_).2 rfl
  intro thread
  rcases thread with first | _
  · cases first <;> rfl
  · rfl

end OsCompiler.Sbuf
