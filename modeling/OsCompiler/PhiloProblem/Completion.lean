/-
Every schedule of `pc.c` and of `philo.c` comes to an end.

Each thread has a fixed number of steps to make, whatever the others do. A run that
cannot go on has made them all, and leaves the semaphores as `main` initialised them.
-/

import Mathlib.Algebra.Order.BigOperators.Group.Finset
import OsCompiler.Lib.Countdown
import OsCompiler.PhiloProblem.Pc
import OsCompiler.PhiloProblem.Philo

open OsCompiler.Semaphore OsCompiler.Transition OsCompiler.Countdown

namespace OsCompiler.Pc

variable {MAX : Nat}

instance : Fintype Thread where
  elems := {.producer, .consumer}
  complete thread := by cases thread <;> decide

/-- Six steps for each item to come and the last test of the loop. -/
def ProducerPlace.left (items i : Nat) : ProducerPlace → Nat
  | .whileTest => 6 * (items - i) + 1
  | .waitingEmpty => 6 * (items - (i + 1)) + 6
  | .waitingMutex => 6 * (items - (i + 1)) + 5
  | .pushing => 6 * (items - (i + 1)) + 4
  | .postingFull => 6 * (items - i) + 3
  | .postingMutex => 6 * (items - i) + 2
  | .returned => 0

def ConsumerPlace.left (items j : Nat) : ConsumerPlace → Nat
  | .whileTest => 6 * (items - j) + 1
  | .waitingFull => 6 * (items - (j + 1)) + 6
  | .waitingMutex => 6 * (items - (j + 1)) + 5
  | .consuming => 6 * (items - (j + 1)) + 4
  | .postingEmpty => 6 * (items - j) + 3
  | .postingMutex => 6 * (items - j) + 2
  | .returned => 0

def System.left (items : Nat) (system : System MAX) : Thread → Nat
  | .producer => system.producer.place.left items system.producer.i
  | .consumer => system.consumer.place.left items system.consumer.j

variable {items : Nat} {before after : System MAX}

private theorem producerStep_left (moved : producerStep items before = some after) :
    after.left items .producer + 1 = before.left items .producer ∧
      after.consumer = before.consumer := by
  unfold producerStep at moved
  split at moved
  case h_1 atPlace =>
      cases moved
      refine ⟨?_, rfl⟩
      simp only [System.left, System.producerTo, atPlace]
      by_cases more : before.producer.i < items
      · rw [if_pos more]
        simp only [ProducerPlace.left]
        omega
      · rw [if_neg more]
        simp only [ProducerPlace.left]
        omega
  case h_2 atPlace =>
      rcases Option.bind_eq_some_iff.mp moved with ⟨empty, _, finished⟩
      cases finished
      exact ⟨by simp only [System.left, System.producerTo, atPlace, ProducerPlace.left], rfl⟩
  case h_3 atPlace =>
      rcases Option.bind_eq_some_iff.mp moved with ⟨mutex, _, finished⟩
      cases finished
      exact ⟨by simp only [System.left, System.producerTo, atPlace, ProducerPlace.left], rfl⟩
  case h_4 atPlace =>
      cases moved
      exact ⟨by simp only [System.left, atPlace, ProducerPlace.left], rfl⟩
  case h_5 atPlace =>
      cases moved
      exact ⟨by simp only [System.left, System.producerTo, atPlace, ProducerPlace.left], rfl⟩
  case h_6 atPlace =>
      cases moved
      exact ⟨by simp only [System.left, System.producerTo, atPlace, ProducerPlace.left], rfl⟩
  case h_7 => cases moved

private theorem consumerStep_left (moved : consumerStep items before = some after) :
    after.left items .consumer + 1 = before.left items .consumer ∧
      after.producer = before.producer := by
  unfold consumerStep at moved
  split at moved
  case h_1 atPlace =>
      cases moved
      refine ⟨?_, rfl⟩
      simp only [System.left, System.consumerTo, atPlace]
      by_cases more : before.consumer.j < items
      · rw [if_pos more]
        simp only [ConsumerPlace.left]
        omega
      · rw [if_neg more]
        simp only [ConsumerPlace.left]
        omega
  case h_2 atPlace =>
      rcases Option.bind_eq_some_iff.mp moved with ⟨full, _, finished⟩
      cases finished
      exact ⟨by simp only [System.left, System.consumerTo, atPlace, ConsumerPlace.left], rfl⟩
  case h_3 atPlace =>
      rcases Option.bind_eq_some_iff.mp moved with ⟨mutex, _, finished⟩
      cases finished
      exact ⟨by simp only [System.left, System.consumerTo, atPlace, ConsumerPlace.left], rfl⟩
  case h_4 atPlace =>
      cases moved
      exact ⟨by simp only [System.left, atPlace, ConsumerPlace.left], rfl⟩
  case h_5 atPlace =>
      cases moved
      exact ⟨by simp only [System.left, System.consumerTo, atPlace, ConsumerPlace.left], rfl⟩
  case h_6 atPlace =>
      cases moved
      exact ⟨by simp only [System.left, System.consumerTo, atPlace, ConsumerPlace.left], rfl⟩
  case h_7 => cases moved

theorem countsDown (items : Nat) :
    CountsDown (step items : System MAX → Thread → Option (System MAX)) (System.left items) where
  own before thread after moved := by
    cases thread with
    | producer => exact (producerStep_left moved).1
    | consumer => exact (consumerStep_left moved).1
  others before thread after other moved different := by
    cases thread with
    | producer =>
        cases other with
        | producer => exact absurd rfl different
        | consumer => rw [System.left, System.left, (producerStep_left moved).2]
    | consumer =>
        cases other with
        | producer => rw [System.left, System.left, (consumerStep_left moved).2]
        | consumer => exact absurd rfl different

/-! ### What the buffer and the loops leave behind -/

def ProducerPlace.begun : ProducerPlace → Nat
  | .waitingEmpty | .waitingMutex | .pushing => 1
  | _ => 0

/-- No item beyond the last is begun, and every slot without an item holds -1. -/
structure System.Tidy (positive : 0 < MAX) (items : Nat) (system : System MAX) : Prop where
  within : system.producer.i + system.producer.place.begun ≤ items
  cleared : ∀ free, (∀ k, system.consumer.j ≤ k → k < system.producer.i →
    slot positive k ≠ free) → system.buf free = -1

variable {positive : 0 < MAX}

private theorem tidy_mainSystem : (mainSystem positive).Tidy positive items where
  within := Nat.zero_le items
  cleared _ _ := rfl

theorem System.Tidy.producer_moved (tidy : before.Tidy positive items)
    (place : ProducerPlace) (full empty mutex : Nat) (within : before.producer.i + place.begun ≤ items) :
    ({ before.producerTo place with full := full, empty := empty, mutex := mutex } :
      System MAX).Tidy positive items :=
  ⟨within, tidy.cleared⟩

theorem System.Tidy.producer_step (tidy : before.Tidy positive items)
    (sound : before.Sound positive items) (moved : producerStep items before = some after) :
    after.Tidy positive items := by
  have within := tidy.within
  unfold producerStep at moved
  split at moved
  case h_1 atPlace =>
      cases moved
      refine tidy.producer_moved
        (if before.producer.i < items then .waitingEmpty else .returned) before.full before.empty
        before.mutex ?_
      by_cases more : before.producer.i < items
      · rw [if_pos more]
        exact more
      · rw [if_neg more]
        rw [atPlace] at within
        exact within
  case h_2 atPlace =>
      rcases Option.bind_eq_some_iff.mp moved with ⟨empty, _, finished⟩
      cases finished
      rw [atPlace] at within
      exact tidy.producer_moved .waitingMutex before.full empty before.mutex within
  case h_3 atPlace =>
      rcases Option.bind_eq_some_iff.mp moved with ⟨mutex, _, finished⟩
      cases finished
      rw [atPlace] at within
      exact tidy.producer_moved .pushing before.full before.empty mutex within
  case h_4 atPlace =>
      cases moved
      rw [atPlace] at within
      refine ⟨within, ?_⟩
      intro free unused
      dsimp only at unused ⊢
      have itemsCounted := sound.itemsCounted
      have other : free ≠ slot positive before.producer.i :=
        (unused before.producer.i (by omega) (Nat.lt_succ_self _)).symm
      rw [sound.inAtItem, Function.update_of_ne other]
      exact tidy.cleared free fun k unconsumed produced =>
        unused k unconsumed (Nat.lt_succ_of_lt produced)
  case h_5 atPlace =>
      cases moved
      rw [atPlace] at within
      exact tidy.producer_moved .postingMutex (semPost before.full) before.empty before.mutex within
  case h_6 atPlace =>
      cases moved
      rw [atPlace] at within
      exact tidy.producer_moved .whileTest before.full before.empty (semPost before.mutex) within
  case h_7 => cases moved

theorem System.Tidy.consumer_step (tidy : before.Tidy positive items)
    (sound : before.Sound positive items) (moved : consumerStep items before = some after) :
    after.Tidy positive items := by
  unfold consumerStep at moved
  split at moved
  case h_1 =>
      cases moved
      exact ⟨tidy.within, tidy.cleared⟩
  case h_2 =>
      rcases Option.bind_eq_some_iff.mp moved with ⟨full, _, finished⟩
      cases finished
      exact ⟨tidy.within, tidy.cleared⟩
  case h_3 =>
      rcases Option.bind_eq_some_iff.mp moved with ⟨mutex, _, finished⟩
      cases finished
      exact ⟨tidy.within, tidy.cleared⟩
  case h_4 =>
      cases moved
      refine ⟨tidy.within, ?_⟩
      intro free unused
      dsimp only at unused ⊢
      rw [sound.outAtItem]
      by_cases here : free = slot positive before.consumer.j
      · rw [here, Function.update_self]
      · rw [Function.update_of_ne here]
        apply tidy.cleared free
        intro k unconsumed produced
        rcases Nat.lt_or_eq_of_le unconsumed with later | last
        · exact unused k later produced
        · rw [← last]
          exact Ne.symm here
  case h_5 =>
      cases moved
      exact ⟨tidy.within, tidy.cleared⟩
  case h_6 =>
      cases moved
      exact ⟨tidy.within, tidy.cleared⟩
  case h_7 => cases moved

/-- What the two joins in `main` leave: all items printed in order, no slot in use and the
semaphores at their first values. -/
structure System.Complete (items : Nat) (system : System MAX) : Prop where
  producer : system.producer.place = .returned
  consumer : system.consumer.place = .returned
  consumed : system.consumer.consumed = (List.range items).map Int.ofNat
  full : system.full = 0
  empty : system.empty = MAX
  mutex : system.mutex = 1
  buf : system.buf = fun _ => -1

theorem System.Sound.complete (sound : before.Sound positive items)
    (tidy : before.Tidy positive items) (produced : before.producer.place = .returned)
    (consumed : before.consumer.place = .returned) : before.Complete items := by
  have itemsCounted := sound.itemsCounted
  have slotsCounted := sound.slotsCounted
  have within := tidy.within
  have made := sound.producedAll produced
  have taken := sound.consumedAll consumed
  rw [produced, consumed] at itemsCounted slotsCounted
  simp only [ConsumerPlace.claimsItem, ProducerPlace.owesItem, ProducerPlace.claimsSlot,
    ConsumerPlace.owesSlot] at itemsCounted slotsCounted
  have all : before.consumer.j = items := by omega
  exact {
    producer := produced
    consumer := consumed
    consumed := by rw [sound.consumed, all]
    full := by omega
    empty := by omega
    mutex := by
      apply sound.mutexGuards.value_eq_one
      intro thread inside
      cases thread with
      | producer =>
          change before.producer.place.inMutex at inside
          rw [produced] at inside
          exact inside
      | consumer =>
          change before.consumer.place.inMutex at inside
          rw [consumed] at inside
          exact inside
    buf := by
      funext free
      apply tidy.cleared
      intro k unconsumed stored
      omega }

/-- Each thread makes `6 * items + 1` steps in every schedule that cannot go on, and only
then can it not go on; such a schedule leaves everything as it was but for the items
printed, and every schedule can be continued to one. -/
theorem pc_completes (positive : 0 < MAX) (items : Nat) (schedule : List Thread)
    (system : System MAX)
    (run : runAll (step items) (mainSystem positive) schedule = some system) :
    (∀ thread, schedule.count thread ≤ 6 * items + 1) ∧
      (Stuck (step items) system ↔ ∀ thread, schedule.count thread = 6 * items + 1) ∧
      (Stuck (step items) system → system.Complete items) ∧
      ∃ rest last, runAll (step items) system rest = some last ∧ Stuck (step items) last := by
  have invariants : system.Sound positive items ∧ system.Tidy positive items := by
    apply runAll_invariant run ⟨sound_mainSystem positive items, tidy_mainSystem⟩
    intro before thread after both moved
    refine ⟨both.1.step moved, ?_⟩
    cases thread with
    | producer => exact both.2.producer_step both.1 moved
    | consumer => exact both.2.consumer_step both.1 moved
  have returned (stuck : Stuck (step items) system) :
      system.producer.place = .returned ∧ system.consumer.place = .returned := by
    rcases invariants.1.progress with both | moves
    · exact both
    · exact absurd stuck (not_stuck_iff.mpr moves)
  have initially (thread : Thread) : (mainSystem positive).left items thread = 6 * items + 1 := by
    cases thread <;> rfl
  have spent (thread : Thread) := (countsDown items).left_add_count run thread
  have atEnd := (countsDown items).stuck_iff run (by
    intro stuck thread
    cases thread with
    | producer => rw [System.left, (returned stuck).1, ProducerPlace.left]
    | consumer => rw [System.left, (returned stuck).2, ConsumerPlace.left])
  simp only [initially] at spent atEnd
  refine ⟨?_, atEnd, ?_, (countsDown items).exists_stuck system⟩
  · intro thread
    have total := spent thread
    omega
  · intro stuck
    exact invariants.1.complete invariants.2 (returned stuck).1 (returned stuck).2

/-- One item through a buffer of one slot. -/
theorem pc_one_item_completes : ∃ system : System 1,
    runAll (step 1) (mainSystem Nat.one_pos)
      (List.replicate 7 .producer ++ List.replicate 7 .consumer) = some system ∧
      system.Complete 1 := by
  refine ⟨_, rfl, ?_⟩
  have completes := pc_completes Nat.one_pos 1
    (List.replicate 7 .producer ++ List.replicate 7 .consumer) _ rfl
  apply completes.2.2.1
  intro thread
  cases thread <;> rfl

end OsCompiler.Pc

namespace OsCompiler.Philo

variable {NUM : Nat}

/-- Seven steps for each meal to come and the last test of the loop. -/
def Place.left (NUM t : Nat) : Place → Nat
  | .whileTest => 7 * (NUM - t) + 1
  | .waitingMutex => 7 * (NUM - t) + 7
  | .waitingFirst => 7 * (NUM - t) + 6
  | .waitingSecond => 7 * (NUM - t) + 5
  | .postingMutex => 7 * (NUM - t) + 4
  | .postingFirst => 7 * (NUM - t) + 3
  | .postingSecond => 7 * (NUM - t) + 2
  | .returned => 0

def Table.left (table : Table NUM) (i : Fin NUM) : Nat :=
  (table.philo i).place.left NUM (table.philo i).t

/-- A step of thread `i` is a move of philosopher `i` along its loop. -/
theorem sophi_philo {before after : Table NUM} {i : Fin NUM}
    (moved : sophi before i = some after) :
    ∃ philosopher, after.philo = Function.update before.philo i philosopher ∧
      philosopher.place.left NUM philosopher.t + 1 = before.left i := by
  unfold Table.left
  unfold sophi at moved
  split at moved
  case h_1 atPlace =>
      cases moved
      refine ⟨_, rfl, ?_⟩
      rw [atPlace]
      by_cases more : (before.philo i).t < NUM
      · rw [if_pos more]
        simp only [Place.left]
        omega
      · rw [if_neg more]
        simp only [Place.left]
        omega
  case h_2 atPlace =>
      rcases Option.bind_eq_some_iff.mp moved with ⟨mutex, _, finished⟩
      cases finished
      exact ⟨_, rfl, by rw [atPlace]; rfl⟩
  case h_3 atPlace =>
      rcases Option.bind_eq_some_iff.mp moved with ⟨chick, _, finished⟩
      cases finished
      exact ⟨_, rfl, by rw [atPlace]; rfl⟩
  case h_4 atPlace =>
      rcases Option.bind_eq_some_iff.mp moved with ⟨chick, _, finished⟩
      cases finished
      exact ⟨_, rfl, by rw [atPlace]; rfl⟩
  case h_5 atPlace =>
      cases moved
      exact ⟨_, rfl, by rw [atPlace]; rfl⟩
  case h_6 atPlace =>
      cases moved
      exact ⟨_, rfl, by rw [atPlace]; rfl⟩
  case h_7 atPlace =>
      cases moved
      exact ⟨_, rfl, by rw [atPlace]; rfl⟩
  case h_8 => cases moved

theorem countsDown : CountsDown (sophi : Table NUM → Fin NUM → Option (Table NUM)) Table.left where
  own before i after moved := by
    rcases sophi_philo moved with ⟨philosopher, philo, falls⟩
    rw [Table.left, philo, Function.update_self]
    exact falls
  others before i after other moved different := by
    rcases sophi_philo moved with ⟨philosopher, philo, _⟩
    rw [Table.left, Table.left, philo, Function.update_of_ne different]

structure Table.Complete (table : Table NUM) : Prop where
  returned : ∀ i, table.place i = .returned
  mutex : table.mutex = 1
  chick : ∀ i, table.chick i = 1

theorem Table.Sound.complete {table : Table NUM} (sound : table.Sound)
    (returned : ∀ i, table.place i = .returned) : table.Complete where
  returned := returned
  mutex := by
    apply sound.mutexGuards.value_eq_one
    intro i inside
    rw [returned i] at inside
    exact inside
  chick i := by
    rcases exists_next_eq i with ⟨left, leftOf⟩
    have kept := sound.chicksKept left
    rw [leftOf, returned i, returned left] at kept
    exact kept

/-- Each philosopher makes `7 * NUM + 1` steps, seven for each of `NUM` meals, in every
schedule that cannot go on, and only then can it not go on; the semaphores are then all free
again, and every schedule can be continued to such a one. -/
theorem philo_completes (several : 2 ≤ NUM) (schedule : List (Fin NUM)) (table : Table NUM)
    (run : runAll sophi (mainTable NUM) schedule = some table) :
    (∀ i, schedule.count i ≤ 7 * NUM + 1) ∧
      (Stuck sophi table ↔ ∀ i, schedule.count i = 7 * NUM + 1) ∧
      (Stuck sophi table → table.Complete) ∧
      ∃ rest last, runAll sophi table rest = some last ∧ Stuck sophi last := by
  have sound : table.Sound := runAll_invariant run sound_mainTable
    (fun _ _ _ holds moved => holds.step several moved)
  have returned (stuck : Stuck sophi table) : ∀ i, table.place i = .returned := by
    rcases sound.progress several with all | moves
    · exact all
    · exact absurd stuck (not_stuck_iff.mpr moves)
  have initially (i : Fin NUM) : (mainTable NUM).left i = 7 * NUM + 1 := rfl
  have spent (i : Fin NUM) := countsDown.left_add_count run i
  have atEnd := countsDown.stuck_iff run (by
    intro stuck i
    have back : (table.philo i).place = .returned := returned stuck i
    rw [Table.left, back, Place.left])
  simp only [initially] at spent atEnd
  refine ⟨?_, atEnd, ?_, countsDown.exists_stuck table⟩
  · intro i
    have total := spent i
    omega
  · intro stuck
    exact sound.complete (returned stuck)

/-- Two philosophers, one after the other. -/
theorem philo_two_complete : ∃ table,
    runAll sophi (mainTable 2) (List.replicate 15 0 ++ List.replicate 15 1) = some table ∧
      table.Complete := by
  refine ⟨_, rfl, ?_⟩
  have completes := philo_completes (Nat.le_refl 2)
    (List.replicate 15 0 ++ List.replicate 15 1) _ rfl
  apply completes.2.2.1
  apply completes.2.1.mpr
  decide

end OsCompiler.Philo
