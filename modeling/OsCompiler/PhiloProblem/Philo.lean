/-
The dining philosophers of `philo.c`, for any number of philosophers and any
interleaving of their semaphore operations.

A philosopher takes both chopsticks while it holds `mutex` and gives them back
without it. Whoever makes the holder of `mutex` wait is therefore already eating.
-/

import Mathlib.Data.Fintype.EquivFin
import OsCompiler.Lib.Semaphore
import OsCompiler.Lib.Transition

namespace OsCompiler.Philo

open OsCompiler.Semaphore OsCompiler.Transition

/-- How far `sophi` is: each place is in front of the operation it names. -/
inductive Place
  | whileTest
  | waitingMutex
  | waitingFirst
  | waitingSecond
  | postingMutex
  | postingFirst
  | postingSecond
  | returned
  deriving DecidableEq

structure Philosopher where
  place : Place
  t : Nat
  deriving DecidableEq

variable {NUM : Nat}

structure Table (NUM : Nat) where
  mutex : Nat
  chick : Fin NUM → Nat
  philo : Fin NUM → Philosopher

def mainTable (NUM : Nat) : Table NUM where
  mutex := 1
  chick _ := 1
  philo _ := ⟨.whileTest, 0⟩

theorem next_lt (i : Fin NUM) : (i.val + 1) % NUM < NUM := Nat.mod_lt _ i.pos

def next (i : Fin NUM) : Fin NUM := ⟨(i.val + 1) % NUM, next_lt i⟩

def Table.goTo (table : Table NUM) (i : Fin NUM) (place : Place) : Table NUM :=
  { table with philo := Function.update table.philo i { table.philo i with place := place } }

def Table.setChick (table : Table NUM) (i : Fin NUM) (value : Nat) : Table NUM :=
  { table with chick := Function.update table.chick i value }

/-- One step of thread `i`; `none` while it is blocked or once it has returned. -/
def sophi (table : Table NUM) (i : Fin NUM) : Option (Table NUM) :=
  match (table.philo i).place with
  | .whileTest =>
      let t := (table.philo i).t
      let place := if t < NUM then Place.waitingMutex else Place.returned
      some { table with philo := Function.update table.philo i ⟨place, t + 1⟩ }
  | .waitingMutex => do
      let mutex ← semWait table.mutex
      pure { table.goTo i .waitingFirst with mutex := mutex }
  | .waitingFirst => do
      let chick ← semWait (table.chick i)
      pure ((table.goTo i .waitingSecond).setChick i chick)
  | .waitingSecond => do
      let chick ← semWait (table.chick (next i))
      pure ((table.goTo i .postingMutex).setChick (next i) chick)
  | .postingMutex => some { table.goTo i .postingFirst with mutex := semPost table.mutex }
  | .postingFirst => some ((table.goTo i .postingSecond).setChick i (semPost (table.chick i)))
  | .postingSecond =>
      some ((table.goTo i .whileTest).setChick (next i) (semPost (table.chick (next i))))
  | .returned => none

/-! ### Who holds which semaphore -/

def Place.inMutex : Place → Prop
  | .waitingFirst | .waitingSecond | .postingMutex => True
  | _ => False

/-- The number of units of `chick[i]` the philosopher holds. -/
def Place.holdsFirst : Place → Nat
  | .waitingSecond | .postingMutex | .postingFirst => 1
  | _ => 0

def Place.holdsSecond : Place → Nat
  | .postingMutex | .postingFirst | .postingSecond => 1
  | _ => 0

def Place.Eating (place : Place) : Prop := place = .postingMutex ∨ place = .postingFirst

theorem Place.Eating.holds {place : Place} (eating : place.Eating) :
    place.holdsFirst = 1 ∧ place.holdsSecond = 1 := by
  rcases eating with rfl | rfl <;> exact ⟨rfl, rfl⟩

def Table.place (table : Table NUM) (i : Fin NUM) : Place := (table.philo i).place

/-- Each chopstick is on the table or in the hand of one of its two philosophers. -/
def ChicksKept (chick : Fin NUM → Nat) (place : Fin NUM → Place) : Prop :=
  ∀ j, chick (next j) + (place (next j)).holdsFirst + (place j).holdsSecond = 1

structure Table.Sound (table : Table NUM) : Prop where
  mutexGuards : Guards table.mutex fun i => (table.place i).inMutex
  chicksKept : ChicksKept table.chick table.place

private theorem next_injective : Function.Injective (next : Fin NUM → Fin NUM) := by
  intro i j same
  have sameValue : (i.val + 1) % NUM = (j.val + 1) % NUM := congrArg Fin.val same
  have below := i.isLt
  have otherBelow := j.isLt
  apply Fin.ext
  rcases Nat.lt_or_ge (i.val + 1) NUM with inner | last
  · rcases Nat.lt_or_ge (j.val + 1) NUM with otherInner | otherLast
    · rw [Nat.mod_eq_of_lt inner, Nat.mod_eq_of_lt otherInner] at sameValue
      omega
    · have wrap : j.val + 1 = NUM := by omega
      rw [Nat.mod_eq_of_lt inner, wrap, Nat.mod_self] at sameValue
      omega
  · have wrap : i.val + 1 = NUM := by omega
    rcases Nat.lt_or_ge (j.val + 1) NUM with otherInner | otherLast
    · rw [Nat.mod_eq_of_lt otherInner, wrap, Nat.mod_self] at sameValue
      omega
    · omega

theorem exists_next_eq (i : Fin NUM) : ∃ j, next j = i := by
  have surjective : Function.Surjective (next : Fin NUM → Fin NUM) :=
    Finite.surjective_of_injective next_injective
  exact surjective i

theorem next_ne (several : 2 ≤ NUM) (i : Fin NUM) : next i ≠ i := by
  intro same
  have sameValue : (i.val + 1) % NUM = i.val := congrArg Fin.val same
  have below := i.isLt
  rcases Nat.lt_or_ge (i.val + 1) NUM with inner | last
  · rw [Nat.mod_eq_of_lt inner] at sameValue
    omega
  · have wrap : i.val + 1 = NUM := by omega
    rw [wrap, Nat.mod_self] at sameValue
    omega
theorem sound_mainTable : (mainTable NUM).Sound where
  mutexGuards := Guards.initial fun _ => id
  chicksKept _ := rfl

/-! ### One step -/

/-- What a thread takes or gives back at its own two chopsticks keeps all of them. -/
theorem ChicksKept.step (several : 2 ≤ NUM) {chick after : Fin NUM → Nat}
    {place : Fin NUM → Place} (kept : ChicksKept chick place) (i : Fin NUM) (target : Place)
    (first : after i + target.holdsFirst = chick i + (place i).holdsFirst)
    (second : after (next i) + target.holdsSecond = chick (next i) + (place i).holdsSecond)
    (others : ∀ k, k ≠ i → k ≠ next i → after k = chick k) :
    ChicksKept after (Function.update place i target) := by
  intro j
  have before := kept j
  by_cases behind : next j = i
  · have different : j ≠ i := by
      intro same
      exact next_ne several j (behind.trans same.symm)
    rw [behind, Function.update_self, Function.update_of_ne different]
    rw [behind] at before
    omega
  · rw [Function.update_of_ne behind]
    by_cases here : j = i
    · subst here
      rw [Function.update_self]
      omega
    · rw [Function.update_of_ne here, others (next j) behind (fun same => here (next_injective same))]
      exact before

private theorem place_update (table : Table NUM) (i j : Fin NUM) (philosopher : Philosopher) :
    (Function.update table.philo i philosopher j).place =
      Function.update table.place i philosopher.place j := by
  by_cases here : j = i
  · subst here
    rw [Function.update_self, Function.update_self]
  · rw [Function.update_of_ne here, Function.update_of_ne here]
    rfl

/-- A step is a change of place together with its effect on `mutex` and on the thread's own
two chopsticks. -/
theorem Table.Sound.moved (several : 2 ≤ NUM) {before after : Table NUM} (sound : before.Sound)
    (i : Fin NUM) (target : Place) (places : after.place = Function.update before.place i target)
    (mutexGuards : Guards after.mutex fun j =>
      (Function.update before.place i target j).inMutex)
    (first : after.chick i + target.holdsFirst = before.chick i + (before.place i).holdsFirst)
    (second : after.chick (next i) + target.holdsSecond =
      before.chick (next i) + (before.place i).holdsSecond)
    (others : ∀ k, k ≠ i → k ≠ next i → after.chick k = before.chick k) :
    after.Sound where
  mutexGuards := by
    rw [places]
    exact mutexGuards
  chicksKept := by
    rw [places]
    exact sound.chicksKept.step several i target first second others

theorem Table.Sound.step (several : 2 ≤ NUM) {before after : Table NUM} {i : Fin NUM}
    (sound : before.Sound) (moved : sophi before i = some after) : after.Sound := by
  have apart := next_ne several i
  have places (philosopher : Philosopher) :
      (fun j => (Function.update before.philo i philosopher j).place) =
        Function.update before.place i philosopher.place :=
    funext fun j => place_update before i j philosopher
  unfold sophi at moved
  split at moved
  case h_1 atPlace =>
      have here : before.place i = .whileTest := atPlace
      cases moved
      refine sound.moved several i _ (places _) (sound.mutexGuards.move_at ?_) ?_ ?_ ?_
      · rw [here]
        split <;> rfl
      · rw [here]
        split <;> rfl
      · rw [here]
        split <;> rfl
      · intro k _ _
        rfl
  case h_2 atPlace =>
      have here : before.place i = .waitingMutex := atPlace
      rcases Option.bind_eq_some_iff.mp moved with ⟨mutex, waited, finished⟩
      cases finished
      have guards := sound.mutexGuards
      rw [semWait_eq_some.mp waited] at guards
      refine sound.moved several i .waitingFirst (places _) (guards.enter_at trivial) ?_ ?_ ?_
      · rw [here]
        rfl
      · rw [here]
        rfl
      · intro k _ _
        rfl
  case h_3 atPlace =>
      have here : before.place i = .waitingFirst := atPlace
      rcases Option.bind_eq_some_iff.mp moved with ⟨chick, waited, finished⟩
      cases finished
      refine sound.moved several i .waitingSecond (places _) (sound.mutexGuards.move_at ?_) ?_ ?_ ?_
      · rw [here]
        rfl
      · rw [here, semWait_eq_some.mp waited]
        simp [Table.setChick, Place.holdsFirst]
      · rw [here]
        simp [Table.setChick, Table.goTo, apart, Place.holdsSecond]
      · intro k different _
        exact Function.update_of_ne different _ _
  case h_4 atPlace =>
      have here : before.place i = .waitingSecond := atPlace
      rcases Option.bind_eq_some_iff.mp moved with ⟨chick, waited, finished⟩
      cases finished
      refine sound.moved several i .postingMutex (places _) (sound.mutexGuards.move_at ?_) ?_ ?_ ?_
      · rw [here]
        rfl
      · rw [here]
        simp [Table.setChick, Table.goTo, apart.symm, Place.holdsFirst]
      · rw [here, semWait_eq_some.mp waited]
        simp [Table.setChick, Place.holdsSecond]
      · intro k _ different
        exact Function.update_of_ne different _ _
  case h_5 atPlace =>
      have here : before.place i = .postingMutex := atPlace
      cases moved
      refine sound.moved several i .postingFirst (places _)
        (sound.mutexGuards.leave_at ?_ id) ?_ ?_ ?_
      · rw [here]
        trivial
      · rw [here]
        rfl
      · rw [here]
        rfl
      · intro k _ _
        rfl
  case h_6 atPlace =>
      have here : before.place i = .postingFirst := atPlace
      cases moved
      refine sound.moved several i .postingSecond (places _) (sound.mutexGuards.move_at ?_) ?_ ?_ ?_
      · rw [here]
        rfl
      · rw [here]
        simp [Table.setChick, Place.holdsFirst, semPost]
      · rw [here]
        simp [Table.setChick, Table.goTo, apart, Place.holdsSecond]
      · intro k different _
        exact Function.update_of_ne different _ _
  case h_7 atPlace =>
      have here : before.place i = .postingSecond := atPlace
      cases moved
      refine sound.moved several i .whileTest (places _) (sound.mutexGuards.move_at ?_) ?_ ?_ ?_
      · rw [here]
        rfl
      · rw [here]
        simp [Table.setChick, Table.goTo, apart.symm, Place.holdsFirst]
      · rw [here]
        simp [Table.setChick, Place.holdsSecond, semPost]
      · intro k _ different
        exact Function.update_of_ne different _ _
  case h_8 => cases moved

/-! ### Safety and progress -/

theorem Table.Sound.not_both_eating {table : Table NUM} (sound : table.Sound) (i : Fin NUM) :
    ¬ ((table.place i).Eating ∧ (table.place (next i)).Eating) := by
  intro both
  have kept := sound.chicksKept i
  have mine := both.1.holds.2
  have neighbours := both.2.holds.1
  omega

/-- The places where a thread may have to wait for a semaphore. -/
def Place.Waits (place : Place) : Prop :=
  place = .waitingMutex ∨ place = .waitingFirst ∨ place = .waitingSecond

private theorem exists_sophi_of_not_waits (table : Table NUM) {i : Fin NUM}
    (running : table.place i ≠ .returned) (free : ¬ (table.place i).Waits) :
    ∃ after, sophi table i = some after := by
  unfold sophi
  unfold Table.place at running free
  split
  case h_1 => exact ⟨_, rfl⟩
  case h_2 atPlace => exact absurd (Or.inl atPlace) free
  case h_3 atPlace => exact absurd (Or.inr (Or.inl atPlace)) free
  case h_4 atPlace => exact absurd (Or.inr (Or.inr atPlace)) free
  case h_5 => exact ⟨_, rfl⟩
  case h_6 => exact ⟨_, rfl⟩
  case h_7 => exact ⟨_, rfl⟩
  case h_8 atPlace => exact absurd atPlace running

/-- A philosopher that waits or has returned has no second chopstick. -/
theorem holdsSecond_eq_zero {place : Place} (resting : place = .returned ∨ place.Waits) :
    place.holdsSecond = 0 := by
  rcases resting with rfl | rfl | rfl | rfl <;> rfl

/-- Where every thread waits or has returned, the holder of `mutex` can go on, and without
a holder any thread in front of `mutex` can. -/
theorem Table.Sound.exists_sophi_of_all_rest (several : 2 ≤ NUM) {table : Table NUM}
    (sound : table.Sound) (resting : ∀ i, table.place i = .returned ∨ (table.place i).Waits)
    {i : Fin NUM} (running : table.place i ≠ .returned) :
    ∃ j after, sophi table j = some after := by
  by_cases held : ∃ holder, (table.place holder).inMutex
  · rcases held with ⟨holder, inside⟩
    rcases resting holder with back | outside | first | second
    · rw [back] at inside
      exact absurd inside id
    · rw [outside] at inside
      exact absurd inside id
    · rcases exists_next_eq holder with ⟨left, leftOf⟩
      have kept := sound.chicksKept left
      rw [leftOf, first, holdsSecond_eq_zero (resting left)] at kept
      have available : 0 < table.chick holder := by
        simp only [Place.holdsFirst] at kept
        omega
      rcases exists_semWait available with ⟨chick, waited⟩
      have atPlace : (table.philo holder).place = .waitingFirst := first
      exact ⟨holder, _, by simp only [sophi, atPlace, waited]; rfl⟩
    · have kept := sound.chicksKept holder
      -- The right neighbour is not inside the section, so it has not taken this chopstick.
      have neighbour : (table.place (next holder)).holdsFirst = 0 := by
        rcases resting (next holder) with back | outside | alsoFirst | alsoSecond
        · rw [back]
          rfl
        · rw [outside]
          rfl
        · rw [alsoFirst]
          rfl
        · have alsoInside : (table.place (next holder)).inMutex := by
            rw [alsoSecond]
            trivial
          have same := sound.mutexGuards.atMostOne _ _ alsoInside inside
          exact absurd same (next_ne several holder)
      rw [neighbour, holdsSecond_eq_zero (resting holder)] at kept
      rcases exists_semWait (by omega : 0 < table.chick (next holder)) with ⟨chick, waited⟩
      have atPlace : (table.philo holder).place = .waitingSecond := second
      exact ⟨holder, _, by simp only [sophi, atPlace, waited]; rfl⟩
  · have free : table.mutex = 1 :=
      sound.mutexGuards.value_eq_one fun other inside => held ⟨other, inside⟩
    rcases resting i with back | outside | first | second
    · exact absurd back running
    · have atPlace : (table.philo i).place = .waitingMutex := outside
      exact ⟨i, _, by simp only [sophi, atPlace, free]; rfl⟩
    · exact absurd ⟨i, by rw [first]; trivial⟩ held
    · exact absurd ⟨i, by rw [second]; trivial⟩ held

theorem Table.Sound.progress (several : 2 ≤ NUM) {table : Table NUM} (sound : table.Sound) :
    (∀ i, table.place i = .returned) ∨ ∃ i after, sophi table i = some after := by
  by_cases finished : ∀ i, table.place i = .returned
  · exact Or.inl finished
  right
  rcases not_forall.mp finished with ⟨i, running⟩
  by_cases resting : ∀ j, table.place j = .returned ∨ (table.place j).Waits
  · exact sound.exists_sophi_of_all_rest several resting running
  · rcases not_forall.mp resting with ⟨j, awake⟩
    rcases not_or.mp awake with ⟨runs, free⟩
    exact ⟨j, exists_sophi_of_not_waits table runs free⟩

/-- After every schedule of the threads' steps, no two neighbours eat at the same time, and
some thread can take a step unless all have returned. -/
theorem philo_safe_and_live (several : 2 ≤ NUM) (schedule : List (Fin NUM)) (table : Table NUM)
    (run : runAll sophi (mainTable NUM) schedule = some table) :
    (∀ i, ¬ ((table.place i).Eating ∧ (table.place (next i)).Eating)) ∧
      ((∀ i, table.place i = .returned) ∨ ∃ i after, sophi table i = some after) := by
  have sound : table.Sound := runAll_invariant run sound_mainTable
    (fun _ _ _ holds moved => holds.step several moved)
  exact ⟨sound.not_both_eating, sound.progress several⟩

/-- Of two philosophers one eats and the other waits for `mutex`. -/
theorem philo_two_safe_and_live : ∃ table,
    runAll sophi (mainTable 2) [0, 0, 0, 0, 1, 0] = some table ∧ (table.place 0).Eating ∧
      ¬ (table.place 1).Eating ∧ ∃ i after, sophi table i = some after := by
  refine ⟨_, rfl, Or.inr rfl, ?_, ?_⟩
  · exact fun other =>
      (philo_safe_and_live (Nat.le_refl 2) [0, 0, 0, 0, 1, 0] _ rfl).1 0 ⟨Or.inr rfl, other⟩
  · rcases (philo_safe_and_live (Nat.le_refl 2) [0, 0, 0, 0, 1, 0] _ rfl).2 with all | moves
    · exact absurd (all 0) (by decide)
    · exact moves

end OsCompiler.Philo
