/-
Producer and consumer of `pc.c` around one ring buffer, for any buffer size, any
number of items and any interleaving of their semaphore operations.

`Full` and `Empty` count what is in the buffer up to the operations each thread is
just in between: an item is counted by neither from its store to the post of `Full`,
and a free slot by neither from the wait on `Empty` to its store.
-/

import Mathlib.Logic.Function.Basic
import OsCompiler.Lib.Semaphore
import OsCompiler.Lib.Transition

namespace OsCompiler.Pc

open OsCompiler.Semaphore OsCompiler.Transition

inductive ProducerPlace
  | whileTest
  | waitingEmpty
  | waitingMutex
  | pushing
  | postingFull
  | postingMutex
  | returned
  deriving DecidableEq

inductive ConsumerPlace
  | whileTest
  | waitingFull
  | waitingMutex
  | consuming
  | postingEmpty
  | postingMutex
  | returned
  deriving DecidableEq

variable {MAX : Nat}

structure Producer (MAX : Nat) where
  place : ProducerPlace
  i : Nat
  inPos : Fin MAX

/-- `consumed` lists the values printed so far. -/
structure Consumer (MAX : Nat) where
  place : ConsumerPlace
  j : Nat
  outPos : Fin MAX
  consumed : List Int

structure System (MAX : Nat) where
  full : Nat
  empty : Nat
  mutex : Nat
  buf : Fin MAX → Int
  producer : Producer MAX
  consumer : Consumer MAX

def mainSystem (positive : 0 < MAX) : System MAX where
  full := 0
  empty := MAX
  mutex := 1
  buf _ := -1
  producer := ⟨.whileTest, 0, ⟨0, positive⟩⟩
  consumer := ⟨.whileTest, 0, ⟨0, positive⟩, []⟩

def advance (pos : Fin MAX) : Fin MAX := ⟨(pos.val + 1) % MAX, Nat.mod_lt _ pos.pos⟩

def System.producerTo (system : System MAX) (place : ProducerPlace) : System MAX :=
  { system with producer := { system.producer with place := place } }

def System.consumerTo (system : System MAX) (place : ConsumerPlace) : System MAX :=
  { system with consumer := { system.consumer with place := place } }

/-- One step of `Producer`, which makes `items` items (100 in the source). -/
def producerStep (items : Nat) (system : System MAX) : Option (System MAX) :=
  match system.producer.place with
  | .whileTest => some (system.producerTo
      (if system.producer.i < items then .waitingEmpty else .returned))
  | .waitingEmpty => do
      let empty ← semWait system.empty
      pure { system.producerTo .waitingMutex with empty := empty }
  | .waitingMutex => do
      let mutex ← semWait system.mutex
      pure { system.producerTo .pushing with mutex := mutex }
  | .pushing => some { system with
      buf := Function.update system.buf system.producer.inPos system.producer.i
      producer := ⟨.postingFull, system.producer.i + 1, advance system.producer.inPos⟩ }
  | .postingFull => some { system.producerTo .postingMutex with full := semPost system.full }
  | .postingMutex => some { system.producerTo .whileTest with mutex := semPost system.mutex }
  | .returned => none

def consumerStep (items : Nat) (system : System MAX) : Option (System MAX) :=
  match system.consumer.place with
  | .whileTest => some (system.consumerTo
      (if system.consumer.j < items then .waitingFull else .returned))
  | .waitingFull => do
      let full ← semWait system.full
      pure { system.consumerTo .waitingMutex with full := full }
  | .waitingMutex => do
      let mutex ← semWait system.mutex
      pure { system.consumerTo .consuming with mutex := mutex }
  | .consuming => some { system with
      buf := Function.update system.buf system.consumer.outPos (-1)
      consumer := ⟨.postingEmpty, system.consumer.j + 1, advance system.consumer.outPos,
        system.consumer.consumed ++ [system.buf system.consumer.outPos]⟩ }
  | .postingEmpty => some { system.consumerTo .postingMutex with empty := semPost system.empty }
  | .postingMutex => some { system.consumerTo .whileTest with mutex := semPost system.mutex }
  | .returned => none

inductive Thread
  | producer
  | consumer
  deriving DecidableEq

def step (items : Nat) (system : System MAX) : Thread → Option (System MAX)
  | .producer => producerStep items system
  | .consumer => consumerStep items system

/-! ### The invariant -/

def ProducerPlace.inMutex : ProducerPlace → Prop
  | .pushing | .postingFull | .postingMutex => True
  | _ => False

def ConsumerPlace.inMutex : ConsumerPlace → Prop
  | .consuming | .postingEmpty | .postingMutex => True
  | _ => False

def System.InMutex (system : System MAX) : Thread → Prop
  | .producer => system.producer.place.inMutex
  | .consumer => system.consumer.place.inMutex

/-- A free slot that the producer has waited for and not filled yet. -/
def ProducerPlace.claimsSlot : ProducerPlace → Nat
  | .waitingMutex | .pushing => 1
  | _ => 0

/-- An item that the producer has stored and not posted yet. -/
def ProducerPlace.owesItem : ProducerPlace → Nat
  | .postingFull => 1
  | _ => 0

def ConsumerPlace.claimsItem : ConsumerPlace → Nat
  | .waitingMutex | .consuming => 1
  | _ => 0

def ConsumerPlace.owesSlot : ConsumerPlace → Nat
  | .postingEmpty => 1
  | _ => 0

def slot (positive : 0 < MAX) (k : Nat) : Fin MAX := ⟨k % MAX, Nat.mod_lt k positive⟩

structure System.Sound (positive : 0 < MAX) (items : Nat) (system : System MAX) : Prop where
  mutexGuards : Guards system.mutex system.InMutex
  itemsCounted : system.full + system.consumer.place.claimsItem +
    system.producer.place.owesItem + system.consumer.j = system.producer.i
  slotsCounted : system.empty + system.producer.place.claimsSlot +
    system.consumer.place.owesSlot + system.producer.i = MAX + system.consumer.j
  inAtItem : system.producer.inPos = slot positive system.producer.i
  outAtItem : system.consumer.outPos = slot positive system.consumer.j
  stored : ∀ k, system.consumer.j ≤ k → k < system.producer.i →
    system.buf (slot positive k) = k
  consumed : system.consumer.consumed = (List.range system.consumer.j).map Int.ofNat
  producing : system.producer.place = .waitingEmpty → system.producer.i < items
  producedAll : system.producer.place = .returned → items ≤ system.producer.i
  consuming : system.consumer.place = .waitingFull → system.consumer.j < items
  consumedAll : system.consumer.place = .returned → items ≤ system.consumer.j

theorem sound_mainSystem (positive : 0 < MAX) (items : Nat) :
    (mainSystem positive).Sound positive items where
  mutexGuards := Guards.initial fun thread => by cases thread <;> exact id
  itemsCounted := rfl
  slotsCounted := rfl
  inAtItem := by simp [mainSystem, slot]
  outAtItem := by simp [mainSystem, slot]
  stored k _ below := absurd below (Nat.not_lt_zero k)
  consumed := rfl
  producing waiting := by simp [mainSystem] at waiting
  producedAll returned := by simp [mainSystem] at returned
  consuming waiting := by simp [mainSystem] at waiting
  consumedAll returned := by simp [mainSystem] at returned

theorem inMutex_producerTo (system : System MAX) (place : ProducerPlace) (other : Thread)
    (different : other ≠ .producer) :
    (system.producerTo place).InMutex other ↔ system.InMutex other := by
  cases other with
  | producer => exact absurd rfl different
  | consumer => exact Iff.rfl

theorem inMutex_consumerTo (system : System MAX) (place : ConsumerPlace) (other : Thread)
    (different : other ≠ .consumer) :
    (system.consumerTo place).InMutex other ↔ system.InMutex other := by
  cases other with
  | producer => exact Iff.rfl
  | consumer => exact absurd rfl different

private theorem advance_slot (positive : 0 < MAX) (k : Nat) :
    advance (slot positive k) = slot positive (k + 1) := by
  apply Fin.ext
  simp [advance, slot, Nat.add_mod]

/-- Two items less than a buffer apart are in different slots. -/
theorem slot_ne (positive : 0 < MAX) {earlier later : Nat} (before : earlier < later)
    (near : later < earlier + MAX) : slot positive later ≠ slot positive earlier := by
  intro same
  have equal : later % MAX = earlier % MAX := congrArg Fin.val same
  have zero := Nat.sub_mod_eq_zero_of_mod_eq equal
  rw [Nat.mod_eq_of_lt (by omega)] at zero
  omega

/-! ### One step

Most steps move one thread's place and one semaphore. They keep the two counts when what
the semaphore gains is what the new place no longer stands for. -/

variable {positive : 0 < MAX} {items : Nat} {before after : System MAX}

theorem System.Sound.producer_moved (sound : before.Sound positive items)
    (place : ProducerPlace) (full empty mutex : Nat)
    (mutexGuards : Guards mutex (before.producerTo place).InMutex)
    (itemsKept : full + place.owesItem = before.full + before.producer.place.owesItem)
    (slotsKept : empty + place.claimsSlot = before.empty + before.producer.place.claimsSlot)
    (producing : place = .waitingEmpty → before.producer.i < items)
    (producedAll : place = .returned → items ≤ before.producer.i) :
    ({ before.producerTo place with full := full, empty := empty, mutex := mutex } :
      System MAX).Sound positive items := by
  have itemsCounted := sound.itemsCounted
  have slotsCounted := sound.slotsCounted
  exact {
    mutexGuards := mutexGuards
    itemsCounted := by
      dsimp only [System.producerTo]
      omega
    slotsCounted := by
      dsimp only [System.producerTo]
      omega
    inAtItem := sound.inAtItem
    outAtItem := sound.outAtItem
    stored := sound.stored
    consumed := sound.consumed
    producing := producing
    producedAll := producedAll
    consuming := sound.consuming
    consumedAll := sound.consumedAll }

theorem System.Sound.consumer_moved (sound : before.Sound positive items)
    (place : ConsumerPlace) (full empty mutex : Nat)
    (mutexGuards : Guards mutex (before.consumerTo place).InMutex)
    (itemsKept : full + place.claimsItem = before.full + before.consumer.place.claimsItem)
    (slotsKept : empty + place.owesSlot = before.empty + before.consumer.place.owesSlot)
    (consuming : place = .waitingFull → before.consumer.j < items)
    (consumedAll : place = .returned → items ≤ before.consumer.j) :
    ({ before.consumerTo place with full := full, empty := empty, mutex := mutex } :
      System MAX).Sound positive items := by
  have itemsCounted := sound.itemsCounted
  have slotsCounted := sound.slotsCounted
  exact {
    mutexGuards := mutexGuards
    itemsCounted := by
      dsimp only [System.consumerTo]
      omega
    slotsCounted := by
      dsimp only [System.consumerTo]
      omega
    inAtItem := sound.inAtItem
    outAtItem := sound.outAtItem
    stored := sound.stored
    consumed := sound.consumed
    producing := sound.producing
    producedAll := sound.producedAll
    consuming := consuming
    consumedAll := consumedAll }

/-- The store goes to a slot that no unconsumed item is in. -/
theorem System.Sound.pushing (sound : before.Sound positive items)
    (atPlace : before.producer.place = .pushing) :
    ({ before with
      buf := Function.update before.buf before.producer.inPos before.producer.i
      producer := ⟨.postingFull, before.producer.i + 1, advance before.producer.inPos⟩ } :
        System MAX).Sound positive items := by
  have itemsCounted := sound.itemsCounted
  have slotsCounted := sound.slotsCounted
  rw [atPlace] at itemsCounted slotsCounted
  simp only [ProducerPlace.owesItem, ProducerPlace.claimsSlot] at itemsCounted slotsCounted
  exact {
    mutexGuards := by
      apply sound.mutexGuards.move _ (inMutex_producerTo before .postingFull)
      show True ↔ before.producer.place.inMutex
      rw [atPlace]
      rfl
    itemsCounted := by
      simp only [ProducerPlace.owesItem]
      omega
    slotsCounted := by
      simp only [ProducerPlace.claimsSlot]
      omega
    inAtItem := by
      dsimp only
      rw [sound.inAtItem, advance_slot]
    outAtItem := sound.outAtItem
    stored := by
      intro k unconsumed produced
      dsimp only at unconsumed produced ⊢
      rw [sound.inAtItem]
      rcases Nat.lt_succ_iff_lt_or_eq.mp produced with earlier | last
      · have apart : slot positive k ≠ slot positive before.producer.i :=
          (slot_ne positive earlier (by omega)).symm
        rw [Function.update_of_ne apart]
        exact sound.stored k unconsumed earlier
      · rw [last, Function.update_self]
    consumed := sound.consumed
    producing := by
      intro impossible
      cases impossible
    producedAll := by
      intro impossible
      cases impossible
    consuming := sound.consuming
    consumedAll := sound.consumedAll }

/-- The slot read holds the next item in order, and no other unconsumed item is cleared. -/
theorem System.Sound.consuming_item (sound : before.Sound positive items)
    (atPlace : before.consumer.place = .consuming) :
    ({ before with
      buf := Function.update before.buf before.consumer.outPos (-1)
      consumer := ⟨.postingEmpty, before.consumer.j + 1, advance before.consumer.outPos,
        before.consumer.consumed ++ [before.buf before.consumer.outPos]⟩ } :
        System MAX).Sound positive items := by
  have itemsCounted := sound.itemsCounted
  have slotsCounted := sound.slotsCounted
  rw [atPlace] at itemsCounted slotsCounted
  simp only [ConsumerPlace.claimsItem, ConsumerPlace.owesSlot] at itemsCounted slotsCounted
  exact {
    mutexGuards := by
      apply sound.mutexGuards.move _ (inMutex_consumerTo before .postingEmpty)
      show True ↔ before.consumer.place.inMutex
      rw [atPlace]
      rfl
    itemsCounted := by
      simp only [ConsumerPlace.claimsItem]
      omega
    slotsCounted := by
      simp only [ConsumerPlace.owesSlot]
      omega
    inAtItem := sound.inAtItem
    outAtItem := by
      dsimp only
      rw [sound.outAtItem, advance_slot]
    stored := by
      intro k unconsumed produced
      dsimp only at unconsumed produced ⊢
      have apart : slot positive k ≠ slot positive before.consumer.j :=
        slot_ne positive (by omega) (by omega)
      rw [sound.outAtItem, Function.update_of_ne apart]
      exact sound.stored k (by omega) produced
    consumed := by
      dsimp only
      rw [sound.outAtItem, sound.stored before.consumer.j (Nat.le_refl _) (by omega),
        sound.consumed, List.range_succ, List.map_append]
      rfl
    producing := sound.producing
    producedAll := sound.producedAll
    consuming := by
      intro impossible
      cases impossible
    consumedAll := by
      intro impossible
      cases impossible }

theorem System.Sound.producer_step (sound : before.Sound positive items)
    (moved : producerStep items before = some after) : after.Sound positive items := by
  have guards := sound.mutexGuards
  unfold producerStep at moved
  split at moved
  case h_1 atPlace =>
      cases moved
      refine sound.producer_moved (if before.producer.i < items then .waitingEmpty else .returned)
        before.full before.empty before.mutex (guards.move ?_ (inMutex_producerTo before _)) ?_ ?_ ?_ ?_
      · show ProducerPlace.inMutex _ ↔ before.producer.place.inMutex
        rw [atPlace]
        split <;> rfl
      · rw [atPlace]
        split <;> rfl
      · rw [atPlace]
        split <;> rfl
      · intro waiting
        by_contra finished
        rw [if_neg finished] at waiting
        cases waiting
      · intro returned
        by_contra unfinished
        rw [if_pos (Nat.lt_of_not_le unfinished)] at returned
        cases returned
  case h_2 atPlace =>
      rcases Option.bind_eq_some_iff.mp moved with ⟨empty, waited, finished⟩
      cases finished
      refine sound.producer_moved .waitingMutex before.full empty before.mutex
        (guards.move ?_ (inMutex_producerTo before _)) ?_ ?_ nofun nofun
      · show False ↔ before.producer.place.inMutex
        rw [atPlace]
        rfl
      · rw [atPlace]
        rfl
      · rw [atPlace, semWait_eq_some.mp waited]
        rfl
  case h_3 atPlace =>
      rcases Option.bind_eq_some_iff.mp moved with ⟨mutex, waited, finished⟩
      cases finished
      rw [semWait_eq_some.mp waited] at guards
      have entered : (before.producerTo .pushing).InMutex .producer := trivial
      refine sound.producer_moved .pushing before.full before.empty mutex
        (guards.enter entered (inMutex_producerTo before _)) ?_ ?_ nofun nofun
      · rw [atPlace]
        rfl
      · rw [atPlace]
        rfl
  case h_4 atPlace =>
      cases moved
      exact sound.pushing atPlace
  case h_5 atPlace =>
      cases moved
      refine sound.producer_moved .postingMutex (semPost before.full) before.empty before.mutex
        (guards.move ?_ (inMutex_producerTo before _)) ?_ ?_ nofun nofun
      · show True ↔ before.producer.place.inMutex
        rw [atPlace]
        rfl
      · rw [atPlace]
        rfl
      · rw [atPlace]
        rfl
  case h_6 atPlace =>
      cases moved
      have inside : before.InMutex .producer := by
        show before.producer.place.inMutex
        rw [atPlace]
        trivial
      refine sound.producer_moved .whileTest before.full before.empty (semPost before.mutex)
        (guards.leave inside id (inMutex_producerTo before _)) ?_ ?_ nofun nofun
      · rw [atPlace]
        rfl
      · rw [atPlace]
        rfl
  case h_7 => cases moved

theorem System.Sound.consumer_step (sound : before.Sound positive items)
    (moved : consumerStep items before = some after) : after.Sound positive items := by
  have guards := sound.mutexGuards
  unfold consumerStep at moved
  split at moved
  case h_1 atPlace =>
      cases moved
      refine sound.consumer_moved (if before.consumer.j < items then .waitingFull else .returned)
        before.full before.empty before.mutex (guards.move ?_ (inMutex_consumerTo before _)) ?_ ?_ ?_ ?_
      · show ConsumerPlace.inMutex _ ↔ before.consumer.place.inMutex
        rw [atPlace]
        split <;> rfl
      · rw [atPlace]
        split <;> rfl
      · rw [atPlace]
        split <;> rfl
      · intro waiting
        by_contra finished
        rw [if_neg finished] at waiting
        cases waiting
      · intro returned
        by_contra unfinished
        rw [if_pos (Nat.lt_of_not_le unfinished)] at returned
        cases returned
  case h_2 atPlace =>
      rcases Option.bind_eq_some_iff.mp moved with ⟨full, waited, finished⟩
      cases finished
      refine sound.consumer_moved .waitingMutex full before.empty before.mutex
        (guards.move ?_ (inMutex_consumerTo before _)) ?_ ?_ nofun nofun
      · show False ↔ before.consumer.place.inMutex
        rw [atPlace]
        rfl
      · rw [atPlace, semWait_eq_some.mp waited]
        rfl
      · rw [atPlace]
        rfl
  case h_3 atPlace =>
      rcases Option.bind_eq_some_iff.mp moved with ⟨mutex, waited, finished⟩
      cases finished
      rw [semWait_eq_some.mp waited] at guards
      have entered : (before.consumerTo .consuming).InMutex .consumer := trivial
      refine sound.consumer_moved .consuming before.full before.empty mutex
        (guards.enter entered (inMutex_consumerTo before _)) ?_ ?_ nofun nofun
      · rw [atPlace]
        rfl
      · rw [atPlace]
        rfl
  case h_4 atPlace =>
      cases moved
      exact sound.consuming_item atPlace
  case h_5 atPlace =>
      cases moved
      refine sound.consumer_moved .postingMutex before.full (semPost before.empty) before.mutex
        (guards.move ?_ (inMutex_consumerTo before _)) ?_ ?_ nofun nofun
      · show True ↔ before.consumer.place.inMutex
        rw [atPlace]
        rfl
      · rw [atPlace]
        rfl
      · rw [atPlace]
        rfl
  case h_6 atPlace =>
      cases moved
      have inside : before.InMutex .consumer := by
        show before.consumer.place.inMutex
        rw [atPlace]
        trivial
      refine sound.consumer_moved .whileTest before.full before.empty (semPost before.mutex)
        (guards.leave inside id (inMutex_consumerTo before _)) ?_ ?_ nofun nofun
      · rw [atPlace]
        rfl
      · rw [atPlace]
        rfl
  case h_7 => cases moved

theorem System.Sound.step (sound : before.Sound positive items) {thread : Thread}
    (moved : Pc.step items before thread = some after) : after.Sound positive items := by
  cases thread with
  | producer => exact sound.producer_step moved
  | consumer => exact sound.consumer_step moved

/-! ### Progress -/

def ProducerPlace.Waits (place : ProducerPlace) : Prop :=
  place = .waitingEmpty ∨ place = .waitingMutex ∨ place = .returned

def ConsumerPlace.Waits (place : ConsumerPlace) : Prop :=
  place = .waitingFull ∨ place = .waitingMutex ∨ place = .returned

private theorem exists_producerStep (items : Nat) (system : System MAX)
    (awake : ¬ system.producer.place.Waits) : ∃ after, producerStep items system = some after := by
  unfold producerStep
  split
  case h_1 => exact ⟨_, rfl⟩
  case h_2 atPlace => exact absurd (Or.inl atPlace) awake
  case h_3 atPlace => exact absurd (Or.inr (Or.inl atPlace)) awake
  case h_4 => exact ⟨_, rfl⟩
  case h_5 => exact ⟨_, rfl⟩
  case h_6 => exact ⟨_, rfl⟩
  case h_7 atPlace => exact absurd (Or.inr (Or.inr atPlace)) awake

private theorem exists_consumerStep (items : Nat) (system : System MAX)
    (awake : ¬ system.consumer.place.Waits) : ∃ after, consumerStep items system = some after := by
  unfold consumerStep
  split
  case h_1 => exact ⟨_, rfl⟩
  case h_2 atPlace => exact absurd (Or.inl atPlace) awake
  case h_3 atPlace => exact absurd (Or.inr (Or.inl atPlace)) awake
  case h_4 => exact ⟨_, rfl⟩
  case h_5 => exact ⟨_, rfl⟩
  case h_6 => exact ⟨_, rfl⟩
  case h_7 atPlace => exact absurd (Or.inr (Or.inr atPlace)) awake

theorem System.Sound.progress (sound : before.Sound positive items) :
    (before.producer.place = .returned ∧ before.consumer.place = .returned) ∨
      ∃ thread after, Pc.step items before thread = some after := by
  by_cases producerWaits : before.producer.place.Waits
  case neg =>
      rcases exists_producerStep items before producerWaits with ⟨after, moved⟩
      exact Or.inr ⟨.producer, after, moved⟩
  by_cases consumerWaits : before.consumer.place.Waits
  case neg =>
      rcases exists_consumerStep items before consumerWaits with ⟨after, moved⟩
      exact Or.inr ⟨.consumer, after, moved⟩
  -- Neither is in its section, so the mutex is free and only the counts can block.
  have free : before.mutex = 1 := by
    apply sound.mutexGuards.value_eq_one
    intro thread inside
    cases thread with
    | producer =>
        change before.producer.place.inMutex at inside
        rcases producerWaits with place | place | place <;> rw [place] at inside <;> exact inside
    | consumer =>
        change before.consumer.place.inMutex at inside
        rcases consumerWaits with place | place | place <;> rw [place] at inside <;> exact inside
  by_cases producerLocks : before.producer.place = .waitingMutex
  case pos =>
      exact Or.inr ⟨.producer, _, by simp only [Pc.step, producerStep, producerLocks, free]; rfl⟩
  by_cases consumerLocks : before.consumer.place = .waitingMutex
  case pos =>
      exact Or.inr ⟨.consumer, _, by simp only [Pc.step, consumerStep, consumerLocks, free]; rfl⟩
  have itemsCounted := sound.itemsCounted
  have slotsCounted := sound.slotsCounted
  have consumerStuck (waiting : before.consumer.place = .waitingFull)
      (available : 0 < before.full) : ∃ thread after, Pc.step items before thread = some after := by
    rcases exists_semWait available with ⟨full, waited⟩
    exact ⟨.consumer, _, by simp only [Pc.step, consumerStep, waiting, waited]; rfl⟩
  rcases producerWaits with producing | locking | produced
  · by_cases available : 0 < before.empty
    · rcases exists_semWait available with ⟨empty, waited⟩
      exact Or.inr ⟨.producer, _, by simp only [Pc.step, producerStep, producing, waited]; rfl⟩
    · have more := sound.producing producing
      -- The buffer is full, so the consumer is not through and finds an item.
      rcases consumerWaits with consuming | locking | consumed
      · rw [producing, consuming] at itemsCounted slotsCounted
        simp only [ProducerPlace.owesItem, ProducerPlace.claimsSlot, ConsumerPlace.claimsItem,
          ConsumerPlace.owesSlot] at itemsCounted slotsCounted
        exact Or.inr (consumerStuck consuming (by omega))
      · exact absurd locking consumerLocks
      · have all := sound.consumedAll consumed
        rw [producing, consumed] at slotsCounted
        simp only [ProducerPlace.claimsSlot, ConsumerPlace.owesSlot] at slotsCounted
        omega
  · exact absurd locking producerLocks
  · rcases consumerWaits with consuming | locking | consumed
    · have all := sound.producedAll produced
      have more := sound.consuming consuming
      rw [produced, consuming] at itemsCounted
      simp only [ProducerPlace.owesItem, ConsumerPlace.claimsItem] at itemsCounted
      exact Or.inr (consumerStuck consuming (by omega))
    · exact absurd locking consumerLocks
    · exact Or.inl ⟨produced, consumed⟩

/-- After every schedule, the values consumed are 0, 1, 2, … in this order and the items
behind them still lie in the buffer, the two sections are exclusive, and one of the threads
can take a step unless both have returned. -/
theorem pc_in_order_and_live (positive : 0 < MAX) (items : Nat) (schedule : List Thread)
    (system : System MAX)
    (run : runAll (step items) (mainSystem positive) schedule = some system) :
    (system.consumer.consumed = (List.range system.consumer.j).map Int.ofNat ∧
      ∀ k, system.consumer.j ≤ k → k < system.producer.i →
        system.buf (slot positive k) = k) ∧
      ¬ (system.InMutex .producer ∧ system.InMutex .consumer) ∧
      ((system.producer.place = .returned ∧ system.consumer.place = .returned) ∨
        ∃ thread after, step items system thread = some after) := by
  have sound : system.Sound positive items := runAll_invariant run
    (sound_mainSystem positive items) (fun _ _ _ holds moved => holds.step moved)
  refine ⟨⟨sound.consumed, sound.stored⟩, ?_, sound.progress⟩
  intro both
  have same := sound.mutexGuards.atMostOne _ _ both.1 both.2
  cases same

/-- A buffer of one slot: one item through, the second one waits for the slot. -/
theorem pc_one_slot_in_order : ∃ system : System 1,
    runAll (step 2) (mainSystem Nat.one_pos) [.producer, .producer, .producer, .producer,
      .producer, .producer, .consumer, .consumer, .consumer, .consumer, .producer] =
        some system ∧
      system.consumer.consumed = [0] ∧ ∃ thread after, step 2 system thread = some after := by
  refine ⟨_, rfl, ?_, ?_⟩
  · exact (pc_in_order_and_live Nat.one_pos 2 [.producer, .producer, .producer, .producer,
      .producer, .producer, .consumer, .consumer, .consumer, .consumer, .producer] _ rfl).1.1
  · rcases (pc_in_order_and_live Nat.one_pos 2 [.producer, .producer, .producer, .producer,
      .producer, .producer, .consumer, .consumer, .consumer, .consumer, .producer] _ rfl).2.2
      with both | moves
    · exact absurd both.1 (by decide)
    · exact moves

end OsCompiler.Pc
