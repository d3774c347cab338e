/-
The bounded buffer `sbuf_t` of `csapp.c`, shared by any number of threads that call
`sbuf_insert` and any number that call `sbuf_remove`.

`rear` and `front` count up without ever being reduced modulo `n`, so an insertion when
`rear` is the largest `int` is outside of what C defines. The model stops there.
-/

import Mathlib.Data.List.Infix
import OsCompiler.Lib.Countdown
import OsCompiler.Lib.Semaphore

namespace OsCompiler.Sbuf

open OsCompiler.Semaphore OsCompiler.Transition OsCompiler.Countdown

def INT_MAX : Nat := 2147483647

/-- How far a thread is in `sbuf_insert`: each place is in front of the operation it names
and carries the argument as long as it is needed. -/
inductive InsertPlace
  | idle
  | waitingSlots (item : Int)
  | waitingMutex (item : Int)
  | storing (item : Int)
  | postingMutex
  | postingItems
  deriving DecidableEq

inductive RemovePlace
  | idle
  | waitingItems
  | waitingMutex
  | taking
  | postingMutex (rt : Int)
  | postingSlots (rt : Int)
  deriving DecidableEq

/-- `calls` are the arguments of the insertions still to be called. -/
structure Inserter where
  place : InsertPlace
  calls : List Int
  deriving DecidableEq

/-- `calls` is the number of removals still to be called, `returned` lists what the earlier
ones returned. -/
structure Remover where
  place : RemovePlace
  calls : Nat
  returned : List Int
  deriving DecidableEq

variable {n : Nat} {Inserting Removing : Type} [DecidableEq Inserting] [DecidableEq Removing]

/-- The buffer and its threads. `stored` and `taken` record the accesses to `buf` in their
order and the threads that made them. -/
structure System (n : Nat) (Inserting Removing : Type) where
  buf : Fin n → Int
  front : Nat
  rear : Nat
  mutex : Nat
  slots : Nat
  items : Nat
  overflowed : Bool
  inserter : Inserting → Inserter
  remover : Removing → Remover
  stored : List (Inserting × Int)
  taken : List (Removing × Int)

def sbufInit (n : Nat) (work : Inserting → List Int) (wanted : Removing → Nat) :
    System n Inserting Removing where
  buf _ := 0
  front := 0
  rear := 0
  mutex := 1
  slots := n
  items := 0
  overflowed := false
  inserter thread := ⟨.idle, work thread⟩
  remover thread := ⟨.idle, wanted thread, []⟩
  stored := []
  taken := []

def slot (positive : 0 < n) (count : Nat) : Fin n := ⟨count % n, Nat.mod_lt count positive⟩

def System.setInserter (system : System n Inserting Removing) (thread : Inserting)
    (place : InsertPlace) (calls : List Int) : System n Inserting Removing :=
  { system with inserter := Function.update system.inserter thread ⟨place, calls⟩ }

def System.setRemover (system : System n Inserting Removing) (thread : Removing)
    (remover : Remover) : System n Inserting Removing :=
  { system with remover := Function.update system.remover thread remover }

def sbufInsert (positive : 0 < n) (system : System n Inserting Removing) (thread : Inserting) :
    Option (System n Inserting Removing) :=
  let calls := (system.inserter thread).calls
  match (system.inserter thread).place with
  | .idle =>
      match calls with
      | [] => none
      | item :: later => some (system.setInserter thread (.waitingSlots item) later)
  | .waitingSlots item => do
      let slots ← semWait system.slots
      pure { system.setInserter thread (.waitingMutex item) calls with slots := slots }
  | .waitingMutex item => do
      let mutex ← semWait system.mutex
      pure { system.setInserter thread (.storing item) calls with mutex := mutex }
  | .storing item =>
      if system.rear < INT_MAX then
        some { system.setInserter thread .postingMutex calls with
          rear := system.rear + 1
          buf := Function.update system.buf (slot positive (system.rear + 1)) item
          stored := system.stored ++ [(thread, item)] }
      else
        some { system.setInserter thread .postingMutex calls with overflowed := true }
  | .postingMutex =>
      some { system.setInserter thread .postingItems calls with mutex := semPost system.mutex }
  | .postingItems =>
      some { system.setInserter thread .idle calls with items := semPost system.items }

def sbufRemove (positive : 0 < n) (system : System n Inserting Removing) (thread : Removing) :
    Option (System n Inserting Removing) :=
  let remover := system.remover thread
  match remover.place with
  | .idle =>
      match remover.calls with
      | 0 => none
      | calls + 1 => some (system.setRemover thread ⟨.waitingItems, calls, remover.returned⟩)
  | .waitingItems => do
      let items ← semWait system.items
      pure { system.setRemover thread { remover with place := .waitingMutex } with
        items := items }
  | .waitingMutex => do
      let mutex ← semWait system.mutex
      pure { system.setRemover thread { remover with place := .taking } with mutex := mutex }
  | .taking =>
      if system.front < INT_MAX then
        let rt := system.buf (slot positive (system.front + 1))
        some { system.setRemover thread { remover with place := .postingMutex rt } with
          front := system.front + 1
          taken := system.taken ++ [(thread, rt)] }
      else
        some { system.setRemover thread { remover with place := .postingMutex 0 } with
          overflowed := true }
  | .postingMutex rt =>
      some { system.setRemover thread { remover with place := .postingSlots rt } with
        mutex := semPost system.mutex }
  | .postingSlots rt =>
      some { system.setRemover thread ⟨.idle, remover.calls, remover.returned ++ [rt]⟩ with
        slots := semPost system.slots }

/-- Nothing is said about what follows an overflow. -/
def step (positive : 0 < n) (system : System n Inserting Removing) :
    Inserting ⊕ Removing → Option (System n Inserting Removing)
  | .inl thread => if system.overflowed then none else sbufInsert positive system thread
  | .inr thread => if system.overflowed then none else sbufRemove positive system thread

/-! ### What each place stands for -/

def InsertPlace.inMutex : InsertPlace → Prop
  | .storing _ | .postingMutex => True
  | _ => False

def RemovePlace.inMutex : RemovePlace → Prop
  | .taking | .postingMutex _ => True
  | _ => False

def InMutex (inserter : Inserting → Inserter) (remover : Removing → Remover) :
    Inserting ⊕ Removing → Prop
  | .inl thread => (inserter thread).place.inMutex
  | .inr thread => (remover thread).place.inMutex

/-- A free slot that was waited for and not filled yet. -/
def InsertPlace.claimsSlot : InsertPlace → Nat
  | .waitingMutex _ | .storing _ => 1
  | _ => 0

/-- An item that was stored and not posted yet. -/
def InsertPlace.owesItem : InsertPlace → Nat
  | .postingMutex | .postingItems => 1
  | _ => 0

def RemovePlace.claimsItem : RemovePlace → Nat
  | .waitingMutex | .taking => 1
  | _ => 0

def RemovePlace.owesSlot : RemovePlace → Nat
  | .postingMutex _ | .postingSlots _ => 1
  | _ => 0

def InsertPlace.unstored : InsertPlace → List Int
  | .waitingSlots item | .waitingMutex item | .storing item => [item]
  | _ => []

def RemovePlace.holding : RemovePlace → List Int
  | .postingMutex rt | .postingSlots rt => [rt]
  | _ => []

def RemovePlace.untaken : RemovePlace → Nat
  | .waitingItems | .waitingMutex | .taking => 1
  | _ => 0

def Inserter.pending (inserter : Inserter) : List Int := inserter.place.unstored ++ inserter.calls

def Remover.due (remover : Remover) : Nat := remover.place.untaken + remover.calls

def Remover.received (remover : Remover) : List Int := remover.returned ++ remover.place.holding

def ofThread {Mover : Type} [DecidableEq Mover] (thread : Mover) (moved : List (Mover × Int)) :
    List Int :=
  (moved.filter fun entry => decide (entry.1 = thread)).map Prod.snd

private theorem ofThread_snoc_self {Mover : Type} [DecidableEq Mover] (thread : Mover)
    (moved : List (Mover × Int)) (item : Int) :
    ofThread thread (moved ++ [(thread, item)]) = ofThread thread moved ++ [item] := by
  simp [ofThread]

private theorem ofThread_snoc_other {Mover : Type} [DecidableEq Mover] {thread other : Mover}
    (different : other ≠ thread) (moved : List (Mover × Int)) (item : Int) :
    ofThread thread (moved ++ [(other, item)]) = ofThread thread moved := by
  simp [ofThread, different]

omit [DecidableEq Removing] in
theorem inMutex_setInserter {inserter : Inserting → Inserter} {remover : Removing → Remover}
    {thread : Inserting} {next : Inserter} (other : Inserting ⊕ Removing)
    (different : other ≠ .inl thread) :
    InMutex (Function.update inserter thread next) remover other ↔
      InMutex inserter remover other := by
  cases other with
  | inl other =>
      have apart : other ≠ thread := fun same => different (congrArg Sum.inl same)
      simp only [InMutex, Function.update_of_ne apart]
  | inr other => exact Iff.rfl

omit [DecidableEq Inserting] in
theorem inMutex_setRemover {inserter : Inserting → Inserter} {remover : Removing → Remover}
    {thread : Removing} {next : Remover} (other : Inserting ⊕ Removing)
    (different : other ≠ .inr thread) :
    InMutex inserter (Function.update remover thread next) other ↔
      InMutex inserter remover other := by
  cases other with
  | inl other => exact Iff.rfl
  | inr other =>
      have apart : other ≠ thread := fun same => different (congrArg Sum.inr same)
      simp only [InMutex, Function.update_of_ne apart]

section Invariant

variable [Fintype Inserting] [Fintype Removing]

structure System.Sound (positive : 0 < n) (work : Inserting → List Int) (wanted : Removing → Nat)
    (system : System n Inserting Removing) : Prop where
  mutexGuards : Guards system.mutex (InMutex system.inserter system.remover)
  itemsCounted : system.items + (∑ thread, (system.remover thread).place.claimsItem) +
    (∑ thread, (system.inserter thread).place.owesItem) + system.taken.length =
      system.stored.length
  slotsCounted : system.slots + (∑ thread, (system.inserter thread).place.claimsSlot) +
    (∑ thread, (system.remover thread).place.owesSlot) + system.stored.length =
      n + system.taken.length
  rear_eq : system.rear = system.stored.length
  front_eq : system.front = system.taken.length
  within : system.stored.length ≤ INT_MAX
  kept : ∀ k entry, system.taken.length ≤ k → system.stored[k]? = some entry →
    system.buf (slot positive (k + 1)) = entry.2
  inOrder : system.taken.map Prod.snd <+: system.stored.map Prod.snd
  storedBy : ∀ thread, ofThread thread system.stored ++ (system.inserter thread).pending =
    work thread
  takenBy : ∀ thread, ofThread thread system.taken = (system.remover thread).received
  storedTotal : system.stored.length + (∑ thread, (system.inserter thread).pending.length) =
    ∑ thread, (work thread).length
  takenTotal : system.taken.length + (∑ thread, (system.remover thread).due) =
    ∑ thread, wanted thread

variable {positive : 0 < n} {work : Inserting → List Int} {wanted : Removing → Nat}
  {before after : System n Inserting Removing}

theorem sound_sbufInit : (sbufInit n work wanted).Sound positive work wanted where
  mutexGuards := Guards.initial fun thread => by cases thread <;> exact id
  itemsCounted := by simp [sbufInit, RemovePlace.claimsItem, InsertPlace.owesItem]
  slotsCounted := by simp [sbufInit, RemovePlace.owesSlot, InsertPlace.claimsSlot]
  rear_eq := rfl
  front_eq := rfl
  within := Nat.zero_le _
  kept k entry _ found := by simp [sbufInit] at found
  inOrder := List.nil_prefix
  storedBy thread := rfl
  takenBy thread := rfl
  storedTotal := by simp [sbufInit, Inserter.pending, InsertPlace.unstored]
  takenTotal := by simp [sbufInit, Remover.due, RemovePlace.untaken]

/-! ### Steps that leave the buffer alone -/

theorem System.Sound.inserter_moved (sound : before.Sound positive work wanted)
    (thread : Inserting) (place : InsertPlace) (calls : List Int) (slots items mutex : Nat)
    (mutexGuards : Guards mutex
      (InMutex (before.setInserter thread place calls).inserter before.remover))
    (itemsKept : items + place.owesItem =
      before.items + (before.inserter thread).place.owesItem)
    (slotsKept : slots + place.claimsSlot =
      before.slots + (before.inserter thread).place.claimsSlot)
    (pendingKept : place.unstored ++ calls = (before.inserter thread).pending) :
    ({ before.setInserter thread place calls with
      slots := slots, items := items, mutex := mutex } :
        System n Inserting Removing).Sound positive work wanted := by
  have itemsCounted := sound.itemsCounted
  have slotsCounted := sound.slotsCounted
  have storedTotal := sound.storedTotal
  have owed := sum_place_update (fun inserter : Inserter => inserter.place.owesItem)
    before.inserter thread ⟨place, calls⟩
  have claimed := sum_place_update (fun inserter : Inserter => inserter.place.claimsSlot)
    before.inserter thread ⟨place, calls⟩
  have pending := sum_place_update (fun inserter : Inserter => inserter.pending.length)
    before.inserter thread ⟨place, calls⟩
  have samePending : (Inserter.mk place calls).pending = (before.inserter thread).pending :=
    pendingKept
  exact {
    mutexGuards := mutexGuards
    itemsCounted := by
      dsimp only [System.setInserter] at owed ⊢
      omega
    slotsCounted := by
      dsimp only [System.setInserter] at claimed ⊢
      omega
    rear_eq := sound.rear_eq
    front_eq := sound.front_eq
    within := sound.within
    kept := sound.kept
    inOrder := sound.inOrder
    storedBy := by
      intro other
      by_cases same : other = thread
      · subst same
        dsimp only [System.setInserter]
        rw [Function.update_self, samePending]
        exact sound.storedBy other
      · dsimp only [System.setInserter]
        rw [Function.update_of_ne same]
        exact sound.storedBy other
    takenBy := sound.takenBy
    storedTotal := by
      rw [samePending] at pending
      dsimp only [System.setInserter]
      omega
    takenTotal := sound.takenTotal }

theorem System.Sound.remover_moved (sound : before.Sound positive work wanted)
    (thread : Removing) (next : Remover) (slots items mutex : Nat)
    (mutexGuards : Guards mutex
      (InMutex before.inserter (before.setRemover thread next).remover))
    (itemsKept : items + next.place.claimsItem =
      before.items + (before.remover thread).place.claimsItem)
    (slotsKept : slots + next.place.owesSlot =
      before.slots + (before.remover thread).place.owesSlot)
    (receivedKept : next.received = (before.remover thread).received)
    (dueKept : next.due = (before.remover thread).due) :
    ({ before.setRemover thread next with
      slots := slots, items := items, mutex := mutex } :
        System n Inserting Removing).Sound positive work wanted := by
  have itemsCounted := sound.itemsCounted
  have slotsCounted := sound.slotsCounted
  have takenTotal := sound.takenTotal
  have claimed := sum_place_update (fun remover : Remover => remover.place.claimsItem)
    before.remover thread next
  have owed := sum_place_update (fun remover : Remover => remover.place.owesSlot)
    before.remover thread next
  have due := sum_place_update Remover.due before.remover thread next
  exact {
    mutexGuards := mutexGuards
    itemsCounted := by
      dsimp only [System.setRemover] at claimed ⊢
      omega
    slotsCounted := by
      dsimp only [System.setRemover] at owed ⊢
      omega
    rear_eq := sound.rear_eq
    front_eq := sound.front_eq
    within := sound.within
    kept := sound.kept
    inOrder := sound.inOrder
    storedBy := sound.storedBy
    takenBy := by
      intro other
      by_cases same : other = thread
      · subst same
        dsimp only [System.setRemover]
        rw [Function.update_self, receivedKept]
        exact sound.takenBy other
      · dsimp only [System.setRemover]
        rw [Function.update_of_ne same]
        exact sound.takenBy other
    storedTotal := sound.storedTotal
    takenTotal := by
      dsimp only [System.setRemover]
      omega }

/-! ### The two accesses to the buffer -/

/-- Two counts less than a buffer apart are in different slots. -/
theorem slot_ne (positive : 0 < n) {earlier later : Nat} (before : earlier < later)
    (near : later < earlier + n) : slot positive earlier ≠ slot positive later := by
  intro same
  have equal : later % n = earlier % n := (congrArg Fin.val same).symm
  have zero := Nat.sub_mod_eq_zero_of_mod_eq equal
  rw [Nat.mod_eq_of_lt (by omega)] at zero
  omega

private theorem prefix_snoc {taken stored : List Int} {item : Int} (inOrder : taken <+: stored)
    (next : stored[taken.length]? = some item) : taken ++ [item] <+: stored := by
  rw [List.prefix_iff_eq_take] at inOrder ⊢
  obtain ⟨bound, found⟩ := List.getElem?_eq_some_iff.mp next
  rw [List.length_append, List.length_singleton, List.take_add_one, next, ← inOrder]
  rfl

theorem System.Sound.exists_room (sound : before.Sound positive work wanted) {thread : Inserting}
    (claims : (before.inserter thread).place.claimsSlot = 1) :
    before.stored.length + 1 ≤ n + before.taken.length := by
  have slotsCounted := sound.slotsCounted
  have one : (before.inserter thread).place.claimsSlot ≤
      ∑ other, (before.inserter other).place.claimsSlot :=
    Finset.single_le_sum (f := fun other => (before.inserter other).place.claimsSlot)
      (fun _ _ => Nat.zero_le _) (Finset.mem_univ thread)
  omega

/-- A thread about to take finds an item. -/
theorem System.Sound.exists_item (sound : before.Sound positive work wanted) {thread : Removing}
    (claims : (before.remover thread).place.claimsItem = 1) :
    ∃ entry, before.stored[before.taken.length]? = some entry := by
  have itemsCounted := sound.itemsCounted
  have one : (before.remover thread).place.claimsItem ≤
      ∑ other, (before.remover other).place.claimsItem :=
    Finset.single_le_sum (f := fun other => (before.remover other).place.claimsItem)
      (fun _ _ => Nat.zero_le _) (Finset.mem_univ thread)
  have bound : before.taken.length < before.stored.length := by omega
  exact ⟨_, List.getElem?_eq_getElem bound⟩

theorem System.Sound.storing (sound : before.Sound positive work wanted) {thread : Inserting}
    {item : Int} (atPlace : (before.inserter thread).place = .storing item)
    (below : before.rear < INT_MAX) :
    ({ before.setInserter thread .postingMutex (before.inserter thread).calls with
      rear := before.rear + 1
      buf := Function.update before.buf (slot positive (before.rear + 1)) item
      stored := before.stored ++ [(thread, item)] } :
        System n Inserting Removing).Sound positive work wanted := by
  have itemsCounted := sound.itemsCounted
  have slotsCounted := sound.slotsCounted
  have storedTotal := sound.storedTotal
  have room := sound.exists_room (by rw [atPlace]; rfl)
  have owed := sum_place_update (fun inserter : Inserter => inserter.place.owesItem)
    before.inserter thread ⟨.postingMutex, (before.inserter thread).calls⟩
  have claimed := sum_place_update (fun inserter : Inserter => inserter.place.claimsSlot)
    before.inserter thread ⟨.postingMutex, (before.inserter thread).calls⟩
  have pending := sum_place_update (fun inserter : Inserter => inserter.pending.length)
    before.inserter thread ⟨.postingMutex, (before.inserter thread).calls⟩
  have oneMore : (before.inserter thread).pending.length =
      (before.inserter thread).calls.length + 1 := by
    rw [Inserter.pending, atPlace]
    rfl
  dsimp only at owed claimed pending
  rw [atPlace] at owed claimed
  rw [oneMore] at pending
  change _ + 0 = _ + 1 at owed
  change _ + 1 = _ + 0 at claimed
  change _ = _ + (before.inserter thread).calls.length at pending
  exact {
    mutexGuards := by
      apply sound.mutexGuards.move _ inMutex_setInserter
      simp only [InMutex, Function.update_self, atPlace]
      rfl
    itemsCounted := by
      simp only [System.setInserter, List.length_append, List.length_singleton]
      omega
    slotsCounted := by
      simp only [System.setInserter, List.length_append, List.length_singleton]
      omega
    rear_eq := by
      simp only [List.length_append, List.length_singleton]
      rw [sound.rear_eq]
    front_eq := sound.front_eq
    within := by
      have same := sound.rear_eq
      simp only [List.length_append, List.length_singleton]
      omega
    kept := by
      intro k entry untaken found
      dsimp only [System.setInserter] at untaken found ⊢
      have same := sound.rear_eq
      by_cases earlier : k < before.stored.length
      · rw [List.getElem?_append_left earlier] at found
        rw [Function.update_of_ne (slot_ne positive (by omega) (by omega))]
        exact sound.kept k entry untaken found
      · have bound := (List.getElem?_eq_some_iff.mp found).1
        rw [List.length_append, List.length_singleton] at bound
        have last : k = before.stored.length := by omega
        rw [last, List.getElem?_concat_length, Option.some.injEq] at found
        rw [last, sound.rear_eq, Function.update_self, ← found]
    inOrder := by
      dsimp only [System.setInserter]
      rw [List.map_append]
      exact sound.inOrder.trans (List.prefix_append _ _)
    storedBy := by
      intro other
      dsimp only [System.setInserter]
      by_cases same : other = thread
      · subst same
        have work := sound.storedBy other
        rw [Inserter.pending, atPlace] at work
        rw [Function.update_self, ofThread_snoc_self, List.append_assoc]
        exact work
      · rw [Function.update_of_ne same, ofThread_snoc_other (Ne.symm same)]
        exact sound.storedBy other
    takenBy := sound.takenBy
    storedTotal := by
      simp only [System.setInserter, List.length_append, List.length_singleton]
      omega
    takenTotal := sound.takenTotal }

theorem System.Sound.taking (sound : before.Sound positive work wanted) {thread : Removing}
    (atPlace : (before.remover thread).place = .taking) :
    ({ before.setRemover thread { before.remover thread with
        place := .postingMutex (before.buf (slot positive (before.front + 1))) } with
      front := before.front + 1
      taken := before.taken ++ [(thread, before.buf (slot positive (before.front + 1)))] } :
        System n Inserting Removing).Sound positive work wanted := by
  have itemsCounted := sound.itemsCounted
  have slotsCounted := sound.slotsCounted
  have takenTotal := sound.takenTotal
  obtain ⟨entry, found⟩ := sound.exists_item (by rw [atPlace]; rfl)
  have value : before.buf (slot positive (before.front + 1)) = entry.2 := by
    rw [sound.front_eq]
    exact sound.kept _ entry (Nat.le_refl _) found
  have claimed := sum_place_update (fun remover : Remover => remover.place.claimsItem)
    before.remover thread { before.remover thread with place := .postingMutex entry.2 }
  have owed := sum_place_update (fun remover : Remover => remover.place.owesSlot)
    before.remover thread { before.remover thread with place := .postingMutex entry.2 }
  have due := sum_place_update Remover.due
    before.remover thread { before.remover thread with place := .postingMutex entry.2 }
  have oneDue : (before.remover thread).due = 1 + (before.remover thread).calls := by
    rw [Remover.due, atPlace]
    rfl
  dsimp only at claimed owed due
  rw [atPlace] at claimed owed
  rw [oneDue] at due
  change _ + 1 = _ + 0 at claimed
  change _ + 0 = _ + 1 at owed
  change _ = _ + (0 + (before.remover thread).calls) at due
  rw [value]
  exact {
    mutexGuards := by
      apply sound.mutexGuards.move _ inMutex_setRemover
      simp only [InMutex, Function.update_self, atPlace]
      rfl
    itemsCounted := by
      simp only [System.setRemover, List.length_append, List.length_singleton]
      omega
    slotsCounted := by
      simp only [System.setRemover, List.length_append, List.length_singleton]
      omega
    rear_eq := sound.rear_eq
    front_eq := by
      simp only [List.length_append, List.length_singleton]
      rw [sound.front_eq]
    within := sound.within
    kept := by
      intro k other untaken present
      simp only [List.length_append, List.length_singleton] at untaken
      exact sound.kept k other (by omega) present
    inOrder := by
      dsimp only [System.setRemover]
      rw [List.map_append]
      apply prefix_snoc sound.inOrder
      rw [List.length_map, List.getElem?_map, found]
      rfl
    storedBy := sound.storedBy
    takenBy := by
      intro other
      dsimp only [System.setRemover]
      by_cases same : other = thread
      · subst same
        have received := sound.takenBy other
        rw [Remover.received, atPlace] at received
        change _ = (before.remover other).returned ++ [] at received
        rw [Function.update_self, ofThread_snoc_self, received, List.append_nil]
        rfl
      · rw [Function.update_of_ne same, ofThread_snoc_other (Ne.symm same)]
        exact sound.takenBy other
    storedTotal := sound.storedTotal
    takenTotal := by
      simp only [System.setRemover, List.length_append, List.length_singleton]
      omega }

end Invariant

end OsCompiler.Sbuf
