/-
The tdlcd device under any interleaving of threads: system calls as short steps
around `dev->mutex`, with the two wait queues `r_wait` and `w_wait`.

A thread is asleep from the step that lets the mutex go in state
`TASK_INTERRUPTIBLE` until a wake-up of its queue or a signal makes it runnable.
-/

import OsCompiler.Tdlcd.Fifo
import Mathlib.Logic.Function.Basic

namespace OsCompiler.Tdlcd

open OsCompiler.Transition

inductive WaitQueue
  | rWait
  | wWait
  deriving DecidableEq

def waitQueueOf : Call → Option WaitQueue
  | .read .. => some .rWait
  | .write .. => some .wWait
  | .ioctl _ => none

inductive Place
  | userMode
  | locking (call : Call)
  | testing (call : Call)
  | lettingGo (call : Call)
  | scheduled (call : Call)
  | resumed (call : Call)
  | relocking (call : Call)
  | body (call : Call)
  | waking (queue : WaitQueue) (outcome : Outcome)
  | unlocking (outcome : Outcome)
  | leaving (outcome : Outcome)

structure Task where
  place : Place
  queue : Option WaitQueue
  interruptible : Bool
  signalPending : Bool

structure System (Thread : Type) where
  dev : TdlcdDev
  mutex : Option Thread
  task : Thread → Task

variable {Thread : Type}

def initSystem : System Thread := ⟨kzallocDev, none, fun _ => ⟨.userMode, none, false, false⟩⟩

/-- `wake_up_interruptible`: no waiter is exclusive, so every one on the queue runs. -/
def Task.wakeUp (queue : WaitQueue) (task : Task) : Task :=
  if task.queue = some queue then { task with interruptible := false } else task

/-- Where `mutex_lock` leads on the first time; `tdlcd_ioctl` has no wait loop. -/
def afterLock (call : Call) : Place :=
  match call with
  | .ioctl _ => .body call
  | _ => .testing call

def afterBody (outcome : Outcome) : Place :=
  match outcome with
  | .delivered _ => .waking .wWait outcome
  | .accepted _ => .waking .rWait outcome
  | _ => .unlocking outcome

section Steps

variable [DecidableEq Thread]

def System.setTask (system : System Thread) (thread : Thread) (task : Task) : System Thread :=
  { system with task := Function.update system.task thread task }

/-- The next step of a thread inside its call; `none` while it cannot take one. -/
def System.advance (system : System Thread) (thread : Thread) : Option (System Thread) :=
  let task := system.task thread
  match task.place with
  | .userMode => none
  | .locking call =>
      if system.mutex.isSome then none
      else some { system.setTask thread
        { task with place := afterLock call, queue := waitQueueOf call }
        with mutex := some thread }
  | .testing call =>
      if mustWait system.dev call then
        if isNonblocking call then
          some (system.setTask thread { task with place := .unlocking (.error .EAGAIN) })
        else
          some (system.setTask thread
            { task with place := .lettingGo call, interruptible := true })
      else some (system.setTask thread { task with place := .body call })
  | .lettingGo call =>
      some { system.setTask thread { task with place := .scheduled call } with mutex := none }
  | .scheduled call =>
      if task.interruptible && !task.signalPending then none
      else some (system.setTask thread
        { task with place := .resumed call, interruptible := false })
  | .resumed call =>
      if task.signalPending then
        some (system.setTask thread { task with place := .leaving (.error .ERESTARTSYS) })
      else some (system.setTask thread { task with place := .relocking call })
  | .relocking call =>
      if system.mutex.isSome then none
      else some { system.setTask thread { task with place := .testing call }
        with mutex := some thread }
  | .body call => do
      let (dev, outcome) ← afterWait system.dev call
      pure { system.setTask thread { task with place := afterBody outcome } with dev := dev }
  | .waking queue outcome =>
      let woken : System Thread :=
        { system with task := fun other => (system.task other).wakeUp queue }
      some (woken.setTask thread { woken.task thread with place := .unlocking outcome })
  | .unlocking outcome =>
      some { system.setTask thread { task with place := .leaving outcome } with mutex := none }
  | .leaving _ => some (system.setTask thread ⟨.userMode, none, false, false⟩)

inductive Action (Thread : Type)
  | enter (thread : Thread) (call : Call)
  | advance (thread : Thread)
  | signal (thread : Thread)

/-- `tdlcd_ioctl` returns `-EINVAL` for other commands without taking the mutex. -/
def entry : Call → Place
  | .ioctl cmd => if cmd = CTRL_CLC then .locking (.ioctl cmd) else .leaving (.error .EINVAL)
  | call => .locking call

def System.act (system : System Thread) : Action Thread → Option (System Thread)
  | .enter thread call =>
      match (system.task thread).place with
      | .userMode => some (system.setTask thread
          { system.task thread with place := entry call })
      | _ => none
  | .advance thread => system.advance thread
  | .signal thread => some (system.setTask thread
      { system.task thread with interruptible := false, signalPending := true })

end Steps

/-! ### The property and the invariant behind it -/

/-- The thread sleeps on the queue and nothing has woken it. -/
def System.Asleep (system : System Thread) (thread : Thread) (queue : WaitQueue) : Prop :=
  (∃ call, (system.task thread).place = .scheduled call) ∧
    (system.task thread).queue = some queue ∧
    (system.task thread).interruptible = true ∧ (system.task thread).signalPending = false

/-- With the mutex free nobody sleeps on a queue whose condition has come true. -/
def System.NoLostWakeUp (system : System Thread) : Prop :=
  system.mutex = none →
    (∀ thread, system.Asleep thread .wWait → ¬ system.dev.currentLen < SIZE) ∧
    ∀ thread, system.Asleep thread .rWait → ¬ 0 < system.dev.currentLen

/-- When `CTRL_CLC` lets the mutex go, no writer is asleep. -/
def ClearWithoutSleepers (system : System Thread) (action : Action Thread) : Prop :=
  ∀ thread, action = .advance thread →
    (system.task thread).place = .unlocking .cleared →
    ∀ other, ¬ system.Asleep other .wWait

def Place.holdsMutex : Place → Prop
  | .testing _ | .lettingGo _ | .body _ | .waking _ _ | .unlocking _ => True
  | _ => False

/-- The state of the task and its queue entry go with its place. -/
def Task.WellPlaced (task : Task) : Prop :=
  match task.place with
  | .lettingGo call | .scheduled call => task.queue = waitQueueOf call
  | .testing call | .resumed call | .relocking call =>
      task.queue = waitQueueOf call ∧ task.interruptible = false
  | .waking _ outcome => task.interruptible = false ∧ outcome ≠ .cleared
  | _ => task.interruptible = false

def Task.SleepsOn (task : Task) (queue : WaitQueue) : Prop :=
  task.interruptible = true ∧ task.signalPending = false ∧ task.queue = some queue

def TdlcdDev.Blocks (dev : TdlcdDev) : WaitQueue → Prop
  | .rWait => dev.currentLen = 0
  | .wWait => dev.currentLen = SIZE

/-- The thread at this place has changed the stream and not yet told the queue. `CTRL_CLC`
never tells `w_wait`. -/
def Place.Owes : Place → WaitQueue → Prop
  | .waking queue _, other => queue = other
  | .unlocking .cleared, .wWait => True
  | _, _ => False

def System.Covered (system : System Thread) (queue : WaitQueue) : Prop :=
  (∃ thread, (system.task thread).SleepsOn queue) →
    system.dev.Blocks queue ∨
      ∃ owner, system.mutex = some owner ∧ (system.task owner).place.Owes queue

structure System.Sound (system : System Thread) : Prop where
  bounded : system.dev.Bounded
  owner : ∀ thread, system.mutex = some thread ↔ (system.task thread).place.holdsMutex
  placed : ∀ thread, (system.task thread).WellPlaced
  cleared : ∀ thread, (system.task thread).place = .unlocking .cleared →
    system.dev.currentLen = 0
  covered : ∀ queue, system.Covered queue

private theorem initSystem_sound : (initSystem : System Thread).Sound where
  bounded := kzallocDev_bounded
  owner thread := by simp [initSystem, Place.holdsMutex]
  placed thread := rfl
  cleared thread inside := rfl
  covered queue sleeper := by
    obtain ⟨thread, interruptible, _⟩ := sleeper
    simp [initSystem] at interruptible

/-- Nobody sleeps on the queue just woken; sleepers of the other one sleep on. -/
theorem Task.sleepsOn_wakeUp {task : Task} {woken queue : WaitQueue} :
    (task.wakeUp woken).SleepsOn queue ↔ queue ≠ woken ∧ task.SleepsOn queue := by
  unfold Task.wakeUp Task.SleepsOn
  by_cases linked : task.queue = some woken
  · simp only [linked, if_true, Option.some.injEq]
    grind
  · rw [if_neg linked]
    grind

theorem Task.WellPlaced.wakeUp {task : Task} (placed : task.WellPlaced) (woken : WaitQueue) :
    (task.wakeUp woken).WellPlaced := by
  unfold Task.wakeUp
  split
  · unfold Task.WellPlaced at placed ⊢
    cases inside : task.place <;> simp_all
  · exact placed

private theorem blocks_of_mustWait {dev : TdlcdDev} {call : Call} {queue : WaitQueue}
    (waits : mustWait dev call = true) (linked : waitQueueOf call = some queue) :
    dev.Blocks queue := by
  cases call <;> simp only [waitQueueOf, Option.some.injEq, reduceCtorEq] at linked <;>
    subst linked <;> simpa [mustWait, TdlcdDev.Blocks] using waits

private theorem entry_not_holdsMutex (call : Call) : ¬ (entry call).holdsMutex := by
  cases call with
  | ioctl cmd =>
      simp only [entry]
      split <;> simp [Place.holdsMutex]
  | _ => exact id

private theorem afterBody_holdsMutex (outcome : Outcome) : (afterBody outcome).holdsMutex := by
  cases outcome <;> trivial

theorem BodySpec.currentLen_of_cleared {dev after : TdlcdDev}
    (spec : BodySpec dev after .cleared) : after.currentLen = 0 := by
  have empty : after.stored = [] := spec.explained
  rw [← after.stored_length, empty]
  rfl

/-- A queue whose condition a body ends is owed a wake-up after that body. -/
theorem BodySpec.blocks_or_owes {dev after : TdlcdDev} {outcome : Outcome}
    (spec : BodySpec dev after outcome) {queue : WaitQueue} (blocks : dev.Blocks queue) :
    after.Blocks queue ∨ (afterBody outcome).Owes queue := by
  obtain ⟨bounded, explained⟩ := spec
  have length := dev.stored_length
  have lengthAfter := after.stored_length
  unfold TdlcdDev.Bounded at bounded
  cases outcome with
  | sleeps | error errno =>
      have same : after.stored = dev.stored := explained
      rw [same, length] at lengthAfter
      left
      cases queue <;> simpa [TdlcdDev.Blocks, ← lengthAfter] using blocks
  | delivered bytes =>
      have split : dev.stored = bytes ++ after.stored := explained
      rw [split, List.length_append, lengthAfter] at length
      cases queue with
      | rWait =>
          left
          have empty : dev.currentLen = 0 := blocks
          change after.currentLen = 0
          omega
      | wWait => exact Or.inr rfl
  | accepted bytes =>
      have joined : after.stored = dev.stored ++ bytes := explained
      rw [joined, List.length_append, length] at lengthAfter
      cases queue with
      | rWait => exact Or.inr rfl
      | wWait =>
          left
          have full : dev.currentLen = SIZE := blocks
          change after.currentLen = SIZE
          omega
  | cleared =>
      cases queue with
      | rWait => exact Or.inl (BodySpec.currentLen_of_cleared ⟨bounded, explained⟩)
      | wWait => exact Or.inr trivial

namespace System

variable [DecidableEq Thread]

@[simp] theorem setTask_task_self (system : System Thread) (thread : Thread) (task : Task) :
    (system.setTask thread task).task thread = task := Function.update_self ..

theorem setTask_task_other (system : System Thread) {thread other : Thread} (task : Task)
    (distinct : other ≠ thread) : (system.setTask thread task).task other = system.task other :=
  Function.update_of_ne distinct ..

@[simp] theorem setTask_dev (system : System Thread) (thread : Thread) (task : Task) :
    (system.setTask thread task).dev = system.dev := rfl

@[simp] theorem setTask_mutex (system : System Thread) (thread : Thread) (task : Task) :
    (system.setTask thread task).mutex = system.mutex := rfl

variable {system : System Thread} {thread : Thread} {task : Task}

/-- A property of every task survives a change of one task that has it. -/
theorem setTask_forall (property : Task → Prop) (own : property task)
    (all : ∀ other, property (system.task other)) (other : Thread) :
    property ((system.setTask thread task).task other) := by
  by_cases same : other = thread
  · subst same
    rw [setTask_task_self]
    exact own
  · rw [setTask_task_other _ _ same]
    exact all other

namespace Sound

/-- The task of one thread changes; the device and the mutex stay. -/
theorem setTask (sound : system.Sound) (placed : task.WellPlaced)
    (holds : task.place.holdsMutex ↔ (system.task thread).place.holdsMutex)
    (notCleared : task.place = .unlocking .cleared → system.dev.currentLen = 0)
    (owes : ∀ queue, (system.task thread).place.Owes queue →
      task.place.Owes queue ∨ ∀ other, ¬ (system.task other).SleepsOn queue)
    (sleeps : ∀ queue, task.SleepsOn queue → system.dev.Blocks queue) :
    (system.setTask thread task).Sound where
  bounded := sound.bounded
  owner other := by
    rw [setTask_mutex, sound.owner other]
    by_cases same : other = thread
    · subst same
      rw [setTask_task_self, holds]
    · rw [setTask_task_other _ _ same]
  placed := setTask_forall Task.WellPlaced placed sound.placed
  cleared := setTask_forall (fun other =>
    other.place = .unlocking .cleared → system.dev.currentLen = 0) notCleared sound.cleared
  covered queue := by
    intro both
    rcases both with ⟨sleeper, sleeping⟩
    by_cases same : sleeper = thread
    · subst same
      rw [setTask_task_self] at sleeping
      exact Or.inl (sleeps queue sleeping)
    · rw [setTask_task_other _ _ same] at sleeping
      obtain blocks | ⟨owner, held, owing⟩ := sound.covered queue ⟨sleeper, sleeping⟩
      · exact Or.inl blocks
      · refine Or.inr ⟨owner, held, ?_⟩
        by_cases own : owner = thread
        · subst own
          rw [setTask_task_self]
          exact (owes queue owing).resolve_right fun none => none sleeper sleeping
        · rw [setTask_task_other _ _ own]
          exact owing

/-- A thread takes the free mutex. -/
theorem lock (sound : system.Sound) (free : system.mutex = none) (placed : task.WellPlaced)
    (holds : task.place.holdsMutex) (notCleared : task.place ≠ .unlocking .cleared)
    (runs : ∀ queue, ¬ task.SleepsOn queue) :
    System.Sound { system.setTask thread task with mutex := some thread } where
  bounded := sound.bounded
  owner other := by
    change some thread = some other ↔ ((system.setTask thread task).task other).place.holdsMutex
    by_cases same : other = thread
    · subst same
      simp [holds]
    · have outside := sound.owner other
      rw [free] at outside
      rw [setTask_task_other _ _ same, ← outside]
      simpa using Ne.symm same
  placed := setTask_forall Task.WellPlaced placed sound.placed
  cleared := setTask_forall (fun other =>
    other.place = .unlocking .cleared → system.dev.currentLen = 0)
    (fun inside => absurd inside notCleared) sound.cleared
  covered queue := by
    intro both
    rcases both with ⟨sleeper, sleeping⟩
    change ((system.setTask thread task).task sleeper).SleepsOn queue at sleeping
    by_cases same : sleeper = thread
    · subst same
      rw [setTask_task_self] at sleeping
      exact absurd sleeping (runs queue)
    · rw [setTask_task_other _ _ same] at sleeping
      obtain blocks | ⟨owner, held, _⟩ := sound.covered queue ⟨sleeper, sleeping⟩
      · exact Or.inl blocks
      · rw [free] at held
        cases held

/-- The owner lets the mutex go. What it owes to a queue must have no taker. -/
theorem unlock (sound : system.Sound) (held : (system.task thread).place.holdsMutex)
    (placed : task.WellPlaced) (outside : ¬ task.place.holdsMutex)
    (sleeps : ∀ queue, task.SleepsOn queue → (system.task thread).SleepsOn queue)
    (settled : ∀ queue, (system.task thread).place.Owes queue →
      ∀ other, ¬ (system.task other).SleepsOn queue) :
    System.Sound { system.setTask thread task with mutex := none } where
  bounded := sound.bounded
  owner other := by
    change none = some other ↔ ((system.setTask thread task).task other).place.holdsMutex
    by_cases same : other = thread
    · subst same
      simp [outside]
    · rw [setTask_task_other _ _ same, ← sound.owner other, (sound.owner thread).mpr held]
      simpa using Ne.symm same
  placed := setTask_forall Task.WellPlaced placed sound.placed
  cleared := setTask_forall (fun other =>
    other.place = .unlocking .cleared → system.dev.currentLen = 0)
    (fun inside => absurd (by rw [inside]; trivial) outside) sound.cleared
  covered queue := by
    intro both
    rcases both with ⟨sleeper, sleeping⟩
    change ((system.setTask thread task).task sleeper).SleepsOn queue at sleeping
    have slept : (system.task sleeper).SleepsOn queue := by
      by_cases same : sleeper = thread
      · subst same
        rw [setTask_task_self] at sleeping
        exact sleeps queue sleeping
      · rwa [setTask_task_other _ _ same] at sleeping
    obtain blocks | ⟨owner, owned, owing⟩ := sound.covered queue ⟨sleeper, slept⟩
    · exact Or.inl blocks
    · have same : owner = thread := by
        rw [(sound.owner thread).mpr held] at owned
        exact (Option.some.inj owned).symm
      subst same
      exact absurd slept (settled queue owing sleeper)

omit [DecidableEq Thread] in
/-- Only one thread is between taking the mutex and letting it go. -/
theorem owner_unique (sound : system.Sound) {other : Thread}
    (holds : (system.task thread).place.holdsMutex)
    (holdsToo : (system.task other).place.holdsMutex) : other = thread := by
  have owned := (sound.owner other).mpr holdsToo
  rw [(sound.owner thread).mpr holds] at owned
  exact (Option.some.inj owned).symm

/-- The body of the call runs under the mutex. -/
theorem body (sound : system.Sound) {call : Call} {dev : TdlcdDev} {outcome : Outcome}
    (inside : (system.task thread).place = .body call)
    (executed : afterWait system.dev call = some (dev, outcome)) :
    System.Sound { system.setTask thread
      { system.task thread with place := afterBody outcome } with dev := dev } := by
  have spec : BodySpec system.dev dev outcome := by
    obtain ⟨dev', outcome', executed', spec⟩ := afterWait_spec sound.bounded call
    rw [executed] at executed'
    cases executed'
    exact spec
  have held : system.mutex = some thread := by
    rw [sound.owner, inside]
    trivial
  have runs : (system.task thread).interruptible = false := by
    have placed := sound.placed thread
    rwa [Task.WellPlaced, inside] at placed
  have alone : ∀ other, (system.task other).place.holdsMutex → other = thread := by
    intro other holds
    exact sound.owner_unique (by rw [inside]; trivial) holds
  constructor
  · exact spec.bounded
  · intro other
    change system.mutex = some other ↔ _
    rw [sound.owner other]
    by_cases same : other = thread
    · subst same
      rw [setTask_task_self, inside]
      exact iff_of_true trivial (afterBody_holdsMutex outcome)
    · simp [System.setTask, same]
  · refine setTask_forall Task.WellPlaced ?_ sound.placed
    cases outcome <;> simp [Task.WellPlaced, afterBody, runs]
  · intro other
    by_cases same : other = thread
    · subst same
      simp only [setTask_task_self]
      intro atUnlock
      cases outcome <;> simp [afterBody] at atUnlock
      exact spec.currentLen_of_cleared
    · intro atUnlock
      simp only [setTask_task_other _ _ same] at atUnlock
      exact absurd (alone other (by rw [atUnlock]; trivial)) same
  · intro queue both
    rcases both with ⟨sleeper, sleeping⟩
    have owing : ∀ owed, (afterBody outcome).Owes owed → ∃ owner,
        system.mutex = some owner ∧ ((system.setTask thread
          { system.task thread with place := afterBody outcome }).task owner).place.Owes owed := by
      intro owed owes
      exact ⟨thread, held, by rwa [setTask_task_self]⟩
    by_cases same : sleeper = thread
    · subst same
      simp [Task.SleepsOn, runs] at sleeping
    · simp only [setTask_task_other _ _ same] at sleeping
      obtain blocks | ⟨owner, owned, owes⟩ := sound.covered queue ⟨sleeper, sleeping⟩
      · obtain still | owes := spec.blocks_or_owes blocks
        · exact Or.inl still
        · exact Or.inr (owing queue owes)
      · have own := alone owner ((sound.owner owner).mp owned)
        rw [own, inside] at owes
        exact absurd owes (by simp [Place.Owes])

omit [DecidableEq Thread] in
/-- `wake_up_interruptible` changes the state of tasks and nothing else. -/
theorem wakeUp (sound : system.Sound) (woken : WaitQueue) :
    System.Sound { system with task := fun other => (system.task other).wakeUp woken } := by
  have place (other : Thread) : ((system.task other).wakeUp woken).place =
      (system.task other).place := by
    unfold Task.wakeUp
    split <;> rfl
  constructor
  · exact sound.bounded
  · intro other
    change system.mutex = some other ↔ ((system.task other).wakeUp woken).place.holdsMutex
    rw [place, sound.owner]
  · intro other
    exact (sound.placed other).wakeUp woken
  · intro other atUnlock
    exact sound.cleared other (by rw [← place]; exact atUnlock)
  · intro queue both
    rcases both with ⟨sleeper, sleeping⟩
    have slept := (Task.sleepsOn_wakeUp.mp sleeping).2
    obtain blocks | ⟨owner, owned, owes⟩ := sound.covered queue ⟨sleeper, slept⟩
    · exact Or.inl blocks
    · exact Or.inr ⟨owner, owned, by simpa only [place] using owes⟩

theorem waking (sound : system.Sound) {woken : WaitQueue} {outcome : Outcome}
    (inside : (system.task thread).place = .waking woken outcome) :
    System.Sound (System.setTask
      { system with task := fun other => (system.task other).wakeUp woken } thread
      { (system.task thread).wakeUp woken with place := .unlocking outcome }) := by
  have placed := sound.placed thread
  rw [Task.WellPlaced, inside] at placed
  obtain ⟨runs, notCleared⟩ := placed
  have runsWoken : ((system.task thread).wakeUp woken).interruptible = false := by
    unfold Task.wakeUp
    split <;> simp [runs]
  have place : ((system.task thread).wakeUp woken).place = .waking woken outcome := by
    unfold Task.wakeUp
    split <;> exact inside
  apply (sound.wakeUp woken).setTask
  · exact runsWoken
  · simp [place, Place.holdsMutex]
  · simp [notCleared]
  · intro queue owes
    simp only [place] at owes
    have same : woken = queue := owes
    subst same
    exact Or.inr fun other sleeping => (Task.sleepsOn_wakeUp.mp sleeping).1 rfl
  · intro queue sleeping
    simp [Task.SleepsOn, runsWoken] at sleeping

omit [DecidableEq Thread] in
/-- Who would sleep on a queue and does not hold the mutex is asleep in `schedule`. -/
theorem asleep_of_sleepsOn (sound : system.Sound) {queue : WaitQueue}
    (sleeping : (system.task thread).SleepsOn queue)
    (outside : ¬ (system.task thread).place.holdsMutex) : system.Asleep thread queue := by
  have placed := sound.placed thread
  obtain ⟨interruptible, unsignalled, linked⟩ := sleeping
  unfold Task.WellPlaced at placed
  cases inside : (system.task thread).place with
  | lettingGo call => exact absurd (by rw [inside]; trivial) outside
  | scheduled call => exact ⟨⟨call, inside⟩, linked, interruptible, unsignalled⟩
  | _ =>
      simp only [inside, interruptible] at placed
      simp at placed

/-- Letting the mutex go after a call; after `CTRL_CLC` no writer may be asleep. -/
theorem unlocking (sound : system.Sound) {outcome : Outcome}
    (inside : (system.task thread).place = .unlocking outcome)
    (clear : (system.task thread).place = .unlocking .cleared →
      ∀ other, ¬ system.Asleep other .wWait) :
    System.Sound { system.setTask thread
      { system.task thread with place := .leaving outcome } with mutex := none } := by
  have placed := sound.placed thread
  simp only [Task.WellPlaced, inside] at placed
  have holds : (system.task thread).place.holdsMutex := by
    rw [inside]
    trivial
  apply sound.unlock <;> simp [inside, Task.WellPlaced, placed, Place.holdsMutex,
    Task.SleepsOn]
  intro queue owes other interruptible unsignalled linked
  have sleeping : (system.task other).SleepsOn queue := ⟨interruptible, unsignalled, linked⟩
  cases outcome with
  | cleared =>
      cases queue with
      | rWait => exact owes
      | wWait =>
          refine clear inside other (sound.asleep_of_sleepsOn sleeping ?_)
          intro holdsToo
          have same := sound.owner_unique holds holdsToo
          subst same
          simp [placed] at interruptible
  | _ => exact owes

/-- A step inside a call keeps the invariant, unless `CTRL_CLC` lets the mutex go over
a sleeping writer. -/
theorem advance (sound : system.Sound) {after : System Thread}
    (clear : ClearWithoutSleepers system (.advance thread))
    (stepped : system.advance thread = some after) : after.Sound := by
  have placed := sound.placed thread
  unfold System.advance at stepped
  unfold Task.WellPlaced at placed
  cases inside : (system.task thread).place with
  | userMode => simp [inside] at stepped
  | locking call =>
      simp only [inside] at placed stepped
      split at stepped
      · cases stepped
      · rename_i free
        cases stepped
        apply sound.lock (by simpa using free)
        · cases call <;> simp [Task.WellPlaced, afterLock, placed]
        · cases call <;> trivial
        · cases call <;> simp [afterLock]
        · simp [Task.SleepsOn, placed]
  | testing call =>
      simp only [inside] at placed stepped
      obtain ⟨linked, runs⟩ := placed
      split at stepped
      · rename_i waits
        split at stepped
        · cases stepped
          apply sound.setTask <;> simp [inside, Task.WellPlaced, runs, Place.holdsMutex,
            Place.Owes, Task.SleepsOn]
        · cases stepped
          apply sound.setTask <;> simp [inside, Task.WellPlaced, linked, Place.holdsMutex,
            Place.Owes]
          intro queue both
          rcases both with ⟨_, _, sleepsOn⟩
          exact blocks_of_mustWait waits sleepsOn
      · cases stepped
        apply sound.setTask <;> simp [inside, Task.WellPlaced, runs, Place.holdsMutex,
          Place.Owes, Task.SleepsOn]
  | lettingGo call =>
      simp only [inside] at placed stepped
      cases stepped
      apply sound.unlock <;> simp [inside, Task.WellPlaced, placed, Place.holdsMutex,
        Place.Owes, Task.SleepsOn]
  | scheduled call =>
      simp only [inside] at placed stepped
      split at stepped
      · cases stepped
      · cases stepped
        apply sound.setTask <;> simp [inside, Task.WellPlaced, placed, Place.holdsMutex,
          Place.Owes, Task.SleepsOn]
  | resumed call =>
      simp only [inside] at placed stepped
      split at stepped <;> cases stepped <;> apply sound.setTask <;>
        simp [inside, Task.WellPlaced, placed, Place.holdsMutex, Place.Owes, Task.SleepsOn]
  | relocking call =>
      simp only [inside] at placed stepped
      split at stepped
      · cases stepped
      · rename_i free
        cases stepped
        apply sound.lock (by simpa using free) <;>
          simp [Task.WellPlaced, placed, Place.holdsMutex, Task.SleepsOn]
  | body call =>
      simp only [inside, Option.bind_eq_bind, Option.bind_eq_some_iff] at stepped
      obtain ⟨⟨dev, outcome⟩, executed, moved⟩ := stepped
      cases moved
      exact sound.body inside executed
  | waking queue outcome =>
      simp only [inside] at stepped
      cases stepped
      exact sound.waking inside
  | unlocking outcome =>
      simp only [inside] at stepped
      cases stepped
      exact sound.unlocking inside (clear thread rfl)
  | leaving outcome =>
      simp only [inside] at stepped
      cases stepped
      apply sound.setTask <;> simp [inside, Task.WellPlaced, Place.holdsMutex, Place.Owes,
        Task.SleepsOn]

theorem act (sound : system.Sound) {action : Action Thread} {after : System Thread}
    (clear : ClearWithoutSleepers system action)
    (acted : system.act action = some after) : after.Sound := by
  cases action with
  | enter thread call =>
      have placed := sound.placed thread
      unfold Task.WellPlaced at placed
      cases inside : (system.task thread).place with
      | userMode =>
          simp only [inside] at placed
          simp only [System.act, inside, Option.some.injEq] at acted
          subst acted
          have outside := entry_not_holdsMutex call
          apply sound.setTask
          · cases call <;> simp only [entry] <;> (try split) <;> simp [Task.WellPlaced, placed]
          · exact iff_of_false outside (by rw [inside]; exact id)
          · intro atUnlock
            simp only at atUnlock
            exact absurd (by rw [atUnlock]; trivial) outside
          · simp [inside, Place.Owes]
          · simp [Task.SleepsOn, placed]
      | _ => simp [System.act, inside] at acted
  | advance thread => exact sound.advance clear acted
  | signal thread =>
      simp only [System.act, Option.some.injEq] at acted
      subst acted
      have placed := sound.placed thread
      apply sound.setTask
      · unfold Task.WellPlaced at placed ⊢
        cases inside : (system.task thread).place <;> simp_all
      · exact Iff.rfl
      · exact sound.cleared thread
      · exact fun queue owes => Or.inl owes
      · simp [Task.SleepsOn]

omit [DecidableEq Thread] in
private theorem noLostWakeUp (sound : system.Sound) : system.NoLostWakeUp := by
  intro free
  have blocks {thread : Thread} {queue : WaitQueue} (asleep : system.Asleep thread queue) :
      system.dev.Blocks queue := by
    obtain ⟨_, linked, interruptible, unsignalled⟩ := asleep
    obtain blocks | ⟨owner, held, _⟩ :=
      sound.covered queue ⟨thread, interruptible, unsignalled, linked⟩
    · exact blocks
    · rw [free] at held
      cases held
  constructor
  · intro thread asleep
    exact Nat.not_lt.mpr (Nat.le_of_eq (blocks asleep).symm)
  · intro thread asleep
    exact Nat.not_lt.mpr (Nat.le_of_eq (blocks asleep))

/-- `CTRL_CLC` over a sleeping writer leaves it asleep at an empty buffer. -/
theorem clearWithoutSleepers (sound : system.Sound) {action : Action Thread}
    {after : System Thread} (acted : system.act action = some after)
    (kept : after.NoLostWakeUp) : ClearWithoutSleepers system action := by
  intro thread same inside other asleep
  subst same
  simp only [System.act, System.advance, inside, Option.some.injEq] at acted
  subst acted
  have elsewhere : other ≠ thread := by
    intro same
    subst same
    obtain ⟨call, atSchedule⟩ := asleep.1
    rw [inside] at atSchedule
    cases atSchedule
  refine (kept rfl).1 other ?_ ?_
  · simpa only [System.Asleep, setTask_task_other _ _ elsewhere] using asleep
  · change system.dev.currentLen < SIZE
    rw [sound.cleared thread inside]
    exact Nat.zero_lt_succ _

end Sound

end System

/-- A run of any number of threads has no lost wake-up in any state exactly when each
`CTRL_CLC` lets the mutex go with no writer asleep. -/
theorem tdlcd_no_lost_wake_up_iff [DecidableEq Thread] {actions : List (Action Thread)}
    {final : System Thread} (run : runAll System.act initSystem actions = some final) :
    Throughout System.act initSystem actions System.NoLostWakeUp ↔
      EachStep System.act (initSystem : System Thread) actions ClearWithoutSleepers :=
  throughout_iff_eachStep_of_strong run (fun _ => True) (fun _ _ => trivial)
    initSystem_sound (fun _ sound => sound.noLostWakeUp)
    (fun _ _ _ sound _ clear acted => sound.act clear acted)
    (fun _ _ _ sound _ acted kept => sound.clearWithoutSleepers acted kept)

/-! ### Threads that run while the others keep still -/

section Alone

variable [DecidableEq Thread] {system : System Thread} {dev : TdlcdDev} {thread : Thread}
  {call : Call} {outcome : Outcome}

/-- A call that need not wait runs to its end and wakes the other queue. -/
theorem runAll_transfer {queue : WaitQueue} (free : system.mutex = none)
    (idle : system.task thread = ⟨.userMode, none, false, false⟩)
    (entered : entry call = .locking call) (looped : afterLock call = .testing call)
    (roomy : mustWait system.dev call = false)
    (body : afterWait system.dev call = some (dev, outcome))
    (wakes : afterBody outcome = .waking queue outcome) :
    runAll System.act system (.enter thread call :: List.replicate 6 (.advance thread)) =
      some ⟨dev, none, Function.update (fun other => (system.task other).wakeUp queue) thread
        ⟨.userMode, none, false, false⟩⟩ := by
  simp only [runAll, List.replicate_succ, List.replicate_zero, List.foldlM_cons, List.foldlM_nil,
    System.act, System.advance, System.setTask, idle, free, entered, looped, roomy, body, wakes,
    Function.update_self, Function.update_idem, Option.isSome_none, Option.bind_eq_bind,
    Option.bind_some, Option.pure_def, Bool.false_eq_true, if_false, Option.some.injEq,
    System.mk.injEq, true_and]
  funext other
  by_cases here : other = thread
  · subst here
    simp
  · simp [Function.update_of_ne here]

/-- A call that has to wait falls asleep on its queue. -/
theorem runAll_sleep (free : system.mutex = none)
    (idle : system.task thread = ⟨.userMode, none, false, false⟩)
    (entered : entry call = .locking call) (looped : afterLock call = .testing call)
    (waits : mustWait system.dev call = true) (blocking : isNonblocking call = false) :
    runAll System.act system (.enter thread call :: List.replicate 3 (.advance thread)) =
      some ⟨system.dev, none, Function.update system.task thread
        ⟨.scheduled call, waitQueueOf call, true, false⟩⟩ := by
  simp [runAll, List.replicate_succ, System.act, System.advance, System.setTask, idle, free,
    entered, looped, waits, blocking]

/-- `CTRL_CLC` clears the buffer and wakes nobody. -/
theorem runAll_clear (free : system.mutex = none)
    (idle : system.task thread = ⟨.userMode, none, false, false⟩)
    (body : afterWait system.dev (.ioctl CTRL_CLC) = some (dev, .cleared)) :
    runAll System.act system (.enter thread (.ioctl CTRL_CLC) :: List.replicate 3 (.advance thread)) =
      some ⟨dev, none, Function.update system.task thread
        ⟨.leaving .cleared, none, false, false⟩⟩ := by
  simp [runAll, List.replicate_succ, System.act, System.advance, System.setTask, idle, free,
    entry, afterLock, afterBody, body, waitQueueOf]

end Alone

/-! ### The schedule that loses a wake-up -/

/-- A writer fills the buffer, a second one falls asleep, a third thread clears. -/
def fillSleepClear : List (Action (Fin 3)) :=
  .enter 0 (.write (List.replicate SIZE 0) false none) :: List.replicate 6 (.advance 0) ++
  .enter 1 (.write [1] false none) :: List.replicate 3 (.advance 1) ++
  .enter 2 (.ioctl CTRL_CLC) :: List.replicate 3 (.advance 2)

theorem write_fills : ∃ full,
    afterWait kzallocDev (.write (List.replicate SIZE 0) false none) =
      some (full, .accepted (List.replicate SIZE 0)) ∧ full.currentLen = SIZE := by
  obtain ⟨mem, copied, _⟩ := kzallocDev.mem.copyIn_eq_overlay 0
    (List.replicate SIZE 0) (Or.inr (by simp))
  refine ⟨⟨mem, SIZE⟩, ?_, rfl⟩
  have whole : (List.replicate SIZE (0 : UInt8)).take SIZE = List.replicate SIZE 0 :=
    List.take_of_length_le (by rw [List.length_replicate])
  simp only [afterWait, writeBody, kzallocDev, Nat.sub_zero, List.length_replicate, whole,
    ite_self] at copied ⊢
  simp [copied]

private theorem fillSleepClear_run :
    ∃ final, runAll System.act initSystem fillSleepClear = some final ∧
    final.mutex = none ∧ final.Asleep 1 .wWait ∧ final.dev.currentLen = 0 := by
  obtain ⟨full, filled, length⟩ := write_fills
  have roomy : mustWait kzallocDev (.write (List.replicate SIZE 0) false none) = false := rfl
  have waits : mustWait full (.write [1] false none) = true := by simp [mustWait, length]
  have cleared : afterWait full (.ioctl CTRL_CLC) = some (⟨Region.fill SIZE 0, 0⟩, .cleared) := by
    simp [afterWait, ioctlBody]
  have writer : runAll System.act (initSystem : System (Fin 3))
      (.enter 0 (.write (List.replicate SIZE 0) false none) :: List.replicate 6 (.advance 0)) =
        some _ := runAll_transfer rfl rfl rfl rfl roomy filled rfl
  have sleeper (task : Fin 3 → Task) (idle : task 1 = ⟨.userMode, none, false, false⟩) :
      runAll System.act ⟨full, none, task⟩
        (.enter 1 (.write [1] false none) :: List.replicate 3 (.advance 1)) = some _ :=
    runAll_sleep rfl idle rfl rfl waits rfl
  have clearer (task : Fin 3 → Task) (idle : task 2 = ⟨.userMode, none, false, false⟩) :
      runAll System.act ⟨full, none, task⟩
        (.enter 2 (.ioctl CTRL_CLC) :: List.replicate 3 (.advance 2)) = some _ :=
    runAll_clear rfl idle cleared
  refine ⟨?final, ?run, ?state⟩
  case run =>
    rw [fillSleepClear, runAll_append, runAll_append, writer, Option.bind_some, sleeper _ rfl,
      Option.bind_some, clearer _ rfl]
  case state => exact ⟨rfl, ⟨⟨_, rfl⟩, rfl, rfl, rfl⟩, rfl⟩

theorem clear_loses_wake_up : ¬ ∀ (actions : List (Action (Fin 3))) (final : System (Fin 3)),
    runAll System.act initSystem actions = some final → final.NoLostWakeUp := by
  intro always
  obtain ⟨final, run, free, asleep, empty⟩ := fillSleepClear_run
  refine (always fillSleepClear final run free).1 1 asleep ?_
  rw [empty]
  exact Nat.zero_lt_succ _

theorem fillSleepClear_over_sleeper :
    ¬ EachStep System.act (initSystem : System (Fin 3)) fillSleepClear ClearWithoutSleepers := by
  obtain ⟨final, run, free, asleep, empty⟩ := fillSleepClear_run
  intro each
  have kept := (tdlcd_no_lost_wake_up_iff run).mpr each fillSleepClear [] final (by simp) run
  refine (kept free).1 1 asleep ?_
  rw [empty]
  exact Nat.zero_lt_succ _

end OsCompiler.Tdlcd
