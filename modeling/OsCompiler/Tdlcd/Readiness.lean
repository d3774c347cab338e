/-
What the tdlcd FIFO tells programs that do not block in read or write: `poll` for
select, and SIGIO for the files that asked for it with `fasync`.

A select registers on both wait queues and tests under the mutex, so no body comes
between the two. The bodies of read and write wake the queues before they let the
mutex go; the body of `CTRL_CLC` wakes nobody.
-/

import OsCompiler.Tdlcd.WaitQueue
import Mathlib.Data.List.Nodup

namespace OsCompiler.Tdlcd

open OsCompiler.Transition

def POLLIN : BitVec 32 := 0x0001
def POLLOUT : BitVec 32 := 0x0004
def POLLRDNORM : BitVec 32 := 0x0040
def POLLWRNORM : BitVec 32 := 0x0100

def tdlcdPoll (dev : TdlcdDev) : BitVec 32 :=
  let mask := 0
  let mask := if dev.currentLen ≠ 0 then mask ||| (POLLIN ||| POLLRDNORM) else mask
  let mask := if dev.currentLen ≠ SIZE then mask ||| (POLLOUT ||| POLLWRNORM) else mask
  mask

/-- The device with its `async_queue`, the threads asleep in a select together with the
events they wait for, and the files that SIGIO was sent for so far. -/
structure Watched (Thread File : Type) where
  dev : TdlcdDev
  asyncQueue : List File
  asleep : List (Thread × BitVec 32)
  sent : List File

inductive Operation (Thread File : Type)
  | body (thread : Thread) (call : Call)
  | select (thread : Thread) (wanted : BitVec 32)
  | leave (thread : Thread)
  | fasync (file : File) (mode : Bool)
  | release (file : File)

variable {Thread File : Type}

def initWatched : Watched Thread File := ⟨kzallocDev, [], [], []⟩

/-- What a body does for the others before it lets the mutex go. -/
def Watched.tell (watched : Watched Thread File) : Outcome → Watched Thread File
  | .delivered _ => { watched with asleep := [] }
  | .accepted _ =>
      { watched with asleep := [], sent := watched.sent ++ watched.asyncQueue }
  | _ => watched

section Steps

variable [DecidableEq Thread] [DecidableEq File]

/-- `fasync_helper`: one entry for a file, whatever was asked before. -/
def tdlcdFasync (watched : Watched Thread File) (file : File) (mode : Bool) :
    Watched Thread File :=
  if mode then { watched with asyncQueue := watched.asyncQueue.insert file }
  else { watched with asyncQueue := watched.asyncQueue.erase file }

def tdlcdRelease (watched : Watched Thread File) (file : File) : Watched Thread File :=
  tdlcdFasync watched file false

def Watched.isAsleep (watched : Watched Thread File) (thread : Thread) : Bool :=
  watched.asleep.any fun entry => entry.1 == thread

/-- A thread asleep in a select takes no step but to leave it, on a signal or a timeout. -/
def Watched.perform (watched : Watched Thread File) :
    Operation Thread File → Option (Watched Thread File)
  | .body thread call =>
      if watched.isAsleep thread then none
      else do
        let (dev, outcome) ← execBody watched.dev call
        pure ({ watched with dev := dev }.tell outcome)
  | .select thread wanted =>
      if watched.isAsleep thread then none
      else if tdlcdPoll watched.dev &&& wanted ≠ 0 then some watched
      else some { watched with asleep := (thread, wanted) :: watched.asleep }
  | .leave thread =>
      some { watched with asleep := watched.asleep.filter fun entry => entry.1 != thread }
  | .fasync file mode => some (tdlcdFasync watched file mode)
  | .release file => some (tdlcdRelease watched file)

end Steps

/-! ### The mask -/

def readable : BitVec 32 := POLLIN ||| POLLRDNORM
def writable : BitVec 32 := POLLOUT ||| POLLWRNORM

theorem tdlcdPoll_empty {dev : TdlcdDev} (empty : dev.currentLen = 0) :
    tdlcdPoll dev = writable := by
  unfold tdlcdPoll
  rw [empty]
  rfl

theorem tdlcdPoll_full {dev : TdlcdDev} (full : dev.currentLen = SIZE) :
    tdlcdPoll dev = readable := by
  unfold tdlcdPoll
  rw [full]
  rfl

theorem tdlcdPoll_between {dev : TdlcdDev} (some' : dev.currentLen ≠ 0)
    (room : dev.currentLen ≠ SIZE) : tdlcdPoll dev = readable ||| writable := by
  simp only [tdlcdPoll, if_pos some', if_pos room]
  rfl

/-- What a select that goes to sleep found. -/
theorem tdlcdPoll_none_wanted {dev : TdlcdDev} {wanted : BitVec 32}
    (none' : tdlcdPoll dev &&& wanted = 0) :
    (readable &&& wanted ≠ 0 → dev.currentLen = 0) ∧
      (writable &&& wanted ≠ 0 → dev.currentLen = SIZE) := by
  constructor
  · intro wantsData
    by_contra some'
    by_cases full : dev.currentLen = SIZE
    · rw [tdlcdPoll_full full] at none'
      exact wantsData none'
    · rw [tdlcdPoll_between some' full, BitVec.and_or_distrib_right] at none'
      exact wantsData (BitVec.or_eq_zero_iff.mp none').1
  · intro wantsRoom
    by_contra room
    by_cases empty : dev.currentLen = 0
    · rw [tdlcdPoll_empty empty] at none'
      exact wantsRoom none'
    · rw [tdlcdPoll_between empty room, BitVec.and_or_distrib_right] at none'
      exact wantsRoom (BitVec.or_eq_zero_iff.mp none').2

private theorem tdlcdPoll_nothing {dev : TdlcdDev} {wanted : BitVec 32}
    (noData : readable &&& wanted = 0) (noRoom : writable &&& wanted = 0) :
    tdlcdPoll dev &&& wanted = 0 := by
  by_cases empty : dev.currentLen = 0
  · rw [tdlcdPoll_empty empty, noRoom]
  · by_cases full : dev.currentLen = SIZE
    · rw [tdlcdPoll_full full, noData]
    · rw [tdlcdPoll_between empty full, BitVec.and_or_distrib_right, noData, noRoom]
      rfl

/-! ### A body that wakes nobody -/

def Call.clears : Call → Bool
  | .ioctl cmd => cmd == CTRL_CLC
  | _ => false

def Outcome.wakes : Outcome → Bool
  | .delivered _ => true
  | .accepted _ => true
  | _ => false

private theorem readBody_quiet {dev after : TdlcdDev} {count : Nat} {userFault : Bool}
    {outcome : Outcome} (executed : readBody dev count userFault = some (after, outcome))
    (quiet : outcome.wakes = false) : after = dev := by
  cases userFault with
  | true =>
      cases executed
      rfl
  | false =>
      simp only [readBody, Bool.false_eq_true, if_false] at executed
      obtain ⟨bytes, _, shifted⟩ := Option.bind_eq_some_iff.mp executed
      obtain ⟨mem, _, returned⟩ := Option.bind_eq_some_iff.mp shifted
      cases returned
      cases quiet

private theorem writeBody_quiet {dev after : TdlcdDev} {buf : List UInt8}
    {userFault : Option (List UInt8)} {outcome : Outcome}
    (executed : writeBody dev buf userFault = some (after, outcome))
    (quiet : outcome.wakes = false) : after.currentLen = dev.currentLen := by
  cases userFault with
  | some left =>
      obtain ⟨mem, _, returned⟩ := Option.bind_eq_some_iff.mp executed
      cases returned
      rfl
  | none =>
      obtain ⟨mem, _, returned⟩ := Option.bind_eq_some_iff.mp executed
      cases returned
      cases quiet

/-- Only `CTRL_CLC` changes `current_len` without a wake-up. -/
theorem execBody_quiet {dev after : TdlcdDev} {call : Call} {outcome : Outcome}
    (executed : execBody dev call = some (after, outcome)) (quiet : outcome.wakes = false) :
    after.currentLen = if call.clears then 0 else dev.currentLen := by
  unfold execBody at executed
  by_cases waits : mustWait dev call
  · have keeps : call.clears = false := by
      cases call with
      | read count nonblock userFault => rfl
      | write buf nonblock userFault => rfl
      | ioctl cmd => cases waits
    rw [if_pos waits] at executed
    rw [keeps, if_neg Bool.false_ne_true]
    by_cases nonblock : isNonblocking call
    · rw [if_pos nonblock] at executed
      cases executed
      rfl
    · rw [if_neg nonblock] at executed
      cases executed
      rfl
  · rw [if_neg waits] at executed
    cases call with
    | read count nonblock userFault =>
        rw [readBody_quiet executed quiet]
        rfl
    | write buf nonblock userFault => exact writeBody_quiet executed quiet
    | ioctl cmd =>
        have returned : ioctlBody dev cmd = (after, outcome) := Option.some.inj executed
        rw [← show (ioctlBody dev cmd).1 = after by rw [returned]]
        simp only [ioctlBody, Call.clears, beq_iff_eq]
        split <;> rfl

theorem BodySpec.stays_empty {dev after : TdlcdDev} {outcome : Outcome}
    (spec : BodySpec dev after outcome) (noWrite : ∀ bytes, outcome ≠ .accepted bytes)
    (empty : dev.currentLen = 0) : after.currentLen = 0 := by
  rw [← TdlcdDev.stored_length] at empty ⊢
  have nothing := List.length_eq_zero_iff.mp empty
  have explained := spec.explained
  cases outcome with
  | accepted bytes => exact absurd rfl (noWrite bytes)
  | delivered bytes =>
      have split : dev.stored = bytes ++ after.stored := explained
      rw [nothing] at split
      rw [(List.append_eq_nil_iff.mp split.symm).2]
      rfl
  | cleared =>
      have cleared : after.stored = [] := explained
      rw [cleared]
      rfl
  | sleeps =>
      have same : after.stored = dev.stored := explained
      rw [same, nothing]
      rfl
  | error errno =>
      have same : after.stored = dev.stored := explained
      rw [same, nothing]
      rfl

/-! ### Threads asleep in a select -/

def Operation.clears : Operation Thread File → Bool
  | .body _ call => call.clears
  | _ => false

private theorem anyClears_iff {operations : List (Operation Thread File)} :
    operations.any Operation.clears = true ↔
      ∃ thread, .body thread (.ioctl CTRL_CLC) ∈ operations := by
  rw [List.any_eq_true]
  constructor
  · intro found
    obtain ⟨operation, member, clears⟩ := found
    cases operation with
    | body thread call =>
        cases call with
        | ioctl cmd =>
            have same : cmd = CTRL_CLC := beq_iff_eq.mp clears
            exact ⟨thread, same ▸ member⟩
        | read count nonblock userFault => cases clears
        | write buf nonblock userFault => cases clears
    | select thread wanted => cases clears
    | leave thread => cases clears
    | fasync file mode => cases clears
    | release file => cases clears
  · intro found
    obtain ⟨thread, member⟩ := found
    exact ⟨_, member, rfl⟩

/-- The thread has slept since its last select, which found nothing that it wanted. -/
structure SleepsSince (operations : List (Operation Thread File)) (dev : TdlcdDev)
    (thread : Thread) (wanted : BitVec 32) (later : List (Operation Thread File)) : Prop where
  selected : ∃ before, operations = before ++ .select thread wanted :: later
  last : ∀ other, Operation.select thread other ∉ later
  empty : readable &&& wanted ≠ 0 → dev.currentLen = 0
  full : writable &&& wanted ≠ 0 →
    dev.currentLen = if later.any Operation.clears then 0 else SIZE

def EachSleeps (operations : List (Operation Thread File)) (watched : Watched Thread File) :
    Prop :=
  ∀ thread wanted, (thread, wanted) ∈ watched.asleep →
    ∃ later, SleepsSince operations watched.dev thread wanted later

theorem SleepsSince.extend {operations later : List (Operation Thread File)}
    {dev after : TdlcdDev} {thread : Thread} {wanted : BitVec 32}
    (sleeps : SleepsSince operations dev thread wanted later)
    (operation : Operation Thread File) (other : ∀ events, operation ≠ .select thread events)
    (quiet : after.currentLen = if operation.clears then 0 else dev.currentLen) :
    SleepsSince (operations ++ [operation]) after thread wanted (later ++ [operation]) where
  selected := by
    obtain ⟨before, split⟩ := sleeps.selected
    exact ⟨before, by rw [split, List.append_assoc, List.cons_append]⟩
  last := by
    intro events member
    rcases List.mem_append.mp member with earlier | new
    · exact sleeps.last events earlier
    · exact other events (List.mem_singleton.mp new).symm
  empty := by
    intro wantsData
    rw [quiet, sleeps.empty wantsData, ite_self]
  full := by
    intro wantsRoom
    rw [quiet, sleeps.full wantsRoom, List.any_append]
    cases cleared : operation.clears with
    | true => simp [cleared]
    | false => simp [cleared]

section Steps

variable [DecidableEq Thread] [DecidableEq File]

omit [DecidableEq File] in
private theorem not_asleep {watched : Watched Thread File} {thread : Thread}
    (awake : watched.isAsleep thread = false) (wanted : BitVec 32) :
    (thread, wanted) ∉ watched.asleep := by
  intro member
  have found : watched.isAsleep thread = true :=
    List.any_eq_true.mpr ⟨_, member, beq_self_eq_true thread⟩
  rw [awake] at found
  cases found

private theorem perform_eachSleeps {operations : List (Operation Thread File)}
    {before after : Watched Thread File} {operation : Operation Thread File}
    (each : EachSleeps operations before) (performed : before.perform operation = some after) :
    EachSleeps (operations ++ [operation]) after := by
  cases operation with
  | body thread call =>
      simp only [Watched.perform] at performed
      split at performed
      · cases performed
      · obtain ⟨⟨dev, outcome⟩, executed, told⟩ := Option.bind_eq_some_iff.mp performed
        cases wakes : outcome.wakes with
        | true =>
            intro other wanted member
            cases outcome <;> cases wakes <;> cases told <;> cases member
        | false =>
            have quiet := execBody_quiet executed wakes
            have same : after = { before with dev := dev } := by
              cases outcome <;> cases wakes <;> cases told <;> rfl
            subst same
            intro other wanted member
            obtain ⟨later, sleeps⟩ := each other wanted member
            exact ⟨_, sleeps.extend (.body thread call) (by intro events; simp) quiet⟩
  | select thread wanted =>
      simp only [Watched.perform] at performed
      split at performed
      · cases performed
      · next awake =>
          have awakeThread := Bool.eq_false_iff.mpr awake
          have others : ∀ other events, (other, events) ∈ before.asleep →
              ∃ later, SleepsSince (operations ++ [.select thread wanted]) before.dev other
                events later := by
            intro other events member
            obtain ⟨later, sleeps⟩ := each other events member
            have apart : ∀ seen, (.select thread wanted : Operation Thread File) ≠
                .select other seen := by
              intro seen same
              cases same
              exact not_asleep awakeThread events member
            exact ⟨_, sleeps.extend (.select thread wanted) apart rfl⟩
          by_cases found : tdlcdPoll before.dev &&& wanted ≠ 0
          · rw [if_pos found] at performed
            cases performed
            exact others
          · rw [if_neg found] at performed
            cases performed
            intro other events member
            rcases List.mem_cons.mp member with new | earlier
            · cases new
              obtain ⟨empty, full⟩ := tdlcdPoll_none_wanted (not_not.mp found)
              exact ⟨[], ⟨operations, rfl⟩, by simp, empty, full⟩
            · exact others other events earlier
  | leave thread =>
      cases performed
      intro other wanted member
      obtain ⟨later, sleeps⟩ := each other wanted (List.mem_filter.mp member).1
      exact ⟨_, sleeps.extend _ (by simp) rfl⟩
  | fasync file mode =>
      cases performed
      cases mode <;> exact fun other wanted member =>
        let ⟨later, sleeps⟩ := each other wanted member
        ⟨_, sleeps.extend _ (by simp) rfl⟩
  | release file =>
      cases performed
      intro other wanted member
      obtain ⟨later, sleeps⟩ := each other wanted member
      exact ⟨_, sleeps.extend _ (by simp) rfl⟩

private theorem perform_body {watched : Watched Thread File} {thread : Thread} {call : Call}
    {dev : TdlcdDev} {outcome : Outcome} (awake : watched.isAsleep thread = false)
    (executed : execBody watched.dev call = some (dev, outcome)) :
    watched.perform (.body thread call) = some ({ watched with dev := dev }.tell outcome) := by
  simp only [Watched.perform, awake, executed, Bool.false_eq_true, if_false]
  rfl

private theorem perform_select_asleep {watched : Watched Thread File} {thread : Thread}
    {wanted : BitVec 32} (awake : watched.isAsleep thread = false)
    (nothing : tdlcdPoll watched.dev &&& wanted = 0) :
    watched.perform (.select thread wanted) =
      some { watched with asleep := (thread, wanted) :: watched.asleep } := by
  simp only [Watched.perform, awake, nothing, Bool.false_eq_true, if_false, ne_eq,
    not_true_eq_false]

/-- A thread asleep in a select for room misses the room that `CTRL_CLC` made since, and
no thread misses anything else. -/
theorem select_misses_only_clear {operations : List (Operation Thread File)}
    {final : Watched Thread File}
    (run : runAll Watched.perform initWatched operations = some final)
    {thread : Thread} {wanted : BitVec 32} (asleep : (thread, wanted) ∈ final.asleep) :
    ∃ before later, operations = before ++ .select thread wanted :: later ∧
      (∀ events, Operation.select thread events ∉ later) ∧
      (tdlcdPoll final.dev &&& wanted ≠ 0 ↔
        writable &&& wanted ≠ 0 ∧ ∃ other, .body other (.ioctl CTRL_CLC) ∈ later) := by
  have each : EachSleeps operations final := by
    apply runAll_history EachSleeps run
    · intro other events member
      cases member
    · intro done before operation after each performed
      exact perform_eachSleeps each performed
  obtain ⟨later, sleeps⟩ := each thread wanted asleep
  obtain ⟨before, split⟩ := sleeps.selected
  refine ⟨before, later, split, sleeps.last, ?_⟩
  rw [← anyClears_iff]
  by_cases wantsRoom : writable &&& wanted ≠ 0
  · have len := sleeps.full wantsRoom
    by_cases cleared : later.any Operation.clears
    · rw [if_pos cleared] at len
      rw [tdlcdPoll_empty len]
      exact iff_of_true wantsRoom ⟨wantsRoom, cleared⟩
    · rw [if_neg cleared] at len
      have noData : readable &&& wanted = 0 := by
        by_contra wantsData
        have empty := sleeps.empty wantsData
        rw [len] at empty
        cases empty
      rw [tdlcdPoll_full len]
      exact iff_of_false (not_not.mpr noData) fun both => cleared both.2
  · refine iff_of_false (not_not.mpr ?_) fun both => wantsRoom both.1
    by_cases wantsData : readable &&& wanted ≠ 0
    · rw [tdlcdPoll_empty (sleeps.empty wantsData)]
      exact not_not.mp wantsRoom
    · exact tdlcdPoll_nothing (not_not.mp wantsData) (not_not.mp wantsRoom)

theorem select_misses_this_clear :
    ∃ final : Watched Nat Nat,
      runAll Watched.perform initWatched
        [.body 0 (.write (List.replicate SIZE 0) false none), .select 1 POLLOUT,
          .body 2 (.ioctl CTRL_CLC)] = some final ∧
      (1, POLLOUT) ∈ final.asleep ∧ tdlcdPoll final.dev &&& POLLOUT ≠ 0 := by
  obtain ⟨full, filled, length⟩ := write_fills
  have roomy : execBody kzallocDev (.write (List.replicate SIZE 0) false none) =
      some (full, .accepted (List.replicate SIZE 0)) := filled
  have noneAsleep : (initWatched : Watched Nat Nat).isAsleep 0 = false := rfl
  have written := perform_body noneAsleep roomy
  have run : runAll Watched.perform (initWatched : Watched Nat Nat)
      [.body 0 (.write (List.replicate SIZE 0) false none), .select 1 POLLOUT,
        .body 2 (.ioctl CTRL_CLC)] =
      some { dev := kzallocDev, asyncQueue := [], asleep := [(1, POLLOUT)], sent := [] } := by
    rw [runAll, List.foldlM_cons, written, Option.bind_eq_bind, Option.bind_some,
      List.foldlM_cons, perform_select_asleep rfl]
    · rfl
    · change tdlcdPoll full &&& POLLOUT = 0
      rw [tdlcdPoll_full length]
      rfl
  have asleep : (1, POLLOUT) ∈ [(1, POLLOUT)] := List.mem_cons_self
  refine ⟨_, run, asleep, ?_⟩
  obtain ⟨before, later, split, _, misses⟩ := select_misses_only_clear run asleep
  refine misses.mpr ⟨by decide, 2, ?_⟩
  rcases before with _ | ⟨first, _ | ⟨second, _ | ⟨third, more⟩⟩⟩
  · cases split
  · obtain ⟨_, rest⟩ : _ ∧ _ = later := by simpa using split
    rw [← rest]
    exact List.mem_cons_self
  · cases split
  · simp at split

/-! ### SIGIO -/

def subscribedAfter (file : File) (on : Bool) : Operation Thread File → Bool
  | .fasync other mode => if other = file then mode else on
  | .release other => if other = file then false else on
  | _ => on

/-- The file's last `fasync` was on, and it was not released since. -/
def subscribed (file : File) (operations : List (Operation Thread File)) : Bool :=
  operations.foldl (subscribedAfter file) false

omit [DecidableEq Thread] in
theorem subscribed_snoc (file : File) (operations : List (Operation Thread File))
    (operation : Operation Thread File) :
    subscribed file (operations ++ [operation]) =
      subscribedAfter file (subscribed file operations) operation := by
  rw [subscribed, List.foldl_append]
  rfl

omit [DecidableEq Thread] in
private theorem subscribed_append {file : File} {before later : List (Operation Thread File)}
    {on : Bool} (subscription : subscribed file before = on)
    (unchanged : ∀ operation ∈ later, subscribedAfter file on operation = on) :
    subscribed file (before ++ later) = on := by
  induction later using List.reverseRecOn with
  | nil => rw [List.append_nil, subscription]
  | append_singleton done operation ih =>
      have earlier := ih fun other member =>
        unchanged other (List.mem_append_left _ member)
      rw [← List.append_assoc, subscribed_snoc, earlier]
      exact unchanged operation (by simp)

/-- What the queue and the device have in common with the operations so far. -/
structure Follows (operations : List (Operation Thread File))
    (watched : Watched Thread File) : Prop where
  bounded : watched.dev.Bounded
  distinct : watched.asyncQueue.Nodup
  queued : ∀ file, file ∈ watched.asyncQueue ↔ subscribed file operations = true

omit [DecidableEq Thread] in
private theorem tdlcdFasync_follows {operations : List (Operation Thread File)}
    {watched : Watched Thread File} (follows : Follows operations watched) (file : File)
    {mode : Bool} {operation : Operation Thread File}
    (changes : ∀ other on, subscribedAfter other on operation =
      if file = other then mode else on) :
    Follows (operations ++ [operation]) (tdlcdFasync watched file mode) := by
  cases mode with
  | true =>
      refine ⟨follows.bounded, follows.distinct.insert, ?_⟩
      intro other
      rw [subscribed_snoc, changes]
      change other ∈ watched.asyncQueue.insert file ↔ _
      rw [List.mem_insert_iff, follows.queued]
      by_cases same : file = other
      · rw [if_pos same]
        exact iff_of_true (Or.inl same.symm) rfl
      · rw [if_neg same]
        exact or_iff_right fun equal => same equal.symm
  | false =>
      refine ⟨follows.bounded, follows.distinct.erase file, ?_⟩
      intro other
      rw [subscribed_snoc, changes]
      change other ∈ watched.asyncQueue.erase file ↔ _
      rw [follows.distinct.mem_erase_iff, follows.queued]
      by_cases same : file = other
      · rw [if_pos same]
        exact iff_of_false (fun both => both.1 same.symm) Bool.false_ne_true
      · rw [if_neg same]
        exact and_iff_right fun equal => same equal.symm

/-- A step sends SIGIO to the whole queue or to nobody, and to the queue when the device
turns readable. -/
theorem perform_sent {operations : List (Operation Thread File)}
    {before after : Watched Thread File} {operation : Operation Thread File}
    (follows : Follows operations before) (performed : before.perform operation = some after) :
    Follows (operations ++ [operation]) after ∧
      ∃ during, after.sent = before.sent ++ during ∧
        (during = before.asyncQueue ∨
          during = [] ∧ (before.dev.currentLen = 0 → after.dev.currentLen = 0)) := by
  have unchanged : ∀ (dev : TdlcdDev) (asleep : List (Thread × BitVec 32)) (sent : List File),
      dev.Bounded → (∀ file on, subscribedAfter file on operation = on) →
      Follows (operations ++ [operation]) ⟨dev, before.asyncQueue, asleep, sent⟩ := by
    intro dev asleep sent bounded keeps
    refine ⟨bounded, follows.distinct, ?_⟩
    intro file
    rw [subscribed_snoc, keeps]
    exact follows.queued file
  cases operation with
  | body thread call =>
      simp only [Watched.perform] at performed
      split at performed
      · cases performed
      · obtain ⟨⟨dev, outcome⟩, executed, told⟩ := Option.bind_eq_some_iff.mp performed
        obtain ⟨dev', outcome', executed', spec⟩ := execBody_spec follows.bounded call
        rw [executed] at executed'
        cases executed'
        have silent : ∀ asleep sent, dev.Bounded →
            Follows (operations ++ [.body thread call])
              ⟨dev, before.asyncQueue, asleep, sent⟩ := fun asleep sent bounded =>
          unchanged dev asleep sent bounded fun _ _ => rfl
        cases outcome with
        | accepted bytes =>
            cases told
            exact ⟨silent _ _ spec.bounded, before.asyncQueue, rfl, Or.inl rfl⟩
        | _ =>
            cases told
            refine ⟨silent _ _ spec.bounded, [], (List.append_nil _).symm, Or.inr ⟨rfl, ?_⟩⟩
            exact spec.stays_empty (by simp)
  | select thread wanted =>
      simp only [Watched.perform] at performed
      split at performed
      · cases performed
      · split at performed
        · cases performed
          exact ⟨unchanged _ _ _ follows.bounded (fun _ _ => rfl), [], (List.append_nil _).symm,
            Or.inr ⟨rfl, id⟩⟩
        · cases performed
          exact ⟨unchanged _ _ _ follows.bounded (fun _ _ => rfl), [], (List.append_nil _).symm,
            Or.inr ⟨rfl, id⟩⟩
  | leave thread =>
      cases performed
      exact ⟨unchanged _ _ _ follows.bounded (fun _ _ => rfl), [], (List.append_nil _).symm,
        Or.inr ⟨rfl, id⟩⟩
  | fasync file mode =>
      cases performed
      refine ⟨tdlcdFasync_follows follows file fun _ _ => rfl, [], ?_, Or.inr ⟨rfl, ?_⟩⟩
      · cases mode <;> exact (List.append_nil _).symm
      · cases mode <;> exact id
  | release file =>
      cases performed
      exact ⟨tdlcdFasync_follows follows file fun _ _ => rfl, [], (List.append_nil _).symm,
        Or.inr ⟨rfl, id⟩⟩

def Told (before later : List (Operation Thread File)) (start final : Watched Thread File)
    (file : File) : Prop :=
  ∃ during, final.sent = start.sent ++ during ∧
    (subscribed file before = true →
      (∀ operation ∈ later, operation ≠ .fasync file false ∧ operation ≠ .release file) →
      start.dev.currentLen = 0 → final.dev.currentLen ≠ 0 → file ∈ during) ∧
    (subscribed file before = false → Operation.fasync file true ∉ later → file ∉ during)

omit [DecidableEq Thread] in
private theorem subscribedAfter_on {file : File} {operation : Operation Thread File}
    (kept : operation ≠ .fasync file false ∧ operation ≠ .release file) :
    subscribedAfter file true operation = true := by
  cases operation with
  | fasync other mode =>
      change (if other = file then mode else true) = true
      by_cases same : other = file
      · subst same
        rw [if_pos rfl]
        exact eq_true_of_ne_false fun off => kept.1 (by rw [off])
      · rw [if_neg same]
  | release other =>
      change (if other = file then false else true) = true
      rw [if_neg fun same => kept.2 (by rw [same])]
  | _ => rfl

omit [DecidableEq Thread] in
private theorem subscribedAfter_off {file : File} {operation : Operation Thread File}
    (kept : operation ≠ .fasync file true) :
    subscribedAfter file false operation = false := by
  cases operation with
  | fasync other mode =>
      change (if other = file then mode else false) = false
      by_cases same : other = file
      · subst same
        rw [if_pos rfl]
        exact eq_false_of_ne_true fun on => kept (by rw [on])
      · rw [if_neg same]
  | release other => exact ite_self _
  | _ => rfl

omit [DecidableEq Thread] in
theorem Told.extend {before done : List (Operation Thread File)}
    {start state after : Watched Thread File} {file : File} {operation : Operation Thread File}
    {during : List File} (told : Told before done start state file)
    (follows : Follows (before ++ done) state) (sent : after.sent = state.sent ++ during)
    (queue : during = state.asyncQueue ∨
      during = [] ∧ (state.dev.currentLen = 0 → after.dev.currentLen = 0)) :
    Told before (done ++ [operation]) start after file := by
  obtain ⟨earlier, sentEarlier, reached, spared⟩ := told
  refine ⟨earlier ++ during, by rw [sent, sentEarlier, List.append_assoc], ?_, ?_⟩
  · intro on kept startEmpty nowReadable
    have keptEarlier := fun other member => kept other (List.mem_append_left _ member)
    by_cases empty : state.dev.currentLen = 0
    · rcases queue with whole | silent
      · apply List.mem_append_right
        rw [whole, follows.queued]
        exact subscribed_append on fun other member => subscribedAfter_on (keptEarlier other member)
      · exact absurd (silent.2 empty) nowReadable
    · exact List.mem_append_left _ (reached on keptEarlier startEmpty empty)
  · intro off kept
    have keptEarlier : Operation.fasync file true ∉ done :=
      fun member => kept (List.mem_append_left _ member)
    rw [List.mem_append]
    apply not_or.mpr ⟨spared off keptEarlier, ?_⟩
    rcases queue with whole | silent
    · have still := subscribed_append off fun other member =>
        subscribedAfter_off fun same => keptEarlier (same ▸ member)
      rw [whole, follows.queued, still]
      exact Bool.false_ne_true
    · rw [silent.1]
      exact List.not_mem_nil

/-- Between two moments of a run SIGIO goes to every file subscribed throughout, if the
device turned readable meanwhile, and to no file that was not subscribed at all. -/
theorem sigio_goes_to_subscribers {before later : List (Operation Thread File)}
    {start final : Watched Thread File}
    (started : runAll Watched.perform initWatched before = some start)
    (run : runAll Watched.perform start later = some final) (file : File) :
    ∃ during, final.sent = start.sent ++ during ∧
      (subscribed file before = true →
        (∀ operation ∈ later, operation ≠ .fasync file false ∧ operation ≠ .release file) →
        start.dev.currentLen = 0 → final.dev.currentLen ≠ 0 → file ∈ during) ∧
      (subscribed file before = false → Operation.fasync file true ∉ later →
        file ∉ during) := by
  have initial : Follows before start := by
    apply runAll_history Follows started
    · exact ⟨kzallocDev_bounded, List.nodup_nil, fun other => by simp [initWatched, subscribed]⟩
    · intro done state operation after follows performed
      exact (perform_sent follows performed).1
  have throughout : Follows (before ++ later) final ∧ Told before later start final file := by
    apply runAll_history (fun done state =>
      Follows (before ++ done) state ∧ Told before done start state file) run
    · rw [List.append_nil]
      exact ⟨initial, [], (List.append_nil _).symm,
        fun _ _ empty readable => absurd empty readable, fun _ _ => List.not_mem_nil⟩
    · intro done state operation after both performed
      rcases both with ⟨follows, told⟩
      obtain ⟨next, during, sent, queue⟩ := perform_sent follows performed
      rw [List.append_assoc] at next
      exact ⟨next, told.extend follows sent queue⟩
  exact throughout.2

/-- File 7 subscribes on the empty device, file 8 does not; then a byte is written. -/
theorem sigio_goes_to_one_subscriber :
    ∃ start final : Watched Nat Nat,
      runAll Watched.perform initWatched [.fasync 7 true] = some start ∧
      runAll Watched.perform start [.body 0 (.write [1] true none)] = some final ∧
      ∃ during, final.sent = start.sent ++ during ∧ 7 ∈ during ∧ 8 ∉ during := by
  obtain ⟨start, started, startAt⟩ : ∃ start : Watched Nat Nat,
      runAll Watched.perform initWatched [.fasync 7 true] = some start ∧
        start = ⟨kzallocDev, [7], [], []⟩ := ⟨_, rfl, rfl⟩
  obtain ⟨final, run, one⟩ : ∃ final : Watched Nat Nat,
      runAll Watched.perform start [.body 0 (.write [1] true none)] = some final ∧
        final.dev.currentLen = 1 := by
    rw [startAt]
    exact ⟨_, rfl, rfl⟩
  refine ⟨start, final, started, run, ?_⟩
  obtain ⟨during, sent, reached, _⟩ := sigio_goes_to_subscribers started run 7
  obtain ⟨during', sent', _, spared⟩ := sigio_goes_to_subscribers started run 8
  have same : during = during' := List.append_cancel_left (sent.symm.trans sent')
  refine ⟨during, sent, ?_, ?_⟩
  · refine reached (by decide) (by simp) (by rw [startAt]; rfl) ?_
    rw [one]
    exact Nat.one_ne_zero
  · rw [same]
    exact spared (by decide) (by simp)

end Steps

end OsCompiler.Tdlcd
