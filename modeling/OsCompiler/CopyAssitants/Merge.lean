/-
What a run of the copy assistant leaves in the destination.

The recursion is a list of tasks carried out in order, one for each directory and each
file that is new enough. No task has the path of another or of a directory that an
earlier one needed, so that each path is decided by one task alone. All this is so while
there are descriptors enough, of which some tasks keep one.
-/

import Mathlib.Algebra.Ring.Nat
import Mathlib.Data.List.Nodup
import OsCompiler.CopyAssitants.Recursive

namespace OsCompiler.CopyAssitants

/-! ### The names that a run puts together -/

def fileNames : Listing → List Name → List (List Name)
  | .done, _ => []
  | .leaf name _ rest, des => (des ++ [name]) :: fileNames rest des
  | .directory name inner rest, des =>
      (des ++ [name]) :: (if isHidden name then [] else fileNames inner (des ++ [name])) ++
        fileNames rest des

def destFiles : Listing → List Name → List (List Name)
  | .done, _ => []
  | .leaf name _ rest, des =>
      if isHidden name then destFiles rest des else (des ++ [name]) :: destFiles rest des
  | .directory name inner rest, des =>
      if isHidden name then destFiles rest des
      else (des ++ [name]) :: destFiles inner (des ++ [name]) ++ destFiles rest des

def stats : Listing → List Stat
  | .done => []
  | .leaf name stat rest => if isHidden name then stats rest else stat :: stats rest
  | .directory name inner rest => if isHidden name then stats rest else stats inner ++ stats rest

def strLen (path : List Name) : Nat := (path.map fun name => name.length + 1).sum

/-- Every path string that is put together fits into its buffer, and every `Stat` that is
looked at has been filled. -/
def Defined (srcLen desLen : Nat) (listing : Listing) (des : List Name) : Prop :=
  (∀ path ∈ fileNames listing des, srcLen + strLen path < dirMaxDepth) ∧
    (∀ path ∈ destFiles listing des, desLen + strLen path < dirMaxDepth) ∧
      ∀ stat ∈ stats listing, stat ≠ .failed

instance (srcLen desLen : Nat) (listing : Listing) (des : List Name) :
    Decidable (Defined srcLen desLen listing des) :=
  inferInstanceAs (Decidable (_ ∧ _ ∧ _))

theorem strLen_snoc (path : List Name) (name : Name) :
    strLen (path ++ [name]) = strLen path + 1 + name.length := by
  simp only [strLen, List.map_append, List.map_cons, List.map_nil, List.sum_append,
    List.sum_cons, List.sum_nil]
  omega

theorem fits_iff {length : Nat} {des : List Name} {name : Name} :
    fits (length + strLen des) name = true ↔ length + strLen (des ++ [name]) < dirMaxDepth := by
  rw [fits, decide_eq_true_eq, strLen_snoc, Nat.add_assoc, Nat.add_assoc, Nat.add_assoc]

section Buffers

variable {srcLen desLen : Nat} {des : List Name} {name : Name}

theorem defined_leaf {stat : Stat} {rest : Listing} :
    Defined srcLen desLen (.leaf name stat rest) des ↔
      fits (srcLen + strLen des) name = true ∧
        (isHidden name = false → fits (desLen + strLen des) name = true ∧ stat ≠ .failed) ∧
          Defined srcLen desLen rest des := by
  rw [fits_iff, fits_iff]
  cases hidden : isHidden name with
  | true => simp [Defined, fileNames, destFiles, stats, hidden, and_assoc]
  | false =>
      simp only [Defined, fileNames, destFiles, stats, hidden, List.forall_mem_cons,
        Bool.false_eq_true, if_false, true_implies]
      tauto

theorem defined_directory {inner rest : Listing} :
    Defined srcLen desLen (.directory name inner rest) des ↔
      fits (srcLen + strLen des) name = true ∧
        (isHidden name = false → fits (desLen + strLen des) name = true ∧
          Defined srcLen desLen inner (des ++ [name])) ∧
          Defined srcLen desLen rest des := by
  rw [fits_iff, fits_iff]
  cases hidden : isHidden name with
  | true => simp [Defined, fileNames, destFiles, stats, hidden, and_assoc]
  | false =>
      simp only [Defined, fileNames, destFiles, stats, hidden, List.forall_mem_cons,
        List.forall_mem_append, List.cons_append, Bool.false_eq_true, if_false, true_implies]
      tauto

end Buffers

/-! ### Tasks -/

structure Task where
  des : List Name
  name : Name
  entry : Entry
  deriving DecidableEq

def Task.path (task : Task) : List Name := task.des ++ [task.name]

def leafTasks (time : Int) (des : List Name) (name : Name) : Stat → List Task
  | .regular content mtime => if mtime > time then [⟨des, name, .regular content⟩] else []
  | .sealed => [⟨des, name, .directory⟩]
  | .other | .failed => []

def tasks (time : Int) : Listing → List Name → List Task
  | .done, _ => []
  | .leaf name stat rest, des =>
      (if isHidden name then [] else leafTasks time des name stat) ++ tasks time rest des
  | .directory name inner rest, des =>
      if isHidden name then tasks time rest des
      else ⟨des, name, .directory⟩ :: tasks time inner (des ++ [name]) ++ tasks time rest des

section Install

variable (permits : List Name → Bool)

def install (tree : Tree) (task : Task) : Tree :=
  match task.entry with
  | .directory => (folderMake permits tree task.des task.name).1
  | .regular src =>
      match openDest permits tree task.des task.name with
      | none => tree
      | some content => Function.update tree task.path (some (.regular (copyLoop content 0 src)))

/-- The descriptors that a task keeps: that of a directory, and that of a source whose
destination cannot be opened. -/
def Task.keeps (tree : Tree) (task : Task) : Nat :=
  match task.entry with
  | .directory => 1
  | .regular _ => if openDest permits tree task.des task.name = none then 1 else 0

def keeps : List Task → Tree → Nat
  | [], _ => 0
  | task :: rest, tree => task.keeps permits tree + keeps rest (install permits tree task)

private theorem keeps_append (early late : List Task) (tree : Tree) :
    keeps permits (early ++ late) tree =
      keeps permits early tree + keeps permits late (early.foldl (install permits) tree) := by
  induction early generalizing tree with
  | nil => exact (Nat.zero_add _).symm
  | cons task early ih =>
      rw [List.cons_append, keeps, keeps, ih, List.foldl_cons, Nat.add_assoc]

private theorem copyFile_task (state : State) (des : List Name) (name : Name) (src : Bytes)
    (enough : 2 ≤ state.descriptors) :
    (copyFile permits state des name src).1 =
      ⟨install permits state.tree ⟨des, name, .regular src⟩,
        state.descriptors - Task.keeps permits state.tree ⟨des, name, .regular src⟩⟩ := by
  have some : ¬ state.descriptors = 0 := by omega
  have more : ¬ state.descriptors = 1 := by omega
  simp only [copyFile, install, Task.keeps, Task.path, if_neg some, if_neg more]
  cases openDest permits state.tree des name with
  | none => simp
  | some content => simp

end Install

section Runs

variable {permits : List Name → Bool} {srcLen desLen : Nat}

/-- A run from `state` carries out the tasks, if what it does is defined, and keeps no more
descriptors than they do. -/
structure Carries (permits : List Name → Bool) (work : List Task) (state : State)
    (defined : Prop) (result : Option State) : Prop where
  fails : ¬ defined → result = none
  done : defined → ∃ left, state.descriptors ≤ keeps permits work state.tree + left ∧
    result = some ⟨work.foldl (install permits) state.tree, left⟩

theorem Carries.undefined {work : List Task} {state : State} {defined : Prop}
    (wrong : ¬ defined) : Carries permits work state defined none :=
  ⟨fun _ => rfl, fun right => absurd right wrong⟩

theorem Carries.congr {work : List Task} {state : State} {defined other : Prop}
    {result : Option State} (carries : Carries permits work state defined result)
    (same : other ↔ defined) : Carries permits work state other result :=
  propext same ▸ carries

theorem Carries.cons {task : Task} {work : List Task} {state next : State} {defined : Prop}
    {result : Option State} (carries : Carries permits work next defined result)
    (installed : next.tree = install permits state.tree task)
    (kept : state.descriptors ≤ task.keeps permits state.tree + next.descriptors) :
    Carries permits (task :: work) state defined result where
  fails := carries.fails
  done := by
    intro right
    obtain ⟨left, below, run⟩ := carries.done right
    rw [installed] at below run
    refine ⟨left, ?_, run⟩
    rw [keeps]
    omega

theorem Carries.append {early late : List Task} {state : State} {first second : Prop}
    {result : Option State} {next : State → Option State}
    (carries : Carries permits early state first result)
    (later : ∀ left, state.descriptors ≤ keeps permits early state.tree + left →
      Carries permits late ⟨early.foldl (install permits) state.tree, left⟩ second
        (next ⟨early.foldl (install permits) state.tree, left⟩)) :
    Carries permits (early ++ late) state (first ∧ second) (result.bind next) := by
  by_cases right : first
  · obtain ⟨left, below, run⟩ := carries.done right
    have rest := later left below
    rw [run, Option.bind_some]
    constructor
    · intro wrong
      exact rest.fails fun right' => wrong ⟨right, right'⟩
    · rintro ⟨_, right'⟩
      obtain ⟨left', below', run'⟩ := rest.done right'
      refine ⟨left', ?_, ?_⟩
      · rw [keeps_append]
        dsimp only at below'
        omega
      · rw [List.foldl_append]
        exact run'
  · rw [carries.fails right]
    exact Carries.undefined fun both => right both.1

/-- The tests of a name stand in front of what is done about it. -/
private theorem Carries.guarded {source hidden destination : Bool} {skip take : List Task}
    {state : State} {own rest : Prop} {skipped taken : Option State}
    (passed : hidden = true → Carries permits skip state rest skipped)
    (entered : hidden = false → Carries permits take state (own ∧ rest) taken) :
    Carries permits (if hidden = true then skip else take) state
      (source = true ∧ (hidden = false → destination = true ∧ own) ∧ rest)
      (if !source then none else if hidden then skipped
        else if !destination then none else taken) := by
  cases source with
  | false => exact Carries.undefined fun right => Bool.false_ne_true right.1
  | true =>
      cases hidden with
      | true => exact (passed rfl).congr (by simp)
      | false =>
          cases destination with
          | false => exact Carries.undefined fun right => Bool.false_ne_true (right.2.1 rfl).1
          | true => exact (entered rfl).congr (by simp)

/-- A run is its tasks in order, unless it does what is not defined. -/
theorem recursive_carries (time : Int) (listing : Listing) (des : List Name) (state : State)
    (enough : keeps permits (tasks time listing des) state.tree + 2 ≤ state.descriptors) :
    Carries permits (tasks time listing des) state (Defined srcLen desLen listing des)
      (recursive permits time listing (desLen + strLen des) (srcLen + strLen des) des state) := by
  induction listing generalizing des state with
  | done =>
      refine ⟨fun wrong => absurd ?_ wrong, fun _ => ⟨state.descriptors, Nat.le_add_left _ _, rfl⟩⟩
      exact ⟨nofun, nofun, nofun⟩
  | leaf name stat rest ih =>
      have split : tasks time (.leaf name stat rest) des = if isHidden name = true then
          tasks time rest des else leafTasks time des name stat ++ tasks time rest des := by
        rw [tasks]
        split
        · rfl
        · rfl
      rw [split] at enough ⊢
      rw [recursive.eq_def]
      refine (Carries.guarded (fun hidden => ?_) fun shown => ?_).congr defined_leaf
      · rw [if_pos hidden] at enough
        exact ih des state enough
      rw [shown, if_neg Bool.false_ne_true] at enough
      have known (other : stat ≠ .failed) : stat ≠ .failed ∧ Defined srcLen desLen rest des ↔
          Defined srcLen desLen rest des :=
        and_iff_right other
      cases stat with
      | failed => exact Carries.undefined fun right => right.1 rfl
      | other => exact (ih des state enough).congr (known nofun)
      | sealed =>
          have first : install permits state.tree ⟨des, name, .directory⟩ =
              (folderMake permits state.tree des name).1 := rfl
          rw [leafTasks, List.singleton_append, keeps, first] at enough
          rw [leafTasks, List.singleton_append]
          refine Carries.cons ((ih des _ ?_).congr (known nofun)) first.symm (Nat.le_add_left _ _)
          dsimp only
          omega
      | regular content mtime =>
          rw [leafTasks] at enough ⊢
          by_cases newer : mtime > time
          · rw [if_pos newer, List.singleton_append, keeps] at enough
            have copied := copyFile_task permits state des name content (by omega)
            dsimp only
            rw [if_pos newer, if_pos newer, List.singleton_append, copied]
            refine Carries.cons ((ih des _ ?_).congr (known nofun)) rfl ?_
            · dsimp only
              omega
            · dsimp only
              omega
          · rw [if_neg newer, List.nil_append] at enough
            dsimp only
            rw [if_neg newer, if_neg newer, List.nil_append]
            exact (ih des state enough).congr (known nofun)
  | directory name inner rest ihInner ihRest =>
      have source : srcLen + strLen des + 1 + name.length = srcLen + strLen (des ++ [name]) := by
        rw [strLen_snoc]
        omega
      have destination : desLen + strLen des + 1 + name.length =
          desLen + strLen (des ++ [name]) := by
        rw [strLen_snoc]
        omega
      rw [tasks] at enough
      rw [recursive, tasks, source, destination]
      refine (Carries.guarded (fun hidden => ?_) fun shown => ?_).congr defined_directory
      · rw [if_pos hidden] at enough
        exact ihRest des state enough
      have one : Task.keeps permits state.tree ⟨des, name, .directory⟩ = 1 := rfl
      rw [shown, if_neg Bool.false_ne_true, List.cons_append, keeps, keeps_append, one] at enough
      have some : ¬ state.descriptors = 0 := by omega
      have below := ihInner (des ++ [name])
        ⟨install permits state.tree ⟨des, name, .directory⟩, state.descriptors - 1⟩
        (by dsimp only; omega)
      have later (left : Nat) (enoughLeft : state.descriptors - 1 ≤
          keeps permits (tasks time inner (des ++ [name]))
            (install permits state.tree ⟨des, name, .directory⟩) + left) :=
        ihRest des ⟨(tasks time inner (des ++ [name])).foldl (install permits)
          (install permits state.tree ⟨des, name, .directory⟩), left⟩ (by dsimp only; omega)
      dsimp only
      rw [List.cons_append, if_neg some]
      exact Carries.cons (below.append later) rfl (by dsimp only; omega)

end Runs

/-! ### What one task does to a path -/

/-- What stands at the path of a task afterwards: what was there, unless both are files that
may be written, or nothing was there and the directory was. -/
def combined (permitted : Bool) (entry : Entry) (old parent : Option Entry) : Option Entry :=
  match old, entry with
  | some .directory, _ => some .directory
  | some (.regular content), .directory => some (.regular content)
  | some (.regular content), .regular src =>
      some (.regular (if permitted then overwritten content src else content))
  | none, entry => if permitted = true ∧ parent = some .directory then some entry else none

section Install

variable (permits : List Name → Bool)

private theorem install_self (tree : Tree) (task : Task) :
    install permits tree task task.path =
      combined (permits task.path) task.entry (tree task.path) (tree task.des) := by
  obtain ⟨des, name, entry⟩ := task
  simp only [Task.path, install]
  cases entry with
  | directory =>
      simp only [folderMake]
      cases old : tree (des ++ [name]) with
      | none =>
          by_cases there : permits (des ++ [name]) = true ∧ tree des = some .directory
          · simp [there, combined]
          · rw [if_neg (by simp), if_neg there]
            simp [there, combined, old]
      | some entry =>
          cases entry <;> simp [combined, old]
  | regular content =>
      simp only [openDest]
      cases permitted : permits (des ++ [name]) with
      | false =>
          cases old : tree (des ++ [name]) with
          | none => simp [combined, old]
          | some entry => cases entry <;> simp [combined, old]
      | true =>
          cases old : tree (des ++ [name]) with
          | none =>
              by_cases there : tree des = some .directory
              · simp [there, combined, copyLoop_zero, overwritten_nil]
              · simp [there, combined, old]
          | some entry =>
              cases entry <;> simp [combined, copyLoop_zero, old]

theorem install_other (tree : Tree) (task : Task) {path : List Name} (other : path ≠ task.path) :
    install permits tree task path = tree path := by
  obtain ⟨des, name, entry⟩ := task
  simp only [Task.path] at other
  simp only [install]
  cases entry with
  | directory =>
      simp only [folderMake]
      split
      · rfl
      · split
        · exact Function.update_of_ne other _ _
        · rfl
  | regular content =>
      cases openDest permits tree des name with
      | none => rfl
      | some there => exact Function.update_of_ne other _ _

private theorem combined_twice (permitted : Bool) (entry : Entry) (old parent : Option Entry) :
    combined permitted entry (combined permitted entry old parent) parent =
      combined permitted entry old parent := by
  cases old with
  | none =>
      by_cases there : permitted = true ∧ parent = some .directory
      · cases entry with
        | directory => simp [combined, there]
        | regular src => simp [combined, there, overwritten]
      · simp [combined, there]
  | some old =>
      cases old with
      | directory => rfl
      | regular content =>
          cases entry with
          | directory => rfl
          | regular src => cases permitted <;> simp [combined, overwritten_twice]

end Install

/-! ### What all of them do -/

/-- The destination afterwards: the path of a task is decided by that task, and nothing
else has changed. -/
structure Merged (permits : List Name → Bool) (work : List Task) (tree final : Tree) : Prop where
  others : ∀ path, (∀ task ∈ work, path ≠ task.path) → final path = tree path
  decided : ∀ task ∈ work, final task.path =
    combined (permits task.path) task.entry (tree task.path) (final task.des)

/-- A later task touches neither the path nor the directory of an earlier one. -/
def Apart (earlier later : Task) : Prop :=
  earlier.path ≠ later.path ∧ earlier.des ≠ later.path

theorem Task.des_ne_path (task : Task) : task.des ≠ task.path := by
  intro same
  have lengths := congrArg List.length same
  rw [Task.path, List.length_append, List.length_singleton] at lengths
  omega

section Work

variable {permits : List Name → Bool} {work : List Task} {tree final : Tree}

theorem merged_foldl (apart : work.Pairwise Apart) (tree : Tree) :
    Merged permits work tree (work.foldl (install permits) tree) := by
  induction work generalizing tree with
  | nil => exact ⟨fun _ _ => rfl, fun _ listed => absurd listed List.not_mem_nil⟩
  | cons task rest ih =>
      rcases List.pairwise_cons.mp apart with ⟨first, later⟩
      have merged := ih later (install permits tree task)
      constructor
      · intro path different
        rw [List.foldl_cons, merged.others path fun other listed =>
          different other (List.mem_cons_of_mem _ listed)]
        exact install_other permits tree task (different task List.mem_cons_self)
      · intro other listed
        rw [List.foldl_cons]
        rcases List.mem_cons.mp listed with rfl | listed
        · rw [merged.others other.path fun later listed => (first later listed).1,
            merged.others other.des fun later listed => (first later listed).2,
            install_self, install_other permits tree other other.des_ne_path]
        · rw [merged.decided other listed,
            install_other permits tree task (first other listed).1.symm]

/-- Once all tasks are carried out, each of them finds its work done. -/
theorem Merged.install_done (merged : Merged permits work tree final) {task : Task}
    (listed : task ∈ work) : install permits final task = final := by
  funext path
  by_cases here : path = task.path
  · rw [here, install_self, merged.decided task listed, combined_twice]
  · exact install_other permits final task here

private theorem foldl_done {start : Tree}
    (done : ∀ task ∈ work, install permits start task = start) :
    work.foldl (install permits) start = start := by
  induction work with
  | nil => rfl
  | cons task rest ih =>
      rw [List.foldl_cons, done task List.mem_cons_self]
      exact ih fun later listed => done later (List.mem_cons_of_mem _ listed)

/-- A destination that could be opened can be opened again. -/
theorem Task.keeps_again (task : Task) {later : Tree}
    (same : later task.path = install permits tree task task.path) :
    task.keeps permits later ≤ task.keeps permits tree := by
  obtain ⟨des, name, entry⟩ := task
  cases entry with
  | directory => exact Nat.le_refl _
  | regular src =>
      cases opened : openDest permits tree des name with
      | none =>
          simp only [Task.keeps, opened, if_true]
          split <;> omega
      | some content =>
          have permitted : permits (des ++ [name]) = true := by
            by_contra refused
            rw [openDest, if_pos (by simpa using refused)] at opened
            cases opened
          have there : later (des ++ [name]) = some (.regular (copyLoop content 0 src)) := by
            rw [Task.path] at same
            rw [same]
            simp [install, Task.path, opened]
          have again : openDest permits later des name ≠ none := by
            rw [openDest, if_neg (by simp [permitted]), there]
            exact nofun
          simp only [Task.keeps, if_neg again]
          exact Nat.zero_le _

/-- Tasks that find their work done keep no more descriptors than when they did it. -/
theorem keeps_again (apart : work.Pairwise Apart)
    (final_eq : work.foldl (install permits) tree = final)
    (done : ∀ task ∈ work, install permits final task = final) :
    keeps permits work final ≤ keeps permits work tree := by
  induction work generalizing tree with
  | nil => exact Nat.le_refl 0
  | cons task rest ih =>
      rcases List.pairwise_cons.mp apart with ⟨first, later⟩
      rw [List.foldl_cons] at final_eq
      have merged : Merged permits rest (install permits tree task) _ := merged_foldl later _
      have others := merged.others task.path fun other listed => (first other listed).1
      rw [final_eq] at others
      rw [keeps, keeps, done task List.mem_cons_self]
      exact Nat.add_le_add (task.keeps_again others)
        (ih later final_eq fun other listed => done other (List.mem_cons_of_mem _ listed))

private theorem openDest_ne_none {des : List Name} {name : Name}
    (permitted : permits (des ++ [name]) = true) (free : tree (des ++ [name]) ≠ some .directory)
    (parent : tree des = some .directory) : openDest permits tree des name ≠ none := by
  rw [openDest, if_neg (by simp [permitted])]
  cases old : tree (des ++ [name]) with
  | none => simp [parent]
  | some entry =>
      cases entry with
      | directory => exact absurd old free
      | regular content => exact nofun

/-- Where every file can be opened, only directories keep a descriptor. -/
theorem keeps_le_directories (apart : work.Pairwise Apart)
    (permitted : ∀ task ∈ work, permits task.path = true)
    (free : ∀ task ∈ work, task.entry ≠ .directory → tree task.path ≠ some .directory)
    (made : ∀ task ∈ work, work.foldl (install permits) tree task.des = some .directory) :
    keeps permits work tree ≤ work.countP fun task => task.entry = .directory := by
  induction work generalizing tree with
  | nil => exact Nat.le_refl 0
  | cons task rest ih =>
      rcases List.pairwise_cons.mp apart with ⟨first, later⟩
      have merged : Merged permits rest (install permits tree task) _ := merged_foldl later _
      have parent : tree task.des = some .directory := by
        rw [← made task List.mem_cons_self, List.foldl_cons,
          merged.others task.des fun other listed => (first other listed).2,
          install_other permits tree task task.des_ne_path]
      have one : task.keeps permits tree ≤ if task.entry = .directory then 1 else 0 := by
        rcases kind : task.entry with _ | src
        · simp [Task.keeps, kind]
        · have opened := openDest_ne_none (permitted task List.mem_cons_self)
            (free task List.mem_cons_self (by simp [kind])) parent
          simp [Task.keeps, kind, opened]
      rw [keeps, List.countP_cons, Nat.add_comm]
      refine Nat.add_le_add (ih later ?_ ?_ ?_) (by simpa using one)
      · exact fun other listed => permitted other (List.mem_cons_of_mem _ listed)
      · intro other listed file
        rw [install_other permits tree task (first other listed).1.symm]
        exact free other (List.mem_cons_of_mem _ listed) file
      · exact fun other listed => made other (List.mem_cons_of_mem _ listed)

end Work

/-! ### The tasks of a listing -/

section Tasks

variable {time : Int}

theorem destFiles_longer {listing : Listing} {des path : List Name}
    (listed : path ∈ destFiles listing des) : des.length < path.length := by
  induction listing generalizing des with
  | done => cases listed
  | leaf name stat rest ih =>
      rw [destFiles] at listed
      split at listed
      · exact ih listed
      · rcases List.mem_cons.mp listed with rfl | later
        · simp
        · exact ih later
  | directory name inner rest ihInner ihRest =>
      rw [destFiles] at listed
      split at listed
      · exact ihRest listed
      · rcases List.mem_append.mp listed with inside | later
        · rcases List.mem_cons.mp inside with rfl | below
          · simp
          · have deeper := ihInner below
            rw [List.length_append, List.length_singleton] at deeper
            omega
        · exact ihRest later

/-- A leaf has one task at most, and that at its own path. -/
theorem leafTasks_cases (time : Int) (des : List Name) (name : Name) (stat : Stat) :
    leafTasks time des name stat = [] ∨
      ∃ entry, leafTasks time des name stat = [⟨des, name, entry⟩] := by
  cases stat with
  | regular content mtime =>
      rw [leafTasks]
      split
      · exact Or.inr ⟨_, rfl⟩
      · exact Or.inl rfl
  | sealed => exact Or.inr ⟨_, rfl⟩
  | other => exact Or.inl rfl
  | failed => exact Or.inl rfl

theorem task_listed {listing : Listing} {des : List Name} {task : Task}
    (member : task ∈ tasks time listing des) : task.path ∈ destFiles listing des := by
  induction listing generalizing des with
  | done => cases member
  | leaf name stat rest ih =>
      rw [tasks] at member
      rw [destFiles]
      by_cases hidden : isHidden name = true
      · rw [if_pos hidden, List.nil_append] at member
        rw [if_pos hidden]
        exact ih member
      rw [if_neg hidden] at member
      rw [if_neg hidden]
      rcases List.mem_append.mp member with own | later
      · rcases leafTasks_cases time des name stat with none | ⟨entry, one⟩
        · rw [none] at own
          cases own
        · rw [one] at own
          rw [List.mem_singleton.mp own]
          exact List.mem_cons_self
      · exact List.mem_cons_of_mem _ (ih later)
  | directory name inner rest ihInner ihRest =>
      rw [tasks] at member
      rw [destFiles]
      by_cases hidden : isHidden name = true
      · rw [if_pos hidden] at member
        rw [if_pos hidden]
        exact ihRest member
      rw [if_neg hidden] at member
      rw [if_neg hidden]
      rcases List.mem_append.mp member with inside | later
      · rcases List.mem_cons.mp inside with rfl | below
        · exact List.mem_append_left _ List.mem_cons_self
        · exact List.mem_append_left _ (List.mem_cons_of_mem _ (ihInner below))
      · exact List.mem_append_right _ (ihRest later)

/-- The directory of a task is the one given, or one that has a task of its own. -/
theorem task_des {listing : Listing} {des : List Name} {task : Task}
    (member : task ∈ tasks time listing des) :
    task.des = des ∨ ∃ parent ∈ tasks time listing des,
      parent.path = task.des ∧ parent.entry = .directory := by
  induction listing generalizing des with
  | done => cases member
  | leaf name stat rest ih =>
      rw [tasks] at member ⊢
      rcases List.mem_append.mp member with own | later
      · left
        split at own
        · cases own
        · rcases leafTasks_cases time des name stat with none | ⟨entry, one⟩
          · rw [none] at own
            cases own
          · rw [one] at own
            rw [List.mem_singleton.mp own]
      · exact (ih later).imp_right fun ⟨parent, listed, found⟩ =>
          ⟨parent, List.mem_append_right _ listed, found⟩
  | directory name inner rest ihInner ihRest =>
      rw [tasks] at member ⊢
      by_cases hidden : isHidden name = true
      · rw [if_pos hidden] at member ⊢
        exact ihRest member
      rw [if_neg hidden] at member ⊢
      rcases List.mem_append.mp member with inside | later
      · rcases List.mem_cons.mp inside with rfl | below
        · exact Or.inl rfl
        · right
          rcases ihInner below with here | ⟨parent, listed, found⟩
          · exact ⟨⟨des, name, .directory⟩, List.mem_append_left _ List.mem_cons_self,
              here.symm, rfl⟩
          · exact ⟨parent, List.mem_append_left _ (List.mem_cons_of_mem _ listed), found⟩
      · exact (ihRest later).imp_right fun ⟨parent, listed, found⟩ =>
          ⟨parent, List.mem_append_right _ listed, found⟩

/-- A name that is not seen again is apart from all the tasks that follow. -/
theorem apart_first {des : List Name} {name : Name} (entry : Entry) {rest : Listing}
    (fresh : des ++ [name] ∉ destFiles rest des) :
    ∀ later ∈ tasks time rest des, Apart ⟨des, name, entry⟩ later := by
  intro later listed
  constructor
  · intro same
    apply fresh
    change des ++ [name] = later.path at same
    rw [same]
    exact task_listed listed
  · intro same
    have longer := destFiles_longer (task_listed listed)
    rw [← same] at longer
    exact Nat.lt_irrefl _ longer

theorem tasks_apart {listing : Listing} {des : List Name}
    (distinct : (destFiles listing des).Nodup) : (tasks time listing des).Pairwise Apart := by
  induction listing generalizing des with
  | done => exact List.Pairwise.nil
  | leaf name stat rest ih =>
      rw [destFiles] at distinct
      rw [tasks]
      by_cases hidden : isHidden name = true
      · rw [if_pos hidden] at distinct
        rw [if_pos hidden]
        exact ih distinct
      rw [if_neg hidden] at distinct
      rw [if_neg hidden]
      rcases List.nodup_cons.mp distinct with ⟨fresh, later⟩
      rcases leafTasks_cases time des name stat with none | ⟨entry, one⟩
      · rw [none]
        exact ih later
      · rw [one]
        exact List.pairwise_cons.mpr ⟨apart_first entry fresh, ih later⟩
  | directory name inner rest ihInner ihRest =>
      rw [destFiles] at distinct
      rw [tasks]
      by_cases hidden : isHidden name = true
      · rw [if_pos hidden] at distinct
        rw [if_pos hidden]
        exact ihRest distinct
      rw [if_neg hidden] at distinct
      rw [if_neg hidden]
      obtain ⟨inside, later, disjoint⟩ := List.nodup_append.mp distinct
      rcases List.nodup_cons.mp inside with ⟨fresh, below⟩
      have unseen : des ++ [name] ∉ destFiles rest des := fun seen =>
        disjoint _ List.mem_cons_self _ seen rfl
      refine List.pairwise_append.mpr
        ⟨List.pairwise_cons.mpr ⟨?_, ihInner below⟩, ihRest later, ?_⟩
      · intro task listed
        refine ⟨fun same => fresh ?_, fun same => ?_⟩
        · have seen := task_listed listed
          rw [← same] at seen
          exact seen
        · have longer := destFiles_longer (task_listed listed)
          change des = task.path at same
          rw [← same, List.length_append] at longer
          omega
      · intro earlier member task listed
        rcases List.mem_cons.mp member with rfl | member
        · exact apart_first _ unseen task listed
        · constructor
          · intro same
            exact disjoint _ (List.mem_cons_of_mem _ (task_listed member)) _
              (task_listed listed) same
          · intro same
            rcases task_des member with here | ⟨parent, found, at', _⟩
            · apply unseen
              rw [← here, same]
              exact task_listed listed
            · exact disjoint _ (List.mem_cons_of_mem _ (task_listed found)) _
                (task_listed listed) (at'.trans same)

private theorem root_unlisted {listing : Listing} {task : Task}
    (listed : task ∈ tasks time listing []) :
    [] ≠ task.path := by
  intro same
  have longer := destFiles_longer (task_listed listed)
  rw [← same] at longer
  exact Nat.lt_irrefl _ longer

end Tasks

/-! ### A run of the program -/

section Runs

variable {mktime : Bytes → Int} {time : Bytes} {desLen srcLen : Nat} {listing : Listing}
  {grants : Grants} {tree final : Tree}

def runTasks (mktime : Bytes → Int) (time : Bytes) (listing : Listing) : List Task :=
  tasks (timeToInt mktime time) listing []

def descriptorsFor (grants : Grants) (work : List Task) (tree : Tree) : Nat :=
  3 + keeps grants.permits work (main.makeDes grants tree)

theorem main_eq (mktime : Bytes → Int) (time : Bytes) (desLen srcLen : Nat) (listing : Listing)
    (grants : Grants) (tree : Tree)
    (enough : descriptorsFor grants (runTasks mktime time listing) tree ≤ grants.descriptors) :
    main mktime time desLen srcLen (.directory listing) grants tree =
      if Defined srcLen desLen listing [] then
        some ((runTasks mktime time listing).foldl (install grants.permits)
          (main.makeDes grants tree))
      else none := by
  rw [descriptorsFor, runTasks] at enough
  have carries : Carries grants.permits (tasks (timeToInt mktime time) listing [])
      ⟨main.makeDes grants tree, grants.descriptors - 1⟩ (Defined srcLen desLen listing [])
      (recursive grants.permits (timeToInt mktime time) listing (desLen + strLen [])
        (srcLen + strLen []) [] ⟨main.makeDes grants tree, grants.descriptors - 1⟩) := by
    apply recursive_carries
    dsimp only
    omega
  have some : ¬ grants.descriptors = 0 := by omega
  rw [main]
  dsimp only
  rw [if_neg some]
  by_cases right : Defined srcLen desLen listing []
  · obtain ⟨left, _, run⟩ := carries.done right
    rw [if_pos right]
    exact congrArg (Option.map State.tree) run
  · rw [if_neg right]
    exact congrArg (Option.map State.tree) (carries.fails right)

/-- With enough descriptors, a run overruns no buffer and looks at no `Stat` that was not
filled exactly if all path strings fit and `stat` succeeds. Then every path that it has
a task for, one for each directory and each newer file, is decided by that task alone: a
directory stays, a file keeps what is longer than its source, and a missing entry is made
where its directory is, all this if the kernel permits it. Nothing else in the destination
changes. -/
theorem main_merges (mktime : Bytes → Int) (time : Bytes) (desLen srcLen : Nat)
    (grants : Grants) (tree : Tree) (distinct : (destFiles listing []).Nodup)
    (enough : descriptorsFor grants (runTasks mktime time listing) tree ≤ grants.descriptors) :
    (Defined srcLen desLen listing [] ↔
      ∃ final, main mktime time desLen srcLen (.directory listing) grants tree = some final) ∧
    ∀ final, main mktime time desLen srcLen (.directory listing) grants tree = some final →
      Merged grants.permits (runTasks mktime time listing) (main.makeDes grants tree) final := by
  rw [main_eq _ _ _ _ _ _ _ enough]
  by_cases right : Defined srcLen desLen listing []
  · rw [if_pos right]
    refine ⟨iff_of_true right ⟨_, rfl⟩, ?_⟩
    intro final run
    rw [← Option.some.inj run]
    exact merged_foldl (tasks_apart distinct) _
  · rw [if_neg right]
    refine ⟨iff_of_false right ?_, ?_⟩
    · rintro ⟨final, impossible⟩
      cases impossible
    · intro final impossible
      cases impossible

private theorem makeDes_again {work : List Task} (unlisted : ∀ task ∈ work, [] ≠ task.path)
    (merged : Merged grants.permits work (main.makeDes grants tree) final) :
    main.makeDes grants final = final := by
  have root := merged.others [] unlisted
  unfold main.makeDes at root ⊢
  cases possible : grants.desParent with
  | false => simp
  | true =>
      rw [if_neg]
      rw [possible] at root
      rw [root]
      cases old : tree [] <;> simp [old]

/-- A second run that finds the source as the first one did changes nothing. -/
theorem main_twice (distinct : (destFiles listing []).Nodup)
    (enough : descriptorsFor grants (runTasks mktime time listing) tree ≤ grants.descriptors)
    (run : main mktime time desLen srcLen (.directory listing) grants tree = some final) :
    main mktime time desLen srcLen (.directory listing) grants final = some final := by
  have apart : (runTasks mktime time listing).Pairwise Apart := tasks_apart distinct
  rw [main_eq _ _ _ _ _ _ _ enough] at run
  by_cases right : Defined srcLen desLen listing []
  · rw [if_pos right] at run
    have merged : Merged grants.permits _ (main.makeDes grants tree) _ := merged_foldl apart _
    rw [Option.some.inj run] at merged
    have there := makeDes_again (fun task listed => root_unlisted listed) merged
    have done := fun task (listed : task ∈ runTasks mktime time listing) =>
      merged.install_done listed
    have again : descriptorsFor grants (runTasks mktime time listing) final ≤
        grants.descriptors := by
      have fewer := keeps_again apart (Option.some.inj run) done
      rw [descriptorsFor] at enough ⊢
      rw [there]
      omega
    rw [main_eq _ _ _ _ _ _ _ again, if_pos right, there, foldl_done done]
  · rw [if_neg right] at run
    cases run

/-- No file stands where a directory is wanted and no directory where a file is, and the
kernel permits all that there is to do. -/
structure NothingInTheWay (permits : List Name → Bool) (work : List Task) (tree : Tree) :
    Prop where
  root : tree [] = some .directory
  alike : ∀ task ∈ work, ∀ old, tree task.path = some old →
    (old = .directory ↔ task.entry = .directory)
  permitted : ∀ task ∈ work, permits task.path = true

theorem Merged.directories {permits : List Name → Bool} {time : Int} {start : Tree}
    (merged : Merged permits (tasks time listing []) start final)
    (free : NothingInTheWay permits (tasks time listing []) start) {task : Task}
    (member : task ∈ tasks time listing []) : final task.des = some .directory := by
  obtain ⟨bound, below⟩ : ∃ bound, task.des.length < bound := ⟨_, Nat.lt_succ_self _⟩
  induction bound generalizing task with
  | zero => exact absurd below (Nat.not_lt_zero _)
  | succ bound ih =>
      rcases task_des member with root | ⟨parent, listed, path, directory⟩
      · rw [root, merged.others [] fun other listed => root_unlisted listed]
        exact free.root
      · have shorter : parent.des.length < parent.path.length := by
          rw [Task.path, List.length_append, List.length_singleton]
          exact Nat.lt_succ_self _
        rw [path] at shorter
        have above := ih listed (by omega)
        rw [← path, merged.decided parent listed, above, directory, free.permitted parent listed]
        cases old : start parent.path with
        | none => simp [combined]
        | some old' =>
            have alike := (free.alike parent listed old' old).mpr directory
            rw [alike]
            rfl

private theorem combined_eq_iff {entry : Entry} {old : Option Entry}
    (alike : ∀ there, old = some there → (there = .directory ↔ entry = .directory)) :
    combined true entry old (some .directory) = some entry ↔
      ∀ src content, entry = .regular src → old = some (.regular content) →
        content.length ≤ src.length := by
  cases old with
  | none => simp [combined]
  | some there =>
      have same := alike there rfl
      cases there with
      | directory => simp [combined, same.mp rfl]
      | regular content =>
          cases entry with
          | directory => cases same.mpr rfl
          | regular src => simp [combined, overwritten_eq_iff]

/-- Where nothing is in the way, and there are descriptors for all directories and for one
copy, the destination has each directory and a true copy of each newer file afterwards,
exactly if no file there was longer than its source. -/
theorem main_copies_iff (distinct : (destFiles listing []).Nodup)
    (free : NothingInTheWay grants.permits (runTasks mktime time listing)
      (main.makeDes grants tree))
    (enough : 3 + (runTasks mktime time listing).countP (fun task => task.entry = .directory) ≤
      grants.descriptors)
    (run : main mktime time desLen srcLen (.directory listing) grants tree = some final) :
    (∀ task ∈ runTasks mktime time listing, final task.path = some task.entry) ↔
    ∀ task ∈ runTasks mktime time listing, ∀ src content,
      task.entry = .regular src →
      main.makeDes grants tree task.path = some (.regular content) →
      content.length ≤ src.length := by
  have apart : (runTasks mktime time listing).Pairwise Apart := tasks_apart distinct
  have merged : Merged grants.permits _ (main.makeDes grants tree) _ := merged_foldl apart _
  have few := keeps_le_directories apart free.permitted
    (fun task listed file there => file ((free.alike task listed _ there).mp rfl))
    (fun task listed => merged.directories free listed)
  rw [main_eq _ _ _ _ _ _ _ (by rw [descriptorsFor]; omega)] at run
  by_cases right : Defined srcLen desLen listing []
  · rw [if_pos right] at run
    rw [Option.some.inj run] at merged
    apply forall_congr'
    intro task
    apply imp_congr_right
    intro member
    rw [merged.decided task member, merged.directories free member, free.permitted task member,
      combined_eq_iff (free.alike task member)]
  · rw [if_neg right] at run
    cases run

end Runs

/-! ### A run on a small directory -/

def smallListing : Listing :=
  .directory [100] (.leaf [102] (.regular [1] 7) .done) (.leaf [111] (.regular [5] 2) .done)

def smallTree : Tree := fun path =>
  if path = [] then some .directory
  else if path = [[100]] then some .directory
  else if path = [[100], [102]] then some (.regular [9, 9])
  else none

def smallGrants : Grants := ⟨false, fun _ => true, 4⟩

theorem small_enough : descriptorsFor smallGrants
    (runTasks (fun _ => 3) (List.replicate 14 48) smallListing) smallTree ≤
      smallGrants.descriptors := by
  decide

theorem main_merges_small :
    ∃ final, main (fun _ => 3) (List.replicate 14 48) 8 8 (.directory smallListing) smallGrants
        smallTree = some final ∧
      final [[100], [102]] = some (.regular [1, 9]) ∧ final [[111]] = none := by
  have distinct : (destFiles smallListing []).Nodup := by decide
  obtain ⟨defined, after⟩ := main_merges (fun _ => 3) (List.replicate 14 48) 8 8 smallGrants
    smallTree distinct small_enough
  obtain ⟨final, run⟩ := defined.mp (by decide)
  have merged := after final run
  refine ⟨final, run, ?_, ?_⟩
  · exact merged.decided ⟨[[100]], [102], .regular [1]⟩ (by decide)
  · exact merged.others [[111]] (by decide)

theorem main_twice_small :
    ∃ final, main (fun _ => 3) (List.replicate 14 48) 8 8 (.directory smallListing) smallGrants
        smallTree = some final ∧
      main (fun _ => 3) (List.replicate 14 48) 8 8 (.directory smallListing) smallGrants
        final = some final := by
  have distinct : (destFiles smallListing []).Nodup := by decide
  have run := main_eq (fun _ => 3) (List.replicate 14 48) 8 8 smallListing smallGrants smallTree
    small_enough
  rw [if_pos (by decide)] at run
  exact ⟨_, run, main_twice distinct small_enough run⟩

theorem main_copies_small :
    ∃ final, main (fun _ => 3) (List.replicate 14 48) 8 8 (.directory smallListing) smallGrants
        smallTree = some final ∧
      ¬ ∀ task ∈ tasks 3 smallListing [], final task.path = some task.entry := by
  have distinct : (destFiles smallListing []).Nodup := by decide
  have run := main_eq (fun _ => 3) (List.replicate 14 48) 8 8 smallListing smallGrants smallTree
    small_enough
  rw [if_pos (by decide)] at run
  have free : NothingInTheWay smallGrants.permits
      (runTasks (fun _ => 3) (List.replicate 14 48) smallListing)
      (main.makeDes smallGrants smallTree) := by
    refine ⟨rfl, ?_, fun _ _ => rfl⟩
    intro task member old found
    rcases List.mem_cons.mp member with rfl | member
    · have there : smallTree [[100]] = some .directory := rfl
      rw [Option.some.inj (found.symm.trans there)]
    · rcases List.mem_singleton.mp member with rfl
      have there : smallTree [[100], [102]] = some (.regular [9, 9]) := rfl
      rw [Option.some.inj (found.symm.trans there)]
      decide
  refine ⟨_, run, ?_⟩
  intro copies
  have short := (main_copies_iff distinct free (by decide) run).mp copies
    ⟨[[100]], [102], .regular [1]⟩ (by decide) [1] [9, 9] rfl rfl
  exact absurd short (by decide)

/-- With one descriptor less the file is left out. -/
example : (main (fun _ => 3) (List.replicate 14 48) 8 8 (.directory smallListing)
    { smallGrants with descriptors := 3 } smallTree).map (fun final => final [[100], [102]]) =
      some (some (.regular [9, 9])) := by
  rfl

end OsCompiler.CopyAssitants
