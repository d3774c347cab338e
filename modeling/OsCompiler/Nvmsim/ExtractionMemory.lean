/-
The buffers of the extraction functions: which of them are given back.

A buffer is taken with `auto_malloc` and given back with `auto_free`, which picks the
same allocator as long as it is told the same size. Both are recorded under the name of
the variable and the size; a null pointer given to `auto_free` is nothing.
-/

import OsCompiler.Lib.ResourceLedger
import OsCompiler.Nvmsim.Extraction

namespace OsCompiler.Nvmsim

open OsCompiler.ResourceEvent

/-- The variables that hold buffers; `key` and `addr` are those of the two selections. -/
inductive BufferName
  | barray
  | marray
  | bigKey
  | bigAddr
  | smallKey
  | smallAddr
  | rarray
  | parray
deriving DecidableEq

structure Buffer where
  name : BufferName
  size : Nat
deriving DecidableEq

abbrev BufferEvents := ResourceLedger Buffer

def mallocEvents (granted : Bool) (name : BufferName) (size : Nat) (events : BufferEvents) :
    BufferEvents :=
  if granted then events.acquire ⟨name, size⟩ else events

/-- `pointer` says whether the variable is not null. -/
def autoFree (pointer : Bool) (name : BufferName) (size : Nat) (events : BufferEvents) :
    BufferEvents :=
  if pointer then events.release ⟨name, size⟩ else events

/-- `bigK_index` and `smallK_index`: the array of the keys is given back, the other one
returned to the caller. -/
def kIndexEvents (key addr : BufferName) (granted : KGrants) (n k : Nat) (events : BufferEvents) :
    BufferEvents :=
  if n = 0 ∨ k > n ∨ k = 0 then events
  else
    let events := mallocEvents granted.key key (wordBytes * k) events
    let events := mallocEvents granted.addr addr (wordBytes * k) events
    if !granted.key || !granted.addr then
      let events := autoFree granted.key key (wordBytes * k) events
      autoFree granted.addr addr (wordBytes * k) events
    else autoFree true key (wordBytes * k) events

section Functions

variable {bits entries : Nat}

def extractBigSmallTraced (granted : ExtractGrants) (bitmap : Option (Region Word bits))
    (infotable : Option (Region Nat entries)) (pageCount n k : Word) :
    Option ((Nat × Option WordArray × Option WordArray) × BufferEvents) :=
  match infotable, bitmap with
  | some infotable, some bitmap =>
      let pages := wordBytes * pageCount.toNat
      let events := mallocEvents granted.barray .barray pages []
      let events := mallocEvents granted.marray .marray pages events
      if !granted.barray || !granted.marray then
        let events := autoFree granted.marray .marray pages events
        some ((0, none, none), autoFree granted.barray .barray pages events)
      else do
        match ← compactPages granted bitmap infotable pageCount n with
        | none => pure ((0, none, none), events)
        | some work =>
            let earray ← bigKIndex granted.bigK (some work.marray) pageCount.toNat k.toNat
            let events := kIndexEvents .bigKey .bigAddr granted.bigK pageCount.toNat k.toNat events
            let farray ← smallKIndex granted.smallK (some work.marray) pageCount.toNat k.toNat
            let events :=
              kIndexEvents .smallKey .smallAddr granted.smallK pageCount.toNat k.toNat events
            match earray, farray with
            | some earray, some farray =>
                let rarray ← autoMalloc granted.rarray (wordBytes * k.toNat)
                let events := mallocEvents granted.rarray .rarray (wordBytes * k.toNat) events
                let parray ← autoMalloc granted.parray (wordBytes * k.toNat)
                let events := mallocEvents granted.parray .parray (wordBytes * k.toNat) events
                let (rarray, parray) ← forRange 0 k.toNat (fun i (rarray, parray) => do
                  let rarray ← translate work.barray earray i rarray
                  let parray ← translate work.barray farray i parray
                  pure (rarray, parray)) (rarray, parray)
                let events := autoFree true .barray pages events
                let events := autoFree true .marray pages events
                let events := autoFree true .bigAddr (wordBytes * k.toNat) events
                pure ((work.avg / pageCount.toNat, some ⟨_, rarray⟩, some ⟨_, parray⟩), events)
            | _, _ => pure ((0, none, none), events)
  | _, _ => some ((0, none, none), [])

def extractExtremeTraced (beyond : Nat → Nat → Prop) [DecidableRel beyond] (key addr : BufferName)
    (granted : ExtractGrants) (kGranted : KGrants) (bitmap : Region Word bits)
    (infotable : Region Nat entries) (pageCount n k : Word) :
    Option ((Nat × Option WordArray) × BufferEvents) :=
  let pages := wordBytes * pageCount.toNat
  let events := mallocEvents granted.barray .barray pages []
  let events := mallocEvents granted.marray .marray pages events
  if !granted.barray || !granted.marray then
    let events := autoFree granted.marray .marray pages events
    some ((0, none), autoFree granted.barray .barray pages events)
  else do
    match ← compactPages granted bitmap infotable pageCount n with
    | none => pure ((0, none), events)
    | some work =>
        let earray ← kIndex beyond kGranted (some work.marray) pageCount.toNat k.toNat
        let events := kIndexEvents key addr kGranted pageCount.toNat k.toNat events
        match earray with
        | none => pure ((0, none), events)
        | some earray =>
            let rarray ← autoMalloc granted.rarray (wordBytes * k.toNat)
            let events := mallocEvents granted.rarray .rarray (wordBytes * k.toNat) events
            let rarray ← forRange 0 k.toNat (translate work.barray earray) rarray
            let events := autoFree true .barray pages events
            let events := autoFree true .marray pages events
            let events := autoFree true addr (wordBytes * k.toNat) events
            pure ((work.avg / pageCount.toNat, some ⟨_, rarray⟩), events)

def extractSmallTraced (granted : ExtractGrants) (bitmap : Option (Region Word bits))
    (infotable : Option (Region Nat entries)) (pageCount n k : Word) :
    Option ((Nat × Option WordArray) × BufferEvents) :=
  match infotable, bitmap with
  | some infotable, some bitmap =>
      extractExtremeTraced (· > ·) .smallKey .smallAddr granted granted.smallK bitmap infotable
        pageCount n k
  | _, _ => some ((0, none), [])

def extractBigTraced (granted : ExtractGrants) (bitmap : Option (Region Word bits))
    (infotable : Option (Region Nat entries)) (n k : Word) :
    Option ((Nat × Option WordArray) × BufferEvents) :=
  match infotable, bitmap with
  | some infotable, some bitmap => do
      let pageCount ← Nvmsim.pageCount (some bitmap) n
      extractExtremeTraced (· < ·) .bigKey .bigAddr granted granted.bigK bitmap infotable
        pageCount n k
  | _, _ => some ((0, none), [])

/-! ### The traced functions compute the same -/

theorem compactPages_of_refused {granted : ExtractGrants} {bitmap : Region Word bits}
    {infotable : Region Nat entries} {pageCount n : Word}
    (refused : (!granted.barray || !granted.marray) = true) :
    compactPages granted bitmap infotable pageCount n = some none := by
  apply compactPages_refused
  intro both
  rw [both.1, both.2] at refused
  cases refused

theorem extractBigSmallTraced_fst (granted : ExtractGrants) (bitmap : Option (Region Word bits))
    (infotable : Option (Region Nat entries)) (pageCount n k : Word) :
    (extractBigSmallTraced granted bitmap infotable pageCount n k).map Prod.fst =
      extractBigSmall granted bitmap infotable pageCount n k none none := by
  unfold extractBigSmallTraced extractBigSmall
  cases infotable with
  | none => rfl
  | some infotable =>
      cases bitmap with
      | none => rfl
      | some bitmap =>
          by_cases refused : (!granted.barray || !granted.marray) = true
          · simp [refused, compactPages_of_refused refused]
          · simp only [refused, Bool.false_eq_true, if_false]
            cases gathered : compactPages granted bitmap infotable pageCount n with
            | none => rfl
            | some work =>
                cases work with
                | none => rfl
                | some work =>
                    simp only [Option.bind_eq_bind, Option.bind_some]
                    cases bigKIndex granted.bigK (some work.marray) pageCount.toNat k.toNat with
                    | none => rfl
                    | some earray =>
                        cases smallKIndex granted.smallK (some work.marray) pageCount.toNat
                            k.toNat with
                        | none => rfl
                        | some farray =>
                            cases earray with
                            | none => rfl
                            | some earray =>
                                cases farray with
                                | none => rfl
                                | some farray =>
                                    cases autoMalloc granted.rarray (wordBytes * k.toNat) with
                                    | none => rfl
                                    | some rarray =>
                                        cases autoMalloc granted.parray
                                            (wordBytes * k.toNat) with
                                        | none => rfl
                                        | some parray =>
                                            simp only [Option.bind_some, Option.map_bind]
                                            rfl

private theorem extractExtremeTraced_fst (beyond : Nat → Nat → Prop) [DecidableRel beyond]
    (key addr : BufferName) (granted : ExtractGrants) (kGranted : KGrants)
    (bitmap : Region Word bits) (infotable : Region Nat entries) (pageCount n k : Word) :
    (extractExtremeTraced beyond key addr granted kGranted bitmap infotable pageCount n k).map
        Prod.fst =
      extractExtreme beyond granted kGranted bitmap infotable pageCount n k none := by
  unfold extractExtremeTraced extractExtreme
  by_cases refused : (!granted.barray || !granted.marray) = true
  · simp [refused, compactPages_of_refused refused]
  · simp only [refused, Bool.false_eq_true, if_false]
    cases compactPages granted bitmap infotable pageCount n with
    | none => rfl
    | some work =>
        cases work with
        | none => rfl
        | some work =>
            simp only [Option.bind_eq_bind, Option.bind_some]
            cases kIndex beyond kGranted (some work.marray) pageCount.toNat k.toNat with
            | none => rfl
            | some earray =>
                cases earray with
                | none => rfl
                | some earray =>
                    cases autoMalloc granted.rarray (wordBytes * k.toNat) with
                    | none => rfl
                    | some rarray =>
                        simp only [Option.bind_some, Option.map_bind]
                        rfl

theorem extractSmallTraced_fst (granted : ExtractGrants) (bitmap : Option (Region Word bits))
    (infotable : Option (Region Nat entries)) (pageCount n k : Word) :
    (extractSmallTraced granted bitmap infotable pageCount n k).map Prod.fst =
      extractSmall granted bitmap infotable pageCount n k none := by
  unfold extractSmallTraced extractSmall
  cases infotable with
  | none => rfl
  | some infotable =>
      cases bitmap with
      | none => rfl
      | some bitmap => exact extractExtremeTraced_fst _ _ _ _ _ _ _ _ _ _

theorem extractBigTraced_fst (granted : ExtractGrants) (bitmap : Option (Region Word bits))
    (infotable : Option (Region Nat entries)) (n k : Word) :
    (extractBigTraced granted bitmap infotable n k).map Prod.fst =
      extractBig granted bitmap infotable n k none := by
  unfold extractBigTraced extractBig
  cases infotable with
  | none => rfl
  | some infotable =>
      cases bitmap with
      | none => rfl
      | some bitmap =>
          cases counted : pageCount (some bitmap) n with
          | none => simp [counted]
          | some pages =>
              simp only [counted, Option.bind_eq_bind, Option.bind_some]
              exact extractExtremeTraced_fst _ _ _ _ _ _ _ _ _ _

/-! ### Buffers that are never given back -/

/-- Every buffer that is still taken afterwards is one that the caller gets. -/
def NothingLost (events : BufferEvents) (handed : List BufferName) : Prop :=
  ∀ buffer, events.Leaked buffer → buffer.name ∈ handed

private theorem nothingLost_nil (handed : List BufferName) : NothingLost [] handed := by
  intro buffer leaked
  cases leaked.1

theorem kIndexEvents_extends (key addr : BufferName) (granted : KGrants) (n k : Nat)
    (events : BufferEvents) :
    ResourceLedger.Extends (fun buffer => buffer.name = key ∨ buffer.name = addr) events
      (kIndexEvents key addr granted n k events) := by
  have start := ResourceLedger.Extends.refl
    (fun buffer : Buffer => buffer.name = key ∨ buffer.name = addr) events
  unfold kIndexEvents mallocEvents autoFree
  split
  · exact start
  · cases granted.key <;> cases granted.addr
    · exact start
    · exact (start.acquire (Or.inr rfl)).release (Or.inr rfl)
    · exact (start.acquire (Or.inl rfl)).release (Or.inl rfl)
    · exact ((start.acquire (Or.inl rfl)).acquire (Or.inr rfl)).release (Or.inl rfl)

theorem kIndexEvents_selected {beyond : Nat → Nat → Prop} [DecidableRel beyond]
    {granted : KGrants} {size n k : Nat} {arr : Region Nat size}
    {selected : Region Nat (wordBytes * k % 2 ^ 32 / wordBytes)}
    (found : kIndex beyond granted (some arr) n k = some (some selected))
    (key addr : BufferName) (events : BufferEvents) :
    kIndexEvents key addr granted n k events =
      events ++ [acquired ⟨key, wordBytes * k⟩, acquired ⟨addr, wordBytes * k⟩,
        released ⟨key, wordBytes * k⟩] := by
  unfold kIndex at found
  unfold kIndexEvents mallocEvents autoFree
  by_cases invalid : n = 0 ∨ k > n ∨ k = 0
  · simp [invalid] at found
  · simp only [invalid, if_false] at found ⊢
    cases keyGranted : granted.key <;> cases addrGranted : granted.addr
    · simp [autoMalloc, keyGranted, addrGranted] at found
    · simp [autoMalloc, keyGranted, addrGranted] at found
    · simp [autoMalloc, keyGranted, addrGranted] at found
    · simp [ResourceLedger.acquire, ResourceLedger.release]

theorem refused_iff {granted : ExtractGrants} :
    (!granted.barray || !granted.marray) = true ↔
      ¬ (granted.barray = true ∧ granted.marray = true) := by
  cases granted.barray <;> cases granted.marray <;> decide

/-- A refused work array: the other one, if there is one, is given back. -/
theorem refused_lost {granted : ExtractGrants} {pages : Nat}
    (refused : (!granted.barray || !granted.marray) = true) (handed : List BufferName) :
    NothingLost (autoFree granted.barray .barray pages (autoFree granted.marray .marray pages
      (mallocEvents granted.marray .marray pages (mallocEvents granted.barray .barray pages []))))
      handed := by
  intro buffer leaked
  unfold ResourceLedger.Leaked mallocEvents autoFree at leaked
  cases barray : granted.barray <;> cases marray : granted.marray <;>
    simp [barray, marray, ResourceLedger.acquire, ResourceLedger.release] at leaked refused

/-- Once both work arrays are taken, `barray` is lost unless it is given back. -/
theorem barray_lost {pages : Nat} {events : BufferEvents} {own : Buffer → Prop}
    (extended : ResourceLedger.Extends own
      [acquired ⟨.barray, pages⟩, acquired ⟨.marray, pages⟩] events)
    (foreign : ¬ own ⟨.barray, pages⟩) {handed : List BufferName}
    (kept : BufferName.barray ∉ handed) : ¬ NothingLost events handed := by
  intro nothing
  apply kept
  refine nothing ⟨.barray, pages⟩ ((extended.leaked_iff foreign).mpr ⟨?_, ?_⟩)
  · exact List.mem_cons_self
  · simp

private theorem pages_handed_back (pages size : Nat) (key addr : BufferName) (granted : Bool) :
    NothingLost (autoFree true addr size (autoFree true .marray pages
      (autoFree true .barray pages (mallocEvents granted .rarray size
        (ResourceLedger.acquire (ResourceLedger.acquire [] ⟨.barray, pages⟩) ⟨.marray, pages⟩ ++
          [acquired ⟨key, size⟩, acquired ⟨addr, size⟩, released ⟨key, size⟩])))))
      [.rarray] := by
  intro buffer leaked
  rcases leaked with ⟨taken, kept⟩
  cases granted with
  | false =>
      simp [mallocEvents, autoFree, ResourceLedger.acquire, ResourceLedger.release] at taken kept
      grind
  | true =>
      simp [mallocEvents, autoFree, ResourceLedger.acquire, ResourceLedger.release] at taken kept
      grind

private theorem extractExtremeTraced_lost {beyond : Nat → Nat → Prop} [DecidableRel beyond]
    {key addr : BufferName} {granted : ExtractGrants} {kGranted : KGrants}
    {bitmap : Region Word bits} {infotable : Region Nat entries} {pageCount n k : Word}
    {result : Nat × Option WordArray} {events : BufferEvents}
    (apart : key ≠ .barray ∧ addr ≠ .barray)
    (run : extractExtremeTraced beyond key addr granted kGranted bitmap infotable pageCount n k =
      some (result, events)) :
    NothingLost events [.rarray] ↔
      ¬ (granted.barray = true ∧ granted.marray = true) ∨ result.2.isSome = true := by
  unfold extractExtremeTraced at run
  by_cases refused : (!granted.barray || !granted.marray) = true
  · simp only [refused, if_true, Option.some.injEq, Prod.mk.injEq] at run
    rw [← run.2]
    exact iff_of_true (refused_lost refused _) (Or.inl (refused_iff.mp refused))
  · have both := not_not.mp fun neither => refused (refused_iff.mpr neither)
    simp only [mallocEvents, both.1, both.2, if_true, Option.bind_eq_bind] at run
    obtain ⟨work, gathered, run⟩ := Option.bind_eq_some_iff.mp run
    cases work with
    | none =>
        cases run
        exact iff_of_false
          (barray_lost (ResourceLedger.Extends.refl (fun _ => False) _) (fun own => own) (by simp))
          (by simp [both])
    | some work =>
        obtain ⟨earray, selected, run⟩ := Option.bind_eq_some_iff.mp run
        cases earray with
        | none =>
            cases run
            exact iff_of_false
              (barray_lost (kIndexEvents_extends key addr _ _ _ _)
                (fun own => own.elim (fun same => apart.1 same.symm)
                  fun same => apart.2 same.symm) (by simp))
              (by simp [both])
        | some earray =>
            obtain ⟨rarray, _, run⟩ := Option.bind_eq_some_iff.mp run
            obtain ⟨filled, _, run⟩ := Option.bind_eq_some_iff.mp run
            rw [kIndexEvents_selected selected] at run
            cases run
            exact iff_of_true (pages_handed_back _ _ _ _ _) (Or.inr rfl)

private theorem smallAddr_lost (pages size : Nat) (rarray parray : Bool) :
    ¬ NothingLost (autoFree true .bigAddr size (autoFree true .marray pages
      (autoFree true .barray pages (mallocEvents parray .parray size
        (mallocEvents rarray .rarray size
          (ResourceLedger.acquire (ResourceLedger.acquire [] ⟨.barray, pages⟩) ⟨.marray, pages⟩ ++
            [acquired ⟨.bigKey, size⟩, acquired ⟨.bigAddr, size⟩, released ⟨.bigKey, size⟩] ++
            [acquired ⟨.smallKey, size⟩, acquired ⟨.smallAddr, size⟩,
              released ⟨.smallKey, size⟩]))))))
      [.rarray, .parray] := by
  intro nothing
  have handed := nothing ⟨.smallAddr, size⟩
  cases rarray <;> cases parray <;>
    simp [ResourceLedger.Leaked, mallocEvents, autoFree, ResourceLedger.acquire,
      ResourceLedger.release] at handed

private theorem selection_extends (granted : ExtractGrants) (n k : Nat) (events : BufferEvents) :
    ResourceLedger.Extends (fun buffer => buffer.name ≠ .barray) events
      (kIndexEvents .smallKey .smallAddr granted.smallK n k
        (kIndexEvents .bigKey .bigAddr granted.bigK n k events)) := by
  apply ResourceLedger.Extends.trans
  · apply (kIndexEvents_extends .bigKey .bigAddr granted.bigK n k events).mono
    intro buffer own
    rcases own with same | same <;> simp [same]
  · apply (kIndexEvents_extends .smallKey .smallAddr granted.smallK n k _).mono
    intro buffer own
    rcases own with same | same <;> simp [same]

private theorem extractBigSmallTraced_lost {granted : ExtractGrants} {bitmap : Region Word bits}
    {infotable : Region Nat entries} {pageCount n k : Word}
    {result : Nat × Option WordArray × Option WordArray} {events : BufferEvents}
    (run : extractBigSmallTraced granted (some bitmap) (some infotable) pageCount n k =
      some (result, events)) :
    NothingLost events [.rarray, .parray] ↔
      ¬ (granted.barray = true ∧ granted.marray = true) := by
  unfold extractBigSmallTraced at run
  by_cases refused : (!granted.barray || !granted.marray) = true
  · simp only [refused, if_true, Option.some.injEq, Prod.mk.injEq] at run
    rw [← run.2]
    exact iff_of_true (refused_lost refused _) (refused_iff.mp refused)
  · have both := not_not.mp fun neither => refused (refused_iff.mpr neither)
    refine iff_of_false ?_ (not_not.mpr both)
    simp only [mallocEvents, both.1, both.2, if_true, Option.bind_eq_bind] at run
    obtain ⟨work, gathered, run⟩ := Option.bind_eq_some_iff.mp run
    cases work with
    | none =>
        cases run
        exact barray_lost (ResourceLedger.Extends.refl (fun _ => False) _) (fun own => own)
          (by simp)
    | some work =>
        obtain ⟨earray, big, run⟩ := Option.bind_eq_some_iff.mp run
        obtain ⟨farray, small, run⟩ := Option.bind_eq_some_iff.mp run
        cases earray with
        | none =>
            cases run
            exact barray_lost (selection_extends granted _ _ _) (fun own => own rfl) (by simp)
        | some earray =>
            cases farray with
            | none =>
                cases run
                exact barray_lost (selection_extends granted _ _ _) (fun own => own rfl) (by simp)
            | some farray =>
                obtain ⟨rarray, _, run⟩ := Option.bind_eq_some_iff.mp run
                obtain ⟨parray, _, run⟩ := Option.bind_eq_some_iff.mp run
                obtain ⟨filled, _, run⟩ := Option.bind_eq_some_iff.mp run
                rw [kIndexEvents_selected big, kIndexEvents_selected small] at run
                cases run
                exact smallAddr_lost _ _ _ _

/-- What the three functions give back of the buffers they take, the results apart.
`extract_big_small` always keeps something once it has its work arrays, even when it
succeeds; the other two do so exactly when they fail. -/
theorem extraction_gives_back_iff (granted : ExtractGrants) (bitmap : Option (Region Word bits))
    (infotable : Option (Region Nat entries)) (pageCount n k : Word) :
    (∀ result events,
      extractBigSmallTraced granted bitmap infotable pageCount n k = some (result, events) →
      (NothingLost events [.rarray, .parray] ↔
        (bitmap = none ∨ infotable = none) ∨
          ¬ (granted.barray = true ∧ granted.marray = true))) ∧
    (∀ result events,
      extractSmallTraced granted bitmap infotable pageCount n k = some (result, events) →
      (NothingLost events [.rarray] ↔
        (bitmap = none ∨ infotable = none) ∨
          ¬ (granted.barray = true ∧ granted.marray = true) ∨ result.2.isSome = true)) ∧
    ∀ result events,
      extractBigTraced granted bitmap infotable n k = some (result, events) →
      (NothingLost events [.rarray] ↔
        (bitmap = none ∨ infotable = none) ∨
          ¬ (granted.barray = true ∧ granted.marray = true) ∨ result.2.isSome = true) := by
  cases infotable with
  | none =>
      refine ⟨?_, ?_, ?_⟩ <;> intro result events run <;> cases run <;>
        exact iff_of_true (nothingLost_nil _) (Or.inl (Or.inr rfl))
  | some infotable =>
      cases bitmap with
      | none =>
          refine ⟨?_, ?_, ?_⟩ <;> intro result events run <;> cases run <;>
            exact iff_of_true (nothingLost_nil _) (Or.inl (Or.inl rfl))
      | some bitmap =>
          simp only [reduceCtorEq, or_self, false_or]
          refine ⟨fun result events run => extractBigSmallTraced_lost run,
            fun result events run => extractExtremeTraced_lost (by decide) run, ?_⟩
          intro result events run
          obtain ⟨pages, _, run⟩ := Option.bind_eq_some_iff.mp run
          exact extractExtremeTraced_lost (by decide) run

end Functions

/-- One used page: `extract_big_small` returns both results and loses a buffer. -/
theorem extraction_loses_buffer :
    ∃ result events,
      extractBigSmallTraced ExtractGrants.all (some (⟨fun _ => 1#32⟩ : Region Word 1))
        (some (⟨fun _ => 7⟩ : Region Nat 1)) 1#32 1#32 1#32 = some (result, events) ∧
      result.1 = 7 ∧ ¬ NothingLost events [.rarray, .parray] := by
  obtain ⟨result, events, run, average⟩ : ∃ result events,
      extractBigSmallTraced ExtractGrants.all (some (⟨fun _ => 1#32⟩ : Region Word 1))
        (some (⟨fun _ => 7⟩ : Region Nat 1)) 1#32 1#32 1#32 = some (result, events) ∧
      result.1 = 7 := ⟨_, _, rfl, rfl⟩
  refine ⟨result, events, run, average, ?_⟩
  intro nothing
  have spared := ((extraction_gives_back_iff ExtractGrants.all
    (some (⟨fun _ => 1#32⟩ : Region Word 1)) (some (⟨fun _ => 7⟩ : Region Nat 1)) 1#32 1#32
    1#32).1 result events run).mp nothing
  simp [ExtractGrants.all] at spared

end OsCompiler.Nvmsim
