/-
Counted loops over a partial body: `for (i = start; i < stop; i++) body`.

The loop fails as soon as one turn fails. The rules below carry an invariant that
is indexed by the counter, so that its value at `stop` is what the loop establishes.
-/

import Mathlib.Data.Nat.Init

namespace OsCompiler

variable {σ : Type}

def countedLoop (body : Nat → σ → Option σ) : (count index : Nat) → σ → Option σ
  | 0, _, state => some state
  | count + 1, index, state => (body index state).bind (countedLoop body count (index + 1))

def forRange (start stop : Nat) (body : Nat → σ → Option σ) (state : σ) : Option σ :=
  countedLoop body (stop - start) start state

variable {body : Nat → σ → Option σ} {start stop : Nat} {state : σ}

theorem forRange_empty (empty : stop ≤ start) : forRange start stop body state = some state := by
  rw [forRange, Nat.sub_eq_zero_of_le empty]
  rfl

theorem forRange_step (below : start < stop) :
    forRange start stop body state = (body start state).bind (forRange (start + 1) stop body) := by
  have turns : stop - start = stop - (start + 1) + 1 := by omega
  rw [forRange, turns]
  rfl

/-- The loop may be cut at any counter between its bounds. -/
theorem forRange_split {middle : Nat} (lower : start ≤ middle) (upper : middle ≤ stop) :
    forRange start stop body state =
      (forRange start middle body state).bind (forRange middle stop body) := by
  obtain ⟨turns, rfl⟩ := Nat.exists_eq_add_of_le lower
  clear lower
  induction turns generalizing start state with
  | zero => simp [forRange_empty (Nat.le_refl start)]
  | succ turns ih =>
      have whole : forRange start stop body state =
          (body start state).bind (forRange (start + 1) stop body) := forRange_step (by omega)
      have front : forRange start (start + (turns + 1)) body state =
          (body start state).bind (forRange (start + 1) (start + (turns + 1)) body) :=
        forRange_step (by omega)
      rw [whole, front]
      cases turn : body start state with
      | none => rfl
      | some next =>
          have shifted : start + (turns + 1) = start + 1 + turns := by omega
          simp only [Option.bind_some, shifted]
          exact ih (by omega)

/-- Each turn succeeds under the invariant and moves it one counter on. -/
theorem forRange_progress (Inv : Nat → σ → Prop) (ordered : start ≤ stop)
    (initial : Inv start state)
    (turn : ∀ index state, start ≤ index → index < stop → Inv index state →
      ∃ next, body index state = some next ∧ Inv (index + 1) next) :
    ∃ final, forRange start stop body state = some final ∧ Inv stop final := by
  obtain ⟨turns, rfl⟩ := Nat.exists_eq_add_of_le ordered
  clear ordered
  induction turns generalizing start state with
  | zero => exact ⟨state, forRange_empty (Nat.le_refl start), initial⟩
  | succ turns ih =>
      obtain ⟨next, moved, kept⟩ := turn start state (Nat.le_refl start) (by omega) initial
      have shifted : start + (turns + 1) = start + 1 + turns := by omega
      rw [forRange_step (by omega), moved, Option.bind_some, shifted]
      refine ih kept ?_
      intro index state lower upper
      exact turn index state (by omega) (by omega)

/-- A turn that fails in every state fails the loop. -/
theorem forRange_eq_none (index : Nat) (lower : start ≤ index) (upper : index < stop)
    (fails : ∀ state, body index state = none) : forRange start stop body state = none := by
  rw [forRange_split lower (Nat.le_of_lt upper)]
  cases forRange start index body state with
  | none => rfl
  | some reached => rw [Option.bind_some, forRange_step upper, fails, Option.bind_none]

/-- What every turn keeps holds of the state after the loop. -/
theorem forRange_invariant (Inv : σ → Prop) {final : σ}
    (run : forRange start stop body state = some final) (initial : Inv state)
    (preserved : ∀ index before after, Inv before → body index before = some after → Inv after) :
    Inv final := by
  unfold forRange at run
  generalize stop - start = turns at run
  induction turns generalizing start state with
  | zero =>
      cases run
      exact initial
  | succ turns ih =>
      rcases Option.bind_eq_some_iff.mp run with ⟨next, moved, rest⟩
      exact ih (preserved start state next initial moved) rest

/-- What every turn moves one counter on holds at `stop` after a loop that succeeds. -/
theorem forRange_indexed (Inv : Nat → σ → Prop) {final : σ} (ordered : start ≤ stop)
    (initial : Inv start state)
    (preserved : ∀ index before after, start ≤ index → index < stop → Inv index before →
      body index before = some after → Inv (index + 1) after)
    (run : forRange start stop body state = some final) : Inv stop final := by
  obtain ⟨turns, rfl⟩ := Nat.exists_eq_add_of_le ordered
  clear ordered
  induction turns generalizing start state with
  | zero =>
      rw [forRange_empty (Nat.le_of_eq (Nat.add_zero start))] at run
      cases run
      exact initial
  | succ turns ih =>
      rw [forRange_step (by omega)] at run
      rcases Option.bind_eq_some_iff.mp run with ⟨next, moved, rest⟩
      have shifted : start + (turns + 1) = start + 1 + turns := by omega
      have kept := preserved start state next (Nat.le_refl start) (by omega) initial moved
      rw [shifted] at rest ⊢
      refine ih kept ?_ rest
      intro index before after lower upper
      exact preserved index before after (by omega) (by omega)

/-- A loop over a richer state does what the loop over its projection does. -/
theorem forRange_map {τ : Type} {plain : Nat → τ → Option τ} (project : σ → τ)
    (turn : ∀ index state, (body index state).map project = plain index (project state)) :
    (forRange start stop body state).map project = forRange start stop plain (project state) := by
  unfold forRange
  generalize stop - start = turns
  induction turns generalizing start state with
  | zero => rfl
  | succ turns ih =>
      simp only [countedLoop, ← turn start state]
      cases body start state with
      | none => rfl
      | some next => exact ih

/-- Two loops of one range that succeed may take their turns in pairs. -/
theorem forRange_pair {τ : Type} {other : Nat → τ → Option τ} {state' : σ} {left left' : τ}
    (first : forRange start stop body state = some state')
    (second : forRange start stop other left = some left') :
    forRange start stop (fun index (both : σ × τ) => do
      let next ← body index both.1
      let right ← other index both.2
      pure (next, right)) (state, left) = some (state', left') := by
  unfold forRange at *
  generalize stop - start = turns at *
  induction turns generalizing start state left with
  | zero =>
      cases first
      cases second
      rfl
  | succ turns ih =>
      rcases Option.bind_eq_some_iff.mp first with ⟨next, moved, rest⟩
      rcases Option.bind_eq_some_iff.mp second with ⟨right, moved', rest'⟩
      rw [countedLoop, moved, Option.bind_eq_bind, Option.bind_some, moved', Option.bind_eq_bind,
        Option.bind_some]
      exact ih rest rest'

/-! ### Searches that leave at the first hit -/

/-- `count` turns of a loop that leaves with the first index that passes the test. -/
def countedSearch (test : Nat → Option Bool) : (count index : Nat) → Option (Option Nat)
  | 0, _ => some none
  | count + 1, index => do
      let passes ← test index
      if passes then some (some index) else countedSearch test count (index + 1)

def searchRange (start stop : Nat) (test : Nat → Option Bool) : Option (Option Nat) :=
  countedSearch test (stop - start) start

def FirstPassing (test : Nat → Option Bool) (start stop : Nat) : Option Nat → Prop
  | some found => start ≤ found ∧ found < stop ∧ test found = some true ∧
      ∀ index, start ≤ index → index < found → test index = some false
  | none => ∀ index, start ≤ index → index < stop → test index = some false

variable {test : Nat → Option Bool}

/-- A failed test at the front leaves the report of the rest. -/
theorem FirstPassing.cons {outcome : Option Nat} (fails : test start = some false)
    (rest : FirstPassing test (start + 1) stop outcome) : FirstPassing test start stop outcome := by
  have extended : ∀ limit, (∀ index, start + 1 ≤ index → index < limit → test index = some false) →
      ∀ index, start ≤ index → index < limit → test index = some false := by
    intro limit behind index lower upper
    rcases Nat.eq_or_lt_of_le lower with same | later
    · exact same ▸ fails
    · exact behind index later upper
  cases outcome with
  | none => exact extended stop rest
  | some found =>
      rcases rest with ⟨lower, upper, passes, earlier⟩
      exact ⟨Nat.le_of_succ_le lower, upper, passes, extended found earlier⟩

theorem countedSearch_spec {count : Nat} (answers : ∀ index, start ≤ index →
      index < start + count → ∃ passes, test index = some passes) :
    ∃ outcome, countedSearch test count start = some outcome ∧
      FirstPassing test start (start + count) outcome := by
  induction count generalizing start with
  | zero =>
      refine ⟨none, rfl, ?_⟩
      intro index lower upper
      omega
  | succ count ih =>
      rcases answers start (Nat.le_refl start) (by omega) with ⟨passes, answer⟩
      cases passes with
      | true =>
          refine ⟨some start, by simp [countedSearch, answer], Nat.le_refl start, by omega,
            answer, ?_⟩
          intro index lower upper
          omega
      | false =>
          have shifted : start + (count + 1) = start + 1 + count := by omega
          rw [shifted] at answers ⊢
          rcases ih (fun index lower upper => answers index (by omega) upper) with
            ⟨outcome, searched, report⟩
          exact ⟨outcome, by simp [countedSearch, answer, searched], report.cons answer⟩

/-- A test that answers at every index of the range makes the search answer. -/
theorem searchRange_spec (ordered : start ≤ stop) (answers : ∀ index, start ≤ index →
      index < stop → ∃ passes, test index = some passes) :
    ∃ outcome, searchRange start stop test = some outcome ∧
      FirstPassing test start stop outcome := by
  rcases Nat.exists_eq_add_of_le ordered with ⟨count, rfl⟩
  rw [searchRange, Nat.add_sub_cancel_left]
  exact countedSearch_spec answers

/-- The search over a range is `find?` over the list of its indices. -/
theorem searchRange_eq_find (answers : ∀ index, start ≤ index → index < stop →
      ∃ passes, test index = some passes) :
    searchRange start stop test =
      some ((List.range' start (stop - start)).find? (fun index => test index = some true)) := by
  unfold searchRange
  generalize turns : stop - start = count
  induction count generalizing start with
  | zero => rfl
  | succ count ih =>
      rcases answers start (Nat.le_refl start) (by omega) with ⟨passes, answer⟩
      have rest := @ih (start + 1) (fun index lower upper => answers index (by omega) upper)
        (by omega)
      cases passes with
      | true => simp [countedSearch, answer, List.range'_succ]
      | false => simp [countedSearch, answer, List.range'_succ, rest]

end OsCompiler
