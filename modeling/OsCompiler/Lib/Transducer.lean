/-
Automata that write items while they read a text, and what is pending at its end.

A letter that is answered as the end of the text is, and takes the automaton back to
its start, cuts the text in two: the output of the whole is that of the parts.
-/

import Mathlib.Data.List.Basic

namespace OsCompiler

structure Transducer (σ α β : Type) where
  start : σ
  step : σ → α → σ × List β
  flush : σ → List β

namespace Transducer

variable {σ α β : Type}

def run (machine : Transducer σ α β) (state : σ) : List α → σ × List β
  | [] => (state, [])
  | c :: rest =>
      let next := machine.step state c
      let later := machine.run next.1 rest
      (later.1, next.2 ++ later.2)

def output (machine : Transducer σ α β) (text : List α) : List β :=
  (machine.run machine.start text).2 ++ machine.flush (machine.run machine.start text).1

variable {machine : Transducer σ α β}

theorem run_append (state : σ) (first second : List α) :
    machine.run state (first ++ second) =
      ((machine.run (machine.run state first).1 second).1,
        (machine.run state first).2 ++ (machine.run (machine.run state first).1 second).2) := by
  induction first generalizing state with
  | nil => rfl
  | cons c rest ih =>
      rw [List.cons_append, run, ih, run, List.append_assoc]

theorem run_invariant {Inv : σ → Prop} {state : σ}
    (kept : ∀ state c, Inv state → Inv (machine.step state c).1) (initial : Inv state)
    (text : List α) : Inv (machine.run state text).1 := by
  induction text generalizing state with
  | nil => exact initial
  | cons c rest ih => exact ih (kept state c initial)

/-- The letter ends what is pending, writes some items of its own and starts again. -/
def CutsAt (machine : Transducer σ α β) (Inv : σ → Prop) (letter : α) (between : List β) : Prop :=
  ∀ state, Inv state →
    machine.step state letter = (machine.start, machine.flush state ++ between)

theorem output_cut {Inv : σ → Prop} {letter : α} {between : List β}
    (cuts : machine.CutsAt Inv letter between) (initial : Inv machine.start)
    (kept : ∀ state c, Inv state → Inv (machine.step state c).1) (first second : List α) :
    machine.output (first ++ [letter] ++ second) =
      machine.output first ++ between ++ machine.output second := by
  have reached := run_invariant kept initial first
  have cut : machine.run machine.start (first ++ [letter]) =
      (machine.start, machine.output first ++ between) := by
    rw [run_append, run, run, cuts _ reached]
    simp only [List.append_nil, output, List.append_assoc]
  rw [output, run_append, cut, List.append_assoc]
  rfl

/-- What each step and the end write, the text as a whole writes. -/
theorem output_forall {Inv : σ → Prop} {good : β → Prop}
    (kept : ∀ state c, Inv state → Inv (machine.step state c).1)
    (stepped : ∀ state c, Inv state → ∀ item ∈ (machine.step state c).2, good item)
    (flushes : ∀ state, Inv state → ∀ item ∈ machine.flush state, good item)
    (initial : Inv machine.start) (text : List α) : ∀ item ∈ machine.output text, good item := by
  have written (state : σ) (holds : Inv state) :
      ∀ item ∈ (machine.run state text).2, good item := by
    induction text generalizing state with
    | nil => exact fun _ member => absurd member List.not_mem_nil
    | cons c rest ih =>
        intro item member
        rcases List.mem_append.mp member with here | later
        · exact stepped state c holds item here
        · exact ih _ (kept state c holds) item later
  intro item member
  rcases List.mem_append.mp member with running | last
  · exact written _ initial item running
  · exact flushes _ (run_invariant kept initial text) item last

end Transducer

end OsCompiler
