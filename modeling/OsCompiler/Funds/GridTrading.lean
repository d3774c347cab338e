/-
The back-test of grid trading in `version0-1.py`, over exact rationals.

Each fall below the threshold buys and lowers it, each rise of a fifth above the last open
purchase sells that one. A division by zero and a price that is not there end the run.
-/

import Mathlib.Algebra.BigOperators.Group.List.Basic
import Mathlib.Algebra.Order.Field.Rat
import Mathlib.Tactic.Linarith
import Mathlib.Tactic.Ring
import OsCompiler.Lib.Loop

namespace OsCompiler.Funds

structure Simulation where
  grid : ℚ
  buyValue : List ℚ
  bt : Nat
  st : Nat
  cost : ℚ
  earn : ℚ
  buyX : List Nat
  sellX : List Nat

def start : Simulation where
  grid := -1 / 20
  buyValue := []
  bt := 0
  st := 0
  cost := 0
  earn := 0
  buyX := []
  sellX := []

def divide (a b : ℚ) : Option ℚ := if b = 0 then none else some (a / b)

namespace Simulation

def buy (sim : Simulation) (i : Nat) (now : ℚ) : Simulation :=
  { sim with
    grid := sim.grid - 1 / 20
    buyValue := sim.buyValue ++ [now]
    bt := sim.bt + 1
    cost := sim.cost + now
    buyX := sim.buyX ++ [i] }

def sell (sim : Simulation) (i : Nat) (now : ℚ) : Simulation :=
  { sim with
    grid := sim.grid + 1 / 20
    earn := sim.earn + now
    buyValue := sim.buyValue.dropLast
    st := sim.st + 1
    sellX := sim.sellX ++ [i] }

/-- `buy_value and (now - buy_value[-1]) / buy_value[-1] > 0.20` -/
def wantsToSell (sim : Simulation) (now : ℚ) : Option Bool :=
  match sim.buyValue.getLast? with
  | none => some false
  | some last => do return 1 / 5 < (← divide (now - last) last)

def turn (prices : List ℚ) (base : ℚ) (i : Nat) (sim : Simulation) : Option Simulation := do
  let now ← prices[i]?
  if (← divide (now - base) base) < sim.grid then return sim.buy i now
  else if ← sim.wantsToSell now then return sim.sell i now
  else return sim

/-- What has been bought is paid for, and each sale has brought more than six fifths of the
purchase that it closes. -/
structure Balanced (prices : List ℚ) (sim : Simulation) : Prop where
  opened : (sim.bt : ℤ) - sim.st = sim.buyValue.length
  grid : sim.grid = -(sim.buyValue.length + 1) / 20
  cost : sim.cost = (sim.buyX.map fun i => prices.getD i 0).sum
  count : sim.bt = sim.buyX.length
  positive : ∀ price ∈ sim.buyValue, 0 < price
  closed : 0 ≤ sim.cost - sim.buyValue.sum
  earn : 6 / 5 * (sim.cost - sim.buyValue.sum) ≤ sim.earn
  profit : 0 < sim.st → 6 / 5 * (sim.cost - sim.buyValue.sum) < sim.earn

theorem balanced_start (prices : List ℚ) : Balanced prices start where
  opened := rfl
  grid := by simp [start]
  cost := rfl
  count := rfl
  positive := nofun
  closed := by simp [start]
  earn := by simp [start]
  profit := nofun

theorem Balanced.buy {prices : List ℚ} {sim : Simulation} {i : Nat} {now : ℚ}
    (balanced : Balanced prices sim) (price : prices[i]? = some now) (positive : 0 < now) :
    Balanced prices (sim.buy i now) where
  opened := by
    have opened := balanced.opened
    simp only [Simulation.buy, List.length_append, List.length_singleton]
    omega
  grid := by
    simp only [Simulation.buy, balanced.grid, List.length_append, List.length_singleton]
    push_cast
    ring
  cost := by simp [Simulation.buy, balanced.cost, price]
  count := by simp [Simulation.buy, balanced.count]
  positive := by
    intro other member
    rcases List.mem_append.mp member with member | member
    · exact balanced.positive other member
    · rwa [List.mem_singleton.mp member]
  closed := by
    have closed := balanced.closed
    simp only [Simulation.buy, List.sum_append, List.sum_singleton]
    linarith
  earn := by
    have earn := balanced.earn
    simp only [Simulation.buy, List.sum_append, List.sum_singleton]
    linarith
  profit := by
    intro sold
    have profit := balanced.profit sold
    simp only [Simulation.buy, List.sum_append, List.sum_singleton]
    linarith

theorem Balanced.sell {prices : List ℚ} {sim : Simulation} {i : Nat} {now last : ℚ}
    {earlier : List ℚ} (balanced : Balanced prices sim) (opens : sim.buyValue = earlier ++ [last])
    (rise : 6 / 5 * last < now) : Balanced prices (sim.sell i now) := by
  have rest : (sim.sell i now).buyValue = earlier := by
    simp [Simulation.sell, opens]
  have sum : sim.buyValue.sum = earlier.sum + last := by simp [opens]
  have length : sim.buyValue.length = earlier.length + 1 := by simp [opens]
  have lastPositive : 0 < last := balanced.positive last (by simp [opens])
  have closed := balanced.closed
  have earn := balanced.earn
  rw [sum] at closed earn
  have profit : 6 / 5 * (sim.cost - earlier.sum) < sim.earn + now := by linarith
  constructor
  · have opened := balanced.opened
    rw [rest]
    simp only [Simulation.sell]
    omega
  · rw [rest]
    simp only [Simulation.sell, balanced.grid, length]
    push_cast
    ring
  · exact balanced.cost
  · exact balanced.count
  · rw [rest]
    intro price member
    exact balanced.positive price (by simp [opens, member])
  · rw [rest]
    simp only [Simulation.sell]
    linarith
  · rw [rest]
    exact le_of_lt profit
  · rw [rest]
    intro _
    exact profit

theorem divide_pos (a : ℚ) {b : ℚ} (positive : 0 < b) : divide a b = some (a / b) :=
  if_neg (ne_of_gt positive)

private theorem wantsToSell_nil {sim : Simulation} (none : sim.buyValue = []) (now : ℚ) :
    sim.wantsToSell now = some false := by
  rw [wantsToSell, none]
  rfl

private theorem wantsToSell_concat {sim : Simulation} {earlier : List ℚ} {last : ℚ}
    (opens : sim.buyValue = earlier ++ [last]) (positive : 0 < last) (now : ℚ) :
    sim.wantsToSell now = some (decide (1 / 5 < (now - last) / last)) := by
  rw [wantsToSell, opens, List.getLast?_concat]
  simp [divide_pos _ positive]

/-- A price that is positive moves the simulation on and keeps it balanced. -/
theorem turn_balanced {prices : List ℚ} {base now : ℚ} {i : Nat} {sim : Simulation}
    (balanced : Balanced prices sim) (basePositive : 0 < base) (price : prices[i]? = some now)
    (positive : 0 < now) :
    ∃ next, turn prices base i sim = some next ∧ Balanced prices next := by
  by_cases falls : (now - base) / base < sim.grid
  · refine ⟨sim.buy i now, ?_, balanced.buy price positive⟩
    rw [turn, price]
    simp [divide_pos _ basePositive, falls]
  · rcases List.eq_nil_or_concat sim.buyValue with none | ⟨earlier, last, opens⟩
    · refine ⟨sim, ?_, balanced⟩
      rw [turn, price]
      simp [divide_pos _ basePositive, falls, wantsToSell_nil none]
    · rw [List.concat_eq_append] at opens
      have lastPositive : 0 < last := balanced.positive last (by simp [opens])
      have wants := wantsToSell_concat opens lastPositive now
      by_cases rises : 1 / 5 < (now - last) / last
      · have rise : 6 / 5 * last < now := by
          rw [lt_div_iff₀ lastPositive] at rises
          linarith
        refine ⟨sim.sell i now, ?_, balanced.sell opens rise⟩
        rw [turn, price]
        simp only [Option.bind_eq_bind, Option.bind_some, divide_pos _ basePositive, if_neg falls,
          wants, decide_eq_true rises]
        rfl
      · refine ⟨sim, ?_, balanced⟩
        rw [turn, price]
        simp only [Option.bind_eq_bind, Option.bind_some, divide_pos _ basePositive, if_neg falls,
          wants, decide_eq_false rises]
        rfl

/-- The closed trades together have lost nothing. -/
theorem Balanced.noLoss {prices : List ℚ} {sim : Simulation} (balanced : Balanced prices sim) :
    sim.cost - sim.buyValue.sum ≤ sim.earn := by
  have closed := balanced.closed
  have earn := balanced.earn
  linarith

def steps (prices : List ℚ) (turns : Nat) : Option Simulation := do
  let base ← prices[0]?
  forRange 0 turns (turn prices base) start

/-- After every turn the books are balanced, whatever way the prices take. -/
theorem steps_balanced {prices : List ℚ} (nonempty : prices ≠ [])
    (positive : ∀ price ∈ prices, 0 < price) {turns : Nat} (bound : turns ≤ prices.length) :
    ∃ sim, steps prices turns = some sim ∧ Balanced prices sim ∧
      sim.cost - sim.buyValue.sum ≤ sim.earn := by
  rcases List.exists_cons_of_ne_nil nonempty with ⟨base, rest, whole⟩
  have first : prices[0]? = some base := by rw [whole]; rfl
  have basePositive : 0 < base := positive base (by simp [whole])
  have moves : ∀ i sim, 0 ≤ i → i < turns → Balanced prices sim →
      ∃ next, turn prices base i sim = some next ∧ Balanced prices next := by
    intro i sim _ before balanced
    have inside : i < prices.length := Nat.lt_of_lt_of_le before bound
    exact turn_balanced balanced basePositive (List.getElem?_eq_getElem inside)
      (positive _ (List.getElem_mem inside))
  rcases forRange_progress (fun _ => Balanced prices) (Nat.zero_le turns)
    (balanced_start prices) moves with ⟨sim, run, balanced⟩
  refine ⟨sim, ?_, balanced, balanced.noLoss⟩
  rw [steps, first]
  exact run

theorem steps_balanced_sold :
    ∃ sim, steps [10, 9, 8, 10] 4 = some sim ∧ Balanced [10, 9, 8, 10] sim ∧
      sim.cost - sim.buyValue.sum ≤ sim.earn :=
  steps_balanced (by simp) (by simp) (by simp)

end Simulation

end OsCompiler.Funds
