/-
How much the back-test of grid trading can have in the market at once.

Every purchase lies one step of the grid further below the first price than the one opened
before it. The steps reach the price 0 after twenty of them, so at most nineteen purchases
are open, and what they have cost together is bounded by the first price alone.
-/

import Mathlib.Data.List.Induction
import OsCompiler.Funds.GridTrading

namespace OsCompiler.Funds

namespace Simulation

def totalProfit (sim : Simulation) (lastValue : ℚ) : ℚ :=
  sim.buyValue.length * lastValue + sim.earn - sim.cost

/-- The open purchases stand on the steps of the grid below the first price. -/
def OnGrid (base : ℚ) (buyValue : List ℚ) : Prop :=
  ∀ (j : Nat) (price : ℚ), buyValue[j]? = some price → 0 < price ∧ price < base * (1 - (j + 1) / 20)

theorem OnGrid.append {base now : ℚ} {buyValue : List ℚ} (onGrid : OnGrid base buyValue)
    (positive : 0 < now) (below : now < base * (1 - (buyValue.length + 1) / 20)) :
    OnGrid base (buyValue ++ [now]) := by
  intro j price found
  by_cases earlier : j < buyValue.length
  · rw [List.getElem?_append_left earlier] at found
    exact onGrid j price found
  · rw [List.getElem?_append_right (Nat.le_of_not_lt earlier)] at found
    rcases List.getElem?_eq_some_iff.mp found with ⟨inside, same⟩
    rw [List.length_singleton] at inside
    have here : j = buyValue.length := by omega
    rw [List.getElem_singleton] at same
    subst here same
    exact ⟨positive, below⟩

theorem OnGrid.dropLast {base : ℚ} {buyValue : List ℚ} (onGrid : OnGrid base buyValue) :
    OnGrid base buyValue.dropLast := by
  intro j price found
  rw [List.getElem?_dropLast] at found
  split at found
  · exact onGrid j price found
  · cases found

theorem OnGrid.split {base last : ℚ} {earlier : List ℚ}
    (onGrid : OnGrid base (earlier ++ [last])) :
    OnGrid base earlier ∧ 0 < last ∧ last < base * (1 - (earlier.length + 1) / 20) := by
  constructor
  · have dropped := onGrid.dropLast
    rwa [List.dropLast_concat] at dropped
  · exact onGrid earlier.length last List.getElem?_concat_length

theorem OnGrid.length_le {base : ℚ} (basePositive : 0 < base) {buyValue : List ℚ}
    (onGrid : OnGrid base buyValue) : buyValue.length ≤ 19 := by
  rcases List.eq_nil_or_concat buyValue with none | ⟨earlier, last, opens⟩
  · simp [none]
  · rw [List.concat_eq_append] at opens
    subst opens
    rcases onGrid.split with ⟨_, positive, below⟩
    have room : 0 < 1 - ((earlier.length : ℚ) + 1) / 20 :=
      pos_of_mul_pos_right (lt_trans positive below) (le_of_lt basePositive)
    have steps : (earlier.length : ℚ) < 19 := by linarith
    have count : earlier.length < 19 := by exact_mod_cast steps
    rw [List.length_append, List.length_singleton]
    omega

/-- The sum of the steps of the grid. -/
theorem OnGrid.sum_le {base : ℚ} {buyValue : List ℚ} (onGrid : OnGrid base buyValue) :
    buyValue.sum ≤ base * (buyValue.length * (39 - buyValue.length) / 40) := by
  induction buyValue using List.reverseRecOn with
  | nil => simp
  | append_singleton earlier last ih =>
      rcases onGrid.split with ⟨before, _, below⟩
      have sum := ih before
      rw [List.sum_append, List.sum_singleton, List.length_append, List.length_singleton]
      push_cast
      calc earlier.sum + last
          ≤ base * (earlier.length * (39 - earlier.length) / 40) +
              base * (1 - (earlier.length + 1) / 20) := add_le_add sum (le_of_lt below)
        _ = base * ((earlier.length + 1) * (39 - (earlier.length + 1)) / 40) := by ring

theorem OnGrid.sum_le_half {base : ℚ} (basePositive : 0 < base) {buyValue : List ℚ}
    (onGrid : OnGrid base buyValue) : buyValue.sum ≤ 19 / 2 * base := by
  have count : (buyValue.length : ℚ) ≤ 19 := by exact_mod_cast onGrid.length_le basePositive
  have steps : (buyValue.length : ℚ) * (39 - buyValue.length) / 40 ≤ 19 / 2 := by
    nlinarith
  calc buyValue.sum ≤ base * (buyValue.length * (39 - buyValue.length) / 40) := onGrid.sum_le
    _ ≤ base * (19 / 2) := mul_le_mul_of_nonneg_left steps (le_of_lt basePositive)
    _ = 19 / 2 * base := mul_comm _ _

/-- What one turn of the loop can do. -/
theorem turn_cases {prices : List ℚ} {base : ℚ} (basePositive : 0 < base) {i : Nat}
    {sim next : Simulation} (moved : turn prices base i sim = some next) :
    ∃ now, prices[i]? = some now ∧
      ((next = sim.buy i now ∧ (now - base) / base < sim.grid) ∨
        next = sim.sell i now ∨ next = sim) := by
  rw [turn] at moved
  rcases Option.bind_eq_some_iff.mp moved with ⟨now, price, rest⟩
  refine ⟨now, price, ?_⟩
  rw [divide_pos _ basePositive] at rest
  simp only [Option.bind_eq_bind, Option.bind_some] at rest
  by_cases falls : (now - base) / base < sim.grid
  · rw [if_pos falls] at rest
    cases rest
    exact Or.inl ⟨rfl, falls⟩
  · rw [if_neg falls] at rest
    rcases Option.bind_eq_some_iff.mp rest with ⟨wants, _, final⟩
    cases wants
    · cases final
      exact Or.inr (Or.inr rfl)
    · cases final
      exact Or.inr (Or.inl rfl)

private theorem turn_onGrid {prices : List ℚ} {base : ℚ} (basePositive : 0 < base)
    (positive : ∀ price ∈ prices, 0 < price) {i : Nat} {sim next : Simulation}
    (balanced : Balanced prices sim) (onGrid : OnGrid base sim.buyValue)
    (moved : turn prices base i sim = some next) : OnGrid base next.buyValue := by
  rcases turn_cases basePositive moved with ⟨now, price, ⟨rfl, falls⟩ | rfl | rfl⟩
  · have below : now < base * (1 - (sim.buyValue.length + 1) / 20) := by
      rw [balanced.grid, div_lt_iff₀ basePositive] at falls
      linarith
    exact onGrid.append (positive now (List.mem_of_getElem? price)) below
  · exact onGrid.dropLast
  · exact onGrid

/-- With positive prices the loss of the report is no more than what is open. -/
theorem Balanced.totalProfit_ge {prices : List ℚ} {sim : Simulation}
    (balanced : Balanced prices sim) {lastValue : ℚ} (positive : 0 < lastValue) :
    -sim.buyValue.sum ≤ sim.totalProfit lastValue := by
  have noLoss := balanced.noLoss
  have store : 0 ≤ (sim.buyValue.length : ℚ) * lastValue :=
    mul_nonneg (Nat.cast_nonneg _) (le_of_lt positive)
  rw [totalProfit]
  linarith

/-- Whatever way the prices take, at most nineteen purchases are open after any turn, each one
on its own step below the first price. They have cost no more than 9.5 times that price, and
the report never shows a greater loss. -/
theorem steps_exposure {prices : List ℚ} {base : ℚ} (first : prices[0]? = some base)
    (positive : ∀ price ∈ prices, 0 < price) {turns : Nat} (bound : turns ≤ prices.length) :
    ∃ sim, steps prices turns = some sim ∧ OnGrid base sim.buyValue ∧
      sim.buyValue.length ≤ 19 ∧ sim.buyValue.sum ≤ 19 / 2 * base ∧
      ∀ lastValue, 0 < lastValue → -(19 / 2 * base) ≤ sim.totalProfit lastValue := by
  have basePositive : 0 < base := positive base (List.mem_of_getElem? first)
  have moves : ∀ i sim, 0 ≤ i → i < turns →
      (Balanced prices sim ∧ OnGrid base sim.buyValue) →
      ∃ next, turn prices base i sim = some next ∧
        (Balanced prices next ∧ OnGrid base next.buyValue) := by
    intro i sim _ before inv
    have inside : i < prices.length := Nat.lt_of_lt_of_le before bound
    rcases turn_balanced inv.1 basePositive (List.getElem?_eq_getElem inside)
      (positive _ (List.getElem_mem inside)) with ⟨next, moved, balanced⟩
    exact ⟨next, moved, balanced, turn_onGrid basePositive positive inv.1 inv.2 moved⟩
  rcases forRange_progress
    (fun _ (sim : Simulation) => Balanced prices sim ∧ OnGrid base sim.buyValue)
    (Nat.zero_le turns) ⟨balanced_start prices, nofun⟩ moves with ⟨sim, run, balanced, onGrid⟩
  have sum := onGrid.sum_le_half basePositive
  refine ⟨sim, ?_, onGrid, onGrid.length_le basePositive, sum, ?_⟩
  · rw [steps, first]
    exact run
  · intro lastValue lastPositive
    have profit := balanced.totalProfit_ge lastPositive
    linarith

theorem steps_exposure_falling :
    ∃ sim, steps [20, 18, 17, 1] 4 = some sim ∧ OnGrid 20 sim.buyValue ∧
      sim.buyValue.length ≤ 19 ∧ sim.buyValue.sum ≤ 19 / 2 * 20 ∧
      ∀ lastValue, 0 < lastValue → -(19 / 2 * 20) ≤ sim.totalProfit lastValue :=
  steps_exposure rfl (by simp) (by simp)

/-- A price that falls from step to step opens all nineteen. -/
example : (steps [40, 37, 35, 33, 31, 29, 27, 25, 23, 21, 19, 17, 15, 13, 11, 9, 7, 5, 3, 1] 20).map
    (fun sim => sim.buyValue.length) = some 19 := by decide +kernel

end Simulation

end OsCompiler.Funds
