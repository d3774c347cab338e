/-
Quicksort, `quick_sort` of `sort.c`, around the last value of a range.

The array may only be touched inside a window. Behind each turn of the partition loop
stand the values that are not above the pivot, those that are, and those still to come.
-/

import Mathlib.Data.Int.Order.Basic
import OsCompiler.Lib.Window

namespace OsCompiler.Algorithm

variable {window : Window}

def swap (window : Window) (arr : List Int) (a b : Int) : Option (List Int) := do
  let tem ← window.load arr a
  let arr ← window.store arr a (← window.load arr b)
  window.store arr b tem

/-- The loop of `partition`, with the array and the `i` behind it. -/
def partitionLoop (window : Window) (x finish : Int) (arr : List Int) (i j : Int) :
    Option (List Int × Int) := do
  if j < finish then
    if (← window.load arr j) ≤ x then
      let arr ← swap window arr j (i + 1)
      partitionLoop window x finish arr (i + 1) (j + 1)
    else partitionLoop window x finish arr i (j + 1)
  else return (arr, i)
termination_by (finish - j).toNat

def partition (window : Window) (arr : List Int) (start finish : Int) :
    Option (List Int × Int) := do
  let x ← window.load arr finish
  let (arr, i) ← partitionLoop window x finish arr (start - 1) start
  let arr ← swap window arr (i + 1) finish
  return (arr, i + 1)

private theorem partitionLoop_done {x finish i j : Int} {arr : List Int} (done : finish ≤ j) :
    partitionLoop window x finish arr i j = some (arr, i) := by
  rw [partitionLoop, if_neg (Int.not_lt.mpr done)]
  rfl

private theorem partitionLoop_small {x finish i j value : Int} {arr swapped : List Int}
    (more : j < finish) (loaded : window.load arr j = some value) (small : value ≤ x)
    (swaps : swap window arr j (i + 1) = some swapped) :
    partitionLoop window x finish arr i j =
      partitionLoop window x finish swapped (i + 1) (j + 1) := by
  rw [partitionLoop, if_pos more, loaded]
  simp [small, swaps]

private theorem partitionLoop_large {x finish i j value : Int} {arr : List Int}
    (more : j < finish) (loaded : window.load arr j = some value) (large : x < value) :
    partitionLoop window x finish arr i j = partitionLoop window x finish arr i (j + 1) := by
  rw [partitionLoop, if_pos more, loaded]
  simp [Int.not_le.mpr large]

/-- A turn of the loop moves `i` on by at most one. -/
theorem partitionLoop_turn {x finish i j : Int} {arr : List Int} {result : List Int × Int}
    (more : j < finish) (looped : partitionLoop window x finish arr i j = some result) :
    ∃ next i', i ≤ i' ∧ i' ≤ i + 1 ∧
      partitionLoop window x finish next i' (j + 1) = some result := by
  cases loaded : window.load arr j with
  | none =>
      rw [partitionLoop, if_pos more, loaded] at looped
      cases looped
  | some value =>
      by_cases small : value ≤ x
      · cases swaps : swap window arr j (i + 1) with
        | none =>
            rw [partitionLoop, if_pos more, loaded] at looped
            simp [small, swaps] at looped
        | some swapped =>
            rw [partitionLoop_small more loaded small swaps] at looped
            exact ⟨swapped, i + 1, by omega, by omega, looped⟩
      · rw [partitionLoop_large more loaded (Int.not_le.mp small)] at looped
        exact ⟨arr, i, by omega, by omega, looped⟩

private theorem partitionLoop_bounds {x finish i j after : Int} {arr arranged : List Int}
    (looped : partitionLoop window x finish arr i j = some (arranged, after))
    (ordered : j ≤ finish) : i ≤ after ∧ after - i ≤ finish - j := by
  rcases Int.eq_ofNat_of_zero_le (Int.sub_nonneg.mpr ordered) with ⟨left, count⟩
  induction left generalizing i j arr with
  | zero =>
      rw [partitionLoop_done (by omega)] at looped
      cases looped
      omega
  | succ left ih =>
      rcases partitionLoop_turn (by omega) looped with ⟨next, i', lower, upper, rest⟩
      have bounds := ih rest (by omega) (by omega)
      omega

theorem partition_bounds {start finish q : Int} {arr arranged : List Int}
    (parted : partition window arr start finish = some (arranged, q))
    (ordered : start ≤ finish) : start ≤ q ∧ q ≤ finish := by
  rcases Option.bind_eq_some_iff.mp parted with ⟨x, _, parted⟩
  rcases Option.bind_eq_some_iff.mp parted with ⟨⟨middle, i⟩, looped, parted⟩
  rcases Option.bind_eq_some_iff.mp parted with ⟨swapped, _, same⟩
  cases same
  have bounds := partitionLoop_bounds looped ordered
  omega

def quickSort (window : Window) (arr : List Int) (start finish : Int) : Option (List Int) :=
  if _ : start < finish then
    match _ : partition window arr start finish with
    | none => none
    | some (arr, q) => do
        let arr ← quickSort window arr start (q - 1)
        quickSort window arr (q + 1) finish
  else some arr
termination_by (finish - start).toNat
decreasing_by
  all_goals
    rename_i parted
    have bounds := partition_bounds parted (by omega)
    omega

/-! ### The three regions -/

theorem swap_self {arr : List Int} {k value : Int} {front back : List Int}
    (whole : arr = front ++ value :: back) (inside : window.Contains k)
    (here : k = front.length) : swap window arr k k = some arr := by
  rw [whole]
  simp only [swap, Window.load_mid inside front back here,
    Window.store_mid inside front back here, Option.bind_eq_bind, Option.bind_some]

section Apart

variable {front middle back : List Int} {low high : Int}

private theorem swap_high_low (lowInside : window.Contains low) (highInside : window.Contains high)
    (lowHere : low = front.length) (highHere : high = front.length + middle.length + 1)
    (a b : Int) :
    swap window (front ++ a :: (middle ++ b :: back)) high low =
      some (front ++ b :: (middle ++ a :: back)) := by
  simp only [swap, Window.load_high highInside highHere, Window.load_mid lowInside _ _ lowHere,
    Window.store_high highInside highHere, Window.store_mid lowInside _ _ lowHere,
    Option.bind_eq_bind, Option.bind_some]

private theorem swap_low_high (lowInside : window.Contains low) (highInside : window.Contains high)
    (lowHere : low = front.length) (highHere : high = front.length + middle.length + 1)
    (a b : Int) :
    swap window (front ++ a :: (middle ++ b :: back)) low high =
      some (front ++ b :: (middle ++ a :: back)) := by
  simp only [swap, Window.load_high highInside highHere, Window.load_mid lowInside _ _ lowHere,
    Window.store_high highInside highHere, Window.store_mid lowInside _ _ lowHere,
    Option.bind_eq_bind, Option.bind_some]

end Apart

/-- A value that is taken down over a block moves the block up, in another order. -/
theorem swap_over (front block back : List Int) (value : Int) {low high : Int}
    (lowInside : window.Contains low) (highInside : window.Contains high)
    (lowHere : low = front.length) (highHere : high = low + block.length) :
    ∃ block', block'.Perm block ∧
      swap window (front ++ (block ++ value :: back)) high low =
        some (front ++ value :: (block' ++ back)) ∧
      swap window (front ++ (block ++ value :: back)) low high =
        some (front ++ value :: (block' ++ back)) := by
  cases block with
  | nil =>
      have same : high = low := by simpa using highHere
      rw [same]
      exact ⟨[], List.Perm.refl _, swap_self rfl lowInside lowHere, swap_self rfl lowInside lowHere⟩
  | cons first block =>
      have apart : high = front.length + block.length + 1 := by
        rw [highHere, lowHere, List.length_cons]
        omega
      refine ⟨block ++ [first], List.perm_append_singleton first block, ?_, ?_⟩
      · simpa using swap_high_low lowInside highInside lowHere apart first value
      · simpa using swap_low_high lowInside highInside lowHere apart first value

/-- The values before `j` fall into those that are not above the pivot, up to `i`, and those
that are. -/
structure Regions (x : Int) (small large : List Int) : Prop where
  small : ∀ value ∈ small, value ≤ x
  large : ∀ value ∈ large, x < value

theorem Regions.concat_small {x value : Int} {small large large' : List Int}
    (regions : Regions x small large) (isSmall : value ≤ x) (permuted : large'.Perm large) :
    Regions x (small ++ [value]) large' := by
  refine ⟨fun other member => ?_, fun other member => ?_⟩
  · rcases List.mem_append.mp member with member | member
    · exact regions.small other member
    · rwa [List.mem_singleton.mp member]
  · exact regions.large other (permuted.mem_iff.mp member)

theorem Regions.concat_large {x value : Int} {small large : List Int}
    (regions : Regions x small large) (isLarge : x < value) :
    Regions x small (large ++ [value]) := by
  refine ⟨regions.small, fun other member => ?_⟩
  rcases List.mem_append.mp member with member | member
  · exact regions.large other member
  · rwa [List.mem_singleton.mp member]

private theorem partitionLoop_spec {x : Int} (front coming back : List Int) {small large : List Int}
    {i j finish : Int} (regions : Regions x small large)
    (atI : i + 1 = front.length + small.length) (atJ : j = i + 1 + large.length)
    (atEnd : finish = j + coming.length)
    (inside : ∀ k : Int, front.length ≤ k → k < finish → window.Contains k) :
    ∃ small' large',
      partitionLoop window x finish (front ++ (small ++ (large ++ (coming ++ back)))) i j =
        some (front ++ (small' ++ (large' ++ back)), (front.length : Int) + small'.length - 1) ∧
      (small' ++ large').Perm (small ++ (large ++ coming)) ∧ Regions x small' large' := by
  induction coming generalizing small large i j with
  | nil =>
      have done : finish ≤ j := by simp [atEnd]
      refine ⟨small, large, ?_, by rw [List.append_nil], regions⟩
      rw [partitionLoop_done done, List.nil_append, ← atI, Int.add_sub_cancel]
  | cons value coming ih =>
      rw [List.length_cons, Int.natCast_add, Int.natCast_one] at atEnd
      have more : j < finish := by omega
      have jInside : window.Contains j := inside j (by omega) more
      have iInside : window.Contains (i + 1) := inside (i + 1) (by omega) (by omega)
      have loaded : window.load (front ++ (small ++ (large ++ (value :: coming ++ back)))) j =
          some value := by
        have found := Window.load_mid jInside (front ++ (small ++ large)) (coming ++ back)
          (by simp [atJ, atI, Int.add_assoc]) value
        simpa using found
      by_cases isSmall : value ≤ x
      · rcases swap_over (front ++ small) large (coming ++ back) value iInside jInside
           (by simp [atI]) atJ with
          ⟨large', permuted, swapped, _⟩
        have swaps : swap window (front ++ (small ++ (large ++ (value :: coming ++ back)))) j
            (i + 1) = some (front ++ ((small ++ [value]) ++ (large' ++ (coming ++ back)))) := by
          simpa using swapped
        rcases ih (i := i + 1) (j := j + 1) (regions.concat_small isSmall permuted)
          (by rw [atI]; simp [Int.add_assoc]) (by rw [permuted.length_eq]; omega) (by omega) with
          ⟨small', large'', looped, kept, regions'⟩
        refine ⟨small', large'', ?_, kept.trans ?_, regions'⟩
        · rw [partitionLoop_small more loaded isSmall swaps, looped]
        · rw [List.append_assoc]
          refine List.Perm.append_left small ?_
          exact ((permuted.append_right coming).cons value).trans List.perm_middle.symm
      · rcases ih (j := j + 1) (regions.concat_large (Int.not_le.mp isSmall)) atI
          (by simp [atJ, Int.add_assoc]) (by omega) with ⟨small', large', looped, kept, regions'⟩
        refine ⟨small', large', ?_, ?_, regions'⟩
        · rw [partitionLoop_large more loaded (Int.not_le.mp isSmall)]
          simpa using looped
        · simpa using kept

/-- `partition` takes the last value in between the values that are not above it and those
that are. -/
theorem partition_spec (front coming back : List Int) (x : Int) {start finish : Int}
    (atStart : start = front.length) (atEnd : finish = start + coming.length)
    (inside : ∀ k : Int, start ≤ k → k ≤ finish → window.Contains k) :
    ∃ small large,
      partition window (front ++ (coming ++ x :: back)) start finish =
        some (front ++ (small ++ x :: (large ++ back)), start + small.length) ∧
      (small ++ large).Perm coming ∧ Regions x small large := by
  have endInside : window.Contains finish := inside finish (by omega) (Int.le_refl _)
  have loaded : window.load (front ++ (coming ++ x :: back)) finish = some x := by
    have found := Window.load_mid endInside (front ++ coming) back
      (by simp [atEnd, atStart]) x
    rwa [List.append_assoc] at found
  have none : Regions x [] [] := ⟨nofun, nofun⟩
  have atI : start - 1 + 1 = (front.length : Int) + ([] : List Int).length := by simp [atStart]
  have atJ : start = start - 1 + 1 + ([] : List Int).length := by simp
  rcases partitionLoop_spec front coming (x :: back) none atI atJ atEnd
    (fun k lower upper => inside k (by omega) (by omega)) with
    ⟨small, large, looped, permuted, regions⟩
  have size := permuted.length_eq
  simp only [List.length_append, List.nil_append] at size
  have nextInside : window.Contains (start + small.length) :=
    inside _ (by omega) (by omega)
  rcases swap_over (front ++ small) large back x nextInside endInside
    (by simp [atStart]) (by omega) with ⟨large', permuted', _, swapped⟩
  refine ⟨small, large', ?_, (permuted'.append_left small).trans permuted, ?_⟩
  · simp only [List.nil_append] at looped
    have next : (front.length : Int) + small.length - 1 + 1 = start + small.length := by omega
    rw [List.append_assoc] at swapped
    rw [partition, loaded, Option.bind_eq_bind, Option.bind_some, looped]
    simp only [Option.bind_eq_bind, Option.bind_some, next, swapped, List.append_assoc]
    rfl
  · exact ⟨regions.small, fun value member => regions.large value (permuted'.mem_iff.mp member)⟩

/-! ### The recursion -/

theorem quickSort_short {start finish : Int} {arr : List Int} (short : finish ≤ start) :
    quickSort window arr start finish = some arr := by
  rw [quickSort, dif_neg (Int.not_lt.mpr short)]

private theorem quickSort_step {start finish q : Int} {arr arranged left : List Int}
    (more : start < finish) (parted : partition window arr start finish = some (arranged, q))
    (first : quickSort window arranged start (q - 1) = some left) :
    quickSort window arr start finish = quickSort window left (q + 1) finish := by
  rw [quickSort, dif_pos more]
  split
  · rename_i other
    cases parted.symm.trans other
  · rename_i other
    cases parted.symm.trans other
    rw [first]
    rfl

theorem Regions.sorted {x : Int} {small large small' large' : List Int}
    (regions : Regions x small large) (smallPerm : small'.Perm small)
    (largePerm : large'.Perm large) (smallSorted : small'.Pairwise (· ≤ ·))
    (largeSorted : large'.Pairwise (· ≤ ·)) : (small' ++ x :: large').Pairwise (· ≤ ·) := by
  have below : ∀ value ∈ small', value ≤ x := fun value member =>
    regions.small value (smallPerm.mem_iff.mp member)
  have above : ∀ value ∈ large', x < value := fun value member =>
    regions.large value (largePerm.mem_iff.mp member)
  refine List.pairwise_append.mpr ⟨smallSorted, List.pairwise_cons.mpr ⟨?_, largeSorted⟩, ?_⟩
  · intro value member
    exact Int.le_of_lt (above value member)
  · intro value member other otherMember
    rcases List.mem_cons.mp otherMember with rfl | otherMember
    · exact below value member
    · exact Int.le_trans (below value member) (Int.le_of_lt (above other otherMember))

private theorem pairwise_of_length_le_one {range : List Int} (short : range.length ≤ 1) :
    range.Pairwise (· ≤ ·) := by
  rcases range with _ | ⟨value, _ | ⟨other, rest⟩⟩
  · exact List.Pairwise.nil
  · exact List.pairwise_singleton _ value
  · simp at short

/-- The recursion sorts a range in place, by induction on its length. -/
theorem quickSort_range (front range back : List Int) {start finish : Int}
    (atStart : start = front.length) (atEnd : finish + 1 = start + range.length)
    (inside : ∀ k : Int, start ≤ k → k ≤ finish → window.Contains k) :
    ∃ sorted, quickSort window (front ++ (range ++ back)) start finish =
        some (front ++ (sorted ++ back)) ∧
      sorted.Perm range ∧ sorted.Pairwise (· ≤ ·) := by
  induction size : range.length using Nat.strongRecOn
    generalizing front range back start finish with
  | ind n ih =>
      by_cases more : start < finish
      · rcases List.eq_nil_or_concat range with rfl | ⟨coming, x, rfl⟩
        · rw [List.length_nil, Int.natCast_zero] at atEnd
          omega
        · rw [List.concat_eq_append, List.length_append, List.length_singleton] at size atEnd
          rcases partition_spec front coming back x atStart (by omega) inside with
            ⟨small, large, parted, permuted, regions⟩
          have sizes := permuted.length_eq
          rw [List.length_append] at sizes
          rcases ih small.length (by omega) front small (x :: (large ++ back)) atStart
            (Int.sub_add_cancel _ 1) (fun k lower upper => inside k lower (by omega)) rfl with
            ⟨small', first, smallPerm, smallSorted⟩
          have behind : start + small.length + 1 = ((front ++ (small' ++ [x])).length : Int) := by
            simp [atStart, smallPerm.length_eq, Int.add_assoc]
          rcases ih large.length (by omega) (front ++ (small' ++ [x])) large back behind
            (by omega : finish + 1 = start + small.length + 1 + large.length)
            (fun k lower upper => inside k (by omega) upper) rfl with
            ⟨large', second, largePerm, largeSorted⟩
          refine ⟨small' ++ x :: large', ?_, ?_, ?_⟩
          · rw [List.concat_eq_append, List.append_assoc, List.singleton_append,
              quickSort_step more parted first]
            simpa using second
          · rw [List.concat_eq_append]
            calc
              (small' ++ x :: large').Perm (small ++ x :: large) :=
                smallPerm.append (largePerm.cons x)
              _ |>.Perm (x :: (small ++ large)) := List.perm_middle
              _ |>.Perm (x :: coming) := permuted.cons x
              _ |>.Perm (coming ++ [x]) := (List.perm_append_singleton x coming).symm
          · exact regions.sorted smallPerm largePerm smallSorted largeSorted
      · refine ⟨range, quickSort_short (Int.not_lt.mp more), List.Perm.refl _, ?_⟩
        exact pairwise_of_length_le_one (by omega)

/-- `quick_sort` ends, touches the cells of its range only and sorts them. -/
theorem quickSort_sorts {arr : List Int} {start finish : Int} (lower : 0 ≤ start)
    (upper : finish < arr.length) :
    ∃ sorted, quickSort ⟨start, finish⟩ arr start finish = some sorted ∧
      Window.Sorts ⟨start, finish⟩ arr sorted := by
  by_cases ordered : start ≤ finish
  · have nearly : start ≤ finish + 1 := by omega
    rcases Window.exists_split (⟨start, finish⟩ : Window) nearly lower upper with
      ⟨front, range, back, whole, atStart, atEnd⟩
    rw [whole]
    rcases quickSort_range front range back atStart (atStart ▸ atEnd)
      (fun k lower upper => (⟨lower, upper⟩ : Window.Contains ⟨start, finish⟩ k)) with
      ⟨sorted, run, permuted, pairwise⟩
    exact ⟨front ++ (sorted ++ back), run,
      Window.sorts_mid front back atStart atEnd permuted pairwise⟩
  · have empty : finish < start := Int.not_le.mp ordered
    exact ⟨arr, quickSort_short (Int.le_of_lt empty), Window.sorts_empty empty arr⟩

theorem quickSort_sorts_four :
    ∃ sorted, quickSort ⟨1, 4⟩ [9, 8, 7, 1, 3, 0] 1 4 = some sorted ∧
      Window.Sorts ⟨1, 4⟩ [9, 8, 7, 1, 3, 0] sorted :=
  quickSort_sorts (by decide) (by decide)

end OsCompiler.Algorithm
