/-
Deletion by key from a list whose elements share keys.

Erasing a key takes off the first element that has it, whoever that is. Erasing the
keys of some targets removes these and nobody else exactly when, for each key, the
elements that come first under it are targets.
-/

import Mathlib.Data.List.Perm.Subperm
import Mathlib.Data.List.Nodup

namespace OsCompiler

variable {α κ : Type} [DecidableEq κ] (key : α → κ)

def eraseKey (list : List α) (erased : κ) : List α := list.eraseP fun x => key x = erased

def eraseKeys (list : List α) (keys : List κ) : List α := keys.foldl (eraseKey key) list

def withKey (list : List α) (k : κ) : List α := list.filter fun x => key x = k

/-- For each key, the elements taken off under it are among the targets. -/
def ErasesOwn (list targets : List α) : Prop :=
  ∀ k, ∀ x ∈ (withKey key list k).take ((targets.map key).count k), x ∈ targets

theorem withKey_eraseKey (list : List α) (erased k : κ) :
    withKey key (eraseKey key list erased) k =
      if erased = k then (withKey key list k).tail else withKey key list k := by
  induction list with
  | nil => simp [withKey, eraseKey]
  | cons x list ih =>
      unfold withKey eraseKey at ih ⊢
      by_cases here : key x = erased
      · rw [List.eraseP_cons_of_pos (by simpa using here), List.filter_cons]
        by_cases same : erased = k
        · simp [here, same]
        · simp [here, same]
      · rw [List.eraseP_cons_of_neg (by simpa using here), List.filter_cons, List.filter_cons, ih]
        by_cases same : erased = k
        · subst same
          simp [here]
        · simp [same]

theorem withKey_eraseKeys (list : List α) (keys : List κ) (k : κ) :
    withKey key (eraseKeys key list keys) k = (withKey key list k).drop (keys.count k) := by
  induction keys generalizing list with
  | nil => rfl
  | cons erased keys ih =>
      change withKey key (eraseKeys key (eraseKey key list erased) keys) k = _
      rw [ih, withKey_eraseKey, List.count_cons]
      by_cases same : erased = k
      · simp [same]
      · simp [same]

theorem eraseKeys_sublist (list : List α) (keys : List κ) :
    (eraseKeys key list keys).Sublist list := by
  induction keys generalizing list with
  | nil => exact List.Sublist.refl list
  | cons erased keys ih => exact (ih (eraseKey key list erased)).trans List.eraseP_sublist

variable {key}

theorem mem_withKey {list : List α} {x : α} {k : κ} :
    x ∈ withKey key list k ↔ x ∈ list ∧ key x = k := by
  simp [withKey]

/-- An element stays when as many elements of its key as are erased come before it. -/
theorem mem_eraseKeys {list : List α} {keys : List κ} {x : α} :
    x ∈ eraseKeys key list keys ↔ x ∈ (withKey key list (key x)).drop (keys.count (key x)) := by
  rw [← withKey_eraseKeys, mem_withKey]
  simp

theorem count_map_eq_length (list : List α) (k : κ) :
    (list.map key).count k = (withKey key list k).length := by
  rw [List.count_eq_countP, List.countP_map, List.countP_eq_length_filter]
  rfl

/-- Something is left when some key is on the list more often than it is erased. -/
theorem eraseKeys_ne_nil_iff {list : List α} {keys : List κ} :
    eraseKeys key list keys ≠ [] ↔ ∃ k, keys.count k < (list.map key).count k := by
  constructor
  · intro some
    rcases List.exists_mem_of_ne_nil _ some with ⟨x, stays⟩
    have late := List.length_pos_of_mem (mem_eraseKeys.mp stays)
    rw [List.length_drop] at late
    refine ⟨key x, ?_⟩
    rw [count_map_eq_length]
    omega
  · intro more none
    rcases more with ⟨k, fewer⟩
    rw [count_map_eq_length] at fewer
    have under := withKey_eraseKeys key list keys k
    rw [none] at under
    have short := congrArg List.length under
    rw [List.length_drop] at short
    change 0 = _ at short
    omega

theorem erasesOwn_nil (list : List α) : ErasesOwn key list [] := by
  intro k x early
  simp at early

theorem erasesOwn_iff {list targets : List α} (nodup : list.Nodup) :
    ErasesOwn key list targets ↔
      ∀ x ∈ list, x ∉ targets → x ∈ eraseKeys key list (targets.map key) := by
  constructor
  · intro own x member other
    rw [mem_eraseKeys]
    have inside : x ∈ withKey key list (key x) := mem_withKey.mpr ⟨member, rfl⟩
    rw [← List.take_append_drop ((targets.map key).count (key x)) (withKey key list (key x)),
      List.mem_append] at inside
    rcases inside with early | late
    · exact absurd (own _ x early) other
    · exact late
  · intro kept k x early
    by_contra other
    rcases mem_withKey.mp (List.mem_of_mem_take early) with ⟨member, rfl⟩
    have late := mem_eraseKeys.mp (kept x member other)
    exact List.disjoint_take_drop (nodup.filter _) (Nat.le_refl _) early late

/-- The targets themselves are gone: with the first elements of a key all targets, a
target further back would be one too many. -/
theorem ErasesOwn.notMem {list targets : List α} (own : ErasesOwn key list targets)
    (nodup : list.Nodup) {x : α} (target : x ∈ targets) :
    x ∉ eraseKeys key list (targets.map key) := by
  intro stays
  have late := mem_eraseKeys.mp stays
  generalize counted : (targets.map key).count (key x) = erased at late
  have early : ∀ y ∈ (withKey key list (key x)).take erased, y ∈ withKey key targets (key x) := by
    intro y member
    have under := (mem_withKey.mp (List.mem_of_mem_take member)).2
    exact mem_withKey.mpr ⟨own (key x) y (by rwa [counted]), under⟩
  have apart : x ∉ (withKey key list (key x)).take erased := fun member =>
    List.disjoint_take_drop (nodup.filter _) (Nat.le_refl _) member late
  have front : (x :: (withKey key list (key x)).take erased).Nodup :=
    List.nodup_cons.mpr ⟨apart, ((nodup.filter _).sublist (List.take_sublist _ _))⟩
  have among : x :: (withKey key list (key x)).take erased ⊆ withKey key targets (key x) := by
    intro y member
    rcases List.mem_cons.mp member with rfl | rest
    · exact mem_withKey.mpr ⟨target, rfl⟩
    · exact early y rest
  have many := (List.subperm_of_subset front among).length_le
  have long : erased < (withKey key list (key x)).length := by
    by_contra short
    rw [List.drop_eq_nil_of_le (by omega)] at late
    cases late
  have exact_count : (withKey key targets (key x)).length = erased := by
    rw [← counted, count_map_eq_length]
  rw [List.length_cons, List.length_take, exact_count] at many
  omega

/-! ### Erasing exactly the targets -/

/-- For each key, the elements taken off under it are targets and those left are none. -/
def ErasesExactly (key : α → κ) (list : List α) (keys : List κ) (targets : List α) : Prop :=
  ∀ k, (∀ x ∈ (withKey key list k).take (keys.count k), x ∈ targets) ∧
    ∀ x ∈ (withKey key list k).drop (keys.count k), x ∉ targets

/-- The first element is erased when its key is asked for at all. -/
theorem eraseKeys_cons (x : α) (list : List α) (keys : List κ) :
    eraseKeys key (x :: list) keys =
      if key x ∈ keys then eraseKeys key list (keys.erase (key x))
      else x :: eraseKeys key list keys := by
  induction keys generalizing list with
  | nil => rfl
  | cons k keys ih =>
      change eraseKeys key (eraseKey key (x :: list) k) keys = _
      by_cases here : key x = k
      · have first : eraseKey key (x :: list) k = list :=
          List.eraseP_cons_of_pos (by simpa using here)
        rw [first, if_pos (here ▸ List.mem_cons_self), here, List.erase_cons_head]
      · have kept : eraseKey key (x :: list) k = x :: eraseKey key list k :=
          List.eraseP_cons_of_neg (by simpa using here)
        have different : ¬ (k == key x) = true := by simpa using Ne.symm here
        rw [kept, ih, List.erase_cons_tail different]
        by_cases asked : key x ∈ keys
        · rw [if_pos asked, if_pos (List.mem_cons_of_mem k asked)]
          rfl
        · rw [if_neg asked, if_neg]
          · rfl
          · intro member
            exact asked ((List.mem_cons.mp member).resolve_left here)

theorem withKey_cons (x : α) (list : List α) (k : κ) :
    withKey key (x :: list) k =
      if key x = k then x :: withKey key list k else withKey key list k := by
  unfold withKey
  rw [List.filter_cons]
  simp only [decide_eq_true_eq]

/-- The erased list is the list without the targets. -/
theorem eraseKeys_eq_filter_iff [DecidableEq α] {list targets : List α} {keys : List κ} :
    eraseKeys key list keys = list.filter (fun x => x ∉ targets) ↔
      ErasesExactly key list keys targets := by
  constructor
  · intro same k
    have underKey : (withKey key list k).drop (keys.count k) =
        (withKey key list k).filter (fun x => x ∉ targets) := by
      rw [← withKey_eraseKeys, same]
      unfold withKey
      rw [List.filter_filter, List.filter_filter]
      congr 1
      funext x
      exact Bool.and_comm _ _
    have later : ∀ x ∈ (withKey key list k).drop (keys.count k), x ∉ targets := by
      intro x member
      rw [underKey] at member
      simpa using (List.mem_filter.mp member).2
    refine ⟨?_, later⟩
    -- What the filter keeps is as long as the rear, so it keeps nothing of the front.
    rw [← List.take_append_drop (keys.count k) (withKey key list k), List.filter_append,
      List.take_append_drop] at underKey
    have rear : ((withKey key list k).drop (keys.count k)).filter (fun x => x ∉ targets) =
        (withKey key list k).drop (keys.count k) := by
      rw [List.filter_eq_self]
      intro x member
      simpa using later x member
    rw [rear] at underKey
    have front := List.self_eq_append_left.mp underKey
    rw [List.filter_eq_nil_iff] at front
    intro x member
    simpa using front x member
  · intro exactly
    induction list generalizing keys with
    | nil =>
        rw [List.filter_nil]
        exact List.eq_nil_of_sublist_nil (eraseKeys_sublist key [] keys)
    | cons x list ih =>
        have own := exactly (key x)
        rw [withKey_cons, if_pos rfl] at own
        rw [eraseKeys_cons]
        by_cases asked : key x ∈ keys
        · have some := List.count_pos_iff.mpr asked
          have target : x ∈ targets := by
            apply own.1 x
            rw [← Nat.succ_pred_eq_of_pos some]
            exact List.mem_cons_self
          rw [if_pos asked, List.filter_cons_of_neg (by simpa using target)]
          apply ih
          intro k
          have under := exactly k
          rw [withKey_cons] at under
          rw [List.count_erase]
          by_cases here : key x = k
          · subst here
            rw [if_pos rfl] at under
            rw [if_pos (beq_self_eq_true _)]
            rw [← Nat.succ_pred_eq_of_pos some] at under
            constructor
            · intro y member
              exact under.1 y (List.mem_cons_of_mem x member)
            · exact under.2
          · rw [if_neg here] at under
            rw [if_neg (by simpa using here), Nat.sub_zero]
            exact under
        · have zero := List.count_eq_zero.mpr asked
          have other : x ∉ targets := by
            apply own.2 x
            rw [zero]
            exact List.mem_cons_self
          rw [if_neg asked, List.filter_cons_of_pos (by simpa using other), ih]
          intro k
          have under := exactly k
          rw [withKey_cons] at under
          by_cases here : key x = k
          · subst here
            rw [if_pos rfl, zero] at under
            rw [zero]
            constructor
            · intro y member
              cases member
            · intro y member
              exact under.2 y (List.mem_cons_of_mem x member)
          · rw [if_neg here] at under
            exact under

end OsCompiler
