/-
Tables in which every key has the entry that was first given for it.
-/

import Mathlib.Data.List.Nodup

namespace OsCompiler.KeyedTable

section KeyedTable

variable {Entry Key : Type} [DecidableEq Key] (key : Entry → Key)

def enter (table : List Entry) (entry : Entry) : List Entry :=
  if key entry ∈ table.map key then table else table ++ [entry]

def enterAll (table entries : List Entry) : List Entry := entries.foldl (enter key) table

variable {key}

@[simp] theorem enterAll_nil (table : List Entry) : enterAll key table [] = table := rfl

theorem enterAll_append (table left right : List Entry) :
    enterAll key table (left ++ right) = enterAll key (enterAll key table left) right :=
  List.foldl_append

theorem mem_enter {table : List Entry} {entry other : Entry} (member : other ∈ enter key table entry) :
    other ∈ table ∨ other = entry := by
  rw [enter] at member
  split at member
  · exact .inl member
  · rcases List.mem_append.mp member with earlier | latest
    · exact .inl earlier
    · exact .inr (List.mem_singleton.mp latest)

theorem key_mem_enter (table : List Entry) (entry : Entry) (name : Key) :
    name ∈ (enter key table entry).map key ↔ name ∈ table.map key ∨ name = key entry := by
  rw [enter]
  split
  · rename_i found
    refine ⟨.inl, ?_⟩
    rintro (earlier | rfl)
    · exact earlier
    · exact found
  · rw [List.map_append, List.mem_append]
    exact or_congr_right List.mem_singleton

theorem nodup_enter {table : List Entry} (nodup : (table.map key).Nodup) (entry : Entry) :
    ((enter key table entry).map key).Nodup := by
  rw [enter]
  split
  · exact nodup
  · rename_i fresh
    rw [List.map_append]
    exact nodup.append (List.nodup_singleton _) (List.disjoint_singleton.mpr fresh)

/-- An entry of the table was there before or has been entered. -/
theorem mem_enterAll {table entries : List Entry} {entry : Entry}
    (member : entry ∈ enterAll key table entries) : entry ∈ table ∨ entry ∈ entries := by
  induction entries generalizing table with
  | nil => exact .inl member
  | cons first entries ih =>
      rcases ih member with earlier | later
      · rcases mem_enter earlier with before | same
        · exact .inl before
        · exact .inr (same ▸ List.mem_cons_self)
      · exact .inr (List.mem_cons_of_mem first later)

theorem key_mem_enterAll (table entries : List Entry) (name : Key) :
    name ∈ (enterAll key table entries).map key ↔
      name ∈ table.map key ∨ name ∈ entries.map key := by
  induction entries generalizing table with
  | nil => simp
  | cons first entries ih =>
      change name ∈ (enterAll key (enter key table first) entries).map key ↔ _
      rw [ih, key_mem_enter, List.map_cons, List.mem_cons, or_assoc]

theorem nodup_enterAll {table : List Entry} (nodup : (table.map key).Nodup)
    (entries : List Entry) : ((enterAll key table entries).map key).Nodup := by
  induction entries generalizing table with
  | nil => exact nodup
  | cons first entries ih => exact ih (nodup_enter nodup first)

/-- All of some entries are in the table that some of them make exactly if each is among these
and no key has two. -/
theorem enterAll_complete_iff {early entries : List Entry}
    (subset : ∀ entry ∈ early, entry ∈ entries) :
    (∀ entry ∈ entries, entry ∈ enterAll key [] early) ↔
      (∀ entry ∈ entries, entry ∈ early) ∧
        ∀ entry ∈ entries, ∀ other ∈ entries, key entry = key other → entry = other := by
  constructor
  · intro complete
    constructor
    · intro entry member
      exact (mem_enterAll (complete entry member)).resolve_left List.not_mem_nil
    · intro entry member other member' same
      have nodup : ((enterAll key [] early).map key).Nodup :=
        nodup_enterAll (by simp) early
      exact List.inj_on_of_nodup_map nodup (complete entry member) (complete other member') same
  · rintro ⟨reached, apart⟩ entry member
    have named : key entry ∈ (enterAll key [] early).map key :=
      (key_mem_enterAll [] early _).mpr (.inr (List.mem_map_of_mem (reached entry member)))
    rcases List.mem_map.mp named with ⟨other, there, same⟩
    have listed := subset other ((mem_enterAll there).resolve_left List.not_mem_nil)
    rwa [← apart other listed entry member same]

end KeyedTable

end OsCompiler.KeyedTable
