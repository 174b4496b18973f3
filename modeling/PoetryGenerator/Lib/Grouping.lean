/-
# Counting by groups

`SELECT key, count(*) .. GROUP BY key` gives a row for each value of the key that
occurs.  Read into a dictionary it counts every value of the key (`getD_groupCount`),
has no entry for a value that does not occur, and its counts add up to the number of
rows (`total_groupCount`).
-/

import Mathlib.Algebra.BigOperators.Group.List.Lemmas
import PoetryGenerator.Lib.Tables

namespace Table

variable {α κ : Type} [DecidableEq κ] {key : α → κ} {rows : List α} {k : κ}

/-- The dictionary of the groups, with the number of rows in each. -/
def groupCount (key : α → κ) (rows : List α) : Table κ ℕ :=
  ⟨(rows.map key).dedup.map fun k => ⟨k, (rows.map key).count k⟩, by
    rw [List.NodupKeys, List.keys, List.map_map]
    exact (List.map_id _).symm ▸ List.nodup_dedup _⟩

/-- The sum of the values. -/
def total (t : Table κ ℕ) : ℕ := t.entries.foldr (fun e n => e.2 + n) 0

theorem mem_groupCount : k ∈ groupCount key rows ↔ ∃ row ∈ rows, key row = k := by
  rw [AList.mem_keys, groupCount, AList.keys, List.keys, List.map_map]
  exact (List.map_id (rows.map key).dedup).symm ▸ List.mem_dedup.trans List.mem_map

/-- What the dictionary counts for a key, nothing being zero. -/
theorem getD_groupCount (key : α → κ) (rows : List α) (k : κ) :
    ((groupCount key rows).lookup k).getD 0 = (rows.map key).count k := by
  by_cases hk : k ∈ rows.map key
  · have hentry : (⟨k, (rows.map key).count k⟩ : Σ _ : κ, ℕ) ∈ (groupCount key rows).entries :=
      List.mem_map.2 ⟨k, List.mem_dedup.2 hk, rfl⟩
    rw [Option.mem_def.1 (AList.mem_lookup_iff.2 hentry), Option.getD_some]
  · have hnone : (groupCount key rows).lookup k = none :=
      AList.lookup_eq_none.2 fun hmem => hk (List.mem_map.2 (mem_groupCount.1 hmem))
    rw [hnone, Option.getD_none, List.count_eq_zero.2 hk]

/-- **The groups make up all the rows.** -/
theorem total_groupCount (key : α → κ) (rows : List α) :
    (groupCount key rows).total = rows.length := by
  rw [total, groupCount, List.foldr_map, ← List.foldr_map, ← List.sum_eq_foldr]
  exact (List.sum_map_count_dedup_eq_length _).trans (List.length_map _)

omit [DecidableEq κ] in
/-- Two tables select as many rows when the selected keys correspond one to one. -/
theorem length_selectKeys_eq {κ' β : Type} {t : Table κ α} {t' : Table κ' β}
    {p : κ → α → Bool} {q : κ' → β → Bool} (f : κ → κ')
    (hmap : ∀ k ∈ t.selectKeys p, f k ∈ t'.selectKeys q)
    (hinj : ∀ k ∈ t.selectKeys p, ∀ k' ∈ t.selectKeys p, f k = f k' → k = k')
    (hsurj : ∀ k' ∈ t'.selectKeys q, ∃ k ∈ t.selectKeys p, f k = k') :
    (t.selectKeys p).length = (t'.selectKeys q).length := by
  have hperm : ((t.selectKeys p).map f).Perm (t'.selectKeys q) := by
    refine (List.perm_ext_iff_of_nodup ((t.nodup_selectKeys p).map_on hinj)
      (t'.nodup_selectKeys q)).2 fun k' => ⟨fun h => ?_, fun h => ?_⟩
    · obtain ⟨k, hk, rfl⟩ := List.mem_map.1 h
      exact hmap k hk
    · obtain ⟨k, hk, rfl⟩ := hsurj k' h
      exact List.mem_map.2 ⟨k, hk, rfl⟩
  exact (List.length_map f).symm.trans hperm.length_eq

omit [DecidableEq κ] in
/-- A count over a table is the number of keys it selects. -/
theorem count_eq_length_selectKeys {β : Type} [DecidableEq β] (t : Table κ α) (column : α → β)
    (b : β) : (t.entries.map fun e => column e.2).count b =
      (t.selectKeys fun _ a => column a = b).length := by
  rw [List.count, List.countP_map, List.countP_eq_length_filter, selectKeys, List.keys,
    List.length_map]
  refine congrArg List.length (List.filter_congr fun e _ => ?_)
  rw [Function.comp_apply, beq_eq_decide]

end Table
