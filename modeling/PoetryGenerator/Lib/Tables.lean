/-
# Tables keyed by a primary key

A table is an association list without repeated keys (Mathlib's `AList`), so a
table with two rows under one key cannot be built.  Beyond `lookup`, `insert`
and `erase` of Mathlib this file has what a relational store adds:

* `set`, the assignment of a dictionary that keeps the order of insertion;
* `selectKeys p`, the keys of the rows that meet `p`;
* `deleteWhere p`, the table without the rows that meet `p`;
* `Tracked` and `flush`, the write of an object-relational session: a session
  keeps the values it loaded, and on commit it updates the changed columns of
  the rows whose objects changed.  An update that matches no row fails.
-/

import Mathlib.Data.List.AList

/-- A table with rows `α` under keys `κ`. -/
abbrev Table (κ α : Type) := AList (fun _ : κ => α)

namespace Table

variable {κ α : Type} [DecidableEq κ]

/-- `SELECT key FROM t WHERE p`. -/
def selectKeys (t : Table κ α) (p : κ → α → Bool) : List κ :=
  (t.entries.filter fun e => p e.1 e.2).keys

/-- `DELETE FROM t WHERE p`. -/
def deleteWhere (t : Table κ α) (p : κ → α → Bool) : Table κ α :=
  ⟨t.entries.filter fun e => !p e.1 e.2, t.nodupKeys.sublist List.filter_sublist⟩

/-- A key is selected exactly when its row meets the predicate. -/
theorem mem_selectKeys {t : Table κ α} {p : κ → α → Bool} {k : κ} :
    k ∈ t.selectKeys p ↔ ∃ a, t.lookup k = some a ∧ p k a = true := by
  simp only [selectKeys, List.mem_keys, List.mem_filter, ← AList.mem_lookup_iff, Option.mem_def]

omit [DecidableEq κ] in
/-- A query returns no key twice. -/
theorem nodup_selectKeys (t : Table κ α) (p : κ → α → Bool) : (t.selectKeys p).Nodup :=
  t.nodupKeys.sublist List.filter_sublist

/-- The rows left by a deletion are the rows that do not meet its predicate. -/
theorem lookup_deleteWhere {t : Table κ α} {p : κ → α → Bool} {k : κ} :
    (t.deleteWhere p).lookup k = (t.lookup k).filter fun a => !p k a := by
  ext a
  rw [← Option.mem_def, AList.mem_lookup_iff, deleteWhere, List.mem_filter, ← AList.mem_lookup_iff,
    Option.mem_def, Option.filter_eq_some_iff]

theorem lookup_insert {t : Table κ α} {k k' : κ} {a : α} :
    AList.lookup k' (t.insert k a) = if k' = k then some a else AList.lookup k' t := by
  split_ifs with h
  · rw [h, AList.lookup_insert]
  · exact AList.lookup_insert_ne h

/-- The entries with another value in the place of a key. -/
def assign (l : List (Σ _ : κ, α)) (k : κ) (a : α) : List (Σ _ : κ, α) :=
  l.map fun e => if e.1 = k then ⟨k, a⟩ else e

theorem keys_assign (l : List (Σ _ : κ, α)) (k : κ) (a : α) : (assign l k a).keys = l.keys := by
  rw [assign, List.keys, List.map_map]
  refine List.map_congr_left fun e _ => ?_
  rw [Function.comp_apply]
  split_ifs with hk
  · exact hk.symm
  · rfl

theorem nodupKeys_assign {l : List (Σ _ : κ, α)} (h : l.NodupKeys) (k : κ) (a : α) :
    (assign l k a).NodupKeys := by
  rw [List.NodupKeys, keys_assign]
  exact h

theorem mem_assign_of_ne {l : List (Σ _ : κ, α)} {k k' : κ} {a b : α} (h : k' ≠ k) :
    ⟨k', b⟩ ∈ assign l k a ↔ ⟨k', b⟩ ∈ l := by
  rw [assign, List.mem_map]
  constructor
  · rintro ⟨e, he, heq⟩
    split_ifs at heq
    · exact absurd (congrArg Sigma.fst heq).symm h
    · exact heq ▸ he
  · exact fun he => ⟨_, he, if_neg h⟩

/-- `t[k] = a` in a dictionary: a new key comes last, another keeps its place. -/
def set (t : Table κ α) (k : κ) (a : α) : Table κ α :=
  if h : k ∈ t then ⟨assign t.entries k a, nodupKeys_assign t.nodupKeys k a⟩
  else
    ⟨t.entries ++ [⟨k, a⟩], List.nodupKeys_middle.2 (List.nodupKeys_cons.2
      ⟨by rwa [List.append_nil], by rw [List.append_nil]; exact t.nodupKeys⟩)⟩

theorem lookup_set {t : Table κ α} {k k' : κ} {a : α} :
    AList.lookup k' (t.set k a) = if k' = k then some a else AList.lookup k' t := by
  unfold set
  split_ifs with h hk hk
  · subst hk
    obtain ⟨b, hb⟩ := Option.isSome_iff_exists.1 (AList.lookup_isSome.2 h)
    refine AList.mem_lookup_iff.2 (List.mem_map.2 ?_)
    exact ⟨⟨k', b⟩, AList.mem_lookup_iff.1 hb, if_pos rfl⟩
  · refine Option.ext fun b => ?_
    exact AList.mem_lookup_iff.trans ((mem_assign_of_ne hk).trans AList.mem_lookup_iff.symm)
  · subst hk
    refine (List.dlookup_append ..).trans ?_
    rw [List.dlookup_eq_none.2 h, Option.none_or, List.dlookup_cons_eq]
  · refine (List.dlookup_append ..).trans ?_
    rw [List.dlookup_cons_ne _ _ hk, List.dlookup_nil, Option.or_none]
    rfl

/-- A new key comes last. -/
theorem entries_set_of_notMem {t : Table κ α} {k : κ} {a : α} (h : k ∉ t) :
    (t.set k a).entries = t.entries ++ [⟨k, a⟩] := by
  rw [set, dif_neg h]

/-- A key that is there is no further one. -/
theorem length_set_of_mem {t : Table κ α} {k : κ} {a : α} (h : k ∈ t) :
    (t.set k a).entries.length = t.entries.length := by
  rw [set, dif_pos h]
  exact List.length_map ..

/-- The rows of some keys are deleted, one for each of them. -/
theorem length_deleteWhere_keys {t : Table κ α} {ks : List κ} (hnodup : ks.Nodup)
    (hks : ∀ k ∈ ks, k ∈ t) :
    (t.deleteWhere fun k _ => k ∈ ks).entries.length + ks.length = t.entries.length := by
  have hperm : (t.entries.filter fun e => decide (e.1 ∈ ks)).keys.Perm ks := by
    refine (List.perm_ext_iff_of_nodup (t.nodupKeys.sublist List.filter_sublist) hnodup).2 fun k => ?_
    rw [List.mem_keys]
    constructor
    · rintro ⟨a, ha⟩
      exact of_decide_eq_true (List.mem_filter.1 ha).2
    · intro hk
      obtain ⟨a, ha⟩ := List.mem_keys.1 (AList.mem_keys.1 (hks k hk))
      exact ⟨a, List.mem_filter.2 ⟨ha, decide_eq_true hk⟩⟩
  have hlen : (t.entries.filter fun e => decide (e.1 ∈ ks)).length = ks.length :=
    (List.length_map ..).symm.trans hperm.length_eq
  rw [deleteWhere, ← hlen, Nat.add_comm]
  exact (List.length_eq_length_filter_add ..).symm

end Table

/-- An object of a session: the values it was loaded with (or last committed),
and the values it has now. -/
structure Tracked (α : Type) where
  loaded : α
  cur : α
deriving DecidableEq, Repr

namespace Tracked

variable {κ α : Type} [DecidableEq κ] [DecidableEq α]

/-- An object as it comes from a query. -/
def load (a : α) : Tracked α := ⟨a, a⟩

/-- An object after a commit that keeps its values in the session. -/
def committed (x : Tracked α) : Tracked α := ⟨x.cur, x.cur⟩

/-- A column after an update of the changed columns. -/
def column {β : Type} [DecidableEq β] (row old new : β) : β := if new = old then row else new

theorem column_self {β : Type} [DecidableEq β] (old new : β) : column old old new = new := by
  unfold column; split_ifs with h
  · exact h.symm
  · rfl

/-- The update of one row on commit: nothing for an unchanged object, `none`
when the row of a changed one is gone; `write` merges the changed columns. -/
def flush (write : α → Tracked α → α) (t : Table κ α) (k : κ) (x : Tracked α) :
    Option (Table κ α) :=
  if x.cur = x.loaded then some t
  else (t.lookup k).map fun row => t.insert k (write row x)

/-- **What a flush does.**  When the row, if it is still there, is as it was
loaded, the flush leaves the object's values in it and every other row alone. -/
theorem lookup_flush {write : α → Tracked α → α} (hw : ∀ x, write x.loaded x = x.cur)
    {t t' : Table κ α} {k : κ} {x : Tracked α} (hrow : ∀ row, t.lookup k = some row → row = x.loaded)
    (h : flush write t k x = some t') (k' : κ) :
    t'.lookup k' = if k' = k then (t.lookup k).map (fun _ => x.cur) else t.lookup k' := by
  unfold flush at h
  split_ifs at h with hc
  · obtain rfl := Option.some.inj h
    split_ifs with hk
    · subst hk
      cases hl : AList.lookup k' t with
      | none => rfl
      | some row => rw [hrow row hl, Option.map_some, hc]
    · rfl
  · obtain ⟨row, hl, rfl⟩ := Option.map_eq_some_iff.1 h
    rw [Table.lookup_insert, hl, hrow row hl, hw, Option.map_some]

/-- A flush fails when a changed object's row is gone. -/
theorem flush_eq_none_iff {write : α → Tracked α → α} {t : Table κ α} {k : κ} {x : Tracked α} :
    flush write t k x = none ↔ x.cur ≠ x.loaded ∧ t.lookup k = none := by
  unfold flush
  split_ifs with hc
  · simp [hc]
  · simp [hc]

end Tracked
