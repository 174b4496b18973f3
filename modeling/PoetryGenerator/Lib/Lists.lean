/-
# Lists

What is joined with a separator has the elements of its parts and of the separator
(`mem_of_mem_intercalate`).  Trimming a list takes away only what is trimmed
(`mem_trim_iff`).  Of two kinds, one a part of the other, the first element is the same
exactly when the first of the larger kind is of the smaller (`find?_eq_find?_iff`).
-/

import Mathlib.Data.List.DropRight
import Mathlib.Order.Defs.PartialOrder

namespace Lists

variable {α β : Type}

/-! ### What is joined -/

section Intercalate
variable {sep : List α} {parts : List (List α)} {x : α}

theorem mem_of_mem_intercalate (h : x ∈ sep.intercalate parts) : x ∈ sep ∨ ∃ part ∈ parts, x ∈ part := by
  induction parts with
  | nil => cases h
  | cons part parts ih =>
      cases parts with
      | nil =>
          rw [List.intercalate_singleton] at h
          exact .inr ⟨part, List.mem_cons_self, h⟩
      | cons next parts =>
          rw [List.intercalate_cons_cons, List.mem_append, List.mem_append] at h
          rcases h with (h | h) | h
          · exact .inr ⟨part, List.mem_cons_self, h⟩
          · exact .inl h
          · exact (ih h).imp_right fun ⟨p, hp, hx⟩ => ⟨p, List.mem_cons_of_mem _ hp, hx⟩

/-- What is in neither the separator nor a part. -/
theorem notMem_intercalate (hx : x ∉ sep) (h : ∀ part ∈ parts, x ∉ part) : x ∉ sep.intercalate parts :=
  fun hmem => (mem_of_mem_intercalate hmem).elim hx fun ⟨part, hpart, hmem⟩ => h part hpart hmem

/-- Two parts or more are separated. -/
theorem mem_intercalate_of_mem (hx : x ∈ sep) (h : 2 ≤ parts.length) : x ∈ sep.intercalate parts := by
  match parts, h with
  | part :: next :: parts, _ =>
      rw [List.intercalate_cons_cons]
      exact List.mem_append_left _ (List.mem_append_right _ hx)

theorem length_le_length_intercalate (sep : List α) (h : ∀ part ∈ parts, part ≠ []) :
    parts.length ≤ (sep.intercalate parts).length := by
  induction parts with
  | nil => exact Nat.le_refl 0
  | cons part parts ih =>
      have hpart := List.length_pos_iff.2 (h part List.mem_cons_self)
      have ih := ih fun p hp => h p (List.mem_cons_of_mem _ hp)
      cases parts with
      | nil =>
          rw [List.intercalate_singleton]
          exact hpart
      | cons next parts =>
          rw [List.intercalate_cons_cons, List.length_append, List.length_append]
          simp only [List.length_cons] at ih ⊢
          omega

end Intercalate

/-! ### What is trimmed -/

section Trim
variable {p : α → Bool} {l : List α} {x : α}

theorem mem_dropWhile_iff (h : p x = false) : x ∈ l.dropWhile p ↔ x ∈ l := by
  conv_rhs => rw [← List.takeWhile_append_dropWhile (p := p) (l := l), List.mem_append]
  refine ⟨.inr, fun hx => hx.resolve_left fun hx => ?_⟩
  exact Bool.false_ne_true (h.symm.trans (List.mem_takeWhile_imp hx))

theorem mem_rdropWhile_iff (h : p x = false) : x ∈ l.rdropWhile p ↔ x ∈ l := by
  rw [List.rdropWhile, List.mem_reverse, mem_dropWhile_iff h, List.mem_reverse]

theorem mem_trim_iff (h : p x = false) : x ∈ (l.dropWhile p).rdropWhile p ↔ x ∈ l :=
  (mem_rdropWhile_iff h).trans (mem_dropWhile_iff h)

theorem trim_map (f : β → α) (l : List β) : ((l.map f).dropWhile p).rdropWhile p =
    ((l.dropWhile (p ∘ f)).rdropWhile (p ∘ f)).map f := by
  rw [List.dropWhile_map, List.rdropWhile, ← List.map_reverse, List.dropWhile_map, ← List.map_reverse]
  rfl

end Trim

/-! ### What is read -/

/-- What is written part by part is read part by part. -/
theorem mapM_map_eq_some {f : α → Option β} {g : β → α} {l : List β}
    (h : ∀ b ∈ l, f (g b) = some b) : (l.map g).mapM f = some l := by
  induction l with
  | nil => rfl
  | cons b l ih =>
      rw [List.map_cons, List.mapM_cons, h b (List.mem_cons_self ..),
        ih fun a ha => h a (List.mem_cons_of_mem _ ha)]
      rfl

theorem isSome_of_mapM {f : α → Option β} {l : List α} {r : List β}
    (h : l.mapM f = some r) : ∀ x ∈ l, (f x).isSome := by
  induction l generalizing r with
  | nil => exact fun x hx => absurd hx List.not_mem_nil
  | cons a l ih =>
      rw [List.mapM_cons] at h
      obtain ⟨b, hb, h⟩ := Option.bind_eq_some_iff.1 h
      obtain ⟨bs, hbs, -⟩ := Option.bind_eq_some_iff.1 h
      intro x hx
      rcases List.mem_cons.1 hx with rfl | hx
      · rw [hb]
        rfl
      · exact ih hbs x hx

/-! ### What is selected -/

/-- **The first element of two kinds**, one of them a part of the other. -/
theorem find?_eq_find?_iff {p q : α → Bool} {l : List α} (h : ∀ x ∈ l, p x = true → q x = true) :
    l.find? p = l.find? q ↔ ∀ x, l.find? q = some x → p x = true := by
  induction l with
  | nil => simp
  | cons a l ih =>
      have hrest := ih fun x hx => h x (List.mem_cons_of_mem _ hx)
      cases hq : q a with
      | false =>
          have hp : p a = false := Bool.eq_false_iff.2 fun hp =>
            Bool.false_ne_true (hq.symm.trans (h a (List.mem_cons_self ..) hp))
          rwa [List.find?_cons_of_neg (by simp [hp]), List.find?_cons_of_neg (by simp [hq])]
      | true =>
          rw [List.find?_cons_of_pos (p := q) hq]
          constructor
          · intro heq x hx
            obtain rfl := Option.some.inj hx
            exact List.find?_some heq
          · intro hp
            exact List.find?_cons_of_pos (hp a rfl)

/-- In a list that decreases strictly, what is less than a member is what follows it. -/
theorem filter_lt_of_pairwise [Preorder α] [DecidableLT α] {pre post : List α} {x : α}
    (h : (pre ++ x :: post).Pairwise (· > ·)) : (pre ++ x :: post).filter (· < x) = post := by
  obtain ⟨-, hpost, hpre⟩ := List.pairwise_append.1 h
  have hnone : pre.filter (· < x) = [] := List.filter_eq_nil_iff.2 fun y hy => by
    simpa using (hpre y hy x List.mem_cons_self).not_gt
  have hall : post.filter (· < x) = post := List.filter_eq_self.2 fun y hy => by
    simpa using (List.pairwise_cons.1 hpost).1 y hy
  rw [List.filter_append, hnone, List.nil_append, List.filter_cons_of_neg (by simp), hall]

end Lists
