/-
# Patterns of text

The operators of practical patterns over Mathlib's `RegularExpression`: a fixed text
(`lit`), one of some characters (`oneOf`), `P?` (`opt`), `P+` (`many1`) and `P{0,n}`
(`upTo`).  A full match is `rmatch`, and each operator has a lemma that says which texts
it matches, so that a pattern is read off by rewriting.
-/

import Mathlib.Computability.RegularExpressions

namespace Patterns

open RegularExpression

variable {α : Type*} {P Q : RegularExpression α} {s t : List α} {cs : List α} {n : ℕ}

/-- A fixed text. -/
def lit (s : List α) : RegularExpression α := (s.map char).foldr (· * ·) 1

/-- One of some characters. -/
def oneOf (cs : List α) : RegularExpression α := (cs.map char).foldr (· + ·) 0

/-- `P?`. -/
def opt (P : RegularExpression α) : RegularExpression α := 1 + P

/-- `P+`. -/
def many1 (P : RegularExpression α) : RegularExpression α := P * star P

/-- At most `n` times. -/
def upTo (P : RegularExpression α) : ℕ → RegularExpression α
  | 0 => 1
  | n + 1 => opt (P * upTo P n)

theorem mem_add : s ∈ (P + Q).matches' ↔ s ∈ P.matches' ∨ s ∈ Q.matches' := by
  rw [matches'_add, Language.mem_add]

theorem mem_mul : s ∈ (P * Q).matches' ↔ ∃ a b, a ∈ P.matches' ∧ b ∈ Q.matches' ∧ s = a ++ b := by
  rw [matches'_mul, Language.mem_mul]
  constructor
  · rintro ⟨a, ha, b, hb, rfl⟩
    exact ⟨a, b, ha, hb, rfl⟩
  · rintro ⟨a, b, ha, hb, rfl⟩
    exact ⟨a, ha, b, hb, rfl⟩

@[simp] theorem mem_lit : s ∈ (lit t).matches' ↔ s = t := by
  induction t generalizing s with
  | nil => exact Language.mem_one s
  | cons c t ih =>
      have hcons : lit (c :: t) = char c * lit t := rfl
      rw [hcons, mem_mul, matches'_char]
      constructor
      · rintro ⟨a, b, rfl, hb, rfl⟩
        rw [ih.1 hb]
        rfl
      · rintro rfl
        exact ⟨[c], t, rfl, ih.2 rfl, rfl⟩

@[simp] theorem mem_oneOf : s ∈ (oneOf cs).matches' ↔ ∃ c ∈ cs, s = [c] := by
  induction cs with
  | nil =>
      have hnil : (oneOf ([] : List α)).matches' = 0 := rfl
      rw [hnil]
      simp
  | cons c cs ih =>
      have hcons : oneOf (c :: cs) = char c + oneOf cs := rfl
      rw [hcons, mem_add, ih, matches'_char, List.exists_mem_cons_iff]
      rfl

@[simp] theorem mem_opt : s ∈ (opt P).matches' ↔ s = [] ∨ s ∈ P.matches' := by
  rw [opt, mem_add, matches'_epsilon, Language.mem_one]

@[simp] theorem mem_star_oneOf : s ∈ (star (oneOf cs)).matches' ↔ ∀ c ∈ s, c ∈ cs := by
  rw [matches'_star, Language.mem_kstar]
  constructor
  · rintro ⟨L, rfl, hL⟩ c hc
    obtain ⟨y, hy, hcy⟩ := List.mem_flatten.1 hc
    obtain ⟨d, hd, rfl⟩ := mem_oneOf.1 (hL y hy)
    rwa [List.mem_singleton.1 hcy]
  · intro h
    refine ⟨s.map fun c => [c], by simp [← List.flatMap_def], fun y hy => ?_⟩
    obtain ⟨c, hc, rfl⟩ := List.mem_map.1 hy
    exact mem_oneOf.2 ⟨c, h c hc, rfl⟩

@[simp] theorem mem_many1_oneOf :
    s ∈ (many1 (oneOf cs)).matches' ↔ s ≠ [] ∧ ∀ c ∈ s, c ∈ cs := by
  rw [many1, mem_mul]
  constructor
  · rintro ⟨a, b, ha, hb, rfl⟩
    obtain ⟨c, hc, rfl⟩ := mem_oneOf.1 ha
    exact ⟨List.cons_ne_nil _ _, List.forall_mem_cons.2 ⟨hc, mem_star_oneOf.1 hb⟩⟩
  · rintro ⟨hne, hall⟩
    obtain ⟨c, s, rfl⟩ := List.exists_cons_of_ne_nil hne
    rw [List.forall_mem_cons] at hall
    exact ⟨[c], s, mem_oneOf.2 ⟨c, hall.1, rfl⟩, mem_star_oneOf.2 hall.2, rfl⟩

theorem mem_upTo_oneOf :
    s ∈ (upTo (oneOf cs) n).matches' ↔ s.length ≤ n ∧ ∀ c ∈ s, c ∈ cs := by
  induction n generalizing s with
  | zero =>
      rw [upTo, matches'_epsilon, Language.mem_one, Nat.le_zero, List.length_eq_zero_iff]
      exact ⟨fun h => ⟨h, h ▸ fun _ hc => absurd hc List.not_mem_nil⟩, And.left⟩
  | succ n ih =>
      rw [upTo, mem_opt, mem_mul]
      constructor
      · rintro (rfl | ⟨a, b, ha, hb, rfl⟩)
        · exact ⟨Nat.zero_le _, fun _ hc => absurd hc List.not_mem_nil⟩
        · obtain ⟨c, hc, rfl⟩ := mem_oneOf.1 ha
          obtain ⟨hlen, hall⟩ := ih.1 hb
          exact ⟨Nat.succ_le_succ hlen, List.forall_mem_cons.2 ⟨hc, hall⟩⟩
      · rintro ⟨hlen, hall⟩
        rcases s with _ | ⟨c, s⟩
        · exact .inl rfl
        · rw [List.forall_mem_cons] at hall
          exact .inr ⟨[c], s, mem_oneOf.2 ⟨c, hall.1, rfl⟩,
            ih.2 ⟨Nat.le_of_succ_le_succ hlen, hall.2⟩, rfl⟩

/-- Any number of texts after separators. -/
theorem mem_star_lit_mul : s ∈ (star (lit t * P)).matches' ↔
    ∃ ps : List (List α), (∀ p ∈ ps, p ∈ P.matches') ∧ s = ps.flatMap (t ++ ·) := by
  rw [matches'_star, Language.mem_kstar]
  constructor
  · rintro ⟨L, rfl, hL⟩
    induction L with
    | nil => exact ⟨[], fun _ hp => absurd hp List.not_mem_nil, rfl⟩
    | cons y L ih =>
        rw [List.forall_mem_cons] at hL
        obtain ⟨ps, hps, hflat⟩ := ih hL.2
        obtain ⟨a, p, ha, hp, rfl⟩ := mem_mul.1 hL.1
        obtain rfl := mem_lit.1 ha
        exact ⟨p :: ps, List.forall_mem_cons.2 ⟨hp, hps⟩, by rw [List.flatten_cons, hflat]; rfl⟩
  · rintro ⟨ps, hps, rfl⟩
    refine ⟨ps.map (t ++ ·), List.flatMap_def, fun y hy => ?_⟩
    obtain ⟨p, hp, rfl⟩ := List.mem_map.1 hy
    exact mem_mul.2 ⟨t, p, mem_lit.2 rfl, hps p hp, rfl⟩

/-- A fixed number of texts after separators. -/
theorem mem_pow_lit_mul : s ∈ ((lit t * P) ^ n).matches' ↔
    ∃ ps : List (List α), ps.length = n ∧ (∀ p ∈ ps, p ∈ P.matches') ∧ s = ps.flatMap (t ++ ·) := by
  rw [matches'_pow]
  induction n generalizing s with
  | zero =>
      rw [pow_zero, Language.mem_one]
      constructor
      · rintro rfl
        exact ⟨[], rfl, fun _ hp => absurd hp List.not_mem_nil, rfl⟩
      · rintro ⟨ps, hlen, -, rfl⟩
        rw [List.length_eq_zero_iff.1 hlen]
        rfl
  | succ n ih =>
      rw [pow_succ', Language.mem_mul]
      constructor
      · rintro ⟨y, hy, z, hz, rfl⟩
        obtain ⟨ps, rfl, hps, rfl⟩ := ih.1 hz
        obtain ⟨a, p, ha, hp, rfl⟩ := mem_mul.1 hy
        obtain rfl := mem_lit.1 ha
        exact ⟨p :: ps, rfl, List.forall_mem_cons.2 ⟨hp, hps⟩, rfl⟩
      · rintro ⟨ps, hlen, hps, rfl⟩
        obtain ⟨p, ps, rfl⟩ := List.exists_cons_of_length_eq_add_one hlen
        rw [List.forall_mem_cons] at hps
        exact ⟨t ++ p, mem_mul.2 ⟨t, p, mem_lit.2 rfl, hps.1, rfl⟩, _,
          ih.2 ⟨ps, Nat.succ.inj hlen, hps.2, rfl⟩, rfl⟩

end Patterns
