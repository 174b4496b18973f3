/-
# Sliding windows

A limiter of `n` hits in a window `W` for each key: a call on a key at time `t`
is admitted when fewer than `n` admitted calls on that key have a time `t'` with
`t - t' < W`.  Here this is a function of the calls alone (`admitted`), without
any state but the admitted calls themselves.

Times come with a subtraction that need not be exact.  Floating-point
subtraction rounds, and rounding is monotone, which is all that is used
(`Clock`).
-/

import Mathlib.Algebra.Order.Group.Defs
import Mathlib.Algebra.Order.Ring.Rat
import Mathlib.Data.Finset.Card

namespace SlidingWindow

/-- Time stamps and durations: a linear order with a monotone subtraction, and
the truncation to an integer. -/
class Clock (T : Type*) extends LinearOrder T, Sub T, Zero T where
  toInt : T → ℤ
  sub_self (t : T) : t - t = 0
  sub_mono {a b : T} (t : T) : a ≤ b → a - t ≤ b - t
  sub_anti {a b : T} (t : T) : a ≤ b → t - b ≤ t - a

/-- Exact time; the truncation is towards zero. -/
instance : Clock ℚ where
  toInt q := q.num.tdiv q.den
  sub_self := sub_self
  sub_mono t h := sub_le_sub_right h t
  sub_anti t h := sub_le_sub_left h t

/-- A time that no call is before, and that is not after `t` if no call is. -/
theorem exists_start {A T : Type*} [Preorder T] {f : A → T} {l : List A}
    (h : l.Pairwise fun a b => f a ≤ f b) (t : T) :
    ∃ t₀, (∀ a ∈ l, t₀ ≤ f a) ∧ ((∀ a ∈ l, f a ≤ t) → t₀ ≤ t) := by
  cases l with
  | nil => exact ⟨t, fun a ha => absurd ha List.not_mem_nil, fun _ => le_rfl⟩
  | cons a l =>
      refine ⟨f a, fun b hb => ?_, fun hle => hle a (List.mem_cons_self ..)⟩
      rcases List.mem_cons.1 hb with rfl | hb
      · exact le_rfl
      · exact (List.pairwise_cons.1 h).1 b hb

section Young
variable {T : Type*} [Clock T] {W t t' : T}

/-- The hits that are younger than the window. -/
def young (W t : T) (hits : List T) : List T := hits.filter (t - · < W)

theorem mem_young {x : T} {l : List T} : x ∈ young W t l ↔ x ∈ l ∧ t - x < W := by
  rw [young, List.mem_filter, decide_eq_true_eq]

/-- What is old stays old. -/
theorem young_young (h : t ≤ t') (l : List T) : young W t' (young W t l) = young W t' l := by
  rw [young, young, List.filter_filter]
  refine List.filter_congr fun x _ => ?_
  rw [Bool.and_eq_left_iff_imp, decide_eq_true_eq, decide_eq_true_eq]
  exact fun hx => (Clock.sub_mono x h).trans_lt hx

/-- A hit is young when it is made. -/
theorem young_append_self (hW : 0 < W) (l : List T) : young W t (l ++ [t]) = young W t l ++ [t] := by
  have ht : t - t < W := by rwa [Clock.sub_self]
  simp [young, ht]

/-- `x` lies in the half-open interval of length `W` that starts at `t`. -/
def Within (W t x : T) : Prop := t ≤ x ∧ x - t < W

instance (W t x : T) : Decidable (Within W t x) := inferInstanceAs (Decidable (_ ∧ _))

/-- Of two hits in one interval each is young when the other is made. -/
theorem Within.sub_lt {x y : T} (hx : Within W t x) (hy : Within W t y) : x - y < W :=
  (Clock.sub_anti x hy.1).trans_lt hx.2

end Young

section Times
variable {K T : Type*} [DecidableEq K] {k : K} {hits : List (K × T)} {c : K × T}

/-- The times of the calls on a key. -/
def timesOf (k : K) (calls : List (K × T)) : List T := (calls.filter (·.1 = k)).map Prod.snd

theorem mem_timesOf {t : T} : t ∈ timesOf k hits ↔ (k, t) ∈ hits := by
  simp [timesOf]

theorem timesOf_append_self : timesOf c.1 (hits ++ [c]) = timesOf c.1 hits ++ [c.2] := by
  simp [timesOf]

theorem timesOf_append_of_ne (h : k ≠ c.1) : timesOf k (hits ++ [c]) = timesOf k hits := by
  simp [timesOf, h.symm]

theorem timesOf_filter : timesOf k (hits.filter (·.1 = k)) = timesOf k hits := by
  simp [timesOf]

end Times

variable {K T : Type*} [DecidableEq K] [Clock T] (n : ℤ) (W : T)

/-- A call is admitted after the admitted calls `hits`. -/
def admits (hits : List (K × T)) (c : K × T) : Bool :=
  (young W c.2 (timesOf c.1 hits)).length < n

/-- The admitted ones among `calls`, after the admitted calls `hits`. -/
def admitted (hits : List (K × T)) : List (K × T) → List (K × T)
  | [] => []
  | c :: calls =>
    if admits n W hits c then c :: admitted (hits ++ [c]) calls else admitted hits calls

/-- The keys with a hit younger than the window. -/
def activeKeys (t : T) (hits : List (K × T)) : Finset K :=
  ((hits.filter fun c => t - c.2 < W).map Prod.fst).toFinset

variable {n W} {t : T} {k : K} {hits calls pre post : List (K × T)} {c : K × T}

theorem mem_activeKeys : k ∈ activeKeys W t hits ↔ ∃ x, (k, x) ∈ hits ∧ t - x < W := by
  simp [activeKeys]

/-- Hits on one key make one active key. -/
theorem card_activeKeys_le_one (h : ∀ x ∈ hits, x.1 = k) : (activeKeys W t hits).card ≤ 1 := by
  rw [← Finset.card_singleton k]
  refine Finset.card_le_card fun k' hk' => ?_
  obtain ⟨x, hx, -⟩ := mem_activeKeys.1 hk'
  exact Finset.mem_singleton.2 (h _ hx)

/-- The young hits of a key, counted among all hits. -/
theorem length_young_timesOf : (young W t (timesOf k hits)).length =
    (hits.filter fun c => c.1 = k ∧ t - c.2 < W).length := by
  rw [young, timesOf, List.filter_map, List.length_map, List.filter_filter]
  simp only [Function.comp_apply, Bool.decide_and, Bool.and_comm]

theorem admitted_sublist : (admitted n W hits calls).Sublist calls := by
  induction calls generalizing hits with
  | nil => exact List.Sublist.refl _
  | cons c calls ih =>
      rw [admitted]
      split_ifs
      · exact ih.cons_cons c
      · exact ih.cons c

/-- Admitting some calls, then others. -/
theorem admitted_append : admitted n W hits (pre ++ post) =
    admitted n W hits pre ++ admitted n W (hits ++ admitted n W hits pre) post := by
  induction pre generalizing hits with
  | nil => simp [admitted]
  | cons c pre ih =>
      rw [List.cons_append, admitted, admitted]
      split_ifs
      · rw [ih, List.cons_append, List.append_assoc, List.singleton_append]
      · exact ih

/-- **A key is on its own.**  Which calls on a key are admitted depends on the
calls on that key only. -/
theorem admitted_filter (k : K) (hits calls : List (K × T)) :
    (admitted n W hits calls).filter (·.1 = k) =
      admitted n W (hits.filter (·.1 = k)) (calls.filter (·.1 = k)) := by
  induction calls generalizing hits with
  | nil => rfl
  | cons c calls ih =>
      by_cases hk : c.1 = k
      · have ha : admits n W (hits.filter (·.1 = k)) c = admits n W hits c := by
          rw [admits, admits, hk, timesOf_filter]
        rw [List.filter_cons_of_pos (by simpa using hk), admitted, admitted, ha]
        split_ifs
        · rw [List.filter_cons_of_pos (by simpa using hk), ih, List.filter_append,
            List.filter_cons_of_pos (by simpa using hk), List.filter_nil]
        · exact ih hits
      · rw [List.filter_cons_of_neg (by simpa using hk), admitted]
        split_ifs
        · rw [List.filter_cons_of_neg (by simpa using hk), ih, List.filter_append,
            List.filter_cons_of_neg (by simpa using hk), List.filter_nil, List.append_nil]
        · exact ih hits

/-- **A denied call changes nothing.** -/
theorem admitted_denied (h : admits n W (hits ++ admitted n W hits pre) c = false) :
    admitted n W hits (pre ++ c :: post) = admitted n W hits (pre ++ post) := by
  rw [admitted_append, admitted_append, admitted, h, if_neg Bool.false_ne_true]

end SlidingWindow
