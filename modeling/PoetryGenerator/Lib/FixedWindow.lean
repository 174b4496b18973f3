/-
# Fixed windows

Time is cut into windows of length `W`: `index W t` is the number of the window
that `t` is in, `offset W t` the time since its start, and `wait W t` a whole
number of time units after which a later window has begun.

`trunc` is the truncation of a number towards zero, as `int` of most programming
languages does it.
-/

import Mathlib.Algebra.Order.Floor.Ring
import Mathlib.Tactic.FieldSimp
import Mathlib.Tactic.Linarith

namespace FixedWindow

variable {T : Type*} [Field T] [LinearOrder T] [IsStrictOrderedRing T] [FloorRing T]

/-- The integer part, towards zero. -/
def trunc (x : T) : ℤ := if 0 ≤ x then ⌊x⌋ else ⌈x⌉

/-- `t // W`. -/
def index (W t : T) : ℤ := ⌊t / W⌋

/-- `t % W`. -/
def offset (W t : T) : T := t - index W t * W

/-- The whole time units to wait at `t` for another window. -/
def wait (W t : T) : ℤ := trunc (W - offset W t) + 1

variable {W t t' : T}

omit [IsStrictOrderedRing T] in
theorem trunc_of_nonneg {x : T} (h : 0 ≤ x) : trunc x = ⌊x⌋ := if_pos h

theorem lt_trunc_add_one (x : T) : x < trunc x + 1 := by
  unfold trunc
  split_ifs with h
  · exact Int.lt_floor_add_one x
  · exact (Int.le_ceil x).trans_lt (lt_add_one _)

section
variable (hW : 0 < W)
include hW

theorem index_mul_le (t : T) : index W t * W ≤ t := by
  rw [← le_div_iff₀ hW]
  exact Int.floor_le _

theorem lt_index_succ_mul (t : T) : t < (index W t + 1) * W := by
  rw [← div_lt_iff₀ hW]
  exact Int.lt_floor_add_one _

theorem lt_index_iff {j : ℤ} : j < index W t ↔ (j + 1) * W ≤ t := by
  rw [index, Int.lt_iff_add_one_le, Int.le_floor, le_div_iff₀ hW]
  push_cast
  rfl

theorem index_mono (h : t ≤ t') : index W t ≤ index W t' :=
  Int.floor_le_floor (div_le_div_of_nonneg_right h hW.le)

theorem offset_lt (t : T) : offset W t < W := by
  have h := lt_index_succ_mul hW t
  rw [offset]
  linarith

/-- The wait is at least one time unit. -/
theorem one_le_wait (t : T) : 1 ≤ wait W t := by
  have h : 0 ≤ W - offset W t := (sub_pos.2 (offset_lt hW t)).le
  rw [wait, trunc_of_nonneg h]
  have := Int.floor_nonneg.2 h
  omega

/-- **After the wait another window has begun.** -/
theorem index_lt_index_add_wait (t : T) : index W t < index W (t + wait W t) := by
  rw [lt_index_iff hW]
  have h := lt_trunc_add_one (W - offset W t)
  rw [wait]
  push_cast
  rw [offset] at h ⊢
  linarith

end

end FixedWindow
