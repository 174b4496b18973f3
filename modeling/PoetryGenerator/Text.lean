/-
# Python strings

A Python `str` is a sequence of code points, here a list of characters.
`strip` and `rstrip` follow `str.strip()` and `str.rstrip(chars)`; white space
is what `str.isspace` accepts, and `int` reads the decimal digits of Unicode.

A list of characters leaves the lone surrogates out.  The texts of the environment, of
the messages of the model and of the log are taken to be UTF-8, which has none, and so are
those of the results about the client rules, the extraction of a reply, the prompts and
the log lines.  A request cannot bring one in: pydantic refuses it in a field with a bound
or a pattern, and all fields have one.  Only the escapes of a JSON text can make a lone
surrogate, so the strings of `Json`, and what `generate` returns, are `CodePoints`.
-/

import Mathlib.Data.List.DropRight
import PoetryGenerator.Lib.Numerals

namespace PoetryGenerator

/-- Python's `str`, without lone surrogates. -/
abbrev Str := List Char

/-- Python's `str` as it is: its code points. -/
abbrev CodePoints := List ℕ

namespace Str

/-- The code points of a text. -/
def points (s : Str) : CodePoints := s.map Char.toNat

/-- `str.isspace` of one character. -/
def isSpace (c : Char) : Bool :=
  let n := c.toNat
  n = 0x20 || (9 ≤ n && n ≤ 13) || (0x1c ≤ n && n ≤ 0x1f) || n = 0x85 || n = 0xa0 || n = 0x1680 ||
    (0x2000 ≤ n && n ≤ 0x200a) || n = 0x2028 || n = 0x2029 || n = 0x202f || n = 0x205f || n = 0x3000

/-- `s.strip()`. -/
def strip (s : Str) : Str := (s.dropWhile isSpace).rdropWhile isSpace

/-- `s.rstrip(c)` for one character. -/
def rstrip (s : Str) (c : Char) : Str := s.rdropWhile (· = c)

/-- `s.lower()`, for a comparison with an ASCII text: beside the ASCII capitals only the
Kelvin sign has one ASCII letter as its lower case. -/
def lower (s : Str) : Str := s.map fun c => if c.toNat = 0x212a then 'k' else c.toLower

/-- `s.find(c)` for one character; nothing is `-1`. -/
def find (s : Str) (c : Char) : Option ℕ := s.findIdx? (· = c)

/-- `s.rfind(c)` for one character. -/
def rfind (s : Str) (c : Char) : Option ℕ := (find s.reverse c).map (s.length - 1 - ·)

/-- A text splits in one way at the last occurrence of a character. -/
theorem append_cons_inj {c : Char} {p p' s s' : Str} (hs : c ∉ s) (hs' : c ∉ s')
    (h : p ++ c :: s = p' ++ c :: s') : p = p' ∧ s = s' := by
  rcases List.append_eq_append_iff.1 h with ⟨mid, hp, hm⟩ | ⟨mid, hp, hm⟩ <;>
    rcases mid with _ | ⟨d, mid⟩ <;> simp only [List.nil_append, List.cons_append,
      List.cons.injEq, true_and, List.append_nil] at hp hm
  · exact ⟨hp.symm, hm⟩
  · exact absurd (hm.2 ▸ List.mem_append_right _ (List.mem_cons_self ..)) hs
  · exact ⟨hp, hm.symm⟩
  · exact absurd (hm.2 ▸ List.mem_append_right _ (List.mem_cons_self ..)) hs'

/-- `find` splits a text at the first occurrence. -/
theorem find_eq_some_iff {s : Str} {c : Char} {i : ℕ} :
    s.find c = some i ↔ ∃ p q, s = p ++ c :: q ∧ c ∉ p ∧ p.length = i := by
  induction s generalizing i with
  | nil => simp [find]
  | cons d s ih =>
      rw [find, List.findIdx?_cons]
      by_cases hd : d = c
      · subst hd
        rw [if_pos (decide_eq_true rfl), Option.some.injEq]
        refine ⟨fun h => ⟨[], s, rfl, List.not_mem_nil, h⟩, ?_⟩
        rintro ⟨p, q, hs, hp, hi⟩
        cases p with
        | nil => exact hi
        | cons e p =>
            exact absurd (List.cons.inj hs).1.symm (fun h => hp (h ▸ List.mem_cons_self ..))
      · rw [if_neg (by simp [hd]), Option.map_eq_some_iff]
        constructor
        · rintro ⟨j, hj, rfl⟩
          obtain ⟨p, q, rfl, hp, rfl⟩ := ih.1 hj
          exact ⟨d :: p, q, rfl, List.not_mem_cons_of_ne_of_not_mem (Ne.symm hd) hp, rfl⟩
        · rintro ⟨p, q, hs, hp, rfl⟩
          cases p with
          | nil => exact absurd (List.cons.inj hs).1 hd
          | cons e p =>
              exact ⟨p.length, ih.2 ⟨p, q, (List.cons.inj hs).2, fun h => hp (List.mem_cons_of_mem _ h), rfl⟩, rfl⟩

/-- `rfind` splits a text at the last occurrence. -/
theorem rfind_eq_some_iff {s : Str} {c : Char} {i : ℕ} :
    s.rfind c = some i ↔ ∃ p q, s = p ++ c :: q ∧ c ∉ q ∧ p.length = i := by
  rw [rfind, Option.map_eq_some_iff]
  constructor
  · rintro ⟨j, hj, rfl⟩
    obtain ⟨q, p, hs, hq, rfl⟩ := find_eq_some_iff.1 hj
    have hs' : s = p.reverse ++ c :: q.reverse := by
      have h := congrArg List.reverse hs
      rwa [List.reverse_reverse, List.reverse_append, List.reverse_cons, List.append_assoc] at h
    refine ⟨p.reverse, q.reverse, hs', fun h => hq (List.mem_reverse.1 h), ?_⟩
    simp only [hs', List.length_append, List.length_reverse, List.length_cons]
    omega
  · rintro ⟨p, q, rfl, hq, rfl⟩
    refine ⟨q.length, find_eq_some_iff.2 ⟨q.reverse, p.reverse, ?_, fun h => hq (List.mem_reverse.1 h),
      List.length_reverse⟩, ?_⟩
    · rw [List.reverse_append, List.reverse_cons, List.append_assoc]
      rfl
    · simp only [List.length_append, List.length_cons]
      omega

/-! ### Trimming -/

theorem rdropWhile_append_of_pos {p : Char → Bool} {s w : Str} (h : ∀ c ∈ w, p c = true) :
    (s ++ w).rdropWhile p = s.rdropWhile p := by
  rw [List.rdropWhile, List.reverse_append, List.dropWhile_append_of_pos, List.rdropWhile]
  exact fun c hc => h c (List.mem_reverse.1 hc)

theorem rdropWhile_append_cons {p : Char → Bool} {s t : Str} {c : Char} (h : p c = false) :
    (s ++ c :: t).rdropWhile p = s ++ c :: t.rdropWhile p := by
  induction t using List.reverseRecOn with
  | nil => rw [List.rdropWhile_concat_neg _ _ _ (by rw [h]; exact Bool.false_ne_true), List.rdropWhile_nil]
  | append_singleton t d ih =>
      rw [← List.cons_append, ← List.append_assoc, List.rdropWhile_concat, List.rdropWhile_concat]
      split_ifs
      · exact ih
      · rw [List.append_assoc, List.cons_append]

/-- White space only. -/
def Blank (w : Str) : Prop := ∀ c ∈ w, isSpace c = true

instance (w : Str) : Decidable (Blank w) := decidable_of_iff (w.all isSpace = true) List.all_eq_true

variable {s t w : Str} {c : Char}

theorem strip_append_left (h : Blank w) (s : Str) : (w ++ s).strip = s.strip := by
  rw [strip, List.dropWhile_append_of_pos h, strip]

theorem strip_append_right (s : Str) (h : Blank w) : (s ++ w).strip = s.strip := by
  rw [strip, List.dropWhile_append]
  split_ifs with hs
  · rw [strip, List.dropWhile_eq_nil_iff.2 h, List.isEmpty_iff.1 hs]
  · rw [rdropWhile_append_of_pos h, strip]

/-- A text is what `strip` leaves of it, with white space around. -/
theorem exists_pad_strip (s : Str) : ∃ w w', Blank w ∧ Blank w' ∧ s = w ++ s.strip ++ w' := by
  refine ⟨s.takeWhile isSpace, (s.dropWhile isSpace).rtakeWhile isSpace,
    fun c hc => List.mem_takeWhile_imp hc, fun c hc => List.mem_rtakeWhile_imp hc, ?_⟩
  rw [strip, List.append_assoc, List.rdropWhile_append_rtakeWhile, List.takeWhile_append_dropWhile]

theorem strip_eq_nil_iff : s.strip = [] ↔ Blank s := by
  constructor
  · intro h
    obtain ⟨w, w', hw, hw', hs⟩ := exists_pad_strip s
    rw [h, List.append_nil] at hs
    rw [hs]
    exact fun c hc => (List.mem_append.1 hc).elim (hw c) (hw' c)
  · intro h
    rw [strip, List.dropWhile_eq_nil_iff.2 h, List.rdropWhile_nil]

theorem strip_strip (s : Str) : s.strip.strip = s.strip := by
  obtain ⟨w, w', hw, hw', hs⟩ := exists_pad_strip s
  have h : (w ++ s.strip ++ w').strip = s.strip.strip := by
    rw [strip_append_right _ hw', strip_append_left hw]
  rw [← h, ← hs]

/-- White space neither starts nor ends what `strip` leaves as it is. -/
theorem dropWhile_of_strip (h : s.strip = s) : s.dropWhile isSpace = s := by
  have hlen : s.length ≤ (s.dropWhile isSpace).length := by
    conv_lhs => rw [← h, strip]
    exact (List.rdropWhile_prefix isSpace _).length_le
  exact (List.dropWhile_suffix isSpace).eq_of_length_le hlen

theorem rdropWhile_of_strip (h : s.strip = s) : s.rdropWhile isSpace = s := by
  conv_rhs => rw [← h, strip, dropWhile_of_strip h]

/-- What is joined of two such texts is such a text. -/
theorem strip_join (hs : s.strip = s) (hs₀ : s ≠ []) (ht : t.strip = t) (ht₀ : t ≠ []) (w : Str) :
    (s ++ w ++ t).strip = s ++ w ++ t := by
  have hl : (s ++ w ++ t).dropWhile isSpace = s ++ w ++ t := by
    rw [List.append_assoc, List.dropWhile_append, dropWhile_of_strip hs, if_neg (by simpa using hs₀)]
  have ht' := rdropWhile_of_strip ht
  rw [List.rdropWhile_eq_self_iff] at ht'
  rw [strip, hl, List.rdropWhile_eq_self_iff]
  intro hne
  rw [List.getLast_append_of_ne_nil _ ht₀]
  exact ht' ht₀

theorem mem_of_mem_strip (h : c ∈ s.strip) : c ∈ s := by
  obtain ⟨w, w', -, -, hs⟩ := exists_pad_strip s
  rw [hs]
  exact List.mem_append_left _ (List.mem_append_right _ h)

/-- No piece of a text has the separator in it. -/
theorem notMem_of_mem_splitOn {s raw : Str} {c : Char} (h : raw ∈ s.splitOn c) : c ∉ raw := by
  induction s generalizing raw with
  | nil =>
      rw [List.splitOn_nil, List.mem_singleton] at h
      exact h ▸ List.not_mem_nil
  | cons d s ih =>
      obtain ⟨head, tail, hs⟩ := List.exists_cons_of_ne_nil (List.splitOn_ne_nil c s)
      rw [List.splitOn_cons_eq_if_modifyHead, hs] at h
      split_ifs at h with hd
      · rcases List.mem_cons.1 h with rfl | h
        · exact List.not_mem_nil
        · exact ih (hs ▸ h)
      · rcases List.mem_cons.1 h with rfl | h
        · rw [beq_iff_eq] at hd
          exact List.not_mem_cons_of_ne_of_not_mem (Ne.symm hd) (ih (hs ▸ List.mem_cons_self ..))
        · exact ih (hs ▸ List.mem_cons_of_mem _ h)

end Str

/-! ### `int` of a text -/

/-- The zeros of the decimal digits; the other nine follow each of them. -/
def decimalZeros : List ℕ :=
  [0x30, 0x660, 0x6f0, 0x7c0, 0x966, 0x9e6, 0xa66, 0xae6, 0xb66, 0xbe6, 0xc66, 0xce6, 0xd66, 0xde6,
    0xe50, 0xed0, 0xf20, 0x1040, 0x1090, 0x17e0, 0x1810, 0x1946, 0x19d0, 0x1a80, 0x1a90, 0x1b50,
    0x1bb0, 0x1c40, 0x1c50, 0xa620, 0xa8d0, 0xa900, 0xa9d0, 0xa9f0, 0xaa50, 0xabf0, 0xff10, 0x104a0,
    0x10d30, 0x10d40, 0x11066, 0x110f0, 0x11136, 0x111d0, 0x112f0, 0x11450, 0x114d0, 0x11650,
    0x116c0, 0x116d0, 0x116da, 0x11730, 0x118e0, 0x11950, 0x11bf0, 0x11c50, 0x11d50, 0x11da0,
    0x11f50, 0x16130, 0x16a60, 0x16ac0, 0x16b50, 0x16d70, 0x1ccf0, 0x1d7ce, 0x1d7d8, 0x1d7e2,
    0x1d7ec, 0x1d7f6, 0x1e140, 0x1e2f0, 0x1e4f0, 0x1e5f1, 0x1e950, 0x1fbf0]

/-- A character as `int` reads it: white space and decimal digits in ASCII. -/
def toAscii (c : Char) : Char :=
  if c.toNat < 127 then c
  else if Str.isSpace c then ' '
  else match decimalZeros.find? fun first => first ≤ c.toNat ∧ c.toNat < first + 10 with
    | some first => Char.ofNat ('0'.toNat + (c.toNat - first))
    | none => '?'

/-- Where the decimal digits are: in ASCII or past it, off the surrogates, and apart from the
white space. -/
theorem decimalZeros_apart : ∀ first ∈ decimalZeros, (first = 48 ∨ 0x660 ≤ first) ∧
    (first + 10 ≤ 0xd800 ∨ 0xdfff < first ∧ first + 10 ≤ 0x110000) ∧
    (first + 10 ≤ 0x85 ∨ 0xa0 < first) ∧ (first + 10 ≤ 0x1680 ∨ 0x1680 < first) ∧
    (first + 10 ≤ 0x2000 ∨ 0x205f < first) ∧ (first + 10 ≤ 0x3000 ∨ 0x3000 < first) := by
  decide +kernel

/-- No two of the zeros have a digit in common. -/
theorem decimalZeros_disjoint {f g : ℕ} (hf : f ∈ decimalZeros) (hg : g ∈ decimalZeros) :
    f = g ∨ f + 10 ≤ g ∨ g + 10 ≤ f := by
  have hchain : decimalZeros.IsChain fun f g => f + 10 ≤ g := by decide +kernel
  have htrans : Trans (fun f g : ℕ => f + 10 ≤ g) (fun f g => f + 10 ≤ g) fun f g => f + 10 ≤ g :=
    ⟨fun h h' => by omega⟩
  refine List.Pairwise.forall_of_forall_of_flip
    (R := fun f g => f = g ∨ f + 10 ≤ g ∨ g + 10 ≤ f) ?_ ?_ ?_ hf hg
  · exact fun _ _ => .inl rfl
  · exact hchain.pairwise.imp fun h => .inr (.inl h)
  · exact hchain.pairwise.imp fun h => .inr (.inr h)

/-- Of a decimal digit `int` reads the value. -/
theorem toAscii_of_decimal {c : Char} {first : ℕ} (h : first ∈ decimalZeros) (hl : first ≤ c.toNat)
    (hu : c.toNat < first + 10) : toAscii c = Char.ofNat (48 + (c.toNat - first)) := by
  obtain ⟨hz, -, hs⟩ := decimalZeros_apart first h
  rw [toAscii]
  by_cases hascii : c.toNat < 127
  · have h48 : 48 + (c.toNat - first) = c.toNat := by omega
    rw [if_pos hascii, h48, Char.ofNat_toNat]
  · have hnot : Str.isSpace c = false := by
      simp only [Str.isSpace, Bool.or_eq_false_iff, Bool.and_eq_false_iff, decide_eq_false_iff_not]
      omega
    rw [if_neg hascii, hnot, if_neg Bool.false_ne_true]
    cases hfind : decimalZeros.find? fun first => first ≤ c.toNat ∧ c.toNat < first + 10 with
    | none => exact absurd (decide_eq_true ⟨hl, hu⟩) (List.find?_eq_none.1 hfind first h)
    | some g =>
        have hg : g ≤ c.toNat ∧ c.toNat < g + 10 := by simpa using List.find?_some hfind
        have hmem := List.mem_of_find?_eq_some hfind
        obtain rfl : g = first := by
          have := decimalZeros_disjoint hmem h
          omega
        rfl

/-- `int(s)`; nothing is its `ValueError`, also for more than 4300 digits. -/
def intOfText (s : Str) : Option ℤ :=
  let ascii := if s.all (·.toNat < 128) then s else s.map toAscii
  if Numerals.maxDigits < ascii.countP Char.isDigit then none else Numerals.intOfStr ascii

/-- A hexadecimal digit. -/
def hexDigit (c : Char) : Option ℕ :=
  if c.isDigit then some (c.toNat - '0'.toNat)
  else if 'a' ≤ c ∧ c ≤ 'f' then some (c.toNat - 'a'.toNat + 10)
  else if 'A' ≤ c ∧ c ≤ 'F' then some (c.toNat - 'A'.toNat + 10)
  else none

end PoetryGenerator
