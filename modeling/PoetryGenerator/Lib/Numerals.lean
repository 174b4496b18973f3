/-
# `str(int)` and `int(bytes)`

Python's decimal numerals over ASCII text.  `str(z)` is a sign and the decimal
digits.  `int(text)` accepts white space on both sides, one sign, and digits
with single underscores between them (`intOfStr`); anything else is a `ValueError`,
here `none`, and so is a text with more than `maxDigits` digits, leading zeros
included, whatever its value.

A Redis list element is a byte string: `encodeInt` is what a client sends for
an integer, `decodeInt` is `int(raw)`.  `decodeInt_encodeInt` is the round trip.
-/

import Mathlib.Data.List.DropRight
import Mathlib.Tactic.Ring

namespace Numerals

/-- `Py_ISSPACE`: space, tab, line feed, vertical tab, form feed, return. -/
def isSpace (c : Char) : Bool := c.toNat = 32 || (9 ≤ c.toNat && c.toNat ≤ 13)

/-- `str(z)`. -/
def strOfInt (z : ℤ) : List Char :=
  if z < 0 then '-' :: Nat.toDigits 10 z.natAbs else Nat.toDigits 10 z.natAbs

/-- Groups of digits separated by single underscores. -/
def digits (s : List Char) : Option ℕ :=
  if (s.splitOn '_').all fun g => !g.isEmpty && g.all Char.isDigit then
    some (Nat.ofDigitChars 10 (s.filter (· ≠ '_')) 0)
  else none

/-- `int(s)` for ASCII text, but for the limit on its digits. -/
def intOfStr (s : List Char) : Option ℤ :=
  match (s.dropWhile isSpace).rdropWhile isSpace with
  | '-' :: ds => (digits ds).map fun n : ℕ => -(n : ℤ)
  | '+' :: ds => (digits ds).map fun n : ℕ => (n : ℤ)
  | ds => (digits ds).map fun n : ℕ => (n : ℤ)

/-- `str(z).encode()`. -/
def encodeInt (z : ℤ) : List UInt8 := (strOfInt z).map fun c => c.toNat.toUInt8

/-- `sys.int_info.default_max_str_digits`. -/
def maxDigits : ℕ := 4300

/-- `int(raw)`. -/
def decodeInt (raw : List UInt8) : Option ℤ :=
  let s := raw.map fun b => Char.ofNat b.toNat
  if maxDigits < s.countP Char.isDigit then none else intOfStr s

theorem isSpace_of_isDigit {c : Char} (h : c.isDigit = true) : isSpace c = false := by
  rw [Char.isDigit, Bool.and_eq_true, decide_eq_true_eq, decide_eq_true_eq] at h
  have h₁ : 48 ≤ c.toNat := h.1
  simp only [isSpace, Bool.or_eq_false_iff, Bool.and_eq_false_iff, decide_eq_false_iff_not]
  omega

theorem digits_toDigits (n : ℕ) : digits (Nat.toDigits 10 n) = some n := by
  have hf : (Nat.toDigits 10 n).filter (· ≠ '_') = Nat.toDigits 10 n :=
    List.filter_eq_self.2 fun c hc => by
      rw [decide_eq_true_eq]
      rintro rfl
      exact Nat.underscore_not_in_toDigits hc
  have hd : (Nat.toDigits 10 n).all Char.isDigit = true :=
    List.all_eq_true.2 fun c hc => Nat.isDigit_of_mem_toDigits (by decide) (by decide) hc
  rw [digits, List.splitOn_eq_singleton Nat.underscore_not_in_toDigits, hf,
    Nat.ofDigitChars_ten_toDigits]
  simp [hd, Nat.toDigits_ne_nil]

/-- No character of a numeral is white space, and all are ASCII. -/
theorem mem_strOfInt {z : ℤ} {c : Char} (h : c ∈ strOfInt z) :
    isSpace c = false ∧ c.toNat < 128 := by
  have hdigit : c ∈ Nat.toDigits 10 z.natAbs → isSpace c = false ∧ c.toNat < 128 := by
    intro hc
    have hd : c.isDigit = true := Nat.isDigit_of_mem_toDigits (by decide) (by decide) hc
    refine ⟨isSpace_of_isDigit hd, ?_⟩
    rw [Char.isDigit, Bool.and_eq_true, decide_eq_true_eq, decide_eq_true_eq] at hd
    have h₂ : c.toNat ≤ 57 := hd.2
    omega
  unfold strOfInt at h
  split_ifs at h
  · rcases List.mem_cons.1 h with rfl | h
    · decide
    · exact hdigit h
  · exact hdigit h

/-- Stripping white space leaves a numeral as it is. -/
theorem strip_strOfInt (z : ℤ) :
    ((strOfInt z).dropWhile isSpace).rdropWhile isSpace = strOfInt z := by
  have hl : (strOfInt z).dropWhile isSpace = strOfInt z := by
    rw [List.dropWhile_eq_self_iff]
    intro h
    rw [(mem_strOfInt (List.getElem_mem h)).1]
    exact Bool.false_ne_true
  rw [hl, List.rdropWhile_eq_self_iff]
  intro h
  rw [(mem_strOfInt (List.getLast_mem h)).1]
  exact Bool.false_ne_true

/-- `int(str(z)) = z`. -/
theorem intOfStr_strOfInt (z : ℤ) : intOfStr (strOfInt z) = some z := by
  rw [intOfStr, strip_strOfInt, strOfInt]
  split_ifs with hz
  · simp only [digits_toDigits, Option.map_some]
    congr 1
    omega
  · have hd := digits_toDigits z.natAbs
    obtain ⟨c, ds, hcs⟩ := List.exists_cons_of_ne_nil (Nat.toDigits_ne_nil (b := 10) (n := z.natAbs))
    have hc : c.isDigit = true :=
      Nat.isDigit_of_mem_toDigits (b := 10) (n := z.natAbs) (by decide) (by decide)
        (hcs ▸ List.mem_cons_self ..)
    rw [hcs] at hd ⊢
    split
    · rename_i heq
      rw [(List.cons.inj heq).1] at hc
      exact absurd hc (by decide)
    · rename_i heq
      rw [(List.cons.inj heq).1] at hc
      exact absurd hc (by decide)
    · rw [hd, Option.map_some]
      congr 1
      omega

theorem strOfInt_injective : Function.Injective strOfInt := fun a b h =>
  Option.some.inj ((intOfStr_strOfInt a).symm.trans ((congrArg intOfStr h).trans
    (intOfStr_strOfInt b)))

/-- A numeral holds digits and a sign. -/
theorem notMem_strOfInt {c : Char} (hc : c ≠ '-') (hd : c.isDigit = false) (z : ℤ) :
    c ∉ strOfInt z := by
  have hdigit : c ∉ Nat.toDigits 10 z.natAbs := fun h => by
    rw [Nat.isDigit_of_mem_toDigits (by decide) (by decide) h] at hd
    cases hd
  unfold strOfInt
  split_ifs
  · exact fun h => (List.mem_cons.1 h).elim hc hdigit
  · exact hdigit

/-- The digits of a numeral. -/
theorem countP_strOfInt (z : ℤ) : (strOfInt z).countP Char.isDigit = (Nat.toDigits 10 z.natAbs).length := by
  have hall : ∀ c ∈ Nat.toDigits 10 z.natAbs, Char.isDigit c = true := fun c hc =>
    Nat.isDigit_of_mem_toDigits (by decide) (by decide) hc
  rw [strOfInt]
  split_ifs
  · exact (List.countP_cons_of_neg (by decide)).trans (List.countP_eq_length.2 hall)
  · exact List.countP_eq_length.2 hall

/-- The bytes of a numeral are its characters. -/
theorem map_encodeInt (z : ℤ) : (encodeInt z).map (fun b => Char.ofNat b.toNat) = strOfInt z := by
  rw [encodeInt, List.map_map]
  conv_rhs => rw [← List.map_id (strOfInt z)]
  refine List.map_congr_left fun c hc => ?_
  have h₁ := (mem_strOfInt hc).2
  have h₂ : c.toNat.toUInt8.toNat = c.toNat := by
    rw [Nat.toUInt8_eq, UInt8.toNat_ofNat']
    omega
  rw [Function.comp_apply, h₂, Char.ofNat_toNat, id]

/-- **`int(str(z).encode()) = z`**, for a number that is not too long. -/
theorem decodeInt_encodeInt {z : ℤ} (h : z.natAbs < 10 ^ maxDigits) : decodeInt (encodeInt z) = some z := by
  have hlen : (Nat.toDigits 10 z.natAbs).length ≤ maxDigits :=
    (Nat.length_toDigits_le_iff (by decide) (by decide)).2 h
  rw [decodeInt, map_encodeInt, if_neg (by rw [countP_strOfInt]; exact not_lt.2 hlen), intOfStr_strOfInt]

/-- What is read of a numeral is its number. -/
theorem eq_of_decodeInt_encodeInt {z z' : ℤ} (h : decodeInt (encodeInt z) = some z') : z' = z := by
  simp only [decodeInt, map_encodeInt, intOfStr_strOfInt] at h
  split_ifs at h
  exact (Option.some.inj h).symm

theorem encodeInt_injective : Function.Injective encodeInt := fun a b h =>
  strOfInt_injective ((map_encodeInt a).symm.trans ((congrArg _ h).trans (map_encodeInt b)))

/-- White space, a sign and a digit separator are read; a word is not. -/
example : decodeInt [32, 43, 49, 95, 48, 10] = some 10 ∧ decodeInt [120] = none := by decide

end Numerals
