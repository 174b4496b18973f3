/-
# The default CORS pattern (`api/app/main.py`)

`_PRIVATE_ORIGIN_RE`, operator by operator.  Starlette takes an origin when the pattern
matches all of it (`fullmatch`), so `^` and `$` add nothing.  `\d` is a decimal digit of
Unicode.

An origin is a scheme, a host and a port.  The pattern is a product of three, and which
hosts it has is `mem_privateHost`.  That the host of an accepted origin is one of them
takes that an origin splits in one way (`split_unique`): a host does not end in a port.
-/

import PoetryGenerator.Lib.Patterns
import PoetryGenerator.Text

namespace PoetryGenerator
namespace Cors

open Patterns RegularExpression

/-! ### The pattern -/

/-- Some characters that follow each other. -/
def charsFrom (first n : ℕ) : List Char := (List.range n).map fun i => Char.ofNat (first + i)

/-- `[A-Za-z0-9]`. -/
def alnumChars : List Char := charsFrom 65 26 ++ charsFrom 97 26 ++ charsFrom 48 10

/-- `[A-Za-z0-9-]`. -/
def labelChars : List Char := alnumChars ++ ['-']

/-- `\d`. -/
def digitChars : List Char := decimalZeros.flatMap fun first => charsFrom first 10

/-- `(\.\d{1,3}){n}`. -/
def dotNumbers (n : ℕ) : RegularExpression Char :=
  (lit ".".toList * (oneOf digitChars * upTo (oneOf digitChars) 2)) ^ n

/-- `1[6-9]|2\d|3[01]`. -/
def teens : RegularExpression Char :=
  lit "1".toList * oneOf (charsFrom 54 4) + lit "2".toList * oneOf digitChars +
    lit "3".toList * oneOf (charsFrom 48 2)

/-- `_PRIVATE_SUFFIXES`. -/
def privateSuffixes : RegularExpression Char :=
  lit "local".toList + lit "internal".toList + lit "lan".toList + lit "home.arpa".toList +
    lit "localdomain".toList

/-- The hosts of `_PRIVATE_ORIGIN_RE`. -/
def privateHost : RegularExpression Char :=
  lit "127.0.0.1".toList + lit "[::1]".toList +
    lit "10".toList * dotNumbers 3 +
    lit "192.168".toList * dotNumbers 2 +
    lit "172.".toList * teens * dotNumbers 2 +
    oneOf alnumChars * opt (star (oneOf labelChars) * oneOf alnumChars) +
    many1 (oneOf labelChars) * star (lit ".".toList * many1 (oneOf labelChars)) *
      (lit ".".toList * privateSuffixes)

/-- `_PRIVATE_ORIGIN_RE`. -/
def privateOriginRe : RegularExpression Char :=
  lit "http".toList * opt (lit "s".toList) * lit "://".toList * privateHost *
    opt (lit ":".toList * many1 (oneOf digitChars))

/-- `re.compile(_PRIVATE_ORIGIN_RE).fullmatch`. -/
def fullmatch (origin : Str) : Bool := privateOriginRe.rmatch origin

/-! ### Characters -/

/-- `c.isdecimal()`. -/
def isDecimal (c : Char) : Bool := decimalZeros.any fun first => first ≤ c.toNat && c.toNat < first + 10

/-- A letter or a digit of ASCII, or a hyphen. -/
def isLabelChar (c : Char) : Bool := c.isAlphanum || c = '-'

variable {c : Char} {first n : ℕ}

theorem toNat_ofNat (h : n.isValidChar) : (Char.ofNat n).toNat = n := by
  rw [Char.ofNat, dif_pos h]
  rfl

theorem mem_charsFrom (h : first + n ≤ 0xd800 ∨ 0xdfff < first ∧ first + n ≤ 0x110000) :
    c ∈ charsFrom first n ↔ first ≤ c.toNat ∧ c.toNat < first + n := by
  rw [charsFrom, List.mem_map]
  constructor
  · rintro ⟨i, hi, rfl⟩
    rw [List.mem_range] at hi
    have hvalid : Nat.isValidChar (first + i) := by
      unfold Nat.isValidChar
      omega
    rw [toNat_ofNat hvalid]
    omega
  · rintro ⟨hl, hu⟩
    refine ⟨c.toNat - first, List.mem_range.2 (by omega), ?_⟩
    rw [Nat.add_sub_cancel' hl, Char.ofNat_toNat]

theorem mem_digitChars : c ∈ digitChars ↔ isDecimal c = true := by
  rw [digitChars, List.mem_flatMap, isDecimal, List.any_eq_true]
  refine exists_congr fun first => and_congr_right fun h => ?_
  rw [mem_charsFrom (decimalZeros_apart first h).2.1, Bool.and_eq_true, decide_eq_true_eq,
    decide_eq_true_eq]

/-- The decimal digits before U+0660 are those of ASCII. -/
theorem isDecimal_of_lt (h : c.toNat < 0x660) : isDecimal c = c.isDigit := by
  rw [Bool.eq_iff_iff, isDecimal, List.any_eq_true, Char.isDigit, Bool.and_eq_true,
    decide_eq_true_eq, decide_eq_true_eq]
  constructor
  · rintro ⟨first, hfirst, hin⟩
    rw [Bool.and_eq_true, decide_eq_true_eq, decide_eq_true_eq] at hin
    obtain rfl : first = 48 := by
      have := (decimalZeros_apart first hfirst).1
      omega
    exact ⟨hin.1, Nat.le_of_lt_succ hin.2⟩
  · rintro ⟨hl, hu⟩
    refine ⟨48, by decide, ?_⟩
    rw [Bool.and_eq_true, decide_eq_true_eq, decide_eq_true_eq]
    exact ⟨hl, Nat.lt_succ_of_le hu⟩

theorem isDecimal_of_isDigit (h : c.isDigit = true) : isDecimal c = true := by
  have hlt : c.toNat < 0x660 := by
    rw [Char.isDigit, Bool.and_eq_true, decide_eq_true_eq, decide_eq_true_eq] at h
    exact (Nat.lt_succ_of_le h.2).trans (by decide)
  rw [isDecimal_of_lt hlt, h]

theorem mem_alnumChars : c ∈ alnumChars ↔ c.isAlphanum = true := by
  have hdef : c.isAlphanum = ((decide (c.val ≥ 'A'.val ∧ c.val ≤ 'Z'.val) ||
      (decide (c.val ≥ 'a'.val) && decide (c.val ≤ 'z'.val))) ||
      (decide (c.val ≥ '0'.val) && decide (c.val ≤ '9'.val))) := rfl
  rw [alnumChars, List.mem_append, List.mem_append, mem_charsFrom (.inl (by decide)),
    mem_charsFrom (.inl (by decide)), mem_charsFrom (.inl (by decide)), hdef]
  simp only [Bool.or_eq_true, Bool.and_eq_true, decide_eq_true_eq]
  exact or_congr (or_congr (and_congr Iff.rfl Nat.lt_succ_iff) (and_congr Iff.rfl Nat.lt_succ_iff))
    (and_congr Iff.rfl Nat.lt_succ_iff)

theorem mem_labelChars : c ∈ labelChars ↔ isLabelChar c = true := by
  rw [labelChars, List.mem_append, mem_alnumChars, List.mem_singleton, isLabelChar,
    Bool.or_eq_true, decide_eq_true_eq]

/-! ### Hosts -/

/-- Decimal digits, at least one. -/
def Decimal (s : Str) : Prop := s ≠ [] ∧ ∀ c ∈ s, isDecimal c = true

instance (s : Str) : Decidable (Decimal s) :=
  decidable_of_iff (s ≠ [] ∧ s.all isDecimal = true) (and_congr_right fun _ => List.all_eq_true)

theorem decimal_of_isDigit {s : Str} (hne : s ≠ []) (h : s.all Char.isDigit = true) : Decimal s :=
  ⟨hne, fun c hc => isDecimal_of_isDigit (List.all_eq_true.1 h c hc)⟩

/-- Labels with dots between them. -/
def joinDots (labels : List Str) : Str := ".".toList.intercalate labels

/-- A label of letters, digits and hyphens. -/
def Label (s : Str) : Prop := s ≠ [] ∧ ∀ c ∈ s, isLabelChar c = true

/-- A name of one label: it neither starts nor ends in a hyphen. -/
def HostName (s : Str) : Prop := Label s ∧ s.head? ≠ some '-' ∧ s.getLast? ≠ some '-'

/-- The labels of the private suffixes. -/
def suffixLabels : List (List Str) :=
  [["local".toList], ["internal".toList], ["lan".toList], ["home".toList, "arpa".toList],
    ["localdomain".toList]]

/-- Labels under a private suffix. -/
def UnderSuffix (host : Str) : Prop := ∃ labels : List Str, labels ≠ [] ∧ (∀ l ∈ labels, Label l) ∧
  ∃ suffix ∈ suffixLabels, host = joinDots (labels ++ suffix)

/-- Four numbers of three digits at most that start as a private address does. -/
def PrivateQuad (host : Str) : Prop := ∃ a b c d : Str, host = joinDots [a, b, c, d] ∧
  (∀ p ∈ [a, b, c, d], Decimal p ∧ p.length ≤ 3) ∧
  (a = "10".toList ∨ a = "192".toList ∧ b = "168".toList ∨ a = "172".toList ∧ b ∈ teens.matches')

variable {s host : Str}

theorem joinDots_cons (a : Str) (ps : List Str) : joinDots (a :: ps) = a ++ ps.flatMap (".".toList ++ ·) := by
  rw [joinDots]
  induction ps generalizing a with
  | nil => rw [List.intercalate_singleton, List.flatMap_nil, List.append_nil]
  | cons p ps ih => rw [List.intercalate_cons_cons, ih, List.flatMap_cons, List.append_assoc, List.append_assoc]

theorem joinDots_append (l : Str) (ls : List Str) {suffix : List Str} (h : suffix ≠ []) :
    joinDots (l :: ls ++ suffix) =
      (l ++ ls.flatMap (".".toList ++ ·)) ++ (".".toList ++ joinDots suffix) := by
  obtain ⟨t, ts, rfl⟩ := List.exists_cons_of_ne_nil h
  rw [List.cons_append, joinDots_cons, List.flatMap_append, List.flatMap_cons, joinDots_cons]
  simp only [List.append_assoc]

theorem mem_number : s ∈ (oneOf digitChars * upTo (oneOf digitChars) 2).matches' ↔
    Decimal s ∧ s.length ≤ 3 := by
  rw [mem_mul]
  constructor
  · rintro ⟨a, b, ha, hb, rfl⟩
    obtain ⟨c, hc, rfl⟩ := mem_oneOf.1 ha
    obtain ⟨hlen, hall⟩ := mem_upTo_oneOf.1 hb
    refine ⟨⟨List.cons_ne_nil _ _, List.forall_mem_cons.2 ⟨mem_digitChars.1 hc, ?_⟩⟩,
      Nat.succ_le_succ hlen⟩
    exact fun d hd => mem_digitChars.1 (hall d hd)
  · rintro ⟨⟨hne, hall⟩, hlen⟩
    obtain ⟨c, s, rfl⟩ := List.exists_cons_of_ne_nil hne
    rw [List.forall_mem_cons] at hall
    refine ⟨[c], s, mem_oneOf.2 ⟨c, mem_digitChars.2 hall.1, rfl⟩, mem_upTo_oneOf.2 ⟨?_, ?_⟩, rfl⟩
    · exact Nat.le_of_succ_le_succ hlen
    · exact fun d hd => mem_digitChars.2 (hall.2 d hd)

theorem mem_dotNumbers : s ∈ (dotNumbers n).matches' ↔ ∃ ps : List Str, ps.length = n ∧
    (∀ p ∈ ps, Decimal p ∧ p.length ≤ 3) ∧ s = ps.flatMap (".".toList ++ ·) := by
  rw [dotNumbers, mem_pow_lit_mul]
  simp only [mem_number]

theorem mem_label : s ∈ (many1 (oneOf labelChars)).matches' ↔ Label s := by
  simp only [mem_many1_oneOf, mem_labelChars, Label]

/-- The names of one label. -/
theorem mem_hostName :
    s ∈ (oneOf alnumChars * opt (star (oneOf labelChars) * oneOf alnumChars)).matches' ↔
      HostName s := by
  have hlabel : ∀ {c : Char}, c ∈ alnumChars ↔ isLabelChar c = true ∧ c ≠ '-' := by
    intro c
    rw [mem_alnumChars, isLabelChar, Bool.or_eq_true, decide_eq_true_eq]
    constructor
    · intro h
      refine ⟨.inl h, fun he => ?_⟩
      rw [he] at h
      exact absurd h (by decide)
    · rintro ⟨h | h, hne⟩
      · exact h
      · exact absurd h hne
  rw [mem_mul]
  simp only [mem_oneOf, mem_opt, mem_mul, mem_star_oneOf, mem_labelChars, HostName, Label]
  constructor
  · rintro ⟨a, b, ⟨c, hc, rfl⟩, rfl | ⟨mid, e, hmid, ⟨d, hd, rfl⟩, rfl⟩, rfl⟩
    · rw [hlabel] at hc
      simp [hc]
    · rw [hlabel] at hc hd
      simp only [List.singleton_append, List.head?_cons, Option.some.injEq, ne_eq, reduceCtorEq,
        not_false_eq_true, true_and, List.forall_mem_cons, List.forall_mem_append]
      refine ⟨⟨hc.1, hmid, hd.1, fun _ h => absurd h List.not_mem_nil⟩, hc.2, ?_⟩
      rw [← List.cons_append, List.getLast?_concat]
      exact fun h => hd.2 (Option.some.inj h)
  · rintro ⟨⟨hne, hall⟩, hhead, hlast⟩
    obtain ⟨c, s, rfl⟩ := List.exists_cons_of_ne_nil hne
    rw [List.forall_mem_cons] at hall
    have hc : c ∈ alnumChars := hlabel.2 ⟨hall.1, fun h => hhead (by rw [h]; rfl)⟩
    refine ⟨[c], s, ⟨c, hc, rfl⟩, ?_, rfl⟩
    rcases s.eq_nil_or_concat with rfl | ⟨mid, d, rfl⟩
    · exact .inl rfl
    · rw [List.concat_eq_append] at hall hlast ⊢
      rw [List.forall_mem_append, List.forall_mem_singleton] at hall
      rw [← List.cons_append, List.getLast?_concat] at hlast
      exact .inr ⟨mid, [d], hall.2.1, ⟨d, hlabel.2 ⟨hall.2.2, fun h => hlast (h ▸ rfl)⟩, rfl⟩, rfl⟩

theorem mem_privateSuffixes :
    s ∈ privateSuffixes.matches' ↔ ∃ suffix ∈ suffixLabels, s = joinDots suffix := by
  simp only [privateSuffixes, mem_add, mem_lit, suffixLabels, List.exists_mem_cons_iff,
    List.not_mem_nil, false_and, exists_false, or_false, or_assoc]
  rfl

/-- The names under a private suffix. -/
theorem mem_underSuffix :
    s ∈ (many1 (oneOf labelChars) * star (lit ".".toList * many1 (oneOf labelChars)) *
      (lit ".".toList * privateSuffixes)).matches' ↔ UnderSuffix s := by
  have hsuffix : ∀ suffix ∈ suffixLabels, suffix ≠ [] := by decide
  rw [mem_mul]
  constructor
  · rintro ⟨front, back, hfront, hback, rfl⟩
    obtain ⟨l, rest, hl, hrest, rfl⟩ := mem_mul.1 hfront
    obtain ⟨ls, hls, rfl⟩ := mem_star_lit_mul.1 hrest
    obtain ⟨dot, t, hdot, ht, rfl⟩ := mem_mul.1 hback
    obtain rfl := mem_lit.1 hdot
    obtain ⟨suffix, hmem, rfl⟩ := mem_privateSuffixes.1 ht
    refine ⟨l :: ls, List.cons_ne_nil _ _, List.forall_mem_cons.2 ⟨mem_label.1 hl, ?_⟩, suffix, hmem,
      (joinDots_append l ls (hsuffix suffix hmem)).symm⟩
    exact fun p hp => mem_label.1 (hls p hp)
  · rintro ⟨labels, hne, hlabels, suffix, hmem, rfl⟩
    obtain ⟨l, ls, rfl⟩ := List.exists_cons_of_ne_nil hne
    rw [List.forall_mem_cons] at hlabels
    refine ⟨_, _, mem_mul.2 ⟨l, _, mem_label.2 hlabels.1, mem_star_lit_mul.2 ⟨ls, ?_, rfl⟩, rfl⟩,
      mem_mul.2 ⟨_, _, mem_lit.2 rfl, mem_privateSuffixes.2 ⟨suffix, hmem, rfl⟩, rfl⟩,
      joinDots_append l ls (hsuffix suffix hmem)⟩
    exact fun p hp => mem_label.2 (hlabels.2 p hp)

/-- Two decimal digits. -/
theorem mem_teens (h : s ∈ teens.matches') :
    ∃ d e, s = [d, e] ∧ d ∈ "123".toList ∧ isDecimal e = true := by
  have hascii : ∀ first n, first + n ≤ 58 → 48 ≤ first → ∀ e ∈ charsFrom first n,
      isDecimal e = true := by
    intro first n hu hl e he
    rw [mem_charsFrom (.inl (by omega))] at he
    refine isDecimal_of_isDigit ?_
    rw [Char.isDigit, Bool.and_eq_true, decide_eq_true_eq, decide_eq_true_eq]
    exact ⟨hl.trans he.1, Nat.le_of_lt_succ (he.2.trans_le hu)⟩
  simp only [teens, mem_add, mem_mul, mem_lit, mem_oneOf] at h
  rcases h with (⟨_, _, rfl, ⟨e, he, rfl⟩, rfl⟩ | ⟨_, _, rfl, ⟨e, he, rfl⟩, rfl⟩) |
    ⟨_, _, rfl, ⟨e, he, rfl⟩, rfl⟩
  · exact ⟨'1', e, rfl, by decide, hascii 54 4 (by decide) (by decide) e he⟩
  · exact ⟨'2', e, rfl, by decide, mem_digitChars.1 he⟩
  · exact ⟨'3', e, rfl, by decide, hascii 48 2 (by decide) (by decide) e he⟩

theorem number_of_mem_teens (h : s ∈ teens.matches') : Decimal s ∧ s.length ≤ 3 := by
  obtain ⟨d, e, rfl, hd, he⟩ := mem_teens h
  have hdigits : ∀ d ∈ "123".toList, d.isDigit = true := List.all_eq_true.1 (by decide)
  refine ⟨⟨List.cons_ne_nil _ _, ?_⟩, Nat.le_succ 2⟩
  exact List.forall_mem_cons.2 ⟨isDecimal_of_isDigit (hdigits d hd), List.forall_mem_singleton.2 he⟩

theorem intOfText_pair {d e : Char} {first : ℕ} (hd : d ∈ "123".toList) (h : first ∈ decimalZeros)
    (hl : first ≤ e.toNat) (hu : e.toNat < first + 10) :
    intOfText [d, e] = some (10 * (d.toNat - 48 : ℕ) + (e.toNat - first : ℕ)) := by
  have hread : ∀ d ∈ "123".toList, ∀ i ∈ List.range 10, d.toNat < 127 ∧
      (if 4300 < [d, Char.ofNat (48 + i)].countP Char.isDigit then none
        else Numerals.intOfStr [d, Char.ofNat (48 + i)]) =
        some (10 * (d.toNat - 48 : ℕ) + i : ℤ) := by
    intro d hd
    have hcases : d = '1' ∨ d = '2' ∨ d = '3' := by simpa using hd
    rcases hcases with rfl | rfl | rfl <;> decide +kernel
  obtain ⟨hd₁, hnum⟩ := hread d hd (e.toNat - first) (List.mem_range.2 (by omega))
  have he := toAscii_of_decimal h hl hu
  have hd₂ : toAscii d = d := by rw [toAscii, if_pos hd₁]
  have hascii : (if [d, e].all (·.toNat < 128) then [d, e] else [d, e].map toAscii) =
      [d, Char.ofNat (48 + (e.toNat - first))] := by
    split_ifs with hall
    · have hlt : e.toNat < 127 := by
        have h₁ := (decimalZeros_apart first h).1
        have h₂ := of_decide_eq_true (List.all_eq_true.1 hall e (by simp))
        omega
      rw [← he, toAscii, if_pos hlt]
    · rw [List.map_cons, List.map_cons, List.map_nil, hd₂, he]
  rw [intOfText, hascii]
  exact hnum

/-- **The numbers of `teens`** are those from 16 to 31. -/
theorem intOfText_teens {s : Str} (h : s ∈ teens.matches') :
    ∃ n, intOfText s = some n ∧ 16 ≤ n ∧ n ≤ 31 := by
  have hzero : 48 ∈ decimalZeros := by decide
  simp only [teens, mem_add, mem_mul, mem_lit, mem_oneOf] at h
  rcases h with (⟨_, _, rfl, ⟨e, he, rfl⟩, rfl⟩ | ⟨_, _, rfl, ⟨e, he, rfl⟩, rfl⟩) |
    ⟨_, _, rfl, ⟨e, he, rfl⟩, rfl⟩
  · rw [mem_charsFrom (.inl (by decide))] at he
    refine ⟨_, intOfText_pair (d := '1') (by decide) hzero (by omega) (by omega), ?_⟩
    have hd : '1'.toNat = 49 := rfl
    omega
  · obtain ⟨first, hfirst, hin⟩ := List.any_eq_true.1 (mem_digitChars.1 he)
    rw [Bool.and_eq_true, decide_eq_true_eq, decide_eq_true_eq] at hin
    refine ⟨_, intOfText_pair (d := '2') (by decide) hfirst hin.1 hin.2, ?_⟩
    have hd : '2'.toNat = 50 := rfl
    omega
  · rw [mem_charsFrom (.inl (by decide))] at he
    refine ⟨_, intOfText_pair (d := '3') (by decide) hzero (by omega) (by omega), ?_⟩
    have hd : '3'.toNat = 51 := rfl
    omega

/-- The four numbers of a private address. -/
theorem mem_privateQuad : PrivateQuad s ↔
    s ∈ (lit "10".toList * dotNumbers 3).matches' ∨
      s ∈ (lit "192.168".toList * dotNumbers 2).matches' ∨
      s ∈ (lit "172.".toList * teens * dotNumbers 2).matches' := by
  have hten : Decimal "10".toList ∧ "10".toList.length ≤ 3 :=
    ⟨decimal_of_isDigit (by decide) (by decide), by decide⟩
  have hpre : Decimal "192".toList ∧ "192".toList.length ≤ 3 :=
    ⟨decimal_of_isDigit (by decide) (by decide), by decide⟩
  have hpre' : Decimal "168".toList ∧ "168".toList.length ≤ 3 :=
    ⟨decimal_of_isDigit (by decide) (by decide), by decide⟩
  have hclass : Decimal "172".toList ∧ "172".toList.length ≤ 3 :=
    ⟨decimal_of_isDigit (by decide) (by decide), by decide⟩
  have hjoin : ∀ b c d : Str, joinDots ["172".toList, b, c, d] =
      ("172.".toList ++ b) ++ [c, d].flatMap (".".toList ++ ·) := fun b c d => by
    rw [joinDots_cons, List.flatMap_cons, ← List.append_assoc, ← List.append_assoc]
    rfl
  have hjoin' : ∀ c d : Str, joinDots ["192".toList, "168".toList, c, d] =
      "192.168".toList ++ [c, d].flatMap (".".toList ++ ·) := fun c d => by
    rw [joinDots_cons, List.flatMap_cons, ← List.append_assoc]
    rfl
  simp only [mem_mul, mem_lit, mem_dotNumbers]
  constructor
  · rintro ⟨a, b, c, d, rfl, hall, hstart⟩
    simp only [List.forall_mem_cons] at hall
    obtain ⟨-, hb, hc, hd, hnil⟩ := hall
    rcases hstart with rfl | ⟨rfl, rfl⟩ | ⟨rfl, hteens⟩
    · refine .inl ⟨_, _, rfl, ⟨[b, c, d], rfl, ?_, rfl⟩, joinDots_cons _ _⟩
      simp only [List.forall_mem_cons]
      exact ⟨hb, hc, hd, hnil⟩
    · refine .inr (.inl ⟨_, _, rfl, ⟨[c, d], rfl, ?_, rfl⟩, hjoin' c d⟩)
      simp only [List.forall_mem_cons]
      exact ⟨hc, hd, hnil⟩
    · refine .inr (.inr ⟨_, _, ⟨_, b, rfl, hteens, rfl⟩, ⟨[c, d], rfl, ?_, rfl⟩, hjoin b c d⟩)
      simp only [List.forall_mem_cons]
      exact ⟨hc, hd, hnil⟩
  · rintro (⟨_, _, rfl, ⟨ps, hlen, hps, rfl⟩, rfl⟩ | ⟨_, _, rfl, ⟨ps, hlen, hps, rfl⟩, rfl⟩ |
      ⟨_, _, ⟨_, b, rfl, hb, rfl⟩, ⟨ps, hlen, hps, rfl⟩, rfl⟩)
    · obtain ⟨b, c, d, rfl⟩ := List.length_eq_three.1 hlen
      refine ⟨_, b, c, d, (joinDots_cons _ _).symm, ?_, .inl rfl⟩
      exact List.forall_mem_cons.2 ⟨hten, hps⟩
    · obtain ⟨c, d, rfl⟩ := List.length_eq_two.1 hlen
      refine ⟨_, _, c, d, (hjoin' c d).symm, ?_, .inr (.inl ⟨rfl, rfl⟩)⟩
      exact List.forall_mem_cons.2 ⟨hpre, List.forall_mem_cons.2 ⟨hpre', hps⟩⟩
    · obtain ⟨c, d, rfl⟩ := List.length_eq_two.1 hlen
      refine ⟨_, b, c, d, (hjoin b c d).symm, ?_, .inr (.inr ⟨rfl, hb⟩)⟩
      exact List.forall_mem_cons.2 ⟨hclass, List.forall_mem_cons.2 ⟨number_of_mem_teens hb, hps⟩⟩

/-- **The hosts of the pattern.** -/
theorem mem_privateHost : s ∈ privateHost.matches' ↔ s = "127.0.0.1".toList ∨ s = "[::1]".toList ∨
    PrivateQuad s ∨ HostName s ∨ UnderSuffix s := by
  rw [privateHost, mem_add, mem_add, mem_add, mem_add, mem_add, mem_add, mem_lit, mem_lit,
    mem_hostName, mem_underSuffix, mem_privateQuad]
  simp only [or_assoc]

/-! ### Origins -/

/-- `http://` or `https://`. -/
def Scheme (s : Str) : Prop := s = "http://".toList ∨ s = "https://".toList

/-- Nothing, or a colon and decimal digits. -/
def Port (s : Str) : Prop := s = [] ∨ ∃ digits, Decimal digits ∧ s = ':' :: digits

/-- A text that does not end in a port. -/
def Portless (host : Str) : Prop := ∀ front port, Port port → host = front ++ port → port = []

variable {scheme scheme' host' port port' : Str}

/-- **The pattern is a scheme, a host and a port.** -/
theorem fullmatch_iff : fullmatch s = true ↔ ∃ scheme host port, Scheme scheme ∧
    host ∈ privateHost.matches' ∧ Port port ∧ s = scheme ++ host ++ port := by
  have hscheme : ∀ s, s ∈ (lit "http".toList * opt (lit "s".toList) * lit "://".toList).matches' ↔
      Scheme s := fun s => by
    simp only [mem_mul, mem_opt, mem_lit, Scheme]
    constructor
    · rintro ⟨_, _, ⟨_, _, rfl, rfl | rfl, rfl⟩, rfl, rfl⟩
      · exact .inl rfl
      · exact .inr rfl
    · rintro (rfl | rfl)
      · exact ⟨_, _, ⟨_, _, rfl, .inl rfl, rfl⟩, rfl, rfl⟩
      · exact ⟨_, _, ⟨_, _, rfl, .inr rfl, rfl⟩, rfl, rfl⟩
  have hport : ∀ s, s ∈ (opt (lit ":".toList * many1 (oneOf digitChars))).matches' ↔ Port s :=
      fun s => by
    simp only [mem_opt, mem_mul, mem_lit, mem_many1_oneOf, mem_digitChars, Port, Decimal]
    refine or_congr_right ⟨?_, ?_⟩
    · rintro ⟨_, digits, rfl, hd, rfl⟩
      exact ⟨digits, hd, rfl⟩
    · rintro ⟨digits, hd, rfl⟩
      exact ⟨_, digits, rfl, hd, rfl⟩
  rw [fullmatch, rmatch_iff_matches', privateOriginRe, mem_mul]
  constructor
  · rintro ⟨front, port, hfront, hp, rfl⟩
    obtain ⟨scheme, host, hs, hh, rfl⟩ := mem_mul.1 hfront
    exact ⟨scheme, host, port, (hscheme _).1 hs, hh, (hport _).1 hp, rfl⟩
  · rintro ⟨scheme, host, port, hs, hh, hp, rfl⟩
    exact ⟨_, port, mem_mul.2 ⟨scheme, host, (hscheme _).2 hs, hh, rfl⟩, (hport _).2 hp, rfl⟩

theorem colon_notMem_decimal (h : Decimal s) : ':' ∉ s := fun hc =>
  absurd (h.2 _ hc) (by rw [isDecimal_of_lt (by decide)]; decide)

/-- **An origin splits in one way.** -/
theorem split_unique (hs : Scheme scheme) (hs' : Scheme scheme') (hh : Portless host)
    (hh' : Portless host') (hp : Port port) (hp' : Port port')
    (h : scheme ++ host ++ port = scheme' ++ host' ++ port') :
    scheme = scheme' ∧ host = host' ∧ port = port' := by
  have hscheme : scheme = scheme' := by
    have hfifth := congrArg (fun s => (s.drop 4).head?) h
    rcases hs with rfl | rfl <;> rcases hs' with rfl | rfl
    · rfl
    · exact absurd (Option.some.inj hfifth) (by decide)
    · exact absurd (Option.some.inj hfifth) (by decide)
    · rfl
  subst hscheme
  rw [List.append_assoc, List.append_assoc] at h
  have hrest := List.append_cancel_left h
  have hnil : host = host' → port = port' := fun he => List.append_cancel_left (he ▸ hrest)
  suffices host = host' from ⟨rfl, this, hnil this⟩
  rcases hp with rfl | ⟨digits, hd, rfl⟩
  · rw [List.append_nil] at hrest
    have hport := hh host' port' hp' hrest
    rw [hrest, hport, List.append_nil]
  · rcases hp' with rfl | ⟨digits', hd', rfl⟩
    · rw [List.append_nil] at hrest
      exact absurd (hh' host _ (.inr ⟨digits, hd, rfl⟩) hrest.symm) (List.cons_ne_nil _ _)
    · exact (Str.append_cons_inj (colon_notMem_decimal hd) (colon_notMem_decimal hd') hrest).1

/-- A text without a colon does not end in a port. -/
theorem portless_of_notMem (h : ':' ∉ host) : Portless host := by
  rintro front port (rfl | ⟨digits, -, rfl⟩) rfl
  · rfl
  · exact absurd (List.mem_append_right _ (List.mem_cons_self ..)) h

/-- Nor does one whose last character is no digit. -/
theorem portless_of_getLast {c : Char} (h : host.getLast? = some c) (hc : isDecimal c = false) :
    Portless host := by
  rintro front port (rfl | ⟨digits, hd, rfl⟩) rfl
  · rfl
  · rw [List.getLast?_append_of_ne_nil _ (List.cons_ne_nil _ _), List.getLast?_cons_of_ne_nil hd.1] at h
    rw [hd.2 c (List.mem_of_getLast? h)] at hc
    cases hc

/-! ### LAN origins -/

/-- The private addresses: the two loopback addresses, and four numbers that start with `10`,
`192.168` or `172` and a number from 16 to 31. -/
def PrivateLiteral (host : Str) : Prop :=
  host = "127.0.0.1".toList ∨ host = "[::1]".toList ∨
    ∃ a b c d : Str, host = joinDots [a, b, c, d] ∧ (∀ p ∈ [a, b, c, d], Decimal p) ∧
      (a = "10".toList ∨ a = "192".toList ∧ b = "168".toList ∨
        a = "172".toList ∧ ∃ n, intOfText b = some n ∧ 16 ≤ n ∧ n ≤ 31)

theorem privateLiteral_of_quad (h : PrivateQuad host) : PrivateLiteral host := by
  obtain ⟨a, b, c, d, hhost, hall, hstart⟩ := h
  refine .inr (.inr ⟨a, b, c, d, hhost, fun p hp => (hall p hp).1, ?_⟩)
  rcases hstart with ha | hab | ⟨ha, hb⟩
  · exact .inl ha
  · exact .inr (.inl hab)
  · exact .inr (.inr ⟨ha, intOfText_teens hb⟩)

/-- Of labels the joined text has what they have, and dots. -/
theorem notMem_joinDots {c : Char} {labels : List Str} (hc : c ≠ '.') (h : ∀ l ∈ labels, c ∉ l) :
    c ∉ joinDots labels := by
  cases labels with
  | nil => exact List.not_mem_nil
  | cons l ls =>
      rw [List.forall_mem_cons] at h
      rw [joinDots_cons, List.mem_append, not_or, List.mem_flatMap]
      refine ⟨h.1, ?_⟩
      rintro ⟨p, hp, hmem⟩
      rcases List.mem_append.1 hmem with hmem | hmem
      · exact hc (List.mem_singleton.1 hmem)
      · exact h.2 p hp hmem

theorem notMem_label {c : Char} (hc : isLabelChar c = false) (h : Label s) : c ∉ s := fun hm => by
  rw [h.2 c hm] at hc
  cases hc

/-- **No host of the pattern ends in a port.** -/
theorem portless_of_mem (h : host ∈ privateHost.matches') : Portless host := by
  rcases mem_privateHost.1 h with rfl | rfl | hquad | hname | hsuffix
  · exact portless_of_notMem (by decide)
  · exact portless_of_getLast (c := ']') rfl ((isDecimal_of_lt (by decide)).trans rfl)
  · obtain ⟨a, b, c, d, rfl, hall, -⟩ := hquad
    exact portless_of_notMem (notMem_joinDots (by decide) fun p hp => colon_notMem_decimal (hall p hp).1)
  · exact portless_of_notMem (notMem_label (by decide) hname.1)
  · obtain ⟨labels, -, hlabels, suffix, hsuffix, rfl⟩ := hsuffix
    have hcolon : ∀ suffix ∈ suffixLabels, ∀ l ∈ suffix, ':' ∉ l := by decide
    refine portless_of_notMem (notMem_joinDots (by decide) fun l hl => ?_)
    rcases List.mem_append.1 hl with hl | hl
    · exact notMem_label (by decide) (hlabels l hl)
    · exact hcolon suffix hsuffix l hl

/-- The addresses of the private IPv4 networks. -/
def Rfc1918 (host : Str) : Prop := ∃ a b c d : ℕ, (∀ n ∈ [a, b, c, d], n < 256) ∧
  (a = 10 ∨ a = 172 ∧ 16 ≤ b ∧ b ≤ 31 ∨ a = 192 ∧ b = 168) ∧
  host = joinDots ([a, b, c, d].map (Nat.toDigits 10))

theorem number_toDigits {n : ℕ} (h : n < 256) :
    Decimal (Nat.toDigits 10 n) ∧ (Nat.toDigits 10 n).length ≤ 3 := by
  refine ⟨⟨Nat.toDigits_ne_nil, fun c hc => ?_⟩, ?_⟩
  · have hdigit : c.isDigit = true := Nat.isDigit_of_mem_toDigits (by decide) (by decide) hc
    exact isDecimal_of_isDigit hdigit
  · rw [Nat.length_toDigits_le_iff (by decide) (by decide)]
    omega

theorem privateQuad_of_rfc1918 (h : Rfc1918 host) : PrivateQuad host := by
  obtain ⟨a, b, c, d, hall, hstart, rfl⟩ := h
  refine ⟨_, _, _, _, rfl, fun p hp => ?_, ?_⟩
  · have hmap : p ∈ [a, b, c, d].map (Nat.toDigits 10) := hp
    obtain ⟨n, hn, rfl⟩ := List.mem_map.1 hmap
    exact number_toDigits (hall n hn)
  · rcases hstart with rfl | ⟨rfl, hl, hu⟩ | ⟨rfl, rfl⟩
    · exact .inl (by decide)
    · have hteens : ∀ b ∈ List.range 32, 16 ≤ b → teens.rmatch (Nat.toDigits 10 b) = true := by
        decide +kernel
      exact .inr (.inr ⟨by decide, (rmatch_iff_matches' _ _).1 (hteens b (List.mem_range.2 (by omega)) hl)⟩)
    · exact .inr (.inl ⟨by decide, by decide⟩)

/-- **The default pattern takes LAN origins only**, and all of them. -/
theorem fullmatch_lan :
    (∀ origin, fullmatch origin = true → ∃ scheme host port, Scheme scheme ∧ Port port ∧
      origin = scheme ++ host ++ port ∧
      (PrivateLiteral host ∨ HostName host ∧ '.' ∉ host ∨ UnderSuffix host)) ∧
    (∀ scheme host port, Scheme scheme → Portless host → Port port → '.' ∈ host →
      ¬ PrivateLiteral host → ¬ UnderSuffix host → fullmatch (scheme ++ host ++ port) = false) ∧
    ∀ scheme host port, Scheme scheme → Port port →
      Rfc1918 host ∨ HostName host ∨ UnderSuffix host →
      fullmatch (scheme ++ host ++ port) = true := by
  have hlan : ∀ host, host ∈ privateHost.matches' →
      PrivateLiteral host ∨ HostName host ∧ '.' ∉ host ∨ UnderSuffix host := by
    intro host hhost
    rcases mem_privateHost.1 hhost with h | h | h | h | h
    · exact .inl (.inl h)
    · exact .inl (.inr (.inl h))
    · exact .inl (privateLiteral_of_quad h)
    · exact .inr (.inl ⟨h, notMem_label (by decide) h.1⟩)
    · exact .inr (.inr h)
  refine ⟨fun origin h => ?_, fun scheme host port hs hh hp hdot hlit hsuf => ?_,
    fun scheme host port hs hp hhost => ?_⟩
  · obtain ⟨scheme, host, port, hs, hh, hp, horigin⟩ := fullmatch_iff.1 h
    exact ⟨scheme, host, port, hs, hp, horigin, hlan host hh⟩
  · rw [← Bool.not_eq_true, fullmatch_iff]
    rintro ⟨scheme', host', port', hs', hmem, hp', horigin⟩
    obtain ⟨-, rfl, -⟩ := split_unique hs hs' hh (portless_of_mem hmem) hp hp' horigin
    rcases hlan host hmem with h | ⟨-, h⟩ | h
    · exact hlit h
    · exact h hdot
    · exact hsuf h
  · refine fullmatch_iff.2 ⟨scheme, host, port, hs, mem_privateHost.2 ?_, hp, rfl⟩
    rcases hhost with h | h | h
    · exact .inr (.inr (.inl (privateQuad_of_rfc1918 h)))
    · exact .inr (.inr (.inr (.inl h)))
    · exact .inr (.inr (.inr (.inr h)))

theorem fullmatch_lan_names :
    fullmatch ("http://".toList ++ "nas.local".toList ++ ":3000".toList) = true ∧
      fullmatch ("http://".toList ++ "nas.local.evil.com".toList ++ ":3000".toList) = false := by
  have hport : Port ":3000".toList := .inr ⟨"3000".toList, decimal_of_isDigit (by decide) (by decide), rfl⟩
  refine ⟨fullmatch_lan.2.2 _ _ _ (.inl rfl) hport (.inr (.inr ?_)),
    fullmatch_lan.2.1 _ _ _ (.inl rfl) (portless_of_notMem (by decide)) hport (by decide) ?_ ?_⟩
  · exact ⟨["nas".toList], by decide, by simp [Label, isLabelChar], ["local".toList], by decide, rfl⟩
  · rintro (h | h | ⟨a, b, c, d, h, -, hstart⟩)
    · exact absurd h (by decide)
    · exact absurd h (by decide)
    · have hhead : "nas.local.evil.com".toList.head? = (joinDots [a, b, c, d]).head? := by rw [← h]
      rw [joinDots_cons] at hhead
      rcases hstart with rfl | ⟨rfl, -⟩ | ⟨rfl, -⟩ <;> exact absurd (Option.some.inj hhead) (by decide)
  · rintro ⟨labels, hne, -, suffix, hsuffix, h⟩
    obtain ⟨l, ls, rfl⟩ := List.exists_cons_of_ne_nil hne
    have hends : ∀ suffix ∈ suffixLabels,
        suffix ≠ [] ∧ (".".toList ++ joinDots suffix).getLast? ≠ some 'm' := by decide
    have hsuf := hends suffix hsuffix
    have hlast := congrArg List.getLast? h
    rw [joinDots_append l ls hsuf.1, List.getLast?_append_of_ne_nil _ (by simp)] at hlast
    exact hsuf.2 hlast.symm

end Cors
end PoetryGenerator
