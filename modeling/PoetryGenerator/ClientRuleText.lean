/-
# The text of the client rules (`api/app/clients.py`)

`parse_client_rules` reads a text entry by entry (`parseClientRules_append`), a rule it
returns has a name that an entry can say (`RuleName`), and rules that are written as the
documentation of `RATE_LIMIT_CLIENTS` has it (`Writes`) are read back
(`parseClientRules_of_writes`).

`int` refuses a text of more than 4300 digits, and the entry is then skipped: limits
from `tooBig` on cannot be written.
-/

import Mathlib.Algebra.Order.Ring.Int
import PoetryGenerator.Clients

namespace PoetryGenerator

open Str

variable {name text spec : Str} {limit : Option ℤ} {n : ℤ}

/-! ### One entry at a time -/

theorem parseClientRules_append (a b : Str) :
    parseClientRules (some (a ++ ',' :: b)) =
      parseClientRules (some a) ++ parseClientRules (some b) := by
  simp only [parseClientRules, Option.getD_some]
  rw [List.splitOn_append_cons_self, List.filterMap_append]

/-- A name that an entry can say. -/
structure RuleName (name : Str) : Prop where
  trimmed : name.strip = name
  ne_nil : name ≠ []
  no_comma : ',' ∉ name
  no_equals : '=' ∉ name

theorem notMem_partition_fst (s : Str) (c : Char) : c ∉ (s.partition c).1 := fun h => by
  have hne := List.mem_takeWhile_imp h
  rw [decide_eq_true_eq] at hne
  exact hne rfl

/-- **The name of a rule** is one that an entry can say. -/
theorem ruleName_of_mem {spec : Option Str} {r : ClientRule} (h : r ∈ parseClientRules spec) :
    RuleName r.name := by
  obtain ⟨raw, hraw, h⟩ := List.mem_filterMap.1 h
  have hcomma : ',' ∉ raw := notMem_of_mem_splitOn hraw
  have hname : r.name = ((raw.strip.partition '=').1).strip ∧ r.name ≠ [] := by
    simp only [parseClientRule] at h
    split_ifs at h with hentry hne hlimit
    · obtain rfl := Option.some.inj h
      exact ⟨rfl, hne⟩
    · obtain ⟨limit, -, h⟩ := Option.bind_eq_some_iff.1 h
      split_ifs at h
      obtain rfl := Option.some.inj h
      exact ⟨rfl, hne⟩
  obtain ⟨hname, hne⟩ := hname
  refine ⟨by rw [hname, strip_strip], hne, fun hc => hcomma ?_, fun hc => ?_⟩
  · rw [hname] at hc
    exact mem_of_mem_strip (List.takeWhile_prefix _ |>.subset (mem_of_mem_strip hc))
  · rw [hname] at hc
    exact notMem_partition_fst _ _ (mem_of_mem_strip hc)

/-! ### Writing rules -/

/-- The texts of an entry: the name, or the name and the limit, with white space around them. -/
inductive Writes : Str × Option ℤ → Str → Prop
  | name {name w w' : Str} : Blank w → Blank w' → Writes (name, none) (w ++ name ++ w')
  | limit {name w w' v v' : Str} {n : ℤ} : Blank w → Blank w' → Blank v → Blank v' →
      Writes (name, some n) (w ++ name ++ w' ++ '=' :: (v ++ Numerals.strOfInt n ++ v'))

theorem Writes.plain (name : Str) (n : ℤ) :
    Writes (name, some n) (name ++ '=' :: Numerals.strOfInt n) := by
  have hnil : Blank [] := fun _ hc => absurd hc List.not_mem_nil
  have h : Writes (name, some n) ([] ++ name ++ [] ++ '=' :: ([] ++ Numerals.strOfInt n ++ [])) :=
    Writes.limit hnil hnil hnil hnil
  rwa [List.append_nil, List.append_nil, List.nil_append, List.nil_append] at h

/-- `str(n)` has more than `k` digits from `10 ^ k` on. -/
theorem lt_countP_strOfInt {k : ℕ} (hk : 0 < k) (hn : 1 ≤ n) :
    k < (Numerals.strOfInt n).countP Char.isDigit ↔ 10 ^ k ≤ n := by
  obtain ⟨m, rfl⟩ := Int.eq_ofNat_of_zero_le (by omega : 0 ≤ n)
  rw [Numerals.countP_strOfInt, Int.natAbs_natCast, ← not_le, Nat.length_toDigits_le_iff (by decide) hk, not_lt]
  exact_mod_cast Iff.rfl

/-- From here on the numerals have more than 4300 digits. -/
def tooBig : ℤ := 10 ^ 4300

/-- **`int` reads a numeral** of at most 4300 digits, and no other. -/
theorem intOfText_strOfInt (hn : 1 ≤ n) :
    intOfText (Numerals.strOfInt n) = if tooBig ≤ n then none else some n := by
  have hascii : (Numerals.strOfInt n).all (·.toNat < 128) = true :=
    List.all_eq_true.2 fun c hc => decide_eq_true (Numerals.mem_strOfInt hc).2
  have hlong := lt_countP_strOfInt (k := Numerals.maxDigits) (by decide) hn
  rw [intOfText]
  simp only [hascii, if_true]
  by_cases hbig : tooBig ≤ n
  · rw [if_pos (hlong.2 hbig), if_pos hbig]
  · rw [if_neg fun h => hbig (hlong.1 h), if_neg hbig, Numerals.intOfStr_strOfInt]

theorem strip_eq_self (h : ∀ c ∈ text, isSpace c = false) : strip text = text := by
  have hl : text.dropWhile isSpace = text := by
    rw [List.dropWhile_eq_self_iff]
    intro hpos
    rw [h _ (List.getElem_mem hpos)]
    exact Bool.false_ne_true
  rw [strip, hl, List.rdropWhile_eq_self_iff]
  intro hne
  rw [h _ (List.getLast_mem hne)]
  exact Bool.false_ne_true

theorem strip_strOfInt (hn : 0 ≤ n) : strip (Numerals.strOfInt n) = Numerals.strOfInt n := by
  refine strip_eq_self fun c hc => ?_
  rw [Numerals.strOfInt, if_neg (by omega)] at hc
  have hdigit : c.isDigit = true := Nat.isDigit_of_mem_toDigits (by decide) (by decide) hc
  rw [Char.isDigit, Bool.and_eq_true, decide_eq_true_eq, decide_eq_true_eq] at hdigit
  have h₁ : 48 ≤ c.toNat := hdigit.1
  have h₂ : c.toNat ≤ 57 := hdigit.2
  simp only [isSpace, Bool.or_eq_false_iff, Bool.and_eq_false_iff, decide_eq_false_iff_not]
  omega

/-- The white space that `strip` takes off an entry is also taken off its two parts. -/
theorem partition_strip (s : Str) :
    strip (s.strip.partition '=').1 = strip (s.partition '=').1 ∧
      strip (s.strip.partition '=').2 = strip (s.partition '=').2 := by
  have hnot : ∀ {w : Str}, Blank w → '=' ∉ w := fun hw hc => absurd (hw _ hc) (by decide)
  obtain ⟨w, w', hw, hw', hs⟩ := exists_pad_strip s
  by_cases hmem : '=' ∈ s.strip
  · obtain ⟨p, q, hpq, hp⟩ := List.eq_append_cons_of_mem hmem
    have hwp : '=' ∉ w ++ p := fun h => (List.mem_append.1 h).elim (hnot hw) hp
    have hs' : s = (w ++ p) ++ '=' :: (q ++ w') := by rw [hs, hpq]; simp
    rw [hpq, hs', partition_append_cons hp, partition_append_cons hwp]
    exact ⟨(strip_append_left hw p).symm, (strip_append_right q hw').symm⟩
  · have hs' : '=' ∉ s := by
      rw [hs]
      simp only [List.mem_append, not_or]
      exact ⟨⟨hnot hw, hmem⟩, hnot hw'⟩
    rw [partition_of_notMem hmem, partition_of_notMem hs']
    exact ⟨strip_strip s, rfl⟩

/-- An entry is read from its two parts. -/
theorem parseClientRule_eq {p q : Str} (h : strip (text.partition '=').1 = p)
    (h' : strip (text.partition '=').2 = q) (hp : p ≠ []) :
    parseClientRule text =
      if q = [] then some { name := p, network := ipNetwork p }
      else (intOfText q).bind fun limit =>
        if limit ≤ 0 then none
        else some { name := p, maxPerMin := some limit, network := ipNetwork p } := by
  obtain ⟨h₁, h₂⟩ := partition_strip text
  have hne : text.strip ≠ [] := by
    intro he
    rw [he] at h₁
    exact hp (h ▸ h₁.symm)
  simp only [parseClientRule, if_neg hne, h₁.trans h, h₂.trans h', if_neg hp]

/-- **An entry is read back**, or skipped when its limit has more than 4300 digits. -/
theorem parseClientRule_of_writes (hname : RuleName name) (hlimit : ∀ n ∈ limit, 1 ≤ n)
    (h : Writes (name, limit) text) :
    parseClientRule text =
      if ∀ n ∈ limit, n < tooBig then
        some { name, maxPerMin := limit, network := ipNetwork name }
      else none := by
  have hnot : ∀ {w : Str}, Blank w → '=' ∉ w := fun hw hc => absurd (hw _ hc) (by decide)
  have hstrip : ∀ {w w' : Str}, Blank w → Blank w' → strip (w ++ name ++ w') = name :=
    fun hw hw' => ((strip_append_right _ hw').trans (strip_append_left hw name)).trans hname.trimmed
  have hmem : ∀ {w w' : Str}, Blank w → Blank w' → '=' ∉ w ++ name ++ w' := fun hw hw' => by
    simp only [List.mem_append, not_or]
    exact ⟨⟨hnot hw, hname.no_equals⟩, hnot hw'⟩
  cases h with
  | name hw hw' =>
      have hpart := partition_of_notMem (hmem hw hw')
      rw [parseClientRule_eq (p := name) (q := []) (by rw [hpart]; exact hstrip hw hw')
        (by rw [hpart]; rfl) hname.ne_nil, if_pos rfl, if_pos (by simp)]
  | @limit _ w w' v v' n hw hw' hv hv' =>
      have hn : 1 ≤ n := hlimit n rfl
      have hpart := partition_append_cons (hmem hw hw') (v ++ Numerals.strOfInt n ++ v')
      have hnum : strip (v ++ Numerals.strOfInt n ++ v') = Numerals.strOfInt n :=
        ((strip_append_right _ hv').trans (strip_append_left hv _)).trans (strip_strOfInt (by omega))
      have hne : Numerals.strOfInt n ≠ [] := by
        rw [Numerals.strOfInt, if_neg (by omega)]
        exact Nat.toDigits_ne_nil
      rw [parseClientRule_eq (p := name) (q := Numerals.strOfInt n)
        (by rw [hpart]; exact hstrip hw hw') (by rw [hpart]; exact hnum) hname.ne_nil,
        if_neg hne, intOfText_strOfInt hn]
      by_cases hbig : tooBig ≤ n
      · rw [if_pos hbig, if_neg fun h => absurd (h n rfl) (not_lt.2 hbig), Option.bind_none]
      · rw [if_neg hbig, if_pos fun m hm => Option.some.inj hm ▸ not_le.1 hbig, Option.bind_some,
          if_neg (by omega)]

/-- What an entry says has no comma, nor does its text. -/
theorem Writes.no_comma (h : Writes (name, limit) text) (hname : RuleName name) : ',' ∉ text := by
  have hnot : ∀ {w : Str}, Blank w → ',' ∉ w := fun hw hc => absurd (hw _ hc) (by decide)
  cases h with
  | name hw hw' =>
      simp only [List.mem_append, not_or]
      exact ⟨⟨hnot hw, hname.no_comma⟩, hnot hw'⟩
  | limit hw hw' hv hv' =>
      simp only [List.mem_append, List.mem_cons, not_or]
      exact ⟨⟨⟨hnot hw, hname.no_comma⟩, hnot hw'⟩, by decide,
        ⟨hnot hv, Numerals.notMem_strOfInt (by decide) (by decide) _⟩, hnot hv'⟩

/-- The rule of a name and a limit. -/
def ruleOf (e : Str × Option ℤ) : ClientRule :=
  { name := e.1, maxPerMin := e.2, network := ipNetwork e.1 }

/-- **Rules that are written down are read back**, in their order. -/
theorem parseClientRules_of_writes {entries : List (Str × Option ℤ)} {texts : List Str}
    (hentries : ∀ e ∈ entries, RuleName e.1 ∧ ∀ n ∈ e.2, 1 ≤ n ∧ n < tooBig)
    (h : List.Forall₂ Writes entries texts) :
    parseClientRules (some ([','].intercalate texts)) = entries.map ruleOf := by
  have hread : (∀ t ∈ texts, ',' ∉ t) ∧ texts.filterMap parseClientRule = entries.map ruleOf := by
    induction h with
    | nil => exact ⟨fun _ ht => absurd ht List.not_mem_nil, rfl⟩
    | @cons e text entries texts he _ ih =>
        obtain ⟨hcomma, hread⟩ := ih fun e he => hentries e (List.mem_cons_of_mem _ he)
        obtain ⟨hname, hlimit⟩ := hentries e (List.mem_cons_self ..)
        refine ⟨List.forall_mem_cons.2 ⟨he.no_comma hname, hcomma⟩, ?_⟩
        have hrule := parseClientRule_of_writes hname (fun n hn => (hlimit n hn).1) he
        rw [if_pos fun n hn => (hlimit n hn).2] at hrule
        rw [List.filterMap_cons_some hrule, hread, List.map_cons]
        rfl
  rcases texts.eq_nil_or_concat with rfl | ⟨_, _, rfl⟩
  · exact hread.2
  · rw [parseClientRules, Option.getD_some, List.splitOn_intercalate ',' hread.1 (by simp), hread.2]

/-- **`parse_client_rules` reads entry by entry, and what is written down is read back.** -/
theorem parseClientRules_entries :
    (∀ a b : Str, parseClientRules (some (a ++ ',' :: b)) =
      parseClientRules (some a) ++ parseClientRules (some b)) ∧
    (∀ (spec : Option Str), ∀ r ∈ parseClientRules spec,
      RuleName r.name ∧ ∀ n ∈ r.maxPerMin, 1 ≤ n) ∧
    ∀ (entries : List (Str × Option ℤ)) (texts : List Str),
      (∀ e ∈ entries, RuleName e.1 ∧ ∀ n ∈ e.2, 1 ≤ n ∧ n < 10 ^ 4300) →
      List.Forall₂ Writes entries texts →
      parseClientRules (some ([','].intercalate texts)) = entries.map fun e =>
        { name := e.1, maxPerMin := e.2, network := ipNetwork e.1 } :=
  ⟨parseClientRules_append, fun _ _ hr => ⟨ruleName_of_mem hr, (parseClientRules_spec hr).2⟩,
    fun _ _ => parseClientRules_of_writes⟩

theorem parseClientRules_entries_two :
    parseClientRules (some ([','].intercalate [" api = 10 ".toList, "frontend".toList])) =
      [{ name := "api".toList, maxPerMin := some 10, network := ipNetwork "api".toList },
        { name := "frontend".toList, network := ipNetwork "frontend".toList }] := by
  have hten : (10 : ℤ) < 10 ^ 4300 :=
    calc (10 : ℤ) < 10 ^ 2 := by decide
      _ ≤ 10 ^ 4300 := pow_le_pow_right₀ (by decide) (by decide)
  refine parseClientRules_entries.2.2 [("api".toList, some 10), ("frontend".toList, none)] _ ?_ ?_
  · simp only [List.forall_mem_cons, Option.mem_def, Option.some.injEq, forall_eq',
      reduceCtorEq, false_implies, implies_true, and_true]
    exact ⟨⟨⟨by decide, by decide, by decide, by decide⟩, by decide, hten⟩,
      ⟨by decide, by decide, by decide, by decide⟩, fun _ he => absurd he List.not_mem_nil⟩
  · have hspace : Blank [' '] := by decide
    have hnil : Blank [] := by decide
    have hapi : Writes ("api".toList, some 10)
        ([' '] ++ "api".toList ++ [' '] ++ '=' :: ([' '] ++ Numerals.strOfInt 10 ++ [' '])) :=
      Writes.limit hspace hspace hspace hspace
    have hfrontend : Writes ("frontend".toList, none) ([] ++ "frontend".toList ++ []) :=
      Writes.name hnil hnil
    exact .cons hapi (.cons hfrontend .nil)

/-- A limit of 4301 digits is not read. -/
theorem parseClientRules_long_limit :
    RuleName "a".toList ∧ (1 : ℤ) ≤ 10 ^ 4300 ∧
      Writes ("a".toList, some (10 ^ 4300)) ("a".toList ++ '=' :: Numerals.strOfInt (10 ^ 4300)) ∧
      parseClientRules (some ("a".toList ++ '=' :: Numerals.strOfInt (10 ^ 4300))) = [] := by
  have hname : RuleName "a".toList := ⟨by decide, by decide, by decide, by decide⟩
  have hone : (1 : ℤ) ≤ 10 ^ 4300 := one_le_pow₀ (by decide)
  have hwrites := Writes.plain "a".toList (10 ^ 4300)
  have hrule := parseClientRule_of_writes hname (fun n hn => Option.some.inj hn ▸ hone) hwrites
  rw [if_neg fun h => lt_irrefl tooBig (h tooBig rfl)] at hrule
  refine ⟨hname, hone, hwrites, ?_⟩
  rw [parseClientRules, Option.getD_some, List.splitOn_eq_singleton (hwrites.no_comma hname),
    List.filterMap_cons_none hrule, List.filterMap_nil]

end PoetryGenerator
