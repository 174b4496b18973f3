/-
# The object in a model's text (`_extract_json` in `api/app/claude_client.py`)

The system prompt asks for a bare JSON object, and `_extract_json` also takes one
that stands in code fences or in prose.  It strips the text, takes off a fence at
either end, and then searches for the first `{` and the last `}`.

What is taken off before the search has no brace in it: white space, backticks and
the letters and digits of a language tag.  So the object is the one of the text
itself (`sameSpan_unfence`), and the steps before the search change nothing.
-/

import PoetryGenerator.Text

namespace PoetryGenerator
namespace Extraction

/-- `_FENCE_OPEN.sub("", t)`, for ``^```[a-zA-Z0-9]*\s*``. -/
def fenceOpen (t : Str) : Str :=
  if "```".toList.isPrefixOf t then ((t.drop 3).dropWhile Char.isAlphanum).dropWhile Str.isSpace
  else t

/-- A fence at the end and the white space before it. -/
def cutFence (t : Str) : Str := (t.take (t.length - 3)).rdropWhile Str.isSpace

/-- `_FENCE_CLOSE.sub("", t)`, for ``\s*```$``. -/
def fenceClose (t : Str) : Str :=
  if "```".toList.isSuffixOf t then cutFence t
  -- `$` also matches before a newline that ends the text
  else if "```\n".toList.isSuffixOf t then cutFence t.dropLast ++ ['\n']
  else t

/-- The text without its fences. -/
def unfence (text : Str) : Str :=
  let t := text.strip
  if "```".toList.isPrefixOf t then (fenceClose (fenceOpen t)).strip else t

/-- The search, and the slice. -/
def searchObject (t : Str) : Option Str :=
  match t.find '{', t.rfind '}' with
  | some start, some stop => if stop < start then none else some ((t.take (stop + 1)).drop start)
  | _, _ => none

/-- `_extract_json`; nothing is a `JSONDecodeError`. -/
def extractJson (text : Str) : Option Str := searchObject (unfence text)

/-! ### The span -/

/-- `o` is what stands in `t` from the first `{` to the last `}`. -/
def Span (t o : Str) : Prop :=
  ∃ p m q, o = '{' :: m ++ ['}'] ∧ t = p ++ o ++ q ∧ '{' ∉ p ∧ '}' ∉ q

theorem slice (p o q : Str) : ((p ++ o ++ q).take (p.length + o.length)).drop p.length = o := by
  rw [← List.length_append, List.take_left, List.drop_left]

theorem searchObject_eq_some_iff {t o : Str} : searchObject t = some o ↔ Span t o := by
  constructor
  · intro h
    unfold searchObject at h
    split at h
    · next start stop hstart hstop =>
        split_ifs at h with hle
        obtain ⟨p, r, ht, hp, rfl⟩ := Str.find_eq_some_iff.1 hstart
        obtain ⟨p', q, ht', hq, rfl⟩ := Str.rfind_eq_some_iff.1 hstop
        obtain ⟨mid, rfl, hmid⟩ : ∃ mid, p' = p ++ mid ∧ '{' :: r = mid ++ '}' :: q := by
          rcases List.append_eq_append_iff.1 (ht.symm.trans ht') with h' | ⟨mid, hpp, hmid⟩
          · exact h'
          · have hnil : mid = [] := List.length_eq_zero_iff.1 (by
              have := congrArg List.length hpp
              rw [List.length_append] at this
              omega)
            subst hnil
            cases hmid
        cases mid with
        | nil => cases hmid
        | cons c m =>
            obtain ⟨rfl, -⟩ := List.cons.inj hmid
            have hspan : t = p ++ ('{' :: m ++ ['}']) ++ q := by
              rw [ht']
              simp only [List.append_assoc, List.cons_append, List.nil_append]
            have ho : o = '{' :: m ++ ['}'] := by
              rw [← Option.some.inj h, hspan]
              refine Eq.trans ?_ (slice p ('{' :: m ++ ['}']) q)
              rw [List.length_append, List.length_append, Nat.add_assoc]
              rfl
            exact ⟨p, m, q, ho, ho ▸ hspan, hp, hq⟩
    · cases h
  · rintro ⟨p, m, q, rfl, rfl, hp, hq⟩
    have hstart : Str.find (p ++ ('{' :: m ++ ['}']) ++ q) '{' = some p.length :=
      Str.find_eq_some_iff.2 ⟨p, m ++ ['}'] ++ q, by simp, hp, rfl⟩
    have hstop : Str.rfind (p ++ ('{' :: m ++ ['}']) ++ q) '}' = some (p ++ '{' :: m).length :=
      Str.rfind_eq_some_iff.2 ⟨p ++ '{' :: m, q, by simp, hq, rfl⟩
    unfold searchObject
    rw [hstart, hstop]
    dsimp only
    rw [if_neg (by rw [List.length_append]; omega)]
    refine congrArg some (Eq.trans ?_ (slice p ('{' :: m ++ ['}']) q))
    rw [List.length_append, List.length_append, Nat.add_assoc]
    rfl

/-- Two texts with the same span. -/
def SameSpan (s t : Str) : Prop := ∀ o, Span s o ↔ Span t o

/-- No brace stands in a text. -/
def Braceless (s : Str) : Prop := '{' ∉ s ∧ '}' ∉ s

theorem split_after {c : Char} {p x a y : Str} (hp : c ∉ p) (h : p ++ x = a ++ c :: y) :
    ∃ a', a = p ++ a' ∧ x = a' ++ c :: y := by
  rcases List.append_eq_append_iff.1 h with h' | ⟨mid, rfl, hmid⟩
  · exact h'
  · cases mid with
    | nil => exact ⟨[], by simp only [List.append_nil], hmid.symm⟩
    | cons d mid =>
        obtain ⟨rfl, -⟩ := List.cons.inj hmid
        exact absurd (List.mem_append_right _ (List.mem_cons_self ..)) hp

theorem split_before {c : Char} {q x b y : Str} (hq : c ∉ q) (h : x ++ q = y ++ c :: b) :
    ∃ b', b = b' ++ q ∧ x = y ++ c :: b' := by
  rcases List.append_eq_append_iff.1 h with ⟨mid, -, hmid⟩ | ⟨mid, rfl, hmid⟩
  · exact absurd (hmid ▸ List.mem_append_right _ (List.mem_cons_self ..)) hq
  · cases mid with
    | nil => exact absurd (List.nil_append q ▸ hmid ▸ List.mem_cons_self ..) hq
    | cons d mid =>
        obtain ⟨rfl, hb⟩ := List.cons.inj hmid
        exact ⟨mid, hb, rfl⟩

/-- **Text without braces around a text** does not change the span. -/
theorem sameSpan_append {p s q : Str} (hp : Braceless p) (hq : Braceless q) :
    SameSpan (p ++ s ++ q) s := by
  intro o
  constructor
  · rintro ⟨a, m, b, rfl, heq, ha, hb⟩
    have hright : p ++ s ++ q = (a ++ '{' :: m) ++ '}' :: b := heq.trans (by simp)
    obtain ⟨b', rfl, hmid⟩ := split_before hq.2 hright
    have hleft : p ++ s = a ++ '{' :: (m ++ '}' :: b') := hmid.trans (by simp)
    obtain ⟨a', rfl, hs⟩ := split_after hp.1 hleft
    refine ⟨a', m, b', rfl, hs.trans (by simp), ?_, ?_⟩
    · exact fun h => ha (List.mem_append_right _ h)
    · exact fun h => hb (List.mem_append_left _ h)
  · rintro ⟨a, m, b, rfl, rfl, ha, hb⟩
    refine ⟨p ++ a, m, b ++ q, rfl, by simp only [List.append_assoc], ?_, ?_⟩
    · exact fun h => (List.mem_append.1 h).elim hp.1 ha
    · exact fun h => (List.mem_append.1 h).elim hb hq.2

/-! ### What is taken off -/

theorem SameSpan.trans {s t u : Str} (h : SameSpan s t) (h' : SameSpan t u) : SameSpan s u :=
  fun o => (h o).trans (h' o)

theorem SameSpan.symm {s t : Str} (h : SameSpan s t) : SameSpan t s := fun o => (h o).symm

theorem sameSpan_suffix {s q : Str} (hq : Braceless q) : SameSpan (s ++ q) s :=
  sameSpan_append (p := []) ⟨List.not_mem_nil, List.not_mem_nil⟩ hq

theorem sameSpan_prefix {p s : Str} (hp : Braceless p) : SameSpan (p ++ s) s := by
  have h := sameSpan_append (s := s) hp (q := []) ⟨List.not_mem_nil, List.not_mem_nil⟩
  rwa [List.append_nil] at h

section While
variable {p : Char → Bool} (hopen : p '{' = false) (hclose : p '}' = false) (s : Str)
include hopen hclose

theorem braceless_of_forall {s : Str} (h : ∀ c ∈ s, p c = true) : Braceless s :=
  ⟨fun hc => absurd (h _ hc) (by rw [hopen]; decide), fun hc => absurd (h _ hc) (by rw [hclose]; decide)⟩

theorem sameSpan_dropWhile : SameSpan s (s.dropWhile p) := by
  have h := sameSpan_prefix (s := s.dropWhile p)
    (braceless_of_forall hopen hclose (fun c (hc : c ∈ s.takeWhile p) => List.mem_takeWhile_imp hc))
  rwa [List.takeWhile_append_dropWhile] at h

theorem sameSpan_rdropWhile : SameSpan s (s.rdropWhile p) := by
  have h := sameSpan_suffix (s := s.rdropWhile p)
    (braceless_of_forall hopen hclose (fun c (hc : c ∈ s.rtakeWhile p) => List.mem_rtakeWhile_imp hc))
  rwa [List.rdropWhile_append_rtakeWhile] at h

end While

theorem sameSpan_strip (s : Str) : SameSpan s s.strip :=
  (sameSpan_dropWhile (by decide) (by decide) s).trans (sameSpan_rdropWhile (by decide) (by decide) _)

theorem sameSpan_fenceOpen (t : Str) : SameSpan t (fenceOpen t) := by
  unfold fenceOpen
  split_ifs with hfence
  · obtain ⟨rest, rfl⟩ := List.isPrefixOf_iff_prefix.1 hfence
    have htag : SameSpan ("```".toList ++ rest) rest := sameSpan_prefix ⟨by decide, by decide⟩
    rw [List.drop_left' (by rfl)]
    exact htag.trans ((sameSpan_dropWhile (by decide) (by decide) rest).trans
      (sameSpan_dropWhile (by decide) (by decide) _))
  · exact fun _ => .rfl

theorem sameSpan_cutFence (t : Str) : SameSpan (t ++ "```".toList) (cutFence (t ++ "```".toList)) := by
  have hcut : (t ++ "```".toList).take ((t ++ "```".toList).length - 3) = t :=
    List.take_left' (by rw [List.length_append]; rfl)
  rw [cutFence, hcut]
  exact (sameSpan_suffix ⟨by decide, by decide⟩).trans (sameSpan_rdropWhile (by decide) (by decide) t)

theorem sameSpan_fenceClose (t : Str) : SameSpan t (fenceClose t) := by
  unfold fenceClose
  split_ifs with hfence hline
  · obtain ⟨rest, rfl⟩ := List.isSuffixOf_iff_suffix.1 hfence
    exact sameSpan_cutFence rest
  · obtain ⟨rest, rfl⟩ := List.isSuffixOf_iff_suffix.1 hline
    have hline : SameSpan (rest ++ "```".toList ++ ['\n']) (rest ++ "```".toList) :=
      sameSpan_suffix ⟨by decide, by decide⟩
    have hsame : SameSpan (cutFence (rest ++ "```".toList) ++ ['\n']) (cutFence (rest ++ "```".toList)) :=
      sameSpan_suffix ⟨by decide, by decide⟩
    have hlast : rest ++ "```\n".toList = rest ++ "```".toList ++ ['\n'] := by
      rw [List.append_assoc]
      exact congrArg (rest ++ ·) (by decide)
    rw [hlast, List.dropLast_concat]
    exact hline.trans ((sameSpan_cutFence rest).trans hsame.symm)
  · exact fun _ => .rfl

/-- **The fences are no part of the object.** -/
theorem sameSpan_unfence (text : Str) : SameSpan text (unfence text) := by
  unfold unfence
  dsimp only
  split_ifs
  · exact (sameSpan_strip text).trans ((sameSpan_fenceOpen _).trans
      ((sameSpan_fenceClose _).trans (sameSpan_strip _)))
  · exact sameSpan_strip text

theorem extractJson_eq_some_iff {text o : Str} : extractJson text = some o ↔ Span text o :=
  searchObject_eq_some_iff.trans (sameSpan_unfence text o).symm

theorem span_of_ends {p o q : Str} (hopen : o.head? = some '{') (hclose : o.getLast? = some '}')
    (hp : '{' ∉ p) (hq : '}' ∉ q) : Span (p ++ o ++ q) o := by
  obtain ⟨rest, rfl⟩ := List.head?_eq_some_iff.1 hopen
  obtain ⟨m, hm⟩ := List.getLast?_eq_some_iff.1 hclose
  cases m with
  | nil => exact absurd (List.cons.inj hm).1 (by decide)
  | cons c m =>
      obtain ⟨rfl, rfl⟩ := List.cons.inj hm
      exact ⟨p, m, q, rfl, rfl, hp, hq⟩

/-- **The extraction is the span from the first brace to the last**, and fails without one.
So an object is taken out of any text around it as it is, and once is enough. -/
theorem extractJson_span :
    (∀ text o, extractJson text = some o ↔ Span text o) ∧
      (∀ text, extractJson text = none ↔ ¬∃ o, Span text o) ∧
      (∀ p o q, o.head? = some '{' → o.getLast? = some '}' → '{' ∉ p → '}' ∉ q →
        extractJson (p ++ o ++ q) = some o) ∧
      ∀ text o, extractJson text = some o → extractJson o = some o := by
  refine ⟨fun text o => extractJson_eq_some_iff, fun text => ?_, fun p o q hopen hclose hp hq => ?_,
    fun text o h => ?_⟩
  · rw [Option.eq_none_iff_forall_ne_some, not_exists]
    exact forall_congr' fun o => not_congr extractJson_eq_some_iff
  · exact extractJson_eq_some_iff.2 (span_of_ends hopen hclose hp hq)
  · obtain ⟨-, m, -, rfl, -, -, -⟩ := extractJson_eq_some_iff.1 h
    exact extractJson_eq_some_iff.2 ⟨[], m, [], rfl, (List.append_nil _).symm, List.not_mem_nil,
      List.not_mem_nil⟩

end Extraction
end PoetryGenerator
