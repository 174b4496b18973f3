/-
# The tags of an image prompt (`combine_image_prompt`, `with_quality_prefix`)

A prompt is a list of tags with commas between them: `tags` are the non-empty pieces.
The API joins the prompt that the model wrote with the tags of the user, and the worker
puts the quality tags before them.  Each of the two trims with one pass of
`strip`, `rstrip(",")`, `strip` (`trim`), the base prompt only with `strip`.

One pass takes one run of commas off the end (`commaGroups_trim`), so a prompt that ends
in `a, ,` or a base prompt that ends in a comma leaves empty pieces.  No tag is lost
(`tags_sent`), and no empty piece is left exactly when the inputs `Compose`.
-/

import PoetryGenerator.ComfyUi
import PoetryGenerator.Repository

namespace PoetryGenerator

open Str ComfyUi

/-! ### Pieces and tags -/

/-- The pieces of a text between its commas, trimmed. -/
def pieces (s : Str) : List Str := (s.splitOn ',').map strip

/-- The pieces that are not empty. -/
def tags (s : Str) : List Str := (pieces s).filter (· ≠ [])

/-- An empty piece is followed by empty pieces only. -/
def Tidy (s : Str) : Prop := (pieces s).Pairwise fun t u => t = [] → u = []

instance (s : Str) : Decidable (Tidy s) := inferInstanceAs (Decidable (List.Pairwise ..))

/-- The runs of commas among the commas and the white space that a text starts with;
`inRun` says that a comma precedes it. -/
def leadingGroups (inRun : Bool) : Str → ℕ
  | [] => 0
  | c :: s =>
    if c = ',' then (if inRun then 0 else 1) + leadingGroups true s
    else if isSpace c then leadingGroups false s
    else 0

/-- The runs of commas among the commas and the white space that a text ends with. -/
def commaGroups (s : Str) : ℕ := leadingGroups false s.reverse

variable {s t w base e : Str} {extra : Option Str} {b : Bool}

theorem comma_notMem (hw : Blank w) : ',' ∉ w := fun h => absurd (hw _ h) (by decide)

theorem pieces_append_cons (s t : Str) : pieces (s ++ ',' :: t) = pieces s ++ pieces t := by
  rw [pieces, List.splitOn_append_cons_self, List.map_append, pieces, pieces]

theorem pieces_of_notMem (h : ',' ∉ s) : pieces s = [strip s] := by
  rw [pieces, List.splitOn_eq_singleton h, List.map_singleton]

theorem pieces_ne_nil (s : Str) : pieces s ≠ [] := by
  rw [pieces, ne_eq, List.map_eq_nil_iff]
  exact List.splitOn_ne_nil ',' s

/-- A text without a comma, or its last comma. -/
theorem last_comma (s : Str) : ',' ∉ s ∨ ∃ p q, s = p ++ ',' :: q ∧ ',' ∉ q := by
  by_cases h : ',' ∈ s
  · obtain ⟨q, p, hs, hq⟩ := List.eq_append_cons_of_mem (List.mem_reverse.2 h)
    refine .inr ⟨p.reverse, q.reverse, ?_, fun hq' => hq (List.mem_reverse.1 hq')⟩
    rw [← List.reverse_reverse s, hs, List.reverse_append, List.reverse_cons, List.append_assoc,
      List.singleton_append]
  · exact .inl h

theorem pieces_append_left (hw : Blank w) (s : Str) : pieces (w ++ s) = pieces s := by
  by_cases h : ',' ∈ s
  · obtain ⟨p, q, rfl, hp⟩ := List.eq_append_cons_of_mem h
    have hwp : ',' ∉ w ++ p := fun h => (List.mem_append.1 h).elim (comma_notMem hw) hp
    rw [← List.append_assoc, pieces_append_cons, pieces_append_cons, pieces_of_notMem hwp,
      pieces_of_notMem hp, strip_append_left hw]
  · have hws : ',' ∉ w ++ s := fun h' => (List.mem_append.1 h').elim (comma_notMem hw) h
    rw [pieces_of_notMem hws, pieces_of_notMem h, strip_append_left hw]

theorem pieces_append_right (s : Str) (hw : Blank w) : pieces (s ++ w) = pieces s := by
  rcases last_comma s with h | ⟨p, q, rfl, hq⟩
  · have hws : ',' ∉ s ++ w := fun h' => (List.mem_append.1 h').elim h (comma_notMem hw)
    rw [pieces_of_notMem hws, pieces_of_notMem h, strip_append_right _ hw]
  · have hqw : ',' ∉ q ++ w := fun h => (List.mem_append.1 h).elim hq (comma_notMem hw)
    rw [List.append_assoc, List.cons_append, pieces_append_cons, pieces_append_cons,
      pieces_of_notMem hqw, pieces_of_notMem hq, strip_append_right _ hw]

theorem pieces_strip (s : Str) : pieces s.strip = pieces s := by
  obtain ⟨w, w', hw, hw', hs⟩ := exists_pad_strip s
  conv_rhs => rw [hs]
  rw [pieces_append_right _ hw', pieces_append_left hw]

theorem pieces_join (s t : Str) : pieces (s ++ ", ".toList ++ t) = pieces s ++ pieces t := by
  have hspace : Blank [' '] := by decide
  have hjoin : s ++ ", ".toList ++ t = s ++ ',' :: ([' '] ++ t) := by simp
  rw [hjoin, pieces_append_cons, pieces_append_left hspace]

/-- Commas at the end are empty pieces. -/
theorem pieces_rstrip (s : Str) : ∃ k, pieces s = pieces (s.rstrip ',') ++ List.replicate k [] := by
  have hcommas : ∀ k, pieces (s.rstrip ',' ++ List.replicate k ',') =
      pieces (s.rstrip ',') ++ List.replicate k [] := by
    intro k
    induction k with
    | zero => rw [List.replicate_zero, List.replicate_zero, List.append_nil, List.append_nil]
    | succ k ih =>
        have hnil : pieces [] = [[]] := rfl
        rw [List.replicate_succ', ← List.append_assoc, pieces_append_cons, ih, hnil,
          List.append_assoc, ← List.replicate_succ']
  refine ⟨(s.rtakeWhile (· = ',')).length, ?_⟩
  have hall : s.rtakeWhile (· = ',') = List.replicate (s.rtakeWhile (· = ',')).length ',' :=
    List.eq_replicate_iff.2 ⟨rfl, fun c hc => by simpa using List.mem_rtakeWhile_imp hc⟩
  rw [← hcommas, ← hall, rstrip, List.rdropWhile_append_rtakeWhile]

theorem tags_join (s t : Str) : tags (s ++ ", ".toList ++ t) = tags s ++ tags t := by
  rw [tags, pieces_join, List.filter_append, tags, tags]

theorem tags_strip (s : Str) : tags s.strip = tags s := by rw [tags, pieces_strip, tags]

/-- The pieces are the tags when none is empty. -/
theorem pieces_eq_tags_iff : pieces s = tags s ↔ [] ∉ pieces s := by
  rw [eq_comm, tags, List.filter_eq_self]
  simp only [decide_eq_true_eq]
  exact ⟨fun h hn => h [] hn rfl, fun h t ht hn => h (hn ▸ ht)⟩

/-! ### One pass of trimming -/

theorem leadingGroups_append_left (hw : Blank w) (s : Str) :
    leadingGroups false (w ++ s) = leadingGroups false s := by
  induction w with
  | nil => rfl
  | cons c w ih =>
      have hc : isSpace c = true := hw c (List.mem_cons_self ..)
      have hne : c ≠ ',' := fun h => absurd (h ▸ hc) (by decide)
      rw [List.cons_append, leadingGroups, if_neg hne, if_pos hc]
      exact ih fun d hd => hw d (List.mem_cons_of_mem _ hd)

theorem leadingGroups_of_notMem (h : ',' ∉ s) : leadingGroups b s = 0 := by
  induction s generalizing b with
  | nil => rfl
  | cons c s ih =>
      have hne : c ≠ ',' := fun he => h (he ▸ List.mem_cons_self ..)
      rw [leadingGroups, if_neg hne, ih fun hs => h (List.mem_cons_of_mem _ hs), ite_self]

theorem leadingGroups_append_right (s : Str) (hw : Blank w) :
    leadingGroups b (s ++ w) = leadingGroups b s := by
  induction s generalizing b with
  | nil => rw [List.nil_append, leadingGroups_of_notMem (comma_notMem hw), leadingGroups]
  | cons c s ih => rw [List.cons_append, leadingGroups, leadingGroups, ih, ih]

/-- A character that is neither a comma nor white space ends the count. -/
theorem leadingGroups_of_not_blank (h : ',' ∉ s) (hs : ¬ Blank s) (t : Str) :
    leadingGroups b (s ++ t) = 0 := by
  induction s generalizing b with
  | nil => exact absurd (fun _ hc => absurd hc List.not_mem_nil) hs
  | cons c s ih =>
      have hne : c ≠ ',' := fun he => h (he ▸ List.mem_cons_self ..)
      rw [List.cons_append, leadingGroups, if_neg hne]
      split_ifs with hc
      · exact ih (fun hm => h (List.mem_cons_of_mem _ hm))
          fun hb => hs (List.forall_mem_cons.2 ⟨hc, hb⟩)
      · rfl

theorem leadingGroups_dropWhile (s : Str) :
    leadingGroups false (s.dropWhile (· = ',')) = leadingGroups true s := by
  induction s with
  | nil => rfl
  | cons c s ih =>
      rw [List.dropWhile_cons, leadingGroups]
      by_cases hc : c = ','
      · rw [if_pos (decide_eq_true hc), if_pos hc, if_pos rfl, Nat.zero_add, ih]
      · rw [if_neg (by simpa using hc), if_neg hc, leadingGroups, if_neg hc]

/-- `s.strip().rstrip(",").strip()`. -/
def trim (s : Str) : Str := (s.strip.rstrip ',').strip

theorem commaGroups_strip (s : Str) : commaGroups s.strip = commaGroups s := by
  obtain ⟨w, w', hw, hw', hs⟩ := exists_pad_strip s
  have hw₁ : Blank w.reverse := fun c hc => hw c (List.mem_reverse.1 hc)
  have hw₂ : Blank w'.reverse := fun c hc => hw' c (List.mem_reverse.1 hc)
  conv_rhs => rw [hs]
  rw [commaGroups, commaGroups, List.reverse_append, List.reverse_append,
    leadingGroups_append_left hw₂, leadingGroups_append_right _ hw₁]

theorem commaGroups_rstrip (hs : s.strip = s) : commaGroups (s.rstrip ',') = commaGroups s - 1 := by
  have hrev : (s.rstrip ',').reverse = s.reverse.dropWhile (· = ',') := by
    rw [rstrip, List.rdropWhile, List.reverse_reverse]
  rw [commaGroups, hrev, commaGroups]
  -- by the last character of `s`, which is not white space
  rcases hr : s.reverse with _ | ⟨c, r⟩
  · rfl
  · have hlast : s = r.reverse ++ [c] := by rw [← List.reverse_reverse s, hr, List.reverse_cons]
    have hc : isSpace c = false := by
      by_contra hc
      have hdrop := rdropWhile_of_strip hs
      rw [hlast, List.rdropWhile_concat_pos _ _ _ (eq_true_of_ne_false hc)] at hdrop
      have hlen := congrArg List.length hdrop
      have hle := (List.rdropWhile_prefix isSpace r.reverse).length_le
      rw [hlen, List.length_append, List.length_singleton] at hle
      omega
    by_cases hcomma : c = ','
    · rw [List.dropWhile_cons, if_pos (decide_eq_true hcomma), leadingGroups_dropWhile,
        leadingGroups, if_pos hcomma, if_neg Bool.false_ne_true, Nat.add_sub_cancel_left]
    · rw [List.dropWhile_cons, if_neg (by simpa using hcomma), leadingGroups, if_neg hcomma, hc]
      rfl

/-- **One pass takes off one run of commas.** -/
theorem commaGroups_trim (s : Str) : commaGroups (trim s) = commaGroups s - 1 := by
  rw [trim, commaGroups_strip, commaGroups_rstrip (strip_strip s), commaGroups_strip]

theorem tags_rstrip (s : Str) : tags (s.rstrip ',') = tags s := by
  obtain ⟨k, hk⟩ := pieces_rstrip s
  rw [tags, tags, hk, List.filter_append, List.filter_replicate_of_neg (by simp), List.append_nil]

/-- **One pass loses no tag.** -/
theorem tags_trim (s : Str) : tags (trim s) = tags s := by
  rw [trim, tags_strip, tags_rstrip, tags_strip]

theorem Tidy.strip (h : Tidy s) : Tidy s.strip := by
  rwa [Tidy, pieces_strip]

theorem Tidy.trim (h : Tidy s) : Tidy (trim s) := by
  obtain ⟨k, hk⟩ := pieces_rstrip s.strip
  rw [Tidy, PoetryGenerator.trim, pieces_strip]
  rw [Tidy, ← pieces_strip, hk] at h
  exact (List.pairwise_append.1 h).1

/-! ### Empty pieces -/

/-- The last comma counts when nothing but white space follows it, and else none does. -/
theorem commaGroups_append_cons {p q : Str} (hq : ',' ∉ q) :
    commaGroups (p ++ ',' :: q) = if strip q = [] then 1 + leadingGroups true p.reverse else 0 := by
  have hrev : (p ++ ',' :: q).reverse = q.reverse ++ ',' :: p.reverse := by
    rw [List.reverse_append, List.reverse_cons, List.append_assoc, List.singleton_append]
  rw [commaGroups, hrev]
  split_ifs with hnil
  · have hblank : Blank q.reverse := fun c hc => strip_eq_nil_iff.1 hnil c (List.mem_reverse.1 hc)
    rw [leadingGroups_append_left hblank, leadingGroups, if_pos rfl, if_neg Bool.false_ne_true]
  · refine leadingGroups_of_not_blank (fun hm => hq (List.mem_reverse.1 hm)) (fun hb => hnil ?_) _
    exact strip_eq_nil_iff.2 fun c hc => hb c (List.mem_reverse.2 hc)

theorem commaGroups_of_notMem (h : ',' ∉ s) : commaGroups s = 0 :=
  leadingGroups_of_notMem fun hm => h (List.mem_reverse.1 hm)

/-- **A tidy text has no empty piece** when it has a tag, and no comma after the last one. -/
theorem nil_notMem_pieces_iff (h : Tidy s) : [] ∉ pieces s ↔ tags s ≠ [] ∧ commaGroups s = 0 := by
  rcases last_comma s with hs | ⟨p, q, rfl, hq⟩
  · rw [tags, pieces_of_notMem hs, commaGroups_of_notMem hs]
    by_cases hnil : strip s = []
    · simp [hnil]
    · simp [hnil, Ne.symm hnil]
  · rw [Tidy, pieces_append_cons, pieces_of_notMem hq, List.pairwise_append] at h
    rw [tags, pieces_append_cons, pieces_of_notMem hq, commaGroups_append_cons hq]
    by_cases hnil : strip q = []
    · simp [hnil]
    · have hp : [] ∉ pieces p := fun hm => hnil (h.2.2 _ hm _ (List.mem_singleton_self _) rfl)
      simp [hnil, hp, Ne.symm hnil]

/-- A text is blank when it has no tag and no comma. -/
theorem strip_eq_nil_iff_tags : strip s = [] ↔ tags s = [] ∧ commaGroups s = 0 := by
  rcases last_comma s with hs | ⟨p, q, rfl, hq⟩
  · rw [tags, pieces_of_notMem hs, commaGroups_of_notMem hs]
    simp
  · have hnot : strip (p ++ ',' :: q) ≠ [] := fun h =>
      absurd (strip_eq_nil_iff.1 h ',' (by simp)) (by decide)
    rw [tags, pieces_append_cons, pieces_of_notMem hq, commaGroups_append_cons hq]
    by_cases hnil : strip q = []
    · simp [hnil, hnot]
    · simp [hnil, hnot]

theorem trim_eq_nil_iff : trim s = [] ↔ tags s = [] ∧ commaGroups s ≤ 1 := by
  rw [trim, strip_eq_nil_iff_tags, tags_rstrip, tags_strip, commaGroups_rstrip (strip_strip s),
    commaGroups_strip, Nat.sub_eq_zero_iff_le]

/-- What one pass leaves of a tidy text is nothing, or has no empty piece, when the text
ends in one run of commas at most. -/
theorem trim_iff (h : Tidy s) : trim s = [] ∨ [] ∉ pieces (trim s) ↔ commaGroups s ≤ 1 := by
  rw [nil_notMem_pieces_iff h.trim, trim_eq_nil_iff, tags_trim, commaGroups_trim,
    Nat.sub_eq_zero_iff_le]
  tauto

/-- Of two texts that are joined one pass trims the second. -/
theorem pieces_trim_join (hs : s ≠ []) (hs' : s.strip = s) (ht : t ≠ []) (ht' : t.strip = t) :
    pieces (trim (s ++ ", ".toList ++ t)) = pieces s ++ pieces (trim t) := by
  have hspace : isSpace ' ' = true := by decide
  have hjoin : ∀ u : Str, s ++ ", ".toList ++ u = (s ++ [',']) ++ ' ' :: u := fun u => by simp
  have hr : (s ++ ", ".toList ++ t).rstrip ',' = s ++ ", ".toList ++ t.rstrip ',' := by
    rw [hjoin, hjoin, rstrip, rdropWhile_append_cons (by decide), rstrip]
  rw [trim, strip_join hs' hs ht' ht, hr, pieces_strip, pieces_join, trim, pieces_strip, ht']

/-! ### The text sent -/

/-- `combine_image_prompt`, by what is blank. -/
theorem combineImagePrompt_eq : combineImagePrompt base extra =
    if trim (extra.getD []) = [] then base.strip
    else if base.strip = [] then trim (extra.getD [])
    else base.strip ++ ", ".toList ++ trim (extra.getD []) := rfl

theorem withQualityPrefix_eq : withQualityPrefix s =
    if trim s = [] then qualityPrefix else qualityPrefix ++ ", ".toList ++ trim s := rfl

theorem tags_combineImagePrompt :
    tags (combineImagePrompt base extra) = tags base ++ tags (extra.getD []) := by
  rw [combineImagePrompt_eq]
  split_ifs with he hb
  · rw [tags_strip, (trim_eq_nil_iff.1 he).1, List.append_nil]
  · rw [tags_trim, (strip_eq_nil_iff_tags.1 hb).1, List.nil_append]
  · rw [tags_join, tags_strip, tags_trim]

/-- **No tag is lost**, whatever the inputs are. -/
theorem tags_sent (base : Str) (extra : Option Str) :
    tags (withQualityPrefix (combineImagePrompt base extra)) =
      tags qualityPrefix ++ tags base ++ tags (extra.getD []) := by
  have htags := tags_trim (combineImagePrompt base extra)
  rw [tags_combineImagePrompt] at htags
  rw [withQualityPrefix_eq]
  split_ifs with h
  · rw [List.append_assoc, ← htags, h]
    exact (List.append_nil _).symm
  · rw [tags_join, htags, List.append_assoc]

theorem nil_notMem_pieces_withQualityPrefix :
    [] ∉ pieces (withQualityPrefix s) ↔ trim s = [] ∨ [] ∉ pieces (trim s) := by
  have hprefix : [] ∉ pieces qualityPrefix := by decide +kernel
  rw [withQualityPrefix_eq]
  split_ifs with h
  · exact iff_of_true hprefix (.inl h)
  · rw [pieces_join, List.mem_append, not_or, or_iff_right h, and_iff_right hprefix]

/-- The inputs end in no more runs of commas than are taken off them: one run of each, and
a second one when the prompt ends in it, but none of a base prompt that tags follow. -/
def Composes (base extra : Str) : Prop :=
  (tags extra = [] ∧ commaGroups extra ≤ 1 ∧ commaGroups base ≤ 1) ∨
    (tags base = [] ∧ commaGroups base = 0 ∧ commaGroups extra ≤ 2) ∨
    (tags extra ≠ [] ∧ commaGroups base = 0 ∧ commaGroups extra ≤ 2)

/-- Of the combined prompt one pass leaves nothing, or no empty piece, when the inputs compose. -/
theorem trim_combineImagePrompt_iff (hbase : Tidy base) (hextra : Tidy (extra.getD [])) :
    trim (combineImagePrompt base extra) = [] ∨ [] ∉ pieces (trim (combineImagePrompt base extra)) ↔
      Composes base (extra.getD []) := by
  rw [combineImagePrompt_eq, Composes]
  generalize extra.getD [] = e at hextra
  by_cases he : trim e = []
  · -- nothing is added to the base prompt
    obtain ⟨htags, hgroups⟩ := trim_eq_nil_iff.1 he
    rw [if_pos he, trim_iff hbase.strip, commaGroups_strip]
    refine ⟨fun h => .inl ⟨htags, hgroups, h⟩, ?_⟩
    rintro (⟨-, -, h⟩ | ⟨-, h, -⟩ | ⟨h, -⟩)
    · exact h
    · omega
    · exact absurd htags h
  · have he' : tags e = [] → ¬ commaGroups e ≤ 1 := fun h h' => he (trim_eq_nil_iff.2 ⟨h, h'⟩)
    rw [if_neg he]
    by_cases hb : base.strip = []
    · -- the prompt is the tags of the user, trimmed once
      obtain ⟨htags, hgroups⟩ := strip_eq_nil_iff_tags.1 hb
      rw [if_pos hb, trim_iff hextra.trim, commaGroups_trim]
      refine ⟨fun h => .inr (.inl ⟨htags, hgroups, by omega⟩), ?_⟩
      rintro (⟨h, h', -⟩ | ⟨-, -, h⟩ | ⟨-, -, h⟩)
      · exact absurd h' (he' h)
      · omega
      · omega
    · -- the base prompt keeps its commas, and the tags of the user are trimmed twice
      have hb' : commaGroups base = 0 → tags base ≠ [] := fun h h' =>
        hb (strip_eq_nil_iff_tags.2 ⟨h', h⟩)
      have hsplit := pieces_trim_join hb (strip_strip base) he (strip_strip _)
      have hne : trim (base.strip ++ ", ".toList ++ trim e) ≠ [] := fun h => by
        rw [h] at hsplit
        have hlen : 1 = (pieces base.strip).length + (pieces (trim (trim e))).length := by
          rw [← List.length_append, ← hsplit]
          rfl
        have h₁ := List.length_pos_of_ne_nil (pieces_ne_nil base.strip)
        have h₂ := List.length_pos_of_ne_nil (pieces_ne_nil (trim (trim e)))
        omega
      rw [if_neg hb, or_iff_right hne, hsplit, List.mem_append, not_or, pieces_strip,
        nil_notMem_pieces_iff hbase, nil_notMem_pieces_iff hextra.trim.trim, tags_trim, tags_trim,
        commaGroups_trim, commaGroups_trim]
      constructor
      · rintro ⟨⟨-, h⟩, h', h''⟩
        exact .inr (.inr ⟨h', h, by omega⟩)
      · rintro (⟨h, h', -⟩ | ⟨h, h', -⟩ | ⟨h, h', h''⟩)
        · exact absurd h' (he' h)
        · exact absurd h (hb' h')
        · exact ⟨⟨hb' h', h'⟩, h, by omega⟩

/-- **The text sent to ComfyUI** has the quality tags, those of the model and those of the
user, and no empty piece, exactly when the inputs compose. -/
theorem pieces_sent_iff (base : Str) (extra : Option Str) (hbase : Tidy base)
    (hextra : Tidy (extra.getD [])) :
    (pieces (withQualityPrefix (combineImagePrompt base extra)) =
        tags qualityPrefix ++ tags base ++ tags (extra.getD []) ∧
      [] ∉ pieces (withQualityPrefix (combineImagePrompt base extra))) ↔
      Composes base (extra.getD []) := by
  rw [← tags_sent, pieces_eq_tags_iff, and_self, nil_notMem_pieces_withQualityPrefix,
    trim_combineImagePrompt_iff hbase hextra]

theorem pieces_sent_tags :
    pieces (withQualityPrefix (combineImagePrompt " rain , moon".toList (some " sayori, ".toList))) =
      tags qualityPrefix ++ ["rain".toList, "moon".toList] ++ ["sayori".toList] :=
  ((pieces_sent_iff " rain , moon".toList (some " sayori, ".toList) (by decide) (by decide)).2
    (.inr (.inr (by decide)))).1

/-- A base prompt that ends in a comma, and a tag after it. -/
theorem pieces_sent_comma :
    Tidy "rain,".toList ∧ Tidy "moon".toList ∧
      pieces (withQualityPrefix (combineImagePrompt "rain,".toList (some "moon".toList))) ≠
        tags qualityPrefix ++ tags "rain,".toList ++ tags "moon".toList ∧
      [] ∈ pieces (withQualityPrefix (combineImagePrompt "rain,".toList (some "moon".toList))) := by
  decide +kernel

end PoetryGenerator
