/-
# The form of the Home page (`frontend/app/page.tsx` and `frontend/app/i18n.tsx`)

The form has a theme, which is typed or put together from chips; an image with a model
and extra tags; and an audio, which is asked for only in a language that the API said it
can voice.  The answers of `GET /api/models` and `GET /api/tts/capabilities` may come at
any time, or not at all, and the language of the page may change at any time.

Whatever the user does, the body of `POST /api/generate` passes the validation of the API
and names a model of its catalogue (`form_request_accepted`), if the name is not too long.
And when every poem is asked for with the form, no audio is asked for that the worker
refuses (`form_audio_spoken`).
-/

import Mathlib.Algebra.Order.BigOperators.Group.List
import Mathlib.Data.Finset.Card
import PoetryGenerator.ModelChoice
import PoetryGenerator.TtsCapabilities

namespace PoetryGenerator

/-! ### The languages of the page -/

/-- `Lang`. -/
inductive Lang
  | en
  | ja
deriving DecidableEq, Repr

/-- The text of a language. -/
def Lang.value : Lang → Str
  | en => "en".toList
  | ja => "ja".toList

/-- `DEFAULT_LANG`. -/
def defaultLang : Lang := .ja

/-- `resolveLang`. -/
def resolveLang (value : Option Str) : Lang :=
  if value = some "en".toList then .en else if value = some "ja".toList then .ja else defaultLang

/-! ### Theme suggestions -/

/-- `THEME_POOL`. -/
def themePool : Lang → List Str
  | .ja =>
    ["バラ", "蛍", "花火", "虹", "海", "夕焼け", "陽だまり", "花", "音楽", "冒険",
      "宝物", "思い出", "幸せ", "希望", "笑顔", "親友", "約束", "抱擁", "温もり", "幼い日",
      "白昼夢", "涙", "悲しみ", "孤独", "夢", "幻想", "檻", "憂鬱", "執着", "深紅",
      "永遠", "無限", "宇宙", "運命", "旋風", "渇望", "星空", "月明かり", "雨", "雨雲",
      "風景", "肖像", "苦悶", "絶望", "恐怖", "悪夢", "不安", "ナイフ", "片想い", "沈黙",
      "リボン", "パフェ", "いちご", "ピンク", "バニラ", "キャンディ", "マシュマロ", "チョコレート",
      "カップケーキ", "うさぎ",
      "子猫", "子犬", "かわいい", "ふわふわ", "きらめき", "どきどき", "メロディー", "しゃぼん玉", "砂糖", "夏",
      "パステル", "放課後の教室", "文芸部", "現実の裂け目"].map String.toList
  | .en =>
    ["Rose", "Firefly", "Fireworks", "Rainbow", "Sea", "Sunset", "Sunshine", "Flower", "Music", "Adventure",
      "Treasure", "Memory", "Happiness", "Hope", "Smile", "Best friends", "A promise", "Embrace", "Warmth",
      "Childhood",
      "Daydream", "Tears", "Sorrow", "Loneliness", "Dream", "Fantasy", "A cage", "Melancholy", "Obsession",
      "Crimson",
      "Eternity", "Infinity", "The universe", "Fate", "Whirlwind", "Craving", "Starry sky", "Moonlight", "Rain",
      "Rain cloud",
      "Scenery", "A portrait", "Agony", "Despair", "Horror", "Nightmare", "Anxiety", "A knife",
      "Unrequited love", "Silence",
      "Ribbon", "Parfait", "Strawberry", "Pink", "Vanilla", "Candy", "Marshmallow", "Chocolate", "Cupcakes",
      "Rabbit",
      "Kitten", "Puppy", "Cute", "Fluffy", "Sparkle", "Doki-doki", "Melody", "Bubbles", "Sugar", "Summer",
      "Pastel colors", "After-school classroom", "Literature club", "A crack in reality"].map String.toList

/-- The loop of `pickThemeSuggestions`, with what `Math.floor(Math.random() * pool.length)` draws;
nothing while it has to draw again. -/
def pick (pool : List Str) (count : ℕ) : List (Fin pool.length) → List Str → List (Fin pool.length) →
    Option (List Str)
  | _, picked, [] => if picked.length < count then none else some picked
  | used, picked, i :: draws =>
    if picked.length < count then
      if used.contains i then pick pool count used picked draws
      else pick pool count (used ++ [i]) (picked ++ [pool.get i]) draws
    else some picked

/-- `pickThemeSuggestions`. -/
def pickThemeSuggestions (lang : Lang) (n : ℕ) (draws : List (Fin (themePool lang).length)) :
    Option (List Str) :=
  pick (themePool lang) (min n (themePool lang).length) [] [] draws

/-- `SUGGESTION_COUNT`. -/
def suggestionCount : ℕ := 10

/-! ### The form -/

/-- The ids of `CHARACTERS`. -/
def characterIds : List Str := ["sayori".toList, "natsuki".toList, "yuri".toList, "monika".toList]

/-- `canVoiceLang`. -/
def canVoiceLang (ttsLangs : List Str) (lang : Str) : Bool := ttsLangs.contains lang

/-- The white space that `trim()` of JavaScript takes off. -/
def isTrimmed (c : Char) : Bool :=
  let n := c.toNat
  (9 ≤ n && n ≤ 13) || n = 0x20 || n = 0xa0 || n = 0x1680 || (0x2000 ≤ n && n ≤ 0x200a) || n = 0x2028 ||
    n = 0x2029 || n = 0x202f || n = 0x205f || n = 0x3000 || n = 0xfeff

/-- `s.trim()`. -/
def Form.trim (s : Str) : Str := (s.dropWhile isTrimmed).rdropWhile isTrimmed

/-- The length of a text in JavaScript, which `maxLength` bounds. -/
def utf16Length (s : Str) : ℕ := (s.map fun c => if 0x10000 ≤ c.toNat then 2 else 1).sum

/-- The answer of `list_models`. -/
structure ModelList where
  default : Str
  models : List ImageModels.ImageModel

/-- `list_models`. -/
def listModels (env : Env) : ModelList := ⟨ImageModels.defaultName env, ImageModels.catalog env⟩

/-- The state of the form. -/
structure Form where
  lang : Lang
  character : Str := "monika".toList
  theme : Str := []
  genImage : Bool := true
  imagePrompt : Str := []
  genAudio : Bool := true
  models : List ImageModels.ImageModel := []
  model : Str := []
  ttsLangs : List Str := ["en".toList]
  suggestions : List Str
  selected : List Str := []

/-- What is posted to `/api/generate`. -/
structure RequestBody where
  character : Str
  theme : Option Str
  lang : Str
  generateImage : Bool
  generateAudio : Bool
  model : Option Str
  imagePromptExtra : Option Str
deriving DecidableEq

namespace Form

/-- An event of the form. -/
inductive Label
  | setCharacter (id : Str)
  | toggleSuggestion (s : Str)
  | typeTheme (s : Str)
  | setGenImage (b : Bool)
  | setGenAudio (b : Bool)
  | typeImagePrompt (s : Str)
  | pickModel (name : Str)
  /-- The language of the page is set; where it is another one, the chips are drawn anew. -/
  | setLang (l : Lang) (draws : List (Fin (themePool l).length))
  /-- `GET /api/models` is answered by the API, or fails. -/
  | models (ok : Bool)
  /-- `GET /api/tts/capabilities` is answered by the API, or fails. -/
  | capabilities (ok : Bool)

/-- The page after its first effects, for the language of the cookie. -/
def mount (cookie : Option Str) (draws : List (Fin (themePool (resolveLang cookie)).length)) : Option Form :=
  (pickThemeSuggestions (resolveLang cookie) suggestionCount draws).map fun suggestions =>
    { lang := resolveLang cookie, suggestions }

/-- What joins the chips. -/
def separator : Lang → Str
  | .ja => "、".toList
  | .en => ", ".toList

/-- `toggleSuggestion`. -/
def toggle (s : Form) (chip : Str) : Form :=
  let next := if s.selected.contains chip then s.selected.filter (· ≠ chip) else s.selected ++ [chip]
  { s with selected := next, theme := (separator s.lang).intercalate next }

/-- One event.  The chips, the models and the tags can be used while they are shown, and a field
takes no more than its `maxLength`. -/
def step (lower : Lowercase) (env : Env) (s : Form) : Label → Option Form
  | .setCharacter id => if characterIds.contains id then some { s with character := id } else none
  | .toggleSuggestion chip => if s.suggestions.contains chip then some (s.toggle chip) else none
  | .typeTheme text =>
    if utf16Length text ≤ 200 then some { s with theme := text, selected := [] } else none
  | .setGenImage b => some { s with genImage := b }
  | .setGenAudio b => some { s with genAudio := b }
  | .typeImagePrompt text =>
    if s.genImage ∧ utf16Length text ≤ 500 then some { s with imagePrompt := text } else none
  | .pickModel name =>
    if s.genImage ∧ (s.models.map (·.name)).contains name then some { s with model := name } else none
  | .setLang l draws =>
    if s.lang = l then some s
    else (pickThemeSuggestions l suggestionCount draws).map fun suggestions =>
      { s with lang := l, suggestions, selected := [] }
  | .models ok =>
    some (if ok then { s with models := (listModels env).models, model := (listModels env).default } else s)
  | .capabilities ok =>
    let answer := (ttsCapabilities lower env).langs
    some (if ok ∧ answer ≠ [] then { s with ttsLangs := answer } else s)

/-- `x || null`. -/
def orNull (s : Str) : Option Str := if s = [] then none else some s

/-- The body that `generate` posts. -/
def body (s : Form) : RequestBody where
  character := s.character
  theme := orNull s.theme
  lang := s.lang.value
  generateImage := s.genImage
  generateAudio := s.genAudio && canVoiceLang s.ttsLangs s.lang.value
  model := orNull s.model
  imagePromptExtra := if s.genImage then orNull (trim s.imagePrompt) else none

end Form

/-- The member of the enumeration with a value. -/
def Character.ofValue (value : Str) : Option Character :=
  [sayori, natsuki, yuri, monika].find? fun c => c.value = value

/-- The validation of `GenerateRequest`; nothing is the status 422. -/
def RequestBody.validate (b : RequestBody) : Option GenerateRequest :=
  (Character.ofValue b.character).bind fun character =>
    if h : (∀ s ∈ b.theme, s.length ≤ 200) ∧ langs.contains b.lang = true ∧ (∀ s ∈ b.model, s.length ≤ 200) ∧
        ∀ s ∈ b.imagePromptExtra, s.length ≤ 500 then
      some
        { character
          theme := b.theme
          theme_le := h.1
          lang := b.lang
          lang_mem := List.contains_iff_mem.1 h.2.1
          generateImage := b.generateImage
          generateAudio := b.generateAudio
          model := b.model
          model_le := h.2.2.1
          imagePromptExtra := b.imagePromptExtra
          imagePromptExtra_le := h.2.2.2 }
    else none

/-! ### The chips -/

section Pick
variable {pool : List Str} {count : ℕ}

/-- What the loop picks: entries at different indices, as many as it is to pick. -/
theorem pick_spec {used : List (Fin pool.length)} {picked : List Str} {draws : List (Fin pool.length)}
    {r : List Str} (h : pick pool count used picked draws = some r) (hpicked : picked = used.map pool.get)
    (hused : used.Nodup) (hle : picked.length ≤ count) :
    ∃ idx : List (Fin pool.length), idx.Nodup ∧ r = idx.map pool.get ∧ r.length = count := by
  induction draws generalizing used picked with
  | nil =>
      rw [pick] at h
      split_ifs at h with hlt
      obtain rfl := Option.some.inj h
      exact ⟨used, hused, hpicked, Nat.le_antisymm hle (Nat.le_of_not_lt hlt)⟩
  | cons i draws ih =>
      rw [pick] at h
      split_ifs at h with hlt hi
      · exact ih h hpicked hused hle
      · have hi : i ∉ used := fun hmem => hi (List.contains_iff_mem.2 hmem)
        refine ih h ?_ (hused.append (List.nodup_singleton i) ?_) ?_
        · rw [hpicked, List.map_append, List.map_singleton]
        · exact List.disjoint_singleton.2 hi
        · rw [List.length_append, List.length_singleton]
          exact hlt
      · obtain rfl := Option.some.inj h
        exact ⟨used, hused, hpicked, Nat.le_antisymm hle (Nat.le_of_not_lt hlt)⟩

/-- The loop ends as soon as it has drawn enough indices. -/
theorem pick_isSome {used : List (Fin pool.length)} {picked : List Str} {draws : List (Fin pool.length)}
    (hlen : picked.length = used.length) (hused : used.Nodup)
    (h : count ≤ (used ++ draws).toFinset.card) : (pick pool count used picked draws).isSome := by
  induction draws generalizing used picked with
  | nil =>
      rw [List.append_nil, List.toFinset_card_of_nodup hused, ← hlen] at h
      rw [pick, if_neg (Nat.not_lt.2 h)]
      rfl
  | cons i draws ih =>
      rw [pick]
      split_ifs with hlt hi
      · refine ih hlen hused (h.trans_eq (congrArg _ ?_))
        have hmem : i ∈ used := List.contains_iff_mem.1 hi
        ext j
        simp only [List.mem_toFinset, List.mem_append, List.mem_cons]
        grind
      · have hi : i ∉ used := fun hmem => hi (List.contains_iff_mem.2 hmem)
        refine ih ?_ (hused.append (List.nodup_singleton i) (List.disjoint_singleton.2 hi)) ?_
        · rw [List.length_append, List.length_append, hlen]
          rfl
        · rwa [List.append_assoc, List.singleton_append]
      · rfl

end Pick

/-- **The suggestions** are different entries of the pool of the language. -/
theorem pickThemeSuggestions_spec {lang : Lang} {n : ℕ} {draws : List (Fin (themePool lang).length)}
    {r : List Str} (h : pickThemeSuggestions lang n draws = some r) :
    ∃ idx : List (Fin (themePool lang).length), idx.Nodup ∧ r = idx.map (themePool lang).get ∧
      r.length = min n (themePool lang).length :=
  pick_spec h rfl List.nodup_nil (Nat.zero_le _)

theorem length_themePool (lang : Lang) : (themePool lang).length = 74 := by
  cases lang <;> rfl

/-! ### The texts -/

theorem length_le_utf16Length (s : Str) : s.length ≤ utf16Length s := by
  induction s with
  | nil => exact Nat.le_refl 0
  | cons c s ih =>
      rw [utf16Length, List.map_cons, List.sum_cons, List.length_cons, Nat.add_comm]
      refine Nat.add_le_add ?_ ih
      split_ifs <;> decide

theorem Form.length_trim_le (s : Str) : (trim s).length ≤ s.length := by
  have hsub : (trim s).Sublist s :=
    (List.rdropWhile_prefix _ _).sublist.trans (List.dropWhile_suffix _).sublist
  exact hsub.length_le

/-- The texts of a join, with a separator after each. -/
theorem length_intercalate (sep : Str) (l : List Str) :
    (sep.intercalate l).length ≤ (l.map fun s => s.length + sep.length).sum := by
  induction l with
  | nil => exact Nat.le_refl 0
  | cons s l ih =>
      cases l with
      | nil =>
          rw [List.intercalate_singleton, List.map_singleton, List.sum_singleton]
          exact Nat.le_add_right ..
      | cons s' l =>
          rw [List.intercalate_cons_cons, List.map_cons, List.sum_cons, List.length_append,
            List.length_append]
          exact Nat.add_le_add_left ih _

/-- Few chips are longer than 13 characters, and none by much. -/
theorem sum_excess_le (lang : Lang) : ((themePool lang).map fun s => s.length - 13).sum ≤ 18 := by
  cases lang <;> decide

/-- **Ten chips are no longer than a theme may be.** -/
theorem length_join_le {lang : Lang} {l : List Str} (hnodup : l.Nodup) (hsub : l ⊆ themePool lang)
    (hlen : l.length ≤ suggestionCount) : ((Form.separator lang).intercalate l).length ≤ 200 := by
  have hsep : (Form.separator lang).length ≤ 2 := by cases lang <;> decide
  have hexcess : (l.map fun s => s.length - 13).sum ≤ 18 := by
    obtain ⟨l', hperm, hsubl⟩ := hnodup.subperm hsub
    rw [← (hperm.map _).sum_eq]
    exact ((hsubl.map _).sum_le_sum fun _ _ => Nat.zero_le _).trans (sum_excess_le lang)
  have hsum : (l.map fun s => s.length + (Form.separator lang).length).sum ≤
      (l.map fun s => s.length - 13).sum + 15 * l.length := by
    clear hexcess hnodup hsub hlen
    induction l with
    | nil => exact Nat.le_refl 0
    | cons s l ih =>
        simp only [List.map_cons, List.sum_cons, List.length_cons]
        omega
  have hten : suggestionCount = 10 := rfl
  have hjoin := length_intercalate (Form.separator lang) l
  omega

/-! ### Every run of the form -/

namespace Form

/-- The chips are different entries of the pool, and those that are highlighted make up the theme. -/
structure Chips (lang : Lang) (theme : Str) (suggestions selected : List Str) : Prop where
  drawn : ∃ idx : List (Fin (themePool lang).length), idx.Nodup ∧
    suggestions = idx.map (themePool lang).get ∧ suggestions.length = suggestionCount
  nodup : selected.Nodup
  shown : ∀ chip ∈ selected, chip ∈ suggestions
  composed : selected ≠ [] → theme = (separator lang).intercalate selected

/-- **The invariant.** -/
structure Ok (lower : Lowercase) (env : Env) (s : Form) : Prop where
  chips : Chips s.lang s.theme s.suggestions s.selected
  character : s.character ∈ characterIds
  theme : s.theme.length ≤ 200
  imagePrompt : s.imagePrompt.length ≤ 500
  models : ∀ m ∈ s.models, m ∈ ImageModels.catalog env
  model : s.model = [] ∨ ∃ m ∈ ImageModels.catalog env, m.name = s.model
  ttsLangs : ∀ l ∈ s.ttsLangs, l ∈ (ttsCapabilities lower env).langs

variable {lower : Lowercase} {env : Env} {s s' : Form} {l : Label} {ls : List Label}

section Chips
variable {lang : Lang} {theme : Str} {suggestions selected : List Str}

/-- Chips that were drawn, none of which is selected. -/
theorem chips_of_pick {draws : List (Fin (themePool lang).length)}
    (h : pickThemeSuggestions lang suggestionCount draws = some suggestions) :
    Chips lang theme suggestions [] := by
  obtain ⟨idx, hnodup, hr, hlen⟩ := pickThemeSuggestions_spec h
  refine ⟨⟨idx, hnodup, hr, ?_⟩, List.nodup_nil, fun chip h => absurd h List.not_mem_nil,
    fun h => absurd rfl h⟩
  rw [hlen, length_themePool]
  rfl

theorem Chips.mem_pool (h : Chips lang theme suggestions selected) {chip : Str} (hc : chip ∈ suggestions) :
    chip ∈ themePool lang := by
  obtain ⟨idx, -, heq, -⟩ := h.drawn
  rw [heq] at hc
  obtain ⟨i, -, rfl⟩ := List.mem_map.1 hc
  exact List.get_mem ..

/-- What is selected is no longer than a theme may be. -/
theorem Chips.length_join_le (h : Chips lang theme suggestions selected) :
    ((separator lang).intercalate selected).length ≤ 200 := by
  obtain ⟨-, -, -, hlen⟩ := h.drawn
  refine PoetryGenerator.length_join_le h.nodup (fun chip hc => h.mem_pool (h.shown chip hc)) ?_
  rw [← hlen]
  exact (h.nodup.subperm h.shown).length_le

end Chips

/-- What is selected after a chip was toggled is still shown, each chip once. -/
theorem chips_toggle (h : Chips s.lang s.theme s.suggestions s.selected) {chip : Str}
    (hchip : chip ∈ s.suggestions) :
    Chips s.lang (s.toggle chip).theme s.suggestions (s.toggle chip).selected where
  drawn := h.drawn
  nodup := by
    simp only [Form.toggle]
    split_ifs with hc
    · exact h.nodup.filter _
    · have hc : chip ∉ s.selected := fun hmem => hc (List.contains_iff_mem.2 hmem)
      exact h.nodup.append (List.nodup_singleton chip) (List.disjoint_singleton.2 hc)
  shown := by
    simp only [Form.toggle]
    split_ifs
    · exact fun c hc => h.shown c (List.mem_filter.1 hc).1
    · intro c hc
      rcases List.mem_append.1 hc with hc | hc
      · exact h.shown c hc
      · exact List.mem_singleton.1 hc ▸ hchip
  composed _ := rfl

/-- English is always advertised. -/
theorem en_mem_langs (lower : Lowercase) (env : Env) : "en".toList ∈ (ttsCapabilities lower env).langs := by
  have hpiper : "en".toList ∈ piperLangs := by decide
  have hxtts : "en".toList ∈ xttsLangs := by decide
  rw [ttsCapabilities, mem_sorted, supportedAudioLangs]
  split_ifs <;> simp only [List.mem_append, hpiper, hxtts, true_or]

theorem ok_mount {cookie : Option Str} {draws : List (Fin (themePool (resolveLang cookie)).length)}
    (h : mount cookie draws = some s) : s.Ok lower env := by
  obtain ⟨suggestions, hpick, rfl⟩ := Option.map_eq_some_iff.1 h
  exact
    { chips := chips_of_pick hpick
      character := (by decide : "monika".toList ∈ characterIds)
      theme := Nat.zero_le _
      imagePrompt := Nat.zero_le _
      models := fun m hm => absurd hm List.not_mem_nil
      model := .inl rfl
      ttsLangs := fun l hl => List.mem_singleton.1 hl ▸ en_mem_langs lower env }

/-- **Step lemma.** -/
theorem Ok.step (hs : s.Ok lower env) (h : s.step lower env l = some s') : s'.Ok lower env := by
  cases l with
  | setCharacter id =>
      simp only [Form.step] at h
      split_ifs at h with hid
      obtain rfl := Option.some.inj h
      exact { hs with character := List.contains_iff_mem.1 hid }
  | toggleSuggestion chip =>
      simp only [Form.step] at h
      split_ifs at h with hc
      obtain rfl := Option.some.inj h
      have hc := List.contains_iff_mem.1 hc
      have hchips := chips_toggle hs.chips hc
      exact { hs with chips := hchips, theme := hchips.length_join_le }
  | typeTheme text =>
      simp only [Form.step] at h
      split_ifs at h with hlen
      obtain rfl := Option.some.inj h
      exact { hs with
        chips :=
          { drawn := hs.chips.drawn
            nodup := List.nodup_nil
            shown := fun chip h => absurd h List.not_mem_nil
            composed := fun h => absurd rfl h }
        theme := (length_le_utf16Length text).trans hlen }
  | setGenImage b =>
      obtain rfl := Option.some.inj h
      exact { hs with }
  | setGenAudio b =>
      obtain rfl := Option.some.inj h
      exact { hs with }
  | typeImagePrompt text =>
      simp only [Form.step] at h
      split_ifs at h with hlen
      obtain rfl := Option.some.inj h
      exact { hs with imagePrompt := (length_le_utf16Length text).trans hlen.2 }
  | pickModel name =>
      simp only [Form.step] at h
      split_ifs at h with hm
      obtain rfl := Option.some.inj h
      obtain ⟨m, hmem, hname⟩ := List.mem_map.1 (List.contains_iff_mem.1 hm.2)
      exact { hs with model := .inr ⟨m, hs.models m hmem, hname⟩ }
  | setLang lang draws =>
      simp only [Form.step] at h
      split_ifs at h with hl
      · obtain rfl := Option.some.inj h
        exact hs
      · obtain ⟨suggestions, hpick, rfl⟩ := Option.map_eq_some_iff.1 h
        exact { hs with chips := chips_of_pick hpick }
  | models ok =>
      obtain rfl := Option.some.inj h
      split_ifs
      · exact { hs with models := fun _ hm => hm, model := .inr (ImageModels.default_mem env) }
      · exact hs
  | capabilities ok =>
      obtain rfl := Option.some.inj h
      split_ifs
      · exact { hs with ttsLangs := fun _ hl => hl }
      · exact hs

/-- **Run lemma.** -/
theorem run_ok {cookie : Option Str} {draws : List (Fin (themePool (resolveLang cookie)).length)} {s₀ : Form}
    (h₀ : mount cookie draws = some s₀) (hr : Runs.run (step lower env) s₀ ls = some s) : s.Ok lower env :=
  Runs.run_invariant (P := fun _ _ => True) (fun _ _ _ hs _ h => hs.step h) (ok_mount h₀)
    (Runs.along_of_forall fun _ _ _ => trivial) hr

/-- `x || null` is bounded by the bound of the field. -/
theorem forall_orNull {s : Str} {n : ℕ} : (∀ t ∈ orNull s, t.length ≤ n) ↔ s.length ≤ n := by
  unfold orNull
  split_ifs with h
  · rw [h]
    exact iff_of_true (fun t ht => nomatch ht) (Nat.zero_le n)
  · exact ⟨fun ht => ht s rfl, fun hs t ht => Option.some.inj ht ▸ hs⟩

end Form

theorem Character.ofValue_isSome_iff {value : Str} : (ofValue value).isSome ↔ value ∈ characterIds := by
  have hids : characterIds = [sayori, natsuki, yuri, monika].map Character.value := rfl
  rw [ofValue, List.find?_isSome, hids, List.mem_map]
  simp only [decide_eq_true_eq]

/-- Which bodies are valid. -/
theorem RequestBody.validate_isSome_iff {b : RequestBody} : b.validate.isSome ↔
    b.character ∈ characterIds ∧ (∀ s ∈ b.theme, s.length ≤ 200) ∧ b.lang ∈ langs ∧
      (∀ s ∈ b.model, s.length ≤ 200) ∧ ∀ s ∈ b.imagePromptExtra, s.length ≤ 500 := by
  rw [← Character.ofValue_isSome_iff, ← List.contains_iff_mem, validate]
  cases Character.ofValue b.character with
  | none => exact iff_of_false Bool.false_ne_true fun h => absurd h.1 Bool.false_ne_true
  | some c =>
      rw [Option.bind_some]
      split_ifs with h
      · exact iff_of_true rfl ⟨rfl, h⟩
      · exact iff_of_false Bool.false_ne_true fun h' => h h'.2

/-- The request has the values of the body. -/
theorem RequestBody.validate_spec {b : RequestBody} {req : GenerateRequest} (h : b.validate = some req) :
    req.lang = b.lang ∧ req.generateAudio = b.generateAudio ∧ req.model = b.model := by
  obtain ⟨c, -, hreq⟩ := Option.bind_eq_some_iff.1 h
  split_ifs at hreq
  obtain rfl := Option.some.inj hreq
  exact ⟨rfl, rfl, rfl⟩

namespace Form

variable {lower : Lowercase} {env : Env} {s : Form} {req : GenerateRequest}

/-- **What the API makes of the body.** -/
theorem Ok.validate_isSome_iff (hs : s.Ok lower env) : s.body.validate.isSome ↔ s.model.length ≤ 200 := by
  have hlang : s.lang.value ∈ langs := by cases s.lang <;> decide
  have hextra : ∀ t ∈ s.body.imagePromptExtra, t.length ≤ 500 := by
    rw [body]
    split_ifs
    · exact forall_orNull.2 ((length_trim_le _).trans hs.imagePrompt)
    · exact fun t ht => nomatch ht
  rw [RequestBody.validate_isSome_iff]
  constructor
  · rintro ⟨-, -, -, hmodel, -⟩
    exact forall_orNull.1 hmodel
  · exact fun hmodel => ⟨hs.character, forall_orNull.2 hs.theme, hlang, forall_orNull.2 hmodel, hextra⟩

/-- The model is one the API resolves. -/
theorem Ok.resolve_isSome (hs : s.Ok lower env) (h : s.body.validate = some req) :
    (ImageModels.resolve req.model env).isSome := by
  rw [(RequestBody.validate_spec h).2.2, ImageModels.resolve_isSome_iff]
  simp only [body, orNull]
  split_ifs with hm
  · exact .inl rfl
  · obtain ⟨m, hmem, hname⟩ := hs.model.resolve_left hm
    exact .inr ⟨m, hmem, congrArg some hname.symm⟩

/-- The audio is one that the worker can make. -/
theorem Ok.lang_mem (hs : s.Ok lower env) (h : s.body.validate = some req) (haudio : req.generateAudio = true) :
    req.lang ∈ (ttsCapabilities lower env).langs := by
  obtain ⟨hlang, hgen, -⟩ := RequestBody.validate_spec h
  rw [hgen, body, Bool.and_eq_true] at haudio
  rw [hlang]
  exact hs.ttsLangs _ (List.contains_iff_mem.1 haudio.2)

end Form

/-- **The API accepts what the form posts**, unless the name of the model is too long for its
field: the body is valid, the model is in the catalogue, and an audio is asked for only in a
language that is advertised. -/
theorem form_request_accepted {lower : Lowercase} {env : Env} {cookie : Option Str}
    {draws : List (Fin (themePool (resolveLang cookie)).length)} {s₀ s : Form} {ls : List Form.Label}
    (h₀ : Form.mount cookie draws = some s₀) (hr : Runs.run (Form.step lower env) s₀ ls = some s) :
    (s.body.validate.isSome ↔ s.model.length ≤ 200) ∧
    ∀ req, s.body.validate = some req → (∀ result, (req.persistArgs env result).isSome) ∧
      (req.generateAudio = true → req.lang ∈ (ttsCapabilities lower env).langs) := by
  have hok : s.Ok lower env := Form.run_ok h₀ hr
  refine ⟨hok.validate_isSome_iff, fun req h => ⟨fun result => ?_, hok.lang_mem h⟩⟩
  rw [GenerateRequest.persistArgs, Option.isSome_map]
  exact hok.resolve_isSome h

namespace Sample

/-- The chips are drawn in the order of the pool. -/
def inOrder (lang : Lang) : List (Fin (themePool lang).length) :=
  (List.range 10).pmap Fin.mk fun i hi => by
    rw [length_themePool]
    exact Nat.lt_trans (List.mem_range.1 hi) (by decide)

/-- Two chips are toggled and the second again, and the language is changed. -/
def chosen : List Form.Label :=
  [.models true, .toggleSuggestion "蛍".toList, .toggleSuggestion "海".toList, .toggleSuggestion "蛍".toList,
    .typeImagePrompt " cherry blossoms ".toList, .setLang .en (inOrder .en), .capabilities true,
    .toggleSuggestion "Sea".toList]

end Sample

/-- A form that was filled in. -/
theorem form_request_chosen : ∃ s₀ s, Form.mount none (Sample.inOrder .ja) = some s₀ ∧
    Runs.run (Form.step .ascii fun _ => none) s₀ Sample.chosen = some s ∧
      s.body.theme = some "Sea".toList ∧ s.body.imagePromptExtra = some "cherry blossoms".toList ∧
        s.body.validate.isSome := by
  have hrun : ∃ s₀ s, Form.mount none (Sample.inOrder .ja) = some s₀ ∧
      Runs.run (Form.step .ascii fun _ => none) s₀ Sample.chosen = some s ∧
        s.body.theme = some "Sea".toList ∧ s.body.imagePromptExtra = some "cherry blossoms".toList ∧
          s.model.length ≤ 200 := ⟨_, _, rfl, rfl, rfl, rfl, by decide⟩
  obtain ⟨s₀, s, h₀, hr, htheme, hextra, hmodel⟩ := hrun
  exact ⟨s₀, s, h₀, hr, htheme, hextra, (form_request_accepted h₀ hr).1.2 hmodel⟩

/-! ### The chips and the theme -/

theorem nodup_themePool (lang : Lang) : (themePool lang).Nodup := by
  cases lang <;> decide +kernel

/-- **The chips tell the theme.**  Ten different chips of the language are shown, those that are
highlighted are among them, and joined they are the theme; and a change of the language ends as
soon as ten different numbers were drawn. -/
theorem chips_compose_theme {lower : Lowercase} {env : Env} {cookie : Option Str}
    {draws : List (Fin (themePool (resolveLang cookie)).length)} {s₀ s : Form} {ls : List Form.Label}
    (h₀ : Form.mount cookie draws = some s₀) (hr : Runs.run (Form.step lower env) s₀ ls = some s) :
    (s.suggestions.Nodup ∧ s.suggestions.length = suggestionCount ∧
      ∀ chip ∈ s.suggestions, chip ∈ themePool s.lang) ∧
    (s.selected.Nodup ∧ (∀ chip ∈ s.selected, chip ∈ s.suggestions) ∧
      (s.selected ≠ [] → s.theme = (Form.separator s.lang).intercalate s.selected)) ∧
    ∀ lang draws', suggestionCount ≤ draws'.toFinset.card →
      (s.step lower env (.setLang lang draws')).isSome := by
  have hchips := (Form.run_ok h₀ hr : s.Ok lower env).chips
  refine ⟨⟨?_, ?_, fun chip => hchips.mem_pool⟩, ⟨hchips.nodup, hchips.shown, hchips.composed⟩, ?_⟩
  · obtain ⟨idx, hnodup, heq, -⟩ := hchips.drawn
    rw [heq]
    exact hnodup.map (List.nodup_iff_injective_get.1 (nodup_themePool s.lang))
  · obtain ⟨-, -, -, hlen⟩ := hchips.drawn
    exact hlen
  · intro lang draws' hcard
    rw [Form.step]
    split_ifs
    · rfl
    · rw [Option.isSome_map]
      exact pick_isSome rfl List.nodup_nil ((Nat.min_le_left _ _).trans hcard)

/-- The theme of two highlighted chips. -/
theorem chips_compose_sea : ∃ s₀ s, Form.mount none (Sample.inOrder .ja) = some s₀ ∧
    Runs.run (Form.step .ascii fun _ => none) s₀
        [.toggleSuggestion "海".toList, .toggleSuggestion "蛍".toList] = some s ∧
      s.theme = "海、蛍".toList ∧ s.suggestions.Nodup := by
  have hrun : ∃ s₀ s, Form.mount none (Sample.inOrder .ja) = some s₀ ∧
      Runs.run (Form.step .ascii fun _ => none) s₀
          [.toggleSuggestion "海".toList, .toggleSuggestion "蛍".toList] = some s ∧
        s.theme = "海、蛍".toList := ⟨_, _, rfl, rfl, rfl⟩
  obtain ⟨s₀, s, h₀, hr, htheme⟩ := hrun
  exact ⟨s₀, s, h₀, hr, htheme, (chips_compose_theme h₀ hr).1.1⟩

/-! ### The form and the worker -/

/-- What is persisted for a request of the form. -/
def Asked (lower : Lowercase) (env : Env) (a : PersistArgs) : Prop :=
  ∃ cookie draws s₀ ls s req result, Form.mount cookie draws = some s₀ ∧
    Runs.run (Form.step lower env) s₀ ls = some s ∧ s.body.validate = some req ∧
      req.persistArgs env result = some a

/-- The worker has the environment of the API, and every poem is asked for with the form. -/
def VoiceLabel.FromForm (lower : Lowercase) (env : Env) : VoiceLabel → Prop
  | .start e => e = env
  | .other (.persist a _ _) => Asked lower env a
  | _ => True

theorem Asked.lang_mem {lower : Lowercase} {env : Env} {a : PersistArgs} (h : Asked lower env a)
    (haudio : a.generateAudio = true) :
    a.lang ∈ (ttsCapabilities lower env).langs := by
  obtain ⟨cookie, draws, s₀, ls, s, req, result, h₀, hr, hreq, ha⟩ := h
  obtain ⟨m, -, rfl⟩ := Option.map_eq_some_iff.1 ha
  exact (Form.run_ok h₀ hr).lang_mem hreq haudio

theorem VoiceLabel.FromForm.suits {lower : Lowercase} {env : Env} {l : VoiceLabel} (h : l.FromForm lower env) :
    l.Suits env (ttsCapabilities lower env).langs := by
  cases l with
  | start e => exact h
  | speak o => trivial
  | other l =>
      cases l with
      | persist a ids r => exact h.lang_mem
      | _ => trivial

theorem langs_subset (lower : Lowercase) (env : Env) : (ttsCapabilities lower env).langs ⊆ langs := by
  intro lang hlang
  rw [ttsCapabilities, mem_sorted, supportedAudioLangs] at hlang
  have hpiper : piperLangs ⊆ langs := by decide
  have hja : "ja".toList ∈ langs := by decide
  split_ifs at hlang
  all_goals try rcases List.mem_append.1 hlang with hlang | hlang
  all_goals first | exact hlang | exact hpiper hlang | exact List.mem_singleton.1 hlang ▸ hja

/-- **What the form asks for is spoken**: in every run in which all poems are asked for with the
form, no call of the synthesizer ends with `UnsupportedLanguageError`. -/
theorem form_audio_spoken {cfg : Config} {lower : Lowercase} {env : Env} {ls : List VoiceLabel} {s : Voicing}
    (hr : Runs.run (Voicing.step cfg) Voicing.init ls = some s) (hls : ∀ l ∈ ls, l.FromForm lower env)
    {session : Session .audio} (hpc : s.sys.workers .audio = .call session) {poem : Poem}
    (hp : s.sys.world.db.poem session.asset.cur.poemId = some poem) (o : SpeechOutcome) :
    ¬∃ exc attrs wrote, s.act cfg session (.spoken o) = .unsupported exc attrs wrote := by
  have hok : s.Advertised cfg lower env (ttsCapabilities lower env).langs :=
    Voicing.run_advertised (langs_subset lower env) hr fun l hl => (hls l hl).suits
  rw [hok.unsupported_iff (langs_subset lower env) hpc hp o, not_not]
  exact (hok.lang _ _ (Sys.hasAsset_of_call hpc)).1

namespace Sample

/-- An API with VOICEVOX. -/
def voicevox : Env := only "VOICEVOX_URL" "http://voicevox:50021"

/-- What is persisted when the form is submitted as it is. -/
def asked : PersistArgs :=
  { args with
    result := { args.result with character := "monika".toList }
    lang := "ja".toList
    model := some "claude-sonnet-4-6".toList
    imageCheckpoint := some "anything-v5.safetensors".toList }

theorem asked_voicevox : Asked .ascii voicevox asked :=
  ⟨none, inOrder .ja, _, [.capabilities true], _, _, args.result, rfl, rfl, rfl, rfl⟩

end Sample

/-- The form is submitted in Japanese. -/
theorem form_audio_japanese : ∃ s session, Runs.run (Voicing.step (Sample.config 1)) Voicing.init
      ([.other (.persist Sample.asked Sample.ids .ok), .other (.push 0 .ok), .other (.push 0 .ok)] ++
        Sample.calledIn Sample.voicevox) = some s ∧ s.sys.workers .audio = .call session ∧
    AudioAttrs.lang session.asset.cur.attrs = "ja".toList ∧
      ¬∃ exc attrs wrote, s.act (Sample.config 1) session (.spoken .returns) = .unsupported exc attrs wrote := by
  have hrun : ∃ s session poem, Runs.run (Voicing.step (Sample.config 1)) Voicing.init
      ([.other (.persist Sample.asked Sample.ids .ok), .other (.push 0 .ok), .other (.push 0 .ok)] ++
        Sample.calledIn Sample.voicevox) = some s ∧ s.sys.workers .audio = .call session ∧
        s.sys.world.db.poem session.asset.cur.poemId = some poem ∧
        AudioAttrs.lang session.asset.cur.attrs = "ja".toList := ⟨_, _, _, rfl, rfl, rfl, rfl⟩
  obtain ⟨s, session, poem, hr, hpc, hp, hlang⟩ := hrun
  have hls : ∀ l ∈ [.other (.persist Sample.asked Sample.ids .ok), .other (.push 0 .ok), .other (.push 0 .ok)] ++
      Sample.calledIn Sample.voicevox, l.FromForm .ascii Sample.voicevox := by
    simp [Sample.calledIn, VoiceLabel.FromForm, Sample.asked_voicevox]
  exact ⟨s, session, hr, hpc, hlang, form_audio_spoken hr hls hpc hp .returns⟩

end PoetryGenerator
