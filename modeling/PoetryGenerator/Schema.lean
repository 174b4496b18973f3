/-
# The schema of the database (`api/app/models.py` and the migrations)

The columns have CHECK constraints with the allowed values and lengths (`String(n)`),
which PostgreSQL enforces; spaces past the bound it cuts off (`Fits`).  A text is stored
as UTF-8, which has no lone surrogate, and never with a U+0000.  The enumerations of the
program cannot break any of this, but the texts of a reply, of a request and of the
configuration go into the columns as they come.

`rows_conform_iff` traces every column of the rows of `persist_poem` back to where its
value comes from.  The texts are those of a reply that `generate` accepts, so they are
code points; of a reply without lone surrogates the rows are those of `persistPoem`
(`texts_persistPoem`).
-/

import PoetryGenerator.ClaudeClient
import PoetryGenerator.Lib.Lists

namespace PoetryGenerator

/-! ### Values of the enumerations -/

/-- The value of an `AssetStatus`. -/
def AssetStatus.value : AssetStatus → Str
  | pending => "pending".toList
  | running => "running".toList
  | done => "done".toList
  | failed => "failed".toList

/-- The value of a `JobStatus`. -/
def JobStatus.value : JobStatus → Str
  | queued => "queued".toList
  | running => "running".toList
  | done => "done".toList
  | failed => "failed".toList

/-- The value of a `JobType`. -/
def JobType.value : JobType → Str
  | image => "image".toList
  | audio => "audio".toList

/-- The value of a `TtsBackend`. -/
def TtsBackend.value : TtsBackend → Str
  | piper => "piper".toList
  | xtts => "xtts".toList
  | voicevox => "voicevox".toList

/-! ### Columns -/

/-- The values of `ck_poems_character`. -/
def characters : List Str := ["sayori", "natsuki", "yuri", "monika"].map String.toList

/-- The values of `ck_images_status` and `ck_audios_status`. -/
def assetStatuses : List Str := ["pending", "running", "done", "failed"].map String.toList

/-- The values of `ck_jobs_status`. -/
def jobStatuses : List Str := ["queued", "running", "done", "failed"].map String.toList

/-- The values of `ck_jobs_type`. -/
def jobTypes : List Str := ["image", "audio"].map String.toList

/-- The values of `ck_audios_backend`. -/
def backends : List Str := ["piper", "xtts", "voicevox"].map String.toList

/-- A type of column for texts: `Text`, `String(n)`, and `String(n)` with a CHECK constraint. -/
inductive ColumnType
  | text
  | string (n : ℕ)
  | checked (n : ℕ) (values : List Str)

/-- What PostgreSQL stores as a text. -/
def Storable (s : CodePoints) : Prop := ∀ n ∈ s, n.isValidChar ∧ n ≠ 0

/-- What PostgreSQL makes fit `String(n)`: all that is past the bound are spaces. -/
def Fits (n : ℕ) (s : CodePoints) : Prop := ∀ c ∈ s.drop n, c = ' '.toNat

/-- What a column takes. -/
def ColumnType.Takes : ColumnType → CodePoints → Prop
  | text, s => Storable s
  | string n, s => Storable s ∧ Fits n s
  | checked n values, s => Storable s ∧ Fits n s ∧ s ∈ values.map Str.points

/-- A row has in each column a text that it takes, or null. -/
def Conforms (schema : List ColumnType) (row : List (Option CodePoints)) : Prop :=
  List.Forall₂ (fun c value => ∀ s ∈ value, c.Takes s) schema row

/-- The text columns of `poems`: character, theme, lang, title, title_ja, poem_en, poem_ja,
mood, model. -/
def poemSchema : List ColumnType :=
  [.checked 32 characters, .text, .checked 8 langs, .text, .text, .text, .text, .string 32, .string 64]

/-- Those of `images` (prompt, negative, checkpoint, path, status) and of `audios` (backend, voice,
lang, path, status). -/
def assetSchema : JobType → List ColumnType
  | .image => [.text, .text, .string 128, .text, .checked 16 assetStatuses]
  | .audio => [.checked 16 backends, .string 64, .checked 8 langs, .text, .checked 16 assetStatuses]

/-- Those of `jobs`: type, status, error. -/
def jobSchema : List ColumnType := [.checked 16 jobTypes, .checked 16 jobStatuses, .text]

/-- The texts of a row of `poems`. -/
def Poem.texts (p : Poem) : List (Option CodePoints) :=
  [some p.character.points, p.theme.map Str.points, some p.lang.points, some p.title.points,
    p.titleJa.map Str.points, some p.poemEn.points, some p.poemJa.points, p.mood.map Str.points,
    p.model.map Str.points]

/-- The texts of a row of `images` or `audios`. -/
def Asset.texts : {t : JobType} → Asset t → List (Option CodePoints)
  | .image, a => [some a.attrs.prompt.points, some a.attrs.negative.points, a.attrs.checkpoint.map Str.points,
      a.path.map Str.points, some a.status.value.points]
  | .audio, a => [some a.attrs.backend.value.points, a.attrs.voice.map Str.points, some a.attrs.lang.points,
      a.path.map Str.points, some a.status.value.points]

/-- The texts of a row of `jobs`. -/
def Job.texts (j : Job) : List (Option CodePoints) :=
  [some j.type.value.points, some j.status.value.points, j.error.map Str.points]

/-! ### The rows of a reply -/

namespace CodePoints

/-- `str.isspace` of one code point. -/
def isSpace (n : ℕ) : Bool := Str.isSpace (Char.ofNat n)

/-- `s.strip()`. -/
def strip (s : CodePoints) : CodePoints := (s.dropWhile isSpace).rdropWhile isSpace

/-- `combine_image_prompt`, of a prompt that may have lone surrogates. -/
def combineImagePrompt (base : CodePoints) (extra : Option Str) : CodePoints :=
  let extra := ((extra.getD []).strip.rstrip ',').strip
  let base := base.strip
  if extra = [] then base
  else if base = [] then extra.points else base ++ Str.points ", ".toList ++ extra.points

end CodePoints

namespace GenerateRequest
variable (req : GenerateRequest) (env : Env) (imageModel : ImageModels.ImageModel) (r : Claude.PoemResult)

/-- The texts that `persist_poem` writes to `poems`. -/
def poemTexts : List (Option CodePoints) :=
  [some r.character, req.theme.map Str.points, some req.lang.points, some r.title,
    if r.titleJa = [] then none else some r.titleJa, some r.poemEn, some r.poemJa, some r.mood,
    some (poemModel env).points]

/-- The texts that it writes to `images` or `audios`. -/
def assetTexts : JobType → List (Option CodePoints)
  | .image => [some (r.imagePrompt.combineImagePrompt req.imagePromptExtra), some r.imageNegative,
      some imageModel.name.points, none, some AssetStatus.pending.value.points]
  | .audio => [some TtsBackend.piper.value.points, none, some req.lang.points, none,
      some AssetStatus.pending.value.points]

/-- The flag of the request for an asset. -/
def wants : JobType → Bool
  | .image => req.generateImage
  | .audio => req.generateAudio

/-- **The rows of a reply can be stored.** -/
structure RowsConform : Prop where
  poem : Conforms poemSchema (req.poemTexts env r)
  asset : ∀ t, req.wants t = true → Conforms (assetSchema t) (req.assetTexts imageModel r t)
  job : ∀ t ids, req.wants t = true → Conforms jobSchema (newJob ids t).texts

end GenerateRequest

/-- A result without lone surrogates. -/
def PoemResult.points (result : PoemResult) : Claude.PoemResult :=
  { title := result.title.points
    titleJa := result.titleJa.points
    character := result.character.points
    poemEn := result.poemEn.points
    poemJa := result.poemJa.points
    imagePrompt := result.imagePrompt.points
    imageNegative := result.imageNegative.points
    mood := result.mood.points }

/-! ### What can be stored -/

section Storable
variable {s t : CodePoints} {u : Str} {n : ℕ}

theorem fits_of_length_le (h : s.length ≤ n) : Fits n s := by
  rw [Fits, List.drop_eq_nil_of_le h]
  exact List.forall_mem_nil _

theorem storable_append : Storable (s ++ t) ↔ Storable s ∧ Storable t := List.forall_mem_append

/-- A text can be stored unless it has a U+0000. -/
theorem storable_points : Storable u.points ↔ '\x00' ∉ u := by
  refine List.forall_mem_map.trans ⟨fun h hmem => (h _ hmem).2 rfl, fun h c hc => ⟨c.valid, fun hzero => ?_⟩⟩
  obtain rfl : c = '\x00' := Char.toNat_inj.1 hzero
  exact h hc

/-- What `strip` takes away can be stored. -/
theorem isSpace_of_not (h : ¬(n.isValidChar ∧ n ≠ 0)) : CodePoints.isSpace n = false := by
  have hnul : Char.ofNat n = '\x00' := by
    by_cases hvalid : n.isValidChar
    · obtain rfl : n = 0 := by_contra fun hn => h ⟨hvalid, hn⟩
      rfl
    · rw [Char.ofNat, dif_neg hvalid]
      rfl
  rw [CodePoints.isSpace, hnul]
  decide

theorem storable_strip : Storable s.strip ↔ Storable s := by
  have hiff : ∀ s : CodePoints, Storable s ↔ ∀ n, ¬(n.isValidChar ∧ n ≠ 0) → n ∉ s := fun s =>
    forall_congr' fun n => not_imp_not.symm.trans Iff.rfl
  rw [hiff, hiff]
  exact forall₂_congr fun n hn => not_congr (Lists.mem_trim_iff (isSpace_of_not hn))

theorem strip_points : CodePoints.strip u.points = u.strip.points := by
  have hspace : CodePoints.isSpace ∘ Char.toNat = Str.isSpace := funext fun c => by
    rw [Function.comp_apply, CodePoints.isSpace, Char.ofNat_toNat]
  rw [CodePoints.strip, Str.points, Lists.trim_map, hspace]
  rfl

end Storable
section Prompt
variable {base : CodePoints} {u : Str} {extra : Option Str}

/-- Trimming the tags of the user leaves a U+0000. -/
theorem nul_mem_trim : '\x00' ∈ ((u.strip).rstrip ',').strip ↔ '\x00' ∈ u := by
  rw [Str.strip, Lists.mem_trim_iff (by decide), Str.rstrip, Lists.mem_rdropWhile_iff (by decide), Str.strip,
    Lists.mem_trim_iff (by decide)]

/-- **A prompt can be stored** when its two parts can. -/
theorem storable_combineImagePrompt :
    Storable (base.combineImagePrompt extra) ↔ Storable base ∧ ∀ u ∈ extra, '\x00' ∉ u := by
  have hextra : (∀ u ∈ extra, '\x00' ∉ u) ↔ Storable (((extra.getD []).strip.rstrip ',').strip).points := by
    rw [storable_points, nul_mem_trim]
    cases extra <;> simp
  rw [hextra, ← storable_strip (s := base), CodePoints.combineImagePrompt]
  have hnil : Storable [] := List.forall_mem_nil _
  have hcomma : Storable (Str.points ", ".toList) := storable_points.2 (by decide)
  split_ifs with he hb
  · rw [he]
    exact (and_iff_left hnil).symm
  · rw [hb]
    exact (and_iff_right hnil).symm
  · rw [storable_append, storable_append, and_iff_left hcomma]

theorem combineImagePrompt_points (base : Str) (extra : Option Str) :
    CodePoints.combineImagePrompt base.points extra = (combineImagePrompt base extra).points := by
  have hnil : ∀ s : Str, s.points = [] ↔ s = [] := fun s => List.map_eq_nil_iff
  simp only [CodePoints.combineImagePrompt, combineImagePrompt, strip_points, hnil]
  split_ifs
  · rfl
  · rfl
  · simp only [Str.points, List.map_append]

end Prompt

/-! ### What cannot be rejected -/

section Checked
variable {n : ℕ} {values : List Str} {s : Str}

theorem takes_checked (hs : s ∈ values) (h : ∀ v ∈ values, '\x00' ∉ v ∧ v.length ≤ n) :
    (ColumnType.checked n values).Takes s.points :=
  ⟨storable_points.2 (h s hs).1, fits_of_length_le ((List.length_map ..).trans_le (h s hs).2),
    List.mem_map_of_mem hs⟩

theorem takes_character (c : Character) : (ColumnType.checked 32 characters).Takes c.value.points :=
  takes_checked (by cases c <;> decide) (by decide)

theorem takes_lang (hs : s ∈ langs) : (ColumnType.checked 8 langs).Takes s.points :=
  takes_checked hs (by decide)

theorem takes_assetStatus (st : AssetStatus) : (ColumnType.checked 16 assetStatuses).Takes st.value.points :=
  takes_checked (by cases st <;> decide) (by decide)

theorem takes_backend (b : TtsBackend) : (ColumnType.checked 16 backends).Takes b.value.points :=
  takes_checked (by cases b <;> decide) (by decide)

theorem takes_jobType (t : JobType) : (ColumnType.checked 16 jobTypes).Takes t.value.points :=
  takes_checked (by cases t <;> decide) (by decide)

theorem takes_jobStatus (st : JobStatus) : (ColumnType.checked 16 jobStatuses).Takes st.value.points :=
  takes_checked (by cases st <;> decide) (by decide)

end Checked

section Rows
variable {req : GenerateRequest} {env : Env} {imageModel : ImageModels.ImageModel} {r : Claude.PoemResult}
  {ids : NewIds} {schema : List ColumnType} {row : List (Option CodePoints)} {c : ColumnType} {s : CodePoints}
  {value : Option CodePoints}

theorem conforms_nil : Conforms [] [] := .nil

theorem conforms_cons :
    Conforms (c :: schema) (value :: row) ↔ (∀ s ∈ value, c.Takes s) ∧ Conforms schema row :=
  List.forall₂_cons

theorem conforms_cons_some : Conforms (c :: schema) (some s :: row) ↔ c.Takes s ∧ Conforms schema row :=
  conforms_cons.trans (and_congr_left fun _ => by simp)

theorem conforms_cons_none : Conforms (c :: schema) (none :: row) ↔ Conforms schema row :=
  conforms_cons.trans (and_iff_right fun _ h => nomatch h)

/-- A new row of `jobs` conforms. -/
theorem job_conforms (t : JobType) : Conforms jobSchema (newJob ids t).texts := by
  rw [jobSchema, Job.texts]
  exact conforms_cons_some.2 ⟨takes_jobType t, conforms_cons_some.2 ⟨takes_jobStatus .queued,
    conforms_cons_none.2 conforms_nil⟩⟩

/-- And one of `audios`. -/
theorem audio_conforms : Conforms (assetSchema .audio) (req.assetTexts imageModel r .audio) := by
  rw [assetSchema, GenerateRequest.assetTexts, conforms_cons_some, conforms_cons_none, conforms_cons_some,
    conforms_cons_none, conforms_cons_some]
  exact ⟨takes_backend .piper, takes_lang req.lang_mem, takes_assetStatus .pending, conforms_nil⟩

theorem image_conforms_iff : Conforms (assetSchema .image) (req.assetTexts imageModel r .image) ↔
    (Storable r.imagePrompt ∧ ∀ s ∈ req.imagePromptExtra, '\x00' ∉ s) ∧ Storable r.imageNegative ∧
      '\x00' ∉ imageModel.name ∧ Fits 128 imageModel.name.points := by
  rw [assetSchema, GenerateRequest.assetTexts, conforms_cons_some, conforms_cons_some,
    conforms_cons_some, conforms_cons_none, conforms_cons_some, and_iff_left conforms_nil,
    and_iff_left (takes_assetStatus .pending)]
  refine and_congr storable_combineImagePrompt (and_congr_right fun _ => ?_)
  rw [ColumnType.Takes, storable_points]

theorem poem_conforms_iff (hcharacter : r.character = req.character.value.points) :
    Conforms poemSchema (req.poemTexts env r) ↔
      (∀ s ∈ req.theme, '\x00' ∉ s) ∧ Storable r.title ∧ Storable r.titleJa ∧ Storable r.poemEn ∧
        Storable r.poemJa ∧ (Storable r.mood ∧ Fits 32 r.mood) ∧
          '\x00' ∉ poemModel env ∧ Fits 64 (poemModel env).points := by
  have htheme : (∀ s ∈ req.theme.map Str.points, ColumnType.text.Takes s) ↔ ∀ s ∈ req.theme, '\x00' ∉ s := by
    cases req.theme with
    | none => simp
    | some s => simpa [ColumnType.Takes] using storable_points (u := s)
  have htitleJa : (∀ s ∈ (if r.titleJa = [] then none else some r.titleJa), ColumnType.text.Takes s) ↔
      Storable r.titleJa := by
    split_ifs with hnil
    · rw [hnil]
      exact iff_of_true (fun _ h => nomatch h) (List.forall_mem_nil _)
    · simp [ColumnType.Takes]
  have hmodel : (ColumnType.string 64).Takes (poemModel env).points ↔
      '\x00' ∉ poemModel env ∧ Fits 64 (poemModel env).points := by
    rw [ColumnType.Takes, storable_points]
  rw [poemSchema, GenerateRequest.poemTexts, conforms_cons_some, conforms_cons, conforms_cons_some,
    conforms_cons_some, conforms_cons, conforms_cons_some, conforms_cons_some, conforms_cons_some, conforms_cons_some,
    and_iff_left conforms_nil, htheme, htitleJa, hmodel, hcharacter, and_iff_right (takes_character _),
    and_iff_right (takes_lang req.lang_mem)]
  rfl

/-- **A poem can be stored** exactly when the texts of the reply, of the request and of the
configuration that go into its rows have neither a U+0000 nor a lone surrogate, the mood of the
reply has at most 32 characters, the model of the configuration at most 64 and, if an image is
asked for, the name of the checkpoint at most 128, spaces past the bound aside. -/
theorem rows_conform_iff (req : GenerateRequest) (env : Env) (depth : ℕ) (isFloat : Json → Bool)
    (cfg : Claude.PoemConfig) (client : ℕ → Claude.Outcome)
    (hmodel : ImageModels.resolve req.model env = some imageModel)
    (h : (Claude.generate depth isFloat cfg req.character req.theme client).1 = .ok r) :
    req.RowsConform env imageModel r ↔
      (Storable r.title ∧ Storable r.titleJa ∧ Storable r.poemEn ∧ Storable r.poemJa ∧ Storable r.mood ∧
        Fits 32 r.mood) ∧
      (∀ s ∈ req.theme, '\x00' ∉ s) ∧ ('\x00' ∉ poemModel env ∧ Fits 64 (poemModel env).points) ∧
      (req.generateImage = true → (Storable r.imagePrompt ∧ Storable r.imageNegative) ∧
        (∀ s ∈ req.imagePromptExtra, '\x00' ∉ s) ∧
          '\x00' ∉ ImageModels.target req.model env ∧ Fits 128 (ImageModels.target req.model env).points) := by
  have hpoem : Conforms poemSchema (req.poemTexts env r) ↔ _ :=
    poem_conforms_iff (Claude.character_of_generate _ _ _ _ _ _ h)
  have himage : Conforms (assetSchema .image) (req.assetTexts imageModel r .image) ↔ _ := image_conforms_iff
  rw [ImageModels.name_of_resolve hmodel] at himage
  constructor
  · intro hrows
    obtain ⟨htheme, htitle, htitleJa, hpoemEn, hpoemJa, ⟨hmood, hfits⟩, henv⟩ := hpoem.1 hrows.poem
    refine ⟨⟨htitle, htitleJa, hpoemEn, hpoemJa, hmood, hfits⟩, htheme, henv, fun hwants => ?_⟩
    obtain ⟨⟨hprompt, hextra⟩, hnegative, hname⟩ := himage.1 (hrows.asset .image hwants)
    exact ⟨⟨hprompt, hnegative⟩, hextra, hname⟩
  · rintro ⟨⟨htitle, htitleJa, hpoemEn, hpoemJa, hmood, hfits⟩, htheme, henv, hasset⟩
    refine ⟨hpoem.2 ⟨htheme, htitle, htitleJa, hpoemEn, hpoemJa, ⟨hmood, hfits⟩, henv⟩, fun t ht => ?_,
      fun t _ _ => job_conforms t⟩
    cases t with
    | image =>
        obtain ⟨⟨hprompt, hnegative⟩, hextra, hname⟩ := hasset ht
        exact himage.2 ⟨⟨hprompt, hextra⟩, hnegative, hname⟩
    | audio => exact audio_conforms

/-- A request for Sayori with the defaults. -/
def plainRequest : GenerateRequest := { character := .sayori }

/-- A reply with a mood of `n` characters. -/
def moody (n : ℕ) : Claude.Outcome :=
  .message (Claude.textMessage ("\x7b\"title\":\"t\",\"poem_en\":\"e\",\"poem_ja\":\"j\",\"mood\":\"".toList ++
    List.replicate n 'a' ++ "\"\x7d".toList))

/-- What is accepted of it. -/
def moodyResult (n : ℕ) : Claude.PoemResult :=
  { title := [116], character := Character.sayori.value.points, poemEn := [101], poemJa := [106]
    mood := List.replicate n 97 }

/-- A mood of 33 characters is accepted, and too long for its column. -/
theorem rows_conform_long_mood :
    (Claude.generate 100 (fun _ => true) {} .sayori none fun _ => moody 33).1 = .ok (moodyResult 33) ∧
      ∃ m, ImageModels.resolve none (fun _ => none) = some m ∧
        ¬plainRequest.RowsConform (fun _ => none) m (moodyResult 33) := by
  refine ⟨by decide +kernel, _, rfl, fun h => ?_⟩
  obtain ⟨-, -, -, -, -, ⟨-, hfits⟩, -⟩ := (poem_conforms_iff rfl).1 h.poem
  exact absurd (hfits 97 (by decide)) (by decide)

/-- With one of 32 characters the poem can be stored. -/
theorem rows_conform_short_mood :
    ∃ m, plainRequest.RowsConform (fun _ => none) m (moodyResult 32) := by
  obtain ⟨m, hm⟩ : ∃ m, ImageModels.resolve plainRequest.model (fun _ => none) = some m := ⟨_, rfl⟩
  have hpoints : ∀ s : CodePoints, (s.all fun n => 0 < n ∧ n < 0xd800) = true → Storable s :=
      fun s hs n hn => by
    have hn := of_decide_eq_true (List.all_eq_true.1 hs n hn)
    exact ⟨.inl hn.2, hn.1.ne'⟩
  have haccepted : (Claude.generate 100 (fun _ => true) {} .sayori none fun _ => moody 32).1 =
      .ok (moodyResult 32) := by decide +kernel
  refine ⟨m, (rows_conform_iff plainRequest _ 100 (fun _ => true) {} (fun _ => moody 32) hm haccepted).2
    ⟨⟨?_, ?_, ?_, ?_, ?_, fits_of_length_le (by decide)⟩, by decide,
      ⟨by decide, fits_of_length_le (by decide)⟩, fun _ => ⟨⟨?_, ?_⟩, by decide, by decide,
        fits_of_length_le (by decide)⟩⟩⟩
  iterate 7 exact hpoints _ (by decide)

/-- **The rows of a result without lone surrogates** are those of `persistPoem`. -/
theorem texts_persistPoem {result : PoemResult} {a : PersistArgs} (db : Db)
    (hmodel : ImageModels.resolve req.model env = some imageModel)
    (h : req.persistArgs env result = some a) :
    ((persistPoem db a ids).1.poem ids.poem).map Poem.texts =
        some (req.poemTexts env (req.accept result).points) ∧
      ∀ t, a.wants t = req.wants t ∧ (a.wants t = true →
        ((persistPoem db a ids).1.asset t (ids.asset t)).map Asset.texts =
          some (req.assetTexts imageModel (req.accept result).points t)) := by
  rw [GenerateRequest.persistArgs, hmodel, Option.map_some] at h
  obtain rfl := Option.some.inj h
  refine ⟨?_, fun t => ⟨by cases t <;> rfl, fun ht => ?_⟩⟩
  · rw [poem_persistPoem, if_pos rfl, Option.map_some]
    congr 1
    simp only [Poem.texts, PersistArgs.poem, GenerateRequest.poemTexts, PoemResult.points, Option.map_some]
    congr 4
    by_cases hnil : (req.accept result).titleJa = []
    · simp [hnil, Str.points]
    · simp [hnil, Str.points]
  · rw [asset_persistPoem, if_pos ⟨ht, rfl⟩, Option.map_some]
    cases t with
    | image =>
        simp only [Asset.texts, newAsset, PersistArgs.attrs, GenerateRequest.assetTexts, PoemResult.points,
          combineImagePrompt_points, Option.map_some, Option.map_none]
    | audio => rfl

end Rows

end PoetryGenerator
