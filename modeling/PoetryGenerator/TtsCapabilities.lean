/-
# The languages the API advertises (`api/app/voices.py`, `api/app/main.py`)

`GET /api/tts/capabilities` is answered by the API and the audio is made by the worker,
which have the same environment.  The answer is worked out from `TTS_BACKEND` and
`VOICEVOX_URL` beside the choice of the synthesizer, not from it; `str.lower`, whose
result it holds, is a parameter (`Lowercase`).

The two agree (`not_refuses_iff`), and so over every run (`capabilities_of_run`): every
audio that is done is in a language that is advertised, and a call of the synthesizer
ends with `UnsupportedLanguageError` in the other languages and in no other case.
-/

import Mathlib.Data.List.Sort
import PoetryGenerator.AudioProvenance
import PoetryGenerator.Generation

namespace PoetryGenerator

/-! ### `str.lower` -/

/-- A letter in lower case is no capital. -/
theorem toLower_eq_or (c : Char) :
    c.toLower = c ∨ (97 ≤ c.toLower.toNat ∧ c.toLower.toNat ≤ 122) := by
  by_cases h : c.val ≥ 'A'.val ∧ c.val ≤ 'Z'.val
  · right
    have hval : c.toLower.val = c.val + ('a'.val - 'A'.val) := congrArg Char.val (dif_pos h)
    have hnat : c.toLower.toNat = (c.val + 32).toNat := congrArg UInt32.toNat hval
    have h1 : 65 ≤ c.val.toNat := h.1
    have h2 : c.val.toNat ≤ 90 := h.2
    have h3 : (32 : UInt32).toNat = 32 := rfl
    rw [hnat, UInt32.toNat_add]
    omega
  · exact .inl (dif_neg h)

theorem toLower_eq_self {c : Char} (h : 90 < c.toNat) : c.toLower = c := by
  refine dif_neg ?_
  rintro ⟨-, hc⟩
  exact absurd (show c.toNat ≤ 90 from hc) (Nat.not_le_of_lt h)

@[simp] theorem Str.lower_lower (s : Str) : s.lower.lower = s.lower := by
  rw [lower, lower, List.map_map]
  refine List.map_congr_left fun c _ => ?_
  by_cases hc : c.toNat = 0x212a
  · simp [hc]
  · rcases toLower_eq_or c with h | ⟨h1, h2⟩
    · simp [hc, h]
    · have hne : c.toLower.toNat ≠ 0x212a := by omega
      simp [hc, hne, toLower_eq_self (Nat.lt_of_lt_of_le (by decide : 90 < 97) h1)]

/-- `str.lower`: the texts it takes to an ASCII one are those that `Str.lower` does. -/
structure Lowercase where
  lower : Str → Str
  eq_iff : ∀ s t : Str, (∀ c ∈ t, c.toNat < 128) → (lower s = t ↔ s.lower = t)

/-- Of ASCII texts. -/
def Lowercase.ascii : Lowercase := ⟨Str.lower, fun _ _ _ => Iff.rfl⟩

/-- A text is compared after it was lowered, and lowered again for the comparison. -/
theorem Lowercase.lower_eq_xtts_iff (lower : Lowercase) (s : Str) :
    (lower.lower s).lower = "xtts".toList ↔ s.lower = "xtts".toList := by
  have hascii : ∀ c ∈ "xtts".toList, c.toNat < 128 := by simp
  constructor
  · intro h
    -- no other letters have these as lower case
    have hlow : ∀ c ∈ lower.lower s, c.toNat < 128 := fun c hc => by
      have hmem : (if c.toNat = 0x212a then 'k' else c.toLower) ∈ "xtts".toList :=
        h ▸ List.mem_map_of_mem hc
      split_ifs at hmem with hk
      · exact absurd hmem (by decide)
      · by_contra hbig
        rw [toLower_eq_self (by omega)] at hmem
        exact hbig (hascii c hmem)
    have hself : s.lower = lower.lower s := (lower.eq_iff s _ hlow).1 rfl
    rw [← h, ← hself, Str.lower_lower]
  · intro h
    rw [(lower.eq_iff s _ hascii).2 h]
    decide

/-! ### The answer -/

/-- `XTTS_LANGS`. -/
def xttsLangs : List Str := ["en".toList, "ja".toList]

/-- `supported_audio_langs`; a set is the list of its members. -/
def supportedAudioLangs (backend : Str) (voicevoxEnabled : Bool) : List Str :=
  let langs := if backend.lower = "xtts".toList then xttsLangs else piperLangs
  if voicevoxEnabled && !langs.contains "ja".toList then langs ++ ["ja".toList] else langs

/-- `sorted` of a set of texts, by the code points. -/
def sorted (langs : List Str) : List Str :=
  langs.insertionSort fun a b => (!b.lex a fun c d => decide (c.toNat < d.toNat)) = true

/-- The answer of `tts_capabilities`. -/
structure TtsCapabilities where
  backend : Str
  voicevox : Bool
  langs : List Str
deriving DecidableEq

/-- `tts_capabilities`. -/
def ttsCapabilities (lower : Lowercase) (env : Env) : TtsCapabilities :=
  let backend := lower.lower ((env "TTS_BACKEND".toList).getD "piper".toList)
  let voicevox := decide ((env "VOICEVOX_URL".toList).getD [] ≠ [])
  { backend, voicevox, langs := sorted (supportedAudioLangs backend voicevox) }

theorem mem_sorted {langs : List Str} {lang : Str} : lang ∈ sorted langs ↔ lang ∈ langs :=
  List.mem_insertionSort _

/-! ### The synthesizer -/

/-- There is no voice for a language. -/
def Synthesizer.refuses (synthesizer : Synthesizer) (lang : Str) : Bool :=
  synthesizer.backendFor lang = .piper && lang ≠ [] && !piperLangs.contains lang.lower

/-- **The API advertises what the worker does not refuse.** -/
theorem not_refuses_iff (lower : Lowercase) (env : Env) {lang : Str} (h : lang ∈ langs) :
    (defaultSynthesizer env).refuses lang = false ↔ lang ∈ (ttsCapabilities lower env).langs := by
  simp only [ttsCapabilities, mem_sorted, supportedAudioLangs, lower.lower_eq_xtts_iff, defaultSynthesizer,
    englishSynthesizer]
  have hlang : lang = "en".toList ∨ lang = "ja".toList := by
    simpa only [langs, List.mem_cons, List.not_mem_nil, or_false] using h
  by_cases hx : Str.lower ((env "TTS_BACKEND".toList).getD "piper".toList) = "xtts".toList <;>
    by_cases hv : (env "VOICEVOX_URL".toList).getD [] = [] <;>
    simp only [hx, hv, ne_eq, not_true_eq_false, not_false_eq_true, decide_true, decide_false, if_pos,
      if_neg] <;>
    rcases hlang with rfl | rfl <;>
    decide

/-- How a call for a language may end. -/
inductive Ends (refused : Bool) (lang : Str) : Act .audio → Prop
  | returns {path attrs wrote} (h : refused = false) (hl : AudioAttrs.lang attrs = lang) :
      Ends refused lang (.returns path attrs wrote)
  | raises {exc attrs wrote} (hl : AudioAttrs.lang attrs = lang) :
      Ends refused lang (.raises exc attrs wrote)
  | unsupported {exc attrs wrote} (h : refused = true) (hl : AudioAttrs.lang attrs = lang) :
      Ends refused lang (.unsupported exc attrs wrote)

section Speak
variable {synthesizer : Synthesizer} {dataDir : Path} {db : Db} {id : ℤ} {a : Asset .audio}

theorem refuses_of_piper {lang : Str} (h : synthesizer.backendFor lang = .piper) :
    synthesizer.refuses lang = decide (lang ≠ [] ∧ !piperLangs.contains lang.lower) := by
  rw [Synthesizer.refuses, h, decide_eq_true rfl, Bool.true_and, Bool.decide_and, Bool.decide_eq_true]

theorem refuses_of_ne {lang : Str} (h : synthesizer.backendFor lang ≠ .piper) :
    synthesizer.refuses lang = false := by
  rw [Synthesizer.refuses, decide_eq_false h, Bool.false_and, Bool.false_and]

theorem ends_act {refused : Bool} (h : refused = false) {attrs : AudioAttrs}
    (hl : attrs.lang = AudioAttrs.lang a.attrs) (out : Path) (o : SpeechOutcome) :
    Ends refused (AudioAttrs.lang a.attrs) (o.act a.attrs attrs out) := by
  cases o with
  | returns => exact .returns h hl
  | raises exc wrote => exact .raises rfl

/-- A call of the worker's synthesizer returns only for a language it does not refuse. -/
theorem ends_speak (o : SpeakOutcome) :
    Ends (synthesizer.refuses (AudioAttrs.lang a.attrs)) (AudioAttrs.lang a.attrs)
      (synthesizer.speak dataDir db id a o) := by
  cases o with
  | unread exc => exact .raises rfl
  | spoken o =>
      rw [Synthesizer.speak]
      split
      · exact .raises rfl
      · cases hb : synthesizer.backendFor (AudioAttrs.lang a.attrs) with
        | piper =>
            rw [refuses_of_piper hb, TtsBackend.synthesize, piper, getVoiceProfile]
            split_ifs with h
            · exact .unsupported (decide_eq_true h) rfl
            · exact ends_act (decide_eq_false h) rfl _ o
        | xtts => exact ends_act (a := a) (refuses_of_ne (by rw [hb]; decide)) rfl _ o
        | voicevox =>
            rw [TtsBackend.synthesize, voicevox]
            refine ends_act (a := a) (refuses_of_ne (by rw [hb]; decide)) ?_ _ o
            rfl

/-- For the others it raises `UnsupportedLanguageError`, if it is called at all. -/
theorem speak_of_refuses (h : synthesizer.refuses (AudioAttrs.lang a.attrs) = true) {poem : Poem}
    (hp : db.poem a.poemId = some poem) (o : SpeechOutcome) :
    ∃ exc, synthesizer.speak dataDir db id a (.spoken o) = .unsupported exc a.attrs [] := by
  by_cases hb : synthesizer.backendFor (AudioAttrs.lang a.attrs) = .piper
  · rw [refuses_of_piper hb, decide_eq_true_iff] at h
    simp only [Synthesizer.speak, hp, hb, TtsBackend.synthesize, piper, getVoiceProfile, if_pos h]
    exact ⟨_, rfl⟩
  · rw [refuses_of_ne hb] at h
    cases h

theorem speak_unsupported_iff {poem : Poem} (hp : db.poem a.poemId = some poem) (o : SpeechOutcome) :
    (∃ exc attrs wrote, synthesizer.speak dataDir db id a (.spoken o) = .unsupported exc attrs wrote) ↔
      synthesizer.refuses (AudioAttrs.lang a.attrs) = true := by
  constructor
  · rintro ⟨exc, attrs, wrote, hact⟩
    have hends : Ends _ _ (synthesizer.speak dataDir db id a (.spoken o)) := ends_speak _
    rw [hact] at hends
    cases hends with
    | unsupported h => exact h
  · intro h
    obtain ⟨exc, hact⟩ : ∃ exc, synthesizer.speak dataDir db id a (.spoken o) = .unsupported exc a.attrs [] :=
      speak_of_refuses h hp o
    exact ⟨exc, _, _, hact⟩

end Speak

/-! ### Every run -/

/-- The only operation of a worker that is not running. -/
theorem Performs.eq_start {cfg : Config} {t : JobType} {w w' : World} {act : Act t}
    {pc : Pc t} (h : Performs cfg t w .dead act w' pc) (hpc : pc ≠ .dead) : act = .start := by
  cases h with
  | kill => exact absurd rfl hpc
  | start => rfl

/-- A start has the environment of the API, and an audio is asked for in an allowed language. -/
def VoiceLabel.Suits (env : Env) (allowed : List Str) : VoiceLabel → Prop
  | .start e => e = env
  | .other (.persist a _ _) => a.generateAudio = true → a.lang ∈ allowed
  | _ => True

namespace Voicing

variable {cfg : Config} {lower : Lowercase} {env : Env} {allowed : List Str} {s s' : Voicing} {l : VoiceLabel}

/-- A step, with the label of the system. -/
inductive Does (cfg : Config) (s s' : Voicing) : VoiceLabel → Label → Prop
  | started {e} (hs : s'.synthesizer = defaultSynthesizer e) : Does cfg s s' (.start e) (.worker .audio .start)
  | spoke {session o} (hpc : s.sys.workers .audio = .call session) (hs : s'.synthesizer = s.synthesizer) :
      Does cfg s s' (.speak o) (.worker .audio (s.act cfg session o))
  | other {l'} (hl : l'.isMute = true) (hs : s'.synthesizer = s.synthesizer) : Does cfg s s' (.other l') l'

theorem does_of_step (h : s.step cfg l = some s') :
    ∃ l', Moves cfg s.sys l' s'.sys ∧ Does cfg s s' l l' := by
  cases l with
  | start e =>
      obtain ⟨sys, hsys, rfl⟩ := Option.map_eq_some_iff.1 h
      exact ⟨_, moves_of_step hsys, .started rfl⟩
  | speak o =>
      simp only [step] at h
      split at h
      · next session hpc =>
          obtain ⟨sys, hsys, rfl⟩ := Option.map_eq_some_iff.1 h
          exact ⟨_, moves_of_step hsys, .spoke hpc rfl⟩
      · cases h
  | other l =>
      simp only [step] at h
      split_ifs at h with hl
      obtain ⟨sys, hsys, rfl⟩ := Option.map_eq_some_iff.1 h
      exact ⟨_, moves_of_step hsys, .other hl rfl⟩

/-- **The invariant.**  The worker has the synthesizer of the environment, and the audios that
are done are in languages it does not refuse. -/
structure Advertised (cfg : Config) (lower : Lowercase) (env : Env) (allowed : List Str)
    (s : Voicing) : Prop where
  sys : s.sys.Ok cfg
  synthesizer : s.sys.workers .audio ≠ .dead → s.synthesizer = defaultSynthesizer env
  lang : ∀ ref (a : Asset .audio), s.sys.HasAsset .audio ref a → AudioAttrs.lang a.attrs ∈ allowed ∧
    (a.status = .done → AudioAttrs.lang a.attrs ∈ (ttsCapabilities lower env).langs)

theorem advertised_init : init.Advertised cfg lower env allowed where
  sys := Sys.ok_init
  synthesizer h := absurd rfl h
  lang ref a h := by
    rcases h with h | ⟨session, h, -⟩
    · cases h
    · cases h

/-- A worker that is not running is made to run by a start only. -/
theorem Does.synthesizer {l' : Label} (h : Does cfg s s' l l') (hmoves : Moves cfg s.sys l' s'.sys)
    (hs : s.Advertised cfg lower env allowed) (hl : l.Suits env allowed) (hpc : s'.sys.workers .audio ≠ .dead) :
    s'.synthesizer = defaultSynthesizer env := by
  cases h with
  | started heq => exact heq.trans (congrArg defaultSynthesizer hl)
  | spoke hcall heq => exact heq.trans (hs.synthesizer (by rw [hcall]; exact nofun))
  | other hmute heq =>
      refine heq.trans (hs.synthesizer fun hdead => ?_)
      rcases hmoves.worker_cases .audio with ⟨act, rfl, hw⟩ | ⟨-, hsame⟩
      · obtain rfl := (hdead ▸ hw).eq_start hpc
        cases hmute
      · exact hpc (hsame.trans hdead)

/-- A call of the synthesizer is one of that of the environment. -/
theorem Does.ends {l' : Label} (h : Does cfg s s' l l') (hs : s.Advertised cfg lower env allowed)
    {session : Session .audio} (hpc : s.sys.workers .audio = .call session) {act : Act .audio}
    (hl : l' = .worker .audio act) (hact : act.attrs ≠ none) :
    Ends ((defaultSynthesizer env).refuses (AudioAttrs.lang session.asset.cur.attrs))
      (AudioAttrs.lang session.asset.cur.attrs) act := by
  cases h with
  | started =>
      obtain rfl := Label.worker_inj hl
      exact absurd rfl hact
  | @spoke session' o hpc' =>
      obtain rfl := Pc.call.inj (hpc'.symm.trans hpc)
      obtain rfl := Label.worker_inj hl
      rw [← hs.synthesizer (by rw [hpc]; exact nofun)]
      exact ends_speak o
  | other hmute =>
      subst hl
      cases act <;> first | exact absurd rfl hact | cases hmute

/-- **Step lemma.** -/
theorem Advertised.step (hallowed : allowed ⊆ langs) (hs : s.Advertised cfg lower env allowed)
    (hl : l.Suits env allowed) (h : s.step cfg l = some s') :
    s'.Advertised cfg lower env allowed := by
  obtain ⟨l', hmoves, hdoes⟩ := does_of_step h
  refine ⟨hmoves.ok hs.sys, hdoes.synthesizer hmoves hs hl, fun ref a ha => ?_⟩
  cases hmoves.origin hs.sys ha with
  | held hold => exact hs.lang ref a hold
  | created hl' hr hw =>
      refine ⟨?_, fun h => by cases h⟩
      cases hdoes with
      | started => cases hl'
      | spoke => cases hl'
      | other =>
          subst hl'
          exact hl hw
  | status hold hne hst => exact ⟨(hs.lang ref _ hold).1, fun h => absurd h hst⟩
  | @raised session exc attrs wrote st hpc hl' hst =>
      refine ⟨?_, fun h => absurd h hst⟩
      have hlang := (hs.lang _ _ (Sys.hasAsset_of_call hpc)).1
      rcases hl' with hl' | hl'
      · cases hdoes.ends hs hpc hl' nofun with
        | raises heq => exact heq ▸ hlang
      · cases hdoes.ends hs hpc hl' nofun with
        | unsupported _ heq => exact heq ▸ hlang
  | @returned session path attrs wrote hpc hl' =>
      have hlang := (hs.lang _ _ (Sys.hasAsset_of_call hpc)).1
      cases hdoes.ends hs hpc hl' nofun with
      | returns hr heq => exact ⟨heq ▸ hlang, fun _ => heq ▸ (not_refuses_iff lower env (hallowed hlang)).1 hr⟩

/-- **Run lemma.** -/
theorem run_advertised (hallowed : allowed ⊆ langs) {ls : List VoiceLabel}
    (hr : Runs.run (Voicing.step cfg) init ls = some s) (hls : ∀ l ∈ ls, l.Suits env allowed) :
    s.Advertised cfg lower env allowed :=
  Runs.run_invariant (P := fun _ l => l.Suits env allowed) (fun _ _ _ hs hl h => hs.step hallowed hl h)
    advertised_init (Runs.along_of_forall fun _ l hl => hls l hl) hr

/-- **Which calls end with `UnsupportedLanguageError`.** -/
theorem Advertised.unsupported_iff (h : s.Advertised cfg lower env allowed) (hallowed : allowed ⊆ langs)
    {session : Session .audio} (hpc : s.sys.workers .audio = .call session) {poem : Poem}
    (hp : s.sys.world.db.poem session.asset.cur.poemId = some poem) (o : SpeechOutcome) :
    (∃ exc attrs wrote, s.act cfg session (.spoken o) = .unsupported exc attrs wrote) ↔
      AudioAttrs.lang session.asset.cur.attrs ∉ (ttsCapabilities lower env).langs := by
  have hlang := (h.lang _ _ (Sys.hasAsset_of_call hpc)).1
  rw [← not_refuses_iff lower env (hallowed hlang), Bool.not_eq_false, act,
    h.synthesizer (by rw [hpc]; exact nofun)]
  exact speak_unsupported_iff hp o

end Voicing

/-- **The languages that are advertised are those that are spoken**, in every run in which the
worker is started with the environment of the API: an audio that is done is in one of them, and
a call of the synthesizer ends with `UnsupportedLanguageError` for the others, and for no other
language. -/
theorem capabilities_of_run {cfg : Config} {lower : Lowercase} {env : Env} {ls : List VoiceLabel} {s : Voicing}
    (hr : Runs.run (Voicing.step cfg) Voicing.init ls = some s) (hls : ∀ l ∈ ls, l.Suits env langs) :
    (∀ ref row, s.sys.world.db.asset .audio ref = some row → row.status = .done →
      AudioAttrs.lang row.attrs ∈ (ttsCapabilities lower env).langs) ∧
    ∀ session poem o, s.sys.workers .audio = .call session →
      s.sys.world.db.poem session.asset.cur.poemId = some poem →
      ((∃ exc attrs wrote, s.act cfg session (.spoken o) = .unsupported exc attrs wrote) ↔
        AudioAttrs.lang session.asset.cur.attrs ∉ (ttsCapabilities lower env).langs) := by
  have hok : s.Advertised cfg lower env langs := Voicing.run_advertised (List.Subset.refl _) hr hls
  refine ⟨fun ref row hrow => (hok.lang ref row (.inl hrow)).2, fun session poem o hpc hp => ?_⟩
  exact hok.unsupported_iff (List.Subset.refl _) hpc hp o

/-- Japanese is asked for without VOICEVOX. -/
theorem capabilities_japanese : ∃ s session,
    Runs.run (Voicing.step (Sample.config 1)) Voicing.init
        (Sample.requestedIn "ja" ++ Sample.calledIn fun _ => none) = some s ∧
      s.sys.workers .audio = .call session ∧
      AudioAttrs.lang session.asset.cur.attrs ∉ (ttsCapabilities .ascii fun _ => none).langs ∧
      ∃ exc attrs wrote, s.act (Sample.config 1) session (.spoken .returns) = .unsupported exc attrs wrote := by
  have hrun : ∃ s session poem, Runs.run (Voicing.step (Sample.config 1)) Voicing.init
      (Sample.requestedIn "ja" ++ Sample.calledIn fun _ => none) = some s ∧
        s.sys.workers .audio = .call session ∧
        s.sys.world.db.poem session.asset.cur.poemId = some poem ∧
        AudioAttrs.lang session.asset.cur.attrs = "ja".toList := ⟨_, _, _, rfl, rfl, rfl, rfl⟩
  obtain ⟨s, session, poem, hr, hpc, hp, hlang⟩ := hrun
  have hsuits : ∀ l ∈ Sample.requestedIn "ja" ++ Sample.calledIn fun _ => none,
      l.Suits (fun _ => none) langs := by
    simp [Sample.requestedIn, Sample.calledIn, VoiceLabel.Suits, langs]
  have hja : AudioAttrs.lang session.asset.cur.attrs ∉ (ttsCapabilities .ascii fun _ => none).langs := by
    rw [hlang, ← not_refuses_iff _ _ (by decide)]
    decide
  exact ⟨s, session, hr, hpc, hja, ((capabilities_of_run hr hsuits).2 session poem _ hpc hp).2 hja⟩

end PoetryGenerator
