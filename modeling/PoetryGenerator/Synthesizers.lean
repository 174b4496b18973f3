/-
# Text to speech (`api/app/voices.py`, `api/app/tts*.py`, `api/app/worker_tts.py`)

The audio worker makes its synthesizer when it starts, from `TTS_BACKEND` and
`VOICEVOX_URL`: that of a backend, or one that picks the backend by the language of
the row.  A synthesizer has an engine speak the text and write the file, and VOICEVOX
records itself in the row.

What the engines do is not modelled.  A `Speech` is what one is asked for, and a
`SpeechOutcome` says how it ends.
-/

import Mathlib.Data.Rat.Defs
import PoetryGenerator.Assets
import PoetryGenerator.ImageModels
import PoetryGenerator.Worker

namespace PoetryGenerator

/-! ### Voices -/

/-- `VoiceProfile`. -/
structure VoiceProfile where
  voice : Str
  lengthScale : ℚ
  noiseScale : ℚ
deriving DecidableEq

/-- `_EN_VOICE`. -/
def enVoice : Str := "en_US-amy-low".toList

/-- `PIPER_LANGS`. -/
def piperLangs : List Str := ["en".toList]

/-- `_PROFILES`. -/
def profiles : List (Str × VoiceProfile) :=
  [("sayori".toList, ⟨enVoice, 1, 667 / 1000⟩),
    ("natsuki".toList, ⟨enVoice, 85 / 100, 75 / 100⟩),
    ("yuri".toList, ⟨enVoice, 12 / 10, 6 / 10⟩),
    ("monika".toList, ⟨enVoice, 1, 6 / 10⟩)]

/-- `_FALLBACK`. -/
def fallbackProfile : VoiceProfile := ⟨enVoice, 1, 667 / 1000⟩

/-- `get_voice_profile`; the error is the text of its `UnsupportedLanguageError`. -/
def getVoiceProfile (character : Option Str) (lang : Str) : Except Str VoiceProfile :=
  if lang ≠ [] ∧ !piperLangs.contains lang.lower then
    .error ("Piper (CPU) TTS has no '".toList ++ lang ++
      "' voice; set TTS_BACKEND=xtts for Japanese (#50)".toList)
  else .ok ((profiles.lookup (character.getD []).lower).getD fallbackProfile)

/-- `CHARACTER_SPEAKERS` of XTTS. -/
def xttsSpeakers : List (Str × Str) :=
  [("sayori".toList, "Tammie Ema".toList), ("natsuki".toList, "Daisy Studious".toList),
    ("yuri".toList, "Alison Dietlinde".toList), ("monika".toList, "Gracie Wise".toList)]

/-- `CHARACTER_SPEAKERS` of VOICEVOX. -/
def voicevoxSpeakers : List (Str × ℤ) :=
  [("sayori".toList, 2), ("natsuki".toList, 3), ("yuri".toList, 16), ("monika".toList, 8)]

/-- `speaker_for`, with the table and the default of a backend. -/
def speakerFor {α : Type} (speakers : List (Str × α)) (default : α) (character : Option Str) : α :=
  (speakers.lookup (character.getD []).lower).getD default

/-! ### Synthesizers -/

/-- What an engine is asked to speak. -/
inductive Speech
  | piper (profile : VoiceProfile) (text : Str)
  | xtts (speaker text language : Str)
  | voicevox (speaker : ℤ) (text : Str)
deriving DecidableEq

/-- How an engine ends, and what is loaded before it: the file is written, or an exception
was raised, before or after the file was opened. -/
inductive SpeechOutcome
  | returns
  | raises (exc : Str) (wrote : Bool)

/-- The end of a call that leaves the columns `audio'` when it returns. -/
def SpeechOutcome.act (audio audio' : AudioAttrs) (out : Path) : SpeechOutcome → Act .audio
  | returns => .returns out.str audio' [out]
  | raises exc wrote => .raises exc audio (if wrote then [out] else [])

/-- A call of a synthesizer: what its engine is asked for, if it comes to that, and its outcome. -/
structure Spoken where
  speech : Option Speech
  act : Act .audio

section
variable (dataDir : Path) (id : ℤ) (audio : AudioAttrs) (character : Option Str) (text : Str)
  (o : SpeechOutcome)

/-- `PiperSynthesizer.__call__`. -/
def piper : Spoken :=
  match getVoiceProfile character audio.lang with
  | .error exc => ⟨none, .unsupported exc audio []⟩
  | .ok profile => ⟨some (.piper profile text), o.act audio audio (audioOutPath dataDir id)⟩

/-- `XttsSynthesizer.__call__`. -/
def xtts : Spoken :=
  let speaker := speakerFor xttsSpeakers "Gracie Wise".toList character
  let language := if audio.lang ≠ [] then audio.lang else "en".toList
  ⟨some (.xtts speaker text language), o.act audio audio (audioOutPath dataDir id)⟩

/-- `VoicevoxSynthesizer.__call__`. -/
def voicevox : Spoken :=
  let speaker := speakerFor voicevoxSpeakers 3 character
  let recorded := { audio with backend := .voicevox, voice := some (Numerals.strOfInt speaker) }
  ⟨some (.voicevox speaker text), o.act audio recorded (audioOutPath dataDir id)⟩

/-- The synthesizer of a backend. -/
def TtsBackend.synthesize : TtsBackend → Spoken
  | .piper => PoetryGenerator.piper dataDir id audio character text o
  | .xtts => PoetryGenerator.xtts dataDir id audio character text o
  | .voicevox => PoetryGenerator.voicevox dataDir id audio character text o

end

/-! ### The synthesizer of the worker -/

/-- The synthesizer of a backend, or `RoutingSynthesizer`. -/
inductive Synthesizer
  | backend (b : TtsBackend)
  | routing (default : TtsBackend) (byLang : List (Str × TtsBackend))
deriving DecidableEq

/-- The backend that speaks a language. -/
def Synthesizer.backendFor (lang : Str) : Synthesizer → TtsBackend
  | backend b => b
  | routing default byLang =>
    (byLang.lookup (Str.lower (if lang ≠ [] then lang else "en".toList))).getD default

/-- `_english_synthesizer`. -/
def englishSynthesizer (env : Env) : TtsBackend :=
  if Str.lower ((env "TTS_BACKEND".toList).getD "piper".toList) = "xtts".toList then .xtts else .piper

/-- `_default_synthesizer`. -/
def defaultSynthesizer (env : Env) : Synthesizer :=
  let base := englishSynthesizer env
  if (env "VOICEVOX_URL".toList).getD [] ≠ [] then .routing base [("ja".toList, .voicevox)]
  else .backend base

/-! ### A call of `self._synthesizer` -/

/-- `_text_for`. -/
def textFor (audio : AudioAttrs) (poem : Poem) : Str :=
  if audio.lang = "ja".toList then poem.poemJa else poem.poemEn

/-- The exception of `_text_for` when the poem is gone. -/
def noPoem (audio : AudioAttrs) : Str :=
  "'NoneType' object has no attribute '".toList ++
    (if audio.lang = "ja".toList then "poem_ja'".toList else "poem_en'".toList)

/-- How an attempt ends: the query for the poem raised, or the synthesizer was called. -/
inductive SpeakOutcome
  | unread (exc : Str)
  | spoken (o : SpeechOutcome)

/-- `self._synthesizer(audio, _text_for(audio))` for the row with a key. -/
def Synthesizer.speak (synthesizer : Synthesizer) (dataDir : Path) (db : Db) (id : ℤ) (a : Asset .audio) :
    SpeakOutcome → Act .audio
  | .unread exc => .raises exc a.attrs []
  | .spoken o =>
    match db.poem a.poemId with
    | none => .raises (noPoem a.attrs) a.attrs []
    | some poem =>
      ((synthesizer.backendFor (AudioAttrs.lang a.attrs)).synthesize dataDir id a.attrs
        (some poem.character) (textFor a.attrs poem) o).act

end PoetryGenerator
