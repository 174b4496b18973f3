/-
# The voices of Piper (`_ensure_voice` in `api/app/tts.py`)

A voice is a model file and its configuration.  `_ensure_voice` returns a model that is
there with its configuration and has the expected size, or else downloads both again.

`Cache` is the directory of the voices over a sequence of calls, each of which may be
killed before any of its operations.  From an empty directory a registered model is never
there with other than its contents, and from any directory what is returned has the
expected size (`never_poisoned`).
-/

import PoetryGenerator.Downloads
import PoetryGenerator.Lib.Runs

namespace PoetryGenerator

/-- `VOICE_URLS`, `VOICE_SIZE` and `VOICE_SHA256`. -/
structure Voices where
  urls : List (Str × Str)
  sizes : List (Str × ℕ)
  sha256s : List (Str × Str)

/-- `_VOICE_BASE`. -/
def voiceBase : Str := "https://huggingface.co/rhasspy/piper-voices/resolve/main".toList

/-- The registered voices. -/
def registeredVoices : Voices where
  urls := [("en_US-amy-low".toList, voiceBase ++ "/en/en_US/amy/low/en_US-amy-low.onnx".toList),
    ("en_US-amy-medium".toList, voiceBase ++ "/en/en_US/amy/medium/en_US-amy-medium.onnx".toList)]
  sizes := [("en_US-amy-low".toList, 63104526), ("en_US-amy-medium".toList, 63201294)]
  sha256s :=
    [("en_US-amy-low".toList, "a5a91abb7de0f104358a25aded480ddacf1ff0762886325886ec406a2e86aab3".toList),
      ("en_US-amy-medium".toList, "b3a6e47b57b8c7fbe6a0ce2518161a50f59a9cdd8a50835c02cb02bdd6206c18".toList)]

/-- **Every registered voice** has an expected size and SHA256. -/
theorem registeredVoices_checked : ∀ name ∈ registeredVoices.urls.map Prod.fst,
    (registeredVoices.sizes.lookup name).isSome ∧ (registeredVoices.sha256s.lookup name).isSome := by
  decide +kernel

/-- The name of the model file of a voice. -/
def onnx (name : Str) : Str := name ++ ".onnx".toList

/-- The name of its configuration. -/
def voiceConfig (name : Str) : Str := name ++ ".onnx.json".toList

/-- The two downloads of a voice. -/
inductive VoiceFile
  | model
  | config
deriving DecidableEq

namespace Voices

variable (voices : Voices)

/-- The arguments of a download. -/
def download (name url : Str) : VoiceFile → Download
  | .model => ⟨url, onnx name, voices.sizes.lookup name, voices.sha256s.lookup name⟩
  | .config => ⟨url ++ ".json".toList, voiceConfig name, none, none⟩

end Voices

/-- Where the sequence of calls is. -/
inductive EnsurePc
  /-- Before the first call, or after a kill. -/
  | dead
  /-- A call returned the model of a voice. -/
  | returned (name : Str)
  /-- A call raised, in one of its downloads or outside of them. -/
  | raised (download : Option Download) (exc : Str)
  /-- `_voices_dir.mkdir(parents=True, exist_ok=True)`. -/
  | mkdir (name : Str)
  /-- `onnx.exists()`. -/
  | onnxExists (name : Str)
  /-- `cfg.exists()`. -/
  | cfgExists (name : Str)
  /-- `onnx.stat()` of the comparison. -/
  | cachedSize (name : Str) (expected : ℕ)
  /-- `onnx.stat()` of the message. -/
  | warn (name : Str)
  /-- A download. -/
  | download (name url : Str) (file : VoiceFile) (pc : Download.Pc)
deriving DecidableEq

/-- The directory, and what it was before the download that is running or was the last. -/
structure Cache where
  dir : Dir
  pc : EnsurePc
  before : Dir

/-- A call, an operation of the one that is running, or a kill. -/
inductive CacheLabel
  | call (name : Str)
  | op (op : Download.Op)
  | kill

namespace Cache

variable (voices : Voices) (sha256 : Bytes → Str)

/-- Before the first call. -/
def init (dir : Dir) : Cache := ⟨dir, .dead, dir⟩

/-- No call is running. -/
def idle (s : Cache) : Bool :=
  match s.pc with
  | .dead | .returned _ | .raised .. => true
  | _ => false

/-- The first download, or the `ValueError` for a voice that is not registered. -/
def startDownload (s : Cache) (name : Str) : Cache :=
  let url := (voices.urls.lookup name).getD []
  if url = [] then { s with pc := .raised none ("unknown Piper voice: ".toList ++ name) }
  else { s with pc := .download name url .model .opening, before := s.dir }

/-- After an operation of a download. -/
def downloaded (s : Cache) (name url : Str) (file : VoiceFile) : Dir × Download.Pc → Cache
  | (dir, .ended (some exc)) =>
    { s with dir, pc := .raised (some (voices.download name url file)) exc }
  | (dir, .ended none) =>
    match file with
    | .model => ⟨dir, .download name url .config .opening, dir⟩
    | .config => { s with dir, pc := .returned name }
  | (dir, pc) => { s with dir, pc := .download name url file pc }

/-- An operation of the call that is running. -/
def operation (s : Cache) (op : Download.Op) : Option Cache :=
  match s.pc, op with
  | .mkdir name, .ok => some { s with pc := .onnxExists name }
  | .onnxExists name, .ok =>
    some (if (s.dir (onnx name)).isSome then { s with pc := .cfgExists name } else s.startDownload voices name)
  | .cfgExists name, .ok =>
    some (if (s.dir (voiceConfig name)).isSome then
      match voices.sizes.lookup name with
      | none => { s with pc := .returned name }
      | some expected => { s with pc := .cachedSize name expected }
    else s.startDownload voices name)
  | .cachedSize name expected, .ok =>
    (s.dir (onnx name)).map fun bytes =>
      if bytes.length ≠ expected then { s with pc := .warn name } else { s with pc := .returned name }
  | .warn name, .ok => some (s.startDownload voices name)
  | .download name url file pc, op =>
    ((voices.download name url file).step sha256 s.dir pc op).map (s.downloaded voices name url file)
  | .mkdir _, .raises exc | .onnxExists _, .raises exc | .cfgExists _, .raises exc
  | .cachedSize .., .raises exc | .warn _, .raises exc => some { s with pc := .raised none exc }
  | _, _ => none

/-- The step of a label, where it is enabled. -/
def step (s : Cache) : CacheLabel → Option Cache
  | .call name => if s.idle then some { s with pc := .mkdir name } else none
  | .op op => s.operation voices sha256 op
  | .kill => some { s with pc := .dead }

end Cache

/-! ### The names of the files -/

theorem getLast?_onnx (name : Str) : (onnx name).getLast? = some 'x' := by
  rw [onnx, List.getLast?_append]
  rfl

theorem getLast?_voiceConfig (name : Str) : (voiceConfig name).getLast? = some 'n' := by
  rw [voiceConfig, List.getLast?_append]
  rfl

theorem getLast?_tmp (d : Download) : d.tmp.getLast? = some 't' := by
  rw [Download.tmp, List.getLast?_append]
  rfl

theorem onnx_injective {name name' : Str} (h : onnx name = onnx name') : name = name' :=
  List.append_cancel_right h

theorem onnx_ne_tmp (name : Str) (d : Download) : onnx name ≠ d.tmp := fun h =>
  absurd ((getLast?_onnx name).symm.trans (h ▸ getLast?_tmp d)) (by decide)

theorem onnx_ne_voiceConfig (name name' : Str) : onnx name ≠ voiceConfig name' := fun h =>
  absurd ((getLast?_onnx name).symm.trans (h ▸ getLast?_voiceConfig name')) (by decide)

/-! ### What is in the directory -/

namespace Voices

variable (voices : Voices) (sha256 : Bytes → Str)

/-- A model with an expected size and SHA256 is not there, or has them. -/
def Intact (dir : Dir) : Prop :=
  ∀ name size sha, voices.sizes.lookup name = some size → voices.sha256s.lookup name = some sha →
    ∀ bytes, dir (onnx name) = some bytes → bytes.length = size ∧ sha256 bytes = sha

/-- The model of a voice is there, with the expected size if there is one. -/
def Sized (dir : Dir) (name : Str) : Prop :=
  ∃ bytes, dir (onnx name) = some bytes ∧ ∀ size, voices.sizes.lookup name = some size → bytes.length = size

variable {voices sha256} {name url : Str} {file : VoiceFile} {before dir : Dir} {pc : Download.Pc}

/-- **A download** leaves the models intact at every moment. -/
theorem Intact.download (h : voices.Intact sha256 before)
    (hpc : pc.Ok (voices.download name url file) sha256 before dir) : voices.Intact sha256 dir := by
  intro name' size sha hsize hsha bytes hbytes
  rcases hpc.file (onnx_ne_tmp name' _) with hsame | ⟨hdest, bytes', hbytes', hfits⟩
  · exact h name' size sha hsize hsha bytes (hsame.symm.trans hbytes)
  · obtain rfl := Option.some.inj (hbytes.symm.trans hbytes')
    cases file with
    | model =>
        obtain rfl := onnx_injective hdest
        exact ⟨hfits.size size hsize, hfits.sha256 sha hsha⟩
    | config => exact absurd hdest (onnx_ne_voiceConfig name' name)

/-- The model that was downloaded. -/
theorem Sized.of_delivered (h : (voices.download name url .model).Delivered sha256 before dir) :
    voices.Sized dir name := by
  obtain ⟨bytes, hbytes, hfits⟩ := h.dest
  exact ⟨bytes, hbytes, hfits.size⟩

/-- It is still there when the configuration is. -/
theorem Sized.of_config (h : voices.Sized before name)
    (hd : (voices.download name url .config).Delivered sha256 before dir) : voices.Sized dir name := by
  obtain ⟨bytes, hbytes, hsize⟩ := h
  have hsame := hd.other (onnx name) (onnx_ne_tmp name _) (onnx_ne_voiceConfig name name)
  exact ⟨bytes, hsame.trans hbytes, hsize⟩

end Voices

/-! ### Every sequence of calls -/

section
variable (voices : Voices) (sha256 : Bytes → Str)

/-- What is known between two operations. -/
def EnsurePc.Ok (before dir : Dir) : EnsurePc → Prop
  | .dead | .mkdir _ | .onnxExists _ | .warn _ | .raised none _ => True
  | .cfgExists name => (dir (onnx name)).isSome
  | .cachedSize name expected =>
    voices.sizes.lookup name = some expected ∧ (dir (voiceConfig name)).isSome
  | .returned name => voices.Sized dir name ∧ (dir (voiceConfig name)).isSome
  | .raised (some d) _ => d.Untouched before dir ∧ dir d.tmp = none
  | .download name url file pc =>
    pc.Ok (voices.download name url file) sha256 before dir ∧ (file = .config → voices.Sized before name)

/-- **The invariant**, for a directory to start from. -/
structure Cache.Ok (start : Dir) (s : Cache) : Prop where
  pc : s.pc.Ok voices sha256 s.before s.dir
  intact : voices.Intact sha256 start → voices.Intact sha256 s.before ∧ voices.Intact sha256 s.dir

end

namespace Cache

variable {voices : Voices} {sha256 : Bytes → Str} {start : Dir} {s s' : Cache}

theorem ok_init (start : Dir) : (init start).Ok voices sha256 start where
  pc := trivial
  intact h := ⟨h, h⟩

/-- A step that leaves the directory as it is. -/
theorem Ok.goto (h : s.Ok voices sha256 start) {pc : EnsurePc}
    (hpc : pc.Ok voices sha256 s.before s.dir) : ({ s with pc } : Cache).Ok voices sha256 start :=
  ⟨hpc, h.intact⟩

theorem Ok.startDownload (h : s.Ok voices sha256 start) (name : Str) :
    (s.startDownload voices name).Ok voices sha256 start := by
  unfold Cache.startDownload
  dsimp only
  split_ifs with hurl
  · exact h.goto trivial
  · exact ⟨⟨rfl, fun h => by cases h⟩, fun hi => ⟨(h.intact hi).2, (h.intact hi).2⟩⟩

theorem Ok.downloaded (h : s.Ok voices sha256 start) {name url : Str} {file : VoiceFile} {dir : Dir}
    {pc : Download.Pc} (hconfig : file = .config → voices.Sized s.before name)
    (hpc : pc.Ok (voices.download name url file) sha256 s.before dir) :
    (s.downloaded voices name url file (dir, pc)).Ok voices sha256 start := by
  have hintact : voices.Intact sha256 start → voices.Intact sha256 s.before ∧ voices.Intact sha256 dir :=
    fun hi => ⟨(h.intact hi).1, (h.intact hi).1.download hpc⟩
  cases pc with
  | ended exc =>
      cases exc with
      | some exc => exact ⟨hpc, hintact⟩
      | none =>
          cases file with
          | model =>
              exact ⟨⟨rfl, fun _ => .of_delivered hpc⟩, fun hi => ⟨(hintact hi).2, (hintact hi).2⟩⟩
          | config =>
              obtain ⟨bytes, hbytes, -⟩ := hpc.dest
              have hsome : (dir (voiceConfig name)).isSome := Option.isSome_iff_exists.2 ⟨bytes, hbytes⟩
              exact ⟨⟨(hconfig rfl).of_config hpc, hsome⟩, hintact⟩
  | _ => exact ⟨⟨hpc, hconfig⟩, hintact⟩

/-- **Step lemma** for an operation. -/
theorem Ok.operation (h : s.Ok voices sha256 start) {op : Download.Op}
    (hstep : s.operation voices sha256 op = some s') : s'.Ok voices sha256 start := by
  have hok := h.pc
  unfold Cache.operation at hstep
  split at hstep
  · cases hstep
    exact h.goto trivial
  · next name hpc =>
      cases hstep
      split_ifs with hmodel
      · exact h.goto hmodel
      · exact h.startDownload name
  · next name hpc =>
      rw [hpc] at hok
      cases hstep
      split_ifs with hconfig
      · split
        · next hsize =>
            obtain ⟨bytes, hbytes⟩ := Option.isSome_iff_exists.1 hok
            have hsized : voices.Sized s.dir name :=
              ⟨bytes, hbytes, fun size hs => by cases hsize.symm.trans hs⟩
            exact h.goto ⟨hsized, hconfig⟩
        · next expected hsize => exact h.goto ⟨hsize, hconfig⟩
      · exact h.startDownload name
  · next name expected hpc =>
      rw [hpc] at hok
      obtain ⟨bytes, hbytes, rfl⟩ := Option.map_eq_some_iff.1 hstep
      split_ifs with hne
      · exact h.goto trivial
      · have hsized : voices.Sized s.dir name := by
          refine ⟨bytes, hbytes, fun size hs => ?_⟩
          rw [← Option.some.inj (hok.1.symm.trans hs)]
          exact not_not.1 hne
        exact h.goto ⟨hsized, hok.2⟩
  · next name hpc =>
      cases hstep
      exact h.startDownload name
  · next name url file pc op hpc =>
      rw [hpc] at hok
      obtain ⟨⟨dir, pc'⟩, hd, rfl⟩ := Option.map_eq_some_iff.1 hstep
      exact h.downloaded hok.2 (hok.1.step hd)
  all_goals
    cases hstep
  all_goals
    exact h.goto trivial

theorem Ok.step (h : s.Ok voices sha256 start) {l : CacheLabel}
    (hstep : s.step voices sha256 l = some s') : s'.Ok voices sha256 start := by
  cases l with
  | call name =>
      simp only [Cache.step] at hstep
      split_ifs at hstep
      cases hstep
      exact h.goto trivial
  | op op => exact h.operation hstep
  | kill =>
      cases hstep
      exact h.goto trivial

/-- **Run lemma.** -/
theorem run_ok {ls : List CacheLabel} (hr : Runs.run (Cache.step voices sha256) (init start) ls = some s) :
    s.Ok voices sha256 start :=
  Runs.run_invariant (P := fun _ _ => True) (fun _ _ _ hs _ h => hs.step h) (ok_init start)
    (Runs.along_of_forall fun _ _ _ => trivial) hr

end Cache

/-- What holds in every state of a sequence of calls: a voice that was returned is there with
its configuration and the expected size, and a download that raised has left everything as
it was, without its `.part` file. -/
structure Cache.Sound (voices : Voices) (s : Cache) : Prop where
  returned : ∀ name, s.pc = .returned name →
    voices.Sized s.dir name ∧ (s.dir (voiceConfig name)).isSome
  raised : ∀ d exc, s.pc = .raised (some d) exc →
    s.dir d.dest = s.before d.dest ∧ s.dir d.tmp = none ∧ ∀ f, f ≠ d.tmp → s.dir f = s.before f

/-- **The voice cache is never poisoned.** -/
theorem never_poisoned (voices : Voices) (sha256 : Bytes → Str) (start : Dir) (ls : List CacheLabel)
    (s : Cache) (hr : Runs.run (Cache.step voices sha256) (Cache.init start) ls = some s) :
    s.Sound voices ∧ (start = (fun _ => none) → ∀ name size sha, voices.sizes.lookup name = some size →
      voices.sha256s.lookup name = some sha → s.dir (onnx name) = none ∨
        ∃ bytes, s.dir (onnx name) = some bytes ∧ bytes.length = size ∧ sha256 bytes = sha) := by
  have hok := Cache.run_ok hr
  refine ⟨⟨fun name hpc => ?_, fun d exc hpc => ?_⟩, fun hempty name size sha hsize hsha => ?_⟩
  · have hreturned := hok.pc
    rw [hpc] at hreturned
    exact hreturned
  · have hraised := hok.pc
    rw [hpc] at hraised
    exact ⟨hraised.1 _ d.dest_ne_tmp, hraised.2, hraised.1⟩
  · subst hempty
    have hintact := (hok.intact fun _ _ _ _ _ _ h => by cases h).2
    cases hmodel : s.dir (onnx name) with
    | none => exact .inl rfl
    | some bytes => exact .inr ⟨bytes, rfl, hintact name size sha hsize hsha bytes hmodel⟩

namespace Sample

/-- The contents of a model. -/
def voiceBytes : Bytes := [118, 111, 105, 99, 101]

/-- Other contents of the same size. -/
def otherBytes : Bytes := [110, 111, 105, 115, 101]

/-- SHA256, of these two. -/
def sha256 (bytes : Bytes) : Str :=
  if bytes = voiceBytes then "c57d7e92019708b614c90fa3685cd644f543a60153fb99ec9b67c381a245fb2a".toList
  else if bytes = otherBytes then "efe2a5c09e6d49d7eb735c9875f77404be5b887bb3f56378038968d4e3ff8198".toList
  else []

/-- A registered voice with these contents. -/
def voices : Voices where
  urls := [("fake-voice".toList, "http://x/fake.onnx".toList)]
  sizes := [("fake-voice".toList, 5)]
  sha256s := [("fake-voice".toList, "c57d7e92019708b614c90fa3685cd644f543a60153fb99ec9b67c381a245fb2a".toList)]

/-- A call, up to where its first download writes. -/
def cacheCall (operations : ℕ) : List CacheLabel :=
  .call "fake-voice".toList :: List.replicate operations (.op .ok)

/-- Some bytes are downloaded, and a number of operations follow. -/
def delivers (bytes : Bytes) (operations : ℕ) : List CacheLabel :=
  .op (.write bytes) :: List.replicate operations (.op .ok)

/-- The first call is killed while it writes, the second gets other contents, the third is
killed while it writes the configuration, and the fourth returns. -/
def cached : List CacheLabel :=
  cacheCall 3 ++ [.op (.write [118]), .kill] ++ (cacheCall 3 ++ delivers otherBytes 5) ++
    (cacheCall 3 ++ delivers voiceBytes 6 ++ [.op (.write [123]), .kill]) ++
    (cacheCall 4 ++ delivers voiceBytes 6 ++ delivers [123, 125] 4)

end Sample

/-- What is returned after these is the registered model. -/
theorem never_poisoned_cached : ∃ s,
    Runs.run (Cache.step Sample.voices Sample.sha256) (Cache.init fun _ => none) Sample.cached = some s ∧
      s.pc = .returned "fake-voice".toList ∧ s.Sound Sample.voices ∧
      s.dir (onnx "fake-voice".toList) = some Sample.voiceBytes := by
  have hrun : ∃ s, Runs.run (Cache.step Sample.voices Sample.sha256) (Cache.init fun _ => none)
      Sample.cached = some s ∧ s.pc = .returned "fake-voice".toList ∧
        s.dir (onnx "fake-voice".toList) = some Sample.voiceBytes := ⟨_, rfl, rfl, rfl⟩
  obtain ⟨s, hr, hpc, hbytes⟩ := hrun
  exact ⟨s, hr, hpc, (never_poisoned Sample.voices Sample.sha256 _ Sample.cached s hr).1, hbytes⟩

end PoetryGenerator
