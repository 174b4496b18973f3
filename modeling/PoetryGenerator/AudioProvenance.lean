/-
# The backend of an audio

The column `backend` of an audio row has a default, and of the three synthesizers only
VOICEVOX sets it.  So the column names the backend that wrote the file unless that was
XTTS (`backend_recorded`), whatever the settings were when the worker was started and
however many attempts failed before.

`Voicing` is the system with the synthesizer of the audio worker, which a start makes
anew, and the backend that wrote each file last.
-/

import PoetryGenerator.AssetOrigins
import PoetryGenerator.OrphanFiles
import PoetryGenerator.Synthesizers

namespace PoetryGenerator

/-! ### A call of the synthesizer -/

/-- The column `backend`. -/
def Asset.backend (a : Asset .audio) : TtsBackend := AudioAttrs.backend a.attrs

/-- What a synthesizer leaves in the column. -/
def TtsBackend.recordedIn (b column : TtsBackend) : TtsBackend :=
  if b = .voicevox then .voicevox else column

/-- How a call for an asset ends, of which `out` is the file. -/
inductive Speaks (b : TtsBackend) (a : Asset .audio) (out : Path) : SpeakOutcome → Act .audio → Prop
  | returns {attrs : AudioAttrs} (h : attrs.backend = b.recordedIn a.backend) :
      Speaks b a out (.spoken .returns) (.returns out.str attrs [out])
  | raises {o exc wrote} (h : ∀ p ∈ wrote, p = out) : Speaks b a out o (.raises exc a.attrs wrote)
  | unsupported {o exc} : Speaks b a out o (.unsupported exc a.attrs [])

section Speaks
variable (dataDir : Path) (id : ℤ) (a : Asset .audio) (character : Option Str) (text : Str)

/-- The ends a synthesizer's engine may have. -/
theorem speaks_act {b : TtsBackend} {attrs : AudioAttrs} (h : attrs.backend = b.recordedIn a.backend)
    (out : Path) (o : SpeechOutcome) : Speaks b a out (.spoken o) (o.act a.attrs attrs out) := by
  cases o with
  | returns => exact .returns h
  | raises exc wrote =>
      refine .raises fun p hp => ?_
      cases wrote
      · cases hp
      · exact List.mem_singleton.1 hp

theorem speaks_synthesize (b : TtsBackend) (o : SpeechOutcome) :
    Speaks b a (audioOutPath dataDir id) (.spoken o) (b.synthesize dataDir id a.attrs character text o).act := by
  cases b with
  | piper =>
      rw [TtsBackend.synthesize, piper]
      split
      · exact .unsupported
      · exact speaks_act a rfl _ o
  | xtts => exact speaks_act a rfl _ o
  | voicevox => exact speaks_act a rfl _ o

/-- **A call of the worker's synthesizer.** -/
theorem speaks_speak (synthesizer : Synthesizer) (db : Db) (o : SpeakOutcome) :
    Speaks (synthesizer.backendFor (AudioAttrs.lang a.attrs)) a (audioOutPath dataDir id) o
      (synthesizer.speak dataDir db id a o) := by
  cases o with
  | unread exc => exact .raises fun p hp => by cases hp
  | spoken o =>
      rw [Synthesizer.speak]
      split
      · exact .raises fun p hp => by cases hp
      · exact speaks_synthesize ..

variable {a} {b : TtsBackend} {out : Path} {o : SpeakOutcome} {act : Act .audio}

/-- It writes no other file. -/
theorem Speaks.wrote_eq (h : Speaks b a out o act) : ∀ p ∈ act.wrote, p = out := by
  cases h with
  | returns => exact fun p hp => List.mem_singleton.1 hp
  | raises h => exact h
  | unsupported => exact fun p hp => absurd hp List.not_mem_nil

/-- A call that raises leaves the columns as they are. -/
theorem Speaks.attrs_eq (h : Speaks b a out o act) {exc : Str} {attrs : AudioAttrs} {wrote : List Path}
    (hact : act = .raises exc attrs wrote ∨ act = .unsupported exc attrs wrote) : attrs = a.attrs := by
  cases h with
  | returns => rcases hact with h | h <;> cases h
  | raises =>
      rcases hact with h | h <;> cases h
      rfl
  | unsupported =>
      rcases hact with h | h <;> cases h
      rfl

/-- A call that returns has written its file, and its backend may have recorded itself. -/
theorem Speaks.of_returns {path : Str} {attrs : AudioAttrs} {wrote : List Path}
    (h : Speaks b a out o act) (hact : act = .returns path attrs wrote) :
    o = .spoken .returns ∧ path = out.str ∧ wrote = [out] ∧ attrs.backend = b.recordedIn a.backend := by
  cases h with
  | returns h =>
      cases hact
      exact ⟨rfl, rfl, rfl, h⟩
  | raises => cases hact
  | unsupported => cases hact

end Speaks

/-! ### The audio worker and its synthesizer -/

/-- The system, the synthesizer of the audio worker, and the backend that wrote each file last. -/
structure Voicing where
  sys : Sys
  synthesizer : Synthesizer
  writer : Path → Option TtsBackend

/-- A step of the system; a start of the audio worker, by its environment, and a call of its
synthesizer. -/
inductive VoiceLabel
  | start (env : Env)
  | speak (o : SpeakOutcome)
  | other (l : Label)

/-- The steps that are neither. -/
def Label.isMute : Label → Bool
  | .worker .audio .start => false
  | .worker .audio act => act.attrs.isNone
  | _ => true

namespace Voicing

/-- Before the first start. -/
def init : Voicing := ⟨.init, .backend .piper, fun _ => none⟩

/-- The call of the synthesizer for the audio of a session. -/
def act (cfg : Config) (s : Voicing) (session : Session .audio) (o : SpeakOutcome) : Act .audio :=
  s.synthesizer.speak cfg.dataDir s.sys.world.db session.job.loaded.refId session.asset.cur o

/-- The backend that is called for it. -/
def backendOf (s : Voicing) (session : Session .audio) : TtsBackend :=
  s.synthesizer.backendFor (AudioAttrs.lang session.asset.cur.attrs)

theorem speaks (cfg : Config) (s : Voicing) (session : Session .audio) (o : SpeakOutcome) :
    Speaks (s.backendOf session) session.asset.cur (audioOutPath cfg.dataDir session.job.loaded.refId) o
      (s.act cfg session o) :=
  speaks_speak ..

/-- The step of a label, where it is enabled. -/
def step (cfg : Config) (s : Voicing) : VoiceLabel → Option Voicing
  | .start env =>
    (PoetryGenerator.step cfg s.sys (.worker .audio .start)).map fun sys =>
      { s with sys := sys, synthesizer := defaultSynthesizer env }
  | .speak o =>
    match s.sys.workers .audio with
    | .call session =>
      let act := s.act cfg session o
      (PoetryGenerator.step cfg s.sys (.worker .audio act)).map fun sys =>
        { s with
          sys := sys
          writer := fun p => if act.wrote.contains p then some (s.backendOf session) else s.writer p }
    | _ => none
  | .other l =>
    if l.isMute then (PoetryGenerator.step cfg s.sys l).map fun sys => { s with sys := sys } else none

/-- The backend whose call returns in a step. -/
def returning (s : Voicing) : VoiceLabel → Option TtsBackend
  | .speak (.spoken .returns) =>
    match s.sys.workers .audio with
    | .call session => some (s.backendOf session)
    | _ => none
  | _ => none

/-- **Audio provenance**: an audio that is done names the backend that wrote its file. -/
def Provenance (cfg : Config) (s : Voicing) : Prop :=
  ∀ ref row, s.sys.world.db.asset .audio ref = some row → row.status = .done →
    ∃ b, row.path = some (audioOutPath cfg.dataDir ref).str ∧
      s.writer (audioOutPath cfg.dataDir ref) = some b ∧ row.backend = b

/-- A step is a call of the synthesizer, or another step of the system. -/
inductive Steps (cfg : Config) (s s' : Voicing) : VoiceLabel → Label → Prop
  | spoke {session o} (hpc : s.sys.workers .audio = .call session)
      (hwriter : s'.writer = fun p =>
        if (s.act cfg session o).wrote.contains p then some (s.backendOf session) else s.writer p) :
      Steps cfg s s' (.speak o) (.worker .audio (s.act cfg session o))
  | mute {l l'} (hl : ∀ act : Act .audio, l' = .worker .audio act → act.attrs = none)
      (hwriter : s'.writer = s.writer) : Steps cfg s s' l l'

variable {cfg : Config} {s s' : Voicing} {l : VoiceLabel}

theorem steps_of_step (h : s.step cfg l = some s') :
    ∃ l', Moves cfg s.sys l' s'.sys ∧ Steps cfg s s' l l' := by
  cases l with
  | start env =>
      obtain ⟨sys, hsys, rfl⟩ := Option.map_eq_some_iff.1 h
      refine ⟨_, moves_of_step hsys, .mute (fun act hl => ?_) rfl⟩
      rw [← Label.worker_inj hl]
      rfl
  | speak o =>
      simp only [step] at h
      split at h
      · next session hpc =>
          obtain ⟨sys, hsys, rfl⟩ := Option.map_eq_some_iff.1 h
          exact ⟨_, moves_of_step hsys, .spoke hpc rfl⟩
      · cases h
  | other l =>
      simp only [step] at h
      split_ifs at h with hl
      obtain ⟨sys, hsys, rfl⟩ := Option.map_eq_some_iff.1 h
      refine ⟨_, moves_of_step hsys, .mute (fun act hact => ?_) rfl⟩
      subst hact
      cases act <;> first | rfl | cases hl

/-! ### Every run -/

/-- Where the columns of an audio come from, if the backends that return are allowed. -/
structure Sourced (cfg : Config) (allowed : TtsBackend → Prop) (writer : Path → Option TtsBackend)
    (ref : ℤ) (a : Asset .audio) : Prop where
  pending : a.status ≠ .done → a.backend = .piper
  done : a.status = .done → ∃ b, allowed b ∧ a.path = some (audioOutPath cfg.dataDir ref).str ∧
    writer (audioOutPath cfg.dataDir ref) = some b ∧ a.backend = b.recordedIn .piper

/-- **The invariant.** -/
structure Ok (cfg : Config) (allowed : TtsBackend → Prop) (s : Voicing) : Prop where
  sys : s.sys.Ok cfg
  sourced : ∀ ref (a : Asset .audio), s.sys.HasAsset .audio ref a → Sourced cfg allowed s.writer ref a

theorem ok_init (allowed : TtsBackend → Prop) : init.Ok cfg allowed where
  sys := Sys.ok_init
  sourced ref a h := by
    rcases h with h | ⟨session, h, -⟩
    · cases h
    · cases h

variable {allowed : TtsBackend → Prop}

/-- A step writes no file of an audio that is done. -/
theorem Steps.writer_eq {l' : Label} (h : Steps cfg s s' l l') (hs : s.sys.Ok cfg) {ref : ℤ}
    {a : Asset .audio} (ha : s.sys.HasAsset .audio ref a) (hdone : a.status = .done) :
    s'.writer (audioOutPath cfg.dataDir ref) = s.writer (audioOutPath cfg.dataDir ref) := by
  rcases h with @⟨session, o, hpc, hwriter⟩ | ⟨-, hwriter⟩
  · have hne : audioOutPath cfg.dataDir ref ∉ (s.act cfg session o).wrote := by
      intro hmem
      have hpath := (s.speaks cfg session o).wrote_eq _ hmem
      obtain rfl := audioOutPath_injective (congrArg Path.str hpath)
      have hrunning := ha.running_of_call hs hpc
      rw [hrunning] at hdone
      cases hdone
    rw [hwriter]
    exact if_neg (mt List.contains_iff_mem.1 hne)
  · rw [hwriter]

/-- What a call leaves in the audio. -/
theorem Steps.attrs_eq {l' : Label} (h : Steps cfg s s' l l') {session : Session .audio}
    (hpc : s.sys.workers .audio = .call session) {exc : Str} {attrs : AudioAttrs} {wrote : List Path}
    (hl : l' = .worker .audio (.raises exc attrs wrote) ∨ l' = .worker .audio (.unsupported exc attrs wrote)) :
    attrs = session.asset.cur.attrs := by
  rcases h with @⟨session', o, hpc', -⟩ | ⟨hmute, -⟩
  · obtain rfl := Pc.call.inj (hpc'.symm.trans hpc)
    exact (s.speaks cfg session' o).attrs_eq (hl.imp Label.worker_inj Label.worker_inj)
  · rcases hl with hl | hl <;> cases hmute _ hl

theorem Steps.of_returns {l' : Label} (h : Steps cfg s s' l l') {session : Session .audio}
    (hpc : s.sys.workers .audio = .call session) {path : Str} {attrs : AudioAttrs} {wrote : List Path}
    (hl : l' = .worker .audio (.returns path attrs wrote)) :
    ∃ b, s.returning l = some b ∧ path = (audioOutPath cfg.dataDir session.job.loaded.refId).str ∧
      s'.writer (audioOutPath cfg.dataDir session.job.loaded.refId) = some b ∧
      attrs.backend = b.recordedIn session.asset.cur.backend := by
  rcases h with @⟨session', o, hpc', hwriter⟩ | ⟨hmute, -⟩
  · obtain rfl := Pc.call.inj (hpc'.symm.trans hpc)
    have hact : s.act cfg session' o = .returns path attrs wrote := Label.worker_inj hl
    obtain ⟨rfl, rfl, rfl, hbackend⟩ := (s.speaks cfg session' o).of_returns hact
    refine ⟨s.backendOf session', ?_, rfl, ?_, hbackend⟩
    · rw [returning, hpc]
    · rw [hwriter, hact]
      exact if_pos (List.contains_iff_mem.2 (List.mem_singleton_self _))
  · cases hmute _ hl

theorem Sourced.congr {writer writer' : Path → Option TtsBackend} {ref : ℤ} {a : Asset .audio}
    (h : Sourced cfg allowed writer ref a) (heq : a.status = .done →
      writer' (audioOutPath cfg.dataDir ref) = writer (audioOutPath cfg.dataDir ref)) :
    Sourced cfg allowed writer' ref a where
  pending := h.pending
  done hdone := by
    obtain ⟨b, hb, hpath, hwriter, hbackend⟩ := h.done hdone
    exact ⟨b, hb, hpath, (heq hdone).trans hwriter, hbackend⟩

/-- An asset that is not done has the default. -/
theorem Sourced.of_pending {writer : Path → Option TtsBackend} {ref : ℤ} {a : Asset .audio}
    (hstatus : a.status ≠ .done) (hbackend : a.backend = .piper) : Sourced cfg allowed writer ref a where
  pending _ := hbackend
  done h := absurd h hstatus

/-- An audio that a synthesizer is called for has the default. -/
theorem Ok.backend_of_call (h : s.Ok cfg allowed) {session : Session .audio}
    (hpc : s.sys.workers .audio = .call session) : session.asset.cur.backend = .piper := by
  have hcall := Sys.hasAsset_of_call hpc
  refine (h.sourced _ _ hcall).pending ?_
  rw [hcall.running_of_call h.sys hpc]
  decide

/-- **Step lemma.** -/
theorem Ok.step (h : s.Ok cfg allowed) (hallowed : ∀ b ∈ s.returning l, allowed b)
    (hstep : s.step cfg l = some s') : s'.Ok cfg allowed := by
  obtain ⟨l', hmoves, hsteps⟩ := steps_of_step hstep
  refine ⟨hmoves.ok h.sys, fun ref a ha => ?_⟩
  cases hmoves.origin h.sys ha with
  | held hold => exact (h.sourced ref a hold).congr (hsteps.writer_eq h.sys hold)
  | created => exact .of_pending (fun h => by cases h) rfl
  | status hold hne hst => exact .of_pending hst ((h.sourced ref _ hold).pending hne)
  | @raised session exc attrs wrote st hpc hl hst =>
      obtain rfl := hsteps.attrs_eq hpc hl
      exact .of_pending hst (h.backend_of_call hpc)
  | @returned session path attrs wrote hpc hl =>
      obtain ⟨b, hb, rfl, hwriter, hbackend⟩ := hsteps.of_returns hpc hl
      rw [h.backend_of_call hpc] at hbackend
      exact ⟨fun hne => absurd rfl hne, fun _ => ⟨b, hallowed b hb, rfl, hwriter, hbackend⟩⟩

/-- **Run lemma.** -/
theorem run_ok {ls : List VoiceLabel} (hr : Runs.run (Voicing.step cfg) init ls = some s)
    (h : Runs.Along (Voicing.step cfg) (fun s l => ∀ b ∈ s.returning l, allowed b) init ls) :
    s.Ok cfg allowed :=
  Runs.run_invariant (fun _ _ _ hs ha hstep => hs.step ha hstep) (ok_init allowed) h hr

end Voicing

theorem TtsBackend.recordedIn_piper_iff {b : TtsBackend} : b.recordedIn .piper = b ↔ b ≠ .xtts := by
  cases b <;> decide

/-- **The column names the writer exactly when that is not XTTS.**  And in a run in which
no call of XTTS returns, all of the audios that are done name theirs. -/
theorem backend_recorded (cfg : Config) {ls : List VoiceLabel} {s : Voicing}
    (hr : Runs.run (Voicing.step cfg) Voicing.init ls = some s) :
    (∀ ref row, s.sys.world.db.asset .audio ref = some row → row.status = .done →
      ∃ b, row.path = some (audioOutPath cfg.dataDir ref).str ∧
        s.writer (audioOutPath cfg.dataDir ref) = some b ∧ (row.backend = b ↔ b ≠ .xtts)) ∧
    (Runs.Along (Voicing.step cfg) (fun s l => s.returning l ≠ some .xtts) Voicing.init ls →
      s.Provenance cfg) := by
  constructor
  · intro ref row hrow hdone
    have hok : s.Ok cfg fun _ => True := Voicing.run_ok hr (Runs.along_of_forall fun _ _ _ _ _ => trivial)
    obtain ⟨b, -, hpath, hwriter, hbackend⟩ := (hok.sourced ref row (.inl hrow)).done hdone
    exact ⟨b, hpath, hwriter, by rw [hbackend, TtsBackend.recordedIn_piper_iff]⟩
  · intro halong ref row hrow hdone
    have hok : s.Ok cfg (· ≠ .xtts) :=
      Voicing.run_ok hr (halong.mono fun s l hne b hb heq => hne (heq ▸ hb))
    obtain ⟨b, hb, hpath, hwriter, hbackend⟩ := (hok.sourced ref row (.inl hrow)).done hdone
    exact ⟨b, hpath, hwriter, by rw [hbackend, TtsBackend.recordedIn_piper_iff.2 hb]⟩

namespace Sample

/-- An environment with one variable. -/
def only (name value : String) : Env := fun key => if key = name.toList then some value.toList else none

/-- A step of the audio worker. -/
abbrev audioAct (a : Act .audio) : VoiceLabel := .other (.worker .audio a)

/-- An operation of the audio worker that does not raise. -/
abbrev audioOk : VoiceLabel := audioAct (.reply .ok)

/-- A poem in a language is persisted and both ids are pushed. -/
def requestedIn (lang : String) : List VoiceLabel :=
  [.other (.persist { args with lang := lang.toList } ids .ok), .other (.push 0 .ok), .other (.push 0 .ok)]

/-- The audio worker starts, and calls the synthesizer for job 2. -/
def calledIn (env : Env) : List VoiceLabel :=
  [.start env, audioOk, audioOk, audioOk, audioAct (.rows [2]), audioOk, audioOk, audioOk, audioOk]

/-- XTTS speaks English. -/
def spokenByXtts : List VoiceLabel :=
  requestedIn "en" ++ calledIn (only "TTS_BACKEND" "xtts") ++ [.speak (.spoken .returns), audioOk]

/-- XTTS fails for Japanese after it opened the file; the worker is started again with
VOICEVOX, which speaks it. -/
def spokenAgain : List VoiceLabel :=
  requestedIn "ja" ++ calledIn (only "TTS_BACKEND" "xtts") ++
    [.speak (.spoken (.raises "CUDA out of memory".toList true)), audioOk, audioOk, audioOk, audioOk,
      audioOk, audioAct .kill] ++
    calledIn (only "VOICEVOX_URL" "http://voicevox:50021") ++ [.speak (.spoken .returns), audioOk]

end Sample

/-- **An audio of XTTS** is done with the backend Piper. -/
theorem xtts_recorded_as_piper : ¬∀ cfg ls s, Runs.run (Voicing.step cfg) Voicing.init ls = some s →
    s.Provenance cfg := by
  intro h
  have hrun : ∃ s row, Runs.run (Voicing.step (Sample.config 1)) Voicing.init Sample.spokenByXtts = some s ∧
      s.sys.world.db.asset .audio 1 = some row ∧ row.status = .done ∧ row.backend = .piper ∧
      s.writer (audioOutPath (Sample.config 1).dataDir 1) = some .xtts := ⟨_, _, rfl, rfl, rfl, rfl, by decide⟩
  obtain ⟨s, row, hr, hrow, hdone, hpiper, hxtts⟩ := hrun
  obtain ⟨b, -, hwriter, hbackend⟩ := h _ _ s hr 1 row hrow hdone
  rw [hxtts] at hwriter
  obtain rfl := Option.some.inj hwriter
  exact absurd (hpiper.symm.trans hbackend) (by decide)

/-- VOICEVOX records itself, after XTTS failed. -/
theorem backend_recorded_again : ∃ s row,
    Runs.run (Voicing.step (Sample.config 1)) Voicing.init Sample.spokenAgain = some s ∧
      s.Provenance (Sample.config 1) ∧ s.sys.world.db.asset .audio 1 = some row ∧ row.status = .done ∧
      row.backend = .voicevox := by
  have hrun : ∃ s row, Runs.run (Voicing.step (Sample.config 1)) Voicing.init Sample.spokenAgain = some s ∧
      s.sys.world.db.asset .audio 1 = some row ∧ row.status = .done ∧ row.backend = .voicevox :=
    ⟨_, _, rfl, rfl, rfl, rfl⟩
  obtain ⟨s, row, hr, hrow, hdone, hvoicevox⟩ := hrun
  exact ⟨s, row, hr, (backend_recorded (Sample.config 1) hr).2 (by decide), hrow, hdone, hvoicevox⟩

end PoetryGenerator
