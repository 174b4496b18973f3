/-
# Asset files (`api/app/assets.py`)

A file is named by the components of its absolute path below a tree without
symbolic links, where `Path.resolve` is lexical: empty and `.` components drop
out and `..` removes the component before it.  `resolve_under` answers a path
below its base or nothing; workers write to `data_dir/<kind>/<name>`, and the
deletion of a poem looks for the file again from the base name of the stored
path (`assetTarget`).
-/

import Mathlib.Data.List.DropRight
import PoetryGenerator.Lib.Numerals
import PoetryGenerator.Models

namespace PoetryGenerator

/-- The components of an absolute path. -/
abbrev Path := List Str

/-- `str(path)`. -/
def Path.str (p : Path) : Str := p.flatMap fun c => '/' :: c

/-- `os.path.basename`: what follows the last separator. -/
def basename (p : Str) : Str := p.rtakeWhile (· ≠ '/')

/-- One component of `Path.resolve`, without symbolic links. -/
def Path.push (p : Path) (c : Str) : Path :=
  if c = [] ∨ c = ['.'] then p else if c = ['.', '.'] then p.dropLast else p ++ [c]

/-- `(base / rel).resolve()`: an absolute `rel` replaces the base. -/
def Path.join (base : Path) (rel : Str) : Path :=
  (rel.splitOn '/').foldl Path.push (if rel.head? = some '/' then [] else base)

/-- `resolve_under`: a path outside `base` and a path with a null byte (a
`ValueError`) answer nothing. -/
def resolveUnder (base : Path) (rel : Str) : Option Path :=
  if Char.ofNat 0 ∈ rel then none
  else if base <+: base.join rel then some (base.join rel) else none

/-- The directory below `data_dir` that holds the files of a type. -/
def JobType.kind : JobType → Str
  | .image => "images".toList
  | .audio => "audio".toList

/-- The file `_remove_asset_file` looks for; nothing for a row without a path. -/
def assetTarget (dataDir : Path) (t : JobType) : Option Str → Option Path
  | none => none
  | some path =>
    if path = [] then none else resolveUnder dataDir (t.kind ++ '/' :: basename path)

theorem slash_notMem_kind (t : JobType) : '/' ∉ t.kind := by cases t <;> decide

theorem slash_notMem_basename (p : Str) : '/' ∉ basename p := by
  intro h
  simpa using List.mem_rtakeWhile_imp h

theorem basename_append_cons (front : Str) {c : Str} (hc : '/' ∉ c) :
    basename (front ++ '/' :: c) = c := by
  have hs : front ++ '/' :: c = (front ++ ['/']) ++ c := by simp
  rw [hs, basename, List.rtakeWhile, List.reverse_append, List.takeWhile_append_of_pos, List.reverse_append]
  · simp
  · intro a ha
    rw [List.mem_reverse] at ha
    rw [decide_eq_true_eq]
    rintro rfl
    exact hc ha

theorem Path.str_concat (p : Path) (c : Str) : Path.str (p ++ [c]) = Path.str p ++ '/' :: c := by
  simp [Path.str]

/-- The base name of a path string is its last component. -/
theorem basename_str (p : Path) {c : Str} (hc : '/' ∉ c) : basename (Path.str (p ++ [c])) = c := by
  rw [Path.str_concat, basename_append_cons _ hc]

/-- A relative path of a kind and a name resolves component by component. -/
theorem join_kind (base : Path) (t : JobType) {name : Str} (hn : '/' ∉ name) :
    base.join (t.kind ++ '/' :: name) = (base ++ [t.kind]).push name := by
  have hsplit : (t.kind ++ '/' :: name).splitOn '/' = [t.kind, name] := by
    rw [List.splitOn_append_cons_self_of_not_mem (slash_notMem_kind t), List.splitOn_eq_singleton hn]
  have hhead : (t.kind ++ '/' :: name).head? ≠ some '/' := by
    cases t <;> exact fun h => absurd (Option.some.inj h) (by decide)
  have hkind : base.push t.kind = base ++ [t.kind] := by
    rw [Path.push, if_neg (by cases t <;> decide), if_neg (by cases t <;> decide)]
  rw [Path.join, hsplit, if_neg hhead, List.foldl_cons, List.foldl_cons, List.foldl_nil, hkind]

/-- A proper file name: one component of a path. -/
def FileName (name : Str) : Prop :=
  '/' ∉ name ∧ name ≠ [] ∧ name ≠ ['.'] ∧ name ≠ ['.', '.']

theorem push_fileName (p : Path) {name : Str} (h : FileName name) : p.push name = p ++ [name] := by
  rw [Path.push, if_neg (not_or.2 ⟨h.2.1, h.2.2.1⟩), if_neg h.2.2.2]

/-- **The target of a removal.**  When `_remove_asset_file` finds a file for a
stored path, the file is `data_dir/<kind>/<base name>` or a directory above it. -/
theorem assetTarget_eq_some {dataDir f : Path} {t : JobType} {path : Option Str}
    (h : assetTarget dataDir t path = some f) :
    ∃ p, path = some p ∧ f = (dataDir ++ [t.kind]).push (basename p) := by
  cases path with
  | none => exact absurd h (by simp [assetTarget])
  | some p =>
      refine ⟨p, rfl, ?_⟩
      rw [assetTarget, resolveUnder] at h
      split_ifs at h
      rw [← Option.some.inj h, join_kind _ _ (slash_notMem_basename p)]

/-! ### What the workers store -/

/-- `out_path` of `ComfyUIClient.__call__`, for a file name without a separator. -/
def imageOutPath (dataDir : Path) (promptId filename : Str) : Path :=
  dataDir ++ [JobType.image.kind, promptId ++ '_' :: filename]

/-- `out_path` of the synthesizers. -/
def audioOutPath (dataDir : Path) (id : ℤ) : Path :=
  dataDir ++ [JobType.audio.kind, Numerals.strOfInt id ++ ".wav".toList]

theorem str_kind (dataDir : Path) (t : JobType) (name : Str) :
    Path.str (dataDir ++ [t.kind, name]) = Path.str dataDir ++ '/' :: (t.kind ++ '/' :: name) := by
  simp [Path.str]

/-- The path string determines the file name. -/
theorem name_eq_of_str {dataDir : Path} {t : JobType} {name name' : Str}
    (h : Path.str (dataDir ++ [t.kind, name]) = Path.str (dataDir ++ [t.kind, name'])) :
    name = name' := by
  rw [str_kind, str_kind] at h
  have h := (List.cons.inj (List.append_cancel_left h)).2
  exact (List.cons.inj (List.append_cancel_left h)).2

/-- The path string determines the type. -/
theorem type_eq_of_str {dataDir : Path} {t u : JobType} {name name' : Str}
    (h : Path.str (dataDir ++ [t.kind, name]) = Path.str (dataDir ++ [u.kind, name'])) : t = u := by
  rw [str_kind, str_kind] at h
  have h := (List.cons.inj (List.append_cancel_left h)).2
  cases t <;> cases u <;> first | rfl | exact absurd (List.cons.inj h).1 (by decide)

/-- Prompt ids without an underscore can be read back from the file names. -/
theorem promptId_eq_of_name {promptId promptId' filename filename' : Str} (h : '_' ∉ promptId)
    (h' : '_' ∉ promptId')
    (he : promptId ++ '_' :: filename = promptId' ++ '_' :: filename') : promptId = promptId' := by
  have htake : ∀ p f : Str, '_' ∉ p → (p ++ '_' :: f).takeWhile (· ≠ '_') = p := by
    intro p f hp
    rw [List.takeWhile_append_of_pos]
    · simp
    · intro c hc
      rw [decide_eq_true_eq]
      rintro rfl
      exact hp hc
  rw [← htake promptId filename h, he, htake promptId' filename' h']

/-- An image file name is a proper one. -/
theorem fileName_image {promptId filename : Str} (h : '/' ∉ promptId) (h' : '/' ∉ filename) :
    FileName (promptId ++ '_' :: filename) := by
  have hmem : '_' ∈ promptId ++ '_' :: filename := by simp
  refine ⟨by simp [h, h'], by simp, fun he => ?_, fun he => ?_⟩ <;>
    · rw [he] at hmem
      exact absurd hmem (by decide)

/-- An audio file name is a proper one. -/
theorem fileName_audio (id : ℤ) : FileName (Numerals.strOfInt id ++ ".wav".toList) := by
  have hmem : 'w' ∈ Numerals.strOfInt id ++ ".wav".toList := List.mem_append_right _ (by decide)
  refine ⟨fun hs => ?_, List.ne_nil_of_mem hmem, fun he => ?_, fun he => ?_⟩
  · rcases List.mem_append.1 hs with hs | hs
    · exact absurd hs (Numerals.notMem_strOfInt (by decide) (by decide) id)
    · exact absurd hs (by decide)
  all_goals
    rw [he] at hmem
    exact absurd hmem (by decide)

/-- Different audios are stored under different paths. -/
theorem audioOutPath_injective {dataDir : Path} {id id' : ℤ}
    (h : (audioOutPath dataDir id).str = (audioOutPath dataDir id').str) : id = id' :=
  Numerals.strOfInt_injective (List.append_cancel_right (name_eq_of_str h))

/-- **Removal finds the stored file.**  For a path a worker stored,
`_remove_asset_file` looks for the file of that path. -/
theorem str_of_assetTarget {dataDir f : Path} {t : JobType} {name : Str} (hn : FileName name)
    (h : assetTarget dataDir t (some (Path.str (dataDir ++ [t.kind, name]))) = some f) :
    f.str = Path.str (dataDir ++ [t.kind, name]) := by
  obtain ⟨p, hp, rfl⟩ := assetTarget_eq_some h
  obtain rfl := Option.some.inj hp
  have hsplit : dataDir ++ [t.kind, name] = (dataDir ++ [t.kind]) ++ [name] := by simp
  rw [hsplit, basename_str _ hn.1, push_fileName _ hn]

end PoetryGenerator
