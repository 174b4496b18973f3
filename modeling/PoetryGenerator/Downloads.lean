/-
# Downloading a file (`_download_atomic` in `api/app/tts.py`)

A file is fetched to a `.part` file next to its destination, its size and its SHA256 are
compared with the expected ones, and only then it is renamed.  The `finally` block
removes what is left of the `.part` file.

A call is a sequence of operations on the directory.  `urlretrieve` opens the `.part` file,
writes any bytes in any pieces, and returns or raises after any of them; each operation
up to the rename may raise.  The rename is atomic.  What a killed call leaves is the
directory between two operations, so `Pc.Ok` says of each of these moments what is in the
directory, compared with the one the call started from.
-/

import Mathlib.Logic.Function.Basic
import PoetryGenerator.Text

namespace PoetryGenerator

/-- The contents of a file. -/
abbrev Bytes := List UInt8

/-- The files of a directory, by their names. -/
abbrev Dir := Str → Option Bytes

/-- The arguments of `_download_atomic`, with the name of `dest`. -/
structure Download where
  url : Str
  dest : Str
  expectedSize : Option ℕ := none
  expectedSha256 : Option Str := none
deriving DecidableEq

namespace Download

/-- The next operation of a call.  The `finally` block is entered with the exception that
was raised, if one was, and ends with it. -/
inductive Pc
  /-- `urlretrieve`, before the temporary file is opened. -/
  | opening
  /-- `urlretrieve`, while the file is open. -/
  | writing
  /-- `tmp.stat()`. -/
  | stat
  /-- `_sha256(tmp)`. -/
  | hash
  /-- `os.replace(tmp, dest)`. -/
  | replace
  /-- `tmp.exists()`. -/
  | tmpExists (exc : Option Str)
  /-- `tmp.unlink()`. -/
  | unlink (exc : Option Str)
  /-- The call returned or raised. -/
  | ended (exc : Option Str)
deriving DecidableEq

/-- What the next operation does. -/
inductive Op
  | ok
  /-- `urlretrieve` writes some bytes. -/
  | write (chunk : Bytes)
  | raises (exc : Str)
deriving DecidableEq

variable (d : Download) (sha256 : Bytes → Str)

/-- The name of `tmp`. -/
def tmp : Str := d.dest ++ ".part".toList

/-- The `OSError` for a file of this size. -/
def sizeMismatch (actual : ℕ) : Option Str :=
  match d.expectedSize with
  | none => none
  | some expected =>
    if actual ≠ expected then
      some ("size mismatch for ".toList ++ d.dest ++ ": got ".toList ++ Numerals.strOfInt actual ++
        ", want ".toList ++ Numerals.strOfInt expected)
    else none

/-- The `OSError` for a file with this SHA256. -/
def shaMismatch (actual : Str) : Option Str :=
  match d.expectedSha256 with
  | none => none
  | some expected =>
    if actual ≠ expected then
      some ("sha256 mismatch for ".toList ++ d.dest ++ ": got ".toList ++ actual ++ ", want ".toList ++ expected)
    else none

/-- After the size was read. -/
def sized (actual : ℕ) : Pc :=
  match d.sizeMismatch actual with
  | some exc => .tmpExists (some exc)
  | none => if d.expectedSha256.isSome then .hash else .replace

/-- After the SHA256 was computed. -/
def hashed (actual : Str) : Pc :=
  match d.shaMismatch actual with
  | some exc => .tmpExists (some exc)
  | none => .replace

/-- An operation of a call, on a directory.  `stat`, `open` and `replace` can only raise
for a file that is not there. -/
def step (dir : Dir) : Pc → Op → Option (Dir × Pc)
  | .opening, .ok => some (Function.update dir d.tmp (some []), .writing)
  | .writing, .write chunk =>
    (dir d.tmp).map fun bytes => (Function.update dir d.tmp (some (bytes ++ chunk)), .writing)
  | .writing, .ok => some (dir, .stat)
  | .stat, .ok => (dir d.tmp).map fun bytes => (dir, d.sized bytes.length)
  | .hash, .ok => (dir d.tmp).map fun bytes => (dir, d.hashed (sha256 bytes))
  | .replace, .ok =>
    (dir d.tmp).map fun bytes =>
      (Function.update (Function.update dir d.dest (some bytes)) d.tmp none, .tmpExists none)
  | .tmpExists exc, .ok => some (dir, if (dir d.tmp).isSome then .unlink exc else .ended exc)
  | .unlink exc, .ok => some (Function.update dir d.tmp none, .ended exc)
  | .opening, .raises exc | .writing, .raises exc | .stat, .raises exc | .hash, .raises exc
  | .replace, .raises exc => some (dir, .tmpExists (some exc))
  | _, _ => none

/-! ### What is in the directory -/

/-- The contents are what was expected. -/
structure Fits (bytes : Bytes) : Prop where
  size : ∀ expected, d.expectedSize = some expected → bytes.length = expected
  sha256 : ∀ expected, d.expectedSha256 = some expected → sha256 bytes = expected

variable (before dir : Dir)

/-- All but the `.part` file is as before. -/
def Untouched : Prop := ∀ f, f ≠ d.tmp → dir f = before f

/-- A file that fits is at the destination, and the others are as before. -/
structure Delivered : Prop where
  dest : ∃ bytes, dir d.dest = some bytes ∧ d.Fits sha256 bytes
  other : ∀ f, f ≠ d.tmp → f ≠ d.dest → dir f = before f

/-- The directory before each operation of a call. -/
def Pc.Ok : Pc → Prop
  | .opening => dir = before
  | .writing | .stat | .tmpExists (some _) | .unlink (some _) => d.Untouched before dir
  | .hash => d.Untouched before dir ∧ ∀ bytes, dir d.tmp = some bytes → d.sizeMismatch bytes.length = none
  | .replace => d.Untouched before dir ∧ ∀ bytes, dir d.tmp = some bytes → d.Fits sha256 bytes
  | .tmpExists none | .unlink none | .ended none => d.Delivered sha256 before dir
  | .ended (some _) => d.Untouched before dir ∧ dir d.tmp = none

variable {d sha256 before dir}

theorem dest_ne_tmp (d : Download) : d.dest ≠ d.tmp := by
  intro h
  have hlength := congrArg List.length h
  rw [tmp, List.length_append] at hlength
  have hpart : ".part".toList.length = 5 := by decide
  omega

theorem sizeMismatch_eq_none {actual : ℕ} :
    d.sizeMismatch actual = none ↔ ∀ expected, d.expectedSize = some expected → actual = expected := by
  unfold sizeMismatch
  cases d.expectedSize with
  | none => simp
  | some expected => simp

theorem shaMismatch_eq_none {actual : Str} :
    d.shaMismatch actual = none ↔ ∀ expected, d.expectedSha256 = some expected → actual = expected := by
  unfold shaMismatch
  cases d.expectedSha256 with
  | none => simp
  | some expected => simp

theorem Untouched.update_tmp (h : d.Untouched before dir) (file : Option Bytes) :
    d.Untouched before (Function.update dir d.tmp file) :=
  fun f hf => (Function.update_of_ne hf ..).trans (h f hf)

theorem Delivered.update_tmp (h : d.Delivered sha256 before dir) (file : Option Bytes) :
    d.Delivered sha256 before (Function.update dir d.tmp file) where
  dest := by
    obtain ⟨bytes, hbytes, hfits⟩ := h.dest
    exact ⟨bytes, (Function.update_of_ne d.dest_ne_tmp ..).trans hbytes, hfits⟩
  other f hf hd := (Function.update_of_ne hf ..).trans (h.other f hf hd)

/-- The checks of the size and of the SHA256. -/
theorem Untouched.sized (h : d.Untouched before dir) {bytes : Bytes} (hbytes : dir d.tmp = some bytes) :
    (d.sized bytes.length).Ok d sha256 before dir := by
  unfold Download.sized
  cases hsize : d.sizeMismatch bytes.length with
  | some exc => exact h
  | none =>
      have hall : ∀ bytes', dir d.tmp = some bytes' → d.sizeMismatch bytes'.length = none := by
        intro bytes' h'
        obtain rfl := Option.some.inj (hbytes.symm.trans h')
        exact hsize
      cases hsha : d.expectedSha256 with
      | some expected => exact ⟨h, hall⟩
      | none =>
          refine ⟨h, fun bytes' h' => ⟨fun expected he => ?_, fun expected he => ?_⟩⟩
          · exact sizeMismatch_eq_none.1 (hall bytes' h') expected he
          · cases hsha.symm.trans he

theorem Untouched.hashed (h : d.Untouched before dir) {bytes : Bytes} (hbytes : dir d.tmp = some bytes)
    (hsize : d.sizeMismatch bytes.length = none) :
    (d.hashed (sha256 bytes)).Ok d sha256 before dir := by
  unfold Download.hashed
  cases hsha : d.shaMismatch (sha256 bytes) with
  | some exc => exact h
  | none =>
      refine ⟨h, fun bytes' h' => ?_⟩
      obtain rfl := Option.some.inj (hbytes.symm.trans h')
      exact ⟨sizeMismatch_eq_none.1 hsize, shaMismatch_eq_none.1 hsha⟩

/-- The rename. -/
theorem Untouched.replace (h : d.Untouched before dir) {bytes : Bytes} (hfits : d.Fits sha256 bytes) :
    d.Delivered sha256 before
      (Function.update (Function.update dir d.dest (some bytes)) d.tmp none) where
  dest := ⟨bytes, (Function.update_of_ne d.dest_ne_tmp ..).trans (Function.update_self ..), hfits⟩
  other f hf hd :=
    (Function.update_of_ne hf ..).trans ((Function.update_of_ne hd ..).trans (h f hf))

/-- **An operation** keeps what is known of the directory. -/
theorem Pc.Ok.step {pc pc' : Pc} {op : Op} {dir' : Dir} (h : pc.Ok d sha256 before dir)
    (hstep : d.step sha256 dir pc op = some (dir', pc')) : pc'.Ok d sha256 before dir' := by
  cases op with
  | raises exc =>
      cases pc with
      | opening =>
          cases hstep
          exact fun f _ => congrFun h f
      | writing | stat =>
          cases hstep
          exact h
      | hash | replace =>
          cases hstep
          exact h.1
      | tmpExists | unlink | ended => cases hstep
  | write chunk =>
      cases pc with
      | writing =>
          obtain ⟨bytes, -, he⟩ := Option.map_eq_some_iff.1 hstep
          cases he
          exact Untouched.update_tmp h _
      | _ => cases hstep
  | ok =>
      cases pc with
      | opening =>
          cases hstep
          exact Untouched.update_tmp (fun f _ => congrFun h f) _
      | writing =>
          cases hstep
          exact h
      | stat =>
          obtain ⟨bytes, hbytes, he⟩ := Option.map_eq_some_iff.1 hstep
          cases he
          exact Untouched.sized h hbytes
      | hash =>
          obtain ⟨bytes, hbytes, he⟩ := Option.map_eq_some_iff.1 hstep
          cases he
          exact h.1.hashed hbytes (h.2 bytes hbytes)
      | replace =>
          obtain ⟨bytes, hbytes, he⟩ := Option.map_eq_some_iff.1 hstep
          cases he
          exact h.1.replace (h.2 bytes hbytes)
      | tmpExists exc =>
          cases hstep
          split_ifs with hsome
          · cases exc <;> exact h
          · cases exc with
            | none => exact h
            | some exc => exact ⟨h, Option.not_isSome_iff_eq_none.1 hsome⟩
      | unlink exc =>
          cases hstep
          cases exc with
          | none => exact Delivered.update_tmp h none
          | some exc => exact ⟨Untouched.update_tmp h none, Function.update_self ..⟩
      | ended exc => cases hstep

/-- **At every moment of a call** a file other than the `.part` file is as before, or is the
destination with contents that fit. -/
theorem Pc.Ok.file {pc : Pc} (h : pc.Ok d sha256 before dir) {f : Str} (hf : f ≠ d.tmp) :
    dir f = before f ∨ f = d.dest ∧ ∃ bytes, dir f = some bytes ∧ d.Fits sha256 bytes := by
  have hdelivered : d.Delivered sha256 before dir →
      dir f = before f ∨ f = d.dest ∧ ∃ bytes, dir f = some bytes ∧ d.Fits sha256 bytes := by
    intro hd
    by_cases heq : f = d.dest
    · exact .inr ⟨heq, heq ▸ hd.dest⟩
    · exact .inl (hd.other f hf heq)
  cases pc with
  | opening => exact .inl (congrFun h f)
  | writing | stat => exact .inl (h f hf)
  | hash | replace => exact .inl (h.1 f hf)
  | tmpExists exc | unlink exc =>
      cases exc with
      | none => exact hdelivered h
      | some exc => exact .inl (h f hf)
  | ended exc =>
      cases exc with
      | none => exact hdelivered h
      | some exc => exact .inl (h.1 f hf)

end Download
end PoetryGenerator
