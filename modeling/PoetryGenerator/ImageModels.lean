/-
# The catalogue of image models (`api/app/image_models.py`)

A request may select a checkpoint only from an allow-list: the built-in models,
those of `SD_MODELS`, and the configured default.  Each has a type, which selects
the workflow.
-/

import PoetryGenerator.Lib.Tables
import PoetryGenerator.Text

namespace PoetryGenerator

/-- The environment variables. -/
abbrev Env := Str → Option Str

namespace ImageModels

/-- The type of a model. -/
inductive ModelType
  | sd15
  | sdxl
deriving DecidableEq, Repr

/-- `ImageModel`. -/
structure ImageModel where
  name : Str
  type : ModelType
  label : Str
deriving DecidableEq, Repr

/-- `_BUILTIN`. -/
def builtin : List ImageModel :=
  [⟨"anything-v5.safetensors".toList, .sd15, "Anything v5 (SD 1.5)".toList⟩,
    ⟨"sdxl.safetensors".toList, .sdxl, "SDXL base".toList⟩,
    ⟨"AnythingXL_v50.safetensors".toList, .sdxl, "AnythingXL v5.0 (SDXL)".toList⟩]

/-- `_norm_type`.  Of the letters of `sdxl` only the ASCII capitals have them as lower case. -/
def normType (value : Str) : ModelType :=
  if value.strip.map Char.toLower = "sdxl".toList then .sdxl else .sd15

/-- `default_type`. -/
def defaultType (env : Env) : ModelType :=
  normType ((env "SD_MODEL_TYPE".toList).getD "sd15".toList)

/-- `default_name`. -/
def defaultName (env : Env) : Str :=
  let ckpt := (env "SD_CHECKPOINT".toList).getD []
  if ckpt ≠ [] then ckpt
  else match defaultType env with
    | .sdxl => "sdxl.safetensors".toList
    | .sd15 => "anything-v5.safetensors".toList

/-- One entry `name:type[:label]` of `SD_MODELS`. -/
def addEntry (byName : Table Str ImageModel) (entry : Str) : Table Str ImageModel :=
  let parts := entry.splitOn ':'
  let name := Str.strip (parts.headD [])
  if name = [] then byName
  else
    let label := Str.strip (parts.getD 2 [])
    byName.set name
      { name
        type := (parts[1]?.map normType).getD .sd15
        label := if label ≠ [] then label else name }

/-- `catalog`. -/
def catalog (env : Env) : List ImageModel :=
  let entries := ((((env "SD_MODELS".toList).getD []).splitOn ',').map Str.strip).filter (· ≠ [])
  let byName := entries.foldl addEntry (builtin.foldl (fun t m => t.set m.name m) ∅)
  let d := defaultName env
  let byName := if d ∈ byName then byName else byName.set d ⟨d, defaultType env, d⟩
  byName.entries.map Sigma.snd

/-- The name `resolve` looks for: the given one, or the default. -/
def target (name : Option Str) (env : Env) : Str :=
  if name.getD [] ≠ [] then name.getD [] else defaultName env

/-- `resolve`, without a result for a name that is not in the catalogue. -/
def resolve (name : Option Str) (env : Env) : Option ImageModel :=
  (catalog env).find? (·.name = target name env)

/-- What is resolved has the name that was looked for. -/
theorem name_of_resolve {name : Option Str} {env : Env} {m : ImageModel}
    (h : resolve name env = some m) : m.name = target name env := by
  simpa using List.find?_some h

end ImageModels
end PoetryGenerator
