/-
# Rendering an image (`api/app/comfyui_client.py`)

The processor of the image worker looks up the type of the row's checkpoint in the
catalogue, takes the graph and the size that go with it, draws a seed, records what
it will use in the row, and submits the graph.

A graph is modelled by the inputs of its nodes; the links between the nodes are the
same in every graph.  What follows the submission (polling, the download, the file) is
the `ComfyOutcome` of the call.
-/

import Mathlib.Data.Rat.Defs
import PoetryGenerator.ImageModels
import PoetryGenerator.Worker

namespace PoetryGenerator
namespace ComfyUi

open ImageModels

/-! ### Prompts -/

/-- `QUALITY_PREFIX`. -/
def qualityPrefix : Str :=
  "\x7b\x7b\x7bmasterpiece\x7d\x7d\x7d, \x7b\x7b\x7bbest quality\x7d\x7d\x7d, ".toList ++
    "\x7b\x7bultra-detailed\x7d\x7d, \x7billustration\x7d, ".toList ++
    "\x7b\x7ban extremely delicate and beautiful\x7d\x7d, high quality, very_high_resolution, ".toList ++
    "large_filesize, full color".toList

/-- `BASE_NEGATIVE`. -/
def baseNegative : Str :=
  "lowres, bad anatomy, bad hands, text, error, missing fingers, extra digit, ".toList ++
    "fewer digits, cropped, worst quality, low quality, normal quality, ".toList ++
    "jpeg artifacts, signature, watermark, username, blurry, artist name, ".toList ++
    "multiple legs, malformation, multiple angle, longbody, pubic hair, ".toList ++
    "missing arms, head_out_of_frame, 2koma, panel layout".toList

/-- Some tags, and those of the poem after them. -/
def withTags (first tags : Str) : Str :=
  let tags := (tags.strip.rstrip ',').strip
  if tags = [] then first else first ++ ", ".toList ++ tags

/-- `with_quality_prefix`. -/
def withQualityPrefix (prompt : Str) : Str := withTags qualityPrefix prompt

/-- `with_base_negative`. -/
def withBaseNegative (negative : Str) : Str := withTags baseNegative negative

/-! ### Graphs -/

/-- The inputs of the nodes of a graph. -/
structure Workflow where
  seed : ℤ
  steps : ℤ
  cfg : ℚ
  samplerName : Str
  scheduler : Str
  denoise : ℚ
  ckptName : Str
  width : ℤ
  height : ℤ
  batchSize : ℤ
  positive : Str
  negative : Str
  filenamePrefix : Str
deriving DecidableEq

/-- `DEFAULT_WORKFLOW`. -/
def defaultWorkflow : Workflow where
  seed := 0
  steps := 25
  cfg := 7
  samplerName := "euler_ancestral".toList
  scheduler := "normal".toList
  denoise := 1
  ckptName := "anything-v5.safetensors".toList
  width := 512
  height := 512
  batchSize := 1
  positive := []
  negative := baseNegative
  filenamePrefix := "ddlc_poem".toList

/-- `SDXL_WORKFLOW`. -/
def sdxlWorkflow : Workflow :=
  { defaultWorkflow with
    samplerName := "dpmpp_2m".toList
    scheduler := "karras".toList
    steps := 30
    width := 1024
    height := 1024
    ckptName := "sdxl.safetensors".toList }

/-- `workflow_for`. -/
def workflowFor : ModelType → Workflow
  | .sdxl => sdxlWorkflow
  | .sd15 => defaultWorkflow

/-- The graph of `ComfyUIClient.generate`. -/
def Workflow.fill (wf : Workflow) (prompt negative checkpoint : Str) (seed steps : ℤ) (cfg : ℚ)
    (width height : ℤ) : Workflow :=
  { wf with
    ckptName := checkpoint
    positive := withQualityPrefix prompt
    negative := withBaseNegative negative
    seed := seed
    steps := steps
    cfg := cfg
    width := width
    height := height }

/-! ### The processor -/

/-- How `ComfyUIClient.generate` ends, with the files it wrote. -/
inductive ComfyOutcome
  | returns (path : Str) (wrote : List Path)
  | raises (exc : Str) (wrote : List Path)

/-- The processor's own outcome, with the columns it set. -/
def ComfyOutcome.act (image : ImageAttrs) : ComfyOutcome → Act .image
  | returns path wrote => .returns path image wrote
  | raises exc wrote => .raises exc image wrote

/-- A call of the processor: the graph it submits, if it comes to that, and its outcome. -/
structure Attempt where
  graph : Option Workflow
  act : Act .image

/-- `int(resolved_env.get(key, default))`; nothing is a `ValueError`. -/
def setting (env : Env) (key default : String) : Option ℤ :=
  intOfText ((env key.toList).getD default.toList)

/-- The model of a name: that of the catalogue, or one of the default type. -/
def renderModel (env : Env) (name : Str) : ImageModel :=
  (resolve (some name) env).getD ⟨name, defaultType env, name⟩

/-- The values `random.randint(0, 2**31 - 1)` draws. -/
abbrev Seed := Fin 2147483648

section Processor
variable (floatOf : Str → Option ℚ) (env : Env) (fallback : Str)

/-- `processor`.  `floatOf` is `float`; `exc` is the text of a `ValueError` of a setting. -/
def processor (image : ImageAttrs) (seed : Seed) (exc : Str) (outcome : ComfyOutcome) : Attempt :=
  let checkpoint := image.checkpoint.getD []
  let name := if checkpoint ≠ [] then checkpoint else fallback
  let model := renderModel env name
  let sdxl := model.type = .sdxl
  match setting env "SD_WIDTH" (if sdxl then "1024" else "512"),
      setting env "SD_HEIGHT" (if sdxl then "1024" else "512") with
  | some width, some height =>
    let image := { image with seed := some (seed : ℕ), checkpoint := some name, width, height }
    match setting env "SD_STEPS" (if sdxl then "30" else "25"),
        floatOf ((env "SD_CFG".toList).getD "7".toList) with
    | some steps, some cfg =>
      { graph := some ((workflowFor model.type).fill image.prompt image.negative name (seed : ℕ) steps
          cfg width height)
        act := outcome.act image }
    | _, _ => { graph := none, act := .raises exc image [] }
  | _, _ => { graph := none, act := .raises exc image [] }

end Processor
end ComfyUi
end PoetryGenerator
