/-
# The HTTP client of ComfyUI (`api/app/comfyui_client.py`)

`ComfyUIClient.generate` submits the graph, asks `/history` until the prompt has an entry
there or the deadline has passed, fetches the first image of the first node that has one,
and writes it below `DATA_DIR/images`.

What a server answers is arbitrary JSON.  `malformed` is the text of the `KeyError`,
`TypeError` or `AttributeError` that an answer of another shape raises; `repr` is `str()`
of a value that is no text or has a lone surrogate, and `floatTruth` the truth of a float
literal.

The first poll that finds an entry, raises or comes too late decides (`awaitOutputs_iff`).
The loop ends, after no more requests than fit before the deadline (`comfy_polls_end`), and
a path is returned exactly when everything went well, for the file that was served
(`comfy_generate_iff`).
-/

import Mathlib.Algebra.Order.Group.Basic
import Mathlib.Data.List.Chain
import PoetryGenerator.ComfyUi
import PoetryGenerator.Json
import PoetryGenerator.Lib.Lists

namespace PoetryGenerator
namespace ComfyUi

/-! ### JSON values in Python -/

/-- The text of some code points, without lone surrogates. -/
def textOf (points : CodePoints) : Option Str :=
  points.mapM fun n => if n.isValidChar then some (Char.ofNat n) else none

theorem textOf_points (s : Str) : textOf s.points = some s :=
  Lists.mapM_map_eq_some fun c _ => by rw [if_pos (show c.toNat.isValidChar from c.valid), Char.ofNat_toNat]

/-- The code points of a literal. -/
def literal (s : String) : CodePoints := Str.points s.toList

/-- The value of a key; of two members with one key the last counts. -/
def lookupKey (members : List (CodePoints × Json)) (key : CodePoints) : Option Json :=
  (members.reverse.find? fun m => m.1 = key).map Prod.snd

/-- The values of a dict, in the order of its keys. -/
def values (members : List (CodePoints × Json)) : List Json :=
  (members.map Prod.fst).eraseDups.filterMap (lookupKey members)

/-- `/view`: the query that is sent. -/
structure View where
  filename : Json
  subfolder : Json
  type : Json

/-- How writing the file ends: it is written, or an exception was raised, before or after the file
was opened. -/
inductive DiskOutcome
  | done
  | raises (exc : Str) (wrote : Bool)

/-- A reading of the clock, and what the history answers then, if it is asked. -/
structure Poll (T : Type*) where
  time : T
  answer : Except Str Json

section Client
variable (repr : Json → Str) (floatTruth : Str → Bool) (malformed : Str)

/-- `bool(value)`. -/
def truthy : Json → Bool
  | .null => false
  | .bool b => b
  | .int z => z ≠ 0
  | .float literal => floatTruth literal
  | .str s => s ≠ []
  | .arr items => !items.isEmpty
  | .obj members => !members.isEmpty

/-- `str(value)`. -/
def text : Json → Str
  | .str s => (textOf s).getD (repr (.str s))
  | value => repr value

/-- `value.get(key, default)`. -/
def get (value : Json) (key : String) (default : Json) : Except Str Json :=
  match value with
  | .obj members => .ok ((lookupKey members (literal key)).getD default)
  | _ => .error malformed

/-- `value[key]`. -/
def getItem (value : Json) (key : String) : Except Str Json :=
  match value with
  | .obj members => ((lookupKey members (literal key)).map .ok).getD (.error malformed)
  | _ => .error malformed

/-- `a or b`. -/
def orElse (a b : Json) : Json := if truthy floatTruth a then a else b

/-! ### _raise_if_failed -/

/-- What the loop over the messages sees; the items of a text or of a dict are texts. -/
def messageItems : Json → Except Str (List Json)
  | .arr items => .ok items
  | .str _ | .obj _ => .ok []
  | value => if truthy floatTruth value then .error malformed else .ok []

/-- The data of the first `execution_error`. -/
def executionError (items : List Json) : Option Json :=
  items.findSome? fun
    | .arr [.str kind, data] => if kind = literal "execution_error" then some data else none
    | _ => none

/-- `data.get(key) or data.get(other)`, as a text. -/
def firstOf (data : Json) (key other : String) : Except Str Str := do
  let value ← get malformed data key .null
  let value := orElse floatTruth value (← get malformed data other .null)
  .ok (if truthy floatTruth value then text repr value else [])

/-- The node and the exception of an `execution_error`. -/
def detail (data : Json) : Except Str Str := do
  let data := orElse floatTruth data (.obj [])
  let node ← firstOf repr floatTruth malformed data "node_type" "node_id"
  let exc ← firstOf repr floatTruth malformed data "exception_message" "exception_type"
  .ok (": ".toList.intercalate ([node, exc].filter (· ≠ [])))

/-- `_raise_if_failed`. -/
def raiseIfFailed (promptId status : Json) : Except Str Unit :=
  match status with
  | .obj members =>
    match lookupKey members (literal "status_str") with
    | some (.str state) =>
      if state = literal "error" then do
        let messages := (lookupKey members (literal "messages")).getD .null
        let items ← messageItems floatTruth malformed messages
        let found ← match executionError items with
          | some data => detail repr floatTruth malformed data
          | none => .ok []
        .error ("ComfyUI prompt ".toList ++ text repr promptId ++ " failed: ".toList ++
          (if found = [] then "execution error".toList else found))
      else .ok ()
    | _ => .ok ()
  | _ => .ok ()

/-! ### _await_outputs -/

/-- `history.get(prompt_id)` of an answer; nothing for `None`. -/
def entryOf (promptId : Json) (answer : Except Str Json) : Except Str (Option Json) := do
  match ← answer, promptId with
  | .obj members, .str key =>
    match lookupKey members key with
    | none | some .null => .ok none
    | some entry => .ok (some entry)
  | .obj _, .arr _ | .obj _, .obj _ => .error malformed
  | .obj _, _ => .ok none
  | _, _ => .error malformed

/-- The outputs of an entry, unless it failed. -/
def outputsOf (promptId entry : Json) : Except Str Json := do
  let status ← get malformed entry "status" .null
  raiseIfFailed repr floatTruth malformed promptId status
  get malformed entry "outputs" (.obj [])

/-- The text of the `TimeoutError`. -/
def timeoutText (promptId : Json) : Str :=
  "ComfyUI prompt ".toList ++ text repr promptId ++ " did not finish in time".toList

/-- `_await_outputs` after some requests; nothing while it goes on after these polls. -/
def awaitOutputs {T : Type*} [LT T] [DecidableLT T] (promptId : Json) (deadline : T) :
    ℕ → List (Poll T) → Option (ℕ × Except Str Json)
  | _, [] => none
  | requests, poll :: polls =>
    if poll.time < deadline then
      match entryOf malformed promptId poll.answer with
      | .error exc => some (requests + 1, .error exc)
      | .ok none => awaitOutputs promptId deadline (requests + 1) polls
      | .ok (some entry) => some (requests + 1, outputsOf repr floatTruth malformed promptId entry)
    else some (requests, .error (timeoutText repr promptId))

/-! ### generate -/

/-- `_extract_images`; nothing for the empty list. -/
def extractImages (outputs : Json) : Except Str (Option Json) :=
  match outputs with
  | .obj members => .ok ((values members).findSome? fun
    | .obj node =>
      let images := (lookupKey node (literal "images")).getD .null
      if truthy floatTruth images then some images else none
    | _ => none)
  | _ => .error malformed

/-- The query for an image. -/
def viewOf (img : Json) : Except Str View := do
  let filename ← getItem malformed img "filename"
  let subfolder ← get malformed img "subfolder" (.str [])
  let type ← get malformed img "type" (.str (literal "output"))
  .ok { filename, subfolder, type }

/-- The query for the first image of the outputs. -/
def firstView (promptId outputs : Json) : Except Str View := do
  match ← extractImages floatTruth malformed outputs with
  | none => .error ("ComfyUI returned no image for prompt ".toList ++ text repr promptId ++
      " (cached run with empty outputs, or workflow has no SaveImage node)".toList)
  | some (.arr (img :: _)) => viewOf malformed img
  | some _ => .error malformed

/-- `out_path`. -/
def outPath (dataDir : Path) (promptId filename : Json) : Path :=
  let name := text repr promptId ++ '_' :: text repr filename
  (if name.head? = some '/' then [] else dataDir ++ [JobType.image.kind]) ++
    (name.splitOn '/').filter fun c => c ≠ [] ∧ c ≠ ['.']

/-- What a call did: the requests for the history, the query for an image, the file that was written
as a whole, and how it ended. -/
structure Rendered where
  requests : ℕ
  view : Option View
  saved : Option (Path × List UInt8)
  outcome : ComfyOutcome

/-- `_fetch_view`, and the file. -/
def save (dataDir : Path) (promptId : Json) (requests : ℕ) (serve : View → Except Str (List UInt8))
    (disk : DiskOutcome) (view : View) : Rendered :=
  let out := outPath repr dataDir promptId view.filename
  match serve view, disk with
  | .error exc, _ => ⟨requests, some view, none, .raises exc []⟩
  | .ok _, .raises exc wrote => ⟨requests, some view, none, .raises exc (if wrote then [out] else [])⟩
  | .ok data, .done => ⟨requests, some view, some (out, data), .returns out.str [out]⟩

/-- `ComfyUIClient.generate` from its submission on; nothing while it goes on after these polls. -/
def generate {T : Type*} [LT T] [DecidableLT T] (dataDir : Path) (deadline : T) (submit : Except Str Json)
    (polls : List (Poll T)) (serve : View → Except Str (List UInt8)) (disk : DiskOutcome) : Option Rendered :=
  match submit.bind fun answer => getItem malformed answer "prompt_id" with
  | .error exc => some ⟨0, none, none, .raises exc []⟩
  | .ok promptId =>
    (awaitOutputs repr floatTruth malformed promptId deadline 0 polls).map fun (requests, outputs) =>
      match outputs.bind (firstView repr floatTruth malformed promptId) with
      | .error exc => ⟨requests, none, none, .raises exc []⟩
      | .ok view => save repr dataDir promptId requests serve disk view

/-! ### The polls -/

section Polls
variable {T : Type*} [LinearOrder T]

/-- A poll after which the loop goes on. -/
def Pending (promptId : Json) (deadline : T) (poll : Poll T) : Prop :=
  poll.time < deadline ∧ entryOf malformed promptId poll.answer = .ok none

/-- What a poll decides, and the requests it takes. -/
inductive Decides (promptId : Json) (deadline : T) (poll : Poll T) : ℕ → Except Str Json → Prop
  | late (h : deadline ≤ poll.time) : Decides promptId deadline poll 0 (.error (timeoutText repr promptId))
  | raised {exc} (h : poll.time < deadline) (he : entryOf malformed promptId poll.answer = .error exc) :
      Decides promptId deadline poll 1 (.error exc)
  | entry {entry} (h : poll.time < deadline) (he : entryOf malformed promptId poll.answer = .ok (some entry)) :
      Decides promptId deadline poll 1 (outputsOf repr floatTruth malformed promptId entry)

variable {repr floatTruth malformed} {promptId : Json} {deadline : T} {poll : Poll T} {polls : List (Poll T)}
  {n m k : ℕ} {r : Except Str Json}

theorem awaitOutputs_of_pending (h : Pending malformed promptId deadline poll) :
    awaitOutputs repr floatTruth malformed promptId deadline n (poll :: polls) =
      awaitOutputs repr floatTruth malformed promptId deadline (n + 1) polls := by
  rw [awaitOutputs, if_pos h.1, h.2]

theorem awaitOutputs_of_decides (h : Decides repr floatTruth malformed promptId deadline poll k r) :
    awaitOutputs repr floatTruth malformed promptId deadline n (poll :: polls) = some (n + k, r) := by
  cases h with
  | late h => rw [awaitOutputs, if_neg (not_lt.2 h)]; rfl
  | raised h he => rw [awaitOutputs, if_pos h, he]
  | entry h he => rw [awaitOutputs, if_pos h, he]

variable (repr floatTruth malformed promptId deadline) in
/-- A poll is one or the other. -/
theorem pending_or_decides (poll : Poll T) : Pending malformed promptId deadline poll ∨
    ∃ k r, Decides repr floatTruth malformed promptId deadline poll k r := by
  rcases lt_or_ge poll.time deadline with h | h
  · cases he : entryOf malformed promptId poll.answer with
    | error exc => exact .inr ⟨1, _, .raised h he⟩
    | ok entry =>
        cases entry with
        | none => exact .inl ⟨h, he⟩
        | some entry => exact .inr ⟨1, _, .entry h he⟩
  · exact .inr ⟨0, _, .late h⟩

/-- **The first poll that is not pending decides.** -/
theorem awaitOutputs_iff : awaitOutputs repr floatTruth malformed promptId deadline n polls = some (m, r) ↔
    ∃ before poll after k, polls = before ++ poll :: after ∧
      (∀ q ∈ before, Pending malformed promptId deadline q) ∧
      Decides repr floatTruth malformed promptId deadline poll k r ∧ m = n + before.length + k := by
  constructor
  · intro h
    induction polls generalizing n with
    | nil => cases h
    | cons q polls ih =>
        rcases pending_or_decides repr floatTruth malformed promptId deadline q with hq | ⟨k, r', hq⟩
        · rw [awaitOutputs_of_pending hq] at h
          obtain ⟨before, poll, after, k, rfl, hbefore, hpoll, rfl⟩ := ih h
          refine ⟨q :: before, poll, after, k, rfl, List.forall_mem_cons.2 ⟨hq, hbefore⟩, hpoll, ?_⟩
          rw [List.length_cons]
          omega
        · rw [awaitOutputs_of_decides hq] at h
          obtain ⟨rfl, rfl⟩ := Prod.mk.inj (Option.some.inj h)
          exact ⟨[], q, polls, k, rfl, fun q hq => absurd hq List.not_mem_nil, hq, rfl⟩
  · rintro ⟨before, poll, after, k, rfl, hbefore, hpoll, rfl⟩
    induction before generalizing n with
    | nil => exact awaitOutputs_of_decides hpoll
    | cons q before ih =>
        rw [List.forall_mem_cons] at hbefore
        rw [List.cons_append, awaitOutputs_of_pending hbefore.1, ih hbefore.2, List.length_cons,
          Nat.add_right_comm n 1, Nat.add_assoc n _ 1]

end Polls

section Spacing
variable {T : Type*} [AddCommGroup T] [LinearOrder T] [IsOrderedAddMonoid T]

/-- A loop that sleeps between its polls comes to its deadline. -/
theorem awaitOutputs_spaced (promptId : Json) {start deadline interval : T} {polls : List (Poll T)}
    {n k : ℕ} (hchain : polls.IsChain fun p q => p.time + interval ≤ q.time)
    (hstart : ∀ p ∈ polls.head?, start ≤ p.time) (hn : deadline ≤ start + n • interval) :
    (n < polls.length → (awaitOutputs repr floatTruth malformed promptId deadline k polls).isSome) ∧
      ∀ m r, awaitOutputs repr floatTruth malformed promptId deadline k polls = some (m, r) → m ≤ k + n := by
  induction polls generalizing start n k with
  | nil => exact ⟨fun h => absurd h (Nat.not_lt_zero n), fun m r h => by cases h⟩
  | cons p polls ih =>
      have hp : start ≤ p.time := hstart p rfl
      rcases pending_or_decides repr floatTruth malformed promptId deadline p with hpend | ⟨j, r', hdec⟩
      · rw [awaitOutputs_of_pending hpend]
        cases n with
        | zero =>
            rw [zero_nsmul, add_zero] at hn
            exact absurd hpend.1 (not_lt.2 (hn.trans hp))
        | succ n =>
            have hnext : ∀ q ∈ polls.head?, start + interval ≤ q.time := by
              intro q hq
              cases polls with
              | nil => cases hq
              | cons q' polls =>
                  obtain rfl := Option.some.inj hq
                  exact (add_le_add_left hp interval).trans (List.isChain_cons_cons.1 hchain).1
            have hn' : deadline ≤ start + interval + n • interval := by
              rw [add_assoc, ← succ_nsmul']
              exact hn
            obtain ⟨hends, hbound⟩ := ih (k := k + 1) hchain.tail hnext hn'
            refine ⟨fun h => hends (Nat.lt_of_succ_lt_succ h), fun m r h => ?_⟩
            exact (hbound m r h).trans_eq (by omega)
      · rw [awaitOutputs_of_decides hdec]
        refine ⟨fun _ => rfl, fun m r h => ?_⟩
        obtain ⟨rfl, -⟩ := Prod.mk.inj (Option.some.inj h)
        refine Nat.add_le_add_left ?_ k
        cases n with
        | zero =>
            -- no time is left, so the poll came too late
            rw [zero_nsmul, add_zero] at hn
            cases hdec with
            | late => exact le_rfl
            | raised hlt => exact absurd hlt (not_lt.2 (hn.trans hp))
            | entry hlt => exact absurd hlt (not_lt.2 (hn.trans hp))
        | succ n => cases hdec <;> omega

end Spacing

/-! ### The call -/

section Generate
variable {T : Type*} [LinearOrder T] (dataDir : Path) (deadline : T) (submit : Except Str Json)
  (polls : List (Poll T)) (serve : View → Except Str (List UInt8)) (disk : DiskOutcome)

/-- The prompt is accepted, and a poll finds its entry before the deadline, the first to do so. -/
structure Finds (promptId entry : Json) (requests : ℕ) : Prop where
  accepted : ∃ answer, submit = .ok answer ∧ getItem malformed answer "prompt_id" = .ok promptId
  found : ∃ before poll after, polls = before ++ poll :: after ∧
    (∀ q ∈ before, Pending malformed promptId deadline q) ∧ poll.time < deadline ∧
    entryOf malformed promptId poll.answer = .ok (some entry) ∧ requests = before.length + 1

/-- Everything went well, and this is what was done. -/
inductive Delivers : Rendered → Prop
  | intro {promptId entry outputs view data requests}
      (hfinds : Finds malformed deadline submit polls promptId entry requests)
      (houtputs : outputsOf repr floatTruth malformed promptId entry = .ok outputs)
      (hview : firstView repr floatTruth malformed promptId outputs = .ok view)
      (hdata : serve view = .ok data) (hdisk : disk = .done) :
      Delivers
        { requests
          view := some view
          saved := some (outPath repr dataDir promptId view.filename, data)
          outcome := .returns (outPath repr dataDir promptId view.filename).str
            [outPath repr dataDir promptId view.filename] }

variable {repr floatTruth malformed dataDir deadline submit polls serve disk} {g : Rendered} {promptId : Json}

/-- A call whose prompt is accepted. -/
theorem generate_of_accepted
    (h : ∃ answer, submit = .ok answer ∧ getItem malformed answer "prompt_id" = .ok promptId) :
    generate repr floatTruth malformed dataDir deadline submit polls serve disk =
      (awaitOutputs repr floatTruth malformed promptId deadline 0 polls).map fun p =>
        match p.2.bind (firstView repr floatTruth malformed promptId) with
        | .error exc => ⟨p.1, none, none, .raises exc []⟩
        | .ok view => save repr dataDir promptId p.1 serve disk view := by
  obtain ⟨answer, rfl, hid⟩ := h
  rw [generate]
  show (match getItem malformed answer "prompt_id" with
    | .error exc => _
    | .ok promptId => _) = _
  rw [hid]

theorem awaitOutputs_of_finds {entry : Json} {requests : ℕ}
    (h : Finds malformed deadline submit polls promptId entry requests) :
    awaitOutputs repr floatTruth malformed promptId deadline 0 polls =
      some (requests, outputsOf repr floatTruth malformed promptId entry) := by
  obtain ⟨before, poll, after, hpolls, hbefore, hlt, he, rfl⟩ := h.found
  exact awaitOutputs_iff.2 ⟨before, poll, after, 1, hpolls, hbefore, .entry hlt he, by rw [Nat.zero_add]⟩

/-- How a call ends: the prompt is not accepted, or a poll decides. -/
theorem call_cases
    (h : generate repr floatTruth malformed dataDir deadline submit polls serve disk = some g) :
    (∃ exc, g = ⟨0, none, none, .raises exc []⟩) ∨
    ∃ promptId requests outputs, (∃ answer, submit = .ok answer ∧
        getItem malformed answer "prompt_id" = .ok promptId) ∧
      awaitOutputs repr floatTruth malformed promptId deadline 0 polls = some (requests, outputs) ∧
      ((∃ exc, outputs.bind (firstView repr floatTruth malformed promptId) = .error exc ∧
          g = ⟨requests, none, none, .raises exc []⟩) ∨
        ∃ view, outputs.bind (firstView repr floatTruth malformed promptId) = .ok view ∧
          g = save repr dataDir promptId requests serve disk view) := by
  cases hid : submit.bind fun answer => getItem malformed answer "prompt_id" with
  | error exc =>
      rw [generate, hid] at h
      exact .inl ⟨exc, (Option.some.inj h).symm⟩
  | ok promptId =>
      have haccepted : ∃ answer, submit = .ok answer ∧ getItem malformed answer "prompt_id" = .ok promptId := by
        cases submit with
        | error exc => cases hid
        | ok answer => exact ⟨answer, rfl, hid⟩
      rw [generate_of_accepted haccepted] at h
      obtain ⟨⟨requests, outputs⟩, hawait, rfl⟩ := Option.map_eq_some_iff.1 h
      refine .inr ⟨promptId, requests, outputs, haccepted, hawait, ?_⟩
      cases hview : outputs.bind (firstView repr floatTruth malformed promptId) with
      | error exc => exact .inl ⟨exc, rfl, rfl⟩
      | ok view => exact .inr ⟨view, rfl, rfl⟩

@[simp] theorem requests_save (requests : ℕ) (view : View) :
    (save repr dataDir promptId requests serve disk view).requests = requests := by
  unfold save
  split <;> rfl

/-- What saving a file can come to. -/
theorem save_cases (requests : ℕ) (view : View) :
    (∃ data, serve view = .ok data ∧ disk = .done ∧ save repr dataDir promptId requests serve disk view =
      ⟨requests, some view, some (outPath repr dataDir promptId view.filename, data),
        .returns (outPath repr dataDir promptId view.filename).str
          [outPath repr dataDir promptId view.filename]⟩) ∨
    ∃ exc wrote, (∀ p ∈ wrote, p = outPath repr dataDir promptId view.filename) ∧
      save repr dataDir promptId requests serve disk view = ⟨requests, some view, none, .raises exc wrote⟩ := by
  unfold save
  cases serve view with
  | error exc => exact .inr ⟨exc, [], fun p hp => absurd hp List.not_mem_nil, rfl⟩
  | ok data =>
      cases disk with
      | done => exact .inl ⟨data, rfl, rfl, rfl⟩
      | raises exc wrote =>
          refine .inr ⟨exc, _, fun p hp => ?_, rfl⟩
          cases wrote
          · cases hp
          · exact List.mem_singleton.1 hp

/-- **When a path is returned**: exactly when all went well. -/
theorem generate_returns_iff :
    (generate repr floatTruth malformed dataDir deadline submit polls serve disk = some g ∧
      ∃ path wrote, g.outcome = .returns path wrote) ↔
    Delivers repr floatTruth malformed dataDir deadline submit polls serve disk g := by
  constructor
  · rintro ⟨h, path, wrote, hg⟩
    rcases call_cases h with ⟨exc, rfl⟩ | ⟨promptId, requests, outputs, haccepted, hawait, hend⟩
    · cases hg
    rcases hend with ⟨exc, -, rfl⟩ | ⟨view, hbind, rfl⟩
    · cases hg
    obtain ⟨before, poll, after, k, hpolls, hbefore, hdec, rfl⟩ := awaitOutputs_iff.1 hawait
    cases hdec with
    | late => cases hbind
    | raised => cases hbind
    | @entry entry hlt he =>
        cases houtputs : outputsOf repr floatTruth malformed promptId entry with
        | error exc =>
            rw [houtputs] at hbind
            cases hbind
        | ok outputs =>
            rw [houtputs] at hbind
            have hfinds : Finds malformed deadline submit polls promptId entry (0 + before.length + 1) :=
              ⟨haccepted, before, poll, after, hpolls, hbefore, hlt, he, by rw [Nat.zero_add]⟩
            rcases save_cases (0 + before.length + 1) view with ⟨data, hdata, hdisk, hsave⟩ | ⟨exc, w, -, hsave⟩
            · rw [hsave]
              exact .intro hfinds houtputs hbind hdata hdisk
            · rw [hsave] at hg
              cases hg
  · rintro ⟨hfinds, houtputs, hview, hdata, hdisk⟩
    refine ⟨?_, _, _, rfl⟩
    rw [generate_of_accepted hfinds.accepted, awaitOutputs_of_finds hfinds, houtputs, Option.map_some]
    show some (match firstView repr floatTruth malformed _ _ with
      | .error exc => _
      | .ok view => _) = _
    rw [hview]
    simp only [save, hdata, hdisk]

/-- A call that raises has saved nothing, and opened no file but that of the image it fetched,
under the name of the prompt that was accepted. -/
theorem generate_raises (h : generate repr floatTruth malformed dataDir deadline submit polls serve disk = some g)
    {exc : Str} {wrote : List Path} (hg : g.outcome = .raises exc wrote) :
    g.saved = none ∧ ∀ p ∈ wrote, ∃ answer promptId view, submit = .ok answer ∧
      getItem malformed answer "prompt_id" = .ok promptId ∧ g.view = some view ∧
        p = outPath repr dataDir promptId view.filename := by
  rcases call_cases h with ⟨exc, rfl⟩ |
    ⟨promptId, requests, outputs, ⟨answer, hsubmit, hid⟩, -, ⟨exc, -, rfl⟩ | ⟨view, -, rfl⟩⟩
  · cases hg
    exact ⟨rfl, fun p hp => absurd hp List.not_mem_nil⟩
  · cases hg
    exact ⟨rfl, fun p hp => absurd hp List.not_mem_nil⟩
  · rcases save_cases requests view with ⟨data, -, -, hsave⟩ | ⟨exc, w, hw, hsave⟩
    · rw [hsave] at hg
      cases hg
    · rw [hsave] at hg ⊢
      cases hg
      exact ⟨rfl, fun p hp => ⟨answer, promptId, view, hsubmit, hid, rfl, hw p hp⟩⟩

variable (malformed) in
/-- ComfyUI says of an entry that it failed. -/
def Failed (entry : Json) : Prop :=
  ∃ status, get malformed entry "status" .null = .ok (.obj status) ∧
    lookupKey status (literal "status_str") = some (.str (literal "error"))

theorem outputsOf_failed {entry : Json} (h : Failed malformed entry) :
    ∃ exc, outputsOf repr floatTruth malformed promptId entry = .error exc := by
  obtain ⟨status, hstatus, hstr⟩ := h
  simp only [outputsOf, hstatus, bind, Except.bind, raiseIfFailed, hstr, if_true]
  cases messageItems floatTruth malformed ((lookupKey status (literal "messages")).getD Json.null) with
  | error exc => exact ⟨_, rfl⟩
  | ok items =>
      dsimp only
      cases executionError items with
      | none => exact ⟨_, rfl⟩
      | some data =>
          dsimp only
          cases detail repr floatTruth malformed data with
          | error exc => exact ⟨_, rfl⟩
          | ok found => exact ⟨_, rfl⟩

/-- **A failure of ComfyUI is reported as one**: no image is asked for. -/
theorem generate_failed {entry : Json} {requests : ℕ}
    (hfinds : Finds malformed deadline submit polls promptId entry requests) (h : Failed malformed entry) :
    ∃ exc, outputsOf repr floatTruth malformed promptId entry = .error exc ∧
      generate repr floatTruth malformed dataDir deadline submit polls serve disk =
        some ⟨requests, none, none, .raises exc []⟩ := by
  obtain ⟨exc, hexc⟩ : ∃ exc, outputsOf repr floatTruth malformed promptId entry = .error exc :=
    outputsOf_failed h
  refine ⟨exc, hexc, ?_⟩
  rw [generate_of_accepted hfinds.accepted, awaitOutputs_of_finds hfinds, hexc]
  rfl

theorem firstOf_text {data : List (CodePoints × Json)} {key other : String} {value : Str}
    (h : lookupKey data (literal key) = some (.str value.points)) (hne : value ≠ []) :
    firstOf repr floatTruth malformed (.obj data) key other = .ok value := by
  have htruthy : truthy floatTruth (.str value.points) = true :=
    decide_eq_true fun heq => hne (List.map_eq_nil_iff.1 heq)
  simp only [firstOf, get, h, bind, Except.bind, Option.getD_some, orElse, htruthy, if_true, text,
    textOf_points]

/-- The text of the error, for a node and an exception that are texts. -/
theorem raiseIfFailed_text {status data : List (CodePoints × Json)} {before after : List Json} {node exc : Str}
    (hstr : lookupKey status (literal "status_str") = some (.str (literal "error")))
    (hmessages : lookupKey status (literal "messages") =
      some (.arr (before ++ .arr [.str (literal "execution_error"), .obj data] :: after)))
    (hbefore : executionError before = none)
    (hnode : lookupKey data (literal "node_type") = some (.str node.points))
    (hexc : lookupKey data (literal "exception_message") = some (.str exc.points))
    (hne : node ≠ [] ∧ exc ≠ []) :
    raiseIfFailed repr floatTruth malformed promptId (.obj status) =
      .error ("ComfyUI prompt ".toList ++ text repr promptId ++ " failed: ".toList ++
        (node ++ ": ".toList ++ exc)) := by
  have hfound : executionError (before ++ .arr [.str (literal "execution_error"), .obj data] :: after) =
      some (.obj data) := by
    rw [executionError] at hbefore ⊢
    rw [List.findSome?_append, hbefore]
    rfl
  have hdata : orElse floatTruth (.obj data) (.obj []) = .obj data := by
    cases data with
    | nil => cases hnode
    | cons m data => rfl
  have hdetail : detail repr floatTruth malformed (.obj data) = .ok (node ++ ": ".toList ++ exc) := by
    simp only [detail, hdata, firstOf_text hnode hne.1, firstOf_text hexc hne.2, bind, Except.bind]
    simp [hne.1, hne.2, List.intercalate_cons_cons]
  have hne' : node ++ ": ".toList ++ exc ≠ [] := fun h => hne.2 (List.append_eq_nil_iff.1 h).2
  simp only [raiseIfFailed, hstr, hmessages, if_true, Option.getD_some, messageItems, bind, Except.bind, hfound,
    hdetail, if_neg hne']

end Generate

end Client

/-- **What a call comes to.**  It returns a path exactly when the prompt was accepted, its entry
was found before the deadline and had not failed, and the first image was served and written.
Otherwise nothing is saved, and no file is opened but that of the accepted prompt and the image
fetched for it; and nothing is fetched for an entry that failed. -/
theorem comfy_generate_iff {T : Type*} [LinearOrder T] (repr : Json → Str) (floatTruth : Str → Bool)
    (malformed : Str) (dataDir : Path) (deadline : T) (submit : Except Str Json) (polls : List (Poll T))
    (serve : View → Except Str (List UInt8)) (disk : DiskOutcome) :
    (∀ g, (generate repr floatTruth malformed dataDir deadline submit polls serve disk = some g ∧
        ∃ path wrote, g.outcome = .returns path wrote) ↔
      Delivers repr floatTruth malformed dataDir deadline submit polls serve disk g) ∧
    (∀ g exc wrote, generate repr floatTruth malformed dataDir deadline submit polls serve disk = some g →
      g.outcome = .raises exc wrote → g.saved = none ∧ ∀ p ∈ wrote, ∃ answer promptId view,
        submit = .ok answer ∧ getItem malformed answer "prompt_id" = .ok promptId ∧ g.view = some view ∧
          p = outPath repr dataDir promptId view.filename) ∧
    ∀ promptId entry requests, Finds malformed deadline submit polls promptId entry requests →
      Failed malformed entry → ∃ exc, outputsOf repr floatTruth malformed promptId entry = .error exc ∧
        generate repr floatTruth malformed dataDir deadline submit polls serve disk =
          some ⟨requests, none, none, .raises exc []⟩ :=
  ⟨fun _ => generate_returns_iff, fun _ _ _ h hg => generate_raises h hg,
    fun _ _ _ hfinds h => generate_failed hfinds h⟩

/-- **The loop ends.**  When each reading of the clock is at least an interval after the one before
and `n` intervals are no less than the timeout, `n` requests for the history are enough. -/
theorem comfy_polls_end {T : Type*} [AddCommGroup T] [LinearOrder T] [IsOrderedAddMonoid T]
    (repr : Json → Str) (floatTruth : Str → Bool) (malformed : Str) (dataDir : Path)
    (submit : Except Str Json) (serve : View → Except Str (List UInt8)) (disk : DiskOutcome)
    {start timeout interval : T} {polls : List (Poll T)} {n : ℕ}
    (hchain : polls.IsChain fun p q => p.time + interval ≤ q.time)
    (hstart : ∀ p ∈ polls.head?, start ≤ p.time) (hn : timeout ≤ n • interval) :
    (n < polls.length →
      (generate repr floatTruth malformed dataDir (start + timeout) submit polls serve disk).isSome) ∧
    ∀ g, generate repr floatTruth malformed dataDir (start + timeout) submit polls serve disk = some g →
      g.requests ≤ n := by
  have hspaced := fun promptId => awaitOutputs_spaced repr floatTruth malformed promptId (k := 0) hchain hstart
    (add_le_add_right hn start)
  constructor
  · intro hlen
    cases hid : submit.bind fun answer => getItem malformed answer "prompt_id" with
    | error exc =>
        rw [generate, hid]
        rfl
    | ok promptId =>
        rw [generate, hid]
        exact Option.isSome_map.trans ((hspaced promptId).1 hlen)
  · intro g h
    rcases call_cases h with ⟨exc, rfl⟩ | ⟨promptId, requests, outputs, -, hawait, hend⟩
    · exact Nat.zero_le n
    · have hle := ((hspaced promptId).2 requests outputs hawait).trans_eq (Nat.zero_add n)
      rcases hend with ⟨exc, -, rfl⟩ | ⟨view, -, rfl⟩
      · exact hle
      · rwa [requests_save]

namespace Sample

/-- An object whose keys are texts. -/
def object (members : List (String × Json)) : Json := .obj (members.map fun m => (literal m.1, m.2))

/-- A text. -/
def string (s : String) : Json := .str (literal s)

/-- The answer to the submission. -/
def submitted : Except Str Json := .ok (object [("prompt_id", string "abc")])

/-- The first poll finds no entry, the second the entry of a prompt that is done. -/
def polled : List (Poll ℤ) :=
  [⟨0, .ok (object [])⟩,
    ⟨1, .ok (object [("abc", object [("outputs", object [("8", object []),
      ("9", object [("images", .arr [object [("filename", string "x.png")]])])])])])⟩]

/-- A call of the client. -/
def call (deadline : ℤ) (polls : List (Poll ℤ)) : Option Rendered :=
  generate (fun _ => []) (fun _ => true) "KeyError".toList ["data".toList] deadline submitted polls
    (fun _ => .ok [137, 80]) .done

/-- The history stays empty. -/
def idle : List (Poll ℤ) := [⟨0, .ok (object [])⟩, ⟨1, .ok (object [])⟩, ⟨2, .ok (object [])⟩]

end Sample

/-- The image of the second poll is saved. -/
theorem comfy_generate_polled : ∃ g, Sample.call 180 Sample.polled = some g ∧
    g.saved = some (["data".toList, "images".toList, "abc_x.png".toList], [137, 80]) ∧
      Delivers (fun _ => []) (fun _ => true) "KeyError".toList ["data".toList] 180 Sample.submitted
        Sample.polled (fun _ => .ok [137, 80]) .done g := by
  have hrun : ∃ g path wrote, Sample.call 180 Sample.polled = some g ∧
      g.saved = some (["data".toList, "images".toList, "abc_x.png".toList], [137, 80]) ∧
        g.outcome = .returns path wrote := ⟨_, _, _, rfl, rfl, rfl⟩
  obtain ⟨g, path, wrote, hg, hsaved, houtcome⟩ := hrun
  exact ⟨g, hg, hsaved, ((comfy_generate_iff _ _ _ _ _ _ _ _ _).1 g).1 ⟨hg, path, wrote, houtcome⟩⟩

/-- A call with an empty history ends at its deadline. -/
theorem comfy_polls_end_idle : (Sample.call (0 + 2) Sample.idle).isSome := by
  have hchain : Sample.idle.IsChain fun p q => p.time + 1 ≤ q.time := by
    simp [Sample.idle]
  have hstart : ∀ p ∈ Sample.idle.head?, 0 ≤ p.time := fun p hp => by
    obtain rfl := Option.some.inj hp
    exact le_rfl
  have hn : (2 : ℤ) ≤ 2 • 1 := by decide
  exact (comfy_polls_end (fun _ => []) (fun _ => true) "KeyError".toList ["data".toList] Sample.submitted
    (fun _ => .ok [137, 80]) .done hchain hstart hn).1 (by decide)

end ComfyUi
end PoetryGenerator
