/-
# The gallery (`frontend/app/gallery/page.tsx`)

The gallery shows a page of the poems of a character.  When the selection (character and
page) changes, an effect asks the API for the list; whatever answer arrives becomes the
list that is shown.  The effect has no clean-up, so a request of an earlier selection
keeps its setter, and the last answer to arrive wins.

A render with its effects is one step.  A request is numbered when it is made; the one
made last is that of the current selection (`Watched.Ok`).  `Watched` keeps beside the
page what that request was answered, which no step reads.
-/

import PoetryGenerator.Lib.Runs
import PoetryGenerator.PoemListing

namespace PoetryGenerator

/-- The values of `FILTERS`. -/
def filters : List Str := [] :: characters

/-- `PAGE_SIZE`. -/
def pageSize : ℕ := 12

/-- A request for a list that is not answered yet. -/
structure ListRequest where
  number : ℕ
  character : Str
  page : ℕ
deriving DecidableEq, Repr

/-- The gallery between two events. -/
structure Gallery where
  character : Str := []
  page : ℕ := 0
  items : List PoemSummary := []
  loading : Bool := false
  /-- How many lists have been asked for. -/
  issued : ℕ := 0
  requests : List ListRequest := []
  /-- The ids of the poems whose deletion is not answered yet. -/
  deletions : List ℤ := []
deriving DecidableEq, Repr

namespace Gallery

/-- The effect: the list of the selection is asked for. -/
def fetchList (g : Gallery) : Gallery :=
  { g with
    loading := true
    issued := g.issued + 1
    requests := g.requests ++ [⟨g.issued, g.character, g.page⟩] }

/-- The page when it has been mounted. -/
def mounted : Gallery := fetchList {}

/-- A render with another selection; the effect runs when the selection has changed. -/
def select (g : Gallery) (character : Str) (page : ℕ) : Gallery :=
  if character = g.character ∧ page = g.page then g else { g with character, page }.fetchList

/-- The answer to request `i` arrives; nothing stands for an error status or a failure. -/
def receive (g : Gallery) (i : ℕ) (answer : Option (List PoemSummary)) : Gallery :=
  { g with items := answer.getD [], loading := false, requests := g.requests.eraseIdx i }

/-- What changes the selection, and the answers to the requests for lists. -/
inductive Browse
  /-- A filter button. -/
  | filter (value : Str)
  | prev
  | next
  /-- The `i`-th of the requests in flight is answered, or fails. -/
  | listed (i : ℕ) (answer : Option (List PoemSummary))
deriving DecidableEq, Repr

/-- One event. -/
def browse (g : Gallery) : Browse → Option Gallery
  | .filter value => if filters.contains value then some (g.select value 0) else none
  | .prev => if g.page = 0 then none else some (g.select g.character (g.page - 1))
  | .next =>
    if g.items.length < pageSize then none else some (g.select g.character (g.page + 1))
  | .listed i answer => g.requests[i]?.map fun _ => g.receive i answer

/-- The card of a poem is shown, its deletion is asked for and confirmed. -/
def confirmDelete (g : Gallery) (id : ℤ) : Option Gallery :=
  if g.loading = false ∧ (g.items.map PoemSummary.id).contains id then
    some { g with deletions := g.deletions ++ [id] }
  else none

/-- The `i`-th deletion in flight is answered; `ok` is `res.ok`. -/
def deleted (g : Gallery) (i : ℕ) (ok : Bool) : Option Gallery :=
  g.deletions[i]?.map fun id =>
    { g with
      items := if ok then g.items.filter fun x => x.id ≠ id else g.items
      deletions := g.deletions.eraseIdx i }

/-! ### The answer to the current request -/

/-- The page, and the request of the current selection with its answer, once it has one. -/
structure Watched where
  page : Gallery
  answered : Option (ListRequest × List PoemSummary) := none

namespace Watched

/-- A request that is in flight is that of the current selection. -/
def IsCurrent (g : Gallery) (r : ListRequest) : Prop := r.number + 1 = g.issued

instance (g : Gallery) (r : ListRequest) : Decidable (IsCurrent g r) :=
  inferInstanceAs (Decidable (_ = _))

/-- The answer is kept when it is that to the current request, and forgotten with it. -/
def record (w : Watched) (l : Browse) (g : Gallery) : Option (ListRequest × List PoemSummary) :=
  match l with
  | .listed i answer =>
    match w.page.requests[i]?.filter (IsCurrent w.page ·) with
    | some r => some (r, answer.getD [])
    | none => w.answered
  | _ => if g.issued = w.page.issued then w.answered else none

/-- One event of the page. -/
def step (w : Watched) (l : Browse) : Option Watched :=
  (w.page.browse l).map fun g => ⟨g, w.record l g⟩

/-- **What the gallery is to show**: the answer to a request for the current selection. -/
def Settled (w : Watched) : Prop :=
  ∃ r items, w.answered = some (r, items) ∧ r.character = w.page.character ∧
    r.page = w.page.page ∧ w.page.items = items

/-- The answer after which no request is in flight is that of the current request, or it has
the same items. -/
def InTurn (w : Watched) : Browse → Prop
  | .listed i answer => w.page.requests.length = 1 → ∀ r ∈ w.page.requests[i]?,
    IsCurrent w.page r ∨ ∀ a ∈ w.answered, a.2 = answer.getD []
  | _ => True

instance (w : Watched) : (l : Browse) → Decidable (w.InTurn l)
  | .listed i answer => inferInstanceAs (Decidable (w.page.requests.length = 1 →
      ∀ r ∈ w.page.requests[i]?, IsCurrent w.page r ∨ ∀ a ∈ w.answered, a.2 = answer.getD []))
  | .filter _ | .prev | .next => isTrue trivial

/-! ### Every run of the page -/

/-- The request of the current selection is in flight until it is answered. -/
structure Ok (w : Watched) : Prop where
  number_lt : ∀ r ∈ w.page.requests, r.number < w.page.issued
  current : ∀ r ∈ w.page.requests, IsCurrent w.page r →
    r.character = w.page.character ∧ r.page = w.page.page
  answered : ∀ a ∈ w.answered, a.1.character = w.page.character ∧ a.1.page = w.page.page
  waiting : w.answered = none → ∃ r ∈ w.page.requests, IsCurrent w.page r

variable {w w' : Watched} {l : Browse} {ls : List Browse}

theorem ok_mounted : Ok ⟨mounted, none⟩ where
  number_lt := by decide
  current := by decide
  answered := fun _ h => absurd h (Option.not_mem_none _)
  waiting := fun _ => ⟨_, List.mem_singleton_self _, rfl⟩

/-- With another selection its request is in flight; with the same one nothing happens. -/
theorem Ok.select (h : w.Ok) (character : Str) (page : ℕ) :
    (w.page.select character page = w.page) ∨
      (w.page.select character page).requests ≠ [] ∧
      (w.page.select character page).issued ≠ w.page.issued ∧
      Ok ⟨w.page.select character page, none⟩ := by
  rw [Gallery.select]
  split_ifs with hsame
  · exact .inl rfl
  · refine .inr ⟨by simp [fetchList], Nat.succ_ne_self _, ?_⟩
    constructor
    · intro r hr
      rcases List.mem_append.1 hr with hr | hr
      · exact Nat.lt_succ_of_lt (h.number_lt r hr)
      · rw [List.mem_singleton.1 hr]
        exact Nat.lt_succ_self _
    · intro r hr hcur
      rcases List.mem_append.1 hr with hr | hr
      · exact absurd (Nat.succ.inj hcur) (h.number_lt r hr).ne
      · rw [List.mem_singleton.1 hr]
        exact ⟨rfl, rfl⟩
    · exact fun _ ha => absurd ha (Option.not_mem_none _)
    · exact fun _ => ⟨_, List.mem_append_right _ (List.mem_singleton_self _), rfl⟩

/-- **What an event does**: an answer arrives, and is kept when it is that to the current
request, or a click selects. -/
theorem step_cases (h : step w l = some w') :
    (∃ i answer r, l = .listed i answer ∧ w.page.requests[i]? = some r ∧
      w' = ⟨w.page.receive i answer,
        if IsCurrent w.page r then some (r, answer.getD []) else w.answered⟩) ∨
    (w.InTurn l ∧ ∃ character page, w' = ⟨w.page.select character page,
      if (w.page.select character page).issued = w.page.issued then w.answered else none⟩) := by
  cases l with
  | filter value =>
      simp only [step, browse] at h
      split_ifs at h
      · exact .inr ⟨trivial, _, _, (Option.some.inj h).symm⟩
      · cases h
  | prev =>
      simp only [step, browse] at h
      split_ifs at h
      · cases h
      · exact .inr ⟨trivial, _, _, (Option.some.inj h).symm⟩
  | next =>
      simp only [step, browse] at h
      split_ifs at h
      · cases h
      · exact .inr ⟨trivial, _, _, (Option.some.inj h).symm⟩
  | listed i answer =>
      simp only [step, browse, Option.map_map, Option.map_eq_some_iff] at h
      obtain ⟨r, hr, rfl⟩ := h
      refine .inl ⟨i, answer, r, rfl, hr, ?_⟩
      rw [Function.comp_apply, record, hr, Option.filter_some]
      by_cases hcur : IsCurrent w.page r
      · rw [if_pos hcur, if_pos (by simpa using hcur)]
      · rw [if_neg hcur, if_neg (by simpa using hcur)]

/-- **The request of the current selection** is in flight or answered after every event. -/
theorem Ok.step (h : w.Ok) (hl : step w l = some w') : w'.Ok := by
  rcases step_cases hl with ⟨i, answer, r, rfl, hr, rfl⟩ | ⟨-, character, page, rfl⟩
  · have hmem : ∀ x ∈ w.page.requests.eraseIdx i, x ∈ w.page.requests :=
      fun x hx => List.mem_of_mem_eraseIdx hx
    refine ⟨fun x hx => h.number_lt x (hmem x hx), fun x hx => h.current x (hmem x hx), ?_, ?_⟩
    · intro a ha
      change a ∈ (if IsCurrent w.page r then some (r, answer.getD []) else w.answered) at ha
      split_ifs at ha with hcur
      · obtain rfl := Option.some.inj ha
        exact h.current r (List.mem_of_getElem? hr) hcur
      · exact h.answered a ha
    · intro hnone
      change (if IsCurrent w.page r then some (r, answer.getD []) else w.answered) = none at hnone
      split_ifs at hnone with hcur
      -- what was answered is not the current request, so that one is left
      obtain ⟨x, hx, hxcur⟩ := h.waiting hnone
      obtain ⟨j, hj⟩ := List.mem_iff_getElem?.1 hx
      refine ⟨x, List.mem_eraseIdx_iff_getElem?.2 ⟨j, ?_, hj⟩, hxcur⟩
      rintro rfl
      exact hcur (Option.some.inj (hj.symm.trans hr) ▸ hxcur)
  · rcases h.select character page with hsame | ⟨-, hissued, hok⟩
    · rw [hsame, if_pos rfl]
      exact h
    · rw [if_neg hissued]
      exact hok

/-- When the only request in flight is an earlier one, the current one has been answered. -/
theorem Ok.answered_of_stale (h : w.Ok) {i : ℕ} {r : ListRequest}
    (hone : w.page.requests.length = 1) (hr : w.page.requests[i]? = some r)
    (hcur : ¬ IsCurrent w.page r) : ∃ a, w.answered = some a := by
  refine Option.ne_none_iff_exists'.1 fun hnone => ?_
  obtain ⟨x, hx, hxcur⟩ := h.waiting hnone
  obtain ⟨y, hy⟩ := List.length_eq_one_iff.1 hone
  have hr : r ∈ [y] := hy ▸ List.mem_of_getElem? hr
  rw [hy, List.mem_singleton] at hx
  rw [List.mem_singleton] at hr
  exact hcur (hr.trans hx.symm ▸ hxcur)

/-- **Step lemma.**  When no request is left the list is that of the selection exactly when
the last answer came in turn. -/
theorem step_settled (h : w.Ok) (hset : w.page.requests = [] → w.Settled)
    (hl : step w l = some w') : (w'.page.requests = [] → w'.Settled) ↔ w.InTurn l := by
  rcases step_cases hl with ⟨i, answer, r, rfl, hr, rfl⟩ | ⟨hturn, character, page, rfl⟩
  · have hi : i < w.page.requests.length := (List.getElem?_eq_some_iff.1 hr).1
    have hempty : (w.page.receive i answer).requests = [] ↔ w.page.requests.length = 1 := by
      rw [receive, ← List.length_eq_zero_iff, List.length_eraseIdx_of_lt hi]
      omega
    rw [hempty, InTurn, hr]
    refine imp_congr_right fun hone => ?_
    simp only [Option.mem_def, Option.some.injEq, forall_eq']
    by_cases hcur : IsCurrent w.page r
    · have hsel := h.current r (List.mem_of_getElem? hr) hcur
      exact iff_of_true ⟨r, _, if_pos hcur, hsel.1, hsel.2, rfl⟩ (.inl hcur)
    · obtain ⟨a, ha⟩ := h.answered_of_stale hone hr hcur
      have hsel := h.answered a ha
      simp only [ha, Option.some.injEq, forall_eq', or_iff_right hcur]
      constructor
      · rintro ⟨r', items, hans, -, -, hitems⟩
        rw [if_neg hcur] at hans
        rw [Option.some.inj hans]
        exact hitems.symm
      · exact fun hitems => ⟨a.1, a.2, if_neg hcur, hsel.1, hsel.2, hitems.symm⟩
  · refine iff_of_true ?_ hturn
    rcases h.select character page with hsame | ⟨hrequests, -, -⟩
    · rw [hsame, if_pos rfl]
      exact hset
    · exact fun hnone => absurd hnone hrequests

/-- What is watched is the page. -/
theorem map_page_run (w : Watched) (ls : List Browse) :
    (Runs.run step w ls).map page = Runs.run browse w.page ls :=
  Runs.run_map (fun w l => by rw [step, Option.map_map]; exact Option.map_id') w

/-- **The list that is shown.**  On a run of the page, whenever no request is in flight the
items are the answer to the request of the current selection, exactly when every answer that
left no request in flight came in turn. -/
theorem settled_iff_inTurn (hr : Runs.run step ⟨mounted, none⟩ ls = some w) :
    Runs.Along step InTurn ⟨mounted, none⟩ ls ↔ ∀ pre post w', ls = pre ++ post →
      Runs.run step ⟨mounted, none⟩ pre = some w' → w'.page.requests = [] → w'.Settled :=
  Runs.along_iff_forall_prefix_of_invariant (fun _ _ _ h _ hl => h.step hl)
    (fun _ _ _ h hset hl => step_settled h hset hl) ok_mounted
    (fun h => absurd h (List.cons_ne_nil _ _)) hr

/-- The card of a poem that nothing has been made for. -/
def plainCard (id : ℤ) (character : Str) : PoemSummary :=
  { id, character, title := [], titleJa := none, mood := none, lang := "en".toList
    imageStatus := none, audioStatus := none, imageUrl := none, audioUrl := none }

/-- A filter is chosen before the first list has arrived, and the first list arrives last. -/
def overtaken : List Browse :=
  [.filter "sayori".toList, .listed 1 (some [plainCard 2 "sayori".toList]),
    .listed 0 (some [plainCard 3 "yuri".toList, plainCard 2 "sayori".toList])]

/-- Under the filter for Sayori a poem of Yuri is shown. -/
theorem overtaken_not_settled :
    ∃ w, Runs.run step ⟨mounted, none⟩ overtaken = some w ∧ w.page.requests = [] ∧
      w.page.character = "sayori".toList ∧ plainCard 3 "yuri".toList ∈ w.page.items ∧
      ¬ w.Settled := by
  refine ⟨_, rfl, rfl, rfl, by decide, ?_⟩
  rintro ⟨r, items, hans, -, -, hitems⟩
  exact absurd (hitems.trans (congrArg Prod.snd (Option.some.inj hans)).symm) (by decide)

/-- The lists arrive in the order they were asked for. -/
def inOrder : List Browse :=
  [.filter "sayori".toList, .listed 0 (some [plainCard 3 "yuri".toList]),
    .listed 0 (some [plainCard 2 "sayori".toList])]

/-- The list of the filter is shown. -/
theorem inOrder_settled :
    ∃ w, Runs.run step ⟨mounted, none⟩ inOrder = some w ∧ w.page.requests = [] ∧ w.Settled := by
  refine ⟨_, rfl, rfl, ?_⟩
  exact (settled_iff_inTurn rfl).1 (by decide) inOrder [] _ rfl rfl rfl

end Watched
end Gallery
end PoetryGenerator
