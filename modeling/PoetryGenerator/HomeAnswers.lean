/-
# The Home page with the system behind it

`HomePage` takes the answers of the API as they come.  Here they come from the system: a
submission is answered from the row that its own `persist_poem` has committed, a poll from what
is committed when the poem, its images and its audios are loaded, and between those queries
requests, deletions and both workers go on (`Viewing`).  Polls may overtake each other, and one
of an earlier poem may be answered last.

Whatever the order, the page shows the poem as it is stored; and when it asks for nothing more,
because no asset of what it shows is being produced, then every column of every asset is as in
the database, unless the poem has been deleted (`shown_of_run`).  When the workers are through,
the next poll is the last one (`last_poll_of_restarts`).
-/

import PoetryGenerator.BothWorkers
import PoetryGenerator.HomeRaces

namespace PoetryGenerator

/-- Where a request for a poem is on the server: the query it makes next, with what is loaded
already, or its answer. -/
inductive Reading
  | row (poemId : ℤ)
  | images (poemId : ℤ) (poem : Poem)
  | audios (poemId : ℤ) (poem : Poem) (images : List (ℤ × Asset .image))
  | answered (poemId : ℤ) (answer : Option PoemDetail)

namespace Reading

/-- The poem that is asked for. -/
def poemId : Reading → ℤ
  | row p | images p _ | audios p _ _ | answered p _ => p

/-- The next query. -/
def query (db : Db) : Reading → Option Reading
  | row p => some ((db.poem p).elim (answered p none) (images p))
  | images p poem => some (audios p poem (db.assetRows .image p))
  | audios p poem loaded =>
    some (answered p (some (detail (p, poem) loaded (db.assetRows .audio p))))
  | answered _ _ => none

end Reading

/-- The Home page and the system.  Of each call of `POST /api/generate` there is nothing before
its commit, then the loading of its answer. -/
structure Viewing where
  sys : Sys := Sys.init
  calls : HomePage.Calls := {}
  posts : List (Option Reading) := []
  /-- The polls in flight, in the order of the page's list. -/
  polls : List Reading := []
  /-- The answer that is displayed. -/
  shown : Option PoemDetail := none

namespace Viewing

/-- What happens next. -/
inductive Label
  /-- A step of the system. -/
  | sys (l : PoetryGenerator.Label)
  /-- The commit of call `i`. -/
  | commit (i : ℕ) (a : PersistArgs) (ids : NewIds)
  /-- The next query of call `i`, after that. -/
  | queryPost (i : ℕ)
  /-- The next query of poll `i`. -/
  | queryPoll (i : ℕ)
  | submit
  | regenerate
  /-- Call `i` is answered with its poem. -/
  | generated (i : ℕ)
  /-- It is answered with an error status, or the request fails. -/
  | generateFailed (i : ℕ) (error : Str)
  | fire
  /-- Poll `i` is answered with its poem. -/
  | polled (i : ℕ)
  /-- It is answered with an error status, or the request fails. -/
  | pollFailed (i : ℕ)
  | rerun

/-- One step.  The ids of a generation are pushed by the system; its answer may be loaded while
they are. -/
def step (cfg : Config) (s : Viewing) : Label → Option Viewing
  | .sys l => (PoetryGenerator.step cfg s.sys l).map fun sys => { s with sys }
  | .commit i a ids =>
    match s.posts[i]? with
    | some none => (PoetryGenerator.step cfg s.sys (.persist a ids .ok)).map fun sys =>
        { s with sys, posts := s.posts.set i (some (.row ids.poem)) }
    | _ => none
  | .queryPost i =>
    match s.posts[i]? with
    | some (some r) => (r.query s.sys.world.db).map fun r =>
        { s with posts := s.posts.set i (some r) }
    | _ => none
  | .queryPoll i =>
    (s.polls[i]?).bind fun r => (r.query s.sys.world.db).map fun r =>
      { s with polls := s.polls.set i r }
  | .submit => (s.calls.act (.page .submit)).map fun calls =>
      { s with calls, posts := s.posts ++ [none], shown := none }
  | .regenerate => (s.calls.act .regenerate).map fun calls =>
      { s with calls, posts := s.posts ++ [none], shown := none }
  | .generated i =>
    match s.posts[i]? with
    | some (some (.answered _ (some d))) => (s.calls.act (.page (.generated d.view))).map fun calls =>
        { s with calls, posts := s.posts.eraseIdx i, shown := some d }
    | _ => none
  | .generateFailed i error =>
    (s.posts[i]?).bind fun _ => (s.calls.act (.page (.generateFailed error))).map fun calls =>
      { s with calls, posts := s.posts.eraseIdx i }
  | .fire =>
    (s.calls.page.timer).bind fun p => (s.calls.act (.page .fire)).map fun calls =>
      { s with calls, polls := s.polls ++ [.row p] }
  | .polled i =>
    match s.polls[i]? with
    | some (.answered _ (some d)) =>
      (s.calls.act (.page (.polled i d.view.images d.view.audios))).map fun calls =>
        { s with calls, polls := s.polls.eraseIdx i, shown := some d }
    | _ => none
  | .pollFailed i => (s.calls.act (.page (.pollFailed i))).map fun calls =>
      { s with calls, polls := s.polls.eraseIdx i }
  | .rerun => (s.calls.act (.page .rerun)).map fun calls => { s with calls }

/-- A worker loads a failed job. -/
def loadsFailed (s : Viewing) : Label → Bool
  | .sys l => s.sys.loadsFailed l
  | _ => false

end Viewing

/-! ### What is known -/

variable {cfg : Config} {keep : Prop} {w : World} {s s' : Sys} {l : Label} {t : JobType} {p : ℤ}
  {d : PoemDetail} {r r' : Reading}

/-- What is known of a request in progress. -/
def Reading.Ok (w : World) (keep : Prop) : Reading → Prop
  | row _ => True
  | images p poem => w.HasStill p poem
  | audios p poem loaded => w.HasStill p poem ∧ w.ListsStill keep .image p loaded
  | answered p answer => ∀ d ∈ answer, w.Answers keep p d

/-- The system keeps what is known of a request. -/
theorem Reading.Ok.after {ls : List Label} (hok : r.Ok s.world keep) (h : s.Reached cfg keep)
    (hl : keep → Runs.Along (step cfg) (fun s l => s.loadsFailed l = false) s ls)
    (hr : run cfg s ls = some s') : r.Ok s'.world keep := by
  cases r with
  | row => trivial
  | images p poem => exact World.HasStill.after h hr hok
  | audios p poem images => exact ⟨hok.1.after h hr, hok.2.after h hl hr hok.1.1⟩
  | answered p answer => exact fun d hd => (hok d hd).after h hl hr

theorem run_step (hs : step cfg s l = some s') : run cfg s [l] = some s' :=
  Runs.run_cons_eq_some.2 ⟨s', hs, rfl⟩

/-- The next query loads what is there. -/
theorem Reading.Ok.query (hr : r.Ok w keep) (hw : w.RowsOk) (hq : r.query w.db = some r') :
    r'.Ok w keep ∧ r'.poemId = r.poemId := by
  cases r with
  | row p =>
      obtain rfl := Option.some.inj hq
      cases hpoem : w.db.poem p with
      | none => exact ⟨fun _ hd => absurd hd (Option.not_mem_none _), rfl⟩
      | some row => exact ⟨hw.hasStill hpoem, rfl⟩
  | images p poem =>
      obtain rfl := Option.some.inj hq
      exact ⟨⟨hr, w.listsStill_assetRows .image p⟩, rfl⟩
  | audios p poem images =>
      obtain rfl := Option.some.inj hq
      refine ⟨fun d hd => ?_, rfl⟩
      obtain rfl := Option.some.inj hd
      exact ⟨poem, images, _, rfl, hr.1, hr.2, w.listsStill_assetRows .audio p⟩
  | answered => cases hq

/-! ### Every run -/

namespace Viewing

/-- What is known of the page, the requests it has in flight, and the system. -/
structure Ok (cfg : Config) (keep : Prop) (s : Viewing) : Prop where
  reached : s.sys.Reached cfg keep
  posts : ∀ r, some r ∈ s.posts → r.Ok s.sys.world keep
  polls : ∀ r ∈ s.polls, r.Ok s.sys.world keep
  shown : ∀ d ∈ s.shown, s.sys.world.Answers keep d.id d
  poem : s.calls.page.poem = s.shown.map PoemDetail.view
  ids : s.calls.page.polls = s.polls.map Reading.poemId

variable {s s' : Viewing} {l : Label} {calls : HomePage.Calls}

theorem ok_init : Ok cfg keep {} where
  reached := ⟨[], rfl, fun _ => trivial⟩
  posts _ h := absurd h List.not_mem_nil
  polls _ h := absurd h List.not_mem_nil
  shown _ h := absurd h (Option.not_mem_none _)
  poem := rfl
  ids := rfl

/-- The system steps. -/
theorem Ok.system {l : PoetryGenerator.Label} {sys : Sys} (hs : s.Ok cfg keep)
    (hl : keep → s.sys.loadsFailed l = false) (h : PoetryGenerator.step cfg s.sys l = some sys) :
    Ok cfg keep { s with sys } := by
  have hl' : keep → Runs.Along (PoetryGenerator.step cfg) (fun s l => s.loadsFailed l = false)
      s.sys [l] := fun hkeep => ⟨hl hkeep, fun _ _ => trivial⟩
  have hr := run_step h
  exact
    { hs with
      reached := hs.reached.after hl' hr
      posts := fun r hr' => (hs.posts r hr').after hs.reached hl' hr
      polls := fun r hr' => (hs.polls r hr').after hs.reached hl' hr
      shown := fun d hd => (hs.shown d hd).after hs.reached hl' hr }

/-- Among the calls of `POST /api/generate` there are others, with as much known of them. -/
theorem Ok.post {posts : List (Option Reading)} (hs : s.Ok cfg keep)
    (hposts : ∀ r, some r ∈ posts → some r ∈ s.posts ∨ r.Ok s.sys.world keep) :
    Ok cfg keep { s with posts } :=
  { hs with posts := fun r hr => (hposts r hr).elim (hs.posts r) id }

/-- Poll `i` makes its next query. -/
theorem Ok.poll {i : ℕ} {r r' : Reading} (hs : s.Ok cfg keep) (hi : s.polls[i]? = some r)
    (hq : r.query s.sys.world.db = some r') : Ok cfg keep { s with polls := s.polls.set i r' } := by
  obtain ⟨hok, hid⟩ := (hs.polls r (List.mem_of_getElem? hi)).query hs.reached.ok.rows hq
  refine { hs with polls := fun r'' hr'' => ?_, ids := ?_ }
  · rcases List.mem_or_eq_of_mem_set hr'' with hold | rfl
    · exact hs.polls r'' hold
    · exact hok
  · obtain ⟨hlt, rfl⟩ := List.getElem?_eq_some_iff.1 hi
    rw [hs.ids, List.map_set, hid, ← List.getElem_map Reading.poemId (h := by simpa using hlt),
      List.set_getElem_self]

/-- An event of the page. -/
theorem Ok.page {polls : List Reading} {shown : Option PoemDetail} (hs : s.Ok cfg keep)
    (hpolls : ∀ r ∈ polls, r ∈ s.polls ∨ r.Ok s.sys.world keep)
    (hshown : ∀ d ∈ shown, d ∈ s.shown ∨ s.sys.world.Answers keep d.id d)
    (hpoem : calls.page.poem = shown.map PoemDetail.view)
    (hids : calls.page.polls = polls.map Reading.poemId) :
    Ok cfg keep { s with calls, polls, shown } :=
  { hs with
    polls := fun r hr => (hpolls r hr).elim (hs.polls r) id
    shown := fun d hd => (hshown d hd).elim (hs.shown d) id
    poem := hpoem
    ids := hids }

/-- A submission, by the form or by `Regenerate`. -/
theorem Ok.generate (hs : s.Ok cfg keep) : Ok cfg keep
    { s with calls := s.calls.generate, posts := s.posts ++ [none], shown := none } := by
  have hposts : ∀ r, some r ∈ s.posts ++ [none] → some r ∈ s.posts ∨ r.Ok s.sys.world keep := by
    intro r hr
    rcases List.mem_append.1 hr with hold | hnew
    · exact .inl hold
    · exact absurd (List.mem_singleton.1 hnew) (Option.some_ne_none _)
  exact (hs.post hposts).page (fun _ => .inl) (fun _ hd => absurd hd (Option.not_mem_none _)) rfl hs.ids

theorem Ok.eraseIdx_post (hs : s.Ok cfg keep) (i : ℕ) :
    Ok cfg keep { s with posts := s.posts.eraseIdx i } :=
  hs.post fun _ hr => .inl (List.mem_of_mem_eraseIdx hr)

/-- The page's list has the poem of each poll. -/
theorem Ok.getElem?_ids (hs : s.Ok cfg keep) {i : ℕ} {r : Reading} (hi : s.polls[i]? = some r) :
    s.calls.page.polls[i]? = some r.poemId := by
  rw [hs.ids, List.getElem?_map, hi]
  rfl

theorem Ok.eraseIdx_ids (hs : s.Ok cfg keep) (i : ℕ) :
    s.calls.page.polls.eraseIdx i = (s.polls.eraseIdx i).map Reading.poemId := by
  rw [hs.ids, List.eraseIdx_map]

/-- **Step lemma.** -/
theorem Ok.step (hs : s.Ok cfg keep) (hl : keep → s.loadsFailed l = false)
    (h : s.step cfg l = some s') : s'.Ok cfg keep := by
  have hsame : ∀ d ∈ s.shown, d ∈ s.shown ∨ s.sys.world.Answers keep d.id d := fun _ => .inl
  cases l with
  | sys l =>
      obtain ⟨sys, hsys, rfl⟩ := Option.map_eq_some_iff.1 h
      exact hs.system hl hsys
  | commit i a ids =>
      simp only [Viewing.step] at h
      split at h
      · obtain ⟨sys, hsys, rfl⟩ := Option.map_eq_some_iff.1 h
        refine (hs.system (fun _ => rfl) hsys).post fun r hr => ?_
        rcases List.mem_or_eq_of_mem_set hr with hold | hnew
        · exact .inl hold
        · exact .inr (Option.some.inj hnew ▸ trivial)
      · cases h
  | queryPost i =>
      simp only [Viewing.step] at h
      split at h
      · next r hi =>
          obtain ⟨r', hq, rfl⟩ := Option.map_eq_some_iff.1 h
          have hok := ((hs.posts r (List.mem_of_getElem? hi)).query hs.reached.ok.rows hq).1
          refine hs.post fun r'' hr'' => ?_
          rcases List.mem_or_eq_of_mem_set hr'' with hold | hnew
          · exact .inl hold
          · exact .inr (Option.some.inj hnew ▸ hok)
      · cases h
  | queryPoll i =>
      obtain ⟨r, hi, h⟩ := Option.bind_eq_some_iff.1 h
      obtain ⟨r', hq, rfl⟩ := Option.map_eq_some_iff.1 h
      exact hs.poll hi hq
  | submit =>
      obtain ⟨calls, hcalls, rfl⟩ := Option.map_eq_some_iff.1 h
      rw [HomePage.Calls.act] at hcalls
      split_ifs at hcalls
      obtain rfl := Option.some.inj hcalls
      exact hs.generate
  | regenerate =>
      obtain ⟨calls, hcalls, rfl⟩ := Option.map_eq_some_iff.1 h
      rw [HomePage.Calls.act] at hcalls
      split_ifs at hcalls
      obtain rfl := Option.some.inj hcalls
      exact hs.generate
  | generated i =>
      simp only [Viewing.step] at h
      split at h
      · next p d hi =>
          obtain ⟨calls, hcalls, rfl⟩ := Option.map_eq_some_iff.1 h
          rw [HomePage.Calls.act] at hcalls
          split_ifs at hcalls
          obtain rfl := Option.some.inj hcalls
          have hd := (hs.posts _ (List.mem_of_getElem? hi) d rfl).self
          exact (hs.eraseIdx_post i).page (fun _ => .inl)
            (fun _ hd' => .inr (Option.some.inj hd' ▸ hd)) rfl hs.ids
      · cases h
  | generateFailed i error =>
      obtain ⟨-, -, h⟩ := Option.bind_eq_some_iff.1 h
      obtain ⟨calls, hcalls, rfl⟩ := Option.map_eq_some_iff.1 h
      rw [HomePage.Calls.act] at hcalls
      split_ifs at hcalls
      obtain rfl := Option.some.inj hcalls
      exact (hs.eraseIdx_post i).page (fun _ => .inl) hsame hs.poem hs.ids
  | fire =>
      obtain ⟨p, hp, h⟩ := Option.bind_eq_some_iff.1 h
      obtain ⟨calls, hcalls, rfl⟩ := Option.map_eq_some_iff.1 h
      obtain ⟨page, hpage, rfl⟩ := Option.map_eq_some_iff.1 hcalls
      obtain ⟨id, hid, rfl⟩ := Option.map_eq_some_iff.1 hpage
      obtain rfl := Option.some.inj (hid.symm.trans hp)
      refine hs.page (fun r hr => ?_) hsame hs.poem ?_
      · rcases List.mem_append.1 hr with hold | hnew
        · exact .inl hold
        · exact .inr (List.mem_singleton.1 hnew ▸ trivial)
      · rw [List.map_append, ← hs.ids]
        rfl
  | polled i =>
      simp only [Viewing.step] at h
      split at h
      · next p d hi =>
          obtain ⟨calls, hcalls, rfl⟩ := Option.map_eq_some_iff.1 h
          obtain ⟨page, hpage, rfl⟩ := Option.map_eq_some_iff.1 hcalls
          obtain ⟨id, hid, rfl⟩ := Option.map_eq_some_iff.1 hpage
          have hanswer := hs.polls _ (List.mem_of_getElem? hi) d rfl
          -- the id that the timer had is that of the answer
          obtain rfl : p = id := Option.some.inj ((hs.getElem?_ids hi).symm.trans hid)
          refine hs.page (fun r hr => .inl (List.mem_of_mem_eraseIdx hr))
            (fun _ hd' => .inr (Option.some.inj hd' ▸ hanswer.self)) ?_ (hs.eraseIdx_ids i)
          rw [← hanswer.id]
          rfl
      · cases h
  | pollFailed i =>
      obtain ⟨calls, hcalls, rfl⟩ := Option.map_eq_some_iff.1 h
      obtain ⟨page, hpage, rfl⟩ := Option.map_eq_some_iff.1 hcalls
      obtain ⟨id, -, rfl⟩ := Option.map_eq_some_iff.1 hpage
      exact hs.page (fun r hr => .inl (List.mem_of_mem_eraseIdx hr)) hsame hs.poem (hs.eraseIdx_ids i)
  | rerun =>
      obtain rfl := Option.some.inj h
      exact hs.page (fun _ => .inl) hsame hs.poem hs.ids

/-- **Run lemma.** -/
theorem ok_of_run {ls : List Label} (hr : Runs.run (step cfg) {} ls = some s)
    (hload : keep → Runs.Along (step cfg) (fun s l => s.loadsFailed l = false) {} ls) :
    s.Ok cfg keep := by
  refine Runs.run_invariant (P := fun s l => keep → s.loadsFailed l = false)
    (fun _ _ _ hs hl h => hs.step hl h) ok_init ?_ hr
  by_cases hkeep : keep
  · exact (hload hkeep).mono fun _ _ hl _ => hl
  · exact Runs.along_of_forall fun _ _ _ h => absurd h hkeep

/-- The step of the system that a step is. -/
def Label.toSys : Label → Option PoetryGenerator.Label
  | .sys l => some l
  | .commit _ a ids => some (.persist a ids .ok)
  | _ => none

theorem sys_of_step (h : s.step cfg l = some s') :
    run cfg s.sys l.toSys.toList = some s'.sys ∧
      ∀ l' ∈ l.toSys, s.loadsFailed l = s.sys.loadsFailed l' := by
  have hnone : ∀ l' ∈ (none : Option PoetryGenerator.Label), s.loadsFailed l = s.sys.loadsFailed l' :=
    fun _ h => absurd h (Option.not_mem_none _)
  cases l with
  | sys l =>
      obtain ⟨sys, hsys, rfl⟩ := Option.map_eq_some_iff.1 h
      exact ⟨run_step hsys, fun l' hl' => Option.some.inj hl' ▸ rfl⟩
  | commit i a ids =>
      simp only [Viewing.step] at h
      split at h
      · obtain ⟨sys, hsys, rfl⟩ := Option.map_eq_some_iff.1 h
        exact ⟨run_step hsys, fun l' hl' => Option.some.inj hl' ▸ rfl⟩
      · cases h
  | queryPost i | generated i | polled i =>
      simp only [Viewing.step] at h
      split at h
      · obtain ⟨-, -, rfl⟩ := Option.map_eq_some_iff.1 h
        exact ⟨rfl, hnone⟩
      · cases h
  | queryPoll i | generateFailed i error | fire =>
      obtain ⟨_, _, h⟩ := Option.bind_eq_some_iff.1 h
      obtain ⟨-, -, rfl⟩ := Option.map_eq_some_iff.1 h
      exact ⟨rfl, hnone⟩
  | submit | regenerate | pollFailed i =>
      obtain ⟨-, -, rfl⟩ := Option.map_eq_some_iff.1 h
      exact ⟨rfl, hnone⟩
  | rerun =>
      obtain rfl := Option.some.inj h
      exact ⟨rfl, hnone⟩

/-- **The system beneath.**  The steps of the system in a run of the page are a run of the
system. -/
theorem sys_of_run {ls : List Label} (hr : Runs.run (step cfg) s ls = some s') :
    run cfg s.sys (ls.filterMap Label.toSys) = some s'.sys ∧
      (Runs.Along (step cfg) (fun s l => s.loadsFailed l = false) s ls →
        Runs.Along (PoetryGenerator.step cfg) (fun s l => s.loadsFailed l = false) s.sys
          (ls.filterMap Label.toSys)) := by
  induction ls generalizing s with
  | nil =>
      obtain rfl := Option.some.inj hr
      exact ⟨rfl, fun _ => trivial⟩
  | cons l ls ih =>
      obtain ⟨s₁, hs, hr⟩ := Runs.run_cons_eq_some.1 hr
      obtain ⟨hsys, hloads⟩ := sys_of_step hs
      obtain ⟨hrun, halong⟩ := ih hr
      have heq : (l :: ls).filterMap Label.toSys = l.toSys.toList ++ ls.filterMap Label.toSys := by
        rw [List.filterMap_cons]
        cases l.toSys <;> rfl
      rw [heq]
      refine ⟨Runs.run_append_eq_some.2 ⟨s₁.sys, hsys, hrun⟩, fun ⟨hl, hls⟩ => ?_⟩
      refine (Runs.along_append hsys).2 ⟨?_, halong (hls s₁ hs)⟩
      cases hl' : l.toSys with
      | none => trivial
      | some l' => exact ⟨(hloads l' hl').symm.trans hl, fun _ _ => trivial⟩

/-! ### The last poll -/

/-- Poll `i` from the timer to its answer, with steps of the system before, between and after
its queries. -/
def pollWith (i : ℕ) (m₁ m₂ m₃ m₄ : List PoetryGenerator.Label) : List Label :=
  .fire :: (m₁.map .sys ++ .queryPoll i :: (m₂.map .sys ++ .queryPoll i :: (m₃.map .sys ++
    .queryPoll i :: (m₄.map .sys ++ [.polled i]))))

theorem run_sys (s : Viewing) (m : List PoetryGenerator.Label) :
    Runs.run (step cfg) s (m.map .sys) = (run cfg s.sys m).map fun sys => { s with sys } := by
  have hmap : (run cfg s.sys m).map (fun sys => { s with sys }) =
      Runs.run (fun s' l => Viewing.step cfg s' (.sys l)) s m :=
    Runs.run_map (f := fun sys => { s with sys }) (fun _ _ => rfl) s.sys
  rw [Runs.run_map_labels, hmap]

/-- Steps of the system, and then the next query of the last poll. -/
theorem queryPoll_of_run {v : Viewing} {polls : List Reading} {r : Reading}
    {m : List PoetryGenerator.Label} (hp : s.polls = polls ++ [r])
    (hr : Runs.run (step cfg) s (m.map .sys) = some v)
    (hq : v.step cfg (.queryPoll polls.length) = some s') :
    run cfg s.sys m = some s'.sys ∧ s'.calls = s.calls ∧
      ∃ r', r.query s'.sys.world.db = some r' ∧ s'.polls = polls ++ [r'] := by
  rw [run_sys] at hr
  obtain ⟨sys, hsys, rfl⟩ := Option.map_eq_some_iff.1 hr
  obtain ⟨r₁, hi, hq⟩ := Option.bind_eq_some_iff.1 hq
  obtain ⟨r', hr', rfl⟩ := Option.map_eq_some_iff.1 hq
  rw [hp] at hi ⊢
  obtain rfl := Option.some.inj (List.getElem?_concat_length.symm.trans hi)
  refine ⟨hsys, rfl, r', hr', ?_⟩
  simp

/-- **A poll that is answered** shows what `read_poem` gives of the states its queries are made
in. -/
theorem polled_of_run {p : ℤ} {m₁ m₂ m₃ m₄ : List PoetryGenerator.Label}
    (hr : Runs.run (step cfg) s (pollWith s.polls.length m₁ m₂ m₃ m₄) = some s')
    (htimer : s.calls.page.timer = some p) (hs' : s'.Ok cfg keep) :
    ∃ s₁ s₂ s₃ d, run cfg s.sys m₁ = some s₁ ∧ run cfg s₁ m₂ = some s₂ ∧ run cfg s₂ m₃ = some s₃ ∧
      run cfg s₃ m₄ = some s'.sys ∧ readPoem s₁.world.db s₂.world.db s₃.world.db p = some d ∧
      s'.shown = some d ∧ s'.calls.page.timer = HomePage.effect (some d.view) := by
  obtain ⟨v, hfire, hr⟩ := Runs.run_cons_eq_some.1 hr
  obtain ⟨w₁, hr₁, hr⟩ := Runs.run_append_eq_some.1 hr
  obtain ⟨v₁, hq₁, hr⟩ := Runs.run_cons_eq_some.1 hr
  obtain ⟨w₂, hr₂, hr⟩ := Runs.run_append_eq_some.1 hr
  obtain ⟨v₂, hq₂, hr⟩ := Runs.run_cons_eq_some.1 hr
  obtain ⟨w₃, hr₃, hr⟩ := Runs.run_append_eq_some.1 hr
  obtain ⟨v₃, hq₃, hr⟩ := Runs.run_cons_eq_some.1 hr
  obtain ⟨w₄, hr₄, hr⟩ := Runs.run_append_eq_some.1 hr
  obtain ⟨_, hpolled, hr⟩ := Runs.run_cons_eq_some.1 hr
  obtain rfl := Option.some.inj hr
  obtain ⟨q, hq, hfire⟩ := Option.bind_eq_some_iff.1 hfire
  obtain rfl := Option.some.inj (hq.symm.trans htimer)
  obtain ⟨calls, hcalls, rfl⟩ := Option.map_eq_some_iff.1 hfire
  obtain ⟨hs₁, hc₁, r₁, hrow, hp₁⟩ := queryPoll_of_run rfl hr₁ hq₁
  obtain ⟨hs₂, hc₂, r₂, himages, hp₂⟩ := queryPoll_of_run hp₁ hr₂ hq₂
  obtain ⟨hs₃, hc₃, r₃, haudios, hp₃⟩ := queryPoll_of_run hp₂ hr₃ hq₃
  rw [run_sys] at hr₄
  obtain ⟨s₄, hs₄, rfl⟩ := Option.map_eq_some_iff.1 hr₄
  -- a poem that is not found is answered at once, and makes no further query
  obtain ⟨row, hpoem⟩ : ∃ row, v₁.sys.world.db.poem q = some row := by
    cases hpoem : v₁.sys.world.db.poem q with
    | none =>
        rw [Reading.query, hpoem] at hrow
        obtain rfl := Option.some.inj hrow
        cases himages
    | some row => exact ⟨row, rfl⟩
  rw [Reading.query, hpoem] at hrow
  obtain rfl := Option.some.inj hrow
  obtain rfl := Option.some.inj himages
  obtain rfl := Option.some.inj haudios
  have hlast : v₃.polls[s.polls.length]? = some (.answered q (some (detail (q, row)
      (v₂.sys.world.db.assetRows .image q) (v₃.sys.world.db.assetRows .audio q)))) := by
    rw [hp₃, List.getElem?_concat_length]
  simp only [Viewing.step, hlast] at hpolled
  obtain ⟨calls', hcalls', rfl⟩ := Option.map_eq_some_iff.1 hpolled
  obtain ⟨page, hpage, rfl⟩ := Option.map_eq_some_iff.1 hcalls'
  obtain ⟨id, hid, rfl⟩ := Option.map_eq_some_iff.1 hpage
  refine ⟨v₁.sys, v₂.sys, v₃.sys, _, hs₁, hs₂, hs₃, hs₄, ?_, rfl, ?_⟩
  · rw [readPoem, hpoem]
    rfl
  · exact congrArg HomePage.effect hs'.poem

theorem toSys_pollWith (i : ℕ) (m₁ m₂ m₃ m₄ : List PoetryGenerator.Label) :
    (pollWith i m₁ m₂ m₃ m₄).filterMap Label.toSys = m₁ ++ (m₂ ++ (m₃ ++ m₄)) := by
  have hsys : ∀ m : List PoetryGenerator.Label, (m.map Label.sys).filterMap Label.toSys = m := by
    intro m
    rw [List.filterMap_map]
    exact List.filterMap_some
  have hquery : ∀ ls, (Label.queryPoll i :: ls).filterMap Label.toSys = ls.filterMap Label.toSys :=
    fun _ => rfl
  rw [pollWith, List.filterMap_cons_none rfl]
  simp only [List.filterMap_append, hsys, hquery]
  rw [List.filterMap_cons_none rfl, List.filterMap_nil, List.append_nil]

end Viewing

/-- **What the page shows.**  In every run of the page, its requests and the system, the page
shows an answer for the stored poem, and when no asset of it is being produced, it is the
answer the poem has now, if the poem is still there.  If an asset of it is failed, this needs
that no worker takes up a failed job. -/
theorem shown_of_run {ls : List Viewing.Label} {s : Viewing} {v : PoemView}
    (hr : Runs.run (Viewing.step cfg) {} ls = some s) (hv : s.calls.page.poem = some v) :
    ∃ d, s.shown = some d ∧ d.view = v ∧
      (s.sys.world.db.poem v.id = none ∨ ∃ row images audios,
        s.sys.world.db.poem v.id = some row ∧ d = detail (v.id, row) images audios) ∧
      (v.pending = false → (AssetStatus.failed ∈ d.statuses → Runs.Along (Viewing.step cfg)
          (fun s l => s.loadsFailed l = false) {} ls) →
        s.sys.world.db.poem v.id = none ∨
        readPoem s.sys.world.db s.sys.world.db s.sys.world.db v.id = some d) := by
  have hs : s.Ok cfg False := Viewing.ok_of_run hr False.elim
  obtain ⟨d, hd, rfl⟩ := Option.map_eq_some_iff.1 (hs.poem.symm.trans hv)
  refine ⟨d, hd, rfl, ?_, fun hfinal hload => ?_⟩
  · obtain ⟨row, images, audios, heq, hrow, -⟩ := hs.shown d hd
    rw [or_iff_not_imp_left]
    intro hthere
    obtain ⟨row', hrow'⟩ := Option.ne_none_iff_exists'.1 hthere
    exact ⟨row, images, audios, hrow'.trans (congrArg some (hrow.2 row' hrow')), heq⟩
  · have hs : s.Ok cfg (AssetStatus.failed ∈ d.statuses) := Viewing.ok_of_run hr hload
    rw [or_iff_not_imp_left]
    exact (hs.shown d hd).final hs.reached hfinal id

namespace Sample

/-- A poem with an image only is asked for, and the page shows it. -/
def displayed : List Viewing.Label :=
  [.submit, .commit 0 { args with generateAudio := false } ids, .queryPost 0, .queryPost 0,
    .queryPost 0, .generated 0]

/-- The image is made while the first poll is on its way. -/
def polledOnce : List Viewing.Label :=
  displayed ++ Viewing.pollWith 0 [.push 0 .ok] (pictured.drop 2) [] []

end Sample

/-- The image is shown. -/
theorem shown_polledOnce : ∃ s v d, Runs.run (Viewing.step (Sample.config 1)) {} Sample.polledOnce = some s ∧
    s.calls.page.poem = some v ∧ s.shown = some d ∧ d.statuses = [.done] ∧
    (s.sys.world.db.poem v.id = none ∨
      readPoem s.sys.world.db s.sys.world.db s.sys.world.db v.id = some d) := by
  have hrun : ∃ s v d, Runs.run (Viewing.step (Sample.config 1)) {} Sample.polledOnce = some s ∧
      s.calls.page.poem = some v ∧ s.shown = some d ∧ d.statuses = [.done] ∧ v.pending = false :=
    ⟨_, _, _, rfl, rfl, rfl, rfl, rfl⟩
  obtain ⟨s, v, d, hr, hv, hd, hst, hfinal⟩ := hrun
  obtain ⟨d', hd', -, -, hlast⟩ := shown_of_run hr hv
  obtain rfl := Option.some.inj (hd.symm.trans hd')
  exact ⟨s, v, d, hr, hv, hd, hst, hlast hfinal fun h => absurd (hst ▸ h) (by decide)⟩

/-- **The last poll.**  From every state of every run in which the page waits for its timer, when
both workers are restarted and more than `drainBound` operations of each follow, in any order
and without one raising, then the next poll that is answered, whatever else happens to the
system meanwhile, shows the answer that the poem has now, and no timer is armed any more; or
the poem has been deleted.  If an asset is failed when the workers are through, this needs
that no worker takes up a failed job. -/
theorem last_poll_of_restarts {ls : List Viewing.Label} {s s₁ s' : Viewing} {v : PoemView}
    {acts m₁ m₂ m₃ m₄ : List Label} (hr : Runs.run (Viewing.step cfg) {} ls = some s)
    (hv : s.calls.page.poem = some v) (htimer : s.calls.page.timer = some v.id)
    (hacts : ∀ l ∈ acts, l.tends = true)
    (hr₁ : Runs.run (Viewing.step cfg) s ((restarts ++ acts).map .sys) = some s₁)
    (hlen : ∀ t, s.sys.world.drainBound cfg t < acts.countP (Label.isOf t))
    (hr' : Runs.run (Viewing.step cfg) s₁
      (Viewing.pollWith s₁.polls.length m₁ m₂ m₃ m₄) = some s')
    (hload : (∃ t, ∃ x ∈ s₁.sys.world.db.assetRows t v.id, x.2.status = .failed) →
      Runs.Along (Viewing.step cfg) (fun s l => s.loadsFailed l = false) {}
        (ls ++ (restarts ++ acts).map .sys ++ Viewing.pollWith s₁.polls.length m₁ m₂ m₃ m₄)) :
    s'.sys.world.db.poem v.id = none ∨ ∃ d, s'.shown = some d ∧ s'.calls.page.timer = none ∧
      readPoem s'.sys.world.db s'.sys.world.db s'.sys.world.db v.id = some d := by
  generalize hkeep : (∃ t, ∃ x ∈ s₁.sys.world.db.assetRows t v.id, x.2.status = .failed) = keep at hload
  have hrun := Runs.run_append_eq_some.2 ⟨s, hr, hr₁⟩
  have hrun' := Runs.run_append_eq_some.2 ⟨s₁, hrun, hr'⟩
  have hs₁ : s₁.Ok cfg keep :=
    Viewing.ok_of_run hrun fun h => ((Runs.along_append hrun).1 (hload h)).1
  have hs' : s'.Ok cfg keep := Viewing.ok_of_run hrun' hload
  have halong : keep → Runs.Along (step cfg) (fun s l => s.loadsFailed l = false) s₁.sys
      (m₁ ++ (m₂ ++ (m₃ ++ m₄))) := by
    intro h
    rw [← Viewing.toSys_pollWith s₁.polls.length]
    exact (Viewing.sys_of_run hr').2 ((Runs.along_append hrun).1 (hload h)).2
  rw [Viewing.run_sys] at hr₁
  obtain ⟨sys, hsys, rfl⟩ := Option.map_eq_some_iff.1 hr₁
  obtain ⟨-, hjobs⟩ := settled_of_restarts (Viewing.sys_of_run hr).1 hacts hsys hlen
  obtain ⟨d₀, hd₀, rfl⟩ := Option.map_eq_some_iff.1 (hs₁.poem.symm.trans hv)
  obtain ⟨-, -, -, -, ⟨hknown, -⟩, -⟩ := hs₁.shown d₀ hd₀
  obtain ⟨x, y, z, d, hx, hy, hz, hend, hread, hshown, hnext⟩ :=
    Viewing.polled_of_run hr' htimer hs'
  rw [or_iff_not_imp_left]
  intro hthere
  have hreads : Reads cfg x (m₂ ++ m₃) z d₀.view.id (some d) := ⟨m₂, m₃, y, rfl, hy, hz, hread.symm⟩
  have hz' := Runs.run_append_eq_some.2 ⟨x, hx, hreads.run⟩
  have hend' := Runs.run_append_eq_some.2 ⟨z, hz', hend⟩
  have heq : m₁ ++ (m₂ ++ (m₃ ++ m₄)) = m₁ ++ (m₂ ++ m₃) ++ m₄ := by simp only [List.append_assoc]
  rw [heq] at halong
  have halong' := fun h => ((Runs.along_append hz').1 (halong h)).1
  -- what the poem has when the workers are through
  obtain ⟨d₁, hread₁⟩ : ∃ d₁, readPoem sys.world.db sys.world.db sys.world.db d₀.view.id = some d₁ := by
    obtain ⟨row, hrow⟩ := Option.ne_none_iff_exists'.1 (hs₁.reached.there hend' hknown hthere)
    exact ⟨_, Option.map_eq_some_iff.2 ⟨row, hrow, rfl⟩⟩
  have hreads₁ : Reads cfg sys [] sys d₀.view.id (some d₁) := ⟨[], [], sys, rfl, rfl, rfl, hread₁.symm⟩
  have hd₁ := hreads₁.answers hs₁.reached fun _ => trivial
  have hfinal := hs₁.reached.ok.rows.not_pending hjobs hread₁
  have hfailed : AssetStatus.failed ∈ d₁.statuses → keep := by
    obtain ⟨row, -, rfl⟩ := Option.map_eq_some_iff.1 hread₁
    rw [mem_statuses_detail]
    rintro ⟨t, ref, a, ha, hpoem, hst⟩
    exact hkeep ▸ ⟨t, (ref, a), Db.mem_assetRows.2 ⟨ha, hpoem⟩, hst⟩
  have hzthere := ((hs₁.reached.after halong' hz').there hend
    ((hs₁.reached.later hz').known hknown) hthere)
  obtain rfl := hd₁.eq_of_reads hs₁.reached hfinal hfailed hx halong' hreads hzthere
  exact ⟨_, hshown, hnext.trans (if_neg (Bool.eq_false_iff.1 hfinal)),
    (hd₁.after hs₁.reached halong hend').final hs'.reached hfinal hfailed hthere⟩

/-- The image is made by a worker that finds its job in the database. -/
theorem last_poll_displayed : ∃ s s₁ s' d, Runs.run (Viewing.step (Sample.config 0)) {} Sample.displayed = some s ∧
    Runs.run (Viewing.step (Sample.config 0)) s
      ((restarts ++ Sample.interleavedRounds).map .sys) = some s₁ ∧
    Runs.run (Viewing.step (Sample.config 0)) s₁ (Viewing.pollWith s₁.polls.length [] [] [] []) = some s' ∧
    s'.shown = some d ∧ d.statuses = [.done] ∧ s'.calls.page.timer = none := by
  have hrun : ∃ s sys s' v d, Runs.run (Viewing.step (Sample.config 0)) {} Sample.displayed = some s ∧
      s.calls.page.poem = some v ∧ s.calls.page.timer = some v.id ∧
      run (Sample.config 0) s.sys (restarts ++ Sample.interleaved) = some sys ∧
      sys.workers .image = .pop ∧ sys.world.redis.queue .image = [] ∧
      s.sys.world.drainBound (Sample.config 0) .image = 101 ∧
      s.sys.world.drainBound (Sample.config 0) .audio = 4 ∧
      (∀ t, ∀ x ∈ sys.world.db.assetRows t v.id, x.2.status ≠ .failed) ∧
      Runs.run (Viewing.step (Sample.config 0)) { s with sys }
        (Viewing.pollWith s.polls.length [] [] [] []) = some s' ∧
      s'.shown = some d ∧ d.statuses = [.done] ∧ (s'.sys.world.db.poem v.id).isSome := by
    refine ⟨_, _, _, _, _, rfl, rfl, rfl, rfl, rfl, rfl, by decide, by decide, ?_, rfl, rfl, rfl, rfl⟩
    intro t
    cases t <;> decide
  obtain ⟨s, sys, s', v, d, hr, hv, htimer, hsys, hpc, hq, himage, haudio, hnone, hr', hd, hst,
    hthere⟩ := hrun
  have hr₁ : Runs.run (Viewing.step (Sample.config 0)) s
      ((restarts ++ Sample.interleavedRounds).map .sys) = some { s with sys } := by
    rw [Viewing.run_sys, Sample.run_interleavedRounds hsys hpc hq]
    rfl
  refine ⟨s, _, s', d, hr, hr₁, hr', hd, hst, ?_⟩
  rcases last_poll_of_restarts hr hv htimer Sample.tends_interleavedRounds hr₁
    (Sample.lt_countP_interleavedRounds himage haudio) hr'
    (fun ⟨t, x, hx, h⟩ => absurd h (hnone t x hx)) with hgone | ⟨-, -, hnext, -⟩
  · rw [hgone] at hthere
    cases hthere
  · exact hnext

end PoetryGenerator
