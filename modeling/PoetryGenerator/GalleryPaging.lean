/-
# Paging through the gallery while deleting

The gallery and the API together, one person using them: every request is answered before
the next click.  `get_poems` takes the page by offset from the list newest first, and Next is
disabled when fewer than `PAGE_SIZE` cards are shown, which stands for "this is the last
page".  A confirmed deletion takes the card out of the list that is shown and asks for
nothing, so a page that was full is taken for the last one.

The server's list is what is newer than the page, the page, and what is older
(`Visit.Paged`).  A list that has just been fetched fills the page while anything is older,
and a deletion keeps that exactly when nothing is.
-/

import PoetryGenerator.Gallery
import PoetryGenerator.Lib.Lists

namespace PoetryGenerator

/-- The character parameter of a request for a list; it is left out when it is empty. -/
def ListRequest.filter (r : ListRequest) : Option Str :=
  if r.character = [] then none else some r.character

/-- A request for a list and the answer to it. -/
def ListRequest.send (r : ListRequest) (db : Db) : Option (List PoemSummary) :=
  listPoems db pageSize (r.page * pageSize) r.filter

/-- The server, and the gallery of the only person who uses it. -/
structure Visit where
  db : Db
  files : Finset Path
  page : Gallery

namespace Visit

/-- The list that has been asked for arrives. -/
def settle (s : Visit) (g : Gallery) : Visit :=
  { s with page := match g.requests with
      | [] => g
      | r :: _ => g.receive 0 (r.send s.db) }

/-- The gallery has been opened. -/
def opened (db : Db) (files : Finset Path) : Visit := settle ⟨db, files, {}⟩ .mounted

/-- A click, and everything it asks for. -/
inductive Action
  | filter (value : Str)
  | prev
  | next
  /-- A card is deleted, and the deletion is confirmed. -/
  | delete (id : ℤ)
deriving DecidableEq, Repr

section
variable (dataDir : Path) (unlink : Path → Bool)

/-- One action. -/
def act (s : Visit) : Action → Option Visit
  | .filter value => (s.page.browse (.filter value)).map s.settle
  | .prev => (s.page.browse .prev).map s.settle
  | .next => (s.page.browse .next).map s.settle
  | .delete id =>
    let deletion := deletePoem dataDir unlink s.db s.files id
    ((s.page.confirmDelete id).bind fun g => g.deleted 0 deletion.1).map
      fun page => ⟨deletion.2.1, deletion.2.2, page⟩

/-- The ids of the poems of the filter, on the server. -/
def ids (s : Visit) : List ℤ :=
  s.db.matchingIds (if s.page.character = [] then none else some s.page.character)

/-- Those that are older than a poem, the newest first. -/
def older (s : Visit) (id : ℤ) : List ℤ := s.ids.filter (· < id)

/-- **The next poem is reachable**: while the server has poems older than the last card, Next
is enabled and shows the newest of them first. -/
def Reaches (s : Visit) : Prop :=
  ∀ last ∈ s.page.items.getLast?, ∀ id ∈ (s.older last.id).head?,
    ∃ s', s.act dataDir unlink .next = some s' ∧ (s'.page.items.map PoemSummary.id).head? = some id

/-- A card is deleted only where the server has no poem older than the last one. -/
def OnLastPage (s : Visit) : Action → Prop
  | .delete _ => ∀ last ∈ s.page.items.getLast?, s.older last.id = []
  | _ => True

instance (s : Visit) : (a : Action) → Decidable (s.OnLastPage a)
  | .delete _ => inferInstanceAs (Decidable (∀ last ∈ s.page.items.getLast?, s.older last.id = []))
  | .filter _ | .prev | .next => isTrue trivial

/-- The list on the server around the page. -/
structure Paged (s : Visit) (before after : List ℤ) : Prop where
  character : filters.contains s.page.character = true
  requests : s.page.requests = []
  loading : s.page.loading = false
  deletions : s.page.deletions = []
  ids : s.ids = before ++ (s.page.items.map PoemSummary.id ++ after)
  length_le : s.page.items.length ≤ pageSize
  offset : s.page.items ≠ [] → before.length = s.page.page * pageSize

/-- What is shown is a page of the list on the server. -/
def OnServer (s : Visit) : Prop := ∃ before after, s.Paged before after

/-- The page is full while anything is older. -/
def Full (s : Visit) (after : List ℤ) : Prop :=
  s.page.items ≠ [] → after ≠ [] → s.page.items.length = pageSize

variable {dataDir unlink}
variable {s s' : Visit} {a : Action} {ls : List Action} {before after : List ℤ} {g : Gallery}

/-! ### Fetching a page -/

/-- The list of a request of a filter of the page. -/
theorem ids_send {r : ListRequest} (h : filters.contains r.character = true) (db : Db) :
    ((r.send db).getD []).map PoemSummary.id =
      ((db.matchingIds r.filter).drop (r.page * pageSize)).take pageSize := by
  have hchar : r.filter.all characters.contains = true := by
    rw [ListRequest.filter]
    split_ifs with hempty
    · rfl
    · rw [filters, List.contains_cons, Bool.or_eq_true, beq_iff_eq] at h
      exact h.resolve_left hempty
  obtain ⟨answer, ha⟩ : ∃ answer, r.send db = some answer :=
    ⟨_, if_pos ⟨by decide, by decide, hchar⟩⟩
  rw [ha, Option.getD_some]
  exact ids_listPoems ha

/-- The page that is shown when the list has arrived. -/
theorem page_settle {r : ListRequest} {rs : List ListRequest} (hr : g.requests = r :: rs) (s : Visit) :
    (s.settle g).page = g.receive 0 (r.send s.db) := by
  rw [settle, hr]

/-- **A fetched page**: what is newer are the pages before it, and it is full while anything
is older. -/
theorem paged_settle (hc : filters.contains g.character = true) (hd : g.deletions = []) {n : ℕ}
    (hr : g.requests = [⟨n, g.character, g.page⟩]) (s : Visit) :
    ∃ before after, Paged (s.settle g) before after ∧ Full (s.settle g) after := by
  have hpage := page_settle hr s
  set all := s.db.matchingIds (ListRequest.filter ⟨n, g.character, g.page⟩) with hall
  have hitems : (s.settle g).page.items.map PoemSummary.id =
      (all.drop (g.page * pageSize)).take pageSize := by
    rw [hpage]
    exact ids_send hc s.db
  have hlength : (s.settle g).page.items.length = min pageSize (all.length - g.page * pageSize) := by
    rw [← List.length_map PoemSummary.id, hitems, List.length_take, List.length_drop]
  refine ⟨all.take (g.page * pageSize), (all.drop (g.page * pageSize)).drop pageSize, ?_, ?_⟩
  · constructor
    · rw [hpage]
      exact hc
    · rw [hpage, Gallery.receive, hr]
      rfl
    · rw [hpage]
      rfl
    · rw [hpage]
      exact hd
    · rw [hitems, List.take_append_drop, List.take_append_drop, ids, hpage]
      rfl
    · exact hlength.trans_le (min_le_left _ _)
    · intro hne
      have hpos : 0 < (s.settle g).page.items.length := List.length_pos_iff.2 hne
      rw [hlength] at hpos
      rw [List.length_take, hpage]
      exact min_eq_left (by omega)
  · intro _ hafter
    have hpos : 0 < ((all.drop (g.page * pageSize)).drop pageSize).length :=
      List.length_pos_iff.2 hafter
    rw [List.length_drop, List.length_drop] at hpos
    rw [hlength]
    exact min_eq_left (by omega)

theorem paged_opened (db : Db) (files : Finset Path) :
    ∃ before after, Paged (opened db files) before after ∧ Full (opened db files) after :=
  paged_settle (by decide) rfl rfl _

/-- A selection is fetched, unless it is the one that is shown. -/
theorem Paged.select (h : s.Paged before after) {character : Str}
    (hc : filters.contains character = true) (page : ℕ) :
    s.settle (s.page.select character page) = s ∨ ∃ before after,
      Paged (s.settle (s.page.select character page)) before after ∧
      Full (s.settle (s.page.select character page)) after := by
  rw [Gallery.select]
  split_ifs with hsame
  · rw [settle, h.requests]
    exact .inl rfl
  · refine .inr (paged_settle ?_ ?_ (n := s.page.issued) ?_ s)
    · exact hc
    · exact h.deletions
    · rw [Gallery.fetchList, h.requests]
      rfl

/-! ### What is older -/

/-- What is older than the last card is what follows the page. -/
theorem Paged.older (h : s.Paged before after) {last : PoemSummary}
    (hlast : last ∈ s.page.items.getLast?) : s.older last.id = after := by
  obtain ⟨front, hfront⟩ := List.getLast?_eq_some_iff.1 hlast
  have hids : s.ids = (before ++ front.map PoemSummary.id) ++ last.id :: after := by
    rw [h.ids, hfront, List.map_append, List.append_assoc, List.append_assoc]
    rfl
  have hsorted : s.ids.Pairwise (· > ·) := pairwise_matchingIds s.db _
  rw [Visit.older, hids]
  exact Lists.filter_lt_of_pairwise (hids ▸ hsorted)

/-- Next from a full page shows what follows it. -/
theorem Paged.next (h : s.Paged before after) (hfull : s.page.items.length = pageSize) :
    ∃ s', s.act dataDir unlink .next = some s' ∧
      s'.page.items.map PoemSummary.id = after.take pageSize := by
  have hsel : s.page.select s.page.character (s.page.page + 1) =
      { s.page with page := s.page.page + 1 }.fetchList :=
    if_neg fun hsame => Nat.succ_ne_self _ hsame.2
  have hnext : s.page.browse .next = some { s.page with page := s.page.page + 1 }.fetchList := by
    rw [Gallery.browse, if_neg hfull.not_lt, hsel]
  refine ⟨_, by rw [act, hnext, Option.map_some], ?_⟩
  have hne : s.page.items ≠ [] := by
    rintro hnil
    rw [hnil] at hfull
    cases hfull
  have hskip : (before ++ s.page.items.map PoemSummary.id).length = (s.page.page + 1) * pageSize := by
    rw [List.length_append, List.length_map, hfull, h.offset hne, Nat.succ_mul]
  have hrequests : { s.page with page := s.page.page + 1 }.fetchList.requests =
      [⟨s.page.issued, s.page.character, s.page.page + 1⟩] := by
    rw [Gallery.fetchList, h.requests]
    rfl
  rw [page_settle hrequests]
  refine (ids_send h.character s.db).trans ?_
  change (s.ids.drop ((s.page.page + 1) * pageSize)).take pageSize = _
  rw [h.ids, ← List.append_assoc, ← hskip, List.drop_left]

/-- **The next poem is reachable from a page that is full while anything is older**, and from
no other. -/
theorem Paged.reaches_iff (h : s.Paged before after) :
    s.Reaches dataDir unlink ↔ s.Full after := by
  constructor
  · intro hr hne hafter
    have hlast := List.getLast?_eq_some_getLast hne
    have hhead : after.head hafter ∈ (s.older (s.page.items.getLast hne).id).head? := by
      rw [h.older hlast]
      exact List.head?_eq_some_head hafter
    obtain ⟨s', hs', -⟩ := hr _ hlast _ hhead
    by_contra hshort
    have hdisabled : s.page.browse .next = none :=
      if_pos (lt_of_le_of_ne h.length_le hshort)
    rw [act, hdisabled] at hs'
    cases hs'
  · intro hfull last hlast id hid
    rw [h.older hlast] at hid
    have hne : s.page.items ≠ [] := by
      rintro hnil
      rw [hnil] at hlast
      cases hlast
    have hafter : after ≠ [] := by
      rintro rfl
      cases hid
    obtain ⟨s', hs', hitems⟩ := h.next (hfull hne hafter)
    refine ⟨s', hs', ?_⟩
    rw [hitems, List.head?_take, if_neg (by decide)]
    exact hid

/-! ### A step -/

/-- A deletion takes a card that is shown out of the page and of the server's list. -/
theorem act_delete (h : s.Paged before after) {id : ℤ}
    (hs : s.act dataDir unlink (.delete id) = some s') :
    id ∈ s.page.items.map PoemSummary.id ∧ s'.ids = s.ids.filter (· ≠ id) ∧
      s'.page = { s.page with items := s.page.items.filter fun x => x.id ≠ id } := by
  obtain ⟨page, hpage, rfl⟩ := Option.map_eq_some_iff.1 hs
  obtain ⟨g, hg, hdeleted⟩ := Option.bind_eq_some_iff.1 hpage
  rw [Gallery.confirmDelete] at hg
  split_ifs at hg with hshown
  obtain rfl := Option.some.inj hg
  have hmem : id ∈ s.page.items.map PoemSummary.id := List.contains_iff_mem.1 hshown.2
  have hexists : (deletePoem dataDir unlink s.db s.files id).1 = true := by
    have hid : id ∈ s.ids := by
      rw [h.ids]
      exact List.mem_append_right _ (List.mem_append_left _ hmem)
    obtain ⟨p, hp, -⟩ := mem_matchingIds.1 hid
    rw [deletePoem, hp]
  have hpage : page = { s.page with items := s.page.items.filter fun x => x.id ≠ id } := by
    rw [Gallery.deleted, h.deletions, hexists] at hdeleted
    rw [← Option.some.inj hdeleted]
    simp [h.deletions]
  refine ⟨hmem, ?_, hpage⟩
  rw [ids, hpage]
  exact matchingIds_deletePoem ..

/-- **A deletion leaves what is newer and what is older**, and one card fewer. -/
theorem Paged.delete (h : s.Paged before after) {id : ℤ}
    (hs : s.act dataDir unlink (.delete id) = some s') :
    s'.Paged before after ∧ s'.page.items.length + 1 = s.page.items.length := by
  obtain ⟨hmem, hids, hpage⟩ := act_delete h hs
  have hsorted : s.ids.Pairwise (· > ·) := pairwise_matchingIds s.db _
  have hnodup := hsorted.sortedGT.nodup
  rw [h.ids, List.nodup_append, List.nodup_append] at hnodup
  obtain ⟨-, ⟨hitems, -, hafter⟩, hbefore⟩ := hnodup
  have hmap : s'.page.items.map PoemSummary.id =
      (s.page.items.map PoemSummary.id).filter (· ≠ id) := by
    rw [hpage, List.filter_map]
    rfl
  have herase : s'.page.items.map PoemSummary.id = (s.page.items.map PoemSummary.id).erase id := by
    rw [hmap, hitems.erase_eq_filter]
    exact List.filter_congr fun x _ => Bool.eq_iff_iff.2 (by simp)
  have hlength : s'.page.items.length + 1 = s.page.items.length := by
    rw [← List.length_map PoemSummary.id, herase, List.length_erase_add_one hmem, List.length_map]
  refine ⟨⟨?_, ?_, ?_, ?_, ?_, ?_, ?_⟩, hlength⟩
  · rw [hpage]
    exact h.character
  · rw [hpage]
    exact h.requests
  · rw [hpage]
    exact h.loading
  · rw [hpage]
    exact h.deletions
  · have hkept : ∀ l : List ℤ, id ∉ l → l.filter (· ≠ id) = l := fun l hl =>
      List.filter_eq_self.2 fun y hy => decide_eq_true fun he => hl (he ▸ hy)
    rw [hids, h.ids, List.filter_append, List.filter_append, hmap, hkept before, hkept after]
    · exact fun hid => hafter _ hmem _ hid rfl
    · exact fun hid => hbefore _ hid _ (List.mem_append_left _ hmem) rfl
  · exact (Nat.le_of_succ_le hlength.le).trans h.length_le
  · intro _
    rw [hpage]
    refine h.offset ?_
    rintro hnil
    rw [hnil] at hmem
    cases hmem

/-- **What an action does**: a card is deleted, or a selection is asked for. -/
theorem Paged.act_cases (h : s.Paged before after) (hs : s.act dataDir unlink a = some s') :
    (∃ id, a = .delete id) ∨ (s.OnLastPage a ∧ ∃ character page,
      filters.contains character = true ∧ s' = s.settle (s.page.select character page)) := by
  cases a with
  | filter value =>
      obtain ⟨g, hg, rfl⟩ := Option.map_eq_some_iff.1 hs
      rw [Gallery.browse] at hg
      split_ifs at hg with hvalue
      exact .inr ⟨trivial, value, 0, hvalue, by rw [Option.some.inj hg]⟩
  | prev =>
      obtain ⟨g, hg, rfl⟩ := Option.map_eq_some_iff.1 hs
      rw [Gallery.browse] at hg
      split_ifs at hg
      exact .inr ⟨trivial, _, _, h.character, by rw [Option.some.inj hg]⟩
  | next =>
      obtain ⟨g, hg, rfl⟩ := Option.map_eq_some_iff.1 hs
      rw [Gallery.browse] at hg
      split_ifs at hg
      exact .inr ⟨trivial, _, _, h.character, by rw [Option.some.inj hg]⟩
  | delete id => exact .inl ⟨id, rfl⟩

/-- Every action leaves a page of the server's list. -/
theorem OnServer.step (h : s.OnServer) (hs : s.act dataDir unlink a = some s') : s'.OnServer := by
  obtain ⟨before, after, h⟩ := h
  rcases h.act_cases hs with ⟨id, rfl⟩ | ⟨-, character, page, hc, rfl⟩
  · exact ⟨_, _, (h.delete hs).1⟩
  · rcases h.select hc page with hsame | ⟨before, after, hpaged, -⟩
    · exact ⟨_, _, hsame.symm ▸ h⟩
    · exact ⟨_, _, hpaged⟩

/-- **Step lemma.**  The next poem stays reachable exactly when no card is deleted while
something is older than the page. -/
theorem step_reaches (h : s.Paged before after) (hr : s.Reaches dataDir unlink)
    (hs : s.act dataDir unlink a = some s') : s'.Reaches dataDir unlink ↔ s.OnLastPage a := by
  rcases h.act_cases hs with ⟨id, rfl⟩ | ⟨hclick, character, page, hc, rfl⟩
  · obtain ⟨hpaged, hlength⟩ := h.delete hs
    have hne : s.page.items ≠ [] := List.ne_nil_of_length_eq_add_one hlength.symm
    have hlast := List.getLast?_eq_some_getLast hne
    have hlastPage : s.OnLastPage (.delete id) ↔ after = [] := by
      simp only [OnLastPage, hlast, Option.mem_def, Option.some.injEq, forall_eq', h.older hlast]
    rw [hpaged.reaches_iff, hlastPage]
    constructor
    · intro hfull'
      by_contra hafter
      have hfull : s.page.items.length = pageSize := h.reaches_iff.1 hr hne hafter
      have hne' : s'.page.items ≠ [] := by
        rintro hnil
        rw [hnil, hfull] at hlength
        exact absurd hlength (by decide)
      have := hfull' hne' hafter
      omega
    · exact fun hafter _ hne => absurd hafter hne
  · refine iff_of_true ?_ hclick
    rcases h.select hc page with hsame | ⟨before, after, hpaged, hfull⟩
    · exact hsame.symm ▸ hr
    · exact hpaged.reaches_iff.2 hfull

/-- **Browsing and deleting.**  Whatever the server holds, in a visit to the gallery the next
older poem is reachable in every state exactly when cards are deleted only where nothing is
older than the page. -/
theorem reaches_iff_onLastPage {db : Db} {files : Finset Path}
    (hr : Runs.run (act dataDir unlink) (opened db files) ls = some s) :
    Runs.Along (act dataDir unlink) OnLastPage (opened db files) ls ↔
      ∀ pre post s', ls = pre ++ post →
        Runs.run (act dataDir unlink) (opened db files) pre = some s' → s'.Reaches dataDir unlink := by
  obtain ⟨before, after, hpaged, hfull⟩ := paged_opened db files
  have hopened : (opened db files).OnServer := ⟨_, _, hpaged⟩
  exact Runs.along_iff_forall_prefix_of_invariant (fun _ _ _ h _ hs => h.step hs)
    (fun _ _ _ ⟨_, _, h⟩ hreach hs => step_reaches h hreach hs) hopened
    (hpaged.reaches_iff.2 hfull) hr

/-- Thirteen poems, one more than a page. -/
def thirteen : Db :=
  { Db.empty with
    poems := (List.range' 1 13).foldl (fun poems (n : ℕ) => poems.insert n
      ⟨"yuri".toList, none, "en".toList, [], none, [], [], none, none⟩) ∅ }

/-- The oldest poem is deleted from the page it is alone on, and the page before it is opened. -/
def fromLastPage : List Action := [.next, .delete 1, .prev]

/-- No poem is out of reach. -/
theorem fromLastPage_reaches : ∃ s, Runs.run (act [] fun _ => true) (opened thirteen ∅)
    fromLastPage = some s ∧ s.Reaches [] fun _ => true := by
  obtain ⟨s, hs⟩ : ∃ s, Runs.run (act [] fun _ => true) (opened thirteen ∅) fromLastPage = some s :=
    ⟨_, rfl⟩
  exact ⟨s, hs, (reaches_iff_onLastPage hs).1 (by decide) fromLastPage [] s rfl hs⟩

/-- A card is deleted from the first page: the oldest poem is left, and Next is disabled. -/
theorem thirteen_not_reaches : ∃ s, Runs.run (act [] fun _ => true) (opened thirteen ∅)
    [.delete 5] = some s ∧ s.older 2 = [1] ∧ s.act [] (fun _ => true) .next = none ∧
      ¬ s.Reaches [] fun _ => true := by
  refine ⟨_, rfl, by decide, rfl, fun h => ?_⟩
  obtain ⟨s', hs', -⟩ := h _ rfl 1 (by decide)
  exact nomatch hs'

end
end Visit
end PoetryGenerator
