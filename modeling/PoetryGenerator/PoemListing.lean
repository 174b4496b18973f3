/-
# Listing poems (`api/app/repository.py` and `GET /api/poems`)

`get_poems` takes a page of the poems of a character, the newest first.  What the list
shows of a poem is its `PoemSummary`: columns of the row, and of the first image and the
first audio their status and the link to their file.

The ids of the matching poems decrease strictly (`pairwise_matchingIds`), and deleting a
poem takes its id out of them and no other (`matchingIds_deletePoem`).
-/

import PoetryGenerator.AssetServing
import PoetryGenerator.Schema

namespace PoetryGenerator

/-- `PoemSummary`. -/
structure PoemSummary where
  id : ℤ
  character : Str
  title : Str
  titleJa : Option Str
  mood : Option Str
  lang : Str
  imageStatus : Option AssetStatus
  audioStatus : Option AssetStatus
  imageUrl : Option Str
  audioUrl : Option Str
deriving DecidableEq, Repr

/-- `poem.images[0]` and `poem.audios[0]`: the relationships are ordered by id. -/
def Db.firstAsset (db : Db) (t : JobType) (poemId : ℤ) : Option (Asset t) :=
  ((((db.assets t).entries.filter fun e => e.2.poemId = poemId).map
    fun e => (e.1, e.2)).insertionSort fun x y => x.1 ≤ y.1).head?.map Prod.snd

/-- `_summary`. -/
def Db.summary (db : Db) (row : ℤ × Poem) : PoemSummary :=
  let image := db.firstAsset .image row.1
  let audio := db.firstAsset .audio row.1
  { id := row.1
    character := row.2.character
    title := row.2.title
    titleJa := row.2.titleJa
    mood := row.2.mood
    lang := row.2.lang
    imageStatus := image.map fun a => a.status
    audioStatus := audio.map fun a => a.status
    imageUrl := image.bind fun a => assetUrl .image a.path
    audioUrl := audio.bind fun a => assetUrl .audio a.path }

/-- `WHERE character = ..`, for a character that is given and not empty. -/
def Poem.matches (character : Option Str) (p : Poem) : Bool :=
  character.getD [] = [] || p.character = character.getD []

/-- The rows `get_poems` selects, `ORDER BY id DESC`. -/
def Db.matching (db : Db) (character : Option Str) : List (ℤ × Poem) :=
  ((db.poems.entries.filter fun e => e.2.matches character).map
    fun e => (e.1, e.2)).insertionSort fun x y => x.1 ≥ y.1

/-- `get_poems`. -/
def getPoems (db : Db) (limit offset : ℕ) (character : Option Str) : List (ℤ × Poem) :=
  ((db.matching character).drop offset).take limit

/-- `list_poems`; nothing is the answer 422. -/
def listPoems (db : Db) (limit offset : ℕ) (character : Option Str) : Option (List PoemSummary) :=
  if 1 ≤ limit ∧ limit ≤ 100 ∧ character.all characters.contains then
    some ((getPoems db limit offset character).map db.summary)
  else none

/-- The ids of the poems that a list goes through. -/
def Db.matchingIds (db : Db) (character : Option Str) : List ℤ :=
  (db.matching character).map Prod.fst

variable {db : Db} {character : Option Str} {limit offset : ℕ} {id : ℤ}

theorem mem_matchingIds :
    id ∈ db.matchingIds character ↔ ∃ p, db.poem id = some p ∧ p.matches character = true := by
  simp only [Db.matchingIds, Db.matching, List.mem_map, List.mem_insertionSort, List.mem_filter]
  constructor
  · rintro ⟨_, ⟨⟨k, p⟩, ⟨he, hp⟩, rfl⟩, rfl⟩
    exact ⟨p, AList.mem_lookup_iff.2 he, hp⟩
  · rintro ⟨p, hk, hp⟩
    exact ⟨(id, p), ⟨⟨id, p⟩, ⟨AList.mem_lookup_iff.1 hk, hp⟩, rfl⟩, rfl⟩

/-- **The list is newest first.** -/
theorem pairwise_matchingIds (db : Db) (character : Option Str) :
    (db.matchingIds character).Pairwise (· > ·) := by
  have hids : db.matchingIds character =
      (((db.poems.entries.filter fun e => e.2.matches character).map
        fun e => ((e.1, e.2) : ℤ × Poem)).map Prod.fst).insertionSort (· ≥ ·) :=
    List.map_insertionSort _ _ _ _ fun _ _ _ _ => Iff.rfl
  have hnodup : ((db.poems.entries.filter fun e => e.2.matches character).map
      fun e => ((e.1, e.2) : ℤ × Poem)).map Prod.fst |>.Nodup := by
    rw [List.map_map]
    exact db.poems.nodupKeys.sublist List.filter_sublist
  rw [hids]
  have hsorted := List.sortedGE_insertionSort.sortedGT_of_nodup
    ((List.perm_insertionSort (· ≥ ·) _).nodup_iff.2 hnodup)
  exact hsorted.pairwise

/-- The row of a deleted poem is gone, and no other. -/
theorem poem_deletePoem (dataDir : Path) (unlink : Path → Bool) (files : Finset Path) (k : ℤ) :
    (deletePoem dataDir unlink db files id).2.1.poem k = if k = id then none else db.poem k := by
  cases hp : db.poem id with
  | none =>
      rw [deletePoem, hp]
      split_ifs with hk
      · rw [hk, hp]
      · rfl
  | some p =>
      rw [deletePoem, hp]
      exact db.poem_deleteRows id _ k

/-- **The list after a deletion** is the list without the poem. -/
theorem matchingIds_deletePoem (dataDir : Path) (unlink : Path → Bool) (db : Db)
    (files : Finset Path) (id : ℤ) (character : Option Str) :
    (deletePoem dataDir unlink db files id).2.1.matchingIds character =
      (db.matchingIds character).filter (· ≠ id) := by
  have hsorted : ((db.matchingIds character).filter (· ≠ id)).SortedGT :=
    ((pairwise_matchingIds db character).filter _).sortedGT
  refine (pairwise_matchingIds _ character).sortedGT.eq_of_mem_iff hsorted fun k => ?_
  rw [List.mem_filter, decide_eq_true_eq, mem_matchingIds, mem_matchingIds, poem_deletePoem]
  split_ifs with hk
  · simp [hk]
  · simp [hk]

/-- The ids of a page. -/
theorem ids_listPoems {answer : List PoemSummary}
    (h : listPoems db limit offset character = some answer) :
    answer.map PoemSummary.id = ((db.matchingIds character).drop offset).take limit := by
  rw [listPoems] at h
  split_ifs at h
  rw [← Option.some.inj h, getPoems, Db.matchingIds, ← List.map_drop, ← List.map_take, List.map_map]
  rfl

end PoetryGenerator
