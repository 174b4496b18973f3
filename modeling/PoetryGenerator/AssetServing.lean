/-
# Serving assets (`api/app/main.py`, `api/app/assets.py`)

Four functions name the file of an asset.  A worker writes `data_dir/<kind>/<name>` and
stores that text in the row; `_asset_url` makes a link of its base name; `get_asset`
serves what the path of a request is under `data_dir`; `_remove_asset_file` unlinks what
the stored text is under it.

`data_dir` is any absolute text; `Path` drops its empty and `.` components when it is
written (`outPath`), and `resolve` also removes the `..` (`Path.resolve`).  The server
decodes the path of a request: `unquote` is that function.

For a proper file name all four name one file.  Whatever the texts are, the last two stay
under `data_dir`, component by component, and what they name has no `..` in it.
-/

import PoetryGenerator.Repository

namespace PoetryGenerator

/-! ### Resolved paths -/

/-- `Path(text).resolve()` of an absolute text, without symbolic links. -/
def Path.resolve (text : Str) : Path := Path.join [] text

/-- Every component is a proper file name. -/
def Path.Normal (p : Path) : Prop := ∀ c ∈ p, FileName c

variable {dir p : Path} {rel c : Str} {t : JobType}

theorem Path.Normal.push (hp : p.Normal) (hc : '/' ∉ c) : (p.push c).Normal := by
  rw [Path.push]
  split_ifs with hdot hdots
  · exact hp
  · exact fun d hd => hp d (List.dropLast_subset p hd)
  · rw [not_or] at hdot
    exact List.forall_mem_append.2
      ⟨hp, List.forall_mem_singleton.2 ⟨hc, hdot.1, hdot.2, hdots⟩⟩

theorem Path.Normal.foldl_push {cs : List Str} (hp : p.Normal) (hcs : ∀ c ∈ cs, '/' ∉ c) :
    (cs.foldl Path.push p).Normal := by
  induction cs generalizing p with
  | nil => exact hp
  | cons c cs ih =>
      exact ih (hp.push (hcs c (List.mem_cons_self ..))) fun d hd => hcs d (List.mem_cons_of_mem _ hd)

/-- **A resolved path** has proper file names only. -/
theorem Path.Normal.join (hp : dir.Normal) (rel : Str) : (dir.join rel).Normal := by
  have hnil : Path.Normal [] := fun _ h => absurd h List.not_mem_nil
  have hcs : ∀ c ∈ rel.splitOn '/', '/' ∉ c := fun c hc => Str.notMem_of_mem_splitOn hc
  rw [Path.join]
  split_ifs
  · exact hnil.foldl_push hcs
  · exact hp.foldl_push hcs

/-- **What `resolve_under` answers** has its base as a component-wise prefix. -/
theorem prefix_of_resolveUnder {target : Path} (h : resolveUnder dir rel = some target) :
    dir <+: target ∧ (dir.Normal → target.Normal) := by
  rw [resolveUnder] at h
  split_ifs at h with hnull hunder
  obtain rfl := Option.some.inj h
  exact ⟨hunder, fun hdir => hdir.join rel⟩

/-- The text of a path, after a component, is split into the components. -/
theorem splitOn_append_str (hc : '/' ∉ c) (hp : ∀ c ∈ p, '/' ∉ c) :
    (c ++ Path.str p).splitOn '/' = c :: p := by
  induction p generalizing c with
  | nil => exact (List.append_nil c).symm ▸ List.splitOn_eq_singleton hc
  | cons d p ih =>
      have hstr : Path.str (d :: p) = '/' :: (d ++ Path.str p) := by simp [Path.str]
      rw [hstr, List.splitOn_append_cons_self_of_not_mem hc,
        ih (hp d (List.mem_cons_self ..)) fun c hc => hp c (List.mem_cons_of_mem _ hc)]

/-! ### The data directory -/

/-- `DATA_DIR`: an absolute path. -/
structure DataDir where
  text : Str
  absolute : text.head? = some '/'

namespace DataDir

/-- `data_dir.resolve()`. -/
def base (d : DataDir) : Path := Path.resolve d.text

/-- The components that `Path` keeps. -/
def parts (d : DataDir) : List Str := (d.text.splitOn '/').filter fun c => c ≠ [] ∧ c ≠ ['.']

/-- `Path` keeps a second slash at the start when there are just two. -/
def slash (d : DataDir) : Str :=
  if "//".toList.isPrefixOf d.text && !"///".toList.isPrefixOf d.text then "/".toList else []

/-- `str(data_dir / kind / name)`: what a worker writes and stores. -/
def outPath (d : DataDir) (t : JobType) (name : Str) : Str :=
  d.slash ++ Path.str (d.parts ++ [t.kind, name])

variable (d : DataDir) {name : Str}

theorem normal_base : d.base.Normal := by
  have hnil : Path.Normal [] := fun _ h => absurd h List.not_mem_nil
  exact hnil.join _

/-- The components that `Path` drops do not move a path. -/
theorem foldl_push_filter (cs : List Str) (p : Path) :
    (cs.filter fun c => c ≠ [] ∧ c ≠ ['.']).foldl Path.push p = cs.foldl Path.push p := by
  induction cs generalizing p with
  | nil => rfl
  | cons c cs ih =>
      rw [List.filter_cons, List.foldl_cons]
      split_ifs with hc
      · rw [List.foldl_cons, ih]
      · have hdrop : c = [] ∨ c = ['.'] := by
          simpa [or_iff_not_imp_left] using hc
        rw [ih, Path.push, if_pos hdrop]

theorem foldl_push_parts : d.parts.foldl Path.push [] = d.base := by
  rw [parts, foldl_push_filter, base, Path.resolve, Path.join, ite_self]

theorem slash_eq : d.slash = [] ∨ d.slash = ['/'] := by
  unfold slash
  split_ifs
  · exact .inr rfl
  · exact .inl rfl

theorem outPath_ne_nil (t : JobType) (name : Str) : d.outPath t name ≠ [] := by
  rw [outPath]
  simp [Path.str]

/-- The stored text has the file's name as its base name. -/
theorem basename_outPath (t : JobType) (h : '/' ∉ name) : basename (d.outPath t name) = name := by
  have hsplit : d.parts ++ [t.kind, name] = (d.parts ++ [t.kind]) ++ [name] := by simp
  rw [outPath, hsplit, Path.str_concat, ← List.append_assoc, basename_append_cons _ h]

/-- **The worker writes** the file of that name below the kind's directory. -/
theorem resolve_outPath (t : JobType) (h : FileName name) :
    Path.resolve (d.outPath t name) = d.base ++ [t.kind, name] := by
  have hkind : ∀ p : Path, p.push t.kind = p ++ [t.kind] := fun p => by
    rw [Path.push, if_neg (by cases t <;> decide), if_neg (by cases t <;> decide)]
  have hnil : ∀ p : Path, p.push [] = p := fun p => by rw [Path.push, if_pos (.inl rfl)]
  have hcs : ∀ c ∈ d.parts ++ [t.kind, name], '/' ∉ c := by
    simp only [List.forall_mem_append, List.forall_mem_cons]
    exact ⟨fun c hc => Str.notMem_of_mem_splitOn (List.mem_filter.1 hc).1, slash_notMem_kind t, h.1,
      fun _ hc => absurd hc List.not_mem_nil⟩
  have hsplit : ((d.outPath t name).splitOn '/').foldl Path.push [] =
      (d.parts ++ [t.kind, name]).foldl Path.push [] := by
    have hstr := splitOn_append_str (c := []) List.not_mem_nil hcs
    rw [List.nil_append] at hstr
    rw [outPath]
    rcases d.slash_eq with hs | hs <;> rw [hs]
    · rw [List.nil_append, hstr, List.foldl_cons, hnil]
    · have hsep : ('/' :: Path.str (d.parts ++ [t.kind, name])).splitOn '/' =
          [] :: (Path.str (d.parts ++ [t.kind, name])).splitOn '/' :=
        List.splitOn_append_cons_self_of_not_mem List.not_mem_nil _
      rw [List.singleton_append, hsep, hstr, List.foldl_cons, List.foldl_cons, hnil, hnil]
  rw [Path.resolve, Path.join, ite_self, hsplit, List.foldl_append, foldl_push_parts,
    List.foldl_cons, List.foldl_cons, List.foldl_nil, hkind, push_fileName _ h, List.append_assoc]
  rfl

/-- Of a data directory that is written in its resolved form the stored text is that of the
file's path. -/
theorem outPath_of_normal (h : d.text = Path.str p) (hp : p.Normal) (t : JobType) (name : Str) :
    d.outPath t name = Path.str (p ++ [t.kind, name]) := by
  have hsplit : (Path.str p).splitOn '/' = [] :: p :=
    splitOn_append_str (c := []) List.not_mem_nil fun c hc => (hp c hc).1
  have hkeep : (([] : Str) :: p).filter (fun c => c ≠ [] ∧ c ≠ ['.']) = p := by
    rw [List.filter_cons_of_neg (by simp), List.filter_eq_self]
    exact fun c hc => decide_eq_true ⟨(hp c hc).2.1, (hp c hc).2.2.1⟩
  have hslash : "//".toList.isPrefixOf (Path.str p) = false := by
    rcases p with _ | ⟨_ | ⟨a, c⟩, p⟩
    · rfl
    · exact absurd rfl (hp [] (List.mem_cons_self ..)).2.1
    · have ha : '/' ≠ a := fun ha => (hp (a :: c) (List.mem_cons_self ..)).1 (ha ▸ List.mem_cons_self ..)
      have hstr : Path.str ((a :: c) :: p) = '/' :: a :: (c ++ Path.str p) := by simp [Path.str]
      have hchars : "//".toList = ['/', '/'] := rfl
      rw [hstr, hchars, List.isPrefixOf, List.isPrefixOf, beq_false_of_ne ha]
      rfl
  rw [outPath, slash, parts, h, hslash, hsplit, hkeep]
  rfl

end DataDir

/-! ### Links and requests -/

/-- `_asset_url`: nothing for a row without a path. -/
def assetUrl (t : JobType) : Option Str → Option Str
  | none => none
  | some path =>
    if path = [] then none else some ("/api/assets/".toList ++ t.kind ++ '/' :: basename path)

/-- The `path` that the route `/api/assets/{path:path}` is given for a request;
`unquote` decodes the request's path. -/
def assetPath (unquote : Str → Str) (url : Str) : Option Str :=
  if "/api/assets/".toList.isPrefixOf (unquote url) then
    some ((unquote url).drop "/api/assets/".toList.length)
  else none

/-- `get_asset`: the file that is served; nothing is the answer 404. -/
def getAsset (base : Path) (files : Finset Path) (path : Str) : Option Path :=
  (resolveUnder base path).filter (· ∈ files)

/-- A request for a link, from the link to the file. -/
def follow (unquote : Str → Str) (base : Path) (files : Finset Path) (url : Option Str) :
    Option Path :=
  (url.bind (assetPath unquote)).bind (getAsset base files)

/-- The characters that stand for themselves in a segment of a URL. -/
def urlSafe (c : Char) : Bool := c.isAlphanum || "-._~!$&'()*+,;=:@".toList.contains c

variable {base : Path} {name : Str} {files : Finset Path} {unquote : Str → Str}

/-- Of a kind and a proper file name `resolve_under` is that file. -/
theorem resolveUnder_kind (base : Path) (t : JobType) (h : FileName name)
    (hnull : Char.ofNat 0 ∉ name) :
    resolveUnder base (t.kind ++ '/' :: name) = some (base ++ [t.kind, name]) := by
  have hjoin : base.join (t.kind ++ '/' :: name) = base ++ [t.kind, name] := by
    rw [join_kind _ _ h.1, push_fileName _ h, List.append_assoc]
    rfl
  have hmem : Char.ofNat 0 ∉ t.kind ++ '/' :: name := by
    rw [List.mem_append, List.mem_cons, not_or, not_or]
    exact ⟨by cases t <;> decide, by decide, hnull⟩
  rw [resolveUnder, if_neg hmem, hjoin, if_pos (List.prefix_append ..)]

/-- **A link leads to the file it was made for.** -/
theorem follow_assetUrl (hunquote : ∀ s, '%' ∉ s → unquote s = s) (d : DataDir) (t : JobType)
    (h : FileName name) (hsafe : ∀ c ∈ name, urlSafe c = true) (files : Finset Path) :
    follow unquote d.base files (assetUrl t (some (d.outPath t name))) =
      if d.base ++ [t.kind, name] ∈ files then some (d.base ++ [t.kind, name]) else none := by
  have hnot : ∀ c, urlSafe c = false → c ∉ name := fun c hc hmem => by
    rw [hsafe c hmem] at hc
    cases hc
  have hurl : assetUrl t (some (d.outPath t name)) =
      some ("/api/assets/".toList ++ (t.kind ++ '/' :: name)) := by
    rw [assetUrl, if_neg (d.outPath_ne_nil t name), d.basename_outPath t h.1, List.append_assoc]
  have hpercent : '%' ∉ "/api/assets/".toList ++ (t.kind ++ '/' :: name) := by
    rw [List.mem_append, List.mem_append, List.mem_cons, not_or, not_or, not_or]
    exact ⟨by decide, by cases t <;> decide, by decide, hnot _ (by decide)⟩
  have hprefix : "/api/assets/".toList.isPrefixOf
      ("/api/assets/".toList ++ (t.kind ++ '/' :: name)) = true :=
    List.isPrefixOf_iff_prefix.2 (List.prefix_append ..)
  rw [hurl, follow, Option.bind_some, assetPath, hunquote _ hpercent, if_pos hprefix,
    List.drop_left, Option.bind_some, getAsset, resolveUnder_kind _ t h (hnot _ (by decide)),
    Option.filter_some]
  split_ifs <;> simp_all

/-- **The deletion unlinks the file** whose path is stored. -/
theorem removeAssetFile_outPath (d : DataDir) (t : JobType) (h : FileName name)
    (hsafe : ∀ c ∈ name, urlSafe c = true) (unlink : Path → Bool) (files : Finset Path) :
    removeAssetFile d.base unlink t (some (d.outPath t name)) files =
      if d.base ++ [t.kind, name] ∈ files ∧ unlink (d.base ++ [t.kind, name]) = true then
        files.erase (d.base ++ [t.kind, name])
      else files := by
  have hnull : Char.ofNat 0 ∉ name := fun hmem => absurd (hsafe _ hmem) (by decide)
  have htarget : assetTarget d.base t (some (d.outPath t name)) = some (d.base ++ [t.kind, name]) := by
    rw [assetTarget, if_neg (d.outPath_ne_nil t name), d.basename_outPath t h.1, resolveUnder_kind _ t h hnull]
  rw [removeAssetFile, htarget]

/-- **The deletion unlinks nothing outside the kind's directory**, whatever is stored. -/
theorem prefix_of_removed {unlink : Path → Bool} {path : Option Str} {f : Path}
    (hbase : base ∉ files) (hf : f ∈ files) (hgone : f ∉ removeAssetFile base unlink t path files) :
    base ++ [t.kind] <+: f := by
  rw [removeAssetFile] at hgone
  cases htarget : assetTarget base t path with
  | none =>
      rw [htarget] at hgone
      exact absurd hf hgone
  | some target =>
      rw [htarget] at hgone
      dsimp only at hgone
      split_ifs at hgone with hunlinked
      · obtain rfl : f = target := by
          by_contra hne
          exact hgone (Finset.mem_erase.2 ⟨hne, hf⟩)
        obtain ⟨p, -, rfl⟩ := assetTarget_eq_some htarget
        -- the stored text may name the directory itself or the one above it
        rw [Path.push] at hf ⊢
        split_ifs at hf ⊢ with hdot hdots
        · exact List.prefix_rfl
        · rw [List.dropLast_concat] at hf
          exact absurd hf hbase
        · exact List.prefix_append ..
      · exact absurd hf hgone

/-- **Writer, link, reader and deleter of an asset agree**, and none leaves the data directory. -/
theorem assets_agree (unquote : Str → Str) (hunquote : ∀ s, '%' ∉ s → unquote s = s)
    (d : DataDir) (t : JobType) (files : Finset Path) (unlink : Path → Bool) :
    (∀ name, FileName name → (∀ c ∈ name, urlSafe c = true) →
      Path.resolve (d.outPath t name) = d.base ++ [t.kind, name] ∧
      follow unquote d.base files (assetUrl t (some (d.outPath t name))) =
        (if d.base ++ [t.kind, name] ∈ files then some (d.base ++ [t.kind, name]) else none) ∧
      removeAssetFile d.base unlink t (some (d.outPath t name)) files =
        if d.base ++ [t.kind, name] ∈ files ∧ unlink (d.base ++ [t.kind, name]) = true then
          files.erase (d.base ++ [t.kind, name])
        else files) ∧
    (∀ rel target, resolveUnder d.base rel = some target → d.base <+: target ∧ target.Normal) ∧
    (∀ path f, getAsset d.base files path = some f → f ∈ files ∧ d.base <+: f ∧ f.Normal) ∧
    (d.base ∉ files → ∀ path, ∀ f ∈ files, f ∉ removeAssetFile d.base unlink t path files →
      d.base ++ [t.kind] <+: f) := by
  refine ⟨fun name h hsafe => ⟨d.resolve_outPath t h, follow_assetUrl hunquote d t h hsafe files,
    removeAssetFile_outPath d t h hsafe unlink files⟩, fun rel target h => ?_, fun path f h => ?_,
    fun hbase path f hf hgone => prefix_of_removed hbase hf hgone⟩
  · obtain ⟨hunder, hnormal⟩ := prefix_of_resolveUnder h
    exact ⟨hunder, hnormal d.normal_base⟩
  · obtain ⟨hresolve, hfile⟩ := Option.filter_eq_some_iff.1 h
    obtain ⟨hunder, hnormal⟩ := prefix_of_resolveUnder hresolve
    exact ⟨of_decide_eq_true hfile, hunder, hnormal d.normal_base⟩

theorem assets_agree_image :
    follow id ["srv".toList, "data".toList]
        {["srv".toList, "data".toList, "images".toList, "abc_x.png".toList]}
        (assetUrl .image (some "/srv/data/images/abc_x.png".toList)) =
      some ["srv".toList, "data".toList, "images".toList, "abc_x.png".toList] ∧
    ["srv".toList, "data".toList, "images".toList] <+:
      ["srv".toList, "data".toList, "images".toList, "abc_x.png".toList] := by
  have h := assets_agree id (fun _ _ => rfl) ⟨"/srv//data/.".toList, rfl⟩ .image
    {["srv".toList, "data".toList, "images".toList, "abc_x.png".toList]} fun _ => true
  refine ⟨(h.1 "abc_x.png".toList ⟨by decide, by decide, by decide, by decide⟩
    (List.all_eq_true.1 (by decide))).2.1.trans (if_pos ?_),
    h.2.2.2 ?_ (some "/elsewhere/abc_x.png".toList) _ (Finset.mem_singleton_self _) ?_⟩
  · exact Finset.mem_singleton_self _
  · decide +kernel
  · decide +kernel

end PoetryGenerator
