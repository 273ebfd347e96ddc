import OsmPolygonWikidata.Integrity.RejectionLedger

/-! # The integrity pass over the links

`augmentation/polygon_articles_integrity.py`, with `read_polygon_wikidata_map` of
`augmentation/integrity_io.py`. A link stays when its item is the tag of its polygon. The builder of
the links, the merge of the recovery and its validator take the items that the tag lists instead,
and a tag may list several. `keepsListed_iff` says for which regions this is the same.
-/

namespace OsmPolygonWikidata.Integrity

open Python

/-! ## The model -/

/-- A row of the polygons table, as far as it is read. -/
structure PolygonRow where
  polygonId : Option String
  wikidata : Option String

/-- A row of the links table. `data` is the other columns. -/
structure LinkRow (L : Type) where
  polygonId : Option String
  wikidata : Option String
  data : L
  deriving DecidableEq

inductive LinkIntegrityError where
  | polygonsMissing
  | conflictingWikidata (sample : List String)
  | linksMissing
  | absentPolygons (stem : String) (sample : List String)

/-- The tables of a region. A table that is not there is `none`. -/
structure LinkRegion (L : Type) where
  polygons : Option (List PolygonRow)
  links : Option (List (LinkRow L))

structure PolygonArticlesIntegrityResult where
  shard : String
  originalRowCount : Nat
  retainedRowCount : Nat
  rejectedRowCount : Nat
  rewritten : Bool
  rejections : List RejectionRecord

/-- `str(polygon_id)`. -/
def PolygonRow.key (row : PolygonRow) : String := pyStr row.polygonId

/-- The tag of a polygon that has none is empty. -/
def PolygonRow.tag (row : PolygonRow) : String := row.wikidata.getD ""

/-- `mapping.get(polygon_id)`. -/
def tagIn (mapping : List (String × String)) (polygonId : String) : Option String :=
  (mapping.find? (fun entry => entry.1 = polygonId)).map Prod.snd

/-- `_record_polygon_wikidata`, of a mapping and the identifiers with several values. A value that
is there already leaves the mapping as it is. -/
def recordPolygonWikidata (state : List (String × String) × List String) (row : PolygonRow) :
    List (String × String) × List String :=
  match tagIn state.1 row.key with
  | none => (state.1 ++ [(row.key, row.tag)], state.2)
  | some tag => if tag ≠ row.tag then (state.1, state.2.insert row.key) else state

def sortedStrings (values : List String) : List String :=
  values.insertionSort (fun a b => a ≤ b)

def readPolygonWikidataMap (rows : List PolygonRow) :
    Except LinkIntegrityError (List (String × String)) :=
  let (mapping, duplicates) := rows.foldl recordPolygonWikidata ([], [])
  if duplicates ≠ [] then .error (.conflictingWikidata ((sortedStrings duplicates).take 5))
  else .ok mapping

section

variable {L : Type} (stem : String)

/-- The record of a link whose item is not the expected one. -/
def linkRejection (expected : Option String) (row : LinkRow L) : RejectionRecord :=
  ⟨stem, "polygon_articles", pyStr row.polygonId, pyStr row.wikidata, expected,
    "wikidata_mismatch_with_polygon_master", 0⟩

/-- `_partition_polygon_article_rows`: the retained rows, the rejections and the polygons that are
named. -/
def partitionPolygonArticleRows (polygonWikidata : List (String × String)) :
    List (LinkRow L) → List (LinkRow L) × List RejectionRecord × List String
  | [] => ([], [], [])
  | row :: rows =>
    let (retained, rejections, seen) := partitionPolygonArticleRows polygonWikidata rows
    let expected := tagIn polygonWikidata (pyStr row.polygonId)
    if expected ≠ some (pyStr row.wikidata) then
      (retained, linkRejection stem expected row :: rejections, seen.insert (pyStr row.polygonId))
    else (row :: retained, rejections, seen.insert (pyStr row.polygonId))

def missingPolygonIds (seen : List String) (polygonWikidata : List (String × String)) :
    List String :=
  sortedStrings (seen.filter (fun id => id ∉ polygonWikidata.map Prod.fst))

def ensurePolygonIdsExist (missing : List String) (rows : List (LinkRow L)) :
    Except LinkIntegrityError Unit :=
  let missingWithLinks := sortedStrings
    (missing.filter (fun id => rows.any (fun row => pyStr row.polygonId = id)))
  if missingWithLinks = [] then .ok ()
  else .error (.absentPolygons stem (missingWithLinks.take 5))

/-- `enforce_polygon_articles_integrity`, with the region that it leaves. -/
def enforcePolygonArticlesIntegrity (dryRun : Bool) (region : LinkRegion L) :
    Except LinkIntegrityError (PolygonArticlesIntegrityResult × LinkRegion L) := do
  match region.polygons with
  | none => .error .polygonsMissing
  | some polygons => do
    let polygonWikidata ← readPolygonWikidataMap polygons
    match region.links with
    | none => .error .linksMissing
    | some rows => do
      let (retained, rejections, seen) := partitionPolygonArticleRows stem polygonWikidata rows
      ensurePolygonIdsExist stem (missingPolygonIds seen polygonWikidata) rows
      let rewritten := decide (0 < rejections.length)
      return ({
        shard := stem
        originalRowCount := rows.length
        retainedRowCount := retained.length
        rejectedRowCount := rejections.length
        rewritten := rewritten
        rejections := rejections.insertionSort
          (fun a b => [a.identifier, a.wikidata] ≤ [b.identifier, b.wikidata]) },
      { region with
        links := if rewritten ∧ ¬ dryRun then some retained else region.links })

/-- The item of the link is one that the tag of its polygon lists. -/
def Listed (decimal : Char → Bool) (polygons : List PolygonRow) (link : LinkRow L) : Prop :=
  ∃ polygon ∈ polygons, polygon.key = pyStr link.polygonId
    ∧ pyStr link.wikidata ∈ qidsFromOsmTag decimal polygon.tag

/-- The pass returns, and leaves the links whose items are listed. -/
def KeepsListed (decimal : Char → Bool) (polygons : List PolygonRow) (links : List (LinkRow L)) :
    Prop :=
  ∃ result region', enforcePolygonArticlesIntegrity stem false ⟨some polygons, some links⟩
      = .ok (result, region')
    ∧ ∀ link ∈ links, link ∈ region'.links.getD [] ↔ Listed decimal polygons link

end

/-! ## The tags of the polygons -/

/-- No polygon is there with two tags. -/
def OneTag (polygons : List PolygonRow) : Prop :=
  ∀ p ∈ polygons, ∀ q ∈ polygons, p.key = q.key → p.tag = q.tag

section

theorem tagIn_concat (mapping : List (String × String)) (entry : String × String) (id : String) :
    tagIn (mapping ++ [entry]) id
      = (tagIn mapping id).or (if entry.1 = id then some entry.2 else none) := by
  unfold tagIn
  rw [List.find?_append]
  cases mapping.find? (fun entry => entry.1 = id) with
  | some first => rfl
  | none => by_cases h : entry.1 = id <;> simp [h]

variable {id : String} {rows : List PolygonRow}

theorem mem_keys_of_tagIn {mapping : List (String × String)} {tag : String}
    (h : tagIn mapping id = some tag) : id ∈ mapping.map Prod.fst := by
  obtain ⟨entry, hfind, -⟩ := Option.map_eq_some_iff.mp h
  have hid : entry.1 = id := by simpa using List.find?_some hfind
  exact hid ▸ List.mem_map_of_mem (List.mem_of_find?_eq_some hfind)

theorem find_key {first : PolygonRow} (h : rows.find? (fun row => row.key = id) = some first) :
    first ∈ rows ∧ first.key = id := by
  refine ⟨List.mem_of_find?_eq_some h, ?_⟩
  simpa using List.find?_some h

theorem exists_find_key {row : PolygonRow} (h : row ∈ rows) :
    ∃ first, rows.find? (fun other => other.key = row.key) = some first :=
  Option.isSome_iff_exists.mp (List.find?_isSome.mpr ⟨row, h, by simp⟩)

theorem tagIn_foldl (rows : List PolygonRow) (id : String) :
    tagIn (rows.foldl recordPolygonWikidata ([], [])).1 id
      = (rows.find? (fun row => row.key = id)).map PolygonRow.tag := by
  induction rows using List.reverseRecOn with
  | nil => rfl
  | append_singleton rows row ih =>
    rw [List.foldl_append, List.foldl_cons, List.foldl_nil, List.find?_append, Option.map_or, ← ih,
      recordPolygonWikidata]
    by_cases hid : row.key = id
    · subst hid
      cases htag : tagIn (rows.foldl recordPolygonWikidata ([], [])).1 row.key with
      | none => simp [tagIn_concat, htag]
      | some tag =>
        dsimp only
        split <;> simp [htag]
    · have hnone : [row].find? (fun row => row.key = id) = none := by simp [hid]
      rw [hnone]
      split
      · rw [tagIn_concat, if_neg hid]
        rfl
      · split <;> simp

theorem duplicates_recordPolygonWikidata_iff (state : List (String × String) × List String)
    (row : PolygonRow) :
    (recordPolygonWikidata state row).2 = []
      ↔ state.2 = [] ∧ ∀ tag, tagIn state.1 row.key = some tag → tag = row.tag := by
  rw [recordPolygonWikidata]
  cases tagIn state.1 row.key with
  | none => simp
  | some tag =>
    by_cases htag : tag = row.tag
    · simp [htag]
    · have hinsert : state.2.insert row.key ≠ [] :=
        List.ne_nil_of_mem List.mem_insert_self
      simp [htag, hinsert]

theorem duplicates_eq_nil_iff (rows : List PolygonRow) :
    (rows.foldl recordPolygonWikidata ([], [])).2 = [] ↔ OneTag rows := by
  induction rows using List.reverseRecOn with
  | nil => simp [OneTag]
  | append_singleton rows row ih =>
    rw [List.foldl_append, List.foldl_cons, List.foldl_nil,
      duplicates_recordPolygonWikidata_iff, ih, tagIn_foldl]
    constructor
    · rintro ⟨hrows, hfirst⟩
      -- the earlier rows of the polygon have the tag of the first one
      have hrow : ∀ p ∈ rows, p.key = row.key → p.tag = row.tag := by
        intro p hp hkey
        obtain ⟨first, hfind⟩ := exists_find_key hp
        obtain ⟨hmem, hfound⟩ := find_key hfind
        rw [hkey] at hfind
        calc p.tag = first.tag := hrows p hp first hmem hfound.symm
          _ = row.tag := hfirst first.tag (by rw [hfind]; rfl)
      intro p hp q hq hkey
      rcases List.mem_append.mp hp with hp | hp
      · rcases List.mem_append.mp hq with hq | hq
        · exact hrows p hp q hq hkey
        · rw [List.mem_singleton.mp hq] at hkey ⊢
          exact hrow p hp hkey
      · rw [List.mem_singleton.mp hp] at hkey ⊢
        rcases List.mem_append.mp hq with hq | hq
        · exact (hrow q hq hkey.symm).symm
        · rw [List.mem_singleton.mp hq]
    · intro h
      refine ⟨fun p hp q hq => h p (by simp [hp]) q (by simp [hq]), ?_⟩
      intro tag htag
      obtain ⟨first, hfind, rfl⟩ := Option.map_eq_some_iff.mp htag
      obtain ⟨hmem, hkey⟩ := find_key hfind
      exact h first (by simp [hmem]) row (by simp) hkey

theorem readPolygonWikidataMap_eq_ok_iff {mapping : List (String × String)} :
    readPolygonWikidataMap rows = .ok mapping
      ↔ OneTag rows ∧ mapping = (rows.foldl recordPolygonWikidata ([], [])).1 := by
  rw [← duplicates_eq_nil_iff, readPolygonWikidataMap]
  dsimp only
  split
  · rename_i h
    simp [h]
  · rename_i h
    rw [not_not] at h
    simp [h, eq_comm]

theorem tagIn_eq_some_iff (h : OneTag rows) {tag : String} :
    tagIn (rows.foldl recordPolygonWikidata ([], [])).1 id = some tag
      ↔ ∃ row ∈ rows, row.key = id ∧ row.tag = tag := by
  rw [tagIn_foldl, Option.map_eq_some_iff]
  constructor
  · rintro ⟨row, hfind, htag⟩
    obtain ⟨hmem, hkey⟩ := find_key hfind
    exact ⟨row, hmem, hkey, htag⟩
  · rintro ⟨row, hrow, rfl, rfl⟩
    obtain ⟨first, hfind⟩ := exists_find_key hrow
    obtain ⟨hmem, hkey⟩ := find_key hfind
    exact ⟨first, hfind, h first hmem row hrow hkey⟩

end

/-! ## The links that stay -/

section

variable {L : Type} {stem : String} {polygonWikidata : List (String × String)}

variable (stem) in
theorem partitionPolygonArticleRows_fst (rows : List (LinkRow L)) :
    (partitionPolygonArticleRows stem polygonWikidata rows).1
      = rows.filter (fun row =>
        tagIn polygonWikidata (pyStr row.polygonId) = some (pyStr row.wikidata)) := by
  induction rows with
  | nil => rfl
  | cons row rows ih =>
    rw [partitionPolygonArticleRows]
    by_cases h : tagIn polygonWikidata (pyStr row.polygonId) = some (pyStr row.wikidata)
    · simp [h, ih]
    · simp [h, ih]

theorem rejections_eq_nil_iff (rows : List (LinkRow L)) :
    (partitionPolygonArticleRows stem polygonWikidata rows).2.1 = []
      ↔ ∀ row ∈ rows, tagIn polygonWikidata (pyStr row.polygonId) = some (pyStr row.wikidata) := by
  induction rows with
  | nil => simp [partitionPolygonArticleRows]
  | cons row rows ih =>
    rw [partitionPolygonArticleRows, List.forall_mem_cons, ← ih]
    by_cases h : tagIn polygonWikidata (pyStr row.polygonId) = some (pyStr row.wikidata)
    · simp [h]
    · simp [h]

theorem mem_seen_iff (rows : List (LinkRow L)) (id : String) :
    id ∈ (partitionPolygonArticleRows stem polygonWikidata rows).2.2
      ↔ ∃ row ∈ rows, pyStr row.polygonId = id := by
  induction rows with
  | nil => simp [partitionPolygonArticleRows]
  | cons row rows ih =>
    have hseen : (partitionPolygonArticleRows stem polygonWikidata (row :: rows)).2.2
        = ((partitionPolygonArticleRows stem polygonWikidata rows).2.2).insert
          (pyStr row.polygonId) := by
      rw [partitionPolygonArticleRows]
      dsimp only
      split <;> rfl
    rw [hseen, List.mem_insert_iff, ih]
    simp [eq_comm]

theorem enforcePolygonArticlesIntegrity_links {polygons : List PolygonRow}
    {links : List (LinkRow L)} {result : PolygonArticlesIntegrityResult} {region' : LinkRegion L}
    (h : enforcePolygonArticlesIntegrity stem false ⟨some polygons, some links⟩
      = .ok (result, region')) :
    OneTag polygons ∧ region'.links = some (links.filter (fun link =>
      tagIn (polygons.foldl recordPolygonWikidata ([], [])).1 (pyStr link.polygonId)
        = some (pyStr link.wikidata))) := by
  unfold enforcePolygonArticlesIntegrity at h
  obtain ⟨mapping, hread, h⟩ := bind_eq_ok.mp h
  obtain ⟨honce, rfl⟩ := readPolygonWikidataMap_eq_ok_iff.mp hread
  obtain ⟨-, -, h⟩ := bind_eq_ok.mp h
  cases h
  refine ⟨honce, ?_⟩
  dsimp only
  rw [← partitionPolygonArticleRows_fst stem]
  split
  · rfl
  · rename_i hnone
    have hempty : (partitionPolygonArticleRows stem
        (polygons.foldl recordPolygonWikidata ([], [])).1 links).2.1 = [] := by
      simpa using hnone
    rw [partitionPolygonArticleRows_fst stem,
      List.filter_eq_self.mpr (by simpa using (rejections_eq_nil_iff links).mp hempty)]

variable (stem) in
theorem enforcePolygonArticlesIntegrity_returns {polygons : List PolygonRow}
    {links : List (LinkRow L)} (honce : OneTag polygons)
    (hexists : ∀ link ∈ links, ∃ polygon ∈ polygons, polygon.key = pyStr link.polygonId) :
    ∃ result region', enforcePolygonArticlesIntegrity stem false ⟨some polygons, some links⟩
      = .ok (result, region') := by
  have hread : readPolygonWikidataMap polygons
      = .ok (polygons.foldl recordPolygonWikidata ([], [])).1 :=
    readPolygonWikidataMap_eq_ok_iff.mpr ⟨honce, rfl⟩
  have hmissing : missingPolygonIds (partitionPolygonArticleRows stem
        (polygons.foldl recordPolygonWikidata ([], [])).1 links).2.2
      (polygons.foldl recordPolygonWikidata ([], [])).1 = [] := by
    rw [missingPolygonIds, List.filter_eq_nil_iff.mpr]
    · rfl
    · intro id hid
      obtain ⟨link, hlink, rfl⟩ := (mem_seen_iff links id).mp hid
      obtain ⟨polygon, hpolygon, hkey⟩ := hexists link hlink
      have htag := (tagIn_eq_some_iff honce).mpr ⟨polygon, hpolygon, hkey, rfl⟩
      simpa using mem_keys_of_tagIn htag
  unfold enforcePolygonArticlesIntegrity
  simp only [hread, hmissing, bind, Except.bind]
  exact ⟨_, _, rfl⟩

/-- **Which regions the pass treats by the listed items.** -/
theorem keepsListed_iff (decimal : Char → Bool) (polygons : List PolygonRow)
    (links : List (LinkRow L))
    (hexists : ∀ link ∈ links, ∃ polygon ∈ polygons, polygon.key = pyStr link.polygonId) :
    KeepsListed stem decimal polygons links
      ↔ OneTag polygons ∧ ∀ link ∈ links, ∀ polygon ∈ polygons, polygon.key = pyStr link.polygonId →
            qidsFromOsmTag decimal polygon.tag = [polygon.tag]
              ∨ (pyStr link.wikidata ≠ polygon.tag
                ∧ pyStr link.wikidata ∉ qidsFromOsmTag decimal polygon.tag) := by
  -- with one tag for each polygon, a link stays when its item is the tag of its polygon
  have hstays : OneTag polygons → ∀ link : LinkRow L,
      tagIn (polygons.foldl recordPolygonWikidata ([], [])).1 (pyStr link.polygonId)
          = some (pyStr link.wikidata)
        ↔ ∃ polygon ∈ polygons, polygon.key = pyStr link.polygonId
          ∧ polygon.tag = pyStr link.wikidata :=
    fun honce _ => tagIn_eq_some_iff honce
  constructor
  · rintro ⟨result, region', hok, hkept⟩
    obtain ⟨honce, hlinks⟩ := enforcePolygonArticlesIntegrity_links hok
    refine ⟨honce, fun link hlink polygon hpolygon hkey => ?_⟩
    have hiff := hkept link hlink
    rw [hlinks, Option.getD_some, List.mem_filter, decide_eq_true_iff, hstays honce] at hiff
    by_cases hlisted : pyStr link.wikidata ∈ qidsFromOsmTag decimal polygon.tag
    · left
      obtain ⟨other, hother, hkey', htag⟩ := (hiff.mpr ⟨polygon, hpolygon, hkey, hlisted⟩).2
      have htag' : polygon.tag = pyStr link.wikidata :=
        (honce polygon hpolygon other hother (hkey.trans hkey'.symm)).trans htag
      rw [← htag'] at hlisted
      exact mem_qidsFromOsmTag_self_iff.mp hlisted
    · right
      refine ⟨fun htag => hlisted ?_, hlisted⟩
      obtain ⟨other, hother, hkey', hother_listed⟩ :=
        hiff.mp ⟨hlink, polygon, hpolygon, hkey, htag.symm⟩
      rwa [honce polygon hpolygon other hother (hkey.trans hkey'.symm)]
  · rintro ⟨honce, hbare⟩
    obtain ⟨result, region', hok⟩ := enforcePolygonArticlesIntegrity_returns stem honce hexists
    refine ⟨result, region', hok, fun link hlink => ?_⟩
    rw [(enforcePolygonArticlesIntegrity_links hok).2, Option.getD_some, List.mem_filter,
      decide_eq_true_iff, hstays honce]
    constructor
    · rintro ⟨-, polygon, hpolygon, hkey, htag⟩
      refine ⟨polygon, hpolygon, hkey, ?_⟩
      rcases hbare link hlink polygon hpolygon hkey with hbare | ⟨hne, -⟩
      · rw [hbare, htag]
        exact List.mem_singleton_self _
      · exact absurd htag.symm hne
    · rintro ⟨polygon, hpolygon, hkey, hlisted⟩
      refine ⟨hlink, polygon, hpolygon, hkey, ?_⟩
      rcases hbare link hlink polygon hpolygon hkey with hbare | ⟨-, hnot⟩
      · rw [hbare] at hlisted
        exact (List.mem_singleton.mp hlisted).symm
      · exact absurd hlisted hnot

end

/-! ## A polygon of two items -/

namespace TwoItemLink

/-- A link of one item to a polygon of two. -/
def link : LinkRow Unit := ⟨some "way:1", some "Q1", ()⟩

def polygon : PolygonRow := ⟨some "way:1", some "Q1;Q2"⟩

/-- A polygon of one item, and one of two others. -/
def polygons : List PolygonRow :=
  [⟨some "way:1", some "Q1"⟩, ⟨some "way:2", some "Q2;Q3"⟩]

/-- A link to each polygon whose item it does not list. -/
def stale : List (LinkRow Unit) :=
  [⟨some "way:1", some "Q9", ()⟩, ⟨some "way:2", some "Q1", ()⟩]

theorem stale_dropped : (∀ l ∈ stale, ¬ Listed Char.isDigit polygons l)
      ∧ KeepsListed "alpha-latest" Char.isDigit polygons (link :: stale) := by
  have hfirst : qidsFromOsmTag Char.isDigit "Q1" = ["Q1"] := by decide +kernel
  have hsecond : qidsFromOsmTag Char.isDigit "Q2;Q3" = ["Q2", "Q3"] := by decide +kernel
  have hexists : ∀ l ∈ link :: stale, ∃ p ∈ polygons, p.key = pyStr l.polygonId := by
    decide +kernel
  refine ⟨?_, (keepsListed_iff Char.isDigit polygons (link :: stale) hexists).mpr ⟨?_, ?_⟩⟩
  · simp [stale, polygons, Listed, PolygonRow.key, PolygonRow.tag, pyStr, hfirst, hsecond]
  · simp [OneTag, polygons, PolygonRow.key, PolygonRow.tag, pyStr]
  · simp [link, stale, polygons, PolygonRow.key, PolygonRow.tag, pyStr, hfirst, hsecond]

/-- A link of a listed item is dropped. -/
theorem listed_dropped :
    ¬ ((∀ l ∈ [link], ∃ p ∈ [polygon], p.key = pyStr l.polygonId)
      → KeepsListed "alpha-latest" Char.isDigit [polygon] [link]) := by
  intro h
  obtain ⟨result, region', hok, hkept⟩ := h (by simp [polygon, link, PolygonRow.key])
  have hlisted : Listed Char.isDigit [polygon] link :=
    ⟨polygon, List.mem_singleton_self _, rfl, by decide +kernel⟩
  have hmem := (hkept link (List.mem_singleton_self _)).mpr hlisted
  rw [(enforcePolygonArticlesIntegrity_links hok).2] at hmem
  revert hmem
  decide +kernel

end TwoItemLink

end OsmPolygonWikidata.Integrity
