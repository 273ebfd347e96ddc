import OsmPolygonWikidata.Basic.Dict
import OsmPolygonWikidata.V1Index.Finality
import OsmPolygonWikidata.V1Index.InMemory
import OsmPolygonWikidata.V1Index.Resume

/-! # What the two indexes hold

Both indexes are built from the same index rows: those of the shards, in the order of their names.
The table of the SQLite index has the first row of each document in each shard
(`mem_documents_iff`), and the in-memory index the first row of each document
(`holds_buildInMemoryIndex`). When the in-memory index can be built, every row of the table can be
loaded.
-/

namespace OsmPolygonWikidata.V1Index

open Durable Python

/-! ## The table of a completed index -/

section

variable {P : Type} (casefold : String → String) (contents : String → Fingerprint → Contents P)

/-- The index rows of a shard, in order. -/
def shardDocuments (shard : Shard) : List Document :=
  (List.range (totalRowGroups contents shard)).flatMap (groupDocuments casefold contents shard)

variable {casefold contents}

theorem shardDocuments_path {shard : Shard} {d : Document}
    (hd : d ∈ shardDocuments casefold contents shard) : d.sourcePath = shard.path := by
  obtain ⟨group, -, hd⟩ := List.mem_flatMap.mp hd
  exact groupDocuments_path casefold contents shard group d hd

theorem scanned_eq (shard : Shard) (n : Nat) : scanned casefold contents shard n
      = ((List.range n).flatMap (groupDocuments casefold contents shard)).foldl insertOrIgnore [] := by
  induction n with
  | zero => rfl
  | succ n ih =>
    rw [scanned, ih, List.range_succ, List.flatMap_append, List.foldl_append]
    simp

theorem mem_foldl_insertOrIgnore {path : String} {rows : List Document}
    (hpath : ∀ d ∈ rows, d.sourcePath = path) {d : Document} :
    d ∈ rows.foldl insertOrIgnore [] ↔ Dict.First Document.documentId rows d := by
  induction rows using List.reverseRecOn generalizing d with
  | nil =>
    constructor
    · intro h
      cases h
    · rintro ⟨before, after, h, -⟩
      simp at h
  | append_singleton rows e ih =>
    have ih' := fun d => ih (fun d hd => hpath d (List.mem_append_left _ hd)) (d := d)
    have hany : (rows.foldl insertOrIgnore []).any
        (fun f => f.documentId = e.documentId && f.sourcePath = e.sourcePath) = true
        ↔ e.documentId ∈ rows.map Document.documentId := by
      rw [List.any_eq_true]
      constructor
      · rintro ⟨f, hf, hfe⟩
        have hid : f.documentId = e.documentId := by
          simp only [Bool.and_eq_true, decide_eq_true_eq] at hfe
          exact hfe.1
        rw [← hid]
        exact List.mem_map_of_mem ((ih' f).mp hf).mem
      · intro hmem
        obtain ⟨f, hf, hfe⟩ := List.mem_map.mp hmem
        obtain ⟨g, hg, hgf⟩ : ∃ g, Dict.First Document.documentId rows g
            ∧ g.documentId = f.documentId := Dict.exists_first hf
        refine ⟨g, (ih' g).mpr hg, ?_⟩
        have hgpath : g.sourcePath = e.sourcePath := by
          rw [hpath g (List.mem_append_left _ hg.mem), hpath e (by simp)]
        simp [hgf, hfe, hgpath]
    rw [List.foldl_append, List.foldl_cons, List.foldl_nil, Dict.first_concat, ← ih',
      insertOrIgnore]
    by_cases hold : e.documentId ∈ rows.map Document.documentId
    · rw [if_pos (hany.mpr hold)]
      simp [hold]
    · rw [if_neg (fun h => hold (hany.mp h)), List.mem_append, List.mem_singleton]
      simp [hold]

theorem mem_allRows {shard : Shard} {d : Document} : d ∈ allRows casefold contents shard
      ↔ Dict.First Document.documentId (shardDocuments casefold contents shard) d := by
  rw [allRows, scanned_eq]
  exact mem_foldl_insertOrIgnore (fun d hd => shardDocuments_path hd)

/-- **The table of a completed index** has the first row of each document in each shard. -/
theorem mem_documents_iff {db₀ db : Database} (h : Reachable casefold contents db₀)
    {shards : ShardSet} (hsame : ∀ d ∈ db₀.documents, d.sourcePath ∈ shards.files.map Shard.path)
    {stop : StopPoint → Bool}
    (hrun : Prog.run (sync casefold contents stop shards.files) db₀ = (.ok true, db))
    {d : Document} :
    d ∈ db.documents ↔ ∃ s ∈ shards.files,
      Dict.First Document.documentId (shardDocuments casefold contents s) d := by
  have hfinal := Prog.wp_run (sync_wp stop h.consistent shards.nodup)
  rw [hrun] at hfinal
  obtain ⟨-, hindexed, hclear, -⟩ := hfinal
  constructor
  · intro hd
    have hrow : d ∈ rowsOf db.documents d.sourcePath := mem_rowsOf.mpr ⟨hd, rfl⟩
    by_cases hpath : d.sourcePath ∈ shards.files.map Shard.path
    · obtain ⟨s, hs, hsd⟩ := List.mem_map.mp hpath
      rw [← hsd, (hindexed s hs).rows] at hrow
      exact ⟨s, hs, mem_allRows.mp hrow⟩
    · rw [rowsOf_cleared hclear (fun e he => Or.inl (hsame e he)) hpath] at hrow
      cases hrow
  · rintro ⟨s, hs, hfirst⟩
    have hrow := mem_allRows.mpr hfirst
    rw [← (hindexed s hs).rows] at hrow
    exact (mem_rowsOf.mp hrow).1

end

/-! ## The rows of the shards -/

variable (casefold : String → String) (isDecimal : Char → Bool)
variable (contents : String → Fingerprint → Contents Columns) (files : List Shard)

/-- `row` is the document row of an index row. -/
structure RowOf (d : Document) (row : DocumentRow) : Prop where
  load : loadRow isDecimal contents files d = .ok row
  documentId : pyStr row.documentId = d.documentId
  pageId : row.pageId = some d.pageId
  revisionId : row.revisionId = some d.revisionId
  language : casefold (pyStr row.language) = d.language
  titleKey : (titleKey casefold (pyStr row.language) (pyStr row.title)).2 = d.titleKey
  qid : row.wikidata.getD "" = d.qid

variable {casefold isDecimal contents files}

variable {field : String} {converted : List DocumentRow} {indexed : IndexRow}
  {rows : List DocumentRow} {d : Document}

theorem validateQid_ok {value : Option String} {qid : String}
    (h : validateQid isDecimal value field = .ok qid) : value = some qid := by
  obtain ⟨text, htext, h⟩ := bind_eq_ok.mp h
  split at h
  · cases h
    cases value with
    | none => cases htext
    | some text' =>
      cases htext
      rfl
  · cases h

theorem validateLanguage_ok {value : Option String} {language : String}
    (h : validateLanguage value field = .ok language) : value = some language := by
  obtain ⟨text, htext, h⟩ := bind_eq_ok.mp h
  split at h
  · cases h
  · split at h
    · cases h
    · cases h
      cases value with
      | none => cases htext
      | some text' =>
        cases htext
        rfl

theorem validatePositiveInt_ok {value : Option Int} {n : Int}
    (h : validatePositiveInt value field = .ok n) : value = some n := by
  obtain ⟨m, hm, h⟩ := bind_eq_ok.mp h
  split at h
  · cases h
  · cases h
    cases value with
    | none => cases hm
    | some m' =>
      cases hm
      rfl

theorem wikipediaDocumentFromArticleRow_ok {row converted : DocumentRow}
    (h : wikipediaDocumentFromArticleRow isDecimal row = .ok converted) :
    converted.language = row.language ∧ converted.title = row.title
      ∧ converted.pageId = row.pageId ∧ converted.revisionId = row.revisionId
      ∧ converted.wikidata = row.wikidata
      ∧ ∀ pageId revisionId, row.pageId = some pageId → row.revisionId = some revisionId →
        pyStr converted.documentId = documentIdOf true row pageId revisionId := by
  unfold wikipediaDocumentFromArticleRow at h
  obtain ⟨wikidata, hwikidata, h⟩ := bind_eq_ok.mp h
  obtain ⟨language, hlanguage, h⟩ := bind_eq_ok.mp h
  obtain ⟨pageId, hpage, h⟩ := bind_eq_ok.mp h
  obtain ⟨revisionId, hrevision, h⟩ := bind_eq_ok.mp h
  obtain ⟨articleId, -, h⟩ := bind_eq_ok.mp h
  dsimp only at h
  split at h
  · obtain ⟨_, hthrow, -⟩ := bind_eq_ok.mp h
    cases hthrow
  obtain ⟨_, -, h⟩ := bind_eq_ok.mp h
  obtain ⟨_, -, h⟩ := bind_eq_ok.mp h
  obtain ⟨_, -, h⟩ := bind_eq_ok.mp h
  cases h
  refine ⟨rfl, rfl, rfl, rfl, rfl, ?_⟩
  intro pageId' revisionId' hpage' hrevision'
  rw [validatePositiveInt_ok hpage] at hpage'
  rw [validatePositiveInt_ok hrevision] at hrevision'
  cases hpage'
  cases hrevision'
  rw [documentIdOf, if_pos rfl, validateQid_ok hwikidata, validateLanguage_ok hlanguage]
  rfl

theorem requiredInt_ok {value : Option Int} {n : Int} (h : requiredInt value field = .ok n) :
    value = some n := by
  cases value with
  | none => cases h
  | some m =>
    cases h
    rfl

variable {shard : Shard} {rowGroup rowIndex : Nat}

theorem rowOf_indexRow {row converted : DocumentRow}
    (hindex : indexRow shard.fingerprint.legacy rowGroup rowIndex row = .ok indexed)
    (hconvert : documentRow isDecimal shard.fingerprint.legacy row = .ok converted)
    (hload : loadRow isDecimal contents files (document casefold shard indexed) = .ok converted) :
    RowOf casefold isDecimal contents files (document casefold shard indexed) converted := by
  obtain ⟨pageId, hpage, h⟩ := bind_eq_ok.mp hindex
  obtain ⟨revisionId, hrevision, h⟩ := bind_eq_ok.mp h
  cases h
  have hpage' := requiredInt_ok hpage
  have hrevision' := requiredInt_ok hrevision
  unfold documentRow at hconvert
  cases hlegacy : shard.fingerprint.legacy with
  | false =>
    rw [hlegacy, if_neg (by simp)] at hconvert
    cases hconvert
    exact ⟨by rw [hlegacy] at hload; exact hload, rfl, hpage', hrevision', rfl, rfl, rfl⟩
  | true =>
    rw [hlegacy, if_pos rfl] at hconvert
    obtain ⟨hlanguage, htitle, hp, hr, hwikidata, hid⟩ :=
      wikipediaDocumentFromArticleRow_ok hconvert
    refine ⟨by rw [hlegacy] at hload; exact hload, hid pageId revisionId hpage' hrevision',
      hp.trans hpage', hr.trans hrevision', ?_, ?_, ?_⟩
    · rw [hlanguage]
      rfl
    · rw [hlanguage, htitle]
      rfl
    · rw [hwikidata]
      rfl

variable {row : DocumentRow}

theorem loadRow_eq (hnodup : (files.map Shard.path).Nodup) (hs : shard ∈ files)
    (hrow : ((contents shard.path shard.fingerprint).rowGroups.getD indexed.rowGroup
      [])[indexed.rowIndex]? = some row) :
    loadRow isDecimal contents files (document casefold shard indexed)
      = (documentRow isDecimal shard.fingerprint.legacy row).mapError LoadError.conversion := by
  have hfind : files.find? (fun s => s.path = (document casefold shard indexed).sourcePath)
      = some shard := by
    cases hfound : files.find? (fun s => s.path = (document casefold shard indexed).sourcePath) with
    | none =>
      have hne := List.find?_eq_none.mp hfound shard hs
      exact absurd (decide_eq_true rfl) hne
    | some s =>
      have hfits := List.find?_some hfound
      have hpath : s.path = shard.path := of_decide_eq_true hfits
      rw [List.inj_on_of_nodup_map hnodup (List.mem_of_find?_eq_some hfound) hs hpath]
  rw [loadRow, hfind]
  dsimp only
  rw [show (document casefold shard indexed).rowGroup = indexed.rowGroup from rfl,
    show (document casefold shard indexed).rowIndex = indexed.rowIndex from rfl, hrow]
  rfl

theorem indexRow_position {legacy : Bool}
    {indexed : IndexRow} (h : indexRow legacy rowGroup rowIndex row = .ok indexed) :
    indexed.rowGroup = rowGroup ∧ indexed.rowIndex = rowIndex := by
  obtain ⟨pageId, -, h⟩ := bind_eq_ok.mp h
  obtain ⟨revisionId, -, h⟩ := bind_eq_ok.mp h
  cases h
  exact ⟨rfl, rfl⟩

theorem rowOf_table (hnodup : (files.map Shard.path).Nodup) (hs : shard ∈ files)
    {indexed : List IndexRow} (hrows : ∀ j, rows[j]?
      = ((contents shard.path shard.fingerprint).rowGroups.getD rowGroup [])[rowIndex + j]?)
    (hindex : indexRowsFromTable shard.fingerprint.legacy rowGroup rows rowIndex = .ok indexed)
    (hconvert : convertRows isDecimal shard.fingerprint.legacy rows = .ok converted) :
    List.Forall₂ (RowOf casefold isDecimal contents files)
      (indexed.map (document casefold shard)) converted := by
  induction rows generalizing rowIndex converted indexed with
  | nil =>
    cases hindex
    cases hconvert
    exact List.Forall₂.nil
  | cons row rows ih =>
    obtain ⟨first, hfirst, h⟩ := bind_eq_ok.mp hindex
    obtain ⟨rest, hrest, h⟩ := bind_eq_ok.mp h
    cases h
    obtain ⟨firstRow, hfirstRow, h⟩ := bind_eq_ok.mp hconvert
    obtain ⟨restRows, hrestRows, h⟩ := bind_eq_ok.mp h
    cases h
    obtain ⟨hgroup, hposition⟩ := indexRow_position hfirst
    refine List.Forall₂.cons (rowOf_indexRow hfirst hfirstRow ?_) (ih ?_ hrest hrestRows)
    · have hget : ((contents shard.path shard.fingerprint).rowGroups.getD first.rowGroup
          [])[first.rowIndex]? = some row := by
        rw [hgroup, hposition]
        have h0 := hrows 0
        rw [Nat.add_zero] at h0
        exact h0.symm
      rw [loadRow_eq hnodup hs hget, hfirstRow]
      rfl
    · intro j
      have hj := hrows (j + 1)
      rw [List.getElem?_cons_succ] at hj
      rw [hj]
      congr 1
      omega

theorem convertRows_append {legacy : Bool} {rows' : List DocumentRow}
    (h : convertRows isDecimal legacy (rows ++ rows') = .ok converted) :
    ∃ first last, convertRows isDecimal legacy rows = .ok first
      ∧ convertRows isDecimal legacy rows' = .ok last ∧ converted = first ++ last := by
  induction rows generalizing converted with
  | nil => exact ⟨[], converted, rfl, h, rfl⟩
  | cons row rows ih =>
    obtain ⟨firstRow, hfirstRow, h⟩ := bind_eq_ok.mp h
    obtain ⟨rest, hrest, h⟩ := bind_eq_ok.mp h
    cases h
    obtain ⟨first, last, hfirst, hlast, rfl⟩ := ih hrest
    refine ⟨firstRow :: first, last, ?_, hlast, rfl⟩
    rw [convertRows, hfirstRow, hfirst]
    rfl

theorem rowOf_groups (hnodup : (files.map Shard.path).Nodup) (hs : shard ∈ files) {n : Nat}
    (hn : n ≤ totalRowGroups contents shard) (hreadable : Readable contents shard n)
    (hconvert : convertRows isDecimal shard.fingerprint.legacy
      ((contents shard.path shard.fingerprint).rowGroups.take n).flatten = .ok converted) :
    List.Forall₂ (RowOf casefold isDecimal contents files)
      ((List.range n).flatMap (groupDocuments casefold contents shard)) converted := by
  induction n generalizing converted with
  | zero =>
    cases hconvert
    exact List.Forall₂.nil
  | succ n ih =>
    have hlt : n < (contents shard.path shard.fingerprint).rowGroups.length := hn
    rw [List.take_succ_eq_append_getElem hlt, List.flatten_append, List.flatten_singleton]
      at hconvert
    obtain ⟨first, last, hfirst, hlast, rfl⟩ := convertRows_append hconvert
    rw [List.range_succ, List.flatMap_append, List.flatMap_singleton]
    apply List.rel_append
    · exact ih (by omega) (fun g hg => hreadable g (by omega)) hfirst
    · obtain ⟨indexed, hindexed⟩ := hreadable n (by omega)
      rw [groupDocuments, hindexed]
      refine rowOf_table hnodup hs ?_ hindexed ?_
      · intro j
        rw [Nat.zero_add]
      · rw [List.getD_eq_getElem?_getD, List.getElem?_eq_getElem hlt]
        exact hlast

/-- **The rows of a shard**, as the two indexes see them. -/
theorem rowOf_shard (hnodup : (files.map Shard.path).Nodup) (hs : shard ∈ files)
    (hsound : Sound contents shard) (hread : readRows isDecimal contents shard = .ok rows) :
    List.Forall₂ (RowOf casefold isDecimal contents files)
      (shardDocuments casefold contents shard) rows := by
  rw [readRows, if_pos hsound.1] at hread
  refine rowOf_groups hnodup hs (le_refl _) hsound.2 ?_
  rw [totalRowGroups, List.take_length]
  exact mapError_eq_ok.mp hread

/-! ## The in-memory index -/

/-- The document row of an index row. -/
def rowFor (isDecimal : Char → Bool) (contents : String → Fingerprint → Contents Columns)
    (files : List Shard) (d : Document) : DocumentRow :=
  match loadRow isDecimal contents files d with
  | .ok row => row
  | .error _ => default

theorem RowOf.rowFor_eq (h : RowOf casefold isDecimal contents files d row) :
    rowFor isDecimal contents files d = row := by
  rw [rowFor, h.load]

/-- The index rows under a key of the in-memory index. Empty QIDs are left out. -/
def Key.keeps (key : Key) (d : Document) : Bool := key.selects d && key ≠ .qid ""

/-- The rows under a key, before they are sorted. -/
def MemoryIndex.entries (index : MemoryIndex) : Key → List DocumentRow
  | .page language pageId => (index.byPage.lookup (language, pageId)).getD []
  | .title language title => (index.byTitle.lookup (language, title)).getD []
  | .qid value => (index.byQid.lookup value).getD []

theorem MemoryIndex.rows_eq (index : MemoryIndex) (key : Key) :
    index.rows key = freezeRows (index.entries key) := by
  cases key <;> rfl

theorem lookup_appendRow {K : Type} [DecidableEq K] (key key' : K) (row : DocumentRow)
    (mapping : AList (fun _ : K => List DocumentRow)) :
    ((appendRow key row mapping).lookup key').getD []
      = (mapping.lookup key').getD [] ++ if key = key' then [row] else [] := by
  rw [appendRow]
  by_cases h : key = key'
  · rw [← h, AList.lookup_insert, if_pos rfl]
    rfl
  · rw [AList.lookup_insert_ne (fun h' => h h'.symm), if_neg h, List.append_nil]

theorem firstByDocument_concat (documents : List Document) (d : Document) :
    firstByDocument (documents ++ [d])
      = if d.documentId ∈ documents.map Document.documentId then firstByDocument documents
        else firstByDocument documents ++ [d] := by
  induction documents with
  | nil => rfl
  | cons e documents ih =>
    rw [List.cons_append, firstByDocument, ih, firstByDocument]
    by_cases hmem : d.documentId ∈ documents.map Document.documentId
    · rw [if_pos hmem, if_pos (by rw [List.map_cons]; exact List.mem_cons_of_mem _ hmem)]
    · rw [if_neg hmem, List.filter_append]
      by_cases he : d.documentId = e.documentId
      · rw [if_pos (by simp [he]), List.filter_cons_of_neg (by simp [he])]
        simp
      · rw [if_neg (by simpa [he] using hmem), List.filter_cons_of_pos (by simp [he])]
        rfl

variable {documents : List Document}

theorem mem_firstByDocument_iff :
    d ∈ firstByDocument documents ↔ Dict.First Document.documentId documents d := by
  induction documents using List.reverseRecOn with
  | nil =>
    constructor
    · intro h
      cases h
    · rintro ⟨before, after, h, -⟩
      simp at h
  | append_singleton documents e ih =>
    rw [firstByDocument_concat, Dict.first_concat, ← ih]
    split
    · rename_i hmem
      simp [hmem]
    · rename_i hmem
      simp [hmem]

theorem nodup_firstByDocument (documents : List Document) :
    ((firstByDocument documents).map Document.documentId).Nodup := by
  induction documents with
  | nil => exact List.nodup_nil
  | cons d documents ih =>
    rw [firstByDocument, List.map_cons, List.nodup_cons]
    refine ⟨?_, ih.sublist (List.filter_sublist.map _)⟩
    intro hmem
    obtain ⟨e, he, hid⟩ := List.mem_map.mp hmem
    simp [hid] at he

/-- What the index holds after the rows of `documents`. -/
structure Holds (isDecimal : Char → Bool) (contents : String → Fingerprint → Contents Columns)
    (files : List Shard) (documents : List Document) (index : MemoryIndex) : Prop where
  seen : ∀ id, id ∈ index.seenDocuments ↔ id ∈ documents.map Document.documentId
  entries : ∀ key, index.entries key
    = ((firstByDocument documents).filter key.keeps).map (rowFor isDecimal contents files)

variable {index index' : MemoryIndex}

theorem Holds.addRow (h : Holds isDecimal contents files documents index)
    (hrow : RowOf casefold isDecimal contents files d row)
    (hadd : addRow casefold row index = .ok index') :
    Holds isDecimal contents files (documents ++ [d]) index' := by
  obtain ⟨pageId, hpage, hadd⟩ := bind_eq_ok.mp hadd
  obtain ⟨revisionId, -, hadd⟩ := bind_eq_ok.mp hadd
  have hpageId : pageId = d.pageId := by
    have hsome := requiredInt_ok (mapError_eq_ok.mp hpage)
    rw [hrow.pageId] at hsome
    exact (Option.some.inj hsome).symm
  rw [hrow.documentId] at hadd
  split at hadd
  · -- the document has been seen
    rename_i hold
    rw [h.seen] at hold
    cases hadd
    refine ⟨?_, ?_⟩
    · intro id
      rw [h.seen, List.map_append, List.mem_append]
      constructor
      · exact Or.inl
      · rintro (hmem | hlast)
        · exact hmem
        · rw [List.mem_singleton.mp hlast]
          exact hold
    · intro key
      rw [firstByDocument_concat, if_pos hold]
      exact h.entries key
  · rename_i hnew
    rw [h.seen] at hnew
    cases hadd
    refine ⟨?_, ?_⟩
    · intro id
      rw [List.mem_cons, h.seen, List.map_append, List.mem_append]
      simp [or_comm]
    · intro key
      have hkeeps : ∀ p : Prop, ∀ [Decidable p], (key.keeps d = true ↔ p) →
          ([d].filter key.keeps).map (rowFor isDecimal contents files) = if p then [row] else [] := by
        intro p _ hp
        by_cases hk : key.keeps d = true
        · rw [List.filter_cons_of_pos hk, if_pos (hp.mp hk), ← hrow.rowFor_eq]
          rfl
        · rw [List.filter_cons_of_neg hk, if_neg (fun h => hk (hp.mpr h))]
          rfl
      rw [firstByDocument_concat, if_neg hnew, List.filter_append, List.map_append, ← h.entries key]
      cases key with
      | page language pageId' =>
        rw [MemoryIndex.entries, lookup_appendRow, hrow.language, hpageId,
          hkeeps ((d.language, d.pageId) = (language, pageId'))]
        · rfl
        · simp [Key.keeps, Key.selects]
      | title language title =>
        have htitleKey : titleKey casefold (pyStr row.language) (pyStr row.title)
            = (d.language, d.titleKey) := Prod.ext hrow.language hrow.titleKey
        rw [MemoryIndex.entries, lookup_appendRow, htitleKey,
          hkeeps ((d.language, d.titleKey) = (language, title))]
        · rfl
        · simp [Key.keeps, Key.selects]
      | qid value =>
        rw [MemoryIndex.entries, hrow.qid, hkeeps (d.qid ≠ "" ∧ d.qid = value)]
        · by_cases hempty : d.qid = ""
          · rw [if_pos hempty, if_neg (fun h => h.1 hempty), List.append_nil]
            rfl
          · rw [if_neg hempty, lookup_appendRow]
            simp [hempty, MemoryIndex.entries]
        · simp only [Key.keeps, Key.selects, Bool.and_eq_true, decide_eq_true_eq, ne_eq,
            Key.qid.injEq]
          constructor
          · rintro ⟨rfl, hne⟩
            exact ⟨hne, rfl⟩
          · rintro ⟨hne, rfl⟩
            exact ⟨rfl, hne⟩

theorem Holds.addRows {documents new : List Document}
    (h : Holds isDecimal contents files documents index)
    (hrows : List.Forall₂ (RowOf casefold isDecimal contents files) new rows)
    (hadd : addRows casefold rows index = .ok index') :
    Holds isDecimal contents files (documents ++ new) index' := by
  induction hrows generalizing documents index with
  | nil =>
    cases hadd
    rw [List.append_nil]
    exact h
  | cons hrow _ ih =>
    obtain ⟨index₁, hfirst, hadd⟩ := bind_eq_ok.mp hadd
    rw [List.append_cons]
    exact ih (h.addRow hrow hfirst) hadd

theorem Holds.addShards {shards : List Shard} (h : Holds isDecimal contents files documents index)
    (hnodup : (files.map Shard.path).Nodup)
    (hshards : ∀ s ∈ shards, s ∈ files ∧ Sound contents s)
    (hadd : addShards casefold isDecimal contents shards index = .ok index') :
    Holds isDecimal contents files
      (documents ++ shards.flatMap (shardDocuments casefold contents)) index' := by
  induction shards generalizing documents index with
  | nil =>
    cases hadd
    rw [List.flatMap_nil, List.append_nil]
    exact h
  | cons shard shards ih =>
    obtain ⟨rows, hread, hadd⟩ := bind_eq_ok.mp hadd
    obtain ⟨index₁, hfirst, hadd⟩ := bind_eq_ok.mp hadd
    obtain ⟨hs, hsound⟩ := hshards shard List.mem_cons_self
    rw [List.flatMap_cons, ← List.append_assoc]
    refine ih (h.addRows (rowOf_shard hnodup hs hsound hread) hfirst) ?_ hadd
    exact fun s hs => hshards s (List.mem_cons_of_mem shard hs)

/-- **What the in-memory index holds.** -/
theorem holds_buildInMemoryIndex {index : MemoryIndex} (hnodup : (files.map Shard.path).Nodup)
    (hsound : ∀ s ∈ files, Sound contents s)
    (hbuild : buildInMemoryIndex casefold isDecimal contents files = .ok index) :
    Holds isDecimal contents files (files.flatMap (shardDocuments casefold contents)) index := by
  have hempty : Holds isDecimal contents files [] .empty := by
    refine ⟨by simp [MemoryIndex.empty], ?_⟩
    intro key
    cases key <;> rfl
  exact hempty.addShards hnodup (fun s hs => ⟨hs, hsound s hs⟩) hbuild

theorem readRows_of_addShards {shards : List Shard}
    (hadd : addShards casefold isDecimal contents shards index = .ok index') :
    ∀ s ∈ shards, ∃ rows, readRows isDecimal contents s = .ok rows := by
  induction shards generalizing index with
  | nil =>
    intro s hs
    cases hs
  | cons shard shards ih =>
    obtain ⟨rows, hread, hadd⟩ := bind_eq_ok.mp hadd
    obtain ⟨index₁, -, hadd⟩ := bind_eq_ok.mp hadd
    intro s hs
    rcases List.mem_cons.mp hs with rfl | hs'
    · exact ⟨rows, hread⟩
    · exact ih hadd s hs'

theorem rowOf_rowFor {index : MemoryIndex} (hnodup : (files.map Shard.path).Nodup)
    (hsound : ∀ s ∈ files, Sound contents s)
    (hbuild : buildInMemoryIndex casefold isDecimal contents files = .ok index) {s : Shard}
    (hs : s ∈ files) (hd : d ∈ shardDocuments casefold contents s) :
    RowOf casefold isDecimal contents files d (rowFor isDecimal contents files d) := by
  obtain ⟨rows, hread⟩ := readRows_of_addShards hbuild s hs
  have hall : List.Forall₂ (RowOf casefold isDecimal contents files)
      (shardDocuments casefold contents s) rows := rowOf_shard hnodup hs (hsound s hs) hread
  obtain ⟨row, hrow⟩ : ∃ row, RowOf casefold isDecimal contents files d row := by
    rw [List.forall₂_iff_get] at hall
    obtain ⟨i, hi, rfl⟩ := List.getElem_of_mem hd
    exact ⟨_, hall.2 i hi (hall.1 ▸ hi)⟩
  rw [hrow.rowFor_eq]
  exact hrow

end OsmPolygonWikidata.V1Index
