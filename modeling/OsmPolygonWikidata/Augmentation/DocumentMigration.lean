import OsmPolygonWikidata.Augmentation.WikipediaRetirement

/-! # Planning the migration of Wikipedia documents

`augmentation/_wikipedia_document_migration/planning.py`. For every region the planner converts the
legacy articles and compares them with the document table that exists: there is none, it is a legacy
table with the same values, or it is canonical already and has every converted row. Everything else
is blocked, and the plan says why.

PyArrow is a parameter: a Parquet file is read into a table, which has a schema, rows and a digest.
The digest may depend on how the table is cut into chunks.
-/

namespace OsmPolygonWikidata.Augmentation.DocumentMigration

open Python
open V1Index (DocumentRow Value wikipediaDocumentFromArticleRow)

/-! ## Schemas -/

/-- `ARTICLE_COLUMNS`. -/
def articleColumns : List String :=
  ["article_id", "wikidata", "language", "site", "title", "url", "page_id", "revision_id",
   "revision_timestamp", "retrieved_at", "wikidata_label", "wikidata_description",
   "wikidata_aliases", "lead_text", "extract", "full_text", "full_text_format",
   "article_length_chars", "article_length_words", "article_length_tokens_estimate",
   "thumbnail_url", "thumbnail_width", "thumbnail_height", "categories", "license",
   "attribution", "source_api", "fetch_status", "fetch_error", "content_hash"]

/-- `ARTICLE_DESCRIPTIONS`. -/
def articleDescriptions : List (String × String) :=
  [("article_id", "Deterministic ID: `<wikidata>:<language>:<page_id>:<revision_id>`."),
   ("wikidata", "Wikidata Q-id this article is linked to."),
   ("language", "Wikipedia language code, e.g. `en`."),
   ("site", "Wikidata sitelink site, e.g. `enwiki`."),
   ("title", "Article title as returned by the Wikipedia API."),
   ("url", "Canonical Wikipedia article URL."),
   ("page_id", "MediaWiki page ID."),
   ("revision_id", "Exact revision ID used for text extraction."),
   ("revision_timestamp", "ISO-8601 timestamp of the revision."),
   ("retrieved_at", "ISO-8601 UTC timestamp when this pipeline fetched the article."),
   ("wikidata_label", "Best Wikidata label for the article's language, fallback English."),
   ("wikidata_description", "Best Wikidata description for the article's language."),
   ("wikidata_aliases", "Deterministic JSON list of Wikidata aliases."),
   ("lead_text", "Lead section of the article, plain text."),
   ("extract", "Short summary/extract if the API provided one."),
   ("full_text", "Full cleaned article text, plain text."),
   ("full_text_format", "Encoding of `full_text`; always `plain_text`."),
   ("article_length_chars", "Length of `full_text` in characters."),
   ("article_length_words", "Approximate whitespace-token count of `full_text`."),
   ("article_length_tokens_estimate", "Rough token count: `chars / 4`."),
   ("thumbnail_url", "Thumbnail URL only (no image bytes stored)."),
   ("thumbnail_width", "Thumbnail width in pixels, if known."),
   ("thumbnail_height", "Thumbnail height in pixels, if known."),
   ("categories", "Deterministic JSON list of category titles, or `[]`."),
   ("license", "License string, e.g. `CC BY-SA`."),
   ("attribution", "Attribution string for the article."),
   ("source_api", "Which API was queried: `mediawiki_action_api` / `wikipedia_rest_api`."),
   ("fetch_status", "One of: `ok`, `article_not_found`, `http_error`, `rate_limited`,"
     ++ " `parse_error`, `empty_text`."),
   ("fetch_error", "Short diagnostic on failure, empty string on success."),
   ("content_hash", "Stable SHA-256 of `full_text` for change tracking.")]

/-- `DOCUMENT_COLUMNS`. -/
def documentColumns : List String :=
  ["document_id", "article_id", "wikidata", "project", "language", "site", "title", "url",
   "page_id", "revision_id", "revision_timestamp", "retrieved_at", "full_text",
   "full_text_format", "article_length_chars", "article_length_words",
   "article_length_tokens_estimate", "license", "attribution", "source_api", "fetch_status",
   "fetch_error", "content_hash"]

def isIntegerColumn (column : String) : Bool :=
  ["_count", "_chars", "_words", "_tokens_estimate"].any
    (fun suffix => suffix.toList.isSuffixOf column.toList)
  || column ∈ ["page_id", "revision_id", "osm_id", "thumbnail_width", "thumbnail_height"]

def isBooleanColumn (column : String) : Bool :=
  "has_".toList.isPrefixOf column.toList || column ∈ ["is_best_language", "text_available"]

def columnDtype (column : String) : ArrowType :=
  if isIntegerColumn column then .int64
  else if column ∈ ["lat", "lon", "area_m2", "area_km2"] then .float64
  else if isBooleanColumn column then .bool
  else .string

def articleSchema : Schema :=
  articleColumns.map (fun column =>
    ⟨column, columnDtype column, some ((articleDescriptions.lookup column).getD "")⟩)

/-- `wikipedia_document_schema`. -/
def canonicalSchema : Schema := wikipediaDocumentSchema articleSchema

/-- `document_schema`, with the integer columns of `_schema` that it has. -/
def documentSchema : Schema :=
  documentColumns.map (fun column =>
    ⟨column, if column ∈ ["page_id", "revision_id", "article_length_chars",
      "article_length_words", "article_length_tokens_estimate"] then .int64 else .string, none⟩)

/-- `schema == expected`, which leaves the metadata out. -/
def sameFields (schema expected : Schema) : Bool :=
  schema.map (fun column => (column.name, column.type))
    = expected.map (fun column => (column.name, column.type))

/-- A value in Python: a text, a number, or `None`. -/
def pythonValue : Value → Option (String ⊕ Int)
  | .text value => value.map .inl
  | .number value => value.map .inr
  | .optionalNumber value => value.map .inr

/-- `row[column]`. -/
def cell (row : DocumentRow) (column : String) : Option (String ⊕ Int) :=
  match column with
  | "document_id" => row.documentId.map .inl
  | "article_id" => row.payload.articleId.map .inl
  | "wikidata" => row.wikidata.map .inl
  | "project" => row.payload.project.map .inl
  | "language" => row.language.map .inl
  | "site" => row.payload.site.map .inl
  | "title" => row.title.map .inl
  | "page_id" => row.pageId.map .inr
  | "revision_id" => row.revisionId.map .inr
  | _ => (row.payload.others.lookup column).bind pythonValue

/-! ## Files -/

/-- What is at a path. A file that cannot be opened has the name of the error. -/
inductive PathState (C : Type) where
  | absent
  | directory
  | unreadable (error : String)
  | file (contents : C)
  deriving DecidableEq

/-- `path.is_file()`. -/
def PathState.isFile {C : Type} : PathState C → Bool
  | .unreadable _ => true
  | .file _ => true
  | _ => false

/-- `path.exists()`. -/
def PathState.exists {C : Type} : PathState C → Bool
  | .absent => false
  | _ => true

/-- The entries `<stem>.parquet` of `articles` and of `wikipedia/documents`. -/
structure Processed (C : Type) where
  articles : List (String × PathState C)
  documents : List (String × PathState C)
  deriving DecidableEq

def Processed.article {C : Type} (tree : Processed C) (stem : String) : PathState C :=
  (tree.articles.lookup stem).getD .absent

def Processed.document {C : Type} (tree : Processed C) (stem : String) : PathState C :=
  (tree.documents.lookup stem).getD .absent

/-- PyArrow, SHA-256, the texts of exceptions and lists, which writes fail, and where symbolic links
lead. -/
structure Library (C T : Type) where
  isDecimal : Char → Bool
  sha256 : C → String
  readTable : C → Except String T
  writeTable : T → C
  contents : T → DocumentTable
  fromRows : DocumentTable → T
  tableDigest : T → String
  describe : TableError → String
  repr : List String → String
  writeFails : Processed C → String → Bool
  documentsInside : Processed C → Bool
  targetInside : Processed C → String → Bool

/-- `MigrationOperation`. -/
inductive Operation where
  | createMissing
  | upgradeLegacy
  | alreadyCanonical
  | blocked
  deriving DecidableEq

structure StemPlan where
  stem : String
  operation : Operation
  reason : String
  articleHash : String
  documentHash : Option String
  rowCount : Nat
  canonicalDigest : Option String
  deriving DecidableEq

/-- What is raised: a `MigrationError`, or an exception that nothing catches. -/
inductive Failure where
  | migration (message : String)
  | conversion (error : TableError)
  | typeError
  | keyError
  | osError
  deriving DecidableEq

section

variable {C T : Type} (lib : Library C T)

/-! ## Reading -/

/-- `_file_content_hash`. The error is the name of an `OSError`. -/
def fileContentHash : PathState C → Except String String
  | .file contents => .ok (lib.sha256 contents)
  | .unreadable error => .error error
  | .directory => .error "IsADirectoryError"
  | .absent => .error "FileNotFoundError"

/-- `pq.read_table`. -/
def readFile : PathState C → Except String T
  | .file contents => lib.readTable contents
  | .unreadable error => .error error
  | .directory => .error "IsADirectoryError"
  | .absent => .error "FileNotFoundError"

def readArticleTable (state : PathState C) (stem : String) : Except String T :=
  match readFile lib state with
  | .error error => .error s!"Stem '{stem}': unreadable article file ({error})"
  | .ok table =>
    if sameFields (lib.contents table).schema articleSchema then .ok table
    else .error s!"Stem '{stem}': article schema does not match article_schema()"

/-- `build_wikipedia_document_table`. -/
def canonicalTable (articles : T) : Except TableError T :=
  (buildWikipediaDocumentTable lib.isDecimal articleSchema (lib.contents articles)).map
    (fun docs => lib.fromRows ⟨canonicalSchema, docs⟩)

/-! ## Comparing a legacy document table -/

local instance lawfulBEq_documentId : LawfulBEq (Option String) := inferInstance

/-- `_validate_shared_identities`. `None` and a text cannot be sorted. -/
def validateSharedIdentities (legacyIds canonicalIds : List (Option String)) (stem : String) :
    Except Failure Unit :=
  let diff := legacyIds.filter (fun id => id ∉ canonicalIds)
    ++ canonicalIds.filter (fun id => id ∉ legacyIds)
  if legacyIds.length ≠ canonicalIds.length then
    .error (.migration (s!"Stem '{stem}': row count mismatch "
      ++ s!"(document has {legacyIds.length}, canonical has {canonicalIds.length})"))
  else if ¬ legacyIds.Nodup then
    .error (.migration s!"Stem '{stem}': duplicate document_id in existing document")
  else if diff = [] then .ok ()
  else if none ∈ diff then .error .typeError
  else .error (.migration (s!"Stem '{stem}': document_id set mismatch "
    ++ s!"(symmetric difference: {lib.repr (diff.reduceOption.insertionSort (· ≤ ·))})"))

/-- The columns that both tables have, other than `document_id`. -/
def sharedColumns (legacy canonical : Schema) : List String :=
  ((legacy.map Column.name).filter (fun name => name ∈ canonical.map Column.name
    ∧ name ≠ "document_id")).eraseDups.insertionSort (· ≤ ·)

def validateSharedRow (stem : String) (sharedCols : List String) (legacyRow : Option DocumentRow)
    (canonicalRow : DocumentRow) : Except Failure Unit :=
  match legacyRow with
  | none => .error .keyError
  | some legacyRow =>
    match sharedCols.find? (fun column => cell legacyRow column ≠ cell canonicalRow column) with
    | none => .ok ()
    | some column =>
      .error (.migration (s!"Stem '{stem}': shared-value conflict for document_id "
        ++ s!"'{pyStr canonicalRow.documentId}' in column '{column}'"))

def checkSharedValues (legacy canonical : DocumentTable) (stem : String) :
    Except Failure Unit := do
  let legacyIds := legacy.rows.map V1Index.ShardRow.documentId
  let canonicalIds := canonical.rows.map V1Index.ShardRow.documentId
  validateSharedIdentities lib legacyIds canonicalIds stem
  let legacyById := Dict.build V1Index.ShardRow.documentId legacy.rows
  let canonicalById := Dict.build V1Index.ShardRow.documentId canonical.rows
  (canonicalById.insertionSort (fun a b => pyStr a.documentId ≤ pyStr b.documentId)).forM
    (fun row => validateSharedRow stem (sharedColumns legacy.schema canonical.schema)
      (legacyById.find? (fun legacyRow => legacyRow.documentId = row.documentId)) row)

/-! ## Classifying a stem -/

def blockedPlan (stem reason articleHash : String) (documentHash : Option String) : StemPlan :=
  ⟨stem, .blocked, reason, articleHash, documentHash, 0, none⟩

def readyPlan (stem : String) (operation : Operation) (table : T) (articleHash : String)
    (documentHash : Option String) : StemPlan :=
  ⟨stem, operation, "", articleHash, documentHash, (lib.contents table).rows.length,
    some (lib.tableDigest table)⟩

def missingStemPlan (stem : String) (article document : PathState C) : Option StemPlan :=
  if article.isFile then none
  else if document.isFile then
    match fileContentHash lib document with
    | .error error => some (blockedPlan stem s!"unreadable document file ({error})" "" none)
    | .ok hash =>
      some (blockedPlan stem "document exists without corresponding article" "" (some hash))
  else some (blockedPlan stem "no article file found" "" none)

/-- `_article_plan_inputs`: the hash and the converted table, or a blocked plan. -/
def articlePlanInputs (stem : String) (article : PathState C) : Except StemPlan (String × T) := do
  let articles ← (readArticleTable lib article stem).mapError
    (fun message => blockedPlan stem message "" none)
  let hash ← (fileContentHash lib article).mapError
    (fun error => blockedPlan stem s!"unreadable article file ({error})" "" none)
  let canonical ← (canonicalTable lib articles).mapError
    (fun error => blockedPlan stem s!"article conversion failed: {lib.describe error}" hash none)
  return (hash, canonical)

/-- The text of the errors of `_assert_canonical_preserves_legacy`. -/
def preservationMessage (stem : String) : MigrationError → String
  | .notPreserved documentId =>
    s!"Stem '{stem}': canonical documents do not preserve legacy document '{documentId}'"
  | _ => s!"Stem '{stem}': duplicate document_id in canonical document"

def canonicalDocumentPlan (stem : String) (document canonical : T)
    (articleHash documentHash : String) : StemPlan :=
  match assertCanonicalPreservesLegacy (lib.contents document).rows
      (lib.contents canonical).rows with
  | .error error =>
    blockedPlan stem (preservationMessage stem error) articleHash (some documentHash)
  | .ok () => readyPlan lib stem .alreadyCanonical document articleHash (some documentHash)

def legacyDocumentPlan (stem : String) (document canonical : T)
    (articleHash documentHash : String) : Except Failure StemPlan :=
  match checkSharedValues lib (lib.contents document) (lib.contents canonical) stem with
  | .error (.migration message) =>
    .ok (blockedPlan stem message articleHash (some documentHash))
  | .error failure => .error failure
  | .ok () => .ok (readyPlan lib stem .upgradeLegacy canonical articleHash (some documentHash))

def existingDocumentPlan (stem : String) (state : PathState C) (canonical : T)
    (articleHash : String) : Except Failure StemPlan :=
  match fileContentHash lib state with
  | .error error => .ok (blockedPlan stem s!"unreadable document file ({error})" articleHash none)
  | .ok documentHash =>
    match readFile lib state with
    | .error error =>
      .ok (blockedPlan stem s!"unreadable document file ({error})" articleHash
        (some documentHash))
    | .ok document =>
      if (lib.contents document).schema = canonicalSchema then
        .ok (canonicalDocumentPlan lib stem document canonical articleHash documentHash)
      else if (lib.contents document).schema = documentSchema then
        legacyDocumentPlan lib stem document canonical articleHash documentHash
      else
        .ok (blockedPlan stem
          s!"unexpected document schema ({(lib.contents document).schema.length} columns)"
          articleHash (some documentHash))

def classifyStem (tree : Processed C) (stem : String) : Except Failure StemPlan :=
  match missingStemPlan lib stem (tree.article stem) (tree.document stem) with
  | some plan => .ok plan
  | none =>
    match articlePlanInputs lib stem (tree.article stem) with
    | .error plan => .ok plan
    | .ok (articleHash, canonical) =>
      if (tree.document stem).isFile then
        existingDocumentPlan lib stem (tree.document stem) canonical articleHash
      else .ok (readyPlan lib stem .createMissing canonical articleHash none)

/-- `path.stem` of the entry of a directory: `.parquet` is no suffix of itself. -/
def pathStem (entry : String × PathState C) : String :=
  if entry.1 = "" then ".parquet" else entry.1

def discoverAllStems (tree : Processed C) : List String :=
  (tree.articles.map pathStem ++ tree.documents.map pathStem).eraseDups.insertionSort (· ≤ ·)

/-- The stems that a plan is about: all of them, or those that are asked for. -/
def scopedStems (tree : Processed C) : Option (List String) → List String
  | none => discoverAllStems tree
  | some stems => (discoverAllStems tree).filter (fun stem => stem ∈ stems)

/-- `plan_migration`: the plan is its stems. -/
def planMigration (tree : Processed C) (stems : Option (List String)) :
    Except Failure (List StemPlan) :=
  (scopedStems tree stems).mapM (classifyStem lib tree)

def isSafeToApply (plan : List StemPlan) : Bool :=
  plan.all (fun stemPlan => stemPlan.operation ≠ .blocked)

end

/-! ## What a plan says -/

section

variable {C T : Type} {lib : Library C T} {tree : Processed C} {stem : String} {sp : StemPlan}
  {c d : C} {canonical table : T}

/-- The articles of a stem can be converted. -/
structure Source (lib : Library C T) (tree : Processed C) (stem : String) (c : C) (canonical : T) :
    Prop where
  file : tree.article stem = .file c
  converted : ∃ articles, lib.readTable c = .ok articles
    ∧ sameFields (lib.contents articles).schema articleSchema = true
    ∧ canonicalTable lib articles = .ok canonical

/-- The document table of a stem that is canonical and has all converted rows. -/
structure Canonical (lib : Library C T) (tree : Processed C) (stem : String) (canonical : T) (d : C)
    (table : T) : Prop where
  file : tree.document stem = .file d
  reads : lib.readTable d = .ok table
  schema : (lib.contents table).schema = canonicalSchema
  preserves : assertCanonicalPreservesLegacy (lib.contents table).rows
    (lib.contents canonical).rows = .ok ()

/-- The legacy document table of a stem that has the values of the converted rows. -/
structure Legacy (lib : Library C T) (tree : Processed C) (stem : String) (canonical : T) (d : C)
    (table : T) : Prop where
  file : tree.document stem = .file d
  reads : lib.readTable d = .ok table
  schema : (lib.contents table).schema = documentSchema
  shared : checkSharedValues lib (lib.contents table) (lib.contents canonical) stem = .ok ()

/-- The plans that are not blocked. -/
inductive Ready (lib : Library C T) (tree : Processed C) (stem : String) (c : C) (canonical : T) :
    StemPlan → Prop
  | create (h : (tree.document stem).isFile = false) : Ready lib tree stem c canonical
        (readyPlan lib stem .createMissing canonical (lib.sha256 c) none)
  | upgrade (d : C) (table : T) (h : Legacy lib tree stem canonical d table) :
      Ready lib tree stem c canonical
        (readyPlan lib stem .upgradeLegacy canonical (lib.sha256 c) (some (lib.sha256 d)))
  | keep (d : C) (table : T) (h : Canonical lib tree stem canonical d table) :
      Ready lib tree stem c canonical
        (readyPlan lib stem .alreadyCanonical table (lib.sha256 c) (some (lib.sha256 d)))

/-- A plan of a stem: blocked, or ready. -/
def Planned (lib : Library C T) (tree : Processed C) (stem : String) (sp : StemPlan) : Prop :=
  sp.operation = .blocked ∨ ∃ c canonical, Source lib tree stem c canonical
    ∧ Ready lib tree stem c canonical sp

theorem missingStemPlan_blocked {article document : PathState C}
    (h : missingStemPlan lib stem article document = some sp) :
    sp.stem = stem ∧ sp.operation = .blocked := by
  unfold missingStemPlan at h
  split at h
  · cases h
  · split at h
    · split at h <;> cases h <;> exact ⟨rfl, rfl⟩
    · cases h
      exact ⟨rfl, rfl⟩

theorem articlePlanInputs_blocked {article : PathState C}
    (h : articlePlanInputs lib stem article = .error sp) :
    sp.stem = stem ∧ sp.operation = .blocked := by
  -- each of the three steps can block the stem
  rcases bind_eq_error.mp h with h | ⟨articles, -, h⟩
  · obtain ⟨message, -, rfl⟩ := mapError_eq_error.mp h
    exact ⟨rfl, rfl⟩
  rcases bind_eq_error.mp h with h | ⟨hash, -, h⟩
  · obtain ⟨error, -, rfl⟩ := mapError_eq_error.mp h
    exact ⟨rfl, rfl⟩
  rcases bind_eq_error.mp h with h | ⟨canonical, -, h⟩
  · obtain ⟨error, -, rfl⟩ := mapError_eq_error.mp h
    exact ⟨rfl, rfl⟩
  · cases h

theorem readFile_eq_ok {state : PathState C} (h : readFile lib state = .ok table) :
    ∃ c, state = .file c ∧ lib.readTable c = .ok table := by
  cases state with
  | file contents => exact ⟨contents, rfl, h⟩
  | _ => cases h

theorem readArticleTable_eq_ok {state : PathState C} {articles : T}
    (h : readArticleTable lib state stem = .ok articles) :
    ∃ c, state = .file c ∧ lib.readTable c = .ok articles
      ∧ sameFields (lib.contents articles).schema articleSchema = true := by
  unfold readArticleTable at h
  split at h
  · cases h
  · rename_i found hread
    split at h
    · rename_i hfields
      cases h
      obtain ⟨c, hfile, htable⟩ := readFile_eq_ok hread
      exact ⟨c, hfile, htable, hfields⟩
    · cases h

theorem articlePlanInputs_spec {hash : String}
    (h : articlePlanInputs lib stem (tree.article stem) = .ok (hash, canonical)) :
    ∃ c, hash = lib.sha256 c ∧ Source lib tree stem c canonical := by
  obtain ⟨articles, harticles, h⟩ := bind_eq_ok.mp h
  obtain ⟨c, hfile, hread, hfields⟩ := readArticleTable_eq_ok (mapError_eq_ok.mp harticles)
  obtain ⟨hash', hhash, h⟩ := bind_eq_ok.mp h
  obtain ⟨canonical', hcanonical, h⟩ := bind_eq_ok.mp h
  cases h
  have hsha := mapError_eq_ok.mp hhash
  rw [hfile] at hsha
  cases hsha
  exact ⟨c, rfl, hfile, articles, hread, hfields, mapError_eq_ok.mp hcanonical⟩

theorem Source.articlePlanInputs (h : Source lib tree stem c canonical) :
    articlePlanInputs lib stem (tree.article stem) = .ok (lib.sha256 c, canonical) := by
  obtain ⟨articles, hread, hfields, hcanonical⟩ := h.converted
  have harticles : readArticleTable lib (tree.article stem) stem = .ok articles := by
    rw [h.file, readArticleTable]
    simp only [readFile, hread, hfields, if_true]
  refine bind_eq_ok.mpr ⟨articles, mapError_eq_ok.mpr harticles, ?_⟩
  refine bind_eq_ok.mpr ⟨lib.sha256 c, ?_, ?_⟩
  · rw [h.file]
    rfl
  · exact bind_eq_ok.mpr ⟨canonical, mapError_eq_ok.mpr hcanonical, rfl⟩

theorem existingDocumentPlan_spec (hsource : Source lib tree stem c canonical)
    (h : existingDocumentPlan lib stem (tree.document stem) canonical (lib.sha256 c) = .ok sp) :
    sp.stem = stem ∧ Planned lib tree stem sp := by
  unfold existingDocumentPlan at h
  split at h
  · cases h
    exact ⟨rfl, Or.inl rfl⟩
  rename_i documentHash hhash
  split at h
  · cases h
    exact ⟨rfl, Or.inl rfl⟩
  rename_i table hread
  -- the file was read, so it is there
  obtain ⟨d, hfile, hread⟩ := readFile_eq_ok hread
  rw [hfile] at hhash
  cases hhash
  split at h
  · rename_i hschema
    cases h
    unfold canonicalDocumentPlan
    split
    · exact ⟨rfl, Or.inl rfl⟩
    · rename_i hpreserves
      exact ⟨rfl, Or.inr ⟨c, canonical, hsource, .keep d table ⟨hfile, hread, hschema, hpreserves⟩⟩⟩
  · split at h
    · rename_i hschema
      unfold legacyDocumentPlan at h
      split at h
      · cases h
        exact ⟨rfl, Or.inl rfl⟩
      · cases h
      · rename_i hshared
        cases h
        exact ⟨rfl, Or.inr ⟨c, canonical, hsource, .upgrade d table ⟨hfile, hread, hschema, hshared⟩⟩⟩
    · cases h
      exact ⟨rfl, Or.inl rfl⟩

/-- **What the classification of a stem says.** -/
theorem classifyStem_spec (h : classifyStem lib tree stem = .ok sp) :
    sp.stem = stem ∧ Planned lib tree stem sp := by
  unfold classifyStem at h
  split at h
  · rename_i plan hmissing
    cases h
    obtain ⟨hstem, hblocked⟩ := missingStemPlan_blocked hmissing
    exact ⟨hstem, Or.inl hblocked⟩
  split at h
  · rename_i plan hinputs
    cases h
    obtain ⟨hstem, hblocked⟩ := articlePlanInputs_blocked hinputs
    exact ⟨hstem, Or.inl hblocked⟩
  rename_i articleHash canonical hinputs
  obtain ⟨c, rfl, hsource⟩ := articlePlanInputs_spec hinputs
  split at h
  · exact existingDocumentPlan_spec hsource h
  · rename_i hdocument
    cases h
    exact ⟨rfl, Or.inr ⟨c, canonical, hsource, .create (Bool.not_eq_true _ ▸ hdocument)⟩⟩

theorem classifyStem_canonical (hsource : Source lib tree stem c canonical)
    (h : Canonical lib tree stem canonical d table) :
    classifyStem lib tree stem
      = .ok (readyPlan lib stem .alreadyCanonical table (lib.sha256 c) (some (lib.sha256 d))) := by
  have hmissing : missingStemPlan lib stem (tree.article stem) (tree.document stem) = none := by
    rw [missingStemPlan, hsource.file]
    rfl
  unfold classifyStem
  rw [hmissing, hsource.articlePlanInputs, h.file]
  simp only [PathState.isFile, if_true, existingDocumentPlan, fileContentHash, readFile, h.reads,
    h.schema, canonicalDocumentPlan, h.preserves]

end

/-! ## Plans of a tree -/

section

variable {C T : Type} {lib : Library C T} {tree : Processed C} {stems : Option (List String)}
  {plan : List StemPlan}

theorem nodup_discoverAllStems (tree : Processed C) : (discoverAllStems tree).Nodup :=
  (List.perm_insertionSort _ _).nodup_iff.mpr (nodup_eraseDups _)

theorem planMigration_eq_ok_iff : planMigration lib tree stems = .ok plan
      ↔ List.Forall₂ (fun stem sp => classifyStem lib tree stem = .ok sp)
        (scopedStems tree stems) plan :=
  mapM_eq_ok_iff

variable (h : planMigration lib tree stems = .ok plan)

include h

theorem stems_of_planMigration : plan.map StemPlan.stem = scopedStems tree stems := by
  have hall := planMigration_eq_ok_iff.mp h
  generalize scopedStems tree stems = wanted at hall ⊢
  clear h
  induction hall with
  | nil => rfl
  | cons hsp _ ih => rw [List.map_cons, ih, (classifyStem_spec hsp).1]

theorem classifyStem_of_mem {sp : StemPlan}
    (hsp : sp ∈ plan) : classifyStem lib tree sp.stem = .ok sp := by
  obtain ⟨stem, -, hclassify⟩ := forall₂_exists_mem (planMigration_eq_ok_iff.mp h).flip hsp
  rw [(classifyStem_spec hclassify).1]
  exact hclassify

theorem nodup_stems_of_planMigration : (plan.map StemPlan.stem).Nodup := by
  rw [stems_of_planMigration h]
  cases stems with
  | none => exact nodup_discoverAllStems tree
  | some stems => exact (nodup_discoverAllStems tree).filter _

omit h

end

/-! ## Rows -/

variable {C T : Type} {lib : Library C T}

variable {docs : List DocumentRow} {row : DocumentRow}

theorem convertArticleRows_ids {isDecimal : Char → Bool} {seen : List String}
    {rows : List DocumentRow} (h : convertArticleRows isDecimal seen rows = .ok docs) :
    (docs.map (fun doc => pyStr doc.documentId)).Nodup
      ∧ ∀ doc ∈ docs, pyStr doc.documentId ∉ seen := by
  induction rows generalizing seen docs with
  | nil =>
    cases h
    exact ⟨List.nodup_nil, by simp⟩
  | cons row rows ih =>
    obtain ⟨doc, -, h⟩ := bind_eq_ok.mp h
    dsimp only at h
    split at h
    · obtain ⟨_, hthrow, -⟩ := bind_eq_ok.mp h
      cases hthrow
    rename_i hnew
    obtain ⟨docs', hdocs, h⟩ := bind_eq_ok.mp h
    cases h
    obtain ⟨hnodup, hunseen⟩ := ih hdocs
    constructor
    · rw [List.map_cons, List.nodup_cons]
      refine ⟨fun hmem => ?_, hnodup⟩
      obtain ⟨doc', hdoc', heq⟩ := List.mem_map.mp hmem
      exact hunseen doc' hdoc' (heq ▸ List.mem_cons_self)
    · intro doc' hdoc'
      rcases List.mem_cons.mp hdoc' with rfl | hdoc'
      · exact hnew
      · exact fun hmem => hunseen doc' hdoc' (List.mem_cons_of_mem _ hmem)

theorem nodup_ids_of_build {isDecimal : Char → Bool} {schema : Schema} {table : DocumentTable}
    (h : buildWikipediaDocumentTable isDecimal schema table = .ok docs) :
    (docs.map (fun doc => pyStr doc.documentId)).Nodup := by
  obtain ⟨_, -, h⟩ := bind_eq_ok.mp h
  dsimp only at h
  split at h
  · cases h
    exact List.nodup_nil
  split at h
  · obtain ⟨_, hthrow, -⟩ := bind_eq_ok.mp h
    cases hthrow
  obtain ⟨converted, hconverted, h⟩ := bind_eq_ok.mp h
  cases h
  have hperm := (List.mergeSort_perm converted
    (fun a b => pyStr a.documentId ≤ pyStr b.documentId)).map (fun doc => pyStr doc.documentId)
  exact hperm.nodup_iff.mpr (convertArticleRows_ids hconverted).1

theorem assertCanonicalPreservesLegacy_self {docs : List DocumentRow}
    (h : (docs.map (fun doc => pyStr doc.documentId)).Nodup) :
    assertCanonicalPreservesLegacy docs docs = .ok () := by
  unfold assertCanonicalPreservesLegacy
  rw [Dict.build_of_nodup h, if_neg (not_not.mpr rfl)]
  refine forM_eq_ok_iff.mpr fun row hrow => if_pos ?_
  refine List.find?_eq_some_iff_append.mpr ?_
  obtain ⟨before, after, rfl⟩ := List.append_of_mem hrow
  refine ⟨by simp, before, after, rfl, fun other hother => ?_⟩
  -- an earlier row has another identifier
  rw [List.map_append, List.nodup_append] at h
  have hne := h.2.2 _ (List.mem_map_of_mem hother) _
    (List.mem_map_of_mem (List.mem_cons_self : row ∈ row :: after))
  simpa using hne

theorem mem_sharedColumns {legacy canonical : Schema} {column : String} :
    column ∈ sharedColumns legacy canonical
      ↔ column ∈ legacy.map Column.name ∧ column ∈ canonical.map Column.name
        ∧ column ≠ "document_id" := by
  rw [sharedColumns, (List.perm_insertionSort _ _).mem_iff, List.mem_eraseDups, List.mem_filter,
    decide_eq_true_iff]

theorem cells_of_validateSharedRow {stem : String} {columns : List String}
    {legacyRow : Option DocumentRow} (h : validateSharedRow stem columns legacyRow row = .ok ()) :
    ∃ found, legacyRow = some found ∧ ∀ column ∈ columns, cell row column = cell found column := by
  unfold validateSharedRow at h
  split at h
  · cases h
  rename_i found
  split at h
  · rename_i hnone
    refine ⟨found, rfl, fun column hcolumn => ?_⟩
    have hsame : cell found column = cell row column := by
      simpa using List.find?_eq_none.mp hnone column hcolumn
    exact hsame.symm
  · cases h

theorem ids_of_validateSharedIdentities {legacyIds canonicalIds : List (Option String)}
    {stem : String} (h : validateSharedIdentities lib legacyIds canonicalIds stem = .ok ()) :
    legacyIds.Nodup ∧ ∀ id ∈ legacyIds, id ∈ canonicalIds := by
  unfold validateSharedIdentities at h
  dsimp only at h
  split at h
  · cases h
  split at h
  · cases h
  rename_i hnodup
  split at h
  · rename_i hdiff
    refine ⟨not_not.mp hnodup, fun id hid => ?_⟩
    by_contra hmissing
    have hmem : id ∈ legacyIds.filter (fun id => id ∉ canonicalIds) :=
      List.mem_filter.mpr ⟨hid, decide_eq_true hmissing⟩
    rw [(List.append_eq_nil_iff.mp hdiff).1] at hmem
    cases hmem
  · split at h <;> cases h

/-- **A legacy row is still there after the upgrade**, with its identifier and all shared values. -/
theorem exists_canonical_row {legacy canonical : DocumentTable} {stem : String}
    (h : checkSharedValues lib legacy canonical stem = .ok ()) (hrow : row ∈ legacy.rows) :
    ∃ row' ∈ canonical.rows, row'.documentId = row.documentId
      ∧ ∀ column ∈ sharedColumns legacy.schema canonical.schema,
        cell row' column = cell row column := by
  obtain ⟨⟨⟩, hids, hrows⟩ := bind_eq_ok.mp h
  obtain ⟨hnodup, hsubset⟩ := ids_of_validateSharedIdentities hids
  have hid := hsubset _ (List.mem_map_of_mem hrow)
  -- some row of the canonical dictionary has the identifier
  obtain ⟨row', hrow', hsame⟩ := List.mem_map.mp (Dict.mem_keys_build.mpr hid)
  have hchecked := forM_eq_ok_iff.mp hrows row' ((List.perm_insertionSort _ _).mem_iff.mpr hrow')
  obtain ⟨found, hfound, hcells⟩ := cells_of_validateSharedRow hchecked
  -- and the legacy dictionary has this row only
  have hlegacy : found = row := by
    have hin := List.mem_of_find?_eq_some hfound
    have hkey : found.documentId = row'.documentId := by simpa using List.find?_some hfound
    rw [Dict.build_of_nodup hnodup] at hin
    exact Dict.functional_of_nodup hnodup found hin row hrow (hkey.trans hsame)
  exact ⟨row', (Dict.mem_build_iff.mp hrow').mem, hsame, hlegacy ▸ hcells⟩

theorem documentColumns_subset : ∀ column ∈ documentColumns,
    column ∈ canonicalSchema.map Column.name := by
  decide +kernel

theorem exists_same_cells {legacy canonical : DocumentTable} {stem : String}
    (h : checkSharedValues lib legacy canonical stem = .ok ())
    (hlegacy : legacy.schema = documentSchema) (hcanonical : canonical.schema = canonicalSchema)
    (hrow : row ∈ legacy.rows) :
    ∃ row' ∈ canonical.rows, ∀ column ∈ legacy.schema.map Column.name,
      cell row' column = cell row column := by
  obtain ⟨row', hrow', hid, hcells⟩ := exists_canonical_row h hrow
  refine ⟨row', hrow', fun column hcolumn => ?_⟩
  by_cases hdocument : column = "document_id"
  · rw [hdocument]
    exact congrArg (Option.map Sum.inl) hid
  · refine hcells column (mem_sharedColumns.mpr ⟨hcolumn, ?_, hdocument⟩)
    rw [hcanonical]
    refine documentColumns_subset column ?_
    rw [hlegacy, documentSchema, List.map_map] at hcolumn
    simpa using hcolumn

end OsmPolygonWikidata.Augmentation.DocumentMigration
