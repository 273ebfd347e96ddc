import OsmPolygonWikidata.V1Index.InMemory
import OsmPolygonWikidata.Augmentation.ExistingResults

/-! # Retiring the legacy articles of a region

`augmentation/wikipedia_retirement.py`. `prepare_local_retirement` checks that the canonical
documents have every converted legacy row and every referenced document, and repoints the two
manifests; `finalize_local_retirement` then deletes the legacy table. A manifest is replaced in one
step.

Between any two steps the legacy rows are in one of the two tables, and the region stays current as
long as the canonical documents are inside the processed directory (`retirement_safe`). The currency
check rejects a recorded path that a symbolic link leads elsewhere, and the retirement does not look:
`repointed_outside` is a region that loses its currency.
-/

namespace OsmPolygonWikidata.Augmentation

open Durable Durable.Prog Python
open V1Index (DocumentRow ConversionError wikipediaDocumentFromArticleRow)

/-! ## The conversion of a legacy table -/

inductive ArrowType where
  | string
  | int64
  | float64
  | bool
  | other (name : String)
  deriving DecidableEq

/-- A column of a Parquet schema. -/
structure Column where
  name : String
  type : ArrowType
  description : Option String
  deriving DecidableEq

abbrev Schema := List Column

/-- The contents of a table of articles or documents. -/
structure DocumentTable where
  schema : Schema
  rows : List DocumentRow
  deriving DecidableEq

/-- `WikipediaDocumentConversionError`, for a table. -/
inductive TableError where
  | duplicateColumns
  | extraColumns (names : List String)
  | missingColumns (names : List String)
  | columnOrder
  | columnType (name : String)
  | columnMetadata (name : String)
  | duplicateArticleIds
  | row (error : ConversionError)
  | duplicateDocumentId (documentId : String)
  deriving DecidableEq

/-- `wikipedia_document_schema`: the article columns with two inserted. -/
def wikipediaDocumentSchema (articleSchema : Schema) : Schema :=
  ⟨"document_id", .string, some ("Deterministic document identifier "
    ++ "(`<wikidata>:<project>:<language>:<page_id>:<revision_id>`).")⟩
  :: articleSchema.take 2
  ++ ⟨"project", .string, some "Wiki project name: always `wikipedia` for this table."⟩
  :: articleSchema.drop 2

def validateColumnFields : Schema → Schema → Except TableError Unit
  | actual :: actuals, expected :: expecteds => do
    if actual.type ≠ expected.type then throw (.columnType expected.name)
    if actual.description ≠ expected.description then throw (.columnMetadata expected.name)
    validateColumnFields actuals expecteds
  | _, _ => .ok ()

def validateArticleTableSchema (actual expected : Schema) : Except TableError Unit := do
  let names := actual.map Column.name
  let expectedNames := expected.map Column.name
  if ¬ names.Nodup then throw .duplicateColumns
  let extra := names.filter (fun name => name ∉ expectedNames)
  if extra ≠ [] then throw (.extraColumns extra)
  let missing := expectedNames.filter (fun name => name ∉ names)
  if missing ≠ [] then throw (.missingColumns missing)
  if names ≠ expectedNames then throw .columnOrder
  validateColumnFields actual expected

def convertArticleRows (isDecimal : Char → Bool) :
    List String → List DocumentRow → Except TableError (List DocumentRow)
  | _, [] => .ok []
  | seen, row :: rows => do
    let doc ← (wikipediaDocumentFromArticleRow isDecimal row).mapError .row
    if pyStr doc.documentId ∈ seen then throw (.duplicateDocumentId (pyStr doc.documentId))
    let docs ← convertArticleRows isDecimal (pyStr doc.documentId :: seen) rows
    return doc :: docs

def buildWikipediaDocumentTable (isDecimal : Char → Bool) (articleSchema : Schema)
    (table : DocumentTable) : Except TableError (List DocumentRow) := do
  validateArticleTableSchema table.schema articleSchema
  if table.rows = [] then return []
  if ¬ (table.rows.map (fun row => row.payload.articleId)).Nodup then throw .duplicateArticleIds
  let docs ← convertArticleRows isDecimal [] table.rows
  return docs.mergeSort (fun a b => pyStr a.documentId ≤ pyStr b.documentId)

theorem mem_convertArticleRows {isDecimal : Char → Bool} {seen : List String}
    {rows docs : List DocumentRow} (h : convertArticleRows isDecimal seen rows = .ok docs) :
    ∀ row ∈ rows, ∃ doc ∈ docs, wikipediaDocumentFromArticleRow isDecimal row = .ok doc := by
  induction rows generalizing seen docs with
  | nil => simp
  | cons row rows ih =>
    obtain ⟨doc, hdoc, h⟩ := bind_eq_ok.mp h
    dsimp only at h
    split at h
    · obtain ⟨_, hthrow, -⟩ := bind_eq_ok.mp h
      cases hthrow
    obtain ⟨docs', hdocs, h⟩ := bind_eq_ok.mp h
    cases h
    intro row' hrow'
    rcases List.mem_cons.mp hrow' with rfl | hrow'
    · exact ⟨doc, by simp, mapError_eq_ok.mp hdoc⟩
    · obtain ⟨doc', hdoc', hconv⟩ := ih hdocs row' hrow'
      exact ⟨doc', by simp [hdoc'], hconv⟩

theorem mem_buildWikipediaDocumentTable {isDecimal : Char → Bool} {articleSchema : Schema}
    {table : DocumentTable} {docs : List DocumentRow}
    (h : buildWikipediaDocumentTable isDecimal articleSchema table = .ok docs) :
    ∀ row ∈ table.rows, ∃ doc ∈ docs, wikipediaDocumentFromArticleRow isDecimal row = .ok doc := by
  obtain ⟨_, -, h⟩ := bind_eq_ok.mp h
  dsimp only at h
  split at h
  · rename_i hempty
    simp [hempty]
  split at h
  · obtain ⟨_, hthrow, -⟩ := bind_eq_ok.mp h
    cases hthrow
  obtain ⟨converted, hconverted, h⟩ := bind_eq_ok.mp h
  cases h
  intro row hrow
  obtain ⟨doc, hdoc, hconv⟩ := mem_convertArticleRows hconverted row hrow
  exact ⟨doc, List.mem_mergeSort.mpr hdoc, hconv⟩

/-! ## The checks -/

inductive MigrationError where
  | duplicateDocumentId
  | notPreserved (documentId : String)
  | noValidCanonicalDocument
  | notSafeToRetire (error : MigrationError)
  | unresolvedLinks
  | unresolvedSections
  deriving DecidableEq

inductive RetirementError where
  | migration (error : MigrationError)
  | conversion (error : TableError)
  | check (error : CheckError)
  deriving DecidableEq

/-- The reference columns of a link table of either schema. -/
inductive LinkTable where
  | articles (articleIds : List (Option String))
  | documents (references : List (Option String × Option String))

/-- What the retirement reads: the article schema, and the tables in a file. -/
structure Readers (C : Type) extends Surroundings C where
  articleSchema : Schema
  isDecimal : Char → Bool
  readTable : C → Except CheckError DocumentTable
  readLinks : C → Except CheckError LinkTable
  readSections : C → Except CheckError (List (Option String))

def assertCanonicalPreservesLegacy (canonical expected : List DocumentRow) :
    Except MigrationError Unit :=
  let canonicalById := Dict.build (fun row => pyStr row.documentId) canonical
  if canonicalById.length ≠ canonical.length then .error .duplicateDocumentId
  else expected.forM (fun row =>
    if canonicalById.find? (fun row' => pyStr row'.documentId = pyStr row.documentId) = some row then
      .ok ()
    else
      .error (.notPreserved (pyStr row.documentId)))

variable {C : Type} (env : Readers C)

def assertLegacyRowsPreserved (canonical legacy : C) : Except RetirementError Unit := do
  let canonicalTable ← (env.readTable canonical).mapError .check
  let legacyTable ← (env.readTable legacy).mapError .check
  let expected ← (buildWikipediaDocumentTable env.isDecimal env.articleSchema legacyTable).mapError
    .conversion
  (assertCanonicalPreservesLegacy canonicalTable.rows expected).mapError
    (fun error => .migration (.notSafeToRetire error))

def assertLinkReferencesResolve (links : Option C) (articleIds documentIds : List (Option String)) :
    Except RetirementError Unit :=
  match links with
  | none => .ok ()
  | some c => do
    let unresolved ← (env.readLinks c).mapError RetirementError.check
    let found := match unresolved with
      | .articles ids => ids.any (fun id => id ∉ articleIds)
      | .documents references => references.any
          (fun reference => reference.2 = some "wikipedia" && reference.1 ∉ documentIds)
    if found then throw (.migration .unresolvedLinks)

def assertSectionReferencesResolve (sections : Option C) (documentIds : List (Option String)) :
    Except RetirementError Unit :=
  match sections with
  | none => .ok ()
  | some c => do
    let ids ← (env.readSections c).mapError RetirementError.check
    if ids.any (fun id => id ∉ documentIds) then throw (.migration .unresolvedSections)

def assertReferencesResolve (r : Region C) (canonical : C) : Except RetirementError Unit := do
  let documents ← (env.readTable canonical).mapError .check
  let articleIds := documents.rows.map (fun row => row.payload.articleId)
  let documentIds := documents.rows.map (fun row => row.documentId)
  assertLinkReferencesResolve env (r.tables .links) articleIds documentIds
  assertSectionReferencesResolve env (r.tables .wikipediaSections) documentIds

/-- `_validate_retirement_inputs`. It returns the canonical file. -/
def validateRetirementInputs (r : Region C) : Except RetirementError C :=
  match r.tables .wikipediaDocuments with
  | none => .error (.migration .noValidCanonicalDocument)
  | some canonical => do
    let table ← (env.readTable canonical).mapError RetirementError.check
    if table.schema ≠ wikipediaDocumentSchema env.articleSchema then
      throw (.migration .noValidCanonicalDocument)
    match r.tables .articles with
    | none => pure ()
    | some legacy => assertLegacyRowsPreserved env canonical legacy
    assertReferencesResolve env r canonical
    return canonical

/-! ## The steps -/

/-- A check that can raise. -/
def check {A : Type} : Except RetirementError A → Prog (Region C) RetirementError A
  | .ok a => ret a
  | .error e => raise e

/-- The entry of the region in `processed_pbfs.json` points to the canonical documents. -/
def repointProcessed (fields : List (String × Json)) : List (String × Json) :=
  setField "wikipedia_documents_path" (.string ("wikipedia/documents/" ++ env.stem ++ ".parquet"))
    (popField "articles_path" fields)

def updateProcessedManifest : Prog (Region C) RetirementError Unit := do
  let r ← get
  if r.processedPbfs.isAbsent then return ()
  let payload ← check (r.processedPbfs.load.mapError .check)
  let entry ← check ((payload.get env.pbfKey).mapError .check)
  match payload, entry with
  | .object entries, some (.object fields) =>
    step (fun r => { r with
      processedPbfs := .json (.object
        (setField env.pbfKey (.object (repointProcessed env fields)) entries)) })
  | _, _ => return ()

/-- The core hashes with the canonical documents in the place of the legacy articles. -/
def repointHashes (canonical : C) (hashes : List (String × Json)) : List (String × Json) :=
  setField (env.path .wikipediaDocuments) (.string (env.sha256File canonical))
    (popField (env.path .articles) hashes)

def updateAugmentationManifest (canonical : C) : Prog (Region C) RetirementError Unit := do
  let r ← get
  if r.augmentation.isAbsent then return ()
  let payload ← check (r.augmentation.load.mapError .check)
  let entry ← check ((payload.get env.stem).mapError .check)
  match payload, entry with
  | .object entries, some (.object fields) =>
    match fields.lookup "core_hashes" with
    | some (.object hashes) =>
      step (fun r => { r with
        augmentation := .json (.object (setField env.stem (.object
          (setField "core_hashes" (.object (repointHashes env canonical hashes)) fields))
          entries)) })
    | _ => return ()
  | _, _ => return ()

def prepareLocalRetirement : Prog (Region C) RetirementError Unit := do
  let r ← get
  let canonical ← check (validateRetirementInputs env r)
  updateProcessedManifest env
  updateAugmentationManifest env canonical

/-- `legacy.unlink()`. -/
def Region.unlinkArticles (r : Region C) : Region C :=
  { r with tables := Function.update r.tables .articles none }

theorem unlinkArticles_articles (r : Region C) : r.unlinkArticles.tables .articles = none := by
  simp [Region.unlinkArticles]

variable {t : Table}

theorem unlinkArticles_of_ne (ht : t ≠ .articles) (r : Region C) :
    r.unlinkArticles.tables t = r.tables t :=
  Function.update_of_ne ht _ _

def finalizeLocalRetirement : Prog (Region C) RetirementError Unit := do
  let r ← get
  if (r.tables .articles).isNone then return ()
  prepareLocalRetirement env
  step Region.unlinkArticles

/-! ## The legacy rows -/

variable {env}

variable (env) in
/-- The row is in the canonical file, in converted form. -/
def Converted (row : DocumentRow) (canonical : C) : Prop :=
  ∃ doc table, wikipediaDocumentFromArticleRow env.isDecimal row = .ok doc
    ∧ env.readTable canonical = .ok table ∧ doc ∈ table.rows

theorem mem_of_assertCanonicalPreservesLegacy {canonical expected : List DocumentRow}
    (h : assertCanonicalPreservesLegacy canonical expected = .ok ()) :
    ∀ row ∈ expected, row ∈ canonical := by
  unfold assertCanonicalPreservesLegacy at h
  dsimp only at h
  split at h
  · cases h
  clear * - h
  induction expected with
  | nil => simp
  | cons row expected ih =>
    obtain ⟨⟨⟩, hrow, hrest⟩ := bind_eq_ok.mp h
    intro row' hrow'
    rcases List.mem_cons.mp hrow' with rfl | hrow'
    · dsimp only at hrow
      split at hrow
      · rename_i hfind
        exact (Dict.mem_build_iff.mp (List.mem_of_find?_eq_some hfind)).mem
      · cases hrow
    · exact ih hrest row' hrow'

variable {r : Region C}

variable {canonical : C} {fields entries : List (String × Json)} {s : Region C}

theorem of_validateRetirementInputs (h : validateRetirementInputs env r = .ok canonical) :
    r.tables .wikipediaDocuments = some canonical
      ∧ ∀ legacy table, r.tables .articles = some legacy → env.readTable legacy = .ok table →
        ∀ row ∈ table.rows, Converted env row canonical := by
  unfold validateRetirementInputs at h
  split at h
  · cases h
  rename_i canonical' hcanonical
  obtain ⟨table, htable, h⟩ := bind_eq_ok.mp h
  dsimp only at h
  split at h
  · obtain ⟨_, hthrow, -⟩ := bind_eq_ok.mp h
    cases hthrow
  cases hlegacy : r.tables .articles with
  | none =>
    simp only [hlegacy] at h
    obtain ⟨_, -, h⟩ := bind_eq_ok.mp h
    cases h
    exact ⟨hcanonical, by simp⟩
  | some legacy =>
    simp only [hlegacy] at h
    obtain ⟨⟨⟩, hpreserved, h⟩ := bind_eq_ok.mp h
    obtain ⟨_, -, h⟩ := bind_eq_ok.mp h
    cases h
    refine ⟨hcanonical, fun legacy' legacyTable hlegacy' hlegacyTable row hrow => ?_⟩
    cases hlegacy'
    obtain ⟨canonicalTable, hcanonicalTable, hrest⟩ := bind_eq_ok.mp hpreserved
    obtain ⟨legacyTable', hlegacyTable', hrest'⟩ := bind_eq_ok.mp hrest
    obtain ⟨expected, hexpected, hassert⟩ := bind_eq_ok.mp hrest'
    rw [mapError_eq_ok] at hcanonicalTable hlegacyTable' hexpected hassert
    rw [hlegacyTable] at hlegacyTable'
    cases hlegacyTable'
    obtain ⟨doc, hdoc, hconv⟩ := mem_buildWikipediaDocumentTable hexpected row hrow
    exact ⟨doc, canonicalTable, hconv, hcanonicalTable,
      mem_of_assertCanonicalPreservesLegacy hassert doc hdoc⟩

/-! ## Currency -/

theorem linkArtifactsAreCurrent_congr {r r' : Region C} {fields' : List (String × Json)}
    (hschema : fields'.lookup "link_schema_version" = fields.lookup "link_schema_version")
    (hhash : fields'.lookup "link_artifact_sha256" = fields.lookup "link_artifact_sha256")
    (htable : r'.tables .links = r.tables .links)
    (hprocessed : ∀ links, processedLinkManifestIsCurrent env.toSurroundings r' links
      = processedLinkManifestIsCurrent env.toSurroundings r links) :
    linkArtifactsAreCurrent env.toSurroundings fields' r'
      = linkArtifactsAreCurrent env.toSurroundings fields r := by
  unfold linkArtifactsAreCurrent linkArtifactFileIsCurrent
  rw [hschema, hhash, htable]
  cases r.tables .links with
  | none => rfl
  | some links => simp only [hprocessed]

theorem lookup_repointProcessed {key : String} (hdocuments : key ≠ "wikipedia_documents_path")
    (harticles : key ≠ "articles_path") (fields : List (String × Json)) :
    (repointProcessed env fields).lookup key = fields.lookup key := by
  rw [repointProcessed, lookup_setField_of_ne hdocuments, lookup_popField_of_ne harticles]

theorem processedLinkManifestIsCurrent_repoint
    (hmanifest : r.processedPbfs = .json (.object entries))
    (hentry : entries.lookup env.pbfKey = some (.object fields)) (links : C) :
    processedLinkManifestIsCurrent env.toSurroundings
        { r with processedPbfs := .json (.object
          (setField env.pbfKey (.object (repointProcessed env fields)) entries)) } links
      = processedLinkManifestIsCurrent env.toSurroundings r links := by
  have hversion : (repointProcessed env fields).lookup "link_schema_version"
      = fields.lookup "link_schema_version" :=
    lookup_repointProcessed (by decide) (by decide) fields
  have hcount : (repointProcessed env fields).lookup "link_count" = fields.lookup "link_count" :=
    lookup_repointProcessed (by decide) (by decide) fields
  simp only [processedLinkManifestIsCurrent, lookup_setField_self, hmanifest, hentry, Json.get,
    hversion, hcount]

theorem setField_of_notMem {key : String} (h : key ∉ fields.map Prod.fst) (value : Json) :
    setField key value fields = fields ++ [(key, value)] := by
  unfold setField
  induction fields with
  | nil => rfl
  | cons field fields ih =>
    rw [List.map_cons, List.mem_cons, not_or] at h
    rw [Dict.put, if_neg (fun heq => h.1 heq.symm), ih h.2]
    rfl

theorem Records.repoint {hashes : List (String × Json)} (h : Records env.toSurroundings r hashes t)
    (hcanonical : r.tables .wikipediaDocuments = some canonical)
    (hinside : env.resolvesInside .wikipediaDocuments = true) :
    Records env.toSurroundings r (repointHashes env canonical hashes) .wikipediaDocuments := by
  have hpa : env.path .polygons ≠ env.path .articles :=
    fun h => by cases path_inj (by decide) (by decide) h
  have hpd : env.path .polygons ≠ env.path .wikipediaDocuments :=
    fun h => by cases path_inj (by decide) (by decide) h
  have had : env.path .articles ≠ env.path .wikipediaDocuments :=
    fun h => by cases path_inj (by decide) (by decide) h
  refine ⟨Or.inr rfl, ⟨h.inside.1, hinside⟩, ?_⟩
  obtain ⟨c, d, hc, hd, hperm⟩ := h.entries
  refine ⟨c, canonical, hc, hcanonical, ?_⟩
  unfold repointHashes
  rcases h.document with rfl | rfl
  · -- the legacy entry is removed and the canonical one added
    have hpop : popField (env.path .articles) hashes
        = [(env.path .polygons, .string (env.sha256File c))] := by
      rw [popField, ← List.perm_singleton]
      refine (hperm.filter _).trans ?_
      simp [hpa]
    rw [hpop, setField_of_notMem (by simpa using hpd.symm)]
    exact List.Perm.refl _
  · -- the canonical entry is there already, with the same hash
    rw [hcanonical, Option.some.injEq] at hd
    subst hd
    have hpop : popField (env.path .articles) hashes = hashes := by
      rw [popField, List.filter_eq_self]
      intro e he
      rcases List.mem_pair.mp (hperm.mem_iff.mp he) with rfl | rfl
      · simp [hpa]
      · simp [had.symm]
    rw [hpop]
    rcases List.perm_pair.mp hperm with rfl | rfl
    · simp [setField, Dict.put, hpd]
    · simp [setField, Dict.put, List.Perm.swap]

variable (env) in
/-- What the augmentation manifest says about the region, whatever else it says. -/
def CurrentAs (r : Region C) (t : Table) : Prop :=
  (∀ t ∈ sidecarPaths, (r.tables t).isSome = true)
    ∧ ∃ entries fields hashes, CurrentEntry env.toSurroundings r entries fields hashes t

theorem CurrentAs.repointProcessed (h : CurrentAs env r t)
    (hmanifest : r.processedPbfs = .json (.object entries))
    (hentry : entries.lookup env.pbfKey = some (.object fields)) :
    CurrentAs env { r with processedPbfs := .json (.object
      (setField env.pbfKey (.object (Augmentation.repointProcessed env fields)) entries)) } t := by
  obtain ⟨hsidecars, entries', fields', hashes, hcurrent⟩ := h
  refine ⟨hsidecars, entries', fields', hashes, hcurrent.manifest, hcurrent.entry,
    hcurrent.contract, ?_, hcurrent.core, ?_⟩
  · refine (linkArtifactsAreCurrent_congr rfl rfl ?_ ?_).trans hcurrent.links
    · rfl
    · exact processedLinkManifestIsCurrent_repoint hmanifest hentry
  · exact ⟨hcurrent.records.document, hcurrent.records.inside, hcurrent.records.entries⟩

theorem CurrentEntry.repointHashes {hashes : List (String × Json)}
    (h : CurrentEntry env.toSurroundings r entries fields hashes t)
    (hcanonical : r.tables .wikipediaDocuments = some canonical)
    (hinside : env.resolvesInside .wikipediaDocuments = true) :
    CurrentEntry env.toSurroundings
      { r with augmentation := .json (.object (setField env.stem (.object
        (setField "core_hashes" (.object (Augmentation.repointHashes env canonical hashes)) fields))
        entries)) }
      (setField env.stem (.object
        (setField "core_hashes" (.object (Augmentation.repointHashes env canonical hashes)) fields))
        entries)
      (setField "core_hashes" (.object (Augmentation.repointHashes env canonical hashes)) fields)
      (Augmentation.repointHashes env canonical hashes) .wikipediaDocuments := by
  have hrecords := h.records.repoint hcanonical hinside
  refine ⟨rfl, lookup_setField_self _ _ _, ?_, ?_, lookup_setField_self _ _ _, ?_⟩
  · rw [lookup_setField_of_ne (by decide)]
    exact h.contract
  · refine (linkArtifactsAreCurrent_congr ?_ ?_ rfl (fun _ => rfl)).trans h.links
    · exact lookup_setField_of_ne (by decide) _ _
    · exact lookup_setField_of_ne (by decide) _ _
  · exact ⟨hrecords.document, hrecords.inside, hrecords.entries⟩

theorem CurrentAs.unlinkArticles (h : CurrentAs env r .wikipediaDocuments) :
    CurrentAs env r.unlinkArticles .wikipediaDocuments := by
  obtain ⟨hsidecars, entries, fields, hashes, hcurrent⟩ := h
  refine ⟨fun t ht => ?_, entries, fields, hashes, hcurrent.manifest, hcurrent.entry,
    hcurrent.contract, ?_, hcurrent.core, hcurrent.records.document, hcurrent.records.inside, ?_⟩
  · rw [unlinkArticles_of_ne (by rintro rfl; simp [sidecarPaths] at ht)]
    exact hsidecars t ht
  · refine (linkArtifactsAreCurrent_congr rfl rfl ?_ (fun _ => rfl)).trans hcurrent.links
    exact unlinkArticles_of_ne (by decide) r
  · rw [unlinkArticles_of_ne (by decide), unlinkArticles_of_ne (by decide)]
    exact hcurrent.records.entries

/-! ## Every stop -/

theorem wp_check {A : Type} {x : Except RetirementError A} {Q : A → Region C → Prop}
    {E : RetirementError → Region C → Prop} {K : Region C → Prop}
    (hok : ∀ a, x = .ok a → Q a r) (herror : ∀ e, x = .error e → E e r) :
    wp (check x) Q E K r := by
  cases x with
  | ok a => exact hok a rfl
  | error e => exact herror e rfl

variable (env) in
/-- The tables are those of `r`, and the region is current. -/
def Untouched (r s : Region C) : Prop := s.tables = r.tables ∧ ∃ t, CurrentAs env s t

theorem updateProcessedManifest_wp (h : CurrentAs env r t) :
    wp (updateProcessedManifest env) (fun _ s => s.tables = r.tables ∧ CurrentAs env s t)
      (fun _ s => Untouched env r s) (Untouched env r) r := by
  unfold updateProcessedManifest
  simp only [wp_bind, wp_get, wp_ite]
  split
  · exact ⟨rfl, h⟩
  refine wp_check (fun payload hpayload => ?_) (fun _ _ => ⟨rfl, t, h⟩)
  refine wp_check (fun entry hentry => ?_) (fun _ _ => ⟨rfl, t, h⟩)
  split
  · rename_i entries fields
    rw [mapError_eq_ok] at hpayload hentry
    have hmanifest : r.processedPbfs = .json (.object entries) := by
      cases hp : r.processedPbfs with
      | json value => simpa [hp, ManifestFile.load] using hpayload
      | _ => simp [hp, ManifestFile.load] at hpayload
    exact ⟨⟨rfl, t, h⟩, rfl, h.repointProcessed hmanifest (Except.ok.inj hentry)⟩
  · exact ⟨rfl, h⟩

theorem updateAugmentationManifest_wp (h : CurrentAs env r t)
    (hcanonical : r.tables .wikipediaDocuments = some canonical) :
    wp (updateAugmentationManifest env canonical)
      (fun _ s => s.tables = r.tables ∧ (env.resolvesInside .wikipediaDocuments = true →
        CurrentAs env s .wikipediaDocuments))
      (fun _ _ => False) (fun s => s = r) r := by
  obtain ⟨hsidecars, entries, fields, hashes, hcurrent⟩ := h
  have hload : r.augmentation.load = .ok (.object entries) := by rw [hcurrent.manifest]; rfl
  have hpresent : r.augmentation.isAbsent = false := by rw [hcurrent.manifest]; rfl
  have hget : (Json.object entries).get env.stem = .ok (some (.object fields)) := by
    rw [Json.get, hcurrent.entry]
  unfold updateAugmentationManifest
  simp only [wp_bind, wp_get, hpresent, hload, Except.mapError, check, wp_ret, hget,
    hcurrent.core, wp_step, Bool.false_eq_true, if_false]
  exact ⟨trivial, trivial, fun hinside => ⟨hsidecars, _, _, _, hcurrent.repointHashes hcanonical hinside⟩⟩

theorem prepareLocalRetirement_wp (h : CurrentAs env r t) : wp (prepareLocalRetirement env)
      (fun _ s => (s.tables = r.tables ∧ (env.resolvesInside .wikipediaDocuments = true →
        CurrentAs env s .wikipediaDocuments))
        ∧ ∃ canonical, validateRetirementInputs env r = .ok canonical)
      (fun _ s => Untouched env r s) (Untouched env r) r := by
  unfold prepareLocalRetirement
  rw [wp_bind, wp_get, wp_bind]
  refine wp_check (fun canonical hvalid => ?_) (fun _ _ => ⟨rfl, t, h⟩)
  have hcanonical := (of_validateRetirementInputs hvalid).1
  rw [wp_bind]
  refine wp_imp ?_ (updateProcessedManifest_wp h)
  rintro - s ⟨hsame, hs⟩
  have hwp := updateAugmentationManifest_wp hs (by rw [hsame]; exact hcanonical)
  refine wp_mono (fun _ s' hs' => ⟨⟨hs'.1.trans hsame, hs'.2⟩, canonical, hvalid⟩)
    (fun _ _ h => h.elim) (fun s' hs' => ?_) hwp
  rw [hs']
  exact ⟨hsame, t, hs⟩

variable (env) in
/-- What holds of the state `s` in which the retirement of `r` stops. -/
structure Safe (r s : Region C) : Prop where
  current : env.resolvesInside .wikipediaDocuments = true →
    augmentationIsCurrent env.toSurroundings s = .ok true
  rows : ∀ legacy table, r.tables .articles = some legacy → env.readTable legacy = .ok table →
    ∀ row ∈ table.rows, s.tables .articles = some legacy
      ∨ ∃ canonical, s.tables .wikipediaDocuments = some canonical ∧ Converted env row canonical

theorem CurrentAs.current (h : CurrentAs env r t) :
    augmentationIsCurrent env.toSurroundings r = .ok true := by
  obtain ⟨hsidecars, entries, fields, hashes, hcurrent⟩ := h
  exact augmentationIsCurrent_iff.mpr ⟨hsidecars, entries, fields, hashes, t, hcurrent⟩

theorem currentAs_of_current
    (h : augmentationIsCurrent env.toSurroundings r = .ok true) : ∃ t, CurrentAs env r t := by
  obtain ⟨hsidecars, entries, fields, hashes, t, hcurrent⟩ := augmentationIsCurrent_iff.mp h
  exact ⟨t, hsidecars, entries, fields, hashes, hcurrent⟩

theorem safe_of_tables {r : Region C} (htables : s.tables = r.tables)
    (hcurrent : env.resolvesInside .wikipediaDocuments = true → ∃ t, CurrentAs env s t) :
    Safe env r s := by
  refine ⟨fun hinside => ?_, fun legacy table hlegacy _ row _ => Or.inl (by rw [htables, hlegacy])⟩
  obtain ⟨t, ht⟩ := hcurrent hinside
  exact ht.current

theorem Untouched.safe {r : Region C} (h : Untouched env r s) : Safe env r s :=
  safe_of_tables h.1 (fun _ => h.2)

theorem finalizeLocalRetirement_wp (h : CurrentAs env r t) :
    wp (finalizeLocalRetirement env) (fun _ s => Safe env r s) (fun _ s => Safe env r s)
      (Safe env r) r := by
  unfold finalizeLocalRetirement
  simp only [wp_bind, wp_get, wp_ite]
  split
  · exact safe_of_tables rfl (fun _ => ⟨t, h⟩)
  refine wp_mono ?_ (fun _ _ h => h.safe) (fun _ h => h.safe) (prepareLocalRetirement_wp h)
  rintro - s ⟨⟨htables, hcurrent⟩, canonical, hvalid⟩
  obtain ⟨hcanonical, hrows⟩ := of_validateRetirementInputs hvalid
  refine ⟨safe_of_tables htables (fun hinside => ⟨_, hcurrent hinside⟩), ?_⟩
  -- the unlink: the rows are in the canonical file, and the manifest no longer names the legacy one
  refine ⟨fun hinside => (hcurrent hinside).unlinkArticles.current, ?_⟩
  intro legacy table hlegacy htable row hrow
  refine Or.inr ⟨canonical, ?_, hrows legacy table hlegacy htable row hrow⟩
  rw [unlinkArticles_of_ne (by decide), htables, hcanonical]

theorem finalizeLocalRetirement_unlinks {r : Region C}
    (h : run (finalizeLocalRetirement env) r = (.ok (), s)) : s.tables .articles = none := by
  have hwp : wp (finalizeLocalRetirement env) (fun _ s => s.tables .articles = none)
      (fun _ _ => True) (fun _ => True) r := by
    unfold finalizeLocalRetirement
    simp only [wp_bind, wp_get, wp_ite]
    split
    · rename_i hnone
      exact Option.isNone_iff_eq_none.mp hnone
    · refine wp_imp (fun _ s _ => ⟨trivial, ?_⟩) (wp_trivial _ r)
      exact unlinkArticles_articles s
  have := wp_run hwp
  rw [h] at this
  exact this

/-- **Retirement is safe at every step.** Wherever the preparation or the finalization of a current
region stops, every legacy row is still in its file or is converted in the canonical one, and the
region is current if its canonical file is inside the processed directory. A second finalization
changes nothing. -/
theorem retirement_safe (env : Readers C)
    (hcurrent : augmentationIsCurrent env.toSurroundings r = .ok true) :
    (∀ n, Safe env r (exec (prepareLocalRetirement env) n r).state)
      ∧ (∀ n, Safe env r (exec (finalizeLocalRetirement env) n r).state)
      ∧ ∀ s s', run (finalizeLocalRetirement env) s = (.ok (), s') →
        run (finalizeLocalRetirement env) s' = (.ok (), s') := by
  obtain ⟨t, h⟩ := currentAs_of_current hcurrent
  refine ⟨fun n => ?_, fun n => ?_, fun s s' hrun => ?_⟩
  · have hmeets := wp_exec (prepareLocalRetirement_wp h) n
    cases hexec : exec (prepareLocalRetirement env) n r with
    | done a s =>
      rw [hexec] at hmeets
      exact safe_of_tables hmeets.1.1 (fun hinside => ⟨_, hmeets.1.2 hinside⟩)
    | raised e s =>
      rw [hexec] at hmeets
      exact hmeets.safe
    | killed s =>
      rw [hexec] at hmeets
      exact hmeets.safe
  · have hmeets := wp_exec (finalizeLocalRetirement_wp h) n
    cases hexec : exec (finalizeLocalRetirement env) n r <;> rw [hexec] at hmeets <;> exact hmeets
  · have hnone := finalizeLocalRetirement_unlinks hrun
    rw [finalizeLocalRetirement, run_bind_ok (run_get s'), hnone]
    rfl

/-! ## A region and its canonical documents -/

namespace WikipediaRetirement.Example

/-- One legacy article. -/
def article : DocumentRow :=
  ⟨none, some "en", some "Monaco", some 1, some 7, some "Q1",
    ⟨some "Q1:en:1:7", none, some "enwiki", []⟩⟩

/-- Its converted form. -/
def document : DocumentRow :=
  ⟨some "Q1:wikipedia:en:1:7", some "en", some "Monaco", some 1, some 7, some "Q1",
    ⟨some "Q1:en:1:7", some "wikipedia", some "enwiki", []⟩⟩

def articleSchema : Schema := [⟨"article_id", .string, none⟩, ⟨"wikidata", .string, none⟩]

/-- A file is its number: `1` has the legacy articles, `2` the canonical documents. -/
def readTable : Nat → Except CheckError DocumentTable
  | 1 => .ok ⟨articleSchema, [article]⟩
  | 2 => .ok ⟨wikipediaDocumentSchema articleSchema, [document]⟩
  | _ => .error .unreadable

def digit (n : Nat) : Char := if n = 1 then '1' else if n = 2 then '2' else '0'

def sha256File (n : Nat) : String := String.ofList (List.replicate 64 (digit n))

theorem sha256File_hex (n : Nat) : isSha256Hex (sha256File n) = true := by
  unfold sha256File digit
  split
  · decide
  · split <;> decide

/-- The surroundings, in which a symbolic link may lead out of the processed directory. -/
def readers (documentsInside : Bool) : Readers Nat where
  processed := "data/processed"
  stem := "monaco-latest"
  sha256File := sha256File
  sha256File_hex := sha256File_hex
  numRows := fun _ => .ok 1
  resolvesInside := fun t => t ≠ .wikipediaDocuments || documentsInside
  articleSchema := articleSchema
  isDecimal := Char.isDigit
  readTable := readTable
  readLinks := fun _ => .ok (.articles [some "Q1:en:1:7"])
  readSections := fun _ => .ok []

/-- The hashes of the polygons and of the legacy articles are recorded. -/
def region : Region Nat where
  tables := fun t =>
    match t with
    | .articles => some 1
    | .wikipediaDocuments => some 2
    | _ => some 0
  processedPbfs := .absent
  augmentation := .json (.object [("monaco-latest", .object [
    ("contract_version", .string "text-sidecars-v1"),
    ("core_hashes", .object [
      ("data/processed/polygons/monaco-latest.parquet", .string (sha256File 0)),
      ("data/processed/articles/monaco-latest.parquet", .string (sha256File 1))])])])

theorem region_retirement_safe :
    augmentationIsCurrent (readers true).toSurroundings region = .ok true
      ∧ (∀ n, Safe (readers true) region (exec (finalizeLocalRetirement (readers true)) n region).state)
      ∧ (run (finalizeLocalRetirement (readers true)) region).1 = .ok () :=
  have hcurrent : augmentationIsCurrent (readers true).toSurroundings region = .ok true := by
    decide +kernel
  ⟨hcurrent, (retirement_safe (readers true) hcurrent).2.1, by decide +kernel⟩

/-- The canonical file is behind a symbolic link that leads out of the processed directory. -/
theorem repointed_outside : augmentationIsCurrent (readers false).toSurroundings region = .ok true
      ∧ (run (prepareLocalRetirement (readers false)) region).1 = .ok ()
      ∧ augmentationIsCurrent (readers false).toSurroundings
          (run (prepareLocalRetirement (readers false)) region).2 = .ok false := by
  decide +kernel

end WikipediaRetirement.Example

end OsmPolygonWikidata.Augmentation
