import OsmPolygonWikidata.Augmentation.SectionOutline
import OsmPolygonWikidata.Basic.Dict
import OsmPolygonWikidata.Integrity.WikivoyageIntegrity

/-! # Augmenting a region

`augment_region` of `augmentation/orchestrator.py`, with the phases of `augmentation/steps.py` and
the checkpoints of `augmentation/checkpoints.py`. The five tables are written from lists in memory,
the integrity pass takes documents and sections out of two of them again, and the manifest gets the
lengths of the lists.

The client of the remote services is a parameter; each of its calls answers or raises. Progress and
logging are left out, and so are the checkpoints that a run saves: they are removed when it returns.
-/

namespace OsmPolygonWikidata.Orchestrator

open Python

/-! ## Rows -/

/-- `Document`. `data` is the columns that the phases only pass on. -/
structure Document (D : Type) extends SectionOutline.Document where
  contentHash : String
  data : D

abbrev Section := SectionOutline.Section

structure WikidataFact (F : Type) where
  factId : String
  data : F

/-- An entity: the sites of its sitelinks with their titles, where a link has one, and the rest. -/
structure Entity (J : Type) where
  sitelinks : List (String × Option String)
  data : J

/-- Entities by their items. -/
abbrev Entities (J : Type) := List (String × Entity J)

/-- What invalidates the checkpoint of a document. -/
abbrev Identity := String × Int × String

/-! ## The files of a region -/

variable {D J F A E : Type}

/-- The Wikipedia table: documents, articles of the legacy layout, or something else. -/
inductive CoreTable (D A : Type) where
  | documents (rows : List (Document D))
  | articles (rows : List A)
  | unreadable

structure CoreFile (D A : Type) where
  table : CoreTable D A
  bytes : String

/-- The polygons file, as far as it is read: the tags. -/
structure PolygonsFile where
  tags : List (Option String)
  bytes : String

/-- The counts of a manifest entry. -/
structure Counts where
  wikipediaDocuments : Nat
  wikipediaSections : Nat
  wikivoyageDocuments : Nat
  wikivoyageSections : Nat
  wikidataFacts : Nat
  deriving DecidableEq

structure ManifestEntry where
  contractVersion : String
  coreHashes : List (String × String)
  paths : List String
  counts : Counts
  completedAt : String
  rejections : Option Integrity.WikivoyageIntegrityResult

/-- The augmentation manifest, when it can be read. -/
inductive ManifestFile where
  | malformed
  | entries (entries : List (String × ManifestEntry))

/-- The checkpoints of a plan. -/
structure Checkpoints (D J F : Type) where
  entities : Option (List String × Entities J)
  voyageDocuments : Option (String × List (Document D))
  sections : Nat → Option (List Identity × List Section)
  facts : Option (String × List (WikidataFact F))

structure Files (D J F A : Type) where
  canonical : Option (CoreFile D A)
  legacy : Option (CoreFile D A)
  polygons : Option PolygonsFile
  wikipediaSections : Option (List Section)
  wikivoyageDocuments : Option (List (Document D))
  wikivoyageSections : Option (List Section)
  wikidataFacts : Option (List (WikidataFact F))
  manifest : Option ManifestFile
  checkpoints : String → Checkpoints D J F

inductive AugmentError (E : Type) where
  | coreIncomplete (stem : String)
  | coreUnreadable
  | articleRow
  | duplicateArticle
  | unexpectedQid
  | unknownProject (project : String)
  | coreChanged
  | malformedManifest
  | integrity (error : Integrity.IntegrityError)
  | client (error : E)

/-! ## The surroundings -/

/-- The client, `AugmentationClient`. -/
structure Client (D J E : Type) where
  entities : List String → String → Except E (Entities J)
  wikivoyageDocument : String → String × String × String → Except E (Option (Document D))
  parseHtml : String → String → Int → Except E String

/-- What a run takes from its surroundings: the decimal digits, hashes and encodings, the HTML
parser, the conversion of the rows of articles and of the claims of entities, the order in which
the pages of a batch arrive, and the clock. -/
structure Surroundings (D J F A E : Type) where
  stem : String
  processed : String
  decimal : Char → Bool
  sha256 : String → String
  encode : List (Document D) → String
  planKey : List (String × String) → List String → List Identity → String
  entitiesDigest : Entities J → String
  library : SectionOutline.Library
  clean : String → String
  events : String → List SectionParser.Event
  articleId : A → String
  documentFromArticleRow : A → Except (AugmentError E) (Document D)
  wikipediaDocumentFromArticleRow : A → Except (AugmentError E) (Document D)
  factLabelIds : Entities J → List String
  factsForEntities : Entities J → Entities J → List (WikidataFact F)
  completed : List (Document D) → List (Document D)
  completed_perm : ∀ documents, (completed documents).Perm documents
  now : String

variable (env : Surroundings D J F A E)

/-! ## The core tables -/

/-- The two places of the Wikipedia table. -/
inductive CorePath where
  | canonical
  | legacy

def CorePath.directory : CorePath → String
  | .canonical => "wikipedia/documents"
  | .legacy => "articles"

def Surroundings.path (directory : String) : String :=
  env.processed ++ "/" ++ directory ++ "/" ++ env.stem ++ ".parquet"

def Files.core (files : Files D J F A) : CorePath → Option (CoreFile D A)
  | .canonical => files.canonical
  | .legacy => files.legacy

def readSourcePath (files : Files D J F A) : CorePath :=
  match files.canonical, files.legacy with
  | some file, some _ =>
    match file.table with
    | .documents _ => .canonical
    | _ => .legacy
  | some _, none => .canonical
  | none, some _ => .legacy
  | none, none => .canonical

/-- The hashes of the core files that are there. -/
def coreHashes (source : CorePath) (files : Files D J F A) : List (String × String) :=
  (files.core source).toList.map (fun file => (env.path source.directory, env.sha256 file.bytes))
    ++ files.polygons.toList.map (fun file => (env.path "polygons", env.sha256 file.bytes))

def sortById {B : Type} (key : B → String) (rows : List B) : List B :=
  rows.insertionSort (fun a b => key a ≤ key b)

def loadCoreDocuments : CoreTable D A → Except (AugmentError E) (List (Document D))
  | .documents rows => .ok rows
  | .articles rows => rows.mapM env.documentFromArticleRow
  | .unreadable => .error .coreUnreadable

def coreQids (tags : List (Option String)) : List String :=
  sortById id (tags.flatMap (fun tag => qidsFromOsmTag env.decimal (tag.getD ""))).eraseDups

structure CoreInputs (D : Type) where
  wikipediaDocuments : List (Document D)
  qids : List String
  source : CorePath
  coreHashes : List (String × String)

def loadCoreInputs (files : Files D J F A) : Except (AugmentError E) (CoreInputs D) :=
  let source := readSourcePath files
  match files.core source, files.polygons with
  | some file, some polygons => do
    let documents ← loadCoreDocuments env file.table
    return ⟨sortById (fun d => d.documentId) documents, coreQids env polygons.tags, source,
      coreHashes env source files⟩
  | _, _ => .error (.coreIncomplete env.stem)

/-! ## The phases -/

def documentIdentities (documents : List (Document D)) : List Identity :=
  documents.map (fun d => (d.documentId, d.revisionId, d.contentHash))

/-- `load_entities`, of a checkpoint for these items. -/
def loadEntities (checkpoints : Checkpoints D J F) (qids : List String) : Option (Entities J) :=
  checkpoints.entities.bind (fun (saved, entities) =>
    if saved = qids ∧ ∀ entry ∈ entities, entry.1 ∈ qids then some entities else none)

/-- `_load_or_resolve_entities`, where `save_entities` refuses items that were not asked for. -/
def loadOrResolveEntities (client : Client D J E) (checkpoints : Checkpoints D J F)
    (qids : List String) : Except (AugmentError E) (Entities J) :=
  match loadEntities checkpoints qids with
  | some entities => .ok entities
  | none => do
    let entities ← (client.entities qids "sitelinks|claims").mapError .client
    if ∀ entry ∈ entities, entry.1 ∈ qids then return entities else .error .unexpectedQid

def voyageSitelink (sitelink : String × Option String) : Option (String × String × String) :=
  match sitelink.2 with
  | none => none
  | some title =>
    if "wikivoyage".toList.isSuffixOf sitelink.1.toList ∧ title ≠ "" then
      let language := (sitelink.1.toList.take (sitelink.1.length - "wikivoyage".length)).map
        (fun c => if c = '_' then '-' else c)
      some (String.ofList language, sitelink.1, title)
    else none

def discoverWikivoyageSitelinks (entity : Entity J) : List (String × String × String) :=
  (entity.sitelinks.filterMap voyageSitelink).insertionSort
    (fun a b => [a.1, a.2.1, a.2.2] ≤ [b.1, b.2.1, b.2.2])

/-- The links of `fetch_wikivoyage_documents`. -/
def voyageLinks (entities : Entities J) : List (String × String × String × String) :=
  (sortById Prod.fst entities).flatMap (fun entry =>
    (discoverWikivoyageSitelinks entry.2).map (fun link => (entry.1, link)))

def fetchWikivoyageDocuments (client : Client D J E) (entities : Entities J) :
    Except (AugmentError E) (List (Document D)) := do
  let documents ← (voyageLinks entities).mapM (fun item =>
    (client.wikivoyageDocument item.1 item.2).mapError AugmentError.client)
  return sortById (fun d => d.documentId) documents.reduceOption

def loadVoyageDocuments (checkpoints : Checkpoints D J F) (digest : String) :
    Option (List (Document D)) :=
  checkpoints.voyageDocuments.bind (fun (saved, documents) =>
    if saved = digest ∧ (∀ d ∈ documents, d.project = "wikivoyage")
        ∧ (documents.map (fun d => d.documentId)).Nodup then
      some (sortById (fun d => d.documentId) documents)
    else none)

def loadOrFetchVoyageDocuments (client : Client D J E) (checkpoints : Checkpoints D J F)
    (entities : Entities J) : Except (AugmentError E) (List (Document D)) :=
  match loadVoyageDocuments checkpoints (env.entitiesDigest entities) with
  | some documents => .ok documents
  | none => fetchWikivoyageDocuments client entities

/-- `sections_by_project`. -/
structure SectionsByProject where
  wikipedia : List Section
  wikivoyage : List Section

/-- `sections_by_project[project].extend(rows)`. -/
def SectionsByProject.extend (s : SectionsByProject) (project : String) (rows : List Section) :
    Except (AugmentError E) SectionsByProject :=
  if project = "wikipedia" then .ok { s with wikipedia := s.wikipedia ++ rows }
  else if project = "wikivoyage" then .ok { s with wikivoyage := s.wikivoyage ++ rows }
  else .error (.unknownProject project)

def sortSections (rows : List Section) : List Section :=
  rows.insertionSort (fun a b => a.documentId < b.documentId
    ∨ (a.documentId = b.documentId ∧ a.sectionIndex ≤ b.sectionIndex))

def SectionsByProject.sort (s : SectionsByProject) : SectionsByProject :=
  ⟨sortSections s.wikipedia, sortSections s.wikivoyage⟩

def fetchDocumentSectionsBatch (client : Client D J E) (documents : List (Document D)) :
    Except (AugmentError E) SectionsByProject := do
  let sections ← (env.completed documents).foldlM (fun sections document => do
    let html ← (client.parseHtml document.project document.language document.revisionId).mapError
      AugmentError.client
    sections.extend document.project (SectionOutline.parseSections env.library document.toDocument
      env.clean (env.events html))) (⟨[], []⟩ : SectionsByProject)
  return sections.sort

def loadSectionBatch (checkpoints : Checkpoints D J F) (index : Nat) (expected : List Identity) :
    Option (List Section) :=
  (checkpoints.sections index).bind (fun (saved, rows) =>
    if saved = expected ∧ (∀ row ∈ rows, row.documentId ∈ expected.map Prod.fst)
        ∧ (rows.map (fun row => row.sectionId)).Nodup then
      some (sortSections rows)
    else none)

/-- The rows of a batch, read or fetched. -/
def sectionBatch (client : Client D J E) (checkpoints : Checkpoints D J F)
    (batch : List (Document D) × Nat) : Except (AugmentError E) (List Section) :=
  match loadSectionBatch checkpoints batch.2 (documentIdentities batch.1) with
  | some rows => .ok rows
  | none => do
    let fresh ← fetchDocumentSectionsBatch env client batch.1
    return fresh.wikipedia ++ fresh.wikivoyage

def sectionCheckpointBatchSize : Nat := 50

def checkpointedDocumentSections (client : Client D J E) (checkpoints : Checkpoints D J F)
    (documents : List (Document D)) : Except (AugmentError E) SectionsByProject := do
  let sections ← ((documents.toChunks sectionCheckpointBatchSize).zipIdx).foldlM
    (fun sections batch => do
      let rows ← sectionBatch env client checkpoints batch
      rows.foldlM (fun (s : SectionsByProject) row => s.extend row.project [row]) sections)
    (⟨[], []⟩ : SectionsByProject)
  return sections.sort

def loadFacts (checkpoints : Checkpoints D J F) (digest : String) :
    Option (List (WikidataFact F)) :=
  checkpoints.facts.bind (fun (saved, facts) =>
    if saved = digest then some (sortById WikidataFact.factId facts) else none)

/-- `_load_or_build_facts`, with `build_wikidata_facts`. -/
def loadOrBuildFacts (client : Client D J E) (checkpoints : Checkpoints D J F)
    (entities : Entities J) : Except (AugmentError E) (List (WikidataFact F)) :=
  match loadFacts checkpoints (env.entitiesDigest entities) with
  | some facts => .ok facts
  | none => do
    let labels ← (client.entities (env.factLabelIds entities) "labels").mapError
      AugmentError.client
    return sortById WikidataFact.factId (env.factsForEntities entities labels)

/-! ## Writing -/

def buildWikipediaDocumentTable (rows : List A) : Except (AugmentError E) (List (Document D)) :=
  if ¬ (rows.map env.articleId).Nodup then .error .duplicateArticle
  else do
    let documents ← rows.mapM env.wikipediaDocumentFromArticleRow
    if ¬ (documents.map (fun d => d.documentId)).Nodup then .error .duplicateArticle
    else return sortById (fun d => d.documentId) documents

def sidecarDocumentTable : Option (CoreFile D A) → Except (AugmentError E) (List (Document D))
  | some ⟨.documents rows, _⟩ => .ok rows
  | some ⟨.articles rows, _⟩ => buildWikipediaDocumentTable env rows
  | _ => .error .coreUnreadable

def writeSidecars (inputs : CoreInputs D) (voyageDocuments : List (Document D))
    (sections : SectionsByProject) (facts : List (WikidataFact F)) (files : Files D J F A) :
    Except (AugmentError E) (Files D J F A) := do
  let table ← sidecarDocumentTable env (files.core inputs.source)
  return { files with
    canonical := some ⟨.documents table, env.encode table⟩
    wikipediaSections := some sections.wikipedia
    wikivoyageDocuments := some voyageDocuments
    wikivoyageSections := some sections.wikivoyage
    wikidataFacts := some facts }

/-- The tables that the integrity pass reads. -/
def Files.integrityRegion (files : Files D J F A) : Integrity.Region (Document D) Section where
  polygons := files.polygons.map PolygonsFile.tags
  documents := files.wikivoyageDocuments.map
    (List.map (fun d => ⟨some d.documentId, some d.wikidata, d⟩))
  sections := files.wikivoyageSections.map (List.map (fun s => ⟨some s.documentId, s⟩))
  stemLedger := none
  ledger := none

/-- `enforce_wikivoyage_integrity`, on the files. -/
def enforceIntegrity (files : Files D J F A) :
    Except (AugmentError E) (Integrity.WikivoyageIntegrityResult × Files D J F A) := do
  let (result, region) ← (Integrity.enforceWikivoyageIntegrity env.stem false
    files.integrityRegion).mapError AugmentError.integrity
  return (result, { files with
    wikivoyageDocuments := region.documents.map (List.map Integrity.DocumentRow.data)
    wikivoyageSections := region.sections.map (List.map Integrity.SectionRow.data) })

def integrityRejectionsPayload (result : Integrity.WikivoyageIntegrityResult) :
    Option Integrity.WikivoyageIntegrityResult :=
  if result.rejectedDocumentCount ≤ 0 then none else some result

def sidecarDirectories : List String :=
  ["wikipedia/documents", "wikipedia/sections", "wikivoyage/documents", "wikivoyage/sections",
    "wikidata/facts"]

def updateAugmentationManifest (coreHashes : List (String × String)) (counts : Counts)
    (rejections : Option Integrity.WikivoyageIntegrityResult) (files : Files D J F A) :
    Except (AugmentError E) (Files D J F A) :=
  let entry : ManifestEntry := {
    contractVersion := "text-sidecars-v1"
    coreHashes := coreHashes
    paths := sidecarDirectories.map (fun directory => directory ++ "/" ++ env.stem ++ ".parquet")
    counts := counts
    completedAt := env.now
    rejections := rejections }
  match files.manifest with
  | some .malformed => .error .malformedManifest
  | some (.entries entries) =>
    .ok { files with
      manifest := some (.entries (Dict.put Prod.fst (env.stem, entry) entries)) }
  | none => .ok { files with manifest := some (.entries [(env.stem, entry)]) }

def Files.clear (files : Files D J F A) : Files D J F A :=
  { files with checkpoints := fun _ => ⟨none, none, fun _ => none, none⟩ }

def coreArtifactsUnchanged (inputs : CoreInputs D) (files : Files D J F A) : Prop :=
  inputs.coreHashes = coreHashes env inputs.source files

instance (inputs : CoreInputs D) (files : Files D J F A) :
    Decidable (coreArtifactsUnchanged env inputs files) := inferInstanceAs (Decidable (_ = _))

/-- `augment_region`: the counts, and the files that it leaves. -/
def augmentRegion (client : Client D J E) (files : Files D J F A) :
    Except (AugmentError E) (Counts × Files D J F A) := do
  let inputs ← loadCoreInputs env files
  let checkpoints := files.checkpoints (env.planKey inputs.coreHashes inputs.qids
    (documentIdentities inputs.wikipediaDocuments))
  let entities ← loadOrResolveEntities client checkpoints inputs.qids
  let voyageDocuments ← loadOrFetchVoyageDocuments env client checkpoints entities
  let sections ← checkpointedDocumentSections env client checkpoints
    (inputs.wikipediaDocuments ++ voyageDocuments)
  let facts ← loadOrBuildFacts env client checkpoints entities
  if ¬ coreArtifactsUnchanged env inputs files then .error .coreChanged
  else do
    let files ← writeSidecars env inputs voyageDocuments sections facts files
    if ¬ coreArtifactsUnchanged env inputs files then .error .coreChanged
    else do
      let (integrity, files) ← enforceIntegrity env files
      let counts : Counts := {
        wikipediaDocuments := inputs.wikipediaDocuments.length
        wikipediaSections := sections.wikipedia.length
        wikivoyageDocuments := voyageDocuments.length
        wikivoyageSections := sections.wikivoyage.length
        wikidataFacts := facts.length }
      let files ← updateAugmentationManifest env inputs.coreHashes counts
        (integrityRejectionsPayload integrity) files
      return (counts, files.clear)

/-! ## What the counts are compared with -/

def CoreTable.rowCount : CoreTable D A → Nat
  | .documents rows => rows.length
  | .articles rows => rows.length
  | .unreadable => 0

/-- The numbers of rows of the five tables on disk. -/
def Files.rowCounts (files : Files D J F A) : Counts where
  wikipediaDocuments := (files.canonical.map (fun file => file.table.rowCount)).getD 0
  wikipediaSections := (files.wikipediaSections.getD []).length
  wikivoyageDocuments := (files.wikivoyageDocuments.getD []).length
  wikivoyageSections := (files.wikivoyageSections.getD []).length
  wikidataFacts := (files.wikidataFacts.getD []).length

/-- The counts that the manifest has for a region. -/
def Files.manifestCounts (files : Files D J F A) (stem : String) : Option Counts :=
  match files.manifest with
  | some (.entries entries) => (entries.lookup stem).map ManifestEntry.counts
  | _ => none

/-- The manifest counts the rows on disk. -/
def CountsExact (stem : String) (files : Files D J F A) : Prop :=
  files.manifestCounts stem = some files.rowCounts

instance (stem : String) (files : Files D J F A) : Decidable (CountsExact stem files) :=
  inferInstanceAs (Decidable (_ = _))

def Files.tags (files : Files D J F A) : List (Option String) :=
  (files.polygons.map PolygonsFile.tags).getD []

/-- The entities come from a checkpoint or from the client. -/
def EntitiesOf (client : Client D J E) (checkpoints : Checkpoints D J F) (qids : List String)
    (entities : Entities J) : Prop :=
  loadEntities checkpoints qids = some entities
    ∨ (loadEntities checkpoints qids = none
      ∧ client.entities qids "sitelinks|claims" = .ok entities)

/-- A Wikivoyage document comes from a checkpoint or is the client's answer to a sitelink. -/
def VoyageDocumentOf (client : Client D J E) (checkpoints : Checkpoints D J F)
    (entities : Entities J) (document : Document D) : Prop :=
  (∃ documents, loadVoyageDocuments checkpoints (env.entitiesDigest entities) = some documents
      ∧ document ∈ documents)
    ∨ (loadVoyageDocuments checkpoints (env.entitiesDigest entities) = none
      ∧ ∃ item ∈ voyageLinks entities,
        client.wikivoyageDocument item.1 item.2 = .ok (some document))

/-- The item of every Wikivoyage document of the region is the whole tag of a polygon. -/
def VoyageTagged (client : Client D J E) (files : Files D J F A) : Prop :=
  ∀ inputs, loadCoreInputs env files = .ok inputs → ∀ entities document,
    EntitiesOf client (files.checkpoints (env.planKey inputs.coreHashes inputs.qids
        (documentIdentities inputs.wikipediaDocuments))) inputs.qids entities →
      VoyageDocumentOf env client (files.checkpoints (env.planKey inputs.coreHashes inputs.qids
          (documentIdentities inputs.wikipediaDocuments))) entities document →
        document.wikidata ∈ Integrity.polygonWikidataSet files.tags

/-! ## The phases -/

section

variable {env} {client : Client D J E} {checkpoints : Checkpoints D J F} {files : Files D J F A}

theorem perm_sortById {B : Type} (key : B → String) (rows : List B) :
    (sortById key rows).Perm rows := List.perm_insertionSort _ _

variable {entities : Entities J} {inputs : CoreInputs D} {counts : Counts}

theorem loadOrResolveEntities_eq_ok {qids : List String}
    (h : loadOrResolveEntities client checkpoints qids = .ok entities) (entities' : Entities J) :
    EntitiesOf client checkpoints qids entities' ↔ entities' = entities := by
  unfold loadOrResolveEntities at h
  unfold EntitiesOf
  cases hload : loadEntities checkpoints qids with
  | some saved =>
    rw [hload] at h
    cases h
    simp [eq_comm]
  | none =>
    rw [hload] at h
    obtain ⟨answer, hanswer, h⟩ := bind_eq_ok.mp h
    rw [mapError_eq_ok] at hanswer
    split at h
    · cases h
      simp [hanswer, eq_comm]
    · cases h

theorem loadOrFetchVoyageDocuments_eq_ok {documents : List (Document D)}
    (h : loadOrFetchVoyageDocuments env client checkpoints entities = .ok documents)
    (document : Document D) :
    VoyageDocumentOf env client checkpoints entities document ↔ document ∈ documents := by
  unfold loadOrFetchVoyageDocuments at h
  unfold VoyageDocumentOf
  cases hload : loadVoyageDocuments checkpoints (env.entitiesDigest entities) with
  | some saved =>
    rw [hload] at h
    cases h
    simp
  | none =>
    rw [hload] at h
    unfold fetchWikivoyageDocuments at h
    obtain ⟨answers, hanswers, h⟩ := bind_eq_ok.mp h
    cases h
    have hmem : document ∈ sortById (fun d => d.documentId) answers.reduceOption
        ↔ some document ∈ answers :=
      ((perm_sortById _ _).mem_iff).trans (List.reduceOption_mem_iff)
    rw [hmem]
    constructor
    · rintro (⟨saved, hsaved, -⟩ | ⟨-, item, hitem, hanswer⟩)
      · cases hsaved
      · obtain ⟨y, hy, hok⟩ := exists_mem_of_mapM hanswers hitem
        rw [mapError_eq_ok, hanswer] at hok
        cases hok
        exact hy
    · intro hanswer
      obtain ⟨item, hitem, hok⟩ := exists_of_mem_mapM hanswers hanswer
      exact Or.inr ⟨rfl, item, hitem, mapError_eq_ok.mp hok⟩

theorem loadCoreInputs_eq_ok (h : loadCoreInputs env files = .ok inputs) :
    ∃ file polygons documents, files.core inputs.source = some file
      ∧ files.polygons = some polygons ∧ loadCoreDocuments env file.table = .ok documents
      ∧ inputs.wikipediaDocuments.length = documents.length := by
  unfold loadCoreInputs at h
  dsimp only at h
  split at h
  · rename_i file polygons hfile hpolygons
    obtain ⟨documents, hdocuments, h⟩ := bind_eq_ok.mp h
    cases h
    exact ⟨file, polygons, documents, hfile, hpolygons, hdocuments,
      (perm_sortById _ documents).length_eq⟩
  · cases h

theorem length_sidecarDocumentTable {file : CoreFile D A} {documents table : List (Document D)}
    (hdocuments : loadCoreDocuments env file.table = .ok documents)
    (htable : sidecarDocumentTable env (some file) = .ok table) :
    table.length = documents.length := by
  obtain ⟨rows, bytes⟩ := file
  cases rows with
  | documents rows =>
    cases hdocuments
    cases htable
    rfl
  | unreadable => cases hdocuments
  | articles rows =>
    have hread := (mapM_eq_ok_iff.mp hdocuments).length_eq
    change buildWikipediaDocumentTable env rows = .ok table at htable
    unfold buildWikipediaDocumentTable at htable
    split at htable
    · cases htable
    · obtain ⟨converted, hconverted, htable⟩ := bind_eq_ok.mp htable
      split at htable
      · cases htable
      · cases htable
        calc (sortById (fun d => d.documentId) converted).length
            = converted.length := (perm_sortById _ converted).length_eq
          _ = rows.length := ((mapM_eq_ok_iff.mp hconverted).length_eq).symm
          _ = documents.length := hread

theorem lookup_put (stem : String) (entry : ManifestEntry)
    (entries : List (String × ManifestEntry)) :
    (Dict.put Prod.fst (stem, entry) entries).lookup stem = some entry := by
  induction entries with
  | nil => simp [Dict.put]
  | cons first entries ih =>
    rw [Dict.put]
    by_cases hfirst : first.1 = stem
    · rw [if_pos hfirst]
      simp
    · have hne : (stem == first.1) = false := by simpa using fun h => hfirst h.symm
      rw [if_neg hfirst, List.lookup_cons, hne]
      exact ih

variable {files' : Files D J F A}

theorem updateAugmentationManifest_eq_ok {coreHashes : List (String × String)}
    {rejections : Option Integrity.WikivoyageIntegrityResult}
    (h : updateAugmentationManifest env coreHashes counts rejections files = .ok files') :
    files'.manifestCounts env.stem = some counts ∧ files'.rowCounts = files.rowCounts := by
  unfold updateAugmentationManifest at h
  dsimp only at h
  split at h
  · cases h
  · cases h
    refine ⟨?_, rfl⟩
    simp only [Files.manifestCounts, lookup_put]
    rfl
  · cases h
    refine ⟨?_, rfl⟩
    simp [Files.manifestCounts]

variable {voyageDocuments : List (Document D)}

theorem writeSidecars_eq_ok {sections : SectionsByProject} {facts : List (WikidataFact F)}
    (h : writeSidecars env inputs voyageDocuments sections facts files = .ok files') :
    ∃ table, sidecarDocumentTable env (files.core inputs.source) = .ok table
      ∧ files' = { files with
        canonical := some ⟨.documents table, env.encode table⟩
        wikipediaSections := some sections.wikipedia
        wikivoyageDocuments := some voyageDocuments
        wikivoyageSections := some sections.wikivoyage
        wikidataFacts := some facts } := by
  obtain ⟨table, htable, h⟩ := bind_eq_ok.mp h
  cases h
  exact ⟨table, htable, rfl⟩

theorem enforceIntegrity_eq_ok {polygons : PolygonsFile}
    {sections : List Section} {result : Integrity.WikivoyageIntegrityResult}
    (hpolygons : files.polygons = some polygons)
    (hdocuments : files.wikivoyageDocuments = some voyageDocuments)
    (hsections : files.wikivoyageSections = some sections)
    (h : enforceIntegrity env files = .ok (result, files')) :
    files'.wikivoyageDocuments = some (voyageDocuments.filter (fun d =>
        d.wikidata ∈ Integrity.polygonWikidataSet polygons.tags))
      ∧ files'.wikivoyageSections.getD [] = sections.filter (fun s => s.documentId ∉
        (voyageDocuments.filter (fun d =>
          d.wikidata ∉ Integrity.polygonWikidataSet polygons.tags)).map (fun d => d.documentId))
      ∧ files' = { files with
        wikivoyageDocuments := files'.wikivoyageDocuments
        wikivoyageSections := files'.wikivoyageSections } := by
  obtain ⟨⟨result₀, region₀⟩, hresult, h⟩ := bind_eq_ok.mp h
  cases h
  have hregion : files.integrityRegion = ⟨some polygons.tags,
      some (voyageDocuments.map (fun d => ⟨some d.documentId, some d.wikidata, d⟩)),
      some (sections.map (fun s => ⟨some s.documentId, s⟩)), none, none⟩ := by
    simp only [Files.integrityRegion, hpolygons, hdocuments, hsections]
    rfl
  rw [mapError_eq_ok, hregion] at hresult
  obtain ⟨result₁, region₁, henforced, hkept, hkeptSections, -⟩ :=
    Integrity.enforced env.stem polygons.tags
      (voyageDocuments.map (fun d => ⟨some d.documentId, some d.wikidata, d⟩))
      (some (sections.map (fun s => ⟨some s.documentId, s⟩))) none none
  cases henforced.symm.trans hresult
  refine ⟨?_, ?_, rfl⟩
  · dsimp only
    rw [hkept]
    simp only [Integrity.keptBy, Integrity.partitionWikivoyageDocuments_eq, Option.map_some,
      List.filter_map, List.map_map, Function.comp_def, pyStr, List.map_id']
    rfl
  · change (region₀.sections.map (List.map Integrity.SectionRow.data)).getD
      (List.map Integrity.SectionRow.data []) = _
    rw [Option.getD_map, hkeptSections]
    simp only [Integrity.keptBy, Integrity.partitionWikivoyageDocuments_eq,
      Integrity.retainSections_fst, Option.getD_some, List.filter_map, List.map_map,
      Function.comp_def, pyStr, List.map_id']
    rfl

/-- A run that returns, phase by phase. -/
structure Run (env : Surroundings D J F A E) (client : Client D J E) (files : Files D J F A)
    (inputs : CoreInputs D) (entities : Entities J) (voyageDocuments : List (Document D))
    (sections : SectionsByProject) (facts : List (WikidataFact F)) (counts : Counts)
    (files' : Files D J F A) : Prop where
  loaded : loadCoreInputs env files = .ok inputs
  resolved : loadOrResolveEntities client (files.checkpoints (env.planKey inputs.coreHashes
    inputs.qids (documentIdentities inputs.wikipediaDocuments))) inputs.qids = .ok entities
  fetched : loadOrFetchVoyageDocuments env client (files.checkpoints (env.planKey
    inputs.coreHashes inputs.qids (documentIdentities inputs.wikipediaDocuments))) entities
      = .ok voyageDocuments
  written : ∃ written result enforced updated,
    writeSidecars env inputs voyageDocuments sections facts files = .ok written
      ∧ enforceIntegrity env written = .ok (result, enforced)
      ∧ updateAugmentationManifest env inputs.coreHashes counts
        (integrityRejectionsPayload result) enforced = .ok updated
      ∧ files' = updated.clear
  counted : counts = {
    wikipediaDocuments := inputs.wikipediaDocuments.length
    wikipediaSections := sections.wikipedia.length
    wikivoyageDocuments := voyageDocuments.length
    wikivoyageSections := sections.wikivoyage.length
    wikidataFacts := facts.length }

theorem augmentRegion_eq_ok (h : augmentRegion env client files = .ok (counts, files')) :
    ∃ inputs entities voyageDocuments sections facts,
      Run env client files inputs entities voyageDocuments sections facts counts files' := by
  unfold augmentRegion at h
  obtain ⟨inputs, hinputs, h⟩ := bind_eq_ok.mp h
  obtain ⟨entities, hentities, h⟩ := bind_eq_ok.mp h
  obtain ⟨voyageDocuments, hvoyage, h⟩ := bind_eq_ok.mp h
  obtain ⟨sections, -, h⟩ := bind_eq_ok.mp h
  obtain ⟨facts, -, h⟩ := bind_eq_ok.mp h
  split at h
  · cases h
  · obtain ⟨written, hwritten, h⟩ := bind_eq_ok.mp h
    split at h
    · cases h
    · obtain ⟨⟨result, enforced⟩, henforced, h⟩ := bind_eq_ok.mp h
      obtain ⟨updated, hupdated, h⟩ := bind_eq_ok.mp h
      cases h
      exact ⟨inputs, entities, voyageDocuments, sections, facts, hinputs, hentities, hvoyage,
        ⟨written, result, enforced, updated, hwritten, henforced, hupdated, rfl⟩, rfl⟩

theorem Run.rowCounts {sections : SectionsByProject} {facts : List (WikidataFact F)}
    (h : Run env client files inputs entities voyageDocuments sections facts counts files') :
    files'.manifestCounts env.stem = some counts
      ∧ files'.rowCounts = { counts with
        wikivoyageDocuments := (voyageDocuments.filter (fun d =>
          d.wikidata ∈ Integrity.polygonWikidataSet files.tags)).length
        wikivoyageSections := (sections.wikivoyage.filter (fun s => s.documentId ∉
          (voyageDocuments.filter (fun d =>
            d.wikidata ∉ Integrity.polygonWikidataSet files.tags)).map
              (fun d => d.documentId))).length } := by
  obtain ⟨file, polygons, documents, hfile, hpolygons, hdocuments, hlength⟩ :=
    loadCoreInputs_eq_ok h.loaded
  obtain ⟨written, result, enforced, updated, hwritten, henforced, hupdated, rfl⟩ := h.written
  obtain ⟨table, htable, rfl⟩ := writeSidecars_eq_ok hwritten
  obtain ⟨hkept, hkeptSections, hrest⟩ := enforceIntegrity_eq_ok (by exact hpolygons) rfl rfl henforced
  obtain ⟨hmanifest, hrows⟩ := updateAugmentationManifest_eq_ok hupdated
  refine ⟨hmanifest, ?_⟩
  have htags : files.tags = polygons.tags := by rw [Files.tags, hpolygons]; rfl
  rw [hfile] at htable
  have htableLength := length_sidecarDocumentTable hdocuments htable
  change updated.rowCounts = _
  rw [hrows, hrest, Files.rowCounts, h.counted, htags]
  simp only [hkept, hkeptSections, Option.map_some, Option.getD_some, CoreTable.rowCount,
    htableLength, hlength]

/-- **When the counts of a run are those of the tables it leaves.** -/
theorem augmentRegion_countsExact_iff (env : Surroundings D J F A E) (client : Client D J E)
    (files files' : Files D J F A) (counts : Counts)
    (h : augmentRegion env client files = .ok (counts, files')) :
    CountsExact env.stem files' ↔ VoyageTagged env client files := by
  obtain ⟨inputs, entities, voyageDocuments, sections, facts, hrun⟩ := augmentRegion_eq_ok h
  obtain ⟨hmanifest, hrows⟩ := hrun.rowCounts
  have htagged : VoyageTagged env client files ↔ ∀ d ∈ voyageDocuments,
      d.wikidata ∈ Integrity.polygonWikidataSet files.tags := by
    constructor
    · intro hall d hd
      exact hall inputs hrun.loaded entities d
        ((loadOrResolveEntities_eq_ok hrun.resolved entities).mpr rfl)
        ((loadOrFetchVoyageDocuments_eq_ok hrun.fetched d).mpr hd)
    · intro hall inputs' hinputs entities' d hentities hd
      cases hrun.loaded.symm.trans hinputs
      obtain rfl := (loadOrResolveEntities_eq_ok hrun.resolved entities').mp hentities
      exact hall d ((loadOrFetchVoyageDocuments_eq_ok hrun.fetched d).mp hd)
  rw [htagged, CountsExact, hmanifest, hrows, Option.some_inj]
  constructor
  · intro heq
    have hlength : (voyageDocuments.filter (fun d =>
        d.wikidata ∈ Integrity.polygonWikidataSet files.tags)).length = voyageDocuments.length := by
      have := congrArg Counts.wikivoyageDocuments heq
      rw [hrun.counted] at this
      exact this.symm
    simpa using List.length_filter_eq_length_iff.mp hlength
  · intro hall
    -- nothing is rejected, so no section is taken along
    have hkept : voyageDocuments.filter (fun d =>
        d.wikidata ∈ Integrity.polygonWikidataSet files.tags) = voyageDocuments :=
      List.filter_eq_self.mpr (by simpa using hall)
    have hrejected : voyageDocuments.filter (fun d =>
        d.wikidata ∉ Integrity.polygonWikidataSet files.tags) = [] :=
      List.filter_eq_nil_iff.mpr (by simpa using hall)
    rw [hkept, hrejected, hrun.counted]
    simp

end

/-! ## A polygon of two items -/

namespace TwoItems

/-- Surroundings in which hashes are the bytes themselves, and no page has sections. -/
def surroundings : Surroundings Unit Unit Unit Unit Unit where
  stem := "alpha-latest"
  processed := "processed"
  decimal := Char.isDigit
  sha256 := id
  encode := fun _ => "documents"
  planKey := fun _ _ _ => "plan"
  entitiesDigest := fun _ => "entities"
  library := SectionOutline.OutlineExample.library
  clean := id
  events := fun _ => []
  articleId := fun _ => ""
  documentFromArticleRow := fun _ => .error .articleRow
  wikipediaDocumentFromArticleRow := fun _ => .error .articleRow
  factLabelIds := fun _ => []
  factsForEntities := fun _ _ => []
  completed := id
  completed_perm := fun documents => List.Perm.refl documents
  now := "2026-01-01T00:00:00Z"

def document (qid : String) : Document Unit where
  documentId := qid ++ ":wikivoyage:en:1:1"
  articleId := qid ++ ":en:1:1"
  wikidata := qid
  project := "wikivoyage"
  language := "en"
  site := "enwikivoyage"
  pageId := 1
  revisionId := 1
  license := ""
  attribution := ""
  contentHash := ""
  data := ()

/-- A client that knows one item, with a page about it. -/
def client : Client Unit Unit Unit where
  entities := fun qids _ =>
    .ok (if "Q1" ∈ qids then [("Q1", ⟨[("enwikivoyage", some "Alpha")], ()⟩)] else [])
  wikivoyageDocument := fun qid _ => .ok (some (document qid))
  parseHtml := fun _ _ _ => .ok ""

/-- A region with one polygon and no Wikipedia documents. -/
def files (tag : String) : Files Unit Unit Unit Unit where
  canonical := some ⟨.documents [], "documents"⟩
  legacy := none
  polygons := some ⟨[some tag], "polygons"⟩
  wikipediaSections := none
  wikivoyageDocuments := none
  wikivoyageSections := none
  wikidataFacts := none
  manifest := none
  checkpoints := fun _ => ⟨none, none, fun _ => none, none⟩

/-- A run that returns. -/
theorem single_countsExact : ∃ counts files',
    augmentRegion surroundings client (files "Q1") = .ok (counts, files')
      ∧ (CountsExact "alpha-latest" files' ↔ VoyageTagged surroundings client (files "Q1")) := by
  have hreturns : (augmentRegion surroundings client (files "Q1")).toBool = true := by
    decide +kernel
  cases hrun : augmentRegion surroundings client (files "Q1") with
  | error e =>
    rw [hrun] at hreturns
    cases hreturns
  | ok out =>
    exact ⟨out.1, out.2, rfl,
      augmentRegion_countsExact_iff surroundings client (files "Q1") out.2 out.1 hrun⟩

/-- With two, the page of one of them is counted and taken out. -/
theorem rejected_counted : ¬ ∀ counts files',
    augmentRegion surroundings client (files "Q1;Q2") = .ok (counts, files') →
      CountsExact "alpha-latest" files' := by
  have hexact : (augmentRegion surroundings client (files "Q1;Q2")).toOption.map
      (fun out => decide (CountsExact "alpha-latest" out.2)) = some false := by
    decide +kernel
  intro h
  cases hrun : augmentRegion surroundings client (files "Q1;Q2") with
  | error e =>
    rw [hrun] at hexact
    cases hexact
  | ok out =>
    rw [hrun] at hexact
    have hfalse := of_decide_eq_false (Option.some.inj hexact)
    exact hfalse (h out.1 out.2 hrun)

end TwoItems

end OsmPolygonWikidata.Orchestrator
