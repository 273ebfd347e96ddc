import Mathlib
import OsmPolygonWikidata.Basic.Loops
import OsmPolygonWikidata.Domain.WikidataQids

/-! # The Wikidata integrity audit

`pipeline/_wikidata_recovery/audit*.py`. The audit reads four tables of a region: the polygons, the
links from polygons to documents (in the canonical schema or in the legacy one), the Wikipedia
documents and the Wikidata facts. It raises on rows that contradict each other, which blocks the
region. Otherwise it lists the polygons that carry an identifier no link accounts for, asks Wikidata
about these identifiers, and classifies each one. Documents and facts of identifiers that no polygon
carries are listed as orphans.

Bytes are of an arbitrary type `C`, and reading a Parquet file is a field of `Codec`: `none` stands
for a file of another schema. The columns that recovery neither reads nor writes are one value of an
arbitrary type `X`. The client answers an identifier or raises; how the calls are batched makes no
difference to the answers.
-/

namespace OsmPolygonWikidata.WikidataRecovery

open Python

/-! ## Rows -/

structure Polygon (X : Type) where
  polygonId : Option String
  wikidata : Option String
  sourcePbf : Option String
  region : Option String
  osmType : Option String
  osmId : Option Int
  hasWikipedia : Option Bool
  wikipediaLanguageCount : Option Int
  wikipediaLanguages : Option String
  wikipediaArticleCount : Option Int
  hasEnglishWikipedia : Option Bool
  hasFrenchWikipedia : Option Bool
  textAvailable : Option Bool
  bestLanguage : Option String
  others : X
  deriving DecidableEq

/-- A row of `polygon_articles` in the canonical schema. -/
structure CanonicalLink where
  polygonId : Option String
  documentId : Option String
  project : Option String
  wikidata : Option String
  language : Option String
  sourcePbf : Option String
  region : Option String
  osmType : Option String
  osmId : Option Int
  pageId : Option Int
  revisionId : Option Int
  deriving DecidableEq

/-- A row of `polygon_articles` in the legacy schema. -/
structure LegacyLink where
  polygonId : Option String
  articleId : Option String
  wikidata : Option String
  language : Option String
  sourcePbf : Option String
  region : Option String
  osmType : Option String
  osmId : Option Int
  pageId : Option Int
  revisionId : Option Int
  isBestLanguage : Option Bool
  deriving DecidableEq

structure Document (X : Type) where
  documentId : Option String
  articleId : Option String
  wikidata : Option String
  language : Option String
  site : Option String
  title : Option String
  pageId : Option Int
  revisionId : Option Int
  fullText : Option String
  others : X
  deriving DecidableEq

structure Section (X : Type) where
  sectionId : Option String
  documentId : Option String
  sectionIndex : Option Int
  others : X
  deriving DecidableEq

structure Fact (X : Type) where
  factId : Option String
  wikidata : Option String
  others : X
  deriving DecidableEq

/-- The links of a region, in one of the two schemas. -/
inductive Links where
  | canonical (rows : List CanonicalLink)
  | legacy (rows : List LegacyLink)
  deriving DecidableEq

/-- Reading the Parquet files of a region. -/
structure Codec (X C : Type) where
  readPolygons : C → Option (List (Polygon X))
  readCanonicalLinks : C → Option (List CanonicalLink)
  readLegacyLinks : C → Option (List LegacyLink)
  readDocuments : C → Option (List (Document X))
  readSections : C → Option (List (Section X))
  readFacts : C → Option (List (Fact X))

inductive Table where
  | polygons
  | polygonArticles
  | wikipediaDocuments
  | wikipediaSections
  | wikidataFacts
  deriving DecidableEq

/-- The tables of a region on disk. -/
abbrev RegionFiles (C : Type) := Table → Option C

/-! ## Scanning -/

inductive ScanError where
  | missingInput (table : Table)
  | schemaMismatch (table : Table)
  | emptyString (table : Table) (key : String)
  | invalidIdentifier (raw : String)
  | duplicate (table : Table) (key value : String)
  | duplicateLink (identity : String × String)
  | absentPolygon (polygonId : String)
  | polygonDisagrees (qid polygonId : String)
  | documentDisagrees (referenceId qid : String)
  | absentReference (referenceId : String)

def requiredString (value : Option String) (key : String) (table : Table) :
    Except ScanError String :=
  match value with
  | some v => if v = "" then .error (.emptyString table key) else .ok v
  | none => .error (.emptyString table key)

section

variable {X C : Type} (decimal : Char → Bool)

structure PolygonIndex where
  polygons : List (String × List String)
  polygonIdsByQid : List (String × List String)

/-- One turn of `index_polygon_rows`. -/
def indexPolygonRow (index : PolygonIndex) (row : Polygon X) : Except ScanError PolygonIndex := do
  let polygonId ← requiredString row.polygonId "polygon_id" .polygons
  let rawQid ← requiredString row.wikidata "wikidata" .polygons
  let qids := qidsFromOsmTag decimal rawQid
  if qids = [] then throw (.invalidIdentifier rawQid)
  else if polygonId ∈ index.polygons.map Prod.fst then
    throw (.duplicate .polygons "polygon_id" polygonId)
  else
    return ⟨index.polygons ++ [(polygonId, qids)],
      qids.foldl (fun d qid => appendUnder qid polygonId d) index.polygonIdsByQid⟩

def indexPolygonRows (rows : List (Polygon X)) : Except ScanError PolygonIndex :=
  rows.foldlM (indexPolygonRow decimal) ⟨[], []⟩

/-- The identities of a document row. -/
structure DocumentKey where
  articleId : String
  documentId : String
  qid : String

structure DocumentIndex where
  documents : List DocumentKey
  orphanDocumentIds : List String

/-- One turn of `index_document_rows`. The two dictionaries have the same rows, in the same
order. -/
def indexDocumentRow (carried : List String) (index : DocumentIndex) (row : Document X) :
    Except ScanError DocumentIndex := do
  let articleId ← requiredString row.articleId "article_id" .wikipediaDocuments
  let documentId ← requiredString row.documentId "document_id" .wikipediaDocuments
  let qid ← requiredString row.wikidata "wikidata" .wikipediaDocuments
  if articleId ∈ index.documents.map DocumentKey.articleId then
    throw (.duplicate .wikipediaDocuments "article_id" articleId)
  else if documentId ∈ index.documents.map DocumentKey.documentId then
    throw (.duplicate .wikipediaDocuments "document_id" documentId)
  else
    return ⟨index.documents ++ [⟨articleId, documentId, qid⟩],
      if qid ∈ carried then index.orphanDocumentIds else index.orphanDocumentIds ++ [documentId]⟩

def indexDocumentRows (carried : List String) (rows : List (Document X)) :
    Except ScanError DocumentIndex :=
  rows.foldlM (indexDocumentRow carried) ⟨[], []⟩

/-- What the audit reads of a link row. `reference` is the `document_id` of a canonical row and the
`article_id` of a legacy one. -/
structure LinkRow where
  polygonId : Option String
  reference : Option String
  wikidata : Option String

def referenceColumn (canonicalLinks : Bool) : String :=
  if canonicalLinks then "document_id" else "article_id"

/-- The rows that `link_identity` does not skip. -/
def Links.auditRows : Links → List LinkRow
  | .canonical rows => (rows.filter (fun row => row.project = some "wikipedia")).map
      (fun row => ⟨row.polygonId, row.documentId, row.wikidata⟩)
  | .legacy rows => rows.map (fun row => ⟨row.polygonId, row.articleId, row.wikidata⟩)

def Links.isCanonical : Links → Bool
  | .canonical _ => true
  | .legacy _ => false

/-- The document that a reference names. -/
def findDocument (canonicalLinks : Bool) (documents : List DocumentKey) (reference : String) :
    Option DocumentKey :=
  if canonicalLinks then documents.find? (fun d => d.documentId = reference)
  else documents.find? (fun d => d.articleId = reference)

def validatePolygonQid (polygonId qid : String) (polygons : List (String × List String)) :
    Except ScanError Unit :=
  match polygons.lookup polygonId with
  | none => .error (.absentPolygon polygonId)
  | some qids => if qid ∈ qids then .ok () else .error (.polygonDisagrees qid polygonId)

/-- `finish_link_target`. A canonical link may name a document that is gone. -/
def finishLinkTarget (canonicalLinks : Bool) (polygonId reference qid : String)
    (document : Option DocumentKey) : Except ScanError (Option (String × String)) :=
  match document with
  | none => if canonicalLinks then .ok none else .error (.absentReference reference)
  | some d => if d.qid = qid then .ok (some (polygonId, qid))
      else .error (.documentDisagrees reference qid)

/-- `resolve_link_target`: the pair of polygon and identifier that the link accounts for. -/
def resolveLinkTarget (canonicalLinks : Bool) (polygons : List (String × List String))
    (documents : DocumentIndex) (polygonId reference qid : String) :
    Except ScanError (Option (String × String)) :=
  match findDocument canonicalLinks documents.documents reference with
  | some d =>
    if d.documentId ∈ documents.orphanDocumentIds then .ok none
    else do
      validatePolygonQid polygonId qid polygons
      finishLinkTarget canonicalLinks polygonId reference qid (some d)
  | none => do
    validatePolygonQid polygonId qid polygons
    finishLinkTarget canonicalLinks polygonId reference qid none

/-- Whether a pair of strings is listed. -/
instance decidableMemPairs (pair : String × String) (pairs : List (String × String)) :
    Decidable (pair ∈ pairs) :=
  decidable_of_iff (∃ p ∈ pairs, p = pair) (by simp)

structure LinkIndex where
  linkedPolygonQids : List (String × String)
  linkIds : List (String × String)

/-- One turn of `linked_polygon_qids`: `validate_link_row`. -/
def indexLinkRow (canonicalLinks : Bool) (polygons : List (String × List String))
    (documents : DocumentIndex) (index : LinkIndex) (row : LinkRow) :
    Except ScanError LinkIndex := do
  let polygonId ← requiredString row.polygonId "polygon_id" .polygonArticles
  let reference ← requiredString row.reference (referenceColumn canonicalLinks) .polygonArticles
  let qid ← requiredString row.wikidata "wikidata" .polygonArticles
  if (polygonId, reference) ∈ index.linkIds then throw (.duplicateLink (polygonId, reference))
  else do
    let link ← resolveLinkTarget canonicalLinks polygons documents polygonId reference qid
    return ⟨index.linkedPolygonQids ++ link.toList, index.linkIds ++ [(polygonId, reference)]⟩

def linkedPolygonQids (canonicalLinks : Bool) (polygons : List (String × List String))
    (documents : DocumentIndex) (rows : List LinkRow) : Except ScanError LinkIndex :=
  rows.foldlM (indexLinkRow canonicalLinks polygons documents) ⟨[], []⟩

/-- `sorted(d.items())` of a dictionary with distinct keys. -/
def sortedItems {V : Type} (d : List (String × V)) : List (String × V) :=
  d.insertionSort (fun a b => a.1 ≤ b.1)

def missingPolygonLinks (polygonIdsByQid : List (String × List String))
    (linked : List (String × String)) : List (String × List String) :=
  (sortedItems polygonIdsByQid).filterMap (fun (qid, polygonIds) =>
    let missing := (polygonIds.insertionSort (· ≤ ·)).filter
      (fun polygonId => (polygonId, qid) ∉ linked)
    if missing = [] then none else some (qid, missing))

structure FactIndex where
  seen : List String
  orphans : List String

/-- One turn of `orphan_fact_ids`. -/
def indexFactRow (carried : List String) (index : FactIndex) (row : Fact X) :
    Except ScanError FactIndex := do
  let factId ← requiredString row.factId "fact_id" .wikidataFacts
  let qid ← requiredString row.wikidata "wikidata" .wikidataFacts
  if factId ∈ index.seen then throw (.duplicate .wikidataFacts "fact_id" factId)
  else
    return ⟨index.seen ++ [factId],
      if qid ∈ carried then index.orphans else index.orphans ++ [factId]⟩

def orphanFactIds (carried : List String) (rows : List (Fact X)) : Except ScanError FactIndex :=
  rows.foldlM (indexFactRow carried) ⟨[], []⟩

/-! ## Regions -/

/-- The hashes of the four tables. -/
structure Fingerprints (H : Type) where
  polygons : H
  polygonArticles : H
  wikipediaDocuments : H
  wikidataFacts : H
  deriving DecidableEq

structure RegionScan (H : Type) where
  fingerprints : Fingerprints H
  polygonIdsByQid : List (String × List String)
  missingPolygonIdsByQid : List (String × List String)
  orphanFactIds : List String
  orphanDocumentIds : List String

structure RegionRows (X : Type) where
  polygons : List (Polygon X)
  links : Links
  documents : List (Document X)
  facts : List (Fact X)

/-- A table that must exist. -/
def requireInput (files : RegionFiles C) (table : Table) : Except ScanError C :=
  match files table with
  | some c => .ok c
  | none => .error (.missingInput table)

/-- A table that must have its schema. -/
def requireSchema {R : Type} (table : Table) (rows : Option (List R)) :
    Except ScanError (List R) :=
  match rows with
  | some rows => .ok rows
  | none => .error (.schemaMismatch table)

variable (codec : Codec X C)

/-- The link file: canonical when it has that schema, and legacy otherwise. -/
def readLinks (c : C) : Except ScanError Links :=
  match codec.readCanonicalLinks c with
  | some rows => .ok (.canonical rows)
  | none => do
    let rows ← requireSchema .polygonArticles (codec.readLegacyLinks c)
    return .legacy rows

def loadRegionRows (files : RegionFiles C) : Except ScanError (RegionRows X) := do
  let polygons ← requireInput files .polygons
  let links ← requireInput files .polygonArticles
  let documents ← requireInput files .wikipediaDocuments
  let facts ← requireInput files .wikidataFacts
  let polygonRows ← requireSchema .polygons (codec.readPolygons polygons)
  let linkRows ← readLinks codec links
  let documentRows ← requireSchema .wikipediaDocuments (codec.readDocuments documents)
  let factRows ← requireSchema .wikidataFacts (codec.readFacts facts)
  return ⟨polygonRows, linkRows, documentRows, factRows⟩

variable {H : Type} (hash : C → H)

def regionFingerprints (files : RegionFiles C) : Except ScanError (Fingerprints H) := do
  let polygons ← requireInput files .polygons
  let links ← requireInput files .polygonArticles
  let documents ← requireInput files .wikipediaDocuments
  let facts ← requireInput files .wikidataFacts
  return ⟨hash polygons, hash links, hash documents, hash facts⟩

/-- `_scan_region`, on the rows that were read. -/
def scanRows (fingerprints : Fingerprints H) (rows : RegionRows X) :
    Except ScanError (RegionScan H) := do
  let polygons ← indexPolygonRows decimal rows.polygons
  let carried := polygons.polygonIdsByQid.map Prod.fst
  let documents ← indexDocumentRows carried rows.documents
  let links ← linkedPolygonQids rows.links.isCanonical polygons.polygons documents
    rows.links.auditRows
  let facts ← orphanFactIds carried rows.facts
  return ⟨fingerprints,
    (sortedItems polygons.polygonIdsByQid).map (fun (qid, ids) => (qid, ids.insertionSort (· ≤ ·))),
    missingPolygonLinks polygons.polygonIdsByQid links.linkedPolygonQids,
    facts.orphans.insertionSort (· ≤ ·), documents.orphanDocumentIds.insertionSort (· ≤ ·)⟩

def scanRegion (fingerprints : Fingerprints H) (files : RegionFiles C) :
    Except ScanError (RegionScan H) := do
  let rows ← loadRegionRows codec files
  scanRows decimal fingerprints rows

end

/-! ## Classification -/

inductive RecoveryClassification where
  | current
  | authoritativeNoSitelink
  | authoritativeNoArticle
  | authoritativeMissing
  | repairRequired
  | blocked
  deriving DecidableEq

structure RegionAuditResult (H : Type) where
  stem : String
  fingerprints : Option (Fingerprints H)
  classifications : List (String × RecoveryClassification)
  polygonIdsByQid : List (String × List String)
  affectedPolygonIdsByQid : List (String × List String)
  affectedQids : List String
  affectedPolygonCount : Nat
  orphanFactIds : List String
  orphanDocumentIds : List String
  blockedReason : Option ScanError

/-- `RegionAuditResult.requires_repair`. -/
def RegionAuditResult.requiresRepair {H : Type} (region : RegionAuditResult H) : Bool :=
  region.affectedQids ≠ [] || region.orphanFactIds ≠ [] || region.orphanDocumentIds ≠ []

/-- An entity that Wikidata knows, with its sitelinks by site. -/
structure WikidataEntity where
  qid : String
  sitelinks : List (String × String)

/-- `get_entity`: the entity, `none` when Wikidata marks it as missing, or an error. -/
abbrev WikidataClient (E : Type) := String → Except E (Option WikidataEntity)

structure AuditSettings where
  languages : Option (List String)
  maxArticlesPerQid : Option Int

def languageFromSite (site : String) : String :=
  if "wiki".toList <:+ site.toList then
    let language := site.toList.take (site.toList.length - 4)
    if String.ofList language = "be_x_old" then "be-tarask"
    else String.ofList (language.map (fun c => if c = '_' then '-' else c))
  else site

def limitSitelinks (maxArticlesPerQid : Option Int) (sitelinks : List (String × String)) :
    List (String × String) :=
  match maxArticlesPerQid with
  | none => sitelinks
  | some n => sitelinks.take n.toNat

def filteredSitelinks (languages : Option (List String)) (entity : WikidataEntity) :
    List (String × String) :=
  (sortedItems entity.sitelinks).filter (fun (site, _) =>
    match languages with
    | none => true
    | some allowed => languageFromSite site ∈ allowed)

/-- `eligible_sitelinks`, of an entity that is there. -/
def eligibleSitelinks (settings : AuditSettings) (entity : WikidataEntity) :
    List (String × String) :=
  limitSitelinks settings.maxArticlesPerQid (filteredSitelinks settings.languages entity)

/-- Why an audit ends without a result. -/
inductive AuditError (E : Type) where
  | client (error : E)
  | keyError (qid : String)

variable {X C H E : Type} (settings : AuditSettings)

def resolveEntities (client : WikidataClient E) (qids : List String) :
    Except E (List (String × Option WikidataEntity)) :=
  qids.mapM (fun qid => do
    let entity ← client qid
    return (qid, entity))

def classifyQid (qid : String) (missing : List (String × List String))
    (entities : List (String × Option WikidataEntity)) :
    Except (AuditError E) (RecoveryClassification × List String) :=
  match missing.lookup qid with
  | none => .ok (.current, [])
  | some polygonIds =>
    match entities.lookup qid with
    | none => .error (.keyError qid)
    | some none => .ok (.authoritativeMissing, [])
    | some (some entity) =>
      if eligibleSitelinks settings entity = [] then .ok (.authoritativeNoSitelink, [])
      else .ok (.repairRequired, polygonIds)

/-- The classification of every identifier of a scan, with the polygons it affects. -/
def classifyQids (missing : List (String × List String))
    (entities : List (String × Option WikidataEntity)) (qids : List String) :
    Except (AuditError E) (List (String × RecoveryClassification × List String)) :=
  qids.mapM (fun qid => do
    let result ← classifyQid settings qid missing entities
    return (qid, result))

/-- `classify_region`, for a region that is not blocked. -/
def classifyRegion (stem : String) (scan : RegionScan H)
    (entities : List (String × Option WikidataEntity)) :
    Except (AuditError E) (RegionAuditResult H) := do
  let classified ← classifyQids settings scan.missingPolygonIdsByQid entities
    (scan.polygonIdsByQid.map Prod.fst)
  let affected := (classified.filter (fun c => c.2.2 ≠ [])).map (fun c => (c.1, c.2.2))
  return {
    stem := stem
    fingerprints := some scan.fingerprints
    classifications := classified.map (fun c => (c.1, c.2.1))
    polygonIdsByQid := scan.polygonIdsByQid
    affectedPolygonIdsByQid := affected
    affectedQids := affected.map Prod.fst
    affectedPolygonCount := (affected.flatMap Prod.snd).dedup.length
    orphanFactIds := scan.orphanFactIds
    orphanDocumentIds := scan.orphanDocumentIds
    blockedReason := none }

def blockedRegionResult (stem : String) (reason : ScanError) : RegionAuditResult H where
  stem := stem
  fingerprints := none
  classifications := []
  polygonIdsByQid := []
  affectedPolygonIdsByQid := []
  affectedQids := []
  affectedPolygonCount := 0
  orphanFactIds := []
  orphanDocumentIds := []
  blockedReason := some reason

/-! ## Receipts -/

/-- What the index keeps of a region that needs no repair. -/
structure Receipt (H : Type) where
  fingerprints : Fingerprints H
  classifications : List (String × RecoveryClassification)
  polygonIds : List (String × List String)

/-- The receipts that can be read, by stem. -/
abbrev Receipts (H : Type) := String → Option (Receipt H)

def reuseReceipt [DecidableEq H] (stem : String) (fingerprints : Fingerprints H)
    (receipt : Option (Receipt H)) : Option (RegionAuditResult H) :=
  match receipt with
  | none => none
  | some receipt =>
    if receipt.fingerprints = fingerprints
        ∧ RecoveryClassification.repairRequired ∉ receipt.classifications.map Prod.snd then
      some {
        stem := stem
        fingerprints := some fingerprints
        classifications := sortedItems receipt.classifications
        polygonIdsByQid := (sortedItems receipt.polygonIds).map
          (fun (qid, ids) => (qid, ids.insertionSort (· ≤ ·)))
        affectedPolygonIdsByQid := []
        affectedQids := []
        affectedPolygonCount := 0
        orphanFactIds := []
        orphanDocumentIds := []
        blockedReason := none }
    else none

def receiptFromResult (fingerprints : Fingerprints H) (region : RegionAuditResult H) : Receipt H :=
  ⟨fingerprints, region.classifications, region.polygonIdsByQid⟩

/-- `record_current_receipt`: a region that needs nothing gets a receipt. -/
def recordCurrentReceipt (receipts : Receipts H) (region : RegionAuditResult H) : Receipts H :=
  match region.blockedReason, region.fingerprints with
  | none, some fingerprints =>
    if region.requiresRepair then receipts
    else Function.update receipts region.stem (some (receiptFromResult fingerprints region))
  | _, _ => receipts

/-! ## The audit -/

/-- How the local scan of a region ends. -/
inductive ScanOutcome (H : Type) where
  | reused (result : RegionAuditResult H)
  | scanned (scan : RegionScan H)
  | blocked (reason : ScanError)

variable [DecidableEq H] (decimal : Char → Bool) (codec : Codec X C) (hash : C → H)

def scanRegionForAudit (receipts : Receipts H) (stem : String) (files : RegionFiles C) :
    ScanOutcome H :=
  match regionFingerprints hash files with
  | .error reason => .blocked reason
  | .ok fingerprints =>
    match reuseReceipt stem fingerprints (receipts stem) with
    | some result => .reused result
    | none =>
      match scanRegion decimal codec fingerprints files with
      | .ok scan => .scanned scan
      | .error reason => .blocked reason

/-- The identifiers that a scan wants to know about. -/
def ScanOutcome.missingQids : ScanOutcome H → List String
  | .scanned scan => scan.missingPolygonIdsByQid.map Prod.fst
  | _ => []

def validationQids (outcomes : List (String × ScanOutcome H)) : List String :=
  (outcomes.flatMap (fun o => o.2.missingQids)).dedup.insertionSort (· ≤ ·)

/-- The result of one region. -/
def ScanOutcome.result (stem : String) (entities : List (String × Option WikidataEntity)) :
    ScanOutcome H → Except (AuditError E) (RegionAuditResult H)
  | .reused result => .ok result
  | .scanned scan => classifyRegion settings stem scan entities
  | .blocked reason => .ok (blockedRegionResult stem reason)

/-- `sorted(set(stems))`. -/
def scopedStems (stems : List String) : List String := stems.dedup.insertionSort (· ≤ ·)

/-- One turn of `classify_scoped_regions`: a reused result leaves its receipt as it is. -/
def recordOutcome (receipts : Receipts H) (outcome : ScanOutcome H) (region : RegionAuditResult H) :
    Receipts H :=
  match outcome with
  | .reused _ => receipts
  | _ => recordCurrentReceipt receipts region

/-- `audit_wikidata_integrity`: the results by region, and the receipts after it. -/
def auditWikidataIntegrity (client : WikidataClient E) (receipts : Receipts H)
    (files : String → RegionFiles C) (stems : List String) :
    Except (AuditError E) (List (RegionAuditResult H) × Receipts H) := do
  let outcomes := (scopedStems stems).map (fun stem =>
    (stem, scanRegionForAudit decimal codec hash receipts stem (files stem)))
  let entities ← (resolveEntities client (validationQids outcomes)).mapError AuditError.client
  let regions ← outcomes.mapM (fun o => o.2.result settings o.1 entities)
  return (regions,
    (outcomes.zip regions).foldl (fun receipts o => recordOutcome receipts o.1.2 o.2) receipts)

end OsmPolygonWikidata.WikidataRecovery
