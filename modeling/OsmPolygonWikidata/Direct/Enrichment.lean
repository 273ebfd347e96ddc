import Mathlib.Data.List.AList
import OsmPolygonWikidata.Basic.Dict
import OsmPolygonWikidata.V1Index.Scanning

/-! # Direct enrichment

`v2/direct_enrichment.py`. The Wikipedia references of a polygon are looked up in the V1 index; a
reference the index does not have is fetched. While the index is still being built, the fetches
are speculative: `reconcile_wikipedia_refs` later looks all references up in the completed index
and takes a fetched document only for those it does not have, finding the document by its title.

A client is a function of language and title that may raise. The other columns of a document are
of no concern here and form its body. `fetch_full_text` is fixed, and so is the cache of the
client. `str.casefold` is a parameter.
-/

namespace OsmPolygonWikidata.Direct

open V1Index

/-! ## References, documents and links -/

/-- `WikipediaTagRef`. -/
structure Ref where
  language : String
  title : String
  rawKey : String
  rawValue : String
  deriving DecidableEq

/-- A row of the document table. -/
structure Document (B : Type) where
  documentId : String
  wikidata : Option String
  language : String
  title : String
  pageId : Int
  revisionId : Int
  fetchStatus : String
  fetchError : String
  body : B
  deriving DecidableEq

/-- `WikipediaArticle`. -/
structure Article (B : Type) where
  language : String
  title : String
  pageId : Int
  revisionId : Int
  body : B

structure FetchResult (B : Type) where
  status : String
  article : Option (Article B)
  error : String

/-- The columns of the polygon that a link copies. -/
structure PolygonContext where
  polygonId : String
  sourcePbf : String
  region : String
  osmType : String
  osmId : Int

/-- A row of the link table. `project` and `link_sources` are constant. -/
structure Link where
  polygonId : String
  documentId : String
  wikidata : Option String
  language : String
  sourcePbf : String
  region : String
  osmType : String
  osmId : Int
  pageId : Int
  revisionId : Int

/-- `DirectWikipediaStatus`. -/
structure Status where
  ref : Ref
  status : String
  error : String
  reusedV1 : Bool
  deriving DecidableEq

/-- `document_id` of `v2/models.py`. -/
def documentId (wikidata : Option String) (language : String) (pageId revisionId : Int) : String :=
  (if wikidata.getD "" = "" then "osm" else wikidata.getD "") ++ ":wikipedia:" ++ language ++ ":"
    ++ toString pageId ++ ":" ++ toString revisionId

def articleDocument {B : Type} (article : Article B) : Document B :=
  { documentId := documentId none article.language article.pageId article.revisionId
    wikidata := none
    language := article.language
    title := article.title
    pageId := article.pageId
    revisionId := article.revisionId
    fetchStatus := "ok"
    fetchError := ""
    body := article.body }

def linkRow {B : Type} (context : PolygonContext) (document : Document B) : Link :=
  { polygonId := context.polygonId
    documentId := document.documentId
    wikidata := document.wikidata
    language := document.language
    sourcePbf := context.sourcePbf
    region := context.region
    osmType := context.osmType
    osmId := context.osmId
    pageId := document.pageId
    revisionId := document.revisionId }

/-! ## Looking references up -/

/-- A V1 index as a lookup sees it. `rows` are the documents under a key of the index, `batched`
says whether it has `by_titles`, and `isReady n` is `is_ready` after `n` speculative fetches. -/
structure Index (B : Type) where
  rows : String × String → List (Document B)
  batched : Bool
  isReady : Nat → Bool

/-- The result of a lookup. -/
abbrev Matches (B : Type) := String × String → List (Document B)

section

variable {B : Type} (casefold : String → String)

/-- `_title_key`. Unlike the key of the index it does not collapse white space. -/
def directKey (language title : String) : String × String :=
  (casefold language,
    casefold (String.ofList (title.toList.map (fun c => if c = '_' then ' ' else c))))

def Ref.key (ref : Ref) : String × String := directKey casefold ref.language ref.title

def Document.key (document : Document B) : String × String :=
  directKey casefold document.language document.title

/-- `_lookup_titles`. The dictionary `by_titles` returns is keyed by the keys of the index. -/
def lookupTitles (index : Index B) (refs : List Ref) : Matches B :=
  if index.batched then
    fun key =>
      if key ∈ refs.map (fun ref => titleKey casefold ref.language ref.title) then index.rows key
      else []
  else
    fun key =>
      match refs.reverse.find? (fun ref => ref.key casefold = key) with
      | some ref => index.rows (titleKey casefold ref.language ref.title)
      | none => []

end

/-! ## Enrichment -/

/-- `_DirectRows`. The dictionaries of documents and links are keyed by the document. -/
structure DirectRows (B : Type) where
  documents : List (Document B)
  links : List Link
  statuses : AList (fun _ : Nat => Status)

def DirectRows.empty (B : Type) : DirectRows B := ⟨[], [], ∅⟩

/-- `DirectEnrichmentResult`. -/
structure EnrichmentResult (B E : Type) where
  documents : List (Document B)
  links : List Link
  statuses : List Status
  deferredErrors : AList (fun _ : Nat => E)

/-- `DirectLookupOptions`. -/
structure LookupOptions (B : Type) where
  waitForIndex : Bool
  initialMatches : Option (Matches B)
  deferFinalLookup : Bool

section

variable {B E : Type} (casefold : String → String) (context : PolygonContext)

/-- `_store_reconciled_row`, also the end of the functions that record a row. -/
def storeRow (document : Document B) (rows : DirectRows B) : DirectRows B :=
  { rows with
    documents := Dict.put Document.documentId document rows.documents
    links := Dict.put Link.documentId (linkRow context document) rows.links }

def recordReuse (position : Nat) (ref : Ref) (document : Document B) (rows : DirectRows B) :
    DirectRows B :=
  let rows := storeRow context document rows
  { rows with statuses := rows.statuses.insert position ⟨ref, "reused_v1", "", true⟩ }

/-- `enumerate(refs)`, from `position` on. -/
def enumerate : Nat → List Ref → List (Nat × Ref)
  | _, [] => []
  | position, ref :: refs => (position, ref) :: enumerate (position + 1) refs

def partitionReferences (found : Matches B) :
    List (Nat × Ref) → DirectRows B → List (Nat × Ref) × DirectRows B
  | [], rows => ([], rows)
  | (position, ref) :: rest, rows =>
    match found (ref.key casefold) with
    | document :: _ =>
      partitionReferences found rest (recordReuse context position ref document rows)
    | [] =>
      let (pending, rows) := partitionReferences found rest rows
      ((position, ref) :: pending, rows)

variable (client : String → String → Except E (FetchResult B)) (errorText : E → String)

/-- `_fetch_speculative_results`, after `count` fetches. -/
def fetchSpeculativeResults (index : Index B) :
    List (Nat × Ref) → Nat → AList (fun _ : Nat => Except E (FetchResult B)) →
      AList (fun _ : Nat => Except E (FetchResult B))
  | [], _, speculative => speculative
  | (position, ref) :: pending, count, speculative =>
    if index.isReady count then speculative
    else fetchSpeculativeResults index pending (count + 1)
      (speculative.insert position (client ref.language ref.title))

def resolvePendingOutcome (ref : Ref) (speculative : Option (Except E (FetchResult B)))
    (waitForIndex : Bool) : Except E (Status × Option (FetchResult B) × Option E) :=
  match speculative with
  | some (.error e) =>
    if waitForIndex then .error e
    else .ok (⟨ref, "deferred_error", errorText e, false⟩, none, some e)
  | some (.ok result) => .ok (⟨ref, result.status, result.error, false⟩, some result, none)
  | none =>
    match client ref.language ref.title with
    | .error e => .error e
    | .ok result => .ok (⟨ref, result.status, result.error, false⟩, some result, none)

/-- The document of a fetch. -/
def resultDocument (result : FetchResult B) : Option (Document B) :=
  result.article.map (fun article =>
    if result.status = "ok" then articleDocument article
    else { articleDocument article with fetchStatus := result.status, fetchError := result.error })

def applyPendingOutcome (position : Nat) (outcome : Status × Option (FetchResult B) × Option E)
    (state : DirectRows B × AList (fun _ : Nat => E)) :
    DirectRows B × AList (fun _ : Nat => E) :=
  let (status, result, deferredError) := outcome
  let (rows, deferredErrors) := state
  let rows := { rows with statuses := rows.statuses.insert position status }
  let deferredErrors := match deferredError with
    | some e => deferredErrors.insert position e
    | none => deferredErrors
  match result.bind resultDocument with
  | none => (rows, deferredErrors)
  | some document => (storeRow context document rows, deferredErrors)

def resolvePending (finalMatches : Matches B)
    (speculative : AList (fun _ : Nat => Except E (FetchResult B))) (waitForIndex : Bool) :
    List (Nat × Ref) → DirectRows B × AList (fun _ : Nat => E) →
      Except E (DirectRows B × AList (fun _ : Nat => E))
  | [], state => .ok state
  | (position, ref) :: pending, (rows, deferredErrors) =>
    match finalMatches (ref.key casefold) with
    | document :: _ =>
      resolvePending finalMatches speculative waitForIndex pending
        (recordReuse context position ref document rows, deferredErrors)
    | [] =>
      match resolvePendingOutcome client errorText ref (speculative.lookup position)
        waitForIndex with
      | .error e => .error e
      | .ok outcome =>
        resolvePending finalMatches speculative waitForIndex pending
          (applyPendingOutcome context position outcome (rows, deferredErrors))

/-- `enrich_wikipedia_refs`. `later` is the index at the final lookup. -/
def enrichWikipediaRefs (refs : List Ref) (index later : Index B) (options : LookupOptions B) :
    Except E (EnrichmentResult B E) := do
  let initialMatches := options.initialMatches.getD (lookupTitles casefold index refs)
  let (pending, rows) := partitionReferences casefold context initialMatches (enumerate 0 refs)
    (.empty B)
  let speculative := fetchSpeculativeResults client index pending 0 ∅
  let finalMatches : Matches B :=
    if options.deferFinalLookup then fun _ => []
    else lookupTitles casefold later (pending.map Prod.snd)
  let (rows, deferredErrors) ← resolvePending casefold context client errorText finalMatches
    speculative options.waitForIndex pending (rows, ∅)
  return ⟨rows.documents, rows.links,
    (List.range refs.length).filterMap (fun position => rows.statuses.lookup position),
    deferredErrors⟩

end

/-! ## Reconciliation -/

variable {B E : Type} (casefold : String → String) (context : PolygonContext)

/-- `_direct_documents_by_title`: the candidates of a key. -/
def directDocumentsByTitle (documents : List (Document B)) : Matches B :=
  fun key => (documents.filter (fun document => document.key casefold = key)).insertionSort
    (fun a b => a.documentId ≤ b.documentId)

def reconcileReference (position : Nat) (ref : Ref) (result : EnrichmentResult B E)
    (finalMatches directByTitle : Matches B) : Except E (Option Status × Option (Document B)) :=
  match finalMatches (ref.key casefold) with
  | document :: _ => .ok (some ⟨ref, "reused_v1", "", true⟩, some document)
  | [] =>
    match result.deferredErrors.lookup position with
    | some e => .error e
    | none => .ok (result.statuses[position]?, (directByTitle (ref.key casefold)).head?)

/-- The loop of `reconcile_wikipedia_refs`. -/
def reconcileReferences (result : EnrichmentResult B E) (finalMatches directByTitle : Matches B) :
    List (Nat × Ref) → DirectRows B → List Status → Except E (DirectRows B × List Status)
  | [], rows, statuses => .ok (rows, statuses)
  | (position, ref) :: rest, rows, statuses =>
    match reconcileReference casefold position ref result finalMatches directByTitle with
    | .error e => .error e
    | .ok (status, row) =>
      let rows := match row with
        | none => rows
        | some document => storeRow context document rows
      reconcileReferences result finalMatches directByTitle rest rows
        (statuses ++ status.toList)

def reconcileWikipediaRefs (refs : List Ref) (result : EnrichmentResult B E) (index : Index B)
    (titleMatches : Option (Matches B)) : Except E (EnrichmentResult B E) := do
  let finalMatches := titleMatches.getD (lookupTitles casefold index refs)
  let directByTitle := directDocumentsByTitle casefold result.documents
  let (rows, statuses) ← reconcileReferences casefold context result finalMatches directByTitle
    (enumerate 0 refs) (.empty B) []
  return ⟨rows.documents, rows.links, statuses, ∅⟩

end OsmPolygonWikidata.Direct
