import OsmPolygonWikidata.V1Index.Queries

/-! # The in-memory index and the lookups of a completed index

`_build_in_memory_index` of `v2/v1_index.py` reads all shards, one after the other in the order of
their names, and keeps the first row of each document. The SQLite index of the same shards is
asked one call at a time here. It keeps a row per document and shard, and answers with the row of
the shard whose path is the smallest, unless another row of the document is in its cache.

Rows of legacy shards are converted by `wikipedia_document_from_article_row`. The schema of a
shard is checked when it is opened, so a column can only be null or of its type. Which characters
are decimal digits (`\d`) is a parameter.
-/

namespace OsmPolygonWikidata.V1Index

open Python

/-! ## Document rows -/

/-- The value of a column: `str`, `int`, or `int | None`. -/
inductive Value where
  | text (value : Option String)
  | number (value : Option Int)
  | optionalNumber (value : Option Int)
  deriving DecidableEq

/-- The columns that are not indexed. Legacy tables have no `project`. -/
structure Columns where
  articleId : Option String
  project : Option String
  site : Option String
  others : List (String × Value)
  deriving DecidableEq, Inhabited

abbrev DocumentRow := ShardRow Columns

instance : Inhabited DocumentRow := ⟨⟨none, none, none, none, none, none, default⟩⟩

/-- `WikipediaDocumentConversionError`. -/
inductive ConversionError where
  | notAString (field : String)
  | notAnInteger (field : String)
  | invalidQid (field value : String)
  | languageSpace (field value : String)
  | languageColon (field value : String)
  | notPositive (field : String) (value : Int)
  | inconsistentArticleId (expected articleId : String)
  deriving DecidableEq

def requireExactStr (value : Option String) (field : String) : Except ConversionError String :=
  match value with
  | some text => .ok text
  | none => .error (.notAString field)

def requireExactInt (value : Option Int) (field : String) : Except ConversionError Int :=
  match value with
  | some n => .ok n
  | none => .error (.notAnInteger field)

/-- `is_valid_qid`: `Q[1-9]\d*`. -/
def isValidQid (isDecimal : Char → Bool) (value : String) : Bool :=
  match value.toList with
  | 'Q' :: c :: cs => '1' ≤ c && c ≤ '9' && cs.all isDecimal
  | _ => false

def validateQid (isDecimal : Char → Bool) (value : Option String) (field : String) :
    Except ConversionError String := do
  let text ← requireExactStr value field
  if isValidQid isDecimal text then return text
  else throw (.invalidQid field text)

/-- `_validate_language`. A text that `strip` changes has white space in it. -/
def validateLanguage (value : Option String) (field : String) : Except ConversionError String := do
  let language ← requireExactStr value field
  if language = "" ∨ language.toList.any isSpace then throw (.languageSpace field language)
  else if ':' ∈ language.toList then throw (.languageColon field language)
  else return language

def validatePositiveInt (value : Option Int) (field : String) : Except ConversionError Int := do
  let n ← requireExactInt value field
  if n ≤ 0 then throw (.notPositive field n)
  else return n

def makeDocumentId (wikidata language : String) (pageId revisionId : Int) : String :=
  wikidata ++ ":wikipedia:" ++ language ++ ":" ++ toString pageId ++ ":" ++ toString revisionId

def makeArticleId (wikidata language : String) (pageId revisionId : Int) : String :=
  wikidata ++ ":" ++ language ++ ":" ++ toString pageId ++ ":" ++ toString revisionId

/-- The check of one of the remaining columns. -/
def checkColumn (column : String × Value) : Except ConversionError Unit :=
  match column.2 with
  | .text value => (requireExactStr value column.1).map (fun _ => ())
  | .number value => (requireExactInt value column.1).map (fun _ => ())
  | .optionalNumber _ => .ok ()

def checkColumns : List (String × Value) → Except ConversionError Unit
  | [] => .ok ()
  | column :: columns => do
    checkColumn column
    checkColumns columns

def wikipediaDocumentFromArticleRow (isDecimal : Char → Bool) (row : DocumentRow) :
    Except ConversionError DocumentRow := do
  let wikidata ← validateQid isDecimal row.wikidata "wikidata"
  let language ← validateLanguage row.language "language"
  let pageId ← validatePositiveInt row.pageId "page_id"
  let revisionId ← validatePositiveInt row.revisionId "revision_id"
  let articleId ← requireExactStr row.payload.articleId "article_id"
  if articleId ≠ makeArticleId wikidata language pageId revisionId then
    throw (.inconsistentArticleId (makeArticleId wikidata language pageId revisionId) articleId)
  let _ ← requireExactStr row.payload.site "site"
  let _ ← requireExactStr row.title "title"
  checkColumns row.payload.others
  return { row with
    documentId := some (makeDocumentId wikidata language pageId revisionId)
    payload := { row.payload with project := some "wikipedia" } }

/-- The row that both indexes return for a row of a shard. -/
def documentRow (isDecimal : Char → Bool) (legacy : Bool) (row : DocumentRow) :
    Except ConversionError DocumentRow :=
  if legacy then wikipediaDocumentFromArticleRow isDecimal row else .ok row

/-! ## The in-memory index -/

inductive BuildError where
  | scan (error : ScanError)
  | invalidLegacyShard (path : String) (error : ConversionError)

/-- `seen_documents` and the three maps under construction. -/
structure MemoryIndex where
  byPage : AList (fun _ : String × Int => List DocumentRow)
  byTitle : AList (fun _ : String × String => List DocumentRow)
  byQid : AList (fun _ : String => List DocumentRow)
  seenDocuments : List String
  rowCount : Nat

def MemoryIndex.empty : MemoryIndex := ⟨∅, ∅, ∅, [], 0⟩

/-- `mapping.setdefault(key, []).append(row)`. -/
def appendRow {K : Type} [DecidableEq K] (key : K) (row : DocumentRow)
    (mapping : AList (fun _ : K => List DocumentRow)) : AList (fun _ : K => List DocumentRow) :=
  mapping.insert key ((mapping.lookup key).getD [] ++ [row])

section

variable (casefold : String → String) (isDecimal : Char → Bool)
variable (contents : String → Fingerprint → Contents Columns)

def convertRows (legacy : Bool) : List DocumentRow → Except ConversionError (List DocumentRow)
  | [] => .ok []
  | row :: rows => do
    let converted ← documentRow isDecimal legacy row
    let rest ← convertRows legacy rows
    return converted :: rest

def readRows (shard : Shard) : Except BuildError (List DocumentRow) :=
  if (contents shard.path shard.fingerprint).valid then
    (convertRows isDecimal shard.fingerprint.legacy
      (contents shard.path shard.fingerprint).rowGroups.flatten).mapError
        (BuildError.invalidLegacyShard shard.path)
  else .error (.scan (.invalidShard shard.path))

/-- The body of the inner loop of `_build_in_memory_index`. -/
def addRow (row : DocumentRow) (index : MemoryIndex) : Except BuildError MemoryIndex := do
  let pageId ← (requiredInt row.pageId "page_id").mapError BuildError.scan
  let _ ← (requiredInt row.revisionId "revision_id").mapError BuildError.scan
  if pyStr row.documentId ∈ index.seenDocuments then
    return index
  else
    return {
      byPage := appendRow (casefold (pyStr row.language), pageId) row index.byPage
      byTitle := appendRow (titleKey casefold (pyStr row.language) (pyStr row.title)) row
        index.byTitle
      byQid := if row.wikidata.getD "" = "" then index.byQid
        else appendRow (row.wikidata.getD "") row index.byQid
      seenDocuments := pyStr row.documentId :: index.seenDocuments
      rowCount := index.rowCount + 1 }

def addRows : List DocumentRow → MemoryIndex → Except BuildError MemoryIndex
  | [], index => .ok index
  | row :: rows, index => do
    let index ← addRow casefold row index
    addRows rows index

/-- `_build_in_memory_index`, from `index` on. -/
def addShards : List Shard → MemoryIndex → Except BuildError MemoryIndex
  | [], index => .ok index
  | shard :: shards, index => do
    let rows ← readRows isDecimal contents shard
    let index ← addRows casefold rows index
    addShards shards index

def buildInMemoryIndex (files : List Shard) : Except BuildError MemoryIndex :=
  addShards casefold isDecimal contents files .empty

end

/-- `sorted(rows, key=lambda item: str(item["document_id"]))` of `_freeze`. -/
def freezeRows (rows : List DocumentRow) : List DocumentRow :=
  rows.insertionSort (fun a b => pyStr a.documentId ≤ pyStr b.documentId)

/-- The rows under a key. -/
def MemoryIndex.rows (index : MemoryIndex) : Key → List DocumentRow
  | .page language pageId => freezeRows ((index.byPage.lookup (language, pageId)).getD [])
  | .title language title => freezeRows ((index.byTitle.lookup (language, title)).getD [])
  | .qid value => freezeRows ((index.byQid.lookup value).getD [])

/-! ## Calls -/

/-- The lookups of `V1ReuseIndex`. -/
inductive Call where
  | byPage (language : String) (pageId : Int)
  | byTitle (language title : String)
  | byTitles (keys : List (String × String))
  | byQid (qid : String)

def Call.lookup (casefold : String → String) : Call → Lookup
  | .byPage language pageId => .query (.page (casefold language) pageId)
  | .byTitle language title =>
    .query (.title (titleKey casefold language title).1 (titleKey casefold language title).2)
  | .byTitles keys => .titles (keys.map (fun key => titleKey casefold key.1 key.2))
  | .byQid qid => .query (.qid qid)

/-- The answer of the in-memory index to a call: the rows of each of its keys. -/
def MemoryIndex.answer (casefold : String → String) (index : MemoryIndex) (call : Call) :
    List (Key × List DocumentRow) :=
  (call.lookup casefold).keys.map (fun key => (key, index.rows key))

/-! ## The completed SQLite index -/

/-- `_row_cache` and `_query_cache`. -/
structure Caches (R : Type) where
  rows : Lru String R
  queries : Lru Key (Result R)

def Caches.empty (R : Type) : Caches R := ⟨[], []⟩

section

variable {E R : Type} (load : Document → Except E R) (queryLimit rowLimit : Nat)
variable (table : List Document)

/-- `materialize_group`, over all groups, up to the first row that cannot be loaded. -/
def materializeRows : List Document → Lru String R → Except E (List (String × R)) × Lru String R
  | [], cache => (.ok [], cache)
  | d :: references, cache =>
    match load d with
    | .error e => (.error e, cache)
    | .ok row =>
      match materializeRows references (cache.put rowLimit d.documentId row) with
      | (.error e, cache') => (.error e, cache')
      | (.ok loaded, cache') => (.ok ((d.documentId, row) :: loaded), cache')

/-- The results of one SQL statement, which go to the query cache. -/
def fetchChunk (lookup : Lookup) (chunk : List Key) (caches : Caches R) :
    Except E (List (Key × Result R)) × Caches R :=
  let rows := selectRows lookup chunk table
  let (found, rowCache, missing) := splitCached (firstByDocument rows) caches.rows
  match materializeRows load rowLimit (byRowGroup missing) rowCache with
  | (.error e, rowCache) => (.error e, { caches with rows := rowCache })
  | (.ok loaded, rowCache) =>
    let entries := chunkResults chunk rows (found ++ loaded)
    (.ok entries,
      ⟨rowCache, entries.foldl (fun cache e => cache.put queryLimit e.1 e.2) caches.queries⟩)

def fetchChunks (lookup : Lookup) :
    List (List Key) → Caches R → Except E (List (Key × Result R)) × Caches R
  | [], caches => (.ok [], caches)
  | chunk :: chunks, caches =>
    match fetchChunk load queryLimit rowLimit table lookup chunk caches with
    | (.error e, caches) => (.error e, caches)
    | (.ok entries, caches) =>
      match fetchChunks lookup chunks caches with
      | (.error e, caches) => (.error e, caches)
      | (.ok results, caches) => (.ok (entries ++ results), caches)

/-- The slices of `for offset in range(0, len(missing), _TITLE_QUERY_BATCH_SIZE)`. -/
def titleChunks (missing : List Key) : List (List Key) :=
  (List.range ((missing.length + titleQueryBatchSize - 1) / titleQueryBatchSize)).map
    (fun i => (missing.drop (titleQueryBatchSize * i)).take titleQueryBatchSize)

/-- `_query` and `by_titles`: the keys that are not in the query cache are asked for. -/
def answerLookup (lookup : Lookup) (caches : Caches R) :
    Except E (List (Key × Result R)) × Caches R :=
  let found := lookup.keys.filterMap
    (fun key => (caches.queries.get key).map (fun result => (key, result)))
  let missing := lookup.keys.filter (fun key => (caches.queries.get key).isNone)
  let caches := { caches with
    queries := lookup.keys.foldl (fun cache key => cache.touch key) caches.queries }
  match fetchChunks load queryLimit rowLimit table lookup (titleChunks missing) caches with
  | (.error e, caches) => (.error e, caches)
  | (.ok results, caches) => (.ok (found ++ results), caches)

end

variable (casefold : String → String) (isDecimal : Char → Bool)
variable (contents : String → Fingerprint → Contents Columns) (queryLimit rowLimit : Nat)
variable (files : List Shard) (table : List Document)

inductive LoadError where
  | missingRow
  | conversion (error : ConversionError)
  deriving DecidableEq

/-- The row of a shard that a row of the table refers to. -/
def loadRow (d : Document) : Except LoadError DocumentRow :=
  match files.find? (fun shard => shard.path = d.sourcePath) with
  | none => .error .missingRow
  | some shard =>
    match ((contents shard.path shard.fingerprint).rowGroups.getD d.rowGroup [])[d.rowIndex]? with
    | none => .error .missingRow
    | some row => (documentRow isDecimal d.legacy row).mapError LoadError.conversion

/-- The answer of the SQLite index to a call. -/
def answer (call : Call) (caches : Caches DocumentRow) :
    Except LoadError (List (Key × List DocumentRow)) × Caches DocumentRow :=
  match answerLookup (loadRow isDecimal contents files) queryLimit rowLimit table
      (call.lookup casefold) caches with
  | (.error e, caches) => (.error e, caches)
  | (.ok results, caches) => (.ok (results.map (fun e => (e.1, e.2.map Prod.snd))), caches)

/-- The caches after a sequence of calls. -/
def afterCalls (history : List Call) : Caches DocumentRow :=
  history.foldl (fun caches call =>
    (answer casefold isDecimal contents queryLimit rowLimit files table call caches).2) (.empty _)

end OsmPolygonWikidata.V1Index
