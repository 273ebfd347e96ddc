import OsmPolygonWikidata.Basic.Interleaving
import OsmPolygonWikidata.V1Index.Sync

/-! # Lookups in the SQLite index

`v2/index_queries.py`. A lookup selects rows of the table `documents`, loads the documents they
refer to from the shards, through a bounded cache of loaded rows, and returns them ordered by
document. Once the index is complete, results are kept in a second bounded cache.

The lookups run while the indexing thread is still committing row groups. The steps that touch
shared state are atomic, one at a time: looking at the complete flag, reading the query cache,
the SQL query, loading rows (under a lock), and storing a result, which looks at the flag again.
-/

namespace OsmPolygonWikidata.V1Index

open Interleaving

/-! ## Bounded caches -/

/-- An `OrderedDict`, oldest entry first. -/
abbrev Lru (K V : Type) := List (K × V)

section

variable {K V : Type} [DecidableEq K]

def Lru.get (cache : Lru K V) (key : K) : Option V := List.lookup key cache

/-- `move_to_end`. -/
def Lru.touch (key : K) (cache : Lru K V) : Lru K V :=
  match cache.get key with
  | none => cache
  | some value => cache.filter (fun e => e.1 ≠ key) ++ [(key, value)]

/-- Store an entry as the newest one and drop the oldest ones beyond `limit`. -/
def Lru.put (limit : Nat) (key : K) (value : V) (cache : Lru K V) : Lru K V :=
  let cache' := cache.filter (fun e => e.1 ≠ key) ++ [(key, value)]
  cache'.drop (cache'.length - limit)

variable {cache : Lru K V} {key : K}

theorem Lru.mem_of_get {value : V} (h : cache.get key = some value) : (key, value) ∈ cache := by
  induction cache with
  | nil => cases h
  | cons e cache ih =>
    obtain ⟨k, v⟩ := e
    unfold get at h ih
    rw [List.lookup_cons] at h
    split at h
    · rename_i hk
      have hkk : key = k := by simpa using hk
      cases h
      rw [hkk]
      exact List.mem_cons_self
    · exact List.mem_cons_of_mem _ (ih h)

theorem Lru.mem_touch {e : K × V} (h : e ∈ cache.touch key) : e ∈ cache := by
  unfold touch at h
  split at h
  · exact h
  · rename_i value hget
    rcases List.mem_append.mp h with h | h
    · exact (List.mem_filter.mp h).1
    · rw [List.mem_singleton.mp h]
      exact Lru.mem_of_get hget

theorem Lru.mem_put {limit : Nat} {value : V} {e : K × V} (h : e ∈ cache.put limit key value) :
    e = (key, value) ∨ e ∈ cache := by
  have h' := List.mem_of_mem_drop h
  rcases List.mem_append.mp h' with h' | h'
  · exact Or.inr (List.mem_filter.mp h').1
  · exact Or.inl (List.mem_singleton.mp h')

end

/-! ## Selecting rows -/

inductive Key where
  | page (language : String) (pageId : Int)
  | title (language titleKey : String)
  | qid (qid : String)
  deriving DecidableEq

/-- The `WHERE` clauses of `_QUERY_SQL`. -/
def Key.selects : Key → Document → Bool
  | .page language pageId, d => d.language = language && d.pageId = pageId
  | .title language titleKey, d => d.language = language && d.titleKey = titleKey
  | .qid value, d => d.qid = value

/-- The calls: one key, or a list of title keys. -/
inductive Lookup where
  | query (key : Key)
  | titles (keys : List (String × String))
  deriving DecidableEq

/-- The keys a call answers, without repetition (`normalized_title_keys`). -/
def Lookup.keys : Lookup → List Key
  | .query key => [key]
  | .titles keys => (keys.map (fun k => Key.title k.1 k.2)).eraseDups

/-- The columns of the `ORDER BY` clause. -/
def Lookup.orderColumns : Lookup → Document → List String
  | .query _, d => [d.documentId, d.sourcePath]
  | .titles _, d => [d.language, d.titleKey, d.documentId, d.sourcePath]

/-- The rows the SQL statement of a call returns for some of its keys. -/
def selectRows (lookup : Lookup) (chunk : List Key) (table : List Document) : List Document :=
  (table.filter (fun d => chunk.any (fun key => key.selects d))).insertionSort
    (fun a b => lookup.orderColumns a ≤ lookup.orderColumns b)

/-- `first_query_rows_by_document`: the first row of each document. -/
def firstByDocument : List Document → List Document
  | [] => []
  | d :: rows => d :: (firstByDocument rows).filter (fun e => e.documentId ≠ d.documentId)

/-- `sorted({row["document_id"] for row in rows})`. -/
def sortedIds (rows : List Document) : List String :=
  (rows.map Document.documentId).dedup.insertionSort (· ≤ ·)

/-! ## Loading documents -/

section

variable {R : Type} (load : Document → R)

/-- `group_materialization_references`: what the cache answers, the cache, and the rest. -/
def splitCached : List Document → Lru String R → List (String × R) × Lru String R × List Document
  | [], cache => ([], cache, [])
  | d :: references, cache =>
    match cache.get d.documentId with
    | some row =>
      let (found, cache', missing) := splitCached references (cache.touch d.documentId)
      ((d.documentId, row) :: found, cache', missing)
    | none =>
      let (found, cache', missing) := splitCached references cache
      (found, cache', d :: missing)

/-- The references in the order in which their row groups are read. -/
def byRowGroup (references : List Document) : List Document :=
  (references.map (fun d => (d.sourcePath, d.legacy, d.rowGroup))).eraseDups.flatMap
    (fun group => references.filter (fun d => (d.sourcePath, d.legacy, d.rowGroup) = group))

/-- `materialize_group`, over all groups. -/
def loadRows (limit : Nat) : List Document → Lru String R → List (String × R) × Lru String R
  | [], cache => ([], cache)
  | d :: references, cache =>
    let (loaded, cache') := loadRows limit references (cache.put limit d.documentId (load d))
    ((d.documentId, load d) :: loaded, cache')

/-- `_materialize`. -/
def materialize (limit : Nat) (references : List Document) (cache : Lru String R) :
    List (String × R) × Lru String R :=
  let (found, cache', missing) := splitCached references cache
  let (loaded, cache'') := loadRows load limit (byRowGroup missing) cache'
  (found ++ loaded, cache'')

end

/-! ## The threads -/

/-- The documents found for a key, with their rows. -/
abbrev Result (R : Type) := List (String × R)

/-- What the indexing thread still has to do. -/
inductive IndexAction where
  | commit (rows : List Document)
  | clearRowCache

/-- The state the threads share. -/
structure Store (R : Type) where
  documents : List Document
  pending : List IndexAction
  initialized : Bool
  complete : Bool
  rowCache : Lru String R
  queryCache : Lru Key (Result R)

/-- A call in progress: what it has found and which keys it has still to ask for. `late` says
that it saw the complete flag set when it started. -/
structure Job (R : Type) where
  lookup : Lookup
  late : Bool
  results : List (Key × Result R)
  missing : List Key
  rest : List Lookup

/-- Where a thread stands. -/
inductive Local (R : Type) where
  | indexer
  | idle (lookups : List Lookup)
  | reading (lookup : Lookup) (rest : List Lookup)
  | fetching (job : Job R)
  | fetched (job : Job R) (chunk : List Key) (table : List Document)
  | storing (job : Job R) (table : List Document) (entries : List (Key × Result R))
  | storeLocked (job : Job R) (table : List Document) (entry : Key × Result R)
      (entries : List (Key × Result R))

/-- A call that has returned. -/
structure Returned (R : Type) where
  lookup : Lookup
  late : Bool
  results : List (Key × Result R)
  deriving DecidableEq

def titleQueryBatchSize : Nat := 256

variable {R : Type} (load : Document → R) (queryLimit rowLimit : Nat)

/-- `title_chunk_results`. -/
def chunkResults (chunk : List Key) (rows : List Document) (materialized : List (String × R)) :
    List (Key × Result R) :=
  chunk.map (fun key => (key, (sortedIds (rows.filter key.selects)).filterMap
    (fun id => (materialized.lookup id).map (fun row => (id, row)))))

/-- After the results of a chunk have been stored. -/
def afterStore (job : Job R) (table : List Document) : List (Key × Result R) → Local R
  | [] => .fetching job
  | entries => .storing job table entries

/-- One atomic step of a thread. -/
def lookupStep : Code (Local R) (Store R) (Returned R)
  | .indexer, s =>
    if s.initialized then
      match s.pending with
      | [] => (.indexer, { s with complete := true }, none)
      | .commit rows :: pending =>
        (.indexer, { s with documents := rows.foldl insertOrIgnore s.documents,
                            pending := pending }, none)
      | .clearRowCache :: pending =>
        (.indexer, { s with rowCache := [], pending := pending }, none)
    else (.indexer, { s with initialized := true }, none)
  | .idle [], s => (.idle [], s, none)
  | .idle (lookup :: rest), s =>
    if s.initialized then
      if s.complete then (.reading lookup rest, s, none)
      else (.fetching ⟨lookup, false, [], lookup.keys, rest⟩, s, none)
    else (.idle rest, s, some ⟨lookup, false, lookup.keys.map (fun key => (key, []))⟩)
  | .reading lookup rest, s =>
    let found := lookup.keys.filterMap
      (fun key => (s.queryCache.get key).map (fun result => (key, result)))
    let missing := lookup.keys.filter (fun key => (s.queryCache.get key).isNone)
    (.fetching ⟨lookup, true, found, missing, rest⟩,
      { s with queryCache := lookup.keys.foldl (fun cache key => cache.touch key) s.queryCache },
      none)
  | .fetching job, s =>
    if job.missing = [] then (.idle job.rest, s, some ⟨job.lookup, job.late, job.results⟩)
    else (.fetched { job with missing := job.missing.drop titleQueryBatchSize }
      (job.missing.take titleQueryBatchSize) s.documents, s, none)
  | .fetched job chunk table, s =>
    let rows := selectRows job.lookup chunk table
    let (materialized, rowCache) := materialize load rowLimit (firstByDocument rows) s.rowCache
    let entries := chunkResults chunk rows materialized
    (afterStore { job with results := job.results ++ entries } table entries,
      { s with rowCache := rowCache }, none)
  | .storing job table [], s => (afterStore job table [], s, none)
  | .storing job table (entry :: entries), s =>
    if s.complete then (.storeLocked job table entry entries, s, none)
    else (afterStore job table entries, s, none)
  | .storeLocked job table entry entries, s =>
    (afterStore job table entries,
      { s with queryCache := s.queryCache.put queryLimit entry.1 entry.2 }, none)

end OsmPolygonWikidata.V1Index
