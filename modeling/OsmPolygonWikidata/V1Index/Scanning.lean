import Mathlib.Data.Int.Basic
import Mathlib.Data.List.Sort
import Mathlib.Data.String.Basic
import OsmPolygonWikidata.Basic.PyString

/-! # V1 shards and their index rows

`v2/index_scanning.py` and the normalisation of `v2/index_queries.py`: what is read from one
Parquet shard of V1 documents, and the key under which a title is found. Canonical shards store
the document identifier; in legacy article shards it is put together from the other columns.

`str.casefold` is a parameter: nothing here depends on what it does to a string.
-/

namespace OsmPolygonWikidata.V1Index

open Python

/-! ## Strings -/

/-- `" ".join(title.replace("_", " ").split())`. -/
def collapseTitle (title : String) : String :=
  String.ofList (List.intercalate [' ']
    (splitWords (title.toList.map (fun c => if c = '_' then ' ' else c)) []))

section

variable (casefold : String → String)

def titleKey (language title : String) : String × String :=
  (casefold language, casefold (collapseTitle title))

end

/-! ## Shards -/

/-- One row of a shard: the indexed columns and everything else. Legacy tables have no
`document_id`. -/
structure ShardRow (P : Type) where
  documentId : Option String
  language : Option String
  title : Option String
  pageId : Option Int
  revisionId : Option Int
  wikidata : Option String
  payload : P
  deriving DecidableEq

/-- The contents of a shard. `valid` is false when it cannot be opened or has another schema. -/
structure Contents (P : Type) where
  valid : Bool
  rowGroups : List (List (ShardRow P))

/-- `_fingerprint`, and whether the shard lies in `articles/`. -/
structure Fingerprint where
  size : Int
  mtimeNs : Int
  ctimeNs : Int
  inode : Int
  legacy : Bool
  deriving DecidableEq

/-- A shard as a run finds it: its resolved path and its fingerprint. -/
structure Shard where
  path : String
  fingerprint : Fingerprint

/-- `effective_paths`: the paths of the shards and which of them are legacy ones, in the order of
their names. A legacy shard counts if there is no canonical one of its stem. -/
def effectivePaths (processedDir : String) (canonical legacy : List String) :
    List (String × Bool) :=
  let stems := canonical.map (fun stem => (stem, false))
    ++ (legacy.filter (fun stem => stem ∉ canonical)).map (fun stem => (stem, true))
  (stems.insertionSort (fun a b => a.1 ++ ".parquet" ≤ b.1 ++ ".parquet")).map (fun (stem, isLegacy) =>
    (processedDir ++ (if isLegacy then "/articles/" else "/wikipedia/documents/") ++ stem
      ++ ".parquet", isLegacy))

inductive ScanError where
  | invalidShard (path : String)
  | notAnInteger (field : String)

/-- The tuple `index_rows_from_table` returns for a row. -/
structure IndexRow where
  documentId : String
  language : String
  title : String
  pageId : Int
  revisionId : Int
  qid : String
  rowGroup : Nat
  rowIndex : Nat

def requiredInt (value : Option Int) (field : String) : Except ScanError Int :=
  match value with
  | some n => .ok n
  | none => .error (.notAnInteger field)

/-- The identifier of a document, stored in canonical shards and composed in legacy ones. -/
def documentIdOf {P : Type} (legacy : Bool) (row : ShardRow P) (pageId revisionId : Int) : String :=
  if legacy then
    pyStr row.wikidata ++ ":wikipedia:" ++ pyStr row.language ++ ":" ++ toString pageId ++ ":"
      ++ toString revisionId
  else pyStr row.documentId

/-- One row of `index_rows_from_table`. -/
def indexRow {P : Type} (legacy : Bool) (rowGroup rowIndex : Nat) (row : ShardRow P) :
    Except ScanError IndexRow := do
  let pageId ← requiredInt row.pageId "page_id"
  let revisionId ← requiredInt row.revisionId "revision_id"
  return ⟨documentIdOf legacy row pageId revisionId, pyStr row.language, pyStr row.title, pageId,
    revisionId, row.wikidata.getD "", rowGroup, rowIndex⟩

/-- `index_rows_from_table`, from row `rowIndex` on. -/
def indexRowsFromTable {P : Type} (legacy : Bool) (rowGroup : Nat) :
    List (ShardRow P) → Nat → Except ScanError (List IndexRow)
  | [], _ => .ok []
  | row :: rows, rowIndex => do
    let indexed ← indexRow legacy rowGroup rowIndex row
    let rest ← indexRowsFromTable legacy rowGroup rows (rowIndex + 1)
    return indexed :: rest

def scanIndexRowGroup {P : Type} (legacy : Bool) (contents : Contents P) (rowGroup : Nat) :
    Except ScanError (List IndexRow) :=
  indexRowsFromTable legacy rowGroup (contents.rowGroups.getD rowGroup []) 0

end OsmPolygonWikidata.V1Index
