import Mathlib.Data.List.AList
import OsmPolygonWikidata.Basic.Durable
import OsmPolygonWikidata.V1Index.Scanning

/-! # Synchronising the SQLite index with the V1 shards

`v2/index_sync.py`. The database has four tables: the indexed `documents`, the shards that are
completely indexed (`file_state`), the shards that are being scanned (`scan_progress`) and the
cached number of documents. A run removes what belongs to shards that are gone, scans what has
changed one row group at a time, and caches the number of documents at its end. Each SQLite
transaction is one step, so a run can be killed between any two of them. It can also be asked to
stop, which it does in front of a shard or of a row group.
-/

namespace OsmPolygonWikidata.V1Index

open Durable

/-! ## The database -/

/-- A row of the table `documents`. -/
structure Document where
  documentId : String
  sourcePath : String
  legacy : Bool
  language : String
  titleKey : String
  pageId : Int
  revisionId : Int
  qid : String
  rowGroup : Nat
  rowIndex : Nat
  deriving DecidableEq

/-- A row of the table `scan_progress`. -/
structure Progress where
  fingerprint : Fingerprint
  totalRowGroups : Nat
  nextRowGroup : Nat

structure Database where
  documents : List Document
  fileState : AList (fun _ : String => Fingerprint)
  scanProgress : AList (fun _ : String => Progress)
  rowCount : Option Nat

def Database.empty : Database := ⟨[], ∅, ∅, none⟩

/-- `INSERT OR IGNORE INTO documents`; the key is the document with its source. -/
def insertOrIgnore (documents : List Document) (d : Document) : List Document :=
  if documents.any (fun e => e.documentId = d.documentId && e.sourcePath = d.sourcePath) then
    documents
  else documents ++ [d]

def countDistinctDocuments (db : Database) : Nat :=
  (db.documents.map Document.documentId).toFinset.card

/-- The places where a run looks at the stop flag. -/
inductive StopPoint where
  | shard (position : Nat)
  | rowGroup (position group : Nat)

/-- The program type of this module. -/
abbrev Sync := Prog Database ScanError

variable {P : Type} (casefold : String → String) (contents : String → Fingerprint → Contents P)

/-! ## Transactions -/

/-- The row stored for an indexed row of a shard. -/
def document (shard : Shard) (row : IndexRow) : Document :=
  ⟨row.documentId, shard.path, shard.fingerprint.legacy, casefold row.language,
    (titleKey casefold row.language row.title).2, row.pageId, row.revisionId, row.qid,
    row.rowGroup, row.rowIndex⟩

def commitIndexedRowGroup (shard : Shard) (total group : Nat) (indexed : List IndexRow)
    (db : Database) : Database :=
  { db with
    documents := (indexed.map (document casefold shard)).foldl insertOrIgnore db.documents
    scanProgress := db.scanProgress.insert shard.path ⟨shard.fingerprint, total, group + 1⟩ }

/-- The three deletes for one path. -/
def deletePath (path : String) (db : Database) : Database :=
  { db with
    documents := db.documents.filter (fun d => d.sourcePath ≠ path)
    fileState := db.fileState.erase path
    scanProgress := db.scanProgress.erase path }

def deleteStalePaths (stale : List String) (db : Database) : Database :=
  { stale.foldl (fun db path => deletePath path db) db with rowCount := none }

/-- The transaction of `_prepare_shard` that starts a scan from the beginning. -/
def restartShard (shard : Shard) (total : Nat) (db : Database) : Database :=
  { db with
    documents := db.documents.filter (fun d => d.sourcePath ≠ shard.path)
    fileState := db.fileState.erase shard.path
    scanProgress := db.scanProgress.insert shard.path ⟨shard.fingerprint, total, 0⟩ }

/-- The transaction of `_finalize_shard`. -/
def finalizeShard (shard : Shard) (db : Database) : Database :=
  { db with
    fileState := db.fileState.insert shard.path shard.fingerprint
    scanProgress := db.scanProgress.erase shard.path }

/-! ## One shard -/

def resumableRowGroup (previous : Option Progress) (fingerprint : Fingerprint) (total : Nat) :
    Nat :=
  match previous with
  | none => 0
  | some p =>
    if p.fingerprint = fingerprint ∧ p.totalRowGroups = total ∧ p.nextRowGroup ≤ total then
      p.nextRowGroup
    else 0

/-- Raise the error of a read. -/
def ofExcept {α : Type} : Except ScanError α → Sync α
  | .ok a => return a
  | .error e => .raise e

/-- `_scan_row_groups`, with `remaining` groups to go from `group` on. -/
def scanRowGroups (stop : StopPoint → Bool) (shard : Shard) (total position : Nat) :
    Nat → Nat → Sync Bool
  | 0, _ => return true
  | remaining + 1, group => do
    if stop (.rowGroup position group) then
      return false
    else do
      let indexed ← ofExcept (scanIndexRowGroup shard.fingerprint.legacy
        (contents shard.path shard.fingerprint) group)
      Prog.step (commitIndexedRowGroup casefold shard total group indexed)
      scanRowGroups stop shard total position remaining (group + 1)

def totalRowGroups (shard : Shard) : Nat := (contents shard.path shard.fingerprint).rowGroups.length

/-- `_prepare_shard`: the row group to go on with. -/
def prepareShard (shard : Shard) (progress : AList (fun _ : String => Progress)) : Sync Nat := do
  if (contents shard.path shard.fingerprint).valid then do
    let first := resumableRowGroup (progress.lookup shard.path) shard.fingerprint
      (totalRowGroups contents shard)
    if first = 0 then
      Prog.step (restartShard shard (totalRowGroups contents shard))
    return first
  else
    .raise (.invalidShard shard.path)

def syncShard (stop : StopPoint → Bool) (shard : Shard)
    (progress : AList (fun _ : String => Progress)) (position : Nat) : Sync Bool := do
  let first ← prepareShard contents shard progress
  let completed ← scanRowGroups casefold contents stop shard (totalRowGroups contents shard)
    position (totalRowGroups contents shard - first) first
  if completed then
    Prog.step (finalizeShard shard)
  return completed

/-- `_sync_file`: whether to go on, and whether the row count has been invalidated. -/
def syncFile (stop : StopPoint → Bool) (shard : Shard) (known : AList (fun _ : String => Fingerprint))
    (progress : AList (fun _ : String => Progress)) (position : Nat) (invalidated : Bool) :
    Sync (Bool × Bool) := do
  if stop (.shard position) then
    return (false, invalidated)
  else if known.lookup shard.path = some shard.fingerprint then do
    if (progress.lookup shard.path).isSome then
      Prog.step (fun db => { db with scanProgress := db.scanProgress.erase shard.path })
    return (true, invalidated)
  else do
    if ¬ invalidated then
      Prog.step (fun db => { db with rowCount := none })
    let completed ← syncShard casefold contents stop shard progress position
    return (completed, true)

/-! ## All shards -/

def syncFiles (stop : StopPoint → Bool) (known : AList (fun _ : String => Fingerprint))
    (progress : AList (fun _ : String => Progress)) : List Shard → Nat → Bool → Sync Bool
  | [], _, _ => return true
  | shard :: shards, position, invalidated => do
    let (completed, invalidated) ← syncFile casefold contents stop shard known progress position
      invalidated
    if completed then
      syncFiles stop known progress shards (position + 1) invalidated
    else
      return false

def finishSync : Sync Bool := do
  let db ← Prog.get
  match db.rowCount with
  | some _ => return true
  | none => do
    Prog.step (fun db' => { db' with rowCount := some (countDistinctDocuments db) })
    return true

/-- `_sync`. -/
def sync (stop : StopPoint → Bool) (files : List Shard) : Sync Bool := do
  let db ← Prog.get
  let stale := db.fileState.keys.filter (fun path => path ∉ files.map Shard.path)
  if stale ≠ [] then
    Prog.step (deleteStalePaths stale)
  let completed ← syncFiles casefold contents stop db.fileState db.scanProgress files 1 (stale ≠ [])
  if completed then
    finishSync
  else
    return false

end OsmPolygonWikidata.V1Index
