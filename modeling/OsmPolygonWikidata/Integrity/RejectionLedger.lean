import Mathlib
import OsmPolygonWikidata.Basic.Durable
import OsmPolygonWikidata.Domain.WikidataQids

/-! # Integrity normalisation

`augmentation/rejection_ledger.py` and `augmentation/_wikivoyage_membership.py`. A plan reads the
polygons, the Wikivoyage documents and the sections of a region. Documents whose item no polygon
carries are rejected, and their sections with them; each rejection becomes a record with the number
of sections it took along. Applying the plan replaces the documents, the sections, the region's
ledger and the cumulative ledger, in this order. Each replacement is one step, and a run can be
stopped in front of every step.
-/

namespace OsmPolygonWikidata.Integrity

open Durable Python

/-! ## Records -/

structure RejectionRecord where
  shard : String
  sourceTable : String
  identifier : String
  wikidata : String
  expected : Option String
  reason : String
  cascadedSections : Int
  deriving DecidableEq

/-- `RejectionRecord.identity`. -/
def RejectionRecord.identity (r : RejectionRecord) :
    String × String × String × String × Option String :=
  (r.shard, r.sourceTable, r.identifier, r.wikidata, r.expected)

/-- The sort key of both ledgers. -/
def RejectionRecord.sortKey (r : RejectionRecord) : List String :=
  [r.shard, r.sourceTable, r.identifier, r.wikidata]

inductive IntegrityError where
  | emptyField (name : String)
  | unsupportedSourceTable (table : String)
  | observedNotAQid (wikidata : String)
  | expectedNotAQid (expected : String)
  | negativeCascade (sections : Int)
  | polygonsMissing
  | documentsMissing
  | malformedLedger
  | invalidContractVersion
  deriving DecidableEq

def supportedSourceTables : List String := ["polygon_articles", "wikivoyage_documents"]

variable (decimal : Char → Bool)

/-- `_is_valid_qid`. -/
def validQid (value : String) : Bool := !(qidsFromOsmTag decimal value).isEmpty

def RejectionRecord.postInit (r : RejectionRecord) : Except IntegrityError RejectionRecord :=
  if r.shard = "" then .error (.emptyField "shard")
  else if r.identifier = "" then .error (.emptyField "identifier")
  else if r.reason = "" then .error (.emptyField "reason")
  else if r.sourceTable ∉ supportedSourceTables then .error (.unsupportedSourceTable r.sourceTable)
  else if validQid decimal r.wikidata = false then .error (.observedNotAQid r.wikidata)
  else match r.expected with
    | some expected =>
      if validQid decimal expected = false then .error (.expectedNotAQid expected)
      else if r.cascadedSections < 0 then .error (.negativeCascade r.cascadedSections)
      else .ok r
    | none => if r.cascadedSections < 0 then .error (.negativeCascade r.cascadedSections) else .ok r

/-- A record among those of other identities, or merged into the one of its own. The constructor's
checks pass, since they passed for both. -/
def mergeRecord (r : RejectionRecord) : List RejectionRecord → List RejectionRecord
  | [] => [r]
  | existing :: rest =>
    if existing.identity = r.identity then
      { existing with cascadedSections := max existing.cascadedSections r.cascadedSections } :: rest
    else existing :: mergeRecord r rest

/-- `sorted(records, key=...)`. -/
def sortRecords (records : List RejectionRecord) : List RejectionRecord :=
  records.insertionSort (fun a b => a.sortKey ≤ b.sortKey)

def mergeRecords (records : List RejectionRecord) : List RejectionRecord :=
  sortRecords (records.foldl (fun byIdentity r => mergeRecord r byIdentity) [])

/-! ## The tables of a region -/

/-- A row of the documents table. `data` is the other columns. -/
structure DocumentRow (D : Type) where
  documentId : Option String
  wikidata : Option String
  data : D
  deriving DecidableEq

/-- A row of the sections table. -/
structure SectionRow (S : Type) where
  documentId : Option String
  data : S
  deriving DecidableEq

/-- A ledger file: no JSON, JSON of another kind, or records. -/
inductive LedgerFile where
  | malformed
  | foreign
  | records (records : List RejectionRecord)
  deriving DecidableEq

/-- The files of a region, and the cumulative ledger. A file that is not there is `none`. -/
structure Region (D S : Type) where
  polygons : Option (List (Option String))
  documents : Option (List (DocumentRow D))
  sections : Option (List (SectionRow S))
  stemLedger : Option LedgerFile
  ledger : Option LedgerFile

structure IntegrityPlan (D S : Type) where
  retainedDocuments : List (DocumentRow D)
  retainedSections : List (SectionRow S)
  rejections : List RejectionRecord

variable {D S : Type} (stem : String)

/-! ## Planning -/

def polygonQids (polygons : List (Option String)) : List String :=
  polygons.flatMap (fun raw => qidsFromOsmTag decimal (pyStr raw))

/-- `partition_wikivoyage_documents`: the retained rows, and the identifier and the item of the
others. -/
def partitionWikivoyageDocuments (validQids : List String) :
    List (DocumentRow D) → List (DocumentRow D) × List (String × String)
  | [] => ([], [])
  | row :: rows =>
    let (retained, rejected) := partitionWikivoyageDocuments validQids rows
    if pyStr row.wikidata ∈ validQids then (row :: retained, rejected)
    else (retained, (pyStr row.documentId, pyStr row.wikidata) :: rejected)

/-- The record of a rejected document, before its sections are counted. -/
def documentRejection (rejected : String × String) : RejectionRecord :=
  ⟨stem, "wikivoyage_documents", rejected.1, rejected.2, none, "wikidata_absent_from_polygons", 0⟩

def retainDocuments (validQids : List String) (rows : List (DocumentRow D)) :
    Except IntegrityError (List (DocumentRow D) × List String × List RejectionRecord) := do
  let (retained, rejected) := partitionWikivoyageDocuments validQids rows
  let rejections ← rejected.mapM (fun r => (documentRejection stem r).postInit decimal)
  return (retained, rejected.map Prod.fst, rejections)

/-- `_retain_sections`: the retained rows, and how many were dropped for each document. -/
def retainSections (rejectedIds : List String) :
    List (SectionRow S) → List (SectionRow S) × (String → Nat)
  | [] => ([], fun _ => 0)
  | row :: rows =>
    let (retained, cascades) := retainSections rejectedIds rows
    if pyStr row.documentId ∈ rejectedIds then
      (retained, fun id => if id = pyStr row.documentId then cascades id + 1 else cascades id)
    else (row :: retained, cascades)

def attachCascadeCounts (rejections : List RejectionRecord) (cascades : String → Nat) :
    List RejectionRecord :=
  rejections.map (fun r => { r with cascadedSections := cascades r.identifier })

def planIntegrityNormalization (region : Region D S) :
    Except IntegrityError (IntegrityPlan D S) := do
  match region.polygons with
  | none => .error .polygonsMissing
  | some polygons =>
    match region.documents with
    | none => .error .documentsMissing
    | some documents => do
      let (retained, rejectedIds, rejections) ←
        retainDocuments decimal stem (polygonQids decimal polygons) documents
      let (sections, cascades) := retainSections rejectedIds (region.sections.getD [])
      return ⟨retained, sections, mergeRecords (attachCascadeCounts rejections cascades)⟩

/-! ## Applying -/

/-- The program type of this module. -/
abbrev Action (D S : Type) := Prog (Region D S) IntegrityError

/-- `load_ledger` of a file that is there. -/
def loadLedger : LedgerFile → Except IntegrityError (List RejectionRecord)
  | .malformed => .error .malformedLedger
  | .foreign => .error .invalidContractVersion
  | .records records => records.mapM (RejectionRecord.postInit decimal)

/-- Raise what a computation raises. -/
def lift {A : Type} : Except IntegrityError A → Action D S A
  | .ok a => return a
  | .error e => .raise e

/-- `save_ledger`: an unchanged file is not written again. -/
def saveLedger (file : Option LedgerFile) (write : LedgerFile → Region D S → Region D S)
    (records : List RejectionRecord) : Action D S Unit :=
  match file with
  | some .malformed => .raise .malformedLedger
  | some existing =>
    if existing = .records (sortRecords records) then return ()
    else Prog.step (write (.records (sortRecords records)))
  | none => Prog.step (write (.records (sortRecords records)))

/-- `_write_integrity_ledgers`, with `merge_ledger_files`. -/
def writeIntegrityLedgers (rejections : List RejectionRecord) : Action D S Unit := do
  let s ← Prog.get
  saveLedger s.stemLedger (fun file s => { s with stemLedger := some file }) rejections
  let s ← Prog.get
  let stemRecords ← lift ((s.stemLedger.map (loadLedger decimal)).getD (.ok []))
  let records ← lift ((s.ledger.map (loadLedger decimal)).getD (.ok []))
  saveLedger s.ledger (fun file s => { s with ledger := some file })
    (mergeRecords (stemRecords ++ records))

def applyIntegrityNormalization (plan : IntegrityPlan D S) : Action D S Unit := do
  Prog.step (fun s => { s with documents := some plan.retainedDocuments })
  Prog.step (fun s => { s with sections := some plan.retainedSections })
  writeIntegrityLedgers decimal plan.rejections

/-- A plan, applied. -/
def normalize : Action D S Unit := do
  let s ← Prog.get
  let plan ← lift (planIntegrityNormalization decimal stem s)
  applyIntegrityNormalization decimal plan

end OsmPolygonWikidata.Integrity
