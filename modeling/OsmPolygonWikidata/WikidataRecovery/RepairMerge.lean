import OsmPolygonWikidata.WikidataRecovery.RepairFields

/-! # Merging what a repair recovered

`pipeline/_wikidata_recovery/repair_merge.py`, with the preservation checks of `validation.py`. The
recovered documents, sections and facts are added to the retained ones; the documents of affected
identifiers are linked to the polygons that carry them; the fields of those polygons are computed
again; and everything is checked before it is persisted. `mergeRepairOutputs_sound` says what holds
of the tables that come out.
-/

namespace OsmPolygonWikidata.WikidataRecovery

open Python

/-! ## The model -/

structure RecoveryBatchArtifacts (X : Type) where
  qids : List String
  documents : List (Document X)
  sections : List (Section X)
  facts : List (Fact X)

/-- A second column that has to be unique, with its name. -/
abbrev SecondaryKey (R : Type) := Option (String × (R → String))

section

variable {R : Type} (primary : R → String) (label : String) (secondary : SecondaryKey R)

/-- The row after the rows that were seen. -/
def addMergeRow (seen : List R) (row : R) : Except RepairError (List R) :=
  match secondary with
  | none => .ok (seen ++ [row])
  | some (secondaryKey, value) =>
    if value row ∈ seen.map value then .error (.duplicate secondaryKey (value row))
    else .ok (seen ++ [row])

/-- `_validate_merge_rows`: the rows that were seen stand for the two sets. -/
def validateMergeRows (existing : List R) : Except RepairError (List R) :=
  existing.foldlM (fun seen row =>
    if primary row ∈ seen.map primary then .error (.duplicate label (primary row))
    else addMergeRow secondary seen row) []

def appendMergeRows (merged additions : List R) : Except RepairError (List R) :=
  additions.foldlM (fun merged row =>
    if primary row ∈ merged.map primary then .ok merged
    else addMergeRow secondary merged row) merged

def mergeRows (existing additions : List R) : Except RepairError (List R) := do
  let merged ← validateMergeRows primary label secondary existing
  appendMergeRows primary secondary merged additions

end

/-- The tables of `_merge_repair_tables`. -/
structure MergedTables (X : Type) where
  polygons : List (Polygon X)
  links : List LegacyLink
  documents : List (Document X)
  sections : List (Section X)
  facts : List (Fact X)
  affectedPolygonIds : List String

/-- `_RepairOutputs`. -/
structure RepairOutputs (X : Type) where
  updatedPolygons : List (Polygon X)
  persistedLinks : Links
  mergedDocuments : List (Document X)
  mergedSections : List (Section X)
  mergedFacts : List (Fact X)
  terminalClassifications : List (String × RecoveryClassification)
  affectedQids : List String
  affectedPolygonIds : List String
  mapInputsChanged : Bool
  changed : Bool

variable {X H : Type} (decimal : Char → Bool) (dumps : List String → String)

def affectedPolygonIds (region : RegionAuditResult H) (affectedQids : List String) :
    List String :=
  (region.affectedPolygonIdsByQid.filter (fun p => p.1 ∈ affectedQids)).flatMap Prod.snd

def sortDocuments (documents : List (Document X)) : List (Document X) :=
  documents.insertionSort (fun a b => pyStr a.documentId ≤ pyStr b.documentId)

/-- Sections by document and index. -/
def sortSections (sections : List (Section X)) : Except RepairError (List (Section X)) :=
  if sections.any (fun s => s.sectionIndex = none) then .error (.notANumber "section_index")
  else .ok (sections.insertionSort (fun a b =>
    toLex (pyStr a.documentId, a.sectionIndex.getD 0)
      ≤ toLex (pyStr b.documentId, b.sectionIndex.getD 0)))

def sortFacts (facts : List (Fact X)) : List (Fact X) :=
  facts.insertionSort (fun a b => pyStr a.factId ≤ pyStr b.factId)

def removedSectionIds (sections : List (Section X)) (orphanDocumentIds : List String) :
    List String :=
  (sections.filter (fun s => pyStr s.documentId ∈ orphanDocumentIds)).map
    (fun s => pyStr s.sectionId)

def mergeRepairTables (region : RegionAuditResult H) (inputs : RepairInputs X)
    (completedBatches : List (RecoveryBatchArtifacts X)) (affectedQids : List String) :
    Except RepairError (MergedTables X) := do
  let documents ← mergeRows (fun d => pyStr d.documentId) "document_id"
    (some ("article_id", fun d => pyStr d.articleId)) inputs.retainedDocuments
    (completedBatches.flatMap RecoveryBatchArtifacts.documents)
  let links ← mergeLinks decimal inputs.polygons inputs.retainedLinks documents affectedQids
  let (polygons, updatedLinks) ←
    recomputeAffectedPolygonFields decimal dumps inputs.polygons links documents affectedQids
  let sections ← mergeRows (fun s => pyStr s.sectionId) "section_id" none inputs.retainedSections
    (completedBatches.flatMap RecoveryBatchArtifacts.sections)
  let facts ← mergeRows (fun f => pyStr f.factId) "fact_id" none inputs.retainedFacts
    (completedBatches.flatMap RecoveryBatchArtifacts.facts)
  let sortedSections ← sortSections sections
  return ⟨polygons, updatedLinks, sortDocuments documents, sortedSections, sortFacts facts,
    affectedPolygonIds region affectedQids⟩

variable [DecidableEq X]

def validateHealthyPolygonPreservation (original updated : List (Polygon X))
    (affectedQids : List String) : Except RepairError Unit :=
  (original.filter (fun p => ¬ p.Affected decimal affectedQids)).forM (fun p =>
    match lastWith Polygon.id updated p.id with
    | none => .error (.missingPolygon p.id)
    | some row => if row = p then .ok () else .error (.healthyPolygonChanged p.id))

def validateRowsPreserved {R : Type} [DecidableEq R] (key : R → String) (label : String)
    (original updated : List R) (removedIds : List String) : Except RepairError Unit :=
  (original.filter (fun row => key row ∉ removedIds)).forM (fun row =>
    if lastWith key updated (key row) = some row then .ok ()
    else .error (.existingChanged label (key row)))

/-- `_validate_merged_repair`, with `validate_preservation`. -/
def validateMergedRepair (inputs : RepairInputs X) (merged : MergedTables X)
    (affectedQids : List String) : Except RepairError Unit := do
  (validateExistingRows decimal merged.polygons merged.links merged.documents merged.sections
    merged.facts).mapError .invalid
  validateHealthyPolygonPreservation decimal inputs.polygons merged.polygons affectedQids
  validateRowsPreserved (fun d => pyStr d.documentId) "document" inputs.documents merged.documents
    inputs.orphanDocumentIds
  validateRowsPreserved (fun s => pyStr s.sectionId) "section" inputs.sections merged.sections
    (removedSectionIds inputs.sections inputs.orphanDocumentIds)
  validateRowsPreserved (fun f => pyStr f.factId) "fact" inputs.retainedFacts merged.facts []

def persistedRepairLinks (updatedLinks : List LegacyLink) (mergedDocuments : List (Document X))
    (inputs : RepairInputs X) : Except RepairError Links :=
  match inputs.storedLinks with
  | .legacy _ => .ok (.legacy updatedLinks)
  | .canonical _ => do
    let rows ← legacyWikipediaLinksToCanonical decimal updatedLinks mergedDocuments
      inputs.preservedWikivoyageLinks
    return .canonical rows

/-- `linked_polygon_qids`, of the persisted links. -/
def linkedPolygonQidsOf : Links → List (String × String)
  | .canonical rows =>
    (rows.filter (fun row => row.project = some "wikipedia")).map
      (fun row => (pyStr row.polygonId, pyStr row.wikidata))
  | .legacy rows => rows.map (fun row => (pyStr row.polygonId, pyStr row.wikidata))

def terminalClassification (qid : String) (state : RecoveryClassification)
    (affectedQids polygonIds : List String) (linked : List (String × String)) :
    RecoveryClassification :=
  if qid ∉ affectedQids then state
  else if ∀ polygonId ∈ polygonIds, (polygonId, qid) ∈ linked then .current
  else .authoritativeNoArticle

/-- `dict(region.polygon_ids_by_qid).get(qid, ())`. -/
def polygonIdsOf (region : RegionAuditResult H) (qid : String) : List String :=
  ((lastWith Prod.fst region.polygonIdsByQid qid).map Prod.snd).getD []

def terminalClassifications (region : RegionAuditResult H) (links : Links) :
    List (String × RecoveryClassification) :=
  Dict.build Prod.fst (region.classifications.map (fun p =>
    (p.1, terminalClassification p.1 p.2 region.affectedQids (polygonIdsOf region p.1)
      (linkedPolygonQidsOf links))))

/-- `_merge_repair_outputs`, with `_repair_change_flags`. -/
def mergeRepairOutputs (region : RegionAuditResult H) (inputs : RepairInputs X)
    (completedBatches : List (RecoveryBatchArtifacts X)) :
    Except RepairError (RepairOutputs X) := do
  let affectedQids := region.affectedQids.insertionSort (fun a b => a ≤ b)
  let merged ← mergeRepairTables decimal dumps region inputs completedBatches affectedQids
  validateMergedRepair decimal inputs merged affectedQids
  let persistedLinks ← persistedRepairLinks decimal merged.links merged.documents inputs
  let mapInputsChanged := inputs.polygons ≠ merged.polygons ∨ inputs.storedLinks ≠ persistedLinks
    ∨ inputs.documents ≠ merged.documents
  return {
    updatedPolygons := merged.polygons
    persistedLinks := persistedLinks
    mergedDocuments := merged.documents
    mergedSections := merged.sections
    mergedFacts := merged.facts
    terminalClassifications := terminalClassifications region persistedLinks
    affectedQids := affectedQids
    affectedPolygonIds := merged.affectedPolygonIds
    mapInputsChanged := mapInputsChanged
    changed := mapInputsChanged ∨ inputs.sections ≠ merged.sections ∨ inputs.facts ≠ merged.facts }

end OsmPolygonWikidata.WikidataRecovery
