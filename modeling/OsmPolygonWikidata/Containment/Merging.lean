import Mathlib.Data.List.Sort
import Mathlib.Data.List.Dedup
import Mathlib.Data.String.Basic
import OsmPolygonWikidata.Basic.PyString

/-! # Merging contained regions into their parent

`pipeline/containment_policy.py`, `pipeline/containment_audit.py` and the pure part of
`pipeline/containment_migration.py`. A containment rule names a parent region and children whose
polygons it contains. An audit compares the seven tables of each child with those of the parent.
Staging merges the children into the parent: the newest snapshot of each polygon is kept under the
parent's provenance, and of every other table the rows whose identity the parent lacks are
appended.

A row is the dictionary that `to_pylist` gives, a function from column names. Bytes are of an
arbitrary type `C`; reading and writing Parquet files are the fields `decode` and `encode` of
`Runtime`.
-/

namespace OsmPolygonWikidata.Containment

open Python

/-! ## Policy -/

/-- The sub-directories of the tables. -/
inductive Subdir where
  | polygons
  | polygonArticles
  | wikipediaDocuments
  | wikipediaSections
  | wikivoyageDocuments
  | wikivoyageSections
  | wikidataFacts
  deriving DecidableEq

def Subdir.path : Subdir → String
  | .polygons => "polygons"
  | .polygonArticles => "polygon_articles"
  | .wikipediaDocuments => "wikipedia/documents"
  | .wikipediaSections => "wikipedia/sections"
  | .wikivoyageDocuments => "wikivoyage/documents"
  | .wikivoyageSections => "wikivoyage/sections"
  | .wikidataFacts => "wikidata/facts"

structure ContainmentRule where
  parent : String
  children : List String

structure TableContract where
  subdir : Subdir
  identityColumns : List String
  deriving DecidableEq

def containmentRules : List ContainmentRule :=
  [⟨"brandenburg-latest", ["berlin-latest"]⟩,
    ⟨"china-guangdong-latest", ["china-hong-kong-latest", "china-macau-latest"]⟩,
    ⟨"china-hebei-latest", ["china-beijing-latest", "china-tianjin-latest"]⟩,
    ⟨"indonesia-nusa-tenggara-latest", ["east-timor-latest"]⟩,
    ⟨"italy-latest", ["centro-latest", "nord-est-latest"]⟩,
    ⟨"morocco-latest", ["ceuta-latest", "melilla-latest"]⟩,
    ⟨"niedersachsen-latest", ["bremen-latest"]⟩]

def tableContracts : List TableContract :=
  [⟨.polygons, ["osm_type", "osm_id"]⟩, ⟨.polygonArticles, ["osm_type", "osm_id", "article_id"]⟩,
    ⟨.wikipediaDocuments, ["document_id"]⟩,
    ⟨.wikipediaSections, ["section_id"]⟩,
    ⟨.wikivoyageDocuments, ["document_id"]⟩,
    ⟨.wikivoyageSections, ["section_id"]⟩,
    ⟨.wikidataFacts, ["fact_id"]⟩]

inductive ContainmentError where
  | invalidStem (stem : String)
  | notSafeToStage (parent : String) (blockers : List String)
  | keyError
  | typeError
  | fileNotFound
  | arrow (name : String)
  | malformedManifest
  | unsupportedContractVersion
  | malformedRetirements
  deriving DecidableEq

/-- `type(error).__name__`. -/
def ContainmentError.name : ContainmentError → String
  | .keyError => "KeyError"
  | .typeError => "TypeError"
  | .fileNotFound => "FileNotFoundError"
  | .arrow name => name
  | _ => "ValueError"

/-- The parts of a stem between its hyphens. -/
def stemParts (stem : String) : List (List Char) := stem.toList.splitOn '-'

/-- `validate_stem`. The pattern asks for at least two parts of lower-case letters and digits, the
last one `latest`. -/
def validateStem (stem : String) : Except ContainmentError String :=
  if (stemParts stem).all (fun part => part ≠ [] && part.all (fun c => c.isLower || c.isDigit))
      && 2 ≤ (stemParts stem).length
      && (stemParts stem).getLast? = some "latest".toList then .ok stem
  else .error (.invalidStem stem)

/-! ## Rows and tables -/

/-- A value of a column. -/
inductive Value (X : Type) where
  | null
  | int (i : Int)
  | str (s : String)
  | other (x : X)
  deriving DecidableEq

/-- A row as a dictionary. -/
abbrev Row (X : Type) := String → Option (Value X)

/-- The columns of a table, and everything else its schema says. -/
structure Schema where
  columns : List String
  description : String
  deriving DecidableEq

/-- A table whose rows have exactly the columns of its schema. -/
structure Table (X : Type) where
  schema : Schema
  rows : List (Row X)
  columns_iff : ∀ row ∈ rows, ∀ c, (row c).isSome = true ↔ c ∈ schema.columns

/-- What the code takes from elsewhere: how Parquet files are read and written, the digest of a
file, how Python prints other values, the statistics of the staged polygons and documents, the data
directory, and what a cut copy leaves. -/
structure Runtime (X C J : Type) where
  decode : C → Except String (Table X)
  encode : Table X → Except String C
  sha256File : C → String
  repr : X → String
  manifestStats : Table X → Table X → Except String (String → Option J)
  dataRoot : String
  torn : C → C

/-- The active tables. -/
abbrev Tables (C : Type) := Subdir → String → Option C

variable {X C J : Type}

/-- The row with the columns of a schema: `from_pylist` takes a missing column for null. -/
def project (columns : List String) (row : Row X) : Row X := fun c =>
  if c ∈ columns then some ((row c).getD .null) else none

/-- `pa.Table.from_pylist(rows, schema)`. -/
def Table.fromPylist (rows : List (Row X)) (schema : Schema) : Table X where
  schema := schema
  rows := rows.map (project schema.columns)
  columns_iff := by
    intro row hrow c
    obtain ⟨row', -, rfl⟩ := List.mem_map.mp hrow
    unfold project
    split
    · simp_all
    · simp_all

/-- `_identity`. -/
def identity (columns : List String) (row : Row X) : Option (List (Value X)) := columns.mapM row

/-- Raise `KeyError` where a column is missing. -/
def orKeyError {A : Type} : Option A → Except ContainmentError A
  | some a => .ok a
  | none => .error .keyError

/-- Read a table file. -/
def readTable (rt : Runtime X C J) : Option C → Except ContainmentError (Table X)
  | none => .error .fileNotFound
  | some c => (rt.decode c).mapError .arrow

/-! ## Audit -/

structure TableAudit where
  subdir : Subdir
  childRows : Nat
  missingFromParent : Nat
  parentDuplicateIdentities : Nat
  childDuplicateIdentities : Nat

structure ChildAudit where
  stem : String
  tables : List TableAudit

structure RuleAudit where
  parent : String
  children : List ChildAudit
  blockers : List String

def RuleAudit.safeToStage (audit : RuleAudit) : Bool := audit.blockers.isEmpty

section

variable [DecidableEq X] (rt : Runtime X C J) (tables : Tables C)

/-- `_identity_set`: the distinct identities, and how many rows repeat one. -/
def identitySet (table : Table X) (contract : TableContract) :
    Except ContainmentError (List (List (Value X)) × Nat) := do
  let identities ← orKeyError (table.rows.mapM (identity contract.identityColumns))
  return (identities.dedup, table.rows.length - identities.dedup.length)

def duplicateBlockers (child : String) (subdir : Subdir) (parentDuplicates childDuplicates : Nat) :
    List String :=
  (if parentDuplicates ≠ 0 then
    [s!"{child}: {subdir.path} parent has {parentDuplicates} duplicate identities"] else [])
  ++ (if childDuplicates ≠ 0 then
    [s!"{child}: {subdir.path} child has {childDuplicates} duplicate identities"] else [])

/-- The audit of two readable files. A schema mismatch is no exception. -/
def comparePresent (contract : TableContract) (child : String) (parentFile childFile : C) :
    Except ContainmentError (TableAudit × List String) := do
  let parentTable ← readTable rt (some parentFile)
  let childTable ← readTable rt (some childFile)
  if parentTable.schema ≠ childTable.schema then
    return (⟨contract.subdir, 0, 0, 0, 0⟩, [s!"{child}: schema mismatch for {contract.subdir.path}"])
  else do
    let (parentIds, parentDuplicates) ← identitySet parentTable contract
    let (childIds, childDuplicates) ← identitySet childTable contract
    return (⟨contract.subdir, childIds.length, (childIds.filter (fun i => i ∉ parentIds)).length,
      parentDuplicates, childDuplicates⟩,
      duplicateBlockers child contract.subdir parentDuplicates childDuplicates)

def auditPresentContract (contract : TableContract) (child : String) (parentFile childFile : C) :
    TableAudit × List String :=
  match comparePresent rt contract child parentFile childFile with
  | .ok result => result
  | .error error => (⟨contract.subdir, 0, 0, 0, 0⟩,
      [s!"{child}: unreadable {contract.subdir.path}: {error.name}"])

/-- The blocker of a file that is not there. -/
def missingBlocker (child : String) (subdir : Subdir) (stem : String) : String :=
  s!"{child}: missing file {subdir.path}/{stem}.parquet"

def auditContract (contract : TableContract) (parent child : String) : TableAudit × List String :=
  match tables contract.subdir parent, tables contract.subdir child with
  | some parentFile, some childFile => auditPresentContract rt contract child parentFile childFile
  | parentFile, childFile => (⟨contract.subdir, 0, 0, 0, 0⟩,
      (if parentFile.isNone then [missingBlocker child contract.subdir parent] else [])
        ++ (if childFile.isNone then [missingBlocker child contract.subdir child] else []))

def auditChild (parent child : String) : ChildAudit × List String :=
  let audits := tableContracts.map (fun contract => auditContract rt tables contract parent child)
  (⟨child, audits.map Prod.fst⟩, audits.flatMap Prod.snd)

/-- Sorted as Python sorts strings. -/
def sorted (xs : List String) : List String := xs.insertionSort (· ≤ ·)

def auditRule (rule : ContainmentRule) : Except ContainmentError RuleAudit := do
  let parent ← validateStem rule.parent
  let children ← (sorted rule.children).mapM validateStem
  let audits := children.map (auditChild rt tables parent)
  return ⟨parent, audits.map Prod.fst, sorted (audits.flatMap Prod.snd)⟩

end

/-! ## Merging polygons -/

variable (rt : Runtime X C J)

/-- `left > right`. -/
def greater : Value X → Value X → Except ContainmentError Bool
  | .str a, .str b => .ok (b < a)
  | .int a, .int b => .ok (b < a)
  | _, _ => .error .typeError

/-- `str(value)`. -/
def Value.pyStr (repr : X → String) : Value X → String
  | .null => "None"
  | .int i => toString i
  | .str s => s
  | .other x => repr x

/-- `str.removesuffix`. -/
def removeSuffix (s suffix : String) : String :=
  if suffix.toList <:+ s.toList then
    String.ofList (s.toList.take (s.toList.length - suffix.toList.length))
  else s

def parentOrDefault (parent : Option (Row X)) (field default : String) : String :=
  match parent with
  | none => default
  | some row => ((row field).map (Value.pyStr rt.repr)).getD default

def polygonProvenance (parent : Option (Row X)) (child : Row X) (parentStem : String) :
    Except ContainmentError String :=
  match parent with
  | some row => do
    let value ← orKeyError (row "polygon_id")
    return value.pyStr rt.repr
  | none => do
    let osmType ← orKeyError (child "osm_type")
    let osmId ← orKeyError (child "osm_id")
    return s!"{parentStem}:{osmType.pyStr rt.repr}:{osmId.pyStr rt.repr}"

/-- The fields of a polygon that name its region. -/
inductive Provenance where
  | polygonId
  | region
  | sourcePbf
  deriving DecidableEq

def Provenance.field : Provenance → String
  | .polygonId => "polygon_id"
  | .region => "region"
  | .sourcePbf => "source_pbf"

def canonicalProvenanceValue (field : Provenance) (parent : Option (Row X)) (child : Row X)
    (parentStem : String) : Except ContainmentError String :=
  match field with
  | .polygonId => polygonProvenance rt parent child parentStem
  | .region => .ok (parentOrDefault rt parent "region" (removeSuffix parentStem "-latest"))
  | .sourcePbf => .ok (parentOrDefault rt parent "source_pbf" (parentStem ++ ".osm.pbf"))

/-- One turn of the loop of `_canonical_polygon_row`. -/
def setProvenance (parent : Option (Row X)) (child : Row X) (parentStem : String)
    (canonical : Row X) (field : Provenance) : Except ContainmentError (Row X) :=
  if (canonical field.field).isSome then do
    let value ← canonicalProvenanceValue rt field parent child parentStem
    return Function.update canonical field.field (some (.str value))
  else .ok canonical

/-- The newest of the two snapshots. -/
def newestRow (parent : Option (Row X)) (child : Row X) : Except ContainmentError (Row X) :=
  match parent with
  | none => .ok child
  | some row => do
    let newer ← greater ((child "extracted_at").getD (.str ""))
      ((row "extracted_at").getD (.str ""))
    return if newer then child else row

def canonicalPolygonRow (parent : Option (Row X)) (child : Row X) (parentStem : String) :
    Except ContainmentError (Row X) := do
  let newest ← newestRow parent child
  let row ← setProvenance rt parent child parentStem newest .polygonId
  let row ← setProvenance rt parent child parentStem row .region
  setProvenance rt parent child parentStem row .sourcePbf

/-- The last element with a property, and what is around it. -/
def splitLast {A : Type} (p : A → Bool) : List A → Option (List A × A × List A)
  | [] => none
  | x :: xs =>
    match splitLast p xs with
    | some (before, y, after) => some (x :: before, y, after)
    | none => if p x then some ([], x, xs) else none

/-- The identity of a polygon. -/
def polygonKey (row : Row X) : Option (List (Value X)) := identity ["osm_type", "osm_id"] row

variable [DecidableEq X]

/-- One turn of `_merge_child_polygon_rows`. The recorded position of an identity is that of its
last row. -/
def mergeChildPolygonRow (parentStem : String) (polygonRows : List (Row X)) (childRow : Row X) :
    Except ContainmentError (List (Row X)) := do
  let key ← orKeyError (polygonKey childRow)
  match splitLast (fun row => polygonKey row = some key) polygonRows with
  | none => do
    let row ← canonicalPolygonRow rt none childRow parentStem
    return polygonRows ++ [row]
  | some (before, row, after) => do
    let row ← canonicalPolygonRow rt (some row) childRow parentStem
    return before ++ row :: after

/-- The rows of several tables, one after the other. -/
def readChildren (tables : Tables C) (subdir : Subdir) :
    List String → Except ContainmentError (List (Row X))
  | [] => return []
  | child :: children => do
    let table ← readTable rt (tables subdir child)
    let rows ← readChildren tables subdir children
    return table.rows ++ rows

def mergePolygonRows (tables : Tables C) (parentStem : String) (children : List String) :
    Except ContainmentError (List (Row X)) := do
  let parent ← readTable rt (tables .polygons parentStem)
  let _ ← orKeyError (parent.rows.mapM polygonKey)
  let childRows ← readChildren rt tables .polygons children
  childRows.foldlM (mergeChildPolygonRow rt parentStem) parent.rows

/-! ## Merging the other tables -/

/-- `_remap_link`. The last row of an identity stands in `parent_polygons`. -/
def remapLink (row : Row X) (parentStem : String) (polygonRows : List (Row X)) :
    Except ContainmentError (Row X) :=
  if (row "polygon_id").isNone then .ok row
  else do
    let key ← orKeyError (polygonKey row)
    let (_, polygon, _) ← orKeyError (splitLast (fun r => polygonKey r = some key) polygonRows)
    let polygonId ← orKeyError (polygon "polygon_id")
    let remapped : Row X := Function.update row "polygon_id" (some polygonId)
    let remapped : Row X :=
      if (remapped "source_pbf").isSome then Function.update remapped "source_pbf"
        (some ((polygon "source_pbf").getD (.str (parentStem ++ ".osm.pbf"))))
      else remapped
    return if (remapped "region").isSome then Function.update remapped "region"
        (some ((polygon "region").getD (.str (removeSuffix parentStem "-latest"))))
      else remapped

/-- The row that is appended for a child's. -/
def candidateRow (contract : TableContract) (childRow : Row X) (parentStem : String)
    (polygonRows : List (Row X)) : Except ContainmentError (Row X) :=
  if contract.subdir = .polygonArticles then remapLink childRow parentStem polygonRows
  else .ok childRow

/-- One turn of `_append_child_rows`: the rows and the identities seen. -/
def appendChildRow (contract : TableContract) (parentStem : String) (polygonRows : List (Row X))
    (acc : List (Row X) × List (List (Value X))) (childRow : Row X) :
    Except ContainmentError (List (Row X) × List (List (Value X))) := do
  let key ← orKeyError (identity contract.identityColumns childRow)
  if key ∈ acc.2 then return acc
  else do
    let candidate ← candidateRow contract childRow parentStem polygonRows
    return (acc.1 ++ [candidate], acc.2 ++ [key])

def mergedContractRows (tables : Tables C) (parentStem : String) (children : List String)
    (contract : TableContract) (polygonRows : List (Row X)) :
    Except ContainmentError (List (Row X) × Schema) := do
  let parent ← readTable rt (tables contract.subdir parentStem)
  if contract.subdir = .polygons then return (polygonRows, parent.schema)
  else do
    let seen ← orKeyError (parent.rows.mapM (identity contract.identityColumns))
    let childRows ← readChildren rt tables contract.subdir children
    let merged ← childRows.foldlM (appendChildRow contract parentStem polygonRows)
      (parent.rows, seen)
    return (merged.1, parent.schema)

/-- The file that `_stage_contract_artifact` writes. -/
def stageContractArtifact (tables : Tables C) (parentStem : String) (children : List String)
    (contract : TableContract) (polygonRows : List (Row X)) : Except ContainmentError C := do
  let (rows, schema) ← mergedContractRows rt tables parentStem children contract polygonRows
  (rt.encode (Table.fromPylist rows schema)).mapError .arrow

end OsmPolygonWikidata.Containment
