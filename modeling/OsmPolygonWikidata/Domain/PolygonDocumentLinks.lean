import OsmPolygonWikidata.Basic.Loops
import OsmPolygonWikidata.Domain.WikidataQids
import OsmPolygonWikidata.Publication.PendingPublications

/-! # Canonical links from polygons to documents

`domain/polygon_document_links.py`. A canonical row links a polygon to a document of either project.
The builder joins polygons and documents by item: a polygon's tag may list several items, and a
document is linked to every polygon that lists its own. The validator checks each row against the
slots of its document identifier, collapses equal rows and refuses two different rows of one
identity.

The rows that are joined are dictionaries with arbitrary values. Of the values only `str(value)` and
`int(value)` are read.
-/

namespace OsmPolygonWikidata.DocumentLinks

open Python

variable {V : Type}

/-! ## Rows -/

/-- `str(value)` and `int(value)`; the latter raises where it is `none`. -/
structure Builtins (V : Type) where
  str : V → String
  int : V → Option Int

/-- A dictionary with string keys. -/
abbrev Row (V : Type) := String → Option V

/-- A row of the canonical schema, in the order of `CANONICAL_COLUMNS`. -/
structure CanonicalLink where
  polygonId : String
  documentId : String
  project : String
  wikidata : String
  language : String
  sourcePbf : String
  region : String
  osmType : String
  osmId : Int
  pageId : Int
  revisionId : Int
  deriving DecidableEq

/-- The identity of a link, which is also its sort key. -/
def CanonicalLink.identity (link : CanonicalLink) : List String :=
  [link.polygonId, link.project, link.documentId]

/-- What raises. The polygon of a disagreement is the link's, or none for a document as such. -/
inductive LinkError where
  | keyError (column : String)
  | notANumber (column : String)
  | invalidPolygonId (polygonId : String)
  | invalidPolygonWikidata (polygonId tag : String)
  | missingDocumentId
  | invalidProject (polygonId : Option String) (documentId project : String)
  | projectSlotDisagrees (polygonId : Option String) (documentId : String)
      (declared : Option String) (project : String)
  | languageSlotDisagrees (polygonId documentId declared language : String)
  | invalidWikidata (polygonId : Option String) (documentId wikidata : String)
  | wikidataSlotDisagrees (polygonId documentId declared wikidata : String)
  | conflictingDuplicate (identity : List String)
  deriving DecidableEq

section

variable (py : Builtins V)

/-- `str(row.get(column, ""))`. -/
def text (row : Row V) (column : String) : String := ((row column).map py.str).getD ""

/-- `str(row[column])`. -/
def required (row : Row V) (column : String) : Except LinkError String :=
  match row column with
  | none => .error (.keyError column)
  | some value => .ok (py.str value)

/-- `int(row.get(column, 0))`. -/
def number (row : Row V) (column : String) : Except LinkError Int :=
  match row column with
  | none => .ok 0
  | some value =>
    match py.int value with
    | none => .error (.notANumber column)
    | some n => .ok n

end

/-! ## The slots of a document identifier -/

/-- `PROJECTS`. -/
def projects : List String := ["wikipedia", "wikivoyage"]

/-- `document_id.split(":")`. -/
def documentIdParts (documentId : String) : List String :=
  (documentId.toList.splitOn ':').map String.ofList

def documentIdProject (documentId : String) : Option String :=
  (documentIdParts documentId)[1]?.filter (fun candidate => candidate ∈ projects)

/-- `_document_id_language`: the slot counts only in an identifier of at least four. -/
def documentIdLanguage (documentId : String) : Option String :=
  if (documentIdParts documentId).length < 4 then none else (documentIdParts documentId)[2]?

section

variable (py : Builtins V) (decimal : Char → Bool)

def documentIdWikidata (documentId : String) : Option String :=
  (documentIdParts documentId)[0]?.filter (fun candidate => isValidQid decimal candidate.toList)

/-! ## Validating -/

/-- `_validate_document_project`, and the same two checks in `_validate_document`. -/
def validateDocumentProject (polygonId : Option String) (documentId project : String) :
    Except LinkError Unit :=
  if project ∉ projects then .error (.invalidProject polygonId documentId project)
  else if documentIdProject documentId ≠ some project then
    .error (.projectSlotDisagrees polygonId documentId (documentIdProject documentId) project)
  else .ok ()

def validateDocumentLanguage (polygonId documentId language : String) : Except LinkError Unit :=
  match documentIdLanguage documentId with
  | none => .ok ()
  | some declared =>
    if declared = language then .ok ()
    else .error (.languageSlotDisagrees polygonId documentId declared language)

def validateDocumentWikidata (polygonId documentId wikidata : String) : Except LinkError Unit :=
  if isValidQid decimal wikidata.toList then
    match documentIdWikidata decimal documentId with
    | none => .ok ()
    | some declared =>
      if declared = wikidata then .ok ()
      else .error (.wikidataSlotDisagrees polygonId documentId declared wikidata)
  else .error (.invalidWikidata (some polygonId) documentId wikidata)

/-- `_coerce_row`. -/
def coerceRow (row : CanonicalLink) : Except LinkError CanonicalLink := do
  if PendingPublications.isSafeStem row.polygonId then do
    validateDocumentProject (some row.polygonId) row.documentId row.project
    validateDocumentLanguage row.polygonId row.documentId row.language
    validateDocumentWikidata decimal row.polygonId row.documentId row.wikidata
    return row
  else .error (.invalidPolygonId row.polygonId)

def mergeLinkRow (out : List CanonicalLink) (row : CanonicalLink) :
    Except LinkError (List CanonicalLink) :=
  match out.find? (fun existing => existing.identity = row.identity) with
  | none => .ok (out ++ [row])
  | some existing =>
    if existing = row then .ok out else .error (.conflictingDuplicate row.identity)

/-- One turn of the loop of `validate_polygon_document_links`. -/
def validateLinkRow (out : List CanonicalLink) (raw : CanonicalLink) :
    Except LinkError (List CanonicalLink) := do
  let row ← coerceRow decimal raw
  mergeLinkRow out row

def validatePolygonDocumentLinks (rows : List CanonicalLink) :
    Except LinkError (List CanonicalLink) := do
  let out ← rows.foldlM (validateLinkRow decimal) []
  return out.insertionSort (fun a b => a.identity ≤ b.identity)

/-! ## Building -/

/-- What `_coerce_polygon_row` returns. -/
structure PolygonFields where
  polygonId : String
  wikidataTag : String
  wikidataQids : List String
  sourcePbf : String
  region : String
  osmType : String
  osmId : Int

def coercePolygonRow (polygon : Row V) : Except LinkError PolygonFields := do
  let polygonId := text py polygon "polygon_id"
  let tag := text py polygon "wikidata"
  if PendingPublications.isSafeStem polygonId then
    if qidsFromOsmTag decimal tag = [] then .error (.invalidPolygonWikidata polygonId tag)
    else do
      let osmId ← number py polygon "osm_id"
      return ⟨polygonId, tag, qidsFromOsmTag decimal tag, text py polygon "source_pbf",
        text py polygon "region", text py polygon "osm_type", osmId⟩
  else .error (.invalidPolygonId polygonId)

/-- `_validate_document`. -/
def validateDocument (document : Row V) : Except LinkError Unit := do
  let documentId := text py document "document_id"
  if documentId = "" then .error .missingDocumentId
  else do
    validateDocumentProject none documentId (text py document "project")
    if isValidQid decimal (text py document "wikidata").toList then .ok ()
    else .error (.invalidWikidata none documentId (text py document "wikidata"))

def buildLinkRow (document : Row V) (fields : PolygonFields) : Except LinkError CanonicalLink := do
  let documentId ← required py document "document_id"
  let project ← required py document "project"
  let wikidata ← required py document "wikidata"
  let pageId ← number py document "page_id"
  let revisionId ← number py document "revision_id"
  return ⟨fields.polygonId, documentId, project, wikidata, text py document "language",
    fields.sourcePbf, fields.region, fields.osmType, fields.osmId, pageId, revisionId⟩

/-- `by_qid`. -/
def byQid (polygons : List PolygonFields) : List (String × List PolygonFields) :=
  group (polygons.flatMap (fun fields => fields.wikidataQids.map (fun qid => (qid, fields))))

/-- The links of one document. -/
def documentLinks (polygons : List (String × List PolygonFields)) (document : Row V) :
    Except LinkError (List CanonicalLink) := do
  validateDocument py decimal document
  let qid ← required py document "wikidata"
  ((polygons.lookup qid).getD []).mapM (buildLinkRow py document)

def buildPolygonDocumentLinks (polygons wikipediaDocuments wikivoyageDocuments : List (Row V)) :
    Except LinkError (List CanonicalLink) := do
  let fields ← polygons.mapM (coercePolygonRow py decimal)
  let links ← (wikipediaDocuments ++ wikivoyageDocuments).mapM
    (documentLinks py decimal (byQid fields))
  validatePolygonDocumentLinks decimal links.flatten

end

/-! ## Validated rows -/

section

variable {decimal : Char → Bool} {row row' : CanonicalLink} {out out' rows done : List CanonicalLink}

/-- A row that is in order. -/
structure InOrder (decimal : Char → Bool) (row : CanonicalLink) : Prop where
  safe : PendingPublications.isSafeStem row.polygonId = true
  project : row.project ∈ projects
  projectSlot : documentIdProject row.documentId = some row.project
  languageSlot : ∀ declared ∈ documentIdLanguage row.documentId, declared = row.language
  wikidata : isValidQid decimal row.wikidata.toList = true
  wikidataSlot : ∀ declared ∈ documentIdWikidata decimal row.documentId, declared = row.wikidata

theorem validateDocumentProject_eq_ok {polygonId : Option String} {documentId project : String} :
    validateDocumentProject polygonId documentId project = .ok ()
      ↔ project ∈ projects ∧ documentIdProject documentId = some project := by
  unfold validateDocumentProject
  by_cases hproject : project ∈ projects
  · by_cases hslot : documentIdProject documentId = some project <;> simp [hproject, hslot]
  · simp [hproject]

theorem validateDocumentLanguage_eq_ok {polygonId documentId language : String} :
    validateDocumentLanguage polygonId documentId language = .ok ()
      ↔ ∀ declared ∈ documentIdLanguage documentId, declared = language := by
  unfold validateDocumentLanguage
  cases documentIdLanguage documentId <;> simp

theorem validateDocumentWikidata_eq_ok {polygonId documentId wikidata : String} :
    validateDocumentWikidata decimal polygonId documentId wikidata = .ok ()
      ↔ isValidQid decimal wikidata.toList = true
        ∧ ∀ declared ∈ documentIdWikidata decimal documentId, declared = wikidata := by
  unfold validateDocumentWikidata
  split_ifs with hvalid
  · cases documentIdWikidata decimal documentId <;> simp [hvalid]
  · simp [hvalid]

theorem coerceRow_eq_ok : coerceRow decimal row = .ok row' ↔ row' = row ∧ InOrder decimal row := by
  unfold coerceRow
  split_ifs with hsafe
  · constructor
    · intro h
      obtain ⟨⟨⟩, hproject, h⟩ := bind_eq_ok.mp h
      obtain ⟨⟨⟩, hlanguage, h⟩ := bind_eq_ok.mp h
      obtain ⟨⟨⟩, hwikidata, h⟩ := bind_eq_ok.mp h
      cases h
      obtain ⟨hmem, hslot⟩ := validateDocumentProject_eq_ok.mp hproject
      obtain ⟨hvalid, hqid⟩ := validateDocumentWikidata_eq_ok.mp hwikidata
      exact ⟨rfl, hsafe, hmem, hslot, validateDocumentLanguage_eq_ok.mp hlanguage, hvalid, hqid⟩
    · rintro ⟨rfl, h⟩
      rw [validateDocumentProject_eq_ok.mpr ⟨h.project, h.projectSlot⟩,
        validateDocumentLanguage_eq_ok.mpr h.languageSlot,
        validateDocumentWikidata_eq_ok.mpr ⟨h.wikidata, h.wikidataSlot⟩]
      rfl
  · refine iff_of_false (by simp) ?_
    rintro ⟨-, h⟩
    exact hsafe h.safe

/-- The rows collected so far are those that were merged, one for each identity. -/
structure Collected (done out : List CanonicalLink) : Prop where
  mem : ∀ row, row ∈ out ↔ row ∈ done
  nodup : (out.map CanonicalLink.identity).Nodup

variable (h : Collected done out)

include h

theorem Collected.merge (hmerge : mergeLinkRow out row = .ok out') :
    Collected (done ++ [row]) out' := by
  unfold mergeLinkRow at hmerge
  cases hfind : out.find? (fun existing => decide (existing.identity = row.identity)) with
  | none =>
    rw [hfind] at hmerge
    cases hmerge
    refine ⟨fun r => by simp [h.mem], ?_⟩
    rw [List.map_append, List.map_singleton, ← List.concat_eq_append]
    refine h.nodup.concat (fun hmem => ?_)
    obtain ⟨existing, hexisting, hidentity⟩ := List.mem_map.mp hmem
    have hnone := List.find?_eq_none.mp hfind existing hexisting
    simp [hidentity] at hnone
  | some existing =>
    rw [hfind] at hmerge
    dsimp only at hmerge
    split_ifs at hmerge with hsame
    cases hmerge
    have hmem := (h.mem existing).mp (List.mem_of_find?_eq_some hfind)
    rw [hsame] at hmem
    refine ⟨fun r => ?_, h.nodup⟩
    rw [h.mem r, List.mem_append, List.mem_singleton, or_iff_left_of_imp]
    rintro rfl
    exact hmem

theorem Collected.merges (hagree : ∀ r ∈ done, r.identity = row.identity → r = row) :
    ∃ out', mergeLinkRow out row = .ok out' := by
  unfold mergeLinkRow
  cases hfind : out.find? (fun existing => decide (existing.identity = row.identity)) with
  | none => exact ⟨_, rfl⟩
  | some existing =>
    have hmem := (h.mem existing).mp (List.mem_of_find?_eq_some hfind)
    have hidentity : existing.identity = row.identity := by
      have hfound := List.find?_some hfind
      simpa using hfound
    exact ⟨out, if_pos (hagree existing hmem hidentity)⟩

theorem Collected.run (hrun : rows.foldlM (validateLinkRow decimal) out = .ok out') :
    Collected (done ++ rows) out' ∧ ∀ row ∈ rows, InOrder decimal row := by
  induction rows generalizing done out with
  | nil =>
    cases hrun
    rw [List.append_nil]
    exact ⟨h, by simp⟩
  | cons row rows ih =>
    rw [List.foldlM_cons] at hrun
    obtain ⟨next, hstep, hnext⟩ := bind_eq_ok.mp hrun
    obtain ⟨row', hrow, hmerge⟩ := bind_eq_ok.mp hstep
    obtain ⟨rfl, hinOrder⟩ := coerceRow_eq_ok.mp hrow
    obtain ⟨hall, hrest⟩ := ih (h.merge hmerge) hnext
    rw [List.append_assoc] at hall
    refine ⟨hall, fun r hr => ?_⟩
    rcases List.mem_cons.mp hr with rfl | hr
    · exact hinOrder
    · exact hrest r hr

theorem Collected.runs (hinOrder : ∀ row ∈ rows, InOrder decimal row)
    (hagree : ∀ r ∈ done ++ rows, ∀ r' ∈ done ++ rows, r.identity = r'.identity → r = r') :
    ∃ out', rows.foldlM (validateLinkRow decimal) out = .ok out' := by
  induction rows generalizing done out with
  | nil => exact ⟨out, rfl⟩
  | cons row rows ih =>
    have hagrees : ∀ r ∈ done, r.identity = row.identity → r = row :=
      fun r hr => hagree r (List.mem_append_left _ hr) row (by simp)
    obtain ⟨next, hmerge⟩ := h.merges hagrees
    have hstep : validateLinkRow decimal out row = .ok next := by
      unfold validateLinkRow
      rw [coerceRow_eq_ok.mpr ⟨rfl, hinOrder row List.mem_cons_self⟩]
      exact hmerge
    rw [List.foldlM_cons, hstep]
    refine ih (h.merge hmerge) (fun r hr => hinOrder r (List.mem_cons_of_mem _ hr)) ?_
    rwa [List.append_assoc]

omit h

/-- **What validation returns**: the rows, strictly sorted by identity. -/
theorem validatePolygonDocumentLinks_spec
    (h : validatePolygonDocumentLinks decimal rows = .ok out) :
    (∀ row ∈ rows, InOrder decimal row) ∧ (∀ row, row ∈ out ↔ row ∈ rows)
      ∧ out.Pairwise (fun a b => a.identity < b.identity) := by
  obtain ⟨collected, hrun, hsort⟩ := bind_eq_ok.mp h
  cases hsort
  have hstart : Collected [] [] := ⟨fun _ => Iff.rfl, List.nodup_nil⟩
  obtain ⟨hcollected, hinOrder⟩ := hstart.run hrun
  rw [List.nil_append] at hcollected
  have hperm : (collected.insertionSort (fun a b => a.identity ≤ b.identity)).Perm collected :=
    List.perm_insertionSort _ collected
  refine ⟨hinOrder, fun row => hperm.mem_iff.trans (hcollected.mem row), ?_⟩
  have hsorted : (collected.insertionSort (fun a b => a.identity ≤ b.identity)).Pairwise
      (fun a b => a.identity ≤ b.identity) := List.pairwise_insertionSort _ collected
  have hdistinct : (collected.insertionSort (fun a b => a.identity ≤ b.identity)).Pairwise
      (fun a b => a.identity ≠ b.identity) := by
    have hnodup := (hperm.map CanonicalLink.identity).nodup_iff.mpr hcollected.nodup
    exact List.pairwise_map.mp hnodup
  exact (hsorted.and hdistinct).imp (fun h => lt_of_le_of_ne h.1 h.2)

theorem validatePolygonDocumentLinks_returns (hinOrder : ∀ row ∈ rows, InOrder decimal row)
    (hagree : ∀ r ∈ rows, ∀ r' ∈ rows, r.identity = r'.identity → r = r') :
    ∃ out, validatePolygonDocumentLinks decimal rows = .ok out := by
  have hstart : Collected [] [] := ⟨fun _ => Iff.rfl, List.nodup_nil⟩
  obtain ⟨out, hrun⟩ := hstart.runs hinOrder hagree
  unfold validatePolygonDocumentLinks
  rw [hrun]
  exact ⟨_, rfl⟩

end

/-! ## The join -/

section

variable {py : Builtins V} {decimal : Char → Bool} {polygon document : Row V} {column : String}
  {fields : PolygonFields} {row : CanonicalLink}
  {polygons documents wikipediaDocuments wikivoyageDocuments : List (Row V)}
  {rows : List CanonicalLink}

variable (py decimal) in
/-- What a polygon has to have. -/
structure ValidPolygon (polygon : Row V) : Prop where
  safe : PendingPublications.isSafeStem (text py polygon "polygon_id") = true
  qids : qidsFromOsmTag decimal (text py polygon "wikidata") ≠ []
  osmId : ∃ n, number py polygon "osm_id" = .ok n

variable (py decimal) in
/-- What a document has to have. -/
structure ValidDocument (document : Row V) : Prop where
  documentId : text py document "document_id" ≠ ""
  project : text py document "project" ∈ projects
  projectSlot : documentIdProject (text py document "document_id")
    = some (text py document "project")
  wikidata : isValidQid decimal (text py document "wikidata").toList = true

variable (py decimal) in
/-- What a document has to have in addition if it is linked: the other slots of its identifier agree
with its columns, and the page and the revision are numbers. -/
structure LinkableDocument (document : Row V) : Prop where
  languageSlot : ∀ declared ∈ documentIdLanguage (text py document "document_id"),
    declared = text py document "language"
  wikidataSlot : ∀ declared ∈ documentIdWikidata decimal (text py document "document_id"),
    declared = text py document "wikidata"
  pageId : ∃ n, number py document "page_id" = .ok n
  revisionId : ∃ n, number py document "revision_id" = .ok n

variable (py decimal) in
/-- The polygon lists the item of the document. -/
def Joined (polygon document : Row V) : Prop :=
  text py document "wikidata" ∈ qidsFromOsmTag decimal (text py polygon "wikidata")

variable (py decimal) in
/-- The row that links a polygon to a document. -/
structure Linked (polygon document : Row V) (row : CanonicalLink) : Prop where
  joined : Joined py decimal polygon document
  polygonId : row.polygonId = text py polygon "polygon_id"
  documentId : row.documentId = text py document "document_id"
  project : row.project = text py document "project"
  wikidata : row.wikidata = text py document "wikidata"
  language : row.language = text py document "language"
  sourcePbf : row.sourcePbf = text py polygon "source_pbf"
  region : row.region = text py polygon "region"
  osmType : row.osmType = text py polygon "osm_type"
  osmId : number py polygon "osm_id" = .ok row.osmId
  pageId : number py document "page_id" = .ok row.pageId
  revisionId : number py document "revision_id" = .ok row.revisionId

variable (py decimal) in
/-- Input that can be joined. -/
structure Buildable (polygons documents : List (Row V)) : Prop where
  validPolygons : ∀ polygon ∈ polygons, ValidPolygon py decimal polygon
  validDocuments : ∀ document ∈ documents, ValidDocument py decimal document
  linked : ∀ polygon ∈ polygons, ∀ document ∈ documents, Joined py decimal polygon document →
    LinkableDocument py decimal document
  agree : ∀ p ∈ polygons, ∀ d ∈ documents, ∀ p' ∈ polygons, ∀ d' ∈ documents,
    ∀ row row', Linked py decimal p d row → Linked py decimal p' d' row' →
      row.identity = row'.identity → row = row'

theorem coercePolygonRow_eq_ok : coercePolygonRow py decimal polygon = .ok fields
      ↔ PendingPublications.isSafeStem (text py polygon "polygon_id") = true
        ∧ qidsFromOsmTag decimal (text py polygon "wikidata") ≠ []
        ∧ number py polygon "osm_id" = .ok fields.osmId
        ∧ fields = ⟨text py polygon "polygon_id", text py polygon "wikidata",
          qidsFromOsmTag decimal (text py polygon "wikidata"), text py polygon "source_pbf",
          text py polygon "region", text py polygon "osm_type", fields.osmId⟩ := by
  unfold coercePolygonRow
  dsimp only
  split_ifs with hsafe hqids
  · simp [hqids]
  · constructor
    · intro h
      obtain ⟨osmId, hosmId, h⟩ := bind_eq_ok.mp h
      cases h
      exact ⟨hsafe, hqids, hosmId, rfl⟩
    · rintro ⟨-, -, hosmId, hfields⟩
      rw [hosmId, hfields]
      rfl
  · simp [hsafe]

theorem required_of_text (h : text py document column ≠ "") :
    required py document column = .ok (text py document column) := by
  unfold text at h ⊢
  unfold required
  cases hvalue : document column with
  | none =>
    rw [hvalue] at h
    exact absurd rfl h
  | some value => rfl

theorem validateDocument_eq_ok :
    validateDocument py decimal document = .ok () ↔ ValidDocument py decimal document := by
  unfold validateDocument
  dsimp only
  split_ifs with hempty hvalid
  · refine iff_of_false (by simp) (fun h => h.documentId hempty)
  · constructor
    · intro h
      obtain ⟨⟨⟩, hproject, -⟩ := bind_eq_ok.mp h
      obtain ⟨hmem, hslot⟩ := validateDocumentProject_eq_ok.mp hproject
      exact ⟨hempty, hmem, hslot, hvalid⟩
    · intro h
      rw [validateDocumentProject_eq_ok.mpr ⟨h.project, h.projectSlot⟩]
      rfl
  · refine iff_of_false (fun h => ?_) (fun h => hvalid h.wikidata)
    obtain ⟨_, -, h⟩ := bind_eq_ok.mp h
    cases h

variable (h : ValidDocument py decimal document)

include h

theorem ValidDocument.required_project :
    required py document "project" = .ok (text py document "project") := by
  refine required_of_text (fun hempty => ?_)
  have hproject := h.project
  rw [hempty] at hproject
  revert hproject
  decide

theorem ValidDocument.required_wikidata :
    required py document "wikidata" = .ok (text py document "wikidata") := by
  refine required_of_text (fun hempty => ?_)
  have hwikidata := h.wikidata
  rw [hempty] at hwikidata
  cases hwikidata

theorem ValidDocument.buildLinkRow_eq_ok : buildLinkRow py document fields = .ok row
      ↔ number py document "page_id" = .ok row.pageId
        ∧ number py document "revision_id" = .ok row.revisionId
        ∧ row = ⟨fields.polygonId, text py document "document_id", text py document "project",
          text py document "wikidata", text py document "language", fields.sourcePbf,
          fields.region, fields.osmType, fields.osmId, row.pageId, row.revisionId⟩ := by
  unfold buildLinkRow
  rw [required_of_text h.documentId, h.required_project, h.required_wikidata]
  constructor
  · intro hrow
    obtain ⟨_, ⟨⟩, hrow⟩ := bind_eq_ok.mp hrow
    obtain ⟨_, ⟨⟩, hrow⟩ := bind_eq_ok.mp hrow
    obtain ⟨_, ⟨⟩, hrow⟩ := bind_eq_ok.mp hrow
    obtain ⟨pageId, hpageId, hrow⟩ := bind_eq_ok.mp hrow
    obtain ⟨revisionId, hrevisionId, hrow⟩ := bind_eq_ok.mp hrow
    cases hrow
    exact ⟨hpageId, hrevisionId, rfl⟩
  · rintro ⟨hpageId, hrevisionId, hrow⟩
    rw [hpageId, hrevisionId, hrow]
    rfl

omit h

theorem mem_lookup_byQid {polygons : List PolygonFields} {qid : String} :
    fields ∈ ((byQid polygons).lookup qid).getD []
      ↔ fields ∈ polygons ∧ qid ∈ fields.wikidataQids := by
  have hvalues : ∀ fields, fields ∈ valuesOf (polygons.flatMap (fun fields =>
      fields.wikidataQids.map (fun qid => (qid, fields)))) qid
        ↔ fields ∈ polygons ∧ qid ∈ fields.wikidataQids := by
    intro fields
    simp only [valuesOf, List.mem_map, List.mem_filter, List.mem_flatMap, decide_eq_true_eq]
    constructor
    · rintro ⟨_, ⟨⟨found, hfound, item, hitem, rfl⟩, rfl⟩, rfl⟩
      exact ⟨hfound, hitem⟩
    · rintro ⟨hfields, hqid⟩
      exact ⟨(qid, fields), ⟨⟨fields, hfields, qid, hqid, rfl⟩, rfl⟩, rfl⟩
  rw [← hvalues]
  cases hlookup : (byQid polygons).lookup qid with
  | none =>
    have hnil : valuesOf (polygons.flatMap (fun fields =>
        fields.wikidataQids.map (fun qid => (qid, fields)))) qid = [] := by
      by_contra hne
      have hmem := (lookup_eq_some_iff_mem (nodup_keys_group _)).mpr
        (mem_group_iff.mpr ⟨rfl, hne⟩)
      rw [← byQid, hlookup] at hmem
      cases hmem
    rw [hnil]
    rfl
  | some found =>
    obtain ⟨hfound, -⟩ := mem_group_iff.mp (mem_of_lookup_eq_some hlookup)
    rw [← hfound]
    rfl

theorem linked_iff (hfields : coercePolygonRow py decimal polygon = .ok fields)
    (hdocument : ValidDocument py decimal document) :
    Linked py decimal polygon document row ↔ text py document "wikidata" ∈ fields.wikidataQids
        ∧ buildLinkRow py document fields = .ok row := by
  obtain ⟨-, -, hosmId, hfields'⟩ := coercePolygonRow_eq_ok.mp hfields
  rw [hdocument.buildLinkRow_eq_ok, hfields']
  constructor
  · intro h
    have hrowId : row.osmId = fields.osmId :=
      Except.ok.inj (h.osmId.symm.trans hosmId)
    refine ⟨h.joined, h.pageId, h.revisionId, ?_⟩
    rw [← h.polygonId, ← h.documentId, ← h.project, ← h.wikidata, ← h.language, ← h.sourcePbf,
      ← h.region, ← h.osmType, ← hrowId]
  · rintro ⟨hjoined, hpageId, hrevisionId, hrow⟩
    rw [hrow]
    exact ⟨hjoined, rfl, rfl, rfl, rfl, rfl, rfl, rfl, rfl, hosmId, hpageId, hrevisionId⟩

theorem documentLinks_eq_ok {read : List PolygonFields} :
    documentLinks py decimal (byQid read) document = .ok rows ↔ ValidDocument py decimal document
        ∧ (((byQid read).lookup (text py document "wikidata")).getD []).mapM
          (buildLinkRow py document) = .ok rows := by
  unfold documentLinks
  constructor
  · intro h
    obtain ⟨⟨⟩, hvalid, h⟩ := bind_eq_ok.mp h
    have hvalid' := validateDocument_eq_ok.mp hvalid
    rw [hvalid'.required_wikidata] at h
    exact ⟨hvalid', h⟩
  · rintro ⟨hvalid, hrows⟩
    rw [validateDocument_eq_ok.mpr hvalid, hvalid.required_wikidata]
    exact hrows

/-- **The candidate rows** are those that link a given polygon to a given document. -/
theorem candidates_spec {read : List PolygonFields} {links : List (List CanonicalLink)}
    (hread : polygons.mapM (coercePolygonRow py decimal) = .ok read)
    (hlinks : documents.mapM (documentLinks py decimal (byQid read)) = .ok links) :
    (∀ row, row ∈ links.flatten
        ↔ ∃ polygon ∈ polygons, ∃ document ∈ documents, Linked py decimal polygon document row)
      ∧ ∀ polygon ∈ polygons, ∀ document ∈ documents, Joined py decimal polygon document →
        ∃ row, Linked py decimal polygon document row := by
  -- every polygon under the item of a document gets a row
  have hrow : ∀ polygon ∈ polygons, ∀ document ∈ documents, Joined py decimal polygon document →
      ∃ rows ∈ links, ∃ row ∈ rows, Linked py decimal polygon document row := by
    intro polygon hpolygon document hdocument hjoined
    obtain ⟨fields, hfields, hcoerce⟩ := exists_mem_of_mapM hread hpolygon
    obtain ⟨rows, hrows, hbuilt⟩ := exists_mem_of_mapM hlinks hdocument
    obtain ⟨hvalid, hbuilt⟩ := documentLinks_eq_ok.mp hbuilt
    have hqids : text py document "wikidata" ∈ fields.wikidataQids := by
      rw [(coercePolygonRow_eq_ok.mp hcoerce).2.2.2]
      exact hjoined
    obtain ⟨row, hmem, hrow⟩ :=
      exists_mem_of_mapM hbuilt (mem_lookup_byQid.mpr ⟨hfields, hqids⟩)
    exact ⟨rows, hrows, row, hmem, (linked_iff hcoerce hvalid).mpr ⟨hqids, hrow⟩⟩
  refine ⟨fun row => ?_, fun polygon hpolygon document hdocument hjoined => ?_⟩
  · constructor
    · intro hmem
      obtain ⟨rows, hrows, hmem⟩ := List.mem_flatten.mp hmem
      obtain ⟨document, hdocument, hbuilt⟩ := exists_of_mem_mapM hlinks hrows
      obtain ⟨hvalid, hbuilt⟩ := documentLinks_eq_ok.mp hbuilt
      obtain ⟨fields, hfields, hbuild⟩ := exists_of_mem_mapM hbuilt hmem
      obtain ⟨hfields, hqids⟩ := mem_lookup_byQid.mp hfields
      obtain ⟨polygon, hpolygon, hcoerce⟩ := exists_of_mem_mapM hread hfields
      exact ⟨polygon, hpolygon, document, hdocument,
        (linked_iff hcoerce hvalid).mpr ⟨hqids, hbuild⟩⟩
    · rintro ⟨polygon, hpolygon, document, hdocument, hlinked⟩
      obtain ⟨rows, hrows, row', hmem, hlinked'⟩ :=
        hrow polygon hpolygon document hdocument hlinked.joined
      have hsame : row = row' := by
        obtain ⟨fields, -, hcoerce⟩ := exists_mem_of_mapM hread hpolygon
        obtain ⟨_, -, hbuilt⟩ := exists_mem_of_mapM hlinks hdocument
        have hvalid := (documentLinks_eq_ok.mp hbuilt).1
        have hbuild := ((linked_iff hcoerce hvalid).mp hlinked).2
        rw [((linked_iff hcoerce hvalid).mp hlinked').2] at hbuild
        exact (Except.ok.inj hbuild).symm
      rw [hsame]
      exact List.mem_flatten.mpr ⟨rows, hrows, hmem⟩
  · obtain ⟨_, -, row, -, hlinked⟩ := hrow polygon hpolygon document hdocument hjoined
    exact ⟨row, hlinked⟩

theorem build_spec
    (h : buildPolygonDocumentLinks py decimal polygons wikipediaDocuments wikivoyageDocuments
      = .ok rows) :
    (∀ row, row ∈ rows ↔ ∃ polygon ∈ polygons,
        ∃ document ∈ wikipediaDocuments ++ wikivoyageDocuments,
          Linked py decimal polygon document row)
      ∧ rows.Pairwise (fun a b => a.identity < b.identity)
      ∧ Buildable py decimal polygons (wikipediaDocuments ++ wikivoyageDocuments) := by
  obtain ⟨read, hread, h⟩ := bind_eq_ok.mp h
  obtain ⟨links, hlinks, h⟩ := bind_eq_ok.mp h
  obtain ⟨hcandidates, hexists⟩ := candidates_spec hread hlinks
  obtain ⟨hinOrder, hmem, hsorted⟩ := validatePolygonDocumentLinks_spec h
  have hrows := fun row => (hmem row).trans (hcandidates row)
  refine ⟨hrows, hsorted, ?_, ?_, ?_, ?_⟩
  · intro polygon hpolygon
    obtain ⟨fields, -, hcoerce⟩ := exists_mem_of_mapM hread hpolygon
    obtain ⟨hsafe, hqids, hosmId, -⟩ := coercePolygonRow_eq_ok.mp hcoerce
    exact ⟨hsafe, hqids, fields.osmId, hosmId⟩
  · intro document hdocument
    obtain ⟨_, -, hbuilt⟩ := exists_mem_of_mapM hlinks hdocument
    exact (documentLinks_eq_ok.mp hbuilt).1
  · intro polygon hpolygon document hdocument hjoined
    obtain ⟨row, hlinked⟩ := hexists polygon hpolygon document hdocument hjoined
    have hrow := hinOrder row
      ((hcandidates row).mpr ⟨polygon, hpolygon, document, hdocument, hlinked⟩)
    refine ⟨?_, ?_, ⟨_, hlinked.pageId⟩, ⟨_, hlinked.revisionId⟩⟩
    · rw [← hlinked.documentId, ← hlinked.language]
      exact hrow.languageSlot
    · rw [← hlinked.documentId, ← hlinked.wikidata]
      exact hrow.wikidataSlot
  · intro p hp d hd p' hp' d' hd' row row' hlinked hlinked' hidentity
    have hrow := (hrows row).mpr ⟨p, hp, d, hd, hlinked⟩
    have hrow' := (hrows row').mpr ⟨p', hp', d', hd', hlinked'⟩
    have hnodup : (rows.map CanonicalLink.identity).Nodup :=
      List.pairwise_map.mpr (hsorted.imp ne_of_lt)
    exact List.inj_on_of_nodup_map hnodup hrow hrow' hidentity

theorem Buildable.builds
    (h : Buildable py decimal polygons (wikipediaDocuments ++ wikivoyageDocuments)) :
    ∃ rows, buildPolygonDocumentLinks py decimal polygons wikipediaDocuments wikivoyageDocuments
      = .ok rows := by
  have hcoerce : ∀ polygon ∈ polygons,
      ∃ fields, coercePolygonRow py decimal polygon = .ok fields := by
    intro polygon hpolygon
    obtain ⟨hsafe, hqids, osmId, hosmId⟩ := h.validPolygons polygon hpolygon
    exact ⟨⟨_, _, _, _, _, _, osmId⟩, coercePolygonRow_eq_ok.mpr ⟨hsafe, hqids, hosmId, rfl⟩⟩
  obtain ⟨read, hread⟩ := exists_mapM_eq_ok hcoerce
  have hbuild : ∀ document ∈ wikipediaDocuments ++ wikivoyageDocuments,
      ∃ rows, documentLinks py decimal (byQid read) document = .ok rows := by
    intro document hdocument
    have hvalid := h.validDocuments document hdocument
    have hrow : ∀ fields ∈ ((byQid read).lookup (text py document "wikidata")).getD [],
        ∃ row, buildLinkRow py document fields = .ok row := by
      intro fields hfields
      obtain ⟨hfields, hqids⟩ := mem_lookup_byQid.mp hfields
      obtain ⟨polygon, hpolygon, hcoerce⟩ := exists_of_mem_mapM hread hfields
      rw [(coercePolygonRow_eq_ok.mp hcoerce).2.2.2] at hqids
      obtain ⟨-, -, ⟨pageId, hpageId⟩, revisionId, hrevisionId⟩ :=
        h.linked polygon hpolygon document hdocument hqids
      exact ⟨⟨_, _, _, _, _, _, _, _, _, pageId, revisionId⟩,
        hvalid.buildLinkRow_eq_ok.mpr ⟨hpageId, hrevisionId, rfl⟩⟩
    obtain ⟨rows, hrows⟩ := exists_mapM_eq_ok hrow
    exact ⟨rows, documentLinks_eq_ok.mpr ⟨hvalid, hrows⟩⟩
  obtain ⟨links, hlinks⟩ := exists_mapM_eq_ok hbuild
  obtain ⟨hcandidates, -⟩ := candidates_spec hread hlinks
  have hvalid : ∀ row ∈ links.flatten, InOrder decimal row := by
    intro row hrow
    obtain ⟨p, hp, d, hd, hlinked⟩ := (hcandidates row).mp hrow
    have hd' := h.validDocuments d hd
    have hlinkable := h.linked p hp d hd hlinked.joined
    constructor
    · rw [hlinked.polygonId]
      exact (h.validPolygons p hp).safe
    · rw [hlinked.project]
      exact hd'.project
    · rw [hlinked.documentId, hlinked.project]
      exact hd'.projectSlot
    · rw [hlinked.documentId, hlinked.language]
      exact hlinkable.languageSlot
    · rw [hlinked.wikidata]
      exact hd'.wikidata
    · rw [hlinked.documentId, hlinked.wikidata]
      exact hlinkable.wikidataSlot
  obtain ⟨rows, hrows⟩ := validatePolygonDocumentLinks_returns hvalid (by
    intro r hr r' hr' hidentity
    obtain ⟨p, hp, d, hd, hlinked⟩ := (hcandidates r).mp hr
    obtain ⟨p', hp', d', hd', hlinked'⟩ := (hcandidates r').mp hr'
    exact h.agree p hp d hd p' hp' d' hd' r r' hlinked hlinked' hidentity)
  exact ⟨rows, bind_eq_ok.mpr ⟨read, hread, bind_eq_ok.mpr ⟨links, hlinks, hrows⟩⟩⟩

theorem Buildable.congr {polygons' documents' : List (Row V)}
    (hpolygons : ∀ polygon, polygon ∈ polygons ↔ polygon ∈ polygons')
    (hdocuments : ∀ document, document ∈ documents ↔ document ∈ documents') :
    Buildable py decimal polygons documents ↔ Buildable py decimal polygons' documents' := by
  have hone : ∀ {ps ds ps' ds' : List (Row V)}, (∀ p, p ∈ ps' → p ∈ ps) →
      (∀ d, d ∈ ds' → d ∈ ds) → Buildable py decimal ps ds → Buildable py decimal ps' ds' := by
    intro ps ds ps' ds' hp hd h
    refine ⟨fun p hp' => h.validPolygons p (hp p hp'), fun d hd' => h.validDocuments d (hd d hd'),
      fun p hp' d hd' => h.linked p (hp p hp') d (hd d hd'), ?_⟩
    intro p hp₁ d hd₁ p' hp₂ d' hd₂
    exact h.agree p (hp p hp₁) d (hd d hd₁) p' (hp p' hp₂) d' (hd d' hd₂)
  exact ⟨hone (fun p => (hpolygons p).mpr) (fun d => (hdocuments d).mpr),
    hone (fun p => (hpolygons p).mp) (fun d => (hdocuments d).mp)⟩

/-- **The builder joins polygons and documents by item.** Whether it returns, and what, depends on
which polygons and documents are given, and not on their order or on repetitions. -/
theorem build_joins (polygons wikipediaDocuments wikivoyageDocuments : List (Row V)) :
    (∀ rows, buildPolygonDocumentLinks py decimal polygons wikipediaDocuments wikivoyageDocuments
          = .ok rows →
        (∀ row, row ∈ rows ↔ ∃ polygon ∈ polygons,
          ∃ document ∈ wikipediaDocuments ++ wikivoyageDocuments,
            Linked py decimal polygon document row)
        ∧ (∀ polygon ∈ polygons, ∀ document ∈ wikipediaDocuments ++ wikivoyageDocuments,
          Joined py decimal polygon document →
            ∃! row, row ∈ rows ∧ row.identity = [text py polygon "polygon_id",
              text py document "project", text py document "document_id"])
        ∧ rows.Pairwise (fun a b => a.identity < b.identity))
      ∧ ((∃ e, buildPolygonDocumentLinks py decimal polygons wikipediaDocuments
            wikivoyageDocuments = .error e)
        ↔ ¬ Buildable py decimal polygons (wikipediaDocuments ++ wikivoyageDocuments))
      ∧ ∀ polygons' wikipediaDocuments' wikivoyageDocuments' : List (Row V),
        (∀ polygon, polygon ∈ polygons ↔ polygon ∈ polygons') →
        (∀ document, document ∈ wikipediaDocuments ++ wikivoyageDocuments
          ↔ document ∈ wikipediaDocuments' ++ wikivoyageDocuments') →
        ∀ rows, buildPolygonDocumentLinks py decimal polygons wikipediaDocuments
            wikivoyageDocuments = .ok rows
          ↔ buildPolygonDocumentLinks py decimal polygons' wikipediaDocuments'
            wikivoyageDocuments' = .ok rows := by
  refine ⟨fun rows h => ?_, ?_, ?_⟩
  · obtain ⟨hrows, hsorted, hbuildable⟩ := build_spec h
    refine ⟨hrows, fun polygon hpolygon document hdocument hjoined => ?_, hsorted⟩
    obtain ⟨osmId, hosmId⟩ := (hbuildable.validPolygons polygon hpolygon).osmId
    obtain ⟨-, -, ⟨pageId, hpageId⟩, revisionId, hrevisionId⟩ :=
      hbuildable.linked polygon hpolygon document hdocument hjoined
    let row : CanonicalLink := ⟨text py polygon "polygon_id", text py document "document_id",
      text py document "project", text py document "wikidata", text py document "language",
      text py polygon "source_pbf", text py polygon "region", text py polygon "osm_type", osmId,
      pageId, revisionId⟩
    have hlinked : Linked py decimal polygon document row :=
      ⟨hjoined, rfl, rfl, rfl, rfl, rfl, rfl, rfl, rfl, hosmId, hpageId, hrevisionId⟩
    have hrow : row ∈ rows := (hrows row).mpr ⟨polygon, hpolygon, document, hdocument, hlinked⟩
    refine ⟨row, ⟨hrow, rfl⟩, ?_⟩
    rintro row' ⟨hrow', hidentity⟩
    have hnodup : (rows.map CanonicalLink.identity).Nodup :=
      List.pairwise_map.mpr (hsorted.imp ne_of_lt)
    exact List.inj_on_of_nodup_map hnodup hrow' hrow hidentity
  · constructor
    · rintro ⟨e, he⟩ hbuildable
      obtain ⟨rows, hrows⟩ := hbuildable.builds
      rw [hrows] at he
      cases he
    · intro hbuildable
      cases h : buildPolygonDocumentLinks py decimal polygons wikipediaDocuments
          wikivoyageDocuments with
      | error e => exact ⟨e, rfl⟩
      | ok rows => exact absurd (build_spec h).2.2 hbuildable
  · intro polygons' wikipediaDocuments' wikivoyageDocuments' hpolygons hdocuments
    -- the rows of one run are those of the other, and both are sorted
    have hone : ∀ {ps wp wv ps' wp' wv' : List (Row V)} {rows : List CanonicalLink},
        (∀ p, p ∈ ps ↔ p ∈ ps') → (∀ d, d ∈ wp ++ wv ↔ d ∈ wp' ++ wv') →
        buildPolygonDocumentLinks py decimal ps wp wv = .ok rows →
        buildPolygonDocumentLinks py decimal ps' wp' wv' = .ok rows := by
      intro ps wp wv ps' wp' wv' rows hp hd h
      obtain ⟨hrows, hsorted, hbuildable⟩ := build_spec h
      obtain ⟨rows', h'⟩ := ((Buildable.congr hp hd).mp hbuildable).builds
      obtain ⟨hrows', hsorted', -⟩ := build_spec h'
      have hmem : ∀ row, row ∈ rows ↔ row ∈ rows' := by
        intro row
        rw [hrows, hrows']
        simp only [hp, hd]
      have hirrefl : Std.Irrefl (fun a b : CanonicalLink => a.identity < b.identity) :=
        ⟨fun _ => lt_irrefl _⟩
      have hasymm : Std.Asymm (fun a b : CanonicalLink => a.identity < b.identity) :=
        ⟨fun _ _ => lt_asymm⟩
      rw [h', List.Pairwise.eq_of_mem_iff hsorted hsorted' (fun row => hmem row)]
    intro rows
    exact ⟨hone hpolygons hdocuments,
      hone (fun p => (hpolygons p).symm) (fun d => (hdocuments d).symm)⟩

end

namespace Example

/-- A value of a Parquet column. -/
inductive Cell where
  | null
  | int (n : Int)
  | str (s : String)

def builtins : Builtins Cell where
  str := fun value => match value with
    | .null => "None"
    | .int n => toString n
    | .str s => s
  int := fun value => match value with
    | .null => none
    | .int n => some n
    | .str s => s.toInt?

def polygon (osmId : Cell) : Row Cell := fun column =>
  if column = "polygon_id" then some (.str "berlin-latest:way:7")
  else if column = "wikidata" then some (.str "Q1; Q2")
  else if column = "source_pbf" then some (.str "berlin-latest.osm.pbf")
  else if column = "region" then some (.str "berlin")
  else if column = "osm_type" then some (.str "way")
  else if column = "osm_id" then some osmId
  else none

def document : Row Cell := fun column =>
  if column = "document_id" then some (.str "Q2:wikipedia:en:5:9")
  else if column = "project" then some (.str "wikipedia")
  else if column = "wikidata" then some (.str "Q2")
  else if column = "language" then some (.str "en")
  else if column = "page_id" then some (.int 5)
  else if column = "revision_id" then some (.int 9)
  else none

def link : CanonicalLink :=
  ⟨"berlin-latest:way:7", "Q2:wikipedia:en:5:9", "wikipedia", "Q2", "en", "berlin-latest.osm.pbf",
    "berlin", "way", 7, 5, 9⟩

theorem build_document :
    buildPolygonDocumentLinks builtins Char.isDigit [polygon (.int 7)] [document] []
      = .ok [link] := by
  decide +kernel

/-- Given twice, and as a document of the other list, the rows are the same. -/
theorem build_document_again :
    buildPolygonDocumentLinks builtins Char.isDigit [polygon (.int 7), polygon (.int 7)] []
      [document, document] = .ok [link] := by
  refine ((build_joins [polygon (.int 7)] [document] []).2.2 _ _ _ ?_ ?_ [link]).mp build_document
  · simp
  · simp

/-- A polygon without a number raises, although its identifier is safe and its tag has items, and
there is no document that could be wrong. -/
theorem build_nullOsmId : buildPolygonDocumentLinks builtins Char.isDigit [polygon .null] [] []
        = .error (.notANumber "osm_id")
      ∧ PendingPublications.isSafeStem (text builtins (polygon .null) "polygon_id") = true
      ∧ qidsFromOsmTag Char.isDigit (text builtins (polygon .null) "wikidata") = ["Q1", "Q2"] := by
  decide +kernel

end Example

end OsmPolygonWikidata.DocumentLinks
