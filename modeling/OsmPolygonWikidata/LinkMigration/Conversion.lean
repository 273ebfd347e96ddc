import OsmPolygonWikidata.Domain.PolygonDocumentLinks
import OsmPolygonWikidata.Integrity.RejectionLedger

/-! # Converting legacy links

`pipeline/_link_migration`: `build_canonical_rows` drops a legacy link whose document is about
another item than its polygon, and the rejection ledger records the legacy links whose own item is
not among those of the polygon. The conversion compares the two items only for the links that it
keeps, so a dropped link may be missing from the ledger (`buildCanonicalRows_accounted_iff`).
-/

namespace OsmPolygonWikidata.LinkConversion

open Python DocumentLinks Integrity

variable {V : Type}

/-- A row of the legacy table, whose columns are `POLYGON_ARTICLE_COLUMNS`. -/
structure LegacyRow (V : Type) where
  polygonId : V
  articleId : V
  wikidata : V
  language : V
  sourcePbf : V
  region : V
  osmType : V
  osmId : V
  pageId : V
  revisionId : V
  isBestLanguage : V
  deriving DecidableEq

inductive ConversionError where
  | link (e : LinkError)
  | conflictingDuplicate (identity : String × String)
  | unknownPolygon (polygonId : String)
  | noDocument (articleId polygonId : String)
  | ambiguousDocument (articleId polygonId : String) (count : Nat)
  | conflict (identity : String × String) (field : String)
  deriving DecidableEq

section

variable (py : Builtins V) (decimal : Char → Bool)

/-- `_legacy_identity`; the normalized values are the row. -/
def LegacyRow.identity (row : LegacyRow V) : String × String :=
  (py.str row.polygonId, py.str row.articleId)

def lift {A : Type} (x : Except LinkError A) : Except ConversionError A := x.mapError .link

/-- `polygons_by_id.get`: the last row counts. -/
def polygonById (polygons : List (Row V)) (polygonId : String) : Option (Row V) :=
  polygons.reverse.find? (fun row => text py row "polygon_id" = polygonId)

/-- `docs_by_article_id.get`. -/
def documentsByArticleId (docs : List (Row V)) (articleId : String) : List (Row V) :=
  docs.filter (fun row => text py row "article_id" = articleId)

/-- The QIDs of one polygon row. -/
def rowQids (polygon : Row V) : List String := qidsFromOsmTag decimal (text py polygon "wikidata")

/-- One turn of the loop in `_validate_legacy_identity`. -/
def compareField {A : Type} [DecidableEq A] (identity : String × String) (field : String)
    (empty legacy document : A) : Except ConversionError Unit :=
  if legacy ≠ empty ∧ legacy ≠ document then .error (.conflict identity field) else .ok ()

def legacyNumber (field : String) (value : V) : Except ConversionError Int :=
  match py.int value with
  | none => .error (.link (.notANumber field))
  | some n => .ok n

def validateLegacyIdentity (row : LegacyRow V) (document : Row V) :
    Except ConversionError Unit := do
  let identity := row.identity py
  compareField identity "wikidata" "" (py.str row.wikidata) (text py document "wikidata")
  let pageId ← legacyNumber py "page_id" row.pageId
  compareField identity "page_id" 0 pageId (← lift (number py document "page_id"))
  let revisionId ← legacyNumber py "revision_id" row.revisionId
  compareField identity "revision_id" 0 revisionId (← lift (number py document "revision_id"))
  compareField identity "language" "" (py.str row.language) (text py document "language")

def canonicalRow (polygonId : String) (polygon document : Row V) (documentQid : String) :
    Except LinkError CanonicalLink := do
  let documentId ← required py document "document_id"
  let osmId ← number py polygon "osm_id"
  let pageId ← number py document "page_id"
  let revisionId ← number py document "revision_id"
  return ⟨polygonId, documentId, "wikipedia", documentQid, text py document "language",
    text py polygon "source_pbf", text py polygon "region", text py polygon "osm_type", osmId,
    pageId, revisionId⟩

variable (polygons docs : List (Row V))

/-- The turn of the loop for a row that is not a duplicate: `none` where the row is dropped. -/
def convertRow (row : LegacyRow V) : Except ConversionError (Option CanonicalLink) :=
  let polygonId := py.str row.polygonId
  let articleId := py.str row.articleId
  match polygonById py polygons polygonId with
  | none => .error (.unknownPolygon polygonId)
  | some polygon =>
    match documentsByArticleId py docs articleId with
    | [] => .error (.noDocument articleId polygonId)
    | [document] => do
      let documentQid ← lift (required py document "wikidata")
      if documentQid ≠ "" ∧ documentQid ∉ rowQids py decimal polygon then return none
      else do
        validateLegacyIdentity py row document
        let link ← lift (canonicalRow py polygonId polygon document documentQid)
        return some link
    | documents => .error (.ambiguousDocument articleId polygonId documents.length)

variable [DecidableEq V]

/-- One turn of the loop: the rows that are no duplicates, and the canonical rows. -/
def convertStep (state : List (LegacyRow V) × List CanonicalLink) (row : LegacyRow V) :
    Except ConversionError (List (LegacyRow V) × List CanonicalLink) :=
  match state.1.find? (fun original => original.identity py = row.identity py) with
  | some original =>
    if original ≠ row then .error (.conflictingDuplicate (row.identity py)) else .ok state
  | none => do
    let link ← convertRow py decimal polygons docs row
    return (state.1 ++ [row], state.2 ++ link.toList)

def buildCanonicalRows (legacy : List (LegacyRow V)) :
    Except ConversionError (List CanonicalLink) := do
  let _ ← lift (polygons.mapM (fun row => required py row "polygon_id"))
  let _ ← lift (docs.mapM (fun row => required py row "article_id"))
  let (_, links) ← legacy.foldlM (convertStep py decimal polygons docs) ([], [])
  lift (validatePolygonDocumentLinks decimal links)

/-! ## The rejections -/

omit [DecidableEq V]

/-- `_polygon_qids_by_id`: all rows of the polygon count. -/
def polygonQidsById (polygonId : String) : List String :=
  (polygons.filter (fun row => text py row "polygon_id" = polygonId)).flatMap (rowQids py decimal)

/-- The item of the legacy row is none of its polygon. -/
def Unlisted (row : LegacyRow V) : Prop :=
  py.str row.wikidata ≠ ""
    ∧ py.str row.wikidata ∉ polygonQidsById py decimal polygons (py.str row.polygonId)

instance (row : LegacyRow V) : Decidable (Unlisted py decimal polygons row) :=
  inferInstanceAs (Decidable (_ ∧ _))

/-- One turn of the loop in `_legacy_rejection_records`. -/
def rejectionRecord (stem : String) (row : LegacyRow V) : Option RejectionRecord :=
  if Unlisted py decimal polygons row then
    some ⟨stem, "polygon_articles", py.str row.articleId, py.str row.wikidata, none,
      "wikidata_not_in_polygon_qids", 0⟩
  else none

/-- `_read_legacy_rejection_tables` finds both columns of the polygon table. -/
def Readable : Prop :=
  ∀ row ∈ polygons, (row "polygon_id").isSome ∧ (row "wikidata").isSome

instance : Decidable (Readable polygons) :=
  inferInstanceAs (Decidable (∀ row ∈ polygons, _ ∧ _))

/-- `plan_link_migration_normalization_rejections_for_stem`, for a migratable stem. -/
def planRejections (stem : String) (legacy : List (LegacyRow V)) : List RejectionRecord :=
  if Readable polygons then
    (legacy.filterMap (rejectionRecord py decimal polygons stem)).insertionSort
      (fun a b => [a.identifier, a.wikidata] ≤ [b.identifier, b.wikidata])
  else []

/-! ## What is accounted for -/

/-- The document of a legacy row. -/
def documentOf (row : LegacyRow V) : Option (Row V) :=
  (documentsByArticleId py docs (py.str row.articleId)).head?

/-- The document of the row is about an item, which the last row of its polygon does not list. -/
def Outside (row : LegacyRow V) : Prop :=
  ∃ polygon ∈ polygonById py polygons (py.str row.polygonId), ∃ document ∈ documentOf py docs row,
    text py document "wikidata" ≠ "" ∧ text py document "wikidata" ∉ rowQids py decimal polygon

/-- The polygon and the document of the row. -/
def pair (row : LegacyRow V) : String × Option String :=
  (py.str row.polygonId, (documentOf py docs row).map (fun document => text py document "document_id"))

/-- Every legacy row is converted, or a record has its article id; and the rows that are converted
are not recorded. -/
structure Accounted (stem : String) (legacy : List (LegacyRow V)) (links : List CanonicalLink) :
    Prop where
  covered : ∀ row ∈ legacy, (∃ link ∈ links, (link.polygonId, some link.documentId) = pair py docs row)
    ∨ ∃ record ∈ planRejections py decimal polygons stem legacy,
      record.identifier = py.str row.articleId
  onlyDropped : ∀ row ∈ legacy, ¬ Outside py decimal polygons docs row →
    rejectionRecord py decimal polygons stem row = none

/-- A dropped row shares its article with a row whose item its polygon does not list, or its polygon
and its document with a row that is kept. -/
def Covered (legacy : List (LegacyRow V)) : Prop :=
  ∀ row ∈ legacy, Outside py decimal polygons docs row →
    (∃ other ∈ legacy, ¬ Outside py decimal polygons docs other
      ∧ pair py docs other = pair py docs row)
    ∨ Readable polygons ∧ ∃ other ∈ legacy, Unlisted py decimal polygons other
      ∧ py.str other.articleId = py.str row.articleId

/-! ## What the conversion does with a row -/

variable {py decimal polygons docs} {row : LegacyRow V} {result : Option CanonicalLink}
  {stem : String} {legacy done : List (LegacyRow V)} {links : List CanonicalLink}

theorem lift_eq_ok {A : Type} {x : Except LinkError A} {a : A} : lift x = .ok a ↔ x = .ok a := by
  cases x <;> simp [lift, Except.mapError]

theorem text_of_required {source : Row V} {column value : String}
    (h : required py source column = .ok value) : text py source column = value := by
  unfold required at h
  unfold text
  cases hvalue : source column with
  | none => simp [hvalue] at h
  | some v => simpa [hvalue] using h

theorem canonicalRow_eq_ok {polygonId qid : String} {polygon document : Row V}
    {link : CanonicalLink} (h : canonicalRow py polygonId polygon document qid = .ok link) :
    link.polygonId = polygonId ∧ link.documentId = text py document "document_id" := by
  obtain ⟨documentId, hdocument, h⟩ := bind_eq_ok.mp h
  obtain ⟨_, -, h⟩ := bind_eq_ok.mp h
  obtain ⟨_, -, h⟩ := bind_eq_ok.mp h
  obtain ⟨_, -, h⟩ := bind_eq_ok.mp h
  cases h
  exact ⟨rfl, (text_of_required hdocument).symm⟩

theorem validateLegacyIdentity_eq_ok {document : Row V}
    (h : validateLegacyIdentity py row document = .ok ()) :
    py.str row.wikidata = "" ∨ py.str row.wikidata = text py document "wikidata" := by
  obtain ⟨_, hfield, -⟩ := bind_eq_ok.mp h
  by_contra hne
  rw [compareField, if_pos (not_or.mp hne)] at hfield
  cases hfield

/-- What a row has become: it is dropped, or converted with the item of its document. -/
def Became (py : Builtins V) (decimal : Char → Bool) (polygons docs : List (Row V))
    (row : LegacyRow V) : Option CanonicalLink → Prop
  | none => Outside py decimal polygons docs row
  | some link => ¬ Outside py decimal polygons docs row
      ∧ (link.polygonId, some link.documentId) = pair py docs row
      ∧ ¬ Unlisted py decimal polygons row

theorem convertRow_became (h : convertRow py decimal polygons docs row = .ok result) :
    Became py decimal polygons docs row result := by
  unfold convertRow at h
  cases hpolygon : polygonById py polygons (py.str row.polygonId) with
  | none => simp [hpolygon] at h
  | some polygon =>
    simp only [hpolygon] at h
    split at h
    · cases h
    · rename_i document hdocuments
      have hdocument : documentOf py docs row = some document := by
        unfold documentOf
        rw [hdocuments]
        rfl
      obtain ⟨qid, hqid, h⟩ := bind_eq_ok.mp h
      have htext := text_of_required (lift_eq_ok.mp hqid)
      have houtside : Outside py decimal polygons docs row
          ↔ qid ≠ "" ∧ qid ∉ rowQids py decimal polygon := by
        simp [Outside, hpolygon, hdocument, htext]
      by_cases hdropped : qid ≠ "" ∧ qid ∉ rowQids py decimal polygon
      · rw [if_pos hdropped] at h
        cases h
        exact houtside.mpr hdropped
      · rw [if_neg hdropped] at h
        obtain ⟨_, hvalid, h⟩ := bind_eq_ok.mp h
        obtain ⟨link, hlink, h⟩ := bind_eq_ok.mp h
        cases h
        obtain ⟨hpolygonId, hdocumentId⟩ := canonicalRow_eq_ok (lift_eq_ok.mp hlink)
        refine ⟨fun hout => hdropped (houtside.mp hout), ?_, fun hunlisted => ?_⟩
        · simp [pair, hdocument, hpolygonId, hdocumentId]
        · -- the item is that of the document, which the last row of the polygon lists
          obtain ⟨hne, hnot⟩ := hunlisted
          have hsame : py.str row.wikidata = qid :=
            ((validateLegacyIdentity_eq_ok hvalid).resolve_left hne).trans htext
          rw [hsame] at hne hnot
          refine hdropped ⟨hne, fun hmem => hnot (List.mem_flatMap.mpr ⟨polygon, ?_, hmem⟩)⟩
          have hfound := List.find?_some hpolygon
          exact List.mem_filter.mpr
            ⟨List.mem_reverse.mp (List.mem_of_find?_eq_some hpolygon), hfound⟩
    · cases h

theorem mem_planRejections {record : RejectionRecord} :
    record ∈ planRejections py decimal polygons stem legacy
      ↔ Readable polygons ∧ ∃ row ∈ legacy, rejectionRecord py decimal polygons stem row = some record := by
  unfold planRejections
  split_ifs with hreadable
  · rw [List.mem_insertionSort, List.mem_filterMap, and_iff_right hreadable]
  · simp [hreadable]

theorem recorded_iff {articleId : String} :
    (∃ record ∈ planRejections py decimal polygons stem legacy, record.identifier = articleId)
      ↔ Readable polygons ∧ ∃ row ∈ legacy, Unlisted py decimal polygons row
        ∧ py.str row.articleId = articleId := by
  simp only [mem_planRejections, rejectionRecord]
  constructor
  · rintro ⟨record, ⟨hreadable, row, hrow, hrecord⟩, hidentifier⟩
    split_ifs at hrecord with hunlisted
    cases hrecord
    exact ⟨hreadable, row, hrow, hunlisted, hidentifier⟩
  · rintro ⟨hreadable, row, hrow, hunlisted, hidentifier⟩
    exact ⟨_, ⟨hreadable, row, hrow, if_pos hunlisted⟩, hidentifier⟩

/-! ## What the loop does with the table -/

/-- The loop has been through the rows of `done`. -/
structure Converted (py : Builtins V) (decimal : Char → Bool) (polygons docs : List (Row V))
    (done : List (LegacyRow V)) (state : List (LegacyRow V) × List CanonicalLink) : Prop where
  seen : ∀ row ∈ state.1, row ∈ done
  rows : ∀ row ∈ done, ∃ result, Became py decimal polygons docs row result
    ∧ ∀ link ∈ result, link ∈ state.2
  links : ∀ link ∈ state.2, ∃ row ∈ done, Became py decimal polygons docs row (some link)

variable [DecidableEq V] {state next : List (LegacyRow V) × List CanonicalLink}

theorem Converted.step (h : Converted py decimal polygons docs done state)
    (hstep : convertStep py decimal polygons docs state row = .ok next) :
    Converted py decimal polygons docs (done ++ [row]) next := by
  have hlinks : ∀ link ∈ state.2, ∃ row' ∈ done ++ [row],
      Became py decimal polygons docs row' (some link) := fun link hlink =>
    let ⟨row', hrow', hbecame⟩ := h.links link hlink
    ⟨row', List.mem_append_left _ hrow', hbecame⟩
  unfold convertStep at hstep
  split at hstep
  · rename_i original hfind
    split_ifs at hstep with hsame
    cases hstep
    rw [not_not] at hsame
    have hrow : row ∈ done := hsame ▸ h.seen original (List.mem_of_find?_eq_some hfind)
    refine ⟨fun r hr => List.mem_append_left _ (h.seen r hr), fun r hr => h.rows r ?_, hlinks⟩
    rcases List.mem_append.mp hr with hr | hr
    · exact hr
    · rwa [List.mem_singleton.mp hr]
  · obtain ⟨result, hconvert, hstep⟩ := bind_eq_ok.mp hstep
    cases hstep
    have hbecame := convertRow_became hconvert
    refine ⟨fun r hr => ?_, fun r hr => ?_, fun link hlink => ?_⟩
    · rcases List.mem_append.mp hr with hr | hr
      · exact List.mem_append_left _ (h.seen r hr)
      · exact List.mem_append_right _ hr
    · rcases List.mem_append.mp hr with hr | hr
      · obtain ⟨result', hbecame', hin⟩ := h.rows r hr
        exact ⟨result', hbecame', fun link hlink => List.mem_append_left _ (hin link hlink)⟩
      · rw [List.mem_singleton.mp hr]
        exact ⟨result, hbecame, fun link hlink =>
          List.mem_append_right _ (Option.mem_toList.mpr hlink)⟩
    · rcases List.mem_append.mp hlink with hlink | hlink
      · exact hlinks link hlink
      · rw [Option.mem_toList.mp hlink] at hbecame
        exact ⟨row, by simp, hbecame⟩

theorem Converted.run (h : Converted py decimal polygons docs done state)
    (hrun : legacy.foldlM (convertStep py decimal polygons docs) state = .ok next) :
    Converted py decimal polygons docs (done ++ legacy) next := by
  induction legacy generalizing done state with
  | nil =>
    cases hrun
    rwa [List.append_nil]
  | cons row legacy ih =>
    rw [List.foldlM_cons] at hrun
    obtain ⟨middle, hstep, hrun⟩ := bind_eq_ok.mp hrun
    have hrest := ih (h.step hstep) hrun
    rwa [List.append_assoc] at hrest

theorem buildCanonicalRows_converted
    (h : buildCanonicalRows py decimal polygons docs legacy = .ok links) :
    ∃ seen, Converted py decimal polygons docs legacy (seen, links) := by
  obtain ⟨_, -, h⟩ := bind_eq_ok.mp h
  obtain ⟨_, -, h⟩ := bind_eq_ok.mp h
  obtain ⟨⟨seen, rows⟩, hrun, h⟩ := bind_eq_ok.mp h
  have hstart : Converted py decimal polygons docs [] ([], []) :=
    ⟨by simp, by simp, by simp⟩
  have hdone := hstart.run hrun
  have hsame := (validatePolygonDocumentLinks_spec (lift_eq_ok.mp h)).2.1
  refine ⟨seen, hdone.seen, fun row hrow => ?_, fun link hlink => ?_⟩
  · obtain ⟨result, hbecame, hin⟩ := hdone.rows row hrow
    exact ⟨result, hbecame, fun link hlink => (hsame link).mpr (hin link hlink)⟩
  · exact hdone.links link ((hsame link).mp hlink)

/-- **Legacy links.** The links of a stem that can be migrated are all accounted for just when every
dropped link shares its article with a rejected one, or its pair with a converted one. -/
theorem buildCanonicalRows_accounted_iff (py : Builtins V) (decimal : Char → Bool)
    (polygons docs : List (Row V)) (stem : String) (legacy : List (LegacyRow V))
    (links : List CanonicalLink)
    (h : buildCanonicalRows py decimal polygons docs legacy = .ok links) :
    Accounted py decimal polygons docs stem legacy links
      ↔ Covered py decimal polygons docs legacy := by
  obtain ⟨seen, hseen, hrows, hlinks⟩ := buildCanonicalRows_converted h
  constructor
  · intro haccounted row hrow houtside
    rcases haccounted.covered row hrow with ⟨link, hlink, hpair⟩ | hrecord
    · obtain ⟨other, hother, hnot, hpair', -⟩ := hlinks link hlink
      exact Or.inl ⟨other, hother, hnot, hpair'.symm.trans hpair⟩
    · exact Or.inr (recorded_iff.mp hrecord)
  · intro hcovered
    have hconverted : ∀ row ∈ legacy, ¬ Outside py decimal polygons docs row →
        ∃ link ∈ links, Became py decimal polygons docs row (some link) := by
      intro row hrow hnot
      obtain ⟨result, hbecame, hin⟩ := hrows row hrow
      cases result with
      | none => exact absurd hbecame hnot
      | some link => exact ⟨link, hin link rfl, hbecame⟩
    constructor
    · intro row hrow
      by_cases houtside : Outside py decimal polygons docs row
      · rcases hcovered row hrow houtside with ⟨other, hother, hnot, hpair⟩ | hrecord
        · obtain ⟨link, hlink, -, hlinkPair, -⟩ := hconverted other hother hnot
          exact Or.inl ⟨link, hlink, hlinkPair.trans hpair⟩
        · exact Or.inr (recorded_iff.mpr hrecord)
      · obtain ⟨link, hlink, -, hpair, -⟩ := hconverted row hrow houtside
        exact Or.inl ⟨link, hlink, hpair⟩
    · intro row hrow hnot
      obtain ⟨link, -, -, -, hlisted⟩ := hconverted row hrow hnot
      exact if_neg hlisted

end

namespace Example

/-- The cells are texts. -/
def builtins : Builtins String where
  str value := value
  int value := value.toInt?

def polygon : Row String := fun column =>
  if column = "polygon_id" then some "p" else if column = "wikidata" then some "Q1" else none

def document (wikidata : String) : Row String := fun column =>
  if column = "article_id" then some "a" else if column = "wikidata" then some wikidata else none

def legacyRow : LegacyRow String :=
  ⟨"p", "a", "Q1", "en", "", "", "way", "1", "0", "0", "False"⟩

/-- The document is about another item than the polygon and the legacy row: the row disappears. -/
theorem notAccounted :
    buildCanonicalRows builtins Char.isDigit [polygon] [document "Q2"] [legacyRow] = .ok []
      ∧ ¬ Accounted builtins Char.isDigit [polygon] [document "Q2"] "stem" [legacyRow] [] := by
  refine ⟨by decide, fun h => ?_⟩
  rcases h.covered legacyRow (by simp) with ⟨link, hlink, -⟩ | ⟨record, hrecord, -⟩
  · simp at hlink
  · have hnone : planRejections builtins Char.isDigit [polygon] "stem" [legacyRow] = [] := by decide
    rw [hnone] at hrecord
    simp at hrecord

/-- A row about the item of the document is recorded. -/
def recordedRow : LegacyRow String := { legacyRow with wikidata := "Q2" }

theorem accounted_recorded :
    Accounted builtins Char.isDigit [polygon] [document "Q2"] "stem" [recordedRow] [] := by
  refine (buildCanonicalRows_accounted_iff builtins Char.isDigit [polygon] [document "Q2"] "stem"
    [recordedRow] [] (by decide)).mpr (fun row hrow _ => Or.inr ⟨by decide, row, hrow, ?_, rfl⟩)
  rw [List.mem_singleton.mp hrow]
  decide

end Example

end OsmPolygonWikidata.LinkConversion
