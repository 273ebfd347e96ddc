import OsmPolygonWikidata.WikidataRecovery.Audit

/-! # Identifiers in the scanned tables

Which items the polygons carry and the documents name, for the inputs of a repair and its receipts.
-/

namespace OsmPolygonWikidata.WikidataRecovery

open Python

variable {X : Type} {decimal : Char → Bool}

def Polygon.id (p : Polygon X) : String := pyStr p.polygonId

variable (decimal) in
/-- The identifiers of the polygon's tag. -/
def Polygon.qids (p : Polygon X) : List String := qidsFromOsmTag decimal (pyStr p.wikidata)

variable (decimal) in
/-- Some polygon carries the identifier. -/
def Carried (polygons : List (Polygon X)) (qid : String) : Prop :=
  ∃ p ∈ polygons, qid ∈ p.qids decimal

/-- The column that a link refers to. -/
def Document.reference (canonicalLinks : Bool) (d : Document X) : Option String :=
  if canonicalLinks then d.documentId else d.articleId

variable (decimal) in
/-- The polygon exists and carries the identifier. -/
def Carries (polygons : List (Polygon X)) (polygonId qid : String) : Prop :=
  ∃ p ∈ polygons, p.id = polygonId ∧ qid ∈ p.qids decimal

/-- Some document has the reference and the identifier. -/
def Names (canonicalLinks : Bool) (documents : List (Document X)) (reference qid : String) : Prop :=
  ∃ d ∈ documents, pyStr (d.reference canonicalLinks) = reference ∧ pyStr d.wikidata = qid

theorem lookup_polygons_eq_some_iff {polygons : List (Polygon X)} {polygonId : String}
    {qids : List String} (hpolygons : (polygons.map Polygon.id).Nodup) :
    (polygons.map (fun p => (p.id, p.qids decimal))).lookup polygonId = some qids
      ↔ ∃ p ∈ polygons, p.id = polygonId ∧ p.qids decimal = qids := by
  rw [lookup_eq_some_iff_mem]
  · simp
  · simpa [Function.comp_def] using hpolygons

end OsmPolygonWikidata.WikidataRecovery
