import OsmPolygonWikidata.Enrichment.ArticleLinker
import OsmPolygonWikidata.WikidataRecovery.LinkRows

/-! # Recomputing the fields of affected polygons

`pipeline/_wikidata_recovery/repair_fields.py`. The coverage fields of a polygon that carries an
affected identifier are computed again from its links and the documents they name; the links of the
polygon then get the flag of its best language again.
-/

namespace OsmPolygonWikidata.WikidataRecovery

open Python

/-! ## The model -/

def sortedSet (values : List String) : List String :=
  values.dedup.insertionSort (fun a b => a ≤ b)

section

variable {X : Type}

/-- `_summarize_polygon_links`: the articles and the languages. -/
def summarizePolygonLinks (polygonLinks : List LegacyLink) : List String × List String :=
  (sortedSet (polygonLinks.map (fun link => pyStr link.articleId)),
    sortedSet (polygonLinks.map (fun link => pyStr link.language)))

/-- `_preferred_language`. -/
def preferredLanguage (languages : List String) : String :=
  let best := (ArticleLinker.preferredLanguages.find? (fun language => language ∈ languages)).getD ""
  if best = "" ∧ languages ≠ [] then languages.headD "" else best

/-- `str(document["full_text"]).strip()`, with characters left. -/
def hasText (document : Document X) : Bool := strip (pyStr document.fullText).toList ≠ []

/-- `_has_article_text`: the first article with text ends the search, and an article without a
document before it is an error. -/
def hasArticleText (documentsByArticle : String → Option (Document X)) :
    List String → Except RepairError Bool
  | [] => .ok false
  | articleId :: articleIds =>
    match documentsByArticle articleId with
    | none => .error (.missingDocument articleId)
    | some document =>
      if hasText document then .ok true else hasArticleText documentsByArticle articleIds

variable (decimal : Char → Bool) (dumps : List String → String)

/-- The polygon carries an affected identifier. -/
def Polygon.Affected (p : Polygon X) (affectedQids : List String) : Prop :=
  ∃ qid ∈ p.qids decimal, qid ∈ affectedQids

instance (p : Polygon X) (affectedQids : List String) :
    Decidable (p.Affected decimal affectedQids) :=
  inferInstanceAs (Decidable (∃ qid ∈ p.qids decimal, qid ∈ affectedQids))

/-- `_recompute_polygon_row`: the row and its best language. -/
def recomputePolygonRow (original : Polygon X) (polygonLinks : List LegacyLink)
    (documentsByArticle : String → Option (Document X)) (affectedQids : List String) :
    Except RepairError (Polygon X × String) :=
  if ¬ original.Affected decimal affectedQids then .ok (original, "")
  else do
    let (articleIds, languages) := summarizePolygonLinks polygonLinks
    let best := preferredLanguage languages
    let textAvailable ← hasArticleText documentsByArticle articleIds
    return ({ original with
      hasWikipedia := some (articleIds ≠ [])
      wikipediaLanguageCount := some languages.length
      wikipediaLanguages := some (dumps languages)
      wikipediaArticleCount := some articleIds.length
      hasEnglishWikipedia := some ("en" ∈ languages)
      hasFrenchWikipedia := some ("fr" ∈ languages)
      textAvailable := some textAvailable
      bestLanguage := some best }, best)

/-- The links of a polygon. -/
def linksOf (links : List LegacyLink) (polygonId : String) : List LegacyLink :=
  links.filter (fun link => pyStr link.polygonId = polygonId)

/-- `best_by_polygon[polygon_id] = best`, of a best language that is not empty. -/
def recordBest (best : List (String × String)) (polygonId language : String) :
    List (String × String) :=
  if language ≠ "" then Dict.put Prod.fst (polygonId, language) best else best

/-- `_recompute_polygon_rows`: the rows, and the best languages by polygon. -/
def recomputePolygonRows (polygons : List (Polygon X)) (links : List LegacyLink)
    (documents : List (Document X)) (affectedQids : List String) :
    Except RepairError (List (Polygon X) × List (String × String)) :=
  polygons.foldlM (fun state original => do
    let (row, best) ← recomputePolygonRow decimal dumps original (linksOf links original.id)
      (lastWith (fun d => pyStr d.articleId) documents) affectedQids
    return (state.1 ++ [row], recordBest state.2 original.id best)) ([], [])

def applyBestLanguageLinks (links : List LegacyLink) (bestByPolygon : List (String × String)) :
    List LegacyLink :=
  links.map (fun link =>
    match bestByPolygon.lookup (pyStr link.polygonId) with
    | none => link
    | some best => { link with isBestLanguage := some (pyStr link.language = best) })

def recomputeAffectedPolygonFields (polygons : List (Polygon X)) (links : List LegacyLink)
    (documents : List (Document X)) (affectedQids : List String) :
    Except RepairError (List (Polygon X) × List LegacyLink) := do
  let (updatedPolygons, bestByPolygon) ←
    recomputePolygonRows decimal dumps polygons links documents affectedQids
  return (updatedPolygons, applyBestLanguageLinks links bestByPolygon)

end

/-! ## Texts and best languages -/

variable {X : Type} {decimal : Char → Bool} {dumps : List String → String}

theorem perm_sortedSet (values : List String) : (sortedSet values).Perm values.dedup :=
  List.perm_insertionSort _ _

variable {values : List String}

@[simp] theorem mem_sortedSet {value : String} :
    value ∈ sortedSet values ↔ value ∈ values :=
  ((perm_sortedSet values).mem_iff).trans List.mem_dedup

theorem sortedSet_eq_nil_iff : sortedSet values = [] ↔ values = [] := by
  rw [List.eq_nil_iff_forall_not_mem, List.eq_nil_iff_forall_not_mem]
  simp

theorem length_sortedSet (h : values.Nodup) : (sortedSet values).length = values.length := by
  rw [(perm_sortedSet values).length_eq, h.dedup]

theorem hasArticleText_eq {documentsByArticle : String → Option (Document X)}
    {articleIds : List String}
    (h : ∀ articleId ∈ articleIds, (documentsByArticle articleId).isSome) :
    hasArticleText documentsByArticle articleIds
      = .ok (articleIds.any (fun articleId => (documentsByArticle articleId).any hasText)) := by
  induction articleIds with
  | nil => rfl
  | cons articleId articleIds ih =>
    obtain ⟨document, hdocument⟩ := Option.isSome_iff_exists.mp (h articleId List.mem_cons_self)
    rw [hasArticleText, List.any_cons, hdocument,
      ih (fun other hother => h other (List.mem_cons_of_mem articleId hother))]
    cases htext : hasText document with
    | false => simp [htext]
    | true => simp [htext]

theorem headD_insertionSort_eq {least : String} (hmem : least ∈ values)
    (hle : ∀ value ∈ values, least ≤ value) :
    (values.insertionSort (fun a b => a ≤ b)).headD "" = least := by
  have hperm := List.perm_insertionSort (fun a b : String => a ≤ b) values
  have hsorted := List.pairwise_insertionSort (fun a b : String => a ≤ b) values
  cases hsort : values.insertionSort (fun a b => a ≤ b) with
  | nil =>
    rw [hsort] at hperm
    exact absurd (hperm.mem_iff.mpr hmem) List.not_mem_nil
  | cons first rest =>
    rw [hsort] at hperm hsorted
    have hfirst : first ∈ values := hperm.mem_iff.mp List.mem_cons_self
    have hleast : first ≤ least := by
      rcases List.mem_cons.mp (hperm.mem_iff.mpr hmem) with heq | hrest
      · exact heq.ge
      · exact (List.pairwise_cons.mp hsorted).1 least hrest
    exact le_antisymm hleast (hle first hfirst)

theorem exists_least (h : values ≠ []) : ∃ least ∈ values, ∀ value ∈ values, least ≤ value := by
  have hsorted := List.pairwise_insertionSort (fun a b : String => a ≤ b) values
  have hperm := List.perm_insertionSort (fun a b : String => a ≤ b) values
  cases hsort : values.insertionSort (fun a b => a ≤ b) with
  | nil =>
    rw [hsort] at hperm
    exact absurd hperm.symm.eq_nil h
  | cons first rest =>
    rw [hsort] at hperm hsorted
    refine ⟨first, hperm.mem_iff.mp List.mem_cons_self, fun value hvalue => ?_⟩
    rcases List.mem_cons.mp (hperm.mem_iff.mpr hvalue) with rfl | hrest
    · exact le_rfl
    · exact (List.pairwise_cons.mp hsorted).1 value hrest

theorem preferredLanguage_sortedSet (languages : List String) :
    preferredLanguage (sortedSet languages)
      = (ArticleLinker.preferredLanguages.find? (fun language => language ∈ languages)).getD
        (ArticleLinker.leastLanguage languages) := by
  have hfind : ArticleLinker.preferredLanguages.find?
        (fun language => language ∈ sortedSet languages)
      = ArticleLinker.preferredLanguages.find? (fun language => language ∈ languages) := by
    congr 1
    funext language
    exact decide_eq_decide.mpr mem_sortedSet
  rw [preferredLanguage, hfind]
  cases hbest : ArticleLinker.preferredLanguages.find? (fun language => language ∈ languages) with
  | some best =>
    have hne : best ≠ "" := by
      have hpreferred := List.mem_of_find?_eq_some hbest
      rintro rfl
      exact absurd hpreferred (by decide)
    simp [hne]
  | none =>
    by_cases hlanguages : languages = []
    · subst hlanguages
      rfl
    · obtain ⟨least, hmem, hle⟩ := exists_least hlanguages
      have hset : sortedSet languages ≠ [] := mt sortedSet_eq_nil_iff.mp hlanguages
      rw [Option.getD_none, Option.getD_none, if_pos ⟨rfl, hset⟩, sortedSet,
        ArticleLinker.leastLanguage, headD_insertionSort_eq hmem hle]
      exact headD_insertionSort_eq (List.mem_dedup.mpr hmem)
        (fun value hvalue => hle value (List.mem_dedup.mp hvalue))

/-! ## What is kept -/

/-- A recomputed polygon: the same one, unless it is affected. -/
structure Recomputed (decimal : Char → Bool) (affectedQids : List String) (p p' : Polygon X) :
    Prop where
  id : p'.id = p.id
  qids : p'.qids decimal = p.qids decimal
  unaffected : ¬ p.Affected decimal affectedQids → p' = p

variable {affectedQids : List String}

theorem recomputePolygonRow_keeps {original row : Polygon X} {polygonLinks : List LegacyLink}
    {documentsByArticle : String → Option (Document X)} {best : String}
    (h : recomputePolygonRow decimal dumps original polygonLinks documentsByArticle affectedQids
      = .ok (row, best)) : Recomputed decimal affectedQids original row := by
  rw [recomputePolygonRow] at h
  by_cases haffected : original.Affected decimal affectedQids
  · rw [if_neg (not_not.mpr haffected)] at h
    obtain ⟨textAvailable, -, h⟩ := bind_eq_ok.mp h
    cases h
    exact ⟨rfl, rfl, fun hnot => absurd haffected hnot⟩
  · rw [if_pos haffected] at h
    cases h
    exact ⟨rfl, rfl, fun _ => rfl⟩

theorem recomputePolygonRows_keeps {polygons rows : List (Polygon X)} {links : List LegacyLink}
    {documents : List (Document X)} {bests : List (String × String)}
    (h : recomputePolygonRows decimal dumps polygons links documents affectedQids
      = .ok (rows, bests)) : List.Forall₂ (Recomputed decimal affectedQids) polygons rows := by
  induction polygons using List.reverseRecOn generalizing rows bests with
  | nil =>
    cases h
    exact .nil
  | append_singleton polygons p ih =>
    rw [recomputePolygonRows, List.foldlM_append] at h
    obtain ⟨⟨done, bests'⟩, hdone, h⟩ := bind_eq_ok.mp h
    rw [List.foldlM_cons] at h
    obtain ⟨state, hstep, hret⟩ := bind_eq_ok.mp h
    obtain ⟨⟨row, best⟩, hrow, hstate⟩ := bind_eq_ok.mp hstep
    cases hret
    cases hstate
    exact List.rel_append (ih hdone) (.cons (recomputePolygonRow_keeps hrow) .nil)

/-- The same link, up to the flag of the best language. -/
def SameLink (link link' : LegacyLink) : Prop :=
  { link' with isBestLanguage := link.isBestLanguage } = link

theorem applyBestLanguageLinks_keeps (links : List LegacyLink) (bests : List (String × String)) :
    List.Forall₂ SameLink links (applyBestLanguageLinks links bests) := by
  rw [applyBestLanguageLinks, List.forall₂_map_right_iff, List.forall₂_same]
  intro link _
  cases bests.lookup (pyStr link.polygonId) <;> rfl

theorem recomputeAffectedPolygonFields_keeps {polygons rows : List (Polygon X)}
    {links links' : List LegacyLink} {documents : List (Document X)}
    (h : recomputeAffectedPolygonFields decimal dumps polygons links documents affectedQids
      = .ok (rows, links')) :
    List.Forall₂ (Recomputed decimal affectedQids) polygons rows
      ∧ List.Forall₂ SameLink links links' := by
  obtain ⟨⟨rows', bests⟩, hrows, hret⟩ := bind_eq_ok.mp h
  cases hret
  exact ⟨recomputePolygonRows_keeps hrows, applyBestLanguageLinks_keeps links bests⟩

end OsmPolygonWikidata.WikidataRecovery
