import OsmPolygonWikidata.WikidataRecovery.Scanning

/-! # The inputs of a repair

`pipeline/_wikidata_recovery/repair_inputs.py`, the conversion of `link_rows.py` and the referential
checks of `validation.py`. A repair reads the five tables again. Canonical Wikipedia links are
brought into the legacy shape: a link whose document is gone is dropped when its identifier is to be
repaired, and is an error otherwise. The orphans of the plan are removed, and what is left must be
consistent.
-/

namespace OsmPolygonWikidata.WikidataRecovery

open Python

/-! ## The model -/

inductive LoadError where
  | missingInput (table : Table)
  | schemaMismatch (table : Table)
  | missingDocument (documentId : String)
  | staleOrphanFacts
  | staleOrphanDocuments
  | duplicate (label value : String)
  | duplicateIdentity (identity : String × String)
  | invalidIdentifier (raw : String)
  | linkMissingPolygon (polygonId : String)
  | linkMissingDocument (articleId : String)
  | linkQidMismatch (identity : String × String)
  | sectionMissingDocument (documentId : String)
  | factAbsentQid (qid : String)
  deriving DecidableEq

/-- The value of a dictionary comprehension: of several rows with one key, the last. -/
def lastWith {R : Type} (key : R → String) (rows : List R) (k : String) : Option R :=
  rows.reverse.find? (fun row => key row = k)

/-- `_unique_rows`: the rows by key, or the first key that occurs twice. -/
def uniqueRows {R : Type} (key : R → String) (label : String) (rows : List R) :
    Except LoadError (List R) :=
  rows.foldlM (fun seen row =>
    if key row ∈ seen.map key then .error (.duplicate label (key row))
    else .ok (seen ++ [row])) []

section

variable {X C H : Type} (decimal : Char → Bool) (codec : Codec X C)

def legacyLinkFromCanonical (polygons : List (Polygon X)) (documents : List (Document X))
    (affectedQids : List String) (link : CanonicalLink) : Except LoadError (Option LegacyLink) :=
  match lastWith (fun d => pyStr d.documentId) documents (pyStr link.documentId) with
  | none =>
    if pyStr link.wikidata ∈ affectedQids then .ok none
    else .error (.missingDocument (pyStr link.documentId))
  | some document =>
    let best := (lastWith Polygon.id polygons (pyStr link.polygonId)).map
      (fun p => p.bestLanguage.getD "")
    .ok (some {
      polygonId := link.polygonId
      articleId := document.articleId
      wikidata := link.wikidata
      language := link.language
      sourcePbf := link.sourcePbf
      region := link.region
      osmType := link.osmType
      osmId := link.osmId
      pageId := link.pageId
      revisionId := link.revisionId
      isBestLanguage := some (pyStr link.language = best.getD "") })

/-- `_wikipedia_links`. -/
def wikipediaLinks (links : List CanonicalLink) : List CanonicalLink :=
  links.filter (fun link => link.project = some "wikipedia")

def canonicalWikipediaLinksToLegacy (links : List CanonicalLink) (documents : List (Document X))
    (polygons : List (Polygon X)) (affectedQids : List String) :
    Except LoadError (List LegacyLink) := do
  let converted ← (wikipediaLinks links).mapM
    (legacyLinkFromCanonical polygons documents affectedQids)
  return converted.reduceOption

/-- The links that a repair keeps as they are. -/
def wikivoyageLinks : Links → List CanonicalLink
  | .canonical rows => rows.filter (fun row => row.project = some "wikivoyage")
  | .legacy _ => []

/-- The links in the legacy shape. -/
def legacyLinks (polygons : List (Polygon X)) (documents : List (Document X))
    (affectedQids : List String) : Links → Except LoadError (List LegacyLink)
  | .canonical rows => canonicalWikipediaLinksToLegacy rows documents polygons affectedQids
  | .legacy rows => .ok rows

structure RepairInputs (X : Type) where
  polygons : List (Polygon X)
  storedLinks : Links
  links : List LegacyLink
  documents : List (Document X)
  sections : List (Section X)
  facts : List (Fact X)
  preservedWikivoyageLinks : List CanonicalLink
  retainedFacts : List (Fact X)
  retainedDocuments : List (Document X)
  retainedSections : List (Section X)
  retainedLinks : List LegacyLink
  orphanDocumentIds : List String
  deriving DecidableEq

/-- `_retain_facts`. -/
def retainFacts (facts : List (Fact X)) (orphanFactIds : List String) : List (Fact X) :=
  facts.filter (fun f => pyStr f.factId ∉ orphanFactIds)

def orphanArticleIds (documents : List (Document X)) (orphanDocumentIds : List String) :
    List String :=
  (documents.filter (fun d => pyStr d.documentId ∈ orphanDocumentIds)).map
    (fun d => pyStr d.articleId)

/-- `_retain_documents`. -/
def retainDocuments (documents : List (Document X)) (orphanDocumentIds : List String) :
    List (Document X) :=
  documents.filter (fun d => pyStr d.documentId ∉ orphanDocumentIds)

/-- `_retain_sections`. -/
def retainSections (sections : List (Section X)) (orphanDocumentIds : List String) :
    List (Section X) :=
  sections.filter (fun s => pyStr s.documentId ∉ orphanDocumentIds)

/-- `_retain_links`. -/
def retainLinks (links : List LegacyLink) (orphanArticleIds : List String) : List LegacyLink :=
  links.filter (fun l => pyStr l.articleId ∉ orphanArticleIds)

/-- `_validate_polygons`: the identifiers by polygon. -/
def validatePolygons (polygons : List (Polygon X)) :
    Except LoadError (List (String × List String)) := do
  let rows ← uniqueRows Polygon.id "polygon_id" polygons
  match rows.find? (fun p => p.qids decimal = []) with
  | some p => throw (.invalidIdentifier (pyStr p.wikidata))
  | none => return rows.map (fun p => (p.id, p.qids decimal))

/-- `_validate_documents`: the documents by article. -/
def validateDocuments (documents : List (Document X)) : Except LoadError (List (Document X)) := do
  let byArticle ← uniqueRows (fun d => pyStr d.articleId) "article_id" documents
  let _ ← uniqueRows (fun d => pyStr d.documentId) "document_id" documents
  return byArticle

def LegacyLink.identity (link : LegacyLink) : String × String :=
  (pyStr link.polygonId, pyStr link.articleId)

def validateLinkReference (polygonQids : List (String × List String))
    (documentsByArticle : List (Document X)) (link : LegacyLink) : Except LoadError Unit :=
  match polygonQids.lookup (pyStr link.polygonId) with
  | none => .error (.linkMissingPolygon (pyStr link.polygonId))
  | some qids =>
    match documentsByArticle.find? (fun d => pyStr d.articleId = pyStr link.articleId) with
    | none => .error (.linkMissingDocument (pyStr link.articleId))
    | some d =>
      if pyStr link.wikidata ∈ qids ∧ pyStr d.wikidata = pyStr link.wikidata then .ok ()
      else .error (.linkQidMismatch link.identity)

/-- `_validate_links`: the identities that were met. -/
def validateLinks (polygonQids : List (String × List String))
    (documentsByArticle : List (Document X)) (links : List LegacyLink) :
    Except LoadError (List (String × String)) :=
  links.foldlM (fun linkIds link =>
    if link.identity ∈ linkIds then .error (.duplicateIdentity link.identity)
    else do
      validateLinkReference polygonQids documentsByArticle link
      return linkIds ++ [link.identity]) []

/-- `_validate_sections`. -/
def validateSections (documentIds : List String) (sections : List (Section X)) :
    Except LoadError Unit := do
  let rows ← uniqueRows (fun s => pyStr s.sectionId) "section_id" sections
  match rows.find? (fun s => pyStr s.documentId ∉ documentIds) with
  | some s => throw (.sectionMissingDocument (pyStr s.documentId))
  | none => return ()

/-- `_validate_facts`. -/
def validateFacts (polygonQids : List (String × List String)) (facts : List (Fact X)) :
    Except LoadError Unit := do
  let rows ← uniqueRows (fun f => pyStr f.factId) "fact_id" facts
  match rows.find? (fun f => pyStr f.wikidata ∉ polygonQids.flatMap Prod.snd) with
  | some f => throw (.factAbsentQid (pyStr f.wikidata))
  | none => return ()

def validateExistingRows (polygons : List (Polygon X)) (links : List LegacyLink)
    (documents : List (Document X)) (sections : List (Section X)) (facts : List (Fact X)) :
    Except LoadError Unit := do
  let polygonQids ← validatePolygons decimal polygons
  let documentsByArticle ← validateDocuments documents
  let _ ← validateLinks polygonQids documentsByArticle links
  validateSections (documents.map (fun d => pyStr d.documentId)) sections
  validateFacts polygonQids facts

/-- `_read_table`. -/
def readTable {R : Type} (files : RegionFiles C) (table : Table) (read : C → Option (List R)) :
    Except LoadError (List R) :=
  match files table with
  | none => .error (.missingInput table)
  | some c =>
    match read c with
    | none => .error (.schemaMismatch table)
    | some rows => .ok rows

/-- The stored links of `_load_repair_links`. -/
def readStoredLinks (files : RegionFiles C) : Except LoadError Links :=
  match files .polygonArticles with
  | none => .error (.missingInput .polygonArticles)
  | some c =>
    match codec.readCanonicalLinks c with
    | some rows => .ok (.canonical rows)
    | none =>
      match codec.readLegacyLinks c with
      | some rows => .ok (.legacy rows)
      | none => .error (.schemaMismatch .polygonArticles)

/-- `_retain_repair_rows`, with what was read. -/
def retainRepairRows (region : RegionAuditResult H) (polygons : List (Polygon X))
    (documents : List (Document X)) (sections : List (Section X)) (facts : List (Fact X))
    (storedLinks : Links) (links : List LegacyLink) : Except LoadError (RepairInputs X) :=
  if facts.length - (retainFacts facts region.orphanFactIds).length
      ≠ region.orphanFactIds.dedup.length then .error .staleOrphanFacts
  else if documents.length - (retainDocuments documents region.orphanDocumentIds).length
      ≠ region.orphanDocumentIds.dedup.length then .error .staleOrphanDocuments
  else .ok {
    polygons := polygons
    storedLinks := storedLinks
    links := links
    documents := documents
    sections := sections
    facts := facts
    preservedWikivoyageLinks := wikivoyageLinks storedLinks
    retainedFacts := retainFacts facts region.orphanFactIds
    retainedDocuments := retainDocuments documents region.orphanDocumentIds
    retainedSections := retainSections sections region.orphanDocumentIds
    retainedLinks := retainLinks links (orphanArticleIds documents region.orphanDocumentIds)
    orphanDocumentIds := region.orphanDocumentIds }

def loadRepairInputs (files : RegionFiles C) (region : RegionAuditResult H) :
    Except LoadError (RepairInputs X) := do
  let polygons ← readTable files .polygons codec.readPolygons
  let documents ← readTable files .wikipediaDocuments codec.readDocuments
  let sections ← readTable files .wikipediaSections codec.readSections
  let facts ← readTable files .wikidataFacts codec.readFacts
  let storedLinks ← readStoredLinks codec files
  let links ← legacyLinks polygons documents region.affectedQids storedLinks
  let inputs ← retainRepairRows region polygons documents sections facts storedLinks links
  validateExistingRows decimal inputs.polygons inputs.retainedLinks inputs.retainedDocuments
    inputs.retainedSections inputs.retainedFacts
  return inputs

end

/-! ## What the checks say -/

variable {X C H : Type} {decimal : Char → Bool} {codec : Codec X C}

variable {R : Type} {key : R → String} {rows : List R} {k : String} {row : R}

theorem uniqueRows_eq_ok_iff {label : String} {rows' : List R} :
    uniqueRows key label rows = .ok rows' ↔ (rows.map key).Nodup ∧ rows' = rows := by
  have h : uniqueRows key label rows = .ok rows'
      ↔ (∀ row ∈ rows, True) ∧ (rows.map key).Nodup ∧ rows' = rows := by
    rw [uniqueRows]
    apply foldlM_unique_eq_ok_iff (fun pre => pre) (fun _ => True) key
    · intro pre row _ hnew
      rw [if_neg hnew]
    · intro pre row s hs
      split at hs
      · cases hs
      · rename_i hnew
        exact ⟨trivial, hnew⟩
  rw [h]
  exact ⟨fun h => h.2, fun h => ⟨fun _ _ => trivial, h⟩⟩

theorem find?_eq_some_iff_of_nodup (hnodup : (rows.map key).Nodup) :
    rows.find? (fun r => key r = k) = some row ↔ row ∈ rows ∧ key row = k := by
  constructor
  · intro h
    exact ⟨List.mem_of_find?_eq_some h, by simpa using List.find?_some h⟩
  · rintro ⟨hmem, rfl⟩
    cases hfound : rows.find? (fun r => key r = key row) with
    | none => exact absurd (List.find?_eq_none.mp hfound row hmem) (by simp)
    | some row' =>
      have hkey : key row' = key row := by simpa using List.find?_some hfound
      rw [List.inj_on_of_nodup_map hnodup (List.mem_of_find?_eq_some hfound) hmem hkey]

theorem mem_of_lastWith (h : lastWith key rows k = some row) : row ∈ rows ∧ key row = k :=
  ⟨List.mem_reverse.mp (List.mem_of_find?_eq_some h), by simpa using List.find?_some h⟩

theorem lastWith_eq_some_iff (hnodup : (rows.map key).Nodup) :
    lastWith key rows k = some row ↔ row ∈ rows ∧ key row = k := by
  have hnodup' : (rows.reverse.map key).Nodup := by
    rw [List.map_reverse, List.nodup_reverse]
    exact hnodup
  rw [lastWith, find?_eq_some_iff_of_nodup hnodup', List.mem_reverse]

variable (decimal) in
/-- Rows that `validate_existing_rows` accepts. -/
structure ValidRows (polygons : List (Polygon X)) (links : List LegacyLink)
    (documents : List (Document X)) (sections : List (Section X)) (facts : List (Fact X)) :
    Prop where
  polygonIds : (polygons.map Polygon.id).Nodup
  tags : ∀ p ∈ polygons, p.qids decimal ≠ []
  articleIds : (documents.map (fun d => pyStr d.articleId)).Nodup
  documentIds : (documents.map (fun d => pyStr d.documentId)).Nodup
  linkIds : (links.map LegacyLink.identity).Nodup
  links : ∀ l ∈ links, Carries decimal polygons (pyStr l.polygonId) (pyStr l.wikidata)
    ∧ Names false documents (pyStr l.articleId) (pyStr l.wikidata)
  sectionIds : (sections.map (fun s => pyStr s.sectionId)).Nodup
  sections : ∀ s ∈ sections, pyStr s.documentId ∈ documents.map (fun d => pyStr d.documentId)
  factIds : (facts.map (fun f => pyStr f.factId)).Nodup
  facts : ∀ f ∈ facts, Carried decimal polygons (pyStr f.wikidata)

variable {polygons : List (Polygon X)} {links : List LegacyLink} {documents : List (Document X)}
  {sections : List (Section X)} {facts : List (Fact X)}

theorem validatePolygons_eq_ok_iff {polygonQids : List (String × List String)} :
    validatePolygons decimal polygons = .ok polygonQids
      ↔ (polygons.map Polygon.id).Nodup ∧ (∀ p ∈ polygons, p.qids decimal ≠ [])
        ∧ polygonQids = polygons.map (fun p => (p.id, p.qids decimal)) := by
  simp only [validatePolygons, bind_eq_ok, uniqueRows_eq_ok_iff]
  constructor
  · rintro ⟨_, ⟨hnodup, rfl⟩, h⟩
    split at h
    · cases h
    · rename_i hnone
      cases h
      refine ⟨hnodup, fun p hp hq => ?_, rfl⟩
      simpa [hq] using List.find?_eq_none.mp hnone p hp
  · rintro ⟨hnodup, htags, rfl⟩
    refine ⟨polygons, ⟨hnodup, rfl⟩, ?_⟩
    have hnone : polygons.find? (fun p => p.qids decimal = []) = none :=
      List.find?_eq_none.mpr (fun p hp => by simpa using htags p hp)
    rw [hnone]
    rfl

theorem validateDocuments_eq_ok_iff {byArticle : List (Document X)} :
    validateDocuments documents = .ok byArticle ↔ (documents.map (fun d => pyStr d.articleId)).Nodup
        ∧ (documents.map (fun d => pyStr d.documentId)).Nodup ∧ byArticle = documents := by
  simp only [validateDocuments, bind_eq_ok, uniqueRows_eq_ok_iff]
  constructor
  · rintro ⟨_, ⟨harticles, rfl⟩, _, ⟨hids, rfl⟩, h⟩
    cases h
    exact ⟨harticles, hids, rfl⟩
  · rintro ⟨harticles, hids, rfl⟩
    exact ⟨_, ⟨harticles, rfl⟩, _, ⟨hids, rfl⟩, rfl⟩

theorem validateLinkReference_eq_ok_iff (hpolygons : (polygons.map Polygon.id).Nodup)
    (harticles : (documents.map (fun d => pyStr d.articleId)).Nodup) {link : LegacyLink} :
    validateLinkReference (polygons.map (fun p => (p.id, p.qids decimal))) documents link = .ok ()
      ↔ Carries decimal polygons (pyStr link.polygonId) (pyStr link.wikidata)
        ∧ Names false documents (pyStr link.articleId) (pyStr link.wikidata) := by
  rw [validateLinkReference]
  constructor
  · intro h
    split at h
    · cases h
    · rename_i qids hqids
      obtain ⟨p, hp, hid, rfl⟩ := (lookup_polygons_eq_some_iff hpolygons).mp hqids
      split at h
      · cases h
      · rename_i d hd
        obtain ⟨hmem, hart⟩ := (find?_eq_some_iff_of_nodup harticles).mp hd
        split at h
        · rename_i hqid
          exact ⟨⟨p, hp, hid, hqid.1⟩, d, hmem, hart, hqid.2⟩
        · cases h
  · rintro ⟨⟨p, hp, hid, hqid⟩, d, hd, hart, hsame⟩
    rw [(lookup_polygons_eq_some_iff hpolygons).mpr ⟨p, hp, hid, rfl⟩]
    have hfound : documents.find? (fun d => pyStr d.articleId = pyStr link.articleId) = some d :=
      (find?_eq_some_iff_of_nodup harticles).mpr ⟨hd, hart⟩
    simp only [hfound]
    rw [if_pos ⟨hqid, hsame⟩]

theorem validateLinks_eq_ok_iff (hpolygons : (polygons.map Polygon.id).Nodup)
    (harticles : (documents.map (fun d => pyStr d.articleId)).Nodup)
    {linkIds : List (String × String)} :
    validateLinks (polygons.map (fun p => (p.id, p.qids decimal))) documents links = .ok linkIds
      ↔ (∀ l ∈ links, Carries decimal polygons (pyStr l.polygonId) (pyStr l.wikidata)
          ∧ Names false documents (pyStr l.articleId) (pyStr l.wikidata))
        ∧ (links.map LegacyLink.identity).Nodup ∧ linkIds = links.map LegacyLink.identity := by
  rw [validateLinks]
  apply foldlM_unique_eq_ok_iff (fun pre => pre.map LegacyLink.identity)
    (fun l => Carries decimal polygons (pyStr l.polygonId) (pyStr l.wikidata)
      ∧ Names false documents (pyStr l.articleId) (pyStr l.wikidata)) LegacyLink.identity
  · intro pre l hgood hnew
    rw [if_neg hnew, (validateLinkReference_eq_ok_iff hpolygons harticles).mpr hgood,
      List.map_append]
    rfl
  · intro pre l s h
    split at h
    · cases h
    · rename_i hnew
      obtain ⟨⟨⟩, hgood, -⟩ := bind_eq_ok.mp h
      exact ⟨(validateLinkReference_eq_ok_iff hpolygons harticles).mp hgood, hnew⟩

theorem validateSections_eq_ok_iff {documentIds : List String} :
    validateSections documentIds sections = .ok ()
      ↔ (sections.map (fun s => pyStr s.sectionId)).Nodup
        ∧ ∀ s ∈ sections, pyStr s.documentId ∈ documentIds := by
  simp only [validateSections, bind_eq_ok, uniqueRows_eq_ok_iff]
  constructor
  · rintro ⟨_, ⟨hnodup, rfl⟩, h⟩
    split at h
    · cases h
    · rename_i hnone
      refine ⟨hnodup, fun s hs => ?_⟩
      simpa using List.find?_eq_none.mp hnone s hs
  · rintro ⟨hnodup, hrefs⟩
    refine ⟨sections, ⟨hnodup, rfl⟩, ?_⟩
    have hnone : sections.find? (fun s => pyStr s.documentId ∉ documentIds) = none :=
      List.find?_eq_none.mpr (fun s hs => by simpa using hrefs s hs)
    rw [hnone]
    rfl

theorem validateFacts_eq_ok_iff :
    validateFacts (polygons.map (fun p => (p.id, p.qids decimal))) facts = .ok ()
      ↔ (facts.map (fun f => pyStr f.factId)).Nodup
        ∧ ∀ f ∈ facts, Carried decimal polygons (pyStr f.wikidata) := by
  have hmem : ∀ q, q ∈ (polygons.map (fun p => (p.id, p.qids decimal))).flatMap Prod.snd
      ↔ Carried decimal polygons q := by
    intro q
    simp [Carried, List.mem_flatMap]
  simp only [validateFacts, bind_eq_ok, uniqueRows_eq_ok_iff]
  constructor
  · rintro ⟨_, ⟨hnodup, rfl⟩, h⟩
    split at h
    · cases h
    · rename_i hnone
      refine ⟨hnodup, fun f hf => (hmem _).mp ?_⟩
      have hin := List.find?_eq_none.mp hnone f hf
      by_contra hnot
      exact hin (decide_eq_true hnot)
  · rintro ⟨hnodup, hrefs⟩
    refine ⟨facts, ⟨hnodup, rfl⟩, ?_⟩
    have hnone : facts.find? (fun f => pyStr f.wikidata
        ∉ (polygons.map (fun p => (p.id, p.qids decimal))).flatMap Prod.snd) = none := by
      refine List.find?_eq_none.mpr (fun f hf hnot => ?_)
      exact (of_decide_eq_true hnot) ((hmem _).mpr (hrefs f hf))
    rw [hnone]
    rfl

/-- **The referential checks.** -/
theorem validateExistingRows_eq_ok_iff :
    validateExistingRows decimal polygons links documents sections facts = .ok ()
      ↔ ValidRows decimal polygons links documents sections facts := by
  simp only [validateExistingRows, bind_eq_ok, validatePolygons_eq_ok_iff,
    validateDocuments_eq_ok_iff]
  constructor
  · rintro ⟨_, ⟨hids, htags, rfl⟩, _, ⟨harticles, hdocs, rfl⟩, _, hlinks, ⟨⟩, hsections, hfacts⟩
    obtain ⟨hgood, hlinkIds, -⟩ := (validateLinks_eq_ok_iff hids harticles).mp hlinks
    obtain ⟨hsectionIds, hrefs⟩ := validateSections_eq_ok_iff.mp hsections
    obtain ⟨hfactIds, hcarried⟩ := validateFacts_eq_ok_iff.mp hfacts
    exact ⟨hids, htags, harticles, hdocs, hlinkIds, hgood, hsectionIds, hrefs, hfactIds, hcarried⟩
  · intro h
    exact ⟨_, ⟨h.polygonIds, h.tags, rfl⟩, _, ⟨h.articleIds, h.documentIds, rfl⟩, _,
      (validateLinks_eq_ok_iff h.polygonIds h.articleIds).mpr ⟨h.links, h.linkIds, rfl⟩, (),
      validateSections_eq_ok_iff.mpr ⟨h.sectionIds, h.sections⟩,
      validateFacts_eq_ok_iff.mpr ⟨h.factIds, h.facts⟩⟩

variable (decimal) in
/-- Inputs as they are loaded: what is retained of the tables, and that it is consistent. -/
structure Loaded (region : RegionAuditResult H) (inputs : RepairInputs X) : Prop where
  links : legacyLinks inputs.polygons inputs.documents region.affectedQids inputs.storedLinks
    = .ok inputs.links
  preserved : inputs.preservedWikivoyageLinks = wikivoyageLinks inputs.storedLinks
  retainedFacts : inputs.retainedFacts = retainFacts inputs.facts region.orphanFactIds
  retainedDocuments : inputs.retainedDocuments
    = retainDocuments inputs.documents region.orphanDocumentIds
  retainedSections : inputs.retainedSections
    = retainSections inputs.sections region.orphanDocumentIds
  retainedLinks : inputs.retainedLinks = retainLinks inputs.links
    (orphanArticleIds inputs.documents region.orphanDocumentIds)
  orphanDocumentIds : inputs.orphanDocumentIds = region.orphanDocumentIds
  valid : ValidRows decimal inputs.polygons inputs.retainedLinks inputs.retainedDocuments
    inputs.retainedSections inputs.retainedFacts

/-- **What loading gives.** -/
theorem loaded_of_loadRepairInputs {files : RegionFiles C} {region : RegionAuditResult H}
    {inputs : RepairInputs X} (h : loadRepairInputs decimal codec files region = .ok inputs) :
    Loaded decimal region inputs := by
  obtain ⟨polygons, -, h⟩ := bind_eq_ok.mp h
  obtain ⟨documents, -, h⟩ := bind_eq_ok.mp h
  obtain ⟨sections, -, h⟩ := bind_eq_ok.mp h
  obtain ⟨facts, -, h⟩ := bind_eq_ok.mp h
  obtain ⟨storedLinks, -, h⟩ := bind_eq_ok.mp h
  obtain ⟨links, hlinks, h⟩ := bind_eq_ok.mp h
  obtain ⟨retained, hretained, h⟩ := bind_eq_ok.mp h
  obtain ⟨⟨⟩, hvalid, h⟩ := bind_eq_ok.mp h
  cases h
  rw [retainRepairRows] at hretained
  split_ifs at hretained
  cases hretained
  exact ⟨hlinks, rfl, rfl, rfl, rfl, rfl, rfl, validateExistingRows_eq_ok_iff.mp hvalid⟩

end OsmPolygonWikidata.WikidataRecovery
