import OsmPolygonWikidata.Basic.KeyedRows
import OsmPolygonWikidata.Domain.PolygonDocumentLinks
import OsmPolygonWikidata.WikidataRecovery.RepairInputs

/-! # Link rows

`pipeline/_wikidata_recovery/link_rows.py`, with `validate_polygon_document_links` on the rows of a
Parquet table. A repair works on Wikipedia links in the legacy shape, which names articles, and
brings them back into the canonical shape, which names documents. `legacy_roundTrip` says that links
which are not touched in between come back as they were.
-/

namespace OsmPolygonWikidata.WikidataRecovery

open Python
open DocumentLinks (LinkError)

/-! ## The model -/

/-- What validating the rows of a table raises. -/
inductive StoredLinkError where
  | invalid (error : LinkError)
  | unorderable
  deriving DecidableEq

/-- What a repair raises. -/
inductive RepairError where
  | invalid (error : LoadError)
  | missingDocument (articleId : String)
  | duplicate (label value : String)
  | duplicateIdentity (identity : String × String)
  | notANumber (column : String)
  | healthyPolygonChanged (polygonId : String)
  | missingPolygon (polygonId : String)
  | existingChanged (label value : String)
  | missingArticle (articleId : String)
  | canonicalLinks (error : StoredLinkError)
  deriving DecidableEq

/-- The key of a link. -/
def CanonicalLink.key (link : CanonicalLink) : List (Option String) :=
  [link.polygonId, link.project, link.documentId]

/-- The texts that are compared when links are sorted. -/
def CanonicalLink.sortKey (link : CanonicalLink) : List String := link.key.map pyStr

/-- `_validate_document_language`. A null language agrees with no slot. -/
def validateStoredLanguage (polygonId documentId : String) (language : Option String) :
    Except LinkError Unit :=
  match DocumentLinks.documentIdLanguage documentId with
  | none => .ok ()
  | some declared =>
    if some declared = language then .ok ()
    else .error (.languageSlotDisagrees polygonId documentId declared (pyStr language))

/-- `int(coerced[column])`. -/
def coerceNumber (column : String) (value : Option Int) : Except LinkError Unit :=
  if value = none then .error (.notANumber column) else .ok ()

section

variable {X : Type} (decimal : Char → Bool)

/-- `_coerce_row`, on a row of the table. -/
def coerceStoredRow (row : CanonicalLink) : Except LinkError CanonicalLink := do
  if PendingPublications.isSafeStem (pyStr row.polygonId) then do
    DocumentLinks.validateDocumentProject (some (pyStr row.polygonId)) (pyStr row.documentId)
      (pyStr row.project)
    validateStoredLanguage (pyStr row.polygonId) (pyStr row.documentId) row.language
    DocumentLinks.validateDocumentWikidata decimal (pyStr row.polygonId) (pyStr row.documentId)
      (pyStr row.wikidata)
    coerceNumber "osm_id" row.osmId
    coerceNumber "page_id" row.pageId
    coerceNumber "revision_id" row.revisionId
    return row
  else .error (.invalidPolygonId (pyStr row.polygonId))

/-- One turn of the loop of `validate_polygon_document_links`. -/
def validateStoredRow (out : List CanonicalLink) (raw : CanonicalLink) :
    Except LinkError (List CanonicalLink) := do
  let row ← coerceStoredRow decimal raw
  mergeRow CanonicalLink.key (fun row => .conflictingDuplicate row.sortKey) out row

/-- Rows with and without a polygon identifier, which Python does not order. -/
def Mixed (rows : List CanonicalLink) : Prop :=
  (∃ row ∈ rows, row.polygonId = none) ∧ ∃ row ∈ rows, row.polygonId ≠ none

instance (rows : List CanonicalLink) : Decidable (Mixed rows) :=
  inferInstanceAs (Decidable (_ ∧ _))

/-- `validate_polygon_document_links`, on the rows of a table. -/
def validateStoredLinks (rows : List CanonicalLink) :
    Except StoredLinkError (List CanonicalLink) :=
  match rows.foldlM (validateStoredRow decimal) [] with
  | .error error => .error (.invalid error)
  | .ok out =>
    if Mixed out then .error .unorderable
    else .ok (out.insertionSort (fun a b => a.sortKey ≤ b.sortKey))

def canonicalLinkRow (documents : List (Document X)) (link : LegacyLink) :
    Except RepairError CanonicalLink :=
  match lastWith (fun d => pyStr d.articleId) documents (pyStr link.articleId) with
  | none => .error (.missingArticle (pyStr link.articleId))
  | some document => .ok {
      polygonId := link.polygonId
      documentId := document.documentId
      project := some "wikipedia"
      wikidata := link.wikidata
      language := link.language
      sourcePbf := link.sourcePbf
      region := link.region
      osmType := link.osmType
      osmId := link.osmId
      pageId := link.pageId
      revisionId := link.revisionId }

def legacyWikipediaLinksToCanonical (links : List LegacyLink) (documents : List (Document X))
    (preservedWikivoyageLinks : List CanonicalLink) :
    Except RepairError (List CanonicalLink) := do
  let restored ← links.mapM (canonicalLinkRow documents)
  (validateStoredLinks decimal (preservedWikivoyageLinks ++ restored)).mapError .canonicalLinks

/-- `_link_identities`. -/
def linkIdentities (links : List LegacyLink) : Except RepairError (List (String × String)) :=
  links.foldlM (fun identities link =>
    if link.identity ∈ identities then .error (.duplicateIdentity link.identity)
    else .ok (identities ++ [link.identity])) []

/-- `_documents_by_qid`, at one key: sorted by document identifier. -/
def documentsOfQid (documents : List (Document X)) (qid : String) : List (Document X) :=
  (documents.filter (fun d => pyStr d.wikidata = qid)).insertionSort
    (fun a b => pyStr a.documentId ≤ pyStr b.documentId)

/-- The link of a polygon to a document that had none. -/
def newLink (polygon : Polygon X) (qid : String) (document : Document X) : LegacyLink where
  polygonId := polygon.polygonId
  articleId := document.articleId
  wikidata := some qid
  language := document.language
  sourcePbf := polygon.sourcePbf
  region := polygon.region
  osmType := polygon.osmType
  osmId := polygon.osmId
  pageId := document.pageId
  revisionId := document.revisionId
  isBestLanguage := some false

/-- One document in `_append_polygon_documents`, on the links and the identities. -/
def appendDocument (polygon : Polygon X) (qid : String)
    (state : List LegacyLink × List (String × String)) (document : Document X) :
    List LegacyLink × List (String × String) :=
  let link := newLink polygon qid document
  if link.identity ∈ state.2 then state else (state.1 ++ [link], state.2 ++ [link.identity])

def appendPolygonDocuments (documents : List (Document X)) (affectedQids : List String)
    (state : List LegacyLink × List (String × String)) (polygon : Polygon X) :
    List LegacyLink × List (String × String) :=
  (polygon.qids decimal).foldl (fun state qid =>
    if qid ∈ affectedQids then
      (documentsOfQid documents qid).foldl (appendDocument polygon qid) state
    else state) state

/-- `merge_links`. -/
def mergeLinks (polygons : List (Polygon X)) (links : List LegacyLink)
    (documents : List (Document X)) (affectedQids : List String) :
    Except RepairError (List LegacyLink) := do
  let identities ← linkIdentities links
  return (polygons.foldl (appendPolygonDocuments decimal documents affectedQids)
    (links, identities)).1

end

/-! ## What validation says -/

section

variable {decimal : Char → Bool} {row row' : CanonicalLink} {rows rows' out : List CanonicalLink}

/-- A row of the table that is in order. -/
structure StoredInOrder (decimal : Char → Bool) (row : CanonicalLink) : Prop where
  safe : PendingPublications.isSafeStem (pyStr row.polygonId) = true
  project : pyStr row.project ∈ DocumentLinks.projects
  projectSlot : DocumentLinks.documentIdProject (pyStr row.documentId) = some (pyStr row.project)
  languageSlot : ∀ declared ∈ DocumentLinks.documentIdLanguage (pyStr row.documentId),
    some declared = row.language
  wikidata : isValidQid decimal (pyStr row.wikidata).toList = true
  wikidataSlot : ∀ declared ∈ DocumentLinks.documentIdWikidata decimal (pyStr row.documentId),
    declared = pyStr row.wikidata
  osmId : row.osmId ≠ none
  pageId : row.pageId ≠ none
  revisionId : row.revisionId ≠ none

theorem validateStoredLanguage_eq_ok {polygonId documentId : String} {language : Option String} :
    validateStoredLanguage polygonId documentId language = .ok ()
      ↔ ∀ declared ∈ DocumentLinks.documentIdLanguage documentId, some declared = language := by
  unfold validateStoredLanguage
  cases DocumentLinks.documentIdLanguage documentId <;> simp

theorem coerceNumber_eq_ok {column : String} {value : Option Int} :
    coerceNumber column value = .ok () ↔ value ≠ none := by
  unfold coerceNumber
  cases value <;> simp

theorem coerceStoredRow_eq_ok :
    coerceStoredRow decimal row = .ok row' ↔ row' = row ∧ StoredInOrder decimal row := by
  unfold coerceStoredRow
  split_ifs with hsafe
  · constructor
    · intro h
      obtain ⟨⟨⟩, hproject, h⟩ := bind_eq_ok.mp h
      obtain ⟨⟨⟩, hlanguage, h⟩ := bind_eq_ok.mp h
      obtain ⟨⟨⟩, hwikidata, h⟩ := bind_eq_ok.mp h
      obtain ⟨⟨⟩, hosm, h⟩ := bind_eq_ok.mp h
      obtain ⟨⟨⟩, hpage, h⟩ := bind_eq_ok.mp h
      obtain ⟨⟨⟩, hrevision, h⟩ := bind_eq_ok.mp h
      cases h
      obtain ⟨hmem, hslot⟩ := DocumentLinks.validateDocumentProject_eq_ok.mp hproject
      obtain ⟨hvalid, hqid⟩ := DocumentLinks.validateDocumentWikidata_eq_ok.mp hwikidata
      exact ⟨rfl, hsafe, hmem, hslot, validateStoredLanguage_eq_ok.mp hlanguage, hvalid, hqid,
        coerceNumber_eq_ok.mp hosm, coerceNumber_eq_ok.mp hpage, coerceNumber_eq_ok.mp hrevision⟩
    · rintro ⟨rfl, h⟩
      rw [DocumentLinks.validateDocumentProject_eq_ok.mpr ⟨h.project, h.projectSlot⟩,
        validateStoredLanguage_eq_ok.mpr h.languageSlot,
        DocumentLinks.validateDocumentWikidata_eq_ok.mpr ⟨h.wikidata, h.wikidataSlot⟩,
        coerceNumber_eq_ok.mpr h.osmId, coerceNumber_eq_ok.mpr h.pageId,
        coerceNumber_eq_ok.mpr h.revisionId]
      rfl
  · refine iff_of_false (by simp) ?_
    rintro ⟨-, h⟩
    exact hsafe h.safe

theorem validateStoredRow_eq_ok {next : List CanonicalLink} :
    validateStoredRow decimal out row = .ok next
      ↔ StoredInOrder decimal row ∧ mergeRow CanonicalLink.key
        (fun row => LinkError.conflictingDuplicate row.sortKey) out row = .ok next := by
  simp only [validateStoredRow, bind_eq_ok, coerceStoredRow_eq_ok]
  constructor
  · rintro ⟨_, ⟨rfl, hgood⟩, hmerge⟩
    exact ⟨hgood, hmerge⟩
  · rintro ⟨hgood, hmerge⟩
    exact ⟨row, ⟨rfl, hgood⟩, hmerge⟩

/-- **What validation returns.** -/
theorem validateStoredLinks_eq_ok_iff : validateStoredLinks decimal rows = .ok out
      ↔ (∀ row ∈ rows, StoredInOrder decimal row) ∧ Functional CanonicalLink.key rows ∧ ¬ Mixed rows
        ∧ out = rows.eraseDups.insertionSort (fun a b => a.sortKey ≤ b.sortKey) := by
  have hmixed : Mixed rows.eraseDups ↔ Mixed rows := by simp [Mixed]
  rw [validateStoredLinks]
  cases hrun : rows.foldlM (validateStoredRow decimal) [] with
  | error error =>
    refine iff_of_false (by simp) ?_
    rintro ⟨hgood, hfunctional, -, -⟩
    have hok := (foldlM_mergeRow_eq_ok_iff (fun _ _ _ => validateStoredRow_eq_ok)).mpr
      ⟨hgood, hfunctional, rfl⟩
    rw [hok] at hrun
    cases hrun
  | ok collected =>
    obtain ⟨hgood, hfunctional, rfl⟩ :=
      (foldlM_mergeRow_eq_ok_iff (fun _ _ _ => validateStoredRow_eq_ok)).mp hrun
    dsimp only
    by_cases h : Mixed rows
    · rw [if_pos (hmixed.mpr h)]
      exact iff_of_false (by simp) (fun hall => hall.2.2.1 h)
    · rw [if_neg (mt hmixed.mp h)]
      constructor
      · intro hout
        exact ⟨hgood, hfunctional, h, (Except.ok.inj hout).symm⟩
      · rintro ⟨-, -, -, rfl⟩
        rfl

theorem pyStr_inj {a b : Option String} (ha : a ≠ none) (hb : b ≠ none) (h : pyStr a = pyStr b) :
    a = b := by
  cases a with
  | none => exact absurd rfl ha
  | some s =>
    cases b with
    | none => exact absurd rfl hb
    | some t => exact congrArg some h

theorem StoredInOrder.project_ne_none (h : StoredInOrder decimal row) : row.project ≠ none := by
  intro hnone
  have hproject := h.project
  rw [hnone] at hproject
  exact absurd hproject (by decide)

theorem StoredInOrder.wikipedia_or_wikivoyage (h : StoredInOrder decimal row) :
    row.project = some "wikipedia" ∨ row.project = some "wikivoyage" := by
  have hproject := h.project
  cases hrow : row.project with
  | none => exact absurd hrow h.project_ne_none
  | some project =>
    rw [hrow] at hproject
    simpa [DocumentLinks.projects, pyStr] using hproject

theorem documentIdProject_none : DocumentLinks.documentIdProject (pyStr none) = none := by
  decide +kernel

theorem StoredInOrder.documentId_ne_none (h : StoredInOrder decimal row) :
    row.documentId ≠ none := by
  intro hnone
  have hslot := h.projectSlot
  rw [hnone, documentIdProject_none] at hslot
  cases hslot

theorem key_eq_of_sortKey_eq (h : StoredInOrder decimal row) (h' : StoredInOrder decimal row')
    (hpolygon : row.polygonId = none ↔ row'.polygonId = none) (hkey : row.sortKey = row'.sortKey) :
    row.key = row'.key := by
  simp only [CanonicalLink.sortKey, CanonicalLink.key, List.map_cons, List.map_nil, List.cons.injEq,
    and_true] at hkey ⊢
  refine ⟨?_, pyStr_inj h.project_ne_none h'.project_ne_none hkey.2.1,
    pyStr_inj h.documentId_ne_none h'.documentId_ne_none hkey.2.2⟩
  by_cases hnone : row.polygonId = none
  · rw [hnone, hpolygon.mp hnone]
  · exact pyStr_inj hnone (mt hpolygon.mpr hnone) hkey.1

theorem sortKey_injOn (hgood : ∀ row ∈ rows, StoredInOrder decimal row)
    (hfunctional : Functional CanonicalLink.key rows) (hmixed : ¬ Mixed rows) :
    ∀ r ∈ rows, ∀ r' ∈ rows, r.sortKey = r'.sortKey → r = r' := by
  intro r hr r' hr' hkey
  refine hfunctional r hr r' hr' (key_eq_of_sortKey_eq (hgood r hr) (hgood r' hr') ?_ hkey)
  constructor
  · intro hnone
    by_contra hsome
    exact hmixed ⟨⟨r, hr, hnone⟩, r', hr', hsome⟩
  · intro hnone
    by_contra hsome
    exact hmixed ⟨⟨r', hr', hnone⟩, r, hr, hsome⟩

/-- **Validation depends on which rows there are.** -/
theorem validateStoredLinks_congr (hmem : ∀ row, row ∈ rows ↔ row ∈ rows')
    (h : validateStoredLinks decimal rows = .ok out) :
    validateStoredLinks decimal rows' = .ok out := by
  obtain ⟨hgood, hfunctional, hmixed, rfl⟩ := validateStoredLinks_eq_ok_iff.mp h
  refine validateStoredLinks_eq_ok_iff.mpr ⟨fun row hrow => hgood row ((hmem row).mpr hrow),
    fun r hr r' hr' => hfunctional r ((hmem r).mpr hr) r' ((hmem r').mpr hr'), ?_, ?_⟩
  · rintro ⟨⟨r, hr, hnone⟩, r', hr', hsome⟩
    exact hmixed ⟨⟨r, (hmem r).mpr hr, hnone⟩, r', (hmem r').mpr hr', hsome⟩
  · exact insertionSort_eraseDups_congr hmem (sortKey_injOn hgood hfunctional hmixed)

/-- A row without null values, as a row of the table. -/
def stored (link : DocumentLinks.CanonicalLink) : CanonicalLink where
  polygonId := some link.polygonId
  documentId := some link.documentId
  project := some link.project
  wikidata := some link.wikidata
  language := some link.language
  sourcePbf := some link.sourcePbf
  region := some link.region
  osmType := some link.osmType
  osmId := some link.osmId
  pageId := some link.pageId
  revisionId := some link.revisionId

end

/-! ## Adding links -/

section

variable {X : Type} {decimal : Char → Bool} {documents : List (Document X)}
  {polygons : List (Polygon X)} {affectedQids : List String} {links merged : List LegacyLink}

/-- Links are added at the end, and the identities stay those of the links. -/
structure Grows (state state' : List LegacyLink × List (String × String)) : Prop where
  links : state.1 <+: state'.1
  identities : state.2 <+: state'.2
  same : state.2 = state.1.map LegacyLink.identity → state'.2 = state'.1.map LegacyLink.identity

theorem Grows.refl (state : List LegacyLink × List (String × String)) : Grows state state :=
  ⟨List.prefix_rfl, List.prefix_rfl, id⟩

theorem Grows.trans {s s' s'' : List LegacyLink × List (String × String)} (h : Grows s s')
    (h' : Grows s' s'') : Grows s s'' :=
  ⟨h.links.trans h'.links, h.identities.trans h'.identities, fun heq => h'.same (h.same heq)⟩

variable (polygon : Polygon X) (qid : String) (state : List LegacyLink × List (String × String))
  (document : Document X)

include polygon qid state document

theorem grows_appendDocument : Grows state (appendDocument polygon qid state document) := by
  rw [appendDocument]
  split_ifs
  · exact Grows.refl state
  · refine ⟨List.prefix_append _ _, List.prefix_append _ _, fun heq => ?_⟩
    dsimp only
    rw [heq, List.map_append, List.map_singleton]

theorem mem_appendDocument :
    (polygon.id, pyStr document.articleId) ∈ (appendDocument polygon qid state document).2 := by
  rw [appendDocument]
  split_ifs with h
  · exact h
  · exact List.mem_append_right _ (List.mem_singleton.mpr rfl)

omit polygon qid state document

/-- The polygon is linked to all documents of its affected identifiers. -/
def LinkedIn (decimal : Char → Bool) (documents : List (Document X)) (affectedQids : List String)
    (polygon : Polygon X) (identities : List (String × String)) : Prop :=
  ∀ qid ∈ polygon.qids decimal, qid ∈ affectedQids →
    ∀ document ∈ documents, pyStr document.wikidata = qid →
      (polygon.id, pyStr document.articleId) ∈ identities

theorem appendPolygonDocuments_spec (state : List LegacyLink × List (String × String))
    (polygon : Polygon X) :
    Grows state (appendPolygonDocuments decimal documents affectedQids state polygon)
      ∧ LinkedIn decimal documents affectedQids polygon
        (appendPolygonDocuments decimal documents affectedQids state polygon).2 := by
  have hqid : ∀ (s : List LegacyLink × List (String × String)) (qid : String),
      Grows s ((documentsOfQid documents qid).foldl (appendDocument polygon qid) s)
        ∧ ∀ document ∈ documentsOfQid documents qid, (polygon.id, pyStr document.articleId)
          ∈ ((documentsOfQid documents qid).foldl (appendDocument polygon qid) s).2 := by
    intro s qid
    exact foldl_establishes (P := fun document s => (polygon.id, pyStr document.articleId) ∈ s.2)
      Grows.refl Grows.trans (grows_appendDocument polygon qid) (mem_appendDocument polygon qid)
      (fun hgrows hmem => hgrows.identities.subset hmem) _ s
  have hmem : ∀ {document qid}, document ∈ documents → pyStr document.wikidata = qid →
      document ∈ documentsOfQid documents qid := by
    intro document qid hdocument hwikidata
    exact (List.perm_insertionSort _ _).mem_iff.mpr
      (List.mem_filter.mpr ⟨hdocument, decide_eq_true hwikidata⟩)
  obtain ⟨hgrows, hall⟩ := foldl_establishes
    (P := fun qid s => qid ∈ affectedQids → ∀ document ∈ documents,
      pyStr document.wikidata = qid → (polygon.id, pyStr document.articleId) ∈ s.2)
    Grows.refl Grows.trans (f := fun s qid =>
      if qid ∈ affectedQids then
        (documentsOfQid documents qid).foldl (appendDocument polygon qid) s
      else s) (fun s qid => by
        split_ifs
        · exact (hqid s qid).1
        · exact Grows.refl s)
    (fun s qid haffected document hdocument hwikidata => by
      rw [if_pos haffected]
      exact (hqid s qid).2 document (hmem hdocument hwikidata))
    (fun hgrows h haffected document hdocument hwikidata =>
      hgrows.identities.subset (h haffected document hdocument hwikidata))
    (polygon.qids decimal) state
  exact ⟨hgrows, hall⟩

theorem linkIdentities_eq_ok_iff {identities : List (String × String)} :
    linkIdentities links = .ok identities
      ↔ (links.map LegacyLink.identity).Nodup ∧ identities = links.map LegacyLink.identity := by
  have h : linkIdentities links = .ok identities ↔ (∀ link ∈ links, True)
      ∧ (links.map LegacyLink.identity).Nodup
      ∧ identities = links.map LegacyLink.identity := by
    rw [linkIdentities]
    apply foldlM_unique_eq_ok_iff (fun pre => pre.map LegacyLink.identity) (fun _ => True)
      LegacyLink.identity
    · intro pre link _ hnew
      rw [if_neg hnew, List.map_append, List.map_singleton]
    · intro pre link s hs
      split_ifs at hs with hnew
      exact ⟨trivial, hnew⟩
  rw [h]
  exact ⟨fun h => h.2, fun h => ⟨fun _ _ => trivial, h⟩⟩

/-- **What merging links gives**: the links stay, and every document of an affected identifier is
linked to the polygons that carry it. -/
theorem mergeLinks_spec (h : mergeLinks decimal polygons links documents affectedQids = .ok merged) :
    links <+: merged ∧ ∀ polygon ∈ polygons,
      LinkedIn decimal documents affectedQids polygon (merged.map LegacyLink.identity) := by
  obtain ⟨identities, hidentities, hmerged⟩ := bind_eq_ok.mp h
  cases hmerged
  obtain ⟨-, rfl⟩ := linkIdentities_eq_ok_iff.mp hidentities
  obtain ⟨hgrows, hall⟩ := foldl_establishes (P := fun polygon s =>
      LinkedIn decimal documents affectedQids polygon s.2) Grows.refl Grows.trans
    (fun s polygon => (appendPolygonDocuments_spec s polygon).1)
    (fun s polygon => (appendPolygonDocuments_spec s polygon).2)
    (fun hgrows h qid hqid haffected document hdocument hwikidata =>
      hgrows.identities.subset (h qid hqid haffected document hdocument hwikidata))
    polygons (links, links.map LegacyLink.identity)
  rw [← hgrows.same rfl]
  exact ⟨hgrows.links, hall⟩

end

/-! ## There and back -/

section

variable {X : Type} {decimal : Char → Bool} {documents : List (Document X)}
  {polygons : List (Polygon X)} {affectedQids : List String} {rows valid : List CanonicalLink}
  {link : CanonicalLink}

/-- The link of a document, in the legacy shape. -/
def legacyOf (polygons : List (Polygon X)) (document : Document X) (link : CanonicalLink) :
    LegacyLink where
  polygonId := link.polygonId
  articleId := document.articleId
  wikidata := link.wikidata
  language := link.language
  sourcePbf := link.sourcePbf
  region := link.region
  osmType := link.osmType
  osmId := link.osmId
  pageId := link.pageId
  revisionId := link.revisionId
  isBestLanguage := some (pyStr link.language
    = ((lastWith Polygon.id polygons (pyStr link.polygonId)).map
      (fun p => p.bestLanguage.getD "")).getD "")

theorem legacyLinkFromCanonical_eq {document : Document X}
    (hdocuments : (documents.map (fun d => pyStr d.documentId)).Nodup)
    (hdocument : document ∈ documents)
    (hid : pyStr document.documentId = pyStr link.documentId) :
    legacyLinkFromCanonical polygons documents affectedQids link
      = .ok (some (legacyOf polygons document link)) := by
  rw [legacyLinkFromCanonical, (lastWith_eq_some_iff hdocuments).mpr ⟨hdocument, hid⟩]
  rfl

theorem legacyOf_of_legacyLinkFromCanonical {legacy : LegacyLink}
    (h : legacyLinkFromCanonical polygons documents affectedQids link = .ok (some legacy)) :
    ∃ document ∈ documents, pyStr document.documentId = pyStr link.documentId
      ∧ legacy = legacyOf polygons document link := by
  rw [legacyLinkFromCanonical] at h
  cases hfound : lastWith (fun d => pyStr d.documentId) documents (pyStr link.documentId) with
  | none =>
    rw [hfound] at h
    dsimp only at h
    split_ifs at h
    cases h
  | some document =>
    rw [hfound] at h
    cases h
    obtain ⟨hdocument, hid⟩ := mem_of_lastWith hfound
    exact ⟨document, hdocument, hid, rfl⟩

theorem canonicalLinkRow_eq {document : Document X} {legacy : LegacyLink} {row : CanonicalLink}
    (harticles : (documents.map (fun d => pyStr d.articleId)).Nodup)
    (hdocument : document ∈ documents)
    (hsame : { legacy with isBestLanguage := (legacyOf polygons document link).isBestLanguage }
      = legacyOf polygons document link)
    (h : canonicalLinkRow documents legacy = .ok row) :
    row = { link with documentId := document.documentId, project := some "wikipedia" } := by
  cases legacy
  cases hsame
  have hfound : lastWith (fun d => pyStr d.articleId) documents (pyStr document.articleId)
      = some document := (lastWith_eq_some_iff harticles).mpr ⟨hdocument, rfl⟩
  rw [canonicalLinkRow, hfound] at h
  exact (Except.ok.inj h).symm

theorem canonicalLinkRow_legacyOf {document : Document X}
    (harticles : (documents.map (fun d => pyStr d.articleId)).Nodup)
    (hdocument : document ∈ documents)
    (hid : pyStr document.documentId = pyStr link.documentId)
    (horder : StoredInOrder decimal link) (hproject : link.project = some "wikipedia") :
    canonicalLinkRow documents (legacyOf polygons document link) = .ok link := by
  have hsame : document.documentId = link.documentId := by
    refine pyStr_inj ?_ horder.documentId_ne_none hid
    intro hnone
    have hslot := horder.projectSlot
    rw [← hid, hnone, documentIdProject_none] at hslot
    cases hslot
  have hfound : lastWith (fun d => pyStr d.articleId) documents
      (pyStr (legacyOf polygons document link).articleId) = some document :=
    (lastWith_eq_some_iff harticles).mpr ⟨hdocument, rfl⟩
  rw [canonicalLinkRow, hfound]
  dsimp only [legacyOf]
  rw [hsame, ← hproject]

theorem roundTrip_links (polygons : List (Polygon X)) (affectedQids : List String)
    {links : List CanonicalLink}
    (hdocuments : (documents.map (fun d => pyStr d.documentId)).Nodup)
    (harticles : (documents.map (fun d => pyStr d.articleId)).Nodup)
    (hlinks : ∀ link ∈ links, StoredInOrder decimal link ∧ link.project = some "wikipedia"
      ∧ pyStr link.documentId ∈ documents.map (fun d => pyStr d.documentId)) :
    ∃ legacy : List LegacyLink, links.mapM (legacyLinkFromCanonical polygons documents affectedQids)
          = .ok (legacy.map some)
        ∧ legacy.mapM (canonicalLinkRow documents) = .ok links := by
  induction links with
  | nil => exact ⟨[], rfl, rfl⟩
  | cons link links ih =>
    obtain ⟨legacy, hthere, hback⟩ := ih (fun l hl => hlinks l (List.mem_cons_of_mem link hl))
    obtain ⟨horder, hproject, href⟩ := hlinks link List.mem_cons_self
    obtain ⟨document, hdocument, hid⟩ := List.mem_map.mp href
    refine ⟨legacyOf polygons document link :: legacy, ?_, ?_⟩
    · rw [List.mapM_cons, legacyLinkFromCanonical_eq hdocuments hdocument hid, hthere]
      rfl
    · rw [List.mapM_cons, canonicalLinkRow_legacyOf harticles hdocument hid horder hproject,
        hback]
      rfl

/-- **Canonical links survive the legacy shape.** -/
theorem legacy_roundTrip (hvalid : validateStoredLinks decimal rows = .ok valid)
    (hdocuments : (documents.map (fun d => pyStr d.documentId)).Nodup)
    (harticles : (documents.map (fun d => pyStr d.articleId)).Nodup)
    (hrefs : ∀ link ∈ wikipediaLinks rows,
      pyStr link.documentId ∈ documents.map (fun d => pyStr d.documentId))
    (polygons : List (Polygon X)) (affectedQids : List String) :
    ∃ legacy, canonicalWikipediaLinksToLegacy rows documents polygons affectedQids = .ok legacy
      ∧ legacyWikipediaLinksToCanonical decimal legacy documents
        (wikivoyageLinks (.canonical rows)) = .ok valid := by
  obtain ⟨hgood, -, -, -⟩ := validateStoredLinks_eq_ok_iff.mp hvalid
  have hlinks : ∀ link ∈ wikipediaLinks rows, StoredInOrder decimal link
      ∧ link.project = some "wikipedia"
      ∧ pyStr link.documentId ∈ documents.map (fun d => pyStr d.documentId) := by
    intro link hlink
    obtain ⟨hrow, hproject⟩ := List.mem_filter.mp hlink
    exact ⟨hgood link hrow, of_decide_eq_true hproject, hrefs link hlink⟩
  obtain ⟨legacy, hthere, hback⟩ :=
    roundTrip_links polygons affectedQids hdocuments harticles hlinks
  have hmem : ∀ row, row ∈ rows
      ↔ row ∈ wikivoyageLinks (.canonical rows) ++ wikipediaLinks rows := by
    intro row
    simp only [wikivoyageLinks, wikipediaLinks, List.mem_append, List.mem_filter, decide_eq_true_eq]
    constructor
    · intro hrow
      rcases (hgood row hrow).wikipedia_or_wikivoyage with hwikipedia | hwikivoyage
      · exact Or.inr ⟨hrow, hwikipedia⟩
      · exact Or.inl ⟨hrow, hwikivoyage⟩
    · rintro (h | h)
      · exact h.1
      · exact h.1
  refine ⟨legacy, ?_, ?_⟩
  · rw [canonicalWikipediaLinksToLegacy, hthere]
    simp [List.reduceOption]
  · rw [legacyWikipediaLinksToCanonical, hback]
    show (validateStoredLinks decimal
      (wikivoyageLinks (.canonical rows) ++ wikipediaLinks rows)).mapError
        RepairError.canonicalLinks = .ok valid
    rw [validateStoredLinks_congr hmem hvalid]
    rfl

end

namespace BothProjects

def polygon : Polygon Unit where
  polygonId := some "berlin-latest:way:7"
  wikidata := some "Q2"
  sourcePbf := some "berlin-latest.osm.pbf"
  region := some "berlin"
  osmType := some "way"
  osmId := some 7
  hasWikipedia := some true
  wikipediaLanguageCount := some 1
  wikipediaLanguages := some "[\"en\"]"
  wikipediaArticleCount := some 1
  hasEnglishWikipedia := some true
  hasFrenchWikipedia := some false
  textAvailable := some true
  bestLanguage := some "en"
  others := ()

def document : Document Unit :=
  ⟨some "Q2:wikipedia:en:5:9", some "Q2:en:5:9", some "Q2", some "en", some "enwiki", some "Lake",
    some 5, some 9, some "A lake.", ()⟩

/-- A link of each project, the Wikivoyage link first. -/
def links : List CanonicalLink :=
  [stored ⟨"berlin-latest:way:7", "Q2:wikivoyage:en:1:2", "wikivoyage", "Q2", "en",
    "berlin-latest.osm.pbf", "berlin", "way", 7, 1, 2⟩,
  stored ⟨"berlin-latest:way:7", "Q2:wikipedia:en:5:9", "wikipedia", "Q2", "en",
    "berlin-latest.osm.pbf", "berlin", "way", 7, 5, 9⟩]

theorem validate_links : validateStoredLinks Char.isDigit links = .ok links.reverse := by
  decide +kernel

theorem roundTrip_both :
    ∃ legacy, canonicalWikipediaLinksToLegacy links [document] [polygon] [] = .ok legacy
      ∧ legacyWikipediaLinksToCanonical Char.isDigit legacy [document]
        (wikivoyageLinks (.canonical links)) = .ok links.reverse :=
  legacy_roundTrip validate_links (by decide) (by decide) (by decide +kernel) [polygon] []

end BothProjects

end OsmPolygonWikidata.WikidataRecovery
