import OsmPolygonWikidata.WikidataRecovery.RepairMerge

/-! # What a repair merge guarantees

Four tables are merged by three procedures, in two schemas of links. What was there and is not a
planned orphan stays as it was, the documents of the affected identifiers are linked to all polygons
that carry them, and the tables are consistent. The Wikivoyage links are an exception: they are
passed on as they are, and their references are not checked.
-/

namespace OsmPolygonWikidata.WikidataRecovery

open Python

/-! ## Statements -/

section

variable {X H : Type} (decimal : Char → Bool)

/-- How often links link a polygon to a document. -/
def linkCount (links : Links) (p : Polygon X) (d : Document X) : Nat :=
  match links with
  | .canonical rows => (rows.map CanonicalLink.sortKey).count
      [p.id, "wikipedia", pyStr d.documentId]
  | .legacy rows => (rows.map LegacyLink.identity).count (p.id, pyStr d.articleId)

/-- Identities are unique, and the Wikipedia links refer to rows of the tables. -/
def LinksResolve (polygons : List (Polygon X)) (documents : List (Document X)) : Links → Prop
  | .canonical rows => (rows.map CanonicalLink.sortKey).Nodup
      ∧ ∀ row ∈ rows, row.project = some "wikipedia" →
        Carries decimal polygons (pyStr row.polygonId) (pyStr row.wikidata)
          ∧ Names true documents (pyStr row.documentId) (pyStr row.wikidata)
  | .legacy rows => (rows.map LegacyLink.identity).Nodup
      ∧ ∀ row ∈ rows, Carries decimal polygons (pyStr row.polygonId) (pyStr row.wikidata)
        ∧ Names false documents (pyStr row.articleId) (pyStr row.wikidata)

/-- Retained legacy links stay, up to the flag of the best language; canonical ones stay as they
are, and so do the Wikivoyage links. -/
def LinksKept (region : RegionAuditResult H) (inputs : RepairInputs X) : Links → Links → Prop
  | .legacy _, .legacy rows => ∀ link ∈ inputs.retainedLinks, ∃ link' ∈ rows, SameLink link link'
  | .canonical stored, .canonical rows =>
    (∀ row ∈ stored, row.project = some "wikivoyage" → row ∈ rows)
      ∧ ∀ row ∈ stored, row.project = some "wikipedia" →
        (∃ link ∈ inputs.retainedLinks, legacyLinkFromCanonical inputs.polygons inputs.documents
          region.affectedQids row = .ok (some link)) → row ∈ rows
  | _, _ => False

/-- The polygons that the audit lists under an identifier carry it. -/
def Audited (region : RegionAuditResult H) (polygons : List (Polygon X)) : Prop :=
  ∀ qid ids, (qid, ids) ∈ region.polygonIdsByQid → ∀ id ∈ ids, Carries decimal polygons id qid

/-- What holds of the tables of a repair. -/
structure RepairSound (region : RegionAuditResult H) (inputs : RepairInputs X)
    (outputs : RepairOutputs X) : Prop where
  documents : ∀ d ∈ inputs.documents, pyStr d.documentId ∉ region.orphanDocumentIds →
    d ∈ outputs.mergedDocuments
  sections : ∀ s ∈ inputs.sections, pyStr s.documentId ∉ region.orphanDocumentIds →
    s ∈ outputs.mergedSections
  facts : ∀ f ∈ inputs.facts, pyStr f.factId ∉ region.orphanFactIds → f ∈ outputs.mergedFacts
  polygons : List.Forall₂ (Recomputed decimal region.affectedQids) inputs.polygons
    outputs.updatedPolygons
  linkedOnce : ∀ p ∈ inputs.polygons, ∀ qid ∈ p.qids decimal, qid ∈ region.affectedQids →
    ∀ d ∈ outputs.mergedDocuments, pyStr d.wikidata = qid → linkCount outputs.persistedLinks p d = 1
  linksKept : LinksKept region inputs inputs.storedLinks outputs.persistedLinks
  tables : ValidRows decimal outputs.updatedPolygons [] outputs.mergedDocuments
    outputs.mergedSections outputs.mergedFacts
  linksResolve : LinksResolve decimal outputs.updatedPolygons outputs.mergedDocuments
    outputs.persistedLinks
  classified : ∀ qid ∈ region.affectedQids,
    (qid, RecoveryClassification.authoritativeNoArticle) ∈ outputs.terminalClassifications →
      ∀ d ∈ outputs.mergedDocuments, pyStr d.wikidata ≠ qid

end

/-! ## Merged rows -/

section

variable {R : Type} {primary : R → String} {label : String} {secondary : SecondaryKey R}
  {seen next existing additions merged : List R} {row : R}

theorem addMergeRow_eq_ok (h : addMergeRow secondary seen row = .ok next) :
    next = seen ++ [row] := by
  unfold addMergeRow at h
  split at h
  · exact (Except.ok.inj h).symm
  · split_ifs at h
    exact (Except.ok.inj h).symm

theorem foldlM_prefix {step : List R → R → Except RepairError (List R)}
    (hstep : ∀ s r s', step s r = .ok s' → s <+: s') {rows s s' : List R}
    (h : rows.foldlM step s = .ok s') : s <+: s' := by
  induction rows generalizing s with
  | nil =>
    cases h
    exact List.prefix_rfl
  | cons r rows ih =>
    rw [List.foldlM_cons] at h
    obtain ⟨t, ht, h⟩ := bind_eq_ok.mp h
    exact (hstep s r t ht).trans (ih h)

theorem validateMergeRows_eq_ok (h : validateMergeRows primary label secondary existing = .ok merged) :
    merged = existing := by
  have hrun : ∀ (rows s s' : List R), rows.foldlM (fun seen row =>
      if primary row ∈ seen.map primary then .error (.duplicate label (primary row))
      else addMergeRow secondary seen row) s = .ok s' → s' = s ++ rows := by
    intro rows
    induction rows with
    | nil =>
      intro s s' h
      cases h
      simp
    | cons r rows ih =>
      intro s s' h
      rw [List.foldlM_cons] at h
      obtain ⟨t, ht, h⟩ := bind_eq_ok.mp h
      split_ifs at ht
      rw [ih t s' h, addMergeRow_eq_ok ht]
      simp
  simpa using hrun existing [] merged h

theorem prefix_of_mergeRows (h : mergeRows primary label secondary existing additions = .ok merged) :
    existing <+: merged := by
  obtain ⟨seen, hseen, h⟩ := bind_eq_ok.mp h
  rw [validateMergeRows_eq_ok hseen] at h
  refine foldlM_prefix (fun s r s' hs => ?_) h
  split_ifs at hs
  · cases hs
    exact List.prefix_rfl
  · rw [addMergeRow_eq_ok hs]
    exact List.prefix_append _ _

end

/-! ## The tables -/

section

variable {X H : Type} {decimal : Char → Bool} {dumps : List String → String}
  {region : RegionAuditResult H} {inputs : RepairInputs X}
  {completedBatches : List (RecoveryBatchArtifacts X)} {affectedQids : List String}
  {merged : MergedTables X}

variable (decimal inputs affectedQids merged) in
/-- What merging gives, before it is checked. -/
structure Merging : Prop where
  documents : ∀ d ∈ inputs.retainedDocuments, d ∈ merged.documents
  sections : ∀ s ∈ inputs.retainedSections, s ∈ merged.sections
  facts : ∀ f ∈ inputs.retainedFacts, f ∈ merged.facts
  polygons : List.Forall₂ (Recomputed decimal affectedQids) inputs.polygons merged.polygons
  links : ∀ link ∈ inputs.retainedLinks, ∃ link' ∈ merged.links, SameLink link link'
  linked : ∀ p ∈ inputs.polygons, LinkedIn decimal merged.documents affectedQids p
    (merged.links.map LegacyLink.identity)

theorem SameLink.identity_eq {link link' : LegacyLink} (h : SameLink link link') :
    link'.identity = link.identity := by
  rw [← h]
  rfl

theorem map_identity_of_sameLink {links links' : List LegacyLink}
    (h : List.Forall₂ SameLink links links') :
    links'.map LegacyLink.identity = links.map LegacyLink.identity := by
  induction h with
  | nil => rfl
  | cons hsame _ ih => rw [List.map_cons, List.map_cons, hsame.identity_eq, ih]

theorem mem_sortSections {sections sorted : List (Section X)} (h : sortSections sections = .ok sorted)
    {s : Section X} : s ∈ sorted ↔ s ∈ sections := by
  rw [sortSections] at h
  split_ifs at h
  rw [← Except.ok.inj h]
  exact (List.perm_insertionSort _ _).mem_iff

/-- **What the merge adds and keeps.** -/
theorem merging_of_mergeRepairTables
    (h : mergeRepairTables decimal dumps region inputs completedBatches affectedQids = .ok merged) :
    Merging decimal inputs affectedQids merged := by
  obtain ⟨documents, hdocuments, h⟩ := bind_eq_ok.mp h
  obtain ⟨links, hlinks, h⟩ := bind_eq_ok.mp h
  obtain ⟨⟨polygons, updatedLinks⟩, hfields, h⟩ := bind_eq_ok.mp h
  obtain ⟨sections, hsections, h⟩ := bind_eq_ok.mp h
  obtain ⟨facts, hfacts, h⟩ := bind_eq_ok.mp h
  obtain ⟨sortedSections, hsorted, h⟩ := bind_eq_ok.mp h
  cases h
  have hmem : ∀ d : Document X, d ∈ sortDocuments documents ↔ d ∈ documents :=
    fun d => (List.perm_insertionSort _ _).mem_iff
  obtain ⟨hpolygons, hsame⟩ := recomputeAffectedPolygonFields_keeps hfields
  obtain ⟨hleading, hlinked⟩ := mergeLinks_spec hlinks
  constructor
  · exact fun d hd => (hmem d).mpr ((prefix_of_mergeRows hdocuments).subset hd)
  · exact fun s hs => (mem_sortSections hsorted).mpr ((prefix_of_mergeRows hsections).subset hs)
  · intro f hf
    exact (List.perm_insertionSort _ _).mem_iff.mpr ((prefix_of_mergeRows hfacts).subset hf)
  · exact hpolygons
  · intro link hlink
    exact forall₂_exists_mem hsame (hleading.subset hlink)
  · intro p hp qid hqid haffected d hd hwikidata
    show _ ∈ updatedLinks.map LegacyLink.identity
    rw [map_identity_of_sameLink hsame]
    exact hlinked p hp qid hqid haffected d ((hmem d).mp hd) hwikidata

/-! ## The persisted links -/

variable {polygons : List (Polygon X)} {links : List LegacyLink} {documents : List (Document X)}
  {sections : List (Section X)} {facts : List (Fact X)} {preserved rows : List CanonicalLink}

theorem document_unique (h : ValidRows decimal polygons links documents sections facts)
    {d d' : Document X} (hd : d ∈ documents) (hd' : d' ∈ documents)
    (harticle : pyStr d.articleId = pyStr d'.articleId) : d = d' :=
  List.inj_on_of_nodup_map h.articleIds hd hd' harticle

/-- The canonical row of a link. -/
structure RowOf (documents : List (Document X)) (link : LegacyLink) (row : CanonicalLink) :
    Prop where
  project : row.project = some "wikipedia"
  polygonId : row.polygonId = link.polygonId
  wikidata : row.wikidata = link.wikidata
  document : ∃ d ∈ documents, pyStr d.articleId = pyStr link.articleId
    ∧ row.documentId = d.documentId

variable {link : LegacyLink}

theorem rowOf_of_canonicalLinkRow (harticles : (documents.map (fun d => pyStr d.articleId)).Nodup)
    {row : CanonicalLink} (h : canonicalLinkRow documents link = .ok row) :
    RowOf documents link row := by
  rw [canonicalLinkRow] at h
  cases hfound : lastWith (fun d => pyStr d.articleId) documents (pyStr link.articleId) with
  | none =>
    rw [hfound] at h
    cases h
  | some d =>
    rw [hfound] at h
    cases h
    obtain ⟨hd, harticle⟩ := (lastWith_eq_some_iff harticles).mp hfound
    exact ⟨rfl, rfl, rfl, d, hd, harticle, rfl⟩

variable (decimal) in
/-- The persisted rows of a canonical table. -/
structure Persisted (documents : List (Document X)) (links : List LegacyLink)
    (preserved rows : List CanonicalLink) : Prop where
  sortKeys : (rows.map CanonicalLink.sortKey).Nodup
  inOrder : ∀ row ∈ rows, StoredInOrder decimal row
  kept : ∀ row ∈ preserved, row ∈ rows
  restored : ∀ link ∈ links, ∃ row ∈ rows, canonicalLinkRow documents link = .ok row
  origin : ∀ row ∈ rows, row ∈ preserved ∨ ∃ link ∈ links, canonicalLinkRow documents link = .ok row

theorem persisted_of_legacyWikipediaLinksToCanonical
    (h : legacyWikipediaLinksToCanonical decimal links documents preserved = .ok rows) :
    Persisted decimal documents links preserved rows := by
  obtain ⟨restored, hrestored, h⟩ := bind_eq_ok.mp h
  obtain ⟨hgood, hfunctional, hmixed, rfl⟩ := validateStoredLinks_eq_ok_iff.mp (mapError_eq_ok.mp h)
  have hmem : ∀ row, row ∈ (preserved ++ restored).eraseDups.insertionSort
      (fun a b => a.sortKey ≤ b.sortKey) ↔ row ∈ preserved ∨ row ∈ restored := by
    intro row
    rw [(List.perm_insertionSort _ _).mem_iff, List.mem_eraseDups, List.mem_append]
  constructor
  · apply List.Nodup.map_on
    · intro r hr r' hr' hkey
      exact sortKey_injOn hgood hfunctional hmixed r (List.mem_append.mpr ((hmem r).mp hr)) r'
        (List.mem_append.mpr ((hmem r').mp hr')) hkey
    · exact (List.perm_insertionSort _ _).nodup_iff.mpr (nodup_eraseDups _)
  · intro row hrow
    exact hgood row (List.mem_append.mpr ((hmem row).mp hrow))
  · exact fun row hrow => (hmem row).mpr (Or.inl hrow)
  · intro link hlink
    obtain ⟨row, hrow, hlinkRow⟩ := exists_mem_of_mapM hrestored hlink
    exact ⟨row, (hmem row).mpr (Or.inr hrow), hlinkRow⟩
  · intro row hrow
    rcases (hmem row).mp hrow with hpreserved | hrow
    · exact Or.inl hpreserved
    · exact Or.inr (exists_of_mem_mapM hrestored hrow)

variable {d : Document X}

variable (h : ValidRows decimal polygons links documents sections facts)

include h

variable {polygonId : String} {p : Polygon X} {persisted : Links} {qid : String}

theorem wikidata_of_identity (hlink : link ∈ links) (hd : d ∈ documents)
    (hidentity : link.identity = (polygonId, pyStr d.articleId)) :
    pyStr link.polygonId = polygonId ∧ pyStr link.wikidata = pyStr d.wikidata := by
  obtain ⟨hpolygon, harticle⟩ := Prod.mk.inj hidentity
  obtain ⟨d', hd', hreference, hwikidata⟩ := (h.links link hlink).2
  have hsame : d' = d := document_unique h hd' hd (hreference.trans harticle)
  rw [hsame] at hwikidata
  exact ⟨hpolygon, hwikidata.symm⟩

theorem sortKey_of_rowOf {row : CanonicalLink} (hrow : RowOf documents link row)
    (hd : d ∈ documents) (hidentity : link.identity = (polygonId, pyStr d.articleId)) :
    row.sortKey = [polygonId, "wikipedia", pyStr d.documentId] := by
  obtain ⟨hpolygon, harticle⟩ := Prod.mk.inj hidentity
  obtain ⟨d', hd', harticle', hid⟩ := hrow.document
  have hsame : d' = d := document_unique h hd' hd (harticle'.trans harticle)
  rw [hsame] at hid
  rw [CanonicalLink.sortKey, CanonicalLink.key, hrow.project, hrow.polygonId, hid]
  show [pyStr link.polygonId, "wikipedia", pyStr d.documentId] = _
  rw [hpolygon]

/-- **A linked document is linked once.** -/
theorem linkCount_legacy (hlinked : (p.id, pyStr d.articleId) ∈ links.map LegacyLink.identity) :
    linkCount (.legacy links) p d = 1 :=
  List.count_eq_one_of_mem h.linkIds hlinked

theorem linkCount_canonical (hpersisted : Persisted decimal documents links preserved rows)
    (hd : d ∈ documents) (hlinked : (p.id, pyStr d.articleId) ∈ links.map LegacyLink.identity) :
    linkCount (.canonical rows) p d = 1 := by
  obtain ⟨link, hlink, hidentity⟩ := List.mem_map.mp hlinked
  obtain ⟨row, hrow, hof⟩ := hpersisted.restored link hlink
  have hkey := sortKey_of_rowOf h (rowOf_of_canonicalLinkRow h.articleIds hof) hd hidentity
  apply List.count_eq_one_of_mem hpersisted.sortKeys
  exact List.mem_map.mpr ⟨row, hrow, hkey⟩

/-- **The Wikipedia rows refer to rows of the tables.** -/
theorem linksResolve_canonical (hpersisted : Persisted decimal documents links preserved rows)
    (hpreserved : ∀ row ∈ preserved, row.project = some "wikivoyage") :
    LinksResolve decimal polygons documents (.canonical rows) := by
  refine ⟨hpersisted.sortKeys, fun row hrow hproject => ?_⟩
  rcases hpersisted.origin row hrow with hkept | ⟨link, hlink, hof⟩
  · rw [hpreserved row hkept] at hproject
    exact absurd hproject (by decide)
  · have hrowOf := rowOf_of_canonicalLinkRow h.articleIds hof
    obtain ⟨hcarries, d', hd', hreference, hwikidata⟩ := h.links link hlink
    obtain ⟨d, hd, harticle, hid⟩ := hrowOf.document
    have hsame : d' = d := document_unique h hd' hd (hreference.trans harticle.symm)
    rw [hrowOf.polygonId, hrowOf.wikidata, hid]
    exact ⟨hcarries, d, hd, rfl, hsame ▸ hwikidata⟩

theorem mem_linkedPolygonQidsOf_canonical
    (hpersisted : Persisted decimal documents links preserved rows) (hd : d ∈ documents)
    (hlinked : (p.id, pyStr d.articleId) ∈ links.map LegacyLink.identity) :
    (p.id, pyStr d.wikidata) ∈ linkedPolygonQidsOf (.canonical rows) := by
  obtain ⟨link, hlink, hidentity⟩ := List.mem_map.mp hlinked
  obtain ⟨row, hrow, hof⟩ := hpersisted.restored link hlink
  have hrowOf := rowOf_of_canonicalLinkRow h.articleIds hof
  obtain ⟨hpolygon, hwikidata⟩ := wikidata_of_identity h hlink hd hidentity
  refine List.mem_map.mpr ⟨row, List.mem_filter.mpr ⟨hrow, decide_eq_true hrowOf.project⟩, ?_⟩
  rw [hrowOf.polygonId, hrowOf.wikidata, hpolygon, hwikidata]

theorem mem_linkedPolygonQidsOf_legacy (hd : d ∈ documents)
    (hlinked : (p.id, pyStr d.articleId) ∈ links.map LegacyLink.identity) :
    (p.id, pyStr d.wikidata) ∈ linkedPolygonQidsOf (.legacy links) := by
  obtain ⟨link, hlink, hidentity⟩ := List.mem_map.mp hlinked
  obtain ⟨hpolygon, hwikidata⟩ := wikidata_of_identity h hlink hd hidentity
  refine List.mem_map.mpr ⟨link, hlink, ?_⟩
  rw [hpolygon, hwikidata]

theorem canonicalLinkRow_of_retained (hpersisted : Persisted decimal documents links preserved rows)
    (hloaded : Loaded decimal region inputs)
    (hretained : ∀ d ∈ inputs.retainedDocuments, d ∈ documents)
    {stored : CanonicalLink} (hproject : stored.project = some "wikipedia")
    (hlink : link ∈ inputs.retainedLinks)
    (hlegacy : legacyLinkFromCanonical inputs.polygons inputs.documents region.affectedQids stored
      = .ok (some link))
    {link' : LegacyLink} (hlink' : link' ∈ links) (hsame : SameLink link link') :
    stored ∈ rows := by
  obtain ⟨document, hdocument, hid, rfl⟩ := legacyOf_of_legacyLinkFromCanonical hlegacy
  -- its document is not a planned orphan, as its links are retained
  have hnotOrphan : pyStr document.documentId ∉ region.orphanDocumentIds := by
    intro horphan
    rw [hloaded.retainedLinks] at hlink
    have hnot := of_decide_eq_true (List.mem_filter.mp hlink).2
    exact hnot (List.mem_map.mpr
      ⟨document, List.mem_filter.mpr ⟨hdocument, decide_eq_true horphan⟩, rfl⟩)
  have hmerged : document ∈ documents := by
    apply hretained
    rw [hloaded.retainedDocuments]
    exact List.mem_filter.mpr ⟨hdocument, decide_eq_true hnotOrphan⟩
  obtain ⟨row, hrow, hof⟩ := hpersisted.restored link' hlink'
  have heq := canonicalLinkRow_eq h.articleIds hmerged hsame hof
  have hslot := (hpersisted.inOrder row hrow).projectSlot
  have hids : document.documentId = stored.documentId := by
    have hrowId : row.documentId = document.documentId := by rw [heq]
    refine pyStr_inj ?_ ?_ hid
    · rw [← hrowId]
      exact (hpersisted.inOrder row hrow).documentId_ne_none
    · intro hnone
      rw [hrowId, hid, hnone, documentIdProject_none] at hslot
      cases hslot
  have hstored : row = stored := by
    rw [heq, hids, ← hproject]
  exact hstored ▸ hrow

omit h

theorem Recomputed.congr {affectedQids' : List String} {p' : Polygon X}
    (h : Recomputed decimal affectedQids p p')
    (hmem : ∀ qid, qid ∈ affectedQids ↔ qid ∈ affectedQids') :
    Recomputed decimal affectedQids' p p' := by
  refine ⟨h.id, h.qids, fun hnot => h.unaffected (fun haffected => hnot ?_)⟩
  obtain ⟨qid, hqid, hin⟩ := haffected
  exact ⟨qid, hqid, (hmem qid).mp hin⟩

/-! ## Classifications -/

theorem mem_terminalClassifications {state : RecoveryClassification}
    (h : (qid, state) ∈ terminalClassifications region persisted) :
    ∃ before, state = terminalClassification qid before region.affectedQids
      (polygonIdsOf region qid) (linkedPolygonQidsOf persisted) := by
  obtain ⟨⟨qid', before⟩, -, heq⟩ := List.mem_map.mp ((Dict.mem_build_iff.mp h).mem)
  cases heq
  exact ⟨before, rfl⟩

theorem exists_unlinked (hqid : qid ∈ region.affectedQids)
    (h : (qid, RecoveryClassification.authoritativeNoArticle)
      ∈ terminalClassifications region persisted) :
    ∃ polygonId ∈ polygonIdsOf region qid, (polygonId, qid) ∉ linkedPolygonQidsOf persisted := by
  obtain ⟨before, hstate⟩ := mem_terminalClassifications h
  rw [terminalClassification, if_neg (not_not.mpr hqid)] at hstate
  by_contra hall
  push Not at hall
  rw [if_pos hall] at hstate
  cases hstate

theorem carries_of_audited (h : Audited decimal region polygons)
    (hmem : polygonId ∈ polygonIdsOf region qid) : Carries decimal polygons polygonId qid := by
  rw [polygonIdsOf] at hmem
  cases hfound : lastWith Prod.fst region.polygonIdsByQid qid with
  | none =>
    rw [hfound] at hmem
    cases hmem
  | some entry =>
    rw [hfound] at hmem
    obtain ⟨hentry, rfl⟩ := mem_of_lastWith hfound
    exact h entry.1 entry.2 hentry polygonId hmem

theorem mem_appendUnder {k v k' w : String} {ws : List String} {d : List (String × List String)}
    (h : (k', ws) ∈ appendUnder k v d) (hw : w ∈ ws) :
    (k' = k ∧ w = v) ∨ ∃ old, (k', old) ∈ d ∧ w ∈ old := by
  induction d with
  | nil =>
    rw [appendUnder, List.mem_singleton, Prod.mk.injEq] at h
    rw [h.2, List.mem_singleton] at hw
    exact .inl ⟨h.1, hw⟩
  | cons entry d ih =>
    rw [appendUnder] at h
    split at h
    next hk =>
      rcases List.mem_cons.mp h with heq | h
      · cases heq
        rcases List.mem_append.mp hw with hw | hw
        · exact .inr ⟨entry.2, List.mem_cons_self, hw⟩
        · exact .inl ⟨hk, List.mem_singleton.mp hw⟩
      · exact .inr ⟨ws, List.mem_cons_of_mem entry h, hw⟩
    next =>
      rcases List.mem_cons.mp h with heq | h
      · cases heq
        exact .inr ⟨entry.2, List.mem_cons_self, hw⟩
      · rcases ih h with hnew | ⟨old, hold, hw⟩
        · exact .inl hnew
        · exact .inr ⟨old, List.mem_cons_of_mem entry hold, hw⟩

/-- The polygons under an identifier carry it. -/
def Listed (decimal : Char → Bool) (polygons : List (Polygon X))
    (listed : List (String × List String)) : Prop :=
  ∀ qid ids, (qid, ids) ∈ listed → ∀ id ∈ ids, Carries decimal polygons id qid

theorem indexPolygonRow_listed {row : Polygon X} {index index' : PolygonIndex}
    (h : indexPolygonRow decimal index row = .ok index') (hrow : row ∈ polygons)
    (hindex : Listed decimal polygons index.polygonIdsByQid) :
    Listed decimal polygons index'.polygonIdsByQid := by
  have hstring : ∀ {value : Option String} {key s : String} {table : Table},
      requiredString value key table = .ok s → s = pyStr value := by
    intro value key s table h
    cases value with
    | none => cases h
    | some v =>
      rw [requiredString] at h
      split at h
      · cases h
      · exact (Except.ok.inj h).symm
  obtain ⟨polygonId, hid, h⟩ := bind_eq_ok.mp h
  obtain ⟨rawQid, hraw, h⟩ := bind_eq_ok.mp h
  obtain rfl := hstring hid
  obtain rfl := hstring hraw
  by_cases hqids : qidsFromOsmTag decimal (pyStr row.wikidata) = []
  · simp only [hqids, if_true] at h
    cases h
  · simp only [hqids, if_false] at h
    split at h
    · cases h
    · cases h
      -- every identifier of the tag gets the polygon
      suffices hfold : ∀ (qids : List String) (d : List (String × List String)),
          (∀ qid ∈ qids, qid ∈ row.qids decimal) → Listed decimal polygons d →
            Listed decimal polygons
              (qids.foldl (fun d qid => appendUnder qid (pyStr row.polygonId) d) d) from
        hfold _ _ (fun _ h => h) hindex
      intro qids
      induction qids with
      | nil => exact fun d _ hd => hd
      | cons qid qids ih =>
        intro d hqids hd
        refine ih _ (fun q hq => hqids q (List.mem_cons_of_mem qid hq)) ?_
        intro q ids hids id hid
        rcases mem_appendUnder hids hid with ⟨rfl, rfl⟩ | ⟨old, hold, hid⟩
        · exact ⟨row, hrow, rfl, hqids q List.mem_cons_self⟩
        · exact hd q old hold id hid

/-- A scan lists polygons under the identifiers that they carry. -/
theorem audited_of_scanRows {fingerprints : Fingerprints H} {regionRows : RegionRows X}
    {scan : RegionScan H} (h : scanRows decimal fingerprints regionRows = .ok scan)
    (hregion : region.polygonIdsByQid = scan.polygonIdsByQid) :
    Audited decimal region regionRows.polygons := by
  obtain ⟨index, hindex, h⟩ := bind_eq_ok.mp h
  have hrun : ∀ (rows : List (Polygon X)) (start : PolygonIndex), rows ⊆ regionRows.polygons →
      Listed decimal regionRows.polygons start.polygonIdsByQid →
        rows.foldlM (indexPolygonRow decimal) start = .ok index →
          Listed decimal regionRows.polygons index.polygonIdsByQid := by
    intro rows
    induction rows with
    | nil =>
      intro start _ hstart h
      cases h
      exact hstart
    | cons row rows ih =>
      intro start hrows hstart h
      rw [List.foldlM_cons] at h
      obtain ⟨next, hnext, h⟩ := bind_eq_ok.mp h
      rw [List.cons_subset] at hrows
      exact ih next hrows.2 (indexPolygonRow_listed hnext hrows.1 hstart) h
  have hlisted := hrun _ _ (List.Subset.refl _) (by simp [Listed]) hindex
  obtain ⟨documents, -, h⟩ := bind_eq_ok.mp h
  obtain ⟨links, -, h⟩ := bind_eq_ok.mp h
  obtain ⟨facts, -, h⟩ := bind_eq_ok.mp h
  cases h
  intro qid ids hmem id hid
  rw [hregion] at hmem
  obtain ⟨⟨qid', ids'⟩, hitem, heq⟩ := List.mem_map.mp hmem
  cases heq
  rw [List.mem_insertionSort] at hid
  exact hlisted qid ids' ((List.mem_insertionSort _).mp hitem) id hid

/-! ## Soundness -/

/-- **What the persisted links are**, in either schema. -/
theorem persistedLinks_spec (hloaded : Loaded decimal region inputs)
    (hmerging : Merging decimal inputs affectedQids merged)
    (hvalid : ValidRows decimal merged.polygons merged.links merged.documents merged.sections
      merged.facts)
    (h : persistedRepairLinks decimal merged.links merged.documents inputs = .ok persisted) :
    LinksKept region inputs inputs.storedLinks persisted
      ∧ LinksResolve decimal merged.polygons merged.documents persisted
      ∧ ∀ (p : Polygon X) (d : Document X), d ∈ merged.documents →
        (p.id, pyStr d.articleId) ∈ merged.links.map LegacyLink.identity →
          linkCount persisted p d = 1
            ∧ (p.id, pyStr d.wikidata) ∈ linkedPolygonQidsOf persisted := by
  rw [persistedRepairLinks] at h
  cases hstored : inputs.storedLinks with
  | legacy stored =>
    rw [hstored] at h
    cases h
    exact ⟨hmerging.links, ⟨hvalid.linkIds, hvalid.links⟩, fun p d hd hlinked =>
      ⟨linkCount_legacy hvalid hlinked, mem_linkedPolygonQidsOf_legacy hvalid hd hlinked⟩⟩
  | canonical stored =>
    rw [hstored] at h
    obtain ⟨rows, hrows, hret⟩ := bind_eq_ok.mp h
    cases hret
    have hpersisted := persisted_of_legacyWikipediaLinksToCanonical hrows
    have hkept : inputs.preservedWikivoyageLinks
        = stored.filter (fun row => row.project = some "wikivoyage") := by
      rw [hloaded.preserved, hstored]
      rfl
    have hpreserved : ∀ row ∈ inputs.preservedWikivoyageLinks,
        row.project = some "wikivoyage" := by
      intro row hrow
      rw [hkept] at hrow
      exact of_decide_eq_true (List.mem_filter.mp hrow).2
    have hretained : ∀ d ∈ inputs.retainedDocuments, d ∈ merged.documents := hmerging.documents
    refine ⟨⟨fun row hrow hproject => ?_, fun row hrow hproject hlink => ?_⟩,
      linksResolve_canonical hvalid hpersisted hpreserved, fun p d hd hlinked =>
        ⟨linkCount_canonical hvalid hpersisted hd hlinked,
          mem_linkedPolygonQidsOf_canonical hvalid hpersisted hd hlinked⟩⟩
    · apply hpersisted.kept
      rw [hkept]
      exact List.mem_filter.mpr ⟨hrow, decide_eq_true hproject⟩
    · obtain ⟨link, hlink, hlegacy⟩ := hlink
      obtain ⟨link', hlink', hsame⟩ := hmerging.links link hlink
      exact canonicalLinkRow_of_retained hvalid hpersisted hloaded hretained hproject hlink hlegacy
        hlink' hsame

variable [DecidableEq X] {C : Type} {codec : Codec X C} {files : RegionFiles C}
  {outputs : RepairOutputs X}

/-- **A repair merge is sound.** -/
theorem mergeRepairOutputs_sound (hload : loadRepairInputs decimal codec files region = .ok inputs)
    (haudited : Audited decimal region inputs.polygons)
    (h : mergeRepairOutputs decimal dumps region inputs completedBatches = .ok outputs) :
    RepairSound decimal region inputs outputs := by
  have hloaded := loaded_of_loadRepairInputs hload
  obtain ⟨merged, hmerge, h⟩ := bind_eq_ok.mp h
  obtain ⟨⟨⟩, hcheck, h⟩ := bind_eq_ok.mp h
  obtain ⟨persisted, hpersisted, h⟩ := bind_eq_ok.mp h
  cases h
  obtain ⟨⟨⟩, hexisting, -⟩ := bind_eq_ok.mp hcheck
  have hvalid := validateExistingRows_eq_ok_iff.mp (mapError_eq_ok.mp hexisting)
  have hmerging := merging_of_mergeRepairTables hmerge
  have hsorted : ∀ qid, qid ∈ region.affectedQids.insertionSort (fun a b => a ≤ b)
      ↔ qid ∈ region.affectedQids := fun qid => (List.perm_insertionSort _ _).mem_iff
  obtain ⟨hlinksKept, hresolve, hlinks⟩ := persistedLinks_spec hloaded hmerging hvalid hpersisted
  have hlinked : ∀ p ∈ inputs.polygons, ∀ qid ∈ p.qids decimal, qid ∈ region.affectedQids →
      ∀ d ∈ merged.documents, pyStr d.wikidata = qid → linkCount persisted p d = 1
        ∧ (p.id, pyStr d.wikidata) ∈ linkedPolygonQidsOf persisted := by
    intro p hp qid hqid haffected d hd hwikidata
    exact hlinks p d hd (hmerging.linked p hp qid hqid ((hsorted qid).mpr haffected) d hd hwikidata)
  constructor
  · intro d hd hnot
    apply hmerging.documents
    rw [hloaded.retainedDocuments]
    exact List.mem_filter.mpr ⟨hd, decide_eq_true hnot⟩
  · intro s hs hnot
    apply hmerging.sections
    rw [hloaded.retainedSections]
    exact List.mem_filter.mpr ⟨hs, decide_eq_true hnot⟩
  · intro f hf hnot
    apply hmerging.facts
    rw [hloaded.retainedFacts]
    exact List.mem_filter.mpr ⟨hf, decide_eq_true hnot⟩
  · exact hmerging.polygons.imp (fun _ _ hp => hp.congr hsorted)
  · intro p hp qid hqid haffected d hd hwikidata
    exact (hlinked p hp qid hqid haffected d hd hwikidata).1
  · exact hlinksKept
  · exact { hvalid with
      linkIds := List.nodup_nil
      links := fun l hl => absurd hl List.not_mem_nil }
  · exact hresolve
  · intro qid hqid hclassified d hd hwikidata
    obtain ⟨polygonId, hmem, hunlinked⟩ := exists_unlinked hqid hclassified
    obtain ⟨p, hp, rfl, hcarries⟩ := carries_of_audited haudited hmem
    have hpair := (hlinked p hp qid hcarries hqid d hd hwikidata).2
    rw [hwikidata] at hpair
    exact hunlinked hpair

end

namespace OneRepair

open BothProjects (polygon document)

/-- A Wikivoyage link of a polygon that the region does not have. -/
def danglingLink : CanonicalLink :=
  stored ⟨"berlin-latest:way:8", "Q2:wikivoyage:en:1:2", "wikivoyage", "Q2", "en",
    "berlin-latest.osm.pbf", "berlin", "way", 8, 1, 2⟩

/-- The polygon has no document yet. -/
def codec : Codec Unit Unit where
  readPolygons := fun _ => some [polygon]
  readCanonicalLinks := fun _ => some [danglingLink]
  readLegacyLinks := fun _ => none
  readDocuments := fun _ => some []
  readSections := fun _ => some []
  readFacts := fun _ => some []

def region : RegionAuditResult Unit where
  stem := "berlin-latest"
  fingerprints := none
  classifications := [("Q2", .repairRequired)]
  polygonIdsByQid := [("Q2", ["berlin-latest:way:7"])]
  affectedPolygonIdsByQid := [("Q2", ["berlin-latest:way:7"])]
  affectedQids := ["Q2"]
  affectedPolygonCount := 1
  orphanFactIds := []
  orphanDocumentIds := []
  blockedReason := none

def inputs : RepairInputs Unit where
  polygons := [polygon]
  storedLinks := .canonical [danglingLink]
  links := []
  documents := []
  sections := []
  facts := []
  preservedWikivoyageLinks := [danglingLink]
  retainedFacts := []
  retainedDocuments := []
  retainedSections := []
  retainedLinks := []
  orphanDocumentIds := []

def batches : List (RecoveryBatchArtifacts Unit) := [⟨["Q2"], [document], [], []⟩]

/-- The document of the batch is linked, and the Wikivoyage link is passed on. -/
def persisted : Links :=
  .canonical [stored ⟨"berlin-latest:way:7", "Q2:wikipedia:en:5:9", "wikipedia", "Q2", "en",
    "berlin-latest.osm.pbf", "berlin", "way", 7, 5, 9⟩, danglingLink]

theorem load_inputs :
    loadRepairInputs Char.isDigit codec (fun _ => some ()) region = .ok inputs := by
  decide +kernel

theorem merge_inputs :
    ((mergeRepairOutputs Char.isDigit (String.intercalate ",") region inputs batches).map
      (fun outputs => (outputs.persistedLinks, outputs.updatedPolygons.map Polygon.id)))
      = .ok (persisted, ["berlin-latest:way:7"]) := by
  decide +kernel

theorem exists_outputs : ∃ outputs,
    mergeRepairOutputs Char.isDigit (String.intercalate ",") region inputs batches = .ok outputs
      ∧ outputs.persistedLinks = persisted
      ∧ outputs.updatedPolygons.map Polygon.id = ["berlin-latest:way:7"] := by
  obtain ⟨outputs, hrun, hpair⟩ := map_eq_ok.mp merge_inputs
  exact ⟨outputs, hrun, (Prod.mk.inj hpair).1, (Prod.mk.inj hpair).2⟩

theorem region_audited : Audited Char.isDigit region inputs.polygons := by
  intro qid ids hmem id hid
  obtain ⟨rfl, rfl⟩ := Prod.mk.inj (List.mem_singleton.mp hmem)
  rw [List.mem_singleton.mp hid]
  exact ⟨polygon, List.mem_singleton.mpr rfl, rfl, by decide +kernel⟩

/-- The rows of the region without the Wikivoyage link, which would block the scan. -/
def scannedRows : RegionRows Unit := ⟨[polygon], .canonical [], [], []⟩

theorem scanned_region : ∃ scan, scanRows Char.isDigit ⟨(), (), (), ()⟩ scannedRows = .ok scan
    ∧ Audited Char.isDigit { region with polygonIdsByQid := scan.polygonIdsByQid } [polygon] := by
  rcases hscan : scanRows Char.isDigit (⟨(), (), (), ()⟩ : Fingerprints Unit) scannedRows
    with e | scan
  · cases hscan
  · exact ⟨scan, rfl, audited_of_scanRows hscan rfl⟩

theorem sound_region : ∃ outputs,
    mergeRepairOutputs Char.isDigit (String.intercalate ",") region inputs batches = .ok outputs
      ∧ RepairSound Char.isDigit region inputs outputs := by
  obtain ⟨outputs, hrun, -⟩ := exists_outputs
  exact ⟨outputs, hrun, mergeRepairOutputs_sound load_inputs region_audited hrun⟩

/-- The inputs are validated and the merge returns, but the polygon of a link is not there. -/
theorem danglingLink_persisted : ∃ outputs,
    loadRepairInputs Char.isDigit codec (fun _ => some ()) region = .ok inputs
      ∧ Audited Char.isDigit region inputs.polygons
      ∧ mergeRepairOutputs Char.isDigit (String.intercalate ",") region inputs batches = .ok outputs
      ∧ ∃ rows, outputs.persistedLinks = .canonical rows ∧ ∃ row ∈ rows,
        ∀ p ∈ outputs.updatedPolygons, p.id ≠ pyStr row.polygonId := by
  obtain ⟨outputs, hrun, hpersisted, hids⟩ := exists_outputs
  refine ⟨outputs, load_inputs, region_audited, hrun, _, hpersisted, danglingLink, by simp, ?_⟩
  intro p hp heq
  have hid : p.id ∈ outputs.updatedPolygons.map Polygon.id := List.mem_map_of_mem hp
  rw [hids, heq] at hid
  exact absurd hid (by decide)

end OneRepair

end OsmPolygonWikidata.WikidataRecovery
