import OsmPolygonWikidata.Integrity.RollForward

/-! # The two Wikivoyage passes

`enforce_wikivoyage_integrity` of `augmentation/integrity.py`, beside the plan of
`augmentation/rejection_ledger.py`. Both keep the documents whose item is in a set of items, but the
sets are read differently: this pass takes the tags of the polygons as they are, the plan parses
them. `passesAgree_iff` says when this makes no difference.
-/

namespace OsmPolygonWikidata.Integrity

open Python

/-! ## The model -/

/-- `read_polygon_wikidata_set`: the tags that are there and not empty. -/
def polygonWikidataSet (polygons : List (Option String)) : List String :=
  polygons.filterMap (fun value => value.filter (fun tag => tag ≠ ""))

structure WikivoyageIntegrityResult where
  shard : String
  originalDocumentCount : Nat
  retainedDocumentCount : Nat
  rejectedDocumentCount : Nat
  originalSectionCount : Nat
  retainedSectionCount : Nat
  cascadedSectionCount : Nat
  rewrittenDocuments : Bool
  rewrittenSections : Bool
  rejections : List RejectionRecord

section

variable {D S : Type}

/-- `_partition_wikivoyage_sections`: the retained rows, how many were dropped, and how many for
each document. -/
def partitionWikivoyageSections (rejectedIds : List String) (rows : List (SectionRow S)) :
    List (SectionRow S) × Nat × (String → Nat) :=
  let (retained, cascades) := retainSections rejectedIds rows
  (retained, rows.countP (fun row => pyStr row.documentId ∈ rejectedIds), cascades)

/-- The key of the reported rejections. -/
def RejectionRecord.reportKey (r : RejectionRecord) : List String := [r.identifier, r.wikidata]

/-- `enforce_wikivoyage_integrity`, with the region that it leaves. Only tables that change are
written. -/
def enforceWikivoyageIntegrity (stem : String) (dryRun : Bool) (region : Region D S) :
    Except IntegrityError (WikivoyageIntegrityResult × Region D S) :=
  match region.polygons with
  | none => .error .polygonsMissing
  | some polygons =>
    match region.documents with
    | none => .error .documentsMissing
    | some documents =>
      let sections := region.sections.getD []
      let (retained, rejected) :=
        partitionWikivoyageDocuments (polygonWikidataSet polygons) documents
      let (retainedSections, cascaded, cascades) :=
        partitionWikivoyageSections (rejected.map Prod.fst) sections
      let rejections :=
        attachCascadeCounts (rejected.map (documentRejection stem)) cascades
      let rewrittenDocuments := decide (0 < rejections.length)
      let rewrittenSections := decide (0 < cascaded)
      .ok ({
        shard := stem
        originalDocumentCount := documents.length
        retainedDocumentCount := retained.length
        rejectedDocumentCount := rejections.length
        originalSectionCount := sections.length
        retainedSectionCount := retainedSections.length
        cascadedSectionCount := cascaded
        rewrittenDocuments := rewrittenDocuments
        rewrittenSections := rewrittenSections
        rejections := rejections.insertionSort (fun a b => a.reportKey ≤ b.reportKey) },
      { region with
        documents := if rewrittenDocuments ∧ ¬ dryRun then some retained else region.documents
        sections :=
          if rewrittenSections ∧ ¬ dryRun then some retainedSections else region.sections })

/-- A document and its item are reported with a number of sections. -/
def Reports (records : List RejectionRecord) (identifier wikidata : String) (cascaded : Int) :
    Prop :=
  ∃ r ∈ records, r.identifier = identifier ∧ r.wikidata = wikidata ∧ r.cascadedSections = cascaded

/-- Both passes return, keep the same documents and sections, and report the same rejections. -/
def PassesAgree (decimal : Char → Bool) (stem : String) (region : Region D S) : Prop :=
  ∃ plan result region', planIntegrityNormalization decimal stem region = .ok plan
    ∧ enforceWikivoyageIntegrity stem false region = .ok (result, region')
    ∧ region'.documents = some plan.retainedDocuments
    ∧ region'.sections.getD [] = plan.retainedSections
    ∧ ∀ identifier wikidata cascaded, Reports result.rejections identifier wikidata cascaded
        ↔ Reports plan.rejections identifier wikidata cascaded

/-- The item of a document is the whole tag of a polygon just when it is parsed from a tag, and the
plan can record the document if it is not. -/
def ReadAlike (decimal : Char → Bool) (stem : String) (polygons : List (Option String))
    (row : DocumentRow D) : Prop :=
  (pyStr row.wikidata ∈ polygonWikidataSet polygons
      ↔ pyStr row.wikidata ∈ polygonQids decimal polygons)
    ∧ (pyStr row.wikidata ∉ polygonQids decimal polygons →
      stem ≠ "" ∧ pyStr row.documentId ≠ "" ∧ validQid decimal (pyStr row.wikidata) = true)

end

/-! ## Records of one document -/

section

variable {decimal : Char → Bool} {stem : String} {records : List RejectionRecord}
  {r : RejectionRecord}

theorem valid_documentRejection_iff (rejected : String × String) :
    (documentRejection stem rejected).Valid decimal
      ↔ stem ≠ "" ∧ rejected.1 ≠ "" ∧ validQid decimal rejected.2 = true := by
  have htable : "wikivoyage_documents" ∈ supportedSourceTables := by decide
  have hreason : "wikidata_absent_from_polygons" ≠ "" := by decide
  unfold RejectionRecord.Valid RejectionRecord.postInit documentRejection
  by_cases hstem : stem = ""
  · simp [hstem]
  by_cases hidentifier : rejected.1 = ""
  · simp [hstem, hidentifier]
  simp [hstem, hidentifier, htable]

theorem reports_congr {records' : List RejectionRecord} (h : ∀ r, r ∈ records ↔ r ∈ records')
    (identifier wikidata : String) (cascaded : Int) :
    Reports records identifier wikidata cascaded ↔ Reports records' identifier wikidata cascaded :=
  exists_congr (fun r => and_congr_left (fun _ => h r))

end

/-! ## Agreement -/

section

variable {D S : Type} {decimal : Char → Bool} {stem : String}

variable (stem) in
/-- What is kept and reported for a set of items. -/
def keptBy (validQids : List String) (documents : List (DocumentRow D))
    (sections : List (SectionRow S)) : IntegrityPlan D S :=
  let (retained, rejected) := partitionWikivoyageDocuments validQids documents
  let (retainedSections, cascades) := retainSections (rejected.map Prod.fst) sections
  ⟨retained, retainedSections,
    mergeRecords (attachCascadeCounts (rejected.map (documentRejection stem)) cascades)⟩

theorem retainDocuments_eq_ok_iff {validQids : List String} {rows : List (DocumentRow D)}
    {result : List (DocumentRow D) × List String × List RejectionRecord} :
    retainDocuments decimal stem validQids rows = .ok result
      ↔ (∀ rejected ∈ (partitionWikivoyageDocuments validQids rows).2,
          (documentRejection stem rejected).Valid decimal)
        ∧ result = ((partitionWikivoyageDocuments validQids rows).1,
          (partitionWikivoyageDocuments validQids rows).2.map Prod.fst,
          (partitionWikivoyageDocuments validQids rows).2.map (documentRejection stem)) := by
  unfold retainDocuments
  have hmap : ∀ rejections, (partitionWikivoyageDocuments validQids rows).2.mapM
          (fun r => (documentRejection stem r).postInit decimal) = .ok rejections
        ↔ rejections = (partitionWikivoyageDocuments validQids rows).2.map (documentRejection stem)
          ∧ ∀ rejected ∈ (partitionWikivoyageDocuments validQids rows).2,
            (documentRejection stem rejected).Valid decimal := by
    intro rejections
    have hcomp := @mapM_postInit_eq_ok decimal
      ((partitionWikivoyageDocuments validQids rows).2.map (documentRejection stem)) rejections
    rw [List.mapM_map, List.forall_mem_map] at hcomp
    exact hcomp
  dsimp only
  rw [bind_eq_ok]
  constructor
  · rintro ⟨rejections, hrejections, hresult⟩
    obtain ⟨rfl, hvalid⟩ := (hmap rejections).mp hrejections
    cases hresult
    exact ⟨hvalid, rfl⟩
  · rintro ⟨hvalid, rfl⟩
    exact ⟨_, (hmap _).mpr ⟨rfl, hvalid⟩, rfl⟩

theorem planIntegrityNormalization_eq_ok_iff {polygons : List (Option String)}
    {documents : List (DocumentRow D)} {sections : Option (List (SectionRow S))}
    {stemLedger ledger : Option LedgerFile} {plan : IntegrityPlan D S} :
    planIntegrityNormalization decimal stem ⟨some polygons, some documents, sections, stemLedger,
        ledger⟩ = .ok plan
      ↔ (∀ rejected ∈ (partitionWikivoyageDocuments (polygonQids decimal polygons) documents).2,
          (documentRejection stem rejected).Valid decimal)
        ∧ plan = keptBy stem (polygonQids decimal polygons) documents (sections.getD []) := by
  unfold planIntegrityNormalization
  dsimp only
  rw [bind_eq_ok]
  constructor
  · rintro ⟨retained, hretained, hplan⟩
    obtain ⟨hvalid, rfl⟩ := retainDocuments_eq_ok_iff.mp hretained
    cases hplan
    exact ⟨hvalid, rfl⟩
  · rintro ⟨hvalid, rfl⟩
    exact ⟨_, retainDocuments_eq_ok_iff.mpr ⟨hvalid, rfl⟩, rfl⟩

variable (stem) in
theorem enforced (polygons : List (Option String)) (documents : List (DocumentRow D))
    (sections : Option (List (SectionRow S))) (stemLedger ledger : Option LedgerFile) :
    ∃ result region', enforceWikivoyageIntegrity stem false ⟨some polygons, some documents,
        sections, stemLedger, ledger⟩ = .ok (result, region')
      ∧ region'.documents
        = some (keptBy stem (polygonWikidataSet polygons) documents
          (sections.getD [])).retainedDocuments
      ∧ region'.sections.getD []
        = (keptBy stem (polygonWikidataSet polygons) documents (sections.getD [])).retainedSections
      ∧ ∀ r, r ∈ result.rejections
        ↔ r ∈ (keptBy stem (polygonWikidataSet polygons) documents
          (sections.getD [])).rejections := by
  refine ⟨_, _, rfl, ?_, ?_, ?_⟩
  · change (if _ then _ else some documents) = _
    split
    · rfl
    · rename_i hnone
      -- nothing is rejected, so all documents are kept
      have hempty : (partitionWikivoyageDocuments (polygonWikidataSet polygons) documents).2
          = [] := by
        simpa [attachCascadeCounts] using hnone
      rw [partitionWikivoyageDocuments_eq, List.map_eq_nil_iff, List.filter_eq_nil_iff] at hempty
      have hall : documents.filter (fun row => pyStr row.wikidata ∈ polygonWikidataSet polygons)
          = documents := List.filter_eq_self.mpr (by simpa using hempty)
      unfold keptBy
      dsimp only
      rw [partitionWikivoyageDocuments_eq]
      exact congrArg some hall.symm
  · change (if _ then _ else sections).getD [] = _
    split
    · rfl
    · rename_i hnone
      have hkept := List.countP_eq_zero.mp (show (sections.getD []).countP (fun row =>
          pyStr row.documentId ∈ (partitionWikivoyageDocuments (polygonWikidataSet polygons)
            documents).2.map Prod.fst) = 0 by
        simpa [partitionWikivoyageSections] using hnone)
      unfold keptBy
      dsimp only
      rw [retainSections_fst]
      exact (List.filter_eq_self.mpr (by simpa using hkept)).symm
  · intro r
    exact ((List.perm_insertionSort _ _).mem_iff).trans
      (mem_mergeRecords_iff (attachCascadeCounts_injective _ _)).symm

theorem keptBy_congr {validQids validQids' : List String} {documents : List (DocumentRow D)}
    (h : ∀ row ∈ documents, pyStr row.wikidata ∈ validQids ↔ pyStr row.wikidata ∈ validQids')
    (sections : List (SectionRow S)) :
    keptBy stem validQids documents sections = keptBy stem validQids' documents sections := by
  have hpart : partitionWikivoyageDocuments validQids documents
      = partitionWikivoyageDocuments validQids' documents := by
    rw [partitionWikivoyageDocuments_eq, partitionWikivoyageDocuments_eq]
    congr 1
    · exact List.filter_congr (fun row hrow => decide_eq_decide.mpr (h row hrow))
    · congr 1
      exact List.filter_congr (fun row hrow => decide_eq_decide.mpr (not_congr (h row hrow)))
  unfold keptBy
  rw [hpart]

/-- **When the two passes agree.** -/
theorem passesAgree_iff (polygons : List (Option String)) (documents : List (DocumentRow D))
    (sections : Option (List (SectionRow S))) (stemLedger ledger : Option LedgerFile) :
    PassesAgree decimal stem ⟨some polygons, some documents, sections, stemLedger, ledger⟩
      ↔ ∀ row ∈ documents, ReadAlike decimal stem polygons row := by
  obtain ⟨result, region', henforced, hdocuments, hsections, hrejections⟩ :=
    enforced stem polygons documents sections stemLedger ledger
  constructor
  · rintro ⟨plan, result₀, region₀, hplan, henforced₀, hdocuments₀, -, -⟩ row hrow
    obtain ⟨hvalid, rfl⟩ := planIntegrityNormalization_eq_ok_iff.mp hplan
    cases henforced.symm.trans henforced₀
    have hkept : (partitionWikivoyageDocuments (polygonWikidataSet polygons) documents).1
        = (partitionWikivoyageDocuments (polygonQids decimal polygons) documents).1 :=
      Option.some.inj (hdocuments.symm.trans hdocuments₀)
    rw [partitionWikivoyageDocuments_eq, partitionWikivoyageDocuments_eq] at hkept
    dsimp only at hkept
    refine ⟨?_, ?_⟩
    · have hmem : row ∈ documents.filter
            (fun row => pyStr row.wikidata ∈ polygonWikidataSet polygons)
          ↔ row ∈ documents.filter
            (fun row => pyStr row.wikidata ∈ polygonQids decimal polygons) := by
        rw [hkept]
      simpa [hrow] using hmem
    · intro habsent
      refine (valid_documentRejection_iff _).mp (hvalid (pyStr row.documentId, pyStr row.wikidata) ?_)
      rw [partitionWikivoyageDocuments_eq]
      exact List.mem_map.mpr ⟨row, List.mem_filter.mpr ⟨hrow, by simpa using habsent⟩, rfl⟩
  · intro hread
    refine ⟨_, result, region', planIntegrityNormalization_eq_ok_iff.mpr ⟨?_, rfl⟩, henforced, ?_,
      ?_, ?_⟩
    · intro rejected hrejected
      rw [partitionWikivoyageDocuments_eq] at hrejected
      obtain ⟨row, hrow, rfl⟩ := List.mem_map.mp hrejected
      have hrow := List.mem_filter.mp hrow
      exact (valid_documentRejection_iff _).mpr ((hread row hrow.1).2 (by simpa using hrow.2))
    all_goals rw [← keptBy_congr (fun row hrow => (hread row hrow).1) (sections.getD [])]
    · exact hdocuments
    · exact hsections
    · exact reports_congr hrejections

end

/-! ## A polygon of two items -/

namespace TwoItems

/-- A polygon of two items, and a document of one of them with a section. -/
def region : Region Unit Unit :=
  ⟨some [some "Q1;Q2"], some [⟨some "voyage:1", some "Q1", ()⟩],
    some [⟨some "voyage:1", ()⟩], none, none⟩

/-- The plan keeps the document that the other pass rejects. -/
theorem passes_disagree : ¬ PassesAgree Char.isDigit "alpha-latest" region := by
  rintro ⟨plan, result, region', hplan, henforced, hdocuments, -, -⟩
  have hplanned := (planIntegrityNormalization_eq_ok_iff.mp hplan).2
  cases henforced
  rw [hplanned] at hdocuments
  revert hdocuments
  decide +kernel

end TwoItems

end OsmPolygonWikidata.Integrity
