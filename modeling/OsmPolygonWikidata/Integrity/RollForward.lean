import OsmPolygonWikidata.Integrity.MergedRecords

/-! # Rolling an interrupted normalisation forward

A plan finds rejections in the documents table, and applying it replaces that table first. A run
that is stopped after this finds no rejections any more: it keeps the sections that are there, and
it overwrites the region's ledger with an empty one before it merges it. So the next run gives the
result of an uninterrupted one when the documents were not replaced yet, or when nothing that the
plan knew is missing from the sections and from the cumulative ledger.
-/

namespace OsmPolygonWikidata.Integrity

open Durable Python

/-! ## Valid records -/

section

variable {decimal : Char → Bool}

/-- The record passes the checks of its constructor. -/
def RejectionRecord.Valid (decimal : Char → Bool) (r : RejectionRecord) : Prop :=
  r.postInit decimal = .ok r

variable {r : RejectionRecord}

theorem RejectionRecord.Valid.withCascades (h : r.Valid decimal) {n : Int} (hn : 0 ≤ n) :
    ({ r with cascadedSections := n } : RejectionRecord).Valid decimal := by
  unfold RejectionRecord.Valid RejectionRecord.postInit at h ⊢
  have hn' : ¬ n < 0 := Int.not_lt.mpr hn
  dsimp only
  split at h <;> try cases h
  split at h <;> try cases h
  split at h <;> try cases h
  split at h <;> try cases h
  split at h <;> try cases h
  rename_i h1 h2 h3 h4 h5
  rw [if_neg h1, if_neg h2, if_neg h3, if_neg h4, if_neg h5]
  split at h
  · split at h
    · cases h
    · rename_i h6
      simp only [if_neg h6, if_neg hn']
  · simp only [if_neg hn']

theorem RejectionRecord.Valid.cascades_nonneg (h : r.Valid decimal) : 0 ≤ r.cascadedSections := by
  unfold RejectionRecord.Valid RejectionRecord.postInit at h
  repeat' split at h
  all_goals first
    | cases h; done
    | omega

theorem postInit_eq_ok {r' : RejectionRecord} (h : r.postInit decimal = .ok r') : r' = r := by
  unfold RejectionRecord.postInit at h
  repeat' split at h
  all_goals cases h
  all_goals rfl

theorem mapM_postInit_eq_ok {records records' : List RejectionRecord} :
    records.mapM (RejectionRecord.postInit decimal) = .ok records'
      ↔ records' = records ∧ ∀ r ∈ records, r.Valid decimal := by
  induction records generalizing records' with
  | nil =>
    rw [List.mapM_nil]
    constructor
    · intro h
      cases h
      exact ⟨rfl, by simp⟩
    · rintro ⟨rfl, -⟩
      rfl
  | cons r records ih =>
    rw [List.mapM_cons, bind_eq_ok]
    constructor
    · rintro ⟨r₁, hr, hrest⟩
      obtain ⟨rest, hmap, hcons⟩ := bind_eq_ok.mp hrest
      obtain ⟨rfl, hvalid⟩ := ih.mp hmap
      cases hcons
      obtain rfl := postInit_eq_ok hr
      refine ⟨rfl, fun x hx => ?_⟩
      rcases List.mem_cons.mp hx with rfl | hx
      · exact hr
      · exact hvalid x hx
    · rintro ⟨rfl, hvalid⟩
      refine ⟨r, hvalid r List.mem_cons_self, bind_eq_ok.mpr ⟨records, ?_, rfl⟩⟩
      exact ih.mpr ⟨rfl, fun x hx => hvalid x (List.mem_cons_of_mem _ hx)⟩

theorem valid_mergeRecord {l : List RejectionRecord} (hr : r.Valid decimal)
    (hl : ∀ x ∈ l, x.Valid decimal) : ∀ x ∈ mergeRecord r l, x.Valid decimal := by
  induction l with
  | nil =>
    intro x hx
    rw [List.mem_singleton.mp hx]
    exact hr
  | cons y l ih =>
    have hy := hl y List.mem_cons_self
    have hrest : ∀ x ∈ l, x.Valid decimal := fun x hx => hl x (List.mem_cons_of_mem _ hx)
    intro x hx
    rw [mergeRecord] at hx
    split at hx
    · rcases List.mem_cons.mp hx with rfl | hx
      · exact hy.withCascades (hy.cascades_nonneg.trans (le_max_left _ _))
      · exact hrest x hx
    · rcases List.mem_cons.mp hx with rfl | hx
      · exact hy
      · exact ih hrest x hx

theorem valid_mergeRecords {records : List RejectionRecord}
    (h : ∀ r ∈ records, r.Valid decimal) : ∀ r ∈ mergeRecords records, r.Valid decimal := by
  have hdict : ∀ r ∈ byIdentity records, r.Valid decimal := by
    induction records using List.reverseRecOn with
    | nil => simp [byIdentity]
    | append_singleton records r ih =>
      rw [byIdentity_concat]
      refine valid_mergeRecord (h r (by simp)) (ih ?_)
      exact fun x hx => h x (List.mem_append_left _ hx)
  exact fun r hr => hdict r ((perm_sortRecords _).mem_iff.mp hr)

end

/-! ## Plans -/

section

variable {D S : Type} {decimal : Char → Bool} {stem : String}

theorem partitionWikivoyageDocuments_eq (validQids : List String) (rows : List (DocumentRow D)) :
    partitionWikivoyageDocuments validQids rows
      = (rows.filter (fun row => pyStr row.wikidata ∈ validQids),
        (rows.filter (fun row => pyStr row.wikidata ∉ validQids)).map
          (fun row => (pyStr row.documentId, pyStr row.wikidata))) := by
  induction rows with
  | nil => rfl
  | cons row rows ih =>
    rw [partitionWikivoyageDocuments, ih]
    by_cases h : pyStr row.wikidata ∈ validQids
    · simp [h]
    · simp [h]

theorem retainSections_fst (rejectedIds : List String) (rows : List (SectionRow S)) :
    (retainSections rejectedIds rows).1
      = rows.filter (fun row => pyStr row.documentId ∉ rejectedIds) := by
  induction rows with
  | nil => rfl
  | cons row rows ih =>
    rw [retainSections]
    by_cases h : pyStr row.documentId ∈ rejectedIds
    · simp [h, ih]
    · simp [h, ih]

theorem retainSections_snd {rejectedIds : List String} {id : String} (h : id ∈ rejectedIds)
    (rows : List (SectionRow S)) :
    (retainSections rejectedIds rows).2 id = rows.countP (fun row => pyStr row.documentId = id) := by
  induction rows with
  | nil => rfl
  | cons row rows ih =>
    rw [retainSections, List.countP_cons]
    by_cases hid : pyStr row.documentId = id
    · simp [hid, h, ih]
    · by_cases hrow : pyStr row.documentId ∈ rejectedIds
      · simp [hid, Ne.symm hid, hrow, ih]
      · simp [hid, hrow, ih]

theorem attachCascadeCounts_injective (rejected : List (String × String))
    (cascades : String → Nat) :
    ∀ x ∈ attachCascadeCounts (rejected.map (documentRejection stem)) cascades,
      ∀ y ∈ attachCascadeCounts (rejected.map (documentRejection stem)) cascades,
        x.identity = y.identity → x = y := by
  intro x hx y hy hsame
  unfold attachCascadeCounts at hx hy
  rw [List.map_map, List.mem_map] at hx hy
  obtain ⟨⟨i, w⟩, -, rfl⟩ := hx
  obtain ⟨⟨i', w'⟩, -, rfl⟩ := hy
  simp only [Function.comp_apply, documentRejection, RejectionRecord.identity, Prod.mk.injEq]
    at hsame
  obtain ⟨-, -, rfl, rfl, -⟩ := hsame
  rfl

variable (decimal) in
/-- A document of the region whose item no polygon carries. -/
def Rejects (t : Region D S) (document : DocumentRow D) : Prop :=
  document ∈ t.documents.getD []
    ∧ pyStr document.wikidata ∉ polygonQids decimal (t.polygons.getD [])

variable (stem) in
/-- What is to be recorded of a rejected document: its item, and how many sections it has. -/
def rejectionRecord (t : Region D S) (document : DocumentRow D) : RejectionRecord :=
  { shard := stem
    sourceTable := "wikivoyage_documents"
    identifier := pyStr document.documentId
    wikidata := pyStr document.wikidata
    expected := none
    reason := "wikidata_absent_from_polygons"
    cascadedSections := (t.sections.getD []).countP
      (fun row => pyStr row.documentId = pyStr document.documentId) }

variable (decimal) in
/-- The identifiers of the rejected documents. -/
def rejectedIds (region : Region D S) : List String :=
  (partitionWikivoyageDocuments (polygonQids decimal (region.polygons.getD []))
    (region.documents.getD [])).2.map Prod.fst

theorem mem_rejectedIds {t : Region D S} {id : String} :
    id ∈ rejectedIds decimal t
      ↔ ∃ document, Rejects decimal t document ∧ pyStr document.documentId = id := by
  rw [rejectedIds, partitionWikivoyageDocuments_eq, List.map_map]
  simp [Rejects]

variable (decimal stem) in
/-- What a plan is made of. -/
structure Planned (region : Region D S) (plan : IntegrityPlan D S) : Prop where
  documents : ∃ polygons documents, region.polygons = some polygons
    ∧ region.documents = some documents
    ∧ plan.retainedDocuments
      = documents.filter (fun row => pyStr row.wikidata ∈ polygonQids decimal polygons)
  sections : plan.retainedSections = (region.sections.getD []).filter
    (fun row => pyStr row.documentId ∉ rejectedIds decimal region)
  merged : mergeRecords plan.rejections = plan.rejections
  valid : ∀ r ∈ plan.rejections, r.Valid decimal
  rejections : ∀ r, r ∈ plan.rejections
    ↔ ∃ document, Rejects decimal region document ∧ rejectionRecord stem region document = r

variable {plan : IntegrityPlan D S}

theorem planned {region : Region D S}
    (h : planIntegrityNormalization decimal stem region = .ok plan) :
    Planned decimal stem region plan := by
  unfold planIntegrityNormalization at h
  cases hp : region.polygons with
  | none =>
    rw [hp] at h
    cases h
  | some polygons =>
    cases hd : region.documents with
    | none =>
      rw [hp, hd] at h
      cases h
    | some documents =>
      simp only [hp, hd] at h
      obtain ⟨⟨retained, ids, rejections⟩, hretain, hplan⟩ := bind_eq_ok.mp h
      unfold retainDocuments at hretain
      obtain ⟨rejections', hmap, hpair⟩ := bind_eq_ok.mp hretain
      cases hpair
      cases hplan
      have hmap' : ((partitionWikivoyageDocuments (polygonQids decimal polygons) documents).2.map
          (documentRejection stem)).mapM (RejectionRecord.postInit decimal) = .ok rejections := by
        rw [List.mapM_map]
        exact hmap
      obtain ⟨rfl, hvalid⟩ := mapM_postInit_eq_ok.mp hmap'
      have hids : rejectedIds decimal region
          = (partitionWikivoyageDocuments (polygonQids decimal polygons) documents).2.map
            Prod.fst := by
        rw [rejectedIds, hp, hd]
        rfl
      refine ⟨⟨polygons, documents, hp, hd, ?_⟩, ?_, mergeRecords_idem _, ?_, fun r => ?_⟩
      · rw [partitionWikivoyageDocuments_eq]
      · rw [hids]
        exact retainSections_fst _ _
      · refine valid_mergeRecords ?_
        intro r hr
        obtain ⟨r₀, hr₀, rfl⟩ := List.mem_map.mp hr
        exact (hvalid r₀ hr₀).withCascades (Int.natCast_nonneg _)
      · -- the count that is attached is that of the sections that are dropped
        have hrecord : ∀ document, Rejects decimal region document →
            ({ documentRejection stem (pyStr document.documentId, pyStr document.wikidata) with
              cascadedSections := (retainSections (rejectedIds decimal region)
                (region.sections.getD [])).2 (pyStr document.documentId) } : RejectionRecord)
            = rejectionRecord stem region document := by
          intro document hrejects
          rw [retainSections_snd (mem_rejectedIds.mpr ⟨document, hrejects, rfl⟩)]
          rfl
        rw [mem_mergeRecords_iff (attachCascadeCounts_injective _ _), ← hids]
        unfold attachCascadeCounts
        rw [partitionWikivoyageDocuments_eq, List.map_map, List.map_map, List.mem_map]
        refine exists_congr fun document => ?_
        have hmem : document ∈ documents.filter
              (fun row => pyStr row.wikidata ∉ polygonQids decimal polygons)
            ↔ Rejects decimal region document := by
          rw [Rejects, hp, hd]
          simp
        rw [hmem]
        refine and_congr_right fun hrejects => ?_
        rw [← hrecord document hrejects]
        rfl

theorem Planned.rejects_none {region : Region D S} (h : Planned decimal stem region plan)
    (hdocs : region.documents = some plan.retainedDocuments) (document : DocumentRow D) :
    ¬ Rejects decimal region document := by
  obtain ⟨polygons, documents, hp, hd, hkept⟩ := h.documents
  rintro ⟨hmem, habsent⟩
  rw [hdocs, hkept, Option.getD_some, List.mem_filter] at hmem
  rw [hp] at habsent
  exact habsent (by simpa using hmem.2)

/-- A plan records only what is expected of no polygon, for one reason. -/
theorem Planned.uniform {region : Region D S} (h : Planned decimal stem region plan)
    {r : RejectionRecord} (hr : r ∈ plan.rejections) :
    r.expected = none ∧ r.reason = "wikidata_absent_from_polygons" := by
  obtain ⟨document, -, rfl⟩ := (h.rejections r).mp hr
  exact ⟨rfl, rfl⟩

theorem planIntegrityNormalization_clean {region : Region D S} {polygons : List (Option String)}
    {documents : List (DocumentRow D)} (hp : region.polygons = some polygons)
    (hd : region.documents = some documents)
    (hclean : ∀ row ∈ documents, pyStr row.wikidata ∈ polygonQids decimal polygons) :
    planIntegrityNormalization decimal stem region = .ok ⟨documents, region.sections.getD [], []⟩ := by
  have hpart : partitionWikivoyageDocuments (polygonQids decimal polygons) documents
      = (documents, []) := by
    rw [partitionWikivoyageDocuments_eq, List.filter_eq_self.mpr (by simpa using hclean),
      List.filter_eq_nil_iff.mpr (by simpa using hclean)]
    rfl
  have hretain : retainDocuments decimal stem (polygonQids decimal polygons) documents
      = .ok (documents, [], []) := by
    unfold retainDocuments
    rw [hpart]
    rfl
  have hsections : (retainSections [] (region.sections.getD [])).1 = region.sections.getD [] := by
    rw [retainSections_fst]
    simp
  simp only [planIntegrityNormalization, hp, hd, hretain, bind, Except.bind]
  rw [hsections]
  rfl

/-! ## Applying a plan -/

variable (decimal) in
/-- The ledger file loads as these records; one that is not there holds none. -/
def Loads (file : Option LedgerFile) (records : List RejectionRecord) : Prop :=
  (file.map (loadLedger decimal)).getD (.ok []) = .ok records

variable {records : List RejectionRecord}

theorem loads_records (h : ∀ r ∈ records, r.Valid decimal) :
    Loads decimal (some (.records records)) records :=
  mapM_postInit_eq_ok.mpr ⟨rfl, h⟩

variable {file : Option LedgerFile}

theorem Loads.valid (h : Loads decimal file records) : ∀ r ∈ records, r.Valid decimal := by
  cases file with
  | none =>
    cases h
    simp
  | some file =>
    cases file with
    | malformed => cases h
    | foreign => cases h
    | records l =>
      obtain ⟨rfl, hvalid⟩ := mapM_postInit_eq_ok.mp h
      exact hvalid

theorem Loads.not_malformed (h : Loads decimal file records) : file ≠ some .malformed := by
  rintro rfl
  cases h

variable {s : Region D S}

theorem saveLedger_wp {write : LedgerFile → Region D S → Region D S} {Q : Unit → Region D S → Prop}
    {E : IntegrityError → Region D S → Prop} {K : Region D S → Prop}
    (hfile : file ≠ some .malformed) (hK : K s)
    (hQ : Q () (write (.records (sortRecords records)) s))
    (hsame : file = some (.records (sortRecords records)) →
      write (.records (sortRecords records)) s = s) :
    Prog.wp (saveLedger file write records) Q E K s := by
  unfold saveLedger
  split
  · exact absurd rfl hfile
  · split
    · rename_i existing _ heq
      rw [hsame (by rw [heq])] at hQ
      exact hQ
    · exact ⟨hK, hQ⟩
  · exact ⟨hK, hQ⟩

/-- The region while a plan is applied: in front of each write, and after the last. -/
structure Stages (plan : IntegrityPlan D S) (s s' : Region D S) : Prop where
  polygons : s'.polygons = s.polygons
  stem : s.stemLedger ≠ some .malformed → s'.stemLedger ≠ some .malformed
  stage : (s'.documents = s.documents ∧ s'.sections = s.sections ∧ s'.ledger = s.ledger)
    ∨ (s'.documents = some plan.retainedDocuments
      ∧ (s'.sections = s.sections ∨ s'.sections = some plan.retainedSections)
      ∧ s'.ledger = s.ledger)

/-- **Applying a plan**, stopped anywhere. -/
theorem normalize_wp (hplan : planIntegrityNormalization decimal stem s = .ok plan)
    (hstem : s.stemLedger ≠ some .malformed) (hledger : Loads decimal s.ledger records) :
    Prog.wp (normalize decimal stem)
      (fun _ s' => s'.polygons = s.polygons ∧ s'.stemLedger ≠ some .malformed
        ∧ s'.documents = some plan.retainedDocuments ∧ s'.sections = some plan.retainedSections
        ∧ s'.ledger = some (.records (mergeRecords (plan.rejections ++ records))))
      (fun _ _ => False) (Stages plan s) s := by
  have hp := planned hplan
  have hrej : sortRecords plan.rejections = plan.rejections := by
    rw [← hp.merged]
    exact sortRecords_mergeRecords _
  simp only [normalize, applyIntegrityNormalization, writeIntegrityLedgers, Prog.wp_bind,
    Prog.wp_get, Prog.wp_step, hplan, lift, Prog.wp_pure]
  refine ⟨⟨rfl, id, Or.inl ⟨rfl, rfl, rfl⟩⟩, ⟨rfl, id, Or.inr ⟨rfl, Or.inl rfl, rfl⟩⟩, ?_⟩
  refine saveLedger_wp hstem ⟨rfl, id, Or.inr ⟨rfl, Or.inr rfl, rfl⟩⟩ ?_ ?_
  swap
  · intro heq
    dsimp only at heq ⊢
    rw [← heq]
  -- the region's ledger is read back and merged with the cumulative one
  have hload : Loads decimal (some (.records plan.rejections)) plan.rejections :=
    loads_records hp.valid
  unfold Loads at hload hledger
  dsimp only
  rw [hrej, hload]
  simp only [Prog.wp_pure, hledger]
  refine saveLedger_wp (Loads.not_malformed hledger) ?_ ?_ ?_
  · exact ⟨rfl, fun _ => by simp, Or.inr ⟨rfl, Or.inr rfl, rfl⟩⟩
  · exact ⟨rfl, by simp, rfl, rfl, by rw [sortRecords_mergeRecords]⟩
  · intro heq
    dsimp only at heq ⊢
    rw [← heq]

theorem normalize_returns {s s' : Region D S}
    (h : Prog.run (normalize decimal stem) s = (.ok (), s')) :
    ∃ plan records, planIntegrityNormalization decimal stem s = .ok plan
      ∧ s.stemLedger ≠ some .malformed ∧ Loads decimal s.ledger records := by
  cases hplan : planIntegrityNormalization decimal stem s with
  | error e =>
    simp [normalize, Prog.run_bind, hplan, lift] at h
  | ok plan =>
    have hp := planned hplan
    have hrej : sortRecords plan.rejections = plan.rejections := by
      rw [← hp.merged]
      exact sortRecords_mergeRecords _
    have hload : Loads decimal (some (.records plan.rejections)) plan.rejections :=
      loads_records hp.valid
    unfold Loads at hload
    by_cases hstem : s.stemLedger = some .malformed
    · simp [normalize, applyIntegrityNormalization, writeIntegrityLedgers, Prog.run_bind, hplan,
        lift, saveLedger, hstem] at h
    · cases hl : (s.ledger.map (loadLedger decimal)).getD (.ok []) with
      | ok records => exact ⟨plan, records, rfl, hstem, hl⟩
      | error e =>
        exfalso
        have hwp : Prog.wp (normalize decimal stem) (fun _ _ => False) (fun _ _ => True)
            (fun _ => True) s := by
          simp only [normalize, applyIntegrityNormalization, writeIntegrityLedgers,
            Prog.wp_bind, Prog.wp_get, Prog.wp_step, hplan, lift, Prog.wp_pure]
          refine ⟨trivial, trivial, saveLedger_wp hstem trivial ?_ ?_⟩
          · dsimp only
            rw [hrej, hload]
            simp only [Prog.wp_pure, hl, Prog.wp_raise]
          · intro heq
            dsimp only at heq ⊢
            rw [← heq]
        have := Prog.wp_run hwp
        rw [h] at this
        exact this

/-! ## Interrupted runs -/

variable (decimal stem) in
/-- What normalisations leave that were stopped one after the other, each in front of any of its
writes or after the last. -/
inductive Interrupted (t : Region D S) : Region D S → Prop where
  | start : Interrupted t t
  | stop {t' : Region D S} (n : Nat) (h : Interrupted t t') :
      Interrupted t (Prog.exec (normalize decimal stem) n t').state

/-- The region after interrupted runs: nothing was replaced yet, or the documents were, and the
cumulative ledger has the rejections or not. -/
structure Mixed (decimal : Char → Bool) (t : Region D S) (plan : IntegrityPlan D S)
    (records : List RejectionRecord) (t' : Region D S) : Prop where
  polygons : t'.polygons = t.polygons
  stem : t'.stemLedger ≠ some .malformed
  tables : (t'.documents = t.documents ∧ t'.sections = t.sections ∧ t'.ledger = t.ledger)
    ∨ (t'.documents = some plan.retainedDocuments
      ∧ (t'.sections.getD [] = t.sections.getD [] ∨ t'.sections.getD [] = plan.retainedSections)
      ∧ ∃ records', Loads decimal t'.ledger records'
        ∧ (mergeRecords records' = mergeRecords (plan.rejections ++ records)
          ∨ mergeRecords records' = mergeRecords records))

variable {t t' : Region D S} {plan : IntegrityPlan D S} {records : List RejectionRecord}

theorem Planned.again (hp : Planned decimal stem t plan) (hpoly : t'.polygons = t.polygons)
    (hdocs : t'.documents = some plan.retainedDocuments) :
    planIntegrityNormalization decimal stem t'
      = .ok ⟨plan.retainedDocuments, t'.sections.getD [], []⟩ := by
  obtain ⟨polygons, documents, h1, -, h3⟩ := hp.documents
  refine planIntegrityNormalization_clean (hpoly.trans h1) hdocs ?_
  intro row hrow
  rw [h3, List.mem_filter] at hrow
  simpa using hrow.2

theorem plan_congr (hpoly : t'.polygons = t.polygons) (hdocs : t'.documents = t.documents)
    (hsec : t'.sections = t.sections) :
    planIntegrityNormalization decimal stem t' = planIntegrityNormalization decimal stem t := by
  unfold planIntegrityNormalization
  rw [hpoly, hdocs, hsec]

theorem normalize_stopped (n : Nat) (hplan : planIntegrityNormalization decimal stem s = .ok plan)
    (hstem : s.stemLedger ≠ some .malformed) (hledger : Loads decimal s.ledger records) :
    Stages plan s (Prog.exec (normalize decimal stem) n s).state
    ∨ (Prog.exec (normalize decimal stem) n s).state.polygons = s.polygons
      ∧ (Prog.exec (normalize decimal stem) n s).state.stemLedger ≠ some .malformed
      ∧ (Prog.exec (normalize decimal stem) n s).state.documents = some plan.retainedDocuments
      ∧ (Prog.exec (normalize decimal stem) n s).state.sections = some plan.retainedSections
      ∧ (Prog.exec (normalize decimal stem) n s).state.ledger
        = some (.records (mergeRecords (plan.rejections ++ records))) := by
  have hmeets := Prog.wp_exec (normalize_wp hplan hstem hledger) n
  revert hmeets
  cases Prog.exec (normalize decimal stem) n s with
  | done _ s' => exact Or.inr
  | raised _ s' => exact False.elim
  | killed s' => exact Or.inl

/-- **One more interrupted run.** -/
theorem Mixed.stop (h : Mixed decimal t plan records t') (n : Nat)
    (hplan : planIntegrityNormalization decimal stem t = .ok plan)
    (hledger : Loads decimal t.ledger records) :
    Mixed decimal t plan records (Prog.exec (normalize decimal stem) n t').state := by
  have hp := planned hplan
  rcases h.tables with ⟨hdocs, hsec, hled⟩ | ⟨hdocs, hsec, records', hload, hmerge⟩
  · -- nothing was replaced: the same plan is applied
    have hplan' := (plan_congr h.polygons hdocs hsec).trans hplan
    rcases normalize_stopped n hplan' h.stem (by rw [hled]; exact hledger)
      with hst | ⟨h1, h2, h3, h4, h5⟩
    · refine ⟨hst.polygons.trans h.polygons, hst.stem h.stem, ?_⟩
      rcases hst.stage with ⟨h1, h2, h3⟩ | ⟨h1, h2, h3⟩
      · exact Or.inl ⟨h1.trans hdocs, h2.trans hsec, h3.trans hled⟩
      · refine Or.inr ⟨h1, ?_, records, by rw [h3, hled]; exact hledger, Or.inr rfl⟩
        rcases h2 with h2 | h2
        · exact Or.inl (by rw [h2, hsec])
        · exact Or.inr (by rw [h2]; rfl)
    · refine ⟨h1.trans h.polygons, h2, Or.inr ⟨h3, Or.inr (by rw [h4]; rfl),
        mergeRecords (plan.rejections ++ records), ?_, Or.inl ?_⟩⟩
      · rw [h5]
        refine loads_records (valid_mergeRecords ?_)
        intro r hr
        exact (List.mem_append.mp hr).elim (hp.valid r) (hledger.valid r)
      · exact mergeRecords_idem _
  · -- the documents were replaced: the plan rejects nothing
    rcases normalize_stopped n (hp.again h.polygons hdocs) h.stem hload
      with hst | ⟨h1, h2, h3, h4, h5⟩
    · refine ⟨hst.polygons.trans h.polygons, hst.stem h.stem, Or.inr ?_⟩
      rcases hst.stage with ⟨h1, h2, h3⟩ | ⟨h1, h2, h3⟩
      · exact ⟨h1.trans hdocs, by rw [h2]; exact hsec, records', by rw [h3]; exact hload, hmerge⟩
      · refine ⟨h1, ?_, records', by rw [h3]; exact hload, hmerge⟩
        rcases h2 with h2 | h2
        · rw [h2]
          exact hsec
        · rw [h2]
          exact hsec
    · refine ⟨h1.trans h.polygons, h2, Or.inr ⟨h3, by rw [h4]; exact hsec,
        mergeRecords records', ?_, ?_⟩⟩
      · rw [h5]
        exact loads_records (valid_mergeRecords hload.valid)
      · rw [mergeRecords_idem]
        exact hmerge

theorem Interrupted.mixed (hplan : planIntegrityNormalization decimal stem t = .ok plan)
    (hstem : t.stemLedger ≠ some .malformed) (hledger : Loads decimal t.ledger records)
    (h : Interrupted decimal stem t t') : Mixed decimal t plan records t' := by
  induction h with
  | start => exact ⟨rfl, hstem, Or.inl ⟨rfl, rfl, rfl⟩⟩
  | stop n _ ih => exact ih.stop n hplan hledger

/-! ## Rolling forward -/

variable (decimal) in
/-- The records a ledger file loads as, or none. -/
def recordsOf (file : Option LedgerFile) : List RejectionRecord :=
  match (file.map (loadLedger decimal)).getD (.ok []) with
  | .ok records => records
  | .error _ => []

/-- The tables and the cumulative ledger agree. -/
def SameResult (t₁ t₂ : Region D S) : Prop :=
  t₂.documents = t₁.documents ∧ t₂.sections = t₁.sections ∧ t₂.ledger = t₁.ledger

variable (decimal stem) in
/-- What `t'` has of the rejected documents of `t`: no row, no section, and in the cumulative ledger
the record of each, merged with those of its identity that the ledger of `t` has. -/
structure Normalized (t t' : Region D S) : Prop where
  documents : ∀ document ∈ t'.documents.getD [], ¬ Rejects decimal t document
  sections : ∀ row ∈ t'.sections.getD [], ∀ document, Rejects decimal t document →
    pyStr row.documentId ≠ pyStr document.documentId
  recorded : ∀ document, Rejects decimal t document → ∃ r ∈ recordsOf decimal t'.ledger,
    r.identity = (rejectionRecord stem t document).identity
      ∧ Merged (rejectionRecord stem t document :: recordsOf decimal t.ledger) r

variable (decimal stem) in
/-- A normalisation of `t'` returns with the result of one of `t`, in which the documents that `t`
rejects are normalised. -/
def RollsForward (t t' : Region D S) : Prop :=
  ∃ t₁ t₂, Prog.run (normalize decimal stem) t = (.ok (), t₁)
    ∧ Prog.run (normalize decimal stem) t' = (.ok (), t₂) ∧ SameResult t₁ t₂
    ∧ Normalized decimal stem t t₂

variable (decimal stem) in
/-- The documents are not replaced yet, or no section of a rejected document is left and the
cumulative ledger absorbs what is to be recorded of each. -/
def NothingLost (t t' : Region D S) : Prop :=
  t'.documents = t.documents
    ∨ (∀ row ∈ t'.sections.getD [], ∀ document, Rejects decimal t document →
        pyStr row.documentId ≠ pyStr document.documentId)
      ∧ ∀ document, Rejects decimal t document →
        Absorbs (recordsOf decimal t'.ledger) (rejectionRecord stem t document)

theorem Loads.recordsOf (h : Loads decimal file records) :
    Integrity.recordsOf decimal file = records := by
  unfold Integrity.recordsOf
  unfold Loads at h
  rw [h]

theorem Normalized.congr {t₁ t₂ : Region D S} (h : Normalized decimal stem t t₁)
    (hsame : SameResult t₁ t₂) : Normalized decimal stem t t₂ := by
  obtain ⟨hdocs, hsec, hled⟩ := hsame
  refine ⟨?_, ?_, ?_⟩
  · rw [hdocs]
    exact h.documents
  · rw [hsec]
    exact h.sections
  · rw [hled]
    exact h.recorded

theorem sections_filter_iff {rows : List (SectionRow S)} :
    (∀ row ∈ rows, pyStr row.documentId ∉ rejectedIds decimal t)
      ↔ ∀ row ∈ rows, ∀ document, Rejects decimal t document →
        pyStr row.documentId ≠ pyStr document.documentId := by
  refine forall₂_congr fun row _ => ?_
  rw [mem_rejectedIds, not_exists]
  exact forall_congr' fun document =>
    ⟨fun h hrejects heq => h ⟨hrejects, heq.symm⟩, fun h ⟨hrejects, heq⟩ => h hrejects heq.symm⟩

/-- **What an uninterrupted run leaves.** -/
theorem Planned.normalized (hp : Planned decimal stem t plan) (hledger : Loads decimal t.ledger records)
    {t₁ : Region D S} (hdocs : t₁.documents = some plan.retainedDocuments)
    (hsec : t₁.sections = some plan.retainedSections)
    (hled : t₁.ledger = some (.records (mergeRecords (plan.rejections ++ records)))) :
    Normalized decimal stem t t₁ := by
  refine ⟨fun document hmem => ?_, ?_, fun document hrejects => ?_⟩
  · obtain ⟨polygons, documents, hpolygons, -, hkept⟩ := hp.documents
    rw [hdocs, hkept, Option.getD_some, List.mem_filter] at hmem
    rintro ⟨-, habsent⟩
    rw [hpolygons] at habsent
    exact habsent (by simpa using hmem.2)
  · rw [hsec, Option.getD_some, hp.sections]
    refine sections_filter_iff.mp fun row hrow => ?_
    simpa using (List.mem_filter.mp hrow).2
  · have hvalid : ∀ r ∈ plan.rejections ++ records, r.Valid decimal := fun r hr =>
      (List.mem_append.mp hr).elim (hp.valid r) (hledger.valid r)
    rw [hled, (loads_records (valid_mergeRecords hvalid)).recordsOf, hledger.recordsOf]
    have hplanned : rejectionRecord stem t document ∈ plan.rejections :=
      (hp.rejections _).mpr ⟨document, hrejects, rfl⟩
    obtain ⟨r, hr, hid⟩ := List.mem_map.mp (mem_map_byIdentity.mpr
      (List.mem_map_of_mem (List.mem_append_left records hplanned)))
    refine ⟨r, (perm_sortRecords _).mem_iff.mpr hr, hid, ?_⟩
    -- the plan has no other record of this identity
    have honly : ∀ x ∈ plan.rejections, x.identity = r.identity →
        x = rejectionRecord stem t document := by
      intro x hx hxid
      obtain ⟨other, -, rfl⟩ := (hp.rejections x).mp hx
      have hsame := hxid.trans hid
      simp only [RejectionRecord.identity, rejectionRecord, Prod.mk.injEq] at hsame
      obtain ⟨-, -, hidentifier, hwikidata, -⟩ := hsame
      rw [rejectionRecord, rejectionRecord, hidentifier, hwikidata]
    have hback : ∀ x ∈ plan.rejections ++ records, x.identity = r.identity →
        x ∈ rejectionRecord stem t document :: records := by
      intro x hx hxid
      rcases List.mem_append.mp hx with hx | hx
      · rw [honly x hx hxid]
        exact List.mem_cons_self
      · exact List.mem_cons_of_mem _ hx
    obtain ⟨⟨x, hx, hxid, hcascades⟩, hle, y, hy, hyid, hreason⟩ := merged_of_mem hr
    refine ⟨⟨x, hback x hx hxid, hxid, hcascades⟩, fun z hz => hle z ?_, y, hback y hy hyid, hyid,
      hreason⟩
    rcases List.mem_cons.mp hz with rfl | hz
    · exact List.mem_append_left _ hplanned
    · exact List.mem_append_right _ hz

theorem run_normalize (hplan : planIntegrityNormalization decimal stem s = .ok plan)
    (hstem : s.stemLedger ≠ some .malformed) (hledger : Loads decimal s.ledger records) :
    ∃ s', Prog.run (normalize decimal stem) s = (.ok (), s')
      ∧ s'.documents = some plan.retainedDocuments ∧ s'.sections = some plan.retainedSections
      ∧ s'.ledger = some (.records (mergeRecords (plan.rejections ++ records))) := by
  obtain ⟨_, s', hrun, -, -, h⟩ := Prog.wp_returns (normalize_wp hplan hstem hledger)
  exact ⟨s', hrun, h⟩

theorem Planned.sections_iff (hp : Planned decimal stem t plan)
    (hsec : t'.sections.getD [] = t.sections.getD []
      ∨ t'.sections.getD [] = plan.retainedSections) :
    t'.sections.getD [] = plan.retainedSections
      ↔ ∀ row ∈ t'.sections.getD [], ∀ document, Rejects decimal t document →
        pyStr row.documentId ≠ pyStr document.documentId := by
  rw [← sections_filter_iff]
  constructor
  · intro heq row hrow
    rw [heq, hp.sections, List.mem_filter] at hrow
    simpa using hrow.2
  · intro hclean
    rcases hsec with hsec | hsec
    · rw [hsec] at hclean
      rw [hsec, hp.sections, List.filter_eq_self.mpr (by simpa using hclean)]
    · exact hsec

/-- The ledger that is merged with the plan or not has the plan just when it absorbs its records. -/
theorem Planned.ledger_iff (hp : Planned decimal stem t plan) {records' : List RejectionRecord}
    (hmerge : mergeRecords records' = mergeRecords (plan.rejections ++ records)
      ∨ mergeRecords records' = mergeRecords records) :
    mergeRecords records' = mergeRecords (plan.rejections ++ records)
      ↔ ∀ document, Rejects decimal t document →
        Absorbs records' (rejectionRecord stem t document) := by
  have huniform : ∀ x ∈ plan.rejections, ∀ y ∈ plan.rejections, x.sortKey = y.sortKey →
      x.expected = y.expected ∧ x.reason = y.reason := by
    intro x hx y hy _
    obtain ⟨hexpected, hreason⟩ := hp.uniform hx
    obtain ⟨hexpected', hreason'⟩ := hp.uniform hy
    exact ⟨hexpected.trans hexpected'.symm, hreason.trans hreason'.symm⟩
  constructor
  · intro heq document hrejects
    rw [← absorbs_mergeRecords, heq, absorbs_mergeRecords]
    exact absorbs_append huniform ((hp.rejections _).mpr ⟨document, hrejects, rfl⟩)
  · intro habsorbs
    refine hmerge.elim id fun hmerge => ?_
    rw [mergeRecords_append_of_absorbs, hmerge]
    intro r hr
    obtain ⟨document, hrejects, rfl⟩ := (hp.rejections r).mp hr
    rw [← absorbs_mergeRecords, ← hmerge, absorbs_mergeRecords]
    exact habsorbs document hrejects

/-- **When an interrupted normalisation rolls forward.** For a region whose normalisation returns
and every sequence of stopped runs of it, the next run gives the documents, the sections and the
cumulative ledger of an uninterrupted run exactly when nothing was lost. -/
theorem rollsForward_iff {t₁ : Region D S}
    (hreturns : Prog.run (normalize decimal stem) t = (.ok (), t₁))
    (h : Interrupted decimal stem t t') :
    RollsForward decimal stem t t' ↔ NothingLost decimal stem t t' := by
  obtain ⟨plan, records, hplan, hstem, hledger⟩ := normalize_returns hreturns
  have hp := planned hplan
  have hm := h.mixed hplan hstem hledger
  obtain ⟨u, hrun₁, hd₁, hs₁, hl₁⟩ := run_normalize hplan hstem hledger
  have hnormal := hp.normalized hledger hd₁ hs₁ hl₁
  rcases hm.tables with ⟨hdocs, hsec, hled⟩ | ⟨hdocs, hsec, records', hload, hmerge⟩
  · -- nothing was replaced
    refine iff_of_true ?_ (Or.inl hdocs)
    obtain ⟨t₂, hrun₂, hd₂, hs₂, hl₂⟩ := run_normalize
      ((plan_congr hm.polygons hdocs hsec).trans hplan) hm.stem (by rw [hled]; exact hledger)
    have hsame : SameResult u t₂ :=
      ⟨hd₂.trans hd₁.symm, hs₂.trans hs₁.symm, hl₂.trans hl₁.symm⟩
    exact ⟨_, t₂, hrun₁, hrun₂, hsame, hnormal.congr hsame⟩
  · -- the documents were replaced, and the rerun rejects nothing
    have hplan₂ : planIntegrityNormalization decimal stem t'
        = .ok ⟨plan.retainedDocuments, t'.sections.getD [], []⟩ := hp.again hm.polygons hdocs
    obtain ⟨t₂, hrun₂, hd₂, hs₂, hl₂⟩ := run_normalize hplan₂ hm.stem hload
    have hrolls : RollsForward decimal stem t t' ↔ t'.sections.getD [] = plan.retainedSections
          ∧ mergeRecords records' = mergeRecords (plan.rejections ++ records) := by
      constructor
      · rintro ⟨u₁, u₂, hu₁, hu₂, ⟨-, hsame, hsame'⟩, -⟩
        rw [hrun₁] at hu₁
        rw [hrun₂] at hu₂
        cases hu₁
        cases hu₂
        rw [hs₁, hs₂] at hsame
        rw [hl₁, hl₂] at hsame'
        exact ⟨Option.some.inj hsame, LedgerFile.records.inj (Option.some.inj hsame')⟩
      · rintro ⟨hs, hl⟩
        have hsame : SameResult u t₂ := by
          refine ⟨hd₂.trans hd₁.symm, ?_, ?_⟩
          · rw [hs₁, hs₂, hs]
          · rw [hl₁, hl₂, List.nil_append, hl]
        exact ⟨_, t₂, hrun₁, hrun₂, hsame, hnormal.congr hsame⟩
    rw [hrolls, NothingLost, hload.recordsOf, ← hp.sections_iff hsec, ← hp.ledger_iff hmerge]
    refine ⟨Or.inr, ?_⟩
    rintro (hsame | hlost)
    · -- all documents were kept, so there was nothing to lose
      have hnone := hp.rejects_none (hsame.symm.trans hdocs)
      exact ⟨(hp.sections_iff hsec).mpr fun _ _ document hrejects => absurd hrejects (hnone document),
        (hp.ledger_iff hmerge).mpr fun document hrejects => absurd hrejects (hnone document)⟩
    · exact hlost

end

namespace Example

/-- One polygon, a document of its item and one of another item, each with a section. -/
def region : Region Unit Unit where
  polygons := some [some "Q1"]
  documents := some [⟨some "doc-1", some "Q1", ()⟩, ⟨some "doc-99", some "Q99", ()⟩]
  sections := some [⟨some "doc-1", ()⟩, ⟨some "doc-99", ()⟩]
  stemLedger := none
  ledger := none

/-- The region again, after an earlier rejection of the same document with two sections. -/
def rejectedBefore : Region Unit Unit :=
  { region with ledger := some (.records [⟨"alpha-latest", "wikivoyage_documents", "doc-99", "Q99",
    none, "wikidata_absent_from_polygons", 2⟩]) }

/-- The normalisation of a region, stopped in front of its write `n`. -/
def stoppedAt (n : Nat) (t : Region Unit Unit) : Region Unit Unit :=
  (Prog.exec (normalize Char.isDigit "alpha-latest") n t).state

def finished (t : Region Unit Unit) : Region Unit Unit :=
  (Prog.run (normalize Char.isDigit "alpha-latest") t).2

theorem region_returns :
    Prog.run (normalize Char.isDigit "alpha-latest") region = (.ok (), finished region) := by
  have hok : (Prog.run (normalize Char.isDigit "alpha-latest") region).1 = .ok () := by decide
  exact Prod.ext hok rfl

theorem rejectedBefore_returns : Prog.run (normalize Char.isDigit "alpha-latest") rejectedBefore
    = (.ok (), finished rejectedBefore) := by
  have hok : (Prog.run (normalize Char.isDigit "alpha-latest") rejectedBefore).1 = .ok () := by
    decide
  exact Prod.ext hok rfl

/-- Stopped after both tables were replaced, it rolls forward, since the ledger knows the
document from before. -/
theorem rejectedBefore_rollsForward :
    RollsForward Char.isDigit "alpha-latest" rejectedBefore (stoppedAt 2 rejectedBefore) := by
  refine (rollsForward_iff rejectedBefore_returns (.stop 2 .start)).mpr (Or.inr ⟨?_, ?_⟩)
  · have hsections : ∀ row ∈ (stoppedAt 2 rejectedBefore).sections.getD [],
        ∀ document ∈ rejectedBefore.documents.getD [],
          pyStr document.wikidata ∉ polygonQids Char.isDigit (rejectedBefore.polygons.getD []) →
            pyStr row.documentId ≠ pyStr document.documentId := by decide
    exact fun row hrow document ⟨hmem, habsent⟩ => hsections row hrow document hmem habsent
  · have hledger : ∀ document ∈ rejectedBefore.documents.getD [],
        pyStr document.wikidata ∉ polygonQids Char.isDigit (rejectedBefore.polygons.getD []) →
          Absorbs (recordsOf Char.isDigit (stoppedAt 2 rejectedBefore).ledger)
            (rejectionRecord "alpha-latest" rejectedBefore document) := by decide
    exact fun document ⟨hmem, habsent⟩ => hledger document hmem habsent

/-- Stopped after the documents were replaced, it keeps the section of the rejected document and
never records the rejection. -/
theorem stoppedAt_one_lost : Interrupted Char.isDigit "alpha-latest" region (stoppedAt 1 region)
    ∧ Prog.run (normalize Char.isDigit "alpha-latest") region = (.ok (), finished region)
    ∧ ¬ RollsForward Char.isDigit "alpha-latest" region (stoppedAt 1 region) := by
  refine ⟨.stop 1 .start, region_returns, ?_⟩
  rintro ⟨t₁, t₂, h₁, h₂, ⟨-, hsections, -⟩, -⟩
  have hlost : (Prog.run (normalize Char.isDigit "alpha-latest") (stoppedAt 1 region)).2.sections
      ≠ (Prog.run (normalize Char.isDigit "alpha-latest") region).2.sections := by decide
  rw [h₁, h₂] at hlost
  exact hlost hsections

end Example

end OsmPolygonWikidata.Integrity
