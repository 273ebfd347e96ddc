import OsmPolygonWikidata.WikidataRecovery.Scanning

/-! # Audit receipts

A region for which the audit finds nothing to repair gets a receipt, and a later audit takes the
result from the receipt while the tables keep their hashes. The receipt does not record under which
settings it was written. Below, the tables and Wikidata are fixed and only the settings and the
scope change from one audit to the next.
-/

namespace OsmPolygonWikidata.WikidataRecovery

open Python

/-! ## Sorted items -/

theorem sortedItems_of_sorted {V : Type} {d : List (String × V)}
    (h : d.Pairwise (fun a b => a.1 ≤ b.1)) : sortedItems d = d :=
  h.insertionSort_eq

theorem sorted_sortedItems {V : Type} (d : List (String × V)) :
    (sortedItems d).Pairwise (fun a b => a.1 ≤ b.1) := by
  have : Std.Total (fun a b : String × V => a.1 ≤ b.1) := ⟨fun a b => le_total a.1 b.1⟩
  have : IsTrans (String × V) (fun a b => a.1 ≤ b.1) := ⟨fun _ _ _ => le_trans⟩
  exact List.pairwise_insertionSort _ d

section

variable {X C H E : Type} (client : WikidataClient E)

/-! ## What the audit says of a scan -/

/-- The classification of an identifier, when Wikidata answers. -/
def verdict (settings : AuditSettings) (missing : List (String × List String)) (qid : String) :
    RecoveryClassification × List String :=
  match missing.lookup qid with
  | none => (.current, [])
  | some polygonIds =>
    match client qid with
    | .ok (some entity) =>
      if eligibleSitelinks settings entity = [] then (.authoritativeNoSitelink, [])
      else (.repairRequired, polygonIds)
    | _ => (.authoritativeMissing, [])

/-- The identifiers whose polygons get links by a repair. -/
def affectedBy (settings : AuditSettings) (scan : RegionScan H) : List (String × List String) :=
  ((scan.polygonIdsByQid.map (fun p => (p.1, verdict client settings scan.missingPolygonIdsByQid
    p.1))).filter (fun c => c.2.2 ≠ [])).map (fun c => (c.1, c.2.2))

/-- The result of a region, when Wikidata answers. -/
def verdictRegion (settings : AuditSettings) (stem : String) (scan : RegionScan H) :
    RegionAuditResult H where
  stem := stem
  fingerprints := some scan.fingerprints
  classifications := scan.polygonIdsByQid.map
    (fun p => (p.1, (verdict client settings scan.missingPolygonIdsByQid p.1).1))
  polygonIdsByQid := scan.polygonIdsByQid
  affectedPolygonIdsByQid := affectedBy client settings scan
  affectedQids := (affectedBy client settings scan).map Prod.fst
  affectedPolygonCount := ((affectedBy client settings scan).flatMap Prod.snd).dedup.length
  orphanFactIds := scan.orphanFactIds
  orphanDocumentIds := scan.orphanDocumentIds
  blockedReason := none

/-- Wikidata answers for every identifier that the scan wants to know about. -/
def Answered (scan : RegionScan H) : Prop :=
  ∀ qid ∈ scan.missingPolygonIdsByQid.map Prod.fst, ∃ answer, client qid = .ok answer

variable {client} {settings : AuditSettings} {stem : String} {scan : RegionScan H}

theorem classifyQid_eq_verdict {entities : List (String × Option WikidataEntity)} {qid : String}
    {missing : List (String × List String)}
    (h : qid ∈ missing.map Prod.fst → ∃ answer, client qid = .ok answer
      ∧ entities.lookup qid = some answer) :
    classifyQid (E := E) settings qid missing entities = .ok (verdict client settings missing qid) := by
  rw [classifyQid, verdict]
  cases hlookup : missing.lookup qid with
  | none => rfl
  | some polygonIds =>
    have hmem : qid ∈ missing.map Prod.fst := by
      rw [List.mem_map]
      exact ⟨_, mem_of_lookup_eq_some hlookup, rfl⟩
    obtain ⟨answer, hclient, hentity⟩ := h hmem
    cases answer with
    | none => simp only [hentity, hclient]
    | some entity =>
      simp only [hentity, hclient]
      exact (apply_ite Except.ok _ _ _).symm

theorem classifyRegion_eq_verdictRegion {entities : List (String × Option WikidataEntity)}
    (h : ∀ qid ∈ scan.missingPolygonIdsByQid.map Prod.fst, ∃ answer, client qid = .ok answer
      ∧ entities.lookup qid = some answer) :
    classifyRegion (E := E) settings stem scan entities
      = .ok (verdictRegion client settings stem scan) := by
  have hqids : classifyQids (E := E) settings scan.missingPolygonIdsByQid entities
      (scan.polygonIdsByQid.map Prod.fst) = .ok ((scan.polygonIdsByQid.map Prod.fst).map
        (fun qid => (qid, verdict client settings scan.missingPolygonIdsByQid qid))) := by
    apply mapM_eq_ok_map
    intro qid _
    rw [classifyQid_eq_verdict (h qid)]
    rfl
  rw [classifyRegion, hqids, List.map_map]
  simp only [verdictRegion, affectedBy]
  simp only [bind, Except.bind, pure, Except.pure, List.map_map]
  rfl

/-! ## Scans -/

/-- What every scan has: its identifiers are sorted, and those that are missing at some polygon are
among them. -/
structure Shaped (scan : RegionScan H) : Prop where
  qids : scan.polygonIdsByQid.Pairwise (fun a b => a.1 ≤ b.1)
  ids : ∀ p ∈ scan.polygonIdsByQid, p.2.Pairwise (· ≤ ·)
  missing : ∀ p ∈ scan.missingPolygonIdsByQid, p.1 ∈ scan.polygonIdsByQid.map Prod.fst ∧ p.2 ≠ []

theorem shaped_of_scanRows {decimal : Char → Bool} {fingerprints : Fingerprints H}
    {rows : RegionRows X} (h : scanRows decimal fingerprints rows = .ok scan) :
    Shaped scan ∧ scan.fingerprints = fingerprints := by
  simp only [scanRows, bind_eq_ok] at h
  obtain ⟨polygons, -, documents, -, links, -, facts, -, h⟩ := h
  cases h
  refine ⟨⟨List.pairwise_map.mpr (sorted_sortedItems _), ?_, ?_⟩, rfl⟩
  · intro p hp
    obtain ⟨q, -, rfl⟩ := List.mem_map.mp hp
    exact List.pairwise_insertionSort _ q.2
  · intro p hp
    simp only [missingPolygonLinks, List.mem_filterMap] at hp
    obtain ⟨q, hq, hsome⟩ := hp
    split at hsome
    · cases hsome
    · rename_i hne
      cases hsome
      rw [List.map_map, List.mem_map]
      exact ⟨⟨q, hq, rfl⟩, hne⟩

variable (client settings scan) in
/-- Nothing of the region is to be repaired under these settings: it has no orphan, and no missing
identifier has a sitelink that the settings let through. -/
def NothingToRepair : Prop :=
  scan.orphanFactIds = [] ∧ scan.orphanDocumentIds = []
    ∧ ∀ qid ∈ scan.missingPolygonIdsByQid.map Prod.fst, ∀ entity,
      client qid = .ok (some entity) → eligibleSitelinks settings entity = []

theorem Shaped.exists_lookup (hshape : Shaped scan) {qid : String}
    (h : qid ∈ scan.missingPolygonIdsByQid.map Prod.fst) :
    ∃ ids, scan.missingPolygonIdsByQid.lookup qid = some ids ∧ ids ≠ [] := by
  cases hlookup : scan.missingPolygonIdsByQid.lookup qid with
  | none =>
    obtain ⟨p, hp, rfl⟩ := List.mem_map.mp h
    exact absurd (List.lookup_eq_none_iff.mp hlookup p hp) (by simp)
  | some ids => exact ⟨ids, rfl, (hshape.missing _ (mem_of_lookup_eq_some hlookup)).2⟩

theorem verdict_repairRequired_iff (hshape : Shaped scan) {qid : String} :
    (verdict client settings scan.missingPolygonIdsByQid qid).2 ≠ []
      ↔ qid ∈ scan.missingPolygonIdsByQid.map Prod.fst
        ∧ ∃ entity, client qid = .ok (some entity) ∧ eligibleSitelinks settings entity ≠ [] := by
  rw [verdict]
  constructor
  · intro h
    cases hlookup : scan.missingPolygonIdsByQid.lookup qid with
    | none =>
      rw [hlookup] at h
      exact absurd rfl h
    | some ids =>
      refine ⟨List.mem_map.mpr ⟨_, mem_of_lookup_eq_some hlookup, rfl⟩, ?_⟩
      rw [hlookup] at h
      cases hclient : client qid with
      | error e =>
        rw [hclient] at h
        exact absurd rfl h
      | ok answer =>
        cases answer with
        | none =>
          rw [hclient] at h
          exact absurd rfl h
        | some entity =>
          refine ⟨entity, rfl, fun hnil => ?_⟩
          simp [hclient, hnil] at h
  · rintro ⟨hmem, entity, hclient, hne⟩
    obtain ⟨ids, hlookup, hids⟩ := hshape.exists_lookup hmem
    simp only [hlookup, hclient, if_neg hne]
    exact hids

theorem verdict_eq_of_none_eligible {settings' : AuditSettings} {qid : String}
    {missing : List (String × List String)}
    (h : ∀ entity, qid ∈ missing.map Prod.fst → client qid = .ok (some entity) →
      eligibleSitelinks settings entity = [] ∧ eligibleSitelinks settings' entity = []) :
    verdict client settings missing qid = verdict client settings' missing qid := by
  rw [verdict, verdict]
  cases hlookup : missing.lookup qid with
  | none => rfl
  | some ids =>
    have hmem : qid ∈ missing.map Prod.fst :=
      List.mem_map.mpr ⟨_, mem_of_lookup_eq_some hlookup, rfl⟩
    cases hclient : client qid with
    | error e => rfl
    | ok answer =>
      cases answer with
      | none => rfl
      | some entity =>
        obtain ⟨h₁, h₂⟩ := h entity hmem hclient
        simp only [if_pos h₁, if_pos h₂]

variable (hshape : Shaped scan)

include hshape

theorem affectedBy_eq_nil_iff : affectedBy client settings scan = []
      ↔ ∀ qid ∈ scan.missingPolygonIdsByQid.map Prod.fst, ∀ entity,
        client qid = .ok (some entity) → eligibleSitelinks settings entity = [] := by
  rw [affectedBy, List.map_eq_nil_iff, List.filter_eq_nil_iff, List.forall_mem_map]
  constructor
  · intro h qid hqid entity hclient
    obtain ⟨p, hp, rfl⟩ := List.mem_map.mp hqid
    obtain ⟨q, hq, hfst⟩ := List.mem_map.mp (hshape.missing p hp).1
    by_contra hne
    apply h q hq
    rw [hfst]
    simpa using (verdict_repairRequired_iff hshape).mpr ⟨hqid, entity, hclient, hne⟩
  · intro h p _ hne
    have hne' : (verdict client settings scan.missingPolygonIdsByQid p.1).2 ≠ [] := by
      simpa using hne
    obtain ⟨hmem, entity, hclient, heligible⟩ := (verdict_repairRequired_iff hshape).mp hne'
    exact heligible (h p.1 hmem entity hclient)

theorem requiresRepair_verdictRegion :
    (verdictRegion client settings stem scan).requiresRepair = false
      ↔ NothingToRepair client settings scan := by
  rw [NothingToRepair, ← affectedBy_eq_nil_iff hshape]
  rw [RegionAuditResult.requiresRepair, Bool.or_eq_false_iff, Bool.or_eq_false_iff,
    decide_eq_false_iff_not, decide_eq_false_iff_not, decide_eq_false_iff_not, not_not, not_not,
    not_not]
  show (List.map Prod.fst (affectedBy client settings scan) = [] ∧ scan.orphanFactIds = [])
    ∧ scan.orphanDocumentIds = [] ↔ _
  rw [List.map_eq_nil_iff]
  tauto

/-- **Two settings give one result, when one of them has nothing to repair, exactly when the other
has not either.** -/
theorem verdictRegion_eq_iff {settings' : AuditSettings}
    (h : NothingToRepair client settings' scan) :
    verdictRegion client settings' stem scan = verdictRegion client settings stem scan
      ↔ NothingToRepair client settings scan := by
  constructor
  · intro heq
    have hrepair : (verdictRegion client settings' stem scan).requiresRepair = false :=
      (requiresRepair_verdictRegion hshape).mpr h
    rw [heq] at hrepair
    exact (requiresRepair_verdictRegion hshape).mp hrepair
  · intro hnothing
    have hverdict : ∀ qid, verdict client settings' scan.missingPolygonIdsByQid qid
        = verdict client settings scan.missingPolygonIdsByQid qid := by
      intro qid
      apply verdict_eq_of_none_eligible
      intro entity hmem hclient
      exact ⟨h.2.2 qid hmem entity hclient, hnothing.2.2 qid hmem entity hclient⟩
    simp only [verdictRegion, affectedBy, hverdict]

/-! ## Reusing a receipt -/

theorem repairRequired_notMem (h : NothingToRepair client settings scan) :
    RecoveryClassification.repairRequired
      ∉ (verdictRegion client settings stem scan).classifications.map Prod.snd := by
  intro hmem
  simp only [verdictRegion, List.map_map, List.mem_map, Function.comp_apply] at hmem
  obtain ⟨p, -, hp⟩ := hmem
  have hnil : (verdict client settings scan.missingPolygonIdsByQid p.1).2 = [] := by
    by_contra hne
    obtain ⟨hmem, entity, hclient, heligible⟩ := (verdict_repairRequired_iff hshape).mp hne
    exact heligible (h.2.2 p.1 hmem entity hclient)
  rw [verdict] at hp hnil
  split at hp
  · cases hp
  · rename_i ids hlookup
    split at hp
    · rename_i entity hclient
      split at hp
      · cases hp
      · rename_i hne
        have hmem : p.1 ∈ scan.missingPolygonIdsByQid.map Prod.fst :=
          List.mem_map.mpr ⟨_, mem_of_lookup_eq_some hlookup, rfl⟩
        exact hne (h.2.2 p.1 hmem entity hclient)
    · cases hp

theorem reuseReceipt_verdictRegion [DecidableEq H] (h : NothingToRepair client settings scan) :
    reuseReceipt stem scan.fingerprints (some (receiptFromResult scan.fingerprints
      (verdictRegion client settings stem scan)))
      = some (verdictRegion client settings stem scan) := by
  have haffected := (affectedBy_eq_nil_iff hshape).mpr h.2.2
  have hclass : sortedItems (verdictRegion client settings stem scan).classifications
      = (verdictRegion client settings stem scan).classifications :=
    sortedItems_of_sorted (List.pairwise_map.mpr hshape.qids)
  have hids : (sortedItems scan.polygonIdsByQid).map
      (fun p => (p.1, p.2.insertionSort (· ≤ ·))) = scan.polygonIdsByQid := by
    rw [sortedItems_of_sorted hshape.qids]
    conv_rhs => rw [← List.map_id scan.polygonIdsByQid]
    apply List.map_congr_left
    intro p hp
    rw [(hshape.ids p hp).insertionSort_eq]
    rfl
  rw [reuseReceipt]
  simp only [receiptFromResult]
  rw [if_pos ⟨trivial, repairRequired_notMem hshape h⟩, hclass]
  simp only [verdictRegion, haffected, h.1, h.2.1, hids]
  rfl

omit hshape

end

/-! ## Histories of audits -/

/-- The arguments of an audit that may change from one call to the next. -/
structure AuditCall where
  settings : AuditSettings
  stems : List String

section

variable {X C H E : Type} [DecidableEq H] (decimal : Char → Bool) (codec : Codec X C) (hash : C → H)
  (client : WikidataClient E) (files : String → RegionFiles C)

/-- The receipts after a call. A call that raises saves none. -/
def receiptsAfter (receipts : Receipts H) (call : AuditCall) : Receipts H :=
  match auditWikidataIntegrity call.settings decimal codec hash client receipts files call.stems with
  | .ok (_, receipts') => receipts'
  | .error _ => receipts

/-- The receipts after a history that starts from an empty index. -/
def receiptsOf (history : List AuditCall) : Receipts H :=
  history.foldl (receiptsAfter decimal codec hash client files) (fun _ => none)

/-- The region results of a call, or `none` when it raises. -/
def regionResults (receipts : Receipts H) (call : AuditCall) : Option (List (RegionAuditResult H)) :=
  (auditWikidataIntegrity call.settings decimal codec hash client receipts files
    call.stems).toOption.map Prod.fst

/-- The scan of a region that is not blocked. -/
def Scanned (stem : String) (scan : RegionScan H) : Prop :=
  ∃ fingerprints, regionFingerprints hash (files stem) = .ok fingerprints
    ∧ scanRegion decimal codec fingerprints (files stem) = .ok scan

/-- Wikidata answers for every region of the scope. -/
def Answers (stems : List String) : Prop :=
  ∀ stem ∈ stems, ∀ scan, Scanned decimal codec hash files stem scan → Answered client scan

/-- The call that a receipt comes from. -/
structure Settles (call : AuditCall) (stem : String) (scan : RegionScan H) : Prop where
  mem : stem ∈ call.stems
  answers : Answers decimal codec hash client files call.stems
  scanned : Scanned decimal codec hash files stem scan
  nothing : NothingToRepair client call.settings scan

/-- The receipts are those of the calls of the history. -/
structure Explained (history : List AuditCall) (receipts : Receipts H) : Prop where
  sound : ∀ stem receipt, receipts stem = some receipt →
    ∃ call ∈ history, ∃ scan, Settles decimal codec hash client files call stem scan
      ∧ receipt = receiptFromResult scan.fingerprints (verdictRegion client call.settings stem scan)
  complete : ∀ call ∈ history, ∀ stem scan, Settles decimal codec hash client files call stem scan →
    receipts stem ≠ none

/-- The result of a region, when Wikidata answers. -/
def outcomeRegion (settings : AuditSettings) (receipts : Receipts H) (stem : String) :
    RegionAuditResult H :=
  match scanRegionForAudit decimal codec hash receipts stem (files stem) with
  | .reused result => result
  | .scanned scan => verdictRegion client settings stem scan
  | .blocked reason => blockedRegionResult stem reason

/-- The receipt that a call writes for a region. -/
def writtenReceipt (settings : AuditSettings) (receipts : Receipts H) (stem : String) :
    Option (Receipt H) :=
  match scanRegionForAudit decimal codec hash receipts stem (files stem) with
  | .scanned scan =>
    if (verdictRegion client settings stem scan).requiresRepair then none
    else some (receiptFromResult scan.fingerprints (verdictRegion client settings stem scan))
  | _ => none

variable {decimal codec hash client files}
variable {history : List AuditCall} {receipts : Receipts H} {call : AuditCall} {stem : String}
  {scan : RegionScan H}

omit [DecidableEq H] in
theorem Scanned.shaped (h : Scanned decimal codec hash files stem scan) : Shaped scan := by
  obtain ⟨fingerprints, -, hscan⟩ := h
  obtain ⟨rows, -, hrows⟩ := bind_eq_ok.mp hscan
  exact (shaped_of_scanRows hrows).1

omit [DecidableEq H] in
theorem Scanned.fingerprints (h : Scanned decimal codec hash files stem scan) :
    regionFingerprints hash (files stem) = .ok scan.fingerprints := by
  obtain ⟨fingerprints, hprints, hscan⟩ := h
  obtain ⟨rows, -, hrows⟩ := bind_eq_ok.mp hscan
  rw [(shaped_of_scanRows hrows).2]
  exact hprints

omit [DecidableEq H] in
theorem Scanned.unique {scan' : RegionScan H} (h : Scanned decimal codec hash files stem scan)
    (h' : Scanned decimal codec hash files stem scan') : scan = scan' := by
  obtain ⟨fingerprints, hprints, hscan⟩ := h
  obtain ⟨fingerprints', hprints', hscan'⟩ := h'
  rw [hprints, Except.ok.injEq] at hprints'
  subst hprints'
  rw [hscan, Except.ok.injEq] at hscan'
  exact hscan'

theorem scanned_of_outcome
    (h : scanRegionForAudit decimal codec hash receipts stem (files stem) = .scanned scan) :
    Scanned decimal codec hash files stem scan := by
  rw [scanRegionForAudit] at h
  split at h
  · cases h
  · rename_i fingerprints hprints
    split at h
    · cases h
    · split at h
      · rename_i hscan
        cases h
        exact ⟨fingerprints, hprints, hscan⟩
      · cases h

theorem outcome_of_no_receipt (h : receipts stem = none) :
    scanRegionForAudit decimal codec hash receipts stem (files stem)
      = scanRegionForAudit decimal codec hash (fun _ => none) stem (files stem) := by
  rw [scanRegionForAudit, scanRegionForAudit, h]

theorem outcome_of_scanned (hnone : receipts stem = none)
    (h : Scanned decimal codec hash files stem scan) :
    scanRegionForAudit decimal codec hash receipts stem (files stem) = .scanned scan := by
  obtain ⟨fingerprints, hprints, hscan⟩ := h
  rw [scanRegionForAudit, hprints, hnone]
  simp only [reuseReceipt, hscan]

theorem outcome_of_receipt {settings : AuditSettings}
    (h : receipts stem = some (receiptFromResult scan.fingerprints
      (verdictRegion client settings stem scan)))
    (hscan : Scanned decimal codec hash files stem scan)
    (hnothing : NothingToRepair client settings scan) :
    scanRegionForAudit decimal codec hash receipts stem (files stem)
      = .reused (verdictRegion client settings stem scan) := by
  rw [scanRegionForAudit, hscan.fingerprints, h]
  simp only [reuseReceipt_verdictRegion hscan.shaped hnothing]

/-! ## One audit -/

theorem lookup_of_resolveEntities {qids : List String} {qid : String}
    {entities : List (String × Option WikidataEntity)}
    (h : resolveEntities client qids = .ok entities) (hqid : qid ∈ qids) :
    ∃ answer, client qid = .ok answer ∧ entities.lookup qid = some answer := by
  have hof : ∀ p ∈ entities, client p.1 = .ok p.2 := by
    intro p hp
    obtain ⟨q, -, hq⟩ := exists_of_mem_mapM h hp
    obtain ⟨answer, hanswer, hret⟩ := bind_eq_ok.mp hq
    cases hret
    exact hanswer
  obtain ⟨p, hp, hq⟩ := exists_mem_of_mapM h hqid
  obtain ⟨answer, hanswer, hret⟩ := bind_eq_ok.mp hq
  cases hret
  refine ⟨answer, hanswer, ?_⟩
  cases hlookup : entities.lookup qid with
  | none => exact absurd (List.lookup_eq_none_iff.mp hlookup _ hp) (by simp)
  | some answer' =>
    have hclient := hof _ (mem_of_lookup_eq_some hlookup)
    rw [hanswer, Except.ok.injEq] at hclient
    rw [hclient]

theorem exists_resolveEntities {qids : List String}
    (h : ∀ qid ∈ qids, ∃ answer, client qid = .ok answer) :
    ∃ entities, resolveEntities client qids = .ok entities := by
  apply exists_mapM_eq_ok
  intro qid hqid
  obtain ⟨answer, hanswer⟩ := h qid hqid
  exact ⟨(qid, answer), by rw [hanswer]; rfl⟩

theorem answers_iff (hexplained : Explained decimal codec hash client files history receipts)
    {stems : List String} :
    Answers decimal codec hash client files stems
      ↔ ∀ stem ∈ stems, ∀ qid ∈ (scanRegionForAudit decimal codec hash receipts stem
        (files stem)).missingQids, ∃ answer, client qid = .ok answer := by
  constructor
  · intro h stem hstem qid hqid
    cases hout : scanRegionForAudit decimal codec hash receipts stem (files stem) with
    | reused result =>
      rw [hout] at hqid
      cases hqid
    | blocked reason =>
      rw [hout] at hqid
      cases hqid
    | scanned scan =>
      rw [hout] at hqid
      exact h stem hstem scan (scanned_of_outcome hout) qid hqid
  · intro h stem hstem scan hscan
    cases hreceipt : receipts stem with
    | none =>
      intro qid hqid
      apply h stem hstem qid
      rw [outcome_of_scanned hreceipt hscan]
      exact hqid
    | some receipt =>
      -- the call that wrote the receipt has asked the same questions
      obtain ⟨call, -, scan', hsettles, -⟩ := hexplained.sound stem receipt hreceipt
      exact hsettles.answers stem hsettles.mem scan hscan

theorem mem_scopedStems {stems : List String} : stem ∈ scopedStems stems ↔ stem ∈ stems := by
  rw [scopedStems, List.mem_insertionSort, List.mem_dedup]

omit [DecidableEq H] in
theorem mem_validationQids {stems : List String} {outcome : String → ScanOutcome H} {qid : String} :
    qid ∈ validationQids ((scopedStems stems).map (fun stem => (stem, outcome stem)))
      ↔ ∃ stem ∈ stems, qid ∈ (outcome stem).missingQids := by
  rw [validationQids, List.mem_insertionSort, List.mem_dedup, List.flatMap_map, List.mem_flatMap]
  simp only [mem_scopedStems]

theorem recordOutcome_eq_update (settings : AuditSettings) (current : Receipts H) :
    recordOutcome current (scanRegionForAudit decimal codec hash receipts stem (files stem))
        (outcomeRegion decimal codec hash client files settings receipts stem)
      = Function.update current stem
        ((writtenReceipt decimal codec hash client files settings receipts stem).or
          (current stem)) := by
  rw [outcomeRegion, writtenReceipt]
  cases hout : scanRegionForAudit decimal codec hash receipts stem (files stem) with
  | reused result => simp [recordOutcome]
  | blocked reason => simp [recordOutcome, recordCurrentReceipt, blockedRegionResult]
  | scanned scan =>
    show (if (verdictRegion client settings stem scan).requiresRepair then current
      else Function.update current stem (some (receiptFromResult scan.fingerprints
        (verdictRegion client settings stem scan)))) = _
    cases hrepair : (verdictRegion client settings stem scan).requiresRepair with
    | true => simp [hrepair]
    | false => simp [hrepair]

theorem foldl_update_or {V : Type} (written : String → Option V) (keys : List String)
    (d : String → Option V) (k : String) :
    keys.foldl (fun d key => Function.update d key ((written key).or (d key))) d k
      = if k ∈ keys then (written k).or (d k) else d k := by
  induction keys generalizing d with
  | nil => rfl
  | cons key keys ih =>
    rw [List.foldl_cons, ih]
    by_cases hk : k = key
    · subst hk
      simp only [Function.update_self, List.mem_cons_self, if_true]
      split
      · cases written k <;> rfl
      · rfl
    · simp only [Function.update_of_ne hk, List.mem_cons, hk, false_or]

theorem audit_of_answers (hexplained : Explained decimal codec hash client files history receipts)
    (hanswers : Answers decimal codec hash client files call.stems) :
    ∃ receipts', auditWikidataIntegrity call.settings decimal codec hash client receipts files
        call.stems = .ok ((scopedStems call.stems).map
          (outcomeRegion decimal codec hash client files call.settings receipts), receipts')
      ∧ ∀ stem, receipts' stem = if stem ∈ call.stems then
          (writtenReceipt decimal codec hash client files call.settings receipts stem).or
            (receipts stem)
        else receipts stem := by
  have hanswered := (answers_iff hexplained).mp hanswers
  have hall : ∀ qid ∈ validationQids ((scopedStems call.stems).map (fun stem =>
      (stem, scanRegionForAudit decimal codec hash receipts stem (files stem)))),
      ∃ answer, client qid = .ok answer := by
    intro qid hqid
    obtain ⟨stem, hstem, hmissing⟩ := mem_validationQids.mp hqid
    exact hanswered stem hstem qid hmissing
  obtain ⟨entities, hentities⟩ := exists_resolveEntities hall
  have hregions : ((scopedStems call.stems).map (fun stem =>
        (stem, scanRegionForAudit decimal codec hash receipts stem (files stem)))).mapM
        (fun o => o.2.result (E := E) call.settings o.1 entities)
      = .ok ((scopedStems call.stems).map
        (outcomeRegion decimal codec hash client files call.settings receipts)) := by
    rw [List.mapM_map]
    apply mapM_eq_ok_map
    intro stem hstem
    rw [mem_scopedStems] at hstem
    show (scanRegionForAudit decimal codec hash receipts stem (files stem)).result (E := E)
      call.settings stem entities = _
    rw [outcomeRegion]
    cases hout : scanRegionForAudit decimal codec hash receipts stem (files stem) with
    | reused result => rfl
    | blocked reason => rfl
    | scanned scan =>
      apply classifyRegion_eq_verdictRegion
      intro qid hqid
      apply lookup_of_resolveEntities hentities
      refine mem_validationQids.mpr ⟨stem, hstem, ?_⟩
      rw [hout]
      exact hqid
  simp only [auditWikidataIntegrity, hentities, Except.mapError, bind, Except.bind, pure,
    Except.pure, hregions]
  refine ⟨_, rfl, fun stem => ?_⟩
  rw [List.zip_map', List.foldl_map]
  simp only [recordOutcome_eq_update]
  rw [foldl_update_or]
  simp only [mem_scopedStems]

theorem audit_of_not_answers
    (hexplained : Explained decimal codec hash client files history receipts)
    (hanswers : ¬ Answers decimal codec hash client files call.stems) :
    ∃ e, auditWikidataIntegrity call.settings decimal codec hash client receipts files call.stems
      = .error e := by
  rw [answers_iff hexplained] at hanswers
  push Not at hanswers
  obtain ⟨stem, hstem, qid, hqid, hnone⟩ := hanswers
  cases hentities : resolveEntities client (validationQids ((scopedStems call.stems).map
      (fun stem => (stem, scanRegionForAudit decimal codec hash receipts stem (files stem))))) with
  | error e => exact ⟨.client e, by rw [auditWikidataIntegrity, hentities]; rfl⟩
  | ok entities =>
    obtain ⟨answer, hanswer, -⟩ :=
      lookup_of_resolveEntities hentities (mem_validationQids.mpr ⟨stem, hstem, hqid⟩)
    exact absurd hanswer (hnone answer)

/-! ## Every history -/

omit [DecidableEq H] in
theorem explained_nil : Explained decimal codec hash client files [] (fun _ => none) where
  sound := fun _ _ h => by cases h
  complete := fun _ h => by cases h

theorem Settles.written (hnone : receipts stem = none)
    (h : Settles decimal codec hash client files call stem scan) :
    writtenReceipt decimal codec hash client files call.settings receipts stem
      = some (receiptFromResult scan.fingerprints
        (verdictRegion client call.settings stem scan)) := by
  rw [writtenReceipt, outcome_of_scanned hnone h.scanned]
  simp only [(requiresRepair_verdictRegion h.scanned.shaped).mpr h.nothing]
  rfl

theorem settles_of_written (hmem : stem ∈ call.stems)
    (hanswers : Answers decimal codec hash client files call.stems) {receipt : Receipt H}
    (h : writtenReceipt decimal codec hash client files call.settings receipts stem
      = some receipt) :
    ∃ scan, Settles decimal codec hash client files call stem scan
      ∧ receipt = receiptFromResult scan.fingerprints
        (verdictRegion client call.settings stem scan) := by
  rw [writtenReceipt] at h
  cases hout : scanRegionForAudit decimal codec hash receipts stem (files stem) with
  | reused result =>
    rw [hout] at h
    cases h
  | blocked reason =>
    rw [hout] at h
    cases h
  | scanned scan =>
    rw [hout] at h
    have hscan := scanned_of_outcome hout
    cases hrepair : (verdictRegion client call.settings stem scan).requiresRepair with
    | true => simp [hrepair] at h
    | false =>
      rw [requiresRepair_verdictRegion hscan.shaped] at hrepair
      simp only [(requiresRepair_verdictRegion hscan.shaped).mpr hrepair] at h
      exact ⟨scan, ⟨hmem, hanswers, hscan, hrepair⟩, (Option.some.inj h).symm⟩

theorem Explained.step (h : Explained decimal codec hash client files history receipts)
    (call : AuditCall) :
    Explained decimal codec hash client files (history ++ [call])
      (receiptsAfter decimal codec hash client files receipts call) := by
  by_cases hanswers : Answers decimal codec hash client files call.stems
  · obtain ⟨receipts', haudit, hreceipts⟩ := audit_of_answers h hanswers
    have hafter : receiptsAfter decimal codec hash client files receipts call = receipts' := by
      rw [receiptsAfter, haudit]
    rw [hafter]
    constructor
    · intro stem receipt hreceipt
      rw [hreceipts stem] at hreceipt
      have hold : receipts stem = some receipt → ∃ call' ∈ history ++ [call], ∃ scan,
          Settles decimal codec hash client files call' stem scan
            ∧ receipt = receiptFromResult scan.fingerprints
              (verdictRegion client call'.settings stem scan) := by
        intro hreceipt
        obtain ⟨call', hcall, hrest⟩ := h.sound stem receipt hreceipt
        exact ⟨call', List.mem_append_left _ hcall, hrest⟩
      split at hreceipt
      · rename_i hmem
        rcases Option.or_eq_some_iff.mp hreceipt with hwritten | ⟨-, hreceipt⟩
        · obtain ⟨scan, hsettles⟩ := settles_of_written hmem hanswers hwritten
          exact ⟨call, List.mem_append_right _ (List.mem_singleton_self call), scan, hsettles⟩
        · exact hold hreceipt
      · exact hold hreceipt
    · intro call' hcall stem scan hsettles hnone
      rw [hreceipts stem] at hnone
      have hnone' : receipts stem = none := by
        split at hnone
        · exact (Option.or_eq_none_iff.mp hnone).2
        · exact hnone
      rcases List.mem_append.mp hcall with hcall | hcall
      · exact h.complete call' hcall stem scan hsettles hnone'
      · rw [List.mem_singleton] at hcall
        subst hcall
        rw [if_pos hsettles.mem, hsettles.written hnone'] at hnone
        cases hnone
  · obtain ⟨e, haudit⟩ := audit_of_not_answers h hanswers
    have hafter : receiptsAfter decimal codec hash client files receipts call = receipts := by
      rw [receiptsAfter, haudit]
    rw [hafter]
    constructor
    · intro stem receipt hreceipt
      obtain ⟨call', hcall, hrest⟩ := h.sound stem receipt hreceipt
      exact ⟨call', List.mem_append_left _ hcall, hrest⟩
    · intro call' hcall stem scan hsettles
      rcases List.mem_append.mp hcall with hcall | hcall
      · exact h.complete call' hcall stem scan hsettles
      · rw [List.mem_singleton] at hcall
        subst hcall
        exact absurd hsettles.answers hanswers

theorem explained_receiptsOf (history : List AuditCall) :
    Explained decimal codec hash client files history
      (receiptsOf decimal codec hash client files history) := by
  induction history using List.reverseRecOn with
  | nil => exact explained_nil
  | append_singleton history call ih =>
    rw [receiptsOf, List.foldl_append]
    exact ih.step call

theorem outcomeRegion_eq_iff (h : Explained decimal codec hash client files history receipts)
    {settings : AuditSettings} :
    outcomeRegion decimal codec hash client files settings receipts stem
        = outcomeRegion decimal codec hash client files settings (fun _ => none) stem
      ↔ ∀ call ∈ history, ∀ scan, Settles decimal codec hash client files call stem scan →
        NothingToRepair client settings scan := by
  cases hreceipt : receipts stem with
  | none =>
    constructor
    · intro _ call hcall scan hsettles
      exact absurd hreceipt (h.complete call hcall stem scan hsettles)
    · intro _
      rw [outcomeRegion, outcomeRegion, outcome_of_no_receipt hreceipt]
  | some receipt =>
    obtain ⟨call, hcall, scan, hsettles, rfl⟩ := h.sound stem receipt hreceipt
    rw [outcomeRegion, outcomeRegion,
      outcome_of_receipt hreceipt hsettles.scanned hsettles.nothing,
      outcome_of_scanned rfl hsettles.scanned]
    simp only
    rw [verdictRegion_eq_iff hsettles.scanned.shaped hsettles.nothing]
    constructor
    · intro hnothing call' _ scan' hsettles'
      rw [hsettles'.scanned.unique hsettles.scanned]
      exact hnothing
    · intro hall
      exact hall call hcall scan hsettles

/-- **When receipts are transparent.** An audit after a history gives the region results of an audit
without receipts exactly when no region of its scope was settled by an earlier audit, under settings
that left nothing to repair, while the settings of now leave something. -/
theorem regionResults_receipts_iff (history : List AuditCall) (call : AuditCall) :
    regionResults decimal codec hash client files
        (receiptsOf decimal codec hash client files history) call
      = regionResults decimal codec hash client files (fun _ => none) call
      ↔ (Answers decimal codec hash client files call.stems → ∀ stem ∈ call.stems,
        ∀ earlier ∈ history, ∀ scan, Settles decimal codec hash client files earlier stem scan →
          NothingToRepair client call.settings scan) := by
  have hexplained : Explained decimal codec hash client files history
      (receiptsOf decimal codec hash client files history) := explained_receiptsOf history
  have hfresh : Explained decimal codec hash client files [] (fun _ => none) := explained_nil
  by_cases hanswers : Answers decimal codec hash client files call.stems
  · obtain ⟨_, haudit, -⟩ := audit_of_answers hexplained hanswers
    obtain ⟨_, haudit', -⟩ := audit_of_answers hfresh hanswers
    rw [regionResults, regionResults, haudit, haudit']
    simp only [Except.toOption, Option.map_some, Option.some.injEq, List.map_inj_left,
      mem_scopedStems, outcomeRegion_eq_iff hexplained]
    exact ⟨fun h _ => h, fun h => h hanswers⟩
  · obtain ⟨e, haudit⟩ := audit_of_not_answers hexplained hanswers
    obtain ⟨e', haudit'⟩ := audit_of_not_answers hfresh hanswers
    rw [regionResults, regionResults, haudit, haudit']
    exact ⟨fun _ h => absurd h hanswers, fun _ => rfl⟩

end

/-! ## A receipt that hides a repair -/

namespace Receipts.Example

/-- One polygon without a link. -/
def codec : Codec Unit Unit where
  readPolygons := fun _ => some [{
    polygonId := some "way/1", wikidata := some "Q1", sourcePbf := none, region := none,
    osmType := none, osmId := none, hasWikipedia := none, wikipediaLanguageCount := none,
    wikipediaLanguages := none, wikipediaArticleCount := none, hasEnglishWikipedia := none,
    hasFrenchWikipedia := none, textAvailable := none, bestLanguage := none, others := () }]
  readCanonicalLinks := fun _ => some []
  readLegacyLinks := fun _ => none
  readDocuments := fun _ => some []
  readSections := fun _ => some []
  readFacts := fun _ => some []

def files : String → RegionFiles Unit := fun _ _ => some ()

/-- Its identifier has an English article. -/
def client : WikidataClient Unit := fun qid => .ok (some ⟨qid, [("enwiki", "Article")]⟩)

def french : AuditCall := ⟨⟨some ["fr"], none⟩, ["liechtenstein"]⟩

def everyLanguage : AuditCall := ⟨⟨none, none⟩, ["liechtenstein"]⟩

/-- After an audit restricted to French, an audit of every language finds nothing to repair; without
the receipt it finds the identifier. -/
theorem receipt_hides_repair : regionResults (fun _ => false) codec id client files
        (receiptsOf (fun _ => false) codec id client files [french]) everyLanguage
      ≠ regionResults (fun _ => false) codec id client files (fun _ => none) everyLanguage := by
  intro h
  have haffected := congrArg (Option.map (List.map RegionAuditResult.affectedQids)) h
  have hreused : (regionResults (fun _ => false) codec id client files (receiptsOf (fun _ => false)
      codec id client files [french]) everyLanguage).map (List.map RegionAuditResult.affectedQids)
      = some [[]] := by decide
  have hfresh : (regionResults (fun _ => false) codec id client files (fun _ => none)
      everyLanguage).map (List.map RegionAuditResult.affectedQids) = some [["Q1"]] := by decide
  rw [hreused, hfresh] at haffected
  exact absurd haffected (by decide)

end Receipts.Example

end OsmPolygonWikidata.WikidataRecovery
