import OsmPolygonWikidata.Direct.Checkpoints
import OsmPolygonWikidata.Direct.LateIndex

/-! # What a checkpoint brings into a later merge

A merge takes from the file of a polygon its documents only, and from these only one for each
reference that the index does not have: the one that the title of the reference selects. If the
index of the earlier run did not have the reference either, this is the page of the reference. If it
had, the file has the row of that index, and the later merge takes it for the page although the
index does not have it any more. The file says so (`reused_v1`), but nobody looks.
-/

namespace OsmPolygonWikidata.Direct

open V1Index Python Durable

/-! ## Merges that return -/

section

variable {B E : Type} {casefold : String → String} {context : PolygonContext}

theorem rows_of_reconcileReferences {result : EnrichmentResult B E}
    {finalMatches directByTitle : Matches B} {ps : List (Nat × Ref)}
    {documents : List (Document B)} {statuses statuses' : List Status} {rows : DirectRows B}
    (h : reconcileReferences casefold context result finalMatches directByTitle ps
      (storeAll context documents) statuses = .ok (rows, statuses')) :
    rows = storeAll context (documents
        ++ ps.filterMap (reconciledRow casefold finalMatches directByTitle))
      ∧ ∀ p ∈ ps, finalMatches (p.2.key casefold) = [] →
        result.deferredErrors.lookup p.1 = none := by
  induction ps generalizing documents statuses with
  | nil =>
    rw [reconcileReferences, Except.ok.injEq, Prod.mk.injEq] at h
    exact ⟨by simpa using h.1.symm, by simp⟩
  | cons p ps ih =>
    obtain ⟨position, ref⟩ := p
    rw [reconcileReferences] at h
    have hreference : ∀ status row,
        reconcileReference casefold position ref result finalMatches directByTitle
          = .ok (status, row) →
        row = reconciledRow casefold finalMatches directByTitle (position, ref)
          ∧ (finalMatches (ref.key casefold) = [] →
            result.deferredErrors.lookup position = none) := by
      intro status row hok
      unfold reconcileReference at hok
      unfold reconciledRow
      cases hfinal : finalMatches (ref.key casefold) with
      | cons d ds =>
        rw [hfinal] at hok
        cases hok
        exact ⟨rfl, fun hnil => absurd hnil (List.cons_ne_nil d ds)⟩
      | nil =>
        rw [hfinal] at hok
        cases hlookup : result.deferredErrors.lookup position with
        | some e =>
          rw [hlookup] at hok
          cases hok
        | none =>
          rw [hlookup] at hok
          cases hok
          exact ⟨rfl, fun _ => rfl⟩
    cases hreconcile : reconcileReference casefold position ref result finalMatches directByTitle
      with
    | error e =>
      rw [hreconcile] at h
      cases h
    | ok outcome =>
      obtain ⟨status, row⟩ := outcome
      obtain ⟨hrow, herror⟩ := hreference status row hreconcile
      rw [hreconcile] at h
      dsimp only at h
      have hall : ∀ q ∈ (position, ref) :: ps, (∀ q ∈ ps, finalMatches (q.2.key casefold) = [] →
          result.deferredErrors.lookup q.1 = none) → finalMatches (q.2.key casefold) = [] →
          result.deferredErrors.lookup q.1 = none := by
        intro q hq hrest
        rcases List.mem_cons.mp hq with rfl | hq
        · exact herror
        · exact hrest q hq
      cases row with
      | none =>
        obtain ⟨hrows, herrors⟩ := ih h
        rw [List.filterMap_cons_none hrow.symm]
        exact ⟨hrows, fun q hq => hall q hq herrors⟩
      | some d =>
        dsimp only at h
        rw [← storeAll_concat] at h
        obtain ⟨hrows, herrors⟩ := ih h
        rw [List.filterMap_cons_some hrow.symm]
        rw [List.append_assoc] at hrows
        exact ⟨hrows, fun q hq => hall q hq herrors⟩

/-- **Reconciling a polygon**, when it returns. -/
theorem reconcile_ok {refs : List Ref} {result r : EnrichmentResult B E} {index : Index B}
    {titleMatches : Option (Matches B)} {found : Matches B}
    (hfound : titleMatches.getD (lookupTitles casefold index refs) = found)
    (h : reconcileWikipediaRefs casefold context refs result index titleMatches = .ok r) :
    (∃ statuses, r = reconciledResult context
        (refs.filterMap (selectedRow casefold found result.documents)) statuses)
      ∧ ∀ p ∈ enumerate 0 refs, found (p.2.key casefold) = [] →
        result.deferredErrors.lookup p.1 = none := by
  rw [reconcileWikipediaRefs, hfound] at h
  obtain ⟨⟨rows, statuses⟩, hloop, hret⟩ := bind_eq_ok.mp h
  cases hret
  have hloop' : reconcileReferences casefold context result found
      (directDocumentsByTitle casefold result.documents) (enumerate 0 refs) (storeAll context []) []
      = .ok (rows, statuses) := hloop
  obtain ⟨hrows, herrors⟩ := rows_of_reconcileReferences hloop'
  refine ⟨⟨statuses, ?_⟩, herrors⟩
  have hselected : (enumerate 0 refs).filterMap
      (reconciledRow casefold found (directDocumentsByTitle casefold result.documents))
      = refs.filterMap (selectedRow casefold found result.documents) := by
    rw [← filterMap_enumerate]
    rfl
  rw [hselected, List.nil_append] at hrows
  have hdocuments : rows.documents = Dict.build Document.documentId
      (refs.filterMap (selectedRow casefold found result.documents)) := by
    rw [hrows]
    exact storeAll_documents _
  have hlinks : rows.links = (Dict.build Document.documentId
      (refs.filterMap (selectedRow casefold found result.documents))).map (linkRow context) := by
    rw [← hdocuments, hrows]
    exact storeAll_links _
  rw [reconciledResult, ← hlinks, ← hdocuments]

end

section

variable {B E P K : Type} {fold : Char → List Char}
variable {client : String → String → Except E (FetchResult B)} {errorText : E → String}

/-- What a merge may take over for a polygon: the documents of an enrichment with matches that had
none of the references that the completed index does not have. -/
def Usable (casefold : String → String) (client : String → String → Except E (FetchResult B))
    (completed : Index B) (refs : List Ref) (result : EnrichmentResult B E) : Prop :=
  ∃ found, LawfulMatches casefold refs found ∧ result.documents
      = Dict.build Document.documentId (enrichedRows casefold (settled client) refs found)
    ∧ ∀ p ∈ enumerate 0 refs, served casefold completed p.2 = [] → found (p.2.key casefold) = []
      ∧ (raises client p = true → (result.deferredErrors.lookup p.1).isSome)

/-- The documents that the titles of a polygon select from in the speculative pass. -/
def documentsBefore (enrich : PolygonContext × List Ref → Except E (EnrichmentResult B E))
    (input : PolygonContext × List Ref) : List (Document B) :=
  (enrich input).toOption.elim [] EnrichmentResult.documents

/-- The rows of a polygon in the speculative pass. -/
def speculativeRows (casefold : String → String) (history : IndexHistory B)
    (inputs : MergeInputs B P) (documents : PolygonContext × List Ref → List (Document B))
    (input : PolygonContext × List Ref) : List (Document B) :=
  input.2.filterMap (selectedRow casefold (provisionalMatches casefold history inputs.allRefs)
    (documents input))

/-- **A merge that returns.** -/
theorem merge_ok_spec (hfold : CaseFolding fold) {history : IndexHistory B}
    (hhistory : GrowingHistory (Python.casefold fold) history)
    (hfetch : TitledClient (settled client)) {inputs : MergeInputs B P}
    {cached : String → List Ref → Option (EnrichmentResult B E)} {rt : SectionRuntime B K}
    {hasText : B → Bool} {stored : List (SectionRow K)} {region : MergedRegion B K P}
    {enrich : PolygonContext × List Ref → Except E (EnrichmentResult B E)}
    (henrich : enrich = enrichDirectInput (Python.casefold fold) client errorText cached history
      (lookupTitles (Python.casefold fold) history.first inputs.allRefs))
    (husable : ∀ input ∈ inputs.directInputs, ∀ result, enrich input = .ok result →
      Usable (Python.casefold fold) client history.completed input.2 result)
    (h : mergeV2Region (Python.casefold fold) client errorText cached rt hasText inputs stored
      history = .ok region) :
    (∀ ref ∈ inputs.allRefs, served (Python.casefold fold) history.completed ref = [] →
        ∃ result, client ref.language ref.title = .ok result)
      ∧ ∃ sections, region = writeMergedRegion hasText inputs
        (regionDocuments (Python.casefold fold) (settled client)
          (finalFinding (Python.casefold fold) history.completed) inputs)
        (taggedLinks (Python.casefold fold) (settled client)
          (tagKeys (linksTo (speculativeRows (Python.casefold fold) history inputs
            (documentsBefore enrich)) inputs))
          (finalFinding (Python.casefold fold) history.completed) inputs) sections := by
  obtain ⟨found, hfound, h⟩ := bind_eq_ok.mp h
  obtain ⟨fetched, hfetched, hspeculative⟩ := bind_eq_ok.mp hfound
  obtain ⟨speculative, hreconciled, hret⟩ := bind_eq_ok.mp hspeculative
  cases hret
  unfold enrichDirectInputs at hfetched
  rw [← henrich] at hfetched
  have hboth := forall₂_zip_comp (mapM_eq_ok_iff.mp hfetched) (mapM_eq_ok_iff.mp hreconciled)
  have hrows : List.Forall₂ (ReconciledTo (speculativeRows (Python.casefold fold) history inputs
      (documentsBefore enrich))) inputs.directInputs speculative := by
    refine hboth.imp ?_
    rintro input r ⟨result, hresult, hr⟩
    obtain ⟨⟨statuses, heq⟩, -⟩ := reconcile_ok rfl hr
    have hbefore : documentsBefore enrich input = result.documents := by
      unfold documentsBefore
      rw [hresult]
      rfl
    refine ⟨statuses, ?_⟩
    rw [speculativeRows, hbefore]
    exact heq
  have hinput : ∀ input ∈ inputs.directInputs, ∃ result, enrich input = .ok result
      ∧ ∀ p ∈ enumerate 0 input.2, provisionalMatches (Python.casefold fold) history inputs.allRefs
        (p.2.key (Python.casefold fold)) = [] → result.deferredErrors.lookup p.1 = none := by
    intro input hinput
    obtain ⟨r, result, hresult, hr⟩ := forall₂_exists hboth hinput
    exact ⟨result, hresult, (reconcile_ok rfl hr).2⟩
  constructor
  · intro ref href hnil
    obtain ⟨input, hmem, href⟩ := List.mem_flatMap.mp href
    obtain ⟨result, hresult, herrors⟩ := hinput input hmem
    obtain ⟨matches', -, -, hlacks⟩ := husable input hmem result hresult
    rw [← map_snd_enumerate 0 input.2] at href
    obtain ⟨p, hp, rfl⟩ := List.mem_map.mp href
    have hprovisional := hhistory.provisional_eq_nil hfold
      (subset_allRefs hmem (by rw [← map_snd_enumerate 0 input.2]; exact List.mem_map_of_mem hp)) hnil
    cases hclient : client p.2.language p.2.title with
    | ok result => exact ⟨result, rfl⟩
    | error e =>
      have hraises : raises client p = true := by
        unfold raises
        rw [hclient]
        rfl
      have hsome := (hlacks p hp hnil).2 hraises
      rw [herrors p hp hprovisional] at hsome
      cases hsome
  · have hselect : ∀ input ∈ inputs.directInputs, ∀ ref ∈ input.2,
        served (Python.casefold fold) history.completed ref = [] →
        (directDocumentsByTitle (Python.casefold fold) (Dict.build Document.documentId
            (speculativeRows (Python.casefold fold) history inputs (documentsBefore enrich) input))
          (ref.key (Python.casefold fold))).head?
          = pageOf (Python.casefold fold) (settled client) input.2 ref := by
      intro input hmem ref href hnil
      obtain ⟨result, hresult, -⟩ := hinput input hmem
      obtain ⟨found, hlawful, hdocuments, hlacks⟩ := husable input hmem result hresult
      have hbefore : documentsBefore enrich input = Dict.build Document.documentId
          (enrichedRows (Python.casefold fold) (settled client) input.2 found) := by
        unfold documentsBefore
        rw [hresult, ← hdocuments]
        rfl
      have hfoundNil : found (ref.key (Python.casefold fold)) = [] := by
        have href' := href
        rw [← map_snd_enumerate 0 input.2] at href'
        obtain ⟨p, hp, rfl⟩ := List.mem_map.mp href'
        exact (hlacks p hp hnil).1
      rw [speculativeRows, hbefore]
      refine head?_selectedRow hfold hfetch
        (hhistory.provisional_lawful hfold (subset_allRefs hmem)) ?_ href
        (hhistory.provisional_eq_nil hfold (subset_allRefs hmem href) hnil)
        (head?_enrichedRows hfold hfetch hlawful href hfoundNil)
      exact enrichedRows_sources _ hlawful
    have hfinal := reconcileMergeIfReady_eq hfold hrows hselect
    rw [hfinal] at h
    cases h
    exact ⟨_, rfl⟩

end

/-! ## Clients that agree where they are asked -/

section

variable {B E : Type} {casefold : String → String} {context : PolygonContext}
variable {client client' : String → String → Except E (FetchResult B)} {errorText : E → String}

theorem fetchSpeculativeResults_congr (index : Index B) {pending : List (Nat × Ref)}
    (h : ∀ p ∈ pending, client p.2.language p.2.title = client' p.2.language p.2.title)
    (count : Nat) (speculative : AList (fun _ : Nat => Except E (FetchResult B))) :
    fetchSpeculativeResults client index pending count speculative
      = fetchSpeculativeResults client' index pending count speculative := by
  induction pending generalizing count speculative with
  | nil => rfl
  | cons p pending ih =>
    rw [fetchSpeculativeResults, fetchSpeculativeResults, h p List.mem_cons_self]
    split
    · rfl
    · exact ih (fun q hq => h q (List.mem_cons_of_mem p hq)) _ _

theorem resolvePending_congr (finalMatches : Matches B)
    (speculative : AList (fun _ : Nat => Except E (FetchResult B))) (waitForIndex : Bool)
    {pending : List (Nat × Ref)}
    (h : ∀ p ∈ pending, client p.2.language p.2.title = client' p.2.language p.2.title)
    (state : DirectRows B × AList (fun _ : Nat => E)) :
    resolvePending casefold context client errorText finalMatches speculative waitForIndex pending
        state
      = resolvePending casefold context client' errorText finalMatches speculative waitForIndex
        pending state := by
  induction pending generalizing state with
  | nil => rfl
  | cons p pending ih =>
    have ih' := ih (fun q hq => h q (List.mem_cons_of_mem p hq))
    have houtcome : resolvePendingOutcome client errorText p.2 (speculative.lookup p.1) waitForIndex
        = resolvePendingOutcome client' errorText p.2 (speculative.lookup p.1) waitForIndex := by
      unfold resolvePendingOutcome
      rw [h p List.mem_cons_self]
    simp only [resolvePending, houtcome, ih']

theorem enrich_congr {refs : List Ref} {initialMatches : Matches B} (index later : Index B)
    (h : ∀ ref ∈ refs, initialMatches (ref.key casefold) = [] →
      client ref.language ref.title = client' ref.language ref.title) :
    enrichWikipediaRefs casefold context client errorText refs index later
        ⟨false, some initialMatches, true⟩
      = enrichWikipediaRefs casefold context client' errorText refs index later
        ⟨false, some initialMatches, true⟩ := by
  have hpending : ∀ p ∈ unresolved casefold initialMatches (enumerate 0 refs),
      client p.2.language p.2.title = client' p.2.language p.2.title := by
    intro p hp
    obtain ⟨hmem, hnil⟩ := List.mem_filter.mp hp
    refine h p.2 ?_ (List.isEmpty_iff.mp hnil)
    rw [← map_snd_enumerate 0 refs]
    exact List.mem_map_of_mem hmem
  rw [enrich_eq_resolve, enrich_eq_resolve, fetchSpeculativeResults_congr index hpending,
    resolvePending_congr _ _ _ hpending]

variable {P K : Type} {fold : Char → List Char}

variable (errorText) in
/-- **A merge without a checkpoint**, with a complete index and a client that answers for every
reference the index does not have. -/
theorem mergeV2Region_complete (hfold : CaseFolding fold) {completed : Index B}
    (hv1 : IsV1Index (Python.casefold fold) completed) (hfetch : TitledClient (settled client))
    (inputs : MergeInputs B P) (rt : SectionRuntime B K) (hasText : B → Bool)
    (stored : List (SectionRow K))
    (hclient : ∀ ref ∈ inputs.allRefs, served (Python.casefold fold) completed ref = [] →
      ∃ result, client ref.language ref.title = .ok result) :
    ∃ sections, mergeV2Region (Python.casefold fold) client errorText (fun _ _ => none) rt hasText
        inputs stored (.always completed)
      = .ok (writeMergedRegion hasText inputs
          (regionDocuments (Python.casefold fold) (settled client)
            (finalFinding (Python.casefold fold) completed) inputs)
          (regionLinks (Python.casefold fold) (settled client)
            (finalFinding (Python.casefold fold) completed)
            (finalFinding (Python.casefold fold) completed) inputs) sections) := by
  let total : String → String → Except E (FetchResult B) := fun l t => .ok (settled client l t)
  have henrich : enrichDirectInputs (Python.casefold fold) client errorText (fun _ _ => none)
      (.always completed) (lookupTitles (Python.casefold fold) completed inputs.allRefs)
      inputs.directInputs
      = enrichDirectInputs (Python.casefold fold) total errorText (fun _ _ => none)
        (.always completed) (lookupTitles (Python.casefold fold) completed inputs.allRefs)
        inputs.directInputs := by
    refine mapM_congr_left (fun input hinput => enrich_congr _ _ (fun ref href hnil => ?_))
    have hall := subset_allRefs hinput href
    obtain ⟨result, hresult⟩ := hclient ref hall
      ((lookupTitles_eq_served hfold completed hall).symm.trans hnil)
    show client ref.language ref.title = .ok (settled client ref.language ref.title)
    unfold settled
    rw [hresult]
  have hsame : mergeV2Region (Python.casefold fold) client errorText (fun _ _ => none) rt hasText
      inputs stored (.always completed)
      = mergeV2Region (Python.casefold fold) total errorText (fun _ _ => none) rt hasText
        inputs stored (.always completed) := by
    unfold mergeV2Region collectSpeculativeDirectResults
    exact congrArg (fun fetched => Except.bind (Except.bind fetched _) _) henrich
  have hlinks : regionLinks (Python.casefold fold) (settled client)
      (earlyFinding (Python.casefold fold) (.always completed) inputs)
      (finalFinding (Python.casefold fold) completed) inputs
      = regionLinks (Python.casefold fold) (settled client)
        (finalFinding (Python.casefold fold) completed)
        (finalFinding (Python.casefold fold) completed) inputs := by
    unfold regionLinks foundKeys
    rw [(foundLinks_congr (early_eq_final (settled client) hfold completed inputs)).1]
  have htotal := mergeV2Region_eq hfold (growingHistory_always hv1) hfetch errorText inputs rt hasText
    stored
  have hcompleted : (IndexHistory.always completed).completed = completed := rfl
  rw [hcompleted, hlinks] at htotal
  exact ⟨_, hsame.trans htotal⟩

end

/-! ## What is loaded -/

section

variable {B E K P : Type} {casefold : String → String}
variable {client : Bool → String → String → Except E (FetchResult B)} {errorText : E → String}
variable {digest : String → String} {sha256 : List (List String) → String}
variable {runs : MergeRun B K P → Prop}

theorem SavedBy.prepared {s : Checkpoint B} (h : SavedBy casefold client errorText sha256 runs s)
    (metadata : Metadata) :
    SavedBy casefold client errorText sha256 runs (s.prepared metadata) := by
  unfold Checkpoint.prepared
  split
  · exact h
  · exact savedBy_empty _

theorem prepared_metadata (s : Checkpoint B) (metadata : Metadata) :
    (s.prepared metadata).metadata = some metadata := by
  unfold Checkpoint.prepared
  split
  · assumption
  · rfl

theorem getElem?_of_enumerate {refs : List Ref} {p : Nat × Ref} (hp : p ∈ enumerate 0 refs) :
    (enumerate 0 refs)[p.1]? = some p ∧ refs[p.1]? = some p.2 := by
  have hget := (getElem?_enumerate hp).2
  rw [Nat.sub_zero] at hget
  refine ⟨hget, ?_⟩
  conv_lhs => rw [← map_snd_enumerate 0 refs]
  rw [List.getElem?_map, hget]
  rfl

/-- No reference that the completed index lacks has the status `reused_v1`. -/
def NoneReused (casefold : String → String) (completed : Index B) (refs : List Ref)
    (statuses : List Status) : Prop :=
  ∀ p ∈ enumerate 0 refs, served casefold completed p.2 = [] →
    ∀ status, statuses[p.1]? = some status → status.reusedV1 = false

variable {fold : Char → List Char}

/-- **A file that is loaded** is what an earlier run gave the polygon. -/
theorem loaded_usable (hfold : CaseFolding fold)
    (hruns : ∀ run, runs run → IsV1Index (Python.casefold fold) run.history.first)
    {s : Checkpoint B} (hsaved : SavedBy (Python.casefold fold) client errorText sha256 runs s)
    {metadata : Metadata} (hmetadata : s.metadata = some metadata) {completed : Index B}
    {polygonId : String} {refs : List Ref} {result : EnrichmentResult B E}
    (hload : s.loadDirect digest polygonId refs = some result)
    (hnone : NoneReused (Python.casefold fold) completed refs result.statuses) :
    Usable (Python.casefold fold) (client metadata.fetchFullText) completed refs result := by
  unfold Checkpoint.loadDirect at hload
  cases hlookup : s.direct.lookup (digest polygonId) with
  | none =>
    rw [hlookup] at hload
    cases hload
  | some payload =>
    rw [hlookup] at hload
    obtain ⟨run, hrun, hrunMetadata, input, hinput, saved, hok, hentries, hpayload⟩ :=
      hsaved _ payload hlookup
    dsimp only at hload
    split at hload
    · rename_i hfits
      obtain ⟨-, hrefs, -⟩ := hfits
      cases hload
      subst hpayload
      change input.2 = refs at hrefs
      subst hrefs
      have hfull : run.fetchFullText = metadata.fetchFullText := by
        rw [hmetadata] at hrunMetadata
        rw [Option.some.inj hrunMetadata]
        rfl
      rw [← hfull]
      have henriched : EnrichedAs (Python.casefold fold) (client run.fetchFullText) errorText
          input.2 (run.initialMatches (Python.casefold fold)) saved := by
        rcases enrich_cases (Python.casefold fold) input.1 errorText input.2
          (client run.fetchFullText) (run.initialMatches (Python.casefold fold))
          (run.history.during input.1.polygonId) run.history.second with ⟨e, he, -⟩ | ⟨r, hr, h⟩
        · exact absurd (hok.symm.trans he) (by simp)
        · cases hok.symm.trans hr
          exact h
      refine ⟨run.initialMatches (Python.casefold fold), ?_, henriched.documents, ?_⟩
      · exact lawful_of_served (hruns run hrun) (fun ref href =>
          lookupTitles_eq_served hfold run.history.first (subset_allRefs hinput href))
      · intro p hp hlacks
        have hfound : run.initialMatches (Python.casefold fold)
            (p.2.key (Python.casefold fold)) = [] := by
          by_contra hne
          obtain ⟨hget, href⟩ := getElem?_of_enumerate hp
          -- the saved status says that the index had the reference
          have hstatus : saved.statuses[p.1]? = some (reusedStatus p.2) := by
            rw [henriched.statuses, List.getElem?_map, hget, Option.map_some, statusFor,
              if_neg (by simpa using hne)]
          have hreused := hnone p hp hlacks { reusedStatus p.2 with ref := p.2 } (by
            rw [List.getElem?_zipWith, href]
            simp only [savedPayload, hstatus])
          cases hreused
        refine ⟨hfound, fun hraises => ?_⟩
        have hsome := henriched.raised p hp hfound hraises
        have hempty : saved.deferredErrors = ∅ := AList.ext hentries
        rw [hempty, AList.lookup_empty] at hsome
        cases hsome
    · cases hload

variable (casefold client errorText digest sha256) in
/-- How a polygon is enriched with the files that are there. -/
def MergeRun.enrichWith (run : MergeRun B K P) (s : Checkpoint B) :
    PolygonContext × List Ref → Except E (EnrichmentResult B E) :=
  enrichDirectInput casefold (client run.fetchFullText) errorText
    ((s.prepared (run.metadata sha256)).loadDirect digest) run.history
    (lookupTitles casefold run.history.first run.inputs.allRefs)

variable (casefold client errorText digest sha256) in
/-- The files that a run finds do it no harm. -/
structure CheckpointFits (run : MergeRun B K P) (s : Checkpoint B) : Prop where
  /-- No file that is loaded took a reference from an index that the completed one lacks. -/
  reused : ∀ input ∈ run.inputs.directInputs, ∀ result : EnrichmentResult B E,
    (s.prepared (run.metadata sha256)).loadDirect digest input.1.polygonId input.2 = some result →
    NoneReused casefold run.history.completed input.2 result.statuses
  /-- No V1 link gets a tag in the speculative pass that it does not have in the end. -/
  links : ∀ row ∈ run.inputs.baseLinks,
    row.key ∈ tagKeys (linksTo (speculativeRows casefold run.history run.inputs
      (documentsBefore (run.enrichWith casefold client errorText digest sha256 s))) run.inputs) →
    row.key ∈ foundKeys casefold (settled (client run.fetchFullText))
      (finalFinding casefold run.history.completed) run.inputs

/-- **Merging with checkpoints**: after any number of runs that were killed anywhere, a run that
returns and whose files fit writes the documents and links of a merge without checkpoints. -/
theorem checkpoint_transparent (hfold : CaseFolding fold)
    (hclient : ∀ full, TitledClient (settled (client full)))
    {past : List (MergeRun B K P × Nat)}
    (hpast : ∀ entry ∈ past, IsV1Index (Python.casefold fold) entry.1.history.first)
    {run : MergeRun B K P} (hhistory : GrowingHistory (Python.casefold fold) run.history)
    {region : MergedRegion B K P} {s : Checkpoint B}
    (hreturn : Prog.run
      (mergeWithCheckpoint (Python.casefold fold) client errorText digest sha256 run)
      (afterRuns (Python.casefold fold) client errorText digest sha256 past (.empty B))
      = (.ok region, s))
    (hfits : CheckpointFits (Python.casefold fold) client errorText digest sha256 run
      (afterRuns (Python.casefold fold) client errorText digest sha256 past (.empty B))) :
    ∃ region', mergeV2Region (Python.casefold fold) (client run.fetchFullText) errorText
        (fun _ _ => none) run.sectionRuntime run.hasText run.inputs run.stored
        (.always run.history.completed) = .ok region'
      ∧ region.documents = region'.documents ∧ region.links = region'.links := by
  generalize hs₀ : afterRuns (Python.casefold fold) client errorText digest sha256 past (.empty B)
    = s₀ at hreturn hfits
  have hsaved : SavedBy (Python.casefold fold) client errorText sha256
      (fun other => ∃ entry ∈ past, entry.1 = other) s₀ := by
    rw [← hs₀]
    exact savedBy_afterRuns past (fun entry hentry => ⟨entry, hentry, rfl⟩) (savedBy_empty none)
  have hmerge := run_mergeWithCheckpoint (Python.casefold fold) client errorText digest sha256 run s₀
  rw [hreturn] at hmerge
  have husable : ∀ input ∈ run.inputs.directInputs, ∀ result,
      run.enrichWith (Python.casefold fold) client errorText digest sha256 s₀ input = .ok result →
      Usable (Python.casefold fold) (client run.fetchFullText) run.history.completed input.2
        result := by
    intro input hinput result hresult
    unfold MergeRun.enrichWith enrichDirectInput at hresult
    cases hload : (s₀.prepared (run.metadata sha256)).loadDirect (E := E) digest input.1.polygonId
        input.2 with
    | some loaded =>
      rw [hload] at hresult
      cases hresult
      refine loaded_usable hfold ?_ (hsaved.prepared _) (prepared_metadata s₀ _) hload
        (hfits.reused input hinput result hload)
      rintro other ⟨entry, hentry, rfl⟩
      exact hpast entry hentry
    | none =>
      rw [hload] at hresult
      have hserved : ∀ ref ∈ input.2, lookupTitles (Python.casefold fold) run.history.first
          run.inputs.allRefs (ref.key (Python.casefold fold))
          = served (Python.casefold fold) run.history.first ref := fun ref href =>
        lookupTitles_eq_served hfold run.history.first (subset_allRefs hinput href)
      have henriched : EnrichedAs (Python.casefold fold) (client run.fetchFullText) errorText
          input.2 (lookupTitles (Python.casefold fold) run.history.first run.inputs.allRefs)
          result := by
        rcases enrich_cases (Python.casefold fold) input.1 errorText input.2
          (client run.fetchFullText)
          (lookupTitles (Python.casefold fold) run.history.first run.inputs.allRefs)
          (run.history.during input.1.polygonId) run.history.second with ⟨e, he, -⟩ | ⟨r, hr, h⟩
        · exact absurd (hresult.symm.trans he) (by simp)
        · cases hresult.symm.trans hr
          exact h
      refine ⟨_, lawful_of_served ((hhistory.v1.of_contained
        hhistory.secondCompleted).of_contained hhistory.firstSecond) hserved,
        henriched.documents, fun p hp hlacks => ?_⟩
      have href : p.2 ∈ input.2 := by
        rw [← map_snd_enumerate 0 input.2]
        exact List.mem_map_of_mem hp
      have hnil : lookupTitles (Python.casefold fold) run.history.first run.inputs.allRefs
          (p.2.key (Python.casefold fold)) = [] := by
        rw [hserved p.2 href]
        exact served_eq_nil hhistory.firstSecond (served_eq_nil hhistory.secondCompleted hlacks)
      exact ⟨hnil, henriched.raised p hp hnil⟩
  obtain ⟨hanswers, sections, hregion⟩ := merge_ok_spec hfold hhistory (hclient run.fetchFullText)
    rfl husable hmerge.symm
  obtain ⟨sections', hcomplete⟩ := mergeV2Region_complete errorText hfold hhistory.v1
    (hclient run.fetchFullText) run.inputs run.sectionRuntime run.hasText run.stored hanswers
  refine ⟨_, hcomplete, ?_, ?_⟩
  · rw [hregion]
    rfl
  · have hlinks := taggedLinks_congr hfits.links
    rw [hregion]
    show (writeMergedRegion _ _ _ _ _).links = _
    unfold MergeRun.enrichWith at hlinks
    rw [hlinks]
    rfl

end

/-! ## A document that V1 does not have any more -/

namespace CheckpointExample

open LateExample

def fooFetch (_ : Bool) (language title : String) : Except Empty (FetchResult String) :=
  .ok (fooClient language title)

/-- A digest for the fingerprint of the extraction. -/
def joinRows (rows : List (List String)) : String := String.intercalate "," rows.flatten

def fooExtracted : ExtractedPolygon := ⟨"way/1", "en:Foo", "", "a.osm.pbf", "a", "way", "1"⟩

/-- A run over the polygon, with an index that does not change meanwhile. -/
def fooRun (index : Index String) : MergeRun String Unit Unit :=
  ⟨[fooExtracted], true, fooInputs, [], pageSections, fun _ => true, .always index⟩

/-- The directory after a run that was killed when it had saved the polygon. -/
def leftBy (index : Index String) : Checkpoint String :=
  afterRuns TitleExample.fold fooFetch Empty.elim id joinRows [(fooRun index, 3)]
    (.empty String)

/-- A later run. -/
def resume (index : Index String) (s : Checkpoint String) :
    Except Empty (MergedRegion String Unit Unit) × Checkpoint String :=
  Prog.run (mergeWithCheckpoint TitleExample.fold fooFetch Empty.elim id joinRows
    (fooRun index)) s

theorem noIndex_isV1Index : IsV1Index TitleExample.fold noIndex :=
  fun _ _ h => nomatch h

theorem titledFetch (full : Bool) : TitledClient (settled (fooFetch full)) := titledClient

/-- A page that was fetched before the kill is taken over. -/
theorem fetched_page_resumes : ∃ region region', (resume noIndex (leftBy noIndex)).1 = .ok region
      ∧ mergeV2Region TitleExample.fold (fooFetch true) Empty.elim (fun _ _ => none)
        pageSections (fun _ => true) fooInputs [] (.always noIndex) = .ok region'
      ∧ region.documents = region'.documents ∧ region.links = region'.links := by
  have hloaded : (((leftBy noIndex).prepared ((fooRun noIndex).metadata joinRows)).loadDirect id
      "way/1" [⟨"en", "Foo", "wikipedia", "en:Foo"⟩] : Option (EnrichmentResult String Empty)).map
        EnrichmentResult.statuses
      = some [⟨⟨"en", "Foo", "wikipedia", "en:Foo"⟩, "ok", "", false⟩] := by decide +kernel
  have hfits : CheckpointFits TitleExample.fold fooFetch Empty.elim id joinRows
      (fooRun noIndex) (leftBy noIndex) := by
    refine ⟨fun input hinput result hload => ?_, ?_⟩
    · rw [List.mem_singleton.mp hinput] at hload ⊢
      rw [hload, Option.map_some, Option.some.injEq] at hloaded
      intro p hp _ status hstatus
      rw [List.mem_singleton.mp hp, hloaded] at hstatus
      cases hstatus
      rfl
    · simp [fooRun, fooInputs, MergeInputs.baseLinks, Dict.build]
  cases hrun : resume noIndex (leftBy noIndex) with
  | mk outcome s =>
    cases outcome with
    | error e => exact e.elim
    | ok region =>
      obtain ⟨region', hmerge, hdocuments, hlinks⟩ := checkpoint_transparent
        TitleExample.asciiFold_caseFolding titledFetch
        (List.forall_mem_singleton.mpr noIndex_isV1Index)
        (growingHistory_always noIndex_isV1Index) hrun hfits
      exact ⟨region, region', rfl, hmerge, hdocuments, hlinks⟩

/-- **A row of an earlier index survives**: the shard with the page is gone, and the run that
resumes writes the old V1 document where a run without checkpoints writes the page. -/
theorem stale_row_survives : (∀ full, TitledClient (settled (fooFetch full)))
      ∧ IsV1Index TitleExample.fold fooIndex
      ∧ ∃ region region', (resume noIndex (leftBy fooIndex)).1 = .ok region
        ∧ mergeV2Region TitleExample.fold (fooFetch true) Empty.elim
          (fun _ _ => none) pageSections (fun _ => true) fooInputs [] (.always noIndex) = .ok region'
        ∧ region.documents.map Document.documentId = ["Q1:wikipedia:en:7:8"]
        ∧ region'.documents.map Document.documentId = ["osm:wikipedia:en:7:8"] := by
  have hresumed : (resume noIndex (leftBy fooIndex)).1.map
      (fun region => region.documents.map Document.documentId)
      = .ok ["Q1:wikipedia:en:7:8"] := by decide +kernel
  have hfresh : (mergeV2Region TitleExample.fold (fooFetch true) Empty.elim
      (fun _ _ => none) pageSections (fun _ => true) fooInputs [] (.always noIndex)).map
      (fun region => region.documents.map Document.documentId)
      = .ok ["osm:wikipedia:en:7:8"] := by decide +kernel
  obtain ⟨region, hregion, hids⟩ := map_eq_ok.mp hresumed
  obtain ⟨region', hregion', hids'⟩ := map_eq_ok.mp hfresh
  exact ⟨titledFetch, fooIndex_isV1Index, region, region', hregion, hregion', hids, hids'⟩

end CheckpointExample

end OsmPolygonWikidata.Direct
