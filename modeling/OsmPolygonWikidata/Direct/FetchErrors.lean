import OsmPolygonWikidata.Direct.Checkpoints
import OsmPolygonWikidata.Direct.LateIndex
import OsmPolygonWikidata.Direct.Workers

/-! # Fetch errors

`merge_v2_region` with any number of workers, with or without a checkpoint, and for both values of
`wait_for_index`. The exception of a fetch is kept until the completed index is asked for the page,
and raised when the index does not have it; so the comments say. But a merge asks the completed
index last, when no exception is kept any more:

* the pages that a polygon fetches after the index has become ready are fetched where they are
  needed, without another lookup, and an exception ends the run;
* the exceptions that are kept are raised after the second lookup, for the pages it misses, and the
  index need not be complete then.

These are the *exposed* fetches of a merge. In their order, the first one that raises decides what
the merge raises (`errorOf_mergeRegion`).
-/

namespace OsmPolygonWikidata.Direct

open V1Index Python

local instance lawfulBEq_pending : LawfulBEq (Nat × Ref) := inferInstance

/-! ## The merge with its options -/

/-- `ReuseFetchOptions`, without the workers of the sections. `fetch_full_text` is fixed. -/
structure MergeOptions where
  directWorkers : Int
  waitForIndex : Bool

section

variable {B E K P : Type} (casefold : String → String)
variable (client : String → String → Except E (FetchResult B)) (errorText : E → String)
variable (digest : String → String) (checkpoint : Option (Checkpoint B)) (options : MergeOptions)
variable (waits : Waits) (sectionRuntime : SectionRuntime B K) (hasText : B → Bool)

/-- What the checkpoint has of a polygon, when there is a checkpoint. -/
def checkpointed (polygonId : String) (refs : List Ref) : Option (EnrichmentResult B E) :=
  checkpoint.bind (fun s => s.loadDirect digest polygonId refs)

/-- `enrich_direct_inputs` with its workers. -/
def enrichDirectInputsWith (history : IndexHistory B) (initialMatches : Matches B)
    (directInputs : List (PolygonContext × List Ref)) :
    Except E (List (EnrichmentResult B E)) := do
  let loaded := fun (input : PolygonContext × List Ref) =>
    checkpointed (E := E) digest checkpoint input.1.polygonId input.2
  let enrichOne := fun (input : PolygonContext × List Ref) =>
    enrichWikipediaRefs casefold input.1 client errorText input.2
      (history.during input.1.polygonId) history.second ⟨false, some initialMatches, true⟩
  let recorded ← enrichPendingDirectInputs options.directWorkers waits enrichOne
    (directInputs.filter (fun input => (loaded input).isNone))
  return directInputs.filterMap (fun input =>
    (resultsByKey (fun input => input.1.polygonId) loaded directInputs recorded).lookup
      input.1.polygonId)

/-- `merge_v2_region`. -/
def mergeRegion (inputs : MergeInputs B P) (stored : List (SectionRow K))
    (history : IndexHistory B) : Except E (MergedRegion B K P) := do
  let initialMatches := lookupTitles casefold history.first inputs.allRefs
  let fetched ← enrichDirectInputsWith casefold client errorText digest checkpoint options waits
    history initialMatches inputs.directInputs
  let speculative ← reconcileAll casefold history.second
    (some (provisionalMatches casefold history inputs.allRefs)) (inputs.directInputs.zip fetched)
  let found := speculative.foldl addDirectResult (inputs.baseDocuments, inputs.baseLinks)
  let sections := buildMissingSections sectionRuntime found.1 stored
  let (documents, links) ←
    if options.waitForIndex then reconcileMergeIfReady casefold inputs history (found, speculative)
    else .ok found
  return writeMergedRegion hasText inputs documents links sections

end

/-! ## The fetches that are exposed -/

section

variable {B P : Type} (casefold : String → String) (digest : String → String)
variable (checkpoint : Option (Checkpoint B)) (inputs : MergeInputs B P) (history : IndexHistory B)

/-- The polygons that the checkpoint does not have. -/
def fetchedInputs : List (PolygonContext × List Ref) :=
  inputs.directInputs.filter (fun input =>
    (checkpointed (E := Empty) digest checkpoint input.1.polygonId input.2).isNone)

/-- The references of a polygon that the first lookup misses. -/
def pendingRefs (input : PolygonContext × List Ref) : List (Nat × Ref) :=
  unresolved casefold (lookupTitles casefold history.first inputs.allRefs) (enumerate 0 input.2)

/-- Those that are fetched after the index has become ready. -/
def lateFetches (input : PolygonContext × List Ref) : List (Nat × Ref) :=
  (pendingRefs casefold inputs history input).filter (fun p =>
    p ∉ early (history.during input.1.polygonId) (pendingRefs casefold inputs history input) 0)

/-- Those that the second lookup misses, too. -/
def unfoundFetches (input : PolygonContext × List Ref) : List (Nat × Ref) :=
  unresolved casefold (provisionalMatches casefold history inputs.allRefs)
    (pendingRefs casefold inputs history input)

/-- The fetches whose exception the merge raises, in the order in which it would. -/
def exposedFetches : List (Nat × Ref) :=
  (fetchedInputs digest checkpoint inputs).flatMap (lateFetches casefold inputs history)
    ++ (fetchedInputs digest checkpoint inputs).flatMap (unfoundFetches casefold inputs history)

end

/-! ## The merge is the merge without options -/

section

variable {B E K P : Type} {casefold : String → String}
variable {client : String → String → Except E (FetchResult B)} {errorText : E → String}
variable {digest : String → String} {checkpoint : Option (Checkpoint B)} {options : MergeOptions}
variable {waits : Waits} {sectionRuntime : SectionRuntime B K} {hasText : B → Bool}
variable {inputs : MergeInputs B P} {stored : List (SectionRow K)} {history : IndexHistory B}

variable (casefold client errorText digest checkpoint options waits history) in
theorem enrichDirectInputsWith_eq (initialMatches : Matches B) (inputs : MergeInputs B P) :
    enrichDirectInputsWith casefold client errorText digest checkpoint options waits history
        initialMatches inputs.directInputs
      = enrichDirectInputs casefold client errorText (checkpointed digest checkpoint) history
        initialMatches inputs.directInputs := by
  unfold enrichDirectInputsWith enrichDirectInputs
  dsimp only
  rw [enrichPendingDirectInputs_eq]
  refine (results_eq_mapM inputs.nodup).trans (mapM_congr_left (fun input _ => ?_))
  unfold enrichDirectInput
  cases checkpointed (E := E) digest checkpoint input.1.polygonId input.2 <;> rfl

/-! ## What enriching a polygon raises -/

/-- What the fetch of a reference raises. -/
def fetchError (client : String → String → Except E (FetchResult B)) (p : Nat × Ref) : Option E :=
  errorOf (client p.2.language p.2.title)

variable {context : PolygonContext}

theorem errorOf_resolvePending
    {speculative : AList (fun _ : Nat => Except E (FetchResult B))} (pending : List (Nat × Ref))
    (state : DirectRows B × AList (fun _ : Nat => E)) :
    errorOf (resolvePending casefold context client errorText (fun _ => []) speculative false
        pending state)
      = pending.findSome? (fun p =>
        if (speculative.lookup p.1).isSome then none else fetchError client p) := by
  induction pending generalizing state with
  | nil => rfl
  | cons p pending ih =>
    obtain ⟨position, ref⟩ := p
    rw [resolvePending, List.findSome?_cons]
    dsimp only
    unfold resolvePendingOutcome fetchError
    rcases speculative.lookup position with _ | e | result
    · -- the fetch happens now
      cases hclient : client ref.language ref.title with
      | error e => rfl
      | ok result => exact ih _
    · exact ih _
    · exact ih _

/-- **Enriching a polygon** raises what its late fetches raise. -/
theorem errorOf_enrichDirectInput (input : PolygonContext × List Ref)
    (hnone : checkpointed (E := E) digest checkpoint input.1.polygonId input.2 = none) :
    errorOf (enrichDirectInput casefold client errorText (checkpointed digest checkpoint) history
        (lookupTitles casefold history.first inputs.allRefs) input)
      = (lateFetches casefold inputs history input).findSome? (fetchError client) := by
  have hnodup : ((pendingRefs casefold inputs history input).map Prod.fst).Nodup :=
    (nodup_enumerate input.2).sublist (List.filter_sublist.map Prod.fst)
  unfold enrichDirectInput
  rw [hnone]
  dsimp only
  rw [enrich_eq_resolve, errorOf_bind (fun _ => rfl), errorOf_resolvePending, lateFetches,
    findSome?_filter_eq]
  change (pendingRefs casefold inputs history input).findSome? (fun p =>
    if ((fetchSpeculativeResults client (history.during input.1.polygonId)
      (pendingRefs casefold inputs history input) 0 ∅).lookup p.1).isSome then none
    else fetchError client p) = _
  refine findSome?_congr_on (fun p hp => ?_)
  rw [lookup_fetchSpeculativeResults _ hnodup 0 ∅ hp, AList.lookup_empty]
  by_cases hearly : p ∈ early (history.during input.1.polygonId)
      (pendingRefs casefold inputs history input) 0
  · simp [hearly]
  · simp [hearly]

variable {result : EnrichmentResult B E}

theorem lookup_deferredErrors {input : PolygonContext × List Ref}
    (hnone : checkpointed (E := E) digest checkpoint input.1.polygonId input.2 = none)
    (hok : enrichDirectInput casefold client errorText (checkpointed digest checkpoint) history
      (lookupTitles casefold history.first inputs.allRefs) input = .ok result)
    {p : Nat × Ref} (hp : p ∈ enumerate 0 input.2) :
    result.deferredErrors.lookup p.1
      = if p ∈ pendingRefs casefold inputs history input then fetchError client p else none := by
  have hnodup : ((pendingRefs casefold inputs history input).map Prod.fst).Nodup :=
    (nodup_enumerate input.2).sublist (List.filter_sublist.map Prod.fst)
  let index := history.during input.1.polygonId
  let pending := pendingRefs casefold inputs history input
  have hspec : ∀ q ∈ pending, (fetchSpeculativeResults client index pending 0 ∅).lookup q.1
      = if q ∈ early index pending 0 then some (client q.2.language q.2.title) else none := by
    intro q hq
    rw [lookup_fetchSpeculativeResults index hnodup 0 ∅ hq, AList.lookup_empty]
  have hwait : ∀ q, q ∈ early index pending 0 → false = false := fun _ _ => rfl
  let noMatches : Matches B := fun _ => []
  have hfinal : ∀ q ∈ pending, noMatches (q.2.key casefold) = [] := fun _ _ => rfl
  have hresolve := resolvePending_eq input.1 errorText hwait hnodup hfinal hspec
    ((enumerate 0 input.2).filterMap
      (foundEntry casefold (lookupTitles casefold history.first inputs.allRefs))) ∅
  unfold enrichDirectInput at hok
  rw [hnone] at hok
  dsimp only at hok
  rw [enrich_eq_resolve] at hok
  split at hresolve
  · obtain ⟨e, he⟩ := hresolve
    have herror := hok.symm.trans (congrArg (· >>= _) he)
    cases herror
  · obtain ⟨deferredErrors, hresolved, hframe, herrors⟩ := hresolve
    have hresult := hok.symm.trans (congrArg (· >>= _) hresolved)
    cases hresult
    dsimp only
    split
    · rename_i hpending
      rw [herrors p hpending, fetchError]
      cases client p.2.language p.2.title <;> rfl
    · rename_i hpending
      rw [hframe p.1, AList.lookup_empty]
      -- no other reference has this position
      intro hmem
      obtain ⟨q, hq, hqp⟩ := List.mem_map.mp hmem
      have heq : q = p := List.inj_on_of_nodup_map (nodup_enumerate input.2)
        (List.mem_filter.mp hq).1 hp hqp
      exact hpending (heq ▸ hq)

/-! ## What reconciling raises -/

theorem errorOf_reconcileReferences (result : EnrichmentResult B E)
    (finalMatches directByTitle : Matches B) (ps : List (Nat × Ref)) (rows : DirectRows B)
    (statuses : List Status) :
    errorOf (reconcileReferences casefold context result finalMatches directByTitle ps rows
        statuses)
      = (unresolved casefold finalMatches ps).findSome?
        (fun p => result.deferredErrors.lookup p.1) := by
  unfold unresolved
  rw [findSome?_filter_eq]
  induction ps generalizing rows statuses with
  | nil => rfl
  | cons p ps ih =>
    obtain ⟨position, ref⟩ := p
    rw [reconcileReferences, List.findSome?_cons]
    unfold reconcileReference
    dsimp only
    cases finalMatches (ref.key casefold) with
    | cons document rest => exact ih _ _
    | nil =>
      cases result.deferredErrors.lookup position with
      | some e => rfl
      | none => exact ih _ _

/-- **Reconciling a polygon** raises the first exception that is kept for a reference that is not
found. -/
theorem errorOf_reconcileWikipediaRefs (context : PolygonContext) (refs : List Ref)
    (result : EnrichmentResult B E) (index : Index B) (titleMatches : Option (Matches B)) :
    errorOf (reconcileWikipediaRefs casefold context refs result index titleMatches)
      = (unresolved casefold (titleMatches.getD (lookupTitles casefold index refs))
        (enumerate 0 refs)).findSome? (fun p => result.deferredErrors.lookup p.1) := by
  unfold reconcileWikipediaRefs
  dsimp only
  rw [errorOf_bind (fun _ => rfl), errorOf_reconcileReferences]

theorem deferredErrors_of_reconcile {refs : List Ref}
    {result reconciled : EnrichmentResult B E} {index : Index B} {titleMatches : Option (Matches B)}
    (h : reconcileWikipediaRefs casefold context refs result index titleMatches = .ok reconciled) :
    reconciled.deferredErrors = ∅ := by
  unfold reconcileWikipediaRefs at h
  obtain ⟨state, -, hreturn⟩ := bind_eq_ok.mp h
  cases hreturn
  rfl

theorem errorOf_reconcile_of_empty (context : PolygonContext) (refs : List Ref)
    (hempty : result.deferredErrors = ∅) (index : Index B)
    (titleMatches : Option (Matches B)) :
    errorOf (reconcileWikipediaRefs casefold context refs result index titleMatches) = none := by
  rw [errorOf_reconcileWikipediaRefs, List.findSome?_eq_none_iff]
  intro p _
  rw [hempty, AList.lookup_empty]

theorem deferredErrors_of_checkpointed {polygonId : String} {refs : List Ref}
    (h : checkpointed digest checkpoint polygonId refs = some result) :
    result.deferredErrors = ∅ := by
  obtain ⟨s, -, hload⟩ := Option.bind_eq_some_iff.mp h
  unfold Checkpoint.loadDirect at hload
  split at hload
  · cases hload
  · split at hload
    · cases hload
      rfl
    · cases hload

theorem isNone_checkpointed (polygonId : String) (refs : List Ref) :
    (checkpointed (E := E) digest checkpoint polygonId refs).isNone
      = (checkpointed (E := Empty) digest checkpoint polygonId refs).isNone := by
  unfold checkpointed Checkpoint.loadDirect
  cases checkpoint with
  | none => rfl
  | some s =>
    rw [Option.bind_some, Option.bind_some]
    split
    · rfl
    · split <;> rfl

theorem errorOf_reconcile_enriched (input : PolygonContext × List Ref)
    (hok : enrichDirectInput casefold client errorText (checkpointed digest checkpoint) history
      (lookupTitles casefold history.first inputs.allRefs) input = .ok result) :
    errorOf (reconcileWikipediaRefs casefold input.1 input.2 result history.second
        (some (provisionalMatches casefold history inputs.allRefs)))
      = if (checkpointed (E := E) digest checkpoint input.1.polygonId input.2).isNone then
          (unfoundFetches casefold inputs history input).findSome? (fetchError client)
        else none := by
  cases hcached : checkpointed (E := E) digest checkpoint input.1.polygonId input.2 with
  | some loaded =>
    have hloaded : loaded = result := by
      unfold enrichDirectInput at hok
      rw [hcached] at hok
      cases hok
      rfl
    rw [Option.isNone_some, if_neg Bool.false_ne_true]
    exact errorOf_reconcile_of_empty _ _ (deferredErrors_of_checkpointed (hloaded ▸ hcached)) _ _
  | none =>
    rw [Option.isNone_none, if_pos rfl, errorOf_reconcileWikipediaRefs, Option.getD_some]
    unfold unfoundFetches pendingRefs unresolved
    rw [List.filter_comm]
    refine Eq.trans (findSome?_congr_on (fun p hp => ?_)) (findSome?_filter_eq _ _ _).symm
    rw [lookup_deferredErrors hcached hok (List.mem_filter.mp hp).1]
    unfold pendingRefs unresolved
    simp only [List.mem_filter, (List.mem_filter.mp hp).1, true_and]

/-! ## What a merge raises -/

variable (errorText) in
theorem errorOf_enrichDirectInputs :
    errorOf (enrichDirectInputs casefold client errorText (checkpointed digest checkpoint) history
        (lookupTitles casefold history.first inputs.allRefs) inputs.directInputs)
      = ((fetchedInputs digest checkpoint inputs).flatMap
        (lateFetches casefold inputs history)).findSome? (fetchError client) := by
  unfold enrichDirectInputs
  rw [errorOf_mapM, findSome?_flatMap_eq, fetchedInputs, findSome?_filter_eq]
  refine findSome?_congr_on (fun input _ => ?_)
  rw [← isNone_checkpointed (E := E)]
  cases hcached : checkpointed (E := E) digest checkpoint input.1.polygonId input.2 with
  | some loaded =>
    unfold enrichDirectInput
    rw [hcached]
    rfl
  | none =>
    rw [errorOf_enrichDirectInput input hcached]
    rfl

theorem errorOf_reconcileAll {fetched : List (EnrichmentResult B E)}
    (hok : enrichDirectInputs casefold client errorText (checkpointed digest checkpoint) history
      (lookupTitles casefold history.first inputs.allRefs) inputs.directInputs = .ok fetched) :
    errorOf (reconcileAll casefold history.second
        (some (provisionalMatches casefold history inputs.allRefs))
        (inputs.directInputs.zip fetched))
      = ((fetchedInputs digest checkpoint inputs).flatMap
        (unfoundFetches casefold inputs history)).findSome? (fetchError client) := by
  unfold reconcileAll
  rw [errorOf_mapM, findSome?_flatMap_eq, fetchedInputs, findSome?_filter_eq]
  refine findSome?_zip (mapM_eq_ok_iff.mp hok) (fun input _ result hresult => ?_)
  rw [errorOf_reconcile_enriched input hresult, isNone_checkpointed]

theorem errorOf_reconcileMergeIfReady {fetched speculative : List (EnrichmentResult B E)}
    (hok : reconcileAll casefold history.second
      (some (provisionalMatches casefold history inputs.allRefs))
      (inputs.directInputs.zip fetched) = .ok speculative)
    (found : List (Document B) × List LinkRow) :
    errorOf (reconcileMergeIfReady casefold inputs history (found, speculative)) = none := by
  unfold reconcileMergeIfReady
  split
  · rfl
  · refine (errorOf_bind (fun _ => rfl) _).trans ?_
    unfold reconcileAll
    rw [errorOf_mapM, List.findSome?_eq_none_iff]
    rintro ⟨input, reconciled⟩ hmem
    obtain ⟨pair, -, hreconciled⟩ := exists_of_mem_mapM hok (List.of_mem_zip hmem).2
    exact errorOf_reconcile_of_empty _ _ (deferredErrors_of_reconcile hreconciled) _ _

variable (casefold client errorText digest checkpoint options waits sectionRuntime hasText inputs
  stored history) in
/-- **The first exposed fetch that raises decides** what a merge raises. -/
theorem errorOf_mergeRegion :
    errorOf (mergeRegion casefold client errorText digest checkpoint options waits sectionRuntime
        hasText inputs stored history)
      = (exposedFetches casefold digest checkpoint inputs history).findSome? (fetchError client) := by
  unfold mergeRegion exposedFetches
  dsimp only
  rw [List.findSome?_append, ← errorOf_enrichDirectInputs errorText, enrichDirectInputsWith_eq]
  cases hfetched : enrichDirectInputs casefold client errorText (checkpointed digest checkpoint)
      history (lookupTitles casefold history.first inputs.allRefs) inputs.directInputs with
  | error e => rfl
  | ok fetched =>
    rw [← errorOf_reconcileAll hfetched]
    show errorOf (reconcileAll casefold history.second _ _ >>= _) = _
    cases hspeculative : reconcileAll casefold history.second
        (some (provisionalMatches casefold history inputs.allRefs))
        (inputs.directInputs.zip fetched) with
    | error e => rfl
    | ok speculative =>
      dsimp only [bind, Except.bind]
      split
      · exact (errorOf_bind (fun _ => rfl) _).trans
          (errorOf_reconcileMergeIfReady hspeculative _)
      · rfl

end

/-! ## Exceptions in time -/

section

variable {B E K P : Type} (casefold : String → String)
variable (client : String → String → Except E (FetchResult B)) (errorText : E → String)
variable (digest : String → String) (checkpoint : Option (Checkpoint B)) (options : MergeOptions)
variable (waits : Waits) (sectionRuntime : SectionRuntime B K) (hasText : B → Bool)
variable (inputs : MergeInputs B P) (stored : List (SectionRow K)) (history : IndexHistory B)

/-- What an index has for a reference. -/
def reusable (index : Index B) (ref : Ref) : List (Document B) :=
  lookupTitles casefold index [ref] (ref.key casefold)

/-- Every fetch raises an exception of its own: one that names its page. -/
def marked (language title : String) : Except (E × String × String) (FetchResult B) :=
  (client language title).mapError (fun e => (e, language, title))

/-- An exception that a merge raises comes from the fetch of a reference that the completed index
does not have. -/
def ErrorsInTime : Prop :=
  ∀ e language title,
    mergeRegion casefold (marked client) (fun e => errorText e.1) digest checkpoint options waits
      sectionRuntime hasText inputs stored history = .error (e, language, title) →
    ∃ ref ∈ inputs.allRefs, ref.language = language ∧ ref.title = title
      ∧ client language title = .error e ∧ reusable casefold history.completed ref = []

variable {casefold client digest checkpoint inputs history}

theorem reusable_congr {index : Index B} {ref ref' : Ref} (hlanguage : ref.language = ref'.language)
    (htitle : ref.title = ref'.title) :
    reusable casefold index ref = reusable casefold index ref' := by
  unfold reusable lookupTitles Ref.key
  cases index.batched
  · simp [hlanguage, htitle]
  · simp [hlanguage, htitle]

theorem fetchError_marked (p : Nat × Ref) : fetchError (marked client) p
      = (fetchError client p).map (fun e => (e, p.2.language, p.2.title)) := by
  unfold fetchError marked
  cases client p.2.language p.2.title <;> rfl

theorem isSome_fetchError (p : Nat × Ref) :
    (fetchError (marked client) p).isSome = raises client p := by
  unfold fetchError marked raises
  cases client p.2.language p.2.title <;> rfl

theorem mem_allRefs_of_exposed {p : Nat × Ref}
    (hp : p ∈ exposedFetches casefold digest checkpoint inputs history) : p.2 ∈ inputs.allRefs := by
  have hpending : ∃ input ∈ inputs.directInputs, p ∈ pendingRefs casefold inputs history input := by
    rcases List.mem_append.mp hp with hp | hp
    · obtain ⟨input, hinput, hlate⟩ := List.mem_flatMap.mp hp
      exact ⟨input, (List.mem_filter.mp hinput).1, (List.mem_filter.mp hlate).1⟩
    · obtain ⟨input, hinput, hunfound⟩ := List.mem_flatMap.mp hp
      exact ⟨input, (List.mem_filter.mp hinput).1, (List.mem_filter.mp hunfound).1⟩
  obtain ⟨input, hinput, hp⟩ := hpending
  refine List.mem_flatMap.mpr ⟨input, hinput, ?_⟩
  rw [← map_snd_enumerate 0 input.2]
  exact List.mem_map_of_mem (List.mem_filter.mp hp).1

variable (casefold client digest checkpoint inputs history) in
/-- **When exceptions are in time**: the first exposed fetch that raises is for a page that the
completed index does not have. -/
theorem errorsInTime_iff :
    ErrorsInTime casefold client errorText digest checkpoint options waits sectionRuntime hasText
        inputs stored history
      ↔ ∀ p, (exposedFetches casefold digest checkpoint inputs history).find? (raises client)
          = some p → reusable casefold history.completed p.2 = [] := by
  have hmerge : ∀ e, mergeRegion casefold (marked client) (fun e => errorText e.1) digest checkpoint
      options waits sectionRuntime hasText inputs stored history = .error e
      ↔ ((exposedFetches casefold digest checkpoint inputs history).find? (raises client)).bind
        (fetchError (marked client)) = some e := by
    intro e
    rw [← errorOf_eq_some_iff, errorOf_mergeRegion, findSome?_eq_find?_bind]
    simp only [isSome_fetchError]
  unfold ErrorsInTime
  simp only [hmerge]
  constructor
  · intro h p hfind
    have hraises : (fetchError client p).isSome := by
      have hp := List.find?_some hfind
      rw [← isSome_fetchError, fetchError_marked] at hp
      simpa using hp
    obtain ⟨e, he⟩ := Option.isSome_iff_exists.mp hraises
    obtain ⟨ref, -, hlanguage, htitle, -, hnil⟩ := h e p.2.language p.2.title (by
      rw [hfind, Option.bind_some, fetchError_marked, he]
      rfl)
    rw [← reusable_congr hlanguage htitle]
    exact hnil
  · intro h e language title hraised
    obtain ⟨p, hfind, hp⟩ := Option.bind_eq_some_iff.mp hraised
    rw [fetchError_marked] at hp
    obtain ⟨e', he', heq⟩ := Option.map_eq_some_iff.mp hp
    cases heq
    exact ⟨p.2, mem_allRefs_of_exposed (List.mem_of_find?_eq_some hfind), rfl, rfl,
      errorOf_eq_some_iff.mp he', h p hfind⟩

end

namespace TimeoutExample

open LateExample

/-- Every fetch fails. -/
def timeout (_ _ : String) : Except String (FetchResult String) := .error "timed out"

/-- All futures are done at once. -/
def together : Waits := ⟨fun _ positions => positions, fun _ _ _ h => h, fun _ _ h => h⟩

/-- **Raised too early.** The page `Foo` cannot be fetched. The index has it once it is complete,
but not yet at the second lookup, and that ends the merge. -/
theorem raised_before_completion : GrowingHistory TitleExample.fold lateHistory
      ∧ ¬ ErrorsInTime TitleExample.fold timeout id id none ⟨1, true⟩ together
        pageSections (fun _ => true) fooInputs [] lateHistory := by
  refine ⟨lateHistory_growing, fun h => ?_⟩
  have hexposed : (exposedFetches TitleExample.fold id none fooInputs
      lateHistory).findSome? (fetchError (marked timeout)) = some ("timed out", "en", "Foo") := by
    decide +kernel
  rw [← errorOf_mergeRegion, errorOf_eq_some_iff] at hexposed
  obtain ⟨ref, -, hlanguage, htitle, -, hnil⟩ := h _ _ _ hexposed
  have hfoo : reusable TitleExample.fold fooIndex ⟨"en", "Foo", "", ""⟩
      = [fooDocument] := by decide +kernel
  have hsame : reusable TitleExample.fold lateHistory.completed ref
      = [fooDocument] := (reusable_congr hlanguage htitle).trans hfoo
  rw [hsame] at hnil
  cases hnil

end TimeoutExample

end OsmPolygonWikidata.Direct
