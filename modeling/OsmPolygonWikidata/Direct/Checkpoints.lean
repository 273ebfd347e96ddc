import OsmPolygonWikidata.Direct.Passes

/-! # Checkpoints of direct fetches

`RegionFetchCheckpoint` of `v2/checkpoints.py`, and `merge_v2_region` with a checkpoint directory.
The directory holds `metadata.json` and one file per polygon, under the digest of the identifier of
the polygon. Opening a checkpoint whose metadata does not match deletes its files one by one and
writes new metadata; the polygons that have no file are enriched and saved in order. Each of these
is an act, and a run can be killed in front of each.

A file is read again for the same identifier and the same references. It holds the documents that
enriching stored then, fetched pages and rows of the index alike. The contract versions are
constant, the section files play no part, and a file is read back as it was written.
-/

namespace OsmPolygonWikidata.Direct

open V1Index Python Durable
open Prog (wp run_bind run_bind_ok run_get wp_bind wp_exec wp_get wp_imp wp_ite wp_pure wp_returns
  wp_safe wp_step)

/-! ## The directory -/

/-- The columns of an extracted polygon that the fetches depend on, as strings. -/
structure ExtractedPolygon where
  polygonId : String
  wikipediaTagRefs : String
  wikidata : String
  sourcePbf : String
  region : String
  osmType : String
  osmId : String

def ExtractedPolygon.contextFields (row : ExtractedPolygon) : List String :=
  [row.polygonId, row.wikipediaTagRefs, row.wikidata, row.sourcePbf, row.region, row.osmType,
    row.osmId]

def regionInputFingerprint (sha256 : List (List String) → String)
    (polygons : List ExtractedPolygon) : String :=
  sha256 ((polygons.map ExtractedPolygon.contextFields).insertionSort (· ≤ ·))

/-- `metadata.json`. -/
structure Metadata where
  inputFingerprint : String
  fetchFullText : Bool
  deriving DecidableEq

/-- The file of a polygon. -/
structure DirectPayload (B : Type) where
  polygonId : String
  refs : List Ref
  documents : List (Document B)
  links : List Link
  statuses : List Status

structure Checkpoint (B : Type) where
  metadata : Option Metadata
  direct : AList (fun _ : String => DirectPayload B)

def Checkpoint.empty (B : Type) : Checkpoint B := ⟨none, ∅⟩

section

variable {B E : Type}

/-- Delete files of polygons. -/
def unlinkDirect : List String → Prog (Checkpoint B) E Unit
  | [] => return ()
  | key :: keys => do
    Prog.step (fun s => { s with direct := s.direct.erase key })
    unlinkDirect keys

/-- `RegionFetchCheckpoint.clear`. -/
def clear : Prog (Checkpoint B) E Unit := do
  let s ← Prog.get
  unlinkDirect s.direct.keys
  Prog.step (fun s => { s with metadata := none })

/-- `RegionFetchCheckpoint._prepare`. -/
def prepare (metadata : Metadata) : Prog (Checkpoint B) E Unit := do
  let s ← Prog.get
  if s.metadata = some metadata then return ()
  else do
    clear
    Prog.step (fun s => { s with metadata := some metadata })

/-- What `_prepare` leaves. -/
def Checkpoint.prepared (s : Checkpoint B) (metadata : Metadata) : Checkpoint B :=
  if s.metadata = some metadata then s else ⟨some metadata, ∅⟩

variable (digest : String → String)

/-- What `save_direct` writes. -/
def savedPayload (polygonId : String) (refs : List Ref) (result : EnrichmentResult B E) :
    DirectPayload B :=
  ⟨polygonId, refs, result.documents, result.links, result.statuses⟩

def saveDirect (polygonId : String) (refs : List Ref) (result : EnrichmentResult B E) :
    Prog (Checkpoint B) E Unit :=
  if result.deferredErrors.entries.isEmpty then
    let payload := savedPayload polygonId refs result
    Prog.step (fun s => { s with direct := s.direct.insert (digest polygonId) payload })
  else return ()

/-- `load_direct`, with `_direct_payload_matches` and `_load_direct_statuses`. -/
def Checkpoint.loadDirect (s : Checkpoint B) (polygonId : String) (refs : List Ref) :
    Option (EnrichmentResult B E) :=
  match s.direct.lookup (digest polygonId) with
  | none => none
  | some payload =>
    if payload.polygonId = polygonId ∧ payload.refs = refs
        ∧ payload.statuses.length = refs.length then
      some ⟨payload.documents, payload.links,
        List.zipWith (fun (status : Status) ref => { status with ref := ref }) payload.statuses refs,
        ∅⟩
    else none

end

/-! ## A merge with a checkpoint -/

/-- Raise the error of a pure step. -/
def liftExcept {σ E A : Type} : Except E A → Prog σ E A
  | .ok a => return a
  | .error e => .raise e

/-- A run of `merge_v2_region`: what it reads, and the index at the times when it asks it. -/
structure MergeRun (B K P : Type) where
  extracted : List ExtractedPolygon
  fetchFullText : Bool
  inputs : MergeInputs B P
  stored : List (SectionRow K)
  sectionRuntime : SectionRuntime B K
  hasText : B → Bool
  history : IndexHistory B

section

variable {B E K P : Type} (casefold : String → String)
variable (client : Bool → String → String → Except E (FetchResult B)) (errorText : E → String)
variable (digest : String → String) (sha256 : List (List String) → String)

/-- The metadata of a run. -/
def MergeRun.metadata (run : MergeRun B K P) : Metadata :=
  ⟨regionInputFingerprint sha256 run.extracted, run.fetchFullText⟩

/-- The matches that a run begins with. -/
def MergeRun.initialMatches (run : MergeRun B K P) : Matches B :=
  lookupTitles casefold run.history.first run.inputs.allRefs

/-- `_enrich_direct_item`, for one polygon. -/
def MergeRun.enrichItem (run : MergeRun B K P) (input : PolygonContext × List Ref) :
    Except E (EnrichmentResult B E) :=
  enrichWikipediaRefs casefold input.1 (client run.fetchFullText) errorText input.2
    (run.history.during input.1.polygonId) run.history.second
    ⟨false, some (run.initialMatches casefold), true⟩

/-- A polygon that was loaded is skipped, another one is enriched and saved. -/
def enrichOrLoad (run : MergeRun B K P)
    (cached : String → List Ref → Option (EnrichmentResult B E))
    (input : PolygonContext × List Ref) : Prog (Checkpoint B) E (EnrichmentResult B E) :=
  match cached input.1.polygonId input.2 with
  | some result => return result
  | none => do
    let result ← liftExcept (run.enrichItem casefold client errorText input)
    saveDirect digest input.1.polygonId input.2 result
    return result

/-- `enrich_direct_inputs`. The results are saved in the order of the polygons. -/
def enrichAndSave (run : MergeRun B K P)
    (cached : String → List Ref → Option (EnrichmentResult B E)) :
    List (PolygonContext × List Ref) → Prog (Checkpoint B) E (List (EnrichmentResult B E))
  | [] => return []
  | input :: rest => do
    let result ← enrichOrLoad casefold client errorText digest run cached input
    let results ← enrichAndSave run cached rest
    return result :: results

/-- The merge, once the polygons are enriched. -/
def MergeRun.finish (run : MergeRun B K P) (fetched : List (EnrichmentResult B E)) :
    Except E (MergedRegion B K P) := do
  let speculative ← reconcileAll casefold run.history.second
    (some (provisionalMatches casefold run.history run.inputs.allRefs))
    (run.inputs.directInputs.zip fetched)
  let found := (speculative.foldl addDirectResult
    (run.inputs.baseDocuments, run.inputs.baseLinks), speculative)
  let sections := buildMissingSections run.sectionRuntime found.1.1 run.stored
  let (documents, links) ← reconcileMergeIfReady casefold run.inputs run.history found
  return writeMergedRegion run.hasText run.inputs documents links sections

/-- `merge_v2_region` with a checkpoint directory and `wait_for_index=True`. -/
def mergeWithCheckpoint (run : MergeRun B K P) : Prog (Checkpoint B) E (MergedRegion B K P) := do
  prepare (run.metadata sha256)
  let s ← Prog.get
  let fetched ← enrichAndSave casefold client errorText digest run (s.loadDirect digest)
    run.inputs.directInputs
  liftExcept (run.finish casefold fetched)

/-- The directory after runs that were each killed in front of some act, or ended before it. -/
def afterRuns : List (MergeRun B K P × Nat) → Checkpoint B → Checkpoint B
  | [], s => s
  | (run, n) :: runs, s => afterRuns runs
      (Prog.exec (mergeWithCheckpoint casefold client errorText digest sha256 run) n s).state

end

/-! ## A run of the program -/

section

variable {B E K P : Type} {casefold : String → String}
variable {client : Bool → String → String → Except E (FetchResult B)} {errorText : E → String}
variable {digest : String → String} {sha256 : List (List String) → String}

theorem unlinkDirect_wp {K : Checkpoint B → Prop}
    (hK : ∀ s key, K s → K { s with direct := s.direct.erase key }) (keys : List String)
    {s : Checkpoint B} (hs : K s) :
    wp (unlinkDirect keys : Prog (Checkpoint B) E Unit)
      (fun _ s' => s'.metadata = s.metadata
        ∧ ∀ key, s'.direct.lookup key = if key ∈ keys then none else s.direct.lookup key)
      (fun _ _ => False) K s := by
  induction keys generalizing s with
  | nil => exact ⟨rfl, fun key => by simp⟩
  | cons key keys ih =>
    simp only [unlinkDirect, wp_bind, wp_step]
    refine ⟨hs, wp_imp ?_ (ih (hK s key hs))⟩
    rintro - s' ⟨hmetadata, hlookup⟩
    refine ⟨hmetadata, fun other => ?_⟩
    rw [hlookup]
    by_cases hkey : other = key
    · subst hkey
      simp [AList.lookup_erase]
    · rw [AList.lookup_erase_ne hkey]
      simp [hkey]

theorem direct_eq_empty {direct : AList (fun _ : String => DirectPayload B)}
    (h : ∀ key, direct.lookup key = none) : direct = ∅ := by
  refine AList.ext ?_
  cases hentries : direct.entries with
  | nil => rfl
  | cons entry entries =>
    have hmem : entry.1 ∈ direct := by
      show entry.1 ∈ direct.entries.keys
      rw [hentries]
      exact List.mem_cons_self
    exact absurd (h entry.1) (by simpa [AList.lookup_eq_none] using hmem)

theorem prepare_wp {K : Checkpoint B → Prop}
    (hK : ∀ s key, K s → K { s with direct := s.direct.erase key })
    (hempty : ∀ metadata, K ⟨metadata, ∅⟩) (metadata : Metadata) {s : Checkpoint B} (hs : K s) :
    wp (prepare metadata : Prog (Checkpoint B) E Unit)
      (fun _ s' => s' = s.prepared metadata ∧ K s') (fun _ _ => False) K s := by
  unfold prepare Checkpoint.prepared
  rw [wp_bind, wp_get, wp_ite]
  split
  · exact ⟨rfl, hs⟩
  · unfold clear
    simp only [wp_bind, wp_get, wp_step]
    refine wp_imp ?_ (unlinkDirect_wp hK s.direct.keys hs)
    rintro - s' ⟨-, hlookup⟩
    have hnone : s'.direct = ∅ := by
      refine direct_eq_empty (fun key => ?_)
      rw [hlookup]
      split
      · rfl
      · rename_i hkey
        exact AList.lookup_eq_none.mpr hkey
    have hK' : ∀ metadata, K ⟨metadata, s'.direct⟩ := fun metadata => by
      rw [hnone]
      exact hempty metadata
    refine ⟨hK' s'.metadata, hK' none, ?_, hK' (some metadata)⟩
    rw [hnone]

theorem run_prepare (metadata : Metadata) (s : Checkpoint B) :
    Prog.run (prepare metadata : Prog (Checkpoint B) E Unit) s = (.ok (), s.prepared metadata) := by
  have hwp : wp (prepare metadata : Prog (Checkpoint B) E Unit) _ _ (fun _ => True) s :=
    prepare_wp (fun _ _ _ => trivial) (fun _ => trivial) metadata trivial
  obtain ⟨⟨⟩, s', hrun, hs', -⟩ := wp_returns hwp
  rw [hrun, hs']

variable (digest) in
theorem run_saveDirect (polygonId : String) (refs : List Ref) (result : EnrichmentResult B E)
    (s : Checkpoint B) : ∃ s', Prog.run (saveDirect digest polygonId refs result) s = (.ok (), s') := by
  unfold saveDirect
  split
  · exact ⟨_, rfl⟩
  · exact ⟨s, rfl⟩

variable (digest) in
theorem run_enrichOrLoad (run : MergeRun B K P)
    (cached : String → List Ref → Option (EnrichmentResult B E))
    (input : PolygonContext × List Ref) (s : Checkpoint B) :
    (Prog.run (enrichOrLoad casefold client errorText digest run cached input) s).1
      = enrichDirectInput casefold (client run.fetchFullText) errorText cached run.history
        (run.initialMatches casefold) input := by
  unfold enrichOrLoad enrichDirectInput
  cases cached input.1.polygonId input.2 with
  | some result => rfl
  | none =>
    show (Prog.run (liftExcept (run.enrichItem casefold client errorText input) >>= _) s).1
      = run.enrichItem casefold client errorText input
    cases run.enrichItem casefold client errorText input with
    | error e => rfl
    | ok result =>
      obtain ⟨s', hsave⟩ := run_saveDirect digest input.1.polygonId input.2 result s
      show (Prog.run (saveDirect digest input.1.polygonId input.2 result >>= _) s).1 = _
      rw [run_bind_ok hsave]
      rfl

variable (run : MergeRun B K P) (cached : String → List Ref → Option (EnrichmentResult B E))

include run cached

variable (digest) in
theorem run_enrichAndSave (inputs : List (PolygonContext × List Ref)) (s : Checkpoint B) :
    (Prog.run (enrichAndSave casefold client errorText digest run cached inputs) s).1
      = inputs.mapM (enrichDirectInput casefold (client run.fetchFullText) errorText cached
        run.history (run.initialMatches casefold)) := by
  induction inputs generalizing s with
  | nil => rfl
  | cons input rest ih =>
    rw [List.mapM_cons, ← run_enrichOrLoad digest run cached input s, enrichAndSave,
      run_bind]
    rcases Prog.run (enrichOrLoad casefold client errorText digest run cached input) s
      with ⟨_ | result, s'⟩
    · rfl
    · dsimp only
      rw [run_bind, ← ih s']
      rcases Prog.run (enrichAndSave casefold client errorText digest run cached rest) s'
        with ⟨_ | results, s''⟩ <;> rfl

theorem mergeV2Region_eq_bind :
    mergeV2Region casefold (client run.fetchFullText) errorText cached run.sectionRuntime run.hasText
        run.inputs run.stored run.history
      = run.inputs.directInputs.mapM (enrichDirectInput casefold (client run.fetchFullText) errorText
          cached run.history (run.initialMatches casefold)) >>= run.finish casefold := by
  unfold mergeV2Region collectSpeculativeDirectResults MergeRun.finish enrichDirectInputs
    MergeRun.initialMatches
  dsimp only
  cases run.inputs.directInputs.mapM (enrichDirectInput casefold (client run.fetchFullText) errorText
    cached run.history (lookupTitles casefold run.history.first run.inputs.allRefs)) with
  | error e => rfl
  | ok fetched =>
    dsimp only [bind, Except.bind]
    cases reconcileAll (E := E) casefold run.history.second
      (some (provisionalMatches casefold run.history run.inputs.allRefs))
      (run.inputs.directInputs.zip fetched) <;> rfl

omit run cached

variable (casefold client errorText digest sha256) in
/-- **A merge with a checkpoint** returns what the merge does whose polygons are those of the
checkpoint where it has them. -/
theorem run_mergeWithCheckpoint (run : MergeRun B K P) (s : Checkpoint B) :
    (Prog.run (mergeWithCheckpoint casefold client errorText digest sha256 run) s).1
      = mergeV2Region casefold (client run.fetchFullText) errorText
        ((s.prepared (run.metadata sha256)).loadDirect digest) run.sectionRuntime run.hasText
        run.inputs run.stored run.history := by
  rw [mergeV2Region_eq_bind]
  unfold mergeWithCheckpoint
  rw [run_bind_ok (run_prepare _ s), run_bind_ok (run_get _), run_bind,
    ← run_enrichAndSave digest run _ _ (s.prepared (run.metadata sha256))]
  rcases Prog.run (enrichAndSave casefold client errorText digest run
    ((s.prepared (run.metadata sha256)).loadDirect digest) run.inputs.directInputs)
    (s.prepared (run.metadata sha256)) with ⟨_ | fetched, s'⟩
  · rfl
  · show (Prog.run (liftExcept (run.finish casefold fetched)) s').1 = run.finish casefold fetched
    cases run.finish casefold fetched <;> rfl

end

/-! ## What the directory holds -/

variable {B E K P : Type} (casefold : String → String)
variable (client : Bool → String → String → Except E (FetchResult B)) (errorText : E → String)
variable (digest : String → String) (sha256 : List (List String) → String)

/-- Every file is what one of the runs gave a polygon, when the metadata was that of the run. -/
def SavedBy (runs : MergeRun B K P → Prop) (s : Checkpoint B) : Prop :=
  ∀ key payload, s.direct.lookup key = some payload →
    ∃ run, runs run ∧ s.metadata = some (run.metadata sha256)
      ∧ ∃ input ∈ run.inputs.directInputs, ∃ result,
        run.enrichItem casefold client errorText input = .ok result
        ∧ result.deferredErrors.entries = []
        ∧ payload = savedPayload input.1.polygonId input.2 result

variable {casefold client errorText digest sha256} {runs : MergeRun B K P → Prop}

theorem savedBy_empty (metadata : Option Metadata) :
    SavedBy casefold client errorText sha256 runs ⟨metadata, ∅⟩ := by
  intro key payload h
  rw [AList.lookup_empty] at h
  cases h

variable {s : Checkpoint B}

theorem SavedBy.erase (h : SavedBy casefold client errorText sha256 runs s) (key : String) :
    SavedBy casefold client errorText sha256 runs { s with direct := s.direct.erase key } := by
  intro other payload hlookup
  by_cases hkey : other = key
  · subst hkey
    rw [AList.lookup_erase] at hlookup
    cases hlookup
  · rw [AList.lookup_erase_ne hkey] at hlookup
    exact h other payload hlookup

theorem SavedBy.insert (h : SavedBy casefold client errorText sha256 runs s) {run : MergeRun B K P}
    (hrun : runs run) (hmetadata : s.metadata = some (run.metadata sha256))
    {input : PolygonContext × List Ref} (hinput : input ∈ run.inputs.directInputs)
    {result : EnrichmentResult B E}
    (hresult : run.enrichItem casefold client errorText input = .ok result)
    (herrors : result.deferredErrors.entries = []) (key : String) :
    SavedBy casefold client errorText sha256 runs
      { s with direct := s.direct.insert key (savedPayload input.1.polygonId input.2 result) } := by
  intro other payload hlookup
  by_cases hkey : other = key
  · subst hkey
    rw [AList.lookup_insert] at hlookup
    exact ⟨run, hrun, hmetadata, input, hinput, result, hresult, herrors,
      (Option.some.inj hlookup).symm⟩
  · rw [AList.lookup_insert_ne hkey] at hlookup
    exact h other payload hlookup

variable (digest) in
theorem enrichAndSave_wp {run : MergeRun B K P} (hrun : runs run)
    (cached : String → List Ref → Option (EnrichmentResult B E))
    {inputs : List (PolygonContext × List Ref)} (hinputs : inputs ⊆ run.inputs.directInputs)
    (hs : SavedBy casefold client errorText sha256 runs s)
    (hmetadata : s.metadata = some (run.metadata sha256)) :
    wp (enrichAndSave casefold client errorText digest run cached inputs)
      (fun _ => SavedBy casefold client errorText sha256 runs)
      (fun _ => SavedBy casefold client errorText sha256 runs)
      (SavedBy casefold client errorText sha256 runs) s := by
  induction inputs generalizing s with
  | nil => exact hs
  | cons input rest ih =>
    obtain ⟨hinput, hrest⟩ := List.cons_subset.mp hinputs
    simp only [enrichAndSave, wp_bind, wp_pure]
    have hone : wp (enrichOrLoad casefold client errorText digest run cached input)
        (fun _ s' => SavedBy casefold client errorText sha256 runs s'
          ∧ s'.metadata = some (run.metadata sha256))
        (fun _ => SavedBy casefold client errorText sha256 runs)
        (SavedBy casefold client errorText sha256 runs) s := by
      unfold enrichOrLoad
      cases cached input.1.polygonId input.2 with
      | some result => exact ⟨hs, hmetadata⟩
      | none =>
        cases hresult : run.enrichItem casefold client errorText input with
        | error e => exact hs
        | ok result =>
          dsimp only [liftExcept]
          unfold saveDirect
          simp only [wp_bind, wp_pure, wp_ite, wp_step]
          split
          · rename_i herrors
            exact ⟨hs, hs.insert hrun hmetadata hinput hresult (List.isEmpty_iff.mp herrors) _,
              hmetadata⟩
          · exact ⟨hs, hmetadata⟩
    exact wp_imp (fun _ s' hs' => ih hrest hs'.1 hs'.2) hone

variable (digest) in
/-- **One run**, killed or not, keeps the invariant. -/
theorem mergeWithCheckpoint_wp {run : MergeRun B K P} (hrun : runs run)
    (hs : SavedBy casefold client errorText sha256 runs s) :
    wp (mergeWithCheckpoint casefold client errorText digest sha256 run)
      (fun _ => SavedBy casefold client errorText sha256 runs)
      (fun _ => SavedBy casefold client errorText sha256 runs)
      (SavedBy casefold client errorText sha256 runs) s := by
  unfold mergeWithCheckpoint
  simp only [wp_bind, wp_get]
  refine wp_safe ?_ (prepare_wp (fun _ key h => h.erase key) savedBy_empty (run.metadata sha256) hs)
  rintro - s' ⟨hs', hsaved⟩
  have hmetadata : s'.metadata = some (run.metadata sha256) := by
    rw [hs']
    unfold Checkpoint.prepared
    split
    · assumption
    · rfl
  refine wp_imp (fun fetched s'' hs'' => ?_)
    (enrichAndSave_wp digest hrun _ (List.Subset.refl _) hsaved hmetadata)
  cases run.finish casefold fetched <;> exact hs''

/-- **Any number of runs**, each killed anywhere. -/
theorem savedBy_afterRuns (history : List (MergeRun B K P × Nat))
    (hruns : ∀ entry ∈ history, runs entry.1) {s : Checkpoint B}
    (hs : SavedBy casefold client errorText sha256 runs s) :
    SavedBy casefold client errorText sha256 runs
      (afterRuns casefold client errorText digest sha256 history s) := by
  induction history generalizing s with
  | nil => exact hs
  | cons entry history ih =>
    obtain ⟨run, n⟩ := entry
    refine ih (fun other hother => hruns other (List.mem_cons_of_mem _ hother)) ?_
    have hmeets := wp_exec
      (mergeWithCheckpoint_wp digest (hruns _ List.mem_cons_self) hs) n
    rcases hexec : Prog.exec (mergeWithCheckpoint casefold client errorText digest sha256 run) n s
      with ⟨region, s'⟩ | ⟨e, s'⟩ | s'
    all_goals
      rw [hexec] at hmeets
      exact hmeets

end OsmPolygonWikidata.Direct
