import OsmPolygonWikidata.Basic.Dict
import OsmPolygonWikidata.Publication.PendingPublications

/-! # The deferred metadata refresh

`cli/sync_application.py`: a run publishes its regions through a background queue, and uploads the
assets that describe the whole repository once the queue has drained. In front of each regional
upload the stem goes into a durable marker, which the runs merge with what they find there and which
is cleared after the refresh. A region whose links have to be migrated gets into the marker before
that, whether the run pushes or not: `apply_link_migration` stages the envelope with the stem in the
marker and moves it into place, without the lock of the envelope.

The refresh looks at the return code and the failures of its own run. A stem that an earlier run has
recorded and not uploaded is covered only when the run at hand uploads it (`Covers`); the theorem is
that a history of such runs never describes an unpublished region.
-/

namespace OsmPolygonWikidata.MetadataRefresh

open PendingPublications (Marker PublicationError markerPayload isSafeStem isSha256Hex)

/-! ## Runs -/

inductive SyncAction where
  | recovery
  | augment
  | process
  | publish
  | complete
  deriving DecidableEq

/-- How `submit` ends. One that raises may have written its envelope. -/
inductive Submission where
  | queued
  | raised (enveloped : Bool)
  deriving DecidableEq

/-- What the collaborators find in a region: one of them raises in front of the publication, the
audit of a recovery has nothing to repair, or the region is repaired, augmented, processed or
loaded. -/
inductive Outcome where
  | raises
  | healthy
  | completed (repaired : Bool)
  deriving DecidableEq

/-- `RegionSyncState`, with what will come of it. `migrated` is the hash of the link table, if
`apply_link_migration` commits for the region; what raises then raises later. `polygons` is the
hash of its polygon table, if there is one, and `assembled` says that `assemble_region_upload`
returns. -/
structure Region where
  stem : String
  action : SyncAction
  migrated : Option String
  outcome : Outcome
  polygons : Option String
  assembled : Bool
  submission : Submission
  deriving DecidableEq

/-- `SyncApplicationContext`. There is an upload queue if and only if `push_enabled` is set. -/
structure Context where
  states : List Region
  pendingStems : List String
  pushEnabled : Bool
  dryRun : Bool
  repositoryRefresh : Bool
  coreWillBeRepaired : Bool
  containmentEnqueued : Bool
  deriving DecidableEq

/-- `_partition_states`, the buckets one after the other. -/
def partitionStates (states : List Region) : List Region :=
  [SyncAction.recovery, .augment, .publish, .process].flatMap (fun action =>
    states.filter (fun state => state.action = action))

/-- A job of the upload queue: the publication of a region, or the containment retirement. The
operations of a region are never empty, since its section tables are always among them. -/
inductive Job where
  | region (stem : String)
  | retirement
  deriving DecidableEq

/-- What is said about a history. `assetsUploaded` carries the stems that the marker has then. -/
inductive Event where
  | recorded (stem : String)
  | regionUploaded (stem : String) (dry : Bool)
  | assetsUploaded (dry : Bool) (stems : List String)
  | cleared
  deriving DecidableEq

/-- Where the main thread stands. In `migrating` the envelope with the staged marker is not in place
yet; in `migrated` it is, and the region is not completed. -/
inductive Point where
  | running
  | migrating (stem : String) (staged : Marker)
  | migrated
  | publishing (stem : String) (assembled : Bool) (submission : Submission)
  | draining (aborted : Bool)
  | refreshing
  | clearing (marker : Option Marker)
  deriving DecidableEq

/-- A running `SyncApplication` with its queue. `uploaded` is the job that the worker has uploaded
and not cleaned up, and `loaded` the marker of the envelope that the worker has loaded to write it
back without some stems. -/
structure Process where
  context : Context
  todo : List Region
  queue : List Job
  uploaded : Option Job
  loaded : Option (Option Marker)
  failures : Bool
  deferredMetadataStems : List (String × String)
  regionPublicationSubmitted : Bool
  recovered : Bool
  metadataRepairRequested : Bool
  point : Point
  deriving DecidableEq

/-- The data root, the events so far with the last one in front, and the process, if one runs. -/
structure World where
  marker : Option Marker
  envelopes : List Job
  log : List Event
  process : Option Process

def World.initial : World := ⟨none, [], [], none⟩

def markerStems : Option Marker → List String
  | none => []
  | some marker => marker.stems

/-! ## Steps of the main thread -/

/-- `build_upload_queue`, which resumes the envelopes, and `enqueue_containment_retirement`. -/
def start (context : Context) (w : World) : World :=
  let retirement :=
    if context.pushEnabled && context.containmentEnqueued then [Job.retirement] else []
  { w with
    envelopes := w.envelopes ++ retirement
    process := some
      { context := context, todo := partitionStates context.states,
        queue := if context.pushEnabled then w.envelopes ++ retirement else [],
        uploaded := none, loaded := none, failures := false, deferredMetadataStems := [],
        regionPublicationSubmitted := false, recovered := false, metadataRepairRequested := false,
        point := .running } }

/-- `_validated_metadata_marker`, if the field is there. -/
def loadMetadataRefreshMarker : Option Marker → Except PublicationError (Option Marker)
  | none => .ok none
  | some marker =>
    if ¬ marker.stems.Nodup then .error .markerDuplicates
    else match marker.stems.find? (fun stem => !isSafeStem stem) with
    | some stem => .error (.markerStem stem)
    | none =>
      if ¬ (marker.fingerprintHashes.map Prod.fst).toFinset = marker.stems.toFinset then
        .error .markerKeys
      else match (marker.fingerprintHashes.map Prod.snd).find? (fun hash => !isSha256Hex hash) with
      | some hash => .error (.markerHash hash)
      | none => .ok (some marker)

def fingerprintHashes : Option Marker → List (String × String)
  | none => []
  | some marker => marker.fingerprintHashes

/-- `_recorded_marker_hashes`. -/
def recordedMarkerHashes (marker : Option Marker) :
    Except PublicationError (List (String × String)) := do
  let marker ← loadMetadataRefreshMarker marker
  return fingerprintHashes marker

/-- `_record_deferred_metadata`: the new marker and the stems of this run, if anything is
recorded. -/
def recordDeferredMetadata (p : Process) (stem : String) (polygons : Option String)
    (marker : Option Marker) : Except PublicationError (Option (Marker × List (String × String))) :=
  if p.context.dryRun then .ok none
  else
    match polygons with
    | none => .ok none
    | some hash => do
      let deferred := Dict.put Prod.fst (stem, hash) p.deferredMetadataStems
      let recorded ← recordedMarkerHashes marker
      let merged := Dict.build Prod.fst (recorded ++ deferred)
      let payload ← markerPayload ((merged.map Prod.fst).insertionSort (· ≤ ·)) merged
      return some (payload, deferred)

/-- `_updated_pending_publications`, the marker. A marked stem without a hash is a `KeyError`. -/
def updatedPendingPublications (stem hash : String) (marker : Option Marker) : Option Marker := do
  let stems := ((stem :: markerStems marker).dedup).insertionSort (· ≤ ·)
  let hashes := Dict.put Prod.fst (stem, hash) (fingerprintHashes marker)
  let kept ← stems.mapM (fun key => (hashes.lookup key).map (fun hash => (key, hash)))
  return ⟨stems, kept⟩

/-- `_metadata_repair_needed` after `run_sync` has returned 0. -/
def metadataRepairNeeded (p : Process) : Bool :=
  p.context.pushEnabled && p.context.repositoryRefresh
    && !(p.context.coreWillBeRepaired || p.recovered) && !p.context.containmentEnqueued

/-- The region gets to its publication. Without a repair, `_recover_healthy` publishes it if its
links were migrated or it is pending. -/
def Region.publishes (context : Context) (region : Region) : Bool :=
  context.pushEnabled && match region.outcome with
  | .raises => false
  | .healthy => region.migrated.isSome || region.stem ∈ context.pendingStems
  | .completed _ => true

/-- `_mark_recovered` is called for the region. -/
def Region.recovered (region : Region) : Bool :=
  match region.outcome with
  | .raises => false
  | .healthy => region.migrated.isSome
  | .completed repaired => repaired

def abort (w : World) (p : Process) : World :=
  { w with process := some { p with point := .draining true } }

/-- A region of `run_sync` behind its migration, up to the marker. The write of the marker waits for
the lock, so what the worker writes under it is replaced. -/
def complete (region : Region) (todo : List Region) (w : World) (p : Process) : World :=
  if region.outcome = .raises then abort w p
  else
    let p := { p with
      todo := todo, recovered := p.recovered || region.recovered, point := .running }
    if region.publishes p.context then
      match recordDeferredMetadata p region.stem region.polygons w.marker with
      | .error _ => abort w p
      | .ok none =>
        { w with process := some { p with
            point := .publishing region.stem region.assembled region.submission } }
      | .ok (some (marker, deferred)) =>
        { w with
          marker := some marker
          log := .recorded region.stem :: w.log
          process := some { p with
            deferredMetadataStems := deferred, loaded := none,
            point := .publishing region.stem region.assembled region.submission } }
    else { w with process := some p }

/-- The next region of `run_sync`, up to the staged files of its migration or else up to the marker;
behind the last one, `_request_metadata_repair`. -/
def next (w : World) (p : Process) : World :=
  match p.todo with
  | [] =>
    { w with process := some { p with
        metadataRepairRequested := metadataRepairNeeded p, point := .draining false } }
  | region :: todo =>
    match region.migrated with
    | none => complete region todo w p
    | some hash =>
      match updatedPendingPublications region.stem hash w.marker with
      | none => abort w p
      | some staged => { w with process := some { p with point := .migrating region.stem staged } }

/-- The staged envelope is moved into place. -/
def migrate (stem : String) (staged : Marker) (w : World) (p : Process) : World :=
  { w with
    marker := some staged
    log := .recorded stem :: w.log
    process := some { p with point := .migrated } }

/-- `assemble_region_upload` and `_submit_upload`. -/
def submit (stem : String) (assembled : Bool) (submission : Submission) (w : World) (p : Process) :
    World :=
  if assembled then
    match submission with
    | .queued =>
      { w with
        envelopes := w.envelopes ++ [.region stem]
        process := some { p with
          queue := p.queue ++ [.region stem], regionPublicationSubmitted := true,
          point := .running } }
    | .raised enveloped =>
      { w with
        envelopes := w.envelopes ++ (if enveloped then [.region stem] else [])
        process := some { p with point := .draining true } }
  else abort w p

/-- `close_and_wait` has returned. -/
def drained (aborted : Bool) (w : World) (p : Process) : World :=
  { w with process := if aborted || p.failures then none else some { p with point := .refreshing } }

/-- How an upload ends. One that raises may have landed. -/
inductive UploadResult where
  | returned
  | raised (landed : Bool)

def UploadResult.landed : UploadResult → Bool
  | .returned => true
  | .raised landed => landed

/-- `_refresh_metadata_marker`, up to the upload. -/
def refreshMetadataMarker (result : UploadResult) (w : World) (p : Process) : World :=
  if p.context.pushEnabled then
    match loadMetadataRefreshMarker w.marker with
    | .error _ => { w with process := none }
    | .ok marker =>
      if p.metadataRepairRequested || marker.isSome || p.regionPublicationSubmitted then
        { w with
          log := if result.landed
            then .assetsUploaded p.context.dryRun (markerStems marker) :: w.log else w.log
          process := match result with
            | .returned => some { p with point := .clearing marker }
            | .raised _ => none }
      else { w with process := none }
  else { w with process := none }

def clearMetadataRefreshState (marker : Option Marker) (w : World) (p : Process) : World :=
  if marker.isSome && !p.context.dryRun then
    { w with marker := none, log := .cleared :: w.log, process := none }
  else { w with process := none }

/-! ## Steps of the worker -/

/-- `_upload_with_retries` of a job. -/
def upload (result : UploadResult) (job : Job) (queue : List Job) (w : World) (p : Process) :
    World :=
  { w with
    log := match job, result.landed with
      | .region stem, true => .regionUploaded stem p.context.dryRun :: w.log
      | _, _ => w.log
    process := some (match result with
      | .returned => { p with queue := queue, uploaded := some job }
      | .raised _ => { p with queue := queue, failures := true }) }

/-- `save_pending_publications` of `post_upload_publication_cleanup`, up to the load of the
envelope. The lock is held from here on. -/
def loadEnvelope (w : World) (p : Process) : World :=
  { w with process := some { p with loaded := some w.marker } }

/-- The envelope is written back, with the marker that was loaded. -/
def saveEnvelope (marker : Option Marker) (w : World) (p : Process) : World :=
  { w with marker := marker, process := some { p with loaded := none } }

/-- `UploadStateStore.delete` of an uploaded job. -/
def cleanUp (deleted raised : Bool) (job : Job) (w : World) (p : Process) : World :=
  { w with
    envelopes := if deleted then w.envelopes.erase job else w.envelopes
    process := some { p with uploaded := none, failures := p.failures || raised } }

/-! ## Histories -/

/-- What happens next, with what the surroundings decide. -/
inductive Action where
  | start (context : Context)
  | next
  | migrate
  | submit
  | drained
  | refresh (result : UploadResult)
  | clear
  | upload (result : UploadResult)
  | loadEnvelope
  | saveEnvelope
  | cleanUp (deleted raised : Bool)
  | kill

/-- One step, if it is possible. -/
def step (action : Action) (w : World) : Option World :=
  match w.process, action with
  | none, .start context => some (start context w)
  | some p, .next =>
    match p.point, p.todo with
    | .running, _ => some (next w p)
    | .migrated, region :: todo => some (complete region todo w p)
    | _, _ => none
  | some p, .migrate =>
    match p.point with
    | .migrating stem staged => some (migrate stem staged w p)
    | _ => none
  | some p, .submit =>
    match p.point with
    | .publishing stem assembled submission => some (submit stem assembled submission w p)
    | _ => none
  | some p, .drained =>
    match p.point, p.queue, p.uploaded, p.loaded with
    | .draining aborted, [], none, none => some (drained aborted w p)
    | _, _, _, _ => none
  | some p, .refresh result =>
    if p.point = .refreshing then some (refreshMetadataMarker result w p) else none
  | some p, .clear =>
    match p.point with
    | .clearing marker => some (clearMetadataRefreshState marker w p)
    | _ => none
  | some p, .upload result =>
    match p.queue, p.uploaded, p.loaded with
    | job :: queue, none, none => some (upload result job queue w p)
    | _, _, _ => none
  | some p, .loadEnvelope =>
    -- the worker is at a job
    if (p.queue ≠ [] ∨ p.uploaded ≠ none) ∧ p.loaded = none ∧ p.context.dryRun = false then
      some (loadEnvelope w p)
    else none
  | some p, .saveEnvelope =>
    match p.loaded with
    | some marker => some (saveEnvelope marker w p)
    | none => none
  | some p, .cleanUp deleted raised =>
    match p.uploaded, p.loaded with
    | some job, none => some (cleanUp deleted raised job w p)
    | _, _ => none
  | some _, .kill => some { w with process := none }
  | _, _ => none

/-- The worlds that runs lead to whose steps all satisfy `C`. -/
inductive History (C : World → Action → Prop) : World → Prop where
  | initial : History C World.initial
  | step {w w' : World} {action : Action} (h : History C w) (hstep : step action w = some w')
      (hcond : C w action) : History C w'

/-! ## What is asked of a history -/

/-- The last recording of the stem was followed by a regional upload. For a refresh of a dry run the
uploads of dry runs count, too. -/
def uploadedSince (dry : Bool) (stem : String) : List Event → Bool
  | [] => false
  | .recorded stem' :: older => decide (stem' ≠ stem) && uploadedSince dry stem older
  | .regionUploaded stem' dry' :: older =>
    (decide (stem' = stem) && (dry || !dry')) || uploadedSince dry stem older
  | .assetsUploaded _ _ :: older => uploadedSince dry stem older
  | .cleared :: older => uploadedSince dry stem older

/-- The assets were uploaded by a run that was no dry one, when all stems of the marker had been
uploaded, and nothing has been recorded after that. -/
def Refreshed (log : List Event) : Prop :=
  ∃ newer stems older, log = newer ++ .assetsUploaded false stems :: older
    ∧ (∀ stem ∈ stems, uploadedSince false stem older = true)
    ∧ ∀ stem, .recorded stem ∉ newer

/-- **Nothing describes an unpublished region**: whenever the assets are uploaded, every stem of the
marker has been uploaded since it was recorded, and the marker is cleared only after such an upload
of a run that is no dry one. -/
def Sound : List Event → Prop
  | [] => True
  | .assetsUploaded dry stems :: older =>
    (∀ stem ∈ stems, uploadedSince dry stem older = true) ∧ Sound older
  | .cleared :: older => Refreshed older ∧ Sound older
  | .recorded _ :: older => Sound older
  | .regionUploaded _ _ :: older => Sound older

/-- The region makes a run raise. -/
def Region.fails (context : Context) (region : Region) : Bool :=
  decide (region.outcome = .raises) || (region.publishes context
    && (!region.assembled || decide (region.submission ≠ .queued)))

/-- **The condition on a run.** Unless one of its regions makes it raise, every stem of the marker
that it finds has been uploaded since it was recorded, or still has its envelope in the queue, or is
published by the run itself. -/
def Covers (w : World) (context : Context) : Prop :=
  context.pushEnabled = true →
  (∀ region ∈ partitionStates context.states, region.fails context = false) →
  ∀ stem ∈ markerStems w.marker,
    uploadedSince context.dryRun stem w.log = true ∨ .region stem ∈ w.envelopes
      ∨ ∃ region ∈ partitionStates context.states,
        region.stem = stem ∧ region.publishes context = true

/-- A run that starts covers the marker. -/
def StartCovers (w : World) (action : Action) : Prop :=
  ∀ context, action = .start context → Covers w context

/-! ## The marker -/

theorem of_loadMetadataRefreshMarker {marker loaded : Option Marker}
    (h : loadMetadataRefreshMarker marker = .ok loaded) : loaded = marker
      ∧ ∀ stem, stem ∈ (fingerprintHashes marker).map Prod.fst ↔ stem ∈ markerStems marker := by
  unfold loadMetadataRefreshMarker at h
  split at h
  · cases h
    exact ⟨rfl, fun _ => Iff.rfl⟩
  split at h
  · cases h
  split at h
  · cases h
  split at h
  · cases h
  rename_i hkeys
  split at h
  · cases h
  cases h
  refine ⟨rfl, fun stem => ?_⟩
  rw [fingerprintHashes, markerStems, ← List.mem_toFinset, not_not.mp hkeys, List.mem_toFinset]

theorem of_markerPayload {stems : List String} {hashes : List (String × String)} {marker : Marker}
    (h : markerPayload stems hashes = .ok marker) (stem : String) :
    stem ∈ marker.stems ↔ stem ∈ stems := by
  unfold markerPayload at h
  split at h
  · cases h
  split at h
  · cases h
  split at h
  · cases h
  split at h
  · cases h
  split at h
  · cases h
  cases h
  exact List.mem_insertionSort _

variable {p p' : Process} {marker : Option Marker} {deferred : List (String × String)}

theorem of_recordDeferredMetadata {stem : String} {polygons : Option String} {marker' : Marker}
    (h : recordDeferredMetadata p stem polygons marker = .ok (some (marker', deferred))) :
    (∀ stem', stem' ∈ deferred.map Prod.fst
        ↔ stem' = stem ∨ stem' ∈ p.deferredMetadataStems.map Prod.fst)
      ∧ ∀ stem', stem' ∈ marker'.stems
        ↔ stem' ∈ markerStems marker ∨ stem' ∈ deferred.map Prod.fst := by
  unfold recordDeferredMetadata at h
  split at h
  · cases h
  split at h
  · cases h
  rename_i hash
  obtain ⟨recorded, hrecorded, h⟩ := Python.bind_eq_ok.mp h
  obtain ⟨payload, hpayload, h⟩ := Python.bind_eq_ok.mp h
  cases h
  obtain ⟨loaded, hloaded, hhashes⟩ := Python.bind_eq_ok.mp hrecorded
  obtain ⟨rfl, hkeys⟩ := of_loadMetadataRefreshMarker hloaded
  cases hhashes
  refine ⟨fun stem' => Dict.mem_keys_put, fun stem' => ?_⟩
  rw [of_markerPayload hpayload, List.mem_insertionSort, Dict.mem_keys_build, List.map_append,
    List.mem_append, hkeys]

theorem of_updatedPendingPublications {stem hash : String} {staged : Marker}
    (h : updatedPendingPublications stem hash marker = some staged) (stem' : String) :
    stem' ∈ staged.stems ↔ stem' = stem ∨ stem' ∈ markerStems marker := by
  obtain ⟨kept, -, hstaged⟩ := Option.bind_eq_some_iff.mp h
  cases hstaged
  rw [List.mem_insertionSort, List.mem_dedup, List.mem_cons]

/-! ## The invariant -/

/-- The stem is in the marker, or it can be there at a later moment of the run. -/
def Owed (marker : Option Marker) (p : Process) (stem : String) : Prop :=
  stem ∈ markerStems marker ∨ (∃ loaded, p.loaded = some loaded ∧ stem ∈ markerStems loaded)
    ∨ (∃ stem' staged, p.point = .migrating stem' staged ∧ stem ∈ staged.stems)
    ∨ stem ∈ p.deferredMetadataStems.map Prod.fst

/-- The run does not get to its refresh. -/
def Process.Lost (p : Process) : Prop :=
  p.failures = true ∨ p.point = .draining true
    ∨ (∃ region ∈ p.todo, region.fails p.context = true)
    ∨ ∃ stem assembled submission, p.point = .publishing stem assembled submission
      ∧ (assembled = false ∨ submission ≠ .queued)

/-- The stem is uploaded, or will be in front of the refresh. -/
def Served (log : List Event) (p : Process) (stem : String) : Prop :=
  uploadedSince p.context.dryRun stem log = true ∨ .region stem ∈ p.queue
    ∨ (∃ assembled submission, p.point = .publishing stem assembled submission)
    ∨ ∃ region ∈ p.todo, region.stem = stem ∧ region.publishes p.context = true

/-- `run_sync` has returned. -/
def Point.ended : Point → Bool
  | .draining aborted => !aborted
  | .refreshing => true
  | .clearing _ => true
  | _ => false

/-- The queue has been drained without a failure. -/
def Point.idle : Point → Bool
  | .refreshing => true
  | .clearing _ => true
  | _ => false

/-- What holds of a running process. -/
structure ProcessInv (marker : Option Marker) (log : List Event) (p : Process) : Prop where
  served : p.context.pushEnabled = true → ¬ p.Lost → ∀ stem, Owed marker p stem → Served log p stem
  ended : p.point.ended = true → p.todo = []
  idle : p.point.idle = true →
    p.queue = [] ∧ p.uploaded = none ∧ p.failures = false ∧ p.loaded = none
  staged : ∀ stem staged, p.point = .migrating stem staged →
    ∃ region ∈ p.todo, region.stem = stem ∧ region.migrated.isSome = true
  clearing : ∀ marker', p.point = .clearing marker' → marker' = marker
    ∧ ∃ older, log = .assetsUploaded p.context.dryRun (markerStems marker) :: older

structure Inv (w : World) : Prop where
  sound : Sound w.log
  process : ∀ p, w.process = some p → ProcessInv w.marker w.log p

variable {w : World} {log log' : List Event} {marker' : Option Marker} {stem : String}

theorem Inv.stop (h : Inv w) : Inv { w with process := none } := ⟨h.sound, by rintro p ⟨⟩⟩

theorem Inv.continue (h : Inv w) {envelopes : List Job} (hp : ProcessInv w.marker w.log p) :
    Inv { w with envelopes := envelopes, process := some p } := by
  refine ⟨h.sound, ?_⟩
  rintro p' ⟨⟩
  exact hp

theorem Inv.abort (h : Inv w) : Inv (abort w p) := by
  refine ⟨h.sound, ?_⟩
  rintro p' ⟨⟩
  exact ⟨fun _ hlost => absurd (Or.inr (Or.inl rfl)) hlost, by simp [Point.ended],
    by simp [Point.idle], by simp, by simp⟩

theorem Owed.of_same (h : Owed marker p' stem) (hloaded : p'.loaded = p.loaded)
    (hdeferred : p'.deferredMetadataStems = p.deferredMetadataStems)
    (hpoint : ∀ stem staged, p'.point ≠ .migrating stem staged) : Owed marker p stem := by
  rcases h with hmarked | hin | ⟨stem', staged, hmigrating, -⟩ | hrun
  · exact Or.inl hmarked
  · exact Or.inr (Or.inl (hloaded ▸ hin))
  · exact absurd hmigrating (hpoint stem' staged)
  · exact Or.inr (Or.inr (Or.inr (hdeferred ▸ hrun)))

/-- What a step that owes nothing new keeps. -/
theorem ProcessInv.served_of (h : ProcessInv marker log p) (hcontext : p'.context = p.context)
    (hlost : p.Lost → p'.Lost) (howed : ∀ stem, Owed marker' p' stem → Owed marker p stem)
    (hserved : ¬ p'.Lost → ∀ stem, Owed marker p stem → Served log p stem → Served log' p' stem) :
    p'.context.pushEnabled = true → ¬ p'.Lost → ∀ stem, Owed marker' p' stem →
      Served log' p' stem := by
  intro hpush hlost' stem hstem
  rw [hcontext] at hpush
  have hold := howed stem hstem
  exact hserved hlost' stem hold (h.served hpush (fun hl => hlost' (hlost hl)) stem hold)

theorem inv_start {context : Context} (h : Inv w) (hcovers : Covers w context) :
    Inv (start context w) := by
  refine ⟨h.sound, ?_⟩
  rintro p ⟨⟩
  refine ⟨?_, by simp [Point.ended], by simp [Point.idle], by simp, by simp⟩
  intro hpush hlost stem hstem
  have hmarked : stem ∈ markerStems w.marker := by
    simpa [Owed, start] using hstem
  have hfails : ∀ region ∈ partitionStates context.states, region.fails context = false := by
    intro region hregion
    cases hfail : region.fails context with
    | false => rfl
    | true => exact absurd (Or.inr (Or.inr (Or.inl ⟨region, hregion, hfail⟩))) hlost
  rcases hcovers hpush hfails stem hmarked with hup | henvelope | hregion
  · exact Or.inl hup
  · refine Or.inr (Or.inl ?_)
    have hpush' : context.pushEnabled = true := hpush
    simp [hpush', henvelope]
  · exact Or.inr (Or.inr (Or.inr hregion))

/-! ## The next region -/

/-- The head of the regions is at hand, and its publication has not begun. -/
def Point.atRegion : Point → Bool
  | .running => true
  | .migrating _ _ => true
  | .migrated => true
  | _ => false

variable {region : Region} {todo : List Region}

theorem lost_iff_of_atRegion (hpoint : p.point.atRegion = true) :
    p.Lost ↔ p.failures = true ∨ ∃ region ∈ p.todo, region.fails p.context = true := by
  unfold Process.Lost
  constructor
  · rintro (hfailures | hdraining | hregion | ⟨_, _, _, hpublishing, -⟩)
    · exact Or.inl hfailures
    · rw [hdraining] at hpoint
      cases hpoint
    · exact Or.inr hregion
    · rw [hpublishing] at hpoint
      cases hpoint
  · rintro (hfailures | hregion)
    · exact Or.inl hfailures
    · exact Or.inr (Or.inr (Or.inl hregion))

theorem served_iff_of_atRegion (hpoint : p.point.atRegion = true) :
    Served log p stem ↔ uploadedSince p.context.dryRun stem log = true ∨ .region stem ∈ p.queue
      ∨ ∃ region ∈ p.todo, region.stem = stem ∧ region.publishes p.context = true := by
  unfold Served
  refine or_congr_right (or_congr_right ⟨?_, Or.inr⟩)
  rintro (⟨_, _, hpublishing⟩ | hregion)
  · rw [hpublishing] at hpoint
    cases hpoint
  · exact hregion

/-- A run that pushes and does not raise publishes what it migrates. -/
theorem publishes_of_migrated (hpoint : p.point.atRegion = true) (hlost : ¬ p.Lost)
    (hregion : region ∈ p.todo) (hpush : p.context.pushEnabled = true)
    (hmigrated : region.migrated.isSome = true) : region.publishes p.context = true := by
  have hfails : region.fails p.context ≠ true := fun hfails =>
    hlost ((lost_iff_of_atRegion hpoint).mpr (Or.inr ⟨region, hregion, hfails⟩))
  unfold Region.publishes
  cases houtcome : region.outcome with
  | raises => simp [Region.fails, houtcome] at hfails
  | healthy => simp [hpush, hmigrated]
  | completed repaired => simp [hpush]

theorem Served.recorded {stem' : String} (h : Served log p stem) (hne : stem' ≠ stem) :
    Served (.recorded stem' :: log) p stem := by
  rcases h with hup | hrest
  · exact Or.inl (by simp [uploadedSince, hne, hup])
  · exact Or.inr hrest

/-- A step among the regions that leaves the queue and the failures alone. -/
theorem ProcessInv.atRegion (hserved : p.context.pushEnabled = true → ¬ p.Lost →
      ∀ stem, Owed marker p stem → Served log p stem)
    (hpoint : p.point.atRegion = true) (hstaged : ∀ stem staged, p.point = .migrating stem staged →
      ∃ region ∈ p.todo, region.stem = stem ∧ region.migrated.isSome = true) :
    ProcessInv marker log p where
  served := hserved
  staged := hstaged
  ended := by
    intro hended
    cases hp : p.point <;> simp [hp, Point.atRegion, Point.ended] at hpoint hended
  idle := by
    intro hidle
    cases hp : p.point <;> simp [hp, Point.atRegion, Point.idle] at hpoint hidle
  clearing := by
    rintro marker' hclearing
    rw [hclearing] at hpoint
    cases hpoint

section

variable {recovered : Bool} {loaded : Option (Option Marker)}

/-- The head region is submitted next. -/
theorem lost_of_publishing (htodo : p.todo = region :: todo) (hpoint : p.point.atRegion = true)
    (hraises : region.outcome ≠ .raises) (h : p.Lost) :
    Process.Lost { p with
      todo := todo, recovered := recovered, deferredMetadataStems := deferred, loaded := loaded,
      point := .publishing region.stem region.assembled region.submission } := by
  rcases (lost_iff_of_atRegion hpoint).mp h with hfailures | ⟨r, hr, hfails⟩
  · exact Or.inl hfailures
  · rw [htodo, List.mem_cons] at hr
    rcases hr with rfl | hr
    · refine Or.inr (Or.inr (Or.inr ⟨r.stem, r.assembled, r.submission, rfl, ?_⟩))
      simp only [Region.fails, hraises, decide_false, Bool.false_or, Bool.and_eq_true] at hfails
      simpa using hfails.2
    · exact Or.inr (Or.inr (Or.inl ⟨r, hr, hfails⟩))

theorem served_of_publishing (htodo : p.todo = region :: todo) (hpoint : p.point.atRegion = true)
    (h : Served log p stem) :
    Served log { p with
      todo := todo, recovered := recovered, deferredMetadataStems := deferred, loaded := loaded,
      point := .publishing region.stem region.assembled region.submission } stem := by
  rcases (served_iff_of_atRegion hpoint).mp h with hup | hqueue | ⟨r, hr, hstem, hpublishes⟩
  · exact Or.inl hup
  · exact Or.inr (Or.inl hqueue)
  · rw [htodo, List.mem_cons] at hr
    rcases hr with rfl | hr
    · exact Or.inr (Or.inr (Or.inl ⟨r.assembled, r.submission, by rw [hstem]⟩))
    · exact Or.inr (Or.inr (Or.inr ⟨r, hr, hstem, hpublishes⟩))

end

theorem inv_complete (h : Inv w) (hp : w.process = some p) (htodo : p.todo = region :: todo)
    (hpoint : p.point.atRegion = true) : Inv (complete region todo w p) := by
  have hinv := h.process p hp
  unfold complete
  split
  · exact h.abort
  rename_i hraises
  dsimp only
  split
  · split
    · exact h.abort
    · -- nothing is recorded
      refine h.continue ⟨?_, by simp [Point.ended], by simp [Point.idle], by simp, by simp⟩
      exact hinv.served_of rfl (lost_of_publishing htodo hpoint hraises)
        (fun _ howed => howed.of_same rfl rfl (by simp))
        (fun _ _ _ => served_of_publishing htodo hpoint)
    · -- the marker gets the stem
      rename_i marker deferred hrecord
      obtain ⟨hdeferred, hstems⟩ := of_recordDeferredMetadata hrecord
      refine ⟨h.sound, ?_⟩
      rintro p' ⟨⟩
      refine ⟨?_, by simp [Point.ended], by simp [Point.idle], by simp, by simp⟩
      intro hpush hlost stem hstem
      by_cases hsame : region.stem = stem
      · exact Or.inr (Or.inr (Or.inl ⟨region.assembled, region.submission, by rw [hsame]⟩))
      have hrun : stem ∈ deferred.map Prod.fst → Owed w.marker p stem := by
        intro hin
        rcases (hdeferred stem).mp hin with rfl | hold
        · exact absurd rfl hsame
        · exact Or.inr (Or.inr (Or.inr hold))
      have hold : Owed w.marker p stem := by
        rcases hstem with hmarked | ⟨_, hloaded, -⟩ | ⟨_, _, hmigrating, -⟩ | hin
        · exact ((hstems stem).mp hmarked).elim Or.inl hrun
        · cases hloaded
        · cases hmigrating
        · exact hrun hin
      have hlost' : ¬ p.Lost := fun hl => hlost (lost_of_publishing htodo hpoint hraises hl)
      exact (served_of_publishing htodo hpoint (hinv.served hpush hlost' stem hold)).recorded hsame
  · -- the region is not published
    rename_i hpublishes
    have hpublishes' : region.publishes p.context = false := Bool.eq_false_iff.mpr hpublishes
    refine h.continue (ProcessInv.atRegion (hinv.served_of rfl (fun hl => ?_)
      (fun _ howed => howed.of_same rfl rfl (by simp)) (fun _ stem _ hs => ?_)) rfl (by simp))
    · refine (lost_iff_of_atRegion rfl).mpr ?_
      refine ((lost_iff_of_atRegion hpoint).mp hl).imp_right ?_
      rintro ⟨r, hr, hfails⟩
      rw [htodo, List.mem_cons] at hr
      rcases hr with rfl | hr
      · simp [Region.fails, hraises, hpublishes'] at hfails
      · exact ⟨r, hr, hfails⟩
    · refine (served_iff_of_atRegion rfl).mpr ?_
      refine ((served_iff_of_atRegion hpoint).mp hs).imp_right (Or.imp_right ?_)
      rintro ⟨r, hr, hstem, hpub⟩
      rw [htodo, List.mem_cons] at hr
      rcases hr with rfl | hr
      · rw [hpublishes'] at hpub
        cases hpub
      · exact ⟨r, hr, hstem, hpub⟩

theorem inv_next (h : Inv w) (hp : w.process = some p) (hpoint : p.point = .running) :
    Inv (next w p) := by
  have hinv := h.process p hp
  have hat : p.point.atRegion = true := by rw [hpoint]; rfl
  unfold next
  split
  · -- behind the last region
    rename_i htodo
    refine h.continue ⟨?_, fun _ => htodo, by simp [Point.idle], by simp, by simp⟩
    refine hinv.served_of rfl (fun hl => ?_) (fun _ howed => howed.of_same rfl rfl (by simp))
      (fun _ stem _ hs => ?_)
    · rcases (lost_iff_of_atRegion hat).mp hl with hfailures | ⟨r, hr, -⟩
      · exact Or.inl hfailures
      · rw [htodo] at hr
        cases hr
    · rcases (served_iff_of_atRegion hat).mp hs with hup | hqueue | hregion
      · exact Or.inl hup
      · exact Or.inr (Or.inl hqueue)
      · exact Or.inr (Or.inr (Or.inr hregion))
  · rename_i region todo htodo
    split
    · exact inv_complete h hp htodo hat
    · rename_i hash hmigrated
      split
      · exact h.abort
      · -- the staged marker has the stem of a region that will be published
        rename_i staged hstaged
        have hhead : region ∈ p.todo := by rw [htodo]; exact List.mem_cons_self
        refine h.continue (ProcessInv.atRegion ?_ rfl ?_)
        swap
        · rintro _ _ ⟨⟩
          exact ⟨region, hhead, rfl, by rw [hmigrated]; rfl⟩
        intro hpush hlost stem hstem
        have hlost' : ¬ p.Lost := fun hl => hlost
          ((lost_iff_of_atRegion rfl).mpr ((lost_iff_of_atRegion hat).mp hl))
        have hold : Owed w.marker p stem → Served w.log { p with
            point := .migrating region.stem staged } stem := fun howed =>
          (served_iff_of_atRegion rfl).mpr
            ((served_iff_of_atRegion hat).mp (hinv.served hpush hlost' stem howed))
        rcases hstem with hmarked | hloaded | ⟨stem', staged', hmigrating, hin⟩ | hrun
        · exact hold (Or.inl hmarked)
        · exact hold (Or.inr (Or.inl hloaded))
        · cases hmigrating
          rcases (of_updatedPendingPublications hstaged stem).mp hin with rfl | hmarked
          · exact Or.inr (Or.inr (Or.inr ⟨region, hhead, rfl,
              publishes_of_migrated (p := p) hat hlost' hhead hpush (by rw [hmigrated]; rfl)⟩))
          · exact hold (Or.inl hmarked)
        · exact hold (Or.inr (Or.inr (Or.inr hrun)))

/-- The marker gets the stem of a region that the run publishes. -/
theorem inv_migrate {staged : Marker} (h : Inv w) (hp : w.process = some p)
    (hpoint : p.point = .migrating stem staged) : Inv (migrate stem staged w p) := by
  have hinv := h.process p hp
  have hat : p.point.atRegion = true := by rw [hpoint]; rfl
  obtain ⟨region, hregion, rfl, hmigrated⟩ := hinv.staged stem staged hpoint
  refine ⟨h.sound, ?_⟩
  rintro p' ⟨⟩
  refine ProcessInv.atRegion (fun hpush hlost stem hstem => ?_) rfl (by simp)
  have hlost' : ¬ p.Lost := fun hl => hlost
    ((lost_iff_of_atRegion rfl).mpr ((lost_iff_of_atRegion hat).mp hl))
  by_cases hsame : region.stem = stem
  · exact Or.inr (Or.inr (Or.inr ⟨region, hregion, hsame,
      publishes_of_migrated (p := p) hat hlost' hregion hpush hmigrated⟩))
  have hold : Owed w.marker p stem := by
    rcases hstem with hmarked | hloaded | ⟨_, _, hmigrating, -⟩ | hrun
    · exact Or.inr (Or.inr (Or.inl ⟨region.stem, staged, hpoint, hmarked⟩))
    · exact Or.inr (Or.inl hloaded)
    · cases hmigrating
    · exact Or.inr (Or.inr (Or.inr hrun))
  have hserved := ((served_iff_of_atRegion hat).mp (hinv.served hpush hlost' stem hold))
  exact Served.recorded ((served_iff_of_atRegion rfl).mpr hserved) hsame

/-! ## The other steps of the main thread -/

theorem inv_submit {assembled : Bool} {submission : Submission} (h : Inv w)
    (hp : w.process = some p) (hpoint : p.point = .publishing stem assembled submission) :
    Inv (submit stem assembled submission w p) := by
  have hinv := h.process p hp
  unfold submit
  split
  · rename_i hassembled
    split
    · refine h.continue (ProcessInv.atRegion (hinv.served_of rfl (fun hl => ?_)
        (fun _ howed => howed.of_same rfl rfl (by simp)) (fun _ stem' _ hs => ?_)) rfl (by simp))
      · refine (lost_iff_of_atRegion rfl).mpr ?_
        rcases hl with hfailures | hdraining | hregion | ⟨_, _, _, hpublishing, hbad⟩
        · exact Or.inl hfailures
        · rw [hpoint] at hdraining
          cases hdraining
        · exact Or.inr hregion
        · rw [hpoint] at hpublishing
          cases hpublishing
          simp [hassembled] at hbad
      · rcases hs with hup | hqueue | ⟨_, _, hpublishing⟩ | hregion
        · exact Or.inl hup
        · exact Or.inr (Or.inl (List.mem_append_left _ hqueue))
        · rw [hpoint] at hpublishing
          cases hpublishing
          exact Or.inr (Or.inl (by simp))
        · exact Or.inr (Or.inr (Or.inr hregion))
    · exact ⟨h.sound, (h.abort (p := p)).process⟩
  · exact h.abort

theorem Served.uploaded (h : Served log p stem) (hpoint : p.point.ended = true)
    (htodo : p.todo = []) (hqueue : p.queue = []) :
    uploadedSince p.context.dryRun stem log = true := by
  rcases h with hup | hmem | ⟨_, _, hpublishing⟩ | ⟨r, hr, -⟩
  · exact hup
  · rw [hqueue] at hmem
    cases hmem
  · rw [hpublishing] at hpoint
    cases hpoint
  · rw [htodo] at hr
    cases hr

theorem not_lost_of_ended (hpoint : p.point.ended = true) (htodo : p.todo = [])
    (hfailures : p.failures = false) : ¬ p.Lost := by
  rintro (hfailed | hdraining | ⟨r, hr, -⟩ | ⟨_, _, _, hpublishing, -⟩)
  · rw [hfailures] at hfailed
    cases hfailed
  · rw [hdraining] at hpoint
    cases hpoint
  · rw [htodo] at hr
    cases hr
  · rw [hpublishing] at hpoint
    cases hpoint

/-- Once the queue has drained without a failure, all that is owed is uploaded. -/
theorem ProcessInv.uploaded (h : ProcessInv marker log p) (hpush : p.context.pushEnabled = true)
    (hpoint : p.point.ended = true) (hfailures : p.failures = false) (hqueue : p.queue = [])
    (hstem : Owed marker p stem) : uploadedSince p.context.dryRun stem log = true := by
  have htodo := h.ended hpoint
  exact (h.served hpush (not_lost_of_ended hpoint htodo hfailures) stem hstem).uploaded hpoint htodo
    hqueue

theorem inv_drained {aborted : Bool} (h : Inv w) (hp : w.process = some p)
    (hpoint : p.point = .draining aborted) (hqueue : p.queue = []) (huploaded : p.uploaded = none)
    (hloaded : p.loaded = none) : Inv (drained aborted w p) := by
  have hinv := h.process p hp
  unfold drained
  split
  · exact h.stop
  · rename_i hcond
    obtain ⟨rfl, hfailures⟩ : aborted = false ∧ p.failures = false := by simpa using hcond
    have hended : p.point.ended = true := by rw [hpoint]; rfl
    refine h.continue (p := { p with point := .refreshing }) ⟨fun hpush _ stem hstem => ?_,
      fun _ => hinv.ended hended, fun _ => ⟨hqueue, huploaded, hfailures, hloaded⟩, by simp,
      by simp⟩
    exact Or.inl (hinv.uploaded hpush hended hfailures hqueue (hstem.of_same rfl rfl (by simp)))

theorem inv_refresh {result : UploadResult} (h : Inv w) (hp : w.process = some p)
    (hpoint : p.point = .refreshing) : Inv (refreshMetadataMarker result w p) := by
  have hinv := h.process p hp
  have hended : p.point.ended = true := by rw [hpoint]; rfl
  obtain ⟨hqueue, huploaded, hfailures, hloaded⟩ := hinv.idle (by rw [hpoint]; rfl)
  unfold refreshMetadataMarker
  split
  swap
  · exact h.stop
  rename_i hpush
  split
  · exact h.stop
  rename_i marker hmarker
  obtain ⟨rfl, -⟩ := of_loadMetadataRefreshMarker hmarker
  split
  swap
  · exact h.stop
  have hall : ∀ stem, Owed w.marker p stem → uploadedSince p.context.dryRun stem w.log = true :=
    fun _ hstem => hinv.uploaded hpush hended hfailures hqueue hstem
  cases result with
  | returned =>
    refine ⟨⟨fun stem hstem => hall stem (Or.inl hstem), h.sound⟩, ?_⟩
    rintro p' ⟨⟩
    refine ⟨fun _ _ stem hstem => Or.inl ?_, fun _ => hinv.ended hended,
      fun _ => ⟨hqueue, huploaded, hfailures, hloaded⟩, by simp, ?_⟩
    · exact hall stem (hstem.of_same rfl rfl (by simp))
    · rintro marker' ⟨⟩
      exact ⟨rfl, w.log, rfl⟩
  | raised landed =>
    cases landed with
    | false => exact h.stop
    | true => exact ⟨⟨fun stem hstem => hall stem (Or.inl hstem), h.sound⟩, by rintro p' ⟨⟩⟩

theorem inv_clear (h : Inv w) (hp : w.process = some p) (hpoint : p.point = .clearing marker) :
    Inv (clearMetadataRefreshState marker w p) := by
  obtain ⟨rfl, older, hlog⟩ := (h.process p hp).clearing marker hpoint
  unfold clearMetadataRefreshState
  split
  · rename_i hcond
    have hdry : p.context.dryRun = false := by
      simpa using (Bool.and_eq_true_iff.mp hcond).2
    have hsound := h.sound
    rw [hlog, hdry] at hsound
    refine ⟨⟨⟨[], _, older, ?_, hsound.1, by simp⟩, h.sound⟩, by rintro p' ⟨⟩⟩
    rw [hlog, hdry]
    rfl
  · exact h.stop

/-! ## The steps of the worker -/

/-- A step of the worker, which is busy. -/
theorem ProcessInv.work (h : ProcessInv marker log p)
    (hbusy : p.queue ≠ [] ∨ p.uploaded ≠ none ∨ p.loaded ≠ none)
    (hcontext : p'.context = p.context) (htodo : p'.todo = p.todo) (hpoint : p'.point = p.point)
    (hfailures : p.failures = true → p'.failures = true)
    (howed : ∀ stem, Owed marker' p' stem → Owed marker p stem)
    (hserved : p'.failures = false → ∀ stem, Served log p stem → Served log' p' stem) :
    ProcessInv marker' log' p' := by
  have hidle : p.point.idle ≠ true := by
    intro hidle
    obtain ⟨hqueue, huploaded, -, hloaded⟩ := h.idle hidle
    rcases hbusy with hbusy | hbusy | hbusy
    · exact hbusy hqueue
    · exact hbusy huploaded
    · exact hbusy hloaded
  refine ⟨h.served_of hcontext ?_ howed (fun hlost stem _ hs => hserved ?_ stem hs),
    by rw [hpoint, htodo]; exact h.ended, ?_, by rw [hpoint, htodo]; exact h.staged, ?_⟩
  · rintro (hf | hrest)
    · exact Or.inl (hfailures hf)
    · refine Or.inr ?_
      rw [hpoint, htodo, hcontext]
      exact hrest
  · simpa using fun hf => hlost (Or.inl hf)
  · rw [hpoint]
    exact fun hidle' => absurd hidle' hidle
  · intro marker' hclearing
    rw [hpoint] at hclearing
    rw [hclearing] at hidle
    exact absurd rfl hidle

theorem inv_upload {result : UploadResult} {job : Job} {queue : List Job} (h : Inv w)
    (hp : w.process = some p) (hqueue : p.queue = job :: queue) :
    Inv (upload result job queue w p) := by
  have hinv := h.process p hp
  have hbusy : p.queue ≠ [] ∨ p.uploaded ≠ none ∨ p.loaded ≠ none := Or.inl (by simp [hqueue])
  unfold upload
  refine ⟨?_, ?_⟩
  · dsimp only
    split
    · exact h.sound
    · exact h.sound
  rintro p' ⟨⟩
  cases result with
  | raised landed =>
    exact hinv.work hbusy rfl rfl rfl (fun _ => rfl) (fun _ => id)
      (fun hfailures => by cases hfailures)
  | returned =>
    refine hinv.work hbusy rfl rfl rfl id (fun _ => id) ?_
    intro _ stem hstem
    rcases hstem with hup | hmem | hrest
    · refine Or.inl ?_
      cases job with
      | retirement => exact hup
      | region stem' => simp [uploadedSince, UploadResult.landed, hup]
    · rw [hqueue, List.mem_cons] at hmem
      rcases hmem with rfl | hmem
      · -- the job at hand
        exact Or.inl (by simp [uploadedSince, UploadResult.landed])
      · exact Or.inr (Or.inl hmem)
    · exact Or.inr (Or.inr hrest)

theorem inv_loadEnvelope (h : Inv w) (hp : w.process = some p)
    (hbusy : p.queue ≠ [] ∨ p.uploaded ≠ none) : Inv (loadEnvelope w p) := by
  refine h.continue ((h.process p hp).work (hbusy.imp_right Or.inl) rfl rfl rfl id ?_
    (fun _ _ => id))
  rintro stem (hmarked | ⟨_, ⟨⟩, hin⟩ | hrest)
  · exact Or.inl hmarked
  · exact Or.inl hin
  · exact Or.inr (Or.inr hrest)

/-- The worker brings back an older marker, of which everything is owed. -/
theorem inv_saveEnvelope (h : Inv w) (hp : w.process = some p) (hloaded : p.loaded = some marker) :
    Inv (saveEnvelope marker w p) := by
  refine ⟨h.sound, ?_⟩
  rintro p' ⟨⟩
  refine (h.process p hp).work (Or.inr (Or.inr (by simp [hloaded]))) rfl rfl rfl id ?_
    (fun _ _ => id)
  rintro stem (hmarked | ⟨_, ⟨⟩, -⟩ | hrest)
  · exact Or.inr (Or.inl ⟨marker, hloaded, hmarked⟩)
  · exact Or.inr (Or.inr hrest)

theorem inv_cleanUp {deleted raised : Bool} {job : Job} (h : Inv w) (hp : w.process = some p)
    (huploaded : p.uploaded = some job) : Inv (cleanUp deleted raised job w p) := by
  refine h.continue ((h.process p hp).work (Or.inr (Or.inl (by simp [huploaded]))) rfl rfl rfl ?_
    (fun _ => id) (fun _ _ => id))
  intro hfailures
  rw [hfailures]
  rfl

/-- **One step** keeps the invariant, provided that a run that starts covers the marker. -/
theorem inv_step {w w' : World} {action : Action} (h : Inv w) (hstep : step action w = some w')
    (hstart : StartCovers w action) : Inv w' := by
  unfold step at hstep
  split at hstep
  · rename_i context _
    cases hstep
    exact inv_start h (hstart context rfl)
  · rename_i p hp
    split at hstep
    · rename_i hpoint
      cases hstep
      exact inv_next h hp hpoint
    · rename_i hpoint htodo
      cases hstep
      exact inv_complete h hp htodo (by rw [hpoint]; rfl)
    · cases hstep
  · rename_i p hp
    split at hstep
    · rename_i hpoint
      cases hstep
      exact inv_migrate h hp hpoint
    · cases hstep
  · rename_i p hp
    split at hstep
    · rename_i hpoint
      cases hstep
      exact inv_submit h hp hpoint
    · cases hstep
  · rename_i p hp
    split at hstep
    · rename_i hpoint hqueue huploaded hloaded
      cases hstep
      exact inv_drained h hp hpoint hqueue huploaded hloaded
    · cases hstep
  · rename_i p result hp
    split at hstep
    · rename_i hpoint
      cases hstep
      exact inv_refresh h hp hpoint
    · cases hstep
  · rename_i p hp
    split at hstep
    · rename_i hpoint
      cases hstep
      exact inv_clear h hp hpoint
    · cases hstep
  · rename_i p result hp
    split at hstep
    · rename_i hqueue huploaded _
      cases hstep
      exact inv_upload h hp hqueue
    · cases hstep
  · rename_i p hp
    split at hstep
    · rename_i hcond
      cases hstep
      exact inv_loadEnvelope h hp hcond.1
    · cases hstep
  · rename_i p hp
    split at hstep
    · rename_i hloaded
      cases hstep
      exact inv_saveEnvelope h hp hloaded
    · cases hstep
  · rename_i p deleted raised hp
    split at hstep
    · rename_i huploaded _
      cases hstep
      exact inv_cleanUp h hp huploaded
    · cases hstep
  · cases hstep
    exact h.stop
  · cases hstep

/-- **No unpublished region is described** in a history of runs that each cover the marker they
find. -/
theorem refresh_describes_published (h : History StartCovers w) : Sound w.log := by
  have hinv : Inv w := by
    induction h with
    | initial => exact ⟨trivial, by rintro p ⟨⟩⟩
    | step _ hstep hcond ih => exact inv_step ih hstep hcond
  exact hinv.sound

/-! ## A stranded region -/

namespace Example

def hash : String := String.ofList (List.replicate 64 'a')

/-- A region that is processed, and migrated or not. -/
def newRegion (stem : String) (migrated : Option String) : Region :=
  ⟨stem, .process, migrated, .completed false, some hash, true, .queued⟩

/-- A run over new regions. -/
def context (pushEnabled : Bool) (states : List Region) : Context where
  states := states
  pendingStems := []
  pushEnabled := pushEnabled
  dryRun := false
  repositoryRefresh := false
  coreWillBeRepaired := true
  containmentEnqueued := false

/-- The rest of a run from the submission of its last region on. -/
def toTheEnd : List Action :=
  [.submit, .upload .returned, .loadEnvelope, .saveEnvelope, .cleanUp true false, .next, .drained,
    .refresh .returned, .clear]

def runActions (allowed : World → Action → Bool) : List Action → World → Option World
  | [], w => some w
  | action :: actions, w =>
    if allowed w action then (step action w).bind (runActions allowed actions) else none

theorem history_of_runActions {C : World → Action → Prop} {allowed : World → Action → Bool}
    (hallowed : ∀ w action, allowed w action = true → C w action) {actions : List Action}
    {w w' : World} (hw : History C w) (h : runActions allowed actions w = some w') :
    History C w' := by
  induction actions generalizing w with
  | nil =>
    cases h
    exact hw
  | cons action actions ih =>
    rw [runActions] at h
    split at h
    · rename_i hcond
      obtain ⟨w₁, hstep, hrest⟩ := Option.bind_eq_some_iff.mp h
      exact ih (hw.step hstep (hallowed w action hcond)) hrest
    · cases h

def anything : World → Action → Bool := fun _ _ => true

def noStart : World → Action → Bool
  | _, .start _ => false
  | _, _ => true

theorem startCovers_of_noStart {w : World} {action : Action} (h : noStart w action = true) :
    StartCovers w action := by
  rintro context rfl
  cases h

theorem covers_initial (context : Context) : Covers World.initial context := by
  intro _ _ stem hstem
  cases hstem

/-- A first run that migrates its region and gets through: the assets follow the region, and the
marker is cleared. -/
theorem alpha_published : ∃ w, History StartCovers w ∧ Sound w.log
    ∧ w.log = [.cleared, .assetsUploaded false ["alpha"], .regionUploaded "alpha" false,
      .recorded "alpha", .recorded "alpha"] := by
  have hlog : (runActions noStart ([.next, .migrate, .next] ++ toTheEnd)
      (start (context true [newRegion "alpha" (some hash)]) World.initial)).map World.log
        = some [.cleared, .assetsUploaded false ["alpha"], .regionUploaded "alpha" false,
          .recorded "alpha", .recorded "alpha"] := by decide +kernel
  obtain ⟨w, hw, hwlog⟩ := Option.map_eq_some_iff.mp hlog
  have hstart : step (.start (context true [newRegion "alpha" (some hash)])) World.initial
      = some (start (context true [newRegion "alpha" (some hash)]) World.initial) := rfl
  have hstarted : History StartCovers _ :=
    History.initial.step hstart (fun context _ => covers_initial context)
  have hhistory : History StartCovers w :=
    history_of_runActions (fun _ _ => startCovers_of_noStart) hstarted hw
  exact ⟨w, hhistory, refresh_describes_published hhistory, hwlog⟩

/-- A run is killed behind the recording of `alpha`, and a later one publishes `beta` only: its
assets describe `alpha`, and the marker is gone. -/
theorem alpha_stranded : ∃ w, History (fun _ _ => True) w ∧ ¬ Sound w.log
    ∧ w.log = [.cleared, .assetsUploaded false ["alpha", "beta"], .regionUploaded "beta" false,
      .recorded "beta", .recorded "alpha"] := by
  have hlog : (runActions anything ([.start (context true [newRegion "alpha" none]), .next, .kill,
        .start (context true [newRegion "beta" none]), .next] ++ toTheEnd)
        World.initial).map World.log
      = some [.cleared, .assetsUploaded false ["alpha", "beta"], .regionUploaded "beta" false,
        .recorded "beta", .recorded "alpha"] := by decide +kernel
  obtain ⟨w, hw, hwlog⟩ := Option.map_eq_some_iff.mp hlog
  refine ⟨w, history_of_runActions (fun _ _ _ => trivial) .initial hw, ?_, hwlog⟩
  rw [hwlog]
  rintro ⟨-, hstems, -⟩
  have halpha := hstems "alpha" (by simp)
  revert halpha
  decide

end Example

end OsmPolygonWikidata.MetadataRefresh
