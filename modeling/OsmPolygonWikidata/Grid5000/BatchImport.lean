import OsmPolygonWikidata.Basic.Loops
import OsmPolygonWikidata.Grid5000.CheckpointImport

/-! # Importing a finished batch

`_import_success` of `grid5000/sentence_controller_import.py`. The receipt of a job lists the digests
of its files. The incoming sentence manifest is checked against the local one and copied over it, and
then the sentence tables of the batch are copied, one after the other.

The manifest names regions before their tables are there, and the extension check looks only at the
old regions and at the presence of the stems of the batch. `manifest_backed_iff` says when the
manifest names installed tables at every stop all the same.
-/

namespace OsmPolygonWikidata.Grid5000

open Durable Durable.Prog Python OsmPolygonWikidata.Sentences

/-! ## Manifests -/

/-- `_MANIFEST_INVARIANT_KEYS`. -/
inductive InvariantKey where
  | contractVersion
  | segmenter
  | modelId
  | modelRevision
  | segmenterVersion
  | supportedLanguages
  | unsupportedLanguagePolicy

def manifestInvariantKeys : List InvariantKey :=
  [.contractVersion, .segmenter, .modelId, .modelRevision, .segmenterVersion, .supportedLanguages,
    .unsupportedLanguagePolicy]

/-- An element of `regions`: an object with a stem and a project, or something else. -/
inductive RawRegion (V : Type) where
  | invalid
  | region (stem project : String) (fields : V)
  deriving DecidableEq

/-- The field `regions`. -/
inductive RegionsField (V : Type) where
  | missing
  | notAList
  | list (regions : List (RawRegion V))

/-- A sentence manifest. -/
structure Payload (V : Type) where
  invariants : InvariantKey → Option V
  regions : RegionsField V

inductive BatchImportError where
  | invalidArtifacts
  | duplicateArtifact (path : String)
  | missingDigest (path : String)
  | escapesRoot (path : String)
  | missingArtifact (path : String)
  | hashMismatch (path : String)
  | invalidJson
  | invalidRegions
  | duplicateRegion
  | invariantChanged (key : InvariantKey)
  | removedRegion (identity : String × String)
  | changedRegion (identity : String × String)
  | noStems
  | missingStems (stems : List String)
  | unsafeStem (stem : String)
  | sourceMissing (stem : String)
  | invalidSchema (path : String)
  | checkpoint (error : ImportError)

section

variable {V : Type} [DecidableEq V]

/-- `_manifest_regions`: the regions by identity. -/
def manifestRegions (payload : Payload V) :
    Except BatchImportError (List ((String × String) × V)) :=
  match payload.regions with
  | .list regions => regions.foldlM (fun found raw =>
    match raw with
    | .invalid => .error .invalidRegions
    | .region stem project fields =>
      if (found.map Prod.fst).contains (stem, project) then .error .duplicateRegion
      else .ok (found ++ [((stem, project), fields)])) []
  | _ => .error .invalidRegions

/-- `_completed_regions`. -/
def completedRegions (payload : Payload V) : Except BatchImportError (List (String × String)) :=
  match payload.regions with
  | .missing => .ok []
  | .notAList => .error .invalidRegions
  | .list regions => regions.mapM (fun raw =>
    match raw with
    | .invalid => .error .invalidRegions
    | .region stem project _ => .ok (stem, project))

def validateManifestInvariants (localPayload incoming : Payload V) :
    Except BatchImportError Unit :=
  manifestInvariantKeys.forM (fun key =>
    match localPayload.invariants key, incoming.invariants key with
    | some value, some value' =>
      if value = value' then .ok () else .error (.invariantChanged key)
    | _, _ => .error (.invariantChanged key))

def validateExistingRegions (localRegions incoming : List ((String × String) × V)) :
    Except BatchImportError Unit :=
  localRegions.forM (fun entry =>
    match incoming.lookup entry.1 with
    | none => .error (.removedRegion entry.1)
    | some fields => if fields = entry.2 then .ok () else .error (.changedRegion entry.1))

def validateSelectedStems (incoming : List ((String × String) × V)) (stems : List String) :
    Except BatchImportError Unit :=
  if stems = [] then .error .noStems
  else
    let missing := stems.filter (fun stem => !(incoming.map (fun entry => entry.1.1)).contains stem)
    if missing = [] then .ok () else .error (.missingStems missing)

def validateManifestExtension (localPayload incoming : Payload V) (stems : List String) :
    Except BatchImportError Unit := do
  let localRegions ← manifestRegions localPayload
  let incomingRegions ← manifestRegions incoming
  validateManifestInvariants localPayload incoming
  validateExistingRegions localRegions incomingRegions
  validateSelectedStems incomingRegions stems

end

/-! ## The import -/

structure FileDigest where
  relativePath : String
  size : Nat
  sha256 : String

/-- What is below the data root: the sentence manifest, the sentence tables by path, and the
checkpoints. -/
structure LocalTree (C H : Type) where
  manifest : Option C
  tables : String → Option C
  checkpoints : String × String → Region H

/-- A downloaded result. `escapes` are the paths that lead out of it. -/
structure Received (C H : Type) where
  files : String → Option C
  escapes : String → Bool
  checkpoints : String × String → Option (Incoming H)

/-- The parts of the surroundings that an import uses. A section table is known by its digest. -/
structure ImportEnv (C H V : Type) where
  size : C → Nat
  sha256File : C → String
  readMapping : C → Option (Payload V)
  hasSentenceSchema : C → Bool
  isSafeStem : String → Bool
  rootParts : List String
  wikipediaSections : String → Option H
  wikivoyageSections : String → Option H
  identity : String → String → H → Identity H

section

variable {C H V : Type} [DecidableEq H] [DecidableEq V] (env : ImportEnv C H V)

/-- `receipt_artifacts`. An entry that is no digest is `none`. -/
def receiptArtifacts (artifacts : Option (List (Option FileDigest))) :
    Except BatchImportError (List FileDigest) :=
  match artifacts with
  | none => .error .invalidArtifacts
  | some raw => raw.foldlM (fun found artifact =>
    match artifact with
    | none => .error .invalidArtifacts
    | some digest =>
      if (found.map FileDigest.relativePath).contains digest.relativePath then
        .error (.duplicateArtifact digest.relativePath)
      else .ok (found ++ [digest])) []

/-- `receipt_digest`. -/
def receiptDigest (artifacts : List FileDigest) (relative : String) :
    Except BatchImportError FileDigest :=
  match artifacts.find? (fun digest => digest.relativePath = relative) with
  | none => .error (.missingDigest relative)
  | some digest => .ok digest

def verifiedIncomingArtifact (received : Received C H) (artifacts : List FileDigest)
    (relative : String) : Except BatchImportError C := do
  let digest ← receiptDigest artifacts relative
  if received.escapes relative then .error (.escapesRoot relative)
  else
    match received.files relative with
    | none => .error (.missingArtifact relative)
    | some c =>
      if env.size c ≠ digest.size ∨ env.sha256File c ≠ digest.sha256 then
        .error (.hashMismatch relative)
      else .ok c

/-- `sentence_source_paths`: the section tables of a region, each as the parts of its path and its
digest. -/
def sentenceSourcePaths (stem : String) : Except BatchImportError (List (List String × H)) :=
  if !env.isSafeStem stem then .error (.unsafeStem stem)
  else
    match env.wikipediaSections stem with
    | none => .error (.sourceMissing stem)
    | some digest =>
      let path := fun project => env.rootParts ++ [project, "sections", stem ++ ".parquet"]
      .ok ((path "wikipedia", digest)
        :: ((env.wikivoyageSections stem).map (fun digest => (path "wikivoyage", digest))).toList)

/-- `source_projects`. -/
def sourceProjects (stem : String) : Except BatchImportError (List String) := do
  let paths ← sentenceSourcePaths env stem
  return paths.map (fun path => if "wikivoyage" ∈ path.1 then "wikivoyage" else "wikipedia")

/-- The stems and projects that a batch has section tables for. -/
def batchKeys (stems : List String) : Except BatchImportError (List (String × String)) := do
  let keys ← stems.mapM (fun stem => do
    let projects ← sourceProjects env stem
    return projects.map (fun project => (stem, project)))
  return keys.flatten

/-- The path of a sentence table below `processed_v2`. -/
def tablePath (key : String × String) : String :=
  key.2 ++ "/sentences/" ++ key.1 ++ ".parquet"

def relativePath (key : String × String) : String := "processed_v2/" ++ tablePath key

def manifestRelative : String := "processed_v2/manifests/sentence_splitting.json"

/-- One table of the batch: `verified_incoming_artifact` and `validate_sentence_output`. -/
def verifiedTable (received : Received C H) (artifacts : List FileDigest) (key : String × String) :
    Except BatchImportError (String × C) := do
  let incoming ← verifiedIncomingArtifact env received artifacts (relativePath key)
  let digest ← receiptDigest artifacts (relativePath key)
  if !env.hasSentenceSchema incoming then .error (.invalidSchema (relativePath key))
  else if env.sha256File incoming ≠ digest.sha256 then .error (.hashMismatch (relativePath key))
  else return (tablePath key, incoming)

/-- What `_import_success` has found out before its first copy: the incoming manifest and the tables
to install. -/
structure ImportPlan (C V : Type) where
  manifest : C
  payload : Payload V
  tables : List (String × C)

/-- `load_json_mapping` of the local manifest; without one, the incoming one without regions. -/
def localPayload (tree : LocalTree C H) (incoming : Payload V) :
    Except BatchImportError (Payload V) :=
  match tree.manifest with
  | none => .ok { incoming with regions := .list [] }
  | some c =>
    match env.readMapping c with
    | none => .error .invalidJson
    | some payload => .ok payload

/-- The checks of `_import_success`. -/
def planImport (stems : List String) (received : Received C H)
    (receipt : Option (List (Option FileDigest))) (tree : LocalTree C H) :
    Except BatchImportError (ImportPlan C V) := do
  let artifacts ← receiptArtifacts receipt
  let manifest ← verifiedIncomingArtifact env received artifacts manifestRelative
  match env.readMapping manifest with
  | none => .error .invalidJson
  | some incoming => do
    let current ← localPayload env tree incoming
    validateManifestExtension current incoming stems
    let keys ← batchKeys env stems
    let tables ← keys.mapM (verifiedTable env received artifacts)
    return ⟨manifest, incoming, tables⟩

/-- A check that can raise. -/
def checked {A : Type} : Except BatchImportError A → Prog (LocalTree C H) BatchImportError A
  | .ok a => ret a
  | .error e => raise e

/-- `atomic_copy_file` for the sentence tables. -/
def copyTables : List (String × C) → Prog (LocalTree C H) BatchImportError Unit
  | [] => return ()
  | (path, c) :: tables => do
    step (fun tree => { tree with tables := Function.update tree.tables path (some c) })
    copyTables tables

/-- The checkpoint directory of a stem and project. -/
def checkpointPart (key : String × String) : Part (LocalTree C H) (Region H) where
  view := fun tree => tree.checkpoints key
  put := fun region tree => { tree with checkpoints := Function.update tree.checkpoints key region }
  view_put := fun _ _ => by simp
  put_put := fun _ _ _ => by simp
  put_view := fun _ => by simp

/-- `_import_checkpoint`. -/
def importCheckpoint (received : Received C H) (key : String × String) :
    Prog (LocalTree C H) BatchImportError Unit :=
  match received.checkpoints key with
  | none => return ()
  | some incoming => do
    let paths ← checked (sentenceSourcePaths env key.1)
    match paths.find? (fun path => key.2 ∈ path.1) with
    | none => raise (.sourceMissing key.1)
    | some path => do
      let _ ← (focus (checkpointPart key)
        (importCheckpointTree (env.identity key.1 key.2 path.2) incoming)).mapError .checkpoint
      return ()

def importCheckpoints (received : Received C H) :
    List (String × String) → Prog (LocalTree C H) BatchImportError Unit
  | [] => return ()
  | key :: keys => do
    importCheckpoint env received key
    importCheckpoints received keys

/-- `_import_success`. -/
def importSuccess (stems : List String) (received : Received C H)
    (receipt : Option (List (Option FileDigest))) : Prog (LocalTree C H) BatchImportError Unit := do
  let tree ← get
  let plan ← checked (planImport env stems received receipt tree)
  step (fun tree => { tree with manifest := some plan.manifest })
  copyTables plan.tables
  let keys ← checked (batchKeys env stems)
  importCheckpoints env received keys

/-! ## The planner -/

/-- `_is_complete`. -/
def isComplete (stem : String) (required : List String) (completed : List (String × String)) :
    Bool :=
  required.all (fun project => completed.contains (stem, project))

/-! ## What a manifest names -/

/-- The regions of a manifest. -/
def namedRegions (payload : Payload V) : List (String × String) :=
  match payload.regions with
  | .list regions => regions.filterMap (fun raw =>
    match raw with
    | .invalid => none
    | .region stem project _ => some (stem, project))
  | _ => []

/-- The regions that a manifest file names. -/
def named (manifest : Option C) : List (String × String) :=
  match manifest.bind env.readMapping with
  | some payload => namedRegions payload
  | none => []

/-- Every named region has its table. -/
def Backed (tree : LocalTree C H) : Prop :=
  ∀ key ∈ named env tree.manifest, (tree.tables (tablePath key)).isSome = true

/-- The table at the path of `key` has the digest that the receipt gives. -/
def Listed (receipt : Option (List (Option FileDigest))) (tree : LocalTree C H)
    (key : String × String) : Prop :=
  ∃ c artifacts digest, tree.tables (tablePath key) = some c
    ∧ receiptArtifacts receipt = .ok artifacts ∧ digest ∈ artifacts
    ∧ digest.relativePath = relativePath key ∧ env.sha256File c = digest.sha256

/-- What is asked of one call: at every stop the manifest names installed tables, the planner counts
no region as complete that lacks one, and on return the new regions are those of the batch, with the
tables of the receipt. -/
structure ManifestSound (stems : List String) (received : Received C H)
    (receipt : Option (List (Option FileDigest))) (tree : LocalTree C H) : Prop where
  backed : Backed env tree → ∀ n, Backed env (exec (importSuccess env stems received receipt) n tree).state
  planner : Backed env tree → ∀ n c payload completed stem required,
    (exec (importSuccess env stems received receipt) n tree).state.manifest = some c →
    env.readMapping c = some payload → completedRegions payload = .ok completed →
    isComplete stem required completed = true → ∀ project ∈ required,
      ((exec (importSuccess env stems received receipt) n tree).state.tables
        (tablePath (stem, project))).isSome = true
  listed : ∀ tree', run (importSuccess env stems received receipt) tree = (.ok (), tree') →
    ∀ key ∈ named env tree'.manifest, key ∉ named env tree.manifest →
      key.1 ∈ stems ∧ Listed env receipt tree' key

/-- The checkpoint of `key`, if there is one, is accepted into the directory that is there. -/
def CheckpointAccepted (received : Received C H) (tree : LocalTree C H) (key : String × String) :
    Prop :=
  ∀ incoming, received.checkpoints key = some incoming →
    ∃ paths path result, sentenceSourcePaths env key.1 = .ok paths
      ∧ paths.find? (fun path => key.2 ∈ path.1) = some path
      ∧ acceptCheckpoint (env.identity key.1 key.2 path.2) incoming (tree.checkpoints key).metadata
        = .ok result

/-- When a call meets `ManifestSound`. -/
def Importable (stems : List String) (received : Received C H)
    (receipt : Option (List (Option FileDigest))) (tree : LocalTree C H) : Prop :=
  ∀ plan keys, planImport env stems received receipt tree = .ok plan → batchKeys env stems = .ok keys →
    (Backed env tree → ∀ key ∈ namedRegions plan.payload,
      (tree.tables (tablePath key)).isSome = true)
    ∧ ((∀ key ∈ keys, CheckpointAccepted env received tree key) →
      ∀ key ∈ namedRegions plan.payload, key ∉ named env tree.manifest →
        key.1 ∈ stems ∧ (tablePath key ∈ keys.map tablePath ∨ Listed env receipt tree key))

variable {env}

omit [DecidableEq V] in
theorem mem_of_isComplete {stem : String} {required : List String} {payload : Payload V}
    {completed : List (String × String)} (hcompleted : completedRegions payload = .ok completed)
    (h : isComplete stem required completed = true) :
    ∀ project ∈ required, (stem, project) ∈ namedRegions payload := by
  intro project hproject
  have hmem : (stem, project) ∈ completed := by
    have := List.all_eq_true.mp h project hproject
    simpa using this
  unfold completedRegions at hcompleted
  unfold namedRegions
  cases hregions : payload.regions with
  | missing =>
    rw [hregions] at hcompleted
    cases hcompleted
    cases hmem
  | notAList =>
    rw [hregions] at hcompleted
    cases hcompleted
  | list regions =>
    rw [hregions] at hcompleted
    obtain ⟨raw, hraw, hregion⟩ := exists_of_mem_mapM hcompleted hmem
    refine List.mem_filterMap.mpr ⟨raw, hraw, ?_⟩
    cases raw with
    | invalid => cases hregion
    | region stem' project' fields =>
      cases hregion
      rfl

/-! ## The plan -/

variable {artifacts : List FileDigest}

theorem of_receiptDigest {relative : String} {digest : FileDigest}
    (h : receiptDigest artifacts relative = .ok digest) :
    digest ∈ artifacts ∧ digest.relativePath = relative := by
  unfold receiptDigest at h
  split at h
  · cases h
  · rename_i found hfound
    cases h
    exact ⟨List.mem_of_find?_eq_some hfound, by simpa using List.find?_some hfound⟩

variable {key : String × String} {plan : ImportPlan C V} {keys : List (String × String)}
  {tables : List (String × C)} {path : String}

omit [DecidableEq H] [DecidableEq V] in
theorem of_verifiedTable {received : Received C H} {entry : String × C}
    (h : verifiedTable env received artifacts key = .ok entry) :
    entry.1 = tablePath key ∧ ∃ digest ∈ artifacts, digest.relativePath = relativePath key
      ∧ env.sha256File entry.2 = digest.sha256 := by
  obtain ⟨incoming, -, h⟩ := bind_eq_ok.mp h
  obtain ⟨digest, hdigest, h⟩ := bind_eq_ok.mp h
  split at h
  · cases h
  split at h
  · cases h
  rename_i hhash
  cases h
  obtain ⟨hmem, hpath⟩ := of_receiptDigest hdigest
  exact ⟨rfl, digest, hmem, hpath, not_not.mp hhash⟩

variable {stems : List String} {received : Received C H}
variable {receipt : Option (List (Option FileDigest))} {tree : LocalTree C H}

omit [DecidableEq H] in
theorem of_planImport (h : planImport env stems received receipt tree = .ok plan) :
    env.readMapping plan.manifest = some plan.payload
      ∧ ∃ artifacts keys, receiptArtifacts receipt = .ok artifacts ∧ batchKeys env stems = .ok keys
        ∧ keys.mapM (verifiedTable env received artifacts) = .ok plan.tables := by
  obtain ⟨artifacts, hartifacts, h⟩ := bind_eq_ok.mp h
  obtain ⟨manifest, -, h⟩ := bind_eq_ok.mp h
  split at h
  · cases h
  rename_i incoming hincoming
  obtain ⟨current, -, h⟩ := bind_eq_ok.mp h
  obtain ⟨⟨⟩, -, h⟩ := bind_eq_ok.mp h
  obtain ⟨keys, hkeys, h⟩ := bind_eq_ok.mp h
  obtain ⟨tables, htables, h⟩ := bind_eq_ok.mp h
  cases h
  exact ⟨hincoming, artifacts, keys, hartifacts, hkeys, htables⟩

omit [DecidableEq H] [DecidableEq V] in
theorem planned_tables (h : keys.mapM (verifiedTable env received artifacts) = .ok tables) :
    tables.map Prod.fst = keys.map tablePath ∧ ∀ entry ∈ tables, ∀ key,
      tablePath key = entry.1 → ∃ digest ∈ artifacts, digest.relativePath = relativePath key
        ∧ env.sha256File entry.2 = digest.sha256 := by
  constructor
  · have hall := mapM_eq_ok_iff.mp h
    clear h
    induction hall with
    | nil => rfl
    | cons hx _ ih => rw [List.map_cons, List.map_cons, ih, (of_verifiedTable hx).1]
  · intro entry hentry key hkey
    obtain ⟨key', -, hkey'⟩ := exists_of_mem_mapM h hentry
    obtain ⟨hpath, digest, hmem, hrelative, hhash⟩ := of_verifiedTable hkey'
    refine ⟨digest, hmem, ?_, hhash⟩
    rw [hrelative, relativePath, relativePath, hkey, hpath]

/-! ## The copies -/

/-- The tables after the copies. -/
def copied : List (String × C) → (String → Option C) → String → Option C
  | [], installed => installed
  | (path, c) :: tables, installed => copied tables (Function.update installed path (some c))

theorem copied_of_notMem (h : path ∉ tables.map Prod.fst) (installed : String → Option C) :
    copied tables installed path = installed path := by
  induction tables generalizing installed with
  | nil => rfl
  | cons entry tables ih =>
    rw [List.map_cons, List.mem_cons, not_or] at h
    rw [copied, ih h.2, Function.update_of_ne h.1]

theorem copied_of_mem (h : path ∈ tables.map Prod.fst) (installed : String → Option C) :
    ∃ c, (path, c) ∈ tables ∧ copied tables installed path = some c := by
  induction tables generalizing installed with
  | nil => cases h
  | cons entry tables ih =>
    by_cases hrest : path ∈ tables.map Prod.fst
    · obtain ⟨c, hc, hcopied⟩ := ih hrest (Function.update installed entry.1 (some entry.2))
      exact ⟨c, List.mem_cons_of_mem _ hc, hcopied⟩
    · have hpath : path = entry.1 := by
        rw [List.map_cons, List.mem_cons] at h
        exact h.resolve_right hrest
      refine ⟨entry.2, by simp [hpath], ?_⟩
      rw [copied, copied_of_notMem hrest, hpath, Function.update_self]

theorem isSome_copied (tables : List (String × C)) {installed : String → Option C}
    (h : (installed path).isSome = true) : (copied tables installed path).isSome = true := by
  by_cases hmem : path ∈ tables.map Prod.fst
  · obtain ⟨c, -, hc⟩ := copied_of_mem hmem installed
    rw [hc]
    rfl
  · rw [copied_of_notMem hmem]
    exact h

omit [DecidableEq H] in
theorem copyTables_wp (tables : List (String × C)) (tree : LocalTree C H) :
    wp (copyTables tables : Prog (LocalTree C H) BatchImportError Unit)
      (fun _ tree' => tree' = { tree with tables := copied tables tree.tables })
      (fun _ _ => False)
      (fun tree' => tree'.manifest = tree.manifest
        ∧ ∀ path, (tree.tables path).isSome = true → (tree'.tables path).isSome = true) tree := by
  induction tables generalizing tree with
  | nil => rfl
  | cons entry tables ih =>
    obtain ⟨path, c⟩ := entry
    rw [copyTables, wp_bind, wp_step]
    refine ⟨⟨rfl, fun _ h => h⟩, ?_⟩
    refine wp_mono ?_ (fun _ _ h => h) ?_ (ih _)
    · rintro - tree' rfl
      rfl
    · rintro tree' ⟨hmanifest, hkept⟩
      refine ⟨hmanifest, fun path' h => hkept path' ?_⟩
      by_cases hpath : path' = path
      · simp [hpath]
      · simpa [hpath] using h

/-! ## The checkpoints -/

theorem run_importCheckpointTree {identity : Identity H} {incoming : Incoming H}
    {region : Region H} {metadata : Metadata H} {tables : List (List SentenceRow)}
    (h : acceptCheckpoint identity incoming region.metadata = .ok (metadata, tables)) :
    ∃ region', run (importCheckpointTree identity incoming) region
        = (.ok (List.range tables.length), region')
      ∧ region'.metadata = some metadata := by
  have hinstall : ∀ index (tables : List (List SentenceRow)) (region : Region H),
      run (installBatches index tables) region = (.ok (), installed index tables region) := by
    intro index tables
    induction tables generalizing index with
    | nil => exact fun _ => rfl
    | cons table tables ih => exact fun region => ih (index + 1) _
  refine ⟨{ installed 0 tables region with metadata := some metadata }, ?_, rfl⟩
  rw [importCheckpointTree, run_bind_ok (run_get region), h]
  exact (run_bind_ok (hinstall 0 tables region)).trans rfl

theorem run_importCheckpointTree_error {identity : Identity H} {incoming : Incoming H}
    {region : Region H} {e : ImportError}
    (h : acceptCheckpoint identity incoming region.metadata = .error e) :
    run (importCheckpointTree identity incoming) region = (.error e, region) := by
  rw [importCheckpointTree, run_bind_ok (run_get region), h]
  rfl

omit [DecidableEq V] in
theorem run_importCheckpoint (h : CheckpointAccepted env received tree key) :
    ∃ tree', run (importCheckpoint env received key) tree = (.ok (), tree')
      ∧ tree'.manifest = tree.manifest ∧ tree'.tables = tree.tables
      ∧ ∀ key', CheckpointAccepted env received tree' key'
        ↔ CheckpointAccepted env received tree key' := by
  unfold importCheckpoint
  cases hincoming : received.checkpoints key with
  | none => exact ⟨tree, rfl, rfl, rfl, fun _ => Iff.rfl⟩
  | some incoming =>
    obtain ⟨paths, path, result, hpaths, hpath, haccept⟩ := h incoming hincoming
    obtain ⟨region', hrun, hmetadata⟩ := run_importCheckpointTree haccept
    refine ⟨(checkpointPart key).put region' tree, ?_, rfl, rfl, fun key' => ?_⟩
    · have hview : (checkpointPart (C := C) key).view tree = tree.checkpoints key := rfl
      simp only [hpaths, checked, run_bind, run_ret, hpath, run_mapError, run_focus, hview, hrun]
      rfl
    · by_cases hkey : key' = key
      · subst hkey
        refine iff_of_true ?_ h
        intro incoming' hincoming'
        rw [hincoming, Option.some.injEq] at hincoming'
        subst hincoming'
        obtain ⟨hexpected, hfound, hidentity, htables, -⟩ :=
          acceptCheckpoint_eq_ok_iff.mp haccept
        refine ⟨paths, path, result, hpaths, hpath, acceptCheckpoint_eq_ok_iff.mpr
          ⟨hexpected, hfound, hidentity, htables, fun m hm => ?_⟩⟩
        have hregion : ((checkpointPart key').put region' tree).checkpoints key' = region' :=
          Function.update_self _ _ _
        rw [hregion, hmetadata, Option.some.injEq] at hm
        rw [← hm, hidentity]
      · have hsame : ((checkpointPart key).put region' tree).checkpoints key'
            = tree.checkpoints key' := Function.update_of_ne hkey _ _
        unfold CheckpointAccepted
        rw [hsame]

omit [DecidableEq V] in
theorem run_importCheckpoint_error (h : ¬ CheckpointAccepted env received tree key) :
    ∃ e tree', run (importCheckpoint env received key) tree = (.error e, tree') := by
  unfold CheckpointAccepted at h
  push Not at h
  obtain ⟨incoming, hincoming, hnot⟩ := h
  unfold importCheckpoint
  rw [hincoming]
  cases hpaths : sentenceSourcePaths env key.1 with
  | error e => exact ⟨e, tree, rfl⟩
  | ok paths =>
    cases hpath : paths.find? (fun path => key.2 ∈ path.1) with
    | none => exact ⟨.sourceMissing key.1, tree, by simp [checked, run_bind, hpath]⟩
    | some path =>
      cases haccept : acceptCheckpoint (env.identity key.1 key.2 path.2) incoming
          (tree.checkpoints key).metadata with
      | ok result => exact absurd haccept (hnot paths path result hpaths hpath)
      | error e =>
        have hrun := run_importCheckpointTree_error haccept
        have hview : (checkpointPart (C := C) key).view tree = tree.checkpoints key := rfl
        refine ⟨.checkpoint e, (checkpointPart key).put (tree.checkpoints key) tree, ?_⟩
        simp only [checked, run_bind, run_ret, hpath, run_mapError, run_focus, hview, hrun]
        rfl

omit [DecidableEq V] in
/-- **The checkpoints of a batch** are imported exactly when each of them is accepted. -/
theorem run_importCheckpoints_iff (keys : List (String × String)) :
    (∃ tree', run (importCheckpoints env received keys) tree = (.ok (), tree'))
      ↔ ∀ key ∈ keys, CheckpointAccepted env received tree key := by
  induction keys generalizing tree with
  | nil => simp [importCheckpoints]
  | cons key keys ih =>
    rw [importCheckpoints]
    by_cases hkey : CheckpointAccepted env received tree key
    · obtain ⟨tree', hrun, -, -, hsame⟩ := run_importCheckpoint hkey
      rw [run_bind_ok hrun, ih]
      simp only [List.forall_mem_cons, hkey, true_and]
      exact forall₂_congr (fun key' _ => hsame key')
    · obtain ⟨e, tree', hrun⟩ := run_importCheckpoint_error hkey
      rw [run_bind_error hrun]
      simp [hkey]

omit [DecidableEq V] in
theorem importCheckpoints_wp (keys : List (String × String)) (tree : LocalTree C H) :
    wp (importCheckpoints env received keys)
      (fun _ tree' => tree'.manifest = tree.manifest ∧ tree'.tables = tree.tables)
      (fun _ tree' => tree'.manifest = tree.manifest ∧ tree'.tables = tree.tables)
      (fun tree' => tree'.manifest = tree.manifest ∧ tree'.tables = tree.tables) tree := by
  induction keys generalizing tree with
  | nil => exact ⟨rfl, rfl⟩
  | cons key keys ih =>
    have hone : wp (importCheckpoint env received key)
        (fun _ tree' => tree'.manifest = tree.manifest ∧ tree'.tables = tree.tables)
        (fun _ tree' => tree'.manifest = tree.manifest ∧ tree'.tables = tree.tables)
        (fun tree' => tree'.manifest = tree.manifest ∧ tree'.tables = tree.tables) tree := by
      unfold importCheckpoint
      split
      · exact ⟨rfl, rfl⟩
      rw [wp_bind]
      cases sentenceSourcePaths env key.1 with
      | error e => exact ⟨rfl, rfl⟩
      | ok paths =>
        simp only [checked, wp_ret]
        split
        · exact ⟨rfl, rfl⟩
        · rw [wp_bind, wp_mapError, wp_focus]
          refine wp_mono ?_ ?_ ?_ (wp_trivial _ _)
          · exact fun _ _ _ => ⟨rfl, rfl⟩
          · exact fun _ _ _ => ⟨rfl, rfl⟩
          · exact fun _ _ => ⟨rfl, rfl⟩
    rw [importCheckpoints, wp_bind]
    refine wp_imp ?_ hone
    rintro - tree' ⟨hmanifest, htables⟩
    have hrest := ih tree'
    rw [hmanifest, htables] at hrest
    exact hrest

/-! ## One call -/

omit [DecidableEq H] [DecidableEq V] in
theorem named_planned (h : env.readMapping plan.manifest = some plan.payload) :
    named env (some plan.manifest) = namedRegions plan.payload := by
  rw [named, Option.bind_some, h]

theorem exec_importSuccess_error {e : BatchImportError}
    (h : planImport env stems received receipt tree = .error e) (n : Nat) :
    exec (importSuccess env stems received receipt) n tree = .raised e tree := by
  rw [importSuccess, exec_get_bind, h]
  rfl

theorem exec_importSuccess_one (h : planImport env stems received receipt tree = .ok plan) :
    (exec (importSuccess env stems received receipt) 1 tree).state
      = { tree with manifest := some plan.manifest } := by
  rw [importSuccess, exec_get_bind, h]
  exact exec_zero_state _ _

theorem importSuccess_wp (h : planImport env stems received receipt tree = .ok plan)
    (hkeys : batchKeys env stems = .ok keys) :
    wp (importSuccess env stems received receipt)
      (fun _ tree' => tree'.manifest = some plan.manifest
        ∧ tree'.tables = copied plan.tables tree.tables)
      (fun _ tree' => tree'.manifest = some plan.manifest
        ∧ tree'.tables = copied plan.tables tree.tables)
      (fun tree' => tree' = tree ∨ tree'.manifest = some plan.manifest
        ∧ ∀ path, (tree.tables path).isSome = true → (tree'.tables path).isSome = true) tree := by
  rw [importSuccess, wp_bind, wp_get, wp_bind, h, checked, wp_ret, wp_bind, wp_step, wp_bind]
  refine ⟨Or.inl rfl, ?_⟩
  have hcopy := copyTables_wp plan.tables { tree with manifest := some plan.manifest }
  refine wp_mono ?_ (fun _ _ h => False.elim h) (fun _ h => Or.inr h) hcopy
  rintro - tree₁ rfl
  rw [wp_bind, hkeys, checked, wp_ret]
  have hcheckpoints : wp (importCheckpoints env received keys) _ _ _ _ := importCheckpoints_wp keys
    { tree with manifest := some plan.manifest, tables := copied plan.tables tree.tables }
  refine wp_mono (fun _ _ h => h) (fun _ _ h => h) ?_ hcheckpoints
  rintro tree' ⟨hmanifest, htables⟩
  refine Or.inr ⟨hmanifest, fun path hpath => ?_⟩
  rw [htables]
  exact isSome_copied plan.tables hpath

theorem run_importSuccess_iff (h : planImport env stems received receipt tree = .ok plan)
    (hkeys : batchKeys env stems = .ok keys) :
    (∃ tree', run (importSuccess env stems received receipt) tree = (.ok (), tree'))
      ↔ ∀ key ∈ keys, CheckpointAccepted env received tree key := by
  have hcopy : ∀ tree : LocalTree C H, run (copyTables plan.tables) tree
      = (.ok (), { tree with tables := copied plan.tables tree.tables }) := by
    intro tree
    obtain ⟨⟨⟩, tree', hrun, rfl⟩ := wp_returns (copyTables_wp plan.tables tree)
    exact hrun
  rw [importSuccess, run_bind_ok (run_get tree), h, checked, run_bind_ok (run_ret plan tree),
    run_bind_ok (run_step _ tree), run_bind_ok (hcopy _), hkeys, checked, run_bind_ok (run_ret keys _),
    run_importCheckpoints_iff]
  exact Iff.rfl

/-- **When the manifest is backed.** A call keeps the manifest backed at every stop and installs
exactly the tables of the receipt, if and only if its inputs are importable. -/
theorem manifest_backed_iff (env : ImportEnv C H V) (stems : List String) (received : Received C H)
    (receipt : Option (List (Option FileDigest))) (tree : LocalTree C H) :
    ManifestSound env stems received receipt tree ↔ Importable env stems received receipt tree := by
  constructor
  · intro hsound plan keys hplan hkeys
    obtain ⟨hpayload, artifacts, keys', hartifacts, hkeys', htables⟩ := of_planImport hplan
    rw [hkeys] at hkeys'
    cases hkeys'
    obtain ⟨hpaths, hdigests⟩ := planned_tables htables
    constructor
    · intro hbacked key hkey
      -- the kill behind the manifest
      have hone := hsound.backed hbacked 1
      rw [exec_importSuccess_one hplan] at hone
      exact hone key (by rw [named_planned hpayload]; exact hkey)
    · intro haccepted key hkey hnew
      obtain ⟨tree', hrun⟩ := (run_importSuccess_iff hplan hkeys).mpr haccepted
      have hwp := wp_run (importSuccess_wp hplan hkeys)
      rw [hrun] at hwp
      obtain ⟨hmanifest, htables'⟩ := hwp
      have hnamed : key ∈ named env tree'.manifest := by
        rw [hmanifest, named_planned hpayload]
        exact hkey
      obtain ⟨hstem, c, artifacts', digest, hc, hlisted⟩ := hsound.listed tree' hrun key hnamed hnew
      refine ⟨hstem, ?_⟩
      by_cases hmem : tablePath key ∈ keys.map tablePath
      · exact Or.inl hmem
      · rw [htables', copied_of_notMem (by rw [hpaths]; exact hmem)] at hc
        exact Or.inr ⟨c, artifacts', digest, hc, hlisted⟩
  · intro himportable
    have hstate : Backed env tree → ∀ n,
        Backed env (exec (importSuccess env stems received receipt) n tree).state := by
      intro hbacked n
      cases hplan : planImport env stems received receipt tree with
      | error e =>
        rw [exec_importSuccess_error hplan]
        exact hbacked
      | ok plan =>
        obtain ⟨hpayload, artifacts, keys, -, hkeys, htables⟩ := of_planImport hplan
        have hall := (himportable plan keys hplan hkeys).1 hbacked
        have hmeets := wp_exec (importSuccess_wp hplan hkeys) n
        have hcase : ∀ tree' : LocalTree C H, tree'.manifest = some plan.manifest →
            (∀ path, (tree.tables path).isSome = true → (tree'.tables path).isSome = true) →
            Backed env tree' := by
          intro tree' hmanifest hkept key hkey
          rw [hmanifest, named_planned hpayload] at hkey
          exact hkept _ (hall key hkey)
        have hkept : ∀ path, (tree.tables path).isSome = true →
            (copied plan.tables tree.tables path).isSome = true :=
          fun path hpath => isSome_copied plan.tables hpath
        cases hexec : exec (importSuccess env stems received receipt) n tree with
        | done a tree' =>
          rw [hexec] at hmeets
          exact hcase tree' hmeets.1 (by rw [hmeets.2]; exact hkept)
        | raised e tree' =>
          rw [hexec] at hmeets
          exact hcase tree' hmeets.1 (by rw [hmeets.2]; exact hkept)
        | killed tree' =>
          rw [hexec] at hmeets
          rcases hmeets with rfl | ⟨hmanifest, hkept'⟩
          · exact hbacked
          · exact hcase tree' hmanifest hkept'
    refine ⟨hstate, ?_, ?_⟩
    · intro hbacked n c payload completed stem required hmanifest hpayload hcompleted hcomplete
        project hproject
      refine hstate hbacked n (stem, project) ?_
      rw [hmanifest, named, Option.bind_some, hpayload]
      exact mem_of_isComplete hcompleted hcomplete project hproject
    · intro tree' hrun key hkey hnew
      cases hplan : planImport env stems received receipt tree with
      | error e =>
        rw [importSuccess, run_bind_ok (run_get tree), hplan] at hrun
        cases hrun
      | ok plan =>
        obtain ⟨hpayload, artifacts, keys, hartifacts, hkeys, htables⟩ := of_planImport hplan
        obtain ⟨hpaths, hdigests⟩ := planned_tables htables
        have haccepted := (run_importSuccess_iff hplan hkeys).mp ⟨tree', hrun⟩
        have hwp := wp_run (importSuccess_wp hplan hkeys)
        rw [hrun] at hwp
        obtain ⟨hmanifest, htables'⟩ := hwp
        rw [hmanifest, named_planned hpayload] at hkey
        obtain ⟨hstem, hlisted⟩ := (himportable plan keys hplan hkeys).2 haccepted key hkey hnew
        refine ⟨hstem, ?_⟩
        by_cases hmem : tablePath key ∈ plan.tables.map Prod.fst
        · obtain ⟨c, hc, hcopied⟩ := copied_of_mem hmem tree.tables
          obtain ⟨digest, hdigest, hpath, hhash⟩ := hdigests _ hc key rfl
          exact ⟨c, artifacts, digest, by rw [htables', hcopied], hartifacts, hdigest, hpath, hhash⟩
        · rw [← hpaths] at hlisted
          obtain ⟨c, artifacts', digest, hc, hrest⟩ := hlisted.resolve_left hmem
          exact ⟨c, artifacts', digest, by rw [htables', copied_of_notMem hmem, hc], hrest⟩

end

/-! ## A batch that names its regions early -/

namespace BatchImport.Example

inductive Content where
  | manifest (regions : List (RawRegion Unit))
  | table
  deriving DecidableEq

def env : ImportEnv Content Unit Unit where
  size := fun _ => 1
  sha256File := fun
    | .manifest _ => "a"
    | .table => "b"
  readMapping := fun
    | .manifest regions => some ⟨fun _ => some (), .list regions⟩
    | .table => none
  hasSentenceSchema := fun c => decide (c = .table)
  isSafeStem := fun _ => true
  rootParts := ["data", "processed_v2"]
  wikipediaSections := fun _ => some ()
  wikivoyageSections := fun _ => none
  identity := fun stem _ fingerprint => ⟨stem, .wikipedia, fingerprint, "model", "1", 1⟩

/-- Nothing has been imported. -/
def fresh : LocalTree Content Unit := ⟨none, fun _ => none, fun _ => Region.empty Unit⟩

/-- The result of a job for `monaco`, whole and with the digests of its receipt. -/
def received : Received Content Unit where
  files := fun path =>
    if path = manifestRelative then some (.manifest [.region "monaco" "wikipedia" ()])
    else if path = relativePath ("monaco", "wikipedia") then some .table
    else none
  escapes := fun _ => false
  checkpoints := fun _ => none

def receipt : Option (List (Option FileDigest)) :=
  some [some ⟨manifestRelative, 1, "a"⟩, some ⟨relativePath ("monaco", "wikipedia"), 1, "b"⟩]

theorem backed_fresh : Backed env fresh := by
  intro key hkey
  cases hkey

theorem planned : ∃ plan, planImport env ["monaco"] received receipt fresh = .ok plan
    ∧ plan.manifest = .manifest [.region "monaco" "wikipedia" ()] := by
  cases hplan : planImport env ["monaco"] received receipt fresh with
  | error e =>
    have htrue : (planImport env ["monaco"] received receipt fresh).toBool = true := by
      decide +kernel
    rw [hplan] at htrue
    cases htrue
  | ok plan =>
    refine ⟨plan, rfl, ?_⟩
    have hmanifest : (planImport env ["monaco"] received receipt fresh).toOption.map
        ImportPlan.manifest = some (.manifest [.region "monaco" "wikipedia" ()]) := by
      decide +kernel
    rw [hplan] at hmanifest
    exact Option.some.inj hmanifest

/-- Killed behind the manifest, the import leaves a region that counts as complete and has no
table. -/
theorem killed_before_table :
    Backed env fresh ∧ ¬ ManifestSound env ["monaco"] received receipt fresh := by
  refine ⟨backed_fresh, fun hsound => ?_⟩
  obtain ⟨plan, hplan, hmanifest⟩ := planned
  have hone := hsound.backed backed_fresh 1
  rw [exec_importSuccess_one hplan, hmanifest] at hone
  have hmissing := hone ("monaco", "wikipedia") (by decide)
  cases hmissing

end BatchImport.Example

end OsmPolygonWikidata.Grid5000
