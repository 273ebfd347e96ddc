import OsmPolygonWikidata.Basic.Dict
import OsmPolygonWikidata.Basic.JsonValues
import OsmPolygonWikidata.Basic.Packing
import OsmPolygonWikidata.Publication.PendingPublications

/-! # Planning the sentence batches

`grid5000/sentence_protocol.py`. The regions of the V2 manifest whose sentences are missing are put
into batches, in the order of their stems. A batch is closed when the next region would be one too
many, or would bring it over the limit of bytes.
-/

namespace OsmPolygonWikidata.Grid5000.SentenceBatches

open Python
open PendingPublications (isSafeStem)

structure SentenceBatch where
  index : Nat
  stems : List String
  inputBytes : Nat
  deriving DecidableEq

inductive PlanError where
  | value (message : String)
  | fileNotFound (message : String)
  deriving DecidableEq

/-! ## The manifests -/

/-- `manifests/processed_pbfs.json`. -/
inductive ManifestFile where
  | absent
  | malformed (error : String)
  | json (value : JsonValue)

/-- `_coerce_manifest_entries`: the stems of the entries that are objects. -/
def coerceManifestEntries (entries : List (String × JsonValue)) : List String :=
  (Dict.build Prod.fst (entries.filterMap (fun entry =>
    match entry.2 with
    | .object fields => some (entry.1, fields)
    | _ => none))).map Prod.fst

/-- `_region_identity`. -/
def regionIdentity : JsonValue → Except PlanError (String × String)
  | .object region =>
    match region.lookup "stem", region.lookup "project" with
    | some (.string stem), some (.string project) => .ok (stem, project)
    | _, _ => .error (.value "Sentence manifest region needs string stem and project")
  | _ => .error (.value "Sentence manifest region must be an object")

/-- `_completed_regions`. -/
def completedRegions : Option (List (String × JsonValue)) →
    Except PlanError (List (String × String))
  | none => .ok []
  | some manifest =>
    match (manifest.lookup "regions").getD (.array []) with
    | .array regions => regions.mapM regionIdentity
    | _ => .error (.value "Sentence manifest regions must be a list")

/-! ## The sources -/

/-- The directory `processed_v2`: its manifest, and the sizes of the section tables that are files. -/
structure ProcessedV2 where
  path : String
  manifest : ManifestFile
  wikipedia : String → Option Nat
  wikivoyage : String → Option Nat
  repr : String → String

variable (v2 : ProcessedV2)

/-- `load_v2_manifest`, of which the stems are used. -/
def loadV2Manifest : Except PlanError (List String) :=
  let path := s!"{v2.path}/manifests/processed_pbfs.json"
  match v2.manifest with
  | .absent => .ok []
  | .malformed error => .error (.value s!"Malformed V2 manifest: {error}")
  | .json (.object document) =>
    match (document.lookup "regions").getD (.object document) with
    | .object entries => .ok (coerceManifestEntries entries)
    | _ => .error (.value s!"V2 manifest regions is not an object: {path}")
  | .json _ => .error (.value s!"V2 manifest is not an object: {path}")

/-- `sentence_source_paths`, each with the size of the file. -/
def sentenceSourcePaths (stem : String) : Except PlanError (List (String × Nat)) :=
  let path := fun project => s!"{v2.path}/{project}/sections/{stem}.parquet"
  if isSafeStem stem then
    match v2.wikipedia stem with
    | none =>
      .error (.fileNotFound ("V2 Wikipedia section source is missing: " ++ path "wikipedia"))
    | some size =>
      .ok ((path "wikipedia", size)
        :: ((v2.wikivoyage stem).map (fun size => (path "wikivoyage", size))).toList)
  else .error (.value s!"Invalid sentence stem: {v2.repr stem}")

/-- `_required_projects`. -/
def requiredProjects (paths : List (String × Nat)) : List String :=
  if paths.length = 2 then ["wikipedia", "wikivoyage"] else ["wikipedia"]

/-- `_is_complete`. -/
def isComplete (stem : String) (projects : List String) (completed : List (String × String)) :
    Bool :=
  projects.all (fun project => completed.contains (stem, project))

/-- `_pending_stems`, of stems that are sorted. -/
def pendingStems (completed : List (String × String)) :
    List String → Except PlanError (List (String × Nat))
  | [] => .ok []
  | stem :: stems => do
    let paths ← sentenceSourcePaths v2 stem
    let rest ← pendingStems completed stems
    if isComplete stem (requiredProjects paths) completed then return rest
    else return (stem, (paths.map Prod.snd).sum) :: rest

/-! ## Packing -/

/-- `_should_flush`. -/
def shouldFlush (maxStems maxInputBytes : Nat) (currentStems : List String)
    (currentBytes nextBytes : Nat) : Bool :=
  !currentStems.isEmpty
    && (maxStems ≤ currentStems.length || maxInputBytes < currentBytes + nextBytes)

/-- The batches that are closed, and the one that is open. -/
structure PackState where
  batches : List SentenceBatch
  currentStems : List String
  currentBytes : Nat

/-- `batches.append(_make_batch(batches, current_stems, current_bytes))`. -/
def PackState.flush (s : PackState) : PackState where
  batches := s.batches ++ [⟨s.batches.length, s.currentStems, s.currentBytes⟩]
  currentStems := []
  currentBytes := 0

/-- One round of the loop of `_pack_batches`. -/
def PackState.add (maxStems maxInputBytes : Nat) (s : PackState) (next : String × Nat) :
    PackState :=
  let s := if shouldFlush maxStems maxInputBytes s.currentStems s.currentBytes next.2 then s.flush
    else s
  { s with currentStems := s.currentStems ++ [next.1], currentBytes := s.currentBytes + next.2 }

/-- `_pack_batches`. -/
def packBatches (pending : List (String × Nat)) (maxStems maxInputBytes : Nat) :
    List SentenceBatch :=
  let s := pending.foldl (PackState.add maxStems maxInputBytes) ⟨[], [], 0⟩
  if s.currentStems.isEmpty then s.batches else s.flush.batches

/-- `_validate_limits`. -/
def validateLimits (maxStems maxInputBytes : Nat) : Except PlanError Unit :=
  if maxStems < 1 then .error (.value "max_stems must be positive")
  else if maxInputBytes < 1 then .error (.value "max_input_bytes must be positive")
  else .ok ()

def planSentenceBatches (sentenceManifest : Option (List (String × JsonValue)))
    (maxStems maxInputBytes : Nat) : Except PlanError (List SentenceBatch) := do
  validateLimits maxStems maxInputBytes
  let finalized ← loadV2Manifest v2
  if finalized.isEmpty then return []
  let completed ← completedRegions sentenceManifest
  let pending ← pendingStems v2 completed (finalized.insertionSort (· ≤ ·))
  return packBatches pending maxStems maxInputBytes

/-! ## The loop packs -/

section

variable {maxStems maxInputBytes : Nat}

/-- The bytes of a group of regions. -/
def groupBytes (group : List (String × Nat)) : Nat := (group.map Prod.snd).sum

/-- The group has no room for the next region. -/
def full (maxStems maxInputBytes : Nat) (group : List (String × Nat)) (next : String × Nat) : Bool :=
  maxStems ≤ group.length || maxInputBytes < groupBytes group + next.2

/-- The batch of a group. -/
def toBatch (index : Nat) (group : List (String × Nat)) : SentenceBatch :=
  ⟨index, group.map Prod.fst, groupBytes group⟩

theorem shouldFlush_eq (group : List (String × Nat)) (next : String × Nat) :
    shouldFlush maxStems maxInputBytes (group.map Prod.fst) (groupBytes group) next.2
      = (!group.isEmpty && full maxStems maxInputBytes group next) := by
  simp [shouldFlush, full]

theorem foldl_add (group pending : List (String × Nat)) (batches : List SentenceBatch) :
    let s := pending.foldl (PackState.add maxStems maxInputBytes)
      ⟨batches, group.map Prod.fst, groupBytes group⟩
    (if s.currentStems.isEmpty then s.batches else s.flush.batches)
      = batches ++ (pack (full maxStems maxInputBytes) group pending).mapIdx
        (fun i group => toBatch (batches.length + i) group) := by
  induction pending generalizing group batches with
  | nil =>
    show (if (group.map Prod.fst).isEmpty then batches
      else batches ++ [toBatch batches.length group]) = _
    unfold pack
    cases group with
    | nil => simp
    | cons next group => simp
  | cons next pending ih =>
    rw [List.foldl_cons]
    unfold pack
    by_cases hfull : !group.isEmpty && full maxStems maxInputBytes group next
    · -- the group is closed, and the region begins the next one
      have hadd : PackState.add maxStems maxInputBytes
            ⟨batches, group.map Prod.fst, groupBytes group⟩ next
          = ⟨batches ++ [toBatch batches.length group], [next].map Prod.fst,
            groupBytes [next]⟩ := by
        unfold PackState.add
        rw [shouldFlush_eq, if_pos hfull]
        simp [PackState.flush, toBatch, groupBytes]
      rw [hadd, if_pos hfull]
      refine (ih [next] _).trans ?_
      simp [List.mapIdx_cons, Nat.add_assoc, Nat.add_comm 1]
    · have hadd : PackState.add maxStems maxInputBytes
            ⟨batches, group.map Prod.fst, groupBytes group⟩ next
          = ⟨batches, (group ++ [next]).map Prod.fst, groupBytes (group ++ [next])⟩ := by
        unfold PackState.add
        rw [shouldFlush_eq, if_neg hfull]
        simp [groupBytes]
      rw [hadd, if_neg hfull]
      exact ih (group ++ [next]) batches

/-- **The loop packs the regions**, and numbers the batches. -/
theorem packBatches_eq (pending : List (String × Nat)) : packBatches pending maxStems maxInputBytes
      = (pack (full maxStems maxInputBytes) [] pending).mapIdx toBatch := by
  refine (foldl_add [] pending []).trans ?_
  simp

theorem HadRoom.bounds {group : List (String × Nat)}
    (h : HadRoom (full maxStems maxInputBytes) group) (hne : group ≠ []) (hstems : 1 ≤ maxStems) :
    group.length ≤ maxStems ∧ (maxInputBytes < groupBytes group → group.length = 1) := by
  obtain ⟨init, last, rfl⟩ := (List.eq_nil_or_concat group).resolve_left hne
  by_cases hinit : init = []
  · subst hinit
    exact ⟨hstems, fun _ => rfl⟩
  · have hroom : full maxStems maxInputBytes init last = false :=
      h init last [] (List.concat_eq_append) hinit
    simp only [full, Bool.or_eq_false_iff, decide_eq_false_iff_not, not_le, not_lt] at hroom
    have hbytes : groupBytes (init.concat last) = groupBytes init + last.2 := by
      simp [groupBytes]
    rw [hbytes, List.length_concat]
    omega

end

/-! ## The pending regions -/

section

variable {v2 : ProcessedV2} {completed : List (String × String)}

/-- The projects that a region has section tables of. -/
def RequiredProject (v2 : ProcessedV2) (stem project : String) : Prop :=
  project = "wikipedia" ∨ (project = "wikivoyage" ∧ (v2.wikivoyage stem).isSome)

/-- The bytes of the section tables of a region. -/
def sourceBytes (v2 : ProcessedV2) (stem : String) : Nat :=
  (v2.wikipedia stem).getD 0 + (v2.wikivoyage stem).getD 0

theorem sentenceSourcePaths_spec {stem : String} {paths : List (String × Nat)}
    (h : sentenceSourcePaths v2 stem = .ok paths) :
    (paths.map Prod.snd).sum = sourceBytes v2 stem
      ∧ ∀ project, project ∈ requiredProjects paths ↔ RequiredProject v2 stem project := by
  unfold sentenceSourcePaths at h
  dsimp only at h
  split at h
  · split at h
    · cases h
    · rename_i size hsize
      cases h
      rw [sourceBytes, hsize]
      cases hvoyage : v2.wikivoyage stem <;> simp [requiredProjects, RequiredProject, hvoyage]
  · cases h

theorem pendingStems_spec {stems : List String} {pending : List (String × Nat)}
    (h : pendingStems v2 completed stems = .ok pending) :
    (∀ entry ∈ pending, entry.2 = sourceBytes v2 entry.1) ∧ (pending.map Prod.fst).Sublist stems
      ∧ ∀ stem, stem ∈ pending.map Prod.fst
        ↔ stem ∈ stems ∧ ∃ project, RequiredProject v2 stem project
          ∧ (stem, project) ∉ completed := by
  induction stems generalizing pending with
  | nil =>
    cases h
    exact ⟨by simp, List.Sublist.refl _, by simp⟩
  | cons stem stems ih =>
    obtain ⟨paths, hpaths, h⟩ := bind_eq_ok.mp h
    obtain ⟨rest, hrest, h⟩ := bind_eq_ok.mp h
    obtain ⟨hbytes, hsublist, hmem⟩ := ih hrest
    obtain ⟨hsum, hprojects⟩ := sentenceSourcePaths_spec hpaths
    have hcomplete : isComplete stem (requiredProjects paths) completed = true
        ↔ ∀ project, RequiredProject v2 stem project → (stem, project) ∈ completed := by
      simp only [isComplete, List.all_eq_true, List.contains_iff_mem, hprojects]
    split at h
    · rename_i hdone
      cases h
      refine ⟨hbytes, hsublist.cons _, fun other => ?_⟩
      rw [hmem, List.mem_cons]
      refine and_congr_left fun ⟨project, hrequired, hmissing⟩ => ?_
      refine ⟨Or.inr, fun hor => hor.resolve_left ?_⟩
      rintro rfl
      exact hmissing (hcomplete.mp hdone project hrequired)
    · rename_i hmissing
      cases h
      refine ⟨?_, by simpa using hsublist, fun other => ?_⟩
      · intro entry hentry
        rcases List.mem_cons.mp hentry with rfl | hentry
        · exact hsum
        · exact hbytes entry hentry
      · rw [List.map_cons, List.mem_cons, List.mem_cons, hmem, or_and_right]
        refine or_congr_left ⟨?_, fun heq => heq.1⟩
        rintro rfl
        refine ⟨rfl, ?_⟩
        rw [hcomplete] at hmissing
        obtain ⟨project, hproject⟩ := not_forall.mp hmissing
        exact ⟨project, Classical.not_imp.mp hproject⟩

/-- The sentence manifest has an entry of a region and a project. -/
def Recorded (sentenceManifest : Option (List (String × JsonValue))) (stem project : String) :
    Prop :=
  ∃ manifest regions region, sentenceManifest = some manifest
    ∧ manifest.lookup "regions" = some (.array regions) ∧ .object region ∈ regions
    ∧ region.lookup "stem" = some (.string stem) ∧ region.lookup "project" = some (.string project)

theorem regionIdentity_eq_ok {value : JsonValue} {key : String × String} :
    regionIdentity value = .ok key
      ↔ ∃ region, value = .object region ∧ region.lookup "stem" = some (.string key.1)
        ∧ region.lookup "project" = some (.string key.2) := by
  constructor
  · intro h
    unfold regionIdentity at h
    split at h
    · rename_i region
      split at h
      · rename_i stem project hstem hproject
        cases h
        exact ⟨region, rfl, hstem, hproject⟩
      · cases h
    · cases h
  · rintro ⟨region, rfl, hstem, hproject⟩
    simp only [regionIdentity, hstem, hproject]

theorem completedRegions_spec {sentenceManifest : Option (List (String × JsonValue))}
    (h : completedRegions sentenceManifest = .ok completed) (stem project : String) :
    (stem, project) ∈ completed ↔ Recorded sentenceManifest stem project := by
  cases sentenceManifest with
  | none =>
    cases h
    simp [Recorded]
  | some manifest =>
    unfold completedRegions at h
    dsimp only at h
    split at h
    · rename_i regions hregions
      have hall := mapM_eq_ok_iff.mp h
      cases hlookup : manifest.lookup "regions" with
      | none =>
        rw [hlookup] at hregions
        cases hregions
        cases hall
        simp [Recorded, hlookup]
      | some value =>
        rw [hlookup] at hregions
        obtain rfl : value = .array regions := hregions
        constructor
        · intro hmem
          obtain ⟨region, hregion, hkey⟩ := forall₂_exists_mem hall.flip hmem
          obtain ⟨fields, rfl, hstem, hproject⟩ := regionIdentity_eq_ok.mp hkey
          exact ⟨manifest, regions, fields, rfl, hlookup, hregion, hstem, hproject⟩
        · rintro ⟨manifest', regions', fields, heq, hlookup', hregion, hstem, hproject⟩
          rw [← Option.some.inj heq, hlookup] at hlookup'
          cases hlookup'
          obtain ⟨key, hkey, hidentity⟩ := forall₂_exists_mem hall hregion
          have hsame : regionIdentity (.object fields) = .ok (stem, project) :=
            regionIdentity_eq_ok.mpr ⟨fields, rfl, hstem, hproject⟩
          rw [hsame] at hidentity
          cases hidentity
          exact hkey
    · cases h

end

/-! ## The partition -/

section

variable {v2 : ProcessedV2} {sentenceManifest : Option (List (String × JsonValue))}
  {maxStems maxInputBytes : Nat}

/-- The manifest has an entry of the region, which is an object. -/
def Finalized (v2 : ProcessedV2) (stem : String) : Prop :=
  ∃ stems, loadV2Manifest v2 = .ok stems ∧ stem ∈ stems

/-- An exact partition of the regions whose sentences are missing, within the limits. -/
structure ExactPartition (v2 : ProcessedV2)
    (sentenceManifest : Option (List (String × JsonValue))) (maxStems maxInputBytes : Nat)
    (batches : List SentenceBatch) : Prop where
  mem_iff : ∀ stem, stem ∈ batches.flatMap SentenceBatch.stems ↔ Finalized v2 stem
      ∧ ∃ project, RequiredProject v2 stem project ∧ ¬ Recorded sentenceManifest stem project
  increasing : (batches.flatMap SentenceBatch.stems).Pairwise (· < ·)
  indexes : batches.map SentenceBatch.index = List.range batches.length
  stems_ne_nil : ∀ batch ∈ batches, batch.stems ≠ []
  stems_le : ∀ batch ∈ batches, batch.stems.length ≤ maxStems
  oversize : ∀ batch ∈ batches, maxInputBytes < batch.inputBytes → batch.stems.length = 1
  inputBytes : ∀ batch ∈ batches, batch.inputBytes = (batch.stems.map (sourceBytes v2)).sum
  maximal : batches.IsChain (fun batch next => ∀ stem ∈ next.stems.head?,
    maxStems < batch.stems.length + 1 ∨ maxInputBytes < batch.inputBytes + sourceBytes v2 stem)

theorem nodup_coerceManifestEntries (entries : List (String × JsonValue)) :
    (coerceManifestEntries entries).Nodup :=
  Dict.nodup_keys_build _

theorem nodup_loadV2Manifest {stems : List String} (h : loadV2Manifest v2 = .ok stems) :
    stems.Nodup := by
  unfold loadV2Manifest at h
  dsimp only at h
  split at h
  · cases h
    exact List.nodup_nil
  · cases h
  · split at h
    · cases h
      exact nodup_coerceManifestEntries _
    · cases h
  · cases h

theorem strictlySorted {stems : List String} (h : stems.Nodup) :
    (stems.insertionSort (· ≤ ·)).Pairwise (· < ·) := by
  have hsorted := List.pairwise_insertionSort (· ≤ ·) stems
  have hnodup := (List.perm_insertionSort (· ≤ ·) stems).nodup_iff.mpr h
  exact hsorted.imp₂ (fun a b hle hne => lt_of_le_of_ne hle hne) hnodup

theorem mem_mapIdx_toBatch {groups : List (List (String × Nat))} {batch : SentenceBatch}
    (h : batch ∈ groups.mapIdx toBatch) : ∃ i, ∃ group ∈ groups, batch = toBatch i group := by
  obtain ⟨i, hi, heq⟩ := List.mem_mapIdx.mp h
  exact ⟨i, groups[i], List.getElem_mem hi, heq.symm⟩

theorem flatMap_stems_mapIdx (groups : List (List (String × Nat))) :
    (groups.mapIdx toBatch).flatMap SentenceBatch.stems = groups.flatten.map Prod.fst := by
  have hstems : (groups.mapIdx toBatch).map SentenceBatch.stems
      = groups.map (fun group => group.map Prod.fst) :=
    List.ext_getElem (by simp) fun i _ _ => by simp [toBatch]
  rw [List.flatMap, hstems, List.map_flatten]

theorem exactPartition_pack (hstems : 1 ≤ maxStems) {pending : List (String × Nat)}
    (hbytes : ∀ entry ∈ pending, entry.2 = sourceBytes v2 entry.1)
    (hincreasing : (pending.map Prod.fst).Pairwise (· < ·))
    (hmem : ∀ stem, stem ∈ pending.map Prod.fst ↔ Finalized v2 stem
        ∧ ∃ project, RequiredProject v2 stem project ∧ ¬ Recorded sentenceManifest stem project) :
    ExactPartition v2 sentenceManifest maxStems maxInputBytes
      (packBatches pending maxStems maxInputBytes) := by
  rw [packBatches_eq]
  have hflatten := flatten_pack (full maxStems maxInputBytes) [] pending
  rw [List.nil_append] at hflatten
  have hgroup : ∀ group ∈ pack (full maxStems maxInputBytes) [] pending,
      ∀ entry ∈ group, entry.2 = sourceBytes v2 entry.1 := by
    intro group hgroup entry hentry
    refine hbytes entry ?_
    rw [← hflatten]
    exact List.mem_flatten.mpr ⟨group, hgroup, hentry⟩
  have hbounds : ∀ group ∈ pack (full maxStems maxInputBytes) [] pending,
      group ≠ [] ∧ group.length ≤ maxStems
        ∧ (maxInputBytes < groupBytes group → group.length = 1) := by
    intro group hgroup
    have hne := ne_nil_of_mem_pack group hgroup
    exact ⟨hne, HadRoom.bounds (hadRoom_of_mem_pack hadRoom_nil group hgroup) hne hstems⟩
  refine ⟨?_, ?_, ?_, ?_, ?_, ?_, ?_, ?_⟩
  · intro stem
    rw [flatMap_stems_mapIdx, hflatten, hmem]
  · rw [flatMap_stems_mapIdx, hflatten]
    exact hincreasing
  · exact List.ext_getElem (by simp) fun i _ _ => by simp [toBatch]
  · intro batch hbatch
    obtain ⟨i, group, hgroup, rfl⟩ := mem_mapIdx_toBatch hbatch
    simpa [toBatch] using (hbounds group hgroup).1
  · intro batch hbatch
    obtain ⟨i, group, hgroup, rfl⟩ := mem_mapIdx_toBatch hbatch
    simpa [toBatch] using (hbounds group hgroup).2.1
  · intro batch hbatch
    obtain ⟨i, group, hgroup, rfl⟩ := mem_mapIdx_toBatch hbatch
    simpa [toBatch] using (hbounds group hgroup).2.2
  · intro batch hbatch
    obtain ⟨i, group, hmemGroup, rfl⟩ := mem_mapIdx_toBatch hbatch
    show groupBytes group = ((group.map Prod.fst).map (sourceBytes v2)).sum
    rw [groupBytes, List.map_map]
    exact congrArg List.sum (List.map_congr_left (hgroup group hmemGroup))
  · have hchain := isChain_pack (full maxStems maxInputBytes) [] pending
    rw [List.isChain_iff_getElem] at hchain ⊢
    intro i hi stem hstem
    rw [List.length_mapIdx] at hi
    rw [List.getElem_mapIdx] at hstem ⊢
    have hhead : ∃ entry ∈ ((pack (full maxStems maxInputBytes) [] pending)[i + 1]).head?,
        entry.1 = stem := by
      simpa [toBatch] using hstem
    obtain ⟨entry, hentry, rfl⟩ := hhead
    have hfull := hchain i hi entry hentry
    rw [← hgroup _ (List.getElem_mem _) entry (List.mem_of_mem_head? hentry)]
    simpa [full, toBatch, Nat.lt_add_one_iff] using hfull

/-- What a plan packs. -/
theorem exists_pending_of_plan {batches : List SentenceBatch}
    (h : planSentenceBatches v2 sentenceManifest maxStems maxInputBytes = .ok batches) :
    1 ≤ maxStems ∧ ∃ pending, batches = packBatches pending maxStems maxInputBytes
      ∧ (∀ entry ∈ pending, entry.2 = sourceBytes v2 entry.1)
      ∧ (pending.map Prod.fst).Pairwise (· < ·)
      ∧ ∀ stem, stem ∈ pending.map Prod.fst ↔ Finalized v2 stem
        ∧ ∃ project, RequiredProject v2 stem project ∧ ¬ Recorded sentenceManifest stem project := by
  obtain ⟨⟨⟩, hlimits, h⟩ := bind_eq_ok.mp h
  obtain ⟨finalized, hfinalized, h⟩ := bind_eq_ok.mp h
  have hmemFinalized : ∀ stem, Finalized v2 stem ↔ stem ∈ finalized := by
    intro stem
    constructor
    · rintro ⟨stems, hstems, hstem⟩
      rw [hfinalized] at hstems
      exact Except.ok.inj hstems ▸ hstem
    · exact fun hstem => ⟨finalized, hfinalized, hstem⟩
  have hstems : 1 ≤ maxStems := by
    by_contra hlt
    rw [validateLimits, if_pos (by omega)] at hlimits
    cases hlimits
  refine ⟨hstems, ?_⟩
  split at h
  · -- no region is finalized
    rename_i hempty
    cases h
    refine ⟨[], rfl, by simp, by simp, fun stem => ?_⟩
    rw [hmemFinalized, List.isEmpty_iff.mp hempty]
    simp
  · obtain ⟨completed, hcompleted, h⟩ := bind_eq_ok.mp h
    obtain ⟨pending, hpending, h⟩ := bind_eq_ok.mp h
    cases h
    obtain ⟨hbytes, hsublist, hmem⟩ := pendingStems_spec hpending
    refine ⟨pending, rfl, hbytes,
      (strictlySorted (nodup_loadV2Manifest hfinalized)).sublist hsublist, fun stem => ?_⟩
    rw [hmem, hmemFinalized, (List.perm_insertionSort _ _).mem_iff]
    simp only [completedRegions_spec hcompleted]

/-- **Batch planning is an exact bounded partition.** -/
theorem planSentenceBatches_partition {batches : List SentenceBatch}
    (h : planSentenceBatches v2 sentenceManifest maxStems maxInputBytes = .ok batches) :
    ExactPartition v2 sentenceManifest maxStems maxInputBytes batches := by
  obtain ⟨hstems, pending, rfl, hbytes, hincreasing, hmem⟩ := exists_pending_of_plan h
  exact exactPartition_pack hstems hbytes hincreasing hmem

end

namespace Example

/-- Four regions: one is large, and one has its Wikipedia sentences but not those of Wikivoyage. -/
def processedV2 : ProcessedV2 where
  path := "processed_v2"
  manifest := .json (.object [("regions", .object [("monaco-latest", .object []),
    ("andorra-latest", .object []), ("france-latest", .object []), ("malta-latest", .object []),
    ("note", .string "no region")])])
  wikipedia := fun stem => if stem = "france-latest" then some 200 else some 40
  wikivoyage := fun stem => if stem = "malta-latest" then some 20 else none
  repr := fun stem => "'" ++ stem ++ "'"

def sentenceManifest : List (String × JsonValue) :=
  [("regions", .array [
    .object [("stem", .string "malta-latest"), ("project", .string "wikipedia")]])]

def batches : List SentenceBatch :=
  [⟨0, ["andorra-latest"], 40⟩, ⟨1, ["france-latest"], 200⟩,
    ⟨2, ["malta-latest", "monaco-latest"], 100⟩]

theorem planSentenceBatches_regions :
    planSentenceBatches processedV2 (some sentenceManifest) 2 100 = .ok batches := by
  decide +kernel

theorem batches_partition : ExactPartition processedV2 (some sentenceManifest) 2 100 batches :=
  planSentenceBatches_partition planSentenceBatches_regions

end Example

end OsmPolygonWikidata.Grid5000.SentenceBatches
