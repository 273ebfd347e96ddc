import OsmPolygonWikidata.Augmentation.ExistingResults
import OsmPolygonWikidata.Publication.LanguageCard

/-! # Publishing the language partitions

`hf/language_split_publication.py` and `hf/language_split_remote.py` with the part of
`hf/_uploader/operations.py` that they use. One publication reads the head of the remote repository,
takes the language files that the remote manifest names and the new plan lacks for stale, and makes
one commit of what differs. A report is given after the planned files and the absence of the stale
ones have been verified at the new revision.

A file is its content, of an arbitrary type `C`.
-/

namespace OsmPolygonWikidata.Publication

open Python Augmentation

/-! ## The Hub -/

/-- What `get_paths_info` says about a file. -/
structure RemoteEntry where
  size : Option Nat
  lfsSha256 : Option String
  blobId : Option String

/-- What the code takes from elsewhere: the measures of a file, what the Hub says about one, and how
texts are read and written. -/
structure Runtime (C : Type) where
  sizeBytes : C → Nat
  sha256File : C → String
  gitSha1 : C → String
  entry : C → RemoteEntry
  jsonLoads : C → Option Json
  decodeUtf8 : C → Option String
  encodeUtf8 : String → C

/-- The files at one revision. -/
abbrev RepoFiles (C : Type) := String → Option C

/-- The revisions of a repository, the first one first. A revision is its position. -/
abbrev Repo (C : Type) := List (RepoFiles C)

inductive LanguagePublicationError where
  | missingLocalFile (path : String)
  | card (error : CardError)
  | noRevision
  | unreadable (what : String)
  | invalidReadme
  | upload (reason : String)
  | verificationFailed (path : String)
  | staleRemains (path : String)

/-- Which reads and writes fail. A required one raises. The manifest and the files that are compared
by their content are optional reads. -/
structure Faults where
  manifest : Bool
  compared : String → Bool
  verified : String → Bool
  required : String → Bool

/-! ## Plans -/

/-- `LanguagePublishedFile`. -/
structure PublishedFile (C : Type) where
  pathInRepo : String
  content : C

/-- What is known of a release before its files are read: the tables of the inventory with their
languages. -/
structure VersionPlan where
  version : LanguageSplitVersion
  languages : List String
  tables : List String
  configurationLanguages : List (String × List String)

/-- The generated files by their paths in the repository, and the manifest. -/
structure Generated (C : Type) where
  files : List (String × Option C)
  manifest : Option C

structure LanguagePublicationPlan (C : Type) where
  version : LanguageSplitVersion
  manifestRemotePath : String
  languages : List String
  configurations : List String
  files : List (PublishedFile C)
  configurationLanguages : List (String × List String)

structure LanguagePublicationReport (C : Type) where
  committed : Bool
  revision : Nat
  files : List (PublishedFile C)
  changedFiles : List String
  staleFiles : List String

inductive PublicationOp (C : Type) where
  | add (pathInRepo : String) (content : C)
  | delete (pathInRepo : String)

def PublicationOp.pathInRepo {C : Type} : PublicationOp C → String
  | .add path _ => path
  | .delete path => path

def remoteReadme : String := "README.md"

def manifestRemoteForVersion : LanguageSplitVersion → String
  | .v1 => "manifests/language_splits_v1.json"
  | .v2 => "manifests/language_splits.json"

variable {C : Type}

/-- `_local_file`. -/
def localFile (path : String) : Option C → Except LanguagePublicationError (PublishedFile C)
  | some content => .ok ⟨path, content⟩
  | none => .error (.missingLocalFile path)

def planFromGenerated (versionPlan : VersionPlan) (generated : Generated C) :
    Except LanguagePublicationError (LanguagePublicationPlan C) := do
  let files ← generated.files.mapM (fun file => localFile file.1 file.2)
  let manifest ← localFile (manifestRemoteForVersion versionPlan.version) generated.manifest
  return {
    version := versionPlan.version
    manifestRemotePath := manifest.pathInRepo
    languages := versionPlan.languages
    configurations := versionPlan.tables.insertionSort (· ≤ ·)
    files := (files ++ [manifest]).insertionSort (fun a b => a.pathInRepo ≤ b.pathInRepo)
    configurationLanguages := versionPlan.configurationLanguages }

/-! ## Paths -/

/-- `PurePosixPath(path).parts`. -/
def posixParts (path : String) : List String :=
  let parts := ((path.toList.splitOn '/').filter (fun part => part ≠ [] ∧ part ≠ ['.'])).map
    String.ofList
  if ['/'].isPrefixOf path.toList then "/" :: parts else parts

/-- `_LANGUAGE_PATH_SHAPES`. -/
def languagePathShape : LanguageSplitVersion → Nat × String × Nat
  | .v1 => (3, "data", 2)
  | .v2 => (4, "language_splits", 3)

/-- The path of a language file, of whatever configuration. -/
def isLanguagePath (version : LanguageSplitVersion) (path : String) : Bool :=
  let parts := posixParts path
  let (expectedLength, root, filenameIndex) := languagePathShape version
  parts.length = expectedLength && parts[0]? = some root
    && "lang-".toList.isPrefixOf (parts[2]?.getD "").toList
    && ".parquet".toList.isSuffixOf (parts[filenameIndex]?.getD "").toList

/-- The configuration in a path. -/
def pathConfiguration (path : String) : Option String := (posixParts path)[1]?

def isManagedLanguagePath (plan : LanguagePublicationPlan C) (path : String) : Bool :=
  isLanguagePath plan.version path
    && plan.configurations.any (fun configuration => pathConfiguration path = some configuration)

/-! ## The remote manifest -/

mutual

def collectManifestPaths : Json → List String
  | .object fields => collectManifestMapping fields ++ collectManifestValues fields
  | .array items => collectManifestList items
  | _ => []

/-- The path that `_collect_manifest_mapping` takes from an object itself. -/
def collectManifestMapping : List (String × Json) → List String
  | [] => []
  | (key, value) :: fields =>
    if key = "path" then
      match value with
      | .string text => if ".parquet".toList.isSuffixOf text.toList then [text] else []
      | _ => []
    else collectManifestMapping fields

/-- The paths in the values of an object. -/
def collectManifestValues : List (String × Json) → List String
  | [] => []
  | (_, value) :: fields => collectManifestPaths value ++ collectManifestValues fields

def collectManifestList : List Json → List String
  | [] => []
  | value :: values => collectManifestPaths value ++ collectManifestList values

end

section

variable (rt : Runtime C)

/-- The paths a manifest names. -/
def manifestPaths (raw : Option C) : List String :=
  match raw with
  | none => []
  | some raw =>
    match rt.jsonLoads raw with
    | none => []
    | some payload => collectManifestPaths payload

def manifestOwnedPaths (raw : Option C) (plan : LanguagePublicationPlan C) : List String :=
  (manifestPaths rt raw).filter (isManagedLanguagePath plan)

/-- `_plan_paths`. -/
def planPaths (plan : LanguagePublicationPlan C) : List String :=
  plan.files.map PublishedFile.pathInRepo

def staleManifestFiles (oldManifest : Option C) (plan : LanguagePublicationPlan C)
    (remoteFiles : RepoFiles C) : List String :=
  ((manifestOwnedPaths rt oldManifest plan).filter
    (fun path => (remoteFiles path).isSome && path ∉ planPaths plan)).dedup.insertionSort (· ≤ ·)

/-! ## Comparing files -/

/-- `_remote_size_matches`, for a file that is there. -/
def remoteSizeMatches (content remote : C) : Bool :=
  match (rt.entry remote).size with
  | some size => size = rt.sizeBytes content
  | none => true

/-- `_remote_digest_matches`: by the LFS digest, else by the blob, else by a download. -/
def remoteDigestMatches (content remote : C) (downloadFails : Bool) : Bool :=
  match (rt.entry remote).lfsSha256.filter (fun sha => sha.length = 64) with
  | some sha => sha = rt.sha256File content
  | none =>
    match (rt.entry remote).blobId.filter (fun blob => blob.length = 40) with
    | some blob => blob = rt.gitSha1 content
    | none => !downloadFails && rt.sha256File remote = rt.sha256File content

/-- `_remote_matches`. -/
def remoteMatches (content : C) (remote : Option C) (downloadFails : Bool) : Bool :=
  match remote with
  | none => false
  | some remote => remoteSizeMatches rt content remote
      && remoteDigestMatches rt content remote downloadFails

/-- `_publication_operations` and the deletions that `_build_publication_operations` adds. -/
def publicationOperations (plan : LanguagePublicationPlan C) (remoteFiles : RepoFiles C)
    (faults : Faults) (staleFiles : List String) : List (PublicationOp C) :=
  (plan.files.filter (fun file => !remoteMatches rt file.content (remoteFiles file.pathInRepo)
    (faults.compared file.pathInRepo))).map (fun file => .add file.pathInRepo file.content)
  ++ staleFiles.map .delete

/-! ## Commits -/

/-- One operation of a commit. -/
def PublicationOp.apply (files : RepoFiles C) : PublicationOp C → RepoFiles C
  | .add path content => Function.update files path (some content)
  | .delete path => Function.update files path none

variable [DecidableEq C]

/-- The operation finds nothing to do. -/
def PublicationOp.unchanged (files : RepoFiles C) : PublicationOp C → Bool
  | .add path content => files path = some content
  | .delete path => (files path).isNone

/-- `create_commit`. The client leaves unchanged files out and makes no empty commit. -/
def createCommit (repo : Repo C) (head : RepoFiles C) (ops : List (PublicationOp C)) :
    Nat × Repo C :=
  if ops.all (PublicationOp.unchanged head) then (repo.length - 1, repo)
  else (repo.length, repo ++ [ops.foldl PublicationOp.apply head])

/-- The deletions of `upload_files` that need a replacement in the same commit. No language path is
one. -/
def unsafeDelete (path : String) : Bool :=
  path ∈ ["augmentation/manifests/augmentation_manifest.json", "coverage_map.png",
      "assets/geographic_wikipedia_text_coverage.png", "assets/geographic_polygon_count.png"]
    || (["articles/", "polygons/", "polygon_articles/", "wikipedia/documents/",
        "wikipedia/sections/", "wikivoyage/documents/", "wikivoyage/sections/",
        "wikidata/facts/"].any (fun directory => directory.toList.isPrefixOf path.toList)
      && ".parquet".toList.isSuffixOf path.toList)

/-- `upload_files`: the new revision, or none when no operation remains. -/
def uploadFiles (repo : Repo C) (head : RepoFiles C) (ops : List (PublicationOp C))
    (faults : Faults) : Except LanguagePublicationError (Option Nat × Repo C) :=
  if ops.any (fun op => match op with
      | .add _ _ => false
      | .delete path => unsafeDelete path) then .error (.upload "unsafe delete")
  else if ¬ (ops.map PublicationOp.pathInRepo).Nodup then .error (.upload "duplicate remote paths")
  else if faults.required "upload" then .error (.upload "rejected")
  else
    let remaining := ops.filter (fun op => match op with
      | .add _ _ => true
      | .delete path => (head path).isSome)
    if remaining.isEmpty then .ok (none, repo)
    else
      let (revision, repo) := createCommit repo head remaining
      .ok (some revision, repo)

/-! ## Publishing -/

def verifyRemoteRelease (plan : LanguagePublicationPlan C) (files : RepoFiles C)
    (staleFiles : List String) (faults : Faults) : Except LanguagePublicationError Unit :=
  if faults.required "verify" then .error (.unreadable "paths")
  else
    match plan.files.find? (fun file => !remoteMatches rt file.content (files file.pathInRepo)
        (faults.verified file.pathInRepo)) with
    | some file => .error (.verificationFailed file.pathInRepo)
    | none =>
      match staleFiles.find? (fun path => (files path).isSome) with
      | some path => .error (.staleRemains path)
      | none => .ok ()

/-- `_remote_card`. -/
def remoteCard (repoId : String) (files : RepoFiles C) (faults : Faults) :
    Except LanguagePublicationError String :=
  match files remoteReadme with
  | none => .ok s!"# {repoId}\n"
  | some raw =>
    if faults.required "readme" then .error (.unreadable remoteReadme)
    else
      match rt.decodeUtf8 raw with
      | none => .error .invalidReadme
      | some text => .ok text

def repoForVersion : LanguageSplitVersion → String
  | .v1 => "NoeFlandre/osm-polygon-wikidata-only"
  | .v2 => "NoeFlandre/osm-polygon-wikidata-and-wikipedia"

/-- The card that `_write_card_snapshot` writes. -/
def mergedCard (plan : LanguagePublicationPlan C) (existing : String) : Except CardError String :=
  mergeLanguageCard existing plan.version plan.configurations plan.languages
    plan.configurationLanguages

def planWithCardFile (plan : LanguagePublicationPlan C) (existing : String) :
    Except LanguagePublicationError (LanguagePublicationPlan C) := do
  let card ← (mergedCard plan existing).mapError .card
  return { plan with files := plan.files ++ [⟨remoteReadme, rt.encodeUtf8 card⟩] }

/-- The manifest at the head, whose download is optional. -/
def remoteManifest (version : LanguageSplitVersion) (files : RepoFiles C) (faults : Faults) :
    Option C :=
  if faults.manifest then none else files (manifestRemoteForVersion version)

/-- The snapshot of the head and the operations that `_publish_one_version` builds from it. -/
def preparePublication (versionPlan : VersionPlan) (generated : Generated C) (faults : Faults)
    (head : RepoFiles C) : Except LanguagePublicationError
      (LanguagePublicationPlan C × List String × List (PublicationOp C)) :=
  if faults.required "snapshot" then .error (.unreadable "snapshot")
  else do
    let plan ← planFromGenerated versionPlan generated
    let oldManifest := remoteManifest plan.version head faults
    let readme ← remoteCard rt (repoForVersion plan.version) head faults
    let staleFiles := staleManifestFiles rt oldManifest plan head
    let plan ← planWithCardFile rt plan readme
    return (plan, staleFiles, publicationOperations rt plan head faults staleFiles)

/-- `_record_no_op` and the end of `_publish_or_record`. -/
def verifiedReport (plan : LanguagePublicationPlan C) (staleFiles : List String)
    (changedFiles : List String) (committed : Bool) (revision : Nat) (repo : Repo C)
    (faults : Faults) : Except LanguagePublicationError (LanguagePublicationReport C) :=
  match repo[revision]? with
  | none => .error .noRevision
  | some files => do
    verifyRemoteRelease rt plan files staleFiles faults
    return ⟨committed, revision, plan.files, changedFiles, staleFiles⟩

/-- `_publish_one_version`: the report, and the repository afterwards. -/
def publishOneVersion (versionPlan : VersionPlan) (generated : Generated C) (faults : Faults)
    (repo : Repo C) : Except LanguagePublicationError (LanguagePublicationReport C) × Repo C :=
  match repo.getLast? with
  | none => (.error .noRevision, repo)
  | some head =>
    match preparePublication rt versionPlan generated faults head with
    | .error e => (.error e, repo)
    | .ok (plan, staleFiles, ops) =>
      if ops.isEmpty then
        (verifiedReport rt plan staleFiles [] false (repo.length - 1) repo faults, repo)
      else
        match uploadFiles repo head ops faults with
        | .error e => (.error e, repo)
        | .ok (none, repo') =>
          (verifiedReport rt plan staleFiles [] false (repo'.length - 1) repo' faults, repo')
        | .ok (some revision, repo') =>
          let changedFiles := (ops.map PublicationOp.pathInRepo).insertionSort (· ≤ ·)
          (verifiedReport rt plan staleFiles changedFiles true revision repo' faults, repo')

end

/-! ## The Hub's part -/

/-- The digests tell files apart, the Hub reports the measures of the files it has, and a text is
read as it was written. -/
structure Honest (rt : Runtime C) : Prop where
  sha256_injective : Function.Injective rt.sha256File
  gitSha1_injective : Function.Injective rt.gitSha1
  size : ∀ c n, (rt.entry c).size = some n → n = rt.sizeBytes c
  lfsSha256 : ∀ c sha, (rt.entry c).lfsSha256 = some sha → sha.length = 64 → sha = rt.sha256File c
  blobId : ∀ c blob, (rt.entry c).blobId = some blob → blob.length = 40 → blob = rt.gitSha1 c
  utf8 : ∀ text, rt.decodeUtf8 (rt.encodeUtf8 text) = some text

section

variable {rt : Runtime C}

theorem eq_of_remoteMatches (hrt : Honest rt) {content : C} {remote : Option C} {fails : Bool}
    (h : remoteMatches rt content remote fails = true) : remote = some content := by
  cases remote with
  | none => cases h
  | some remote =>
    have hdigest : remoteDigestMatches rt content remote fails = true :=
      (Bool.and_eq_true_iff.mp h).2
    unfold remoteDigestMatches at hdigest
    split at hdigest
    · rename_i sha hsha
      obtain ⟨hlfs, hlength⟩ := Option.filter_eq_some_iff.mp hsha
      have hsame := hrt.lfsSha256 remote sha hlfs (by simpa using hlength)
      rw [decide_eq_true_eq, hsame] at hdigest
      rw [hrt.sha256_injective hdigest]
    · split at hdigest
      · rename_i blob hblob
        obtain ⟨hid, hlength⟩ := Option.filter_eq_some_iff.mp hblob
        have hsame := hrt.blobId remote blob hid (by simpa using hlength)
        rw [decide_eq_true_eq, hsame] at hdigest
        rw [hrt.gitSha1_injective hdigest]
      · have hequal := (Bool.and_eq_true_iff.mp hdigest).2
        rw [decide_eq_true_eq] at hequal
        rw [hrt.sha256_injective hequal]

theorem remoteMatches_self (hrt : Honest rt) (content : C) :
    remoteMatches rt content (some content) false = true := by
  refine Bool.and_eq_true_iff.mpr ⟨?_, ?_⟩
  · unfold remoteSizeMatches
    split
    · rename_i size hsize
      rw [hrt.size content size hsize]
      exact decide_eq_true rfl
    · rfl
  · unfold remoteDigestMatches
    split
    · rename_i sha hsha
      obtain ⟨hlfs, hlength⟩ := Option.filter_eq_some_iff.mp hsha
      rw [hrt.lfsSha256 content sha hlfs (by simpa using hlength)]
      exact decide_eq_true rfl
    · split
      · rename_i blob hblob
        obtain ⟨hid, hlength⟩ := Option.filter_eq_some_iff.mp hblob
        rw [hrt.blobId content blob hid (by simpa using hlength)]
        exact decide_eq_true rfl
      · simp

end

/-! ## One commit -/

section

variable {head : RepoFiles C}

theorem foldl_apply_of_notMem (ops : List (PublicationOp C)) {path : String}
    (h : path ∉ ops.map PublicationOp.pathInRepo) :
    ops.foldl PublicationOp.apply head path = head path := by
  induction ops generalizing head with
  | nil => rfl
  | cons op ops ih =>
    rw [List.map_cons, List.mem_cons, not_or] at h
    rw [List.foldl_cons, ih h.2]
    cases op with
    | add p content => exact Function.update_of_ne h.1 _ _
    | delete p => exact Function.update_of_ne h.1 _ _

variable [DecidableEq C]

theorem apply_of_unchanged {op : PublicationOp C}
    (h : op.unchanged head = true) : op.apply head = head := by
  cases op with
  | add path content =>
    have hsame : head path = some content := of_decide_eq_true h
    show Function.update head path (some content) = head
    rw [← hsame, Function.update_eq_self]
  | delete path =>
    have hnone : head path = none := Option.isNone_iff_eq_none.mp h
    show Function.update head path none = head
    rw [← hnone, Function.update_eq_self]

theorem foldl_apply_of_unchanged {ops : List (PublicationOp C)}
    (h : ∀ op ∈ ops, op.unchanged head = true) : ops.foldl PublicationOp.apply head = head := by
  induction ops with
  | nil => rfl
  | cons op ops ih =>
    rw [List.foldl_cons, apply_of_unchanged (h op List.mem_cons_self)]
    exact ih (fun o ho => h o (List.mem_cons_of_mem _ ho))

/-- **A commit** leaves the files with its operations applied at the revision it returns, which is
the head. -/
theorem createCommit_spec {repo repo' : Repo C} {ops : List (PublicationOp C)}
    {revision : Nat} (hhead : repo.getLast? = some head)
    (h : createCommit repo head ops = (revision, repo')) :
    repo'[revision]? = some (ops.foldl PublicationOp.apply head)
      ∧ repo'.getLast? = some (ops.foldl PublicationOp.apply head) := by
  unfold createCommit at h
  split at h
  · rename_i hall
    cases h
    rw [foldl_apply_of_unchanged (List.all_eq_true.mp hall), ← hhead, List.getLast?_eq_getElem?]
    exact ⟨rfl, rfl⟩
  · cases h
    refine ⟨?_, by simp⟩
    rw [List.getElem?_append_right (Nat.le_refl _), Nat.sub_self]
    rfl

end

/-! ## What is published -/

section

variable {rt : Runtime C} {versionPlan : VersionPlan} {generated : Generated C} {faults : Faults}
  {head : RepoFiles C} {plan : LanguagePublicationPlan C} {staleFiles : List String}
  {ops : List (PublicationOp C)}

/-- The card of a release, made from the one that is there. -/
def releaseCard (versionPlan : VersionPlan) (existing : String) : Except CardError String :=
  mergeLanguageCard existing versionPlan.version (versionPlan.tables.insertionSort (· ≤ ·))
    versionPlan.languages versionPlan.configurationLanguages

/-- The content of a publication: the generated files, the manifest and the card. -/
structure Prepared (rt : Runtime C) (versionPlan : VersionPlan) (generated : Generated C)
    (faults : Faults) (head : RepoFiles C) (plan : LanguagePublicationPlan C)
    (staleFiles : List String) (manifest : C) (card : String) : Prop where
  manifestFile : generated.manifest = some manifest
  contents : ∀ path ∈ generated.files.map Prod.fst, ∃ content, (path, some content) ∈ generated.files
  cardText : ∃ existing, remoteCard rt (repoForVersion versionPlan.version) head faults = .ok existing
    ∧ releaseCard versionPlan existing = .ok card
  files : ∀ path content, (⟨path, content⟩ : PublishedFile C) ∈ plan.files
    ↔ (path, some content) ∈ generated.files
      ∨ (path = manifestRemoteForVersion versionPlan.version ∧ content = manifest)
      ∨ (path = remoteReadme ∧ content = rt.encodeUtf8 card)
  stale : ∀ path, path ∈ staleFiles ↔
    path ∈ manifestPaths rt (remoteManifest versionPlan.version head faults)
    ∧ isLanguagePath versionPlan.version path = true
    ∧ (∃ configuration ∈ versionPlan.tables, pathConfiguration path = some configuration)
    ∧ (head path).isSome = true ∧ path ∉ generated.files.map Prod.fst

theorem isLanguagePath_manifest (version : LanguageSplitVersion) :
    isLanguagePath version (manifestRemoteForVersion version) = false := by
  cases version <;> decide

theorem isLanguagePath_readme (version : LanguageSplitVersion) :
    isLanguagePath version remoteReadme = false := by
  cases version <;> decide

theorem ne_of_isLanguagePath {version : LanguageSplitVersion} {path : String}
    (h : isLanguagePath version path = true) :
    path ≠ manifestRemoteForVersion version ∧ path ≠ remoteReadme := by
  refine ⟨?_, ?_⟩
  · rintro rfl
    rw [isLanguagePath_manifest] at h
    cases h
  · rintro rfl
    rw [isLanguagePath_readme] at h
    cases h

theorem mem_localFiles {files : List (PublishedFile C)}
    (h : generated.files.mapM (fun file => localFile file.1 file.2) = .ok files) :
    (∀ path content, (⟨path, content⟩ : PublishedFile C) ∈ files
      ↔ (path, some content) ∈ generated.files)
    ∧ files.map PublishedFile.pathInRepo = generated.files.map Prod.fst := by
  generalize generated.files = gfiles at h
  induction gfiles generalizing files with
  | nil =>
    cases h
    simp
  | cons file gfiles ih =>
    rw [List.mapM_cons] at h
    obtain ⟨first, hfirst, h⟩ := bind_eq_ok.mp h
    obtain ⟨rest, hrest, h⟩ := bind_eq_ok.mp h
    cases h
    obtain ⟨hmem, hpaths⟩ := ih hrest
    obtain ⟨p, c⟩ := file
    cases c with
    | none => cases hfirst
    | some c =>
      cases hfirst
      refine ⟨?_, ?_⟩
      · intro path content
        rw [List.mem_cons, List.mem_cons, hmem]
        simp [PublishedFile.mk.injEq]
      · rw [List.map_cons, List.map_cons, hpaths]

theorem planFromGenerated_spec (h : planFromGenerated versionPlan generated = .ok plan) :
    ∃ manifest, generated.manifest = some manifest
      ∧ (∀ path ∈ generated.files.map Prod.fst, ∃ content, (path, some content) ∈ generated.files)
      ∧ (∀ path content, (⟨path, content⟩ : PublishedFile C) ∈ plan.files
        ↔ (path, some content) ∈ generated.files
          ∨ (path = manifestRemoteForVersion versionPlan.version ∧ content = manifest))
      ∧ (∀ path, path ∈ planPaths plan ↔ path ∈ generated.files.map Prod.fst
          ∨ path = manifestRemoteForVersion versionPlan.version)
      ∧ plan.version = versionPlan.version
      ∧ plan.configurations = versionPlan.tables.insertionSort (· ≤ ·)
      ∧ ∀ existing, mergedCard plan existing = releaseCard versionPlan existing := by
  unfold planFromGenerated at h
  obtain ⟨files, hfiles, h⟩ := bind_eq_ok.mp h
  obtain ⟨manifest, hmanifest, h⟩ := bind_eq_ok.mp h
  cases h
  obtain ⟨hmem, hpaths⟩ := mem_localFiles hfiles
  cases hm : generated.manifest with
  | none =>
    rw [hm] at hmanifest
    cases hmanifest
  | some raw =>
    rw [hm] at hmanifest
    cases hmanifest
    refine ⟨raw, rfl, ?_, ?_, ?_, rfl, rfl, fun _ => rfl⟩
    · intro path hpath
      rw [← hpaths] at hpath
      obtain ⟨file, hfile, rfl⟩ := List.mem_map.mp hpath
      exact ⟨file.content, (hmem file.pathInRepo file.content).mp hfile⟩
    · intro path content
      rw [(List.perm_insertionSort _ _).mem_iff, List.mem_append, hmem, List.mem_singleton,
        PublishedFile.mk.injEq]
    · intro path
      unfold planPaths
      rw [((List.perm_insertionSort _ _).map PublishedFile.pathInRepo).mem_iff, List.map_append,
        List.mem_append, hpaths, List.map_singleton, List.mem_singleton]

theorem mem_staleManifestFiles {oldManifest : Option C} {path : String} :
    path ∈ staleManifestFiles rt oldManifest plan head
      ↔ path ∈ manifestPaths rt oldManifest ∧ isManagedLanguagePath plan path = true
        ∧ (head path).isSome = true ∧ path ∉ planPaths plan := by
  simp only [staleManifestFiles, manifestOwnedPaths, (List.perm_insertionSort _ _).mem_iff,
    List.mem_dedup, List.mem_filter, Bool.and_eq_true, decide_eq_true_eq, and_assoc]

/-- **What a preparation has read.** -/
theorem preparePublication_spec
    (h : preparePublication rt versionPlan generated faults head = .ok (plan, staleFiles, ops)) :
    (∃ manifest card, Prepared rt versionPlan generated faults head plan staleFiles manifest card)
    ∧ ops = publicationOperations rt plan head faults staleFiles := by
  unfold preparePublication at h
  split at h
  · cases h
  obtain ⟨plan₀, hplan, h⟩ := bind_eq_ok.mp h
  obtain ⟨existing, hexisting, h⟩ := bind_eq_ok.mp h
  obtain ⟨plan₁, hcard, h⟩ := bind_eq_ok.mp h
  cases h
  obtain ⟨card, hmerged, hcard⟩ := bind_eq_ok.mp hcard
  cases hcard
  obtain ⟨manifest, hmanifest, hcontents, hfiles, hpaths, hversion, hconfigurations, hcards⟩ :=
    planFromGenerated_spec hplan
  rw [hversion] at hexisting
  have hcard := mapError_eq_ok.mp hmerged
  rw [hcards] at hcard
  refine ⟨⟨manifest, card, hmanifest, hcontents, ⟨existing, hexisting, hcard⟩, ?_, ?_⟩, rfl⟩
  · intro path content
    rw [List.mem_append, hfiles, List.mem_singleton, PublishedFile.mk.injEq, or_assoc]
  · intro path
    rw [mem_staleManifestFiles, hversion, hpaths]
    simp only [isManagedLanguagePath, hversion, hconfigurations, Bool.and_eq_true,
      List.any_eq_true, decide_eq_true_eq, (List.perm_insertionSort _ _).mem_iff]
    constructor
    · rintro ⟨hnamed, ⟨hlanguage, hconfiguration⟩, hthere, hnot⟩
      exact ⟨hnamed, hlanguage, hconfiguration, hthere, fun hmem => hnot (Or.inl hmem)⟩
    · rintro ⟨hnamed, hlanguage, hconfiguration, hthere, hnot⟩
      refine ⟨hnamed, ⟨hlanguage, hconfiguration⟩, hthere, ?_⟩
      rintro (hmem | rfl)
      · exact hnot hmem
      · exact (ne_of_isLanguagePath hlanguage).1 rfl

theorem Prepared.mem_ops_paths {manifest : C} {card path : String}
    (hp : Prepared rt versionPlan generated faults head plan staleFiles manifest card)
    (h : path ∈ (publicationOperations rt plan head faults staleFiles).map
      PublicationOp.pathInRepo) :
    path ∈ generated.files.map Prod.fst ∨ path = manifestRemoteForVersion versionPlan.version
      ∨ path = remoteReadme ∨ path ∈ staleFiles := by
  obtain ⟨op, hop, rfl⟩ := List.mem_map.mp h
  rcases List.mem_append.mp hop with hop | hop
  · obtain ⟨file, hfile, rfl⟩ := List.mem_map.mp hop
    have hmem := (List.mem_filter.mp hfile).1
    rcases (hp.files file.pathInRepo file.content).mp hmem with hfile | ⟨hpath, -⟩ | ⟨hpath, -⟩
    · exact Or.inl (List.mem_map.mpr ⟨_, hfile, rfl⟩)
    · exact Or.inr (Or.inl hpath)
    · exact Or.inr (Or.inr (Or.inl hpath))
  · obtain ⟨path, hpath, rfl⟩ := List.mem_map.mp hop
    exact Or.inr (Or.inr (Or.inr hpath))

theorem verifyRemoteRelease_spec (hrt : Honest rt) {files : RepoFiles C}
    (h : verifyRemoteRelease rt plan files staleFiles faults = .ok ()) :
    (∀ path content, (⟨path, content⟩ : PublishedFile C) ∈ plan.files → files path = some content)
    ∧ ∀ path ∈ staleFiles, files path = none := by
  unfold verifyRemoteRelease at h
  split at h
  · cases h
  split at h
  · cases h
  · rename_i hmatched
    split at h
    · cases h
    · rename_i hstale
      refine ⟨?_, ?_⟩
      · intro path content hmem
        have hfound := List.find?_eq_none.mp hmatched _ hmem
        exact eq_of_remoteMatches hrt (by simpa using hfound)
      · intro path hmem
        have hfound := List.find?_eq_none.mp hstale path hmem
        simpa using hfound

variable [DecidableEq C]

theorem uploadFiles_spec {repo repo' : Repo C} {revision : Option Nat}
    (h : uploadFiles repo head ops faults = .ok (revision, repo')) :
    (revision = none ∧ repo' = repo) ∨ ∃ n remaining, revision = some n ∧ remaining ⊆ ops
        ∧ createCommit repo head remaining = (n, repo') := by
  unfold uploadFiles at h
  split at h
  · cases h
  split at h
  · cases h
  split at h
  · cases h
  dsimp only at h
  split at h
  · cases h
    exact Or.inl ⟨rfl, rfl⟩
  · cases h
    exact Or.inr ⟨_, _, rfl, List.filter_sublist.subset, rfl⟩

/-- **What a publication that returns has done.** -/
theorem publishOneVersion_spec {repo repo' : Repo C} {report : LanguagePublicationReport C}
    (hhead : repo.getLast? = some head)
    (h : publishOneVersion rt versionPlan generated faults repo = (.ok report, repo')) :
    ∃ plan staleFiles ops files,
      preparePublication rt versionPlan generated faults head = .ok (plan, staleFiles, ops)
      ∧ repo'[report.revision]? = some files ∧ repo'.getLast? = some files
      ∧ (∀ path, path ∉ ops.map PublicationOp.pathInRepo → files path = head path)
      ∧ verifyRemoteRelease rt plan files staleFiles faults = .ok () := by
  have hverified : ∀ {plan staleFiles changed committed revision} {repo₁ : Repo C},
      verifiedReport rt plan staleFiles changed committed revision repo₁ faults = .ok report →
      report.revision = revision ∧ ∃ files, repo₁[revision]? = some files
        ∧ verifyRemoteRelease rt plan files staleFiles faults = .ok () := by
    intro plan staleFiles changed committed revision repo₁ hreport
    unfold verifiedReport at hreport
    split at hreport
    · cases hreport
    · rename_i files hfiles
      obtain ⟨_, hverify, hreport⟩ := bind_eq_ok.mp hreport
      cases hreport
      exact ⟨rfl, files, hfiles, hverify⟩
  have hlast : ∀ repo₁ : Repo C, repo₁[repo₁.length - 1]? = repo₁.getLast? :=
    fun repo₁ => List.getLast?_eq_getElem?.symm
  unfold publishOneVersion at h
  rw [hhead] at h
  split at h
  · cases h
  rename_i head' hsame
  cases hsame
  split at h
  · cases h
  rename_i plan staleFiles ops hprepare
  split at h
  · -- nothing to do
    obtain ⟨hreport, rfl⟩ := Prod.mk.inj h
    obtain ⟨hrevision, files, hfiles, hverify⟩ := hverified hreport
    have hsame : files = head := by
      rw [hlast, hhead] at hfiles
      exact (Option.some.inj hfiles).symm
    subst hsame
    exact ⟨plan, staleFiles, ops, files, hprepare, by rw [hrevision]; exact hfiles, hhead,
      fun _ _ => rfl, hverify⟩
  · split at h
    · cases h
    · -- only deletions of absent files
      rename_i repo₁ hupload
      obtain ⟨hreport, rfl⟩ := Prod.mk.inj h
      obtain ⟨hrevision, files, hfiles, hverify⟩ := hverified hreport
      rcases uploadFiles_spec hupload with ⟨-, rfl⟩ | ⟨_, _, hnone, -⟩
      · have hsame : files = head := by
          rw [hlast, hhead] at hfiles
          exact (Option.some.inj hfiles).symm
        subst hsame
        exact ⟨plan, staleFiles, ops, files, hprepare, by rw [hrevision]; exact hfiles, hhead,
          fun _ _ => rfl, hverify⟩
      · cases hnone
    · rename_i revision repo₁ hupload
      obtain ⟨hreport, rfl⟩ := Prod.mk.inj h
      obtain ⟨hrevision, files, hfiles, hverify⟩ := hverified hreport
      rcases uploadFiles_spec hupload with ⟨hnone, -⟩ | ⟨n, remaining, hsome, hsub, hcommit⟩
      · cases hnone
      · cases hsome
        obtain ⟨hat, hlast'⟩ := createCommit_spec hhead hcommit
        rw [hat] at hfiles
        cases hfiles
        refine ⟨plan, staleFiles, ops, _, hprepare, by rw [hrevision]; exact hat, hlast', ?_,
          hverify⟩
        intro path hpath
        refine foldl_apply_of_notMem remaining (fun hmem => hpath ?_)
        exact List.map_subset _ hsub hmem

/-! ## Publications that return -/

section

/-- The operations of a publication have different paths, and are allowed. -/
structure Uploadable (plan : LanguagePublicationPlan C) (staleFiles : List String)
    (head : RepoFiles C) : Prop where
  nodup : (planPaths plan ++ staleFiles).Nodup
  present : ∀ path ∈ staleFiles, (head path).isSome = true
  allowed : ∀ path ∈ staleFiles, unsafeDelete path = false

omit [DecidableEq C] in
theorem foldl_apply_of_mem (hnodup : (ops.map PublicationOp.pathInRepo).Nodup)
    {op : PublicationOp C} (hop : op ∈ ops) (head : RepoFiles C) :
    ops.foldl PublicationOp.apply head op.pathInRepo = op.apply head op.pathInRepo := by
  induction ops generalizing head with
  | nil => cases hop
  | cons first ops ih =>
    rw [List.map_cons, List.nodup_cons] at hnodup
    rw [List.foldl_cons]
    rcases List.mem_cons.mp hop with rfl | hop
    · exact foldl_apply_of_notMem ops hnodup.1
    · rw [ih hnodup.2 hop]
      cases op <;> simp [PublicationOp.apply, PublicationOp.pathInRepo]

variable (h : Uploadable plan staleFiles head)
  (hops : ops = publicationOperations rt plan head faults staleFiles)
  (hrequired : ∀ what, faults.required what = false)

include h hops

omit [DecidableEq C] in
theorem Uploadable.paths_nodup : (ops.map PublicationOp.pathInRepo).Nodup := by
  refine List.Sublist.nodup ?_ h.nodup
  rw [hops, publicationOperations, planPaths, List.map_append, List.map_map, List.map_map]
  refine List.Sublist.append (List.filter_sublist.map _) ?_
  rw [show PublicationOp.pathInRepo ∘ (PublicationOp.delete : String → PublicationOp C) = id from rfl,
    List.map_id]

include hrequired

omit [DecidableEq C] in
theorem Uploadable.verify (hrt : Honest rt) (hverified : ∀ path, faults.verified path = false) :
    verifyRemoteRelease rt plan (ops.foldl PublicationOp.apply head) staleFiles faults
      = .ok () := by
  have hnodup := h.paths_nodup hops
  have hplanned : ∀ file ∈ plan.files,
      ops.foldl PublicationOp.apply head file.pathInRepo = some file.content := by
    intro file hfile
    cases hmatch : remoteMatches rt file.content (head file.pathInRepo)
        (faults.compared file.pathInRepo) with
    | false =>
      have hop : PublicationOp.add file.pathInRepo file.content ∈ ops := by
        rw [hops]
        refine List.mem_append_left _ (List.mem_map.mpr ⟨file, List.mem_filter.mpr ⟨hfile, ?_⟩, rfl⟩)
        rw [hmatch]
        rfl
      have hat := foldl_apply_of_mem hnodup hop head
      simpa [PublicationOp.apply, PublicationOp.pathInRepo] using hat
    | true =>
      -- no other operation has the path of a file that is there
      rw [foldl_apply_of_notMem, eq_of_remoteMatches hrt hmatch]
      intro hmem
      obtain ⟨op, hop, hpath⟩ := List.mem_map.mp hmem
      rw [hops] at hop
      rcases List.mem_append.mp hop with hop | hop
      · obtain ⟨file', hfile', rfl⟩ := List.mem_map.mp hop
        obtain ⟨hfile', hdiffers⟩ := List.mem_filter.mp hfile'
        have hsame : file' = file :=
          List.inj_on_of_nodup_map (List.nodup_append.mp h.nodup).1 hfile' hfile hpath
        rw [hsame, hmatch] at hdiffers
        cases hdiffers
      · obtain ⟨path, hstale, rfl⟩ := List.mem_map.mp hop
        have hplan : file.pathInRepo ∈ planPaths plan := List.mem_map_of_mem hfile
        exact (List.nodup_append.mp h.nodup).2.2 _ hplan path hstale hpath.symm
  have hgone : ∀ path ∈ staleFiles, ops.foldl PublicationOp.apply head path = none := by
    intro path hpath
    have hop : PublicationOp.delete path ∈ ops := by
      rw [hops]
      exact List.mem_append_right _ (List.mem_map_of_mem hpath)
    have hat := foldl_apply_of_mem hnodup hop head
    simpa [PublicationOp.apply, PublicationOp.pathInRepo] using hat
  have hfound : plan.files.find? (fun file => !remoteMatches rt file.content
      (ops.foldl PublicationOp.apply head file.pathInRepo) (faults.verified file.pathInRepo))
        = none := by
    rw [List.find?_eq_none]
    intro file hfile
    rw [hplanned file hfile, hverified, remoteMatches_self hrt]
    simp
  have hstale : staleFiles.find? (fun path => (ops.foldl PublicationOp.apply head path).isSome)
      = none := by
    rw [List.find?_eq_none]
    intro path hpath
    rw [hgone path hpath]
    simp
  unfold verifyRemoteRelease
  rw [hrequired, if_neg Bool.false_ne_true, hfound, hstale]

theorem Uploadable.upload (hne : ops ≠ []) (repo : Repo C) : uploadFiles repo head ops faults
      = .ok (some (createCommit repo head ops).1, (createCommit repo head ops).2) := by
  have hnodup := h.paths_nodup hops
  have hstale : ∀ path, PublicationOp.delete path ∈ ops → path ∈ staleFiles := by
    intro path hmem
    rw [hops] at hmem
    rcases List.mem_append.mp hmem with hmem | hmem
    · obtain ⟨file, -, hop⟩ := List.mem_map.mp hmem
      cases hop
    · obtain ⟨path', hpath, hop⟩ := List.mem_map.mp hmem
      cases hop
      exact hpath
  unfold uploadFiles
  rw [if_neg, if_neg (not_not.mpr hnodup), hrequired, if_neg Bool.false_ne_true,
    List.filter_eq_self.mpr]
  · dsimp only
    rw [if_neg (by simpa using hne)]
  · intro op hop
    cases op with
    | add path content => rfl
    | delete path => exact h.present path (hstale path hop)
  · rw [List.any_eq_true]
    rintro ⟨op, hop, hunsafe⟩
    cases op with
    | add path content => cases hunsafe
    | delete path =>
      have hallowed := h.allowed path (hstale path hop)
      exact Bool.false_ne_true (hallowed.symm.trans hunsafe)

omit hops

/-- **A publication returns** if its operations are allowed and only optional reads fail. -/
theorem publishOneVersion_completes (hrt : Honest rt) {repo : Repo C}
    (hhead : repo.getLast? = some head)
    (hprepare : preparePublication rt versionPlan generated faults head
      = .ok (plan, staleFiles, ops)) (hverified : ∀ path, faults.verified path = false) :
    ∃ report repo', publishOneVersion rt versionPlan generated faults repo = (.ok report, repo') := by
  obtain ⟨-, hops⟩ := preparePublication_spec hprepare
  have hverify := h.verify hops hrequired hrt hverified
  by_cases hnil : ops = []
  · rw [hnil, List.foldl_nil] at hverify
    have hlast : repo[repo.length - 1]? = some head := by
      rw [← hhead, List.getLast?_eq_getElem?]
    refine ⟨⟨false, repo.length - 1, plan.files, [], staleFiles⟩, repo, ?_⟩
    unfold publishOneVersion verifiedReport
    simp only [hhead, hprepare, hnil, List.isEmpty_nil, if_true, hlast, hverify]
    rfl
  · obtain ⟨revision, repo', hcommit⟩ : ∃ revision repo', createCommit repo head ops
        = (revision, repo') := ⟨_, _, rfl⟩
    have hupload := h.upload hops hrequired hnil repo
    rw [hcommit] at hupload
    obtain ⟨hat, -⟩ := createCommit_spec hhead hcommit
    refine ⟨⟨true, revision, plan.files, (ops.map PublicationOp.pathInRepo).insertionSort (· ≤ ·),
      staleFiles⟩, repo', ?_⟩
    unfold publishOneVersion verifiedReport
    simp only [hhead, hprepare, hupload, hat, hverify, List.isEmpty_iff, hnil, if_false]
    rfl

end

/-! ## Exactly the planned partitions -/

/-- The language files of a repository are those that its manifest names. -/
def NamedByManifest (rt : Runtime C) (version : LanguageSplitVersion) (files : RepoFiles C) : Prop :=
  ∀ path, isLanguagePath version path = true → ((files path).isSome = true
    ↔ path ∈ manifestPaths rt (files (manifestRemoteForVersion version)))

/-- A generated release: language files, and a manifest that names no others. -/
structure IsRelease (rt : Runtime C) (version : LanguageSplitVersion) (generated : Generated C) :
    Prop where
  languageFiles : ∀ path ∈ generated.files.map Prod.fst, isLanguagePath version path = true
  manifestNames : ∀ path ∈ manifestPaths rt generated.manifest, isLanguagePath version path = true →
    path ∈ generated.files.map Prod.fst

/-- The language files are exactly the generated ones. -/
def ExactlyPublished (version : LanguageSplitVersion) (generated : Generated C)
    (files : RepoFiles C) : Prop :=
  ∀ path, isLanguagePath version path = true → ∀ content,
    files path = some content ↔ (path, some content) ∈ generated.files

/-- Only language files, the manifest and the card have changed. -/
def OthersUnchanged (version : LanguageSplitVersion) (head files : RepoFiles C) : Prop :=
  ∀ path, isLanguagePath version path = false → path ≠ manifestRemoteForVersion version →
    path ≠ remoteReadme → files path = head path

/-- Publishing the same files makes no commit, whatever reads fail. -/
def NoCommitAgain (rt : Runtime C) (versionPlan : VersionPlan) (generated : Generated C)
    (repo : Repo C) : Prop :=
  ∀ faults, (publishOneVersion rt versionPlan generated faults repo).2 = repo

/-- What a publication needs to leave no language file behind and to be done at once. -/
structure CleanlyReplaces (rt : Runtime C) (versionPlan : VersionPlan) (generated : Generated C)
    (faults : Faults) (head : RepoFiles C) : Prop where
  /-- The manifest was read if there are language files to remove, and they are of configurations of
  the new release. -/
  removable : ∀ path, isLanguagePath versionPlan.version path = true → (head path).isSome = true →
    path ∉ generated.files.map Prod.fst → faults.manifest = false
      ∧ ∃ configuration ∈ versionPlan.tables, pathConfiguration path = some configuration
  /-- The card that the current one becomes is not changed by another merge. -/
  cardSettles : ∀ existing card card',
    remoteCard rt (repoForVersion versionPlan.version) head faults = .ok existing →
    releaseCard versionPlan existing = .ok card → releaseCard versionPlan card = .ok card' →
    card' = card

/-- No read fails. -/
def noFaults : Faults := ⟨false, fun _ => false, fun _ => false, fun _ => false⟩

section

variable {manifest : C} {card : String} {files : RepoFiles C} {repo : Repo C}

/-- A release that is published: the generated files, its manifest and its card. -/
structure IsPublished (rt : Runtime C) (versionPlan : VersionPlan) (generated : Generated C)
    (manifest : C) (card : String) (files : RepoFiles C) : Prop where
  manifestFile : generated.manifest = some manifest
  generated : ∀ path content, (path, some content) ∈ generated.files → files path = some content
  manifest : files (manifestRemoteForVersion versionPlan.version) = some manifest
  readme : files remoteReadme = some (rt.encodeUtf8 card)

omit [DecidableEq C] in
theorem IsPublished.prepared (hrt : Honest rt)
    (hrelease : IsRelease rt versionPlan.version generated)
    (h : IsPublished rt versionPlan generated manifest card files) {faults : Faults}
    {plan : LanguagePublicationPlan C} {staleFiles : List String} {ops : List (PublicationOp C)}
    (hprepare : preparePublication rt versionPlan generated faults files
      = .ok (plan, staleFiles, ops)) :
    ∃ card', releaseCard versionPlan card = .ok card'
      ∧ Prepared rt versionPlan generated faults files plan staleFiles manifest card'
      ∧ staleFiles = [] ∧ ops = publicationOperations rt plan files faults [] := by
  obtain ⟨⟨manifest', card', hp⟩, rfl⟩ := preparePublication_spec hprepare
  have hmanifest : manifest' = manifest :=
    Option.some.inj (hp.manifestFile.symm.trans h.manifestFile)
  subst hmanifest
  obtain ⟨existing, hexisting, hcard⟩ := hp.cardText
  have hsame : existing = card := by
    unfold remoteCard at hexisting
    rw [h.readme] at hexisting
    split at hexisting
    · rename_i hnone
      cases hnone
    · rename_i raw hraw
      cases hraw
      split at hexisting
      · cases hexisting
      · rw [hrt.utf8] at hexisting
        cases hexisting
        rfl
  subst hsame
  have hstale : staleFiles = [] := by
    rw [List.eq_nil_iff_forall_not_mem]
    intro path hpath
    obtain ⟨hnamed, hlanguage, -, -, hnot⟩ := (hp.stale path).mp hpath
    unfold remoteManifest at hnamed
    split at hnamed
    · cases hnamed
    · rw [h.manifest, ← h.manifestFile] at hnamed
      exact hnot (hrelease.manifestNames path hnamed hlanguage)
  exact ⟨card', hcard, hp, hstale, by rw [hstale]⟩

theorem IsPublished.unchanged (h : IsPublished rt versionPlan generated manifest card files)
    {faults : Faults} {plan : LanguagePublicationPlan C} {staleFiles : List String}
    (hp : Prepared rt versionPlan generated faults files plan staleFiles manifest card)
    {op : PublicationOp C} (hop : op ∈ publicationOperations rt plan files faults []) :
    op.unchanged files = true := by
  rcases List.mem_append.mp hop with hop | hop
  · obtain ⟨file, hfile, rfl⟩ := List.mem_map.mp hop
    have hmem := (List.mem_filter.mp hfile).1
    refine decide_eq_true ?_
    rcases (hp.files file.pathInRepo file.content).mp hmem with hfile | ⟨hpath, hcontent⟩
      | ⟨hpath, hcontent⟩
    · exact h.generated _ _ hfile
    · rw [hpath, hcontent]
      exact h.manifest
    · rw [hpath, hcontent]
      exact h.readme
  · cases hop

variable (hrt : Honest rt) (hrelease : IsRelease rt versionPlan.version generated)
  (h : IsPublished rt versionPlan generated manifest card files)
  (hhead : repo.getLast? = some files)

include hrt hrelease h hhead

/-- **A published release whose card has settled** is not committed again. -/
theorem IsPublished.noCommitAgain
    (hsettles : ∀ card', releaseCard versionPlan card = .ok card' → card' = card) :
    NoCommitAgain rt versionPlan generated repo := by
  intro faults
  unfold publishOneVersion
  rw [hhead]
  dsimp only
  cases hprepare : preparePublication rt versionPlan generated faults files with
  | error e => rfl
  | ok prepared =>
    obtain ⟨plan, staleFiles, ops⟩ := prepared
    obtain ⟨card', hcard, hp, -, hops⟩ := h.prepared hrt hrelease hprepare
    obtain rfl := hsettles card' hcard
    dsimp only
    split
    · rfl
    · cases hupload : uploadFiles repo files ops faults with
      | error e => rfl
      | ok result =>
        obtain ⟨revision, repo'⟩ := result
        have hsame : repo' = repo := by
          rcases uploadFiles_spec hupload with ⟨-, hrepo⟩ | ⟨n, remaining, -, hsub, hcommit⟩
          · exact hrepo
          · have hall : remaining.all (PublicationOp.unchanged files) = true := by
              rw [List.all_eq_true]
              intro op hop
              have hop' := hsub hop
              rw [hops] at hop'
              exact h.unchanged hp hop'
            unfold createCommit at hcommit
            rw [if_pos hall] at hcommit
            exact (Prod.mk.inj hcommit).2.symm
        subst hsame
        cases revision <;> rfl

theorem IsPublished.commitsAgain (hplan : planFromGenerated versionPlan generated = .ok plan)
    {card' : String} (hcard : releaseCard versionPlan card = .ok card') (hne : card' ≠ card) :
    (publishOneVersion rt versionPlan generated noFaults repo).2 ≠ repo := by
  obtain ⟨manifest', hmanifest, -, hfiles, -, -, -, hcards⟩ := planFromGenerated_spec hplan
  have hsame : manifest' = manifest := Option.some.inj (hmanifest.symm.trans h.manifestFile)
  subst hsame
  have hexisting : remoteCard rt (repoForVersion plan.version) files noFaults = .ok card := by
    simp only [remoteCard, h.readme, hrt.utf8]
    rfl
  let plan' : LanguagePublicationPlan C :=
    { plan with files := plan.files ++ [⟨remoteReadme, rt.encodeUtf8 card'⟩] }
  have hcardFile : planWithCardFile rt plan card = .ok plan' := by
    refine bind_eq_ok.mpr ⟨card', mapError_eq_ok.mpr ?_, rfl⟩
    rw [hcards]
    exact hcard
  have hprepare : ∃ staleFiles ops,
      preparePublication rt versionPlan generated noFaults files = .ok (plan', staleFiles, ops) := by
    unfold preparePublication
    rw [if_neg (by decide)]
    exact ⟨_, _, bind_eq_ok.mpr ⟨plan, hplan, bind_eq_ok.mpr ⟨card, hexisting,
      bind_eq_ok.mpr ⟨plan', hcardFile, rfl⟩⟩⟩⟩
  obtain ⟨staleFiles, ops, hprepare⟩ := hprepare
  obtain ⟨_, _, -, -, hops⟩ := h.prepared hrt hrelease hprepare
  -- every other file is found equal
  have hequal : plan.files.filter (fun file => !remoteMatches rt file.content
      (files file.pathInRepo) (noFaults.compared file.pathInRepo)) = [] := by
    rw [List.filter_eq_nil_iff]
    intro file hfile
    have hthere : files file.pathInRepo = some file.content := by
      rcases (hfiles file.pathInRepo file.content).mp hfile with hfile | ⟨hpath, hcontent⟩
      · exact h.generated _ _ hfile
      · rw [hpath, hcontent]
        exact h.manifest
    rw [hthere]
    simp only [noFaults, remoteMatches_self hrt, Bool.not_true, Bool.false_eq_true,
      not_false_eq_true]
  have hnew : remoteMatches rt (rt.encodeUtf8 card') (files remoteReadme)
      (noFaults.compared remoteReadme) = false := by
    rw [Bool.eq_false_iff]
    intro hmatch
    have hsame := eq_of_remoteMatches hrt hmatch
    rw [h.readme] at hsame
    have hdecoded := congrArg rt.decodeUtf8 (Option.some.inj hsame)
    rw [hrt.utf8, hrt.utf8] at hdecoded
    exact hne (Option.some.inj hdecoded).symm
  have hone : ops = [.add remoteReadme (rt.encodeUtf8 card')] := by
    rw [hops]
    unfold publicationOperations
    rw [List.filter_append, hequal]
    simp [hnew]
  have hchanged : ¬ [PublicationOp.add remoteReadme (rt.encodeUtf8 card')].all
      (PublicationOp.unchanged files) = true := by
    intro hall
    have hsame : files remoteReadme = some (rt.encodeUtf8 card') := by
      simpa [PublicationOp.unchanged] using hall
    rw [h.readme] at hsame
    have hdecoded := congrArg rt.decodeUtf8 (Option.some.inj hsame)
    rw [hrt.utf8, hrt.utf8] at hdecoded
    exact hne (Option.some.inj hdecoded).symm
  have hupload : ∃ files', uploadFiles repo files ops noFaults
      = .ok (some repo.length, repo ++ [files']) := by
    refine ⟨[PublicationOp.add remoteReadme (rt.encodeUtf8 card')].foldl PublicationOp.apply files,
      ?_⟩
    have hcommit : createCommit repo files [.add remoteReadme (rt.encodeUtf8 card')]
        = (repo.length, repo ++ [[PublicationOp.add remoteReadme (rt.encodeUtf8 card')].foldl
          PublicationOp.apply files]) := if_neg hchanged
    rw [hone]
    simp [uploadFiles, noFaults, hcommit]
  obtain ⟨files', hupload⟩ := hupload
  intro hrepo
  unfold publishOneVersion at hrepo
  simp only [hhead, hprepare, hone] at hrepo
  rw [hone] at hupload
  simp only [List.isEmpty_cons, hupload] at hrepo
  have hlength := congrArg List.length hrepo
  simp at hlength

omit hrt hrelease h hhead

end

/-- **Publication leaves exactly the planned partitions**, changes nothing else and is not repeated,
exactly when what is there can be replaced. -/
theorem publishesExactly_iff (hrt : Honest rt) {repo repo' : Repo C}
    {report : LanguagePublicationReport C} (hrelease : IsRelease rt versionPlan.version generated)
    (hhead : repo.getLast? = some head) (hnamed : NamedByManifest rt versionPlan.version head)
    (hrun : publishOneVersion rt versionPlan generated faults repo = (.ok report, repo')) :
    ((∃ files, repo'[report.revision]? = some files
        ∧ ExactlyPublished versionPlan.version generated files
        ∧ OthersUnchanged versionPlan.version head files)
      ∧ NoCommitAgain rt versionPlan generated repo')
    ↔ CleanlyReplaces rt versionPlan generated faults head := by
  obtain ⟨plan, staleFiles, ops, files, hprepare, hat, hhead', hkept, hverify⟩ :=
    publishOneVersion_spec hhead hrun
  obtain ⟨⟨manifest, card, hp⟩, rfl⟩ := preparePublication_spec hprepare
  obtain ⟨hthere, hgone⟩ := verifyRemoteRelease_spec hrt hverify
  obtain ⟨existing, hexisting, hcard⟩ := hp.cardText
  have hpublished : IsPublished rt versionPlan generated manifest card files := by
    refine ⟨hp.manifestFile, ?_, ?_, ?_⟩
    · exact fun path content hfile => hthere path content ((hp.files _ _).mpr (Or.inl hfile))
    · exact hthere _ _ ((hp.files _ _).mpr (Or.inr (Or.inl ⟨rfl, rfl⟩)))
    · exact hthere _ _ ((hp.files _ _).mpr (Or.inr (Or.inr ⟨rfl, rfl⟩)))
  -- a language file that is not planned is gone exactly when it was found stale
  have hleft : ∀ path, isLanguagePath versionPlan.version path = true →
      path ∉ generated.files.map Prod.fst → path ∉ staleFiles → files path = head path := by
    intro path hlanguage hnot hstale
    refine hkept path (fun hmem => ?_)
    rcases hp.mem_ops_paths hmem with hmem | hpath | hpath | hmem
    · exact hnot hmem
    · exact (ne_of_isLanguagePath hlanguage).1 hpath
    · exact (ne_of_isLanguagePath hlanguage).2 hpath
    · exact hstale hmem
  have hothers : OthersUnchanged versionPlan.version head files := by
    intro path hlanguage hmanifest hreadme
    refine hkept path (fun hmem => ?_)
    rcases hp.mem_ops_paths hmem with hmem | hpath | hpath | hmem
    · rw [hrelease.languageFiles path hmem] at hlanguage
      cases hlanguage
    · exact hmanifest hpath
    · exact hreadme hpath
    · rw [((hp.stale path).mp hmem).2.1] at hlanguage
      cases hlanguage
  constructor
  · rintro ⟨⟨files', hat', hexact, -⟩, hagain⟩
    rw [hat] at hat'
    cases hat'
    refine ⟨?_, ?_⟩
    · intro path hlanguage hsome hnot
      have hstale : path ∈ staleFiles := by
        by_contra hstale
        obtain ⟨content, hcontent⟩ := Option.isSome_iff_exists.mp hsome
        have hfile : files path = some content := by
          rw [hleft path hlanguage hnot hstale, hcontent]
        exact hnot (List.mem_map.mpr ⟨_, (hexact path hlanguage content).mp hfile, rfl⟩)
      obtain ⟨hnames, -, hconfiguration, -⟩ := (hp.stale path).mp hstale
      refine ⟨?_, hconfiguration⟩
      unfold remoteManifest at hnames
      split at hnames
      · cases hnames
      · rename_i hread
        exact Bool.eq_false_iff.mpr hread
    · intro existing' card₁ card' hexisting' hcard₁ hcard'
      rw [hexisting] at hexisting'
      cases hexisting'
      rw [hcard] at hcard₁
      cases hcard₁
      by_contra hne
      obtain ⟨plan₀, hplan⟩ : ∃ plan₀, planFromGenerated versionPlan generated = .ok plan₀ := by
        unfold preparePublication at hprepare
        split at hprepare
        · cases hprepare
        obtain ⟨plan₀, hplan, -⟩ := bind_eq_ok.mp hprepare
        exact ⟨plan₀, hplan⟩
      exact hpublished.commitsAgain hrt hrelease hhead' hplan hcard' hne (hagain noFaults)
  · intro hclean
    refine ⟨⟨files, hat, ?_, hothers⟩, ?_⟩
    · intro path hlanguage content
      constructor
      · intro hfile
        by_cases hmem : path ∈ generated.files.map Prod.fst
        · obtain ⟨content', hcontent⟩ := hp.contents path hmem
          rw [hpublished.generated path content' hcontent] at hfile
          cases hfile
          exact hcontent
        · exfalso
          by_cases hstale : path ∈ staleFiles
          · rw [hgone path hstale] at hfile
            cases hfile
          · have hsome : (head path).isSome = true := by
              rw [← hleft path hlanguage hmem hstale, hfile]
              rfl
            obtain ⟨hread, hconfiguration⟩ := hclean.removable path hlanguage hsome hmem
            refine hstale ((hp.stale path).mpr ⟨?_, hlanguage, hconfiguration, hsome, hmem⟩)
            unfold remoteManifest
            rw [hread]
            exact (hnamed path hlanguage).mp hsome
      · exact fun hfile => hpublished.generated path content hfile
    · refine hpublished.noCommitAgain hrt hrelease hhead' (fun card' hcard' => ?_)
      exact hclean.cardSettles existing card card' hexisting hcard hcard'

end

namespace LanguageExample

def documents : String := "wikipedia_documents_by_language"

def sections : String := "wikipedia_sections_by_language"

def shard (configuration language : String) : String :=
  s!"data/{configuration}/lang-{language}-00000-of-00001.parquet"

/-- A manifest that names one file. -/
def manifestOf (path : String) : String := "\x7b\"path\": \"" ++ path ++ "\"\x7d"

/-- Files are texts. The only JSON texts here are manifests that name one file. -/
def runtime : Runtime String where
  sizeBytes := String.length
  sha256File := id
  gitSha1 := id
  entry := fun c => ⟨some c.length, none, none⟩
  jsonLoads := fun c =>
    ([shard documents "en", shard documents "fr", shard sections "en"].find?
      (fun path => c = manifestOf path)).map (fun path => .object [("path", .string path)])
  decodeUtf8 := some
  encodeUtf8 := id

theorem runtime_honest : Honest runtime where
  sha256_injective := Function.injective_id
  gitSha1_injective := Function.injective_id
  size := by
    intro c n h
    cases h
    rfl
  lfsSha256 := by
    intro c sha h
    cases h
  blobId := by
    intro c blob h
    cases h
  utf8 := fun _ => rfl

def card : String := "---\nconfigs:\n  - config_name: polygons\n---\n# Card\n"

/-- A repository with one language file, named by its manifest. -/
def remote (path : String) : RepoFiles String := fun p =>
  if p = path then some "old"
  else if p = "manifests/language_splits_v1.json" then some (manifestOf path)
  else if p = "README.md" then some card
  else none

/-- The new release has the documents in one language. -/
def versionPlan (language : String) : VersionPlan :=
  ⟨.v1, [language], [documents], [(documents, [language])]⟩

def release (language : String) : Generated String :=
  ⟨[(shard documents language, some "new")], some (manifestOf (shard documents language))⟩

def publish (language : String) (faults : Faults) (path : String) :
    Except LanguagePublicationError (LanguagePublicationReport String) × Repo String :=
  publishOneVersion runtime (versionPlan language) (release language) faults [remote path]

def plan : LanguagePublicationPlan String where
  version := .v1
  manifestRemotePath := "manifests/language_splits_v1.json"
  languages := ["en"]
  configurations := [documents]
  files := [⟨shard documents "en", "new"⟩,
    ⟨"manifests/language_splits_v1.json", manifestOf (shard documents "en")⟩]
  configurationLanguages := [(documents, ["en"])]

theorem planFromGenerated_release :
    planFromGenerated (versionPlan "en") (release "en") = .ok plan := by
  rfl

-- the front matter is evaluated, the text of the card is not
theorem releaseCard_ok : ∃ merged, releaseCard (versionPlan "en") card = .ok merged := by
  have hpre : "---\n".toList.isPrefixOf card.toList = true := by decide +kernel
  have hcut : breakOn "\n---".toList (card.toList.drop 4)
      = some ("configs:\n  - config_name: polygons".toList, "\n---\n# Card\n".toList) := by
    decide +kernel
  have hmarked : findMarked "configs:\n  - config_name: polygons".toList = none := by
    decide +kernel
  have hconfigs : findConfigs (textLines "configs:\n  - config_name: polygons".toList)
      = some ("configs:".toList, "\n  - config_name: polygons".toList) := by
    decide +kernel
  obtain ⟨text, htext⟩ : ∃ text, mergeLanguageFrontMatter card.toList (versionPlan "en").version
      (versionPlan "en").configurationLanguages = .ok text := by
    unfold mergeLanguageFrontMatter
    simp only [hpre, hcut, hmarked, hconfigs, not_true_eq_false, if_false]
    exact ⟨_, rfl⟩
  exact ⟨_, bind_eq_ok.mpr ⟨text, htext, rfl⟩⟩

/-- The only read that may fail here is the one of the manifest. -/
def manifestFault (fails : Bool) : Faults := { noFaults with manifest := fails }

/-- What the publication takes for stale. -/
def stale (fails : Bool) (path : String) : List String :=
  staleManifestFiles runtime (if fails then none else some (manifestOf path)) plan (remote path)

theorem shard_facts :
    (isLanguagePath .v1 (shard documents "en") = true
      ∧ isLanguagePath .v1 (shard documents "fr") = true
      ∧ isLanguagePath .v1 (shard sections "en") = true)
    ∧ (∀ files ∈ [[], [shard documents "fr"]],
      ([shard documents "en", "manifests/language_splits_v1.json", "README.md"] ++ files).Nodup)
    ∧ unsafeDelete (shard documents "fr") = false
    ∧ manifestPaths runtime (release "en").manifest = [shard documents "en"] := by
  decide +kernel

theorem isLanguagePath_sections : isLanguagePath .v1 (shard sections "en") = true :=
  shard_facts.1.2.2

theorem isLanguagePath_french : isLanguagePath .v1 (shard documents "fr") = true :=
  shard_facts.1.2.1

variable {path : String}

variable (hpath : isLanguagePath .v1 path = true)

include hpath

theorem remote_manifest :
    remote path "manifests/language_splits_v1.json" = some (manifestOf path) := by
  have hne := (ne_of_isLanguagePath hpath).1
  unfold remote
  rw [if_neg (fun heq => hne heq.symm), if_pos rfl]

theorem remote_readme : remote path "README.md" = some card := by
  have hne := (ne_of_isLanguagePath hpath).2
  unfold remote
  rw [if_neg (fun heq => hne heq.symm), if_neg (by decide), if_pos rfl]

theorem remote_named (hnames : manifestPaths runtime (some (manifestOf path)) = [path]) :
    NamedByManifest runtime .v1 (remote path) := by
  intro p hp
  have hread : remote path (manifestRemoteForVersion .v1) = some (manifestOf path) :=
    remote_manifest hpath
  rw [hread, hnames, List.mem_singleton]
  constructor
  · intro hsome
    by_contra hne
    obtain ⟨hmanifest, hreadme⟩ := ne_of_isLanguagePath hp
    have hnone : remote path p = none := by
      unfold remote
      rw [if_neg hne]
      exact (if_neg hmanifest).trans (if_neg hreadme)
    rw [hnone] at hsome
    cases hsome
  · rintro rfl
    unfold remote
    rw [if_pos rfl]
    rfl

theorem prepare_remote (fails : Bool) :
    ∃ merged, preparePublication runtime (versionPlan "en") (release "en") (manifestFault fails)
        (remote path)
      = .ok ({ plan with files := plan.files ++ [⟨"README.md", merged⟩] }, stale fails path,
        publicationOperations runtime { plan with files := plan.files ++ [⟨"README.md", merged⟩] }
          (remote path) (manifestFault fails) (stale fails path)) := by
  obtain ⟨merged, hmerged⟩ := releaseCard_ok
  have hexisting : remoteCard runtime (repoForVersion .v1) (remote path) (manifestFault fails)
      = .ok card := by
    simp only [remoteCard, remoteReadme, remote_readme hpath]
    rfl
  have hfiles : planWithCardFile runtime plan card
      = .ok { plan with files := plan.files ++ [⟨"README.md", merged⟩] } :=
    bind_eq_ok.mpr ⟨merged, mapError_eq_ok.mpr hmerged, rfl⟩
  have hread : remoteManifest plan.version (remote path) (manifestFault fails)
      = if fails then none else some (manifestOf path) := by
    rw [← remote_manifest hpath]
    rfl
  have hsnapshot : (manifestFault fails).required "snapshot" = false := rfl
  refine ⟨merged, ?_⟩
  unfold preparePublication
  rw [hsnapshot, if_neg Bool.false_ne_true]
  refine bind_eq_ok.mpr ⟨plan, planFromGenerated_release, bind_eq_ok.mpr ⟨card, hexisting,
    bind_eq_ok.mpr ⟨_, hfiles, ?_⟩⟩⟩
  rw [hread]
  rfl

theorem publish_returns {fails : Bool}
    (hstale : stale fails path = [] ∨ stale fails path = [shard documents "fr"]) :
    ∃ report repo', publish "en" (manifestFault fails) path = (.ok report, repo') := by
  obtain ⟨merged, hprepare⟩ := prepare_remote hpath fails
  refine publishOneVersion_completes ⟨?_, ?_, ?_⟩ (fun _ => rfl) runtime_honest rfl hprepare
    (fun _ => rfl)
  · show ([shard documents "en", "manifests/language_splits_v1.json", "README.md"]
      ++ stale fails path).Nodup
    exact shard_facts.2.1 _ (by simpa using hstale)
  · intro p hp
    exact (mem_staleManifestFiles.mp hp).2.2.1
  · intro p hp
    rcases hstale with hstale | hstale <;> rw [hstale] at hp
    · cases hp
    · rw [List.mem_singleton.mp hp]
      exact shard_facts.2.2.1

omit hpath

theorem release_isRelease : IsRelease runtime .v1 (release "en") := by
  refine ⟨?_, ?_⟩
  · intro path hpath
    rw [List.mem_singleton.mp hpath]
    exact shard_facts.1.1
  · intro path hpath _
    rw [shard_facts.2.2.2] at hpath
    exact hpath

theorem left_behind {fails : Bool} (hpath : isLanguagePath .v1 path = true)
    (hne : path ≠ shard documents "en") (hstale : stale fails path = [])
    {report : LanguagePublicationReport String} {repo' : Repo String}
    (hrun : publish "en" (manifestFault fails) path = (.ok report, repo')) :
    ¬ ∃ files, repo'[report.revision]? = some files
      ∧ ExactlyPublished .v1 (release "en") files := by
  rintro ⟨files, hat', hexact⟩
  have hhead : [remote path].getLast? = some (remote path) := rfl
  obtain ⟨plan', stale', ops, files', hprepare, hat, -, hkept, -⟩ :=
    publishOneVersion_spec hhead hrun
  rw [hat] at hat'
  obtain rfl := Option.some.inj hat'
  obtain ⟨merged, hprepare'⟩ := prepare_remote hpath fails
  rw [hprepare'] at hprepare
  cases hprepare
  obtain ⟨⟨_, _, hp⟩, -⟩ := preparePublication_spec hprepare'
  have hfile : files' path = some "old" := by
    rw [hkept path]
    · unfold remote
      rw [if_pos rfl]
    · intro hmem
      rcases hp.mem_ops_paths hmem with hmem | hmem | hmem | hmem
      · exact hne (List.mem_singleton.mp hmem)
      · exact (ne_of_isLanguagePath hpath).1 hmem
      · exact (ne_of_isLanguagePath hpath).2 hmem
      · rw [hstale] at hmem
        cases hmem
  have hnew := (hexact path hpath "old").mp hfile
  exact hne (Prod.mk.inj (List.mem_singleton.mp hnew)).1

/-- The French documents are replaced by the English ones. -/
theorem replaces_french :
    ∃ report repo', publish "en" (manifestFault false) (shard documents "fr") = (.ok report, repo')
      ∧ (((∃ files, repo'[report.revision]? = some files ∧ ExactlyPublished .v1 (release "en") files
            ∧ OthersUnchanged .v1 (remote (shard documents "fr")) files)
          ∧ NoCommitAgain runtime (versionPlan "en") (release "en") repo')
        ↔ CleanlyReplaces runtime (versionPlan "en") (release "en") (manifestFault false)
          (remote (shard documents "fr"))) := by
  have hstale : stale false (shard documents "fr") = [shard documents "fr"] := by decide +kernel
  have hnames : manifestPaths runtime (some (manifestOf (shard documents "fr")))
      = [shard documents "fr"] := by decide +kernel
  have hhead : [remote (shard documents "fr")].getLast? = some (remote (shard documents "fr")) := rfl
  have hrelease : IsRelease runtime (versionPlan "en").version (release "en") := release_isRelease
  have hnamed : NamedByManifest runtime (versionPlan "en").version (remote (shard documents "fr")) :=
    remote_named isLanguagePath_french hnames
  obtain ⟨report, repo', hrun⟩ := publish_returns isLanguagePath_french (Or.inr hstale)
  refine ⟨report, repo', hrun, ?_⟩
  unfold publish at hrun
  exact publishesExactly_iff runtime_honest hrelease hhead hnamed hrun

/-- The sections of an earlier release stay when the new one has none, and so do the French
documents when their manifest is not read. -/
theorem leaves_language_files : (NamedByManifest runtime .v1 (remote (shard sections "en"))
      ∧ ∃ report repo', publish "en" (manifestFault false) (shard sections "en")
          = (.ok report, repo')
        ∧ ¬ ∃ files, repo'[report.revision]? = some files
          ∧ ExactlyPublished .v1 (release "en") files)
    ∧ NamedByManifest runtime .v1 (remote (shard documents "fr"))
      ∧ ∃ report repo', publish "en" (manifestFault true) (shard documents "fr")
          = (.ok report, repo')
        ∧ ¬ ∃ files, repo'[report.revision]? = some files
          ∧ ExactlyPublished .v1 (release "en") files := by
  have hsections : stale false (shard sections "en") = [] := by decide +kernel
  have hfrench : stale true (shard documents "fr") = [] := by decide +kernel
  have hnames : manifestPaths runtime (some (manifestOf (shard sections "en")))
      = [shard sections "en"] := by decide +kernel
  have hnames' : manifestPaths runtime (some (manifestOf (shard documents "fr")))
      = [shard documents "fr"] := by decide +kernel
  refine ⟨⟨remote_named isLanguagePath_sections hnames, ?_⟩,
    remote_named isLanguagePath_french hnames', ?_⟩
  · obtain ⟨report, repo', hrun⟩ := publish_returns isLanguagePath_sections (Or.inl hsections)
    exact ⟨report, repo', hrun, left_behind isLanguagePath_sections (by decide +kernel) hsections hrun⟩
  · obtain ⟨report, repo', hrun⟩ := publish_returns isLanguagePath_french (Or.inl hfrench)
    exact ⟨report, repo', hrun, left_behind isLanguagePath_french (by decide +kernel) hfrench hrun⟩

end LanguageExample

end OsmPolygonWikidata.Publication
