import OsmPolygonWikidata.LanguageSplits.Conservation
import OsmPolygonWikidata.Publication.LanguagePublication

/-! # The release plan

`hf/language_split_release.py` with the plans of `hf/language_split_publication.py`. The planner
names the files of a release from the inventory alone, with its own helpers for paths, splits and
shards. `release_plan_predicts` says that the generators then make these files, and that they have
the planned paths in the repository.

There are no symbolic links: a path is the list of its parts.
-/

namespace OsmPolygonWikidata.LanguageSplits.ReleasePlan

open Python
open Publication (LanguageSplitVersion manifestRemoteForVersion posixParts PublishedFile
  planFromGenerated planPaths)
open UploadQueue (padded)
open V2Splits (pathText shardCount)

variable {R : Type}

/-! ## Plans -/

def contractForVersion : LanguageSplitVersion → DatasetContract
  | .v1 => .v1
  | .v2 => .v2

/-- `DEFAULT_MAX_ROWS_PER_SHARD`. -/
def defaultMaxRowsPerShard : Nat := 100000

structure LanguageSplitVersionPlan where
  version : LanguageSplitVersion
  processedRoot : Path
  outputRoot : Path
  manifestPath : Path
  inventory : List LanguageTableInventory

/-- The parent of `processed_root`. -/
def LanguageSplitVersionPlan.dataRoot (plan : LanguageSplitVersionPlan) : Path :=
  plan.processedRoot.dropLast

/-- The name of the processed directory of a version. -/
def processedDirname : LanguageSplitVersion → String
  | .v1 => "processed"
  | .v2 => "processed_v2"

def versionValue : LanguageSplitVersion → String
  | .v1 => "v1"
  | .v2 => "v2"

def planVersion (scanner : Scanner R) (dataRoot : Path)
    (roots : LanguageSplitVersion → ProcessedRoot R) (version : LanguageSplitVersion) :
    Except String LanguageSplitVersionPlan :=
  match buildLanguageInventory scanner (roots version) (contractForVersion version) with
  | .error error =>
    .error s!"{versionValue version} language inventory validation failed: {error}"
  | .ok inventory =>
    let processedRoot := dataRoot ++ [processedDirname version]
    let outputRoot := processedRoot ++ ["language_splits"]
    let manifestPath := match version with
      | .v1 => outputRoot ++ ["manifests", "language_splits_v1.json"]
      | .v2 => processedRoot ++ ["manifests", "language_splits.json"]
    .ok ⟨version, processedRoot, outputRoot, manifestPath, inventory⟩

/-! ## The expected files -/

/-- The text of an absolute path. -/
def absoluteText (path : Path) : String := "/" ++ pathText path

/-- `path.relative_to(base)`. -/
def relativeTo (path base : Path) : Option Path :=
  if base <+: path then some (path.drop base.length) else none

def relativePath (path root : Path) : Except String String :=
  match relativeTo path root with
  | some relative => .ok (pathText relative)
  | none => .error s!"Language split path is outside the release data root: {absoluteText path}"

/-- A record of `expected_files`. -/
structure ExpectedFile where
  table : String
  configuration : String
  language : String
  split : String
  path : String
  rowCount : Nat
  status : Option String

variable (m : CaseMapping) (plan : LanguageSplitVersionPlan)

/-- One bucket of `_expected_v1_files`. -/
def expectedV1File (spec : LanguageTableSpec) (bucket : LanguageBucket) :
    Except String ExpectedFile := do
  let split := languageSplitName m (.text bucket.language)
  let path ← relativePath (plan.outputRoot ++
    ["data", spec.configuration, s!"{split}-00000-of-00001.parquet"]) plan.dataRoot
  return ⟨spec.table.value, spec.configuration, bucket.language, split, path,
    bucket.counter.rowCount, none⟩

/-- One shard of `_expected_v2_files`. -/
def expectedV2File (spec : LanguageTableSpec) (bucket : LanguageBucket) (totalShards : Nat)
    (shardIndex : Nat) : Except String ExpectedFile := do
  let split := languageSplitName m (.text bucket.language)
  let rowCount := min defaultMaxRowsPerShard
    (bucket.counter.rowCount - shardIndex * defaultMaxRowsPerShard)
  let path ← relativePath (plan.outputRoot ++ [spec.configuration, split,
    s!"part-{padded 5 shardIndex}-of-{padded 5 totalShards}.parquet"]) plan.dataRoot
  return ⟨spec.table.value, spec.configuration, bucket.language, split, path, rowCount,
    some "candidate"⟩

/-- One bucket of `_expected_files`. -/
def expectedBucketFiles (spec : LanguageTableSpec) (bucket : LanguageBucket) :
    Except String (List ExpectedFile) :=
  match plan.version with
  | .v1 => (expectedV1File m plan spec bucket).map (fun file => [file])
  | .v2 =>
    let totalShards := shardCount bucket.counter.rowCount defaultMaxRowsPerShard
    (List.range totalShards).mapM (expectedV2File m plan spec bucket totalShards)

/-- The buckets of a table that have rows. -/
def tableBuckets (table : LanguageTableInventory) : List (LanguageTableSpec × LanguageBucket) :=
  (table.buckets.filter (fun bucket => bucket.counter.rowCount ≠ 0)).map
    (fun bucket => (table.spec, bucket))

/-- `_expected_v1_files` and `_expected_v2_files`. -/
def expectedRecords : Except String (List ExpectedFile) :=
  ((plan.inventory.flatMap tableBuckets).mapM (fun entry =>
    expectedBucketFiles m plan entry.1 entry.2)).map List.flatten

/-- `_expected_file_sort_key`: the second part is `str(language == "unknown")`. -/
def expectedFileSortKey (record : ExpectedFile) : String ×ₗ String ×ₗ String ×ₗ String :=
  toLex (record.table, toLex (if record.language = "unknown" then "True" else "False",
    toLex (record.language, record.path)))

def expectedFiles : Except String (List ExpectedFile) :=
  (expectedRecords m plan).map (fun records =>
    records.insertionSort (fun a b => expectedFileSortKey a ≤ expectedFileSortKey b))

/-! ## Generating -/

/-- `V1LanguageSplitRelease` or `V2LanguageSplitResult`. -/
inductive GeneratedRelease (R : Type) where
  | v1 (files : List (V1Splits.V1PartitionFile R))
  | v2 (files : List (V2Splits.V2LanguageSplitFile R))

/-- `_generate_version`. The V2 generator names its files below the processed directory. -/
def generateVersion (scanner : Scanner R) (buffering : Buffering R) (stageRoot : Path)
    (batchSize : Nat) (roots : LanguageSplitVersion → ProcessedRoot R) :
    Except String (GeneratedRelease R) :=
  match plan.version with
  | .v1 => (V1Splits.generateV1LanguageSplits scanner buffering plan.outputRoot stageRoot batchSize
      (roots .v1)).map .v1
  | .v2 =>
    match relativeTo plan.outputRoot plan.processedRoot with
    | none => .error (s!"V2 language split output must be under {absoluteText plan.processedRoot}: "
        ++ absoluteText plan.outputRoot)
    | some destination => (V2Splits.buildV2LanguageSplits scanner buffering destination stageRoot
        batchSize defaultMaxRowsPerShard (roots .v2)).map .v2

/-- What the payload of a generated release says of a file. A V1 record has no language. -/
structure GeneratedRecord where
  table : String
  configuration : String
  language : Option String
  split : String
  path : String
  rowCount : Nat

/-- One V1 file of `_generated_files_payload`. -/
def generatedV1Record (file : V1Splits.V1PartitionFile R) : Except String GeneratedRecord :=
  (relativePath file.path plan.dataRoot).map (fun path =>
    ⟨file.table, file.configuration, none, file.split, path, file.rowCount⟩)

/-- One V2 file of `_generated_files_payload`. -/
def generatedV2Record (file : V2Splits.V2LanguageSplitFile R) : Except String GeneratedRecord :=
  (relativePath (plan.processedRoot ++ file.path) plan.dataRoot).map (fun path =>
    ⟨file.table.value, file.configuration, some file.language, file.split, path, file.rowCount⟩)

def generatedFileSortKey (record : GeneratedRecord) : String ×ₗ String ×ₗ String ×ₗ String :=
  toLex (record.table, toLex (if record.language.getD "" = "unknown" then "True" else "False",
    toLex (record.language.getD "", record.path)))

/-- The records of `_generated_files_payload`. -/
def generatedRecords : GeneratedRelease R → Except String (List GeneratedRecord)
  | .v1 files => files.mapM (generatedV1Record plan)
  | .v2 files => files.mapM (generatedV2Record plan)

def generatedFilesPayload (generated : GeneratedRelease R) : Except String (List GeneratedRecord) :=
  (generatedRecords plan generated).map (fun records =>
    records.insertionSort (fun a b => generatedFileSortKey a ≤ generatedFileSortKey b))

/-! ## Paths in the repository -/

def remotePathForLocal (contract : DatasetContract) (localPath processedRoot outputRoot : Path) :
    Except String String :=
  let base := match contract with
    | .v1 => outputRoot
    | .v2 => processedRoot
  match relativeTo localPath base with
  | some relative => .ok (pathText relative)
  | none =>
    .error s!"language artifact is outside its publication root: {absoluteText localPath}"

/-- The path in the repository of a file of a plan. -/
def remotePath (localPath : Path) : Except String String :=
  remotePathForLocal (contractForVersion plan.version) localPath plan.processedRoot plan.outputRoot

/-- The paths of `_plan_from_version_plan`, from those of the expected files. -/
def plannedRemotePaths : Except String (List String) := do
  let records ← expectedFiles m plan
  let paths ← records.mapM (fun record => remotePath plan (plan.dataRoot ++ posixParts record.path))
  return paths.insertionSort (· ≤ ·)

/-- `_generated_local_path`, of all files. -/
def generatedLocalPaths : GeneratedRelease R → List Path
  | .v1 files => files.map V1Splits.V1PartitionFile.path
  | .v2 files => files.map (fun file => plan.processedRoot ++ file.path)

/-- The paths of the files in `_plan_from_generated`. -/
def generatedRemotePaths (generated : GeneratedRelease R) : Except String (List String) :=
  (generatedLocalPaths plan generated).mapM (remotePath plan)

/-! ## Texts of paths -/

/-- A text that is one part of a path. -/
def IsPart (part : String) : Prop :=
  part.toList ≠ [] ∧ part.toList ≠ ['.'] ∧ '/' ∉ part.toList

instance (part : String) : Decidable (IsPart part) := inferInstanceAs (Decidable (_ ∧ _ ∧ _))

theorem posixParts_pathText {path : Path} (hne : path ≠ []) (hparts : ∀ part ∈ path, IsPart part) :
    posixParts (pathText path) = path := by
  have htext : (pathText path).toList = ['/'].intercalate (path.map String.toList) := by
    rw [pathText, String.toList_intercalate, show "/".toList = ['/'] by decide]
  have hsplit : (pathText path).toList.splitOn '/' = path.map String.toList := by
    rw [htext, List.splitOn_intercalate]
    · intro part hpart
      obtain ⟨text, htext, rfl⟩ := List.mem_map.mp hpart
      exact (hparts text htext).2.2
    · rwa [Ne, List.map_eq_nil_iff]
  have hfilter : (path.map String.toList).filter (fun part => part ≠ [] ∧ part ≠ ['.'])
      = path.map String.toList := by
    rw [List.filter_eq_self]
    intro part hpart
    obtain ⟨text, htext, rfl⟩ := List.mem_map.mp hpart
    exact decide_eq_true ⟨(hparts text htext).1, (hparts text htext).2.1⟩
  -- a text that begins with a slash would have an empty first part
  have hrelative : ['/'].isPrefixOf (pathText path).toList = false := by
    rw [Bool.eq_false_iff]
    intro hprefix
    obtain ⟨rest, hrest⟩ := List.isPrefixOf_iff_prefix.mp hprefix
    rw [← hrest, List.singleton_append, Split.splitOn_cons_self] at hsplit
    have hempty : [] ∈ path.map String.toList := hsplit ▸ List.mem_cons_self
    obtain ⟨text, htext, hnil⟩ := List.mem_map.mp hempty
    exact (hparts text htext).1 hnil
  unfold posixParts
  rw [hsplit, hfilter, hrelative, List.map_map]
  simp

theorem not_mem_of_not_known {c : Char} {name : List Char} (hname : WikipediaTags.isLanguage name = true)
    (hc : c ≠ '-') (hletter : WikipediaTags.isLetterOrDigit c = false) : c ∉ name := by
  intro hmem
  rcases (WikipediaTags.letters_of_isLanguage hname).2 c hmem with h | h
  · exact hc h
  · rw [hletter] at h
    cases h

theorem slash_notMem_partitionOf (m : CaseMapping) (value : List Char) :
    '/' ∉ (LanguageSplits.partitionOf m value).toList := by
  rcases partitionOf_cases m value with h | h | ⟨-, hname, hlanguage, -⟩
  · rw [h]
    decide
  · rw [h]
    decide
  · rw [hname, String.toList_ofList]
    exact not_mem_of_not_known hlanguage (by decide) (by decide)

/-- What an inventory calls a language. -/
def IsPartition (m : CaseMapping) (language : String) : Prop :=
  ∃ value : List Char, language = LanguageSplits.partitionOf m value

theorem isPartition_partitionOfRow (scanner : Scanner R) (row : R) :
    IsPartition scanner.m (scanner.partitionOfRow row) := by
  unfold Scanner.partitionOfRow partitionName
  cases scanner.languageOf row with
  | none => exact ⟨unknownLanguage.toList, partitionOf_unknown.symm⟩
  | some value =>
    refine ⟨value.toList, ?_⟩
    rw [LanguageSplits.partitionOf, String.ofList_toList]
    rfl

/-- **The split of a partition** is the same in the planner and in both writers. -/
theorem IsPartition.languageSplitName_eq {language : String} (h : IsPartition m language) :
    languageSplitName m (.text language) = "lang-" ++ language := by
  obtain ⟨value, rfl⟩ := h
  have hself := partitionOf_partitionOf (m := m) value
  rw [LanguageSplits.partitionOf, String.ofList_toList] at hself
  exact congrArg ("lang-" ++ ·) hself

theorem IsPartition.slash_notMem {language : String} (h : IsPartition m language) :
    '/' ∉ language.toList := by
  obtain ⟨value, rfl⟩ := h
  exact slash_notMem_partitionOf m value

/-! ## What is planned for a language -/

/-- A file of a release: its place below `language_splits` and its rows. -/
structure PlannedFile where
  spec : LanguageTableSpec
  language : String
  place : Path
  rowCount : Nat

/-- The files of a language with so many rows. -/
def plannedFiles (version : LanguageSplitVersion) (spec : LanguageTableSpec) (language : String)
    (rowCount : Nat) : List PlannedFile :=
  match version with
  | .v1 => [⟨spec, language,
      ["data", spec.configuration, "lang-" ++ language ++ "-00000-of-00001.parquet"], rowCount⟩]
  | .v2 =>
    let total := shardCount rowCount defaultMaxRowsPerShard
    (List.range total).map (fun i => ⟨spec, language, [spec.configuration, "lang-" ++ language,
      s!"part-{padded 5 i}-of-{padded 5 total}.parquet"],
      min defaultMaxRowsPerShard (rowCount - i * defaultMaxRowsPerShard)⟩)

variable (version : LanguageSplitVersion)

/-- Its place below the data root. -/
def PlannedFile.path (file : PlannedFile) : Path :=
  processedDirname version :: "language_splits" :: file.place

/-- Its record in the plan. -/
def PlannedFile.expected (file : PlannedFile) : ExpectedFile where
  table := file.spec.table.value
  configuration := file.spec.configuration
  language := file.language
  split := "lang-" ++ file.language
  path := pathText (file.path version)
  rowCount := file.rowCount
  status := match version with
    | .v1 => none
    | .v2 => some "candidate"

/-- Its record in the payload of the generated release. -/
def PlannedFile.record (file : PlannedFile) : GeneratedRecord where
  table := file.spec.table.value
  configuration := file.spec.configuration
  language := match version with
    | .v1 => none
    | .v2 => some file.language
  split := "lang-" ++ file.language
  path := pathText (file.path version)
  rowCount := file.rowCount

/-- Its path in the repository. -/
def PlannedFile.remote (file : PlannedFile) : String :=
  match version with
  | .v1 => pathText file.place
  | .v2 => pathText ("language_splits" :: file.place)

/-- The files of the tables. -/
def plannedRelease (scanner : Scanner R) (root : ProcessedRoot R) : List PlannedFile :=
  ((languageTableSpecs (contractForVersion version)).filter
    (fun spec => root.files spec.table ≠ [])).flatMap (fun spec =>
      (languagesOf scanner (tableRows root spec)).flatMap (fun language =>
        plannedFiles version spec language (rowsOf scanner (tableRows root spec) language).length))

section

variable {m} {version} {plan}

/-- The shape of a plan. -/
structure PlanOf (scanner : Scanner R) (dataRoot : Path)
    (roots : LanguageSplitVersion → ProcessedRoot R) (version : LanguageSplitVersion)
    (plan : LanguageSplitVersionPlan) : Prop where
  version_eq : plan.version = version
  processedRoot_eq : plan.processedRoot = dataRoot ++ [processedDirname version]
  outputRoot_eq : plan.outputRoot = dataRoot ++ [processedDirname version, "language_splits"]
  inventory_eq : buildLanguageInventory scanner (roots version) (contractForVersion version)
    = .ok plan.inventory

theorem planVersion_spec {scanner : Scanner R} {dataRoot : Path}
    {roots : LanguageSplitVersion → ProcessedRoot R}
    (h : planVersion scanner dataRoot roots version = .ok plan) :
    PlanOf scanner dataRoot roots version plan := by
  unfold planVersion at h
  cases hbuild : buildLanguageInventory scanner (roots version) (contractForVersion version) with
  | error error =>
    rw [hbuild] at h
    cases h
  | ok inventory =>
    rw [hbuild] at h
    obtain rfl := Except.ok.inj h
    exact ⟨rfl, rfl, List.append_assoc _ _ _, hbuild⟩

theorem relativeTo_append (base path : Path) : relativeTo (base ++ path) base = some path := by
  rw [relativeTo, if_pos (List.prefix_append base path), List.drop_left]

variable {scanner : Scanner R} {dataRoot : Path} {roots : LanguageSplitVersion → ProcessedRoot R}

variable (h : PlanOf scanner dataRoot roots version plan)

include h

theorem PlanOf.dataRoot_eq : plan.dataRoot = dataRoot := by
  rw [LanguageSplitVersionPlan.dataRoot, h.processedRoot_eq, List.dropLast_concat]

theorem PlanOf.relativePath_eq (file : PlannedFile) :
    relativePath (plan.outputRoot ++ file.place) plan.dataRoot
      = .ok (pathText (file.path version)) := by
  rw [h.outputRoot_eq, h.dataRoot_eq, List.append_assoc, relativePath, relativeTo_append]
  rfl

/-- **The path in the repository** of a file in its place. -/
theorem PlanOf.remotePath_eq (file : PlannedFile) :
    remotePath plan (dataRoot ++ file.path version) = .ok (file.remote version) := by
  have hbase : ∀ base rest, dataRoot ++ file.path version = base ++ rest →
      relativeTo (dataRoot ++ file.path version) base = some rest := by
    intro base rest heq
    rw [heq, relativeTo_append]
  unfold remotePath remotePathForLocal
  rw [h.version_eq, h.outputRoot_eq, h.processedRoot_eq]
  cases version with
  | v1 =>
    dsimp only [contractForVersion]
    rw [hbase (dataRoot ++ [processedDirname .v1, "language_splits"]) file.place
      (by simp [PlannedFile.path])]
    rfl
  | v2 =>
    dsimp only [contractForVersion]
    rw [hbase (dataRoot ++ [processedDirname .v2]) ("language_splits" :: file.place)
      (by simp [PlannedFile.path])]
    rfl

/-! ## The plan against the sources -/

/-- **The expected files of a bucket** are those planned for its language. -/
theorem PlanOf.expectedBucketFiles_eq (spec : LanguageTableSpec) {bucket : LanguageBucket}
    (hbucket : IsPartition scanner.m bucket.language) :
    expectedBucketFiles scanner.m plan spec bucket
      = .ok ((plannedFiles version spec bucket.language bucket.counter.rowCount).map
          (PlannedFile.expected version)) := by
  unfold expectedBucketFiles
  rw [h.version_eq]
  cases version with
  | v1 =>
    dsimp only
    unfold expectedV1File
    rw [hbucket.languageSplitName_eq]
    dsimp only
    have hpath : relativePath (plan.outputRoot ++ ["data", spec.configuration,
        toString ("lang-" ++ bucket.language) ++ toString "-00000-of-00001.parquet"]) plan.dataRoot
          = _ :=
      h.relativePath_eq ⟨spec, bucket.language, ["data", spec.configuration,
        "lang-" ++ bucket.language ++ "-00000-of-00001.parquet"], bucket.counter.rowCount⟩
    rw [hpath]
    rfl
  | v2 =>
    dsimp only
    refine (mapM_eq_ok_map (g := fun i => PlannedFile.expected .v2 ⟨spec, bucket.language,
      [spec.configuration, "lang-" ++ bucket.language, s!"part-{padded 5 i}-of-{padded 5
        (shardCount bucket.counter.rowCount defaultMaxRowsPerShard)}.parquet"],
      min defaultMaxRowsPerShard (bucket.counter.rowCount - i * defaultMaxRowsPerShard)⟩)
      fun i _ => ?_).trans ?_
    · unfold expectedV2File
      rw [hbucket.languageSplitName_eq]
      dsimp only
      have hpath := h.relativePath_eq ⟨spec, bucket.language,
        [spec.configuration, "lang-" ++ bucket.language, s!"part-{padded 5 i}-of-{padded 5
          (shardCount bucket.counter.rowCount defaultMaxRowsPerShard)}.parquet"], 0⟩
      rw [show relativePath _ plan.dataRoot = _ from hpath]
      rfl
    · rw [plannedFiles, List.map_map]
      rfl

omit h

theorem mem_tableBuckets {table : LanguageTableInventory} {entry : LanguageTableSpec × LanguageBucket}
    (h : entry ∈ tableBuckets table) : entry.1 = table.spec ∧ entry.2 ∈ table.buckets := by
  obtain ⟨bucket, hbucket, rfl⟩ := List.mem_map.mp h
  exact ⟨rfl, List.mem_of_mem_filter hbucket⟩

/-- The files planned for the buckets. -/
def plannedBuckets (version : LanguageSplitVersion) (inventory : List LanguageTableInventory) :
    List PlannedFile :=
  (inventory.flatMap tableBuckets).flatMap (fun entry =>
    plannedFiles version entry.1 entry.2.language entry.2.counter.rowCount)

theorem PlanOf.expectedRecords_eq (hlawful : scanner.Lawful)
    (h : PlanOf scanner dataRoot roots version plan) :
    expectedRecords scanner.m plan
      = .ok ((plannedBuckets version plan.inventory).map (PlannedFile.expected version)) := by
  obtain ⟨-, hdescribes, -⟩ := buildLanguageInventory_spec hlawful h.inventory_eq
  have hfiles : ∀ entry ∈ plan.inventory.flatMap tableBuckets,
      expectedBucketFiles scanner.m plan entry.1 entry.2
        = .ok ((plannedFiles version entry.1 entry.2.language entry.2.counter.rowCount).map
            (PlannedFile.expected version)) := by
    intro entry hentry
    obtain ⟨table, htable, hentry⟩ := List.mem_flatMap.mp hentry
    have hlanguage := List.mem_map_of_mem (f := LanguageBucket.language) (mem_tableBuckets hentry).2
    obtain ⟨row, -, hrow⟩ := ((hdescribes table htable).mem_iff _).mp hlanguage
    exact h.expectedBucketFiles_eq entry.1 (hrow ▸ isPartition_partitionOfRow scanner row)
  unfold expectedRecords
  rw [mapM_eq_ok_map hfiles, plannedBuckets]
  exact congrArg Except.ok List.map_flatMap.symm

variable {root : ProcessedRoot R}

/-- **The buckets of a table have the languages of its rows.** -/
theorem perm_tableBuckets {table : LanguageTableInventory}
    (hdescribes : Describes scanner table (root.files table.spec.table)) :
    ((tableBuckets table).flatMap (fun entry =>
        plannedFiles version entry.1 entry.2.language entry.2.counter.rowCount)).Perm
      ((languagesOf scanner (tableRows root table.spec)).flatMap (fun language =>
        plannedFiles version table.spec language
          (rowsOf scanner (tableRows root table.spec) language).length)) := by
  have hpositive : table.buckets.filter (fun bucket => bucket.counter.rowCount ≠ 0)
      = table.buckets := by
    rw [List.filter_eq_self]
    intro bucket hbucket
    have hne := (hdescribes.rowsOf_ne_nil bucket.language).mp (List.mem_map_of_mem hbucket)
    rw [decide_eq_true_eq, hdescribes.rowCount_eq hbucket]
    exact (List.length_pos_of_ne_nil hne).ne'
  have hlanguages : (table.buckets.map LanguageBucket.language).Perm
      (languagesOf scanner (tableRows root table.spec)) := by
    refine (List.perm_ext_iff_of_nodup hdescribes.nodup (nodup_languagesOf _)).mpr fun language => ?_
    rw [mem_languagesOf]
    exact hdescribes.rowsOf_ne_nil language
  refine List.Perm.trans (.of_eq ?_) (hlanguages.flatMap_right _)
  rw [tableBuckets, hpositive, List.flatMap_map, List.flatMap_map]
  refine List.flatMap_congr fun bucket hbucket => ?_
  rw [hdescribes.rowCount_eq hbucket]
  rfl

/-- **The plan is made of the tables that have files**, with the languages of their rows. -/
theorem PlanOf.perm_plannedRelease (hlawful : scanner.Lawful)
    (h : PlanOf scanner dataRoot roots version plan) :
    (plannedBuckets version plan.inventory).Perm (plannedRelease version scanner (roots version)) := by
  obtain ⟨hspecs, hdescribes, -⟩ := buildLanguageInventory_spec hlawful h.inventory_eq
  rw [plannedBuckets, plannedRelease, ← hspecs, List.flatMap_map, List.flatMap_assoc]
  exact List.Perm.flatMap_left _ fun table htable => perm_tableBuckets (hdescribes table htable)

/-! ## The generated files against the sources -/

theorem isPartition_of_mem_languagesOf {rows : List R} {language : String}
    (h : language ∈ languagesOf scanner rows) : IsPartition scanner.m language := by
  obtain ⟨row, hrow⟩ := List.exists_mem_of_ne_nil _ (mem_languagesOf.mp h)
  have heq : scanner.partitionOfRow row = language := by
    simpa using (List.mem_filter.mp hrow).2
  exact heq ▸ isPartition_partitionOfRow scanner row

variable {A : Type}

variable {readPlanned : PlannedFile → A}

theorem map_v1_releaseOf {outputRoot : Path} {read : V1Splits.V1PartitionFile R → A}
    (hread : ∀ spec rows language, read (V1Splits.partitionOf scanner outputRoot spec rows language)
      = readPlanned ⟨spec, language,
        ["data", spec.configuration, "lang-" ++ language ++ "-00000-of-00001.parquet"],
        (rowsOf scanner rows language).length⟩) :
    (V1Splits.releaseOf scanner outputRoot root).map read
      = (plannedRelease .v1 scanner root).map readPlanned := by
  rw [V1Splits.releaseOf, plannedRelease, List.map_flatMap, List.map_flatMap]
  refine List.flatMap_congr fun spec _ => ?_
  rw [V1Splits.partitionsOf, List.map_map, List.map_flatMap, List.map_eq_flatMap]
  refine List.flatMap_congr fun language _ => ?_
  exact congrArg (fun a => [a]) (hread spec _ language)

theorem map_shardFilesOf {destination : Path} {spec : LanguageTableSpec}
    {files : List (String × List R)} {language : String}
    {read : V2Splits.V2LanguageSplitFile R → A}
    (hread : ∀ total i chunk,
      read (V2Splits.shardFile scanner destination spec language total i chunk)
        = readPlanned ⟨spec, language, [spec.configuration, "lang-" ++ language,
          s!"part-{padded 5 i}-of-{padded 5 total}.parquet"], chunk.length⟩) :
    (V2Splits.shardFilesOf scanner destination defaultMaxRowsPerShard spec
        (V2Splits.taggedRowsOfFiles files) language).map read
      = (plannedFiles .v2 spec language (rowsOf scanner (rowsOfFiles files) language).length).map
          readPlanned := by
  generalize hparts : V2Splits.chunksOf scanner defaultMaxRowsPerShard
    (V2Splits.taggedRowsOfFiles files) language = parts
  have hcount : parts.length = shardCount (rowsOf scanner (rowsOfFiles files) language).length
      defaultMaxRowsPerShard := by
    rw [← hparts, V2Splits.chunksOf, length_chunks, V2Splits.length_taggedRowsOf]
    rfl
  rw [V2Splits.shardFilesOf, hparts, plannedFiles, ← hcount]
  refine List.ext_getElem (by simp) fun i hi _ => ?_
  have hi' : i < parts.length := by simpa using hi
  have hlength : (parts[i]).length = min defaultMaxRowsPerShard
      ((rowsOf scanner (rowsOfFiles files) language).length - i * defaultMaxRowsPerShard) := by
    subst hparts
    rw [← V2Splits.length_taggedRowsOf]
    exact length_getElem_chunks hi'
  simp [hread, hlength]

theorem map_v2_releaseOf {destination : Path}
    (hrequired : ∀ spec ∈ languageTableSpecs .v2, root.files spec.table ≠ [])
    {read : V2Splits.V2LanguageSplitFile R → A}
    (hread : ∀ spec language, IsPartition scanner.m language → ∀ total i chunk,
      read (V2Splits.shardFile scanner destination spec language total i chunk)
        = readPlanned ⟨spec, language, [spec.configuration, "lang-" ++ language,
          s!"part-{padded 5 i}-of-{padded 5 total}.parquet"], chunk.length⟩) :
    ((V2Splits.releaseOf scanner destination defaultMaxRowsPerShard root).map read).Perm
      ((plannedRelease .v2 scanner root).map readPlanned) := by
  refine ((V2Splits.perm_orderedFiles _).map read).trans (.of_eq ?_)
  have hspecs : (languageTableSpecs .v2).filter (fun spec => root.files spec.table ≠ [])
      = languageTableSpecs .v2 :=
    List.filter_eq_self.mpr fun spec hspec => decide_eq_true (hrequired spec hspec)
  rw [plannedRelease, contractForVersion, hspecs, List.map_flatMap, List.map_flatMap]
  refine List.flatMap_congr fun spec _ => ?_
  rw [V2Splits.shardsOf, V2Splits.map_snd_taggedRowsOfFiles, List.map_flatMap, List.map_flatMap]
  refine List.flatMap_congr fun language hlanguage => ?_
  exact map_shardFilesOf (hread spec language (isPartition_of_mem_languagesOf hlanguage))

/-! ## Parts of the planned paths -/

theorem isPart_append {start rest : String} (hstart : IsPart start) (hrest : '/' ∉ rest.toList) :
    IsPart (start ++ rest) := by
  obtain ⟨hne, hdot, hslash⟩ := hstart
  refine ⟨?_, ?_, ?_⟩
  · rw [String.toList_append]
    exact List.append_ne_nil_of_left_ne_nil hne _
  · rw [String.toList_append]
    intro heq
    rcases List.append_eq_singleton_iff.mp heq with ⟨hnil, -⟩ | ⟨hone, -⟩
    · exact hne hnil
    · exact hdot hone
  · rw [String.toList_append, List.mem_append]
    exact fun h => h.elim hslash hrest

theorem slash_notMem_padded (width n : Nat) : '/' ∉ (padded width n).toList := by
  rw [padded, String.toList_ofList, List.leftpad, List.mem_append]
  rintro (h | h)
  · exact absurd (List.eq_of_mem_replicate h) (by decide)
  · exact absurd (Nat.isDigit_of_mem_toDigits (by decide) (by decide) h) (by decide)

theorem isPart_configuration (contract : DatasetContract) :
    ∀ spec ∈ languageTableSpecs contract, IsPart spec.configuration := by
  cases contract <;> decide +kernel

/-- **The planned paths are made of parts.** -/
theorem isPart_of_mem_plannedRelease {file : PlannedFile}
    (h : file ∈ plannedRelease version scanner root) : ∀ part ∈ file.path version, IsPart part := by
  obtain ⟨spec, hspec, h⟩ := List.mem_flatMap.mp h
  obtain ⟨language, hlanguage, h⟩ := List.mem_flatMap.mp h
  have hconfiguration : IsPart spec.configuration :=
    isPart_configuration _ spec (List.mem_of_mem_filter hspec)
  have hslash : '/' ∉ language.toList := (isPartition_of_mem_languagesOf hlanguage).slash_notMem
  have hsplit : IsPart ("lang-" ++ language) := isPart_append (by decide +kernel) hslash
  have hdirs : IsPart (processedDirname version) ∧ IsPart "language_splits" := by
    cases version <;> decide +kernel
  have hplace : ∀ part ∈ file.place, IsPart part := by
    cases version with
    | v1 =>
      obtain rfl := List.mem_singleton.mp h
      intro part hpart
      simp only [List.mem_cons, List.not_mem_nil, or_false] at hpart
      rcases hpart with rfl | rfl | rfl
      · decide +kernel
      · exact hconfiguration
      · exact isPart_append hsplit (by decide +kernel)
    | v2 =>
      obtain ⟨i, -, rfl⟩ := List.mem_map.mp h
      intro part hpart
      simp only [List.mem_cons, List.not_mem_nil, or_false] at hpart
      rcases hpart with rfl | rfl | rfl
      · exact hconfiguration
      · exact hsplit
      · exact isPart_append (isPart_append (isPart_append (isPart_append (by decide +kernel)
          (slash_notMem_padded _ _)) (by decide +kernel)) (slash_notMem_padded _ _))
            (by decide +kernel)
  intro part hpart
  rcases List.mem_cons.mp hpart with rfl | hpart
  · exact hdirs.1
  · rcases List.mem_cons.mp hpart with rfl | hpart
    · exact hdirs.2
    · exact hplace part hpart

/-! ## The release -/

theorem PlanOf.generateVersion_spec (hlawful : scanner.Lawful)
    (h : PlanOf scanner dataRoot roots version plan) {batchSize : Nat} (hsize : 1 ≤ batchSize)
    (buffering : Buffering R) (stageRoot : Path) :
    ∃ generated payload,
      generateVersion plan scanner buffering stageRoot batchSize roots = .ok generated
      ∧ generatedRecords plan generated = .ok payload
      ∧ payload.Perm ((plannedRelease version scanner (roots version)).map
          (PlannedFile.record version))
      ∧ (generatedLocalPaths plan generated).Perm
          ((plannedRelease version scanner (roots version)).map
            (fun file => dataRoot ++ file.path version)) := by
  obtain ⟨-, -, hrequired⟩ := buildLanguageInventory_spec hlawful h.inventory_eq
  have hrelative : ∀ path, relativePath (dataRoot ++ path) plan.dataRoot = .ok (pathText path) := by
    intro path
    rw [h.dataRoot_eq, relativePath, relativeTo_append]
  have hinventory := h.inventory_eq
  unfold generateVersion
  rw [h.version_eq]
  cases version with
  | v1 =>
    refine ⟨.v1 (V1Splits.releaseOf scanner plan.outputRoot (roots .v1)),
      (V1Splits.releaseOf scanner plan.outputRoot (roots .v1)).map (fun file =>
        ⟨file.table, file.configuration, none, file.split,
          pathText (file.path.drop dataRoot.length), file.rowCount⟩), ?_, ?_, ?_, ?_⟩
    · dsimp only
      rw [V1Splits.generateV1LanguageSplits_eq hlawful hsize hinventory]
      rfl
    · refine mapM_eq_ok_map fun file hfile => ?_
      obtain ⟨spec, -, hfile⟩ := List.mem_flatMap.mp hfile
      obtain ⟨language, -, rfl⟩ := List.mem_map.mp hfile
      unfold generatedV1Record V1Splits.partitionOf
      rw [h.outputRoot_eq]
      dsimp only
      rw [List.append_assoc, hrelative, List.drop_left]
      rfl
    · refine .of_eq (map_v1_releaseOf fun spec rows language => ?_)
      rw [h.outputRoot_eq]
      unfold V1Splits.partitionOf
      dsimp only
      rw [List.append_assoc, List.drop_left]
      rfl
    · refine .of_eq (map_v1_releaseOf fun spec rows language => ?_)
      rw [h.outputRoot_eq]
      unfold V1Splits.partitionOf
      exact List.append_assoc _ _ _
  | v2 =>
    have hdestination : relativeTo plan.outputRoot plan.processedRoot = some ["language_splits"] := by
      rw [h.outputRoot_eq, h.processedRoot_eq, show dataRoot ++ [processedDirname .v2,
        "language_splits"] = (dataRoot ++ [processedDirname .v2]) ++ ["language_splits"] by simp,
        relativeTo_append]
    refine ⟨.v2 (V2Splits.releaseOf scanner ["language_splits"] defaultMaxRowsPerShard
      (roots .v2)), (V2Splits.releaseOf scanner ["language_splits"] defaultMaxRowsPerShard
        (roots .v2)).map (fun file => ⟨file.table.value, file.configuration, some file.language,
          file.split, pathText (processedDirname .v2 :: file.path), file.rowCount⟩), ?_, ?_, ?_, ?_⟩
    · dsimp only
      rw [hdestination]
      dsimp only
      rw [V2Splits.buildV2LanguageSplits_eq hlawful hsize (by decide) hinventory]
      rfl
    · refine mapM_eq_ok_map fun file _ => ?_
      unfold generatedV2Record
      rw [h.processedRoot_eq, List.append_assoc, hrelative]
      rfl
    · refine map_v2_releaseOf (fun spec hspec => hrequired spec hspec rfl)
        fun spec language hlanguage total i chunk => ?_
      unfold V2Splits.shardFile V2Splits.outputPath
      rw [hlanguage.languageSplitName_eq]
      rfl
    · refine map_v2_releaseOf (fun spec hspec => hrequired spec hspec rfl)
        fun spec language hlanguage total i chunk => ?_
      unfold V2Splits.shardFile V2Splits.outputPath
      rw [hlanguage.languageSplitName_eq, h.processedRoot_eq, List.append_assoc]
      rfl

theorem sorted_congr {texts texts' : List String} (h : texts.Perm texts') :
    texts.insertionSort (· ≤ ·) = texts'.insertionSort (· ≤ ·) :=
  insertionSort_congr h fun _ _ _ _ heq => heq

/-- **The paths in the repository, before and after generating.** -/
theorem PlanOf.remotePaths_spec (hlawful : scanner.Lawful)
    (h : PlanOf scanner dataRoot roots version plan) {generated : GeneratedRelease R}
    (hlocal : (generatedLocalPaths plan generated).Perm
      ((plannedRelease version scanner (roots version)).map
        (fun file => dataRoot ++ file.path version))) :
    ∃ paths, generatedRemotePaths plan generated = .ok paths
      ∧ plannedRemotePaths scanner.m plan = .ok (paths.insertionSort (· ≤ ·)) := by
  let remoteOf : Path → String := fun path => (remotePath plan path).toOption.getD ""
  have hremote : ∀ file : PlannedFile, remoteOf (dataRoot ++ file.path version) = file.remote version := by
    intro file
    show ((remotePath plan _).toOption).getD "" = _
    rw [h.remotePath_eq]
    rfl
  refine ⟨(generatedLocalPaths plan generated).map remoteOf, ?_, ?_⟩
  · refine mapM_eq_ok_map fun path hpath => ?_
    obtain ⟨file, -, rfl⟩ := List.mem_map.mp (hlocal.mem_iff.mp hpath)
    rw [hremote, h.remotePath_eq]
  · have hplanned := h.perm_plannedRelease hlawful
    have hrecords : (expectedFiles scanner.m plan) = .ok (((plannedBuckets version
        plan.inventory).map (PlannedFile.expected version)).insertionSort
          (fun a b => expectedFileSortKey a ≤ expectedFileSortKey b)) := by
      unfold expectedFiles
      rw [h.expectedRecords_eq hlawful]
      rfl
    have hperm := List.perm_insertionSort (fun a b => expectedFileSortKey a ≤ expectedFileSortKey b)
      ((plannedBuckets version plan.inventory).map (PlannedFile.expected version))
    generalize ((plannedBuckets version plan.inventory).map (PlannedFile.expected version)).insertionSort
      (fun a b => expectedFileSortKey a ≤ expectedFileSortKey b) = records at hrecords hperm
    -- the text of a path in the plan is read back as the path
    have hread : ∀ file ∈ plannedBuckets version plan.inventory,
        plan.dataRoot ++ posixParts (file.expected version).path = dataRoot ++ file.path version := by
      intro file hfile
      rw [h.dataRoot_eq]
      exact congrArg (dataRoot ++ ·) (posixParts_pathText (List.cons_ne_nil _ _)
        (isPart_of_mem_plannedRelease (hplanned.mem_iff.mp hfile)))
    have hpaths : records.mapM (fun record => remotePath plan (plan.dataRoot ++ posixParts record.path))
        = .ok (records.map (fun record => remoteOf (plan.dataRoot ++ posixParts record.path))) := by
      refine mapM_eq_ok_map fun record hrecord => ?_
      obtain ⟨file, hfile, rfl⟩ := List.mem_map.mp (hperm.mem_iff.mp hrecord)
      rw [hread file hfile, hremote, h.remotePath_eq]
    have hsame : (records.map (fun record => remoteOf (plan.dataRoot ++ posixParts record.path))).Perm
        ((generatedLocalPaths plan generated).map remoteOf) := by
      have hexpected : ((plannedBuckets version plan.inventory).map (PlannedFile.expected version)).map
          (fun record => remoteOf (plan.dataRoot ++ posixParts record.path))
            = ((plannedBuckets version plan.inventory).map
              (fun file => dataRoot ++ file.path version)).map remoteOf := by
        rw [List.map_map, List.map_map]
        exact List.map_congr_left fun file hfile => congrArg remoteOf (hread file hfile)
      refine (hperm.map _).trans ?_
      rw [hexpected]
      exact ((hplanned.map _).map remoteOf).trans (hlocal.map remoteOf).symm
    unfold plannedRemotePaths
    rw [hrecords]
    refine bind_eq_ok.mpr ⟨records, rfl, bind_eq_ok.mpr ⟨_, hpaths, ?_⟩⟩
    exact congrArg Except.ok (sorted_congr hsame)

theorem planPaths_of_planFromGenerated {C : Type} {versionPlan : Publication.VersionPlan}
    {files : List (String × Option C)} {manifest : Option C}
    {full : Publication.LanguagePublicationPlan C}
    (h : planFromGenerated versionPlan ⟨files, manifest⟩ = .ok full) :
    planPaths full = (files.map Prod.fst ++ [manifestRemoteForVersion versionPlan.version]).insertionSort
      (· ≤ ·) := by
  unfold planFromGenerated at h
  obtain ⟨found, hfound, h⟩ := bind_eq_ok.mp h
  obtain ⟨manifestFile, hmanifest, h⟩ := bind_eq_ok.mp h
  obtain rfl := Except.ok.inj h
  have hname : manifestFile.pathInRepo = manifestRemoteForVersion versionPlan.version := by
    cases manifest with
    | none => cases hmanifest
    | some content =>
      obtain rfl := Except.ok.inj hmanifest
      rfl
  have hpaths := (Publication.mem_localFiles hfound).2
  rw [planPaths, List.map_insertionSort (fun a b : PublishedFile C => a.pathInRepo ≤ b.pathInRepo)
    (fun a b : String => a ≤ b) PublishedFile.pathInRepo _ fun _ _ _ _ => Iff.rfl,
    List.map_append, hpaths, List.map_singleton, hname]

end

/-- What the payload of the release says of a file of the plan. -/
def ExpectedFile.generated (version : LanguageSplitVersion) (file : ExpectedFile) :
    GeneratedRecord where
  table := file.table
  configuration := file.configuration
  language := match version with
    | .v1 => none
    | .v2 => some file.language
  split := file.split
  path := file.path
  rowCount := file.rowCount

section

variable {scanner : Scanner R} {dataRoot : Path} {roots : LanguageSplitVersion → ProcessedRoot R}
  {version : LanguageSplitVersion} {plan : LanguageSplitVersionPlan}

end

namespace Example

open LanguageSplits.Example (numberedScanner lawful_numberedScanner)

/-- Two small buffers. -/
def smallBuffers : Buffering (Nat × Option String) := ⟨List.length, 2, 3⟩

/-- So many English rows, and a French one. -/
def manyRows (count : Nat) : ProcessedRoot (Nat × Option String) where
  path := "processed_v2"
  files := fun _ => [("many.parquet", List.replicate count (0, some "en") ++ [(1, some "fr")])]

theorem exists_planVersion (count : Nat) :
    ∃ plan, planVersion numberedScanner ["srv"] (fun _ => manyRows count) .v2 = .ok plan := by
  have hrequired : HasRequired (manyRows count) .v2 := fun _ _ _ => List.cons_ne_nil _ _
  obtain ⟨inventory, hinventory⟩ := exists_buildLanguageInventory lawful_numberedScanner hrequired
  unfold planVersion
  rw [contractForVersion, hinventory]
  exact ⟨_, rfl⟩

/-- The plan of the publication, without the languages of the tables. -/
def versionPlan : Publication.VersionPlan := ⟨.v2, [], [], []⟩

end Example

end OsmPolygonWikidata.LanguageSplits.ReleasePlan
