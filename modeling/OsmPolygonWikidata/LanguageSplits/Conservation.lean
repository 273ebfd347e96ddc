import OsmPolygonWikidata.LanguageSplits.V2Release

/-! # Conservation of rows

Both generators against the sources. For each table and language, the rows of the V1 partition and
the rows of the V2 shards are the rows of the language in the order of the source, and the counts
are those of the inventory. A release is one value for all batch sizes and all buffers.
-/

namespace OsmPolygonWikidata.LanguageSplits

open Python

variable {R : Type}

/-! ## The statements -/

/-- The tables that must have files have some. -/
def HasRequired (root : ProcessedRoot R) (contract : DatasetContract) : Prop :=
  ∀ spec ∈ languageTableSpecs contract, isRequired contract spec.table = true →
    root.files spec.table ≠ []

/-- The rows of a table. -/
def tableRows (root : ProcessedRoot R) (spec : LanguageTableSpec) : List R :=
  rowsOfFiles (root.files spec.table)

/-- The V1 files of a table and a language. -/
def v1FilesOf (release : List (V1Splits.V1PartitionFile R)) (spec : LanguageTableSpec)
    (language : String) : List (V1Splits.V1PartitionFile R) :=
  release.filter (fun file => file.table = spec.table.value ∧ file.split = s!"lang-{language}")

/-- The V2 files of a table and a language. -/
def v2FilesOf (release : List (V2Splits.V2LanguageSplitFile R)) (spec : LanguageTableSpec)
    (language : String) : List (V2Splits.V2LanguageSplitFile R) :=
  release.filter (fun file => file.table = spec.table ∧ file.language = language)

/-- The rows are in one file. There is no file without rows. -/
structure InOneFile (files : List (V1Splits.V1PartitionFile R)) (source : List R) : Prop where
  rows : files.flatMap V1Splits.V1PartitionFile.rows = source
  one : files.length = if source = [] then 0 else 1
  rowCount : ∀ file ∈ files, file.rowCount = file.rows.length

/-- The rows are in numbered shards: `pathOf i n` is the path of shard `i` of `n`. -/
structure InShards (pathOf : Nat → Nat → Path) (maxRowsPerShard : Nat)
    (shards : List (V2Splits.V2LanguageSplitFile R)) (source : List R) : Prop where
  rows : shards.flatMap V2Splits.V2LanguageSplitFile.rows = source
  numbered : ∀ i shard, shards[i]? = some shard → shard.path = pathOf i shards.length
  full : ∀ i shard, shards[i]? = some shard → i + 1 < shards.length →
    shard.rows.length = maxRowsPerShard
  bounded : ∀ shard ∈ shards, shard.rows ≠ [] ∧ shard.rows.length ≤ maxRowsPerShard
  rowCount : ∀ shard ∈ shards, shard.rowCount = shard.rows.length

/-- The buckets of an inventory count the rows of each language. -/
def CountsRows (scanner : Scanner R) (root : ProcessedRoot R)
    (inventory : List LanguageTableInventory) : Prop :=
  ∀ table ∈ inventory, (table.buckets.map LanguageBucket.language).Nodup
    ∧ (∀ language, language ∈ table.buckets.map LanguageBucket.language
        ↔ rowsOf scanner (tableRows root table.spec) language ≠ [])
    ∧ ∀ bucket ∈ table.buckets, bucket.counter.rowCount
        = (rowsOf scanner (tableRows root table.spec) bucket.language).length

/-! ## The inventory -/

section

variable {scanner : Scanner R} {root : ProcessedRoot R} {contract : DatasetContract}

theorem exists_buildLanguageInventory (hlawful : scanner.Lawful)
    (hrequired : HasRequired root contract) :
    ∃ inventory, buildLanguageInventory scanner root contract = .ok inventory := by
  have hspecs : ∀ spec ∈ languageTableSpecs contract, ∃ found,
      inventoryForSpec scanner root contract spec = .ok found
        ∧ (root.files spec.table ≠ [] → found ≠ none) := by
    intro spec hspec
    unfold inventoryForSpec
    dsimp only
    by_cases hnil : root.files spec.table = []
    · have hoptional : isRequired contract spec.table = false := by
        rw [← Bool.not_eq_true]
        exact fun h => hrequired spec hspec h hnil
      rw [if_pos (List.isEmpty_iff.mpr hnil), if_neg (by rw [hoptional]; decide)]
      exact ⟨none, rfl, fun hne => absurd hnil hne⟩
    · obtain ⟨buckets, hread, -⟩ := readArtifactRows_spec hlawful (root.files spec.table)
      rw [if_neg (fun h => hnil (List.isEmpty_iff.mp h)), hread]
      exact ⟨_, rfl, fun _ => Option.some_ne_none _⟩
  obtain ⟨found, hmapM, hall⟩ := exists_mapM_forall₂ hspecs
  -- the first table of a contract is a required one
  have hfirst : ∃ table rest, found = some table :: rest := by
    obtain ⟨spec, specs, heq, hfiles⟩ : ∃ spec specs,
        languageTableSpecs contract = spec :: specs ∧ root.files spec.table ≠ [] := by
      cases contract <;> exact ⟨_, _, rfl, hrequired _ List.mem_cons_self rfl⟩
    rw [heq] at hall
    cases hall with
    | @cons _ inventory _ rest hne _ =>
      obtain ⟨table, rfl⟩ := Option.ne_none_iff_exists'.mp (hne hfiles)
      exact ⟨table, rest, rfl⟩
  obtain ⟨table, rest, rfl⟩ := hfirst
  refine ⟨table :: rest.filterMap id, ?_⟩
  unfold buildLanguageInventory
  rw [hmapM]
  rfl

theorem countsRows_of_build (hlawful : scanner.Lawful) {inventory : List LanguageTableInventory}
    (h : buildLanguageInventory scanner root contract = .ok inventory) :
    CountsRows scanner root inventory := by
  intro table htable
  have hdescribes := (buildLanguageInventory_spec hlawful h).2.1 table htable
  exact ⟨hdescribes.nodup, hdescribes.rowsOf_ne_nil, fun _ => hdescribes.rowCount_eq⟩

end

/-! ## The V1 partitions -/

section

variable {scanner : Scanner R} {releaseRoot : Path} {root : ProcessedRoot R}
  {spec : LanguageTableSpec}

theorem v1_specs_ext {spec' : LanguageTableSpec} (hspec : spec ∈ languageTableSpecs .v1)
    (hspec' : spec' ∈ languageTableSpecs .v1) (h : spec.table = spec'.table) : spec = spec' := by
  have hall : ∀ spec ∈ languageTableSpecs .v1, ∀ spec' ∈ languageTableSpecs .v1,
      spec.table = spec'.table → spec = spec' := by decide
  exact hall spec hspec spec' hspec' h

theorem nodup_presentSpecs : (V1Splits.presentSpecs root).Nodup :=
  List.Nodup.filter _ (show (languageTableSpecs .v1).Nodup by decide)

theorem v1FilesOf_releaseOf (hspec : spec ∈ languageTableSpecs .v1) (language : String) :
    v1FilesOf (V1Splits.releaseOf scanner releaseRoot root) spec language
      = if rowsOf scanner (tableRows root spec) language = [] then []
        else [V1Splits.partitionOf scanner releaseRoot spec (tableRows root spec) language] := by
  rw [v1FilesOf, V1Splits.releaseOf, List.filter_flatMap,
    flatMap_unique nodup_presentSpecs (k := spec) ?_ ?_]
  · have hsplit : ∀ other, (V1Splits.partitionOf scanner releaseRoot spec (tableRows root spec)
        other).split = s!"lang-{language}" ↔ other = language :=
      fun other => String.append_right_inj _
    show ((languagesOf scanner (tableRows root spec)).map (V1Splits.partitionOf scanner releaseRoot
      spec (tableRows root spec))).filter _ = _
    rw [List.filter_map, List.filter_congr (q := (· == language)) fun other _ => ?_,
      List.filter_beq]
    · by_cases hempty : rowsOf scanner (tableRows root spec) language = []
      · rw [if_pos hempty, List.count_eq_zero.mpr fun h => mem_languagesOf.mp h hempty]
        rfl
      · rw [if_neg hempty, List.count_eq_one_of_mem (nodup_languagesOf _) (mem_languagesOf.mpr hempty)]
        rfl
    · show decide (_ ∧ _) = decide (other = language)
      exact decide_eq_decide.mpr ⟨fun h => (hsplit other).mp h.2, fun h => ⟨rfl, (hsplit other).mpr h⟩⟩
  · intro spec' hspec' hne
    rw [List.filter_eq_nil_iff]
    intro file hfile
    obtain ⟨other, -, rfl⟩ := List.mem_map.mp hfile
    rw [decide_eq_true_eq]
    rintro ⟨htable, -⟩
    exact hne (v1_specs_ext (List.mem_of_mem_filter hspec') hspec (V2Splits.value_injective htable))
  · intro hmissing
    have hnil : root.files spec.table = [] := by
      by_contra hne
      exact hmissing (List.mem_filter.mpr ⟨hspec, decide_eq_true hne⟩)
    rw [V1Splits.partitionsOf, hnil]
    rfl

/-- **The rows of a language are in its V1 file**, in the order of the source. -/
theorem inOneFile_releaseOf (hspec : spec ∈ languageTableSpecs .v1) (language : String) :
    InOneFile (v1FilesOf (V1Splits.releaseOf scanner releaseRoot root) spec language)
      (rowsOf scanner (tableRows root spec) language) := by
  rw [v1FilesOf_releaseOf hspec]
  by_cases hempty : rowsOf scanner (tableRows root spec) language = []
  · rw [if_pos hempty]
    exact ⟨hempty.symm, (if_pos hempty).symm, fun file hfile => by cases hfile⟩
  · rw [if_neg hempty]
    refine ⟨List.flatMap_singleton _ _, (if_neg hempty).symm, fun file hfile => ?_⟩
    obtain rfl := List.mem_singleton.mp hfile
    rfl

end

/-! ## The V2 shards -/

section

variable {scanner : Scanner R} {destination : Path} {root : ProcessedRoot R}
  {spec : LanguageTableSpec} {maxRowsPerShard : Nat}

/-- **The rows of a language are in its shards**, in the order of the source. -/
theorem inShards_shardFilesOf (hmax : 1 ≤ maxRowsPerShard) (language : String) :
    InShards (V2Splits.outputPath scanner.m destination spec language) maxRowsPerShard
      (V2Splits.shardFilesOf scanner destination maxRowsPerShard spec
        (V2Splits.taggedRowsOfFiles (root.files spec.table)) language)
      (rowsOf scanner (tableRows root spec) language) := by
  generalize hchunks : V2Splits.chunksOf scanner maxRowsPerShard
    (V2Splits.taggedRowsOfFiles (root.files spec.table)) language = parts
  have hfiles : V2Splits.shardFilesOf scanner destination maxRowsPerShard spec
      (V2Splits.taggedRowsOfFiles (root.files spec.table)) language
        = parts.mapIdx (V2Splits.shardFile scanner destination spec language parts.length) := by
    rw [V2Splits.shardFilesOf, hchunks]
  have hpart : ∀ i part, parts[i]? = some part → part ≠ [] ∧ part.length ≤ maxRowsPerShard
        ∧ (i + 1 < parts.length → part.length = maxRowsPerShard) := by
    intro i part hget
    obtain ⟨hi, rfl⟩ := List.getElem?_eq_some_iff.mp hget
    subst hchunks
    refine ⟨chunks_ne_nil hmax _ (List.getElem_mem hi), ?_, fun hlast => ?_⟩
    · exact (length_getElem_chunks hi).trans_le (min_le_left _ _)
    · exact length_chunk_of_not_last hmax hlast
  have hshard : ∀ i shard, (parts.mapIdx (V2Splits.shardFile scanner destination spec language
      parts.length))[i]? = some shard → ∃ part, parts[i]? = some part
        ∧ shard = V2Splits.shardFile scanner destination spec language parts.length i part := by
    intro i shard hget
    rw [List.getElem?_mapIdx] at hget
    obtain ⟨part, hpart, heq⟩ := Option.map_eq_some_iff.mp hget
    exact ⟨part, hpart, heq.symm⟩
  rw [hfiles]
  refine ⟨?_, fun i shard hget => ?_, fun i shard hget hlast => ?_, fun shard hmem => ?_,
    fun shard hmem => ?_⟩
  · calc (parts.mapIdx (V2Splits.shardFile scanner destination spec language parts.length)).flatMap
          V2Splits.V2LanguageSplitFile.rows
        = (parts.map (List.map Prod.snd)).flatten := by
          rw [List.flatMap_def]
          congr 1
          exact List.ext_getElem (by simp) fun i _ _ => by simp [V2Splits.shardFile]
      _ = parts.flatten.map Prod.snd := List.map_flatten.symm
      _ = (V2Splits.taggedRowsOf scanner (V2Splits.taggedRowsOfFiles (root.files spec.table))
            language).map Prod.snd := by
          rw [← hchunks, V2Splits.chunksOf, flatten_chunks _ hmax]
      _ = rowsOf scanner (tableRows root spec) language := by
          rw [V2Splits.map_snd_taggedRowsOf, V2Splits.map_snd_taggedRowsOfFiles]
          rfl
  · obtain ⟨part, -, rfl⟩ := hshard i shard hget
    rw [List.length_mapIdx]
    rfl
  · obtain ⟨part, hget', rfl⟩ := hshard i shard hget
    rw [List.length_mapIdx] at hlast
    show (part.map Prod.snd).length = _
    rw [List.length_map, (hpart i part hget').2.2 hlast]
  · obtain ⟨i, hget⟩ := List.mem_iff_getElem?.mp hmem
    obtain ⟨part, hget', rfl⟩ := hshard i shard hget
    obtain ⟨hne, hle, -⟩ := hpart i part hget'
    refine ⟨?_, ?_⟩
    · show part.map Prod.snd ≠ []
      rwa [Ne, List.map_eq_nil_iff]
    · show (part.map Prod.snd).length ≤ _
      rwa [List.length_map]
  · obtain ⟨i, hget⟩ := List.mem_iff_getElem?.mp hmem
    obtain ⟨part, -, rfl⟩ := hshard i shard hget
    show part.length = (part.map Prod.snd).length
    rw [List.length_map]

/-- The shards of a language are the files of the release, in another order when there are more than
the numbers have digits for. -/
theorem perm_v2FilesOf_releaseOf (hmax : 1 ≤ maxRowsPerShard)
    (hspec : spec ∈ languageTableSpecs .v2) (language : String) :
    (V2Splits.shardFilesOf scanner destination maxRowsPerShard spec
        (V2Splits.taggedRowsOfFiles (root.files spec.table)) language).Perm
      (v2FilesOf (V2Splits.releaseOf scanner destination maxRowsPerShard root) spec language) := by
  rw [← V2Splits.filter_shards hmax root hspec]
  exact ((V2Splits.perm_orderedFiles _).filter _).symm

end

/-! ## Both generators -/

section

variable {scanner : Scanner R} {root : ProcessedRoot R}

variable (root) in
/-- **Both generators conserve the rows.** -/
theorem language_partitions_conserve_rows (hlawful : scanner.Lawful) (releaseRoot destination : Path) :
    (HasRequired root .v1 → ∃ inventory release,
      buildLanguageInventory scanner root .v1 = .ok inventory
      ∧ CountsRows scanner root inventory
      ∧ (∀ buffering stageRoot batchSize, 1 ≤ batchSize →
          V1Splits.generateV1LanguageSplits scanner buffering releaseRoot stageRoot batchSize root
            = .ok release)
      ∧ ∀ spec ∈ languageTableSpecs .v1, ∀ language, InOneFile (v1FilesOf release spec language)
            (rowsOf scanner (tableRows root spec) language))
    ∧ (HasRequired root .v2 → ∃ inventory, buildLanguageInventory scanner root .v2 = .ok inventory
      ∧ CountsRows scanner root inventory
      ∧ ∀ maxRowsPerShard, 1 ≤ maxRowsPerShard → ∃ release,
        (∀ buffering stageRoot batchSize, 1 ≤ batchSize →
          V2Splits.buildV2LanguageSplits scanner buffering destination stageRoot batchSize
            maxRowsPerShard root = .ok release)
        ∧ ∀ spec ∈ languageTableSpecs .v2, ∀ language, ∃ shards,
            shards.Perm (v2FilesOf release spec language)
            ∧ InShards (V2Splits.outputPath scanner.m destination spec language) maxRowsPerShard
              shards (rowsOf scanner (tableRows root spec) language)) := by
  constructor
  · intro hrequired
    obtain ⟨inventory, hinventory⟩ := exists_buildLanguageInventory hlawful hrequired
    refine ⟨inventory, V1Splits.releaseOf scanner releaseRoot root, hinventory,
      countsRows_of_build hlawful hinventory, fun buffering stageRoot batchSize hsize => ?_,
      fun spec hspec language => inOneFile_releaseOf hspec language⟩
    exact V1Splits.generateV1LanguageSplits_eq hlawful hsize hinventory
  · intro hrequired
    obtain ⟨inventory, hinventory⟩ := exists_buildLanguageInventory hlawful hrequired
    refine ⟨inventory, hinventory, countsRows_of_build hlawful hinventory, fun maxRowsPerShard hmax =>
      ⟨V2Splits.releaseOf scanner destination maxRowsPerShard root,
        fun buffering stageRoot batchSize hsize => ?_, fun spec hspec language => ?_⟩⟩
    · exact V2Splits.buildV2LanguageSplits_eq hlawful hsize hmax hinventory
    · exact ⟨_, perm_v2FilesOf_releaseOf hmax hspec language, inShards_shardFilesOf hmax language⟩

end

namespace Example

/-- Rows with a number and a language. -/
def numberedScanner : Scanner (Nat × Option String) where
  m := mapping
  arrow := listArrow
  reader := ⟨fun size rows => chunks rows size⟩
  languageOf := Prod.snd

theorem lawful_numberedScanner : numberedScanner.Lawful :=
  ⟨lawful_listArrow, ⟨fun _ hsize rows => flatten_chunks rows hsize⟩⟩

/-- Two files with two spellings of one language and a null. -/
def twoFiles : ProcessedRoot (Nat × Option String) where
  path := "processed"
  files := fun _ =>
    [("andorra.parquet", [(0, some "en"), (1, none), (2, some "fr")]),
      ("monaco.parquet", [(3, some "EN"), (4, some " en"), (5, none)])]

theorem hasRequired_twoFiles (contract : DatasetContract) : HasRequired twoFiles contract :=
  fun _ _ _ => List.cons_ne_nil _ _

def twoFilesTable : LanguageTableSpec := specIn .wikipediaSections "wikipedia/sections"

theorem rows_conserved :
    (∃ release,
      (∀ buffering stageRoot batchSize, 1 ≤ batchSize → V1Splits.generateV1LanguageSplits
        numberedScanner buffering ["v1"] stageRoot batchSize twoFiles = .ok release)
      ∧ InOneFile (v1FilesOf release twoFilesTable "en") [(0, some "en"), (3, some "EN"), (4, some " en")])
    ∧ ∃ release,
      (∀ buffering stageRoot batchSize, 1 ≤ batchSize → V2Splits.buildV2LanguageSplits
        numberedScanner buffering ["v2"] stageRoot batchSize 2 twoFiles = .ok release)
      ∧ ∃ shards, shards.Perm (v2FilesOf release twoFilesTable "en")
        ∧ InShards (V2Splits.outputPath mapping ["v2"] twoFilesTable "en") 2 shards
          [(0, some "en"), (3, some "EN"), (4, some " en")] := by
  have hrows : rowsOf numberedScanner (tableRows twoFiles twoFilesTable) "en"
      = [(0, some "en"), (3, some "EN"), (4, some " en")] := by
    decide +kernel
  have hboth := language_partitions_conserve_rows twoFiles lawful_numberedScanner ["v1"] ["v2"]
  obtain ⟨_, release, -, -, hrelease, hfiles⟩ := hboth.1 (hasRequired_twoFiles .v1)
  obtain ⟨_, -, -, hshards⟩ := hboth.2 (hasRequired_twoFiles .v2)
  obtain ⟨release', hrelease', hfiles'⟩ := hshards 2 (by decide)
  refine ⟨⟨release, hrelease, ?_⟩, release', hrelease', ?_⟩
  · exact hrows ▸ hfiles twoFilesTable (by decide) "en"
  · exact hrows ▸ hfiles' twoFilesTable (by decide) "en"

end Example

end OsmPolygonWikidata.LanguageSplits
