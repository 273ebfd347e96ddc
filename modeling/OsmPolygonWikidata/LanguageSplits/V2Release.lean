import OsmPolygonWikidata.LanguageSplits.V2Splits
import OsmPolygonWikidata.UploadQueue.RoundTrip

/-! # The V2 release

`build_v2_language_splits`, when the sources do not change. The shards of the tables are sorted, and
their rows are counted against the inventory. `buildV2LanguageSplits_eq` says that the files are
those of `releaseOf`, which knows nothing of batches and buffers.
-/

namespace OsmPolygonWikidata.LanguageSplits.V2Splits

open Python
open UploadQueue (padded padded_injective)

variable {R : Type}

/-! ## Ordering and counting the files -/

/-- The text of a path. -/
def pathText (path : Path) : String := "/".intercalate path

def fileSortKey (file : V2LanguageSplitFile R) : String ×ₗ Bool ×ₗ String ×ₗ String :=
  toLex (file.table.value, toLex (decide (file.language = unknownLanguage),
    toLex (file.language, pathText file.path)))

/-- `sorted(files, key=file_sort_key)`. -/
def orderedFiles (files : List (V2LanguageSplitFile R)) : List (V2LanguageSplitFile R) :=
  files.insertionSort (fun a b => fileSortKey a ≤ fileSortKey b)

/-- A value of `_observed_counts`. -/
def observedCount (files : List (V2LanguageSplitFile R)) (table : LanguageTable)
    (language : String) : Nat :=
  ((files.filter (fun file => file.table = table ∧ file.language = language)).map
    V2LanguageSplitFile.rowCount).sum

def validateTableConservation (files : List (V2LanguageSplitFile R))
    (inventory : LanguageTableInventory) : Except String Unit :=
  let expected := inventory.buckets.map (fun bucket => (bucket.language, bucket.counter.rowCount))
  let actual := inventory.buckets.map (fun bucket =>
    (bucket.language, observedCount files inventory.spec.table bucket.language))
  if actual = expected then .ok ()
  else
    .error (s!"row conservation failed for {inventory.spec.table.value}: " ++
      s!"expected={V1Splits.reprCounts expected}, observed={V1Splits.reprCounts actual}")

/-- `validate_conservation`. -/
def validateConservation (inventory : List LanguageTableInventory)
    (files : List (V2LanguageSplitFile R)) : Except String Unit :=
  inventory.forM (validateTableConservation files)

/-! ## The release -/

variable (scanner : Scanner R) (buffering : Buffering R) (destination stageRoot : Path)
  (batchSize maxRowsPerShard : Nat) (root : ProcessedRoot R)

/-- `_staged_table`, of a table that an earlier run has not staged. -/
def stagedTable (inventory : List LanguageTableInventory) (spec : LanguageTableSpec) :
    Except String (List (V2LanguageSplitFile R)) :=
  match inventory.find? (fun table => table.spec.table = spec.table) with
  | none => .error s!"No inventory for table {spec.table.value}"
  | some table =>
    writeTable (forInventory destination stageRoot spec table maxRowsPerShard) buffering scanner
      batchSize (root.files spec.table)

def stageV2Files (inventory : List LanguageTableInventory) :
    Except String (List (V2LanguageSplitFile R)) :=
  ((languageTableSpecs .v2).mapM (stagedTable scanner buffering destination stageRoot batchSize
    maxRowsPerShard root inventory)).map List.flatten

/-- The limits of `_prepare_v2_split_request`. -/
def validateLimits : Except String Unit :=
  if batchSize = 0 then .error "batch_size must be positive"
  else if maxRowsPerShard < 1 then
    .error s!"max_rows_per_shard must be positive, got {maxRowsPerShard}"
  else .ok ()

/-- `build_v2_language_splits`: the files of the release. -/
def buildV2LanguageSplits : Except String (List (V2LanguageSplitFile R)) := do
  validateLimits batchSize maxRowsPerShard
  let inventory ← buildLanguageInventory scanner root .v2
  let files ← stageV2Files scanner buffering destination stageRoot batchSize maxRowsPerShard root
    inventory
  let ordered := orderedFiles files
  let actual ← buildLanguageInventory scanner root .v2
  validateConservation actual ordered
  return ordered

/-! ## The shards of the rows -/

/-- The file of a chunk. -/
def shardFile (spec : LanguageTableSpec) (language : String) (total index : Nat)
    (chunk : List (Tagged R)) : V2LanguageSplitFile R where
  table := spec.table
  configuration := spec.configuration
  language := language
  split := languageSplitName scanner.m (.text language)
  sourceFiles := (chunk.map Prod.fst).foldl recordSourceFile []
  path := outputPath scanner.m destination spec language index total
  rowCount := chunk.length
  rows := chunk.map Prod.snd

/-- The chunks of a language. -/
def chunksOf (rows : List (Tagged R)) (language : String) : List (List (Tagged R)) :=
  chunks (taggedRowsOf scanner rows language) maxRowsPerShard

/-- The files of a language. -/
def shardFilesOf (spec : LanguageTableSpec) (rows : List (Tagged R)) (language : String) :
    List (V2LanguageSplitFile R) :=
  (chunksOf scanner maxRowsPerShard rows language).mapIdx (shardFile scanner destination spec
    language (chunksOf scanner maxRowsPerShard rows language).length)

/-- The files of the languages of a table. -/
def shardsOf (spec : LanguageTableSpec) (rows : List (Tagged R)) : List (V2LanguageSplitFile R) :=
  (languagesOf scanner (rows.map Prod.snd)).flatMap
    (shardFilesOf scanner destination maxRowsPerShard spec rows)

/-- The files of the tables. -/
def releaseOf : List (V2LanguageSplitFile R) :=
  orderedFiles ((languageTableSpecs .v2).flatMap (fun spec =>
    shardsOf scanner destination maxRowsPerShard spec (taggedRowsOfFiles (root.files spec.table))))

section

variable {scanner} {buffering} {destination stageRoot} {batchSize maxRowsPerShard}
  {spec : LanguageTableSpec} {files : List (String × List R)} {language : String}

theorem map_snd_taggedRowsOfFiles : (taggedRowsOfFiles files).map Prod.snd = rowsOfFiles files := by
  rw [taggedRowsOfFiles, List.map_flatMap]
  refine List.flatMap_congr fun file _ => ?_
  simp [Function.comp_def]

theorem map_snd_taggedRowsOf (rows : List (Tagged R)) :
    (taggedRowsOf scanner rows language).map Prod.snd
      = rowsOf scanner (rows.map Prod.snd) language := by
  rw [rowsOf, List.filter_map]
  rfl

theorem length_taggedRowsOf : (taggedRowsOf scanner (taggedRowsOfFiles files) language).length
    = (rowsOf scanner (rowsOfFiles files) language).length := by
  rw [← map_snd_taggedRowsOfFiles, ← map_snd_taggedRowsOf, List.length_map]

/-- **The name of a shard has the number of shards.** -/
theorem lookup_tableShardCounts {inventory : LanguageTableInventory}
    (h : Describes scanner inventory files)
    (hne : rowsOf scanner (rowsOfFiles files) language ≠ []) :
    (tableShardCounts inventory maxRowsPerShard).lookup language
      = some (chunksOf scanner maxRowsPerShard (taggedRowsOfFiles files) language).length := by
  obtain ⟨bucket, hbucket, rfl⟩ := List.mem_map.mp ((h.rowsOf_ne_nil language).mpr hne)
  have hpositive : 0 < bucket.counter.rowCount := by
    rw [h.rowCount_eq hbucket]
    exact List.length_pos_of_ne_nil hne
  have hnodup : (((inventory.buckets.filter (fun bucket => 0 < bucket.counter.rowCount)).map
      (fun bucket => (bucket.language, shardCount bucket.counter.rowCount maxRowsPerShard))).map
        Prod.fst).Nodup := by
    rw [List.map_map]
    exact h.nodup.sublist (List.filter_sublist.map _)
  rw [tableShardCounts, Dict.build_of_nodup hnodup, lookup_eq_some_iff_mem hnodup]
  refine List.mem_map.mpr ⟨bucket, List.mem_filter.mpr ⟨hbucket, decide_eq_true hpositive⟩, ?_⟩
  rw [chunksOf, length_chunks, length_taggedRowsOf, ← h.rowCount_eq hbucket]
  rfl

/-- The file of a shard. -/
def fileOfView (m : CaseMapping) (spec : LanguageTableSpec) (view : ShardView R) :
    V2LanguageSplitFile R where
  table := spec.table
  configuration := spec.configuration
  language := view.language
  split := languageSplitName m (.text view.language)
  sourceFiles := view.sourceFiles
  path := view.finalPath
  rowCount := view.rows.length
  rows := view.rows

theorem map_fileOfView {context : TableWriteContext} (hmax : 0 < maxRowsPerShard)
    (hcontext : context.maxRowsPerShard = maxRowsPerShard)
    (hdestination : context.destination = destination) (hspec : context.spec = spec)
    (rows : List (Tagged R))
    (hcount : taggedRowsOf scanner rows language ≠ [] → context.shardCounts.lookup language
      = some (chunksOf scanner maxRowsPerShard rows language).length) :
    (shardViews scanner.m context language (taggedRowsOf scanner rows language)).map
        (fileOfView scanner.m spec)
      = shardFilesOf scanner destination maxRowsPerShard spec rows language := by
  subst hcontext hdestination hspec
  rw [shardViews, shardFilesOf, ← chunksOf]
  by_cases hempty : taggedRowsOf scanner rows language = []
  · rw [chunksOf, hempty, chunks_nil hmax]
    rfl
  · refine List.ext_getElem (by simp) fun i _ _ => ?_
    simp [fileOfView, shardView, shardFile, hcount hempty]

theorem filter_map_fileOfView {state : TableWriteState R} (m : CaseMapping)
    (spec : LanguageTableSpec) (language : String) :
    ((state.shards.map ShardWriteState.view).map (fileOfView m spec)).filter
        (fun file => file.language = language)
      = (state.viewsOf language).map (fileOfView m spec) := by
  rw [List.filter_map]
  rfl

variable (buffering destination stageRoot spec) in
/-- **A table is written as the chunks of its languages.** -/
theorem writeTable_spec (hlawful : scanner.Lawful) (hsize : 1 ≤ batchSize)
    (hmax : 0 < maxRowsPerShard) {inventory : LanguageTableInventory}
    (hinventory : Describes scanner inventory files) :
    ∃ written, writeTable (forInventory destination stageRoot spec inventory maxRowsPerShard)
        buffering scanner batchSize files = .ok written
      ∧ written.Perm
        (shardsOf scanner destination maxRowsPerShard spec (taggedRowsOfFiles files)) := by
  generalize hcontext : forInventory destination stageRoot spec inventory maxRowsPerShard = context
  have hlookup : ∀ language, rowsOf scanner (rowsOfFiles files) language ≠ [] →
      context.shardCounts.lookup language
        = some (chunksOf scanner maxRowsPerShard (taggedRowsOfFiles files) language).length := by
    intro language hne
    rw [← hcontext]
    exact lookup_tableShardCounts hinventory hne
  have hcounts : ∀ row ∈ rowsOfFiles files,
      (context.shardCounts.lookup (scanner.partitionOfRow row)).isSome = true := by
    intro row hrow
    have hne : rowsOf scanner (rowsOfFiles files) (scanner.partitionOfRow row) ≠ [] :=
      List.ne_nil_of_mem (List.mem_filter.mpr ⟨hrow, decide_eq_true rfl⟩)
    rw [hlookup _ hne]
    rfl
  have hcontextMax : context.maxRowsPerShard = maxRowsPerShard := by rw [← hcontext]; rfl
  have hcontextSpec : context.spec = spec := by rw [← hcontext]; rfl
  obtain ⟨state, hstate, hviews, hwritten⟩ := streamSources_spec buffering hlawful
    (hcontextMax ▸ hmax) hsize hcounts
  have hvalid : ∀ shard ∈ state.shards, validateOutputFile scanner.m context.spec shard
      = .ok (fileOfView scanner.m spec shard.view) := by
    intro shard hshard
    have hview : shard.view ∈ shardViews scanner.m context shard.language
        (taggedRowsOf scanner (taggedRowsOfFiles files) shard.language) := by
      rw [← hviews]
      exact List.mem_filter.mpr ⟨List.mem_map_of_mem hshard, decide_eq_true rfl⟩
    obtain ⟨i, hi, heq⟩ := List.mem_mapIdx.mp hview
    have hrowCount : shard.rowCount = shard.written.length := by
      rw [hwritten shard hshard, ← heq]
      show shard.view.rowCount = _
      rw [← heq]
      simp [shardView]
    unfold validateOutputFile
    rw [if_neg (fun hne => hne hrowCount.symm), hcontextSpec, hwritten shard hshard]
    rfl
  have hfilter : ∀ language, ((state.shards.map ShardWriteState.view).map
      (fileOfView scanner.m spec)).filter (fun file => file.language = language)
        = shardFilesOf scanner destination maxRowsPerShard spec (taggedRowsOfFiles files)
          language := by
    intro language
    rw [filter_map_fileOfView, hviews]
    refine map_fileOfView hmax hcontextMax (by rw [← hcontext]; rfl) hcontextSpec _ fun hne => ?_
    refine hlookup language fun hempty => hne ?_
    rw [← List.length_eq_zero_iff, length_taggedRowsOf, hempty]
    rfl
  refine ⟨(state.shards.map ShardWriteState.view).map (fileOfView scanner.m spec), ?_, ?_⟩
  · unfold writeTable
    rw [hstate]
    show state.shards.mapM _ = _
    rw [mapM_eq_ok_map hvalid, List.map_map]
    rfl
  · have hcover : ∀ file ∈ (state.shards.map ShardWriteState.view).map (fileOfView scanner.m spec),
        file.language ∈ languagesOf scanner ((taggedRowsOfFiles files).map Prod.snd) := by
      intro file hfile
      have hmem : file ∈ shardFilesOf scanner destination maxRowsPerShard spec
          (taggedRowsOfFiles files) file.language := by
        rw [← hfilter]
        exact List.mem_filter.mpr ⟨hfile, decide_eq_true rfl⟩
      rw [mem_languagesOf, map_snd_taggedRowsOfFiles]
      intro hempty
      have htagged : taggedRowsOf scanner (taggedRowsOfFiles files) file.language = [] := by
        rw [← List.length_eq_zero_iff, length_taggedRowsOf, hempty]
        rfl
      rw [shardFilesOf, chunksOf, htagged, chunks_nil hmax] at hmem
      cases hmem
    have hperm := perm_flatMap_filter V2LanguageSplitFile.language (nodup_languagesOf _) hcover
    simp only [hfilter] at hperm
    exact hperm.symm

end

/-! ## The names of the shards -/

section

variable {scanner} {destination} {maxRowsPerShard} {spec spec' : LanguageTableSpec}
  {rows rows' : List (Tagged R)} {language language' : String}

theorem pathText_outputPath (m : CaseMapping) (destination : Path) (spec : LanguageTableSpec)
    (language : String) (index total : Nat) :
    ∃ before : String, pathText (outputPath m destination spec language index total)
        = before ++ ("part-" ++ padded 5 index ++ "-of-" ++ padded 5 total ++ ".parquet")
      ∧ before = pathText (destination ++ [spec.configuration,
          languageSplitName m (.text language)]) ++ "/" := by
  refine ⟨_, ?_, rfl⟩
  rw [pathText, outputPath,
    show destination ++ [spec.configuration, languageSplitName m (.text language),
        s!"part-{padded 5 index}-of-{padded 5 total}.parquet"]
      = (destination ++ [spec.configuration, languageSplitName m (.text language)])
        ++ [s!"part-{padded 5 index}-of-{padded 5 total}.parquet"] by simp,
    String.intercalate_append_of_ne_nil (by simp) (by simp), String.intercalate_singleton, pathText]
  rfl

theorem pathText_injective {index index' total : Nat}
    (h : pathText (outputPath scanner.m destination spec language index total)
      = pathText (outputPath scanner.m destination spec language index' total)) : index = index' := by
  obtain ⟨before, htext, hbefore⟩ :=
    pathText_outputPath scanner.m destination spec language index total
  obtain ⟨before', htext', hbefore'⟩ :=
    pathText_outputPath scanner.m destination spec language index' total
  rw [htext, htext', hbefore, hbefore', String.append_right_inj] at h
  simp only [String.append_assoc, String.append_right_inj] at h
  rw [String.append_left_inj] at h
  exact padded_injective 5 h

theorem specs_ext (hspec : spec ∈ languageTableSpecs .v2) (hspec' : spec' ∈ languageTableSpecs .v2)
    (h : spec.table = spec'.table) : spec = spec' := by
  have hall : ∀ spec ∈ languageTableSpecs .v2, ∀ spec' ∈ languageTableSpecs .v2,
      spec.table = spec'.table → spec = spec' := by decide
  exact hall spec hspec spec' hspec' h

theorem nodup_specs : (languageTableSpecs .v2).Nodup := by decide

theorem value_injective : Function.Injective LanguageTable.value := by
  intro table table' h
  cases table <;> cases table' <;> first | rfl | exact absurd h (by decide)

theorem fileSortKey_injective (root : ProcessedRoot R) {file file' : V2LanguageSplitFile R}
    (hfile : file ∈ (languageTableSpecs .v2).flatMap (fun spec =>
      shardsOf scanner destination maxRowsPerShard spec (taggedRowsOfFiles (root.files spec.table))))
    (hfile' : file' ∈ (languageTableSpecs .v2).flatMap (fun spec =>
      shardsOf scanner destination maxRowsPerShard spec (taggedRowsOfFiles (root.files spec.table))))
    (h : fileSortKey file = fileSortKey file') : file = file' := by
  obtain ⟨spec, hspec, hfile⟩ := List.mem_flatMap.mp hfile
  obtain ⟨spec', hspec', hfile'⟩ := List.mem_flatMap.mp hfile'
  obtain ⟨language, -, hfile⟩ := List.mem_flatMap.mp hfile
  obtain ⟨language', -, hfile'⟩ := List.mem_flatMap.mp hfile'
  obtain ⟨i, hi, rfl⟩ := List.mem_mapIdx.mp hfile
  obtain ⟨i', hi', rfl⟩ := List.mem_mapIdx.mp hfile'
  have hkeys : spec.table.value = spec'.table.value ∧ language = language'
      ∧ pathText (outputPath scanner.m destination spec language i
          (chunksOf scanner maxRowsPerShard (taggedRowsOfFiles (root.files spec.table))
            language).length)
        = pathText (outputPath scanner.m destination spec' language' i'
          (chunksOf scanner maxRowsPerShard (taggedRowsOfFiles (root.files spec'.table))
            language').length) := by
    have h₁ := congrArg (fun key => (ofLex key).1) h
    have h₂ := congrArg (fun key => (ofLex (ofLex (ofLex key).2).2).1) h
    have h₃ := congrArg (fun key => (ofLex (ofLex (ofLex key).2).2).2) h
    exact ⟨h₁, h₂, h₃⟩
  obtain ⟨htable, rfl, hpath⟩ := hkeys
  obtain rfl := specs_ext hspec hspec' (value_injective htable)
  obtain rfl := pathText_injective hpath
  rfl

theorem filter_shards (hmax : 0 < maxRowsPerShard) (root : ProcessedRoot R)
    (hspec : spec ∈ languageTableSpecs .v2) (language : String) :
    ((languageTableSpecs .v2).flatMap (fun spec => shardsOf scanner destination maxRowsPerShard spec
        (taggedRowsOfFiles (root.files spec.table)))).filter
          (fun file => file.table = spec.table ∧ file.language = language)
      = shardFilesOf scanner destination maxRowsPerShard spec
        (taggedRowsOfFiles (root.files spec.table)) language := by
  have htable : ∀ (spec' : LanguageTableSpec) rows language', ∀ file ∈ shardFilesOf scanner destination
      maxRowsPerShard spec' rows language', file.table = spec'.table ∧ file.language = language' := by
    intro spec' rows language' file hfile
    obtain ⟨i, hi, rfl⟩ := List.mem_mapIdx.mp hfile
    exact ⟨rfl, rfl⟩
  rw [List.filter_flatMap, flatMap_unique nodup_specs (k := spec) ?_ fun h => absurd hspec h]
  · rw [shardsOf, List.filter_flatMap, flatMap_unique (nodup_languagesOf _) (k := language) ?_ ?_]
    · rw [List.filter_eq_self]
      intro file hfile
      exact decide_eq_true (htable _ _ _ file hfile)
    · intro language' _ hne
      rw [List.filter_eq_nil_iff]
      intro file hfile
      rw [decide_eq_true_eq, (htable _ _ _ file hfile).2]
      exact fun h => hne h.2
    · intro hmissing
      rw [mem_languagesOf, not_not, ← map_snd_taggedRowsOf, List.map_eq_nil_iff] at hmissing
      rw [shardFilesOf, chunksOf, hmissing, chunks_nil hmax]
      rfl
  · intro spec' hspec' hne
    rw [List.filter_eq_nil_iff]
    intro file hfile
    obtain ⟨language', -, hfile⟩ := List.mem_flatMap.mp hfile
    rw [decide_eq_true_eq, (htable _ _ _ file hfile).1]
    exact fun h => hne (specs_ext hspec' hspec h.1)

theorem sum_rowCount_shardFilesOf (hmax : 0 < maxRowsPerShard) (spec : LanguageTableSpec)
    (rows : List (Tagged R)) (language : String) :
    ((shardFilesOf scanner destination maxRowsPerShard spec rows language).map
      V2LanguageSplitFile.rowCount).sum = (taggedRowsOf scanner rows language).length := by
  have hlengths : (shardFilesOf scanner destination maxRowsPerShard spec rows language).map
      V2LanguageSplitFile.rowCount
        = (chunksOf scanner maxRowsPerShard rows language).map List.length :=
    List.ext_getElem (by simp [shardFilesOf]) fun i _ _ => by simp [shardFilesOf, shardFile]
  rw [hlengths, ← List.length_flatten, chunksOf, flatten_chunks _ hmax]

end

/-! ## The whole generator -/

variable {scanner} {buffering} {destination stageRoot} {batchSize maxRowsPerShard} {root}

theorem perm_orderedFiles (files : List (V2LanguageSplitFile R)) : (orderedFiles files).Perm files :=
  List.perm_insertionSort _ _

theorem sum_perm_filter {files files' : List (V2LanguageSplitFile R)} (h : files.Perm files')
    (table : LanguageTable) (language : String) :
    observedCount files table language = observedCount files' table language :=
  ((h.filter _).map _).sum_eq

/-- **The shards have the rows that the inventory counts.** -/
theorem validateConservation_eq (hmax : 0 < maxRowsPerShard) (hlawful : scanner.Lawful)
    {inventory : List LanguageTableInventory}
    (hinventory : buildLanguageInventory scanner root .v2 = .ok inventory) :
    validateConservation inventory (releaseOf scanner destination maxRowsPerShard root) = .ok () := by
  obtain ⟨hspecs, hdescribes, -⟩ := buildLanguageInventory_spec hlawful hinventory
  rw [validateConservation, forM_eq_ok_iff]
  intro table htable
  have hspec : table.spec ∈ languageTableSpecs .v2 := by
    have hmem := List.mem_map_of_mem (f := LanguageTableInventory.spec) htable
    rw [hspecs] at hmem
    exact List.mem_of_mem_filter hmem
  have hcounts : table.buckets.map (fun bucket => (bucket.language, observedCount
      (releaseOf scanner destination maxRowsPerShard root) table.spec.table bucket.language))
        = table.buckets.map (fun bucket => (bucket.language, bucket.counter.rowCount)) := by
    refine List.map_congr_left fun bucket hbucket => ?_
    rw [releaseOf, sum_perm_filter (perm_orderedFiles _), observedCount,
      filter_shards hmax root hspec, sum_rowCount_shardFilesOf hmax, length_taggedRowsOf,
      (hdescribes table htable).rowCount_eq hbucket]
  exact if_pos hcounts

variable (buffering destination stageRoot) in
theorem stageV2Files_spec (hlawful : scanner.Lawful) (hsize : 1 ≤ batchSize)
    (hmax : 0 < maxRowsPerShard) {inventory : List LanguageTableInventory}
    (hinventory : buildLanguageInventory scanner root .v2 = .ok inventory) :
    ∃ files, stageV2Files scanner buffering destination stageRoot batchSize maxRowsPerShard root
        inventory = .ok files
      ∧ files.Perm ((languageTableSpecs .v2).flatMap (fun spec => shardsOf scanner destination
          maxRowsPerShard spec (taggedRowsOfFiles (root.files spec.table)))) := by
  obtain ⟨hspecs, hdescribes, hrequired⟩ := buildLanguageInventory_spec hlawful hinventory
  have hstaged : ∀ spec ∈ languageTableSpecs .v2, ∃ files,
      stagedTable scanner buffering destination stageRoot batchSize maxRowsPerShard root inventory
          spec = .ok files
        ∧ files.Perm (shardsOf scanner destination maxRowsPerShard spec
          (taggedRowsOfFiles (root.files spec.table))) := by
    intro spec hspec
    have hmem : spec ∈ inventory.map LanguageTableInventory.spec := by
      rw [hspecs, List.mem_filter, decide_eq_true_eq]
      exact ⟨hspec, hrequired spec hspec rfl⟩
    obtain ⟨table, htable, rfl⟩ := List.mem_map.mp hmem
    cases hfind : inventory.find? (fun other => other.spec.table = table.spec.table) with
    | none => simpa using List.find?_eq_none.mp hfind table htable
    | some found =>
      have hfound : found.spec.table = table.spec.table := by simpa using List.find?_some hfind
      obtain ⟨files, hfiles, hperm⟩ := writeTable_spec buffering destination stageRoot table.spec
        hlawful hsize hmax (hdescribes found (List.mem_of_find?_eq_some hfind))
      rw [hfound] at hfiles hperm
      refine ⟨files, ?_, hperm⟩
      unfold stagedTable
      rw [hfind]
      exact hfiles
  obtain ⟨staged, hmapM, hall⟩ := exists_mapM_forall₂ hstaged
  refine ⟨staged.flatten, ?_, ?_⟩
  · unfold stageV2Files
    rw [hmapM]
    rfl
  · clear hmapM hstaged hspecs hrequired
    generalize languageTableSpecs .v2 = specs at hall ⊢
    induction hall with
    | nil => exact .refl _
    | cons hperm _ ih => exact hperm.append ih

/-- **The V2 generator returns the chunks of the languages.** -/
theorem buildV2LanguageSplits_eq (hlawful : scanner.Lawful) (hsize : 1 ≤ batchSize)
    (hmax : 1 ≤ maxRowsPerShard) {inventory : List LanguageTableInventory}
    (hinventory : buildLanguageInventory scanner root .v2 = .ok inventory) :
    buildV2LanguageSplits scanner buffering destination stageRoot batchSize maxRowsPerShard root
      = .ok (releaseOf scanner destination maxRowsPerShard root) := by
  obtain ⟨files, hfiles, hperm⟩ := stageV2Files_spec buffering destination stageRoot hlawful hsize
    hmax hinventory
  have hlimits : validateLimits batchSize maxRowsPerShard = .ok () := by
    rw [validateLimits, if_neg (by omega), if_neg (by omega)]
  have hordered : orderedFiles files = releaseOf scanner destination maxRowsPerShard root :=
    insertionSort_congr hperm fun file hfile file' hfile' =>
      fileSortKey_injective root (hperm.mem_iff.mp hfile) (hperm.mem_iff.mp hfile')
  unfold buildV2LanguageSplits
  simp only [hlimits, hinventory, hfiles, hordered, validateConservation_eq hmax hlawful hinventory,
    bind, Except.bind, pure, Except.pure]

end OsmPolygonWikidata.LanguageSplits.V2Splits
