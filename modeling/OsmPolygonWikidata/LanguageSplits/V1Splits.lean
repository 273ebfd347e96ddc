import OsmPolygonWikidata.Basic.Routing
import OsmPolygonWikidata.LanguageSplits.Inventory

/-! # The V1 partitions

`hf/v1_language_splits.py` and `hf/v1_language_split_writer.py`. The rows of a table are read batch
after batch, grouped, and buffered in one writer for each language. `stageTablePartitions_eq` says
that the files are those of `partitionsOf`, which knows nothing of batches and buffers.

A Parquet file is its rows: their encoding is not part of the model, nor is the digest of the file.
-/

namespace OsmPolygonWikidata.LanguageSplits

open Python

/-- The parts of a path below the data root. -/
abbrev Path := List String

/-- `rows.nbytes`, and the sizes at which buffers are written. -/
structure Buffering (R : Type) where
  nbytes : List R → Nat
  shardFlushBytes : Nat
  totalFlushBytes : Nat

variable {R : Type}

namespace V1Splits

/-! ## Buffered writers -/

/-- `BufferedWriter`, with the rows of its file. -/
structure BufferedWriter (R : Type) where
  path : Path
  written : List R
  pending : List (List R)
  pendingBytes : Nat

/-- `BufferedWriter.flush`. -/
def BufferedWriter.flush (writer : BufferedWriter R) : BufferedWriter R :=
  if writer.pending.isEmpty then writer
  else { writer with
    written := writer.written ++ writer.pending.flatten, pending := [], pendingBytes := 0 }

def bufferRows (buffering : Buffering R) (writer : BufferedWriter R) (rows : List R) :
    BufferedWriter R :=
  let writer := { writer with
    pending := writer.pending ++ [rows],
    pendingBytes := writer.pendingBytes + buffering.nbytes rows }
  if buffering.shardFlushBytes ≤ writer.pendingBytes then writer.flush else writer

/-- The rows of a writer, written or not. -/
def BufferedWriter.rows (writer : BufferedWriter R) : List R :=
  writer.written ++ writer.pending.flatten

@[simp] theorem rows_flush (writer : BufferedWriter R) : writer.flush.rows = writer.rows := by
  unfold BufferedWriter.flush
  split
  · rfl
  · simp [BufferedWriter.rows]

@[simp] theorem path_flush (writer : BufferedWriter R) : writer.flush.path = writer.path := by
  unfold BufferedWriter.flush
  split <;> rfl

theorem written_flush (writer : BufferedWriter R) : writer.flush.written = writer.rows := by
  unfold BufferedWriter.flush
  split
  · rename_i hempty
    rw [BufferedWriter.rows, List.isEmpty_iff.mp hempty, List.flatten_nil, List.append_nil]
  · rfl

/-- **Buffered rows are rows**, whether the buffer is written or not. -/
theorem rows_bufferRows (buffering : Buffering R) (writer : BufferedWriter R) (rows : List R) :
    (bufferRows buffering writer rows).rows = writer.rows ++ rows
      ∧ (bufferRows buffering writer rows).path = writer.path := by
  unfold bufferRows
  dsimp only
  split
  · rw [rows_flush, path_flush]
    simp [BufferedWriter.rows]
  · simp [BufferedWriter.rows]

/-! ## Staging the partitions of a table -/

/-- `writers` with `staged_paths`, `written_counts` and `observed_rows`. -/
structure StagingState (R : Type) where
  writers : List (String × BufferedWriter R)
  writtenCounts : List (String × Nat)
  observedRows : Nat

/-- `V1PartitionFile`, with the rows of the file. -/
structure V1PartitionFile (R : Type) where
  table : String
  configuration : String
  split : String
  path : Path
  rowCount : Nat
  rows : List R

def relativePartitionPath (configuration split : String) : Path :=
  ["data", configuration, s!"{split}-00000-of-00001.parquet"]

variable (scanner : Scanner R) (buffering : Buffering R) (releaseRoot stageRoot : Path)
  (spec : LanguageTableSpec)

def writerForLanguage (writers : List (String × BufferedWriter R)) (language : String) :
    BufferedWriter R :=
  (writers.lookup language).getD
    ⟨stageRoot ++ relativePartitionPath spec.configuration s!"lang-{language}", [], [], 0⟩

/-- One language of `_stream_batch`. -/
def streamGroup (batch : List R) (state : StagingState R) (group : String × List Nat) :
    Except String (StagingState R) :=
  let writer := writerForLanguage stageRoot spec state.writers group.1
  let count := (state.writtenCounts.lookup group.1).getD 0
  return { state with
    writers := Dict.put Prod.fst
      (group.1, bufferRows buffering writer (takeRows batch group.2)) state.writers,
    writtenCounts := Dict.put Prod.fst (group.1, count + group.2.length) state.writtenCounts }

def streamBatch (state : StagingState R) (batch : List R) : Except String (StagingState R) :=
  match partitionRowIndices scanner.m scanner.arrow (batch.map scanner.languageOf) with
  | none => .error "Could not partition language column 'language'"
  | some groups =>
    ((groups.insertionSort (fun a b => a.1 ≤ b.1)).foldlM
      (streamGroup buffering stageRoot spec batch) state).map
        (fun state => { state with observedRows := state.observedRows + batch.length })

def streamSourceFile (batchSize : Nat) (state : StagingState R) (rows : List R) :
    Except String (StagingState R) :=
  (scanner.reader.iterBatches batchSize rows).foldlM
    (streamBatch scanner buffering stageRoot spec) state

def partitionTableSources (batchSize : Nat) (files : List (String × List R)) :
    Except String (StagingState R) :=
  ((files.map Prod.snd).foldlM (streamSourceFile scanner buffering stageRoot spec batchSize)
    ⟨[], [], 0⟩).map (fun state => { state with
      writers := state.writers.map (fun entry => (entry.1, entry.2.flush)) })

/-- The `==` of two dictionaries of counts. -/
def sameCounts (counts counts' : List (String × Nat)) : Bool :=
  counts.length = counts'.length && counts.all (fun entry => counts'.lookup entry.1 = some entry.2)

/-- `repr` of a dictionary of counts. -/
def reprCounts (counts : List (String × Nat)) : String :=
  "\x7b" ++ ", ".intercalate (counts.map (fun entry => "'" ++ entry.1 ++ "': " ++ toString entry.2))
    ++ "\x7d"

def validatePartitionCounts (inventory : LanguageTableInventory) (observedRows : Nat)
    (writtenCounts : List (String × Nat)) : Except String Unit :=
  let expected := inventory.buckets.map (fun bucket => (bucket.language, bucket.counter.rowCount))
  let expectedWritten := expected.filter (fun entry => entry.2 ≠ 0)
  if observedRows ≠ inventory.rowCount then
    .error (s!"row count changed while partitioning {inventory.spec.table.value}: " ++
      s!"inventory={inventory.rowCount}, observed={observedRows}")
  else if sameCounts writtenCounts expectedWritten then .ok ()
  else
    .error (s!"partition counts changed for {inventory.spec.table.value}: " ++
      s!"expected={reprCounts expected}, observed={reprCounts writtenCounts}")

/-- One language of `_build_staged_partitions`. -/
def buildStagedPartition (state : StagingState R) (entry : String × Nat) :
    Except String (V1PartitionFile R) :=
  match state.writers.lookup entry.1 with
  | none => .error s!"Could not validate generated artifact for {entry.1}"
  | some writer =>
    .ok ⟨spec.table.value, spec.configuration, s!"lang-{entry.1}",
      releaseRoot ++ relativePartitionPath spec.configuration s!"lang-{entry.1}", entry.2,
      writer.written⟩

def stageTablePartitions (batchSize : Nat) (inventory : LanguageTableInventory)
    (files : List (String × List R)) : Except String (List (V1PartitionFile R)) := do
  let state ← partitionTableSources scanner buffering stageRoot spec batchSize files
  validatePartitionCounts inventory state.observedRows state.writtenCounts
  (state.writtenCounts.insertionSort (fun a b => a.1 ≤ b.1)).mapM
    (buildStagedPartition releaseRoot spec state)

/-- `_stage_partitions`, when the sources are those of the inventory. -/
def stagePartitions (batchSize : Nat) (root : ProcessedRoot R)
    (inventory : List LanguageTableInventory) : Except String (List (V1PartitionFile R)) :=
  (inventory.mapM (fun table => stageTablePartitions scanner buffering releaseRoot stageRoot
    table.spec batchSize table (root.files table.spec.table))).map List.flatten

/-- `generate_v1_language_splits`: the files of the release. -/
def generateV1LanguageSplits (batchSize : Nat) (root : ProcessedRoot R) :
    Except String (List (V1PartitionFile R)) :=
  if batchSize = 0 then .error "batch_size must be positive"
  else do
    let inventory ← buildLanguageInventory scanner root .v1
    stagePartitions scanner buffering releaseRoot stageRoot batchSize root inventory

/-! ## The partitions of the rows -/

/-- The file of a language. -/
def partitionOf (rows : List R) (language : String) : V1PartitionFile R where
  table := spec.table.value
  configuration := spec.configuration
  split := s!"lang-{language}"
  path := releaseRoot ++ relativePartitionPath spec.configuration s!"lang-{language}"
  rowCount := (rowsOf scanner rows language).length
  rows := rowsOf scanner rows language

/-- The files of the languages. -/
def partitionsOf (rows : List R) : List (V1PartitionFile R) :=
  (languagesOf scanner rows).map (partitionOf scanner releaseRoot spec rows)

variable {scanner} {buffering} {releaseRoot stageRoot} {spec}

/-- The writers and the counts, when so many rows were read and these went to the languages. -/
structure Staged (observed : Nat) (state : StagingState R) (routed : String → List R) : Prop where
  observed_eq : state.observedRows = observed
  writer : ∀ language, routed language ≠ [] →
    ∃ writer, state.writers.lookup language = some writer ∧ writer.rows = routed language
  no_writer : ∀ language, routed language = [] → state.writers.lookup language = none
  count : ∀ language, state.writtenCounts.lookup language
    = if routed language = [] then none else some (routed language).length
  nodup : (state.writtenCounts.map Prod.fst).Nodup

theorem staged_nil : Staged 0 (⟨[], [], 0⟩ : StagingState R) (fun _ => []) :=
  ⟨rfl, fun _ h => absurd rfl h, fun _ _ => rfl, fun _ => rfl, List.nodup_nil⟩

variable {state : StagingState R} {routed : String → List R}

variable {n : Nat} {rows : List R}

theorem Staged.rows_writerForLanguage (h : Staged n state routed) (language : String) :
    (writerForLanguage stageRoot spec state.writers language).rows = routed language := by
  unfold writerForLanguage
  by_cases hempty : routed language = []
  · rw [h.no_writer language hempty, hempty]
    rfl
  · obtain ⟨writer, hwriter, hrows⟩ := h.writer language hempty
    rw [hwriter]
    exact hrows

theorem Staged.count_getD (h : Staged n state routed) (language : String) :
    (state.writtenCounts.lookup language).getD 0 = (routed language).length := by
  rw [h.count]
  split
  · rename_i hempty
    rw [hempty]
    rfl
  · rfl

theorem streamGroup_spec {batch : List R} (h : Staged n state routed) {group : String × List Nat}
    (hcount : (takeRows batch group.2).length = group.2.length) (hne : group.2 ≠ []) :
    ∃ state', streamGroup buffering stageRoot spec batch state group = .ok state'
      ∧ Staged n state' (fun language => routed language ++ groupRows batch group language) := by
  obtain ⟨language, positions⟩ := group
  have hrows : takeRows batch positions ≠ [] := by
    rw [← List.length_pos_iff, hcount, List.length_pos_iff]
    exact hne
  unfold groupRows
  refine ⟨_, rfl, ⟨h.observed_eq, fun other hother => ?_, fun other hother => ?_, fun other => ?_,
    ?_⟩⟩
  · show ∃ writer, (Dict.put Prod.fst _ _).lookup other = some writer ∧ _
    rw [Dict.lookup_put]
    by_cases heq : other = language
    · subst heq
      rw [if_pos rfl]
      refine ⟨_, rfl, ?_⟩
      rw [(rows_bufferRows buffering _ _).1, h.rows_writerForLanguage, if_pos rfl]
    · rw [if_neg heq]
      rw [if_neg heq, List.append_nil] at hother ⊢
      exact h.writer other hother
  · show (Dict.put Prod.fst _ _).lookup other = none
    rw [Dict.lookup_put]
    by_cases heq : other = language
    · rw [if_pos heq] at hother
      exact absurd (List.append_eq_nil_iff.mp hother).2 hrows
    · rw [if_neg heq]
      rw [if_neg heq, List.append_nil] at hother
      exact h.no_writer other hother
  · show (Dict.put Prod.fst _ _).lookup other = _
    rw [Dict.lookup_put]
    by_cases heq : other = language
    · subst heq
      have hnot : ¬ (routed other ++ takeRows batch positions) = [] := fun hnil =>
        hrows (List.append_eq_nil_iff.mp hnil).2
      rw [if_pos rfl, if_pos rfl, if_neg hnot, h.count_getD, List.length_append, hcount]
    · rw [if_neg heq, if_neg heq, List.append_nil, h.count]
  · show ((Dict.put Prod.fst _ _).map Prod.fst).Nodup
    rw [Dict.keys_put]
    split
    · exact h.nodup
    · rename_i hnew
      rw [← List.concat_eq_append]
      exact h.nodup.concat hnew

/-- The writers after some rows. -/
def StagedRows (scanner : Scanner R) (state : StagingState R) (rows : List R) : Prop :=
  Staged rows.length state (rowsOf scanner rows)

theorem streamBatch_spec (hlawful : scanner.Lawful) (batch : List R)
    (h : StagedRows scanner state rows) :
    ∃ state', streamBatch scanner buffering stageRoot spec state batch = .ok state'
      ∧ StagedRows scanner state' (rows ++ batch) := by
  obtain ⟨groups, hgroups, hspec⟩ := partitionRowIndices_eq hlawful.arrow
    (batch.map scanner.languageOf)
  have hnames : groups = groupPositions (batch.map scanner.partitionOfRow) := by
    rw [hspec.eq_group, List.map_map]
    rfl
  have hperm : (groups.insertionSort (fun a b => a.1 ≤ b.1)).Perm
      (groupPositions (batch.map scanner.partitionOfRow)) :=
    hnames ▸ List.perm_insertionSort _ _
  have hstep : ∀ group ∈ groups.insertionSort (fun a b => a.1 ≤ b.1), ∀ s routed,
      Staged rows.length s routed →
        ∃ s', streamGroup buffering stageRoot spec batch s group = .ok s'
          ∧ Staged rows.length s' (fun language =>
              routed language ++ groupRows batch group language) := by
    intro group hgroup s routed hs
    have hpositions := positions_of_mem_groupPositions (hperm.mem_iff.mp hgroup)
    exact streamGroup_spec hs hpositions.2 hpositions.1
  obtain ⟨state', hfold, hstaged⟩ := foldlM_adds hstep h
  refine ⟨{ state' with observedRows := state'.observedRows + batch.length }, ?_, ?_⟩
  · unfold streamBatch
    rw [hgroups]
    dsimp only
    rw [hfold]
    rfl
  · -- the groups route the rows of the batch
    have hrouted : ∀ language, rowsOf scanner rows language
        ++ (groups.insertionSort (fun a b => a.1 ≤ b.1)).flatMap
          (fun group => groupRows batch group language)
          = rowsOf scanner (rows ++ batch) language := by
      intro language
      rw [flatMap_groupRows scanner.partitionOfRow batch hperm, rowsOf, rowsOf, List.filter_append]
    rw [funext hrouted] at hstaged
    refine ⟨?_, hstaged.writer, hstaged.no_writer, hstaged.count, hstaged.nodup⟩
    rw [List.length_append, ← hstaged.observed_eq]

variable {batchSize : Nat}

theorem streamSourceFile_spec (hlawful : scanner.Lawful) (hsize : 1 ≤ batchSize) (file : List R)
    (h : StagedRows scanner state rows) :
    ∃ state', streamSourceFile scanner buffering stageRoot spec batchSize state file = .ok state'
      ∧ StagedRows scanner state' (rows ++ file) := by
  have hstep : ∀ batch ∈ scanner.reader.iterBatches batchSize file, ∀ s rows,
      StagedRows scanner s rows →
        ∃ s', streamBatch scanner buffering stageRoot spec s batch = .ok s'
          ∧ StagedRows scanner s' (rows ++ batch) :=
    fun batch _ s rows hs => streamBatch_spec hlawful batch hs
  obtain ⟨state', hfold, hstaged⟩ := foldlM_reads hstep h
  refine ⟨state', hfold, ?_⟩
  rwa [List.flatMap_id', hlawful.reader.flatten batchSize hsize file] at hstaged

variable (buffering stageRoot spec) in
/-- **The whole pass over a table.** -/
theorem partitionTableSources_spec (hlawful : scanner.Lawful)
    (hsize : 1 ≤ batchSize) (files : List (String × List R)) :
    ∃ state, partitionTableSources scanner buffering stageRoot spec batchSize files = .ok state
      ∧ StagedRows scanner state (rowsOfFiles files)
      ∧ ∀ entry ∈ state.writers, entry.2.written = entry.2.rows := by
  have hstep : ∀ file ∈ files.map Prod.snd, ∀ s rows, StagedRows scanner s rows →
      ∃ s', streamSourceFile scanner buffering stageRoot spec batchSize s file = .ok s'
        ∧ StagedRows scanner s' (rows ++ file) :=
    fun file _ s rows hs => streamSourceFile_spec hlawful hsize file hs
  have hstart : StagedRows scanner ⟨[], [], 0⟩ [] := staged_nil
  obtain ⟨state, hfold, hstaged⟩ := foldlM_reads hstep hstart
  rw [List.flatMap_id', List.nil_append,
    show (files.map Prod.snd).flatten = rowsOfFiles files from rfl] at hstaged
  have hlookup : ∀ language, (state.writers.map (fun entry => (entry.1, entry.2.flush))).lookup
      language = (state.writers.lookup language).map BufferedWriter.flush := by
    intro language
    induction state.writers with
    | nil => rfl
    | cons entry writers ih =>
      rw [List.map_cons, List.lookup_cons, List.lookup_cons, ih]
      split <;> rfl
  refine ⟨{ state with writers := state.writers.map (fun entry => (entry.1, entry.2.flush)) },
    ?_, ⟨hstaged.observed_eq, ?_, ?_, hstaged.count, hstaged.nodup⟩, ?_⟩
  · unfold partitionTableSources
    rw [hfold]
    rfl
  · intro language hne
    obtain ⟨writer, hwriter, hrows⟩ := hstaged.writer language hne
    exact ⟨writer.flush, by rw [hlookup, hwriter]; rfl, by rw [rows_flush, hrows]⟩
  · intro language hempty
    rw [hlookup, hstaged.no_writer language hempty]
    rfl
  · intro entry hentry
    obtain ⟨before, -, rfl⟩ := List.mem_map.mp hentry
    rw [written_flush, rows_flush]

theorem sorted_writtenCounts (h : StagedRows scanner state rows) :
    state.writtenCounts.insertionSort (fun a b => a.1 ≤ b.1)
      = (languagesOf scanner rows).map (fun language =>
          (language, (rowsOf scanner rows language).length)) := by
  have hmem : ∀ entry ∈ state.writtenCounts, rowsOf scanner rows entry.1 ≠ []
      ∧ entry.2 = (rowsOf scanner rows entry.1).length := by
    intro entry hentry
    have hlookup := (lookup_eq_some_iff_mem h.nodup).mpr hentry
    rw [h.count] at hlookup
    split at hlookup
    · cases hlookup
    · rename_i hne
      exact ⟨hne, (Option.some.inj hlookup).symm⟩
  have hkeys : (state.writtenCounts.map Prod.fst).Perm (rows.map scanner.partitionOfRow).eraseDups := by
    refine (List.perm_ext_iff_of_nodup h.nodup (nodup_eraseDups _)).mpr fun language => ?_
    rw [← (List.perm_insertionSort (· ≤ ·) (rows.map scanner.partitionOfRow).eraseDups).mem_iff]
    show _ ↔ language ∈ languagesOf scanner rows
    rw [mem_languagesOf]
    constructor
    · intro hkey
      obtain ⟨entry, hentry, rfl⟩ := List.mem_map.mp hkey
      exact (hmem entry hentry).1
    · intro hne
      have hlookup := h.count language
      rw [if_neg hne] at hlookup
      exact List.mem_map.mpr ⟨_, mem_of_lookup_eq_some hlookup, rfl⟩
  have hsorted : (state.writtenCounts.insertionSort (fun a b => a.1 ≤ b.1)).map Prod.fst
      = languagesOf scanner rows := by
    rw [List.map_insertionSort (fun a b : String × Nat => a.1 ≤ b.1) (fun a b : String => a ≤ b)
      Prod.fst _ fun _ _ _ _ => Iff.rfl]
    exact insertionSort_congr hkeys fun _ _ _ _ heq => heq
  rw [← hsorted, List.map_map]
  refine (List.map_id _).symm.trans (List.map_congr_left fun entry hentry => ?_)
  exact Prod.ext rfl (hmem entry ((List.perm_insertionSort _ _).mem_iff.mp hentry)).2

/-- **The counts that were written are those of the inventory.** -/
theorem validatePartitionCounts_eq {inventory : LanguageTableInventory}
    {files : List (String × List R)} (hinventory : Describes scanner inventory files)
    (h : StagedRows scanner state (rowsOfFiles files)) :
    validatePartitionCounts inventory state.observedRows state.writtenCounts = .ok () := by
  have hexpected : (inventory.buckets.map
      (fun bucket => (bucket.language, bucket.counter.rowCount))).filter (fun entry => entry.2 ≠ 0)
        = inventory.buckets.map (fun bucket => (bucket.language, bucket.counter.rowCount)) := by
    rw [List.filter_eq_self]
    intro entry hentry
    obtain ⟨bucket, hbucket, rfl⟩ := List.mem_map.mp hentry
    have hne := (hinventory.rowsOf_ne_nil bucket.language).mp (List.mem_map_of_mem hbucket)
    rw [decide_eq_true_eq, hinventory.rowCount_eq hbucket]
    exact (List.length_pos_of_ne_nil hne).ne'
  have hnodup : ((inventory.buckets.map
      (fun bucket => (bucket.language, bucket.counter.rowCount))).map Prod.fst).Nodup := by
    rw [List.map_map]
    exact hinventory.nodup
  have hsame : sameCounts state.writtenCounts
      (inventory.buckets.map (fun bucket => (bucket.language, bucket.counter.rowCount))) = true := by
    have hkeys : (state.writtenCounts.map Prod.fst).Perm
        (inventory.buckets.map LanguageBucket.language) := by
      refine (List.perm_ext_iff_of_nodup h.nodup hinventory.nodup).mpr fun language => ?_
      rw [hinventory.rowsOf_ne_nil]
      have hcount := h.count language
      constructor
      · intro hkey
        obtain ⟨entry, hentry, rfl⟩ := List.mem_map.mp hkey
        intro hempty
        rw [(lookup_eq_some_iff_mem h.nodup).mpr hentry, if_pos hempty] at hcount
        cases hcount
      · intro hne
        rw [if_neg hne] at hcount
        exact List.mem_map.mpr ⟨_, mem_of_lookup_eq_some hcount, rfl⟩
    rw [sameCounts, Bool.and_eq_true, decide_eq_true_eq, List.all_eq_true]
    refine ⟨by simpa using hkeys.length_eq, fun entry hentry => decide_eq_true ?_⟩
    have hkey : entry.1 ∈ inventory.buckets.map LanguageBucket.language :=
      hkeys.mem_iff.mp (List.mem_map_of_mem hentry)
    obtain ⟨bucket, hbucket, hlanguage⟩ := List.mem_map.mp hkey
    have hcount := h.count entry.1
    rw [(lookup_eq_some_iff_mem h.nodup).mpr hentry,
      if_neg ((hinventory.rowsOf_ne_nil entry.1).mp hkey)] at hcount
    rw [lookup_eq_some_iff_mem hnodup, Option.some.inj hcount]
    refine List.mem_map.mpr ⟨bucket, hbucket, ?_⟩
    rw [hinventory.rowCount_eq hbucket, hlanguage]
  unfold validatePartitionCounts
  dsimp only
  rw [hexpected, if_neg (fun hne => hne (h.observed_eq.trans hinventory.rowCount.symm)),
    if_pos hsame]

/-- **The staged files are the partitions of the rows.** -/
theorem stageTablePartitions_eq (hlawful : scanner.Lawful)
    (hsize : 1 ≤ batchSize) {inventory : LanguageTableInventory} {files : List (String × List R)}
    (hinventory : Describes scanner inventory files) :
    stageTablePartitions scanner buffering releaseRoot stageRoot spec batchSize inventory files
      = .ok (partitionsOf scanner releaseRoot spec (rowsOfFiles files)) := by
  obtain ⟨state, hstate, hstaged, hwritten⟩ :=
    partitionTableSources_spec buffering stageRoot spec hlawful hsize files
  unfold stageTablePartitions
  rw [hstate]
  show (validatePartitionCounts inventory state.observedRows state.writtenCounts >>= _) = _
  rw [validatePartitionCounts_eq hinventory hstaged]
  show List.mapM (buildStagedPartition releaseRoot spec state) _ = _
  rw [sorted_writtenCounts hstaged, partitionsOf]
  refine (mapM_eq_ok_map (g := fun entry : String × Nat =>
    partitionOf scanner releaseRoot spec (rowsOfFiles files) entry.1) fun entry hentry => ?_).trans ?_
  · obtain ⟨language, hlanguage, rfl⟩ := List.mem_map.mp hentry
    obtain ⟨writer, hwriter, hrows⟩ := hstaged.writer language (mem_languagesOf.mp hlanguage)
    have hcontent := hwritten _ (mem_of_lookup_eq_some hwriter)
    unfold buildStagedPartition
    rw [hwriter]
    show Except.ok _ = Except.ok _
    rw [partitionOf, ← hrows, ← hcontent]
  · rw [List.map_map]
    rfl

/-- The tables that have files. -/
def presentSpecs (root : ProcessedRoot R) : List LanguageTableSpec :=
  (languageTableSpecs .v1).filter (fun spec => root.files spec.table ≠ [])

variable (scanner releaseRoot) in
/-- The files of the tables. -/
def releaseOf (root : ProcessedRoot R) : List (V1PartitionFile R) :=
  (presentSpecs root).flatMap (fun spec =>
    partitionsOf scanner releaseRoot spec (rowsOfFiles (root.files spec.table)))

/-- **The V1 generator returns the partitions of the rows.** -/
theorem generateV1LanguageSplits_eq (hlawful : scanner.Lawful)
    (hsize : 1 ≤ batchSize) {root : ProcessedRoot R} {inventory : List LanguageTableInventory}
    (hinventory : buildLanguageInventory scanner root .v1 = .ok inventory) :
    generateV1LanguageSplits scanner buffering releaseRoot stageRoot batchSize root
      = .ok (releaseOf scanner releaseRoot root) := by
  obtain ⟨hspecs, hdescribes, -⟩ := buildLanguageInventory_spec hlawful hinventory
  have htables : ∀ table ∈ inventory,
      stageTablePartitions scanner buffering releaseRoot stageRoot table.spec batchSize table
          (root.files table.spec.table)
        = .ok (partitionsOf scanner releaseRoot table.spec
            (rowsOfFiles (root.files table.spec.table))) :=
    fun table htable => stageTablePartitions_eq hlawful hsize (hdescribes table htable)
  unfold generateV1LanguageSplits
  rw [if_neg (by omega), hinventory]
  show stagePartitions scanner buffering releaseRoot stageRoot batchSize root inventory = _
  unfold stagePartitions
  rw [mapM_eq_ok_map htables, releaseOf, presentSpecs, ← hspecs, List.flatMap_map]
  rfl

end V1Splits

end OsmPolygonWikidata.LanguageSplits
