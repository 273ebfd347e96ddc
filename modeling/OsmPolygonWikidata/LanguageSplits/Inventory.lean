import OsmPolygonWikidata.LanguageSplits.RowGroups

/-! # Language inventories

`build_language_inventory` of `hf/language_splits.py`. The rows of each table are counted by their
partitions, batch after batch, with one look at each distinct value of a batch.
`buildLanguageInventory_spec` says what the counts are.

The files have the schemas of their tables and the manifest refers to them. The order in which the
reader cuts a file into batches is a parameter.
-/

namespace OsmPolygonWikidata.LanguageSplits

open Python

/-! ## The tables -/

inductive DatasetContract where
  | v1
  | v2

inductive LanguageTable where
  | polygonArticles
  | polygonDocumentLinks
  | wikipediaDocuments
  | wikipediaSections
  | wikivoyageDocuments
  | wikivoyageSections
  deriving DecidableEq

def LanguageTable.value : LanguageTable → String
  | .polygonArticles => "polygon_articles"
  | .polygonDocumentLinks => "polygon_document_links"
  | .wikipediaDocuments => "wikipedia_documents"
  | .wikipediaSections => "wikipedia_sections"
  | .wikivoyageDocuments => "wikivoyage_documents"
  | .wikivoyageSections => "wikivoyage_sections"

structure LanguageTableSpec where
  table : LanguageTable
  relativeDir : String
  configuration : String
  deriving DecidableEq

def languageConfigName (table : LanguageTable) : String := s!"{table.value}_by_language"

/-- The specification of a table in a directory. -/
def specIn (table : LanguageTable) (relativeDir : String) : LanguageTableSpec :=
  ⟨table, relativeDir, languageConfigName table⟩

def languageTableSpecs : DatasetContract → List LanguageTableSpec
  | .v1 =>
    [specIn .polygonArticles "polygon_articles", specIn .wikipediaDocuments "wikipedia/documents",
      specIn .wikipediaSections "wikipedia/sections",
      specIn .wikivoyageDocuments "wikivoyage/documents",
      specIn .wikivoyageSections "wikivoyage/sections"]
  | .v2 =>
    [specIn .polygonDocumentLinks "polygon_document_links",
      specIn .wikipediaDocuments "wikipedia/documents",
      specIn .wikipediaSections "wikipedia/sections"]

/-- `_ArtifactSpec.required`. -/
def isRequired : DatasetContract → LanguageTable → Bool
  | .v1, table => table = .polygonArticles
  | .v2, _ => true

/-! ## Reading -/

variable {R : Type}

/-- A processed directory: the Parquet files of each table in the order of their names, with their
rows. -/
structure ProcessedRoot (R : Type) where
  path : String
  files : LanguageTable → List (String × List R)

/-- How a Parquet file is cut into batches of at most so many rows. -/
structure ParquetReader (R : Type) where
  iterBatches : Nat → List R → List (List R)

structure ParquetReader.Lawful (reader : ParquetReader R) : Prop where
  flatten : ∀ size, 1 ≤ size → ∀ rows, (reader.iterBatches size rows).flatten = rows

/-- What the pass over a table needs to know of the rows: their language. -/
structure Scanner (R : Type) where
  m : CaseMapping
  arrow : Arrow
  reader : ParquetReader R
  languageOf : R → Option String

structure Scanner.Lawful (scanner : Scanner R) : Prop where
  arrow : scanner.arrow.Lawful
  reader : scanner.reader.Lawful

/-! ## Counting -/

/-- `_BucketCounter`. -/
structure BucketCounter where
  rowCount : Nat := 0
  canonicalRows : Nat := 0
  legacyAliasRows : Nat := 0
  missingRows : Nat := 0
  blankRows : Nat := 0
  malformedRows : Nat := 0
  legacyUnusableRows : Nat := 0

/-- `_increment_disposition`. -/
def incrementDisposition (counter : BucketCounter) (disposition : LanguageDisposition)
    (count : Nat) : BucketCounter :=
  match disposition with
  | .canonical => { counter with canonicalRows := counter.canonicalRows + count }
  | .legacyAlias => { counter with legacyAliasRows := counter.legacyAliasRows + count }
  | .missing => { counter with missingRows := counter.missingRows + count }
  | .blank => { counter with blankRows := counter.blankRows + count }
  | .malformed => { counter with malformedRows := counter.malformedRows + count }
  | .legacyUnusable => { counter with legacyUnusableRows := counter.legacyUnusableRows + count }

/-- `_BucketCounter.observe`. -/
def BucketCounter.observe (counter : BucketCounter) (resolution : LanguageResolution)
    (count : Nat) : BucketCounter :=
  incrementDisposition { counter with rowCount := counter.rowCount + count } resolution.disposition
    count

/-- One value of `_observe_language_batch`, with its count. -/
def observeValue (m : CaseMapping) (buckets : List (String × BucketCounter))
    (entry : Option String × Nat) : List (String × BucketCounter) :=
  let resolution := normalizeLanguage m (rawOf entry.1)
  let counter := (buckets.lookup resolution.partition).getD {}
  Dict.put Prod.fst (resolution.partition, counter.observe resolution entry.2) buckets

variable (scanner : Scanner R)

def observeLanguageBatch (buckets : List (String × BucketCounter)) (batch : List R) :
    List (String × BucketCounter) :=
  (scanner.arrow.languageCounts (batch.map scanner.languageOf)).foldl (observeValue scanner.m) buckets

/-- `_BATCH_SIZE`. -/
def inventoryBatchSize : Nat := 65536

/-- `_scan_language_file`, for the rows that the metadata of the file announces. -/
def scanLanguageFile (path : String) (rows : List R) (buckets : List (String × BucketCounter))
    (expectedRows : Nat) : Except String (List (String × BucketCounter)) :=
  let batches := scanner.reader.iterBatches inventoryBatchSize rows
  let observedRows := (batches.map List.length).sum
  if observedRows = expectedRows then .ok (batches.foldl (observeLanguageBatch scanner) buckets)
  else .error (s!"row count changed while scanning {path}: metadata={expectedRows}, " ++
    s!"observed={observedRows}")

/-- One file of `_read_artifact_rows`. -/
def readArtifactFile (read : Nat × List (String × BucketCounter)) (file : String × List R) :
    Except String (Nat × List (String × BucketCounter)) :=
  (scanLanguageFile scanner file.1 file.2 read.2 file.2.length).map
    (fun buckets => (read.1 + file.2.length, buckets))

def readArtifactRows (files : List (String × List R)) :
    Except String (Nat × List (String × BucketCounter)) :=
  files.foldlM (readArtifactFile scanner) (0, [])

structure LanguageBucket where
  language : String
  counter : BucketCounter

/-- The order of `_freeze_buckets`: `unknown` is last. -/
def BucketBefore (a b : String) : Prop :=
  (a ≠ unknownLanguage ∧ b = unknownLanguage)
    ∨ ((a = unknownLanguage ↔ b = unknownLanguage) ∧ a ≤ b)

instance : DecidableRel BucketBefore := fun _ _ => inferInstanceAs (Decidable (_ ∨ _))

/-- `_freeze_buckets`. -/
def freezeBuckets (counters : List (String × BucketCounter)) : List LanguageBucket :=
  (counters.insertionSort (fun a b => BucketBefore a.1 b.1)).map (fun entry => ⟨entry.1, entry.2⟩)

structure LanguageTableInventory where
  spec : LanguageTableSpec
  sourceFiles : List String
  rowCount : Nat
  buckets : List LanguageBucket

variable (root : ProcessedRoot R) (contract : DatasetContract)

/-- `_inventory_for_spec`, of a table with languages. -/
def inventoryForSpec (spec : LanguageTableSpec) : Except String (Option LanguageTableInventory) :=
  let files := root.files spec.table
  if files.isEmpty then
    if isRequired contract spec.table then
      .error (s!"Required {spec.table.value} artifacts are missing under " ++
        s!"{root.path}/{spec.relativeDir}")
    else .ok none
  else
    (readArtifactRows scanner files).map (fun (rowCount, buckets) =>
      some ⟨spec, files.map Prod.fst, rowCount, freezeBuckets buckets⟩)

/-- `build_language_inventory`: the inventories of the tables. -/
def buildLanguageInventory : Except String (List LanguageTableInventory) := do
  let inventories ← (languageTableSpecs contract).mapM (inventoryForSpec scanner root contract)
  let tables := inventories.filterMap id
  if tables.isEmpty then .error s!"No language-bearing artifacts found under {root.path}"
  else .ok tables

/-! ## What a counter counts -/

/-- All rows of a counter, or those of one disposition. -/
def BucketCounter.read (counter : BucketCounter) : Option LanguageDisposition → Nat
  | none => counter.rowCount
  | some .canonical => counter.canonicalRows
  | some .legacyAlias => counter.legacyAliasRows
  | some .missing => counter.missingRows
  | some .blank => counter.blankRows
  | some .malformed => counter.malformedRows
  | some .legacyUnusable => counter.legacyUnusableRows

/-- The values of a partition that a counter counts there. -/
def counted (m : CaseMapping) (language : String) (what : Option LanguageDisposition)
    (value : Option String) : Bool :=
  let resolution := normalizeLanguage m (rawOf value)
  resolution.partition = language && what.all (fun d => resolution.disposition = d)

theorem read_observe (counter : BucketCounter) (resolution : LanguageResolution) (count : Nat)
    (what : Option LanguageDisposition) :
    (counter.observe resolution count).read what = counter.read what
        + if what.all (fun d => resolution.disposition = d) then count else 0 := by
  obtain ⟨canonical, partition, disposition⟩ := resolution
  cases what with
  | none => cases disposition <;> rfl
  | some what => cases disposition <;> cases what <;> rfl

/-- The dictionary of counters after some values. -/
structure Observed (m : CaseMapping) (buckets : List (String × BucketCounter))
    (values : List (Option String)) : Prop where
  nodup : (buckets.map Prod.fst).Nodup
  isSome_iff : ∀ language,
    (buckets.lookup language).isSome = true ↔ ∃ value ∈ values, partitionName m value = language
  read_eq : ∀ language what,
    ((buckets.lookup language).getD {}).read what = values.countP (counted m language what)

section

variable {m : CaseMapping} {buckets : List (String × BucketCounter)} {values : List (Option String)}

theorem observed_nil : Observed m [] [] := by
  refine ⟨List.nodup_nil, by simp, fun language what => ?_⟩
  cases what with
  | none => rfl
  | some what => cases what <;> rfl

theorem Observed.perm {values' : List (Option String)} (h : Observed m buckets values)
    (hperm : values.Perm values') : Observed m buckets values' := by
  refine ⟨h.nodup, fun language => ?_, fun language what => ?_⟩
  · rw [h.isSome_iff]
    simp only [hperm.mem_iff]
  · rw [h.read_eq, hperm.countP_eq]

theorem Observed.observeValue (h : Observed m buckets values) {value : Option String} {count : Nat}
    (hcount : 0 < count) :
    Observed m (observeValue m buckets (value, count)) (values ++ List.replicate count value) := by
  have hlookup : ∀ language, (LanguageSplits.observeValue m buckets (value, count)).lookup language
      = if language = partitionName m value
        then some (((buckets.lookup (partitionName m value)).getD {}).observe
          (normalizeLanguage m (rawOf value)) count)
        else buckets.lookup language := fun language => Dict.lookup_put _ _ _ _
  refine ⟨?_, fun language => ?_, fun language what => ?_⟩
  · rw [LanguageSplits.observeValue, Dict.keys_put]
    split
    · exact h.nodup
    · rename_i hnew
      rw [← List.concat_eq_append]
      exact h.nodup.concat hnew
  · rw [hlookup]
    simp only [List.mem_append, List.mem_replicate]
    split
    · rename_i heq
      exact ⟨fun _ => ⟨value, Or.inr ⟨hcount.ne', rfl⟩, heq.symm⟩, fun _ => rfl⟩
    · rename_i hne
      rw [h.isSome_iff]
      constructor
      · rintro ⟨other, hother, heq⟩
        exact ⟨other, Or.inl hother, heq⟩
      · rintro ⟨other, hother | ⟨-, rfl⟩, heq⟩
        · exact ⟨other, hother, heq⟩
        · exact absurd heq.symm hne
  · rw [hlookup, List.countP_append, ← h.read_eq]
    split
    · rename_i heq
      rw [Option.getD_some, read_observe, heq, List.countP_replicate]
      congr 1
      show _ = if (decide (partitionName m value = partitionName m value) && _) = true then count else 0
      rw [decide_eq_true rfl, Bool.true_and]
    · rename_i hne
      have hnot : counted m language what value = false := by
        rw [counted, Bool.and_eq_false_iff]
        exact Or.inl (decide_eq_false (Ne.symm hne))
      rw [List.countP_replicate, hnot]
      rfl

theorem perm_flatMap_replicate {counts : List (Option String × Nat)} {column : List (Option String)}
    (hnodup : (counts.map Prod.fst).Nodup)
    (hcounts : ∀ value count, (value, count) ∈ counts
      ↔ value ∈ column ∧ count = column.count value) :
    (counts.flatMap (fun entry => List.replicate entry.2 entry.1)).Perm column := by
  have hcount : ∀ (counts : List (Option String × Nat)) value, (counts.map Prod.fst).Nodup →
      (counts.flatMap (fun entry => List.replicate entry.2 entry.1)).count value
        = (counts.lookup value).getD 0 := by
    intro counts value hnodup
    induction counts with
    | nil => rfl
    | cons entry counts ih =>
      obtain ⟨value', count⟩ := entry
      rw [List.map_cons, List.nodup_cons] at hnodup
      rw [List.flatMap_cons, List.count_append, ih hnodup.2, List.count_replicate,
        List.lookup_cons]
      by_cases h : value = value'
      · subst h
        have hnone : counts.lookup value = none := by
          rw [List.lookup_eq_none_iff]
          rintro ⟨other, count'⟩ hentry
          rw [bne_iff_ne]
          rintro rfl
          exact hnodup.1 (List.mem_map.mpr ⟨_, hentry, rfl⟩)
        simp [hnone]
      · have hne : ¬ value' = value := fun heq => h heq.symm
        have hbeq : (value == value') = false := beq_eq_false_iff_ne.mpr h
        simp [hbeq, hne]
  rw [List.perm_iff_count]
  intro value
  rw [hcount counts value hnodup]
  cases hlookup : counts.lookup value with
  | some count => exact ((hcounts value count).mp (mem_of_lookup_eq_some hlookup)).2
  | none =>
    have hnot : value ∉ column := by
      intro hvalue
      have hmem := (hcounts value _).mpr ⟨hvalue, rfl⟩
      rw [List.lookup_eq_none_iff] at hlookup
      simpa using hlookup _ hmem
    exact (List.count_eq_zero.mpr hnot).symm

theorem Observed.foldl (h : Observed m buckets values) {counts : List (Option String × Nat)}
    (hpos : ∀ entry ∈ counts, 0 < entry.2) :
    Observed m (counts.foldl (LanguageSplits.observeValue m) buckets)
      (values ++ counts.flatMap (fun entry => List.replicate entry.2 entry.1)) := by
  induction counts generalizing buckets values with
  | nil => simpa using h
  | cons entry counts ih =>
    obtain ⟨value, count⟩ := entry
    have hstep : Observed m (LanguageSplits.observeValue m buckets (value, count)) _ :=
      h.observeValue (hpos (value, count) List.mem_cons_self)
    have hnext := ih hstep fun entry hentry => hpos entry (List.mem_cons_of_mem _ hentry)
    rw [List.append_assoc] at hnext
    exact hnext

end

/-! ## What an inventory says -/

variable {scanner} {buckets : List (String × BucketCounter)} {values : List (Option String)}

/-- The partition of a row. -/
def Scanner.partitionOfRow (scanner : Scanner R) (row : R) : String :=
  partitionName scanner.m (scanner.languageOf row)

variable (hlawful : scanner.Lawful) (h : Observed scanner.m buckets values)

include hlawful h

theorem observeLanguageBatch_spec
    (batch : List R) : Observed scanner.m (observeLanguageBatch scanner buckets batch)
      (values ++ batch.map scanner.languageOf) := by
  have hpos : ∀ entry ∈ scanner.arrow.languageCounts (batch.map scanner.languageOf),
      0 < entry.2 := by
    intro entry hentry
    obtain ⟨hmem, hcount⟩ := (hlawful.arrow.languages_iff _ entry.1 entry.2).mp hentry
    rw [hcount]
    exact List.count_pos_iff.mpr hmem
  exact (h.foldl hpos).perm ((perm_flatMap_replicate (hlawful.arrow.languages_nodup _)
    (hlawful.arrow.languages_iff _)).append_left values)

theorem observeBatches_spec (batches : List (List R)) :
    Observed scanner.m (batches.foldl (observeLanguageBatch scanner) buckets)
      (values ++ batches.flatten.map scanner.languageOf) := by
  induction batches generalizing buckets values with
  | nil => simpa using h
  | cons batch batches ih =>
    have hnext := ih (observeLanguageBatch_spec hlawful h batch)
    rw [List.append_assoc, ← List.map_append] at hnext
    exact hnext

theorem scanLanguageFile_spec (path : String) (rows : List R) :
    ∃ buckets', scanLanguageFile scanner path rows buckets rows.length = .ok buckets'
      ∧ Observed scanner.m buckets' (values ++ rows.map scanner.languageOf) := by
  have hflatten := hlawful.reader.flatten inventoryBatchSize (by decide) rows
  have hrows : ((scanner.reader.iterBatches inventoryBatchSize rows).map List.length).sum
      = rows.length := by
    rw [← List.length_flatten, hflatten]
  refine ⟨_, if_pos hrows, ?_⟩
  have hspec := observeBatches_spec hlawful h (scanner.reader.iterBatches inventoryBatchSize rows)
  rwa [hflatten] at hspec

omit hlawful h

/-- The rows of the files, in the order of the files. -/
def rowsOfFiles (files : List (String × List R)) : List R := files.flatMap Prod.snd

theorem readArtifactRows_spec (hlawful : scanner.Lawful) (files : List (String × List R)) :
    ∃ buckets, readArtifactRows scanner files = .ok ((rowsOfFiles files).length, buckets)
      ∧ Observed scanner.m buckets ((rowsOfFiles files).map scanner.languageOf) := by
  unfold readArtifactRows rowsOfFiles
  induction files using List.reverseRecOn with
  | nil => exact ⟨[], rfl, observed_nil⟩
  | append_singleton files file ih =>
    obtain ⟨path, rows⟩ := file
    obtain ⟨buckets, hread, hobserved⟩ := ih
    obtain ⟨buckets', hscan, hobserved'⟩ := scanLanguageFile_spec hlawful hobserved path rows
    refine ⟨buckets', ?_, ?_⟩
    · rw [List.foldlM_append, hread, List.flatMap_append, List.length_append,
        List.flatMap_singleton]
      show readArtifactFile scanner (_, buckets) (path, rows) >>= pure = _
      rw [readArtifactFile, hscan]
      rfl
    · rw [List.flatMap_append, List.flatMap_singleton, List.map_append]
      exact hobserved'

theorem total_bucketBefore : Std.Total BucketBefore := by
  constructor
  intro a b
  unfold BucketBefore
  by_cases ha : a = unknownLanguage <;> by_cases hb : b = unknownLanguage
  · exact Or.inl (Or.inr ⟨by simp [ha, hb], (ha.trans hb.symm).le⟩)
  · exact Or.inr (Or.inl ⟨hb, ha⟩)
  · exact Or.inl (Or.inl ⟨ha, hb⟩)
  · rcases le_total a b with hle | hle
    · exact Or.inl (Or.inr ⟨by simp [ha, hb], hle⟩)
    · exact Or.inr (Or.inr ⟨by simp [ha, hb], hle⟩)

theorem trans_bucketBefore : IsTrans String BucketBefore := by
  constructor
  rintro a b c (⟨ha, hb⟩ | ⟨hiff, hle⟩) (⟨hb', hc⟩ | ⟨hiff', hle'⟩)
  · exact absurd hb hb'
  · exact Or.inl ⟨ha, hiff'.mp hb⟩
  · exact Or.inl ⟨fun h => hb' (hiff.mp h), hc⟩
  · exact Or.inr ⟨hiff.trans hiff', hle.trans hle'⟩

theorem map_language_freezeBuckets (buckets : List (String × BucketCounter)) :
    (freezeBuckets buckets).map LanguageBucket.language
      = (buckets.map Prod.fst).insertionSort BucketBefore := by
  rw [freezeBuckets, List.map_map]
  exact (List.map_insertionSort _ BucketBefore _ _ fun _ _ _ _ => Iff.rfl)

/-- What an inventory says of the files of its table. -/
structure Describes (scanner : Scanner R) (inventory : LanguageTableInventory)
    (files : List (String × List R)) : Prop where
  sourceFiles : inventory.sourceFiles = files.map Prod.fst
  rowCount : inventory.rowCount = (rowsOfFiles files).length
  ordered : (inventory.buckets.map LanguageBucket.language).Pairwise BucketBefore
  nodup : (inventory.buckets.map LanguageBucket.language).Nodup
  mem_iff : ∀ language, language ∈ inventory.buckets.map LanguageBucket.language
    ↔ ∃ row ∈ rowsOfFiles files, scanner.partitionOfRow row = language
  counts : ∀ bucket ∈ inventory.buckets, ∀ what, bucket.counter.read what
    = (rowsOfFiles files).countP (fun row => counted scanner.m bucket.language what
        (scanner.languageOf row))

theorem mem_freezeBuckets {bucket : LanguageBucket} (h : (buckets.map Prod.fst).Nodup) :
    bucket ∈ freezeBuckets buckets ↔ buckets.lookup bucket.language = some bucket.counter := by
  rw [lookup_eq_some_iff_mem h, freezeBuckets, List.mem_map]
  constructor
  · rintro ⟨entry, hentry, rfl⟩
    exact (List.perm_insertionSort _ _).mem_iff.mp hentry
  · exact fun hmem => ⟨_, (List.perm_insertionSort _ _).mem_iff.mpr hmem, rfl⟩

variable {files : List (String × List R)}

theorem describes_of_observed (spec : LanguageTableSpec)
    (h : Observed scanner.m buckets ((rowsOfFiles files).map scanner.languageOf)) :
    Describes scanner
      ⟨spec, files.map Prod.fst, (rowsOfFiles files).length, freezeBuckets buckets⟩ files := by
  have htotal := total_bucketBefore
  have htrans := trans_bucketBefore
  refine ⟨rfl, rfl, ?_, ?_, fun language => ?_, fun bucket hbucket what => ?_⟩
  · show ((freezeBuckets buckets).map LanguageBucket.language).Pairwise BucketBefore
    rw [map_language_freezeBuckets]
    exact List.pairwise_insertionSort _ _
  · show ((freezeBuckets buckets).map LanguageBucket.language).Nodup
    rw [map_language_freezeBuckets]
    exact (List.perm_insertionSort _ _).nodup_iff.mpr h.nodup
  · show language ∈ (freezeBuckets buckets).map LanguageBucket.language ↔ _
    have hkeys : language ∈ buckets.map Prod.fst ↔ (buckets.lookup language).isSome = true := by
      rw [List.lookup_isSome_iff, List.mem_map]
      exact exists_congr fun entry => and_congr_right fun _ => eq_comm.trans beq_iff_eq.symm
    rw [map_language_freezeBuckets, (List.perm_insertionSort _ _).mem_iff, hkeys, h.isSome_iff]
    simp only [List.mem_map, exists_exists_and_eq_and]
    rfl
  · have hread := h.read_eq bucket.language what
    rw [(mem_freezeBuckets h.nodup).mp hbucket, List.countP_map] at hread
    exact hread

variable {root : ProcessedRoot R} {contract : DatasetContract}

theorem inventoryForSpec_spec (hlawful : scanner.Lawful) {spec : LanguageTableSpec}
    {inventory : Option LanguageTableInventory}
    (h : inventoryForSpec scanner root contract spec = .ok inventory) :
    if root.files spec.table = [] then
      inventory = none ∧ isRequired contract spec.table = false
    else ∃ found, inventory = some found ∧ found.spec = spec
      ∧ Describes scanner found (root.files spec.table) := by
  unfold inventoryForSpec at h
  dsimp only at h
  split at h
  · rename_i hempty
    rw [if_pos (List.isEmpty_iff.mp hempty)]
    split at h
    · cases h
    · rename_i hrequired
      exact ⟨(Except.ok.inj h).symm, by simpa using hrequired⟩
  · rename_i hne
    obtain ⟨buckets, hread, hobserved⟩ := readArtifactRows_spec hlawful (root.files spec.table)
    rw [if_neg (fun hnil => hne (List.isEmpty_iff.mpr hnil))]
    rw [hread] at h
    exact ⟨_, (Except.ok.inj h).symm, rfl, describes_of_observed spec hobserved⟩

/-- **The inventory has the tables that have files**, and describes them. -/
theorem buildLanguageInventory_spec (hlawful : scanner.Lawful)
    {tables : List LanguageTableInventory}
    (h : buildLanguageInventory scanner root contract = .ok tables) :
    tables.map LanguageTableInventory.spec
        = (languageTableSpecs contract).filter (fun spec => root.files spec.table ≠ [])
      ∧ (∀ table ∈ tables, Describes scanner table (root.files table.spec.table))
      ∧ ∀ spec ∈ languageTableSpecs contract, isRequired contract spec.table = true →
        root.files spec.table ≠ [] := by
  obtain ⟨inventories, hinventories, h⟩ := bind_eq_ok.mp h
  have htables : inventories.filterMap id = tables := by
    dsimp only at h
    split at h
    · cases h
    · exact Except.ok.inj h
  have hall := mapM_eq_ok_iff.mp hinventories
  rw [← htables]
  clear h htables hinventories
  generalize languageTableSpecs contract = specs at hall ⊢
  induction hall with
  | nil => exact ⟨rfl, by simp, by simp⟩
  | @cons spec inventory specs inventories hspec _ ih =>
    have hfound := inventoryForSpec_spec hlawful hspec
    by_cases hnil : root.files spec.table = []
    · rw [if_pos hnil] at hfound
      obtain ⟨rfl, hoptional⟩ := hfound
      rw [List.filter_cons_of_neg (by simpa using hnil)]
      refine ⟨ih.1, ih.2.1, fun other hother hrequired => ?_⟩
      rcases List.mem_cons.mp hother with rfl | hother
      · rw [hoptional] at hrequired
        cases hrequired
      · exact ih.2.2 other hother hrequired
    · rw [if_neg hnil] at hfound
      obtain ⟨found, rfl, rfl, hdescribes⟩ := hfound
      rw [List.filter_cons_of_pos (by simpa using hnil)]
      refine ⟨congrArg (found.spec :: ·) ih.1, fun table htable => ?_,
        fun other hother hrequired => ?_⟩
      · rcases List.mem_cons.mp htable with rfl | htable
        · exact hdescribes
        · exact ih.2.1 table htable
      · rcases List.mem_cons.mp hother with rfl | hother
        · exact hnil
        · exact ih.2.2 other hother hrequired

/-! ## The rows of a language -/

/-- The languages of the rows. -/
def languagesOf (scanner : Scanner R) (rows : List R) : List String :=
  (rows.map scanner.partitionOfRow).eraseDups.insertionSort (· ≤ ·)

/-- The rows of a language, in the order of the source. -/
def rowsOf (scanner : Scanner R) (rows : List R) (language : String) : List R :=
  rows.filter (fun row => scanner.partitionOfRow row = language)

theorem mem_languagesOf {rows : List R} {language : String} :
    language ∈ languagesOf scanner rows ↔ rowsOf scanner rows language ≠ [] := by
  rw [languagesOf, (List.perm_insertionSort _ _).mem_iff, List.mem_eraseDups, List.mem_map, rowsOf,
    Ne, List.filter_eq_nil_iff]
  simp

theorem nodup_languagesOf (rows : List R) : (languagesOf scanner rows).Nodup :=
  (List.perm_insertionSort _ _).nodup_iff.mpr (nodup_eraseDups _)

theorem length_rowsOf (rows : List R) (language : String) : (rowsOf scanner rows language).length
      = rows.countP (fun row => counted scanner.m language none (scanner.languageOf row)) := by
  rw [rowsOf, ← List.countP_eq_length_filter]
  refine List.countP_congr fun row _ => ?_
  show decide _ = true ↔ (decide _ && true) = true
  rw [Bool.and_true]
  rfl

theorem Describes.rowCount_eq {inventory : LanguageTableInventory}
    (h : Describes scanner inventory files) {bucket : LanguageBucket}
    (hbucket : bucket ∈ inventory.buckets) :
    bucket.counter.rowCount = (rowsOf scanner (rowsOfFiles files) bucket.language).length :=
  (h.counts bucket hbucket none).trans (length_rowsOf _ _).symm

theorem Describes.rowsOf_ne_nil {inventory : LanguageTableInventory}
    (h : Describes scanner inventory files) (language : String) :
    language ∈ inventory.buckets.map LanguageBucket.language
      ↔ rowsOf scanner (rowsOfFiles files) language ≠ [] := by
  rw [h.mem_iff, rowsOf, Ne, List.filter_eq_nil_iff]
  simp

end OsmPolygonWikidata.LanguageSplits
