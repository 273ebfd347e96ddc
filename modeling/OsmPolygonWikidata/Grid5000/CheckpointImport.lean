import OsmPolygonWikidata.Sentences.Restart

/-! # Importing the checkpoint of a remote job

`import_checkpoint_tree` of `grid5000/sentence_protocol.py` copies the batches of a downloaded
checkpoint over the local ones, one after the other, and replaces the metadata last. Local batches
that the download does not have stay. The identities of the download and of the local metadata are
compared with the expected one; a local directory without metadata is taken as it is.

What a later local run makes of the directory is decided by the batches in it: a batch that is there
is joined to the table as it is (`resumes_iff`). So the run is right if the batches in place, and the
output hash that is recorded, stem from its section table (`imported_resumes_honestly`). A directory
without metadata can hold batches of another section table, because an import can be killed in front
of its metadata. The next import then puts its own metadata beside them (`stale_batch_joined`).
-/

namespace OsmPolygonWikidata.Grid5000

open Durable Durable.Prog Python OsmPolygonWikidata.Sentences

/-! ## The import -/

inductive ImportError where
  | unexpectedArtifact
  | missingMetadata
  | identityMismatch
  | batchesNotContiguous
  | invalidBatchSchema
  deriving DecidableEq

/-- A downloaded checkpoint directory. A batch that is no sentence table is `none`. -/
structure Incoming (H : Type) where
  metadata : Option (Metadata H)
  batches : AList (fun _ : Nat => Option (List SentenceRow))
  unexpected : Bool

section

variable {H : Type}

/-- `_validate_checkpoint_batches`: the tables, in the order of their numbers. -/
def validateCheckpointBatches (batches : AList (fun _ : Nat => Option (List SentenceRow))) :
    Except ImportError (List (List SentenceRow)) :=
  let indexes := batches.keys.insertionSort (· ≤ ·)
  if indexes ≠ List.range indexes.length then .error .batchesNotContiguous
  else indexes.mapM (fun i =>
    match batches.lookup i with
    | some (some table) => .ok table
    | _ => .error .invalidBatchSchema)

/-- The checks of `import_checkpoint_tree`. They return the metadata and the tables to install. -/
def acceptCheckpoint [DecidableEq H] (identity : Identity H) (incoming : Incoming H)
    (localMetadata : Option (Metadata H)) :
    Except ImportError (Metadata H × List (List SentenceRow)) :=
  if incoming.unexpected then .error .unexpectedArtifact
  else
    match incoming.metadata with
    | none => .error .missingMetadata
    | some metadata =>
      if metadata.identity ≠ identity then .error .identityMismatch
      else do
        let tables ← validateCheckpointBatches incoming.batches
        if localMetadata.any (fun m => m.identity ≠ identity) then .error .identityMismatch
        else return (metadata, tables)

/-- The copies of `_install_checkpoint_tree`, from number `index` on. -/
def installBatches : Nat → List (List SentenceRow) → Prog (Region H) ImportError Unit
  | _, [] => return ()
  | index, table :: tables => do
    step (fun region => { region with batches := region.batches.insert index table })
    installBatches (index + 1) tables

def importCheckpointTree [DecidableEq H] (identity : Identity H) (incoming : Incoming H) :
    Prog (Region H) ImportError (List Nat) := do
  let region ← get
  match acceptCheckpoint identity incoming region.metadata with
  | .error e => raise e
  | .ok (metadata, tables) =>
    installBatches 0 tables
    step (fun region => { region with metadata := some metadata })
    return List.range tables.length

theorem acceptCheckpoint_eq_ok_iff [DecidableEq H] {identity : Identity H} {incoming : Incoming H}
    {localMetadata : Option (Metadata H)} {metadata : Metadata H}
    {tables : List (List SentenceRow)} :
    acceptCheckpoint identity incoming localMetadata = .ok (metadata, tables)
      ↔ incoming.unexpected = false ∧ incoming.metadata = some metadata
        ∧ metadata.identity = identity ∧ validateCheckpointBatches incoming.batches = .ok tables
        ∧ ∀ m, localMetadata = some m → m.identity = identity := by
  unfold acceptCheckpoint
  constructor
  · intro h
    split at h
    · cases h
    rename_i hexpected
    split at h
    · cases h
    rename_i metadata' hmetadata
    split at h
    · cases h
    rename_i hidentity
    obtain ⟨tables', htables, h⟩ := bind_eq_ok.mp h
    split at h
    · cases h
    rename_i hlocal
    cases h
    refine ⟨Bool.eq_false_iff.mpr hexpected, hmetadata, not_not.mp hidentity, htables, ?_⟩
    intro m hm
    simpa [hm] using hlocal
  · rintro ⟨hexpected, hmetadata, hidentity, htables, hlocal⟩
    have hany : localMetadata.any (fun m => m.identity ≠ identity) = false := by
      cases localMetadata with
      | none => rfl
      | some m => simp [hlocal m rfl]
    rw [hexpected, hmetadata]
    simp only [Bool.false_eq_true, if_false, hidentity, ne_eq, not_true_eq_false, htables, hany]
    rfl

/-! ## What an import leaves -/

/-- The batch numbered `i` after `n` replacements. -/
def batchAfter (region : Region H) (tables : List (List SentenceRow)) (n i : Nat) :
    Option (List SentenceRow) :=
  if i < n then tables[i]?.or (region.batches.lookup i) else region.batches.lookup i

/-- The metadata after `n` replacements. -/
def metadataAfter (region : Region H) (metadata : Metadata H) (tables : List (List SentenceRow))
    (n : Nat) : Option (Metadata H) :=
  if tables.length < n then some metadata else region.metadata

/-- Killed in front of replacement `n`, or ended. -/
structure Imported (region : Region H) (metadata : Metadata H) (tables : List (List SentenceRow))
    (n : Nat) (region' : Region H) : Prop where
  batches : ∀ i, region'.batches.lookup i = batchAfter region tables n i
  metadata : region'.metadata = metadataAfter region metadata tables n
  output : region'.output = region.output

/-- The directory with the tables copied to the numbers from `index` on. -/
def installed : Nat → List (List SentenceRow) → Region H → Region H
  | _, [], region => region
  | index, table :: tables, region =>
    installed (index + 1) tables { region with batches := region.batches.insert index table }

theorem installed_metadata (index : Nat) (tables : List (List SentenceRow)) (region : Region H) :
    (installed index tables region).metadata = region.metadata
      ∧ (installed index tables region).output = region.output := by
  induction tables generalizing index region with
  | nil => exact ⟨rfl, rfl⟩
  | cons table tables ih => exact ih (index + 1) _

theorem lookup_installed (index : Nat) (tables : List (List SentenceRow)) (region : Region H)
    (i : Nat) :
    (installed index tables region).batches.lookup i
      = if index ≤ i then tables[i - index]?.or (region.batches.lookup i)
        else region.batches.lookup i := by
  induction tables generalizing index region with
  | nil => simp [installed]
  | cons table tables ih =>
    rw [installed, ih]
    rcases Nat.lt_trichotomy i index with hlt | rfl | hgt
    · have hne : i ≠ index := by omega
      rw [if_neg (by omega), if_neg (by omega)]
      exact AList.lookup_insert_ne hne
    · rw [if_neg (by omega), if_pos le_rfl, Nat.sub_self]
      simp [AList.lookup_insert]
    · have hne : i ≠ index := by omega
      have hsub : i - index = (i - (index + 1)) + 1 := by omega
      rw [if_pos (by omega), if_pos (by omega), hsub, List.getElem?_cons_succ]
      congr 1
      exact AList.lookup_insert_ne hne

theorem exec_installBatches {A : Type} (k : Prog (Region H) ImportError A) (index n : Nat)
    (tables : List (List SentenceRow)) (region : Region H) :
    exec (installBatches index tables >>= fun _ => k) n region
      = if n < tables.length then .killed (installed index (tables.take n) region)
        else exec k (n - tables.length) (installed index tables region) := by
  induction tables generalizing index n region with
  | nil => rfl
  | cons table tables ih =>
    cases n with
    | zero => rfl
    | succ n =>
      show exec (installBatches (index + 1) tables >>= fun _ => k) n
        { region with batches := region.batches.insert index table } = _
      rw [ih]
      simp only [List.length_cons, Nat.add_lt_add_iff_right, Nat.add_sub_add_right]
      rfl

theorem batchAfter_eq (region : Region H) (tables : List (List SentenceRow)) (n i : Nat) :
    (installed 0 (tables.take n) region).batches.lookup i = batchAfter region tables n i := by
  rw [lookup_installed, if_pos (Nat.zero_le i), Nat.sub_zero, batchAfter, List.getElem?_take]
  split
  · rfl
  · rfl

theorem imported [DecidableEq H] {identity : Identity H} {incoming : Incoming H} {region : Region H}
    {metadata : Metadata H} {tables : List (List SentenceRow)}
    (haccept : acceptCheckpoint identity incoming region.metadata = .ok (metadata, tables))
    (n : Nat) :
    Imported region metadata tables n
      (exec (importCheckpointTree identity incoming) n region).state := by
  have hread : exec (importCheckpointTree identity incoming) n region
      = exec (installBatches 0 tables >>= fun _ => (do
          step (fun region => { region with metadata := some metadata })
          return List.range tables.length)) n region := by
    rw [importCheckpointTree, exec_get_bind, haccept]
  rw [hread, exec_installBatches]
  have hall : ∀ n, tables.length ≤ n → ∀ i,
      (installed 0 tables region).batches.lookup i = batchAfter region tables n i := by
    intro n hn i
    rw [← batchAfter_eq, List.take_of_length_le hn]
  split
  · rename_i hlt
    refine ⟨batchAfter_eq region tables n, ?_, (installed_metadata 0 _ region).2⟩
    rw [metadataAfter, if_neg (by omega)]
    exact (installed_metadata 0 _ region).1
  · rename_i hge
    rcases Nat.eq_or_lt_of_le (Nat.le_of_not_lt hge) with heq | hlt
    · -- all batches are there, and the old metadata
      have hzero : n - tables.length = 0 := by omega
      rw [hzero]
      refine ⟨hall n (by omega), ?_, (installed_metadata 0 tables region).2⟩
      rw [metadataAfter, if_neg (by omega)]
      exact (installed_metadata 0 tables region).1
    · obtain ⟨k, hk⟩ : ∃ k, n - tables.length = k + 1 := ⟨n - tables.length - 1, by omega⟩
      rw [hk]
      refine ⟨hall n (by omega), ?_, (installed_metadata 0 tables region).2⟩
      rw [metadataAfter, if_pos hlt]
      rfl

end

/-! ## A run on any directory -/

section

variable {F H : Type} (files : SectionFiles F H) (sha256 : String → String)
variable (segmenter : Segmenter) (key : Key) (batchSize : Int) (file : F)

/-- The sentences of one batch of the section table. -/
def splitRows (rows : List SectionRow) : List SentenceRow :=
  match splitSections sha256 segmenter batchSize rows with
  | .ok (table, _) => table
  | .error _ => []

/-- The batches that a run joins when the directory has the given ones: those that are there, and
the sentences of the others. -/
def joinedBatches (batch : Nat → Option (List SentenceRow)) : List (List SentenceRow) :=
  (files.iterBatches batchSize file).zipIdx.map (fun entry =>
    (batch entry.2).getD (splitRows sha256 segmenter batchSize entry.1))

/-- The run of the sentence stage returns, and writes the sentences of the whole section table. -/
def Resumes [DecidableEq H] (glob : GlobOrder) (region : Region H) : Prop :=
  ∃ summary region' tables s,
    run (runProject glob files sha256 segmenter key batchSize (some file)) region
        = (.ok summary, region')
      ∧ region'.output = some tables
      ∧ splitSections sha256 segmenter batchSize (files.sections file) = .ok (tables.flatten, s)

/-- What a run makes of the directory: the recorded output is returned as it is, and else the
batches are joined. -/
def Trustworthy [DecidableEq H] (metadata : Option (Metadata H))
    (batch : Nat → Option (List SentenceRow)) (output : Option (List (List SentenceRow))) : Prop :=
  match metadata with
  | none => True
  | some m =>
    if recordedOutputMatches files key m ⟨none, ∅, output⟩ then
      m.summary.isSome ∧ ∃ tables s, output = some tables
        ∧ splitSections sha256 segmenter batchSize (files.sections file) = .ok (tables.flatten, s)
    else
      (∀ i, (files.iterBatches batchSize file).length ≤ i → batch i = none)
        ∧ ∃ s, splitSections sha256 segmenter batchSize (files.sections file)
          = .ok ((joinedBatches files sha256 segmenter batchSize file batch).flatten, s)

/-- The table holds the sentences of the batch numbered `i` of the section table. -/
def HonestBatch (i : Nat) (table : List SentenceRow) : Prop :=
  ∃ rows s, (files.iterBatches batchSize file)[i]? = some rows
    ∧ splitSections sha256 segmenter batchSize rows = .ok (table, s)

/-- The files in place stem from the section table: the hash that is recorded for the output, or
each of the batches. -/
def HonestFiles [DecidableEq H] (metadata : Option (Metadata H))
    (batch : Nat → Option (List SentenceRow)) (output : Option (List (List SentenceRow))) : Prop :=
  match metadata with
  | none => True
  | some m =>
    if recordedOutputMatches files key m ⟨none, ∅, output⟩ then
      m.summary.isSome ∧ ∃ tables s, m.outputHash = some (files.outputHash tables)
        ∧ splitSections sha256 segmenter batchSize (files.sections file) = .ok (tables.flatten, s)
    else ∀ i table, batch i = some table → HonestBatch files sha256 segmenter batchSize file i table

/-- The batches in place have as many rows as those of the section table have sentences. -/
def RowsFit (batch : Nat → Option (List SentenceRow)) : Prop :=
  ∀ i table rows, batch i = some table → (files.iterBatches batchSize file)[i]? = some rows →
    table.length = (splitRows sha256 segmenter batchSize rows).length

variable {files sha256 segmenter key batchSize file} {glob : GlobOrder}

theorem recordedOutputMatches_hash [DecidableEq H] {m : Metadata H} {region : Region H}
    (h : recordedOutputMatches files key m region = true) :
    ∃ output, region.output = some output ∧ m.outputHash = some (files.outputHash output) := by
  unfold recordedOutputMatches at h
  split at h
  · rename_i outputHash output hhash hout
    simp only [Bool.and_eq_true, decide_eq_true_eq] at h
    exact ⟨output, hout, by rw [hhash, h.2]⟩
  · cases h

theorem getElem?_joinedBatches (batch : Nat → Option (List SentenceRow)) (i : Nat) :
    (joinedBatches files sha256 segmenter batchSize file batch)[i]?
      = (files.iterBatches batchSize file)[i]?.map
        (fun rows => (batch i).getD (splitRows sha256 segmenter batchSize rows)) := by
  simp [joinedBatches, List.getElem?_zipIdx, Function.comp_def]

variable (files sha256 segmenter batchSize file) in
/-- A run that started in `start` has gone through `count` batches. -/
structure Joining (start : Region H) (count : Nat) (progress : Progress H) (region : Region H) :
    Prop where
  done : ∀ i < count, region.batches.lookup i
    = (joinedBatches files sha256 segmenter batchSize file start.batches.lookup)[i]?
  rest : ∀ i, count ≤ i → region.batches.lookup i = start.batches.lookup i
  rowCount : progress.rowCount = (contents region.batches count).flatten.length
  output : region.output = start.output

variable {f : String → String → List String} {start region : Region H}

variable (hf : PerText segmenter f) (hsize : 1 ≤ batchSize)
  (hcan : CanSplit files sha256 segmenter file batchSize)

include hf hsize hcan

variable {count : Nat} {progress : Progress H}

theorem processBatch_joins {rows : List SectionRow}
    (hrows : (files.iterBatches batchSize file)[count]? = some rows)
    (h : Joining files sha256 segmenter batchSize file start count progress region) :
    wp (Sentences.processBatch sha256 segmenter batchSize count rows progress)
      (Joining files sha256 segmenter batchSize file start (count + 1)) (fun _ _ => False)
      (fun _ => True) region := by
  obtain ⟨table, s, hsplit⟩ := hcan.batch hf hsize hrows
  have hjoined : (joinedBatches files sha256 segmenter batchSize file start.batches.lookup)[count]?
      = some ((start.batches.lookup count).getD table) := by
    have hrowsplit : splitRows sha256 segmenter batchSize rows = table := by rw [splitRows, hsplit]
    rw [getElem?_joinedBatches, hrows, Option.map_some, hrowsplit]
  have hstart := h.rest count le_rfl
  simp only [Sentences.processBatch, wp_bind, wp_get]
  cases hlookup : region.batches.lookup count with
  | some table' =>
    rw [hlookup] at hstart
    rw [← hstart] at hjoined
    refine ⟨fun i hi => ?_, fun i hi => h.rest i (by omega), ?_, h.output⟩
    · rcases Nat.lt_succ_iff_lt_or_eq.mp hi with hlt | rfl
      · exact h.done i hlt
      · rw [hlookup, hjoined]
        rfl
    · rw [contents_succ, hlookup, List.flatten_append, List.length_append, ← h.rowCount]
      simp
  | none =>
    rw [hlookup] at hstart
    rw [← hstart] at hjoined
    have hold : ∀ i, i ≠ count → (region.batches.insert count table).lookup i
        = region.batches.lookup i := fun i hi => AList.lookup_insert_ne hi
    simp only [hsplit, writeBatch, writeMetadata, wp_bind, wp_step, wp_pure]
    refine ⟨trivial, trivial, fun i hi => ?_, fun i hi => ?_, ?_, h.output⟩
    · rcases Nat.lt_succ_iff_lt_or_eq.mp hi with hlt | rfl
      · rw [hold i (by omega)]
        exact h.done i hlt
      · rw [AList.lookup_insert, hjoined]
        rfl
    · rw [hold i (by omega)]
      exact h.rest i (by omega)
    · rw [contents_succ, AList.lookup_insert, contents_congr (fun i hi => hold i (by omega)),
        List.flatten_append, List.length_append, ← h.rowCount]
      simp

theorem processSource_joins {batches : List (List SectionRow)}
    (hrest : (files.iterBatches batchSize file).drop count = batches)
    (h : Joining files sha256 segmenter batchSize file start count progress region) :
    wp (processSource sha256 segmenter batchSize batches count progress)
      (Joining files sha256 segmenter batchSize file start (count + batches.length))
      (fun _ _ => False) (fun _ => True) region := by
  induction batches generalizing count progress region with
  | nil => exact h
  | cons rows batches ih =>
    have hrows : (files.iterBatches batchSize file)[count]? = some rows := by
      have hhead := congrArg (fun l => l[0]?) hrest
      simpa [List.getElem?_drop] using hhead
    have hnext : (files.iterBatches batchSize file).drop (count + 1) = batches := by
      rw [← List.drop_drop, hrest]
      rfl
    simp only [processSource, wp_bind]
    refine wp_imp ?_ (processBatch_joins hf hsize hcan hrows h)
    intro progress' region' h'
    have hwp := ih hnext h'
    rwa [List.length_cons, Nat.add_comm batches.length, ← Nat.add_assoc]

omit hf hsize hcan

theorem Joining.contents_eq (h : Joining files sha256 segmenter batchSize file start
      (files.iterBatches batchSize file).length progress region) :
    contents region.batches (files.iterBatches batchSize file).length
      = joinedBatches files sha256 segmenter batchSize file start.batches.lookup := by
  have hlength : (joinedBatches files sha256 segmenter batchSize file start.batches.lookup).length
      = (files.iterBatches batchSize file).length := by simp [joinedBatches]
  apply List.ext_getElem?
  intro i
  by_cases hi : i < (files.iterBatches batchSize file).length
  · rw [getElem?_contents _ hi, h.done i hi, List.getElem?_eq_getElem (by omega)]
    rfl
  · rw [List.getElem?_eq_none (by simpa using hi), List.getElem?_eq_none (by omega)]

theorem Joining.isSome
    (h : Joining files sha256 segmenter batchSize file start count progress region)
    (hcount : count ≤ (files.iterBatches batchSize file).length) {i : Nat} (hi : i < count) :
    (region.batches.lookup i).isSome = true := by
  rw [h.done i hi, getElem?_joinedBatches, List.getElem?_eq_getElem (by omega)]
  rfl

theorem Joining.keys_perm_iff (h : Joining files sha256 segmenter batchSize file start
      (files.iterBatches batchSize file).length progress region) :
    region.batches.keys.Perm (List.range (files.iterBatches batchSize file).length)
      ↔ ∀ i, (files.iterBatches batchSize file).length ≤ i → start.batches.lookup i = none := by
  constructor
  · intro hperm i hi
    rw [← h.rest i hi]
    refine AList.lookup_eq_none.mpr (fun hin => ?_)
    have := List.mem_range.mp (hperm.subset hin)
    omega
  · intro hnone
    apply (List.perm_ext_iff_of_nodup region.batches.nodupKeys List.nodup_range).mpr
    intro i
    rw [List.mem_range]
    show i ∈ region.batches ↔ _
    rw [← AList.lookup_isSome]
    constructor
    · intro hsome
      by_contra hge
      rw [h.rest i (by omega), hnone i (by omega)] at hsome
      cases hsome
    · exact h.isSome le_rfl

theorem removePayloads_frame : wp (removePayloads glob)
      (fun _ region' => region'.metadata = region.metadata ∧ region'.output = region.output
        ∧ ∀ i, region'.batches.lookup i = none)
      (fun _ _ => False) (fun _ => True) region := by
  simp only [removePayloads, wp_bind, wp_get]
  refine wp_imp ?_ (removeAll_wp (K := fun _ => True) (fun _ _ _ => trivial) trivial)
  rintro _ region' ⟨hregion', -⟩
  rw [foldl_erase_batches] at hregion'
  subst hregion'
  exact ⟨rfl, rfl, lookup_erase_listed glob region.batches⟩

include hf hsize hcan

theorem splitSections_joinedBatches_none :
    ∃ s, splitSections sha256 segmenter batchSize (files.sections file)
      = .ok ((joinedBatches files sha256 segmenter batchSize file (fun _ => none)).flatten, s) := by
  rw [← files.flatten_iterBatches batchSize file hsize]
  refine ⟨_, (splitSections_flatten_iff hf hsize).mpr ⟨⟨_, ?_, rfl⟩, rfl⟩⟩
  apply List.forall₂_iff_get.mpr
  refine ⟨by simp [joinedBatches], fun i hi hi' => ?_⟩
  have hrows : (files.iterBatches batchSize file)[i]?
      = some ((files.iterBatches batchSize file).get ⟨i, hi⟩) := by simp [hi]
  obtain ⟨table, s, hsplit⟩ := hcan.batch hf hsize hrows
  refine ⟨s, ?_⟩
  have hget : (joinedBatches files sha256 segmenter batchSize file (fun _ => none)).get ⟨i, hi'⟩
      = splitRows sha256 segmenter batchSize ((files.iterBatches batchSize file).get ⟨i, hi⟩) := by
    have hjoined : (joinedBatches files sha256 segmenter batchSize file (fun _ => none))[i]?
        = some (splitRows sha256 segmenter batchSize
          ((files.iterBatches batchSize file).get ⟨i, hi⟩)) := by
      rw [getElem?_joinedBatches, hrows]
      rfl
    rw [List.getElem?_eq_getElem hi', Option.some.injEq] at hjoined
    exact hjoined
  rw [hget, splitRows, hsplit]

variable [DecidableEq H]

variable (hcount : (files.iterBatches batchSize file).length ≤ 10 ^ 8)

include hcount

theorem runCheckpoint_joins {m : Metadata H}
    (hrecorded : recordedOutputMatches files key m region = false) :
    wp (runCheckpoint glob files sha256 segmenter key batchSize file m)
      (fun _ region' => (∀ i, (files.iterBatches batchSize file).length ≤ i →
          region.batches.lookup i = none)
        ∧ ∃ tables, region'.output = some tables ∧ tables.flatten
          = (joinedBatches files sha256 segmenter batchSize file region.batches.lookup).flatten)
      (fun _ _ => ¬ ∀ i, (files.iterBatches batchSize file).length ≤ i →
        region.batches.lookup i = none)
      (fun _ => True) region := by
  have hstart : Joining files sha256 segmenter batchSize file region 0 ⟨m, .zero, 0⟩ region :=
    ⟨fun i hi => absurd hi (Nat.not_lt_zero i), fun _ _ => rfl, rfl, rfl⟩
  simp only [runCheckpoint, wp_bind, wp_get, hrecorded, Bool.false_eq_true, if_false]
  refine wp_safe ?_ (processSource_joins hf hsize hcan List.drop_zero hstart)
  intro progress region₁ h₁
  rw [Nat.zero_add] at h₁
  simp only [markComplete, wp_bind, wp_get]
  split
  · rename_i hnot
    intro hnone
    exact hnot (sortedIndexes_eq_range "batch-" (h₁.keys_perm_iff.mpr hnone) hcount)
  · rename_i hrange
    rw [ne_eq, not_not] at hrange
    have hperm : region₁.batches.keys.Perm (List.range (files.iterBatches batchSize file).length) := by
      rw [← hrange]
      exact (sortedIndexes_perm "batch-" region₁.batches).symm
    have hsum : ((completedBatches region₁).map (batchLength region₁)).sum = progress.rowCount := by
      rw [hrange, h₁.rowCount, List.length_flatten, contents, List.map_map]
      rfl
    rw [if_neg (by simpa using hsum)]
    simp only [writeMetadata, wp_bind, wp_step, wp_pure, writeOutput, wp_get]
    refine ⟨trivial, ?_⟩
    obtain ⟨tables, htables, hflat⟩ := checkpointTables_ok
      { region₁ with metadata := some { progress.metadata with
        complete := true
        batchCount := (files.iterBatches batchSize file).length
        rowCount := progress.rowCount } }
      (fun i hi => h₁.isSome le_rfl (List.mem_range.mp hi))
    rw [htables]
    simp only [wp_step, finalize, if_true, writeMetadata, wp_bind, wp_pure]
    refine ⟨trivial, trivial, ?_⟩
    refine wp_safe ?_ removePayloads_frame
    rintro - region₂ ⟨-, hout, -⟩
    refine ⟨h₁.keys_perm_iff.mp hperm, tables, hout, ?_⟩
    rw [hflat, ← h₁.contents_eq]
    rfl

variable (hschema : files.schemaMatches file = true)

include hschema

omit hf hcan hcount in
theorem runProject_eq : runProject glob files sha256 segmenter key batchSize (some file)
    = prepare glob (identityOf files segmenter key batchSize file)
      >>= runCheckpoint glob files sha256 segmenter key batchSize file := by
  rw [runProject, if_pos hschema, newCheckpoint, if_neg (by simpa [identityOf] using hsize)]

/-- Without metadata a run removes the files first, and starts over. -/
theorem resumes_of_no_metadata (hmetadata : region.metadata = none) :
    Resumes files sha256 segmenter key batchSize file glob region := by
  have hwp : wp (runProject glob files sha256 segmenter key batchSize (some file))
      (fun _ region' => ∃ tables, region'.output = some tables ∧ tables.flatten
        = (joinedBatches files sha256 segmenter batchSize file (fun _ => none)).flatten)
      (fun _ _ => False) (fun _ => True) region := by
    simp only [runProject_eq hsize hschema, prepare, wp_bind, wp_get, hmetadata, Option.map_none,
      reduceCtorEq, if_false, writeMetadata, wp_step, wp_pure]
    refine wp_imp ?_ removePayloads_frame
    rintro - region₁ ⟨-, -, hempty⟩
    have hlookup : region₁.batches.lookup = fun _ => none := funext hempty
    refine ⟨trivial, wp_mono ?_ (fun _ _ h => h fun i _ => hempty i) (fun _ h => h)
      (runCheckpoint_joins hf hsize hcan hcount rfl)⟩
    rintro - region₂ ⟨-, tables, hout, hflat⟩
    refine ⟨tables, hout, hflat.trans ?_⟩
    simp only [hlookup]
  obtain ⟨summary, region', hrun, tables, hout, hflat⟩ := wp_returns hwp
  obtain ⟨s, hs⟩ := splitSections_joinedBatches_none hf hsize hcan
  exact ⟨summary, region', tables, s, hrun, hout, by rw [hflat]; exact hs⟩

variable (glob) in
/-- **A run on any directory.** It returns the sentences of the section table exactly when the
directory is trustworthy. -/
theorem resumes_iff (hid : ∀ m, region.metadata = some m →
      m.identity = identityOf files segmenter key batchSize file) :
    Resumes files sha256 segmenter key batchSize file glob region
      ↔ Trustworthy files sha256 segmenter key batchSize file region.metadata
        region.batches.lookup region.output := by
  cases hmetadata : region.metadata with
  | none => exact iff_of_true (resumes_of_no_metadata hf hsize hcan hcount hschema hmetadata) trivial
  | some m =>
    have hprepare : run (prepare glob (identityOf files segmenter key batchSize file)) region
        = (.ok m, region) := by
      simp only [prepare, run_bind, run_get, hmetadata, Option.map_some, hid m hmetadata,
        if_true, run_pure, Option.getD_some]
    unfold Resumes Trustworthy
    rw [runProject_eq hsize hschema, run_bind_ok hprepare]
    dsimp only
    split
    · rename_i hrecorded
      have hrun : run (runCheckpoint glob files sha256 segmenter key batchSize file m) region
          = (m.summary.elim (.error .noSummary) .ok, region) := by
        have hrecorded' : recordedOutputMatches files key m region = true := hrecorded
        simp only [runCheckpoint, run_bind, run_get, hrecorded', if_true]
        cases m.summary <;> rfl
      rw [hrun]
      cases m.summary with
      | none => simp
      | some summary => simp
    · rename_i hrecorded
      have hjoins : wp (runCheckpoint glob files sha256 segmenter key batchSize file m) _ _ _
          region := runCheckpoint_joins hf hsize hcan hcount (Bool.eq_false_iff.mpr hrecorded)
      have hwp := wp_run hjoins
      constructor
      · rintro ⟨summary, region', tables, s, hrun, hout, hs⟩
        rw [hrun] at hwp
        obtain ⟨hnone, tables', hout', hflat⟩ := hwp
        rw [hout, Option.some.injEq] at hout'
        subst hout'
        exact ⟨hnone, s, by rw [← hflat]; exact hs⟩
      · rintro ⟨hnone, s, hs⟩
        cases hrun : run (runCheckpoint glob files sha256 segmenter key batchSize file m) region with
        | mk result region' =>
          rw [hrun] at hwp
          cases result with
          | error e => exact absurd hnone hwp
          | ok summary =>
            obtain ⟨-, tables, hout, hflat⟩ := hwp
            exact ⟨summary, region', tables, s, rfl, hout, by rw [hflat]; exact hs⟩

/-! ## After an import -/

variable {incoming : Incoming H} {metadata : Metadata H} {tables : List (List SentenceRow)}
  (haccept : acceptCheckpoint (identityOf files segmenter key batchSize file) incoming
    region.metadata = .ok (metadata, tables))

include haccept

variable (glob) in
/-- **A run after an import** that was killed anywhere, or ended. The local directory and the
download are arbitrary. -/
theorem imported_resumes_iff (n : Nat) :
    Resumes files sha256 segmenter key batchSize file glob
        (exec (importCheckpointTree (identityOf files segmenter key batchSize file) incoming) n
          region).state
      ↔ Trustworthy files sha256 segmenter key batchSize file
        (metadataAfter region metadata tables n) (batchAfter region tables n) region.output := by
  have himported := imported haccept n
  obtain ⟨-, -, hincoming, -, hlocal⟩ := acceptCheckpoint_eq_ok_iff.mp haccept
  rw [resumes_iff glob hf hsize hcan hcount hschema, himported.metadata, himported.output,
    funext himported.batches]
  intro m hm
  rw [himported.metadata, metadataAfter] at hm
  split at hm
  · cases hm
    exact hincoming
  · exact hlocal m hm

/-! ## Honest files -/

omit hf hsize hcan hcount hschema haccept

omit [DecidableEq H] in
/-- Batches in place that are honest are joined as if they were missing. -/
theorem joinedBatches_of_honest {batch : Nat → Option (List SentenceRow)}
    (h : ∀ i table, batch i = some table → HonestBatch files sha256 segmenter batchSize file i table) :
    joinedBatches files sha256 segmenter batchSize file batch
      = joinedBatches files sha256 segmenter batchSize file (fun _ => none) := by
  apply List.ext_getElem?
  intro i
  rw [getElem?_joinedBatches, getElem?_joinedBatches]
  refine Option.map_congr fun rows hrows => ?_
  cases hbatch : batch i with
  | none => rfl
  | some table =>
    obtain ⟨rows', s, hrows', hsplit⟩ := h i table hbatch
    obtain rfl := Option.some.inj (hrows.symm.trans hrows')
    rw [Option.getD_some, Option.getD_none, splitRows, hsplit]

variable {output : Option (List (List SentenceRow))} {batch : Nat → Option (List SentenceRow)}

include hf hsize hcan

omit [DecidableEq H] in
/-- Of the right lengths, the batches in place can only be joined to the sentences of the section
table if each is honest. -/
theorem honest_of_joinedBatches (hfit : RowsFit files sha256 segmenter batchSize file batch)
    (hbeyond : ∀ i, (files.iterBatches batchSize file).length ≤ i → batch i = none)
    (hjoined : (joinedBatches files sha256 segmenter batchSize file batch).flatten
      = (joinedBatches files sha256 segmenter batchSize file (fun _ => none)).flatten)
    {i : Nat} {table : List SentenceRow} (hi : batch i = some table) :
    HonestBatch files sha256 segmenter batchSize file i table := by
  have hlengths : (joinedBatches files sha256 segmenter batchSize file batch).map List.length
      = (joinedBatches files sha256 segmenter batchSize file (fun _ => none)).map List.length := by
    apply List.ext_getElem?
    intro j
    rw [List.getElem?_map, List.getElem?_map, getElem?_joinedBatches, getElem?_joinedBatches,
      Option.map_map, Option.map_map]
    refine Option.map_congr fun rows hrows => ?_
    cases hbatch : batch j with
    | none => simp
    | some table' => simpa [hbatch] using hfit j table' rows hbatch hrows
  have hsame := List.eq_iff_flatten_eq.mpr ⟨hjoined, hlengths⟩
  have hlt : i < (files.iterBatches batchSize file).length := by
    by_contra hge
    rw [hbeyond i (by omega)] at hi
    cases hi
  have hrows := List.getElem?_eq_getElem hlt
  obtain ⟨table', s, hsplit⟩ := hcan.batch hf hsize hrows
  have hget := congrArg (fun l => l[i]?) hsame
  simp only [getElem?_joinedBatches, hrows, hi, Option.map_some, Option.getD_some,
    Option.getD_none, Option.some.injEq, splitRows, hsplit] at hget
  exact ⟨_, s, hrows, by rw [hget]; exact hsplit⟩

theorem trustworthy_of_honestFiles (hoh : Function.Injective files.outputHash)
    {metadata : Option (Metadata H)}
    (h : HonestFiles files sha256 segmenter key batchSize file metadata batch output) :
    Trustworthy files sha256 segmenter key batchSize file metadata batch output := by
  unfold HonestFiles at h
  unfold Trustworthy
  cases metadata with
  | none => trivial
  | some m =>
    dsimp only at h ⊢
    split
    · rename_i hrecorded
      rw [if_pos hrecorded] at h
      obtain ⟨hsummary, tables, s, hhash, hsplit⟩ := h
      obtain ⟨output', hout, hsame⟩ := recordedOutputMatches_hash hrecorded
      rw [hhash, Option.some.injEq] at hsame
      refine ⟨hsummary, tables, s, ?_, hsplit⟩
      rw [hoh hsame]
      exact hout
    · rename_i hrecorded
      rw [if_neg hrecorded] at h
      refine ⟨fun i hi => ?_, ?_⟩
      · by_contra hsome
        obtain ⟨table, htable⟩ := Option.ne_none_iff_exists'.mp hsome
        obtain ⟨rows, -, hrows, -⟩ := h i table htable
        rw [List.getElem?_eq_none hi] at hrows
        cases hrows
      · rw [joinedBatches_of_honest h]
        exact splitSections_joinedBatches_none hf hsize hcan

theorem honestFiles_of_trustworthy {metadata : Option (Metadata H)}
    (hfit : RowsFit files sha256 segmenter batchSize file batch)
    (h : Trustworthy files sha256 segmenter key batchSize file metadata batch output) :
    HonestFiles files sha256 segmenter key batchSize file metadata batch output := by
  unfold Trustworthy at h
  unfold HonestFiles
  cases metadata with
  | none => trivial
  | some m =>
    dsimp only at h ⊢
    split
    · rename_i hrecorded
      rw [if_pos hrecorded] at h
      obtain ⟨hsummary, tables, s, hout, hsplit⟩ := h
      obtain ⟨output', hout', hhash⟩ := recordedOutputMatches_hash hrecorded
      obtain rfl := Option.some.inj (hout.symm.trans hout')
      exact ⟨hsummary, tables, s, hhash, hsplit⟩
    · rename_i hrecorded
      rw [if_neg hrecorded] at h
      obtain ⟨hbeyond, s, hjoined⟩ := h
      obtain ⟨s', hnone⟩ := splitSections_joinedBatches_none hf hsize hcan
      have hflat := congrArg Prod.fst (Except.ok.inj (hjoined.symm.trans hnone))
      exact fun i table hi => honest_of_joinedBatches hf hsize hcan hfit hbeyond hflat hi

include hcount hschema haccept

variable (glob) in
/-- **Honest imports.** After an import into any local directory, killed anywhere or ended, the next
run returns the sentences of the section table if the files that are in place then stem from it;
where the batches in place have the lengths of those of the section table, only then. -/
theorem imported_resumes_honestly (hoh : Function.Injective files.outputHash) (n : Nat) :
    (HonestFiles files sha256 segmenter key batchSize file
        (metadataAfter region metadata tables n) (batchAfter region tables n) region.output →
      Resumes files sha256 segmenter key batchSize file glob
        (exec (importCheckpointTree (identityOf files segmenter key batchSize file) incoming) n
          region).state)
    ∧ (RowsFit files sha256 segmenter batchSize file (batchAfter region tables n) →
      (Resumes files sha256 segmenter key batchSize file glob
          (exec (importCheckpointTree (identityOf files segmenter key batchSize file) incoming) n
            region).state
        ↔ HonestFiles files sha256 segmenter key batchSize file
          (metadataAfter region metadata tables n) (batchAfter region tables n) region.output)) := by
  have hiff := imported_resumes_iff glob hf hsize hcan hcount hschema haccept n
  have hsound : HonestFiles files sha256 segmenter key batchSize file
        (metadataAfter region metadata tables n) (batchAfter region tables n) region.output →
      Trustworthy files sha256 segmenter key batchSize file
        (metadataAfter region metadata tables n) (batchAfter region tables n) region.output :=
    trustworthy_of_honestFiles hf hsize hcan hoh
  refine ⟨fun h => hiff.mpr (hsound h), fun hfit => ⟨fun h => ?_, fun h => hiff.mpr (hsound h)⟩⟩
  exact honestFiles_of_trustworthy hf hsize hcan hfit (hiff.mp h)

omit hf hsize hcan hcount hschema haccept in
/-- Checkpoints that runs of the sentence stage have left are imported faithfully, if the local one
has metadata or no batches. -/
theorem honest_import_resumes (hf : PerText segmenter f)
    (hfp : Function.Injective files.fingerprint) (hoh : Function.Injective files.outputHash)
    (hschema : files.schemaMatches file = true) (hsize : 1 ≤ batchSize)
    (hcan : CanSplit files sha256 segmenter file batchSize)
    (hcount : (files.iterBatches batchSize file).length ≤ 10 ^ 8) {incoming : Incoming H}
    {metadata : Metadata H} {tables : List (List SentenceRow)}
    (haccept : acceptCheckpoint (identityOf files segmenter key batchSize file) incoming
      region.metadata = .ok (metadata, tables))
    (hlocal : RegionOk files sha256 segmenter key region)
    (hempty : region.metadata = none → ∀ i, region.batches.lookup i = none)
    (hincoming : ∀ (i : Nat) table, tables[i]? = some table → ∃ rows s,
      (files.iterBatches batchSize file)[i]? = some rows
        ∧ splitSections sha256 segmenter batchSize rows = .ok (table, s))
    (houtput : ∀ h, metadata.outputHash = some h → ∃ tables s, h = files.outputHash tables
      ∧ splitSections sha256 segmenter batchSize (files.sections file) = .ok (tables.flatten, s)
      ∧ metadata.summary = some (regionSummary key s)) (n : Nat) :
    Resumes files sha256 segmenter key batchSize file glob
      (exec (importCheckpointTree (identityOf files segmenter key batchSize file) incoming) n
        region).state := by
  obtain ⟨-, -, -, -, hidentity⟩ := acceptCheckpoint_eq_ok_iff.mp haccept
  -- the section table that the local metadata names is this one
  have hlocal' : ∀ m, region.metadata = some m →
      Belongs files sha256 segmenter key file batchSize m region.batches := by
    intro m hm
    obtain ⟨file', batchSize', hb⟩ := hlocal m hm
    have hsame := hb.identity.symm.trans (hidentity m hm)
    obtain rfl : file' = file := hfp (congrArg Identity.inputFingerprint hsame)
    obtain rfl : batchSize' = batchSize := congrArg Identity.batchSize hsame
    exact hb
  have hold : ∀ i table, region.batches.lookup i = some table →
      HonestBatch files sha256 segmenter batchSize file i table := by
    intro i table hi
    cases hm : region.metadata with
    | none =>
      rw [hempty hm i] at hi
      cases hi
    | some m => exact (hlocal' m hm).batch i table hi
  refine (imported_resumes_iff glob hf hsize hcan hcount hschema haccept n).mpr
    (trustworthy_of_honestFiles hf hsize hcan hoh ?_)
  unfold HonestFiles
  split
  · trivial
  · rename_i m hm
    split
    · rename_i hmatches
      obtain ⟨output, -, hhash⟩ := recordedOutputMatches_hash hmatches
      have houtput' : ∃ tables s, files.outputHash output = files.outputHash tables
          ∧ splitSections sha256 segmenter batchSize (files.sections file)
            = .ok (tables.flatten, s)
          ∧ m.summary = some (regionSummary key s) := by
        rw [metadataAfter] at hm
        split at hm
        · cases hm
          exact houtput _ hhash
        · exact (hlocal' m hm).output _ hhash
      obtain ⟨tables', s, heq, hsplit, hsummary⟩ := houtput'
      exact ⟨by rw [hsummary]; rfl, tables', s, by rw [hhash, heq], hsplit⟩
    · intro i table hi
      rw [batchAfter] at hi
      split at hi
      · rcases Option.or_eq_some_iff.mp hi with hnew | ⟨-, hi⟩
        · exact hincoming i table hnew
        · exact hold i table hi
      · exact hold i table hi

end

/-! ## A killed import and another section table -/

namespace CheckpointImport.Example

open Sentences.Example

/-- The section table of the first job, and the one it was replaced by. -/
def oldTable : List SectionRow := [row "s1" "en" "Old one.", row "s2" "en" "Old two."]

def newTable : List SectionRow := [row "s1" "en" "New one.", row "s2" "en" "New two."]

def identity (table : List SectionRow) : Identity (List SectionRow ⊕ List (List SentenceRow)) :=
  identityOf files (segmenter "1") key 1 table

/-- A downloaded checkpoint with the first batches of a table. -/
def download (table : List SectionRow) (batches : List (List SectionRow)) :
    Incoming (List SectionRow ⊕ List (List SentenceRow)) where
  metadata := some (initialMetadata (identity table))
  batches := batches.zipIdx.foldl (fun files entry =>
    files.insert entry.2 (some (splitRows id (segmenter "1") 1 entry.1))) ∅
  unexpected := false

/-- The import of the first job, killed in front of its metadata. -/
def killedImport : Region (List SectionRow ⊕ List (List SentenceRow)) :=
  (exec (importCheckpointTree (identity oldTable) (download oldTable (slices 1 oldTable))) 2
    (Region.empty _)).state

/-- The import of the second job, which had got to its first batch. -/
def secondImport : Region (List SectionRow ⊕ List (List SentenceRow)) :=
  (exec (importCheckpointTree (identity newTable) (download newTable [newTable.take 1])) 2
    killedImport).state

theorem canSplit_newTable : CanSplit files id (segmenter "1") newTable 1 :=
  ⟨_, (splitSections_ok_iff (perText "1") le_rfl).mpr ⟨⟨_, forall₂_sectionRows_iff.mpr ⟨by
      intro row hrow
      fin_cases hrow
      · exact ⟨_, rfl⟩
      · exact ⟨_, rfl⟩, rfl⟩, rfl⟩, rfl⟩⟩

/-- A local directory with the first batch of the new table. -/
def halfDone : Region (List SectionRow ⊕ List (List SentenceRow)) :=
  (exec (importCheckpointTree (identity newTable) (download newTable [newTable.take 1])) 2
    (Region.empty _)).state

/-- A download with all batches, copied over the first one and killed in front of its metadata. -/
theorem halfDone_import_resumes : Resumes files id (segmenter "1") key 1 newTable glob
      (exec (importCheckpointTree (identity newTable) (download newTable (slices 1 newTable))) 2
        halfDone).state := by
  have haccept : acceptCheckpoint (identity newTable) (download newTable (slices 1 newTable))
      halfDone.metadata = .ok (initialMetadata (identity newTable),
        (slices 1 newTable).map (splitRows id (segmenter "1") 1)) := by decide +kernel
  refine (imported_resumes_honestly glob (perText "1") le_rfl canSplit_newTable (by decide +kernel)
    rfl haccept Sum.inr_injective 2).1 ?_
  intro i table hi
  match i with
  | 0 =>
    cases hi
    exact ⟨[row "s1" "en" "New one."], _, rfl, rfl⟩
  | 1 =>
    cases hi
    exact ⟨[row "s2" "en" "New two."], _, rfl, rfl⟩
  | i + 2 =>
    have hnone : batchAfter halfDone ((slices 1 newTable).map (splitRows id (segmenter "1") 1)) 2
        (i + 2) = none := by
      rw [batchAfter, if_neg (by omega)]
      rfl
    rw [hnone] at hi
    cases hi

/-- An import into an empty directory, killed in front of its metadata. -/
theorem killed_import_resumes : Resumes files id (segmenter "1") key 1 newTable glob
      (exec (importCheckpointTree (identity newTable) (download newTable [newTable.take 1])) 1
        (Region.empty _)).state := by
  have haccept : acceptCheckpoint (identity newTable) (download newTable [newTable.take 1])
      (Region.empty (List SectionRow ⊕ List (List SentenceRow))).metadata
        = .ok (initialMetadata (identity newTable),
          [splitRows id (segmenter "1") 1 (newTable.take 1)]) := by decide +kernel
  refine honest_import_resumes (perText "1") Sum.inl_injective Sum.inr_injective rfl le_rfl
    canSplit_newTable (by decide +kernel) haccept (fun m hm => by cases hm) (fun _ _ => rfl)
    (fun i table hi => ?_) (fun h hh => by cases hh) 1
  cases i with
  | zero =>
    cases hi
    exact ⟨newTable.take 1, _, rfl, rfl⟩
  | succ i => cases hi

/-- The second import accepts the leftover of the first one, and the next run joins a batch of the
old table to the new one. -/
theorem stale_batch_joined :
    (acceptCheckpoint (identity oldTable) (download oldTable (slices 1 oldTable)) none).toBool = true
      ∧ (acceptCheckpoint (identity newTable) (download newTable [newTable.take 1])
        killedImport.metadata).toBool = true
      ∧ CanSplit files id (segmenter "1") newTable 1
      ∧ ¬ Resumes files id (segmenter "1") key 1 newTable glob secondImport := by
  refine ⟨by decide +kernel, by decide +kernel, canSplit_newTable, ?_⟩
  rintro ⟨summary, region', tables, s, hrun, hout, hs⟩
  have hwritten : (run (runProject glob files id (segmenter "1") key 1 (some newTable))
      secondImport).2.output.map (fun tables => tables.flatten.map SentenceRow.text)
        = some ["New one.", "Old two."] := by decide +kernel
  have hsplit : (splitSections id (segmenter "1") 1 newTable).toOption.map
      (fun result => result.1.map SentenceRow.text) = some ["New one.", "New two."] := by
    decide +kernel
  rw [hrun] at hwritten
  have hs' : splitSections id (segmenter "1") 1 newTable = .ok (tables.flatten, s) := hs
  simp [hout] at hwritten
  simp [hs', Except.toOption] at hsplit
  rw [hwritten] at hsplit
  simp at hsplit

end CheckpointImport.Example

end OsmPolygonWikidata.Grid5000
