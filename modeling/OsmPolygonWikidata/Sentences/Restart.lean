import OsmPolygonWikidata.Sentences.Runner
import OsmPolygonWikidata.Sentences.Splitting

/-! # Restarted sentence runs

Whatever is in a checkpoint directory belongs to the identity its metadata names: the batches are
the rows of the batches of that section table, and a recorded digest is the digest of a finished
sentence table. Runs keep this invariant at every kill (`runProject_wp`), also runs for another
section table or batch size, because a reset removes all batches before it writes the new
identity.
-/

namespace OsmPolygonWikidata.Sentences

open Durable
open Prog (wp wp_bind wp_exec wp_get wp_imp wp_mono wp_pure wp_run wp_safe wp_step)

/-! ## Counting -/

/-- The summary of a key, from what `split_sections` reports. -/
def regionSummary (key : Key) (s : SplitSummary) : RegionSummary :=
  { s with stem := key.stem, project := key.project.name }

theorem Counters.addSections_append (c : Counters) (rows rows' : List SectionRow) :
    c.addSections (rows ++ rows') = (c.addSections rows).addSections rows' :=
  List.foldl_append

theorem Counters.addSections_eq (c : Counters) (rows : List SectionRow) : c.addSections rows =
      { sections := c.sections + rows.length
        splitSections := c.splitSections
          + rows.countP (fun row => isSatSupportedLanguage row.language)
        unsplitSections := c.unsplitSections
          + rows.countP (fun row => !isSatSupportedLanguage row.language)
        supportedLanguages := c.supportedLanguages
          ++ (rows.filter (fun row => isSatSupportedLanguage row.language)).map SectionRow.language
        unsupportedLanguages := c.unsupportedLanguages
          ++ (rows.filter (fun row => !isSatSupportedLanguage row.language)).map
            SectionRow.language } := by
  induction rows generalizing c with
  | nil => simp [Counters.addSections]
  | cons row rows ih =>
    have hstep : c.addSections (row :: rows) = (c.addSection row).addSections rows := rfl
    rw [hstep, ih, Counters.addSection]
    cases hrow : isSatSupportedLanguage row.language <;>
      simp [hrow, Nat.add_comm, Nat.add_left_comm, Nat.add_assoc]

theorem Counters.summary_eq (rows : List SectionRow) (n : Nat) (key : Key) :
    (Counters.zero.addSections rows).summary n key = regionSummary key (summaryOf rows n) := by
  rw [Counters.addSections_eq]
  simp [Counters.zero, Counters.summary, regionSummary, summaryOf]

/-! ## What is in the directory -/

section

variable {F H : Type} (files : SectionFiles F H) (sha256 : String → String)
variable (segmenter : Segmenter) (key : Key)

/-- The batches and the metadata belong to one section table and batch size. -/
structure Belongs (file : F) (batchSize : Int) (m : Metadata H)
    (batches : AList (fun _ : Nat => List SentenceRow)) : Prop where
  identity : m.identity = identityOf files segmenter key batchSize file
  positive : 1 ≤ batchSize
  batch : ∀ i table, batches.lookup i = some table →
    ∃ rows s, (files.iterBatches batchSize file)[i]? = some rows
      ∧ splitSections sha256 segmenter batchSize rows = .ok (table, s)
  output : ∀ h, m.outputHash = some h → ∃ tables s, h = files.outputHash tables
    ∧ splitSections sha256 segmenter batchSize (files.sections file) = .ok (tables.flatten, s)
    ∧ m.summary = some (regionSummary key s)

/-- The invariant of the directory. -/
def RegionOk (region : Region H) : Prop :=
  ∀ m, region.metadata = some m →
    ∃ file batchSize, Belongs files sha256 segmenter key file batchSize m region.batches

variable {files sha256 segmenter key}

variable {batchSize : Int} {file : F}

variable {m : Metadata H} {count : Nat}

theorem Belongs.congr {m' : Metadata H} {batches batches' : AList (fun _ : Nat => List SentenceRow)}
    (h : Belongs files sha256 segmenter key file batchSize m batches)
    (hid : m'.identity = m.identity) (hhash : m'.outputHash = m.outputHash)
    (hsum : m'.summary = m.summary)
    (hbatch : ∀ i table, batches'.lookup i = some table → batches.lookup i = some table) :
    Belongs files sha256 segmenter key file batchSize m' batches' := by
  refine ⟨hid.trans h.identity, h.positive, fun i table hi => h.batch i table (hbatch i table hi),
    ?_⟩
  rw [hhash, hsum]
  exact h.output

variable {region : Region H}

theorem RegionOk.erase (h : RegionOk files sha256 segmenter key region)
    (i : Nat) : RegionOk files sha256 segmenter key
      { region with batches := region.batches.erase i } := by
  intro m hm
  obtain ⟨file, batchSize, hb⟩ := h m hm
  refine ⟨file, batchSize, hb.congr rfl rfl rfl ?_⟩
  intro j table hj
  by_cases hij : j = i
  · subst hij
    rw [AList.lookup_erase] at hj
    cases hj
  · rwa [AList.lookup_erase_ne hij] at hj

theorem foldl_erase_batches (is : List Nat) (region : Region H) :
    is.foldl (fun region i => { region with batches := region.batches.erase i }) region
      = { region with batches := is.foldl (fun batches i => batches.erase i) region.batches } := by
  induction is generalizing region with
  | nil => rfl
  | cons i is ih => exact ih _

variable {glob : GlobOrder}

theorem removePayloads_wp (h : RegionOk files sha256 segmenter key region) :
    wp (removePayloads glob)
      (fun _ region' => region'.metadata = region.metadata ∧ region'.output = region.output
        ∧ ∀ i, region'.batches.lookup i = none)
      (fun _ _ => False) (RegionOk files sha256 segmenter key) region := by
  simp only [removePayloads, wp_bind, wp_get]
  refine wp_imp ?_ (removeAll_wp (fun i _ hregion => hregion.erase i) h)
  rintro _ region' ⟨hregion', -⟩
  rw [foldl_erase_batches] at hregion'
  subst hregion'
  exact ⟨rfl, rfl, lookup_erase_listed glob region.batches⟩

theorem RegionOk.of_empty {region region' : Region H}
    (h : RegionOk files sha256 segmenter key region) (hm : region'.metadata = region.metadata)
    (hempty : ∀ i, region'.batches.lookup i = none) :
    RegionOk files sha256 segmenter key region' := by
  intro m hm'
  obtain ⟨file, batchSize, hb⟩ := h m (hm ▸ hm')
  refine ⟨file, batchSize, hb.congr rfl rfl rfl ?_⟩
  intro i table hi
  rw [hempty i] at hi
  cases hi

/-- **Opening the checkpoint**: what is in the directory then belongs to this run. -/
theorem newCheckpoint_wp [DecidableEq H] (hfp : Function.Injective files.fingerprint) (file : F) (batchSize : Int)
    (h : RegionOk files sha256 segmenter key region) :
    wp (newCheckpoint glob (identityOf files segmenter key batchSize file))
      (fun m region' => region'.metadata = some m
        ∧ Belongs files sha256 segmenter key file batchSize m region'.batches)
      (fun _ region' => RegionOk files sha256 segmenter key region' ∧ batchSize < 1)
      (RegionOk files sha256 segmenter key) region := by
  unfold newCheckpoint
  by_cases hsize : batchSize < 1
  · rw [if_pos (show (identityOf files segmenter key batchSize file).batchSize < 1 from hsize)]
    exact ⟨h, hsize⟩
  · rw [if_neg (show ¬ (identityOf files segmenter key batchSize file).batchSize < 1 from hsize)]
    simp only [prepare, wp_bind, wp_get]
    by_cases hm : region.metadata.map Metadata.identity
        = some (identityOf files segmenter key batchSize file)
    · rw [if_pos hm]
      obtain ⟨m, hrm, hid⟩ := Option.map_eq_some_iff.mp hm
      simp only [wp_pure]
      rw [hrm]
      obtain ⟨file', batchSize', hb⟩ := h m hrm
      have hsame := hb.identity.symm.trans hid
      obtain rfl : file' = file := hfp (congrArg Identity.inputFingerprint hsame)
      obtain rfl : batchSize' = batchSize := congrArg Identity.batchSize hsame
      exact ⟨rfl, hb⟩
    · rw [if_neg hm]
      simp only [writeMetadata, wp_bind, wp_step, wp_pure]
      refine wp_safe ?_ (removePayloads_wp h)
      rintro _ region' ⟨hmeta, -, hempty⟩
      refine ⟨h.of_empty hmeta hempty, trivial, rfl, by omega, ?_, ?_⟩
      · intro i table hi
        rw [hempty i] at hi
        cases hi
      · intro digest hdigest
        cases hdigest

/-! ## Processing the batches -/

variable (sha256 segmenter files) in
/-- The section table as a whole can be split. -/
def CanSplit (file : F) (batchSize : Int) : Prop :=
  ∃ result, splitSections sha256 segmenter batchSize (files.sections file) = .ok result

theorem CanSplit.batch {f : String → String → List String} (hf : PerText segmenter f)
    (hsize : 1 ≤ batchSize)
    (h : CanSplit files sha256 segmenter file batchSize) {i : Nat} {rows : List SectionRow}
    (hi : (files.iterBatches batchSize file)[i]? = some rows) :
    ∃ table s, splitSections sha256 segmenter batchSize rows = .ok (table, s) := by
  obtain ⟨⟨sentences, s⟩, hok⟩ := h
  rw [← files.flatten_iterBatches batchSize file hsize] at hok
  obtain ⟨⟨tables, htables, -⟩, -⟩ := (splitSections_flatten_iff hf hsize).mp hok
  obtain ⟨hlt, rfl⟩ := List.getElem?_eq_some_iff.mp hi
  have hget := List.Forall₂.get htables hlt (htables.length_eq ▸ hlt)
  exact ⟨_, hget⟩

/-- The state of a run that has processed `count` batches. -/
structure Processed (files : SectionFiles F H) (sha256 : String → String) (segmenter : Segmenter)
    (key : Key) (file : F) (batchSize : Int) (count : Nat) (progress : Progress H)
    (region : Region H) : Prop where
  metadata : region.metadata = some progress.metadata
  belongs : Belongs files sha256 segmenter key file batchSize progress.metadata region.batches
  present : ∀ i < count, (region.batches.lookup i).isSome
  rowCount : progress.rowCount = (contents region.batches count).flatten.length
  counters : progress.counters = Counters.zero.addSections
    ((files.iterBatches batchSize file).take count).flatten

theorem Processed.regionOk {progress : Progress H}
    (h : Processed files sha256 segmenter key file batchSize count progress region) :
    RegionOk files sha256 segmenter key region := by
  intro m hm
  obtain rfl : m = progress.metadata := Option.some.inj (hm.symm.trans h.metadata)
  exact ⟨file, batchSize, h.belongs⟩

variable {f : String → String → List String}

theorem processBatch_wp (hf : PerText segmenter f) {rows : List SectionRow}
    (hrows : (files.iterBatches batchSize file)[count]? = some rows) {progress : Progress H}
    (h : Processed files sha256 segmenter key file batchSize count progress region) :
    wp (processBatch sha256 segmenter batchSize count rows progress)
      (Processed files sha256 segmenter key file batchSize (count + 1))
      (fun _ region' => RegionOk files sha256 segmenter key region'
        ∧ ¬ CanSplit files sha256 segmenter file batchSize)
      (RegionOk files sha256 segmenter key) region := by
  have hcounters : progress.counters.addSections rows = Counters.zero.addSections
      ((files.iterBatches batchSize file).take (count + 1)).flatten := by
    rw [h.counters, ← Counters.addSections_append, List.take_add_one, hrows]
    simp
  simp only [processBatch, wp_bind, wp_get]
  cases hlookup : region.batches.lookup count with
  | some table =>
    simp only [wp_pure]
    refine ⟨h.metadata, h.belongs, ?_, ?_, hcounters⟩
    · intro i hi
      rcases Nat.lt_succ_iff_lt_or_eq.mp hi with hlt | rfl
      · exact h.present i hlt
      · rw [hlookup]
        rfl
    · rw [contents_succ, hlookup, List.flatten_append, List.length_append, ← h.rowCount]
      simp
  | none =>
    cases hsplit : splitSections sha256 segmenter batchSize rows with
    | error e =>
      refine ⟨h.regionOk, fun hcan => ?_⟩
      obtain ⟨table, s, hok⟩ := hcan.batch hf h.belongs.positive hrows
      rw [hsplit] at hok
      cases hok
    | ok result =>
      obtain ⟨table, s⟩ := result
      have hold : ∀ i < count, (region.batches.insert count table).lookup i
          = region.batches.lookup i :=
        fun i hi => AList.lookup_insert_ne (Nat.ne_of_lt hi)
      have hbelongs : ∀ m : Metadata H, m.identity = progress.metadata.identity →
          m.outputHash = progress.metadata.outputHash →
          m.summary = progress.metadata.summary →
          Belongs files sha256 segmenter key file batchSize m
            (region.batches.insert count table) := by
        intro m hid hhash hsum
        refine ⟨hid.trans h.belongs.identity, h.belongs.positive, ?_, ?_⟩
        · intro i table' hi
          by_cases hin : i = count
          · subst hin
            rw [AList.lookup_insert] at hi
            cases hi
            exact ⟨rows, s, hrows, hsplit⟩
          · rw [AList.lookup_insert_ne hin] at hi
            exact h.belongs.batch i table' hi
        · rw [hhash, hsum]
          exact h.belongs.output
      simp only [writeBatch, writeMetadata, wp_bind, wp_step, wp_pure]
      refine ⟨h.regionOk, ?_, rfl, hbelongs _ rfl rfl rfl, ?_, ?_, hcounters⟩
      · -- killed between the batch and the metadata
        intro m hm
        obtain rfl : m = progress.metadata := Option.some.inj (hm.symm.trans h.metadata)
        exact ⟨file, batchSize, hbelongs _ rfl rfl rfl⟩
      · intro i hi
        rcases Nat.lt_succ_iff_lt_or_eq.mp hi with hlt | rfl
        · rw [hold i hlt]
          exact h.present i hlt
        · rw [AList.lookup_insert]
          rfl
      · rw [contents_succ, AList.lookup_insert, contents_congr hold, List.flatten_append,
          List.length_append, ← h.rowCount]
        simp

theorem processSource_wp (hf : PerText segmenter f) {batches : List (List SectionRow)}
    (hrest : (files.iterBatches batchSize file).drop count = batches) {progress : Progress H}
    (h : Processed files sha256 segmenter key file batchSize count progress region) :
    wp (processSource sha256 segmenter batchSize batches count progress)
      (Processed files sha256 segmenter key file batchSize (count + batches.length))
      (fun _ region' => RegionOk files sha256 segmenter key region'
        ∧ ¬ CanSplit files sha256 segmenter file batchSize)
      (RegionOk files sha256 segmenter key) region := by
  induction batches generalizing count progress region with
  | nil =>
    simp only [processSource, wp_pure]
    exact h
  | cons rows batches ih =>
    have hrows : (files.iterBatches batchSize file)[count]? = some rows := by
      have hhead := congrArg (fun l => l[0]?) hrest
      simpa [List.getElem?_drop] using hhead
    have hnext : (files.iterBatches batchSize file).drop (count + 1) = batches := by
      rw [← List.drop_drop, hrest]
      rfl
    simp only [processSource, wp_bind]
    refine wp_imp ?_ (processBatch_wp hf hrows h)
    intro progress' region' h'
    have hwp := ih hnext h'
    rwa [List.length_cons, Nat.add_comm batches.length, ← Nat.add_assoc]

/-! ## Joining the batches -/

theorem checkpointTables_ok (region : Region H) {is : List Nat}
    (h : ∀ i ∈ is, (region.batches.lookup i).isSome) :
    ∃ tables, checkpointTables region is = .ok tables
      ∧ tables.flatten = (is.map (fun i => (region.batches.lookup i).getD [])).flatten := by
  induction is with
  | nil => exact ⟨[], rfl, rfl⟩
  | cons i is ih =>
    obtain ⟨tables, hok, hflat⟩ := ih (fun j hj => h j (List.mem_cons_of_mem i hj))
    obtain ⟨table, htable⟩ := Option.isSome_iff_exists.mp (h i List.mem_cons_self)
    refine ⟨if table = [] then tables else table :: tables, ?_, ?_⟩
    · simp only [checkpointTables, htable, hok]
      rfl
    · rw [List.map_cons, List.flatten_cons, ← hflat, htable]
      split
      · rename_i hempty
        rw [hempty]
        rfl
      · rfl

section

variable {file : F} {batchSize : Int} {progress : Progress H} {region : Region H}
  (h : Processed files sha256 segmenter key file batchSize
  (files.iterBatches batchSize file).length progress region)

include h

theorem Processed.keys_perm :
    region.batches.keys.Perm (List.range (files.iterBatches batchSize file).length) := by
  apply (List.perm_ext_iff_of_nodup region.batches.nodupKeys List.nodup_range).mpr
  intro i
  rw [List.mem_range]
  show i ∈ region.batches ↔ _
  rw [← AList.lookup_isSome]
  constructor
  · intro hi
    obtain ⟨table, htable⟩ := Option.isSome_iff_exists.mp hi
    obtain ⟨rows, s, hrows, -⟩ := h.belongs.batch i table htable
    exact (List.getElem?_eq_some_iff.mp hrows).1
  · exact h.present i

theorem Processed.splitSections_contents (hf : PerText segmenter f) :
    splitSections sha256 segmenter batchSize (files.sections file)
      = .ok ((contents region.batches (files.iterBatches batchSize file).length).flatten,
        summaryOf (files.sections file) progress.rowCount) := by
  rw [← files.flatten_iterBatches batchSize file h.belongs.positive, h.rowCount]
  apply (splitSections_flatten_iff hf h.belongs.positive).mpr
  refine ⟨⟨_, ?_, rfl⟩, rfl⟩
  apply List.forall₂_iff_get.mpr
  refine ⟨by simp, ?_⟩
  intro i hi hi'
  obtain ⟨table, htable⟩ := Option.isSome_iff_exists.mp (h.present i hi)
  obtain ⟨rows, s, hrows, hok⟩ := h.belongs.batch i table htable
  rw [List.getElem?_eq_getElem hi, Option.some.injEq] at hrows
  refine ⟨s, ?_⟩
  have hget := getElem?_contents region.batches hi
  rw [List.getElem?_eq_getElem hi', Option.some.injEq, htable] at hget
  rw [List.get_eq_getElem, List.get_eq_getElem, hrows, hok, hget]
  rfl

theorem markComplete_wp :
    wp (markComplete (files.iterBatches batchSize file).length progress.rowCount progress.metadata)
      (fun m region' => m.complete = true ∧ region'.batches = region.batches
        ∧ Processed files sha256 segmenter key file batchSize
          (files.iterBatches batchSize file).length { progress with metadata := m } region')
      (fun _ region' => RegionOk files sha256 segmenter key region'
        ∧ 10 ^ 8 < (files.iterBatches batchSize file).length)
      (RegionOk files sha256 segmenter key) region := by
  simp only [markComplete, wp_bind, wp_get]
  split
  · rename_i hnot
    refine ⟨h.regionOk, ?_⟩
    by_contra hle
    exact hnot (sortedIndexes_eq_range "batch-" h.keys_perm (Nat.le_of_not_lt hle))
  · rename_i hrange
    rw [ne_eq, not_not] at hrange
    have hsum : ((completedBatches region).map (batchLength region)).sum = progress.rowCount := by
      rw [hrange, h.rowCount, List.length_flatten, contents, List.map_map]
      rfl
    rw [if_neg (by simpa using hsum)]
    simp only [writeMetadata, wp_bind, wp_step, wp_pure]
    refine ⟨h.regionOk, trivial, trivial, rfl, ?_, h.present, h.rowCount, h.counters⟩
    exact h.belongs.congr rfl rfl rfl (fun _ _ hi => hi)

end

/-! ## One run -/

variable [DecidableEq H]

theorem recordedOutputMatches_iff : recordedOutputMatches files key m region = true
      ↔ m.complete = true ∧ m.outputPath = some (sentencePath key)
        ∧ ∃ tables, region.output = some tables
          ∧ m.outputHash = some (files.outputHash tables) := by
  unfold recordedOutputMatches
  cases m.outputHash with
  | none => simp
  | some digest =>
    cases region.output with
    | none => simp
    | some tables =>
      simp only [Bool.and_eq_true, decide_eq_true_eq, Option.some.injEq, exists_eq_left']
      rw [and_assoc]
      exact and_congr_right (fun _ => and_congr_right (fun _ => eq_comm))

variable (files sha256 segmenter key) in
/-- What a run that returns has to leave. -/
def Finished (file : F) (batchSize : Int) (summary : RegionSummary) (region : Region H) : Prop :=
  ∃ tables s, region.output = some tables
    ∧ splitSections sha256 segmenter batchSize (files.sections file) = .ok (tables.flatten, s)
    ∧ summary = regionSummary key s

variable (files sha256 segmenter) in
/-- The reasons for which a run raises. -/
def Excused (source : Option F) (batchSize : Int) : Prop :=
  ∀ file, source = some file → files.schemaMatches file = true → 1 ≤ batchSize →
    CanSplit files sha256 segmenter file batchSize →
    10 ^ 8 < (files.iterBatches batchSize file).length

theorem runCheckpoint_wp (hf : PerText segmenter f) (hoh : Function.Injective files.outputHash)
    (hm : region.metadata = some m)
    (hb : Belongs files sha256 segmenter key file batchSize m region.batches) :
    wp (runCheckpoint glob files sha256 segmenter key batchSize file m)
      (fun summary region' => Finished files sha256 segmenter key file batchSize summary region'
        ∧ RegionOk files sha256 segmenter key region')
      (fun _ region' => RegionOk files sha256 segmenter key region'
        ∧ (CanSplit files sha256 segmenter file batchSize →
          10 ^ 8 < (files.iterBatches batchSize file).length))
      (RegionOk files sha256 segmenter key) region := by
  have hstart : Processed files sha256 segmenter key file batchSize 0 ⟨m, .zero, 0⟩ region :=
    ⟨hm, hb, fun i hi => absurd hi (Nat.not_lt_zero i), rfl, by simp [Counters.addSections]⟩
  simp only [runCheckpoint, wp_bind, wp_get]
  split
  · -- the recorded table is still there
    rename_i hmatches
    obtain ⟨-, -, tables, htables, hhash⟩ := recordedOutputMatches_iff.mp hmatches
    obtain ⟨tables', s, hdigest, hok, hsummary⟩ := hb.output _ hhash
    obtain rfl : tables = tables' := hoh hdigest
    rw [hsummary]
    exact ⟨⟨tables, s, htables, hok, rfl⟩, hstart.regionOk⟩
  · simp only [wp_bind]
    refine wp_mono ?_ (fun _ _ he => ⟨he.1, fun hcan => absurd hcan he.2⟩) (fun _ h => h)
      (processSource_wp hf (List.drop_zero) hstart)
    rintro progress region₁ h₁
    rw [Nat.zero_add] at h₁
    refine wp_mono ?_ (fun _ _ he => ⟨he.1, fun _ => he.2⟩) (fun _ h => h) (markComplete_wp h₁)
    rintro m₂ region₂ ⟨hcomplete, hbatches, h₂⟩
    have hcontents := h₂.splitSections_contents hf
    obtain ⟨tables, htables, hflat⟩ := checkpointTables_ok region₂
      (fun i hi => h₂.present i (List.mem_range.mp hi))
    have hok : splitSections sha256 segmenter batchSize (files.sections file)
        = .ok (tables.flatten, summaryOf (files.sections file) progress.rowCount) := by
      rw [hflat]
      exact hcontents
    have hsummary : progress.counters.summary progress.rowCount key
        = regionSummary key (summaryOf (files.sections file) progress.rowCount) := by
      rw [h₂.counters, List.take_length, files.flatten_iterBatches batchSize file hb.positive,
        Counters.summary_eq]
    simp only [writeOutput, wp_bind, wp_get, htables, wp_step, finalize, hcomplete,
      if_true, writeMetadata, wp_pure]
    refine ⟨h₂.regionOk, ?_, ?_⟩
    · -- killed in front of the final metadata
      intro m' hm'
      obtain rfl : m' = m₂ := Option.some.inj (hm'.symm.trans h₂.metadata)
      exact ⟨file, batchSize, h₂.belongs⟩
    · have hfinal : RegionOk files sha256 segmenter key
          { region₂ with
            output := some tables
            metadata := some { m₂ with
              complete := true
              outputPath := some (sentencePath key)
              outputHash := some (files.outputHash tables)
              summary := some (progress.counters.summary progress.rowCount key) } } := by
        intro m' hm'
        cases hm'
        refine ⟨file, batchSize, h₂.belongs.identity, hb.positive, h₂.belongs.batch, ?_⟩
        intro digest hdigest
        cases hdigest
        exact ⟨tables, _, rfl, hok, congrArg some hsummary⟩
      refine wp_safe ?_ (removePayloads_wp hfinal)
      rintro _ region₃ ⟨hmeta₃, hout₃, hempty₃⟩
      exact ⟨⟨tables, _, hout₃, hok, hsummary⟩, hfinal.of_empty hmeta₃ hempty₃⟩

variable (glob files sha256 segmenter key) in
/-- **One run**, for any section table and batch size. -/
theorem runProject_wp (hf : PerText segmenter f) (hfp : Function.Injective files.fingerprint)
    (hoh : Function.Injective files.outputHash) (source : Option F) (batchSize : Int)
    (h : RegionOk files sha256 segmenter key region) :
    wp (runProject glob files sha256 segmenter key batchSize source)
      (fun summary region' => (∃ file, source = some file
          ∧ Finished files sha256 segmenter key file batchSize summary region')
        ∧ RegionOk files sha256 segmenter key region')
      (fun _ region' => RegionOk files sha256 segmenter key region'
        ∧ Excused files sha256 segmenter source batchSize)
      (RegionOk files sha256 segmenter key) region := by
  unfold runProject
  cases source with
  | none =>
    refine ⟨h, ?_⟩
    intro file hfile
    cases hfile
  | some file =>
    dsimp only
    split
    · simp only [wp_bind]
      refine wp_mono ?_ ?_ (fun _ h => h) (newCheckpoint_wp hfp file batchSize h)
      · rintro m region₁ ⟨hm, hb⟩
        refine wp_mono ?_ ?_ (fun _ h => h) (runCheckpoint_wp hf hoh hm hb)
        · rintro summary region₂ ⟨hfinished, hok⟩
          exact ⟨⟨file, rfl, hfinished⟩, hok⟩
        · rintro e region₂ ⟨hok, hexcuse⟩
          refine ⟨hok, ?_⟩
          rintro _ ⟨⟩ _ _ hcan
          exact hexcuse hcan
      · rintro e region₁ ⟨hok, hsize⟩
        refine ⟨hok, ?_⟩
        intro _ _ _ hpos
        omega
    · rename_i hschema
      refine ⟨h, ?_⟩
      rintro _ ⟨⟩ hschema'
      exact absurd hschema' hschema

end

/-! ## Any number of runs -/

section

variable {F H : Type} [DecidableEq H] (glob : GlobOrder) (files : SectionFiles F H)
variable (sha256 : String → String) (segmenter : Segmenter) (key : Key)

/-- The states that runs leave behind, each with its own section table and batch size: killed in
front of any file operation, failed or finished. -/
inductive Reachable : Region H → Prop where
  | empty : Reachable (Region.empty H)
  | run {region : Region H} (source : Option F) (batchSize : Int) (kill : Nat)
      (h : Reachable region) :
      Reachable (Prog.exec (runProject glob files sha256 segmenter key batchSize source) kill
        region).state

variable {glob files sha256 segmenter key} {f : String → String → List String}

theorem Reachable.regionOk (hf : PerText segmenter f) (hfp : Function.Injective files.fingerprint)
    (hoh : Function.Injective files.outputHash) {region : Region H}
    (h : Reachable glob files sha256 segmenter key region) :
    RegionOk files sha256 segmenter key region := by
  induction h with
  | empty =>
    intro m hm
    cases hm
  | run source batchSize kill _ ih =>
    have hwp := wp_exec
      (runProject_wp files sha256 segmenter key glob hf hfp hoh source batchSize ih) kill
    revert hwp
    cases Prog.exec (runProject glob files sha256 segmenter key batchSize source) kill _ with
    | done summary region' => exact fun hdone => hdone.2
    | raised e region' => exact fun hraised => hraised.1
    | killed region' => exact fun hkilled => hkilled

/-- **Restarted sentence runs**: after any number of runs that were killed, a run that returns
leaves the rows of `split_sections` for the whole current section table and returns its summary. A
run that is not killed does return, if the table can be split and has at most `10 ^ 8` batches. -/
theorem runProject_restart (hf : PerText segmenter f)
    (hfp : Function.Injective files.fingerprint) (hoh : Function.Injective files.outputHash)
    {region : Region H} (h : Reachable glob files sha256 segmenter key region)
    (source : Option F) (batchSize : Int) :
    (∀ kill summary region',
      Prog.exec (runProject glob files sha256 segmenter key batchSize source) kill region
          = .done summary region' →
        ∃ file tables s, source = some file ∧ region'.output = some tables
          ∧ splitSections sha256 segmenter batchSize (files.sections file) = .ok (tables.flatten, s)
          ∧ summary = regionSummary key s)
      ∧ ∀ file, source = some file → files.schemaMatches file = true → 1 ≤ batchSize →
        CanSplit files sha256 segmenter file batchSize →
        (files.iterBatches batchSize file).length ≤ 10 ^ 8 →
        ∃ summary region', Prog.run (runProject glob files sha256 segmenter key batchSize source)
          region = (.ok summary, region') := by
  have hwp := runProject_wp files sha256 segmenter key glob hf hfp hoh source batchSize
    (h.regionOk hf hfp hoh)
  constructor
  · intro kill summary region' hdone
    have hmeets := wp_exec hwp kill
    rw [hdone] at hmeets
    obtain ⟨⟨file, hfile, tables, s, hout, hok, hsum⟩, -⟩ := hmeets
    exact ⟨file, tables, s, hfile, hout, hok, hsum⟩
  · intro file hfile hschema hsize hcan hcount
    have hrun := wp_run hwp
    rcases hr : Prog.run (runProject glob files sha256 segmenter key batchSize source) region with
      ⟨e | summary, region'⟩
    · rw [hr] at hrun
      have := hrun.2 file hfile hschema hsize hcan
      omega
    · exact ⟨summary, region', rfl⟩

end

namespace Example

/-- Files are listed in the order of their creation. -/
def glob : GlobOrder := ⟨id, List.Perm.refl⟩

/-- A file is its own digest, and batches are full as long as there are rows. -/
def files : SectionFiles (List SectionRow) (List SectionRow ⊕ List (List SentenceRow)) where
  schemaMatches := fun _ => true
  sections := id
  iterBatches := fun batchSize file => slices batchSize.toNat file
  fingerprint := Sum.inl
  outputHash := Sum.inr
  flatten_iterBatches := fun batchSize file h => flatten_slices (by omega) file

/-- Each text is one sentence. -/
def segmenter (version : String) : Segmenter :=
  ⟨satModelId, version, "main", false, fun _ texts => texts.map (fun text => [text])⟩

def key : Key := ⟨"malta-latest", .wikipedia⟩

def row (sectionId language text : String) : SectionRow :=
  ⟨⟨some sectionId, none, none, none, none, some language, none, none, none, none, none, none,
    none, none, none, none, none⟩, some text, none⟩

/-- A supported and an unsupported section. -/
def table : List SectionRow := [row "s1" "en" "Hi.", row "s2" "xx" "Yo."]

/-- A run killed between the first batch and its metadata. -/
def killed : Region (List SectionRow ⊕ List (List SentenceRow)) :=
  (Prog.exec (runProject glob files id (segmenter "1") key 1 (some table)) 2 (Region.empty _)).state

theorem perText (version : String) : PerText (segmenter version) (fun _ text => [text]) :=
  fun _ _ => rfl

theorem canSplit : CanSplit files id (segmenter "1") table 1 :=
  ⟨_, (splitSections_ok_iff (perText "1") le_rfl).mpr
    ⟨⟨_, forall₂_sectionRows_iff.mpr ⟨by
      intro row hrow
      fin_cases hrow
      · exact ⟨_, rfl⟩
      · exact ⟨_, rfl⟩, rfl⟩, rfl⟩, rfl⟩⟩

theorem resumed_after_batch : (killed.batches.lookup 0).map List.length = some 1
      ∧ (∀ kill summary region',
        Prog.exec (runProject glob files id (segmenter "1") key 1 (some table)) kill killed
            = .done summary region' →
          ∃ file tables s, some table = some file ∧ region'.output = some tables
            ∧ splitSections id (segmenter "1") 1 (files.sections file) = .ok (tables.flatten, s)
            ∧ summary = regionSummary key s)
      ∧ ∃ summary region', Prog.run (runProject glob files id (segmenter "1") key 1 (some table))
          killed = (.ok summary, region') := by
  have h := runProject_restart (perText "1") Sum.inl_injective Sum.inr_injective
    (.run (some table) 1 2 .empty : Reachable glob files id (segmenter "1") key killed)
    (some table) 1
  exact ⟨by decide, h.1, h.2 table rfl rfl le_rfl canSplit (by decide)⟩

end Example

end OsmPolygonWikidata.Sentences
