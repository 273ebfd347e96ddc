import OsmPolygonWikidata.Sentences.Release
import OsmPolygonWikidata.Sentences.Restart

/-! # Which segmenter made the rows

The manifest names one segmenter version for all regions it lists. The rows of a table carry the
version of the segmenter that split them, which is not the one of the run if the run takes batches
or a finished table from a checkpoint: the identity of a checkpoint does not contain the version.

A run is *safe* if the rows it takes over carry its own version, and, when the manifest names
another version, if it rewrites no listed table. Safe runs, killed or not, keep the listed tables
and the manifest in agreement (`provenance_of_safeRuns`); a run that is not safe may return and
leave them in disagreement.
-/

namespace OsmPolygonWikidata.Sentences

open Durable
open Prog (wp wp_bind wp_exec wp_focus wp_get wp_imp wp_mono wp_pure wp_step)

/-! ## Stamps -/

/-- The stamp of a row a segmenter has split, or of an unsplit row. -/
def StampedBy (segmenter : Segmenter) (row : SentenceRow) : Prop :=
  row.stamp.segmentationStatus = .split →
    row.stamp.segmenterVersion = segmenter.version ∧ row.stamp.modelId = segmenter.modelId

section

variable {sha256 : String → String} {segmenter : Segmenter}

theorem pieceRows_stamp {row : SectionRow} {stamp : SegmentationStamp} {pieces : List String}
    {sentenceIndex offset : Nat} {rows : List SentenceRow}
    (h : pieceRows sha256 row stamp pieces sentenceIndex offset = .ok rows) :
    ∀ r ∈ rows, r.stamp = stamp := by
  induction pieces generalizing sentenceIndex offset rows with
  | nil =>
    cases h
    simp
  | cons piece pieces ih =>
    rw [pieceRows] at h
    by_cases hpiece : piece = ""
    · rw [if_pos hpiece] at h
      cases h
    · rw [if_neg hpiece] at h
      cases hrest : pieceRows sha256 row stamp pieces (sentenceIndex + 1)
          (offset + piece.length) with
      | error e =>
        rw [hrest] at h
        cases h
      | ok rest =>
        rw [hrest] at h
        cases h
        rw [List.forall_mem_cons]
        exact ⟨rfl, ih hrest⟩

theorem splitRows_stamp {row : SectionRow} {pieces : List String} {rows : List SentenceRow}
    (h : splitRows sha256 segmenter row pieces = .ok rows) :
    ∀ r ∈ rows, StampedBy segmenter r := by
  unfold splitRows at h
  split at h
  · intro r hr _
    rw [pieceRows_stamp h r hr]
    exact ⟨rfl, rfl⟩
  · cases h

/-- All rows of a table by position are stamped. -/
def AllStamped (segmenter : Segmenter) (rowsByPosition : List (List SentenceRow)) : Prop :=
  ∀ rows ∈ rowsByPosition, ∀ r ∈ rows, StampedBy segmenter r

theorem assignRows_stamp {assigned : List ((Nat × SectionRow) × List String)}
    {rowsByPosition final : List (List SentenceRow)} (hall : AllStamped segmenter rowsByPosition)
    (h : assignRows sha256 segmenter assigned rowsByPosition = .ok final) :
    AllStamped segmenter final := by
  induction assigned generalizing rowsByPosition with
  | nil =>
    cases h
    exact hall
  | cons p assigned ih =>
    obtain ⟨⟨position, row⟩, pieces⟩ := p
    rw [assignRows] at h
    cases hrows : splitRows sha256 segmenter row pieces with
    | error e =>
      rw [hrows] at h
      cases h
    | ok rows =>
      rw [hrows] at h
      refine ih ?_ h
      intro rows' hrows'
      rcases List.mem_or_eq_of_mem_set hrows' with hmem | rfl
      · exact hall rows' hmem
      · exact splitRows_stamp hrows

theorem foldlM_invariant {A S : Type} {body : S → A → Except SentenceError S} {P : S → Prop}
    (hbody : ∀ s a s', P s → body s a = .ok s' → P s') {xs : List A} {s s' : S} (hs : P s)
    (h : xs.foldlM body s = .ok s') : P s' := by
  induction xs generalizing s with
  | nil =>
    cases h
    exact hs
  | cons x xs ih =>
    rw [List.foldlM_cons] at h
    cases hx : body s x with
    | error e =>
      rw [hx] at h
      cases h
    | ok s₁ =>
      rw [hx] at h
      exact ih (hbody s x s₁ hs hx) h

theorem populatePositions_stamp {batchSize : Int} {language : String}
    {positions : List (Nat × SectionRow)} {rowsByPosition final : List (List SentenceRow)}
    (hall : AllStamped segmenter rowsByPosition)
    (h : populatePositions sha256 segmenter batchSize language positions rowsByPosition
      = .ok final) : AllStamped segmenter final := by
  refine foldlM_invariant ?_ hall h
  intro rows batch rows' hrows hbatch
  unfold populateBatch at hbatch
  dsimp only at hbatch
  split at hbatch
  · exact assignRows_stamp hrows hbatch
  · cases hbatch

theorem classifySections_stamp (position : Nat) (rows : List SectionRow) :
    AllStamped segmenter (classifySections sha256 position rows).rowsByPosition := by
  rw [classifySections_rows]
  intro rows' hrows' r hr
  obtain ⟨row, -, rfl⟩ := List.mem_map.mp hrows'
  split at hr
  · cases hr
  · obtain rfl := List.mem_singleton.mp hr
    intro hsplit
    cases hsplit

/-- **The rows of `split_sections`** carry the version and the model of the segmenter. -/
theorem splitSections_stamp {batchSize : Int} {rows : List SectionRow}
    {sentences : List SentenceRow} {summary : SplitSummary}
    (h : splitSections sha256 segmenter batchSize rows = .ok (sentences, summary)) :
    ∀ r ∈ sentences, StampedBy segmenter r := by
  unfold splitSections at h
  by_cases hsize : batchSize < 1
  · rw [if_pos hsize] at h
    cases h
  · rw [if_neg hsize] at h
    cases hpop : populateSupportedRows sha256 segmenter batchSize
        (classifySections sha256 0 rows) with
    | error e =>
      simp only [hpop] at h
      cases h
    | ok final =>
      simp only [hpop] at h
      cases h
      have hfinal : AllStamped segmenter final := by
        unfold populateSupportedRows at hpop
        split at hpop
        · exact populatePositions_stamp (classifySections_stamp 0 rows) hpop
        · refine foldlM_invariant ?_ (classifySections_stamp 0 rows) hpop
          intro rows₁ language rows₂ hrows₁ hlanguage
          exact populatePositions_stamp hrows₁ hlanguage
      intro r hr
      obtain ⟨rows', hrows', hr'⟩ := List.mem_flatten.mp hr
      exact hfinal rows' hrows' r hr'

end

/-! ## The rows of one table -/

section

variable {F H : Type} (files : SectionFiles F H) (segmenter : Segmenter) (key : Key)
variable (batchSize : Int)

/-- All rows of the batches satisfy `P`. -/
def BatchRows (P : SentenceRow → Prop) (region : Region H) : Prop :=
  ∀ i table, region.batches.lookup i = some table → ∀ r ∈ table, P r

/-- All rows of the sentence table satisfy `P`. -/
def OutputRows (P : SentenceRow → Prop) (region : Region H) : Prop :=
  ∀ tables, region.output = some tables → ∀ r ∈ tables.flatten, P r

/-- The key a summary is merged under. -/
def Key.mergeKey (key : Key) : String × String := (key.stem, key.project.name)

/-- All rows satisfy `P`, and a recorded summary is one of this key. -/
structure Tidy (P : SentenceRow → Prop) (key : Key) (region : Region H) : Prop where
  batches : BatchRows P region
  output : OutputRows P region
  summary : ∀ m s, region.metadata = some m → m.summary = some s → s.mergeKey = key.mergeKey

variable [DecidableEq H]

/-- Whether a run finds its finished table. -/
def keepsTable (source : Option F) (region : Region H) : Bool :=
  match source, region.metadata with
  | some file, some m =>
    m.identity = identityOf files segmenter key batchSize file
      && recordedOutputMatches files key m region
  | _, _ => false

/-- The rows a run takes over: those of its finished table, or those of the batches of its
checkpoint. -/
def reusedRows (source : Option F) (region : Region H) : List SentenceRow :=
  match source, region.metadata with
  | some file, some m =>
    if m.identity = identityOf files segmenter key batchSize file then
      if recordedOutputMatches files key m region then (region.output.getD []).flatten
      else region.batches.entries.flatMap (fun batch => batch.2)
    else []
  | _, _ => []

theorem reusedRows_of_none {source : Option F} {region : Region H} (h : region.metadata = none) :
    reusedRows files segmenter key batchSize source region = [] := by
  unfold reusedRows
  rw [h]
  cases source <;> rfl

end

section

variable {F H : Type} {files : SectionFiles F H} {sha256 : String → String}
variable {segmenter : Segmenter} {key : Key} {batchSize : Int} {glob : GlobOrder}
variable {P₀ P : SentenceRow → Prop}

theorem Tidy.of_batches {region region' : Region H} (h : Tidy P₀ key region)
    (hm : region'.metadata = region.metadata) (ho : region'.output = region.output)
    (hb : ∀ i table, region'.batches.lookup i = some table → region.batches.lookup i = some table) :
    Tidy P₀ key region' :=
  ⟨fun i table hi => h.batches i table (hb i table hi), fun tables ht => h.output tables (ho ▸ ht),
    fun m s hm' => h.summary m s (hm ▸ hm')⟩

variable {region : Region H}

theorem Tidy.erase (h : Tidy P₀ key region) (i : Nat) :
    Tidy P₀ key { region with batches := region.batches.erase i } := by
  refine h.of_batches rfl rfl ?_
  intro j table hj
  by_cases hij : j = i
  · subst hij
    rw [AList.lookup_erase] at hj
    cases hj
  · rwa [AList.lookup_erase_ne hij] at hj

variable {m : Metadata H}

theorem Tidy.metadata (h : Tidy P₀ key region)
    (hm : ∀ s, m.summary = some s → s.mergeKey = key.mergeKey) :
    Tidy P₀ key { region with metadata := some m } := by
  refine ⟨h.batches, h.output, ?_⟩
  intro m' s hm' hs
  cases hm'
  exact hm s hs

theorem removePayloads_tidy (h : Tidy P₀ key region) : wp (removePayloads glob)
      (fun _ region' => Tidy P₀ key region' ∧ region'.metadata = region.metadata
        ∧ region'.output = region.output ∧ ∀ i, region'.batches.lookup i = none)
      (fun _ _ => False)
      (fun region' => Tidy P₀ key region' ∧ region'.output = region.output) region := by
  simp only [removePayloads, wp_bind, wp_get]
  refine wp_imp ?_
    (removeAll_wp (K := fun region' => Tidy P₀ key region' ∧ region'.output = region.output)
      (fun i region' hregion => ⟨hregion.1.erase i, hregion.2⟩) ⟨h, rfl⟩)
  rintro _ region' ⟨hregion', htidy, hout⟩
  rw [foldl_erase_batches] at hregion'
  subst hregion'
  exact ⟨htidy, rfl, rfl, lookup_erase_listed glob region.batches⟩

/-- A run has not written its table yet. -/
structure Collecting (P₀ P : SentenceRow → Prop) (key : Key) (old : Option (List (List SentenceRow)))
    (m : Metadata H) (region : Region H) : Prop where
  tidy : Tidy P₀ key region
  metadata : region.metadata = some m
  output : region.output = old
  rows : BatchRows P region

/-- What a kill can leave: the old table, or a table with new rows. -/
def Replaced (P₀ P : SentenceRow → Prop) (key : Key) (old : Option (List (List SentenceRow)))
    (region : Region H) : Prop :=
  Tidy P₀ key region ∧ (region.output = old ∨ OutputRows P region)

variable {old : Option (List (List SentenceRow))}

theorem Collecting.replaced (h : Collecting P₀ P key old m region) : Replaced P₀ P key old region :=
  ⟨h.tidy, Or.inl h.output⟩

theorem Collecting.summary (h : Collecting P₀ P key old m region) (s : RegionSummary)
    (hs : m.summary = some s) : s.mergeKey = key.mergeKey :=
  h.tidy.summary m s h.metadata hs

section

variable (hnew₀ : ∀ rows table s, splitSections sha256 segmenter batchSize rows = .ok (table, s) →
    ∀ r ∈ table, P₀ r)
  (hnew : ∀ rows table s, splitSections sha256 segmenter batchSize rows = .ok (table, s) →
    ∀ r ∈ table, P r)

include hnew₀ hnew

theorem processBatch_rows {old : Option (List (List SentenceRow))} {index : Nat}
    {rows : List SectionRow} {progress : Progress H} {region : Region H}
    (h : Collecting P₀ P key old progress.metadata region) :
    wp (processBatch sha256 segmenter batchSize index rows progress)
      (fun progress' region' => Collecting P₀ P key old progress'.metadata region')
      (fun _ => Replaced P₀ P key old) (Replaced P₀ P key old) region := by
  simp only [processBatch, wp_bind, wp_get]
  cases hlookup : region.batches.lookup index with
  | some table =>
    simp only [wp_pure]
    exact h
  | none =>
    cases hsplit : splitSections sha256 segmenter batchSize rows with
    | error e => exact h.replaced
    | ok result =>
      obtain ⟨table, s⟩ := result
      have hinsert : ∀ Q : SentenceRow → Prop, (∀ r ∈ table, Q r) → BatchRows Q region →
          BatchRows Q { region with batches := region.batches.insert index table } := by
        intro Q htable hrows i table' hi
        by_cases hin : i = index
        · subst hin
          rw [AList.lookup_insert] at hi
          cases hi
          exact htable
        · rw [AList.lookup_insert_ne hin] at hi
          exact hrows i table' hi
      have htidy : Tidy P₀ key { region with batches := region.batches.insert index table } :=
        ⟨hinsert P₀ (hnew₀ rows table s hsplit) h.tidy.batches, h.tidy.output, h.tidy.summary⟩
      simp only [writeBatch, writeMetadata, wp_bind, wp_step, wp_pure]
      exact ⟨h.replaced, ⟨htidy, Or.inl h.output⟩, htidy.metadata h.summary, rfl, h.output,
        hinsert P (hnew rows table s hsplit) h.rows⟩

theorem processSource_rows {old : Option (List (List SentenceRow))}
    {batches : List (List SectionRow)} {index : Nat} {progress : Progress H} {region : Region H}
    (h : Collecting P₀ P key old progress.metadata region) :
    wp (processSource sha256 segmenter batchSize batches index progress)
      (fun progress' region' => Collecting P₀ P key old progress'.metadata region')
      (fun _ => Replaced P₀ P key old) (Replaced P₀ P key old) region := by
  induction batches generalizing index progress region with
  | nil =>
    simp only [processSource, wp_pure]
    exact h
  | cons rows batches ih =>
    simp only [processSource, wp_bind]
    refine wp_imp ?_ (processBatch_rows hnew₀ hnew h)
    intro progress' region' h'
    exact ih h'

end

theorem checkpointTables_rows {Q : SentenceRow → Prop} {is : List Nat}
    {tables : List (List SentenceRow)} (hrows : BatchRows Q region)
    (h : checkpointTables region is = .ok tables) : ∀ r ∈ tables.flatten, Q r := by
  induction is generalizing tables with
  | nil =>
    cases h
    simp
  | cons i is ih =>
    rw [checkpointTables] at h
    cases hlookup : region.batches.lookup i with
    | none =>
      rw [hlookup] at h
      cases h
    | some table =>
      rw [hlookup] at h
      cases hrest : checkpointTables region is with
      | error e =>
        rw [hrest] at h
        cases h
      | ok rest =>
        rw [hrest] at h
        cases h
        split
        · exact ih hrest
        · rw [List.flatten_cons]
          intro r hr
          rcases List.mem_append.mp hr with hr | hr
          · exact hrows i table hlookup r hr
          · exact ih hrest r hr

theorem markComplete_rows {batchCount rowCount : Nat} (h : Collecting P₀ P key old m region) :
    wp (markComplete batchCount rowCount m) (fun m' region' => Collecting P₀ P key old m' region')
      (fun _ => Replaced P₀ P key old) (Replaced P₀ P key old) region := by
  simp only [markComplete, wp_bind, wp_get]
  split
  · exact h.replaced
  · split
    · exact h.replaced
    · simp only [writeMetadata, wp_bind, wp_step, wp_pure]
      exact ⟨h.replaced, h.tidy.metadata h.summary, rfl, h.output, h.rows⟩

variable [DecidableEq H]

theorem newCheckpoint_rows {file : F} (h : Tidy P₀ key region)
    (hreused : ∀ r ∈ reusedRows files segmenter key batchSize (some file) region, P r) :
    wp (newCheckpoint glob (identityOf files segmenter key batchSize file))
      (fun m region' => Tidy P₀ key region' ∧ region'.metadata = some m
        ∧ region'.output = region.output
        ∧ if recordedOutputMatches files key m region' then OutputRows P region'
          else BatchRows P region')
      (fun _ => Replaced P₀ P key region.output) (Replaced P₀ P key region.output) region := by
  unfold newCheckpoint
  split
  · exact ⟨h, Or.inl rfl⟩
  · simp only [prepare, wp_bind, wp_get]
    by_cases hm : region.metadata.map Metadata.identity
        = some (identityOf files segmenter key batchSize file)
    · rw [if_pos hm]
      obtain ⟨m, hrm, hid⟩ := Option.map_eq_some_iff.mp hm
      simp only [wp_pure]
      rw [hrm]
      simp only [reusedRows, hrm, hid, if_true] at hreused
      refine ⟨h, rfl, trivial, ?_⟩
      show if recordedOutputMatches files key m region then OutputRows P region
        else BatchRows P region
      split
      · rename_i hmatches
        rw [if_pos hmatches] at hreused
        intro tables htables
        rw [htables] at hreused
        exact hreused
      · rename_i hmatches
        rw [if_neg hmatches] at hreused
        intro i table hi r hr
        exact hreused r (List.mem_flatMap.mpr
          ⟨⟨i, table⟩, AList.mem_lookup_iff.mp (Option.mem_def.mpr hi), hr⟩)
    · rw [if_neg hm]
      simp only [writeMetadata, wp_bind, wp_step, wp_pure]
      refine wp_mono ?_ (fun _ _ h => h.elim) (fun _ h => ⟨h.1, Or.inl h.2⟩) (removePayloads_tidy h)
      rintro _ region' ⟨htidy, -, hout, hempty⟩
      refine ⟨⟨htidy, Or.inl hout⟩, htidy.metadata (by simp [initialMetadata]), trivial, hout, ?_⟩
      have hnot : recordedOutputMatches files key
          (initialMetadata (identityOf files segmenter key batchSize file))
          { region' with metadata := some (initialMetadata
            (identityOf files segmenter key batchSize file)) } = false := rfl
      rw [hnot]
      intro i table hi
      rw [hempty i] at hi
      cases hi

/-- **The rows of a run**: its table has only rows it took over and rows of its own segmenter. -/
theorem runProject_rows
    (hnew₀ : ∀ rows table s, splitSections sha256 segmenter batchSize rows = .ok (table, s) →
      ∀ r ∈ table, P₀ r)
    (hnew : ∀ rows table s, splitSections sha256 segmenter batchSize rows = .ok (table, s) →
      ∀ r ∈ table, P r)
    {source : Option F} (h : Tidy P₀ key region)
    (hreused : ∀ r ∈ reusedRows files segmenter key batchSize source region, P r) :
    wp (runProject glob files sha256 segmenter key batchSize source)
      (fun summary region' => Tidy P₀ key region' ∧ summary.mergeKey = key.mergeKey
        ∧ OutputRows P region')
      (fun _ => Replaced P₀ P key region.output) (Replaced P₀ P key region.output) region := by
  unfold runProject
  cases source with
  | none => exact ⟨h, Or.inl rfl⟩
  | some file =>
    dsimp only
    split
    · simp only [runCheckpoint, wp_bind, wp_get]
      refine wp_imp ?_ (newCheckpoint_rows h hreused)
      rintro m region₁ ⟨htidy, hmeta, hout, hrows⟩
      split
      · rename_i hmatches
        rw [if_pos hmatches] at hrows
        cases hsummary : m.summary with
        | none => exact ⟨htidy, Or.inl hout⟩
        | some summary => exact ⟨htidy, htidy.summary m summary hmeta hsummary, hrows⟩
      · rename_i hmatches
        rw [if_neg hmatches] at hrows
        have hstart : Collecting P₀ P key region.output m region₁ := ⟨htidy, hmeta, hout, hrows⟩
        simp only [wp_bind]
        refine wp_imp ?_ (processSource_rows hnew₀ hnew hstart)
        intro progress region₂ h₂
        refine wp_imp ?_ (markComplete_rows h₂)
        intro m₃ region₃ h₃
        simp only [writeOutput, wp_bind, wp_get]
        cases htables : checkpointTables region₃
            (List.range (files.iterBatches batchSize file).length) with
        | error e => exact h₃.replaced
        | ok tables =>
          have hP := checkpointTables_rows h₃.rows htables
          have htidy₄ : Tidy P₀ key { region₃ with output := some tables } := by
            refine ⟨h₃.tidy.batches, ?_, h₃.tidy.summary⟩
            intro tables' htables'
            cases htables'
            exact checkpointTables_rows h₃.tidy.batches htables
          have hrows₄ : OutputRows P { region₃ with output := some tables } := by
            intro tables' htables'
            cases htables'
            exact hP
          simp only [wp_step, finalize]
          refine ⟨h₃.replaced, ?_⟩
          split
          · simp only [writeMetadata, wp_bind, wp_step, wp_pure]
            refine ⟨⟨htidy₄, Or.inr hrows₄⟩, ?_⟩
            have htidy₅ := htidy₄.metadata (m := { m₃ with
              outputPath := some (sentencePath key)
              outputHash := some (files.outputHash tables)
              summary := some (progress.counters.summary progress.rowCount key) })
              (by rintro s ⟨⟩; rfl)
            refine wp_mono ?_ (fun _ _ h => h.elim) ?_ (removePayloads_tidy htidy₅)
            · rintro _ region₆ ⟨htidy₆, -, hout₆, -⟩
              refine ⟨htidy₆, rfl, ?_⟩
              intro tables' htables'
              exact hrows₄ tables' (hout₆ ▸ htables')
            · rintro region₆ ⟨htidy₆, hout₆⟩
              refine ⟨htidy₆, Or.inr ?_⟩
              intro tables' htables'
              exact hrows₄ tables' (hout₆ ▸ htables')
          · exact ⟨htidy₄, Or.inr hrows₄⟩
    · exact ⟨h, Or.inl rfl⟩

theorem runProject_keeps {source : Option F}
    (hkeep : keepsTable files segmenter key batchSize source region = true) :
    wp (runProject glob files sha256 segmenter key batchSize source)
      (fun _ region' => region' = region) (fun _ region' => region' = region)
      (fun region' => region' = region) region := by
  unfold keepsTable at hkeep
  cases source with
  | none => cases hkeep
  | some file =>
    cases hm : region.metadata with
    | none =>
      rw [hm] at hkeep
      cases hkeep
    | some m =>
      rw [hm] at hkeep
      simp only [Bool.and_eq_true, decide_eq_true_eq] at hkeep
      obtain ⟨hid, hmatches⟩ := hkeep
      unfold runProject
      dsimp only
      split
      · simp only [wp_bind, newCheckpoint]
        split
        · rfl
        · simp only [prepare, wp_bind, wp_get, hm, Option.map_some, hid, if_true,
            wp_pure, Option.getD_some, runCheckpoint, hmatches]
          cases m.summary <;> rfl
      · rfl

end

/-! ## The release -/

section

variable {F H : Type}

/-- The manifest lists a key. -/
def Manifest.Lists (m : Manifest) (key : Key) : Prop := ∃ s ∈ m.regions, s.mergeKey = key.mergeKey

/-- **Provenance**: the split rows of the listed tables carry the version and the model that the
manifest names. -/
def Provenance (release : Release H) : Prop :=
  ∀ m, release.manifest = some m → ∀ key, m.Lists key →
    OutputRows (fun r => r.stamp.segmentationStatus = .split →
      r.stamp.segmenterVersion = m.segmenterVersion ∧ r.stamp.modelId = m.modelId)
      (release.regions key)

/-- A split row comes from the one supported model. -/
def FromModel (r : SentenceRow) : Prop :=
  r.stamp.segmentationStatus = .split → r.stamp.modelId = satModelId

/-- A split row comes from a version. -/
def FromVersion (version : String) (r : SentenceRow) : Prop :=
  r.stamp.segmentationStatus = .split → r.stamp.segmenterVersion = version

/-- The invariant of the release. -/
structure ReleaseOk (release : Release H) : Prop where
  provenance : Provenance release
  tidy : ∀ key, Tidy FromModel key (release.regions key)
  model : ∀ m, release.manifest = some m → m.modelId = satModelId

/-- The manifest, if there is one, names the version of the segmenter. -/
def VersionAgrees (segmenter : Segmenter) (release : Release H) : Prop :=
  ∀ m, release.manifest = some m → m.segmenterVersion = segmenter.version

theorem Project.name_injective : Function.Injective Project.name := by
  intro project project' h
  cases project <;> cases project' <;> simp_all [Project.name]

theorem mergeKey_injective {key key' : Key} (h : key.mergeKey = key'.mergeKey) : key = key' := by
  obtain ⟨hstem, hproject⟩ := Prod.mk.inj h
  obtain ⟨stem, project⟩ := key
  obtain ⟨stem', project'⟩ := key'
  obtain rfl : stem = stem' := hstem
  obtain rfl : project = project' := Project.name_injective hproject
  rfl

/-! ### Replacing one region -/

theorem regions_put_self (key : Key) (region : Region H) (release : Release H) :
    ((regionPart key).put region release).regions key = region := by
  simp [regionPart]

theorem regions_put_of_ne {key key' : Key} (hne : key' ≠ key) (region : Region H)
    (release : Release H) :
    ((regionPart key).put region release).regions key' = release.regions key' := by
  simp [regionPart, hne]

variable {release : Release H}

theorem ReleaseOk.put (h : ReleaseOk release) {key : Key} {region : Region H}
    (htidy : Tidy FromModel key region)
    (hlisted : ∀ m, release.manifest = some m → m.Lists key →
      region.output = (release.regions key).output
        ∨ OutputRows (FromVersion m.segmenterVersion) region) :
    ReleaseOk ((regionPart key).put region release) := by
  refine ⟨?_, ?_, h.model⟩
  · intro m hm key' hlists
    by_cases hkey : key' = key
    · subst hkey
      rw [regions_put_self]
      rcases hlisted m hm hlists with hout | hrows
      · intro tables htables
        exact h.provenance m hm key' hlists tables (hout ▸ htables)
      · intro tables htables r hr hsplit
        refine ⟨hrows tables htables r hr hsplit, ?_⟩
        rw [h.model m hm]
        exact htidy.output tables htables r hr hsplit
    · rw [regions_put_of_ne hkey]
      exact h.provenance m hm key' hlists
  · intro key'
    by_cases hkey : key' = key
    · subst hkey
      rw [regions_put_self]
      exact htidy
    · rw [regions_put_of_ne hkey]
      exact h.tidy key'

/-! ### Safe runs -/

variable [DecidableEq H] (glob : GlobOrder) (files : SectionFiles F H)
variable (sha256 : String → String) (segmenter : Segmenter) (batchSize : Int) (v2 : V2Tree F)

/-- The keys of a run. -/
def keysOf (stems : Option (List String)) : List Key :=
  match selectedStems v2.finalized stems with
  | .ok selected => selected.flatMap (projectKeys v2)
  | .error _ => []

/-- A run is safe if the rows it takes over carry its own version, and if, when the manifest names
another version, it finds each listed table finished. -/
structure SafeRun (stems : Option (List String)) (release : Release H) : Prop where
  reused : VersionAgrees segmenter release → ∀ key ∈ keysOf v2 stems,
    ∀ r ∈ reusedRows files segmenter key batchSize (v2.source key) (release.regions key),
      FromVersion segmenter.version r
  kept : ¬ VersionAgrees segmenter release → ∀ key ∈ keysOf v2 stems,
    (∃ m, release.manifest = some m ∧ m.Lists key) →
      keepsTable files segmenter key batchSize (v2.source key) (release.regions key) = true

/-! ### The regions of a run -/

variable {glob files sha256 segmenter batchSize v2}

omit [DecidableEq H] in
theorem splitSections_fromModel (hmodel : segmenter.modelId = satModelId) (rows : List SectionRow)
    (table : List SentenceRow) (s : SplitSummary)
    (h : splitSections sha256 segmenter batchSize rows = .ok (table, s)) :
    ∀ r ∈ table, FromModel r :=
  fun r hr hsplit => (splitSections_stamp h r hr hsplit).2.trans hmodel

omit [DecidableEq H] in
theorem splitSections_fromVersion (rows : List SectionRow) (table : List SentenceRow)
    (s : SplitSummary) (h : splitSections sha256 segmenter batchSize rows = .ok (table, s)) :
    ∀ r ∈ table, FromVersion segmenter.version r :=
  fun r hr hsplit => (splitSections_stamp h r hr hsplit).1

variable {keys : List Key} {summaries : List RegionSummary}

theorem runKeys_agrees (hmodel : segmenter.modelId = satModelId) (hnodup : keys.Nodup)
    (h : ReleaseOk release) (hagrees : VersionAgrees segmenter release) (hreused : ∀ key ∈ keys,
      ∀ r ∈ reusedRows files segmenter key batchSize (v2.source key) (release.regions key),
        FromVersion segmenter.version r) :
    wp (runKeys glob files sha256 segmenter batchSize v2 keys)
      (fun summaries release' => ReleaseOk release' ∧ release'.manifest = release.manifest
        ∧ (∀ key ∉ keys, release'.regions key = release.regions key)
        ∧ (∀ s ∈ summaries, ∃ key ∈ keys, s.mergeKey = key.mergeKey)
        ∧ ∀ key ∈ keys, OutputRows (FromVersion segmenter.version) (release'.regions key))
      (fun _ release' => ReleaseOk release') (fun release' => ReleaseOk release') release := by
  induction keys generalizing release with
  | nil =>
    simp only [runKeys, wp_pure]
    exact ⟨h, trivial, fun _ _ => trivial, by simp, by simp⟩
  | cons key keys ih =>
    obtain ⟨hkey, hnodup'⟩ := List.nodup_cons.mp hnodup
    have hput : ∀ region, Replaced FromModel (FromVersion segmenter.version) key
        (release.regions key).output region →
        ReleaseOk ((regionPart key).put region release) := by
      rintro region ⟨htidy, hout⟩
      refine h.put htidy ?_
      intro m hm _
      rw [hagrees m hm]
      exact hout
    simp only [runKeys, wp_bind, wp_focus]
    refine wp_mono ?_ (fun _ region => hput region) hput
      (runProject_rows (splitSections_fromModel hmodel) splitSections_fromVersion (h.tidy key)
        (hreused key List.mem_cons_self))
    rintro summary region ⟨htidy, hsummary, hrows⟩
    have hreused' : ∀ key' ∈ keys, ∀ r ∈ reusedRows files segmenter key' batchSize
        (v2.source key') (((regionPart key).put region release).regions key'),
        FromVersion segmenter.version r := by
      intro key' hkey'
      have hne : key' ≠ key := fun heq => hkey (heq ▸ hkey')
      rw [regions_put_of_ne hne]
      exact hreused key' (List.mem_cons_of_mem key hkey')
    simp only [wp_pure]
    refine wp_imp ?_ (ih hnodup' (hput region ⟨htidy, Or.inr hrows⟩) hagrees hreused')
    rintro summaries release' ⟨hok, hmanifest, hframe, hsummaries, houtput⟩
    refine ⟨hok, hmanifest, ?_, ?_, ?_⟩
    · intro key' hkey'
      rw [List.mem_cons, not_or] at hkey'
      rw [hframe key' hkey'.2, regions_put_of_ne hkey'.1]
    · rw [List.forall_mem_cons]
      refine ⟨⟨key, List.mem_cons_self, hsummary⟩, ?_⟩
      intro s hs
      obtain ⟨key', hkey', hmerge⟩ := hsummaries s hs
      exact ⟨key', List.mem_cons_of_mem key hkey', hmerge⟩
    · rw [List.forall_mem_cons]
      refine ⟨?_, houtput⟩
      rw [hframe key hkey, regions_put_self]
      exact hrows

theorem runKeys_disagrees (hmodel : segmenter.modelId = satModelId) (hnodup : keys.Nodup)
    (h : ReleaseOk release) (hkept : ∀ key ∈ keys, (∃ m, release.manifest = some m ∧ m.Lists key) →
      keepsTable files segmenter key batchSize (v2.source key) (release.regions key) = true) :
    wp (runKeys glob files sha256 segmenter batchSize v2 keys)
      (fun _ release' => ReleaseOk release' ∧ release'.manifest = release.manifest)
      (fun _ release' => ReleaseOk release') (fun release' => ReleaseOk release') release := by
  induction keys generalizing release with
  | nil =>
    simp only [runKeys, wp_pure]
    exact ⟨h, trivial⟩
  | cons key keys ih =>
    obtain ⟨hkey, hnodup'⟩ := List.nodup_cons.mp hnodup
    have hrest : ∀ region, ∀ key' ∈ keys,
        (∃ m, ((regionPart key).put region release).manifest = some m ∧ m.Lists key') →
        keepsTable files segmenter key' batchSize (v2.source key')
          (((regionPart key).put region release).regions key') = true := by
      intro region key' hkey'
      have hne : key' ≠ key := fun heq => hkey (heq ▸ hkey')
      rw [regions_put_of_ne hne]
      exact hkept key' (List.mem_cons_of_mem key hkey')
    simp only [runKeys, wp_bind, wp_focus, wp_pure]
    by_cases hlisted : ∃ m, release.manifest = some m ∧ m.Lists key
    · have hsame := (regionPart key).put_view release
      have hsameOk : ReleaseOk ((regionPart key).put ((regionPart key).view release) release) := by
        rw [hsame]
        exact h
      refine wp_mono ?_ ?_ ?_ (runProject_keeps (hkept key List.mem_cons_self hlisted))
      · rintro summary region rfl
        exact ih hnodup' hsameOk (hrest _)
      · rintro e region rfl
        exact hsameOk
      · rintro region rfl
        exact hsameOk
    · have hput : ∀ region, Tidy FromModel key region →
          ReleaseOk ((regionPart key).put region release) := by
        intro region htidy
        refine h.put htidy ?_
        intro m hm hlists
        exact absurd ⟨m, hm, hlists⟩ hlisted
      refine wp_mono ?_ (fun _ region hr => hput region hr.1) (fun region hr => hput region hr.1)
        (runProject_rows (P := fun _ => True) (splitSections_fromModel hmodel)
          (fun _ _ _ _ _ _ => trivial) (h.tidy key) (fun _ _ => trivial))
      rintro summary region ⟨htidy, -, -⟩
      exact ih hnodup' (hput region htidy) (hrest region)

/-! ### The manifest of a run -/

omit [DecidableEq H] in
theorem mem_orderedSummaries {s : RegionSummary}
    (h : s ∈ orderedSummaries (mergedSummaries summaries)) : s ∈ summaries := by
  have hlookup : ∀ (merged : AList (fun _ : String × String => RegionSummary)) key s,
      (summaries.foldl (fun merged s => merged.insert s.mergeKey s) merged).lookup key = some s →
        s ∈ summaries ∨ merged.lookup key = some s := by
    clear h
    induction summaries with
    | nil => exact fun merged key s hs => Or.inr hs
    | cons s₀ summaries ih =>
      intro merged key s hs
      rcases ih _ key s hs with hmem | hins
      · exact Or.inl (List.mem_cons_of_mem s₀ hmem)
      · by_cases hkey : key = s₀.mergeKey
        · subst hkey
          rw [AList.lookup_insert] at hins
          cases hins
          exact Or.inl List.mem_cons_self
        · rw [AList.lookup_insert_ne hkey] at hins
          exact Or.inr hins
  obtain ⟨key, -, hkey⟩ := List.mem_filterMap.mp h
  rcases hlookup ∅ key s hkey with hmem | hempty
  · exact hmem
  · cases hempty

omit [DecidableEq H] in
theorem writeManifest_agrees (hmodel : segmenter.modelId = satModelId) (h : ReleaseOk release)
    (hagrees : VersionAgrees segmenter release)
    (hsummaries : ∀ s ∈ summaries, ∃ key ∈ keys, s.mergeKey = key.mergeKey)
    (houtput : ∀ key ∈ keys, OutputRows (FromVersion segmenter.version) (release.regions key)) :
    wp (writeManifest segmenter summaries)
      (fun _ release' => ReleaseOk release')
      (fun _ release' => ReleaseOk release') (fun release' => ReleaseOk release') release := by
  simp only [writeManifest, wp_bind, wp_get]
  cases hload : loadManifestSummaries segmenter release.manifest with
  | error e => exact h
  | ok loaded =>
    refine ⟨h, ?_, h.tidy, ?_⟩
    · intro m hm key hlists tables htables r hr hsplit
      cases hm
      refine ⟨?_, (h.tidy key).output tables htables r hr hsplit |>.trans hmodel.symm⟩
      obtain ⟨s, hs, hkey⟩ := hlists
      rcases List.mem_append.mp (mem_orderedSummaries hs) with hold | hnew
      · -- listed by the manifest of an earlier run
        cases hmanifest : release.manifest with
        | none =>
          rw [hmanifest] at hload
          cases hload
          cases hold
        | some m =>
          simp only [hmanifest, loadManifestSummaries] at hload
          split at hload
          · cases hload
            have hrow := h.provenance m hmanifest key ⟨s, hold, hkey⟩ tables htables r hr hsplit
            exact hrow.1.trans (hagrees m hmanifest)
          · cases hload
      · obtain ⟨key', hkey', hmerge⟩ := hsummaries s hnew
        obtain rfl : key = key' := mergeKey_injective (hkey.symm.trans hmerge)
        exact houtput key hkey' tables htables r hr hsplit
    · intro m hm
      cases hm
      exact hmodel

omit [DecidableEq H] in
theorem writeManifest_disagrees (h : ReleaseOk release)
    (hdisagrees : ¬ VersionAgrees segmenter release) :
    wp (writeManifest segmenter summaries) (fun _ _ => False)
      (fun _ release' => ReleaseOk release') (fun release' => ReleaseOk release') release := by
  simp only [writeManifest, wp_bind, wp_get]
  obtain ⟨m, hm, hne⟩ : ∃ m, release.manifest = some m
      ∧ m.segmenterVersion ≠ segmenter.version := by
    simpa [VersionAgrees] using hdisagrees
  have hnot : manifestUsesSegmenter m segmenter = false := by
    simp [manifestUsesSegmenter, hne]
  simp only [hm, loadManifestSummaries, hnot]
  exact h

/-! ### Whole runs -/

omit [DecidableEq H] in
variable (v2) in
theorem nodup_keysOf (stems : Option (List String)) : (keysOf v2 stems).Nodup := by
  unfold keysOf
  cases hsel : selectedStems v2.finalized stems with
  | error e => exact List.nodup_nil
  | ok selected =>
    have hselected : selected.Nodup := by
      have hset : (sortedSet (stems.getD v2.finalized)).Nodup :=
        (List.perm_insertionSort _ _).nodup_iff.mpr (List.nodup_dedup _)
      unfold selectedStems at hsel
      dsimp only at hsel
      split at hsel
      · cases hsel
      · split at hsel
        · cases hsel
        · split at hsel
          · cases hsel
          · split at hsel
            · cases hsel
            · cases hsel
              exact hset
    have hstem : ∀ stem, ∀ key ∈ projectKeys v2 stem, key.stem = stem := by
      intro stem key hkey
      unfold projectKeys at hkey
      rcases List.mem_cons.mp hkey with rfl | hkey
      · rfl
      · split at hkey
        · rw [List.mem_singleton.mp hkey]
        · cases hkey
    dsimp only
    rw [List.nodup_flatMap]
    refine ⟨?_, hselected.imp ?_⟩
    · intro stem _
      unfold projectKeys
      split <;> simp
    · intro stem stem' hne key hkey hkey'
      exact hne ((hstem stem key hkey).symm.trans (hstem stem' key hkey'))

variable (glob sha256) in
/-- **One safe run** keeps the invariant, wherever it is killed. -/
theorem runV2SentenceSplit_wp {stems : Option (List String)}
    (h : ReleaseOk release) (hsafe : SafeRun files segmenter batchSize v2 stems release) :
    wp (runV2SentenceSplit glob files sha256 segmenter batchSize v2 stems)
      (fun _ release' => ReleaseOk release')
      (fun _ release' => ReleaseOk release') (fun release' => ReleaseOk release') release := by
  unfold runV2SentenceSplit
  split
  · exact h
  · split
    · exact h
    · rename_i hmodel
      rw [ne_eq, not_not] at hmodel
      have hnodup := nodup_keysOf v2 stems
      obtain ⟨hreused, hkept⟩ := hsafe
      unfold keysOf at hnodup hreused hkept
      cases hsel : selectedStems v2.finalized stems with
      | error e => exact h
      | ok selected =>
        rw [hsel] at hnodup hreused hkept
        dsimp only at hnodup hreused hkept ⊢
        simp only [wp_bind, wp_pure]
        by_cases hagrees : VersionAgrees segmenter release
        · refine wp_imp ?_ (runKeys_agrees hmodel hnodup h hagrees (hreused hagrees))
          rintro summaries release' ⟨hok, hmanifest, -, hsummaries, houtput⟩
          apply writeManifest_agrees hmodel hok ?_ hsummaries houtput
          unfold VersionAgrees
          rw [hmanifest]
          exact hagrees
        · refine wp_imp ?_ (runKeys_disagrees hmodel hnodup h (hkept hagrees))
          rintro summaries release' ⟨hok, hmanifest⟩
          refine wp_imp (fun _ _ h => h.elim) (writeManifest_disagrees hok ?_)
          unfold VersionAgrees
          rw [hmanifest]
          exact hagrees

variable (glob files sha256) in
/-- The releases that runs leave behind, each with its own segmenter, batch size, V2 tree and
regions, killed in front of any file operation, failed or finished, as long as each run is safe. -/
inductive SafelyReachable : Release H → Prop where
  | empty : SafelyReachable (Release.empty H)
  | run {release : Release H} (segmenter : Segmenter) (batchSize : Int) (v2 : V2Tree F)
      (stems : Option (List String)) (kill : Nat) (h : SafelyReachable release)
      (hsafe : SafeRun files segmenter batchSize v2 stems release) :
      SafelyReachable (Prog.exec (runV2SentenceSplit glob files sha256 segmenter batchSize v2
        stems) kill release).state

omit [DecidableEq H] in
theorem releaseOk_empty : ReleaseOk (Release.empty H) := by
  refine ⟨?_, ?_, ?_⟩
  · intro m hm
    cases hm
  · intro key
    refine ⟨?_, ?_, ?_⟩
    · intro i table hi
      cases hi
    · intro tables htables
      cases htables
    · intro m s hm
      cases hm
  · intro m hm
    cases hm

/-- **Provenance of the release**: as long as every run is safe, the listed tables carry the
version and the model that the manifest names, in every state that is reached. -/
theorem provenance_of_safeRuns
    (h : SafelyReachable glob files sha256 release) : Provenance release := by
  suffices hok : ReleaseOk release from hok.provenance
  induction h with
  | empty => exact releaseOk_empty
  | run segmenter batchSize v2 stems kill _ hsafe ih =>
    have hwp := wp_exec (runV2SentenceSplit_wp glob sha256 ih hsafe) kill
    revert hwp
    cases Prog.exec (runV2SentenceSplit glob files sha256 segmenter batchSize v2 stems) kill _ with
    | done summaries release' => exact fun hdone => hdone
    | raised e release' => exact fun hraised => hraised
    | killed release' => exact fun hkilled => hkilled

end

namespace Example

/-- One region with a Wikipedia section table. -/
def tree : V2Tree (List SectionRow) :=
  ⟨["malta-latest"], fun k => if k = key then some table else none⟩

/-- The release after a run of version 1 that was killed in front of the manifest. -/
def killedRelease : Release (List SectionRow ⊕ List (List SentenceRow)) :=
  (Prog.exec (runV2SentenceSplit glob files id (segmenter "1") 1 tree none) 10
    (Release.empty _)).state

/-- A run over this release. -/
def rerun (version : String) :
    Except SentenceError (List RegionSummary)
      × Release (List SectionRow ⊕ List (List SentenceRow)) :=
  Prog.run (runV2SentenceSplit glob files id (segmenter version) 1 tree none) killedRelease

/-- The versions of the split rows in the table. -/
def splitVersions (release : Release (List SectionRow ⊕ List (List SentenceRow))) : List String :=
  ((((release.regions key).output.getD []).flatten).filter (fun r =>
    r.stamp.segmentationStatus = .split)).map (fun r => r.stamp.segmenterVersion)

/-- The run of version 2 returns. The manifest names version 2, and the table has a row of
version 1. -/
theorem version_changed_not_provenance :
    (rerun "2").1.isOk = true ∧ ¬ Provenance (rerun "2").2 := by
  refine ⟨by decide, fun h => ?_⟩
  have hversions : splitVersions (rerun "2").2 = ["1"] := by decide
  have hmanifest : ((rerun "2").2.manifest.map (fun m => (m.segmenterVersion,
      m.regions.map RegionSummary.mergeKey))) = some ("2", [key.mergeKey]) := by decide
  obtain ⟨m, hm, hpair⟩ := Option.map_eq_some_iff.mp hmanifest
  obtain ⟨hversion, hkeys⟩ := Prod.mk.inj hpair
  have hlists : m.Lists key := by
    have hmem : key.mergeKey ∈ m.regions.map RegionSummary.mergeKey := by
      rw [hkeys]
      exact List.mem_singleton_self _
    obtain ⟨s, hs, hkey⟩ := List.mem_map.mp hmem
    exact ⟨s, hs, hkey⟩
  have hmem : "1" ∈ splitVersions (rerun "2").2 := by
    rw [hversions]
    exact List.mem_singleton_self _
  obtain ⟨r, hr, hone⟩ := List.mem_map.mp hmem
  obtain ⟨hr, hsplit⟩ := List.mem_filter.mp hr
  cases hout : ((rerun "2").2.regions key).output with
  | none =>
    rw [hout] at hr
    cases hr
  | some tables =>
    rw [hout] at hr
    have hrow := (h m hm key hlists tables hout r hr (by simpa using hsplit)).1
    rw [hone, hversion] at hrow
    exact absurd hrow (by decide)

theorem reusedRows_version : ∀ k ∈ keysOf tree none,
    ∀ r ∈ reusedRows files (segmenter "1") k 1 (tree.source k) (killedRelease.regions k),
      FromVersion "1" r := by
  have hall : (keysOf tree none).all (fun k => (reusedRows files (segmenter "1") k 1
      (tree.source k) (killedRelease.regions k)).all (fun r =>
        r.stamp.segmenterVersion = "1" || r.stamp.segmentationStatus ≠ .split)) = true := by
    decide
  intro k hk r hr hsplit
  have hrow := List.all_eq_true.mp (List.all_eq_true.mp hall k hk) r hr
  simpa [hsplit] using hrow

theorem killedRelease_reachable : SafelyReachable glob files id killedRelease := by
  refine .run (segmenter "1") 1 tree none 10 .empty ⟨?_, ?_⟩
  · intro _ k _
    rw [reusedRows_of_none _ _ _ _ rfl]
    simp
  · intro hdisagrees
    refine absurd ?_ hdisagrees
    intro m hm
    cases hm

theorem same_version_provenance : (rerun "1").1.isOk = true
      ∧ Provenance (Prog.exec (runV2SentenceSplit glob files id (segmenter "1") 1 tree none) 2
        killedRelease).state := by
  refine ⟨by decide, provenance_of_safeRuns
    (.run (segmenter "1") 1 tree none 2 killedRelease_reachable ⟨?_, ?_⟩)⟩
  · intro _
    exact reusedRows_version
  · intro hdisagrees
    refine absurd ?_ hdisagrees
    intro m hm
    have hnone : killedRelease.manifest = none := by decide
    rw [hnone] at hm
    cases hm

end Example

end OsmPolygonWikidata.Sentences
