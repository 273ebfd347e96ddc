import OsmPolygonWikidata.Augmentation.DocumentMigration
import OsmPolygonWikidata.Publication.PendingPublications

/-! # Applying the migration of Wikipedia documents

`augmentation/_wikipedia_document_migration/application.py`. Before anything is written the tree is
planned again, and every stem has to be as it was, or canonical by now with the digest that was
planned. Then the document tables are written one after the other, each after its own check.

`applyMigration_correct` says what an apply leaves behind, and that it raises before the first write
when a file has changed.
-/

namespace OsmPolygonWikidata.Augmentation.DocumentMigration

open Python
open PendingPublications (isSafeStem)
open V1Index (DocumentRow wikipediaDocumentFromArticleRow)

/-! ## Before the first write -/

/-- `_APPLY_WRITE` and `_APPLY_SKIP`. -/
inductive Action where
  | write
  | skip

/-- `_became_canonical`. -/
def becameCanonical (planned current : StemPlan) : Bool :=
  planned.operation ∈ [.createMissing, .upgradeLegacy] && current.operation = .alreadyCanonical
    && planned.articleHash = current.articleHash
    && planned.rowCount = current.rowCount
    && planned.canonicalDigest = current.canonicalDigest

/-- `"unreadable" in reason`. -/
def mentionsUnreadable (reason : String) : Bool :=
  reason.toList.tails.any (fun tail => "unreadable".toList.isPrefixOf tail)

/-- The message of `_raise_transition_conflict`. -/
def transitionConflict (planned current : StemPlan) : String :=
  if planned.articleHash ≠ current.articleHash then
    s!"Stem '{planned.stem}': article file changed after planning"
  else if current.operation = .blocked ∧ mentionsUnreadable current.reason then
    s!"Stem '{planned.stem}': {current.reason}"
  else if planned.operation = .createMissing ∧ current.documentHash ≠ none then
    s!"Stem '{planned.stem}': conflicting target appeared after planning"
  else if planned.documentHash ≠ current.documentHash then
    s!"Stem '{planned.stem}': document file changed after planning"
  else s!"Stem '{planned.stem}': migration plan changed after validation"

/-- `_transition_action`. -/
def transitionAction (planned current : StemPlan) : Except Failure Action :=
  if planned = current then
    if current.operation = .alreadyCanonical then .ok .skip else .ok .write
  else if becameCanonical planned current then .ok .skip
  else .error (.migration (transitionConflict planned current))

section

variable {C T : Type} (lib : Library C T)

def validateStemPath (tree : Processed C) (stem : String) : Except Failure Unit :=
  if isSafeStem stem then
    if lib.targetInside tree stem then .ok ()
    else .error (.migration s!"Stem '{stem}': target path escapes documents directory")
  else if stem ∈ ["", ".", ".."] then .error (.migration s!"Invalid stem name: '{stem}'")
  else .error (.migration s!"Stem '{stem}': must not contain path separators")

def validateApplyInputs (plan : List StemPlan) (tree : Processed C) : Except Failure Unit := do
  if isSafeToApply plan then
    if lib.documentsInside tree then
      plan.forM (fun sp => validateStemPath lib tree sp.stem)
    else
      throw (.migration "Wikipedia documents directory escapes processed directory")
  else
    let blocked := (plan.filter (fun sp => sp.operation = .blocked)).map StemPlan.stem
    throw (.migration (s!"Plan is not safe to apply: {blocked.length} blocked stem(s): "
      ++ lib.repr blocked))

/-- `_revalidated_actions`: the plans of the current tree, each with its action. -/
def revalidatedActions (plan : List StemPlan) (tree : Processed C) :
    Except Failure (List (StemPlan × Action)) := do
  let current ← planMigration lib tree (some (plan.map StemPlan.stem))
  if current.map StemPlan.stem = plan.map StemPlan.stem then
    (plan.zip current).mapM (fun pair => do
      let action ← transitionAction pair.1 pair.2
      return (pair.2, action))
  else throw (.migration "Migration plan stem set changed after validation")

/-! ## Writing -/

def validateArticleBeforeWrite (sp : StemPlan) (article : PathState C) : Except Failure Unit :=
  match fileContentHash lib article with
  | .error error =>
    .error (.migration s!"Stem '{sp.stem}': article file unreadable before write ({error})")
  | .ok hash =>
    if hash = sp.articleHash then .ok ()
    else .error (.migration s!"Stem '{sp.stem}': article file changed before write")

def validateUpgradeTarget (sp : StemPlan) (target : PathState C) : Except Failure Unit :=
  if target.isFile then
    match fileContentHash lib target with
    | .error error =>
      .error (.migration s!"Stem '{sp.stem}': document unreadable before write ({error})")
    | .ok hash =>
      if some hash = sp.documentHash then .ok ()
      else .error (.migration s!"Stem '{sp.stem}': document changed before write")
  else .error (.migration s!"Stem '{sp.stem}': document disappeared before write")

def validateTargetBeforeWrite (sp : StemPlan) (target : PathState C) : Except Failure Unit :=
  match sp.operation with
  | .createMissing =>
    if target.exists then
      .error (.migration s!"Stem '{sp.stem}': target appeared before write")
    else .ok ()
  | .upgradeLegacy => validateUpgradeTarget lib sp target
  | _ => .ok ()

def validateCanonicalOutput (sp : StemPlan) (table : T) : Except Failure Unit :=
  if (lib.contents table).rows.length = sp.rowCount
      ∧ some (lib.tableDigest table) = sp.canonicalDigest then .ok ()
  else .error (.migration s!"Stem '{sp.stem}': canonical output changed before write")

def rebuildTableForWrite (sp : StemPlan) (tree : Processed C) : Except Failure T := do
  validateArticleBeforeWrite lib sp (tree.article sp.stem)
  validateTargetBeforeWrite lib sp (tree.document sp.stem)
  let articles ← (readArticleTable lib (tree.article sp.stem) sp.stem).mapError .migration
  let table ← (canonicalTable lib articles).mapError .conversion
  validateCanonicalOutput lib sp table
  return table

/-- The tree, and the stems whose tables have been written. -/
structure Disk (C : Type) where
  tree : Processed C
  written : List String
  deriving DecidableEq

/-- `atomic_write_parquet`, when it does not fail. -/
def Disk.write (disk : Disk C) (stem : String) (contents : C) : Disk C where
  tree := { disk.tree with
    documents := Dict.put Prod.fst (stem, .file contents) disk.tree.documents }
  written := disk.written ++ [stem]

/-- The lists that `_execute_actions` returns. -/
structure Applied where
  created : List String
  upgraded : List String
  skipped : List String

def recordAppliedStem (sp : StemPlan) (applied : Applied) : Applied :=
  if sp.operation = .createMissing then { applied with created := applied.created ++ [sp.stem] }
  else { applied with upgraded := applied.upgraded ++ [sp.stem] }

/-- `_execute_actions`, from `applied` on. -/
def executeActions : List (StemPlan × Action) → Applied → Disk C → Except Failure Applied × Disk C
  | [], applied, disk => (.ok applied, disk)
  | (sp, .skip) :: steps, applied, disk =>
    executeActions steps { applied with skipped := applied.skipped ++ [sp.stem] } disk
  | (sp, .write) :: steps, applied, disk =>
    match rebuildTableForWrite lib sp disk.tree with
    | .error failure => (.error failure, disk)
    | .ok table =>
      if lib.writeFails disk.tree sp.stem then (.error .osError, disk)
      else executeActions steps (recordAppliedStem sp applied)
        (disk.write sp.stem (lib.writeTable table))

structure ApplyResult where
  planned : Nat
  created : Nat
  upgraded : Nat
  skipped : Nat
  blocked : Nat
  createdStems : List String
  upgradedStems : List String
  skippedStems : List String
  blockedStems : List String
  deriving DecidableEq

/-- `apply_migration`. -/
def applyMigration (plan : List StemPlan) (disk : Disk C) : Except Failure ApplyResult × Disk C :=
  match validateApplyInputs lib plan disk.tree with
  | .error failure => (.error failure, disk)
  | .ok () =>
    match revalidatedActions lib plan disk.tree with
    | .error failure => (.error failure, disk)
    | .ok steps =>
      let (outcome, disk') := executeActions lib steps ⟨[], [], []⟩ disk
      (outcome.map (fun applied =>
        { planned := plan.length
          created := applied.created.length
          upgraded := applied.upgraded.length
          skipped := applied.skipped.length
          blocked := 0
          createdStems := applied.created
          upgradedStems := applied.upgraded
          skippedStems := applied.skipped
          blockedStems := [] }), disk')

end

/-! ## The action of a stem -/

section

variable {C T : Type} {lib : Library C T} {tree : Processed C} {disk disk' : Disk C}
  {plan : List StemPlan} {planned current : StemPlan} {steps : List (StemPlan × Action)}
  {applied result : Applied}

theorem operation_of_becameCanonical (h : becameCanonical planned current = true) :
    current.operation = .alreadyCanonical := by
  simp only [becameCanonical, Bool.and_eq_true, decide_eq_true_eq] at h
  exact h.1.1.1.2

theorem transitionAction_write (h : transitionAction planned current = .ok .write) :
    planned = current ∧ current.operation ≠ .alreadyCanonical := by
  unfold transitionAction at h
  split at h
  · rename_i heq
    split at h
    · cases h
    · exact ⟨heq, ‹_›⟩
  · split at h <;> cases h

theorem transitionAction_skip (h : transitionAction planned current = .ok .skip) :
    current.operation = .alreadyCanonical := by
  unfold transitionAction at h
  split at h
  · split at h
    · assumption
    · cases h
  · split at h
    · exact operation_of_becameCanonical ‹_›
    · cases h

/-- A step: the stem as it is now, and an action that fits to what was planned. -/
structure Revalidated (lib : Library C T) (tree : Processed C) (planned : StemPlan)
    (step : StemPlan × Action) : Prop where
  stem : step.1.stem = planned.stem
  current : classifyStem lib tree planned.stem = .ok step.1
  action : transitionAction planned step.1 = .ok step.2

theorem revalidatedActions_spec (h : revalidatedActions lib plan tree = .ok steps) :
    List.Forall₂ (Revalidated lib tree) plan steps := by
  obtain ⟨current, hcurrent, h⟩ := bind_eq_ok.mp h
  split at h
  · rename_i hstems
    have hclassify := planMigration_eq_ok_iff.mp hcurrent
    rw [← stems_of_planMigration hcurrent, hstems, List.forall₂_map_left_iff] at hclassify
    refine (forall₂_zip_comp hclassify (mapM_eq_ok_iff.mp h)).imp ?_
    rintro planned step ⟨now, hnow, hstep⟩
    obtain ⟨action, haction, hstep⟩ := bind_eq_ok.mp hstep
    cases hstep
    exact ⟨(classifyStem_spec hnow).1, hnow, haction⟩
  · cases h

/-! ## What the writes do -/

theorem Disk.document_write (disk : Disk C) (stem other : String) (contents : C) :
    (disk.write stem contents).tree.document other
      = if other = stem then .file contents else disk.tree.document other := by
  show ((Dict.put Prod.fst (stem, PathState.file contents) disk.tree.documents).lookup other).getD
    .absent = _
  rw [Dict.lookup_put]
  split <;> rfl

theorem pathStem_ne_empty (entry : String × PathState C) : pathStem entry ≠ "" := by
  unfold pathStem
  split
  · decide
  · assumption

variable {stem : String}

theorem mem_discoverAllStems : stem ∈ discoverAllStems tree
      ↔ stem ∈ tree.articles.map pathStem ∨ stem ∈ tree.documents.map pathStem := by
  rw [discoverAllStems, (List.perm_insertionSort _ _).mem_iff, List.mem_eraseDups, List.mem_append]

theorem discoverAllStems_write (h : stem ∈ discoverAllStems disk.tree) (contents : C) :
    discoverAllStems (disk.write stem contents).tree = discoverAllStems disk.tree := by
  have hne : stem ≠ "" := by
    rcases mem_discoverAllStems.mp h with h | h <;>
      obtain ⟨entry, -, rfl⟩ := List.mem_map.mp h <;> exact pathStem_ne_empty entry
  have hkeys : ∀ entries : List (String × PathState C), entries.map pathStem
      = (entries.map Prod.fst).map (fun key => if key = "" then ".parquet" else key) := by
    intro entries
    rw [List.map_map]
    rfl
  have hmem : ∀ other, other ∈ (disk.write stem contents).tree.articles.map pathStem
        ++ (disk.write stem contents).tree.documents.map pathStem
      ↔ other ∈ disk.tree.articles.map pathStem ++ disk.tree.documents.map pathStem := by
    intro other
    show other ∈ disk.tree.articles.map pathStem
      ++ (Dict.put Prod.fst (stem, PathState.file contents) disk.tree.documents).map pathStem ↔ _
    rw [hkeys (Dict.put _ _ _), Dict.keys_put]
    split
    · rw [hkeys disk.tree.documents]
    · -- the new entry is under a stem that was there
      rw [List.map_append, ← hkeys, List.map_singleton, if_neg hne, ← List.append_assoc,
        List.mem_append, List.mem_singleton, or_iff_left_iff_imp]
      rintro rfl
      exact List.mem_append.mpr (mem_discoverAllStems.mp h)
  have hinj : ∀ x ∈ (disk.write stem contents).tree.articles.map pathStem
      ++ (disk.write stem contents).tree.documents.map pathStem,
      ∀ y ∈ (disk.write stem contents).tree.articles.map pathStem
        ++ (disk.write stem contents).tree.documents.map pathStem, id x = id y → x = y :=
    fun x _ y _ heq => heq
  exact insertionSort_eraseDups_congr hmem hinj

variable {sp : StemPlan} {table : T} {c : C}

theorem rebuildTableForWrite_spec (h : rebuildTableForWrite lib sp tree = .ok table) :
    ∃ articles, readArticleTable lib (tree.article sp.stem) sp.stem = .ok articles
      ∧ canonicalTable lib articles = .ok table := by
  obtain ⟨⟨⟩, -, h⟩ := bind_eq_ok.mp h
  obtain ⟨⟨⟩, -, h⟩ := bind_eq_ok.mp h
  obtain ⟨articles, harticles, h⟩ := bind_eq_ok.mp h
  obtain ⟨built, hbuilt, h⟩ := bind_eq_ok.mp h
  obtain ⟨⟨⟩, -, h⟩ := bind_eq_ok.mp h
  cases h
  exact ⟨articles, mapError_eq_ok.mp harticles, mapError_eq_ok.mp hbuilt⟩

/-- What a run over steps does to the files. -/
structure Executed (lib : Library C T) (steps : List (StemPlan × Action)) (disk disk' : Disk C) :
    Prop where
  articles : disk'.tree.articles = disk.tree.articles
  untouched : ∀ stem, (∀ step ∈ steps, step.2 = .write → step.1.stem ≠ stem) →
    disk'.tree.document stem = disk.tree.document stem
  written : ∀ step ∈ steps, step.2 = .write → ∃ articles table,
    readArticleTable lib (disk.tree.article step.1.stem) step.1.stem = .ok articles
      ∧ canonicalTable lib articles = .ok table
      ∧ disk'.tree.document step.1.stem = .file (lib.writeTable table)
  stems : (∀ step ∈ steps, step.1.stem ∈ discoverAllStems disk.tree) →
    discoverAllStems disk'.tree = discoverAllStems disk.tree

/-- **The run of the writes**, over stems that are all different. -/
theorem executeActions_executed (hnodup : (steps.map (fun step => step.1.stem)).Nodup)
    (h : executeActions lib steps applied disk = (.ok result, disk')) :
    Executed lib steps disk disk' := by
  induction steps generalizing applied disk with
  | nil =>
    cases h
    exact ⟨rfl, fun _ _ => rfl, by simp, fun _ => rfl⟩
  | cons step steps ih =>
    obtain ⟨sp, action⟩ := step
    obtain ⟨hnew, hlaterNodup⟩ := List.nodup_cons.mp hnodup
    cases action with
    | skip =>
      have hrest := ih hlaterNodup h
      refine ⟨hrest.articles, fun stem hstem => ?_, ?_, fun hstems => ?_⟩
      · exact hrest.untouched stem fun step hstep => hstem step (List.mem_cons_of_mem _ hstep)
      · intro step hstep hwrite
        rcases List.mem_cons.mp hstep with rfl | hstep
        · cases hwrite
        · exact hrest.written step hstep hwrite
      · exact hrest.stems fun step hstep => hstems step (List.mem_cons_of_mem _ hstep)
    | write =>
      unfold executeActions at h
      split at h
      · cases h
      rename_i table htable
      split at h
      · cases h
      have hrest := ih hlaterNodup h
      obtain ⟨articles, harticles, hcanonical⟩ := rebuildTableForWrite_spec htable
      have hlater : ∀ step ∈ steps, step.1.stem ≠ sp.stem :=
        fun step hstep heq => hnew (List.mem_map.mpr ⟨step, hstep, heq⟩)
      refine ⟨hrest.articles, fun stem hstem => ?_, ?_, fun hstems => ?_⟩
      · have hother : stem ≠ sp.stem := fun heq => hstem _ List.mem_cons_self rfl heq.symm
        rw [hrest.untouched stem fun step hstep =>
          hstem step (List.mem_cons_of_mem _ hstep), Disk.document_write, if_neg hother]
      · intro step hstep hwrite
        rcases List.mem_cons.mp hstep with rfl | hstep
        · -- the later steps are about other stems
          refine ⟨articles, table, harticles, hcanonical, ?_⟩
          rw [hrest.untouched sp.stem fun step hstep _ => hlater step hstep,
            Disk.document_write, if_pos rfl]
        · exact hrest.written step hstep hwrite
      · have hwrite := discoverAllStems_write (hstems _ List.mem_cons_self)
          (lib.writeTable table)
        rw [hrest.stems fun step hstep => ?_, hwrite]
        rw [hwrite]
        exact hstems step (List.mem_cons_of_mem _ hstep)

theorem executeActions_skip (h : ∀ step ∈ steps, step.2 = .skip) :
    executeActions lib steps applied disk
      = (.ok { applied with
          skipped := applied.skipped ++ steps.map (fun step => step.1.stem) }, disk) := by
  induction steps generalizing applied with
  | nil => simp [executeActions]
  | cons step steps ih =>
    obtain ⟨sp, action⟩ := step
    obtain rfl : action = .skip := h _ List.mem_cons_self
    rw [executeActions, ih fun step hstep => h step (List.mem_cons_of_mem _ hstep)]
    simp

/-! ## What an apply leaves behind -/

/-- PyArrow keeps the rows of a converted table, in memory and in a Parquet file. -/
structure RoundTrip (lib : Library C T) : Prop where
  fromRows : ∀ articles docs,
    buildWikipediaDocumentTable lib.isDecimal articleSchema (lib.contents articles) = .ok docs →
      lib.contents (lib.fromRows ⟨canonicalSchema, docs⟩) = ⟨canonicalSchema, docs⟩
  written : ∀ articles table, canonicalTable lib articles = .ok table →
    ∃ read, lib.readTable (lib.writeTable table) = .ok read ∧ lib.contents read = lib.contents table

/-- The document table of a stem is canonical, has the conversion of every article, and has all rows
that it had before, with the same values in the columns that they had. -/
structure Migrated (lib : Library C T) (before after : Processed C) (stem : String) : Prop where
  converted : ∃ c articles d table, after.article stem = .file c ∧ lib.readTable c = .ok articles
    ∧ after.document stem = .file d ∧ lib.readTable d = .ok table
    ∧ (lib.contents table).schema = canonicalSchema
    ∧ ∀ row ∈ (lib.contents articles).rows, ∃ doc ∈ (lib.contents table).rows,
      wikipediaDocumentFromArticleRow lib.isDecimal row = .ok doc
  kept : ∀ d table, before.document stem = .file d → lib.readTable d = .ok table →
    ∃ d' table', after.document stem = .file d' ∧ lib.readTable d' = .ok table'
      ∧ ∀ row ∈ (lib.contents table).rows, ∃ row' ∈ (lib.contents table').rows,
        ∀ column ∈ (lib.contents table).schema.map Column.name, cell row' column = cell row column

/-- The articles of a stem can be converted, and the document table has all of it. -/
def Settled (lib : Library C T) (tree : Processed C) (stem : String) : Prop :=
  ∃ c canonical d table, Source lib tree stem c canonical
    ∧ Canonical lib tree stem canonical d table

theorem Settled.classifyStem (h : Settled lib tree stem) :
    ∃ sp, classifyStem lib tree stem = .ok sp ∧ sp.operation = .alreadyCanonical := by
  obtain ⟨c, canonical, d, table, hsource, hcanonical⟩ := h
  exact ⟨_, classifyStem_canonical hsource hcanonical, rfl⟩

theorem RoundTrip.contents_canonicalTable (hround : RoundTrip lib) {articles canonical : T}
    (h : canonicalTable lib articles = .ok canonical) :
    ∃ docs, buildWikipediaDocumentTable lib.isDecimal articleSchema (lib.contents articles)
        = .ok docs
      ∧ lib.contents canonical = ⟨canonicalSchema, docs⟩ := by
  obtain ⟨docs, hdocs, rfl⟩ := map_eq_ok.mp h
  exact ⟨docs, hdocs, hround.fromRows articles docs hdocs⟩

variable {canonical : T}

theorem RoundTrip.settled (hround : RoundTrip lib) (hsource : Source lib tree stem c canonical)
    (hfile : tree.document stem = .file (lib.writeTable canonical)) : Settled lib tree stem := by
  obtain ⟨articles, -, -, htable⟩ := hsource.converted
  obtain ⟨read, hread, hcontents⟩ := hround.written articles canonical htable
  obtain ⟨docs, hdocs, heq⟩ := hround.contents_canonicalTable htable
  refine ⟨c, canonical, _, read, hsource, hfile, hread, ?_, ?_⟩
  · rw [hcontents, heq]
  · rw [hcontents, heq]
    exact assertCanonicalPreservesLegacy_self (nodup_ids_of_build hdocs)

theorem Settled.converted (hround : RoundTrip lib) (h : Settled lib tree stem) :
    ∃ c articles d table, tree.article stem = .file c ∧ lib.readTable c = .ok articles
      ∧ tree.document stem = .file d ∧ lib.readTable d = .ok table
      ∧ (lib.contents table).schema = canonicalSchema
      ∧ ∀ row ∈ (lib.contents articles).rows, ∃ doc ∈ (lib.contents table).rows,
        wikipediaDocumentFromArticleRow lib.isDecimal row = .ok doc := by
  obtain ⟨c, canonical, d, table, hsource, hcanonical⟩ := h
  obtain ⟨articles, hread, -, htable⟩ := hsource.converted
  obtain ⟨docs, hdocs, heq⟩ := hround.contents_canonicalTable htable
  refine ⟨c, articles, d, table, hsource.file, hread, hcanonical.file, hcanonical.reads,
    hcanonical.schema, fun row hrow => ?_⟩
  obtain ⟨doc, hdoc, hconverted⟩ := mem_buildWikipediaDocumentTable hdocs row hrow
  have hpreserves := hcanonical.preserves
  rw [heq] at hpreserves
  exact ⟨doc, mem_of_assertCanonicalPreservesLegacy hpreserves doc hdoc, hconverted⟩

theorem Source.congr {tree' : Processed C} (h : Source lib tree stem c canonical)
    (harticle : tree'.article stem = tree.article stem) : Source lib tree' stem c canonical :=
  ⟨harticle.trans h.file, h.converted⟩

theorem Canonical.congr {tree' : Processed C} {canonical : T} {d : C}
    (h : Canonical lib tree stem canonical d table)
    (hdocument : tree'.document stem = tree.document stem) :
    Canonical lib tree' stem canonical d table :=
  ⟨hdocument.trans h.file, h.reads, h.schema, h.preserves⟩

theorem Source.canonical_eq {canonical articles : T} (h : Source lib tree stem c canonical)
    (harticles : readArticleTable lib (tree.article stem) stem = .ok articles)
    (htable : canonicalTable lib articles = .ok table) : table = canonical := by
  obtain ⟨c', hfile, hread, -⟩ := readArticleTable_eq_ok harticles
  rw [h.file] at hfile
  cases hfile
  obtain ⟨articles', hread', -, hcanonical⟩ := h.converted
  rw [hread] at hread'
  cases hread'
  rw [htable] at hcanonical
  exact Except.ok.inj hcanonical

/-! ## After an apply -/

theorem scoped_of_revalidatedActions (h : revalidatedActions lib plan tree = .ok steps) :
    (plan.map StemPlan.stem).Nodup
      ∧ ∀ stem ∈ plan.map StemPlan.stem, stem ∈ discoverAllStems tree := by
  obtain ⟨current, hcurrent, h⟩ := bind_eq_ok.mp h
  split at h
  · rename_i hstems
    have hscoped := stems_of_planMigration hcurrent
    rw [← hstems]
    refine ⟨nodup_stems_of_planMigration hcurrent, fun stem hstem => ?_⟩
    rw [hscoped] at hstem
    exact List.mem_of_mem_filter hstem
  · cases h

theorem stems_of_revalidatedActions (h : revalidatedActions lib plan tree = .ok steps) :
    steps.map (fun step => step.1.stem) = plan.map StemPlan.stem := by
  have hall := revalidatedActions_spec h
  clear h
  induction hall with
  | nil => rfl
  | cons hstep _ ih => rw [List.map_cons, List.map_cons, ih, hstep.stem]

theorem safe_of_validateApplyInputs (h : validateApplyInputs lib plan tree = .ok ()) :
    isSafeToApply plan = true := by
  unfold validateApplyInputs at h
  split at h
  · assumption
  · cases h

theorem applyMigration_eq_ok {result : ApplyResult}
    (h : applyMigration lib plan disk = (.ok result, disk')) :
    isSafeToApply plan = true ∧ ∃ steps applied, revalidatedActions lib plan disk.tree = .ok steps
        ∧ executeActions lib steps ⟨[], [], []⟩ disk = (.ok applied, disk') := by
  unfold applyMigration at h
  split at h
  · cases h
  rename_i hvalid
  refine ⟨safe_of_validateApplyInputs hvalid, ?_⟩
  split at h
  · cases h
  rename_i steps hsteps
  dsimp only at h
  obtain ⟨houtcome, rfl⟩ := Prod.mk.inj h
  obtain ⟨applied, happlied, -⟩ := map_eq_ok.mp houtcome
  exact ⟨steps, applied, hsteps, Prod.ext happlied rfl⟩

theorem kept_of_write (hround : RoundTrip lib) {after : Processed C}
    (hsource : Source lib tree stem c canonical) (hready : Ready lib tree stem c canonical sp)
    (hwrite : sp.operation ≠ .alreadyCanonical)
    (hfile : after.document stem = .file (lib.writeTable canonical)) {d : C}
    (hbefore : tree.document stem = .file d) (hread : lib.readTable d = .ok table) :
    ∃ d' table', after.document stem = .file d' ∧ lib.readTable d' = .ok table'
      ∧ ∀ row ∈ (lib.contents table).rows, ∃ row' ∈ (lib.contents table').rows,
        ∀ column ∈ (lib.contents table).schema.map Column.name,
          cell row' column = cell row column := by
  obtain ⟨articles, -, -, htable⟩ := hsource.converted
  obtain ⟨read, hreadBack, hcontents⟩ := hround.written articles canonical htable
  obtain ⟨docs, -, heq⟩ := hround.contents_canonicalTable htable
  refine ⟨_, read, hfile, hreadBack, fun row hrow => ?_⟩
  cases hready with
  | create hnone =>
    rw [hbefore] at hnone
    cases hnone
  | upgrade d' table' hlegacy =>
    -- the table that was compared is the one that was there
    have hd := hlegacy.file
    rw [hbefore] at hd
    cases hd
    have htable' := hlegacy.reads
    rw [hread] at htable'
    cases htable'
    rw [hcontents]
    exact exists_same_cells hlegacy.shared hlegacy.schema (by rw [heq]) hrow
  | keep => exact absurd rfl hwrite

/-- **What an apply does to a stem of its plan.** -/
theorem settled_migrated (hround : RoundTrip lib) (hexecuted : Executed lib steps disk disk')
    (hnodup : (steps.map (fun step => step.1.stem)).Nodup) {step : StemPlan × Action}
    (hstep : step ∈ steps) (hrevalidated : Revalidated lib disk.tree planned step)
    (hsafe : planned.operation ≠ .blocked) :
    Settled lib disk'.tree planned.stem ∧ Migrated lib disk.tree disk'.tree planned.stem := by
  obtain ⟨current, action⟩ := step
  have hclassified := classifyStem_spec hrevalidated.current
  have harticle : disk'.tree.article planned.stem = disk.tree.article planned.stem := by
    rw [Processed.article, hexecuted.articles]
    rfl
  have hstem : current.stem = planned.stem := hrevalidated.stem
  cases action with
  | write =>
    obtain ⟨rfl, hoperation⟩ := transitionAction_write hrevalidated.action
    obtain ⟨c, canonical, hsource, hready⟩ := hclassified.2.resolve_left hsafe
    obtain ⟨articles, table, harticles, htable, hfile⟩ := hexecuted.written _ hstep rfl
    obtain rfl := hsource.canonical_eq harticles htable
    have hsettled : Settled lib disk'.tree planned.stem :=
      hround.settled (hsource.congr harticle) hfile
    exact ⟨hsettled, hsettled.converted hround,
      fun d table => kept_of_write hround hsource hready hoperation hfile⟩
  | skip =>
    have hoperation : current.operation = .alreadyCanonical :=
      transitionAction_skip hrevalidated.action
    have hnotBlocked : current.operation ≠ .blocked := by
      rw [hoperation]
      decide
    obtain ⟨c, canonical, hsource, hready⟩ := hclassified.2.resolve_left hnotBlocked
    -- no step writes the table of this stem
    have hdocument : disk'.tree.document planned.stem = disk.tree.document planned.stem := by
      refine hexecuted.untouched _ fun other hother hwrite heq => ?_
      have hsame : other = (current, .skip) :=
        List.inj_on_of_nodup_map hnodup hother hstep (heq.trans hstem.symm)
      rw [hsame] at hwrite
      cases hwrite
    cases hready with
    | create => cases hoperation
    | upgrade => cases hoperation
    | keep d table hcanonical =>
      have hsettled : Settled lib disk'.tree planned.stem :=
        ⟨c, canonical, d, table, hsource.congr harticle, hcanonical.congr hdocument⟩
      refine ⟨hsettled, hsettled.converted hround, fun d' table' hfile hread => ?_⟩
      exact ⟨d', table', hdocument.trans hfile, hread,
        fun row hrow => ⟨row, hrow, fun _ _ => rfl⟩⟩

theorem settled_of_applyMigration (hround : RoundTrip lib) {result : ApplyResult}
    (h : applyMigration lib plan disk = (.ok result, disk')) :
    (∀ stem ∈ plan.map StemPlan.stem,
        Settled lib disk'.tree stem ∧ Migrated lib disk.tree disk'.tree stem)
      ∧ discoverAllStems disk'.tree = discoverAllStems disk.tree := by
  obtain ⟨hsafe, steps, applied, hsteps, hrun⟩ := applyMigration_eq_ok h
  obtain ⟨hnodup, hknown⟩ := scoped_of_revalidatedActions hsteps
  have hstems := stems_of_revalidatedActions hsteps
  rw [← hstems] at hnodup hknown
  have hexecuted := executeActions_executed hnodup hrun
  constructor
  · intro stem hstem
    obtain ⟨planned, hplanned, rfl⟩ := List.mem_map.mp hstem
    obtain ⟨step, hstep, hrevalidated⟩ :=
      forall₂_exists_mem (revalidatedActions_spec hsteps) hplanned
    have hready := of_decide_eq_true (List.all_eq_true.mp hsafe planned hplanned)
    exact settled_migrated hround hexecuted hnodup hstep hrevalidated hready
  · exact hexecuted.stems fun step hstep =>
      hknown _ (List.mem_map_of_mem (f := fun step : StemPlan × Action => step.1.stem) hstep)

variable {stems : Option (List String)}

theorem planMigration_settled (h : ∀ stem ∈ scopedStems tree stems, Settled lib tree stem) :
    ∃ again, planMigration lib tree stems = .ok again
      ∧ again.map StemPlan.stem = scopedStems tree stems
      ∧ ∀ sp ∈ again, sp.operation = .alreadyCanonical := by
  have hall : ∃ again, planMigration lib tree stems = .ok again :=
    exists_mapM_eq_ok fun stem hstem => (h stem hstem).classifyStem.imp fun _ hsp => hsp.1
  obtain ⟨again, hagain⟩ := hall
  refine ⟨again, hagain, stems_of_planMigration hagain, fun sp hsp => ?_⟩
  have hclassify := classifyStem_of_mem hagain hsp
  have hstem : sp.stem ∈ scopedStems tree stems := by
    rw [← stems_of_planMigration hagain]
    exact List.mem_map_of_mem hsp
  obtain ⟨sp', hclassify', hcanonical⟩ := (h _ hstem).classifyStem
  rw [hclassify] at hclassify'
  exact Except.ok.inj hclassify' ▸ hcanonical

theorem skip_of_settled (h : ∀ stem ∈ plan.map StemPlan.stem, Settled lib tree stem)
    (hsteps : revalidatedActions lib plan tree = .ok steps) : ∀ step ∈ steps, step.2 = .skip := by
  rintro ⟨current, action⟩ hstep
  obtain ⟨planned, hplanned, hrevalidated⟩ :=
    forall₂_exists_mem (revalidatedActions_spec hsteps).flip hstep
  obtain ⟨sp, hclassify, hcanonical⟩ := (h _ (List.mem_map_of_mem hplanned)).classifyStem
  have hcurrent := hrevalidated.current
  rw [hclassify] at hcurrent
  cases hcurrent
  cases action with
  | skip => rfl
  | write => exact absurd hcanonical (transitionAction_write hrevalidated.action).2

/-- **An apply over settled stems writes nothing**, whether it returns or raises. -/
theorem applyMigration_settled (h : ∀ stem ∈ plan.map StemPlan.stem, Settled lib disk.tree stem) :
    (applyMigration lib plan disk).2 = disk := by
  unfold applyMigration
  split
  · rfl
  split
  · rfl
  rename_i steps hsteps
  show (executeActions lib steps ⟨[], [], []⟩ disk).2 = disk
  rw [executeActions_skip (skip_of_settled h hsteps)]

theorem transitionAction_self (h : planned.operation = .alreadyCanonical) :
    transitionAction planned planned = .ok .skip := by
  rw [transitionAction, if_pos rfl, if_pos h]

theorem revalidatedActions_self (h : planMigration lib tree stems = .ok plan)
    (hcanonical : ∀ sp ∈ plan, sp.operation = .alreadyCanonical) :
    revalidatedActions lib plan tree = .ok (plan.map (fun sp => (sp, .skip))) := by
  have hstems := stems_of_planMigration h
  have hscoped : scopedStems tree (some (plan.map StemPlan.stem)) = scopedStems tree stems := by
    rw [hstems]
    cases stems with
    | none => exact List.filter_eq_self.mpr fun stem hstem => decide_eq_true hstem
    | some stems =>
      refine List.filter_congr fun stem hstem => ?_
      simp [scopedStems, hstem]
  have hcurrent : planMigration lib tree (some (plan.map StemPlan.stem)) = .ok plan := by
    rw [planMigration, hscoped]
    exact h
  refine bind_eq_ok.mpr ⟨plan, hcurrent, ?_⟩
  rw [if_pos rfl]
  refine mapM_eq_ok_iff.mpr ?_
  have hzip : plan.zip plan = plan.map (fun sp => (sp, sp)) := by
    have hmap := List.zip_map' (f := id) (g := id) (l := plan)
    rwa [List.map_id] at hmap
  rw [hzip, List.forall₂_map_left_iff, List.forall₂_map_right_iff, List.forall₂_same]
  intro sp hsp
  exact bind_eq_ok.mpr ⟨.skip, transitionAction_self (hcanonical sp hsp), rfl⟩

theorem applyMigration_again (h : planMigration lib disk.tree stems = .ok plan)
    (hcanonical : ∀ sp ∈ plan, sp.operation = .alreadyCanonical)
    (hvalid : validateApplyInputs lib plan disk.tree = .ok ()) :
    applyMigration lib plan disk = (.ok
      { planned := plan.length
        created := 0
        upgraded := 0
        skipped := plan.length
        blocked := 0
        createdStems := []
        upgradedStems := []
        skippedStems := plan.map StemPlan.stem
        blockedStems := [] }, disk) := by
  have hskip : ∀ step ∈ plan.map (fun sp => (sp, Action.skip)), step.2 = .skip := by
    intro step hstep
    obtain ⟨sp, -, rfl⟩ := List.mem_map.mp hstep
    rfl
  unfold applyMigration
  rw [hvalid, revalidatedActions_self h hcanonical]
  dsimp only
  rw [executeActions_skip hskip, List.map_map]
  simp [Except.map, Function.comp_def]

/-! ## Files that have changed -/

/-- What is at a path, when it is a file. -/
def PathState.asFile (state : PathState C) : Option (PathState C) :=
  if state.isFile then some state else none

/-- A file of a stem has changed since `before`, and not by becoming canonical with the digest of
the plan. -/
def Stale (lib : Library C T) (before now : Processed C) (planned : StemPlan) : Prop :=
  (now.article planned.stem).asFile ≠ (before.article planned.stem).asFile
  ∨ ((now.document planned.stem).asFile ≠ (before.document planned.stem).asFile
    ∧ ¬ (planned.operation ≠ .alreadyCanonical ∧ ∃ current,
      classifyStem lib now planned.stem = .ok current ∧ current.operation = .alreadyCanonical
        ∧ current.canonicalDigest = planned.canonicalDigest))

/-- SHA-256 tells the contents of a stem's files before and now apart. -/
structure NoCollision (lib : Library C T) (before now : Processed C) : Prop where
  articles : ∀ stem c c', before.article stem = .file c → now.article stem = .file c' →
    lib.sha256 c = lib.sha256 c' → c = c'
  documents : ∀ stem d d', before.document stem = .file d → now.document stem = .file d' →
    lib.sha256 d = lib.sha256 d' → d = d'

theorem Ready.articleHash (h : Ready lib tree stem c canonical sp) :
    sp.articleHash = lib.sha256 c := by
  cases h <;> rfl

theorem Ready.document (h : Ready lib tree stem c canonical sp) :
    (sp.documentHash = none ∧ (tree.document stem).asFile = none)
      ∨ ∃ d, sp.documentHash = some (lib.sha256 d) ∧ tree.document stem = .file d := by
  cases h with
  | create hnone => exact Or.inl ⟨rfl, if_neg (hnone ▸ Bool.false_ne_true)⟩
  | upgrade d table h => exact Or.inr ⟨d, rfl, h.file⟩
  | keep d table h => exact Or.inr ⟨d, rfl, h.file⟩

theorem becameCanonical_spec (h : becameCanonical planned current = true) :
    planned.operation ≠ .alreadyCanonical ∧ planned.articleHash = current.articleHash
      ∧ current.operation = .alreadyCanonical
      ∧ current.canonicalDigest = planned.canonicalDigest := by
  simp only [becameCanonical, Bool.and_eq_true, decide_eq_true_eq] at h
  obtain ⟨⟨⟨⟨hplanned, hcurrent⟩, hhash⟩, -⟩, hdigest⟩ := h
  refine ⟨fun heq => ?_, hhash, hcurrent, hdigest.symm⟩
  rw [heq] at hplanned
  revert hplanned
  decide

theorem transitionAction_eq_ok {action : Action}
    (h : transitionAction planned current = .ok action) :
    planned = current ∨ becameCanonical planned current = true := by
  unfold transitionAction at h
  split at h
  · exact Or.inl ‹_›
  · split at h
    · exact Or.inr ‹_›
    · cases h

/-- **A stem that has an action is not stale.** -/
theorem not_stale_of_revalidated {before now : Processed C} (hcollision : NoCollision lib before now)
    (hplanned : classifyStem lib before planned.stem = .ok planned)
    (hsafe : planned.operation ≠ .blocked) {step : StemPlan × Action}
    (h : Revalidated lib now planned step) : ¬ Stale lib before now planned := by
  obtain ⟨c, canonical, hsource, hready⟩ := (classifyStem_spec hplanned).2.resolve_left hsafe
  have htransition := transitionAction_eq_ok h.action
  -- the stem is not blocked now, so its articles can be read
  have hnow : step.1.operation ≠ .blocked := by
    rcases htransition with heq | hbecame
    · exact heq ▸ hsafe
    · rw [(becameCanonical_spec hbecame).2.2.1]
      decide
  obtain ⟨c', canonical', hsource', hready'⟩ :=
    (classifyStem_spec h.current).2.resolve_left hnow
  have hhash : planned.articleHash = step.1.articleHash := by
    rcases htransition with heq | hbecame
    · rw [← heq]
    · exact (becameCanonical_spec hbecame).2.1
  rw [hready.articleHash, hready'.articleHash] at hhash
  have harticle := hcollision.articles _ c c' hsource.file hsource'.file hhash
  rintro (hstale | ⟨hstale, hcanonical⟩)
  · exact hstale (by rw [hsource.file, hsource'.file, harticle])
  rcases htransition with heq | hbecame
  · refine hstale ?_
    rcases hready.document with ⟨hnone, hfile⟩ | ⟨d, hsome, hfile⟩ <;>
      rcases hready'.document with ⟨hnone', hfile'⟩ | ⟨d', hsome', hfile'⟩
    · rw [hfile, hfile']
    · rw [← heq, hnone] at hsome'
      cases hsome'
    · rw [← heq, hsome] at hnone'
      cases hnone'
    · rw [← heq, hsome] at hsome'
      have hsame := hcollision.documents _ d d' hfile hfile' (Option.some.inj hsome')
      rw [hfile, hfile', hsame]
  · obtain ⟨hoperation, -, hcurrent, hdigest⟩ := becameCanonical_spec hbecame
    exact hcanonical ⟨hoperation, step.1, h.current, hcurrent, hdigest⟩

/-- **An apply of a stale plan raises before its first write.** -/
theorem applyMigration_stale {before : Processed C}
    (hplan : planMigration lib before stems = .ok plan) (hsafe : isSafeToApply plan = true)
    (hcollision : NoCollision lib before disk.tree)
    (hstale : ∃ planned ∈ plan, Stale lib before disk.tree planned) :
    ∃ failure, applyMigration lib plan disk = (.error failure, disk) := by
  obtain ⟨planned, hplanned, hstale⟩ := hstale
  unfold applyMigration
  split
  · exact ⟨_, rfl⟩
  split
  · exact ⟨_, rfl⟩
  rename_i steps hsteps
  obtain ⟨step, -, hrevalidated⟩ := forall₂_exists_mem (revalidatedActions_spec hsteps) hplanned
  have hready := of_decide_eq_true (List.all_eq_true.mp hsafe planned hplanned)
  exact absurd hstale
    (not_stale_of_revalidated hcollision (classifyStem_of_mem hplan hplanned) hready hrevalidated)

/-- **Migrating documents is lossless and idempotent.** An apply that returns has migrated every
stem of its plan, has nothing left to do for them, and writes nothing the next time. It raises
before its first write when a file of a planned stem has changed. -/
theorem applyMigration_correct (hround : RoundTrip lib) (disk : Disk C) {before : Processed C}
    (hplan : planMigration lib before stems = .ok plan)
    (hsafe : isSafeToApply plan = true) (hcollision : NoCollision lib before disk.tree) :
    (∀ result disk', applyMigration lib plan disk = (.ok result, disk') →
      (∀ stem ∈ plan.map StemPlan.stem, Migrated lib disk.tree disk'.tree stem)
      ∧ (∀ stems', (∀ stem ∈ scopedStems disk.tree stems', stem ∈ plan.map StemPlan.stem) →
        ∃ again, planMigration lib disk'.tree stems' = .ok again
          ∧ again.map StemPlan.stem = scopedStems disk.tree stems'
          ∧ (∀ sp ∈ again, sp.operation = .alreadyCanonical)
          ∧ (validateApplyInputs lib again disk'.tree = .ok () →
            ∃ result', applyMigration lib again disk' = (.ok result', disk')
              ∧ result'.skippedStems = again.map StemPlan.stem))
      ∧ ∀ plan' : List StemPlan, (∀ sp ∈ plan', sp.stem ∈ plan.map StemPlan.stem) →
        (applyMigration lib plan' disk').2 = disk')
    ∧ ((∃ planned ∈ plan, Stale lib before disk.tree planned) →
      ∃ failure, applyMigration lib plan disk = (.error failure, disk)) := by
  refine ⟨fun result disk' h => ?_, applyMigration_stale hplan hsafe hcollision⟩
  obtain ⟨hsettled, hknown⟩ := settled_of_applyMigration hround h
  refine ⟨fun stem hstem => (hsettled stem hstem).2, fun stems' hscope => ?_, fun plan' hplan' => ?_⟩
  · have hscoped : scopedStems disk'.tree stems' = scopedStems disk.tree stems' := by
      cases stems' with
      | none => exact hknown
      | some wanted => exact congrArg (List.filter _) hknown
    have hready : ∀ stem ∈ scopedStems disk'.tree stems', Settled lib disk'.tree stem := by
      intro stem hstem
      rw [hscoped] at hstem
      exact (hsettled stem (hscope stem hstem)).1
    obtain ⟨again, hagain, hstems, hcanonical⟩ := planMigration_settled hready
    refine ⟨again, hagain, hstems.trans hscoped, hcanonical, fun hvalid => ?_⟩
    exact ⟨_, applyMigration_again hagain hcanonical hvalid, rfl⟩
  · refine applyMigration_settled fun stem hstem => ?_
    obtain ⟨sp, hsp, rfl⟩ := List.mem_map.mp hstem
    exact (hsettled _ (hplan' sp hsp)).1

end

namespace Example

/-- An article, and its document. -/
def article (title : String) (wikidata articleId : String) : DocumentRow :=
  ⟨none, some "en", some title, some 1, some 7, some wikidata,
    ⟨some articleId, none, some "enwiki", []⟩⟩

def document (title : String) (wikidata articleId documentId : String) : DocumentRow :=
  ⟨some documentId, some "en", some title, some 1, some 7, some wikidata,
    ⟨some articleId, some "wikipedia", some "enwiki", []⟩⟩

/-- A file is the table that it has. -/
def library : Library DocumentTable DocumentTable where
  isDecimal := Char.isDigit
  sha256 := fun file =>
    (file.rows.map (fun row => pyStr row.documentId ++ " " ++ pyStr row.title)).foldl (· ++ ·) ""
  readTable := .ok
  writeTable := id
  contents := id
  fromRows := id
  tableDigest := fun table =>
    (table.rows.map (fun row => pyStr row.documentId)).foldl (· ++ ·) ""
  describe := fun _ => ""
  repr := fun _ => ""
  writeFails := fun _ _ => false
  documentsInside := fun _ => true
  targetInside := fun _ _ => true

def monacoArticles : PathState DocumentTable :=
  .file ⟨articleSchema, [article "Monaco" "Q235" "Q235:en:1:7"]⟩

def andorraArticles : PathState DocumentTable :=
  .file ⟨articleSchema, [article "Andorra" "Q228" "Q228:en:1:7"]⟩

def monacoDocuments : PathState DocumentTable :=
  .file ⟨documentSchema, [document "Monaco" "Q235" "Q235:en:1:7" "Q235:wikipedia:en:1:7"]⟩

/-- A region with a legacy document table. -/
def tree : Processed DocumentTable :=
  ⟨[("monaco", monacoArticles)], [("monaco", monacoDocuments)]⟩

/-- The articles of a second region have appeared. -/
def laterTree : Processed DocumentTable :=
  ⟨[("monaco", monacoArticles), ("andorra", andorraArticles)], [("monaco", monacoDocuments)]⟩

def monacoPlan : StemPlan :=
  ⟨"monaco", .upgradeLegacy, "", "None Monaco", some "Q235:wikipedia:en:1:7 Monaco", 1,
    some "Q235:wikipedia:en:1:7"⟩

theorem roundTrip : RoundTrip library where
  fromRows := fun _ _ _ => rfl
  written := fun _ table _ => ⟨table, rfl, rfl⟩

theorem planMigration_tree : planMigration library tree none = .ok [monacoPlan] := by
  decide +kernel

/-- The file that the apply writes. -/
def monacoCanonical : PathState DocumentTable :=
  .file ⟨canonicalSchema, [document "Monaco" "Q235" "Q235:en:1:7" "Q235:wikipedia:en:1:7"]⟩

def upgraded : ApplyResult :=
  ⟨1, 0, 1, 0, 0, [], ["monaco"], [], []⟩

def afterApply : Disk DocumentTable :=
  ⟨{ laterTree with documents := [("monaco", monacoCanonical)] }, ["monaco"]⟩

theorem applyMigration_laterTree :
    applyMigration library [monacoPlan] ⟨laterTree, []⟩ = (.ok upgraded, afterApply) := by
  decide +kernel

/-- The document table has been deleted. -/
def emptiedTree : Processed DocumentTable := { tree with documents := [] }

theorem noCollision {now : Processed DocumentTable}
    (harticles : ∀ stem, tree.article stem = .absent ∨ now.article stem = tree.article stem)
    (hdocuments : ∀ stem, now.document stem = .absent ∨ now.document stem = tree.document stem) :
    NoCollision library tree now where
  articles := by
    intro stem c c' hbefore hnow _
    rcases harticles stem with h | h
    · rw [h] at hbefore
      cases hbefore
    · rw [h, hbefore] at hnow
      exact PathState.file.inj hnow
  documents := by
    intro stem d d' hbefore hnow _
    rcases hdocuments stem with h | h
    · rw [h] at hnow
      cases hnow
    · rw [h, hbefore] at hnow
      exact PathState.file.inj hnow

/-- The region is migrated although other articles have appeared, and not without its documents. -/
theorem monaco_migrated :
    (Migrated library laterTree afterApply.tree "monaco"
        ∧ (applyMigration library [monacoPlan] afterApply).2 = afterApply)
      ∧ ∃ failure, applyMigration library [monacoPlan] ⟨emptiedTree, []⟩
        = (.error failure, ⟨emptiedTree, []⟩) := by
  have hlater : NoCollision library tree laterTree := by
    refine noCollision (fun stem => ?_) fun stem => Or.inr rfl
    by_cases h : stem = "monaco"
    · exact Or.inr (h ▸ rfl)
    · exact Or.inl (by
        rw [Processed.article, tree, List.lookup_cons, beq_eq_false_iff_ne.mpr h]
        rfl)
  have hemptied : NoCollision library tree emptiedTree :=
    noCollision (fun stem => Or.inr rfl) fun stem => Or.inl rfl
  have hmigrated := (applyMigration_correct roundTrip ⟨laterTree, []⟩ planMigration_tree
    (by decide) hlater).1 upgraded afterApply applyMigration_laterTree
  refine ⟨⟨hmigrated.1 "monaco" (by decide), hmigrated.2.2 [monacoPlan] (by simp)⟩, ?_⟩
  refine (applyMigration_correct roundTrip ⟨emptiedTree, []⟩ planMigration_tree
    (by decide) hemptied).2 ⟨monacoPlan, List.mem_singleton_self _, Or.inr ⟨by decide, ?_⟩⟩
  -- without a document table the region is not canonical
  rintro ⟨-, current, hcurrent, hcanonical, -⟩
  have hcreate : (classifyStem library emptiedTree monacoPlan.stem).map StemPlan.operation
      = .ok .createMissing := by
    decide +kernel
  rw [hcurrent] at hcreate
  cases hcanonical.symm.trans (Except.ok.inj hcreate)

/-- The plan of a whole tree without blocked stems is applied, and nothing is raised although the
articles of another region have appeared since. They have no document table then. -/
theorem andorra_missing :
    planMigration library tree none = .ok [monacoPlan] ∧ isSafeToApply [monacoPlan] = true
      ∧ laterTree.article "andorra" ≠ tree.article "andorra"
      ∧ applyMigration library [monacoPlan] ⟨laterTree, []⟩ = (.ok upgraded, afterApply)
      ∧ afterApply.tree.document "andorra" = .absent
      ∧ (planMigration library afterApply.tree none).map (List.map StemPlan.operation)
        = .ok [.createMissing, .alreadyCanonical] := by
  refine ⟨planMigration_tree, rfl, ?_, applyMigration_laterTree, rfl, ?_⟩
  · decide +kernel
  · decide +kernel

end Example

end OsmPolygonWikidata.Augmentation.DocumentMigration
