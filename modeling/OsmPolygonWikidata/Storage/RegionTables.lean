import OsmPolygonWikidata.Basic.FileTransaction

/-! # The tables of a V2 region

`_stage_region_tables` of `v2/storage.py`. The four tables of a region are written to hidden siblings
and validated, the existing tables are moved aside, and the new ones are moved into place.

Only the last phase is covered by the handler that restores the tables. When moving a table aside
fails, the tables that were moved aside before it stay where they are (`writeRegion_restored_iff`).

What pyarrow does is a parameter. Every step may raise, except those of the handlers and of the
clean-up. A directory is spelled without a slash at its end.
-/

namespace OsmPolygonWikidata.RegionTables

open Durable FileTransaction
open Prog (wp wp_bind wp_ensure wp_forM wp_get wp_imp wp_ite wp_mono wp_onRaise wp_run wp_step)

/-! ## Tables and errors -/

/-- What the code uses of pyarrow: the names of a schema's fields, the file that `Table.from_pylist`
and `write_table` make, and the schema that is read back from a file. -/
structure Parquet (V S F : Type) where
  names : S → List String
  null : V
  write : List (List (String × V)) → S → Except String F
  readSchema : F → Except String S
  equals : S → S → Bool

/-- A table to be written: the rows are dictionaries. -/
structure Table (V S : Type) where
  rows : List (String → Option V)
  schema : S

inductive WriteError where
  | os (name : String)
  | fileNotFound (path : String)
  | noUsableName
  | parquet (message : String)
  | value (message : String)
  deriving DecidableEq

inductive Step where
  | makeParent (final : String)
  | createTemporary (final : String)
  | writeTable (final : String)
  | validateTable (final : String)
  | createBackup (final : String)
  | moveAside (final backup : String)
  | moveIntoPlace (final : String)
  deriving DecidableEq

/-! ## The program -/

section

variable {V S F : Type} (parquet : Parquet V S F) (world : World Step WriteError F)

def stagePath (step : Step) (final : String) :
    Prog (Machine String F) (Raised Step WriteError) String :=
  world.mkstemp step final ".tmp" .noUsableName

/-- The rows of a table with the columns of its schema. -/
def normalized (table : Table V S) : List (List (String × V)) :=
  table.rows.map (fun row =>
    (parquet.names table.schema).map (fun name => (name, (row name).getD parquet.null)))

def writeTable (final temporary : String) (table : Table V S) :
    Prog (Machine String F) (Raised Step WriteError) Unit :=
  match parquet.write (normalized parquet table) table.schema with
  | .error message => Prog.raise ⟨.writeTable final, .parquet message⟩
  | .ok content => world.writeFile (.writeTable final) temporary content

/-- The `ValueError` of a file whose schema is another one. -/
def schemaError (final : String) : WriteError :=
  .value ("V2 table schema validation failed: " ++ final)

def validateWrittenTable (final temporary : String) (schema : S) :
    Prog (Machine String F) (Raised Step WriteError) Unit := do
  world.check (.validateTable final)
  let m ← Prog.get
  match m.files temporary with
  | none => Prog.raise ⟨.validateTable final, .fileNotFound temporary⟩
  | some content =>
    match parquet.readSchema content with
    | .error message => Prog.raise ⟨.validateTable final, .parquet message⟩
    | .ok written =>
      if parquet.equals written schema then return ()
      else Prog.raise ⟨.validateTable final, schemaError final⟩

/-- One turn of the staging loop. -/
def stageTable (item : String × Table V S) : Prog (Machine String F) (Raised Step WriteError) Unit := do
  world.check (.makeParent item.1)
  let temporary ← stagePath world (.createTemporary item.1) item.1
  Prog.step (fun m => m.recordStaged item.1 temporary)
  writeTable parquet world item.1 temporary item.2
  validateWrittenTable parquet world item.1 temporary item.2.schema

/-- One turn of `_backup_existing`. -/
def backupTable (final : String) : Prog (Machine String F) (Raised Step WriteError) Unit := do
  let m ← Prog.get
  if (m.files final).isSome then do
    let backup ← stagePath world (.createBackup final) final
    move (world.failure (.moveAside final backup)) ⟨.moveAside final backup, .fileNotFound final⟩
      final backup
    Prog.step (fun m => m.recordBackup final backup)
  else return ()

def backupExisting : Prog (Machine String F) (Raised Step WriteError) Unit := do
  let m ← Prog.get
  (m.staged.map Prod.fst).forM (backupTable world)

/-- One turn of `_replace_staged`. -/
def replaceTable (item : String × String) : Prog (Machine String F) (Raised Step WriteError) Unit := do
  move (world.failure (.moveIntoPlace item.1)) ⟨.moveIntoPlace item.1, .fileNotFound item.2⟩
    item.2 item.1
  Prog.step (fun m => m.recordInstalled item.1)

def replaceStaged : Prog (Machine String F) (Raised Step WriteError) Unit := do
  let m ← Prog.get
  m.staged.forM (replaceTable world)

def restoreBackups : Prog (Machine String F) (Raised Step WriteError) Unit := do
  let m ← Prog.get
  restore m.installed m.backups

/-- `_cleanup_transaction`, which is `cleanup_transaction` of `io/staged_install.py`. -/
def cleanupTransaction : Prog (Machine String F) (Raised Step WriteError) Unit := do
  let m ← Prog.get
  cleanup (m.staged.map Prod.snd) m.backups

/-- `_replace_transaction`: the move aside is outside of the `try`. -/
def replaceTransaction : Prog (Machine String F) (Raised Step WriteError) Unit := do
  backupExisting world
  Prog.ensure (Prog.onRaise (replaceStaged world) restoreBackups) cleanupTransaction

def cleanupStagedPaths : Prog (Machine String F) (Raised Step WriteError) Unit := do
  let m ← Prog.get
  (m.staged.map Prod.snd).forM unlink

def stageRegionTables (tables : List (String × Table V S)) :
    Prog (Machine String F) (Raised Step WriteError) Unit :=
  Prog.ensure
    (do
      tables.forM (stageTable parquet world)
      replaceTransaction world)
    cleanupStagedPaths

def regionPaths (processedV2 stem : String) : List String :=
  [processedV2 ++ "/polygons/" ++ stem ++ ".parquet",
    processedV2 ++ "/wikipedia/documents/" ++ stem ++ ".parquet",
    processedV2 ++ "/wikipedia/sections/" ++ stem ++ ".parquet",
    processedV2 ++ "/polygon_document_links/" ++ stem ++ ".parquet"]

/-- The part of `write_v2_region` that writes the tables: polygons, documents, sections, links. -/
def writeRegion (processedV2 stem : String) (polygons documents sections links : Table V S) :
    Prog (Machine String F) (Raised Step WriteError) Unit :=
  stageRegionTables parquet world
    ((regionPaths processedV2 stem).zip [polygons, documents, sections, links])

end

/-! ## The paths of a region -/

section

variable {processedV2 stem path : String} {random : RandomName}

theorem nodup_regionPaths (processedV2 stem : String) : (regionPaths processedV2 stem).Nodup := by
  -- two paths differ within the first characters after the directory
  have hne : ∀ (n : Nat) (a b : String), a.toList.take n ≠ b.toList.take n → n ≤ a.toList.length →
      n ≤ b.toList.length → processedV2 ++ a ++ stem ++ ".parquet"
        ≠ processedV2 ++ b ++ stem ++ ".parquet" := by
    intro n a b hab ha hb
    have h : processedV2 ++ a ++ (stem ++ ".parquet") ≠ processedV2 ++ b ++ (stem ++ ".parquet") :=
      Split.append_ne_append n hab ha hb
    rwa [← String.append_assoc, ← String.append_assoc] at h
  have hpolygons := hne 2 "/polygons/" "/wikipedia/documents/" (by decide) (by decide) (by decide)
  have hpolygons' := hne 2 "/polygons/" "/wikipedia/sections/" (by decide) (by decide) (by decide)
  have hlinks := hne 9 "/polygons/" "/polygon_document_links/" (by decide) (by decide) (by decide)
  have hdocuments := hne 12 "/wikipedia/documents/" "/wikipedia/sections/" (by decide) (by decide)
    (by decide)
  have hlinks' := hne 2 "/wikipedia/documents/" "/polygon_document_links/" (by decide) (by decide)
    (by decide)
  have hlinks'' := hne 2 "/wikipedia/sections/" "/polygon_document_links/" (by decide) (by decide)
    (by decide)
  simp [regionPaths, hpolygons, hpolygons', hlinks, hdocuments, hlinks', hlinks'']

theorem parquet_of_mem_regionPaths (h : path ∈ regionPaths processedV2 stem) :
    ".parquet".toList <:+ path.toList := by
  simp only [regionPaths, List.mem_cons, List.not_mem_nil, or_false] at h
  rcases h with rfl | rfl | rfl | rfl <;> simp only [String.toList_append] <;>
    exact List.suffix_append _ _

theorem hiddenSibling_not_mem :
    hiddenSibling path random ".tmp" ∉ regionPaths processedV2 stem := by
  intro hmem
  exact Split.ne_of_suffix suffix_hiddenSibling (parquet_of_mem_regionPaths hmem) (by decide)
    (by decide) rfl

end

/-! ## Staging the tables -/

section

variable {V S F : Type} {parquet : Parquet V S F} {world : World Step WriteError F} {before : String → Option F}
  {finals done : List String} {m m' : Machine String F} {step : Step} {final temporary : String}
  {Q : Unit → Machine String F → Prop} {E : Raised Step WriteError → Machine String F → Prop}

/-- A table is not moved aside although one before it in the list has been. -/
def LateBackup (before : String → Option F) (finals : List String) (step : Step) : Prop :=
  ∃ final, (step = .createBackup final ∨ ∃ backup, step = .moveAside final backup)
    ∧ ∃ earlier ∈ finals.takeWhile (fun p => p ≠ final), (before earlier).isSome = true

/-- What is known when a step has raised: the tables are as before just when it was no late
backup. -/
structure Verdict (before : String → Option F) (finals : List String) (step : Step)
    (m : Machine String F) : Prop where
  hidden : ∀ item ∈ m.staged, item.2 ∉ finals
  restored_iff : (∀ p ∈ finals, m.files p = before p) ↔ ¬ LateBackup before finals step

/-- The tables `done` have been staged, and the others are as before. -/
structure Staging (before : String → Option F) (finals done : List String) (m : Machine String F) :
    Prop where
  backups : m.backups = []
  installed : m.installed = []
  keys : m.staged.map Prod.fst = done
  hidden : ∀ item ∈ m.staged, item.2 ∉ finals
  present : ∀ item ∈ m.staged, (m.files item.2).isSome = true
  same : ∀ p ∈ finals, m.files p = before p

theorem wp_writeTable {table : Table V S}
    (hE : ∀ raised m', raised.step = .writeTable final →
      (m' = m ∨ ∃ content, m' = m.write temporary content) → E raised m')
    (hQ : ∀ content, Q () (m.write temporary content)) :
    wp (writeTable parquet world final temporary table) Q E (fun _ => True) m := by
  unfold writeTable
  cases parquet.write (normalized parquet table) table.schema with
  | error message => exact hE ⟨.writeTable final, .parquet message⟩ m rfl (Or.inl rfl)
  | ok content =>
    exact World.wp_writeFile (fun raised _ hstep => hE raised _ hstep (Or.inr ⟨_, rfl⟩))
      (hQ content)

theorem wp_validateWrittenTable {schema : S}
    (hE : ∀ raised, raised.step = .validateTable final → E raised m) (hQ : Q () m) :
    wp (validateWrittenTable parquet world final temporary schema) Q E (fun _ => True) m := by
  unfold validateWrittenTable
  rw [wp_bind]
  refine World.wp_check hE ?_
  rw [wp_bind, wp_get]
  cases m.files temporary with
  | none => exact hE ⟨_, _⟩ rfl
  | some content =>
    cases hread : parquet.readSchema content with
    | error message => simpa [hread] using hE ⟨_, _⟩ rfl
    | ok written =>
      simp only [hread]
      rw [wp_ite]
      split_ifs
      · exact hQ
      · exact hE ⟨_, _⟩ rfl

theorem Staging.stage {content : F} (h : Staging before finals done m)
    (hhidden : temporary ∉ finals) :
    Staging before finals (done ++ [final])
      ((m.create temporary content).recordStaged final temporary) := by
  refine ⟨h.backups, h.installed, ?_, ?_, ?_, ?_⟩
  · show (m.staged ++ [(final, temporary)]).map Prod.fst = _
    rw [List.map_append, h.keys, List.map_singleton]
  · intro item hitem
    rcases List.mem_append.mp hitem with hitem | hitem
    · exact h.hidden item hitem
    · rw [List.mem_singleton.mp hitem]
      exact hhidden
  · intro item hitem
    show ((m.write temporary content).files item.2).isSome = true
    by_cases heq : item.2 = temporary
    · rw [heq, Machine.write_self]
      rfl
    · rw [Machine.write_other heq]
      rcases List.mem_append.mp hitem with hitem | hitem
      · exact h.present item hitem
      · rw [List.mem_singleton.mp hitem] at heq
        exact absurd rfl heq
  · intro p hp
    have hne : p ≠ temporary := fun heq => hhidden (heq ▸ hp)
    exact (Machine.write_other hne).trans (h.same p hp)

theorem Staging.write {content : F} (h : Staging before finals done m) (hhidden : temporary ∉ finals) :
    Staging before finals done (m.write temporary content) := by
  refine ⟨h.backups, h.installed, h.keys, h.hidden, ?_, ?_⟩
  · intro item hitem
    by_cases heq : item.2 = temporary
    · rw [heq, Machine.write_self]
      rfl
    · rw [Machine.write_other heq]
      exact h.present item hitem
  · intro p hp
    have hne : p ≠ temporary := fun heq => hhidden (heq ▸ hp)
    exact (Machine.write_other hne).trans (h.same p hp)

theorem Staging.verdict (h : Staging before finals done m) (hstep : ¬ LateBackup before finals step) :
    Verdict before finals step m :=
  ⟨h.hidden, iff_of_true h.same hstep⟩

theorem not_lateBackup (hcreate : ∀ final, step ≠ .createBackup final)
    (hmove : ∀ final backup, step ≠ .moveAside final backup) : ¬ LateBackup before finals step := by
  rintro ⟨final, hstep | ⟨backup, hstep⟩, -⟩
  · exact hcreate final hstep
  · exact hmove final backup hstep

/-- **One table** is staged, or the tables are as before. -/
theorem wp_stageTable {item : String × Table V S} (h : Staging before finals done m)
    (hnames : ∀ path random, hiddenSibling path random ".tmp" ∉ finals) :
    wp (stageTable parquet world item)
      (fun _ m' => Staging before finals (done ++ [item.1]) m')
      (fun raised m' => Verdict before finals raised.step m') (fun _ => True) m := by
  unfold stageTable
  rw [wp_bind]
  refine World.wp_check (fun raised hstep => h.verdict (not_lateBackup ?_ ?_)) ?_
  · simp [hstep]
  · simp [hstep]
  rw [wp_bind]
  unfold stagePath
  refine World.wp_mkstemp (fun raised hstep => h.verdict (not_lateBackup ?_ ?_)) ?_
  · simp [hstep]
  · simp [hstep]
  intro random _
  have hhidden := hnames item.1 random
  have hstaged : Staging before finals (done ++ [item.1])
      ((m.create _ world.empty).recordStaged item.1 (hiddenSibling item.1 random ".tmp")) :=
    h.stage hhidden
  rw [wp_bind, wp_step]
  refine ⟨trivial, ?_⟩
  rw [wp_bind]
  refine wp_writeTable (fun raised m' hstep hm' => ?_) (fun content => ?_)
  · have hnotLate : ¬ LateBackup before finals raised.step :=
      not_lateBackup (by simp [hstep]) (by simp [hstep])
    rcases hm' with rfl | ⟨content, rfl⟩
    · exact hstaged.verdict hnotLate
    · exact (hstaged.write hhidden).verdict hnotLate
  · refine wp_validateWrittenTable (fun raised hstep => ?_) (hstaged.write hhidden)
    exact (hstaged.write hhidden).verdict (not_lateBackup (by simp [hstep]) (by simp [hstep]))

end

/-! ## Replacing the tables -/

section

variable {V S F : Type} {parquet : Parquet V S F} {world : World Step WriteError F} {before : String → Option F}
  {finals done rest temporaries : List String} {start m m' : Machine String F} {step : Step}
  {final : String}

theorem lateBackup_iff (hnodup : finals.Nodup) (hsplit : finals = done ++ final :: rest)
    (hstep : step = .createBackup final ∨ ∃ backup, step = .moveAside final backup) :
    LateBackup before finals step ↔ ∃ p ∈ done, (before p).isSome = true := by
  have hnew : final ∉ done := by
    rw [hsplit, List.nodup_append] at hnodup
    exact fun hmem => hnodup.2.2 final hmem final List.mem_cons_self rfl
  have hearlier : finals.takeWhile (fun p => p ≠ final) = done := by
    rw [hsplit, List.takeWhile_append_of_pos, List.takeWhile_cons_of_neg (by simp), List.append_nil]
    intro p hp
    exact decide_eq_true (fun heq => hnew (heq ▸ hp))
  constructor
  · rintro ⟨other, hother, hexists⟩
    have hsame : other = final := by
      rcases hstep with rfl | ⟨backup, rfl⟩
      · rcases hother with heq | ⟨_, heq⟩
        · exact (Step.createBackup.inj heq).symm
        · cases heq
      · rcases hother with heq | ⟨_, heq⟩
        · cases heq
        · exact (Step.moveAside.inj heq).1.symm
    rwa [hsame, hearlier] at hexists
  · intro hexists
    exact ⟨final, hstep, by rwa [hearlier]⟩

/-- **One table** is moved aside; if that raises, what was moved aside before it stays there. -/
theorem wp_backupTable (h : MovedAside before start finals temporaries done m)
    (hnodup : finals.Nodup) (hsplit : finals = done ++ final :: rest)
    (hnames : ∀ path random, hiddenSibling path random ".tmp" ∉ finals)
    (htemporaries : ∀ t ∈ temporaries, t ∉ finals ∧ (start.files t).isSome = true)
    (hstaged : ∀ item ∈ start.staged, item.2 ∉ finals) :
    wp (backupTable world final)
      (fun _ m' => MovedAside before start finals temporaries (done ++ [final]) m')
      (fun raised m' => Verdict before finals raised.step m') (fun _ => True) m := by
  have hfinal : final ∈ finals := by
    rw [hsplit]
    simp
  have hdone : ∀ p ∈ done, p ∈ finals := by
    intro p hp
    rw [hsplit]
    exact List.mem_append_left _ hp
  have hnew : final ∉ done := by
    rw [hsplit, List.nodup_append] at hnodup
    exact fun hmem => hnodup.2.2 final hmem final List.mem_cons_self rfl
  have hverdict : ∀ m', MovedAside before start finals temporaries done m' → ∀ step,
      (step = .createBackup final ∨ ∃ backup, step = .moveAside final backup) →
      Verdict before finals step m' := by
    intro m' hm' step hstep
    refine ⟨fun item hitem => hstaged item (hm'.staged ▸ hitem), ?_⟩
    rw [hm'.unchanged_iff hdone, lateBackup_iff hnodup hsplit hstep]
  unfold backupTable
  rw [wp_bind, wp_get, wp_ite]
  split_ifs with hexists
  · rw [wp_bind]
    unfold stagePath World.mkstemp
    refine wp_imp (fun hidden m' hm' => ?_)
      (h.wp_aside (fun hidden => world.failure (.moveAside final hidden))
        (fun hidden => ⟨.moveAside final hidden, .fileNotFound final⟩) hfinal hnew ?_
        (fun t ht => (htemporaries t ht).1) (fun _ _ _ => trivial) ?_ ?_)
    · rw [wp_bind]
      exact hm'
    · intro hidden hchoose hfree
      obtain ⟨random, -, hname⟩ := Option.map_eq_some_iff.mp hchoose
      refine ⟨hname ▸ hnames final random, fun hmem => ?_⟩
      -- a temporary file is there, so its name is taken
      have hpresent := (htemporaries hidden hmem).2
      rw [← h.temporaries hidden hmem, hfree] at hpresent
      cases hpresent
    · rintro raised (hfailure | rfl)
      · exact hverdict m h _ (Or.inl (World.failure_step hfailure))
      · exact hverdict m h _ (Or.inl rfl)
    · rintro hidden m' hm' raised (hfailure | rfl)
      · exact hverdict m' hm' _ (Or.inr ⟨hidden, World.failure_step hfailure⟩)
      · exact hverdict m' hm' _ (Or.inr ⟨hidden, rfl⟩)
  · exact h.skip hfinal hnew (Option.not_isSome_iff_eq_none.mp hexists)

/-- While the new tables are moved into place. -/
structure Replacing (before : String → Option F) (finals temporaries : List String)
    (start m : Machine String F) : Prop where
  held : Held before finals m
  staged : m.staged = start.staged
  free : ∀ p ∈ finals, p ∈ m.backups.map Prod.fst ∨ before p = none
  hidden : ∀ b ∈ m.backups, b.2 ∉ temporaries

/-- **One table** is moved into place, or the call raises with everything held. -/
theorem wp_replaceTable {item : String × String} (h : Replacing before finals temporaries start m)
    (hfinal : item.1 ∈ finals) (htemporary : item.2 ∈ temporaries) (hhidden : item.2 ∉ finals) :
    wp (replaceTable world item) (fun _ m' => Replacing before finals temporaries start m')
      (fun raised m' => Replacing before finals temporaries start m'
        ∧ ¬ LateBackup before finals raised.step) (fun _ => True) m := by
  unfold replaceTable
  rw [wp_bind]
  refine World.wp_move (fun raised hstep => ⟨h, not_lateBackup ?_ ?_⟩)
    (fun content hcontent => ⟨trivial, ?_⟩)
  · simp [hstep]
  · simp [hstep]
  · refine ⟨h.held.install hfinal (h.free _ hfinal) hhidden ?_, ?_, ?_, ?_⟩
    · intro hmem
      obtain ⟨b, hb, heq⟩ := List.mem_map.mp hmem
      exact h.hidden b hb (heq ▸ htemporary)
    · rw [Machine.recordInstalled_staged, Machine.rename_staged]
      exact h.staged
    · rw [Machine.recordInstalled_backups, Machine.rename_backups]
      exact h.free
    · rw [Machine.recordInstalled_backups, Machine.rename_backups]
      exact h.hidden

end

/-! ## The whole region -/

section

variable {V S F : Type} {parquet : Parquet V S F} {world : World Step WriteError F} {before : String → Option F}
  {finals : List String} {m m' : Machine String F} {step : Step}

theorem Verdict.without {removed : List String} (h : Verdict before finals step m)
    (hremoved : ∀ p ∈ removed, p ∉ finals) : Verdict before finals step (m.without removed) := by
  refine ⟨h.hidden, Iff.trans ?_ h.restored_iff⟩
  refine forall₂_congr (fun p hp => ?_)
  rw [Machine.without_files, if_neg (fun hmem => hremoved p hmem hp)]

theorem wp_replaceTransaction (h : Staging before finals finals m) (hnodup : finals.Nodup)
    (hnames : ∀ path random, hiddenSibling path random ".tmp" ∉ finals) :
    wp (replaceTransaction world) (fun _ _ => True)
      (fun raised m' => Verdict before finals raised.step m') (fun _ => True) m := by
  have htemporaries : ∀ t ∈ m.staged.map Prod.snd, t ∉ finals ∧ (m.files t).isSome = true := by
    intro t ht
    obtain ⟨item, hitem, rfl⟩ := List.mem_map.mp ht
    exact ⟨h.hidden item hitem, h.present item hitem⟩
  have hbackup : wp (backupExisting world)
      (fun _ m' => MovedAside before m finals (m.staged.map Prod.snd) finals m')
      (fun raised m' => Verdict before finals raised.step m') (fun _ => True) m := by
    unfold backupExisting
    rw [wp_bind, wp_get, h.keys]
    refine wp_forM (fun done m' => MovedAside before m finals (m.staged.map Prod.snd) done m')
      (fun done final rest m' hsplit hm' => ?_) ?_
    · exact wp_backupTable hm' hnodup hsplit hnames htemporaries h.hidden
    · exact ⟨Held.of_same h.backups h.installed h.same, h.installed, by simp [h.backups],
        by simp [h.backups], rfl, fun _ _ => rfl⟩
  unfold replaceTransaction
  rw [wp_bind]
  refine wp_imp (fun _ m₁ hm₁ => ?_) hbackup
  rw [wp_ensure, wp_onRaise]
  have hreplace : wp (replaceStaged world)
      (fun _ m' => Replacing before finals (m.staged.map Prod.snd) m m')
      (fun raised m' => Replacing before finals (m.staged.map Prod.snd) m m'
        ∧ ¬ LateBackup before finals raised.step) (fun _ => True) m₁ := by
    unfold replaceStaged
    rw [wp_bind, wp_get, hm₁.staged]
    refine wp_forM (fun _ m' => Replacing before finals (m.staged.map Prod.snd) m m')
      (fun done item rest m' hsplit hm' => ?_) ⟨hm₁.held, hm₁.staged, fun p hp => ?_, hm₁.hidden⟩
    · have hitem : item ∈ m.staged := by
        rw [hsplit]
        simp
      refine wp_replaceTable hm' ?_ (List.mem_map_of_mem hitem) (h.hidden item hitem)
      rw [← h.keys]
      exact List.mem_map_of_mem hitem
    · by_cases hexists : (before p).isSome = true
      · left
        rw [hm₁.keys]
        exact List.mem_filter.mpr ⟨hp, hexists⟩
      · exact Or.inr (Option.not_isSome_iff_eq_none.mp hexists)
  refine wp_mono (fun _ m₂ hm₂ => ?_) (fun raised m₂ hm₂ => ?_) (fun _ h => h) hreplace
  · unfold cleanupTransaction
    rw [wp_bind, wp_get]
    exact wp_cleanup (fun _ _ => trivial) trivial
  · -- the handler restores, and the clean-up removes hidden files only
    obtain ⟨hreplacing, hnotLate⟩ := hm₂
    unfold restoreBackups
    rw [wp_bind, wp_get]
    refine hreplacing.held.wp_restore (List.Perm.refl _) (fun _ _ => trivial) (fun m₃ hm₃ => ?_)
    have hstaged : m₃.staged = m.staged := hm₃.staged.trans hreplacing.staged
    have hverdict : Verdict before finals raised.step m₃ :=
      ⟨fun item hitem => h.hidden item (hstaged ▸ hitem), iff_of_true hm₃.restored hnotLate⟩
    unfold cleanupTransaction
    rw [wp_bind, wp_get]
    refine wp_cleanup (fun _ _ => trivial) (hverdict.without (fun p hp => ?_))
    rcases List.mem_append.mp hp with hp | hp
    · obtain ⟨item, hitem, rfl⟩ := List.mem_map.mp hp
      exact hverdict.hidden item hitem
    · rw [hm₃.backups] at hp
      obtain ⟨b, hb, rfl⟩ := List.mem_map.mp hp
      exact hreplacing.held.hidden b hb

theorem wp_stageRegionTables {tables : List (String × Table V S)}
    (hnodup : (tables.map Prod.fst).Nodup)
    (hnames : ∀ path random, hiddenSibling path random ".tmp" ∉ tables.map Prod.fst) :
    wp (stageRegionTables parquet world tables) (fun _ _ => True)
      (fun raised m' => ((∀ p ∈ tables.map Prod.fst, m'.files p = before p)
        ↔ ¬ LateBackup before (tables.map Prod.fst) raised.step)) (fun _ => True)
      (Machine.start before) := by
  have hphases : wp (do
        tables.forM (stageTable parquet world)
        replaceTransaction world) (fun _ _ => True)
      (fun raised m' => Verdict before (tables.map Prod.fst) raised.step m') (fun _ => True)
      (Machine.start before) := by
    rw [wp_bind]
    refine wp_imp (fun _ m' hm' => wp_replaceTransaction hm' hnodup hnames) (wp_forM
        (fun done m' => Staging before (tables.map Prod.fst) (done.map Prod.fst) m') ?_
        ⟨rfl, rfl, rfl, by simp [Machine.start], by simp [Machine.start], fun _ _ => rfl⟩)
    intro done item rest m' hsplit hm'
    rw [List.map_append, List.map_singleton]
    exact wp_stageTable hm' hnames
  unfold stageRegionTables
  rw [wp_ensure]
  refine wp_mono (fun _ m' _ => ?_) (fun raised m' hm' => ?_) (fun _ h => h) hphases
  · unfold cleanupStagedPaths
    rw [wp_bind, wp_get]
    exact wp_unlinkAll (fun _ _ => trivial) trivial
  · unfold cleanupStagedPaths
    rw [wp_bind, wp_get]
    refine wp_unlinkAll (fun _ _ => trivial) (hm'.without (fun p hp => ?_)).restored_iff
    obtain ⟨item, hitem, rfl⟩ := List.mem_map.mp hp
    exact hm'.hidden item hitem

/-- **When a write of a region raises**, each of the four tables is as before just when the step that
raised is no late backup. -/
theorem writeRegion_restored_iff (parquet : Parquet V S F) (world : World Step WriteError F)
    (before : String → Option F) (processedV2 stem : String)
    (polygons documents sections links : Table V S) {raised : Raised Step WriteError}
    (h : Prog.run (writeRegion parquet world processedV2 stem polygons documents sections links)
      (Machine.start before) = (.error raised, m')) :
    (∀ p ∈ regionPaths processedV2 stem, m'.files p = before p)
      ↔ ¬ LateBackup before (regionPaths processedV2 stem) raised.step := by
  have hkeys : ((regionPaths processedV2 stem).zip
      [polygons, documents, sections, links]).map Prod.fst = regionPaths processedV2 stem := by
    rfl
  have hwp : wp (writeRegion parquet world processedV2 stem polygons documents sections links)
      (fun _ _ => True)
      (fun raised m' => ((∀ p ∈ regionPaths processedV2 stem, m'.files p = before p)
        ↔ ¬ LateBackup before (regionPaths processedV2 stem) raised.step)) (fun _ => True)
      (Machine.start before) := by
    unfold writeRegion
    rw [← hkeys]
    refine wp_stageRegionTables ?_ (fun path random => ?_)
    · rw [hkeys]
      exact nodup_regionPaths processedV2 stem
    · rw [hkeys]
      exact hiddenSibling_not_mem
  have hrun := wp_run hwp
  rw [h] at hrun
  exact hrun

end

namespace RegionTablesExample

/-- A file of an empty table is the name of its schema. -/
def parquet : Parquet Unit String String where
  names _ := []
  null := ()
  write _ schema := .ok schema
  readSchema content := .ok content
  equals written schema := written == schema

/-- The name for a temporary file, and the one for a hidden file. -/
def first : RandomName := .letters

def second : RandomName := ⟨"ijklmnop", by decide, by simp⟩

/-- Only the step `failing` fails. -/
def world (failing : Step) : World Step WriteError String where
  fails step := if step = failing then some (.os "EIO") else none
  random path files :=
    some (if (files (hiddenSibling path first ".tmp")).isSome then second else first)
  empty := ""
  torn := "PAR1"

/-- The region has polygons and documents already. -/
def before : String → Option String
  | "/v2/polygons/r.parquet" => some "old polygons"
  | "/v2/wikipedia/documents/r.parquet" => some "old documents"
  | _ => none

/-- Four empty tables are written, and the step `failing` fails. -/
def write (failing : Step) : Except (Raised Step WriteError) Unit × Machine String String :=
  Prog.run (writeRegion parquet (world failing) "/v2" "r" ⟨[], "polygons"⟩ ⟨[], "documents"⟩
    ⟨[], "sections"⟩ ⟨[], "links"⟩) (Machine.start before)

/-- The links cannot be moved into place: everything comes back. -/
theorem write_restored : (regionPaths "/v2" "r").map
        (write (.moveIntoPlace "/v2/polygon_document_links/r.parquet")).2.files
      = (regionPaths "/v2" "r").map before := by
  have hraised : write (.moveIntoPlace "/v2/polygon_document_links/r.parquet")
      = (.error ⟨.moveIntoPlace "/v2/polygon_document_links/r.parquet", .os "EIO"⟩, _) :=
    Prod.ext (by decide) rfl
  refine List.map_congr_left ?_
  exact (writeRegion_restored_iff _ _ _ _ _ _ _ _ _ hraised).mpr
    (not_lateBackup (by simp) (by simp))

/-- The documents cannot be moved aside: the polygons are gone. -/
theorem write_lost : ¬ ∀ p ∈ regionPaths "/v2" "r",
      (write (.moveAside "/v2/wikipedia/documents/r.parquet"
        "/v2/wikipedia/documents/.r.parquet.ijklmnop.tmp")).2.files p = before p := by
  intro h
  exact absurd (h "/v2/polygons/r.parquet" (by decide)) (by decide)

end RegionTablesExample

end OsmPolygonWikidata.RegionTables
