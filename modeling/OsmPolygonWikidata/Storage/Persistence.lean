import OsmPolygonWikidata.Basic.FileTransaction

/-! # Persisting a processed PBF

`run_persistence_phase` of `pipeline/persistence.py` up to the manifest entry, with `write_table` of
`io/parquet.py`, `upsert_entry` of `io/manifest.py` and `atomic_write_text` of `io/atomic.py`.

Three tables are written to `.parquet.tmp` siblings and moved into place one after the other. Nothing
is kept of the tables that they replace, so a failure leaves the tables that were in place by then
(`runPersistencePhase_unpublished_iff`).

What pyarrow and the JSON codec do is a parameter. Every step may raise, except those that remove
temporary files. A directory is spelled without a slash at its end.
-/

namespace OsmPolygonWikidata.Persistence

open Durable FileTransaction
open Prog (wp wp_bind wp_ensure wp_forM wp_get wp_imp wp_mono wp_onRaise wp_run)

/-! ## Rows, files and errors -/

/-- The three tables of a PBF. -/
inductive Kind where
  | polygons
  | articles
  | links

/-- A row is a dictionary. -/
abbrev Row (V : Type) := String → Option V

/-- The rows to be written. -/
structure Rows (V : Type) where
  polygons : List (Row V)
  articles : List (Row V)
  links : List (Row V)

/-- What the code uses of pyarrow and of the schemas: the columns of a table, the row of empty values,
`Table.from_pylist`, `Table.slice(0, 0)`, and the file that `write_table` makes. -/
structure Parquet (V T F : Type) where
  columns : Kind → List String
  null : V
  emptyRow : Kind → List (String × V)
  fromPylist : List (List (String × V)) → Kind → Except String T
  noRows : T → T
  file : T → F

/-- The manifest file: what `loads` finds in it, `none` for an empty text or a value that is no
object, and what `dumps` writes. -/
structure Codec (E F : Type) where
  loads : F → Except String (Option (List (String × E)))
  dumps : List (String × E) → F

inductive PersistenceError where
  | os (name : String)
  | fileNotFound (path : String)
  | noUsableName
  | parquet (message : String)
  | stats (message : String)
  | value (message : String)
  deriving DecidableEq

inductive Step where
  | writeTable (final : String)
  | replaceTable (final : String)
  | accumulateStats
  | loadManifest
  | makeParent
  | createTemporary
  | writeManifest
  | replaceManifest
  deriving DecidableEq

/-! ## The tables -/

section

variable {V T E F : Type} (parquet : Parquet V T F) (codec : Codec E F) (world : World Step PersistenceError F)

def fillColumns (rows : List (Row V)) (kind : Kind) : List (List (String × V)) :=
  rows.map (fun row =>
    (parquet.columns kind).map (fun column => (column, (row column).getD parquet.null)))

/-- The file that `write_table` writes: without rows it is a placeholder row, sliced away. -/
def tableFile (kind : Kind) (rows : List (Row V)) : Except String F :=
  if rows.isEmpty then do
    let table ← parquet.fromPylist [parquet.emptyRow kind] kind
    return parquet.file (parquet.noRows table)
  else do
    let table ← parquet.fromPylist (fillColumns parquet rows kind) kind
    return parquet.file table

def localPath (processed subdir stem : String) : String :=
  processed ++ subdir ++ stem ++ ".parquet"

def persistencePaths (processed stem : String) : List String :=
  [localPath processed "/polygons/" stem, localPath processed "/articles/" stem,
    localPath processed "/polygon_articles/" stem]

/-- The paths with what is written to them. -/
def persistenceTables (processed stem : String) (rows : Rows V) :
    List (String × Kind × List (Row V)) :=
  (persistencePaths processed stem).zip
    [(.polygons, rows.polygons), (.articles, rows.articles), (.links, rows.links)]

/-- `_temporary_paths`: `with_suffix(".parquet.tmp")` of a path that ends in `.parquet`. -/
def temporaryPath (final : String) : String := final ++ ".tmp"

/-- One line of `_write_parquet_to_temporary`. -/
def writeParquet (table : String × Kind × List (Row V)) : Prog (Machine String F) (Raised Step PersistenceError) Unit :=
  match tableFile parquet table.2.1 table.2.2 with
  | .error message => Prog.raise ⟨.writeTable table.1, .parquet message⟩
  | .ok content => world.writeFile (.writeTable table.1) (temporaryPath table.1) content

/-- One turn of `_replace_persistence_files`. -/
def replaceFile (table : String × Kind × List (Row V)) : Prog (Machine String F) (Raised Step PersistenceError) Unit :=
  move (world.failure (.replaceTable table.1))
    ⟨.replaceTable table.1, .fileNotFound (temporaryPath table.1)⟩ (temporaryPath table.1) table.1

def writePersistenceFiles (tables : List (String × Kind × List (Row V))) :
    Prog (Machine String F) (Raised Step PersistenceError) Unit :=
  Prog.ensure
    (do
      tables.forM (writeParquet parquet world)
      tables.forM (replaceFile world))
    ((tables.map (fun table => temporaryPath table.1)).forM unlink)

/-! ## The manifest -/

def manifestPath (processed : String) : String := processed ++ "/manifests/processed_pbfs.json"

def loadManifest (path : String) : Prog (Machine String F) (Raised Step PersistenceError) (List (String × E)) := do
  let m ← Prog.get
  match m.files path with
  | none => return []
  | some content => do
    world.check .loadManifest
    match codec.loads content with
    | .error message =>
      Prog.raise ⟨.loadManifest, .value ("Malformed processed manifest: " ++ message)⟩
    | .ok parsed => return parsed.getD []

/-- `atomic_write_text`, through `atomic_replacement`. -/
def atomicWriteText (path : String) (content : F) : Prog (Machine String F) (Raised Step PersistenceError) Unit := do
  world.check .makeParent
  let temporary ← world.mkstemp .createTemporary path ".tmp" .noUsableName
  Prog.onRaise
    (do
      world.writeFile .writeManifest temporary content
      move (world.failure .replaceManifest) ⟨.replaceManifest, .fileNotFound temporary⟩
        temporary path)
    (unlink temporary)

/-- `save_manifest`: the entries are sorted by their key. -/
def saveManifest (path : String) (entries : List (String × E)) :
    Prog (Machine String F) (Raised Step PersistenceError) Unit := do
  world.check .makeParent
  atomicWriteText world path (codec.dumps (entries.insertionSort (fun a b => a.1 ≤ b.1)))

/-- `entries[source_pbf] = entry`. -/
def setEntry (entries : List (String × E)) (sourcePbf : String) (entry : E) : List (String × E) :=
  if sourcePbf ∈ entries.map Prod.fst then
    entries.map (fun item => if item.1 = sourcePbf then (sourcePbf, entry) else item)
  else entries ++ [(sourcePbf, entry)]

def upsertEntry (path sourcePbf : String) (entry : E) : Prog (Machine String F) (Raised Step PersistenceError) Unit := do
  let entries ← loadManifest codec world path
  saveManifest codec world path (setEntry entries sourcePbf entry)

/-- `run_persistence_phase` until the manifest entry is written. `makeEntry` stands for
`accumulate_stats` and `make_entry`. -/
def runPersistencePhase (makeEntry : Rows V → Except String E) (processed stem sourcePbf : String)
    (rows : Rows V) : Prog (Machine String F) (Raised Step PersistenceError) Unit := do
  writePersistenceFiles parquet world (persistenceTables processed stem rows)
  match makeEntry rows with
  | .error message => Prog.raise ⟨.accumulateStats, .stats message⟩
  | .ok entry => upsertEntry codec world (manifestPath processed) sourcePbf entry

end

/-! ## The paths of a PBF -/

section

variable {processed stem path other : String} {random : RandomName}

theorem temporaryPath_injective : Function.Injective temporaryPath := by
  intro p q h
  exact String.append_left_inj ".tmp" |>.mp h

theorem nodup_persistencePaths (processed stem : String) :
    (persistencePaths processed stem).Nodup := by
  have hne : ∀ (n : Nat) (a b : String), a.toList.take n ≠ b.toList.take n → n ≤ a.toList.length →
      n ≤ b.toList.length → localPath processed a stem ≠ localPath processed b stem := by
    intro n a b hab ha hb
    have h : processed ++ a ++ (stem ++ ".parquet") ≠ processed ++ b ++ (stem ++ ".parquet") :=
      Split.append_ne_append n hab ha hb
    rwa [← String.append_assoc, ← String.append_assoc] at h
  have harticles := hne 2 "/polygons/" "/articles/" (by decide) (by decide) (by decide)
  have hlinks := hne 9 "/polygons/" "/polygon_articles/" (by decide) (by decide) (by decide)
  have hlinks' := hne 2 "/articles/" "/polygon_articles/" (by decide) (by decide) (by decide)
  simp [persistencePaths, harticles, hlinks, hlinks']

theorem parquet_of_mem (h : path ∈ persistencePaths processed stem) :
    ".parquet".toList <:+ path.toList := by
  simp only [persistencePaths, localPath, List.mem_cons, List.not_mem_nil, or_false] at h
  rcases h with rfl | rfl | rfl <;> simp only [String.toList_append] <;>
    exact List.suffix_append _ _

theorem suffix_temporaryPath : ".tmp".toList <:+ (temporaryPath path).toList := by
  simp only [temporaryPath, String.toList_append]
  exact List.suffix_append _ _

theorem suffix_manifestPath : ".json".toList <:+ (manifestPath processed).toList := by
  refine ⟨processed.toList ++ "/manifests/processed_pbfs".toList, ?_⟩
  simp only [manifestPath, String.toList_append, List.append_assoc]
  rfl

/-- Where the phase works: the tables, the manifest, and the files that come and go. -/
structure Layout (finals : List String) (manifest : String) : Prop where
  nodup : finals.Nodup
  temporary : ∀ p ∈ finals, ∀ q, p ≠ temporaryPath q
  manifest_not_mem : manifest ∉ finals
  manifest_ne : ∀ q, manifest ≠ temporaryPath q
  hidden : ∀ random, hiddenSibling manifest random ".tmp" ∉ finals
    ∧ hiddenSibling manifest random ".tmp" ≠ manifest

theorem layout (processed stem : String) :
    Layout (persistencePaths processed stem) (manifestPath processed) := by
  refine ⟨nodup_persistencePaths processed stem, ?_, ?_, ?_, ?_⟩
  · intro p hp q
    exact Split.ne_of_suffix (parquet_of_mem hp) suffix_temporaryPath (by decide) (by decide)
  · intro hmem
    exact Split.ne_of_suffix suffix_manifestPath (parquet_of_mem hmem) (by decide) (by decide) rfl
  · intro q
    exact Split.ne_of_suffix suffix_manifestPath suffix_temporaryPath (by decide) (by decide)
  · intro random
    constructor
    · intro hmem
      exact Split.ne_of_suffix suffix_hiddenSibling (parquet_of_mem hmem) (by decide) (by decide) rfl
    · exact Split.ne_of_suffix suffix_hiddenSibling suffix_manifestPath (by decide) (by decide)

end

/-! ## Writing and replacing the tables -/

section

variable {V T F : Type} {parquet : Parquet V T F} {world : World Step PersistenceError F}
  {before : String → Option F} {tables done rest : List (String × Kind × List (Row V))}
  {table : String × Kind × List (Row V)} {manifest path : String} {replaced removed : List String}
  {content : F} {m m' : Machine String F}

/-- The file that is written for a table. -/
def newFile (parquet : Parquet V T F) (table : String × Kind × List (Row V)) : Option F :=
  (tableFile parquet table.2.1 table.2.2).toOption

/-- The tables that are in place when a step raises. -/
def replacedBefore (finals : List String) : Step → List String
  | .writeTable _ => []
  | .replaceTable final => finals.takeWhile (fun p => p ≠ final)
  | _ => finals

/-- The tables `replaced` are the new ones; the others and the manifest are as before. -/
structure Stopped (parquet : Parquet V T F) (before : String → Option F)
    (tables : List (String × Kind × List (Row V))) (manifest : String) (replaced : List String)
    (m : Machine String F) : Prop where
  manifest : m.files manifest = before manifest
  new : ∀ table ∈ tables, table.1 ∈ replaced → m.files table.1 = newFile parquet table
  old : ∀ table ∈ tables, table.1 ∉ replaced → m.files table.1 = before table.1

variable (h : Stopped parquet before tables manifest replaced m)

include h

theorem Stopped.congr
    (hsame : ∀ p, p ∈ tables.map Prod.fst ∨ p = manifest → m'.files p = m.files p) :
    Stopped parquet before tables manifest replaced m' := by
  have htable : ∀ table ∈ tables, m'.files table.1 = m.files table.1 :=
    fun table htable => hsame table.1 (Or.inl (List.mem_map_of_mem htable))
  refine ⟨(hsame _ (Or.inr rfl)).trans h.manifest, fun table ht hin => ?_, fun table ht hout => ?_⟩
  · exact (htable table ht).trans (h.new table ht hin)
  · exact (htable table ht).trans (h.old table ht hout)

theorem Stopped.write (hpath : path ∉ tables.map Prod.fst) (hmanifest : manifest ≠ path) :
    Stopped parquet before tables manifest replaced (m.write path content) := by
  refine h.congr (fun p hp => Machine.write_other ?_)
  rcases hp with hp | rfl
  · exact fun heq => hpath (heq ▸ hp)
  · exact hmanifest

theorem Stopped.without (hremoved : ∀ p ∈ removed, p ∉ tables.map Prod.fst ∧ manifest ≠ p) :
    Stopped parquet before tables manifest replaced (m.without removed) := by
  refine h.congr (fun p hp => ?_)
  rw [Machine.without_files, if_neg]
  intro hmem
  rcases hp with hp | rfl
  · exact (hremoved p hmem).1 hp
  · exact (hremoved p hmem).2 rfl

omit h

theorem Layout.temporary_not_mem (h : Layout (tables.map Prod.fst) manifest) (path : String) :
    temporaryPath path ∉ tables.map Prod.fst :=
  fun hmem => h.temporary _ hmem path rfl

variable (hlayout : Layout (tables.map Prod.fst) manifest) (hsplit : tables = done ++ table :: rest)

include hlayout hsplit

/-- **One table** is written to its temporary file. -/
theorem wp_writeParquet (h : Stopped parquet before tables manifest [] m)
    (hdone : ∀ other ∈ done, m.files (temporaryPath other.1) = newFile parquet other) :
    wp (writeParquet parquet world table)
      (fun _ m' => Stopped parquet before tables manifest [] m'
        ∧ ∀ other ∈ done ++ [table], m'.files (temporaryPath other.1) = newFile parquet other)
      (fun raised m' => Stopped parquet before tables manifest
        (replacedBefore (tables.map Prod.fst) raised.step) m') (fun _ => True) m := by
  have hwrite : ∀ content, Stopped parquet before tables manifest []
      (m.write (temporaryPath table.1) content) :=
    fun content => h.write (hlayout.temporary_not_mem table.1) (hlayout.manifest_ne table.1)
  have hne : ∀ other ∈ done, temporaryPath other.1 ≠ temporaryPath table.1 := by
    intro other hother heq
    have hnodup := hlayout.nodup
    rw [hsplit, List.map_append, List.nodup_append] at hnodup
    exact hnodup.2.2 other.1 (List.mem_map_of_mem hother) table.1 (by simp)
      (temporaryPath_injective heq)
  unfold writeParquet
  cases hfile : tableFile parquet table.2.1 table.2.2 with
  | error message => exact h
  | ok content =>
    refine World.wp_writeFile (fun raised content' hstep => ?_) ⟨hwrite content, ?_⟩
    · rw [hstep]
      exact hwrite content'
    · intro other hother
      rcases List.mem_append.mp hother with hother | hother
      · rw [Machine.write_other (hne other hother)]
        exact hdone other hother
      · rw [List.mem_singleton.mp hother, Machine.write_self, newFile, hfile]
        rfl

/-- **One table** is moved into place. -/
theorem wp_replaceFile (h : Stopped parquet before tables manifest (done.map Prod.fst) m)
    (hwaiting : ∀ other ∈ table :: rest, m.files (temporaryPath other.1) = newFile parquet other) :
    wp (replaceFile world table)
      (fun _ m' => Stopped parquet before tables manifest ((done ++ [table]).map Prod.fst) m'
        ∧ ∀ other ∈ rest, m'.files (temporaryPath other.1) = newFile parquet other)
      (fun raised m' => Stopped parquet before tables manifest
        (replacedBefore (tables.map Prod.fst) raised.step) m') (fun _ => True) m := by
  have hnodup := hlayout.nodup
  rw [hsplit, List.map_append, List.map_cons, List.nodup_append, List.nodup_cons] at hnodup
  have hnew : table.1 ∉ done.map Prod.fst :=
    fun hmem => hnodup.2.2 table.1 hmem table.1 List.mem_cons_self rfl
  have htable : table ∈ tables := by
    rw [hsplit]
    simp
  have hreplaced : (tables.map Prod.fst).takeWhile (fun p => p ≠ table.1) = done.map Prod.fst := by
    rw [hsplit, List.map_append, List.map_cons, List.takeWhile_append_of_pos,
      List.takeWhile_cons_of_neg (by simp), List.append_nil]
    intro p hp
    exact decide_eq_true (fun heq => hnew (heq ▸ hp))
  unfold replaceFile
  refine World.wp_move (fun raised hstep => ?_) (fun content _ => ⟨?_, ?_⟩)
  · rw [hstep, replacedBefore, hreplaced]
    exact h
  · have hother : ∀ p ∈ tables.map Prod.fst, p ≠ table.1 →
        (m.rename (temporaryPath table.1) table.1).files p = m.files p :=
      fun p hp hne => Machine.rename_other (hlayout.temporary p hp _) hne
    refine ⟨?_, fun other ho hin => ?_, fun other ho hout => ?_⟩
    · rw [Machine.rename_other (hlayout.manifest_ne _)]
      · exact h.manifest
      · exact fun heq => hlayout.manifest_not_mem (heq ▸ List.mem_map_of_mem htable)
    · by_cases heq : other.1 = table.1
      · have hsame : other = table :=
          List.inj_on_of_nodup_map hlayout.nodup ho htable heq
        rw [hsame, Machine.rename_destination]
        exact hwaiting table List.mem_cons_self
      · rw [hother other.1 (List.mem_map_of_mem ho) heq]
        refine h.new other ho ?_
        rw [List.map_append, List.map_singleton, List.mem_append, List.mem_singleton] at hin
        exact hin.resolve_right heq
    · rw [List.map_append, List.map_singleton, List.mem_append, List.mem_singleton, not_or] at hout
      rw [hother other.1 (List.mem_map_of_mem ho) hout.2]
      exact h.old other ho hout.1
  · intro other hother
    have hmem : other.1 ∈ tables.map Prod.fst := by
      rw [hsplit]
      simp only [List.map_append, List.map_cons, List.mem_append, List.mem_cons]
      exact Or.inr (Or.inr (List.mem_map_of_mem hother))
    have hne : temporaryPath other.1 ≠ temporaryPath table.1 := by
      intro heq
      exact hnodup.2.1.1 (temporaryPath_injective heq ▸ List.mem_map_of_mem hother)
    have hne' : temporaryPath other.1 ≠ table.1 :=
      fun heq => hlayout.temporary _ (List.mem_map_of_mem htable) _ heq.symm
    rw [Machine.rename_other hne hne']
    exact hwaiting other (List.mem_cons_of_mem _ hother)

omit hlayout hsplit

/-- No temporary file of a table is there. -/
def Cleaned (tables : List (String × Kind × List (Row V))) (m : Machine String F) : Prop :=
  ∀ table ∈ tables, m.files (temporaryPath table.1) = none

/-- **The tables**: the ones before the failing step are new, and no temporary file is left. -/
theorem wp_writePersistenceFiles (hlayout : Layout (tables.map Prod.fst) manifest)
    (h : Stopped parquet before tables manifest [] m) :
    wp (writePersistenceFiles parquet world tables)
      (fun _ m' => Stopped parquet before tables manifest (tables.map Prod.fst) m'
        ∧ Cleaned tables m')
      (fun raised m' => Stopped parquet before tables manifest
          (replacedBefore (tables.map Prod.fst) raised.step) m' ∧ Cleaned tables m')
      (fun _ => True) m := by
  have hclean : ∀ (replaced : List String) (m' : Machine String F),
      Stopped parquet before tables manifest replaced m' →
      Stopped parquet before tables manifest replaced
          (m'.without (tables.map (fun table => temporaryPath table.1)))
        ∧ Cleaned tables (m'.without (tables.map (fun table => temporaryPath table.1))) := by
    intro replaced m' hm'
    refine ⟨hm'.without (fun p hp => ?_), fun table htable => ?_⟩
    · obtain ⟨table, -, rfl⟩ := List.mem_map.mp hp
      exact ⟨hlayout.temporary_not_mem table.1, hlayout.manifest_ne table.1⟩
    · rw [Machine.without_files, if_pos]
      exact List.mem_map.mpr ⟨table, htable, rfl⟩
  unfold writePersistenceFiles
  rw [wp_ensure, wp_bind]
  have hwrite : wp (tables.forM (writeParquet parquet world))
      (fun _ m' => Stopped parquet before tables manifest [] m'
        ∧ ∀ other ∈ tables, m'.files (temporaryPath other.1) = newFile parquet other)
      (fun raised m' => Stopped parquet before tables manifest
        (replacedBefore (tables.map Prod.fst) raised.step) m') (fun _ => True) m := by
    refine wp_forM (fun done m' => Stopped parquet before tables manifest [] m'
      ∧ ∀ other ∈ done, m'.files (temporaryPath other.1) = newFile parquet other) ?_ ⟨h, by simp⟩
    exact fun done table rest m' hsplit hm' => wp_writeParquet hlayout hsplit hm'.1 hm'.2
  have hreplace : ∀ m', (Stopped parquet before tables manifest [] m'
        ∧ ∀ other ∈ tables, m'.files (temporaryPath other.1) = newFile parquet other) →
      wp (tables.forM (replaceFile world))
        (fun _ m'' => Stopped parquet before tables manifest (tables.map Prod.fst) m'')
        (fun raised m'' => Stopped parquet before tables manifest
          (replacedBefore (tables.map Prod.fst) raised.step) m'') (fun _ => True) m' := by
    intro m' hm'
    refine wp_imp (fun _ _ h => h.1) (wp_forM (fun done m'' =>
        Stopped parquet before tables manifest (done.map Prod.fst) m''
          ∧ ∀ other ∈ tables, other ∉ done →
            m''.files (temporaryPath other.1) = newFile parquet other) ?_
        ⟨hm'.1, fun other hother _ => hm'.2 other hother⟩)
    intro done table rest m'' hsplit hm''
    have hnodup : tables.Nodup := List.Nodup.of_map Prod.fst hlayout.nodup
    refine wp_imp (fun _ m₃ hm₃ => ⟨hm₃.1, fun other hother hnot => hm₃.2 other ?_⟩) (wp_replaceFile hlayout hsplit hm''.1 (fun other ho => ?_))
    · refine hm''.2 other ?_ ?_
      · rw [hsplit]
        exact List.mem_append_right _ ho
      · rw [hsplit, List.nodup_append] at hnodup
        exact fun hmem => hnodup.2.2 other hmem other ho rfl
    · rw [hsplit] at hother
      rw [List.mem_append, not_or, List.mem_singleton] at hnot
      rcases List.mem_append.mp hother with hother | hother
      · exact absurd hother hnot.1
      · exact (List.mem_cons.mp hother).resolve_left hnot.2
  refine wp_mono (fun _ m' hm' => ?_) (fun raised m' hm' => ?_) (fun _ h => h) hwrite
  · refine wp_mono (fun _ m'' hm'' => ?_) (fun raised m'' hm'' => ?_) (fun _ h => h)
      (hreplace m' hm')
    · exact wp_unlinkAll (fun _ _ => trivial) (hclean _ _ hm'')
    · exact wp_unlinkAll (fun _ _ => trivial) (hclean _ _ hm'')
  · exact wp_unlinkAll (fun _ _ => trivial) (hclean _ _ hm')

end

/-! ## Writing the manifest -/

section

variable {V T E F : Type} {parquet : Parquet V T F} {codec : Codec E F}
  {world : World Step PersistenceError F} {before : String → Option F}
  {tables : List (String × Kind × List (Row V))} {manifest sourcePbf : String} {entry : E}
  {content : F} {m m' : Machine String F}

/-- The tables are in place, and the manifest is as before. -/
def InPlace (parquet : Parquet V T F) (before : String → Option F)
    (tables : List (String × Kind × List (Row V))) (manifest : String) (m : Machine String F) :
    Prop :=
  Stopped parquet before tables manifest (tables.map Prod.fst) m ∧ Cleaned tables m

/-- The steps of the manifest come after all tables. -/
def OfManifest (step : Step) : Prop := ∀ finals, replacedBefore finals step = finals

variable (hlayout : Layout (tables.map Prod.fst) manifest)
  (h : InPlace parquet before tables manifest m)

include hlayout h

theorem wp_atomicWriteText : wp (atomicWriteText world manifest content) (fun _ _ => True)
      (fun raised m' => InPlace parquet before tables manifest m' ∧ OfManifest raised.step)
      (fun _ => True) m := by
  have hof : ∀ step, (∀ finals, replacedBefore finals step = finals) → ∀ raised :
      Raised Step PersistenceError, raised.step = step → OfManifest raised.step := by
    intro step hstep raised heq
    rw [heq]
    exact hstep
  unfold atomicWriteText
  rw [wp_bind]
  refine World.wp_check (fun raised hstep => ⟨h, hof _ (fun _ => rfl) raised hstep⟩) ?_
  rw [wp_bind]
  refine World.wp_mkstemp (fun raised hstep => ⟨h, hof _ (fun _ => rfl) raised hstep⟩) ?_
  intro random hfree
  obtain ⟨hhidden, hne⟩ := hlayout.hidden random
  have hremoved : ∀ m' : Machine String F,
      (∀ p, p ≠ hiddenSibling manifest random ".tmp" → m'.files p = m.files p) →
      InPlace parquet before tables manifest
        (m'.without [hiddenSibling manifest random ".tmp"]) := by
    intro m' hsame
    constructor
    · refine Stopped.without (h.1.congr (fun p hp => hsame p ?_)) (fun p hp => ?_)
      · rcases hp with hp | rfl
        · exact fun heq => hhidden (heq ▸ hp)
        · exact hne.symm
      · rw [List.mem_singleton.mp hp]
        exact ⟨hhidden, hne.symm⟩
    · intro table htable
      rw [Machine.without_files]
      split_ifs with hmem
      · rfl
      · rw [hsame _ (fun heq => hmem (heq ▸ List.mem_singleton_self _))]
        exact h.2 table htable
  rw [wp_onRaise, wp_bind]
  -- whatever the hidden file holds, the handler removes it
  have hcreated : ∀ content' p, p ≠ hiddenSibling manifest random ".tmp" →
      ((m.create (hiddenSibling manifest random ".tmp") world.empty).write
        (hiddenSibling manifest random ".tmp") content').files p = m.files p :=
    fun content' p hp => (Machine.write_other hp).trans (Machine.write_other hp)
  refine World.wp_writeFile (fun raised content' hstep => ⟨trivial, ?_, ?_⟩) ?_
  · exact hremoved _ (hcreated content')
  · exact hof _ (fun _ => rfl) raised hstep
  · refine World.wp_move (fun raised hstep => ⟨trivial, ?_, ?_⟩) (fun _ _ => trivial)
    · exact hremoved _ (hcreated content)
    · exact hof _ (fun _ => rfl) raised hstep

theorem wp_upsertEntry : wp (upsertEntry codec world manifest sourcePbf entry) (fun _ _ => True)
      (fun raised m' => InPlace parquet before tables manifest m' ∧ OfManifest raised.step)
      (fun _ => True) m := by
  have hload : wp (loadManifest codec world manifest)
      (fun _ m' => InPlace parquet before tables manifest m')
      (fun raised m' => InPlace parquet before tables manifest m' ∧ OfManifest raised.step)
      (fun _ => True) m := by
    unfold loadManifest
    rw [wp_bind, wp_get]
    cases m.files manifest with
    | none => exact h
    | some content =>
      show wp (world.check .loadManifest >>= fun _ => _) _ _ _ m
      rw [wp_bind]
      refine World.wp_check (fun raised hstep => ⟨h, ?_⟩) ?_
      · rw [hstep]
        exact fun _ => rfl
      · cases codec.loads content with
        | error message => exact ⟨h, fun _ => rfl⟩
        | ok parsed => exact h
  unfold upsertEntry
  rw [wp_bind]
  refine wp_imp (fun entries m' hm' => ?_) hload
  unfold saveManifest
  rw [wp_bind]
  refine World.wp_check (fun raised hstep => ⟨hm', ?_⟩) (wp_atomicWriteText hlayout hm')
  rw [hstep]
  exact fun _ => rfl

omit hlayout h

end

/-! ## The whole phase -/

section

variable {V T E F : Type} {parquet : Parquet V T F} {codec : Codec E F}
  {world : World Step PersistenceError F} {before : String → Option F}
  {makeEntry : Rows V → Except String E} {processed stem sourcePbf : String} {rows : Rows V}
  {m m' : Machine String F}

/-- Nothing of the PBF has been published: its tables and the manifest are as before, and no
temporary file is left. -/
structure Unpublished (before : String → Option F) (processed stem : String)
    (m : Machine String F) : Prop where
  tables : ∀ p ∈ persistencePaths processed stem, m.files p = before p
  temporaries : ∀ p ∈ persistencePaths processed stem, m.files (temporaryPath p) = none
  manifest : m.files (manifestPath processed) = before (manifestPath processed)

theorem Stopped.unpublished_iff {replaced : List String}
    (h : Stopped parquet before (persistenceTables processed stem rows) (manifestPath processed)
      replaced m) (hclean : Cleaned (persistenceTables processed stem rows) m) :
    Unpublished before processed stem m
      ↔ ∀ table ∈ persistenceTables processed stem rows, table.1 ∈ replaced →
          newFile parquet table = before table.1 := by
  have hkeys : (persistenceTables processed stem rows).map Prod.fst
      = persistencePaths processed stem := rfl
  constructor
  · intro hunpublished table htable hreplaced
    rw [← h.new table htable hreplaced]
    refine hunpublished.tables table.1 ?_
    rw [← hkeys]
    exact List.mem_map_of_mem htable
  · intro hsame
    refine ⟨fun p hp => ?_, fun p hp => ?_, h.manifest⟩
    · rw [← hkeys] at hp
      obtain ⟨table, htable, rfl⟩ := List.mem_map.mp hp
      by_cases hreplaced : table.1 ∈ replaced
      · rw [h.new table htable hreplaced]
        exact hsame table htable hreplaced
      · exact h.old table htable hreplaced
    · rw [← hkeys] at hp
      obtain ⟨table, htable, rfl⟩ := List.mem_map.mp hp
      exact hclean table htable

theorem wp_runPersistencePhase (parquet : Parquet V T F) (codec : Codec E F)
    (world : World Step PersistenceError F) (before : String → Option F)
    (makeEntry : Rows V → Except String E) (processed stem sourcePbf : String) (rows : Rows V) :
    wp (runPersistencePhase parquet codec world makeEntry processed stem sourcePbf rows)
      (fun _ _ => True)
      (fun raised m' => Stopped parquet before (persistenceTables processed stem rows)
          (manifestPath processed)
          (replacedBefore (persistencePaths processed stem) raised.step) m'
        ∧ Cleaned (persistenceTables processed stem rows) m')
      (fun _ => True) (Machine.start before) := by
  have hlayout : Layout ((persistenceTables processed stem rows).map Prod.fst)
      (manifestPath processed) := layout processed stem
  unfold runPersistencePhase
  rw [wp_bind]
  refine wp_imp (fun _ m' hm' => ?_)
    (wp_writePersistenceFiles hlayout ⟨rfl, by simp, fun _ _ _ => rfl⟩)
  cases makeEntry rows with
  | error message => exact hm'
  | ok entry =>
    refine wp_mono (fun _ _ _ => trivial) (fun raised m'' hm'' => ?_) (fun _ h => h)
      (wp_upsertEntry hlayout hm')
    rw [hm''.2]
    exact hm''.1

/-- **When the phase raises before the manifest entry is written**, nothing has been published just
when each table that was already moved into place is the same file as before. -/
theorem runPersistencePhase_unpublished_iff (parquet : Parquet V T F) (codec : Codec E F)
    (world : World Step PersistenceError F) (before : String → Option F)
    (makeEntry : Rows V → Except String E) (processed stem sourcePbf : String) (rows : Rows V)
    {raised : Raised Step PersistenceError}
    (h : Prog.run (runPersistencePhase parquet codec world makeEntry processed stem sourcePbf rows)
      (Machine.start before) = (.error raised, m')) :
    Unpublished before processed stem m' ↔ ∀ table ∈ persistenceTables processed stem rows,
          table.1 ∈ replacedBefore (persistencePaths processed stem) raised.step →
            newFile parquet table = before table.1 := by
  have hrun := wp_run
    (wp_runPersistencePhase parquet codec world before makeEntry processed stem sourcePbf rows)
  rw [h] at hrun
  exact hrun.1.unpublished_iff hrun.2

end

namespace PersistenceExample

/-- A file of an empty table is the name of its schema. -/
def parquet : Parquet Unit String String where
  columns _ := []
  null := ()
  emptyRow _ := []
  fromPylist _ kind :=
    match kind with
    | .polygons => .ok "polygons"
    | .articles => .ok "articles"
    | .links => .ok "links"
  noRows table := table
  file table := table

/-- A manifest file is the names of its entries. -/
def codec : Codec Unit String where
  loads _ := .ok none
  dumps entries := String.intercalate "," (entries.map Prod.fst)

/-- Only the step `failing` fails. -/
def world (failing : Step) : World Step PersistenceError String where
  fails step := if step = failing then some (.os "ENOSPC") else none
  random _ _ := some .letters
  empty := ""
  torn := "PAR1"

/-- The PBF has polygons already. -/
def before : String → Option String
  | "/p/polygons/r.parquet" => some "old polygons"
  | _ => none

/-- Three empty tables are persisted, and the step `failing` fails. -/
def persist (failing : Step) : Except (Raised Step PersistenceError) Unit × Machine String String :=
  Prog.run (runPersistencePhase parquet codec (world failing) (fun _ => .ok ()) "/p" "r" "r.osm.pbf"
    ⟨[], [], []⟩) (Machine.start before)

/-- The articles cannot be written: nothing has been published. -/
theorem persist_unpublished :
    Unpublished before "/p" "r" (persist (.writeTable "/p/articles/r.parquet")).2 := by
  have hraised : persist (.writeTable "/p/articles/r.parquet")
      = (.error ⟨.writeTable "/p/articles/r.parquet", .os "ENOSPC"⟩, _) :=
    Prod.ext (by decide) rfl
  refine (runPersistencePhase_unpublished_iff _ _ _ _ _ _ _ _ _ hraised).mpr ?_
  intro table _ hreplaced
  exact absurd hreplaced List.not_mem_nil

/-- The articles cannot be moved into place: the polygons are already the new ones. -/
theorem persist_halfPublished :
    ¬ Unpublished before "/p" "r" (persist (.replaceTable "/p/articles/r.parquet")).2 := by
  intro h
  exact absurd (h.tables "/p/polygons/r.parquet" (by decide)) (by decide)

end PersistenceExample

end OsmPolygonWikidata.Persistence
