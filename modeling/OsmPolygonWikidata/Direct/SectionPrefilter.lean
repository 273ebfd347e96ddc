import OsmPolygonWikidata.Basic.Dict

/-! # Reading only the sections that can survive

`_load_section_rows` in `v2/reuse_direct.py`. The stored sections of a region and those of the fetch
checkpoint are merged by section id, the last row of an id in the place of the first, and the rows
of documents that are not kept are dropped. The reader leaves out stored rows before that: it keeps
those whose section id occurs in a row of a kept document, stored or checkpointed.
`loadSectionRows_prefilter` says that this changes nothing.
-/

namespace V2.Direct

/-! ## Rows and tables -/

/-- A cell of a Python row. `other` is a value that is no string, by its `str` and its truth. -/
inductive Cell where
  | missing
  | null
  | text (value : String)
  | other (str : String) (truth : Bool)
  deriving DecidableEq

/-- `str(row.get(column, ""))`. -/
def Cell.str : Cell → String
  | .missing => ""
  | .null => "None"
  | .text value => value
  | .other value _ => value

/-- `bool(row.get(column))`. -/
def Cell.truth : Cell → Bool
  | .missing => false
  | .null => false
  | .text value => value ≠ ""
  | .other _ truth => truth

/-- A section row in Python. `data` is the other columns. -/
structure PythonRow (D : Type) where
  sectionId : Cell
  documentId : Cell
  data : D
  deriving DecidableEq

/-- A row of a table whose key columns are nullable strings. -/
structure ArrowRow (D : Type) where
  sectionId : Option String
  documentId : Option String
  data : D

/-- The stored sections: `_has_string_section_keys`, or other key columns. -/
inductive SectionTable (D : Type) where
  | stringKeys (rows : List (ArrowRow D))
  | otherKeys (rows : List (PythonRow D))

/-- The record batches in which a reader gets the rows of a file. -/
structure Batching where
  split : {A : Type} → List A → List (List A)
  flatten_split : ∀ {A : Type} (rows : List A), (split rows).flatten = rows

/-- `fetch_checkpoint.load_section_state()`: the rows and the completed documents. -/
structure SectionState (D : Type) where
  rows : List (PythonRow D)
  completed : List String

variable {D : Type}

def toCell (value : Option String) : Cell := (value.map Cell.text).getD .null

/-- A row of `to_pylist()`. -/
def ArrowRow.toPython (row : ArrowRow D) : PythonRow D :=
  ⟨toCell row.sectionId, toCell row.documentId, row.data⟩

/-- `_section_key`: `fill_null(values, "None")`. -/
def sectionKey (value : Option String) : String := value.getD "None"

def iterParquetRows (reader : Batching) : SectionTable D → List (PythonRow D)
  | .stringKeys rows => (reader.split rows).flatMap (fun batch => batch.map ArrowRow.toPython)
  | .otherKeys rows => (reader.split rows).flatten

def keptSectionIds (reader : Batching) (rows : List (ArrowRow D)) (documents : List String)
    (checkpointRows : List (PythonRow D)) : List String :=
  ((checkpointRows.filter (fun row => row.documentId.str ∈ documents)).map
    (fun row => row.sectionId.str))
  ++ (reader.split rows).flatMap (fun batch =>
    (batch.filter (fun row => sectionKey row.documentId ∈ documents)).map
      (fun row => sectionKey row.sectionId))

def rowsWithSectionIds (reader : Batching) (rows : List (ArrowRow D)) (sectionIds : List String) :
    List (PythonRow D) :=
  (reader.split rows).flatMap (fun batch =>
    (batch.filter (fun row => sectionKey row.sectionId ∈ sectionIds)).map ArrowRow.toPython)

/-- `_document_section_rows`. `none` is a file that is not there. -/
def documentSectionRows (reader : Batching) (table : Option (SectionTable D))
    (documents : List String) (checkpointRows : List (PythonRow D)) : List (PythonRow D) :=
  match table with
  | none => []
  | some (.otherKeys rows) => iterParquetRows reader (.otherKeys rows)
  | some (.stringKeys rows) =>
    rowsWithSectionIds reader rows (keptSectionIds reader rows documents checkpointRows)

def mergeCheckpointSections (sections : List (PythonRow D)) (state : Option (SectionState D)) :
    List (PythonRow D) × List String :=
  match state with
  | none => (sections, [])
  | some state =>
    (Dict.build (fun row => row.sectionId.str) (sections ++ state.rows), state.completed)

/-- `_filter_section_rows` with `filter_document_ids`. -/
def filterSectionRows (loaded : List (PythonRow D) × List String) (documents : List String) :
    List (PythonRow D) × List String :=
  (loaded.1.filter (fun row => row.documentId.str ∈ documents), loaded.2)

/-- `_load_section_rows` with `filter_document_ids`. -/
def loadSectionRows (reader : Batching) (table : Option (SectionTable D))
    (documents : List String) (state : Option (SectionState D)) :
    List (PythonRow D) × List String :=
  let checkpointRows := (state.map SectionState.rows).getD []
  filterSectionRows (mergeCheckpointSections
    (documentSectionRows reader table documents checkpointRows) state) documents

/-- The same without the filter of the reader: all rows are read. -/
def loadWholeTable (reader : Batching) (table : Option (SectionTable D))
    (documents : List String) (state : Option (SectionState D)) :
    List (PythonRow D) × List String :=
  filterSectionRows (mergeCheckpointSections
    ((table.map (iterParquetRows reader)).getD []) state) documents

/-! ## The filter of the reader -/

theorem str_toCell (value : Option String) : (toCell value).str = sectionKey value := by
  cases value <;> rfl

theorem filter_flatMap {A B : Type} (batches : List (List A)) (f : A → B) (p : B → Bool) :
    batches.flatMap (fun batch => (batch.filter (fun a => p (f a))).map f)
      = ((batches.flatten).map f).filter p := by
  induction batches with
  | nil => rfl
  | cons batch batches ih =>
    have hbatch : (batch.filter (fun a => p (f a))).map f = (batch.map f).filter p :=
      (List.filter_map).symm
    rw [List.flatMap_cons, ih, hbatch, List.flatten_cons, List.map_append, List.filter_append]

theorem iterParquetRows_stringKeys (reader : Batching) (rows : List (ArrowRow D)) :
    iterParquetRows reader (.stringKeys rows) = rows.map ArrowRow.toPython := by
  rw [iterParquetRows, List.flatMap_def, ← List.map_flatten, reader.flatten_split]

theorem iterParquetRows_otherKeys (reader : Batching) (rows : List (PythonRow D)) :
    iterParquetRows reader (.otherKeys rows) = rows := reader.flatten_split rows

theorem rowsWithSectionIds_eq (reader : Batching) (rows : List (ArrowRow D))
    (sectionIds : List String) :
    rowsWithSectionIds reader rows sectionIds
      = (rows.map ArrowRow.toPython).filter (fun row => row.sectionId.str ∈ sectionIds) := by
  rw [← reader.flatten_split rows, ← filter_flatMap, reader.flatten_split]
  simp only [rowsWithSectionIds, ArrowRow.toPython, str_toCell]

theorem mem_keptSectionIds (reader : Batching) (rows : List (ArrowRow D)) (documents : List String)
    (checkpointRows : List (PythonRow D)) {row : PythonRow D}
    (hrow : row ∈ rows.map ArrowRow.toPython ++ checkpointRows)
    (hdocument : row.documentId.str ∈ documents) :
    row.sectionId.str ∈ keptSectionIds reader rows documents checkpointRows := by
  rw [keptSectionIds, List.mem_append]
  rcases List.mem_append.mp hrow with hstored | hcheckpoint
  · obtain ⟨arrow, harrow, rfl⟩ := List.mem_map.mp hstored
    rw [← reader.flatten_split rows, List.mem_flatten] at harrow
    obtain ⟨batch, hbatch, hin⟩ := harrow
    have hkey : sectionKey arrow.documentId ∈ documents := by
      rw [← str_toCell]
      exact hdocument
    refine Or.inr (List.mem_flatMap.mpr ⟨batch, hbatch, List.mem_map.mpr ⟨arrow, ?_, ?_⟩⟩)
    · exact List.mem_filter.mpr ⟨hin, decide_eq_true hkey⟩
    · exact (str_toCell arrow.sectionId).symm
  · exact Or.inl (List.mem_map_of_mem (List.mem_filter.mpr ⟨hcheckpoint, decide_eq_true hdocument⟩))

/-! ## The merged rows -/

theorem mem_build {A : Type} {key : A → String} {rows : List A} {row : A}
    (h : row ∈ Dict.build key rows) : row ∈ rows := (Dict.mem_build_iff.mp h).mem

/-- Dropping every row of a section id that no kept document has, before the rows are merged,
changes none of the rows that are kept. -/
theorem filter_build_filter {rows : List (PythonRow D)} {documents sectionIds : List String}
    (hkept : ∀ row ∈ rows, row.documentId.str ∈ documents → row.sectionId.str ∈ sectionIds) :
    (Dict.build (fun row : PythonRow D => row.sectionId.str) rows).filter
        (fun row => row.documentId.str ∈ documents)
      = (Dict.build (fun row : PythonRow D => row.sectionId.str)
          (rows.filter (fun row => row.sectionId.str ∈ sectionIds))).filter
        (fun row => row.documentId.str ∈ documents) := by
  rw [← Dict.filter_build (fun id => decide (id ∈ sectionIds)), List.filter_filter]
  refine List.filter_congr fun row hrow => ?_
  by_cases hdocument : row.documentId.str ∈ documents
  · have hsection := hkept row (mem_build hrow) hdocument
    simp [hdocument, hsection]
  · simp [hdocument]

theorem filter_append_of_subset {rows checkpointRows : List (PythonRow D)}
    {sectionIds : List String} :
    (rows.filter (fun row => row.sectionId.str ∈ sectionIds) ++ checkpointRows).filter
        (fun row => row.sectionId.str ∈ sectionIds)
      = (rows ++ checkpointRows).filter (fun row => row.sectionId.str ∈ sectionIds) := by
  rw [List.filter_append, List.filter_append, List.filter_filter]
  simp only [Bool.and_self]

/-- **The filter of the reader is transparent.** -/
theorem loadSectionRows_prefilter (reader whole : Batching) (table : Option (SectionTable D))
    (documents : List String) (state : Option (SectionState D)) :
    loadSectionRows reader table documents state = loadWholeTable whole table documents state := by
  match table with
  | none => rfl
  | some (.otherKeys rows) =>
    simp only [loadSectionRows, loadWholeTable, documentSectionRows, Option.map_some,
      Option.getD_some, iterParquetRows_otherKeys]
  | some (.stringKeys rows) =>
    have hkept : ∀ row ∈ rows.map ArrowRow.toPython ++ (state.map SectionState.rows).getD [],
        row.documentId.str ∈ documents → row.sectionId.str
          ∈ keptSectionIds reader rows documents ((state.map SectionState.rows).getD []) :=
      fun row hrow => mem_keptSectionIds reader rows documents _ hrow
    simp only [loadSectionRows, loadWholeTable, documentSectionRows, Option.map_some,
      Option.getD_some, iterParquetRows_stringKeys, rowsWithSectionIds_eq]
    cases state with
    | none =>
      -- nothing is merged: the reader drops only rows that are dropped later
      simp only [mergeCheckpointSections, filterSectionRows, List.filter_filter]
      refine congrArg (fun kept => (kept, [])) (List.filter_congr fun row hrow => ?_)
      by_cases hdocument : row.documentId.str ∈ documents
      · have hsection := hkept row (List.mem_append_left _ hrow) hdocument
        simpa [hdocument] using hsection
      · simp [hdocument]
    | some state =>
      simp only [mergeCheckpointSections, filterSectionRows, Option.map_some,
        Option.getD_some] at hkept ⊢
      refine congrArg (fun kept => (kept, state.completed)) ?_
      rw [filter_build_filter hkept, ← filter_append_of_subset]
      refine filter_build_filter fun row hrow hdocument => hkept row ?_ hdocument
      rcases List.mem_append.mp hrow with hstored | hcheckpoint
      · exact List.mem_append_left _ (List.mem_of_mem_filter hstored)
      · exact List.mem_append_right _ hcheckpoint

end V2.Direct
