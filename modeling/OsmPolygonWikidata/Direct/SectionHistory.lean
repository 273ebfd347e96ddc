import Mathlib.Data.String.Basic
import OsmPolygonWikidata.Direct.SectionPrefilter

/-! # Region sections and the fetch checkpoint

`build_region_sections` of `v2/reuse_direct.py` and `v2/sections.py`. The sections of a region come
from the stored table, from the fetch checkpoint of an interrupted run, and from fresh fetches of
the documents that neither covers. Rows are sorted when something was fetched, and returned as they
were loaded when nothing was missing.

A section client that is a fixed function makes `_fetch_one` a fixed function `fetch` of the
document. `sameSections_iff` says when a checkpoint leaves no trace in the result.
-/

namespace V2.Direct.History

open Python (Functional insertionSort_congr)

/-! ## Rows and documents -/

structure SectionData (X : Type) where
  sectionIndex : ℤ
  columns : X
  deriving DecidableEq

abbrev SectionRecord (X : Type) := PythonRow (SectionData X)

/-- A row of the documents of the region. -/
structure RegionDocument (B : Type) where
  documentId : String
  project : String
  body : B
  deriving DecidableEq

/-- The order in which the futures of the documents complete. -/
structure Completion (B : Type) where
  order : List (RegionDocument B) → List (RegionDocument B)
  perm : ∀ documents, (order documents).Perm documents

variable {B X : Type}

def rowId (row : SectionRecord X) : String := row.sectionId.str

/-- The sort key of `_merge_section_rows`. -/
def sortKey (row : SectionRecord X) : String ×ₗ ℤ ×ₗ String :=
  toLex (row.documentId.str, toLex (row.data.sectionIndex, row.sectionId.str))

section

variable (fetch : RegionDocument B → List (SectionRecord X))

/-! ## Missing documents -/

def coveredDocumentIds (existing : List (SectionRecord X)) (completed : List String) :
    List String :=
  (existing.filter (fun row => row.documentId.truth)).map (fun row => row.documentId.str)
    ++ completed

/-- `_missing_documents`. -/
def missingDocuments (documents : List (RegionDocument B)) (existing : List (SectionRecord X))
    (completed : List String) : List (RegionDocument B) :=
  (documents.insertionSort (fun a b => a.documentId ≤ b.documentId)).filter (fun d =>
    d.project = "wikipedia" ∧ d.documentId ∉ coveredDocumentIds existing completed)

/-- `_merge_section_rows`: `by_id` of the existing rows, updated with that of the new ones. -/
def mergeSectionRows (existing new : List (SectionRecord X)) : List (SectionRecord X) :=
  (Dict.build rowId (existing ++ Dict.build rowId new)).insertionSort
    (fun a b => sortKey a ≤ sortKey b)

/-- `build_missing_sections` with a section client. -/
def buildMissingSections (completion : Completion B) (documents : List (RegionDocument B))
    (existing : List (SectionRecord X)) (completed : List String) : List (SectionRecord X) :=
  let missing := missingDocuments documents existing completed
  if missing.isEmpty then existing
  else mergeSectionRows existing ((completion.order missing).flatMap fetch)

/-! ## The checkpoint -/

/-- The files of the documents whose sections were saved, in the order of their names. -/
def sectionFiles (digest : String → String) (saved : List (RegionDocument B)) :
    List (RegionDocument B) :=
  saved.insertionSort (fun a b => digest a.documentId ≤ digest b.documentId)

def loadSectionState (digest : String → String) (saved : List (RegionDocument B)) :
    SectionState (SectionData X) where
  rows := (sectionFiles digest saved).flatMap fetch
  completed := (sectionFiles digest saved).map RegionDocument.documentId

/-- `_load_section_rows`. -/
def loadSections (reader : Batching) (table : Option (SectionTable (SectionData X)))
    (documents : List (RegionDocument B)) (state : Option (SectionState (SectionData X)))
    (filterDocumentIds : Bool) : List (SectionRecord X) × List String :=
  if filterDocumentIds then
    loadSectionRows reader table (documents.map RegionDocument.documentId) state
  else mergeCheckpointSections ((table.map (iterParquetRows reader)).getD []) state

/-- `build_region_sections`. `checkpoint` is the documents that are saved in the fetch checkpoint,
`none` without one. -/
def buildRegionSections (reader : Batching) (completion : Completion B) (digest : String → String)
    (documents : List (RegionDocument B)) (table : Option (SectionTable (SectionData X)))
    (filterDocumentIds : Bool) (checkpoint : Option (List (RegionDocument B))) :
    List (SectionRecord X) :=
  let loaded := loadSections reader table documents
    (checkpoint.map (loadSectionState fetch digest)) filterDocumentIds
  buildMissingSections fetch completion documents loaded.1 loaded.2

/-! ## Loading -/

/-- The rows of the stored table. -/
def storedRows : Option (SectionTable (SectionData X)) → List (SectionRecord X)
  | none => []
  | some (.stringKeys rows) => rows.map ArrowRow.toPython
  | some (.otherKeys rows) => rows

/-- The rows of the documents, if the rows are filtered. -/
def keep (documents : List (RegionDocument B)) (filterDocumentIds : Bool)
    (rows : List (SectionRecord X)) : List (SectionRecord X) :=
  rows.filter (fun row => !filterDocumentIds
    || decide (row.documentId.str ∈ documents.map RegionDocument.documentId))

theorem iterParquetRows_eq (reader : Batching) (table : Option (SectionTable (SectionData X))) :
    (table.map (iterParquetRows reader)).getD [] = storedRows table := by
  match table with
  | none => rfl
  | some (.stringKeys rows) => exact iterParquetRows_stringKeys reader rows
  | some (.otherKeys rows) => exact iterParquetRows_otherKeys reader rows

theorem loadSections_eq (reader : Batching) (table : Option (SectionTable (SectionData X)))
    (documents : List (RegionDocument B)) (state : Option (SectionState (SectionData X)))
    (filterDocumentIds : Bool) :
    loadSections reader table documents state filterDocumentIds
      = (keep documents filterDocumentIds (mergeCheckpointSections (storedRows table) state).1,
        (mergeCheckpointSections (storedRows table) state).2) := by
  cases filterDocumentIds with
  | true =>
    rw [loadSections, if_pos rfl, loadSectionRows_prefilter reader reader, loadWholeTable,
      iterParquetRows_eq]
    simp [filterSectionRows, keep]
  | false =>
    rw [loadSections, if_neg Bool.false_ne_true, iterParquetRows_eq]
    simp [keep]

end

/-! ## Inputs -/

section

variable {fetch : RegionDocument B → List (SectionRecord X)} {digest : String → String}
  {documents saved : List (RegionDocument B)} {table : Option (SectionTable (SectionData X))}
  {filterDocumentIds : Bool}

/-- The stored rows that are kept. -/
def keptRows (documents : List (RegionDocument B)) (table : Option (SectionTable (SectionData X)))
    (filterDocumentIds : Bool) : List (SectionRecord X) :=
  keep documents filterDocumentIds (storedRows table)

/-- The documents that are fetched when there is no checkpoint. -/
def wanted (documents : List (RegionDocument B)) (table : Option (SectionTable (SectionData X)))
    (filterDocumentIds : Bool) : List (RegionDocument B) :=
  missingDocuments documents (keptRows documents table filterDocumentIds) []

/-- The saved documents that would be fetched without the checkpoint, in the order of their
files. -/
def savedWanted (digest : String → String) (documents saved : List (RegionDocument B))
    (table : Option (SectionTable (SectionData X))) (filterDocumentIds : Bool) :
    List (RegionDocument B) :=
  (sectionFiles digest saved).filter (fun d =>
    d.documentId ∈ (wanted documents table filterDocumentIds).map RegionDocument.documentId)

/-- No two sections share an id, and the sections of a document carry its id. -/
structure DistinctIds (fetch : RegionDocument B → List (SectionRecord X))
    (documents : List (RegionDocument B)) (table : Option (SectionTable (SectionData X)))
    (filterDocumentIds : Bool) : Prop where
  unique : (documents.map RegionDocument.documentId).Nodup
  own : ∀ d ∈ documents, ∀ row ∈ fetch d, row.documentId.str = d.documentId
  stored : ((storedRows table).map rowId).Nodup
  fetched : ((documents.flatMap fetch).map rowId).Nodup
  apart : ∀ row ∈ storedRows table, ∀ d ∈ wanted documents table filterDocumentIds,
    ∀ new ∈ fetch d, rowId row ≠ rowId new

/-- When a checkpoint leaves no trace: what it has of documents that are not missing is stored, and
if it has all that is missing, the rows come in sorted order anyway. -/
structure NoTrace (fetch : RegionDocument B → List (SectionRecord X)) (digest : String → String)
    (documents saved : List (RegionDocument B)) (table : Option (SectionTable (SectionData X)))
    (filterDocumentIds : Bool) : Prop where
  known : ∀ d ∈ saved, d ∉ wanted documents table filterDocumentIds →
    ∀ row ∈ fetch d, row ∈ storedRows table
  ordered : wanted documents table filterDocumentIds ≠ [] →
    (∀ d ∈ wanted documents table filterDocumentIds, d ∈ saved) →
    (keptRows documents table filterDocumentIds
      ++ (savedWanted digest documents saved table filterDocumentIds).flatMap fetch).Pairwise
      (fun a b => sortKey a ≤ sortKey b)

/-! ## Documents -/

variable {d : RegionDocument B}

theorem mem_sectionFiles : d ∈ sectionFiles digest saved ↔ d ∈ saved :=
  List.mem_insertionSort _

theorem mem_missingDocuments {existing : List (SectionRecord X)} {completed : List String} :
    d ∈ missingDocuments documents existing completed ↔ d ∈ documents ∧ d.project = "wikipedia"
        ∧ d.documentId ∉ coveredDocumentIds existing completed := by
  rw [missingDocuments, List.mem_filter, List.mem_insertionSort, decide_eq_true_eq]

theorem mem_of_mem_wanted (h : d ∈ wanted documents table filterDocumentIds) : d ∈ documents :=
  (mem_missingDocuments.mp h).1

theorem eq_of_documentId (h : (documents.map RegionDocument.documentId).Nodup)
    {d d' : RegionDocument B} (hd : d ∈ documents) (hd' : d' ∈ documents)
    (heq : d.documentId = d'.documentId) : d = d' :=
  List.inj_on_of_nodup_map h hd hd' heq

theorem mem_wanted_of_documentId (h : (documents.map RegionDocument.documentId).Nodup)
    (hd : d ∈ documents)
    (hmem : d.documentId ∈ (wanted documents table filterDocumentIds).map
      RegionDocument.documentId) : d ∈ wanted documents table filterDocumentIds := by
  obtain ⟨d', hd', heq⟩ := List.mem_map.mp hmem
  rw [← eq_of_documentId h (mem_of_mem_wanted hd') hd heq]
  exact hd'

theorem mem_savedWanted (h : (documents.map RegionDocument.documentId).Nodup)
    (hsaved : saved ⊆ documents) :
    d ∈ savedWanted digest documents saved table filterDocumentIds
      ↔ d ∈ saved ∧ d ∈ wanted documents table filterDocumentIds := by
  rw [savedWanted, List.mem_filter, mem_sectionFiles, decide_eq_true_eq]
  exact ⟨fun hd => ⟨hd.1, mem_wanted_of_documentId h (hsaved hd.1) hd.2⟩,
    fun hd => ⟨hd.1, List.mem_map_of_mem hd.2⟩⟩

theorem missingDocuments_append {existing new : List (SectionRecord X)} {completed : List String}
    (hnew : ∀ row ∈ new, row.documentId.str ∈ completed) :
    missingDocuments documents (existing ++ new) completed
      = (missingDocuments documents existing []).filter (fun d => d.documentId ∉ completed) := by
  rw [missingDocuments, missingDocuments, List.filter_filter]
  refine List.filter_congr fun d _ => ?_
  have hcovered : d.documentId ∈ coveredDocumentIds (existing ++ new) completed
      ↔ d.documentId ∈ coveredDocumentIds existing [] ∨ d.documentId ∈ completed := by
    simp only [coveredDocumentIds, List.append_nil, List.filter_append, List.map_append,
      List.mem_append]
    constructor
    · rintro ((hold | hrow) | hdone)
      · exact Or.inl hold
      · obtain ⟨row, hrow, heq⟩ := List.mem_map.mp hrow
        exact Or.inr (heq ▸ hnew row (List.mem_of_mem_filter hrow))
      · exact Or.inr hdone
    · rintro (hold | hdone)
      · exact Or.inl (Or.inl hold)
      · exact Or.inr hdone
  simp only [hcovered]
  by_cases hproject : d.project = "wikipedia" <;>
    by_cases hold : d.documentId ∈ coveredDocumentIds existing [] <;>
    by_cases hdone : d.documentId ∈ completed <;>
    simp [hproject, hold, hdone]

/-! ## Rows -/

theorem filter_flatMap_eq {A C : Type} {f : A → List C} {p : C → Bool} {q : A → Bool} {l : List A}
    (hkeep : ∀ a ∈ l, q a = true → ∀ c ∈ f a, p c = true)
    (hdrop : ∀ a ∈ l, q a = false → ∀ c ∈ f a, p c = false) :
    (l.flatMap f).filter p = (l.filter q).flatMap f := by
  induction l with
  | nil => rfl
  | cons a l ih =>
    have hrest := ih (fun b hb => hkeep b (List.mem_cons_of_mem _ hb))
      (fun b hb => hdrop b (List.mem_cons_of_mem _ hb))
    rw [List.flatMap_cons, List.filter_append, hrest]
    cases hq : q a with
    | true =>
      rw [List.filter_cons_of_pos hq, List.flatMap_cons,
        List.filter_eq_self.mpr (hkeep a List.mem_cons_self hq)]
    | false =>
      rw [List.filter_cons_of_neg (by simp [hq]), List.filter_eq_nil_iff.mpr, List.nil_append]
      exact fun c hc => by simp [hdrop a List.mem_cons_self hq c hc]

namespace DistinctIds

variable (h : DistinctIds fetch documents table filterDocumentIds)
include h

variable {chosen : List (RegionDocument B)}

theorem rows (hnodup : chosen.Nodup) (hsub : chosen ⊆ documents) :
    ((chosen.flatMap fetch).map rowId).Nodup := by
  obtain ⟨same, hperm, hsublist⟩ := List.subperm_of_subset hnodup hsub
  have hsame : ((same.flatMap fetch).map rowId).Nodup :=
    ((hsublist.flatMap fetch).map rowId).nodup h.fetched
  exact ((hperm.flatMap_right fetch).map rowId).nodup_iff.mp hsame

theorem functional (hnodup : chosen.Nodup) (hsub : chosen ⊆ documents)
    (hknown : ∀ d ∈ chosen, d ∉ wanted documents table filterDocumentIds →
      ∀ row ∈ fetch d, row ∈ storedRows table) :
    Functional rowId (storedRows table ++ chosen.flatMap fetch) := by
  have hstored := Dict.functional_of_nodup h.stored
  have hcross : ∀ row ∈ storedRows table, ∀ new ∈ chosen.flatMap fetch,
      rowId row = rowId new → row = new := by
    intro row hrow new hnew heq
    obtain ⟨d, hd, hin⟩ := List.mem_flatMap.mp hnew
    by_cases hwanted : d ∈ wanted documents table filterDocumentIds
    · exact absurd heq (h.apart row hrow d hwanted new hin)
    · exact hstored row hrow new (hknown d hd hwanted new hin) heq
  intro row hrow other hother heq
  rcases List.mem_append.mp hrow with hrow | hrow <;>
    rcases List.mem_append.mp hother with hother | hother
  · exact hstored row hrow other hother heq
  · exact hcross row hrow other hother heq
  · exact (hcross other hother row hrow heq.symm).symm
  · exact Dict.functional_of_nodup (h.rows hnodup hsub) row hrow other hother heq

theorem keptRows_nodup : ((keptRows documents table filterDocumentIds).map rowId).Nodup :=
  (List.filter_sublist.map rowId).nodup h.stored

theorem append_nodup (hnodup : chosen.Nodup)
    (hwanted : chosen ⊆ wanted documents table filterDocumentIds) :
    ((keptRows documents table filterDocumentIds ++ chosen.flatMap fetch).map rowId).Nodup := by
  rw [List.map_append, List.nodup_append]
  refine ⟨h.keptRows_nodup, h.rows hnodup fun d hd => mem_of_mem_wanted (hwanted hd), ?_⟩
  intro id hid id' hid' heq
  obtain ⟨row, hrow, rfl⟩ := List.mem_map.mp hid
  obtain ⟨new, hnew, rfl⟩ := List.mem_map.mp hid'
  obtain ⟨d, hd, hin⟩ := List.mem_flatMap.mp hnew
  exact h.apart row (List.mem_of_mem_filter hrow) d (hwanted hd) new hin heq

theorem documents_nodup : documents.Nodup := List.Nodup.of_map _ h.unique

theorem wanted_nodup : (wanted documents table filterDocumentIds).Nodup :=
  ((List.perm_insertionSort _ documents).nodup_iff.mpr h.documents_nodup).filter _

end DistinctIds

theorem rowId_of_sortKey {row other : SectionRecord X} (h : sortKey row = sortKey other) :
    rowId row = rowId other := by
  have hpair := congrArg (fun key => (ofLex (ofLex key).2).2) h
  exact hpair

theorem sort_congr {rows rows' : List (SectionRecord X)} (hperm : rows.Perm rows')
    (hnodup : (rows.map rowId).Nodup) :
    rows.insertionSort (fun a b => sortKey a ≤ sortKey b)
      = rows'.insertionSort (fun a b => sortKey a ≤ sortKey b) :=
  insertionSort_congr hperm fun row hrow other hother hkey =>
    Dict.functional_of_nodup hnodup row hrow other hother (rowId_of_sortKey hkey)

theorem mergeSectionRows_eq {existing new : List (SectionRecord X)}
    (hnodup : ((existing ++ new).map rowId).Nodup) :
    mergeSectionRows existing new
      = (existing ++ new).insertionSort (fun a b => sortKey a ≤ sortKey b) := by
  have hnew : (new.map rowId).Nodup := by
    rw [List.map_append] at hnodup
    exact (List.nodup_append.mp hnodup).2.1
  rw [mergeSectionRows, Dict.build_of_nodup hnew, Dict.build_of_nodup hnodup]

/-! ## Without a checkpoint -/

theorem buildRegionSections_none (reader : Batching) (completion : Completion B) :
    buildRegionSections fetch reader completion digest documents table filterDocumentIds none
      = if (wanted documents table filterDocumentIds).isEmpty then
          keptRows documents table filterDocumentIds
        else mergeSectionRows (keptRows documents table filterDocumentIds)
          ((completion.order (wanted documents table filterDocumentIds)).flatMap fetch) := by
  rw [buildRegionSections, loadSections_eq]
  rfl

/-! ## With a checkpoint -/

section

variable (h : DistinctIds fetch documents table filterDocumentIds) (hsaved : saved ⊆ documents)
  (hnodup : saved.Nodup)
include h hsaved

theorem savedWanted_subset (digest : String → String) :
    savedWanted digest documents saved table filterDocumentIds
      ⊆ wanted documents table filterDocumentIds :=
  fun _ hd => ((mem_savedWanted h.unique hsaved).mp hd).2

include hnodup

omit h hsaved in
theorem savedWanted_nodup : (savedWanted digest documents saved table filterDocumentIds).Nodup :=
  ((List.perm_insertionSort _ saved).nodup_iff.mpr hnodup).filter _

variable (hknown : ∀ d ∈ saved, d ∉ wanted documents table filterDocumentIds →
  ∀ row ∈ fetch d, row ∈ storedRows table)

include hknown

theorem loadSections_some (reader : Batching) :
    loadSections reader table documents (some (loadSectionState fetch digest saved))
        filterDocumentIds
      = (keptRows documents table filterDocumentIds
          ++ (savedWanted digest documents saved table filterDocumentIds).flatMap fetch,
        (sectionFiles digest saved).map RegionDocument.documentId) := by
  have hfiles : (sectionFiles digest saved).Nodup :=
    (List.perm_insertionSort _ saved).nodup_iff.mpr hnodup
  have hsub : sectionFiles digest saved ⊆ documents := fun d hd => hsaved (mem_sectionFiles.mp hd)
  have hknown' : ∀ d ∈ sectionFiles digest saved,
      d ∉ wanted documents table filterDocumentIds → ∀ row ∈ fetch d, row ∈ storedRows table :=
    fun d hd => hknown d (mem_sectionFiles.mp hd)
  have hbuild : Dict.build rowId (storedRows table ++ (sectionFiles digest saved).flatMap fetch)
      = storedRows table
        ++ (savedWanted digest documents saved table filterDocumentIds).flatMap fetch := by
    rw [Dict.build_append h.stored (h.rows hfiles hsub) (h.functional hfiles hsub hknown'),
      savedWanted]
    refine congrArg (storedRows table ++ ·) (filter_flatMap_eq ?_ ?_)
    · intro d hd hwanted new hnew
      have hmem := mem_wanted_of_documentId h.unique (hsub hd) (of_decide_eq_true hwanted)
      refine decide_eq_true fun hid => ?_
      obtain ⟨row, hrow, heq⟩ := List.mem_map.mp hid
      exact h.apart row hrow d hmem new hnew heq
    · intro d hd hwanted new hnew
      have hmem : d ∉ wanted documents table filterDocumentIds := fun hin =>
        of_decide_eq_false hwanted (List.mem_map_of_mem hin)
      exact decide_eq_false (not_not.mpr (List.mem_map_of_mem (hknown' d hd hmem new hnew)))
  have hkeep : keep documents filterDocumentIds
      ((savedWanted digest documents saved table filterDocumentIds).flatMap fetch)
      = (savedWanted digest documents saved table filterDocumentIds).flatMap fetch := by
    refine List.filter_eq_self.mpr fun row hrow => ?_
    obtain ⟨d, hd, hin⟩ := List.mem_flatMap.mp hrow
    have hdocument : d ∈ documents := mem_of_mem_wanted (savedWanted_subset h hsaved digest hd)
    rw [h.own d hdocument row hin]
    simp [List.mem_map_of_mem hdocument]
  rw [loadSections_eq]
  refine Prod.ext ?_ rfl
  show keep documents filterDocumentIds
    (Dict.build rowId (storedRows table ++ (sectionFiles digest saved).flatMap fetch)) = _
  rw [hbuild, keep, List.filter_append]
  exact congrArg (keptRows documents table filterDocumentIds ++ ·) hkeep

/-- The documents that are fetched with the checkpoint. -/
def unsaved (documents saved : List (RegionDocument B))
    (table : Option (SectionTable (SectionData X))) (filterDocumentIds : Bool) :
    List (RegionDocument B) :=
  (wanted documents table filterDocumentIds).filter
    (fun d => d.documentId ∉ saved.map RegionDocument.documentId)

theorem buildRegionSections_some (reader : Batching) (completion : Completion B) :
    buildRegionSections fetch reader completion digest documents table filterDocumentIds
        (some saved)
      = if (unsaved documents saved table filterDocumentIds).isEmpty then
          keptRows documents table filterDocumentIds
            ++ (savedWanted digest documents saved table filterDocumentIds).flatMap fetch
        else mergeSectionRows (keptRows documents table filterDocumentIds
            ++ (savedWanted digest documents saved table filterDocumentIds).flatMap fetch)
          ((completion.order (unsaved documents saved table filterDocumentIds)).flatMap fetch) := by
  have hmissing : missingDocuments documents (keptRows documents table filterDocumentIds
        ++ (savedWanted digest documents saved table filterDocumentIds).flatMap fetch)
      ((sectionFiles digest saved).map RegionDocument.documentId)
      = unsaved documents saved table filterDocumentIds := by
    rw [missingDocuments_append, unsaved, wanted]
    · refine List.filter_congr fun d _ => ?_
      have hperm := (List.perm_insertionSort
        (fun a b : RegionDocument B => digest a.documentId ≤ digest b.documentId) saved).map
        RegionDocument.documentId
      exact decide_eq_decide.mpr (not_congr hperm.mem_iff)
    · intro row hrow
      obtain ⟨d, hd, hin⟩ := List.mem_flatMap.mp hrow
      obtain ⟨hdsaved, hdwanted⟩ := (mem_savedWanted h.unique hsaved).mp hd
      rw [h.own d (mem_of_mem_wanted hdwanted) row hin]
      exact List.mem_map_of_mem (mem_sectionFiles.mpr hdsaved)
  rw [buildRegionSections, Option.map_some, loadSections_some h hsaved hnodup hknown reader,
    buildMissingSections, hmissing]

omit hknown

theorem perm_wanted (digest : String → String) (completion completion' : Completion B) :
    (savedWanted digest documents saved table filterDocumentIds
        ++ completion.order (unsaved documents saved table filterDocumentIds)).Perm
      (completion'.order (wanted documents table filterDocumentIds)) := by
  have hunsaved := completion.perm (unsaved documents saved table filterDocumentIds)
  have hwanted := completion'.perm (wanted documents table filterDocumentIds)
  refine (List.Perm.append_left _ hunsaved).trans (List.Perm.trans ?_ hwanted.symm)
  refine (List.perm_ext_iff_of_nodup ?_ h.wanted_nodup).mpr fun d => ?_
  · refine List.nodup_append.mpr ⟨savedWanted_nodup hnodup, h.wanted_nodup.filter _, ?_⟩
    intro d hd d' hd' heq
    obtain ⟨hdsaved, _⟩ := (mem_savedWanted h.unique hsaved).mp hd
    have hnot := of_decide_eq_true (List.mem_filter.mp hd').2
    exact hnot (heq ▸ List.mem_map_of_mem hdsaved)
  · rw [List.mem_append, mem_savedWanted h.unique hsaved, unsaved, List.mem_filter,
      decide_eq_true_eq]
    constructor
    · rintro (hd | hd)
      · exact hd.2
      · exact hd.1
    · intro hd
      by_cases hin : d.documentId ∈ saved.map RegionDocument.documentId
      · obtain ⟨d', hd', heq⟩ := List.mem_map.mp hin
        have hsame := eq_of_documentId h.unique (hsaved hd') (mem_of_mem_wanted hd) heq
        exact Or.inl ⟨hsame ▸ hd', hd⟩
      · exact Or.inr ⟨hd, hin⟩

omit hnodup in
theorem unsaved_eq_nil_iff : unsaved documents saved table filterDocumentIds = []
      ↔ ∀ d ∈ wanted documents table filterDocumentIds, d ∈ saved := by
  rw [unsaved, List.filter_eq_nil_iff]
  refine forall₂_congr fun d hd => ?_
  rw [decide_eq_true_eq, not_not]
  refine ⟨fun hin => ?_, fun hin => List.mem_map_of_mem hin⟩
  obtain ⟨d', hd', heq⟩ := List.mem_map.mp hin
  exact (eq_of_documentId h.unique (hsaved hd') (mem_of_mem_wanted hd) heq) ▸ hd'

theorem sort_eq (digest : String → String) (completion completion' : Completion B) :
    (keptRows documents table filterDocumentIds
        ++ (savedWanted digest documents saved table filterDocumentIds).flatMap fetch
        ++ (completion.order (unsaved documents saved table filterDocumentIds)).flatMap fetch
      ).insertionSort (fun a b => sortKey a ≤ sortKey b)
      = mergeSectionRows (keptRows documents table filterDocumentIds)
        ((completion'.order (wanted documents table filterDocumentIds)).flatMap fetch) := by
  have hwanted := completion'.perm (wanted documents table filterDocumentIds)
  have hids := h.append_nodup (hwanted.nodup_iff.mpr h.wanted_nodup) hwanted.subset
  have hperm : (keptRows documents table filterDocumentIds
      ++ (savedWanted digest documents saved table filterDocumentIds).flatMap fetch
      ++ (completion.order (unsaved documents saved table filterDocumentIds)).flatMap fetch).Perm
      (keptRows documents table filterDocumentIds
        ++ (completion'.order (wanted documents table filterDocumentIds)).flatMap fetch) := by
    rw [List.append_assoc, ← List.flatMap_append]
    exact List.Perm.append_left _
      ((perm_wanted h hsaved hnodup digest completion completion').flatMap_right fetch)
  rw [mergeSectionRows_eq hids]
  exact sort_congr hperm ((hperm.map rowId).nodup_iff.mpr hids)

theorem NoTrace.same (hclean : NoTrace fetch digest documents saved table filterDocumentIds)
    (reader reader' : Batching) (completion completion' : Completion B) :
    buildRegionSections fetch reader completion digest documents table filterDocumentIds
        (some saved)
      = buildRegionSections fetch reader' completion' digest documents table filterDocumentIds
        none := by
  have hsort := sort_eq h hsaved hnodup digest completion completion'
  have hall := unsaved_eq_nil_iff h hsaved
  rw [buildRegionSections_some h hsaved hnodup hclean.known reader completion,
    buildRegionSections_none]
  by_cases hwanted : wanted documents table filterDocumentIds = []
  · -- nothing is missing: the checkpoint has nothing new either
    have hsub := savedWanted_subset h hsaved digest
    rw [hwanted] at hsub
    have hnone := List.eq_nil_of_subset_nil hsub
    have hunsaved : unsaved documents saved table filterDocumentIds = [] := by
      rw [unsaved, hwanted, List.filter_nil]
    rw [hunsaved, hnone, hwanted]
    simp
  · have hsome : (wanted documents table filterDocumentIds).isEmpty = false := by
      simpa using hwanted
    rw [hsome, if_neg Bool.false_ne_true, ← hsort]
    by_cases hunsaved : unsaved documents saved table filterDocumentIds = []
    · have hempty : completion.order [] = [] := (completion.perm []).eq_nil
      have hsorted := (hclean.ordered hwanted (hall.mp hunsaved)).insertionSort_eq
      rw [hunsaved, hempty, List.flatMap_nil, List.append_nil, hsorted]
      rfl
    · have hfetch : (unsaved documents saved table filterDocumentIds).isEmpty = false := by
        simpa using hunsaved
      have hperm := perm_wanted h hsaved hnodup digest completion completion'
      have hwantedperm := completion'.perm (wanted documents table filterDocumentIds)
      have hdocs := hperm.trans hwantedperm
      have hids := h.append_nodup (hdocs.nodup_iff.mpr h.wanted_nodup) hdocs.subset
      rw [List.flatMap_append, ← List.append_assoc] at hids
      rw [hfetch, if_neg Bool.false_ne_true, mergeSectionRows_eq hids]

/-! ## Traces -/

omit h hsaved hnodup in
theorem mem_of_mem_mergeSectionRows {existing new : List (SectionRecord X)} {row : SectionRecord X}
    (hrow : row ∈ mergeSectionRows existing new) : row ∈ existing ∨ row ∈ new := by
  have hbuild := mem_build ((List.mem_insertionSort _).mp hrow)
  exact (List.mem_append.mp hbuild).imp_right mem_build

omit h hsaved hnodup in
theorem mem_buildMissingSections (completion : Completion B) {existing : List (SectionRecord X)}
    {completed : List String} {row : SectionRecord X} (hrow : row ∈ existing)
    (hids : (existing.map rowId).Nodup)
    (hnew : ∀ d ∈ missingDocuments documents existing completed, ∀ new ∈ fetch d,
      rowId new ≠ rowId row) :
    row ∈ buildMissingSections fetch completion documents existing completed := by
  rw [buildMissingSections]
  split
  · exact hrow
  · refine (List.mem_insertionSort _).mpr (Dict.mem_build_iff.mpr (Dict.Last.append_right ?_ ?_))
    · exact (Dict.last_iff_mem fun other hother hid =>
        Dict.functional_of_nodup hids other hother row hrow hid).mpr hrow
    · intro new hin
      obtain ⟨d, hd, hin⟩ := List.mem_flatMap.mp (mem_build hin)
      exact hnew d ((completion.perm _).mem_iff.mp hd) new hin

theorem mem_buildRegionSections (digest : String → String) (reader : Batching)
    (completion : Completion B)
    {d : RegionDocument B} (hd : d ∈ saved) {row : SectionRecord X} (hrow : row ∈ fetch d) :
    row ∈ buildRegionSections fetch reader completion digest documents table filterDocumentIds
      (some saved) := by
  have hfiles : (sectionFiles digest saved).Nodup :=
    (List.perm_insertionSort _ saved).nodup_iff.mpr hnodup
  have hsub : sectionFiles digest saved ⊆ documents := fun d hd => hsaved (mem_sectionFiles.mp hd)
  have hin : row ∈ (sectionFiles digest saved).flatMap fetch :=
    List.mem_flatMap.mpr ⟨d, mem_sectionFiles.mpr hd, hrow⟩
  -- the checkpoint is read after the stored table: its row wins
  have hlast : Dict.Last rowId (storedRows table ++ (sectionFiles digest saved).flatMap fetch) row :=
    ((Dict.last_iff_mem fun other hother hid => Dict.functional_of_nodup (h.rows hfiles hsub)
      other hother row hin hid).mpr hin).append_left _
  have hloaded : row ∈ keep documents filterDocumentIds (Dict.build rowId
      (storedRows table ++ (sectionFiles digest saved).flatMap fetch)) := by
    refine List.mem_filter.mpr ⟨Dict.mem_build_iff.mpr hlast, ?_⟩
    rw [h.own d (hsaved hd) row hrow]
    simp [List.mem_map_of_mem (hsaved hd)]
  have hids : ((keep documents filterDocumentIds (Dict.build rowId
      (storedRows table ++ (sectionFiles digest saved).flatMap fetch))).map rowId).Nodup :=
    (List.filter_sublist.map rowId).nodup (Dict.nodup_keys_build _)
  rw [buildRegionSections, Option.map_some, loadSections_eq]
  refine mem_buildMissingSections completion hloaded hids fun d' hd' new hnew hid => ?_
  -- what is fetched belongs to other documents
  have hmissing := mem_missingDocuments.mp hd'
  have hfetched := Dict.functional_of_nodup h.fetched
  have heq := hfetched new (List.mem_flatMap.mpr ⟨d', hmissing.1, hnew⟩) row
    (List.mem_flatMap.mpr ⟨d, hsaved hd, hrow⟩) hid
  have hown := h.own d' hmissing.1 new hnew
  rw [heq, h.own d (hsaved hd) row hrow] at hown
  refine hmissing.2.2 (List.mem_append_right _ ?_)
  exact List.mem_map.mpr ⟨d, mem_sectionFiles.mpr hd, hown⟩

theorem noTrace_of_same (reader : Batching) (completion : Completion B)
    (hsame : buildRegionSections fetch reader completion digest documents table filterDocumentIds
        (some saved)
      = buildRegionSections fetch reader completion digest documents table filterDocumentIds none) :
    NoTrace fetch digest documents saved table filterDocumentIds := by
  have hknown : ∀ d ∈ saved, d ∉ wanted documents table filterDocumentIds →
      ∀ row ∈ fetch d, row ∈ storedRows table := by
    intro d hd hunwanted row hrow
    have hmem := mem_buildRegionSections h hsaved hnodup digest reader completion hd hrow
    rw [hsame, buildRegionSections_none] at hmem
    split at hmem
    · exact List.mem_of_mem_filter hmem
    · rcases mem_of_mem_mergeSectionRows hmem with hkept | hnew
      · exact List.mem_of_mem_filter hkept
      · obtain ⟨d', hd', hin⟩ := List.mem_flatMap.mp hnew
        have hwanted := (completion.perm _).mem_iff.mp hd'
        have hown := h.own d' (mem_of_mem_wanted hwanted) row hin
        rw [h.own d (hsaved hd) row hrow] at hown
        have heq := eq_of_documentId h.unique (hsaved hd) (mem_of_mem_wanted hwanted) hown
        exact absurd (heq ▸ hwanted) hunwanted
  refine ⟨hknown, fun hwanted hall => ?_⟩
  have hunsaved := (unsaved_eq_nil_iff h hsaved).mpr hall
  have hsome : (wanted documents table filterDocumentIds).isEmpty = false := by simpa using hwanted
  rw [buildRegionSections_some h hsaved hnodup hknown reader completion, hunsaved,
    List.isEmpty_nil, if_pos rfl, buildRegionSections_none, hsome, if_neg Bool.false_ne_true,
    mergeSectionRows] at hsame
  rw [hsame]
  exact List.pairwise_insertionSort _ _

end

/-- The result with the checkpoint is that without one, in all batches and completion orders. -/
def SameSections (fetch : RegionDocument B → List (SectionRecord X)) (digest : String → String)
    (documents saved : List (RegionDocument B)) (table : Option (SectionTable (SectionData X)))
    (filterDocumentIds : Bool) : Prop :=
  ∀ (reader reader' : Batching) (completion completion' : Completion B),
    buildRegionSections fetch reader completion digest documents table filterDocumentIds
        (some saved)
      = buildRegionSections fetch reader' completion' digest documents table filterDocumentIds none

theorem sameSections_iff (h : DistinctIds fetch documents table filterDocumentIds)
    (hsaved : saved ⊆ documents) (hnodup : saved.Nodup) :
    SameSections fetch digest documents saved table filterDocumentIds
      ↔ NoTrace fetch digest documents saved table filterDocumentIds := by
  constructor
  · intro hsame
    let reader : Batching := ⟨fun rows => [rows], fun rows => by simp⟩
    let completion : Completion B := ⟨id, fun documents => List.Perm.refl documents⟩
    exact noTrace_of_same h hsaved hnodup reader completion
      (hsame reader reader completion completion)
  · intro hclean reader reader' completion completion'
    exact hclean.same h hsaved hnodup reader reader' completion completion'

end

namespace Example

/-- Each document has one section. -/
def fetchLead (d : RegionDocument Unit) : List (SectionRecord Unit) :=
  [⟨.text (d.documentId ++ ":0"), .text d.documentId, ⟨0, ()⟩⟩]

def page (documentId : String) : RegionDocument Unit := ⟨documentId, "wikipedia", ()⟩

/-- A stored table with the section of one document. -/
def storedLead (documentId : String) : Option (SectionTable (SectionData Unit)) :=
  some (.stringKeys [⟨some (documentId ++ ":0"), some documentId, ⟨0, ()⟩⟩])

theorem distinctIds (documentId : String) (h : documentId = "a" ∨ documentId = "b") :
    DistinctIds fetchLead [page "a", page "b"] (storedLead documentId) true := by
  rcases h with rfl | rfl <;>
  exact ⟨by decide +kernel, by decide +kernel, by decide +kernel, by decide +kernel,
    by decide +kernel⟩

/-- The section of `b` is stored, and that of `a` was saved by an interrupted run. -/
theorem saved_before_stored : DistinctIds fetchLead [page "a", page "b"] (storedLead "b") true
    ∧ ¬ SameSections fetchLead id [page "a", page "b"] [page "a"] (storedLead "b") true := by
  refine ⟨distinctIds "b" (Or.inr rfl), fun h => ?_⟩
  let reader : Batching := ⟨fun rows => [rows], fun rows => by simp⟩
  let completion : Completion Unit := ⟨id, fun documents => List.Perm.refl documents⟩
  have hrows := h reader reader completion completion
  revert hrows
  decide +kernel

theorem sameSections_stored_before :
    SameSections fetchLead id [page "a", page "b"] [page "b"] (storedLead "a") true :=
  (sameSections_iff (distinctIds "a" (Or.inl rfl)) (by simp) (by simp)).mpr
    ⟨by decide +kernel, by decide +kernel⟩

end Example

end V2.Direct.History
