import Mathlib
import OsmPolygonWikidata.Direct.Entries
import OsmPolygonWikidata.Direct.TitleLookup

/-! # Merging a region

`merge_v2_region` of `v2/reuse.py`, with `v2/reuse_reconcile.py`, `v2/reuse_direct.py`,
`v2/sections.py` and the end of `augmentation/sections.py`. The Wikipedia references of all polygons
are looked up once, the missing pages are fetched, and the references that were missing are looked
up a second time. What this *speculative* pass finds is put beside the rows of V1, and sections are
built for all documents. Then the merge waits for the index and puts the final results beside the
rows of V1 once more.

Both passes begin with a copy of the dictionary of V1 links, not of its rows. So the sources that
the first pass adds to a V1 link are still there in the second one (`sharedRows`).

`Direct/Passes.lean` gives the two passes in closed form.
-/

namespace OsmPolygonWikidata.Direct

open V1Index Python

local instance lawfulBEq_titleKey : LawfulBEq (String × String) := inferInstance

/-! ## Links -/

/-- A row of the link table. -/
structure LinkRow where
  project : String
  link : Link
  sources : List String

/-- `link_key`. -/
def LinkRow.key (row : LinkRow) : String × String × String :=
  (row.link.polygonId, row.project, row.link.documentId)

/-- `_normalize_link`: the sources of a V1 link. -/
def normalizeLink (project : String) (link : Link) : LinkRow :=
  ⟨project, link, ["wikidata_sitelink"]⟩

/-- The row of a link that comes from a tag. -/
def tagLink (link : Link) : LinkRow := ⟨"wikipedia", link, ["osm_wikipedia_tag"]⟩

/-- `sorted(sources | more)`. -/
def mergeSources (sources more : List String) : List String :=
  (sources ++ more).dedup.insertionSort (· ≤ ·)

/-- The step of `add_direct_result` for one link. -/
def addLink (links : List LinkRow) (link : Link) : List LinkRow :=
  if (tagLink link).key ∈ links.map LinkRow.key then
    links.map (fun row => if row.key = (tagLink link).key
      then { row with sources := mergeSources row.sources (tagLink link).sources } else row)
  else links ++ [tagLink link]

def addDirectResult {B E : Type} (state : List (Document B) × List LinkRow)
    (direct : EnrichmentResult B E) : List (Document B) × List LinkRow :=
  (direct.documents.foldl (fun documents d => Dict.put Document.documentId d documents) state.1,
    direct.links.foldl addLink state.2)

/-- The rows of a dictionary, after another dictionary that has the same rows was changed. -/
def sharedRows (base links : List LinkRow) : List LinkRow :=
  base.map (fun row => (links.find? (fun other => other.key = row.key)).getD row)

/-! ## Inputs -/

/-- The columns of a polygon that `update_polygon_text_fields` sets. -/
structure TextFields where
  hasWikipedia : Bool
  wikipediaLanguageCount : Nat
  wikipediaLanguages : List String
  wikipediaArticleCount : Nat
  hasEnglishWikipedia : Bool
  hasFrenchWikipedia : Bool
  textAvailable : Bool

/-- A row of the polygon table. -/
structure PolygonRow (P : Type) where
  polygonId : String
  bestLanguage : String
  text : TextFields
  columns : P

/-- `MergeInputs`. The identifiers of the polygons are the keys of a dictionary. -/
structure MergeInputs (B P : Type) where
  polygons : List (PolygonRow P)
  v1Documents : List (Document B)
  v1Links : List (String × Link)
  directInputs : List (PolygonContext × List Ref)
  nodup : (directInputs.map (fun input => input.1.polygonId)).Nodup

/-- The index at the times when a merge asks it: at the first lookup, while the pages of a polygon
are fetched, at the second lookup, and when it is complete. -/
structure IndexHistory (B : Type) where
  first : Index B
  during : String → Index B
  second : Index B
  completed : Index B

/-- The index is complete from the start. -/
def IndexHistory.always {B : Type} (completed : Index B) : IndexHistory B :=
  ⟨completed, fun _ => completed, completed, completed⟩

section

variable {B P : Type}

def MergeInputs.baseDocuments (inputs : MergeInputs B P) : List (Document B) :=
  Dict.build Document.documentId inputs.v1Documents

def MergeInputs.baseLinks (inputs : MergeInputs B P) : List LinkRow :=
  Dict.build LinkRow.key (inputs.v1Links.map (fun row => normalizeLink row.1 row.2))

def MergeInputs.allRefs (inputs : MergeInputs B P) : List Ref := inputs.directInputs.flatMap Prod.snd

end

/-! ## The speculative pass -/

section

variable {B E P : Type} (casefold : String → String)
variable (client : String → String → Except E (FetchResult B)) (errorText : E → String)
variable (cached : String → List Ref → Option (EnrichmentResult B E))

/-- One polygon of `enrich_direct_inputs`. A polygon with a checkpoint is not fetched. -/
def enrichDirectInput (history : IndexHistory B) (initialMatches : Matches B)
    (input : PolygonContext × List Ref) : Except E (EnrichmentResult B E) :=
  match cached input.1.polygonId input.2 with
  | some result => .ok result
  | none => enrichWikipediaRefs casefold input.1 client errorText input.2
      (history.during input.1.polygonId) history.second ⟨false, some initialMatches, true⟩

def enrichDirectInputs (history : IndexHistory B) (initialMatches : Matches B)
    (directInputs : List (PolygonContext × List Ref)) : Except E (List (EnrichmentResult B E)) :=
  directInputs.mapM (enrichDirectInput casefold client errorText cached history initialMatches)

/-- The keys of the dictionary that `_lookup_titles` returns. -/
def lookupKeys (index : Index B) (refs : List Ref) : List (String × String) :=
  if index.batched then refs.map (fun ref => titleKey casefold ref.language ref.title)
  else refs.map (Ref.key casefold)

def unresolvedRefs (refs : List Ref) (initialMatches : Matches B) : List Ref :=
  refs.filter (fun ref => (initialMatches (ref.key casefold)).isEmpty)

/-- The matches of `speculative_direct_results`: those of the first lookup, updated with those of
the second one. -/
def provisionalMatches (history : IndexHistory B) (refs : List Ref) : Matches B :=
  let initialMatches := lookupTitles casefold history.first refs
  let unresolved := unresolvedRefs casefold refs initialMatches
  fun key => if key ∈ lookupKeys casefold history.second unresolved
    then lookupTitles casefold history.second unresolved key else initialMatches key

/-- `reconcile_wikipedia_refs`, for each polygon. -/
def reconcileAll (index : Index B) (titleMatches : Option (Matches B))
    (inputs : List ((PolygonContext × List Ref) × EnrichmentResult B E)) :
    Except E (List (EnrichmentResult B E)) :=
  inputs.mapM (fun input =>
    reconcileWikipediaRefs casefold input.1.1 input.1.2 input.2 index titleMatches)

def collectSpeculativeDirectResults (inputs : MergeInputs B P) (history : IndexHistory B) :
    Except E ((List (Document B) × List LinkRow) × List (EnrichmentResult B E)) := do
  let initialMatches := lookupTitles casefold history.first inputs.allRefs
  let fetched ← enrichDirectInputs casefold client errorText cached history initialMatches
    inputs.directInputs
  let speculative ← reconcileAll casefold history.second
    (some (provisionalMatches casefold history inputs.allRefs)) (inputs.directInputs.zip fetched)
  return (speculative.foldl addDirectResult (inputs.baseDocuments, inputs.baseLinks), speculative)

/-- `reconcile_merge_if_ready`, for a merge that waits. -/
def reconcileMergeIfReady (inputs : MergeInputs B P) (history : IndexHistory B)
    (found : (List (Document B) × List LinkRow) × List (EnrichmentResult B E)) :
    Except E (List (Document B) × List LinkRow) :=
  if inputs.directInputs.isEmpty then .ok found.1
  else do
    let results ← reconcileAll casefold history.completed none (inputs.directInputs.zip found.2)
    return results.foldl addDirectResult
      (inputs.baseDocuments, sharedRows inputs.baseLinks found.1.2)

end

/-! ## Sections -/

/-- A section as the parser of the page returns it. -/
structure ParsedSection where
  heading : String
  anchor : String
  level : Nat
  text : String

/-- A row of the section table. The columns that it copies from its document without the model
naming them are of type `K`. -/
structure SectionRow (K : Type) where
  sectionId : String
  documentId : String
  wikidata : Option String
  language : String
  pageId : Int
  revisionId : Int
  copied : K
  sectionIndex : Nat
  heading : String
  anchor : String
  level : Nat
  parentSectionId : String
  path : List String
  text : String
  deriving DecidableEq

/-- What the sections of a page come from: the digest that identifies a section, the sections of a
revision as they are parsed from its HTML, and the other columns of a document. -/
structure SectionRuntime (B K : Type) where
  casefold : String → String
  stableId : String → Nat → String → String
  parsed : String → Int → List ParsedSection
  copied : B → K

/-- `_EXCLUDED`. -/
def excludedHeadings : List String :=
  ["references", "external links", "bibliography", "notes", "further reading"]

section

variable {B K : Type} (rt : SectionRuntime B K)

/-- `_make_section`. The innermost section of the stack comes first. -/
def makeSection (document : Document B) (index : Nat) (parsed : ParsedSection)
    (stack : List (SectionRow K)) : SectionRow K :=
  { sectionId := rt.stableId document.documentId index parsed.heading
    documentId := document.documentId
    wikidata := document.wikidata
    language := document.language
    pageId := document.pageId
    revisionId := document.revisionId
    copied := rt.copied document.body
    sectionIndex := index
    heading := parsed.heading
    anchor := parsed.anchor
    level := parsed.level
    parentSectionId := (stack.head?.map SectionRow.sectionId).getD ""
    path := ((stack.reverse.map SectionRow.heading).filter (· ≠ ""))
      ++ (if parsed.heading = "" then [] else [parsed.heading])
    text := parsed.text }

def buildSections (document : Document B) :
    Nat → List ParsedSection → List (SectionRow K) → List (SectionRow K)
  | _, [], _ => []
  | index, parsed :: rest, stack =>
    if rt.casefold parsed.heading ∈ excludedHeadings ∨ parsed.text = "" then
      buildSections document (index + 1) rest stack
    else
      let stack := stack.dropWhile (fun row => parsed.level ≤ row.level)
      let row := makeSection rt document index parsed stack
      row :: buildSections document (index + 1) rest (row :: stack)

def fetchOne (document : Document B) : List (SectionRow K) :=
  buildSections rt document 0 (rt.parsed document.language document.revisionId) []

/-- `_missing_documents`. All documents here are Wikipedia documents. -/
def missingDocuments (documents : List (Document B)) (existing : List (SectionRow K)) :
    List (Document B) :=
  let covered := (existing.map SectionRow.documentId).filter (· ≠ "")
  (documents.insertionSort (fun a b => a.documentId ≤ b.documentId)).filter
    (fun d => d.documentId ∉ covered)

/-- The order of `_merge_section_rows`. -/
def SectionRow.le (a b : SectionRow K) : Bool :=
  if a.documentId ≠ b.documentId then a.documentId ≤ b.documentId
  else if a.sectionIndex ≠ b.sectionIndex then a.sectionIndex ≤ b.sectionIndex
  else a.sectionId ≤ b.sectionId

def buildMissingSections (documents : List (Document B)) (existing : List (SectionRow K)) :
    List (SectionRow K) :=
  let missing := missingDocuments documents existing
  if missing.isEmpty then existing
  else (Dict.build SectionRow.sectionId (existing ++ missing.flatMap (fetchOne rt))).insertionSort
    (fun a b => a.le b)

end

/-! ## Polygons -/

/-- `_update_polygon_text_fields_for_row`. -/
def updatePolygon {B P : Type} (hasText : B → Bool) (links : List LinkRow)
    (documents : List (Document B)) (polygon : PolygonRow P) : PolygonRow P :=
  let rows := links.filter (fun row =>
    row.link.polygonId = polygon.polygonId && row.project = "wikipedia")
  let languages := ((rows.map (fun row => row.link.language)).filter (· ≠ "")).dedup.insertionSort
    (· ≤ ·)
  { polygon with
    text := {
      hasWikipedia := !rows.isEmpty
      wikipediaLanguageCount := languages.length
      wikipediaLanguages := languages
      wikipediaArticleCount := rows.length
      hasEnglishWikipedia := "en" ∈ languages
      hasFrenchWikipedia := "fr" ∈ languages
      textAvailable := rows.any (fun row => documents.any (fun d =>
        d.documentId = row.link.documentId && hasText d.body)) }
    bestLanguage := if polygon.bestLanguage = "" then languages.headD "" else polygon.bestLanguage }

/-! ## The merge -/

/-- The tables of a region. -/
structure MergedRegion (B K P : Type) where
  polygons : List (PolygonRow P)
  documents : List (Document B)
  links : List LinkRow
  sections : List (SectionRow K)

section

variable {B E K P : Type} (casefold : String → String)
variable (client : String → String → Except E (FetchResult B)) (errorText : E → String)
variable (cached : String → List Ref → Option (EnrichmentResult B E))
variable (sectionRuntime : SectionRuntime B K) (hasText : B → Bool)

/-- The rows that are given to `write_v2_region`. -/
def writeMergedRegion (inputs : MergeInputs B P) (documents : List (Document B))
    (links : List LinkRow) (sections : List (SectionRow K)) : MergedRegion B K P where
  polygons := (inputs.polygons.map (updatePolygon hasText links documents)).insertionSort
    (fun a b => a.polygonId ≤ b.polygonId)
  documents := documents.insertionSort (fun a b => a.documentId ≤ b.documentId)
  links := links.insertionSort (fun a b => toLex (a.key.1, toLex (a.key.2.1, a.key.2.2))
    ≤ toLex (b.key.1, toLex (b.key.2.1, b.key.2.2)))
  sections := sections.filter (fun row => row.documentId ∈ documents.map Document.documentId)

/-- `merge_v2_region` with `wait_for_index=True`. `stored` are the rows of the section table after
the sidecars of V1 were copied. -/
def mergeV2Region (inputs : MergeInputs B P) (stored : List (SectionRow K))
    (history : IndexHistory B) : Except E (MergedRegion B K P) := do
  let found ← collectSpeculativeDirectResults casefold client errorText cached inputs history
  let sections := buildMissingSections sectionRuntime found.1.1 stored
  let (documents, links) ← reconcileMergeIfReady casefold inputs history found
  return writeMergedRegion hasText inputs documents links sections

end

/-! ## Looking one reference up -/

variable {B : Type}

/-- The rows an index has for a reference. -/
def served (casefold : String → String) (index : Index B) (ref : Ref) : List (Document B) :=
  if index.batched = true ∧ ¬ ref.Collapsed then []
  else index.rows (titleKey casefold ref.language ref.title)

variable {fold : Char → List Char} (hfold : CaseFolding fold)

include hfold

theorem titleKey_eq_of_directKey_eq {language language' title title' : String}
    (h : directKey (casefold fold) language title = directKey (casefold fold) language' title') :
    titleKey (casefold fold) language title = titleKey (casefold fold) language' title' := by
  have hsplit : ∀ cs : List Char, (joinWords (splitWords cs [])).flatMap fold
      = joinWords (splitWords (cs.flatMap fold) []) := by
    intro cs
    have hwords := splitWords_flatMap hfold cs []
    rw [List.reverse_nil, List.flatMap_nil, List.reverse_nil] at hwords
    rw [flatMap_joinWords hfold, hwords]
  rw [directKey, directKey, Prod.mk.injEq] at h
  obtain ⟨hlanguage, htitle⟩ := h
  have hfolded : (title.toList.map (fun c => if c = '_' then ' ' else c)).flatMap fold
      = (title'.toList.map (fun c => if c = '_' then ' ' else c)).flatMap fold := by
    have hlist := congrArg String.toList htitle
    simpa only [casefold, String.toList_ofList] using hlist
  have hjoined := hsplit (title.toList.map (fun c => if c = '_' then ' ' else c))
  rw [hfolded, ← hsplit] at hjoined
  have hcollapsed : casefold fold (collapseTitle title) = casefold fold (collapseTitle title') := by
    rw [casefold, casefold, collapseTitle, collapseTitle, String.toList_ofList,
      String.toList_ofList]
    exact congrArg String.ofList hjoined
  rw [titleKey, titleKey, hlanguage, hcollapsed]

theorem lookupTitles_eq_served (index : Index B) {refs : List Ref} {ref : Ref} (href : ref ∈ refs) :
    lookupTitles (casefold fold) index refs (ref.key (casefold fold))
      = served (casefold fold) index ref := by
  unfold lookupTitles served
  by_cases hbatched : index.batched = true
  · simp only [hbatched, if_true, true_and]
    by_cases hcollapsed : ref.Collapsed
    · have hkey := hcollapsed.key_eq (casefold fold)
      rw [if_neg (not_not.mpr hcollapsed), if_pos, hkey]
      exact List.mem_map.mpr ⟨ref, href, hkey.symm⟩
    · rw [if_pos hcollapsed, if_neg]
      intro hmem
      obtain ⟨ref', -, hkey⟩ := List.mem_map.mp hmem
      exact hcollapsed (collapsed_of_key_eq hfold hkey.symm)
  · simp only [hbatched, Bool.false_eq_true, if_false, false_and]
    cases hfind : refs.reverse.find? (fun ref' => ref'.key (casefold fold) = ref.key (casefold fold))
      with
    | none =>
      have hnot := List.find?_eq_none.mp hfind ref (List.mem_reverse.mpr href)
      simp at hnot
    | some ref' =>
      have hkey := List.find?_some hfind
      rw [decide_eq_true_eq] at hkey
      exact congrArg index.rows (titleKey_eq_of_directKey_eq hfold hkey)

theorem provisionalMatches_eq (history : IndexHistory B) {refs : List Ref} {ref : Ref}
    (href : ref ∈ refs) :
    provisionalMatches (casefold fold) history refs (ref.key (casefold fold))
        = served (casefold fold) history.second ref
      ∨ (provisionalMatches (casefold fold) history refs (ref.key (casefold fold))
          = served (casefold fold) history.first ref
        ∧ (served (casefold fold) history.first ref = [] →
          served (casefold fold) history.second ref = [])) := by
  have hfirst := lookupTitles_eq_served hfold history.first href
  unfold provisionalMatches
  generalize hunresolved : unresolvedRefs (casefold fold) refs
    (lookupTitles (casefold fold) history.first refs) = unresolved
  by_cases hmem : ref.key (casefold fold) ∈ lookupKeys (casefold fold) history.second unresolved
  · rw [if_pos hmem]
    refine Or.inl ?_
    unfold lookupKeys at hmem
    unfold lookupTitles served
    by_cases hsecond : history.second.batched = true
    · -- only a collapsed title is among the keys of the index
      simp only [hsecond, if_true, true_and] at hmem ⊢
      rw [if_pos hmem]
      obtain ⟨ref', -, hkey⟩ := List.mem_map.mp hmem
      have hcollapsed : ref.Collapsed := collapsed_of_key_eq hfold hkey.symm
      rw [if_neg (not_not.mpr hcollapsed), hcollapsed.key_eq]
    · simp only [hsecond, Bool.false_eq_true, if_false, false_and] at hmem ⊢
      obtain ⟨ref', href', hkey⟩ := List.mem_map.mp hmem
      cases hfind : unresolved.reverse.find?
          (fun ref' => ref'.key (casefold fold) = ref.key (casefold fold)) with
      | none =>
        have hnot := List.find?_eq_none.mp hfind ref' (List.mem_reverse.mpr href')
        rw [decide_eq_true_eq] at hnot
        exact absurd hkey hnot
      | some ref' =>
        have hkey := List.find?_some hfind
        rw [decide_eq_true_eq] at hkey
        exact congrArg history.second.rows (titleKey_eq_of_directKey_eq hfold hkey)
  · rw [if_neg hmem, hfirst]
    refine Or.inr ⟨rfl, fun hnil => ?_⟩
    have hin : ref ∈ unresolved := by
      rw [← hunresolved]
      refine List.mem_filter.mpr ⟨href, ?_⟩
      rw [hfirst, hnil]
      rfl
    unfold lookupKeys at hmem
    unfold served
    by_cases hsecond : history.second.batched = true
    · simp only [hsecond, if_true, true_and] at hmem ⊢
      by_cases hcollapsed : ref.Collapsed
      · exact absurd (List.mem_map.mpr ⟨ref, hin, (hcollapsed.key_eq _).symm⟩) hmem
      · rw [if_pos hcollapsed]
    · simp only [hsecond, Bool.false_eq_true, if_false] at hmem
      exact absurd (List.mem_map_of_mem hin) hmem

end OsmPolygonWikidata.Direct
