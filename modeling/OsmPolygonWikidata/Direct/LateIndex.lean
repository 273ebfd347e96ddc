import OsmPolygonWikidata.Direct.Passes

/-! # A merge that begins before the index is complete

The documents of a merged region, the polygons and the pairs that its links join do not depend on
how far the index had got. Two things do. A V1 link keeps the tag as a source once the speculative
pass has given it one, even if the completed index gives the reference another document. And a
document that only the completed index has gets no sections, since they are built before.
-/

namespace OsmPolygonWikidata.Direct

open V1Index Python

/-- The same rows in each table. -/
structure SameRegion {B K P : Type} (a b : MergedRegion B K P) : Prop where
  polygons : ∀ row, row ∈ a.polygons ↔ row ∈ b.polygons
  documents : ∀ row, row ∈ a.documents ↔ row ∈ b.documents
  links : ∀ row, row ∈ a.links ↔ row ∈ b.links
  sections : ∀ row, row ∈ a.sections ↔ row ∈ b.sections

/-! ## Sections of a set of documents -/

section

variable {B K : Type} {rt : SectionRuntime B K}

/-- The digest tells sections apart. -/
def DistinctSections (rt : SectionRuntime B K) : Prop :=
  ∀ documentId index heading documentId' index' heading',
    rt.stableId documentId index heading = rt.stableId documentId' index' heading' →
    documentId = documentId' ∧ index = index' ∧ heading = heading'

/-- The section table of V1: the identifiers are those of the sections, each once. -/
structure StoredSections (rt : SectionRuntime B K) (stored : List (SectionRow K)) : Prop where
  sectionId : ∀ row ∈ stored, row.sectionId = rt.stableId row.documentId row.sectionIndex row.heading
  nodup : (stored.map SectionRow.sectionId).Nodup

variable (rt) in
theorem buildSections_spec (d : Document B) (parsed : List ParsedSection) (index : Nat)
    (stack : List (SectionRow K)) :
    (∀ row ∈ buildSections rt d index parsed stack, row.documentId = d.documentId
      ∧ row.sectionId = rt.stableId d.documentId row.sectionIndex row.heading
      ∧ index ≤ row.sectionIndex)
    ∧ (buildSections rt d index parsed stack).Pairwise
      (fun a b => a.sectionIndex < b.sectionIndex) := by
  induction parsed generalizing index stack with
  | nil => simp [buildSections]
  | cons first rest ih =>
    rw [buildSections]
    split
    · obtain ⟨hrows, hpairwise⟩ := ih (index + 1) stack
      refine ⟨fun row hrow => ?_, hpairwise⟩
      obtain ⟨hdocument, hid, hindex⟩ := hrows row hrow
      exact ⟨hdocument, hid, by omega⟩
    · dsimp only
      generalize stack.dropWhile (fun row => decide (first.level ≤ row.level)) = outer
      obtain ⟨hrows, hpairwise⟩ := ih (index + 1) (makeSection rt d index first outer :: outer)
      refine ⟨fun row hrow => ?_, ?_⟩
      · rcases List.mem_cons.mp hrow with rfl | hrow
        · exact ⟨rfl, rfl, le_refl index⟩
        · obtain ⟨hdocument, hid, hindex⟩ := hrows row hrow
          exact ⟨hdocument, hid, by omega⟩
      · refine List.pairwise_cons.mpr ⟨fun row hrow => ?_, hpairwise⟩
        obtain ⟨-, -, hindex⟩ := hrows row hrow
        show index < row.sectionIndex
        omega

theorem fetchOne_documentId {d : Document B} {row : SectionRow K} (h : row ∈ fetchOne rt d) :
    row.documentId = d.documentId := ((buildSections_spec rt d _ 0 []).1 row h).1

theorem fetchOne_eq (hrt : DistinctSections rt) {d : Document B} {row row' : SectionRow K}
    (h : row ∈ fetchOne rt d) (h' : row' ∈ fetchOne rt d) (hid : row.sectionId = row'.sectionId) :
    row = row' := by
  obtain ⟨hrows, hpairwise⟩ := buildSections_spec rt d (rt.parsed d.language d.revisionId) 0 []
  have hindex : row.sectionIndex = row'.sectionIndex := by
    rw [(hrows row h).2.1, (hrows row' h').2.1] at hid
    exact (hrt _ _ _ _ _ _ hid).2.1
  have hnodup : ((fetchOne rt d).map SectionRow.sectionIndex).Nodup :=
    List.pairwise_map.mpr (hpairwise.imp (fun hlt => Nat.ne_of_lt hlt))
  exact List.inj_on_of_nodup_map hnodup h h' hindex

/-- **The sections that are built**: the stored ones, and those of the documents that have none. -/
theorem mem_buildMissingSections (hrt : DistinctSections rt) {stored : List (SectionRow K)}
    (hstored : StoredSections rt stored) {documents : List (Document B)}
    (hdocuments : (documents.map Document.documentId).Nodup)
    (hnonempty : ∀ d ∈ documents, d.documentId ≠ "") {row : SectionRow K} :
    row ∈ buildMissingSections rt documents stored
      ↔ row ∈ stored ∨ ∃ d ∈ documents, d.documentId ∉ stored.map SectionRow.documentId
        ∧ row ∈ fetchOne rt d := by
  have hmissing : ∀ d, d ∈ missingDocuments documents stored
      ↔ d ∈ documents ∧ d.documentId ∉ stored.map SectionRow.documentId := by
    intro d
    unfold missingDocuments
    rw [List.mem_filter, List.mem_insertionSort, decide_eq_true_eq, List.mem_filter]
    constructor
    · rintro ⟨hd, hnot⟩
      exact ⟨hd, fun hmem => hnot ⟨hmem, by simpa using hnonempty d hd⟩⟩
    · rintro ⟨hd, hnot⟩
      exact ⟨hd, fun hmem => hnot hmem.1⟩
  have hbuilt : row ∈ stored ++ (missingDocuments documents stored).flatMap (fetchOne rt)
      ↔ row ∈ stored ∨ ∃ d ∈ documents, d.documentId ∉ stored.map SectionRow.documentId
        ∧ row ∈ fetchOne rt d := by
    rw [List.mem_append, List.mem_flatMap]
    simp only [hmissing, and_assoc]
  -- a stored section and a new one belong to different documents
  have hdifferent : ∀ x ∈ stored, ∀ y ∈ (missingDocuments documents stored).flatMap (fetchOne rt),
      x.sectionId ≠ y.sectionId := by
    intro x hx y hy hid
    obtain ⟨d, hd, hyd⟩ := List.mem_flatMap.mp hy
    have hyid := ((buildSections_spec rt d _ 0 []).1 y hyd).2.1
    rw [hstored.sectionId x hx, hyid] at hid
    refine ((hmissing d).mp hd).2 ?_
    rw [← (hrt _ _ _ _ _ _ hid).1]
    exact List.mem_map_of_mem hx
  have hunique : ∀ x ∈ stored ++ (missingDocuments documents stored).flatMap (fetchOne rt),
      ∀ y ∈ stored ++ (missingDocuments documents stored).flatMap (fetchOne rt),
      x.sectionId = y.sectionId → x = y := by
    intro x hx y hy hid
    rcases List.mem_append.mp hx with hx | hx <;> rcases List.mem_append.mp hy with hy | hy
    · exact List.inj_on_of_nodup_map hstored.nodup hx hy hid
    · exact absurd hid (hdifferent x hx y hy)
    · exact absurd hid.symm (hdifferent y hy x hx)
    · obtain ⟨d, hd, hxd⟩ := List.mem_flatMap.mp hx
      obtain ⟨e, he, hye⟩ := List.mem_flatMap.mp hy
      have hids := hid
      rw [((buildSections_spec rt d _ 0 []).1 x hxd).2.1,
        ((buildSections_spec rt e _ 0 []).1 y hye).2.1] at hids
      have hsame : d = e := List.inj_on_of_nodup_map hdocuments ((hmissing d).mp hd).1
        ((hmissing e).mp he).1 (hrt _ _ _ _ _ _ hids).1
      subst hsame
      exact fetchOne_eq hrt hxd hye hid
  unfold buildMissingSections
  dsimp only
  split
  · rename_i hnone
    rw [← hbuilt, List.isEmpty_iff.mp hnone]
    simp
  · rw [List.mem_insertionSort, Dict.mem_build_iff, ← hbuilt]
    constructor
    · exact Dict.Last.mem
    · exact fun hrow => (Dict.last_iff_mem (fun y hy hid => hunique y hy row hrow hid)).mpr hrow

end

/-! ## The documents of a region -/

section

variable {B P : Type} {casefold : String → String} {fetch : String → String → FetchResult B}

theorem regionDocuments_eq_build (finding : Finding B) (inputs : MergeInputs B P) :
    regionDocuments casefold fetch finding inputs = Dict.build Document.documentId
      (inputs.v1Documents ++ foundDocuments casefold fetch finding inputs) := by
  unfold regionDocuments MergeInputs.baseDocuments Dict.build
  rw [List.foldl_append]

variable (casefold fetch) in
theorem nodup_regionDocuments (finding : Finding B) (inputs : MergeInputs B P) :
    ((regionDocuments casefold fetch finding inputs).map Document.documentId).Nodup := by
  rw [regionDocuments_eq_build]
  exact Dict.nodup_keys_build _

theorem documentId_ne_empty {finding : Finding B} {inputs : MergeInputs B P}
    (hinputs : ∀ d ∈ inputs.v1Documents, d.documentId ≠ "")
    (hfinding : ∀ input ∈ inputs.directInputs, LawfulMatches casefold input.2 (finding input)) :
    ∀ d ∈ regionDocuments casefold fetch finding inputs, d.documentId ≠ "" := by
  intro d hd
  rw [regionDocuments_eq_build] at hd
  rcases List.mem_append.mp (Dict.mem_build_iff.mp hd).mem with hd | hd
  · exact hinputs d hd
  · obtain ⟨input, hinput, hd⟩ := List.mem_flatMap.mp hd
    obtain ⟨ref, href, hrow⟩ := List.mem_filterMap.mp (Dict.mem_build_iff.mp hd).mem
    unfold rowOf at hrow
    split at hrow
    · rename_i first rest hlookup
      cases hrow
      refine ((hfinding input hinput).rows ref href d ?_).1.nonempty
      rw [hlookup]
      exact List.mem_cons_self
    · obtain ⟨-, ref', -, hpage⟩ := mem_pageOf hrow
      obtain ⟨article, -, hid, -⟩ := resultDocument_eq_some hpage
      intro hempty
      have hpre := osm_prefix article
      rw [← hid, hempty] at hpre
      simp at hpre

theorem polygonDocuments_congr {finding finding' : Finding B} {input : PolygonContext × List Ref}
    (h : ∀ ref ∈ input.2, finding input (ref.key casefold) = finding' input (ref.key casefold)) :
    polygonDocuments casefold fetch finding input = polygonDocuments casefold fetch finding' input := by
  unfold polygonDocuments rowsOf
  congr 1
  refine List.filterMap_congr (fun ref href => ?_)
  unfold rowOf
  rw [h ref href]

theorem foundLinks_congr {finding finding' : Finding B} {inputs : MergeInputs B P}
    (h : ∀ input ∈ inputs.directInputs, polygonDocuments casefold fetch finding input
      = polygonDocuments casefold fetch finding' input) :
    foundLinks casefold fetch finding inputs = foundLinks casefold fetch finding' inputs
      ∧ regionDocuments casefold fetch finding inputs
        = regionDocuments casefold fetch finding' inputs := by
  have hdocuments : foundDocuments casefold fetch finding inputs
      = foundDocuments casefold fetch finding' inputs := List.flatMap_congr h
  refine ⟨List.flatMap_congr (fun input hinput => ?_), ?_⟩
  · rw [h input hinput]
  · rw [regionDocuments, regionDocuments, hdocuments]

variable (fetch) in
theorem early_eq_final {fold : Char → List Char} (hfold : CaseFolding fold) (completed : Index B)
    (inputs : MergeInputs B P) :
    ∀ input ∈ inputs.directInputs, polygonDocuments (Python.casefold fold) fetch
          (earlyFinding (Python.casefold fold) (.always completed) inputs) input
        = polygonDocuments (Python.casefold fold) fetch
          (finalFinding (Python.casefold fold) completed) input := by
  intro input hinput
  refine polygonDocuments_congr (fun ref href => ?_)
  have hfinal := lookupTitles_eq_served hfold completed href
  have hearly := provisionalMatches_eq hfold (.always completed) (subset_allRefs hinput href)
  show provisionalMatches (Python.casefold fold) (.always completed) inputs.allRefs _
    = lookupTitles (Python.casefold fold) completed input.2 _
  rw [hfinal]
  rcases hearly with hearly | ⟨hearly, -⟩
  · exact hearly
  · exact hearly

end

/-! ## When the region is the same -/

section

variable {B E K P : Type} {fetch : String → String → FetchResult B} {fold : Char → List Char}

/-- What the speculative pass must have known. -/
structure KnownEarly (casefold : String → String) (fetch : String → String → FetchResult B)
    (rt : SectionRuntime B K) (inputs : MergeInputs B P) (stored : List (SectionRow K))
    (history : IndexHistory B) : Prop where
  /-- A V1 link whose document the early index gives to its polygon is also given by the completed
  index. -/
  links : ∀ row ∈ inputs.baseLinks,
    row.key ∈ foundKeys casefold fetch (earlyFinding casefold history inputs) inputs →
    row.key ∈ foundKeys casefold fetch (finalFinding casefold history.completed) inputs
  /-- A document without stored sections was there early, with the same sections, or has none. -/
  sections : ∀ d ∈ regionDocuments casefold fetch (finalFinding casefold history.completed) inputs,
    d.documentId ∉ stored.map SectionRow.documentId → ∀ row, row ∈ fetchOne rt d
      ↔ ∃ e ∈ regionDocuments casefold fetch (earlyFinding casefold history inputs) inputs,
        e.documentId = d.documentId ∧ row ∈ fetchOne rt e

theorem tagRow_congr {keys keys' : List (String × String × String)} {row : LinkRow}
    (h : row.key ∈ keys ↔ row.key ∈ keys') : tagRow keys row = tagRow keys' row := by
  by_cases hmem : row.key ∈ keys
  · rw [tagRow_of_mem hmem, tagRow_of_mem (h.mp hmem)]
  · rw [tagRow_of_notMem hmem, tagRow_of_notMem (fun h' => hmem (h.mpr h'))]

theorem sources_of_mem_baseLinks {inputs : MergeInputs B P} {row : LinkRow}
    (h : row ∈ inputs.baseLinks) : row.sources = ["wikidata_sitelink"] := by
  obtain ⟨v1, -, rfl⟩ := List.mem_map.mp (Dict.mem_build_iff.mp h).mem
  rfl

variable {casefold : String → String}

theorem taggedLinks_congr {early : List (String × String × String)} {final : Finding B}
    {inputs : MergeInputs B P}
    (h : ∀ row ∈ inputs.baseLinks, row.key ∈ early →
      row.key ∈ foundKeys casefold fetch final inputs) :
    taggedLinks casefold fetch early final inputs
      = regionLinks casefold fetch final final inputs := by
  have hrows : inputs.baseLinks.map (tagRow (early ++ foundKeys casefold fetch final inputs))
      = inputs.baseLinks.map (tagRow (foundKeys casefold fetch final inputs
        ++ foundKeys casefold fetch final inputs)) := by
    refine List.map_congr_left (fun row hrow => tagRow_congr ?_)
    rw [List.mem_append, List.mem_append]
    have himp := h row hrow
    tauto
  unfold regionLinks taggedLinks
  rw [hrows]

variable (casefold fetch) in
theorem regionLinks_iff (early final : Finding B) (inputs : MergeInputs B P) :
    (∀ row, row ∈ regionLinks casefold fetch early final inputs
        ↔ row ∈ regionLinks casefold fetch final final inputs)
      ↔ ∀ row ∈ inputs.baseLinks, row.key ∈ foundKeys casefold fetch early inputs →
        row.key ∈ foundKeys casefold fetch final inputs := by
  constructor
  · intro hsame row hrow hearly
    by_contra hfinal
    let keys := foundKeys casefold fetch early inputs ++ foundKeys casefold fetch final inputs
    have hmem : tagRow keys row ∈ regionLinks casefold fetch early final inputs :=
      List.mem_append_left _ (List.mem_map_of_mem hrow)
    rcases List.mem_append.mp ((hsame _).mp hmem) with hold | hnew
    · obtain ⟨other, hother, heq⟩ := List.mem_map.mp hold
      have hkey : other.key = row.key := by
        have hkeys := congrArg LinkRow.key heq
        rw [tagRow_key, tagRow_key] at hkeys
        exact hkeys
      obtain rfl := List.inj_on_of_nodup_map (nodup_baseLinks inputs) hother hrow hkey
      rw [tagRow_of_notMem (by simpa using hfinal),
        tagRow_of_mem (List.mem_append_left _ hearly)] at heq
      have hsources := congrArg LinkRow.sources heq
      dsimp only at hsources
      rw [sources_of_mem_baseLinks hother] at hsources
      revert hsources
      decide
    · obtain ⟨link, hlink, heq⟩ := List.mem_map.mp hnew
      have hnot := (List.mem_filter.mp hlink).2
      rw [decide_eq_true_eq, heq, tagRow_key] at hnot
      exact hnot (List.mem_map_of_mem hrow)
  · intro hkeys row
    have hlinks : regionLinks casefold fetch early final inputs
        = regionLinks casefold fetch final final inputs := taggedLinks_congr hkeys
    rw [hlinks]

/-- The sections are the same exactly if each document without stored sections has the same ones in
both passes. -/
theorem sections_iff {rt : SectionRuntime B K} (hrt : DistinctSections rt)
    {stored : List (SectionRow K)} (hstored : StoredSections rt stored)
    {early final : List (Document B)} (hearly : (early.map Document.documentId).Nodup)
    (hfinal : (final.map Document.documentId).Nodup) (hearly' : ∀ d ∈ early, d.documentId ≠ "")
    (hfinal' : ∀ d ∈ final, d.documentId ≠ "") :
    (∀ row, row ∈ (buildMissingSections rt early stored).filter
          (fun row => row.documentId ∈ final.map Document.documentId)
        ↔ row ∈ (buildMissingSections rt final stored).filter
          (fun row => row.documentId ∈ final.map Document.documentId))
      ↔ ∀ d ∈ final, d.documentId ∉ stored.map SectionRow.documentId → ∀ row,
        row ∈ fetchOne rt d ↔ ∃ e ∈ early, e.documentId = d.documentId ∧ row ∈ fetchOne rt e := by
  have hbuilt : ∀ {documents : List (Document B)}, (documents.map Document.documentId).Nodup →
      (∀ d ∈ documents, d.documentId ≠ "") → ∀ row : SectionRow K,
      row ∈ (buildMissingSections rt documents stored).filter
          (fun row => row.documentId ∈ final.map Document.documentId)
        ↔ (row ∈ stored ∨ ∃ d ∈ documents, d.documentId ∉ stored.map SectionRow.documentId
          ∧ row ∈ fetchOne rt d) ∧ row.documentId ∈ final.map Document.documentId := by
    intro documents hnodup hnonempty row
    rw [List.mem_filter, mem_buildMissingSections hrt hstored hnodup hnonempty, decide_eq_true_eq]
  constructor
  · intro hsame d hd hnot row
    constructor
    · intro hrow
      have hid := fetchOne_documentId hrow
      have hin : row ∈ (buildMissingSections rt final stored).filter
          (fun row => row.documentId ∈ final.map Document.documentId) := by
        rw [hbuilt hfinal hfinal' row, hid]
        exact ⟨Or.inr ⟨d, hd, hnot, hrow⟩, List.mem_map_of_mem hd⟩
      obtain ⟨hrow' | ⟨e, he, -, hrow'⟩, -⟩ := (hbuilt hearly hearly' row).mp ((hsame row).mpr hin)
      · rw [← hid] at hnot
        exact absurd (List.mem_map_of_mem hrow') hnot
      · exact ⟨e, he, (fetchOne_documentId hrow').symm.trans hid, hrow'⟩
    · rintro ⟨e, he, hsameId, hrow⟩
      have hid := (fetchOne_documentId hrow).trans hsameId
      have hin : row ∈ (buildMissingSections rt early stored).filter
          (fun row => row.documentId ∈ final.map Document.documentId) := by
        rw [hbuilt hearly hearly' row, hid]
        exact ⟨Or.inr ⟨e, he, by rw [hsameId]; exact hnot, hrow⟩, List.mem_map_of_mem hd⟩
      obtain ⟨hrow' | ⟨d', hd', -, hrow'⟩, -⟩ := (hbuilt hfinal hfinal' row).mp ((hsame row).mp hin)
      · rw [← hid] at hnot
        exact absurd (List.mem_map_of_mem hrow') hnot
      · have hsame' : d'.documentId = d.documentId := (fetchOne_documentId hrow').symm.trans hid
        rw [← List.inj_on_of_nodup_map hfinal hd' hd hsame']
        exact hrow'
  · intro hknown row
    rw [hbuilt hearly hearly' row, hbuilt hfinal hfinal' row]
    refine and_congr_left (fun hin => ?_)
    obtain ⟨d, hd, hid⟩ := List.mem_map.mp hin
    constructor
    · rintro (hrow | ⟨e, he, hnot, hrow⟩)
      · exact Or.inl hrow
      · have hsameId : e.documentId = d.documentId := (fetchOne_documentId hrow).symm.trans hid.symm
        rw [hsameId] at hnot
        exact Or.inr ⟨d, hd, hnot, (hknown d hd hnot row).mpr ⟨e, he, hsameId, hrow⟩⟩
    · rintro (hrow | ⟨d', hd', hnot, hrow⟩)
      · exact Or.inl hrow
      · obtain ⟨e, he, hsameId, hrow'⟩ := (hknown d' hd' hnot row).mp hrow
        exact Or.inr ⟨e, he, by rw [hsameId]; exact hnot, hrow'⟩

theorem lawful_passes (hfold : CaseFolding fold) {history : IndexHistory B}
    (hhistory : GrowingHistory (Python.casefold fold) history) (inputs : MergeInputs B P) :
    ∀ input ∈ inputs.directInputs, LawfulMatches (Python.casefold fold) input.2
          (earlyFinding (Python.casefold fold) history inputs input)
        ∧ LawfulMatches (Python.casefold fold) input.2
          (finalFinding (Python.casefold fold) history.completed input) := by
  intro input hinput
  refine ⟨hhistory.provisional_lawful hfold (subset_allRefs hinput), ?_⟩
  exact lawful_of_served hhistory.v1
    (fun ref href => lookupTitles_eq_served hfold history.completed href)

/-- **When a merge does not depend on how far the index had got**: exactly when the speculative pass
knew the documents that need sections, and gave no V1 link the tag that it does not have in the
end. -/
theorem merge_independent_iff (hfold : CaseFolding fold) (hfetch : TitledClient fetch)
    (errorText : E → String) {rt : SectionRuntime B K} (hrt : DistinctSections rt)
    (hasText : B → Bool) {inputs : MergeInputs B P}
    (hinputs : ∀ d ∈ inputs.v1Documents, d.documentId ≠ "") {stored : List (SectionRow K)}
    (hstored : StoredSections rt stored) {history : IndexHistory B}
    (hhistory : GrowingHistory (Python.casefold fold) history) :
    ∃ region region', mergeV2Region (Python.casefold fold) (fun l t => .ok (fetch l t)) errorText
        (fun _ _ => none) rt hasText inputs stored history = .ok region
      ∧ mergeV2Region (Python.casefold fold) (fun l t => .ok (fetch l t)) errorText
        (fun _ _ => none) rt hasText inputs stored (.always history.completed) = .ok region'
      ∧ (SameRegion region region'
        ↔ KnownEarly (Python.casefold fold) fetch rt inputs stored history) := by
  have halways : GrowingHistory (Python.casefold fold) (.always history.completed) :=
    growingHistory_always hhistory.v1
  have hmerge := mergeV2Region_eq hfold hhistory hfetch errorText inputs rt hasText stored
  have hmerge' := mergeV2Region_eq hfold halways hfetch errorText inputs rt hasText stored
  -- with the complete index both passes find the same
  obtain ⟨hlinks', hdocuments'⟩ := foundLinks_congr
    (early_eq_final fetch hfold history.completed inputs)
  have hregion' : regionLinks (Python.casefold fold) fetch
      (earlyFinding (Python.casefold fold) (.always history.completed) inputs)
      (finalFinding (Python.casefold fold) history.completed) inputs
      = regionLinks (Python.casefold fold) fetch
        (finalFinding (Python.casefold fold) history.completed)
        (finalFinding (Python.casefold fold) history.completed) inputs := by
    unfold regionLinks foundKeys
    rw [hlinks']
  have hcompleted : (IndexHistory.always history.completed).completed = history.completed := rfl
  rw [hcompleted, hregion', hdocuments'] at hmerge'
  have hlinks := regionLinks_iff fetch (Python.casefold fold)
    (earlyFinding (Python.casefold fold) history inputs)
    (finalFinding (Python.casefold fold) history.completed) inputs
  have hsections := sections_iff hrt hstored
    (nodup_regionDocuments (Python.casefold fold) fetch
      (earlyFinding (Python.casefold fold) history inputs) inputs)
    (nodup_regionDocuments (Python.casefold fold) fetch
      (finalFinding (Python.casefold fold) history.completed) inputs)
    (documentId_ne_empty hinputs (fun input hinput =>
      (lawful_passes hfold hhistory inputs input hinput).1))
    (documentId_ne_empty hinputs (fun input hinput =>
      (lawful_passes hfold hhistory inputs input hinput).2))
  refine ⟨_, _, hmerge, hmerge', ?_⟩
  constructor
  · intro hsame
    refine ⟨hlinks.mp (fun row => ?_), hsections.mp hsame.sections⟩
    have hrow := hsame.links row
    simp only [writeMergedRegion, List.mem_insertionSort] at hrow
    exact hrow
  · intro hknown
    have hregion : regionLinks (Python.casefold fold) fetch
        (earlyFinding (Python.casefold fold) history inputs)
        (finalFinding (Python.casefold fold) history.completed) inputs
        = regionLinks (Python.casefold fold) fetch
          (finalFinding (Python.casefold fold) history.completed)
          (finalFinding (Python.casefold fold) history.completed) inputs :=
      taggedLinks_congr hknown.links
    rw [hregion]
    exact ⟨fun _ => Iff.rfl, fun _ => Iff.rfl, fun _ => Iff.rfl, hsections.mpr hknown.sections⟩

end

/-! ## A document that comes late -/

namespace LateExample

/-- A digest that tells sections apart. -/
def sectionDigest (documentId : String) (index : Nat) (heading : String) : String :=
  String.ofList (List.replicate documentId.toList.length 'd' ++ '/' :: (List.replicate index 'i'
    ++ '/' :: (documentId.toList ++ heading.toList)))

theorem replicate_append_inj {c sep : Char} (hne : c ≠ sep) {m n : Nat} {s t : List Char}
    (h : List.replicate m c ++ sep :: s = List.replicate n c ++ sep :: t) : m = n ∧ s = t := by
  induction m generalizing n with
  | zero =>
    cases n with
    | zero => exact ⟨rfl, (List.cons.inj h).2⟩
    | succ n => exact absurd (List.cons.inj h).1.symm hne
  | succ m ih =>
    cases n with
    | zero => exact absurd (List.cons.inj h).1 hne
    | succ n =>
      obtain ⟨hmn, hst⟩ := ih (List.cons.inj h).2
      exact ⟨congrArg (· + 1) hmn, hst⟩

/-- Every page has the section `History`. -/
def pageSections : SectionRuntime String Unit where
  casefold := TitleExample.fold
  stableId := sectionDigest
  parsed := fun _ _ => [⟨"History", "History", 2, "Long ago."⟩]
  copied := fun _ => ()

theorem distinctSections : DistinctSections pageSections := by
  intro documentId index heading documentId' index' heading' h
  have hlist := congrArg String.toList h
  simp only [pageSections, sectionDigest, String.toList_ofList] at hlist
  obtain ⟨hlength, hrest⟩ := replicate_append_inj (by decide) hlist
  obtain ⟨hindex, htext⟩ := replicate_append_inj (by decide) hrest
  obtain ⟨hdocument, hheading⟩ := List.append_inj htext hlength
  exact ⟨String.toList_inj.mp hdocument, hindex, String.toList_inj.mp hheading⟩

/-- A client that has the page `Foo`. -/
def fooClient (language title : String) : FetchResult String :=
  if language = "en" ∧ title = "Foo" then ⟨"ok", some ⟨"en", "Foo", 7, 8, "text"⟩, ""⟩
  else ⟨"missing", none, ""⟩

theorem fooClient_eq {language title : String} {article : Article String}
    (h : (fooClient language title).article = some article) :
    language = "en" ∧ title = "Foo" ∧ article = ⟨"en", "Foo", 7, 8, "text"⟩ := by
  unfold fooClient at h
  split at h
  · rename_i hfoo
    exact ⟨hfoo.1, hfoo.2, (Option.some.inj h).symm⟩
  · cases h

theorem titledClient : TitledClient fooClient where
  title := by
    intro language title article h
    obtain ⟨rfl, rfl, rfl⟩ := fooClient_eq h
    exact ⟨rfl, rfl⟩
  oneTitle := by
    intro language title article language' title' article' h h' _
    obtain ⟨rfl, rfl, -⟩ := fooClient_eq h
    obtain ⟨rfl, rfl, -⟩ := fooClient_eq h'
    exact ⟨rfl, rfl⟩

/-- The page as V1 has it. -/
def fooDocument : Document String :=
  ⟨"Q1:wikipedia:en:7:8", some "Q1", "en", "Foo", 7, 8, "ok", "", "text"⟩

def fooIndex : Index String :=
  ⟨fun key => if key = ("en", "foo") then [fooDocument] else [], true, fun _ => true⟩

def noIndex : Index String := ⟨fun _ => [], true, fun _ => false⟩

/-- A polygon with the tag `wikipedia=en:Foo`, in a region that is new. -/
def fooInputs : MergeInputs String Unit where
  polygons := [⟨"way/1", "", ⟨false, 0, [], 0, false, false, false⟩, ()⟩]
  v1Documents := []
  v1Links := []
  directInputs := [(⟨"way/1", "a.osm.pbf", "a", "way", 1⟩, [⟨"en", "Foo", "wikipedia", "en:Foo"⟩])]
  nodup := by decide

/-- The shard with the page is read between the two lookups. -/
def timelyHistory : IndexHistory String := ⟨noIndex, fun _ => noIndex, fooIndex, fooIndex⟩

/-- The shard with the page is read while the merge waits. -/
def lateHistory : IndexHistory String := ⟨noIndex, fun _ => noIndex, noIndex, fooIndex⟩

theorem noIndex_contained : Contained noIndex fooIndex := ⟨fun _ _ h => (nomatch h), rfl⟩

theorem fooIndex_isV1Index : IsV1Index TitleExample.fold fooIndex := by
  intro key d hd
  unfold fooIndex at hd
  dsimp only at hd
  split at hd
  · rename_i hkey
    rw [List.mem_singleton.mp hd, hkey]
    refine ⟨⟨?_, by decide, by decide⟩, by decide⟩
    unfold CollapsedTitle
    decide
  · cases hd

theorem timelyHistory_growing : GrowingHistory TitleExample.fold timelyHistory :=
  ⟨fooIndex_isV1Index, noIndex_contained, .refl fooIndex⟩

theorem lateHistory_growing : GrowingHistory TitleExample.fold lateHistory :=
  ⟨fooIndex_isV1Index, .refl noIndex, noIndex_contained⟩

def fooMerge (history : IndexHistory String) : Except Empty (MergedRegion String Unit Unit) :=
  mergeV2Region TitleExample.fold (fun l t => .ok (fooClient l t)) Empty.elim
    (fun _ _ => none) pageSections (fun _ => true) fooInputs [] history

theorem storedSections_nil : StoredSections pageSections [] := ⟨by simp, List.nodup_nil⟩

/-- The page is indexed before the second lookup: the region is that of a complete index. -/
theorem timely_merge_same : ∃ region region', fooMerge timelyHistory = .ok region
      ∧ fooMerge (.always fooIndex) = .ok region' ∧ SameRegion region region' := by
  have hinputs : ∀ d ∈ fooInputs.v1Documents, d.documentId ≠ "" := by simp [fooInputs]
  obtain ⟨region, region', hregion, hregion', hiff⟩ := merge_independent_iff
    TitleExample.asciiFold_caseFolding titledClient Empty.elim distinctSections (fun _ => true)
    hinputs storedSections_nil timelyHistory_growing
  refine ⟨region, region', hregion, hregion', hiff.mpr ?_⟩
  have hfound : ∀ input ∈ fooInputs.directInputs,
      polygonDocuments TitleExample.fold fooClient
          (earlyFinding TitleExample.fold timelyHistory fooInputs) input
        = polygonDocuments TitleExample.fold fooClient
          (finalFinding TitleExample.fold fooIndex) input := by
    decide +kernel
  obtain ⟨-, hdocuments⟩ := foundLinks_congr hfound
  have hcompleted : timelyHistory.completed = fooIndex := rfl
  refine ⟨by simp [fooInputs, MergeInputs.baseLinks, Dict.build], ?_⟩
  rw [hcompleted, hdocuments]
  intro d hd _ row
  constructor
  · exact fun hrow => ⟨d, hd, rfl, hrow⟩
  · rintro ⟨e, he, hid, hrow⟩
    rw [← List.inj_on_of_nodup_map (nodup_regionDocuments _ _ _ _) he hd hid]
    exact hrow

/-- **A late document has no sections**: the merge that waits writes its document and its link, and
none of its sections. -/
theorem late_merge_differs :
    TitledClient fooClient ∧ GrowingHistory TitleExample.fold lateHistory
      ∧ ∃ region region', fooMerge lateHistory = .ok region
      ∧ fooMerge (.always fooIndex) = .ok region'
      ∧ region.documents = [fooDocument] ∧ region.sections = []
      ∧ region'.documents = [fooDocument] ∧ region'.sections.map SectionRow.documentId
        = ["Q1:wikipedia:en:7:8"]
      ∧ ¬ SameRegion region region' := by
  have hlate : (fooMerge lateHistory).map (fun r => (r.documents, r.sections))
      = .ok ([fooDocument], []) := by decide +kernel
  have hcomplete : (fooMerge (.always fooIndex)).map
      (fun r => (r.documents, r.sections.map SectionRow.documentId))
      = .ok ([fooDocument], ["Q1:wikipedia:en:7:8"]) := by decide +kernel
  obtain ⟨region, hregion, hrows⟩ := map_eq_ok.mp hlate
  obtain ⟨region', hregion', hrows'⟩ := map_eq_ok.mp hcomplete
  obtain ⟨hdocuments, hsections⟩ := Prod.mk.inj hrows
  obtain ⟨hdocuments', hsections'⟩ := Prod.mk.inj hrows'
  refine ⟨titledClient, lateHistory_growing, region, region', hregion, hregion', hdocuments,
    hsections, hdocuments', hsections', ?_⟩
  intro hsame
  -- the section that only the complete index leads to
  have hid : "Q1:wikipedia:en:7:8" ∈ region'.sections.map SectionRow.documentId := by
    rw [hsections']
    exact List.mem_singleton_self _
  obtain ⟨row, hrow, -⟩ := List.mem_map.mp hid
  have hnone := (hsame.sections row).mpr hrow
  rw [hsections] at hnone
  cases hnone

end LateExample

end OsmPolygonWikidata.Direct
