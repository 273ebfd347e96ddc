import OsmPolygonWikidata.Augmentation.SectionParser
import OsmPolygonWikidata.Basic.Outline
import OsmPolygonWikidata.Basic.PyString

/-! # Section rows

`_build_sections` of `augmentation/sections.py`. A section without text, and a section of references,
gets no row. The rows are attached to each other through a stack of rows, and a section without a row
is not seen by it: `buildSections_outline_iff` says when the rows still follow the headings.
-/

namespace OsmPolygonWikidata.SectionOutline

open Python Outline

/-! ## The model -/

/-- `str.casefold`, the digest of SHA-256 in hexadecimal and the JSON of a list of strings. -/
structure Library where
  casefold : String → String
  sha256 : String → String
  dumps : List String → String

/-- The fields of a document that a section repeats. -/
structure Document where
  documentId : String
  articleId : String
  wikidata : String
  project : String
  language : String
  site : String
  pageId : Int
  revisionId : Int
  license : String
  attribution : String

/-- A heading with its anchor, level and text. -/
structure Parsed where
  heading : String
  anchor : String
  level : Nat
  text : String

structure Section where
  sectionId : String
  documentId : String
  articleId : String
  wikidata : String
  project : String
  language : String
  site : String
  pageId : Int
  revisionId : Int
  sectionIndex : Nat
  heading : String
  anchor : String
  level : Nat
  parentSectionId : String
  sectionPath : String
  text : String
  textLengthChars : Nat
  textLengthWords : Nat
  textLengthTokensEstimate : Nat
  contentHash : String
  license : String
  attribution : String

/-- `_EXCLUDED`. -/
def excludedHeadings : List String :=
  ["references", "external links", "bibliography", "notes", "further reading"]

def countWords (text : String) : Nat := (splitWords text.toList []).length

def estimateTokens (text : String) : Nat := if text = "" then 0 else max 1 (text.length / 4)

section

variable (lib : Library) (document : Document)

/-- `stable_id` of a section. -/
def sectionId (index : Nat) (heading : String) : String :=
  lib.sha256 ("\x1f".intercalate [document.documentId, toString index, heading])

def trimSectionStack (stack : List Section) (level : Nat) : List Section :=
  stack.rdropWhile (fun row => level ≤ row.level)

def makeSection (index : Nat) (s : Parsed) (stack : List Section) : Section :=
  let path := (stack.map Section.heading).filter (fun heading => heading ≠ "")
    ++ if s.heading = "" then [] else [s.heading]
  { sectionId := sectionId lib document index s.heading
    documentId := document.documentId
    articleId := document.articleId
    wikidata := document.wikidata
    project := document.project
    language := document.language
    site := document.site
    pageId := document.pageId
    revisionId := document.revisionId
    sectionIndex := index
    heading := s.heading
    anchor := s.anchor
    level := s.level
    parentSectionId := (stack.getLast?.map Section.sectionId).getD ""
    sectionPath := lib.dumps path
    text := s.text
    textLengthChars := s.text.length
    textLengthWords := countWords s.text
    textLengthTokensEstimate := estimateTokens s.text
    contentHash := lib.sha256 s.text
    license := document.license
    attribution := document.attribution }

/-- A section that gets a row. -/
def Emitted (s : Parsed) : Prop := lib.casefold s.heading ∉ excludedHeadings ∧ s.text ≠ ""

instance (s : Parsed) : Decidable (Emitted lib s) := inferInstanceAs (Decidable (_ ∧ _))

/-- One turn of the loop, on the rows and the stack. -/
def buildSection (state : List Section × List Section) (entry : Parsed × Nat) :
    List Section × List Section :=
  if Emitted lib entry.1 then
    let stack := trimSectionStack state.2 entry.1.level
    let row := makeSection lib document entry.2 entry.1 stack
    (state.1 ++ [row], stack ++ [row])
  else state

def buildSections (parsed : List Parsed) : List Section :=
  (parsed.zipIdx.foldl (buildSection lib document) ([], [])).1

/-- `parse_sections`, on the events of the page. -/
def parseSections (clean : String → String) (events : List SectionParser.Event) : List Section :=
  buildSections lib document ((SectionParser.parse clean events).map
    (fun s => ⟨s.heading, s.anchor, s.level, s.text clean⟩))

end

/-! ## The outline -/

section

variable (lib : Library) (document : Document) (parsed : List Parsed)

def levelAt (i : Nat) : Nat := (parsed[i]?.map Parsed.level).getD 0

def headingAt (i : Nat) : String := (parsed[i]?.map Parsed.heading).getD ""

def EmittedAt (i : Nat) : Prop := ∃ s ∈ parsed[i]?, Emitted lib s

instance : DecidablePred (EmittedAt lib parsed) := fun i =>
  match h : parsed[i]? with
  | none => .isFalse (by simp [EmittedAt, h])
  | some s => decidable_of_iff (Emitted lib s) (by simp [EmittedAt, h])

def idAt (i : Nat) : String := sectionId lib document i (headingAt parsed i)

/-- The identifier of the nearest of some sections, empty if there is none. -/
def nearestId (positions : List Nat) : String :=
  (positions.getLast?.map (idAt lib document parsed)).getD ""

/-- The headings of some sections and of the section itself, without empty ones. -/
def pathOf (positions : List Nat) (i : Nat) : List String :=
  ((positions ++ [i]).map (headingAt parsed)).filter (fun heading => heading ≠ "")

/-- The emitted sections among the ancestors of a section in the outline of all headings. -/
def emittedAncestors (i : Nat) : List Nat :=
  (List.range i).filter (fun j => EmittedAt lib parsed j ∧ Ancestor (levelAt parsed) j i)

/-- Every row is attached to its nearest emitted ancestor, and its path leads through all of them. -/
def FollowsOutline (rows : List Section) : Prop :=
  ∀ row ∈ rows, row.parentSectionId
        = nearestId lib document parsed (emittedAncestors lib parsed row.sectionIndex)
      ∧ row.sectionPath
        = lib.dumps (pathOf parsed (emittedAncestors lib parsed row.sectionIndex) row.sectionIndex)

/-- If only sections of greater level are emitted between two emitted sections, the second of them
deeper than the first, then all sections between them have a greater level. -/
def Unmasked : Prop :=
  ∀ j i, EmittedAt lib parsed j → EmittedAt lib parsed i → j < i →
    levelAt parsed j < levelAt parsed i →
    (∀ k < i, j < k → EmittedAt lib parsed k → levelAt parsed j < levelAt parsed k) →
    ∀ k < i, j < k → levelAt parsed j < levelAt parsed k

/-- The identifiers of the rows are distinct, and none is empty. -/
structure DistinctIds : Prop where
  injective : ∀ j k, EmittedAt lib parsed j → EmittedAt lib parsed k →
    idAt lib document parsed j = idAt lib document parsed k → j = k
  nonempty : ∀ j, EmittedAt lib parsed j → idAt lib document parsed j ≠ ""

end

section

variable {lib : Library} {document : Document} {parsed before after : List Parsed} {s : Parsed}
  {state : List Section × List Section} {i j n : Nat}

/-! ## What the loop builds -/

/-- What later sections see of a row on the stack. -/
def Section.entry (row : Section) : String × String × Nat :=
  (row.sectionId, row.heading, row.level)

def entryAt (lib : Library) (document : Document) (parsed : List Parsed) (i : Nat) :
    String × String × Nat :=
  (idAt lib document parsed i, headingAt parsed i, levelAt parsed i)

def Section.place (row : Section) : Nat × String × String :=
  (row.sectionIndex, row.parentSectionId, row.sectionPath)

/-- The ancestors of a section in the outline of the emitted headings. -/
def shownAncestors (lib : Library) (parsed : List Parsed) (i : Nat) : List Nat :=
  (List.range i).filter (fun j => ShownAncestor (levelAt parsed) (EmittedAt lib parsed) j i)

def placeAt (lib : Library) (document : Document) (parsed : List Parsed) (i : Nat) :
    Nat × String × String :=
  (i, nearestId lib document parsed (shownAncestors lib parsed i),
    lib.dumps (pathOf parsed (shownAncestors lib parsed i) i))

/-- After `n` sections the stack has the open emitted sections, and each emitted section has a row
below its emitted ancestors. -/
structure Built (lib : Library) (document : Document) (parsed : List Parsed) (n : Nat)
    (state : List Section × List Section) : Prop where
  rows : state.1.map Section.place
    = ((List.range n).filter (fun i => EmittedAt lib parsed i)).map (placeAt lib document parsed)
  stack : state.2.map Section.entry
    = (openAt (levelAt parsed) (EmittedAt lib parsed) n).map (entryAt lib document parsed)

theorem at_append (hparsed : parsed = before ++ s :: after) : parsed[before.length]? = some s := by
  rw [hparsed, List.getElem?_append_right (Nat.le_refl _), Nat.sub_self]
  rfl

theorem EmittedAt.lt (h : EmittedAt lib parsed i) : i < parsed.length := by
  obtain ⟨s, hs, -⟩ := h
  exact (List.getElem?_eq_some_iff.mp hs).1

theorem emittedAt_iff (hat : parsed[i]? = some s) : EmittedAt lib parsed i ↔ Emitted lib s := by
  simp [EmittedAt, hat]

theorem Built.trim (h : Built lib document parsed n state) (hat : parsed[n]? = some s) :
    (trimSectionStack state.2 s.level).map Section.entry
      = (shownAncestors lib parsed n).map (entryAt lib document parsed) := by
  have hlevel : levelAt parsed n = s.level := by rw [levelAt, hat]; rfl
  have hlevels : state.2.map Section.level
      = (openAt (levelAt parsed) (EmittedAt lib parsed) n).map (levelAt parsed) := by
    have hmap := congrArg (List.map (fun e : String × String × Nat => e.2.2)) h.stack
    rwa [List.map_map, List.map_map] at hmap
  have hsorted : state.2.Pairwise (fun a b => a.level < b.level) := by
    rw [← List.pairwise_map (f := Section.level) (R := (· < ·)), hlevels, List.pairwise_map]
    exact pairwise_openAt n
  calc (trimSectionStack state.2 s.level).map Section.entry
      = (state.2.filter (fun row => row.level < s.level)).map Section.entry := by
        rw [trimSectionStack, rdropWhile_eq_filter s.level hsorted]
    _ = (state.2.map Section.entry).filter (fun e => e.2.2 < s.level) := by
        rw [List.filter_map]
        rfl
    _ = ((openAt (levelAt parsed) (EmittedAt lib parsed) n).filter
          (fun j => levelAt parsed j < levelAt parsed n)).map (entryAt lib document parsed) := by
        rw [h.stack, List.filter_map, hlevel]
        rfl
    _ = (shownAncestors lib parsed n).map (entryAt lib document parsed) := by
        rw [openAt_filter, shownAncestors]

theorem place_makeSection {stack : List Section} (hat : parsed[n]? = some s)
    (hstack : stack.map Section.entry
      = (shownAncestors lib parsed n).map (entryAt lib document parsed)) :
    (makeSection lib document n s stack).place = placeAt lib document parsed n := by
  have hheading : headingAt parsed n = s.heading := by rw [headingAt, hat]; rfl
  have hids : stack.map Section.sectionId
      = (shownAncestors lib parsed n).map (idAt lib document parsed) := by
    have hmap := congrArg (List.map Prod.fst) hstack
    rwa [List.map_map, List.map_map] at hmap
  have hheadings : stack.map Section.heading
      = (shownAncestors lib parsed n).map (headingAt parsed) := by
    have hmap := congrArg (List.map (fun e : String × String × Nat => e.2.1)) hstack
    rwa [List.map_map, List.map_map] at hmap
  have hparent : (stack.getLast?.map Section.sectionId).getD ""
      = nearestId lib document parsed (shownAncestors lib parsed n) := by
    rw [nearestId, ← List.getLast?_map, hids, List.getLast?_map]
  have hpath : (stack.map Section.heading).filter (fun heading => heading ≠ "")
        ++ (if s.heading = "" then [] else [s.heading])
      = pathOf parsed (shownAncestors lib parsed n) n := by
    rw [pathOf, List.map_append, List.filter_append, hheadings, List.map_singleton, hheading]
    congr 1
    by_cases hempty : s.heading = ""
    · rw [if_pos hempty, List.filter_cons_of_neg (by simpa using hempty)]
      rfl
    · rw [if_neg hempty, List.filter_cons_of_pos (by simpa using hempty)]
      rfl
  show (n, (stack.getLast?.map Section.sectionId).getD "", lib.dumps _) = _
  rw [hparent, hpath]
  rfl

theorem Built.next (h : Built lib document parsed n state) (hat : parsed[n]? = some s) :
    Built lib document parsed (n + 1) (buildSection lib document state (s, n)) := by
  by_cases hemitted : Emitted lib s
  · have hshown : EmittedAt lib parsed n := (emittedAt_iff hat).mpr hemitted
    have htrim := h.trim hat
    have hbuild : buildSection lib document state (s, n)
        = (state.1 ++ [makeSection lib document n s (trimSectionStack state.2 s.level)],
          trimSectionStack state.2 s.level
            ++ [makeSection lib document n s (trimSectionStack state.2 s.level)]) :=
      if_pos hemitted
    rw [hbuild]
    constructor
    · rw [List.map_append, h.rows, List.range_succ, List.filter_append,
        List.filter_cons_of_pos (by simpa using hshown), List.map_append, List.map_singleton,
        place_makeSection hat htrim]
      rfl
    · rw [List.map_append, htrim, openAt_succ hshown, openAt_filter, List.map_append,
        List.map_singleton, List.map_singleton]
      have hheading : headingAt parsed n = s.heading := by rw [headingAt, hat]; rfl
      have hlevel : levelAt parsed n = s.level := by rw [levelAt, hat]; rfl
      rw [entryAt, idAt, hheading, hlevel]
      rfl
  · have hnot : ¬ EmittedAt lib parsed n := fun hshown => hemitted ((emittedAt_iff hat).mp hshown)
    have hbuild : buildSection lib document state (s, n) = state := if_neg hemitted
    rw [hbuild]
    constructor
    · rw [h.rows, List.range_succ, List.filter_append,
        List.filter_cons_of_neg (by simpa using hnot), List.filter_nil, List.append_nil]
    · rw [h.stack, openAt_succ_of_not hnot]

theorem built_foldl (hparsed : parsed = before ++ after) : Built lib document parsed before.length
    (before.zipIdx.foldl (buildSection lib document) ([], [])) := by
  induction before using List.reverseRecOn generalizing after with
  | nil => exact ⟨rfl, rfl⟩
  | append_singleton before s ih =>
    rw [List.append_assoc, List.singleton_append] at hparsed
    rw [List.zipIdx_append, List.foldl_append, List.length_append, Nat.zero_add]
    exact (ih hparsed).next (at_append hparsed)

/-- **The rows** are the emitted sections, each below its ancestors in the outline of the emitted
headings. -/
theorem buildSections_places (lib : Library) (document : Document) (parsed : List Parsed) :
    (buildSections lib document parsed).map Section.place
      = ((List.range parsed.length).filter (fun i => EmittedAt lib parsed i)).map
          (placeAt lib document parsed) := by
  have hall : parsed = parsed ++ [] := (List.append_nil parsed).symm
  exact (built_foldl hall).rows

/-! ## Rows that follow the outline -/

theorem followsOutline_iff : FollowsOutline lib document parsed (buildSections lib document parsed)
      ↔ ∀ i, EmittedAt lib parsed i → nearestId lib document parsed (shownAncestors lib parsed i)
            = nearestId lib document parsed (emittedAncestors lib parsed i)
          ∧ lib.dumps (pathOf parsed (shownAncestors lib parsed i) i)
            = lib.dumps (pathOf parsed (emittedAncestors lib parsed i) i) := by
  have hplaces := buildSections_places lib document parsed
  have hmem : ∀ place, place ∈ (buildSections lib document parsed).map Section.place
      ↔ ∃ i, EmittedAt lib parsed i ∧ placeAt lib document parsed i = place := by
    intro place
    rw [hplaces, List.mem_map]
    refine exists_congr (fun i => and_congr_left (fun _ => ?_))
    rw [List.mem_filter, List.mem_range, decide_eq_true_eq]
    exact and_iff_right_of_imp EmittedAt.lt
  constructor
  · intro h i hi
    obtain ⟨row, hrow, hplace⟩ := List.mem_map.mp ((hmem _).mpr ⟨i, hi, rfl⟩)
    have hparts := h row hrow
    simp only [Section.place, placeAt, Prod.mk.injEq] at hplace
    obtain ⟨rfl, hparent, hpath⟩ := hplace
    rwa [hparent, hpath] at hparts
  · intro h row hrow
    obtain ⟨i, hi, hplace⟩ := (hmem _).mp (List.mem_map_of_mem hrow)
    simp only [Section.place, placeAt, Prod.mk.injEq] at hplace
    obtain ⟨rfl, hparent, hpath⟩ := hplace
    rw [← hparent, ← hpath]
    exact h _ hi

theorem Unmasked.shownAncestors_eq (h : Unmasked lib parsed) (hi : EmittedAt lib parsed i) :
    shownAncestors lib parsed i = emittedAncestors lib parsed i := by
  refine List.filter_congr (fun j hj => decide_eq_decide.mpr ?_)
  constructor
  · rintro ⟨hji, hlevel, hshown, hbetween⟩
    exact ⟨hshown, hji, hlevel, h j i hshown hi hji hlevel hbetween⟩
  · rintro ⟨hshown, hancestor⟩
    exact hancestor.shownAncestor hshown

theorem Unmasked.followsOutline (h : Unmasked lib parsed) :
    FollowsOutline lib document parsed (buildSections lib document parsed) := by
  rw [followsOutline_iff]
  intro i hi
  rw [h.shownAncestors_eq hi]
  exact ⟨rfl, rfl⟩

theorem mem_emittedAncestors : j ∈ emittedAncestors lib parsed i
    ↔ EmittedAt lib parsed j ∧ Ancestor (levelAt parsed) j i := by
  unfold emittedAncestors
  rw [List.mem_filter, List.mem_range, decide_eq_true_eq]
  exact and_iff_right_of_imp (fun h => h.2.1)

theorem DistinctIds.getLast_eq (h : DistinctIds lib document parsed) {js ks : List Nat}
    (hjs : ∀ j ∈ js, EmittedAt lib parsed j) (hks : ∀ k ∈ ks, EmittedAt lib parsed k)
    (hsame : nearestId lib document parsed js = nearestId lib document parsed ks) :
    js.getLast? = ks.getLast? := by
  unfold nearestId at hsame
  cases hj : js.getLast? with
  | none =>
    cases hk : ks.getLast? with
    | none => rfl
    | some k =>
      rw [hj, hk] at hsame
      exact absurd hsame.symm (h.nonempty k (hks k (List.mem_of_getLast? hk)))
  | some j =>
    cases hk : ks.getLast? with
    | none =>
      rw [hj, hk] at hsame
      exact absurd hsame (h.nonempty j (hjs j (List.mem_of_getLast? hj)))
    | some k =>
      rw [hj, hk] at hsame
      exact congrArg some (h.injective j k (hjs j (List.mem_of_getLast? hj))
        (hks k (List.mem_of_getLast? hk)) hsame)

/-- **The rows follow the outline** of the headings just when no section without a row hides that an
emitted section is closed. -/
theorem buildSections_outline_iff (lib : Library) (document : Document) (parsed : List Parsed)
    (hids : DistinctIds lib document parsed) :
    FollowsOutline lib document parsed (buildSections lib document parsed)
      ↔ Unmasked lib parsed := by
  refine ⟨fun hfollows => ?_, Unmasked.followsOutline⟩
  rw [followsOutline_iff] at hfollows
  -- the nearest ancestor among the emitted sections is a true one
  have hnearest : ∀ i < parsed.length, EmittedAt lib parsed i → ∀ p,
      ShownAncestor (levelAt parsed) (EmittedAt lib parsed) p i →
      (∀ q, ShownAncestor (levelAt parsed) (EmittedAt lib parsed) q i → q ≤ p) →
      Ancestor (levelAt parsed) p i := by
    intro i _ hi p hp hlast
    have hfound : (shownAncestors lib parsed i).getLast? = some p :=
      getLast?_filter_range.mpr ⟨hp.1, hp, fun q _ hq => hlast q hq⟩
    have hsame := hids.getLast_eq (fun j hj => ?_) (fun k hk => (mem_emittedAncestors.mp hk).1)
      (hfollows i hi).1
    · rw [hfound] at hsame
      exact (mem_emittedAncestors.mp (List.mem_of_getLast? hsame.symm)).2
    · rw [shownAncestors, List.mem_filter, decide_eq_true_eq] at hj
      exact hj.2.2.2.1
  intro j i hj hi hji hlevel hbetween
  exact (ancestor_of_nearest hnearest hi.lt hi ⟨hji, hlevel, hj, hbetween⟩).2.2

end

namespace OutlineExample

/-- Digests are the texts themselves. -/
def library : Library where
  casefold text := String.ofList (text.toList.map Char.toLower)
  sha256 text := text
  dumps path := ",".intercalate path

def document : Document :=
  ⟨"Q1:wikipedia:en:1:1", "Q1:en:1:1", "Q1", "wikipedia", "en", "enwiki", 1, 1, "", ""⟩

/-- The second section has no text. -/
def emptyParent : List Parsed :=
  [⟨"History", "History", 2, "Past."⟩, ⟨"Geography", "Geography", 2, ""⟩,
    ⟨"Climate", "Climate", 3, "Mild."⟩]

/-- The third section is attached to the first one, a sibling of its parent. -/
theorem attached_to_sibling : ¬ FollowsOutline library document emptyParent
    (buildSections library document emptyParent) := by
  unfold FollowsOutline
  decide +kernel

/-- With a text the second section is the parent. -/
def fullParent : List Parsed :=
  [⟨"History", "History", 2, "Past."⟩, ⟨"Geography", "Geography", 2, "Hills."⟩,
    ⟨"Climate", "Climate", 3, "Mild."⟩]

theorem attached_to_parent : FollowsOutline library document fullParent
    (buildSections library document fullParent) := by
  have hids : DistinctIds library document fullParent := by
    constructor
    · intro j k hj hk
      have hall : ∀ j < 3, ∀ k < 3, idAt library document fullParent j
          = idAt library document fullParent k → j = k := by decide +kernel
      exact hall j hj.lt k hk.lt
    · intro j hj
      have hall : ∀ j < 3, idAt library document fullParent j ≠ "" := by decide +kernel
      exact hall j hj.lt
  refine (buildSections_outline_iff library document fullParent hids).mpr ?_
  have hall : ∀ k < 3, EmittedAt library fullParent k := by decide +kernel
  intro j i _ hi _ _ hbetween k hk hjk
  exact hbetween k hk hjk (hall k (hk.trans hi.lt))

end OutlineExample

end OsmPolygonWikidata.SectionOutline
