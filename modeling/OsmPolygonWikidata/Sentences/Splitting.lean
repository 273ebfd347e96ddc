import Mathlib.Tactic
import OsmPolygonWikidata.Sentences.Logic

/-! # Splitting is done section by section

For a segmenter that treats each text by itself, `split_sections` returns the rows of the sections
one after the other, however the texts were grouped into calls (`splitSections_ok_iff`). The rows
of a table are therefore the rows of its batches.
-/

namespace OsmPolygonWikidata.Sentences

/-! ## Slices and sorted sets -/

theorem mem_sortedSet {values : List String} {value : String} :
    value ∈ sortedSet values ↔ value ∈ values := by
  unfold sortedSet
  rw [List.mem_insertionSort, List.mem_dedup]

theorem flatten_slices {A : Type} {size : Nat} (hsize : 1 ≤ size) (values : List A) :
    (slices size values).flatten = values := by
  have htake : ∀ n, ((List.range n).map (fun k => (values.drop (k * size)).take size)).flatten
      = values.take (n * size) := by
    intro n
    induction n with
    | zero => simp
    | succ n ih =>
      rw [List.range_succ, List.map_append, List.flatten_append, ih, Nat.succ_mul, List.take_add]
      simp
  unfold slices
  rw [htake]
  apply List.take_of_length_le
  have hdiv := Nat.div_add_mod (values.length + size - 1) size
  have hmod := Nat.mod_lt (values.length + size - 1) (by omega : size > 0)
  rw [Nat.mul_comm] at hdiv
  omega

/-! ## Segmenters that treat each text by itself -/

/-- The segmenter applies `f` to the language it is called with and to each text. -/
def PerText (segmenter : Segmenter) (f : String → String → List String) : Prop :=
  ∀ language texts, segmenter.split language texts = texts.map (f language)

/-- The language a segmenter is called with for a section. -/
def Segmenter.route (segmenter : Segmenter) (row : SectionRow) : String :=
  if segmenter.supportsMixedLanguages then "mixed" else row.language

variable (sha256 : String → String) (segmenter : Segmenter) (f : String → String → List String)

/-- The rows of a section in a supported language. -/
def supportedRows (row : SectionRow) : Except SentenceError (List SentenceRow) :=
  splitRows sha256 segmenter row (f (segmenter.route row) row.sourceText)

/-- The rows of one section. -/
def sectionRows (row : SectionRow) : Except SentenceError (List SentenceRow) :=
  if isSatSupportedLanguage row.language then
    if row.sourceText = "" then .ok [] else supportedRows sha256 segmenter f row
  else .ok [unsplitRow sha256 row]

/-- The assignments of `_populate_batch`, without the calls. -/
def assignSections : List (Nat × SectionRow) → List (List SentenceRow) →
    Except SentenceError (List (List SentenceRow))
  | [], rowsByPosition => .ok rowsByPosition
  | p :: ps, rowsByPosition => do
    let rows ← supportedRows sha256 segmenter f p.2
    assignSections ps (rowsByPosition.set p.1 rows)

variable {sha256 segmenter f}

theorem assignSections_append (ps qs : List (Nat × SectionRow))
    (rowsByPosition : List (List SentenceRow)) :
    assignSections sha256 segmenter f (ps ++ qs) rowsByPosition
      = assignSections sha256 segmenter f ps rowsByPosition
        >>= assignSections sha256 segmenter f qs := by
  induction ps generalizing rowsByPosition with
  | nil => rfl
  | cons p ps ih =>
    rw [List.cons_append, assignSections, assignSections]
    cases supportedRows sha256 segmenter f p.2 with
    | error e => rfl
    | ok rows => exact ih _

theorem assignSections_flatten (batches : List (List (Nat × SectionRow)))
    (rowsByPosition : List (List SentenceRow)) :
    batches.foldlM (fun rowsByPosition batch =>
        assignSections sha256 segmenter f batch rowsByPosition) rowsByPosition
      = assignSections sha256 segmenter f batches.flatten rowsByPosition := by
  induction batches generalizing rowsByPosition with
  | nil => rfl
  | cons batch batches ih =>
    rw [List.foldlM_cons, List.flatten_cons, assignSections_append]
    cases assignSections sha256 segmenter f batch rowsByPosition with
    | error e => rfl
    | ok rows => exact ih rows

/-! ## The calls do not matter -/

section

variable (hf : PerText segmenter f) {batchSize : Int} (hbatch : 1 ≤ batchSize)

include hf

theorem populateBatch_eq {language : String} {positions : List (Nat × SectionRow)}
    (hroute : ∀ p ∈ positions, segmenter.route p.2 = language)
    (rowsByPosition : List (List SentenceRow)) :
    populateBatch sha256 segmenter language positions rowsByPosition
      = assignSections sha256 segmenter f positions rowsByPosition := by
  unfold populateBatch
  rw [hf, if_pos (by simp), List.map_map]
  induction positions generalizing rowsByPosition with
  | nil => rfl
  | cons p positions ih =>
    have hp : segmenter.route p.2 = language := hroute p List.mem_cons_self
    rw [List.map_cons, List.zip_cons_cons, assignRows, assignSections, supportedRows, hp,
      Function.comp_apply]
    cases splitRows sha256 segmenter p.2 (f language p.2.sourceText) with
    | error e => rfl
    | ok rows => exact ih (fun q hq => hroute q (List.mem_cons_of_mem p hq)) _

include hbatch

theorem populatePositions_eq {language : String} {positions : List (Nat × SectionRow)}
    (hroute : ∀ p ∈ positions, segmenter.route p.2 = language)
    (rowsByPosition : List (List SentenceRow)) :
    populatePositions sha256 segmenter batchSize language positions rowsByPosition
      = assignSections sha256 segmenter f (positions.filter (fun p => p.2.sourceText ≠ ""))
        rowsByPosition := by
  have hflat := flatten_slices (by omega : 1 ≤ batchSize.toNat)
    (positions.filter (fun p => p.2.sourceText ≠ ""))
  have hroute' : ∀ batch ∈ slices batchSize.toNat (positions.filter (fun p => p.2.sourceText ≠ "")),
      ∀ p ∈ batch, segmenter.route p.2 = language := by
    intro batch hbatch p hp
    apply hroute
    have hmem := List.mem_flatten.mpr ⟨batch, hbatch, hp⟩
    rw [hflat] at hmem
    exact List.mem_of_mem_filter hmem
  rw [← hflat, ← assignSections_flatten]
  unfold populatePositions
  generalize slices batchSize.toNat (positions.filter (fun p => p.2.sourceText ≠ "")) = batches
    at hroute'
  induction batches generalizing rowsByPosition with
  | nil => rfl
  | cons batch batches ih =>
    rw [List.foldlM_cons, List.foldlM_cons,
      populateBatch_eq hf (hroute' batch List.mem_cons_self)]
    cases assignSections sha256 segmenter f batch rowsByPosition with
    | error e => rfl
    | ok rows => exact ih rows (fun b hb => hroute' b (List.mem_cons_of_mem batch hb))

variable (sha256) in
theorem populateSupportedRows_eq (c : Classified) :
    ∃ ps, (∀ p, p ∈ ps ↔ p ∈ c.supported ∧ p.2.sourceText ≠ "")
      ∧ populateSupportedRows sha256 segmenter batchSize c
        = assignSections sha256 segmenter f ps c.rowsByPosition := by
  unfold populateSupportedRows
  by_cases hmixed : segmenter.supportsMixedLanguages = true
  · refine ⟨c.supported.filter (fun p => p.2.sourceText ≠ ""), by simp, ?_⟩
    rw [if_pos hmixed]
    apply populatePositions_eq hf hbatch
    intro p _
    simp [Segmenter.route, hmixed]
  · refine ⟨c.languages.flatMap (fun language =>
      (c.positions language).filter (fun p => p.2.sourceText ≠ "")), ?_, ?_⟩
    · intro p
      simp only [List.mem_flatMap, List.mem_filter, Classified.positions, Classified.languages,
        mem_sortedSet, List.mem_map]
      constructor
      · rintro ⟨_, -, ⟨hp, -⟩, htext⟩
        exact ⟨hp, by simpa using htext⟩
      · rintro ⟨hp, htext⟩
        exact ⟨p.2.language, ⟨p, hp, rfl⟩, ⟨hp, by simp⟩, by simpa using htext⟩
    · rw [if_neg hmixed, List.flatMap_def, ← assignSections_flatten]
      generalize c.rowsByPosition = rowsByPosition
      induction c.languages generalizing rowsByPosition with
      | nil => rfl
      | cons language languages ih =>
        have hroute : ∀ p ∈ c.positions language, segmenter.route p.2 = language := by
          intro p hp
          simpa [Segmenter.route, hmixed, Classified.positions] using (List.mem_filter.mp hp).2
        rw [List.foldlM_cons, List.map_cons, List.foldlM_cons,
          populatePositions_eq hf hbatch hroute]
        cases assignSections sha256 segmenter f _ rowsByPosition with
        | error e => rfl
        | ok rows => exact ih rows

end

/-! ## The rows at each position -/

/-- The rows an `Except` holds. -/
def rowsOf (result : Except SentenceError (List SentenceRow)) : List SentenceRow :=
  result.toOption.getD []

theorem assignSections_ok_iff {ps : List (Nat × SectionRow)}
    {rowsByPosition final : List (List SentenceRow)} :
    assignSections sha256 segmenter f ps rowsByPosition = .ok final
      ↔ (∀ p ∈ ps, ∃ rows, supportedRows sha256 segmenter f p.2 = .ok rows)
        ∧ final = ps.foldl (fun acc p => acc.set p.1
          (rowsOf (supportedRows sha256 segmenter f p.2))) rowsByPosition := by
  induction ps generalizing rowsByPosition with
  | nil =>
    simp only [assignSections, Except.ok.injEq, List.foldl_nil]
    exact ⟨fun h => ⟨by simp, h.symm⟩, fun h => h.2.symm⟩
  | cons p ps ih =>
    rw [assignSections]
    cases hp : supportedRows sha256 segmenter f p.2 with
    | error e =>
      constructor
      · intro h
        cases h
      · rintro ⟨hall, -⟩
        obtain ⟨rows, hrows⟩ := hall p List.mem_cons_self
        rw [hp] at hrows
        cases hrows
    | ok rows =>
      rw [List.foldl_cons, hp]
      show assignSections sha256 segmenter f ps (rowsByPosition.set p.1 rows) = _ ↔ _
      rw [ih, List.forall_mem_cons]
      exact ⟨fun h => ⟨⟨⟨rows, hp⟩, h.1⟩, h.2⟩, fun h => ⟨h.1.2, h.2⟩⟩

theorem getElem?_foldl_set (value : SectionRow → List SentenceRow) {ps : List (Nat × SectionRow)}
    {table : Nat → Option SectionRow} (htable : ∀ p ∈ ps, table p.1 = some p.2)
    (acc : List (List SentenceRow)) (i : Nat) :
    (ps.foldl (fun acc p => acc.set p.1 (value p.2)) acc)[i]?
      = if i ∈ ps.map Prod.fst then acc[i]?.bind (fun _ => (table i).map value) else acc[i]? := by
  induction ps generalizing acc with
  | nil => simp
  | cons p ps ih =>
    rw [List.foldl_cons, ih (fun q hq => htable q (List.mem_cons_of_mem p hq))]
    have hp : table p.1 = some p.2 := htable p List.mem_cons_self
    by_cases hi : i = p.1
    · subst hi
      rw [if_pos (by simp : p.1 ∈ (p :: ps).map Prod.fst), hp]
      rcases Nat.lt_or_ge p.1 acc.length with hlt | hge
      · simp [hlt]
      · simp [hge]
    · have hset : (acc.set p.1 (value p.2))[i]? = acc[i]? :=
        List.getElem?_set_ne (fun h => hi h.symm)
      rw [hset]
      simp only [List.map_cons, List.mem_cons, hi, false_or]

theorem classifySections_supported (position : Nat) (rows : List SectionRow)
    (p : Nat × SectionRow) :
    p ∈ (classifySections sha256 position rows).supported
      ↔ position ≤ p.1 ∧ rows[p.1 - position]? = some p.2
        ∧ isSatSupportedLanguage p.2.language = true := by
  induction rows generalizing position with
  | nil => simp [classifySections]
  | cons row rows ih =>
    obtain ⟨i, row'⟩ := p
    have htail : ((i, row') ∈ (classifySections sha256 (position + 1) rows).supported)
        ↔ position < i ∧ (row :: rows)[i - position]? = some row'
          ∧ isSatSupportedLanguage row'.language = true := by
      rw [ih]
      constructor
      · rintro ⟨hle, hget, hs⟩
        refine ⟨hle, ?_, hs⟩
        rw [show i - position = (i - (position + 1)) + 1 by omega, List.getElem?_cons_succ]
        exact hget
      · rintro ⟨hle, hget, hs⟩
        refine ⟨hle, ?_, hs⟩
        rw [show i - position = (i - (position + 1)) + 1 by omega,
          List.getElem?_cons_succ] at hget
        exact hget
    rw [classifySections]
    by_cases hrow : isSatSupportedLanguage row.language = true
    · rw [if_pos hrow]
      show (i, row') ∈ (position, row) :: _ ↔ _
      rw [List.mem_cons, htail]
      constructor
      · rintro (heq | ⟨hlt, hget⟩)
        · cases heq
          simp [hrow]
        · exact ⟨hlt.le, hget⟩
      · rintro ⟨hle, hget, hs⟩
        rcases Nat.lt_or_ge position i with hlt | hge
        · exact Or.inr ⟨hlt, hget, hs⟩
        · obtain rfl : i = position := by omega
          rw [Nat.sub_self, List.getElem?_cons_zero, Option.some.injEq] at hget
          rw [hget]
          exact Or.inl rfl
    · rw [if_neg hrow]
      show (i, row') ∈ (classifySections sha256 (position + 1) rows).supported ↔ _
      rw [htail]
      refine ⟨fun h => ⟨h.1.le, h.2⟩, ?_⟩
      rintro ⟨hle, hget, hs⟩
      rcases Nat.lt_or_ge position i with hlt | hge
      · exact ⟨hlt, hget, hs⟩
      · obtain rfl : i = position := by omega
        rw [Nat.sub_self, List.getElem?_cons_zero, Option.some.injEq] at hget
        rw [hget] at hrow
        exact absurd hs hrow

theorem classifySections_rows (position : Nat) (rows : List SectionRow) :
    (classifySections sha256 position rows).rowsByPosition
      = rows.map (fun row => if isSatSupportedLanguage row.language then []
        else [unsplitRow sha256 row]) := by
  induction rows generalizing position with
  | nil => rfl
  | cons row rows ih =>
    rw [classifySections, List.map_cons, ← ih (position + 1)]
    split <;> rfl

/-! ## The whole table -/

/-- The summary of a table that has `sentences` rows. -/
def summaryOf (rows : List SectionRow) (sentences : Nat) : SplitSummary :=
  { sections := rows.length
    splitSections := rows.countP (fun row => isSatSupportedLanguage row.language)
    unsplitSections := rows.countP (fun row => !isSatSupportedLanguage row.language)
    sentenceRows := sentences
    supportedLanguages := sortedSet ((rows.filter (fun row =>
      isSatSupportedLanguage row.language)).map SectionRow.language)
    unsupportedLanguages := sortedSet ((rows.filter (fun row =>
      !isSatSupportedLanguage row.language)).map SectionRow.language) }

variable (sha256) in
theorem classifySections_languages (position : Nat) (rows : List SectionRow) :
    (classifySections sha256 position rows).supported.map (fun p => p.2.language)
      = (rows.filter (fun row => isSatSupportedLanguage row.language)).map SectionRow.language := by
  induction rows generalizing position with
  | nil => rfl
  | cons row rows ih =>
    rw [classifySections, List.filter_cons]
    split
    · exact congrArg (row.language :: ·) (ih (position + 1))
    · exact ih (position + 1)

variable (sha256) in
theorem classifySections_unsupported (position : Nat) (rows : List SectionRow) :
    (classifySections sha256 position rows).unsupportedLanguages
        = (rows.filter (fun row => !isSatSupportedLanguage row.language)).map SectionRow.language
      ∧ (classifySections sha256 position rows).unsupportedCount
        = rows.countP (fun row => !isSatSupportedLanguage row.language) := by
  induction rows generalizing position with
  | nil => exact ⟨rfl, rfl⟩
  | cons row rows ih =>
    obtain ⟨hlang, hcount⟩ := ih (position + 1)
    rw [classifySections, List.filter_cons, List.countP_cons]
    cases hrow : isSatSupportedLanguage row.language with
    | true => exact ⟨hlang, hcount⟩
    | false => exact ⟨congrArg (row.language :: ·) hlang, congrArg (· + 1) hcount⟩

theorem sum_positions (c : Classified) :
    (c.languages.map (fun language => (c.positions language).length)).sum = c.supported.length := by
  have hcount : ∀ language, (c.positions language).length
      = (c.supported.map (fun p => p.2.language)).count language := by
    intro language
    rw [Classified.positions, ← List.countP_eq_length_filter, List.count, List.countP_map]
    apply List.countP_congr
    intro p _
    simp
  have hperm : c.languages.Perm (c.supported.map (fun p => p.2.language)).dedup :=
    List.perm_insertionSort _ _
  simp only [hcount]
  rw [(hperm.map _).sum_eq, List.sum_map_count_dedup_eq_length, List.length_map]

variable (sha256) in
theorem summaryOf_classified (rows : List SectionRow) (n : Nat) : summaryOf rows n
      = { sections := rows.length
          splitSections := ((classifySections sha256 0 rows).languages.map (fun language =>
            ((classifySections sha256 0 rows).positions language).length)).sum
          unsplitSections := (classifySections sha256 0 rows).unsupportedCount
          sentenceRows := n
          supportedLanguages := (classifySections sha256 0 rows).languages
          unsupportedLanguages :=
            sortedSet (classifySections sha256 0 rows).unsupportedLanguages } := by
  have hlang := classifySections_languages sha256 0 rows
  obtain ⟨hun, hcount⟩ := classifySections_unsupported sha256 0 rows
  rw [sum_positions, hun, hcount, Classified.languages, hlang]
  have hlen := congrArg List.length hlang
  rw [List.length_map, List.length_map, ← List.countP_eq_length_filter] at hlen
  rw [hlen]
  rfl

theorem forall₂_sectionRows_iff {rows : List SectionRow} {pieces : List (List SentenceRow)} :
    List.Forall₂ (fun row piece => sectionRows sha256 segmenter f row = .ok piece) rows pieces
      ↔ (∀ row ∈ rows, ∃ piece, sectionRows sha256 segmenter f row = .ok piece)
        ∧ pieces = rows.map (fun row => rowsOf (sectionRows sha256 segmenter f row)) := by
  induction rows generalizing pieces with
  | nil =>
    rw [List.forall₂_nil_left_iff]
    simp
  | cons row rows ih =>
    rw [List.forall₂_cons_left_iff, List.forall_mem_cons, List.map_cons]
    constructor
    · rintro ⟨piece, rest, hrow, hrest, rfl⟩
      obtain ⟨hall, rfl⟩ := ih.mp hrest
      refine ⟨⟨⟨piece, hrow⟩, hall⟩, ?_⟩
      rw [hrow]
      rfl
    · rintro ⟨⟨⟨piece, hrow⟩, hall⟩, rfl⟩
      refine ⟨piece, _, hrow, ih.mpr ⟨hall, rfl⟩, ?_⟩
      rw [hrow]
      rfl

section

variable {rows : List SectionRow} {ps : List (Nat × SectionRow)}
  (hps : ∀ p, p ∈ ps ↔ p ∈ (classifySections sha256 0 rows).supported ∧ p.2.sourceText ≠ "")

include hps

theorem mem_populated (p : Nat × SectionRow) :
    p ∈ ps ↔ rows[p.1]? = some p.2 ∧ isSatSupportedLanguage p.2.language = true
      ∧ p.2.sourceText ≠ "" := by
  rw [hps, classifySections_supported]
  simp [and_assoc]

theorem populated_ok_iff : (∀ p ∈ ps, ∃ piece, supportedRows sha256 segmenter f p.2 = .ok piece)
      ↔ ∀ row ∈ rows, ∃ piece, sectionRows sha256 segmenter f row = .ok piece := by
  constructor
  · intro h row hrow
    unfold sectionRows
    split
    · rename_i hsupported
      split
      · exact ⟨[], rfl⟩
      · rename_i htext
        obtain ⟨i, hi⟩ := List.mem_iff_getElem?.mp hrow
        exact h (i, row) ((mem_populated hps (i, row)).mpr ⟨hi, hsupported, htext⟩)
    · exact ⟨_, rfl⟩
  · intro h p hp
    obtain ⟨hget, hsupported, htext⟩ := (mem_populated hps p).mp hp
    have hrow := h p.2 (List.mem_of_getElem? hget)
    rwa [sectionRows, if_pos hsupported, if_neg htext] at hrow

theorem populated_rows :
    ps.foldl (fun acc p => acc.set p.1 (rowsOf (supportedRows sha256 segmenter f p.2)))
        (classifySections sha256 0 rows).rowsByPosition
      = rows.map (fun row => rowsOf (sectionRows sha256 segmenter f row)) := by
  apply List.ext_getElem?
  intro i
  have htable : ∀ p ∈ ps, rows[p.1]? = some p.2 := fun p hp => ((mem_populated hps p).mp hp).1
  rw [getElem?_foldl_set (fun row => rowsOf (supportedRows sha256 segmenter f row)) htable,
    classifySections_rows, List.getElem?_map, List.getElem?_map]
  cases hrow : rows[i]? with
  | none => simp
  | some row =>
    have hmem : i ∈ ps.map Prod.fst
        ↔ isSatSupportedLanguage row.language = true ∧ row.sourceText ≠ "" := by
      rw [List.mem_map]
      constructor
      · rintro ⟨p, hp, rfl⟩
        obtain ⟨hget, h⟩ := (mem_populated hps p).mp hp
        rw [hrow, Option.some.injEq] at hget
        rw [hget]
        exact h
      · intro h
        exact ⟨(i, row), (mem_populated hps (i, row)).mpr ⟨hrow, h⟩, rfl⟩
    simp only [hmem, sectionRows, Option.map_some, Option.bind_some]
    by_cases hsupported : isSatSupportedLanguage row.language = true
    · by_cases htext : row.sourceText = ""
      · simp [hsupported, htext, rowsOf, Except.toOption]
      · simp [hsupported, htext]
    · simp [hsupported, rowsOf, Except.toOption]

end

/-- **The rows of a table**: section by section. -/
theorem splitSections_ok_iff (hf : PerText segmenter f) {batchSize : Int} (hbatch : 1 ≤ batchSize)
    {rows : List SectionRow} {sentences : List SentenceRow} {summary : SplitSummary} :
    splitSections sha256 segmenter batchSize rows = .ok (sentences, summary)
      ↔ (∃ pieces, List.Forall₂ (fun row piece =>
          sectionRows sha256 segmenter f row = .ok piece) rows pieces
            ∧ sentences = pieces.flatten)
        ∧ summary = summaryOf rows sentences.length := by
  obtain ⟨ps, hps, hpop⟩ := populateSupportedRows_eq sha256 hf hbatch
    (classifySections sha256 0 rows)
  have hcases : splitSections sha256 segmenter batchSize rows
      = (assignSections sha256 segmenter f ps (classifySections sha256 0 rows).rowsByPosition).map
        (fun rowsByPosition => (rowsByPosition.flatten,
          summaryOf rows rowsByPosition.flatten.length)) := by
    simp only [splitSections, summaryOf_classified sha256 rows, hpop, show ¬ batchSize < 1 by omega, if_false]
    cases assignSections sha256 segmenter f ps
      (classifySections sha256 0 rows).rowsByPosition <;> rfl
  rw [hcases]
  constructor
  · intro h
    cases hfinal : assignSections sha256 segmenter f ps
        (classifySections sha256 0 rows).rowsByPosition with
    | error e =>
      rw [hfinal] at h
      cases h
    | ok final =>
      rw [hfinal] at h
      cases h
      obtain ⟨hall, rfl⟩ := assignSections_ok_iff.mp hfinal
      refine ⟨⟨_, forall₂_sectionRows_iff.mpr ⟨(populated_ok_iff hps).mp hall, rfl⟩, ?_⟩, rfl⟩
      rw [populated_rows hps]
  · rintro ⟨⟨pieces, hpieces, rfl⟩, rfl⟩
    obtain ⟨hall, rfl⟩ := forall₂_sectionRows_iff.mp hpieces
    have hfinal := assignSections_ok_iff.mpr
      ⟨(populated_ok_iff (f := f) hps).mpr hall, (populated_rows hps).symm⟩
    rw [hfinal]
    rfl

/-! ## Batches -/

theorem sectionRows_flatten_iff {batches : List (List SectionRow)}
    {pieces : List (List SentenceRow)} :
    List.Forall₂ (fun row piece => sectionRows sha256 segmenter f row = .ok piece)
        batches.flatten pieces
      ↔ ∃ parts, List.Forall₂ (List.Forall₂ (fun row piece =>
          sectionRows sha256 segmenter f row = .ok piece)) batches parts
        ∧ pieces = parts.flatten := by
  induction batches generalizing pieces with
  | nil =>
    simp only [List.flatten_nil, List.forall₂_nil_left_iff]
    exact ⟨fun h => ⟨[], rfl, h⟩, by rintro ⟨_, rfl, h⟩; exact h⟩
  | cons batch batches ih =>
    rw [List.flatten_cons]
    constructor
    · intro h
      have hfirst := List.forall₂_take batch.length h
      have hrest := List.forall₂_drop batch.length h
      rw [List.take_left] at hfirst
      rw [List.drop_left] at hrest
      obtain ⟨parts, hparts, heq⟩ := ih.mp hrest
      refine ⟨pieces.take batch.length :: parts, .cons hfirst hparts, ?_⟩
      rw [List.flatten_cons, ← heq, List.take_append_drop]
    · rintro ⟨parts, hparts, rfl⟩
      cases hparts with
      | cons hfirst hrest =>
        rw [List.flatten_cons]
        exact List.rel_append hfirst (ih.mpr ⟨_, hrest, rfl⟩)

/-- **Batches are transparent**: a table can be split if and only if all its batches can, and then
its rows are theirs. -/
theorem splitSections_flatten_iff (hf : PerText segmenter f) {batchSize : Int}
    (hbatch : 1 ≤ batchSize) {batches : List (List SectionRow)} {sentences : List SentenceRow}
    {summary : SplitSummary} :
    splitSections sha256 segmenter batchSize batches.flatten = .ok (sentences, summary)
      ↔ (∃ tables, List.Forall₂ (fun batch table =>
          ∃ s, splitSections sha256 segmenter batchSize batch = .ok (table, s)) batches tables
            ∧ sentences = tables.flatten)
        ∧ summary = summaryOf batches.flatten sentences.length := by
  have hbatchok : ∀ batch table,
      (∃ s, splitSections sha256 segmenter batchSize batch = .ok (table, s))
        ↔ ∃ pieces, List.Forall₂ (fun row piece =>
          sectionRows sha256 segmenter f row = .ok piece) batch pieces
            ∧ table = pieces.flatten := by
    intro batch table
    simp only [splitSections_ok_iff hf hbatch]
    exact ⟨fun ⟨_, h, _⟩ => h, fun h => ⟨_, h, rfl⟩⟩
  rw [splitSections_ok_iff hf hbatch]
  apply and_congr_left'
  simp only [hbatchok]
  constructor
  · rintro ⟨pieces, hpieces, rfl⟩
    obtain ⟨parts, hparts, rfl⟩ := sectionRows_flatten_iff.mp hpieces
    refine ⟨parts.map List.flatten, ?_, ?_⟩
    · rw [List.forall₂_map_right_iff]
      exact hparts.imp (fun batch part h => ⟨part, h, rfl⟩)
    · rw [List.flatten_flatten]
  · rintro ⟨tables, htables, rfl⟩
    have hparts : ∃ parts, List.Forall₂ (List.Forall₂ (fun row piece =>
        sectionRows sha256 segmenter f row = .ok piece)) batches parts
        ∧ tables = parts.map List.flatten := by
      induction htables with
      | nil => exact ⟨[], .nil, rfl⟩
      | cons h _ ih =>
        obtain ⟨part, hpart, rfl⟩ := h
        obtain ⟨parts, hparts, rfl⟩ := ih
        exact ⟨part :: parts, .cons hpart hparts, rfl⟩
    obtain ⟨parts, hparts, rfl⟩ := hparts
    refine ⟨parts.flatten, sectionRows_flatten_iff.mpr ⟨parts, hparts, rfl⟩, ?_⟩
    rw [List.flatten_flatten]

end OsmPolygonWikidata.Sentences
