import OsmPolygonWikidata.Basic.Loops
import OsmPolygonWikidata.Sentences.Splitting

/-! # Splitting with an arbitrary segmenter

The answers of a segmenter may depend on the calls before. `split_sections` raises if one of the
answers is not a lossless segmentation of its texts, and returns the rows of the sections in order
otherwise: every split section is tiled by its rows. What a segmenter that treats each text by
itself is asked at once does not matter.
-/

namespace OsmPolygonWikidata.Sentences

open Python

/-! ## Segmenters with a state -/

/-- A segmenter in use: how it answers in a state, and its state after a call. -/
structure SegmenterObject (S : Type) where
  answers : S → Segmenter
  next : S → String → List String → S

def textsOf (positions : List (Nat × SectionRow)) : List String :=
  positions.map (fun p => p.2.sourceText)

section

variable {S : Type} (sha256 : String → String) (object : SegmenterObject S) (batchSize : Int)

/-- `_populate_batch`. -/
def callBatch (acc : S × List (List SentenceRow)) (call : String × List (Nat × SectionRow)) :
    Except SentenceError (S × List (List SentenceRow)) := do
  let rowsByPosition ← populateBatch sha256 (object.answers acc.1) call.1 call.2 acc.2
  return (object.next acc.1 call.1 (textsOf call.2), rowsByPosition)

/-- `_populate_positions`. -/
def callPositions (language : String) (positions : List (Nat × SectionRow))
    (acc : S × List (List SentenceRow)) : Except SentenceError (S × List (List SentenceRow)) :=
  (slices batchSize.toNat (positions.filter (fun p => p.2.sourceText ≠ ""))).foldlM
    (fun acc batch => callBatch sha256 object acc (language, batch)) acc

/-- `_populate_supported_rows`. -/
def callSupported (c : Classified) (s : S) :
    Except SentenceError (S × List (List SentenceRow)) :=
  if (object.answers s).supportsMixedLanguages then
    callPositions sha256 object batchSize "mixed" c.supported (s, c.rowsByPosition)
  else
    c.languages.foldlM (fun acc language =>
      callPositions sha256 object batchSize language (c.positions language) acc)
      (s, c.rowsByPosition)

/-- `split_sections`, with a segmenter in a state. -/
def splitSectionsFrom (s : S) (rows : List SectionRow) :
    Except SentenceError (List SentenceRow × SplitSummary) := do
  if batchSize < 1 then throw .batchSizeNotPositive
  let c := classifySections sha256 0 rows
  let final ← callSupported sha256 object batchSize c s
  let sentences := final.2.flatten
  return (sentences,
    { sections := rows.length
      splitSections := (c.languages.map (fun language => (c.positions language).length)).sum
      unsplitSections := c.unsupportedCount
      sentenceRows := sentences.length
      supportedLanguages := c.languages
      unsupportedLanguages := sortedSet c.unsupportedLanguages })

/-! ## Calls -/

/-- The calls in order: their language and the sections whose texts are given. -/
def supportedCalls (c : Classified) (mixed : Bool) : List (String × List (Nat × SectionRow)) :=
  if mixed then
    (slices batchSize.toNat (c.supported.filter (fun p => p.2.sourceText ≠ ""))).map
      (fun batch => ("mixed", batch))
  else
    c.languages.flatMap (fun language =>
      (slices batchSize.toNat ((c.positions language).filter (fun p => p.2.sourceText ≠ ""))).map
        (fun batch => (language, batch)))

/-- The calls with the segmenter as it answers them. -/
def answeredCalls : S → List (String × List (Nat × SectionRow)) →
    List (Segmenter × String × List (Nat × SectionRow))
  | _, [] => []
  | s, call :: calls =>
    (object.answers s, call) :: answeredCalls (object.next s call.1 (textsOf call.2)) calls

/-- The calls that `split_sections` makes, up to the first one with a bad answer. -/
def sectionCalls (s : S) (rows : List SectionRow) :
    List (Segmenter × String × List (Nat × SectionRow)) :=
  answeredCalls object s (supportedCalls batchSize (classifySections sha256 0 rows)
    (object.answers s).supportsMixedLanguages)

end

/-- The answer to a call has the wrong number of results, or a result that does not concatenate to
its text or contains an empty piece. -/
def BadAnswer (segmenter : Segmenter) (call : String × List (Nat × SectionRow)) : Prop :=
  (segmenter.split call.1 (textsOf call.2)).length ≠ call.2.length
    ∨ ∃ result ∈ call.2.zip (segmenter.split call.1 (textsOf call.2)),
      String.join result.2 ≠ result.1.2.sourceText ∨ "" ∈ result.2

/-! ## Sections and their rows -/

/-- The rows tile the section from an offset on: they are its slices, numbered from an index on,
each begins where the one before ends, and the last ends with the text. -/
def Tiles (row : SectionRow) : Nat → Nat → List SentenceRow → Prop
  | _, offset, [] => offset = row.sourceText.length
  | index, offset, r :: rs =>
    r.context = row.context ∧ r.stamp.segmentationStatus = .split
      ∧ r.sentenceIndex = index ∧ r.startChar = offset ∧ r.startChar < r.endChar
      ∧ r.text.toList = (row.sourceText.toList.drop r.startChar).take (r.endChar - r.startChar)
      ∧ Tiles row (index + 1) r.endChar rs

/-- The one row of a section that is not split. -/
structure WholeText (row : SectionRow) (r : SentenceRow) : Prop where
  context : r.context = row.context
  status : r.stamp.segmentationStatus = .unsupportedLanguage
  sentenceIndex : r.sentenceIndex = 0
  startChar : r.startChar = 0
  endChar : r.endChar = row.sourceText.length
  text : r.text = row.sourceText

/-- The rows of a section. -/
structure Segmented (row : SectionRow) (rs : List SentenceRow) : Prop where
  unsupported : isSatSupportedLanguage row.language = false → ∃ r, rs = [r] ∧ WholeText row r
  empty : isSatSupportedLanguage row.language = true → row.sourceText = "" → rs = []
  split : isSatSupportedLanguage row.language = true → row.sourceText ≠ "" → Tiles row 0 0 rs

section

variable {sha256 : String → String} {segmenter : Segmenter} {row : SectionRow}
  {pieces : List String} {rs : List SentenceRow} {stamp : SegmentationStamp} {index offset : Nat}

theorem unsplitRow_wholeText : WholeText row (unsplitRow sha256 row) :=
  ⟨rfl, rfl, rfl, rfl, rfl, rfl⟩

theorem pieceRows_tiles (hstamp : stamp.segmentationStatus = .split)
    (hpieces : row.sourceText.toList.drop offset = pieces.flatMap String.toList)
    (hoffset : offset ≤ row.sourceText.length) (hnonempty : "" ∉ pieces) :
    ∃ rs, pieceRows sha256 row stamp pieces index offset = .ok rs ∧ Tiles row index offset rs := by
  induction pieces generalizing index offset with
  | nil =>
    refine ⟨[], rfl, ?_⟩
    have hlength := congrArg List.length hpieces
    rw [List.length_drop, String.length_toList] at hlength
    show offset = row.sourceText.length
    simp at hlength
    omega
  | cons piece pieces ih =>
    rw [List.flatMap_cons] at hpieces
    rw [List.mem_cons, not_or] at hnonempty
    have hlength := congrArg List.length hpieces
    rw [List.length_drop, List.length_append, String.length_toList, String.length_toList]
      at hlength
    have hpositive : 0 < piece.length := by
      rw [← String.length_toList, List.length_pos_iff]
      intro hnil
      exact hnonempty.1 (String.toList_eq_nil_iff.mp hnil).symm
    have hrest : row.sourceText.toList.drop (offset + piece.length)
        = pieces.flatMap String.toList := by
      rw [← List.drop_drop, hpieces, ← String.length_toList, List.drop_left]
    obtain ⟨rs, hrs, htiles⟩ := @ih (index + 1) _ hrest (by omega) hnonempty.2
    refine ⟨sentenceRow sha256 row index offset (offset + piece.length) piece stamp :: rs, ?_, ?_⟩
    · unfold pieceRows
      rw [if_neg (Ne.symm hnonempty.1), hrs]
      rfl
    · refine ⟨rfl, hstamp, rfl, rfl, ?_, ?_, htiles⟩
      · show offset < offset + piece.length
        omega
      · show piece.toList = (row.sourceText.toList.drop offset).take
          (offset + piece.length - offset)
        rw [hpieces, Nat.add_sub_cancel_left, ← String.length_toList, List.take_left]

theorem pieceRows_nonempty (h : pieceRows sha256 row stamp pieces index offset = .ok rs) :
    "" ∉ pieces := by
  induction pieces generalizing index offset rs with
  | nil => exact List.not_mem_nil
  | cons piece pieces ih =>
    unfold pieceRows at h
    split_ifs at h with hempty
    · obtain ⟨_, h, -⟩ := bind_eq_ok.mp h
      cases h
    · obtain ⟨rest, hrest, -⟩ := bind_eq_ok.mp h
      rw [List.mem_cons, not_or]
      exact ⟨Ne.symm hempty, ih hrest⟩

theorem splitRows_join (hjoin : String.join pieces = row.sourceText) (hnonempty : "" ∉ pieces) :
    ∃ rs, splitRows sha256 segmenter row pieces = .ok rs ∧ Tiles row 0 0 rs := by
  unfold splitRows
  rw [if_pos hjoin]
  exact pieceRows_tiles rfl (by rw [← hjoin, List.drop_zero, String.toList_join]) (Nat.zero_le _)
    hnonempty

theorem splitRows_ok_iff : (∃ rs, splitRows sha256 segmenter row pieces = .ok rs)
      ↔ String.join pieces = row.sourceText ∧ "" ∉ pieces := by
  constructor
  · rintro ⟨rs, h⟩
    unfold splitRows at h
    split_ifs at h with hjoin
    exact ⟨hjoin, pieceRows_nonempty h⟩
  · rintro ⟨hjoin, hnonempty⟩
    obtain ⟨rs, hrs, -⟩ := splitRows_join hjoin hnonempty
    exact ⟨rs, hrs⟩

theorem splitRows_tiles (h : splitRows sha256 segmenter row pieces = .ok rs) : Tiles row 0 0 rs := by
  obtain ⟨hjoin, hnonempty⟩ := splitRows_ok_iff.mp ⟨rs, h⟩
  obtain ⟨rs', hrs, htiles⟩ := splitRows_join hjoin hnonempty
  rw [h] at hrs
  rwa [Except.ok.inj hrs]

end

/-! ## Assigning rows to positions -/

section

variable {sha256 : String → String} {segmenter : Segmenter} {rows : List SectionRow}
  {done positions : List (Nat × SectionRow)} {table table' : List (List SentenceRow)}
  {results : List ((Nat × SectionRow) × List String)}

/-- The position of a section that the segmenter knows. -/
def Supported (rows : List SectionRow) (p : Nat × SectionRow) : Prop :=
  rows[p.1]? = some p.2 ∧ isSatSupportedLanguage p.2.language = true

/-- The rows by position, once the sections `done` have been split. -/
structure Assigned (rows : List SectionRow) (done : List (Nat × SectionRow))
    (table : List (List SentenceRow)) : Prop where
  length : table.length = rows.length
  unsupported : ∀ (i : Nat) (row : SectionRow) (rs : List SentenceRow), rows[i]? = some row →
    table[i]? = some rs → isSatSupportedLanguage row.language = false →
      ∃ r, rs = [r] ∧ WholeText row r
  split : ∀ (i : Nat) (row : SectionRow) (rs : List SentenceRow), rows[i]? = some row →
    table[i]? = some rs → isSatSupportedLanguage row.language = true → (i, row) ∈ done →
      Tiles row 0 0 rs
  waiting : ∀ (i : Nat) (row : SectionRow) (rs : List SentenceRow), rows[i]? = some row →
    table[i]? = some rs → isSatSupportedLanguage row.language = true → (i, row) ∉ done → rs = []

theorem Assigned.start : Assigned rows [] (classifySections sha256 0 rows).rowsByPosition := by
  rw [classifySections_rows]
  refine ⟨List.length_map _, ?_, ?_, ?_⟩
  · intro i row rs hrow hrs hunsupported
    rw [List.getElem?_map, hrow, Option.map_some, hunsupported] at hrs
    cases hrs
    exact ⟨_, rfl, unsplitRow_wholeText⟩
  · intro i row rs _ _ _ hdone
    cases hdone
  · intro i row rs hrow hrs hsupported _
    rw [List.getElem?_map, hrow, Option.map_some, hsupported] at hrs
    cases hrs
    rfl

theorem Assigned.set (h : Assigned rows done table) {p : Nat × SectionRow}
    (hp : Supported rows p) {rs : List SentenceRow} (htiles : Tiles p.2 0 0 rs) :
    Assigned rows (done ++ [p]) (table.set p.1 rs) := by
  have hlt : p.1 < table.length := by
    obtain ⟨hlt, -⟩ := List.getElem?_eq_some_iff.mp hp.1
    rw [h.length]
    exact hlt
  -- what stands at a position afterwards
  have hget : ∀ i rs', (table.set p.1 rs)[i]? = some rs' →
      (i = p.1 ∧ rs' = rs) ∨ (i ≠ p.1 ∧ table[i]? = some rs') := by
    intro i rs' hi
    by_cases heq : i = p.1
    · rw [heq, List.getElem?_set_self hlt] at hi
      exact Or.inl ⟨heq, (Option.some.inj hi).symm⟩
    · rw [List.getElem?_set_ne (Ne.symm heq)] at hi
      exact Or.inr ⟨heq, hi⟩
  have hsame : ∀ row, rows[p.1]? = some row → row = p.2 := by
    intro row hrow
    rw [hp.1] at hrow
    exact (Option.some.inj hrow).symm
  refine ⟨by rw [List.length_set, h.length], ?_, ?_, ?_⟩
  · intro i row rs' hrow hrs hunsupported
    rcases hget i rs' hrs with ⟨rfl, -⟩ | ⟨-, hrs⟩
    · rw [hsame row hrow, hp.2] at hunsupported
      cases hunsupported
    · exact h.unsupported i row rs' hrow hrs hunsupported
  · intro i row rs' hrow hrs hsupported hdone
    rcases hget i rs' hrs with ⟨rfl, rfl⟩ | ⟨hne, hrs⟩
    · rw [hsame row hrow]
      exact htiles
    · refine h.split i row rs' hrow hrs hsupported ?_
      rcases List.mem_append.mp hdone with hdone | hdone
      · exact hdone
      · exact absurd (congrArg Prod.fst (List.mem_singleton.mp hdone)) hne
  · intro i row rs' hrow hrs hsupported hdone
    rw [List.mem_append, not_or, List.mem_singleton] at hdone
    rcases hget i rs' hrs with ⟨rfl, -⟩ | ⟨-, hrs⟩
    · exact absurd (by rw [hsame row hrow]) hdone.2
    · exact h.waiting i row rs' hrow hrs hsupported hdone.1

theorem assignRows_ok_iff : (∃ table', assignRows sha256 segmenter results table = .ok table')
      ↔ ∀ result ∈ results, String.join result.2 = result.1.2.sourceText ∧ "" ∉ result.2 := by
  induction results generalizing table with
  | nil => simp [assignRows]
  | cons result results ih =>
    obtain ⟨⟨position, row⟩, pieces⟩ := result
    rw [List.forall_mem_cons, ← @splitRows_ok_iff sha256 segmenter]
    constructor
    · rintro ⟨table', h⟩
      obtain ⟨rs, hrs, h⟩ := bind_eq_ok.mp h
      exact ⟨⟨rs, hrs⟩, ih.mp ⟨table', h⟩⟩
    · rintro ⟨⟨rs, hrs⟩, hresults⟩
      obtain ⟨table', h⟩ := ih.mpr hresults
      exact ⟨table', bind_eq_ok.mpr ⟨rs, hrs, h⟩⟩

theorem Assigned.assignRows (h : Assigned rows done table)
    (hresults : ∀ result ∈ results, Supported rows result.1)
    (hassign : assignRows sha256 segmenter results table = .ok table') :
    Assigned rows (done ++ results.map Prod.fst) table' := by
  induction results generalizing done table with
  | nil =>
    cases hassign
    rwa [List.map_nil, List.append_nil]
  | cons result results ih =>
    obtain ⟨⟨position, row⟩, pieces⟩ := result
    obtain ⟨rs, hrs, hassign⟩ := bind_eq_ok.mp hassign
    have hnext := ih (h.set (hresults _ List.mem_cons_self) (splitRows_tiles hrs))
      (fun result hresult => hresults result (List.mem_cons_of_mem _ hresult)) hassign
    rwa [List.append_assoc] at hnext

theorem populateBatch_ok_iff {call : String × List (Nat × SectionRow)} :
    (∃ table', populateBatch sha256 segmenter call.1 call.2 table = .ok table')
      ↔ ¬ BadAnswer segmenter call := by
  have hgood : ¬ BadAnswer segmenter call
      ↔ (segmenter.split call.1 (textsOf call.2)).length = call.2.length
        ∧ ∀ result ∈ call.2.zip (segmenter.split call.1 (textsOf call.2)),
          String.join result.2 = result.1.2.sourceText ∧ "" ∉ result.2 := by
    unfold BadAnswer
    push Not
    rfl
  rw [hgood, ← @assignRows_ok_iff sha256 segmenter table]
  unfold populateBatch
  constructor
  · rintro ⟨table', h⟩
    dsimp only at h
    split_ifs at h with hlength
    exact ⟨hlength, table', h⟩
  · rintro ⟨hlength, table', h⟩
    exact ⟨table', (if_pos hlength).trans h⟩

theorem Assigned.populateBatch (h : Assigned rows done table)
    {call : String × List (Nat × SectionRow)} (hcall : ∀ p ∈ call.2, Supported rows p)
    (hpopulate : populateBatch sha256 segmenter call.1 call.2 table = .ok table') :
    Assigned rows (done ++ call.2) table' := by
  unfold Sentences.populateBatch at hpopulate
  dsimp only at hpopulate
  split_ifs at hpopulate with hlength
  have hassigned := h.assignRows (fun result hresult => hcall _ (List.of_mem_zip hresult).1)
    hpopulate
  rwa [List.map_fst_zip hlength.ge] at hassigned

end

/-! ## The whole run -/

section

variable {S : Type} {sha256 : String → String} {object : SegmenterObject S} {batchSize : Int}
  {rows : List SectionRow} {done : List (Nat × SectionRow)} {s : S}
  {table : List (List SentenceRow)} {final : S × List (List SentenceRow)}
  {calls : List (String × List (Nat × SectionRow))}

theorem calls_ok_iff : (∃ final, calls.foldlM (callBatch sha256 object) (s, table) = .ok final)
      ↔ ∀ call ∈ answeredCalls object s calls, ¬ BadAnswer call.1 call.2 := by
  induction calls generalizing s table with
  | nil => simp [answeredCalls, pure, Except.pure]
  | cons call calls ih =>
    rw [answeredCalls, List.forall_mem_cons, List.foldlM_cons,
      ← @populateBatch_ok_iff sha256 _ table]
    constructor
    · rintro ⟨final, h⟩
      obtain ⟨next, hnext, h⟩ := bind_eq_ok.mp h
      obtain ⟨table', htable, hstate⟩ := bind_eq_ok.mp hnext
      cases hstate
      exact ⟨⟨table', htable⟩, ih.mp ⟨final, h⟩⟩
    · rintro ⟨⟨table', htable⟩, hcalls⟩
      obtain ⟨final, h⟩ := ih.mpr hcalls
      exact ⟨final, bind_eq_ok.mpr ⟨_, bind_eq_ok.mpr ⟨table', htable, rfl⟩, h⟩⟩

theorem Assigned.run (h : Assigned rows done table)
    (hcalls : ∀ call ∈ calls, ∀ p ∈ call.2, Supported rows p)
    (hrun : calls.foldlM (callBatch sha256 object) (s, table) = .ok final) :
    Assigned rows (done ++ calls.flatMap Prod.snd) final.2 := by
  induction calls generalizing s table done with
  | nil =>
    cases hrun
    rwa [List.flatMap_nil, List.append_nil]
  | cons call calls ih =>
    rw [List.foldlM_cons] at hrun
    obtain ⟨next, hnext, hrun⟩ := bind_eq_ok.mp hrun
    obtain ⟨table', htable, hstate⟩ := bind_eq_ok.mp hnext
    cases hstate
    have hassigned := ih (h.populateBatch (hcalls call List.mem_cons_self) htable)
      (fun c hc => hcalls c (List.mem_cons_of_mem _ hc)) hrun
    rwa [List.append_assoc, ← List.flatMap_cons] at hassigned

theorem callSupported_eq (c : Classified) : callSupported sha256 object batchSize c s
      = (supportedCalls batchSize c (object.answers s).supportsMixedLanguages).foldlM
        (callBatch sha256 object) (s, c.rowsByPosition) := by
  unfold callSupported supportedCalls
  split_ifs with hmixed
  · rw [List.foldlM_map]
    rfl
  · rw [foldlM_flatMap]
    simp only [List.foldlM_map]
    rfl

theorem mem_supportedCalls (hbatch : 1 ≤ batchSize) (c : Classified) (mixed : Bool)
    (p : Nat × SectionRow) :
    p ∈ (supportedCalls batchSize c mixed).flatMap Prod.snd
      ↔ p ∈ c.supported ∧ p.2.sourceText ≠ "" := by
  have hslices : ∀ positions : List (Nat × SectionRow), ∀ language : String,
      ((slices batchSize.toNat positions).map (fun batch => (language, batch))).flatMap Prod.snd
        = positions := by
    intro positions language
    rw [List.flatMap_map]
    show (slices batchSize.toNat positions).flatMap id = positions
    rw [List.flatMap_id, flatten_slices (by omega)]
  unfold supportedCalls
  split_ifs
  · rw [hslices]
    simp
  · rw [List.flatMap_assoc]
    simp only [hslices, List.mem_flatMap, List.mem_filter, Classified.positions,
      Classified.languages, mem_sortedSet, List.mem_map, decide_eq_true_eq]
    constructor
    · rintro ⟨_, -, ⟨hp, -⟩, htext⟩
      exact ⟨hp, htext⟩
    · rintro ⟨hp, htext⟩
      exact ⟨p.2.language, ⟨p, hp, rfl⟩, ⟨hp, rfl⟩, htext⟩

theorem supported_of_call (hbatch : 1 ≤ batchSize) {mixed : Bool} {p : Nat × SectionRow}
    {call : String × List (Nat × SectionRow)}
    (hcall : call ∈ supportedCalls batchSize (classifySections sha256 0 rows) mixed)
    (hp : p ∈ call.2) : Supported rows p := by
  have hmem := (mem_supportedCalls hbatch _ mixed p).mp (List.mem_flatMap.mpr ⟨call, hcall, hp⟩)
  obtain ⟨-, hget, hsupported⟩ := (@classifySections_supported sha256 0 rows p).mp hmem.1
  rw [Nat.sub_zero] at hget
  exact ⟨hget, hsupported⟩

theorem Assigned.segmented (h : Assigned rows done table)
    (hdone : ∀ p, p ∈ done ↔ Supported rows p ∧ p.2.sourceText ≠ "") :
    List.Forall₂ Segmented rows table := by
  rw [List.forall₂_iff_get]
  refine ⟨h.length.symm, fun i hrow hrs => ?_⟩
  have hrow' : rows[i]? = some (rows.get ⟨i, hrow⟩) := List.getElem?_eq_getElem hrow
  have hrs' : table[i]? = some (table.get ⟨i, hrs⟩) := List.getElem?_eq_getElem hrs
  refine ⟨h.unsupported i _ _ hrow' hrs', fun hsupported hempty => ?_, fun hsupported htext => ?_⟩
  · refine h.waiting i _ _ hrow' hrs' hsupported (fun hmem => ?_)
    exact ((hdone _).mp hmem).2 hempty
  · exact h.split i _ _ hrow' hrs' hsupported ((hdone _).mpr ⟨⟨hrow', hsupported⟩, htext⟩)

theorem splitSectionsFrom_eq (hbatch : 1 ≤ batchSize) :
    splitSectionsFrom sha256 object batchSize s rows
      = ((supportedCalls batchSize (classifySections sha256 0 rows)
          (object.answers s).supportsMixedLanguages).foldlM (callBatch sha256 object)
          (s, (classifySections sha256 0 rows).rowsByPosition)).map
        (fun final => (final.2.flatten, summaryOf rows final.2.flatten.length)) := by
  simp only [splitSectionsFrom, callSupported_eq, summaryOf_classified sha256 rows,
    show ¬ batchSize < 1 by omega, if_false]
  cases (supportedCalls batchSize (classifySections sha256 0 rows)
    (object.answers s).supportsMixedLanguages).foldlM (callBatch sha256 object)
    (s, (classifySections sha256 0 rows).rowsByPosition) <;> rfl

/-! ## Segmenters that treat each text by itself -/

variable {segmenter : Segmenter}

theorem callBatch_stateless (hanswers : ∀ s, object.answers s = segmenter)
    (acc : S × List (List SentenceRow)) (call : String × List (Nat × SectionRow)) :
    (callBatch sha256 object acc call).map Prod.snd
      = populateBatch sha256 segmenter call.1 call.2 acc.2 := by
  unfold callBatch
  rw [hanswers]
  cases populateBatch sha256 segmenter call.1 call.2 acc.2 <;> rfl

theorem splitSectionsFrom_stateless (hanswers : ∀ s, object.answers s = segmenter) :
    splitSectionsFrom sha256 object batchSize s rows
      = splitSections sha256 segmenter batchSize rows := by
  have hpositions : ∀ language positions (acc : S × List (List SentenceRow)),
      (callPositions sha256 object batchSize language positions acc).map Prod.snd
        = populatePositions sha256 segmenter batchSize language positions acc.2 := by
    intro language positions acc
    exact foldlM_map_state (fun acc batch => callBatch_stateless hanswers acc (language, batch))
      _ acc
  have hsupported : ∀ c : Classified, (callSupported sha256 object batchSize c s).map Prod.snd
      = populateSupportedRows sha256 segmenter batchSize c := by
    intro c
    unfold callSupported populateSupportedRows
    rw [hanswers]
    split_ifs
    · exact hpositions "mixed" c.supported (s, c.rowsByPosition)
    · exact foldlM_map_state (fun acc language => hpositions language (c.positions language) acc)
        _ (s, c.rowsByPosition)
  simp only [splitSectionsFrom, splitSections, ← hsupported]
  cases callSupported sha256 object batchSize (classifySections sha256 0 rows) s <;> rfl

/-- The segmenter cuts each text by itself, whatever the batch, the language and the calls
before. -/
def CutsTexts (object : SegmenterObject S) (modelId version : String)
    (cut : String → List String) : Prop :=
  ∃ segmenter : Segmenter, segmenter.modelId = modelId ∧ segmenter.version = version
    ∧ PerText segmenter (fun _ => cut) ∧ ∀ s, object.answers s = segmenter

theorem CutsTexts.splitSectionsFrom_ok_iff {modelId version : String} {cut : String → List String}
    (h : CutsTexts object modelId version cut) (hbatch : 1 ≤ batchSize)
    {sentences : List SentenceRow} {summary : SplitSummary} :
    splitSectionsFrom sha256 object batchSize s rows = .ok (sentences, summary)
      ↔ (∃ pieces, List.Forall₂ (fun row piece =>
          sectionRows sha256 ⟨modelId, version, "", false, fun _ texts => texts.map cut⟩
            (fun _ => cut) row = .ok piece) rows pieces ∧ sentences = pieces.flatten)
        ∧ summary = summaryOf rows sentences.length := by
  obtain ⟨segmenter, rfl, rfl, hcut, hanswers⟩ := h
  rw [splitSectionsFrom_stateless hanswers, splitSections_ok_iff hcut hbatch]
  rfl

/-- **Splitting is lossless.** It raises exactly for a bad answer. What it returns are the rows of
the sections in order, and a summary of them. What a segmenter that cuts each text by itself gives
does not depend on how the texts are grouped into calls. -/
theorem splitSectionsFrom_lossless (sha256 : String → String) (object : SegmenterObject S)
    (hbatch : 1 ≤ batchSize) (s : S) (rows : List SectionRow) :
    ((∃ e, splitSectionsFrom sha256 object batchSize s rows = .error e)
        ↔ ∃ call ∈ sectionCalls sha256 object batchSize s rows, BadAnswer call.1 call.2)
      ∧ (∀ sentences summary,
        splitSectionsFrom sha256 object batchSize s rows = .ok (sentences, summary) →
          (∃ pieces, List.Forall₂ Segmented rows pieces ∧ sentences = pieces.flatten)
            ∧ summary = summaryOf rows sentences.length)
      ∧ ∀ modelId version cut, CutsTexts object modelId version cut →
        ∀ (S' : Type) (object' : SegmenterObject S') (batchSize' : Int) (s' : S'),
          CutsTexts object' modelId version cut → 1 ≤ batchSize' →
          ∀ result, splitSectionsFrom sha256 object batchSize s rows = .ok result
            ↔ splitSectionsFrom sha256 object' batchSize' s' rows = .ok result := by
  refine ⟨?_, ?_, ?_⟩
  · have hok := @calls_ok_iff S sha256 object s (classifySections sha256 0 rows).rowsByPosition
      (supportedCalls batchSize (classifySections sha256 0 rows)
        (object.answers s).supportsMixedLanguages)
    rw [splitSectionsFrom_eq hbatch]
    constructor
    · rintro ⟨e, he⟩
      by_contra hgood
      push Not at hgood
      obtain ⟨final, hfinal⟩ := hok.mpr hgood
      rw [hfinal] at he
      cases he
    · rintro ⟨call, hcall, hbad⟩
      cases hrun : (supportedCalls batchSize (classifySections sha256 0 rows)
          (object.answers s).supportsMixedLanguages).foldlM (callBatch sha256 object)
          (s, (classifySections sha256 0 rows).rowsByPosition) with
      | error e => exact ⟨e, rfl⟩
      | ok final => exact absurd hbad (hok.mp ⟨final, hrun⟩ call hcall)
  · intro sentences summary h
    rw [splitSectionsFrom_eq hbatch] at h
    cases hrun : (supportedCalls batchSize (classifySections sha256 0 rows)
        (object.answers s).supportsMixedLanguages).foldlM (callBatch sha256 object)
        (s, (classifySections sha256 0 rows).rowsByPosition) with
    | error e =>
      rw [hrun] at h
      cases h
    | ok final =>
      rw [hrun] at h
      cases h
      have hassigned := Assigned.start.run
        (fun call hcall p hp => supported_of_call hbatch hcall hp) hrun
      refine ⟨⟨final.2, hassigned.segmented (fun p => ?_), rfl⟩, rfl⟩
      rw [List.nil_append, mem_supportedCalls hbatch, classifySections_supported]
      simp [Supported]
  · rintro modelId version cut hcuts S' object' batchSize' s' hcuts' hbatch' ⟨sentences, summary⟩
    rw [hcuts.splitSectionsFrom_ok_iff hbatch, hcuts'.splitSectionsFrom_ok_iff hbatch']

end

namespace SegmentationExample

def sectionRow (language text : String) : SectionRow where
  context := ⟨some "Q1:0", none, none, none, none, some language, none, none, none, none, none, none,
    none, none, none, none, none⟩
  text := some text
  contentHash := none

/-- It cuts a text into its characters, and loses the text in every call after the first. -/
def forgetful : SegmenterObject Bool where
  answers := fun used => ⟨"sat", "1", "", false, fun _ texts =>
    texts.map (fun text => if used then [] else text.toList.map String.singleton)⟩
  next := fun _ _ _ => true

def rows : List SentenceRow :=
  [sentenceRow id (sectionRow "en" "ab") 0 0 1 "a" ⟨satModelName, "1", "sat", .split⟩,
    sentenceRow id (sectionRow "en" "ab") 1 1 2 "b" ⟨satModelName, "1", "sat", .split⟩,
    unsplitRow id (sectionRow "tlh" "cd"),
    sentenceRow id (sectionRow "en" "e") 0 0 1 "e" ⟨satModelName, "1", "sat", .split⟩]

/-- In one call the texts are split. -/
theorem rows_segmented : ∃ pieces, List.Forall₂ Segmented
        [sectionRow "en" "ab", sectionRow "tlh" "cd", sectionRow "en" "", sectionRow "en" "e"] pieces
      ∧ rows = pieces.flatten := by
  have hbatch : (1 : Int) ≤ 2 := by decide
  refine ((splitSectionsFrom_lossless id forgetful hbatch false _).2.1 rows
    ⟨4, 3, 1, 4, ["en"], ["tlh"]⟩ ?_).1
  decide +kernel

end SegmentationExample

end OsmPolygonWikidata.Sentences
