import Mathlib.Algebra.Ring.Nat
import Mathlib.Data.List.Dedup
import Mathlib.Data.List.Sort
import Mathlib.Data.String.Basic
import OsmPolygonWikidata.Basic.PyString

/-! # Sentence rows

`v2/sentence_logic.py`: a section in a language the segmenter knows becomes one row per sentence,
any other section one unsplit row. The segmenter is called with batches of texts of one language,
or of all languages if it supports that, and its answers are put back at the positions of their
sections.

Null columns are `none`. The digest function of `hashlib` is a parameter.
-/

namespace OsmPolygonWikidata.Sentences

open Python

/-! ## Sections and rows -/

def satModelName : String := "sat-3l-sm"

def satModelId : String := "segment-any-text/sat-3l-sm"

/-- `SAT_SUPPORTED_LANGUAGES`, from `sat-capabilities.json`. -/
def satSupportedLanguages : List String :=
  ["af", "am", "ar", "az", "be", "bg", "bn", "ca", "ceb", "cs", "cy", "da", "de", "el", "en",
    "eo", "es", "et", "eu", "fa", "fi", "fr", "fy", "ga", "gd", "gl", "gu", "ha", "he", "hi",
    "hu", "hy", "id", "ig", "is", "it", "ja", "jv", "ka", "kk", "km", "kn", "ko", "ku", "ky",
    "la", "lt", "lv", "mg", "mk", "ml", "mn", "mr", "ms", "mt", "my", "ne", "nl", "no", "pa",
    "pl", "ps", "pt", "ro", "ru", "si", "sk", "sl", "sq", "sr", "sv", "ta", "te", "tg", "th",
    "tr", "uk", "ur", "uz", "vi", "xh", "yi", "yo", "zh", "zu"]

def isSatSupportedLanguage (language : String) : Bool := language ∈ satSupportedLanguages

/-- `_SECTION_CONTEXT_COLUMNS`: what a sentence row copies from its section. -/
structure SectionContext where
  sectionId : Option String
  documentId : Option String
  articleId : Option String
  wikidata : Option String
  project : Option String
  language : Option String
  site : Option String
  pageId : Option Int
  revisionId : Option Int
  sectionIndex : Option Int
  heading : Option String
  anchor : Option String
  level : Option Int
  parentSectionId : Option String
  sectionPath : Option String
  license : Option String
  attribution : Option String
  deriving DecidableEq

/-- A row of a section table. -/
structure SectionRow where
  context : SectionContext
  text : Option String
  contentHash : Option String
  deriving DecidableEq

/-- `_language`. -/
def SectionRow.language (row : SectionRow) : String := row.context.language.getD ""

/-- `_text`. -/
def SectionRow.sourceText (row : SectionRow) : String := row.text.getD ""

inductive SegmentationStatus where
  | split
  | unsupportedLanguage
  deriving DecidableEq

structure SegmentationStamp where
  segmenter : String
  segmenterVersion : String
  modelId : String
  segmentationStatus : SegmentationStatus
  deriving DecidableEq

/-- A row of a sentence table. -/
structure SentenceRow where
  sentenceId : String
  context : SectionContext
  sentenceIndex : Nat
  startChar : Nat
  endChar : Nat
  text : String
  textLengthChars : Nat
  textLengthWords : Nat
  textLengthTokensEstimate : Nat
  contentHash : String
  sourceContentHash : String
  stamp : SegmentationStamp
  deriving DecidableEq

/-- The exceptions of the sentence stage. -/
inductive SentenceError where
  | batchSizeNotPositive
  | wrongResultCount (results inputs : Nat)
  | doesNotReconstruct (sectionId : Option String)
  | emptySentence
  | sourceMissing
  | unexpectedSchema
  | batchesNotContiguous
  | invalidRowAccounting
  | invalidBatch (index : Nat)
  | incompleteCheckpoint
  | outputMissing
  | noSummary
  | unsupportedModel
  | noFinalizedRegions
  | notFinalized (stems : List String)
  | noRegionSelected
  | unsafeStem (stem : String)
  | differentSegmenter
  deriving DecidableEq

/-- The batch interface of a segmenter. `split` gets a language and the texts. -/
structure Segmenter where
  modelId : String
  version : String
  revision : String
  supportsMixedLanguages : Bool
  split : String → List String → List (List String)

/-! ## One section -/

section

variable (sha256 : String → String)

def countWords (text : String) : Nat := (splitWords text.toList []).length

def estimateTokens (text : String) : Nat :=
  if text = "" then 0 else max 1 (text.length / 4)

def contentHash (text : String) : String := sha256 text

def stableId (parts : List String) : String := sha256 (String.intercalate "\x1f" parts)

def sentenceRow (row : SectionRow) (sentenceIndex startChar endChar : Nat) (text : String)
    (stamp : SegmentationStamp) : SentenceRow :=
  let sourceContentHash :=
    if row.contentHash.getD "" = "" then contentHash sha256 row.sourceText
    else row.contentHash.getD ""
  { sentenceId := stableId sha256 ["v2-sentence", row.context.sectionId.getD "",
      sourceContentHash, toString startChar, toString endChar]
    context := row.context
    sentenceIndex := sentenceIndex
    startChar := startChar
    endChar := endChar
    text := text
    textLengthChars := text.length
    textLengthWords := countWords text
    textLengthTokensEstimate := estimateTokens text
    contentHash := contentHash sha256 text
    sourceContentHash := sourceContentHash
    stamp := stamp }

def unsplitRow (row : SectionRow) : SentenceRow :=
  sentenceRow sha256 row 0 0 row.sourceText.length row.sourceText
    ⟨"unsplit", "", "", .unsupportedLanguage⟩

/-- The loop of `_split_rows`, from sentence `sentenceIndex` at `offset` on. -/
def pieceRows (row : SectionRow) (stamp : SegmentationStamp) :
    List String → Nat → Nat → Except SentenceError (List SentenceRow)
  | [], _, _ => .ok []
  | piece :: pieces, sentenceIndex, offset => do
    if piece = "" then throw .emptySentence
    let rest ← pieceRows row stamp pieces (sentenceIndex + 1) (offset + piece.length)
    return sentenceRow sha256 row sentenceIndex offset (offset + piece.length) piece stamp :: rest

def splitRows (segmenter : Segmenter) (row : SectionRow) (pieces : List String) :
    Except SentenceError (List SentenceRow) :=
  if String.join pieces = row.sourceText then
    pieceRows sha256 row ⟨satModelName, segmenter.version, segmenter.modelId, .split⟩ pieces 0 0
  else .error (.doesNotReconstruct row.context.sectionId)

end

/-! ## All sections -/

/-- `tuple(sorted(set(values)))`. -/
def sortedSet (values : List String) : List String := values.dedup.insertionSort (· ≤ ·)

/-- The slices `values[start : start + size]` for `start` in `range(0, len(values), size)`. -/
def slices {A : Type} (size : Nat) (values : List A) : List (List A) :=
  (List.range ((values.length + size - 1) / size)).map (fun k => (values.drop (k * size)).take size)

/-- `SentenceSplitSummary`. -/
structure SplitSummary where
  sections : Nat
  splitSections : Nat
  unsplitSections : Nat
  sentenceRows : Nat
  supportedLanguages : List String
  unsupportedLanguages : List String
  deriving DecidableEq

/-- What `_classify_sections` returns. A supported position is kept with its section; the source
keeps these positions in a dictionary by language. -/
structure Classified where
  rowsByPosition : List (List SentenceRow)
  supported : List (Nat × SectionRow)
  unsupportedLanguages : List String
  unsupportedCount : Nat

/-- `supported_positions[language]`. -/
def Classified.positions (c : Classified) (language : String) : List (Nat × SectionRow) :=
  c.supported.filter (fun p => p.2.language = language)

/-- `sorted(supported_positions)`. -/
def Classified.languages (c : Classified) : List String :=
  sortedSet (c.supported.map (fun p => p.2.language))

variable (sha256 : String → String) (segmenter : Segmenter) (batchSize : Int)

/-- `_classify_sections`, from a position on. -/
def classifySections : Nat → List SectionRow → Classified
  | _, [] => ⟨[], [], [], 0⟩
  | position, row :: rows =>
    let c := classifySections (position + 1) rows
    if isSatSupportedLanguage row.language then
      { c with
        rowsByPosition := [] :: c.rowsByPosition
        supported := (position, row) :: c.supported }
    else
      { c with
        rowsByPosition := [unsplitRow sha256 row] :: c.rowsByPosition
        unsupportedLanguages := row.language :: c.unsupportedLanguages
        unsupportedCount := c.unsupportedCount + 1 }

/-- The assignment loop of `_populate_batch`. -/
def assignRows : List ((Nat × SectionRow) × List String) → List (List SentenceRow) →
    Except SentenceError (List (List SentenceRow))
  | [], rowsByPosition => .ok rowsByPosition
  | ((position, row), pieces) :: rest, rowsByPosition => do
    let rows ← splitRows sha256 segmenter row pieces
    assignRows rest (rowsByPosition.set position rows)

def populateBatch (language : String) (positions : List (Nat × SectionRow))
    (rowsByPosition : List (List SentenceRow)) : Except SentenceError (List (List SentenceRow)) :=
  let batches := segmenter.split language (positions.map (fun p => p.2.sourceText))
  if batches.length = positions.length then
    assignRows sha256 segmenter (positions.zip batches) rowsByPosition
  else .error (.wrongResultCount batches.length positions.length)

def populatePositions (language : String) (positions : List (Nat × SectionRow))
    (rowsByPosition : List (List SentenceRow)) : Except SentenceError (List (List SentenceRow)) :=
  (slices batchSize.toNat (positions.filter (fun p => p.2.sourceText ≠ ""))).foldlM
    (fun rowsByPosition batch => populateBatch sha256 segmenter language batch rowsByPosition)
    rowsByPosition

def populateSupportedRows (c : Classified) : Except SentenceError (List (List SentenceRow)) :=
  if segmenter.supportsMixedLanguages then
    populatePositions sha256 segmenter batchSize "mixed" c.supported c.rowsByPosition
  else
    c.languages.foldlM (fun rowsByPosition language =>
      populatePositions sha256 segmenter batchSize language (c.positions language) rowsByPosition)
      c.rowsByPosition

def splitSections (rows : List SectionRow) :
    Except SentenceError (List SentenceRow × SplitSummary) := do
  if batchSize < 1 then throw .batchSizeNotPositive
  let c := classifySections sha256 0 rows
  let rowsByPosition ← populateSupportedRows sha256 segmenter batchSize c
  let sentences := rowsByPosition.flatten
  return (sentences,
    { sections := rows.length
      splitSections := (c.languages.map (fun language => (c.positions language).length)).sum
      unsplitSections := c.unsupportedCount
      sentenceRows := sentences.length
      supportedLanguages := c.languages
      unsupportedLanguages := sortedSet c.unsupportedLanguages })

end OsmPolygonWikidata.Sentences
