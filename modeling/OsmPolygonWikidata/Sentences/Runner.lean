import OsmPolygonWikidata.Basic.NumberedFiles
import OsmPolygonWikidata.Sentences.Logic

/-! # One sentence table

`SentenceCheckpoint` of `v2/sentence_checkpoints.py` and `_run_project` of `v2/sentence_runner.py`:
a section table is read in batches, the rows of each batch are written to a file of their own, and
the files are joined to the sentence table. The checkpoint belongs to an *identity*, the digest of
the section table, the model and the batch size; a run with another identity starts over. The
contract version in the identity does not change and is left out.

Replacing a file and removing one are single steps. A file that cannot be read does not occur,
since files are only replaced as a whole. A sentence table is the list of tables written to it.
-/

namespace OsmPolygonWikidata.Sentences

open Durable

/-! ## Files -/

/-- How section tables are read, and the digests of the two kinds of files. `iter_batches` cuts the
rows of a table into batches. -/
structure SectionFiles (F H : Type) where
  schemaMatches : F → Bool
  sections : F → List SectionRow
  iterBatches : Int → F → List (List SectionRow)
  fingerprint : F → H
  outputHash : List (List SentenceRow) → H
  flatten_iterBatches : ∀ batchSize file, 1 ≤ batchSize →
    (iterBatches batchSize file).flatten = sections file

inductive Project where
  | wikipedia
  | wikivoyage
  deriving DecidableEq

def Project.name : Project → String
  | .wikipedia => "wikipedia"
  | .wikivoyage => "wikivoyage"

/-- A region and a project have one sentence table. -/
structure Key where
  stem : String
  project : Project
  deriving DecidableEq

/-- `_sentence_path`, below the processed tree. -/
def sentencePath (key : Key) : String :=
  key.project.name ++ "/sentences/" ++ key.stem ++ ".parquet"

/-- `SentenceRegionSummary`. -/
structure RegionSummary extends SplitSummary where
  stem : String
  project : String
  deriving DecidableEq

structure Identity (H : Type) where
  stem : String
  project : Project
  inputFingerprint : H
  modelId : String
  modelRevision : String
  batchSize : Int
  deriving DecidableEq

/-- `metadata.json`. -/
structure Metadata (H : Type) where
  identity : Identity H
  complete : Bool
  batchCount : Nat
  rowCount : Nat
  outputPath : Option String
  outputHash : Option H
  summary : Option RegionSummary
  deriving DecidableEq

/-- The checkpoint directory and the sentence table of one key. -/
structure Region (H : Type) where
  metadata : Option (Metadata H)
  batches : AList (fun _ : Nat => List SentenceRow)
  output : Option (List (List SentenceRow))

def Region.empty (H : Type) : Region H := ⟨none, ∅, none⟩

/-- The program type of this module. -/
abbrev Action (H : Type) := Prog (Region H) SentenceError

/-! ## Counters -/

/-- `_Counters`, apart from the number of rows. -/
structure Counters where
  sections : Nat
  splitSections : Nat
  unsplitSections : Nat
  supportedLanguages : List String
  unsupportedLanguages : List String

def Counters.zero : Counters := ⟨0, 0, 0, [], []⟩

/-- `add_sections`, for one section. -/
def Counters.addSection (c : Counters) (row : SectionRow) : Counters :=
  if isSatSupportedLanguage row.language then
    { c with
      sections := c.sections + 1
      splitSections := c.splitSections + 1
      supportedLanguages := c.supportedLanguages ++ [row.language] }
  else
    { c with
      sections := c.sections + 1
      unsplitSections := c.unsplitSections + 1
      unsupportedLanguages := c.unsupportedLanguages ++ [row.language] }

def Counters.addSections (c : Counters) (rows : List SectionRow) : Counters :=
  rows.foldl Counters.addSection c

def Counters.summary (c : Counters) (sentenceRows : Nat) (key : Key) : RegionSummary :=
  { sections := c.sections
    splitSections := c.splitSections
    unsplitSections := c.unsplitSections
    sentenceRows := sentenceRows
    supportedLanguages := sortedSet c.supportedLanguages
    unsupportedLanguages := sortedSet c.unsupportedLanguages
    stem := key.stem
    project := key.project.name }

/-! ## The checkpoint -/

section

variable {H : Type} [DecidableEq H] (glob : GlobOrder)

/-- The metadata of a new checkpoint. -/
def initialMetadata (identity : Identity H) : Metadata H := ⟨identity, false, 0, 0, none, none, none⟩

def writeMetadata (metadata : Metadata H) : Action H Unit :=
  Prog.step (fun region => { region with metadata := some metadata })

def removePayloads : Action H Unit := do
  let region ← Prog.get
  removeAll (fun i region => { region with batches := region.batches.erase i })
    (glob.order region.batches.keys)

/-- `_prepare`. -/
def prepare (identity : Identity H) : Action H (Metadata H) := do
  let region ← Prog.get
  if region.metadata.map Metadata.identity = some identity then
    return region.metadata.getD (initialMetadata identity)
  else do
    removePayloads glob
    writeMetadata (initialMetadata identity)
    return initialMetadata identity

/-- `SentenceCheckpoint.__init__`. -/
def newCheckpoint (identity : Identity H) : Action H (Metadata H) := do
  if identity.batchSize < 1 then
    .raise .batchSizeNotPositive
  else
    prepare glob identity

def writeBatch (index : Nat) (rows : List SentenceRow) (metadata : Metadata H) :
    Action H (Metadata H) := do
  Prog.step (fun region => { region with batches := region.batches.insert index rows })
  let metadata := { metadata with complete := false }
  writeMetadata metadata
  return metadata

def completedBatches (region : Region H) : List Nat := sortedIndexes "batch-" region.batches

/-- The number of rows of a batch. -/
def batchLength (region : Region H) (index : Nat) : Nat :=
  ((region.batches.lookup index).getD []).length

def markComplete (batchCount rowCount : Nat) (metadata : Metadata H) : Action H (Metadata H) := do
  let region ← Prog.get
  let indexes := completedBatches region
  if indexes ≠ List.range batchCount then
    .raise .batchesNotContiguous
  else if (indexes.map (batchLength region)).sum ≠ rowCount then
    .raise .invalidRowAccounting
  else do
    let metadata := { metadata with
      complete := true, batchCount := batchCount, rowCount := rowCount }
    writeMetadata metadata
    return metadata

def finalize (outputPath : String) (outputHash : H) (summary : RegionSummary)
    (metadata : Metadata H) : Action H Unit := do
  if metadata.complete then do
    writeMetadata { metadata with
      outputPath := some outputPath
      outputHash := some outputHash
      summary := some summary }
    removePayloads glob
  else
    .raise .incompleteCheckpoint

end

/-! ## The run -/

variable {F H : Type} [DecidableEq H] (glob : GlobOrder) (files : SectionFiles F H)
variable (sha256 : String → String) (segmenter : Segmenter) (key : Key) (batchSize : Int)

/-- What a run has collected. -/
structure Progress (H : Type) where
  metadata : Metadata H
  counters : Counters
  rowCount : Nat

/-- One pass of the loop of `_process_source`. -/
def processBatch (index : Nat) (rows : List SectionRow) (progress : Progress H) :
    Action H (Progress H) := do
  let region ← Prog.get
  let counters := progress.counters.addSections rows
  match region.batches.lookup index with
  | some sentences => return ⟨progress.metadata, counters, progress.rowCount + sentences.length⟩
  | none =>
    match splitSections sha256 segmenter batchSize rows with
    | .error e => .raise e
    | .ok (sentences, _) => do
      let metadata ← writeBatch index sentences progress.metadata
      return ⟨metadata, counters, progress.rowCount + sentences.length⟩

/-- `_process_source`, from batch `index` on. -/
def processSource : List (List SectionRow) → Nat → Progress H → Action H (Progress H)
  | [], _, progress => return progress
  | rows :: batches, index, progress => do
    let progress ← processBatch sha256 segmenter batchSize index rows progress
    processSource batches (index + 1) progress

/-- `_write_checkpoint_batches`: the tables of the batches, without empty ones. -/
def checkpointTables (region : Region H) : List Nat → Except SentenceError (List (List SentenceRow))
  | [] => .ok []
  | index :: indexes =>
    match region.batches.lookup index with
    | none => .error (.invalidBatch index)
    | some table => do
      let tables ← checkpointTables region indexes
      return if table = [] then tables else table :: tables

def writeOutput (batchCount : Nat) : Action H Unit := do
  let region ← Prog.get
  match checkpointTables region (List.range batchCount) with
  | .error e => .raise e
  | .ok tables => Prog.step (fun region => { region with output := some tables })

/-- `_recorded_output_matches`, with `output_matches`. -/
def recordedOutputMatches (metadata : Metadata H) (region : Region H) : Bool :=
  match metadata.outputHash, region.output with
  | some outputHash, some output =>
    metadata.complete && metadata.outputPath = some (sentencePath key)
      && files.outputHash output = outputHash
  | _, _ => false

/-- The identity of the checkpoint of a run. -/
def identityOf (file : F) : Identity H :=
  ⟨key.stem, key.project, files.fingerprint file, segmenter.modelId, segmenter.revision, batchSize⟩

/-- The part of `_run_project` after the checkpoint has been opened. -/
def runCheckpoint (file : F) (metadata : Metadata H) : Action H RegionSummary := do
  let region ← Prog.get
  if recordedOutputMatches files key metadata region then
    match metadata.summary with
    | none => .raise .noSummary
    | some summary => return summary
  else do
    let batches := files.iterBatches batchSize file
    let progress ← processSource sha256 segmenter batchSize batches 0 ⟨metadata, .zero, 0⟩
    let metadata ← markComplete batches.length progress.rowCount progress.metadata
    writeOutput batches.length
    let summary := progress.counters.summary progress.rowCount key
    let region ← Prog.get
    match region.output with
    | none => .raise .outputMissing
    | some output =>
      finalize glob (sentencePath key) (files.outputHash output) summary metadata
      return summary

def runProject (source : Option F) : Action H RegionSummary :=
  match source with
  | none => .raise .sourceMissing
  | some file =>
    if files.schemaMatches file then do
      let metadata ← newCheckpoint glob (identityOf files segmenter key batchSize file)
      runCheckpoint glob files sha256 segmenter key batchSize file metadata
    else .raise .unexpectedSchema

end OsmPolygonWikidata.Sentences
