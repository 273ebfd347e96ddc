import OsmPolygonWikidata.Basic.NumberedFiles

/-! # V2 extraction with a checkpoint

`v2/extractor.py` and `ExtractionCheckpoint` of `v2/checkpoints.py`. A scan over the candidates of
a PBF keeps the rows of new polygons up to a limit. With a checkpoint, accepted rows are written
in numbered chunk files while the scan goes on; a later run loads the chunks, scans the whole PBF
again and skips the polygons it already has.

`candidate_to_v2_row` is a pure function of the candidate, apart from the time stamp, and is a
parameter here. The identity of a checkpoint consists of the contract version, the fingerprint of
the PBF and the limit; the first two do not change, so it is the limit. Writing a file and
removing one are single steps.
-/

namespace OsmPolygonWikidata.Extraction

open Durable

/-! ## Rows and files -/

/-- A polygon row: its identity, the time stamp and the other columns. -/
structure Row (B : Type) where
  polygonId : String
  extractedAt : String
  body : B
  deriving DecidableEq

/-- A row without its time stamp. -/
def Row.content {B : Type} (row : Row B) : String × B := (row.polygonId, row.body)

/-- `metadata.json`. -/
structure Metadata where
  limit : Option Int
  complete : Bool
  nextChunk : Nat
  chunkCount : Nat
  rowCount : Nat

/-- The checkpoint directory. A metadata file that cannot be read counts as missing. -/
structure Disk (B : Type) where
  metadata : Option Metadata
  chunks : AList (fun _ : Nat => List (Row B))

def Disk.empty (B : Type) : Disk B := ⟨none, ∅⟩

inductive ExtractionError where
  | readerFailed

/-- The program type of this module. -/
abbrev Action (B : Type) := Prog (Disk B) ExtractionError

section

variable {B : Type} (glob : GlobOrder)

/-- `_chunks`: the chunk files in the order of their names. -/
def sortedChunks (disk : Disk B) : List Nat :=
  sortedIndexes "chunk-" disk.chunks

/-- `_read_extraction_rows`, for contiguous chunks. -/
def readRows (disk : Disk B) (chunks : List Nat) : List (Row B) :=
  chunks.flatMap (fun i => (disk.chunks.lookup i).getD [])

/-- The metadata of a new checkpoint. -/
def freshMetadata (limit : Option Int) : Metadata := ⟨limit, false, 0, 0, 0⟩

/-- A checkpoint in the memory of a run. -/
structure Checkpoint where
  metadata : Metadata
  nextChunk : Nat

def writeMetadata (m : Metadata) : Action B Unit :=
  Prog.step (fun disk => { disk with metadata := some m })

def clearFiles : Action B Unit := do
  let disk ← Prog.get
  removeAll (fun i disk => { disk with chunks := disk.chunks.erase i })
    (glob.order disk.chunks.keys)

/-- `_prepare`. -/
def prepare (limit : Option Int) : Action B Metadata := do
  let disk ← Prog.get
  if disk.metadata.map Metadata.limit = some limit then
    return disk.metadata.getD (freshMetadata limit)
  else do
    clearFiles glob
    writeMetadata (freshMetadata limit)
    return freshMetadata limit

/-- `ExtractionCheckpoint.__init__`. -/
def newCheckpoint (limit : Option Int) : Action B Checkpoint := do
  let metadata ← prepare glob limit
  let disk ← Prog.get
  return ⟨metadata, (disk.chunks.keys.map (· + 1)).foldl max 0⟩

def loadRows (limit : Option Int) (checkpoint : Checkpoint) :
    Action B (Checkpoint × List (Row B)) := do
  let disk ← Prog.get
  let chunks := sortedChunks disk
  let rows := readRows disk chunks
  if chunks = List.range chunks.length ∧ (checkpoint.metadata.complete = true →
      checkpoint.metadata.chunkCount = chunks.length
        ∧ checkpoint.metadata.rowCount = rows.length) then
    if checkpoint.metadata.complete then
      return (checkpoint, rows)
    else do
      let metadata := { checkpoint.metadata with
        nextChunk := chunks.length, chunkCount := chunks.length, rowCount := rows.length }
      writeMetadata metadata
      return ({ checkpoint with metadata := metadata }, rows)
  else do
    clearFiles glob
    writeMetadata (freshMetadata limit)
    return (⟨freshMetadata limit, 0⟩, [])

def append (rows : List (Row B)) (checkpoint : Checkpoint) : Action B Checkpoint := do
  if rows = [] then
    return checkpoint
  else do
    Prog.step (fun disk => { disk with chunks := disk.chunks.insert checkpoint.nextChunk rows })
    let metadata := { checkpoint.metadata with
      complete := false
      nextChunk := checkpoint.nextChunk + 1
      chunkCount := checkpoint.nextChunk + 1
      rowCount := checkpoint.metadata.rowCount + rows.length }
    writeMetadata metadata
    return ⟨metadata, checkpoint.nextChunk + 1⟩

def markComplete (checkpoint : Checkpoint) : Action B Unit := do
  let disk ← Prog.get
  writeMetadata { checkpoint.metadata with
    complete := true
    chunkCount := disk.chunks.keys.length }

end

/-! ## The scan -/

variable {B Candidate : Type} (glob : GlobOrder) (candidateToV2Row : Candidate → Option (String × B))

def limitReached (limit : Option Int) (count : Nat) : Bool :=
  match limit with
  | none => false
  | some n => n ≤ count

/-- The row `_append_extraction_row` adds for a candidate, given the rows so far. The set `seen`
of the source holds the identities of these rows. -/
def acceptedRow (limit : Option Int) (extractedAt : String) (candidate : Candidate)
    (rows : List (Row B)) : Option (Row B) :=
  if limitReached limit rows.length then none
  else match candidateToV2Row candidate with
  | none => none
  | some (polygonId, body) =>
    if polygonId ∈ rows.map Row.polygonId then none else some ⟨polygonId, extractedAt, body⟩

/-- The state of a scan. -/
structure Scan (B : Type) where
  checkpoint : Checkpoint
  rows : List (Row B)
  pending : List (Row B)

/-- `_append_extraction_row`, with `_checkpoint_if_due`. -/
def appendExtractionRow (limit : Option Int) (checkpointEvery : Int) (extractedAt : String)
    (candidate : Candidate) (scan : Scan B) : Action B (Scan B) := do
  match acceptedRow candidateToV2Row limit extractedAt candidate scan.rows with
  | none => return scan
  | some row =>
    let rows := scan.rows ++ [row]
    let pending := scan.pending ++ [row]
    if (pending.length : Int) < max 1 checkpointEvery then
      return ⟨scan.checkpoint, rows, pending⟩
    else do
      let checkpoint ← append pending scan.checkpoint
      return ⟨checkpoint, rows, []⟩

def consumeCandidates (limit : Option Int) (checkpointEvery : Int) (extractedAt : String) :
    List Candidate → Scan B → Action B (Scan B)
  | [], scan => return scan
  | candidate :: candidates, scan => do
    let scan ← appendExtractionRow candidateToV2Row limit checkpointEvery extractedAt candidate
      scan
    consumeCandidates limit checkpointEvery extractedAt candidates scan

/-- `extract_v2_pbf` with a checkpoint directory. `failsAfter` makes the reader raise after so many
candidates; the rows accepted until then are flushed. -/
def extractV2Pbf (limit : Option Int) (checkpointEvery : Int) (extractedAt : String)
    (failsAfter : Option Nat) (candidates : List Candidate) : Action B (List (Row B)) := do
  let checkpoint ← newCheckpoint glob limit
  let (checkpoint, rows) ← loadRows glob limit checkpoint
  if checkpoint.metadata.complete then
    return rows
  else
    match failsAfter with
    | none => do
      let scan ← consumeCandidates candidateToV2Row limit checkpointEvery extractedAt candidates
        ⟨checkpoint, rows, []⟩
      let checkpoint ← append scan.pending scan.checkpoint
      markComplete checkpoint
      return scan.rows
    | some n => do
      let scan ← consumeCandidates candidateToV2Row limit checkpointEvery extractedAt
        (candidates.take n) ⟨checkpoint, rows, []⟩
      let _ ← append scan.pending scan.checkpoint
      .raise .readerFailed

/-- The rows a scan without a checkpoint collects, after those in `rows`. -/
def scanRows (limit : Option Int) (extractedAt : String) :
    List Candidate → List (Row B) → List (Row B)
  | [], rows => rows
  | candidate :: candidates, rows =>
    scanRows limit extractedAt candidates
      (rows ++ (acceptedRow candidateToV2Row limit extractedAt candidate rows).toList)

/-- `extract_v2_pbf` without a checkpoint directory. -/
def extractPlain (limit : Option Int) (extractedAt : String) (candidates : List Candidate) :
    List (Row B) :=
  scanRows candidateToV2Row limit extractedAt candidates []

end OsmPolygonWikidata.Extraction
