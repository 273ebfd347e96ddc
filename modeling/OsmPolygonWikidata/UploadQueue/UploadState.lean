import Mathlib.Data.List.AList
import Mathlib.Data.String.Basic
import OsmPolygonWikidata.Basic.Durable

/-! # The durable state of the upload queue

`hf/_upload_state.py` and `hf/_upload_state_files.py`. A submission gets a sequence number, its
files are copied into a snapshot directory of that number, and an envelope `<number>.json`
describes the job. A job that has been uploaded is deleted, envelope first. At a start the
envelopes that are left are resumed in the order of their numbers; legacy envelopes, which have
no number, are numbered then.

The state directory holds the high-water file, the `*.json` files and the snapshot directories.
Replacing a file is one step. A copy is two: the file is there before it is complete. Every step
can raise, before or after its effect, and the process can be killed in front of every step.

The list `written` is no part of the program. It records every envelope that was ever written, so
that something can be said about whole runs.
-/

namespace OsmPolygonWikidata.UploadQueue

open Durable

/-! ## Jobs -/

/-- The components of a path. -/
abbrev Path := List String

def Path.name (p : Path) : String := p.getLastD ""

/-- `is_inside`, for paths without symbolic links. -/
def isInside (child parent : Path) : Bool := parent.isPrefixOf child

/-- `PublicationOp`: `__post_init__` leaves no other combination of its fields. -/
inductive PublicationOp where
  | add (pathInRepo : String) (localPath : Path) (snapshotPath : Option Path)
  | delete (pathInRepo : String)
  deriving DecidableEq

def PublicationOp.pathInRepo : PublicationOp → String
  | .add p _ _ => p
  | .delete p => p

/-- `StoredUpload`. `statePath` is the name of the envelope in the state directory. -/
structure StoredUpload (H : Type) where
  ops : List PublicationOp
  message : String
  statePath : String
  snapshotDir : Option Path
  opShas : List (Option H)
  deriving DecidableEq

/-- One operation of an envelope. A field is `none` when it is missing or has another type; the
empty local path counts as missing. -/
structure Entry (H : Type) where
  action : Option String
  pathInRepo : Option String
  localPath : Option Path
  snapshotPath : Option Path
  sha256 : Option H
  deriving DecidableEq

/-- A JSON object in the state directory. -/
structure Envelope (H : Type) where
  contractVersion : Option String
  sequence : Option Int
  message : Option String
  ops : Option (List (Entry H))
  deriving DecidableEq

/-! ## The state directory -/

/-- A file of a snapshot directory: its operation directory, its name, and its content when the
copy is complete. -/
structure SnapshotFile (C : Type) where
  opDir : String
  name : String
  content : Option C
  deriving DecidableEq

/-- The state directory. A `*.json` file that is no JSON object is `none`, and so is a high-water
file that is missing or no number. -/
structure Disk (C H : Type) where
  highwater : Option Int
  envelopes : AList (fun _ : String => Option (Envelope H))
  snapshots : AList (fun _ : Path => List (SnapshotFile C))

/-- Where an envelope came from: a submission, or the legacy envelope of that name. -/
inductive Origin (H : Type) where
  | submitted (upload : StoredUpload H)
  | upgraded (legacy : String)

/-- An envelope at the moment it is written. -/
structure Written (H : Type) where
  sequence : Nat
  envelope : Envelope H
  origin : Origin H

/-- The state directory, the counter in memory, and the record of what has been written. -/
structure Machine (C H : Type) where
  disk : Disk C H
  nextSequence : Nat
  written : List (Written H)

/-- How a filesystem step can fail: with an exception that a resume tolerates, or with any other. -/
inductive Failure where
  | osError
  | interrupt
  deriving DecidableEq

inductive Moment where
  | before
  | after

/-- The filesystem steps of one persisted or upgraded envelope. -/
inductive FsStep where
  | highwater
  | snapshotDir
  | opDir (index : Nat)
  | copyOpen (index : Nat)
  | copyData (index : Nat)
  | hash (index : Nat)
  | envelope
  | unlink
  deriving DecidableEq

/-- Which steps fail. -/
abbrev Faults := FsStep → Option (Failure × Moment)

inductive UploadError where
  | failed (failure : Failure)
  | invalidAction (action : String)
  | requiresLocalPath (pathInRepo : String)
  | carriesLocalPath (pathInRepo : String)
  | carriesSnapshotPath (pathInRepo : String)
  | missingFile (path : Path)
  | fieldNotAString (field : String)
  | missingSnapshotPath (envelope : String)
  | snapshotOutside (path : Path)
  | snapshotDirMissing
  | malformedEnvelope (envelope : String)
  | unknownContract (envelope : String)
  | invalidSequence (envelope : String)
  | duplicateSequence (sequence : Nat) (envelope : String)
  | legacyDuplicate (sequence : Nat)
  | missingMessage
  | outsideSnapshots (directory : Path)
  deriving DecidableEq

/-- `FileNotFoundError`, `OSError` and `ValueError`. The missing message is a `KeyError`, and a
missing snapshot directory a `RuntimeError`. -/
def UploadError.tolerated : UploadError → Bool
  | .failed .interrupt => false
  | .missingMessage => false
  | .snapshotDirMissing => false
  | _ => true

/-- The program type of this module. -/
abbrev Action (C H : Type) := Prog (Machine C H) UploadError

variable {C H : Type}

/-- A step that can fail. -/
def fallible (fault : Option (Failure × Moment)) (f : Machine C H → Machine C H) :
    Action C H Unit :=
  match fault with
  | none => Prog.step f
  | some (failure, .before) => .raise (.failed failure)
  | some (failure, .after) => do
    Prog.step f
    .raise (.failed failure)

/-! ## Numbers and names -/

def queueContractVersion : String := "bg-upload-v1"

/-- `f"{n:0{width}d}"`. -/
def padded (width n : Nat) : String := String.ofList (List.leftpad width '0' (Nat.toDigits 10 n))

/-- `f"{sequence:06d}.json"`. -/
def stateName (sequence : Nat) : String := padded 6 sequence ++ ".json"

/-- The decimal digits of all scripts, as `\d` and `int` know them. -/
structure DecimalDigits where
  value : Char → Option Nat
  ascii : ∀ d < 10, value d.digitChar = some d

/-- `int` of a string of digits. -/
def DecimalDigits.int (digits : DecimalDigits) (cs : List Char) : Option Nat :=
  cs.foldl (fun n c => n.bind (fun n => (digits.value c).map (10 * n + ·))) (some 0)

/-- The match of `SEQUENCE_FILE`. -/
def sequenceFile (digits : DecimalDigits) (name : String) : Option Nat :=
  if ".json".toList.isSuffixOf name.toList && decide (5 < name.toList.length) then
    digits.int (name.toList.take (name.toList.length - 5))
  else none

/-- `read_highwater`. A file that cannot be read counts as 0, like one that is missing. -/
def readHighwater (readable : Bool) (disk : Disk C H) : Nat :=
  if readable then (disk.highwater.getD 0).toNat else 0

def sequenceFromStatePath (digits : DecimalDigits) (name : String)
    (payload : Option (Envelope H)) : Nat :=
  match sequenceFile digits name with
  | some n => n
  | none => ((payload.bind Envelope.sequence).getD 0).toNat

def scannedSequence (digits : DecimalDigits) (disk : Disk C H) : Nat :=
  (disk.envelopes.entries.map (fun e => sequenceFromStatePath digits e.1 e.2)).foldl max 0

def nextSequenceFromStateDir (digits : DecimalDigits) (readable : Bool) (disk : Disk C H) : Nat :=
  max (readHighwater readable disk) (scannedSequence digits disk) + 1

/-- A start that reads the high-water file, or does not need it: the envelopes left have numbers
that are as high. -/
def Recovers (digits : DecimalDigits) (readable : Bool) (disk : Disk C H) : Prop :=
  readable = true ∨ readHighwater true disk ≤ scannedSequence digits disk

instance (digits : DecimalDigits) (readable : Bool) (disk : Disk C H) :
    Decidable (Recovers digits readable disk) := inferInstanceAs (Decidable (_ ∨ _))

/-- `UploadStateStore.__init__` on the state directory that is there. `readable` says whether the
high-water file can be read at this start. Without it the count may begin anew; the record then
keeps what is left. -/
def Machine.restart (digits : DecimalDigits) (readable : Bool) (s : Machine C H) : Machine C H where
  disk := s.disk
  nextSequence := nextSequenceFromStateDir digits readable s.disk
  written :=
    if Recovers digits readable s.disk then s.written
    else s.written.filter (fun w => (s.disk.envelopes.lookup (stateName w.sequence)).isSome)

/-! ## Writing -/

def Machine.writeHighwater (value : Nat) (s : Machine C H) : Machine C H :=
  { s with disk := { s.disk with highwater := some value } }

/-- A change of the `*.json` files. -/
def Machine.onEnvelopes (f : AList (fun _ : String => Option (Envelope H)) →
    AList (fun _ : String => Option (Envelope H))) (s : Machine C H) : Machine C H :=
  { s with disk := { s.disk with envelopes := f s.disk.envelopes } }

/-- A change of the snapshot directories. -/
def Machine.onSnapshots (f : AList (fun _ : Path => List (SnapshotFile C)) →
    AList (fun _ : Path => List (SnapshotFile C))) (s : Machine C H) : Machine C H :=
  { s with disk := { s.disk with snapshots := f s.disk.snapshots } }

def Machine.writeEnvelope (w : Written H) (s : Machine C H) : Machine C H :=
  { s.onEnvelopes (·.insert (stateName w.sequence) (some w.envelope)) with
    written := s.written ++ [w] }

def Machine.unlinkEnvelope (name : String) (s : Machine C H) : Machine C H :=
  s.onEnvelopes (·.erase name)

/-- `mkdir(parents=True, exist_ok=True)` of a snapshot directory. -/
def Machine.makeSnapshotDir (dir : Path) (s : Machine C H) : Machine C H :=
  s.onSnapshots (fun snapshots =>
    match snapshots.lookup dir with
    | some _ => snapshots
    | none => snapshots.insert dir [])

/-- The files of a directory without the one of that name. -/
def dropFile (file : SnapshotFile C) (files : List (SnapshotFile C)) : List (SnapshotFile C) :=
  files.filter (fun f => ¬ (f.opDir = file.opDir ∧ f.name = file.name))

def Machine.writeSnapshot (dir : Path) (file : SnapshotFile C) (s : Machine C H) : Machine C H :=
  s.onSnapshots (fun snapshots =>
    snapshots.insert dir (dropFile file ((snapshots.lookup dir).getD []) ++ [file]))

def Machine.unlinkSnapshot (dir : Path) (file : SnapshotFile C) (s : Machine C H) :
    Machine C H :=
  s.onSnapshots (fun snapshots =>
    match snapshots.lookup dir with
    | some files => snapshots.insert dir (dropFile file files)
    | none => snapshots)

/-- `rmdir`, which leaves a directory that is not empty. -/
def Machine.removeSnapshotDir (dir : Path) (s : Machine C H) : Machine C H :=
  s.onSnapshots (fun snapshots =>
    match snapshots.lookup dir with
    | some [] => snapshots.erase dir
    | _ => snapshots)

/-- The loop of `shutil.rmtree` over the files; those in `stuck` cannot be removed. -/
def unlinkSnapshots (stuck : SnapshotFile C → Bool) (dir : Path) :
    List (SnapshotFile C) → Action C H Unit
  | [] => return ()
  | file :: files =>
    if stuck file then unlinkSnapshots stuck dir files
    else do
      Prog.step (Machine.unlinkSnapshot dir file)
      unlinkSnapshots stuck dir files

/-- `shutil.rmtree(dir, ignore_errors=True)`. -/
def rmtree (stuck : SnapshotFile C → Bool) (dir : Path) : Action C H Unit := do
  let s ← Prog.get
  unlinkSnapshots stuck dir ((s.disk.snapshots.lookup dir).getD [])
  Prog.step (Machine.removeSnapshotDir dir)

/-! ## Submitting -/

section

variable (stateDir : Path) (hash : C → H) (localFiles : Path → Option C)

/-- `state_dir / SNAPSHOTS_SUBDIR`. -/
def snapshotsRoot : Path := stateDir ++ ["snapshots"]

def snapshotDirForSequence (sequence : Nat) : Path := snapshotsRoot stateDir ++ [padded 6 sequence]

/-- `_allocate_sequence`: the counter advances before the file is written. -/
def allocateSequence (faults : Faults) : Action C H Nat := do
  let s ← Prog.get
  Prog.step (fun s => { s with nextSequence := s.nextSequence + 1 })
  fallible (faults .highwater) (Machine.writeHighwater s.nextSequence)
  return s.nextSequence

/-- Copying the local file of operation `index` into a snapshot directory. The digest is taken
from the copy, which holds the bytes just written. -/
def copySnapshot (faults : Faults) (dir : Path) (index : Nat) (localPath : Path) :
    Action C H (Path × H) := do
  match localFiles localPath with
  | none => .raise (.missingFile localPath)
  | some content => do
    fallible (faults (.opDir index)) id
    fallible (faults (.copyOpen index))
      (Machine.writeSnapshot dir ⟨padded 3 index, localPath.name, none⟩)
    fallible (faults (.copyData index))
      (Machine.writeSnapshot dir ⟨padded 3 index, localPath.name, some content⟩)
    fallible (faults (.hash index)) id
    return (dir ++ [padded 3 index, localPath.name], hash content)

def snapshotOperation (faults : Faults) (dir : Option Path) (index : Nat) :
    PublicationOp → Action C H (PublicationOp × Entry H)
  | .delete pathInRepo => return (.delete pathInRepo, ⟨some "delete", some pathInRepo, none, none, none⟩)
  | .add pathInRepo localPath _ =>
    match dir with
    | none => .raise .snapshotDirMissing
    | some dir => do
      let (snapshotPath, sha) ← copySnapshot hash localFiles faults dir index localPath
      return (.add pathInRepo localPath (some snapshotPath),
        ⟨some "add", some pathInRepo, some localPath, some snapshotPath, some sha⟩)

/-- The loop of `_snapshot_operations`, from operation `index` on. -/
def snapshotAll (faults : Faults) (dir : Option Path) :
    List PublicationOp → Nat → Action C H (List PublicationOp × List (Entry H))
  | [], _ => return ([], [])
  | op :: ops, index => do
    let (op', entry) ← snapshotOperation hash localFiles faults dir index op
    let (ops', entries) ← snapshotAll faults dir ops (index + 1)
    return (op' :: ops', entry :: entries)

def PublicationOp.isAdd : PublicationOp → Bool
  | .add _ _ _ => true
  | .delete _ => false

/-- `_snapshot_operations`, with `_submission_snapshot_dir`. -/
def snapshotOperations (faults : Faults) (ops : List PublicationOp) (sequence : Nat) :
    Action C H (List PublicationOp × List (Entry H) × Option Path) := do
  if ops.any PublicationOp.isAdd then do
    fallible (faults .snapshotDir) (Machine.makeSnapshotDir (snapshotDirForSequence stateDir sequence))
    let (ops', entries) ← snapshotAll hash localFiles faults
      (some (snapshotDirForSequence stateDir sequence)) ops 0
    return (ops', entries, some (snapshotDirForSequence stateDir sequence))
  else do
    let (ops', entries) ← snapshotAll hash localFiles faults none ops 0
    return (ops', entries, none)

def cleanupFailedSubmission (faults : Faults) (stuck : SnapshotFile C → Bool) (statePath : String)
    (snapshotDir : Option Path) : Action C H Unit := do
  fallible (faults .unlink) (Machine.unlinkEnvelope statePath)
  match snapshotDir with
  | none => return ()
  | some dir =>
    if isInside dir (snapshotsRoot stateDir) then rmtree stuck dir else return ()

/-- The envelope of a new submission, and of an upgraded one. -/
def newEnvelope (sequence : Nat) (message : String) (entries : List (Entry H)) : Envelope H :=
  ⟨some queueContractVersion, some sequence, some message, some entries⟩

def persist (faults : Faults) (stuck : SnapshotFile C → Bool) (ops : List PublicationOp)
    (message : String) : Action C H (StoredUpload H) := do
  let sequence ← allocateSequence faults
  let snapped ← Prog.attempt (snapshotOperations stateDir hash localFiles faults ops sequence)
  match snapped with
  | .error error => do
    cleanupFailedSubmission stateDir faults stuck (stateName sequence)
      (some (snapshotDirForSequence stateDir sequence))
    .raise error
  | .ok (ops', entries, snapshotDir) => do
    let stored : StoredUpload H :=
      ⟨ops', message, stateName sequence, snapshotDir, entries.map Entry.sha256⟩
    let wrote ← Prog.attempt (fallible (faults .envelope) (Machine.writeEnvelope
      ⟨sequence, newEnvelope sequence message entries, .submitted stored⟩))
    match wrote with
    | .error error => do
      cleanupFailedSubmission stateDir faults stuck (stateName sequence) snapshotDir
      .raise error
    | .ok _ => return stored

def delete (faults : Faults) (stuck : SnapshotFile C → Bool) (statePath : String)
    (snapshotDir : Option Path) : Action C H Unit := do
  fallible (faults .unlink) (Machine.unlinkEnvelope statePath)
  match snapshotDir with
  | none => return ()
  | some dir =>
    if isInside dir (snapshotsRoot stateDir) then rmtree stuck dir
    else .raise (.outsideSnapshots dir)

end

/-! ## Resuming -/

variable (stateDir : Path) (hash : C → H) (localFiles : Path → Option C)

/-- The constructor of `PublicationOp`, with the checks of `__post_init__`. -/
def publicationOp (action pathInRepo : String) (localPath snapshotPath : Option Path) :
    Except UploadError PublicationOp :=
  if action = "add" then
    match localPath with
    | some localPath => .ok (.add pathInRepo localPath snapshotPath)
    | none => .error (.requiresLocalPath pathInRepo)
  else if action = "delete" then
    if localPath.isSome then .error (.carriesLocalPath pathInRepo)
    else if snapshotPath.isSome then .error (.carriesSnapshotPath pathInRepo)
    else .ok (.delete pathInRepo)
  else .error (.invalidAction action)

def requiredString (field : String) : Option String → Except UploadError String
  | some value => .ok value
  | none => .error (.fieldNotAString field)

def validateResumeSnapshot (snapshotPath : Option Path) (statePath : String) (snapshotDir : Path) :
    Except UploadError Unit :=
  match snapshotPath with
  | none => .error (.missingSnapshotPath statePath)
  | some p => if isInside p snapshotDir then .ok () else .error (.snapshotOutside p)

def resumeOperation (entry : Entry H) (statePath : String) (snapshotDir : Path) :
    Except UploadError (PublicationOp × Option H) := do
  let action ← requiredString "action" entry.action
  let pathInRepo ← requiredString "path_in_repo" entry.pathInRepo
  if action = "add" then validateResumeSnapshot entry.snapshotPath statePath snapshotDir
  else .ok ()
  let op ← publicationOp action pathInRepo entry.localPath entry.snapshotPath
  return (op, entry.sha256)

def resumeOperations (statePath : String) (snapshotDir : Path) :
    List (Entry H) → Except UploadError (List PublicationOp × List (Option H))
  | [] => .ok ([], [])
  | entry :: entries => do
    let (op, sha) ← resumeOperation entry statePath snapshotDir
    let (ops, shas) ← resumeOperations statePath snapshotDir entries
    return (op :: ops, sha :: shas)

def isLegacyEnvelope (e : Envelope H) : Bool :=
  e.contractVersion.isNone && e.message.isSome && e.ops.isSome

def currentSequence (e : Envelope H) (name : String) : Except UploadError Nat :=
  match e.sequence with
  | some n => if 1 ≤ n then .ok n.toNat else .error (.invalidSequence name)
  | none => .error (.invalidSequence name)

/-- What `_classify_pending_envelope` makes of a file. -/
inductive Pending (H : Type) where
  | legacy (payload : Envelope H)
  | current (sequence : Nat) (payload : Envelope H)

def classifyPendingEnvelope (name : String) (file : Option (Envelope H)) (seen : List Nat) :
    Except UploadError (Pending H) :=
  match file with
  | none => .error (.malformedEnvelope name)
  | some payload =>
    if isLegacyEnvelope payload then .ok (.legacy payload)
    else if payload.contractVersion = some queueContractVersion then do
      let sequence ← currentSequence payload name
      if sequence ∈ seen then .error (.duplicateSequence sequence name)
      else .ok (.current sequence payload)
    else .error (.unknownContract name)

/-- The envelopes of a start: the current ones with their numbers, the legacy ones, and the
numbers seen. -/
structure PendingEnvelopes (H : Type) where
  current : List (Nat × String × Envelope H)
  legacy : List (String × Envelope H)
  seen : List Nat

/-- The loop of `_pending_envelopes` over the sorted files. -/
def classifyAll : List (String × Option (Envelope H)) → PendingEnvelopes H →
    Except UploadError (PendingEnvelopes H)
  | [], found => .ok found
  | (name, file) :: files, found => do
    match ← classifyPendingEnvelope name file found.seen with
    | .legacy payload => classifyAll files { found with legacy := found.legacy ++ [(name, payload)] }
    | .current sequence payload =>
      classifyAll files { found with
        current := found.current ++ [(sequence, name, payload)]
        seen := found.seen ++ [sequence] }

/-- The files of the state directory in the order of their names. A file that cannot be read
counts as malformed. -/
def sortedFiles (unreadable : String → Bool) (disk : Disk C H) :
    List (String × Option (Envelope H)) :=
  (disk.envelopes.keys.insertionSort (· ≤ ·)).map (fun name =>
    (name, if unreadable name then none else (disk.envelopes.lookup name).getD none))

def pendingEnvelopes (unreadable : String → Bool) (disk : Disk C H) :
    Except UploadError (PendingEnvelopes H) :=
  classifyAll (sortedFiles unreadable disk) ⟨[], [], []⟩

/-- `_upgrade_legacy_operation`. The operation it builds is not used by its callers. -/
def upgradeLegacyOperation (faults : Faults) (dir : Path) (index : Nat) (entry : Entry H) :
    Action C H (Entry H) :=
  match entry.action, entry.pathInRepo with
  | none, _ => .raise (.fieldNotAString "action")
  | some _, none => .raise (.fieldNotAString "path_in_repo")
  | some action, some pathInRepo =>
    if action = "add" then
      match entry.localPath with
      | none => .raise (.requiresLocalPath pathInRepo)
      | some localPath => do
        let (snapshotPath, sha) ← copySnapshot hash localFiles faults dir index localPath
        return ⟨some action, some pathInRepo, some localPath, some snapshotPath, some sha⟩
    else if entry.localPath.isSome then
      .raise (.carriesLocalPath pathInRepo)
    else
      match publicationOp action pathInRepo none none with
      | .error error => .raise error
      | .ok _ => return ⟨some action, some pathInRepo, none, none, none⟩

/-- `_upgrade_legacy_operations`, from operation `index` on. -/
def upgradeLegacyOperations (faults : Faults) (dir : Path) :
    List (Entry H) → Nat → Action C H (List (Entry H))
  | [], _ => return []
  | entry :: entries, index => do
    let entry' ← upgradeLegacyOperation hash localFiles faults dir index entry
    let entries' ← upgradeLegacyOperations faults dir entries (index + 1)
    return entry' :: entries'

def upgradeLegacyEnvelope (faults : Faults) (name : String) (payload : Envelope H) :
    Action C H (Nat × Envelope H × Path) := do
  let sequence ← allocateSequence faults
  let dir := snapshotDirForSequence stateDir sequence
  fallible (faults .snapshotDir) (Machine.makeSnapshotDir dir)
  let entries ← upgradeLegacyOperations hash localFiles faults dir (payload.ops.getD []) 0
  let envelope := newEnvelope sequence (payload.message.getD "") entries
  fallible (faults .envelope) (Machine.writeEnvelope ⟨sequence, envelope, .upgraded name⟩)
  fallible (faults .unlink) (Machine.unlinkEnvelope name)
  return (sequence, envelope, dir)

/-- A failure a resume reports without raising. -/
inductive ResumeFailure where
  | legacySkipped (name : String) (error : UploadError)
  | outsideSnapshots (directory : Path)
  | validationFailed (name : String) (error : UploadError)

/-- A job found by a resume: its number, its envelope and its snapshot directory. -/
structure Job (H : Type) where
  sequence : Nat
  statePath : String
  envelope : Envelope H
  snapshotDir : Path

def removeFailedUpgrade (stuck : SnapshotFile C → Bool) (sequence : Nat) (dir : Path) :
    Action C H Unit := do
  Prog.step (Machine.unlinkEnvelope (stateName sequence))
  let s ← Prog.get
  if (s.disk.snapshots.lookup dir).isSome && isInside dir (snapshotsRoot stateDir) then
    rmtree stuck dir
  else return ()

/-- `_upgrade_pending_legacy`. `faults` gives the failures of each legacy envelope's upgrade. -/
def upgradePendingLegacy (faults : String → Faults) (stuck : SnapshotFile C → Bool) :
    List (String × Envelope H) → List Nat → List ResumeFailure → List (Job H) →
      Action C H (List (Job H) × List ResumeFailure)
  | [], _, failures, upgraded => return (upgraded, failures)
  | (name, payload) :: legacy, seen, failures, upgraded => do
    let result ← Prog.attempt (upgradeLegacyEnvelope stateDir hash localFiles (faults name) name
      payload)
    match result with
    | .error error =>
      if error.tolerated then
        upgradePendingLegacy faults stuck legacy seen
          (failures ++ [.legacySkipped name error]) upgraded
      else .raise error
    | .ok (sequence, envelope, dir) =>
      if sequence ∈ seen then do
        removeFailedUpgrade stateDir stuck sequence dir
        .raise (.legacyDuplicate sequence)
      else
        upgradePendingLegacy faults stuck legacy (seen ++ [sequence]) failures
          (upgraded ++ [⟨sequence, stateName sequence, envelope, dir⟩])

def orderedPendingJobs (current : List (Nat × String × Envelope H)) (upgraded : List (Job H)) :
    List (Job H) :=
  (current.map (fun (sequence, name, payload) =>
    (⟨sequence, name, payload, snapshotDirForSequence stateDir sequence⟩ : Job H)) ++ upgraded
    ).insertionSort (fun a b => a.sequence ≤ b.sequence)

def restorePendingJob (job : Job H) : Except UploadError (Except ResumeFailure (StoredUpload H)) :=
  if isInside job.snapshotDir (snapshotsRoot stateDir) then
    match resumeOperations job.statePath job.snapshotDir (job.envelope.ops.getD []) with
    | .error error =>
      if error.tolerated then .ok (.error (.validationFailed job.statePath error))
      else .error error
    | .ok (ops, shas) =>
      match job.envelope.message with
      | none => .error .missingMessage
      | some message => .ok (.ok ⟨ops, message, job.statePath, some job.snapshotDir, shas⟩)
  else .ok (.error (.outsideSnapshots job.snapshotDir))

/-- The restoring loop of `resume_pending`. -/
def restoreAll : List (Job H) → Except UploadError (List (StoredUpload H) × List ResumeFailure)
  | [] => .ok ([], [])
  | job :: jobs => do
    let restored ← restorePendingJob stateDir job
    let (uploads, failures) ← restoreAll jobs
    match restored with
    | .ok upload => return (upload :: uploads, failures)
    | .error failure => return (uploads, failure :: failures)

structure ResumeResult (H : Type) where
  uploads : List (StoredUpload H)
  failures : List ResumeFailure
  discoveredCount : Nat

def resumePending (unreadable : String → Bool) (faults : String → Faults)
    (stuck : SnapshotFile C → Bool) : Action C H (ResumeResult H) := do
  let s ← Prog.get
  match pendingEnvelopes unreadable s.disk with
  | .error error => .raise error
  | .ok found => do
    let (upgraded, skipped) ← upgradePendingLegacy stateDir hash localFiles faults stuck
      found.legacy found.seen [] []
    let jobs := orderedPendingJobs stateDir found.current upgraded
    match restoreAll stateDir jobs with
    | .error error => .raise error
    | .ok (uploads, failures) => return ⟨uploads, skipped ++ failures, jobs.length⟩

end OsmPolygonWikidata.UploadQueue
