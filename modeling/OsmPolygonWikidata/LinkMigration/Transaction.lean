import OsmPolygonWikidata.Basic.Durable

/-! # The journaled file replacement of the link migration

`pipeline/_link_migration/transaction.py`: a list of `(target, staged)` pairs is applied in a
fixed order, data files before `*.json` manifests, under a journal that a later call reads.

Files live in a tree of paths below the data root. A path is the list of its components and
holds either nothing or a file; directories carry no state of their own, so `mkdir` and `rmdir`
are steps that change no file. A file is some content, a journal, or the torn result of a copy
that was cut short. `atomic_write_text` and `os.replace` are single steps.

The operations inside the `try` block of a commit can raise without the process being killed.
`FaultPoint` names the places that matter: before the staged file of an entry has been moved,
after it, and at the write of the committed phase. Which of them raise is an input of the run.
Outside that block an exception changes no file, so for the files it is the same as a kill.
-/

namespace OsmPolygonWikidata.LinkMigration

open Durable

/-! ## Files -/

/-- The components of a path below the data root. -/
abbrev Path := List String

def Path.name (p : Path) : String := p.getLastD ""

def Path.parent (p : Path) : Path := p.dropLast

/-- `str(path)`: the components joined by slashes. -/
def Path.str (p : Path) : String := "/".intercalate p

/-- `path.suffix == ".json"`; a name that consists of the suffix only has no suffix. -/
def Path.isJson (p : Path) : Bool :=
  ".json".toList.isSuffixOf p.name.toList && decide (5 < p.name.toList.length)

/-- The phases a journal goes through. -/
inductive Phase where
  | prepared
  | committed
  | rolledBack
  | interrupted (index : Nat)
  deriving DecidableEq

/-- One replacement of a transaction. `none` stands for the empty hash of a missing file and for
the empty backup path of a target that did not exist. -/
structure TransactionEntry (H : Type) where
  target : Path
  staged : Path
  backup : Option Path
  existed : Bool
  originalHash : Option H
  stagedHash : Option H
  deriving DecidableEq

structure Journal (H : Type) where
  contractVersion : String
  stem : String
  phase : Phase
  entries : List (TransactionEntry H)
  deriving DecidableEq

inductive File (C H : Type) where
  | data (content : C)
  | journal (j : Journal H)
  | torn
  deriving DecidableEq

/-- The files below the data root. -/
abbrev Tree (C H : Type) := Path → Option (File C H)

variable {C H : Type}

def Tree.write (p : Path) (f : File C H) (fs : Tree C H) : Tree C H :=
  fun q => if q = p then some f else fs q

def Tree.unlink (p : Path) (fs : Tree C H) : Tree C H :=
  fun q => if q = p then none else fs q

/-- `os.replace(source, target)`, and `shutil.move` onto a free path. -/
def Tree.replace (source target : Path) (fs : Tree C H) : Tree C H :=
  fun q => if q = target then fs source else if q = source then none else fs q

inductive FaultPoint where
  | replace (index : Nat)
  | check (index : Nat)
  | commit
  deriving DecidableEq

inductive TransactionError where
  | duplicateTargets
  | stagedMissing (staged : Path)
  | stagedUnavailable (staged : Path)
  | verificationFailed (target : Path)
  | postHookMismatch (target : Path)
  | backupUnavailable (backup : Option Path)
  | rollbackVerificationFailed (target : Path)
  | invalidJournal (journal : Path)
  | stemMismatch (found expected : String)
  | recoveryStagedUnavailable (staged : Path)
  | recoveryVerificationFailed (target : Path)
  | fault (point : FaultPoint)

def transactionVersion : String := "link-migration-transaction-v1"

def journalPath (directory : Path) : Path := directory ++ ["journal.json"]

def backupPath (directory target : Path) : Path := directory ++ [target.name ++ ".backup"]

/-- The program type of this module. -/
abbrev Action (C H : Type) := Prog (Tree C H) TransactionError

variable [DecidableEq H] (sha : File C H → H)

/-- `file_content_hash`: `none` is the empty string of a missing file. -/
def fileContentHash (fs : Tree C H) (p : Path) : Option H := (fs p).map sha

def fileMatchesHash (fs : Tree C H) (p : Path) (expected : Option H) : Bool :=
  (fs p).isSome && decide (fileContentHash sha fs p = expected)

/-! ## Preparing -/

/-- The sort key of a replacement: data before manifests, then by path. -/
def orderedKey (r : Path × Path) : Nat × String := (if r.1.isJson then 1 else 0, r.1.str)

/-- The lexicographic order of two sort keys. -/
def keyLe (a b : Nat × String) : Bool := decide (a.1 < b.1) || (decide (a.1 = b.1) && decide (a.2 ≤ b.2))

def orderedReplacements (replacements : List (Path × Path)) : List (Path × Path) :=
  replacements.insertionSort (fun a b => keyLe (orderedKey a) (orderedKey b))

/-- `_prepare_entry`. The backup is a plain copy, so a kill can leave it torn. -/
def prepareEntry (directory : Path) (r : Path × Path) : Action C H (TransactionEntry H) := do
  let fs ← Prog.get
  match fs r.2 with
  | none => .raise (.stagedMissing r.2)
  | some staged =>
    match fs r.1 with
    | none =>
      return ⟨r.1, r.2, none, false, none, some (sha staged)⟩
    | some original => do
      Prog.step (Tree.write (backupPath directory r.1) .torn)
      Prog.step (Tree.write (backupPath directory r.1) original)
      return ⟨r.1, r.2, some (backupPath directory r.1), true, some (sha original),
        some (sha staged)⟩

def prepareEntries (directory : Path) :
    List (Path × Path) → Action C H (List (TransactionEntry H))
  | [] => return []
  | r :: rs => do
    let entry ← prepareEntry sha directory r
    let entries ← prepareEntries directory rs
    return entry :: entries

/-! ## Applying -/

def applySingle (entry : TransactionEntry H) : Action C H Unit := do
  let fs ← Prog.get
  if fileMatchesHash sha fs entry.target entry.stagedHash then
    return ()
  else if fileMatchesHash sha fs entry.staged entry.stagedHash then do
    Prog.step id
    Prog.step (Tree.replace entry.staged entry.target)
    let fs ← Prog.get
    if fileContentHash sha fs entry.target = entry.stagedHash then
      return ()
    else
      .raise (.verificationFailed entry.target)
  else
    .raise (.stagedUnavailable entry.staged)

/-- `_apply_entries`, starting at `index`. The exception carries `index_ref`. -/
def applyEntries (faulty : FaultPoint → Bool) :
    List (TransactionEntry H) → Nat → Prog (Tree C H) (Nat × TransactionError) Unit
  | [], _ => return ()
  | entry :: entries, index => do
    if faulty (.replace index) then
      .raise (index, .fault (.replace index))
    else do
      Prog.mapError (fun e => (index, e)) (applySingle sha entry)
      if faulty (.check index) then
        .raise (index, .fault (.check index))
      else do
        let fs ← Prog.get
        if fileContentHash sha fs entry.target = entry.stagedHash then
          applyEntries faulty entries (index + 1)
        else
          .raise (index, .postHookMismatch entry.target)

/-! ## Rolling back -/

def restoreExistingEntry (entry : TransactionEntry H) : Action C H Unit := do
  let fs ← Prog.get
  match entry.backup with
  | none => .raise (.backupUnavailable none)
  | some backup =>
    if (fs backup).isSome then do
      Prog.step (Tree.replace backup entry.target)
      let fs ← Prog.get
      if fileContentHash sha fs entry.target = entry.originalHash then
        return ()
      else
        .raise (.rollbackVerificationFailed entry.target)
    else
      .raise (.backupUnavailable (some backup))

def rollbackEntry (entry : TransactionEntry H) : Action C H Unit := do
  if entry.existed then
    restoreExistingEntry sha entry
  else do
    let fs ← Prog.get
    if (fs entry.target).isSome then
      Prog.step (Tree.unlink entry.target)
    else
      return ()

/-- The loop of `_rollback_entries`, over the entries in the order in which they are visited. -/
def rollbackAll : List (TransactionEntry H) → Action C H Unit
  | [] => return ()
  | entry :: entries => do
    rollbackEntry sha entry
    rollbackAll entries

def rollbackEntries (entries : List (TransactionEntry H)) : Action C H Unit :=
  rollbackAll sha entries.reverse

/-! ## Cleaning up -/

/-- The loop of `_cleanup`: unlink the listed files that are still there. -/
def unlinkAll : List Path → Action C H Unit
  | [] => return ()
  | p :: ps => do
    let fs ← Prog.get
    if (fs p).isSome then do
      Prog.step (Tree.unlink p)
      unlinkAll ps
    else
      unlinkAll ps

variable (iterdir : Tree C H → Path → List Path)

/-- `_cleanup`. `iterdir` is the directory order of the operating system. -/
def cleanup (directory : Path) : Action C H Unit := do
  let fs ← Prog.get
  unlinkAll (iterdir fs directory)
  Prog.step id

/-! ## Committing -/

def recordTransactionFailure (directory : Path) (journal : Journal H)
    (entries : List (TransactionEntry H)) (index : Nat) : Action C H Unit := do
  if index = 0 then do
    rollbackEntries sha entries
    Prog.step (Tree.write (journalPath directory) (.journal { journal with phase := .rolledBack }))
    cleanup iterdir directory
  else
    Prog.step (Tree.write (journalPath directory)
      (.journal { journal with phase := .interrupted index }))

/-- The `try` block of `_commit_new_transaction`. -/
def applyAndCommit (faulty : FaultPoint → Bool) (directory : Path) (journal : Journal H)
    (entries : List (TransactionEntry H)) : Prog (Tree C H) (Nat × TransactionError) Unit := do
  applyEntries sha faulty entries 0
  if faulty .commit then
    .raise (entries.length - 1, .fault .commit)
  else
    Prog.step (Tree.write (journalPath directory) (.journal { journal with phase := .committed }))

def commitNewTransaction (faulty : FaultPoint → Bool) (directory : Path) (stem : String)
    (ordered : List (Path × Path)) : Action C H Unit := do
  let entries ← prepareEntries sha directory ordered
  let journal : Journal H := ⟨transactionVersion, stem, .prepared, entries⟩
  Prog.step (Tree.write (journalPath directory) (.journal journal))
  let result ← Prog.attempt (applyAndCommit sha faulty directory journal entries)
  match result with
  | .ok _ => cleanup iterdir directory
  | .error (index, error) => do
    recordTransactionFailure sha iterdir directory journal entries index
    .raise error

/-! ## Recovering -/

def removeRecoveryBackup (entry : TransactionEntry H) : Action C H Unit := do
  let fs ← Prog.get
  match entry.backup with
  | none => return ()
  | some backup =>
    if entry.existed && (fs backup).isSome then
      Prog.step (Tree.unlink backup)
    else
      return ()

/-- `_recover_entry`: roll one entry forward, whatever the phase of the journal. -/
def recoverEntry (entry : TransactionEntry H) : Action C H Unit := do
  let fs ← Prog.get
  if fileMatchesHash sha fs entry.target entry.stagedHash then
    return ()
  else if fileMatchesHash sha fs entry.staged entry.stagedHash then do
    Prog.step id
    removeRecoveryBackup entry
    Prog.step (Tree.replace entry.staged entry.target)
    let fs ← Prog.get
    if fileContentHash sha fs entry.target = entry.stagedHash then
      return ()
    else
      .raise (.recoveryVerificationFailed entry.target)
  else
    .raise (.recoveryStagedUnavailable entry.staged)

def recoverEntries : List (TransactionEntry H) → Action C H Unit
  | [] => return ()
  | entry :: entries => do
    recoverEntry sha entry
    recoverEntries entries

/-- `_recover_directory`, with the checks of `_load_recovery_journal`. -/
def recoverDirectory (directory : Path) (stem : String) : Action C H Unit := do
  let fs ← Prog.get
  match fs (journalPath directory) with
  | none => return ()
  | some (.journal j) =>
    if j.contractVersion = transactionVersion then
      if j.stem = stem then do
        recoverEntries sha j.entries
        cleanup iterdir directory
      else
        .raise (.stemMismatch j.stem stem)
    else
      .raise (.invalidJournal (journalPath directory))
  | some _ => .raise (.invalidJournal (journalPath directory))

def commitOrderedReplacements (faulty : FaultPoint → Bool) (directory : Path) (stem : String)
    (replacements : List (Path × Path)) : Action C H Unit := do
  if replacements = [] then
    return ()
  else if (replacements.map Prod.fst).Nodup then do
    Prog.step id
    let fs ← Prog.get
    if (fs (journalPath directory)).isSome then
      recoverDirectory sha iterdir directory stem
    else
      commitNewTransaction sha iterdir faulty directory stem (orderedReplacements replacements)
  else
    .raise .duplicateTargets

end OsmPolygonWikidata.LinkMigration
