import OsmPolygonWikidata.Basic.Durable

/-! # The transaction of a Wikidata repair

`pipeline/_wikidata_recovery/transaction.py`. The files of a repair are staged in a transaction
directory. A commit backs up the targets, writes a journal, copies the staged files over the
targets and cleans up: staged files and backups first, then the journal, then the directory. A
recovery finds the journal of an interrupted commit. It rolls back when the phase on disk is
`prepared`, and forward otherwise.

The files are those of one transaction directory and the tables outside of it. A replacement is one
step; a plain copy, as a backup is made with, is two, and what a cut copy leaves is given by `torn`.
Recovery runs before every commit, so at most one directory holds a journal, and the others are
left out.
-/

namespace OsmPolygonWikidata.WikidataRecovery

open Durable

/-! ## Files -/

/-- The phase a journal records. -/
inductive Phase where
  | prepared
  | committing
  | committed
  deriving DecidableEq

/-- One replacement. The backup of entry `i` is the file `<i>.backup`. -/
structure TransactionEntry (H : Type) where
  target : String
  staged : String
  backup : Nat
  existed : Bool
  originalHash : Option H
  stagedHash : H

structure Journal (H : Type) where
  contractVersion : String
  stem : String
  phase : Phase
  entries : List (TransactionEntry H)

/-- The tables by path, and a transaction directory: whether it exists, its staged files, its
backups, its journal, and whether it holds anything else. -/
structure Files (C H : Type) where
  tables : String → Option C
  present : Bool
  staged : String → Option C
  backups : Nat → Option C
  journal : Option (Journal H)
  others : Bool

/-- The steps of a commit that can raise: the hook, the journal's two writes, and the copies. -/
inductive FaultPoint where
  | beforeCommit
  | writeCommitting
  | copy (target : String)
  | writeCommitted
  deriving DecidableEq

/-- A step raises before its effect or after it. -/
inductive Moment where
  | before
  | after

abbrev Faults := FaultPoint → Option Moment

inductive TransactionError where
  | duplicateTargets
  | alreadyPrepared
  | stagedMissing (staged : String)
  | stagedUnavailable (staged : String)
  | verificationFailed (target : String)
  | backupUnavailable (backup : Nat)
  | rollbackVerificationFailed (target : String)
  | invalidJournal
  | directoryNotEmpty
  | fault (point : FaultPoint)

/-- The program type of this module. -/
abbrev Action (C H : Type) := Prog (Files C H) TransactionError

variable {C H : Type}

def Files.writeTable (p : String) (c : C) (s : Files C H) : Files C H :=
  { s with tables := Function.update s.tables p (some c) }

def Files.unlinkTable (p : String) (s : Files C H) : Files C H :=
  { s with tables := Function.update s.tables p none }

def Files.unlinkStaged (p : String) (s : Files C H) : Files C H :=
  { s with staged := Function.update s.staged p none }

def Files.writeBackup (i : Nat) (c : C) (s : Files C H) : Files C H :=
  { s with backups := Function.update s.backups i (some c) }

def Files.unlinkBackup (i : Nat) (s : Files C H) : Files C H :=
  { s with backups := Function.update s.backups i none }

def Files.writeJournal (journal : Journal H) (s : Files C H) : Files C H :=
  { s with journal := some journal }

def Files.unlinkJournal (s : Files C H) : Files C H := { s with journal := none }

/-- A step that can raise. -/
def fallible (faults : Faults) (point : FaultPoint) (f : Files C H → Files C H) : Action C H Unit :=
  match faults point with
  | none => Prog.step f
  | some .before => .raise (.fault point)
  | some .after => do
    Prog.step f
    .raise (.fault point)

def transactionVersion : String := "wikidata-recovery-transaction-v1"

variable [DecidableEq H] (hash : C → H) (torn : C → C)

def fileMatchesHash (file : Option C) (expected : H) : Bool :=
  match file with
  | some c => hash c = expected
  | none => false

/-! ## Preparing -/

/-- One turn of `_prepare_entries`. -/
def prepareEntry (index : Nat) (r : String × String) : Action C H (TransactionEntry H) := do
  let s ← Prog.get
  match s.staged r.2 with
  | none => .raise (.stagedMissing r.2)
  | some staged =>
    match s.tables r.1 with
    | none => return ⟨r.1, r.2, index, false, none, hash staged⟩
    | some original => do
      Prog.step (Files.writeBackup index (torn original))
      Prog.step (Files.writeBackup index original)
      return ⟨r.1, r.2, index, true, some (hash original), hash staged⟩

/-- `_prepare_entries`, from entry `index` on. -/
def prepareEntries : List (String × String) → Nat → Action C H (List (TransactionEntry H))
  | [], _ => return []
  | r :: rs, index => do
    let entry ← prepareEntry hash torn index r
    let entries ← prepareEntries rs (index + 1)
    return entry :: entries

/-- The replacements in the order of their targets. -/
def orderedReplacements (replacements : List (String × String)) : List (String × String) :=
  replacements.insertionSort (fun a b => a.1 ≤ b.1)

/-! ## Rolling forward and back -/

def rollForwardEntry (faults : Faults) (entry : TransactionEntry H) : Action C H Unit := do
  let s ← Prog.get
  if fileMatchesHash hash (s.tables entry.target) entry.stagedHash then return ()
  else
    match s.staged entry.staged with
    | none => .raise (.stagedUnavailable entry.staged)
    | some staged =>
      if hash staged = entry.stagedHash then do
        fallible faults (.copy entry.target) (Files.writeTable entry.target staged)
        let s ← Prog.get
        if fileMatchesHash hash (s.tables entry.target) entry.stagedHash then return ()
        else .raise (.verificationFailed entry.target)
      else .raise (.stagedUnavailable entry.staged)

def rollForward (faults : Faults) : List (TransactionEntry H) → Action C H Unit
  | [] => return ()
  | entry :: entries => do
    rollForwardEntry hash faults entry
    rollForward faults entries

def rollbackEntry (entry : TransactionEntry H) : Action C H Unit := do
  let s ← Prog.get
  if entry.existed then
    match s.backups entry.backup with
    | none => .raise (.backupUnavailable entry.backup)
    | some backup => do
      Prog.step (Files.writeTable entry.target backup)
      let s ← Prog.get
      if (s.tables entry.target).map hash = entry.originalHash then return ()
      else .raise (.rollbackVerificationFailed entry.target)
  else if (s.tables entry.target).isSome then Prog.step (Files.unlinkTable entry.target)
  else return ()

/-- The loop of `_rollback`, over the entries in the order in which they are visited. -/
def rollbackAll : List (TransactionEntry H) → Action C H Unit
  | [] => return ()
  | entry :: entries => do
    rollbackEntry hash entry
    rollbackAll entries

/-- `_rollback`. -/
def rollback (entries : List (TransactionEntry H)) : Action C H Unit :=
  rollbackAll hash entries.reverse

/-! ## Cleaning up, committing and recovering -/

/-- The loop of `_cleanup`. -/
def unlinkEntries : List (TransactionEntry H) → Action C H Unit
  | [] => return ()
  | entry :: entries => do
    Prog.step (Files.unlinkStaged entry.staged)
    Prog.step (Files.unlinkBackup entry.backup)
    unlinkEntries entries

/-- `_cleanup`. The directory cannot be removed while something else is in it. -/
def cleanup (entries : List (TransactionEntry H)) : Action C H Unit := do
  unlinkEntries entries
  Prog.step Files.unlinkJournal
  let s ← Prog.get
  if s.others then .raise .directoryNotEmpty
  else Prog.step (fun s => { s with present := false })

def commitJournal (faults : Faults) (journal : Journal H) : Action C H Unit := do
  if (faults .beforeCommit).isSome then .raise (.fault .beforeCommit)
  else do
    fallible faults .writeCommitting (Files.writeJournal { journal with phase := .committing })
    rollForward hash faults journal.entries
    fallible faults .writeCommitted (Files.writeJournal { journal with phase := .committed })

def commitOrRollback (faults : Faults) (journal : Journal H) : Action C H Unit := do
  let result ← Prog.attempt (commitJournal hash faults journal)
  match result with
  | .ok _ => cleanup journal.entries
  | .error error => do
    rollback hash journal.entries
    cleanup journal.entries
    .raise error

def commitReplacements (faults : Faults) (stem : String) (replacements : List (String × String)) :
    Action C H Unit := do
  if replacements = [] then return ()
  else if (replacements.map Prod.fst).Nodup then do
    Prog.step (fun s => { s with present := true })
    let s ← Prog.get
    if s.journal.isSome then .raise .alreadyPrepared
    else do
      let entries ← prepareEntries hash torn (orderedReplacements replacements) 0
      let journal : Journal H := ⟨transactionVersion, stem, .prepared, entries⟩
      Prog.step (Files.writeJournal journal)
      commitOrRollback hash faults journal
  else .raise .duplicateTargets

/-- No step of a recovery raises by itself. -/
def noFaults : Faults := fun _ => none

/-- `_recover_transaction_directory`: the stem that was recovered. -/
def recoverInterruptedTransactions : Action C H (Option String) := do
  let s ← Prog.get
  match s.journal with
  | none => return none
  | some journal =>
    if journal.contractVersion = transactionVersion then
      match journal.phase with
      | .prepared => do
        rollback hash journal.entries
        cleanup journal.entries
        return some journal.stem
      | _ => do
        rollForward hash noFaults journal.entries
        Prog.step (Files.writeJournal { journal with phase := .committed })
        cleanup journal.entries
        return some journal.stem
    else .raise .invalidJournal

end OsmPolygonWikidata.WikidataRecovery
