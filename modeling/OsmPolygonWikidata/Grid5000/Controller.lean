import OsmPolygonWikidata.Basic.Durable

/-! # The controller of the sentence jobs on Grid5000

`grid5000/sentence_controller*.py`. A run ledger lists the batches of a run with their states. The
controller takes the batches one after the other: it uploads the inputs of a batch, submits an OAR
job (`oarsub`), asks for its status (`oarstat`) until it is over, downloads and imports the result
and publishes it. The ledger is written at several points on the way, and a later run goes on from
the ledger it finds.

The environment is a list of turns, one for each thing the controller asks of it: a remote command,
a ledger write, or a moment between two statements. A turn says which jobs have ended by then and
how the request ends: done, failed, timed out, or interrupted by a `KeyboardInterrupt`, each time
with or without having taken effect. A kill is a kill of the program (`Prog.exec`). The local
ledger is written atomically and writing it does not fail.
-/

namespace OsmPolygonWikidata.Grid5000

open Durable Prog

/-! ## The ledger -/

inductive BatchState where
  | planned
  | submitted
  | running
  | failed
  | readyToPublish
  | published
  | cancelled
  deriving DecidableEq

/-- `ACTIVE_STATES`. -/
def BatchState.active : BatchState → Bool
  | .submitted => true
  | .running => true
  | _ => false

/-- A batch of the ledger, with the fields that decide what a run does. A remote job root is given by
the attempt it belongs to. -/
structure Batch where
  state : BatchState
  attempt : Nat
  oarJobId : Option Nat
  remoteJobRoot : Option Nat
  remoteCleaned : Bool

def newBatchRecord : Batch where
  state := .planned
  attempt := 0
  oarJobId := none
  remoteJobRoot := none
  remoteCleaned := false

structure Ledger where
  batches : List Batch
  cleanupComplete : Bool

/-- `_new_ledger`, for a plan of so many batches. -/
def newLedger (count : Nat) : Ledger := ⟨List.replicate count newBatchRecord, false⟩

/-! ## The environment -/

/-- What the controller asks for. -/
inductive Op where
  | point
  | writeLedger
  | sleep
  | ensureRemoteNamespace
  | stageBatch
  | uploadTree (batch attempt : Nat)
  | policyCheck
  | oarsub (batch : Nat)
  | oarstat (job : Nat)
  | oardel (job : Nat)
  | downloadTree (batch attempt : Nat)
  | importSuccess (batch : Nat)
  | importPartial (batch : Nat)
  | assertBaseline
  | publishSentenceBatch (batch : Nat)
  | verifySentenceBatch (batch : Nat)
  | removeJobRoot (batch attempt : Nat)
  | removeRunRoot
  deriving DecidableEq

/-- Statements that run on the controller's own machine and do not fail. -/
def Op.isLocal : Op → Bool
  | .point => true
  | .writeLedger => true
  | .sleep => true
  | _ => false

/-- How a request ends. `unparsable` is a success whose output names no job. -/
inductive Reply where
  | done
  | unparsable
  | fails (took : Bool)
  | timesOut (took : Bool)
  | interrupt (took : Bool)
  deriving DecidableEq

/-- The receipt that a job has left in its result tree. -/
inductive ReceiptKind where
  | succeeded
  | failed
  | invalid

/-- One turn of the environment: the jobs that have ended by then, how the request ends, whether
`oarstat` calls a job that is over `terminated` (or `error`), and the receipt a download finds. -/
structure Turn where
  ended : Nat → Bool
  reply : Reply
  terminated : Bool
  receipt : ReceiptKind

/-- A submitted job that may still be waiting or running. -/
structure Job where
  id : Nat
  batch : Nat
  deriving DecidableEq

/-- A request, with the state that the ledger in memory gives the current batch, and for a
submission the jobs of the batch that may still be waiting or running. -/
structure Event where
  op : Op
  state : Option BatchState
  live : List Job
  reply : Reply
  deriving DecidableEq

/-- The controller with its ledger in memory and on disk, the cluster, and what is to come. -/
structure Machine where
  memory : Ledger
  disk : Ledger
  current : Option Nat
  live : List Job
  nextJob : Nat
  remoteRoots : List (Nat × Nat)
  turns : List Turn
  trace : List Event

/-- Why a statement does not return. `stopped`: the list of turns is used up. -/
inductive Exit where
  | error
  | timeout
  | interrupted
  | stopped
  deriving DecidableEq

/-- A `KeyboardInterrupt` is no `Exception`. -/
def Exit.isException : Exit → Bool
  | .error => true
  | .timeout => true
  | _ => false

abbrev Code (A : Type) := Prog Machine Exit A

def Machine.batch (m : Machine) (i : Nat) : Option Batch := m.memory.batches[i]?

def Machine.currentState (m : Machine) : Option BatchState := do
  let i ← m.current
  let b ← m.batch i
  return b.state

/-- What a request changes when it takes effect. -/
def Op.effect (op : Op) (m : Machine) : Machine :=
  match op with
  | .writeLedger => { m with disk := m.memory }
  | .uploadTree i attempt => { m with remoteRoots := (i, attempt) :: m.remoteRoots }
  | .oarsub i => { m with live := ⟨m.nextJob, i⟩ :: m.live, nextJob := m.nextJob + 1 }
  | .removeJobRoot i attempt =>
    { m with remoteRoots := m.remoteRoots.filter (fun root => root ≠ (i, attempt)) }
  | .removeRunRoot => { m with remoteRoots := [] }
  | _ => m

/-- Whether a request takes effect. -/
def Reply.took (op : Op) : Reply → Bool
  | .done => true
  | .unparsable => true
  | .fails took => op.isLocal || took
  | .timesOut took => op.isLocal || took
  | .interrupt took => took

/-- The jobs of the batch of a submission. -/
def Op.liveJobs (op : Op) (live : List Job) : List Job :=
  match op with
  | .oarsub i => live.filter (fun j => j.batch = i)
  | _ => []

/-- The state after a turn. -/
def Machine.after (m : Machine) (op : Op) (turn : Turn) : Machine :=
  let live := m.live.filter (fun j => !turn.ended j.id)
  let m' := { m with
    live := live
    turns := m.turns.tail
    trace := m.trace ++ [⟨op, m.currentState, op.liveJobs live, turn.reply⟩] }
  if turn.reply.took op then op.effect m' else m'

/-- How the request looks to the controller: it returns, or raises. -/
def Reply.exit (op : Op) : Reply → Option Exit
  | .done => none
  | .unparsable => none
  | .fails _ => if op.isLocal then none else some .error
  | .timesOut _ => if op.isLocal then none else some .timeout
  | .interrupt _ => some .interrupted

/-- One request. -/
def perform (op : Op) : Code Turn :=
  read (fun m =>
    match m.turns with
    | [] => raise .stopped
    | turn :: _ => act (fun m => m.after op turn)
        (match turn.reply.exit op with
          | none => ret turn
          | some e => raise e))

/-! ## Statements -/

/-- The batch of the `for` loop. -/
def getBatch (i : Nat) : Code Batch :=
  read (fun m =>
    match m.batch i with
    | some b => ret b
    | none => raise .error)

/-- The machine after an assignment to a batch in memory. -/
def Machine.assigned (m : Machine) (i : Nat) (f : Batch → Batch) : Machine :=
  { m with memory := { m.memory with batches := m.memory.batches.modify i f } }

/-- An assignment to the batch in memory. -/
def assign (i : Nat) (f : Batch → Batch) : Code Unit := do
  let _ ← perform .point
  step (fun m => m.assigned i f)

/-- `try: body except Exception as error: handler`. -/
def exceptException {A : Type} (body : Code A) (handler : Exit → Code A) : Code A := do
  let result ← attempt body
  match result with
  | .ok a => ret a
  | .error e => if e.isException then handler e else raise e

def writeLedger : Code Unit := do
  let _ ← perform .writeLedger

def policyCheck : Code Unit := do
  let _ ← perform .policyCheck

def cleanupRemoteJob (i : Nat) : Code Unit := do
  let b ← getBatch i
  match b.remoteJobRoot with
  | none => raise .error
  | some attempt =>
    if b.remoteCleaned then ret ()
    else do
      let _ ← perform (.removeJobRoot i attempt)
      assign i (fun b => { b with remoteCleaned := true })
      writeLedger

/-! ## Submission -/

/-- The command `oarsub` with `parse_job_id` of its output. -/
def oarsub (i : Nat) : Code Nat := do
  let m ← get
  let turn ← perform (.oarsub i)
  if turn.reply = .unparsable then raise .error else ret m.nextJob

def recordSubmissionFailure (i : Nat) (e : Exit) : Code Unit :=
  if e = .timeout then ret ()
  else do
    assign i (fun b => { b with state := .failed })
    writeLedger

/-- The `try` block of `_submit_batch`. -/
def submitRemotely (i : Nat) : Code Unit := do
  let _ ← perform .ensureRemoteNamespace
  let _ ← perform .stageBatch
  let b ← getBatch i
  let _ ← perform (.uploadTree i (b.remoteJobRoot.getD 0))
  policyCheck
  let job ← oarsub i
  assign i (fun b => { b with oarJobId := some job })
  assign i (fun b => { b with state := .running })
  writeLedger
  policyCheck

def submitBatch (i : Nat) : Code Unit := do
  assign i (fun b => { b with attempt := b.attempt + 1 })
  assign i (fun b => { b with state := .submitted })
  assign i (fun b => { b with oarJobId := none })
  assign i (fun b => { b with remoteJobRoot := some b.attempt })
  assign i (fun b => { b with remoteCleaned := false })
  writeLedger
  exceptException (submitRemotely i) (fun e => do
    recordSubmissionFailure i e
    raise .error)

/-! ## Reconciliation -/

/-- What `_query_job_status` makes of an answer. -/
inductive JobStatus where
  | unknown
  | pending
  | terminated
  | error
  deriving DecidableEq

/-- `_query_job_status`: no answer is no status. -/
def queryJobStatus (job : Nat) : Code JobStatus := do
  let answer ← attempt (do
    let turn ← perform (.oarstat job)
    let m ← get
    ret (turn, m))
  match answer with
  | .ok (turn, m) =>
    if turn.reply = .unparsable then ret .unknown
    else if m.live.any (fun j => j.id = job) then ret .pending
    else if turn.terminated then ret .terminated
    else ret .error
  | .error e => if e.isException then ret .unknown else raise e

/-- The loop of `_reconcile_batch`. Every round takes at least one turn. -/
def pollJob (job : Nat) : Nat → Code JobStatus
  | 0 => raise .stopped
  | fuel + 1 => do
    let status ← queryJobStatus job
    match status with
    | .terminated => ret .terminated
    | .error => ret .error
    | _ => do
      let _ ← perform .sleep
      pollJob job fuel

/-- `download_tree` of the result, and the receipt in it. A root that is gone cannot be read. -/
def downloadReceipt (i attempt : Nat) : Code ReceiptKind := do
  let m ← get
  let turn ← perform (.downloadTree i attempt)
  if m.remoteRoots.any (fun root => root = (i, attempt)) then ret turn.receipt else raise .error

/-- The end of a failed batch: the partial result is imported and the batch can be tried again. -/
def failBatch (i : Nat) : Code Unit := do
  let _ ← perform (.importPartial i)
  assign i (fun b => { b with state := .failed })
  writeLedger
  cleanupRemoteJob i
  raise .error

def retrieveBatch (i : Nat) (status : JobStatus) : Code Unit := do
  let b ← getBatch i
  let receipt ← downloadReceipt i (b.remoteJobRoot.getD 0)
  match receipt with
  | .invalid => failBatch i
  | .failed => failBatch i
  | .succeeded =>
    if status = .terminated then do
      let _ ← perform (.importSuccess i)
      assign i (fun b => { b with state := .readyToPublish })
      writeLedger
    else failBatch i

def reconcileBatch (i : Nat) : Code Unit := do
  let b ← getBatch i
  match b.oarJobId with
  | none => raise .error
  | some job => do
    let m ← get
    let status ← pollJob job (m.turns.length + 1)
    retrieveBatch i status

/-! ## Publication -/

def publishBatch (i : Nat) : Code Unit := do
  exceptException (do
    let _ ← perform .assertBaseline) (fun _ => do
      writeLedger
      raise .error)
  exceptException (do
    let _ ← perform (.publishSentenceBatch i)
    let _ ← perform (.verifySentenceBatch i)) (fun e => do
      assign i (fun b => { b with state := .readyToPublish })
      writeLedger
      raise e)
  assign i (fun b => { b with state := .published })
  writeLedger
  cleanupRemoteJob i

def publishIfReady (i : Nat) : Code Unit := do
  let b ← getBatch i
  if b.state = .readyToPublish then publishBatch i else ret ()

/-! ## Runs -/

def processBatch (i : Nat) : Code Unit := do
  let b ← getBatch i
  match b.state with
  | .published => ret ()
  | .readyToPublish => publishBatch i
  | .submitted => do
    reconcileBatch i
    publishIfReady i
  | .running => do
    reconcileBatch i
    publishIfReady i
  | .planned => do
    submitBatch i
    reconcileBatch i
    publishIfReady i
  | .failed => do
    submitBatch i
    reconcileBatch i
    publishIfReady i
  | .cancelled => raise .error

/-- The `for` loop of `run`. -/
def processBatches : List Nat → Code Unit
  | [] => ret ()
  | i :: rest => do
    let _ ← perform .point
    step (fun m => { m with current := some i })
    processBatch i
    processBatches rest

def finalizeRun : Code Unit := do
  let m ← get
  if m.memory.cleanupComplete then ret ()
  else do
    policyCheck
    writeLedger
    let _ ← perform .removeRunRoot
    step (fun m => { m with memory := { m.memory with cleanupComplete := true } })
    writeLedger

/-- The `try` block of `run`. -/
def runBatches : Code Unit := do
  let m ← get
  processBatches (List.range m.memory.batches.length)
  let m ← get
  if m.memory.batches.all (fun b => b.state = .published) then finalizeRun else raise .error

/-- The active batch of `_handle_interrupt` is cancelled, whether or not its job can be deleted. -/
def cancelBatch (i : Nat) (job : Option Nat) : Code Unit := do
  match job with
  | none => ret ()
  | some job => exceptException (do
      let _ ← perform (.oardel job)) (fun _ => ret ())
  assign i (fun b => { b with state := .cancelled })
  writeLedger

def handleInterrupt : Code Unit := do
  let m ← get
  match m.current with
  | none => writeLedger
  | some i =>
    match m.batch i with
    | none => writeLedger
    | some b => if b.state.active then cancelBatch i b.oarJobId else writeLedger

/-- `run`, on the ledger that the controller has loaded. -/
def runController : Code Unit := do
  let result ← attempt runBatches
  match result with
  | .ok () => ret ()
  | .error .interrupted => do
    handleInterrupt
    raise .interrupted
  | .error e => raise e

/-- A controller that starts: the ledger is loaded from disk. -/
def Machine.load (m : Machine) (turns : List Turn) : Machine :=
  { m with memory := m.disk, current := none, turns := turns }

/-- Every history of runs on one ledger. After a run that was not killed the same controller may be
run again, with the ledger it has in memory; `alive` says that there is one. -/
inductive Reached (count : Nat) : Machine → Bool → Prop where
  | start : Reached count {
      memory := newLedger count, disk := newLedger count, current := none, live := [], nextJob := 0,
      remoteRoots := [], turns := [], trace := [] } false
  | load {m : Machine} {alive : Bool} (turns : List Turn) :
      Reached count m alive → Reached count (run runController (m.load turns)).2 true
  | again {m : Machine} (turns : List Turn) :
      Reached count m true → Reached count (run runController { m with turns := turns }).2 true
  | loadKilled {m m' : Machine} {alive : Bool} (turns : List Turn) :
      Reached count m alive → Leaves runController (m.load turns) m' → Reached count m' false
  | againKilled {m m' : Machine} (turns : List Turn) :
      Reached count m true → Leaves runController { m with turns := turns } m' →
        Reached count m' false

end OsmPolygonWikidata.Grid5000
