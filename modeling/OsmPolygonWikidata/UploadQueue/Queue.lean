import OsmPolygonWikidata.UploadQueue.Resuming

/-! # The upload queue and the remote repository

`hf/upload_queue.py`. A submission is persisted and appended to a queue in memory; one worker takes
the jobs from its front, checks their snapshots, uploads them and deletes their state. A job that
fails is recorded and keeps its envelope, and the worker goes on with the next one. A crash loses
the queue; a resume appends what the state directory still holds.

Nothing withdraws the envelope of a failed job when a later job writes the same path. So a job can
run over the content of a later one, but only when an earlier call about it has failed.
-/

namespace OsmPolygonWikidata.UploadQueue

open Durable
open Prog (wp wp_and wp_attempt wp_bind wp_exec wp_get wp_mono wp_pure wp_run)

variable {C H : Type}

/-! ## Jobs in memory -/

/-- The number of a job, which its envelope's name carries. -/
def StoredUpload.sequence (u : StoredUpload H) : Nat :=
  (sequenceFile asciiDigits u.statePath).getD 0

/-- The repository paths a job writes. -/
def StoredUpload.paths (u : StoredUpload H) : List String := u.ops.map PublicationOp.pathInRepo

/-- How the worker was done with a job. In `refused` and `cut` the upload raised or the process
died; the commit may have landed all the same. -/
inductive AttemptResult where
  | mismatch
  | refused (landed : Bool)
  | cut (landed : Bool)
  | cleanupFailed
  | uploaded
  deriving DecidableEq

/-- The remote repository was written. -/
def AttemptResult.writes : AttemptResult → Bool
  | .mismatch => false
  | .refused landed => landed
  | .cut landed => landed
  | .cleanupFailed => true
  | .uploaded => true

/-- The worker recorded a failure. -/
def AttemptResult.failed : AttemptResult → Bool
  | .mismatch => true
  | .refused _ => true
  | .cut _ => false
  | .cleanupFailed => true
  | .uploaded => false

/-- What has happened to the job of a number: its submission raised after its envelope was
written, or the worker took it. -/
inductive Record where
  | submissionRaised (sequence : Nat)
  | attempt (sequence : Nat) (paths : List String) (result : AttemptResult)
  deriving DecidableEq

/-- The state directory, the queue in memory, whether this process has resumed, and the record of
what has happened. -/
structure QueueState (C H : Type) where
  store : Machine C H
  jobs : List (StoredUpload H)
  resumed : Bool
  log : List Record

/-! ## The queue -/

section

variable [DecidableEq H] (digits : DecimalDigits) (stateDir : Path) (hash : C → H)

/-- The content of a snapshot. -/
def snapshotContent (disk : Disk C H) (p : Path) : Option C :=
  (disk.snapshots.lookup p.dropLast.dropLast).bind (fun files =>
    (files.find? (fun f => f.opDir = Path.name p.dropLast ∧ f.name = p.name)).bind
      SnapshotFile.content)

/-- `snapshot_mismatch` finds nothing. A file that is missing raises, which fails the job as a
mismatch does. -/
def snapshotMatches (localFiles : Path → Option C) (disk : Disk C H) :
    PublicationOp → Option H → Bool
  | .add _ localPath snapshotPath, some sha =>
    match (match snapshotPath with
      | some p => snapshotContent disk p
      | none => localFiles localPath) with
    | some content => hash content = sha
    | none => false
  | _, _ => true

def verifyJobSnapshot (localFiles : Path → Option C) (disk : Disk C H) (job : StoredUpload H) :
    Bool :=
  job.ops.length = job.opShas.length
    && (job.ops.zip job.opShas).all (fun (op, sha) => snapshotMatches hash localFiles disk op sha)

/-- What the worker meets with one job: the local files, whether a snapshot cannot be read, whether
the upload callback returns after its retries, and the steps of the clean-up that fail. -/
structure Work (C : Type) where
  localFiles : Path → Option C
  unreadable : Bool
  refused : Option Bool
  faults : Faults
  stuck : SnapshotFile C → Bool

def StoredUpload.attempt (u : StoredUpload H) (result : AttemptResult) : Record :=
  .attempt u.sequence u.paths result

/-- The worker's turn: `_process_job` inside `_worker`. -/
def processJob (w : Work C) (s : QueueState C H) : QueueState C H :=
  match s.jobs with
  | [] => s
  | job :: jobs =>
    if verifyJobSnapshot hash w.localFiles s.store.disk job && !w.unreadable then
      match w.refused with
      | some landed =>
        { s with jobs := jobs, log := s.log ++ [job.attempt (.refused landed)] }
      | none =>
        match Prog.run (delete stateDir w.faults w.stuck job.statePath job.snapshotDir)
          s.store with
        | (.ok _, store) =>
          { s with store := store, jobs := jobs, log := s.log ++ [job.attempt .uploaded] }
        | (.error _, store) =>
          { s with store := store, jobs := jobs,
                   log := s.log ++ [job.attempt .cleanupFailed] }
    else { s with jobs := jobs, log := s.log ++ [job.attempt .mismatch] }

/-- The worker's turn when the process dies in it, in front of step `n` of the clean-up or before
that. -/
def cutJob (w : Work C) (n : Nat) (s : QueueState C H) : QueueState C H :=
  match s.jobs with
  | [] => s
  | job :: _ =>
    if verifyJobSnapshot hash w.localFiles s.store.disk job && !w.unreadable then
      match w.refused with
      | some landed => { s with log := s.log ++ [job.attempt (.cut landed)] }
      | none =>
        { s with
          store := (Prog.exec (delete stateDir w.faults w.stuck job.statePath
            job.snapshotDir) n s.store).state
          log := s.log ++ [job.attempt (.cut true)] }
    else s

/-- A call of the main thread. -/
inductive Request (C : Type) where
  | submit (localFiles : Path → Option C) (faults : Faults) (stuck : SnapshotFile C → Bool)
      (ops : List PublicationOp) (message : String)
  | resume (localFiles : Path → Option C) (unreadable : String → Bool) (faults : String → Faults)
      (stuck : SnapshotFile C → Bool)

/-- `submit` and `resume_pending`. -/
def Request.perform : Request C → QueueState C H → QueueState C H
  | .submit localFiles faults stuck ops message, s =>
    match Prog.run (persist stateDir hash localFiles faults stuck ops message) s.store with
    | (.ok upload, store) => { s with store := store, jobs := s.jobs ++ [upload] }
    | (.error _, store) =>
      { s with store := store
               log := s.log ++ (store.written.drop s.store.written.length).map
                 (fun w => .submissionRaised w.sequence) }
  | .resume localFiles unreadable faults stuck, s =>
    match Prog.run (resumePending stateDir hash localFiles unreadable faults stuck) s.store with
    | (.ok result, store) =>
      { s with store := store, jobs := s.jobs ++ result.uploads, resumed := true }
    | (.error _, store) => { s with store := store }

/-- A call of the main thread that is killed in front of its step `n`. -/
def Request.cut (n : Nat) (s : QueueState C H) : Request C → QueueState C H
  | .submit localFiles faults stuck ops message =>
    { s with store := (Prog.exec (persist stateDir hash localFiles faults stuck ops message) n
      s.store).state }
  | .resume localFiles unreadable faults stuck =>
    { s with store := (Prog.exec (resumePending stateDir hash localFiles unreadable faults stuck)
      n s.store).state }

/-- What can happen. A crash can hit the main thread in a call and the worker in a job. -/
inductive Event (C : Type) where
  | request (r : Request C)
  | work (w : Work C)
  | crash (r : Option (Request C × Nat)) (w : Option (Work C × Nat))

/-- The next process, which has an empty queue. It reads the high-water file. -/
def QueueState.reopen (s : QueueState C H) : QueueState C H :=
  ⟨s.store.restart digits true, [], false, s.log⟩

def QueueState.step (s : QueueState C H) : Event C → QueueState C H
  | .request r => r.perform stateDir hash s
  | .work w => processJob stateDir hash w s
  | .crash r w =>
    let s₁ := match w with
      | some (w, n) => cutJob stateDir hash w n s
      | none => s
    let s₂ := match r with
      | some (r, n) => r.cut stateDir hash n s₁
      | none => s₁
    s₂.reopen digits

/-- A run of the queue. -/
def QueueState.run (s : QueueState C H) : List (Event C) → QueueState C H
  | [] => s
  | e :: es => (s.step digits stateDir hash e).run es

/-- The first process, on an empty state directory. -/
def QueueState.initial : QueueState C H :=
  ⟨Machine.restart digits true ⟨⟨none, ∅, ∅⟩, 1, []⟩, [], false, []⟩

/-- A process resumes once, before its first submission. -/
def Request.allowed (s : QueueState C H) : Request C → Bool
  | .submit _ _ _ _ _ => s.resumed
  | .resume _ _ _ _ => !s.resumed

def Event.allowed (s : QueueState C H) : Event C → Bool
  | .request r => r.allowed s
  | .work _ => true
  | .crash none _ => true
  | .crash (some (r, _)) _ => r.allowed s

/-- Both callers of the queue resume the pending jobs as soon as they have opened it. -/
def ResumesFirst (s : QueueState C H) : List (Event C) → Prop
  | [] => True
  | e :: es => e.allowed s = true ∧ ResumesFirst (s.step digits stateDir hash e) es

end

/-! ## Remote writes -/

/-- The number of the job that a record wrote the path for. -/
def Record.writer (p : String) : Record → Option Nat
  | .submissionRaised _ => none
  | .attempt n paths result => if p ∈ paths ∧ result.writes then some n else none

/-- The job whose write of the path was the last one. -/
def lastWriter (p : String) (log : List Record) : Option Nat :=
  (log.filterMap (Record.writer p)).getLast?

/-- The record is a failure about the job of that number. -/
def Record.failure (n : Nat) : Record → Bool
  | .submissionRaised m => m = n
  | .attempt m _ result => m = n && result.failed

/-- An earlier call about the job has failed. -/
def FailedBefore (n : Nat) (log : List Record) : Prop := ∃ r ∈ log, r.failure n = true

/-- No job is executed against a path that a later submission has written last. -/
def NeverRestores (log : List Record) : Prop :=
  ∀ pre n paths result post, log = pre ++ .attempt n paths result :: post → result ≠ .mismatch →
    ∀ p ∈ paths, ∀ m, lastWriter p pre = some m → m ≤ n

/-- The same, but for jobs of which a call has failed before. -/
def RestoresOnlyFailed (log : List Record) : Prop :=
  ∀ pre n paths result post, log = pre ++ .attempt n paths result :: post →
    ∀ p ∈ paths, ∀ m, lastWriter p pre = some m → m ≤ n ∨ FailedBefore n pre

/-! ## What the calls do to the state directory -/

section

variable {stateDir : Path} {hash : C → H} {localFiles : Path → Option C} {s s' : Machine C H}

/-- New envelopes may have been written and old ones removed. -/
structure Extends (s s' : Machine C H) : Prop where
  written : s.written <+: s'.written
  files : ∀ name file, s'.disk.envelopes.lookup name = some file →
    s.disk.envelopes.lookup name = some file
      ∨ ∃ w ∈ s'.written, w ∉ s.written ∧ name = stateName w.sequence ∧ file = some w.envelope

theorem Extends.same (he : s'.disk.envelopes = s.disk.envelopes) (hw : s'.written = s.written) :
    Extends s s' := by
  refine ⟨by rw [hw], fun name file hfile => Or.inl ?_⟩
  rw [← he]
  exact hfile

theorem Extends.trans_same {s'' : Machine C H} (h : Extends s s')
    (he : s''.disk.envelopes = s'.disk.envelopes) (hw : s''.written = s'.written) :
    Extends s s'' := by
  refine ⟨by rw [hw]; exact h.written, ?_⟩
  rw [he, hw]
  exact h.files

theorem Extends.unlinkEnvelope (h : Extends s s') (name : String) :
    Extends s (s'.unlinkEnvelope name) := by
  refine ⟨h.written, fun name' file hfile => h.files name' file ?_⟩
  by_cases hne : name' = name
  · subst hne
    have hnone : (s'.unlinkEnvelope name').disk.envelopes.lookup name' = none :=
      AList.lookup_erase _ _
    rw [hnone] at hfile
    cases hfile
  · exact (AList.lookup_erase_ne hne).symm.trans hfile

variable (faults : Faults) (stuck : SnapshotFile C → Bool) (name : String)
  (snapshotDir : Option Path)

include faults stuck name snapshotDir

theorem unlink_rmtree_extends (other : Path → Action C H Unit) (h : Extends s s')
    (hother : ∀ dir s'', Extends s s'' →
      wp (other dir) (fun _ => Extends s) (fun _ => Extends s) (Extends s) s'') :
    wp (do
      fallible (faults .unlink) (Machine.unlinkEnvelope name)
      match snapshotDir with
      | none => return ()
      | some dir => if isInside dir (snapshotsRoot stateDir) then rmtree stuck dir else other dir)
      (fun _ => Extends s) (fun _ => Extends s) (Extends s) s' := by
  rw [wp_bind]
  refine fallible_wp h ?_ (fun _ _ => h) (fun _ _ => h.unlinkEnvelope name)
  cases snapshotDir with
  | none => exact h.unlinkEnvelope name
  | some dir =>
    dsimp only
    split
    · exact wp_mono (fun _ _ hs => (h.unlinkEnvelope name).trans_same hs.envelopes hs.written)
        (fun _ _ hs => hs.elim)
        (fun _ hs => (h.unlinkEnvelope name).trans_same hs.envelopes hs.written)
        (rmtree_wp stuck dir _)
    · exact hother dir _ (h.unlinkEnvelope name)

theorem cleanupFailedSubmission_extends (h : Extends s s') :
    wp (cleanupFailedSubmission stateDir faults stuck name snapshotDir)
      (fun _ => Extends s) (fun _ => Extends s) (Extends s) s' :=
  unlink_rmtree_extends faults stuck name snapshotDir (fun _ => return ()) h (fun _ _ h => h)

theorem delete_extends (s : Machine C H) : wp (delete stateDir faults stuck name snapshotDir)
      (fun _ => Extends s) (fun _ => Extends s) (Extends s) s :=
  unlink_rmtree_extends faults stuck name snapshotDir
    (fun dir => .raise (.outsideSnapshots dir)) (Extends.same rfl rfl) (fun _ _ h => h)

theorem delete_removes (s : Machine C H) : wp (delete stateDir faults stuck name snapshotDir)
      (fun _ s' => s'.written = s.written ∧ s'.disk.envelopes.lookup name = none)
      (fun _ s' => s'.written = s.written) (fun s' => s'.written = s.written) s := by
  simp only [delete, wp_bind]
  refine fallible_wp rfl ?_ (fun _ _ => rfl) (fun _ _ => rfl)
  have hnone : (s.unlinkEnvelope name).disk.envelopes.lookup name = none := AList.lookup_erase _ _
  cases snapshotDir with
  | none => exact ⟨rfl, hnone⟩
  | some dir =>
    dsimp only
    split
    · refine wp_mono ?_ (fun _ _ hs => hs.elim) (fun _ hs => hs.written) (rmtree_wp stuck dir _)
      intro _ s' hs
      exact ⟨hs.written, by rw [hs.envelopes]; exact hnone⟩
    · rfl

omit faults stuck name snapshotDir

variable (hash localFiles) in
theorem persist_extends (faults : Faults) (stuck : SnapshotFile C → Bool)
    (ops : List PublicationOp) (message : String) (h : Sound stateDir s) :
    wp (persist stateDir hash localFiles faults stuck ops message)
      (fun _ => Extends s) (fun _ => Extends s) (Extends s) s := by
  simp only [persist, wp_bind]
  have hsame : ∀ s₁, SameFiles s s₁ → Extends s s₁ := fun _ hs => .same hs.envelopes hs.written
  refine wp_mono ?_ (fun _ _ hs => hsame _ hs.2.2) (fun _ hs => hsame _ hs.2)
    (allocateSequence_wp faults h)
  rintro sequence s₁ ⟨ha, hs₁, -⟩
  rw [wp_attempt]
  refine wp_mono ?_ ?_ (fun s₂ hs₂ => (hsame s₁ hs₁).trans_same hs₂.envelopes hs₂.written)
    (snapshotOperations_wp faults ops sequence s₁)
  · rintro ⟨ops', entries, snapshotDir⟩ s₂ ⟨hs₂, -⟩
    have h₂ : Extends s s₂ := (hsame s₁ hs₁).trans_same hs₂.envelopes hs₂.written
    have ha₂ := ha.frame hs₂
    have hw₂ : s₂.written = s.written := hs₂.written.trans hs₁.written
    set w : Written H := ⟨sequence, newEnvelope sequence message entries, .submitted
      ⟨ops', message, stateName sequence, snapshotDir, entries.map Entry.sha256⟩⟩
    have hfresh : w ∉ s.written := by
      intro hw
      have := ha₂.fresh w (by rw [hw₂]; exact hw)
      exact lt_irrefl _ this
    have h₃ : Extends s (s₂.writeEnvelope w) := by
      refine ⟨h₂.written.trans (List.prefix_append _ _), ?_⟩
      intro name file hfile
      by_cases hname : name = stateName w.sequence
      · subst hname
        have heq : (s₂.writeEnvelope w).disk.envelopes.lookup (stateName w.sequence)
            = some (some w.envelope) := AList.lookup_insert _
        rw [heq] at hfile
        exact Or.inr ⟨w, by simp [Machine.writeEnvelope], hfresh, rfl, (Option.some.inj hfile).symm⟩
      · have heq : (s₂.writeEnvelope w).disk.envelopes.lookup name
            = s₂.disk.envelopes.lookup name := AList.lookup_insert_ne hname
        rw [heq] at hfile
        refine (h₂.files name file hfile).imp id ?_
        rintro ⟨v, hv, hrest⟩
        exact ⟨v, List.mem_append_left _ hv, hrest⟩
    simp only [wp_bind, wp_attempt]
    refine fallible_wp h₂ h₃ ?_ ?_
    · exact fun _ _ => cleanupFailedSubmission_extends faults stuck _ snapshotDir h₂
    · exact fun _ _ => cleanupFailedSubmission_extends faults stuck _ snapshotDir h₃
  · intro e s₂ hs₂
    simp only [wp_bind]
    exact cleanupFailedSubmission_extends faults stuck _ _
      ((hsame s₁ hs₁).trans_same hs₂.envelopes hs₂.written)

/-- The state directory holds no legacy envelope. -/
def NoLegacy (d : Disk C H) : Prop :=
  ∀ name file, d.envelopes.lookup name = some file → IsCurrent file

variable (hash localFiles) in
theorem resumePending_reads (unreadable : String → Bool) (faults : String → Faults)
    (stuck : SnapshotFile C → Bool) (h : Sound stateDir s) (hno : NoLegacy s.disk) :
    wp (resumePending stateDir hash localFiles unreadable faults stuck)
      (fun _ s' => s' = s) (fun _ s' => s' = s) (fun _ => False) s := by
  simp only [resumePending, wp_bind, wp_get]
  have hspec := pendingEnvelopes_spec unreadable h
  cases hpending : pendingEnvelopes unreadable s.disk with
  | error e => rfl
  | ok found =>
    rw [hpending] at hspec
    obtain ⟨cur, -, -, hlegacy, -, -⟩ := hspec
    have hnone : found.legacy = [] := by
      rw [hlegacy, List.eq_nil_iff_forall_not_mem]
      intro p hp
      obtain ⟨hmem, hleg⟩ := mem_legacyFiles.mp hp
      obtain ⟨e, he, hver⟩ := hno p.1 _ (mem_sortedFiles hmem)
      cases he
      rw [not_isLegacy_of_version hver] at hleg
      cases hleg
    simp only [hnone, upgradePendingLegacy, wp_bind, wp_pure]
    split <;> rfl

variable (hash localFiles) in
theorem resumePending_sorted (unreadable : String → Bool) (faults : String → Faults)
    (stuck : SnapshotFile C → Bool) (h : Sound stateDir s) (hno : NoLegacy s.disk) :
    wp (resumePending stateDir hash localFiles unreadable faults stuck)
      (fun r s' => s' = s ∧ ∃ ws : List (Written H),
        List.Forall₂ (Written.Restored stateDir) ws r.uploads
        ∧ (ws.map Written.sequence).Pairwise (· < ·)
        ∧ ∀ w, w ∈ ws ↔ w ∈ s.written
          ∧ s.disk.envelopes.lookup (stateName w.sequence) = some (some w.envelope))
      (fun _ s' => s' = s) (fun _ => False) s := by
  refine wp_mono ?_ (fun _ _ h => h.2) (fun _ h => h.2)
    (wp_and (resumePending_wp hash localFiles unreadable faults stuck h)
      (resumePending_reads hash localFiles unreadable faults stuck h hno))
  rintro r s' ⟨⟨-, -, cur, upg, ws, done, hrs, rfl, hnodup, hupg, -, -, hcur⟩, rfl⟩
  obtain rfl : upg = [] := by
    rw [List.eq_nil_iff_forall_not_mem]
    intro w hw
    exact (hupg w hw).2 (hupg w hw).1
  rw [List.append_nil] at hrs hnodup
  set ws := cur.insertionSort (fun a b => a.sequence ≤ b.sequence) with hws
  have hperm : ws.Perm cur := List.perm_insertionSort _ _
  refine ⟨rfl, ws, hrs, ?_, fun w => hperm.mem_iff.trans (hcur w)⟩
  -- sorted by number, and no number twice
  have hsorted : ws.Pairwise (fun a b => a.sequence ≤ b.sequence) := List.pairwise_insertionSort _ _
  have hne : ws.Pairwise (· ≠ ·) := hperm.nodup_iff.mpr hnodup
  rw [List.pairwise_map]
  refine (hsorted.and hne).imp_of_mem ?_
  intro a b ha hb hab
  refine lt_of_le_of_ne hab.1 (fun heq => hab.2 ?_)
  exact h.eq_of_sequence_eq ((hcur a).mp (hperm.mem_iff.mp ha)).1
    ((hcur b).mp (hperm.mem_iff.mp hb)).1 heq

end

/-! ## The invariant -/

section

variable {stateDir : Path}

/-- The envelope of that number is in the state directory. -/
def OnDisk (store : Machine C H) (n : Nat) : Prop :=
  ∃ w ∈ store.written, w.sequence = n
    ∧ store.disk.envelopes.lookup (stateName n) = some (some w.envelope)

/-- A job of that number was taken by the worker. -/
def Attempted (n : Nat) (log : List Record) : Prop := ∃ paths result, .attempt n paths result ∈ log

/-- What holds of the state directory and the record: the worker took no job later than one that
waits and has not failed. -/
structure Passed (stateDir : Path) (store : Machine C H) (log : List Record) : Prop where
  sound : Sound stateDir store
  current : NoLegacy store.disk
  submitted : ∀ n, Attempted n log → ∃ w ∈ store.written, w.sequence = n
  waiting : ∀ m, Attempted m log → ∀ n, OnDisk store n → ¬ FailedBefore n log → m ≤ n
  restores : RestoresOnlyFailed log

/-- What holds of the queue in memory. -/
structure QueueState.Inv (stateDir : Path) (s : QueueState C H) : Prop where
  passed : Passed stateDir s.store s.log
  unresumed : s.resumed = false → s.jobs = []
  increasing : (s.jobs.map StoredUpload.sequence).Pairwise (· < ·)
  persisted : ∀ u ∈ s.jobs, ∃ w ∈ s.store.written, u.statePath = stateName w.sequence
  queued : s.resumed = true → ∀ n, OnDisk s.store n → ¬ FailedBefore n s.log →
    n ∈ s.jobs.map StoredUpload.sequence
  first : ∀ m, Attempted m s.log → ∀ u ∈ s.jobs, ¬ FailedBefore u.sequence s.log → m ≤ u.sequence

theorem StoredUpload.sequence_eq {u : StoredUpload H} {n : Nat} (h : u.statePath = stateName n) :
    u.sequence = n := by
  rw [StoredUpload.sequence, h, sequenceFile_stateName]
  rfl

theorem sequences_restored {ws : List (Written H)} {us : List (StoredUpload H)}
    (h : List.Forall₂ (Written.Restored stateDir) ws us) :
    us.map StoredUpload.sequence = ws.map Written.sequence := by
  induction h with
  | nil => rfl
  | cons hu _ ih =>
    obtain ⟨message, entries, ops, -, -, rfl⟩ := hu
    rw [List.map_cons, List.map_cons, ih, StoredUpload.sequence_eq rfl]

variable {log : List Record}

theorem FailedBefore.append {n : Nat} (h : FailedBefore n log)
    (more : List Record) : FailedBefore n (log ++ more) := by
  obtain ⟨r, hr, hf⟩ := h
  exact ⟨r, List.mem_append_left _ hr, hf⟩

theorem attempted_append {n : Nat} {log more : List Record} :
    Attempted n (log ++ more) ↔ Attempted n log ∨ Attempted n more := by
  constructor
  · rintro ⟨paths, result, h⟩
    exact (List.mem_append.mp h).imp (fun h => ⟨paths, result, h⟩) (fun h => ⟨paths, result, h⟩)
  · rintro (⟨paths, result, h⟩ | ⟨paths, result, h⟩)
    · exact ⟨paths, result, List.mem_append_left _ h⟩
    · exact ⟨paths, result, List.mem_append_right _ h⟩

theorem attempted_of_lastWriter {p : String} {m : Nat}
    (h : lastWriter p log = some m) : Attempted m log := by
  obtain ⟨r, hr, hw⟩ := List.mem_filterMap.mp (List.mem_of_getLast? h)
  cases r with
  | submissionRaised n => cases hw
  | attempt n paths result =>
    unfold Record.writer at hw
    dsimp only at hw
    split at hw
    · cases hw
      exact ⟨paths, result, hr⟩
    · cases hw

theorem not_attempted_raised {n : Nat} {ws : List (Written H)} :
    ¬ Attempted n (ws.map (fun w => Record.submissionRaised w.sequence)) := by
  rintro ⟨paths, result, h⟩
  obtain ⟨w, -, hw⟩ := List.mem_map.mp h
  cases hw

theorem RestoresOnlyFailed.append (h : RestoresOnlyFailed log) {r : Record}
    (hr : ∀ n paths result, r = .attempt n paths result →
      ∀ p ∈ paths, ∀ m, lastWriter p log = some m → m ≤ n ∨ FailedBefore n log) :
    RestoresOnlyFailed (log ++ [r]) := by
  intro pre n paths result post heq
  rcases List.eq_nil_or_concat post with rfl | ⟨post', last, rfl⟩
  · obtain ⟨rfl, hlast⟩ := List.append_inj' heq rfl
    exact hr n paths result (List.singleton_inj.mp hlast)
  · have heq' : log ++ [r] = (pre ++ .attempt n paths result :: post') ++ [last] := by
      rw [heq]
      simp
    exact h pre n paths result post' (List.append_inj' heq' rfl).1

theorem RestoresOnlyFailed.append_raised (h : RestoresOnlyFailed log) (ws : List (Written H)) :
    RestoresOnlyFailed (log ++ ws.map (fun w => .submissionRaised w.sequence)) := by
  induction ws generalizing log with
  | nil => simpa using h
  | cons w ws ih =>
    rw [List.map_cons, List.append_cons]
    refine ih (h.append ?_)
    rintro n paths result ⟨⟩

variable {store store' : Machine C H} {log : List Record}

theorem OnDisk.before {n : Nat} (h : OnDisk store' n) (hs : Sound stateDir store')
    (hx : Extends store store') : OnDisk store n
      ∨ (∃ w ∈ store'.written, w ∉ store.written ∧ w.sequence = n)
        ∧ ∀ v ∈ store.written, v.sequence < n := by
  obtain ⟨w, hw, rfl, hfile⟩ := h
  have hin : ∀ v ∈ store'.written, v ∉ store.written → ∀ u ∈ store.written,
      u.sequence < v.sequence := by
    intro v hv hnew u hu
    obtain ⟨tail, htail⟩ := id hx.written
    have hinc := hs.increasing
    rw [← htail, List.map_append, List.pairwise_append] at hinc
    refine hinc.2.2 _ (List.mem_map_of_mem hu) _ (List.mem_map_of_mem ?_)
    rw [← htail] at hv
    exact (List.mem_append.mp hv).resolve_left hnew
  by_cases hold : w ∈ store.written
  · rcases hx.files _ _ hfile with hfile' | ⟨v, hv, hnew, hname, -⟩
    · exact Or.inl ⟨w, hold, rfl, hfile'⟩
    · rw [hs.eq_of_sequence_eq hw hv (stateName_injective hname)] at hold
      exact absurd hold hnew
  · exact Or.inr ⟨⟨w, hw, hold, rfl⟩, hin w hw hold⟩

variable (h : Passed stateDir store log) (hs : Sound stateDir store') (hx : Extends store store')

include h hs hx

theorem Passed.extend : Passed stateDir store' log where
  sound := hs
  current := by
    intro name file hfile
    rcases hx.files name file hfile with hfile | ⟨w, hw, -, rfl, rfl⟩
    · exact h.current name file hfile
    · exact ⟨w.envelope, rfl, (hs.faithful w hw).version⟩
  submitted := by
    intro n hn
    obtain ⟨w, hw, hwn⟩ := h.submitted n hn
    exact ⟨w, hx.written.subset hw, hwn⟩
  waiting := by
    intro m hm n hn hfail
    rcases hn.before hs hx with hn | ⟨-, hlater⟩
    · exact h.waiting m hm n hn hfail
    · obtain ⟨w, hw, rfl⟩ := h.submitted m hm
      exact (hlater w hw).le
  restores := h.restores

theorem Passed.attempt {u : StoredUpload H} (result : AttemptResult)
    (hu : ∃ w ∈ store.written, w.sequence = u.sequence)
    (hfirst : ∀ m, Attempted m log → ¬ FailedBefore u.sequence log → m ≤ u.sequence)
    (hnext : ∀ n, OnDisk store n → ¬ FailedBefore n log → u.sequence ≤ n) :
    Passed stateDir store' (log ++ [u.attempt result]) := by
  have h' := h.extend hs hx
  have hlater : ∀ n, OnDisk store' n → ¬ FailedBefore n log → u.sequence ≤ n := by
    intro n hn hfail
    rcases hn.before hs hx with hn | ⟨-, hlater⟩
    · exact hnext n hn hfail
    · obtain ⟨w, hw, hwu⟩ := hu
      rw [← hwu]
      exact (hlater w hw).le
  have hone : ∀ n, Attempted n [u.attempt result] → n = u.sequence := by
    rintro n ⟨paths, res, hmem⟩
    cases List.mem_singleton.mp hmem
    rfl
  refine ⟨hs, h'.current, ?_, ?_, ?_⟩
  · intro n hn
    rcases attempted_append.mp hn with hn | hn
    · exact h'.submitted n hn
    · obtain ⟨w, hw, hwu⟩ := hu
      rw [hone n hn]
      exact ⟨w, hx.written.subset hw, hwu⟩
  · intro m hm n hn hfail
    have hfail' : ¬ FailedBefore n log := fun hf => hfail (hf.append _)
    rcases attempted_append.mp hm with hm | hm
    · exact h'.waiting m hm n hn hfail'
    · rw [hone m hm]
      exact hlater n hn hfail'
  · refine h.restores.append ?_
    rintro n paths res heq p - m hm
    obtain ⟨rfl, -, -⟩ : u.sequence = n ∧ u.paths = paths ∧ result = res := by
      simpa [StoredUpload.attempt] using heq
    by_cases hfail : FailedBefore u.sequence log
    · exact Or.inr hfail
    · exact Or.inl (hfirst m (attempted_of_lastWriter hm) hfail)

omit h hs hx

/-! ## Steps and runs -/

variable {s : QueueState C H}

theorem QueueState.Inv.head (h : s.Inv stateDir) {job : StoredUpload H}
    {jobs : List (StoredUpload H)} (hjobs : s.jobs = job :: jobs) :
    (∃ w ∈ s.store.written, w.sequence = job.sequence)
    ∧ (∀ m, Attempted m s.log → ¬ FailedBefore job.sequence s.log → m ≤ job.sequence)
    ∧ (∀ u ∈ jobs, job.sequence < u.sequence)
    ∧ s.resumed = true
    ∧ ∀ n, OnDisk s.store n → ¬ FailedBefore n s.log → job.sequence ≤ n := by
  have hmem : job ∈ s.jobs := by rw [hjobs]; exact List.mem_cons_self
  have hresumed : s.resumed = true := by
    by_contra hno
    have hnil := h.unresumed (Bool.eq_false_iff.mpr hno)
    rw [hjobs] at hnil
    cases hnil
  have hinc := h.increasing
  rw [hjobs, List.map_cons, List.pairwise_cons] at hinc
  refine ⟨?_, fun m hm => h.first m hm job hmem, ?_, hresumed, ?_⟩
  · obtain ⟨w, hw, hpath⟩ := h.persisted job hmem
    exact ⟨w, hw, (StoredUpload.sequence_eq hpath).symm⟩
  · exact fun u hu => hinc.1 _ (List.mem_map_of_mem hu)
  · intro n hn hfail
    have hin := h.queued hresumed n hn hfail
    rw [hjobs, List.map_cons, List.mem_cons] at hin
    rcases hin with rfl | hin
    · exact le_rfl
    · exact (hinc.1 n hin).le

theorem QueueState.Inv.attempt (h : s.Inv stateDir) {job : StoredUpload H}
    {jobs : List (StoredUpload H)} (hjobs : s.jobs = job :: jobs) (hs : Sound stateDir store')
    (hx : Extends s.store store') (hw : store'.written = s.store.written)
    {result : AttemptResult} (hdone : OnDisk store' job.sequence → result.failed = true) :
    QueueState.Inv stateDir
      { s with store := store', jobs := jobs, log := s.log ++ [job.attempt result] } := by
  obtain ⟨hu, hfirst, hlater, hresumed, hnext⟩ := h.head hjobs
  have hrest : ∀ {u}, u ∈ jobs → u ∈ s.jobs := by
    intro u hu
    rw [hjobs]
    exact List.mem_cons_of_mem _ hu
  refine ⟨h.passed.attempt hs hx result hu hfirst hnext, ?_, ?_, ?_, ?_, ?_⟩
  · intro hno
    have hno' : s.resumed = false := hno
    rw [hresumed] at hno'
    cases hno'
  · have hinc := h.increasing
    rw [hjobs, List.map_cons, List.pairwise_cons] at hinc
    exact hinc.2
  · intro u hu
    obtain ⟨w, hwm, hpath⟩ := h.persisted u (hrest hu)
    exact ⟨w, by rw [hw]; exact hwm, hpath⟩
  · intro _ n hn hfail
    have hfail' : ¬ FailedBefore n s.log := fun hf => hfail (hf.append _)
    have hold : OnDisk s.store n := by
      rcases hn.before hs hx with hn | ⟨⟨w, hwm, hnew, -⟩, -⟩
      · exact hn
      · rw [hw] at hwm
        exact absurd hwm hnew
    have hin := h.queued hresumed n hold hfail'
    rw [hjobs, List.map_cons, List.mem_cons] at hin
    rcases hin with rfl | hin
    · exfalso
      refine hfail ⟨job.attempt result, List.mem_append_right _ (List.mem_singleton_self _), ?_⟩
      simp [StoredUpload.attempt, Record.failure, hdone hn]
    · exact hin
  · intro m hm u hu hfail
    have hfail' : ¬ FailedBefore u.sequence s.log := fun hf => hfail (hf.append _)
    rcases attempted_append.mp hm with hm | ⟨paths, res, hm⟩
    · exact h.first m hm u (hrest hu) hfail'
    · cases List.mem_singleton.mp hm
      exact (hlater u hu).le

variable {digits : DecimalDigits} {hash : C → H}

theorem Request.cut_passed (r : Request C) (n : Nat) (h : Passed stateDir s.store s.log) :
    Passed stateDir (r.cut stateDir hash n s).store (r.cut stateDir hash n s).log := by
  cases r with
  | submit localFiles faults stuck ops message =>
    have hmeets := wp_exec (wp_and (persist_wp hash localFiles faults stuck ops message h.sound)
      (persist_extends hash localFiles faults stuck ops message h.sound)) n
    simp only [Request.cut]
    revert hmeets
    cases Prog.exec (persist stateDir hash localFiles faults stuck ops message) n s.store with
    | done _ store' => exact fun hm => h.extend hm.1.1 hm.2
    | raised _ store' => exact fun hm => h.extend hm.1 hm.2
    | killed store' => exact fun hm => h.extend hm.1 hm.2
  | resume localFiles unreadable faults stuck =>
    have hmeets := wp_exec
      (resumePending_reads hash localFiles unreadable faults stuck h.sound h.current) n
    simp only [Request.cut]
    revert hmeets
    cases Prog.exec (resumePending stateDir hash localFiles unreadable faults stuck) n
        s.store with
    | done _ store' =>
      rintro rfl
      exact h
    | raised _ store' =>
      rintro rfl
      exact h
    | killed store' => exact fun hm => hm.elim

theorem QueueState.inv_reopen (h : Passed stateDir s.store s.log) :
    (s.reopen digits).Inv stateDir where
  passed :=
    { sound := h.sound.restart digits true
      current := h.current
      submitted := h.submitted
      waiting := h.waiting
      restores := h.restores }
  unresumed := fun _ => rfl
  increasing := List.Pairwise.nil
  persisted := fun u hu => by cases hu
  queued := fun hr => by cases hr
  first := fun _ _ u hu => by cases hu

theorem Request.submit_inv (localFiles : Path → Option C) (faults : Faults)
    (stuck : SnapshotFile C → Bool) (ops : List PublicationOp) (message : String)
    (h : s.Inv stateDir) (hresumed : s.resumed = true) :
    ((Request.submit localFiles faults stuck ops message).perform stateDir hash s).Inv stateDir := by
  have hwp := wp_run (wp_and (persist_wp hash localFiles faults stuck ops message h.passed.sound)
    (persist_extends hash localFiles faults stuck ops message h.passed.sound))
  have hunresumed : ∀ {jobs : List (StoredUpload H)}, s.resumed = false → jobs = [] := by
    intro jobs hno
    rw [hresumed] at hno
    cases hno
  simp only [Request.perform]
  split
  · rename_i upload store' hrun
    rw [hrun] at hwp
    obtain ⟨⟨hs, w, hw, ho⟩, hx⟩ := hwp
    have hin : w ∈ store'.written := by rw [hw]; simp
    have hpath : upload.statePath = stateName w.sequence := by
      obtain ⟨_, _, _, -, -, hsub⟩ := (hs.faithful w hin).restores
      exact (hsub upload ho).2.2.1
    have hseq := StoredUpload.sequence_eq hpath
    have hlater : ∀ v ∈ s.store.written, v.sequence < w.sequence := by
      intro v hv
      have hinc := hs.increasing
      rw [hw, List.map_append, List.pairwise_append] at hinc
      exact hinc.2.2 _ (List.mem_map_of_mem hv) _ (by simp)
    refine ⟨h.passed.extend hs hx, fun hno => hunresumed hno, ?_, ?_, ?_, ?_⟩
    · rw [List.map_append, List.pairwise_append]
      refine ⟨h.increasing, List.pairwise_singleton _ _, ?_⟩
      intro n hn m hm
      obtain ⟨u, hu, rfl⟩ := List.mem_map.mp hn
      obtain ⟨v, hv, hvp⟩ := h.persisted u hu
      obtain rfl : m = upload.sequence := by simpa using hm
      rw [StoredUpload.sequence_eq hvp, hseq]
      exact hlater v hv
    · intro u hu
      rcases List.mem_append.mp hu with hu | hu
      · obtain ⟨v, hv, hvp⟩ := h.persisted u hu
        exact ⟨v, hx.written.subset hv, hvp⟩
      · rw [List.mem_singleton.mp hu]
        exact ⟨w, hin, hpath⟩
    · intro _ n hn hfail
      rw [List.map_append, List.mem_append]
      rcases hn.before hs hx with hn | ⟨⟨v, hv, hnew, rfl⟩, -⟩
      · exact Or.inl (h.queued hresumed n hn hfail)
      · right
        rw [hw] at hv
        rw [List.mem_singleton.mp ((List.mem_append.mp hv).resolve_left hnew)]
        simp [hseq]
    · intro m hm u hu hfail
      rcases List.mem_append.mp hu with hu | hu
      · exact h.first m hm u hu hfail
      · obtain ⟨v, hv, rfl⟩ := h.passed.submitted m hm
        rw [List.mem_singleton.mp hu, hseq]
        exact (hlater v hv).le
  · rename_i e store' hrun
    rw [hrun] at hwp
    obtain ⟨hs, hx⟩ := hwp
    have hp := h.passed.extend hs hx
    set raised := (store'.written.drop s.store.written.length).map
      (fun w => Record.submissionRaised w.sequence) with hraised
    have hold : ∀ m, Attempted m (s.log ++ raised) → Attempted m s.log := by
      intro m hm
      exact (attempted_append.mp hm).resolve_right not_attempted_raised
    have hunfailed : ∀ n, ¬ FailedBefore n (s.log ++ raised) → ¬ FailedBefore n s.log :=
      fun n hn hf => hn (hf.append _)
    refine ⟨⟨hs, hp.current, fun n hn => hp.submitted n (hold n hn), ?_,
      h.passed.restores.append_raised _⟩, fun hno => h.unresumed hno, h.increasing, ?_, ?_, ?_⟩
    · exact fun m hm n hn hfail => hp.waiting m (hold m hm) n hn (hunfailed n hfail)
    · intro u hu
      obtain ⟨v, hv, hvp⟩ := h.persisted u hu
      exact ⟨v, hx.written.subset hv, hvp⟩
    · intro _ n hn hfail
      rcases hn.before hs hx with hn | ⟨⟨v, hv, hnew, rfl⟩, -⟩
      · exact h.queued hresumed n hn (hunfailed n hfail)
      · -- a submission that raised and left its envelope is on record
        exfalso
        obtain ⟨tail, htail⟩ := id hx.written
        have hmem : v ∈ store'.written.drop s.store.written.length := by
          rw [← htail, List.drop_left' rfl]
          rw [← htail] at hv
          exact (List.mem_append.mp hv).resolve_left hnew
        exact hfail ⟨.submissionRaised v.sequence,
          List.mem_append_right _ (List.mem_map.mpr ⟨v, hmem, rfl⟩), by simp [Record.failure]⟩
    · exact fun m hm u hu hfail => h.first m (hold m hm) u hu (hunfailed _ hfail)

theorem Request.resume_inv (localFiles : Path → Option C) (unreadable : String → Bool)
    (faults : String → Faults) (stuck : SnapshotFile C → Bool)
    (h : s.Inv stateDir) (hresumed : s.resumed = false) :
    ((Request.resume localFiles unreadable faults stuck).perform stateDir hash s).Inv stateDir := by
  have hwp := wp_run (resumePending_sorted hash localFiles unreadable faults stuck
    h.passed.sound h.passed.current)
  simp only [Request.perform]
  split
  · rename_i r store' hrun
    rw [hrun] at hwp
    obtain ⟨rfl, ws, hrs, hsorted, hmem⟩ := hwp
    have hseq := sequences_restored hrs
    rw [h.unresumed hresumed, List.nil_append]
    have hback : ∀ u ∈ r.uploads, ∃ w ∈ ws, u.statePath = stateName w.sequence := by
      intro u hu
      obtain ⟨w, hw, message, entries, ops, -, -, rfl⟩ := exists_of_forall₂_right hrs hu
      exact ⟨w, hw, rfl⟩
    refine ⟨h.passed, (fun hno => by cases hno), by rw [hseq]; exact hsorted, ?_, ?_, ?_⟩
    · intro u hu
      obtain ⟨w, hw, hpath⟩ := hback u hu
      exact ⟨w, ((hmem w).mp hw).1, hpath⟩
    · rintro _ n ⟨w, hw, rfl, hfile⟩ -
      rw [hseq]
      exact List.mem_map_of_mem ((hmem w).mpr ⟨hw, hfile⟩)
    · intro m hm u hu hfail
      obtain ⟨w, hw, hpath⟩ := hback u hu
      have hwu := StoredUpload.sequence_eq hpath
      rw [hwu] at hfail ⊢
      exact h.passed.waiting m hm _ ⟨w, ((hmem w).mp hw).1, rfl, ((hmem w).mp hw).2⟩ hfail
  · rename_i e store' hrun
    rw [hrun] at hwp
    obtain rfl := hwp
    exact h

theorem QueueState.inv_initial : (QueueState.initial digits : QueueState C H).Inv stateDir := by
  refine ⟨⟨?_, ?_, ?_, ?_, ?_⟩, fun _ => rfl, List.Pairwise.nil, ?_, ?_, ?_⟩
  · refine OnlyLegacy.sound ?_ true
    intro name file hfile
    cases hfile
  · intro name file hfile
    cases hfile
  · rintro n ⟨paths, result, h⟩
    cases h
  · rintro m ⟨paths, result, h⟩
    cases h
  · rintro pre n paths result post heq
    cases pre <;> cases heq
  · intro u hu
    cases hu
  · intro hr
    cases hr
  · intro m _ u hu
    cases hu

variable [DecidableEq H]

theorem processJob_inv (w : Work C) (h : s.Inv stateDir) :
    (processJob stateDir hash w s).Inv stateDir := by
  unfold processJob
  split
  · exact h
  · rename_i job jobs hjobs
    have hsame : Extends s.store s.store := Extends.same rfl rfl
    split
    · split
      · exact h.attempt hjobs h.passed.sound hsame rfl (fun _ => rfl)
      · have hwp := wp_run (wp_and
          (delete_wp w.faults w.stuck job.statePath job.snapshotDir h.passed.sound)
          (wp_and (delete_extends w.faults w.stuck job.statePath job.snapshotDir s.store)
            (delete_removes w.faults w.stuck job.statePath job.snapshotDir s.store)))
        split
        · rename_i store' hrun
          rw [hrun] at hwp
          obtain ⟨hs, hx, hw, hgone⟩ := hwp
          refine h.attempt hjobs hs hx hw ?_
          -- the envelope is gone
          rintro ⟨v, hv, hvn, hfile⟩
          obtain ⟨w, -, hpath⟩ := h.persisted job (by rw [hjobs]; exact List.mem_cons_self)
          rw [hpath, ← StoredUpload.sequence_eq hpath, hfile] at hgone
          cases hgone
        · rename_i store' hrun
          rw [hrun] at hwp
          exact h.attempt hjobs hwp.1 hwp.2.1 hwp.2.2 (fun _ => rfl)
    · exact h.attempt hjobs h.passed.sound hsame rfl (fun _ => rfl)

theorem cutJob_passed (w : Work C) (n : Nat) (h : s.Inv stateDir) :
    Passed stateDir (cutJob stateDir hash w n s).store (cutJob stateDir hash w n s).log
    ∧ (cutJob stateDir hash w n s).resumed = s.resumed := by
  unfold cutJob
  split
  · exact ⟨h.passed, rfl⟩
  · rename_i job jobs hjobs
    obtain ⟨hu, hfirst, -, -, hnext⟩ := h.head hjobs
    split
    · split
      · refine ⟨?_, rfl⟩
        exact h.passed.attempt h.passed.sound (Extends.same rfl rfl) _ hu hfirst hnext
      · have hmeets := wp_exec (wp_and
          (delete_wp w.faults w.stuck job.statePath job.snapshotDir h.passed.sound)
          (delete_extends w.faults w.stuck job.statePath job.snapshotDir s.store)) n
        refine ⟨?_, rfl⟩
        dsimp only
        revert hmeets
        cases Prog.exec (delete stateDir w.faults w.stuck job.statePath job.snapshotDir) n
            s.store with
        | done _ store' => exact fun hm => h.passed.attempt hm.1 hm.2 _ hu hfirst hnext
        | raised _ store' => exact fun hm => h.passed.attempt hm.1 hm.2 _ hu hfirst hnext
        | killed store' => exact fun hm => h.passed.attempt hm.1 hm.2 _ hu hfirst hnext
    · exact ⟨h.passed, rfl⟩

/-- **One step** keeps the invariant. -/
theorem QueueState.Inv.step (h : s.Inv stateDir) {e : Event C}
    (he : e.allowed s = true) : (s.step digits stateDir hash e).Inv stateDir := by
  cases e with
  | request r =>
    cases r with
    | submit localFiles faults stuck ops message =>
      exact Request.submit_inv localFiles faults stuck ops message h he
    | resume localFiles unreadable faults stuck =>
      refine Request.resume_inv localFiles unreadable faults stuck h ?_
      simpa [Event.allowed, Request.allowed] using he
  | work w => exact processJob_inv w h
  | crash r w =>
    simp only [QueueState.step]
    apply QueueState.inv_reopen
    have hcut : Passed stateDir (match w with
        | some (w, n) => cutJob stateDir hash w n s
        | none => s).store (match w with
        | some (w, n) => cutJob stateDir hash w n s
        | none => s).log := by
      cases w with
      | none => exact h.passed
      | some w => exact (cutJob_passed w.1 w.2 h).1
    cases r with
    | none => exact hcut
    | some r => exact r.1.cut_passed r.2 hcut

/-- **A run** keeps it. -/
theorem QueueState.Inv.run (h : s.Inv stateDir) {es : List (Event C)}
    (hes : ResumesFirst digits stateDir hash s es) :
    (s.run digits stateDir hash es).Inv stateDir := by
  induction es generalizing s with
  | nil => exact h
  | cons e es ih => exact ih (h.step hes.1) hes.2

/-- **The queue restores older content only through failed jobs.** In every run of processes that
resume before they submit, numbers follow the order of the submissions, and a job meets a path
that a later submission wrote last only when an earlier call about that job has failed. -/
theorem restores_only_failed (es : List (Event C))
    (hes : ResumesFirst digits stateDir hash (QueueState.initial digits) es) :
    (((QueueState.initial digits : QueueState C H).run digits stateDir hash es).store.written.map
      Written.sequence).Pairwise (· < ·)
    ∧ RestoresOnlyFailed ((QueueState.initial digits : QueueState C H).run digits stateDir hash
      es).log := by
  have h := QueueState.inv_initial.run hes
  exact ⟨h.passed.sound.increasing, h.passed.restores⟩

end

namespace Example

/-- Publish the file `a.parquet`, which holds the number `content`. -/
def publish (content : Nat) : Event Nat :=
  .request (.submit (fun _ => some content) (fun _ => none) (fun _ => false)
    [.add "a.parquet" ["out", "a.parquet"] none] "publish")

def resume : Event Nat :=
  .request (.resume (fun _ => none) (fun _ => false) (fun _ _ => none) (fun _ => false))

/-- The worker takes a job, and its upload is refused or not. -/
def work (refused : Option Bool) : Event Nat :=
  .work ⟨fun _ => none, false, refused, fun _ => none, fun _ => false⟩

def crash : Event Nat := .crash none none

/-- What has happened after a run from an empty state directory. -/
def logOf (es : List (Event Nat)) : List Record :=
  ((QueueState.initial asciiDigits : QueueState Nat Nat).run asciiDigits stateDir id es).log

/-- The first job fails, the second writes the same path, and a new process takes up the first. -/
def failedFirst : List (Event Nat) :=
  [resume, publish 1, publish 2, work (some false), work none, crash, resume, work none]

theorem failedFirst_resumesFirst :
    ResumesFirst asciiDigits stateDir id (QueueState.initial asciiDigits) failedFirst :=
  ⟨by decide, by decide, by decide, by decide, by decide, by decide, by decide, by decide, trivial⟩

/-- The job that failed first is the one that writes last. -/
theorem failedFirst_restoresOnlyFailed : logOf failedFirst
      = [.attempt 1 ["a.parquet"] (.refused false), .attempt 2 ["a.parquet"] .uploaded,
        .attempt 1 ["a.parquet"] .uploaded]
    ∧ RestoresOnlyFailed (logOf failedFirst) :=
  ⟨by decide, (restores_only_failed failedFirst failedFirst_resumesFirst).2⟩

/-- The path goes back from the second submission to the first: through a job that failed, and,
where a process submits before it resumes, without any failure. -/
theorem older_content_restored :
    ResumesFirst asciiDigits stateDir id (QueueState.initial asciiDigits) failedFirst
    ∧ ¬ NeverRestores (logOf failedFirst)
    ∧ logOf [publish 1, crash, publish 2, work none, resume, work none]
      = [.attempt 2 ["a.parquet"] .uploaded, .attempt 1 ["a.parquet"] .uploaded]
    ∧ ¬ NeverRestores (logOf [publish 1, crash, publish 2, work none, resume, work none]) := by
  have hfailed : logOf failedFirst = [.attempt 1 ["a.parquet"] (.refused false),
      .attempt 2 ["a.parquet"] .uploaded] ++ .attempt 1 ["a.parquet"] .uploaded :: [] := by decide
  have hlate : logOf [publish 1, crash, publish 2, work none, resume, work none]
      = [.attempt 2 ["a.parquet"] .uploaded] ++ .attempt 1 ["a.parquet"] .uploaded :: [] := by
    decide
  refine ⟨failedFirst_resumesFirst, ?_, hlate, ?_⟩
  · intro h
    have := h _ _ _ _ _ hfailed (by decide) "a.parquet" (by decide) 2 (by decide)
    omega
  · intro h
    have := h _ _ _ _ _ hlate (by decide) "a.parquet" (by decide) 2 (by decide)
    omega

end Example

end OsmPolygonWikidata.UploadQueue
