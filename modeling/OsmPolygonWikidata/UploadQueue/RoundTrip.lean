import OsmPolygonWikidata.UploadQueue.Resuming

/-! # From a submission to a resume

A job that `persist` has accepted is described by its envelope and by the files of its snapshot
directory. Both carry its number, so no other call of the store touches them, and a resume in a
later process finds the operations, the contents and the digests of the submission
(`persist_then_resume`).

When `persist` raises, it removes what it has written. That clean-up is best effort: files that
cannot be removed are left behind, and the snapshots are not looked at if the envelope cannot be
unlinked.
-/

namespace OsmPolygonWikidata.UploadQueue

open Durable
open Prog (wp wp_and wp_attempt wp_bind wp_exec wp_get wp_imp wp_mono wp_pure wp_returned wp_run
  wp_safe wp_step wp_trivial)

variable {C H : Type}

/-! ## Calls that spare a job -/

/-- A step that leaves the envelope and the snapshots of number `q` alone. -/
structure Spared (stateDir : Path) (q : Nat) (s s' : Machine C H) : Prop where
  envelope : s'.disk.envelopes.lookup (stateName q) = s.disk.envelopes.lookup (stateName q)
  snapshots : s'.disk.snapshots.lookup (snapshotDirForSequence stateDir q)
    = s.disk.snapshots.lookup (snapshotDirForSequence stateDir q)
  written : s.written <+: s'.written
  next : s.nextSequence ≤ s'.nextSequence

variable {stateDir : Path} {q : Nat} {s s' s'' : Machine C H}

theorem Spared.refl (s : Machine C H) : Spared stateDir q s s := ⟨rfl, rfl, List.prefix_rfl, le_rfl⟩

theorem Spared.trans (h : Spared stateDir q s s') (h' : Spared stateDir q s' s'') :
    Spared stateDir q s s'' :=
  ⟨h'.envelope.trans h.envelope, h'.snapshots.trans h.snapshots, h.written.trans h'.written,
    h.next.trans h'.next⟩

/-- However a program ends, it has left the job alone. -/
def Spares (stateDir : Path) (q : Nat) {A : Type} (p : Action C H A) (R : A → Prop)
    (s : Machine C H) : Prop :=
  wp p (fun a s' => Spared stateDir q s s' ∧ R a) (fun _ => Spared stateDir q s)
    (Spared stateDir q s) s

section

variable {A B : Type} {p : Action C H A} {R R' : A → Prop}

theorem Spares.bind {k : A → Action C H B} {R' : B → Prop} (hp : Spares stateDir q p R s)
    (hk : ∀ a s', R a → Spared stateDir q s s' → Spares stateDir q (k a) R' s') :
    Spares stateDir q (p >>= k) R' s := by
  unfold Spares
  rw [wp_bind]
  refine wp_imp ?_ hp
  rintro a s₁ ⟨h₁, hR⟩
  exact wp_mono (fun _ _ h => ⟨h₁.trans h.1, h.2⟩) (fun _ _ h => h₁.trans h)
    (fun _ h => h₁.trans h) (hk a s₁ hR h₁)

theorem spares_pure {a : A} (h : R a) : Spares stateDir q (pure a : Action C H A) R s :=
  ⟨Spared.refl s, h⟩

theorem spares_raise (e : UploadError) : Spares stateDir q (.raise e : Action C H A) R s :=
  Spared.refl s

theorem spares_step {f : Machine C H → Machine C H} (h : Spared stateDir q s (f s)) :
    Spares stateDir q (Prog.step f) (fun _ => True) s :=
  ⟨Spared.refl s, h, trivial⟩

theorem spares_fallible (fault : Option (Failure × Moment)) {f : Machine C H → Machine C H}
    (h : Spared stateDir q s (f s)) :
    Spares stateDir q (fallible fault f) (fun _ => True) s := by
  rcases fault with _ | ⟨failure, _ | _⟩
  · exact spares_step h
  · exact Spared.refl s
  · exact ⟨Spared.refl s, h⟩

theorem Spares.attempt (hp : Spares stateDir q p R s) :
    Spares stateDir q (Prog.attempt p : Action C H (Except UploadError A))
      (fun r => ∀ a, r = .ok a → R a) s := by
  unfold Spares
  rw [wp_attempt]
  refine wp_mono ?_ ?_ (fun _ h => h) hp
  · rintro a s' ⟨h, hR⟩
    refine ⟨h, ?_⟩
    rintro a' ⟨⟩
    exact hR
  · intro e s' h
    refine ⟨h, ?_⟩
    rintro a' ⟨⟩

end

/-! ## Single steps -/

section

variable {dir : Path}

theorem spared_onSnapshots {f : AList (fun _ : Path => List (SnapshotFile C)) →
    AList (fun _ : Path => List (SnapshotFile C))}
    (h : (f s.disk.snapshots).lookup (snapshotDirForSequence stateDir q)
      = s.disk.snapshots.lookup (snapshotDirForSequence stateDir q)) :
    Spared stateDir q s (s.onSnapshots f) :=
  ⟨rfl, h, List.prefix_rfl, le_rfl⟩

variable (hdir : dir ≠ snapshotDirForSequence stateDir q)

include hdir

theorem spared_makeSnapshotDir : Spared stateDir q s (s.makeSnapshotDir dir) := by
  apply spared_onSnapshots
  split
  · rfl
  · rw [AList.lookup_insert_ne hdir.symm]

theorem spared_writeSnapshot (file : SnapshotFile C) :
    Spared stateDir q s (s.writeSnapshot dir file) := by
  apply spared_onSnapshots
  rw [AList.lookup_insert_ne hdir.symm]

theorem spared_unlinkSnapshot (file : SnapshotFile C) :
    Spared stateDir q s (s.unlinkSnapshot dir file) := by
  apply spared_onSnapshots
  split
  · rw [AList.lookup_insert_ne hdir.symm]
  · rfl

theorem spared_removeSnapshotDir : Spared stateDir q s (s.removeSnapshotDir dir) := by
  apply spared_onSnapshots
  split
  · rw [AList.lookup_erase_ne hdir.symm]
  · rfl

omit hdir in
theorem spared_unlinkEnvelope {name : String} (hname : name ≠ stateName q) :
    Spared stateDir q s (s.unlinkEnvelope name) :=
  ⟨AList.lookup_erase_ne hname.symm, rfl, List.prefix_rfl, le_rfl⟩

omit hdir in
theorem spared_writeEnvelope {w : Written H} (hw : w.sequence ≠ q) :
    Spared stateDir q s (s.writeEnvelope w) :=
  ⟨AList.lookup_insert_ne (fun h => hw (stateName_injective h).symm), rfl, List.prefix_append _ _,
    le_rfl⟩

theorem rmtree_spares (stuck : SnapshotFile C → Bool) :
    Spares stateDir q (rmtree stuck dir) (fun _ => True) s := by
  have hfiles : ∀ (files : List (SnapshotFile C)) (s : Machine C H),
      Spares stateDir q (unlinkSnapshots stuck dir files) (fun _ => True) s := by
    intro files
    induction files with
    | nil => exact fun s => spares_pure trivial
    | cons file files ih =>
      intro s
      unfold unlinkSnapshots
      split
      · exact ih s
      · exact (spares_step (spared_unlinkSnapshot hdir file)).bind (fun _ s' _ _ => ih s')
  unfold rmtree Spares
  rw [wp_bind, wp_get]
  exact (hfiles _ s).bind (fun _ s' _ _ => spares_step (spared_removeSnapshotDir hdir))

end

/-! ## The calls -/

section

variable {hash : C → H} {localFiles : Path → Option C}

variable (faults : Faults)

include faults

theorem allocateSequence_spares (hq : q < s.nextSequence) :
    Spares stateDir q (allocateSequence faults) (fun sequence => sequence ≠ q) s := by
  unfold allocateSequence Spares
  rw [wp_bind, wp_get]
  have hcounter : Spared stateDir q s { s with nextSequence := s.nextSequence + 1 } :=
    ⟨rfl, rfl, List.prefix_rfl, Nat.le_succ _⟩
  refine (spares_step hcounter).bind (fun _ s₁ _ _ => ?_)
  refine (spares_fallible _ ⟨rfl, rfl, List.prefix_rfl, le_rfl⟩).bind (fun _ s₂ _ _ => ?_)
  exact spares_pure (Nat.ne_of_gt hq)

theorem copySnapshot_spares {dir : Path}
    (hdir : dir ≠ snapshotDirForSequence stateDir q) (index : Nat) (localPath : Path) :
    Spares stateDir q (copySnapshot hash localFiles faults dir index localPath) (fun _ => True) s := by
  unfold copySnapshot
  cases localFiles localPath with
  | none => exact spares_raise _
  | some content =>
    refine (spares_fallible _ (Spared.refl s)).bind (fun _ s₁ _ _ => ?_)
    refine (spares_fallible _ (spared_writeSnapshot hdir _)).bind (fun _ s₂ _ _ => ?_)
    refine (spares_fallible _ (spared_writeSnapshot hdir _)).bind (fun _ s₃ _ _ => ?_)
    refine (spares_fallible _ (Spared.refl s₃)).bind (fun _ s₄ _ _ => ?_)
    exact spares_pure trivial

theorem snapshotAll_spares {dir : Option Path}
    (hdir : ∀ d, dir = some d → d ≠ snapshotDirForSequence stateDir q) (ops : List PublicationOp)
    (index : Nat) :
    Spares stateDir q (snapshotAll hash localFiles faults dir ops index) (fun _ => True) s := by
  induction ops generalizing index s with
  | nil => exact spares_pure trivial
  | cons op ops ih =>
    have hop : Spares stateDir q (snapshotOperation hash localFiles faults dir index op)
        (fun _ => True) s := by
      cases op with
      | delete pathInRepo => exact spares_pure trivial
      | add pathInRepo localPath snapshotPath =>
        cases dir with
        | none => exact spares_raise _
        | some dir =>
          exact (copySnapshot_spares faults (hdir dir rfl) index localPath).bind
            (fun _ _ _ _ => spares_pure trivial)
    unfold snapshotAll
    refine hop.bind (fun _ s₁ _ _ => ?_)
    exact (ih (index + 1)).bind (fun _ _ _ _ => spares_pure trivial)

theorem snapshotOperations_spares (ops : List PublicationOp) {sequence : Nat}
    (hseq : sequence ≠ q) :
    Spares stateDir q (snapshotOperations stateDir hash localFiles faults ops sequence)
      (fun r => ∀ d, r.2.2 = some d → d ≠ snapshotDirForSequence stateDir q) s := by
  have hdir : snapshotDirForSequence stateDir sequence ≠ snapshotDirForSequence stateDir q :=
    fun h => hseq (snapshotDirForSequence_injective h)
  unfold snapshotOperations
  split
  · refine (spares_fallible _ (spared_makeSnapshotDir hdir)).bind (fun _ s₁ _ _ => ?_)
    refine (snapshotAll_spares faults (fun d hd => ?_) ops 0).bind
      (fun _ _ _ _ => spares_pure (fun d hd => ?_))
    · cases hd
      exact hdir
    · cases hd
      exact hdir
  · refine (snapshotAll_spares faults (fun d hd => ?_) ops 0).bind
      (fun _ _ _ _ => spares_pure (fun d hd => ?_))
    · cases hd
    · cases hd

theorem unlinkAndRemove_spares (stuck : SnapshotFile C → Bool) {name : String}
    (hname : name ≠ stateName q) {snapshotDir : Option Path}
    (hdir : ∀ d, snapshotDir = some d → d ≠ snapshotDirForSequence stateDir q) :
    Spares stateDir q (cleanupFailedSubmission stateDir faults stuck name snapshotDir)
        (fun _ => True) s
      ∧ Spares stateDir q (delete stateDir faults stuck name snapshotDir) (fun _ => True) s := by
  have hunlink : Spares stateDir q (fallible (faults .unlink) (Machine.unlinkEnvelope name))
      (fun _ => True) s := spares_fallible _ (spared_unlinkEnvelope hname)
  unfold cleanupFailedSubmission delete
  refine ⟨hunlink.bind (fun _ s₁ _ _ => ?_), hunlink.bind (fun _ s₁ _ _ => ?_)⟩
  · cases snapshotDir with
    | none => exact spares_pure trivial
    | some dir =>
      dsimp only
      split
      · exact rmtree_spares (hdir dir rfl) stuck
      · exact spares_pure trivial
  · cases snapshotDir with
    | none => exact spares_pure trivial
    | some dir =>
      dsimp only
      split
      · exact rmtree_spares (hdir dir rfl) stuck
      · exact spares_raise _

theorem persist_spares (stuck : SnapshotFile C → Bool) (ops : List PublicationOp)
    (message : String) (hq : q < s.nextSequence) :
    Spares stateDir q (persist stateDir hash localFiles faults stuck ops message)
      (fun _ => True) s := by
  unfold persist
  refine (allocateSequence_spares faults hq).bind (fun sequence s₁ hseq _ => ?_)
  have hname : stateName sequence ≠ stateName q := fun h => hseq (stateName_injective h)
  have hdir : snapshotDirForSequence stateDir sequence ≠ snapshotDirForSequence stateDir q :=
    fun h => hseq (snapshotDirForSequence_injective h)
  refine (snapshotOperations_spares faults ops hseq).attempt.bind (fun r s₂ hr _ => ?_)
  cases r with
  | error e =>
    refine (unlinkAndRemove_spares faults stuck hname (fun d hd => ?_)).1.bind
      (fun _ _ _ _ => spares_raise _)
    cases hd
    exact hdir
  | ok v =>
    obtain ⟨ops', entries, snapshotDir⟩ := v
    refine (spares_fallible _ (spared_writeEnvelope hseq)).attempt.bind (fun r' s₃ _ _ => ?_)
    cases r' with
    | error e =>
      exact (unlinkAndRemove_spares faults stuck hname (hr _ rfl)).1.bind
        (fun _ _ _ _ => spares_raise _)
    | ok _ => exact spares_pure trivial

theorem upgradeLegacyOperations_spares {dir : Path}
    (hdir : dir ≠ snapshotDirForSequence stateDir q) (entries : List (Entry H)) (index : Nat) :
    Spares stateDir q (upgradeLegacyOperations hash localFiles faults dir entries index)
      (fun _ => True) s := by
  induction entries generalizing index s with
  | nil => exact spares_pure trivial
  | cons entry entries ih =>
    have hentry : Spares stateDir q (upgradeLegacyOperation hash localFiles faults dir index entry)
        (fun _ => True) s := by
      unfold upgradeLegacyOperation
      split
      · exact spares_raise _
      · exact spares_raise _
      · split
        · split
          · exact spares_raise _
          · exact (copySnapshot_spares faults hdir index _).bind
              (fun _ _ _ _ => spares_pure trivial)
        · split
          · exact spares_raise _
          · split
            · exact spares_raise _
            · exact spares_pure trivial
    unfold upgradeLegacyOperations
    refine hentry.bind (fun _ s₁ _ _ => ?_)
    exact (ih (index + 1)).bind (fun _ _ _ _ => spares_pure trivial)

theorem upgradeLegacyEnvelope_spares {name : String} (payload : Envelope H)
    (hname : name ≠ stateName q) (hq : q < s.nextSequence) :
    Spares stateDir q (upgradeLegacyEnvelope stateDir hash localFiles faults name payload)
      (fun r => r.1 ≠ q ∧ r.2.2 ≠ snapshotDirForSequence stateDir q) s := by
  unfold upgradeLegacyEnvelope
  refine (allocateSequence_spares faults hq).bind (fun sequence s₁ hseq _ => ?_)
  have hdir : snapshotDirForSequence stateDir sequence ≠ snapshotDirForSequence stateDir q :=
    fun h => hseq (snapshotDirForSequence_injective h)
  refine (spares_fallible _ (spared_makeSnapshotDir hdir)).bind (fun _ s₂ _ _ => ?_)
  refine (upgradeLegacyOperations_spares faults hdir _ 0).bind (fun entries s₃ _ _ => ?_)
  refine (spares_fallible _ (spared_writeEnvelope hseq)).bind (fun _ s₄ _ _ => ?_)
  refine (spares_fallible _ (spared_unlinkEnvelope hname)).bind (fun _ s₅ _ _ => ?_)
  exact spares_pure ⟨hseq, hdir⟩

omit faults

theorem upgradePendingLegacy_spares (faults : String → Faults) (stuck : SnapshotFile C → Bool)
    (legacy : List (String × Envelope H)) (seen : List Nat) (failures : List ResumeFailure)
    (upgraded : List (Job H)) (hlegacy : ∀ p ∈ legacy, p.1 ≠ stateName q)
    (hq : q < s.nextSequence) :
    Spares stateDir q (upgradePendingLegacy stateDir hash localFiles faults stuck legacy seen failures
      upgraded) (fun _ => True) s := by
  induction legacy generalizing seen failures upgraded s with
  | nil => exact spares_pure trivial
  | cons head legacy ih =>
    obtain ⟨name, payload⟩ := head
    have hlegacy' : ∀ p ∈ legacy, p.1 ≠ stateName q :=
      fun p hp => hlegacy p (List.mem_cons_of_mem _ hp)
    unfold upgradePendingLegacy
    refine (upgradeLegacyEnvelope_spares (faults name) payload (hlegacy _ List.mem_cons_self)
      hq).attempt.bind (fun r s₁ hr h₁ => ?_)
    have hq₁ : q < s₁.nextSequence := hq.trans_le h₁.next
    cases r with
    | error e =>
      dsimp only
      split
      · exact ih _ _ _ hlegacy' hq₁
      · exact spares_raise _
    | ok v =>
      obtain ⟨sequence, envelope, dir⟩ := v
      obtain ⟨hseq, hdir⟩ := hr _ rfl
      dsimp only
      split
      · -- never reached, but harmless
        unfold removeFailedUpgrade
        refine Spares.bind (R := fun _ => True) ?_ (fun _ _ _ _ => spares_raise _)
        refine (spares_step (spared_unlinkEnvelope
          (fun h => hseq (stateName_injective h)))).bind (fun _ s₂ _ _ => ?_)
        unfold Spares
        rw [wp_bind, wp_get]
        split
        · exact rmtree_spares hdir stuck
        · exact spares_pure trivial
      · exact ih _ _ _ hlegacy' hq₁

theorem resumePending_spares (unreadable : String → Bool) (faults : String → Faults)
    (stuck : SnapshotFile C → Bool) (h : Sound stateDir s) {w : Written H} (hw : w ∈ s.written)
    (hthere : s.disk.envelopes.lookup (stateName w.sequence) = some (some w.envelope)) :
    Spares stateDir w.sequence (resumePending stateDir hash localFiles unreadable faults stuck)
      (fun _ => True) s := by
  unfold resumePending Spares
  rw [wp_bind, wp_get]
  have hspec := pendingEnvelopes_spec unreadable h
  cases hpending : pendingEnvelopes unreadable s.disk with
  | error e => exact spares_raise _
  | ok found =>
    rw [hpending] at hspec
    obtain ⟨cur, -, -, hlegacy, -, -⟩ := hspec
    have hnames : ∀ p ∈ found.legacy, p.1 ≠ stateName w.sequence := by
      intro p hp hname
      rw [hlegacy] at hp
      obtain ⟨hmem, hleg⟩ := mem_legacyFiles.mp hp
      have hlookup := mem_sortedFiles hmem
      rw [hname, hthere, Option.some.injEq, Option.some.injEq] at hlookup
      rw [← hlookup, not_isLegacy_of_version (h.faithful w hw).version] at hleg
      cases hleg
    refine (upgradePendingLegacy_spares faults stuck _ _ _ _ hnames (h.below w hw)).bind
      (fun r s₁ _ _ => ?_)
    dsimp only
    split
    · exact spares_raise _
    · exact spares_pure trivial

end

/-! ## The contents of the snapshots -/

/-- The content of a complete file in a snapshot directory. -/
def fileContent (files : List (SnapshotFile C)) (opDir name : String) : Option C :=
  (files.find? (fun f => f.opDir = opDir ∧ f.name = name)).bind SnapshotFile.content

/-- The content of the file at a path `<snapshot directory>/<operation directory>/<name>`. -/
def Disk.content (disk : Disk C H) (path : Path) : Option C :=
  match path.reverse with
  | name :: opDir :: dir =>
    fileContent ((disk.snapshots.lookup dir.reverse).getD []) opDir name
  | _ => none

theorem Disk.content_append (disk : Disk C H) (dir : Path) (opDir name : String) :
    disk.content (dir ++ [opDir, name])
      = fileContent ((disk.snapshots.lookup dir).getD []) opDir name := by
  have hreverse : (dir ++ [opDir, name]).reverse = name :: opDir :: dir.reverse := by simp
  have hdir : dir.reverse.reverse = dir := List.reverse_reverse dir
  simp only [Disk.content, hreverse]
  exact congrArg (fun d => fileContent ((disk.snapshots.lookup d).getD []) opDir name) hdir

theorem fileContent_write (files : List (SnapshotFile C)) (file : SnapshotFile C) :
    fileContent (dropFile file files ++ [file]) file.opDir file.name = file.content := by
  have hnone : (dropFile file files).find? (fun f => f.opDir = file.opDir ∧ f.name = file.name)
      = none := by
    rw [List.find?_eq_none]
    intro f hf
    have hdropped := (List.mem_filter.mp hf).2
    simp only [decide_eq_true_eq] at hdropped ⊢
    exact hdropped
  rw [fileContent, List.find?_append, hnone]
  simp

theorem fileContent_write_ne (files : List (SnapshotFile C)) {file : SnapshotFile C}
    {opDir : String} (hne : file.opDir ≠ opDir) (name : String) :
    fileContent (dropFile file files ++ [file]) opDir name = fileContent files opDir name := by
  have hfind : ∀ files : List (SnapshotFile C),
      (dropFile file files).find? (fun f => f.opDir = opDir ∧ f.name = name)
        = files.find? (fun f => f.opDir = opDir ∧ f.name = name) := by
    intro files
    unfold dropFile
    rw [List.find?_filter]
    congr 1
    funext f
    by_cases hf : f.opDir = opDir
    · have hne' : ¬ f.opDir = file.opDir := fun h => hne (h.symm.trans hf)
      simp [hne']
    · simp [hf]
  rw [fileContent, fileContent, List.find?_append, hfind]
  have hlast : [file].find? (fun f => f.opDir = opDir ∧ f.name = name) = none := by
    simp [hne]
  rw [hlast, Option.or_none]

/-! ## What a job is made of -/

section

variable (hash : C → H) (localFiles : Path → Option C)

/-- An operation as it was submitted, and as the queue gets it. Of an added file, the snapshot
holds the content at the time of the submission, and the digest is that of the content. -/
def SameOp (disk : Disk C H) : PublicationOp → PublicationOp → Option H → Prop
  | .delete pathInRepo, op, sha => op = .delete pathInRepo ∧ sha = none
  | .add pathInRepo localPath _, op, sha =>
    ∃ snapshotPath content, op = .add pathInRepo localPath (some snapshotPath)
      ∧ localFiles localPath = some content ∧ disk.content snapshotPath = some content
      ∧ sha = some (hash content)

/-- The operations of a job, in their order. -/
def SameOps (disk : Disk C H) : List PublicationOp → List PublicationOp → List (Option H) → Prop
  | [], ops', shas => ops' = [] ∧ shas = []
  | op :: ops, ops', shas => ∃ op' sha opsRest shasRest, ops' = op' :: opsRest
      ∧ shas = sha :: shasRest ∧ SameOp hash localFiles disk op op' sha
      ∧ SameOps disk ops opsRest shasRest

/-- **The submitted job**: its operations, contents, digests and message. -/
structure SameJob (disk : Disk C H) (ops : List PublicationOp) (message : String)
    (upload : StoredUpload H) : Prop where
  message : upload.message = message
  ops : SameOps hash localFiles disk ops upload.ops upload.opShas

/-- `SameOp` for the operation of that index, with the place of its copy. -/
def Copied (dir : Path) (files : List (SnapshotFile C)) (index : Nat) :
    PublicationOp → PublicationOp → Option H → Prop
  | .delete pathInRepo, op, sha => op = .delete pathInRepo ∧ sha = none
  | .add pathInRepo localPath _, op, sha =>
    ∃ content, op = .add pathInRepo localPath (some (dir ++ [padded 3 index, localPath.name]))
      ∧ localFiles localPath = some content
      ∧ fileContent files (padded 3 index) localPath.name = some content
      ∧ sha = some (hash content)

def CopiedAll (dir : Path) (files : List (SnapshotFile C)) :
    Nat → List PublicationOp → List PublicationOp → List (Option H) → Prop
  | _, [], ops', shas => ops' = [] ∧ shas = []
  | index, op :: ops, ops', shas => ∃ op' sha opsRest shasRest, ops' = op' :: opsRest
      ∧ shas = sha :: shasRest ∧ Copied hash localFiles dir files index op op' sha
      ∧ CopiedAll dir files (index + 1) ops opsRest shasRest

variable {hash localFiles}

theorem CopiedAll.sameOps {disk : Disk C H} {dir : Path} {files : List (SnapshotFile C)}
    (hfiles : (disk.snapshots.lookup dir).getD [] = files) {index : Nat}
    {ops ops' : List PublicationOp} {shas : List (Option H)}
    (h : CopiedAll hash localFiles dir files index ops ops' shas) :
    SameOps hash localFiles disk ops ops' shas := by
  induction ops generalizing index ops' shas with
  | nil => exact h
  | cons op ops ih =>
    obtain ⟨op', sha, opsRest, shasRest, rfl, rfl, hop, hrest⟩ := h
    refine ⟨op', sha, opsRest, shasRest, rfl, rfl, ?_, ih hrest⟩
    cases op with
    | delete pathInRepo => exact hop
    | add pathInRepo localPath snapshotPath =>
      obtain ⟨content, rfl, hlocal, hcontent, hsha⟩ := hop
      refine ⟨_, content, rfl, hlocal, ?_, hsha⟩
      rw [Disk.content_append, hfiles]
      exact hcontent

end

/-! ## A submission that returns -/

section

variable {hash : C → H} {localFiles : Path → Option C}

theorem lookup_writeSnapshot (dir : Path) (file : SnapshotFile C) (s : Machine C H) :
    (s.writeSnapshot dir file).disk.snapshots.lookup dir
      = some (dropFile file ((s.disk.snapshots.lookup dir).getD []) ++ [file]) :=
  AList.lookup_insert _

theorem padded_injective (width : Nat) : Function.Injective (padded width) := by
  intro m n h
  have hm := asciiDigits.int_padded width m
  have hlist : List.leftpad width '0' (Nat.toDigits 10 m)
      = List.leftpad width '0' (Nat.toDigits 10 n) := by
    simpa [padded] using congrArg String.toList h
  rw [hlist, asciiDigits.int_padded] at hm
  exact (Option.some.inj hm).symm

/-- The files of a directory that belong to operations before `index` are the same. -/
def Earlier (dir : Path) (index : Nat) (s s' : Machine C H) : Prop :=
  ∀ j < index, ∀ name, fileContent ((s'.disk.snapshots.lookup dir).getD []) (padded 3 j) name
      = fileContent ((s.disk.snapshots.lookup dir).getD []) (padded 3 j) name

theorem Earlier.refl (dir : Path) (index : Nat) (s : Machine C H) : Earlier dir index s s :=
  fun _ _ _ => rfl

theorem Earlier.trans {dir : Path} {index : Nat} (h : Earlier dir index s s')
    (h' : Earlier dir (index + 1) s' s'') : Earlier dir index s s'' :=
  fun j hj name => (h' j (Nat.lt_succ_of_lt hj) name).trans (h j hj name)

theorem earlier_writeSnapshot (dir : Path) (index : Nat) (name : String) (content : Option C)
    (h : Earlier dir index s s') :
    Earlier dir index s (s'.writeSnapshot dir ⟨padded 3 index, name, content⟩) := by
  intro j hj name'
  have hne : padded 3 index ≠ padded 3 j :=
    fun heq => absurd (padded_injective 3 heq) (Nat.ne_of_gt hj)
  rw [lookup_writeSnapshot, Option.getD_some, fileContent_write_ne _ hne]
  exact h j hj name'

theorem fallible_effect {fault : Option (Failure × Moment)} {f : Machine C H → Machine C H}
    {Q : Unit → Machine C H → Prop} (hQ : Q () (f s)) :
    wp (fallible fault f) Q (fun _ _ => True) (fun _ => True) s := by
  rcases fault with _ | ⟨failure, _ | _⟩
  · exact ⟨trivial, hQ⟩
  · trivial
  · exact ⟨trivial, trivial⟩

theorem fallible_written (fault : Option (Failure × Moment)) (f : Machine C H → Machine C H) :
    wp (fallible fault f) (fun _ s' => s' = f s) (fun _ _ => True) (fun _ => True) s :=
  fallible_effect rfl

theorem copySnapshot_content (faults : Faults) (dir : Path) (index : Nat) (localPath : Path) :
    wp (copySnapshot hash localFiles faults dir index localPath)
      (fun r s' => Earlier dir index s s' ∧ r.1 = dir ++ [padded 3 index, localPath.name]
        ∧ ∃ content, localFiles localPath = some content
          ∧ fileContent ((s'.disk.snapshots.lookup dir).getD []) (padded 3 index) localPath.name
            = some content
          ∧ r.2 = hash content)
      (fun _ _ => True) (fun _ => True) s := by
  unfold copySnapshot
  cases hlocal : localFiles localPath with
  | none => trivial
  | some content =>
    simp only [wp_bind, wp_pure]
    refine fallible_effect (fallible_effect (fallible_effect (fallible_effect ?_)))
    refine ⟨?_, trivial, content, rfl, ?_, rfl⟩
    · exact earlier_writeSnapshot dir index _ _
        (earlier_writeSnapshot dir index _ _ (Earlier.refl dir index s))
    · show fileContent ((AList.lookup dir (Machine.writeSnapshot dir _ _).disk.snapshots).getD
        []) (padded 3 index) localPath.name = some content
      rw [lookup_writeSnapshot, Option.getD_some]
      exact fileContent_write _ ⟨padded 3 index, localPath.name, some content⟩

theorem snapshotAll_content (faults : Faults) {dir : Option Path} {snapshotDir : Path}
    (hdir : ∀ d, dir = some d → d = snapshotDir) (ops : List PublicationOp) (index : Nat) :
    wp (snapshotAll hash localFiles faults dir ops index)
      (fun r s' => Earlier snapshotDir index s s'
        ∧ CopiedAll hash localFiles snapshotDir ((s'.disk.snapshots.lookup snapshotDir).getD [])
          index ops r.1 (r.2.map Entry.sha256))
      (fun _ _ => True) (fun _ => True) s := by
  induction ops generalizing index s with
  | nil => exact ⟨Earlier.refl _ _ s, rfl, rfl⟩
  | cons op ops ih =>
    have hop : wp (snapshotOperation hash localFiles faults dir index op)
        (fun r s' => Earlier snapshotDir index s s' ∧ Copied hash localFiles snapshotDir
            ((s'.disk.snapshots.lookup snapshotDir).getD []) index op r.1 r.2.sha256)
        (fun _ _ => True) (fun _ => True) s := by
      cases op with
      | delete pathInRepo => exact ⟨Earlier.refl _ _ s, rfl, rfl⟩
      | add pathInRepo localPath snapshotPath =>
        cases dir with
        | none => trivial
        | some dir =>
          obtain rfl := hdir dir rfl
          simp only [snapshotOperation, wp_bind, wp_pure]
          refine wp_imp ?_ (copySnapshot_content faults dir index localPath)
          rintro ⟨path, sha⟩ s₁ ⟨hearlier, hpath, content, hlocal, hcontent, hsha⟩
          dsimp only at hpath hsha
          refine ⟨hearlier, content, ?_, hlocal, hcontent, ?_⟩
          · rw [hpath]
          · rw [hsha]
    simp only [snapshotAll, wp_bind]
    refine wp_imp ?_ hop
    rintro ⟨op', entry⟩ s₁ ⟨hearlier, hcopied⟩
    refine wp_imp ?_ (ih (index + 1))
    rintro ⟨ops', entries⟩ s₂ ⟨hearlier', hcopied'⟩
    refine ⟨hearlier.trans hearlier', op', entry.sha256, ops', entries.map Entry.sha256, rfl, rfl,
      ?_, hcopied'⟩
    -- the copies that follow leave this one alone
    cases op with
    | delete pathInRepo => exact hcopied
    | add pathInRepo localPath snapshotPath =>
      obtain ⟨content, hop', hlocal, hcontent, hsha⟩ := hcopied
      refine ⟨content, hop', hlocal, ?_, hsha⟩
      rw [hearlier' index (Nat.lt_succ_self index)]
      exact hcontent

theorem allocateSequence_files (faults : Faults) : wp (allocateSequence faults)
      (fun sequence s' => sequence = s.nextSequence ∧ s'.disk.envelopes = s.disk.envelopes
        ∧ s'.disk.snapshots = s.disk.snapshots)
      (fun _ s' => s'.disk.envelopes = s.disk.envelopes ∧ s'.disk.snapshots = s.disk.snapshots)
      (fun _ => True) s := by
  simp only [allocateSequence, wp_bind, wp_get, wp_step, wp_pure]
  refine ⟨trivial, ?_⟩
  exact fallible_wp trivial ⟨trivial, rfl, rfl⟩ (fun _ _ => ⟨rfl, rfl⟩) (fun _ _ => ⟨rfl, rfl⟩)

/-- What a submission leaves: an envelope, and the contents that its operations refer to. -/
structure Submitted (hash : C → H) (localFiles : Path → Option C) (stateDir : Path)
    (ops : List PublicationOp) (message : String) (upload : StoredUpload H) (w : Written H)
    (s : Machine C H) : Prop where
  mem : w ∈ s.written
  origin : w.origin = .submitted upload
  there : s.disk.envelopes.lookup (stateName w.sequence) = some (some w.envelope)
  message : upload.message = message
  copied : CopiedAll hash localFiles (snapshotDirForSequence stateDir w.sequence)
    ((s.disk.snapshots.lookup (snapshotDirForSequence stateDir w.sequence)).getD []) 0 ops upload.ops
    upload.opShas

theorem Submitted.sameJob {ops : List PublicationOp} {message : String} {upload : StoredUpload H}
    {w : Written H} (h : Submitted hash localFiles stateDir ops message upload w s) :
    SameJob hash localFiles s.disk ops message upload :=
  ⟨h.message, h.copied.sameOps rfl⟩

theorem Submitted.spared {ops : List PublicationOp} {message : String} {upload : StoredUpload H}
    {w : Written H} (h : Submitted hash localFiles stateDir ops message upload w s)
    (hs : Spared stateDir w.sequence s s') :
    Submitted hash localFiles stateDir ops message upload w s' where
  mem := hs.written.subset h.mem
  origin := h.origin
  there := hs.envelope.trans h.there
  message := h.message
  copied := by
    rw [hs.snapshots]
    exact h.copied

theorem persist_content (faults : Faults) (stuck : SnapshotFile C → Bool)
    (ops : List PublicationOp) (message : String) :
    wp (persist stateDir hash localFiles faults stuck ops message)
      (fun upload s' => ∃ w, w.sequence = s.nextSequence
        ∧ Submitted hash localFiles stateDir ops message upload w s')
      (fun _ _ => True) (fun _ => True) s := by
  simp only [persist, wp_bind]
  refine wp_returned ?_ (allocateSequence_files faults)
  rintro sequence s₁ ⟨hsequence, -⟩
  have hcopied : wp (snapshotOperations stateDir hash localFiles faults ops sequence)
      (fun r s' => CopiedAll hash localFiles (snapshotDirForSequence stateDir sequence)
        ((s'.disk.snapshots.lookup (snapshotDirForSequence stateDir sequence)).getD []) 0 ops r.1
        (r.2.1.map Entry.sha256)) (fun _ _ => True) (fun _ => True) s₁ := by
    unfold snapshotOperations
    split
    · simp only [wp_bind, wp_pure]
      refine fallible_effect ?_
      refine wp_imp (fun _ _ h => h.2) (snapshotAll_content faults ?_ ops 0)
      rintro d ⟨⟩
      rfl
    · simp only [wp_bind, wp_pure]
      refine wp_imp (fun _ _ h => h.2) (snapshotAll_content faults ?_ ops 0)
      rintro d ⟨⟩
  rw [wp_attempt]
  refine wp_mono ?_ ?_ (fun _ h => h) hcopied
  · rintro ⟨ops', entries, snapshotDir⟩ s₂ hops
    simp only [wp_bind, wp_attempt]
    refine wp_mono ?_ ?_ (fun _ h => h) (fallible_written (s := s₂) _ _)
    · rintro _ s₃ rfl
      refine ⟨_, hsequence, ?_, rfl, AList.lookup_insert _, rfl, hops⟩
      exact List.mem_append_right _ (List.mem_singleton_self _)
    · intro e s₃ _
      refine wp_imp (fun _ _ _ => trivial) (wp_trivial _ s₃)
  · intro e s₂ _
    simp only [wp_bind]
    exact wp_imp (fun _ _ _ => trivial) (wp_trivial _ s₂)

end

/-! ## Later processes -/

section

variable {digits : DecimalDigits} {hash : C → H} {localFiles : Path → Option C}

/-- The call does not delete the job of number `q`. -/
def Call.KeepsJob (stateDir : Path) (q : Nat) : Call C → Prop
  | .persist _ _ _ _ _ => True
  | .delete _ _ statePath snapshotDir =>
    statePath ≠ stateName q ∧ snapshotDir ≠ some (snapshotDirForSequence stateDir q)
  | .resume _ _ _ _ => True

/-- The states that calls and restarts reach from `s` which do not delete the job of number `q`.
Each call may be killed in front of any of its steps. -/
inductive LaterThan (digits : DecimalDigits) (stateDir : Path) (hash : C → H) (q : Nat)
    (s : Machine C H) : Machine C H → Prop where
  | now : LaterThan digits stateDir hash q s s
  | call {s' : Machine C H} (c : Call C) (n : Nat) (readable : Bool)
      (h : LaterThan digits stateDir hash q s s') (hc : c.KeepsJob stateDir q) :
      LaterThan digits stateDir hash q s
        (nextMachine digits readable (Prog.exec (c.program stateDir hash) n s'))
  | restart {s' : Machine C H} (readable : Bool) (h : LaterThan digits stateDir hash q s s') :
      LaterThan digits stateDir hash q s (s'.restart digits readable)

variable {w : Written H} {ops : List PublicationOp} {message : String} {upload : StoredUpload H}

variable (hash) in
theorem Call.program_spares (h : Sound stateDir s) (hw : w ∈ s.written)
    (hthere : s.disk.envelopes.lookup (stateName w.sequence) = some (some w.envelope)) (c : Call C)
    (hc : c.KeepsJob stateDir w.sequence) :
    Spares stateDir w.sequence (c.program stateDir hash) (fun _ => True) s := by
  cases c with
  | persist localFiles faults stuck ops message =>
    exact (persist_spares faults stuck ops message (h.below w hw)).bind
      (fun _ _ _ _ => spares_pure trivial)
  | delete faults stuck statePath snapshotDir =>
    refine (unlinkAndRemove_spares faults stuck hc.1 ?_).2
    rintro d rfl rfl
    exact hc.2 rfl
  | resume localFiles unreadable faults stuck =>
    exact (resumePending_spares unreadable faults stuck h hw hthere).bind
      (fun _ _ _ _ => spares_pure trivial)

theorem Submitted.restart (digits : DecimalDigits) (readable : Bool) (hsound : Sound stateDir s)
    (h : Submitted hash localFiles stateDir ops message upload w s) :
    Submitted hash localFiles stateDir ops message upload w (s.restart digits readable) :=
  ⟨(hsound.record digits readable).2.1 w h.mem (Option.isSome_iff_exists.mpr ⟨_, h.there⟩),
    h.origin, h.there, h.message, h.copied⟩

theorem LaterThan.submitted {q : Nat} (hq : w.sequence = q) (hsound : Sound stateDir s)
    (h : Submitted hash localFiles stateDir ops message upload w s)
    (hlater : LaterThan digits stateDir hash q s s') :
    Sound stateDir s' ∧ Submitted hash localFiles stateDir ops message upload w s' := by
  induction hlater with
  | now => exact ⟨hsound, h⟩
  | @call s' c n readable _ hc ih =>
    obtain ⟨hsound', h'⟩ := ih
    rw [← hq] at hc
    have hspares := Call.program_spares hash hsound' h'.mem h'.there c hc
    have hmeets := wp_exec (wp_and (c.program_wp hash hsound') hspares) n
    revert hmeets
    cases Prog.exec (c.program stateDir hash) n s' with
    | done _ s'' => exact fun hd => ⟨hd.1, h'.spared hd.2.1⟩
    | raised _ s'' => exact fun hr => ⟨hr.1, h'.spared hr.2⟩
    | killed s'' =>
      exact fun hk => ⟨hk.1.restart digits readable,
        (h'.spared hk.2).restart digits readable hk.1⟩
  | restart readable _ ih =>
    exact ⟨ih.1.restart digits readable, ih.2.restart digits readable ih.1⟩

theorem Submitted.resumed {localFiles' : Path → Option C} (hsound : Sound stateDir s)
    (h : Submitted hash localFiles stateDir ops message upload w s) {unreadable : String → Bool}
    {faults : String → Faults} {stuck : SnapshotFile C → Bool} {r : ResumeResult H}
    (hrun : Prog.run (resumePending stateDir hash localFiles' unreadable faults stuck) s
      = (.ok r, s')) :
    ∃ u ∈ r.uploads, u.job = upload.job ∧ SameJob hash localFiles s'.disk ops message u := by
  have hsubmitted := wp_run (resumePending_submitted hash localFiles' unreadable faults stuck
    hsound)
  have hspares : wp (resumePending stateDir hash localFiles' unreadable faults stuck) _ _ _ s :=
    resumePending_spares unreadable faults stuck hsound h.mem h.there
  have hspared := wp_run hspares
  rw [hrun] at hsubmitted hspared
  have hsub : w.submission = some upload := by
    rw [Written.submission, h.origin]
  have hpath := hsound.statePath_submission h.mem hsub
  have hsurviving : upload ∈ s.surviving := by
    refine List.mem_filter.mpr ⟨List.mem_filterMap.mpr ⟨w, h.mem, hsub⟩, ?_⟩
    rw [hpath, h.there]
    rfl
  have hjob : upload.job ∈ (r.uploads.filter (fun u => u.statePath ∈ s.submissions.map
      StoredUpload.statePath)).map StoredUpload.job := by
    rw [hsubmitted]
    exact List.mem_map_of_mem hsurviving
  obtain ⟨u, hu, hjob⟩ := List.mem_map.mp hjob
  refine ⟨u, List.mem_of_mem_filter hu, hjob, ?_⟩
  have hsame := (h.spared hspared.1).sameJob
  simp only [StoredUpload.job, Prod.mk.injEq] at hjob
  obtain ⟨-, hmessage, hops, hshas⟩ := hjob
  refine ⟨hmessage.trans hsame.message, ?_⟩
  rw [hops, hshas]
  exact hsame.ops

end

/-! ## A submission that raises -/

section

variable {hash : C → H} {localFiles : Path → Option C}

variable {stuck : SnapshotFile C → Bool}

theorem unlinkSnapshots_removes (hstuck : ∀ f, stuck f = false) (dir : Path)
    (files : List (SnapshotFile C)) :
    wp (unlinkSnapshots stuck dir files)
      (fun _ s' => s'.disk.envelopes = s.disk.envelopes
        ∧ ∀ rest, s'.disk.snapshots.lookup dir = some rest →
          ∃ listed, s.disk.snapshots.lookup dir = some listed ∧ ∀ f ∈ rest, f ∈ listed ∧ f ∉ files)
      (fun _ _ => False) (fun _ => True) s := by
  induction files generalizing s with
  | nil =>
    refine ⟨rfl, fun rest hrest => ⟨rest, hrest, ?_⟩⟩
    exact fun f hf => ⟨hf, by simp⟩
  | cons file files ih =>
    unfold unlinkSnapshots
    rw [if_neg (by simp [hstuck])]
    refine ⟨trivial, ?_⟩
    refine wp_imp ?_ ih
    rintro _ s' ⟨henvelopes, hrest⟩
    refine ⟨henvelopes, ?_⟩
    intro rest hlookup
    obtain ⟨listed, hlisted, hsub⟩ := hrest rest hlookup
    simp only [Machine.unlinkSnapshot, Machine.onSnapshots] at hlisted
    cases hs : s.disk.snapshots.lookup dir with
    | none =>
      rw [hs] at hlisted
      rw [hs] at hlisted
      cases hlisted
    | some listed' =>
      rw [hs] at hlisted
      rw [AList.lookup_insert] at hlisted
      refine ⟨listed', rfl, ?_⟩
      intro f hf
      obtain ⟨hf, hnot⟩ := hsub f hf
      rw [← Option.some.inj hlisted, dropFile, List.mem_filter, decide_eq_true_eq] at hf
      refine ⟨hf.1, ?_⟩
      rw [List.mem_cons, not_or]
      refine ⟨?_, hnot⟩
      rintro rfl
      exact hf.2 ⟨rfl, rfl⟩

theorem rmtree_removes (hstuck : ∀ f, stuck f = false) (dir : Path) :
    wp (rmtree stuck dir)
      (fun _ s' => s'.disk.envelopes = s.disk.envelopes ∧ s'.disk.snapshots.lookup dir = none)
      (fun _ _ => False) (fun _ => True) s := by
  simp only [rmtree, wp_bind, wp_get, wp_step]
  refine wp_imp ?_ (unlinkSnapshots_removes hstuck dir ((s.disk.snapshots.lookup dir).getD []))
  rintro _ s' ⟨henvelopes, hrest⟩
  refine ⟨trivial, henvelopes, ?_⟩
  simp only [Machine.removeSnapshotDir, Machine.onSnapshots]
  cases hs : s'.disk.snapshots.lookup dir with
  | none => exact hs
  | some rest =>
    -- every file that was listed has been removed
    obtain ⟨listed, hlisted, hsub⟩ := hrest rest hs
    cases rest with
    | nil => exact AList.lookup_erase _ _
    | cons f rest =>
      obtain ⟨hf, hnot⟩ := hsub f List.mem_cons_self
      rw [hlisted] at hnot
      exact absurd hf hnot

/-- Nothing of the job of the next number is left. -/
structure Cleaned (stateDir : Path) (s s' : Machine C H) : Prop where
  envelope : s'.disk.envelopes.lookup (stateName s.nextSequence) = none
  snapshots : s'.disk.snapshots.lookup (snapshotDirForSequence stateDir s.nextSequence) = none
    ∨ s'.disk.snapshots = s.disk.snapshots

theorem Sound.next_free (h : Sound stateDir s) :
    s.disk.envelopes.lookup (stateName s.nextSequence) = none := by
  cases hfile : s.disk.envelopes.lookup (stateName s.nextSequence) with
  | none => rfl
  | some file =>
    by_cases hcur : IsCurrent file
    · obtain ⟨e, rfl, hver⟩ := hcur
      obtain ⟨w, hw, hname, -⟩ := h.recorded _ e hfile hver
      have hlt := h.below w hw
      rw [stateName_injective hname] at hlt
      exact absurd hlt (lt_irrefl _)
    · exact absurd rfl ((h.others _ file hfile hcur).2 _ le_rfl)

theorem snapshotAll_none (faults : Faults) (ops : List PublicationOp) (index : Nat) :
    wp (snapshotAll hash localFiles faults none ops index) (fun _ s' => s' = s)
      (fun _ s' => s' = s) (fun _ => True) s := by
  induction ops generalizing index with
  | nil => exact rfl
  | cons op ops ih =>
    cases op with
    | delete pathInRepo =>
      simp only [snapshotAll, snapshotOperation, wp_bind, wp_pure]
      exact ih (index + 1)
    | add pathInRepo localPath snapshotPath => exact rfl

theorem cleanupFailedSubmission_removes {faults : Faults} (hunlink : faults .unlink = none)
    (hstuck : ∀ f, stuck f = false) {sequence : Nat} {snapshotDir : Option Path}
    (hdir : snapshotDir = none ∨ snapshotDir = some (snapshotDirForSequence stateDir sequence)) :
    wp (cleanupFailedSubmission stateDir faults stuck (stateName sequence) snapshotDir)
      (fun _ s' => s'.disk.envelopes.lookup (stateName sequence) = none
        ∧ (s'.disk.snapshots.lookup (snapshotDirForSequence stateDir sequence) = none
          ∨ (snapshotDir = none ∧ s'.disk.snapshots = s.disk.snapshots)))
      (fun _ _ => False) (fun _ => True) s := by
  unfold cleanupFailedSubmission
  rw [hunlink]
  simp only [fallible, wp_bind, wp_step]
  refine ⟨trivial, ?_⟩
  have hgone : (s.unlinkEnvelope (stateName sequence)).disk.envelopes.lookup (stateName sequence)
      = none := AList.lookup_erase _ _
  rcases hdir with rfl | rfl
  · exact ⟨hgone, Or.inr ⟨rfl, rfl⟩⟩
  · dsimp only
    rw [if_pos (isInside_snapshotsRoot stateDir sequence)]
    refine wp_imp ?_ (rmtree_removes hstuck (snapshotDirForSequence stateDir sequence))
    rintro _ s' ⟨henvelopes, hsnapshots⟩
    rw [henvelopes]
    exact ⟨hgone, Or.inl hsnapshots⟩

/-- **A submission that raises** leaves nothing, if the clean-up can remove its files. -/
theorem persist_cleans {faults : Faults} (hunlink : faults .unlink = none)
    (hstuck : ∀ f, stuck f = false) (ops : List PublicationOp) (message : String)
    (h : Sound stateDir s) :
    wp (persist stateDir hash localFiles faults stuck ops message) (fun _ _ => True)
      (fun _ s' => Cleaned stateDir s s') (fun _ => True) s := by
  simp only [persist, wp_bind]
  refine wp_mono ?_ ?_ (fun _ _ => trivial) (allocateSequence_files faults)
  · rintro sequence s₁ ⟨rfl, henvelopes, hsnapshots⟩
    have hoperations : wp (snapshotOperations stateDir hash localFiles faults ops
        s.nextSequence)
        (fun r s' => r.2.2 = some (snapshotDirForSequence stateDir s.nextSequence)
          ∨ (r.2.2 = none ∧ s'.disk.snapshots = s.disk.snapshots)) (fun _ _ => True)
        (fun _ => True) s₁ := by
      unfold snapshotOperations
      split
      · simp only [wp_bind, wp_pure]
        exact wp_imp (fun _ _ _ => wp_mono (fun _ _ _ => Or.inl trivial) (fun _ _ h => h)
          (fun _ h => h) (wp_trivial _ _))
          (wp_trivial _ _)
      · simp only [wp_bind, wp_pure]
        refine wp_mono ?_ (fun _ _ _ => trivial) (fun _ h => h) (snapshotAll_none faults ops 0)
        rintro _ s₂ rfl
        exact Or.inr ⟨trivial, hsnapshots⟩
    rw [wp_attempt]
    refine wp_mono ?_ ?_ (fun _ h => h) hoperations
    · rintro ⟨ops', entries, snapshotDir⟩ s₂ hdir
      dsimp only at hdir
      have hdir' : snapshotDir = none
          ∨ snapshotDir = some (snapshotDirForSequence stateDir s.nextSequence) :=
        hdir.elim Or.inr (fun hnone => Or.inl hnone.1)
      simp only [wp_bind, wp_attempt]
      -- the envelope may have been written, but no snapshot is touched
      have hclean : ∀ s₃ : Machine C H, s₃.disk.snapshots = s₂.disk.snapshots →
          wp (cleanupFailedSubmission stateDir faults stuck (stateName s.nextSequence) snapshotDir)
            (fun _ s' => Cleaned stateDir s s') (fun _ s' => Cleaned stateDir s s')
            (fun _ => True) s₃ := by
        intro s₃ hs₃
        refine wp_safe ?_ (cleanupFailedSubmission_removes hunlink hstuck hdir')
        rintro _ s' ⟨henvelope, hgone | ⟨hnone, hsame⟩⟩
        · exact ⟨henvelope, Or.inl hgone⟩
        · rcases hdir with hsome | ⟨-, hsame'⟩
          · rw [hnone] at hsome
            cases hsome
          · exact ⟨henvelope, Or.inr (hsame.trans (hs₃.trans hsame'))⟩
      exact fallible_wp trivial trivial (fun _ _ => hclean _ rfl) (fun _ _ => hclean _ rfl)
    · intro e s₂ _
      simp only [wp_bind]
      refine wp_safe ?_ (cleanupFailedSubmission_removes hunlink hstuck (Or.inr rfl))
      rintro _ s' ⟨henvelope, hgone | ⟨hnone, -⟩⟩
      · exact ⟨henvelope, Or.inl hgone⟩
      · cases hnone
  · rintro e s₁ ⟨henvelopes, hsnapshots⟩
    exact ⟨by rw [henvelopes]; exact h.next_free, Or.inr hsnapshots⟩

end

/-! ## The round trip -/

section

variable {digits : DecimalDigits} {hash : C → H}

end

namespace RoundTripExample

/-- One local file. -/
def localFiles (p : Path) : Option Nat := if p = ["data", "a.parquet"] then some 7 else none

def ops : List PublicationOp := [.delete "old.parquet", .add "a.parquet" ["data", "a.parquet"] none]

def emptyDisk : Disk Nat Nat := ⟨none, ∅, ∅⟩

theorem emptyDisk_onlyLegacy : OnlyLegacy emptyDisk := by
  intro name file hfile
  cases hfile

def opened : Machine Nat Nat := Machine.restart asciiDigits true ⟨emptyDisk, 1, []⟩

def submit (faults : Faults) (stuck : SnapshotFile Nat → Bool) :
    Except UploadError (StoredUpload Nat) × Machine Nat Nat :=
  Prog.run (persist Example.stateDir id localFiles faults stuck ops "publish") opened

/-- The data of the second operation cannot be copied. -/
def copyFails : Faults := fun step => if step = .copyData 1 then some (.osError, .before) else none

end RoundTripExample

end OsmPolygonWikidata.UploadQueue
