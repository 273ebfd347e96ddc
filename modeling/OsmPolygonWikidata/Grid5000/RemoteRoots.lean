import OsmPolygonWikidata.Grid5000.Submission

/-! # Remote job roots

The result of a job is downloaded from the root that its inputs were uploaded to, by the run that
submitted the job or by a later one. A root is removed after the ledger says that nobody needs it:
in every ledger that a run leaves behind, a batch that waits for a job names a root that is there.
-/

namespace OsmPolygonWikidata.Grid5000

open Durable Prog

variable {m m' : Machine} {op : Op} {turn : Turn} {i job : Nat} {A B : Type}

/-! ## Records -/

/-- The record names the root it needs: of a job to wait for, or of a result to clean up. -/
structure Rooted (roots : List (Nat × Nat)) (i : Nat) (b : Batch) : Prop where
  waiting : b.state.active = true → b.oarJobId ≠ none →
    ∃ attempt, b.remoteJobRoot = some attempt ∧ (i, attempt) ∈ roots
  result : b.state = .readyToPublish ∨ b.state = .published → b.remoteJobRoot ≠ none

variable {b : Batch}

theorem Rooted.mono {roots roots' : List (Nat × Nat)} (h : Rooted roots i b)
    (hsub : ∀ root ∈ roots, root ∈ roots') : Rooted roots' i b where
  waiting := by
    intro hactive hjob
    obtain ⟨attempt, hroot, hmem⟩ := h.waiting hactive hjob
    exact ⟨attempt, hroot, hsub _ hmem⟩
  result := h.result

theorem Rooted.of_not_active {roots roots' : List (Nat × Nat)} (h : Rooted roots i b)
    (hactive : b.state.active = false) : Rooted roots' i b where
  waiting := by simp [hactive]
  result := h.result

variable {roots : List (Nat × Nat)}

theorem Rooted.of_failed (hactive : b.state.active = false) (hready : b.state ≠ .readyToPublish)
    (hpublished : b.state ≠ .published) : Rooted roots i b where
  waiting := by simp [hactive]
  result := by simp [hready, hpublished]

theorem Rooted.of_no_job (hactive : b.state.active = true)
    (hjob : b.oarJobId = none) : Rooted roots i b where
  waiting := fun _ h => absurd hjob h
  result := by
    rintro (h | h)
    · rw [h] at hactive
      cases hactive
    · rw [h] at hactive
      cases hactive

/-! ## Ledgers -/

def DiskRooted (m : Machine) : Prop :=
  ∀ k b, m.disk.batches[k]? = some b → Rooted m.remoteRoots k b

def MemoryRooted (m : Machine) : Prop :=
  ∀ k b, m.batch k = some b → Rooted m.remoteRoots k b

/-- Only the current batch may be without its root, in memory and while it is active: an interrupt
then cancels it. -/
def Fair (m : Machine) : Prop :=
  DiskRooted m ∧ ∀ k b, m.batch k = some b → Rooted m.remoteRoots k b
    ∨ (m.current = some k ∧ b.state.active = true)

/-- Whether a request removes a root. -/
def Op.removes : Op → Bool
  | .removeJobRoot _ _ => true
  | .removeRunRoot => true
  | _ => false

theorem mem_after_roots (hop : op.removes = false) {root : Nat × Nat} (h : root ∈ m.remoteRoots) :
    root ∈ (m.after op turn).remoteRoots := by
  cases op with
  | removeJobRoot i attempt => cases hop
  | removeRunRoot => cases hop
  | uploadTree i attempt =>
    simp only [Machine.after, Op.effect]
    split
    · exact List.mem_cons_of_mem _ h
    · exact h
  | _ =>
    simp only [Machine.after, Op.effect]
    split <;> exact h

theorem MemoryRooted.after (h : MemoryRooted m) (hop : op.removes = false) :
    MemoryRooted (m.after op turn) := by
  intro k b hb
  rw [after_batch] at hb
  exact (h k b hb).mono (fun _ => mem_after_roots hop)

theorem DiskRooted.after (h : DiskRooted m) (hmem : MemoryRooted m) (hop : op.removes = false) :
    DiskRooted (m.after op turn) := by
  intro k b hb
  rcases after_disk m op turn with hdisk | hdisk
  · rw [hdisk] at hb
    exact (h k b hb).mono (fun _ => mem_after_roots hop)
  · rw [hdisk] at hb
    exact (hmem k b hb).mono (fun _ => mem_after_roots hop)

/-! ## The current batch -/

/-- The ledger is rooted in memory and on disk, and the current batch is known to be `R`. -/
structure KeptAs (i : Nat) (R : List (Nat × Nat) → Batch → Prop) (m : Machine) : Prop where
  current : m.current = some i
  disk : DiskRooted m
  memory : MemoryRooted m
  record : ∃ b, m.batch i = some b ∧ R m.remoteRoots b

variable {R R' : List (Nat × Nat) → Batch → Prop}

theorem KeptAs.fair (h : KeptAs i R m) : Fair m :=
  ⟨h.disk, fun k b hb => Or.inl (h.memory k b hb)⟩

theorem KeptAs.weaken (h : KeptAs i R m) (hR : ∀ b, m.batch i = some b → R m.remoteRoots b →
    R' m.remoteRoots b) : KeptAs i R' m := by
  obtain ⟨b, hb, hr⟩ := h.record
  exact ⟨h.current, h.disk, h.memory, b, hb, hR b hb hr⟩

/-- What is known of a record does not change when roots are added. -/
def Lasting (R : List (Nat × Nat) → Batch → Prop) : Prop :=
  ∀ roots roots' b, (∀ root ∈ roots, root ∈ roots') → R roots b → R roots' b

theorem KeptAs.after (h : KeptAs i R m) (hR : Lasting R) (hop : op.removes = false) :
    KeptAs i R (m.after op turn) where
  current := by rw [after_current, h.current]
  disk := h.disk.after h.memory hop
  memory := h.memory.after hop
  record := by
    obtain ⟨b, hb, hr⟩ := h.record
    refine ⟨b, by rw [after_batch]; exact hb, hR _ _ b (fun _ => mem_after_roots hop) hr⟩

variable {f : Batch → Batch} {r : Batch → Prop} {attempt : Nat}

theorem MemoryRooted.assigned (h : ∀ k b, k ≠ i → m.batch k = some b → Rooted m.remoteRoots k b)
    (hf : ∀ b, m.batch i = some b → Rooted m.remoteRoots i (f b)) :
    MemoryRooted (m.assigned i f) := by
  intro k b hb
  by_cases hk : k = i
  · subst hk
    rw [batch_assigned] at hb
    obtain ⟨b₀, hb₀, rfl⟩ := Option.map_eq_some_iff.mp hb
    exact hf b₀ hb₀
  · refine h k b hk ?_
    rw [← hb]
    simp [Machine.batch, Machine.assigned, Ne.symm hk]

theorem KeptAs.assigned (h : KeptAs i R m)
    (hf : ∀ b, R m.remoteRoots b → Rooted m.remoteRoots i b → Rooted m.remoteRoots i (f b))
    (hR : ∀ b, R m.remoteRoots b → Rooted m.remoteRoots i b → R' m.remoteRoots (f b)) :
    KeptAs i R' (m.assigned i f) := by
  obtain ⟨b, hb, hr⟩ := h.record
  refine ⟨h.current, h.disk, MemoryRooted.assigned (fun k b _ => h.memory k b) ?_, f b,
    by rw [batch_assigned, hb]; rfl, hR b hr (h.memory i b hb)⟩
  intro b' hb'
  rw [hb, Option.some.injEq] at hb'
  subst hb'
  exact hf b hr (h.memory i b hb)

/-! ## Requests and assignments -/

theorem spec_perform {K P : Machine → Prop} {Q : Turn → Machine → Prop}
    {E : Exit → Machine → Prop} (hK : ∀ m, P m → K m) (hstop : ∀ m, P m → E .stopped m)
    (hret : ∀ m turn, P m → turn.reply.exit op = none → Q turn (m.after op turn))
    (hraise : ∀ m turn e, P m → turn.reply.exit op = some e → E e (m.after op turn)) :
    Spec K P (perform op) Q E := by
  intro m hm
  rw [perform, wp_read]
  cases m.turns with
  | nil => exact hstop m hm
  | cons turn turns =>
    refine ⟨hK m hm, ?_⟩
    cases hexit : turn.reply.exit op with
    | none => exact hret m turn hm hexit
    | some e => exact hraise m turn e hm hexit

/-- Programs of one batch: they keep the ledger rooted, whichever way they end. -/
def Keeps (i : Nat) (R : List (Nat × Nat) → Batch → Prop) (p : Code A)
    (R' : List (Nat × Nat) → Batch → Prop) : Prop :=
  Spec DiskRooted (KeptAs i R) p (fun _ => KeptAs i R') (fun _ => KeptAs i (fun _ _ => True))

theorem lasting_of_record : Lasting (fun _ b => r b) :=
  fun _ _ _ _ h => h

theorem KeptAs.any (h : KeptAs i R m) : KeptAs i (fun _ _ => True) m :=
  h.weaken (fun _ _ _ => trivial)

theorem keeps_perform (hR : Lasting R) (hop : op.removes = false) : Keeps i R (perform op) R :=
  spec_perform (fun _ h => h.disk) (fun _ h => h.any) (fun _ _ h _ => h.after hR hop)
    (fun _ _ _ h _ => (h.after hR hop).any)

theorem Keeps.bind {p : Code A} {k : A → Code B} {R₁ R₂ R₃ : List (Nat × Nat) → Batch → Prop}
    (hp : Keeps i R₁ p R₂) (hk : ∀ a, Keeps i R₂ (k a) R₃) : Keeps i R₁ (p >>= k) R₃ :=
  Spec.bind hp hk

theorem keeps_ret {a : A} : Keeps i R (ret a : Code A) R := spec_ret (fun _ h => h)

theorem keeps_raise {e : Exit} : Keeps i R (raise e : Code A) R' := spec_raise (fun _ h => h.any)

theorem keeps_assign (hR : Lasting R)
    (hf : ∀ roots b, R roots b → Rooted roots i b → Rooted roots i (f b))
    (hR' : ∀ roots b, R roots b → Rooted roots i b → R' roots (f b)) : Keeps i R (assign i f) R' :=
  (keeps_perform hR rfl).bind (fun _ => spec_step (fun _ h => h.disk)
    (fun _ h => h.assigned (hf _) (hR' _)))

theorem keeps_writeLedger (hR : Lasting R) : Keeps i R writeLedger R :=
  (keeps_perform hR rfl).bind (fun _ => keeps_ret)

theorem keeps_policyCheck (hR : Lasting R) : Keeps i R policyCheck R :=
  (keeps_perform hR rfl).bind (fun _ => keeps_ret)

theorem keeps_getBatch : Spec DiskRooted (KeptAs i R) (getBatch i)
      (fun b => KeptAs i (fun roots b' => b' = b ∧ R roots b ∧ Rooted roots i b))
      (fun _ => KeptAs i (fun _ _ => True)) := by
  intro m hm
  rw [getBatch, wp_read]
  obtain ⟨b, hb, hr⟩ := hm.record
  rw [hb]
  exact ⟨hm.current, hm.disk, hm.memory, b, hb, rfl, hr, hm.memory i b hb⟩

theorem keeps_readBatch : Keeps i R (getBatch i) R := by
  refine keeps_getBatch.weaken (fun _ h => h) (fun b m h => h.weaken (fun b' _ hr => ?_))
    (fun _ _ h => h)
  rw [hr.1]
  exact hr.2.1

theorem writeLedger_synced (hR : Lasting R) :
    Spec DiskRooted (KeptAs i R) writeLedger (fun _ m => KeptAs i R m ∧ m.disk = m.memory)
      (fun _ => KeptAs i (fun _ _ => True)) := by
  refine Spec.bind (M := fun _ m => KeptAs i R m ∧ m.disk = m.memory)
    (spec_perform (fun _ h => h.disk) (fun _ h => h.any) ?_
      (fun _ _ _ h _ => (h.after hR rfl).any)) (fun _ => spec_ret (fun _ h => h))
  intro m turn h hexit
  exact ⟨h.after hR rfl, by rw [after_memory]; exact after_write_disk hexit⟩

/-! ## Removing a root -/

theorem Rooted.remove {k : Nat} (h : Rooted roots k b) (hk : k = i → b.state.active = false) :
    Rooted (roots.filter (fun root => root ≠ (i, attempt))) k b := by
  by_cases hi : k = i
  · exact h.of_not_active (hk hi)
  · refine ⟨fun hactive hjob => ?_, h.result⟩
    obtain ⟨a, hroot, hmem⟩ := h.waiting hactive hjob
    refine ⟨a, hroot, List.mem_filter.mpr ⟨hmem, ?_⟩⟩
    simp [hi]

variable (m i turn) in
theorem after_removeJobRoot_roots (attempt : Nat) :
    (m.after (.removeJobRoot i attempt) turn).remoteRoots = m.remoteRoots
      ∨ (m.after (.removeJobRoot i attempt) turn).remoteRoots
        = m.remoteRoots.filter (fun root => root ≠ (i, attempt)) := by
  simp only [Machine.after, Op.effect]
  split
  · exact Or.inr rfl
  · exact Or.inl rfl

theorem after_removeJobRoot_disk : (m.after (.removeJobRoot i attempt) turn).disk = m.disk := by
  simp only [Machine.after, Op.effect]
  split <;> rfl

theorem KeptAs.removed (h : KeptAs i (fun _ => r) m) (hr : ∀ b, r b → b.state.active = false)
    (hsynced : m.disk = m.memory) :
    KeptAs i (fun _ => r) (m.after (.removeJobRoot i attempt) turn) := by
  obtain ⟨b, hb, hrb⟩ := h.record
  have hroot : ∀ k b', m.batch k = some b' →
      Rooted (m.after (.removeJobRoot i attempt) turn).remoteRoots k b' := by
    intro k b' hb'
    have hkept : k = i → b'.state.active = false := by
      rintro rfl
      rw [hb, Option.some.injEq] at hb'
      subst hb'
      exact hr b hrb
    rcases after_removeJobRoot_roots m turn i attempt with hroots | hroots
    · rw [hroots]
      exact h.memory k b' hb'
    · rw [hroots]
      exact (h.memory k b' hb').remove hkept
  refine ⟨by rw [after_current, h.current], ?_, ?_, b, by rw [after_batch]; exact hb, hrb⟩
  · intro k b' hb'
    rw [after_removeJobRoot_disk, hsynced] at hb'
    exact hroot k b' hb'
  · intro k b' hb'
    rw [after_batch] at hb'
    exact hroot k b' hb'

theorem keeps_cleanupRemoteJob (hr : ∀ b, r b → b.state.active = false)
    (hcleaned : ∀ b, r b → r { b with remoteCleaned := true }) :
    Spec DiskRooted (fun m => KeptAs i (fun _ => r) m ∧ m.disk = m.memory) (cleanupRemoteJob i)
      (fun _ => KeptAs i (fun _ => r)) (fun _ => KeptAs i (fun _ _ => True)) := by
  refine Spec.bind (M := fun _ m => KeptAs i (fun _ => r) m ∧ m.disk = m.memory) ?_ (fun b => ?_)
  · intro m hm
    rw [getBatch, wp_read]
    obtain ⟨b, hb, -⟩ := hm.1.record
    rw [hb]
    exact hm
  · cases b.remoteJobRoot with
    | none => exact spec_raise (fun _ h => h.1.any)
    | some attempt =>
      simp only
      split
      · exact spec_ret (fun _ h => h.1)
      · have hremove : Spec DiskRooted (fun m => KeptAs i (fun _ => r) m ∧ m.disk = m.memory)
            (perform (.removeJobRoot i attempt)) (fun _ => KeptAs i (fun _ => r))
            (fun _ => KeptAs i (fun _ _ => True)) :=
          spec_perform (fun _ h => h.1.disk) (fun _ h => h.1.any)
            (fun _ _ h _ => h.1.removed hr h.2) (fun _ _ _ h _ => (h.1.removed hr h.2).any)
        refine hremove.bind (fun _ => ?_)
        have hassign : Keeps i (fun _ => r) (assign i (fun b => { b with remoteCleaned := true }))
            (fun _ => r) :=
          keeps_assign lasting_of_record
            (fun _ _ _ h => ⟨h.waiting, h.result⟩) (fun _ b h _ => hcleaned b h)
        exact hassign.bind (fun _ => keeps_writeLedger lasting_of_record)

/-! ## The parts of a run -/

/-- The batch names a root. -/
def HasRoot (_ : List (Nat × Nat)) (b : Batch) : Prop := b.remoteJobRoot ≠ none

theorem lasting_hasRoot : Lasting HasRoot := fun _ _ _ _ h => h

theorem keeps_settle {st : BatchState} (hactive : st.active = false) :
    Keeps i HasRoot (do
      assign i (fun b => { b with state := st })
      writeLedger
      cleanupRemoteJob i) (fun _ b => b.state = st) := by
  have hassign : Keeps i HasRoot (assign i (fun b => { b with state := st }))
      (fun _ b => b.state = st) :=
    keeps_assign lasting_hasRoot
      (fun _ _ hroot _ => ⟨fun h => absurd h (by simp [hactive]), fun _ => hroot⟩)
      (fun _ _ _ _ => rfl)
  refine hassign.bind (fun _ => Spec.bind (writeLedger_synced lasting_of_record) (fun _ => ?_))
  exact keeps_cleanupRemoteJob (fun b hb => by rw [hb]; exact hactive) (fun _ h => h)

theorem spec_perform_kept (hR : Lasting R) (hop : op.removes = false) :
    Spec DiskRooted (KeptAs i R) (perform op) (fun _ => KeptAs i R) (fun _ => KeptAs i R) :=
  spec_perform (fun _ h => h.disk) (fun _ h => h) (fun _ _ h _ => h.after hR hop)
    (fun _ _ _ h _ => h.after hR hop)

theorem keeps_exceptException {body : Code A} {handler : Exit → Code A}
    (hbody : Spec DiskRooted (KeptAs i R) body (fun _ => KeptAs i R') (fun _ => KeptAs i R))
    (hhandler : ∀ e, Keeps i R (handler e) R') : Keeps i R (exceptException body handler) R' := by
  intro m hm
  rw [exceptException, wp_bind, wp_attempt]
  refine wp_mono (fun _ _ h => h) ?_ (fun _ h => h) (hbody m hm)
  intro e s hs
  simp only
  split
  · exact hhandler e s hs
  · exact hs.any

theorem keeps_setReady :
    Keeps i HasRoot (assign i (fun b => { b with state := .readyToPublish })) HasRoot :=
  keeps_assign lasting_hasRoot
    (fun _ _ hroot _ => ⟨fun h => absurd h (by simp [BatchState.active]), fun _ => hroot⟩)
    (fun _ _ h _ => h)

theorem keeps_publishBatch :
    Keeps i HasRoot (publishBatch i) (fun _ b => b.state = .published) := by
  have hbaseline : Spec DiskRooted (KeptAs i HasRoot) (do let _ ← perform .assertBaseline : Code Unit)
      (fun _ => KeptAs i HasRoot) (fun _ => KeptAs i HasRoot) :=
    (spec_perform_kept lasting_hasRoot rfl).bind (fun _ => spec_ret (fun _ h => h))
  have hpublish : Spec DiskRooted (KeptAs i HasRoot) (do
      let _ ← perform (.publishSentenceBatch i)
      let _ ← perform (.verifySentenceBatch i) : Code Unit) (fun _ => KeptAs i HasRoot)
      (fun _ => KeptAs i HasRoot) :=
    (spec_perform_kept lasting_hasRoot rfl).bind (fun _ =>
      (spec_perform_kept lasting_hasRoot rfl).bind (fun _ => spec_ret (fun _ h => h)))
  refine (keeps_exceptException hbaseline (fun e => ?_)).bind (fun _ => ?_)
  · exact (keeps_writeLedger lasting_hasRoot).bind (fun _ => keeps_raise)
  refine (keeps_exceptException hpublish (fun e => ?_)).bind (fun _ => ?_)
  · exact keeps_setReady.bind (fun _ => (keeps_writeLedger lasting_hasRoot).bind (fun _ => keeps_raise))
  · exact keeps_settle rfl

theorem keeps_publishIfReady : Keeps i HasRoot (publishIfReady i) (fun _ _ => True) := by
  refine keeps_readBatch.bind (fun b => ?_)
  split
  · exact keeps_publishBatch.weaken (fun _ h => h) (fun _ _ h => h.any) (fun _ _ h => h)
  · exact spec_ret (fun _ h => h.any)

theorem keeps_failBatch {r : List (Nat × Nat) → Batch → Prop} :
    Keeps i HasRoot (failBatch i) r := by
  have hsettle : Keeps i HasRoot (do
      assign i (fun b => { b with state := .failed })
      writeLedger
      cleanupRemoteJob i) (fun _ b => b.state = .failed) := keeps_settle rfl
  refine (keeps_perform lasting_hasRoot rfl).bind (fun _ => ?_)
  intro m hm
  have h := hsettle.bind (fun _ => (keeps_raise : Keeps i _ (raise .error : Code Unit) r)) m hm
  simpa only [wp_bind] using h

theorem keeps_retrieveBatch (status : JobStatus) :
    Keeps i HasRoot (retrieveBatch i status) HasRoot := by
  refine keeps_readBatch.bind (fun b => ?_)
  have hdownload : Keeps i HasRoot (downloadReceipt i (b.remoteJobRoot.getD 0)) HasRoot := by
    refine Spec.bind (spec_get (Q := fun _ => KeptAs i HasRoot) (fun m h => h)) (fun m => ?_)
    refine (keeps_perform lasting_hasRoot rfl).bind (fun turn => ?_)
    split
    · exact keeps_ret
    · exact keeps_raise
  refine hdownload.bind (fun receipt => ?_)
  cases receipt with
  | invalid => exact keeps_failBatch
  | failed => exact keeps_failBatch
  | succeeded =>
    simp only
    split
    · exact (keeps_perform lasting_hasRoot rfl).bind (fun _ => keeps_setReady.bind (fun _ =>
        keeps_writeLedger lasting_hasRoot))
    · exact keeps_failBatch

theorem keeps_queryJobStatus : Keeps i HasRoot (queryJobStatus job) HasRoot := by
  intro m hm
  rw [queryJobStatus, wp_bind, wp_attempt, wp_bind]
  refine wp_mono ?_ ?_ (fun _ h => h) (spec_perform_kept lasting_hasRoot rfl m hm)
  · intro turn m' hm'
    simp only [wp_bind, wp_get, wp_ret]
    split
    · exact hm'
    · split
      · exact hm'
      · split <;> exact hm'
  · intro e m' hm'
    simp only
    split
    · exact hm'
    · exact hm'.any

theorem keeps_pollJob (fuel : Nat) : Keeps i HasRoot (pollJob job fuel) HasRoot := by
  induction fuel with
  | zero => exact keeps_raise
  | succ fuel ih =>
    refine keeps_queryJobStatus.bind (fun status => ?_)
    have hagain : Keeps i HasRoot (do
        let _ ← perform .sleep
        pollJob job fuel) HasRoot :=
      (keeps_perform lasting_hasRoot rfl).bind (fun _ => ih)
    cases status with
    | terminated => exact keeps_ret
    | error => exact keeps_ret
    | unknown => exact hagain
    | pending => exact hagain

theorem keeps_reconcileBatch :
    Keeps i (fun _ b => b.state.active = true) (reconcileBatch i) HasRoot := by
  refine Spec.bind (keeps_getBatch (R := fun _ b => b.state.active = true)) (fun b => ?_)
  cases hjob : b.oarJobId with
  | none => exact spec_raise (fun _ h => h.any)
  | some job =>
    have hpoll : ∀ fuel, Keeps i HasRoot (do
        let status ← pollJob job fuel
        retrieveBatch i status) HasRoot :=
      fun fuel => (keeps_pollJob fuel).bind keeps_retrieveBatch
    refine Spec.bind (spec_get (Q := fun _ => KeptAs i HasRoot) (fun m h => ?_))
      (fun m => hpoll (m.turns.length + 1))
    refine h.weaken (fun b' _ hr => ?_)
    obtain ⟨rfl, hactive, hrooted⟩ := hr
    obtain ⟨attempt, hroot, -⟩ := hrooted.waiting hactive (by simp [hjob])
    simp [HasRoot, hroot]

/-! ## Submission -/

/-- The batch is `submitted` without a job, and names a root. -/
def FiledRecord (_ : List (Nat × Nat)) (b : Batch) : Prop :=
  b.state = .submitted ∧ b.oarJobId = none ∧ b.remoteJobRoot ≠ none

theorem lasting_filedRecord : Lasting FiledRecord := fun _ _ _ _ h => h

/-- The inputs are at the root that the batch names. -/
def Uploaded (i : Nat) (roots : List (Nat × Nat)) (b : Batch) : Prop :=
  b.state.active = true ∧ ∃ attempt, b.remoteJobRoot = some attempt ∧ (i, attempt) ∈ roots

theorem lasting_uploaded : Lasting (Uploaded i) := by
  rintro roots roots' b hsub ⟨hactive, attempt, hroot, hmem⟩
  exact ⟨hactive, attempt, hroot, hsub _ hmem⟩

theorem Uploaded.rooted (h : Uploaded i roots b) : Rooted roots i b where
  waiting := fun _ _ => h.2
  result := by
    obtain ⟨hactive, -⟩ := h
    rintro (h | h)
    · rw [h] at hactive
      cases hactive
    · rw [h] at hactive
      cases hactive

theorem keeps_uploadTree : Keeps i (fun roots b' => b' = b ∧ FiledRecord roots b ∧ Rooted roots i b)
      (perform (.uploadTree i (b.remoteJobRoot.getD 0))) (Uploaded i) := by
  have hlasting : Lasting (fun roots b' => b' = b ∧ FiledRecord roots b ∧ Rooted roots i b) :=
    fun _ _ _ hsub h => ⟨h.1, h.2.1, h.2.2.mono hsub⟩
  refine spec_perform (fun _ h => h.disk) (fun _ h => h.any) (fun m turn h hexit => ?_)
    (fun _ _ _ h _ => (h.after hlasting rfl).any)
  have hafter : KeptAs i _ (m.after (.uploadTree i (b.remoteJobRoot.getD 0)) turn) :=
    h.after hlasting rfl
  refine hafter.weaken (fun b' _ hr => ?_)
  obtain ⟨rfl, ⟨hstate, -, hroot⟩, -⟩ := hr
  obtain ⟨attempt, hattempt⟩ := Option.ne_none_iff_exists'.mp hroot
  refine ⟨by rw [hstate]; rfl, attempt, hattempt, ?_⟩
  have htook : turn.reply.took (.uploadTree i (b'.remoteJobRoot.getD 0)) = true := by
    cases hreply : turn.reply with
    | done => rfl
    | unparsable => rfl
    | _ =>
      rw [hreply] at hexit
      cases hexit
  rw [hattempt, Option.getD_some] at htook ⊢
  simp [Machine.after, Op.effect, htook]

theorem keeps_oarsub : Keeps i (Uploaded i) (oarsub i) (Uploaded i) := by
  refine Spec.bind (spec_get (Q := fun _ => KeptAs i (Uploaded i)) (fun m h => h)) (fun m => ?_)
  refine (keeps_perform lasting_uploaded rfl).bind (fun turn => ?_)
  split
  · exact keeps_raise
  · exact keeps_ret

theorem keeps_submitRemotely :
    Keeps i FiledRecord (submitRemotely i) (fun _ b => b.state.active = true) := by
  refine (keeps_perform lasting_filedRecord rfl).bind (fun _ => ?_)
  refine (keeps_perform lasting_filedRecord rfl).bind (fun _ => ?_)
  refine Spec.bind keeps_getBatch (fun b => keeps_uploadTree.bind (fun _ => ?_))
  refine (keeps_policyCheck lasting_uploaded).bind (fun _ => keeps_oarsub.bind (fun job => ?_))
  have hname : Keeps i (Uploaded i) (assign i (fun b => { b with oarJobId := some job }))
      (Uploaded i) :=
    keeps_assign lasting_uploaded (fun _ _ h _ => Uploaded.rooted ⟨h.1, h.2⟩)
      (fun _ _ h _ => ⟨h.1, h.2⟩)
  have hrunning : Keeps i (Uploaded i) (assign i (fun b => { b with state := .running }))
      (Uploaded i) :=
    keeps_assign lasting_uploaded (fun _ _ h _ => Uploaded.rooted ⟨rfl, h.2⟩)
      (fun _ _ h _ => ⟨rfl, h.2⟩)
  refine hname.bind (fun _ => hrunning.bind (fun _ => ?_))
  refine (keeps_writeLedger lasting_uploaded).bind (fun _ => ?_)
  exact (keeps_policyCheck lasting_uploaded).weaken (fun _ h => h)
    (fun _ _ h => h.weaken (fun _ _ h => h.1)) (fun _ _ h => h)

/-- While the batch is `submitted` with the job of its last attempt, it is not rooted in memory; it
is the current batch and active. -/
structure Filing (i : Nat) (m : Machine) : Prop where
  current : m.current = some i
  disk : DiskRooted m
  others : ∀ k b, k ≠ i → m.batch k = some b → Rooted m.remoteRoots k b
  record : ∃ b, m.batch i = some b ∧ b.state = .submitted

theorem Filing.fair (h : Filing i m) : Fair m := by
  refine ⟨h.disk, fun k b hb => ?_⟩
  by_cases hk : k = i
  · subst hk
    obtain ⟨b', hb', hstate⟩ := h.record
    rw [hb', Option.some.injEq] at hb
    subst hb
    exact Or.inr ⟨h.current, by rw [hstate]; rfl⟩
  · exact Or.inl (h.others k b hk hb)

theorem Filing.point (h : Filing i m) : Filing i (m.after .point turn) := by
  have hroots : (m.after .point turn).remoteRoots = m.remoteRoots := by
    simp only [Machine.after, Op.effect]
    split <;> rfl
  have hdisk : (m.after .point turn).disk = m.disk := by
    simp only [Machine.after, Op.effect]
    split <;> rfl
  refine ⟨by rw [after_current, h.current], ?_, ?_, by rw [after_batch]; exact h.record⟩
  · intro k b hb
    rw [hdisk] at hb
    rw [hroots]
    exact h.disk k b hb
  · intro k b hk hb
    rw [after_batch] at hb
    rw [hroots]
    exact h.others k b hk hb

theorem spec_setSubmitted :
    Spec DiskRooted (KeptAs i (fun _ _ => True)) (assign i (fun b => { b with state := .submitted }))
      (fun _ => Filing i) (fun _ => Fair) := by
  refine Spec.bind ((keeps_perform lasting_of_record rfl).weaken (fun _ h => h) (fun _ _ h => h)
    (fun _ _ h => h.fair)) (fun _ => spec_step (fun _ h => h.disk) (fun m h => ?_))
  obtain ⟨b, hb, -⟩ := h.record
  refine ⟨h.current, h.disk, fun k b' hk hb' => h.memory k b' ?_,
    { b with state := .submitted }, by rw [batch_assigned, hb]; rfl, rfl⟩
  rw [← hb']
  simp [Machine.batch, Machine.assigned, Ne.symm hk]

theorem spec_forgetJob :
    Spec DiskRooted (Filing i) (assign i (fun b => { b with oarJobId := none }))
      (fun _ => KeptAs i (fun _ b => b.state = .submitted ∧ b.oarJobId = none)) (fun _ => Fair) := by
  have hpoint : Spec DiskRooted (Filing i) (perform .point) (fun _ => Filing i) (fun _ => Fair) :=
    spec_perform (fun _ h => h.disk) (fun _ h => h.fair) (fun _ _ h _ => h.point)
      (fun _ _ _ h _ => h.point.fair)
  refine hpoint.bind (fun _ => spec_step (fun _ h => h.disk) (fun m h => ?_))
  obtain ⟨b, hb, hstate⟩ := h.record
  refine ⟨h.current, h.disk, MemoryRooted.assigned h.others (fun b' hb' => ?_),
    { b with oarJobId := none }, by rw [batch_assigned, hb]; rfl, hstate, rfl⟩
  rw [hb, Option.some.injEq] at hb'
  subst hb'
  exact Rooted.of_no_job (by simp [hstate, BatchState.active]) rfl

theorem spec_submitBatch : Spec DiskRooted (KeptAs i (fun _ _ => True)) (submitBatch i)
      (fun _ => KeptAs i (fun _ b => b.state.active = true)) (fun _ => Fair) := by
  have hfair : ∀ {p : Code Unit} {R R' : List (Nat × Nat) → Batch → Prop}, Keeps i R p R' →
      Spec DiskRooted (KeptAs i R) p (fun _ => KeptAs i R') (fun _ => Fair) :=
    fun h => h.weaken (fun _ h => h) (fun _ _ h => h) (fun _ _ h => h.fair)
  have hattempt : Keeps i (fun _ _ => True) (assign i (fun b => { b with attempt := b.attempt + 1 }))
      (fun _ _ => True) :=
    keeps_assign lasting_of_record (fun _ _ _ h => ⟨h.waiting, h.result⟩) (fun _ _ _ _ => trivial)
  have hroot : Keeps i (fun _ b => b.state = .submitted ∧ b.oarJobId = none)
      (assign i (fun b => { b with remoteJobRoot := some b.attempt })) FiledRecord :=
    keeps_assign lasting_of_record
      (fun _ b h _ => Rooted.of_no_job (by simp [h.1, BatchState.active]) h.2)
      (fun _ _ h _ => ⟨h.1, h.2, by simp⟩)
  have hcleaned : Keeps i FiledRecord (assign i (fun b => { b with remoteCleaned := false }))
      FiledRecord :=
    keeps_assign lasting_filedRecord
      (fun _ b h _ => Rooted.of_no_job (by simp [h.1, BatchState.active]) h.2.1)
      (fun _ _ h _ => h)
  refine (hfair hattempt).bind (fun _ => spec_setSubmitted.bind (fun _ =>
    spec_forgetJob.bind (fun _ => (hfair hroot).bind (fun _ => (hfair hcleaned).bind (fun _ =>
      (hfair (keeps_writeLedger lasting_filedRecord)).bind (fun _ => ?_))))))
  -- the `try` block: whatever it raises, the ledger is rooted and the batch may be made `failed`
  intro m hm
  rw [exceptException, wp_bind, wp_attempt]
  refine wp_mono (fun _ _ h => h) ?_ (fun _ h => h) (keeps_submitRemotely m hm)
  intro e s hs
  have hrecord : Keeps i (fun _ _ => True) (recordSubmissionFailure i e) (fun _ _ => True) := by
    rw [recordSubmissionFailure]
    split
    · exact keeps_ret
    · have hfailed : Keeps i (fun _ _ => True) (assign i (fun b => { b with state := .failed }))
          (fun _ _ => True) :=
        keeps_assign lasting_of_record
          (fun _ _ _ _ => Rooted.of_failed rfl (by simp) (by simp)) (fun _ _ _ _ => trivial)
      exact hfailed.bind (fun _ => keeps_writeLedger lasting_of_record)
  simp only
  split
  · exact (hfair (hrecord.bind (fun _ => keeps_raise))) s hs
  · exact hs.fair

/-! ## Runs -/

/-- The ledger is rooted in memory and on disk. -/
def BothRooted (m : Machine) : Prop := DiskRooted m ∧ MemoryRooted m

theorem BothRooted.fair (h : BothRooted m) : Fair m := ⟨h.1, fun k b hb => Or.inl (h.2 k b hb)⟩

theorem BothRooted.after (h : BothRooted m) (hop : op.removes = false) :
    BothRooted (m.after op turn) :=
  ⟨h.1.after h.2 hop, h.2.after hop⟩

theorem KeptAs.both (h : KeptAs i R m) : BothRooted m := ⟨h.disk, h.memory⟩

theorem spec_processBatch :
    Spec DiskRooted (fun m => m.current = some i ∧ BothRooted m) (processBatch i)
      (fun _ => BothRooted) (fun _ => Fair) := by
  have hget : Spec DiskRooted (fun m => m.current = some i ∧ BothRooted m) (getBatch i)
      (fun b => KeptAs i (fun roots b' => b' = b ∧ Rooted roots i b)) (fun _ => Fair) := by
    intro m hm
    rw [getBatch, wp_read]
    cases hb : m.batch i with
    | none => exact hm.2.fair
    | some b => exact ⟨hm.1, hm.2.1, hm.2.2, b, hb, rfl, hm.2.2 i b hb⟩
  have hreconcile : Spec DiskRooted (KeptAs i (fun _ b => b.state.active = true)) (do
      reconcileBatch i
      publishIfReady i) (fun _ => BothRooted) (fun _ => Fair) :=
    (keeps_reconcileBatch.bind (fun _ => keeps_publishIfReady)).weaken (fun _ h => h)
      (fun _ _ h => h.both) (fun _ _ h => h.fair)
  refine hget.bind (fun b => ?_)
  have hactive : b.state.active = true → ∀ m,
      KeptAs i (fun roots b' => b' = b ∧ Rooted roots i b) m →
      KeptAs i (fun _ b => b.state.active = true) m :=
    fun hstate m h => h.weaken (fun b' _ hr => by rw [hr.1]; exact hstate)
  cases hstate : b.state with
  | published => exact spec_ret (fun _ h => h.both)
  | readyToPublish =>
    refine keeps_publishBatch.weaken (fun _ h => h.weaken (fun b' _ hr => ?_))
      (fun _ _ h => h.both) (fun _ _ h => h.fair)
    rw [hr.1]
    exact hr.2.result (Or.inl hstate)
  | submitted =>
    exact hreconcile.weaken (hactive (by simp [hstate, BatchState.active])) (fun _ _ h => h)
      (fun _ _ h => h)
  | running =>
    exact hreconcile.weaken (hactive (by simp [hstate, BatchState.active])) (fun _ _ h => h)
      (fun _ _ h => h)
  | planned =>
    exact (spec_submitBatch.weaken (fun _ h => h.any) (fun _ _ h => h) (fun _ _ h => h)).bind
      (fun _ => hreconcile)
  | failed =>
    exact (spec_submitBatch.weaken (fun _ h => h.any) (fun _ _ h => h) (fun _ _ h => h)).bind
      (fun _ => hreconcile)
  | cancelled => exact spec_raise (fun _ h => h.fair)

theorem spec_perform_both (hop : op.removes = false) :
    Spec DiskRooted BothRooted (perform op) (fun _ => BothRooted) (fun _ => Fair) :=
  spec_perform (fun _ h => h.1) (fun _ h => h.fair) (fun _ _ h _ => h.after hop)
    (fun _ _ _ h _ => (h.after hop).fair)

theorem spec_processBatches (batches : List Nat) :
    Spec DiskRooted BothRooted (processBatches batches) (fun _ => BothRooted) (fun _ => Fair) := by
  induction batches with
  | nil => exact spec_ret (fun _ h => h)
  | cons i rest ih =>
    refine (spec_perform_both rfl).bind (fun _ => ?_)
    have hcurrent : Spec DiskRooted BothRooted
        (step (fun m => { m with current := some i }) : Code Unit)
        (fun _ m => m.current = some i ∧ BothRooted m) (fun _ => Fair) :=
      spec_step (fun _ h => h.1) (fun m h => ⟨rfl, h⟩)
    exact hcurrent.bind (fun _ => spec_processBatch.bind (fun _ => ih))

/-- Every batch is published. -/
def AllPublished (m : Machine) : Prop := ∀ b ∈ m.memory.batches, b.state = .published

theorem AllPublished.rooted (h : AllPublished m) (hmem : MemoryRooted m)
    (roots : List (Nat × Nat)) : ∀ k b, m.memory.batches[k]? = some b → Rooted roots k b := by
  intro k b hb
  apply (hmem k b hb).of_not_active
  rw [h b (List.mem_of_getElem? hb)]
  rfl

theorem spec_writeLedger_both :
    Spec DiskRooted BothRooted writeLedger (fun _ => BothRooted) (fun _ => Fair) :=
  (spec_perform_both rfl).bind (fun _ => spec_ret (fun _ h => h))

theorem spec_finalizeRun :
    Spec DiskRooted (fun m => BothRooted m ∧ AllPublished m) finalizeRun (fun _ => BothRooted)
      (fun _ => Fair) := by
  refine Spec.bind (spec_get (Q := fun _ m => BothRooted m ∧ AllPublished m) (fun _ h => h))
    (fun m => ?_)
  split
  · exact spec_ret (fun _ h => h.1)
  have hsame : ∀ {op : Op}, op.removes = false → Spec DiskRooted
      (fun m => BothRooted m ∧ AllPublished m) (perform op)
      (fun _ m => BothRooted m ∧ AllPublished m) (fun _ => Fair) := by
    intro op hop
    refine spec_perform (fun _ h => h.1.1) (fun _ h => h.1.fair) (fun m turn h _ => ?_)
      (fun _ _ _ h _ => (h.1.after hop).fair)
    refine ⟨h.1.after hop, ?_⟩
    rw [AllPublished, after_memory]
    exact h.2
  have hwrite : Spec DiskRooted (fun m => BothRooted m ∧ AllPublished m) writeLedger
      (fun _ m => (BothRooted m ∧ AllPublished m) ∧ m.disk = m.memory) (fun _ => Fair) := by
    refine Spec.bind (M := fun _ m => (BothRooted m ∧ AllPublished m) ∧ m.disk = m.memory)
      (spec_perform (fun _ h => h.1.1) (fun _ h => h.1.fair) (fun m turn h hexit => ?_)
        (fun _ _ _ h _ => (h.1.after rfl).fair)) (fun _ => spec_ret (fun _ h => h))
    refine ⟨⟨h.1.after rfl, ?_⟩, ?_⟩
    · rw [AllPublished, after_memory]
      exact h.2
    · rw [after_memory]
      exact after_write_disk hexit
  have hremove : Spec DiskRooted (fun m => (BothRooted m ∧ AllPublished m) ∧ m.disk = m.memory)
      (perform .removeRunRoot) (fun _ => BothRooted) (fun _ => Fair) := by
    have hafter : ∀ m turn, (BothRooted m ∧ AllPublished m) ∧ m.disk = m.memory →
        BothRooted (m.after .removeRunRoot turn) := by
      rintro m turn ⟨⟨hboth, hall⟩, hsynced⟩
      have hdisk : (m.after .removeRunRoot turn).disk = m.disk := by
        simp only [Machine.after, Op.effect]
        split <;> rfl
      refine ⟨fun k b hb => ?_, fun k b hb => ?_⟩
      · rw [hdisk, hsynced] at hb
        exact hall.rooted hboth.2 _ k b hb
      · rw [after_batch] at hb
        exact hall.rooted hboth.2 _ k b hb
    exact spec_perform (fun _ h => h.1.1.1) (fun _ h => h.1.1.fair)
      (fun m turn h _ => hafter m turn h) (fun m turn _ h _ => (hafter m turn h).fair)
  have hcomplete : Spec DiskRooted BothRooted (step (fun m => { m with
      memory := { m.memory with cleanupComplete := true } }) : Code Unit) (fun _ => BothRooted)
      (fun _ => Fair) :=
    spec_step (fun _ h => h.1) (fun m h => h)
  have hcheck : Spec DiskRooted (fun m => BothRooted m ∧ AllPublished m) policyCheck
      (fun _ m => BothRooted m ∧ AllPublished m) (fun _ => Fair) :=
    (hsame rfl).bind (fun _ => spec_ret (fun _ h => h))
  exact hcheck.bind (fun _ => hwrite.bind (fun _ => hremove.bind (fun _ =>
    hcomplete.bind (fun _ => spec_writeLedger_both))))

theorem spec_runBatches :
    Spec DiskRooted BothRooted runBatches (fun _ => BothRooted) (fun _ => Fair) := by
  refine Spec.bind (spec_get (Q := fun _ => BothRooted) (fun _ h => h)) (fun m => ?_)
  refine (spec_processBatches _).bind (fun _ => ?_)
  refine Spec.bind (spec_get (Q := fun m₀ m => m₀ = m ∧ BothRooted m) (fun _ h => ⟨rfl, h⟩))
    (fun m₀ => ?_)
  split
  · rename_i hall
    refine spec_finalizeRun.weaken (fun m h => ⟨h.2, ?_⟩) (fun _ _ h => h) (fun _ _ h => h)
    rw [← h.1]
    intro b hb
    simpa using List.all_eq_true.mp hall b hb
  · exact spec_raise (fun _ h => h.2.fair)

/-! ## Interrupts -/

theorem after_disk_of_ne (h : op ≠ .writeLedger) : (m.after op turn).disk = m.disk := by
  cases op with
  | writeLedger => exact absurd rfl h
  | _ =>
    simp only [Machine.after, Op.effect]
    split <;> rfl

theorem Fair.after (h : Fair m) (hop : op.removes = false) (hwrite : op ≠ .writeLedger) :
    Fair (m.after op turn) := by
  refine ⟨fun k b hb => ?_, fun k b hb => ?_⟩
  · rw [after_disk_of_ne hwrite] at hb
    exact (h.1 k b hb).mono (fun _ => mem_after_roots hop)
  · rw [after_batch] at hb
    rw [after_current]
    rcases h.2 k b hb with hrooted | hcurrent
    · exact Or.inl (hrooted.mono (fun _ => mem_after_roots hop))
    · exact Or.inr hcurrent

theorem Fair.both (h : Fair m)
    (hcurrent : ∀ i b, m.current = some i → m.batch i = some b → b.state.active = false) :
    BothRooted m := by
  refine ⟨h.1, fun k b hb => ?_⟩
  rcases h.2 k b hb with hrooted | ⟨hk, hactive⟩
  · exact hrooted
  · rw [hcurrent k b hk hb] at hactive
    cases hactive

theorem Fair.cancelled (h : Fair m) (hcurrent : m.current = some i) :
    BothRooted (m.assigned i (fun b => { b with state := .cancelled })) := by
  refine ⟨h.1, MemoryRooted.assigned (fun k b hk hb => ?_)
    (fun b _ => Rooted.of_failed rfl (by simp) (by simp))⟩
  rcases h.2 k b hb with hrooted | ⟨hk', -⟩
  · exact hrooted
  · rw [hcurrent, Option.some.injEq] at hk'
    exact absurd hk'.symm hk

theorem spec_cancelBatch (oarJobId : Option Nat) :
    Spec DiskRooted (fun m => Fair m ∧ m.current = some i) (cancelBatch i oarJobId)
      (fun _ => DiskRooted) (fun _ => DiskRooted) := by
  have hsame : ∀ {op : Op}, op.removes = false → op ≠ .writeLedger →
      Spec DiskRooted (fun m => Fair m ∧ m.current = some i) (perform op)
        (fun _ m => Fair m ∧ m.current = some i) (fun _ m => Fair m ∧ m.current = some i) := by
    intro op hop hwrite
    have hafter : ∀ m turn, Fair m ∧ m.current = some i →
        Fair (m.after op turn) ∧ (m.after op turn).current = some i :=
      fun m turn h => ⟨h.1.after hop hwrite, by rw [after_current, h.2]⟩
    exact spec_perform (fun _ h => h.1.1) (fun _ h => h) (fun m turn h _ => hafter m turn h)
      (fun m turn _ h _ => hafter m turn h)
  have hcancel : Spec DiskRooted (fun m => Fair m ∧ m.current = some i)
      (assign i (fun b => { b with state := .cancelled })) (fun _ => BothRooted)
      (fun _ => DiskRooted) :=
    Spec.bind ((hsame rfl (by simp)).weaken (fun _ h => h) (fun _ _ h => h) (fun _ _ h => h.1.1))
      (fun _ => spec_step (fun _ h => h.1.1) (fun m h => h.1.cancelled h.2))
  have hwrite : Spec DiskRooted BothRooted writeLedger (fun _ => DiskRooted) (fun _ => DiskRooted) :=
    spec_writeLedger_both.weaken (fun _ h => h) (fun _ _ h => h.1) (fun _ _ h => h.1)
  have hrest := hcancel.bind (fun _ => hwrite)
  cases oarJobId with
  | none => exact hrest
  | some job =>
    have hdelete : Spec DiskRooted (fun m => Fair m ∧ m.current = some i)
        (exceptException (do let _ ← perform (.oardel job)) (fun _ => ret ()) : Code Unit)
        (fun _ m => Fair m ∧ m.current = some i) (fun _ => DiskRooted) := by
      intro m hm
      rw [exceptException, wp_bind, wp_attempt, wp_bind]
      refine wp_mono (fun _ _ h => h) ?_ (fun _ h => h) (hsame rfl (by simp) m hm)
      intro e s hs
      simp only
      split
      · exact hs
      · exact hs.1.1
    exact hdelete.bind (fun _ => hrest)

theorem spec_handleInterrupt :
    Spec DiskRooted Fair handleInterrupt (fun _ => DiskRooted) (fun _ => DiskRooted) := by
  have hwrite : Spec DiskRooted BothRooted writeLedger (fun _ => DiskRooted) (fun _ => DiskRooted) :=
    spec_writeLedger_both.weaken (fun _ h => h) (fun _ _ h => h.1) (fun _ _ h => h.1)
  refine Spec.bind (spec_get (Q := fun m₀ m => m₀ = m ∧ Fair m) (fun _ h => ⟨rfl, h⟩)) (fun m₀ => ?_)
  cases hcurrent : m₀.current with
  | none =>
    refine hwrite.weaken (fun m h => ?_) (fun _ _ h => h) (fun _ _ h => h)
    obtain ⟨rfl, hfair⟩ := h
    exact hfair.both (fun i b hi => by rw [hcurrent] at hi; cases hi)
  | some i =>
    simp only
    cases hb : m₀.batch i with
    | none =>
      refine hwrite.weaken (fun m h => ?_) (fun _ _ h => h) (fun _ _ h => h)
      obtain ⟨rfl, hfair⟩ := h
      refine hfair.both (fun k b hk hbk => ?_)
      rw [hcurrent, Option.some.injEq] at hk
      rw [← hk, hb] at hbk
      cases hbk
    | some b =>
      simp only
      split
      · refine (spec_cancelBatch b.oarJobId).weaken (fun m h => ?_) (fun _ _ h => h)
          (fun _ _ h => h)
        obtain ⟨rfl, hfair⟩ := h
        exact ⟨hfair, hcurrent⟩
      · rename_i hactive
        refine hwrite.weaken (fun m h => ?_) (fun _ _ h => h) (fun _ _ h => h)
        obtain ⟨rfl, hfair⟩ := h
        refine hfair.both (fun k b' hk hbk => ?_)
        rw [hcurrent, Option.some.injEq] at hk
        rw [← hk, hb, Option.some.injEq] at hbk
        subst hbk
        simpa using hactive

theorem spec_runController :
    Spec DiskRooted BothRooted runController (fun _ => DiskRooted) (fun _ => DiskRooted) := by
  intro m hm
  rw [runController, wp_bind, wp_attempt]
  refine wp_mono (fun _ _ h => h.1) ?_ (fun _ h => h) (spec_runBatches m hm)
  intro e s hs
  cases e with
  | interrupted =>
    exact (spec_handleInterrupt.bind (fun _ => spec_raise (fun _ h => h))) s hs
  | _ => exact hs.1

/-! ## Histories -/

/-- What a history of controller processes leaves behind: each one loads the ledger and ends by
itself or is killed. -/
inductive Left (count : Nat) : Machine → Prop where
  | start : Left count {
      memory := newLedger count, disk := newLedger count, current := none, live := [], nextJob := 0,
      remoteRoots := [], turns := [], trace := [] }
  | ended {m : Machine} (turns : List Turn) :
      Left count m → Left count (run runController (m.load turns)).2
  | killed {m m' : Machine} (turns : List Turn) :
      Left count m → Leaves runController (m.load turns) m' → Left count m'

theorem DiskRooted.load (h : DiskRooted m) (turns : List Turn) : BothRooted (m.load turns) := ⟨h, h⟩

/-- **Every ledger left behind names the roots it needs, and they are there.** -/
theorem diskRooted_of_left {count : Nat} (h : Left count m) : DiskRooted m := by
  induction h with
  | start =>
    intro k b hb
    have hmem := List.mem_of_getElem? hb
    rw [newLedger, List.mem_replicate] at hmem
    rw [hmem.2]
    exact Rooted.of_failed rfl (by simp [newBatchRecord]) (by simp [newBatchRecord])
  | @ended m turns _ ih =>
    have hrun := wp_run (spec_runController _ (ih.load turns))
    cases hr : run runController (m.load turns) with
    | mk result m' =>
      rw [hr] at hrun
      cases result with
      | ok a => exact hrun
      | error e => exact hrun
  | killed turns _ hleaves ih =>
    obtain ⟨n, hn⟩ := hleaves
    exact wp_killed (spec_runController _ (ih.load turns)) hn

end OsmPolygonWikidata.Grid5000
