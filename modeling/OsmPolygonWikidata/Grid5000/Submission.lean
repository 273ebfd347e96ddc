import OsmPolygonWikidata.Grid5000.Controller

/-! # One live job per batch

A batch gets a new job from the states `planned` and `failed` only, so no job of a batch in one of
these states may still be waiting or running. Submission keeps to that as long as its failures are
told apart: `_record_submission_failure` leaves a batch `submitted` after a timeout, since the
command may have taken effect, and makes it `failed` after any other exception. The other exceptions
can also come after the job was queued.
-/

namespace OsmPolygonWikidata.Grid5000

open Durable Prog

/-! ## What a request can do -/

variable {m m' : Machine} {op : Op} {turn : Turn} {i job : Nat} {A B : Type}

/-- A field that no request of this kind changes. -/
theorem after_of_effect {R : Type} (f : Machine → R) (hf : ∀ m', f (op.effect m') = f m') :
    f (m.after op turn) = f { m with
      live := m.live.filter (fun j => !turn.ended j.id)
      turns := m.turns.tail
      trace := m.trace ++ [⟨op, m.currentState,
        op.liveJobs (m.live.filter (fun j => !turn.ended j.id)), turn.reply⟩] } := by
  unfold Machine.after
  dsimp only
  split
  · exact hf _
  · rfl

@[simp] theorem after_memory : (m.after op turn).memory = m.memory :=
  after_of_effect Machine.memory (fun _ => by cases op <;> rfl)

@[simp] theorem after_current : (m.after op turn).current = m.current :=
  after_of_effect Machine.current (fun _ => by cases op <;> rfl)

@[simp] theorem after_batch : (m.after op turn).batch i = m.batch i := by
  rw [Machine.batch, Machine.batch, after_memory]

theorem after_trace : (m.after op turn).trace = m.trace ++ [⟨op, m.currentState,
    op.liveJobs (m.live.filter (fun j => !turn.ended j.id)), turn.reply⟩] :=
  after_of_effect Machine.trace (fun _ => by cases op <;> rfl)

variable (m op turn) in
theorem after_disk : (m.after op turn).disk = m.disk ∨ (m.after op turn).disk = m.memory := by
  cases op with
  | writeLedger =>
    unfold Machine.after
    dsimp only
    split
    · exact Or.inr rfl
    · exact Or.inl rfl
  | _ => exact Or.inl (after_of_effect Machine.disk (fun _ => rfl))

theorem after_live (h : ∀ i, op ≠ .oarsub i) :
    (m.after op turn).live = m.live.filter (fun j => !turn.ended j.id) := by
  refine after_of_effect Machine.live (fun _ => ?_)
  cases op with
  | oarsub i => exact absurd rfl (h i)
  | _ => rfl

theorem after_oarsub_live (h : turn.reply.took (.oarsub i) = true) : (m.after (.oarsub i) turn).live
      = ⟨m.nextJob, i⟩ :: m.live.filter (fun j => !turn.ended j.id) := by
  simp [Machine.after, Op.effect, h]

theorem after_oarsub_live_of_not_took (h : turn.reply.took (.oarsub i) = false) :
    (m.after (.oarsub i) turn).live = m.live.filter (fun j => !turn.ended j.id) := by
  simp [Machine.after, h]

theorem after_oarsub_disk : (m.after (.oarsub i) turn).disk = m.disk :=
  after_of_effect Machine.disk (fun _ => rfl)

theorem after_write_disk (h : turn.reply.exit .writeLedger = none) :
    (m.after .writeLedger turn).disk = m.memory := by
  have htook : turn.reply.took .writeLedger = true := by
    cases hreply : turn.reply with
    | interrupt took =>
      rw [hreply] at h
      cases h
    | _ => rfl
  simp [Machine.after, Op.effect, htook]

/-! ## Safety -/

/-- No run submits the batch again while this job may be waiting or running. -/
def Blocked (b : Batch) (job : Nat) : Prop :=
  b.state = .cancelled ∨ (b.state.active = true ∧ (b.oarJobId = none ∨ b.oarJobId = some job))

/-- The batches that have live jobs are blocked, in memory and on disk, and no job was submitted
beside a live one. -/
structure Safe (m : Machine) : Prop where
  memory : ∀ j ∈ m.live, ∃ b, m.memory.batches[j.batch]? = some b ∧ Blocked b j.id
  disk : ∀ j ∈ m.live, ∃ b, m.disk.batches[j.batch]? = some b ∧ Blocked b j.id
  trace : ∀ e ∈ m.trace, ∀ i, e.op = .oarsub i → e.live = []

/-- The batch has no live job. -/
def Free (i : Nat) (m : Machine) : Prop := ∀ j ∈ m.live, j.batch ≠ i

/-- The requests whose end the controller can tell from the exception: a submission that takes
effect names its job or times out, and the policy check that follows it does not fail otherwise than
by a timeout. -/
structure Harmless (e : Event) : Prop where
  submission : ∀ i, e.op = .oarsub i → e.reply ≠ .unparsable ∧ e.reply ≠ .fails true
  check : e.op = .policyCheck → e.state = some .running → ∀ took, e.reply ≠ .fails took

theorem Safe.after (h : Safe m) (hop : ∀ i, op ≠ .oarsub i) : Safe (m.after op turn) := by
  have hlive : ∀ j ∈ (m.after op turn).live, j ∈ m.live := by
    rw [after_live hop]
    exact fun j hj => List.mem_of_mem_filter hj
  constructor
  · intro j hj
    rw [after_memory]
    exact h.memory j (hlive j hj)
  · intro j hj
    rcases after_disk m op turn with hdisk | hdisk
    · rw [hdisk]
      exact h.disk j (hlive j hj)
    · rw [hdisk]
      exact h.memory j (hlive j hj)
  · intro e he k hk
    rw [after_trace, List.mem_append, List.mem_singleton] at he
    rcases he with he | rfl
    · exact h.trace e he k hk
    · exact absurd hk (hop k)

theorem Free.after (h : Free i m) (hop : ∀ k, op ≠ .oarsub k) : Free i (m.after op turn) := by
  intro j hj
  rw [after_live hop] at hj
  exact h j (List.mem_of_mem_filter hj)

theorem Safe.free (h : Safe m) {b : Batch} (hb : m.batch i = some b)
    (hstate : b.state ≠ .cancelled) (hactive : b.state.active = false) : Free i m := by
  intro j hj heq
  obtain ⟨b', hb', hblocked⟩ := h.memory j hj
  have : b' = b := by
    rw [heq] at hb'
    exact Option.some.inj (hb'.symm.trans hb)
  subst this
  rcases hblocked with hcancelled | ⟨hact, -⟩
  · exact hstate hcancelled
  · rw [hactive] at hact
    cases hact

theorem Safe.free_of_over (h : Safe m) {b : Batch} (hb : m.batch i = some b)
    (hactive : b.state.active = true) (hjob : b.oarJobId = some job)
    (hover : ∀ j ∈ m.live, j.id ≠ job) : Free i m := by
  intro j hj heq
  obtain ⟨b', hb', hblocked⟩ := h.memory j hj
  have : b' = b := by
    rw [heq] at hb'
    exact Option.some.inj (hb'.symm.trans hb)
  subst this
  rcases hblocked with hcancelled | ⟨-, hnone | hsome⟩
  · rw [hcancelled] at hactive
    cases hactive
  · rw [hnone] at hjob
    cases hjob
  · rw [hjob, Option.some.injEq] at hsome
    exact hover j hj hsome.symm

variable {f : Batch → Batch}

theorem batch_assigned : (m.assigned i f).batch i = (m.batch i).map f := by
  simp [Machine.assigned, Machine.batch]

theorem Safe.assigned (h : Safe m) {f : Batch → Batch}
    (hf : ∀ j ∈ m.live, j.batch = i → ∀ b, m.batch i = some b → Blocked b j.id →
      Blocked (f b) j.id) : Safe (m.assigned i f) where
  memory := by
    intro j hj
    obtain ⟨b, hb, hblocked⟩ := h.memory j hj
    by_cases hi : i = j.batch
    · refine ⟨f b, ?_, hf j hj hi.symm b (by rw [Machine.batch, hi]; exact hb) hblocked⟩
      simp [Machine.assigned, hi, hb]
    · refine ⟨b, ?_, hblocked⟩
      simp [Machine.assigned, hi, hb]
  disk := h.disk
  trace := h.trace

/-! ## Triples

`Triple P p Q E`: as long as every request so far was harmless, `p` leads from `P` to `Q` or, with an
exception, to `E`, and is safe at every kill. -/

def Good (m : Machine) : Prop := ∀ e ∈ m.trace, Harmless e

def Guard (P : Machine → Prop) (m : Machine) : Prop := Good m → P m

def Triple (P : Machine → Prop) (p : Code A) (Q : A → Machine → Prop) (E : Exit → Machine → Prop) :
    Prop :=
  ∀ m, Guard P m → wp p (fun a => Guard (Q a)) (fun e => Guard (E e)) (Guard Safe) m

variable {P P' : Machine → Prop} {Q Q' : A → Machine → Prop} {E E' : Exit → Machine → Prop}
  {p : Code A}

theorem Triple.weaken (h : Triple P p Q E) (hP : ∀ m, P' m → P m) (hQ : ∀ a m, Q a m → Q' a m)
    (hE : ∀ e m, E e m → E' e m) : Triple P' p Q' E' := by
  intro m hm
  refine wp_mono ?_ ?_ (fun _ h => h) (h m (fun hgood => hP m (hm hgood)))
  · exact fun a s hs hgood => hQ a s (hs hgood)
  · exact fun e s hs hgood => hE e s (hs hgood)

theorem Triple.bind {M : A → Machine → Prop} {Q : B → Machine → Prop} {k : A → Code B}
    (hp : Triple P p M E) (hk : ∀ a, Triple (M a) (k a) Q E) : Triple P (p >>= k) Q E := by
  intro m hm
  rw [wp_bind]
  exact wp_imp (fun a s hs => hk a s hs) (hp m hm)

theorem triple_ret {a : A} (h : ∀ m, P m → Q a m) : Triple P (ret a : Code A) Q E :=
  fun m hm hgood => h m (hm hgood)

theorem triple_raise {e : Exit} (h : ∀ m, P m → E e m) : Triple P (raise e : Code A) Q E :=
  fun m hm hgood => h m (hm hgood)

theorem triple_get {Q : Machine → Machine → Prop} (h : ∀ m, P m → Q m m) :
    Triple P (get : Code Machine) Q E :=
  fun m hm hgood => h m (hm hgood)

theorem triple_step {f : Machine → Machine} {Q : Unit → Machine → Prop}
    (htrace : ∀ m, (f m).trace = m.trace) (hsafe : ∀ m, P m → Safe m)
    (h : ∀ m, P m → Q () (f m)) : Triple P (step f : Code Unit) Q E := by
  intro m hm
  refine ⟨fun hgood => hsafe m (hm hgood), fun hgood => ?_⟩
  rw [Good, htrace] at hgood
  exact h m (hm hgood)

theorem triple_getBatch {Q : Batch → Machine → Prop} (h : ∀ m b, P m → m.batch i = some b → Q b m)
    (hnone : ∀ m, P m → m.batch i = none → E .error m) :
    Triple P (getBatch i) Q E := by
  intro m hm
  rw [getBatch, wp_read]
  cases hb : m.batch i with
  | none => exact fun hgood => hnone m (hm hgood) hb
  | some b => exact fun hgood => h m b (hm hgood) hb

theorem triple_perform {Q : Turn → Machine → Prop} (hsafe : ∀ m, P m → Safe m)
    (hstop : ∀ m, P m → E .stopped m)
    (hstep : ∀ m turn, P m → Harmless ⟨op, m.currentState,
        op.liveJobs (m.live.filter (fun j => !turn.ended j.id)), turn.reply⟩ →
      (turn.reply.exit op = none → Q turn (m.after op turn))
        ∧ ∀ e, turn.reply.exit op = some e → E e (m.after op turn)) :
    Triple P (perform op) Q E := by
  intro m hm
  rw [perform, wp_read]
  cases m.turns with
  | nil => exact fun hgood => hstop m (hm hgood)
  | cons turn turns =>
    refine ⟨fun hgood => hsafe m (hm hgood), ?_⟩
    have hfinal : Good (m.after op turn) → (turn.reply.exit op = none → Q turn (m.after op turn))
        ∧ ∀ e, turn.reply.exit op = some e → E e (m.after op turn) := by
      intro hgood
      rw [Good, after_trace] at hgood
      refine hstep m turn (hm fun e he => hgood e (List.mem_append_left _ he)) ?_
      exact hgood _ (List.mem_append_right _ (List.mem_singleton_self _))
    cases hexit : turn.reply.exit op with
    | none => exact fun hgood => (hfinal hgood).1 hexit
    | some e => exact fun hgood => (hfinal hgood).2 e hexit

theorem triple_perform_same (hsafe : ∀ m, P m → Safe m)
    (hsame : ∀ m turn, P m → P (m.after op turn)) :
    Triple P (perform op) (fun _ => P) (fun _ => P) :=
  triple_perform hsafe (fun _ h => h)
    (fun m turn h _ => ⟨fun _ => hsame m turn h, fun _ _ => hsame m turn h⟩)

theorem triple_assign {Q : Unit → Machine → Prop} (hsafe : ∀ m, P m → Safe m)
    (hsame : ∀ m turn, P m → P (m.after .point turn)) (h : ∀ m, P m → Q () (m.assigned i f)) :
    Triple P (assign i f) Q (fun _ => P) := by
  rw [assign]
  exact (triple_perform_same hsafe hsame).bind
    (fun _ => triple_step (fun _ => rfl) hsafe h)

theorem Triple.exceptException {handler : Exit → Code A} (hp : Triple P p Q E)
    (hhandler : ∀ e, e.isException = true → Triple (E e) (handler e) Q E')
    (hother : ∀ e m, e.isException = false → E e m → E' e m) :
    Triple P (exceptException p handler) Q E' := by
  intro m hm
  rw [Grid5000.exceptException, wp_bind, wp_attempt]
  refine wp_mono (fun a s hs => hs) ?_ (fun _ h => h) (hp m hm)
  intro e s hs
  simp only
  by_cases he : e.isException = true
  · rw [if_pos he]
    exact hhandler e he s hs
  · rw [if_neg he]
    exact fun hgood => hother e s (by simpa using he) (hs hgood)

/-! ## A batch without a live job -/

/-- The current batch has no live job. -/
structure Open (i : Nat) (m : Machine) : Prop where
  current : m.current = some i
  safe : Safe m
  free : Free i m

theorem Open.after (h : Open i m) (hop : ∀ k, op ≠ .oarsub k) : Open i (m.after op turn) :=
  ⟨by rw [after_current, h.current], h.safe.after hop, h.free.after hop⟩

theorem Open.assigned (h : Open i m) (f : Batch → Batch) : Open i (m.assigned i f) :=
  ⟨h.current, h.safe.assigned (fun j hj hji => absurd hji (h.free j hj)), h.free⟩

theorem triple_perform_open (hop : ∀ k, op ≠ .oarsub k) :
    Triple (Open i) (perform op) (fun _ => Open i) (fun _ => Open i) :=
  triple_perform_same (fun _ h => h.safe) (fun _ _ h => h.after hop)

theorem triple_assign_open (f : Batch → Batch) :
    Triple (Open i) (assign i f) (fun _ => Open i) (fun _ => Open i) :=
  triple_assign (fun _ h => h.safe) (fun _ _ h => h.after (by simp)) (fun _ h => h.assigned f)

theorem triple_getBatch_open : Triple (Open i) (getBatch i) (fun _ => Open i) (fun _ => Open i) :=
  triple_getBatch (fun _ _ h _ => h) (fun _ h _ => h)

theorem triple_writeLedger_open : Triple (Open i) writeLedger (fun _ => Open i) (fun _ => Open i) :=
  (triple_perform_open (by simp)).bind (fun _ => triple_ret (fun _ h => h))

theorem triple_cleanupRemoteJob :
    Triple (Open i) (cleanupRemoteJob i) (fun _ => Open i) (fun _ => Open i) := by
  refine triple_getBatch_open.bind (fun b => ?_)
  cases b.remoteJobRoot with
  | none => exact triple_raise (fun _ h => h)
  | some attempt =>
    simp only
    split
    · exact triple_ret (fun _ h => h)
    · exact (triple_perform_open (by simp)).bind (fun _ =>
        (triple_assign_open _).bind (fun _ => triple_writeLedger_open))

theorem triple_failBatch : Triple (Open i) (failBatch i) (fun _ => Open i) (fun _ => Open i) :=
  (triple_perform_open (by simp)).bind (fun _ => (triple_assign_open _).bind (fun _ =>
    triple_writeLedger_open.bind (fun _ => triple_cleanupRemoteJob.bind (fun _ =>
      triple_raise (fun _ h => h)))))

theorem triple_retrieveBatch (status : JobStatus) :
    Triple (Open i) (retrieveBatch i status) (fun _ => Open i) (fun _ => Open i) := by
  refine triple_getBatch_open.bind (fun b => ?_)
  have hdownload : Triple (Open i) (downloadReceipt i (b.remoteJobRoot.getD 0)) (fun _ => Open i)
      (fun _ => Open i) := by
    refine (triple_get (Q := fun _ => Open i) (fun m h => h)).bind (fun m => ?_)
    refine (triple_perform_open (by simp)).bind (fun turn => ?_)
    split
    · exact triple_ret (fun _ h => h)
    · exact triple_raise (fun _ h => h)
  refine hdownload.bind (fun receipt => ?_)
  cases receipt with
  | invalid => exact triple_failBatch
  | failed => exact triple_failBatch
  | succeeded =>
    simp only
    split
    · exact (triple_perform_open (by simp)).bind (fun _ => (triple_assign_open _).bind (fun _ =>
        triple_writeLedger_open))
    · exact triple_failBatch

theorem triple_publishBatch :
    Triple (Open i) (publishBatch i) (fun _ => Open i) (fun _ => Open i) := by
  have hbaseline : Triple (Open i) (do let _ ← perform .assertBaseline : Code Unit)
      (fun _ => Open i) (fun _ => Open i) :=
    (triple_perform_open (by simp)).bind (fun _ => triple_ret (fun _ h => h))
  have hpublish : Triple (Open i) (do
      let _ ← perform (.publishSentenceBatch i)
      let _ ← perform (.verifySentenceBatch i) : Code Unit) (fun _ => Open i) (fun _ => Open i) :=
    (triple_perform_open (by simp)).bind (fun _ => (triple_perform_open (by simp)).bind (fun _ =>
      triple_ret (fun _ h => h)))
  refine (hbaseline.exceptException (fun e _ => ?_) (fun _ _ _ h => h)).bind (fun _ => ?_)
  · exact triple_writeLedger_open.bind (fun _ => triple_raise (fun _ h => h))
  refine (hpublish.exceptException (fun e _ => ?_) (fun _ _ _ h => h)).bind (fun _ => ?_)
  · exact (triple_assign_open _).bind (fun _ =>
      triple_writeLedger_open.bind (fun _ => triple_raise (fun _ h => h)))
  exact (triple_assign_open _).bind (fun _ =>
    triple_writeLedger_open.bind (fun _ => triple_cleanupRemoteJob))

theorem triple_publishIfReady :
    Triple (Open i) (publishIfReady i) (fun _ => Open i) (fun _ => Open i) := by
  refine triple_getBatch_open.bind (fun b => ?_)
  split
  · exact triple_publishBatch
  · exact triple_ret (fun _ h => h)

/-! ## Submitting -/

/-- The current batch has no live job and is `submitted` without a job, in memory and on disk. -/
structure Filed (i : Nat) (m : Machine) : Prop extends Open i m where
  memory : ∃ b, m.batch i = some b ∧ b.state = .submitted ∧ b.oarJobId = none
  disk : ∃ b, m.disk.batches[i]? = some b ∧ b.state = .submitted ∧ b.oarJobId = none

theorem Filed.after (h : Filed i m) (hop : ∀ k, op ≠ .oarsub k) : Filed i (m.after op turn) where
  toOpen := h.toOpen.after hop
  memory := by
    rw [after_batch]
    exact h.memory
  disk := by
    rcases after_disk m op turn with hdisk | hdisk
    · rw [hdisk]
      exact h.disk
    · rw [hdisk]
      exact h.memory

/-- The live jobs of the current batch are all this one, and the batch is active with it or still
without a job. -/
structure Held (i job : Nat) (m : Machine) : Prop where
  current : m.current = some i
  safe : Safe m
  only : ∀ j ∈ m.live, j.batch = i → j.id = job
  memory : ∃ b, m.batch i = some b ∧ b.state.active = true
    ∧ (b.oarJobId = none ∨ b.oarJobId = some job)

theorem Held.after (h : Held i job m) (hop : ∀ k, op ≠ .oarsub k) :
    Held i job (m.after op turn) where
  current := by rw [after_current, h.current]
  safe := h.safe.after hop
  only := by
    intro j hj
    rw [after_live hop] at hj
    exact h.only j (List.mem_of_mem_filter hj)
  memory := by
    rw [after_batch]
    exact h.memory

theorem Held.assigned (h : Held i job m)
    (hactive : ∀ b, b.state.active = true → (f b).state.active = true)
    (hjob : ∀ b, (b.oarJobId = none ∨ b.oarJobId = some job) →
      (f b).oarJobId = none ∨ (f b).oarJobId = some job) : Held i job (m.assigned i f) where
  current := h.current
  safe := by
    apply h.safe.assigned
    intro j hj hji b hb hblocked
    obtain ⟨b', hb', hact, hid⟩ := h.memory
    have hbb : b' = b := Option.some.inj (hb'.symm.trans hb)
    subst hbb
    refine Or.inr ⟨hactive b' hact, ?_⟩
    rw [h.only j hj hji]
    exact hjob b' hid
  only := h.only
  memory := by
    obtain ⟨b, hb, hact, hid⟩ := h.memory
    exact ⟨f b, by rw [batch_assigned, hb]; rfl, hactive b hact, hjob b hid⟩

theorem Filed.held (h : Filed i m) (htook : turn.reply.took (.oarsub i) = true) :
    Held i m.nextJob (m.after (.oarsub i) turn) := by
  obtain ⟨b, hb, hstate, hnone⟩ := h.memory
  obtain ⟨b', hb', hstate', hnone'⟩ := h.disk
  have hlive := after_oarsub_live (m := m) htook
  refine ⟨by rw [after_current, h.current], ⟨?_, ?_, ?_⟩, ?_, ?_⟩
  · intro j hj
    rw [hlive] at hj
    rw [after_memory]
    rcases List.mem_cons.mp hj with rfl | hj
    · exact ⟨b, hb, Or.inr ⟨by rw [hstate]; rfl, Or.inl hnone⟩⟩
    · exact h.safe.memory j (List.mem_of_mem_filter hj)
  · intro j hj
    rw [hlive] at hj
    rw [after_oarsub_disk]
    rcases List.mem_cons.mp hj with rfl | hj
    · exact ⟨b', hb', Or.inr ⟨by rw [hstate']; rfl, Or.inl hnone'⟩⟩
    · exact h.safe.disk j (List.mem_of_mem_filter hj)
  · intro e he k hk
    rw [after_trace, List.mem_append, List.mem_singleton] at he
    rcases he with he | rfl
    · exact h.safe.trace e he k hk
    · -- the batch had no live job before the submission
      show (m.live.filter _).filter _ = []
      rw [List.filter_filter, List.filter_eq_nil_iff]
      intro j hj hboth
      exact h.free j hj (by simpa using (Bool.and_eq_true_iff.mp hboth).1)
  · intro j hj hji
    rw [hlive] at hj
    rcases List.mem_cons.mp hj with rfl | hj
    · rfl
    · exact absurd hji (h.free j (List.mem_of_mem_filter hj))
  · exact ⟨b, by rw [after_batch]; exact hb, by rw [hstate]; rfl, Or.inl hnone⟩

theorem Filed.not_held (h : Filed i m) (htook : turn.reply.took (.oarsub i) = false) :
    Open i (m.after (.oarsub i) turn) := by
  have hlive := after_oarsub_live_of_not_took (m := m) htook
  refine ⟨by rw [after_current, h.current], ⟨?_, ?_, ?_⟩, ?_⟩
  · intro j hj
    rw [hlive] at hj
    rw [after_memory]
    exact h.safe.memory j (List.mem_of_mem_filter hj)
  · intro j hj
    rw [hlive] at hj
    rw [after_oarsub_disk]
    exact h.safe.disk j (List.mem_of_mem_filter hj)
  · intro e he k hk
    rw [after_trace, List.mem_append, List.mem_singleton] at he
    rcases he with he | rfl
    · exact h.safe.trace e he k hk
    · show (m.live.filter _).filter _ = []
      rw [List.filter_filter, List.filter_eq_nil_iff]
      intro j hj hboth
      exact h.free j hj (by simpa using (Bool.and_eq_true_iff.mp hboth).1)
  · intro j hj
    rw [hlive] at hj
    exact h.free j (List.mem_of_mem_filter hj)

/-- How the `try` block of a submission may end: with an exception that is no timeout, the batch has
no live job. -/
def SubmissionExit (i : Nat) (e : Exit) (m : Machine) : Prop :=
  m.current = some i ∧ Safe m ∧ (e = .error → Free i m)

theorem Open.submissionExit (h : Open i m) (e : Exit) : SubmissionExit i e m :=
  ⟨h.current, h.safe, fun _ => h.free⟩

theorem triple_perform_filed (hop : ∀ k, op ≠ .oarsub k) :
    Triple (Filed i) (perform op) (fun _ => Filed i) (SubmissionExit i) :=
  (triple_perform_same (fun _ h => h.safe) (fun _ _ h => h.after hop)).weaken (fun _ h => h)
    (fun _ _ h => h) (fun e _ h => h.toOpen.submissionExit e)

theorem triple_oarsub :
    Triple (Filed i) (oarsub i) (fun job m => Held i job m) (SubmissionExit i) := by
  refine (triple_get (Q := fun m₀ m => m₀ = m ∧ Filed i m) (fun m h => ⟨rfl, h⟩)).bind
    (fun m₀ => ?_)
  have hperform : Triple (fun m => m₀ = m ∧ Filed i m) (perform (.oarsub i))
      (fun turn m => turn.reply ≠ .unparsable ∧ Held i m₀.nextJob m) (SubmissionExit i) := by
    refine triple_perform (fun _ h => h.2.safe)
      (fun _ h => h.2.toOpen.submissionExit _) (fun m turn h hharmless => ?_)
    obtain ⟨rfl, hfiled⟩ := h
    obtain ⟨hparsed, hfails⟩ := hharmless.submission i rfl
    constructor
    · intro hexit
      refine ⟨hparsed, hfiled.held ?_⟩
      cases hreply : turn.reply with
      | done => rfl
      | unparsable => rfl
      | fails took =>
        rw [hreply] at hexit
        cases hexit
      | timesOut took =>
        rw [hreply] at hexit
        cases hexit
      | interrupt took =>
        rw [hreply] at hexit
        cases hexit
    · intro e hexit
      cases htook : turn.reply.took (.oarsub i) with
      | false => exact (hfiled.not_held htook).submissionExit e
      | true =>
        have hheld := hfiled.held htook
        refine ⟨hheld.current, hheld.safe, fun he => ?_⟩
        -- an exception that is no timeout is a failure, and this one took effect
        subst he
        cases hreply : turn.reply with
        | fails took =>
          rw [hreply] at htook
          have : took = true := htook
          exact absurd (hreply.trans (by rw [this])) hfails
        | _ =>
          rw [hreply] at hexit
          cases hexit
  refine hperform.bind (fun turn => ?_)
  intro m hm
  by_cases hreply : turn.reply = .unparsable
  · rw [if_pos hreply]
    exact fun hgood => absurd hreply (hm hgood).1
  · rw [if_neg hreply]
    exact fun hgood => (hm hgood).2

/-- The job is known to the batch in memory. -/
def Named (i job : Nat) (st : BatchState) (m : Machine) : Prop :=
  Held i job m ∧ ∃ b, m.batch i = some b ∧ b.state = st ∧ b.oarJobId = some job

theorem Named.after {st : BatchState} (h : Named i job st m) (hop : ∀ k, op ≠ .oarsub k) :
    Named i job st (m.after op turn) := by
  refine ⟨h.1.after hop, ?_⟩
  rw [after_batch]
  exact h.2

theorem Held.submissionExit (h : Held i job m) {e : Exit} (he : e ≠ .error) :
    SubmissionExit i e m :=
  ⟨h.current, h.safe, fun h => absurd h he⟩

theorem triple_perform_held (hlocal : op.isLocal = true)
    (hP : ∀ m, P m → Held i job m) (hsame : ∀ m turn, P m → P (m.after op turn)) :
    Triple P (perform op) (fun _ => P) (SubmissionExit i) := by
  refine triple_perform (fun m h => (hP m h).safe)
    (fun m h => (hP m h).submissionExit (by simp)) (fun m turn h _ => ⟨fun _ => hsame m turn h, ?_⟩)
  intro e hexit
  apply (hP _ (hsame m turn h)).submissionExit
  rintro rfl
  cases hreply : turn.reply with
  | _ => simp [hreply, Reply.exit, hlocal] at hexit

theorem triple_nameJob : Triple (Held i job) (assign i (fun b => { b with oarJobId := some job }))
      (fun _ m => Held i job m ∧ ∃ b, m.batch i = some b ∧ b.oarJobId = some job)
      (SubmissionExit i) := by
  rw [assign]
  refine (triple_perform_held rfl (fun _ h => h) (fun _ _ h => h.after (by simp))).bind
    (fun _ => triple_step (fun _ => rfl) (fun _ h => h.safe) (fun m h => ?_))
  refine ⟨h.assigned (fun _ h => h) (fun _ _ => Or.inr rfl), ?_⟩
  obtain ⟨b, hb, -⟩ := h.memory
  exact ⟨_, by rw [batch_assigned, hb]; rfl, rfl⟩

theorem triple_setRunning :
    Triple (fun m => Held i job m ∧ ∃ b, m.batch i = some b ∧ b.oarJobId = some job)
      (assign i (fun b => { b with state := .running })) (fun _ => Named i job .running)
      (SubmissionExit i) := by
  rw [assign]
  refine (triple_perform_held rfl (fun _ h => h.1) (fun _ _ h => ?_)).bind
    (fun _ => triple_step (fun _ => rfl) (fun _ h => h.1.safe) (fun m h => ?_))
  · refine ⟨h.1.after (by simp), ?_⟩
    rw [after_batch]
    exact h.2
  · obtain ⟨b, hb, hjob⟩ := h.2
    refine ⟨h.1.assigned (fun _ _ => rfl) (fun _ h => h), ?_⟩
    exact ⟨{ b with state := .running }, by rw [batch_assigned, hb]; rfl, rfl, hjob⟩

theorem triple_policyCheck_running :
    Triple (Named i job .running) policyCheck (fun _ => Named i job .running)
      (SubmissionExit i) := by
  have hperform : Triple (Named i job .running) (perform .policyCheck)
      (fun _ => Named i job .running) (SubmissionExit i) := by
    refine triple_perform (fun _ h => h.1.safe) (fun _ h => h.1.submissionExit (by simp))
      (fun m turn h hharmless => ⟨fun _ => h.after (by simp), ?_⟩)
    intro e hexit
    apply (h.1.after (by simp)).submissionExit
    rintro rfl
    obtain ⟨b, hb, hstate, -⟩ := h.2
    have hrunning : m.currentState = some .running := by
      simp only [Machine.currentState, h.1.current, hb, hstate, Option.bind_eq_bind,
        Option.bind_some]
      rfl
    cases hreply : turn.reply with
    | fails took => exact hharmless.check rfl hrunning took hreply
    | _ =>
      rw [hreply] at hexit
      cases hexit
  exact hperform.bind (fun _ => triple_ret (fun _ h => h))

theorem triple_submitRemotely :
    Triple (Filed i) (submitRemotely i) (fun _ m => ∃ job, Named i job .running m)
      (SubmissionExit i) := by
  refine (triple_perform_filed (by simp)).bind (fun _ => ?_)
  refine (triple_perform_filed (by simp)).bind (fun _ => ?_)
  refine (triple_getBatch (Q := fun _ => Filed i) (fun _ _ h _ => h)
    (fun m h _ => h.toOpen.submissionExit _)).bind (fun b => ?_)
  refine (triple_perform_filed (by simp)).bind (fun _ => ?_)
  have hcheck : Triple (Filed i) policyCheck (fun _ => Filed i) (SubmissionExit i) :=
    (triple_perform_filed (by simp)).bind (fun _ => triple_ret (fun _ h => h))
  refine hcheck.bind (fun _ => triple_oarsub.bind (fun job => ?_))
  refine triple_nameJob.bind (fun _ => triple_setRunning.bind (fun _ => ?_))
  have hwrite : Triple (Named i job .running) writeLedger (fun _ => Named i job .running)
      (SubmissionExit i) :=
    (triple_perform_held rfl (fun _ h => h.1) (fun _ _ h => h.after (by simp))).bind
      (fun _ => triple_ret (fun _ h => h))
  exact hwrite.bind (fun _ => triple_policyCheck_running.weaken (fun _ h => h)
    (fun _ _ h => ⟨job, h⟩) (fun _ _ h => h))

theorem triple_fileBatch :
    Triple (fun m => Open i m ∧ ∃ b, m.batch i = some b ∧ b.state = .submitted ∧ b.oarJobId = none)
      writeLedger (fun _ => Filed i) (fun _ => Safe) := by
  have hperform : Triple
      (fun m => Open i m ∧ ∃ b, m.batch i = some b ∧ b.state = .submitted ∧ b.oarJobId = none)
      (perform .writeLedger) (fun _ => Filed i) (fun _ => Safe) := by
    refine triple_perform (fun _ h => h.1.safe) (fun _ h => h.1.safe) (fun m turn h _ => ⟨?_, ?_⟩)
    · intro hexit
      refine ⟨h.1.after (by simp), ?_, ?_⟩
      · rw [after_batch]
        exact h.2
      · rw [after_write_disk hexit]
        exact h.2
    · intro e _
      exact (h.1.after (by simp)).safe
  exact hperform.bind (fun _ => triple_ret (fun _ h => h))

/-- The current batch is active. -/
structure Active (i : Nat) (m : Machine) : Prop where
  current : m.current = some i
  safe : Safe m
  active : ∃ b, m.batch i = some b ∧ b.state.active = true

/-- The current batch has no live job, and its record is known to be `R`. -/
def OpenAs (i : Nat) (R : Batch → Prop) (m : Machine) : Prop :=
  Open i m ∧ ∃ b, m.batch i = some b ∧ R b

theorem triple_assign_openAs {R : Batch → Prop} (R' : Batch → Prop) (hf : ∀ b, R b → R' (f b)) :
    Triple (OpenAs i R) (assign i f) (fun _ => OpenAs i R') (fun _ => Safe) := by
  refine (triple_assign (fun _ h => h.1.safe) (fun m turn h => ⟨h.1.after (by simp), ?_⟩)
    (fun m h => ⟨h.1.assigned f, ?_⟩)).weaken (fun _ h => h) (fun _ _ h => h)
      (fun _ _ h => h.1.safe)
  · rw [after_batch]
    exact h.2
  · obtain ⟨b, hb, hR⟩ := h.2
    exact ⟨f b, by rw [batch_assigned, hb]; rfl, hf b hR⟩

theorem triple_submitBatch :
    Triple (OpenAs i (fun _ => True)) (submitBatch i) (fun _ => Active i) (fun _ => Safe) := by
  refine (triple_assign_openAs (fun _ => True) (fun _ _ => trivial)).bind (fun _ => ?_)
  refine (triple_assign_openAs (fun b => b.state = .submitted) (fun _ _ => rfl)).bind
    (fun _ => ?_)
  have hfiled : ∀ f : Batch → Batch, (∀ b, b.state = .submitted → (f b).state = .submitted
      ∧ (f b).oarJobId = none) → Triple (OpenAs i (fun b => b.state = .submitted)) (assign i f)
      (fun _ => OpenAs i (fun b => b.state = .submitted ∧ b.oarJobId = none)) (fun _ => Safe) :=
    fun f hf => triple_assign_openAs _ hf
  have hkept : ∀ f : Batch → Batch, (∀ b, (f b).state = b.state ∧ (f b).oarJobId = b.oarJobId) →
      Triple (OpenAs i (fun b => b.state = .submitted ∧ b.oarJobId = none)) (assign i f)
        (fun _ => OpenAs i (fun b => b.state = .submitted ∧ b.oarJobId = none)) (fun _ => Safe) := by
    intro f hf
    apply triple_assign_openAs
    intro b hb
    rw [(hf b).1, (hf b).2]
    exact hb
  refine (hfiled (fun b => { b with oarJobId := none }) (fun _ h => ⟨h, rfl⟩)).bind (fun _ => ?_)
  refine (hkept (fun b => { b with remoteJobRoot := some b.attempt })
    (fun _ => ⟨rfl, rfl⟩)).bind (fun _ => ?_)
  refine (hkept (fun b => { b with remoteCleaned := false }) (fun _ => ⟨rfl, rfl⟩)).bind
    (fun _ => ?_)
  refine triple_fileBatch.bind (fun _ => ?_)
  refine (triple_submitRemotely.weaken (fun _ h => h) (fun _ m h => ?_)
    (fun _ _ h => h)).exceptException (fun e _ => ?_) (fun e m _ h => h.2.1)
  · obtain ⟨job, hheld, b, hb, hstate, -⟩ := h
    exact ⟨hheld.current, hheld.safe, b, hb, by rw [hstate]; rfl⟩
  · -- a timeout leaves the batch as it is; any other exception is raised without a live job
    have hrecord : Triple (SubmissionExit i e) (recordSubmissionFailure i e) (fun _ => Safe)
        (fun _ => Safe) := by
      rw [recordSubmissionFailure]
      split
      · exact triple_ret (fun _ h => h.2.1)
      · rename_i htimeout
        have hopen : ∀ m, e.isException = true → SubmissionExit i e m → Open i m := by
          intro m hexc h
          refine ⟨h.1, h.2.1, h.2.2 ?_⟩
          cases e with
          | error => rfl
          | timeout => exact absurd rfl htimeout
          | interrupted => cases hexc
          | stopped => cases hexc
        refine ((triple_assign_open _).bind (fun _ => triple_writeLedger_open)).weaken
          (fun m h => hopen m ‹_› h) (fun _ _ h => h.safe) (fun _ _ h => h.safe)
    exact hrecord.bind (fun _ => triple_raise (fun _ h => h))

/-! ## Waiting for a job -/

/-- The current batch is active with this job. -/
def Watched (i job : Nat) (m : Machine) : Prop :=
  m.current = some i ∧ Safe m
    ∧ ∃ b, m.batch i = some b ∧ b.state.active = true ∧ b.oarJobId = some job

theorem Watched.after (h : Watched i job m) (hop : ∀ k, op ≠ .oarsub k) :
    Watched i job (m.after op turn) := by
  refine ⟨by rw [after_current, h.1], h.2.1.after hop, ?_⟩
  rw [after_batch]
  exact h.2.2

theorem triple_queryJobStatus : Triple (Watched i job) (queryJobStatus job)
      (fun status m => Watched i job m ∧ (status = .terminated ∨ status = .error → Free i m))
      (fun _ => Safe) := by
  intro m hm
  rw [queryJobStatus, wp_bind, wp_attempt, wp_bind]
  have hperform : Triple (Watched i job) (perform (.oarstat job)) (fun _ => Watched i job)
      (fun _ => Watched i job) :=
    triple_perform_same (fun _ h => h.2.1) (fun _ _ h => h.after (by simp))
  refine wp_mono ?_ ?_ (fun _ h => h) (hperform m hm)
  · intro turn m' hm'
    simp only [wp_bind, wp_get, wp_ret]
    split
    · exact fun hgood => ⟨hm' hgood, by simp⟩
    · split
      · exact fun hgood => ⟨hm' hgood, by simp⟩
      · rename_i hlive
        have hfree : Good m' → Free i m' := by
          intro hgood
          obtain ⟨-, hsafe, b, hb, hactive, hjob⟩ := hm' hgood
          exact hsafe.free_of_over hb hactive hjob (by simpa using hlive)
        split
        · exact fun hgood => ⟨hm' hgood, fun _ => hfree hgood⟩
        · exact fun hgood => ⟨hm' hgood, fun _ => hfree hgood⟩
  · intro e m' hm'
    simp only
    split
    · exact fun hgood => ⟨hm' hgood, by simp⟩
    · exact fun hgood => (hm' hgood).2.1

theorem triple_pollJob (fuel : Nat) :
    Triple (Watched i job) (pollJob job fuel) (fun _ => Open i) (fun _ => Safe) := by
  induction fuel with
  | zero => exact triple_raise (fun _ h => h.2.1)
  | succ fuel ih =>
    refine triple_queryJobStatus.bind (fun status => ?_)
    have hagain : Triple (Watched i job) (do
        let _ ← perform .sleep
        pollJob job fuel) (fun _ => Open i) (fun _ => Safe) :=
      ((triple_perform_same (fun _ h => h.2.1) (fun _ _ h => h.after (by simp))).weaken
        (fun _ h => h) (fun _ _ h => h) (fun _ _ h => h.2.1)).bind (fun _ => ih)
    cases status with
    | terminated => exact triple_ret (fun m h => ⟨h.1.1, h.1.2.1, h.2 (Or.inl rfl)⟩)
    | error => exact triple_ret (fun m h => ⟨h.1.1, h.1.2.1, h.2 (Or.inr rfl)⟩)
    | unknown => exact hagain.weaken (fun _ h => h.1) (fun _ _ h => h) (fun _ _ h => h)
    | pending => exact hagain.weaken (fun _ h => h.1) (fun _ _ h => h) (fun _ _ h => h)

theorem triple_reconcileBatch :
    Triple (Active i) (reconcileBatch i) (fun _ => Open i) (fun _ => Safe) := by
  refine (triple_getBatch (Q := fun b m => Active i m ∧ m.batch i = some b) (fun _ _ h hb => ⟨h, hb⟩)
    (fun _ h _ => h.safe)).bind (fun b => ?_)
  cases hjob : b.oarJobId with
  | none => exact triple_raise (fun _ h => h.1.safe)
  | some job =>
    refine (triple_get (Q := fun _ => Watched i job) (fun m h => ?_)).bind (fun m => ?_)
    · obtain ⟨⟨hcurrent, hsafe, b', hb', hactive⟩, hb⟩ := h
      rw [hb, Option.some.injEq] at hb'
      subst hb'
      exact ⟨hcurrent, hsafe, b, hb, hactive, hjob⟩
    · exact (triple_pollJob _).bind (fun status => (triple_retrieveBatch status).weaken
        (fun _ h => h) (fun _ _ h => h) (fun _ _ h => h.safe))

/-! ## Runs -/

theorem triple_processBatch :
    Triple (fun m => m.current = some i ∧ Safe m) (processBatch i) (fun _ => Safe)
      (fun _ => Safe) := by
  refine (triple_getBatch (Q := fun b m => (m.current = some i ∧ Safe m) ∧ m.batch i = some b)
    (fun _ _ h hb => ⟨h, hb⟩) (fun _ h _ => h.2)).bind (fun b => ?_)
  have hreconcile : Triple (Active i) (do
      reconcileBatch i
      publishIfReady i) (fun _ => Safe) (fun _ => Safe) :=
    triple_reconcileBatch.bind (fun _ => triple_publishIfReady.weaken (fun _ h => h)
      (fun _ _ h => h.safe) (fun _ _ h => h.safe))
  have hopen : b.state ≠ .cancelled → b.state.active = false → ∀ m,
      (m.current = some i ∧ Safe m) ∧ m.batch i = some b → Open i m :=
    fun hcancelled hactive m h => ⟨h.1.1, h.1.2, h.1.2.free h.2 hcancelled hactive⟩
  have hactive : b.state.active = true → ∀ m,
      (m.current = some i ∧ Safe m) ∧ m.batch i = some b → Active i m :=
    fun hactive m h => ⟨h.1.1, h.1.2, b, h.2, hactive⟩
  cases hstate : b.state with
  | published => exact triple_ret (fun _ h => h.1.2)
  | readyToPublish =>
    exact triple_publishBatch.weaken (hopen (by simp [hstate]) (by simp [hstate, BatchState.active]))
      (fun _ _ h => h.safe) (fun _ _ h => h.safe)
  | submitted =>
    exact hreconcile.weaken (hactive (by simp [hstate, BatchState.active])) (fun _ _ h => h)
      (fun _ _ h => h)
  | running =>
    exact hreconcile.weaken (hactive (by simp [hstate, BatchState.active])) (fun _ _ h => h)
      (fun _ _ h => h)
  | planned =>
    exact (triple_submitBatch.weaken (fun m h => ⟨hopen (by simp [hstate])
      (by simp [hstate, BatchState.active]) m h, b, h.2, trivial⟩) (fun _ _ h => h)
      (fun _ _ h => h)).bind (fun _ => hreconcile)
  | failed =>
    exact (triple_submitBatch.weaken (fun m h => ⟨hopen (by simp [hstate])
      (by simp [hstate, BatchState.active]) m h, b, h.2, trivial⟩) (fun _ _ h => h)
      (fun _ _ h => h)).bind (fun _ => hreconcile)
  | cancelled => exact triple_raise (fun _ h => h.1.2)

theorem triple_perform_safe (hop : ∀ k, op ≠ .oarsub k) :
    Triple Safe (perform op) (fun _ => Safe) (fun _ => Safe) :=
  triple_perform_same (fun _ h => h) (fun _ _ h => h.after hop)

theorem triple_processBatches (batches : List Nat) :
    Triple Safe (processBatches batches) (fun _ => Safe) (fun _ => Safe) := by
  induction batches with
  | nil => exact triple_ret (fun _ h => h)
  | cons i rest ih =>
    refine (triple_perform_safe (by simp)).bind (fun _ => ?_)
    have hcurrent : Triple Safe (step (fun m => { m with current := some i }) : Code Unit)
        (fun _ m => m.current = some i ∧ Safe m) (fun _ => Safe) :=
      triple_step (fun _ => rfl) (fun _ h => h) (fun m h => ⟨rfl, h.memory, h.disk, h.trace⟩)
    exact hcurrent.bind (fun _ => triple_processBatch.bind (fun _ => ih))

theorem triple_writeLedger_safe : Triple Safe writeLedger (fun _ => Safe) (fun _ => Safe) :=
  (triple_perform_safe (by simp)).bind (fun _ => triple_ret (fun _ h => h))

theorem triple_finalizeRun : Triple Safe finalizeRun (fun _ => Safe) (fun _ => Safe) := by
  refine (triple_get (Q := fun _ => Safe) (fun _ h => h)).bind (fun m => ?_)
  split
  · exact triple_ret (fun _ h => h)
  · have hcheck : Triple Safe policyCheck (fun _ => Safe) (fun _ => Safe) :=
      (triple_perform_safe (by simp)).bind (fun _ => triple_ret (fun _ h => h))
    have hcomplete : Triple Safe (step (fun m => { m with
        memory := { m.memory with cleanupComplete := true } }) : Code Unit) (fun _ => Safe)
        (fun _ => Safe) :=
      triple_step (fun _ => rfl) (fun _ h => h) (fun m h => ⟨h.memory, h.disk, h.trace⟩)
    exact hcheck.bind (fun _ => triple_writeLedger_safe.bind (fun _ =>
      (triple_perform_safe (by simp)).bind (fun _ =>
        hcomplete.bind (fun _ => triple_writeLedger_safe))))

theorem triple_runBatches : Triple Safe runBatches (fun _ => Safe) (fun _ => Safe) := by
  refine (triple_get (Q := fun _ => Safe) (fun _ h => h)).bind (fun m => ?_)
  refine (triple_processBatches _).bind (fun _ => ?_)
  refine (triple_get (Q := fun _ => Safe) (fun _ h => h)).bind (fun m => ?_)
  split
  · exact triple_finalizeRun
  · exact triple_raise (fun _ h => h)

theorem triple_cancelBatch (job : Option Nat) :
    Triple Safe (cancelBatch i job) (fun _ => Safe) (fun _ => Safe) := by
  have hcancel : Triple Safe (assign i (fun b => { b with state := .cancelled })) (fun _ => Safe)
      (fun _ => Safe) :=
    triple_assign (fun _ h => h) (fun _ _ h => h.after (by simp))
      (fun m h => h.assigned (fun _ _ _ _ _ _ => Or.inl rfl))
  have hrest := hcancel.bind (fun _ => triple_writeLedger_safe)
  cases job with
  | none => exact hrest
  | some job =>
    have hdelete : Triple Safe (exceptException (do let _ ← perform (.oardel job))
        (fun _ => ret ()) : Code Unit) (fun _ => Safe) (fun _ => Safe) :=
      ((triple_perform_safe (by simp)).bind (fun _ => triple_ret (fun _ h => h))
        ).exceptException (fun _ _ => triple_ret (fun _ h => h)) (fun _ _ _ h => h)
    exact hdelete.bind (fun _ => hrest)

theorem triple_handleInterrupt : Triple Safe handleInterrupt (fun _ => Safe) (fun _ => Safe) := by
  refine (triple_get (Q := fun _ => Safe) (fun _ h => h)).bind (fun m => ?_)
  split
  · exact triple_writeLedger_safe
  · split
    · exact triple_writeLedger_safe
    · split
      · exact triple_cancelBatch _
      · exact triple_writeLedger_safe

theorem triple_runController : Triple Safe runController (fun _ => Safe) (fun _ => Safe) := by
  intro m hm
  rw [runController, wp_bind, wp_attempt]
  refine wp_mono (fun a s hs => hs) ?_ (fun _ h => h) (triple_runBatches m hm)
  intro e s hs
  cases e with
  | interrupted => exact triple_handleInterrupt.bind (fun _ => triple_raise (fun _ h => h)) s hs
  | _ => exact hs

theorem guard_safe_of_reached {count : Nat} {alive : Bool} (h : Reached count m alive) :
    Guard Safe m := by
  have hfinal : ∀ {m₀ : Machine}, Guard Safe m₀ → Guard Safe (run runController m₀).2 := by
    intro m₀ hm₀
    have hrun := wp_run (triple_runController m₀ hm₀)
    cases hr : run runController m₀ with
    | mk result m' =>
      rw [hr] at hrun
      cases result with
      | ok a => exact hrun
      | error e => exact hrun
  have hkilled : ∀ {m₀ m' : Machine}, Guard Safe m₀ → Leaves runController m₀ m' →
      Guard Safe m' := by
    rintro m₀ m' hm₀ ⟨n, hn⟩
    exact wp_killed (triple_runController m₀ hm₀) hn
  have hload : ∀ {m : Machine} (turns : List Turn), Guard Safe m → Guard Safe (m.load turns) :=
    fun turns hm hgood => ⟨(hm hgood).disk, (hm hgood).disk, (hm hgood).trace⟩
  have hagain : ∀ {m : Machine} (turns : List Turn), Guard Safe m →
      Guard Safe { m with turns := turns } :=
    fun turns hm hgood => ⟨(hm hgood).memory, (hm hgood).disk, (hm hgood).trace⟩
  induction h with
  | start => exact fun _ => ⟨by simp, by simp, by simp⟩
  | load turns _ ih => exact hfinal (hload turns ih)
  | again turns _ ih => exact hfinal (hagain turns ih)
  | loadKilled turns _ hleaves ih => exact hkilled (hload turns ih) hleaves
  | againKilled turns _ hleaves ih => exact hkilled (hagain turns ih) hleaves

/-- **At most one live job per batch.** In every history of runs whose requests were all harmless,
no job was submitted for a batch while an earlier job of the batch was still waiting or running. -/
theorem one_live_job_per_batch {count : Nat} {alive : Bool} (h : Reached count m alive)
    (hharmless : ∀ e ∈ m.trace, Harmless e) :
    ∀ e ∈ m.trace, ∀ i, e.op = .oarsub i → e.live = [] :=
  (guard_safe_of_reached h hharmless).trace

/-! ## Two live jobs -/

namespace Submission.Example

/-- The ledger of one batch, before its first run. -/
def planned : Machine where
  memory := newLedger 1
  disk := newLedger 1
  current := none
  live := []
  nextJob := 0
  remoteRoots := []
  turns := []
  trace := []

/-- A request that is done; no job has ended. -/
def done : Turn := ⟨fun _ => false, .done, true, .succeeded⟩

/-- A request that is done; every job has ended well. -/
def doneAndEnded : Turn := ⟨fun _ => true, .done, true, .succeeded⟩

/-- The policy check after the submission fails. -/
def checkFails : List Turn :=
  List.replicate 15 done ++ ⟨fun _ => false, .fails false, true, .succeeded⟩ :: List.replicate 2 done

/-- The ledger of two batches, before its first run. -/
def plannedTwo : Machine := { planned with memory := newLedger 2, disk := newLedger 2 }

/-- The submission of the first batch fails without effect. -/
def submissionFails : List Turn :=
  List.replicate 11 doneAndEnded ++ ⟨fun _ => true, .fails false, true, .succeeded⟩
    :: List.replicate 3 doneAndEnded

/-- The first batch is submitted again and published. The submission of the second one times out
after it has taken effect. -/
def submissionTimesOut : List Turn :=
  List.replicate 40 doneAndEnded ++ ⟨fun _ => true, .timesOut true, true, .succeeded⟩
    :: List.replicate 3 done

def firstRun : Machine := (run runController (plannedTwo.load submissionFails)).2

def secondRun : Machine := (run runController (firstRun.load submissionTimesOut)).2

/-- The third run finds the second batch submitted without a job, and submits nothing. -/
def thirdRun : Machine := (run runController (secondRun.load (List.replicate 20 done))).2

theorem reached_thirdRun : Reached 2 thirdRun true :=
  Reached.load _ (Reached.load _ (Reached.load _ Reached.start))

def submissions (m : Machine) : List (Nat × Reply) :=
  m.trace.filterMap (fun e =>
    match e.op with
    | .oarsub i => some (i, e.reply)
    | _ => none)

theorem thirdRun_one_live_job :
    submissions thirdRun = [(0, .fails false), (0, .done), (1, .timesOut true)]
      ∧ thirdRun.live = [⟨1, 1⟩]
      ∧ ∀ e ∈ thirdRun.trace, ∀ i, e.op = .oarsub i → e.live = [] := by
  refine ⟨by decide +kernel, by decide +kernel, one_live_job_per_batch reached_thirdRun ?_⟩
  have hreplies : ∀ e ∈ thirdRun.trace, e.reply = .done
      ∨ (e.op = .oarsub 0 ∧ e.reply = .fails false)
      ∨ (e.op = .oarsub 1 ∧ e.reply = .timesOut true) := by
    decide +kernel
  intro e he
  rcases hreplies e he with hdone | ⟨hop, hfails⟩ | ⟨hop, htimeout⟩
  · exact ⟨fun _ _ => by simp [hdone], fun _ _ took => by simp [hdone]⟩
  · exact ⟨fun _ _ => by simp [hfails], fun hcheck => by simp [hop] at hcheck⟩
  · exact ⟨fun _ _ => by simp [htimeout], fun hcheck => by simp [hop] at hcheck⟩

/-- The second run after a failed check. -/
def resubmitted : Machine :=
  (run runController ((run runController (planned.load checkFails)).2.load
    (List.replicate 12 done))).2

/-- The job of the first run is still live when the second run submits another one. -/
theorem second_job_beside_live_one : Reached 1 resubmitted true
      ∧ ¬ ∀ e ∈ resubmitted.trace, ∀ i, e.op = .oarsub i → e.live = [] := by
  refine ⟨Reached.load _ (Reached.load _ Reached.start), fun h => ?_⟩
  have hsecond : (⟨.oarsub 0, some .submitted, [⟨0, 0⟩], .done⟩ : Event) ∈ resubmitted.trace := by
    decide +kernel
  exact absurd (h _ hsecond 0 rfl) (by simp)

end Submission.Example

end OsmPolygonWikidata.Grid5000
