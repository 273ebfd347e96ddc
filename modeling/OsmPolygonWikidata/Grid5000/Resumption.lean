import OsmPolygonWikidata.Grid5000.RemoteRoots

/-! # Resuming an interrupted run

A later run in which every command succeeds and every job ends well publishes all batches of the
ledger it loads, unless it meets a batch that it refuses: one that is `cancelled`, or one that is
active without a job. `_handle_interrupt` makes the active batch `cancelled`.
-/

namespace OsmPolygonWikidata.Grid5000

open Durable Prog

variable {m m₀ m' : Machine} {op : Op} {turn : Turn} {i job : Nat} {batches : List Nat} {A B : Type}

/-! ## Runs in which everything succeeds -/

/-- A request that succeeds, with jobs that end well. -/
structure Succeeds (turn : Turn) : Prop where
  reply : turn.reply = .done
  terminated : turn.terminated = true
  receipt : turn.receipt = .succeeded

def Smooth (m : Machine) : Prop := ∀ turn ∈ m.turns, Succeeds turn

/-- No job keeps the controller waiting. -/
def Ended (m : Machine) : Prop := ∀ turn ∈ m.turns, ∀ job, turn.ended job = true

/-- From `P`, when everything succeeds, the program returns into `Q`, or the turns are used up. When
no job is waited for it takes at most `cost` turns. -/
def Runs (cost : Nat) (P : Machine → Prop) (p : Code A) (Q : A → Machine → Prop) : Prop :=
  ∀ m, Smooth m → P m → wp p
    (fun a m' => Smooth m' ∧ (Ended m → Ended m' ∧ m.turns.length ≤ m'.turns.length + cost) ∧ Q a m')
    (fun e _ => e = .stopped ∧ (Ended m → m.turns.length < cost)) (fun _ => True) m

variable {P P' : Machine → Prop} {Q Q' : A → Machine → Prop} {p : Code A} {c c' : Nat}

theorem Runs.weaken (h : Runs c P p Q) (hc : c ≤ c') (hP : ∀ m, P' m → P m)
    (hQ : ∀ a m, Q a m → Q' a m) : Runs c' P' p Q' := by
  intro m hsmooth hm
  refine wp_mono ?_ ?_ (fun _ h => h) (h m hsmooth (hP m hm))
  · rintro a m' ⟨hsmooth', hended, hq⟩
    refine ⟨hsmooth', fun he => ⟨(hended he).1, ?_⟩, hQ a m' hq⟩
    have := (hended he).2
    omega
  · rintro e _ ⟨he, hlength⟩
    exact ⟨he, fun hend => lt_of_lt_of_le (hlength hend) hc⟩

theorem runs_bind (c₁ c₂ : Nat) {M : A → Machine → Prop} {Q : B → Machine → Prop} {k : A → Code B}
    (hp : Runs c₁ P p M) (hk : ∀ a, Runs c₂ (M a) (k a) Q) : Runs (c₁ + c₂) P (p >>= k) Q := by
  intro m hsmooth hm
  rw [wp_bind]
  refine wp_mono ?_ ?_ (fun _ h => h) (hp m hsmooth hm)
  · rintro a m₁ ⟨hsmooth₁, hended₁, hM⟩
    refine wp_mono ?_ ?_ (fun _ h => h) (hk a m₁ hsmooth₁ hM)
    · rintro b m₂ ⟨hsmooth₂, hended₂, hq⟩
      refine ⟨hsmooth₂, fun he => ?_, hq⟩
      obtain ⟨he₁, hlength₁⟩ := hended₁ he
      obtain ⟨he₂, hlength₂⟩ := hended₂ he₁
      exact ⟨he₂, by omega⟩
    · rintro e _ ⟨he, hlength⟩
      refine ⟨he, fun hend => ?_⟩
      obtain ⟨he₁, hlength₁⟩ := hended₁ hend
      have := hlength he₁
      omega
  · rintro e _ ⟨he, hlength⟩
    refine ⟨he, fun hend => ?_⟩
    have := hlength hend
    omega

theorem runs_ret {a : A} (h : ∀ m, P m → Q a m) : Runs 0 P (ret a : Code A) Q :=
  fun m hsmooth hm => ⟨hsmooth, fun he => ⟨he, by omega⟩, h m hm⟩

theorem runs_get {Q : Machine → Machine → Prop} (h : ∀ m, P m → Q m m) :
    Runs 0 P (get : Code Machine) Q :=
  fun m hsmooth hm => ⟨hsmooth, fun he => ⟨he, by omega⟩, h m hm⟩

theorem runs_step {f : Machine → Machine} {Q : Unit → Machine → Prop}
    (hturns : ∀ m, (f m).turns = m.turns) (h : ∀ m, P m → Q () (f m)) :
    Runs 0 P (step f : Code Unit) Q := by
  intro m hsmooth hm
  refine ⟨trivial, ?_, fun he => ⟨?_, ?_⟩, h m hm⟩
  · rw [Smooth, hturns]
    exact hsmooth
  · rw [Ended, hturns]
    exact he
  · rw [hturns]
    omega

theorem after_turns : (m.after op turn).turns = m.turns.tail := by
  cases op <;> simp only [Machine.after, Op.effect] <;> split <;> rfl

theorem runs_perform {Q : Turn → Machine → Prop}
    (h : ∀ m turn, P m → Succeeds turn → (Ended m → ∀ job, turn.ended job = true) →
      Q turn (m.after op turn)) : Runs 1 P (perform op) Q := by
  intro m hsmooth hm
  rw [perform, wp_read]
  cases hturns : m.turns with
  | nil => exact ⟨rfl, fun _ => by simp⟩
  | cons turn turns =>
    have hsucceeds : Succeeds turn := hsmooth turn (by rw [hturns]; exact List.mem_cons_self)
    have hexit : turn.reply.exit op = none := by rw [hsucceeds.reply]; rfl
    refine ⟨trivial, ?_⟩
    simp only [hexit]
    refine ⟨?_, fun he => ⟨?_, ?_⟩, h m turn hm hsucceeds
      (fun he => he turn (by rw [hturns]; exact List.mem_cons_self))⟩
    · intro t ht
      rw [after_turns, hturns] at ht
      exact hsmooth t (by rw [hturns]; exact List.mem_cons_of_mem _ ht)
    · intro t ht
      rw [after_turns, hturns] at ht
      exact he t (by rw [hturns]; exact List.mem_cons_of_mem _ ht)
    · rw [after_turns, hturns]
      simp

/-! ## One batch of the ledger -/

/-- The records of the other batches and their roots are as they were. -/
def Frame (i : Nat) (m₀ m : Machine) : Prop :=
  ∀ k, k ≠ i → m.batch k = m₀.batch k
    ∧ ∀ attempt, (k, attempt) ∈ m₀.remoteRoots → (k, attempt) ∈ m.remoteRoots

/-- The other batches are as they were, and this one is known to be `R`. -/
def On (m₀ : Machine) (i : Nat) (R : List (Nat × Nat) → Batch → Prop) (m : Machine) : Prop :=
  Frame i m₀ m ∧ ∃ b, m.batch i = some b ∧ R m.remoteRoots b

/-- A program of one batch. -/
def Goes (c : Nat) (m₀ : Machine) (i : Nat) (R : List (Nat × Nat) → Batch → Prop) (p : Code A)
    (R' : List (Nat × Nat) → Batch → Prop) : Prop :=
  Runs c (On m₀ i R) p (fun _ => On m₀ i R')

variable {R R' R₁ R₂ R₃ : List (Nat × Nat) → Batch → Prop}

theorem On.weaken (h : On m₀ i R m) (hR : ∀ b, R m.remoteRoots b → R' m.remoteRoots b) :
    On m₀ i R' m := by
  obtain ⟨hframe, b, hb, hr⟩ := h
  exact ⟨hframe, b, hb, hR b hr⟩

theorem On.after (h : On m₀ i R m) (hR : Lasting R) (hop : op.removes = false) :
    On m₀ i R (m.after op turn) := by
  obtain ⟨hframe, b, hb, hr⟩ := h
  refine ⟨fun k hk => ?_, b, by rw [after_batch]; exact hb,
    hR _ _ b (fun _ => mem_after_roots hop) hr⟩
  rw [after_batch]
  exact ⟨(hframe k hk).1, fun a ha => mem_after_roots hop ((hframe k hk).2 a ha)⟩

theorem On.removed {r : Batch → Prop} {attempt : Nat} (h : On m₀ i (fun _ => r) m) :
    On m₀ i (fun _ => r) (m.after (.removeJobRoot i attempt) turn) := by
  obtain ⟨hframe, b, hb, hr⟩ := h
  refine ⟨fun k hk => ?_, b, by rw [after_batch]; exact hb, hr⟩
  rw [after_batch]
  refine ⟨(hframe k hk).1, fun a ha => ?_⟩
  have hmem := (hframe k hk).2 a ha
  rcases after_removeJobRoot_roots m turn i attempt with hroots | hroots
  · rw [hroots]
    exact hmem
  · rw [hroots, List.mem_filter]
    exact ⟨hmem, by simp [hk]⟩

theorem On.assigned (h : On m₀ i R m) {f : Batch → Batch}
    (hf : ∀ b, R m.remoteRoots b → R' m.remoteRoots (f b)) : On m₀ i R' (m.assigned i f) := by
  obtain ⟨hframe, b, hb, hr⟩ := h
  refine ⟨fun k hk => ?_, f b, by rw [batch_assigned, hb]; rfl, hf b hr⟩
  refine ⟨?_, (hframe k hk).2⟩
  rw [← (hframe k hk).1]
  simp [Machine.batch, Machine.assigned, Ne.symm hk]

theorem goes_perform (hR : Lasting R) (hop : op.removes = false) : Goes 1 m₀ i R (perform op) R :=
  runs_perform (fun _ _ h _ _ => h.after hR hop)

theorem goes_ret {a : A} : Goes 0 m₀ i R (ret a : Code A) R := runs_ret (fun _ h => h)

theorem Goes.bind {c₁ c₂ : Nat} {k : A → Code B} (hp : Goes c₁ m₀ i R₁ p R₂)
    (hk : ∀ a, Goes c₂ m₀ i R₂ (k a) R₃) : Goes (c₁ + c₂) m₀ i R₁ (p >>= k) R₃ :=
  runs_bind _ _ hp hk

theorem goes_assign (hR : Lasting R) {f : Batch → Batch}
    (hf : ∀ roots b, R roots b → R' roots (f b)) : Goes 1 m₀ i R (assign i f) R' := by
  have hstep : Goes 0 m₀ i R (step (fun m => m.assigned i f) : Code Unit) R' :=
    runs_step (fun _ => rfl) (fun _ h => h.assigned (hf _))
  exact (goes_perform hR rfl).bind (fun _ => hstep)

theorem goes_writeLedger (hR : Lasting R) : Goes 1 m₀ i R writeLedger R :=
  (goes_perform hR rfl).bind (fun _ => goes_ret)

theorem goes_policyCheck (hR : Lasting R) : Goes 1 m₀ i R policyCheck R :=
  (goes_perform hR rfl).bind (fun _ => goes_ret)

theorem runs_getBatch :
    Runs 0 (On m₀ i R) (getBatch i) (fun b => On m₀ i (fun roots b' => b' = b ∧ R roots b)) := by
  intro m hsmooth hm
  obtain ⟨hframe, b, hb, hr⟩ := hm
  rw [getBatch, wp_read, hb]
  exact ⟨hsmooth, fun he => ⟨he, by omega⟩, hframe, b, hb, rfl, hr⟩

theorem Goes.exceptException {handler : Exit → Code A} (h : Goes c m₀ i R p R') :
    Goes c m₀ i R (exceptException p handler) R' := by
  intro m hsmooth hm
  rw [Grid5000.exceptException, wp_bind, wp_attempt]
  refine wp_mono (fun _ _ h => h) ?_ (fun _ h => h) (h m hsmooth hm)
  rintro e s ⟨rfl, hlength⟩
  exact ⟨rfl, hlength⟩

/-! ## Publishing -/

/-- The batch is published and names a root. -/
def PublishedRecord (b : Batch) : Prop := b.state = .published ∧ b.remoteJobRoot ≠ none

theorem goes_cleanupRemoteJob :
    Goes 3 m₀ i (fun _ => PublishedRecord) (cleanupRemoteJob i) (fun _ => PublishedRecord) := by
  refine runs_bind 0 3 runs_getBatch (fun b => ?_)
  have hpre : ∀ m, On m₀ i (fun _ b' => b' = b ∧ PublishedRecord b) m →
      On m₀ i (fun _ => PublishedRecord) m :=
    fun m h => h.weaken (fun b' hr => hr.1 ▸ hr.2)
  cases hroot : b.remoteJobRoot with
  | none =>
    intro m _ hm
    obtain ⟨-, b', -, -, hr⟩ := hm
    exact absurd hroot hr.2
  | some attempt =>
    simp only
    split
    · exact (runs_ret (fun _ h => h)).weaken (by omega) hpre (fun _ _ h => h)
    · have hremove : Goes 1 m₀ i (fun _ => PublishedRecord) (perform (.removeJobRoot i attempt))
          (fun _ => PublishedRecord) := runs_perform (fun _ _ h _ _ => h.removed)
      have hassign : Goes 1 m₀ i (fun _ => PublishedRecord)
          (assign i (fun b => { b with remoteCleaned := true })) (fun _ => PublishedRecord) :=
        goes_assign lasting_of_record (fun _ _ h => h)
      exact (hremove.bind (fun _ => hassign.bind (fun _ =>
        goes_writeLedger lasting_of_record))).weaken (by omega) hpre (fun _ _ h => h)

theorem goes_publishBatch : Goes 8 m₀ i HasRoot (publishBatch i) (fun _ => PublishedRecord) := by
  have hbaseline : Goes 1 m₀ i HasRoot (do let _ ← perform .assertBaseline : Code Unit) HasRoot :=
    (goes_perform lasting_hasRoot rfl).bind (fun _ => goes_ret)
  have hpublish : Goes 2 m₀ i HasRoot (do
      let _ ← perform (.publishSentenceBatch i)
      let _ ← perform (.verifySentenceBatch i) : Code Unit) HasRoot :=
    (goes_perform lasting_hasRoot rfl).bind (fun _ => (goes_perform lasting_hasRoot rfl).bind
      (fun _ => goes_ret))
  have hassign : Goes 1 m₀ i HasRoot (assign i (fun b => { b with state := .published }))
      (fun _ => PublishedRecord) :=
    goes_assign lasting_hasRoot (fun _ _ h => ⟨rfl, h⟩)
  exact hbaseline.exceptException.bind (fun _ => hpublish.exceptException.bind (fun _ =>
    hassign.bind (fun _ => (goes_writeLedger lasting_of_record).bind (fun _ =>
      goes_cleanupRemoteJob))))

/-- The batch is ready and names a root. -/
def ReadyRecord (b : Batch) : Prop := b.state = .readyToPublish ∧ b.remoteJobRoot ≠ none

theorem goes_publishIfReady :
    Goes 8 m₀ i (fun _ => ReadyRecord) (publishIfReady i) (fun _ => PublishedRecord) := by
  refine runs_bind 0 8 runs_getBatch (fun b => ?_)
  split
  · exact goes_publishBatch.weaken le_rfl (fun _ h => h.weaken (fun b' hr => hr.1 ▸ hr.2.2))
      (fun _ _ h => h)
  · rename_i hstate
    intro m _ hm
    obtain ⟨-, b', -, -, hr⟩ := hm
    exact absurd hr.1 hstate

/-! ## Waiting and retrieving -/

/-- The batch waits for a job, and its root is there. -/
def WaitingRecord (i : Nat) (roots : List (Nat × Nat)) (b : Batch) : Prop :=
  Uploaded i roots b ∧ b.oarJobId ≠ none

theorem lasting_waitingRecord : Lasting (WaitingRecord i) :=
  fun roots roots' b hsub h => ⟨lasting_uploaded roots roots' b hsub h.1, h.2⟩

theorem wp_queryJobStatus (hR : Lasting R) (hsmooth : Smooth m) (hm : On m₀ i R m) :
    wp (queryJobStatus job)
      (fun status m' => Smooth m'
        ∧ (Ended m → Ended m' ∧ m.turns.length ≤ m'.turns.length + 1) ∧ On m₀ i R m'
        ∧ (status = .terminated ∨ (status = .pending ∧ ¬ Ended m)))
      (fun e _ => e = .stopped ∧ (Ended m → m.turns.length < 1)) (fun _ => True) m := by
  rw [queryJobStatus, wp_bind, wp_attempt, wp_bind]
  have hperform : Runs 1 (fun m' => m' = m) (perform (.oarstat job))
      (fun turn m' => Succeeds turn ∧ On m₀ i R m' ∧ (Ended m → m'.live = [])) := by
    refine runs_perform (fun m' turn h hs hended => ?_)
    subst h
    refine ⟨hs, hm.after hR rfl, fun he => ?_⟩
    rw [after_live (by simp), List.filter_eq_nil_iff]
    intro j _
    simp [hended he j.id]
  refine wp_mono ?_ ?_ (fun _ h => h) (hperform m hsmooth rfl)
  · rintro turn m' ⟨hsmooth', hended, hsucceeds, hon, hlive⟩
    simp only [wp_bind, wp_get, wp_ret]
    have hreply : turn.reply ≠ .unparsable := by simp [hsucceeds.reply]
    rw [if_neg hreply, if_pos hsucceeds.terminated]
    split
    · rename_i hpending
      refine ⟨hsmooth', hended, hon, Or.inr ⟨rfl, fun he => ?_⟩⟩
      rw [hlive he] at hpending
      cases hpending
    · exact ⟨hsmooth', hended, hon, Or.inl rfl⟩
  · rintro e m' ⟨rfl, hlength⟩
    exact ⟨rfl, hlength⟩

theorem runs_pollJob (hR : Lasting R) (fuel : Nat) : Runs 1 (On m₀ i R) (pollJob job (fuel + 1))
      (fun status m => status = .terminated ∧ On m₀ i R m) := by
  induction fuel with
  | zero =>
    intro m hsmooth hm
    rw [pollJob, wp_bind]
    refine wp_imp ?_ (wp_queryJobStatus hR hsmooth hm)
    rintro status m' ⟨hsmooth', hended, hon, rfl | ⟨rfl, hwaits⟩⟩
    · exact ⟨hsmooth', hended, rfl, hon⟩
    · rw [wp_bind]
      have hsleep : Runs 1 (On m₀ i R) (perform .sleep) (fun _ => On m₀ i R) :=
        runs_perform (fun _ _ h _ _ => h.after hR rfl)
      refine wp_mono ?_ ?_ (fun _ h => h) (hsleep m' hsmooth' hon)
      · exact fun _ _ _ => ⟨rfl, fun he => absurd he hwaits⟩
      · exact fun e _ h => ⟨h.1, fun he => absurd he hwaits⟩
  | succ fuel ih =>
    intro m hsmooth hm
    rw [pollJob, wp_bind]
    refine wp_imp ?_ (wp_queryJobStatus hR hsmooth hm)
    rintro status m' ⟨hsmooth', hended, hon, rfl | ⟨rfl, hwaits⟩⟩
    · exact ⟨hsmooth', hended, rfl, hon⟩
    · have hagain : Runs 2 (On m₀ i R) (do
          let _ ← perform .sleep
          pollJob job (fuel + 1)) (fun status m => status = .terminated ∧ On m₀ i R m) :=
        runs_bind 1 1 (runs_perform (fun _ _ h _ _ => h.after hR rfl))
          (fun _ => ih)
      refine wp_mono ?_ ?_ (fun _ h => h) (hagain m' hsmooth' hon)
      · exact fun _ _ h => ⟨h.1, fun he => absurd he hwaits, h.2.2⟩
      · exact fun e _ h => ⟨h.1, fun he => absurd he hwaits⟩

theorem goes_retrieveBatch :
    Goes 4 m₀ i (WaitingRecord i) (retrieveBatch i .terminated) (fun _ => ReadyRecord) := by
  refine runs_bind 0 4 runs_getBatch (fun b => ?_)
  have hdownload : Runs 1 (On m₀ i (fun roots b' => b' = b ∧ WaitingRecord i roots b))
      (downloadReceipt i (b.remoteJobRoot.getD 0))
      (fun receipt m => receipt = .succeeded ∧ On m₀ i (WaitingRecord i) m) := by
    refine runs_bind 0 1 (runs_get (Q := fun m' m => m' = m
      ∧ On m₀ i (fun roots b' => b' = b ∧ WaitingRecord i roots b) m) (fun _ h => ⟨rfl, h⟩))
      (fun m' => ?_)
    intro m hsmooth hm
    obtain ⟨rfl, hon⟩ := hm
    have hpresent : (i, b.remoteJobRoot.getD 0) ∈ m'.remoteRoots := by
      obtain ⟨-, b', -, rfl, ⟨-, attempt, hroot, hmem⟩, -⟩ := hon
      rw [hroot]
      exact hmem
    have hperform : Runs 1 (On m₀ i (WaitingRecord i))
        (perform (.downloadTree i (b.remoteJobRoot.getD 0)))
        (fun turn m => Succeeds turn ∧ On m₀ i (WaitingRecord i) m) :=
      runs_perform (fun _ _ h hs _ => ⟨hs, h.after lasting_waitingRecord rfl⟩)
    rw [wp_bind]
    refine wp_imp ?_ (hperform m' hsmooth (hon.weaken (fun b' hr => hr.1 ▸ hr.2)))
    rintro turn m₁ ⟨hsmooth₁, hended, hsucceeds, hon₁⟩
    have hany : (m'.remoteRoots.any (fun root => root = (i, b.remoteJobRoot.getD 0))) = true :=
      List.any_eq_true.mpr ⟨_, hpresent, by simp⟩
    rw [if_pos hany]
    exact ⟨hsmooth₁, hended, hsucceeds.receipt, hon₁⟩
  refine runs_bind 1 3 hdownload (fun receipt => ?_)
  cases receipt with
  | invalid => exact fun m _ h => absurd h.1 (by simp)
  | failed => exact fun m _ h => absurd h.1 (by simp)
  | succeeded =>
    have hready : Goes 1 m₀ i (WaitingRecord i)
        (assign i (fun b => { b with state := .readyToPublish })) (fun _ => ReadyRecord) := by
      refine goes_assign lasting_waitingRecord (fun roots b h => ⟨rfl, ?_⟩)
      obtain ⟨⟨-, attempt, hroot, -⟩, -⟩ := h
      simp [hroot]
    have hrest : Goes 3 m₀ i (WaitingRecord i) (do
        let _ ← perform (.importSuccess i)
        assign i (fun b => { b with state := .readyToPublish })
        writeLedger : Code Unit) (fun _ => ReadyRecord) :=
      (goes_perform lasting_waitingRecord rfl).bind (fun _ => hready.bind (fun _ =>
        goes_writeLedger lasting_of_record))
    exact hrest.weaken le_rfl (fun _ h => h.2) (fun _ _ h => h)

theorem goes_reconcileBatch :
    Goes 5 m₀ i (WaitingRecord i) (reconcileBatch i) (fun _ => ReadyRecord) := by
  refine runs_bind 0 5 runs_getBatch (fun b => ?_)
  have hpre : ∀ m, On m₀ i (fun roots b' => b' = b ∧ WaitingRecord i roots b) m →
      On m₀ i (WaitingRecord i) m :=
    fun m h => h.weaken (fun b' hr => hr.1 ▸ hr.2)
  cases hjob : b.oarJobId with
  | none =>
    intro m _ hm
    obtain ⟨-, b', -, -, -, hsome⟩ := hm
    exact absurd hjob hsome
  | some job =>
    refine runs_bind 0 5 (runs_get (Q := fun _ => On m₀ i (WaitingRecord i)) hpre) (fun m => ?_)
    refine runs_bind 1 4 (runs_pollJob lasting_waitingRecord _) (fun status => ?_)
    intro m' hsmooth hm'
    obtain ⟨rfl, hon⟩ := hm'
    exact goes_retrieveBatch m' hsmooth hon

/-! ## Submitting -/

variable {k : Nat} {b : Batch}

theorem runs_uploadTree : Goes 1 m₀ i (fun roots b' => b' = b ∧ FiledRecord roots b)
      (perform (.uploadTree i (b.remoteJobRoot.getD 0))) (Uploaded i) := by
  refine runs_perform (fun m turn h hs _ => ?_)
  have hafter : On m₀ i (fun roots b' => b' = b ∧ FiledRecord roots b)
      (m.after (.uploadTree i (b.remoteJobRoot.getD 0)) turn) :=
    h.after (fun _ _ _ _ hr => hr) rfl
  refine hafter.weaken (fun b' hr => ?_)
  obtain ⟨rfl, hstate, -, hroot⟩ := hr
  obtain ⟨attempt, hattempt⟩ := Option.ne_none_iff_exists'.mp hroot
  refine ⟨by rw [hstate]; rfl, attempt, hattempt, ?_⟩
  simp [Machine.after, Op.effect, hs.reply, Reply.took, hattempt]

theorem goes_submitRemotely : Goes 9 m₀ i FiledRecord (submitRemotely i) (WaitingRecord i) := by
  have hoarsub : Goes 1 m₀ i (Uploaded i) (oarsub i) (Uploaded i) := by
    refine runs_bind 0 1 (runs_get (Q := fun _ => On m₀ i (Uploaded i)) (fun _ h => h)) (fun m' => ?_)
    refine runs_bind 1 0 (runs_perform (Q := fun turn m => Succeeds turn ∧ On m₀ i (Uploaded i) m)
      (fun _ _ h hs _ => ⟨hs, h.after lasting_uploaded rfl⟩)) (fun turn => ?_)
    intro m hsmooth hm
    have hreply : turn.reply ≠ .unparsable := by simp [hm.1.reply]
    rw [if_neg hreply]
    exact ⟨hsmooth, fun he => ⟨he, by omega⟩, hm.2⟩
  have hname : ∀ job, Goes 1 m₀ i (Uploaded i) (assign i (fun b => { b with oarJobId := some job }))
      (WaitingRecord i) :=
    fun job => goes_assign lasting_uploaded (fun _ _ h => ⟨⟨h.1, h.2⟩, by simp⟩)
  have hrunning : Goes 1 m₀ i (WaitingRecord i) (assign i (fun b => { b with state := .running }))
      (WaitingRecord i) :=
    goes_assign lasting_waitingRecord (fun _ _ h => ⟨⟨rfl, h.1.2⟩, h.2⟩)
  refine runs_bind 1 8 (goes_perform lasting_filedRecord rfl) (fun _ => ?_)
  refine runs_bind 1 7 (goes_perform lasting_filedRecord rfl) (fun _ => ?_)
  refine runs_bind 0 7 runs_getBatch (fun b => runs_bind 1 6 runs_uploadTree (fun _ => ?_))
  exact (goes_policyCheck lasting_uploaded).bind (fun _ => hoarsub.bind (fun job =>
    (hname job).bind (fun _ => hrunning.bind (fun _ =>
      (goes_writeLedger lasting_waitingRecord).bind (fun _ =>
        goes_policyCheck lasting_waitingRecord)))))

theorem goes_submitBatch : Goes 15 m₀ i (fun _ _ => True) (submitBatch i) (WaitingRecord i) := by
  have hattempt : Goes 1 m₀ i (fun _ _ => True)
      (assign i (fun b => { b with attempt := b.attempt + 1 })) (fun _ _ => True) :=
    goes_assign lasting_of_record (fun _ _ _ => trivial)
  have hsubmitted : Goes 1 m₀ i (fun _ _ => True)
      (assign i (fun b => { b with state := .submitted })) (fun _ b => b.state = .submitted) :=
    goes_assign lasting_of_record (fun _ _ _ => rfl)
  have hforget : Goes 1 m₀ i (fun _ b => b.state = .submitted)
      (assign i (fun b => { b with oarJobId := none }))
      (fun _ b => b.state = .submitted ∧ b.oarJobId = none) :=
    goes_assign lasting_of_record (fun _ _ h => ⟨h, rfl⟩)
  have hroot : Goes 1 m₀ i (fun _ b => b.state = .submitted ∧ b.oarJobId = none)
      (assign i (fun b => { b with remoteJobRoot := some b.attempt })) FiledRecord :=
    goes_assign lasting_of_record (fun _ _ h => ⟨h.1, h.2, by simp⟩)
  have hcleaned : Goes 1 m₀ i FiledRecord (assign i (fun b => { b with remoteCleaned := false }))
      FiledRecord :=
    goes_assign lasting_filedRecord (fun _ _ h => h)
  exact hattempt.bind (fun _ => hsubmitted.bind (fun _ => hforget.bind (fun _ =>
    hroot.bind (fun _ => hcleaned.bind (fun _ =>
      (goes_writeLedger lasting_filedRecord).bind (fun _ => goes_submitRemotely.exceptException))))))

/-! ## The batches of a run -/

/-- A run goes on from this record: it is not refused, and the root it needs is there. -/
structure Fit (i : Nat) (roots : List (Nat × Nat)) (b : Batch) : Prop where
  accepted : b.state ≠ .cancelled
  named : b.state.active = true → b.oarJobId ≠ none
  rooted : Rooted roots i b

theorem Fit.waiting {roots : List (Nat × Nat)} {b : Batch} (h : Fit i roots b)
    (hactive : b.state.active = true) : WaitingRecord i roots b :=
  ⟨⟨hactive, h.rooted.waiting hactive (h.named hactive)⟩, h.named hactive⟩

theorem goes_processBatch : Goes 28 m₀ i (Fit i) (processBatch i) (fun _ => PublishedRecord) := by
  refine runs_bind 0 28 runs_getBatch (fun b => ?_)
  have hreconcile : Goes 13 m₀ i (WaitingRecord i) (do
      reconcileBatch i
      publishIfReady i) (fun _ => PublishedRecord) :=
    goes_reconcileBatch.bind (fun _ => goes_publishIfReady)
  have hsubmit : Goes 28 m₀ i (fun _ _ => True) (do
      submitBatch i
      reconcileBatch i
      publishIfReady i) (fun _ => PublishedRecord) :=
    goes_submitBatch.bind (fun _ => hreconcile)
  have hwaiting : b.state.active = true → ∀ m,
      On m₀ i (fun roots b' => b' = b ∧ Fit i roots b) m → On m₀ i (WaitingRecord i) m :=
    fun hactive m h => h.weaken (fun b' hr => hr.1 ▸ hr.2.waiting hactive)
  cases hstate : b.state with
  | published =>
    refine (runs_ret (Q := fun _ => On m₀ i (fun _ => PublishedRecord)) (fun m h => ?_)).weaken
      (by omega) (fun _ h => h) (fun _ _ h => h)
    exact h.weaken (fun b' hr => hr.1 ▸ ⟨hstate, hr.2.rooted.result (Or.inr hstate)⟩)
  | readyToPublish =>
    exact goes_publishBatch.weaken (by omega) (fun m h => h.weaken (fun b' hr =>
      hr.1 ▸ hr.2.rooted.result (Or.inl hstate))) (fun _ _ h => h)
  | submitted =>
    exact hreconcile.weaken (by omega) (hwaiting (by simp [hstate, BatchState.active]))
      (fun _ _ h => h)
  | running =>
    exact hreconcile.weaken (by omega) (hwaiting (by simp [hstate, BatchState.active]))
      (fun _ _ h => h)
  | planned => exact hsubmit.weaken le_rfl (fun _ h => h.weaken (fun _ _ => trivial)) (fun _ _ h => h)
  | failed => exact hsubmit.weaken le_rfl (fun _ h => h.weaken (fun _ _ => trivial)) (fun _ _ h => h)
  | cancelled =>
    intro m _ hm
    obtain ⟨-, b', -, -, hfit⟩ := hm
    exact absurd hstate hfit.accepted

/-- The record and the roots of a batch are as they were. -/
def SameAt (m₀ : Machine) (k : Nat) (m : Machine) : Prop :=
  m.batch k = m₀.batch k ∧ ∀ attempt, (k, attempt) ∈ m₀.remoteRoots → (k, attempt) ∈ m.remoteRoots

def FitAt (k : Nat) (m : Machine) : Prop := ∃ b, m.batch k = some b ∧ Fit k m.remoteRoots b

def PublishedAt (k : Nat) (m : Machine) : Prop := ∃ b, m.batch k = some b ∧ b.state = .published

theorem SameAt.fit (h : SameAt m₀ k m) (hfit : FitAt k m₀) : FitAt k m := by
  obtain ⟨b, hb, hfit⟩ := hfit
  refine ⟨b, h.1.trans hb, hfit.accepted, hfit.named, ⟨fun hactive hjob => ?_, hfit.rooted.result⟩⟩
  obtain ⟨attempt, hroot, hmem⟩ := hfit.rooted.waiting hactive hjob
  exact ⟨attempt, hroot, h.2 attempt hmem⟩

/-- The batches of a list are published, the others are as they were. -/
def Through (m₀ : Machine) (batches : List Nat) (m : Machine) : Prop :=
  (∀ k ∈ batches, PublishedAt k m) ∧ ∀ k, k ∉ batches → SameAt m₀ k m

theorem through_nil : Through m₀ [] m₀ :=
  ⟨by simp, fun _ _ => ⟨rfl, fun _ h => h⟩⟩

theorem Through.after (h : Through m₀ batches m) (hop : op.removes = false) :
    Through m₀ batches (m.after op turn) := by
  refine ⟨fun k hk => ?_, fun k hk => ?_⟩
  · obtain ⟨b, hb, hstate⟩ := h.1 k hk
    exact ⟨b, by rw [after_batch]; exact hb, hstate⟩
  · refine ⟨by rw [after_batch]; exact (h.2 k hk).1, fun a ha => ?_⟩
    exact mem_after_roots hop ((h.2 k hk).2 a ha)

theorem runs_next {batches : List Nat} (hnew : i ∉ batches) (hfit : FitAt i m₀) :
    Runs 28 (Through m₀ batches) (processBatch i) (fun _ => Through m₀ (batches ++ [i])) := by
  intro m hsmooth hm
  obtain ⟨b, hb, hfit'⟩ := (hm.2 i hnew).fit hfit
  have hon : On m i (Fit i) m := ⟨fun k _ => ⟨rfl, fun _ h => h⟩, b, hb, hfit'⟩
  refine wp_imp ?_ (goes_processBatch m hsmooth hon)
  rintro _ m' ⟨hsmooth', hended, hframe, b', hb', hpublished⟩
  refine ⟨hsmooth', hended, fun k hk => ?_, fun k hk => ?_⟩
  · rcases List.mem_append.mp hk with hk | hk
    · have hne : k ≠ i := fun h => hnew (h ▸ hk)
      obtain ⟨b₁, hb₁, hstate⟩ := hm.1 k hk
      exact ⟨b₁, (hframe k hne).1.trans hb₁, hstate⟩
    · rw [List.mem_singleton] at hk
      subst hk
      exact ⟨b', hb', hpublished.1⟩
  · rw [List.mem_append, List.mem_singleton, not_or] at hk
    have hsame := hm.2 k hk.1
    exact ⟨(hframe k hk.2).1.trans hsame.1, fun a ha => (hframe k hk.2).2 a (hsame.2 a ha)⟩

theorem runs_processBatches (done batches : List Nat) (hnodup : (done ++ batches).Nodup)
    (hfit : ∀ k ∈ batches, FitAt k m₀) :
    Runs (29 * batches.length) (Through m₀ done) (processBatches batches)
      (fun _ => Through m₀ (done ++ batches)) := by
  induction batches generalizing done with
  | nil =>
    refine (runs_ret (Q := fun _ => Through m₀ (done ++ [])) (fun m h => ?_)).weaken (by simp)
      (fun _ h => h) (fun _ _ h => h)
    rw [List.append_nil]
    exact h
  | cons i rest ih =>
    have hnew : i ∉ done := fun h =>
      (List.nodup_append.mp hnodup).2.2 i h i List.mem_cons_self rfl
    have hnodup' : ((done ++ [i]) ++ rest).Nodup := by simpa using hnodup
    have hpoint : Runs 1 (Through m₀ done) (perform .point) (fun _ => Through m₀ done) :=
      runs_perform (fun _ _ h _ _ => h.after rfl)
    have hcurrent : Runs 0 (Through m₀ done)
        (step (fun m => { m with current := some i }) : Code Unit) (fun _ => Through m₀ done) :=
      runs_step (fun _ => rfl) (fun _ h => h)
    have hrest := ih (done ++ [i]) hnodup' (fun k hk => hfit k (List.mem_cons_of_mem i hk))
    have h := runs_bind _ _ hpoint (fun _ => runs_bind _ _ hcurrent (fun _ =>
      runs_bind _ _ (runs_next hnew (hfit i List.mem_cons_self)) (fun _ => hrest)))
    refine Runs.weaken h ?_ (fun _ h => h) (fun _ m h => ?_)
    · rw [List.length_cons]
      omega
    · simpa using h

/-! ## The end of a run -/

theorem runs_finalizeRun : Runs 4 AllPublished finalizeRun (fun _ => AllPublished) := by
  have hsame : ∀ op : Op, Runs 1 AllPublished (perform op) (fun _ => AllPublished) := by
    intro op
    refine runs_perform (fun m turn h _ _ => ?_)
    rw [AllPublished, after_memory]
    exact h
  have hwrite : Runs 1 AllPublished writeLedger (fun _ => AllPublished) :=
    runs_bind 1 0 (hsame _) (fun _ => runs_ret (fun _ h => h))
  have hcheck : Runs 1 AllPublished policyCheck (fun _ => AllPublished) :=
    runs_bind 1 0 (hsame _) (fun _ => runs_ret (fun _ h => h))
  have hcomplete : Runs 0 AllPublished (step (fun m => { m with
      memory := { m.memory with cleanupComplete := true } }) : Code Unit) (fun _ => AllPublished) :=
    runs_step (fun _ => rfl) (fun _ h => h)
  refine runs_bind 0 4 (runs_get (Q := fun _ => AllPublished) (fun _ h => h)) (fun m => ?_)
  split
  · exact (runs_ret (fun _ h => h)).weaken (by omega) (fun _ h => h) (fun _ _ h => h)
  · exact runs_bind 1 3 hcheck (fun _ => runs_bind 1 2 hwrite (fun _ => runs_bind 1 1 (hsame _)
      (fun _ => runs_bind 0 1 hcomplete (fun _ => hwrite))))

/-- Every batch of the ledger in memory is fit. -/
def AllFit (m : Machine) : Prop := ∀ k, k < m.memory.batches.length → FitAt k m

theorem Through.allPublished (h : Through m₀ (List.range m₀.memory.batches.length) m) :
    AllPublished m := by
  intro b hb
  obtain ⟨k, hk⟩ := List.mem_iff_getElem?.mp hb
  by_cases hrange : k ∈ List.range m₀.memory.batches.length
  · obtain ⟨b', hb', hstate⟩ := h.1 k hrange
    have : b' = b := Option.some.inj (hb'.symm.trans hk)
    rw [← this]
    exact hstate
  · have hnone : m₀.batch k = none := by
      rw [List.mem_range, not_lt] at hrange
      exact List.getElem?_eq_none hrange
    have hsame := (h.2 k hrange).1
    rw [hnone] at hsame
    rw [Machine.batch, hk] at hsame
    cases hsame

theorem wp_runBatches (hfit : AllFit m) (hsmooth : Smooth m) :
    wp runBatches (fun _ m' => AllPublished m')
      (fun e _ => e = .stopped ∧ (Ended m → m.turns.length < 29 * m.memory.batches.length + 4))
      (fun _ => True) m := by
  have hbatches : Runs (29 * m.memory.batches.length) (Through m [])
      (processBatches (List.range m.memory.batches.length))
      (fun _ => Through m (List.range m.memory.batches.length)) := by
    have hnodup : ([] ++ List.range m.memory.batches.length).Nodup := List.nodup_range
    have h := runs_processBatches [] _ hnodup (fun k hk => hfit k (List.mem_range.mp hk))
    simpa using h
  have hend : Runs 4 (Through m (List.range m.memory.batches.length)) (do
      let m ← get
      if m.memory.batches.all (fun b => b.state = .published) then finalizeRun else raise .error)
      (fun _ => AllPublished) := by
    refine runs_bind 0 4 (runs_get (Q := fun m₁ m' => m₁ = m' ∧ AllPublished m')
      (fun _ h => ⟨rfl, h.allPublished⟩)) (fun m₁ => ?_)
    split
    · exact runs_finalizeRun.weaken le_rfl (fun _ h => h.2) (fun _ _ h => h)
    · rename_i hall
      intro m' _ hm'
      obtain ⟨rfl, hpublished⟩ := hm'
      exact absurd (List.all_eq_true.mpr (fun b hb => by simpa using hpublished b hb)) hall
  have h := runs_bind _ _ hbatches (fun _ => hend) m hsmooth through_nil
  rw [runBatches, wp_bind, wp_get]
  exact wp_imp (fun _ _ h => h.2.2) h

/-! ## Batches that every run refuses -/

/-- The records that no run goes on from. -/
def Refused (b : Batch) : Prop :=
  b.state = .cancelled ∨ (b.state.active = true ∧ b.oarJobId = none)

theorem wp_processBatch_refused (hb : m.batch i = some b) (hrefused : Refused b) :
    wp (processBatch i) (fun _ _ => False) (fun e _ => e = .error) (fun _ => True) m := by
  have hreconcile : b.oarJobId = none →
      wp (reconcileBatch i) (fun _ _ => False) (fun e _ => e = .error) (fun _ => True) m := by
    intro hjob
    rw [reconcileBatch, wp_bind, getBatch, wp_read, hb]
    simp only [wp_ret, hjob, wp_raise]
  rw [processBatch, wp_bind, getBatch, wp_read, hb]
  simp only [wp_ret]
  rcases hrefused with hstate | ⟨hactive, hjob⟩
  · simp only [hstate, wp_raise]
  · cases hstate : b.state with
    | submitted =>
      simp only [wp_bind]
      exact wp_imp (fun _ _ h => h.elim) (hreconcile hjob)
    | running =>
      simp only [wp_bind]
      exact wp_imp (fun _ _ h => h.elim) (hreconcile hjob)
    | _ =>
      rw [hstate] at hactive
      cases hactive

theorem wp_processBatches_append (first second : List Nat) {Q : Unit → Machine → Prop}
    {E : Exit → Machine → Prop} {K : Machine → Prop} :
    wp (processBatches (first ++ second)) Q E K m
      = wp (processBatches first) (fun _ m' => wp (processBatches second) Q E K m') E K m := by
  induction first generalizing m with
  | nil => rfl
  | cons i rest ih =>
    simp only [List.cons_append, processBatches, wp_bind, ih]

theorem wp_runBatches_refused (hb : m.batch k = some b) (hrefused : Refused b)
    (hfit : ∀ j, j < k → FitAt j m) (hsmooth : Smooth m) :
    wp runBatches (fun _ _ => False)
      (fun e _ => e = .error ∨ (e = .stopped ∧ (Ended m → m.turns.length < 29 * k + 1)))
      (fun _ => True) m := by
  have hk : k < m.memory.batches.length := by
    rw [← not_le]
    intro hle
    rw [Machine.batch, List.getElem?_eq_none hle] at hb
    cases hb
  obtain ⟨rest, hrange⟩ : ∃ rest, List.range m.memory.batches.length
      = List.range k ++ k :: rest := by
    obtain ⟨n, hn⟩ := Nat.exists_eq_add_of_lt hk
    refine ⟨(List.range n).map (fun x => k + 1 + x), ?_⟩
    have : m.memory.batches.length = (k + 1) + n := by omega
    rw [this, List.range_add, List.range_succ, List.append_assoc]
    rfl
  have hnodup : ([] ++ List.range k).Nodup := List.nodup_range
  have hfirst := runs_processBatches [] _ hnodup (fun j hj => hfit j (List.mem_range.mp hj))
    m hsmooth through_nil
  rw [runBatches, wp_bind, wp_get, wp_bind, hrange, wp_processBatches_append]
  rw [List.length_range] at hfirst
  refine wp_mono ?_ ?_ (fun _ h => h) hfirst
  · rintro _ m₁ ⟨hsmooth₁, hended₁, hthrough⟩
    have hb₁ : m₁.batch k = some b := (hthrough.2 k (by simp)).1.trans hb
    have hpoint : Runs 1 (fun m' => m'.batch k = some b) (perform .point)
        (fun _ m' => m'.batch k = some b) :=
      runs_perform (fun _ _ h _ _ => by rw [after_batch]; exact h)
    rw [processBatches, wp_bind]
    refine wp_mono ?_ ?_ (fun _ h => h) (hpoint m₁ hsmooth₁ hb₁)
    · rintro _ m₂ ⟨-, -, hb₂⟩
      rw [wp_bind, wp_step]
      refine ⟨trivial, ?_⟩
      rw [wp_bind]
      exact wp_mono (fun _ _ h => h.elim) (fun _ _ h => Or.inl h) (fun _ h => h)
        (wp_processBatch_refused (m := { m₂ with current := some k }) hb₂ hrefused)
    · rintro e _ ⟨rfl, hlength⟩
      refine Or.inr ⟨rfl, fun he => ?_⟩
      obtain ⟨he₁, hlength₁⟩ := hended₁ he
      have := hlength he₁
      omega
  · rintro e _ ⟨rfl, hlength⟩
    refine Or.inr ⟨rfl, fun he => ?_⟩
    have := hlength he
    omega

/-! ## Ledgers from which a run can go on -/

/-- A later run in which every command succeeds and every job ends well publishes every batch, or is
still waiting when the turns are used up; and it does come to an end. -/
def Resumable (m : Machine) : Prop :=
  (∀ turns, (∀ turn ∈ turns, Succeeds turn) → (run runController (m.load turns)).1 = .error .stopped
      ∨ ((run runController (m.load turns)).1 = .ok ()
        ∧ AllPublished (run runController (m.load turns)).2))
  ∧ ∃ turns, (∀ turn ∈ turns, Succeeds turn) ∧ (run runController (m.load turns)).1 = .ok ()
    ∧ AllPublished (run runController (m.load turns)).2

theorem run_runController_ok (h : run runBatches m = (.ok (), m')) :
    run runController m = (.ok (), m') := by
  rw [runController, run_bind, run_attempt, h]
  rfl

theorem run_runController_error {e : Exit} (he : e ≠ .interrupted)
    (h : run runBatches m = (.error e, m')) : run runController m = (.error e, m') := by
  rw [runController, run_bind, run_attempt, h]
  cases e with
  | interrupted => exact absurd rfl he
  | _ => rfl

/-- A request that succeeds at once. -/
def promptTurn : Turn := ⟨fun _ => true, .done, true, .succeeded⟩

theorem succeeds_promptTurn {n : Nat} : ∀ turn ∈ List.replicate n promptTurn, Succeeds turn := by
  intro turn hturn
  rw [(List.mem_replicate.mp hturn).2]
  exact ⟨rfl, rfl, rfl⟩

theorem ended_load_prompt {n : Nat} : Ended (m.load (List.replicate n promptTurn)) := by
  intro turn hturn job
  have hmem : turn ∈ List.replicate n promptTurn := hturn
  rw [(List.mem_replicate.mp hmem).2]
  rfl

theorem DiskRooted.fitAt (h : DiskRooted m) (hb : m.disk.batches[k]? = some b) (hb' : ¬ Refused b)
    (turns : List Turn) : FitAt k (m.load turns) := by
  refine ⟨b, hb, fun hstate => hb' (Or.inl hstate), fun hactive hjob => ?_, h k b hb⟩
  exact hb' (Or.inr ⟨hactive, hjob⟩)

/-- **A later run publishes everything exactly when the ledger on disk has no refused batch.** -/
theorem resumable_iff (h : DiskRooted m) : Resumable m ↔ ∀ b ∈ m.disk.batches, ¬ Refused b := by
  constructor
  · rintro ⟨hall, -⟩
    by_contra hrefused
    push Not at hrefused
    have hindex : ∃ k : Nat, ∃ b, m.disk.batches[k]? = some b ∧ Refused b := by
      obtain ⟨b, hb, hrefused⟩ := hrefused
      obtain ⟨k, hk⟩ := List.mem_iff_getElem?.mp hb
      exact ⟨k, b, hk, hrefused⟩
    -- the first refused batch: the run gets there, and raises
    classical
    obtain ⟨b, hb, hbad⟩ := Nat.find_spec hindex
    have hfirst : ∀ j, j < Nat.find hindex → ∀ turns, FitAt j (m.load turns) := by
      intro j hj turns
      have hlength : Nat.find hindex < m.disk.batches.length := by
        rw [← not_le]
        intro hle
        rw [List.getElem?_eq_none hle] at hb
        cases hb
      have hj' : m.disk.batches[j]? = some (m.disk.batches.get ⟨j, by omega⟩) := by simp
      exact h.fitAt hj' (fun hr => Nat.find_min hindex hj ⟨_, hj', hr⟩) turns
    have hturns := succeeds_promptTurn (n := 29 * Nat.find hindex + 1)
    have hwp := wp_run (wp_runBatches_refused
      (m := m.load (List.replicate (29 * Nat.find hindex + 1) promptTurn)) hb hbad
      (fun j hj => hfirst j hj _) hturns)
    cases hrun : run runBatches (m.load (List.replicate (29 * Nat.find hindex + 1) promptTurn)) with
    | mk result m' =>
      rw [hrun] at hwp
      cases result with
      | ok a => exact hwp
      | error e =>
        rcases hwp with rfl | ⟨rfl, hlength⟩
        · have herror := run_runController_error (by simp) hrun
          rcases hall _ hturns with hstop | ⟨hok, -⟩
          · rw [herror] at hstop
            cases hstop
          · rw [herror] at hok
            cases hok
        · have := hlength ended_load_prompt
          simp [Machine.load] at this
  · intro hgood
    have hfit : ∀ turns, AllFit (m.load turns) := by
      intro turns k hk
      have hk' : k < m.disk.batches.length := hk
      have hb : m.disk.batches[k]? = some (m.disk.batches.get ⟨k, hk'⟩) := by simp [hk']
      exact h.fitAt hb (hgood _ (List.mem_of_getElem? hb)) turns
    have hrun : ∀ turns, (∀ turn ∈ turns, Succeeds turn) →
        ((run runController (m.load turns)).1 = .error .stopped
          ∧ (Ended (m.load turns) → turns.length < 29 * m.disk.batches.length + 4))
        ∨ ((run runController (m.load turns)).1 = .ok ()
          ∧ AllPublished (run runController (m.load turns)).2) := by
      intro turns hturns
      have hwp := wp_run (wp_runBatches (hfit turns) hturns)
      cases hr : run runBatches (m.load turns) with
      | mk result m' =>
        rw [hr] at hwp
        cases result with
        | ok a =>
          rw [run_runController_ok hr]
          exact Or.inr ⟨rfl, hwp⟩
        | error e =>
          obtain ⟨rfl, hlength⟩ := hwp
          rw [run_runController_error (by simp) hr]
          exact Or.inl ⟨rfl, hlength⟩
    refine ⟨fun turns hturns => (hrun turns hturns).imp And.left id,
      List.replicate (29 * m.disk.batches.length + 4) promptTurn, succeeds_promptTurn, ?_⟩
    have hturns := succeeds_promptTurn (n := 29 * m.disk.batches.length + 4)
    rcases hrun _ hturns with ⟨-, hlength⟩ | hok
    · have := hlength ended_load_prompt
      simp at this
    · exact hok

/-! ## After an interrupt -/

theorem spec_writeLedger_disk {ledger : Ledger} :
    Spec (fun _ => True) (fun m => m.memory = ledger) writeLedger (fun _ m => m.disk = ledger)
      (fun _ _ => True) := by
  refine Spec.bind (M := fun _ m => m.disk = ledger) (spec_perform (fun _ _ => trivial)
    (fun _ _ => trivial) (fun m turn h hexit => ?_) (fun _ _ _ _ _ => trivial))
    (fun _ => spec_ret (fun _ h => h))
  rw [after_write_disk hexit]
  exact h

theorem spec_cancelBatch_disk (oarJobId : Option Nat) :
    Spec (fun _ => True) (fun m => ∃ b, m.batch i = some b) (cancelBatch i oarJobId)
      (fun _ m => ∃ b, m.disk.batches[i]? = some b ∧ b.state = .cancelled) (fun _ _ => True) := by
  have hsame : ∀ op : Op, Spec (fun _ => True) (fun m => ∃ b, m.batch i = some b) (perform op)
      (fun _ m => ∃ b, m.batch i = some b) (fun _ m => ∃ b, m.batch i = some b) := by
    intro op
    have hafter : ∀ (m : Machine) (turn : Turn), (∃ b, m.batch i = some b) →
        ∃ b, (m.after op turn).batch i = some b := by
      intro m turn h
      rw [after_batch]
      exact h
    exact spec_perform (fun _ _ => trivial) (fun _ h => h) (fun m turn h _ => hafter m turn h)
      (fun m turn _ h _ => hafter m turn h)
  have hcancel : Spec (fun _ => True) (fun m => ∃ b, m.batch i = some b)
      (assign i (fun b => { b with state := .cancelled }))
      (fun _ m => ∃ b, m.batch i = some b ∧ b.state = .cancelled) (fun _ _ => True) := by
    refine Spec.bind ((hsame _).weaken (fun _ h => h) (fun _ _ h => h) (fun _ _ _ => trivial))
      (fun _ => spec_step (fun _ _ => trivial) (fun m h => ?_))
    obtain ⟨b, hb⟩ := h
    exact ⟨{ b with state := .cancelled }, by rw [batch_assigned, hb]; rfl, rfl⟩
  have hwrite : Spec (fun _ => True) (fun m => ∃ b, m.batch i = some b ∧ b.state = .cancelled)
      writeLedger (fun _ m => ∃ b, m.disk.batches[i]? = some b ∧ b.state = .cancelled)
      (fun _ _ => True) := by
    refine Spec.bind (M := fun _ m => ∃ b, m.disk.batches[i]? = some b ∧ b.state = .cancelled)
      (spec_perform (fun _ _ => trivial) (fun _ _ => trivial) (fun m turn h hexit => ?_)
        (fun _ _ _ _ _ => trivial)) (fun _ => spec_ret (fun _ h => h))
    rw [after_write_disk hexit]
    exact h
  have hrest := hcancel.bind (fun _ => hwrite)
  cases oarJobId with
  | none => exact hrest
  | some job =>
    have hdelete : Spec (fun _ => True) (fun m => ∃ b, m.batch i = some b)
        (exceptException (do let _ ← perform (.oardel job)) (fun _ => ret ()) : Code Unit)
        (fun _ m => ∃ b, m.batch i = some b) (fun _ _ => True) := by
      intro m hm
      rw [exceptException, wp_bind, wp_attempt, wp_bind]
      refine wp_mono (fun _ _ h => h) ?_ (fun _ h => h) (hsame _ m hm)
      intro e s hs
      simp only
      split
      · exact hs
      · exact trivial
    exact hdelete.bind (fun _ => hrest)

theorem disk_of_handleInterrupt (h : run handleInterrupt m = (.ok (), m')) :
    ((∀ i b, m.current = some i → m.batch i = some b → b.state.active = false) ∧ m'.disk = m.memory)
      ∨ ((∃ i b, m.current = some i ∧ m.batch i = some b ∧ b.state.active = true)
        ∧ ∃ b ∈ m'.disk.batches, b.state = .cancelled) := by
  have hwrite : run writeLedger m = (.ok (), m') → m'.disk = m.memory := by
    intro hrun
    have hwp := wp_run (spec_writeLedger_disk m rfl)
    rw [hrun] at hwp
    exact hwp
  rw [handleInterrupt, run_bind_ok (run_get m)] at h
  cases hcurrent : m.current with
  | none =>
    rw [hcurrent] at h
    exact Or.inl ⟨by simp, hwrite h⟩
  | some i =>
    simp only [hcurrent] at h
    cases hb : m.batch i with
    | none =>
      rw [hb] at h
      refine Or.inl ⟨fun k b hk hbk => ?_, hwrite h⟩
      rw [Option.some.injEq] at hk
      rw [← hk, hb] at hbk
      cases hbk
    | some b =>
      simp only [hb] at h
      by_cases hactive : b.state.active = true
      · rw [if_pos hactive] at h
        have hwp := wp_run (spec_cancelBatch_disk (i := i) b.oarJobId m ⟨b, hb⟩)
        rw [h] at hwp
        obtain ⟨b', hb', hstate⟩ := hwp
        exact Or.inr ⟨⟨i, b, rfl, hb, hactive⟩, b', List.mem_of_getElem? hb', hstate⟩
      · rw [if_neg hactive] at h
        refine Or.inl ⟨fun k b' hk hbk => ?_, hwrite h⟩
        rw [Option.some.injEq] at hk
        rw [← hk, hb, Option.some.injEq] at hbk
        subst hbk
        simpa using hactive

/-- **When an interrupted run can be resumed.** After an interrupt at any step of a run on any ledger
that was left behind, a later run publishes every batch exactly when the current batch was not active
and the ledger in memory had no refused batch. -/
theorem interrupted_resumable_iff {count : Nat} {turns : List Turn} (hleft : Left count m₀)
    (hinterrupted : run runBatches (m₀.load turns) = (.error .interrupted, m))
    (hhandled : run handleInterrupt m = (.ok (), m')) :
    Resumable m' ↔ (∀ i b, m.current = some i → m.batch i = some b → b.state.active = false)
        ∧ ∀ b ∈ m.memory.batches, ¬ Refused b := by
  have hfair : Fair m := by
    have hwp := wp_run (spec_runBatches _ ((diskRooted_of_left hleft).load turns))
    rw [hinterrupted] at hwp
    exact hwp
  have hdisk : DiskRooted m' := by
    have hwp := wp_run (spec_handleInterrupt m hfair)
    rw [hhandled] at hwp
    exact hwp
  rw [resumable_iff hdisk]
  rcases disk_of_handleInterrupt hhandled with ⟨hidle, hsame⟩ | ⟨⟨i, b, hi, hb, hactive⟩, hcancelled⟩
  · rw [hsame]
    exact ⟨fun h => ⟨hidle, h⟩, fun h => h.2⟩
  · constructor
    · intro h
      obtain ⟨b', hb', hstate⟩ := hcancelled
      exact absurd (Or.inl hstate) (h b' hb')
    · rintro ⟨hidle, -⟩
      rw [hidle i b hi hb] at hactive
      cases hactive

/-! ## Interrupting a running job -/

namespace Resumption.Example

open Submission.Example

/-- The interrupt arrives while the controller waits for its job. -/
def interruptWhileRunning : List Turn :=
  List.replicate 17 done ++ ⟨fun _ => false, .interrupt false, true, .succeeded⟩
    :: List.replicate 3 done

/-- The controller at the interrupt, and after it has handled it. -/
def interrupted : Machine := (run runBatches (planned.load interruptWhileRunning)).2

def handled : Machine := (run handleInterrupt interrupted).2

/-- The first batch is published, and the interrupt arrives at the second one before it is
submitted. -/
def interruptBetween : List Turn :=
  List.replicate 31 doneAndEnded ++ [⟨fun _ => false, .interrupt false, true, .succeeded⟩, done]

def interruptedBetween : Machine := (run runBatches (plannedTwo.load interruptBetween)).2

def handledBetween : Machine := (run handleInterrupt interruptedBetween).2

theorem planned_left : Left 1 planned := Left.start

theorem batches_interruptedBetween :
    interruptedBetween.memory.batches.map (fun b => (b.state, b.oarJobId))
      = [(.published, some 0), (.planned, none)] := rfl

theorem interruptedBetween_resumable :
    interruptedBetween.current = some 1 ∧ Resumable handledBetween := by
  have hrun : run runBatches (plannedTwo.load interruptBetween)
      = (.error .interrupted, interruptedBetween) := rfl
  have hhandled : run handleInterrupt interruptedBetween = (.ok (), handledBetween) := rfl
  have hidle : ∀ b ∈ interruptedBetween.memory.batches,
      b.state.active = false ∧ b.state ≠ .cancelled := by
    intro b hb
    have hmem := List.mem_map_of_mem (f := fun b => (b.state, b.oarJobId)) hb
    rw [batches_interruptedBetween, List.mem_cons, List.mem_singleton] at hmem
    rcases hmem with heq | heq <;>
    · obtain ⟨hstate, -⟩ := Prod.mk.inj heq
      simp [hstate, BatchState.active]
  refine ⟨rfl, (interrupted_resumable_iff Left.start hrun hhandled).mpr ⟨?_, ?_⟩⟩
  · intro i b _ hb
    exact (hidle b (List.mem_of_getElem? hb)).1
  · rintro b hb (hcancelled | ⟨hactive, -⟩)
    · exact (hidle b hb).2 hcancelled
    · rw [(hidle b hb).1] at hactive
      cases hactive

/-- The interrupt while the job runs cancels it, and writes the batch down as cancelled: every later
run raises at that batch. -/
theorem interrupted_while_running : Left 1 planned
      ∧ run runBatches (planned.load interruptWhileRunning) = (.error .interrupted, interrupted)
      ∧ interrupted.current = some 0
      ∧ (interrupted.batch 0).map (fun b => (b.state, b.oarJobId)) = some (.running, some 0)
      ∧ run handleInterrupt interrupted = (.ok (), handled)
      ∧ ¬ Resumable handled := by
  have hhandled : run handleInterrupt interrupted = (.ok (), handled) := rfl
  refine ⟨planned_left, rfl, rfl, rfl, hhandled, fun h => ?_⟩
  have hfair : Fair interrupted :=
    wp_run (spec_runBatches _ ((diskRooted_of_left planned_left).load interruptWhileRunning))
  have hdisk : DiskRooted handled := wp_run (spec_handleInterrupt interrupted hfair)
  rcases disk_of_handleInterrupt hhandled with ⟨hidle, -⟩ | ⟨-, b, hb, hstate⟩
  · cases hidle 0 _ rfl rfl
  · exact (resumable_iff hdisk).mp h b hb (Or.inl hstate)

end Resumption.Example

end OsmPolygonWikidata.Grid5000
