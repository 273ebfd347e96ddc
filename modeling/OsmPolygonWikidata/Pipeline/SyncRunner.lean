import OsmPolygonWikidata.Basic.Durable
import OsmPolygonWikidata.Publication.MetadataRefresh

/-! # The phases of a sync run

`pipeline/sync_runner.py`. A run goes through the states of its plan in four phases, and a background
thread extracts the PBF of the next `PROCESS` state meanwhile. `runSync_phases` compares the calls of
a run with those of the states one by one (`regionState`): but for the starts of extractions they are
the same, and a start is one state ahead at most.
-/

namespace OsmPolygonWikidata.SyncRunner

open Durable Durable.Prog
open MetadataRefresh (SyncAction)

/-! ## Calls -/

structure RegionSyncState where
  stem : String
  pbfPath : String
  action : SyncAction

/-- A call of a collaborator. `start` hands an extraction to the thread, `extracted` waits for it. -/
inductive Call where
  | recover (state : RegionSyncState)
  | start (state : RegionSyncState)
  | extracted (state : RegionSyncState)
  | process (state : RegionSyncState)
  | augment (state : RegionSyncState)
  | load (state : RegionSyncState)
  | complete (state : RegionSyncState)
  | build (state : RegionSyncState)
  | message (state : RegionSyncState)
  | submit (state : RegionSyncState)
  | close

/-- The collaborators. Each is called once for a state at most, so that its answer is a function of
the state, whatever it did before. -/
structure Collaborators (X C R O E : Type) where
  extractPbf : RegionSyncState → Except E X
  processExtractedPbf : RegionSyncState → X → Except E C
  augmentRegion : RegionSyncState → Except E R
  loadExistingAugmentation : Option (RegionSyncState → Except E R)
  recoverRegion : Option (RegionSyncState → Except E (Option R))
  onComplete : Option (RegionSyncState → R → Except E Unit)
  buildUploadFiles : Option (RegionSyncState → R → Option C → Except E (List O))
  commitMessage : Option (RegionSyncState → Except E String)
  submitUpload : Option (RegionSyncState → List O → String → Except E Unit)
  closeUploads : Option (Except E (List String))
  runtimeError : String → E

/-- A program that logs its calls. -/
abbrev Run (E α : Type) := Prog (List Call) E α

variable {X C R O E α : Type}

/-- The program logs the call and goes on with its answer. -/
def call (event : Call) (answer : Except E α) : Run E α :=
  act (fun log => log ++ [event])
    (match answer with
      | .ok a => ret a
      | .error e => raise e)

variable (c : Collaborators X C R O E)

/-- The message of a commit. -/
def commitMessage (state : RegionSyncState) : Run E String :=
  match c.commitMessage with
  | some commitMessage => call (.message state) (commitMessage state)
  | none => ret s!"Sync complete region {state.stem}"

def maybeSubmit (state : RegionSyncState) (augmentation : R) (core : Option C) :
    Run E Unit :=
  match c.submitUpload, c.buildUploadFiles with
  | some submit, some build => do
    let ops ← call (.build state) (build state augmentation core)
    match ops with
    | [] => ret ()
    | ops => do
      let message ← commitMessage c state
      call (.submit state) (submit state ops message)
  | _, _ => ret ()

def notify (state : RegionSyncState) (result : R) : Run E Unit :=
  match c.onComplete with
  | some onComplete => call (.complete state) (onComplete state result)
  | none => ret ()

def completeState (state : RegionSyncState) (result : R) (core : Option C) : Run E Unit := do
  notify c state result
  maybeSubmit c state result core

/-- What a state yields is completed, if it is not `None`. -/
def settle (state : RegionSyncState) : Option (R × Option C) → Run E Unit
  | none => ret ()
  | some (result, core) => completeState c state result core

/-- A collaborator that the states of a phase need. -/
def needed {F : Type} (collaborator : Option F) (message : String) : Run E F :=
  match collaborator with
  | none => raise (c.runtimeError message)
  | some f => ret f

/-- A phase that asks for its collaborator if it has states. -/
def phase {F : Type} (collaborator : Option F) (message : String)
    (body : F → RegionSyncState → Run E Unit) : List RegionSyncState → Run E Unit
  | [] => ret ()
  | states => do
    let f ← needed c collaborator message
    states.forM (body f)

def recoveryMessage : String := "run_sync requires recover_region collaborator for RECOVERY states"

def publishMessage : String :=
  "run_sync requires load_existing_augmentation collaborator for PUBLISH states"

/-- `_run_recovery_phase`. No core result is stored before the `PROCESS` phase. -/
def runRecoveryPhase (states : List RegionSyncState) : Run E Unit :=
  phase c c.recoverRegion recoveryMessage (fun recover state => do
    let result ← call (.recover state) (recover state)
    settle c state (result.map (fun result => (result, none)))) states

def runAugmentPhase (states : List RegionSyncState) : Run E Unit :=
  states.forM (fun state => do
    let result ← call (.augment state) (c.augmentRegion state)
    completeState c state result none)

def runPublishPhase (states : List RegionSyncState) : Run E Unit :=
  phase c c.loadExistingAugmentation publishMessage (fun load state => do
    let result ← call (.load state) (load state)
    completeState c state result none) states

/-- `_start_extraction_prefetch`, and the submission in the `PROCESS` phase: the future is the state
whose PBF is extracted. -/
def startExtraction : List RegionSyncState →
    Run E (Option RegionSyncState)
  | [] => ret none
  | state :: _ => do
    call (.start state) (.ok ())
    ret (some state)

/-- What comes after the extraction of a state. -/
def finishState (state : RegionSyncState) (extracted : X) : Run E Unit := do
  let core ← call (.process state) (c.processExtractedPbf state extracted)
  let result ← call (.augment state) (c.augmentRegion state)
  completeState c state result (some core)

def runProcessPhase : Option RegionSyncState → List RegionSyncState →
    Run E Unit
  | _, [] => ret ()
  | none, state :: _ =>
    raise (c.runtimeError s!"Missing prefetched extraction for PROCESS state {state.stem}")
  | some future, state :: rest => do
    let extracted ← call (.extracted future) (c.extractPbf future)
    let next ← startExtraction rest
    finishState c state extracted
    runProcessPhase next rest

/-- A bucket of `_partition_states`. -/
def bucket (action : SyncAction) (states : List RegionSyncState) : List RegionSyncState :=
  states.filter (fun state => state.action = action)

/-- The body of the `try` statement. -/
def runPhases (states : List RegionSyncState) : Run E Unit := do
  runRecoveryPhase c (bucket .recovery states)
  let future ← startExtraction (bucket .process states)
  runAugmentPhase c (bucket .augment states)
  runPublishPhase c (bucket .publish states)
  runProcessPhase c future (bucket .process states)

/-- The uploads are closed, if there is a queue. -/
def closeUploads : Run E (List String) :=
  match c.closeUploads with
  | none => ret []
  | some failures => call .close failures

def runSync (states : List RegionSyncState) : Run E Nat := do
  match ← attempt (runPhases c states) with
  | .error e => do
    let _ ← closeUploads c
    raise e
  | .ok () => do
    let failures ← closeUploads c
    ret (if failures = [] then 0 else 1)

/-! ## One state at a time -/

/-- What a state yields, with its core if it is processed. -/
def work (state : RegionSyncState) : Run E (Option (R × Option C)) :=
  match state.action with
  | .recovery => do
    let recover ← needed c c.recoverRegion recoveryMessage
    let result ← call (.recover state) (recover state)
    ret (result.map (fun result => (result, none)))
  | .augment => do
    let result ← call (.augment state) (c.augmentRegion state)
    ret (some (result, none))
  | .publish => do
    let load ← needed c c.loadExistingAugmentation publishMessage
    let result ← call (.load state) (load state)
    ret (some (result, none))
  | .process => do
    let extracted ← call (.extracted state) (c.extractPbf state)
    let core ← call (.process state) (c.processExtractedPbf state extracted)
    let result ← call (.augment state) (c.augmentRegion state)
    ret (some (result, some core))
  | .complete => ret none

/-- A state without any other. -/
def regionState (state : RegionSyncState) : Run E Unit := do
  let answer ← work c state
  settle c state answer

def callsOf (state : RegionSyncState) : List Call := (run (regionState c state) []).2

def Succeeds (state : RegionSyncState) : Prop := (run (regionState c state) []).1 = .ok ()

/-- The states in the order of the phases. -/
def planOrder (states : List RegionSyncState) : List RegionSyncState :=
  bucket .recovery states ++ bucket .augment states ++ bucket .publish states
    ++ bucket .process states

def started : Call → Option RegionSyncState
  | .start state => some state
  | _ => none

/-- The calls but for the starts. -/
def calls (log : List Call) : List Call := log.filter (fun event => (started event).isNone)

/-- The states have succeeded, and the log holds their calls. -/
def Ran (done : List RegionSyncState) (log : List Call) : Prop :=
  calls log = done.flatMap (callsOf c) ∧ ∀ state ∈ done, Succeeds c state

/-- When an extraction may start: the first one after all recoveries, another one when that of the
previous state has ended and all states before that one have succeeded. -/
def MayStart (states : List RegionSyncState) (log : List Call) (state : RegionSyncState) : Prop :=
  (∃ after, bucket .process states = state :: after) ∧ Ran c (bucket .recovery states) log
    ∨ ∃ before previous after earlier, bucket .process states = before ++ previous :: state :: after
        ∧ log = earlier ++ [.extracted previous]
        ∧ Ran c (bucket .recovery states ++ bucket .augment states ++ bucket .publish states
          ++ before) earlier

/-- The extractions of `ahead` have started, each one when it might. -/
structure Paced (states ahead : List RegionSyncState) (log : List Call) : Prop where
  mayStart : ∀ earlier state, earlier ++ [.start state] <+: log → MayStart c states earlier state
  inOrder : log.filterMap started = ahead

/-- What a run has done when it ends: the states of `done` have succeeded, and with an exception,
the first one of `rest` has failed. -/
structure Stopped (states done rest : List RegionSyncState) (e : Option E) (log : List Call) :
    Prop where
  order : planOrder states = done ++ rest
  succeeded : ∀ state ∈ done, Succeeds c state
  failed : match e with
    | none => rest = []
    | some e => ∃ state after, rest = state :: after ∧ (run (regionState c state) []).1 = .error e
  calls : calls log = done.flatMap (callsOf c) ++ (rest.take 1).flatMap (callsOf c)
  paced : ∃ ahead, Paced c states ahead log ∧ ahead <+: bucket .process states

/-- The calls of a state that complete what it yields. -/
def completionOf (state : RegionSyncState) : List Call :=
  match (run (work c state) []).1 with
  | .ok (some (result, core)) => (run (completeState c state result core) []).2
  | _ => []

def workCalls (state : RegionSyncState) : List Call :=
  [.recover state, .extracted state, .process state, .augment state, .load state]

def completionCalls (state : RegionSyncState) : List Call :=
  [.complete state, .build state, .message state, .submit state]

/-- The calls of a state end with its completion: `on_complete` is called, if there is one, and then
at most one upload is submitted. -/
structure Completes (state : RegionSyncState) : Prop where
  calls : callsOf c state = (run (work c state) []).2 ++ completionOf c state
  work : (run (work c state) []).2.Sublist (workCalls state)
  completion : (completionOf c state).Sublist (completionCalls state)
  completed : ∀ result, (run (SyncRunner.work c state) []).1 = .ok (some result) →
    c.onComplete.isSome → (completionOf c state).head? = some (.complete state)

/-! ## Programs that only log -/

variable {c} {p : Run E α} {state : RegionSyncState} {states : List RegionSyncState}
  {xs ys : List Call}

/-- What `p` does not depend on the log, to which it appends some of the calls `xs`, in order. -/
def Logs (xs : List Call) (p : Run E α) : Prop :=
  ∀ log, run p log = ((run p []).1, log ++ (run p []).2) ∧ (run p []).2.Sublist xs

theorem logs_ret (a : α) : Logs xs (ret a : Run E α) := fun log => by simp

theorem logs_raise (e : E) : Logs xs (raise e : Run E α) := fun log => by simp

theorem run_call (event : Call) (answer : Except E α) (log : List Call) :
    run (call event answer) log = (answer, log ++ [event]) := by
  cases answer <;> rfl

theorem logs_call {event : Call} (h : event ∈ xs) (answer : Except E α) :
    Logs xs (call event answer) := by
  intro log
  simpa [run_call] using h

theorem Logs.bind {β : Type} {k : α → Run E β} (hp : Logs xs p) (hk : ∀ a, Logs ys (k a)) :
    Logs (xs ++ ys) (p >>= k) := by
  intro log
  have hin := (hp []).2
  rw [run_bind, run_bind, (hp log).1]
  generalize run p [] = first at hin
  obtain ⟨e | a, more⟩ := first
  · exact ⟨rfl, hin.trans (List.sublist_append_left xs ys)⟩
  · have h := hk a more
    simp only [(hk a (log ++ more)).1, h.1, List.append_assoc, true_and]
    exact hin.append h.2

/-! ## A state -/

theorem logs_maybeSubmit (result : R) (core : Option C) :
    Logs [.build state, .message state, .submit state] (maybeSubmit c state result core) := by
  unfold maybeSubmit
  split
  · refine (logs_call (List.mem_singleton_self _) _).bind (fun ops => ?_)
    have hmessage : Logs [.message state] (commitMessage c state) := by
      unfold commitMessage
      split
      · exact logs_call (List.mem_singleton_self _) _
      · exact logs_ret _
    split
    · exact logs_ret _
    · exact hmessage.bind (fun message => logs_call (List.mem_singleton_self _) _)
  · exact logs_ret _

theorem logs_completeState (result : R) (core : Option C) :
    Logs (completionCalls state) (completeState c state result core) := by
  have hnotify : Logs [.complete state] (notify c state result) := by
    unfold notify
    split
    · exact logs_call (List.mem_singleton_self _) _
    · exact logs_ret _
  exact hnotify.bind (fun _ => logs_maybeSubmit _ _)

theorem logs_settle (answer : Option (R × Option C)) :
    Logs (completionCalls state) (settle c state answer) := by
  cases answer with
  | none => exact logs_ret _
  | some answer => exact logs_completeState _ _

theorem logs_work : Logs (workCalls state) (work c state) := by
  intro log
  unfold work needed workCalls
  cases state.action with
  | recovery =>
    cases c.recoverRegion with
    | none => simp [run_bind]
    | some recover => cases h : recover state <;> simp [run_bind, run_call, h]
  | augment => cases c.augmentRegion state <;> simp [run_bind, run_call]
  | publish =>
    cases c.loadExistingAugmentation with
    | none => simp [run_bind]
    | some load => cases h : load state <;> simp [run_bind, run_call, h]
  | process =>
    cases c.extractPbf state with
    | error e => simp [run_bind, run_call]
    | ok x =>
      cases hprocess : c.processExtractedPbf state x with
      | error e => simp [run_bind, run_call, hprocess]
      | ok core => cases c.augmentRegion state <;> simp [run_bind, run_call, hprocess]
  | complete => simp

theorem completes (state : RegionSyncState) : Completes c state := by
  have hrest : ∀ result core, (run (completeState c state result core) []).2.Sublist
      (completionCalls state) := fun result core => (logs_completeState result core []).2
  refine ⟨?_, (logs_work []).2, ?_, ?_⟩
  · unfold callsOf regionState completionOf
    rw [run_bind]
    rcases run (work c state) [] with ⟨e | _ | ⟨result, core⟩, more⟩
    · simp
    · simp [settle]
    · simp [settle, (logs_completeState result core more).1]
  · unfold completionOf
    split
    · exact hrest _ _
    · exact List.nil_sublist _
  · rintro ⟨result, core⟩ hresult hcomplete
    obtain ⟨onComplete, honComplete⟩ := Option.isSome_iff_exists.mp hcomplete
    unfold completionOf completeState notify
    simp only [hresult, honComplete, run_bind, run_call]
    cases onComplete state result with
    | error e => rfl
    | ok _ => simp [(logs_maybeSubmit result core [.complete state]).1]

theorem bind_bind {β γ : Type} (p : Run E α) (k : α → Run E β) (l : β → Run E γ) :
    ((p >>= k) >>= l) = (p >>= fun a => k a >>= l) := by
  induction p with
  | ret a => rfl
  | raise e => rfl
  | read next ih => exact congrArg read (funext ih)
  | act f next ih => exact congrArg (act f) ih

theorem regionState_process (h : state.action = .process) : regionState c state
      = (call (.extracted state) (c.extractPbf state) >>= finishState c state) := by
  unfold regionState work
  simp only [h, bind_bind]
  rfl

theorem forM_congr {body : RegionSyncState → Run E Unit} {xs : List RegionSyncState}
    (h : ∀ state ∈ xs, body state = regionState c state) : xs.forM body = xs.forM (regionState c) := by
  induction xs with
  | nil => rfl
  | cons state xs ih =>
    show (body state >>= fun _ => xs.forM body) = (regionState c state >>= fun _ => _)
    rw [h state List.mem_cons_self, ih (fun other hother => h other (List.mem_cons_of_mem _ hother))]

theorem action_of_mem_bucket {action : SyncAction} (h : state ∈ bucket action states) :
    state.action = action :=
  of_decide_eq_true (List.mem_filter.mp h).2

theorem phase_eq {F : Type} {collaborator : Option F} {message : String}
    {body : F → RegionSyncState → Run E Unit} {xs : List RegionSyncState}
    (h : ∀ state ∈ xs, (needed c collaborator message >>= fun f => body f state)
      = regionState c state) :
    phase c collaborator message body xs = xs.forM (regionState c) := by
  cases xs with
  | nil => rfl
  | cons state xs =>
    cases collaborator with
    | none =>
      show _ = (regionState c state >>= fun _ => _)
      rw [← h state List.mem_cons_self]
      rfl
    | some f => exact forM_congr (fun state hstate => h state hstate)

theorem runRecoveryPhase_eq : runRecoveryPhase c (bucket .recovery states)
    = (bucket .recovery states).forM (regionState c) := by
  refine phase_eq (fun state hstate => ?_)
  unfold regionState work
  simp only [action_of_mem_bucket hstate, bind_bind]
  rfl

theorem runAugmentPhase_eq : runAugmentPhase c (bucket .augment states)
    = (bucket .augment states).forM (regionState c) := by
  refine forM_congr (fun state hstate => ?_)
  unfold regionState work
  simp only [action_of_mem_bucket hstate, bind_bind]
  rfl

theorem runPublishPhase_eq : runPublishPhase c (bucket .publish states)
    = (bucket .publish states).forM (regionState c) := by
  refine phase_eq (fun state hstate => ?_)
  unfold regionState work
  simp only [action_of_mem_bucket hstate, bind_bind]
  rfl

/-! ## Runs -/

variable {done ahead : List RegionSyncState} {log : List Call}

theorem Paced.append (h : Paced c states ahead log) {more : List Call}
    (hmore : ∀ event ∈ more, started event = none) : Paced c states ahead (log ++ more) := by
  induction more using List.reverseRecOn with
  | nil => rwa [List.append_nil]
  | append_singleton more event ih =>
    have hmore' : Paced c states ahead (log ++ more) :=
      ih (fun e he => hmore e (List.mem_append_left _ he))
    have hevent := hmore event (by simp)
    rw [← List.append_assoc]
    refine ⟨fun earlier state hstart => ?_, ?_⟩
    · rcases List.prefix_concat_iff.mp hstart with heq | hstart
      · rw [← (List.append_inj' heq rfl).2 |> List.singleton_inj.mp] at hevent
        cases hevent
      · exact hmore'.mayStart earlier state hstart
    · rw [List.filterMap_append, hmore'.inOrder]
      simp [hevent]

theorem Paced.start (h : Paced c states ahead log) (hmay : MayStart c states log state) :
    Paced c states (ahead ++ [state]) (log ++ [.start state]) := by
  refine ⟨fun earlier other hstart => ?_, ?_⟩
  · rcases List.prefix_concat_iff.mp hstart with heq | hstart
    · obtain ⟨rfl, hother⟩ := List.append_inj' heq rfl
      cases hother
      exact hmay
    · exact h.mayStart earlier other hstart
  · rw [List.filterMap_append, h.inOrder]
    rfl

theorem started_eq_none : ∀ event ∈ workCalls state ++ completionCalls state,
    started event = none := by
  simp [workCalls, completionCalls, started]

theorem calls_append {more : List Call} (h : ∀ event ∈ more, started event = none) :
    calls (log ++ more) = calls log ++ more := by
  unfold calls
  rw [List.filter_append]
  exact congrArg _ (List.filter_eq_self.mpr (fun event hevent => by rw [h event hevent]; rfl))

theorem logs_regionState : Logs (workCalls state ++ completionCalls state) (regionState c state) :=
  logs_work.bind logs_settle

/-- A state has failed, after those in front of it. -/
def Raises (c : Collaborators X C R O E) (states : List RegionSyncState) (e : E)
    (log : List Call) : Prop :=
  ∃ done rest, Stopped c states done rest (some e) log

theorem wp_rest {p : Run E Unit} (pre : List Call) {after : List RegionSyncState}
    (horder : planOrder states = done ++ state :: after)
    (hp : Logs xs p) (hxs : ∀ event ∈ xs, started event = none)
    (hstate : run (regionState c state) [] = ((run p []).1, pre ++ (run p []).2))
    (hdone : ∀ other ∈ done, Succeeds c other)
    (hcalls : calls log = done.flatMap (callsOf c) ++ pre)
    (hpaced : Paced c states ahead log) (hahead : ahead <+: bucket .process states) :
    wp p (fun _ log' => Ran c (done ++ [state]) log' ∧ Paced c states ahead log')
      (Raises c states) (fun _ => True) log := by
  have hquiet : ∀ event ∈ (run p []).2, started event = none :=
    fun event hevent => hxs event ((hp []).2.subset hevent)
  have hpaced' := hpaced.append hquiet
  have hcalls' : calls (log ++ (run p []).2) = done.flatMap (callsOf c) ++ callsOf c state := by
    rw [calls_append hquiet, hcalls, List.append_assoc]
    exact congrArg _ (congrArg Prod.snd hstate).symm
  refine wp_mono (fun _ log' h => ?_) (fun e log' h => ?_) (fun _ h => h) (wp_self p log)
  · rw [(hp log).1, Prod.mk.injEq] at h
    obtain ⟨hok, rfl⟩ := h
    refine ⟨⟨by simpa using hcalls', fun other hother => ?_⟩, hpaced'⟩
    rcases List.mem_append.mp hother with hother | hother
    · exact hdone other hother
    · rw [List.mem_singleton.mp hother, Succeeds, hstate, hok]
  · rw [(hp log).1, Prod.mk.injEq] at h
    obtain ⟨herror, rfl⟩ := h
    refine ⟨done, state :: after, horder, hdone, ⟨state, after, rfl, ?_⟩, by simpa using hcalls',
      ahead, hpaced', hahead⟩
    rw [hstate, herror]

theorem wp_phase {before phase after : List RegionSyncState}
    (horder : planOrder states = before ++ phase ++ after) (hran : Ran c before log)
    (hpaced : Paced c states ahead log) (hahead : ahead <+: bucket .process states) :
    wp (phase.forM (regionState c))
      (fun _ log' => Ran c (before ++ phase) log' ∧ Paced c states ahead log')
      (Raises c states) (fun _ => True) log := by
  refine wp_forM (fun done log' => Ran c (before ++ done) log' ∧ Paced c states ahead log') ?_
    ⟨by rwa [List.append_nil], hpaced⟩
  rintro done state rest log' rfl ⟨hran', hpaced'⟩
  rw [← List.append_assoc]
  have horder' : planOrder states = (before ++ done) ++ state :: (rest ++ after) := by
    rw [horder]
    simp
  exact wp_rest [] horder' logs_regionState started_eq_none rfl hran'.2 (by rw [hran'.1]; simp)
    hpaced' hahead

theorem wp_startExtraction {before xs : List RegionSyncState}
    {Q : Option RegionSyncState → List Call → Prop} {Err : E → List Call → Prop}
    (hpaced : Paced c states before log)
    (hmay : ∀ state ∈ xs.head?, MayStart c states log state)
    (hQ : ∀ log', Paced c states (before ++ xs.take 1) log' → calls log' = calls log →
      Q xs.head? log') :
    wp (startExtraction xs) Q Err (fun _ => True) log := by
  cases xs with
  | nil => exact hQ log (by simpa using hpaced) rfl
  | cons state rest =>
    refine ⟨trivial, hQ _ (hpaced.start (hmay state rfl)) ?_⟩
    unfold calls
    simp [started]

theorem wp_runProcessPhase {base : List RegionSyncState}
    (hbase : base = bucket .recovery states ++ bucket .augment states ++ bucket .publish states)
    (rest : List RegionSyncState) :
    ∀ before log, bucket .process states = before ++ rest → Ran c (base ++ before) log →
      Paced c states (before ++ rest.take 1) log →
      wp (runProcessPhase c rest.head? rest)
        (fun _ log' => Ran c (planOrder states) log' ∧ Paced c states (bucket .process states) log')
        (Raises c states) (fun _ => True) log := by
  induction rest with
  | nil =>
    intro before log hprocess hran hpaced
    rw [List.take_nil] at hpaced
    refine ⟨?_, by rwa [hprocess]⟩
    rw [planOrder, ← hbase, hprocess, List.append_nil]
    exact hran
  | cons state rest ih =>
    intro before log hprocess hran hpaced
    have hmem : state ∈ bucket .process states := by
      rw [hprocess]
      simp
    have horder : planOrder states = (base ++ before) ++ state :: rest := by
      rw [planOrder, ← hbase, hprocess, List.append_assoc]
    have hahead : before ++ [state] <+: bucket .process states := ⟨rest, by simp [hprocess]⟩
    have hpaced' : Paced c states (before ++ [state]) (log ++ [.extracted state]) :=
      hpaced.append (by simp [started])
    have hcalls : calls (log ++ [.extracted state])
        = (base ++ before).flatMap (callsOf c) ++ [.extracted state] := by
      rw [calls_append (by simp [started]), hran.1]
    have hregion := regionState_process (c := c) (action_of_mem_bucket hmem)
    show wp (call (.extracted state) (c.extractPbf state) >>= _) _ _ _ _
    rw [wp_bind]
    cases hextract : c.extractPbf state with
    | error e =>
      have hraise : Logs [] (raise e : Run E Unit) := logs_raise e
      refine ⟨trivial, wp_rest [.extracted state] horder hraise (by simp) ?_ hran.2 hcalls
        hpaced' hahead⟩
      rw [hregion, run_bind, run_call, hextract]
      rfl
    | ok extracted =>
      refine ⟨trivial, ?_⟩
      show wp (startExtraction rest >>= _) _ _ _ _
      rw [wp_bind]
      refine wp_startExtraction hpaced' (fun next hnext => Or.inr ?_) (fun log' hlog hsame => ?_)
      · obtain ⟨after, rfl⟩ := List.head?_eq_some_iff.mp hnext
        exact ⟨before, state, after, log, hprocess, rfl, hbase ▸ hran⟩
      · have hfinish : Logs _ (finishState c state extracted) :=
          (logs_call (List.mem_singleton_self _) _).bind (fun _ =>
            (logs_call (List.mem_singleton_self _) _).bind (fun _ =>
              logs_completeState _ _))
        rw [wp_bind]
        refine wp_imp (fun _ log'' h => ?_)
          (wp_rest [.extracted state] horder hfinish (by simp [started, completionCalls]) ?_
            hran.2 (hsame.trans hcalls) hlog ⟨rest.drop 1, by
              rw [hprocess, List.append_assoc, List.take_append_drop, List.append_assoc]; rfl⟩)
        · exact ih (before ++ [state]) log'' (by simp [hprocess]) (by simpa using h.1)
            (by simpa using h.2)
        · rw [hregion, run_bind, run_call, hextract]
          exact (hfinish [.extracted state]).1

theorem wp_runPhases (states : List RegionSyncState) : wp (runPhases c states)
      (fun _ log => Ran c (planOrder states) log ∧ Paced c states (bucket .process states) log)
      (Raises c states) (fun _ => True) [] := by
  have hpaced : Paced c states [] [] := ⟨by simp, rfl⟩
  unfold runPhases
  rw [runRecoveryPhase_eq, runAugmentPhase_eq, runPublishPhase_eq, wp_bind]
  refine wp_imp (fun _ log h => ?_)
    (wp_phase (by simp [planOrder]; rfl) (⟨rfl, by simp⟩ : Ran c [] []) hpaced List.nil_prefix)
  rw [wp_bind]
  refine wp_startExtraction h.2 (fun state hstate => Or.inl ?_) (fun log' hlog hsame => ?_)
  · obtain ⟨after, hafter⟩ := List.head?_eq_some_iff.mp hstate
    exact ⟨⟨after, hafter⟩, h.1⟩
  rw [List.nil_append] at hlog h
  have hahead := List.take_prefix 1 (bucket .process states)
  rw [wp_bind]
  refine wp_imp (fun _ log₂ h₂ => ?_)
    (wp_phase (by simp [planOrder]; rfl) ⟨hsame.trans h.1.1, h.1.2⟩ hlog hahead)
  rw [wp_bind]
  refine wp_imp (fun _ log₃ h₃ => ?_) (wp_phase (by simp [planOrder]; rfl) h₂.1 h₂.2 hahead)
  exact wp_runProcessPhase rfl _ [] log₃ rfl (by simpa using h₃.1) (by simpa using h₃.2)

/-- What `run_sync` returns or raises, where the phases have ended with `e`. -/
def returned (c : Collaborators X C R O E) (e : Option E) : Except E Nat :=
  match c.closeUploads.getD (.ok []), e with
  | .error failure, _ => .error failure
  | .ok _, some e => .error e
  | .ok failures, none => .ok (if failures = [] then 0 else 1)

/-- **The phases of a run.** The states complete in plan order up to the first one that fails, the
extractions start when they may, and the uploads are closed at the end; each state completes once
and submits at most one upload. -/
theorem runSync_phases (c : Collaborators X C R O E) (states : List RegionSyncState) :
    (∃ done rest e log, Stopped c states done rest e log ∧ run (runSync c states) []
        = (returned c e, log ++ if c.closeUploads.isSome then [.close] else []))
      ∧ ∀ state, Completes c state := by
  refine ⟨?_, completes⟩
  have hphases := wp_run (wp_runPhases (c := c) states)
  unfold runSync returned
  rw [run_bind, run_attempt]
  generalize run (runPhases c states) [] = ended at hphases
  obtain ⟨e | _, log⟩ := ended
  · obtain ⟨done, rest, hstopped⟩ := hphases
    refine ⟨done, rest, some e, log, hstopped, ?_⟩
    unfold closeUploads
    rcases c.closeUploads with _ | failure | failures <;> simp [run_bind, run_call]
  · refine ⟨planOrder states, [], none, log, ⟨by simp, hphases.1.2, rfl, by simp [hphases.1.1],
      _, hphases.2, List.prefix_rfl⟩, ?_⟩
    unfold closeUploads
    rcases c.closeUploads with _ | failure | failures <;> simp [run_bind, run_call]

end OsmPolygonWikidata.SyncRunner
