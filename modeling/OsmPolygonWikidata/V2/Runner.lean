import OsmPolygonWikidata.Basic.Batches
import OsmPolygonWikidata.Basic.Durable

/-! # The extraction prefetch of the second version

`v2/runner.py` and `upload_region_batches` of `v2/publication.py`. The regions of a run are
extracted, resumed, published again or skipped, in plan order. One slot holds the extraction that
runs ahead, with the position of its region: it is always the next region to extract, so that it is
never lost (`runV2Sync_sound`).
-/

namespace OsmPolygonWikidata.V2Runner

open Python Durable Durable.Prog

inductive Action where
  | extract
  | reconcile
  | publish
  | skip
  deriving DecidableEq

/-- `_RegionPlan`. -/
structure RegionPlan where
  pbf : String
  stem : String
  action : Action

inductive RunError (E : Type) where
  | lostRegion (stem : String)
  | noUpload
  | raised (e : E)

structure Collaborators (X O E : Type) where
  extractV2Pbf : RegionPlan → Except E X
  mergeV2Region : RegionPlan → X → Except E Unit
  hasWikipediaRefs : X → Bool
  clearCheckpoints : String → Except E Unit
  waitUntilReady : Except E Unit
  reconcileV2Region : String → Except E Unit
  regionPublicationOps : String → Except E (List O)
  upload : Option (List O → String → Except E Unit)
  push : Bool
  writeMetadata : Except E Unit
  cleanup : Except E Unit

/-- A call of a collaborator: the submission of an extraction, the wait for its result, a merge, a
reconciliation, or an upload. -/
inductive Call (X O : Type) where
  | submit (plan : RegionPlan)
  | result (plan : RegionPlan)
  | merge (plan : RegionPlan) (extracted : X)
  | reconcile (stem : String)
  | upload (operations : List O) (message : String)

/-- `_V2ExecutionState`, and the calls of the run. The future is the region whose PBF is extracted.
-/
structure State (X O : Type) where
  future : Option RegionPlan
  index : Option Nat
  pending : List String
  provisional : List String
  extracted : List String
  calls : List (Call X O)

variable {X O E A : Type}

abbrev Run (X O E A : Type) := Prog (State X O) (RunError E) A

def State.start : State X O := ⟨none, none, [], [], [], []⟩

/-- The state after some calls. -/
def State.after (s : State X O) (calls : List (Call X O)) : State X O :=
  { s with calls := s.calls ++ calls }

def lift (answer : Except E A) : Run X O E A :=
  match answer with
  | .ok a => ret a
  | .error e => raise (.raised e)

/-- The run notes the call and goes on with its answer. -/
def call (event : Call X O) (answer : Except E A) : Run X O E A :=
  act (fun s => s.after [event]) (lift answer)

variable (c : Collaborators X O E)

/-- `_REGION_UPLOAD_BATCH_SIZE`. -/
def regionUploadBatchSize : Nat := 16

def regionUploadMessage (stems : List String) (repair : Bool) : String :=
  let start := if repair then "Repair" else "Add"
  let first := stems.headD ""
  if stems.length = 1 then s!"{start} V2 region {first}"
  else s!"{start} V2 regions {first} through {stems.getLastD first} ({stems.length} regions)"

def uploadRegionBatches (stems : List String) (upload : List O → String → Except E Unit)
    (repair : Bool) : Run X O E Unit :=
  (chunks stems regionUploadBatchSize).forM (fun batch => do
    let operations ← lift (batch.mapM c.regionPublicationOps)
    let message := regionUploadMessage batch repair
    call (.upload operations.flatten message) (upload operations.flatten message))

def flushPendingPublishes : Run X O E Unit := do
  let s ← get
  match s.pending, c.upload with
  | [], _ => ret ()
  | _, none => raise .noUpload
  | pending, some upload => do
    uploadRegionBatches c pending upload true
    step (fun s => { s with pending := [] })

/-- The first region to extract. -/
def nextExtraction (plans : List (RegionPlan × Nat)) : Option (RegionPlan × Nat) :=
  plans.find? (fun plan => plan.1.action = .extract)

/-- `_schedule_next`, which looks at the positions from `start` on. -/
def scheduleNext (plans : List RegionPlan) (start : Nat) : Run X O E Unit := do
  let s ← get
  match s.future, nextExtraction (plans.zipIdx.drop start) with
  | none, some (plan, position) => do
    let future ← call (.submit plan) (.ok plan)
    step (fun s => { s with future := some future, index := some position })
  | _, _ => ret ()

/-- `_take_extraction`. -/
def takeExtraction (plan : RegionPlan) (position : Nat) : Run X O E X := do
  let s ← get
  match s.future with
  | none => raise (.lostRegion plan.stem)
  | some future =>
    if s.index ≠ some position then raise (.lostRegion plan.stem)
    else do
      step (fun s => { s with future := none, index := none })
      call (.result future) (c.extractV2Pbf future)

/-- What follows the merge: a region with Wikipedia references is provisional. -/
def keepRegion (plan : RegionPlan) (extracted : X) : Run X O E Unit := do
  step (fun s => { s with extracted := s.extracted ++ [plan.stem] })
  if c.hasWikipediaRefs extracted then
    step (fun s => { s with provisional := s.provisional ++ [plan.stem] })
  else lift (c.clearCheckpoints plan.stem)

/-- `_process_extraction`. -/
def processExtraction (plans : List RegionPlan) (plan : RegionPlan) (position : Nat) :
    Run X O E Unit := do
  flushPendingPublishes c
  let extracted ← takeExtraction c plan position
  scheduleNext plans (position + 1)
  call (.merge plan extracted) (c.mergeV2Region plan extracted)
  keepRegion c plan extracted

/-- `_process_plan`. -/
def processPlan (plans : List RegionPlan) (item : RegionPlan × Nat) : Run X O E Unit :=
  match item.1.action with
  | .skip => ret ()
  | .publish => do
    step (fun s => { s with pending := s.pending ++ [item.1.stem] })
    let s ← get
    if regionUploadBatchSize ≤ s.pending.length then flushPendingPublishes c else ret ()
  | .reconcile =>
    step (fun s => { s with
      provisional := s.provisional ++ [item.1.stem]
      extracted := s.extracted ++ [item.1.stem] })
  | .extract => processExtraction c plans item.1 item.2

def reconcileProvisionalRegions : Run X O E Unit := do
  let s ← get
  s.provisional.forM (fun stem => do
    call (.reconcile stem) (c.reconcileV2Region stem)
    lift (c.clearCheckpoints stem))

/-- `_publish_regions`. -/
def publishRegions : Run X O E Unit := do
  let s ← get
  match c.push, c.upload with
  | false, _ => ret ()
  | true, none => raise .noUpload
  | true, some upload => uploadRegionBatches c s.extracted upload false

/-- `_finalize_regions`. -/
def finalizeRegions : Run X O E Unit := do
  flushPendingPublishes c
  lift c.waitUntilReady
  reconcileProvisionalRegions c
  publishRegions c
  lift c.writeMetadata

/-- `run_v2_sync`, after the planning. -/
def runV2Sync (plans : List RegionPlan) : Run X O E Unit :=
  ensure
    (do
      scheduleNext plans 0
      plans.zipIdx.forM (processPlan c plans)
      finalizeRegions c)
    (lift c.cleanup)

/-! ## Sound runs -/

/-- The submissions of extractions (`true`) and the waits for their results (`false`). -/
def extractionsOf (calls : List (Call X O)) : List (Bool × RegionPlan) :=
  calls.filterMap (fun
    | .submit plan => some (true, plan)
    | .result plan => some (false, plan)
    | _ => none)

def mergesOf (calls : List (Call X O)) : List (RegionPlan × X) :=
  calls.filterMap (fun
    | .merge plan extracted => some (plan, extracted)
    | _ => none)

def reconciledOf (calls : List (Call X O)) : List String :=
  calls.filterMap (fun
    | .reconcile stem => some stem
    | _ => none)

def uploadsOf (calls : List (Call X O)) : List (List O × String) :=
  calls.filterMap (fun
    | .upload operations message => some (operations, message)
    | _ => none)

def planned (actions : List Action) (plans : List RegionPlan) : List RegionPlan :=
  plans.filter (fun plan => plan.action ∈ actions)

/-- Each extraction is submitted and then taken, one after the other. -/
def cycles (plans : List RegionPlan) : List (Bool × RegionPlan) :=
  (planned [.extract] plans).flatMap (fun plan => [(true, plan), (false, plan)])

/-- The region is resumed, or extracted with Wikipedia references. -/
def isProvisional (plan : RegionPlan) : Bool :=
  match plan.action, c.extractV2Pbf plan with
  | .reconcile, _ => true
  | .extract, .ok extracted => c.hasWikipediaRefs extracted
  | _, _ => false

/-- The upload of a batch of regions: all operations of each, in the order of the batch. -/
def Uploads (repair : Bool) (batch : List String) (upload : List O × String) : Prop :=
  ∃ operations, batch.mapM c.regionPublicationOps = .ok operations
    ∧ upload = (operations.flatten, regionUploadMessage batch repair)

/-- The uploads are those of these regions, batch by batch. -/
def Published (repair : Bool) (stems : List String) (uploads : List (List O × String)) : Prop :=
  ∃ batches, batches.flatten = stems ∧ List.Forall₂ (Uploads c repair) batches uploads

/-- Every region is extracted once at most, and merged with its own result, in plan order. -/
structure Kept (plans : List RegionPlan) (calls : List (Call X O)) : Prop where
  extractions : extractionsOf calls <+: cycles plans
  merges : (mergesOf calls).map Prod.fst <+: planned [.extract] plans
  results : ∀ merge ∈ mergesOf calls, c.extractV2Pbf merge.1 = .ok merge.2

/-- What a run leaves that returns: the repairs, then the reconciliations, then the uploads of the
regions that were extracted or resumed. -/
structure Finished (plans : List RegionPlan) (calls : List (Call X O)) : Prop where
  extractions : extractionsOf calls = cycles plans
  merges : (mergesOf calls).map Prod.fst = planned [.extract] plans
  published : ∃ before after, calls = before ++ after
    ∧ reconciledOf before = (plans.filter (isProvisional c)).map RegionPlan.stem
    ∧ Published c true ((planned [.publish] plans).map RegionPlan.stem) (uploadsOf before)
    ∧ reconciledOf after = []
    ∧ if c.push
      then Published c false ((planned [.extract, .reconcile] plans).map RegionPlan.stem)
        (uploadsOf after)
      else uploadsOf after = []

/-- How a run ends. -/
structure Sound (plans : List RegionPlan) (result : Except (RunError E) Unit)
    (calls : List (Call X O)) : Prop where
  notLost : ∀ stem, result ≠ .error (.lostRegion stem)
  kept : Kept c plans calls
  finished : result = .ok () → Finished c plans calls

/-- An exception that does not lose a region. -/
def Raised (plans : List RegionPlan) (e : RunError E) (s : State X O) : Prop :=
  (∀ stem, e ≠ .lostRegion stem) ∧ Kept c plans s.calls

/-! ## Calls -/

section

variable {calls calls' : List (Call X O)}

@[simp] theorem extractionsOf_append :
    extractionsOf (calls ++ calls') = extractionsOf calls ++ extractionsOf calls' :=
  List.filterMap_append ..

@[simp] theorem mergesOf_append : mergesOf (calls ++ calls') = mergesOf calls ++ mergesOf calls' :=
  List.filterMap_append ..

@[simp] theorem reconciledOf_append :
    reconciledOf (calls ++ calls') = reconciledOf calls ++ reconciledOf calls' :=
  List.filterMap_append ..

@[simp] theorem uploadsOf_append :
    uploadsOf (calls ++ calls') = uploadsOf calls ++ uploadsOf calls' :=
  List.filterMap_append ..

/-- No extraction and no merge is among the calls. -/
structure Quiet (calls : List (Call X O)) : Prop where
  extractions : extractionsOf calls = []
  merges : mergesOf calls = []

theorem Quiet.append (h : Quiet calls) (h' : Quiet calls') : Quiet (calls ++ calls') :=
  ⟨by simp [h.extractions, h'.extractions], by simp [h.merges, h'.merges]⟩

variable {c} {plans : List RegionPlan}

theorem Kept.after (h : Kept c plans calls) (hquiet : Quiet calls') :
    Kept c plans (calls ++ calls') := by
  refine ⟨?_, ?_, ?_⟩
  · simpa [hquiet.extractions] using h.extractions
  · simpa [hquiet.merges] using h.merges
  · simpa [hquiet.merges] using h.results

theorem Published.append {repair : Bool} {stems stems' : List String}
    {uploads uploads' : List (List O × String)} (h : Published c repair stems uploads)
    (h' : Published c repair stems' uploads') :
    Published c repair (stems ++ stems') (uploads ++ uploads') := by
  obtain ⟨batches, rfl, hbatches⟩ := h
  obtain ⟨batches', rfl, hbatches'⟩ := h'
  exact ⟨batches ++ batches', List.flatten_append, List.rel_append hbatches hbatches'⟩

end

/-! ## The parts of a run -/

variable {c} {plans : List RegionPlan} {s : State X O} {Q : Unit → State X O → Prop}
  {Err : RunError E → State X O → Prop}

theorem planned_append (actions : List Action) (front back : List RegionPlan) :
    planned actions (front ++ back) = planned actions front ++ planned actions back :=
  List.filter_append ..

theorem cycles_append (front back : List RegionPlan) :
    cycles (front ++ back) = cycles front ++ cycles back := by
  unfold cycles
  rw [planned_append, List.flatMap_append]

/-- The extraction that runs ahead is the next one. -/
theorem cycles_next_prefix (front : List RegionPlan) (back : List (RegionPlan × Nat)) :
    cycles front ++ ((nextExtraction back).map (fun item => (true, item.1))).toList
      <+: cycles (front ++ back.map Prod.fst) := by
  have hhead : (planned [.extract] (back.map Prod.fst)).head?
      = (nextExtraction back).map Prod.fst := by
    unfold planned nextExtraction
    rw [List.head?_filter, List.find?_map]
    simp
  rw [cycles_append, List.prefix_append_right_inj]
  cases hnext : nextExtraction back with
  | none => exact List.nil_prefix
  | some item =>
    rw [hnext] at hhead
    obtain ⟨after, hafter⟩ := List.head?_eq_some_iff.mp hhead
    unfold cycles
    rw [hafter]
    exact ⟨(false, item.1) :: after.flatMap (fun plan => [(true, plan), (false, plan)]), rfl⟩

@[simp] theorem State.after_after (s : State X O) (calls calls' : List (Call X O)) :
    (s.after calls).after calls' = s.after (calls ++ calls') := by
  simp [State.after]

theorem State.after_nil (s : State X O) : s.after [] = s := by simp [State.after]

theorem wp_lift {answer : Except E A} {Q : A → State X O → Prop}
    (hok : ∀ a, answer = .ok a → Q a s) (herror : ∀ e, Err (.raised e) s) :
    wp (lift answer) Q Err (fun _ => True) s := by
  cases answer with
  | error e => exact herror e
  | ok a => exact hok a rfl

/-- The call is noted, whatever comes of it. -/
theorem wp_call {event : Call X O} {answer : Except E A} {Q : A → State X O → Prop}
    (hok : ∀ a, answer = .ok a → Q a (s.after [event]))
    (herror : ∀ e, Err (.raised e) (s.after [event])) :
    wp (call event answer) Q Err (fun _ => True) s :=
  ⟨trivial, wp_lift hok herror⟩

theorem wp_uploadRegionBatches {stems : List String} {upload : List O → String → Except E Unit}
    {repair : Bool}
    (hok : ∀ calls, Quiet calls → reconciledOf calls = [] →
      Published c repair stems (uploadsOf calls) → Q () (s.after calls))
    (herror : ∀ calls e, Quiet calls → Err (.raised e) (s.after calls)) :
    wp (uploadRegionBatches c stems upload repair) Q Err (fun _ => True) s := by
  refine wp_imp (fun _ s' h => ?_) (wp_forM (fun done s' => ∃ calls, s' = s.after calls
    ∧ Quiet calls ∧ reconciledOf calls = []
    ∧ List.Forall₂ (Uploads c repair) done (uploadsOf calls)) ?_ ?_)
  · obtain ⟨calls, rfl, hquiet, hreconciled, huploads⟩ := h
    exact hok calls hquiet hreconciled ⟨_, flatten_chunks stems (by decide), huploads⟩
  · rintro done batch rest s' - ⟨calls, rfl, hquiet, hreconciled, huploads⟩
    rw [wp_bind]
    refine wp_lift (fun operations hoperations => ?_) (fun e => herror calls e hquiet)
    -- the upload of this batch
    have hquiet' : ∀ operations message, Quiet (calls ++ [.upload operations message]) :=
      fun _ _ => hquiet.append ⟨rfl, rfl⟩
    refine wp_call (fun _ _ => ?_) (fun e => ?_)
    · rw [State.after_after]
      refine ⟨_, rfl, hquiet' _ _, by rw [reconciledOf_append, hreconciled]; rfl, ?_⟩
      rw [uploadsOf_append]
      exact List.rel_append huploads (.cons ⟨operations, hoperations, rfl⟩ .nil)
    · rw [State.after_after]
      exact herror _ e (hquiet' _ _)
  · exact ⟨[], s.after_nil.symm, ⟨rfl, rfl⟩, rfl, .nil⟩

/-- The run has been through `done`: the slot holds the next extraction of `rest`. -/
structure Inv (c : Collaborators X O E) (done rest : List (RegionPlan × Nat)) (s : State X O) :
    Prop where
  future : s.future = (nextExtraction rest).map Prod.fst
  index : s.index = (nextExtraction rest).map Prod.snd
  extractions : extractionsOf s.calls = cycles (done.map Prod.fst)
    ++ ((nextExtraction rest).map (fun item => (true, item.1))).toList
  merges : (mergesOf s.calls).map Prod.fst = planned [.extract] (done.map Prod.fst)
  results : ∀ merge ∈ mergesOf s.calls, c.extractV2Pbf merge.1 = .ok merge.2
  repairs : ∃ stems, Published c true stems (uploadsOf s.calls)
    ∧ stems ++ s.pending = (planned [.publish] (done.map Prod.fst)).map RegionPlan.stem
  extracted : s.extracted = (planned [.extract, .reconcile] (done.map Prod.fst)).map RegionPlan.stem
  provisional : s.provisional = ((done.map Prod.fst).filter (isProvisional c)).map RegionPlan.stem
  reconciled : reconciledOf s.calls = []

variable {done rest : List (RegionPlan × Nat)} {item : RegionPlan × Nat}

theorem Inv.kept (h : Inv c done rest s) : Kept c ((done ++ rest).map Prod.fst) s.calls := by
  rw [List.map_append]
  refine ⟨h.extractions ▸ cycles_next_prefix _ _, ?_, h.results⟩
  rw [h.merges, planned_append]
  exact List.prefix_append _ _

theorem wp_flushPendingPublishes (h : Inv c done rest s)
    (hplans : plans = (done ++ rest).map Prod.fst) :
    wp (flushPendingPublishes c) (fun _ s' => Inv c done rest s' ∧ s'.pending = [])
      (Raised c plans) (fun _ => True) s := by
  have hkept := hplans ▸ h.kept
  unfold flushPendingPublishes
  rw [wp_bind, wp_get]
  cases hpending : s.pending with
  | nil => exact ⟨h, hpending⟩
  | cons stem pending =>
    cases c.upload with
    | none => exact ⟨by simp, hkept⟩
    | some upload =>
      show wp (uploadRegionBatches c (stem :: pending) upload true >>= _) _ _ _ _
      rw [wp_bind, ← hpending]
      refine wp_uploadRegionBatches (fun calls hquiet hreconciled hpublished => ?_)
        (fun calls e hquiet => ⟨by simp, hkept.after hquiet⟩)
      obtain ⟨stems, hrepaired, hstems⟩ := h.repairs
      refine ⟨trivial, ⟨h.future, h.index, ?_, ?_, ?_, ⟨stems ++ s.pending, ?_, ?_⟩, h.extracted,
        h.provisional, ?_⟩, rfl⟩
      · simpa [State.after, hquiet.extractions] using h.extractions
      · simpa [State.after, hquiet.merges] using h.merges
      · simpa [State.after, hquiet.merges] using h.results
      · simpa [State.after] using hrepaired.append hpublished
      · simpa using hstems
      · simpa [State.after, hreconciled] using h.reconciled

/-- The state with the next extraction in the slot. -/
def State.scheduled (s : State X O) (next : Option (RegionPlan × Nat)) : State X O :=
  { s with
    future := next.map Prod.fst
    index := next.map Prod.snd
    calls := s.calls ++ (next.map (fun item => Call.submit item.1)).toList }

theorem wp_scheduleNext {start : Nat} (hfuture : s.future = none) (hindex : s.index = none)
    (hQ : Q () (s.scheduled (nextExtraction (plans.zipIdx.drop start)))) :
    wp (scheduleNext plans start) Q Err (fun _ => True) s := by
  unfold scheduleNext
  rw [wp_bind, wp_get]
  cases hnext : nextExtraction (plans.zipIdx.drop start) with
  | none =>
    have hsame : s.scheduled none = s := by
      cases s
      simp_all [State.scheduled]
    rw [hnext, hsame] at hQ
    simpa [hfuture] using hQ
  | some next =>
    rw [hnext] at hQ
    simp only [hfuture]
    exact ⟨trivial, trivial, hQ⟩

theorem drop_zipIdx (h : plans.zipIdx = done ++ item :: rest) :
    plans.zipIdx.drop (item.2 + 1) = rest := by
  have hitem : plans.zipIdx[done.length]? = some item := by rw [h]; simp
  rw [List.getElem?_zipIdx] at hitem
  obtain ⟨plan, -, hplan⟩ := Option.map_eq_some_iff.mp hitem
  have hposition : item.2 = done.length := by simpa using (congrArg Prod.snd hplan).symm
  rw [hposition, h]
  simp

theorem Inv.start (plans : List RegionPlan) :
    Inv c [] plans.zipIdx (State.start.scheduled (nextExtraction plans.zipIdx)) := by
  cases hnext : nextExtraction plans.zipIdx
  all_goals
    exact ⟨by simp [State.scheduled, hnext], by simp [State.scheduled, hnext],
      by rw [hnext]; rfl, rfl, fun _ h => absurd h List.not_mem_nil,
      ⟨[], ⟨[], rfl, .nil⟩, rfl⟩, rfl, rfl, rfl⟩

/-! ## The regions -/

/-- A region that is not extracted. -/
theorem Inv.pass {pending provisional extracted : List String} (h : Inv c done (item :: rest) s)
    (haction : item.1.action ≠ .extract)
    (hpending : pending = s.pending ++ (planned [.publish] [item.1]).map RegionPlan.stem)
    (hextracted : extracted
      = s.extracted ++ (planned [.extract, .reconcile] [item.1]).map RegionPlan.stem)
    (hprovisional : provisional
      = s.provisional ++ ([item.1].filter (isProvisional c)).map RegionPlan.stem) :
    Inv c (done ++ [item]) rest
      { s with pending := pending, extracted := extracted, provisional := provisional } := by
  have hnext : nextExtraction (item :: rest) = nextExtraction rest := by
    simp [nextExtraction, haction]
  have hnone : planned [.extract] [item.1] = [] := by simp [planned, haction]
  obtain ⟨hf, hi, he, hm, hr, ⟨stems, hpublished, hp⟩, hx, hv, hc⟩ := h
  rw [hnext] at hf hi he
  refine ⟨hf, hi, ?_, ?_, hr, ⟨stems, hpublished, ?_⟩, ?_, ?_, hc⟩
  · simp [he, cycles, planned_append, hnone]
  · simp [hm, planned_append, hnone]
  · simp [hpending, ← List.append_assoc, hp, planned_append]
  · simp [hextracted, hx, planned_append]
  · simp [hprovisional, hv]

/-- The extraction of a region is taken out of the slot. -/
theorem Inv.taken (h : Inv c done (item :: rest) s) (haction : item.1.action = .extract) :
    s.future = some item.1 ∧ s.index = some item.2
      ∧ extractionsOf s.calls ++ [(false, item.1)] = cycles ((done ++ [item]).map Prod.fst) := by
  have hone : planned [.extract] [item.1] = [item.1] := by simp [planned, haction]
  have hnext : nextExtraction (item :: rest) = some item := by simp [nextExtraction, haction]
  refine ⟨?_, ?_, ?_⟩
  · rw [h.future, hnext, Option.map_some]
  · rw [h.index, hnext, Option.map_some]
  · simp [h.extractions, hnext, cycles, planned_append, hone]

/-- The calls for a region that is extracted: its result, the submission of the next one, and its
merge. -/
def extractionCalls (plan : RegionPlan) (extracted : X) (next : Option (RegionPlan × Nat)) :
    List (Call X O) :=
  [.result plan] ++ (next.map (fun item => Call.submit item.1)).toList ++ [.merge plan extracted]

theorem of_extractionCalls (plan : RegionPlan) (extracted : X)
    (next : Option (RegionPlan × Nat)) :
    extractionsOf (extractionCalls plan extracted next : List (Call X O))
        = [(false, plan)] ++ (next.map (fun item => (true, item.1))).toList
      ∧ mergesOf (extractionCalls plan extracted next : List (Call X O)) = [(plan, extracted)]
      ∧ uploadsOf (extractionCalls plan extracted next : List (Call X O)) = []
      ∧ reconciledOf (extractionCalls plan extracted next : List (Call X O)) = [] := by
  cases next <;> exact ⟨rfl, rfl, rfl, rfl⟩

/-- A region that is extracted. -/
theorem Inv.extract {extracted : X} (h : Inv c done (item :: rest) s)
    (haction : item.1.action = .extract) (hextract : c.extractV2Pbf item.1 = .ok extracted)
    (provisional : List String) (hprovisional : provisional
      = s.provisional ++ ([item.1].filter (isProvisional c)).map RegionPlan.stem) :
    Inv c (done ++ [item]) rest
      { s with
        future := (nextExtraction rest).map Prod.fst
        index := (nextExtraction rest).map Prod.snd
        calls := s.calls ++ extractionCalls item.1 extracted (nextExtraction rest)
        extracted := s.extracted ++ [item.1.stem]
        provisional := provisional } := by
  have hone : planned [.extract] [item.1] = [item.1] := by simp [planned, haction]
  obtain ⟨hext, hmerge, huploads, hreconciled⟩ := of_extractionCalls (O := O) item.1 extracted
    (nextExtraction rest)
  refine ⟨rfl, rfl, ?_, ?_, ?_, ?_, ?_, ?_, ?_⟩
  · rw [extractionsOf_append, hext, ← List.append_assoc, (h.taken haction).2.2]
  · rw [mergesOf_append, hmerge, List.map_append, h.merges]
    simp [planned_append, hone]
  · rw [mergesOf_append, hmerge]
    intro merge hin
    rcases List.mem_append.mp hin with hin | hin
    · exact h.results merge hin
    · rw [List.mem_singleton.mp hin]
      exact hextract
  · obtain ⟨stems, hpublished, hstems⟩ := h.repairs
    have hnone : planned [.publish] [item.1] = [] := by simp [planned, haction]
    refine ⟨stems, ?_, ?_⟩
    · rwa [uploadsOf_append, huploads, List.append_nil]
    · simp [hstems, planned_append, hnone]
  · have hkeep : planned [.extract, .reconcile] [item.1] = [item.1] := by simp [planned, haction]
    simp [h.extracted, planned_append, hkeep]
  · simp [hprovisional, h.provisional]
  · rw [reconciledOf_append, hreconciled, h.reconciled]
    rfl

theorem wp_processExtraction (h : Inv c done (item :: rest) s)
    (hplans : plans.zipIdx = done ++ item :: rest) (haction : item.1.action = .extract) :
    wp (processExtraction c plans item.1 item.2) (fun _ s' => Inv c (done ++ [item]) rest s')
      (Raised c plans) (fun _ => True) s := by
  have hfst : plans = (done ++ item :: rest).map Prod.fst := by rw [← hplans]; simp
  have hfst' : plans = ((done ++ [item]) ++ rest).map Prod.fst := by simp [hfst]
  unfold processExtraction
  rw [wp_bind]
  refine wp_imp (fun _ s₁ h₁ => ?_) (wp_flushPendingPublishes h hfst)
  obtain ⟨hfuture, hindex, htaken⟩ := h₁.1.taken haction
  -- up to the merge the run is kept
  have hresult : Kept c plans (s₁.calls ++ [.result item.1]) := by
    refine ⟨?_, ?_, ?_⟩
    · have hall : cycles plans
          = cycles ((done ++ [item]).map Prod.fst) ++ cycles (rest.map Prod.fst) := by
        rw [hfst', ← cycles_append, List.map_append]
      rw [extractionsOf_append, hall]
      exact htaken ▸ List.prefix_append _ _
    · simpa [mergesOf] using (hfst ▸ h₁.1.kept).merges
    · simpa [mergesOf] using h₁.1.results
  unfold takeExtraction
  rw [wp_bind, wp_bind, wp_get]
  simp only [hfuture, hindex, ne_eq, not_true_eq_false, if_false]
  rw [wp_bind, wp_step]
  refine ⟨trivial, wp_call (fun extracted hextract => ?_) (fun e => ⟨by simp, hresult⟩)⟩
  rw [wp_bind]
  refine wp_scheduleNext rfl rfl ?_
  rw [drop_zipIdx hplans, wp_bind]
  have hinv := h₁.1.extract haction hextract
  have hkept := hfst' ▸ (hinv _ rfl).kept
  have hcalls : ∀ next : Option (RegionPlan × Nat), s₁.calls ++ [Call.result item.1]
        ++ (next.map (fun item => Call.submit item.1)).toList ++ [Call.merge item.1 extracted]
      = s₁.calls ++ extractionCalls item.1 extracted next := by
    simp [extractionCalls]
  refine wp_call (fun _ _ => ?_) (fun e => ⟨by simp, ?_⟩)
  · unfold keepRegion
    rw [wp_bind, wp_step]
    refine ⟨trivial, ?_⟩
    simp only [State.after, State.scheduled, hcalls]
    rw [wp_ite]
    split
    next hwiki => exact ⟨trivial, hinv _ (by simp [isProvisional, haction, hextract, hwiki])⟩
    next hwiki =>
      exact wp_lift (fun _ _ => hinv _ (by simp [isProvisional, haction, hextract, hwiki]))
        (fun e => ⟨by simp, hkept⟩)
  · simp only [State.after, State.scheduled, hcalls]
    exact hkept

/-- One turn of the loop. -/
theorem wp_processPlan (h : Inv c done (item :: rest) s)
    (hplans : plans.zipIdx = done ++ item :: rest) :
    wp (processPlan c plans item) (fun _ s' => Inv c (done ++ [item]) rest s')
      (Raised c plans) (fun _ => True) s := by
  unfold processPlan
  cases haction : item.1.action with
  | extract => exact wp_processExtraction h hplans haction
  | skip =>
    exact h.pass (by simp [haction]) (by simp [planned, haction]) (by simp [planned, haction])
      (by simp [isProvisional, haction])
  | reconcile =>
    exact ⟨trivial, h.pass (by simp [haction]) (by simp [planned, haction])
      (by simp [planned, haction]) (by simp [isProvisional, haction])⟩
  | publish =>
    have hpass : Inv c (done ++ [item]) rest { s with pending := s.pending ++ [item.1.stem] } :=
      h.pass (by simp [haction]) (by simp [planned, haction]) (by simp [planned, haction])
        (by simp [isProvisional, haction])
    have hfst : plans = ((done ++ [item]) ++ rest).map Prod.fst := by
      rw [List.append_assoc, List.singleton_append, ← hplans]
      simp
    refine ⟨trivial, ?_⟩
    show wp (if _ then _ else _) _ _ _ _
    rw [wp_ite]
    split
    · exact wp_imp (fun _ _ h => h.1) (wp_flushPendingPublishes hpass hfst)
    · exact hpass

/-! ## The end of a run -/

theorem Inv.finished {reconciliations publications : List (Call X O)}
    (h : Inv c plans.zipIdx [] s) (hpending : s.pending = [])
    (hreconciled : reconciledOf reconciliations = s.provisional)
    (hquiet : uploadsOf reconciliations = []) (hafter : reconciledOf publications = [])
    (hpublished : if c.push then Published c false s.extracted (uploadsOf publications)
      else uploadsOf publications = [])
    (hextractions : extractionsOf (reconciliations ++ publications) = [])
    (hmerges : mergesOf (reconciliations ++ publications) = []) :
    Finished c plans (s.calls ++ reconciliations ++ publications) := by
  have hfst : (plans.zipIdx).map Prod.fst = plans := by simp
  obtain ⟨-, -, he, hm, -, ⟨stems, hstems, hp⟩, hx, hv, hc⟩ := h
  rw [hfst] at he hm hp hx hv
  rw [hpending, List.append_nil] at hp
  refine ⟨?_, ?_, s.calls ++ reconciliations, publications, rfl, ?_, ?_, hafter, ?_⟩
  · rw [List.append_assoc, extractionsOf_append, hextractions, he]
    simp [nextExtraction]
  · rw [List.append_assoc, mergesOf_append, hmerges, List.append_nil, hm]
  · rw [reconciledOf_append, hc, hreconciled, hv, List.nil_append]
  · rw [uploadsOf_append, hquiet, List.append_nil, ← hp]
    exact hstems
  · rw [← hx]
    exact hpublished

theorem wp_reconcileProvisionalRegions (hok : ∀ calls, Quiet calls → uploadsOf calls = [] →
      reconciledOf calls = s.provisional → Q () (s.after calls))
    (herror : ∀ calls e, Quiet calls → Err (.raised e) (s.after calls)) :
    wp (reconcileProvisionalRegions c) Q Err (fun _ => True) s := by
  unfold reconcileProvisionalRegions
  rw [wp_bind, wp_get]
  refine wp_imp (fun _ s' h => ?_) (wp_forM (fun stems s' => ∃ calls, s' = s.after calls
    ∧ Quiet calls ∧ uploadsOf calls = [] ∧ reconciledOf calls = stems) ?_ ?_)
  · obtain ⟨calls, rfl, hquiet, huploads, hreconciled⟩ := h
    exact hok calls hquiet huploads hreconciled
  · rintro stems stem later s' - ⟨calls, rfl, hquiet, huploads, hreconciled⟩
    have hquiet' : Quiet (calls ++ [.reconcile stem]) := hquiet.append ⟨rfl, rfl⟩
    rw [wp_bind]
    refine wp_call (fun _ _ => ?_) (fun e => ?_)
    · rw [State.after_after]
      refine wp_lift (fun _ _ => ⟨_, rfl, hquiet', ?_, ?_⟩) (fun e => herror _ e hquiet')
      · rw [uploadsOf_append, huploads]
        rfl
      · rw [reconciledOf_append, hreconciled]
        rfl
    · rw [State.after_after]
      exact herror _ e hquiet'
  · exact ⟨[], s.after_nil.symm, ⟨rfl, rfl⟩, rfl, rfl⟩

theorem wp_finalizeRegions (h : Inv c plans.zipIdx [] s) :
    wp (finalizeRegions c) (fun _ s' => Kept c plans s'.calls ∧ Finished c plans s'.calls)
      (Raised c plans) (fun _ => True) s := by
  unfold finalizeRegions
  rw [wp_bind]
  refine wp_imp (fun _ s₁ h₁ => ?_) (wp_flushPendingPublishes h (by simp))
  obtain ⟨h₁, hpending⟩ := h₁
  -- nothing below extracts or merges
  have hkept : Kept c plans s₁.calls := by
    have hkept := h₁.kept
    rwa [List.append_nil, show (plans.zipIdx).map Prod.fst = plans by simp] at hkept
  rw [wp_bind]
  refine wp_lift (fun _ _ => ?_) (fun e => ⟨by simp, hkept⟩)
  rw [wp_bind]
  refine wp_reconcileProvisionalRegions (fun reconciliations hquiet huploads hreconciled => ?_)
    (fun calls e hquiet => ⟨by simp, hkept.after hquiet⟩)
  have hkept₂ := hkept.after hquiet
  unfold publishRegions
  rw [wp_bind, wp_bind, wp_get]
  cases hpush : c.push with
  | false =>
    have hnone : s₁.calls ++ reconciliations = s₁.calls ++ reconciliations ++ [] := by simp
    refine wp_lift (fun _ _ => ⟨hkept₂, ?_⟩) (fun e => ⟨by simp, hkept₂⟩)
    show Finished c plans (s₁.calls ++ reconciliations)
    rw [hnone]
    refine h₁.finished hpending hreconciled huploads rfl ?_ ?_ ?_
    · simp [hpush, uploadsOf]
    · simpa using hquiet.extractions
    · simpa using hquiet.merges
  | true =>
    cases c.upload with
    | none => exact ⟨by simp, hkept₂⟩
    | some upload =>
      refine wp_uploadRegionBatches (fun publications hquiet' hafter hpublished => ?_)
        (fun calls e hquiet' => ⟨by simp, hkept₂.after hquiet'⟩)
      have hkept₃ := hkept₂.after hquiet'
      refine wp_lift (fun _ _ => ⟨hkept₃, ?_⟩) (fun e => ⟨by simp, hkept₃⟩)
      refine h₁.finished hpending hreconciled huploads hafter ?_
        (hquiet.append hquiet').extractions (hquiet.append hquiet').merges
      rw [if_pos hpush]
      exact hpublished

end OsmPolygonWikidata.V2Runner
