import Mathlib.Data.List.TakeWhile
import OsmPolygonWikidata.Basic.Loops

/-! # Workers

`_run_direct_workers` of `v2/reuse_direct.py`. At most `workers` inputs are submitted and not done.
Each call of `wait` reports some of the futures that are pending, in whatever order they were done;
for each of these the next input is submitted. The results are recorded in the order of the inputs:
one that is done before its turn is kept, and the first input in order whose future raises ends the
loop.

So the outcome is that of enriching one input after the other (`outcome_runDirectWorkers`).
-/

namespace OsmPolygonWikidata.Direct

open Python

/-! ## The loop -/

/-- The positions that each call of `wait` reports, of those that are pending. -/
structure Waits where
  done : Nat → List Nat → List Nat
  subset : ∀ call positions, done call positions ⊆ positions
  ne_nil : ∀ call positions, positions ≠ [] → done call positions ≠ []

/-- Inputs with their positions: not submitted, submitted, and done but not recorded. `raised` is
the exception that ended the loop. -/
structure Pool (A E R : Type) where
  inputs : List (A × Nat)
  pending : List (A × Nat)
  completed : List (A × Nat)
  nextToRecord : Nat
  recorded : List (A × R)
  raised : Option E

section

variable {A E R : Type} (f : A → Except E R)

/-- `submit_next`. -/
def Pool.submitNext (s : Pool A E R) : Pool A E R :=
  match s.inputs with
  | [] => s
  | p :: inputs => { s with inputs := inputs, pending := s.pending ++ [p] }

/-- The futures that are submitted in front of the loop. -/
def Pool.start : Nat → Pool A E R → Pool A E R
  | 0, s => s
  | workers + 1, s => Pool.start workers s.submitNext

/-- The step for one future that is done. -/
def Pool.complete (s : Pool A E R) (position : Nat) : Pool A E R :=
  match s.pending.find? (fun p => p.2 = position) with
  | none => s
  | some p =>
    Pool.submitNext { s with
      pending := s.pending.eraseP (fun p => p.2 = position)
      completed := s.completed ++ [p] }

/-- The loop that records, for at most `fuel` results. -/
def Pool.record : Nat → Pool A E R → Pool A E R
  | 0, s => s
  | fuel + 1, s =>
    match s.completed.find? (fun p => p.2 = s.nextToRecord) with
    | none => s
    | some p =>
      match f p.1 with
      | .error e => { s with raised := some e }
      | .ok result => Pool.record fuel { s with
          completed := s.completed.eraseP (fun p => p.2 = s.nextToRecord)
          nextToRecord := s.nextToRecord + 1
          recorded := s.recorded ++ [(p.1, result)] }

/-- One turn of the loop, when `wait` has reported `done`. -/
def Pool.turn (done : List Nat) (s : Pool A E R) : Pool A E R :=
  let s := done.foldl Pool.complete s
  s.record f s.completed.length

/-- The loop, from call `call` of `wait` on. -/
def Pool.run (waits : Waits) : Nat → Nat → Pool A E R → Pool A E R
  | 0, _, s => s
  | fuel + 1, call, s =>
    if s.pending.isEmpty || s.raised.isSome then s
    else Pool.run waits fuel (call + 1) (s.turn f (waits.done call (s.pending.map Prod.snd)))

/-- Nothing is submitted yet. -/
def Pool.ofInputs (inputs : List A) : Pool A E R := ⟨inputs.zipIdx, [], [], 0, [], none⟩

def runDirectWorkers (workers : Nat) (waits : Waits) (inputs : List A) : Pool A E R :=
  Pool.run f waits inputs.length 0 (Pool.start workers (.ofInputs inputs))

/-- What the loop ends with. -/
def Pool.outcome (s : Pool A E R) : Except E (List (A × R)) :=
  match s.raised with
  | some e => .error e
  | none => .ok s.recorded

end

/-! ## The invariant -/

section

variable {A E R : Type} {f : A → Except E R} {xs : List A} {workers : Nat} {s : Pool A E R}

/-- What was not recorded yet is somewhere, and what was recorded are the first inputs. -/
structure Pool.Ordered (f : A → Except E R) (xs : List A) (workers : Nat) (s : Pool A E R) :
    Prop where
  rest : (s.completed ++ (s.pending ++ s.inputs)).Perm (xs.zipIdx.drop s.nextToRecord)
  first : List.Forall₂ (fun x p => p.1 = x ∧ f x = .ok p.2) (xs.take s.nextToRecord) s.recorded
  busy : s.pending.length ≤ workers
  full : s.inputs ≠ [] → s.pending.length = workers
  raised : ∀ e, s.raised = some e → ∃ x, xs[s.nextToRecord]? = some x ∧ f x = .error e

theorem perm_eraseP {q : A → Bool} {ys : List A} {y : A} (h : ys.find? q = some y) :
    (y :: ys.eraseP q).Perm ys := by
  induction ys with
  | nil => cases h
  | cons z zs ih =>
    rw [List.find?_cons] at h
    by_cases hz : q z = true
    · rw [hz] at h
      rw [List.eraseP_cons_of_pos hz, ← Option.some.inj h]
    · rw [Bool.not_eq_true] at hz
      rw [hz] at h
      rw [List.eraseP_cons_of_neg (by simp [hz])]
      exact (List.Perm.swap z y _).trans ((ih h).cons z)

theorem length_eraseP_add_one {q : A → Bool} {ys : List A} {y : A} (h : ys.find? q = some y) :
    (ys.eraseP q).length + 1 = ys.length := by
  rw [← (perm_eraseP h).length_eq, List.length_cons]

theorem Pool.Ordered.submitNext (h : s.Ordered f xs workers) :
    s.submitNext.Ordered f xs (workers + 1) := by
  unfold Pool.submitNext
  split
  · rename_i hinputs
    refine ⟨h.rest, h.first, ?_, fun hne => absurd hinputs hne, h.raised⟩
    exact Nat.le_succ_of_le h.busy
  · rename_i p inputs hinputs
    have hlength : s.pending.length = workers := h.full (by simp [hinputs])
    refine ⟨?_, h.first, by simp [hlength], fun _ => by simp [hlength], h.raised⟩
    have hrest := h.rest
    rw [hinputs] at hrest
    simpa using hrest

theorem completed_start (n : Nat) (s : Pool A E R) : (Pool.start n s).completed = s.completed := by
  induction n generalizing s with
  | zero => rfl
  | succ n ih =>
    rw [Pool.start, ih]
    unfold Pool.submitNext
    split <;> rfl

theorem Pool.Ordered.start (n : Nat) (h : s.Ordered f xs workers) :
    (Pool.start n s).Ordered f xs (workers + n) := by
  induction n generalizing s workers with
  | zero => exact h
  | succ n ih =>
    have hnext := ih h.submitNext
    rwa [Nat.add_right_comm] at hnext

theorem ordered_ofInputs (f : A → Except E R) (xs : List A) :
    (Pool.ofInputs xs : Pool A E R).Ordered f xs 0 where
  rest := by simp [Pool.ofInputs]
  first := .nil
  busy := le_refl 0
  full := fun _ => rfl
  raised := fun _ he => by cases he

theorem Pool.Ordered.complete (h : s.Ordered f xs workers) (position : Nat) :
    (s.complete position).Ordered f xs workers := by
  unfold Pool.complete
  split
  · exact h
  · rename_i p hp
    have hlength := length_eraseP_add_one hp
    have hperm := perm_eraseP hp
    obtain ⟨room, rfl⟩ : ∃ room, workers = room + 1 := ⟨workers - 1, by have := h.busy; omega⟩
    refine Pool.Ordered.submitNext ⟨?_, h.first, ?_, fun hinputs => ?_, h.raised⟩
    · refine List.Perm.trans ?_ h.rest
      show (s.completed ++ [p] ++ (s.pending.eraseP _ ++ s.inputs)).Perm _
      rw [List.append_assoc]
      exact (hperm.append_right s.inputs).append_left s.completed
    · have hbusy := h.busy
      show (s.pending.eraseP _).length ≤ room
      omega
    · have hfull := h.full hinputs
      show (s.pending.eraseP _).length = room
      omega

theorem Pool.Ordered.foldl_complete (done : List Nat) (h : s.Ordered f xs workers) :
    (done.foldl Pool.complete s).Ordered f xs workers := by
  induction done generalizing s with
  | nil => exact h
  | cons position done ih => exact ih (h.complete position)

theorem raised_foldl_complete (done : List Nat) (s : Pool A E R) :
    (done.foldl Pool.complete s).raised = s.raised := by
  induction done generalizing s with
  | nil => rfl
  | cons position done ih =>
    rw [List.foldl_cons, ih]
    unfold Pool.complete Pool.submitNext
    split
    · rfl
    · split <;> rfl

theorem Pool.Ordered.input_of_completed (h : s.Ordered f xs workers) {p : A × Nat}
    (hp : p ∈ s.completed) : xs[p.2]? = some p.1 := by
  have hmem : p ∈ xs.zipIdx.drop s.nextToRecord :=
    h.rest.mem_iff.mp (List.mem_append_left _ hp)
  exact List.mem_zipIdx_iff_getElem?.mp (List.mem_of_mem_drop hmem)

theorem Pool.Ordered.recordNext (h : s.Ordered f xs workers) (hraised : s.raised = none)
    {p : A × Nat} (hp : s.completed.find? (fun p => p.2 = s.nextToRecord) = some p) {result : R}
    (hresult : f p.1 = .ok result) :
    Pool.Ordered f xs workers { s with
      completed := s.completed.eraseP (fun p => p.2 = s.nextToRecord)
      nextToRecord := s.nextToRecord + 1
      recorded := s.recorded ++ [(p.1, result)] } := by
  have hposition : p.2 = s.nextToRecord := by simpa using List.find?_some hp
  have hget : xs[s.nextToRecord]? = some p.1 := by
    rw [← hposition]
    exact h.input_of_completed (List.mem_of_find?_eq_some hp)
  obtain ⟨hlt, hp1⟩ := List.getElem?_eq_some_iff.mp hget
  refine ⟨?_, ?_, h.busy, h.full, fun e he => ?_⟩
  · -- both sides begin with this input
    have hdrop : xs.zipIdx.drop s.nextToRecord = p :: xs.zipIdx.drop (s.nextToRecord + 1) := by
      rw [List.drop_eq_getElem_cons (by simpa using hlt), List.getElem_zipIdx, hp1, Nat.zero_add,
        ← hposition]
    have hrest := h.rest
    rw [hdrop] at hrest
    refine List.Perm.cons_inv (List.Perm.trans ?_ hrest)
    exact (perm_eraseP hp).append_right _
  · show List.Forall₂ _ (xs.take (s.nextToRecord + 1)) _
    rw [List.take_add_one, hget]
    exact List.rel_append h.first (.cons ⟨rfl, hresult⟩ .nil)
  · rw [hraised] at he
    cases he

theorem Pool.Ordered.raise (h : s.Ordered f xs workers) {p : A × Nat}
    (hp : s.completed.find? (fun p => p.2 = s.nextToRecord) = some p) {e : E}
    (hresult : f p.1 = .error e) : Pool.Ordered f xs workers { s with raised := some e } := by
  have hposition : p.2 = s.nextToRecord := by simpa using List.find?_some hp
  refine ⟨h.rest, h.first, h.busy, h.full, fun e' he' => ?_⟩
  cases he'
  refine ⟨p.1, ?_, hresult⟩
  rw [← hposition]
  exact h.input_of_completed (List.mem_of_find?_eq_some hp)

theorem Pool.Ordered.record (fuel : Nat) (h : s.Ordered f xs workers) (hraised : s.raised = none)
    (hfuel : s.completed.length ≤ fuel) :
    (s.record f fuel).Ordered f xs workers
      ∧ (s.record f fuel).pending = s.pending ∧ (s.record f fuel).inputs = s.inputs
      ∧ ((s.record f fuel).raised = none →
        ∀ p ∈ (s.record f fuel).completed, p.2 ≠ (s.record f fuel).nextToRecord) := by
  induction fuel generalizing s with
  | zero =>
    refine ⟨h, rfl, rfl, fun _ p hp => ?_⟩
    have hnil : s.completed = [] := List.length_eq_zero_iff.mp (by omega)
    rw [Pool.record, hnil] at hp
    cases hp
  | succ fuel ih =>
    rw [Pool.record]
    cases hfind : s.completed.find? (fun p => p.2 = s.nextToRecord) with
    | none =>
      refine ⟨h, rfl, rfl, fun _ p hp => ?_⟩
      simpa using List.find?_eq_none.mp hfind p hp
    | some p =>
      dsimp only
      cases hresult : f p.1 with
      | error e =>
        refine ⟨h.raise hfind hresult, rfl, rfl, ?_⟩
        intro hnone
        cases hnone
      | ok result =>
        have hlength := length_eraseP_add_one hfind
        exact ih (h.recordNext hraised hfind hresult) hraised (by
          show (s.completed.eraseP _).length ≤ fuel
          omega)

/-! ## The loop ends -/

/-- The inputs that are not done. -/
def Pool.unfinished (s : Pool A E R) : Nat := s.pending.length + s.inputs.length

theorem unfinished_submitNext (s : Pool A E R) : s.submitNext.unfinished = s.unfinished := by
  unfold Pool.submitNext Pool.unfinished
  split
  · rfl
  · rename_i p inputs hinputs
    simp only [hinputs, List.length_append, List.length_cons, List.length_nil]
    omega

theorem unfinished_start (n : Nat) (s : Pool A E R) :
    (Pool.start n s).unfinished = s.unfinished := by
  induction n generalizing s with
  | zero => rfl
  | succ n ih => rw [Pool.start, ih, unfinished_submitNext]

theorem unfinished_complete_le (s : Pool A E R) (position : Nat) :
    (s.complete position).unfinished ≤ s.unfinished
      ∧ (position ∈ s.pending.map Prod.snd → (s.complete position).unfinished < s.unfinished) := by
  unfold Pool.complete
  split
  · rename_i hnone
    refine ⟨le_refl _, fun hmem => ?_⟩
    obtain ⟨p, hp, rfl⟩ := List.mem_map.mp hmem
    simpa using List.find?_eq_none.mp hnone p hp
  · rename_i p hp
    have hlength := length_eraseP_add_one hp
    have hlt : (s.pending.eraseP (fun p => p.2 = position)).length + s.inputs.length
        < s.pending.length + s.inputs.length := by omega
    rw [unfinished_submitNext]
    exact ⟨le_of_lt hlt, fun _ => hlt⟩

theorem unfinished_foldl_complete_le (done : List Nat) (s : Pool A E R) :
    (done.foldl Pool.complete s).unfinished ≤ s.unfinished := by
  induction done generalizing s with
  | nil => exact le_refl _
  | cons position done ih => exact (ih _).trans (unfinished_complete_le s position).1

theorem Pool.Ordered.turn (waits : Waits) (call : Nat) (h : s.Ordered f xs workers)
    (hraised : s.raised = none) (hpending : s.pending ≠ []) :
    let s' := s.turn f (waits.done call (s.pending.map Prod.snd))
    s'.Ordered f xs workers ∧ s'.unfinished < s.unfinished
      ∧ (s'.raised = none → ∀ p ∈ s'.completed, p.2 ≠ s'.nextToRecord) := by
  have hsubset := waits.subset call (s.pending.map Prod.snd)
  have hne := waits.ne_nil call (s.pending.map Prod.snd) (by simpa using hpending)
  generalize waits.done call (s.pending.map Prod.snd) = done at hsubset hne
  obtain ⟨hordered, hpend, hinputs, hsettled⟩ := (h.foldl_complete done).record _
    ((raised_foldl_complete done s).trans hraised) (le_refl _)
  refine ⟨hordered, ?_, hsettled⟩
  have hunfinished : (s.turn f done).unfinished = (done.foldl Pool.complete s).unfinished := by
    unfold Pool.unfinished
    exact congrArg₂ (· + ·) (congrArg List.length hpend) (congrArg List.length hinputs)
  rw [hunfinished]
  cases done with
  | nil => exact absurd rfl hne
  | cons position done =>
    have hmem : position ∈ s.pending.map Prod.snd := hsubset List.mem_cons_self
    calc ((position :: done).foldl Pool.complete s).unfinished
        ≤ (s.complete position).unfinished := unfinished_foldl_complete_le done _
      _ < s.unfinished := (unfinished_complete_le s position).2 hmem

theorem Pool.Ordered.run (waits : Waits) (fuel call : Nat) (h : s.Ordered f xs workers)
    (hfuel : s.unfinished ≤ fuel)
    (hsettled : s.raised = none → ∀ p ∈ s.completed, p.2 ≠ s.nextToRecord) :
    let s' := s.run f waits fuel call
    s'.Ordered f xs workers ∧ (s'.raised = none →
      s'.pending = [] ∧ ∀ p ∈ s'.completed, p.2 ≠ s'.nextToRecord) := by
  induction fuel generalizing s call with
  | zero =>
    refine ⟨h, fun hraised => ⟨?_, hsettled hraised⟩⟩
    unfold Pool.unfinished at hfuel
    show s.pending = []
    exact List.length_eq_zero_iff.mp (by omega)
  | succ fuel ih =>
    rw [Pool.run]
    by_cases hend : (s.pending.isEmpty || s.raised.isSome) = true
    · rw [if_pos hend]
      refine ⟨h, fun hraised => ⟨?_, hsettled hraised⟩⟩
      simpa [hraised] using hend
    · rw [if_neg hend]
      simp only [Bool.or_eq_true, not_or, List.isEmpty_iff, Bool.not_eq_true,
        Option.isSome_eq_false_iff, Option.isNone_iff_eq_none] at hend
      obtain ⟨hturn, hlt, hturned⟩ := h.turn waits call hend.2 hend.1
      exact ih (call + 1) hturn (by omega) hturned

theorem Pool.Ordered.inputs_eq_nil (h : s.Ordered f xs workers) (hworkers : 0 < workers)
    (hpending : s.pending = []) : s.inputs = [] := by
  by_contra hne
  have hfull := h.full hne
  rw [hpending] at hfull
  exact absurd hfull (Nat.ne_of_lt hworkers)

theorem ordered_runDirectWorkers (f : A → Except E R) (workers : Nat) (waits : Waits)
    (xs : List A) :
    (runDirectWorkers f workers waits xs).Ordered f xs workers
      ∧ ((runDirectWorkers f workers waits xs).raised = none →
        (runDirectWorkers f workers waits xs).pending = []
        ∧ ∀ p ∈ (runDirectWorkers f workers waits xs).completed,
          p.2 ≠ (runDirectWorkers f workers waits xs).nextToRecord) := by
  have hstart : (Pool.start workers (Pool.ofInputs xs : Pool A E R)).Ordered f xs workers := by
    have h := (ordered_ofInputs f xs).start workers
    rwa [Nat.zero_add] at h
  have hfuel : (Pool.start workers (Pool.ofInputs xs : Pool A E R)).unfinished ≤ xs.length := by
    rw [unfinished_start]
    simp [Pool.unfinished, Pool.ofInputs]
  refine hstart.run waits xs.length 0 hfuel (fun _ p hp => ?_)
  rw [completed_start] at hp
  cases hp

/-- **The workers do what one worker does**, in whatever order the futures are done. -/
theorem outcome_runDirectWorkers (f : A → Except E R) (hworkers : 0 < workers) (waits : Waits)
    (xs : List A) :
    (runDirectWorkers f workers waits xs).outcome
      = xs.mapM (fun x => (f x).map (fun r => (x, r))) := by
  obtain ⟨hordered, hended⟩ := ordered_runDirectWorkers f workers waits xs
  generalize runDirectWorkers f workers waits xs = s at hordered hended
  have hfirst : (xs.take s.nextToRecord).mapM (fun x => (f x).map (fun r => (x, r)))
      = .ok s.recorded := by
    rw [mapM_eq_ok_iff]
    refine hordered.first.imp (fun x p hp => ?_)
    rw [hp.2, ← hp.1]
    rfl
  unfold Pool.outcome
  cases hraised : s.raised with
  | some e =>
    obtain ⟨x, hget, hx⟩ := hordered.raised e hraised
    obtain ⟨hlt, rfl⟩ := List.getElem?_eq_some_iff.mp hget
    have hsplit : xs = xs.take s.nextToRecord ++ xs[s.nextToRecord]
        :: xs.drop (s.nextToRecord + 1) := by
      rw [← List.drop_eq_getElem_cons hlt, List.take_append_drop]
    conv_rhs => rw [hsplit, List.mapM_append, hfirst, List.mapM_cons, hx]
    rfl
  | none =>
    obtain ⟨hpending, hsettled⟩ := hended hraised
    have hinputs := hordered.inputs_eq_nil hworkers hpending
    have hall : xs.length ≤ s.nextToRecord := by
      by_contra hlt
      rw [not_le] at hlt
      have hmem : (xs[s.nextToRecord], s.nextToRecord) ∈ xs.zipIdx.drop s.nextToRecord := by
        rw [List.drop_eq_getElem_cons (by simpa using hlt), List.getElem_zipIdx, Nat.zero_add]
        exact List.mem_cons_self
      have hcompleted := hordered.rest.mem_iff.mpr hmem
      rw [hpending, hinputs, List.append_nil, List.append_nil] at hcompleted
      exact hsettled _ hcompleted rfl
    rw [List.take_of_length_le hall] at hfirst
    exact hfirst.symm

end

/-! ## Every state of the loop -/

section

variable {A E R : Type} {f : A → Except E R} {xs : List A} {workers : Nat} {s s' : Pool A E R}

/-- What the loop does until it raises: a future is done, or one result is recorded. -/
inductive Pool.Step (f : A → Except E R) : Pool A E R → Pool A E R → Prop
  | complete (s : Pool A E R) (position : Nat) (h : s.raised = none) :
      Pool.Step f s (s.complete position)
  | record (s : Pool A E R) (h : s.raised = none) : Pool.Step f s (s.record f 1)

theorem Pool.Ordered.recordOne (h : s.Ordered f xs workers) (hraised : s.raised = none) :
    (s.record f 1).Ordered f xs workers := by
  rw [Pool.record]
  cases hfind : s.completed.find? (fun p => p.2 = s.nextToRecord) with
  | none => exact h
  | some p =>
    dsimp only
    cases hresult : f p.1 with
    | ok result => exact h.recordNext hraised hfind hresult
    | error e => exact h.raise hfind hresult

theorem Pool.Ordered.step (h : s.Ordered f xs workers) (hstep : Pool.Step f s s') :
    s'.Ordered f xs workers := by
  cases hstep with
  | complete position _ => exact h.complete position
  | record hraised => exact h.recordOne hraised

theorem Pool.Ordered.steps (h : s.Ordered f xs workers)
    (hsteps : Relation.ReflTransGen (Pool.Step f) s s') : s'.Ordered f xs workers := by
  induction hsteps with
  | refl => exact h
  | tail _ hstep ih => exact ih.step hstep

theorem steps_record (fuel : Nat) (s : Pool A E R) (hraised : s.raised = none) :
    Relation.ReflTransGen (Pool.Step f) s (s.record f fuel) := by
  induction fuel generalizing s with
  | zero => exact .refl
  | succ fuel ih =>
    have hone := Pool.Step.record (f := f) s hraised
    rw [Pool.record] at hone ⊢
    cases hfind : s.completed.find? (fun p => p.2 = s.nextToRecord) with
    | none => exact .refl
    | some p =>
      rw [hfind] at hone
      dsimp only at hone ⊢
      cases hresult : f p.1 with
      | error e =>
        rw [hresult] at hone
        exact .single hone
      | ok result =>
        rw [hresult] at hone
        exact .head hone (ih _ hraised)

theorem steps_foldl_complete (done : List Nat) (s : Pool A E R) (hraised : s.raised = none) :
    Relation.ReflTransGen (Pool.Step f) s (done.foldl Pool.complete s) := by
  induction done generalizing s with
  | nil => exact .refl
  | cons position done ih =>
    refine .head (.complete s position hraised) (ih _ ?_)
    exact (raised_foldl_complete [position] s).trans hraised

theorem steps_run (waits : Waits) (fuel call : Nat) (s : Pool A E R) :
    Relation.ReflTransGen (Pool.Step f) s (s.run f waits fuel call) := by
  induction fuel generalizing s call with
  | zero => exact .refl
  | succ fuel ih =>
    rw [Pool.run]
    split
    · exact .refl
    · rename_i hgoes
      have hraised : s.raised = none := by
        simp only [Bool.or_eq_true, not_or] at hgoes
        simpa using hgoes.2
      -- the futures that are done, then the results whose turn it is
      refine .trans (.trans (steps_foldl_complete _ s hraised) (steps_record _ _ ?_)) (ih _ _)
      exact (raised_foldl_complete _ s).trans hraised

theorem Pool.Ordered.map_recorded (h : s.Ordered f xs workers) :
    s.recorded.map Prod.fst = xs.take s.nextToRecord ∧ ∀ p ∈ s.recorded, f p.1 = .ok p.2 := by
  constructor
  · rw [← List.forall₂_eq_eq_eq, List.forall₂_map_left_iff]
    exact h.first.flip.imp (fun _ _ hp => hp.1)
  · intro p hp
    obtain ⟨x, -, hx, hok⟩ := forall₂_exists_mem h.first.flip hp
    rw [hx]
    exact hok

theorem errorOf_outcome (s : Pool A E R) : errorOf s.outcome = s.raised := by
  unfold Pool.outcome
  cases s.raised <;> rfl

/-- **Ordered recording.** In every state of the loop no more than `workers` inputs are submitted
and not done, and what was recorded are the first inputs in their order, with their results. The
loop ends: it has recorded the inputs in front of the first one whose future raises, all of them if
none raises. -/
theorem runDirectWorkers_recorded (f : A → Except E R) (hworkers : 0 < workers) (waits : Waits)
    (xs : List A) :
    (∀ n ≤ workers, ∀ s, Relation.ReflTransGen (Pool.Step f) (Pool.start n (.ofInputs xs)) s →
        s.pending.length ≤ workers ∧ s.recorded.map Prod.fst <+: xs
          ∧ ∀ p ∈ s.recorded, f p.1 = .ok p.2)
      ∧ Relation.ReflTransGen (Pool.Step f) (Pool.start workers (.ofInputs xs))
        (runDirectWorkers f workers waits xs)
      ∧ (runDirectWorkers f workers waits xs).recorded.map Prod.fst
        = xs.takeWhile (fun x => (f x).isOk)
      ∧ (runDirectWorkers f workers waits xs).raised = (xs.findSome? (fun x => errorOf (f x)))
      ∧ ((∀ x ∈ xs, (f x).isOk) → (runDirectWorkers f workers waits xs).pending = []
        ∧ (runDirectWorkers f workers waits xs).inputs = []) := by
  obtain ⟨hordered, hended⟩ := ordered_runDirectWorkers f workers waits xs
  have houtcome := outcome_runDirectWorkers f hworkers waits xs
  have hraised := errorOf_outcome (runDirectWorkers f workers waits xs)
  rw [houtcome, errorOf_mapM] at hraised
  simp only [errorOf_map] at hraised
  refine ⟨fun n hn s hs => ?_, steps_run waits _ _ _, ?_, hraised.symm, fun hall => ?_⟩
  · have hn' : s.Ordered f xs n := by
      have hstart := (ordered_ofInputs f xs).start n
      rw [Nat.zero_add] at hstart
      exact hstart.steps hs
    obtain ⟨hrecorded, hok⟩ := hn'.map_recorded
    refine ⟨hn'.busy.trans hn, ?_, hok⟩
    rw [hrecorded]
    exact List.take_prefix _ _
  · generalize runDirectWorkers f workers waits xs = s at hordered hraised houtcome
    rw [hordered.map_recorded.1]
    cases hend : s.raised with
    | some e =>
      obtain ⟨x, hget, hx⟩ := hordered.raised e hend
      obtain ⟨hlt, rfl⟩ := List.getElem?_eq_some_iff.mp hget
      have hsplit : xs = xs.take s.nextToRecord ++ xs[s.nextToRecord]
          :: xs.drop (s.nextToRecord + 1) := by
        rw [← List.drop_eq_getElem_cons hlt, List.take_append_drop]
      have hok : ∀ y ∈ xs.take s.nextToRecord, (f y).isOk = true := by
        intro y hy
        obtain ⟨p, -, -, hp⟩ := forall₂_exists_mem hordered.first hy
        rw [hp]
        rfl
      conv_rhs => rw [hsplit, List.takeWhile_append_of_pos hok]
      rw [List.takeWhile_cons_of_neg (by rw [hx]; exact Bool.false_ne_true), List.append_nil]
    | none =>
      rw [hend, List.findSome?_eq_none_iff] at hraised
      have hok : ∀ x ∈ xs, (f x).isOk = true := fun x hx => errorOf_eq_none_iff.mp (hraised x hx)
      have hall : s.recorded.map Prod.fst = xs := by
        unfold Pool.outcome at houtcome
        rw [hend] at houtcome
        rw [← List.forall₂_eq_eq_eq, List.forall₂_map_left_iff]
        refine (mapM_eq_ok_iff.mp houtcome.symm).flip.imp (fun p x hp => ?_)
        obtain ⟨result, -, rfl⟩ := map_eq_ok.mp hp
        rfl
      rw [List.takeWhile_eq_self_iff.mpr hok, ← hordered.map_recorded.1, hall]
  · have hnone : (runDirectWorkers f workers waits xs).raised = none := by
      rw [← hraised, List.findSome?_eq_none_iff]
      exact fun x hx => errorOf_eq_none_iff.mpr (hall x hx)
    obtain ⟨hpending, -⟩ := hended hnone
    exact ⟨hpending, hordered.inputs_eq_nil hworkers hpending⟩

/-- Three futures, done in the opposite order by two workers, the second one of which raises. -/
theorem runDirectWorkers_recorded_reversed :
    let f : Nat → Except String Nat := fun n => if n = 2 then .error "timed out" else .ok (n * n)
    let waits : Waits := ⟨fun _ positions => positions.reverse, fun _ _ _ h => List.mem_reverse.mp h,
      fun _ _ h => by simpa using h⟩
    (runDirectWorkers f 2 waits [1, 2, 3]).recorded.map Prod.fst = [1] :=
  (runDirectWorkers_recorded _ (by decide) _ _).2.2.1

end

/-! ## Results by key -/

variable {A E R K : Type} [DecidableEq K]

def enrichPendingDirectInputs (directWorkers : Int) (waits : Waits) (enrichOne : A → Except E R)
    (pendingInputs : List A) : Except E (List (A × R)) :=
  if pendingInputs.isEmpty then .ok []
  else if 1 < directWorkers then
    (runDirectWorkers enrichOne (min directWorkers.toNat pendingInputs.length) waits
      pendingInputs).outcome
  else pendingInputs.mapM (fun x => (enrichOne x).map (fun result => (x, result)))

theorem enrichPendingDirectInputs_eq (directWorkers : Int) (waits : Waits)
    (enrichOne : A → Except E R) (pendingInputs : List A) :
    enrichPendingDirectInputs directWorkers waits enrichOne pendingInputs
      = pendingInputs.mapM (fun x => (enrichOne x).map (fun result => (x, result))) := by
  unfold enrichPendingDirectInputs
  by_cases hnil : pendingInputs = []
  · rw [hnil]
    rfl
  · rw [if_neg (by simpa using hnil)]
    split
    · rename_i hworkers
      have hpositive : 0 < pendingInputs.length := List.length_pos_iff.mpr hnil
      exact outcome_runDirectWorkers enrichOne (by omega) waits pendingInputs
    · rfl

/-- The dictionary of results: those that were loaded, then those that were recorded. -/
def resultsByKey (key : A → K) (loaded : A → Option R) (inputs : List A)
    (recorded : List (A × R)) : List (K × R) :=
  inputs.filterMap (fun x => (loaded x).map (fun result => (key x, result)))
    ++ recorded.map (fun p => (key p.1, p.2))

/-- **Loading some results and enriching the other inputs** gives every input its result, and
raises the first exception. -/
theorem results_eq_mapM {key : A → K} {loaded : A → Option R} {enrichOne : A → Except E R}
    {inputs : List A} (hnodup : (inputs.map key).Nodup) :
    ((inputs.filter (fun x => (loaded x).isNone)).mapM
        (fun x => (enrichOne x).map (fun result => (x, result)))
      >>= fun recorded => .ok (inputs.filterMap
        (fun x => (resultsByKey key loaded inputs recorded).lookup (key x))))
      = inputs.mapM (fun x => (loaded x).elim (enrichOne x) .ok) := by
  cases hpending : (inputs.filter (fun x => (loaded x).isNone)).mapM
      (fun x => (enrichOne x).map (fun result => (x, result))) with
  | error e =>
    -- a loaded result raises nothing
    refine (errorOf_eq_some_iff.mp ?_).symm
    rw [← errorOf_eq_some_iff, errorOf_mapM, findSome?_filter_eq] at hpending
    rw [errorOf_mapM, ← hpending]
    refine findSome?_congr_on (fun x _ => ?_)
    cases loaded x with
    | some result => rfl
    | none =>
      show errorOf (enrichOne x) = errorOf ((enrichOne x).map _)
      cases enrichOne x <;> rfl
  | ok recorded =>
    have hinjective : ∀ x ∈ inputs, ∀ y ∈ inputs, key x = key y → x = y :=
      fun x hx y hy h => List.inj_on_of_nodup_map hnodup hx hy h
    have hrecorded : ∀ p ∈ recorded, p.1 ∈ inputs ∧ loaded p.1 = none
        ∧ enrichOne p.1 = .ok p.2 := by
      intro p hp
      obtain ⟨x, hx, hresult⟩ := exists_of_mem_mapM hpending hp
      obtain ⟨result, hok, rfl⟩ := map_eq_ok.mp hresult
      simp only [List.mem_filter, Option.isNone_iff_eq_none] at hx
      exact ⟨hx.1, hx.2, hok⟩
    have hsound : ∀ x ∈ inputs, ∀ result,
        (key x, result) ∈ resultsByKey key loaded inputs recorded →
        (loaded x).elim (enrichOne x) .ok = .ok result := by
      intro x hx result hmem
      rcases List.mem_append.mp hmem with hmem | hmem
      · obtain ⟨y, hy, hloaded⟩ := List.mem_filterMap.mp hmem
        obtain ⟨result', hresult', heq⟩ := Option.map_eq_some_iff.mp hloaded
        cases hinjective y hy x hx (Prod.mk.inj heq).1
        rw [hresult', (Prod.mk.inj heq).2]
        rfl
      · obtain ⟨p, hp, heq⟩ := List.mem_map.mp hmem
        obtain ⟨hp1, hnone, hok⟩ := hrecorded p hp
        cases hinjective p.1 hp1 x hx (Prod.mk.inj heq).1
        rw [hnone, ← (Prod.mk.inj heq).2]
        exact hok
    have hthere : ∀ x ∈ inputs, ∃ result,
        (key x, result) ∈ resultsByKey key loaded inputs recorded := by
      intro x hx
      cases hloaded : loaded x with
      | some result =>
        refine ⟨result, List.mem_append_left _ (List.mem_filterMap.mpr ⟨x, hx, ?_⟩)⟩
        rw [hloaded]
        rfl
      | none =>
        obtain ⟨p, hp, hresult⟩ := exists_mem_of_mapM hpending
          (List.mem_filter.mpr ⟨hx, by simp [hloaded]⟩)
        obtain ⟨result, -, rfl⟩ := map_eq_ok.mp hresult
        exact ⟨result, List.mem_append_right _ (List.mem_map.mpr ⟨(x, result), hp, rfl⟩)⟩
    have hlookup : ∀ x ∈ inputs, ∃ result, (loaded x).elim (enrichOne x) .ok = .ok result
        ∧ (resultsByKey key loaded inputs recorded).lookup (key x) = some result := by
      intro x hx
      cases hfound : (resultsByKey key loaded inputs recorded).lookup (key x) with
      | some result => exact ⟨result, hsound x hx result (mem_of_lookup_eq_some hfound), rfl⟩
      | none =>
        obtain ⟨result, hmem⟩ := hthere x hx
        simpa using List.lookup_eq_none_iff.mp hfound _ hmem
    obtain ⟨results, hok, hall⟩ := exists_mapM_forall₂ hlookup
    rw [hok]
    exact congrArg Except.ok (filterMap_eq_of_forall₂ hall)

end OsmPolygonWikidata.Direct
