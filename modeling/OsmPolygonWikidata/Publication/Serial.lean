import OsmPolygonWikidata.Publication.PendingPublications

/-! # Serial orders of the envelope updates

Each call, seen on its own, changes the stems by `applyStems` and the marker by `applyMarker`.
A step of a thread changes the marker as the call that takes effect in it does, whatever the
other threads have done; it changes the stems so if the save is fresh.
-/

namespace OsmPolygonWikidata.PendingPublications

open Interleaving

/-! ## Loading what was saved -/

theorem ok_bind {ε α β : Type} (a : α) (f : α → Except ε β) : (Except.ok a >>= f) = f a := rfl

/-- The envelope is absent or has the shape `load_pending_publications` accepts. -/
def Loadable (m : Manifest) : Prop := ∃ stems, loadPendingPublications m = .ok stems

/-- The stems in the file; no stems when they cannot be loaded. -/
def stemsOf (m : Manifest) : Finset String :=
  match loadPendingPublications m with
  | .ok stems => stems
  | .error _ => ∅

variable {m : Manifest}

theorem stemsOf_eq {stems : Finset String}
    (h : loadPendingPublications m = .ok stems) : stemsOf m = stems := by
  rw [stemsOf, h]

theorem Loadable.load (h : Loadable m) : loadPendingPublications m = .ok (stemsOf m) := by
  obtain ⟨stems, hs⟩ := h
  rw [stemsOf_eq hs, hs]

theorem validateStemValues_map_some {stems : List String} (h : ∀ s ∈ stems, isSafeStem s)
    (i : Nat) : validateStemValues (stems.map some) i = .ok stems := by
  induction stems generalizing i with
  | nil => rfl
  | cons stem stems ih =>
    rw [List.map_cons, validateStemValues, if_pos (h stem (by simp)),
      ih (fun s hs => h s (by simp [hs]))]
    rfl

theorem validateStemValues_safe {values : List (Option String)} {i : Nat} {stems : List String}
    (h : validateStemValues values i = .ok stems) : ∀ s ∈ stems, isSafeStem s := by
  induction values generalizing i stems with
  | nil =>
    cases h
    simp
  | cons value values ih =>
    cases value with
    | none => cases h
    | some stem =>
      rw [validateStemValues] at h
      split at h
      · rename_i hstem
        cases hrest : validateStemValues values (i + 1) with
        | error e => rw [hrest] at h; cases h
        | ok rest =>
          rw [hrest] at h
          cases h
          intro s hs
          rcases List.mem_cons.mp hs with rfl | hs
          · exact hstem
          · exact ih hrest s hs
      · cases h

theorem load_object {e : Envelope} {stems : Finset String}
    (h : loadPendingPublications (.object e) = .ok stems) :
    e.version = some contractVersion ∧ ∃ values l, e.stems = .list values
      ∧ validateStemValues values 0 = .ok l ∧ l.Nodup ∧ stems = l.toFinset := by
  by_cases hv : e.version = some contractVersion
  · refine ⟨hv, ?_⟩
    simp only [loadPendingPublications, loadEnvelope, if_pos hv, ok_bind] at h
    cases hs : e.stems with
    | missing => rw [hs] at h; cases h
    | notAList => rw [hs] at h; cases h
    | list values =>
      rw [hs] at h
      cases hl : validateStemValues values 0 with
      | error err => simp only [hl] at h; cases h
      | ok l =>
        simp only [hl, ok_bind] at h
        split at h
        · rename_i hnd
          cases h
          exact ⟨values, l, rfl, hl, hnd, rfl⟩
        · cases h
  · simp only [loadPendingPublications, loadEnvelope, if_neg hv] at h
    cases h

/-- The stems a read returns are safe. -/
theorem load_safe {stems : Finset String} (h : loadPendingPublications m = .ok stems) :
    ∀ s ∈ stems, isSafeStem s := by
  cases m with
  | absent =>
    cases h
    simp
  | malformed => cases h
  | object e =>
    obtain ⟨-, values, l, -, hl, -, rfl⟩ := load_object h
    intro s hs
    exact validateStemValues_safe hl s (List.mem_toFinset.mp hs)

theorem load_list {e : Envelope} {values : List (Option String)} {l : List String}
    (hv : e.version = some contractVersion) (hs : e.stems = .list values)
    (hl : validateStemValues values 0 = .ok l) (hnd : l.Nodup) :
    loadPendingPublications (.object e) = .ok l.toFinset := by
  simp only [loadPendingPublications, loadEnvelope, if_pos hv, hs, hl, ok_bind, if_pos hnd]
  rfl

theorem loadEnvelope_of_loadable (h : Loadable m) :
    ∃ e, loadEnvelope m = .ok e ∧ e.metadataRefresh = m.marker := by
  obtain ⟨stems, hs⟩ := h
  cases m with
  | absent => exact ⟨_, rfl, rfl⟩
  | malformed => cases hs
  | object e => exact ⟨e, if_pos (load_object hs).1, rfl⟩

/-! ## The locked sections -/

theorem save_spec (h : Loadable m) (stems : Finset String) : if ∀ s ∈ stems, isSafeStem s then
      ∃ m', savePendingPublications stems m = .ok m' ∧ loadPendingPublications m' = .ok stems
        ∧ m'.marker = m.marker
    else ∃ e, savePendingPublications stems m = .error e := by
  obtain ⟨e, he, hmk⟩ := loadEnvelope_of_loadable h
  split
  · rename_i hsafe
    have hfind : (stems.sort (· ≤ ·)).find? (fun stem => !isSafeStem stem) = none := by
      rw [List.find?_eq_none]
      intro s hs
      simp [hsafe s ((Finset.mem_sort (· ≤ ·)).mp hs)]
    refine ⟨.object { e with version := some contractVersion, stems := sortedField stems }, ?_, ?_,
      hmk⟩
    · simp only [savePendingPublications, hfind, he, ok_bind]
      rfl
    · rw [load_list rfl rfl (validateStemValues_map_some
        (fun s hs => hsafe s ((Finset.mem_sort (· ≤ ·)).mp hs)) 0) (Finset.sort_nodup stems (· ≤ ·)),
        Finset.sort_toFinset]
  · rename_i hrejected
    cases hfind : (stems.sort (· ≤ ·)).find? (fun stem => !isSafeStem stem) with
    | none =>
      refine absurd ?_ hrejected
      intro s hs
      have := List.find?_eq_none.mp hfind s ((Finset.mem_sort (· ≤ ·)).mpr hs)
      simpa using this
    | some stem => exact ⟨.invalidStem stem, by simp [savePendingPublications, hfind]⟩

theorem setMarker_spec (h : Loadable m) (payload : Marker) :
    ∃ m', setMetadataRefreshMarker payload m = .ok m'
      ∧ loadPendingPublications m' = loadPendingPublications m ∧ m'.marker = some payload := by
  obtain ⟨stems, hs⟩ := h
  cases m with
  | absent => exact ⟨_, rfl, rfl, rfl⟩
  | malformed => cases hs
  | object e =>
    obtain ⟨hv, values, l, hst, hl, hnd, -⟩ := load_object hs
    simp only [setMetadataRefreshMarker, loadEnvelope, if_pos hv, ok_bind]
    by_cases hsame : e.metadataRefresh = some payload
    · rw [if_pos ⟨hsame, by simp⟩]
      exact ⟨_, rfl, rfl, hsame⟩
    · rw [if_neg (fun h => hsame h.1)]
      refine ⟨_, rfl, ?_, rfl⟩
      rw [load_list (by simp [hv]) (by simp [hst]) hl hnd, load_list hv hst hl hnd]

theorem clearMarker_spec (h : Loadable m) : ∃ m', clearMetadataRefreshMarker m = .ok m'
      ∧ loadPendingPublications m' = loadPendingPublications m ∧ m'.marker = none := by
  obtain ⟨stems, hs⟩ := h
  cases m with
  | absent => exact ⟨_, rfl, rfl, rfl⟩
  | malformed => cases hs
  | object e =>
    obtain ⟨hv, values, l, hst, hl, hnd, -⟩ := load_object hs
    simp only [clearMetadataRefreshMarker, loadEnvelope, if_pos hv, ok_bind]
    cases hmk : e.metadataRefresh with
    | none => exact ⟨_, rfl, rfl, hmk⟩
    | some payload =>
      exact ⟨.object { e with metadataRefresh := none }, rfl,
        (load_list (by exact hv) (by exact hst) hl hnd).trans (load_list hv hst hl hnd).symm, rfl⟩

/-! ## What a call does to the stems and to the marker -/

def applyStems (current : Finset String) : Call → Finset String
  | .update u =>
    if ∀ s ∈ u.result current, isSafeStem s then u.result current else current
  | _ => current

def applyMarker (marker : Option Marker) : Call → Option Marker
  | .update _ => marker
  | .setMarker stems hashes =>
    match markerPayload stems hashes with
    | .ok payload => some payload
    | .error _ => marker
  | .clearMarker => none

theorem applyStems_empty {u : Update} (hu : u.stems = ∅) (current : Finset String) :
    applyStems current (.update u) = current := by
  have hr : u.result current = current := by
    cases u with
    | add stems => rw [Update.result, show stems = ∅ from hu, Finset.union_empty]
    | remove stems => rw [Update.result, show stems = ∅ from hu, Finset.sdiff_empty]
  rw [applyStems, hr, ite_self]

/-- An update with an unsafe stem leaves the stems alone, whatever safe stems it finds. -/
theorem applyStems_rejected {u : Update} {read current : Finset String}
    (hread : ∀ s ∈ read, isSafeStem s) (hrejected : ¬ ∀ s ∈ u.result read, isSafeStem s) :
    applyStems current (.update u) = current := by
  rw [applyStems]
  split
  · rename_i hsafe
    refine absurd ?_ hrejected
    intro s hs
    cases u with
    | add stems =>
      rcases Finset.mem_union.mp hs with hs | hs
      · exact hread s hs
      · exact hsafe s (Finset.mem_union_right current hs)
    | remove stems => exact hread s (Finset.mem_sdiff.mp hs).1
  · rfl

/-- The stems a thread has read are safe. -/
def Local.Safe : Local → Prop
  | .loaded _ current _ => ∀ s ∈ current, isSafeStem s
  | _ => True

/-- A thread that enters the locked save finds the stems it has read. An unsafe stem raises before
the lock: that call saves nothing. -/
def Local.Fresh (m : Manifest) : Local → Prop
  | .loaded u current _ => (∀ s ∈ u.result current, isSafeStem s) → stemsOf m = current
  | _ => True

instance (m : Manifest) : (l : Local) → Decidable (l.Fresh m)
  | .idle _ | .seen _ => inferInstanceAs (Decidable True)
  | .loaded u current _ => inferInstanceAs
      (Decidable ((∀ s ∈ u.result current, isSafeStem s) → stemsOf m = current))

/-- **One step.** The envelope stays loadable; the marker changes as the call taking effect says;
so do the stems, if the step is fresh. -/
theorem step_spec (l : Local) (h : Loadable m) : Loadable (step l m).2.1
      ∧ (step l m).2.1.marker = (step l m).2.2.toList.foldl applyMarker m.marker
      ∧ (l.Safe → l.Fresh m →
        stemsOf (step l m).2.1 = (step l m).2.2.toList.foldl applyStems (stemsOf m)) := by
  match l with
  | .idle [] => exact ⟨h, rfl, fun _ _ => rfl⟩
  | .idle (.update u :: calls) =>
    by_cases hu : u.stems = ∅
    · simp only [step, if_pos hu]
      exact ⟨h, rfl, fun _ _ => (applyStems_empty hu _).symm⟩
    · simp only [step, if_neg hu, h.load]
      exact ⟨h, rfl, fun _ _ => rfl⟩
  | .loaded u current calls =>
    have hsave := save_spec h (u.result current)
    simp only [step]
    split at hsave
    · rename_i hsafe
      obtain ⟨m', hm', hload, hmk⟩ := hsave
      rw [hm', settle]
      refine ⟨⟨_, hload⟩, hmk, fun _ hfresh => ?_⟩
      rw [stemsOf_eq hload]
      simp only [Option.toList_some, List.foldl_cons, List.foldl_nil, applyStems]
      rw [hfresh hsafe, if_pos hsafe]
    · rename_i hrejected
      obtain ⟨e, he⟩ := hsave
      rw [he, settle]
      refine ⟨h, rfl, fun hread _ => ?_⟩
      simp only [Option.toList_some, List.foldl_cons, List.foldl_nil]
      exact (applyStems_rejected hread hrejected).symm
  | .idle (.setMarker stems hashes :: calls) =>
    simp only [step]
    cases hp : markerPayload stems hashes with
    | error e =>
      refine ⟨h, ?_, fun _ _ => rfl⟩
      simp only [Option.toList_some, List.foldl_cons, List.foldl_nil, applyMarker, hp]
      rfl
    | ok payload =>
      obtain ⟨m', hm', hload, hmk⟩ := setMarker_spec h payload
      simp only [ok_bind, hm', settle]
      refine ⟨?_, ?_, fun _ _ => ?_⟩
      · rw [Loadable, hload]
        exact h
      · simp only [Option.toList_some, List.foldl_cons, List.foldl_nil, applyMarker, hp, hmk]
      · rw [stemsOf, hload]
        rfl
  | .idle (.clearMarker :: calls) =>
    by_cases hm : m = .absent
    · simp only [step, if_pos hm]
      exact ⟨h, by rw [hm]; rfl, fun _ _ => rfl⟩
    · simp only [step, if_neg hm]
      exact ⟨h, rfl, fun _ _ => rfl⟩
  | .seen calls =>
    obtain ⟨m', hm', hload, hmk⟩ := clearMarker_spec h
    simp only [step, hm', settle]
    refine ⟨?_, hmk, fun _ _ => ?_⟩
    · rw [Loadable, hload]
      exact h
    · rw [stemsOf, hload]
      rfl

theorem step_safe (l : Local) (m : Manifest) (hl : l.Safe) : (step l m).1.Safe := by
  match l with
  | .idle [] => trivial
  | .idle (.update u :: calls) =>
    by_cases hu : u.stems = ∅
    · simp only [step, if_pos hu]
      trivial
    · simp only [step, if_neg hu]
      cases hload : loadPendingPublications m with
      | error e => trivial
      | ok current => exact load_safe hload
  | .loaded u current calls => trivial
  | .idle (.setMarker stems hashes :: calls) => trivial
  | .idle (.clearMarker :: calls) =>
    by_cases hm : m = .absent
    · simp only [step, if_pos hm]
      trivial
    · simp only [step, if_neg hm]
      trivial
  | .seen calls => trivial

theorem step_todo (l : Local) (m : Manifest) :
    l.todo = (step l m).2.2.toList ++ (step l m).1.todo := by
  match l with
  | .idle [] => rfl
  | .idle (.update u :: calls) =>
    by_cases hu : u.stems = ∅
    · simp only [step, if_pos hu]
      rfl
    · simp only [step, if_neg hu]
      cases loadPendingPublications m <;> rfl
  | .loaded u current calls => rfl
  | .idle (.setMarker stems hashes :: calls) => rfl
  | .idle (.clearMarker :: calls) =>
    by_cases hm : m = .absent
    · simp only [step, if_pos hm]
      rfl
    · simp only [step, if_neg hm]
      rfl
  | .seen calls => rfl

/-! ## Calls that run alone -/

theorem alone_spec (c : Call) (h : Loadable m) :
    Loadable (c.alone m) ∧ (c.alone m).marker = applyMarker m.marker c
      ∧ stemsOf (c.alone m) = applyStems (stemsOf m) c := by
  cases c with
  | update u =>
    by_cases hu : u.stems = ∅
    · have ha : Call.alone (.update u) m = m := by simp only [Call.alone, step, if_pos hu]
      rw [ha]
      exact ⟨h, rfl, (applyStems_empty hu _).symm⟩
    · have ha : Call.alone (.update u) m = (step (.loaded u (stemsOf m) []) m).2.1 := by
        simp only [Call.alone, step, if_neg hu, h.load]
      obtain ⟨h1, h2, h3⟩ := step_spec (.loaded u (stemsOf m) []) h
      rw [ha]
      exact ⟨h1, h2, h3 (load_safe h.load) (fun _ => rfl)⟩
  | setMarker stems hashes =>
    obtain ⟨h1, h2, h3⟩ := step_spec (.idle [.setMarker stems hashes]) h
    exact ⟨h1, h2, h3 trivial trivial⟩
  | clearMarker =>
    by_cases hm : m = .absent
    · have ha : Call.alone .clearMarker m = m := by simp only [Call.alone, step, if_pos hm]
      rw [ha]
      exact ⟨h, by rw [hm]; rfl, rfl⟩
    · have ha : Call.alone .clearMarker m = (step (.seen []) m).2.1 := by
        simp only [Call.alone, step, if_neg hm]
      obtain ⟨h1, h2, h3⟩ := step_spec (.seen []) h
      rw [ha]
      exact ⟨h1, h2, h3 trivial trivial⟩

theorem stemsOf_serial (calls : List Call) (h : Loadable m) :
    stemsOf (serial m (calls.filter Call.isUpdate)) = calls.foldl applyStems (stemsOf m) := by
  induction calls generalizing m with
  | nil => rfl
  | cons c calls ih =>
    obtain ⟨h1, -, h3⟩ := alone_spec c h
    cases c with
    | update u =>
      rw [List.foldl_cons, ← h3, ← ih h1]
      rfl
    | setMarker stems hashes => exact ih h
    | clearMarker => exact ih h

theorem marker_serial (calls : List Call) (h : Loadable m) :
    (serial m (calls.filter (fun c => !c.isUpdate))).marker = calls.foldl applyMarker m.marker := by
  induction calls generalizing m with
  | nil => rfl
  | cons c calls ih =>
    obtain ⟨h1, h2, -⟩ := alone_spec c h
    cases c with
    | update u => exact ih h
    | setMarker stems hashes =>
      rw [List.foldl_cons, ← h2, ← ih h1]
      rfl
    | clearMarker =>
      rw [List.foldl_cons, ← h2, ← ih h1]
      rfl

/-! ## Every interleaving -/

section

variable {ι : Type} [DecidableEq ι]

/-- The threads with their calls to make, in front of the file `m`. -/
def start (m : Manifest) (calls : ι → List Call) : Config ι Local Manifest where
  threads := fun t => .idle (calls t)
  shared := m

/-- No update enters its save after the stems it has read were changed. -/
def SaveIsFresh (t : ι) (c : Config ι Local Manifest) : Prop := (c.threads t).Fresh c.shared

instance (t : ι) (c : Config ι Local Manifest) : Decidable (SaveIsFresh t c) :=
  inferInstanceAs (Decidable ((c.threads t).Fresh c.shared))

/-- The file can be loaded, and what the threads have read from it is safe. -/
def Sound (c : Config ι Local Manifest) : Prop := Loadable c.shared ∧ ∀ t, (c.threads t).Safe

theorem Sound.step {c : Config ι Local Manifest} (h : Sound c) (t : ι) :
    Sound (c.step PendingPublications.step t) := by
  refine ⟨(step_spec (c.threads t) h.1).1, fun u => ?_⟩
  rw [Config.step]
  by_cases hut : u = t
  · subst hut
    simp only [Function.update_self]
    exact step_safe _ _ (h.2 u)
  · simp only [Function.update_of_ne hut]
    exact h.2 u

/-- **Serial orders.** Take any calls of any threads and any interleaving of their steps, and let
`order` be the calls in the order in which they took effect. It lists the finished calls of each
thread in program order; the marker in the file is the one the marker calls leave when they run
alone in that order; and if every save was fresh, the stems in the file are those the updates
leave when they run alone in that order. -/
theorem updates_serializable (m : Manifest) (hm : Loadable m) (calls : ι → List Call)
    (schedule : List ι) :
    let final := (start m calls).run step schedule
    let order := (start m calls).effects step schedule
    (∀ t, (order.filter (fun e => e.1 = t)).map Prod.snd ++ (final.threads t).todo = calls t)
      ∧ final.shared.marker = (serial m ((order.map Prod.snd).filter (fun c => !c.isUpdate))).marker
      ∧ ((start m calls).Along step SaveIsFresh schedule →
        stemsOf final.shared = stemsOf (serial m ((order.map Prod.snd).filter Call.isUpdate))) := by
  intro final order
  have hstart : Sound (start m calls) := ⟨hm, fun t => trivial⟩
  have hinv : ∀ t (c : Config ι Local Manifest), Sound c → Sound (c.step step t) :=
    fun t c h => h.step t
  refine ⟨fun t => Config.effects_thread Local.todo step_todo schedule _ t, ?_, fun hfresh => ?_⟩
  · rw [marker_serial _ hm, List.foldl_map]
    refine Config.run_view Manifest.marker applyMarker hinv ?_ schedule hstart
      (Config.along_true schedule _)
    exact fun t c h _ => (step_spec (c.threads t) h.1).2.1
  · rw [stemsOf_serial _ hm, List.foldl_map]
    refine Config.run_view stemsOf applyStems hinv ?_ schedule hstart hfresh
    exact fun t c h hf => (step_spec (c.threads t) h.1).2.2 (h.2 t) hf

end

/-! ## Two threads -/

namespace Example

/-- One stem waits for its publication. -/
def waiting : Manifest := .object ⟨some contractVersion, .list [some "b"], none⟩

theorem waiting_load : loadPendingPublications waiting = .ok {"b"} := rfl

/-- A fingerprint hash. -/
def digest : String := String.ofList (List.replicate 64 'c')

/-- The worker removes the published stem, tries to add an unsafe one and clears the marker; the
main thread writes the marker and adds a stem. -/
def busy (isWorker : Bool) : List Call :=
  if isWorker then [.update (.remove {"b"}), .update (.add {"x/y"}), .clearMarker]
  else [.setMarker ["b"] [("b", digest)], .update (.add {"a"})]

/-- The marker call falls between the worker's read and its save, the main thread's save between
the worker's second read and the call that raises. -/
def interleaved : List Bool := [true, false, true, false, true, false, true, true, true]

/-- Every save of the interleaving finds the stems its call has read. -/
theorem interleaved_serializable : Loadable waiting
      ∧ (start waiting busy).Along step SaveIsFresh interleaved
      ∧ stemsOf ((start waiting busy).run step interleaved).shared = {"a"}
      ∧ stemsOf ((start waiting busy).run step interleaved).shared
        = stemsOf (serial waiting ((((start waiting busy).effects step interleaved).map
          Prod.snd).filter Call.isUpdate)) := by
  have hfresh : (start waiting busy).Along step SaveIsFresh interleaved := by decide +kernel
  refine ⟨⟨_, waiting_load⟩, hfresh, by decide +kernel, ?_⟩
  exact (updates_serializable waiting ⟨_, waiting_load⟩ busy interleaved).2.2 hfresh

/-! ## A lost update -/

/-- The main thread adds a stem while the worker removes another one. -/
def calls (worker : Bool) : List Call :=
  if worker then [.update (.remove {"b"})] else [.update (.add {"a"})]

theorem stemsOf_save {m : Manifest} (h : Loadable m) {u : Update} {current : Finset String}
    (hsafe : ∀ s ∈ u.result current, isSafeStem s) (rest : List Call) :
    stemsOf (step (.loaded u current rest) m).2.1 = u.result current := by
  have hs := save_spec h (u.result current)
  rw [if_pos hsafe] at hs
  obtain ⟨m', hm', hload, -⟩ := hs
  simp only [step, hm', settle, stemsOf_eq hload]

/-- Both threads read, the main thread saves, then the worker: the added stem is gone, which no
serial order of the two calls explains. -/
theorem lost_update : stemsOf ((start waiting calls).run step [false, true, false, true]).shared = ∅
      ∧ ¬ ∃ order, order.Perm [.update (.add {"a"}), .update (.remove {"b"})]
        ∧ stemsOf ((start waiting calls).run step [false, true, false, true]).shared
          = stemsOf (serial waiting order) := by
  have hw : Loadable waiting := ⟨_, waiting_load⟩
  have hlost : stemsOf ((start waiting calls).run step [false, true, false, true]).shared = ∅ :=
    stemsOf_save (step_spec (.loaded (.add {"a"}) {"b"} []) hw).1 (by decide) []
  refine ⟨hlost, ?_⟩
  rintro ⟨order, hperm, heq⟩
  rw [hlost] at heq
  have horder : order = [.update (.add {"a"}), .update (.remove {"b"})]
      ∨ order = [.update (.remove {"b"}), .update (.add {"a"})] := by
    cases order with
    | nil => cases hperm.length_eq
    | cons c rest =>
      have hc := hperm.mem_iff.mp (List.mem_cons_self)
      simp only [List.mem_cons, List.not_mem_nil, or_false] at hc
      rcases hc with rfl | rfl
      · rw [List.perm_singleton.mp ((List.perm_cons _).mp hperm)]
        exact Or.inl rfl
      · rw [List.perm_singleton.mp ((List.perm_cons _).mp (hperm.trans (.swap _ _ [])))]
        exact Or.inr rfl
  rcases horder with rfl | rfl
  · have hserial := stemsOf_serial [.update (.add {"a"}), .update (.remove {"b"})] hw
    rw [stemsOf_eq waiting_load] at hserial
    exact absurd (heq.trans hserial) (by decide)
  · have hserial := stemsOf_serial [.update (.remove {"b"}), .update (.add {"a"})] hw
    rw [stemsOf_eq waiting_load] at hserial
    exact absurd (heq.trans hserial) (by decide)

end Example

end OsmPolygonWikidata.PendingPublications
