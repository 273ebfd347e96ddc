import OsmPolygonWikidata.Direct.Enrichment

/-! # Speculative enrichment and reconciliation

Both `enrich_wikipedia_refs` and `reconcile_wikipedia_refs` record one *entry* per reference: a
status and possibly a document. For a reference that the completed index does not have, enriching
directly records the document that was fetched; reconciling records the speculative document whose
title is that of the reference, and of several the one with the smallest identifier.
-/

namespace OsmPolygonWikidata.Direct

open V1Index

/-! ## Entries -/

/-- What is recorded for one reference. -/
structure Entry (B : Type) where
  position : Nat
  status : Status
  row : Option (Document B)

section

variable {B E : Type} (casefold : String → String) (context : PolygonContext)

def record (rows : DirectRows B) (entry : Entry B) : DirectRows B :=
  let rows := { rows with statuses := rows.statuses.insert entry.position entry.status }
  match entry.row with
  | none => rows
  | some document => storeRow context document rows

/-- The rows recorded by a sequence of entries. -/
def recordAll (entries : List (Entry B)) : DirectRows B := entries.foldl (record context) (.empty B)

def reusedStatus (ref : Ref) : Status := ⟨ref, "reused_v1", "", true⟩

/-- The entry of a reference the index has. -/
def reusedEntry (p : Nat × Ref) (document : Document B) : Entry B :=
  ⟨p.1, reusedStatus p.2, some document⟩

variable {context}

theorem recordAll_concat (entries : List (Entry B)) (entry : Entry B) :
    recordAll context (entries ++ [entry]) = record context (recordAll context entries) entry := by
  simp [recordAll]

theorem recordAll_documents (entries : List (Entry B)) : (recordAll context entries).documents
      = Dict.build Document.documentId (entries.filterMap Entry.row) := by
  induction entries using List.reverseRecOn with
  | nil => rfl
  | append_singleton entries entry ih =>
    rw [recordAll_concat, List.filterMap_append, record]
    cases hrow : entry.row with
    | none => simpa [hrow] using ih
    | some document =>
      rw [List.filterMap_cons_some hrow, List.filterMap_nil, Dict.build_concat, ← ih]
      rfl

theorem recordAll_statuses {entries : List (Entry B)}
    (hnodup : (entries.map Entry.position).Nodup) {entry : Entry B} (hentry : entry ∈ entries) :
    (recordAll context entries).statuses.lookup entry.position = some entry.status := by
  induction entries using List.reverseRecOn with
  | nil => cases hentry
  | append_singleton entries last ih =>
    have hstatuses : (recordAll context (entries ++ [last])).statuses
        = (recordAll context entries).statuses.insert last.position last.status := by
      rw [recordAll_concat, record]
      cases last.row <;> rfl
    rw [List.map_append, List.nodup_append] at hnodup
    obtain ⟨hfirst, -, hdisjoint⟩ := hnodup
    rw [hstatuses]
    rcases List.mem_append.mp hentry with hmem | hlast
    · have hne : entry.position ≠ last.position :=
        hdisjoint _ (List.mem_map_of_mem hmem) _ (by simp)
      rw [AList.lookup_insert_ne hne]
      exact ih hfirst hmem
    · rw [List.mem_singleton.mp hlast, AList.lookup_insert]

/-! ## Positions -/

theorem map_fst_enumerate (k : Nat) (refs : List Ref) :
    (enumerate k refs).map Prod.fst = List.range' k refs.length := by
  induction refs generalizing k with
  | nil => rfl
  | cons ref refs ih =>
    rw [enumerate, List.map_cons, ih, List.length_cons, List.range'_succ]

theorem map_snd_enumerate (k : Nat) (refs : List Ref) : (enumerate k refs).map Prod.snd = refs := by
  induction refs generalizing k with
  | nil => rfl
  | cons ref refs ih => rw [enumerate, List.map_cons, ih]

theorem nodup_enumerate (refs : List Ref) : ((enumerate 0 refs).map Prod.fst).Nodup := by
  rw [map_fst_enumerate]
  exact List.nodup_range'

theorem filterMap_statuses {refs : List Ref} {statuses : Nat → Option Status}
    {status : Nat × Ref → Status}
    (h : ∀ p ∈ enumerate 0 refs, statuses p.1 = some (status p)) :
    (List.range refs.length).filterMap statuses = (enumerate 0 refs).map status := by
  rw [List.range_eq_range', ← map_fst_enumerate, List.filterMap_map]
  rw [← List.filterMap_eq_map]
  apply List.filterMap_congr
  intro p hp
  exact h p hp

end

/-! ## The loops -/

variable {B E : Type} {casefold : String → String} {context : PolygonContext}
variable {client : String → String → Except E (FetchResult B)} {errorText : E → String}

/-- The entry of a reference that is looked up and found. -/
def foundEntry (casefold : String → String) (found : Matches B) (p : Nat × Ref) :
    Option (Entry B) :=
  (found (p.2.key casefold)).head?.map (reusedEntry p)

/-- The references that are not found. -/
def unresolved (casefold : String → String) (found : Matches B) (ps : List (Nat × Ref)) :
    List (Nat × Ref) :=
  ps.filter (fun p => (found (p.2.key casefold)).isEmpty)

theorem partitionReferences_eq (found : Matches B) (ps : List (Nat × Ref))
    (entries : List (Entry B)) :
    partitionReferences casefold context found ps (recordAll context entries)
      = (unresolved casefold found ps,
        recordAll context (entries ++ ps.filterMap (foundEntry casefold found))) := by
  induction ps generalizing entries with
  | nil => simp [partitionReferences, unresolved]
  | cons p ps ih =>
    obtain ⟨position, ref⟩ := p
    rw [partitionReferences]
    cases hfound : found (ref.key casefold) with
    | nil =>
      have hentry : foundEntry casefold found (position, ref) = none := by
        simp [foundEntry, hfound]
      dsimp only
      rw [ih, List.filterMap_cons_none hentry]
      simp [unresolved, hfound]
    | cons document rest =>
      have hentry : foundEntry casefold found (position, ref)
          = some (reusedEntry (position, ref) document) := by
        simp [foundEntry, hfound]
      dsimp only
      have hrecord : recordReuse context position ref document (recordAll context entries)
          = recordAll context (entries ++ [reusedEntry (position, ref) document]) := by
        rw [recordAll_concat]
        rfl
      rw [hrecord, ih, List.filterMap_cons_some hentry, List.append_assoc]
      simp [unresolved, hfound]

/-- The entry of a reference that is fetched. -/
def fetchedEntry (client : String → String → Except E (FetchResult B)) (errorText : E → String)
    (p : Nat × Ref) : Entry B :=
  match client p.2.language p.2.title with
  | .error e => ⟨p.1, ⟨p.2, "deferred_error", errorText e, false⟩, none⟩
  | .ok result => ⟨p.1, ⟨p.2, result.status, result.error, false⟩, resultDocument result⟩

/-- The fetch of a reference raises. -/
def raises (client : String → String → Except E (FetchResult B)) (p : Nat × Ref) : Bool :=
  !(client p.2.language p.2.title).isOk

/-- The references fetched while the index is not ready. -/
def early (index : Index B) : List (Nat × Ref) → Nat → List (Nat × Ref)
  | [], _ => []
  | p :: pending, count =>
    if index.isReady count then [] else p :: early index pending (count + 1)

theorem lookup_fetchSpeculativeResults (index : Index B) {pending : List (Nat × Ref)}
    (hnodup : (pending.map Prod.fst).Nodup) (count : Nat)
    (speculative : AList (fun _ : Nat => Except E (FetchResult B))) {p : Nat × Ref}
    (hp : p ∈ pending) :
    (fetchSpeculativeResults client index pending count speculative).lookup p.1
      = if p ∈ early index pending count then some (client p.2.language p.2.title)
        else speculative.lookup p.1 := by
  -- a position that is not pending keeps its value
  have hframe : ∀ (pending : List (Nat × Ref)) count speculative position,
      position ∉ pending.map Prod.fst →
      (fetchSpeculativeResults client index pending count speculative).lookup position
        = speculative.lookup position := by
    intro pending
    induction pending with
    | nil => intros; rfl
    | cons q pending ih =>
      intro count speculative position hposition
      rw [List.map_cons, List.mem_cons, not_or] at hposition
      rw [fetchSpeculativeResults]
      split
      · rfl
      · rw [ih _ _ _ hposition.2, AList.lookup_insert_ne hposition.1]
  induction pending generalizing count speculative with
  | nil => cases hp
  | cons q pending ih =>
    obtain ⟨hq, hnodup'⟩ := List.nodup_cons.mp hnodup
    rw [fetchSpeculativeResults, early]
    split
    · simp
    · rcases List.mem_cons.mp hp with rfl | hp'
      · rw [hframe _ _ _ _ hq, AList.lookup_insert, if_pos List.mem_cons_self]
      · have hne : p.1 ≠ q.1 := fun h => hq (h ▸ List.mem_map_of_mem hp')
        have hpq : p ≠ q := fun h => hne (congrArg Prod.fst h)
        rw [ih hnodup' _ _ hp', AList.lookup_insert_ne hne]
        simp only [List.mem_cons, hpq, false_or]

theorem applyPendingOutcome_eq (p : Nat × Ref) (entries : List (Entry B))
    (deferredErrors : AList (fun _ : Nat => E)) {result : FetchResult B}
    (hresult : client p.2.language p.2.title = .ok result) :
    applyPendingOutcome context p.1 (⟨p.2, result.status, result.error, false⟩, some result, none)
        (recordAll context entries, deferredErrors)
      = (recordAll context (entries ++ [fetchedEntry client errorText p]), deferredErrors) := by
  rw [recordAll_concat, fetchedEntry, hresult]
  simp only [applyPendingOutcome, Option.bind_some, record]
  cases resultDocument result <;> rfl

variable (context errorText) in
/-- **Resolving the pending references**, none of which is found in the end. Those of `spec` have a
speculative result. -/
theorem resolvePending_eq {finalMatches : Matches B}
    {speculative : AList (fun _ : Nat => Except E (FetchResult B))} {waitForIndex : Bool}
    {spec : Nat × Ref → Prop} [DecidablePred spec] (hwait : ∀ p, spec p → waitForIndex = false)
    {pending : List (Nat × Ref)} (hnodup : (pending.map Prod.fst).Nodup)
    (hfinal : ∀ p ∈ pending, finalMatches (p.2.key casefold) = [])
    (hspec : ∀ p ∈ pending, speculative.lookup p.1
      = if spec p then some (client p.2.language p.2.title) else none)
    (entries : List (Entry B)) (deferredErrors : AList (fun _ : Nat => E)) :
    if ∃ p ∈ pending, ¬ spec p ∧ raises client p then
      ∃ e, resolvePending casefold context client errorText finalMatches speculative waitForIndex
        pending (recordAll context entries, deferredErrors) = .error e
    else
      ∃ deferredErrors', resolvePending casefold context client errorText finalMatches speculative
          waitForIndex pending (recordAll context entries, deferredErrors)
          = .ok (recordAll context (entries ++ pending.map (fetchedEntry client errorText)),
            deferredErrors')
        ∧ (∀ position, position ∉ pending.map Prod.fst →
          deferredErrors'.lookup position = deferredErrors.lookup position)
        ∧ ∀ p ∈ pending, deferredErrors'.lookup p.1 = match client p.2.language p.2.title with
            | .error e => some e
            | .ok _ => deferredErrors.lookup p.1 := by
  induction pending generalizing entries deferredErrors with
  | nil =>
    rw [if_neg (by simp)]
    exact ⟨deferredErrors, by simp [resolvePending], fun _ _ => rfl, by simp⟩
  | cons p pending ih =>
    obtain ⟨hp, hnodup'⟩ := List.nodup_cons.mp hnodup
    have hfinalp : finalMatches (p.2.key casefold) = [] := hfinal p List.mem_cons_self
    have hspecp := hspec p List.mem_cons_self
    have ih' := fun entries deferredErrors => ih hnodup'
      (fun q hq => hfinal q (List.mem_cons_of_mem p hq))
      (fun q hq => hspec q (List.mem_cons_of_mem p hq)) entries deferredErrors
    obtain ⟨position, ref⟩ := p
    dsimp only at hfinalp hspecp
    simp only [resolvePending, hfinalp, hspecp]
    cases hclient : client ref.language ref.title with
    | error e =>
      by_cases hs : spec (position, ref)
      · -- the exception is kept
        have hw := hwait _ hs
        simp only [hs, if_true, resolvePendingOutcome, hw, Bool.false_eq_true, if_false]
        have happly : applyPendingOutcome context position
            (⟨ref, "deferred_error", errorText e, false⟩, none, some e)
            (recordAll context entries, deferredErrors)
            = (recordAll context (entries ++ [fetchedEntry client errorText (position, ref)]),
              deferredErrors.insert position e) := by
          rw [recordAll_concat, fetchedEntry, hclient]
          rfl
        rw [happly]
        have hih := ih' (entries ++ [fetchedEntry client errorText (position, ref)])
          (deferredErrors.insert position e)
        have hiff : (∃ p ∈ (position, ref) :: pending, ¬ spec p ∧ raises client p)
            ↔ ∃ p ∈ pending, ¬ spec p ∧ raises client p := by
          simp [hs]
        simp only [hiff]
        rw [hw] at hih
        split
        · rename_i hraise
          rw [if_pos hraise] at hih
          exact hih
        · rename_i hraise
          rw [if_neg hraise] at hih
          obtain ⟨deferredErrors', hok, hframe, herrors⟩ := hih
          refine ⟨deferredErrors', ?_, ?_, ?_⟩
          · rw [hok]
            simp
          · intro q hq
            rw [List.map_cons, List.mem_cons, not_or] at hq
            rw [hframe q hq.2, AList.lookup_insert_ne hq.1]
          · intro q hq
            rcases List.mem_cons.mp hq with rfl | hq'
            · dsimp only
              rw [hframe position hp, AList.lookup_insert, hclient]
            · rw [herrors q hq']
              have hne : q.1 ≠ position := by
                intro h
                apply hp
                show position ∈ pending.map Prod.fst
                rw [← h]
                exact List.mem_map_of_mem hq'
              cases client q.2.language q.2.title with
              | error e' => rfl
              | ok result => exact AList.lookup_insert_ne hne
      · -- the exception ends the run
        rw [if_pos ⟨(position, ref), List.mem_cons_self, hs, by
          simp [raises, hclient, Except.isOk, Except.toBool]⟩]
        simp only [hs, if_false, resolvePendingOutcome, hclient]
        exact ⟨e, rfl⟩
    | ok result =>
      have hnot : raises client (position, ref) = false := by
        simp [raises, hclient, Except.isOk, Except.toBool]
      have hiff : (∃ p ∈ (position, ref) :: pending, ¬ spec p ∧ raises client p)
          ↔ ∃ p ∈ pending, ¬ spec p ∧ raises client p := by
        simp [hnot]
      have houtcome : resolvePendingOutcome client errorText ref
          (if spec (position, ref) then some (.ok result) else none) waitForIndex
          = .ok (⟨ref, result.status, result.error, false⟩, some result, none) := by
        split
        · rfl
        · simp only [resolvePendingOutcome, hclient]
      simp only [houtcome, hiff]
      rw [applyPendingOutcome_eq (position, ref) entries deferredErrors hclient]
      have hih := ih' (entries ++ [fetchedEntry client errorText (position, ref)])
        deferredErrors
      split
      · rename_i hraise
        rw [if_pos hraise] at hih
        exact hih
      · rename_i hraise
        rw [if_neg hraise] at hih
        obtain ⟨deferredErrors', hok, hframe, herrors⟩ := hih
        refine ⟨deferredErrors', ?_, ?_, ?_⟩
        · rw [hok]
          simp
        · intro q hq
          rw [List.map_cons, List.mem_cons, not_or] at hq
          exact hframe q hq.2
        · intro q hq
          rcases List.mem_cons.mp hq with rfl | hq'
          · dsimp only
            rw [hframe position hp, hclient]
          · exact herrors q hq'

/-- The rows stored by a sequence of documents, without statuses. -/
def storeAll (context : PolygonContext) (documents : List (Document B)) : DirectRows B :=
  documents.foldl (fun rows document => storeRow context document rows) (.empty B)

theorem storeAll_concat (documents : List (Document B)) (document : Document B) :
    storeAll context (documents ++ [document])
      = storeRow context document (storeAll context documents) := by
  simp [storeAll]

theorem storeAll_documents (documents : List (Document B)) :
    (storeAll context documents).documents = Dict.build Document.documentId documents := by
  induction documents using List.reverseRecOn with
  | nil => rfl
  | append_singleton documents document ih =>
    rw [storeAll_concat, Dict.build_concat, ← ih]
    rfl

theorem storeAll_links (documents : List (Document B)) : (storeAll context documents).links
      = (storeAll context documents).documents.map (linkRow context) := by
  induction documents using List.reverseRecOn with
  | nil => rfl
  | append_singleton documents document ih =>
    have hput : (Dict.put Document.documentId document
        (storeAll context documents).documents).map (linkRow context)
        = Dict.put Link.documentId (linkRow context document)
          ((storeAll context documents).documents.map (linkRow context)) :=
      Dict.map_put Link.documentId (linkRow context) (fun _ => rfl) document _
    rw [← ih] at hput
    rw [storeAll_concat]
    exact hput.symm

/-- The row that reconciling records for a reference. -/
def reconciledRow (casefold : String → String) (finalMatches directByTitle : Matches B)
    (p : Nat × Ref) : Option (Document B) :=
  match finalMatches (p.2.key casefold) with
  | document :: _ => some document
  | [] => (directByTitle (p.2.key casefold)).head?

end OsmPolygonWikidata.Direct
