import OsmPolygonWikidata.Direct.Reconciliation

/-! # What an enrichment records

Each reference has one entry: the row found for it, or what the client answers. So the statuses can
be read off by position, and a title leads to the document with the smallest identifier.
-/

namespace OsmPolygonWikidata.Direct

open V1Index

section

variable {B E : Type} {casefold : String → String} {context : PolygonContext}
variable (client : String → String → Except E (FetchResult B)) {errorText : E → String}
variable {refs : List Ref} (index completed : Index B)

/-- The document fetched for a reference. -/
def fetchedDocument (p : Nat × Ref) : Option (Document B) :=
  match client p.2.language p.2.title with
  | .error _ => none
  | .ok result => resultDocument result

/-- An earlier state of an index. -/
structure Contained : Prop where
  rows : ∀ key, ∀ d ∈ index.rows key, d ∈ completed.rows key
  batched : index.batched = completed.batched

variable {client}

theorem fetchedEntry_row (p : Nat × Ref) :
    (fetchedEntry client errorText p).row = fetchedDocument client p := by
  unfold fetchedEntry fetchedDocument
  cases client p.2.language p.2.title <;> rfl

theorem fetchedEntry_position (p : Nat × Ref) : (fetchedEntry client errorText p).position = p.1 := by
  unfold fetchedEntry
  cases client p.2.language p.2.title <;> rfl

/-- The entries of an enrichment, by what is found. -/
def entriesFor (casefold : String → String) (client : String → String → Except E (FetchResult B))
    (errorText : E → String) (refs : List Ref) (found : Matches B) : List (Entry B) :=
  (enumerate 0 refs).filterMap (foundEntry casefold found)
    ++ (unresolved casefold found (enumerate 0 refs)).map (fetchedEntry client errorText)

/-- The status of a reference, by what is found. -/
def statusFor (casefold : String → String) (client : String → String → Except E (FetchResult B))
    (errorText : E → String) (found : Matches B) (p : Nat × Ref) : Status :=
  if (found (p.2.key casefold)).isEmpty then (fetchedEntry client errorText p).status
  else reusedStatus p.2

section

variable {found : Matches B}

theorem entriesFor_positions :
    ((entriesFor casefold client errorText refs found).map Entry.position).Nodup := by
  have hfound : ((enumerate 0 refs).filterMap (foundEntry casefold found)).map Entry.position
      = ((enumerate 0 refs).filter (fun p => !(found (p.2.key casefold)).isEmpty)).map Prod.fst := by
    induction enumerate 0 refs with
    | nil => rfl
    | cons p ps ih =>
      cases hlookup : found (p.2.key casefold) with
      | nil =>
        rw [List.filterMap_cons_none (by simp [foundEntry, hlookup]),
          List.filter_cons_of_neg (by simp [hlookup])]
        exact ih
      | cons d ds =>
        have hentry : foundEntry casefold found p = some (reusedEntry p d) := by
          simp [foundEntry, hlookup]
        rw [List.filterMap_cons_some hentry, List.filter_cons_of_pos (by simp [hlookup]),
          List.map_cons, List.map_cons, ih]
        rfl
  have hperm : ((entriesFor casefold client errorText refs found).map Entry.position).Perm
      ((enumerate 0 refs).map Prod.fst) := by
    rw [entriesFor, List.map_append, hfound, List.map_map]
    have hfetched : (unresolved casefold found (enumerate 0 refs)).map
        (Entry.position ∘ fetchedEntry client errorText)
        = (unresolved casefold found (enumerate 0 refs)).map Prod.fst :=
      List.map_congr_left (fun p _ => fetchedEntry_position p)
    rw [hfetched, ← List.map_append]
    apply List.Perm.map
    refine List.perm_append_comm.trans ?_
    exact List.filter_append_perm _ _
  exact hperm.nodup_iff.mpr (nodup_enumerate refs)

variable (context) in
theorem entriesFor_statuses :
    (List.range refs.length).filterMap (fun position =>
      (recordAll context (entriesFor casefold client errorText refs found)).statuses.lookup position)
      = (enumerate 0 refs).map (statusFor casefold client errorText found) := by
  apply filterMap_statuses
  intro p hp
  unfold statusFor
  cases hlookup : found (p.2.key casefold) with
  | nil =>
    have hmem : fetchedEntry client errorText p
        ∈ entriesFor casefold client errorText refs found := by
      apply List.mem_append_right
      apply List.mem_map_of_mem
      exact List.mem_filter.mpr ⟨hp, by simp [hlookup]⟩
    rw [← fetchedEntry_position p]
    exact recordAll_statuses entriesFor_positions hmem
  | cons d ds =>
    have hmem : reusedEntry p d ∈ entriesFor casefold client errorText refs found := by
      apply List.mem_append_left
      exact List.mem_filterMap.mpr ⟨p, hp, by simp [foundEntry, hlookup]⟩
    exact recordAll_statuses entriesFor_positions hmem

end

variable {p : Nat × Ref}

theorem getElem?_enumerate {k : Nat} {refs : List Ref}
    (hp : p ∈ enumerate k refs) : k ≤ p.1 ∧ (enumerate k refs)[p.1 - k]? = some p := by
  induction refs generalizing k with
  | nil => cases hp
  | cons ref refs ih =>
    rcases List.mem_cons.mp hp with rfl | hp'
    · exact ⟨le_refl k, by simp [enumerate]⟩
    · obtain ⟨hle, hget⟩ := ih hp'
      refine ⟨by omega, ?_⟩
      rw [enumerate, show p.1 - k = (p.1 - (k + 1)) + 1 by omega, List.getElem?_cons_succ]
      exact hget

variable {d : Document B}

theorem head?_directDocumentsByTitle {documents : List (Document B)}
    (hunique : ∀ d ∈ documents, ∀ e ∈ documents, d.documentId = e.documentId → d = e)
    {key : String × String} :
    (directDocumentsByTitle casefold documents key).head? = some d
      ↔ d ∈ documents ∧ d.key casefold = key
        ∧ ∀ e ∈ documents, e.key casefold = key → d.documentId ≤ e.documentId := by
  have htotal : Std.Total (fun a b : Document B => a.documentId ≤ b.documentId) :=
    ⟨fun a b => le_total _ _⟩
  have htrans : IsTrans (Document B) (fun a b => a.documentId ≤ b.documentId) :=
    ⟨fun a b c => le_trans⟩
  have hsorted : (directDocumentsByTitle casefold documents key).Pairwise
      (fun a b => a.documentId ≤ b.documentId) := List.pairwise_insertionSort _ _
  have hmem : ∀ e, e ∈ directDocumentsByTitle casefold documents key
      ↔ e ∈ documents ∧ e.key casefold = key := by
    intro e
    rw [directDocumentsByTitle, List.mem_insertionSort, List.mem_filter, decide_eq_true_iff]
  cases hlist : directDocumentsByTitle casefold documents key with
  | nil =>
    rw [hlist] at hmem
    constructor
    · intro h
      cases h
    · rintro ⟨hd, hkey, -⟩
      exact absurd ((hmem d).mpr ⟨hd, hkey⟩) (by simp)
  | cons first rest =>
    rw [hlist] at hmem hsorted
    have hfirst : ∀ e ∈ first :: rest, first.documentId ≤ e.documentId := by
      intro e he
      rcases List.mem_cons.mp he with rfl | he'
      · exact le_refl _
      · exact List.rel_of_pairwise_cons hsorted he'
    obtain ⟨hdocument, hkey⟩ := (hmem first).mp List.mem_cons_self
    rw [List.head?_cons, Option.some_inj]
    constructor
    · rintro rfl
      exact ⟨hdocument, hkey, fun e he hek => hfirst e ((hmem e).mpr ⟨he, hek⟩)⟩
    · rintro ⟨hd, hdk, hmin⟩
      apply hunique first hdocument d hd
      exact le_antisymm (hfirst d ((hmem d).mpr ⟨hd, hdk⟩)) (hmin first hdocument hkey)

end

end OsmPolygonWikidata.Direct
