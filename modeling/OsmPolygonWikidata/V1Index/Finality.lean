import OsmPolygonWikidata.V1Index.Queries

/-! # Finality of the lookups

A lookup that starts when the index is complete has to find everything that was indexed. It asks
the query cache first, so this rests on what other lookups have stored there. A result is stored
only when the complete flag is set, but it may come from a SQL query that ran before; it is final
if no row for its key has been committed since that query (`StoreIsFresh`).
-/

namespace OsmPolygonWikidata.V1Index

open Interleaving

/-! ## Selecting and loading -/

variable {rows : List Document} {d : Document}

theorem sortedIds_congr {rows' : List Document}
    (h : ∀ id, id ∈ rows.map Document.documentId ↔ id ∈ rows'.map Document.documentId) :
    sortedIds rows = sortedIds rows' := by
  have hperm : (rows.map Document.documentId).dedup.Perm (rows'.map Document.documentId).dedup := by
    rw [List.perm_ext_iff_of_nodup (List.nodup_dedup _) (List.nodup_dedup _)]
    intro id
    rw [List.mem_dedup, List.mem_dedup, h]
  refine List.Perm.eq_of_sortedLE List.sortedLE_insertionSort List.sortedLE_insertionSort ?_
  exact (List.perm_insertionSort _ _).trans (hperm.trans (List.perm_insertionSort _ _).symm)

theorem mem_sortedIds {id : String} : id ∈ sortedIds rows ↔ ∃ d ∈ rows, d.documentId = id := by
  rw [sortedIds, List.mem_insertionSort, List.mem_dedup, List.mem_map]

theorem mem_selectRows {lookup : Lookup} {chunk : List Key} {table : List Document} :
    d ∈ selectRows lookup chunk table ↔ d ∈ table ∧ ∃ key ∈ chunk, key.selects d = true := by
  rw [selectRows, List.mem_insertionSort, List.mem_filter, List.any_eq_true]

theorem sortedIds_selectRows (lookup : Lookup) {chunk : List Key} (table : List Document)
    {key : Key} (hkey : key ∈ chunk) :
    sortedIds ((selectRows lookup chunk table).filter key.selects)
      = sortedIds (table.filter key.selects) := by
  have hrows : ∀ d, d ∈ (selectRows lookup chunk table).filter key.selects
      ↔ d ∈ table.filter key.selects := by
    intro d
    rw [List.mem_filter, List.mem_filter, mem_selectRows]
    constructor
    · rintro ⟨⟨hd, -⟩, hs⟩
      exact ⟨hd, hs⟩
    · rintro ⟨hd, hs⟩
      exact ⟨⟨hd, key, hkey, hs⟩, hs⟩
  apply sortedIds_congr
  intro id
  simp only [List.mem_map, hrows]

theorem mem_firstByDocument (h : d ∈ firstByDocument rows) : d ∈ rows := by
  induction rows with
  | nil => exact h
  | cons e rows ih =>
    rw [firstByDocument, List.mem_cons] at h
    rcases h with rfl | h
    · exact List.mem_cons_self
    · exact List.mem_cons_of_mem _ (ih (List.mem_filter.mp h).1)

theorem exists_firstByDocument (h : d ∈ rows) :
    ∃ e ∈ firstByDocument rows, e.documentId = d.documentId := by
  induction rows with
  | nil => cases h
  | cons e rows ih =>
    rw [firstByDocument]
    by_cases he : e.documentId = d.documentId
    · exact ⟨e, List.mem_cons_self, he⟩
    · have hd : d ∈ rows := by
        rcases List.mem_cons.mp h with rfl | h
        · exact absurd rfl he
        · exact h
      obtain ⟨f, hf, hid⟩ := ih hd
      refine ⟨f, List.mem_cons_of_mem _ (List.mem_filter.mpr ⟨hf, ?_⟩), hid⟩
      rw [hid]
      simpa using fun h => he h.symm

theorem mem_byRowGroup {references : List Document} :
    d ∈ byRowGroup references ↔ d ∈ references := by
  simp only [byRowGroup, List.mem_flatMap, List.mem_eraseDups, List.mem_map, List.mem_filter,
    decide_eq_true_eq]
  constructor
  · rintro ⟨_, -, hd, -⟩
    exact hd
  · intro hd
    exact ⟨_, ⟨d, hd, rfl⟩, hd, rfl⟩

section

variable {R : Type} (load : Document → R) (queryLimit rowLimit : Nat)

/-- A row loaded for a document of the table. -/
def Loaded (documents : List Document) (e : String × R) : Prop :=
  ∃ d ∈ documents, d.documentId = e.1 ∧ e.2 = load d

/-- **The answer for a key**: exactly the documents with a row that matches it, in order, each
with a row loaded for that document. -/
def Correct (documents : List Document) (key : Key) (result : Result R) : Prop :=
  result.map Prod.fst = sortedIds (documents.filter key.selects)
    ∧ ∀ e ∈ result, Loaded load documents e

variable {load}

theorem Loaded.mono {documents documents' : List Document} {e : String × R}
    (hsub : ∀ d ∈ documents, d ∈ documents') (h : Loaded load documents e) :
    Loaded load documents' e := by
  obtain ⟨d, hd, hid⟩ := h
  exact ⟨d, hsub d hd, hid⟩

variable {cache : Lru String R} {documents : List Document}

theorem splitCached_spec (references : List Document)
    (hcache : ∀ e ∈ cache, Loaded load documents e) :
    (∀ e ∈ (splitCached references cache).1, Loaded load documents e)
      ∧ (∀ e ∈ (splitCached references cache).2.1, Loaded load documents e)
      ∧ (∀ d ∈ (splitCached references cache).2.2, d ∈ references)
      ∧ ∀ d ∈ references, d ∈ (splitCached references cache).2.2
        ∨ ∃ row, (d.documentId, row) ∈ (splitCached references cache).1 := by
  induction references generalizing cache with
  | nil => exact ⟨by simp [splitCached], hcache, by simp [splitCached], by simp⟩
  | cons d references ih =>
    rw [splitCached]
    cases hget : cache.get d.documentId with
    | some row =>
      obtain ⟨h1, h2, h3, h4⟩ := ih
        (fun e he => hcache e (Lru.mem_touch he) :
          ∀ e ∈ cache.touch d.documentId, Loaded load documents e)
      refine ⟨?_, h2, fun e he => List.mem_cons_of_mem _ (h3 e he), ?_⟩
      · intro e he
        rcases List.mem_cons.mp he with rfl | he
        · exact hcache _ (Lru.mem_of_get hget)
        · exact h1 e he
      · intro e he
        rcases List.mem_cons.mp he with rfl | he
        · exact Or.inr ⟨row, List.mem_cons_self⟩
        · exact (h4 e he).imp id (fun ⟨r, hr⟩ => ⟨r, List.mem_cons_of_mem _ hr⟩)
    | none =>
      obtain ⟨h1, h2, h3, h4⟩ := ih hcache
      refine ⟨h1, h2, ?_, ?_⟩
      · intro e he
        rcases List.mem_cons.mp he with rfl | he
        · exact List.mem_cons_self
        · exact List.mem_cons_of_mem _ (h3 e he)
      · intro e he
        rcases List.mem_cons.mp he with rfl | he
        · exact Or.inl List.mem_cons_self
        · exact (h4 e he).imp (List.mem_cons_of_mem _) id

variable (references : List Document) (hrefs : ∀ d ∈ references, d ∈ documents)
  (hcache : ∀ e ∈ cache, Loaded load documents e)

include references hrefs hcache

theorem loadRows_spec : (∀ e ∈ (loadRows load rowLimit references cache).1, Loaded load documents e)
      ∧ (∀ e ∈ (loadRows load rowLimit references cache).2, Loaded load documents e)
      ∧ ∀ d ∈ references, ∃ row, (d.documentId, row) ∈ (loadRows load rowLimit references cache).1 := by
  induction references generalizing cache with
  | nil => exact ⟨by simp [loadRows], hcache, by simp⟩
  | cons d references ih =>
    have hd : Loaded load documents (d.documentId, load d) := ⟨d, hrefs d (by simp), rfl, rfl⟩
    have hcache' : ∀ e ∈ cache.put rowLimit d.documentId (load d), Loaded load documents e := by
      intro e he
      rcases Lru.mem_put he with rfl | he
      · exact hd
      · exact hcache e he
    obtain ⟨h1, h2, h3⟩ := ih (fun e he => hrefs e (by simp [he])) hcache'
    rw [loadRows]
    refine ⟨?_, h2, ?_⟩
    · intro e he
      rcases List.mem_cons.mp he with rfl | he
      · exact hd
      · exact h1 e he
    · intro e he
      rcases List.mem_cons.mp he with rfl | he
      · exact ⟨_, List.mem_cons_self⟩
      · obtain ⟨row, hrow⟩ := h3 e he
        exact ⟨row, List.mem_cons_of_mem _ hrow⟩

theorem materialize_spec :
    (∀ e ∈ (materialize load rowLimit references cache).1, Loaded load documents e)
      ∧ (∀ e ∈ (materialize load rowLimit references cache).2, Loaded load documents e)
      ∧ ∀ d ∈ references,
        ∃ row, (d.documentId, row) ∈ (materialize load rowLimit references cache).1 := by
  obtain ⟨h1, h2, h3, h4⟩ := splitCached_spec references hcache
  obtain ⟨h5, h6, h7⟩ := loadRows_spec rowLimit (byRowGroup (splitCached references cache).2.2)
    (fun d hd => hrefs d (h3 d (mem_byRowGroup.mp hd))) h2
  rw [materialize]
  refine ⟨?_, h6, ?_⟩
  · intro e he
    rcases List.mem_append.mp he with he | he
    · exact h1 e he
    · exact h5 e he
  · intro d hd
    rcases h4 d hd with h | ⟨row, h⟩
    · obtain ⟨row, hrow⟩ := h7 d (mem_byRowGroup.mpr h)
      exact ⟨row, List.mem_append_right _ hrow⟩
    · exact ⟨row, List.mem_append_left _ h⟩

omit references hrefs hcache

theorem lookup_isSome_of_mem {rows : List (String × R)} {id : String} {row : R}
    (h : (id, row) ∈ rows) : ∃ row', rows.lookup id = some row' ∧ (id, row') ∈ rows := by
  induction rows with
  | nil => cases h
  | cons e rows ih =>
    obtain ⟨k, v⟩ := e
    by_cases hk : id = k
    · subst hk
      exact ⟨v, by simp, List.mem_cons_self⟩
    · have hmem : (id, row) ∈ rows := by
        rcases List.mem_cons.mp h with h | h
        · exact absurd (congrArg Prod.fst h) hk
        · exact h
      obtain ⟨row', hl, hm⟩ := ih hmem
      have hb : (id == k) = false := beq_false_of_ne hk
      exact ⟨row', by rw [List.lookup_cons, hb]; exact hl, List.mem_cons_of_mem _ hm⟩

variable {table : List Document} {s' : Store R} {job : Job R} {l : Local R}

theorem chunkResults_spec {documents : List Document} (chunk : List Key) (lookup : Lookup)
    (hrefs : ∀ d ∈ firstByDocument (selectRows lookup chunk table), d ∈ documents)
    (hcache : ∀ e ∈ cache, Loaded load documents e) :
    ∀ e ∈ chunkResults chunk (selectRows lookup chunk table) (materialize load rowLimit
        (firstByDocument (selectRows lookup chunk table)) cache).1,
      e.1 ∈ chunk ∧ e.2.map Prod.fst = sortedIds (table.filter e.1.selects)
        ∧ ∀ r ∈ e.2, Loaded load documents r := by
  obtain ⟨h1, -, h3⟩ := materialize_spec rowLimit
    (firstByDocument (selectRows lookup chunk table)) hrefs hcache
  set materialized := (materialize load rowLimit (firstByDocument (selectRows lookup chunk table))
    cache).1
  intro e he
  obtain ⟨key, hkey, rfl⟩ := List.mem_map.mp he
  dsimp only
  rw [← sortedIds_selectRows lookup table hkey]
  -- every selected document has been materialized
  have hall : ∀ id ∈ sortedIds ((selectRows lookup chunk table).filter key.selects),
      ∃ row, materialized.lookup id = some row ∧ (id, row) ∈ materialized := by
    intro id hid
    obtain ⟨d, hd, rfl⟩ := mem_sortedIds.mp hid
    obtain ⟨f, hf, hfid⟩ := exists_firstByDocument (List.mem_filter.mp hd).1
    obtain ⟨row, hrow⟩ := h3 f hf
    rw [hfid] at hrow
    exact lookup_isSome_of_mem hrow
  refine ⟨hkey, ?_, ?_⟩
  · generalize sortedIds ((selectRows lookup chunk table).filter key.selects) = ids at hall ⊢
    induction ids with
    | nil => rfl
    | cons id ids ih =>
      obtain ⟨row, hrow, -⟩ := hall id (by simp)
      rw [List.filterMap_cons_some (by rw [hrow]; rfl), List.map_cons,
        ih (fun i hi => hall i (by simp [hi]))]
  · intro r hr
    obtain ⟨id, hid, hr⟩ := List.mem_filterMap.mp hr
    obtain ⟨row, hrow, hmem⟩ := hall id hid
    rw [hrow] at hr
    cases hr
    exact h1 _ hmem

/-! ## The invariant -/

/-- The shared state: nothing is indexed after completion, the row cache holds rows of indexed
documents, and the query cache holds final answers. -/
structure StoreOk (load : Document → R) (s : Store R) : Prop where
  done : s.complete = true → s.pending = [] ∧ s.initialized = true
  rows : ∀ e ∈ s.rowCache, Loaded load s.documents e
  queries : ∀ e ∈ s.queryCache, s.complete = true ∧ Correct load s.documents e.1 e.2

/-- A call in progress: a late one has found final answers only. -/
structure JobOk (load : Document → R) (s : Store R) (job : Job R) (asking : List Key) : Prop where
  final : job.late = true → s.complete = true ∧ ∀ e ∈ job.results, Correct load s.documents e.1 e.2
  covers : ∀ key ∈ job.lookup.keys,
    key ∈ asking ∨ key ∈ job.missing ∨ ∃ result, (key, result) ∈ job.results

/-- The entries a call has found in `table` and is about to store. -/
def EntriesOk (load : Document → R) (s : Store R) (table : List Document)
    (entries : List (Key × Result R)) : Prop :=
  ∀ e ∈ entries, e.2.map Prod.fst = sortedIds (table.filter e.1.selects)
    ∧ ∀ r ∈ e.2, Loaded load s.documents r

def LocalOk (load : Document → R) (s : Store R) : Local R → Prop
  | .indexer => True
  | .idle _ => True
  | .reading _ _ => s.complete = true
  | .fetching job => JobOk load s job []
  | .fetched job chunk table => JobOk load s job chunk ∧ (∀ d ∈ table, d ∈ s.documents)
      ∧ (job.late = true → table = s.documents)
  | .storing job table entries => JobOk load s job [] ∧ EntriesOk load s table entries
  | .storeLocked job table entry entries => JobOk load s job [] ∧ EntriesOk load s table entries
      ∧ s.complete = true ∧ Correct load s.documents entry.1 entry.2

/-- The table only grows, and not any more once the index is complete. -/
structure Grows (s s' : Store R) : Prop where
  documents : ∀ d ∈ s.documents, d ∈ s'.documents
  final : s.complete = true → s'.complete = true ∧ s'.documents = s.documents

theorem Grows.refl (s : Store R) : Grows s s := ⟨fun _ h => h, fun h => ⟨h, rfl⟩⟩

theorem JobOk.grows {s : Store R} (hg : Grows s s') {asking : List Key}
    (h : JobOk load s job asking) : JobOk load s' job asking := by
  refine ⟨?_, h.covers⟩
  intro hlate
  obtain ⟨hc, hall⟩ := h.final hlate
  obtain ⟨hc', hdoc⟩ := hg.final hc
  exact ⟨hc', by rwa [hdoc]⟩

theorem EntriesOk.grows {s : Store R} (hg : Grows s s') {entries : List (Key × Result R)}
    (h : EntriesOk load s table entries) : EntriesOk load s' table entries :=
  fun e he => ⟨(h e he).1, fun r hr => ((h e he).2 r hr).mono hg.documents⟩

theorem LocalOk.grows {s : Store R} (hg : Grows s s') (h : LocalOk load s l) :
    LocalOk load s' l := by
  cases l with
  | indexer => trivial
  | idle lookups => trivial
  | reading lookup rest => exact (hg.final h).1
  | fetching job => exact JobOk.grows hg h
  | fetched job chunk table =>
    obtain ⟨hjob, hsub, htable⟩ := h
    refine ⟨hjob.grows hg, fun d hd => hg.documents d (hsub d hd), fun hlate => ?_⟩
    rw [(hg.final (hjob.final hlate).1).2]
    exact htable hlate
  | storing job table entries => exact ⟨h.1.grows hg, h.2.grows hg⟩
  | storeLocked job table entry entries =>
    obtain ⟨hjob, hentries, hc, hentry⟩ := h
    obtain ⟨hc', hdoc⟩ := hg.final hc
    exact ⟨hjob.grows hg, hentries.grows hg, hc', by rwa [hdoc]⟩

/-- A result that is about to be stored after completion comes from rows that no commit has
changed since the SQL query: `table` is what the query has seen. -/
def Local.Fresh (s : Store R) : Local R → Prop
  | .storing _ table (entry :: _) => s.complete = true →
      table.filter entry.1.selects = s.documents.filter entry.1.selects
  | _ => True

theorem mem_insertOrIgnore {documents rows : List Document} {d : Document} (h : d ∈ documents) :
    d ∈ rows.foldl insertOrIgnore documents := by
  induction rows generalizing documents with
  | nil => exact h
  | cons e rows ih =>
    refine ih ?_
    unfold insertOrIgnore
    split
    · exact h
    · exact List.mem_append_left _ h

theorem mem_touchAll {cache : Lru Key (Result R)} {keys : List Key} {e : Key × Result R}
    (h : e ∈ keys.foldl (fun cache key => cache.touch key) cache) : e ∈ cache := by
  induction keys generalizing cache with
  | nil => exact h
  | cons key keys ih => exact Lru.mem_touch (ih h)

variable {s : Store R}

theorem afterStore_ok {entries : List (Key × Result R)} (hjob : JobOk load s job [])
    (hentries : EntriesOk load s table entries) :
    LocalOk load s (afterStore job table entries) := by
  cases entries with
  | nil => exact hjob
  | cons e entries => exact ⟨hjob, hentries⟩

/-- What a step has to establish: the new shared and local state, and the call that returns. -/
structure StepOk (load : Document → R) (s : Store R) (r : Local R × Store R × Option (Returned R)) :
    Prop where
  store : StoreOk load r.2.1
  thread : LocalOk load r.2.1 r.1
  grows : Grows s r.2.1
  returned : ∀ a, r.2.2 = some a → a.late = true →
    s.complete = true ∧ (∀ e ∈ a.results, Correct load s.documents e.1 e.2)
      ∧ ∀ key ∈ a.lookup.keys, ∃ result, (key, result) ∈ a.results

variable (hs : StoreOk load s)

include hs

theorem StepOk.quiet (hl : LocalOk load s l) : StepOk load s (l, s, none) :=
  ⟨hs, hl, Grows.refl s, fun _ h => by cases h⟩

theorem indexer_ok : StepOk load s (lookupStep load queryLimit rowLimit .indexer s) := by
  have hrows : ∀ documents : List Document, (∀ d ∈ s.documents, d ∈ documents) →
      ∀ e ∈ s.rowCache, Loaded load documents e := fun _ hsub e he => (hs.rows e he).mono hsub
  simp only [lookupStep]
  cases hi : s.initialized with
  | false =>
    -- nothing is complete or cached yet
    have hc : s.complete = false := by
      rw [← Bool.not_eq_true]
      intro hc
      rw [(hs.done hc).2] at hi
      cases hi
    rw [if_neg (by simp)]
    refine ⟨⟨fun h => ?_, hs.rows, fun e he => hs.queries e he⟩, trivial,
      ⟨fun _ h => h, fun h => ⟨h, rfl⟩⟩, fun _ h => by cases h⟩
    rw [hc] at h
    cases h
  | true =>
    rw [if_pos rfl]
    cases hp : s.pending with
    | nil =>
      exact ⟨⟨fun _ => ⟨rfl, rfl⟩, hs.rows, fun e he => ⟨rfl, (hs.queries e he).2⟩⟩, trivial,
        ⟨fun _ h => h, fun _ => ⟨rfl, rfl⟩⟩, fun _ h => by cases h⟩
    | cons action pending =>
      -- work is left, so the index is not complete and the query cache is empty
      have hc : ∀ {Q : Prop}, s.complete = true → Q := by
        intro Q hc
        have := (hs.done hc).1
        rw [hp] at this
        cases this
      cases action with
      | commit rows =>
        exact ⟨⟨fun h => hc h, hrows _ (fun d hd => mem_insertOrIgnore hd),
          fun e he => hc (hs.queries e he).1⟩, trivial,
          ⟨fun d hd => mem_insertOrIgnore hd, fun h => hc h⟩, fun _ h => by cases h⟩
      | clearRowCache =>
        exact ⟨⟨fun h => hc h, by simp, fun e he => hc (hs.queries e he).1⟩, trivial,
          ⟨fun _ h => h, fun h => hc h⟩, fun _ h => by cases h⟩

theorem start_ok (lookup : Lookup) (rest : List Lookup) :
    StepOk load s (lookupStep load queryLimit rowLimit (.idle (lookup :: rest)) s) := by
  simp only [lookupStep]
  by_cases hi : s.initialized = true
  · rw [if_pos hi]
    by_cases hc : s.complete = true
    · rw [if_pos hc]
      exact .quiet hs hc
    · rw [if_neg hc]
      refine .quiet hs ⟨fun h => ?_, fun key hk => Or.inr (Or.inl hk)⟩
      cases h
  · rw [if_neg hi]
    exact ⟨hs, trivial, Grows.refl s, fun a ha hlate => by cases ha; cases hlate⟩

theorem reading_ok (hc : s.complete = true) (lookup : Lookup) (rest : List Lookup) :
    StepOk load s (lookupStep load queryLimit rowLimit (.reading lookup rest) s) := by
  simp only [lookupStep]
  refine ⟨⟨hs.done, hs.rows, fun e he => hs.queries e (mem_touchAll he)⟩, ⟨fun _ => ⟨hc, ?_⟩, ?_⟩,
    ⟨fun _ h => h, fun h => ⟨h, rfl⟩⟩, fun _ h => by cases h⟩
  · intro e he
    obtain ⟨key, -, he⟩ := List.mem_filterMap.mp he
    obtain ⟨result, hget, rfl⟩ := Option.map_eq_some_iff.mp he
    exact (hs.queries _ (Lru.mem_of_get hget)).2
  · intro key hk
    cases hget : s.queryCache.get key with
    | none => exact Or.inr (Or.inl (List.mem_filter.mpr ⟨hk, by rw [hget]; rfl⟩))
    | some result =>
      exact Or.inr (Or.inr ⟨result, List.mem_filterMap.mpr ⟨key, hk, by rw [hget]; rfl⟩⟩)

theorem fetching_ok (hjob : JobOk load s job []) :
    StepOk load s (lookupStep load queryLimit rowLimit (.fetching job) s) := by
  simp only [lookupStep]
  by_cases hm : job.missing = []
  · rw [if_pos hm]
    refine ⟨hs, trivial, Grows.refl s, fun a ha hlate => ?_⟩
    cases ha
    refine ⟨(hjob.final hlate).1, (hjob.final hlate).2, fun key hk => ?_⟩
    have hcov := hjob.covers key hk
    rw [hm] at hcov
    simpa using hcov
  · rw [if_neg hm]
    refine .quiet hs ⟨⟨hjob.final, fun key hk => ?_⟩, fun _ h => h, fun _ => rfl⟩
    rcases hjob.covers key hk with h | h | h
    · cases h
    · rw [← List.take_append_drop titleQueryBatchSize job.missing, List.mem_append] at h
      exact h.elim Or.inl (fun h => Or.inr (Or.inl h))
    · exact Or.inr (Or.inr h)

theorem fetched_ok {chunk : List Key} (hjob : JobOk load s job chunk)
    (hsub : ∀ d ∈ table, d ∈ s.documents) (htable : job.late = true → table = s.documents) :
    StepOk load s (lookupStep load queryLimit rowLimit (.fetched job chunk table) s) := by
  set references := firstByDocument (selectRows job.lookup chunk table) with hrefs
  have hrefsub : ∀ d ∈ references, d ∈ s.documents := fun d hd =>
    hsub d (mem_selectRows.mp (mem_firstByDocument hd)).1
  obtain ⟨-, hcache, -⟩ := materialize_spec rowLimit references hrefsub hs.rows
  have hentries := chunkResults_spec rowLimit chunk job.lookup hrefsub hs.rows
  rw [← hrefs] at hentries
  have hs' : StoreOk load { s with
      rowCache := (materialize load rowLimit references s.rowCache).2 } :=
    ⟨hs.done, hcache, hs.queries⟩
  refine ⟨hs', afterStore_ok ⟨fun hlate => ⟨(hjob.final hlate).1, ?_⟩, ?_⟩
    (fun e he => (hentries e he).2), ⟨fun _ h => h, fun h => ⟨h, rfl⟩⟩, fun _ h => by cases h⟩
  · intro e he
    rcases List.mem_append.mp he with he | he
    · exact (hjob.final hlate).2 e he
    · have h := (hentries e he).2
      rw [htable hlate] at h
      exact h
  · intro key hk
    rcases hjob.covers key hk with h | h | ⟨result, h⟩
    · refine Or.inr (Or.inr ⟨_, List.mem_append_right _ (List.mem_map.mpr ⟨key, h, rfl⟩)⟩)
    · exact Or.inr (Or.inl h)
    · exact Or.inr (Or.inr ⟨result, List.mem_append_left _ h⟩)

/-- **One step** of any thread, if it does not store a stale result. -/
theorem lookupStep_ok (hl : LocalOk load s l) (hfresh : l.Fresh s) :
    StepOk load s (lookupStep load queryLimit rowLimit l s) := by
  match l with
  | .indexer => exact indexer_ok queryLimit rowLimit hs
  | .idle [] => exact .quiet hs trivial
  | .idle (lookup :: rest) => exact start_ok queryLimit rowLimit hs lookup rest
  | .reading lookup rest => exact reading_ok queryLimit rowLimit hs hl lookup rest
  | .fetching job => exact fetching_ok queryLimit rowLimit hs hl
  | .fetched job chunk table => exact fetched_ok queryLimit rowLimit hs hl.1 hl.2.1 hl.2.2
  | .storing job table [] => exact .quiet hs (afterStore_ok hl.1 hl.2)
  | .storing job table (entry :: entries) =>
    have hrest : EntriesOk load s table entries := fun e he => hl.2 e (by simp [he])
    simp only [lookupStep]
    by_cases hc : s.complete = true
    · rw [if_pos hc]
      refine .quiet hs ⟨hl.1, hrest, hc, ?_⟩
      obtain ⟨hids, hloaded⟩ := hl.2 entry (by simp)
      rw [hfresh hc] at hids
      exact ⟨hids, hloaded⟩
    · rw [if_neg hc]
      exact .quiet hs (afterStore_ok hl.1 hrest)
  | .storeLocked job table entry entries =>
    obtain ⟨hjob, hentries, hc, hentry⟩ := hl
    have hg : Grows s { s with queryCache := s.queryCache.put queryLimit entry.1 entry.2 } :=
      ⟨fun _ h => h, fun h => ⟨h, rfl⟩⟩
    refine ⟨⟨hs.done, hs.rows, fun e he => ?_⟩, (afterStore_ok hjob hentries).grows hg, hg,
      fun _ h => by cases h⟩
    rcases Lru.mem_put he with rfl | he
    · exact ⟨hc, hentry⟩
    · exact hs.queries e he

omit hs

/-! ## Every interleaving -/

/-- The steps the given calls need at most. -/
def restWork (lookups : List Lookup) : Nat := (lookups.map (fun l => 5 * l.keys.length + 3)).sum

def Job.work (job : Job R) : Nat := 5 * job.missing.length + 1 + restWork job.rest

/-- The steps a thread needs at most to return from all its calls. -/
def Local.work : Local R → Nat
  | .indexer => 0
  | .idle lookups => restWork lookups
  | .reading lookup rest => 5 * lookup.keys.length + 2 + restWork rest
  | .fetching job => job.work
  | .fetched job chunk _ => 2 * chunk.length + 2 + job.work
  | .storing job _ entries => 2 * entries.length + 1 + job.work
  | .storeLocked job _ _ entries => 2 * entries.length + 2 + job.work

theorem afterStore_work (job : Job R) (table : List Document) (entries : List (Key × Result R)) :
    (afterStore job table entries).work ≤ 2 * entries.length + 1 + job.work := by
  cases entries with
  | nil =>
    show job.work ≤ _
    omega
  | cons e entries => exact Nat.le_refl _

theorem lookupStep_work (l : Local R) (s : Store R) :
    (lookupStep load queryLimit rowLimit l s).1.work ≤ l.work - 1 := by
  match l with
  | .indexer =>
    have h : (lookupStep load queryLimit rowLimit .indexer s).1 = .indexer := by
      simp only [lookupStep]
      split
      · split <;> rfl
      · rfl
    rw [h]
    exact Nat.zero_le _
  | .idle [] => exact Nat.zero_le _
  | .idle (lookup :: rest) =>
    have hw : (Local.idle (R := R) (lookup :: rest)).work
        = 5 * lookup.keys.length + 3 + restWork rest := by
      simp [Local.work, restWork]
    rw [hw]
    simp only [lookupStep]
    split
    · split
      · show 5 * lookup.keys.length + 2 + restWork rest ≤ _
        omega
      · show 5 * lookup.keys.length + 1 + restWork rest ≤ _
        omega
    · show restWork rest ≤ _
      omega
  | .reading lookup rest =>
    have hlen := List.length_filter_le (fun key => (s.queryCache.get key).isNone) lookup.keys
    show 5 * (lookup.keys.filter (fun key => (s.queryCache.get key).isNone)).length + 1
      + restWork rest ≤ 5 * lookup.keys.length + 2 + restWork rest - 1
    omega
  | .fetching job =>
    simp only [lookupStep]
    split
    · show restWork job.rest ≤ 5 * job.missing.length + 1 + restWork job.rest - 1
      omega
    · rename_i hm
      have hpos : 0 < job.missing.length := List.length_pos_iff.mpr hm
      show 2 * (job.missing.take titleQueryBatchSize).length + 2
        + (5 * (job.missing.drop titleQueryBatchSize).length + 1 + restWork job.rest)
          ≤ 5 * job.missing.length + 1 + restWork job.rest - 1
      rw [List.length_take, List.length_drop]
      simp only [titleQueryBatchSize]
      omega
  | .fetched job chunk table =>
    refine Nat.le_trans (afterStore_work _ _ _) ?_
    show 2 * (chunkResults _ _ _).length + 1 + job.work ≤ 2 * chunk.length + 2 + job.work - 1
    rw [chunkResults, List.length_map]
    omega
  | .storing job table [] =>
    show job.work ≤ 2 * 0 + 1 + job.work - 1
    omega
  | .storing job table (entry :: entries) =>
    simp only [lookupStep]
    split
    · show 2 * entries.length + 2 + job.work ≤ 2 * (entries.length + 1) + 1 + job.work - 1
      omega
    · refine Nat.le_trans (afterStore_work _ _ _) ?_
      show _ ≤ 2 * (entries.length + 1) + 1 + job.work - 1
      omega
  | .storeLocked job table entry entries =>
    refine Nat.le_trans (afterStore_work _ _ _) ?_
    show _ ≤ 2 * entries.length + 2 + job.work - 1
    omega

theorem lookupStep_ne_indexer (l : Local R) (s : Store R) (h : l ≠ .indexer) :
    (lookupStep load queryLimit rowLimit l s).1 ≠ .indexer := by
  have hafter : ∀ (job : Job R) table entries, afterStore job table entries ≠ .indexer := by
    intro job table entries
    cases entries <;> exact fun h => by cases h
  match l with
  | .indexer => exact absurd rfl h
  | .idle [] => exact h
  | .idle (lookup :: rest) =>
    simp only [lookupStep]
    split
    · split <;> exact fun h => by cases h
    · exact fun h => by cases h
  | .reading lookup rest => exact fun h => by cases h
  | .fetching job =>
    simp only [lookupStep]
    split <;> exact fun h => by cases h
  | .fetched job chunk table => exact hafter _ _ _
  | .storing job table [] => exact hafter job table []
  | .storing job table (entry :: entries) =>
    simp only [lookupStep]
    split
    · exact fun h => by cases h
    · exact hafter _ _ _
  | .storeLocked job table entry entries => exact hafter _ _ _

theorem eq_idle_of_work (hl : l ≠ .indexer) (h : l.work = 0) : l = .idle [] := by
  cases l with
  | indexer => exact absurd rfl hl
  | idle lookups =>
    cases lookups with
    | nil => rfl
    | cons lookup rest =>
      simp only [Local.work, restWork, List.map_cons, List.sum_cons] at h
      omega
  | reading lookup rest => simp only [Local.work] at h; omega
  | fetching job => simp only [Local.work, Job.work] at h; omega
  | fetched job chunk table => simp only [Local.work] at h; omega
  | storing job table entries => simp only [Local.work] at h; omega
  | storeLocked job table entry entries => simp only [Local.work] at h; omega

variable {ι : Type} [DecidableEq ι]

/-- The start: the indexing thread has `pending` in front of it, the caches are empty. A thread
without calls (`none`) is the indexing thread. -/
def startLookups (documents : List Document) (pending : List IndexAction) (initialized : Bool)
    (calls : ι → Option (List Lookup)) : Config ι (Local R) (Store R) where
  threads := fun t => match calls t with
    | none => .indexer
    | some lookups => .idle lookups
  shared := ⟨documents, pending, initialized, false, [], []⟩

/-- No thread stores, after completion, a result for whose key a row was committed since the
thread's SQL query. -/
def StoreIsFresh (t : ι) (c : Config ι (Local R) (Store R)) : Prop := (c.threads t).Fresh c.shared

def ConfigOk (load : Document → R) (c : Config ι (Local R) (Store R)) : Prop :=
  StoreOk load c.shared ∧ ∀ t, LocalOk load c.shared (c.threads t)

theorem configOk_step {t : ι} {c : Config ι (Local R) (Store R)} (hc : ConfigOk load c)
    (hfresh : StoreIsFresh t c) :
    ConfigOk load (c.step (lookupStep load queryLimit rowLimit) t) := by
  have h := lookupStep_ok queryLimit rowLimit hc.1 (hc.2 t) hfresh
  refine ⟨h.store, fun u => ?_⟩
  by_cases hu : u = t
  · subst hu
    simp only [Config.step, Function.update_self]
    exact h.thread
  · simp only [Config.step, Function.update_of_ne hu]
    exact (hc.2 u).grows h.grows

omit [DecidableEq ι] in
theorem configOk_start (documents : List Document) (pending : List IndexAction)
    (initialized : Bool) (calls : ι → Option (List Lookup)) :
    ConfigOk load (startLookups documents pending initialized calls) := by
  refine ⟨⟨fun h => (by cases h), by simp [startLookups], by simp [startLookups]⟩, fun t => ?_⟩
  simp only [startLookups]
  cases calls t with
  | none => trivial
  | some lookups => trivial

/-- A late call that has returned: everything is indexed, and the call has for each of its keys
exactly the documents of the index. -/
structure FinalAnswer (load : Document → R) (a : Returned R) (s : Store R) : Prop where
  indexed : s.complete = true ∧ s.pending = []
  covers : ∀ key ∈ a.lookup.keys, ∃ result, (key, result) ∈ a.results
  correct : ∀ e ∈ a.results, Correct load s.documents e.1 e.2

/-- **Finality.** In every interleaving in which no stale result is stored, every call that
started after completion returns the documents of all indexed shards that match its keys. Every
thread returns from all its calls when it gets enough steps. -/
theorem lookups_final (documents : List Document) (pending : List IndexAction)
    (initialized : Bool) (calls : ι → Option (List Lookup)) (schedule : List ι)
    (hfresh : (startLookups documents pending initialized calls).Along
      (lookupStep load queryLimit rowLimit) StoreIsFresh schedule) :
    let start := startLookups documents pending initialized calls
    let final := start.run (lookupStep load queryLimit rowLimit) schedule
    (∀ e ∈ start.effects (lookupStep load queryLimit rowLimit) schedule,
        e.2.late = true → FinalAnswer load e.2 final.shared)
      ∧ ∀ t lookups, calls t = some lookups → restWork lookups ≤ schedule.count t →
        final.threads t = .idle [] := by
  intro start final
  constructor
  · refine Config.run_effects (R := fun a c => a.late = true → FinalAnswer load a c.shared)
      (fun t c hc hf => configOk_step queryLimit rowLimit hc hf) ?_ ?_
      schedule (configOk_start documents pending initialized calls) hfresh
    · intro t c a hc hf ha hlate
      have h := lookupStep_ok queryLimit rowLimit hc.1 (hc.2 t) hf
      obtain ⟨hcomplete, hcorrect, hcovers⟩ := h.returned a ha hlate
      obtain ⟨hc', hdoc⟩ := h.grows.final hcomplete
      refine ⟨⟨hc', (h.store.done hc').1⟩, hcovers, ?_⟩
      show ∀ e ∈ a.results, Correct load (lookupStep load queryLimit rowLimit (c.threads t)
        c.shared).2.1.documents e.1 e.2
      rw [hdoc]
      exact hcorrect
    · intro t c a hc hf ha hlate
      have h := lookupStep_ok queryLimit rowLimit hc.1 (hc.2 t) hf
      obtain ⟨⟨hcomplete, -⟩, hcovers, hcorrect⟩ := ha hlate
      obtain ⟨hc', hdoc⟩ := h.grows.final hcomplete
      refine ⟨⟨hc', (h.store.done hc').1⟩, hcovers, ?_⟩
      show ∀ e ∈ a.results, Correct load (lookupStep load queryLimit rowLimit (c.threads t)
        c.shared).2.1.documents e.1 e.2
      rw [hdoc]
      exact hcorrect
  · intro t lookups ht hcount
    have hstart : start.threads t = .idle lookups := by
      simp only [start, startLookups, ht]
    have hwork : (final.threads t).work ≤ (start.threads t).work - schedule.count t :=
      Config.run_work Local.work (fun l s => lookupStep_work queryLimit rowLimit l s) schedule start
        t
    have hcalls : final.threads t ≠ .indexer :=
      Config.run_thread (fun l s => lookupStep_ne_indexer queryLimit rowLimit l s) schedule start
        (by rw [hstart]; exact fun h => by cases h)
    refine eq_idle_of_work hcalls ?_
    rw [hstart] at hwork
    have : (Local.idle (R := R) lookups).work = restWork lookups := rfl
    omega

end

/-! ## A miss that became final too early -/

namespace Example

/-- The one document of the index. -/
def indexedDocument : Document :=
  ⟨"Q1:wikipedia:en:1:1", "wikipedia/documents/a.parquet", false, "en", "a", 1, 1, "Q1", 0, 0⟩

def titleA : Lookup := .query (.title "en" "a")

/-- Thread `0` indexes, thread `1` looks the title up early, thread `2` late. -/
def threads (t : Fin 3) : Option (List Lookup) := if t = 0 then none else some [titleA]

/-- The state in which the document still has to be committed. -/
def early : Config (Fin 3) (Local Unit) (Store Unit) :=
  startLookups [] [.commit [indexedDocument]] true threads

/-- The early lookup returns before the commit. -/
def calm : List (Fin 3) := [1, 1, 1, 1, 1, 0, 0, 2, 2, 2, 2, 2, 2, 2]

/-- When the early lookup has returned before the commit, the late one finds the document. -/
theorem late_lookup_final : early.Along (lookupStep (fun _ => ()) 4096 10000) StoreIsFresh calm
      ∧ ∀ e ∈ early.effects (lookupStep (fun _ => ()) 4096 10000) calm, e.2.late = true →
        FinalAnswer (fun _ => ()) e.2
          (early.run (lookupStep (fun _ => ()) 4096 10000) calm).shared := by
  have hfresh : early.Along (lookupStep (fun _ => ()) 4096 10000) StoreIsFresh calm :=
    ⟨trivial, trivial, trivial, fun h => absurd h (by decide), trivial, trivial, trivial, trivial,
      trivial, trivial, trivial, fun _ => rfl, trivial, trivial, trivial⟩
  exact ⟨hfresh, (lookups_final 4096 10000 [] [.commit [indexedDocument]] true threads calm
    hfresh).1⟩

/-- The early lookup queries before the commit and stores its miss after completion; the late one
returns it, although the document is indexed. -/
theorem stale_miss_returned :
    ((2, ⟨titleA, true, [(.title "en" "a", [])]⟩) : Fin 3 × Returned Unit) ∈ early.effects
        (lookupStep (fun _ => ()) 4096 10000) [1, 1, 0, 0, 1, 1, 1, 1, 2, 2, 2]
      ∧ ¬ Correct (fun _ => ()) (early.run (lookupStep (fun _ => ()) 4096 10000)
        [1, 1, 0, 0, 1, 1, 1, 1, 2, 2, 2]).shared.documents (.title "en" "a") [] := by
  refine ⟨by decide, ?_⟩
  intro h
  exact absurd h.1 (by decide)

end Example

end OsmPolygonWikidata.V1Index
