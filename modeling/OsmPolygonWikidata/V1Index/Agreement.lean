import OsmPolygonWikidata.V1Index.BuiltIndexes

/-! # When the two indexes give the same answers

A call of the SQLite index finds a document through any of its rows, and answers with the row of
the shard with the smallest path. The in-memory index knows only the first row, in the order of
the files. So the two agree if and only if these rows of a document agree
(`indexes_agree_iff`). Then the caches do not matter either.
-/

namespace OsmPolygonWikidata.V1Index

open Durable Python

/-! ## Comparing the answers -/

/-- What the comparison relies on: the rows of the table, those of them that come first, and the
document row of each. -/
structure Views (table first : List Document) (load : Document → DocumentRow) : Prop where
  unique : ∀ d ∈ table, ∀ e ∈ table, d.documentId = e.documentId → d.sourcePath = e.sourcePath →
    d = e
  first_mem : ∀ m ∈ first, m ∈ table
  first_nodup : (first.map Document.documentId).Nodup
  first_of : ∀ d ∈ table, ∃ m ∈ first, m.documentId = d.documentId
  documentId : ∀ d ∈ table, pyStr (load d).documentId = d.documentId

/-- The rows of a document agree: all of them are found under the same keys, and the one with the
smallest path is the first one. -/
structure SameRows (table first : List Document) (load : Document → DocumentRow) : Prop where
  keys : ∀ d ∈ table, ∀ m ∈ first, m.documentId = d.documentId →
    d.language = m.language ∧ d.titleKey = m.titleKey ∧ d.pageId = m.pageId ∧ d.qid = m.qid
  qid : ∀ d ∈ table, d.qid ≠ ""
  row : ∀ d ∈ table, (∀ e ∈ table, e.documentId = d.documentId → d.sourcePath ≤ e.sourcePath) →
    ∀ m ∈ first, m.documentId = d.documentId → load d = load m

section

variable {table first : List Document} {load : Document → DocumentRow}

/-- The answer of the in-memory index, with the identifiers of its rows. -/
def memoryResult (first : List Document) (load : Document → DocumentRow) (key : Key) :
    Result DocumentRow :=
  ((first.filter key.keeps).insertionSort (fun d e => d.documentId ≤ e.documentId)).map
    (fun d => (d.documentId, load d))

theorem memoryResult_rows (hviews : Views table first load) (key : Key) :
    (memoryResult first load key).map Prod.snd
      = freezeRows ((first.filter key.keeps).map load) := by
  have hmem : ∀ d ∈ first.filter key.keeps, pyStr (load d).documentId = d.documentId :=
    fun d hd => hviews.documentId d (hviews.first_mem d (List.mem_filter.mp hd).1)
  rw [memoryResult, List.map_map, freezeRows]
  apply List.map_insertionSort
  intro d hd e he
  show d.documentId ≤ e.documentId ↔ pyStr (load d).documentId ≤ pyStr (load e).documentId
  rw [hmem d hd, hmem e he]

theorem memoryResult_ids (hviews : Views table first load) (key : Key) :
    (memoryResult first load key).map Prod.fst = sortedIds (first.filter key.keeps) := by
  have hnodup : ((first.filter key.keeps).map Document.documentId).Nodup :=
    hviews.first_nodup.sublist (List.filter_sublist.map _)
  rw [memoryResult, List.map_map, sortedIds, List.dedup_eq_self.mpr hnodup]
  apply List.map_insertionSort
  intro d _ e _
  rfl

theorem memoryResult_loaded {key : Key} {e : String × DocumentRow}
    (he : e ∈ memoryResult first load key) : Loaded load first e := by
  obtain ⟨d, hd, rfl⟩ := List.mem_map.mp he
  exact ⟨d, (List.mem_filter.mp ((List.mem_insertionSort _).mp hd)).1, rfl, rfl⟩

theorem firstByDocument_le {r : Document → Document → Prop} (hrefl : ∀ d, r d d)
    {rows : List Document} (hsorted : rows.Pairwise r) {d e : Document}
    (hd : d ∈ firstByDocument rows) (he : e ∈ rows) (hid : e.documentId = d.documentId) : r d e := by
  induction rows with
  | nil => cases he
  | cons f rows ih =>
    obtain ⟨hf, hrows⟩ := List.pairwise_cons.mp hsorted
    rw [firstByDocument, List.mem_cons] at hd
    rcases hd with rfl | hd
    · rcases List.mem_cons.mp he with rfl | he'
      · exact hrefl _
      · exact hf e he'
    · obtain ⟨hd, hne⟩ := List.mem_filter.mp hd
      have hef : e ∈ rows := by
        rcases List.mem_cons.mp he with rfl | he'
        · rw [← hid] at hne
          simp at hne
        · exact he'
      exact ih hrows hd hef

theorem selectRows_sorted (lookup : Lookup) (chunk : List Key) (table : List Document) :
    (selectRows lookup chunk table).Pairwise
      (fun a b => lookup.orderColumns a ≤ lookup.orderColumns b) := by
  have htotal : Std.Total (fun a b : Document => lookup.orderColumns a ≤ lookup.orderColumns b) :=
    ⟨fun a b => le_total _ _⟩
  have htrans : IsTrans Document (fun a b => lookup.orderColumns a ≤ lookup.orderColumns b) :=
    ⟨fun a b c => le_trans⟩
  exact List.pairwise_insertionSort _ _

theorem orderColumns_le {lookup : Lookup} {d e : Document} (hlanguage : d.language = e.language)
    (htitle : d.titleKey = e.titleKey) (hid : d.documentId = e.documentId)
    (hle : lookup.orderColumns d ≤ lookup.orderColumns e) : d.sourcePath ≤ e.sourcePath := by
  by_contra hnot
  have hlt : e.sourcePath < d.sourcePath := not_le.mp hnot
  have hcolumns : lookup.orderColumns e < lookup.orderColumns d := by
    cases lookup with
    | query key =>
      rw [Lookup.orderColumns, Lookup.orderColumns, hid]
      exact List.Lex.cons (List.Lex.rel hlt)
    | titles keys =>
      rw [Lookup.orderColumns, Lookup.orderColumns, hlanguage, htitle, hid]
      exact List.Lex.cons (List.Lex.cons (List.Lex.cons (List.Lex.rel hlt)))
  exact absurd hle (not_le.mpr hcolumns)

/-- The rows with the smallest path. -/
def smallest (table : List Document) : List Document :=
  table.filter (fun d =>
    table.all (fun e => !(decide (e.documentId = d.documentId)) || decide (d.sourcePath ≤ e.sourcePath)))

theorem mem_smallest {d : Document} : d ∈ smallest table ↔ d ∈ table
      ∧ ∀ e ∈ table, e.documentId = d.documentId → d.sourcePath ≤ e.sourcePath := by
  simp only [smallest, List.mem_filter, List.all_eq_true, Bool.or_eq_true, Bool.not_eq_true',
    decide_eq_false_iff_not, decide_eq_true_eq, imp_iff_not_or]

theorem SameRows.selects_iff (hsame : SameRows table first load) (hviews : Views table first load)
    {d e : Document} (hd : d ∈ table) (he : e ∈ table) (hid : e.documentId = d.documentId)
    (key : Key) : key.selects d = key.selects e := by
  obtain ⟨m, hm, hmd⟩ := hviews.first_of d hd
  obtain ⟨h1, h2, h3, h4⟩ := hsame.keys d hd m hm hmd
  obtain ⟨h1', h2', h3', h4'⟩ := hsame.keys e he m hm (hmd.trans hid.symm)
  cases key <;> simp [Key.selects, h1, h2, h3, h4, h1', h2', h3', h4']

theorem SameRows.references (hsame : SameRows table first load) (hviews : Views table first load)
    (lookup : Lookup) (chunk : List Key) :
    ∀ d ∈ firstByDocument (selectRows lookup chunk table), d ∈ smallest table := by
  intro d hd
  obtain ⟨htable, key, hkey, hselects⟩ := mem_selectRows.mp (mem_firstByDocument hd)
  refine mem_smallest.mpr ⟨htable, ?_⟩
  intro e he hid
  have hselected : e ∈ selectRows lookup chunk table :=
    mem_selectRows.mpr ⟨he, key, hkey, by
      rw [← hsame.selects_iff hviews htable he hid]
      exact hselects⟩
  have hle := firstByDocument_le (fun d => le_refl (lookup.orderColumns d))
    (selectRows_sorted lookup chunk table) hd hselected hid
  obtain ⟨m, hm, hmd⟩ := hviews.first_of d htable
  obtain ⟨h1, h2, -⟩ := hsame.keys d htable m hm hmd
  obtain ⟨h1', h2', -⟩ := hsame.keys e he m hm (hmd.trans hid.symm)
  exact orderColumns_le (h1.trans h1'.symm) (h2.trans h2'.symm) hid.symm hle

theorem SameRows.sortedIds_eq (hsame : SameRows table first load)
    (hviews : Views table first load) (key : Key) :
    sortedIds (table.filter key.selects) = sortedIds (first.filter key.keeps) := by
  have hkeeps : ∀ d ∈ table, key.keeps d = key.selects d := by
    intro d hd
    cases key with
    | page language pageId => simp [Key.keeps]
    | title language title => simp [Key.keeps]
    | qid value =>
      by_cases hvalue : value = ""
      · have hne : ¬ d.qid = "" := hsame.qid d hd
        simp [Key.keeps, Key.selects, hvalue, hne]
      · simp [Key.keeps, hvalue]
  apply sortedIds_congr
  intro id
  constructor
  · intro hmem
    obtain ⟨d, hd, rfl⟩ := List.mem_map.mp hmem
    obtain ⟨hd, hselects⟩ := List.mem_filter.mp hd
    obtain ⟨m, hm, hmd⟩ := hviews.first_of d hd
    rw [← hmd]
    refine List.mem_map_of_mem (List.mem_filter.mpr ⟨hm, ?_⟩)
    rw [hkeeps m (hviews.first_mem m hm), ← hsame.selects_iff hviews hd (hviews.first_mem m hm) hmd]
    exact hselects
  · intro hmem
    obtain ⟨m, hm, rfl⟩ := List.mem_map.mp hmem
    obtain ⟨hm, hselects⟩ := List.mem_filter.mp hm
    have htable := hviews.first_mem m hm
    rw [hkeeps m htable] at hselects
    exact List.mem_map_of_mem (List.mem_filter.mpr ⟨htable, hselects⟩)

theorem pairs_eq {l l' : List (String × DocumentRow)} {p : String × DocumentRow → Prop}
    (hp : ∀ id row row', p (id, row) → p (id, row') → row = row')
    (hids : l.map Prod.fst = l'.map Prod.fst) (hl : ∀ e ∈ l, p e) (hl' : ∀ e ∈ l', p e) : l = l' := by
  induction l generalizing l' with
  | nil => exact (List.map_eq_nil_iff.mp hids.symm).symm
  | cons e l ih =>
    cases l' with
    | nil => cases hids
    | cons e' l' =>
      obtain ⟨hhead, htail⟩ := List.cons.inj hids
      obtain ⟨id, row⟩ := e
      obtain ⟨id', row'⟩ := e'
      cases hhead
      rw [hp id row row' (hl _ List.mem_cons_self) (hl' _ List.mem_cons_self),
        ih htail (fun e he => hl e (List.mem_cons_of_mem _ he))
          (fun e he => hl' e (List.mem_cons_of_mem _ he))]

/-! ## The calls of the SQLite index -/

variable {E : Type} {loadE : Document → Except E DocumentRow} (queryLimit rowLimit : Nat)

theorem materializeRows_eq {references : List Document}
    (hload : ∀ d ∈ references, loadE d = .ok (load d)) (cache : Lru String DocumentRow) :
    materializeRows loadE rowLimit references cache
      = (.ok (loadRows load rowLimit references cache).1,
        (loadRows load rowLimit references cache).2) := by
  induction references generalizing cache with
  | nil => rfl
  | cons d references ih =>
    simp only [materializeRows, hload d List.mem_cons_self,
      ih (fun e he => hload e (List.mem_cons_of_mem d he)), loadRows]

theorem fetchChunk_eq {documents : List Document} (lookup : Lookup) (chunk : List Key)
    (hload : ∀ d ∈ documents, loadE d = .ok (load d))
    (hrefs : ∀ d ∈ firstByDocument (selectRows lookup chunk table), d ∈ documents)
    {caches : Caches DocumentRow} (hcache : ∀ e ∈ caches.rows, Loaded load documents e) :
    ∃ entries, fetchChunk loadE queryLimit rowLimit table lookup chunk caches
        = (.ok entries, ⟨(materialize load rowLimit
            (firstByDocument (selectRows lookup chunk table)) caches.rows).2,
          entries.foldl (fun cache e => cache.put queryLimit e.1 e.2) caches.queries⟩)
      ∧ entries.map Prod.fst = chunk
      ∧ ∀ e ∈ entries, e.2.map Prod.fst = sortedIds (table.filter e.1.selects)
        ∧ ∀ r ∈ e.2, Loaded load documents r := by
  have hspec := chunkResults_spec rowLimit chunk lookup hrefs hcache
  obtain ⟨-, -, hmissing, -⟩ := splitCached_spec
    (firstByDocument (selectRows lookup chunk table)) hcache
  refine ⟨_, ?_, ?_, fun e he => (hspec e he).2⟩
  · have hreferences : ∀ d ∈ byRowGroup (splitCached (firstByDocument
        (selectRows lookup chunk table)) caches.rows).2.2, loadE d = .ok (load d) :=
      fun d hd => hload d (hrefs d (hmissing d (mem_byRowGroup.mp hd)))
    simp only [fetchChunk, materializeRows_eq rowLimit hreferences, materialize]
  · rw [chunkResults, List.map_map]
    exact List.map_id' _

theorem mem_foldl_put {entries : List (Key × Result DocumentRow)}
    {cache : Lru Key (Result DocumentRow)} {e : Key × Result DocumentRow}
    (h : e ∈ entries.foldl (fun cache e => cache.put queryLimit e.1 e.2) cache) :
    e ∈ entries ∨ e ∈ cache := by
  induction entries generalizing cache with
  | nil => exact Or.inr h
  | cons f entries ih =>
    rcases ih h with hmem | hput
    · exact Or.inl (List.mem_cons_of_mem f hmem)
    · rcases Lru.mem_put hput with rfl | hcache
      · exact Or.inl List.mem_cons_self
      · exact Or.inr hcache

theorem mem_titleChunks {missing : List Key} {key : Key} :
    key ∈ (titleChunks missing).flatten ↔ key ∈ missing := by
  rw [List.mem_flatten]
  constructor
  · rintro ⟨chunk, hchunk, hkey⟩
    obtain ⟨i, -, rfl⟩ := List.mem_map.mp hchunk
    exact List.mem_of_mem_drop (List.mem_of_mem_take hkey)
  · intro hkey
    obtain ⟨j, hj, rfl⟩ := List.getElem_of_mem hkey
    refine ⟨(missing.drop (titleQueryBatchSize * (j / titleQueryBatchSize))).take
      titleQueryBatchSize, ?_, ?_⟩
    · refine List.mem_map.mpr ⟨j / titleQueryBatchSize, ?_, rfl⟩
      rw [List.mem_range]
      unfold titleQueryBatchSize
      omega
    · rw [List.mem_take_iff_getElem]
      refine ⟨j % titleQueryBatchSize, ?_, ?_⟩
      · rw [List.length_drop]
        unfold titleQueryBatchSize
        omega
      · rw [List.getElem_drop]
        congr 1
        exact Nat.div_add_mod j titleQueryBatchSize

/-- The caches hold rows of some of the documents, and right answers. -/
structure CachesHold (documents : List Document) (load : Document → DocumentRow)
    (right : Key → Result DocumentRow → Prop) (caches : Caches DocumentRow) : Prop where
  rows : ∀ e ∈ caches.rows, Loaded load documents e
  queries : ∀ e ∈ caches.queries, right e.1 e.2

section

variable {documents : List Document} {right : Key → Result DocumentRow → Prop}
variable (hload : ∀ d ∈ documents, loadE d = .ok (load d))
variable (hrefs : ∀ lookup chunk, ∀ d ∈ firstByDocument (selectRows lookup chunk table),
  d ∈ documents)
variable (hright : ∀ key result, result.map Prod.fst = sortedIds (table.filter key.selects) →
  (∀ r ∈ result, Loaded load documents r) → right key result)

include hload hrefs hright

theorem fetchChunk_hold (lookup : Lookup) (chunk : List Key) {caches : Caches DocumentRow}
    (hcaches : CachesHold documents load right caches) :
    ∃ entries caches', fetchChunk loadE queryLimit rowLimit table lookup chunk caches
        = (.ok entries, caches')
      ∧ CachesHold documents load right caches' ∧ entries.map Prod.fst = chunk
      ∧ ∀ e ∈ entries, right e.1 e.2 := by
  obtain ⟨entries, hfetch, hkeys, hentries⟩ := fetchChunk_eq queryLimit rowLimit lookup chunk
    hload (hrefs lookup chunk) hcaches.rows
  have hentries' : ∀ e ∈ entries, right e.1 e.2 :=
    fun e he => hright e.1 e.2 (hentries e he).1 (hentries e he).2
  refine ⟨entries, _, hfetch, ⟨?_, ?_⟩, hkeys, hentries'⟩
  · exact (materialize_spec rowLimit _ (hrefs lookup chunk) hcaches.rows).2.1
  · intro e he
    rcases mem_foldl_put queryLimit he with hmem | hcache
    · exact hentries' e hmem
    · exact hcaches.queries e hcache

theorem fetchChunks_hold (lookup : Lookup) (chunks : List (List Key))
    {caches : Caches DocumentRow} (hcaches : CachesHold documents load right caches) :
    ∃ results caches', fetchChunks loadE queryLimit rowLimit table lookup chunks caches
        = (.ok results, caches')
      ∧ CachesHold documents load right caches' ∧ results.map Prod.fst = chunks.flatten
      ∧ ∀ e ∈ results, right e.1 e.2 := by
  induction chunks generalizing caches with
  | nil => exact ⟨[], caches, rfl, hcaches, rfl, by simp⟩
  | cons chunk chunks ih =>
    obtain ⟨entries, caches₁, hfetch, hcaches₁, hkeys, hentries⟩ :=
      fetchChunk_hold queryLimit rowLimit hload hrefs hright lookup chunk hcaches
    obtain ⟨results, caches₂, hrest, hcaches₂, hkeys', hresults⟩ := ih hcaches₁
    refine ⟨entries ++ results, caches₂, ?_, hcaches₂, ?_, ?_⟩
    · simp only [fetchChunks, hfetch, hrest]
    · rw [List.map_append, hkeys, hkeys', List.flatten_cons]
    · intro e he
      rcases List.mem_append.mp he with he | he
      · exact hentries e he
      · exact hresults e he

/-- **A call of the SQLite index** answers each of its keys, and rightly so. -/
theorem answerLookup_hold (lookup : Lookup) {caches : Caches DocumentRow}
    (hcaches : CachesHold documents load right caches) :
    ∃ results caches', answerLookup loadE queryLimit rowLimit table lookup caches
        = (.ok results, caches')
      ∧ CachesHold documents load right caches'
      ∧ (∀ key, key ∈ results.map Prod.fst ↔ key ∈ lookup.keys)
      ∧ ∀ e ∈ results, right e.1 e.2 := by
  have htouched : CachesHold documents load right { caches with
      queries := lookup.keys.foldl (fun cache key => cache.touch key) caches.queries } :=
    ⟨hcaches.rows, fun e he => hcaches.queries e (mem_touchAll he)⟩
  obtain ⟨results, caches', hfetch, hcaches', hkeys, hresults⟩ :=
    fetchChunks_hold queryLimit rowLimit hload hrefs hright lookup
      (titleChunks (lookup.keys.filter (fun key => (caches.queries.get key).isNone))) htouched
  refine ⟨_, caches', by simp only [answerLookup, hfetch]; rfl, hcaches', ?_, ?_⟩
  · intro key
    rw [List.map_append, List.mem_append, hkeys, mem_titleChunks, List.mem_filter]
    constructor
    · rintro (hfound | ⟨hkey, -⟩)
      · obtain ⟨e, he, rfl⟩ := List.mem_map.mp hfound
        obtain ⟨key, hkey, he⟩ := List.mem_filterMap.mp he
        obtain ⟨result, -, rfl⟩ := Option.map_eq_some_iff.mp he
        exact hkey
      · exact hkey
    · intro hkey
      cases hget : caches.queries.get key with
      | none => exact Or.inr ⟨hkey, rfl⟩
      | some result =>
        refine Or.inl (List.mem_map.mpr ⟨(key, result), ?_, rfl⟩)
        exact List.mem_filterMap.mpr ⟨key, hkey, by rw [hget]; rfl⟩
  · intro e he
    rcases List.mem_append.mp he with he | he
    · obtain ⟨key, -, he⟩ := List.mem_filterMap.mp he
      obtain ⟨result, hget, rfl⟩ := Option.map_eq_some_iff.mp he
      exact hcaches.queries _ (Lru.mem_of_get hget)
    · exact hresults e he

end

theorem SameRows.loaded_first (hsame : SameRows table first load)
    (hviews : Views table first load) {e : String × DocumentRow}
    (h : Loaded load (smallest table) e) : Loaded load first e := by
  obtain ⟨d, hd, hid, hrow⟩ := h
  obtain ⟨htable, hsmallest⟩ := mem_smallest.mp hd
  obtain ⟨m, hm, hmd⟩ := hviews.first_of d htable
  exact ⟨m, hm, hmd.trans hid, hrow.trans (hsame.row d htable hsmallest m hm hmd)⟩

theorem Views.loaded_unique (hviews : Views table first load) {id : String} {row row' : DocumentRow}
    (h : Loaded load first (id, row)) (h' : Loaded load first (id, row')) : row = row' := by
  obtain ⟨m, hm, hid, hrow⟩ := h
  obtain ⟨m', hm', hid', hrow'⟩ := h'
  have hmm : m = m' := List.inj_on_of_nodup_map hviews.first_nodup hm hm' (hid.trans hid'.symm)
  rw [hmm] at hrow
  exact hrow.trans hrow'.symm

/-- The caches hold rows of the smallest path and answers of the in-memory index. -/
structure CachesOk (table first : List Document) (load : Document → DocumentRow)
    (caches : Caches DocumentRow) : Prop where
  rows : ∀ e ∈ caches.rows, Loaded load (smallest table) e
  queries : ∀ e ∈ caches.queries, e.2 = memoryResult first load e.1

variable (hviews : Views table first load) (hsame : SameRows table first load)
variable (hload : ∀ d ∈ table, loadE d = .ok (load d))

include hviews hsame hload

theorem answerLookup_ok (lookup : Lookup) {caches : Caches DocumentRow}
    (hcaches : CachesOk table first load caches) :
    ∃ results caches', answerLookup loadE queryLimit rowLimit table lookup caches
        = (.ok results, caches')
      ∧ CachesOk table first load caches' ∧ (∀ key, key ∈ results.map Prod.fst ↔ key ∈ lookup.keys)
      ∧ ∀ e ∈ results, e.2 = memoryResult first load e.1 := by
  have hright : ∀ key (result : Result DocumentRow),
      result.map Prod.fst = sortedIds (table.filter key.selects) →
      (∀ r ∈ result, Loaded load (smallest table) r) → result = memoryResult first load key := by
    intro key result hids hloaded
    apply pairs_eq (fun id row row' => hviews.loaded_unique)
    · rw [hids, memoryResult_ids hviews, hsame.sortedIds_eq hviews]
    · exact fun r hr => hsame.loaded_first hviews (hloaded r hr)
    · exact fun r hr => memoryResult_loaded hr
  obtain ⟨results, caches', hanswer, hcaches', hkeys, hresults⟩ :=
    answerLookup_hold queryLimit rowLimit (fun d hd => hload d (mem_smallest.mp hd).1)
      (hsame.references hviews) hright lookup ⟨hcaches.rows, hcaches.queries⟩
  exact ⟨results, caches', hanswer, ⟨hcaches'.rows, hcaches'.queries⟩, hkeys, hresults⟩

omit hsame hviews in
theorem answerLookup_fresh (key : Key) :
    ∃ result, (answerLookup loadE queryLimit rowLimit table (.query key) (.empty DocumentRow)).1
        = .ok [(key, result)]
      ∧ result.map Prod.fst = sortedIds (table.filter key.selects)
      ∧ ∀ r ∈ result, Loaded load (firstByDocument (selectRows (.query key) [key] table)) r := by
  have htable : ∀ d ∈ firstByDocument (selectRows (.query key) [key] table), d ∈ table :=
    fun d hd => (mem_selectRows.mp (mem_firstByDocument hd)).1
  have hempty : ∀ e ∈ (Caches.empty DocumentRow).rows,
      Loaded load (firstByDocument (selectRows (.query key) [key] table)) e := by
    intro e he
    cases he
  obtain ⟨entries, hfetch, hkeys, hentries⟩ := fetchChunk_eq queryLimit rowLimit (.query key) [key]
    (fun d hd => hload d (htable d hd)) (fun d hd => hd) hempty
  obtain ⟨⟨key', result⟩, rfl⟩ : ∃ e, entries = [e] := by
    rw [List.map_eq_cons_iff] at hkeys
    obtain ⟨e, rest, rfl, -, hrest⟩ := hkeys
    rw [List.map_eq_nil_iff.mp hrest]
    exact ⟨e, rfl⟩
  obtain rfl : key' = key := (List.cons.inj hkeys).1
  obtain ⟨hids, hloaded⟩ := hentries _ List.mem_cons_self
  refine ⟨result, ?_, hids, hloaded⟩
  -- nothing is cached, and one key makes one chunk
  have hchunks : titleChunks ((Lookup.query key').keys.filter
      (fun key => ((Caches.empty DocumentRow).queries.get key).isNone)) = [[key']] := by
    have hmissing : (Lookup.query key').keys.filter
        (fun key => ((Caches.empty DocumentRow).queries.get key).isNone) = [key'] := rfl
    rw [hmissing]
    simp [titleChunks, titleQueryBatchSize]
  have htouched : ({ Caches.empty DocumentRow with
      queries := (Lookup.query key').keys.foldl (fun cache key => cache.touch key)
        (Caches.empty DocumentRow).queries } : Caches DocumentRow) = Caches.empty DocumentRow := rfl
  have hfetches : fetchChunks loadE queryLimit rowLimit table (.query key') [[key']]
      (.empty DocumentRow) = (.ok ([(key', result)] ++ []), (fetchChunk loadE queryLimit rowLimit
        table (.query key') [key'] (.empty DocumentRow)).2) := by
    rw [fetchChunks, hfetch]
    rfl
  rw [answerLookup, hchunks, htouched, hfetches]
  rfl

end

/-! ## The agreement -/

section

variable (casefold : String → String) (isDecimal : Char → Bool)
variable (contents : String → Fingerprint → Contents Columns) (queryLimit rowLimit : Nat)
variable (files : List Shard)

/-- The first row a shard has for its document. -/
def FirstInShard (s : Shard) (d : Document) : Prop :=
  Dict.First Document.documentId (shardDocuments casefold contents s) d

/-- The first row of its document in the order of the files. -/
def FirstOfAll (d : Document) : Prop :=
  Dict.First Document.documentId (files.flatMap (shardDocuments casefold contents)) d

/-- The first rows that the shards have for a document agree: all of them are found under the same
language, title, page and QID, and the one in the shard with the smallest path has the contents of
the one in the first file. None is without a QID. -/
structure SameEverywhere : Prop where
  keys : ∀ s ∈ files, ∀ d, FirstInShard casefold contents s d →
    ∀ m, FirstOfAll casefold contents files m → m.documentId = d.documentId →
      d.language = m.language ∧ d.titleKey = m.titleKey ∧ d.pageId = m.pageId ∧ d.qid = m.qid
  qid : ∀ s ∈ files, ∀ d, FirstInShard casefold contents s d → d.qid ≠ ""
  row : ∀ s ∈ files, ∀ d, FirstInShard casefold contents s d →
    (∀ s' ∈ files, ∀ e, FirstInShard casefold contents s' e → e.documentId = d.documentId →
      d.sourcePath ≤ e.sourcePath) →
    ∀ m, FirstOfAll casefold contents files m → m.documentId = d.documentId →
      loadRow isDecimal contents files d = loadRow isDecimal contents files m

/-- Whatever has been asked before, a call returns what the in-memory index returns. -/
def SameAnswers (table : List Document) (index : MemoryIndex) : Prop :=
  ∀ history call, ∃ results,
    (answer casefold isDecimal contents queryLimit rowLimit files table call
      (afterCalls casefold isDecimal contents queryLimit rowLimit files table history)).1
        = .ok results
    ∧ ∀ key, results.lookup key = (index.answer casefold call).lookup key

variable {casefold isDecimal contents queryLimit rowLimit files}

theorem lookup_eq_of_forall {V : Type} {l : List (Key × V)} {f : Key → V}
    (hl : ∀ e ∈ l, e.2 = f e.1) (key : Key) :
    l.lookup key = if key ∈ l.map Prod.fst then some (f key) else none := by
  induction l with
  | nil => rfl
  | cons e l ih =>
    have ih' := ih (fun e' he' => hl e' (List.mem_cons_of_mem e he'))
    obtain ⟨key', value⟩ := e
    rw [List.lookup_cons]
    by_cases hkey : key = key'
    · subst hkey
      have hvalue : value = f key := hl (key, value) List.mem_cons_self
      simp [hvalue]
    · have hbeq : (key == key') = false := beq_false_of_ne hkey
      rw [hbeq, ih']
      simp only [List.map_cons, List.mem_cons, hkey, false_or]

theorem lookup_map_snd {l : List (Key × Result DocumentRow)} {f : Key → List DocumentRow}
    (hl : ∀ e ∈ l, e.2.map Prod.snd = f e.1) {keys : List Key}
    (hkeys : ∀ key, key ∈ l.map Prod.fst ↔ key ∈ keys) (key : Key) :
    (l.map (fun e => (e.1, e.2.map Prod.snd))).lookup key
      = (keys.map (fun key => (key, f key))).lookup key := by
  have hleft := lookup_eq_of_forall (l := l.map (fun e => (e.1, e.2.map Prod.snd))) (f := f)
    (by
      intro e he
      obtain ⟨e', he', rfl⟩ := List.mem_map.mp he
      exact hl e' he') key
  have hright := lookup_eq_of_forall (l := keys.map (fun key => (key, f key))) (f := f)
    (by
      intro e he
      obtain ⟨key', -, rfl⟩ := List.mem_map.mp he
      rfl) key
  rw [hleft, hright, List.map_map, List.map_map]
  have hmem : key ∈ l.map (Prod.fst ∘ fun e => (e.1, e.2.map Prod.snd))
      ↔ key ∈ keys.map (Prod.fst ∘ fun key => (key, f key)) := by
    have hid : keys.map (Prod.fst ∘ fun key => (key, f key)) = keys := List.map_id' keys
    rw [hid, ← hkeys]
    rfl
  simp only [hmem]

section

variable {table : List Document} {index : MemoryIndex}
variable (htable : ∀ d, d ∈ table ↔ ∃ s ∈ files, FirstInShard casefold contents s d)
variable (hnodup : (files.map Shard.path).Nodup) (hsound : ∀ s ∈ files, Sound contents s)
variable (hbuild : buildInMemoryIndex casefold isDecimal contents files = .ok index)

include htable hnodup hsound hbuild

theorem rowOf_of_mem {d : Document} (hd : d ∈ table) :
    RowOf casefold isDecimal contents files d (rowFor isDecimal contents files d) := by
  obtain ⟨s, hs, hfirst⟩ := (htable d).mp hd
  exact rowOf_rowFor hnodup hsound hbuild hs hfirst.mem

theorem views_of_build :
    Views table (firstByDocument (files.flatMap (shardDocuments casefold contents)))
      (rowFor isDecimal contents files) := by
  refine ⟨?_, ?_, nodup_firstByDocument _, ?_, ?_⟩
  · intro d hd e he hid hpath
    obtain ⟨s, hs, hfirst⟩ := (htable d).mp hd
    obtain ⟨s', hs', hfirst'⟩ := (htable e).mp he
    have hss : s = s' := by
      apply List.inj_on_of_nodup_map hnodup hs hs'
      rw [← shardDocuments_path hfirst.mem, ← shardDocuments_path hfirst'.mem, hpath]
    rw [← hss] at hfirst'
    exact hfirst.eq_of_key_eq hfirst' hid
  · intro m hm
    exact (htable m).mpr (Dict.first_flatMap (mem_firstByDocument_iff.mp hm))
  · intro d hd
    obtain ⟨s, hs, hfirst⟩ := (htable d).mp hd
    obtain ⟨m, hm, hmd⟩ : ∃ m, FirstOfAll casefold contents files m ∧ m.documentId = d.documentId :=
      Dict.exists_first (List.mem_flatMap.mpr ⟨s, hs, hfirst.mem⟩)
    exact ⟨m, mem_firstByDocument_iff.mpr hm, hmd⟩
  · intro d hd
    exact (rowOf_of_mem htable hnodup hsound hbuild hd).documentId

theorem sameRows_iff :
    SameRows table (firstByDocument (files.flatMap (shardDocuments casefold contents)))
        (rowFor isDecimal contents files)
      ↔ SameEverywhere casefold isDecimal contents files := by
  have hviews := views_of_build htable hnodup hsound hbuild
  have hrow := fun d hd => (rowOf_of_mem htable hnodup hsound hbuild (d := d) hd).load
  have hmem : ∀ s ∈ files, ∀ d, FirstInShard casefold contents s d → d ∈ table :=
    fun s hs d hd => (htable d).mpr ⟨s, hs, hd⟩
  have hfirst : ∀ m, m ∈ firstByDocument (files.flatMap (shardDocuments casefold contents))
      ↔ FirstOfAll casefold contents files m := fun m => mem_firstByDocument_iff
  constructor
  · intro h
    refine ⟨?_, ?_, ?_⟩
    · intro s hs d hd m hm hid
      exact h.keys d (hmem s hs d hd) m ((hfirst m).mpr hm) hid
    · intro s hs d hd
      exact h.qid d (hmem s hs d hd)
    · intro s hs d hd hsmallest m hm hid
      have hm' := (hfirst m).mpr hm
      have heq := h.row d (hmem s hs d hd) (fun e he => by
        obtain ⟨s', hs', he'⟩ := (htable e).mp he
        exact hsmallest s' hs' e he') m hm' hid
      rw [hrow d (hmem s hs d hd), hrow m (hviews.first_mem m hm'), heq]
  · intro h
    refine ⟨?_, ?_, ?_⟩
    · intro d hd m hm hid
      obtain ⟨s, hs, hd'⟩ := (htable d).mp hd
      exact h.keys s hs d hd' m ((hfirst m).mp hm) hid
    · intro d hd
      obtain ⟨s, hs, hd'⟩ := (htable d).mp hd
      exact h.qid s hs d hd'
    · intro d hd hsmallest m hm hid
      obtain ⟨s, hs, hd'⟩ := (htable d).mp hd
      have heq := h.row s hs d hd' (fun s' hs' e he => hsmallest e (hmem s' hs' e he)) m
        ((hfirst m).mp hm) hid
      rw [hrow d hd, hrow m (hviews.first_mem m hm)] at heq
      exact Except.ok.inj heq

theorem rows_eq_memoryResult (key : Key) :
    index.rows key = (memoryResult (firstByDocument (files.flatMap (shardDocuments casefold contents)))
      (rowFor isDecimal contents files) key).map Prod.snd := by
  rw [memoryResult_rows (views_of_build htable hnodup hsound hbuild), MemoryIndex.rows_eq,
    (holds_buildInMemoryIndex hnodup hsound hbuild).entries]

theorem sameAnswers_of_sameEverywhere (h : SameEverywhere casefold isDecimal contents files) :
    SameAnswers casefold isDecimal contents queryLimit rowLimit files table index := by
  have hviews := views_of_build htable hnodup hsound hbuild
  have hsame := (sameRows_iff htable hnodup hsound hbuild).mpr h
  have hload : ∀ d ∈ table, loadRow isDecimal contents files d
      = .ok (rowFor isDecimal contents files d) :=
    fun d hd => (rowOf_of_mem htable hnodup hsound hbuild hd).load
  -- one call, in any state of the caches
  have hcall : ∀ call caches, CachesOk table
      (firstByDocument (files.flatMap (shardDocuments casefold contents)))
      (rowFor isDecimal contents files) caches →
      ∃ results, (answer casefold isDecimal contents queryLimit rowLimit files table call caches).1
          = .ok results
        ∧ (∀ key, results.lookup key = (index.answer casefold call).lookup key)
        ∧ CachesOk table (firstByDocument (files.flatMap (shardDocuments casefold contents)))
          (rowFor isDecimal contents files)
          (answer casefold isDecimal contents queryLimit rowLimit files table call caches).2 := by
    intro call caches hcaches
    obtain ⟨results, caches', hanswer, hcaches', hkeys, hresults⟩ :=
      answerLookup_ok queryLimit rowLimit hviews hsame hload (call.lookup casefold) hcaches
    refine ⟨results.map (fun e => (e.1, e.2.map Prod.snd)), by rw [answer, hanswer], ?_,
      by rw [answer, hanswer]; exact hcaches'⟩
    intro key
    refine lookup_map_snd (fun e he => ?_) hkeys key
    rw [hresults e he, rows_eq_memoryResult htable hnodup hsound hbuild]
  have hhistory : ∀ history, CachesOk table
      (firstByDocument (files.flatMap (shardDocuments casefold contents)))
      (rowFor isDecimal contents files)
      (afterCalls casefold isDecimal contents queryLimit rowLimit files table history) := by
    intro history
    induction history using List.reverseRecOn with
    | nil => exact ⟨by simp [afterCalls, Caches.empty], by simp [afterCalls, Caches.empty]⟩
    | append_singleton history call ih =>
      obtain ⟨-, -, -, hcaches⟩ := hcall call _ ih
      rw [afterCalls, List.foldl_append]
      exact hcaches
  intro history call
  obtain ⟨results, hresults, hlookup, -⟩ := hcall call _ (hhistory history)
  exact ⟨results, hresults, hlookup⟩

variable (h : SameAnswers casefold isDecimal contents queryLimit rowLimit files table index)

include h

theorem SameAnswers.fresh {call : Call} {key : Key} (hcall : call.lookup casefold = .query key) :
    (memoryResult (firstByDocument (files.flatMap (shardDocuments casefold contents)))
        (rowFor isDecimal contents files) key).map Prod.fst = sortedIds (table.filter key.selects)
      ∧ ∀ r ∈ memoryResult (firstByDocument (files.flatMap (shardDocuments casefold contents)))
        (rowFor isDecimal contents files) key, Loaded (rowFor isDecimal contents files)
          (firstByDocument (selectRows (.query key) [key] table)) r := by
  have hviews := views_of_build htable hnodup hsound hbuild
  have hload : ∀ d ∈ table, loadRow isDecimal contents files d
      = .ok (rowFor isDecimal contents files d) :=
    fun d hd => (rowOf_of_mem htable hnodup hsound hbuild hd).load
  obtain ⟨result, hanswer, hids, hloaded⟩ := answerLookup_fresh queryLimit rowLimit hload key
  have hrows : result.map Prod.snd = index.rows key := by
    obtain ⟨results, hresults, hlookup⟩ := h [] call
    have hfresh : (answer casefold isDecimal contents queryLimit rowLimit files table call
        (.empty DocumentRow)).1 = .ok [(key, result.map Prod.snd)] := by
      rw [answer, hcall]
      cases hpair : answerLookup (loadRow isDecimal contents files) queryLimit rowLimit table
        (.query key) (.empty DocumentRow) with
      | mk outcome caches =>
        rw [hpair] at hanswer
        dsimp only at hanswer
        rw [hanswer]
        rfl
    have heq := hresults.symm.trans hfresh
    cases heq
    have hkey := hlookup key
    rw [MemoryIndex.answer, hcall] at hkey
    simpa [Lookup.keys, List.lookup_cons] using hkey
  -- the rows carry their identifiers, so equal rows have equal names
  have hname : ∀ documents, (∀ d ∈ documents, d ∈ table) → ∀ e : String × DocumentRow,
      Loaded (rowFor isDecimal contents files) documents e → e = (pyStr e.2.documentId, e.2) := by
    rintro documents hdocuments ⟨id, row⟩ ⟨d, hd, hid, hrow⟩
    dsimp only at hid hrow ⊢
    rw [hrow, hviews.documentId d (hdocuments d hd), hid]
  have hnames : ∀ documents, (∀ d ∈ documents, d ∈ table) → ∀ l : Result DocumentRow,
      (∀ e ∈ l, Loaded (rowFor isDecimal contents files) documents e) →
      l = (l.map Prod.snd).map (fun row => (pyStr row.documentId, row)) := by
    intro documents hdocuments l hl
    rw [List.map_map]
    conv_lhs => rw [← List.map_id l]
    apply List.map_congr_left
    intro e he
    exact hname documents hdocuments e (hl e he)
  have hresult : memoryResult (firstByDocument (files.flatMap (shardDocuments casefold contents)))
      (rowFor isDecimal contents files) key = result := by
    rw [hnames _ hviews.first_mem _ (fun e he => memoryResult_loaded he),
      hnames _ (fun d hd => (mem_selectRows.mp (mem_firstByDocument hd)).1) result hloaded, hrows,
      rows_eq_memoryResult htable hnodup hsound hbuild]
  rw [hresult]
  exact ⟨hids, hloaded⟩

theorem SameAnswers.keeps
    {call : Call} {key : Key} (hcall : call.lookup casefold = .query key) {d m : Document}
    (hd : d ∈ table) (hselects : key.selects d = true)
    (hm : m ∈ firstByDocument (files.flatMap (shardDocuments casefold contents)))
    (hid : m.documentId = d.documentId) : key.keeps m = true := by
  have hviews := views_of_build htable hnodup hsound hbuild
  have hids := (h.fresh htable hnodup hsound hbuild hcall).1
  rw [memoryResult_ids hviews] at hids
  have hmem : d.documentId ∈ sortedIds (table.filter key.selects) :=
    mem_sortedIds.mpr ⟨d, List.mem_filter.mpr ⟨hd, hselects⟩, rfl⟩
  rw [← hids] at hmem
  obtain ⟨m', hm', hid'⟩ := mem_sortedIds.mp hmem
  obtain ⟨hfirst, hkeeps⟩ := List.mem_filter.mp hm'
  rw [← List.inj_on_of_nodup_map hviews.first_nodup hfirst hm (hid'.trans hid.symm)]
  exact hkeeps

theorem sameEverywhere_of_sameAnswers : SameEverywhere casefold isDecimal contents files := by
  have hviews := views_of_build htable hnodup hsound hbuild
  rw [← sameRows_iff htable hnodup hsound hbuild]
  -- the call that asks for the title of a row
  have htitle : ∀ d ∈ table, ∃ call : Call,
      call.lookup casefold = .query (.title d.language d.titleKey) := by
    intro d hd
    have hrow := rowOf_of_mem htable hnodup hsound hbuild hd
    refine ⟨.byTitle (pyStr (rowFor isDecimal contents files d).language)
      (pyStr (rowFor isDecimal contents files d).title), ?_⟩
    rw [Call.lookup, hrow.titleKey, ← hrow.language]
    rfl
  have hqid : ∀ d ∈ table, ∀ m ∈ firstByDocument (files.flatMap (shardDocuments casefold contents)),
      m.documentId = d.documentId → d.qid = m.qid ∧ d.qid ≠ "" := by
    intro d hd m hm hid
    have hcall : (Call.byQid d.qid).lookup casefold = .query (.qid d.qid) := rfl
    have hkeeps := h.keeps htable hnodup hsound hbuild hcall hd (by simp [Key.selects]) hm hid
    simp only [Key.keeps, Key.selects, Bool.and_eq_true, decide_eq_true_eq, ne_eq,
      Key.qid.injEq] at hkeeps
    exact ⟨hkeeps.1.symm, hkeeps.2⟩
  have hkeys : ∀ d ∈ table, ∀ m ∈ firstByDocument (files.flatMap (shardDocuments casefold contents)),
      m.documentId = d.documentId → d.language = m.language ∧ d.titleKey = m.titleKey
        ∧ d.pageId = m.pageId ∧ d.qid = m.qid := by
    intro d hd m hm hid
    obtain ⟨call, hcall⟩ := htitle d hd
    have hkeeps := h.keeps htable hnodup hsound hbuild hcall hd (by simp [Key.selects]) hm hid
    have hrow := rowOf_of_mem htable hnodup hsound hbuild hd
    have hpage : (Call.byPage (pyStr (rowFor isDecimal contents files d).language)
        d.pageId).lookup casefold = .query (.page d.language d.pageId) := by
      rw [Call.lookup, hrow.language]
    have hkeeps' := h.keeps htable hnodup hsound hbuild hpage hd (by simp [Key.selects]) hm hid
    simp only [Key.keeps, Key.selects, Bool.and_eq_true, decide_eq_true_eq] at hkeeps hkeeps'
    exact ⟨hkeeps.1.1.symm, hkeeps.1.2.symm, hkeeps'.1.2.symm, (hqid d hd m hm hid).1⟩
  refine ⟨hkeys, ?_, ?_⟩
  · intro d hd
    obtain ⟨m, hm, hid⟩ := hviews.first_of d hd
    exact (hqid d hd m hm hid).2
  · intro d hd hsmallest m hm hid
    obtain ⟨call, hcall⟩ := htitle d hd
    obtain ⟨hids, hloaded⟩ := h.fresh htable hnodup hsound hbuild hcall
    -- the row that is loaded for the document is `d`
    have hselected : d ∈ table.filter (Key.title d.language d.titleKey).selects :=
      List.mem_filter.mpr ⟨hd, by simp [Key.selects]⟩
    have hmem : d.documentId ∈ (memoryResult
        (firstByDocument (files.flatMap (shardDocuments casefold contents)))
        (rowFor isDecimal contents files) (.title d.language d.titleKey)).map Prod.fst := by
      rw [hids]
      exact mem_sortedIds.mpr ⟨d, hselected, rfl⟩
    obtain ⟨e, he, hed⟩ := List.mem_map.mp hmem
    obtain ⟨x, hx, hxid, hxrow⟩ := hloaded e he
    obtain ⟨hxtable, key, hkey, hxkey⟩ := mem_selectRows.mp (mem_firstByDocument hx)
    rw [List.mem_singleton.mp hkey] at hxkey
    simp only [Key.selects, Bool.and_eq_true, decide_eq_true_eq] at hxkey
    have hle := firstByDocument_le (fun d => le_refl (Lookup.orderColumns (.query
        (.title d.language d.titleKey)) d)) (selectRows_sorted _ _ table) hx
      (mem_selectRows.mpr ⟨hd, _, List.mem_singleton_self _, by simp [Key.selects]⟩)
      (hed.symm.trans hxid.symm)
    have hxd : x = d := by
      apply hviews.unique x hxtable d hd (hxid.trans hed)
      apply le_antisymm
      · exact orderColumns_le hxkey.1 hxkey.2 (hxid.trans hed) hle
      · exact hsmallest x hxtable (hxid.trans hed)
    have hfirst := memoryResult_loaded he
    have hpair : e = (d.documentId, rowFor isDecimal contents files d) := by
      rw [← hxd]
      exact Prod.ext hxid.symm hxrow
    rw [hpair] at hfirst
    exact hviews.loaded_unique hfirst ⟨m, hm, hid, rfl⟩

omit h

end

/-- **When the two indexes agree.** The SQLite index is built over `files`, in one run or in
several, and then asked any sequence of calls. -/
theorem indexes_agree_iff {shards : ShardSet} {db₀ db : Database} {index : MemoryIndex}
    (hreachable : Reachable casefold contents db₀)
    (hfiles : ∀ d ∈ db₀.documents, d.sourcePath ∈ shards.files.map Shard.path)
    {stop : StopPoint → Bool}
    (hrun : Prog.run (sync casefold contents stop shards.files) db₀ = (.ok true, db))
    (hbuild : buildInMemoryIndex casefold isDecimal contents shards.files = .ok index) :
    SameAnswers casefold isDecimal contents queryLimit rowLimit shards.files db.documents index
      ↔ SameEverywhere casefold isDecimal contents shards.files := by
  have hfinal := Prog.wp_run (sync_wp stop hreachable.consistent shards.nodup)
  rw [hrun] at hfinal
  obtain ⟨-, hindexed, -, -⟩ := hfinal
  have htable : ∀ d, d ∈ db.documents ↔ ∃ s ∈ shards.files, FirstInShard casefold contents s d :=
    fun d => mem_documents_iff hreachable hfiles hrun
  have hsound : ∀ s ∈ shards.files, Sound contents s := fun s hs => (hindexed s hs).sound
  exact ⟨sameEverywhere_of_sameAnswers htable shards.nodup hsound hbuild,
    sameAnswers_of_sameEverywhere htable shards.nodup hsound hbuild⟩

theorem sameEverywhere_of_forall (h : ∀ d ∈ files.flatMap (shardDocuments casefold contents),
      ∀ m ∈ files.flatMap (shardDocuments casefold contents), m.documentId = d.documentId →
        (d.language = m.language ∧ d.titleKey = m.titleKey ∧ d.pageId = m.pageId ∧ d.qid = m.qid)
          ∧ loadRow isDecimal contents files d = loadRow isDecimal contents files m)
    (hqid : ∀ d ∈ files.flatMap (shardDocuments casefold contents), d.qid ≠ "") :
    SameEverywhere casefold isDecimal contents files := by
  have hmem : ∀ s ∈ files, ∀ d, FirstInShard casefold contents s d →
      d ∈ files.flatMap (shardDocuments casefold contents) :=
    fun s hs d hd => List.mem_flatMap.mpr ⟨s, hs, hd.mem⟩
  refine ⟨?_, ?_, ?_⟩
  · intro s hs d hd m hm hid
    exact (h d (hmem s hs d hd) m hm.mem hid).1
  · intro s hs d hd
    exact hqid d (hmem s hs d hd)
  · intro s hs d hd _ m hm hid
    exact (h d (hmem s hs d hd) m hm.mem hid).2

end

/-! ## A document in two shards -/

namespace Example

/-- Case folding of ASCII text. -/
def asciiLower (text : String) : String := String.ofList (text.toList.map Char.toLower)

def pageRow (title : String) : DocumentRow :=
  ⟨some "Q1:wikipedia:en:1:1", some "en", some title, some 1, some 1, some "Q1",
    ⟨some "Q1:en:1:1", some "wikipedia", some "enwiki", []⟩⟩

def shardA : String := "/v1/wikipedia/documents/a.parquet"

/-- Both shards have the page, under the given titles. -/
def pageContents (titleA titleB : String) (path : String) (_ : Fingerprint) : Contents Columns :=
  ⟨true, [[pageRow (if path = shardA then titleA else titleB)]]⟩

def twoShards : ShardSet :=
  ⟨(effectivePaths "/v1" ["b", "a"] []).map (fun p => ⟨p.1, ⟨1, 1, 1, 1, p.2⟩⟩), by decide⟩

def builtDatabase (titleA titleB : String) : Database :=
  (Prog.run (sync asciiLower (pageContents titleA titleB) (fun _ => false) twoShards.files)
    Database.empty).2

/-- The page has the same title in both shards. -/
theorem same_title_found :
    ∃ index, buildInMemoryIndex asciiLower Char.isDigit (pageContents "New" "New") twoShards.files
        = .ok index
      ∧ Prog.run (sync asciiLower (pageContents "New" "New") (fun _ => false) twoShards.files)
        Database.empty = (.ok true, builtDatabase "New" "New")
      ∧ SameAnswers asciiLower Char.isDigit (pageContents "New" "New") 4096 10000 twoShards.files
        (builtDatabase "New" "New").documents index := by
  have hsame : SameEverywhere asciiLower Char.isDigit (pageContents "New" "New") twoShards.files :=
    sameEverywhere_of_forall (by decide) (by decide)
  cases hbuild : buildInMemoryIndex asciiLower Char.isDigit (pageContents "New" "New")
    twoShards.files with
  | error e => cases hbuild
  | ok index =>
    have hrun : Prog.run (sync asciiLower (pageContents "New" "New") (fun _ => false)
        twoShards.files) Database.empty = (.ok true, builtDatabase "New" "New") := rfl
    refine ⟨index, rfl, hrun, ?_⟩
    exact (indexes_agree_iff .empty (by simp [Database.empty]) hrun hbuild).mpr hsame

/-- **The page has been moved.** The second shard has it under its new title, which the in-memory
index does not know. -/
theorem moved_page_not_found :
    ∃ index, buildInMemoryIndex asciiLower Char.isDigit (pageContents "Old" "New") twoShards.files
        = .ok index
      ∧ Prog.run (sync asciiLower (pageContents "Old" "New") (fun _ => false) twoShards.files)
        Database.empty = (.ok true, builtDatabase "Old" "New")
      ∧ ¬ SameAnswers asciiLower Char.isDigit (pageContents "Old" "New") 4096 10000 twoShards.files
        (builtDatabase "Old" "New").documents index := by
  cases hbuild : buildInMemoryIndex asciiLower Char.isDigit (pageContents "Old" "New")
    twoShards.files with
  | error e => cases hbuild
  | ok index =>
    refine ⟨index, rfl, rfl, ?_⟩
    intro h
    obtain ⟨results, hresults, hlookup⟩ := h [] (.byTitle "en" "New")
    have hsqlite : (answer asciiLower Char.isDigit (pageContents "Old" "New") 4096 10000
        twoShards.files (builtDatabase "Old" "New").documents (.byTitle "en" "New")
        (.empty DocumentRow)).1 = .ok [(.title "en" "new", [pageRow "New"])] := by
      decide
    cases hresults.symm.trans hsqlite
    have hmemory : index.answer asciiLower (.byTitle "en" "New") = [(.title "en" "new", [])] := by
      cases hbuild
      decide
    have hkey := hlookup (.title "en" "new")
    rw [hmemory] at hkey
    cases hkey

end Example

end OsmPolygonWikidata.V1Index
