import OsmPolygonWikidata.Basic.Words
import OsmPolygonWikidata.Direct.Enrichment
import OsmPolygonWikidata.V1Index.Agreement

/-! # Batched and single title lookups

The enrichment asks the index for all titles of a polygon in one call, and reads the dictionary it
gets under `_title_key`. The index files its answers under `title_key`, which also collapses white
space. So a title with a doubled space, a tab or a no-break space in it is looked up under a key
that the dictionary never has, although `by_title` finds the document (`titles_agree_iff`).
-/

namespace OsmPolygonWikidata.Direct

open V1Index Python Durable

/-- What an index answers to a call, or the error it raises. -/
abbrev Answers := Call → Except LoadError (List (Key × List DocumentRow))

section

variable (casefold : String → String)

def Ref.indexKey (ref : Ref) : Key :=
  .title (titleKey casefold ref.language ref.title).1 (titleKey casefold ref.language ref.title).2

/-- `matches.get(_title_key(ref.language, ref.title), ())`, for the matches of `_lookup_titles`. -/
def lookupDocuments (answers : Answers) (refs : List Ref) (ref : Ref) :
    Except LoadError (List DocumentRow) := do
  let found ← answers (.byTitles (refs.map (fun ref => (ref.language, ref.title))).eraseDups)
  return (found.lookup (.title (ref.key casefold).1 (ref.key casefold).2)).getD []

/-- `index.by_title(ref.language, ref.title)`. -/
def byTitle (answers : Answers) (ref : Ref) : Except LoadError (List DocumentRow) := do
  let found ← answers (.byTitle ref.language ref.title)
  return (found.lookup (ref.indexKey casefold)).getD []

/-- The identifiers of documents, in order. -/
def identifiers (documents : List DocumentRow) : List String :=
  documents.map (fun row => pyStr row.documentId)

/-- Both lookups return, for every reference, and `view` shows no difference. -/
def SameLookups {V : Type} (view : List DocumentRow → V) (answers answers' : Answers)
    (refs : List Ref) : Prop :=
  ∀ ref ∈ refs, ∃ documents documents', lookupDocuments casefold answers refs ref = .ok documents
    ∧ byTitle casefold answers' ref = .ok documents' ∧ view documents = view documents'

/-- The in-memory index. -/
def memoryAnswers (index : MemoryIndex) : Answers := fun call => .ok (index.answer casefold call)

/-- The SQLite index, after some calls. -/
def storeAnswers (isDecimal : Char → Bool) (contents : String → Fingerprint → Contents Columns)
    (queryLimit rowLimit : Nat) (files : List Shard) (table : List V1Index.Document)
    (history : List Call) : Answers :=
  fun call => (answer casefold isDecimal contents queryLimit rowLimit files table call
    (afterCalls casefold isDecimal contents queryLimit rowLimit files table history)).1

end

/-- The words of the title are separated by single spaces, and nothing is around them. -/
def Ref.Collapsed (ref : Ref) : Prop :=
  ref.title.toList.map (fun c => if c = '_' then ' ' else c) = (collapseTitle ref.title).toList

instance (ref : Ref) : Decidable ref.Collapsed := inferInstanceAs (Decidable (_ = _))

/-! ## The two keys -/

section

variable {fold : Char → List Char} (hfold : CaseFolding fold)

include hfold

theorem collapsed_of_key_eq {ref ref' : Ref}
    (h : ref.key (casefold fold) = titleKey (casefold fold) ref'.language ref'.title) :
    ref.Collapsed := by
  have hfolded : (ref.title.toList.map (fun c => if c = '_' then ' ' else c)).flatMap fold
      = (joinWords (splitWords (ref'.title.toList.map (fun c => if c = '_' then ' ' else c))
          [])).flatMap fold := by
    have htitle := congrArg String.toList (congrArg Prod.snd h)
    simpa [Ref.key, directKey, titleKey, casefold, collapseTitle, joinWords] using htitle
  have hwords : ∀ w ∈ splitWords (ref'.title.toList.map (fun c => if c = '_' then ' ' else c)) [],
      IsWord w := fun w hw => isWord_of_mem_splitWords (by simp) hw
  have hjoined : ([].reverse
        ++ ref.title.toList.map (fun c => if c = '_' then ' ' else c)).flatMap fold
      = (joinWords (splitWords (ref.title.toList.map (fun c => if c = '_' then ' ' else c))
          [])).flatMap fold :=
    (flatMap_eq_of_joined hfold hwords hfolded).symm
  rw [Ref.Collapsed, collapseTitle, String.toList_ofList]
  exact eq_joinWords_of_flatMap_eq hfold hjoined

omit hfold in
theorem Ref.Collapsed.key_eq {ref : Ref} (h : ref.Collapsed) (casefold : String → String) :
    ref.key casefold = titleKey casefold ref.language ref.title := by
  rw [Ref.key, directKey, titleKey, h, String.ofList_toList]

theorem key_answered_iff {refs : List Ref} {ref : Ref} (href : ref ∈ refs) :
    Key.title (ref.key (casefold fold)).1 (ref.key (casefold fold)).2
        ∈ ((Call.byTitles (refs.map (fun ref => (ref.language, ref.title))).eraseDups).lookup
          (casefold fold)).keys
      ↔ ref.Collapsed := by
  simp only [Call.lookup, Lookup.keys, List.map_map, List.mem_eraseDups, List.mem_map,
    Function.comp_apply]
  constructor
  · rintro ⟨-, ⟨ref', -, rfl⟩, hkey⟩
    obtain ⟨hlanguage, htitle⟩ := Key.title.inj hkey
    have heq : ref.key (casefold fold) = titleKey (casefold fold) ref'.language ref'.title :=
      Prod.ext hlanguage.symm htitle.symm
    exact collapsed_of_key_eq hfold heq
  · intro hcollapsed
    refine ⟨(ref.language, ref.title), ⟨ref, href, rfl⟩, ?_⟩
    rw [hcollapsed.key_eq]

end

/-! ## The two lookups -/

/-- An index that answers the keys of every call, each with documents that are right for it. -/
def Answering (casefold : String → String) (right : Key → List DocumentRow → Prop)
    (answers : Answers) : Prop :=
  ∀ call, ∃ found, answers call = .ok found
    ∧ (∀ key, key ∈ found.map Prod.fst ↔ key ∈ (call.lookup casefold).keys)
    ∧ ∀ e ∈ found, right e.1 e.2

theorem lookup_of_answered {found : List (Key × List DocumentRow)}
    {right : Key → List DocumentRow → Prop} (hright : ∀ e ∈ found, right e.1 e.2) {key : Key}
    (hkey : key ∈ found.map Prod.fst) : right key ((found.lookup key).getD []) := by
  induction found with
  | nil => cases hkey
  | cons e found ih =>
    obtain ⟨key', documents⟩ := e
    rw [List.lookup_cons]
    by_cases heq : key = key'
    · subst heq
      rw [beq_self_eq_true]
      exact hright (key, documents) List.mem_cons_self
    · rw [beq_false_of_ne heq]
      refine ih (fun e he => hright e (List.mem_cons_of_mem _ he)) ?_
      rcases List.mem_cons.mp hkey with hhead | htail
      · exact absurd hhead heq
      · exact htail

theorem lookup_of_not_answered {found : List (Key × List DocumentRow)} {key : Key}
    (hkey : key ∉ found.map Prod.fst) : (found.lookup key).getD [] = [] := by
  induction found with
  | nil => rfl
  | cons e found ih =>
    rw [List.map_cons, List.mem_cons, not_or] at hkey
    rw [List.lookup_cons, beq_false_of_ne hkey.1]
    exact ih hkey.2

section

variable {fold : Char → List Char} (hfold : CaseFolding fold)
variable {right : Key → List DocumentRow → Prop} {answers : Answers}

theorem byTitle_spec {casefold : String → String} (hanswers : Answering casefold right answers)
    (ref : Ref) :
    ∃ documents, byTitle casefold answers ref = .ok documents
      ∧ right (ref.indexKey casefold) documents := by
  obtain ⟨found, hfound, hkeys, hright⟩ := hanswers (.byTitle ref.language ref.title)
  refine ⟨_, by rw [byTitle, hfound]; rfl, lookup_of_answered hright ?_⟩
  exact (hkeys _).mpr (List.mem_singleton_self _)

include hfold

theorem lookupDocuments_spec (hanswers : Answering (casefold fold) right answers)
    {refs : List Ref} {ref : Ref} (href : ref ∈ refs) :
    ∃ documents, lookupDocuments (casefold fold) answers refs ref = .ok documents
      ∧ (ref.Collapsed → right (ref.indexKey (casefold fold)) documents)
      ∧ (¬ ref.Collapsed → documents = []) := by
  obtain ⟨found, hfound, hkeys, hright⟩ :=
    hanswers (.byTitles (refs.map (fun ref => (ref.language, ref.title))).eraseDups)
  refine ⟨_, by rw [lookupDocuments, hfound]; rfl, ?_, ?_⟩
  · intro hcollapsed
    have hmem := (hkeys _).mpr ((key_answered_iff hfold href).mpr hcollapsed)
    rw [Ref.indexKey, ← hcollapsed.key_eq (casefold fold)]
    exact lookup_of_answered hright hmem
  · intro hnot
    apply lookup_of_not_answered
    intro hmem
    exact hnot ((key_answered_iff hfold href).mp ((hkeys _).mp hmem))

/-- **When the lookups agree.** What is right for a key is determined, up to `view`. -/
theorem sameLookups_iff {V : Type} {view : List DocumentRow → V} {answers' : Answers}
    (hanswers : Answering (casefold fold) right answers)
    (hanswers' : Answering (casefold fold) right answers')
    (hview : ∀ key documents documents', right key documents → right key documents' →
      view documents = view documents')
    {absent : Key → Prop}
    (habsent : ∀ key documents, right key documents → (view [] = view documents ↔ absent key))
    (refs : List Ref) :
    SameLookups (casefold fold) view answers answers' refs
      ↔ ∀ ref ∈ refs, ref.Collapsed ∨ absent (ref.indexKey (casefold fold)) := by
  constructor
  · intro h ref href
    obtain ⟨documents, documents', hlookup, hbyTitle, heq⟩ := h ref href
    obtain ⟨found, hlookup', -, hnot⟩ := lookupDocuments_spec hfold hanswers href
    obtain ⟨found', hbyTitle', hright⟩ := byTitle_spec hanswers' ref
    cases hlookup.symm.trans hlookup'
    cases hbyTitle.symm.trans hbyTitle'
    by_cases hcollapsed : ref.Collapsed
    · exact Or.inl hcollapsed
    · rw [hnot hcollapsed] at heq
      exact Or.inr ((habsent _ _ hright).mp heq)
  · intro h ref href
    obtain ⟨documents, hlookup, hyes, hnot⟩ := lookupDocuments_spec hfold hanswers href
    obtain ⟨documents', hbyTitle, hright⟩ := byTitle_spec hanswers' ref
    refine ⟨documents, documents', hlookup, hbyTitle, ?_⟩
    by_cases hcollapsed : ref.Collapsed
    · exact hview _ _ _ (hyes hcollapsed) hright
    · rw [hnot hcollapsed]
      exact (habsent _ _ hright).mpr ((h ref href).resolve_left hcollapsed)

end

/-! ## The in-memory index -/

theorem memoryAnswers_answering (casefold : String → String) (index : MemoryIndex) :
    Answering casefold (fun key documents => documents = index.rows key)
      (memoryAnswers casefold index) := by
  intro call
  refine ⟨index.answer casefold call, rfl, ?_, ?_⟩
  · intro key
    rw [MemoryIndex.answer, List.map_map]
    have hid : ((call.lookup casefold).keys.map (Prod.fst ∘ fun key => (key, index.rows key)))
        = (call.lookup casefold).keys := List.map_id' _
    rw [hid]
  · intro e he
    obtain ⟨key, -, rfl⟩ := List.mem_map.mp he
    rfl

/-! ## The SQLite index -/

section

variable {isDecimal : Char → Bool} {contents : String → Fingerprint → Contents Columns}
variable {queryLimit rowLimit : Nat} {files : List Shard} {table : List V1Index.Document}
variable {load : V1Index.Document → DocumentRow}

/-- The right answers: the documents with a row in the table under the key, each with the contents
of one of its rows. -/
def RightFor (load : V1Index.Document → DocumentRow) (table : List V1Index.Document) (key : Key)
    (documents : List DocumentRow) : Prop :=
  ∃ result, documents = result.map Prod.snd ∧ Correct load table key result

variable (hload : ∀ d ∈ table, loadRow isDecimal contents files d = .ok (load d))

include hload

theorem answer_hold (casefold : String → String) (call : Call) {caches : Caches DocumentRow}
    (hcaches : CachesHold table load (Correct load table) caches) :
    ∃ found caches', answer casefold isDecimal contents queryLimit rowLimit files table call caches
        = (.ok found, caches')
      ∧ CachesHold table load (Correct load table) caches'
      ∧ (∀ key, key ∈ found.map Prod.fst ↔ key ∈ (call.lookup casefold).keys)
      ∧ ∀ e ∈ found, RightFor load table e.1 e.2 := by
  obtain ⟨results, caches', hanswer, hcaches', hkeys, hresults⟩ :=
    answerLookup_hold queryLimit rowLimit hload
      (fun lookup chunk d hd => (mem_selectRows.mp (mem_firstByDocument hd)).1)
      (fun key result hids hloaded => (⟨hids, hloaded⟩ : Correct load table key result))
      (call.lookup casefold) hcaches
  refine ⟨results.map (fun e => (e.1, e.2.map Prod.snd)), caches', by rw [answer, hanswer],
    hcaches', ?_, ?_⟩
  · intro key
    rw [← hkeys key, List.map_map]
    rfl
  · intro e he
    obtain ⟨e', he', rfl⟩ := List.mem_map.mp he
    exact ⟨e'.2, rfl, hresults e' he'⟩

theorem afterCalls_hold (casefold : String → String) (history : List Call) :
    CachesHold table load (Correct load table)
      (afterCalls casefold isDecimal contents queryLimit rowLimit files table history) := by
  induction history using List.reverseRecOn with
  | nil => exact ⟨by simp [afterCalls, Caches.empty], by simp [afterCalls, Caches.empty]⟩
  | append_singleton history call ih =>
    obtain ⟨found, caches', hanswer, hcaches', -⟩ := answer_hold hload casefold call ih
    rw [afterCalls, List.foldl_append]
    show CachesHold table load (Correct load table)
      (answer casefold isDecimal contents queryLimit rowLimit files table call
        (afterCalls casefold isDecimal contents queryLimit rowLimit files table history)).2
    rw [hanswer]
    exact hcaches'

theorem storeAnswers_answering (casefold : String → String) (history : List Call) :
    Answering casefold (RightFor load table)
      (storeAnswers casefold isDecimal contents queryLimit rowLimit files table history) := by
  intro call
  obtain ⟨found, caches', hanswer, -, hkeys, hright⟩ :=
    answer_hold hload casefold call (afterCalls_hold hload casefold history)
  exact ⟨found, by rw [storeAnswers, hanswer], hkeys, hright⟩

end

section

variable {table : List V1Index.Document} {load : V1Index.Document → DocumentRow}

theorem RightFor.identifiers_eq (hid : ∀ d ∈ table, pyStr (load d).documentId = d.documentId)
    {key : Key} {documents : List DocumentRow} (h : RightFor load table key documents) :
    identifiers documents = sortedIds (table.filter key.selects) := by
  obtain ⟨result, rfl, hids, hloaded⟩ := h
  rw [← hids, identifiers, List.map_map]
  apply List.map_congr_left
  intro e he
  obtain ⟨d, hd, hde, hrow⟩ := hloaded e he
  show pyStr e.2.documentId = e.1
  rw [hrow, hid d hd, hde]

theorem sortedIds_eq_nil_iff {rows : List V1Index.Document} : sortedIds rows = [] ↔ rows = [] := by
  constructor
  · intro h
    cases rows with
    | nil => rfl
    | cons d rows =>
      have hmem : d.documentId ∈ sortedIds (d :: rows) :=
        mem_sortedIds.mpr ⟨d, List.mem_cons_self, rfl⟩
      rw [h] at hmem
      cases hmem
  · rintro rfl
    rfl

theorem RightFor.unique
    (hone : ∀ d ∈ table, ∀ e ∈ table, d.documentId = e.documentId → load d = load e) {key : Key}
    {documents documents' : List DocumentRow} (h : RightFor load table key documents)
    (h' : RightFor load table key documents') : documents = documents' := by
  obtain ⟨result, rfl, hids, hloaded⟩ := h
  obtain ⟨result', rfl, hids', hloaded'⟩ := h'
  have hpairs : result = result' := by
    apply pairs_eq _ (hids.trans hids'.symm) hloaded hloaded'
    rintro id row row' ⟨d, hd, hde, rfl⟩ ⟨e, he, hee, rfl⟩
    exact hone d hd e he (hde.trans hee.symm)
  rw [hpairs]

end

/-! ## The agreement -/

/-- The table has no row under the key. -/
def Absent (table : List V1Index.Document) (key : Key) : Prop :=
  ∀ d ∈ table, key.selects d = false

/-- The rows that the shards have for a document have the same contents. -/
def OneRow (isDecimal : Char → Bool) (contents : String → Fingerprint → Contents Columns)
    (files : List Shard) (table : List V1Index.Document) : Prop :=
  ∀ d ∈ table, ∀ e ∈ table, d.documentId = e.documentId →
    loadRow isDecimal contents files d = loadRow isDecimal contents files e

theorem absent_iff {table : List V1Index.Document} {key : Key} :
    table.filter key.selects = [] ↔ Absent table key := by
  rw [List.filter_eq_nil_iff, Absent]
  simp only [Bool.not_eq_true]

section

variable {fold : Char → List Char} {isDecimal : Char → Bool}
variable {contents : String → Fingerprint → Contents Columns}

/-- **When batched and single lookups agree**, for the in-memory index and for the SQLite index of
the same shards, whatever it has been asked before: the titles are collapsed, but for those of
which the index knows nothing. The SQLite index finds the same documents then, with the same
contents if all shards have the same for a document. -/
theorem titles_agree_iff (hfold : CaseFolding fold) {shards : ShardSet} {db₀ db : Database}
    {index : MemoryIndex} (hreachable : Reachable (casefold fold) contents db₀)
    (hfiles : ∀ d ∈ db₀.documents, d.sourcePath ∈ shards.files.map Shard.path)
    {stop : StopPoint → Bool}
    (hrun : Prog.run (sync (casefold fold) contents stop shards.files) db₀ = (.ok true, db))
    (hbuild : buildInMemoryIndex (casefold fold) isDecimal contents shards.files = .ok index)
    (queryLimit rowLimit : Nat) (refs : List Ref) :
    (SameLookups (casefold fold) id (memoryAnswers (casefold fold) index)
        (memoryAnswers (casefold fold) index) refs
      ↔ ∀ ref ∈ refs, ref.Collapsed ∨ index.rows (ref.indexKey (casefold fold)) = [])
    ∧ ∀ history history',
      (SameLookups (casefold fold) identifiers
          (storeAnswers (casefold fold) isDecimal contents queryLimit rowLimit shards.files
            db.documents history)
          (storeAnswers (casefold fold) isDecimal contents queryLimit rowLimit shards.files
            db.documents history') refs
        ↔ ∀ ref ∈ refs, ref.Collapsed ∨ Absent db.documents (ref.indexKey (casefold fold)))
      ∧ (OneRow isDecimal contents shards.files db.documents →
        (SameLookups (casefold fold) id
            (storeAnswers (casefold fold) isDecimal contents queryLimit rowLimit shards.files
              db.documents history)
            (storeAnswers (casefold fold) isDecimal contents queryLimit rowLimit shards.files
              db.documents history') refs
          ↔ ∀ ref ∈ refs, ref.Collapsed ∨ Absent db.documents (ref.indexKey (casefold fold)))) := by
  have hfinal := Prog.wp_run (sync_wp stop hreachable.consistent shards.nodup)
  rw [hrun] at hfinal
  obtain ⟨-, hindexed, -, -⟩ := hfinal
  have htable : ∀ d, d ∈ db.documents
      ↔ ∃ s ∈ shards.files, FirstInShard (casefold fold) contents s d :=
    fun d => mem_documents_iff hreachable hfiles hrun
  have hsound : ∀ s ∈ shards.files, Sound contents s := fun s hs => (hindexed s hs).sound
  have hload : ∀ d ∈ db.documents, loadRow isDecimal contents shards.files d
      = .ok (rowFor isDecimal contents shards.files d) :=
    fun d hd => (rowOf_of_mem htable shards.nodup hsound hbuild hd).load
  have hid := (views_of_build htable shards.nodup hsound hbuild).documentId
  have hids : ∀ key documents, RightFor (rowFor isDecimal contents shards.files) db.documents key
      documents → identifiers documents = sortedIds (db.documents.filter key.selects) :=
    fun key documents h => h.identifiers_eq hid
  have habsent : ∀ key documents, RightFor (rowFor isDecimal contents shards.files) db.documents
      key documents → (identifiers [] = identifiers documents ↔ Absent db.documents key) := by
    intro key documents h
    rw [hids key documents h, eq_comm, ← absent_iff]
    exact sortedIds_eq_nil_iff
  refine ⟨?_, ?_⟩
  · have hmemory := memoryAnswers_answering (casefold fold) index
    have hnone : ∀ key documents, documents = index.rows key →
        (id [] = id documents ↔ (fun key => index.rows key = []) key) := by
      rintro key documents rfl
      exact eq_comm
    refine sameLookups_iff hfold hmemory hmemory ?_ hnone refs
    rintro key documents documents' rfl rfl
    rfl
  · intro history history'
    have hanswers : ∀ history, Answering (casefold fold)
        (RightFor (rowFor isDecimal contents shards.files) db.documents)
        (storeAnswers (casefold fold) isDecimal contents queryLimit rowLimit shards.files
          db.documents history) := storeAnswers_answering hload (casefold fold)
    refine ⟨?_, ?_⟩
    · refine sameLookups_iff hfold (hanswers history) (hanswers history') ?_ habsent refs
      intro key documents documents' h h'
      rw [hids key documents h, hids key documents' h']
    · intro hone
      have hone' : ∀ d ∈ db.documents, ∀ e ∈ db.documents, d.documentId = e.documentId →
          rowFor isDecimal contents shards.files d = rowFor isDecimal contents shards.files e := by
        intro d hd e he hde
        have heq := hone d hd e he hde
        rw [hload d hd, hload e he] at heq
        exact Except.ok.inj heq
      refine sameLookups_iff hfold (hanswers history) (hanswers history') ?_ ?_ refs
      · intro key documents documents' h h'
        exact h.unique hone' h'
      · intro key documents h
        rw [← habsent key documents h]
        constructor
        · intro hnil
          exact congrArg identifiers hnil
        · intro hnil
          exact (List.map_eq_nil_iff.mp hnil.symm).symm

end

/-! ## A doubled space -/

namespace TitleExample

/-- Case folding of ASCII text. -/
def asciiFold (c : Char) : List Char := [c.toLower]

theorem toLower_spec (c : Char) :
    (isSpace c = true → c.toLower = c) ∧ (isSpace c = false → isSpace c.toLower = false) := by
  by_cases hc : c.toNat < 128
  · have hall : ∀ n < 128, (isSpace (Char.ofNat n) = true → (Char.ofNat n).toLower = Char.ofNat n)
        ∧ (isSpace (Char.ofNat n) = false → isSpace (Char.ofNat n).toLower = false) := by
      decide +kernel
    have hchar := hall c.toNat hc
    rw [Char.ofNat_toNat] at hchar
    exact hchar
  · -- only letters up to `Z` are changed
    have hkeep : c.toLower = c := by
      unfold Char.toLower
      rw [dif_neg]
      rintro ⟨-, hle⟩
      have hle' : c.toNat ≤ 90 := hle
      omega
    rw [hkeep]
    exact ⟨fun _ => rfl, fun h => h⟩

theorem asciiFold_caseFolding : CaseFolding asciiFold := by
  refine ⟨?_, ?_, ?_⟩
  · intro c hc
    rw [asciiFold, (toLower_spec c).1 hc]
  · intro c
    simp [asciiFold]
  · intro c hc c' hc'
    rw [List.mem_singleton.mp hc']
    exact (toLower_spec c).2 hc

abbrev fold : String → String := casefold asciiFold

def fooContents : String → Fingerprint → Contents Columns :=
  V1Index.Example.pageContents "Foo Bar" "Foo Bar"

def shards : List Shard := V1Index.Example.twoShards.files

def fooDatabase : Database :=
  (Prog.run (sync fold fooContents (fun _ => false) shards) Database.empty).2

/-- The index in SQLite. -/
def stored : Answers :=
  storeAnswers fold Char.isDigit fooContents 4096 10000 shards fooDatabase.documents []

/-- What `parse_wikipedia_tags` makes of `wikipedia=en:Foo Bar`. -/
def tidyRef : Ref := ⟨"en", "Foo Bar", "wikipedia", "en:Foo Bar"⟩

/-- What it makes of `wikipedia=en:Foo  Bar`, with two spaces. -/
def untidyRef : Ref := ⟨"en", "Foo  Bar", "wikipedia", "en:Foo  Bar"⟩

/-- Both ways find the page under its title as the shards have it. -/
theorem tidyRef_found : ∃ index, buildInMemoryIndex fold Char.isDigit fooContents shards = .ok index
      ∧ Prog.run (sync fold fooContents (fun _ => false) shards) Database.empty
        = (.ok true, fooDatabase)
      ∧ SameLookups fold id (memoryAnswers fold index) (memoryAnswers fold index) [tidyRef]
      ∧ SameLookups fold id stored stored [tidyRef] := by
  have hrun : Prog.run (sync fold fooContents (fun _ => false) shards) Database.empty
      = (.ok true, fooDatabase) := rfl
  have hone : OneRow Char.isDigit fooContents shards fooDatabase.documents := by
    unfold OneRow
    decide
  have hcollapsed : ∀ ref ∈ [tidyRef], ref.Collapsed := by decide
  cases hbuild : buildInMemoryIndex fold Char.isDigit fooContents shards with
  | error e => cases hbuild
  | ok index =>
    obtain ⟨hmemory, hstore⟩ := titles_agree_iff asciiFold_caseFolding .empty
      (by simp [Database.empty]) hrun hbuild 4096 10000 [tidyRef]
    refine ⟨index, rfl, hrun, ?_, ?_⟩
    · exact hmemory.mpr (fun ref href => Or.inl (hcollapsed ref href))
    · exact ((hstore [] []).2 hone).mpr (fun ref href => Or.inl (hcollapsed ref href))

theorem not_sameLookups {answers : Answers}
    (hlookup : lookupDocuments fold answers [untidyRef] untidyRef = .ok [])
    (hbyTitle : byTitle fold answers untidyRef = .ok [V1Index.Example.pageRow "Foo Bar"]) :
    ¬ SameLookups fold identifiers answers answers [untidyRef] := by
  intro h
  obtain ⟨documents, documents', hlookup', hbyTitle', heq⟩ := h untidyRef List.mem_cons_self
  cases hlookup'.symm.trans hlookup
  cases hbyTitle'.symm.trans hbyTitle
  cases heq

/-- **The page is not found in a batch.** `by_title` has it, but the dictionary of `by_titles` is
read under a key with two spaces. -/
theorem untidyRef_not_found :
    ∃ index, buildInMemoryIndex fold Char.isDigit fooContents shards = .ok index
      ∧ Prog.run (sync fold fooContents (fun _ => false) shards) Database.empty
        = (.ok true, fooDatabase)
      ∧ ¬ SameLookups fold identifiers (memoryAnswers fold index) (memoryAnswers fold index)
        [untidyRef]
      ∧ ¬ SameLookups fold identifiers stored stored [untidyRef] := by
  cases hbuild : buildInMemoryIndex fold Char.isDigit fooContents shards with
  | error e => cases hbuild
  | ok index =>
    refine ⟨index, rfl, rfl, not_sameLookups ?_ ?_, not_sameLookups (by decide) (by decide)⟩
    · cases hbuild
      decide
    · cases hbuild
      decide

end TitleExample

end OsmPolygonWikidata.Direct
