import OsmPolygonWikidata.Direct.RegionMerge

/-! # The two passes of a merge

The client never fails and returns pages under the title they were asked for, and the rows of the
index are V1 documents. Then a reference gets the first row the index has for it, or else the page
that was fetched: of the pages of references with the same key the one with the smallest identifier
(`pageOf`). It does not matter which other references the index had when the pages were fetched
(`ResultOf.row`), nor that a pass selects from the results of an earlier pass.
-/

namespace OsmPolygonWikidata.Direct

open V1Index Python

local instance lawfulBEq_linkKey : LawfulBEq (String × String × String) := inferInstance

/-! ## Clients and rows -/

section

variable {B : Type}

/-- A client that returns pages under the title they were asked for. A page has one title. -/
structure TitledClient (fetch : String → String → FetchResult B) : Prop where
  title : ∀ language title article, (fetch language title).article = some article →
    article.language = language ∧ article.title = title
  oneTitle : ∀ language title article language' title' article',
    (fetch language title).article = some article →
    (fetch language' title').article = some article' →
    (articleDocument article).documentId = (articleDocument article').documentId →
    language = language' ∧ title = title'

/-- The document fetched for a reference. -/
def pageFor (fetch : String → String → FetchResult B) (ref : Ref) : Option (Document B) :=
  resultDocument (fetch ref.language ref.title)

/-- A title whose words are separated by single spaces. -/
def CollapsedTitle (title : String) : Prop :=
  title.toList.map (fun c => if c = '_' then ' ' else c) = (collapseTitle title).toList

/-- A V1 document: the title of a page, and an identifier that begins with a QID. -/
structure V1Document (d : Document B) : Prop where
  collapsed : CollapsedTitle d.title
  nonempty : d.documentId ≠ ""
  qid : ¬ "osm:".toList <+: d.documentId.toList

/-- An index of V1 documents, filed under their keys. -/
def IsV1Index (casefold : String → String) (index : Index B) : Prop :=
  ∀ key, ∀ d ∈ index.rows key, V1Document d ∧ titleKey casefold d.language d.title = key

theorem resultDocument_eq_some {result : FetchResult B} {d : Document B}
    (h : resultDocument result = some d) :
    ∃ article, result.article = some article ∧ d.documentId = (articleDocument article).documentId
      ∧ d.language = article.language ∧ d.title = article.title := by
  obtain ⟨article, harticle, hd⟩ := Option.map_eq_some_iff.mp h
  refine ⟨article, harticle, ?_⟩
  rw [← hd]
  split <;> exact ⟨rfl, rfl, rfl⟩

theorem osm_prefix (article : Article B) :
    "osm:".toList <+: (articleDocument article).documentId.toList := by
  have hid : (articleDocument article).documentId
      = "osm" ++ ":wikipedia:" ++ article.language ++ ":" ++ toString article.pageId ++ ":"
        ++ toString article.revisionId := rfl
  rw [hid]
  refine ⟨"wikipedia:".toList ++ article.language.toList ++ ":".toList
    ++ (toString article.pageId).toList ++ ":".toList ++ (toString article.revisionId).toList, ?_⟩
  simp

variable {casefold : String → String} {fetch : String → String → FetchResult B}

theorem TitledClient.key (hfetch : TitledClient fetch) {ref : Ref} {d : Document B}
    (h : pageFor fetch ref = some d) : d.key casefold = ref.key casefold := by
  obtain ⟨article, harticle, -, hlanguage, htitle⟩ := resultDocument_eq_some h
  obtain ⟨hlanguage', htitle'⟩ := hfetch.title _ _ _ harticle
  unfold Document.key Ref.key
  rw [hlanguage, htitle, hlanguage', htitle']

theorem TitledClient.eq_of_documentId (hfetch : TitledClient fetch) {ref ref' : Ref}
    {d d' : Document B} (h : pageFor fetch ref = some d) (h' : pageFor fetch ref' = some d')
    (hid : d.documentId = d'.documentId) : d = d' := by
  obtain ⟨article, harticle, hd, -⟩ := resultDocument_eq_some h
  obtain ⟨article', harticle', hd', -⟩ := resultDocument_eq_some h'
  obtain ⟨hlanguage, htitle⟩ := hfetch.oneTitle _ _ _ _ _ _ harticle harticle'
    (hd.symm.trans (hid.trans hd'))
  unfold pageFor at h h'
  rw [hlanguage, htitle, h'] at h
  exact (Option.some.inj h).symm

theorem V1Document.documentId_ne {d : Document B} (hd : V1Document d) {ref : Ref}
    {page : Document B} (hpage : pageFor fetch ref = some page) :
    d.documentId ≠ page.documentId := by
  intro hid
  obtain ⟨article, -, hpageId, -⟩ := resultDocument_eq_some hpage
  refine hd.qid ?_
  rw [hid, hpageId]
  exact osm_prefix article

end

/-! ## Lawful matches -/

section

variable {B : Type}

/-- The matches of references, as an index of V1 documents gives them. -/
structure LawfulMatches (casefold : String → String) (refs : List Ref) (found : Matches B) : Prop where
  rows : ∀ ref ∈ refs, ∀ d ∈ found (ref.key casefold), V1Document d
    ∧ titleKey casefold d.language d.title = titleKey casefold ref.language ref.title
  spread : ∀ ref ∈ refs, ∀ ref' ∈ refs, ref.Collapsed →
    titleKey casefold ref.language ref.title = titleKey casefold ref'.language ref'.title →
    found (ref'.key casefold) ≠ [] → found (ref.key casefold) ≠ []

variable {fold : Char → List Char} (hfold : CaseFolding fold) {refs : List Ref} {found : Matches B}

include hfold

theorem LawfulMatches.key_ne (h : LawfulMatches (casefold fold) refs found) {ref ref' : Ref}
    (href : ref ∈ refs) (href' : ref' ∈ refs) (hnil : found (ref.key (casefold fold)) = [])
    {d : Document B} (hd : d ∈ found (ref'.key (casefold fold))) :
    d.key (casefold fold) ≠ ref.key (casefold fold) := by
  intro hkey
  obtain ⟨hv1, htitleKey⟩ := h.rows ref' href' d hd
  -- the document read as a reference
  let page : Ref := ⟨d.language, d.title, "", ""⟩
  have hpage : page.Collapsed := hv1.collapsed
  have hpageKey : d.key (casefold fold) = titleKey (casefold fold) d.language d.title :=
    hpage.key_eq (casefold fold)
  have hsame : ref.key (casefold fold) = titleKey (casefold fold) page.language page.title := by
    rw [← hkey, hpageKey]
  have hcollapsed : ref.Collapsed := collapsed_of_key_eq hfold hsame
  refine h.spread ref href ref' href' hcollapsed ?_ (List.ne_nil_of_mem hd) hnil
  rw [← hcollapsed.key_eq (casefold fold), ← hkey, hpageKey, htitleKey]

omit hfold in
theorem lawful_of_served {index : Index B} (hindex : IsV1Index (casefold fold) index)
    (hfound : ∀ ref ∈ refs, found (ref.key (casefold fold)) = served (casefold fold) index ref) :
    LawfulMatches (casefold fold) refs found where
  rows := by
    intro ref href d hd
    rw [hfound ref href] at hd
    unfold served at hd
    split at hd
    · cases hd
    · exact hindex _ d hd
  spread := by
    intro ref href ref' href' hcollapsed hkey hne
    rw [hfound ref href]
    rw [hfound ref' href'] at hne
    unfold served at hne ⊢
    split at hne
    · exact absurd rfl hne
    · rw [if_neg (fun hnot => hnot.2 hcollapsed), hkey]
      exact hne

omit hfold in
theorem served_subset {index later : Index B} (hcontained : Contained index later)
    {casefold : String → String} {ref : Ref} :
    ∀ d ∈ served casefold index ref, d ∈ served casefold later ref := by
  intro d hd
  unfold served at hd ⊢
  rw [← hcontained.batched]
  split at hd
  · cases hd
  · rename_i hcond
    rw [if_neg hcond]
    exact hcontained.rows _ d hd

omit hfold in
theorem served_eq_nil {index later : Index B} (hcontained : Contained index later)
    {casefold : String → String} {ref : Ref} (h : served casefold later ref = []) :
    served casefold index ref = [] := by
  rw [List.eq_nil_iff_forall_not_mem] at h ⊢
  exact fun d hd => h d (served_subset hcontained d hd)

end

/-! ## Selecting a page by its title -/

section

variable {B : Type} {casefold : String → String}

theorem build_unique (rows : List (Document B)) :
    ∀ d ∈ Dict.build Document.documentId rows, ∀ e ∈ Dict.build Document.documentId rows,
      d.documentId = e.documentId → d = e := fun _ hd _ he =>
  (Dict.mem_build_iff.mp hd).eq_of_key_eq (Dict.mem_build_iff.mp he)

theorem head?_directDocumentsByTitle_congr {rows rows' : List (Document B)} {key : String × String}
    (h : ∀ d : Document B, d.key casefold = key → (d ∈ Dict.build Document.documentId rows
      ↔ d ∈ Dict.build Document.documentId rows')) :
    (directDocumentsByTitle casefold (Dict.build Document.documentId rows) key).head?
      = (directDocumentsByTitle casefold (Dict.build Document.documentId rows') key).head? := by
  refine Option.ext (fun d => ?_)
  rw [head?_directDocumentsByTitle (build_unique rows),
    head?_directDocumentsByTitle (build_unique rows')]
  constructor
  · rintro ⟨hd, hkey, hmin⟩
    exact ⟨(h d hkey).mp hd, hkey, fun e he hek => hmin e ((h e hek).mpr he) hek⟩
  · rintro ⟨hd, hkey, hmin⟩
    exact ⟨(h d hkey).mpr hd, hkey, fun e he hek => hmin e ((h e hek).mp he) hek⟩

variable (casefold) (fetch : String → String → FetchResult B) (refs : List Ref)

/-- The page that the title of a reference selects among the pages of all references. -/
def pageOf (ref : Ref) : Option (Document B) :=
  (directDocumentsByTitle casefold (Dict.build Document.documentId (refs.filterMap (pageFor fetch)))
    (ref.key casefold)).head?

/-- The row of a reference: the first one that is found, or a page. -/
def rowOf (found : Matches B) (ref : Ref) : Option (Document B) :=
  match found (ref.key casefold) with
  | d :: _ => some d
  | [] => pageOf casefold fetch refs ref

/-- The rows of all references. -/
def rowsOf (found : Matches B) : List (Document B) :=
  refs.filterMap (rowOf casefold fetch refs found)

/-- The rows that enriching stores: those that are found, then the pages of the others. -/
def enrichedRows (found : Matches B) : List (Document B) :=
  refs.filterMap (fun ref => (found (ref.key casefold)).head?)
    ++ (refs.filter (fun ref => (found (ref.key casefold)).isEmpty)).filterMap (pageFor fetch)

variable {casefold fetch refs}

theorem mem_pageOf {ref : Ref} {d : Document B} (h : pageOf casefold fetch refs ref = some d) :
    d.key casefold = ref.key casefold ∧ ∃ ref' ∈ refs, pageFor fetch ref' = some d := by
  obtain ⟨hmem, hkey, -⟩ := (head?_directDocumentsByTitle (build_unique _)).mp h
  exact ⟨hkey, List.mem_filterMap.mp (Dict.mem_build_iff.mp hmem).mem⟩

theorem last_iff_mem_of_page (hfetch : TitledClient fetch) {rows : List (Document B)}
    (hrows : ∀ d ∈ rows, V1Document d ∨ ∃ ref, pageFor fetch ref = some d) {ref : Ref}
    {page : Document B} (hpage : pageFor fetch ref = some page) :
    page ∈ Dict.build Document.documentId rows ↔ page ∈ rows := by
  rw [Dict.mem_build_iff, Dict.last_iff_mem]
  intro d hd hid
  rcases hrows d hd with hv1 | ⟨ref', href'⟩
  · exact absurd hid (hv1.documentId_ne hpage)
  · exact hfetch.eq_of_documentId href' hpage hid

variable {fold : Char → List Char} {found : Matches B}

variable (fetch) in
theorem enrichedRows_sources {casefold : String → String} (hfound : LawfulMatches casefold refs found) :
    ∀ d ∈ enrichedRows casefold fetch refs found,
      V1Document d ∨ ∃ ref, pageFor fetch ref = some d := by
  intro d hd
  rcases List.mem_append.mp hd with hd | hd
  · obtain ⟨ref', href', hhead⟩ := List.mem_filterMap.mp hd
    exact Or.inl (hfound.rows ref' href' d (List.mem_of_head? hhead)).1
  · obtain ⟨ref', -, hpage⟩ := List.mem_filterMap.mp hd
    exact Or.inr ⟨ref', hpage⟩

/-- **Which references an index had does not matter** to one that it did not have. -/
theorem head?_enrichedRows (hfold : CaseFolding fold) (hfetch : TitledClient fetch)
    (hfound : LawfulMatches (Python.casefold fold) refs found) {ref : Ref} (href : ref ∈ refs)
    (hnil : found (ref.key (Python.casefold fold)) = []) :
    (directDocumentsByTitle (Python.casefold fold) (Dict.build Document.documentId
        (enrichedRows (Python.casefold fold) fetch refs found))
      (ref.key (Python.casefold fold))).head? = pageOf (Python.casefold fold) fetch refs ref := by
  refine head?_directDocumentsByTitle_congr (fun d hkey => ?_)
  have hrows := enrichedRows_sources fetch hfound
  have hpages : ∀ d ∈ refs.filterMap (pageFor fetch),
      V1Document d ∨ ∃ ref, pageFor fetch ref = some d := by
    intro d hd
    obtain ⟨ref', -, hpage⟩ := List.mem_filterMap.mp hd
    exact Or.inr ⟨ref', hpage⟩
  constructor
  · intro hd
    rcases List.mem_append.mp (Dict.mem_build_iff.mp hd).mem with hserved | hfetched
    · -- a row of the index has another key
      obtain ⟨ref', href', hhead⟩ := List.mem_filterMap.mp hserved
      exact absurd hkey (hfound.key_ne hfold href href' hnil (List.mem_of_head? hhead))
    · obtain ⟨ref', href', hpage⟩ := List.mem_filterMap.mp hfetched
      rw [last_iff_mem_of_page hfetch hpages hpage]
      exact List.mem_filterMap.mpr ⟨ref', (List.mem_filter.mp href').1, hpage⟩
  · intro hd
    obtain ⟨ref', href', hpage⟩ := List.mem_filterMap.mp (Dict.mem_build_iff.mp hd).mem
    rw [last_iff_mem_of_page hfetch hrows hpage]
    refine List.mem_append_right _ (List.mem_filterMap.mpr ⟨ref', ?_, hpage⟩)
    refine List.mem_filter.mpr ⟨href', ?_⟩
    rw [← hfetch.key hpage, hkey, hnil]
    rfl

/-- The row of a reference: the first one that is found, or the document that its title selects. -/
def selectedRow (casefold : String → String) (found : Matches B) (documents : List (Document B))
    (ref : Ref) : Option (Document B) :=
  match found (ref.key casefold) with
  | d :: _ => some d
  | [] => (directDocumentsByTitle casefold documents (ref.key casefold)).head?

variable (hfold : CaseFolding fold) (hfetch : TitledClient fetch)
  (hfound : LawfulMatches (Python.casefold fold) refs found)

include hfold hfetch hfound

/-- **Selecting again** from what was selected gives the same page. -/
theorem head?_selectedRow {sources : List (Document B)}
    (hsources : ∀ d ∈ sources, V1Document d ∨ ∃ ref, pageFor fetch ref = some d) {ref : Ref}
    (href : ref ∈ refs) (hnil : found (ref.key (Python.casefold fold)) = [])
    (hpage : (directDocumentsByTitle (Python.casefold fold)
        (Dict.build Document.documentId sources) (ref.key (Python.casefold fold))).head?
      = pageOf (Python.casefold fold) fetch refs ref) :
    (directDocumentsByTitle (Python.casefold fold) (Dict.build Document.documentId
        (refs.filterMap (selectedRow (Python.casefold fold) found
          (Dict.build Document.documentId sources))))
      (ref.key (Python.casefold fold))).head? = pageOf (Python.casefold fold) fetch refs ref := by
  have hrowOf : ∀ ref' ∈ refs, ∀ d, selectedRow (Python.casefold fold) found
      (Dict.build Document.documentId sources) ref' = some d →
      d ∈ found (ref'.key (Python.casefold fold))
        ∨ (directDocumentsByTitle (Python.casefold fold) (Dict.build Document.documentId sources)
          (ref'.key (Python.casefold fold))).head? = some d := by
    intro ref' href' d hd
    unfold selectedRow at hd
    split at hd
    · rename_i first rest hlookup
      cases hd
      exact Or.inl (by rw [hlookup]; exact List.mem_cons_self)
    · exact Or.inr hd
  have hrows : ∀ d ∈ refs.filterMap (selectedRow (Python.casefold fold) found
      (Dict.build Document.documentId sources)),
      V1Document d ∨ ∃ ref, pageFor fetch ref = some d := by
    intro d hd
    obtain ⟨ref', href', hrow⟩ := List.mem_filterMap.mp hd
    rcases hrowOf ref' href' d hrow with hserved | hselected
    · exact Or.inl (hfound.rows ref' href' d hserved).1
    · obtain ⟨hmem, -, -⟩ := (head?_directDocumentsByTitle (build_unique _)).mp hselected
      exact hsources d (Dict.mem_build_iff.mp hmem).mem
  have hself : selectedRow (Python.casefold fold) found (Dict.build Document.documentId sources) ref
      = pageOf (Python.casefold fold) fetch refs ref := by
    unfold selectedRow
    rw [hnil]
    exact hpage
  -- the page of the reference is the only candidate
  have hcandidate : ∀ d : Document B, d.key (Python.casefold fold) = ref.key (Python.casefold fold) →
      (d ∈ Dict.build Document.documentId (refs.filterMap (selectedRow (Python.casefold fold) found
          (Dict.build Document.documentId sources)))
        ↔ pageOf (Python.casefold fold) fetch refs ref = some d) := by
    intro d hkey
    constructor
    · intro hd
      obtain ⟨ref', href', hrow⟩ := List.mem_filterMap.mp (Dict.mem_build_iff.mp hd).mem
      rcases hrowOf ref' href' d hrow with hserved | hselected
      · exact absurd hkey (hfound.key_ne hfold href href' hnil hserved)
      · obtain ⟨-, hkey', -⟩ := (head?_directDocumentsByTitle (build_unique _)).mp hselected
        rw [← hpage, ← hkey, hkey']
        exact hselected
    · intro hd
      obtain ⟨-, ref', -, hfetched⟩ := mem_pageOf hd
      rw [last_iff_mem_of_page hfetch hrows hfetched]
      exact List.mem_filterMap.mpr ⟨ref, href, hself.trans hd⟩
  refine Option.ext (fun d => ?_)
  rw [head?_directDocumentsByTitle (build_unique _)]
  constructor
  · rintro ⟨hd, hkey, -⟩
    exact (hcandidate d hkey).mp hd
  · intro hd
    have hkey := (mem_pageOf hd).1
    refine ⟨(hcandidate d hkey).mpr hd, hkey, fun e he hek => ?_⟩
    have hsame := (hcandidate e hek).mp he
    rw [hd] at hsame
    rw [Option.some.inj hsame]

theorem head?_rowsOf {ref : Ref} (href : ref ∈ refs)
    (hnil : found (ref.key (Python.casefold fold)) = []) :
    (directDocumentsByTitle (Python.casefold fold) (Dict.build Document.documentId
        (rowsOf (Python.casefold fold) fetch refs found))
      (ref.key (Python.casefold fold))).head? = pageOf (Python.casefold fold) fetch refs ref := by
  have hpages : ∀ d ∈ refs.filterMap (pageFor fetch),
      V1Document d ∨ ∃ ref, pageFor fetch ref = some d := by
    intro d hd
    obtain ⟨ref', -, hpage⟩ := List.mem_filterMap.mp hd
    exact Or.inr ⟨ref', hpage⟩
  exact head?_selectedRow hfold hfetch hfound hpages href hnil rfl

omit hfold hfetch hfound

end

/-! ## The passes -/

section

variable {B E : Type} {casefold : String → String} {context : PolygonContext}
variable {fetch : String → String → FetchResult B} {errorText : E → String} {refs : List Ref}

theorem filterMap_enumerate {A : Type} (f : Ref → Option A) (refs : List Ref) :
    (enumerate 0 refs).filterMap (fun p => f p.2) = refs.filterMap f := by
  conv_rhs => rw [← map_snd_enumerate 0 refs, List.filterMap_map]
  rfl

/-- A client that has no page where another one raises. -/
def settled (client : String → String → Except E (FetchResult B)) (language title : String) :
    FetchResult B :=
  match client language title with
  | .ok result => result
  | .error _ => ⟨"error", none, ""⟩

/-- What enriching a polygon gives. -/
structure EnrichedAs (casefold : String → String)
    (client : String → String → Except E (FetchResult B)) (errorText : E → String)
    (refs : List Ref) (found : Matches B) (result : EnrichmentResult B E) : Prop where
  documents : result.documents
    = Dict.build Document.documentId (enrichedRows casefold (settled client) refs found)
  statuses : result.statuses = (enumerate 0 refs).map (statusFor casefold client errorText found)
  kept : ∀ position, (result.deferredErrors.lookup position).isSome → ∃ ref,
    (position, ref) ∈ enumerate 0 refs ∧ raises client (position, ref) = true
  raised : ∀ p ∈ enumerate 0 refs, found (p.2.key casefold) = [] → raises client p = true →
    (result.deferredErrors.lookup p.1).isSome

variable (casefold context) in
theorem enrich_eq_resolve (client : String → String → Except E (FetchResult B))
    (errorText : E → String) (refs : List Ref) (initialMatches : Matches B)
    (index later : Index B) :
    enrichWikipediaRefs casefold context client errorText refs index later
        ⟨false, some initialMatches, true⟩
      = resolvePending casefold context client errorText (fun _ => [])
          (fetchSpeculativeResults client index
            (unresolved casefold initialMatches (enumerate 0 refs)) 0 ∅) false
          (unresolved casefold initialMatches (enumerate 0 refs))
          (recordAll context ((enumerate 0 refs).filterMap (foundEntry casefold initialMatches)), ∅)
        >>= fun state => .ok ⟨state.1.documents, state.1.links,
          (List.range refs.length).filterMap (fun position => state.1.statuses.lookup position),
          state.2⟩ := by
  have hpartition : partitionReferences casefold context initialMatches (enumerate 0 refs) (.empty B)
      = (unresolved casefold initialMatches (enumerate 0 refs),
        recordAll context ((enumerate 0 refs).filterMap (foundEntry casefold initialMatches))) :=
    partitionReferences_eq initialMatches (enumerate 0 refs) []
  rw [enrichWikipediaRefs, Option.getD_some, hpartition]
  rfl

variable (casefold context errorText refs) in
/-- **Enriching a polygon** with a client that may raise. -/
theorem enrich_cases (client : String → String → Except E (FetchResult B))
    (initialMatches : Matches B) (index later : Index B) :
    (∃ e, enrichWikipediaRefs casefold context client errorText refs index later
        ⟨false, some initialMatches, true⟩ = .error e ∧ ∃ p : Nat × Ref, raises client p = true)
      ∨ ∃ result, enrichWikipediaRefs casefold context client errorText refs index later
          ⟨false, some initialMatches, true⟩ = .ok result
        ∧ EnrichedAs casefold client errorText refs initialMatches result := by
  let pending := unresolved casefold initialMatches (enumerate 0 refs)
  let entries := (enumerate 0 refs).filterMap (foundEntry casefold initialMatches)
  have hnodup : (pending.map Prod.fst).Nodup :=
    (nodup_enumerate refs).sublist (List.filter_sublist.map Prod.fst)
  have hspeculative : ∀ p ∈ pending, (fetchSpeculativeResults client index pending 0 ∅).lookup p.1
      = if p ∈ early index pending 0 then some (client p.2.language p.2.title) else none := by
    intro p hp
    rw [lookup_fetchSpeculativeResults index hnodup 0 ∅ hp, AList.lookup_empty]
  have hwait : ∀ p, p ∈ early index pending 0 → false = false := fun _ _ => rfl
  let noMatches : Matches B := fun _ => []
  have hfinal : ∀ p ∈ pending, noMatches (p.2.key casefold) = [] := fun _ _ => rfl
  have hresolve := resolvePending_eq context errorText hwait hnodup hfinal hspeculative entries ∅
  have henrich := enrich_eq_resolve casefold context client errorText refs initialMatches index later
  split at hresolve
  · rename_i hraise
    obtain ⟨e, he⟩ := hresolve
    obtain ⟨p, -, -, hp⟩ := hraise
    refine Or.inl ⟨e, ?_, p, hp⟩
    rw [henrich, he]
    rfl
  · obtain ⟨deferredErrors, hok, hframe, herrors⟩ := hresolve
    have hrows : (entriesFor casefold client errorText refs initialMatches).filterMap Entry.row
        = enrichedRows casefold (settled client) refs initialMatches := by
      rw [entriesFor, List.filterMap_append, List.filterMap_filterMap, List.filterMap_map,
        enrichedRows]
      congr 1
      · rw [← filterMap_enumerate]
        refine List.filterMap_congr (fun p _ => ?_)
        unfold foundEntry
        cases (initialMatches (p.2.key casefold)).head? <;> rfl
      · have hfilter : (refs.filter (fun ref => (initialMatches (ref.key casefold)).isEmpty))
            = pending.map Prod.snd := by
          conv_lhs => rw [← map_snd_enumerate 0 refs]
          exact List.filter_map
        rw [hfilter, List.filterMap_map]
        refine List.filterMap_congr (fun p _ => ?_)
        rw [Function.comp_apply, Function.comp_apply, fetchedEntry_row]
        unfold fetchedDocument pageFor settled
        cases client p.2.language p.2.title <;> rfl
    refine Or.inr ⟨_, henrich.trans (congrArg (· >>= _) hok), ?_, ?_, ?_, ?_⟩
    · exact (recordAll_documents _).trans (congrArg _ hrows)
    · exact entriesFor_statuses context
    · intro position hposition
      change (deferredErrors.lookup position).isSome = true at hposition
      by_cases hmem : position ∈ pending.map Prod.fst
      · obtain ⟨p, hp, rfl⟩ := List.mem_map.mp hmem
        refine ⟨p.2, (List.mem_filter.mp hp).1, ?_⟩
        rw [herrors p hp] at hposition
        unfold raises
        cases hclient : client p.2.language p.2.title with
        | error e => rfl
        | ok result =>
          rw [hclient] at hposition
          cases hposition
      · rw [hframe position hmem, AList.lookup_empty] at hposition
        cases hposition
    · intro p hp hnil hraises
      show (deferredErrors.lookup p.1).isSome = true
      have hpending : p ∈ pending := List.mem_filter.mpr ⟨hp, by simp [hnil]⟩
      rw [herrors p hpending]
      unfold raises at hraises
      cases hclient : client p.2.language p.2.title with
      | error e => rfl
      | ok result =>
        rw [hclient] at hraises
        cases hraises

/-- What enriching a polygon gives when the client never fails. -/
structure ResultOf (casefold : String → String) (fetch : String → String → FetchResult B)
    (refs : List Ref) (found : Matches B) (result : EnrichmentResult B E) : Prop where
  documents : result.documents
    = Dict.build Document.documentId (enrichedRows casefold fetch refs found)
  noErrors : ∀ position, result.deferredErrors.lookup position = none

variable (casefold context fetch errorText refs) in
/-- **Enriching a polygon** with a client that never fails. -/
theorem enrich_resultOf (initialMatches : Matches B) (index later : Index B) :
    ∃ result, enrichWikipediaRefs casefold context (fun l t => .ok (fetch l t)) errorText refs index
        later ⟨false, some initialMatches, true⟩ = .ok result
      ∧ ResultOf casefold fetch refs initialMatches result := by
  have hnever : ∀ p : Nat × Ref,
      ¬ raises (fun l t => .ok (fetch l t) : String → String → Except E (FetchResult B)) p = true :=
    fun _ h => nomatch h
  rcases enrich_cases casefold context errorText refs (fun l t => .ok (fetch l t)) initialMatches
    index later with ⟨-, -, p, hp⟩ | ⟨result, hok, hresult⟩
  · exact absurd hp (hnever p)
  · refine ⟨result, hok, hresult.documents, fun position => ?_⟩
    cases hlookup : result.deferredErrors.lookup position with
    | none => rfl
    | some e =>
      obtain ⟨ref, -, hraises⟩ := hresult.kept position (by rw [hlookup]; rfl)
      exact absurd hraises (hnever _)

variable (casefold context) in
theorem reconcileReferences_rows {result : EnrichmentResult B E}
    (hnone : ∀ position, result.deferredErrors.lookup position = none)
    (finalMatches directByTitle : Matches B) (ps : List (Nat × Ref)) (documents : List (Document B))
    (statuses : List Status) :
    ∃ statuses', reconcileReferences casefold context result finalMatches directByTitle ps
        (storeAll context documents) statuses
      = .ok (storeAll context (documents
          ++ ps.filterMap (reconciledRow casefold finalMatches directByTitle)), statuses') := by
  induction ps generalizing documents statuses with
  | nil => exact ⟨statuses, by simp [reconcileReferences]⟩
  | cons p ps ih =>
    obtain ⟨position, ref⟩ := p
    have hreference : ∃ status, reconcileReference casefold position ref result finalMatches
        directByTitle
        = .ok (status, reconciledRow casefold finalMatches directByTitle (position, ref)) := by
      unfold reconcileReference reconciledRow
      cases finalMatches (ref.key casefold) with
      | cons d ds => exact ⟨_, rfl⟩
      | nil =>
        rw [hnone]
        exact ⟨_, rfl⟩
    obtain ⟨status, hreference⟩ := hreference
    rw [reconcileReferences, hreference]
    cases hrow : reconciledRow casefold finalMatches directByTitle (position, ref) with
    | none =>
      rw [List.filterMap_cons_none hrow]
      exact ih documents _
    | some d =>
      rw [List.filterMap_cons_some hrow]
      dsimp only
      rw [← storeAll_concat]
      obtain ⟨statuses', hih⟩ := ih (documents ++ [d]) (statuses ++ status.toList)
      rw [List.append_assoc] at hih
      exact ⟨statuses', hih⟩

/-- The result of reconciling with some rows. -/
def reconciledResult (context : PolygonContext) (rows : List (Document B)) (statuses : List Status) :
    EnrichmentResult B E :=
  ⟨Dict.build Document.documentId rows, (Dict.build Document.documentId rows).map (linkRow context),
    statuses, ∅⟩

/-- **Reconciling a polygon**, if its results select the pages of the references that are not
found. -/
theorem reconcile_eq {result : EnrichmentResult B E} {index : Index B}
    {titleMatches : Option (Matches B)} {found : Matches B}
    (hnone : ∀ position, result.deferredErrors.lookup position = none)
    (hfound : titleMatches.getD (lookupTitles casefold index refs) = found)
    (hselect : ∀ ref ∈ refs, found (ref.key casefold) = [] →
      (directDocumentsByTitle casefold result.documents (ref.key casefold)).head?
        = pageOf casefold fetch refs ref) :
    ∃ statuses, reconcileWikipediaRefs casefold context refs result index titleMatches
      = .ok (reconciledResult context (rowsOf casefold fetch refs found) statuses) := by
  obtain ⟨statuses, hrows⟩ := reconcileReferences_rows casefold context hnone found
    (directDocumentsByTitle casefold result.documents) (enumerate 0 refs) [] []
  have hsame : (enumerate 0 refs).filterMap
      (reconciledRow casefold found (directDocumentsByTitle casefold result.documents))
      = rowsOf casefold fetch refs found := by
    rw [rowsOf, ← filterMap_enumerate]
    refine List.filterMap_congr (fun p hp => ?_)
    have href : p.2 ∈ refs := by
      rw [← map_snd_enumerate 0 refs]
      exact List.mem_map_of_mem hp
    unfold reconciledRow rowOf
    cases hlookup : found (p.2.key casefold) with
    | cons d ds => rfl
    | nil => exact hselect p.2 href hlookup
  rw [hsame, List.nil_append] at hrows
  refine ⟨statuses, ?_⟩
  rw [reconcileWikipediaRefs, hfound]
  refine (congrArg (· >>= _) hrows).trans ?_
  have hdocuments : (storeAll context (rowsOf casefold fetch refs found)).documents
      = Dict.build Document.documentId (rowsOf casefold fetch refs found) := storeAll_documents _
  rw [reconciledResult, ← hdocuments, ← storeAll_links]
  rfl

end

/-! ## Links with more sources -/

section

theorem mergeSources_congr {sources sources' more more' : List String}
    (h : ∀ x, x ∈ sources ++ more ↔ x ∈ sources' ++ more') :
    mergeSources sources more = mergeSources sources' more' := by
  have hperm : (sources ++ more).dedup.Perm (sources' ++ more').dedup := by
    rw [List.perm_ext_iff_of_nodup (List.nodup_dedup _) (List.nodup_dedup _)]
    intro x
    rw [List.mem_dedup, List.mem_dedup]
    exact h x
  unfold mergeSources
  refine List.Perm.eq_of_pairwise' (List.pairwise_insertionSort _ _)
    (List.pairwise_insertionSort _ _) ?_
  exact (List.perm_insertionSort _ _).trans (hperm.trans (List.perm_insertionSort _ _).symm)

theorem mem_mergeSources {sources more : List String} {x : String} :
    x ∈ mergeSources sources more ↔ x ∈ sources ∨ x ∈ more := by
  unfold mergeSources
  rw [List.mem_insertionSort, List.mem_dedup, List.mem_append]

theorem mergeSources_again (sources more : List String) :
    mergeSources (mergeSources sources more) more = mergeSources sources more := by
  refine mergeSources_congr (fun x => ?_)
  rw [List.mem_append, List.mem_append, mem_mergeSources]
  tauto

/-- A row, with the tag among its sources if its key is one of those given. -/
def tagRow (keys : List (String × String × String)) (row : LinkRow) : LinkRow :=
  if row.key ∈ keys then { row with sources := mergeSources row.sources ["osm_wikipedia_tag"] }
  else row

theorem tagRow_of_mem {keys : List (String × String × String)} {row : LinkRow}
    (h : row.key ∈ keys) : tagRow keys row
      = { row with sources := mergeSources row.sources ["osm_wikipedia_tag"] } := if_pos h

theorem tagRow_of_notMem {keys : List (String × String × String)} {row : LinkRow}
    (h : row.key ∉ keys) : tagRow keys row = row := if_neg h

theorem tagRow_key (keys : List (String × String × String)) (row : LinkRow) :
    (tagRow keys row).key = row.key := by
  unfold tagRow
  split <;> rfl

/-- The keys of links that come from tags. -/
def tagKeys (links : List Link) : List (String × String × String) :=
  links.map (fun link => (tagLink link).key)

theorem map_tagRow_keys (keys : List (String × String × String)) (links : List LinkRow) :
    (links.map (tagRow keys)).map LinkRow.key = links.map LinkRow.key := by
  rw [List.map_map]
  exact List.map_congr_left (fun row _ => tagRow_key keys row)

theorem tagRow_tagRow {keys keys' : List (String × String × String)} (row : LinkRow) :
    tagRow keys' (tagRow keys row) = tagRow (keys ++ keys') row := by
  by_cases h : row.key ∈ keys
  · rw [tagRow_of_mem h, tagRow_of_mem (List.mem_append_left _ h)]
    let tagged : LinkRow := { row with sources := mergeSources row.sources ["osm_wikipedia_tag"] }
    by_cases h' : tagged.key ∈ keys'
    · refine (tagRow_of_mem h').trans ?_
      show { row with sources := mergeSources (mergeSources row.sources _) _ } = _
      rw [mergeSources_again]
    · exact tagRow_of_notMem h'
  · rw [tagRow_of_notMem h]
    by_cases h' : row.key ∈ keys'
    · rw [tagRow_of_mem h', tagRow_of_mem (List.mem_append_right _ h')]
    · rw [tagRow_of_notMem h', tagRow_of_notMem (by simp [h, h'])]

theorem map_tagRow_eq_self {keys : List (String × String × String)} {links : List LinkRow}
    (h : ∀ row ∈ links, row.key ∉ keys) : links.map (tagRow keys) = links :=
  (List.map_congr_left (fun row hrow => tagRow_of_notMem (h row hrow))).trans (List.map_id links)

/-- **Adding links**: the rows that are there get the tag, and the others come after them. -/
theorem foldl_addLink {more : List Link} (hnodup : (tagKeys more).Nodup) (links : List LinkRow) :
    more.foldl addLink links = links.map (tagRow (tagKeys more))
        ++ (more.filter (fun link => (tagLink link).key ∉ links.map LinkRow.key)).map tagLink := by
  induction more generalizing links with
  | nil =>
    rw [map_tagRow_eq_self (by simp [tagKeys])]
    simp
  | cons link more ih =>
    obtain ⟨hnew, hnodup'⟩ := List.nodup_cons.mp hnodup
    have hkeys : tagKeys (link :: more) = [(tagLink link).key] ++ tagKeys more := rfl
    rw [List.foldl_cons, ih hnodup', hkeys]
    by_cases hmem : (tagLink link).key ∈ links.map LinkRow.key
    · -- the link is there
      have hstep : addLink links link = links.map (tagRow [(tagLink link).key]) := by
        unfold addLink
        rw [if_pos hmem]
        refine List.map_congr_left (fun row _ => ?_)
        by_cases hrow : row.key = (tagLink link).key
        · rw [if_pos hrow, tagRow_of_mem (List.mem_singleton.mpr hrow)]
          rfl
        · rw [if_neg hrow, tagRow_of_notMem (fun h => hrow (List.mem_singleton.mp h))]
      rw [hstep, map_tagRow_keys, List.map_map, List.filter_cons_of_neg (by simpa using hmem)]
      congr 1
      exact List.map_congr_left (fun row _ => tagRow_tagRow row)
    · -- the link is new
      have hstep : addLink links link = links ++ [tagLink link] := if_neg hmem
      have hfilter : more.filter (fun other =>
          (tagLink other).key ∉ (links ++ [tagLink link]).map LinkRow.key)
          = more.filter (fun other => (tagLink other).key ∉ links.map LinkRow.key) := by
        refine List.filter_congr (fun other hother => ?_)
        have hne : (tagLink other).key ≠ (tagLink link).key := by
          intro heq
          refine hnew ?_
          show (tagLink link).key ∈ tagKeys more
          rw [← heq]
          exact List.mem_map_of_mem hother
        simp [hne]
      have hlast : [tagLink link].map (tagRow (tagKeys more)) = [tagLink link] := by
        refine map_tagRow_eq_self (fun row hrow => ?_)
        rw [List.mem_singleton.mp hrow]
        exact hnew
      rw [hstep, List.map_append, hlast, hfilter, List.filter_cons_of_pos (by simpa using hmem),
        List.append_assoc]
      refine congrArg (· ++ _) ?_
      refine List.map_congr_left (fun row hrow => ?_)
      have hother : row.key ∉ [(tagLink link).key] := by
        intro hkey
        rw [← List.mem_singleton.mp hkey] at hmem
        exact hmem (List.mem_map_of_mem hrow)
      rw [← tagRow_tagRow, tagRow_of_notMem hother]

theorem sharedRows_foldl_addLink {base : List LinkRow} (hbase : (base.map LinkRow.key).Nodup)
    {more : List Link} (hnodup : (tagKeys more).Nodup) :
    sharedRows base (more.foldl addLink base) = base.map (tagRow (tagKeys more)) := by
  rw [foldl_addLink hnodup]
  unfold sharedRows
  refine List.map_congr_left (fun row hrow => ?_)
  have hfind : (base.map (tagRow (tagKeys more))).find? (fun other => other.key = row.key)
      = some (tagRow (tagKeys more) row) := by
    rw [List.find?_map]
    have hself : base.find? ((fun other : LinkRow => decide (other.key = row.key))
        ∘ tagRow (tagKeys more)) = some row := by
      cases hcase : base.find? ((fun other : LinkRow => decide (other.key = row.key))
          ∘ tagRow (tagKeys more)) with
      | none =>
        have hnot := List.find?_eq_none.mp hcase row hrow
        simp [tagRow_key] at hnot
      | some other =>
        have hkey := List.find?_some hcase
        rw [Function.comp_apply, tagRow_key, decide_eq_true_eq] at hkey
        exact congrArg some (List.inj_on_of_nodup_map hbase (List.mem_of_find?_eq_some hcase) hrow
          hkey)
    rw [hself]
    rfl
  rw [List.find?_append, hfind]
  rfl

end

/-! ## All polygons -/

variable {B E P : Type}

/-- What a lookup gives each polygon. -/
abbrev Finding (B : Type) := PolygonContext × List Ref → Matches B

variable (casefold : String → String) (fetch : String → String → FetchResult B)

/-- The documents that a polygon gets. -/
def polygonDocuments (finding : Finding B) (input : PolygonContext × List Ref) :
    List (Document B) :=
  Dict.build Document.documentId (rowsOf casefold fetch input.2 (finding input))

/-- The documents that all polygons get. -/
def foundDocuments (finding : Finding B) (inputs : MergeInputs B P) : List (Document B) :=
  inputs.directInputs.flatMap (polygonDocuments casefold fetch finding)

/-- The links from the polygons to their documents. -/
def foundLinks (finding : Finding B) (inputs : MergeInputs B P) : List Link :=
  inputs.directInputs.flatMap (fun input =>
    (polygonDocuments casefold fetch finding input).map (linkRow input.1))

/-- The documents of V1, and those that the polygons get. -/
def regionDocuments (finding : Finding B) (inputs : MergeInputs B P) : List (Document B) :=
  (foundDocuments casefold fetch finding inputs).foldl
    (fun documents d => Dict.put Document.documentId d documents) inputs.baseDocuments

/-- The links to some rows for each polygon. -/
def linksTo (rows : PolygonContext × List Ref → List (Document B)) (inputs : MergeInputs B P) :
    List Link :=
  inputs.directInputs.flatMap (fun input =>
    (Dict.build Document.documentId (rows input)).map (linkRow input.1))

variable {casefold fetch}

/-- The result of reconciling a polygon. -/
def ReconciledTo (rows : PolygonContext × List Ref → List (Document B))
    (input : PolygonContext × List Ref) (result : EnrichmentResult B E) : Prop :=
  ∃ statuses, result = reconciledResult input.1 (rows input) statuses

/-- The results of reconciling each polygon. -/
def Reconciled (casefold : String → String) (fetch : String → String → FetchResult B)
    (finding : Finding B) (input : PolygonContext × List Ref) (result : EnrichmentResult B E) :
    Prop :=
  ReconciledTo (fun input => rowsOf casefold fetch input.2 (finding input)) input result

theorem foldl_addDirectResult {rows : PolygonContext × List Ref → List (Document B)}
    {inputs : List (PolygonContext × List Ref)} {results : List (EnrichmentResult B E)}
    (h : List.Forall₂ (ReconciledTo rows) inputs results)
    (state : List (Document B) × List LinkRow) :
    results.foldl addDirectResult state
      = ((inputs.flatMap (fun input => Dict.build Document.documentId (rows input))).foldl
          (fun documents d => Dict.put Document.documentId d documents) state.1,
        (inputs.flatMap (fun input =>
          (Dict.build Document.documentId (rows input)).map (linkRow input.1))).foldl addLink
          state.2) := by
  induction h generalizing state with
  | nil => rfl
  | cons hresult _ ih =>
    obtain ⟨statuses, rfl⟩ := hresult
    rw [List.foldl_cons, ih, List.flatMap_cons, List.flatMap_cons, List.foldl_append,
      List.foldl_append]
    rfl

theorem nodup_linkKeys (rows : PolygonContext × List Ref → List (Document B))
    (inputs : MergeInputs B P) : (tagKeys (linksTo rows inputs)).Nodup := by
  have hkeys : tagKeys (linksTo rows inputs)
      = inputs.directInputs.flatMap (fun input =>
        (Dict.build Document.documentId (rows input)).map
          (fun d => (input.1.polygonId, "wikipedia", d.documentId))) := by
    unfold tagKeys linksTo
    rw [List.map_flatMap]
    refine List.flatMap_congr (fun input _ => ?_)
    rw [List.map_map]
    rfl
  rw [hkeys, List.nodup_flatMap]
  refine ⟨fun input _ => ?_, ?_⟩
  · have hids : ((Dict.build Document.documentId (rows input)).map Document.documentId).Nodup :=
      Dict.nodup_keys_build _
    refine List.Nodup.map_on (fun d hd e he heq => ?_) (List.Nodup.of_map _ hids)
    exact List.inj_on_of_nodup_map hids hd he (Prod.mk.inj (Prod.mk.inj heq).2).2
  · refine (List.pairwise_map.mp inputs.nodup).imp (fun hne => ?_)
    intro key hkey hkey'
    obtain ⟨d, -, rfl⟩ := List.mem_map.mp hkey
    obtain ⟨e, -, heq⟩ := List.mem_map.mp hkey'
    exact hne (Prod.mk.inj heq).1.symm

theorem nodup_baseLinks (inputs : MergeInputs B P) : (inputs.baseLinks.map LinkRow.key).Nodup :=
  Dict.nodup_keys_build _

/-- The keys of the links to the documents that polygons get. -/
def foundKeys (casefold : String → String) (fetch : String → String → FetchResult B)
    (finding : Finding B) (inputs : MergeInputs B P) : List (String × String × String) :=
  tagKeys (foundLinks casefold fetch finding inputs)

/-- The links of a region whose speculative pass found links with some keys: the rows of V1 with the
tag where one of the passes found them, and the links of the final pass that V1 has not. -/
def taggedLinks (casefold : String → String) (fetch : String → String → FetchResult B)
    (early : List (String × String × String)) (final : Finding B) (inputs : MergeInputs B P) :
    List LinkRow :=
  inputs.baseLinks.map (tagRow (early ++ foundKeys casefold fetch final inputs))
    ++ ((foundLinks casefold fetch final inputs).filter (fun link =>
      (tagLink link).key ∉ inputs.baseLinks.map LinkRow.key)).map tagLink

/-- The links of the region, if both passes find what lookups give. -/
def regionLinks (casefold : String → String) (fetch : String → String → FetchResult B)
    (early final : Finding B) (inputs : MergeInputs B P) : List LinkRow :=
  taggedLinks casefold fetch (foundKeys casefold fetch early inputs) final inputs

theorem foldl_addLink_shared (rows : PolygonContext × List Ref → List (Document B))
    (final : Finding B) (inputs : MergeInputs B P) :
    (foundLinks casefold fetch final inputs).foldl addLink (sharedRows inputs.baseLinks
        ((linksTo rows inputs).foldl addLink inputs.baseLinks))
      = taggedLinks casefold fetch (tagKeys (linksTo rows inputs)) final inputs := by
  have hfinal : (tagKeys (foundLinks casefold fetch final inputs)).Nodup :=
    nodup_linkKeys (fun input => rowsOf casefold fetch input.2 (final input)) inputs
  rw [sharedRows_foldl_addLink (nodup_baseLinks inputs) (nodup_linkKeys rows inputs),
    foldl_addLink hfinal, map_tagRow_keys, List.map_map]
  unfold taggedLinks
  congr 1
  exact List.map_congr_left (fun row _ => tagRow_tagRow row)

/-! ## The indexes that a merge asks -/

/-- The index grows from one lookup to the next, and holds V1 documents in the end. -/
structure GrowingHistory (casefold : String → String) (history : IndexHistory B) : Prop where
  v1 : IsV1Index casefold history.completed
  firstSecond : Contained history.first history.second
  secondCompleted : Contained history.second history.completed

theorem IsV1Index.of_contained {index completed : Index B} (h : IsV1Index casefold completed)
    (hcontained : Contained index completed) : IsV1Index casefold index :=
  fun key d hd => h key d (hcontained.rows key d hd)

theorem Contained.refl (index : Index B) : Contained index index := ⟨fun _ _ hd => hd, rfl⟩

theorem growingHistory_always {completed : Index B} (h : IsV1Index casefold completed) :
    GrowingHistory casefold (.always completed) := ⟨h, .refl completed, .refl completed⟩

section

variable {fold : Char → List Char} (hfold : CaseFolding fold) {history : IndexHistory B}
  (hhistory : GrowingHistory (Python.casefold fold) history) {refs all : List Ref}

include hfold hhistory

theorem GrowingHistory.provisional_eq_nil {ref : Ref} (href : ref ∈ all)
    (h : served (Python.casefold fold) history.completed ref = []) :
    provisionalMatches (Python.casefold fold) history all (ref.key (Python.casefold fold)) = [] := by
  have hsecond := served_eq_nil hhistory.secondCompleted h
  rcases provisionalMatches_eq hfold history href with heq | ⟨heq, -⟩
  · rw [heq, hsecond]
  · rw [heq]
    exact served_eq_nil hhistory.firstSecond hsecond

theorem GrowingHistory.first_eq_nil {ref : Ref} (href : ref ∈ all)
    (h : provisionalMatches (Python.casefold fold) history all (ref.key (Python.casefold fold))
      = []) : served (Python.casefold fold) history.first ref = [] := by
  rcases provisionalMatches_eq hfold history href with heq | ⟨heq, -⟩
  · exact served_eq_nil hhistory.firstSecond (heq.symm.trans h)
  · exact heq.symm.trans h

theorem GrowingHistory.provisional_lawful (hrefs : refs ⊆ all) :
    LawfulMatches (Python.casefold fold) refs
      (provisionalMatches (Python.casefold fold) history all) := by
  have hsecond := hhistory.v1.of_contained hhistory.secondCompleted
  have hlater : ∀ ref ∈ refs, ∀ d ∈ provisionalMatches (Python.casefold fold) history all
      (ref.key (Python.casefold fold)), d ∈ served (Python.casefold fold) history.second ref := by
    intro ref href d hd
    rcases provisionalMatches_eq hfold history (hrefs href) with heq | ⟨heq, -⟩
    · rw [heq] at hd
      exact hd
    · rw [heq] at hd
      exact served_subset hhistory.firstSecond d hd
  refine ⟨?_, ?_⟩
  · intro ref href d hd
    have hd' := hlater ref href d hd
    unfold served at hd'
    split at hd'
    · cases hd'
    · exact hsecond _ d hd'
  · intro ref href ref' href' hcollapsed hkey hne hnil
    obtain ⟨d, hd⟩ := List.exists_mem_of_ne_nil _ hne
    have hd' := hlater ref' href' d hd
    have hserved : served (Python.casefold fold) history.second ref ≠ [] := by
      unfold served at hd' ⊢
      split at hd'
      · cases hd'
      · rw [if_neg (fun hnot => hnot.2 hcollapsed), hkey]
        exact List.ne_nil_of_mem hd'
    rcases provisionalMatches_eq hfold history (hrefs href) with heq | ⟨heq, himp⟩
    · exact hserved (heq.symm.trans hnil)
    · exact hserved (himp (heq.symm.trans hnil))

end

/-! ## Both passes -/

theorem subset_allRefs {inputs : MergeInputs B P} {input : PolygonContext × List Ref}
    (h : input ∈ inputs.directInputs) : input.2 ⊆ inputs.allRefs :=
  fun _ href => List.mem_flatMap.mpr ⟨input, h, href⟩

theorem reconcileAll_eq (index : Index B) (titleMatches : Option (Matches B)) (finding : Finding B)
    {inputs : List (PolygonContext × List Ref)} {results : List (EnrichmentResult B E)}
    {Q : PolygonContext × List Ref → EnrichmentResult B E → Prop}
    (hresults : List.Forall₂ Q inputs results)
    (hstep : ∀ input ∈ inputs, ∀ result, Q input result →
      titleMatches.getD (lookupTitles casefold index input.2) = finding input
      ∧ (∀ position, result.deferredErrors.lookup position = none)
      ∧ ∀ ref ∈ input.2, finding input (ref.key casefold) = [] →
        (directDocumentsByTitle casefold result.documents (ref.key casefold)).head?
          = pageOf casefold fetch input.2 ref) :
    ∃ reconciled, reconcileAll casefold index titleMatches (inputs.zip results) = .ok reconciled
      ∧ List.Forall₂ (Reconciled casefold fetch finding) inputs reconciled := by
  obtain ⟨hlength, hzip⟩ := List.forall₂_iff_zip.mp hresults
  have hall : ∀ x ∈ inputs.zip results, ∃ y,
      reconcileWikipediaRefs casefold x.1.1 x.1.2 x.2 index titleMatches = .ok y
        ∧ Reconciled casefold fetch finding x.1 y := by
    rintro ⟨input, result⟩ hx
    obtain ⟨hfinding, hnone, hselect⟩ := hstep input (List.of_mem_zip hx).1 result (hzip hx)
    obtain ⟨statuses, heq⟩ := reconcile_eq hnone hfinding hselect
    exact ⟨_, heq, statuses, rfl⟩
  obtain ⟨reconciled, hok, hforall⟩ := exists_mapM_forall₂ hall
  refine ⟨reconciled, hok, ?_⟩
  have hinputs : (inputs.zip results).map Prod.fst = inputs :=
    List.map_fst_zip (Nat.le_of_eq hlength)
  rw [← hinputs, List.forall₂_map_left_iff]
  exact hforall

/-- What the completed index gives each polygon. -/
def finalFinding (casefold : String → String) (completed : Index B) : Finding B :=
  fun input => lookupTitles casefold completed input.2

/-- What the speculative pass finds for the polygons. -/
def earlyFinding (casefold : String → String) (history : IndexHistory B) (inputs : MergeInputs B P) :
    Finding B :=
  fun _ => provisionalMatches casefold history inputs.allRefs

variable {fold : Char → List Char} (hfold : CaseFolding fold) {history : IndexHistory B}
  (hhistory : GrowingHistory (Python.casefold fold) history)
  (hfetch : TitledClient fetch) (errorText : E → String) {inputs : MergeInputs B P}

include hfold

/-- **The final pass**, if the speculative results select the pages of the references that the
completed index does not have. -/
theorem reconcileMergeIfReady_eq {rows : PolygonContext × List Ref → List (Document B)}
    {speculative : List (EnrichmentResult B E)}
    (hspeculative : List.Forall₂ (ReconciledTo rows) inputs.directInputs speculative)
    (hselect : ∀ input ∈ inputs.directInputs, ∀ ref ∈ input.2,
      served (Python.casefold fold) history.completed ref = [] →
      (directDocumentsByTitle (Python.casefold fold) (Dict.build Document.documentId (rows input))
        (ref.key (Python.casefold fold))).head? = pageOf (Python.casefold fold) fetch input.2 ref) :
    reconcileMergeIfReady (Python.casefold fold) inputs history
        (speculative.foldl addDirectResult (inputs.baseDocuments, inputs.baseLinks), speculative)
      = .ok (regionDocuments (Python.casefold fold) fetch
          (finalFinding (Python.casefold fold) history.completed) inputs,
        taggedLinks (Python.casefold fold) fetch (tagKeys (linksTo rows inputs))
          (finalFinding (Python.casefold fold) history.completed) inputs) := by
  rw [← foldl_addLink_shared, foldl_addDirectResult hspeculative]
  unfold reconcileMergeIfReady
  split
  · -- without references both passes leave the rows of V1
    rename_i hempty
    have hnone : inputs.directInputs = [] := List.isEmpty_iff.mp hempty
    have hself : sharedRows inputs.baseLinks inputs.baseLinks = inputs.baseLinks := by
      have hkeys : (tagKeys []).Nodup := List.nodup_nil
      have hshared := sharedRows_foldl_addLink (nodup_baseLinks inputs) hkeys
      rw [List.foldl_nil, map_tagRow_eq_self (by simp [tagKeys])] at hshared
      exact hshared
    simp only [regionDocuments, foundDocuments, foundLinks, linksTo, hnone, List.flatMap_nil,
      List.foldl_nil, hself]
  · obtain ⟨results, hresults, hreconciled⟩ := reconcileAll_eq history.completed none
      (finalFinding (Python.casefold fold) history.completed) hspeculative
      (fun input hinput result hresult => by
        obtain ⟨statuses, rfl⟩ := hresult
        refine ⟨rfl, fun position => AList.lookup_empty position, fun ref href hnil => ?_⟩
        exact hselect input hinput ref href
          ((lookupTitles_eq_served hfold history.completed href).symm.trans hnil))
    refine bind_eq_ok.mpr ⟨results, hresults, ?_⟩
    rw [foldl_addDirectResult hreconciled]
    rfl

include hhistory hfetch

/-- **The speculative pass** without a checkpoint. -/
theorem collectSpeculativeDirectResults_eq :
    ∃ speculative, collectSpeculativeDirectResults (Python.casefold fold)
        (fun l t => .ok (fetch l t)) errorText (fun _ _ => none) inputs history
      = .ok (speculative.foldl addDirectResult (inputs.baseDocuments, inputs.baseLinks), speculative)
      ∧ List.Forall₂ (Reconciled (Python.casefold fold) fetch
          (earlyFinding (Python.casefold fold) history inputs)) inputs.directInputs speculative := by
  have hserved : ∀ input ∈ inputs.directInputs, ∀ ref ∈ input.2,
      lookupTitles (Python.casefold fold) history.first inputs.allRefs
          (ref.key (Python.casefold fold))
        = served (Python.casefold fold) history.first ref := fun input hinput ref href =>
    lookupTitles_eq_served hfold history.first (subset_allRefs hinput href)
  have henrich : ∀ input ∈ inputs.directInputs, ∃ result,
      enrichDirectInput (Python.casefold fold) (fun l t => .ok (fetch l t)) errorText
        (fun _ _ => none) history
        (lookupTitles (Python.casefold fold) history.first inputs.allRefs) input = .ok result
      ∧ ResultOf (Python.casefold fold) fetch input.2
        (lookupTitles (Python.casefold fold) history.first inputs.allRefs) result :=
    fun input _ => enrich_resultOf (Python.casefold fold) input.1 fetch errorText input.2 _ _ _
  obtain ⟨fetched, hfetched, hresults⟩ := exists_mapM_forall₂ henrich
  obtain ⟨speculative, hreconciled, hspeculative⟩ := reconcileAll_eq history.second
    (some (provisionalMatches (Python.casefold fold) history inputs.allRefs))
    (earlyFinding (Python.casefold fold) history inputs) hresults
    (fun input hinput result hresult =>
      ⟨rfl, hresult.noErrors, fun ref href hnil => by
        have hlawful := lawful_of_served ((hhistory.v1.of_contained
          hhistory.secondCompleted).of_contained hhistory.firstSecond) (hserved input hinput)
        rw [hresult.documents]
        refine head?_enrichedRows hfold hfetch hlawful href ?_
        rw [hserved input hinput ref href]
        exact hhistory.first_eq_nil hfold (subset_allRefs hinput href) hnil⟩)
  refine ⟨speculative, ?_, hspeculative⟩
  exact bind_eq_ok.mpr ⟨fetched, hfetched, bind_eq_ok.mpr ⟨speculative, hreconciled, rfl⟩⟩

variable {K : Type} (sectionRuntime : SectionRuntime B K) (hasText : B → Bool)
variable (stored : List (SectionRow K))

variable (inputs) in
/-- **A merged region**: its documents are those of the completed index, its sections were built for
those of the speculative pass, and its links have the sources that either pass found. -/
theorem mergeV2Region_eq :
    mergeV2Region (Python.casefold fold) (fun l t => .ok (fetch l t)) errorText (fun _ _ => none)
        sectionRuntime hasText inputs stored history
      = .ok (writeMergedRegion hasText inputs
          (regionDocuments (Python.casefold fold) fetch
            (finalFinding (Python.casefold fold) history.completed) inputs)
          (regionLinks (Python.casefold fold) fetch
            (earlyFinding (Python.casefold fold) history inputs)
            (finalFinding (Python.casefold fold) history.completed) inputs)
          (buildMissingSections sectionRuntime (regionDocuments (Python.casefold fold) fetch
            (earlyFinding (Python.casefold fold) history inputs) inputs) stored)) := by
  obtain ⟨speculative, hcollect, hspeculative⟩ :=
    collectSpeculativeDirectResults_eq hfold hhistory hfetch errorText
  have hfinal := reconcileMergeIfReady_eq hfold hspeculative (fun input hinput ref href hnil =>
    head?_rowsOf hfold hfetch (hhistory.provisional_lawful hfold (subset_allRefs hinput)) href
      (hhistory.provisional_eq_nil hfold (subset_allRefs hinput href) hnil))
  refine bind_eq_ok.mpr ⟨_, hcollect, ?_⟩
  refine bind_eq_ok.mpr ⟨_, hfinal, ?_⟩
  rw [foldl_addDirectResult hspeculative]
  rfl

end OsmPolygonWikidata.Direct
