import Mathlib
import OsmPolygonWikidata.Basic.Batches
import OsmPolygonWikidata.Basic.Dict
import OsmPolygonWikidata.Domain.WikidataQids

/-! # Linking items to articles

`enrichment/article_linker.py`. The articles of an item are fetched one by one, or, where the
clients can, in batches: the titles of all items are grouped by site, repeated titles are dropped,
what is left is cut into chunks that are fetched concurrently, the sites taking turns, and the
results are scattered back. `fetchBatchedQids_eq` says that this does not change the summaries.

The clients answer from a parameter; progress is left out. A dictionary is the list of its entries.
-/

namespace OsmPolygonWikidata.ArticleLinker

open Python

/-! ## Entities, articles and summaries -/

structure WikidataEntity where
  qid : String
  sitelinks : List (String × String)
  labels : List (String × String)
  descriptions : List (String × String)
  aliases : List (String × List String)

/-- `WikipediaArticle`. `others` is the fields that are only passed on. -/
structure WikipediaArticle (Y : Type) where
  language : String
  site : String
  title : String
  pageId : Int
  revisionId : Int
  fullText : String
  others : Y

structure FetchResult (Y : Type) where
  status : String
  article : Option (WikipediaArticle Y)
  error : String

structure LinkSummary (Y : Type) where
  qid : String
  entity : Option WikidataEntity
  articles : List (WikipediaArticle Y)
  statuses : List (String × String)
  errors : List (String × String)

/-- `WikipediaEntityContext`. -/
structure EntityContext where
  label : String
  description : String
  aliases : List String

def preferredLanguages : List String := ["en", "fr", "de", "es", "it"]

variable {Y : Type}

/-- `min(available) if available else ""`. -/
def leastLanguage (available : List String) : String :=
  (available.insertionSort (fun a b => a ≤ b)).headD ""

/-- `LinkSummary.best_language`. -/
def LinkSummary.bestLanguage (summary : LinkSummary Y) : String :=
  let available := summary.articles.map WikipediaArticle.language
  (preferredLanguages.find? (fun language => language ∈ available)).getD (leastLanguage available)

/-- `entity.labels.get(language) or entity.labels.get("en", "")`. -/
def localized (values : List (String × String)) (language : String) : String :=
  match values.lookup language with
  | some value => if value ≠ "" then value else (values.lookup "en").getD ""
  | none => (values.lookup "en").getD ""

/-- `entity.aliases.get(language) or entity.aliases.get("en", [])`. -/
def localizedAliases (values : List (String × List String)) (language : String) : List String :=
  match values.lookup language with
  | some value => if value ≠ [] then value else (values.lookup "en").getD []
  | none => (values.lookup "en").getD []

def entityContextForLanguage (entity : WikidataEntity) (language : String) : EntityContext :=
  ⟨localized entity.labels language, localized entity.descriptions language,
    localizedAliases entity.aliases language⟩

def languageFromSite (site : String) : String :=
  if "wiki".toList.isSuffixOf site.toList then
    let language := site.toList.take (site.length - "wiki".length)
    if language = "be_x_old".toList then "be-tarask"
    else String.ofList (language.map (fun c => if c = '_' then '-' else c))
  else site

/-- `sorted(entity.sitelinks.items())`. -/
def WikidataEntity.sortedSitelinks (entity : WikidataEntity) : List (String × String) :=
  entity.sitelinks.insertionSort (fun a b => [a.1, a.2] ≤ [b.1, b.2])

def siteAllowed (site : String) (allow : Option (List String)) : Bool :=
  match allow with
  | none => true
  | some languages => languageFromSite site ∈ languages

/-- `items[:count]`. A negative count counts from the end. -/
def sliceTo {A : Type} (items : List A) (count : Int) : List A :=
  if 0 ≤ count then items.take count.toNat else items.take (items.length - (-count).toNat)

/-- The articles that are kept of a summary. -/
def LinkSummary.limit (summary : LinkSummary Y) (maxArticlesPerQid : Option Int) : LinkSummary Y :=
  match maxArticlesPerQid with
  | none => summary
  | some count => { summary with articles := sliceTo summary.articles count }

/-- The clients, by the page and the batch. -/
structure Clients (Y : Type) where
  getEntity : String → Option WikidataEntity
  getEntities : List String → List (Option WikidataEntity)
  fetchArticle : String → String → String → EntityContext → Bool → FetchResult Y
  fetchArticles : String → String → List String → Bool → List (String × FetchResult Y)

structure Options where
  languages : Option (List String)
  fetchFullText : Bool
  maxArticlesPerQid : Option Int
  batchSize : Int
  siteWorkers : Int

inductive LinkError where
  | batchSize
  | siteWorkers
  | lengthMismatch
  | missingResult (language site title : String)

/-! ## One by one -/

section

variable (decimal : Char → Bool) (clients : Clients Y) (options : Options)

def recordLinkResult (summary : LinkSummary Y) (site : String) (result : FetchResult Y) :
    LinkSummary Y :=
  let statuses := Dict.put Prod.fst (site, result.status) summary.statuses
  match result.article with
  | none => { summary with
      statuses := statuses, errors := Dict.put Prod.fst (site, result.error) summary.errors }
  | some article =>
    if result.status = "article_not_found" then
      { summary with
        statuses := statuses, errors := Dict.put Prod.fst (site, result.error) summary.errors }
    else { summary with
      statuses := statuses
      articles := summary.articles ++ [article]
      errors := if result.status ≠ "ok" then Dict.put Prod.fst (site, result.error) summary.errors
        else summary.errors }

/-- One turn of `_link_entity_articles`. -/
def linkEntityArticle (entity : WikidataEntity) (summary : LinkSummary Y)
    (link : String × String) : LinkSummary Y :=
  if siteAllowed link.1 options.languages then
    recordLinkResult summary link.1 (clients.fetchArticle (languageFromSite link.1) link.1 link.2
      (entityContextForLanguage entity (languageFromSite link.1)) options.fetchFullText)
  else summary

def linkEntityArticles (summary : LinkSummary Y) (entity : WikidataEntity) : LinkSummary Y :=
  entity.sortedSitelinks.foldl (linkEntityArticle clients options entity) summary

def linkQid (qid : String) : LinkSummary Y :=
  if isValidQid decimal qid.toList then
    match clients.getEntity qid with
    | none => ⟨qid, none, [], [], []⟩
    | some entity => linkEntityArticles clients options ⟨qid, some entity, [], [], []⟩ entity
  else ⟨qid, none, [], [], []⟩

def fetchCompatibilityQids (requested : List String) : List (LinkSummary Y) :=
  requested.map (fun qid => (linkQid decimal clients options qid).limit options.maxArticlesPerQid)

/-! ## In batches -/

abbrev SiteKey := String × String

abbrev SiteRequest := Nat × String × String

abbrev SiteWork := SiteKey × List String

def fetchBatchedEntities (requested : List String) : Except LinkError (List (LinkSummary Y)) :=
  let entities := (chunks requested options.batchSize.toNat).flatMap clients.getEntities
  if requested.length = entities.length then
    .ok ((requested.zip entities).map (fun pair => ⟨pair.1, pair.2, [], [], []⟩))
  else .error .lengthMismatch

/-- `_summary_site_requests`, each with its key. -/
def summarySiteRequests (index : Nat) (summary : LinkSummary Y) : List (SiteKey × SiteRequest) :=
  match summary.entity with
  | none => []
  | some entity =>
    (entity.sortedSitelinks.filter (fun link => siteAllowed link.1 options.languages)).map
      (fun link => ((languageFromSite link.1, link.1), (index, link.1, link.2)))

def buildSiteRequests (summaries : List (LinkSummary Y)) : List (SiteKey × List SiteRequest) :=
  group (summaries.zipIdx.flatMap (fun entry => summarySiteRequests options entry.2 entry.1))

def uniqueSiteTitles (requests : List (SiteKey × List SiteRequest)) : List SiteWork :=
  requests.map (fun entry => (entry.1, (entry.2.map (fun request => request.2.2)).eraseDups))

def chunkSiteTitles (siteTitles : List SiteWork) : List (SiteKey × List (List String)) :=
  siteTitles.map (fun entry => (entry.1, chunks entry.2 options.batchSize.toNat))

def planSiteWork (requests : List (SiteKey × List SiteRequest)) : List SiteWork :=
  roundRobin (chunkSiteTitles options (uniqueSiteTitles requests))

/-- The results of the sites: `fetched[key].get(title)`. -/
abbrev Fetched (Y : Type) := SiteKey → String → Option (FetchResult Y)

/-- `_consume_site_future`: the results of a chunk go over the earlier ones of its site. -/
def consumeSiteFuture (fetched : Fetched Y) (work : SiteWork) : Fetched Y :=
  let results := clients.fetchArticles work.1.1 work.1.2 work.2 options.fetchFullText
  fun key title =>
    if key = work.1 then (results.lookup title).or (fetched key title) else fetched key title

/-- `_fetch_site_work`, where the chunks are done in the order of `completed`. -/
def fetchSiteWork (completed : List SiteWork) : Fetched Y :=
  completed.foldl (consumeSiteFuture clients options) (fun _ _ => none)

def applyArticleResult (summary : LinkSummary Y) (site : String) (result : FetchResult Y) :
    LinkSummary Y :=
  let statuses := Dict.put Prod.fst (site, result.status) summary.statuses
  match result.article with
  | some article =>
    if result.status ≠ "article_not_found" then
      { summary with
        statuses := statuses
        articles := summary.articles ++ [article]
        errors := if result.status ≠ "ok" then
          Dict.put Prod.fst (site, result.error) summary.errors else summary.errors }
    else { summary with
      statuses := statuses, errors := Dict.put Prod.fst (site, result.error) summary.errors }
  | none => { summary with
      statuses := statuses, errors := Dict.put Prod.fst (site, result.error) summary.errors }

/-- One turn of `_populate_one_summary`. -/
def populateSite (fetched : Fetched Y) (summary : LinkSummary Y) (link : String × String) :
    Except LinkError (LinkSummary Y) :=
  if siteAllowed link.1 options.languages then
    match fetched (languageFromSite link.1, link.1) link.2 with
    | some result => .ok (applyArticleResult summary link.1 result)
    | none => .error (.missingResult (languageFromSite link.1) link.1 link.2)
  else .ok summary

def populateOneSummary (fetched : Fetched Y) (summary : LinkSummary Y) :
    Except LinkError (LinkSummary Y) :=
  match summary.entity with
  | none => .ok summary
  | some entity => do
    let summary ← entity.sortedSitelinks.foldlM (populateSite options fetched) summary
    return summary.limit options.maxArticlesPerQid

/-- `_fetch_batched_qids`. `order` is the order in which the chunks are done. -/
def fetchBatchedQids (order : List SiteWork → List SiteWork) (requested : List String) :
    Except LinkError (List (LinkSummary Y)) := do
  let summaries ← fetchBatchedEntities clients options requested
  let work := planSiteWork options (buildSiteRequests options summaries)
  summaries.mapM (populateOneSummary options (fetchSiteWork clients options (order work)))

/-- `fetch_qids`, of clients that can fetch batches or not. -/
def fetchQids (batch : Bool) (order : List SiteWork → List SiteWork) (requested : List String) :
    Except LinkError (List (LinkSummary Y)) :=
  if options.batchSize < 1 then .error .batchSize
  else if options.siteWorkers < 1 then .error .siteWorkers
  else if batch then fetchBatchedQids clients options order requested
  else .ok (fetchCompatibilityQids decimal clients options requested)

/-- The clients answer an item, and a page of a site, in a batch as they do alone. -/
structure AnswersAlike : Prop where
  entities : ∀ qids, clients.getEntities qids = qids.map clients.getEntity
  invalid : ∀ qid : String, isValidQid decimal qid.toList = false → clients.getEntity qid = none
  articles : ∀ language site titles title result,
    (title, result) ∈ clients.fetchArticles language site titles options.fetchFullText →
      ∀ context, clients.fetchArticle language site title context options.fetchFullText = result
  complete : ∀ language site titles, ∀ title ∈ titles,
    title ∈ (clients.fetchArticles language site titles options.fetchFullText).map Prod.fst

end

/-! ## The two paths agree -/

section

variable {decimal : Char → Bool} {clients : Clients Y} {options : Options}

theorem applyArticleResult_eq (summary : LinkSummary Y) (site : String) (result : FetchResult Y) :
    applyArticleResult summary site result = recordLinkResult summary site result := by
  unfold applyArticleResult recordLinkResult
  cases result.article with
  | none => rfl
  | some article =>
    dsimp only
    by_cases hstatus : result.status = "article_not_found"
    · rw [if_neg (not_not.mpr hstatus), if_pos hstatus]
    · rw [if_pos hstatus, if_neg hstatus]

theorem fetchBatchedEntities_eq (h : AnswersAlike decimal clients options)
    (hsize : 1 ≤ options.batchSize) (requested : List String) :
    fetchBatchedEntities clients options requested
      = .ok (requested.map (fun qid => ⟨qid, clients.getEntity qid, [], [], []⟩)) := by
  have hsize' : 1 ≤ options.batchSize.toNat := by omega
  have hentities : (chunks requested options.batchSize.toNat).flatMap clients.getEntities
      = requested.map clients.getEntity := by
    rw [show clients.getEntities = fun qids => qids.map clients.getEntity from
      funext h.entities, List.flatMap_def, ← List.map_flatten, flatten_chunks requested hsize']
  unfold fetchBatchedEntities
  have hzip : requested.zip (requested.map clients.getEntity)
      = requested.map (fun qid => (qid, clients.getEntity qid)) := by
    have hboth := @List.zip_map' _ _ _ id clients.getEntity requested
    rwa [List.map_id] at hboth
  rw [hentities, if_pos (by simp), hzip, List.map_map]
  rfl

/-- What was stored for a page is what the client answers. -/
def Answered (clients : Clients Y) (options : Options) (fetched : Fetched Y) : Prop :=
  ∀ language site title result, fetched (language, site) title = some result →
    ∀ context, clients.fetchArticle language site title context options.fetchFullText = result

variable (h : AnswersAlike decimal clients options)

include h

variable {fetched : Fetched Y}

theorem answered_consumeSiteFuture (hfetched : Answered clients options fetched) (work : SiteWork) :
    Answered clients options (consumeSiteFuture clients options fetched work) := by
  obtain ⟨⟨language', site'⟩, titles⟩ := work
  intro language site title result hstored
  unfold consumeSiteFuture at hstored
  split at hstored
  · rename_i hkey
    cases hkey
    rcases Option.or_eq_some_iff.mp hstored with hnew | ⟨-, hold⟩
    · obtain ⟨before, after, heq, -⟩ := List.lookup_eq_some_iff.mp hnew
      exact h.articles language' site' titles title result (by rw [heq]; simp)
    · exact hfetched language' site' title result hold
  · exact hfetched language site title result hstored

theorem isSome_consumeSiteFuture {work : SiteWork} {key : SiteKey} {title : String}
    (hwork : (key = work.1 ∧ title ∈ work.2) ∨ (fetched key title).isSome) :
    (consumeSiteFuture clients options fetched work key title).isSome := by
  unfold consumeSiteFuture
  split
  · rename_i hkey
    rcases hwork with ⟨-, htitle⟩ | hold
    · obtain ⟨entry, hentry, htitle'⟩ :=
        List.mem_map.mp (h.complete work.1.1 work.1.2 work.2 title htitle)
      have hfound : ((clients.fetchArticles work.1.1 work.1.2 work.2
          options.fetchFullText).lookup title).isSome :=
        List.lookup_isSome_iff.mpr ⟨entry, hentry, beq_iff_eq.mpr htitle'.symm⟩
      rw [Option.isSome_or, hfound, Bool.true_or]
    · cases hfound : (clients.fetchArticles work.1.1 work.1.2 work.2
          options.fetchFullText).lookup title with
      | none => exact hold
      | some result => rfl
  · rename_i hkey
    exact hwork.resolve_left (fun hw => hkey hw.1)

/-- **The order of the chunks does not matter**: each page of a chunk has its answer. -/
theorem fetchSiteWork_spec (completed : List SiteWork) :
    Answered clients options (fetchSiteWork clients options completed)
      ∧ ∀ work ∈ completed, ∀ title ∈ work.2,
        (fetchSiteWork clients options completed work.1 title).isSome := by
  induction completed using List.reverseRecOn with
  | nil =>
    refine ⟨?_, by simp⟩
    intro language site title result hstored
    cases hstored
  | append_singleton completed last ih =>
    rw [fetchSiteWork, List.foldl_append, List.foldl_cons, List.foldl_nil]
    refine ⟨answered_consumeSiteFuture h ih.1 last, ?_⟩
    intro work hwork title htitle
    apply isSome_consumeSiteFuture h
    rcases List.mem_append.mp hwork with hwork | hwork
    · exact Or.inr (ih.2 work hwork title htitle)
    · rw [List.mem_singleton] at hwork
      subst hwork
      exact Or.inl ⟨rfl, htitle⟩

omit h

theorem exists_planSiteWork {summaries : List (LinkSummary Y)} {summary : LinkSummary Y}
    {entity : WikidataEntity} {link : String × String} (hsize : 1 ≤ options.batchSize)
    (hsummary : summary ∈ summaries) (hentity : summary.entity = some entity)
    (hlink : link ∈ entity.sortedSitelinks)
    (hallowed : siteAllowed link.1 options.languages = true) :
    ∃ titles, ((languageFromSite link.1, link.1), titles)
        ∈ planSiteWork options (buildSiteRequests options summaries)
      ∧ link.2 ∈ titles := by
  have hsize' : 1 ≤ options.batchSize.toNat := by omega
  obtain ⟨index, hindex⟩ : ∃ index, (summary, index) ∈ summaries.zipIdx := by
    obtain ⟨index, hindex, hget⟩ := List.getElem_of_mem hsummary
    exact ⟨index, List.mk_mem_zipIdx_iff_getElem?.mpr (by rw [List.getElem?_eq_getElem hindex, hget])⟩
  -- the request of the page is among those of its site
  have hrequest : ((languageFromSite link.1, link.1), (index, link.1, link.2))
      ∈ summaries.zipIdx.flatMap (fun entry => summarySiteRequests options entry.2 entry.1) := by
    rw [List.mem_flatMap]
    refine ⟨(summary, index), hindex, ?_⟩
    unfold summarySiteRequests
    simp only [hentity]
    exact List.mem_map.mpr ⟨link, List.mem_filter.mpr ⟨hlink, hallowed⟩, rfl⟩
  have hvalue : (index, link.1, link.2) ∈ valuesOf
      (summaries.zipIdx.flatMap (fun entry => summarySiteRequests options entry.2 entry.1))
      (languageFromSite link.1, link.1) :=
    List.mem_map.mpr ⟨_, List.mem_filter.mpr ⟨hrequest, by simp⟩, rfl⟩
  have hgroup := mem_group_iff.mpr ⟨rfl, List.ne_nil_of_mem hvalue⟩
  -- its title is in one of the chunks
  generalize valuesOf (summaries.zipIdx.flatMap
    (fun entry => summarySiteRequests options entry.2 entry.1))
    (languageFromSite link.1, link.1) = values at hvalue hgroup
  have htitle : link.2 ∈ (values.map (fun request => request.2.2)).eraseDups :=
    List.mem_eraseDups.mpr (List.mem_map.mpr ⟨_, hvalue, rfl⟩)
  have hchunks := flatten_chunks (values.map (fun request => request.2.2)).eraseDups hsize'
  rw [← hchunks, List.mem_flatten] at htitle
  obtain ⟨titles, htitles, hmem⟩ := htitle
  refine ⟨titles, mem_roundRobin_iff.mpr ⟨_, ?_, htitles⟩, hmem⟩
  exact List.mem_map.mpr ⟨_, List.mem_map.mpr ⟨_, hgroup, rfl⟩, rfl⟩

theorem foldlM_populateSite_eq (hanswered : Answered clients options fetched)
    (entity : WikidataEntity) {links : List (String × String)}
    (hfetched : ∀ link ∈ links, siteAllowed link.1 options.languages = true →
      (fetched (languageFromSite link.1, link.1) link.2).isSome) (summary : LinkSummary Y) :
    links.foldlM (populateSite options fetched) summary
      = .ok (links.foldl (linkEntityArticle clients options entity) summary) := by
  induction links generalizing summary with
  | nil => rfl
  | cons link links ih =>
    have ih' := ih (fun other hother => hfetched other (List.mem_cons_of_mem link hother))
    rw [List.foldlM_cons, List.foldl_cons, populateSite, linkEntityArticle]
    cases hallowed : siteAllowed link.1 options.languages with
    | false => exact ih' summary
    | true =>
      obtain ⟨result, hresult⟩ := Option.isSome_iff_exists.mp
        (hfetched link List.mem_cons_self hallowed)
      have hanswer := hanswered (languageFromSite link.1) link.1 link.2 result hresult
        (entityContextForLanguage entity (languageFromSite link.1))
      rw [if_pos rfl, if_pos rfl, hresult, hanswer, ← applyArticleResult_eq]
      exact ih' _

theorem populateOneSummary_eq (hanswered : Answered clients options fetched)
    (hvalid : ∀ qid : String, isValidQid decimal qid.toList = false → clients.getEntity qid = none)
    (qid : String)
    (hfetched : ∀ entity, clients.getEntity qid = some entity → ∀ link ∈ entity.sortedSitelinks,
      siteAllowed link.1 options.languages = true →
        (fetched (languageFromSite link.1, link.1) link.2).isSome) :
    populateOneSummary options fetched ⟨qid, clients.getEntity qid, [], [], []⟩
      = .ok ((linkQid decimal clients options qid).limit options.maxArticlesPerQid) := by
  have hnothing : (⟨qid, none, [], [], []⟩ : LinkSummary Y).limit options.maxArticlesPerQid
      = ⟨qid, none, [], [], []⟩ := by
    cases options.maxArticlesPerQid with
    | none => rfl
    | some count => simp [LinkSummary.limit, sliceTo]
  unfold populateOneSummary linkQid
  cases hentity : clients.getEntity qid with
  | none => simp [hnothing]
  | some entity =>
    have hqid : isValidQid decimal qid.toList = true := by
      cases hqid : isValidQid decimal qid.toList with
      | true => rfl
      | false => exact absurd (hvalid qid hqid) (by simp [hentity])
    simp only [hqid, if_true]
    rw [foldlM_populateSite_eq hanswered entity (hfetched entity hentity)]
    rfl

/-- **Batches give the summaries of single fetches**, in whatever order the chunks are done. -/
theorem fetchBatchedQids_eq (order : List SiteWork → List SiteWork)
    (horder : ∀ work, (order work).Perm work) (h : AnswersAlike decimal clients options)
    (hsize : 1 ≤ options.batchSize) (requested : List String) :
    fetchBatchedQids clients options order requested
      = .ok (fetchCompatibilityQids decimal clients options requested) := by
  unfold fetchBatchedQids fetchCompatibilityQids
  rw [fetchBatchedEntities_eq h hsize]
  dsimp only [bind, Except.bind]
  rw [List.mapM_map]
  apply mapM_eq_ok_map
  intro qid hqid
  obtain ⟨hanswered, hdone⟩ := fetchSiteWork_spec h (order (planSiteWork options
    (buildSiteRequests options (requested.map (fun qid =>
      (⟨qid, clients.getEntity qid, [], [], []⟩ : LinkSummary Y))))))
  refine populateOneSummary_eq hanswered h.invalid qid ?_
  intro entity hentity link hlink hallowed
  have hsummary := List.mem_map_of_mem (f := fun qid =>
    (⟨qid, clients.getEntity qid, [], [], []⟩ : LinkSummary Y)) hqid
  obtain ⟨titles, hwork, htitle⟩ := exists_planSiteWork hsize hsummary hentity hlink hallowed
  exact hdone _ ((horder _).mem_iff.mpr hwork) link.2 htitle

/-- **Batched and single fetches return the same summaries.** -/
theorem fetchQids_batch_eq (decimal : Char → Bool) (clients : Clients Y) (options : Options)
    (order : List SiteWork → List SiteWork) (horder : ∀ work, (order work).Perm work)
    (h : AnswersAlike decimal clients options) (hsize : 1 ≤ options.batchSize)
    (hworkers : 1 ≤ options.siteWorkers) (requested : List String) :
    fetchQids decimal clients options true order requested
        = .ok (fetchCompatibilityQids decimal clients options requested)
      ∧ fetchQids decimal clients options false order requested
        = .ok (fetchCompatibilityQids decimal clients options requested) := by
  have hsize' : ¬ options.batchSize < 1 := by omega
  have hworkers' : ¬ options.siteWorkers < 1 := by omega
  constructor
  · rw [fetchQids, if_neg hsize', if_neg hworkers', if_pos rfl]
    exact fetchBatchedQids_eq order horder h hsize requested
  · rw [fetchQids, if_neg hsize', if_neg hworkers', if_neg Bool.false_ne_true]

end

/-! ## An example -/

namespace Example

def entity : WikidataEntity :=
  ⟨"Q1", [("frwiki", "Alpha"), ("enwiki", "Alpha"), ("dewiki", "Beta")], [("en", "alpha")], [], []⟩

/-- Pages that are all there. -/
def page (language site title : String) : FetchResult Unit :=
  ⟨"ok", some ⟨language, site, title, 1, 1, "", ()⟩, ""⟩

def clients : Clients Unit where
  getEntity qid := if qid = "Q1" then some entity else none
  getEntities qids := qids.map (fun qid => if qid = "Q1" then some entity else none)
  fetchArticle language site title _ _ := page language site title
  fetchArticles language site titles _ := titles.map (fun title => (title, page language site title))

def options : Options := ⟨some ["en", "fr"], true, some 2, 1, 4⟩

theorem answersAlike : AnswersAlike Char.isDigit clients options where
  entities qids := rfl
  invalid qid hqid := by
    have hne : qid ≠ "Q1" := by
      rintro rfl
      exact absurd hqid (by decide)
    exact if_neg hne
  articles language site titles title result hresult context := by
    obtain ⟨title', -, heq⟩ := List.mem_map.mp hresult
    cases heq
    rfl
  complete language site titles title htitle := by
    exact List.mem_map.mpr ⟨(title, page language site title),
      List.mem_map.mpr ⟨title, htitle, rfl⟩, rfl⟩

/-- The two pages of the item that are asked for. -/
def summary : LinkSummary Unit where
  qid := "Q1"
  entity := some entity
  articles := [⟨"en", "enwiki", "Alpha", 1, 1, "", ()⟩, ⟨"fr", "frwiki", "Alpha", 1, 1, "", ()⟩]
  statuses := [("enwiki", "ok"), ("frwiki", "ok")]
  errors := []

/-- Chunks of one title that are done in the opposite order, with an item twice and no item. -/
theorem reversed_same :
    fetchQids Char.isDigit clients options true List.reverse ["Q1", "none", "Q1"]
        = .ok [summary, ⟨"none", none, [], [], []⟩, summary]
      ∧ fetchQids Char.isDigit clients options false List.reverse ["Q1", "none", "Q1"]
        = .ok [summary, ⟨"none", none, [], [], []⟩, summary] :=
  fetchQids_batch_eq Char.isDigit clients options List.reverse List.reverse_perm answersAlike
    (by decide) (by decide) ["Q1", "none", "Q1"]

end Example

end OsmPolygonWikidata.ArticleLinker
