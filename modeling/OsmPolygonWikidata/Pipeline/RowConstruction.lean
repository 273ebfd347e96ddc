import OsmPolygonWikidata.WikidataRecovery.RepairFields

/-! # The rows of a region

`pipeline/row_construction.py`: the coverage fields of a polygon from the summary of its item, and
the articles and links. `WikidataRecovery/RepairFields.lean` computes the same fields from the links
and the documents. `agree_iff` says when both give the same.
-/

namespace OsmPolygonWikidata.RowConstruction

open Python WikidataRecovery ArticleLinker

/-! ## The model -/

/-- `article_id`. -/
def articleId (wikidata language : String) (pageId revisionId : Int) : String :=
  wikidata ++ ":" ++ language ++ ":" ++ toString pageId ++ ":" ++ toString revisionId

/-- `_make_document_id`. -/
def documentId (wikidata language : String) (pageId revisionId : Int) : String :=
  wikidata ++ ":wikipedia:" ++ language ++ ":" ++ toString pageId ++ ":" ++ toString revisionId

section

variable {X Y : Type} (dumps : List String → String)

/-- `enrich_polygon`, of a polygon whose item has a summary. -/
def enrichPolygon (polygon : Polygon X) (summary : LinkSummary Y) : Polygon X :=
  let languages := sortedSet (summary.articles.map WikipediaArticle.language)
  { polygon with
    hasWikipedia := some (summary.articles ≠ [])
    wikipediaLanguageCount := some languages.length
    wikipediaLanguages := some (dumps languages)
    wikipediaArticleCount := some summary.articles.length
    hasEnglishWikipedia := some ("en" ∈ languages)
    hasFrenchWikipedia := some ("fr" ∈ languages)
    textAvailable := some (summary.articles.any (fun article => article.fullText ≠ ""))
    bestLanguage := some summary.bestLanguage }

variable (describe : LinkSummary Y → WikipediaArticle Y → X)

/-- `article_row`, with its document identifier. `describe` fills the other columns. -/
def articleRow (identifier qid : String) (article : WikipediaArticle Y) (summary : LinkSummary Y) :
    Document X where
  documentId := some (documentId qid article.language article.pageId article.revisionId)
  articleId := some identifier
  wikidata := some qid
  language := some article.language
  site := some article.site
  title := some article.title
  pageId := some article.pageId
  revisionId := some article.revisionId
  fullText := some article.fullText
  others := describe summary article

/-- The identifier of an article of a polygon. -/
def identifierOf (polygon : Polygon X) (article : WikipediaArticle Y) : String :=
  articleId (pyStr polygon.wikidata) article.language article.pageId article.revisionId

def polygonArticleLink (polygon : Polygon X) (article : WikipediaArticle Y) (best : String) :
    LegacyLink where
  polygonId := polygon.polygonId
  articleId := some (identifierOf polygon article)
  wikidata := some (pyStr polygon.wikidata)
  language := some article.language
  sourcePbf := polygon.sourcePbf
  region := polygon.region
  osmType := polygon.osmType
  osmId := polygon.osmId
  pageId := some article.pageId
  revisionId := some article.revisionId
  isBestLanguage := some (article.language = best)

/-- One turn of `_append_polygon_articles`, on the articles and the links. -/
def appendPolygonArticle (polygon : Polygon X) (summary : LinkSummary Y)
    (state : List (Document X) × List LegacyLink) (article : WikipediaArticle Y) :
    List (Document X) × List LegacyLink :=
  let identifier := identifierOf polygon article
  (if identifier ∈ state.1.map (fun d => pyStr d.articleId) then state.1
    else state.1 ++ [articleRow describe identifier (pyStr polygon.wikidata) article summary],
    state.2 ++ [polygonArticleLink polygon article summary.bestLanguage])

def appendPolygonArticles (state : List (Document X) × List LegacyLink) (polygon : Polygon X)
    (summary : Option (LinkSummary Y)) : List (Document X) × List LegacyLink :=
  match summary with
  | none => state
  | some summary => summary.articles.foldl (appendPolygonArticle describe polygon summary) state

def buildArticlesAndLinks (polygons : List (Polygon X))
    (summaries : String → Option (LinkSummary Y)) : List (Document X) × List LegacyLink :=
  polygons.foldl (fun state polygon =>
    appendPolygonArticles describe state polygon (summaries (pyStr polygon.wikidata))) ([], [])

end

/-- The fields that both computations fill. -/
structure Coverage where
  hasWikipedia : Option Bool
  wikipediaLanguageCount : Option Int
  wikipediaLanguages : Option String
  wikipediaArticleCount : Option Int
  hasEnglishWikipedia : Option Bool
  hasFrenchWikipedia : Option Bool
  textAvailable : Option Bool
  bestLanguage : Option String

section

variable {X Y : Type}

def coverage (p : Polygon X) : Coverage :=
  ⟨p.hasWikipedia, p.wikipediaLanguageCount, p.wikipediaLanguages, p.wikipediaArticleCount,
    p.hasEnglishWikipedia, p.hasFrenchWikipedia, p.textAvailable, p.bestLanguage⟩

/-- What tells two articles of an item apart. -/
def versionOf (article : WikipediaArticle Y) : String × Int × Int :=
  (article.language, article.pageId, article.revisionId)

/-- The recomputed row of a polygon has the fields of the enriched one, and its links stay as they
are. -/
def Agree (decimal : Char → Bool) (dumps : List String → String)
    (describe : LinkSummary Y → WikipediaArticle Y → X) (affectedQids : List String)
    (polygon : Polygon X) (summary : LinkSummary Y) : Prop :=
  ∃ row, recomputeAffectedPolygonFields decimal dumps [polygon]
      (buildArticlesAndLinks describe [polygon] (fun _ => some summary)).2
      (buildArticlesAndLinks describe [polygon] (fun _ => some summary)).1 affectedQids
    = .ok ([row], (buildArticlesAndLinks describe [polygon] (fun _ => some summary)).2)
    ∧ coverage row = coverage (enrichPolygon dumps polygon summary)

/-- The stored fields of the polygon are already those of the summary. -/
def UpToDate (dumps : List String → String) (polygon : Polygon X) (summary : LinkSummary Y) :
    Prop :=
  let languages := sortedSet (summary.articles.map WikipediaArticle.language)
  polygon.hasWikipedia = some (summary.articles ≠ [] : Bool)
    ∧ polygon.wikipediaLanguageCount = some (languages.length : Int)
    ∧ polygon.wikipediaLanguages = some (dumps languages)
    ∧ polygon.wikipediaArticleCount = some (summary.articles.length : Int)
    ∧ polygon.hasEnglishWikipedia = some ("en" ∈ languages : Bool)
    ∧ polygon.hasFrenchWikipedia = some ("fr" ∈ languages : Bool)
    ∧ polygon.textAvailable = some (summary.articles.any (fun article => article.fullText ≠ ""))
    ∧ polygon.bestLanguage = some summary.bestLanguage

/-- There is text, but all of it is white space. -/
def OnlyBlankTexts (summary : LinkSummary Y) : Prop :=
  (∃ article ∈ summary.articles, article.fullText ≠ "")
    ∧ ∀ article ∈ summary.articles, strip article.fullText.toList = []

end

/-! ## Identifiers -/

theorem colon_notMem_int (n : Int) : ':' ∉ (toString n).toList := by
  have hnat : ∀ m : Nat, ':' ∉ m.repr.toList := by
    intro m hmem
    rw [Nat.toList_repr] at hmem
    exact absurd (Nat.isDigit_of_mem_toDigits (by omega) (by omega) hmem) (by decide)
  intro hmem
  cases n with
  | ofNat m => exact hnat m hmem
  | negSucc m =>
    change ':' ∈ ("-" ++ (m + 1).repr).toList at hmem
    rw [String.toList_append, List.mem_append] at hmem
    rcases hmem with hminus | hdigit
    · exact absurd hminus (by decide)
    · exact hnat _ hdigit

theorem append_colon_inj {a b x y : List Char} (hx : ':' ∉ x) (hy : ':' ∉ y)
    (h : a ++ ':' :: x = b ++ ':' :: y) : a = b ∧ x = y := by
  rcases List.append_eq_append_iff.mp h with ⟨c, rfl, hc⟩ | ⟨c, rfl, hc⟩
  · cases c with
    | nil => exact ⟨by simp, by simpa using hc⟩
    | cons first rest =>
      rw [List.cons_append] at hc
      refine absurd ?_ hx
      rw [(List.cons.inj hc).2]
      simp
  · cases c with
    | nil => exact ⟨by simp, by simpa using hc.symm⟩
    | cons first rest =>
      rw [List.cons_append] at hc
      refine absurd ?_ hy
      rw [(List.cons.inj hc).2]
      simp

/-- **An identifier tells the versions of an item's articles apart.** -/
theorem articleId_inj {wikidata language language' : String}
    {pageId pageId' revisionId revisionId' : Int}
    (h : articleId wikidata language pageId revisionId
      = articleId wikidata language' pageId' revisionId') :
    language = language' ∧ pageId = pageId' ∧ revisionId = revisionId' := by
  have hlist := congrArg String.toList h
  have hgroup : ∀ (l : String) (p r : Int), (articleId wikidata l p r).toList
      = (wikidata.toList ++ ':' :: (l.toList ++ ':' :: (toString p).toList))
        ++ ':' :: (toString r).toList := by
    intro l p r
    have hcolon : ":".toList = [':'] := rfl
    simp [articleId, String.toList_append, hcolon]
  rw [hgroup, hgroup] at hlist
  -- from the right: the revision, the page, and what is left of them
  obtain ⟨hrest, hrevision⟩ :=
    append_colon_inj (colon_notMem_int revisionId) (colon_notMem_int revisionId') hlist
  have hrest' := (List.cons.inj (List.append_cancel_left hrest)).2
  obtain ⟨hlanguage, hpage⟩ :=
    append_colon_inj (colon_notMem_int pageId) (colon_notMem_int pageId') hrest'
  exact ⟨String.toList_injective hlanguage, Int.repr_injective (String.toList_injective hpage),
    Int.repr_injective (String.toList_injective hrevision)⟩

/-! ## The rows of one polygon -/

section

variable {X Y : Type} {decimal : Char → Bool} {dumps : List String → String}
  {describe : LinkSummary Y → WikipediaArticle Y → X} {polygon : Polygon X}
  {summary : LinkSummary Y}

/-- The row of an article of a polygon. -/
def rowOf (describe : LinkSummary Y → WikipediaArticle Y → X) (polygon : Polygon X)
    (summary : LinkSummary Y) (article : WikipediaArticle Y) : Document X :=
  articleRow describe (identifierOf polygon article) (pyStr polygon.wikidata) article summary

/-- The link of an article of a polygon. -/
def linkOf (polygon : Polygon X) (summary : LinkSummary Y) (article : WikipediaArticle Y) :
    LegacyLink :=
  polygonArticleLink polygon article summary.bestLanguage

theorem nodup_identifiers (h : (summary.articles.map versionOf).Nodup) :
    (summary.articles.map (identifierOf polygon)).Nodup := by
  rw [List.nodup_iff_pairwise_ne, List.pairwise_map] at h ⊢
  refine h.imp (fun {article other} hne heq => hne ?_)
  obtain ⟨hlanguage, hpage, hrevision⟩ := articleId_inj heq
  rw [versionOf, versionOf, hlanguage, hpage, hrevision]

theorem foldl_appendPolygonArticle (articles : List (WikipediaArticle Y))
    (documents : List (Document X)) (links : List LegacyLink)
    (hnodup : (articles.map (identifierOf polygon)).Nodup)
    (hnew : ∀ article ∈ articles,
      identifierOf polygon article ∉ documents.map (fun d => pyStr d.articleId)) :
    articles.foldl (appendPolygonArticle describe polygon summary) (documents, links)
      = (documents ++ articles.map (rowOf describe polygon summary),
        links ++ articles.map (linkOf polygon summary)) := by
  induction articles generalizing documents links with
  | nil => simp
  | cons article articles ih =>
    rw [List.map_cons, List.nodup_cons] at hnodup
    have hstep : appendPolygonArticle describe polygon summary (documents, links) article
        = (documents ++ [rowOf describe polygon summary article],
          links ++ [linkOf polygon summary article]) := by
      rw [appendPolygonArticle, if_neg (hnew article List.mem_cons_self)]
      rfl
    have hnew' : ∀ other ∈ articles, identifierOf polygon other ∉
        (documents ++ [rowOf describe polygon summary article]).map
          (fun d => pyStr d.articleId) := by
      intro other hother hmem
      rw [List.map_append, List.mem_append] at hmem
      rcases hmem with hold | hrow
      · exact hnew other (List.mem_cons_of_mem article hother) hold
      · have hsame : identifierOf polygon other = identifierOf polygon article := by
          simpa [rowOf, articleRow, pyStr] using hrow
        exact hnodup.1 (hsame ▸ List.mem_map_of_mem hother)
    rw [List.foldl_cons, hstep, ih _ _ hnodup.2 hnew']
    simp

theorem buildArticlesAndLinks_singleton (h : (summary.articles.map versionOf).Nodup) :
    buildArticlesAndLinks describe [polygon] (fun _ => some summary)
      = (summary.articles.map (rowOf describe polygon summary),
        summary.articles.map (linkOf polygon summary)) := by
  show summary.articles.foldl (appendPolygonArticle describe polygon summary) ([], []) = _
  rw [foldl_appendPolygonArticle summary.articles [] [] (nodup_identifiers h) (by simp),
    List.nil_append, List.nil_append]

/-! ## The recomputed row -/

theorem linksOf_linkOf (articles : List (WikipediaArticle Y)) :
    linksOf (articles.map (linkOf polygon summary)) polygon.id
      = articles.map (linkOf polygon summary) := by
  rw [linksOf, List.filter_eq_self]
  intro link hlink
  obtain ⟨article, -, rfl⟩ := List.mem_map.mp hlink
  exact decide_eq_true rfl

theorem summarizePolygonLinks_linkOf (articles : List (WikipediaArticle Y)) :
    summarizePolygonLinks (articles.map (linkOf polygon summary))
      = (sortedSet (articles.map (identifierOf polygon)),
        sortedSet (articles.map WikipediaArticle.language)) := by
  rw [summarizePolygonLinks, List.map_map, List.map_map]
  rfl

theorem lastWith_rowOf (h : (summary.articles.map versionOf).Nodup) {article : WikipediaArticle Y}
    (harticle : article ∈ summary.articles) :
    lastWith (fun d => pyStr d.articleId) (summary.articles.map (rowOf describe polygon summary))
        (identifierOf polygon article)
      = some (rowOf describe polygon summary article) := by
  have hids : ((summary.articles.map (rowOf describe polygon summary)).map
      (fun d => pyStr d.articleId)) = summary.articles.map (identifierOf polygon) := by
    rw [List.map_map]
    rfl
  apply (lastWith_eq_some_iff (hids ▸ nodup_identifiers h)).mpr
  exact ⟨List.mem_map_of_mem harticle, rfl⟩

/-- There is an article with text that is not only white space. -/
def someText (summary : LinkSummary Y) : Bool :=
  summary.articles.any (fun article => strip article.fullText.toList ≠ [])

theorem hasArticleText_rowOf (h : (summary.articles.map versionOf).Nodup) :
    hasArticleText (lastWith (fun d => pyStr d.articleId)
        (summary.articles.map (rowOf describe polygon summary)))
      (sortedSet (summary.articles.map (identifierOf polygon)))
      = .ok (someText summary) := by
  have hfound : ∀ articleId ∈ sortedSet (summary.articles.map (identifierOf polygon)),
      ∃ article ∈ summary.articles, identifierOf polygon article = articleId :=
    fun articleId hmem => List.mem_map.mp (mem_sortedSet.mp hmem)
  rw [hasArticleText_eq]
  · congr 1
    rw [Bool.eq_iff_iff, someText, List.any_eq_true, List.any_eq_true]
    constructor
    · rintro ⟨articleId, hmem, htext⟩
      obtain ⟨article, harticle, rfl⟩ := hfound articleId hmem
      rw [lastWith_rowOf h harticle] at htext
      exact ⟨article, harticle, htext⟩
    · rintro ⟨article, harticle, htext⟩
      refine ⟨identifierOf polygon article, mem_sortedSet.mpr (List.mem_map_of_mem harticle), ?_⟩
      rw [lastWith_rowOf h harticle]
      exact htext
  · intro articleId hmem
    obtain ⟨article, harticle, rfl⟩ := hfound articleId hmem
    rw [lastWith_rowOf h harticle]
    rfl

variable {affectedQids : List String}

variable (dumps describe) in
theorem recomputePolygonRow_affected (h : (summary.articles.map versionOf).Nodup)
    (haffected : polygon.Affected decimal affectedQids) :
    recomputePolygonRow decimal dumps polygon (summary.articles.map (linkOf polygon summary))
        (lastWith (fun d => pyStr d.articleId)
          (summary.articles.map (rowOf describe polygon summary))) affectedQids
      = .ok ({ enrichPolygon dumps polygon summary with textAvailable := some (someText summary) },
        summary.bestLanguage) := by
  have hnonempty : sortedSet (summary.articles.map (identifierOf polygon)) ≠ []
      ↔ summary.articles ≠ [] := by
    rw [ne_eq, sortedSet_eq_nil_iff, List.map_eq_nil_iff]
  have hlength : (sortedSet (summary.articles.map (identifierOf polygon))).length
      = summary.articles.length := by
    rw [length_sortedSet (nodup_identifiers h), List.length_map]
  have hbest : preferredLanguage (sortedSet (summary.articles.map WikipediaArticle.language))
      = summary.bestLanguage := preferredLanguage_sortedSet _
  rw [recomputePolygonRow, if_neg (not_not.mpr haffected), summarizePolygonLinks_linkOf]
  simp only [hasArticleText_rowOf h, hbest, hlength, hnonempty]
  rfl

theorem applyBestLanguageLinks_linkOf (articles : List (WikipediaArticle Y))
    (bests : List (String × String))
    (h : ∀ best, bests.lookup polygon.id = some best → best = summary.bestLanguage) :
    applyBestLanguageLinks (articles.map (linkOf polygon summary)) bests
      = articles.map (linkOf polygon summary) := by
  rw [applyBestLanguageLinks, List.map_map]
  refine List.map_congr_left (fun article _ => ?_)
  have hid : pyStr (linkOf polygon summary article).polygonId = polygon.id := rfl
  simp only [Function.comp_apply, hid]
  cases hlookup : bests.lookup polygon.id with
  | none => rfl
  | some best =>
    rw [h best hlookup]
    rfl

theorem recomputeAffectedPolygonFields_singleton {links : List LegacyLink}
    {documents : List (Document X)} {row : Polygon X} {best : String}
    (h : recomputePolygonRow decimal dumps polygon (linksOf links polygon.id)
      (lastWith (fun d => pyStr d.articleId) documents) affectedQids = .ok (row, best)) :
    recomputeAffectedPolygonFields decimal dumps [polygon] links documents affectedQids
      = .ok ([row], applyBestLanguageLinks links (recordBest [] polygon.id best)) := by
  rw [recomputeAffectedPolygonFields, recomputePolygonRows, List.foldlM_cons, h]
  rfl

theorem lookup_recordBest {polygonId language best : String}
    (h : (recordBest [] polygonId language).lookup polygonId = some best) : best = language := by
  rw [recordBest] at h
  split at h
  · simpa [Dict.put, eq_comm] using h
  · simp at h

/-- **What a recomputation gives.** The fields of the enriched polygon, up to the text; a polygon
without an affected identifier is left as it was. -/
theorem recompute_build (h : (summary.articles.map versionOf).Nodup) :
    recomputeAffectedPolygonFields decimal dumps [polygon]
        (buildArticlesAndLinks describe [polygon] (fun _ => some summary)).2
        (buildArticlesAndLinks describe [polygon] (fun _ => some summary)).1 affectedQids
      = .ok ([if polygon.Affected decimal affectedQids then
          { enrichPolygon dumps polygon summary with textAvailable := some (someText summary) }
          else polygon],
        (buildArticlesAndLinks describe [polygon] (fun _ => some summary)).2) := by
  rw [buildArticlesAndLinks_singleton h]
  by_cases haffected : polygon.Affected decimal affectedQids
  · rw [if_pos haffected]
    have hrow := recomputePolygonRow_affected dumps describe h haffected
    rw [← linksOf_linkOf summary.articles] at hrow
    rw [recomputeAffectedPolygonFields_singleton hrow,
      applyBestLanguageLinks_linkOf _ _ (fun _ => lookup_recordBest)]
  · rw [if_neg haffected]
    have hrow : recomputePolygonRow decimal dumps polygon
        (linksOf (summary.articles.map (linkOf polygon summary)) polygon.id)
        (lastWith (fun d => pyStr d.articleId)
          (summary.articles.map (rowOf describe polygon summary))) affectedQids
        = .ok (polygon, "") := by
      rw [recomputePolygonRow, if_pos haffected]
    rw [recomputeAffectedPolygonFields_singleton hrow,
      applyBestLanguageLinks_linkOf _ _ (fun _ hbest => by simp [recordBest] at hbest)]

/-! ## When the texts agree -/

theorem strip_nil : strip [] = [] := rfl

theorem someText_eq_iff :
    someText summary = summary.articles.any (fun article => article.fullText ≠ "")
      ↔ ¬ OnlyBlankTexts summary := by
  have hstrip : ∀ article : WikipediaArticle Y,
      strip article.fullText.toList ≠ [] → article.fullText ≠ "" := by
    intro article hne hempty
    rw [hempty] at hne
    exact hne strip_nil
  have hmono : someText summary = true →
      summary.articles.any (fun article => article.fullText ≠ "") = true := by
    simp only [someText, List.any_eq_true, decide_eq_true_eq]
    rintro ⟨article, hmem, htext⟩
    exact ⟨article, hmem, hstrip article htext⟩
  have hblank : OnlyBlankTexts summary
      ↔ summary.articles.any (fun article => article.fullText ≠ "") = true
        ∧ someText summary = false := by
    simp [OnlyBlankTexts, someText]
  rw [hblank]
  generalize summary.articles.any (fun article => article.fullText ≠ "") = enriched at hmono ⊢
  generalize someText summary = recomputed at hmono ⊢
  cases recomputed with
  | true => simp [hmono rfl]
  | false => cases enriched <;> simp

/-- **The two computations agree, but for texts of white space.** -/
theorem agree_iff {affectedQids : List String} (h : (summary.articles.map versionOf).Nodup) :
    Agree decimal dumps describe affectedQids polygon summary
      ↔ if polygon.Affected decimal affectedQids then ¬ OnlyBlankTexts summary
        else UpToDate dumps polygon summary := by
  have hagree : Agree decimal dumps describe affectedQids polygon summary
      ↔ coverage (if polygon.Affected decimal affectedQids then
          { enrichPolygon dumps polygon summary with textAvailable := some (someText summary) }
          else polygon) = coverage (enrichPolygon dumps polygon summary) := by
    rw [Agree, recompute_build h]
    constructor
    · rintro ⟨row, hrow, hcoverage⟩
      cases hrow
      exact hcoverage
    · intro hcoverage
      exact ⟨_, rfl, hcoverage⟩
  rw [hagree]
  split
  · rw [← someText_eq_iff]
    simp [coverage, enrichPolygon]
  · simp [coverage, enrichPolygon, UpToDate]

end

/-! ## One article -/

namespace OneArticle

/-- An item with one article. -/
def summary (text : String) : LinkSummary Unit :=
  ⟨"Q1", none, [⟨"en", "enwiki", "Berlin", 3354, 7, text, ()⟩], [], []⟩

/-- A polygon of the item, before its fields are filled. -/
def polygon : Polygon Unit where
  polygonId := some "berlin/way/1"
  wikidata := some "Q1"
  sourcePbf := some "berlin.osm.pbf"
  region := some "berlin"
  osmType := some "way"
  osmId := some 1
  hasWikipedia := some false
  wikipediaLanguageCount := some 0
  wikipediaLanguages := some ""
  wikipediaArticleCount := some 0
  hasEnglishWikipedia := some false
  hasFrenchWikipedia := some false
  textAvailable := some false
  bestLanguage := some ""
  others := ()

theorem polygon_affected : polygon.Affected Char.isDigit ["Q1"] := by decide +kernel

theorem nodup_versions (text : String) : ((summary text).articles.map versionOf).Nodup :=
  List.nodup_singleton _

/-- A text of one space is a text for the enrichment only. -/
theorem not_agree_blank : ((summary " ").articles.map versionOf).Nodup
      ∧ polygon.Affected Char.isDigit ["Q1"]
      ∧ ¬ Agree Char.isDigit (String.intercalate ",") (fun _ _ => ()) ["Q1"] polygon
        (summary " ") := by
  refine ⟨nodup_versions _, polygon_affected, ?_⟩
  rintro ⟨row, hrow, hcoverage⟩
  rw [recompute_build (nodup_versions _), if_pos polygon_affected] at hrow
  cases hrow
  exact absurd (congrArg Coverage.textAvailable hcoverage) (by decide +kernel)

end OneArticle

/-! ## Two languages -/

namespace TwoLanguages

/-- An item with a German article, whose text is one space, and a French one. -/
def summary : LinkSummary Unit :=
  ⟨"Q1", none, [⟨"de", "dewiki", "Berlin", 22, 9, " ", ()⟩,
    ⟨"fr", "frwiki", "Berlin", 140, 8, "La capitale.", ()⟩], [], []⟩

theorem nodup_versions : (summary.articles.map versionOf).Nodup := by decide +kernel

theorem agree_text : summary.bestLanguage = "fr"
      ∧ Agree Char.isDigit (String.intercalate ",") (fun _ _ => ()) ["Q1"] OneArticle.polygon
        summary := by
  refine ⟨by decide +kernel, (agree_iff nodup_versions).mpr ?_⟩
  rw [if_pos OneArticle.polygon_affected]
  rintro ⟨-, hblank⟩
  exact absurd (hblank _ (List.mem_cons_of_mem _ List.mem_cons_self)) (by decide +kernel)

end TwoLanguages

end OsmPolygonWikidata.RowConstruction
