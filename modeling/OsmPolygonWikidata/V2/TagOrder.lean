import OsmPolygonWikidata.V2.WikipediaTags

/-! # Wikipedia tags and the order of the dictionary

Which of two spellings of a page becomes its reference is decided by the order of the tags, before
anything is sorted. `orderFree_iff` says when that cannot be seen: no page is named by two tags.
-/

namespace OsmPolygonWikidata.WikipediaTags

open Python

/-! ## Sorting and searching -/

section

variable {A B K : Type} {xs ys : List A}

theorem insertionSort_eq_of_perm [LinearOrder K] {key : A → K} (hkey : Function.Injective key)
    (h : xs.Perm ys) : xs.insertionSort (fun a b => key a ≤ key b)
      = ys.insertionSort (fun a b => key a ≤ key b) := by
  refine List.Perm.eq_of_pairwise (fun a b _ _ hab hba => hkey (le_antisymm hab hba))
    (List.pairwise_insertionSort _ _) (List.pairwise_insertionSort _ _) ?_
  exact (List.perm_insertionSort _ _).trans (h.trans (List.perm_insertionSort _ _).symm)

theorem findSome?_flatten_map {f : B → Option K} {events : A → List B} (xs : List A) :
    (xs.map events).flatten.findSome? f = xs.findSome? (fun x => (events x).findSome? f) := by
  induction xs with
  | nil => rfl
  | cons x xs ih =>
    rw [List.map_cons, List.flatten_cons, List.findSome?_append, ih, List.findSome?_cons]
    cases (events x).findSome? f <;> rfl

theorem findSome?_eq_of_perm {f : A → Option B} (h : xs.Perm ys)
    (hunique : ∀ x ∈ ys, ∀ y ∈ ys, f x ≠ none → f y ≠ none → x = y) :
    xs.findSome? f = ys.findSome? f := by
  have hfound : ∀ zs : List A, zs.Perm ys → ∀ b, zs.findSome? f = some b ↔ ∃ x ∈ ys, f x = some b := by
    intro zs hzs b
    constructor
    · intro hb
      obtain ⟨x, hx, hfx⟩ := List.exists_of_findSome?_eq_some hb
      exact ⟨x, hzs.mem_iff.mp hx, hfx⟩
    · rintro ⟨x, hx, hfx⟩
      have hsome : (zs.findSome? f).isSome = true := by
        rw [List.findSome?_isSome_iff]
        exact ⟨x, hzs.mem_iff.mpr hx, by rw [hfx]; rfl⟩
      obtain ⟨c, hc⟩ := Option.isSome_iff_exists.mp hsome
      obtain ⟨y, hy, hfy⟩ := List.exists_of_findSome?_eq_some hc
      have hsame : x = y := by
        refine hunique x hx y (hzs.mem_iff.mp hy) ?_ ?_
        · rw [hfx]
          exact Option.some_ne_none b
        · rw [hfy]
          exact Option.some_ne_none c
      rw [hc, ← hfy, ← hsame, hfx]
  refine Option.ext (fun b => ?_)
  rw [hfound xs h, hfound ys (List.Perm.refl ys)]

end

/-! ## The order of the tags -/

section

variable {lib : Library} {tags tags' : List (Text × Text)} {refs : List WikipediaTagRef}
  {rejected : List WikipediaTagRejection} {tag : Text × Text} {value : Text} {page : Text × Text}
  {ref : WikipediaTagRef}

/-- The same tags in another order are parsed to the same references and rejections. -/
def OrderFree (lib : Library) (tags : List (Text × Text)) : Prop :=
  ∀ tags', tags'.Perm tags →
    (parseWikipediaTags lib tags').toOption = (parseWikipediaTags lib tags).toOption

/-- `urlparse` refuses no component. -/
def Returns (lib : Library) (tags : List (Text × Text)) : Prop :=
  ForComponents lib tags (fun _ value => ∃ reference, fromUrl lib value = .ok reference)

/-- No page is named by components of two tags. -/
def Unshared (lib : Library) (tags : List (Text × Text)) : Prop :=
  ∀ tag ∈ tags, ∀ tag' ∈ tags, ∀ value value' page,
    NamedBy lib tag value page → NamedBy lib tag' value' page → tag = tag'

theorem WikipediaTagRef.sortKey_injective : Function.Injective WikipediaTagRef.sortKey := by
  rintro ⟨l, t, k, v⟩ ⟨l', t', k', v'⟩ h
  simpa [WikipediaTagRef.sortKey] using h

theorem WikipediaTagRejection.sortKey_injective :
    Function.Injective WikipediaTagRejection.sortKey := by
  rintro ⟨k, v, r⟩ ⟨k', v', r'⟩ h
  simpa [WikipediaTagRejection.sortKey] using h

theorem Returns.perm (h : Returns lib tags) (hperm : tags'.Perm tags) : Returns lib tags' :=
  fun tag htag => h tag (hperm.mem_iff.mp htag)

/-- The events of a tag that does not raise. -/
def eventsOf (lib : Library) (tag : Text × Text) : List Event :=
  match tagEvents lib tag with
  | .ok events => events
  | .error _ => []

variable (h : Returns lib tags)

include h

theorem Returns.mapM_eq : tags.mapM (tagEvents lib) = .ok (tags.map (eventsOf lib)) := by
  refine mapM_eq_ok_map (fun tag htag => ?_)
  obtain ⟨events, hevents⟩ := exists_tagEvents_iff.mpr (h tag htag)
  unfold eventsOf
  rw [hevents]

theorem Returns.tagEvents_eq (htag : tag ∈ tags) : tagEvents lib tag = .ok (eventsOf lib tag) := by
  obtain ⟨events, hevents⟩ := exists_tagEvents_iff.mpr (h tag htag)
  unfold eventsOf
  rw [hevents]

theorem Returns.parse_eq : parseWikipediaTags lib tags = .ok
      ((recorded (tags.map (eventsOf lib)).flatten).refs.insertionSort
          (fun a b => a.sortKey ≤ b.sortKey),
        (recorded (tags.map (eventsOf lib)).flatten).rejected.insertionSort
          (fun a b => a.sortKey ≤ b.sortKey)) :=
  parseWikipediaTags_eq_ok_iff.mpr ⟨_, h.mapM_eq, rfl, rfl⟩

theorem Returns.named_of_findSome (htag : tag ∈ tags)
    (hfirst : (eventsOf lib tag).findSome? (Event.naming page) = some ref) :
    NamedBy lib tag ref.rawValue page ∧ ref.page = page ∧ ref.rawKey = tag.1 := by
  obtain ⟨event, hmem, hnaming⟩ := List.exists_of_findSome?_eq_some hfirst
  obtain ⟨rfl, rfl⟩ := naming_eq_some_iff.mp hnaming
  obtain ⟨hnamed, hkey⟩ := (named_mem_tagEvents_iff (h.tagEvents_eq htag)).mp hmem
  exact ⟨hnamed, rfl, hkey⟩

theorem Returns.refs_perm (hunshared : Unshared lib tags) (hperm : tags'.Perm tags) :
    (recorded (tags'.map (eventsOf lib)).flatten).refs.Perm
      (recorded (tags.map (eventsOf lib)).flatten).refs := by
  have hrecords := records_recorded (tags.map (eventsOf lib)).flatten
  have hrecords' := records_recorded (tags'.map (eventsOf lib)).flatten
  rw [List.perm_ext_iff_of_nodup (List.Nodup.of_map _ hrecords'.nodup)
    (List.Nodup.of_map _ hrecords.nodup)]
  intro ref
  rw [hrecords.first, hrecords'.first, findSome?_flatten_map, findSome?_flatten_map]
  rw [findSome?_eq_of_perm hperm]
  intro tag htag tag' htag' hsome hsome'
  obtain ⟨first, hfirst⟩ := Option.ne_none_iff_exists'.mp hsome
  obtain ⟨first', hfirst'⟩ := Option.ne_none_iff_exists'.mp hsome'
  exact hunshared tag htag tag' htag' _ _ _ (h.named_of_findSome htag hfirst).1
    (h.named_of_findSome htag' hfirst').1

omit h

theorem rejected_perm (hperm : tags'.Perm tags) :
    (recorded (tags'.map (eventsOf lib)).flatten).rejected.Perm
      (recorded (tags.map (eventsOf lib)).flatten).rejected := by
  rw [(records_recorded _).rejected, (records_recorded _).rejected]
  exact ((hperm.map (eventsOf lib)).flatten).filterMap Event.rejection

theorem exists_ref_of_head {rest : List (Text × Text)} (h : Returns lib (tag :: rest))
    (hparse : parseWikipediaTags lib (tag :: rest) = .ok (refs, rejected))
    (hnamed : NamedBy lib tag value page) :
    ∃ ref ∈ refs, ref.page = page ∧ ref.rawKey = tag.1 := by
  have htag : tag ∈ tag :: rest := List.mem_cons_self
  have hmem : Event.named ⟨page.1, page.2, tag.1, value⟩ ∈ eventsOf lib tag :=
    (named_mem_tagEvents_iff (h.tagEvents_eq htag)).mpr ⟨hnamed, rfl⟩
  obtain ⟨ref, hfirst, hpage⟩ := (exists_naming_iff (eventsOf lib tag) page).mpr ⟨_, hmem, rfl⟩
  refine ⟨ref, ?_, hpage, (h.named_of_findSome htag hfirst).2.2⟩
  rw [h.parse_eq, Except.ok.injEq, Prod.mk.injEq] at hparse
  rw [← hparse.1, List.mem_insertionSort, (records_recorded _).first, findSome?_flatten_map,
    List.findSome?_cons, hpage, hfirst]

/-- **The order of the tags** cannot be seen just when the call raises or no page is named by two
tags. -/
theorem orderFree_iff (lib : Library) (h : (tags.map Prod.fst).Nodup) :
    OrderFree lib tags ↔ (Returns lib tags → Unshared lib tags) := by
  constructor
  · intro hfree hreturns tag htag tag' htag' value value' page hnamed hnamed'
    obtain ⟨⟨refs, rejected⟩, hparse⟩ := returns_iff.mpr hreturns
    -- the tag is moved to the front
    have hfront : ∀ first ∈ tags, ∀ value, NamedBy lib first value page →
        ∃ ref ∈ refs, ref.page = page ∧ ref.rawKey = first.1 := by
      intro first hfirst value hnames
      have hperm : (first :: tags.erase first).Perm tags := (List.perm_cons_erase hfirst).symm
      have hreturns' := hreturns.perm hperm
      have hsame := hfree _ hperm
      rw [hparse, hreturns'.parse_eq] at hsame
      have hparse' : parseWikipediaTags lib (first :: tags.erase first) = .ok (refs, rejected) := by
        rw [hreturns'.parse_eq]
        exact congrArg Except.ok (Option.some.inj hsame)
      exact exists_ref_of_head hreturns' hparse' hnames
    obtain ⟨ref, href, hpage, hkey⟩ := hfront tag htag value hnamed
    obtain ⟨ref', href', hpage', hkey'⟩ := hfront tag' htag' value' hnamed'
    have hone : ref = ref' :=
      List.inj_on_of_nodup_map (distinct_sorted hparse).1 href href' (hpage.trans hpage'.symm)
    refine List.inj_on_of_nodup_map h htag htag' ?_
    rw [← hkey, ← hkey', hone]
  · intro hunshared tags' hperm
    by_cases hreturns : Returns lib tags
    · rw [(hreturns.perm hperm).parse_eq, hreturns.parse_eq,
        insertionSort_eq_of_perm WikipediaTagRef.sortKey_injective
          (hreturns.refs_perm (hunshared hreturns) hperm),
        insertionSort_eq_of_perm WikipediaTagRejection.sortKey_injective (rejected_perm hperm)]
    · -- neither call returns
      have hraises : ∀ some_tags, ¬ Returns lib some_tags →
          (parseWikipediaTags lib some_tags).toOption = none := by
        intro some_tags hnot
        cases hparse : parseWikipediaTags lib some_tags with
        | error e => rfl
        | ok result => exact absurd (returns_iff.mp ⟨result, hparse⟩) hnot
      rw [hraises tags hreturns, hraises tags' (fun h => hreturns (h.perm hperm.symm))]

theorem NamedBy.eq_page (hparse : parseWikipediaTags lib [tag] = .ok ([ref], rejected))
    (h : NamedBy lib tag value page) : page = ref.page := by
  have hmem := (page_mem_refs_iff hparse page).mpr ⟨tag, List.mem_singleton_self tag, value, h⟩
  rwa [List.map_singleton, List.mem_singleton] at hmem

end

namespace TagsExample

/-- One page under two keys. -/
def twoSpellings : List (Text × Text) :=
  [("wikipedia".toList, "en:Foo".toList), ("wikipedia:en".toList, "Foo".toList)]

/-- The reference keeps the key that comes first. -/
theorem order_seen : ¬ OrderFree library twoSpellings := by
  intro hfree
  have hswap : (parseWikipediaTags library twoSpellings.reverse).toOption
      = (parseWikipediaTags library twoSpellings).toOption := hfree _ (List.reverse_perm _)
  have hsaid : parseWikipediaTags library twoSpellings = .ok ([⟨"en".toList, "Foo".toList,
      "wikipedia".toList, "en:Foo".toList⟩], []) := by decide
  have hreversed : parseWikipediaTags library twoSpellings.reverse = .ok ([⟨"en".toList,
      "Foo".toList, "wikipedia:en".toList, "Foo".toList⟩], []) := by decide
  rw [hsaid, hreversed] at hswap
  exact absurd hswap (by decide)

/-- Two pages under two keys. -/
def twoPages : List (Text × Text) :=
  [("wikipedia".toList, "en:Foo".toList), ("wikipedia:de".toList, "Bar".toList)]

theorem order_hidden : OrderFree library twoPages := by
  refine (orderFree_iff library (by decide)).mpr (fun _ => ?_)
  have hfoo : parseWikipediaTags library [("wikipedia".toList, "en:Foo".toList)]
      = .ok ([⟨"en".toList, "Foo".toList, "wikipedia".toList, "en:Foo".toList⟩], []) := by decide
  have hbar : parseWikipediaTags library [("wikipedia:de".toList, "Bar".toList)]
      = .ok ([⟨"de".toList, "Bar".toList, "wikipedia:de".toList, "Bar".toList⟩], []) := by decide
  intro tag htag tag' htag' value value' page hnamed hnamed'
  simp only [twoPages, List.mem_cons, List.not_mem_nil, or_false] at htag htag'
  rcases htag with rfl | rfl <;> rcases htag' with rfl | rfl
  · rfl
  · exact absurd ((hnamed.eq_page hfoo).symm.trans (hnamed'.eq_page hbar)) (by decide)
  · exact absurd ((hnamed.eq_page hbar).symm.trans (hnamed'.eq_page hfoo)) (by decide)
  · rfl

end TagsExample

end OsmPolygonWikidata.WikipediaTags
