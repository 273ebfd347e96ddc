import OsmPolygonWikidata.Containment.Lossless
import OsmPolygonWikidata.Domain.WikidataQids

/-! # Links and the items of their polygons

A link names an item that its polygon lists. Staging takes the two by different rules. Of a polygon
the newest snapshot is kept, and of a link the first row that has its identity, the parent's before
the children's. So a staged link can come from one extract and its polygon from another one, whose
tag lists other items. The links of a staged parent are sound exactly when the kept snapshots list
the items of the kept links.
-/

namespace OsmPolygonWikidata.Containment

open Python Durable

variable {X C J : Type}

/-! ## Sound links -/

/-- A link names its polygon twice, by `polygon_id` and by the OSM element. -/
structure PointsTo (link polygon : Row X) : Prop where
  polygonId : ∃ id, link "polygon_id" = some (.str id) ∧ polygon "polygon_id" = some (.str id)
  element : polygonKey link = polygonKey polygon

section

variable (rt : Runtime X C J) (decimal : Char → Bool)

/-- The item of the link is among those of the polygon's tag. -/
def ListsItem (polygon link : Row X) : Prop :=
  ∃ tag item, polygon "wikidata" = some tag ∧ link "wikidata" = some item
    ∧ item.pyStr rt.repr ∈ qidsFromOsmTag decimal (tag.pyStr rt.repr)

/-- Every link points to a polygon that lists its item. -/
def LinksListed (polygons links : List (Row X)) : Prop :=
  ∀ link ∈ links, ∃ polygon ∈ polygons, PointsTo link polygon ∧ ListsItem rt decimal polygon link

/-- The links of a region are sound in its own tables. -/
def OwnLinksListed (tables : Tables C) (stem : String) : Prop :=
  ∀ polygons links, readTable rt (tables .polygons stem) = .ok polygons →
    readTable rt (tables .polygonArticles stem) = .ok links →
      LinksListed rt decimal polygons.rows links.rows

/-- The rows of the parent and of its children, in the order in which they are merged. -/
def mergeInput (tables : Tables C) (subdir : Subdir) (rule : ContainmentRule) : List (Row X) :=
  match readTable rt (tables subdir rule.parent),
    readChildren rt tables subdir (sorted rule.children) with
  | .ok parent, .ok children => parent.rows ++ children
  | _, _ => []

/-- `source` is newer than the earlier snapshots of its polygon, and no later one is newer. -/
def Newest (rows : List (Row X)) (source : Row X) : Prop :=
  ∃ before after, rows = before ++ source :: after
    ∧ (∀ row ∈ before, polygonKey row = polygonKey source →
      greater (extractedAt source) (extractedAt row) = .ok true)
    ∧ ∀ row ∈ after, polygonKey row = polygonKey source →
      greater (extractedAt row) (extractedAt source) = .ok false

/-- The identity of a link. -/
def linkKey (link : Row X) : Option (List (Value X)) :=
  identity ["osm_type", "osm_id", "article_id"] link

/-- The newest snapshot of a polygon lists the items of the links that staging takes for it: of each
link the first row, the parent's before the children's. -/
def SnapshotsListLinks (tables : Tables C) (rule : ContainmentRule) : Prop :=
  ∀ link, Dict.First linkKey (mergeInput rt tables .polygonArticles rule) link →
    ∀ polygon, Newest (mergeInput rt tables .polygons rule) polygon →
      polygonKey polygon = polygonKey link → ListsItem rt decimal polygon link

end

/-! ## The kept snapshot -/

section

variable {rt : Runtime X C J} {stem : String} {rows rows' done children merged : List (Row X)}
  {child source source' : Row X}

theorem greater_of_not_newer {a b c : Value X} (hab : greater a b = .ok false)
    (hcb : greater c b = .ok true) : greater c a = .ok true := by
  cases a <;> cases b <;> cases c <;>
    simp only [greater, Except.ok.injEq, decide_eq_true_eq, decide_eq_false_iff_not,
      reduceCtorEq] at hab hcb ⊢
  · omega
  · exact lt_of_le_of_lt (not_lt.mp hab) hcb

theorem Newest.unique (h : Newest rows source) (h' : Newest rows source')
    (hkey : polygonKey source = polygonKey source') : source = source' := by
  obtain ⟨before, after, rfl, hbefore, hafter⟩ := h
  obtain ⟨before', after', heq, hbefore', hafter'⟩ := h'
  rcases List.append_eq_append_iff.mp heq with ⟨xs, rfl, hxs⟩ | ⟨xs, rfl, hxs⟩
  · cases xs with
    | nil => exact (List.cons.inj hxs).1
    | cons x xs =>
      -- `source` stands before `source'`
      obtain ⟨rfl, rfl⟩ := List.cons.inj hxs
      have hnewer := hbefore' source (by simp) hkey
      have hnot := hafter source' (by simp) hkey.symm
      rw [hnewer] at hnot
      cases hnot
  · cases xs with
    | nil => exact (List.cons.inj hxs).1.symm
    | cons x xs =>
      obtain ⟨rfl, rfl⟩ := List.cons.inj hxs
      have hnewer := hbefore source' (by simp) hkey.symm
      have hnot := hafter' source (by simp) hkey
      rw [hnewer] at hnot
      cases hnot

theorem Newest.keep (h : Newest done source) (hchild : polygonKey child = polygonKey source →
      greater (extractedAt child) (extractedAt source) = .ok false) :
    Newest (done ++ [child]) source := by
  obtain ⟨before, after, rfl, hbefore, hafter⟩ := h
  refine ⟨before, after ++ [child], by simp, hbefore, ?_⟩
  intro row hrow hkey
  rcases List.mem_append.mp hrow with hrow | hrow
  · exact hafter row hrow hkey
  · rw [List.mem_singleton.mp hrow] at hkey ⊢
    exact hchild hkey

theorem Newest.replace (h : Newest done source) (hkey : polygonKey child = polygonKey source)
    (hnewer : greater (extractedAt child) (extractedAt source) = .ok true) :
    Newest (done ++ [child]) child := by
  obtain ⟨before, after, rfl, hbefore, hafter⟩ := h
  refine ⟨before ++ source :: after, [], rfl, ?_, by simp⟩
  intro row hrow hrowKey
  have hrowKey' := hrowKey.trans hkey
  rcases mem_append_cons.mp hrow with rfl | hrow
  · exact hnewer
  · rcases List.mem_append.mp hrow with hrow | hrow
    · exact greater_trans hnewer (hbefore row hrow hrowKey')
    · exact greater_of_not_newer (hafter row hrow hrowKey') hnewer

/-- Each merged polygon has the data of the newest snapshot of the rows merged so far. -/
structure KeptInv (done rows : List (Row X)) : Prop where
  keys : ∀ row ∈ done, polygonKey row ∈ rows.map polygonKey
  newest : ∀ m ∈ rows, ∃ source, Newest done source ∧ SameData m source

theorem KeptInv.start (hnodup : (rows.map polygonKey).Nodup) : KeptInv rows rows := by
  refine ⟨fun row hrow => List.mem_map_of_mem hrow, fun m hm => ⟨m, ?_, fun _ _ => rfl⟩⟩
  obtain ⟨before, after, rfl⟩ := List.append_of_mem hm
  rw [List.map_append, List.map_cons, List.nodup_append] at hnodup
  obtain ⟨-, hafter, hbefore⟩ := hnodup
  refine ⟨before, after, rfl, ?_, ?_⟩
  · intro row hrow hkey
    exact absurd hkey (hbefore _ (List.mem_map_of_mem hrow) _ List.mem_cons_self)
  · intro row hrow hkey
    exact absurd (hkey ▸ List.mem_map_of_mem hrow) (List.nodup_cons.mp hafter).1

variable [DecidableEq X]

theorem KeptInv.step (h : KeptInv done rows) (hnodup : (rows.map polygonKey).Nodup)
    (hstep : mergeChildPolygonRow rt stem rows child = .ok rows') :
    KeptInv (done ++ [child]) rows' := by
  obtain ⟨-, ⟨row, hrow, rfl, hnew⟩ | ⟨before, m, after, row, rfl, hm, hrow, rfl⟩⟩ :=
    mergeChildPolygonRow_cases hstep
  · obtain ⟨newest, hnewest, hsame, -⟩ := canonicalPolygonRow_values hrow
    cases hnewest
    refine ⟨?_, ?_⟩
    · intro r hr
      rw [List.map_append, List.mem_append, List.map_singleton, List.mem_singleton, hsame.key]
      rcases List.mem_append.mp hr with hr | hr
      · exact Or.inl (h.keys r hr)
      · exact Or.inr (by rw [List.mem_singleton.mp hr])
    · intro m hm
      rcases List.mem_append.mp hm with hm | hm
      · obtain ⟨source, hsource, hdata⟩ := h.newest m hm
        refine ⟨source, hsource.keep (fun hkey => absurd ?_ hnew), hdata⟩
        rw [hkey, ← hdata.key]
        exact List.mem_map_of_mem hm
      · rw [List.mem_singleton.mp hm]
        refine ⟨child, ⟨done, [], rfl, ?_, by simp⟩, hsame⟩
        intro r hr hkey
        exact absurd (hkey ▸ h.keys r hr) hnew
  · obtain ⟨newest, hnewest, hsame, -⟩ := canonicalPolygonRow_values hrow
    have hmem : m ∈ before ++ m :: after := by simp
    obtain ⟨source, hsource, hdata⟩ := h.newest m hmem
    obtain ⟨newer, hgreater, hchoice⟩ := bind_eq_ok.mp hnewest
    have hgreater' : greater (extractedAt child) (extractedAt m) = .ok newer := hgreater
    rw [hdata.extracted] at hgreater'
    -- what the merged row is now the newest snapshot of
    have hkept : ∃ source', Newest (done ++ [child]) source' ∧ SameData row source' := by
      cases hchoice
      cases newer with
      | true => exact ⟨child, hsource.replace (hm.symm.trans hdata.key) hgreater', hsame⟩
      | false =>
        refine ⟨source, hsource.keep (fun _ => hgreater'), ?_⟩
        exact fun c hc => (hsame c hc).trans (hdata c hc)
    have hrowKey : polygonKey row = polygonKey m := by
      rw [hsame.key]
      rcases newestRow_mem hnewest with rfl | rfl
      · exact hm.symm
      · rfl
    have hkeys : (before ++ row :: after).map polygonKey
        = (before ++ m :: after).map polygonKey := by simp [hrowKey]
    refine ⟨?_, ?_⟩
    · intro r hr
      rw [hkeys]
      rcases List.mem_append.mp hr with hr | hr
      · exact h.keys r hr
      · rw [List.mem_singleton.mp hr, ← hm]
        exact List.mem_map_of_mem hmem
    · intro p hp
      rcases mem_append_cons.mp hp with rfl | hp
      · exact hkept
      · have hp' : p ∈ before ++ m :: after := mem_append_cons.mpr (Or.inr hp)
        obtain ⟨source', hsource', hdata'⟩ := h.newest p hp'
        have hother : polygonKey p ≠ polygonKey m := by
          intro hkey
          have hperm : (polygonKey m :: (before ++ after).map polygonKey).Nodup := by
            rw [List.map_append, List.map_cons] at hnodup
            rw [List.map_append]
            exact List.perm_middle.nodup_iff.mp hnodup
          exact (List.nodup_cons.mp hperm).1 (hkey ▸ List.mem_map_of_mem hp)
        refine ⟨source', hsource'.keep (fun hkey => absurd ?_ hother), hdata'⟩
        calc polygonKey p = polygonKey source' := hdata'.key
          _ = polygonKey child := hkey.symm
          _ = polygonKey m := hm.symm

theorem KeptInv.run {columns : List String} (h : KeptInv done rows)
    (hmerge : MergeInv columns rows merged) (hcolumns : ∀ child ∈ children, HasColumns columns child)
    (hrun : children.foldlM (mergeChildPolygonRow rt stem) rows = .ok rows') :
    KeptInv (done ++ children) rows' := by
  induction children generalizing rows done merged with
  | nil =>
    cases hrun
    rwa [List.append_nil]
  | cons child children ih =>
    rw [List.foldlM_cons] at hrun
    obtain ⟨next, hstep, hrun⟩ := bind_eq_ok.mp hrun
    have hnext := hmerge.step (hcolumns child List.mem_cons_self) hstep
    have hkept := ih (h.step hmerge.nodup hstep) hnext
      (fun c hc => hcolumns c (List.mem_cons_of_mem _ hc)) hrun
    rwa [List.append_assoc, List.singleton_append] at hkept

end

/-! ## The kept links -/

section

variable [DecidableEq X] {stem : String} {polygonRows parents done children : List (Row X)}
  {link row child : Row X} {acc acc' : List (Row X) × List (List (Value X))}

/-- The row that stands for a link: the parent's own, or a child's with the polygon of the parent. -/
def Carried (stem : String) (polygonRows parents done : List (Row X)) (link row : Row X) : Prop :=
  (link ∈ parents ∧ row = link) ∨ (link ∈ done ∧ remapLink link stem polygonRows = .ok row)

/-- The merged rows stand for the first link of each identity. -/
structure FirstInv (stem : String) (polygonRows parents done rows : List (Row X)) : Prop where
  first : ∀ row ∈ rows, ∃ link, Dict.First linkKey (parents ++ done) link
    ∧ Carried stem polygonRows parents done link row
  kept : ∀ link, Dict.First linkKey (parents ++ done) link →
    ∃ row ∈ rows, Carried stem polygonRows parents done link row

variable (h : Carried stem polygonRows parents done link row)

include h

theorem Carried.apply {c : String}
    (hid : c ≠ "polygon_id") (hpbf : c ≠ "source_pbf") (hregion : c ≠ "region") :
    row c = link c := by
  rcases h with ⟨-, rfl⟩ | ⟨-, hremap⟩
  · rfl
  · exact (remapLink_spec hremap).2 c hid hpbf hregion

theorem Carried.polygonKey : polygonKey row = polygonKey link := by
  refine identity_congr (fun c hc => ?_)
  rcases List.mem_pair.mp hc with rfl | rfl
  · exact h.apply (by decide) (by decide) (by decide)
  · exact h.apply (by decide) (by decide) (by decide)

theorem Carried.linkKey : linkKey row = linkKey link := by
  refine identity_congr (fun c hc => ?_)
  simp only [List.mem_cons, List.not_mem_nil, or_false] at hc
  rcases hc with rfl | rfl | rfl
  · exact h.apply (by decide) (by decide) (by decide)
  · exact h.apply (by decide) (by decide) (by decide)
  · exact h.apply (by decide) (by decide) (by decide)

theorem Carried.later : Carried stem polygonRows parents (done ++ [child]) link row := by
  rcases h with hparent | ⟨hlink, hremap⟩
  · exact Or.inl hparent
  · exact Or.inr ⟨List.mem_append_left _ hlink, hremap⟩

omit h

theorem FirstInv.keys {rows : List (Row X)} (h : FirstInv stem polygonRows parents done rows)
    (key : Option (List (Value X))) :
    key ∈ rows.map linkKey ↔ key ∈ (parents ++ done).map linkKey := by
  constructor
  · intro hkey
    obtain ⟨row, hrow, rfl⟩ := List.mem_map.mp hkey
    obtain ⟨link, hfirst, hcarried⟩ := h.first row hrow
    rw [hcarried.linkKey]
    exact List.mem_map_of_mem hfirst.mem
  · intro hkey
    obtain ⟨other, hother, rfl⟩ := List.mem_map.mp hkey
    obtain ⟨link, hfirst, hlinkKey⟩ := @Dict.exists_first _ _ linkKey _ _ hother
    obtain ⟨row, hrow, hcarried⟩ := h.kept link hfirst
    rw [← hlinkKey, ← hcarried.linkKey]
    exact List.mem_map_of_mem hrow

theorem FirstInv.start (hnodup : (parents.map linkKey).Nodup) :
    FirstInv stem polygonRows parents [] parents := by
  constructor
  · intro row hrow
    obtain ⟨link, hfirst, hkey⟩ := @Dict.exists_first _ _ linkKey _ _ hrow
    obtain rfl := List.inj_on_of_nodup_map hnodup hfirst.mem hrow hkey
    exact ⟨link, by rwa [List.append_nil], Or.inl ⟨hrow, rfl⟩⟩
  · intro link hfirst
    have hmem := hfirst.mem
    rw [List.append_nil] at hmem
    exact ⟨link, hmem, Or.inl ⟨hmem, rfl⟩⟩

omit [DecidableEq X] in
theorem mem_seen {columns identityColumns : List String} {seen : List (Row X)}
    (h : AppendInv columns identityColumns acc seen) (key : List (Value X)) :
    key ∈ acc.2 ↔ some key ∈ acc.1.map (identity identityColumns) := by
  rw [mapM_eq_some_iff.mp h.identities, List.mem_map]
  simp

theorem FirstInv.step {columns : List String} {seen : List (Row X)}
    (h : FirstInv stem polygonRows parents done acc.1)
    (hinv : AppendInv columns ["osm_type", "osm_id", "article_id"] acc seen)
    (hstep : appendChildRow ⟨.polygonArticles, ["osm_type", "osm_id", "article_id"]⟩ stem
      polygonRows acc child = .ok acc') :
    FirstInv stem polygonRows parents (done ++ [child]) acc'.1 := by
  unfold appendChildRow at hstep
  obtain ⟨key, hkey, hstep⟩ := bind_eq_ok.mp hstep
  have hkey' : linkKey child = some key := orKeyError_eq_ok.mp hkey
  have hseen : key ∈ acc.2 ↔ linkKey child ∈ (parents ++ done).map linkKey := by
    rw [hkey', ← h.keys]
    exact mem_seen hinv key
  split at hstep
  · rename_i hold
    cases hstep
    have hold' := hseen.mp hold
    constructor
    · intro row hrow
      obtain ⟨link, hfirst, hcarried⟩ := h.first row hrow
      rw [← List.append_assoc]
      exact ⟨link, Dict.first_concat.mpr (Or.inl hfirst), hcarried.later⟩
    · intro link hfirst
      rw [← List.append_assoc] at hfirst
      rcases Dict.first_concat.mp hfirst with hfirst | ⟨-, hnew⟩
      · obtain ⟨row, hrow, hcarried⟩ := h.kept link hfirst
        exact ⟨row, hrow, hcarried.later⟩
      · exact absurd hold' hnew
  · rename_i hnew
    obtain ⟨candidate, hcandidate, hstep⟩ := bind_eq_ok.mp hstep
    cases hstep
    have hnew' := mt hseen.mpr hnew
    have htaken : Carried stem polygonRows parents (done ++ [child]) child candidate :=
      Or.inr ⟨by simp, hcandidate⟩
    constructor
    · intro row hrow
      rw [← List.append_assoc]
      rcases List.mem_append.mp hrow with hrow | hrow
      · obtain ⟨link, hfirst, hcarried⟩ := h.first row hrow
        exact ⟨link, Dict.first_concat.mpr (Or.inl hfirst), hcarried.later⟩
      · rw [List.mem_singleton.mp hrow]
        exact ⟨child, Dict.first_concat.mpr (Or.inr ⟨rfl, hnew'⟩), htaken⟩
    · intro link hfirst
      rw [← List.append_assoc] at hfirst
      rcases Dict.first_concat.mp hfirst with hfirst | ⟨rfl, -⟩
      · obtain ⟨row, hrow, hcarried⟩ := h.kept link hfirst
        exact ⟨row, List.mem_append_left _ hrow, hcarried.later⟩
      · exact ⟨candidate, by simp, htaken⟩

theorem FirstInv.run {columns : List String} {seen : List (Row X)}
    (h : FirstInv stem polygonRows parents done acc.1)
    (hinv : AppendInv columns ["osm_type", "osm_id", "article_id"] acc seen)
    (hcolumns : ∀ child ∈ children, HasColumns columns child)
    (hrun : children.foldlM (appendChildRow
      ⟨.polygonArticles, ["osm_type", "osm_id", "article_id"]⟩ stem polygonRows) acc = .ok acc') :
    FirstInv stem polygonRows parents (done ++ children) acc'.1 := by
  induction children generalizing acc done seen with
  | nil =>
    cases hrun
    rwa [List.append_nil]
  | cons child children ih =>
    rw [List.foldlM_cons] at hrun
    obtain ⟨next, hstep, hrun⟩ := bind_eq_ok.mp hrun
    have hnext := hinv.step (by decide) (hcolumns child List.mem_cons_self) hstep
    have hfirst := ih (h.step hinv hstep) hnext
      (fun c hc => hcolumns c (List.mem_cons_of_mem _ hc)) hrun
    rwa [List.append_assoc, List.singleton_append] at hfirst

end

/-! ## A staged parent -/

section

variable [DecidableEq X] {rt : Runtime X C J} {decimal : Char → Bool} {tables : Tables C}
  {rule : ContainmentRule} {polygonRows : List (Row X)} {files : Subdir → C} {t : Table X}
  {polygon polygon' link link' : Row X}

omit [DecidableEq X] in
theorem ListsItem.congr (hpolygon : polygon "wikidata" = polygon' "wikidata")
    (hlink : link "wikidata" = link' "wikidata") :
    ListsItem rt decimal polygon link ↔ ListsItem rt decimal polygon' link' := by
  unfold ListsItem
  rw [hpolygon, hlink]

omit [DecidableEq X] in
theorem mergeInput_eq {subdir : Subdir} {parent : Table X} {childRows : List (Row X)}
    (hparent : readTable rt (tables subdir rule.parent) = .ok parent)
    (hchildren : readChildren rt tables subdir (sorted rule.children) = .ok childRows) :
    mergeInput rt tables subdir rule = parent.rows ++ childRows := by
  unfold mergeInput
  rw [hparent, hchildren]

theorem Staged.keptInv (h : Staged rt tables rule.parent (sorted rule.children) polygonRows files)
    (hA : Audited rt tables rule.parent (sorted rule.children)) :
    KeptInv (mergeInput rt tables .polygons rule) polygonRows := by
  obtain ⟨table, ids, hA'⟩ := hA.polygons
  obtain ⟨childRows, hchildren, hcolumns, hfold, -⟩ := h.mergeInv hA' (by decide) rfl
  have hstart := hA'.mergeInv (by decide) rfl
  rw [mergeInput_eq hA'.read hchildren]
  exact (KeptInv.start hstart.nodup).run hstart hcolumns hfold

theorem Staged.firstInv (hrt : RoundTrips rt)
    (h : Staged rt tables rule.parent (sorted rule.children) polygonRows files)
    (hA : Audited rt tables rule.parent (sorted rule.children))
    (ht : readTable rt (some (files .polygonArticles)) = .ok t) :
    ∃ parents childRows, mergeInput rt tables .polygonArticles rule = parents ++ childRows
      ∧ (∀ link ∈ parents, IsRow rt tables rule.parent .polygonArticles link)
      ∧ (∀ link ∈ childRows, ChildRow rt tables rule.children .polygonArticles link)
      ∧ FirstInv rule.parent polygonRows parents childRows t.rows := by
  obtain ⟨table, ids, hA'⟩ := hA ⟨.polygonArticles, ["osm_type", "osm_id", "article_id"]⟩
    (by decide)
  obtain ⟨childRows, merged, hchildren, hfold, hinv, hencode⟩ :=
    h.appended hA' (by decide) (by decide)
  obtain ⟨_, hchildren', hcolumns⟩ := hA'.readChildren
  rw [hchildren] at hchildren'
  cases hchildren'
  have hback : readTable rt (some (files .polygonArticles))
      = .ok (Table.fromPylist merged.1 table.schema) := mapError_eq_ok.mpr (hrt _ _ hencode)
  have hrows : t.rows = merged.1 := by
    rw [ht] at hback
    rw [Except.ok.inj hback, fromPylist_rows hinv.columns]
  have hkeys : table.rows.map linkKey = ids.map some := mapM_eq_some_iff.mp hA'.identities
  have hnodup : (table.rows.map linkKey).Nodup := by
    rw [hkeys]
    exact hA'.nodup.map (Option.some_injective _)
  have hstart : AppendInv table.schema.columns ["osm_type", "osm_id", "article_id"]
      (table.rows, ids) [] := ⟨hA'.identities, hA'.nodup, table.columns_iff, by simp⟩
  have hfirst : FirstInv rule.parent polygonRows table.rows [] (table.rows, ids).1 :=
    FirstInv.start hnodup
  have hrun := hfirst.run hstart hcolumns hfold
  rw [List.nil_append, ← hrows] at hrun
  refine ⟨table.rows, childRows, mergeInput_eq hA'.read hchildren, ?_, ?_, hrun⟩
  · exact fun link hlink => (isRow_iff hA'.read link).mpr hlink
  · intro link hlink
    rw [← childRow_sorted]
    exact (mem_readChildren hchildren link).mp hlink

omit [DecidableEq X] in
theorem OwnLinksListed.pointsTo {stem : String} (h : OwnLinksListed rt decimal tables stem)
    (hpolygons : ∃ table, readTable rt (tables .polygons stem) = .ok table)
    (hlink : IsRow rt tables stem .polygonArticles link) :
    ∃ polygon, IsRow rt tables stem .polygons polygon ∧ PointsTo link polygon := by
  obtain ⟨polygons, hread⟩ := hpolygons
  obtain ⟨links, hreadLinks, hmem⟩ := hlink
  obtain ⟨polygon, hpolygon, hpoints, -⟩ := h polygons links hread hreadLinks link hmem
  exact ⟨polygon, ⟨polygons, hread, hpolygon⟩, hpoints⟩

/-- **A staged link points to a staged polygon**, if links do so in the regions' own tables. -/
theorem Staged.pointsTo (h : Staged rt tables rule.parent (sorted rule.children) polygonRows files)
    (hA : Audited rt tables rule.parent (sorted rule.children))
    (hown : ∀ stem ∈ rule.parent :: rule.children, OwnLinksListed rt decimal tables stem)
    {parents childRows : List (Row X)} {row : Row X}
    (hparents : ∀ link ∈ parents, IsRow rt tables rule.parent .polygonArticles link)
    (hchildRows : ∀ link ∈ childRows, ChildRow rt tables rule.children .polygonArticles link)
    (hrow : Carried rule.parent polygonRows parents childRows link row) :
    ∃ polygon ∈ polygonRows, PointsTo row polygon := by
  obtain ⟨table, ids, hA'⟩ := hA.polygons
  obtain ⟨childPolygons, hchildren, -, hinv, -⟩ := h.polygonInv hA'
  have hread : readTable rt (tables .polygons rule.parent) = .ok table := hA'.read
  rcases hrow with ⟨hlink, rfl⟩ | ⟨hlink, hremap⟩
  · -- the polygon of a parent's link keeps its identifier
    obtain ⟨p, hp, ⟨id, hlinkId, hpId⟩, helement⟩ :=
      (hown rule.parent List.mem_cons_self).pointsTo ⟨table, hread⟩ (hparents row hlink)
    have hp' := (isRow_iff hread p).mp hp
    have hkey : polygonKey p ∈ polygonRows.map polygonKey :=
      (hinv.keys _).mpr (List.mem_map_of_mem (List.mem_append_left _ hp'))
    obtain ⟨m, hm, hmKey⟩ := List.mem_map.mp hkey
    refine ⟨m, hm, ⟨id, hlinkId, ?_⟩, helement.trans hmKey.symm⟩
    by_cases htouched : ∃ child ∈ childPolygons.reverse, polygonKey child = polygonKey m
    · rw [(hinv.snapshot m hm).touched p hp' hmKey.symm htouched, hpId]
      rfl
    · push Not at htouched
      rw [(hinv.snapshot m hm).untouched p hp' hmKey.symm htouched, hpId]
  · -- a child's link gets the identifier of the merged polygon, which is a string
    obtain ⟨child, hchild, hlink⟩ := hchildRows link hlink
    have hchild' := (sorted_perm rule.children).mem_iff.mpr hchild
    obtain ⟨childTable, -, hchildTable, -⟩ := hA'.children child hchild'
    obtain ⟨p, hp, ⟨id, hlinkId, -⟩, helement⟩ :=
      (hown child (List.mem_cons_of_mem _ hchild)).pointsTo ⟨childTable, hchildTable⟩ hlink
    have hdone : p ∈ childPolygons.reverse :=
      List.mem_reverse.mpr ((mem_readChildren hchildren p).mpr ⟨child, hchild', hp⟩)
    have hsome : (row "polygon_id").isSome = true := by
      rw [(remapLink_spec hremap).1, hlinkId]
      rfl
    obtain ⟨m, hm, hmKey, hmId⟩ := remapLink_polygon hremap hsome
    have hcarried : Carried rule.parent polygonRows [] [link] link row :=
      Or.inr ⟨List.mem_singleton_self link, hremap⟩
    have hpKey : polygonKey p = polygonKey m := by
      rw [hmKey, hcarried.polygonKey, helement]
    obtain ⟨v, hv⟩ := Option.isSome_iff_exists.mp hsome
    have htext : ∃ name, v = .str name := by
      by_cases hparent : ∃ q ∈ table.rows, polygonKey q = polygonKey m
      · obtain ⟨q, hq, hqKey⟩ := hparent
        have htouched := (hinv.snapshot m hm).touched q hq hqKey ⟨p, hdone, hpKey⟩
        rw [← hmId, hv] at htouched
        obtain ⟨w, -, hw⟩ := Option.map_eq_some_iff.mp htouched.symm
        exact ⟨_, hw.symm⟩
      · push Not at hparent
        obtain ⟨osmType, osmId, -, hminted⟩ :=
          (hinv.snapshot m hm).minted hparent v (hmId ▸ hv)
        exact ⟨_, hminted⟩
    obtain ⟨name, rfl⟩ := htext
    exact ⟨m, hm, ⟨name, hv, hmId ▸ hv⟩, hmKey.symm⟩

/-- **The links of a staged parent** are sound exactly when the newest snapshots list their
items. -/
theorem Staged.linksListed_iff (hrt : RoundTrips rt)
    (h : Staged rt tables rule.parent (sorted rule.children) polygonRows files)
    (hA : Audited rt tables rule.parent (sorted rule.children))
    (hown : ∀ stem ∈ rule.parent :: rule.children, OwnLinksListed rt decimal tables stem)
    (ht : readTable rt (some (files .polygonArticles)) = .ok t) :
    LinksListed rt decimal polygonRows t.rows ↔ SnapshotsListLinks rt decimal tables rule := by
  have hkept := h.keptInv hA
  obtain ⟨parents, childRows, hinput, hparents, hchildRows, hinv⟩ := h.firstInv hrt hA ht
  constructor
  · intro hlisted link hfirst polygon hnewest hkey
    rw [hinput] at hfirst
    obtain ⟨row, hrow, hcarried⟩ := hinv.kept link hfirst
    obtain ⟨m, hm, hpoints, hitem⟩ := hlisted row hrow
    obtain ⟨source, hsource, hdata⟩ := hkept.newest m hm
    have hsourceKey : polygonKey source = polygonKey polygon := by
      rw [hkey, ← hdata.key, ← hpoints.element, hcarried.polygonKey]
    obtain rfl := hsource.unique hnewest hsourceKey
    have hwikidata := hdata "wikidata" (fun field => by cases field <;> decide)
    exact (ListsItem.congr hwikidata (hcarried.apply (by decide) (by decide) (by decide))).mp hitem
  · intro hsnapshots row hrow
    obtain ⟨link, hfirst, hcarried⟩ := hinv.first row hrow
    obtain ⟨m, hm, hpoints⟩ := h.pointsTo hA hown hparents hchildRows hcarried
    obtain ⟨source, hsource, hdata⟩ := hkept.newest m hm
    have hkey : polygonKey source = polygonKey link := by
      rw [← hdata.key, ← hpoints.element, hcarried.polygonKey]
    have hitem := hsnapshots link (by rwa [hinput]) source hsource hkey
    have hwikidata := hdata "wikidata" (fun field => by cases field <;> decide)
    refine ⟨m, hm, hpoints, ?_⟩
    exact (ListsItem.congr hwikidata (hcarried.apply (by decide) (by decide) (by decide))).mpr hitem

/-- **Staging keeps the links sound** exactly when the newest snapshot of each polygon lists the
items of the links that are taken for it. A rule without children stages the parent as it is. -/
theorem staged_linksListed_iff (hrt : RoundTrips rt) {audit : RuleAudit} {s s' : Store C J}
    (haudit : auditRule rt s.tables rule = .ok audit) (hsafe : audit.safeToStage = true)
    (hstage : Prog.run (stageRule rt audit) s = (.ok (), s'))
    (hown : ∀ stem ∈ rule.parent :: rule.children, OwnLinksListed rt decimal s.tables stem) :
    (∃ polygons links, readTable rt (s'.cache rule.parent .polygons) = .ok polygons
        ∧ readTable rt (s'.cache rule.parent .polygonArticles) = .ok links
        ∧ LinksListed rt decimal polygons.rows links.rows)
      ↔ rule.children = [] ∨ SnapshotsListLinks rt decimal s.tables rule := by
  obtain ⟨-, polygonRows, files, hstaged, hcache⟩ := stageRule_staged haudit hstage
  rw [hcache]
  by_cases hchildren : rule.children = []
  · refine iff_of_true ?_ (Or.inl hchildren)
    have hnil : sorted rule.children = [] := sorted_eq_nil.mpr hchildren
    rw [hnil] at hstaged
    obtain ⟨polygons, -, stagedPolygons, hpolygons, -, hreadPolygons, hpolygonRows⟩ :=
      hstaged.nil hrt
        (by decide : (⟨.polygons, ["osm_type", "osm_id"]⟩ : TableContract) ∈ tableContracts)
    obtain ⟨links, -, stagedLinks, hlinks, -, hreadLinks, hlinkRows⟩ :=
      hstaged.nil hrt
        (by decide : (⟨.polygonArticles, ["osm_type", "osm_id", "article_id"]⟩ : TableContract)
          ∈ tableContracts)
    refine ⟨stagedPolygons, stagedLinks, hreadPolygons, hreadLinks, ?_⟩
    rw [hpolygonRows, hlinkRows]
    exact hown rule.parent List.mem_cons_self polygons links hpolygons hlinks
  · have hA := (auditRule_spec haudit hchildren).2.2.mp hsafe
    rw [or_iff_right hchildren]
    constructor
    · rintro ⟨polygons, links, hpolygons, hlinks, hlisted⟩
      rw [hstaged.polygons_read hrt hA hpolygons] at hlisted
      exact (hstaged.linksListed_iff hrt hA hown hlinks).mp hlisted
    · intro hsnapshots
      obtain ⟨table, ids, hA'⟩ := hA.polygons
      obtain ⟨rows, -, hpolygons, -⟩ := hstaged.merged hrt hA' (by decide)
      obtain ⟨table', ids', hA''⟩ := hA ⟨.polygonArticles, ["osm_type", "osm_id", "article_id"]⟩
        (by decide)
      obtain ⟨rows', -, hlinks, -⟩ := hstaged.merged hrt hA'' (by decide)
      refine ⟨_, _, hpolygons, hlinks, ?_⟩
      rw [hstaged.polygons_read hrt hA hpolygons]
      exact (hstaged.linksListed_iff hrt hA hown hlinks).mpr hsnapshots

end

namespace LinkIntegrityExample

def columns : List String := LosslessExample.columns ++ ["wikidata"]

/-- A row that serves every table: a polygon, and its link to the article of its item. -/
def row (polygonId item at' : String) : Row Empty := fun c =>
  if c = "polygon_id" then some (.str polygonId)
  else if c = "extracted_at" then some (.str at')
  else if c = "wikidata" ∨ c = "article_id" then some (.str item)
  else if c ∈ columns then some (.int 1)
  else none

def table (polygonId item at' : String) : Table Empty where
  schema := ⟨columns, ""⟩
  rows := [row polygonId item at']
  columns_iff := by
    intro r hr c
    rw [List.mem_singleton.mp hr]
    unfold row
    split_ifs with hid hat hitem hother
    · simp [hid, columns, LosslessExample.columns]
    · simp [hat, columns, LosslessExample.columns]
    · rcases hitem with rfl | rfl
      · simp [columns]
      · simp [columns, LosslessExample.columns, Example.columns]
    · simp [hother]
    · simp [hother]

/-- The child has a newer snapshot of the polygon, with its tag of that time. -/
def regions (item : String) : Store (Option (Table Empty)) Nat :=
  { Example.regions with
    tables := fun _ stem =>
      if stem = "brandenburg-latest" then some (some (table "brandenburg-latest:1:1" "Q1" "2024"))
      else if stem = "berlin-latest" then some (some (table "berlin-latest:1:1" item "2025"))
      else none }

/-- The child's link is missing from the parent if it is of another item. -/
def audit (missing : Nat) : RuleAudit :=
  ⟨"brandenburg-latest", [⟨"berlin-latest", tableContracts.map (fun contract =>
    ⟨contract.subdir, 1, if contract.subdir = .polygonArticles then missing else 0, 0, 0⟩)⟩], []⟩

def staged (item : String) (missing : Nat) : Store (Option (Table Empty)) Nat :=
  (Prog.run (stageRule Example.runtime (audit missing)) (regions item)).2

theorem pointsTo_self (polygonId item at' : String) :
    PointsTo (row polygonId item at') (row polygonId item at') := ⟨⟨polygonId, rfl, rfl⟩, rfl⟩

theorem ownLinksListed {item stem : String} (hitem : item = "Q1" ∨ item = "Q2") :
    OwnLinksListed Example.runtime Char.isDigit (regions item).tables stem := by
  have hself : ∀ polygonId item at', item = "Q1" ∨ item = "Q2" →
      LinksListed Example.runtime Char.isDigit (table polygonId item at').rows
        (table polygonId item at').rows := by
    rintro polygonId item at' hitem link hlink
    rw [List.mem_singleton.mp hlink]
    refine ⟨_, List.mem_singleton_self _, pointsTo_self polygonId item at', .str item, .str item,
      rfl, rfl, ?_⟩
    rcases hitem with rfl | rfl <;> decide
  intro polygons links hpolygons hlinks
  by_cases hparent : stem = "brandenburg-latest"
  · subst hparent
    cases hpolygons
    cases hlinks
    exact hself _ _ _ (Or.inl rfl)
  · by_cases hchild : stem = "berlin-latest"
    · subst hchild
      cases hpolygons
      cases hlinks
      exact hself _ _ _ hitem
    · have hnone : (regions item).tables .polygons stem = none :=
        (if_neg hparent).trans (if_neg hchild)
      rw [hnone] at hpolygons
      cases hpolygons

/-- The child's snapshot has the same tag. -/
theorem staged_sameItem : ∃ polygons links,
      readTable Example.runtime ((staged "Q1" 0).cache "brandenburg-latest" .polygons) = .ok polygons
      ∧ readTable Example.runtime ((staged "Q1" 0).cache "brandenburg-latest" .polygonArticles)
        = .ok links
      ∧ LinksListed Example.runtime Char.isDigit polygons.rows links.rows := by
  refine (staged_linksListed_iff LosslessExample.roundTrips (show auditRule Example.runtime
    (regions "Q1").tables Example.rule = .ok (audit 0) from rfl) rfl rfl
    (fun stem _ => ownLinksListed (Or.inl rfl))).mpr (Or.inr ?_)
  intro link hfirst polygon hnewest _
  obtain ⟨before, after, heq, -⟩ := hnewest
  have hpolygon : polygon ∈ mergeInput Example.runtime (regions "Q1").tables .polygons
      Example.rule := by rw [heq]; simp
  -- every row of either region has the item `Q1`
  have hitem : ∀ subdir, ∀ r ∈ mergeInput Example.runtime (regions "Q1").tables subdir
      Example.rule, r "wikidata" = some (.str "Q1") := by
    intro subdir r hr
    rcases List.mem_pair.mp hr with rfl | rfl
    · rfl
    · rfl
  exact ⟨_, _, hitem _ polygon hpolygon, hitem _ link hfirst.mem, by decide⟩

/-- **Staging mixes the rows of two extracts.** The parent's link names the item that the polygon
had in its extract. The staged polygon is the child's newer snapshot, whose tag lists another
item. -/
theorem staged_otherItem :
    auditRule Example.runtime (regions "Q2").tables Example.rule = .ok (audit 1)
      ∧ (audit 1).safeToStage = true
      ∧ Prog.run (stageRule Example.runtime (audit 1)) (regions "Q2") = (.ok (), staged "Q2" 1)
      ∧ (∀ stem ∈ Example.rule.parent :: Example.rule.children,
        OwnLinksListed Example.runtime Char.isDigit (regions "Q2").tables stem)
      ∧ ∃ polygons links, readTable Example.runtime
            ((staged "Q2" 1).cache "brandenburg-latest" .polygons) = .ok polygons
          ∧ readTable Example.runtime
            ((staged "Q2" 1).cache "brandenburg-latest" .polygonArticles) = .ok links
          ∧ ¬ LinksListed Example.runtime Char.isDigit polygons.rows links.rows := by
  refine ⟨rfl, rfl, rfl, fun stem _ => ownLinksListed (Or.inr rfl), _, _, rfl, rfl, ?_⟩
  intro hlisted
  obtain ⟨polygon, hpolygon, -, tag, item, htag, hitem, hlists⟩ := hlisted _ List.mem_cons_self
  cases List.mem_singleton.mp hpolygon
  cases htag
  cases hitem
  exact absurd hlists (by decide)

end LinkIntegrityExample

end OsmPolygonWikidata.Containment
