import OsmPolygonWikidata.Containment.Preparing
import OsmPolygonWikidata.Containment.Quarantine

/-! # What staging keeps

A staged parent has the identities of the parent and of its children, each once. Outside the
polygons the parent's rows are kept and a child's row is taken for an identity that was not there; a
link that is taken points to the merged polygon. A merged polygon is the newest snapshot of its
identity under the parent's provenance. Staging again from the installed files gives the same files
if the polygons that the parent lacked have a time of extraction.
-/

namespace OsmPolygonWikidata.Containment

open Python Durable

variable {X C J : Type}

/-! ## The newest snapshot -/

/-- Python does not find `row` newer than `source`. -/
def NotNewer (row source : Row X) : Prop :=
  extractedAt row = extractedAt source ∨ greater (extractedAt row) (extractedAt source) = .ok false

theorem NotNewer.refl (row : Row X) : NotNewer row row := Or.inl rfl

theorem greater_asymm {a b : Value X} (h : greater a b = .ok true) : greater b a = .ok false := by
  cases a <;> cases b <;>
    simp only [greater, Except.ok.injEq, decide_eq_true_eq, decide_eq_false_iff_not,
      reduceCtorEq] at h ⊢
  · exact not_lt_of_gt h
  · exact not_lt_of_gt h

theorem greater_false_of_lt {a b c : Value X} (hab : greater a b = .ok false)
    (hcb : greater c b = .ok true) : greater a c = .ok false := by
  cases a <;> cases b <;> cases c <;>
    simp only [greater, Except.ok.injEq, decide_eq_true_eq, decide_eq_false_iff_not,
      reduceCtorEq] at hab hcb ⊢
  · exact not_lt_of_gt (lt_of_le_of_lt (not_lt.mp hab) hcb)
  · exact not_lt_of_gt (lt_of_le_of_lt (not_lt.mp hab) hcb)

theorem Comparable.self {a b : Value X} (h : Comparable a b) : Comparable a a := by
  obtain ⟨newer, h⟩ := h
  cases a <;> cases b <;> simp only [greater, reduceCtorEq] at h
  · exact ⟨_, rfl⟩
  · exact ⟨_, rfl⟩

theorem Comparable.right {a b : Value X} (h : Comparable a b) : Comparable b b := by
  obtain ⟨newer, h⟩ := h
  cases a <;> cases b <;> simp only [greater, reduceCtorEq] at h
  · exact ⟨_, rfl⟩
  · exact ⟨_, rfl⟩

theorem NotNewer.comparable {row source : Row X} (h : NotNewer row source)
    (hself : Comparable (extractedAt row) (extractedAt row)) :
    Comparable (extractedAt row) (extractedAt source) := by
  rcases h with heq | hfalse
  · rw [← heq]
    exact hself
  · exact ⟨false, hfalse⟩

theorem NotNewer.newest {row m child newest : Row X} (h : NotNewer row m)
    (hnewest : newestRow (some m) child = .ok newest) : NotNewer row newest := by
  unfold newestRow at hnewest
  obtain ⟨newer, hnewer, hn⟩ := bind_eq_ok.mp hnewest
  cases hn
  cases newer with
  | false => exact h
  | true =>
    rcases h with heq | hfalse
    · refine Or.inr ?_
      rw [heq]
      exact greater_asymm hnewer
    · exact Or.inr (greater_false_of_lt hfalse hnewer)

theorem notNewer_newest {m child newest : Row X} (hnewest : newestRow (some m) child = .ok newest) :
    NotNewer child newest := by
  unfold newestRow at hnewest
  obtain ⟨newer, hnewer, hn⟩ := bind_eq_ok.mp hnewest
  cases hn
  cases newer with
  | false => exact Or.inr hnewer
  | true => exact NotNewer.refl child

/-! ## The values of a canonical row -/

section

variable {rt : Runtime X C J} {parent : Option (Row X)} {child row r m : Row X} {stem : String}

/-- Two rows that agree outside the fields that name the region. -/
def SameData (row source : Row X) : Prop :=
  ∀ c, (∀ field : Provenance, c ≠ field.field) → row c = source c

/-- `str(value)` as a value. -/
def text (rt : Runtime X C J) (v : Value X) : Value X := .str (v.pyStr rt.repr)

theorem setProvenance_apply {field : Provenance}
    (h : setProvenance rt parent child stem row field = .ok r) :
    (∀ c, c ≠ field.field → r c = row c)
      ∧ ((row field.field = none ∧ r field.field = none)
        ∨ ((row field.field).isSome = true
          ∧ ∃ value, canonicalProvenanceValue rt field parent child stem = .ok value
            ∧ r field.field = some (.str value))) := by
  unfold setProvenance at h
  split at h
  · rename_i hfield
    obtain ⟨value, hvalue, hr⟩ := bind_eq_ok.mp h
    cases hr
    exact ⟨fun c hc => Function.update_of_ne hc _ _,
      Or.inr ⟨hfield, value, hvalue, Function.update_self _ _ _⟩⟩
  · rename_i hfield
    cases h
    rw [Bool.not_eq_true, Option.isSome_eq_false_iff, Option.isNone_iff_eq_none] at hfield
    exact ⟨fun _ _ => rfl, Or.inl ⟨hfield, hfield⟩⟩

/-- **The values of a canonical row**: those of the newest snapshot, apart from the provenance. -/
theorem canonicalPolygonRow_values (h : canonicalPolygonRow rt parent child stem = .ok r) :
    ∃ newest, newestRow parent child = .ok newest ∧ SameData r newest
      ∧ ((newest "polygon_id" = none ∧ r "polygon_id" = none)
        ∨ ((newest "polygon_id").isSome = true
          ∧ ∃ value, polygonProvenance rt parent child stem = .ok value
            ∧ r "polygon_id" = some (.str value))) := by
  unfold canonicalPolygonRow at h
  obtain ⟨newest, hnewest, h⟩ := bind_eq_ok.mp h
  obtain ⟨r₁, h₁, h⟩ := bind_eq_ok.mp h
  obtain ⟨r₂, h₂, h₃⟩ := bind_eq_ok.mp h
  obtain ⟨hkeep₁, hid⟩ := setProvenance_apply h₁
  obtain ⟨hkeep₂, -⟩ := setProvenance_apply h₂
  obtain ⟨hkeep₃, -⟩ := setProvenance_apply h₃
  refine ⟨newest, hnewest, ?_, ?_⟩
  · intro c hc
    rw [hkeep₃ c (hc .sourcePbf), hkeep₂ c (hc .region), hkeep₁ c (hc .polygonId)]
  · -- the later fields leave the first alone
    have hlater : r "polygon_id" = r₁ "polygon_id" := by
      rw [hkeep₃ "polygon_id" (by decide), hkeep₂ "polygon_id" (by decide)]
    rw [hlater]
    exact hid

theorem canonicalPolygonRow_id (h : canonicalPolygonRow rt (some m) child stem = .ok r)
    (hcolumns : (child "polygon_id").isSome = (m "polygon_id").isSome) :
    r "polygon_id" = (m "polygon_id").map (text rt) := by
  obtain ⟨newest, hnewest, -, hid⟩ := canonicalPolygonRow_values h
  have hsame : (newest "polygon_id").isSome = (m "polygon_id").isSome := by
    rcases newestRow_mem hnewest with rfl | rfl
    · exact hcolumns
    · rfl
  rcases hid with ⟨hnone, hr⟩ | ⟨hsome, value, hvalue, hr⟩
  · rw [hnone] at hsame
    have hm : m "polygon_id" = none := by
      rw [← Option.not_isSome_iff_eq_none, ← hsame]
      exact Bool.false_ne_true
    rw [hr, hm]
    rfl
  · rw [hsame] at hsome
    obtain ⟨v, hv⟩ := Option.isSome_iff_exists.mp hsome
    obtain ⟨v', hv', hvalue⟩ := bind_eq_ok.mp hvalue
    rw [hv] at hv'
    cases hv'
    cases hvalue
    rw [hr, hv]
    rfl

end

/-! ## Merged polygons -/

section

variable {rt : Runtime X C J} {stem : String} {columns : List String}
  {parents done rows rows' : List (Row X)} {child row m : Row X}

/-- The identity the parent gives to a polygon that it lacked. -/
def MintedId (rt : Runtime X C J) (stem : String) (row : Row X) (id : Value X) : Prop :=
  ∃ osmType osmId, polygonKey row = some [osmType, osmId]
    ∧ id = .str s!"{stem}:{osmType.pyStr rt.repr}:{osmId.pyStr rt.repr}"

/-- What a merged polygon is, once the rows `done` of the children have been merged into those of
the parent. -/
structure SnapshotOf (rt : Runtime X C J) (stem : String) (parents done : List (Row X))
    (row : Row X) : Prop where
  newest : ∃ source ∈ parents ++ done, polygonKey source = polygonKey row ∧ SameData row source
    ∧ ∀ other ∈ parents ++ done, polygonKey other = polygonKey row → NotNewer other source
  touched : ∀ p ∈ parents, polygonKey p = polygonKey row →
    (∃ child ∈ done, polygonKey child = polygonKey row) →
      row "polygon_id" = (p "polygon_id").map (text rt)
  untouched : ∀ p ∈ parents, polygonKey p = polygonKey row →
    (∀ child ∈ done, polygonKey child ≠ polygonKey row) → row "polygon_id" = p "polygon_id"
  minted : (∀ p ∈ parents, polygonKey p ≠ polygonKey row) →
    ∀ id, row "polygon_id" = some id → MintedId rt stem row id

/-- The merged polygons have the identities of the rows merged so far, and each is a snapshot. -/
structure PolygonInv (rt : Runtime X C J) (stem : String) (parents done rows : List (Row X)) :
    Prop where
  keys : ∀ key, key ∈ rows.map polygonKey ↔ key ∈ (parents ++ done).map polygonKey
  snapshot : ∀ row ∈ rows, SnapshotOf rt stem parents done row

theorem SameData.key {row source : Row X} (h : SameData row source) :
    polygonKey row = polygonKey source := by
  refine identity_congr (fun c hc => h c (fun field => ?_))
  obtain ⟨htype, hid, -⟩ := field.ne_key
  rcases List.mem_pair.mp hc with rfl | rfl
  · exact htype
  · exact hid

theorem SameData.extracted {row source : Row X} (h : SameData row source) :
    extractedAt row = extractedAt source := by
  unfold extractedAt
  rw [h "extracted_at" (fun field => field.ne_key.2.2)]

theorem mem_append_cons {xs ys : List (Row X)} {x y : Row X} :
    x ∈ xs ++ y :: ys ↔ x = y ∨ x ∈ xs ++ ys := by
  simp only [List.mem_append, List.mem_cons]
  tauto

theorem SnapshotOf.skip (h : SnapshotOf rt stem parents done row)
    (hkey : polygonKey child ≠ polygonKey row) : SnapshotOf rt stem parents (child :: done) row := by
  obtain ⟨source, hsource, hsame, hdata, hnewest⟩ := h.newest
  refine ⟨⟨source, mem_append_cons.mpr (Or.inr hsource), hsame, hdata, ?_⟩, ?_, ?_, h.minted⟩
  · intro other hother hotherKey
    rcases mem_append_cons.mp hother with rfl | hother
    · exact absurd hotherKey hkey
    · exact hnewest other hother hotherKey
  · rintro p hp hpkey ⟨c, hc, hck⟩
    rcases List.mem_cons.mp hc with rfl | hc
    · exact absurd hck hkey
    · exact h.touched p hp hpkey ⟨c, hc, hck⟩
  · intro p hp hpkey hnone
    exact h.untouched p hp hpkey (fun c hc => hnone c (List.mem_cons_of_mem _ hc))

theorem snapshotOf_new (hrow : canonicalPolygonRow rt none child stem = .ok row)
    (hnew : polygonKey child ∉ (parents ++ done).map polygonKey) :
    SnapshotOf rt stem parents (child :: done) row := by
  obtain ⟨newest, hnewest, hdata, hid⟩ := canonicalPolygonRow_values hrow
  cases hnewest
  have hkey := hdata.key
  have hother : ∀ other ∈ parents ++ done, polygonKey other ≠ polygonKey row := by
    intro other hmem heq
    exact hnew (List.mem_map.mpr ⟨other, hmem, heq.trans hkey⟩)
  refine ⟨⟨child, mem_append_cons.mpr (Or.inl rfl), hkey.symm, hdata, ?_⟩, ?_, ?_, ?_⟩
  · intro other hmem hotherKey
    rcases mem_append_cons.mp hmem with rfl | hmem
    · exact NotNewer.refl _
    · exact absurd hotherKey (hother other hmem)
  · intro p hp hpkey
    exact absurd hpkey (hother p (List.mem_append_left _ hp))
  · intro p hp hpkey
    exact absurd hpkey (hother p (List.mem_append_left _ hp))
  · intro _ id hrowId
    rcases hid with ⟨-, hnone⟩ | ⟨-, value, hvalue, hr⟩
    · rw [hnone] at hrowId
      cases hrowId
    · rw [hr] at hrowId
      cases hrowId
      obtain ⟨osmType, htype, hvalue⟩ := bind_eq_ok.mp hvalue
      obtain ⟨osmId, hosm, hvalue⟩ := bind_eq_ok.mp hvalue
      cases hvalue
      refine ⟨osmType, osmId, ?_, rfl⟩
      rw [hkey]
      cases htype' : child "osm_type" <;> rw [htype'] at htype <;> cases htype
      cases hosm' : child "osm_id" <;> rw [hosm'] at hosm <;> cases hosm
      simp [polygonKey, identity, htype', hosm']

theorem SnapshotOf.meet (h : SnapshotOf rt stem parents done m)
    (hkey : polygonKey m = polygonKey child)
    (hcolumns : (child "polygon_id").isSome = (m "polygon_id").isSome)
    (hrow : canonicalPolygonRow rt (some m) child stem = .ok row) :
    SnapshotOf rt stem parents (child :: done) row := by
  obtain ⟨newest, hnewest, hdata, -⟩ := canonicalPolygonRow_values hrow
  have hid := canonicalPolygonRow_id hrow hcolumns
  obtain ⟨source, hsource, hsame, hsourceData, hsourceNewest⟩ := h.newest
  have hrowKey : polygonKey row = polygonKey m := by
    rw [hdata.key]
    rcases newestRow_mem hnewest with rfl | rfl
    · exact hkey.symm
    · rfl
  -- not newer than the old source, so not newer than the newest
  have hall : ∀ other ∈ parents ++ child :: done, polygonKey other = polygonKey row →
      NotNewer other newest := by
    intro other hmem hother
    rcases mem_append_cons.mp hmem with rfl | hmem
    · exact notNewer_newest hnewest
    · have hold : NotNewer other m := by
        have hle := hsourceNewest other hmem (hother.trans hrowKey)
        unfold NotNewer at hle ⊢
        rwa [hsourceData.extracted]
      exact hold.newest hnewest
  refine ⟨?_, ?_, ?_, ?_⟩
  · rcases newestRow_mem hnewest with rfl | rfl
    · exact ⟨newest, mem_append_cons.mpr (Or.inl rfl), hdata.key.symm, hdata, hall⟩
    · refine ⟨source, mem_append_cons.mpr (Or.inr hsource), hsame.trans hrowKey.symm, ?_, ?_⟩
      · intro c hc
        rw [hdata c hc, hsourceData c hc]
      · intro other hmem hother
        have hle := hall other hmem hother
        unfold NotNewer at hle ⊢
        rwa [← hsourceData.extracted]
  · rintro p hp hpkey -
    rw [hid]
    by_cases hdone : ∃ c ∈ done, polygonKey c = polygonKey m
    · rw [h.touched p hp (hpkey.trans hrowKey) hdone]
      cases p "polygon_id" <;> rfl
    · push Not at hdone
      rw [h.untouched p hp (hpkey.trans hrowKey) hdone]
  · intro p hp hpkey hnone
    exact absurd (hkey.symm.trans hrowKey.symm) (hnone child List.mem_cons_self)
  · intro hnone id hrowId
    rw [hid] at hrowId
    obtain ⟨v, hv, rfl⟩ := Option.map_eq_some_iff.mp hrowId
    obtain ⟨osmType, osmId, hmkey, rfl⟩ :=
      h.minted (fun p hp heq => hnone p hp (heq.trans hrowKey.symm)) v hv
    exact ⟨osmType, osmId, hrowKey.trans hmkey, rfl⟩

variable [DecidableEq X]

variable (hinv : MergeInv columns rows done) (h : PolygonInv rt stem parents done rows)

include hinv h

/-- **One row of a child.** -/
theorem PolygonInv.step (hchild : HasColumns columns child)
    (hstep : mergeChildPolygonRow rt stem rows child = .ok rows') :
    PolygonInv rt stem parents (child :: done) rows' := by
  have hkeysCons : ∀ key, key ∈ (parents ++ child :: done).map polygonKey
      ↔ key = polygonKey child ∨ key ∈ (parents ++ done).map polygonKey := by
    intro key
    simp only [List.map_append, List.map_cons, List.mem_append, List.mem_cons]
    tauto
  obtain ⟨-, ⟨row, hrow, rfl, hnew⟩ | ⟨before, m, after, row, rfl, hm, hrow, rfl⟩⟩ :=
    mergeChildPolygonRow_cases hstep
  · obtain ⟨newest, hnewest, hdata, -⟩ := canonicalPolygonRow_values hrow
    cases hnewest
    refine ⟨?_, ?_⟩
    · intro key
      rw [hkeysCons, List.map_append, List.mem_append, h.keys, List.map_singleton,
        List.mem_singleton, hdata.key]
      exact or_comm
    · intro r hr
      rcases List.mem_append.mp hr with hr | hr
      · refine (h.snapshot r hr).skip (fun heq => hnew ?_)
        exact List.mem_map.mpr ⟨r, hr, heq.symm⟩
      · rw [List.mem_singleton.mp hr]
        exact snapshotOf_new hrow (fun hmem => hnew ((h.keys _).mpr hmem))
  · have hmem : m ∈ before ++ m :: after := by simp
    have hmeet : SnapshotOf rt stem parents (child :: done) row := by
      refine (h.snapshot m hmem).meet hm ?_ hrow
      rw [Bool.eq_iff_iff, hchild "polygon_id", hinv.columns m hmem "polygon_id"]
    obtain ⟨newest, hnewest, hdata, -⟩ := canonicalPolygonRow_values hrow
    have hrowKey : polygonKey row = polygonKey m := by
      rw [hdata.key]
      rcases newestRow_mem hnewest with rfl | rfl
      · exact hm.symm
      · rfl
    refine ⟨?_, ?_⟩
    · intro key
      have hsame : (before ++ row :: after).map polygonKey
          = (before ++ m :: after).map polygonKey := by simp [hrowKey]
      rw [hkeysCons, hsame, h.keys]
      refine ⟨Or.inr, ?_⟩
      rintro (rfl | hkey)
      · exact (h.keys _).mp (List.mem_map.mpr ⟨m, hmem, hm⟩)
      · exact hkey
    · intro r hr
      by_cases heq : r = row
      · rw [heq]
        exact hmeet
      · have hother : r ∈ before ++ after := by
          rcases mem_append_cons.mp hr with hr | hr
          · exact absurd hr heq
          · exact hr
        have hold : r ∈ before ++ m :: after := mem_append_cons.mpr (Or.inr hother)
        refine (h.snapshot r hold).skip (fun hkey => ?_)
        -- a row beside `m` has another identity
        have hnodup := hinv.nodup
        rw [List.map_append, List.map_cons] at hnodup
        have hcount := (List.nodup_middle.mp hnodup)
        rw [List.nodup_cons, ← List.map_append] at hcount
        exact hcount.1 (List.mem_map.mpr ⟨r, hother, hkey.symm.trans hm.symm⟩)

/-- **All rows of the children.** -/
theorem PolygonInv.run {children merged : List (Row X)}
    (hchildren : ∀ child ∈ children, HasColumns columns child)
    (hrun : children.foldlM (mergeChildPolygonRow rt stem) rows = .ok merged) :
    PolygonInv rt stem parents (children.reverse ++ done) merged := by
  induction children generalizing rows done with
  | nil =>
    cases hrun
    exact h
  | cons child children ih =>
    rw [List.foldlM_cons] at hrun
    obtain ⟨rows', hstep, hrun⟩ := bind_eq_ok.mp hrun
    have hcolumns := hchildren child List.mem_cons_self
    have hnext := ih (hinv.step hcolumns hstep) (h.step hinv hcolumns hstep)
      (fun c hc => hchildren c (List.mem_cons_of_mem _ hc)) hrun
    rwa [List.reverse_cons, List.append_assoc]

omit hinv h

omit [DecidableEq X] in
theorem PolygonInv.start (rt : Runtime X C J) (stem : String)
    (hnodup : (parents.map polygonKey).Nodup) : PolygonInv rt stem parents [] parents := by
  have hsame : ∀ row ∈ parents, ∀ other ∈ parents ++ [], polygonKey other = polygonKey row →
      other = row := by
    intro row hrow other hother hkey
    rw [List.append_nil] at hother
    exact List.inj_on_of_nodup_map hnodup hother hrow hkey
  refine ⟨fun key => by rw [List.append_nil], fun row hrow => ⟨?_, ?_, ?_, ?_⟩⟩
  · refine ⟨row, List.mem_append_left _ hrow, rfl, fun _ _ => rfl, ?_⟩
    intro other hother hkey
    rw [hsame row hrow other hother hkey]
    exact NotNewer.refl row
  · rintro p - - ⟨child, hchild, -⟩
    cases hchild
  · intro p hp hkey _
    rw [hsame row hrow p (List.mem_append_left _ hp) hkey]
  · intro hnone
    exact absurd rfl (hnone row hrow)

end

/-! ## Rows taken from the children -/

section

variable [DecidableEq X] {stem : String} {contract : TableContract}
  {polygonRows parents done : List (Row X)} {child row : Row X}
  {acc acc' : List (Row X) × List (List (Value X))}

theorem appendChildRow_cases (h : appendChildRow contract stem polygonRows acc child = .ok acc') :
    acc' = acc ∨ ∃ candidate, candidateRow contract child stem polygonRows = .ok candidate
      ∧ acc'.1 = acc.1 ++ [candidate] := by
  unfold appendChildRow at h
  obtain ⟨key, -, h⟩ := bind_eq_ok.mp h
  split at h
  · cases h
    exact Or.inl rfl
  · obtain ⟨candidate, hcandidate, h⟩ := bind_eq_ok.mp h
    cases h
    exact Or.inr ⟨candidate, hcandidate, rfl⟩

/-- The parent's rows stand first, followed by rows taken from the children. -/
def TakenFrom (contract : TableContract) (stem : String) (polygonRows parents done : List (Row X))
    (rows : List (Row X)) : Prop :=
  ∃ taken, rows = parents ++ taken
    ∧ ∀ row ∈ taken, ∃ child ∈ done, candidateRow contract child stem polygonRows = .ok row

theorem TakenFrom.step (h : TakenFrom contract stem polygonRows parents done acc.1)
    (hstep : appendChildRow contract stem polygonRows acc child = .ok acc') :
    TakenFrom contract stem polygonRows parents (child :: done) acc'.1 := by
  obtain ⟨taken, hrows, htaken⟩ := h
  rcases appendChildRow_cases hstep with rfl | ⟨candidate, hcandidate, hrows'⟩
  · refine ⟨taken, hrows, fun row hrow => ?_⟩
    obtain ⟨c, hc, hrow'⟩ := htaken row hrow
    exact ⟨c, List.mem_cons_of_mem _ hc, hrow'⟩
  · refine ⟨taken ++ [candidate], by rw [hrows', hrows, List.append_assoc], fun row hrow => ?_⟩
    rcases List.mem_append.mp hrow with hrow | hrow
    · obtain ⟨c, hc, hrow'⟩ := htaken row hrow
      exact ⟨c, List.mem_cons_of_mem _ hc, hrow'⟩
    · rw [List.mem_singleton.mp hrow]
      exact ⟨child, List.mem_cons_self, hcandidate⟩

theorem TakenFrom.run {children : List (Row X)}
    (h : TakenFrom contract stem polygonRows parents done acc.1)
    (hrun : children.foldlM (appendChildRow contract stem polygonRows) acc = .ok acc') :
    TakenFrom contract stem polygonRows parents (children.reverse ++ done) acc'.1 := by
  induction children generalizing acc done with
  | nil =>
    cases hrun
    exact h
  | cons child children ih =>
    rw [List.foldlM_cons] at hrun
    obtain ⟨next, hstep, hrun⟩ := bind_eq_ok.mp hrun
    have hnext := ih (h.step hstep) hrun
    rwa [List.reverse_cons, List.append_assoc]

theorem remapLink_polygon (h : remapLink child stem polygonRows = .ok row)
    (hid : (row "polygon_id").isSome = true) :
    ∃ polygon ∈ polygonRows, polygonKey polygon = polygonKey row
      ∧ row "polygon_id" = polygon "polygon_id" := by
  obtain ⟨hcolumns, hother⟩ := remapLink_spec h
  have hkey : polygonKey row = polygonKey child := by
    refine identity_congr (fun c hc => ?_)
    rcases List.mem_pair.mp hc with rfl | rfl
    · exact hother _ (by decide) (by decide) (by decide)
    · exact hother _ (by decide) (by decide) (by decide)
  unfold remapLink at h
  split at h
  · rename_i hnone
    cases h
    rw [Option.isNone_iff_eq_none.mp hnone] at hid
    cases hid
  · obtain ⟨key, hchild, h⟩ := bind_eq_ok.mp h
    obtain ⟨⟨before, polygon, after⟩, hsplit, h⟩ := bind_eq_ok.mp h
    obtain ⟨polygonId, hpolygonId, h⟩ := bind_eq_ok.mp h
    have hchild' := orKeyError_eq_ok.mp hchild
    have hpolygonId' := orKeyError_eq_ok.mp hpolygonId
    cases hs : splitLast (fun r => decide (polygonKey r = some key)) polygonRows with
    | none =>
      rw [hs] at hsplit
      cases hsplit
    | some parts =>
      rw [hs] at hsplit
      cases hsplit
      obtain ⟨hrows, hpolygon⟩ := splitLast_eq_some hs
      refine ⟨polygon, by rw [hrows]; simp, ?_, ?_⟩
      · rw [hkey, hchild']
        simpa using hpolygon
      · rw [hpolygonId']
        cases h
        split <;> split <;> simp [Function.update_of_ne]

end

/-! ## A lossless merge -/

/-- A row of the table of a region. -/
def IsRow (rt : Runtime X C J) (tables : Tables C) (stem : String) (subdir : Subdir)
    (row : Row X) : Prop :=
  ∃ table, readTable rt (tables subdir stem) = .ok table ∧ row ∈ table.rows

/-- A row of the table of one of the children. -/
def ChildRow (rt : Runtime X C J) (tables : Tables C) (children : List String) (subdir : Subdir)
    (row : Row X) : Prop :=
  ∃ child ∈ children, IsRow rt tables child subdir row

/-- **A lossless merge** of the rows of a parent and of its children. -/
structure Lossless (rt : Runtime X C J) (stem : String) (parentRow childRow : Subdir → Row X → Prop)
    (merged : Subdir → Table X) : Prop where
  /-- Every row has an identity. -/
  identified : ∀ contract ∈ tableContracts, ∀ row ∈ (merged contract.subdir).rows,
    (identity contract.identityColumns row).isSome = true
  /-- Every identity occurs once. -/
  once : ∀ contract ∈ tableContracts,
    ((merged contract.subdir).rows.map (identity contract.identityColumns)).Nodup
  /-- The identities are those of the parent and of the children. -/
  union : ∀ contract ∈ tableContracts, ∀ key,
    key ∈ (merged contract.subdir).rows.map (identity contract.identityColumns)
      ↔ ∃ row, (parentRow contract.subdir row ∨ childRow contract.subdir row)
        ∧ identity contract.identityColumns row = key
  /-- Outside the polygons the parent's rows are unchanged. -/
  kept : ∀ subdir, subdir ≠ .polygons → ∀ row, parentRow subdir row → row ∈ (merged subdir).rows
  /-- A polygon is its newest snapshot. -/
  newest : ∀ row ∈ (merged .polygons).rows, ∃ source,
    (parentRow .polygons source ∨ childRow .polygons source)
    ∧ polygonKey source = polygonKey row ∧ SameData row source
    ∧ ∀ other, parentRow .polygons other ∨ childRow .polygons other →
      polygonKey other = polygonKey row → NotNewer other source
  /-- A polygon of the parent keeps its `polygon_id`. -/
  parentId : ∀ row ∈ (merged .polygons).rows, ∀ p, parentRow .polygons p →
    polygonKey p = polygonKey row → row "polygon_id" = p "polygon_id"
  /-- Another one is named after the parent. -/
  mintedId : ∀ row ∈ (merged .polygons).rows,
    (∀ p, parentRow .polygons p → polygonKey p ≠ polygonKey row) →
    ∀ id, row "polygon_id" = some id → MintedId rt stem row id
  /-- A link that was taken from a child points to the merged polygon. -/
  links : ∀ link ∈ (merged .polygonArticles).rows, ¬ parentRow .polygonArticles link →
    ∃ polygon ∈ (merged .polygons).rows, polygonKey polygon = polygonKey link
      ∧ link "polygon_id" = polygon "polygon_id" ∧ (link "polygon_id").isSome = true

/-- The staged files of a parent become its tables. -/
def Store.install (parent : String) (s : Store C J) : Store C J :=
  { s with tables := fun subdir => Function.update (s.tables subdir) parent (s.cache parent subdir) }

section

variable [DecidableEq X] {rt : Runtime X C J} {tables tables' : Tables C} {parent : String}
  {children : List String} {subdir : Subdir} {contract : TableContract} {polygonRows : List (Row X)}
  {files : Subdir → C} {table : Table X} {ids : List (List (Value X))}

/-- The rule is audited and staged again from the installed files, and the same files are
staged. -/
def StagesAgain (rt : Runtime X C J) (rule : ContainmentRule) (s : Store C J) : Prop :=
  ∃ audit s', auditRule rt (s.install rule.parent).tables rule = .ok audit
    ∧ Prog.run (stageRule rt audit) (s.install rule.parent) = (.ok (), s')
    ∧ s'.cache rule.parent = s.cache rule.parent

/-- What staging needs of its input. -/
structure Mergeable (rt : Runtime X C J) (tables : Tables C) (rule : ContainmentRule) : Prop where
  /-- A parent without children has no repeated identity. The audit compares it with nothing. -/
  audited : rule.children = [] → Audited rt tables rule.parent []
  /-- The `polygon_id` of a polygon that a child has too is a string. -/
  textIds : ∀ p child, IsRow rt tables rule.parent .polygons p →
    ChildRow rt tables rule.children .polygons child → polygonKey p = polygonKey child →
    ∀ id, p "polygon_id" = some id → ∃ s, id = .str s
  /-- A child's link that the parent lacks has a `polygon_id`. -/
  linkIds : ∀ link, ChildRow rt tables rule.children .polygonArticles link →
    (link "polygon_id").isSome = true ∨ ∃ p, IsRow rt tables rule.parent .polygonArticles p
      ∧ identity ["osm_type", "osm_id", "article_id"] p
        = identity ["osm_type", "osm_id", "article_id"] link
  /-- A child's polygon that the parent lacks has a time of extraction. -/
  extracted : ∀ child, ChildRow rt tables rule.children .polygons child →
    (∀ p, IsRow rt tables rule.parent .polygons p → polygonKey p ≠ polygonKey child) →
    Comparable (extractedAt child) (extractedAt child)

omit [DecidableEq X] in
theorem isRow_iff {stem : String} (h : readTable rt (tables subdir stem) = .ok table)
    (row : Row X) : IsRow rt tables stem subdir row ↔ row ∈ table.rows := by
  constructor
  · rintro ⟨table', hread, hrow⟩
    rw [h] at hread
    cases hread
    exact hrow
  · exact fun hrow => ⟨table, h, hrow⟩

omit [DecidableEq X] in
theorem mem_readChildren {rows : List (Row X)}
    (h : readChildren rt tables subdir children = .ok rows) (row : Row X) :
    row ∈ rows ↔ ChildRow rt tables children subdir row := by
  unfold ChildRow
  induction children generalizing rows with
  | nil =>
    cases h
    simp
  | cons child children ih =>
    obtain ⟨table, htable, h⟩ := bind_eq_ok.mp h
    obtain ⟨rest, hrest, h⟩ := bind_eq_ok.mp h
    cases h
    rw [List.mem_append, ih hrest, ← isRow_iff htable]
    simp only [List.mem_cons, exists_eq_or_imp]

omit [DecidableEq X] in
theorem childRow_sorted (children : List String) :
    ChildRow rt tables (sorted children) = ChildRow rt tables children := by
  funext subdir row
  simp only [ChildRow, (sorted_perm children).mem_iff]

/-- **The merged polygons** as snapshots of the rows that were read. -/
theorem Staged.polygonInv (h : Staged rt tables parent children polygonRows files)
    (hA : AuditedTable rt tables parent children ⟨.polygons, ["osm_type", "osm_id"]⟩ table ids) :
    ∃ childRows, readChildren rt tables .polygons children = .ok childRows
      ∧ MergeInv table.schema.columns polygonRows childRows.reverse
      ∧ PolygonInv rt parent table.rows childRows.reverse polygonRows
      ∧ ∀ child ∈ childRows, ∀ m ∈ table.rows, polygonKey m = polygonKey child →
        Comparable (extractedAt child) (extractedAt m) := by
  obtain ⟨childRows, hchildren, hcolumns, hfold, hinv⟩ := h.mergeInv hA (by decide) rfl
  have hstart := hA.mergeInv (by decide) rfl
  have hrun := (PolygonInv.start rt parent hstart.nodup).run hstart hcolumns hfold
  rw [List.append_nil] at hrun
  exact ⟨childRows, hchildren, hinv, hrun, hstart.run_comparable hcolumns hfold⟩

theorem Staged.takenFrom (h : Staged rt tables parent children polygonRows files)
    (hA : AuditedTable rt tables parent children contract table ids)
    (hcontract : contract ∈ tableContracts) (hsubdir : contract.subdir ≠ .polygons) :
    ∃ childRows merged, readChildren rt tables contract.subdir children = .ok childRows
      ∧ TakenFrom contract parent polygonRows table.rows childRows.reverse merged.1
      ∧ AppendInv table.schema.columns contract.identityColumns merged childRows.reverse
      ∧ rt.encode (Table.fromPylist merged.1 table.schema) = .ok (files contract.subdir) := by
  obtain ⟨childRows, merged, hchildren, hfold, hinv, hencode⟩ := h.appended hA hcontract hsubdir
  have hstart : TakenFrom contract parent polygonRows table.rows [] (table.rows, ids).1 :=
    ⟨[], (List.append_nil _).symm, by simp⟩
  have hrun := hstart.run hfold
  rw [List.append_nil] at hrun
  exact ⟨childRows, merged, hchildren, hrun, hinv, hencode⟩

omit [DecidableEq X] in
theorem polygonContract_eq (hcontract : contract ∈ tableContracts)
    (hsubdir : contract.subdir = .polygons) : contract = ⟨.polygons, ["osm_type", "osm_id"]⟩ := by
  have hall : ∀ contract ∈ tableContracts, contract.subdir = .polygons →
      contract = ⟨.polygons, ["osm_type", "osm_id"]⟩ := by decide
  exact hall contract hcontract hsubdir

variable {t : Table X}

variable (hrt : RoundTrips rt) (h : Staged rt tables parent children polygonRows files)

include hrt h

theorem Staged.polygons_read (hA : Audited rt tables parent children)
    (ht : readTable rt (some (files .polygons)) = .ok t) : t.rows = polygonRows := by
  obtain ⟨table, ids, hA'⟩ := hA.polygons
  obtain ⟨rows, ids', hback, hrows, -, -, hpolygons, -⟩ := h.merged hrt hA' (by decide)
  rw [ht] at hback
  cases hback
  rw [hrows, hpolygons rfl]

theorem Staged.taken_read (hA : AuditedTable rt tables parent children contract table ids)
    (hcontract : contract ∈ tableContracts) (hsubdir : contract.subdir ≠ .polygons)
    (ht : readTable rt (some (files contract.subdir)) = .ok t) :
    ∃ childRows ids', readChildren rt tables contract.subdir children = .ok childRows
      ∧ TakenFrom contract parent polygonRows table.rows childRows.reverse t.rows
      ∧ AppendInv table.schema.columns contract.identityColumns (t.rows, ids')
        childRows.reverse := by
  obtain ⟨childRows, merged, hchildren, htaken, hinv, hencode⟩ := h.takenFrom hA hcontract hsubdir
  have hback : readTable rt (some (files contract.subdir))
      = .ok (Table.fromPylist merged.1 table.schema) := mapError_eq_ok.mpr (hrt _ _ hencode)
  rw [ht] at hback
  cases hback
  have hrows := fromPylist_rows hinv.columns
  refine ⟨childRows, merged.2, hchildren, ?_, ?_⟩
  · rw [hrows]
    exact htaken
  · rw [hrows]
    exact hinv

variable (hA : Audited rt tables parent children)

include hA

/-- **The identities of a staged table** are those of the parent and of the children, each once. -/
theorem Staged.identities (hcontract : contract ∈ tableContracts)
    (ht : readTable rt (some (files contract.subdir)) = .ok t) :
    (∀ row ∈ t.rows, (identity contract.identityColumns row).isSome = true)
      ∧ (t.rows.map (identity contract.identityColumns)).Nodup
      ∧ ∀ key, key ∈ t.rows.map (identity contract.identityColumns)
        ↔ ∃ row, (IsRow rt tables parent contract.subdir row
            ∨ ChildRow rt tables children contract.subdir row)
          ∧ identity contract.identityColumns row = key := by
  obtain ⟨table, ids, hA'⟩ := hA contract hcontract
  obtain ⟨rows, ids', hback, hrows, hids, hnodup, -, -⟩ := h.merged hrt hA' hcontract
  have hsame : t.rows = rows := by
    rw [ht] at hback
    cases hback
    exact hrows
  rw [← hsame, mapM_eq_some_iff] at hids
  refine ⟨?_, ?_, ?_⟩
  · intro row hrow
    have hmem : identity contract.identityColumns row ∈ ids'.map some :=
      hids ▸ List.mem_map_of_mem hrow
    obtain ⟨key, -, hkey⟩ := List.mem_map.mp hmem
    rw [← hkey]
    rfl
  · rw [hids]
    exact hnodup.map (Option.some_injective _)
  · intro key
    by_cases hsubdir : contract.subdir = .polygons
    · obtain rfl := polygonContract_eq hcontract hsubdir
      obtain ⟨childRows, hchildren, -, hinv, -⟩ := h.polygonInv hA'
      rw [h.polygons_read hrt hA ht]
      refine (hinv.keys key).trans ?_
      rw [List.mem_map]
      refine exists_congr (fun row => and_congr_left (fun _ => ?_))
      rw [List.mem_append, List.mem_reverse, isRow_iff hA'.read, mem_readChildren hchildren]
    · obtain ⟨childRows, ids'', hchildren, ⟨taken, htaken, hfrom⟩, hinv⟩ :=
        h.taken_read hrt hA' hcontract hsubdir ht
      constructor
      · intro hkey
        obtain ⟨row, hrow, rfl⟩ := List.mem_map.mp hkey
        rw [htaken] at hrow
        rcases List.mem_append.mp hrow with hrow | hrow
        · exact ⟨row, Or.inl ((isRow_iff hA'.read row).mpr hrow), rfl⟩
        · obtain ⟨child, hchild, hcandidate⟩ := hfrom row hrow
          refine ⟨child, Or.inr ?_, (candidateRow_spec hcontract hcandidate).1.symm⟩
          exact (mem_readChildren hchildren child).mp (List.mem_reverse.mp hchild)
      · rintro ⟨row, hrow | hrow, rfl⟩
        · refine List.mem_map_of_mem ?_
          rw [htaken]
          exact List.mem_append_left _ ((isRow_iff hA'.read row).mp hrow)
        · have hdone : row ∈ childRows.reverse :=
            List.mem_reverse.mpr ((mem_readChildren hchildren row).mpr hrow)
          obtain ⟨key, hkey, hrowKey⟩ := hinv.seen row hdone
          have hall : t.rows.map (identity contract.identityColumns) = ids''.map some :=
            mapM_eq_some_iff.mp hinv.identities
          rw [hall, hrowKey]
          exact List.mem_map_of_mem hkey

theorem Staged.links (ht : readTable rt (some (files .polygonArticles)) = .ok t) :
    (∀ link ∈ t.rows, ¬ IsRow rt tables parent .polygonArticles link →
      ∃ child, ChildRow rt tables children .polygonArticles child
        ∧ remapLink child parent polygonRows = .ok link) := by
  obtain ⟨table, ids, hA'⟩ := hA ⟨.polygonArticles, ["osm_type", "osm_id", "article_id"]⟩
    (by decide)
  obtain ⟨childRows, ids', hchildren, ⟨taken, htaken, hfrom⟩, -⟩ :=
    h.taken_read hrt hA' (by decide) (by decide) ht
  intro link hlink hnew
  rw [htaken] at hlink
  rcases List.mem_append.mp hlink with hlink | hlink
  · exact absurd ((isRow_iff hA'.read link).mpr hlink) hnew
  · obtain ⟨child, hchild, hcandidate⟩ := hfrom link hlink
    refine ⟨child, (mem_readChildren hchildren child).mp (List.mem_reverse.mp hchild), ?_⟩
    exact hcandidate

/-- **Staging is lossless**, for polygons and links that have what the merge needs. -/
theorem Staged.lossless {merged : Subdir → Table X}
    (hmerged : ∀ subdir, readTable rt (some (files subdir)) = .ok (merged subdir))
    (htext : ∀ p child, IsRow rt tables parent .polygons p →
      ChildRow rt tables children .polygons child → polygonKey p = polygonKey child →
      ∀ id, p "polygon_id" = some id → ∃ s, id = .str s)
    (hlinks : ∀ link, ChildRow rt tables children .polygonArticles link →
      (link "polygon_id").isSome = true ∨ ∃ p, IsRow rt tables parent .polygonArticles p
        ∧ identity ["osm_type", "osm_id", "article_id"] p
          = identity ["osm_type", "osm_id", "article_id"] link) :
    Lossless rt parent (IsRow rt tables parent) (ChildRow rt tables children) merged := by
  obtain ⟨table, ids, hA'⟩ := hA.polygons
  obtain ⟨childRows, hchildren, -, hinv, -⟩ := h.polygonInv hA'
  have hpolygons := h.polygons_read hrt hA (hmerged .polygons)
  have hread : readTable rt (tables .polygons parent) = .ok table := hA'.read
  have hsource : ∀ row, row ∈ table.rows ++ childRows.reverse
      ↔ IsRow rt tables parent .polygons row ∨ ChildRow rt tables children .polygons row := by
    intro row
    rw [List.mem_append, List.mem_reverse, isRow_iff hread, mem_readChildren hchildren]
  refine ⟨?_, ?_, ?_, ?_, ?_, ?_, ?_, ?_⟩
  · exact fun contract hcontract => (h.identities hrt hA hcontract (hmerged _)).1
  · exact fun contract hcontract => (h.identities hrt hA hcontract (hmerged _)).2.1
  · exact fun contract hcontract => (h.identities hrt hA hcontract (hmerged _)).2.2
  · intro subdir hsubdir row hrow
    obtain ⟨contract, hcontract, rfl⟩ := subdir.mem_contracts
    obtain ⟨table', ids', hA''⟩ := hA contract hcontract
    obtain ⟨-, -, -, ⟨taken, htaken, -⟩, -⟩ := h.taken_read hrt hA'' hcontract hsubdir (hmerged _)
    rw [htaken]
    exact List.mem_append_left _ ((isRow_iff hA''.read row).mp hrow)
  · intro row hrow
    rw [hpolygons] at hrow
    obtain ⟨source, hmem, hkey, hdata, hnewest⟩ := (hinv.snapshot row hrow).newest
    refine ⟨source, (hsource source).mp hmem, hkey, hdata, ?_⟩
    exact fun other hother => hnewest other ((hsource other).mpr hother)
  · intro row hrow p hp hkey
    rw [hpolygons] at hrow
    have hsnapshot := hinv.snapshot row hrow
    have hmem := (isRow_iff hread p).mp hp
    by_cases htouched : ∃ child ∈ childRows.reverse, polygonKey child = polygonKey row
    · rw [hsnapshot.touched p hmem hkey htouched]
      obtain ⟨child, hchild, hck⟩ := htouched
      have hchild' := (mem_readChildren hchildren child).mp (List.mem_reverse.mp hchild)
      -- as a string, a string is itself
      cases hid : p "polygon_id" with
      | none => rfl
      | some id =>
        obtain ⟨s, rfl⟩ := htext p child hp hchild' (hkey.trans hck.symm) id hid
        rfl
    · push Not at htouched
      exact hsnapshot.untouched p hmem hkey htouched
  · intro row hrow hnone
    rw [hpolygons] at hrow
    refine (hinv.snapshot row hrow).minted (fun p hp => hnone p ?_)
    exact (isRow_iff hread p).mpr hp
  · intro link hlink hnew
    obtain ⟨child, hchild, hremap⟩ := h.links hrt hA (hmerged .polygonArticles) link hlink hnew
    have hlinkId : (link "polygon_id").isSome = true := by
      rw [(remapLink_spec hremap).1]
      refine (hlinks child hchild).resolve_right ?_
      rintro ⟨p, hp, hsame⟩
      -- the parent's link would stand beside this one with the same identity
      obtain ⟨table', ids', hA''⟩ := hA ⟨.polygonArticles, ["osm_type", "osm_id", "article_id"]⟩
        (by decide)
      obtain ⟨-, -, -, ⟨taken, htaken, -⟩, -⟩ :=
        h.taken_read hrt hA'' (by decide) (by decide) (hmerged .polygonArticles)
      have hp' : p ∈ (merged .polygonArticles).rows := by
        rw [htaken]
        exact List.mem_append_left _ ((isRow_iff hA''.read p).mp hp)
      have honce := (h.identities hrt hA
        (by decide : (⟨.polygonArticles, ["osm_type", "osm_id", "article_id"]⟩ : TableContract)
          ∈ tableContracts) (hmerged .polygonArticles)).2.1
      have hidentity := (candidateRow_spec
        (by decide : (⟨.polygonArticles, ["osm_type", "osm_id", "article_id"]⟩ : TableContract)
          ∈ tableContracts) (show candidateRow _ child parent polygonRows = .ok link from hremap)).1
      have heq : p = link := List.inj_on_of_nodup_map honce hp' hlink (hsame.trans hidentity.symm)
      exact hnew (heq ▸ hp)
    obtain ⟨polygon, hpolygon, hkey, hid⟩ := remapLink_polygon hremap hlinkId
    exact ⟨polygon, by rw [hpolygons]; exact hpolygon, hkey, hid, hlinkId⟩

omit hrt h hA

/-! ## Staging from the installed files -/

/-- The snapshots of the children can be compared with the merged polygons. -/
def ChildrenComparable (rt : Runtime X C J) (tables : Tables C) (children : List String)
    (polygonRows : List (Row X)) : Prop :=
  ∀ child, ChildRow rt tables children .polygons child → ∀ m ∈ polygonRows,
    polygonKey m = polygonKey child → Comparable (extractedAt child) (extractedAt m)

/-- The parent's tables have been replaced by the staged ones. A parent may stand among its
children. -/
structure Installed (tables tables' : Tables C) (parent : String) (children : List String)
    (files : Subdir → C) : Prop where
  parentFile : ∀ subdir, tables' subdir parent = some (files subdir)
  childFile : ∀ subdir, ∀ child ∈ children, child ≠ parent →
    tables' subdir child = tables subdir child

variable (hI : Installed tables tables' parent children files)

include hI

omit [DecidableEq X] in
theorem Installed.childRow (ht : readTable rt (some (files subdir)) = .ok t) {row : Row X}
    (h : ChildRow rt tables' children subdir row) :
    ChildRow rt tables children subdir row ∨ (parent ∈ children ∧ row ∈ t.rows) := by
  obtain ⟨child, hchild, table, hread, hrow⟩ := h
  by_cases heq : child = parent
  · subst heq
    rw [hI.parentFile, ht] at hread
    cases hread
    exact Or.inr ⟨hchild, hrow⟩
  · rw [hI.childFile subdir child hchild heq] at hread
    exact Or.inl ⟨child, hchild, table, hread, hrow⟩

include hrt h hA

theorem Installed.audited : Audited rt tables' parent children := by
  intro contract hcontract
  obtain ⟨table, ids, hA'⟩ := hA contract hcontract
  obtain ⟨rows, ids', hback, hrows, hids, hnodup, -⟩ := h.merged hrt hA' hcontract
  have hread : readTable rt (tables' contract.subdir parent)
      = .ok (Table.fromPylist rows table.schema) := by
    rw [hI.parentFile]
    exact hback
  have hids' : (Table.fromPylist rows table.schema).rows.mapM (identity contract.identityColumns)
      = some ids' := by
    rw [hrows]
    exact hids
  refine ⟨Table.fromPylist rows table.schema, ids', hread, hids', hnodup, ?_⟩
  intro child hchild
  by_cases heq : child = parent
  · subst heq
    exact ⟨_, ids', hread, rfl, hids', hnodup⟩
  · rw [hI.childFile contract.subdir child hchild heq]
    exact hA'.children child hchild

theorem Installed.mergeInv {childRows' : List (Row X)}
    (hchildren' : readChildren rt tables' .polygons children = .ok childRows') :
    ∃ columns, MergeInv columns polygonRows childRows' := by
  obtain ⟨table, ids, hA'⟩ := hA.polygons
  obtain ⟨childRows, hchildren, hinv, hpolygon, -⟩ := h.polygonInv hA'
  refine ⟨table.schema.columns, hinv.total, hinv.nodup, hinv.columns, ?_⟩
  intro row hrow
  obtain ⟨rows, -, hback, -⟩ := h.merged hrt hA' (by decide)
  have hread : readTable rt (some (files .polygons)) = .ok (Table.fromPylist rows table.schema) :=
    hback
  rcases hI.childRow hread ((mem_readChildren hchildren' row).mp hrow) with hold | ⟨hmem, hrow'⟩
  · refine hinv.absorbed row (List.mem_reverse.mpr ?_)
    exact (mem_readChildren hchildren row).mpr hold
  · -- the parent's own rows were merged into it, so the row is canonical
    rw [h.polygons_read hrt hA hread] at hrow'
    have hkey := (hpolygon.keys (polygonKey row)).mp (List.mem_map_of_mem hrow')
    obtain ⟨source, hsource, hsourceKey⟩ := List.mem_map.mp hkey
    have hdone : source ∈ childRows.reverse := by
      rcases List.mem_append.mp hsource with hsource | hsource
      · refine List.mem_reverse.mpr ((mem_readChildren hchildren source).mpr ?_)
        exact ⟨parent, hmem, table, hA'.read, hsource⟩
      · exact hsource
    obtain ⟨m, hm, habsorbed⟩ := hinv.absorbed source hdone
    have heq : m = row :=
      List.inj_on_of_nodup_map hinv.nodup hm hrow' (habsorbed.key.trans hsourceKey)
    subst heq
    exact ⟨m, hrow', rfl, habsorbed.canonical, greater_self _⟩

theorem Installed.stage_other (hcontract : contract ∈ tableContracts)
    (hsubdir : contract.subdir ≠ .polygons) :
    stageContractArtifact rt tables' parent children contract polygonRows
      = .ok (files contract.subdir) := by
  obtain ⟨table, ids, hA'⟩ := hA contract hcontract
  obtain ⟨childRows, merged, hchildren, -, hinv, hencode⟩ := h.takenFrom hA' hcontract hsubdir
  have hrows := fromPylist_rows hinv.columns
  have hback : readTable rt (some (files contract.subdir))
      = .ok (Table.fromPylist merged.1 table.schema) := mapError_eq_ok.mpr (hrt _ _ hencode)
  obtain ⟨table', ids', hA''⟩ := hI.audited hrt h hA contract hcontract
  obtain ⟨childRows', hchildren', -⟩ := hA''.readChildren
  have hread : readTable rt (tables' contract.subdir parent)
      = .ok (Table.fromPylist merged.1 table.schema) := by
    rw [hI.parentFile]
    exact hback
  have hids : (Table.fromPylist merged.1 table.schema).rows.mapM
      (identity contract.identityColumns) = some merged.2 := by
    rw [hrows]
    exact hinv.identities
  -- every row of the children has been seen
  have hinv' : AppendInv table.schema.columns contract.identityColumns merged childRows' := by
    refine ⟨hinv.identities, hinv.nodup, hinv.columns, ?_⟩
    intro row hrow
    rcases hI.childRow hback ((mem_readChildren hchildren' row).mp hrow) with hold | ⟨-, hrow'⟩
    · exact hinv.seen row (List.mem_reverse.mpr ((mem_readChildren hchildren row).mpr hold))
    · rw [hrows] at hrow'
      have hmem : identity contract.identityColumns row ∈ merged.2.map some := by
        rw [← mapM_eq_some_iff.mp hinv.identities]
        exact List.mem_map_of_mem hrow'
      obtain ⟨key, hkey, hrowKey⟩ := List.mem_map.mp hmem
      exact ⟨key, hkey, hrowKey.symm⟩
  have hfold : childRows'.foldlM (appendChildRow contract parent polygonRows) (merged.1, merged.2)
      = .ok merged := hinv'.again (fun child hchild => hchild)
  have hrows' : mergedContractRows rt tables' parent children contract polygonRows
      = .ok (merged.1, table.schema) := by
    rw [mergedContractRows_eq hsubdir hread hids hchildren', hrows, hfold]
    rfl
  unfold stageContractArtifact
  rw [hrows']
  exact mapError_eq_ok.mpr hencode

/-- **Merging into the installed polygons** gives them again, if the children's can be compared with
them, and raises otherwise. -/
theorem Installed.merge_again :
    (ChildrenComparable rt tables' children polygonRows →
      mergePolygonRows rt tables' parent children = .ok polygonRows)
    ∧ (¬ ChildrenComparable rt tables' children polygonRows →
      mergePolygonRows rt tables' parent children = .error .typeError) := by
  obtain ⟨table, ids, hA'⟩ := hA.polygons
  obtain ⟨rows, ids', hback, hrows, hids, -, hpolygons, -⟩ := h.merged hrt hA' (by decide)
  rw [hpolygons rfl] at hback hrows hids
  have hread : readTable rt (tables' .polygons parent)
      = .ok (Table.fromPylist polygonRows table.schema) := by
    rw [hI.parentFile]
    exact hback
  have hkeys : (Table.fromPylist polygonRows table.schema).rows.mapM polygonKey = some ids' := by
    rw [hrows]
    exact hids
  obtain ⟨table', ids'', hA''⟩ := (hI.audited hrt h hA).polygons
  obtain ⟨childRows', hchildren', -⟩ := hA''.readChildren
  have hmerge := mergePolygonRows_eq hread hkeys hchildren'
  rw [hrows] at hmerge
  obtain ⟨columns, hinv⟩ := hI.mergeInv hrt h hA hchildren'
  rw [hmerge]
  simp only [ChildrenComparable, ← mem_readChildren hchildren']
  exact hinv.again rt parent (fun child hchild => hchild)

/-- **Staging from the installed files.** -/
theorem Installed.staged (hall : ChildrenComparable rt tables' children polygonRows) :
    Staged rt tables' parent children polygonRows files := by
  refine ⟨(hI.merge_again hrt h hA).1 hall, ?_⟩
  intro contract hcontract
  by_cases hsubdir : contract.subdir = .polygons
  · obtain rfl := polygonContract_eq hcontract hsubdir
    obtain ⟨table, ids, hA'⟩ := hA.polygons
    obtain ⟨rows, -, hback, -⟩ := h.merged hrt hA' (by decide)
    have hread : readTable rt (tables' .polygons parent)
        = .ok (Table.fromPylist rows table.schema) := by
      rw [hI.parentFile]
      exact hback
    have hencode : rt.encode (Table.fromPylist polygonRows table.schema) = .ok (files .polygons) :=
      h.encoded hA'.read hcontract rfl
    unfold stageContractArtifact
    rw [mergedContractRows_polygons rfl hread]
    exact mapError_eq_ok.mpr hencode
  · exact hI.stage_other hrt h hA hcontract hsubdir

/-- The snapshots that are merged again can be compared, if those that the parent lacked have a time
of extraction. -/
theorem Installed.comparable (hextracted : ∀ child, ChildRow rt tables children .polygons child →
      (∀ p, IsRow rt tables parent .polygons p → polygonKey p ≠ polygonKey child) →
      Comparable (extractedAt child) (extractedAt child)) :
    ChildrenComparable rt tables' children polygonRows := by
  obtain ⟨table, ids, hA'⟩ := hA.polygons
  obtain ⟨childRows, hchildren, hinv, hpolygon, hcompared⟩ := h.polygonInv hA'
  have hread : readTable rt (tables .polygons parent) = .ok table := hA'.read
  -- a child's row can be compared with itself, and so with the newest snapshot
  have hold : ChildrenComparable rt tables children polygonRows := by
    intro child hchild m hm hkey
    have hmem := (mem_readChildren hchildren child).mpr hchild
    have hself : Comparable (extractedAt child) (extractedAt child) := by
      by_cases hp : ∃ p, IsRow rt tables parent .polygons p ∧ polygonKey p = polygonKey child
      · obtain ⟨p, hp, hpkey⟩ := hp
        exact (hcompared child hmem p ((isRow_iff hread p).mp hp) hpkey).self
      · push Not at hp
        exact hextracted child hchild hp
    obtain ⟨source, -, -, hdata, hnewest⟩ := (hpolygon.snapshot m hm).newest
    rw [hdata.extracted]
    refine (hnewest child ?_ hkey.symm).comparable hself
    exact List.mem_append_right _ (List.mem_reverse.mpr hmem)
  intro child hchild m hm hkey
  obtain ⟨rows, -, hback, -⟩ := h.merged hrt hA' (by decide)
  have hback' : readTable rt (some (files .polygons)) = .ok (Table.fromPylist rows table.schema) :=
    hback
  rcases hI.childRow hback' hchild with hchild | ⟨hmem, hrow⟩
  · exact hold child hchild m hm hkey
  · -- the parent stands among its children, and a merged polygon meets itself
    rw [h.polygons_read hrt hA hback'] at hrow
    have heq : m = child := List.inj_on_of_nodup_map hinv.nodup hm hrow hkey
    subst heq
    have hkeys := (hpolygon.keys (polygonKey m)).mp (List.mem_map_of_mem hm)
    obtain ⟨source, hsource, hsourceKey⟩ := List.mem_map.mp hkeys
    have hsource' : ChildRow rt tables children .polygons source := by
      rcases List.mem_append.mp hsource with hsource | hsource
      · exact ⟨parent, hmem, table, hread, hsource⟩
      · exact (mem_readChildren hchildren source).mp (List.mem_reverse.mp hsource)
    exact (hold source hsource' m hm hsourceKey.symm).right

/-- A child's polygon that the parent lacked has a time of extraction, if staging from the installed
files succeeds. -/
theorem Installed.extracted_of_staged {polygonRows' : List (Row X)} {files' : Subdir → C}
    (h' : Staged rt tables' parent children polygonRows' files') {row : Row X}
    (hrow : ChildRow rt tables children .polygons row)
    (hlacks : ∀ p, IsRow rt tables parent .polygons p → polygonKey p ≠ polygonKey row) :
    Comparable (extractedAt row) (extractedAt row) := by
  have hall : ChildrenComparable rt tables' children polygonRows := by
    by_contra hnot
    have hmerge := h'.polygons
    rw [(hI.merge_again hrt h hA).2 hnot] at hmerge
    cases hmerge
  -- the child is not the parent, so its table is as before
  have hrow' : ChildRow rt tables' children .polygons row := by
    obtain ⟨child, hchild, table, hread, hmem⟩ := hrow
    have hne : child ≠ parent := by
      rintro rfl
      exact hlacks row ⟨table, hread, hmem⟩ rfl
    refine ⟨child, hchild, table, ?_, hmem⟩
    rw [hI.childFile .polygons child hchild hne]
    exact hread
  obtain ⟨table, ids, hA'⟩ := hA.polygons
  obtain ⟨childRows, hchildren, -, hpolygon, -⟩ := h.polygonInv hA'
  have hkey : polygonKey row ∈ polygonRows.map polygonKey := by
    refine (hpolygon.keys _).mpr (List.mem_map_of_mem (List.mem_append_right _ ?_))
    exact List.mem_reverse.mpr ((mem_readChildren hchildren row).mpr hrow)
  obtain ⟨m, hm, hmkey⟩ := List.mem_map.mp hkey
  exact (hall row hrow' m hm hmkey).self

omit hI

theorem Staged.linkId_of_links (ht : readTable rt (some (files .polygonArticles)) = .ok t)
    (hlinks : ∀ link ∈ t.rows, ¬ IsRow rt tables parent .polygonArticles link →
      (link "polygon_id").isSome = true) {link : Row X}
    (hlink : ChildRow rt tables children .polygonArticles link)
    (hlacks : ∀ p, IsRow rt tables parent .polygonArticles p →
      identity ["osm_type", "osm_id", "article_id"] p
        ≠ identity ["osm_type", "osm_id", "article_id"] link) :
    (link "polygon_id").isSome = true := by
  let contract : TableContract := ⟨.polygonArticles, ["osm_type", "osm_id", "article_id"]⟩
  have hcontract : contract ∈ tableContracts := by decide
  obtain ⟨table, ids, hA'⟩ := hA contract hcontract
  obtain ⟨childRows, hchildren, hcolumns⟩ := hA'.readChildren
  obtain ⟨_, _, _, _, hinv⟩ := h.taken_read hrt hA' hcontract (by decide) ht
  have hkey := ((h.identities hrt hA hcontract ht).2.2 _).mpr ⟨link, Or.inr hlink, rfl⟩
  obtain ⟨row, hrow, hrowKey⟩ := List.mem_map.mp hkey
  have hid := hlinks row hrow (fun hp => hlacks row hp hrowKey)
  -- both rows have the columns of the table
  rw [hinv.columns row hrow "polygon_id"] at hid
  exact (hcolumns link ((mem_readChildren hchildren link).mpr hlink) "polygon_id").mpr hid

omit hrt h hA

/-! ## The rule -/

theorem Staged.nil (hrt : RoundTrips rt) (h : Staged rt tables parent [] polygonRows files)
    (hcontract : contract ∈ tableContracts) :
    ∃ table ids merged, readTable rt (tables contract.subdir parent) = .ok table
      ∧ table.rows.mapM (identity contract.identityColumns) = some ids
      ∧ readTable rt (some (files contract.subdir)) = .ok merged ∧ merged.rows = table.rows := by
  have hfile := h.files contract hcontract
  unfold stageContractArtifact at hfile
  obtain ⟨⟨rows, schema⟩, hrows, hencode⟩ := bind_eq_ok.mp hfile
  have hback : readTable rt (some (files contract.subdir)) = .ok (Table.fromPylist rows schema) :=
    mapError_eq_ok.mpr (hrt _ _ (mapError_eq_ok.mp hencode))
  obtain ⟨table, hread, hrows⟩ := bind_eq_ok.mp hrows
  -- nothing is appended
  have hsame : ∃ ids, table.rows.mapM (identity contract.identityColumns) = some ids
      ∧ rows = table.rows ∧ schema = table.schema := by
    split at hrows
    · rename_i hsubdir
      cases hrows
      obtain rfl := polygonContract_eq hcontract hsubdir
      obtain ⟨table', hread', hpolygons⟩ := bind_eq_ok.mp h.polygons
      have hread'' : readTable rt (tables .polygons parent) = .ok table := hread
      rw [hread'] at hread''
      cases hread''
      obtain ⟨ids, hids, hpolygons⟩ := bind_eq_ok.mp hpolygons
      cases hpolygons
      exact ⟨ids, orKeyError_eq_ok.mp hids, rfl, rfl⟩
    · obtain ⟨seen, hseen, hrows⟩ := bind_eq_ok.mp hrows
      cases hrows
      exact ⟨seen, orKeyError_eq_ok.mp hseen, rfl, rfl⟩
  obtain ⟨ids, hids, rfl, rfl⟩ := hsame
  exact ⟨table, ids, _, hread, hids, hback, fromPylist_rows table.columns_iff⟩

theorem Staged.audited_nil (hrt : RoundTrips rt)
    (h : Staged rt tables parent [] polygonRows files) {merged : Subdir → Table X}
    (hmerged : ∀ subdir, readTable rt (some (files subdir)) = .ok (merged subdir))
    (honce : ∀ contract ∈ tableContracts,
      ((merged contract.subdir).rows.map (identity contract.identityColumns)).Nodup) :
    Audited rt tables parent [] := by
  intro contract hcontract
  obtain ⟨table, ids, t, hread, hids, hback, hrows⟩ := h.nil hrt hcontract
  refine ⟨table, ids, hread, hids, ?_, by simp⟩
  have hnodup := honce contract hcontract
  rw [hmerged contract.subdir] at hback
  rw [Except.ok.inj hback, hrows, mapM_eq_some_iff.mp hids] at hnodup
  exact hnodup.of_map

variable {rule : ContainmentRule} {audit : RuleAudit}

theorem auditRule_again (h : auditRule rt tables rule = .ok audit) (tables' : Tables C) :
    ∃ audit', auditRule rt tables' rule = .ok audit' := by
  unfold auditRule at h ⊢
  obtain ⟨parent, hparent, h⟩ := bind_eq_ok.mp h
  obtain ⟨children, hsorted, h⟩ := bind_eq_ok.mp h
  simp only [hparent, hsorted, bind, Except.bind, pure, Except.pure]
  exact ⟨_, rfl⟩

theorem safeToStage_of_audited (h : auditRule rt tables rule = .ok audit)
    (hA : Audited rt tables rule.parent (sorted rule.children)) : audit.safeToStage = true := by
  by_cases hchildren : rule.children = []
  · obtain ⟨-, -, -, hblockers⟩ := auditRule_stems h
    rw [RuleAudit.safeToStage, hblockers, hchildren]
    rfl
  · exact (auditRule_spec h hchildren).2.2.mpr hA

theorem stageRule_staged {s s' : Store C J} (haudit : auditRule rt s.tables rule = .ok audit)
    (hrun : Prog.run (stageRule rt audit) s = (.ok (), s')) :
    s'.tables = s.tables ∧ ∃ polygonRows files,
      Staged rt s.tables rule.parent (sorted rule.children) polygonRows files
      ∧ s'.cache rule.parent = fun subdir => some (files subdir) := by
  obtain ⟨hparent, hstems, hvalid, -⟩ := auditRule_stems haudit
  have hsafe : audit.safeToStage = true := by
    by_contra hunsafe
    unfold stageRule at hrun
    rw [if_neg hunsafe] at hrun
    cases hrun
  have hstep : Prog.wp (stageRule rt audit) _ _ _ s := stageRule_wp hsafe hvalid s
  have hwp := Prog.wp_run hstep
  rw [hrun] at hwp
  obtain ⟨hactive, polygonRows, files, hstaged, hcache⟩ := hwp
  rw [hparent, hstems] at hstaged
  rw [hparent] at hcache
  exact ⟨congrArg Active.tables hactive, polygonRows, files, hstaged, hcache⟩

theorem stageRule_returns {s : Store C J}
    (haudit : auditRule rt s.tables rule = .ok audit) (hsafe : audit.safeToStage = true)
    (hstaged : Staged rt s.tables rule.parent (sorted rule.children) polygonRows files) :
    ∃ s', Prog.run (stageRule rt audit) s = (.ok (), s')
      ∧ s'.cache rule.parent = fun subdir => some (files subdir) := by
  obtain ⟨hparent, hstems, hvalid, -⟩ := auditRule_stems haudit
  have hstep : Prog.wp (stageRule rt audit) _ _ _ s := stageRule_wp hsafe hvalid s
  have hwp := Prog.wp_run hstep
  rcases hrun : Prog.run (stageRule rt audit) s with ⟨_ | _, s'⟩
  · rw [hrun] at hwp
    obtain ⟨-, hnot⟩ := hwp
    rw [hparent, hstems] at hnot
    exact absurd hstaged (hnot polygonRows files)
  · obtain ⟨-, polygonRows', files', hstaged', hcache⟩ := stageRule_staged haudit hrun
    obtain ⟨-, rfl⟩ := hstaged.unique hstaged'
    exact ⟨s', rfl, hcache⟩

omit [DecidableEq X] in
theorem Store.install_installed {s : Store C J} (hcache : s.cache parent = fun subdir =>
    some (files subdir)) : Installed s.tables (s.install parent).tables parent children files := by
  refine ⟨?_, ?_⟩
  · intro subdir
    show Function.update (s.tables subdir) parent (s.cache parent subdir) parent = _
    rw [Function.update_self, hcache]
  · intro subdir child _ hne
    exact Function.update_of_ne hne _ _

/-- **Staging is lossless, free of duplicates and stable** exactly for input that has what the merge
needs. -/
theorem staging_lossless_iff (hrt : RoundTrips rt)
    {s s' : Store C J} (haudit : auditRule rt s.tables rule = .ok audit)
    (hsafe : audit.safeToStage = true)
    (hstage : Prog.run (stageRule rt audit) s = (.ok (), s')) :
    ((∃ merged, (∀ subdir, readTable rt (s'.cache rule.parent subdir) = .ok (merged subdir))
        ∧ Lossless rt rule.parent (IsRow rt s.tables rule.parent)
          (ChildRow rt s.tables rule.children) merged)
      ∧ StagesAgain rt rule s')
    ↔ Mergeable rt s.tables rule := by
  obtain ⟨htables, polygonRows, files, hstaged, hcache⟩ := stageRule_staged haudit hstage
  have hI : Installed s.tables (s'.install rule.parent).tables rule.parent (sorted rule.children)
      files := by
    rw [← htables]
    exact Store.install_installed hcache
  have hchildRow : ChildRow rt s.tables (sorted rule.children)
      = ChildRow rt s.tables rule.children := childRow_sorted rule.children
  constructor
  · rintro ⟨⟨merged, hmerged, hlossless⟩, audit', s'', haudit', hrun, hcache'⟩
    rw [hcache] at hmerged
    have hA : Audited rt s.tables rule.parent (sorted rule.children) := by
      by_cases hchildren : rule.children = []
      · rw [hchildren] at hstaged ⊢
        exact hstaged.audited_nil hrt hmerged hlossless.once
      · exact (auditRule_spec haudit hchildren).2.2.mp hsafe
    obtain ⟨table, ids, hA'⟩ := hA.polygons
    obtain ⟨childRows, hchildren, hinv, hpolygon, -⟩ := hstaged.polygonInv hA'
    have hread : readTable rt (s.tables .polygons rule.parent) = .ok table := hA'.read
    have hpolygons := hstaged.polygons_read hrt hA (hmerged .polygons)
    refine ⟨?_, ?_, ?_, ?_⟩
    · intro hnil
      rw [hnil] at hA
      exact hA
    · intro p child hp hchild hkey id hid
      rw [← hchildRow] at hchild
      have hchild' := (mem_readChildren hchildren child).mpr hchild
      have hmem : polygonKey p ∈ polygonRows.map polygonKey := by
        refine (hpolygon.keys _).mpr (List.mem_map_of_mem (List.mem_append_left _ ?_))
        exact (isRow_iff hread p).mp hp
      obtain ⟨row, hrow, hrowKey⟩ := List.mem_map.mp hmem
      have hkept := hlossless.parentId row (by rw [hpolygons]; exact hrow) p hp hrowKey.symm
      have htouched := (hpolygon.snapshot row hrow).touched p ((isRow_iff hread p).mp hp)
        hrowKey.symm ⟨child, List.mem_reverse.mpr hchild', (hrowKey.trans hkey).symm⟩
      rw [hkept, hid] at htouched
      exact ⟨_, Option.some.inj htouched⟩
    · intro link hlink
      by_cases hp : ∃ p, IsRow rt s.tables rule.parent .polygonArticles p
          ∧ identity ["osm_type", "osm_id", "article_id"] p
            = identity ["osm_type", "osm_id", "article_id"] link
      · exact Or.inr hp
      · push Not at hp
        rw [← hchildRow] at hlink
        refine Or.inl (hstaged.linkId_of_links hrt hA (hmerged .polygonArticles) ?_ hlink hp)
        intro row hrow hnew
        obtain ⟨_, _, _, _, hid⟩ := hlossless.links row hrow hnew
        exact hid
    · intro child hchild hlacks
      obtain ⟨-, polygonRows'', files'', hstaged'', -⟩ := stageRule_staged haudit' hrun
      rw [← hchildRow] at hchild
      exact hI.extracted_of_staged hrt hstaged hA hstaged'' hchild hlacks
  · intro h
    have hA : Audited rt s.tables rule.parent (sorted rule.children) := by
      by_cases hchildren : rule.children = []
      · rw [hchildren]
        exact h.audited hchildren
      · exact (auditRule_spec haudit hchildren).2.2.mp hsafe
    refine ⟨?_, ?_⟩
    · have hread : ∀ subdir, ∃ t, readTable rt (some (files subdir)) = .ok t := by
        intro subdir
        obtain ⟨contract, hcontract, rfl⟩ := subdir.mem_contracts
        obtain ⟨table, ids, hA'⟩ := hA contract hcontract
        obtain ⟨rows, -, hback, -⟩ := hstaged.merged hrt hA' hcontract
        exact ⟨_, hback⟩
      choose merged hmerged using hread
      refine ⟨merged, by rw [hcache]; exact hmerged, ?_⟩
      have hlossless := hstaged.lossless hrt hA hmerged
        (by rw [hchildRow]; exact h.textIds) (by rw [hchildRow]; exact h.linkIds)
      rwa [hchildRow] at hlossless
    · obtain ⟨audit', haudit'⟩ := auditRule_again haudit (s'.install rule.parent).tables
      have hsafe' := safeToStage_of_audited haudit' (hI.audited hrt hstaged hA)
      have hcomparable := hI.comparable hrt hstaged hA (by rw [hchildRow]; exact h.extracted)
      obtain ⟨s'', hrun, hcache'⟩ := stageRule_returns haudit' hsafe'
        (hI.staged hrt hstaged hA hcomparable)
      exact ⟨audit', s'', haudit', hrun, hcache'.trans hcache.symm⟩

end

namespace LosslessExample

def columns : List String := Example.columns ++ ["polygon_id", "extracted_at"]

/-- A row that serves every table. -/
def row (id : Int) (polygonId : String) (at' : Value Empty) : Row Empty := fun c =>
  if c = "polygon_id" then some (.str polygonId)
  else if c = "extracted_at" then some at'
  else if c ∈ columns then some (.int id)
  else none

def table (rows : List (Int × String × Value Empty)) : Table Empty where
  schema := ⟨columns, ""⟩
  rows := rows.map (fun r => row r.1 r.2.1 r.2.2)
  columns_iff := by
    intro r hr c
    obtain ⟨⟨id, polygonId, at'⟩, -, rfl⟩ := List.mem_map.mp hr
    unfold row
    by_cases hid : c = "polygon_id"
    · simp [hid, columns]
    · by_cases hat : c = "extracted_at"
      · simp [hat, columns]
      · simp [hid, hat]

def parentTable : Table Empty := table [(1, "brandenburg-latest:1:1", .str "2024")]

/-- A newer snapshot of the parent's polygon, and a polygon that the parent lacks. -/
def childTable (at' : Value Empty) : Table Empty :=
  table [(1, "berlin-latest:1:1", .str "2025"), (2, "berlin-latest:2:2", at')]

def regions (at' : Value Empty) : Store (Option (Table Empty)) Nat :=
  { Example.regions with
    tables := fun _ stem =>
      if stem = "brandenburg-latest" then some (some parentTable)
      else if stem = "berlin-latest" then some (some (childTable at'))
      else none }

def audit : RuleAudit :=
  ⟨"brandenburg-latest",
    [⟨"berlin-latest", tableContracts.map (fun contract => ⟨contract.subdir, 2, 1, 0, 0⟩)⟩], []⟩

theorem roundTrips : RoundTrips Example.runtime := by
  intro t file h
  cases h
  rfl

def staged (at' : Value Empty) : Store (Option (Table Empty)) Nat :=
  (Prog.run (stageRule Example.runtime audit) (regions at')).2

/-- The polygon that only the child has was extracted in 2025. -/
theorem staged_lossless :
    (∃ merged, (∀ subdir, readTable Example.runtime ((staged (.str "2025")).cache
          "brandenburg-latest" subdir) = .ok (merged subdir))
        ∧ Lossless Example.runtime "brandenburg-latest"
          (IsRow Example.runtime (regions (.str "2025")).tables "brandenburg-latest")
          (ChildRow Example.runtime (regions (.str "2025")).tables ["berlin-latest"]) merged)
      ∧ StagesAgain Example.runtime Example.rule (staged (.str "2025")) := by
  have hparent : ∀ subdir row, IsRow Example.runtime (regions (.str "2025")).tables
      "brandenburg-latest" subdir row → row ∈ parentTable.rows := by
    rintro subdir row ⟨t, hread, hrow⟩
    cases hread
    exact hrow
  have hchild : ∀ subdir row, ChildRow Example.runtime (regions (.str "2025")).tables
      ["berlin-latest"] subdir row → row ∈ (childTable (.str "2025")).rows := by
    rintro subdir row ⟨child, hmem, t, hread, hrow⟩
    cases List.mem_singleton.mp hmem
    cases hread
    exact hrow
  refine (staging_lossless_iff roundTrips (show auditRule Example.runtime
    (regions (.str "2025")).tables Example.rule = .ok audit from rfl) rfl rfl).mpr ⟨?_, ?_, ?_, ?_⟩
  · intro h
    cases h
  · intro p child hp _ _ id hid
    cases List.mem_singleton.mp (hparent _ p hp)
    cases hid
    exact ⟨_, rfl⟩
  · intro link hlink
    refine Or.inl ?_
    rw [((childTable (.str "2025")).columns_iff link (hchild _ link hlink) "polygon_id")]
    decide
  · intro child hrow _
    rcases List.mem_pair.mp (hchild _ child hrow) with rfl | rfl
    · exact ⟨_, rfl⟩
    · exact ⟨_, rfl⟩

/-- **Staging again raises.** The polygon that only the child has lacks `extracted_at`. It is taken
without being compared, and compared when it is met again. -/
theorem not_stagesAgain : auditRule Example.runtime (regions .null).tables Example.rule = .ok audit
      ∧ audit.safeToStage = true
      ∧ Prog.run (stageRule Example.runtime audit) (regions .null) = (.ok (), staged .null)
      ∧ ¬ StagesAgain Example.runtime Example.rule (staged .null) := by
  refine ⟨rfl, rfl, rfl, ?_⟩
  rintro ⟨audit', s', haudit, hrun, -⟩
  cases haudit
  cases hrun

end LosslessExample

end OsmPolygonWikidata.Containment
