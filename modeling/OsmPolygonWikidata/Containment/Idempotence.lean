import OsmPolygonWikidata.Containment.Merging

/-! # Merging twice

A merged parent contains its children. When they are merged into it again, every polygon of a child
meets the row that took it up before, which is at least as new and already has the parent's
provenance, and every other row of a child finds its identity. So the second merge gives the tables
of the first, whichever of the merged tables have been installed in between. Only the comparison of
two snapshots can raise: the first merge does not compare a polygon that the parent lacks.
-/

namespace OsmPolygonWikidata.Containment

open Python

variable {X C J : Type}

/-! ## Comparing snapshots -/

/-- When a row was extracted. -/
def extractedAt (row : Row X) : Value X := (row "extracted_at").getD (.str "")

/-- Python can compare the two. -/
def Comparable (a b : Value X) : Prop := ∃ newer, greater a b = .ok newer

theorem greater_self (a : Value X) : greater a a ≠ .ok true := by
  cases a <;> simp [greater]

theorem greater_trans {a b c : Value X} (hab : greater a b = .ok true)
    (hbc : greater b c = .ok true) : greater a c = .ok true := by
  cases a <;> cases b <;> cases c <;>
    simp only [greater, Except.ok.injEq, decide_eq_true_eq, reduceCtorEq] at hab hbc ⊢
  · exact hbc.trans hab
  · exact lt_trans hbc hab

theorem Comparable.trans {a b c : Value X} (hab : Comparable a b) (hbc : Comparable b c) :
    Comparable a c := by
  obtain ⟨x, hx⟩ := hab
  obtain ⟨y, hy⟩ := hbc
  cases a <;> cases b <;> cases c <;> simp [greater] at hx hy
  · exact ⟨_, rfl⟩
  · exact ⟨_, rfl⟩

theorem greater_error {a b : Value X} (h : ¬ Comparable a b) : greater a b = .error .typeError := by
  cases a <;> cases b <;> first | rfl | exact absurd ⟨_, rfl⟩ h

/-! ## Rows of a schema -/

/-- The row has exactly the given columns. -/
def HasColumns (columns : List String) (row : Row X) : Prop :=
  ∀ c, (row c).isSome = true ↔ c ∈ columns

theorem HasColumns.project {columns : List String} {row : Row X} (h : HasColumns columns row) :
    project columns row = row := by
  funext c
  unfold Containment.project
  split
  · rename_i hc
    obtain ⟨v, hv⟩ := Option.isSome_iff_exists.mp ((h c).mpr hc)
    rw [hv]
    rfl
  · rename_i hc
    have hnone : ¬ (row c).isSome = true := fun hsome => hc ((h c).mp hsome)
    exact (Option.not_isSome_iff_eq_none.mp hnone).symm

theorem HasColumns.congr {columns : List String} {row row' : Row X} (h : HasColumns columns row)
    (hsame : ∀ c, (row' c).isSome = (row c).isSome) : HasColumns columns row' := by
  intro c
  rw [hsame c]
  exact h c

theorem isSome_update {row : Row X} {field : String} {v : Value X}
    (hfield : (row field).isSome = true) (c : String) :
    (Function.update row field (some v) c).isSome = (row c).isSome := by
  by_cases hc : c = field
  · subst hc
    rw [Function.update_self, hfield]
    rfl
  · rw [Function.update_of_ne hc]

theorem fromPylist_rows {rows : List (Row X)} {schema : Schema}
    (h : ∀ row ∈ rows, HasColumns schema.columns row) :
    (Table.fromPylist rows schema).rows = rows := by
  show rows.map (project schema.columns) = rows
  rw [List.map_congr_left (fun row hrow => (h row hrow).project), List.map_id']

/-! ## The canonical row of a polygon -/

section

variable {rt : Runtime X C J} {parent : Option (Row X)} {child row r : Row X} {stem : String}

/-- The fields that name the region are strings. -/
def Canonical (row : Row X) : Prop :=
  ∀ field : Provenance, row field.field = none ∨ ∃ s, row field.field = some (.str s)

/-- The row has its identity, its snapshot and its columns from `newest`. -/
structure SameSnapshot (newest row : Row X) : Prop where
  key : polygonKey row = polygonKey newest
  extracted : extractedAt row = extractedAt newest
  columns : ∀ c, (row c).isSome = (newest c).isSome

theorem SameSnapshot.refl (row : Row X) : SameSnapshot row row := ⟨rfl, rfl, fun _ => rfl⟩

theorem Provenance.ne_key (field : Provenance) :
    "osm_type" ≠ field.field ∧ "osm_id" ≠ field.field ∧ "extracted_at" ≠ field.field := by
  cases field <;> decide

theorem setProvenance_sameSnapshot {newest : Row X} {field : Provenance}
    (h : setProvenance rt parent child stem row field = .ok r) (hrow : SameSnapshot newest row) :
    SameSnapshot newest r := by
  unfold setProvenance at h
  split at h
  · rename_i hfield
    obtain ⟨value, -, hr⟩ := bind_eq_ok.mp h
    cases hr
    obtain ⟨htype, hid, hat⟩ := field.ne_key
    refine ⟨?_, ?_, fun c => (isSome_update hfield c).trans (hrow.columns c)⟩
    · rw [← hrow.key]
      simp only [polygonKey, identity, List.mapM_cons, List.mapM_nil,
        Function.update_of_ne htype, Function.update_of_ne hid]
    · rw [← hrow.extracted, extractedAt, Function.update_of_ne hat, extractedAt]
  · cases h
    exact hrow

theorem setProvenance_strings {field : Provenance}
    (h : setProvenance rt parent child stem row field = .ok r) :
    (r field.field = none ∨ ∃ s, r field.field = some (.str s))
      ∧ ∀ other : Provenance, other ≠ field → r other.field = row other.field := by
  unfold setProvenance at h
  split at h
  · obtain ⟨value, -, hr⟩ := bind_eq_ok.mp h
    cases hr
    refine ⟨Or.inr ⟨value, Function.update_self _ _ _⟩, fun other hother => ?_⟩
    refine Function.update_of_ne ?_ _ _
    cases field <;> cases other <;> first | exact absurd rfl hother | decide
  · rename_i hfield
    cases h
    exact ⟨Or.inl (by simpa using hfield), fun _ _ => rfl⟩

/-- **The canonical row** is the newest snapshot under provenance that is made of strings. -/
theorem canonicalPolygonRow_spec (h : canonicalPolygonRow rt parent child stem = .ok r) :
    ∃ newest, newestRow parent child = .ok newest ∧ SameSnapshot newest r ∧ Canonical r := by
  unfold canonicalPolygonRow at h
  obtain ⟨newest, hnewest, h⟩ := bind_eq_ok.mp h
  obtain ⟨r₁, h₁, h⟩ := bind_eq_ok.mp h
  obtain ⟨r₂, h₂, h₃⟩ := bind_eq_ok.mp h
  have hsame := setProvenance_sameSnapshot h₃ (setProvenance_sameSnapshot h₂
    (setProvenance_sameSnapshot h₁ (SameSnapshot.refl newest)))
  refine ⟨newest, hnewest, hsame, ?_⟩
  obtain ⟨hid, -⟩ := setProvenance_strings h₁
  obtain ⟨hregion, hkeep₂⟩ := setProvenance_strings h₂
  obtain ⟨hpbf, hkeep₃⟩ := setProvenance_strings h₃
  intro field
  cases field with
  | polygonId =>
    rw [hkeep₃ .polygonId (by decide), hkeep₂ .polygonId (by decide)]
    exact hid
  | region =>
    rw [hkeep₃ .region (by decide)]
    exact hregion
  | sourcePbf => exact hpbf

theorem setProvenance_self {m : Row X} (hm : Canonical m) (field : Provenance) :
    setProvenance rt (some m) child stem m field = .ok m := by
  unfold setProvenance
  split
  · rename_i hfield
    obtain ⟨s, hs⟩ := (hm field).resolve_left (fun hnone => by rw [hnone] at hfield; cases hfield)
    have hvalue : canonicalProvenanceValue rt field (some m) child stem = .ok s := by
      cases field with
      | polygonId =>
        have hs' : m "polygon_id" = some (.str s) := hs
        simp [canonicalProvenanceValue, polygonProvenance, hs', orKeyError, Value.pyStr, bind,
          Except.bind, pure, Except.pure]
      | region =>
        have hs' : m "region" = some (.str s) := hs
        simp [canonicalProvenanceValue, parentOrDefault, hs', Value.pyStr]
      | sourcePbf =>
        have hs' : m "source_pbf" = some (.str s) := hs
        simp [canonicalProvenanceValue, parentOrDefault, hs', Value.pyStr]
    rw [hvalue]
    show Except.ok (Function.update m field.field (some (.str s))) = _
    rw [← hs, Function.update_eq_self]
  · rfl

theorem canonicalPolygonRow_absorbs {m : Row X} (hm : Canonical m)
    (hnewer : greater (extractedAt child) (extractedAt m) ≠ .ok true)
    (hcmp : Comparable (extractedAt child) (extractedAt m)) :
    canonicalPolygonRow rt (some m) child stem = .ok m := by
  obtain ⟨newer, heq⟩ := hcmp
  have hnewest : newestRow (some m) child = .ok m := by
    show (greater (extractedAt child) (extractedAt m)).bind _ = _
    rw [heq]
    cases newer with
    | true => exact absurd heq hnewer
    | false => rfl
  unfold canonicalPolygonRow
  rw [hnewest]
  show (setProvenance rt (some m) child stem m .polygonId).bind _ = _
  rw [setProvenance_self hm]
  show (setProvenance rt (some m) child stem m .region).bind _ = _
  rw [setProvenance_self hm]
  exact setProvenance_self hm .sourcePbf

theorem newestRow_notOlder {m child newest c : Row X} (h : newestRow (some m) child = .ok newest)
    (hc : greater (extractedAt c) (extractedAt m) ≠ .ok true) :
    greater (extractedAt c) (extractedAt newest) ≠ .ok true := by
  unfold newestRow at h
  obtain ⟨newer, hnewer, h⟩ := bind_eq_ok.mp h
  cases h
  cases newer with
  | true =>
    simp only [if_true]
    exact fun hgreater => hc (greater_trans hgreater hnewer)
  | false => exact hc

theorem newestRow_notOlder_child {parent : Option (Row X)} {child newest : Row X}
    (h : newestRow parent child = .ok newest) :
    greater (extractedAt child) (extractedAt newest) ≠ .ok true := by
  cases parent with
  | none =>
    cases h
    exact greater_self _
  | some m =>
    unfold newestRow at h
    obtain ⟨newer, hnewer, h⟩ := bind_eq_ok.mp h
    cases h
    cases newer with
    | true => exact greater_self _
    | false =>
      intro hgreater
      have : greater (extractedAt child) (extractedAt m) = .ok false := hnewer
      simp only [Bool.false_eq_true, if_false] at hgreater
      rw [this] at hgreater
      cases hgreater

theorem newestRow_mem {m child newest : Row X} (h : newestRow (some m) child = .ok newest) :
    newest = child ∨ newest = m := by
  unfold newestRow at h
  obtain ⟨newer, -, h⟩ := bind_eq_ok.mp h
  cases h
  cases newer with
  | true => exact Or.inl rfl
  | false => exact Or.inr rfl

end

/-! ## Merging polygons -/

section

theorem splitLast_eq_none {A : Type} {p : A → Bool} {xs : List A} (h : splitLast p xs = none) :
    ∀ x ∈ xs, p x = false := by
  induction xs with
  | nil => simp
  | cons y ys ih =>
    rw [splitLast] at h
    split at h
    · cases h
    · rename_i hys
      split at h
      · cases h
      · rename_i hy
        intro x hx
        rcases List.mem_cons.mp hx with rfl | hx
        · simpa using hy
        · exact ih hys x hx

theorem splitLast_eq_some {A : Type} {p : A → Bool} {xs before after : List A} {y : A}
    (h : splitLast p xs = some (before, y, after)) : xs = before ++ y :: after ∧ p y = true := by
  induction xs generalizing before with
  | nil => cases h
  | cons x xs ih =>
    rw [splitLast] at h
    split at h
    · rename_i before' y' after' hsplit
      cases h
      obtain ⟨heq, hy⟩ := ih hsplit
      exact ⟨by rw [heq, List.cons_append], hy⟩
    · split at h
      · rename_i hx
        cases h
        exact ⟨rfl, hx⟩
      · cases h

variable [DecidableEq X] {rt : Runtime X C J} {stem : String} {columns : List String}

/-- The row of the child has been taken up by `m`. -/
structure Absorbed (child m : Row X) : Prop where
  key : polygonKey m = polygonKey child
  canonical : Canonical m
  newest : greater (extractedAt child) (extractedAt m) ≠ .ok true

/-- Polygon rows of a schema with distinct identities, which have taken up the rows `done`. -/
structure MergeInv (columns : List String) (rows done : List (Row X)) : Prop where
  total : ∀ row ∈ rows, (polygonKey row).isSome = true
  nodup : (rows.map polygonKey).Nodup
  columns : ∀ row ∈ rows, HasColumns columns row
  absorbed : ∀ child ∈ done, ∃ m ∈ rows, Absorbed child m

theorem mergeChildPolygonRow_cases {rows rows' : List (Row X)} {child : Row X}
    (h : mergeChildPolygonRow rt stem rows child = .ok rows') :
    (polygonKey child).isSome = true ∧
    ((∃ row, canonicalPolygonRow rt none child stem = .ok row ∧ rows' = rows ++ [row]
        ∧ polygonKey child ∉ rows.map polygonKey)
      ∨ ∃ before m after row, rows = before ++ m :: after ∧ polygonKey m = polygonKey child
        ∧ canonicalPolygonRow rt (some m) child stem = .ok row ∧ rows' = before ++ row :: after) := by
  unfold mergeChildPolygonRow at h
  obtain ⟨key, hkey, h⟩ := bind_eq_ok.mp h
  have hkey' : polygonKey child = some key := by
    cases hk : polygonKey child with
    | none => rw [hk] at hkey; cases hkey
    | some k => rw [hk] at hkey; cases hkey; rfl
  refine ⟨by rw [hkey']; rfl, ?_⟩
  split at h
  · rename_i hsplit
    obtain ⟨row, hrow, h⟩ := bind_eq_ok.mp h
    cases h
    refine Or.inl ⟨row, hrow, rfl, fun hmem => ?_⟩
    obtain ⟨m, hm, hkm⟩ := List.mem_map.mp hmem
    have hno := splitLast_eq_none hsplit m hm
    rw [hkm, hkey'] at hno
    simp at hno
  · rename_i before m after hsplit
    obtain ⟨row, hrow, h⟩ := bind_eq_ok.mp h
    cases h
    obtain ⟨heq, hm⟩ := splitLast_eq_some hsplit
    refine Or.inr ⟨before, m, after, row, heq, ?_, hrow, rfl⟩
    rw [hkey']
    simpa using hm

variable {rows rows' done : List (Row X)}

/-- **One row of a child** is taken up, and what was taken up before stays so. -/
theorem MergeInv.step {child : Row X} (hinv : MergeInv columns rows done)
    (hchild : HasColumns columns child) (h : mergeChildPolygonRow rt stem rows child = .ok rows') :
    MergeInv columns rows' (child :: done) := by
  obtain ⟨hkey, ⟨row, hrow, rfl, hnew⟩ | ⟨before, m, after, row, rfl, hm, hrow, rfl⟩⟩ :=
    mergeChildPolygonRow_cases h
  · obtain ⟨newest, hnewest, hsame, hcanonical⟩ := canonicalPolygonRow_spec hrow
    have hnewer := newestRow_notOlder_child hnewest
    cases hnewest
    refine ⟨?_, ?_, ?_, ?_⟩
    · intro r hr
      rcases List.mem_append.mp hr with hr | hr
      · exact hinv.total r hr
      · rw [List.mem_singleton.mp hr, hsame.key]
        exact hkey
    · rw [List.map_append, List.map_singleton, hsame.key]
      exact List.nodup_append_comm.mp (List.nodup_cons.mpr ⟨hnew, hinv.nodup⟩)
    · intro r hr
      rcases List.mem_append.mp hr with hr | hr
      · exact hinv.columns r hr
      · rw [List.mem_singleton.mp hr]
        exact hchild.congr hsame.columns
    · intro c hc
      rcases List.mem_cons.mp hc with rfl | hc
      · refine ⟨row, by simp, hsame.key, hcanonical, ?_⟩
        rw [hsame.extracted]
        exact hnewer
      · obtain ⟨m, hm, habs⟩ := hinv.absorbed c hc
        exact ⟨m, List.mem_append_left _ hm, habs⟩
  · obtain ⟨newest, hnewest, hsame, hcanonical⟩ := canonicalPolygonRow_spec hrow
    have hmem : m ∈ before ++ m :: after := by simp
    have hkeys : polygonKey row = polygonKey m := by
      rw [hsame.key]
      rcases newestRow_mem hnewest with rfl | rfl
      · exact hm.symm
      · rfl
    have hcolumns : HasColumns columns newest := by
      rcases newestRow_mem hnewest with rfl | rfl
      · exact hchild
      · exact hinv.columns _ hmem
    refine ⟨?_, ?_, ?_, ?_⟩
    · intro r hr
      rcases List.mem_append.mp hr with hr | hr
      · exact hinv.total r (List.mem_append_left _ hr)
      · rcases List.mem_cons.mp hr with rfl | hr
        · rw [hkeys]
          exact hinv.total m hmem
        · exact hinv.total r (by simp [hr])
    · have hsamekeys : (before ++ row :: after).map polygonKey
          = (before ++ m :: after).map polygonKey := by simp [hkeys]
      rw [hsamekeys]
      exact hinv.nodup
    · intro r hr
      rcases List.mem_append.mp hr with hr | hr
      · exact hinv.columns r (List.mem_append_left _ hr)
      · rcases List.mem_cons.mp hr with rfl | hr
        · exact hcolumns.congr hsame.columns
        · exact hinv.columns r (by simp [hr])
    · intro c hc
      rcases List.mem_cons.mp hc with rfl | hc
      · refine ⟨row, by simp, hkeys.trans hm, hcanonical, ?_⟩
        rw [hsame.extracted]
        exact newestRow_notOlder_child hnewest
      · obtain ⟨m', hm', habs⟩ := hinv.absorbed c hc
        by_cases heq : m' = m
        · subst heq
          refine ⟨row, by simp, hkeys.trans habs.key, hcanonical, ?_⟩
          rw [hsame.extracted]
          exact newestRow_notOlder hnewest habs.newest
        · refine ⟨m', ?_, habs⟩
          simp only [List.mem_append, List.mem_cons] at hm' ⊢
          rcases hm' with hm' | hm' | hm'
          · exact Or.inl hm'
          · exact absurd hm' heq
          · exact Or.inr (Or.inr hm')

/-- **All rows of the children.** -/
theorem MergeInv.run {rows merged done children : List (Row X)} (hinv : MergeInv columns rows done)
    (hchildren : ∀ child ∈ children, HasColumns columns child)
    (h : children.foldlM (mergeChildPolygonRow rt stem) rows = .ok merged) :
    MergeInv columns merged (children.reverse ++ done) := by
  induction children generalizing rows done with
  | nil =>
    cases h
    exact hinv
  | cons child children ih =>
    rw [List.foldlM_cons] at h
    obtain ⟨rows', hstep, h⟩ := bind_eq_ok.mp h
    have hnext := hinv.step (hchildren child List.mem_cons_self) hstep
    have hrun := ih hnext (fun c hc => hchildren c (List.mem_cons_of_mem _ hc)) h
    rwa [List.reverse_cons, List.append_assoc]

variable (rt stem) in
theorem MergeInv.again_step {child m : Row X} (hinv : MergeInv columns rows done) (hm : m ∈ rows)
    (habs : Absorbed child m) :
    (Comparable (extractedAt child) (extractedAt m) →
      mergeChildPolygonRow rt stem rows child = .ok rows)
    ∧ (¬ Comparable (extractedAt child) (extractedAt m) →
      mergeChildPolygonRow rt stem rows child = .error .typeError) := by
  obtain ⟨key, hkey⟩ := Option.isSome_iff_exists.mp (hinv.total m hm)
  have hchild : polygonKey child = some key := by rw [← habs.key, hkey]
  cases hsplit : splitLast (fun row => decide (polygonKey row = some key)) rows with
  | none =>
    have hno := splitLast_eq_none hsplit m hm
    simp [hkey] at hno
  | some parts =>
    obtain ⟨before, m', after⟩ := parts
    obtain ⟨heq, hm'⟩ := splitLast_eq_some hsplit
    have hmem : m' ∈ rows := by rw [heq]; simp
    have hsame : m' = m := by
      refine List.inj_on_of_nodup_map hinv.nodup hmem hm ?_
      rw [hkey]
      simpa using hm'
    subst hsame
    have hmeets : mergeChildPolygonRow rt stem rows child
        = (canonicalPolygonRow rt (some m') child stem).bind
          (fun row => .ok (before ++ row :: after)) := by
      have hkeyed : orKeyError (polygonKey child) = .ok key := by
        rw [hchild]
        rfl
      unfold mergeChildPolygonRow
      simp only [hkeyed, bind, Except.bind, hsplit]
      rfl
    rw [hmeets]
    constructor
    · intro hcmp
      rw [canonicalPolygonRow_absorbs habs.canonical habs.newest hcmp, heq]
      rfl
    · intro hcmp
      have herror : canonicalPolygonRow rt (some m') child stem = .error .typeError := by
        show ((greater (extractedAt child) (extractedAt m')).bind _).bind _ = _
        rw [greater_error hcmp]
        rfl
      rw [herror]
      rfl

variable (rt stem) in
/-- **Merging again** gives the same rows, if the snapshots can be compared, and raises
otherwise. -/
theorem MergeInv.again {children : List (Row X)} (hinv : MergeInv columns rows done)
    (hchildren : ∀ child ∈ children, child ∈ done) :
    ((∀ child ∈ children, ∀ m ∈ rows, polygonKey m = polygonKey child →
        Comparable (extractedAt child) (extractedAt m)) →
      children.foldlM (mergeChildPolygonRow rt stem) rows = .ok rows)
    ∧ (¬ (∀ child ∈ children, ∀ m ∈ rows, polygonKey m = polygonKey child →
        Comparable (extractedAt child) (extractedAt m)) →
      children.foldlM (mergeChildPolygonRow rt stem) rows = .error .typeError) := by
  induction children with
  | nil => exact ⟨fun _ => rfl, fun h => absurd (by simp) h⟩
  | cons child children ih =>
    obtain ⟨m, hm, habs⟩ := hinv.absorbed child (hchildren child List.mem_cons_self)
    obtain ⟨hsame, hraise⟩ := hinv.again_step rt stem hm habs
    obtain ⟨hsame', hraise'⟩ := ih (fun c hc => hchildren c (List.mem_cons_of_mem _ hc))
    rw [List.foldlM_cons]
    constructor
    · intro hall
      rw [hsame (hall child List.mem_cons_self m hm habs.key)]
      exact hsame' (fun c hc => hall c (List.mem_cons_of_mem _ hc))
    · intro hall
      by_cases hcmp : Comparable (extractedAt child) (extractedAt m)
      · rw [hsame hcmp]
        refine hraise' (fun hrest => hall ?_)
        intro c hc m' hm' hkey
        rcases List.mem_cons.mp hc with rfl | hc
        · have heq : m' = m :=
            List.inj_on_of_nodup_map hinv.nodup hm' hm (hkey.trans habs.key.symm)
          rwa [heq]
        · exact hrest c hc m' hm' hkey
      · rw [hraise hcmp]
        rfl

/-- What a merge compares: the row of a child with the row of its identity, whose snapshot is
replaced by one it was compared with. -/
theorem MergeInv.step_comparable {child : Row X} (hinv : MergeInv columns rows done)
    (h : mergeChildPolygonRow rt stem rows child = .ok rows') :
    (∀ m ∈ rows, polygonKey m = polygonKey child → Comparable (extractedAt child) (extractedAt m))
    ∧ ∀ m ∈ rows, ∃ m' ∈ rows', polygonKey m' = polygonKey m
      ∧ (extractedAt m' = extractedAt m ∨ Comparable (extractedAt m') (extractedAt m)) := by
  obtain ⟨-, ⟨row, -, rfl, hnew⟩ | ⟨before, m, after, row, rfl, hm, hrow, rfl⟩⟩ :=
    mergeChildPolygonRow_cases h
  · refine ⟨fun p hp hkey => absurd (List.mem_map.mpr ⟨p, hp, hkey⟩) hnew, ?_⟩
    exact fun p hp => ⟨p, List.mem_append_left _ hp, rfl, Or.inl rfl⟩
  · obtain ⟨newest, hnewest, hsame, -⟩ := canonicalPolygonRow_spec hrow
    have hmem : m ∈ before ++ m :: after := by simp
    have hcmp : Comparable (extractedAt child) (extractedAt m) := by
      obtain ⟨newer, hnewer, -⟩ := bind_eq_ok.mp hnewest
      exact ⟨newer, hnewer⟩
    constructor
    · intro p hp hkey
      have heq : p = m := List.inj_on_of_nodup_map hinv.nodup hp hmem (hkey.trans hm.symm)
      rwa [heq]
    · intro p hp
      by_cases heq : p = m
      · subst heq
        refine ⟨row, by simp, ?_, ?_⟩
        · rw [hsame.key]
          rcases newestRow_mem hnewest with rfl | rfl
          · exact hm.symm
          · rfl
        · rw [hsame.extracted]
          rcases newestRow_mem hnewest with rfl | rfl
          · exact Or.inr hcmp
          · exact Or.inl rfl
      · refine ⟨p, ?_, rfl, Or.inl rfl⟩
        simp only [List.mem_append, List.mem_cons] at hp ⊢
        rcases hp with hp | hp | hp
        · exact Or.inl hp
        · exact absurd hp heq
        · exact Or.inr (Or.inr hp)

theorem MergeInv.run_comparable {merged children : List (Row X)} (hinv : MergeInv columns rows done)
    (hchildren : ∀ child ∈ children, HasColumns columns child)
    (h : children.foldlM (mergeChildPolygonRow rt stem) rows = .ok merged) :
    ∀ child ∈ children, ∀ m ∈ rows, polygonKey m = polygonKey child →
      Comparable (extractedAt child) (extractedAt m) := by
  induction children generalizing rows done with
  | nil => simp
  | cons child children ih =>
    rw [List.foldlM_cons] at h
    obtain ⟨rows', hstep, h⟩ := bind_eq_ok.mp h
    obtain ⟨hfirst, hkept⟩ := hinv.step_comparable hstep
    have hnext := hinv.step (hchildren child List.mem_cons_self) hstep
    have hrest := ih hnext (fun c hc => hchildren c (List.mem_cons_of_mem _ hc)) h
    intro c hc m hm hkey
    rcases List.mem_cons.mp hc with rfl | hc
    · exact hfirst m hm hkey
    · obtain ⟨m', hm', hkey', hsame | hcmp⟩ := hkept m hm
      · rw [← hsame]
        exact hrest c hc m' hm' (hkey'.trans hkey)
      · exact (hrest c hc m' hm' (hkey'.trans hkey)).trans hcmp

end

/-! ## Merging the other tables -/

theorem orKeyError_eq_ok {A : Type} {value : Option A} {a : A} :
    orKeyError value = .ok a ↔ value = some a := by
  cases value <;> simp [orKeyError]

theorem identity_congr {columns : List String} {row row' : Row X}
    (h : ∀ c ∈ columns, row' c = row c) : identity columns row' = identity columns row := by
  induction columns with
  | nil => rfl
  | cons c columns ih =>
    have hrest := ih (fun c' hc' => h c' (List.mem_cons_of_mem _ hc'))
    simp only [identity, List.mapM_cons] at hrest ⊢
    rw [h c List.mem_cons_self, hrest]

variable [DecidableEq X] {rt : Runtime X C J} {stem : String} {columns : List String}
  {contract : TableContract} {polygonRows : List (Row X)}

theorem remapLink_spec {row r : Row X} (h : remapLink row stem polygonRows = .ok r) :
    (∀ c, (r c).isSome = (row c).isSome)
      ∧ ∀ c, c ≠ "polygon_id" → c ≠ "source_pbf" → c ≠ "region" → r c = row c := by
  -- an update of a field that is there
  have hset : ∀ (r₁ : Row X) (field : String) (v : Value X), (r₁ field).isSome = true →
      (∀ c, (r₁ c).isSome = (row c).isSome) →
      ∀ c, (Function.update r₁ field (some v) c).isSome = (row c).isSome :=
    fun r₁ field v hfield hsame c => (isSome_update hfield c).trans (hsame c)
  unfold remapLink at h
  split at h
  · cases h
    exact ⟨fun _ => rfl, fun _ _ _ _ => rfl⟩
  · rename_i hid
    obtain ⟨key, -, h⟩ := bind_eq_ok.mp h
    obtain ⟨⟨before, polygon, after⟩, -, h⟩ := bind_eq_ok.mp h
    obtain ⟨polygonId, -, h⟩ := bind_eq_ok.mp h
    cases h
    have hid' : (row "polygon_id").isSome = true := by
      rw [Option.isNone_iff_eq_none] at hid
      exact Option.isSome_iff_ne_none.mpr hid
    have h₁ := hset row "polygon_id" polygonId hid' (fun _ => rfl)
    constructor
    · intro c
      split <;> split
      · rename_i hregion hpbf
        exact hset _ _ _ hpbf (hset _ _ _ hregion h₁) c
      · rename_i hregion hpbf
        exact hset _ _ _ hregion h₁ c
      · rename_i hregion hpbf
        exact hset _ _ _ hpbf h₁ c
      · exact h₁ c
    · intro c hc hpbf hregion
      split <;> split <;> simp [Function.update_of_ne, hc, hpbf, hregion]

/-- Rows of a schema with their identities, which are distinct and comprise those of the rows
`done`. -/
structure AppendInv (columns identityColumns : List String)
    (acc : List (Row X) × List (List (Value X))) (done : List (Row X)) : Prop where
  identities : acc.1.mapM (identity identityColumns) = some acc.2
  nodup : acc.2.Nodup
  columns : ∀ row ∈ acc.1, HasColumns columns row
  seen : ∀ child ∈ done, ∃ key ∈ acc.2, identity identityColumns child = some key

variable (hcontract : contract ∈ tableContracts)

include hcontract

theorem identityColumns_links (hlinks : contract.subdir = .polygonArticles) {c : String}
    (hc : c ∈ contract.identityColumns) : c ≠ "polygon_id" ∧ c ≠ "source_pbf" ∧ c ≠ "region" := by
  have hall : ∀ contract ∈ tableContracts, contract.subdir = .polygonArticles →
      ∀ c ∈ contract.identityColumns, c ≠ "polygon_id" ∧ c ≠ "source_pbf" ∧ c ≠ "region" := by
    decide
  exact hall contract hcontract hlinks c hc

theorem candidateRow_spec {child candidate : Row X}
    (h : candidateRow contract child stem polygonRows = .ok candidate) :
    identity contract.identityColumns candidate = identity contract.identityColumns child
      ∧ ∀ c, (candidate c).isSome = (child c).isSome := by
  unfold candidateRow at h
  split at h
  · rename_i hlinks
    obtain ⟨hcolumns, hother⟩ := remapLink_spec h
    refine ⟨identity_congr (fun c hc => ?_), hcolumns⟩
    obtain ⟨h₁, h₂, h₃⟩ := identityColumns_links hcontract hlinks hc
    exact hother c h₁ h₂ h₃
  · cases h
    exact ⟨rfl, fun _ => rfl⟩

/-- **One row of a child** is appended unless its identity is there. -/
theorem AppendInv.step
    {acc acc' : List (Row X) × List (List (Value X))} {done : List (Row X)} {child : Row X}
    (hinv : AppendInv columns contract.identityColumns acc done)
    (hchild : HasColumns columns child)
    (h : appendChildRow contract stem polygonRows acc child = .ok acc') :
    AppendInv columns contract.identityColumns acc' (child :: done) := by
  unfold appendChildRow at h
  obtain ⟨key, hkey, h⟩ := bind_eq_ok.mp h
  have hkey' := orKeyError_eq_ok.mp hkey
  split at h
  · rename_i hseen
    cases h
    refine ⟨hinv.identities, hinv.nodup, hinv.columns, ?_⟩
    intro c hc
    rcases List.mem_cons.mp hc with rfl | hc
    · exact ⟨key, hseen, hkey'⟩
    · exact hinv.seen c hc
  · rename_i hseen
    obtain ⟨candidate, hcandidate, h⟩ := bind_eq_ok.mp h
    cases h
    obtain ⟨hidentity, hcolumns⟩ := candidateRow_spec hcontract hcandidate
    rw [hkey'] at hidentity
    refine ⟨?_, ?_, ?_, ?_⟩
    · rw [List.mapM_append, hinv.identities]
      simp [hidentity]
    · have hnodup := hinv.nodup.concat hseen
      rwa [List.concat_eq_append] at hnodup
    · intro row hrow
      rcases List.mem_append.mp hrow with hrow | hrow
      · exact hinv.columns row hrow
      · rw [List.mem_singleton.mp hrow]
        exact hchild.congr hcolumns
    · intro c hc
      rcases List.mem_cons.mp hc with rfl | hc
      · exact ⟨key, by simp, hkey'⟩
      · obtain ⟨k, hk, hck⟩ := hinv.seen c hc
        exact ⟨k, List.mem_append_left _ hk, hck⟩

theorem AppendInv.run
    {acc merged : List (Row X) × List (List (Value X))} {done children : List (Row X)}
    (hinv : AppendInv columns contract.identityColumns acc done)
    (hchildren : ∀ child ∈ children, HasColumns columns child)
    (h : children.foldlM (appendChildRow contract stem polygonRows) acc = .ok merged) :
    AppendInv columns contract.identityColumns merged (children.reverse ++ done) := by
  induction children generalizing acc done with
  | nil =>
    cases h
    exact hinv
  | cons child children ih =>
    rw [List.foldlM_cons] at h
    obtain ⟨acc', hstep, h⟩ := bind_eq_ok.mp h
    have hnext := hinv.step hcontract (hchildren child List.mem_cons_self) hstep
    have hrun := ih hnext (fun c hc => hchildren c (List.mem_cons_of_mem _ hc)) h
    rwa [List.reverse_cons, List.append_assoc]

omit hcontract

/-- **Appending again** changes nothing. -/
theorem AppendInv.again {acc : List (Row X) × List (List (Value X))} {done children : List (Row X)}
    (hinv : AppendInv columns contract.identityColumns acc done)
    (hchildren : ∀ child ∈ children, child ∈ done) :
    children.foldlM (appendChildRow contract stem polygonRows) acc = .ok acc := by
  induction children with
  | nil => rfl
  | cons child children ih =>
    obtain ⟨key, hmem, hkey⟩ := hinv.seen child (hchildren child List.mem_cons_self)
    have hstep : appendChildRow contract stem polygonRows acc child = .ok acc := by
      unfold appendChildRow
      rw [hkey]
      show (if key ∈ acc.2 then _ else _) = _
      rw [if_pos hmem]
      rfl
    rw [List.foldlM_cons, hstep]
    exact ih (fun c hc => hchildren c (List.mem_cons_of_mem _ hc))

end OsmPolygonWikidata.Containment
