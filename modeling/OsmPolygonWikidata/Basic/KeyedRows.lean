import OsmPolygonWikidata.Basic.Loops

/-! # Rows collected under a key

A loop that keeps one row for each key: an equal row is dropped, another row of a key that is taken
is a conflict. What is kept and sorted by a key depends on which rows there are, and not on their
order or on repetitions.
-/

namespace Python

variable {R K E : Type} [DecidableEq R] [DecidableEq K] (key : R → K)

/-- One row of the loop. -/
def mergeRow (conflict : R → E) (out : List R) (row : R) : Except E (List R) :=
  match out.find? (fun existing => key existing = key row) with
  | none => .ok (out ++ [row])
  | some existing => if existing = row then .ok out else .error (conflict row)

/-- No two different rows share a key. -/
def Functional (rows : List R) : Prop := ∀ r ∈ rows, ∀ r' ∈ rows, key r = key r' → r = r'

variable {key} {conflict : R → E} {rows : List R}

theorem eraseDups_concat (rows : List R) (row : R) :
    (rows ++ [row]).eraseDups = if row ∈ rows then rows.eraseDups else rows.eraseDups ++ [row] := by
  rw [List.eraseDups_append]
  split_ifs with h
  · simp [List.removeAll, h]
  · simp [List.removeAll, h, List.eraseDups_cons]

theorem nodup_eraseDups (rows : List R) : rows.eraseDups.Nodup := by
  induction rows using List.reverseRecOn with
  | nil => exact List.nodup_nil
  | append_singleton rows row ih =>
    rw [eraseDups_concat]
    split_ifs with h
    · exact ih
    · rw [← List.concat_eq_append]
      exact ih.concat (fun hmem => h (List.mem_eraseDups.mp hmem))

theorem mergeRow_eraseDups {row : R} (h : ∀ r ∈ rows, key r = key row → r = row) :
    mergeRow key conflict rows.eraseDups row = .ok (rows ++ [row]).eraseDups := by
  rw [mergeRow, eraseDups_concat]
  cases hfind : rows.eraseDups.find? (fun existing => key existing = key row) with
  | none =>
    have hnew : row ∉ rows := by
      intro hmem
      simpa using List.find?_eq_none.mp hfind row (List.mem_eraseDups.mpr hmem)
    rw [if_neg hnew]
  | some existing =>
    have hmem : existing ∈ rows := List.mem_eraseDups.mp (List.mem_of_find?_eq_some hfind)
    have hkey : key existing = key row := by simpa using List.find?_some hfind
    have hsame : existing = row := h existing hmem hkey
    rw [if_pos (hsame ▸ hmem)]
    exact if_pos hsame

theorem agree_of_mergeRow {row : R} {out : List R}
    (h : mergeRow key conflict rows.eraseDups row = .ok out) (hrows : Functional key rows) :
    ∀ r ∈ rows, key r = key row → r = row := by
  intro r hr hkey
  rw [mergeRow] at h
  cases hfind : rows.eraseDups.find? (fun existing => key existing = key row) with
  | none =>
    have hnone := List.find?_eq_none.mp hfind r (List.mem_eraseDups.mpr hr)
    exact absurd hkey (by simpa using hnone)
  | some existing =>
    rw [hfind] at h
    dsimp only at h
    split_ifs at h with hsame
    have hmem : existing ∈ rows := List.mem_eraseDups.mp (List.mem_of_find?_eq_some hfind)
    rw [← hsame] at hkey ⊢
    exact hrows r hr existing hmem hkey

omit [DecidableEq R] [DecidableEq K] in
theorem functional_concat {row : R} : Functional key (rows ++ [row])
      ↔ Functional key rows ∧ ∀ r ∈ rows, key r = key row → r = row := by
  constructor
  · intro h
    exact ⟨fun r hr r' hr' => h r (List.mem_append_left _ hr) r' (List.mem_append_left _ hr'),
      fun r hr => h r (List.mem_append_left _ hr) row (by simp)⟩
  · rintro ⟨hrows, hrow⟩ r hr r' hr' hkey
    rcases List.mem_append.mp hr with hr | hr <;> rcases List.mem_append.mp hr' with hr' | hr'
    · exact hrows r hr r' hr' hkey
    · rw [List.mem_singleton.mp hr'] at hkey ⊢
      exact hrow r hr hkey
    · rw [List.mem_singleton.mp hr] at hkey ⊢
      exact (hrow r' hr' hkey.symm).symm
    · rw [List.mem_singleton] at hr hr'
      rw [hr, hr']

/-- **What the loop keeps**, when each row is checked before it is merged. -/
theorem foldlM_mergeRow_eq_ok_iff {E' : Type} {step : List R → R → Except E' (List R)}
    {Good : R → Prop}
    (hstep : ∀ out row next,
      step out row = .ok next ↔ Good row ∧ mergeRow key conflict out row = .ok next)
    {out : List R} :
    rows.foldlM step [] = .ok out
      ↔ (∀ r ∈ rows, Good r) ∧ Functional key rows ∧ out = rows.eraseDups := by
  induction rows using List.reverseRecOn generalizing out with
  | nil =>
    constructor
    · intro h
      cases h
      exact ⟨by simp, fun r hr => by simp at hr, rfl⟩
    · rintro ⟨-, -, rfl⟩
      rfl
  | append_singleton rows row ih =>
    have hlast : ∀ collected, [row].foldlM step collected = step collected row := by
      intro collected
      rw [List.foldlM_cons]
      exact bind_pure _
    rw [List.foldlM_append, bind_eq_ok]
    constructor
    · rintro ⟨collected, hcollected, hout⟩
      obtain ⟨hgood, hrows, rfl⟩ := ih.mp hcollected
      rw [hlast, hstep] at hout
      have hagree := agree_of_mergeRow hout.2 hrows
      have hmerged := hout.2
      rw [mergeRow_eraseDups hagree] at hmerged
      refine ⟨fun r hr => ?_, functional_concat.mpr ⟨hrows, hagree⟩, (Except.ok.inj hmerged).symm⟩
      rcases List.mem_append.mp hr with hr | hr
      · exact hgood r hr
      · rw [List.mem_singleton.mp hr]
        exact hout.1
    · rintro ⟨hgood, hfunctional, rfl⟩
      obtain ⟨hrows, hagree⟩ := functional_concat.mp hfunctional
      refine ⟨rows.eraseDups, ih.mpr ⟨fun r hr => hgood r (List.mem_append_left _ hr), hrows, rfl⟩,
        ?_⟩
      rw [hlast, hstep]
      exact ⟨hgood row (by simp), mergeRow_eraseDups hagree⟩

omit [DecidableEq K] [DecidableEq R] in
theorem insertionSort_congr {L : Type} [LinearOrder L] {sortKey : R → L} {rows' : List R}
    (hperm : rows.Perm rows')
    (hinj : ∀ r ∈ rows, ∀ r' ∈ rows, sortKey r = sortKey r' → r = r') :
    rows.insertionSort (fun a b => sortKey a ≤ sortKey b)
      = rows'.insertionSort (fun a b => sortKey a ≤ sortKey b) := by
  have hsorts : (rows.insertionSort (fun a b => sortKey a ≤ sortKey b)).Perm
      (rows'.insertionSort (fun a b => sortKey a ≤ sortKey b)) :=
    (List.perm_insertionSort _ _).trans (hperm.trans (List.perm_insertionSort _ _).symm)
  apply List.Perm.eq_of_pairwise ?_ (List.pairwise_insertionSort _ _)
    (List.pairwise_insertionSort _ _) hsorts
  intro a b ha hb hab hba
  have hrow : a ∈ rows := (List.perm_insertionSort _ _).mem_iff.mp ha
  have hrow' : b ∈ rows' := (List.perm_insertionSort _ _).mem_iff.mp hb
  exact hinj a hrow b (hperm.mem_iff.mpr hrow') (le_antisymm hab hba)

omit [DecidableEq K] in
/-- **Sorting what is kept** gives one list for each set of rows. -/
theorem insertionSort_eraseDups_congr {L : Type} [LinearOrder L] {sortKey : R → L}
    {rows' : List R} (hmem : ∀ r, r ∈ rows ↔ r ∈ rows')
    (hinj : ∀ r ∈ rows, ∀ r' ∈ rows, sortKey r = sortKey r' → r = r') :
    rows.eraseDups.insertionSort (fun a b => sortKey a ≤ sortKey b)
      = rows'.eraseDups.insertionSort (fun a b => sortKey a ≤ sortKey b) := by
  refine insertionSort_congr ?_ fun r hr r' hr' => ?_
  · exact (List.perm_ext_iff_of_nodup (nodup_eraseDups rows) (nodup_eraseDups rows')).mpr
      (fun r => by rw [List.mem_eraseDups, List.mem_eraseDups, hmem])
  · exact hinj r (List.mem_eraseDups.mp hr) r' (List.mem_eraseDups.mp hr')

end Python
