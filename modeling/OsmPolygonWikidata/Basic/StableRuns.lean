import OsmPolygonWikidata.Basic.KeyedRows

/-! # Groups out of a stable sort

A stable sort of the positions by a key puts the positions of each key next to each other, in
ascending order. Cutting it by the numbers of positions of the keys gives the groups, and these
groups, in the order of their first positions, are what appending position after position gives.
-/

namespace Python

/-! ## The order of a stable sort -/

section

variable {key : Nat → Nat} {n : Nat}

/-- Before, by the key and then by the position. -/
def KeyBefore (key : Nat → Nat) (i j : Nat) : Prop := key i < key j ∨ (key i = key j ∧ i < j)

theorem KeyBefore.asymm {i j : Nat} (h : KeyBefore key i j) : ¬ KeyBefore key j i := by
  unfold KeyBefore at h ⊢
  omega

/-- The positions of a key. -/
def positionsOf (key : Nat → Nat) (n k : Nat) : List Nat :=
  (List.range n).filter (fun i => key i = k)

theorem mem_positionsOf {k i : Nat} : i ∈ positionsOf key n k ↔ i < n ∧ key i = k := by
  simp [positionsOf]

theorem pairwise_positionsOf (k : Nat) : (positionsOf key n k).Pairwise (· < ·) :=
  List.pairwise_lt_range.filter _

theorem pairwise_flatMap_positionsOf {ks : List Nat} (hks : ks.Pairwise (· < ·)) :
    (ks.flatMap (positionsOf key n)).Pairwise (KeyBefore key) := by
  rw [List.pairwise_flatMap]
  constructor
  · intro k _
    refine (pairwise_positionsOf k).imp_of_mem fun {i j} hi hj hlt => Or.inr ⟨?_, hlt⟩
    rw [(mem_positionsOf.mp hi).2, (mem_positionsOf.mp hj).2]
  · refine hks.imp fun {k k'} hlt i hi j hj => Or.inl ?_
    rw [(mem_positionsOf.mp hi).2, (mem_positionsOf.mp hj).2]
    exact hlt

/-- **A stable sort lists the positions of one key after those of another.** -/
theorem stable_eq_flatMap {order ks : List Nat} (hperm : order.Perm (List.range n))
    (hsorted : order.Pairwise (KeyBefore key)) (hks : ks.Pairwise (· < ·))
    (hcover : ∀ i < n, key i ∈ ks) : order = ks.flatMap (positionsOf key n) := by
  have hruns : (ks.flatMap (positionsOf key n)).Pairwise (KeyBefore key) :=
    pairwise_flatMap_positionsOf hks
  have hnodup : ∀ {positions : List Nat}, positions.Pairwise (KeyBefore key) → positions.Nodup := by
    intro positions h
    refine h.imp fun {i j} hbefore heq => ?_
    subst heq
    exact hbefore.asymm hbefore
  refine List.Perm.eq_of_pairwise (fun i j _ _ hij hji => absurd hji hij.asymm) hsorted hruns ?_
  rw [List.perm_ext_iff_of_nodup (hnodup hsorted) (hnodup hruns)]
  intro i
  rw [hperm.mem_iff, List.mem_range, List.mem_flatMap]
  constructor
  · exact fun hi => ⟨key i, hcover i hi, mem_positionsOf.mpr ⟨hi, rfl⟩⟩
  · rintro ⟨k, -, hi⟩
    exact (mem_positionsOf.mp hi).1

end

/-! ## Cutting into runs -/

section

variable {A K : Type}

/-- The slices `items[offset : offset + count]`, one after the other. -/
def cutRuns (items : List A) : Nat → List (K × Nat) → List (K × List A)
  | _, [] => []
  | offset, (k, count) :: runs =>
    (k, (items.drop offset).take count) :: cutRuns items (offset + count) runs

theorem cutRuns_flatMap {runs : List (K × Nat)} (f : K → List A)
    (hruns : ∀ run ∈ runs, (f run.1).length = run.2) (before : List A) :
    cutRuns (before ++ runs.flatMap (fun run => f run.1)) before.length runs
      = runs.map (fun run => (run.1, f run.1)) := by
  induction runs generalizing before with
  | nil => rfl
  | cons run runs ih =>
    obtain ⟨k, count⟩ := run
    have hlength : (f k).length = count := hruns (k, count) List.mem_cons_self
    have hrest := ih (fun r hr => hruns r (List.mem_cons_of_mem _ hr)) (before ++ f k)
    rw [List.length_append, hlength, List.append_assoc] at hrest
    rw [List.flatMap_cons, List.map_cons, cutRuns, hrest, List.drop_left, ← hlength,
      List.take_left]

end

/-! ## Grouping position after position -/

variable {K : Type} [DecidableEq K]

/-- The positions of the elements, appended under the elements. -/
def groupPositions (names : List K) : List (K × List Nat) := group names.zipIdx

theorem valuesOf_zipIdx_concat (names : List K) (name k : K) : valuesOf (names ++ [name]).zipIdx k
      = valuesOf names.zipIdx k ++ if name = k then [names.length] else [] := by
  rw [List.zipIdx_append, valuesOf, List.filter_append, List.map_append]
  refine congrArg _ ?_
  by_cases h : name = k <;> simp [h]

theorem keys_group {V : Type} (pairs : List (K × V)) :
    (group pairs).map Prod.fst = (pairs.map Prod.fst).eraseDups := by
  induction pairs using List.reverseRecOn with
  | nil => rfl
  | append_singleton pairs p ih =>
    rw [group_concat, keys_appendUnder, ih, List.map_append, List.map_singleton, eraseDups_concat]
    simp only [List.mem_eraseDups]

theorem group_eq_map {V : Type} (pairs : List (K × V)) :
    group pairs = (pairs.map Prod.fst).eraseDups.map (fun k => (k, valuesOf pairs k)) := by
  rw [← keys_group, List.map_map]
  refine (List.map_id (group pairs)).symm.trans (List.map_congr_left fun entry hentry => ?_)
  obtain ⟨k, vs⟩ := entry
  exact congrArg (fun values => (k, values)) (mem_group_iff.mp hentry).1

theorem groupPositions_eq (names : List K) :
    groupPositions names = names.eraseDups.map (fun k => (k, valuesOf names.zipIdx k)) := by
  rw [groupPositions, group_eq_map, List.zipIdx_map_fst]

theorem head_valuesOf_zipIdx {names : List K} {k : K} (h : k ∈ names) :
    (valuesOf names.zipIdx k).head? = some (names.idxOf k) := by
  induction names using List.reverseRecOn with
  | nil => cases h
  | append_singleton names name ih =>
    rw [valuesOf_zipIdx_concat]
    by_cases hmem : k ∈ names
    · rw [List.idxOf_append_of_mem hmem, List.head?_append, ih hmem]
      rfl
    · have hname : name = k := by
        simpa [hmem, eq_comm] using h
      have hnone : valuesOf names.zipIdx k = [] := by
        rw [valuesOf, List.map_eq_nil_iff, List.filter_eq_nil_iff]
        intro entry hentry
        rw [decide_eq_true_eq]
        rintro rfl
        exact hmem (List.fst_mem_of_mem_zipIdx hentry)
      rw [hnone, if_pos hname, List.idxOf_append_of_notMem hmem, hname]
      simp

theorem pairwise_idxOf_eraseDups (names : List K) :
    names.eraseDups.Pairwise (fun a b => names.idxOf a < names.idxOf b) := by
  induction names using List.reverseRecOn with
  | nil => exact .nil
  | append_singleton names name ih =>
    have hbefore : names.eraseDups.Pairwise
        (fun a b => (names ++ [name]).idxOf a < (names ++ [name]).idxOf b) := by
      refine ih.imp_of_mem fun {a b} ha hb hlt => ?_
      rwa [List.idxOf_append_of_mem (List.mem_eraseDups.mp ha),
        List.idxOf_append_of_mem (List.mem_eraseDups.mp hb)]
    rw [eraseDups_concat]
    split
    · exact hbefore
    · rename_i hnew
      rw [List.pairwise_append]
      refine ⟨hbefore, List.pairwise_singleton _ _, fun a ha b hb => ?_⟩
      rw [List.mem_singleton.mp hb, List.idxOf_append_of_mem (List.mem_eraseDups.mp ha),
        List.idxOf_append_of_notMem hnew]
      exact Nat.lt_add_right _ (List.idxOf_lt_length_of_mem (List.mem_eraseDups.mp ha))

end Python
