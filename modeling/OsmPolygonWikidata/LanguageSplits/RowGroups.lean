import OsmPolygonWikidata.Basic.Dict
import OsmPolygonWikidata.Basic.StableRuns
import OsmPolygonWikidata.LanguageSplits.LanguageNames

/-! # Grouping the rows of a batch

`partition_row_indices` of `hf/language_splits.py`. A language is normalized once for each distinct
value of a batch, and the rows are grouped with one stable sort. `partitionRowIndices_eq` says that
this is what appending row after row gives.

Arrow is a parameter that meets its specification.
-/

namespace OsmPolygonWikidata.LanguageSplits

open Python

/-- The functions of Arrow that are used. A null is `none`. -/
structure Arrow where
  dictionaryEncode : List (Option String) → List String × List (Option Nat)
  arraySortIndices : List Nat → List Nat
  valueCounts : List Nat → List (Nat × Nat)
  languageCounts : List (Option String) → List (Option String × Nat)

/-- A code stands for a value: a null has none. -/
def Encodes (dictionary : List String) (value : Option String) (code : Option Nat) : Prop :=
  value = code.bind (fun c => dictionary[c]?) ∧ (value = none → code = none)

/-- What Arrow says about these functions. The sort is stable. -/
structure Arrow.Lawful (arrow : Arrow) : Prop where
  encodes : ∀ column, List.Forall₂ (Encodes (arrow.dictionaryEncode column).1) column
    (arrow.dictionaryEncode column).2
  sort_perm : ∀ ids, (arrow.arraySortIndices ids).Perm (List.range ids.length)
  sort_stable : ∀ ids, (arrow.arraySortIndices ids).Pairwise (KeyBefore (fun i => ids.getD i 0))
  counts_nodup : ∀ ids, ((arrow.valueCounts ids).map Prod.fst).Nodup
  counts_iff : ∀ ids value count, (value, count) ∈ arrow.valueCounts ids
    ↔ value ∈ ids ∧ count = ids.count value
  languages_nodup : ∀ column, ((arrow.languageCounts column).map Prod.fst).Nodup
  languages_iff : ∀ column value count, (value, count) ∈ arrow.languageCounts column
    ↔ value ∈ column ∧ count = column.count value

/-- The value of a cell. -/
def rawOf : Option String → RawLanguage
  | none => .missing
  | some value => .text value

variable (m : CaseMapping) (arrow : Arrow)

/-- The partition of a row. -/
def partitionName (value : Option String) : String := (normalizeLanguage m (rawOf value)).partition

def partitionNamesByCode (column : List (Option String)) : List String × List Nat :=
  let (dictionary, codes) := arrow.dictionaryEncode column
  let names := dictionary.map (fun value => partitionName m (some value))
  if none ∈ codes then
    let names := names ++ [partitionName m none]
    (names, codes.map (fun code => code.getD (names.length - 1)))
  else (names, codes.map (fun code => code.getD 0))

/-- `ids_by_name` and `id_of_code`. -/
def denseIds (namesByCode : List String) : List (String × Nat) × List Nat :=
  namesByCode.foldl (fun (idsByName, idOfCode) name =>
    match idsByName.lookup name with
    | some id => (idsByName, idOfCode ++ [id])
    | none => (idsByName ++ [(name, idsByName.length)], idOfCode ++ [idsByName.length])) ([], [])

/-- `_partition_ids`. -/
def partitionIds (idOfCode codes : List Nat) : List Nat :=
  codes.map (fun code => idOfCode.getD code 0)

/-- `_grouped_row_indices`. A number that no name has would be a `KeyError`. -/
def groupedRowIndices (ids : List Nat) (idsByName : List (String × Nat)) :
    Option (List (String × List Nat)) := do
  let runs := (arrow.valueCounts ids).insertionSort (fun a b => a.1 < b.1 ∨ (a.1 = b.1 ∧ a.2 ≤ b.2))
  let named ← runs.mapM (fun run => do
    let entry ← idsByName.find? (fun entry => entry.2 = run.1)
    return (entry.1, run.2))
  return Dict.build Prod.fst (cutRuns (arrow.arraySortIndices ids) 0 named)

/-- `partition_row_indices`, for the language column of the batch. -/
def partitionRowIndices (column : List (Option String)) : Option (List (String × List Nat)) :=
  if column.length = 0 then some []
  else do
    let (namesByCode, codes) := partitionNamesByCode m arrow column
    let (idsByName, idOfCode) := denseIds namesByCode
    let grouped ← groupedRowIndices arrow (partitionIds idOfCode codes) idsByName
    return grouped.insertionSort (fun a b => a.2.headD 0 ≤ b.2.headD 0)

/-! ## The names of the codes -/

section

variable {m} {arrow}

theorem partitionNamesByCode_spec (hlawful : arrow.Lawful) (column : List (Option String)) :
    List.Forall₂ (fun value code =>
        (partitionNamesByCode m arrow column).1[code]? = some (partitionName m value))
      column (partitionNamesByCode m arrow column).2 := by
  have hencodes := hlawful.encodes column
  unfold partitionNamesByCode
  generalize arrow.dictionaryEncode column = encoded at hencodes ⊢
  obtain ⟨dictionary, codes⟩ := encoded
  dsimp only at hencodes ⊢
  split
  · rw [List.forall₂_map_right_iff]
    refine hencodes.imp fun value code hcode => ?_
    cases code with
    | none =>
      obtain rfl : value = none := hcode.1
      simp
    | some c =>
      cases value with
      | none => cases hcode.2 rfl
      | some text =>
        have hget : dictionary[c]? = some text := hcode.1.symm
        have hlt : c < dictionary.length := (List.getElem?_eq_some_iff.mp hget).1
        show (dictionary.map (fun value => partitionName m (some value))
          ++ [partitionName m none])[c]? = _
        rw [List.getElem?_append_left (by simpa using hlt), List.getElem?_map, hget]
        rfl
  · rename_i hnull
    rw [List.forall₂_map_right_iff]
    have hcodes : ∀ code ∈ codes, code ≠ none := fun code hcode heq => hnull (heq ▸ hcode)
    clear hnull
    induction hencodes with
    | nil => exact .nil
    | @cons value code column codes hcode _ ih =>
      refine .cons ?_ (ih fun code h => hcodes code (List.mem_cons_of_mem _ h))
      cases code with
      | none => exact absurd rfl (hcodes none List.mem_cons_self)
      | some c =>
        cases value with
        | none => cases hcode.2 rfl
        | some text =>
          have hget : dictionary[c]? = some text := hcode.1.symm
          show (dictionary.map (fun value => partitionName m (some value)))[c]? = _
          rw [List.getElem?_map, hget]
          rfl

theorem lookup_zipIdx (names : List String) (start : Nat) (name : String) :
    (names.zipIdx start).lookup name
      = if name ∈ names then some (start + names.idxOf name) else none := by
  induction names generalizing start with
  | nil => rfl
  | cons first names ih =>
    rw [List.zipIdx_cons, List.lookup_cons, ih (start + 1), List.idxOf_cons]
    by_cases h : name = first
    · rw [h, beq_self_eq_true, if_pos List.mem_cons_self]
      simp
    · rw [beq_eq_false_iff_ne.mpr h, beq_eq_false_iff_ne.mpr (Ne.symm h)]
      by_cases hmem : name ∈ names
      · rw [if_pos hmem, if_pos (List.mem_cons_of_mem _ hmem)]
        simp only [cond_false]
        congr 1
        omega
      · rw [if_neg hmem, if_neg (by simp [h, hmem])]

theorem denseIds_eq (names : List String) :
    denseIds names = (names.eraseDups.zipIdx, names.map (fun name => names.eraseDups.idxOf name)) := by
  induction names using List.reverseRecOn with
  | nil => rfl
  | append_singleton names name ih =>
    unfold denseIds at ih ⊢
    rw [List.foldl_append, ih, List.foldl_cons, List.foldl_nil]
    dsimp only
    rw [lookup_zipIdx, eraseDups_concat]
    have hkeep : ∀ {more : List String}, names.map
        (fun name => (names.eraseDups ++ more).idxOf name)
          = names.map (fun name => names.eraseDups.idxOf name) := fun {more} =>
      List.map_congr_left fun other hother =>
        List.idxOf_append_of_mem (List.mem_eraseDups.mpr hother)
    by_cases hmem : name ∈ names
    · rw [if_pos (List.mem_eraseDups.mpr hmem), if_pos hmem, List.map_append]
      simp
    · have hnew : name ∉ names.eraseDups := fun h => hmem (List.mem_eraseDups.mp h)
      rw [if_neg hnew, if_neg hmem, List.map_append, hkeep, List.zipIdx_append,
        List.map_singleton, List.idxOf_append_of_notMem hnew]
      simp

theorem find?_zipIdx {names : List String} (start : Nat) {i : Nat} (hi : i < names.length) :
    (names.zipIdx start).find? (fun entry => entry.2 = start + i) = some (names[i], start + i) := by
  induction names generalizing start i with
  | nil => cases hi
  | cons first names ih =>
    rw [List.zipIdx_cons]
    cases i with
    | zero => simp
    | succ i =>
      have hne : ¬ start = start + (i + 1) := by omega
      rw [List.find?_cons_of_neg (by simp)]
      have hrest := ih (start + 1) (Nat.lt_of_succ_lt_succ hi)
      rw [show start + 1 + i = start + (i + 1) by omega] at hrest
      exact hrest

theorem partitionIds_eq {names : List String} {codes : List Nat} {rows : List String}
    (h : List.Forall₂ (fun row code => names[code]? = some row) rows codes) :
    partitionIds (denseIds names).2 codes = rows.map (fun row => names.eraseDups.idxOf row) := by
  rw [denseIds_eq, partitionIds]
  induction h with
  | nil => rfl
  | cons hrow _ ih =>
    rw [List.map_cons, List.map_cons, ih, List.getD_eq_getElem?_getD, List.getElem?_map, hrow]
    rfl

theorem mem_of_codes {names : List String} {codes : List Nat} {rows : List String}
    (h : List.Forall₂ (fun row code => names[code]? = some row) rows codes) :
    ∀ row ∈ rows, row ∈ names.eraseDups := by
  intro row hrow
  obtain ⟨code, -, hcode⟩ := forall₂_exists_mem h hrow
  exact List.mem_eraseDups.mpr (List.mem_of_getElem? hcode)

end

/-! ## The runs -/

section

variable {m} {arrow} {rows names : List String}

/-- The numbers of the rows. -/
def rowIds (names rows : List String) : List Nat := rows.map (fun row => names.idxOf row)

theorem positionsOf_rowIds (hrows : ∀ row ∈ rows, row ∈ names) (name : String) :
    positionsOf (fun i => (rowIds names rows).getD i 0) rows.length (names.idxOf name)
      = valuesOf rows.zipIdx name := by
  induction rows using List.reverseRecOn with
  | nil => rfl
  | append_singleton rows row ih =>
    have hprefix := ih fun r hr => hrows r (List.mem_append_left _ hr)
    rw [valuesOf_zipIdx_concat, ← hprefix, positionsOf, List.length_append, List.length_singleton,
      List.range_succ, List.filter_append]
    have hids : rowIds names (rows ++ [row]) = rowIds names rows ++ [names.idxOf row] := by
      simp [rowIds]
    have hlength : (rowIds names rows).length = rows.length := List.length_map _
    congr 1
    · refine List.filter_congr fun i hi => ?_
      rw [hids, List.getD_append _ _ _ _ (by rw [hlength]; exact List.mem_range.mp hi)]
    · have hlast : (rowIds names (rows ++ [row])).getD rows.length 0 = names.idxOf row := by
        rw [hids, ← hlength, List.getD_append_right _ _ _ _ le_rfl, Nat.sub_self]
        rfl
      have hiff : names.idxOf row = names.idxOf name ↔ row = name :=
        List.idxOf_inj (hrows row (by simp))
      by_cases h : row = name
      · rw [if_pos h]
        exact List.filter_cons_of_pos (decide_eq_true (hlast.trans (hiff.mpr h)))
      · have hne : ¬ (rowIds names (rows ++ [row])).getD rows.length 0 = names.idxOf name :=
          fun heq => h (hiff.mp (hlast.symm.trans heq))
        rw [if_neg h]
        exact List.filter_cons_of_neg (by rw [decide_eq_true_eq]; exact hne)

theorem length_positionsOf (ids : List Nat) (k : Nat) :
    (positionsOf (fun i => ids.getD i 0) ids.length k).length = ids.count k := by
  have hids : ids = (List.range ids.length).map (fun i => ids.getD i 0) :=
    List.ext_getElem (by simp) fun i hi _ => by simp [hi]
  conv_rhs => rw [hids]
  rw [positionsOf, List.count, List.countP_map, List.countP_eq_length_filter]
  rfl

theorem runs_spec (hlawful : arrow.Lawful) (ids : List Nat) :
    ∃ runs, (arrow.valueCounts ids).insertionSort
        (fun a b => a.1 < b.1 ∨ (a.1 = b.1 ∧ a.2 ≤ b.2)) = runs
      ∧ (runs.map Prod.fst).Pairwise (· < ·)
      ∧ ∀ run, run ∈ runs ↔ run.1 ∈ ids ∧ run.2 = ids.count run.1 := by
  have htotal : Std.Total (fun a b : Nat × Nat => a.1 < b.1 ∨ (a.1 = b.1 ∧ a.2 ≤ b.2)) :=
    ⟨fun a b => by omega⟩
  have htrans : IsTrans (Nat × Nat) (fun a b => a.1 < b.1 ∨ (a.1 = b.1 ∧ a.2 ≤ b.2)) :=
    ⟨fun a b c => by omega⟩
  refine ⟨_, rfl, ?_, fun run => ?_⟩
  · have hsorted := List.pairwise_insertionSort
      (fun a b : Nat × Nat => a.1 < b.1 ∨ (a.1 = b.1 ∧ a.2 ≤ b.2)) (arrow.valueCounts ids)
    have hnodup : (((arrow.valueCounts ids).insertionSort
        (fun a b => a.1 < b.1 ∨ (a.1 = b.1 ∧ a.2 ≤ b.2))).map Prod.fst).Nodup :=
      ((List.perm_insertionSort _ _).map _).nodup_iff.mpr (hlawful.counts_nodup ids)
    rw [List.Nodup, List.pairwise_map] at hnodup
    rw [List.pairwise_map]
    refine (hsorted.and hnodup).imp fun {a b} hboth => ?_
    omega
  · rw [(List.perm_insertionSort _ _).mem_iff]
    exact hlawful.counts_iff ids run.1 run.2

theorem mapM_names {runs : List (Nat × Nat)} (hruns : ∀ run ∈ runs, run.1 < names.length) :
    runs.mapM (fun run => do
        let entry ← names.zipIdx.find? (fun entry => entry.2 = run.1)
        return (entry.1, run.2))
      = some (runs.map (fun run => (names.getD run.1 "", run.2))) := by
  induction runs with
  | nil => rfl
  | cons run runs ih =>
    have hlt := hruns run List.mem_cons_self
    have hfind := find?_zipIdx 0 hlt
    rw [Nat.zero_add] at hfind
    rw [List.mapM_cons, ih fun other hother => hruns other (List.mem_cons_of_mem _ hother), hfind,
      List.map_cons, List.getD_eq_getElem _ _ hlt]
    rfl

/-- What the runs of the rows are. -/
structure RunsOf (names rows : List String) (runs : List (Nat × Nat)) : Prop where
  increasing : (runs.map Prod.fst).Pairwise (· < ·)
  mem_iff : ∀ run, run ∈ runs ↔ run.1 ∈ rowIds names rows ∧ run.2 = (rowIds names rows).count run.1

theorem getD_idxOf {name : String} (hname : name ∈ names) :
    names.getD (names.idxOf name) "" = name := by
  have hlt := List.idxOf_lt_length_of_mem hname
  rw [List.getD_eq_getElem _ _ hlt, List.getElem_idxOf]

section

variable {runs : List (Nat × Nat)} (hruns : RunsOf names rows runs)
  (hrows : ∀ row ∈ rows, row ∈ names)

include hruns

variable {run : Nat × Nat}

theorem RunsOf.exists_name (hrun : run ∈ runs) : ∃ name ∈ rows, run.1 = names.idxOf name := by
  obtain ⟨name, hname, heq⟩ := List.mem_map.mp ((hruns.mem_iff run).mp hrun).1
  exact ⟨name, hname, heq.symm⟩

include hrows

theorem RunsOf.lt_length (hrun : run ∈ runs) : run.1 < names.length := by
  obtain ⟨name, hname, heq⟩ := hruns.exists_name hrun
  exact heq ▸ List.idxOf_lt_length_of_mem (hrows name hname)

theorem RunsOf.positionsOf_eq (hrun : run ∈ runs) :
    positionsOf (fun i => (rowIds names rows).getD i 0) rows.length run.1
      = valuesOf rows.zipIdx (names.getD run.1 "") := by
  obtain ⟨name, hname, heq⟩ := hruns.exists_name hrun
  rw [heq, getD_idxOf (hrows name hname)]
  exact positionsOf_rowIds hrows name

theorem RunsOf.nodup_names (hnames : names.Nodup) :
    (runs.map (fun run => names.getD run.1 "")).Nodup := by
  have hincreasing := hruns.increasing
  rw [List.pairwise_map] at hincreasing
  rw [List.Nodup, List.pairwise_map]
  refine hincreasing.imp_of_mem fun {a b} ha hb hab heq => ?_
  rw [List.getD_eq_getElem _ _ (hruns.lt_length hrows ha),
    List.getD_eq_getElem _ _ (hruns.lt_length hrows hb)] at heq
  have hsame : a.1 = b.1 := hnames.getElem_inj_iff.mp heq
  omega

theorem RunsOf.mem_names (name : String) :
    name ∈ runs.map (fun run => names.getD run.1 "") ↔ name ∈ rows := by
  rw [List.mem_map]
  constructor
  · rintro ⟨run, hrun, rfl⟩
    obtain ⟨name, hname, heq⟩ := hruns.exists_name hrun
    rw [heq, getD_idxOf (hrows name hname)]
    exact hname
  · intro hname
    have hid : names.idxOf name ∈ rowIds names rows := List.mem_map.mpr ⟨name, hname, rfl⟩
    exact ⟨(names.idxOf name, (rowIds names rows).count (names.idxOf name)),
      (hruns.mem_iff _).mpr ⟨hid, rfl⟩, getD_idxOf (hrows name hname)⟩

theorem RunsOf.order_eq (hlawful : arrow.Lawful) : arrow.arraySortIndices (rowIds names rows)
      = (runs.map (fun run => (names.getD run.1 "", run.2))).flatMap
        (fun run => valuesOf rows.zipIdx run.1) := by
  have hcover : ∀ i < (rowIds names rows).length,
      (rowIds names rows).getD i 0 ∈ runs.map Prod.fst := by
    intro i hi
    have hid : (rowIds names rows).getD i 0 ∈ rowIds names rows := by
      rw [List.getD_eq_getElem _ _ hi]
      exact List.getElem_mem hi
    have hrun := (hruns.mem_iff (_, (rowIds names rows).count _)).mpr ⟨hid, rfl⟩
    exact List.mem_map_of_mem hrun
  rw [stable_eq_flatMap (hlawful.sort_perm _) (hlawful.sort_stable _) hruns.increasing hcover,
    List.flatMap_map, List.flatMap_map, rowIds, List.length_map]
  exact List.flatMap_congr fun run hrun => hruns.positionsOf_eq hrows hrun

theorem RunsOf.length_values (hrun : run ∈ runs) :
    (valuesOf rows.zipIdx (names.getD run.1 "")).length = run.2 := by
  have hlength : (rowIds names rows).length = rows.length := List.length_map _
  rw [← hruns.positionsOf_eq hrows hrun, ((hruns.mem_iff run).mp hrun).2, ← hlength]
  exact length_positionsOf _ _

end

/-- **The groups are those of the names**, in the order of the runs. -/
theorem groupedRowIndices_spec (hlawful : arrow.Lawful) (hnames : names.Nodup)
    (hrows : ∀ row ∈ rows, row ∈ names) :
    ∃ found : List String, found.Nodup ∧ (∀ name, name ∈ found ↔ name ∈ rows)
      ∧ groupedRowIndices arrow (rowIds names rows) names.zipIdx
        = some (found.map (fun name => (name, valuesOf rows.zipIdx name))) := by
  obtain ⟨runs, hsorted, hincreasing, hmem⟩ := runs_spec hlawful (rowIds names rows)
  have hruns : RunsOf names rows runs := ⟨hincreasing, hmem⟩
  have hnodup := hruns.nodup_names hrows hnames
  refine ⟨_, hnodup, hruns.mem_names hrows, ?_⟩
  have hcounts : ∀ named ∈ runs.map (fun run => (names.getD run.1 "", run.2)),
      (valuesOf rows.zipIdx named.1).length = named.2 := by
    intro named hnamed
    obtain ⟨run, hrun, rfl⟩ := List.mem_map.mp hnamed
    exact hruns.length_values hrows hrun
  have hcut := cutRuns_flatMap (fun name => valuesOf rows.zipIdx name) hcounts []
  rw [List.nil_append, List.length_nil, ← hruns.order_eq hrows hlawful, List.map_map] at hcut
  unfold groupedRowIndices
  dsimp only
  rw [hsorted, mapM_names fun run hrun => hruns.lt_length hrows hrun]
  refine congrArg some ?_
  rw [hcut, List.map_map]
  refine Dict.build_of_nodup ?_
  rw [List.map_map]
  exact hnodup

end

/-! ## The groups -/

theorem sorted_groups {found rows : List String} (hnodup : found.Nodup)
    (hmem : ∀ name, name ∈ found ↔ name ∈ rows) :
    (found.map (fun name => (name, valuesOf rows.zipIdx name))).insertionSort
        (fun a b => a.2.headD 0 ≤ b.2.headD 0)
      = groupPositions rows := by
  have hhead : ∀ name ∈ rows, (valuesOf rows.zipIdx name).headD 0 = rows.idxOf name := by
    intro name hname
    rw [List.headD_eq_head?_getD, head_valuesOf_zipIdx hname]
    rfl
  have htotal : Std.Total (fun a b : String × List Nat => a.2.headD 0 ≤ b.2.headD 0) :=
    ⟨fun a b => le_total _ _⟩
  have htrans : IsTrans (String × List Nat) (fun a b => a.2.headD 0 ≤ b.2.headD 0) :=
    ⟨fun a b c => le_trans⟩
  have hperm : found.Perm rows.eraseDups :=
    (List.perm_ext_iff_of_nodup hnodup (nodup_eraseDups rows)).mpr fun name => by
      rw [hmem, List.mem_eraseDups]
  rw [groupPositions_eq]
  refine List.Perm.eq_of_pairwise ?_ (List.pairwise_insertionSort _ _) ?_
    ((List.perm_insertionSort _ _).trans (hperm.map _))
  · -- groups with one first row are one group
    intro a b ha hb hab hba
    rw [(List.perm_insertionSort _ _).mem_iff] at ha
    obtain ⟨name, hname, rfl⟩ := List.mem_map.mp ha
    obtain ⟨other, hother, rfl⟩ := List.mem_map.mp hb
    rw [hmem] at hname
    rw [List.mem_eraseDups] at hother
    have hsame := le_antisymm hab hba
    rw [hhead name hname, hhead other hother] at hsame
    rw [(List.idxOf_inj hname).mp hsame]
  · rw [List.pairwise_map]
    refine (pairwise_idxOf_eraseDups rows).imp_of_mem fun {a b} ha hb hlt => ?_
    show (valuesOf rows.zipIdx a).headD 0 ≤ (valuesOf rows.zipIdx b).headD 0
    rw [hhead a (List.mem_eraseDups.mp ha), hhead b (List.mem_eraseDups.mp hb)]
    exact hlt.le

theorem mem_groupPositions {rows : List String} {entry : String × List Nat}
    (hentry : entry ∈ groupPositions rows) (i : Nat) : i ∈ entry.2 ↔ rows[i]? = some entry.1 := by
  rw [groupPositions_eq] at hentry
  obtain ⟨name, -, rfl⟩ := List.mem_map.mp hentry
  rw [valuesOf, List.mem_map]
  constructor
  · rintro ⟨⟨row, j⟩, hrow, rfl⟩
    rw [List.mem_filter, decide_eq_true_eq] at hrow
    obtain ⟨hrow, rfl⟩ := hrow
    exact List.mem_zipIdx_iff_getElem?.mp hrow
  · intro hget
    refine ⟨(name, i), ?_, rfl⟩
    rw [List.mem_filter, decide_eq_true_eq]
    exact ⟨List.mem_zipIdx_iff_getElem?.mpr hget, rfl⟩

theorem pairwise_groupPositions {rows : List String} {entry : String × List Nat}
    (hentry : entry ∈ groupPositions rows) : entry.2.Pairwise (· < ·) := by
  rw [groupPositions_eq] at hentry
  obtain ⟨name, -, rfl⟩ := List.mem_map.mp hentry
  have hzip : rows.zipIdx.Pairwise (fun a b => a.2 < b.2) := by
    rw [← List.pairwise_map, List.zipIdx_map_snd]
    exact List.pairwise_lt_range'
  rw [valuesOf, List.pairwise_map]
  exact hzip.filter _

variable {m} {arrow}

/-- What grouping row after row gives. -/
structure RowByRow (m : CaseMapping) (column : List (Option String))
    (groups : List (String × List Nat)) : Prop where
  eq_group : groups = group (column.map (partitionName m)).zipIdx
  keys : groups.map Prod.fst = (column.map (partitionName m)).eraseDups
  ascending : ∀ entry ∈ groups, entry.2.Pairwise (· < ·)
  mem_iff : ∀ entry ∈ groups, ∀ i,
    i ∈ entry.2 ↔ ∃ value, column[i]? = some value ∧ partitionName m value = entry.1
  exactly_one : ∀ i < column.length, ∃! entry, entry ∈ groups ∧ i ∈ entry.2

theorem rowByRow_groupPositions (column : List (Option String)) :
    RowByRow m column (groupPositions (column.map (partitionName m))) := by
  have hkeys : (groupPositions (column.map (partitionName m))).map Prod.fst
      = (column.map (partitionName m)).eraseDups := by
    rw [groupPositions, keys_group, List.zipIdx_map_fst]
  refine ⟨rfl, hkeys, fun entry => pairwise_groupPositions, fun entry hentry i => ?_, fun i hi => ?_⟩
  · rw [mem_groupPositions hentry, List.getElem?_map, Option.map_eq_some_iff]
  · -- the row is under its name
    have hname : (column.map (partitionName m))[i]? = some (partitionName m column[i]) := by
      rw [List.getElem?_map, List.getElem?_eq_getElem hi]
      rfl
    have hkey : partitionName m column[i]
        ∈ (groupPositions (column.map (partitionName m))).map Prod.fst := by
      rw [hkeys, List.mem_eraseDups]
      exact List.mem_map_of_mem (List.getElem_mem hi)
    obtain ⟨entry, hentry, hfst⟩ := List.mem_map.mp hkey
    refine ⟨entry, ⟨hentry, (mem_groupPositions hentry i).mpr (hfst ▸ hname)⟩, ?_⟩
    rintro other ⟨hother, hin⟩
    have hsame := (mem_groupPositions hother i).mp hin
    rw [hname, ← hfst] at hsame
    have hnodup : ((groupPositions (column.map (partitionName m))).map Prod.fst).Nodup :=
      hkeys ▸ nodup_eraseDups _
    exact List.inj_on_of_nodup_map hnodup hother hentry (Option.some.inj hsame).symm

/-- **Grouping by one sort is grouping row after row.** -/
theorem partitionRowIndices_eq (hlawful : arrow.Lawful) (column : List (Option String)) :
    ∃ groups, partitionRowIndices m arrow column = some groups ∧ RowByRow m column groups := by
  refine ⟨groupPositions (column.map (partitionName m)), ?_, rowByRow_groupPositions column⟩
  unfold partitionRowIndices
  split
  · rename_i hempty
    rw [List.eq_nil_of_length_eq_zero hempty]
    rfl
  · have hspec := partitionNamesByCode_spec (m := m) hlawful column
    generalize partitionNamesByCode m arrow column = named at hspec
    obtain ⟨namesByCode, codes⟩ := named
    have hcodes : List.Forall₂ (fun row code => namesByCode[code]? = some row)
        (column.map (partitionName m)) codes := List.forall₂_map_left_iff.mpr hspec
    have hids := partitionIds_eq hcodes
    obtain ⟨found, hnodup, hmem, hgrouped⟩ := groupedRowIndices_spec hlawful
      (nodup_eraseDups namesByCode) (mem_of_codes hcodes)
    dsimp only
    rw [hids, denseIds_eq]
    show (groupedRowIndices arrow (rowIds namesByCode.eraseDups (column.map (partitionName m)))
      namesByCode.eraseDups.zipIdx >>= _) = _
    rw [hgrouped]
    exact congrArg some (sorted_groups hnodup hmem)

namespace Example

/-- Values in the order of their first occurrences. -/
def dictionaryOf (column : List (Option String)) : List String := (column.filterMap id).eraseDups

/-- The values, each with the number of its occurrences. -/
def countsOf {A : Type} [DecidableEq A] (values : List A) : List (A × Nat) :=
  values.eraseDups.map (fun value => (value, values.count value))

theorem nodup_countsOf {A : Type} [DecidableEq A] (values : List A) :
    ((countsOf values).map Prod.fst).Nodup := by
  rw [countsOf, List.map_map,
    show Prod.fst ∘ (fun value => (value, values.count value)) = id from rfl, List.map_id]
  exact nodup_eraseDups values

theorem mem_countsOf {A : Type} [DecidableEq A] (values : List A) (value : A) (count : Nat) :
    (value, count) ∈ countsOf values ↔ value ∈ values ∧ count = values.count value := by
  simp only [countsOf, List.mem_map, List.mem_eraseDups, Prod.mk.injEq]
  constructor
  · rintro ⟨other, hother, rfl, rfl⟩
    exact ⟨hother, rfl⟩
  · rintro ⟨hvalue, rfl⟩
    exact ⟨value, hvalue, rfl, rfl⟩

/-- Positions in the order of their identifiers. -/
abbrev NotAfter (ids : List Nat) (i j : Nat) : Prop :=
  ids.getD i 0 < ids.getD j 0 ∨ (ids.getD i 0 = ids.getD j 0 ∧ i ≤ j)

def listArrow : Arrow where
  dictionaryEncode := fun column =>
    (dictionaryOf column, column.map (fun value => value.map (fun v => (dictionaryOf column).idxOf v)))
  arraySortIndices := fun ids => (List.range ids.length).insertionSort (NotAfter ids)
  valueCounts := countsOf
  languageCounts := countsOf

theorem encodes_listArrow (column : List (Option String)) :
    List.Forall₂ (Encodes (listArrow.dictionaryEncode column).1) column
      (listArrow.dictionaryEncode column).2 := by
  show List.Forall₂ _ column (column.map _)
  rw [List.forall₂_map_right_iff, List.forall₂_same]
  intro value hvalue
  cases value with
  | none => exact ⟨rfl, fun _ => rfl⟩
  | some v =>
    have hmem : v ∈ dictionaryOf column :=
      List.mem_eraseDups.mpr (List.mem_filterMap.mpr ⟨some v, hvalue, rfl⟩)
    refine ⟨?_, fun h => by cases h⟩
    show some v = (dictionaryOf column)[(dictionaryOf column).idxOf v]?
    rw [List.getElem?_idxOf hmem]

theorem lawful_listArrow : listArrow.Lawful where
  encodes := encodes_listArrow
  sort_perm := fun ids => List.perm_insertionSort _ _
  sort_stable := by
    intro ids
    have htotal : Std.Total (NotAfter ids) := ⟨fun i j => by unfold NotAfter; omega⟩
    have htrans : IsTrans Nat (NotAfter ids) := ⟨fun i j k => by unfold NotAfter; omega⟩
    have hsorted := List.pairwise_insertionSort (NotAfter ids) (List.range ids.length)
    have hnodup := (List.perm_insertionSort (NotAfter ids)
      (List.range ids.length)).nodup_iff.mpr List.nodup_range
    refine hsorted.imp₂ (fun i j hle hne => ?_) hnodup
    simp only [NotAfter, KeyBefore] at hle ⊢
    omega
  counts_nodup := nodup_countsOf
  counts_iff := mem_countsOf
  languages_nodup := nodup_countsOf
  languages_iff := by
    intro column value count
    have hcount := mem_countsOf column value count
    rwa [lawful_beq_subsingleton instBEqOfDecidableEq (Option.instBEq)] at hcount

/-- Two spellings of one language, a null and a blank, whose partitions are taken in turns. -/
theorem rows_grouped : ∃ groups,
    partitionRowIndices mapping listArrow [some "en", none, some "fr", some "EN", some " ", some "en"]
      = some groups
    ∧ RowByRow mapping [some "en", none, some "fr", some "EN", some " ", some "en"] groups :=
  partitionRowIndices_eq lawful_listArrow _

example : partitionRowIndices mapping listArrow
    [some "en", none, some "fr", some "EN", some " ", some "en"]
      = some [("en", [0, 3, 5]), ("unknown", [1, 4]), ("fr", [2])] := by
  decide +kernel

end Example

end OsmPolygonWikidata.LanguageSplits
