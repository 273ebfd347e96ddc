import OsmPolygonWikidata.Basic.Batches
import OsmPolygonWikidata.Basic.StableRuns

/-! # Routing rows to keys

A loop reads a stream piece by piece and appends what it reads to the streams of the keys. Groups of
positions route the rows of one piece, and chunks cut the stream of one key.
-/

namespace Python

variable {A K X : Type}

/-! ## Loops that append -/

/-- **A loop that appends.** Each step adds its part to the stream of each key. -/
theorem foldlM_adds {S E : Type} {step : S → A → Except E S} {Inv : S → (K → List X) → Prop}
    {add : A → K → List X} {as : List A}
    (hstep : ∀ a ∈ as, ∀ s routed, Inv s routed →
      ∃ s', step s a = .ok s' ∧ Inv s' (fun k => routed k ++ add a k))
    {s : S} {routed : K → List X} (h : Inv s routed) :
    ∃ s', as.foldlM step s = .ok s' ∧ Inv s' (fun k => routed k ++ as.flatMap (fun a => add a k)) := by
  induction as generalizing s routed with
  | nil => exact ⟨s, rfl, by simpa using h⟩
  | cons a as ih =>
    obtain ⟨s₁, hfirst, h₁⟩ := hstep a List.mem_cons_self s routed h
    obtain ⟨s', hrest, h'⟩ := ih (fun a ha => hstep a (List.mem_cons_of_mem _ ha)) h₁
    refine ⟨s', ?_, ?_⟩
    · rw [List.foldlM_cons, hfirst]
      exact hrest
    · simpa only [List.flatMap_cons, List.append_assoc] using h'

theorem foldlM_reads {S E : Type} {step : S → A → Except E S} {Inv : S → List X → Prop}
    {read : A → List X} {as : List A}
    (hstep : ∀ a ∈ as, ∀ s stream, Inv s stream →
      ∃ s', step s a = .ok s' ∧ Inv s' (stream ++ read a))
    {s : S} {stream : List X} (h : Inv s stream) :
    ∃ s', as.foldlM step s = .ok s' ∧ Inv s' (stream ++ as.flatMap read) :=
  @foldlM_adds A Unit X S E step (fun s routed => Inv s (routed ())) (fun a _ => read a) as
    (fun a ha s routed => hstep a ha s (routed ())) s (fun _ => stream) h

/-! ## The rows of a group -/

/-- The rows at the positions. -/
def takeRows (rows : List X) (positions : List Nat) : List X := positions.filterMap (fun i => rows[i]?)

section

variable [DecidableEq K]

theorem length_takeRows {rows : List X} {positions : List Nat}
    (h : ∀ i ∈ positions, i < rows.length) : (takeRows rows positions).length = positions.length := by
  induction positions with
  | nil => rfl
  | cons i positions ih =>
    have hi : rows[i]? = some (rows.get ⟨i, h i List.mem_cons_self⟩) :=
      List.getElem?_eq_getElem _
    rw [takeRows, List.filterMap_cons_some hi, List.length_cons, List.length_cons]
    exact congrArg (· + 1) (ih fun j hj => h j (List.mem_cons_of_mem _ hj))

theorem lt_length_of_mem_valuesOf {names : List K} {k : K} {i : Nat}
    (hi : i ∈ valuesOf names.zipIdx k) : i < names.length := by
  rw [valuesOf, List.mem_map] at hi
  obtain ⟨⟨name, j⟩, hentry, rfl⟩ := hi
  simpa using List.snd_lt_of_mem_zipIdx (List.mem_of_mem_filter hentry)

theorem takeRows_valuesOf (key : X → K) (rows : List X) (k : K) :
    takeRows rows (valuesOf (rows.map key).zipIdx k) = rows.filter (fun row => key row = k) := by
  induction rows using List.reverseRecOn with
  | nil => rfl
  | append_singleton rows row ih =>
    rw [List.map_append, List.map_singleton, valuesOf_zipIdx_concat, takeRows,
      List.filterMap_append, List.filter_append, List.length_map]
    congr 1
    · rw [← ih]
      refine List.filterMap_congr fun i hi => ?_
      have hlt : i < rows.length := by
        simpa using lt_length_of_mem_valuesOf hi
      exact List.getElem?_append_left hlt
    · by_cases h : key row = k <;> simp [h]

theorem flatMap_group {V : Type} {entries : List (K × V)} (hnodup : (entries.map Prod.fst).Nodup)
    (f : V → List X) (k : K) :
    entries.flatMap (fun entry => if k = entry.1 then f entry.2 else [])
      = ((entries.lookup k).map f).getD [] := by
  induction entries with
  | nil => rfl
  | cons entry entries ih =>
    obtain ⟨k', v⟩ := entry
    rw [List.map_cons, List.nodup_cons] at hnodup
    rw [List.flatMap_cons, ih hnodup.2, List.lookup_cons]
    by_cases h : k = k'
    · subst h
      have hnone : entries.lookup k = none := by
        rw [List.lookup_eq_none_iff]
        rintro ⟨other, v'⟩ hentry
        rw [bne_iff_ne]
        rintro rfl
        exact hnodup.1 (List.mem_map.mpr ⟨_, hentry, rfl⟩)
      simp [hnone]
    · rw [if_neg h, beq_eq_false_iff_ne.mpr h, List.nil_append]

/-- What a group adds to a key. -/
def groupRows (rows : List X) (group : K × List Nat) (k : K) : List X :=
  if k = group.1 then takeRows rows group.2 else []

/-- **Groups route the rows**, in whatever order the groups are taken. -/
theorem flatMap_groupRows (key : X → K) (rows : List X) {groups : List (K × List Nat)}
    (hperm : groups.Perm (groupPositions (rows.map key))) (k : K) :
    groups.flatMap (fun group => groupRows rows group k) = rows.filter (fun row => key row = k) := by
  have hnodup : (groups.map Prod.fst).Nodup :=
    (hperm.map Prod.fst).nodup_iff.mpr (nodup_keys_group _)
  show groups.flatMap (fun group => if k = group.1 then takeRows rows group.2 else []) = _
  rw [flatMap_group hnodup, ← takeRows_valuesOf]
  cases hlookup : groups.lookup k with
  | some positions =>
    have hmem := hperm.mem_iff.mp (mem_of_lookup_eq_some hlookup)
    rw [Option.map_some, Option.getD_some, (mem_group_iff.mp hmem).1]
  | none =>
    have hempty : valuesOf (rows.map key).zipIdx k = [] := by
      by_contra hne
      have hmem := hperm.mem_iff.mpr (mem_group_iff.mpr ⟨rfl, hne⟩)
      rw [List.lookup_eq_none_iff] at hlookup
      simpa using hlookup _ hmem
    rw [hempty]
    rfl

theorem positions_of_mem_groupPositions {key : X → K} {rows : List X} {group : K × List Nat}
    (h : group ∈ groupPositions (rows.map key)) :
    group.2 ≠ [] ∧ (takeRows rows group.2).length = group.2.length := by
  obtain ⟨k, positions⟩ := group
  obtain ⟨rfl, hne⟩ := mem_group_iff.mp h
  exact ⟨hne, length_takeRows fun i hi => by simpa using lt_length_of_mem_valuesOf hi⟩

theorem flatMap_unique {keys : List K} (hkeys : keys.Nodup) {f : K → List X} {k : K}
    (hother : ∀ k' ∈ keys, k' ≠ k → f k' = []) (hmissing : k ∉ keys → f k = []) :
    keys.flatMap f = f k := by
  induction keys with
  | nil => exact (hmissing List.not_mem_nil).symm
  | cons k' keys ih =>
    rw [List.nodup_cons] at hkeys
    rw [List.flatMap_cons]
    by_cases h : k' = k
    · subst h
      have hrest : keys.flatMap f = [] := by
        rw [List.flatMap_eq_nil_iff]
        intro k'' hk''
        exact hother k'' (List.mem_cons_of_mem _ hk'') fun heq => hkeys.1 (heq ▸ hk'')
      rw [hrest, List.append_nil]
    · rw [hother k' List.mem_cons_self h, List.nil_append]
      refine ih hkeys.2 (fun k'' hk'' => hother k'' (List.mem_cons_of_mem _ hk'')) fun hnot => ?_
      refine hmissing fun hmem => hnot ((List.mem_cons.mp hmem).resolve_left ?_)
      exact fun heq => h heq.symm

theorem perm_flatMap_filter (key : X → K) {keys : List K} (hkeys : keys.Nodup) {rows : List X}
    (hcover : ∀ row ∈ rows, key row ∈ keys) :
    (keys.flatMap (fun k => rows.filter (fun row => key row = k))).Perm rows := by
  induction keys generalizing rows with
  | nil =>
    rw [List.eq_nil_iff_forall_not_mem.mpr fun row hrow => List.not_mem_nil (hcover row hrow)]
    rfl
  | cons k keys ih =>
    rw [List.nodup_cons] at hkeys
    -- the rows of the other keys are not rows of the first one
    have hrest : keys.flatMap (fun k' => rows.filter (fun row => key row = k'))
        = keys.flatMap (fun k' => (rows.filter (fun row => ¬ key row = k)).filter
          (fun row => key row = k')) := by
      refine List.flatMap_congr fun k' hk' => ?_
      rw [List.filter_filter]
      refine List.filter_congr fun row _ => ?_
      by_cases h : key row = k'
      · have hne : ¬ k' = k := fun heq => hkeys.1 (heq ▸ hk')
        simp [h, hne]
      · simp [h]
    have hothers : ∀ row ∈ rows.filter (fun row => ¬ key row = k), key row ∈ keys := by
      intro row hrow
      rw [List.mem_filter, decide_eq_true_eq] at hrow
      exact (List.mem_cons.mp (hcover row hrow.1)).resolve_left hrow.2
    rw [List.flatMap_cons, hrest]
    refine ((ih hkeys.2 hothers).append_left _).trans ?_
    simpa using List.filter_append_perm (fun row => decide (key row = k)) rows

end

/-! ## Cutting a stream -/

variable {size : Nat} {items : List A}

theorem chunks_concat {front tail : List A} (hfront : size ∣ front.length) (hne : tail ≠ [])
    (hle : tail.length ≤ size) : chunks (front ++ tail) size = chunks front size ++ [tail] := by
  obtain ⟨n, hn⟩ := hfront
  have hpos := List.length_pos_of_ne_nil hne
  have hsize : 0 < size := by omega
  have hcount : (front.length + size - 1) / size = n := by
    rw [hn, Nat.add_sub_assoc hsize, Nat.mul_add_div hsize, Nat.div_eq_of_lt (by omega), Nat.add_zero]
  have hcount' : ((front ++ tail).length + size - 1) / size = n + 1 := by
    rw [List.length_append, hn, show size * n + tail.length + size - 1
      = size * n + (tail.length - 1 + size) by omega, Nat.mul_add_div hsize, Nat.add_div_right _ hsize,
      Nat.div_eq_of_lt (by omega)]
  rw [chunks, chunks, hcount, hcount', List.range_succ, List.map_append, List.map_singleton]
  congr 1
  · refine List.map_congr_left fun i hi => ?_
    have hend : i * size + size ≤ front.length := by
      rw [hn, ← Nat.succ_mul, mul_comm size]
      exact Nat.mul_le_mul_right size (List.mem_range.mp hi)
    rw [List.drop_append_of_le_length (by omega),
      List.take_append_of_le_length (by rw [List.length_drop]; omega)]
  · rw [show n * size = front.length by rw [hn, mul_comm], List.drop_left, List.take_of_length_le hle]

theorem chunks_nil (hsize : 0 < size) : chunks ([] : List A) size = [] := by
  rw [chunks, List.length_nil, Nat.zero_add, Nat.div_eq_of_lt (by omega)]
  rfl

theorem length_chunks (items : List A) (size : Nat) :
    (chunks items size).length = (items.length + size - 1) / size := by
  rw [chunks, List.length_map, List.length_range]

theorem length_getElem_chunks {i : Nat} (hi : i < (chunks items size).length) :
    ((chunks items size)[i]).length = min size (items.length - i * size) := by
  simp [chunks]

theorem chunks_ne_nil (hsize : 0 < size) : ∀ chunk ∈ chunks items size, chunk ≠ [] := by
  intro chunk hchunk
  obtain ⟨i, hi, rfl⟩ := List.getElem_of_mem hchunk
  rw [← List.length_pos_iff, length_getElem_chunks]
  rw [length_chunks] at hi
  have hlt : i * size < items.length := by
    have hle := (Nat.le_div_iff_mul_le hsize).mp hi
    rw [Nat.succ_mul] at hle
    omega
  omega

theorem length_chunk_of_not_last {i : Nat} (hsize : 0 < size)
    (hi : i + 1 < (chunks items size).length) : ((chunks items size)[i]).length = size := by
  rw [length_getElem_chunks]
  rw [length_chunks] at hi
  have hle := (Nat.le_div_iff_mul_le hsize).mp hi
  rw [Nat.succ_mul, Nat.succ_mul] at hle
  omega

end Python
