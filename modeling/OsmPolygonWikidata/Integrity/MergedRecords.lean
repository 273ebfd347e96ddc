import OsmPolygonWikidata.Integrity.RejectionLedger

/-! # Merged records

`merge_records` keeps one record for each identity, with the largest cascade and the reason that
was met first, and sorts the records by four of the five parts of the identity. The sort is stable:
of the records with one sort key, the one that was met first comes first. A record is absorbed by a
list that has its identity first under its sort key, with its reason and a cascade as large: the
merge does not notice it.
-/

namespace OsmPolygonWikidata.Integrity

open Python

/-! ## Merging records -/

theorem map_identity_mergeRecord (r : RejectionRecord) (l : List RejectionRecord) :
    (mergeRecord r l).map RejectionRecord.identity
      = if r.identity ∈ l.map RejectionRecord.identity then l.map RejectionRecord.identity
        else l.map RejectionRecord.identity ++ [r.identity] := by
  induction l with
  | nil => simp [mergeRecord]
  | cons x l ih =>
    rw [mergeRecord]
    by_cases hx : x.identity = r.identity
    · rw [if_pos hx, if_pos (by simp [hx])]
      rfl
    · rw [if_neg hx, List.map_cons, ih, List.map_cons]
      by_cases hmem : r.identity ∈ l.map RejectionRecord.identity
      · rw [if_pos hmem, if_pos (List.mem_cons_of_mem _ hmem)]
      · rw [if_neg hmem, if_neg, List.cons_append]
        rw [List.mem_cons, not_or]
        exact ⟨fun h => hx h.symm, hmem⟩

variable {r : RejectionRecord} {l : List RejectionRecord} {r' : RejectionRecord}

theorem mergeRecord_of_new (h : r.identity ∉ l.map RejectionRecord.identity) :
    mergeRecord r l = l ++ [r] := by
  induction l with
  | nil => rfl
  | cons x l ih =>
    rw [List.map_cons, List.mem_cons, not_or] at h
    rw [mergeRecord, if_neg (fun hx => h.1 hx.symm), ih h.2, List.cons_append]

/-- The dictionary of `merge_records`. -/
def byIdentity (records : List RejectionRecord) : List RejectionRecord :=
  records.foldl (fun d r => mergeRecord r d) []

theorem byIdentity_concat (records : List RejectionRecord) (r : RejectionRecord) :
    byIdentity (records ++ [r]) = mergeRecord r (byIdentity records) := by
  rw [byIdentity, List.foldl_append]
  rfl

theorem nodup_byIdentity (records : List RejectionRecord) :
    ((byIdentity records).map RejectionRecord.identity).Nodup := by
  induction records using List.reverseRecOn with
  | nil => exact List.nodup_nil
  | append_singleton records r ih =>
    rw [byIdentity_concat, map_identity_mergeRecord]
    split
    · exact ih
    · rename_i hmem
      rw [← List.concat_eq_append]
      exact ih.concat hmem

theorem byIdentity_of_nodup {records : List RejectionRecord}
    (h : (records.map RejectionRecord.identity).Nodup) : byIdentity records = records := by
  induction records using List.reverseRecOn with
  | nil => rfl
  | append_singleton records r ih =>
    rw [List.map_append, List.nodup_append] at h
    rw [byIdentity_concat, ih h.1, mergeRecord_of_new]
    intro hmem
    exact h.2.2 _ hmem _ (by simp) rfl

theorem sortRecords_sorted (records : List RejectionRecord) :
    (sortRecords records).Pairwise (fun a b => a.sortKey ≤ b.sortKey) :=
  List.pairwise_insertionSort _ _

theorem sortRecords_of_sorted {records : List RejectionRecord}
    (h : records.Pairwise (fun a b => a.sortKey ≤ b.sortKey)) : sortRecords records = records :=
  h.insertionSort_eq

theorem perm_sortRecords (records : List RejectionRecord) :
    (sortRecords records).Perm records := List.perm_insertionSort _ _

@[simp] theorem sortRecords_mergeRecords (records : List RejectionRecord) :
    sortRecords (mergeRecords records) = mergeRecords records :=
  sortRecords_of_sorted (sortRecords_sorted _)

/-- **Merging twice is merging once.** -/
@[simp] theorem mergeRecords_idem (records : List RejectionRecord) :
    mergeRecords (mergeRecords records) = mergeRecords records := by
  have hnodup : ((mergeRecords records).map RejectionRecord.identity).Nodup :=
    (((perm_sortRecords _).map _).nodup_iff).mpr (nodup_byIdentity records)
  calc mergeRecords (mergeRecords records)
      = sortRecords (byIdentity (mergeRecords records)) := rfl
    _ = sortRecords (mergeRecords records) := by rw [byIdentity_of_nodup hnodup]
    _ = mergeRecords records := sortRecords_mergeRecords records

/-! ## What a merge keeps -/

theorem sortKey_of_identity (h : r.identity = r'.identity) :
    r.sortKey = r'.sortKey ∧ r.expected = r'.expected := by
  simp only [RejectionRecord.identity, Prod.mk.injEq] at h
  obtain ⟨hshard, htable, hidentifier, hwikidata, hexpected⟩ := h
  exact ⟨by simp [RejectionRecord.sortKey, hshard, htable, hidentifier, hwikidata], hexpected⟩

theorem identity_of_sortKey (hkey : r.sortKey = r'.sortKey) (hexpected : r.expected = r'.expected) :
    r.identity = r'.identity := by
  simp only [RejectionRecord.sortKey, List.cons.injEq, and_true] at hkey
  obtain ⟨hshard, htable, hidentifier, hwikidata⟩ := hkey
  simp [RejectionRecord.identity, hshard, htable, hidentifier, hwikidata, hexpected]

theorem RejectionRecord.eq_of (h : r.identity = r'.identity) (hreason : r.reason = r'.reason)
    (hcascades : r.cascadedSections = r'.cascadedSections) : r = r' := by
  cases r
  cases r'
  simp_all [RejectionRecord.identity]

/-- A record of a merged list: the largest cascade of its identity, and a reason of it. -/
structure Merged (records : List RejectionRecord) (x : RejectionRecord) : Prop where
  largest : ∃ r ∈ records, r.identity = x.identity ∧ r.cascadedSections = x.cascadedSections
  le : ∀ r ∈ records, r.identity = x.identity → r.cascadedSections ≤ x.cascadedSections
  reason : ∃ r ∈ records, r.identity = x.identity ∧ r.reason = x.reason

theorem mem_mergeRecord {x : RejectionRecord} (hl : (l.map RejectionRecord.identity).Nodup)
    (h : x ∈ mergeRecord r l) :
    (x ∈ l ∧ x.identity ≠ r.identity) ∨ (x = r ∧ r.identity ∉ l.map RejectionRecord.identity)
    ∨ ∃ y ∈ l, y.identity = r.identity
      ∧ x = { y with cascadedSections := max y.cascadedSections r.cascadedSections } := by
  induction l with
  | nil => exact Or.inr (Or.inl ⟨List.mem_singleton.mp h, by simp⟩)
  | cons y l ih =>
    rw [List.map_cons, List.nodup_cons] at hl
    rw [mergeRecord] at h
    by_cases hy : y.identity = r.identity
    · rw [if_pos hy] at h
      rcases List.mem_cons.mp h with rfl | hin
      · exact Or.inr (Or.inr ⟨y, List.mem_cons_self, hy, rfl⟩)
      · refine Or.inl ⟨List.mem_cons_of_mem _ hin, fun hx => hl.1 ?_⟩
        rw [hy, ← hx]
        exact List.mem_map_of_mem hin
    · rw [if_neg hy] at h
      rcases List.mem_cons.mp h with rfl | hin
      · exact Or.inl ⟨List.mem_cons_self, hy⟩
      · rcases ih hl.2 hin with ⟨hmem, hne⟩ | ⟨rfl, hnew⟩ | ⟨z, hz, hid, heq⟩
        · exact Or.inl ⟨List.mem_cons_of_mem _ hmem, hne⟩
        · refine Or.inr (Or.inl ⟨rfl, ?_⟩)
          rw [List.map_cons, List.mem_cons, not_or]
          exact ⟨fun heq => hy heq.symm, hnew⟩
        · exact Or.inr (Or.inr ⟨z, List.mem_cons_of_mem _ hz, hid, heq⟩)

theorem mem_map_byIdentity {records : List RejectionRecord}
    {i : String × String × String × String × Option String} :
    i ∈ (byIdentity records).map RejectionRecord.identity
      ↔ i ∈ records.map RejectionRecord.identity := by
  induction records using List.reverseRecOn with
  | nil => rfl
  | append_singleton records r ih =>
    rw [byIdentity_concat, map_identity_mergeRecord, List.map_append, List.mem_append, ← ih]
    split
    · rename_i hmem
      refine ⟨Or.inl, fun h => h.elim id fun hin => ?_⟩
      rwa [List.mem_singleton.mp hin]
    · rw [List.mem_append]
      simp

theorem merged_of_mem {records : List RejectionRecord} {x : RejectionRecord}
    (h : x ∈ byIdentity records) : Merged records x := by
  induction records using List.reverseRecOn generalizing x with
  | nil => cases h
  | append_singleton records r ih =>
    rw [byIdentity_concat] at h
    have hlast : r ∈ records ++ [r] := by simp
    have hbefore : ∀ y ∈ records, y ∈ records ++ [r] := fun y hy => List.mem_append_left _ hy
    rcases mem_mergeRecord (nodup_byIdentity records) h with ⟨hmem, hne⟩ | ⟨rfl, hnew⟩
      | ⟨y, hmem, hid, rfl⟩
    · -- another identity
      obtain ⟨⟨a, ha, haid, hcascades⟩, hle, b, hb, hbid, hreason⟩ := ih hmem
      refine ⟨⟨a, hbefore a ha, haid, hcascades⟩, fun c hc hcid => ?_,
        b, hbefore b hb, hbid, hreason⟩
      rcases List.mem_append.mp hc with hc | hc
      · exact hle c hc hcid
      · rw [List.mem_singleton.mp hc] at hcid
        exact absurd hcid.symm hne
    · -- the first record of its identity
      refine ⟨⟨x, hlast, rfl, rfl⟩, fun c hc hcid => ?_, x, hlast, rfl, rfl⟩
      rcases List.mem_append.mp hc with hc | hc
      · rw [mem_map_byIdentity, ← hcid] at hnew
        exact absurd (List.mem_map_of_mem hc) hnew
      · rw [List.mem_singleton.mp hc]
    · obtain ⟨⟨a, ha, haid, hcascades⟩, hle, b, hb, hbid, hreason⟩ := ih hmem
      refine ⟨?_, fun c hc hcid => ?_, b, hbefore b hb, hbid, hreason⟩
      · show ∃ z ∈ records ++ [r], z.identity = y.identity
          ∧ z.cascadedSections = max y.cascadedSections r.cascadedSections
        rcases le_total y.cascadedSections r.cascadedSections with hmax | hmax
        · exact ⟨r, hlast, hid.symm, (max_eq_right hmax).symm⟩
        · exact ⟨a, hbefore a ha, haid, hcascades.trans (max_eq_left hmax).symm⟩
      · rcases List.mem_append.mp hc with hc | hc
        · exact (hle c hc hcid).trans (le_max_left _ _)
        · rw [List.mem_singleton.mp hc]
          exact le_max_right _ _

theorem mergeRecord_of_mem (hr : r ∈ l) (hsame : ∀ x ∈ l, x.identity = r.identity → x = r) :
    mergeRecord r l = l := by
  induction l with
  | nil => exact absurd hr List.not_mem_nil
  | cons x l ih =>
    rw [mergeRecord]
    by_cases hx : x.identity = r.identity
    · rw [if_pos hx, hsame x List.mem_cons_self hx, max_self]
    · rw [if_neg hx]
      have hrest : r ∈ l := by
        rcases List.mem_cons.mp hr with rfl | hr
        · exact absurd rfl hx
        · exact hr
      rw [ih hrest (fun y hy => hsame y (List.mem_cons_of_mem x hy))]

theorem mem_mergeRecords_iff {records : List RejectionRecord}
    (hsame : ∀ x ∈ records, ∀ y ∈ records, x.identity = y.identity → x = y) :
    r ∈ mergeRecords records ↔ r ∈ records := by
  have hdict : ∀ x, x ∈ byIdentity records ↔ x ∈ records := by
    induction records using List.reverseRecOn with
    | nil => exact fun x => Iff.rfl
    | append_singleton records last ih =>
      have hmem := ih (fun x hx y hy =>
        hsame x (List.mem_append_left _ hx) y (List.mem_append_left _ hy))
      intro x
      rw [byIdentity_concat, List.mem_append, List.mem_singleton]
      by_cases hlast : last ∈ records
      · rw [mergeRecord_of_mem ((hmem last).mpr hlast), hmem x, or_iff_left_of_imp]
        · rintro rfl
          exact hlast
        · intro y hy heq
          exact hsame y (List.mem_append_left _ ((hmem y).mp hy)) last (by simp) heq
      · rw [mergeRecord_of_new, List.mem_append, List.mem_singleton, hmem x]
        intro hidentity
        obtain ⟨y, hy, heq⟩ := List.mem_map.mp hidentity
        have hsame' := hsame y (List.mem_append_left _ ((hmem y).mp hy)) last (by simp) heq
        rw [← hsame'] at hlast
        exact hlast ((hmem y).mp hy)
  exact ((perm_sortRecords _).mem_iff).trans (hdict r)

section

variable {records records' : List RejectionRecord}

/-! ## The first record of a sort key

It keeps its place through the merge and through the sort. -/

/-- What the first record of a sort key expects, and its reason. -/
def firstTag (key : List String) (records : List RejectionRecord) :
    Option (Option String × String) :=
  (records.find? (fun r => r.sortKey = key)).map (fun r => (r.expected, r.reason))

theorem firstTag_mergeRecord (key : List String) (r : RejectionRecord) (l : List RejectionRecord) :
    firstTag key (mergeRecord r l) = firstTag key (l ++ [r]) := by
  induction l with
  | nil => rfl
  | cons x l ih =>
    rw [mergeRecord]
    by_cases hx : x.identity = r.identity
    · rw [if_pos hx]
      by_cases hkey : x.sortKey = key
      · have hkey' : ({ x with
            cascadedSections := max x.cascadedSections r.cascadedSections } :
            RejectionRecord).sortKey = key := hkey
        simp [firstTag, hkey, hkey']
      · -- neither the record nor the one merged into it has the key
        have hkey' : ({ x with
            cascadedSections := max x.cascadedSections r.cascadedSections } :
            RejectionRecord).sortKey ≠ key := hkey
        have hr : r.sortKey ≠ key := fun h => hkey ((sortKey_of_identity hx).1.trans h)
        simp [firstTag, hkey, hkey', hr, List.find?_append]
    · rw [if_neg hx]
      by_cases hkey : x.sortKey = key
      · simp [firstTag, hkey]
      · simpa [firstTag, hkey] using ih

theorem firstTag_append (key : List String) (l l' : List RejectionRecord) :
    firstTag key (l ++ l') = (firstTag key l).or (firstTag key l') := by
  rw [firstTag, List.find?_append, Option.map_or]
  rfl

theorem firstTag_byIdentity (key : List String) (records : List RejectionRecord) :
    firstTag key (byIdentity records) = firstTag key records := by
  induction records using List.reverseRecOn with
  | nil => rfl
  | append_singleton records r ih =>
    rw [byIdentity_concat, firstTag_mergeRecord, firstTag_append, ih, ← firstTag_append]

theorem filter_sortRecords (key : List String) (records : List RejectionRecord) :
    (sortRecords records).filter (fun r => r.sortKey = key)
      = records.filter (fun r => r.sortKey = key) := by
  have hsorted : (records.filter (fun r => r.sortKey = key)).Pairwise
      (fun a b => a.sortKey ≤ b.sortKey) := by
    refine List.pairwise_of_forall_mem_list fun a ha b hb => ?_
    rw [of_decide_eq_true (List.mem_filter.mp ha).2, of_decide_eq_true (List.mem_filter.mp hb).2]
  have hsub : (records.filter (fun r => r.sortKey = key)).Sublist
      ((sortRecords records).filter (fun r => r.sortKey = key)) := by
    have hin := (List.sublist_insertionSort hsorted List.filter_sublist).filter
      (fun r : RejectionRecord => r.sortKey = key)
    simp only [List.filter_filter, Bool.and_self] at hin
    exact hin
  exact (hsub.eq_of_length ((perm_sortRecords records).filter _).length_eq.symm).symm

theorem firstTag_mergeRecords (key : List String) (records : List RejectionRecord) :
    firstTag key (mergeRecords records) = firstTag key records := by
  rw [← firstTag_byIdentity key records]
  show firstTag key (sortRecords (byIdentity records)) = firstTag key (byIdentity records)
  rw [firstTag, ← List.head?_filter, filter_sortRecords, List.head?_filter]
  rfl

/-! ## Sorted lists

A sorted list is determined by what it has under each sort key. -/

theorem mem_iff_of_filter_sortKey {l l' : List RejectionRecord}
    (h : ∀ key, l.filter (fun r => r.sortKey = key) = l'.filter (fun r => r.sortKey = key))
    (r : RejectionRecord) : r ∈ l ↔ r ∈ l' := by
  have hr := congrArg (r ∈ ·) (h r.sortKey)
  simpa using hr

theorem eq_of_filter_sortKey {l l' : List RejectionRecord}
    (hl : l.Pairwise (fun a b => a.sortKey ≤ b.sortKey))
    (hl' : l'.Pairwise (fun a b => a.sortKey ≤ b.sortKey))
    (h : ∀ key, l.filter (fun r => r.sortKey = key) = l'.filter (fun r => r.sortKey = key)) :
    l = l' := by
  induction l generalizing l' with
  | nil =>
    cases l' with
    | nil => rfl
    | cons b l' =>
      exact absurd ((mem_iff_of_filter_sortKey h b).mpr List.mem_cons_self) List.not_mem_nil
  | cons a l ih =>
    have hmem := mem_iff_of_filter_sortKey h
    cases l' with
    | nil => exact absurd ((hmem a).mp List.mem_cons_self) List.not_mem_nil
    | cons b l' =>
      have hab : a.sortKey ≤ b.sortKey := by
        rcases List.mem_cons.mp ((hmem b).mpr List.mem_cons_self) with rfl | hin
        · exact le_refl _
        · exact List.rel_of_pairwise_cons hl hin
      have hba : b.sortKey ≤ a.sortKey := by
        rcases List.mem_cons.mp ((hmem a).mp List.mem_cons_self) with rfl | hin
        · exact le_refl _
        · exact List.rel_of_pairwise_cons hl' hin
      have hkey : b.sortKey = a.sortKey := le_antisymm hba hab
      have hhead := h a.sortKey
      rw [List.filter_cons_of_pos (by simp), List.filter_cons_of_pos (by simp [hkey])] at hhead
      obtain ⟨rfl, -⟩ := List.cons.inj hhead
      have htails : ∀ key, l.filter (fun r => r.sortKey = key)
          = l'.filter (fun r => r.sortKey = key) := by
        intro key
        have hk := h key
        by_cases hak : a.sortKey = key
        · rw [List.filter_cons_of_pos (by simp [hak]), List.filter_cons_of_pos (by simp [hak])] at hk
          exact (List.cons.inj hk).2
        · rwa [List.filter_cons_of_neg (by simp [hak]), List.filter_cons_of_neg (by simp [hak])] at hk
      rw [ih (List.pairwise_cons.mp hl).2 (List.pairwise_cons.mp hl').2 htails]

theorem filter_mergeRecord (key : List String) (r : RejectionRecord) (l : List RejectionRecord) :
    (mergeRecord r l).filter (fun x => x.sortKey = key)
      = if r.sortKey = key then mergeRecord r (l.filter (fun x => x.sortKey = key))
        else l.filter (fun x => x.sortKey = key) := by
  induction l with
  | nil => by_cases hr : r.sortKey = key <;> simp [mergeRecord, hr]
  | cons x l ih =>
    rw [mergeRecord]
    by_cases hx : x.identity = r.identity
    · have hkey : x.sortKey = r.sortKey := (sortKey_of_identity hx).1
      rw [if_pos hx]
      by_cases hr : r.sortKey = key
      · have hmerged : ({ x with
            cascadedSections := max x.cascadedSections r.cascadedSections } :
            RejectionRecord).sortKey = key := hkey.trans hr
        rw [List.filter_cons_of_pos (by simp [hmerged]), if_pos hr,
          List.filter_cons_of_pos (by simp [hkey, hr]), mergeRecord, if_pos hx]
      · have hmerged : ({ x with
            cascadedSections := max x.cascadedSections r.cascadedSections } :
            RejectionRecord).sortKey ≠ key := fun h => hr (hkey.symm.trans h)
        rw [List.filter_cons_of_neg (by simp [hmerged]), if_neg hr,
          List.filter_cons_of_neg (by simp [hkey, hr])]
    · rw [if_neg hx]
      by_cases hxk : x.sortKey = key
      · rw [List.filter_cons_of_pos (by simp [hxk]), ih, List.filter_cons_of_pos (by simp [hxk])]
        split
        · rw [mergeRecord, if_neg hx]
        · rfl
      · rw [List.filter_cons_of_neg (by simp [hxk]), ih, List.filter_cons_of_neg (by simp [hxk])]

theorem filter_byIdentity (key : List String) (records : List RejectionRecord) :
    (byIdentity records).filter (fun r => r.sortKey = key)
      = byIdentity (records.filter (fun r => r.sortKey = key)) := by
  induction records using List.reverseRecOn with
  | nil => rfl
  | append_singleton records r ih =>
    rw [byIdentity_concat, filter_mergeRecord, ih, List.filter_append]
    split
    · rename_i hr
      rw [List.filter_cons_of_pos (by simp [hr]), List.filter_nil, byIdentity_concat]
    · rename_i hr
      rw [List.filter_cons_of_neg (by simp [hr]), List.filter_nil, List.append_nil]

/-! ## Absorbed records -/

/-- The list has the identity of the record first under its sort key, with the same reason, and
a cascade that is as large. -/
def Absorbs (records : List RejectionRecord) (r : RejectionRecord) : Prop :=
  firstTag r.sortKey records = some (r.expected, r.reason)
    ∧ ∃ r' ∈ records, r'.identity = r.identity ∧ r.cascadedSections ≤ r'.cascadedSections

instance (records : List RejectionRecord) (r : RejectionRecord) : Decidable (Absorbs records r) :=
  inferInstanceAs (Decidable (_ ∧ ∃ r' ∈ records, _))

/-- The largest cascade of an identity. -/
def largestCascade (i : String × String × String × String × Option String) (n : Int)
    (records : List RejectionRecord) : Int :=
  (records.filter (fun r => r.identity = i)).foldl (fun n r => max n r.cascadedSections) n

theorem foldl_mergeRecord_cons (h : RejectionRecord) (d records : List RejectionRecord) :
    records.foldl (fun d r => mergeRecord r d) (h :: d)
      = { h with cascadedSections := largestCascade h.identity h.cascadedSections records }
        :: (records.filter (fun r => r.identity ≠ h.identity)).foldl (fun d r => mergeRecord r d)
          d := by
  induction records generalizing h d with
  | nil => rfl
  | cons r records ih =>
    rw [List.foldl_cons, mergeRecord]
    by_cases hid : h.identity = r.identity
    · have hmerged : ({ h with
          cascadedSections := max h.cascadedSections r.cascadedSections } :
          RejectionRecord).identity = h.identity := rfl
      rw [if_pos hid, ih, hmerged, List.filter_cons_of_neg (by simp [hid]), largestCascade,
        largestCascade, List.filter_cons_of_pos (by simp [hid]), List.foldl_cons]
    · rw [if_neg hid, ih, List.filter_cons_of_pos (by simpa using fun heq => hid heq.symm),
        largestCascade, largestCascade,
        List.filter_cons_of_neg (by simpa using fun heq => hid heq.symm), List.foldl_cons]

theorem foldl_max_cascade (m n : Int) (records : List RejectionRecord) :
    records.foldl (fun n r => max n r.cascadedSections) (max m n)
      = max m (records.foldl (fun n r => max n r.cascadedSections) n) := by
  induction records generalizing n with
  | nil => rfl
  | cons r records ih => rw [List.foldl_cons, List.foldl_cons, max_assoc, ih]

variable {r : RejectionRecord}

theorem le_foldl_cascade {records : List RejectionRecord} (n : Int) (h : r ∈ records) :
    r.cascadedSections ≤ records.foldl (fun n r => max n r.cascadedSections) n := by
  induction records generalizing n with
  | nil => cases h
  | cons x records ih =>
    rw [List.foldl_cons]
    rcases List.mem_cons.mp h with rfl | hin
    · rw [max_comm, foldl_max_cascade]
      exact le_max_left _ _
    · exact ih _ hin

theorem byIdentity_cons_of_absorbs (hkeys : ∀ x ∈ records, x.sortKey = r.sortKey)
    (h : Absorbs records r) : byIdentity (r :: records) = byIdentity records := by
  obtain ⟨htag, r', hr', hid', hle⟩ := h
  cases records with
  | nil => cases hr'
  | cons x records =>
    have hxkey : x.sortKey = r.sortKey := hkeys x List.mem_cons_self
    simp only [firstTag, List.find?_cons, hxkey, decide_true, Option.map_some, Option.some.injEq,
      Prod.mk.injEq] at htag
    have hid : x.identity = r.identity := identity_of_sortKey hxkey htag.1
    have hmerged : ({ r with
        cascadedSections := max r.cascadedSections x.cascadedSections } :
        RejectionRecord).identity = r.identity := rfl
    have hfirst : mergeRecord x [r]
        = [{ r with cascadedSections := max r.cascadedSections x.cascadedSections }] := by
      rw [mergeRecord, if_pos hid.symm]
    unfold byIdentity
    simp only [List.foldl_cons, mergeRecord, if_pos hid.symm]
    rw [foldl_mergeRecord_cons, foldl_mergeRecord_cons, hmerged, hid]
    congr 1
    refine RejectionRecord.eq_of hid.symm htag.2.symm ?_
    show largestCascade r.identity (max r.cascadedSections x.cascadedSections) records
      = largestCascade r.identity x.cascadedSections records
    rw [largestCascade, foldl_max_cascade]
    apply max_eq_right
    rcases List.mem_cons.mp hr' with rfl | hin
    · have hself := foldl_max_cascade r'.cascadedSections r'.cascadedSections
        (records.filter (fun x => x.identity = r.identity))
      rw [max_self] at hself
      rw [hself]
      exact hle.trans (le_max_left _ _)
    · exact hle.trans (le_foldl_cascade _ (List.mem_filter.mpr ⟨hin, by simpa using hid'⟩))

/-- **An absorbed record** does not change the merge. -/
theorem mergeRecords_cons_of_absorbs (h : Absorbs records r) :
    mergeRecords (r :: records) = mergeRecords records := by
  refine eq_of_filter_sortKey (sortRecords_sorted _) (sortRecords_sorted _) fun key => ?_
  rw [mergeRecords, mergeRecords, filter_sortRecords, filter_sortRecords]
  show (byIdentity (r :: records)).filter _ = (byIdentity records).filter _
  rw [filter_byIdentity, filter_byIdentity]
  by_cases hkey : r.sortKey = key
  · rw [List.filter_cons_of_pos (by simp [hkey])]
    apply byIdentity_cons_of_absorbs
    · intro x hx
      rw [hkey]
      exact of_decide_eq_true (List.mem_filter.mp hx).2
    · obtain ⟨htag, r', hr', hid, hle⟩ := h
      refine ⟨?_, r', List.mem_filter.mpr ⟨hr', ?_⟩, hid, hle⟩
      · rw [← htag, firstTag, firstTag, hkey, ← List.head?_filter, List.filter_filter,
          ← List.head?_filter]
        simp
      · rw [decide_eq_true_eq, (sortKey_of_identity hid).1, hkey]
  · rw [List.filter_cons_of_neg (by simp [hkey])]

/-- Whether a record is absorbed can be seen from the merged list. -/
theorem absorbs_mergeRecords : Absorbs (mergeRecords records) r ↔ Absorbs records r := by
  unfold Absorbs
  rw [firstTag_mergeRecords]
  refine and_congr_right fun _ => ⟨?_, ?_⟩
  · rintro ⟨x, hx, hid, hle⟩
    have hin : x ∈ byIdentity records := (perm_sortRecords _).mem_iff.mp hx
    obtain ⟨y, hy, hyid, hcascades⟩ := (merged_of_mem hin).largest
    exact ⟨y, hy, hyid.trans hid, hcascades ▸ hle⟩
  · rintro ⟨x, hx, hid, hle⟩
    obtain ⟨y, hy, hyid⟩ := List.mem_map.mp (mem_map_byIdentity.mpr
      (List.mem_map_of_mem hx : x.identity ∈ records.map RejectionRecord.identity))
    refine ⟨y, (perm_sortRecords _).mem_iff.mpr hy, hyid.trans hid, hle.trans ?_⟩
    exact (merged_of_mem hy).le x hx hyid.symm

/-- Records in front of a list, of which those with one sort key expect the same for the same
reason, are absorbed by the whole. -/
theorem absorbs_append {rs : List RejectionRecord}
    (huniform : ∀ x ∈ rs, ∀ y ∈ rs, x.sortKey = y.sortKey →
      x.expected = y.expected ∧ x.reason = y.reason) (hr : r ∈ rs) : Absorbs (rs ++ records) r := by
  refine ⟨?_, r, List.mem_append_left _ hr, rfl, le_refl _⟩
  rw [firstTag_append]
  cases hfind : rs.find? (fun x => x.sortKey = r.sortKey) with
  | none =>
    have hno := List.find?_eq_none.mp hfind r hr
    simp at hno
  | some x =>
    have hx := List.mem_of_find?_eq_some hfind
    have hkey : x.sortKey = r.sortKey := by simpa using List.find?_some hfind
    obtain ⟨hexpected, hreason⟩ := huniform x hx r hr hkey
    rw [firstTag, hfind, Option.map_some, Option.some_or, hexpected, hreason]

/-- **Absorbed records** in front of a list do not change the merge. -/
theorem mergeRecords_append_of_absorbs {rs : List RejectionRecord}
    (h : ∀ r ∈ rs, Absorbs records r) : mergeRecords (rs ++ records) = mergeRecords records := by
  induction rs with
  | nil => rfl
  | cons r rs ih =>
    have hrest := ih fun x hx => h x (List.mem_cons_of_mem _ hx)
    rw [List.cons_append, mergeRecords_cons_of_absorbs, hrest]
    rw [← absorbs_mergeRecords, hrest, absorbs_mergeRecords]
    exact h r List.mem_cons_self

end

end OsmPolygonWikidata.Integrity
