import OsmPolygonWikidata.Integrity.RollForward

/-! # Merging ledgers in any order

The identity of a record has five parts, and the ledgers are sorted by four of them. Two records
that differ in the item they expect only, or in their reason only, are a tie: the sort keeps the
order in which they were met, and the merge keeps the reason that was met first. `mergesWell_iff`
says that merging obeys its laws for a list of records exactly if the list has no such tie.
-/

namespace OsmPolygonWikidata.Integrity

open Durable Python

/-! ## Lists without ties -/

/-- Records with the same sort key expect the same item for the same reason. -/
def Untied (records : List RejectionRecord) : Prop :=
  ∀ r ∈ records, ∀ r' ∈ records, r.sortKey = r'.sortKey →
    r.expected = r'.expected ∧ r.reason = r'.reason

/-- Each record has one of the same identity and reason with as large a cascade in the other
list. -/
def Covers (records records' : List RejectionRecord) : Prop :=
  ∀ r ∈ records, ∃ r' ∈ records', r'.identity = r.identity ∧ r'.reason = r.reason
    ∧ r.cascadedSections ≤ r'.cascadedSections

variable {records records' : List RejectionRecord}

theorem Covers.of_subset (h : records ⊆ records') : Covers records records' :=
  fun r hr => ⟨r, h hr, rfl, rfl, le_rfl⟩

theorem Covers.append {other : List RejectionRecord} (h : Covers records other)
    (h' : Covers records' other) : Covers (records ++ records') other := by
  intro r hr
  rcases List.mem_append.mp hr with hr | hr
  · exact h r hr
  · exact h' r hr

theorem Covers.trans {other : List RejectionRecord} (h : Covers records records')
    (h' : Covers records' other) : Covers records other := by
  intro r hr
  obtain ⟨r', hr', hid, hreason, hle⟩ := h r hr
  obtain ⟨r'', hr'', hid', hreason', hle'⟩ := h' r' hr'
  exact ⟨r'', hr'', hid'.trans hid, hreason'.trans hreason, hle.trans hle'⟩

theorem Untied.of_covers (h : Untied records') (hcovers : Covers records records') :
    Untied records := by
  intro a ha b hb hkey
  obtain ⟨a', ha', haid, hareason, _⟩ := hcovers a ha
  obtain ⟨b', hb', hbid, hbreason, _⟩ := hcovers b hb
  obtain ⟨hakey, haexpected⟩ := sortKey_of_identity haid
  obtain ⟨hbkey, hbexpected⟩ := sortKey_of_identity hbid
  obtain ⟨hexpected, hreason⟩ := h a' ha' b' hb' (hakey.trans (hkey.trans hbkey.symm))
  exact ⟨haexpected ▸ hbexpected ▸ hexpected, hareason ▸ hbreason ▸ hreason⟩

theorem Untied.reason_eq (h : Untied records) {r r' : RejectionRecord} (hr : r ∈ records)
    (hr' : r' ∈ records) (hid : r.identity = r'.identity) : r.reason = r'.reason :=
  (h r hr r' hr' (sortKey_of_identity hid).1).2

theorem mem_byIdentity_iff (h : Untied records) {x : RejectionRecord} :
    x ∈ byIdentity records ↔ Merged records x := by
  refine ⟨merged_of_mem, fun hx => ?_⟩
  obtain ⟨⟨a, ha, haid, hacascades⟩, hle, b, hb, hbid, hbreason⟩ := hx
  have hkey : x.identity ∈ (byIdentity records).map RejectionRecord.identity := by
    rw [mem_map_byIdentity, ← haid]
    exact List.mem_map_of_mem ha
  obtain ⟨y, hy, hyid⟩ := List.mem_map.mp hkey
  obtain ⟨⟨c, hc, hcid, hccascades⟩, hyle, d, hd, hdid, hdreason⟩ := merged_of_mem hy
  have heq : y = x := by
    refine RejectionRecord.eq_of hyid ?_ (le_antisymm ?_ ?_)
    · rw [← hdreason, ← hbreason]
      exact h.reason_eq hd hb (hdid.trans (hyid.trans hbid.symm))
    · rw [← hccascades]
      exact hle c hc (hcid.trans hyid)
    · rw [← hacascades]
      exact hyle a ha (haid.trans hyid.symm)
  exact heq ▸ hy

theorem nodup_of_map {l : List RejectionRecord} (h : (l.map RejectionRecord.identity).Nodup) :
    l.Nodup := List.Nodup.of_map _ h

/-- **Lists that cover one another** merge to the same ledger. -/
theorem mergeRecords_eq_of_covers (h : Untied records) (hcovers : Covers records' records)
    (hcovers' : Covers records records') : mergeRecords records' = mergeRecords records := by
  have h' : Untied records' := h.of_covers hcovers
  have hmerged : ∀ {l l' : List RejectionRecord}, Covers l' l → Covers l l' →
      ∀ x, Merged l x → Merged l' x := by
    intro l l' hback hforth x hx
    obtain ⟨⟨a, ha, haid, hacascades⟩, hle, b, hb, hbid, hbreason⟩ := hx
    have hle' : ∀ r ∈ l', r.identity = x.identity → r.cascadedSections ≤ x.cascadedSections := by
      intro r hr hid
      obtain ⟨r', hr', hid', _, hle'⟩ := hback r hr
      exact hle'.trans (hle r' hr' (hid'.trans hid))
    obtain ⟨a', ha', haid', _, hale⟩ := hforth a ha
    obtain ⟨b', hb', hbid', hbreason', _⟩ := hforth b hb
    refine ⟨⟨a', ha', haid'.trans haid, le_antisymm ?_ ?_⟩, hle',
      b', hb', hbid'.trans hbid, hbreason'.trans hbreason⟩
    · exact hle' a' ha' (haid'.trans haid)
    · rw [← hacascades]
      exact hale
  have hperm : (byIdentity records').Perm (byIdentity records) := by
    refine (List.perm_ext_iff_of_nodup (nodup_of_map (nodup_byIdentity _))
      (nodup_of_map (nodup_byIdentity _))).mpr fun x => ?_
    rw [mem_byIdentity_iff h', mem_byIdentity_iff h]
    exact ⟨hmerged hcovers' hcovers x, hmerged hcovers hcovers' x⟩
  -- sorted lists of the same records, whose keys are distinct
  refine List.Perm.eq_of_pairwise ?_ (sortRecords_sorted _) (sortRecords_sorted _)
    ((perm_sortRecords _).trans (hperm.trans (perm_sortRecords _).symm))
  intro a b ha hb hab hba
  have hin : ∀ x, x ∈ sortRecords (byIdentity records') → x ∈ byIdentity records := fun x hx =>
    hperm.mem_iff.mp ((perm_sortRecords _).mem_iff.mp hx)
  have hain := hin a ha
  have hbin : b ∈ byIdentity records := (perm_sortRecords _).mem_iff.mp hb
  obtain ⟨a', ha', haid, hareason⟩ := (merged_of_mem hain).reason
  obtain ⟨b', hb', hbid, hbreason⟩ := (merged_of_mem hbin).reason
  obtain ⟨hakey, haexpected⟩ := sortKey_of_identity haid
  obtain ⟨hbkey, hbexpected⟩ := sortKey_of_identity hbid
  have hkey : a.sortKey = b.sortKey := le_antisymm hab hba
  have htie := h a' ha' b' hb' (hakey.trans (hkey.trans hbkey.symm))
  have hid : a.identity = b.identity :=
    identity_of_sortKey hkey (haexpected.symm.trans (htie.1.trans hbexpected))
  exact List.inj_on_of_nodup_map (nodup_byIdentity records) hain hbin hid

/-! ## Lists with ties -/

theorem untied_of_perm
    (h : ∀ other : List RejectionRecord, other.Perm records →
      mergeRecords other = mergeRecords records) : Untied records := by
  intro r hr r' hr' hkey
  by_cases heq : r = r'
  · exact ⟨by rw [heq], by rw [heq]⟩
  have hfirst : ∀ x ∈ records, firstTag x.sortKey (mergeRecords records)
      = some (x.expected, x.reason) := by
    intro x hx
    rw [← h (x :: records.erase x) (List.perm_cons_erase hx).symm, firstTag_mergeRecords]
    simp [firstTag]
  have htags : some (r.expected, r.reason) = some (r'.expected, r'.reason) := by
    rw [← hfirst r hr, ← hfirst r' hr', hkey]
  exact Prod.mk.inj (Option.some.inj htags)

/-! ## The laws -/

/-- What the ledgers rely on when a list of records is merged. -/
structure MergesWell (decimal : Char → Bool) (records : List RejectionRecord) : Prop where
  permuted : ∀ other : List RejectionRecord, other.Perm records →
    mergeRecords other = mergeRecords records
  associative : ∀ a b, a ++ b = records → mergeRecords (mergeRecords a ++ b) = mergeRecords records
    ∧ mergeRecords (a ++ mergeRecords b) = mergeRecords records
  idempotent : ∀ source ⊆ records,
    mergeRecords (mergeRecords records ++ source) = mergeRecords records
    ∧ mergeRecords (source ++ mergeRecords records) = mergeRecords records
  identities : ((mergeRecords records).map RejectionRecord.identity).Nodup
    ∧ ∀ i, i ∈ (mergeRecords records).map RejectionRecord.identity
      ↔ i ∈ records.map RejectionRecord.identity
  largest : ∀ m ∈ mergeRecords records,
    (∃ r ∈ records, r.identity = m.identity ∧ r.cascadedSections = m.cascadedSections)
    ∧ ∀ r ∈ records, r.identity = m.identity → r.cascadedSections ≤ m.cascadedSections
  saved : ∀ {D S : Type} (s : Region D S), s.ledger ≠ some .malformed →
    ∃ s', Prog.run (saveLedger s.ledger (fun file s => { s with ledger := some file })
        (mergeRecords records)) s = (.ok (), s') ∧ Loads decimal s'.ledger (mergeRecords records)

theorem covers_mergeRecords (h : Untied records) : Covers records (mergeRecords records) := by
  intro r hr
  have hkey : r.identity ∈ (byIdentity records).map RejectionRecord.identity :=
    mem_map_byIdentity.mpr (List.mem_map_of_mem hr)
  obtain ⟨x, hx, hid⟩ := List.mem_map.mp hkey
  obtain ⟨_, hle, b, hb, hbid, hreason⟩ := merged_of_mem hx
  refine ⟨x, (perm_sortRecords _).mem_iff.mpr hx, hid, ?_, hle r hr hid.symm⟩
  rw [← hreason]
  exact h.reason_eq hb hr (hbid.trans hid)

theorem mergeRecords_covers (h : Untied records) : Covers (mergeRecords records) records := by
  intro m hm
  have hin : m ∈ byIdentity records := (perm_sortRecords _).mem_iff.mp hm
  obtain ⟨⟨a, ha, haid, hcascades⟩, _, b, hb, hbid, hreason⟩ := merged_of_mem hin
  refine ⟨a, ha, haid, ?_, hcascades.ge⟩
  rw [← hreason]
  exact h.reason_eq ha hb (haid.trans hbid.symm)

theorem Covers.union {other other' : List RejectionRecord} (h : Covers records other)
    (h' : Covers records' other') : Covers (records ++ records') (other ++ other') :=
  (h.trans (.of_subset (List.subset_append_left _ _))).append
    (h'.trans (.of_subset (List.subset_append_right _ _)))

theorem saveLedger_loads {D S : Type} {decimal : Char → Bool}
    (hvalid : ∀ r ∈ records, r.Valid decimal) (s : Region D S) (hs : s.ledger ≠ some .malformed) :
    ∃ s', Prog.run (saveLedger s.ledger (fun file s => { s with ledger := some file })
        (mergeRecords records)) s = (.ok (), s') ∧ Loads decimal s'.ledger (mergeRecords records) := by
  have hwp : Prog.wp (saveLedger s.ledger (fun file s => { s with ledger := some file })
      (mergeRecords records)) (fun _ s' => s'.ledger = some (.records (mergeRecords records)))
      (fun _ _ => False) (fun _ => True) s := by
    refine saveLedger_wp hs trivial (by rw [sortRecords_mergeRecords]) fun hsame => ?_
    rw [hsame.symm]
  obtain ⟨_, s', hrun, hledger⟩ := Prog.wp_returns hwp
  exact ⟨s', hrun, hledger ▸ loads_records (valid_mergeRecords hvalid)⟩

theorem mergesWell_iff {decimal : Char → Bool} (hvalid : ∀ r ∈ records, r.Valid decimal) :
    MergesWell decimal records ↔ Untied records := by
  refine ⟨fun h => untied_of_perm h.permuted, fun h => ?_⟩
  have hmerged := covers_mergeRecords h
  have hmerged' := mergeRecords_covers h
  refine ⟨fun other hperm => ?_, fun a b heq => ?_, fun source hsource => ?_, ⟨?_, fun i => ?_⟩,
    fun m hm => ?_, fun s hs => saveLedger_loads hvalid s hs⟩
  · exact mergeRecords_eq_of_covers h (.of_subset hperm.subset) (.of_subset hperm.symm.subset)
  · subst heq
    have ha : Untied a := h.of_covers (.of_subset (List.subset_append_left a b))
    have hb : Untied b := h.of_covers (.of_subset (List.subset_append_right a b))
    exact ⟨mergeRecords_eq_of_covers h ((mergeRecords_covers ha).union (.of_subset (by simp)))
        ((covers_mergeRecords ha).union (.of_subset (by simp))),
      mergeRecords_eq_of_covers h (Covers.union (.of_subset (by simp)) (mergeRecords_covers hb))
        (Covers.union (.of_subset (by simp)) (covers_mergeRecords hb))⟩
  · exact ⟨mergeRecords_eq_of_covers h (hmerged'.append (.of_subset hsource))
        (hmerged.trans (.of_subset (by simp))),
      mergeRecords_eq_of_covers h (Covers.append (.of_subset hsource) hmerged')
        (hmerged.trans (.of_subset (by simp)))⟩
  · exact (((perm_sortRecords _).map _).nodup_iff).mpr (nodup_byIdentity records)
  · exact ((perm_sortRecords _).map _).mem_iff.trans mem_map_byIdentity
  · obtain ⟨hlargest, hle, _⟩ := merged_of_mem ((perm_sortRecords _).mem_iff.mp hm)
    exact ⟨hlargest, hle⟩

namespace Example

/-- The same document, rejected without an expected item and with one. -/
def rejectedWithout : RejectionRecord :=
  ⟨"alpha-latest", "polygon_articles", "article-1", "Q1", none, "qid_mismatch", 0⟩

def rejectedWith : RejectionRecord := { rejectedWithout with expected := some "Q2" }

theorem tie_not_permuted : (∀ r ∈ [rejectedWithout, rejectedWith], r.Valid Char.isDigit)
    ∧ ¬ MergesWell Char.isDigit [rejectedWithout, rejectedWith] := by
  refine ⟨by unfold RejectionRecord.Valid; decide +kernel, fun h => ?_⟩
  have hperm := h.permuted [rejectedWith, rejectedWithout] (List.Perm.swap _ _ _)
  revert hperm
  decide +kernel

theorem mergesWell_of_untied : MergesWell Char.isDigit
    [rejectedWithout, { rejectedWithout with wikidata := "Q3", cascadedSections := 2 }] :=
  (mergesWell_iff (by unfold RejectionRecord.Valid; decide +kernel)).mpr
    (by unfold Untied; decide +kernel)

end Example

end OsmPolygonWikidata.Integrity
