import OsmPolygonWikidata.LinkMigration.Recovery

/-! # Restarting a commit

The states a commit can leave behind, and what a later call makes of them. A state is `Settled`
when there is no journal and the targets are all old or all new, and `Forward` when there is a
journal and every new content can still be found. The commit keeps to these states
(`commitNewTransaction_wp`), a later call leads from each of them to a settled one, and neither
is true of the one rollback that destroys a moved file (`RollbackLosesStaged`).
-/

namespace OsmPolygonWikidata.LinkMigration

open Durable
open Prog (wp Leaves Meets run_attempt run_bind_error run_bind_ok run_get run_step wp_and wp_attempt
  wp_bind wp_exec wp_get wp_imp wp_mapError wp_mono wp_pure wp_raise wp_raises wp_returns wp_safe
  wp_step)

section

variable {C H : Type}

/-- Every target holds what it held in `fs₀`. -/
def AllOriginal (fs₀ : Tree C H) (rs : List (Path × Path)) (fs : Tree C H) : Prop :=
  ∀ r ∈ rs, fs r.1 = fs₀ r.1

/-- Every target holds what was staged for it in `fs₀`. -/
def AllStaged (fs₀ : Tree C H) (rs : List (Path × Path)) (fs : Tree C H) : Prop :=
  ∀ r ∈ rs, fs r.1 = fs₀ r.2

/-- No journal, and one of the two versions of all targets. -/
def Settled (directory : Path) (fs₀ : Tree C H) (rs : List (Path × Path)) (fs : Tree C H) : Prop :=
  fs (journalPath directory) = none ∧ (AllOriginal fs₀ rs fs ∨ AllStaged fs₀ rs fs)

/-- The journal that records `rs` in the tree `fs₀`. -/
def journalOf (sha : File C H → H) (directory : Path) (stem : String) (fs₀ : Tree C H)
    (rs : List (Path × Path)) (phase : Phase) : Journal H :=
  ⟨transactionVersion, stem, phase, rs.map (entryOf sha directory fs₀)⟩

/-- A journal, in whatever phase, whose entries can all be rolled forward. -/
structure Forward (sha : File C H → H) (directory : Path) (stem : String) (fs₀ : Tree C H)
    (rs : List (Path × Path)) (fs : Tree C H) : Prop where
  journal : ∃ phase, fs (journalPath directory)
    = some (.journal (journalOf sha directory stem fs₀ rs phase))
  recoverable : Recoverable fs₀ rs fs

def Resumable (sha : File C H → H) (directory : Path) (stem : String) (fs₀ : Tree C H)
    (rs : List (Path × Path)) (fs : Tree C H) : Prop :=
  Settled directory fs₀ rs fs ∨ Forward sha directory stem fs₀ rs fs

/-- The commit of `rs`, in the order in which it is applied, moves its first file, then fails in
that entry (or, if it is the only one, at the write of the committed phase) and gets through its
rollback, because no two existing targets share a backup. -/
def RollbackLosesStaged (faulty : FaultPoint → Bool) (fs₀ : Tree C H) :
    List (Path × Path) → Prop
  | [] => False
  | r :: rest => fs₀ r.1 ≠ fs₀ r.2 ∧ faulty (.replace 0) = false
      ∧ (faulty (.check 0) = true ∨ (rest = [] ∧ faulty .commit = true))
      ∧ ((existing fs₀ (r :: rest)).map (fun r => r.1.name)).Nodup

variable {sha : File C H → H} {iterdir : Tree C H → Path → List Path}
variable {directory : Path} {stem : String} {fs₀ : Tree C H}

/-! ## Frames -/

variable {rs : List (Path × Path)} {fs fs' : Tree C H}

theorem Recoverable.sameOutside (hL : WellPlaced directory rs) (h : Recoverable fs₀ rs fs)
    (hout : SameOutside directory fs' fs) : Recoverable fs₀ rs fs' := by
  intro r hr
  rw [hout _ (hL.outside r hr).1, hout _ (hL.outside r hr).2]
  exact h r hr

theorem AllStaged.sameOutside (hL : WellPlaced directory rs) (h : AllStaged fs₀ rs fs)
    (hout : SameOutside directory fs' fs) : AllStaged fs₀ rs fs' := by
  intro r hr
  rw [hout _ (hL.outside r hr).1, h r hr]

theorem AllOriginal.sameOutside (hL : WellPlaced directory rs) (h : AllOriginal fs₀ rs fs)
    (hout : SameOutside directory fs' fs) : AllOriginal fs₀ rs fs' := by
  intro r hr
  rw [hout _ (hL.outside r hr).1, h r hr]

variable {fs : Tree C H}

theorem AllStaged.recoverable (h : AllStaged fs₀ rs fs) : Recoverable fs₀ rs fs :=
  fun r hr => Or.inl (h r hr)

theorem sameOutside_writeJournal (j : Journal H) (fs : Tree C H) :
    SameOutside directory (Tree.write (journalPath directory) (.journal j) fs) fs := by
  intro p hp
  refine Tree.write_other _ _ ?_
  rintro rfl
  exact hp (parent_journalPath directory)

theorem Recoverable.writeJournal (phase : Phase)
    (hL : WellPlaced directory rs) (h : Recoverable fs₀ rs fs) :
    Forward sha directory stem fs₀ rs (Tree.write (journalPath directory)
      (.journal (journalOf sha directory stem fs₀ rs phase)) fs) :=
  ⟨⟨phase, Tree.write_same _ _ _⟩, h.sameOutside hL (sameOutside_writeJournal _ fs)⟩

theorem RollbackFrame.journal
    (hL : WellPlaced directory rs) (h : RollbackFrame directory fs₀ rs fs fs') :
    fs' (journalPath directory) = fs (journalPath directory) := by
  refine h _ ?_ (fun r _ => journalPath_ne_backupPath directory r.1)
  intro r hr he
  exact (hL.outside r hr).1 (by rw [← he, parent_journalPath])

theorem RollbackFrame.other {sub : List (Path × Path)} {p : Path}
    (h : RollbackFrame directory fs₀ sub fs fs') (hp : p.parent ≠ directory)
    (hne : ∀ r ∈ sub, p ≠ r.1) : fs' p = fs p := by
  refine h p hne ?_
  rintro r - rfl
  exact hp (parent_backupPath directory r.1)

theorem WellPlaced.sublist {rs rs' : List (Path × Path)} (hsub : rs'.Sublist rs)
    (h : WellPlaced directory rs) : WellPlaced directory rs' where
  targets_nodup := h.targets_nodup.sublist (hsub.map _)
  staged_nodup := h.staged_nodup.sublist (hsub.map _)
  apart := fun r hr r' hr' => h.apart r (hsub.subset hr) r' (hsub.subset hr')
  outside := fun r hr => h.outside r (hsub.subset hr)

variable {fs fs₁ : Tree C H}

theorem Applied.recoverable {done rest : List (Path × Path)}
    (h : Applied directory fs₀ fs₁ fs done rest) : Recoverable fs₀ (done ++ rest) fs := by
  intro r hr
  rcases List.mem_append.mp hr with hr | hr
  · exact Or.inl (h.done_target r hr)
  · exact Or.inr (h.rest_staged r hr)

theorem existing_reverse (rs : List (Path × Path)) :
    existing fs₀ rs.reverse = (existing fs₀ rs).reverse :=
  List.filter_reverse

/-! ## The commit -/

variable [DecidableEq H]

/-- The `try` block: it returns with all new contents in place under a committed journal, and
everything it can leave behind is an apply in progress. -/
theorem applyAndCommit_wp (hsha : Function.Injective sha) (faulty : FaultPoint → Bool)
    (hL : WellPlaced directory rs)
    (hs : ∀ r ∈ rs, (fs₀ r.2).isSome) (ha : Applied directory fs₀ fs₁ fs [] rs) :
    wp (applyAndCommit sha faulty directory (journalOf sha directory stem fs₀ rs .prepared)
        (rs.map (entryOf sha directory fs₀)))
      (fun _ fs' => AllStaged fs₀ rs fs' ∧ fs' (journalPath directory)
          = some (.journal (journalOf sha directory stem fs₀ rs .committed)))
      (fun e fs' => (∃ f, faulty f = true) ∧ ∃ done rest, done ++ rest = rs
        ∧ Applied directory fs₀ fs₁ fs' done rest ∧ RaisedAt faulty rs.length done e.1)
      (fun fs' => ∃ done rest, done ++ rest = rs ∧ Applied directory fs₀ fs₁ fs' done rest)
      fs := by
  simp only [applyAndCommit, wp_bind]
  refine wp_imp ?_ (applyEntries_wp hsha faulty hL hs (List.nil_append rs) ha)
  rintro _ fs' ⟨ha', hfirst⟩
  cases hf : faulty .commit with
  | true =>
    simp only [if_true, wp_raise]
    refine ⟨⟨_, hf⟩, rs, [], List.append_nil rs, ha', ?_⟩
    intro h0
    rw [List.length_map] at h0
    cases rs with
    | nil => exact Or.inl rfl
    | cons r rest =>
      have hrest : rest = [] := by simpa using h0
      subst hrest
      exact Or.inr ⟨rfl, (hfirst rfl (by simp)).1, Or.inr ⟨rfl, hf⟩⟩
  | false =>
    simp only [Bool.false_eq_true, if_false, wp_step]
    refine ⟨⟨rs, [], List.append_nil rs, ha'⟩, ?_, Tree.write_same _ _ _⟩
    exact AllStaged.sameOutside hL ha'.done_target (sameOutside_writeJournal _ fs')

omit [DecidableEq H] in
theorem cleanup_settles (hdir : Listing iterdir)
    (hL : WellPlaced directory rs) (hf : Forward sha directory stem fs₀ rs fs)
    (hall : AllOriginal fs₀ rs fs ∨ AllStaged fs₀ rs fs) :
    wp (cleanup iterdir directory)
      (fun _ fs' => SameOutside directory fs' fs ∧ Settled directory fs₀ rs fs')
      (fun _ _ => False) (Resumable sha directory stem fs₀ rs) fs := by
  have hkeep : ∀ fs', SameOutside directory fs' fs →
      AllOriginal fs₀ rs fs' ∨ AllStaged fs₀ rs fs' := fun fs' h =>
    hall.imp (fun ho => ho.sameOutside hL h) (fun hst => hst.sameOutside hL h)
  refine wp_mono ?_ (fun _ _ h => h) ?_ (cleanup_wp hdir)
  · rintro _ fs' ⟨hout, hj⟩
    exact ⟨hout, hj, hkeep fs' hout⟩
  · rintro fs' ⟨hout, hj | hj⟩
    · refine Or.inr ⟨?_, hf.recoverable.sameOutside hL hout⟩
      rw [hj]
      exact hf.journal
    · exact Or.inl ⟨hj, hkeep fs' hout⟩

theorem rollbackAll_append_wp (es es' : List (TransactionEntry H)) {Q : Unit → Tree C H → Prop}
    {E : TransactionError → Tree C H → Prop} {K : Tree C H → Prop} (fs : Tree C H) :
    wp (rollbackAll sha (es ++ es')) Q E K fs
      = wp (rollbackAll sha es) (fun _ fs' => wp (rollbackAll sha es') Q E K fs') E K
        fs := by
  induction es generalizing fs with
  | nil => rfl
  | cons e es ih =>
    simp only [List.cons_append, rollbackAll, wp_bind, ih]

theorem rollbackEntries_intact (hsha : Function.Injective sha)
    (hL : WellPlaced directory rs) (hst : ∀ r ∈ rs, fs r.2 = fs₀ r.2)
    (hj : ∃ phase, fs (journalPath directory)
      = some (.journal (journalOf sha directory stem fs₀ rs phase))) :
    wp (rollbackEntries sha (rs.map (entryOf sha directory fs₀)))
      (fun _ fs' => Forward sha directory stem fs₀ rs fs' ∧ AllOriginal fs₀ rs fs')
      (fun _ => Forward sha directory stem fs₀ rs) (Forward sha directory stem fs₀ rs) fs := by
  have hLr : WellPlaced directory rs.reverse := hL.perm (List.reverse_perm rs).symm
  have hfwd : ∀ fs', RollbackFrame directory fs₀ rs.reverse fs fs' →
      Forward sha directory stem fs₀ rs fs' := by
    intro fs' hfr
    refine ⟨by rw [hfr.journal hLr]; exact hj, fun r hr => Or.inr ?_⟩
    rw [hfr.other (hL.outside r hr).2 ?_, hst r hr]
    intro r' hr' he
    exact hL.apart r' (List.mem_reverse.mp hr') r hr he.symm
  rw [rollbackEntries, ← List.map_reverse]
  refine wp_mono ?_ (fun _ fs' h => hfwd fs' h) (fun fs' h => hfwd fs' h) (rollbackAll_wp hsha hLr)
  rintro _ fs' ⟨h1, -, -, -, hfr⟩
  exact ⟨hfwd fs' hfr, fun r hr => h1 r (List.mem_reverse.mpr hr)⟩

variable {rest : List (Path × Path)} {r : Path × Path}

/-- A rollback after the first file has been moved, when two existing targets share a backup: it
raises before it reaches the moved file. -/
theorem rollbackEntries_stopped (hsha : Function.Injective sha)
    (hL : WellPlaced directory (r :: rest))
    (hmoved : fs r.1 = fs₀ r.2) (hst : ∀ r' ∈ rest, fs r'.2 = fs₀ r'.2)
    (hj : ∃ phase, fs (journalPath directory)
      = some (.journal (journalOf sha directory stem fs₀ (r :: rest) phase)))
    (hshare : ¬ ((existing fs₀ (r :: rest)).map (fun r => r.1.name)).Nodup) :
    wp (rollbackEntries sha ((r :: rest).map (entryOf sha directory fs₀)))
      (fun _ _ => False) (fun _ => Forward sha directory stem fs₀ (r :: rest))
      (Forward sha directory stem fs₀ (r :: rest)) fs := by
  have hLrest : WellPlaced directory rest := hL.sublist (List.sublist_cons_self r rest)
  have hLr : WellPlaced directory rest.reverse := hLrest.perm (List.reverse_perm rest).symm
  have hne : ∀ r' ∈ rest.reverse, r.1 ≠ r'.1 := by
    intro r' hr' he
    exact (List.nodup_cons.mp hL.targets_nodup).1
      (List.mem_map.mpr ⟨r', List.mem_reverse.mp hr', he.symm⟩)
  have hfwd : ∀ fs', RollbackFrame directory fs₀ rest.reverse fs fs' →
      Forward sha directory stem fs₀ (r :: rest) fs' := by
    intro fs' hfr
    refine ⟨by rw [hfr.journal hLr]; exact hj, ?_⟩
    intro r' hr'
    rcases List.mem_cons.mp hr' with rfl | hin
    · left
      rw [hfr.other (hL.outside r' hr').1 hne, hmoved]
    · right
      rw [hfr.other (hL.outside r' hr').2 ?_, hst r' hin]
      intro r'' hr'' he
      exact hL.apart r'' (by simp [List.mem_reverse.mp hr'']) r' hr' he.symm
  rw [rollbackEntries, ← List.map_reverse, List.reverse_cons, List.map_append,
    rollbackAll_append_wp]
  refine wp_mono ?_ (fun _ fs' h => hfwd fs' h) (fun fs' h => hfwd fs' h) (rollbackAll_wp hsha hLr)
  rintro _ fs1 ⟨-, hgone, hnd, -, hfr⟩
  have hnd' : ((existing fs₀ rest).map (fun r => r.1.name)).Nodup := by
    rw [existing_reverse, List.map_reverse, List.nodup_reverse] at hnd
    exact hnd
  -- the collision involves the first target, whose backup the later entry has used up
  have hex : (fs₀ r.1).isSome := by
    by_contra hno
    exact hshare (by rwa [existing, List.filter_cons_of_neg (by simpa using hno)])
  have hcons : existing fs₀ (r :: rest) = r :: existing fs₀ rest :=
    List.filter_cons_of_pos hex
  have hbackup : fs1 (backupPath directory r.1) = none := by
    rw [hcons, List.map_cons, List.nodup_cons, not_and_or, not_not] at hshare
    obtain ⟨r', hr', hname⟩ := List.mem_map.mp (hshare.resolve_right (fun h => h hnd'))
    rw [← (backupPath_eq_iff directory r'.1 r.1).mpr hname]
    exact hgone r' (by rw [existing_reverse]; exact List.mem_reverse.mpr hr')
  simp only [List.map_cons, List.map_nil, rollbackAll, wp_bind, wp_pure]
  refine wp_mono ?_ ?_ ?_ (rollbackEntry_wp hsha (hL.outside r (by simp)).1)
  · rintro _ fs2 ⟨-, -, h⟩
    have := (h hex).1
    rw [hbackup] at this
    cases this
  · rintro _ fs2 ⟨-, h⟩
    rw [h hex hbackup]
    exact hfwd fs1 hfr
  · rintro fs2 rfl
    exact hfwd fs2 hfr

variable {faulty : FaultPoint → Bool}

/-- Recording a failure. The only way out of the resumable states is the rollback that loses a
staged file. -/
theorem recordTransactionFailure_wp (hsha : Function.Injective sha) (hdir : Listing iterdir)
    {rs done rest : List (Path × Path)}
    {index : Nat} (hL : WellPlaced directory rs) (hrs : done ++ rest = rs)
    (hj : fs₁ (journalPath directory)
      = some (.journal (journalOf sha directory stem fs₀ rs .prepared)))
    (ha : Applied directory fs₀ fs₁ fs done rest) (hat : RaisedAt faulty rs.length done index)
    (hlose : ¬ RollbackLosesStaged faulty fs₀ rs) :
    wp (recordTransactionFailure sha iterdir directory
        (journalOf sha directory stem fs₀ rs .prepared) (rs.map (entryOf sha directory fs₀)) index)
      (fun _ => Resumable sha directory stem fs₀ rs)
      (fun _ => Resumable sha directory stem fs₀ rs) (Resumable sha directory stem fs₀ rs) fs := by
  have hrec : Recoverable fs₀ rs fs := hrs ▸ ha.recoverable
  have hjfs : fs (journalPath directory)
      = some (.journal (journalOf sha directory stem fs₀ rs .prepared)) := by
    rw [ha.journalled _ (parent_journalPath directory), hj]
  unfold recordTransactionFailure
  by_cases h0 : index = 0
  · rw [if_pos h0]
    simp only [wp_bind, wp_step]
    -- the rollback that returns has put everything back, with the staged files in place
    have hdone : ∀ fs', Forward sha directory stem fs₀ rs fs' ∧ AllOriginal fs₀ rs fs' →
        Resumable sha directory stem fs₀ rs fs' ∧ wp (cleanup iterdir directory)
          (fun _ => Resumable sha directory stem fs₀ rs)
          (fun _ => Resumable sha directory stem fs₀ rs) (Resumable sha directory stem fs₀ rs)
          (Tree.write (journalPath directory)
            (.journal (journalOf sha directory stem fs₀ rs .rolledBack)) fs') := by
      rintro fs' ⟨hf, ho⟩
      refine ⟨Or.inr hf, wp_mono (fun _ _ h => Or.inl h.2) (fun _ _ h => h.elim)
        (fun _ h => h) (cleanup_settles hdir hL (hf.recoverable.writeJournal _ hL) (Or.inl ?_))⟩
      exact ho.sameOutside hL (sameOutside_writeJournal _ fs')
    by_cases hintact : ∀ r ∈ rs, fs r.2 = fs₀ r.2
    · exact wp_mono (fun _ fs' h => hdone fs' h) (fun _ _ h => Or.inr h) (fun _ h => Or.inr h)
        (rollbackEntries_intact hsha hL hintact ⟨_, hjfs⟩)
    · -- a staged file is gone: it was the first one, moved before the failure
      rcases hat h0 with hd | ⟨hlen, hrep, hwhere⟩
      · subst hd
        exact absurd (fun r hr => ha.rest_staged r (by rwa [← hrs] at hr)) hintact
      · obtain ⟨r, rfl⟩ := List.length_eq_one_iff.mp hlen
        obtain rfl : rs = r :: rest := hrs.symm
        have hne : fs₀ r.1 ≠ fs₀ r.2 := by
          intro he
          refine hintact (fun r' hr' => ?_)
          rcases List.mem_cons.mp hr' with rfl | hr'
          · exact ha.done_staged r' (by simp) he
          · exact ha.rest_staged r' hr'
        have hshare : ¬ ((existing fs₀ (r :: rest)).map (fun r => r.1.name)).Nodup := by
          intro hnd
          refine hlose ⟨hne, hrep, hwhere.imp id ?_, hnd⟩
          rintro ⟨hl, hc⟩
          exact ⟨by simpa using hl, hc⟩
        exact wp_mono (fun _ _ h => h.elim) (fun _ _ h => Or.inr h) (fun _ h => Or.inr h)
          (rollbackEntries_stopped hsha hL (ha.done_target r (by simp)) ha.rest_staged ⟨_, hjfs⟩
            hshare)
  · rw [if_neg h0]
    exact ⟨Or.inr ⟨⟨_, hjfs⟩, hrec⟩, Or.inr (hrec.writeJournal _ hL)⟩

omit [DecidableEq H] in
theorem applied_nil (j : Journal H)
    (hL : WellPlaced directory rs) (hout : SameOutside directory fs fs₀) :
    Applied directory fs₀ (Tree.write (journalPath directory) (.journal j) fs)
      (Tree.write (journalPath directory) (.journal j) fs) [] rs := by
  have h : SameOutside directory (Tree.write (journalPath directory) (.journal j) fs) fs₀ :=
    fun p hp => (sameOutside_writeJournal j fs p hp).trans (hout p hp)
  exact ⟨by simp, by simp, by simp, fun r hr => h _ (hL.outside r hr).1,
    fun r hr => h _ (hL.outside r hr).2, fun _ _ => rfl⟩

variable (hsha : Function.Injective sha) (hdir : Listing iterdir)

include hsha hdir

/-- **A commit stays resumable.** Every kill, every exception and the normal return leave a
settled state or one that can be rolled forward, unless the rollback loses a staged file. Without
a fault the commit does not raise. -/
theorem commitNewTransaction_wp (faulty : FaultPoint → Bool) (hL : WellPlaced directory rs)
    (hs : ∀ r ∈ rs, (fs₀ r.2).isSome) (hj : fs₀ (journalPath directory) = none)
    (hlose : ¬ RollbackLosesStaged faulty fs₀ rs) :
    wp (commitNewTransaction sha iterdir faulty directory stem rs)
      (fun _ fs' => fs' (journalPath directory) = none ∧ AllStaged fs₀ rs fs')
      (fun _ fs' => (∃ f, faulty f = true) ∧ Resumable sha directory stem fs₀ rs fs')
      (Resumable sha directory stem fs₀ rs) fs₀ := by
  have hsettled : ∀ fs', SameOutside directory fs' fs₀ → fs' (journalPath directory) = none →
      Resumable sha directory stem fs₀ rs fs' := fun fs' hout hn =>
    Or.inl ⟨hn, Or.inl fun r hr => hout _ (hL.outside r hr).1⟩
  simp only [commitNewTransaction, wp_bind, wp_step, wp_attempt]
  refine wp_mono ?_ (fun _ _ h => h.elim) (fun fs' h => hsettled fs' h.1 (h.2.trans hj))
    (prepareEntries_wp (fun _ _ => rfl) hL.outside hs)
  rintro entries fs1 ⟨rfl, hout, -, -, hkeep⟩
  have hj1 : fs1 (journalPath directory) = none := by
    rw [hkeep _ (fun r _ => journalPath_ne_backupPath directory r.1), hj]
  refine ⟨hsettled fs1 hout hj1, ?_⟩
  have hjw : Tree.write (journalPath directory)
      (.journal (journalOf sha directory stem fs₀ rs .prepared)) fs1 (journalPath directory)
        = some (.journal (journalOf sha directory stem fs₀ rs .prepared)) := Tree.write_same _ _ _
  refine wp_mono ?_ ?_ ?_ (applyAndCommit_wp hsha faulty hL hs (applied_nil _ hL hout))
  · rintro _ fs2 ⟨hall, hj2⟩
    refine wp_safe ?_ (cleanup_settles hdir hL ⟨⟨_, hj2⟩, hall.recoverable⟩ (Or.inr hall))
    rintro _ fs3 ⟨hout3, hn, -⟩
    exact ⟨hn, hall.sameOutside hL hout3⟩
  · rintro ⟨index, e⟩ fs2 ⟨hf, done, rest, hrs, ha, hat⟩
    simp only [wp_raise]
    exact wp_mono (fun _ _ h => ⟨hf, h⟩) (fun _ _ h => ⟨hf, h⟩) (fun _ h => h)
      (recordTransactionFailure_wp hsha hdir hL hrs hjw ha hat hlose)
  · rintro fs2 ⟨done, rest, hrs, ha⟩
    refine Or.inr ⟨⟨.prepared, ?_⟩, hrs ▸ ha.recoverable⟩
    exact (ha.journalled _ (parent_journalPath directory)).trans hjw

/-! ## A later call -/

theorem recoverDirectory_wp (hL : WellPlaced directory rs)
    (hs : ∀ r ∈ rs, (fs₀ r.2).isSome) (hf : Forward sha directory stem fs₀ rs fs) :
    wp (recoverDirectory sha iterdir directory stem)
      (fun _ fs' => fs' (journalPath directory) = none ∧ AllStaged fs₀ rs fs')
      (fun _ _ => False) (Resumable sha directory stem fs₀ rs) fs := by
  obtain ⟨phase, hj⟩ := hf.journal
  have hfwd : ∀ fs', Resuming directory fs₀ rs fs fs' → Forward sha directory stem fs₀ rs fs' :=
    fun fs' h => ⟨⟨phase, h.2.trans hj⟩, h.1⟩
  unfold recoverDirectory
  simp only [wp_bind, wp_get, hj, journalOf, if_true]
  refine wp_mono ?_ (fun _ _ h => h) (fun fs' h => Or.inr (hfwd fs' h))
    (recoverEntries_wp hsha hL (fun _ h => h) hs hf.recoverable)
  rintro _ fs1 ⟨hres, hall, -⟩
  refine wp_imp ?_ (cleanup_settles hdir hL (hfwd fs1 hres) (Or.inr hall))
  rintro _ fs2 ⟨hout, hn, -⟩
  exact ⟨hn, AllStaged.sameOutside hL hall hout⟩

theorem commitOrderedReplacements_forward (faulty : FaultPoint → Bool)
    (hL : WellPlaced directory rs) (hs : ∀ r ∈ rs, (fs₀ r.2).isSome)
    (hf : Forward sha directory stem fs₀ rs fs) (later : Request directory)
    (hne : later.replacements ≠ []) :
    wp (commitOrderedReplacements sha iterdir faulty directory stem later.replacements)
      (fun _ fs' => fs' (journalPath directory) = none ∧ AllStaged fs₀ rs fs')
      (fun _ _ => False) (Resumable sha directory stem fs₀ rs) fs := by
  obtain ⟨phase, hj⟩ := hf.journal
  unfold commitOrderedReplacements
  rw [if_neg hne, if_pos later.placed.targets_nodup]
  simp only [wp_bind, wp_step, wp_get, id_eq, hj, Option.isSome_some, if_true]
  exact ⟨Or.inr hf, recoverDirectory_wp hsha hdir hL hs hf⟩

theorem commitOrderedReplacements_fresh (faulty : FaultPoint → Bool) (request : Request directory)
    (hne : request.replacements ≠ []) (hs : ∀ r ∈ request.replacements, (fs₀ r.2).isSome)
    (hj : fs₀ (journalPath directory) = none)
    (hlose : ¬ RollbackLosesStaged faulty fs₀ (orderedReplacements request.replacements)) :
    wp (commitOrderedReplacements sha iterdir faulty directory stem request.replacements)
      (fun _ fs' => fs' (journalPath directory) = none
        ∧ AllStaged fs₀ (orderedReplacements request.replacements) fs')
      (fun _ fs' => (∃ f, faulty f = true)
        ∧ Resumable sha directory stem fs₀ (orderedReplacements request.replacements) fs')
      (Resumable sha directory stem fs₀ (orderedReplacements request.replacements)) fs₀ := by
  have hs' : ∀ r ∈ orderedReplacements request.replacements, (fs₀ r.2).isSome :=
    fun r hr => hs r ((orderedReplacements_perm _).mem_iff.mp hr)
  unfold commitOrderedReplacements
  rw [if_neg hne, if_pos request.placed.targets_nodup]
  simp only [wp_bind, wp_step, wp_get, id_eq, hj, Option.isSome_none, Bool.false_eq_true, if_false]
  refine ⟨Or.inl ⟨hj, Or.inl fun _ _ => rfl⟩, ?_⟩
  exact commitNewTransaction_wp hsha hdir faulty request.placed.ordered hs' hj hlose

omit hsha hdir

variable (sha iterdir directory stem fs₀)

/-- The trees a commit of `request` can leave behind: the commit itself is stopped after any
number of steps or ends, and later calls that find its journal are stopped in the same way. -/
inductive Interrupted (faulty : FaultPoint → Bool) (request : Request directory) :
    Tree C H → Prop where
  | first (n : Nat) : Interrupted faulty request (Prog.exec
      (commitOrderedReplacements sha iterdir faulty directory stem request.replacements) n
        fs₀).state
  | again {fs : Tree C H} (faulty' : FaultPoint → Bool) (later : Request directory) (n : Nat)
      (h : Interrupted faulty request fs) (hj : (fs (journalPath directory)).isSome) :
      Interrupted faulty request (Prog.exec
        (commitOrderedReplacements sha iterdir faulty' directory stem later.replacements) n
          fs).state

/-- What a later call makes of the tree `fs`: without a journal the targets are all old or all
new already; with a journal the call makes them so. In both cases it returns and leaves no
journal. A call that finds no journal works on its own staged files, which have to exist. -/
structure Recovers (rs : List (Path × Path)) (fs : Tree C H) : Prop where
  settled : fs (journalPath directory) = none → AllOriginal fs₀ rs fs ∨ AllStaged fs₀ rs fs
  returns : ∀ later : Request directory, later.replacements ≠ [] →
    (fs (journalPath directory) = none → ∀ r ∈ later.replacements, (fs r.2).isSome) →
    ∃ fs', Prog.run (commitOrderedReplacements sha iterdir (fun _ => false) directory stem
        later.replacements) fs = (.ok (), fs')
      ∧ fs' (journalPath directory) = none
      ∧ ((fs (journalPath directory)).isSome → AllOriginal fs₀ rs fs' ∨ AllStaged fs₀ rs fs')

variable {sha iterdir directory stem fs₀}

omit [DecidableEq H] in
theorem resumable_of_meets {α : Type} {o : Outcome (Tree C H) TransactionError α} {P : Prop}
    (h : Meets
      (fun _ fs' => fs' (journalPath directory) = none ∧ AllStaged fs₀ rs fs')
      (fun _ fs' => P ∧ Resumable sha directory stem fs₀ rs fs')
      (Resumable sha directory stem fs₀ rs) o) : Resumable sha directory stem fs₀ rs o.state := by
  cases o with
  | done a fs => exact Or.inl ⟨h.1, Or.inr h.2⟩
  | raised e fs => exact h.2
  | killed fs => exact h

variable (hsha : Function.Injective sha)

include hsha

theorem Interrupted.resumable (hdir : Listing iterdir) {request : Request directory}
    (hs : ∀ r ∈ request.replacements, (fs₀ r.2).isSome)
    (hj : fs₀ (journalPath directory) = none)
    (hlose : ¬ RollbackLosesStaged faulty fs₀ (orderedReplacements request.replacements))
    (h : Interrupted sha iterdir directory stem fs₀ faulty request fs) :
    Resumable sha directory stem fs₀ (orderedReplacements request.replacements) fs := by
  induction h with
  | first n =>
    by_cases hne : request.replacements = []
    · refine Or.inl ?_
      rw [commitOrderedReplacements, if_pos hne]
      exact ⟨hj, Or.inl fun _ _ => rfl⟩
    · exact resumable_of_meets (wp_exec
        (commitOrderedReplacements_fresh hsha hdir faulty request hne hs hj hlose) n)
  | again faulty' later n _ hjfs ih =>
    rcases ih with ⟨hn, _⟩ | hf
    · rw [hn] at hjfs
      cases hjfs
    · by_cases hne : later.replacements = []
      · rw [commitOrderedReplacements, if_pos hne]
        exact Or.inr hf
      · have hs' : ∀ r ∈ orderedReplacements request.replacements, (fs₀ r.2).isSome :=
          fun r hr => hs r ((orderedReplacements_perm _).mem_iff.mp hr)
        refine resumable_of_meets (P := False) (wp_exec (wp_mono (fun _ _ h => h)
          (fun _ _ h => h.elim) (fun _ h => h) (commitOrderedReplacements_forward hsha hdir
            faulty' request.placed.ordered hs' hf later hne)) n)

theorem Resumable.recovers (hdir : Listing iterdir) (hL : WellPlaced directory rs)
    (hs : ∀ r ∈ rs, (fs₀ r.2).isSome) (h : Resumable sha directory stem fs₀ rs fs) :
    Recovers sha iterdir directory stem fs₀ rs fs := by
  rcases h with ⟨hn, hall⟩ | hf
  · refine ⟨fun _ => hall, ?_⟩
    intro later hne hstaged
    have hnolose : ¬ RollbackLosesStaged (fun _ => false) fs
        (orderedReplacements later.replacements) := by
      cases orderedReplacements later.replacements with
      | nil => exact id
      | cons r rest => simp [RollbackLosesStaged]
    obtain ⟨_, fs', hrun, hn', -⟩ := wp_returns (wp_mono (fun _ _ h => h)
      (fun _ _ h => by obtain ⟨⟨f, hf⟩, -⟩ := h; cases hf) (fun _ h => h)
      (commitOrderedReplacements_fresh hsha hdir (fun _ => false) later hne (hstaged hn) hn
        hnolose))
    refine ⟨fs', hrun, hn', ?_⟩
    rw [hn]
    intro h
    cases h
  · obtain ⟨phase, hj⟩ := hf.journal
    refine ⟨fun hn => absurd (hj.symm.trans hn) (by simp), ?_⟩
    intro later hne _
    obtain ⟨_, fs', hrun, hn', hall⟩ := wp_returns
      (commitOrderedReplacements_forward hsha hdir (fun _ => false) hL hs hf later hne)
    exact ⟨fs', hrun, hn', fun _ => Or.inr hall⟩

/-! ## The rollback that loses a staged file -/

theorem applyAndCommit_moved (journal : Journal H)
    (hL : WellPlaced directory (r :: rest)) (hs : (fs₀ r.2).isSome)
    (ha : Applied directory fs₀ fs₁ fs [] (r :: rest)) (hrep : faulty (.replace 0) = false)
    (hwhere : faulty (.check 0) = true ∨ (rest = [] ∧ faulty .commit = true)) :
    wp (applyAndCommit sha faulty directory journal ((r :: rest).map (entryOf sha directory fs₀)))
      (fun _ _ => False)
      (fun e fs' => e.1 = 0 ∧ Applied directory fs₀ fs₁ fs' [r] rest) (fun _ => True) fs := by
  simp only [applyAndCommit, List.map_cons, applyEntries, hrep, Bool.false_eq_true, if_false,
    wp_bind, wp_mapError]
  refine wp_mono ?_ (fun _ _ h => h.elim) (fun _ _ => trivial)
    (applySingle_wp hsha (by simpa using hL) hs ha)
  rintro _ fs' ha'
  cases hc : faulty (.check 0) with
  | true =>
    simp only [if_true, wp_raise]
    exact ⟨trivial, ha'⟩
  | false =>
    obtain ⟨rfl, hcommit⟩ := hwhere.resolve_left (by rw [hc]; decide)
    have hv : fileContentHash sha fs' (entryOf sha directory fs₀ r).target
        = (entryOf sha directory fs₀ r).stagedHash :=
      (fileContentHash_iff hsha _ r.1 (fs₀ r.2)).mpr (ha'.done_target r (by simp))
    simp only [Bool.false_eq_true, if_false, wp_bind, wp_get]
    rw [if_pos hv]
    simp only [List.map_nil, applyEntries, wp_pure, hcommit, if_true, wp_raise]
    exact ⟨rfl, ha'⟩

theorem rollbackEntry_returns (hb : (fs₀ r.1).isSome → fs (backupPath directory r.1) = fs₀ r.1) :
    wp (rollbackEntry sha (entryOf sha directory fs₀ r))
      (fun _ _ => True) (fun _ _ => False) (fun _ => True) fs := by
  set entry := entryOf sha directory fs₀ r with hentry
  unfold rollbackEntry
  cases hex : (fs₀ r.1).isSome with
  | true =>
    have hexisted : entry.existed = true := hex
    have hbackup : entry.backup = some (backupPath directory r.1) := by
      rw [hentry, entryOf, hex]; rfl
    rw [if_pos hexisted]
    unfold restoreExistingEntry
    simp only [wp_bind, wp_get, hbackup, hb hex, hex, if_true, wp_step]
    have hv : fileContentHash sha (Tree.replace (backupPath directory r.1) entry.target fs)
        entry.target = entry.originalHash := by
      refine (fileContentHash_iff hsha _ r.1 (fs₀ r.1)).mpr ?_
      rw [← hb hex]
      exact Tree.replace_target _ r.1 fs
    rw [if_pos hv]
    exact ⟨trivial, trivial⟩
  | false =>
    have hexisted : ¬ entry.existed = true := by
      show ¬ (fs₀ r.1).isSome = true
      rw [hex]; decide
    rw [if_neg hexisted]
    simp only [wp_bind, wp_get]
    split
    · exact ⟨trivial, trivial⟩
    · trivial

theorem rollbackAll_returns (hL : WellPlaced directory rs)
    (hnd : ((existing fs₀ rs).map (fun r => r.1.name)).Nodup)
    (hb : ∀ r ∈ existing fs₀ rs, fs (backupPath directory r.1) = fs₀ r.1) :
    wp (rollbackAll sha (rs.map (entryOf sha directory fs₀)))
      (fun _ _ => True) (fun _ _ => False) (fun _ => True) fs := by
  induction rs generalizing fs with
  | nil => trivial
  | cons r rs ih =>
    have hin : ∀ r' ∈ existing fs₀ rs, r' ∈ existing fs₀ (r :: rs) :=
      fun r' h => (mem_existing_cons r r' rs).mpr (Or.inr h)
    have hnd' : ((existing fs₀ rs).map (fun r => r.1.name)).Nodup :=
      hnd.sublist (((List.sublist_cons_self r rs).filter _).map _)
    simp only [List.map_cons, rollbackAll, wp_bind]
    refine wp_mono ?_ (fun _ _ h => h.2) (fun _ _ => trivial)
      (wp_and (rollbackEntry_wp hsha (hL.outside r (by simp)).1)
        (rollbackEntry_returns hsha (fun hex =>
          hb r ((mem_existing_cons r r rs).mpr (Or.inl ⟨rfl, hex⟩)))))
    rintro _ fs1 ⟨⟨-, hframe, -⟩, -⟩
    refine ih (hL.sublist (List.sublist_cons_self r rs)) hnd' ?_
    intro r' hr'
    rw [hframe _ ?_ ?_, hb r' (hin r' hr')]
    · intro r'' hr'' he
      obtain rfl := List.mem_singleton.mp hr''
      exact (hL.outside r'' (by simp)).1 (by rw [← he, parent_backupPath])
    · intro r'' hr'' he
      rcases (mem_existing_cons r r'' []).mp hr'' with ⟨rfl, hex⟩ | h
      · have hcons : existing fs₀ (r'' :: rs) = r'' :: existing fs₀ rs :=
          List.filter_cons_of_pos hex
        rw [hcons, List.map_cons, List.nodup_cons] at hnd
        exact hnd.1 (List.mem_map.mpr ⟨r', hr', (backupPath_eq_iff _ _ _).mp he⟩)
      · simp [existing] at h

omit hsha

variable (iterdir stem) in
theorem rollback_leaves_lost (hsha : Function.Injective sha) (hL : WellPlaced directory (r :: rest))
    (hs : ∀ r' ∈ r :: rest, (fs₀ r'.2).isSome)
    (hlose : RollbackLosesStaged faulty fs₀ (r :: rest)) :
    ∃ fs, Leaves (commitNewTransaction sha iterdir faulty directory stem (r :: rest)) fs₀ fs
      ∧ fs (journalPath directory)
        = some (.journal (journalOf sha directory stem fs₀ (r :: rest) .prepared))
      ∧ fs r.1 ≠ fs₀ r.2 ∧ fs r.2 ≠ fs₀ r.2 := by
  obtain ⟨hne, hrep, hwhere, hnd⟩ := hlose
  obtain ⟨entries, fs1, hrun1, rfl, hout, -, hback, -⟩ :=
    wp_returns (prepareEntries_wp (fun _ _ => rfl) hL.outside hs :
      wp (prepareEntries sha directory (r :: rest)) _ _ _ fs₀)
  set journal := journalOf sha directory stem fs₀ (r :: rest) .prepared with hjournal
  set fs1' := Tree.write (journalPath directory) (.journal journal) fs1
  obtain ⟨e, fs2, hrun2, he0, ha⟩ := wp_raises (applyAndCommit_moved hsha
    journal hL (hs r (by simp)) (applied_nil journal hL hout) hrep hwhere)
  have hLr : WellPlaced directory (r :: rest).reverse := hL.perm (List.reverse_perm _).symm
  -- the apply has not touched the backups
  have hback2 : ∀ r' ∈ existing fs₀ (r :: rest), fs2 (backupPath directory r'.1) = fs₀ r'.1 := by
    intro r' hr'
    rw [ha.journalled _ (parent_backupPath directory r'.1),
      Tree.write_other _ _ (journalPath_ne_backupPath directory r'.1).symm]
    exact hback hnd r' hr'
  have hrollback : wp (rollbackEntries sha ((r :: rest).map (entryOf sha directory fs₀)))
      (fun _ fs' => (∀ r' ∈ (r :: rest).reverse, fs' r'.1 = fs₀ r'.1)
        ∧ RollbackFrame directory fs₀ (r :: rest).reverse fs2 fs')
      (fun _ _ => False) (fun _ => True) fs2 := by
    rw [rollbackEntries, ← List.map_reverse]
    refine wp_mono (fun _ _ h => ⟨h.1.1, h.1.2.2.2.2⟩) (fun _ _ h => h.2) (fun _ _ => trivial)
      (wp_and (rollbackAll_wp hsha hLr) (rollbackAll_returns hsha hLr ?_ ?_))
    · rw [existing_reverse, List.map_reverse, List.nodup_reverse]
      exact hnd
    · intro r' hr'
      rw [existing_reverse] at hr'
      exact hback2 r' (List.mem_reverse.mp hr')
  obtain ⟨_, fs3, hrun3, horig, hframe⟩ := wp_returns hrollback
  refine ⟨fs3, ?_, ?_, ?_, ?_⟩
  · refine Prog.Leaves.right hrun1 (Prog.Leaves.right (run_step _ fs1) ?_)
    have hattempt : Prog.run (Prog.attempt (applyAndCommit sha faulty directory journal
        ((r :: rest).map (entryOf sha directory fs₀))) : Action C H _) fs1'
          = (.ok (.error e), fs2) := by
      rw [run_attempt, hrun2]
    refine Prog.Leaves.right hattempt (Prog.Leaves.left ?_)
    unfold recordTransactionFailure
    rw [if_pos he0]
    exact Prog.Leaves.right hrun3 (Prog.Leaves.left (Prog.Leaves.here _ _ fs3))
  · rw [hframe.journal hLr, ha.journalled _ (parent_journalPath directory), Tree.write_same]
  · rw [horig r (by simp)]
    exact hne
  · have hgone : fs3 r.2 = none := by
      rw [hframe.other (hL.outside r (by simp)).2 ?_, ha.done_moved r (by simp) hne]
      intro r' hr' he
      exact hL.apart r' (List.mem_reverse.mp hr') r (by simp) he.symm
    rw [hgone]
    intro h
    have := hs r (by simp)
    rw [← h] at this
    cases this

theorem commitOrderedReplacements_stuck (hsha : Function.Injective sha) (faulty : FaultPoint → Bool)
    {phase : Phase} (hs : (fs₀ r.2).isSome)
    (hj : fs (journalPath directory)
      = some (.journal (journalOf sha directory stem fs₀ (r :: rest) phase)))
    (ht : fs r.1 ≠ fs₀ r.2) (hst : fs r.2 ≠ fs₀ r.2) (later : Request directory)
    (hne : later.replacements ≠ []) :
    Prog.run (commitOrderedReplacements sha iterdir faulty directory stem later.replacements) fs
      = (.error (.recoveryStagedUnavailable r.2), fs) := by
  set entry := entryOf sha directory fs₀ r
  have hmt : ¬ fileMatchesHash sha fs entry.target entry.stagedHash = true :=
    fun h => ht ((fileMatchesHash_iff hsha fs r.1 hs).mp h)
  have hms : ¬ fileMatchesHash sha fs entry.staged entry.stagedHash = true :=
    fun h => hst ((fileMatchesHash_iff hsha fs r.2 hs).mp h)
  have hentry : Prog.run (recoverEntry sha entry : Action C H Unit) fs
      = (.error (.recoveryStagedUnavailable r.2), fs) := by
    unfold recoverEntry
    rw [run_bind_ok (run_get fs), if_neg hmt, if_neg hms]
    rfl
  have hrecover : Prog.run (recoverDirectory sha iterdir directory stem) fs
      = (.error (.recoveryStagedUnavailable r.2), fs) := by
    unfold recoverDirectory
    rw [run_bind_ok (run_get fs)]
    simp only [hj, journalOf, if_true, List.map_cons]
    exact run_bind_error (run_bind_error hentry)
  unfold commitOrderedReplacements
  rw [if_neg hne, if_pos later.placed.targets_nodup, run_bind_ok (run_step _ fs),
    run_bind_ok (run_get _), if_pos (by rw [id, hj]; rfl)]
  exact hrecover

theorem Recovers.perm {rs rs' : List (Path × Path)} (hp : rs.Perm rs')
    (h : Recovers sha iterdir directory stem fs₀ rs fs) :
    Recovers sha iterdir directory stem fs₀ rs' fs := by
  have hall : ∀ fs' : Tree C H, AllOriginal fs₀ rs fs' ∨ AllStaged fs₀ rs fs' →
      AllOriginal fs₀ rs' fs' ∨ AllStaged fs₀ rs' fs' := fun fs' =>
    Or.imp (fun ho r hr => ho r (hp.mem_iff.mpr hr)) (fun hst r hr => hst r (hp.mem_iff.mpr hr))
  refine ⟨fun hn => hall fs (h.settled hn), ?_⟩
  intro later hne hstaged
  obtain ⟨fs', hrun, hn, hafter⟩ := h.returns later hne hstaged
  exact ⟨fs', hrun, hn, fun hj => hall fs' (hafter hj)⟩

variable (iterdir stem) in
theorem lost_not_recovers (hsha : Function.Injective sha)
    {request : Request directory} (hs : ∀ r ∈ request.replacements, (fs₀ r.2).isSome)
    (hj : fs₀ (journalPath directory) = none)
    (hlose : RollbackLosesStaged faulty fs₀ (orderedReplacements request.replacements)) :
    ∃ fs, Interrupted sha iterdir directory stem fs₀ faulty request fs
      ∧ ¬ Recovers sha iterdir directory stem fs₀ request.replacements fs := by
  have hne : request.replacements ≠ [] := by
    intro h
    rw [h] at hlose
    exact hlose
  have hL := request.placed.ordered
  have hs' : ∀ r ∈ orderedReplacements request.replacements, (fs₀ r.2).isSome :=
    fun r hr => hs r ((orderedReplacements_perm _).mem_iff.mp hr)
  obtain ⟨r, rest, hord⟩ : ∃ r rest, orderedReplacements request.replacements = r :: rest := by
    cases h : orderedReplacements request.replacements with
    | nil => rw [h] at hlose; exact hlose.elim
    | cons r rest => exact ⟨r, rest, rfl⟩
  rw [hord] at hL hs' hlose
  obtain ⟨fs, hleaves, hjfs, ht, hst⟩ :=
    rollback_leaves_lost iterdir stem hsha hL hs' hlose
  have hcall : Leaves (commitOrderedReplacements sha iterdir faulty directory stem
      request.replacements) fs₀ fs := by
    unfold commitOrderedReplacements
    rw [if_neg hne, if_pos request.placed.targets_nodup]
    refine Prog.Leaves.right (run_step _ fs₀) (Prog.Leaves.right (run_get _) ?_)
    rw [if_neg (by simp [hj]), hord]
    exact hleaves
  obtain ⟨n, hn⟩ := hcall
  refine ⟨fs, ?_, ?_⟩
  · have : Interrupted sha iterdir directory stem fs₀ faulty request _ := .first n
    rwa [hn] at this
  · intro hrec
    obtain ⟨fs', hrun, -⟩ :=
      hrec.returns request hne (fun hn => absurd (hjfs.symm.trans hn) (by simp))
    rw [commitOrderedReplacements_stuck hsha _ (hs' r (by simp)) hjfs ht hst request hne] at hrun
    cases hrun

/-- **Journal recovery.** However often a commit and the calls after it are stopped, a later call
returns, removes the journal and leaves all targets old or all new: exactly when the commit does
not fail, with its first file moved, in a way that its rollback gets through. -/
theorem commitOrderedReplacements_recovers_iff (hsha : Function.Injective sha)
    (hdir : Listing iterdir) (faulty : FaultPoint → Bool) (request : Request directory)
    (hs : ∀ r ∈ request.replacements, (fs₀ r.2).isSome)
    (hj : fs₀ (journalPath directory) = none) :
    (∀ fs, Interrupted sha iterdir directory stem fs₀ faulty request fs →
        Recovers sha iterdir directory stem fs₀ request.replacements fs)
      ↔ ¬ RollbackLosesStaged faulty fs₀ (orderedReplacements request.replacements) := by
  constructor
  · intro h hlose
    obtain ⟨fs, hint, hnot⟩ := lost_not_recovers iterdir stem hsha hs hj hlose
    exact hnot (h fs hint)
  · intro hlose fs hint
    have hs' : ∀ r ∈ orderedReplacements request.replacements, (fs₀ r.2).isSome :=
      fun r hr => hs r ((orderedReplacements_perm _).mem_iff.mp hr)
    exact Recovers.perm (orderedReplacements_perm _)
      ((hint.resumable hsha hdir hs hj hlose).recovers hsha hdir request.placed.ordered hs')

end

/-! ## One link table and its manifest -/

/-- A hash without collisions: the digest of a file is the file. -/
inductive Digest : Type where
  | of (f : File Nat Digest)

noncomputable instance : DecidableEq Digest := Classical.decEq _

namespace Example

def directory : Path := ["links", "journal"]

/-- A link table and the manifest that describes it. -/
def replacements : List (Path × Path) :=
  [(["manifest.json"], ["links", "staged", "manifest.json"]),
    (["links", "a.parquet"], ["links", "staged", "a.parquet"])]

def request : Request directory where
  replacements := replacements
  placed := ⟨by decide, by decide, by decide, by decide⟩

def tree : Tree Nat Digest := fun p =>
  if p = ["manifest.json"] then some (.data 0)
  else if p = ["links", "a.parquet"] then some (.data 1)
  else if p = ["links", "staged", "manifest.json"] then some (.data 2)
  else if p = ["links", "staged", "a.parquet"] then some (.data 3)
  else none

/-- The journal and the two backups are all that is ever in the journal directory. -/
def iterdir (fs : Tree Nat Digest) (d : Path) : List Path :=
  [journalPath d, d ++ ["a.parquet.backup"], d ++ ["manifest.json.backup"]].filter
    (fun p => (fs p).isSome)

theorem iterdir_listing : Listing iterdir where
  inside := by
    intro fs d p hp
    have hp' := (List.mem_filter.mp hp).1
    simp only [List.mem_cons, List.not_mem_nil, or_false] at hp'
    rcases hp' with rfl | rfl | rfl
    · exact parent_journalPath d
    · exact List.dropLast_concat
    · exact List.dropLast_concat
  journal := fun fs d h => List.mem_filter.mpr ⟨by simp, h⟩

theorem digest_injective : Function.Injective Digest.of := fun _ _ h => Digest.of.inj h

theorem ordered_eq : orderedReplacements replacements
    = [(["links", "a.parquet"], ["links", "staged", "a.parquet"]),
      (["manifest.json"], ["links", "staged", "manifest.json"])] := by decide

theorem staged_exist : ∀ r ∈ request.replacements, (tree r.2).isSome := by decide

/-- A failure after the second file has been moved leaves a journal that recovers. -/
theorem recovers_after_second_file :
    ¬ RollbackLosesStaged (fun f => f = .check 1) tree (orderedReplacements replacements)
      ∧ ∀ fs, Interrupted Digest.of iterdir directory "a" tree (fun f => f = .check 1) request fs →
        Recovers Digest.of iterdir directory "a" tree replacements fs := by
  have hlose : ¬ RollbackLosesStaged (fun f => f = .check 1) tree
      (orderedReplacements replacements) := by
    rw [ordered_eq]
    rintro ⟨-, -, h | ⟨h, -⟩, -⟩
    · revert h; decide
    · cases h
  exact ⟨hlose, (commitOrderedReplacements_recovers_iff digest_injective iterdir_listing _ request
    staged_exist rfl).mpr hlose⟩

/-- A failure after the first file has been moved, killed at the end of its rollback, leaves a
journal that every later call stumbles over. -/
theorem not_recovers_after_first_file :
    ¬ ∀ fs, Interrupted Digest.of iterdir directory "a" tree (fun f => f = .check 0) request fs →
      Recovers Digest.of iterdir directory "a" tree replacements fs := by
  intro h
  have hlose : RollbackLosesStaged (fun f => f = .check 0) tree
      (orderedReplacements replacements) := by
    rw [ordered_eq]
    refine ⟨?_, rfl, Or.inl rfl, by decide⟩
    intro he
    cases he
  obtain ⟨fs, hint, hnot⟩ :=
    lost_not_recovers iterdir "a" digest_injective staged_exist rfl hlose
  exact hnot (h fs hint)

end Example

end OsmPolygonWikidata.LinkMigration
