import OsmPolygonWikidata.LinkMigration.Restart

/-! # The rollback of a commit whose first entry raises

`_record_transaction_failure` rolls a commit back when its first entry has raised. Every entry that
existed is restored from its backup, and the path of a backup depends on the name of its target only.
Of two targets with one name the later backup overwrites the earlier one, and the rollback uses it
up for the later target. So the rollback is exact if and only if no two of the targets that existed
share a name (`rollback_exact_iff`).
-/

namespace OsmPolygonWikidata.LinkMigration

open Durable
open Prog (wp run_attempt run_bind_error run_bind_ok run_get run_step wp_and wp_bind wp_get
  wp_mapError wp_mono wp_raise wp_raises wp_returns wp_run wp_step)

/-- The files of a directory. -/
def entriesOf {C H : Type} (fs : Tree C H) (d : Path) : Set Path :=
  {p | p.parent = d ∧ (fs p).isSome = true}

/-- `iterdir` lists the files of a directory, in any order. -/
structure FullListing {C H : Type} (iterdir : Tree C H → Path → List Path) : Prop
    extends Listing iterdir where
  all : ∀ fs d, (entriesOf fs d).Finite → ∀ p ∈ entriesOf fs d, p ∈ iterdir fs d

/-- Applying the first entry raises, in front of the move of its file or behind it. -/
def FirstRaises (faulty : FaultPoint → Bool) : Prop :=
  faulty (.replace 0) = true ∨ faulty (.check 0) = true

/-- The exception of the first entry. -/
def firstError (faulty : FaultPoint → Bool) : TransactionError :=
  if faulty (.replace 0) then .fault (.replace 0) else .fault (.check 0)

theorem firstError_eq_fault (faulty : FaultPoint → Bool) :
    ∃ point, firstError faulty = .fault point := by
  unfold firstError
  split
  · exact ⟨_, rfl⟩
  · exact ⟨_, rfl⟩

/-- Every target is what it was before, and nothing is left in the journal directory. -/
structure RolledBack {C H : Type} (directory : Path) (fs₀ : Tree C H) (rs : List (Path × Path))
    (fs : Tree C H) : Prop where
  targets : ∀ r ∈ rs, fs r.1 = fs₀ r.1
  gone : ∀ p : Path, p.parent = directory → fs p = none

section

variable {C H : Type} {sha : File C H → H} {iterdir : Tree C H → Path → List Path}
variable {directory : Path} {stem : String} {fs₀ : Tree C H}

theorem cleanup_empties (hdir : FullListing iterdir) {fs : Tree C H}
    (hfin : (entriesOf fs directory).Finite) :
    wp (cleanup iterdir directory)
      (fun _ fs' => SameOutside directory fs' fs ∧ ∀ p : Path, p.parent = directory → fs' p = none)
      (fun _ _ => False) (fun _ => True) fs := by
  simp only [cleanup, wp_bind, wp_get, wp_step]
  refine wp_mono ?_ (fun _ _ h => h) (fun _ _ => trivial) (unlinkAll_wp (hdir.inside fs directory))
  rintro _ fs' ⟨hout, hgone, hless⟩
  refine ⟨trivial, hout, fun p hp => ?_⟩
  by_cases hsome : (fs p).isSome
  · exact hgone p (hdir.all fs directory hfin p ⟨hp, hsome⟩)
  · rcases hless p with h | h
    · rw [id, h]
      simpa using hsome
    · exact h

variable [DecidableEq H]

variable {faulty : FaultPoint → Bool}

theorem applyAndCommit_first (hsha : Function.Injective sha) (hfirst : FirstRaises faulty)
    {r : Path × Path} {rest : List (Path × Path)} {fs fs₁ : Tree C H} (journal : Journal H)
    (hL : WellPlaced directory (r :: rest)) (hs : (fs₀ r.2).isSome)
    (ha : Applied directory fs₀ fs₁ fs [] (r :: rest)) :
    wp (applyAndCommit sha faulty directory journal ((r :: rest).map (entryOf sha directory fs₀)))
      (fun _ _ => False)
      (fun e fs' => e = (0, firstError faulty)
        ∧ ∃ done rest', Applied directory fs₀ fs₁ fs' done rest') (fun _ => True) fs := by
  simp only [applyAndCommit, List.map_cons, applyEntries, wp_bind]
  cases hrep : faulty (.replace 0) with
  | true =>
    simp only [if_true, wp_raise]
    exact ⟨by rw [firstError, if_pos hrep], [], r :: rest, ha⟩
  | false =>
    have hcheck : faulty (.check 0) = true := hfirst.resolve_left (by rw [hrep]; decide)
    simp only [Bool.false_eq_true, if_false, wp_bind, wp_mapError]
    refine wp_mono ?_ (fun _ _ h => h.elim) (fun _ _ => trivial)
      (applySingle_wp hsha (by simpa using hL) hs ha)
    rintro _ fs' ha'
    simp only [hcheck, if_true, wp_raise]
    exact ⟨by rw [firstError, hrep]; rfl, [] ++ [r], rest, ha'⟩

theorem rollbackAll_raises (entries : List (TransactionEntry H)) (fs : Tree C H) :
    wp (rollbackAll sha entries) (fun _ _ => True) (fun e _ => ∀ point, e ≠ .fault point)
      (fun _ => True) fs := by
  induction entries generalizing fs with
  | nil => trivial
  | cons entry entries ih =>
    have hentry : wp (rollbackEntry sha entry) (fun _ _ => True)
        (fun e _ => ∀ point, e ≠ .fault point) (fun _ => True) fs := by
      unfold rollbackEntry
      split
      · unfold restoreExistingEntry
        simp only [wp_bind, wp_get]
        split
        · exact fun _ h => by cases h
        · split
          · simp only [wp_bind, wp_step, wp_get]
            refine ⟨trivial, ?_⟩
            split
            · trivial
            · exact fun _ h => by cases h
          · exact fun _ h => by cases h
      · simp only [wp_bind, wp_get]
        split
        · exact ⟨trivial, trivial⟩
        · trivial
    simp only [rollbackAll, wp_bind]
    exact wp_mono (fun _ fs' _ => ih fs') (fun _ _ h => h) (fun _ _ => trivial) hentry

omit [DecidableEq H] in
theorem writeJournal_backup (j : Journal H) (fs : Tree C H) (target : Path) :
    Tree.write (journalPath directory) (.journal j) fs (backupPath directory target)
      = fs (backupPath directory target) :=
  Tree.write_other _ _ (journalPath_ne_backupPath directory target).symm

theorem commitNewTransaction_rolledBack_iff (hsha : Function.Injective sha)
    (hdir : FullListing iterdir) (hfirst : FirstRaises faulty) {ordered : List (Path × Path)}
    (hL : WellPlaced directory ordered) (hne : ordered ≠ []) (hs : ∀ r ∈ ordered, (fs₀ r.2).isSome)
    (hfin : (entriesOf fs₀ directory).Finite) :
    (∃ fs, Prog.run (commitNewTransaction sha iterdir faulty directory stem ordered) fs₀
        = (.error (firstError faulty), fs) ∧ RolledBack directory fs₀ ordered fs)
      ↔ ((existing fs₀ ordered).map (fun r => r.1.name)).Nodup := by
  obtain ⟨r, rest, hcons⟩ := List.exists_cons_of_ne_nil hne
  -- the call up to its rollback
  obtain ⟨entries, fs1, hrun1, rfl, hout, -, hback, hkeep⟩ :=
    wp_returns (prepareEntries_wp (fun _ _ => rfl) hL.outside hs :
      wp (prepareEntries sha directory ordered) _ _ _ fs₀)
  set journal := journalOf sha directory stem fs₀ ordered .prepared with hjournal
  have happlied := applied_nil journal hL hout
  obtain ⟨e, fs2, hrun2, rfl, done, rest', ha⟩ := wp_raises (hcons ▸ applyAndCommit_first hsha
    hfirst journal (hcons ▸ hL) (hs r (by simp [hcons])) (hcons ▸ happlied))
  set fs1' := Tree.write (journalPath directory) (.journal journal) fs1
  have hattempt : Prog.run (Prog.attempt (applyAndCommit sha faulty directory journal
      (ordered.map (entryOf sha directory fs₀))) : Action C H _) fs1'
        = (.ok (.error (0, firstError faulty)), fs2) := by
    rw [run_attempt, hrun2]
  have hcall : Prog.run (commitNewTransaction sha iterdir faulty directory stem ordered) fs₀
      = Prog.run (do
          recordTransactionFailure sha iterdir directory journal
            (ordered.map (entryOf sha directory fs₀)) 0
          Prog.raise (firstError faulty) : Action C H Unit) fs2 := by
    rw [commitNewTransaction, run_bind_ok hrun1]
    exact (run_bind_ok (run_step _ fs1)).trans (run_bind_ok hattempt)
  rw [hcall, recordTransactionFailure, if_pos rfl]
  have hLr : WellPlaced directory ordered.reverse := hL.perm (List.reverse_perm _).symm
  have hndr : ((existing fs₀ ordered.reverse).map (fun r => r.1.name)).Nodup
      ↔ ((existing fs₀ ordered).map (fun r => r.1.name)).Nodup := by
    rw [existing_reverse, List.map_reverse, List.nodup_reverse]
  have hrollback := wp_and (rollbackAll_wp hsha hLr)
    (rollbackAll_raises (ordered.reverse.map (entryOf sha directory fs₀)) fs2)
  constructor
  · -- the exception is handed on, so the rollback has got through
    rintro ⟨fs, hraised, -⟩
    have hwp := wp_run hrollback
    cases hback' : Prog.run (rollbackAll sha (ordered.reverse.map (entryOf sha directory fs₀)))
        fs2 with
    | mk result fs3 =>
      rw [hback'] at hwp
      cases result with
      | ok a => exact hndr.mp hwp.1.2.2.1
      | error e =>
        rw [rollbackEntries, ← List.map_reverse] at hraised
        rw [run_bind_error (run_bind_error hback')] at hraised
        obtain ⟨point, hpoint⟩ := firstError_eq_fault faulty
        have he : e = firstError faulty := Except.error.inj (Prod.mk.inj hraised).1
        exact absurd (he.trans hpoint) (hwp.2 point)
  · intro hnodup
    have hback2 : ∀ r' ∈ existing fs₀ ordered.reverse,
        fs2 (backupPath directory r'.1) = fs₀ r'.1 := by
      intro r' hr'
      rw [existing_reverse] at hr'
      have hbackup : fs1' (backupPath directory r'.1) = fs1 (backupPath directory r'.1) :=
        writeJournal_backup journal fs1 r'.1
      rw [ha.journalled _ (parent_backupPath directory r'.1), hbackup]
      exact hback hnodup r' (List.mem_reverse.mp hr')
    obtain ⟨⟨⟩, fs3, hrun3, ⟨hold, -, -, -, hframe⟩, -⟩ := wp_returns
      (wp_mono (fun _ _ h => h) (fun _ _ h => h.2) (fun _ _ => trivial)
        (wp_and (rollbackAll_wp hsha hLr) (rollbackAll_returns hsha hLr (hndr.mpr hnodup) hback2)))
    set fs3' := Tree.write (journalPath directory)
      (.journal { journal with phase := .rolledBack }) fs3
    -- the journal and the backups are all that has come into the directory
    have hfin' : (entriesOf fs3' directory).Finite := by
      refine (((ordered.map (fun r => backupPath directory r.1)).finite_toSet).insert
        (journalPath directory) |>.union hfin).subset ?_
      rintro p ⟨hparent, hsome⟩
      by_cases hjournalled : p = journalPath directory
      · exact Or.inl (Or.inl hjournalled)
      by_cases hbackup : ∃ r ∈ ordered, p = backupPath directory r.1
      · obtain ⟨r', hr', rfl⟩ := hbackup
        exact Or.inl (Or.inr (List.mem_map.mpr ⟨r', hr', rfl⟩))
      push Not at hbackup
      refine Or.inr ⟨hparent, ?_⟩
      have hexisting : ∀ rs : List (Path × Path), (∀ r' ∈ rs, r' ∈ ordered) →
          ∀ r' ∈ existing fs₀ rs, p ≠ backupPath directory r'.1 :=
        fun rs hrs r' hr' => hbackup r' (hrs r' (List.mem_filter.mp hr').1)
      have htarget : ∀ r' ∈ ordered.reverse, p ≠ r'.1 := by
        rintro r' hr' rfl
        exact (hL.outside r' (List.mem_reverse.mp hr')).1 hparent
      have hsame3 : fs3' p = fs₀ p := by
        calc fs3' p = fs3 p := Tree.write_other _ _ hjournalled
          _ = fs2 p := hframe p htarget (hexisting _ (fun r' hr' => List.mem_reverse.mp hr'))
          _ = fs1' p := ha.journalled p hparent
          _ = fs1 p := Tree.write_other _ _ hjournalled
          _ = fs₀ p := hkeep p (hexisting _ (fun _ hr' => hr'))
      rw [← hsame3]
      exact hsome
    obtain ⟨⟨⟩, fs4, hrun4, hsame, hgone⟩ := wp_returns
      (cleanup_empties hdir hfin' : wp (cleanup iterdir directory) _ _ _ fs3')
    refine ⟨fs4, ?_, ?_, hgone⟩
    · have hrecord : Prog.run (do
          rollbackAll sha (ordered.reverse.map (entryOf sha directory fs₀))
          Prog.step (Tree.write (journalPath directory)
            (.journal { journal with phase := .rolledBack }))
          cleanup iterdir directory : Action C H Unit) fs2 = (.ok (), fs4) := by
        rw [run_bind_ok hrun3]
        exact (run_bind_ok (run_step _ fs3)).trans hrun4
      rw [rollbackEntries, ← List.map_reverse, run_bind_ok hrecord]
      rfl
    · intro r' hr'
      have hwritten : fs3' r'.1 = fs3 r'.1 :=
        sameOutside_writeJournal _ fs3 _ (hL.outside r' hr').1
      rw [hsame _ (hL.outside r' hr').1, hwritten]
      exact hold r' (List.mem_reverse.mpr hr')

theorem run_commitOrderedReplacements_fresh {rs : List (Path × Path)} (hne : rs ≠ [])
    (hnodup : (rs.map Prod.fst).Nodup) (hj : fs₀ (journalPath directory) = none) :
    Prog.run (commitOrderedReplacements sha iterdir faulty directory stem rs) fs₀
      = Prog.run (commitNewTransaction sha iterdir faulty directory stem (orderedReplacements rs))
        fs₀ := by
  rw [commitOrderedReplacements, if_neg hne, if_pos hnodup,
    run_bind_ok (run_step _ fs₀), run_bind_ok (run_get _), id, hj]
  rfl

/-- **The rollback of the first entry.** A call whose first entry raises hands on that exception
with everything as it was before, if and only if no two of the targets that existed share a name. -/
theorem rollback_exact_iff (hsha : Function.Injective sha) (hdir : FullListing iterdir)
    {faulty : FaultPoint → Bool} (hfirst : FirstRaises faulty) (request : Request directory)
    (hne : request.replacements ≠ []) (hs : ∀ r ∈ request.replacements, (fs₀ r.2).isSome)
    (hj : fs₀ (journalPath directory) = none) (hfin : (entriesOf fs₀ directory).Finite) :
    (∃ fs, Prog.run (commitOrderedReplacements sha iterdir faulty directory stem
        request.replacements) fs₀ = (.error (firstError faulty), fs)
      ∧ RolledBack directory fs₀ request.replacements fs)
      ↔ ((existing fs₀ request.replacements).map (fun r => r.1.name)).Nodup := by
  have hperm := orderedReplacements_perm request.replacements
  have hne' : orderedReplacements request.replacements ≠ [] := fun h =>
    hne (List.Perm.nil_eq (h ▸ hperm)).symm
  have hnd : ((existing fs₀ request.replacements).map (fun r => r.1.name)).Nodup
      ↔ ((existing fs₀ (orderedReplacements request.replacements)).map (fun r => r.1.name)).Nodup :=
    ((hperm.filter _).map _).nodup_iff.symm
  rw [run_commitOrderedReplacements_fresh hne request.placed.targets_nodup hj, hnd,
    ← commitNewTransaction_rolledBack_iff hsha hdir hfirst request.placed.ordered hne'
      (fun r hr => hs r (hperm.mem_iff.mp hr)) hfin]
  constructor
  · rintro ⟨fs, hrun, hold, hgone⟩
    exact ⟨fs, hrun, fun r hr => hold r (hperm.mem_iff.mp hr), hgone⟩
  · rintro ⟨fs, hrun, hold, hgone⟩
    exact ⟨fs, hrun, fun r hr => hold r (hperm.mem_iff.mpr hr), hgone⟩

end

/-! ## A link table and a Wikivoyage table of one stem -/

namespace Rollback.Example

def directory : Path := [".transactions", "a"]

def links : Path × Path :=
  (["polygon_articles", "a.parquet"], [".staging", "polygon_articles", "a.parquet"])

def voyage : Path × Path :=
  (["wikivoyage", "documents", "a.parquet"], [".staging", "wikivoyage", "documents", "a.parquet"])

def manifest : Path × Path := (["manifest.json"], [".staging", "manifest.json"])

/-- The files of a stem: old contents in the targets, new ones in the staged files. -/
def tree : Tree Nat Digest := fun p =>
  if p ∈ [links.1, voyage.1, manifest.1] then some (.data 0)
  else if p ∈ [links.2, voyage.2, manifest.2] then some (.data 1)
  else none

noncomputable def iterdir (fs : Tree Nat Digest) (d : Path) : List Path :=
  open Classical in
  if h : (entriesOf fs d).Finite then h.toFinset.toList
  else [journalPath d].filter (fun p => (fs p).isSome)

theorem iterdir_fullListing : FullListing iterdir where
  inside := by
    intro fs d p hp
    unfold iterdir at hp
    split at hp
    · rename_i hfin
      exact (hfin.mem_toFinset.mp (Finset.mem_toList.mp hp)).1
    · rw [List.mem_singleton.mp (List.mem_filter.mp hp).1]
      exact parent_journalPath d
  journal := by
    intro fs d hj
    unfold iterdir
    split
    · rename_i hfin
      exact Finset.mem_toList.mpr (hfin.mem_toFinset.mpr ⟨parent_journalPath d, hj⟩)
    · exact List.mem_filter.mpr ⟨by simp, hj⟩
  all := by
    intro fs d hfin p hp
    unfold iterdir
    rw [dif_pos hfin]
    exact Finset.mem_toList.mpr (hfin.mem_toFinset.mpr hp)

theorem entriesOf_tree : entriesOf tree directory = ∅ := by
  refine Set.eq_empty_of_forall_notMem ?_
  rintro p ⟨hparent, hsome⟩
  have hmem : p ∈ [links.1, voyage.1, manifest.1, links.2, voyage.2, manifest.2] := by
    by_contra hno
    simp only [List.mem_cons, not_or] at hno
    simp [tree, hno] at hsome
  have hnone : ∀ q ∈ [links.1, voyage.1, manifest.1, links.2, voyage.2, manifest.2],
      Path.parent q ≠ directory := by decide
  exact hnone p hmem hparent

/-- Without the Wikivoyage table the names are distinct, and the rollback is exact. -/
theorem links_rolledBack :
    ∃ fs, Prog.run (commitOrderedReplacements Digest.of iterdir (fun f => f = .check 0) directory "a"
        [manifest, links]) tree = (.error (.fault (.check 0)), fs)
      ∧ RolledBack directory tree [manifest, links] fs :=
  (rollback_exact_iff LinkMigration.Example.digest_injective iterdir_fullListing (Or.inr rfl)
    ⟨[manifest, links], ⟨by decide, by decide, by decide, by decide⟩⟩ (by simp) (by decide) rfl
    (by rw [entriesOf_tree]; exact Set.finite_empty)).mpr (by decide)

/-- With it the link table cannot be restored from the backup of its namesake. -/
theorem voyage_not_rolledBack : ([links, voyage, manifest].map Prod.fst).Nodup
      ∧ ¬ ∃ fs, Prog.run (commitOrderedReplacements Digest.of iterdir (fun f => f = .check 0)
          directory "a" [links, voyage, manifest]) tree = (.error (.fault (.check 0)), fs)
        ∧ RolledBack directory tree [links, voyage, manifest] fs := by
  refine ⟨by decide, fun h => ?_⟩
  have hordered : orderedReplacements [links, voyage, manifest] = [links, voyage, manifest] := by
    decide
  rw [run_commitOrderedReplacements_fresh (by simp) (by decide) rfl, hordered] at h
  have hnodup := (commitNewTransaction_rolledBack_iff LinkMigration.Example.digest_injective iterdir_fullListing
    (Or.inr rfl) ⟨by decide, by decide, by decide, by decide⟩ (by simp) (by decide)
    (by rw [entriesOf_tree]; exact Set.finite_empty)).mp h
  revert hnodup
  decide

end Rollback.Example

end OsmPolygonWikidata.LinkMigration
