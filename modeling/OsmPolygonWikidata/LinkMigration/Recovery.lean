import OsmPolygonWikidata.LinkMigration.Transaction

/-! # What a later call finds after a killed commit

The journal is written before the first file moves and removed after the last one. In between,
a later call rolls every entry forward: it needs, for each entry, the staged content either
still in the staged file or already in the target (`Forward`). This file shows that every kill
leaves such a state, or a state without a journal in which the targets are all old or all new
(`Settled`), with one exception: a commit that fails after moving its first file is rolled back,
and the rollback overwrites the only copy of that file's new content while the journal still
asks for it.
-/

namespace OsmPolygonWikidata.LinkMigration

open Durable
open Prog (wp wp_bind wp_get wp_imp wp_mapError wp_mono wp_pure wp_raise wp_step)

/-! ## Requests -/

/-- Replacements as the staging of a stem lays them out: no two share a target or a staged path,
no staged path is a target, and none of them lies in the journal directory. -/
structure WellPlaced (directory : Path) (rs : List (Path × Path)) : Prop where
  targets_nodup : (rs.map Prod.fst).Nodup
  staged_nodup : (rs.map Prod.snd).Nodup
  apart : ∀ r ∈ rs, ∀ r' ∈ rs, r.1 ≠ r'.2
  outside : ∀ r ∈ rs, r.1.parent ≠ directory ∧ r.2.parent ≠ directory

/-- The replacements handed to one call. -/
structure Request (directory : Path) where
  replacements : List (Path × Path)
  placed : WellPlaced directory replacements

/-- What cleaning up relies on: `iterdir` lists entries of the directory, in any order, and the
journal is among them when it is there. -/
structure Listing {C H : Type} (iterdir : Tree C H → Path → List Path) : Prop where
  inside : ∀ fs d, ∀ p ∈ iterdir fs d, p.parent = d
  journal : ∀ fs d, (fs (journalPath d)).isSome → journalPath d ∈ iterdir fs d

variable {directory : Path}

theorem WellPlaced.perm {rs rs' : List (Path × Path)} (hp : rs.Perm rs')
    (h : WellPlaced directory rs) : WellPlaced directory rs' where
  targets_nodup := (hp.map _).nodup_iff.mp h.targets_nodup
  staged_nodup := (hp.map _).nodup_iff.mp h.staged_nodup
  apart := fun r hr r' hr' => h.apart r (hp.mem_iff.mpr hr) r' (hp.mem_iff.mpr hr')
  outside := fun r hr => h.outside r (hp.mem_iff.mpr hr)

theorem orderedReplacements_perm (rs : List (Path × Path)) : (orderedReplacements rs).Perm rs :=
  List.perm_insertionSort _ rs

variable {rs : List (Path × Path)}

theorem WellPlaced.ordered
    (h : WellPlaced directory rs) : WellPlaced directory (orderedReplacements rs) :=
  h.perm (orderedReplacements_perm rs).symm

theorem WellPlaced.target_inj
    (h : WellPlaced directory rs) {r r' : Path × Path} (hr : r ∈ rs) (hr' : r' ∈ rs)
    (he : r.1 = r'.1) : r = r' :=
  List.inj_on_of_nodup_map h.targets_nodup hr hr' he

theorem WellPlaced.staged_inj
    (h : WellPlaced directory rs) {r r' : Path × Path} (hr : r ∈ rs) (hr' : r' ∈ rs)
    (he : r.2 = r'.2) : r = r' :=
  List.inj_on_of_nodup_map h.staged_nodup hr hr' he

/-! ## The paths of the journal directory -/

@[simp] theorem parent_journalPath (directory : Path) : (journalPath directory).parent = directory :=
  List.dropLast_concat

@[simp] theorem parent_backupPath (directory target : Path) :
    (backupPath directory target).parent = directory :=
  List.dropLast_concat

theorem journalPath_ne_backupPath (directory target : Path) :
    journalPath directory ≠ backupPath directory target := by
  intro h
  have h1 : ["journal.json"] = [target.name ++ ".backup"] := List.append_cancel_left h
  have h2 : "journal.json".toList = target.name.toList ++ ".backup".toList := by
    rw [← String.toList_append]
    exact congrArg String.toList (List.cons.inj h1).1
  have h3 := congrArg List.getLast? h2
  rw [List.getLast?_append_of_ne_nil _ (by decide)] at h3
  revert h3
  decide

theorem backupPath_eq_iff (directory t t' : Path) :
    backupPath directory t = backupPath directory t' ↔ t.name = t'.name := by
  constructor
  · intro h
    have h1 : [t.name ++ ".backup"] = [t'.name ++ ".backup"] := List.append_cancel_left h
    have h2 : t.name.toList ++ ".backup".toList = t'.name.toList ++ ".backup".toList := by
      rw [← String.toList_append, ← String.toList_append]
      exact congrArg String.toList (List.cons.inj h1).1
    exact String.toList_inj.mp (List.append_cancel_right h2)
  · intro h
    rw [backupPath, backupPath, h]

/-! ## Reading the tree after a step -/

section

variable {C H : Type}

@[simp] theorem Tree.write_same (p : Path) (f : File C H) (fs : Tree C H) :
    Tree.write p f fs p = some f := by simp [Tree.write]

theorem Tree.write_other {p q : Path} (f : File C H) (fs : Tree C H) (h : q ≠ p) :
    Tree.write p f fs q = fs q := by simp [Tree.write, h]

@[simp] theorem Tree.unlink_same (p : Path) (fs : Tree C H) : Tree.unlink p fs p = none := by
  simp [Tree.unlink]

theorem Tree.unlink_other {p q : Path} (fs : Tree C H) (h : q ≠ p) :
    Tree.unlink p fs q = fs q := by simp [Tree.unlink, h]

@[simp] theorem Tree.replace_target (s t : Path) (fs : Tree C H) :
    Tree.replace s t fs t = fs s := by simp [Tree.replace]

theorem Tree.replace_source {s t : Path} (fs : Tree C H) (h : s ≠ t) :
    Tree.replace s t fs s = none := by simp [Tree.replace, h]

theorem Tree.replace_other {s t q : Path} (fs : Tree C H) (ht : q ≠ t) (hs : q ≠ s) :
    Tree.replace s t fs q = fs q := by simp [Tree.replace, ht, hs]

/-- Outside the journal directory two trees hold the same files. -/
def SameOutside (directory : Path) (fs fs' : Tree C H) : Prop :=
  ∀ p, p.parent ≠ directory → fs p = fs' p

end

/-! ## Preparing -/

variable {C H : Type} (sha : File C H → H)
variable (iterdir : Tree C H → Path → List Path)
variable (directory : Path) (stem : String)

/-- The entry `prepareEntry` records for `r` when the tree holds `fs`. -/
def entryOf (fs : Tree C H) (r : Path × Path) : TransactionEntry H :=
  ⟨r.1, r.2, if (fs r.1).isSome then some (backupPath directory r.1) else none, (fs r.1).isSome,
    (fs r.1).map sha, (fs r.2).map sha⟩

/-- The replacements whose target exists in `fs`. -/
def existing (fs : Tree C H) (rs : List (Path × Path)) : List (Path × Path) :=
  rs.filter (fun r => (fs r.1).isSome)

variable {sha iterdir directory stem}
variable {fs₀ : Tree C H}

theorem mem_existing_cons (r r' : Path × Path) (rs : List (Path × Path)) :
    r' ∈ existing fs₀ (r :: rs) ↔ (r' = r ∧ (fs₀ r.1).isSome) ∨ r' ∈ existing fs₀ rs := by
  simp only [existing, List.mem_filter, List.mem_cons]
  constructor
  · rintro ⟨rfl | h, hs⟩
    · exact Or.inl ⟨rfl, hs⟩
    · exact Or.inr ⟨h, hs⟩
  · rintro (⟨rfl, hs⟩ | ⟨h, hs⟩)
    · exact ⟨Or.inl rfl, hs⟩
    · exact ⟨Or.inr h, hs⟩

variable {r : Path × Path} {fs : Tree C H}

theorem prepareEntry_wp (hout : SameOutside directory fs fs₀)
    (hr : r.1.parent ≠ directory ∧ r.2.parent ≠ directory) (hs : (fs₀ r.2).isSome) :
    wp (prepareEntry sha directory r)
      (fun entry fs' => entry = entryOf sha directory fs₀ r ∧ SameOutside directory fs' fs₀
        ∧ ((fs₀ r.1).isSome → fs' (backupPath directory r.1) = fs₀ r.1)
        ∧ ∀ p, ((fs₀ r.1).isSome → p ≠ backupPath directory r.1) → fs' p = fs p)
      (fun _ _ => False)
      (fun fs' => SameOutside directory fs' fs₀
        ∧ ∀ p, p ≠ backupPath directory r.1 → fs' p = fs p) fs := by
  have h1 : fs r.1 = fs₀ r.1 := hout _ hr.1
  have h2 : fs r.2 = fs₀ r.2 := hout _ hr.2
  have hw : ∀ (f : File C H) (g : Tree C H), SameOutside directory g fs₀ →
      SameOutside directory (Tree.write (backupPath directory r.1) f g) fs₀ := by
    intro f g hg p hp
    have hne : p ≠ backupPath directory r.1 := by
      rintro rfl
      exact hp (parent_backupPath directory r.1)
    rw [Tree.write_other f g hne, hg p hp]
  obtain ⟨staged, hstaged⟩ := Option.isSome_iff_exists.mp hs
  unfold prepareEntry
  simp only [wp_bind, wp_get, h2, hstaged]
  cases ht : fs₀ r.1 with
  | none =>
    simp only [h1, ht, wp_pure]
    exact ⟨by simp [entryOf, ht, hstaged], hout, by simp, fun _ _ => trivial⟩
  | some original =>
    simp only [h1, ht, wp_bind, wp_step, wp_pure]
    refine ⟨⟨hout, fun _ _ => trivial⟩, ⟨hw _ _ hout, fun p hp => Tree.write_other _ _ hp⟩,
      by simp [entryOf, ht, hstaged], hw _ _ (hw _ _ hout), ?_, ?_⟩
    · intro _
      exact Tree.write_same _ _ _
    · intro p hp
      have hp' := hp rfl
      rw [Tree.write_other _ _ hp', Tree.write_other _ _ hp']

variable {rs : List (Path × Path)}

/-- Preparing a list of replacements records their entries. Every existing target has a backup
afterwards, and if no two existing targets share a name, each backup holds its own target. -/
theorem prepareEntries_wp (hout : SameOutside directory fs fs₀)
    (hrs : ∀ r ∈ rs, r.1.parent ≠ directory ∧ r.2.parent ≠ directory)
    (hs : ∀ r ∈ rs, (fs₀ r.2).isSome) :
    wp (prepareEntries sha directory rs)
      (fun entries fs' => entries = rs.map (entryOf sha directory fs₀)
        ∧ SameOutside directory fs' fs₀
        ∧ (∀ r ∈ existing fs₀ rs, (fs' (backupPath directory r.1)).isSome)
        ∧ (((existing fs₀ rs).map (fun r => r.1.name)).Nodup →
            ∀ r ∈ existing fs₀ rs, fs' (backupPath directory r.1) = fs₀ r.1)
        ∧ ∀ p, (∀ r ∈ existing fs₀ rs, p ≠ backupPath directory r.1) → fs' p = fs p)
      (fun _ _ => False)
      (fun fs' => SameOutside directory fs' fs₀
        ∧ fs' (journalPath directory) = fs (journalPath directory)) fs := by
  induction rs generalizing fs with
  | nil =>
    unfold prepareEntries
    simp only [wp_pure]
    exact ⟨rfl, hout, by simp [existing], by simp [existing], fun _ _ => trivial⟩
  | cons r rs ih =>
    have hjr := journalPath_ne_backupPath directory r.1
    unfold prepareEntries
    simp only [wp_bind, wp_pure]
    refine wp_mono ?_ (fun _ _ h => h) (fun fs1 h => ⟨h.1, h.2 _ hjr⟩)
      (prepareEntry_wp hout (hrs r (by simp)) (hs r (by simp)))
    rintro entry fs1 ⟨rfl, hout1, hback1, hkeep1⟩
    refine wp_mono ?_ (fun _ _ h => h) (fun fs2 h => ⟨h.1, by rw [h.2, hkeep1 _ (fun _ => hjr)]⟩)
      (ih hout1 (fun r' h' => hrs r' (by simp [h'])) (fun r' h' => hs r' (by simp [h'])))
    rintro entries fs2 ⟨rfl, hout2, hsome2, hback2, hkeep2⟩
    refine ⟨rfl, hout2, ?_, ?_, ?_⟩
    · intro r' hr'
      rcases (mem_existing_cons r r' rs).mp hr' with ⟨rfl, hex⟩ | hin
      · -- the head's backup is untouched unless a later target of the same name reuses it
        by_cases hsh : ∃ r'' ∈ existing fs₀ rs, backupPath directory r'.1
            = backupPath directory r''.1
        · obtain ⟨r'', h1, h2⟩ := hsh
          rw [h2]
          exact hsome2 r'' h1
        · rw [hkeep2 _ (fun r'' h1 h2 => hsh ⟨r'', h1, h2⟩), hback1 hex]
          exact hex
      · exact hsome2 r' hin
    · intro hnd r' hr'
      have hnd' : ((existing fs₀ rs).map (fun r => r.1.name)).Nodup :=
        hnd.sublist (((List.sublist_cons_self r rs).filter _).map _)
      rcases (mem_existing_cons r r' rs).mp hr' with ⟨rfl, hex⟩ | hin
      · have hex' : existing fs₀ (r' :: rs) = r' :: existing fs₀ rs := by
          simp [existing, hex]
        rw [hex', List.map_cons, List.nodup_cons] at hnd
        rw [hkeep2 _ ?_, hback1 hex]
        intro r'' h1 h2
        exact hnd.1 (List.mem_map.mpr ⟨r'', h1, ((backupPath_eq_iff _ _ _).mp h2).symm⟩)
      · exact hback2 hnd' r' hin
    · intro p hp
      rw [hkeep2 p (fun r' hr' => hp r' ((mem_existing_cons r r' rs).mpr (Or.inr hr')))]
      exact hkeep1 p (fun hex => hp r ((mem_existing_cons r r rs).mpr (Or.inl ⟨rfl, hex⟩)))

/-! ## Cleaning up -/

theorem unlinkAll_wp {ps : List Path} (hps : ∀ p ∈ ps, p.parent = directory) : wp (unlinkAll ps)
      (fun _ fs' => SameOutside directory fs' fs ∧ (∀ p ∈ ps, fs' p = none)
        ∧ (∀ p, fs' p = fs p ∨ fs' p = none))
      (fun _ _ => False)
      (fun fs' => SameOutside directory fs' fs ∧ ∀ p, fs' p = fs p ∨ fs' p = none) fs := by
  induction ps generalizing fs with
  | nil =>
    simp only [unlinkAll, wp_pure]
    exact ⟨fun _ _ => rfl, by simp, fun _ => Or.inl trivial⟩
  | cons p ps ih =>
    have hps' : ∀ q ∈ ps, q.parent = directory := fun q h => hps q (by simp [h])
    simp only [unlinkAll, wp_bind, wp_get]
    cases hp : fs p with
    | none =>
      simp only [Option.isSome_none, Bool.false_eq_true, if_false]
      refine wp_imp ?_ (ih hps')
      rintro _ fs' ⟨h1, h2, h3⟩
      refine ⟨h1, ?_, h3⟩
      intro q hq
      rcases List.mem_cons.mp hq with rfl | hq
      · rcases h3 q with h | h
        · rw [h, hp]
        · exact h
      · exact h2 q hq
    | some f =>
      simp only [Option.isSome_some, if_true, wp_bind, wp_step]
      have hkeep : ∀ fs', SameOutside directory fs' (Tree.unlink p fs) →
          SameOutside directory fs' fs := by
        intro fs' h q hq
        rw [h q hq, Tree.unlink_other]
        rintro rfl
        exact hq (hps q (by simp))
      have hless : ∀ fs' : Tree C H, (∀ q, fs' q = Tree.unlink p fs q ∨ fs' q = none) →
          ∀ q, fs' q = fs q ∨ fs' q = none := by
        intro fs' h q
        rcases h q with h | h
        · by_cases hqp : q = p
          · subst hqp
            right
            rw [h, Tree.unlink_same]
          · left
            rw [h, Tree.unlink_other _ hqp]
        · exact Or.inr h
      refine ⟨⟨fun _ _ => rfl, fun _ => Or.inl trivial⟩, ?_⟩
      refine wp_mono ?_ (fun _ _ h => h) (fun fs' h => ⟨hkeep fs' h.1, hless fs' h.2⟩) (ih hps')
      rintro _ fs' ⟨h1, h2, h3⟩
      refine ⟨hkeep fs' h1, ?_, hless fs' h3⟩
      intro q hq
      rcases List.mem_cons.mp hq with rfl | hq
      · rcases h3 q with h | h
        · rw [h, Tree.unlink_same]
        · exact h
      · exact h2 q hq

theorem cleanup_wp (hdir : Listing iterdir) : wp (cleanup iterdir directory)
      (fun _ fs' => SameOutside directory fs' fs ∧ fs' (journalPath directory) = none)
      (fun _ _ => False)
      (fun fs' => SameOutside directory fs' fs
        ∧ (fs' (journalPath directory) = fs (journalPath directory)
          ∨ fs' (journalPath directory) = none)) fs := by
  simp only [cleanup, wp_bind, wp_get, wp_step]
  refine wp_mono ?_ (fun _ _ h => h) (fun fs' h => ⟨h.1, h.2 _⟩)
    (unlinkAll_wp (hdir.inside fs directory))
  rintro _ fs' ⟨h1, h2, h3⟩
  refine ⟨⟨h1, h3 _⟩, h1, ?_⟩
  by_cases hj : (fs (journalPath directory)).isSome
  · exact h2 _ (hdir.journal fs directory hj)
  · rcases h3 (journalPath directory) with h | h
    · rw [id, h]
      simpa using hj
    · exact h

/-! ## Applying -/

/-- The state of an apply that has moved the files of `done` and not yet those of `rest`. A file
whose target already held the new content was not moved. -/
structure Applied (directory : Path) (fs₀ fs₁ fs : Tree C H) (done rest : List (Path × Path)) :
    Prop where
  done_target : ∀ r ∈ done, fs r.1 = fs₀ r.2
  done_staged : ∀ r ∈ done, fs₀ r.1 = fs₀ r.2 → fs r.2 = fs₀ r.2
  done_moved : ∀ r ∈ done, fs₀ r.1 ≠ fs₀ r.2 → fs r.2 = none
  rest_target : ∀ r ∈ rest, fs r.1 = fs₀ r.1
  rest_staged : ∀ r ∈ rest, fs r.2 = fs₀ r.2
  journalled : ∀ p, p.parent = directory → fs p = fs₁ p

theorem fileContentHash_iff (hsha : Function.Injective sha) (fs : Tree C H) (p : Path)
    (f : Option (File C H)) : fileContentHash sha fs p = f.map sha ↔ fs p = f :=
  (Option.map_injective hsha).eq_iff

variable {done rest : List (Path × Path)} {fs fs₁ : Tree C H}

theorem Applied.skip
    (ha : Applied directory fs₀ fs₁ fs done (r :: rest)) (heq : fs₀ r.1 = fs₀ r.2) :
    Applied directory fs₀ fs₁ fs (done ++ [r]) rest := by
  refine ⟨?_, ?_, ?_, fun r' h => ha.rest_target r' (by simp [h]),
    fun r' h => ha.rest_staged r' (by simp [h]), ha.journalled⟩
  · intro r' hr'
    rcases List.mem_append.mp hr' with h | h
    · exact ha.done_target r' h
    · rw [List.mem_singleton.mp h, ha.rest_target r (by simp), heq]
  · intro r' hr' he
    rcases List.mem_append.mp hr' with h | h
    · exact ha.done_staged r' h he
    · rw [List.mem_singleton.mp h, ha.rest_staged r (by simp)]
  · intro r' hr' hne
    rcases List.mem_append.mp hr' with h | h
    · exact ha.done_moved r' h hne
    · rw [List.mem_singleton.mp h] at hne
      exact absurd heq hne

theorem WellPlaced.replace_other {r r' : Path × Path}
    (hL : WellPlaced directory rs) (hr : r ∈ rs) (hr' : r' ∈ rs) (hne : r' ≠ r)
    (fs : Tree C H) :
    Tree.replace r.2 r.1 fs r'.1 = fs r'.1 ∧ Tree.replace r.2 r.1 fs r'.2 = fs r'.2 := by
  constructor
  · exact Tree.replace_other _ (fun h => hne (hL.target_inj hr' hr h)) (hL.apart r' hr' r hr)
  · exact Tree.replace_other _ (fun h => hL.apart r hr r' hr' h.symm)
      (fun h => hne (hL.staged_inj hr' hr h))

theorem WellPlaced.replace_inside
    (hL : WellPlaced directory rs) (hr : r ∈ rs) {p : Path} (hp : p.parent = directory)
    (fs : Tree C H) : Tree.replace r.2 r.1 fs p = fs p := by
  refine Tree.replace_other _ ?_ ?_
  · rintro rfl
    exact (hL.outside r hr).1 hp
  · rintro rfl
    exact (hL.outside r hr).2 hp

theorem Applied.move (hL : WellPlaced directory (done ++ r :: rest))
    (ha : Applied directory fs₀ fs₁ fs done (r :: rest)) (heq : fs₀ r.1 ≠ fs₀ r.2) :
    Applied directory fs₀ fs₁ (Tree.replace r.2 r.1 fs) (done ++ [r]) rest := by
  have hmem : r ∈ done ++ r :: rest := by simp
  have hnd : (done ++ r :: rest).Nodup := List.Nodup.of_map _ hL.targets_nodup
  have hdone : ∀ r' ∈ done, r' ≠ r := by
    rintro r' h rfl
    exact (List.nodup_append.mp hnd).2.2 r' h r' (by simp) rfl
  have hrest : ∀ r' ∈ rest, r' ≠ r := by
    rintro r' h rfl
    exact (List.nodup_cons.mp (List.nodup_append.mp hnd).2.1).1 h
  refine ⟨?_, ?_, ?_, ?_, ?_, ?_⟩
  · intro r' hr'
    rcases List.mem_append.mp hr' with h | h
    · rw [(hL.replace_other hmem (by simp [h]) (hdone r' h) fs).1, ha.done_target r' h]
    · rw [List.mem_singleton.mp h, Tree.replace_target, ha.rest_staged r (by simp)]
  · intro r' hr' he
    rcases List.mem_append.mp hr' with h | h
    · rw [(hL.replace_other hmem (by simp [h]) (hdone r' h) fs).2, ha.done_staged r' h he]
    · rw [List.mem_singleton.mp h] at he
      exact absurd he heq
  · intro r' hr' hne
    rcases List.mem_append.mp hr' with h | h
    · rw [(hL.replace_other hmem (by simp [h]) (hdone r' h) fs).2, ha.done_moved r' h hne]
    · rw [List.mem_singleton.mp h]
      exact Tree.replace_source _ (hL.apart r hmem r hmem).symm
  · intro r' h
    rw [(hL.replace_other hmem (by simp [h]) (hrest r' h) fs).1, ha.rest_target r' (by simp [h])]
  · intro r' h
    rw [(hL.replace_other hmem (by simp [h]) (hrest r' h) fs).2, ha.rest_staged r' (by simp [h])]
  · intro p hp
    rw [hL.replace_inside hmem hp, ha.journalled p hp]

variable [DecidableEq H]

theorem fileMatchesHash_iff (hsha : Function.Injective sha) (fs : Tree C H) (p : Path)
    {f : Option (File C H)} (hf : f.isSome) :
    fileMatchesHash sha fs p (f.map sha) = true ↔ fs p = f := by
  obtain ⟨c, rfl⟩ := Option.isSome_iff_exists.mp hf
  unfold fileMatchesHash fileContentHash
  cases fs p with
  | none => simp
  | some d => simp [hsha.eq_iff]

theorem applySingle_wp (hsha : Function.Injective sha)
    (hL : WellPlaced directory (done ++ r :: rest))
    (hs : (fs₀ r.2).isSome) (ha : Applied directory fs₀ fs₁ fs done (r :: rest)) :
    wp (applySingle sha (entryOf sha directory fs₀ r))
      (fun _ fs' => Applied directory fs₀ fs₁ fs' (done ++ [r]) rest)
      (fun _ _ => False)
      (fun fs' => Applied directory fs₀ fs₁ fs' done (r :: rest)) fs := by
  have ht := ha.rest_target r (by simp)
  have hst := ha.rest_staged r (by simp)
  set entry := entryOf sha directory fs₀ r
  have hmt : fileMatchesHash sha fs entry.target entry.stagedHash = true ↔ fs r.1 = fs₀ r.2 :=
    fileMatchesHash_iff hsha fs r.1 hs
  have hms : fileMatchesHash sha fs entry.staged entry.stagedHash = true :=
    (fileMatchesHash_iff hsha fs r.2 hs).mpr hst
  unfold applySingle
  simp only [wp_bind, wp_get]
  by_cases heq : fs₀ r.1 = fs₀ r.2
  · rw [if_pos (hmt.mpr (ht.trans heq))]
    exact ha.skip heq
  · have hv : fileContentHash sha (Tree.replace entry.staged entry.target fs) entry.target
        = entry.stagedHash := by
      refine (fileContentHash_iff hsha _ r.1 (fs₀ r.2)).mpr ?_
      rw [← hst]
      exact Tree.replace_target r.2 r.1 fs
    rw [if_neg (fun h => heq (ht ▸ hmt.mp h)), if_pos hms]
    simp only [wp_step, wp_bind, wp_get, id_eq]
    rw [if_pos hv]
    exact ⟨ha, ha, ha.move hL heq⟩

/-- What an exception out of the `try` block says about the entry it came from: `index` is `0`
only when nothing has been moved, or when the first file has been moved and a later step of the
first entry failed. -/
def RaisedAt (faulty : FaultPoint → Bool) (total : Nat) (done : List (Path × Path)) (index : Nat) :
    Prop :=
  index = 0 → done = [] ∨ (done.length = 1 ∧ faulty (.replace 0) = false
    ∧ (faulty (.check 0) = true ∨ (total = 1 ∧ faulty .commit = true)))

theorem applyEntries_wp (hsha : Function.Injective sha) (faulty : FaultPoint → Bool)
    {rs done rest : List (Path × Path)} (hL : WellPlaced directory rs)
    (hs : ∀ r ∈ rs, (fs₀ r.2).isSome) (hrs : done ++ rest = rs)
    (ha : Applied directory fs₀ fs₁ fs done rest) :
    wp (applyEntries sha faulty (rest.map (entryOf sha directory fs₀)) done.length)
      (fun _ fs' => Applied directory fs₀ fs₁ fs' rs []
        ∧ (done = [] → rest ≠ [] → faulty (.replace 0) = false ∧ faulty (.check 0) = false))
      (fun e fs' => (∃ f, faulty f = true) ∧ ∃ done' rest', done' ++ rest' = rs
        ∧ Applied directory fs₀ fs₁ fs' done' rest' ∧ RaisedAt faulty rs.length done' e.1)
      (fun fs' => ∃ done' rest', done' ++ rest' = rs
        ∧ Applied directory fs₀ fs₁ fs' done' rest') fs := by
  induction rest generalizing done fs with
  | nil =>
    simp only [List.map_nil, applyEntries, wp_pure]
    rw [List.append_nil] at hrs
    subst hrs
    exact ⟨ha, fun _ h => absurd rfl h⟩
  | cons r rest ih =>
    have hr : r ∈ rs := hrs ▸ by simp
    have hrs' : (done ++ [r]) ++ rest = rs := by rw [← hrs]; simp
    simp only [List.map_cons, applyEntries]
    cases hf : faulty (.replace done.length) with
    | true =>
      simp only [if_true, wp_raise]
      refine ⟨⟨_, hf⟩, done, r :: rest, hrs, ha, fun h0 => Or.inl ?_⟩
      exact List.length_eq_zero_iff.mp h0
    | false =>
      simp only [Bool.false_eq_true, if_false, wp_bind, wp_mapError]
      refine wp_mono ?_ (fun _ _ h => h.elim) (fun fs' h => ⟨done, r :: rest, hrs, h⟩)
        (applySingle_wp hsha (hrs ▸ hL) (hs r hr) ha)
      rintro _ fs' ha'
      cases hc : faulty (.check done.length) with
      | true =>
        simp only [if_true, wp_raise]
        refine ⟨⟨_, hc⟩, done ++ [r], rest, hrs', ha', fun h0 => Or.inr ?_⟩
        have hd : done = [] := List.length_eq_zero_iff.mp h0
        subst hd
        exact ⟨rfl, hf, Or.inl hc⟩
      | false =>
        have hv : fileContentHash sha fs' (entryOf sha directory fs₀ r).target
            = (entryOf sha directory fs₀ r).stagedHash := by
          refine (fileContentHash_iff hsha _ r.1 (fs₀ r.2)).mpr ?_
          exact ha'.done_target r (by simp)
        simp only [Bool.false_eq_true, if_false, wp_bind, wp_get]
        rw [if_pos hv]
        have hlen : done.length + 1 = (done ++ [r]).length := by simp
        rw [hlen]
        refine wp_imp ?_ (ih hrs' ha')
        rintro _ fs2 ⟨h, -⟩
        refine ⟨h, fun h0 _ => ?_⟩
        subst h0
        exact ⟨hf, hc⟩

/-! ## Rolling back -/

/-- The files a rollback of `rs` leaves alone: everything but their targets and the backups of
those that existed. -/
def RollbackFrame (directory : Path) (fs₀ : Tree C H) (rs : List (Path × Path))
    (fs fs' : Tree C H) : Prop :=
  ∀ p, (∀ r ∈ rs, p ≠ r.1) → (∀ r ∈ existing fs₀ rs, p ≠ backupPath directory r.1) → fs' p = fs p

theorem rollbackEntry_wp (hsha : Function.Injective sha) (hr : r.1.parent ≠ directory) :
    wp (rollbackEntry sha (entryOf sha directory fs₀ r))
      (fun _ fs' => fs' r.1 = fs₀ r.1 ∧ RollbackFrame directory fs₀ [r] fs fs'
        ∧ ((fs₀ r.1).isSome → (fs (backupPath directory r.1)).isSome
          ∧ fs' (backupPath directory r.1) = none))
      (fun _ fs' => RollbackFrame directory fs₀ [r] fs fs'
        ∧ ((fs₀ r.1).isSome → fs (backupPath directory r.1) = none → fs' = fs))
      (fun fs' => fs' = fs) fs := by
  have hne : backupPath directory r.1 ≠ r.1 := by
    intro h
    exact hr (by rw [← h, parent_backupPath])
  set entry := entryOf sha directory fs₀ r with hentry
  unfold rollbackEntry
  cases hex : (fs₀ r.1).isSome with
  | true =>
    have hexisted : entry.existed = true := hex
    have hbackup : entry.backup = some (backupPath directory r.1) := by
      rw [hentry, entryOf, hex]; rfl
    rw [if_pos hexisted]
    unfold restoreExistingEntry
    simp only [wp_bind, wp_get, hbackup]
    have hframe : RollbackFrame directory fs₀ [r] fs
        (Tree.replace (backupPath directory r.1) r.1 fs) := by
      intro p hp hp'
      refine Tree.replace_other _ (hp r (by simp)) (hp' r ?_)
      simp [existing, hex]
    cases hb : fs (backupPath directory r.1) with
    | none =>
      simp only [Option.isSome_none, Bool.false_eq_true, if_false, wp_raise]
      exact ⟨fun _ _ _ => rfl, fun _ _ => trivial⟩
    | some f =>
      simp only [Option.isSome_some, if_true, wp_bind, wp_step, wp_get]
      refine ⟨trivial, ?_⟩
      by_cases hv : fileContentHash sha (Tree.replace (backupPath directory r.1) entry.target fs)
          entry.target = entry.originalHash
      · rw [if_pos hv]
        refine ⟨?_, hframe, fun _ => ⟨trivial, Tree.replace_source _ hne⟩⟩
        exact (fileContentHash_iff hsha _ r.1 (fs₀ r.1)).mp hv
      · rw [if_neg hv]
        exact ⟨hframe, fun _ h => by cases h⟩
  | false =>
    have hexisted : ¬ entry.existed = true := by
      show ¬ (fs₀ r.1).isSome = true
      rw [hex]; decide
    have hnone : fs₀ r.1 = none := by simpa using hex
    rw [if_neg hexisted]
    simp only [wp_bind, wp_get]
    have hfs : ∀ fs' : Tree C H, fs' = Tree.unlink r.1 fs →
        fs' r.1 = fs₀ r.1 ∧ RollbackFrame directory fs₀ [r] fs fs' := by
      rintro fs' rfl
      refine ⟨by rw [Tree.unlink_same, hnone], fun p hp _ => Tree.unlink_other _ (hp r (by simp))⟩
    by_cases ht : (fs entry.target).isSome
    · rw [if_pos ht]
      obtain ⟨h1, h2⟩ := hfs _ rfl
      exact ⟨rfl, h1, h2, fun h => by cases h⟩
    · rw [if_neg ht]
      refine ⟨?_, fun _ _ _ => rfl, fun h => by cases h⟩
      have ht' : fs r.1 = none := Option.not_isSome_iff_eq_none.mp ht
      rw [ht', hnone]

/-- Rolling back touches the targets and the backups of the entries it visits. If it gets through,
every target holds its old content, every backup it used was there and is gone, and no two of the
visited targets that existed share a name. -/
theorem rollbackAll_wp (hsha : Function.Injective sha) (hL : WellPlaced directory rs) :
    wp (rollbackAll sha (rs.map (entryOf sha directory fs₀)))
      (fun _ fs' => (∀ r ∈ rs, fs' r.1 = fs₀ r.1)
        ∧ (∀ r ∈ existing fs₀ rs, fs' (backupPath directory r.1) = none)
        ∧ ((existing fs₀ rs).map (fun r => r.1.name)).Nodup
        ∧ (∀ r ∈ existing fs₀ rs, (fs (backupPath directory r.1)).isSome)
        ∧ RollbackFrame directory fs₀ rs fs fs')
      (fun _ fs' => RollbackFrame directory fs₀ rs fs fs')
      (fun fs' => RollbackFrame directory fs₀ rs fs fs') fs := by
  induction rs generalizing fs with
  | nil =>
    simp only [List.map_nil, rollbackAll, wp_pure]
    exact ⟨by simp, by simp [existing], by simp [existing], by simp [existing], fun _ _ _ => rfl⟩
  | cons r rs ih =>
    have hout : ∀ r' ∈ r :: rs, ∀ q : Path, r'.1 ≠ backupPath directory q := by
      intro r' hr' q h
      exact (hL.outside r' hr').1 (by rw [h, parent_backupPath])
    have hL' : WellPlaced directory rs :=
      { targets_nodup := (List.nodup_cons.mp hL.targets_nodup).2
        staged_nodup := (List.nodup_cons.mp hL.staged_nodup).2
        apart := fun a ha b hb => hL.apart a (by simp [ha]) b (by simp [hb])
        outside := fun a ha => hL.outside a (by simp [ha]) }
    have hrt : ∀ r' ∈ rs, r.1 ≠ r'.1 := by
      intro r' hr' h
      exact (List.nodup_cons.mp hL.targets_nodup).1 (List.mem_map.mpr ⟨r', hr', h.symm⟩)
    have hhead : ∀ fs1, RollbackFrame directory fs₀ [r] fs fs1 →
        RollbackFrame directory fs₀ (r :: rs) fs fs1 := by
      intro fs1 h p hp hp'
      refine h p (by simpa using hp r (by simp)) (fun r' hr' => hp' r' ?_)
      rcases (mem_existing_cons r r' []).mp hr' with h | h
      · exact (mem_existing_cons r r' rs).mpr (Or.inl h)
      · simp [existing] at h
    have htail : ∀ fs1 fs2, RollbackFrame directory fs₀ [r] fs fs1 →
        RollbackFrame directory fs₀ rs fs1 fs2 → RollbackFrame directory fs₀ (r :: rs) fs fs2 := by
      intro fs1 fs2 h1 h2 p hp hp'
      rw [h2 p (fun r' hr' => hp r' (by simp [hr']))
        (fun r' hr' => hp' r' ((mem_existing_cons r r' rs).mpr (Or.inr hr')))]
      exact hhead fs1 h1 p hp hp'
    simp only [List.map_cons, rollbackAll, wp_bind]
    refine wp_mono ?_ (fun _ fs1 h => hhead fs1 h.1)
      (fun fs1 h => by subst h; exact fun _ _ _ => rfl)
      (rollbackEntry_wp hsha (hL.outside r (by simp)).1)
    rintro _ fs1 ⟨ht1, hf1, hb1⟩
    refine wp_mono ?_ (fun _ fs2 h => htail fs1 fs2 hf1 h) (fun fs2 h => htail fs1 fs2 hf1 h)
      (ih hL')
    rintro _ fs2 ⟨h1, h2, h3, h4, h5⟩
    -- a backup used up by the head is not there for a later entry of the same name
    have hfresh : (fs₀ r.1).isSome → ∀ r' ∈ existing fs₀ rs,
        backupPath directory r.1 ≠ backupPath directory r'.1 := by
      intro hex r' hr' h
      have := h4 r' hr'
      rw [← h, (hb1 hex).2] at this
      cases this
    refine ⟨?_, ?_, ?_, ?_, htail fs1 fs2 hf1 h5⟩
    · intro r' hr'
      rcases List.mem_cons.mp hr' with rfl | hr'
      · rw [h5 _ hrt (fun r'' _ => hout r' (by simp) _), ht1]
      · exact h1 r' hr'
    · intro r' hr'
      rcases (mem_existing_cons r r' rs).mp hr' with ⟨rfl, hex⟩ | hr'
      · rw [h5 _ (fun r'' hr'' h => hout r'' (by simp [hr'']) _ h.symm) (hfresh hex), (hb1 hex).2]
      · exact h2 r' hr'
    · cases hex : (fs₀ r.1).isSome with
      | false =>
        have : existing fs₀ (r :: rs) = existing fs₀ rs := by simp [existing, hex]
        rw [this]
        exact h3
      | true =>
        have : existing fs₀ (r :: rs) = r :: existing fs₀ rs := by simp [existing, hex]
        rw [this, List.map_cons, List.nodup_cons]
        refine ⟨?_, h3⟩
        intro hmem
        obtain ⟨r', hr', hname⟩ := List.mem_map.mp hmem
        exact hfresh hex r' hr' ((backupPath_eq_iff _ _ _).mpr hname.symm)
    · intro r' hr'
      rcases (mem_existing_cons r r' rs).mp hr' with ⟨rfl, hex⟩ | hin
      · exact (hb1 hex).1
      · have h := h4 r' hin
        rwa [hf1 _ ?_ ?_] at h
        · simpa using fun h' => hout r (by simp) _ h'.symm
        · intro r'' hr''
          rcases (mem_existing_cons r r'' []).mp hr'' with ⟨rfl, hex⟩ | h'
          · exact (hfresh hex r' hin).symm
          · simp [existing] at h'

/-! ## Rolling forward -/

/-- Every new content is still in its staged file or already in its target. -/
def Recoverable (fs₀ : Tree C H) (rs : List (Path × Path)) (fs : Tree C H) : Prop :=
  ∀ r ∈ rs, fs r.1 = fs₀ r.2 ∨ fs r.2 = fs₀ r.2

/-- A recovery in progress: everything can still be rolled forward, under the same journal. -/
def Resuming (directory : Path) (fs₀ : Tree C H) (rs : List (Path × Path)) (fs fs' : Tree C H) :
    Prop :=
  Recoverable fs₀ rs fs' ∧ fs' (journalPath directory) = fs (journalPath directory)

omit [DecidableEq H] in
theorem removeRecoveryBackup_wp (r : Path × Path) (fs : Tree C H) :
    wp (removeRecoveryBackup (entryOf sha directory fs₀ r))
      (fun _ fs' => SameOutside directory fs' fs
        ∧ fs' (journalPath directory) = fs (journalPath directory))
      (fun _ _ => False) (fun fs' => fs' = fs) fs := by
  unfold removeRecoveryBackup
  simp only [wp_bind, wp_get]
  cases hb : (entryOf sha directory fs₀ r).backup with
  | none => exact ⟨fun _ _ => rfl, rfl⟩
  | some backup =>
    have hbp : backup = backupPath directory r.1 := by
      have hb' : (if (fs₀ r.1).isSome then some (backupPath directory r.1) else none)
          = some backup := hb
      split at hb'
      · exact (Option.some.inj hb').symm
      · cases hb'
    subst hbp
    dsimp only
    split
    · refine ⟨rfl, fun p hp => Tree.unlink_other _ ?_,
        Tree.unlink_other _ (journalPath_ne_backupPath directory r.1)⟩
      rintro rfl
      exact hp (parent_backupPath directory r.1)
    · exact ⟨fun _ _ => rfl, rfl⟩

theorem recoverEntry_wp (hsha : Function.Injective sha) (hL : WellPlaced directory rs) (hr : r ∈ rs)
    (hs : (fs₀ r.2).isSome) (hrec : Recoverable fs₀ rs fs) :
    wp (recoverEntry sha (entryOf sha directory fs₀ r))
      (fun _ fs' => Resuming directory fs₀ rs fs fs' ∧ fs' r.1 = fs₀ r.2
        ∧ ∀ r' ∈ rs, fs r'.1 = fs₀ r'.2 → fs' r'.1 = fs₀ r'.2)
      (fun _ _ => False) (Resuming directory fs₀ rs fs) fs := by
  set entry := entryOf sha directory fs₀ r with hentry
  have hmt : fileMatchesHash sha fs entry.target entry.stagedHash = true ↔ fs r.1 = fs₀ r.2 :=
    fileMatchesHash_iff hsha fs r.1 hs
  unfold recoverEntry
  simp only [wp_bind, wp_get]
  by_cases ht : fs r.1 = fs₀ r.2
  · rw [if_pos (hmt.mpr ht)]
    exact ⟨⟨hrec, rfl⟩, ht, fun _ _ h => h⟩
  · have hst : fs r.2 = fs₀ r.2 := (hrec r hr).resolve_left ht
    have hms : fileMatchesHash sha fs entry.staged entry.stagedHash = true :=
      (fileMatchesHash_iff hsha fs r.2 hs).mpr hst
    rw [if_neg (fun h => ht (hmt.mp h)), if_pos hms]
    simp only [wp_bind, wp_step, wp_get, id_eq]
    refine ⟨⟨hrec, rfl⟩, wp_mono ?_ (fun _ _ h => h) (fun _ h => by subst h; exact ⟨hrec, rfl⟩)
      (removeRecoveryBackup_wp r fs)⟩
    rintro _ fs1 ⟨hout, hj⟩
    have h1 : ∀ r' ∈ rs, fs1 r'.1 = fs r'.1 ∧ fs1 r'.2 = fs r'.2 := fun r' hr' =>
      ⟨hout _ (hL.outside r' hr').1, hout _ (hL.outside r' hr').2⟩
    have hrec1 : Recoverable fs₀ rs fs1 := by
      intro r' hr'
      rw [(h1 r' hr').1, (h1 r' hr').2]
      exact hrec r' hr'
    have hv : Tree.replace entry.staged entry.target fs1 r.1 = fs₀ r.2 := by
      rw [← hst, ← (h1 r hr).2]
      exact Tree.replace_target r.2 r.1 fs1
    have hh : fileContentHash sha (Tree.replace entry.staged entry.target fs1) entry.target
        = entry.stagedHash := (fileContentHash_iff hsha _ r.1 (fs₀ r.2)).mpr hv
    rw [if_pos hh]
    refine ⟨⟨hrec1, hj⟩, ⟨?_, ?_⟩, hv, ?_⟩
    · intro r' hr'
      by_cases hrr : r' = r
      · subst hrr
        exact Or.inl hv
      · obtain ⟨ho1, ho2⟩ := hL.replace_other hr hr' hrr fs1
        exact (hrec1 r' hr').imp (fun h => ho1.trans h) (fun h => ho2.trans h)
    · rw [← hj]
      exact hL.replace_inside hr (parent_journalPath directory) fs1
    · intro r' hr' h
      by_cases hrr : r' = r
      · subst hrr
        exact hv
      · rw [← h, ← (h1 r' hr').1]
        exact (hL.replace_other hr hr' hrr fs1).1

/-- **Roll forward**: recovery of a recoverable transaction puts every new content in place, and
a kill leaves it recoverable. -/
theorem recoverEntries_wp (hsha : Function.Injective sha) {rs rest : List (Path × Path)}
    (hL : WellPlaced directory rs) (hsub : rest ⊆ rs)
    (hs : ∀ r ∈ rs, (fs₀ r.2).isSome) (hrec : Recoverable fs₀ rs fs) :
    wp (recoverEntries sha (rest.map (entryOf sha directory fs₀)))
      (fun _ fs' => Resuming directory fs₀ rs fs fs' ∧ (∀ r ∈ rest, fs' r.1 = fs₀ r.2)
        ∧ ∀ r ∈ rs, fs r.1 = fs₀ r.2 → fs' r.1 = fs₀ r.2)
      (fun _ _ => False) (Resuming directory fs₀ rs fs) fs := by
  induction rest generalizing fs with
  | nil =>
    simp only [List.map_nil, recoverEntries, wp_pure]
    exact ⟨⟨hrec, rfl⟩, by simp, fun _ _ h => h⟩
  | cons r rest ih =>
    have hr : r ∈ rs := hsub (by simp)
    simp only [List.map_cons, recoverEntries, wp_bind]
    refine wp_imp ?_ (recoverEntry_wp hsha hL hr (hs r hr) hrec)
    rintro _ fs1 ⟨⟨h1, hj1⟩, h2, h3⟩
    refine wp_mono ?_ (fun _ _ h => h) (fun _ h => ⟨h.1, h.2.trans hj1⟩)
      (ih (fun r' h' => hsub (by simp [h'])) h1)
    rintro _ fs2 ⟨⟨h4, hj2⟩, h5, h6⟩
    refine ⟨⟨h4, hj2.trans hj1⟩, ?_, fun r' hr' h => h6 r' hr' (h3 r' hr' h)⟩
    intro r' hr'
    rcases List.mem_cons.mp hr' with rfl | hr'
    · exact h6 r' hr h2
    · exact h5 r' hr'

end OsmPolygonWikidata.LinkMigration
