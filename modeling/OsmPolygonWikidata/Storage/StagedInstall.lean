import Mathlib.Data.String.Basic
import OsmPolygonWikidata.Basic.FileTransaction

/-! # Installing staged files

`io/staged_install.py`. The existing targets are moved aside, the staged files are moved into place,
the manifest last, and a failure restores what was moved aside. A path is its absolute POSIX spelling.

Every step of the two phases may raise; the handlers and the clean-up do not. Creating a directory
leaves the files as they are.
-/

namespace OsmPolygonWikidata.StagedInstall

open Durable FileTransaction
open Prog (wp wp_bind wp_ensure wp_forM wp_get wp_imp wp_ite wp_killed wp_mono wp_onRaise wp_run)

/-! ## Errors -/

/-- What a system call raises. -/
inductive OsError where
  | crossDevice
  | other (name : String)
  deriving DecidableEq

inductive InstallError where
  | crossFilesystem (source destination : String)
  | os (error : OsError)
  | fileNotFound (path : String)
  | noUsableName
  deriving DecidableEq

/-- The steps of the two phases. -/
inductive Step where
  | createBackup (target : String)
  | moveAside (target backup : String)
  | makeParent (final : String)
  | moveIntoPlace (temporary final : String)
  deriving DecidableEq

/-- An exception, and the step that raised it. -/
structure Raised where
  step : Step
  error : InstallError
  deriving DecidableEq

/-- What the installation meets: the steps that fail, the random names, and an empty file. -/
structure World (F : Type) where
  fails : Step → Option OsError
  random : String → (String → Option F) → Option RandomName
  empty : F

/-! ## The phases -/

section

variable {F : Type} (world : World F)

/-- The exception of `replace_path`. -/
def replaceError (source destination : String) : OsError → InstallError
  | .crossDevice => .crossFilesystem source destination
  | error => .os error

/-- `replace_path`. -/
def replacePath (step : Step) (source destination : String) :
    Prog (Machine String F) Raised Unit :=
  move ((world.fails step).map (fun error => ⟨step, replaceError source destination error⟩))
    ⟨step, .fileNotFound source⟩ source destination

/-- `backup_existing`. -/
def backupExisting (path : String) : Prog (Machine String F) Raised String := do
  let backup ← mkstemp world.empty
    (fun files => (world.random path files).map (fun random => hiddenSibling path random ".backup"))
    ((world.fails (.createBackup path)).map (fun error => ⟨.createBackup path, .os error⟩))
    ⟨.createBackup path, .noUsableName⟩
  replacePath world (.moveAside path backup) path backup
  return backup

/-- One turn of `backup_targets`. -/
def backupTarget (target : String) : Prog (Machine String F) Raised Unit := do
  let m ← Prog.get
  if (m.files target).isSome then do
    let backup ← backupExisting world target
    Prog.step (fun m => m.recordBackup target backup)
  else return ()

/-- `restore_files`. -/
def restoreFiles (installed : List String) : Prog (Machine String F) Raised Unit := do
  let m ← Prog.get
  restore installed (m.backups.insertionSort (fun a b => a.1 ≤ b.1))

/-- `backup_targets`. -/
def backupTargets (targets : List String) : Prog (Machine String F) Raised Unit :=
  Prog.onRaise (targets.forM (backupTarget world)) (restoreFiles [])

/-- The order of installation: the manifest comes last. -/
def installOrder (manifest : Option String) (item : String × String) : Bool ×ₗ String :=
  toLex (decide (manifest = some item.1), item.1)

def ordered (staged : List (String × String)) (manifest : Option String) :
    List (String × String) :=
  staged.insertionSort (fun a b => installOrder manifest a ≤ installOrder manifest b)

/-- One turn of `install_files`. -/
def installFile (item : String × String) : Prog (Machine String F) Raised Unit := do
  match world.fails (.makeParent item.1) with
  | some error => Prog.raise ⟨.makeParent item.1, .os error⟩
  | none => do
    replacePath world (.moveIntoPlace item.2 item.1) item.2 item.1
    Prog.step (fun m => m.recordInstalled item.1)

/-- `install_files`. -/
def installFiles (staged : List (String × String)) (manifest : Option String) :
    Prog (Machine String F) Raised Unit :=
  (ordered staged manifest).forM (installFile world)

/-- `cleanup_transaction`. -/
def cleanupTransaction (staged : List (String × String)) :
    Prog (Machine String F) Raised Unit := do
  let m ← Prog.get
  cleanup (staged.map Prod.snd) m.backups

/-- `sorted(set(staged) | set(stale))`. -/
def targetsOf (staged : List (String × String)) (stale : List String) : List String :=
  (staged.map Prod.fst ++ stale).dedup.insertionSort (· ≤ ·)

def installStagedFiles (staged : List (String × String)) (stale : List String)
    (manifest : Option String) : Prog (Machine String F) Raised Unit :=
  Prog.ensure
    (Prog.onRaise
      (do
        backupTargets world (targetsOf staged stale)
        installFiles world staged manifest)
      (do
        let m ← Prog.get
        restoreFiles m.installed))
    (cleanupTransaction staged)

end

/-! ## Moving targets aside -/

section

variable {F : Type} {world : World F} {before : String → Option F} {targets temporaries : List String}
  {m m' : Machine String F} {K : Machine String F → Prop}

/-- The hidden names of the targets are none of the given paths. -/
def NamesHidden (targets temporaries : List String) : Prop :=
  ∀ target ∈ targets, ∀ random, hiddenSibling target random ".backup" ∉ targets
      ∧ hiddenSibling target random ".backup" ∉ temporaries

theorem NamesHidden.of_suffix (h : ∀ p ∈ targets ++ temporaries, ¬ ".backup".toList <:+ p.toList) :
    NamesHidden targets temporaries := by
  intro target _ random
  constructor
  · exact fun hmem => h _ (List.mem_append_left _ hmem) suffix_hiddenSibling
  · exact fun hmem => h _ (List.mem_append_right _ hmem) suffix_hiddenSibling

/-- **One target** is moved aside, or the call raises with everything held. -/
theorem wp_backupTarget {target : String} {done : List String}
    (h : MovedAside before (Machine.start before) targets temporaries done m) (htarget : target ∈ targets)
    (hnew : target ∉ done) (hnames : NamesHidden targets temporaries)
    (htemporaries : ∀ t ∈ temporaries, t ∉ targets)
    (hK : ∀ m', Partway before targets m' → m'.installed = [] → K m') :
    wp (backupTarget world target)
      (fun _ m' => MovedAside before (Machine.start before) targets temporaries (done ++ [target]) m')
      (fun _ m' => Held before targets m' ∧ m'.installed = []) K m := by
  unfold backupTarget
  rw [wp_bind, wp_get, wp_ite]
  split_ifs with hexists
  · rw [wp_bind]
    unfold backupExisting
    rw [wp_bind]
    refine wp_imp (fun hidden m' hm' => ?_) (h.wp_aside
        (fun hidden => (world.fails (.moveAside target hidden)).map
          (fun error => ⟨.moveAside target hidden, replaceError target hidden error⟩))
        (fun hidden => ⟨.moveAside target hidden, .fileNotFound target⟩) htarget hnew ?_ htemporaries hK (fun _ _ => ⟨h.held, h.installed⟩)
        (fun _ m' hm' _ _ => ⟨hm'.held, hm'.installed⟩))
    · rw [wp_bind]
      exact hm'
    · intro hidden hchoose _
      obtain ⟨random, -, hname⟩ := Option.map_eq_some_iff.mp hchoose
      exact hname ▸ hnames target htarget random
  · exact h.skip htarget hnew (Option.not_isSome_iff_eq_none.mp hexists)

end

/-! ## Moving files into place -/

section

variable {F : Type} {world : World F} {before : String → Option F} {targets : List String}
  {staged : List (String × String)} {manifest : Option String} {m m' : Machine String F}
  {K : Machine String F → Prop}

/-- Every staged content is at its final path. -/
def InPlace (before : String → Option F) (staged : List (String × String))
    (m : Machine String F) : Prop :=
  ∀ item ∈ staged, m.files item.1 = before item.2 ∧ (before item.2).isSome = true

/-- The manifest is as before or absent, or everything is in place. -/
def ManifestLast (before : String → Option F) (staged : List (String × String))
    (manifest : Option String) (m : Machine String F) : Prop :=
  ∀ path, manifest = some path → path ∈ staged.map Prod.fst →
    m.files path = before path ∨ m.files path = none ∨ InPlace before staged m

/-- The files `done` have been moved into place; nothing stands at the other targets. -/
structure MovedInto (before : String → Option F) (targets : List String)
    (staged done : List (String × String)) (m : Machine String F) : Prop where
  held : Held before targets m
  installed : m.installed = done.map Prod.fst
  keys : m.backups.map Prod.fst = targets.filter (fun p => (before p).isSome)
  temporaries : ∀ item ∈ staged, m.files item.2 = before item.2 ∨ m.files item.2 = none
  hidden : ∀ b ∈ m.backups, b.2 ∉ staged.map Prod.snd
  placed : InPlace before done m
  cleared : ∀ p ∈ targets, p ∉ done.map Prod.fst → m.files p = none

theorem ordered_perm (staged : List (String × String)) (manifest : Option String) :
    (ordered staged manifest).Perm staged := List.perm_insertionSort _ _

theorem manifest_last {done rest : List (String × String)} {item : String × String} {path : String}
    (hnodup : (staged.map Prod.fst).Nodup) (hsplit : ordered staged manifest = done ++ item :: rest)
    (hmanifest : manifest = some path) : path ∉ done.map Prod.fst := by
  intro hmem
  obtain ⟨first, hfirst, hpath⟩ := List.mem_map.mp hmem
  have hsorted : (ordered staged manifest).Pairwise (fun a b =>
      installOrder manifest a ≤ installOrder manifest b) := List.pairwise_insertionSort _ _
  rw [hsplit, List.pairwise_append] at hsorted
  have hle := hsorted.2.2 first hfirst item List.mem_cons_self
  have hnodup' : ((ordered staged manifest).map Prod.fst).Nodup :=
    ((ordered_perm staged manifest).map Prod.fst).nodup_iff.mpr hnodup
  rw [hsplit, List.map_append, List.nodup_append] at hnodup'
  have hne : first.1 ≠ item.1 :=
    hnodup'.2.2 first.1 (List.mem_map_of_mem hfirst) item.1 (by simp)
  -- the manifest is the greatest in the order of installation
  unfold installOrder at hle
  rw [hmanifest, hpath, Prod.Lex.toLex_le_toLex] at hle
  rw [hpath] at hne
  simp only [hne, decide_true, Option.some.injEq, decide_false, Bool.true_eq_false, false_and,
    or_false] at hle
  exact absurd hle (by decide)

/-- **One file** is moved into place, or the call raises with everything held. -/
theorem wp_installFile {done rest : List (String × String)} {item : String × String}
    (h : MovedInto before targets staged done m)
    (hnodup : (staged.map Prod.fst).Nodup) (hsplit : ordered staged manifest = done ++ item :: rest)
    (htargets : ∀ item ∈ staged, item.1 ∈ targets ∧ item.2 ∉ targets) :
    wp (installFile world item)
      (fun _ m' => MovedInto before targets staged (done ++ [item]) m')
      (fun _ m' => Held before targets m' ∧ ∀ path, manifest = some path → path ∉ m'.installed)
      (ManifestLast before staged manifest) m := by
  have hitem : item ∈ staged := by
    refine (ordered_perm staged manifest).mem_iff.mp ?_
    rw [hsplit]
    simp
  have hdone : ∀ other ∈ done, other ∈ staged := by
    intro other hother
    refine (ordered_perm staged manifest).mem_iff.mp ?_
    rw [hsplit]
    exact List.mem_append_left _ hother
  obtain ⟨hfinal, htemporary⟩ := htargets item hitem
  have hnotLast : ∀ path, manifest = some path → path ∉ m.installed := by
    intro path hpath
    rw [h.installed]
    exact manifest_last hnodup hsplit hpath
  have hnew : item.1 ∉ done.map Prod.fst := by
    have hnodup' : ((ordered staged manifest).map Prod.fst).Nodup :=
      ((ordered_perm staged manifest).map Prod.fst).nodup_iff.mpr hnodup
    rw [hsplit, List.map_append, List.nodup_append] at hnodup'
    exact fun hmem => hnodup'.2.2 item.1 hmem item.1 (by simp) rfl
  unfold installFile
  cases world.fails (.makeParent item.1) with
  | some error => exact ⟨h.held, hnotLast⟩
  | none =>
    show wp (replacePath world _ item.2 item.1 >>= fun _ => _) _ _ _ m
    rw [wp_bind]
    refine wp_move (fun _ _ => ⟨h.held, hnotLast⟩) (fun _ => ⟨h.held, hnotLast⟩) ?_
    intro content hcontent
    have hbefore : before item.2 = some content := by
      rcases h.temporaries item hitem with hsame | hnone
      · rw [← hsame, hcontent]
      · rw [hnone] at hcontent
        cases hcontent
    have hsource : ∀ p ∈ targets, p ≠ item.2 := fun p hp heq => htemporary (heq ▸ hp)
    -- afterwards, whether or not the path has been recorded
    have hplaced : InPlace before (done ++ [item]) (m.rename item.2 item.1) := by
      intro other hother
      rcases List.mem_append.mp hother with hother | hother
      · have htarget := (htargets other (hdone other hother)).1
        have hne : other.1 ≠ item.1 := fun heq => hnew (heq ▸ List.mem_map_of_mem hother)
        rw [Machine.rename_other (hsource other.1 htarget) hne]
        exact h.placed other hother
      · rw [List.mem_singleton.mp hother, Machine.rename_destination, hcontent, hbefore]
        exact ⟨rfl, rfl⟩
    have hinstalled : ((m.rename item.2 item.1).recordInstalled item.1).installed
        = (done ++ [item]).map Prod.fst := by
      show (m.rename item.2 item.1).installed ++ [item.1] = _
      rw [Machine.rename_installed, h.installed, List.map_append, List.map_singleton]
    refine ⟨?_, ?_, ?_⟩
    · intro path hpath hmem
      rcases h.held.partway (List.mem_map.mp hmem |>.elim fun other hother =>
        hother.2 ▸ (htargets other hother.1).1) (hnotLast path hpath) with hsame | hnone
      · exact Or.inl hsame
      · exact Or.inr (Or.inl hnone)
    · intro path hpath hmem
      by_cases heq : path = item.1
      · -- the manifest itself: nothing is left
        refine Or.inr (Or.inr (fun other hother => hplaced other ?_))
        have hother' := (ordered_perm staged manifest).mem_iff.mpr hother
        cases rest with
        | nil => rwa [hsplit] at hother'
        | cons next rest =>
          have hsplit' : ordered staged manifest = (done ++ [item]) ++ next :: rest := by
            rw [hsplit, List.append_assoc, List.singleton_append]
          exact absurd (by simp [heq]) (manifest_last hnodup hsplit' hpath)
      · obtain ⟨other, hother, rfl⟩ := List.mem_map.mp hmem
        have htarget := (htargets other hother).1
        rw [Machine.rename_other (hsource other.1 htarget) heq]
        rcases h.held.partway htarget (hnotLast other.1 hpath) with hsame | hnone
        · exact Or.inl hsame
        · exact Or.inr (Or.inl hnone)
    · refine ⟨?_, hinstalled, ?_, ?_, ?_, hplaced, ?_⟩
      · refine h.held.install hfinal ?_ htemporary ?_
        · by_cases hsome : (before item.1).isSome = true
          · left
            rw [h.keys]
            exact List.mem_filter.mpr ⟨hfinal, hsome⟩
          · exact Or.inr (Option.not_isSome_iff_eq_none.mp hsome)
        · intro hmem
          obtain ⟨b, hb, heq⟩ := List.mem_map.mp hmem
          exact h.hidden b hb (heq ▸ List.mem_map_of_mem hitem)
      · show (m.rename item.2 item.1).backups.map Prod.fst = _
        rw [Machine.rename_backups, h.keys]
      · intro other hother
        show (m.rename item.2 item.1).files other.2 = _ ∨ _
        have hne : other.2 ≠ item.1 := fun heq => (htargets other hother).2 (heq ▸ hfinal)
        by_cases heq : other.2 = item.2
        · right
          show (m.rename item.2 item.1).files other.2 = none
          rw [heq]
          exact Machine.rename_source (fun heq' => htemporary (heq' ▸ hfinal))
        · show _ ∨ (m.rename item.2 item.1).files other.2 = none
          rw [Machine.rename_other heq hne]
          exact h.temporaries other hother
      · intro b hb
        have hb' : b ∈ m.backups := by
          have hb'' : b ∈ (m.rename item.2 item.1).backups := hb
          rwa [Machine.rename_backups] at hb''
        exact h.hidden b hb'
      · intro p hp hnot
        rw [List.map_append, List.mem_append, not_or, List.map_singleton,
          List.mem_singleton] at hnot
        show (m.rename item.2 item.1).files p = none
        rw [Machine.rename_other (hsource p hp) hnot.2]
        exact h.cleared p hp hnot.1

end

/-! ## The whole installation -/

section

variable {F : Type} {world : World F} {before : String → Option F} {staged : List (String × String)}
  {stale : List String} {manifest : Option String} {m m' : Machine String F}

/-- Every target and every stale path is as before. -/
def Undone (before : String → Option F) (staged : List (String × String)) (stale : List String)
    (m : Machine String F) : Prop :=
  ∀ p, p ∈ staged.map Prod.fst ∨ p ∈ stale → m.files p = before p

/-- Everything is in place, and the other stale paths are gone. -/
structure Done (before : String → Option F) (staged : List (String × String)) (stale : List String)
    (m : Machine String F) : Prop where
  inPlace : InPlace before staged m
  retired : ∀ p ∈ stale, p ∉ staged.map Prod.fst → m.files p = none

/-- `p` lies in the directory `q`. -/
def Inside (p q : String) : Prop := q.toList ++ ['/'] <+: p.toList

instance (p q : String) : Decidable (Inside p q) := inferInstanceAs (Decidable (_ <+: _))

/-- A request whose paths do not get into each other's way: no staged file is a target, no path is a
hidden name of a target, and none has to be a file and a directory at once. -/
structure Separate (staged : List (String × String)) (stale : List String) : Prop where
  nodup : (staged.map Prod.fst).Nodup
  temporary : ∀ item ∈ staged, item.2 ∉ staged.map Prod.fst ∧ item.2 ∉ stale
  names : NamesHidden (staged.map Prod.fst ++ stale) (staged.map Prod.snd)
  apart : (staged.map Prod.fst ++ stale ++ staged.map Prod.snd).Pairwise
    (fun p q => ¬ Inside p q ∧ ¬ Inside q p)

theorem mem_targetsOf {p : String} :
    p ∈ targetsOf staged stale ↔ p ∈ staged.map Prod.fst ∨ p ∈ stale := by
  unfold targetsOf
  rw [List.mem_insertionSort, List.mem_dedup, List.mem_append]

theorem nodup_targetsOf (staged : List (String × String)) (stale : List String) :
    (targetsOf staged stale).Nodup :=
  (List.perm_insertionSort _ _).nodup_iff.mpr (List.nodup_dedup _)

theorem Separate.namesHidden (h : Separate staged stale) :
    NamesHidden (targetsOf staged stale) (staged.map Prod.snd) := by
  intro target htarget random
  have hmem : ∀ p, p ∈ targetsOf staged stale ↔ p ∈ staged.map Prod.fst ++ stale :=
    fun p => mem_targetsOf.trans List.mem_append.symm
  obtain ⟨hout, htemporary⟩ := h.names target ((hmem target).mp htarget) random
  exact ⟨fun hin => hout ((hmem _).mp hin), htemporary⟩

theorem Separate.targets (h : Separate staged stale) (item : String × String)
    (hitem : item ∈ staged) :
    item.1 ∈ targetsOf staged stale ∧ item.2 ∉ targetsOf staged stale := by
  refine ⟨mem_targetsOf.mpr (Or.inl (List.mem_map_of_mem hitem)), fun hmem => ?_⟩
  rcases mem_targetsOf.mp hmem with hfinal | hstale
  · exact (h.temporary item hitem).1 hfinal
  · exact (h.temporary item hitem).2 hstale

theorem ManifestLast.of_partway (stale : List String) (h : Partway before (targetsOf staged stale) m)
    (hmanifest : ∀ path, manifest = some path → path ∉ m.installed) :
    ManifestLast before staged manifest m := by
  intro path hpath hmem
  rcases h path (mem_targetsOf.mpr (Or.inl hmem)) (hmanifest path hpath) with hsame | hnone
  · exact Or.inl hsame
  · exact Or.inr (Or.inl hnone)

theorem wp_phases (h : Separate staged stale) :
    wp (do
        backupTargets world (targetsOf staged stale)
        installFiles world staged manifest)
      (fun _ m' => MovedInto before (targetsOf staged stale) staged (ordered staged manifest) m')
      (fun _ m' => (Held before (targetsOf staged stale) m'
          ∧ ∀ path, manifest = some path → path ∉ m'.installed)
        ∨ ∃ m'', Held before (targetsOf staged stale) m''
          ∧ Returned before (targetsOf staged stale) m'' m' ∧ m'.installed = [])
      (ManifestLast before staged manifest) (Machine.start before) := by
  have htemporaries : ∀ t ∈ staged.map Prod.snd, t ∉ targetsOf staged stale := by
    intro t ht
    obtain ⟨item, hitem, rfl⟩ := List.mem_map.mp ht
    exact (h.targets item hitem).2
  have hempty : ∀ m' : Machine String F, m'.installed = [] →
      ∀ path, manifest = some path → path ∉ m'.installed := by
    intro m' hm' path _
    rw [hm']
    exact List.not_mem_nil
  rw [wp_bind]
  unfold backupTargets
  rw [wp_onRaise]
  -- every existing target is moved aside
  have hbackup : wp ((targetsOf staged stale).forM (backupTarget world))
      (fun _ m' => MovedAside before (Machine.start before) (targetsOf staged stale) (staged.map Prod.snd)
        (targetsOf staged stale) m')
      (fun _ m' => Held before (targetsOf staged stale) m' ∧ m'.installed = [])
      (ManifestLast before staged manifest) (Machine.start before) := by
    refine wp_forM (fun done m' => MovedAside before (Machine.start before) (targetsOf staged stale)
      (staged.map Prod.snd) done m') ?_
      ⟨Held.of_same rfl rfl (fun _ _ => rfl), rfl, rfl, by simp [Machine.start], rfl, fun _ _ => rfl⟩
    intro done target rest m' hsplit hm'
    have htarget : target ∈ targetsOf staged stale := by
      rw [hsplit]
      simp
    have hnew : target ∉ done := by
      have hnodup := nodup_targetsOf staged stale
      rw [hsplit, List.nodup_append] at hnodup
      exact fun hmem => hnodup.2.2 target hmem target List.mem_cons_self rfl
    exact wp_backupTarget hm' htarget hnew h.namesHidden htemporaries
      (fun m'' hpartway hinstalled => ManifestLast.of_partway stale hpartway (hempty m'' hinstalled))
  refine wp_mono (fun _ m' hm' => ?_) (fun e m' hm' => ?_) (fun _ h => h) hbackup
  · -- the staged files are moved into place
    have hstart : MovedInto before (targetsOf staged stale) staged [] m' := by
      refine ⟨hm'.held, hm'.installed, hm'.keys, ?_, hm'.hidden, by simp [InPlace], ?_⟩
      · intro item hitem
        exact Or.inl (hm'.temporaries item.2 (List.mem_map_of_mem hitem))
      · intro p hp _
        by_cases hkey : p ∈ m'.backups.map Prod.fst
        · obtain ⟨b, hb, rfl⟩ := List.mem_map.mp hkey
          refine hm'.held.aside b hb ?_
          rw [hm'.installed]
          exact List.not_mem_nil
        · rw [hm'.held.same p hp hkey (by rw [hm'.installed]; exact List.not_mem_nil)]
          rw [hm'.keys, List.mem_filter] at hkey
          by_contra hsome
          exact hkey ⟨hp, Option.isSome_iff_ne_none.mpr hsome⟩
    unfold installFiles
    refine wp_mono (fun _ _ h => h) (fun _ _ h => Or.inl h) (fun _ h => h)
      (wp_forM (fun done m'' => MovedInto before (targetsOf staged stale) staged done m'')
        ?_ hstart)
    intro done item rest m'' hsplit hm''
    exact wp_installFile hm'' h.nodup hsplit h.targets
  · -- the inner handler restores at once
    obtain ⟨hheld, hinstalled⟩ := hm'
    unfold restoreFiles
    rw [wp_bind, wp_get]
    have horder := List.perm_insertionSort (fun a b : String × String => a.1 ≤ b.1) m'.backups
    have hrestore := hheld.wp_restore (ε := Raised) (Q := fun _ m'' =>
        Returned before (targetsOf staged stale) m' m'') (E := fun _ _ => False)
      (K := ManifestLast before staged manifest) horder
      (fun m'' hm'' => ManifestLast.of_partway stale
        (fun p hp hnot => hm''.partway p hp (by rwa [hm''.installed] at hnot))
        (by rw [hm''.installed]; exact hempty m' hinstalled))
      (fun _ h => h)
    rw [hinstalled] at hrestore
    refine wp_mono (fun _ m'' hm'' => ?_) (fun _ _ h => h.elim) (fun _ h => h) hrestore
    exact Or.inr ⟨m', hheld, hm'', hm''.installed.trans hinstalled⟩

theorem wp_cleanupTransaction (h : Separate staged stale) {Q : Unit → Machine String F → Prop}
    {E : Raised → Machine String F → Prop} {K : Machine String F → Prop}
    (hhidden : ∀ b ∈ m.backups, b.2 ∉ targetsOf staged stale)
    (hK : ∀ m', (∀ p ∈ targetsOf staged stale, m'.files p = m.files p) → K m')
    (hQ : ∀ m', (∀ p ∈ targetsOf staged stale, m'.files p = m.files p) → Q () m') :
    wp (cleanupTransaction staged) Q E K m := by
  have hkept : ∀ done, (∀ p ∈ done, p ∈ staged.map Prod.snd ++ m.backups.map Prod.snd) →
      ∀ p ∈ targetsOf staged stale, (m.without done).files p = m.files p := by
    intro done hdone p hp
    rw [Machine.without_files, if_neg]
    intro hmem
    rcases List.mem_append.mp (hdone p hmem) with htemporary | hbackup
    · obtain ⟨item, hitem, rfl⟩ := List.mem_map.mp htemporary
      exact (h.targets item hitem).2 hp
    · obtain ⟨b, hb, rfl⟩ := List.mem_map.mp hbackup
      exact hhidden b hb hp
  unfold cleanupTransaction
  rw [wp_bind, wp_get]
  exact wp_cleanup (fun done hdone => hK _ (hkept done hdone)) (hQ _ (hkept _ (fun _ hp => hp)))

theorem wp_installStagedFiles (h : Separate staged stale) :
    wp (installStagedFiles world staged stale manifest)
      (fun _ m' => Done before staged stale m') (fun _ m' => Undone before staged stale m')
      (ManifestLast before staged manifest) (Machine.start before) := by
  -- what has been restored stays so while the temporary files are removed
  have hundo : ∀ e m', (∀ p ∈ targetsOf staged stale, m'.files p = before p) →
      (∀ b ∈ m'.backups, b.2 ∉ targetsOf staged stale) →
      wp (cleanupTransaction staged)
        (fun _ m'' => (fun (_ : Raised) m'' => Undone before staged stale m'') e m'')
        (fun _ m'' => Undone before staged stale m'') (ManifestLast before staged manifest) m' := by
    intro e m' hrestored hhidden
    refine wp_cleanupTransaction h hhidden (fun m'' hsame => ?_) (fun m'' hsame => ?_)
    · intro path _ hmem
      have htarget : path ∈ targetsOf staged stale := mem_targetsOf.mpr (Or.inl hmem)
      exact Or.inl ((hsame path htarget).trans (hrestored path htarget))
    · intro p hp
      have htarget := mem_targetsOf.mpr hp
      exact (hsame p htarget).trans (hrestored p htarget)
  unfold installStagedFiles
  rw [wp_ensure, wp_onRaise]
  refine wp_mono (fun _ m' hm' => ?_) (fun e m' hm' => ?_) (fun _ h => h) (wp_phases h)
  · -- everything is in place
    have hplaced : ∀ m'', (∀ p ∈ targetsOf staged stale, m''.files p = m'.files p) →
        InPlace before staged m'' := by
      intro m'' hsame item hitem
      rw [hsame item.1 (h.targets item hitem).1]
      exact hm'.placed item ((ordered_perm staged manifest).mem_iff.mpr hitem)
    refine wp_cleanupTransaction h hm'.held.hidden (fun m'' hsame _ _ _ => ?_)
      (fun m'' hsame => ⟨hplaced m'' hsame, fun p hp hnew => ?_⟩)
    · exact Or.inr (Or.inr (hplaced m'' hsame))
    · have htarget := mem_targetsOf.mpr (Or.inr hp : p ∈ staged.map Prod.fst ∨ p ∈ stale)
      rw [hsame p htarget]
      refine hm'.cleared p htarget (fun hmem => hnew ?_)
      exact ((ordered_perm staged manifest).map Prod.fst).mem_iff.mp hmem
  · rw [wp_bind, wp_get]
    unfold restoreFiles
    rw [wp_bind, wp_get]
    have horder := List.perm_insertionSort (fun a b : String × String => a.1 ≤ b.1) m'.backups
    rcases hm' with ⟨hheld, hnotLast⟩ | ⟨m'', hheld, hreturned, hinstalled⟩
    · refine hheld.wp_restore horder (fun m₁ hm₁ => ?_) (fun m₁ hm₁ => ?_)
      · refine ManifestLast.of_partway stale (fun p hp hnot => ?_) ?_
        · exact hm₁.partway p hp (by rwa [hm₁.installed] at hnot)
        · rw [hm₁.installed]
          exact hnotLast
      · refine hundo e m₁ hm₁.restored ?_
        rw [hm₁.backups]
        exact hheld.hidden
    · -- the inner handler has restored everything
      rw [hinstalled]
      refine wp_restore_again (fun b hb => hreturned.gone b ?_) (hundo e m' hreturned.restored ?_)
      · rw [← hreturned.backups]
        exact horder.mem_iff.mp hb
      · rw [hreturned.backups]
        exact hheld.hidden

/-- **The installation is all or nothing.** If it raises, every target and every stale path is as
before. If it returns, everything is in place and the other stale paths are gone. At no moment is the
manifest new while a staged file is missing. -/
theorem installStagedFiles_allOrNothing (world : World F) (before : String → Option F)
    (manifest : Option String) (h : Separate staged stale) :
    (∀ e m', Prog.run (installStagedFiles world staged stale manifest) (Machine.start before)
        = (.error e, m') → Undone before staged stale m')
      ∧ (∀ m', Prog.run (installStagedFiles world staged stale manifest) (Machine.start before)
        = (.ok (), m') → Done before staged stale m')
      ∧ ∀ n m', Prog.exec (installStagedFiles world staged stale manifest) n (Machine.start before)
        = .killed m' → ManifestLast before staged manifest m' := by
  have hwp := @wp_installStagedFiles F world before staged stale manifest h
  have hrun := wp_run hwp
  refine ⟨fun e m' he => ?_, fun m' hm' => ?_, fun n m' hn => wp_killed hwp hn⟩
  · rw [he] at hrun
    exact hrun
  · rw [hm'] at hrun
    exact hrun

end

namespace StagedInstallExample

/-- A random name. -/
def letters : RandomName := .letters

/-- Only the step `failing` fails. -/
def world (failing : Option Step) : World Nat where
  fails step := if some step = failing then some .crossDevice else none
  random _ _ := some letters
  empty := 0

/-- A table and its manifest, with their successors, and a table that is to be retired. -/
def before : String → Option Nat
  | "/d/table" => some 1
  | "/d/manifest" => some 2
  | "/d/table.new" => some 3
  | "/d/manifest.new" => some 4
  | "/d/old" => some 5
  | _ => none

def staged : List (String × String) :=
  [("/d/manifest", "/d/manifest.new"), ("/d/table", "/d/table.new")]

/-- The installation with the step `failing`. -/
def install (failing : Option Step) (staged : List (String × String)) (stale : List String) :
    Except Raised Unit × Machine String Nat :=
  Prog.run (installStagedFiles (world failing) staged stale (some "/d/manifest"))
    (Machine.start before)

theorem separate : Separate staged ["/d/old"] :=
  ⟨by decide, by decide, NamesHidden.of_suffix (by decide), by decide⟩

/-- The manifest cannot be moved into place: everything comes back. -/
theorem install_undone : Undone before staged ["/d/old"]
      (install (some (.moveIntoPlace "/d/manifest.new" "/d/manifest")) staged ["/d/old"]).2 :=
  (installStagedFiles_allOrNothing (world _) before (some "/d/manifest") separate).1
    ⟨.moveIntoPlace "/d/manifest.new" "/d/manifest",
      .crossFilesystem "/d/manifest.new" "/d/manifest"⟩ _
    (Prod.ext (by decide) rfl)

/-- A staged file that is to be retired is lost when the installation fails. -/
theorem install_stagedStale : ¬ ∀ e m', install (some (.moveIntoPlace "/d/table.new" "/d/table"))
        [("/d/table", "/d/table.new")] ["/d/table.new"] = (.error e, m') →
      Undone before [("/d/table", "/d/table.new")] ["/d/table.new"] m' := by
  intro h
  have hraised := h ⟨.moveIntoPlace "/d/table.new" "/d/table",
    .crossFilesystem "/d/table.new" "/d/table"⟩ _ (Prod.ext (by decide) rfl)
  exact absurd (hraised "/d/table.new" (by decide)) (by decide)

end StagedInstallExample

/-! ## What is left behind -/

section

variable {F : Type} {world : World F} {staged : List (String × String)} {stale : List String}
  {manifest : Option String} {m m' : Machine String F} {step : Step}

/-- No staged file and no hidden file that the call created exists. -/
def Clean (staged : List (String × String)) (m : Machine String F) : Prop :=
  ∀ p ∈ staged.map Prod.snd ++ m.created, m.files p = none

/-- Every hidden file that was created holds a target. -/
def Registered (m : Machine String F) : Prop := ∀ p ∈ m.created, p ∈ m.backups.map Prod.snd

/-- The hidden file was created, and nothing knows about it. -/
structure Stranded (hidden : String) (m : Machine String F) : Prop where
  created : hidden ∈ m.created
  unknown : hidden ∉ m.backups.map Prod.snd
  exists_ : (m.files hidden).isSome = true
  others : ∀ p ∈ m.created, p = hidden ∨ p ∈ m.backups.map Prod.snd
  installed : m.installed = []

/-- What is left when a step raises. -/
def Left (step : Step) (m : Machine String F) : Prop :=
  (Registered m ∧ ∀ target hidden, step ≠ .moveAside target hidden)
    ∨ ∃ target hidden, step = .moveAside target hidden ∧ Stranded hidden m

/-- The hidden files that are known belong to the targets `done`. -/
structure Tracked (done : List String) (m : Machine String F) : Prop where
  registered : Registered m
  names : ∀ b ∈ m.backups, b.1 ∈ done ∧ ∃ random, b.2 = hiddenSibling b.1 random ".backup"
  installed : m.installed = []

/-- The hidden file of a target is registered as soon as the target has been moved to it, and not
before. -/
theorem wp_backupTarget_tracked {target : String} {done : List String} (h : Tracked done m)
    (hnew : target ∉ done) :
    wp (backupTarget world target) (fun _ m' => Tracked (done ++ [target]) m')
      (fun raised m' => Left raised.step m') (fun _ => True) m := by
  unfold backupTarget
  rw [wp_bind, wp_get, wp_ite]
  split_ifs with hexists
  · rw [wp_bind]
    unfold backupExisting
    rw [wp_bind]
    refine wp_mkstemp (fun e he => ?_) (Or.inl ⟨h.registered, by simp⟩) ?_
    · obtain ⟨error, -, rfl⟩ := Option.map_eq_some_iff.mp he
      exact Or.inl ⟨h.registered, by simp⟩
    intro hidden hchoose hfree
    obtain ⟨random, -, hname⟩ := Option.map_eq_some_iff.mp hchoose
    have hunknown : hidden ∉ m.backups.map Prod.snd := by
      intro hmem
      obtain ⟨b, hb, heq⟩ := List.mem_map.mp hmem
      obtain ⟨hdone, random', hname'⟩ := h.names b hb
      have htarget : target = b.1 := by
        exact hiddenSibling_injective (by decide) (hname.trans (heq.symm.trans hname'))
      exact hnew (htarget ▸ hdone)
    have hstranded : Stranded hidden (m.create hidden world.empty) := by
      refine ⟨List.mem_append_right _ (List.mem_singleton_self _), hunknown, ?_, ?_, h.installed⟩
      · show (Option.isSome ((m.write hidden world.empty).files hidden)) = true
        rw [Machine.write_self]
        rfl
      · intro p hp
        rcases List.mem_append.mp hp with hp | hp
        · exact Or.inr (h.registered p hp)
        · exact Or.inl (List.mem_singleton.mp hp)
    refine ⟨trivial, ?_⟩
    rw [wp_bind]
    refine wp_move (fun e he => ?_) (fun _ => Or.inr ⟨target, hidden, rfl, hstranded⟩) ?_
    · obtain ⟨error, -, rfl⟩ := Option.map_eq_some_iff.mp he
      exact Or.inr ⟨target, hidden, rfl, hstranded⟩
    intro content hcontent
    refine ⟨trivial, trivial, ?_, ?_, ?_⟩
    · -- the new hidden file is now the last one that is known
      intro p hp
      rw [Machine.recordBackup_created, Machine.rename_created] at hp
      rw [Machine.recordBackup_backups, Machine.rename_backups, List.map_append, List.mem_append]
      rcases hstranded.others p hp with rfl | hknown
      · exact Or.inr (List.mem_singleton_self _)
      · exact Or.inl hknown
    · intro b hb
      rw [Machine.recordBackup_backups, Machine.rename_backups] at hb
      rcases List.mem_append.mp hb with hb | hb
      · obtain ⟨hdone, hrandom⟩ := h.names b hb
        exact ⟨List.mem_append_left _ hdone, hrandom⟩
      · rw [List.mem_singleton.mp hb]
        exact ⟨List.mem_append_right _ (List.mem_singleton_self _), random, hname.symm⟩
    · rw [Machine.recordBackup_installed, Machine.rename_installed]
      exact h.installed
  · refine ⟨h.registered, fun b hb => ?_, h.installed⟩
    obtain ⟨hdone, hrandom⟩ := h.names b hb
    exact ⟨List.mem_append_left _ hdone, hrandom⟩

theorem wp_installFile_registered {item : String × String} (h : Registered m) :
    wp (installFile world item) (fun _ m' => Registered m')
      (fun raised m' => Left raised.step m') (fun _ => True) m := by
  unfold installFile
  cases world.fails (.makeParent item.1) with
  | some error => exact Or.inl ⟨h, by simp⟩
  | none =>
    show wp (replacePath world _ item.2 item.1 >>= fun _ => _) _ _ _ m
    rw [wp_bind]
    refine wp_move (fun e he => ?_) (fun _ => Or.inl ⟨h, by simp⟩)
      (fun content _ => ⟨trivial, trivial, ?_⟩)
    · obtain ⟨error, -, rfl⟩ := Option.map_eq_some_iff.mp he
      exact Or.inl ⟨h, by simp⟩
    · intro p hp
      rw [Machine.recordInstalled_created, Machine.rename_created] at hp
      rw [Machine.recordInstalled_backups, Machine.rename_backups]
      exact h p hp

theorem wp_restoreFiles_left {installed : List String} (h : Left step m)
    (hinstalled : installed ⊆ m.installed) :
    wp (restoreFiles (F := F) installed) (fun _ m' => Left step m')
      (fun _ _ => False) (fun _ => True) m := by
  have horder := List.perm_insertionSort (fun a b : String × String => a.1 ≤ b.1) m.backups
  unfold restoreFiles
  rw [wp_bind, wp_get]
  refine wp_imp (fun _ m' hm' => hm'.1)
    (wp_restore_keeps (I := fun m' => Left step m' ∧ m'.backups = m.backups) ?_ ?_ ⟨h, rfl⟩)
  · rintro m' p hp ⟨hleft, hbackups⟩
    refine ⟨?_, hbackups⟩
    rcases h with ⟨-, hne⟩ | ⟨target, hidden, rfl, hstranded⟩
    · rcases hleft with hleft | ⟨target, hidden, heq, -⟩
      · exact Or.inl hleft
      · exact absurd heq (hne target hidden)
    · -- nothing had been installed
      exact absurd (hstranded.installed ▸ hinstalled hp) List.not_mem_nil
  · rintro m' b hb hsome ⟨hleft, hbackups⟩
    refine ⟨?_, Machine.rename_backups.trans hbackups⟩
    rcases hleft with ⟨hregistered, hne⟩ | ⟨target, hidden, rfl, hstranded⟩
    · refine Or.inl ⟨fun p hp => ?_, hne⟩
      rw [Machine.rename_created] at hp
      rw [Machine.rename_backups]
      exact hregistered p hp
    · have hsource : hidden ≠ b.2 := by
        intro heq
        refine hstranded.unknown (heq ▸ List.mem_map_of_mem ?_)
        rw [hbackups]
        exact horder.mem_iff.mp hb
      refine Or.inr ⟨target, hidden, rfl, ?_, ?_, ?_, ?_, ?_⟩
      · rw [Machine.rename_created]
        exact hstranded.created
      · rw [Machine.rename_backups]
        exact hstranded.unknown
      · by_cases hdestination : hidden = b.1
        · rw [hdestination, Machine.rename_destination]
          exact hsome
        · rw [Machine.rename_other hsource hdestination]
          exact hstranded.exists_
      · intro p hp
        rw [Machine.rename_created] at hp
        rw [Machine.rename_backups]
        exact hstranded.others p hp
      · rw [Machine.rename_installed]
        exact hstranded.installed

theorem wp_cleanupTransaction_left (h : Left step m) : wp (cleanupTransaction staged)
      (fun _ m' => Clean staged m' ↔ ∀ target hidden, step = .moveAside target hidden →
        hidden ∈ staged.map Prod.snd)
      (fun _ _ => False) (fun _ => True) m := by
  have hremoved : (∀ p ∈ m.created, p ∈ staged.map Prod.snd ++ m.backups.map Prod.snd) →
      Clean staged (m.without (staged.map Prod.snd ++ m.backups.map Prod.snd)) := by
    intro hcreated p hp
    rw [Machine.without_files, if_pos]
    rcases List.mem_append.mp hp with hp | hp
    · exact List.mem_append_left _ hp
    · exact hcreated p hp
  unfold cleanupTransaction
  rw [wp_bind, wp_get]
  refine wp_cleanup (fun _ _ => trivial) ?_
  rcases h with ⟨hregistered, hne⟩ | ⟨target, hidden, rfl, hstranded⟩
  · constructor
    · intro _ target hidden heq
      exact absurd heq (hne target hidden)
    · intro _
      exact hremoved (fun p hp => List.mem_append_right _ (hregistered p hp))
  · constructor
    · rintro hclean _ _ ⟨⟩
      have hnone := hclean hidden (List.mem_append_right _ hstranded.created)
      rw [Machine.without_files] at hnone
      split_ifs at hnone with hmem
      · exact (List.mem_append.mp hmem).resolve_right hstranded.unknown
      · have hexists := hstranded.exists_
        rw [hnone] at hexists
        cases hexists
    · intro htemporary
      refine hremoved (fun p hp => ?_)
      rcases hstranded.others p hp with rfl | hknown
      · exact List.mem_append_left _ (htemporary target p rfl)
      · exact List.mem_append_right _ hknown

/-- **A call leaves no temporary file behind** unless moving a target aside raises: then the hidden
file that was made for the target stays, unless it is one of the staged files. -/
theorem installStagedFiles_clean_iff (world : World F) (before : String → Option F)
    (staged : List (String × String)) (stale : List String) (manifest : Option String) :
    (∀ m', Prog.run (installStagedFiles world staged stale manifest) (Machine.start before)
        = (.ok (), m') → Clean staged m')
      ∧ ∀ raised m', Prog.run (installStagedFiles world staged stale manifest)
          (Machine.start before) = (.error raised, m') →
        (Clean staged m' ↔ ∀ target hidden, raised.step = .moveAside target hidden →
          hidden ∈ staged.map Prod.snd) := by
  have hphases : wp (do
        backupTargets world (targetsOf staged stale)
        installFiles world staged manifest)
      (fun _ m' => Registered m') (fun raised m' => Left raised.step m') (fun _ => True)
      (Machine.start before) := by
    have hbackup : wp ((targetsOf staged stale).forM (backupTarget world))
        (fun _ m' => Tracked (targetsOf staged stale) m') (fun raised m' => Left raised.step m')
        (fun _ => True) (Machine.start before) := by
      refine wp_forM (fun done m' => Tracked done m') (fun done target rest m' hsplit hm' => ?_)
        ⟨by simp [Registered, Machine.start], by simp [Machine.start], rfl⟩
      refine wp_backupTarget_tracked hm' ?_
      have hnodup := nodup_targetsOf staged stale
      rw [hsplit, List.nodup_append] at hnodup
      exact fun hmem => hnodup.2.2 target hmem target List.mem_cons_self rfl
    rw [wp_bind]
    unfold backupTargets
    rw [wp_onRaise]
    refine wp_mono (fun _ m' hm' => ?_) (fun raised m' hm' => ?_) (fun _ h => h) hbackup
    · exact wp_forM (fun _ m'' => Registered m'')
        (fun _ _ _ _ _ hm'' => wp_installFile_registered hm'') hm'.registered
    · exact wp_mono (fun _ _ h => h) (fun _ _ h => h.elim) (fun _ h => h)
        (wp_restoreFiles_left hm' (List.nil_subset _))
  have hwp : wp (installStagedFiles world staged stale manifest)
      (fun _ m' => Clean staged m')
      (fun raised m' => Clean staged m' ↔ ∀ target hidden,
        raised.step = .moveAside target hidden → hidden ∈ staged.map Prod.snd)
      (fun _ => True) (Machine.start before) := by
    unfold installStagedFiles
    rw [wp_ensure, wp_onRaise]
    refine wp_mono (fun _ m' hm' => ?_) (fun raised m' hm' => ?_) (fun _ h => h) hphases
    · -- a file that is moved into place is no hidden one
      have hleft : Left (.makeParent "") m' := Or.inl ⟨hm', by simp⟩
      refine wp_mono (fun _ m'' hm'' => ?_) (fun _ _ h => h.elim) (fun _ h => h)
        (wp_cleanupTransaction_left hleft)
      exact hm''.mpr (by simp)
    · rw [wp_bind, wp_get]
      refine wp_mono (fun _ m'' hm'' => ?_) (fun _ _ h => h.elim) (fun _ h => h)
        (wp_restoreFiles_left hm' (List.Subset.refl _))
      exact wp_mono (fun _ _ h => h) (fun _ _ h => h.elim) (fun _ h => h)
        (wp_cleanupTransaction_left hm'')
  have hrun := wp_run hwp
  refine ⟨fun m' hm' => ?_, fun raised m' hm' => ?_⟩
  · rw [hm'] at hrun
    exact hrun
  · rw [hm'] at hrun
    exact hrun

end

namespace StagedInstallExample

/-- The table cannot be moved aside: the empty file made for it stays. -/
theorem install_stranded :
    ¬ Clean staged (install (some (.moveAside "/d/table" "/d/.table.abcdefgh.backup")) staged []).2 := by
  intro h
  exact absurd (h "/d/.table.abcdefgh.backup" (by decide)) (by decide)

end StagedInstallExample

end OsmPolygonWikidata.StagedInstall
