import OsmPolygonWikidata.Containment.Retirement

/-! # What the quarantine keeps

A rule is prepared by runs that can be stopped in front of every step. The quarantine gets a copy
of a table only while it has none, and the copy of a parent's table is made before the staged file
is installed over it. So a copy that is missing can still be made from the original; one that was
cut short, or that an earlier rule left, is never made again.
-/

namespace OsmPolygonWikidata.Containment

open Durable
open Prog (wp wp_bind wp_exec wp_get wp_imp wp_mono wp_pure wp_run wp_step)

section

variable {X C J : Type} {rt : Runtime X C J}

/-! ## Copies and originals -/

/-- The active file that a copy is made of. -/
def QuarantinePath.live (path : QuarantinePath) (s : Store C J) : Option C :=
  match path with
  | .parent stem subdir => s.tables subdir stem
  | .child stem subdir => s.tables subdir stem

/-- The copies of one table. -/
def contractPaths (audit : RuleAudit) (contract : TableContract) : List QuarantinePath :=
  .parent audit.parent contract.subdir
    :: audit.children.map (fun child => .child child.stem contract.subdir)

/-- The copies of the parent and of every child, for each of the seven tables. -/
def quarantinePaths (audit : RuleAudit) : List QuarantinePath :=
  tableContracts.flatMap (contractPaths audit)

/-- All children are recorded as retired. -/
def AllRetired (audit : RuleAudit) (s : Store C J) : Prop :=
  ∃ retired, loadRetiredChildren s = .ok retired ∧ audit.children.map ChildAudit.stem ⊆ retired

/-- The quarantine holds the files of `t`. -/
def QuarantineHolds (audit : RuleAudit) (t s : Store C J) : Prop :=
  ∀ path ∈ quarantinePaths audit, ∀ c, path.live t = some c → s.quarantine path = some c

/-- A copy that is not there can still be made. -/
def OriginalsLeft (audit : RuleAudit) (t s : Store C J) : Prop :=
  ∀ path ∈ quarantinePaths audit, s.quarantine path = none → path.live s = path.live t

/-- What stopped runs leave. -/
def QuarantineInv (audit : RuleAudit) (t s : Store C J) : Prop :=
  AllRetired audit s ∨ OriginalsLeft audit t s

/-- Within one run that started in `s`, copies have only been added, each of an original. -/
structure Copying (audit : RuleAudit) (t s u : Store C J) : Prop where
  filled : ∀ path, u.quarantine path = s.quarantine path
    ∨ (s.quarantine path = none ∧ u.quarantine path = path.live t)
  originals : OriginalsLeft audit t u
  retirements : u.retirements = s.retirements

variable {audit : RuleAudit} {t s u : Store C J}

theorem Copying.inv (h : Copying audit t s u) : QuarantineInv audit t u := Or.inr h.originals

theorem Copying.frame {u' : Store C J} (h : Copying audit t s u) (htables : u'.tables = u.tables)
    (hquarantine : u'.quarantine = u.quarantine) (hretired : u'.retirements = u.retirements) :
    Copying audit t s u' where
  filled := by rw [hquarantine]; exact h.filled
  originals := by
    intro path hpath hnone
    rw [hquarantine] at hnone
    rw [← h.originals path hpath hnone]
    cases path <;> simp only [QuarantinePath.live, htables]
  retirements := hretired.trans h.retirements

/-! ## Copying and installing -/

/-- **A copy** is made when there is none. -/
theorem copyOnce_wp (h : Copying audit t s u) {path : QuarantinePath} {subdir : Subdir}
    {stem : String} (hpath : path ∈ quarantinePaths audit)
    (hlive : ∀ s : Store C J, path.live s = s.tables subdir stem) :
    wp (copyOnce rt subdir stem path)
      (fun _ u' => Copying audit t s u' ∧ (u'.quarantine path).isSome = true
        ∧ ∀ p, (u.quarantine p).isSome = true → (u'.quarantine p).isSome = true)
      (fun _ => QuarantineInv audit t) (QuarantineInv audit t) u := by
  -- a file at `path` takes nothing away from what can still be copied
  have hwrite : ∀ c v, OriginalsLeft audit t v → OriginalsLeft audit t (v.writeQuarantine path c) := by
    intro c v hv p hp hnone
    have hne : p ≠ path := by
      rintro rfl
      have hsome : (v.writeQuarantine p c).quarantine p = some c := Function.update_self _ _ _
      rw [hsome] at hnone
      cases hnone
    have hnone' : v.quarantine p = none := by
      rw [← hnone]
      exact (Function.update_of_ne hne _ _).symm
    rw [← hv p hp hnone']
    cases p <;> rfl
  simp only [copyOnce, wp_bind, wp_get]
  split
  · rename_i hsome
    exact ⟨h, hsome, fun _ hp => hp⟩
  · rename_i hsome
    have hnone : u.quarantine path = none := by simpa using hsome
    cases hfile : u.tables subdir stem with
    | none => exact h.inv
    | some c =>
      simp only [wp_step, wp_bind]
      have horiginal : path.live t = some c := by
        rw [← h.originals path hpath hnone, hlive, hfile]
      have hleft := hwrite c _ (hwrite (rt.torn c) u h.originals)
      refine ⟨h.inv, Or.inr (hwrite _ u h.originals), ⟨?_, hleft, h.retirements⟩, ?_, ?_⟩
      · intro p
        by_cases hp : p = path
        · subst hp
          right
          constructor
          · rcases h.filled p with heq | ⟨hs, -⟩
            · rw [← heq, hnone]
            · exact hs
          · rw [horiginal]
            exact Function.update_self _ _ _
        · have hsame : ((u.writeQuarantine path (rt.torn c)).writeQuarantine path c).quarantine p
              = u.quarantine p := by
            show Function.update (Function.update u.quarantine path _) path _ p = _
            rw [Function.update_of_ne hp, Function.update_of_ne hp]
          rw [hsame]
          exact h.filled p
      · simp [Store.writeQuarantine]
      · intro p hp
        show (Function.update (Function.update u.quarantine path _) path _ p).isSome = true
        by_cases hpath : p = path
        · subst hpath
          simp
        · rw [Function.update_of_ne hpath, Function.update_of_ne hpath]
          exact hp

theorem mem_quarantinePaths {contract : TableContract} (hc : contract ∈ tableContracts)
    {path : QuarantinePath} (hp : path ∈ contractPaths audit contract) :
    path ∈ quarantinePaths audit :=
  List.mem_flatMap.mpr ⟨contract, hc, hp⟩

theorem copyChildren_wp {contract : TableContract} (hc : contract ∈ tableContracts)
    (stems : List String) (hstems : stems ⊆ audit.children.map ChildAudit.stem)
    (h : Copying audit t s u) :
    wp (copyChildren rt contract.subdir stems)
      (fun _ u' => Copying audit t s u'
        ∧ (∀ stem ∈ stems, (u'.quarantine (.child stem contract.subdir)).isSome = true)
        ∧ ∀ p, (u.quarantine p).isSome = true → (u'.quarantine p).isSome = true)
      (fun _ => QuarantineInv audit t) (QuarantineInv audit t) u := by
  induction stems generalizing u with
  | nil => exact ⟨h, by simp, fun _ hp => hp⟩
  | cons stem stems ih =>
    have hpath : QuarantinePath.child stem contract.subdir ∈ quarantinePaths audit := by
      apply mem_quarantinePaths hc
      obtain ⟨child, hchild, rfl⟩ := List.mem_map.mp (hstems List.mem_cons_self)
      exact List.mem_cons_of_mem _ (List.mem_map.mpr ⟨child, hchild, rfl⟩)
    simp only [copyChildren, wp_bind]
    refine wp_imp ?_ (copyOnce_wp h hpath (fun _ => rfl))
    rintro _ u₁ ⟨h₁, hthere, hkept⟩
    refine wp_imp ?_ (ih (fun x hx => hstems (List.mem_cons_of_mem _ hx)) h₁)
    rintro _ u₂ ⟨h₂, hall, hkept₂⟩
    refine ⟨h₂, ?_, fun p hp => hkept₂ p (hkept p hp)⟩
    intro x hx
    rcases List.mem_cons.mp hx with rfl | hx
    · exact hkept₂ _ hthere
    · exact hall x hx

theorem installFile_wp {contract : TableContract} (h : Copying audit t s u)
    (hthere : ∀ p ∈ contractPaths audit contract, (u.quarantine p).isSome = true) :
    wp (installFile audit.parent contract.subdir)
      (fun _ u' => Copying audit t s u' ∧ u'.quarantine = u.quarantine)
      (fun _ => QuarantineInv audit t) (QuarantineInv audit t) u := by
  simp only [installFile, wp_bind, wp_get]
  cases u.cache audit.parent contract.subdir with
  | none => exact h.inv
  | some file =>
    refine ⟨h.inv, ⟨h.filled, ?_, h.retirements⟩, rfl⟩
    intro p hp hnone
    have hnone' : u.quarantine p = none := hnone
    rw [← h.originals p hp hnone']
    -- a path of this table and stem would have its copy
    have hother : ∀ subdir stem, p.live u = u.tables subdir stem →
        (subdir ≠ contract.subdir ∨ stem ≠ audit.parent) →
        (u.writeTable contract.subdir audit.parent (some file)).tables subdir stem
          = u.tables subdir stem := by
      rintro subdir stem - (hne | hne)
      · show Function.update u.tables _ _ subdir stem = _
        rw [Function.update_of_ne hne]
      · show Function.update u.tables _ _ subdir stem = _
        by_cases hsub : subdir = contract.subdir
        · subst hsub
          rw [Function.update_self, Function.update_of_ne hne]
        · rw [Function.update_of_ne hsub]
    have hmem : p ∉ contractPaths audit contract := by
      intro hmem
      have := hthere p hmem
      rw [hnone'] at this
      cases this
    obtain ⟨contract', -, hp'⟩ := List.mem_flatMap.mp hp
    rcases List.mem_cons.mp hp' with rfl | hp'
    · refine hother _ _ rfl (Or.inl ?_)
      intro hsub
      apply hmem
      rw [hsub]
      exact List.mem_cons_self
    · obtain ⟨child, hchild, rfl⟩ := List.mem_map.mp hp'
      refine hother _ _ rfl (Or.inl ?_)
      intro hsub
      apply hmem
      rw [hsub]
      exact List.mem_cons_of_mem _ (List.mem_map.mpr ⟨child, hchild, rfl⟩)

/-- **Quarantine and installation.** -/
theorem quarantineAndInstall_wp (contracts : List TableContract)
    (hcontracts : contracts ⊆ tableContracts) (h : Copying audit t s u) :
    wp (quarantineAndInstall rt audit.parent (audit.children.map ChildAudit.stem) contracts)
      (fun _ u' => Copying audit t s u'
        ∧ (∀ contract ∈ contracts, ∀ p ∈ contractPaths audit contract,
          (u'.quarantine p).isSome = true)
        ∧ ∀ p, (u.quarantine p).isSome = true → (u'.quarantine p).isSome = true)
      (fun _ => QuarantineInv audit t) (QuarantineInv audit t) u := by
  induction contracts generalizing u with
  | nil => exact ⟨h, by simp, fun _ hp => hp⟩
  | cons contract contracts ih =>
    have hc : contract ∈ tableContracts := hcontracts List.mem_cons_self
    simp only [quarantineAndInstall, wp_bind]
    refine wp_imp ?_ (copyOnce_wp h (mem_quarantinePaths hc List.mem_cons_self) (fun _ => rfl))
    rintro _ u₁ ⟨h₁, hparent, hkept₁⟩
    refine wp_imp ?_ (copyChildren_wp hc _ (fun _ hx => hx) h₁)
    rintro _ u₂ ⟨h₂, hchildren, hkept₂⟩
    have hthere : ∀ p ∈ contractPaths audit contract, (u₂.quarantine p).isSome = true := by
      intro p hp
      rcases List.mem_cons.mp hp with rfl | hp
      · exact hkept₂ _ hparent
      · obtain ⟨child, hchild, rfl⟩ := List.mem_map.mp hp
        exact hchildren _ (List.mem_map_of_mem hchild)
    refine wp_imp ?_ (installFile_wp h₂ hthere)
    rintro _ u₃ ⟨h₃, hsame⟩
    refine wp_imp ?_ (ih (fun x hx => hcontracts (List.mem_cons_of_mem _ hx)) h₃)
    rintro _ u₄ ⟨h₄, hall, hkept₄⟩
    refine ⟨h₄, ?_, ?_⟩
    · intro x hx p hp
      rcases List.mem_cons.mp hx with rfl | hx
      · refine hkept₄ p ?_
        rw [hsame]
        exact hthere p hp
      · exact hall x hx p hp
    · intro p hp
      refine hkept₄ p ?_
      rw [hsame]
      exact hkept₂ p (hkept₁ p hp)

/-! ## The steps around -/

/-- A program that keeps the tables, the quarantine and the retirements, wherever it is stopped. -/
def KeepsFiles {A : Type} (p : Action C J A) : Prop :=
  ∀ u : Store C J, wp p
    (fun _ u' => u'.tables = u.tables ∧ u'.quarantine = u.quarantine
      ∧ u'.retirements = u.retirements)
    (fun _ u' => u'.tables = u.tables ∧ u'.quarantine = u.quarantine
      ∧ u'.retirements = u.retirements)
    (fun u' => u'.tables = u.tables ∧ u'.quarantine = u.quarantine
      ∧ u'.retirements = u.retirements) u

theorem KeepsFiles.wp {A : Type} {p : Action C J A} (hp : KeepsFiles p) (h : Copying audit t s u) :
    wp p (fun _ u' => Copying audit t s u' ∧ u'.quarantine = u.quarantine)
      (fun _ => QuarantineInv audit t) (QuarantineInv audit t) u := by
  have hframe : ∀ u' : Store C J, u'.tables = u.tables ∧ u'.quarantine = u.quarantine
      ∧ u'.retirements = u.retirements → Copying audit t s u' :=
    fun u' hu => h.frame hu.1 hu.2.1 hu.2.2
  exact wp_mono (fun _ u' hq => ⟨hframe u' hq, hq.2.1⟩) (fun _ u' he => (hframe u' he).inv)
    (fun u' hk => (hframe u' hk).inv) (hp u)

variable [DecidableEq X]

theorem stageContracts_keepsFiles (parent : String) (children : List String)
    (polygonRows : List (Row X)) (contracts : List TableContract) :
    KeepsFiles (stageContracts rt parent children polygonRows contracts) := by
  induction contracts with
  | nil => exact fun u => ⟨rfl, rfl, rfl⟩
  | cons contract contracts ih =>
    intro u
    simp only [stageContracts, wp_bind, wp_get, wp_step]
    refine wp_ofExcept (fun file _ => ⟨⟨rfl, rfl, rfl⟩, ?_⟩) (fun _ _ => ⟨rfl, rfl, rfl⟩)
    exact ih (u.writeCache parent contract.subdir file)

theorem stageRule_keepsFiles (audit : RuleAudit) :
    KeepsFiles (stageRule rt audit : Action C J Unit) := by
  intro u
  simp only [stageRule]
  split
  · simp only [wp_bind, wp_get]
    refine wp_ofExcept (fun parent _ => ?_) (fun _ _ => ⟨rfl, rfl, rfl⟩)
    refine wp_ofExcept (fun polygonRows _ => ?_) (fun _ _ => ⟨rfl, rfl, rfl⟩)
    exact stageContracts_keepsFiles _ _ _ _ u
  · exact ⟨rfl, rfl, rfl⟩

omit [DecidableEq X] in
theorem updateProcessedManifest_keepsFiles (parent : String) (children : List String) :
    KeepsFiles (updateProcessedManifest rt parent children : Action C J Unit) := by
  intro u
  simp only [updateProcessedManifest, wp_bind, wp_get]
  split
  · exact ⟨rfl, rfl, rfl⟩
  · rw [wp_bind]
    exact wp_ofExcept (fun _ _ => ⟨⟨rfl, rfl, rfl⟩, rfl, rfl, rfl⟩) (fun _ _ => ⟨rfl, rfl, rfl⟩)

omit [DecidableEq X] in
theorem updateAugmentationManifest_keepsFiles (parent : String) (children : List String) :
    KeepsFiles (updateAugmentationManifest rt parent children : Action C J Unit) := by
  intro u
  simp only [updateAugmentationManifest, wp_bind, wp_get]
  split
  · exact ⟨rfl, rfl, rfl⟩
  · rw [wp_bind]
    exact wp_ofExcept (fun _ _ => ⟨⟨rfl, rfl, rfl⟩, rfl, rfl, rfl⟩) (fun _ _ => ⟨rfl, rfl, rfl⟩)

/-! ## Retired children -/

theorem persistPreparedRule_wp (h : QuarantineInv audit t u) :
    wp (persistPreparedRule audit.parent (audit.children.map ChildAudit.stem))
      (fun _ u' => AllRetired audit u' ∧ u'.quarantine = u.quarantine)
      (fun _ => QuarantineInv audit t) (QuarantineInv audit t) u := by
  simp only [persistPreparedRule, wp_bind, wp_get, wp_step]
  refine wp_ofExcept (fun retired _ => ⟨h, ⟨_, rfl, ?_⟩, rfl⟩) (fun _ _ => h)
  intro x hx
  exact (mem_foldl_recordRetired _ _ _ _).mpr (Or.inl hx)

theorem removeTables_wp (child : String) (contracts : List TableContract) (u : Store C J) :
    wp (removeTables child contracts)
      (fun _ u' => u'.quarantine = u.quarantine ∧ u'.retirements = u.retirements)
      (fun _ _ => False)
      (fun u' => u'.quarantine = u.quarantine ∧ u'.retirements = u.retirements) u := by
  induction contracts generalizing u with
  | nil => exact ⟨rfl, rfl⟩
  | cons contract contracts ih =>
    rw [removeTables, wp_bind]
    exact ⟨⟨rfl, rfl⟩, ih (u.writeTable contract.subdir child none)⟩

theorem removeActiveChildren_wp (children : List String) (h : AllRetired audit u) :
    wp (removeActiveChildren children)
      (fun _ u' => AllRetired audit u' ∧ u'.quarantine = u.quarantine)
      (fun _ _ => False) (AllRetired audit) u := by
  have hsame : ∀ u₁ u₂ : Store C J, u₂.retirements = u₁.retirements → AllRetired audit u₁ →
      AllRetired audit u₂ := by
    intro u₁ u₂ heq hu₁
    unfold AllRetired loadRetiredChildren at hu₁ ⊢
    rw [heq]
    exact hu₁
  induction children generalizing u with
  | nil => exact ⟨h, rfl⟩
  | cons child children ih =>
    simp only [removeActiveChildren, wp_bind]
    refine wp_mono ?_ (fun _ _ he => he) (fun u' hk => hsame u u' hk.2 h)
      (removeTables_wp child tableContracts u)
    rintro _ u₁ ⟨hquarantine, hretired⟩
    refine wp_imp ?_ (ih (hsame u u₁ hretired h))
    rintro _ u₂ ⟨h₂, hq₂⟩
    exact ⟨h₂, hq₂.trans hquarantine⟩

/-! ## Whole runs -/

variable (rt) in
/-- **One run.** When all children are retired it keeps the quarantine. Otherwise every copy is
there at its end: the one that was there before, or one of the original. -/
theorem prepareLocalRule_quarantine_wp (h : QuarantineInv audit t s) :
    wp (prepareLocalRule rt audit)
      (fun _ u => QuarantineInv audit t u
        ∧ ((AllRetired audit s ∧ u.quarantine = s.quarantine)
          ∨ (¬ AllRetired audit s ∧ ∀ path ∈ quarantinePaths audit, (u.quarantine path).isSome = true
            ∧ (u.quarantine path = s.quarantine path
              ∨ (s.quarantine path = none ∧ u.quarantine path = path.live t)))))
      (fun _ => QuarantineInv audit t) (QuarantineInv audit t) s := by
  simp only [prepareLocalRule, wp_bind, wp_get]
  refine wp_ofExcept (fun retired hload => ?_) (fun _ _ => h)
  split
  · rename_i hsub
    have hall : AllRetired audit s := ⟨retired, hload, hsub⟩
    simp only [wp_bind, wp_pure]
    refine wp_mono ?_ (fun _ _ he => he.elim) (fun _ hk => Or.inl hk)
      (removeActiveChildren_wp _ hall)
    exact fun _ u hu => ⟨Or.inl hu.1, Or.inl ⟨hall, hu.2⟩⟩
  · rename_i hsub
    have hnot : ¬ AllRetired audit s := by
      rintro ⟨retired', hload', hsub'⟩
      rw [hload] at hload'
      cases hload'
      exact hsub hsub'
    have hstart : Copying audit t s s := ⟨fun _ => Or.inl rfl, h.resolve_left hnot, rfl⟩
    simp only [wp_bind, wp_pure]
    refine wp_imp ?_ ((stageRule_keepsFiles audit).wp hstart)
    rintro _ u₁ ⟨h₁, -⟩
    refine wp_imp ?_ (quarantineAndInstall_wp tableContracts (fun _ hx => hx) h₁)
    rintro _ u₂ ⟨h₂, hthere, -⟩
    refine wp_imp ?_ ((updateProcessedManifest_keepsFiles _ _).wp h₂)
    rintro _ u₃ ⟨h₃, hq₃⟩
    refine wp_imp ?_ ((updateAugmentationManifest_keepsFiles _ _).wp h₃)
    rintro _ u₄ ⟨h₄, hq₄⟩
    refine wp_imp ?_ (persistPreparedRule_wp h₄.inv)
    rintro _ u₅ ⟨h₅, hq₅⟩
    refine wp_mono ?_ (fun _ _ he => he.elim) (fun _ hk => Or.inl hk) (removeActiveChildren_wp _ h₅)
    rintro _ u₆ ⟨h₆, hq₆⟩
    have hq : u₆.quarantine = u₂.quarantine := by rw [hq₆, hq₅, hq₄, hq₃]
    refine ⟨Or.inl h₆, Or.inr ⟨hnot, ?_⟩⟩
    intro path hpath
    obtain ⟨contract, hc, hp⟩ := List.mem_flatMap.mp hpath
    rw [hq]
    exact ⟨hthere contract hc path hp, h₂.filled path⟩

variable (rt) in
/-- What runs of a rule leave, each stopped in front of any of its steps, raising or returning. -/
inductive StoppedRuns (audit : RuleAudit) (t : Store C J) : Store C J → Prop where
  | start : StoppedRuns audit t t
  | run {s : Store C J} (n : Nat) (h : StoppedRuns audit t s) :
      StoppedRuns audit t (Prog.exec (prepareLocalRule rt audit) n s).state

theorem StoppedRuns.inv (h : StoppedRuns rt audit t s) : QuarantineInv audit t s := by
  induction h with
  | start => exact Or.inr (fun _ _ _ => rfl)
  | @run s n _ ih =>
    have hmeets := wp_exec (prepareLocalRule_quarantine_wp rt ih) n
    revert hmeets
    cases Prog.exec (prepareLocalRule rt audit) n s with
    | done _ u => exact fun hm => hm.1
    | raised _ u => exact id
    | killed u => exact id

/-- **When the quarantine keeps the originals.** After any runs of a rule, each stopped anywhere,
a run that completes leaves the files as they were before the first run exactly when each copy
was already right, or was not there and the children were not recorded as retired. -/
theorem quarantineHolds_iff {prepared : PreparedRule} {s' : Store C J}
    (h : StoppedRuns rt audit t s)
    (hrun : Prog.run (prepareLocalRule rt audit) s = (.ok prepared, s')) :
    QuarantineHolds audit t s' ↔ ∀ path ∈ quarantinePaths audit, ∀ c, path.live t = some c →
        s.quarantine path = some c ∨ (s.quarantine path = none ∧ ¬ AllRetired audit s) := by
  have hwp := wp_run (prepareLocalRule_quarantine_wp rt h.inv)
  rw [hrun] at hwp
  refine forall₂_congr (fun path hpath => forall₂_congr (fun c hc => ?_))
  rcases hwp.2 with ⟨hall, hsame⟩ | ⟨hnot, hcopies⟩
  · rw [hsame]
    refine ⟨Or.inl, ?_⟩
    rintro (heq | ⟨-, hno⟩)
    · exact heq
    · exact absurd hall hno
  · obtain ⟨hthere, hfilled⟩ := hcopies path hpath
    constructor
    · intro heq
      rcases hfilled with hsame | ⟨hnone, -⟩
      · left
        rw [← hsame, heq]
      · exact Or.inr ⟨hnone, hnot⟩
    · rintro (heq | ⟨hnone, -⟩)
      · rcases hfilled with hsame | ⟨hnone, -⟩
        · rw [hsame, heq]
        · rw [hnone] at heq
          cases heq
      · rcases hfilled with hsame | ⟨-, hcopy⟩
        · rw [hsame, hnone] at hthere
          cases hthere
        · rw [hcopy, hc]

end

namespace Example

/-- Columns that make up every identity. -/
def columns : List String :=
  ["osm_type", "osm_id", "article_id", "document_id", "section_id", "fact_id"]

def row (id : Int) : Row Empty := fun c => if c ∈ columns then some (.int id) else none

def table (ids : List Int) : Table Empty where
  schema := ⟨columns, ""⟩
  rows := ids.map row
  columns_iff := by
    intro r hr c
    obtain ⟨id, -, rfl⟩ := List.mem_map.mp hr
    simp [row]

/-- A file is a table, or nothing that can be read, as a cut copy is. -/
def runtime : Runtime Empty (Option (Table Empty)) Nat where
  decode := fun file => match file with
    | some table => .ok table
    | none => .error "ArrowInvalid"
  encode := fun table => .ok (some table)
  sha256File := fun _ => "sha256"
  repr := fun x => x.elim
  manifestStats := fun polygons documents => .ok (fun key =>
    if key = "polygon_count" then some polygons.rows.length
    else if key = "article_count" then some documents.rows.length
    else none)
  dataRoot := "data"
  torn := fun _ => none

/-- A parent with one row in each table, and a child with another. -/
def regions : Store (Option (Table Empty)) Nat where
  tables := fun _ stem =>
    if stem = "brandenburg-latest" then some (some (table [1]))
    else if stem = "berlin-latest" then some (some (table [2]))
    else none
  cache := fun _ _ => none
  quarantine := fun _ => none
  processedPbfs := .absent
  augmentation := .absent
  retirements := .absent

def rule : ContainmentRule := ⟨"brandenburg-latest", ["berlin-latest"]⟩

/-- The audit of the rule: one row of the child is missing from each table of the parent. -/
def berlin : RuleAudit :=
  ⟨"brandenburg-latest",
    [⟨"berlin-latest", tableContracts.map (fun contract => ⟨contract.subdir, 1, 1, 0, 0⟩)⟩], []⟩

example : auditRule runtime regions.tables rule = .ok berlin := by rfl

/-- The rule after a kill in front of step `n`. -/
def ruleKilledAt (n : Nat) : Store (Option (Table Empty)) Nat :=
  (Prog.exec (prepareLocalRule runtime berlin) n regions).state

/-- The rule, run again from there. -/
def ruleRunAgain (n : Nat) :
    Except ContainmentError PreparedRule × Store (Option (Table Empty)) Nat :=
  Prog.run (prepareLocalRule runtime berlin) (ruleKilledAt n)

/-- Killed after the first copy, the rule is completed with every original in the quarantine. -/
theorem ruleKilledAt_nine_holds : QuarantineHolds berlin regions (ruleRunAgain 9).2 := by
  have hrun : ruleRunAgain 9
      = (.ok ⟨"brandenburg-latest", ["berlin-latest"]⟩, (ruleRunAgain 9).2) := rfl
  refine (quarantineHolds_iff (.run 9 .start) hrun).mpr ?_
  intro path _ c hc
  by_cases hp : path = .parent "brandenburg-latest" .polygons
  · left
    rw [hp] at hc ⊢
    exact hc
  · right
    constructor
    · have hcopy : (ruleKilledAt 9).quarantine path
          = ((regions.writeQuarantine (.parent "brandenburg-latest" .polygons) none).writeQuarantine
            (.parent "brandenburg-latest" .polygons) (some (table [1]))).quarantine path := rfl
      exact hcopy.trans ((Function.update_of_ne hp _ _).trans (Function.update_of_ne hp _ _))
    · rintro ⟨retired, hload, hsub⟩
      cases hload
      exact absurd (hsub List.mem_cons_self) List.not_mem_nil

/-- Killed inside the first copy, the rule is completed and the quarantine keeps the cut copy. -/
theorem ruleKilledAt_eight_lost : StoppedRuns runtime berlin regions (ruleKilledAt 8)
    ∧ ruleRunAgain 8 = (.ok ⟨"brandenburg-latest", ["berlin-latest"]⟩, (ruleRunAgain 8).2)
    ∧ ¬ QuarantineHolds berlin regions (ruleRunAgain 8).2 := by
  refine ⟨.run 8 .start, rfl, ?_⟩
  intro hholds
  have hpath : QuarantinePath.parent "brandenburg-latest" .polygons ∈ quarantinePaths berlin := by
    decide
  have horiginal := hholds _ hpath (some (table [1])) rfl
  have hcut : (ruleRunAgain 8).2.quarantine (.parent "brandenburg-latest" .polygons)
      = some none := rfl
  rw [hcut] at horiginal
  cases horiginal

end Example

end OsmPolygonWikidata.Containment
