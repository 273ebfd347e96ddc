import OsmPolygonWikidata.Containment.Retirement
import OsmPolygonWikidata.Containment.Restaging

/-! # Preparing one rule, once or again

What an uninterrupted preparation of a rule will leave is known when it starts: a *plan*. A stopped
preparation leaves the active files on the way there. Before the retirement manifest is written the
way is `Progress`, and a new preparation follows the same plan to its end, if it can compare the
snapshots. Afterwards the way is `Recorded`: only tables of children may be left.
-/

namespace OsmPolygonWikidata.Containment

open Durable Python
open Prog (wp wp_bind wp_get wp_imp wp_mono wp_pure wp_returned wp_step)

variable {X C J : Type}

/-! ## Active files -/

/-- The active tables and the three manifests. -/
structure Active (C J : Type) where
  tables : Tables C
  processedPbfs : Manifest J
  augmentation : Manifest (Field J)
  retirements : Retirements

def Store.active (s : Store C J) : Active C J :=
  ⟨s.tables, s.processedPbfs, s.augmentation, s.retirements⟩

/-- The children recorded as retired. -/
def Active.retired (a : Active C J) : List String :=
  match loadRetirementPayload a.retirements with
  | .ok children => children.map Prod.fst
  | .error _ => []

theorem loadRetiredChildren_eq {s : Store C J} {retired : List String}
    (h : loadRetiredChildren s = .ok retired) : s.active.retired = retired := by
  unfold loadRetiredChildren at h
  obtain ⟨children, hload, h⟩ := bind_eq_ok.mp h
  cases h
  unfold Active.retired
  show (match loadRetirementPayload s.retirements with | .ok c => _ | .error _ => _) = _
  rw [hload]

theorem Subdir.mem_contracts (subdir : Subdir) :
    ∃ contract ∈ tableContracts, contract.subdir = subdir := by
  cases subdir <;> decide

/-! ## Rewriting a manifest twice -/

theorem Entry.update_update (updates : Fields J) (entry : Entry J) :
    (entry.update updates).update updates = entry.update updates := by
  cases entry with
  | other => rfl
  | object fields =>
    simp only [Entry.update, Entry.object.injEq]
    funext key
    cases updates key <;> rfl

theorem updateEntries_idem (removed : List String) (parent : String) (updates : Fields J)
    (entries : String → Option (Entry J)) :
    updateEntries removed parent updates (updateEntries removed parent updates entries)
      = updateEntries removed parent updates entries := by
  funext key
  unfold updateEntries
  split
  · rfl
  · split
    · rename_i hkey
      cases entries key with
      | none => rfl
      | some entry => simp only [Option.map_some, Entry.update_update]
    · rfl

theorem hasParentObject_updateEntries (removed : List String) (parent : String)
    (updates : Fields J) (entries : String → Option (Entry J)) :
    hasParentObject removed parent (updateEntries removed parent updates entries)
      = hasParentObject removed parent entries := by
  unfold hasParentObject updateEntries
  by_cases hmem : parent ∈ removed
  · simp [hmem]
  · rw [if_neg hmem, if_pos rfl]
    cases entries parent with
    | none => rfl
    | some entry => cases entry <;> rfl

/-- **A manifest that has been rewritten** is rewritten to itself. -/
theorem rewriteManifest_idem {removed : List String} {parent : String}
    {updates : Except ContainmentError (Fields J)} {manifest manifest' : Manifest J}
    (h : rewriteManifest removed parent updates manifest = .ok manifest') :
    rewriteManifest removed parent updates manifest' = .ok manifest' := by
  cases manifest with
  | absent =>
    cases h
    rfl
  | malformed => cases h
  | entries entries =>
    obtain ⟨entries', hentries, h⟩ := bind_eq_ok.mp h
    cases h
    have hagain : rewriteEntries removed parent updates entries' = .ok entries' := by
      unfold rewriteEntries at hentries ⊢
      split at hentries
      · rename_i hobject
        obtain ⟨fields, hfields, hentries⟩ := bind_eq_ok.mp hentries
        cases hentries
        rw [hasParentObject_updateEntries, if_pos hobject, hfields]
        show Except.ok (updateEntries removed parent fields _) = _
        rw [updateEntries_idem]
      · rename_i hobject
        cases hentries
        rw [hasParentObject_updateEntries, if_neg hobject, updateEntries_idem]
    show (rewriteEntries removed parent updates entries').bind _ = _
    rw [hagain]
    rfl

/-! ## Plans -/

/-- What the preparation of a rule computes. -/
structure Plan (X C J : Type) where
  parent : String
  children : List String
  polygonRows : List (Row X)
  files : Subdir → C
  processed : Manifest J
  augmentation : Manifest (Field J)
  retired : List (String × String × String)

/-- The active files at the end. -/
def Plan.finish (plan : Plan X C J) (a : Active C J) : Active C J where
  tables := fun subdir stem =>
    if stem = plan.parent then some (plan.files subdir)
    else if stem ∈ plan.children then none
    else a.tables subdir stem
  processedPbfs := plan.processed
  augmentation := plan.augmentation
  retirements := .retired plan.retired

theorem Plan.finish_parent (plan : Plan X C J) (a : Active C J) (subdir : Subdir) :
    (plan.finish a).tables subdir plan.parent = some (plan.files subdir) := if_pos rfl

theorem Plan.finish_child {plan : Plan X C J} (hparent : plan.parent ∉ plan.children)
    (a : Active C J) (subdir : Subdir) {child : String} (hchild : child ∈ plan.children) :
    (plan.finish a).tables subdir child = none := by
  have hne : child ≠ plan.parent := by
    rintro rfl
    exact hparent hchild
  exact (if_neg hne).trans (if_pos hchild)

theorem Plan.finish_other {plan : Plan X C J} (a : Active C J) (subdir : Subdir) {stem : String}
    (hparent : stem ≠ plan.parent) (hchild : stem ∉ plan.children) :
    (plan.finish a).tables subdir stem = a.tables subdir stem :=
  (if_neg hparent).trans (if_neg hchild)

/-- Before the retirements are recorded. -/
structure Progress (plan : Plan X C J) (a b : Active C J) : Prop where
  tables : ∀ subdir stem, b.tables subdir stem = a.tables subdir stem
    ∨ (stem = plan.parent ∧ b.tables subdir stem = some (plan.files subdir))
  processed : b.processedPbfs = a.processedPbfs ∨ b.processedPbfs = plan.processed
  augmentation : b.augmentation = a.augmentation ∨ b.augmentation = plan.augmentation
  retirements : b.retirements = a.retirements

/-- Afterwards: tables of the children may be left. -/
structure Recorded (plan : Plan X C J) (a b : Active C J) : Prop where
  tables : ∀ subdir stem, b.tables subdir stem = (plan.finish a).tables subdir stem
    ∨ (stem ∈ plan.children ∧ b.tables subdir stem = a.tables subdir stem)
  processed : b.processedPbfs = plan.processed
  augmentation : b.augmentation = plan.augmentation
  retirements : b.retirements = .retired plan.retired

section

variable [DecidableEq X] {rt : Runtime X C J} {plan : Plan X C J} {a b : Active C J}
  {s : Store C J} {audit : RuleAudit}

/-- The plan for the active files `a`. -/
structure Plan.For (rt : Runtime X C J) (plan : Plan X C J) (a : Active C J) : Prop where
  fresh : ∀ child ∈ plan.children, child ∉ a.retired
  nonempty : plan.children ≠ []
  parent_notMem : plan.parent ∉ plan.children
  audited : Audited rt a.tables plan.parent plan.children
  staged : Staged rt a.tables plan.parent plan.children plan.polygonRows plan.files
  processed : nextProcessed rt plan.parent plan.children (fun subdir => some (plan.files subdir))
    a.processedPbfs = .ok plan.processed
  augmentation : nextAugmentation rt plan.parent plan.children
    (fun subdir => some (plan.files subdir)) a.augmentation = .ok plan.augmentation
  retired : ∃ old, loadRetirementPayload a.retirements = .ok old
    ∧ plan.retired = plan.children.foldl (recordRetired plan.parent) old

theorem Staged.unique {tables : Tables C} {parent : String} {children : List String}
    {rows rows' : List (Row X)} {files files' : Subdir → C}
    (h : Staged rt tables parent children rows files)
    (h' : Staged rt tables parent children rows' files') : rows = rows' ∧ files = files' := by
  have hrows : rows = rows' := Except.ok.inj (h.polygons.symm.trans h'.polygons)
  subst hrows
  refine ⟨rfl, funext (fun subdir => ?_)⟩
  obtain ⟨contract, hcontract, rfl⟩ := subdir.mem_contracts
  exact Except.ok.inj ((h.files contract hcontract).symm.trans (h'.files contract hcontract))

omit [DecidableEq X] in
theorem Progress.refl (plan : Plan X C J) (a : Active C J) : Progress plan a a :=
  ⟨fun _ _ => Or.inl rfl, Or.inl rfl, Or.inl rfl, rfl⟩

theorem Progress.mixed (hplan : plan.For rt a) (h : Progress plan a b) :
    Mixed a.tables b.tables plan.parent plan.children plan.files where
  parent := fun subdir => (h.tables subdir plan.parent).imp id (fun hp => hp.2)
  children := by
    intro subdir child hchild
    refine (h.tables subdir child).resolve_right ?_
    rintro ⟨rfl, -⟩
    exact hplan.parent_notMem hchild

omit [DecidableEq X] in
theorem Progress.retired_eq (h : Progress plan a b) : b.retired = a.retired := by
  unfold Active.retired
  rw [h.retirements]

omit [DecidableEq X] in
theorem Audited.exists_file {tables : Tables C} {parent : String} {children : List String}
    (h : Audited rt tables parent children) (subdir : Subdir) {stem : String}
    (hstem : stem ∈ parent :: children) : (tables subdir stem).isSome = true := by
  obtain ⟨contract, hcontract, rfl⟩ := subdir.mem_contracts
  obtain ⟨table, ids, hA⟩ := h contract hcontract
  have hsome : ∀ file : Option C, ∀ t, readTable rt file = .ok t → file.isSome = true := by
    intro file t ht
    cases file with
    | none => cases ht
    | some c => rfl
  rcases List.mem_cons.mp hstem with rfl | hstem
  · exact hsome _ _ hA.read
  · obtain ⟨childTable, -, hread, -⟩ := hA.children stem hstem
    exact hsome _ _ hread

/-! ## The steps of a preparation -/

theorem stageContracts_wp (parent : String) (children : List String) (polygonRows : List (Row X))
    (contracts : List TableContract) (hnodup : (contracts.map TableContract.subdir).Nodup)
    (s : Store C J) :
    wp (stageContracts rt parent children polygonRows contracts)
      (fun _ s' => s'.active = s.active
        ∧ (∀ contract ∈ contracts, ∃ file,
          stageContractArtifact rt s.tables parent children contract polygonRows = .ok file
          ∧ s'.cache parent contract.subdir = some file)
        ∧ ∀ subdir, subdir ∉ contracts.map TableContract.subdir →
          s'.cache parent subdir = s.cache parent subdir)
      (fun _ s' => s'.active = s.active ∧ ∃ contract ∈ contracts, ∃ e,
        stageContractArtifact rt s.tables parent children contract polygonRows = .error e)
      (fun s' => s'.active = s.active) s := by
  induction contracts generalizing s with
  | nil => exact ⟨rfl, by simp, fun _ _ => rfl⟩
  | cons contract contracts ih =>
    rw [List.map_cons, List.nodup_cons] at hnodup
    simp only [stageContracts, wp_bind, wp_get, wp_step]
    refine wp_ofExcept (fun file hfile => ⟨rfl, ?_⟩)
      (fun e he => ⟨rfl, contract, List.mem_cons_self, e, he⟩)
    set s₁ := s.writeCache parent contract.subdir file with hs₁
    have hwritten : s₁.cache parent contract.subdir = some file := by
      simp [hs₁, Store.writeCache]
    have hother : ∀ subdir, subdir ≠ contract.subdir →
        s₁.cache parent subdir = s.cache parent subdir := by
      intro subdir hne
      simp [hs₁, Store.writeCache, Function.update_of_ne hne]
    refine wp_mono ?_ ?_ (fun _ hk => hk) (ih hnodup.2 s₁)
    · rintro _ s₂ ⟨hactive, hall, hkept⟩
      refine ⟨hactive, ?_, ?_⟩
      · intro c hc
        rcases List.mem_cons.mp hc with rfl | hc
        · exact ⟨file, hfile, (hkept _ hnodup.1).trans hwritten⟩
        · exact hall c hc
      · intro subdir hsubdir
        rw [List.map_cons, List.mem_cons, not_or] at hsubdir
        rw [hkept subdir hsubdir.2, hother subdir hsubdir.1]
    · rintro _ s₂ ⟨hactive, c, hc, herror⟩
      exact ⟨hactive, c, List.mem_cons_of_mem _ hc, herror⟩

/-- **Staging** leaves the staged files in the cache, or there are none. -/
theorem stageRule_wp (hsafe : audit.safeToStage = true)
    (hvalid : validateStem audit.parent = .ok audit.parent) (s : Store C J) :
    wp (stageRule rt audit)
      (fun _ s' => s'.active = s.active ∧ ∃ polygonRows files,
        Staged rt s.tables audit.parent (audit.children.map ChildAudit.stem) polygonRows files
        ∧ s'.cache audit.parent = fun subdir => some (files subdir))
      (fun _ s' => s'.active = s.active ∧ ∀ polygonRows files,
        ¬ Staged rt s.tables audit.parent (audit.children.map ChildAudit.stem) polygonRows files)
      (fun s' => s'.active = s.active) s := by
  unfold stageRule
  rw [if_pos hsafe, hvalid]
  simp only [wp_bind, wp_get]
  refine wp_ofExcept (fun parent hparent => ?_) (fun e he => by cases he)
  cases hparent
  refine wp_ofExcept (fun polygonRows hrows => ?_) (fun e he => ⟨rfl, fun rows files hstaged => ?_⟩)
  · refine wp_mono ?_ ?_ (fun _ hk => hk)
      (stageContracts_wp audit.parent _ polygonRows tableContracts (by decide) s)
    · rintro _ s' ⟨hactive, hall, -⟩
      -- the staged files are those of the cache
      have hthere : ∀ subdir, ∃ file, s'.cache audit.parent subdir = some file := by
        intro subdir
        obtain ⟨contract, hcontract, rfl⟩ := subdir.mem_contracts
        obtain ⟨file, -, hfile⟩ := hall contract hcontract
        exact ⟨file, hfile⟩
      choose files hfiles using hthere
      refine ⟨hactive, polygonRows, files, ⟨hrows, ?_⟩, funext hfiles⟩
      intro contract hcontract
      obtain ⟨file, hstage, hfile⟩ := hall contract hcontract
      rw [hfiles] at hfile
      cases hfile
      exact hstage
    · rintro e s' ⟨hactive, contract, hcontract, e', herror⟩
      refine ⟨hactive, fun rows files hstaged => ?_⟩
      have hsame := hstaged.polygons
      rw [hrows] at hsame
      cases hsame
      rw [hstaged.files contract hcontract] at herror
      cases herror
  · rw [hstaged.polygons] at he
    cases he

end

section

variable {rt : Runtime X C J}

/-- Within quarantine and installation: the parent's tables become the cached files. -/
structure Installing (parent : String) (files : Subdir → C) (s s' : Store C J) : Prop where
  tables : ∀ subdir stem, s'.tables subdir stem = s.tables subdir stem
    ∨ (stem = parent ∧ s'.tables subdir stem = some (files subdir))
  cache : s'.cache = s.cache
  processed : s'.processedPbfs = s.processedPbfs
  augmentation : s'.augmentation = s.augmentation
  retirements : s'.retirements = s.retirements

theorem Installing.refl (parent : String) (files : Subdir → C) (s : Store C J) :
    Installing parent files s s :=
  ⟨fun _ _ => Or.inl rfl, rfl, rfl, rfl, rfl⟩

theorem Installing.trans {parent : String} {files : Subdir → C} {s s₁ s₂ : Store C J}
    (h : Installing parent files s s₁) (h' : Installing parent files s₁ s₂) :
    Installing parent files s s₂ where
  tables := by
    intro subdir stem
    rcases h'.tables subdir stem with heq | hfile
    · rw [heq]
      exact h.tables subdir stem
    · exact Or.inr hfile
  cache := h'.cache.trans h.cache
  processed := h'.processed.trans h.processed
  augmentation := h'.augmentation.trans h.augmentation
  retirements := h'.retirements.trans h.retirements

theorem copyOnce_installing (parent : String) (files : Subdir → C) {subdir : Subdir} {stem : String}
    (target : QuarantinePath) (s : Store C J) (hfile : (s.tables subdir stem).isSome = true) :
    wp (copyOnce rt subdir stem target)
      (fun _ => Installing parent files s) (fun _ _ => False) (Installing parent files s) s := by
  have hwrite : ∀ c (s₁ : Store C J), Installing parent files s s₁ →
      Installing parent files s (s₁.writeQuarantine target c) :=
    fun c s₁ h => ⟨h.tables, h.cache, h.processed, h.augmentation, h.retirements⟩
  have hrefl := Installing.refl parent files s
  simp only [copyOnce, wp_bind, wp_get]
  split
  · exact hrefl
  · cases hc : s.tables subdir stem with
    | none => rw [hc] at hfile; cases hfile
    | some c => exact ⟨hrefl, hwrite _ _ hrefl, hwrite _ _ (hwrite _ _ hrefl)⟩

theorem copyChildren_installing (parent : String) (files : Subdir → C) (subdir : Subdir)
    (stems : List String) (s : Store C J)
    (hfiles : ∀ stem ∈ stems, (s.tables subdir stem).isSome = true) :
    wp (copyChildren rt subdir stems)
      (fun _ => Installing parent files s) (fun _ _ => False) (Installing parent files s) s := by
  induction stems generalizing s with
  | nil => exact Installing.refl parent files s
  | cons stem stems ih =>
    simp only [copyChildren, wp_bind]
    refine wp_imp ?_ (copyOnce_installing parent files _ s (hfiles stem List.mem_cons_self))
    intro _ s₁ h₁
    have hfiles₁ : ∀ x ∈ stems, (s₁.tables subdir x).isSome = true := by
      intro x hx
      rcases h₁.tables subdir x with heq | ⟨-, heq⟩
      · rw [heq]
        exact hfiles x (List.mem_cons_of_mem _ hx)
      · rw [heq]
        rfl
    exact wp_mono (fun _ _ h₂ => h₁.trans h₂) (fun _ _ he => he) (fun _ h₂ => h₁.trans h₂)
      (ih s₁ hfiles₁)

/-- **Quarantine and installation** of the cached files. -/
theorem quarantineAndInstall_installing (parent : String) (children : List String)
    (files : Subdir → C) (contracts : List TableContract) (s : Store C J)
    (hcache : s.cache parent = fun subdir => some (files subdir))
    (hfiles : ∀ subdir, ∀ stem ∈ parent :: children, (s.tables subdir stem).isSome = true) :
    wp (quarantineAndInstall rt parent children contracts)
      (fun _ s' => Installing parent files s s' ∧ ∀ contract ∈ contracts,
        s'.tables contract.subdir parent = some (files contract.subdir))
      (fun _ _ => False) (Installing parent files s) s := by
  induction contracts generalizing s with
  | nil => exact ⟨Installing.refl parent files s, by simp⟩
  | cons contract contracts ih =>
    -- the files stay there
    have hstay : ∀ s₁, Installing parent files s s₁ → ∀ subdir, ∀ stem ∈ parent :: children,
        (s₁.tables subdir stem).isSome = true := by
      intro s₁ h₁ subdir stem hstem
      rcases h₁.tables subdir stem with heq | ⟨-, heq⟩
      · rw [heq]
        exact hfiles subdir stem hstem
      · rw [heq]
        rfl
    simp only [quarantineAndInstall, wp_bind]
    refine wp_imp ?_ (copyOnce_installing parent files _ s (hfiles _ parent List.mem_cons_self))
    intro _ s₁ h₁
    refine wp_mono ?_ (fun _ _ he => he) (fun _ h₂ => h₁.trans h₂)
      (copyChildren_installing parent files contract.subdir children s₁
        (fun stem hstem => hstay s₁ h₁ _ stem (List.mem_cons_of_mem _ hstem)))
    intro _ s₂ h₂
    have h₂' := h₁.trans h₂
    have hcache₂ : s₂.cache parent = fun subdir => some (files subdir) := by
      rw [h₂'.cache]
      exact hcache
    simp only [installFile, wp_bind, wp_get, hcache₂, wp_step]
    refine ⟨h₂', ?_⟩
    set s₃ := s₂.writeTable contract.subdir parent (some (files contract.subdir)) with hs₃
    have htables : ∀ subdir stem, s₃.tables subdir stem = s₂.tables subdir stem
        ∨ (stem = parent ∧ s₃.tables subdir stem = some (files subdir)) := by
      intro subdir stem
      by_cases hsub : subdir = contract.subdir
      · subst hsub
        by_cases hstem : stem = parent
        · subst hstem
          exact Or.inr ⟨rfl, by simp [hs₃, Store.writeTable]⟩
        · exact Or.inl (by simp [hs₃, Store.writeTable, Function.update_of_ne hstem])
      · exact Or.inl (by simp [hs₃, Store.writeTable, Function.update_of_ne hsub])
    have h₃ : Installing parent files s s₃ := h₂'.trans ⟨htables, rfl, rfl, rfl, rfl⟩
    have hcache₃ : s₃.cache parent = fun subdir => some (files subdir) := hcache₂
    refine wp_mono ?_ (fun _ _ he => he) (fun _ h₄ => h₃.trans h₄) (ih s₃ hcache₃ (hstay s₃ h₃))
    rintro _ s₄ ⟨h₄, hall⟩
    refine ⟨h₃.trans h₄, ?_⟩
    intro x hx
    rcases List.mem_cons.mp hx with rfl | hx
    · have hnow : s₃.tables x.subdir parent = some (files x.subdir) := by
        simp [hs₃, Store.writeTable]
      rcases h₄.tables x.subdir parent with heq | ⟨-, heq⟩
      · rw [heq, hnow]
      · exact heq
    · exact hall x hx

theorem Manifest.eq_absent {m : Manifest J} (h : m.isAbsent = true) : m = .absent := by
  cases m with
  | absent => rfl
  | malformed => cases h
  | entries entries => cases h

theorem updateProcessedManifest_wp (parent : String) (children : List String) (s : Store C J) :
    wp (updateProcessedManifest rt parent children)
      (fun _ s' => ∃ manifest,
        nextProcessed rt parent children (s.cache parent) s.processedPbfs = .ok manifest
        ∧ s'.active = { s.active with processedPbfs := manifest } ∧ s'.cache = s.cache)
      (fun e s' => s' = s
        ∧ nextProcessed rt parent children (s.cache parent) s.processedPbfs = .error e)
      (fun s' => s' = s) s := by
  simp only [updateProcessedManifest, wp_bind, wp_get]
  split
  · rename_i habsent
    have heq := Manifest.eq_absent habsent
    refine ⟨.absent, by rw [heq]; rfl, ?_, rfl⟩
    show s.active = ⟨s.tables, .absent, s.augmentation, s.retirements⟩
    rw [← heq]
    rfl
  · rw [wp_bind]
    exact wp_ofExcept (fun manifest hm => ⟨rfl, manifest, hm, rfl, rfl⟩) (fun e he => ⟨rfl, he⟩)

theorem updateAugmentationManifest_wp (parent : String) (children : List String) (s : Store C J) :
    wp (updateAugmentationManifest rt parent children)
      (fun _ s' => ∃ manifest,
        nextAugmentation rt parent children (s.cache parent) s.augmentation = .ok manifest
        ∧ s'.active = { s.active with augmentation := manifest } ∧ s'.cache = s.cache)
      (fun e s' => s' = s
        ∧ nextAugmentation rt parent children (s.cache parent) s.augmentation = .error e)
      (fun s' => s' = s) s := by
  simp only [updateAugmentationManifest, wp_bind, wp_get]
  split
  · rename_i habsent
    have heq := Manifest.eq_absent habsent
    refine ⟨.absent, by rw [heq]; rfl, ?_, rfl⟩
    show s.active = ⟨s.tables, s.processedPbfs, .absent, s.retirements⟩
    rw [← heq]
    rfl
  · rw [wp_bind]
    exact wp_ofExcept (fun manifest hm => ⟨rfl, manifest, hm, rfl, rfl⟩) (fun e he => ⟨rfl, he⟩)

theorem persistPreparedRule_active_wp (parent : String) (children : List String) (s : Store C J) :
    wp (persistPreparedRule parent children)
      (fun _ s' => ∃ old, loadRetirementPayload s.retirements = .ok old
        ∧ s'.active = { s.active with
          retirements := .retired (children.foldl (recordRetired parent) old) })
      (fun e s' => s' = s ∧ loadRetirementPayload s.retirements = .error e)
      (fun s' => s' = s) s := by
  simp only [persistPreparedRule, wp_bind, wp_get, wp_step]
  exact wp_ofExcept (fun old hold => ⟨rfl, old, hold, rfl⟩) (fun e he => ⟨rfl, he⟩)

/-- Tables of the given stems have been deleted, and nothing else has changed. -/
structure Deleting (stems : List String) (a b : Active C J) : Prop where
  tables : ∀ subdir stem, b.tables subdir stem = a.tables subdir stem
    ∨ (stem ∈ stems ∧ b.tables subdir stem = none)
  processed : b.processedPbfs = a.processedPbfs
  augmentation : b.augmentation = a.augmentation
  retirements : b.retirements = a.retirements

theorem Deleting.refl (stems : List String) (a : Active C J) : Deleting stems a a :=
  ⟨fun _ _ => Or.inl rfl, rfl, rfl, rfl⟩

theorem Deleting.trans {stems : List String} {a b c : Active C J} (h : Deleting stems a b)
    (h' : Deleting stems b c) : Deleting stems a c where
  tables := by
    intro subdir stem
    rcases h'.tables subdir stem with heq | hgone
    · rw [heq]
      exact h.tables subdir stem
    · exact Or.inr hgone
  processed := h'.processed.trans h.processed
  augmentation := h'.augmentation.trans h.augmentation
  retirements := h'.retirements.trans h.retirements

theorem removeTables_deleting (stems : List String) {child : String} (hchild : child ∈ stems)
    (contracts : List TableContract) (s : Store C J) :
    wp (removeTables child contracts)
      (fun _ s' => Deleting stems s.active s'.active
        ∧ ∀ contract ∈ contracts, s'.tables contract.subdir child = none)
      (fun _ _ => False) (fun s' => Deleting stems s.active s'.active) s := by
  induction contracts generalizing s with
  | nil => exact ⟨Deleting.refl stems s.active, by simp⟩
  | cons contract contracts ih =>
    simp only [removeTables, wp_bind, wp_step]
    refine ⟨Deleting.refl stems s.active, ?_⟩
    set s₁ := s.writeTable contract.subdir child none with hs₁
    have htables : ∀ subdir stem, s₁.tables subdir stem = s.tables subdir stem
        ∨ (stem ∈ stems ∧ s₁.tables subdir stem = none) := by
      intro subdir stem
      by_cases hsub : subdir = contract.subdir
      · subst hsub
        by_cases hstem : stem = child
        · subst hstem
          exact Or.inr ⟨hchild, by simp [hs₁, Store.writeTable]⟩
        · exact Or.inl (by simp [hs₁, Store.writeTable, Function.update_of_ne hstem])
      · exact Or.inl (by simp [hs₁, Store.writeTable, Function.update_of_ne hsub])
    have h₁ : Deleting stems s.active s₁.active := ⟨htables, rfl, rfl, rfl⟩
    refine wp_mono ?_ (fun _ _ he => he) (fun _ h₂ => h₁.trans h₂) (ih s₁)
    rintro _ s₂ ⟨h₂, hall⟩
    refine ⟨h₁.trans h₂, ?_⟩
    intro x hx
    rcases List.mem_cons.mp hx with rfl | hx
    · have hnow : s₁.tables x.subdir child = none := by simp [hs₁, Store.writeTable]
      rcases h₂.tables x.subdir child with heq | ⟨-, heq⟩
      · exact heq.trans hnow
      · exact heq
    · exact hall x hx

/-- **Deleting the children's tables.** -/
theorem removeActiveChildren_deleting (stems children : List String) (hchildren : children ⊆ stems)
    (s : Store C J) :
    wp (removeActiveChildren children)
      (fun _ s' => Deleting stems s.active s'.active
        ∧ ∀ subdir, ∀ child ∈ children, s'.tables subdir child = none)
      (fun _ _ => False) (fun s' => Deleting stems s.active s'.active) s := by
  induction children generalizing s with
  | nil => exact ⟨Deleting.refl stems s.active, by simp⟩
  | cons child children ih =>
    simp only [removeActiveChildren, wp_bind]
    refine wp_imp ?_ (removeTables_deleting stems (hchildren List.mem_cons_self) tableContracts s)
    rintro _ s₁ ⟨h₁, hgone⟩
    refine wp_mono ?_ (fun _ _ he => he) (fun _ h₂ => h₁.trans h₂)
      (ih (fun x hx => hchildren (List.mem_cons_of_mem _ hx)) s₁)
    rintro _ s₂ ⟨h₂, hall⟩
    refine ⟨h₁.trans h₂, ?_⟩
    intro subdir x hx
    rcases List.mem_cons.mp hx with rfl | hx
    · obtain ⟨contract, hcontract, rfl⟩ := subdir.mem_contracts
      rcases h₂.tables contract.subdir x with heq | ⟨-, heq⟩
      · exact heq.trans (hgone contract hcontract)
      · exact heq
    · exact hall subdir x hx

end

/-! ## A preparation that returns has a plan -/

variable [DecidableEq X] {rt : Runtime X C J} {plan : Plan X C J} {a b : Active C J}
  {s : Store C J} {audit : RuleAudit}

/-- The children of an audit. -/
def RuleAudit.stems (audit : RuleAudit) : List String := audit.children.map ChildAudit.stem

/-- What the loop over the rules has checked before it prepares one. -/
structure Checked (rt : Runtime X C J) (audit : RuleAudit) (a : Active C J) : Prop where
  safe : audit.safeToStage = true
  valid : validateStem audit.parent = .ok audit.parent
  fresh : ∀ child ∈ audit.stems, child ∉ a.retired
  nonempty : audit.stems ≠ []
  parent_notMem : audit.parent ∉ audit.stems
  audited : Audited rt a.tables audit.parent audit.stems

omit [DecidableEq X] in
theorem Checked.not_subset (h : Checked rt audit s.active) {retired : List String}
    (hload : loadRetiredChildren s = .ok retired) :
    ¬ audit.children.map ChildAudit.stem ⊆ retired := by
  obtain ⟨child, hchild⟩ := List.exists_mem_of_ne_nil _ h.nonempty
  intro hsub
  refine h.fresh child hchild ?_
  rw [loadRetiredChildren_eq hload]
  exact hsub hchild

theorem prepareLocalRule_hasPlan_wp (h : Checked rt audit s.active) : wp (prepareLocalRule rt audit)
      (fun _ _ => ∃ plan : Plan X C J, plan.parent = audit.parent ∧ plan.children = audit.stems
        ∧ plan.For rt s.active)
      (fun _ _ => True) (fun _ => True) s := by
  simp only [prepareLocalRule, wp_bind, wp_get]
  refine wp_ofExcept (fun retired hload => ?_) (fun _ _ => trivial)
  rw [if_neg (h.not_subset hload)]
  simp only [wp_bind, wp_pure]
  refine wp_returned ?_ (stageRule_wp h.safe h.valid s)
  rintro _ s₁ ⟨hactive, polygonRows, files, hstaged, hcache⟩
  have htables : s₁.tables = s.tables := congrArg Active.tables hactive
  refine wp_mono ?_ (fun _ _ he => he.elim) (fun _ _ => trivial)
    (quarantineAndInstall_installing audit.parent audit.stems files tableContracts s₁ hcache
      (fun subdir stem hstem => by rw [htables]; exact h.audited.exists_file subdir hstem))
  rintro _ s₂ ⟨h₂, -⟩
  refine wp_returned ?_ (updateProcessedManifest_wp audit.parent _ s₂)
  rintro _ s₃ ⟨processed, hprocessed, hactive₃, hcache₃⟩
  refine wp_returned ?_ (updateAugmentationManifest_wp audit.parent _ s₃)
  rintro _ s₄ ⟨augmentation, haugmentation, hactive₄, hcache₄⟩
  refine wp_returned ?_ (persistPreparedRule_active_wp audit.parent _ s₄)
  rintro _ s₅ ⟨old, hold, -⟩
  refine wp_mono ?_ (fun _ _ he => he.elim) (fun _ _ => trivial)
    (removeActiveChildren_deleting _ _ (fun _ hx => hx) s₅)
  rintro _ s₆ -
  -- what each step has read is as at the start
  have hcache₂ : s₂.cache audit.parent = fun subdir => some (files subdir) := by
    rw [h₂.cache, hcache]
  have hp : s₂.processedPbfs = s.active.processedPbfs :=
    h₂.processed.trans (congrArg Active.processedPbfs hactive)
  have ha : s₃.augmentation = s.active.augmentation :=
    ((congrArg Active.augmentation hactive₃).trans h₂.augmentation).trans
      (congrArg Active.augmentation hactive)
  have hr : s₄.retirements = s.active.retirements :=
    ((congrArg Active.retirements hactive₄).trans
      ((congrArg Active.retirements hactive₃).trans h₂.retirements)).trans
        (congrArg Active.retirements hactive)
  rw [hcache₂, hp] at hprocessed
  rw [hcache₃, hcache₂, ha] at haugmentation
  rw [hr] at hold
  exact ⟨⟨audit.parent, audit.stems, polygonRows, files, processed, augmentation,
    audit.stems.foldl (recordRetired audit.parent) old⟩, rfl, rfl, h.fresh, h.nonempty,
    h.parent_notMem, h.audited, hstaged, hprocessed, haugmentation, old, hold, rfl⟩

/-! ## A preparation follows its plan -/

theorem Progress.processed_next (hplan : plan.For rt a) (h : Progress plan a b) :
    nextProcessed rt plan.parent plan.children (fun subdir => some (plan.files subdir))
      b.processedPbfs = .ok plan.processed := by
  rcases h.processed with heq | heq
  · rw [heq]
    exact hplan.processed
  · rw [heq]
    exact rewriteManifest_idem hplan.processed

theorem Progress.augmentation_next (hplan : plan.For rt a) (h : Progress plan a b) :
    nextAugmentation rt plan.parent plan.children (fun subdir => some (plan.files subdir))
      b.augmentation = .ok plan.augmentation := by
  rcases h.augmentation with heq | heq
  · rw [heq]
    exact hplan.augmentation
  · rw [heq]
    exact rewriteManifest_idem hplan.augmentation

omit [DecidableEq X] in
theorem Progress.installing {s₁ s₂ : Store C J} (h : Progress plan a s₁.active)
    (h' : Installing plan.parent plan.files s₁ s₂) : Progress plan a s₂.active where
  tables := by
    intro subdir stem
    rcases h'.tables subdir stem with heq | hfile
    · show s₂.tables subdir stem = _ ∨ (_ ∧ s₂.tables subdir stem = _)
      rw [heq]
      exact h.tables subdir stem
    · exact Or.inr hfile
  processed := by
    show s₂.processedPbfs = _ ∨ s₂.processedPbfs = _
    rw [h'.processed]
    exact h.processed
  augmentation := by
    show s₂.augmentation = _ ∨ s₂.augmentation = _
    rw [h'.augmentation]
    exact h.augmentation
  retirements := h'.retirements.trans h.retirements

omit [DecidableEq X] in
theorem Recorded.deleting {c : Active C J} (hparent : plan.parent ∉ plan.children)
    (h : Recorded plan a b) (h' : Deleting plan.children b c) : Recorded plan a c where
  tables := by
    intro subdir stem
    rcases h'.tables subdir stem with heq | ⟨hmem, heq⟩
    · rw [heq]
      exact h.tables subdir stem
    · left
      rw [heq, Plan.finish_child hparent a subdir hmem]
  processed := h'.processed.trans h.processed
  augmentation := h'.augmentation.trans h.augmentation
  retirements := h'.retirements.trans h.retirements

omit [DecidableEq X] in
theorem Recorded.eq_finish (hparent : plan.parent ∉ plan.children) (h : Recorded plan a b)
    (hgone : ∀ subdir, ∀ child ∈ plan.children, b.tables subdir child = none) :
    b = plan.finish a := by
  have htables : b.tables = (plan.finish a).tables := by
    funext subdir stem
    rcases h.tables subdir stem with heq | ⟨hmem, -⟩
    · exact heq
    · rw [hgone subdir stem hmem, Plan.finish_child hparent a subdir hmem]
  obtain ⟨tables, processed, augmentation, retirements⟩ := b
  exact Active.mk.injEq .. |>.mpr ⟨htables, h.processed, h.augmentation, h.retirements⟩

theorem recordPrepared_wp (prepared : PreparedRule) (hplan : plan.For rt a)
    (h : Progress plan a s.active)
    (hinstalled : ∀ subdir, s.tables subdir plan.parent = some (plan.files subdir))
    (hcache : s.cache plan.parent = fun subdir => some (plan.files subdir)) :
    wp (do
        updateProcessedManifest rt plan.parent plan.children
        updateAugmentationManifest rt plan.parent plan.children
        persistPreparedRule plan.parent plan.children
        removeActiveChildren plan.children
        return prepared)
      (fun _ s' => s'.active = plan.finish a) (fun _ _ => False)
      (fun s' => Progress plan a s'.active ∨ Recorded plan a s'.active) s := by
  simp only [wp_bind, wp_pure]
  -- the manifests
  refine wp_mono ?_ ?_ (fun s' hk => Or.inl (by rw [hk]; exact h))
    (updateProcessedManifest_wp plan.parent plan.children s)
  swap
  · rintro e s' ⟨-, herror⟩
    have hok := h.processed_next hplan
    rw [hcache] at herror
    cases herror.symm.trans hok
  rintro _ s₁ ⟨processed, hprocessed, hactive₁, hcache₁⟩
  rw [hcache] at hprocessed
  cases hprocessed.symm.trans (h.processed_next hplan)
  have h₁ : Progress plan a s₁.active := by
    rw [hactive₁]
    exact ⟨h.tables, Or.inr rfl, h.augmentation, h.retirements⟩
  refine wp_mono ?_ ?_ (fun s' hk => Or.inl (by rw [hk]; exact h₁))
    (updateAugmentationManifest_wp plan.parent plan.children s₁)
  swap
  · rintro e s' ⟨-, herror⟩
    have hok := h₁.augmentation_next hplan
    rw [hcache₁, hcache] at herror
    cases herror.symm.trans hok
  rintro _ s₂ ⟨augmentation, haugmentation, hactive₂, -⟩
  rw [hcache₁, hcache] at haugmentation
  cases haugmentation.symm.trans (h₁.augmentation_next hplan)
  have h₂ : Progress plan a s₂.active := by
    rw [hactive₂]
    exact ⟨h₁.tables, h₁.processed, Or.inr rfl, h₁.retirements⟩
  -- the retirements
  obtain ⟨old, hold, hretired⟩ := hplan.retired
  have hload : loadRetirementPayload s₂.retirements = .ok old := by
    rw [← hold, ← h₂.retirements]
    rfl
  refine wp_mono ?_ ?_ (fun s' hk => Or.inl (by rw [hk]; exact h₂))
    (persistPreparedRule_active_wp plan.parent plan.children s₂)
  swap
  · rintro e s' ⟨-, herror⟩
    cases herror.symm.trans hload
  rintro _ s₃ ⟨old', hold', hactive₃⟩
  cases hold'.symm.trans hload
  have h₃ : Recorded plan a s₃.active := by
    rw [hactive₃, hactive₂, hactive₁]
    refine ⟨?_, rfl, rfl, by rw [hretired]⟩
    intro subdir stem
    by_cases hparent : stem = plan.parent
    · subst hparent
      left
      rw [Plan.finish_parent]
      exact hinstalled subdir
    · have hsame : s.tables subdir stem = a.tables subdir stem :=
        (h.tables subdir stem).resolve_right (fun hp => hparent hp.1)
      by_cases hchild : stem ∈ plan.children
      · exact Or.inr ⟨hchild, hsame⟩
      · left
        rw [Plan.finish_other a subdir hparent hchild]
        exact hsame
  -- the children
  refine wp_mono ?_ (fun _ _ he => he) (fun s' hk => Or.inr (h₃.deleting hplan.parent_notMem hk))
    (removeActiveChildren_deleting plan.children plan.children (fun _ hx => hx) s₃)
  rintro _ s₄ ⟨hdeleting, hgone⟩
  exact (h₃.deleting hplan.parent_notMem hdeleting).eq_finish hplan.parent_notMem hgone

/-- **A preparation from any point on the way** to the retirements ends where the plan says, or
cannot compare the snapshots and changes nothing. Stopped anywhere, it is on the way. -/
theorem prepareLocalRule_progress_wp (hrt : RoundTrips rt) (hplan : plan.For rt a)
    (h : Progress plan a s.active) (hparent : audit.parent = plan.parent)
    (hstems : audit.stems = plan.children) (hsafe : audit.safeToStage = true)
    (hvalid : validateStem audit.parent = .ok audit.parent) :
    wp (prepareLocalRule rt audit)
      (fun _ s' => s'.active = plan.finish a
        ∧ SnapshotsComparable rt s.tables plan.parent plan.children)
      (fun _ s' => s'.active = s.active
        ∧ ¬ SnapshotsComparable rt s.tables plan.parent plan.children)
      (fun s' => Progress plan a s'.active ∨ Recorded plan a s'.active) s := by
  have hstems' : audit.children.map ChildAudit.stem = plan.children := hstems
  have haudited : Audited rt s.tables plan.parent plan.children :=
    hplan.staged.audited_again hrt hplan.audited (h.mixed hplan)
  have hagain : (SnapshotsComparable rt s.tables plan.parent plan.children →
        Staged rt s.tables plan.parent plan.children plan.polygonRows plan.files)
      ∧ (¬ SnapshotsComparable rt s.tables plan.parent plan.children →
        mergePolygonRows rt s.tables plan.parent plan.children = .error .typeError) :=
    hplan.staged.again hrt hplan.audited (h.mixed hplan)
  simp only [prepareLocalRule, wp_bind, wp_get]
  refine wp_ofExcept (fun retired hretired => ?_) (fun e he => ?_)
  swap
  · obtain ⟨old, hold, -⟩ := hplan.retired
    have hload : loadRetirementPayload s.retirements = .ok old := by
      rw [← hold, ← h.retirements]
      rfl
    unfold loadRetiredChildren at he
    rw [hload] at he
    cases he
  -- the children are not retired yet
  have hnot : ¬ plan.children ⊆ retired := by
    obtain ⟨child, hchild⟩ := List.exists_mem_of_ne_nil _ hplan.nonempty
    intro hsub
    refine hplan.fresh child hchild ?_
    rw [← h.retired_eq, loadRetiredChildren_eq hretired]
    exact hsub hchild
  rw [hstems', if_neg hnot, hparent, wp_bind]
  refine wp_mono ?_ ?_ (fun s' hk => Or.inl (by rw [hk]; exact h)) (stageRule_wp hsafe hvalid s)
  swap
  · rintro _ s' ⟨hactive, hnone⟩
    refine ⟨hactive, fun hcmp => ?_⟩
    rw [hparent, hstems'] at hnone
    exact hnone _ _ (hagain.1 hcmp)
  rintro _ s₁ ⟨hactive, polygonRows, files, hstaged, hcache⟩
  rw [hparent, hstems'] at hstaged
  rw [hparent] at hcache
  have hcmp : SnapshotsComparable rt s.tables plan.parent plan.children := by
    by_contra hno
    cases (hagain.2 hno).symm.trans hstaged.polygons
  obtain ⟨-, hfiles⟩ := (hagain.1 hcmp).unique hstaged
  subst hfiles
  have htables : s₁.tables = s.tables := congrArg Active.tables hactive
  have h₁ : Progress plan a s₁.active := by rw [hactive]; exact h
  rw [wp_bind]
  refine wp_mono ?_ (fun _ _ he => he.elim) (fun s₂ h₂ => Or.inl (h₁.installing h₂))
    (quarantineAndInstall_installing plan.parent plan.children plan.files tableContracts s₁ hcache
      (fun subdir stem hstem => by rw [htables]; exact haudited.exists_file subdir hstem))
  rintro _ s₂ ⟨hinstall, hall⟩
  have hinstalled : ∀ subdir, s₂.tables subdir plan.parent = some (plan.files subdir) := by
    intro subdir
    obtain ⟨contract, hcontract, rfl⟩ := subdir.mem_contracts
    exact hall contract hcontract
  exact wp_mono (fun _ _ hq => ⟨hq, hcmp⟩) (fun _ _ he => he.elim) (fun _ hk => hk)
    (recordPrepared_wp _ hplan (h₁.installing hinstall) hinstalled (by rw [hinstall.cache, hcache]))

end OsmPolygonWikidata.Containment
