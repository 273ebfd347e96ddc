import OsmPolygonWikidata.Containment.Preparing

/-! # Preparing all rules, once or again

The rules have no region in common, so the turn of one rule leaves what the others read. A run
that was stopped inside the turn of a rule is taken up by the next run: the turns before are no-ops,
the rule's own turn follows its plan to the end, and the turns after it are those of the
uninterrupted run. There are two exceptions. A rule whose children are recorded as retired is
skipped, and tables of these children that are left stay. And a parent that has already taken up
polygons which it lacked is compared with them, which it was not at first.
-/

namespace OsmPolygonWikidata.Containment

open Durable Python
open Prog (wp wp_bind wp_get wp_mono wp_pure wp_returned)

variable {X C J : Type} [DecidableEq X] {rt : Runtime X C J} {a b c : Active C J}
  {rule : ContainmentRule} {rules : List ContainmentRule} {audit : RuleAudit}

/-! ## Selected rules -/

/-- The regions of a rule. -/
def ContainmentRule.stems (rule : ContainmentRule) : List String := rule.parent :: rule.children

/-- Rules over valid stems, each of which occurs once. -/
structure DisjointRules (rules : List ContainmentRule) : Prop where
  valid : ∀ rule ∈ rules, ∀ stem ∈ rule.stems, validateStem stem = .ok stem
  nodup : (rules.flatMap ContainmentRule.stems).Nodup

theorem containmentRules_disjoint : DisjointRules containmentRules where
  valid := by decide
  nodup := by decide

/-- The rule is prepared in its turn. -/
def Selected (rt : Runtime X C J) (rule : ContainmentRule) (a : Active C J) (audit : RuleAudit) :
    Prop :=
  ∃ pending, pendingRule rule a.retired = some pending
    ∧ hasRequiredFiles a.tables pending = true ∧ auditRule rt a.tables pending = .ok audit
    ∧ audit.safeToStage = true

theorem pendingRule_eq_some {retired : List String} {pending : ContainmentRule}
    (h : pendingRule rule retired = some pending) :
    pending.parent = rule.parent ∧ pending.children ≠ []
      ∧ ∀ child, child ∈ pending.children ↔ child ∈ rule.children ∧ child ∉ retired := by
  unfold pendingRule at h
  dsimp only at h
  split at h
  · cases h
  · rename_i hne
    cases h
    exact ⟨rfl, hne, fun child => by simp⟩

theorem pendingRule_congr {retired retired' : List String}
    (h : ∀ child ∈ rule.children, child ∈ retired' ↔ child ∈ retired) :
    pendingRule rule retired' = pendingRule rule retired := by
  have hfilter : rule.children.filter (fun child => child ∉ retired')
      = rule.children.filter (fun child => child ∉ retired) := by
    refine List.filter_congr (fun child hchild => ?_)
    simp [h child hchild]
  unfold pendingRule
  rw [hfilter]

theorem pendingRule_eq_none {retired : List String} (h : rule.children ⊆ retired) :
    pendingRule rule retired = none := by
  have hfilter : rule.children.filter (fun child => child ∉ retired) = [] := by
    rw [List.filter_eq_nil_iff]
    intro child hchild
    simp [h hchild]
  unfold pendingRule
  rw [hfilter]
  rfl

theorem Selected.checked (h : Selected rt rule a audit)
    (hvalid : ∀ stem ∈ rule.stems, validateStem stem = .ok stem) (hnodup : rule.stems.Nodup) :
    Checked rt audit a ∧ audit.parent = rule.parent
      ∧ (∀ child, child ∈ audit.stems ↔ child ∈ rule.children ∧ child ∉ a.retired) := by
  obtain ⟨pending, hpending, -, haudit, hsafe⟩ := h
  obtain ⟨hparent, hne, hmem⟩ := pendingRule_eq_some hpending
  obtain ⟨hparent', hstems, hiff⟩ := auditRule_spec haudit hne
  have hstems' : audit.stems = sorted pending.children := hstems
  have hmem' : ∀ child, child ∈ audit.stems ↔ child ∈ rule.children ∧ child ∉ a.retired := by
    intro child
    rw [hstems', (sorted_perm _).mem_iff, hmem]
  have heq : audit.parent = rule.parent := hparent'.trans hparent
  refine ⟨⟨hsafe, ?_, fun child hchild => ((hmem' child).mp hchild).2, ?_, ?_, ?_⟩, heq, hmem'⟩
  · rw [heq]
    exact hvalid _ List.mem_cons_self
  · rw [hstems']
    exact fun hnil => hne (sorted_eq_nil.mp hnil)
  · rw [heq]
    intro hmem''
    exact (List.nodup_cons.mp hnodup).1 ((hmem' _).mp hmem'').1
  · rw [hparent', hstems']
    exact hiff.mp hsafe

variable {tables tables' : Tables C} {children : List String} {plan : Plan X C J}
  {stems parents : List String}

theorem auditRule_congr
    (h : ∀ subdir, ∀ stem ∈ rule.stems, tables' subdir stem = tables subdir stem) :
    auditRule rt tables' rule = auditRule rt tables rule := by
  unfold auditRule
  cases hparent : validateStem rule.parent with
  | error e => rfl
  | ok parent =>
    cases hchildren : (sorted rule.children).mapM validateStem with
    | error e => rfl
    | ok children =>
      have hp : parent = rule.parent := by
        unfold validateStem at hparent
        split at hparent
        · cases hparent
          rfl
        · cases hparent
      have hc := mapM_validateStem hchildren
      subst hp hc
      have haudits : (sorted rule.children).map (auditChild rt tables' rule.parent)
          = (sorted rule.children).map (auditChild rt tables rule.parent) := by
        refine List.map_congr_left (fun child hchild => ?_)
        have hmem : child ∈ rule.children := (sorted_perm _).mem_iff.mp hchild
        have hcontracts : tableContracts.map
            (fun contract => auditContract rt tables' contract rule.parent child)
            = tableContracts.map
            (fun contract => auditContract rt tables contract rule.parent child) := by
          refine List.map_congr_left (fun contract _ => ?_)
          unfold auditContract
          rw [h _ rule.parent List.mem_cons_self, h _ child (List.mem_cons_of_mem _ hmem)]
        unfold auditChild
        rw [hcontracts]
      show Except.ok _ = Except.ok _
      rw [haudits]

theorem hasRequiredFiles_congr
    (h : ∀ subdir, ∀ stem ∈ rule.stems, tables' subdir stem = tables subdir stem) :
    hasRequiredFiles tables' rule = hasRequiredFiles tables rule := by
  have hall : ∀ contract : TableContract,
      (rule.parent :: rule.children).all (fun stem => (tables' contract.subdir stem).isSome)
        = (rule.parent :: rule.children).all
          (fun stem => (tables contract.subdir stem).isSome) := by
    intro contract
    rw [Bool.eq_iff_iff, List.all_eq_true, List.all_eq_true]
    exact forall₂_congr (fun stem hstem => by rw [h contract.subdir stem hstem])
  unfold hasRequiredFiles
  simp only [hall]

/-- The two agree on what the turn of a rule reads. -/
structure AgreeOn (rule : ContainmentRule) (a b : Active C J) : Prop where
  tables : ∀ subdir, ∀ stem ∈ rule.stems, b.tables subdir stem = a.tables subdir stem
  retired : ∀ child ∈ rule.children, child ∈ b.retired ↔ child ∈ a.retired

theorem AgreeOn.selected (h : AgreeOn rule a b) :
    Selected rt rule b audit ↔ Selected rt rule a audit := by
  unfold Selected
  rw [pendingRule_congr h.retired]
  refine exists_congr (fun pending => and_congr_right (fun hpending => ?_))
  obtain ⟨hparent, -, hmem⟩ := pendingRule_eq_some hpending
  have htables : ∀ subdir, ∀ stem ∈ pending.stems, b.tables subdir stem = a.tables subdir stem := by
    intro subdir stem hstem
    refine h.tables subdir stem ?_
    rcases List.mem_cons.mp hstem with rfl | hstem
    · rw [hparent]
      exact List.mem_cons_self
    · exact List.mem_cons_of_mem _ ((hmem stem).mp hstem).1
  rw [hasRequiredFiles_congr htables, auditRule_congr htables]

omit [DecidableEq X] in
theorem SnapshotsComparable.congr {parent : String}
    (hparent : tables' .polygons parent = tables .polygons parent)
    (hchildren : ∀ child ∈ children, tables' .polygons child = tables .polygons child) :
    SnapshotsComparable rt tables' parent children
      ↔ SnapshotsComparable rt tables parent children := by
  unfold SnapshotsComparable
  rw [hparent, readChildren_congr hchildren]

/-! ## Turns -/

/-- The plan of a selected rule. -/
structure Planned (rt : Runtime X C J) (rule : ContainmentRule) (a : Active C J)
    (plan : Plan X C J) : Prop where
  selected : ∃ audit, Selected rt rule a audit ∧ plan.parent = audit.parent
    ∧ plan.children = audit.stems
  plan : plan.For rt a

/-- The turn of a rule. -/
inductive Turn (rt : Runtime X C J) (rule : ContainmentRule) (a : Active C J) :
    Active C J → Prop where
  | skip (h : ∀ audit, ¬ Selected rt rule a audit) : Turn rt rule a a
  | prepare (plan : Plan X C J) (h : Planned rt rule a plan) : Turn rt rule a (plan.finish a)

/-- Inside the turn of a rule. -/
inductive During (rt : Runtime X C J) (rule : ContainmentRule) (a : Active C J) :
    Active C J → Prop where
  | before : During rt rule a a
  | progress {b : Active C J} (plan : Plan X C J) (h : Planned rt rule a plan)
      (hb : Progress plan a b) : During rt rule a b
  | recorded {b : Active C J} (plan : Plan X C J) (h : Planned rt rule a plan)
      (hb : Recorded plan a b) : During rt rule a b

/-- The turns of several rules. -/
inductive Turns (rt : Runtime X C J) : List ContainmentRule → Active C J → Active C J → Prop where
  | nil (a : Active C J) : Turns rt [] a a
  | cons {rule : ContainmentRule} {rules : List ContainmentRule} {a b c : Active C J}
      (h : Turn rt rule a b) (hs : Turns rt rules b c) : Turns rt (rule :: rules) a c

/-- Inside the turns of several rules. -/
inductive Within (rt : Runtime X C J) : List ContainmentRule → Active C J → Active C J → Prop where
  | done (a : Active C J) : Within rt [] a a
  | here {rule : ContainmentRule} {rules : List ContainmentRule} {a b : Active C J}
      (h : During rt rule a b) : Within rt (rule :: rules) a b
  | later {rule : ContainmentRule} {rules : List ContainmentRule} {a b c : Active C J}
      (h : Turn rt rule a b) (hs : Within rt rules b c) : Within rt (rule :: rules) a c

theorem Within.start (rt : Runtime X C J) (rules : List ContainmentRule) (a : Active C J) :
    Within rt rules a a := by
  cases rules with
  | nil => exact .done a
  | cons rule rules => exact .here .before

theorem Selected.unique {audit' : RuleAudit} (h : Selected rt rule a audit)
    (h' : Selected rt rule a audit') : audit = audit' := by
  obtain ⟨pending, hpending, -, haudit, -⟩ := h
  obtain ⟨pending', hpending', -, haudit', -⟩ := h'
  cases hpending.symm.trans hpending'
  exact Except.ok.inj (haudit.symm.trans haudit')

theorem Planned.finish_unique {plan' : Plan X C J} (h : Planned rt rule a plan)
    (h' : Planned rt rule a plan') : plan.finish a = plan'.finish a := by
  obtain ⟨audit, hselected, hparent, hchildren⟩ := h.selected
  obtain ⟨audit', hselected', hparent', hchildren'⟩ := h'.selected
  cases hselected.unique hselected'
  obtain ⟨parent, children, rows, files, processed, augmentation, retired⟩ := plan
  obtain ⟨parent', children', rows', files', processed', augmentation', retired'⟩ := plan'
  simp only at hparent hchildren hparent' hchildren'
  subst hparent hchildren hparent' hchildren'
  obtain ⟨hrows, hfiles⟩ := h.plan.staged.unique h'.plan.staged
  simp only at hrows hfiles
  subst hrows hfiles
  have hprocessed := h.plan.processed.symm.trans h'.plan.processed
  have haugmentation := h.plan.augmentation.symm.trans h'.plan.augmentation
  simp only [Except.ok.injEq] at hprocessed haugmentation
  subst hprocessed haugmentation
  obtain ⟨old, hold, hretired⟩ := h.plan.retired
  obtain ⟨old', hold', hretired'⟩ := h'.plan.retired
  cases hold.symm.trans hold'
  simp only at hretired hretired'
  rw [hretired, hretired']

theorem Turn.unique (h : Turn rt rule a b) (h' : Turn rt rule a c) : b = c := by
  cases h with
  | skip hskip =>
    cases h' with
    | skip _ => rfl
    | prepare plan hplan =>
      obtain ⟨audit, hselected, -⟩ := hplan.selected
      exact absurd hselected (hskip audit)
  | prepare plan hplan =>
    cases h' with
    | skip hskip =>
      obtain ⟨audit, hselected, -⟩ := hplan.selected
      exact absurd hselected (hskip audit)
    | prepare plan' hplan' => exact hplan.finish_unique hplan'

/-! ## What a turn leaves alone -/

theorem Planned.regions (h : Planned rt rule a plan)
    (hvalid : ∀ stem ∈ rule.stems, validateStem stem = .ok stem) (hnodup : rule.stems.Nodup) :
    plan.parent = rule.parent
      ∧ ∀ child, child ∈ plan.children ↔ child ∈ rule.children ∧ child ∉ a.retired := by
  obtain ⟨audit, hselected, hparent, hchildren⟩ := h.selected
  obtain ⟨-, hparent', hmem⟩ := hselected.checked hvalid hnodup
  refine ⟨hparent.trans hparent', fun child => ?_⟩
  rw [hchildren]
  exact hmem child

theorem Plan.For.mem_retired (h : plan.For rt a) (child : String) :
    child ∈ plan.retired.map Prod.fst ↔ child ∈ plan.children ∨ child ∈ a.retired := by
  obtain ⟨old, hold, hretired⟩ := h.retired
  rw [hretired, mem_foldl_recordRetired]
  unfold Active.retired
  rw [hold]

omit [DecidableEq X] in
theorem retired_recorded (h : b.retirements = .retired plan.retired) :
    b.retired = plan.retired.map Prod.fst := by
  unfold Active.retired
  rw [h]
  rfl

/-- Only tables of the given stems and the retirement of the given children may differ. -/
structure Frame (stems children : List String) (a b : Active C J) : Prop where
  tables : ∀ subdir stem, stem ∉ stems → b.tables subdir stem = a.tables subdir stem
  retired : ∀ child, child ∉ children → (child ∈ b.retired ↔ child ∈ a.retired)

omit [DecidableEq X] in
theorem Frame.refl (stems children : List String) (a : Active C J) : Frame stems children a a :=
  ⟨fun _ _ _ => rfl, fun _ _ => Iff.rfl⟩

theorem During.frame (hvalid : ∀ stem ∈ rule.stems, validateStem stem = .ok stem)
    (hnodup : rule.stems.Nodup) (h : During rt rule a b) : Frame rule.stems rule.children a b := by
  cases h with
  | before => exact Frame.refl _ _ a
  | progress plan hplan hb =>
    obtain ⟨hparent, -⟩ := hplan.regions hvalid hnodup
    refine ⟨?_, fun child _ => by rw [hb.retired_eq]⟩
    intro subdir stem hstem
    refine (hb.tables subdir stem).resolve_right ?_
    rintro ⟨rfl, -⟩
    rw [hparent] at hstem
    exact hstem List.mem_cons_self
  | recorded plan hplan hb =>
    obtain ⟨hparent, hmem⟩ := hplan.regions hvalid hnodup
    refine ⟨?_, ?_⟩
    · intro subdir stem hstem
      rcases hb.tables subdir stem with heq | ⟨hchild, -⟩
      · have hne : stem ≠ plan.parent := by
          rintro rfl
          rw [hparent] at hstem
          exact hstem List.mem_cons_self
        have hnot : stem ∉ plan.children :=
          fun hchild => hstem (List.mem_cons_of_mem _ ((hmem stem).mp hchild).1)
        rw [heq, Plan.finish_other a subdir hne hnot]
      · exact absurd (List.mem_cons_of_mem _ ((hmem stem).mp hchild).1) hstem
    · intro child hchild
      rw [retired_recorded hb.retirements, hplan.plan.mem_retired]
      refine ⟨?_, Or.inr⟩
      rintro (hplanned | hold)
      · exact absurd ((hmem child).mp hplanned).1 hchild
      · exact hold

theorem Turn.during (h : Turn rt rule a b) : During rt rule a b := by
  cases h with
  | skip _ => exact .before
  | prepare plan hplan =>
    exact .recorded plan hplan ⟨fun _ _ => Or.inl rfl, rfl, rfl, rfl⟩

omit [DecidableEq X] in
theorem Frame.trans {stems children : List String} (h : Frame stems children a b)
    (h' : Frame stems children b c) : Frame stems children a c where
  tables := fun subdir stem hstem => (h'.tables subdir stem hstem).trans (h.tables subdir stem hstem)
  retired := fun child hchild => (h'.retired child hchild).trans (h.retired child hchild)

omit [DecidableEq X] in
theorem Frame.mono {stems' children' : List String} (h : Frame stems children a b)
    (hstems : stems ⊆ stems') (hchildren : children ⊆ children') : Frame stems' children' a b where
  tables := fun subdir stem hstem => h.tables subdir stem (fun hmem => hstem (hstems hmem))
  retired := fun child hchild => h.retired child (fun hmem => hchild (hchildren hmem))

theorem DisjointRules.head (h : DisjointRules (rule :: rules)) :
    (∀ stem ∈ rule.stems, validateStem stem = .ok stem) ∧ rule.stems.Nodup
      ∧ DisjointRules rules ∧ ∀ stem ∈ rule.stems, stem ∉ rules.flatMap ContainmentRule.stems := by
  have hnodup := h.nodup
  rw [List.flatMap_cons, List.nodup_append] at hnodup
  refine ⟨h.valid rule List.mem_cons_self, hnodup.1,
    ⟨fun r hr => h.valid r (List.mem_cons_of_mem _ hr), hnodup.2.1⟩, ?_⟩
  exact fun stem hstem hmem => hnodup.2.2 stem hstem stem hmem rfl

theorem children_subset_stems (rules : List ContainmentRule) :
    rules.flatMap ContainmentRule.children ⊆ rules.flatMap ContainmentRule.stems := by
  intro child hchild
  obtain ⟨rule, hrule, hmem⟩ := List.mem_flatMap.mp hchild
  exact List.mem_flatMap.mpr ⟨rule, hrule, List.mem_cons_of_mem _ hmem⟩

/-- **The turns of some rules** leave alone what the turns of others read. -/
theorem Within.frame (hrules : DisjointRules rules) (h : Within rt rules a b) :
    Frame (rules.flatMap ContainmentRule.stems) (rules.flatMap ContainmentRule.children) a b := by
  induction h with
  | done a => exact Frame.refl _ _ a
  | @here rule rules a b hduring =>
    obtain ⟨hvalid, hnodup, -, -⟩ := hrules.head
    refine (hduring.frame hvalid hnodup).mono ?_ ?_
    · exact List.subset_append_left _ _
    · exact List.subset_append_left _ _
  | @later rule rules a b c hturn _ ih =>
    obtain ⟨hvalid, hnodup, hrest, -⟩ := hrules.head
    have hfirst := (hturn.during.frame hvalid hnodup).mono
      (List.subset_append_left rule.stems (rules.flatMap ContainmentRule.stems))
      (List.subset_append_left rule.children (rules.flatMap ContainmentRule.children))
    have hthen := (ih hrest).mono
      (List.subset_append_right rule.stems (rules.flatMap ContainmentRule.stems))
      (List.subset_append_right rule.children (rules.flatMap ContainmentRule.children))
    exact hfirst.trans hthen

omit [DecidableEq X] in
theorem Frame.agreeOn (h : Frame stems children a b) (hstems : ∀ stem ∈ rule.stems, stem ∉ stems)
    (hchildren : ∀ child ∈ rule.children, child ∉ children) : AgreeOn rule a b where
  tables := fun subdir stem hstem => h.tables subdir stem (hstems stem hstem)
  retired := fun child hchild => h.retired child (hchildren child hchild)

theorem Within.agreeOn_head (hrules : DisjointRules (rule :: rules)) (h : Within rt rules a b) :
    AgreeOn rule a b := by
  obtain ⟨-, -, hrest, hdisjoint⟩ := hrules.head
  refine (h.frame hrest).agreeOn hdisjoint ?_
  intro child hchild hmem
  exact hdisjoint child (List.mem_cons_of_mem _ hchild) (children_subset_stems rules hmem)

theorem During.agreeOn_tail (hrules : DisjointRules (rule :: rules)) (h : During rt rule a b)
    {other : ContainmentRule} (hother : other ∈ rules) : AgreeOn other a b := by
  obtain ⟨hvalid, hnodup, -, hdisjoint⟩ := hrules.head
  refine (h.frame hvalid hnodup).agreeOn ?_ ?_
  · intro stem hstem hmem
    exact hdisjoint stem hmem (List.mem_flatMap.mpr ⟨other, hother, hstem⟩)
  · intro child hchild hmem
    refine hdisjoint child (List.mem_cons_of_mem _ hmem) ?_
    exact List.mem_flatMap.mpr ⟨other, hother, List.mem_cons_of_mem _ hchild⟩

theorem Turn.not_selected (hvalid : ∀ stem ∈ rule.stems, validateStem stem = .ok stem)
    (hnodup : rule.stems.Nodup) (h : Turn rt rule a b) : ¬ Selected rt rule b audit := by
  cases h with
  | skip hskip => exact hskip audit
  | prepare plan hplan =>
    rintro ⟨pending, hpending, -⟩
    obtain ⟨-, hmem⟩ := hplan.regions hvalid hnodup
    have hall : rule.children ⊆ (plan.finish a).retired := by
      intro child hchild
      have heq : (plan.finish a).retired = plan.retired.map Prod.fst := retired_recorded rfl
      rw [heq, hplan.plan.mem_retired]
      by_cases hold : child ∈ a.retired
      · exact Or.inr hold
      · exact Or.inl ((hmem child).mpr ⟨hchild, hold⟩)
    rw [pendingRule_eq_none hall] at hpending
    cases hpending

/-! ## The turn of one rule -/

/-- The snapshots of a selected rule can be compared. -/
def RuleComparable (rt : Runtime X C J) (rule : ContainmentRule) (a : Active C J) : Prop :=
  ∀ audit, Selected rt rule a audit → SnapshotsComparable rt a.tables audit.parent audit.stems

variable {s : Store C J} {retired : List String}

theorem auditRule_ok (rt : Runtime X C J) (tables : Tables C)
    (hvalid : ∀ stem ∈ rule.stems, validateStem stem = .ok stem) :
    ∃ audit, auditRule rt tables rule = .ok audit := by
  have hchildren : ∀ stems : List String, (∀ stem ∈ stems, validateStem stem = .ok stem) →
      stems.mapM validateStem = .ok stems := by
    intro stems hstems
    induction stems with
    | nil => rfl
    | cons stem stems ih =>
      rw [List.mapM_cons, hstems stem List.mem_cons_self,
        ih (fun x hx => hstems x (List.mem_cons_of_mem _ hx))]
      rfl
  have hsorted := hchildren (sorted rule.children) (fun stem hstem =>
    hvalid stem (List.mem_cons_of_mem _ ((sorted_perm _).mem_iff.mp hstem)))
  unfold auditRule
  rw [hvalid _ List.mem_cons_self, hsorted]
  exact ⟨_, rfl⟩

theorem prepareRule_skip_wp (hvalid : ∀ stem ∈ rule.stems, validateStem stem = .ok stem)
    (hretired : ∀ child ∈ rule.children, child ∈ retired ↔ child ∈ s.active.retired)
    (hskip : ∀ audit, ¬ Selected rt rule s.active audit) :
    wp (prepareRule rt false retired rule)
      (fun _ s' => s' = s) (fun _ _ => False) (fun _ => False) s := by
  unfold prepareRule
  rw [pendingRule_congr hretired]
  cases hpending : pendingRule rule s.active.retired with
  | none => exact rfl
  | some pending =>
    obtain ⟨hparent, -, hmem⟩ := pendingRule_eq_some hpending
    have hvalid' : ∀ stem ∈ pending.stems, validateStem stem = .ok stem := by
      intro stem hstem
      refine hvalid stem ?_
      rcases List.mem_cons.mp hstem with rfl | hstem
      · rw [hparent]
        exact List.mem_cons_self
      · exact List.mem_cons_of_mem _ ((hmem stem).mp hstem).1
    obtain ⟨audit, haudit⟩ := auditRule_ok rt s.tables hvalid'
    simp only [wp_bind, wp_get]
    split
    · rename_i hfiles
      rw [wp_bind]
      refine wp_ofExcept (fun audit' haudit' => ?_) (fun e he => ?_)
      · split
        · rename_i hsafe
          exact absurd ⟨pending, hpending, hfiles, haudit', hsafe⟩ (hskip audit')
        · exact rfl
      · cases haudit.symm.trans he
    · exact rfl

theorem prepareRule_selected_wp {Q : Store C J → Prop} {E : ContainmentError → Store C J → Prop}
    {K : Store C J → Prop}
    (hretired : ∀ child ∈ rule.children, child ∈ retired ↔ child ∈ s.active.retired)
    (hselected : Selected rt rule s.active audit)
    (h : wp (prepareLocalRule rt audit) (fun _ => Q) E K s) :
    wp (prepareRule rt false retired rule) (fun _ => Q) E K s := by
  obtain ⟨pending, hpending, hfiles, haudit, hsafe⟩ := hselected
  unfold prepareRule
  rw [pendingRule_congr hretired, hpending]
  have hfiles' : hasRequiredFiles s.tables pending = true := hfiles
  have haudit' : auditRule rt s.tables pending = .ok audit := haudit
  simp only [wp_bind, wp_get, hfiles', haudit', if_true]
  refine wp_ofExcept (fun audit' heq => ?_) (fun e he => by cases he)
  cases heq
  simp only [hsafe, if_true, Bool.false_eq_true, if_false, wp_bind, wp_pure]
  exact h

theorem pendingRule_stems {pending : ContainmentRule}
    (h : pendingRule rule retired = some pending) : pending.stems ⊆ rule.stems := by
  obtain ⟨hparent, -, hmem⟩ := pendingRule_eq_some h
  intro stem hstem
  rcases List.mem_cons.mp hstem with rfl | hstem
  · rw [hparent]
    exact List.mem_cons_self
  · exact List.mem_cons_of_mem _ ((hmem stem).mp hstem).1

variable (hrt : RoundTrips rt) (hvalid : ∀ stem ∈ rule.stems, validateStem stem = .ok stem)

include hrt hvalid

theorem Planned.selected_again (h : Planned rt rule a plan) (hb : Progress plan a b) :
    ∃ audit, Selected rt rule b audit ∧ audit.parent = plan.parent
      ∧ audit.stems = plan.children := by
  obtain ⟨audit, ⟨pending, hpending, hfiles, haudit, hsafe⟩, hparent, hchildren⟩ := h.selected
  obtain ⟨hp, hne, -⟩ := pendingRule_eq_some hpending
  obtain ⟨hparent', hstems', -⟩ := auditRule_spec haudit hne
  have haudited := h.plan.staged.audited_again hrt h.plan.audited (hb.mixed h.plan)
  obtain ⟨audit', haudit'⟩ := auditRule_ok rt b.tables
    (fun stem hstem => hvalid stem (pendingRule_stems hpending hstem))
  obtain ⟨hparent'', hstems'', hiff⟩ := auditRule_spec haudit' hne
  -- the children of both audits are the pending ones, sorted
  have hsame : plan.children = sorted pending.children := hchildren.trans hstems'
  have hsameParent : plan.parent = pending.parent := hparent.trans hparent'
  rw [hsameParent, hsame] at haudited
  refine ⟨audit', ⟨pending, ?_, ?_, haudit', hiff.mpr haudited⟩, ?_, ?_⟩
  · rw [hb.retired_eq]
    exact hpending
  · unfold hasRequiredFiles
    rw [List.all_eq_true]
    intro contract _
    rw [List.all_eq_true]
    intro stem hstem
    refine haudited.exists_file contract.subdir ?_
    rcases List.mem_cons.mp hstem with rfl | hstem
    · exact List.mem_cons_self
    · exact List.mem_cons_of_mem _ ((sorted_perm _).mem_iff.mpr hstem)
  · rw [hparent'', hsameParent]
  · rw [hsame]
    exact hstems''

/-- **The turn of a rule**, from any point inside it at which no table of a retired child is left,
ends where the uninterrupted turn does, or cannot compare the snapshots and changes nothing. -/
theorem prepareRule_wp (hnodup : rule.stems.Nodup)
    (hturn : Turn rt rule a c) (h : During rt rule a s.active)
    (hclean : ∀ child ∈ rule.children, child ∈ s.active.retired → child ∉ a.retired →
      ∀ subdir, s.tables subdir child = none)
    (hretired : ∀ child ∈ rule.children, child ∈ retired ↔ child ∈ s.active.retired) :
    wp (prepareRule rt false retired rule)
      (fun _ s' => s'.active = c ∧ RuleComparable rt rule s.active)
      (fun _ s' => s'.active = s.active ∧ ¬ RuleComparable rt rule s.active)
      (fun s' => During rt rule a s'.active) s := by
  -- the turn is over
  have hover : s.active = c → wp (prepareRule rt false retired rule)
      (fun _ s' => s'.active = c ∧ RuleComparable rt rule s.active)
      (fun _ s' => s'.active = s.active ∧ ¬ RuleComparable rt rule s.active)
      (fun s' => During rt rule a s'.active) s := by
    intro heq
    have hnot : ∀ audit, ¬ Selected rt rule s.active audit := by
      rw [heq]
      exact fun audit => hturn.not_selected hvalid hnodup
    refine wp_mono ?_ (fun _ _ he => he.elim) (fun _ hk => hk.elim)
      (prepareRule_skip_wp hvalid hretired hnot)
    rintro _ s' rfl
    exact ⟨heq, fun audit hselected => absurd hselected (hnot audit)⟩
  -- the turn is on its way to the retirements
  have hprogress : ∀ plan, Planned rt rule a plan → Progress plan a s.active →
      wp (prepareRule rt false retired rule)
        (fun _ s' => s'.active = c ∧ RuleComparable rt rule s.active)
        (fun _ s' => s'.active = s.active ∧ ¬ RuleComparable rt rule s.active)
        (fun s' => During rt rule a s'.active) s := by
    intro plan hplan hb
    have hc : plan.finish a = c := (Turn.prepare plan hplan).unique hturn
    obtain ⟨audit, hselected, hparent, hstems⟩ := hplan.selected_again hrt hvalid hb
    obtain ⟨hchecked, -, -⟩ := hselected.checked hvalid hnodup
    have hcondition : RuleComparable rt rule s.active
        ↔ SnapshotsComparable rt s.tables plan.parent plan.children := by
      constructor
      · intro hall
        have hcmp := hall audit hselected
        rwa [hparent, hstems] at hcmp
      · intro hcmp audit' hselected'
        cases hselected.unique hselected'
        rw [hparent, hstems]
        exact hcmp
    refine prepareRule_selected_wp hretired hselected (wp_mono ?_ ?_ ?_
      (prepareLocalRule_progress_wp hrt hplan.plan hb hparent hstems hchecked.safe hchecked.valid))
    · exact fun _ s' hq => ⟨hq.1.trans hc, hcondition.mpr hq.2⟩
    · exact fun _ s' he => ⟨he.1, fun hcmp => he.2 (hcondition.mp hcmp)⟩
    · rintro s' (hk | hk)
      · exact .progress plan hplan hk
      · exact .recorded plan hplan hk
  obtain ⟨b, hs, h⟩ : ∃ b, s.active = b ∧ During rt rule a b := ⟨_, rfl, h⟩
  cases h with
  | before =>
    cases hturn with
    | skip _ => exact hover hs
    | prepare plan hplan => exact hprogress plan hplan (hs ▸ Progress.refl plan a)
  | progress plan hplan hb => exact hprogress plan hplan (hs ▸ hb)
  | recorded plan hplan hb =>
    apply hover
    obtain ⟨-, hmem⟩ := hplan.regions hvalid hnodup
    rw [hs, ← (Turn.prepare plan hplan).unique hturn]
    refine hb.eq_finish hplan.plan.parent_notMem ?_
    intro subdir child hchild
    obtain ⟨hrule, hnew⟩ := (hmem child).mp hchild
    have hgone := hclean child hrule ?_ hnew subdir
    · rw [← hs]
      exact hgone
    · rw [hs, retired_recorded hb.retirements, hplan.plan.mem_retired]
      exact Or.inl hchild

omit hrt hvalid

/-! ## The turns of all rules -/

/-- The snapshots of all selected rules can be compared. -/
def AllComparable (rt : Runtime X C J) (rules : List ContainmentRule) (a : Active C J) : Prop :=
  ∀ rule ∈ rules, RuleComparable rt rule a

/-- No table is left of a child that has been retired since `a`. -/
def NoLeftovers (rules : List ContainmentRule) (a b : Active C J) : Prop :=
  ∀ rule ∈ rules, ∀ child ∈ rule.children, child ∈ b.retired → child ∉ a.retired →
    ∀ subdir, b.tables subdir child = none

theorem AgreeOn.ruleComparable (h : AgreeOn rule a b)
    (hvalid : ∀ stem ∈ rule.stems, validateStem stem = .ok stem) (hnodup : rule.stems.Nodup) :
    RuleComparable rt rule b ↔ RuleComparable rt rule a := by
  refine forall_congr' (fun audit => ?_)
  rw [h.selected]
  refine imp_congr_right (fun hselected => ?_)
  obtain ⟨-, hparent, hmem⟩ := hselected.checked hvalid hnodup
  refine SnapshotsComparable.congr ?_ ?_
  · rw [hparent]
    exact h.tables .polygons _ List.mem_cons_self
  · intro child hchild
    exact h.tables .polygons child (List.mem_cons_of_mem _ ((hmem child).mp hchild).1)

theorem DisjointRules.mem (hrules : DisjointRules rules) (hrule : rule ∈ rules) :
    (∀ stem ∈ rule.stems, validateStem stem = .ok stem) ∧ rule.stems.Nodup :=
  ⟨hrules.valid rule hrule, (List.nodup_flatMap.mp hrules.nodup).1 rule hrule⟩

omit [DecidableEq X] in
theorem AgreeOn.trans (h : AgreeOn rule a b) (h' : AgreeOn rule b c) : AgreeOn rule a c where
  tables := fun subdir stem hstem => (h'.tables subdir stem hstem).trans (h.tables subdir stem hstem)
  retired := fun child hchild => (h'.retired child hchild).trans (h.retired child hchild)

omit [DecidableEq X] in
theorem AgreeOn.symm (h : AgreeOn rule a b) : AgreeOn rule b a where
  tables := fun subdir stem hstem => (h.tables subdir stem hstem).symm
  retired := fun child hchild => (h.retired child hchild).symm

variable (hrt : RoundTrips rt)

include hrt

theorem firstTurn_wp (hrules : DisjointRules (rule :: rules))
    (hturn : Turn rt rule a b) (h : Within rt (rule :: rules) a s.active)
    (hclean : NoLeftovers (rule :: rules) a s.active)
    (hretired : ∀ child ∈ rule.children, child ∈ retired ↔ child ∈ s.active.retired) :
    wp (prepareRule rt false retired rule)
      (fun _ s' => Within rt rules b s'.active ∧ NoLeftovers rules b s'.active
        ∧ RuleComparable rt rule s.active ∧ ∀ other ∈ rules, AgreeOn other s.active s'.active)
      (fun _ s' => Within rt (rule :: rules) a s'.active ∧ s'.active = s.active
        ∧ ¬ RuleComparable rt rule s.active)
      (fun s' => Within rt (rule :: rules) a s'.active) s := by
  obtain ⟨hvalid, hnodup, hrest, -⟩ := hrules.head
  obtain ⟨d, hs, hwithin⟩ : ∃ d, s.active = d ∧ Within rt (rule :: rules) a d := ⟨_, rfl, h⟩
  cases hwithin with
  | here hduring =>
    rw [← hs] at hduring
    refine wp_mono ?_ ?_ (fun _ hk => .here hk)
      (prepareRule_wp hrt hvalid hnodup hturn hduring (hclean rule List.mem_cons_self) hretired)
    · rintro _ s₁ ⟨hb, hcmp⟩
      rw [hb]
      refine ⟨Within.start rt rules b, ?_, hcmp, ?_⟩
      · exact fun _ _ child _ hmem hnot => absurd hmem hnot
      · intro other hother
        exact (hduring.agreeOn_tail hrules hother).symm.trans
          (hturn.during.agreeOn_tail hrules hother)
    · rintro _ s₁ ⟨hsame, hno⟩
      refine ⟨?_, hsame, hno⟩
      rw [hsame]
      exact .here hduring
  | @later _ _ _ b' _ hturn' hlater =>
    cases hturn'.unique hturn
    rw [← hs] at hlater
    have hagree : AgreeOn rule b s.active := hlater.agreeOn_head hrules
    have hskip : ∀ audit, ¬ Selected rt rule s.active audit := by
      intro audit hselected
      exact hturn.not_selected hvalid hnodup (hagree.selected.mp hselected)
    refine wp_mono ?_ (fun _ _ he => he.elim) (fun _ hk => hk.elim)
      (prepareRule_skip_wp hvalid hretired hskip)
    rintro _ s₁ rfl
    refine ⟨hlater, ?_, fun audit hselected => absurd hselected (hskip audit), ?_⟩
    · intro other hother child hchild hmem hnew
      refine hclean other (List.mem_cons_of_mem _ hother) child hchild hmem ?_
      rw [← (hturn.during.agreeOn_tail hrules hother).retired child hchild]
      exact hnew
    · exact fun other _ => ⟨fun _ _ _ => rfl, fun _ _ => Iff.rfl⟩

/-- **The turns of all rules**, from any point inside them at which no table of a retired child is
left, end where the uninterrupted turns do, or cannot compare the snapshots of some rule. -/
theorem prepareRules_wp (hrules : DisjointRules rules)
    (hturns : Turns rt rules a c) (h : Within rt rules a s.active)
    (hclean : NoLeftovers rules a s.active)
    (hretired : ∀ rule ∈ rules, ∀ child ∈ rule.children,
      child ∈ retired ↔ child ∈ s.active.retired) :
    wp (prepareRules rt false retired rules)
      (fun _ s' => s'.active = c ∧ AllComparable rt rules s.active)
      (fun _ s' => Within rt rules a s'.active ∧ ¬ AllComparable rt rules s'.active
        ∧ ¬ AllComparable rt rules s.active)
      (fun s' => Within rt rules a s'.active) s := by
  induction rules generalizing a s with
  | nil =>
    obtain ⟨b, hs, h⟩ : ∃ b, s.active = b ∧ Within rt [] a b := ⟨_, rfl, h⟩
    cases h
    cases hturns
    exact ⟨hs, by simp [AllComparable]⟩
  | cons rule rules ih =>
    obtain ⟨-, -, hrest, -⟩ := hrules.head
    cases hturns with
    | @cons _ _ _ b _ hturn hturns =>
      rw [prepareRules, wp_bind]
      refine wp_mono ?_ ?_ (fun _ hk => hk)
        (firstTurn_wp hrt hrules hturn h hclean (hretired rule List.mem_cons_self))
      · rintro _ s₁ ⟨hwithin, hclean₁, hrule, hagree⟩
        -- the other rules are compared as before the first turn
        have hothers : AllComparable rt rules s₁.active ↔ AllComparable rt rules s.active := by
          refine forall₂_congr (fun other hother => ?_)
          obtain ⟨hvalid, hnodup⟩ := hrest.mem hother
          exact (hagree other hother).ruleComparable hvalid hnodup
        have hretired₁ : ∀ other ∈ rules, ∀ child ∈ other.children,
            child ∈ retired ↔ child ∈ s₁.active.retired := by
          intro other hother child hchild
          rw [(hagree other hother).retired child hchild]
          exact hretired other (List.mem_cons_of_mem _ hother) child hchild
        simp only [wp_bind, wp_pure]
        refine wp_mono ?_ ?_ (fun _ hk => .later hturn hk)
          (ih hrest hturns hwithin hclean₁ hretired₁)
        · rintro _ s₂ ⟨hc, hall⟩
          refine ⟨hc, ?_⟩
          intro other hother
          rcases List.mem_cons.mp hother with rfl | hother
          · exact hrule
          · exact hothers.mp hall other hother
        · rintro _ s₂ ⟨hwithin₂, hno, hno'⟩
          refine ⟨.later hturn hwithin₂, fun hall => hno ?_, fun hall => hno' ?_⟩
          · exact fun other hother => hall other (List.mem_cons_of_mem _ hother)
          · exact hothers.mpr (fun other hother => hall other (List.mem_cons_of_mem _ hother))
      · rintro _ s₁ ⟨hwithin, hsame, hno⟩
        rw [hsame]
        have hno' : ¬ AllComparable rt (rule :: rules) s.active :=
          fun hall => hno (hall rule List.mem_cons_self)
        exact ⟨h, hno', hno'⟩

/-! ## The uninterrupted run -/

theorem prepareRule_turn_wp
    (hvalid : ∀ stem ∈ rule.stems, validateStem stem = .ok stem) (hnodup : rule.stems.Nodup)
    (hretired : ∀ child ∈ rule.children, child ∈ retired ↔ child ∈ s.active.retired) :
    wp (prepareRule rt false retired rule)
      (fun _ s' => Turn rt rule s.active s'.active) (fun _ _ => True) (fun _ => True) s := by
  by_cases hselected : ∃ audit, Selected rt rule s.active audit
  · obtain ⟨audit, hselected⟩ := hselected
    obtain ⟨hchecked, -, -⟩ := hselected.checked hvalid hnodup
    refine prepareRule_selected_wp hretired hselected ?_
    by_cases hplan : ∃ plan : Plan X C J, plan.parent = audit.parent ∧ plan.children = audit.stems
        ∧ plan.For rt s.active
    · obtain ⟨plan, hparent, hchildren, hplan⟩ := hplan
      refine wp_returned ?_
        (prepareLocalRule_progress_wp hrt hplan (Progress.refl plan s.active) hparent.symm
          hchildren.symm hchecked.safe hchecked.valid)
      rintro _ s' ⟨hfinish, -⟩
      rw [hfinish]
      exact .prepare plan ⟨⟨audit, hselected, hparent, hchildren⟩, hplan⟩
    · refine wp_returned ?_
        (prepareLocalRule_hasPlan_wp hchecked)
      exact fun _ _ hyes => absurd hyes hplan
  · have hskip : ∀ audit, ¬ Selected rt rule s.active audit :=
      fun audit h => hselected ⟨audit, h⟩
    refine wp_returned ?_ (prepareRule_skip_wp hvalid hretired hskip)
    rintro _ s' rfl
    exact .skip hskip

/-- **An uninterrupted run** is a sequence of turns. -/
theorem prepareRules_turns_wp (hrules : DisjointRules rules)
    (hretired : ∀ rule ∈ rules, ∀ child ∈ rule.children,
      child ∈ retired ↔ child ∈ s.active.retired) :
    wp (prepareRules rt false retired rules)
      (fun _ s' => Turns rt rules s.active s'.active) (fun _ _ => True) (fun _ => True) s := by
  induction rules generalizing s with
  | nil => exact .nil s.active
  | cons rule rules ih =>
    obtain ⟨hvalid, hnodup, hrest, -⟩ := hrules.head
    simp only [prepareRules, wp_bind, wp_pure]
    refine wp_returned ?_ (prepareRule_turn_wp hrt hvalid hnodup (hretired rule List.mem_cons_self))
    intro _ s₁ hturn
    have hretired₁ : ∀ other ∈ rules, ∀ child ∈ other.children,
        child ∈ retired ↔ child ∈ s₁.active.retired := by
      intro other hother child hchild
      rw [(hturn.during.agreeOn_tail hrules hother).retired child hchild]
      exact hretired other (List.mem_cons_of_mem _ hother) child hchild
    exact wp_mono (fun _ _ hturns => .cons hturn hturns) (fun _ _ _ => trivial)
      (fun _ _ => trivial) (ih hrest hretired₁)

omit hrt

theorem Turns.within (h : Turns rt rules a b) : Within rt rules a b := by
  induction h with
  | nil a => exact .done a
  | cons hturn _ ih => exact .later hturn ih

theorem Turns.noLeftovers (hrules : DisjointRules rules) (h : Turns rt rules a c) :
    NoLeftovers rules a c := by
  induction h with
  | nil a => exact fun _ hrule => by cases hrule
  | @cons rule rules a b c hturn hturns ih =>
    obtain ⟨hvalid, hnodup, hrest, -⟩ := hrules.head
    intro other hother child hchild hmem hnew subdir
    rcases List.mem_cons.mp hother with rfl | hother
    · have hagree := hturns.within.agreeOn_head hrules
      rw [hagree.retired child hchild] at hmem
      rw [hagree.tables subdir child (List.mem_cons_of_mem _ hchild)]
      cases hturn with
      | skip _ => exact absurd hmem hnew
      | prepare plan hplan =>
        have heq : (plan.finish a).retired = plan.retired.map Prod.fst := retired_recorded rfl
        rw [heq, hplan.plan.mem_retired] at hmem
        exact Plan.finish_child hplan.plan.parent_notMem a subdir (hmem.resolve_right hnew)
    · refine ih hrest other hother child hchild hmem ?_ subdir
      rw [(hturn.during.agreeOn_tail hrules hother).retired child hchild]
      exact hnew

/-! ## Tables of retired children stay -/

/-- Children that are retired stay so, and their tables stay as they are. Of the other regions only
`children` may be retired. -/
structure KeepsRetired (parents children : List String) (a b : Active C J) : Prop where
  retired : a.retired ⊆ b.retired
  fresh : ∀ child ∈ b.retired, child ∈ a.retired ∨ child ∈ children
  tables : ∀ child ∈ a.retired, child ∉ parents → ∀ subdir,
    b.tables subdir child = a.tables subdir child

omit [DecidableEq X] in
theorem KeepsRetired.refl (parents children : List String) (a : Active C J) :
    KeepsRetired parents children a a :=
  ⟨fun _ h => h, fun _ h => Or.inl h, fun _ _ _ _ => rfl⟩

omit [DecidableEq X] in
theorem KeepsRetired.trans (h : KeepsRetired parents children a b)
    (h' : KeepsRetired parents children b c) : KeepsRetired parents children a c where
  retired := fun _ hmem => h'.retired (h.retired hmem)
  fresh := by
    intro child hmem
    rcases h'.fresh child hmem with hmem | hnew
    · exact h.fresh child hmem
    · exact Or.inr hnew
  tables := fun child hmem hparent subdir =>
    (h'.tables child (h.retired hmem) hparent subdir).trans (h.tables child hmem hparent subdir)

omit [DecidableEq X] in
theorem KeepsRetired.mono {parents children parents' children' : List String}
    (h : KeepsRetired parents children a b) (hparents : parents ⊆ parents')
    (hchildren : children ⊆ children') : KeepsRetired parents' children' a b where
  retired := h.retired
  fresh := fun child hmem => (h.fresh child hmem).imp id (fun hnew => hchildren hnew)
  tables := fun child hmem hparent => h.tables child hmem (fun hp => hparent (hparents hp))

omit [DecidableEq X] in
theorem KeepsRetired.step (h : KeepsRetired parents children a b)
    (hretirements : c.retirements = b.retirements)
    (htables : ∀ child ∈ a.retired, child ∉ parents → ∀ subdir,
      c.tables subdir child = b.tables subdir child) : KeepsRetired parents children a c := by
  have hretired : c.retired = b.retired := by
    unfold Active.retired
    rw [hretirements]
  refine ⟨by rw [hretired]; exact h.retired, by rw [hretired]; exact h.fresh, ?_⟩
  intro child hmem hparent subdir
  rw [htables child hmem hparent subdir]
  exact h.tables child hmem hparent subdir

theorem prepareLocalRule_keepsRetired_wp (h : Checked rt audit s.active) :
    wp (prepareLocalRule rt audit)
      (fun _ s' => KeepsRetired [audit.parent] audit.stems s.active s'.active)
      (fun _ s' => KeepsRetired [audit.parent] audit.stems s.active s'.active)
      (fun s' => KeepsRetired [audit.parent] audit.stems s.active s'.active) s := by
  have hrefl := KeepsRetired.refl [audit.parent] audit.stems s.active
  simp only [prepareLocalRule, wp_bind, wp_get]
  refine wp_ofExcept (fun retired hload => ?_) (fun _ _ => hrefl)
  rw [if_neg (h.not_subset hload)]
  simp only [wp_bind, wp_pure]
  refine wp_mono ?_ (fun _ s' he => by rw [he.1]; exact hrefl)
    (fun s' hk => by rw [hk]; exact hrefl) (stageRule_wp h.safe h.valid s)
  rintro _ s₁ ⟨hactive, polygonRows, files, -, hcache⟩
  have htables : s₁.tables = s.tables := congrArg Active.tables hactive
  have hkeep₁ : KeepsRetired [audit.parent] audit.stems s.active s₁.active := by
    rw [hactive]
    exact hrefl
  -- installing touches the parent's tables only
  have hinstalling : ∀ s₂ : Store C J, Installing audit.parent files s₁ s₂ →
      KeepsRetired [audit.parent] audit.stems s.active s₂.active := by
    intro s₂ h₂
    refine hkeep₁.step h₂.retirements ?_
    intro child _ hparent subdir
    refine (h₂.tables subdir child).resolve_right ?_
    rintro ⟨rfl, -⟩
    exact hparent List.mem_cons_self
  refine wp_mono ?_ (fun _ _ he => he.elim) hinstalling
    (quarantineAndInstall_installing audit.parent audit.stems files tableContracts s₁ hcache
      (fun subdir stem hstem => by rw [htables]; exact h.audited.exists_file subdir hstem))
  rintro _ s₂ ⟨h₂, -⟩
  have hkeep₂ := hinstalling s₂ h₂
  refine wp_mono ?_ (fun _ s' he => by rw [he.1]; exact hkeep₂)
    (fun s' hk => by rw [hk]; exact hkeep₂) (updateProcessedManifest_wp audit.parent _ s₂)
  rintro _ s₃ ⟨processed, -, hactive₃, -⟩
  have hkeep₃ : KeepsRetired [audit.parent] audit.stems s.active s₃.active := by
    rw [hactive₃]
    exact hkeep₂.step rfl (fun _ _ _ _ => rfl)
  refine wp_mono ?_ (fun _ s' he => by rw [he.1]; exact hkeep₃)
    (fun s' hk => by rw [hk]; exact hkeep₃) (updateAugmentationManifest_wp audit.parent _ s₃)
  rintro _ s₄ ⟨augmentation, -, hactive₄, -⟩
  have hkeep₄ : KeepsRetired [audit.parent] audit.stems s.active s₄.active := by
    rw [hactive₄]
    exact hkeep₃.step rfl (fun _ _ _ _ => rfl)
  refine wp_mono ?_ (fun _ s' he => by rw [he.1]; exact hkeep₄)
    (fun s' hk => by rw [hk]; exact hkeep₄) (persistPreparedRule_active_wp audit.parent _ s₄)
  rintro _ s₅ ⟨old, hold, hactive₅⟩
  -- the retirements only grow, by the rule's children
  have hkeep₅ : KeepsRetired [audit.parent] audit.stems s.active s₅.active := by
    have hold' : s₄.active.retired = old.map Prod.fst := by
      unfold Active.retired
      rw [show s₄.active.retirements = s₄.retirements from rfl, hold]
    have hmem : ∀ child, child ∈ s₅.active.retired
        ↔ child ∈ audit.stems ∨ child ∈ s₄.active.retired := by
      intro child
      rw [hold', hactive₅]
      exact mem_foldl_recordRetired _ _ _ _
    refine hkeep₄.trans ⟨fun child h => (hmem child).mpr (Or.inr h), ?_, ?_⟩
    · exact fun child h => ((hmem child).mp h).symm
    · intro child _ _ subdir
      rw [hactive₅]
  -- the children that are deleted were not retired at the start
  have hdeleting : ∀ s₆ : Store C J, Deleting audit.stems s₅.active s₆.active →
      KeepsRetired [audit.parent] audit.stems s.active s₆.active := by
    intro s₆ h₆
    refine hkeep₅.step h₆.retirements ?_
    intro child hmem _ subdir
    refine (h₆.tables subdir child).resolve_right ?_
    rintro ⟨hchild, -⟩
    exact h.fresh child hchild hmem
  exact wp_mono (fun _ s₆ h₆ => hdeleting s₆ h₆.1) (fun _ _ he => he.elim) hdeleting
    (removeActiveChildren_deleting audit.stems _ (fun _ hx => hx) s₅)

theorem prepareRule_keepsRetired_wp
    (hvalid : ∀ stem ∈ rule.stems, validateStem stem = .ok stem) (hnodup : rule.stems.Nodup)
    (hretired : ∀ child ∈ rule.children, child ∈ retired ↔ child ∈ s.active.retired) :
    wp (prepareRule rt false retired rule)
      (fun _ s' => KeepsRetired [rule.parent] rule.children s.active s'.active)
      (fun _ s' => KeepsRetired [rule.parent] rule.children s.active s'.active)
      (fun s' => KeepsRetired [rule.parent] rule.children s.active s'.active) s := by
  by_cases hselected : ∃ audit, Selected rt rule s.active audit
  · obtain ⟨audit, hselected⟩ := hselected
    obtain ⟨hchecked, hparent, hmem⟩ := hselected.checked hvalid hnodup
    have hmono : ∀ s' : Store C J, KeepsRetired [audit.parent] audit.stems s.active s'.active →
        KeepsRetired [rule.parent] rule.children s.active s'.active := by
      intro s' hkeep
      refine hkeep.mono ?_ (fun child hchild => ((hmem child).mp hchild).1)
      rw [hparent]
      exact fun _ h => h
    exact prepareRule_selected_wp hretired hselected (wp_mono (fun _ => hmono) (fun _ => hmono)
      hmono (prepareLocalRule_keepsRetired_wp hchecked))
  · have hskip : ∀ audit, ¬ Selected rt rule s.active audit :=
      fun audit h => hselected ⟨audit, h⟩
    refine wp_mono ?_ (fun _ _ he => he.elim) (fun _ hk => hk.elim)
      (prepareRule_skip_wp hvalid hretired hskip)
    rintro _ s' rfl
    exact KeepsRetired.refl _ _ _

/-- **Tables of retired children stay**, whatever state a run starts from and wherever it is
stopped. -/
theorem prepareRules_keepsRetired_wp (hrules : DisjointRules rules)
    (hretired : ∀ rule ∈ rules, ∀ child ∈ rule.children,
      child ∈ retired ↔ child ∈ s.active.retired) :
    wp (prepareRules rt false retired rules)
      (fun _ s' => KeepsRetired (rules.map ContainmentRule.parent)
        (rules.flatMap ContainmentRule.children) s.active s'.active)
      (fun _ s' => KeepsRetired (rules.map ContainmentRule.parent)
        (rules.flatMap ContainmentRule.children) s.active s'.active)
      (fun s' => KeepsRetired (rules.map ContainmentRule.parent)
        (rules.flatMap ContainmentRule.children) s.active s'.active) s := by
  induction rules generalizing s with
  | nil => exact KeepsRetired.refl _ _ _
  | cons rule rules ih =>
    obtain ⟨hvalid, hnodup, hrest, hdisjoint⟩ := hrules.head
    have hfirst : ∀ s' : Store C J, KeepsRetired [rule.parent] rule.children s.active s'.active →
        KeepsRetired ((rule :: rules).map ContainmentRule.parent)
          ((rule :: rules).flatMap ContainmentRule.children) s.active s'.active := by
      intro s' hkeep
      exact hkeep.mono (List.cons_subset_cons _ (List.nil_subset _)) (List.subset_append_left _ _)
    simp only [prepareRules, wp_bind, wp_pure]
    refine wp_mono ?_ (fun _ => hfirst) hfirst
      (prepareRule_keepsRetired_wp hvalid hnodup (hretired rule List.mem_cons_self))
    intro _ s₁ hkeep
    have hretired₁ : ∀ other ∈ rules, ∀ child ∈ other.children,
        child ∈ retired ↔ child ∈ s₁.active.retired := by
      intro other hother child hchild
      rw [hretired other (List.mem_cons_of_mem _ hother) child hchild]
      refine ⟨fun hmem => hkeep.retired hmem, fun hmem => ?_⟩
      refine (hkeep.fresh child hmem).resolve_right (fun hown => ?_)
      exact hdisjoint child (List.mem_cons_of_mem _ hown)
        (List.mem_flatMap.mpr ⟨other, hother, List.mem_cons_of_mem _ hchild⟩)
    have hthen : ∀ s' : Store C J, KeepsRetired (rules.map ContainmentRule.parent)
          (rules.flatMap ContainmentRule.children) s₁.active s'.active →
        KeepsRetired ((rule :: rules).map ContainmentRule.parent)
          ((rule :: rules).flatMap ContainmentRule.children) s.active s'.active := by
      intro s' hkeep'
      exact (hfirst s₁ hkeep).trans (hkeep'.mono (List.subset_cons_self _ _)
        (List.subset_append_right _ _))
    exact wp_mono (fun _ => hthen) (fun _ => hthen) hthen (ih hrest hretired₁)

end OsmPolygonWikidata.Containment
