import OsmPolygonWikidata.Containment.Convergence
import OsmPolygonWikidata.Containment.Quarantine

/-! # Interrupted containment retirement

Runs of `prepare_safe_rules` can be stopped in front of every step, and each run starts from what
the one before has left. The next run that returns leaves the active files of one uninterrupted run
exactly when no table is left of a child that is recorded as retired, and the snapshots of the
pending rules can be compared.
-/

namespace OsmPolygonWikidata.Containment

open Durable Python
open Prog (wp Meets wp_bind wp_exec wp_get wp_mono wp_run)

section

variable {X C J : Type} [DecidableEq X] {rt : Runtime X C J} {t s : Store C J} {v : Active C J}
  {a b : Active C J} {rules : List ContainmentRule}

variable {old : List (String × String × String)}

theorem Within.load (h : Within rt rules a b)
    (hload : loadRetirementPayload a.retirements = .ok old) :
    ∃ new, loadRetirementPayload b.retirements = .ok new := by
  have hduring : ∀ {rule : ContainmentRule} {a b : Active C J}
      {old : List (String × String × String)}, During rt rule a b →
      loadRetirementPayload a.retirements = .ok old →
      ∃ new, loadRetirementPayload b.retirements = .ok new := by
    intro rule a b old hduring hload
    cases hduring with
    | before => exact ⟨old, hload⟩
    | progress plan _ hb =>
      rw [hb.retirements]
      exact ⟨old, hload⟩
    | recorded plan _ hb =>
      rw [hb.retirements]
      exact ⟨plan.retired, rfl⟩
  induction h generalizing old with
  | done a => exact ⟨old, hload⟩
  | here h => exact hduring h hload
  | later hturn _ ih =>
    obtain ⟨new, hnew⟩ := hduring hturn.during hload
    exact ih hnew

theorem loadRetiredChildren_ok (hload : loadRetirementPayload s.active.retirements = .ok old) :
    loadRetiredChildren s = .ok s.active.retired := by
  have hload' : loadRetirementPayload s.retirements = .ok old := hload
  unfold loadRetiredChildren Active.retired
  rw [hload', hload]
  rfl

/-- **A run from inside the turns.** -/
theorem prepareSafeRules_wp (hrt : RoundTrips rt)
    (hload : loadRetirementPayload t.active.retirements = .ok old)
    (hturns : Turns rt containmentRules t.active v)
    (h : Within rt containmentRules t.active s.active)
    (hclean : NoLeftovers containmentRules t.active s.active) :
    wp (prepareSafeRules rt false)
      (fun _ s' => s'.active = v ∧ AllComparable rt containmentRules s.active)
      (fun _ s' => Within rt containmentRules t.active s'.active
        ∧ ¬ AllComparable rt containmentRules s'.active
        ∧ ¬ AllComparable rt containmentRules s.active)
      (fun s' => Within rt containmentRules t.active s'.active) s := by
  obtain ⟨new, hnew⟩ := h.load hload
  simp only [prepareSafeRules, wp_bind, wp_get]
  rw [loadRetiredChildren_ok hnew]
  exact prepareRules_wp hrt containmentRules_disjoint hturns h hclean (fun _ _ _ _ => Iff.rfl)

variable (rt) in
theorem prepareSafeRules_keepsRetired_wp (s : Store C J) : wp (prepareSafeRules rt false)
      (fun _ s' => KeepsRetired (containmentRules.map ContainmentRule.parent)
        (containmentRules.flatMap ContainmentRule.children) s.active s'.active)
      (fun _ s' => KeepsRetired (containmentRules.map ContainmentRule.parent)
        (containmentRules.flatMap ContainmentRule.children) s.active s'.active)
      (fun s' => KeepsRetired (containmentRules.map ContainmentRule.parent)
        (containmentRules.flatMap ContainmentRule.children) s.active s'.active) s := by
  simp only [prepareSafeRules, wp_bind, wp_get]
  refine wp_ofExcept (fun retired hretired => ?_) (fun _ _ => KeepsRetired.refl _ _ _)
  refine prepareRules_keepsRetired_wp containmentRules_disjoint ?_
  intro rule _ child _
  rw [loadRetiredChildren_eq hretired]

theorem NoLeftovers.of_later (hkeep : KeepsRetired (containmentRules.map ContainmentRule.parent)
      (containmentRules.flatMap ContainmentRule.children) a b)
    (h : NoLeftovers containmentRules t.active b) : NoLeftovers containmentRules t.active a := by
  intro rule hrule child hchild hmem hnew subdir
  have hparent : child ∉ containmentRules.map ContainmentRule.parent := by
    have hdisjoint : ∀ rule ∈ containmentRules, ∀ child ∈ rule.children,
        child ∉ containmentRules.map ContainmentRule.parent := by decide
    exact hdisjoint rule hrule child hchild
  rw [← hkeep.tables child hmem hparent subdir]
  exact h rule hrule child hchild (hkeep.retired hmem) hnew subdir

variable (rt) in
/-- What runs leave, each stopped in front of any of its steps, raising or returning. -/
inductive Interrupted (t : Store C J) : Store C J → Prop where
  | start : Interrupted t t
  | stop {s : Store C J} (n : Nat) (h : Interrupted t s) :
      Interrupted t (Prog.exec (prepareSafeRules rt false) n s).state

theorem Interrupted.within (hrt : RoundTrips rt)
    (hload : loadRetirementPayload t.active.retirements = .ok old)
    (hturns : Turns rt containmentRules t.active v) (h : Interrupted rt t s)
    (hclean : NoLeftovers containmentRules t.active s.active) :
    Within rt containmentRules t.active s.active := by
  induction h with
  | start => exact Within.start _ _ _
  | @stop s n _ ih =>
    have hkeep := wp_exec (prepareSafeRules_keepsRetired_wp rt s) n
    have hstep : NoLeftovers containmentRules t.active s.active →
        Meets _ _ _ (Prog.exec (prepareSafeRules rt false) n s) :=
      fun hcl => wp_exec (prepareSafeRules_wp hrt hload hturns (ih hcl) hcl) n
    revert hclean hkeep hstep
    cases Prog.exec (prepareSafeRules rt false) n s with
    | done _ s' =>
      intro hclean hkeep hstep
      have hs := hstep (hclean.of_later hkeep)
      have hv : s'.active = v := hs.1
      show Within rt containmentRules t.active s'.active
      rw [hv]
      exact hturns.within
    | raised _ s' =>
      intro hclean hkeep hstep
      exact (hstep (hclean.of_later hkeep)).1
    | killed s' =>
      intro hclean hkeep hstep
      exact hstep (hclean.of_later hkeep)

variable (rt) in
/-- The files after `k` runs. -/
def afterRuns (k : Nat) (s : Store C J) : Store C J :=
  (fun s => (Prog.run (prepareSafeRules rt false) s).2)^[k] s

variable (rt) in
/-- Some later run returns and leaves the active files `v`. -/
def Converges (v : Active C J) (s : Store C J) : Prop :=
  ∃ k result s', Prog.run (prepareSafeRules rt false) (afterRuns rt k s) = (.ok result, s')
    ∧ s'.active = v

variable (rt) in
/-- No table is left of a child that has been retired since the start, and the snapshots of the
rules that are to be prepared can be compared. -/
def Resumable (t s : Store C J) : Prop :=
  NoLeftovers containmentRules t.active s.active ∧ AllComparable rt containmentRules s.active

theorem turns_of_run (hrt : RoundTrips rt) {result : List PreparedRule × List RuleAudit}
    {s' : Store C J} (hrun : Prog.run (prepareSafeRules rt false) t = (.ok result, s')) :
    (∃ old, loadRetirementPayload t.active.retirements = .ok old)
      ∧ Turns rt containmentRules t.active s'.active := by
  have hwp : wp (prepareSafeRules rt false)
      (fun _ s' => (∃ old, loadRetirementPayload t.active.retirements = .ok old)
        ∧ Turns rt containmentRules t.active s'.active)
      (fun _ _ => True) (fun _ => True) t := by
    simp only [prepareSafeRules, wp_bind, wp_get]
    refine wp_ofExcept (fun retired hretired => ?_) (fun _ _ => trivial)
    have hload : ∃ old, loadRetirementPayload t.active.retirements = .ok old := by
      obtain ⟨old, hold, -⟩ := bind_eq_ok.mp hretired
      exact ⟨old, hold⟩
    refine wp_mono (fun _ _ hturns => ⟨hload, hturns⟩) (fun _ _ _ => trivial)
      (fun _ _ => trivial) (prepareRules_turns_wp hrt containmentRules_disjoint ?_)
    intro rule _ child _
    rw [loadRetiredChildren_eq hretired]
  have hmeets := wp_run hwp
  rwa [hrun] at hmeets

/-- A run from files that cannot be resumed does not leave those of the uninterrupted run, and
leaves files that cannot be resumed. -/
theorem not_resumable_run (hrt : RoundTrips rt)
    (hload : loadRetirementPayload t.active.retirements = .ok old)
    (hturns : Turns rt containmentRules t.active v) (h : Interrupted rt t s)
    (hno : ¬ Resumable rt t s) :
    ¬ Resumable rt t (Prog.run (prepareSafeRules rt false) s).2
      ∧ ∀ result s', Prog.run (prepareSafeRules rt false) s = (.ok result, s') → s'.active ≠ v := by
  by_cases hclean : NoLeftovers containmentRules t.active s.active
  · -- the snapshots cannot be compared
    have hcmp : ¬ AllComparable rt containmentRules s.active := fun hcmp => hno ⟨hclean, hcmp⟩
    have hwp := wp_run
      (prepareSafeRules_wp hrt hload hturns (h.within hrt hload hturns hclean) hclean)
    rcases hrun : Prog.run (prepareSafeRules rt false) s with ⟨e | result, s'⟩
    · rw [hrun] at hwp
      refine ⟨fun hres => hwp.2.1 hres.2, ?_⟩
      intro result s'' heq
      cases heq
    · rw [hrun] at hwp
      exact absurd hwp.2 hcmp
  · -- some table of a retired child is left
    have hwp := wp_run (prepareSafeRules_keepsRetired_wp rt s)
    have hstill : ¬ NoLeftovers containmentRules t.active
        (Prog.run (prepareSafeRules rt false) s).2.active := by
      intro hlater
      apply hclean
      rcases hrun : Prog.run (prepareSafeRules rt false) s with ⟨e | result, s'⟩
      · rw [hrun] at hwp hlater
        exact hlater.of_later hwp
      · rw [hrun] at hwp hlater
        exact hlater.of_later hwp
    refine ⟨fun hres => hstill hres.1, ?_⟩
    rintro result s' hrun rfl
    apply hstill
    rw [hrun]
    exact hturns.noLeftovers containmentRules_disjoint

/-- **When interrupted retirement converges.** After any runs, each stopped anywhere, some later
run returns and leaves the active files of one uninterrupted run exactly when no table is left of a
child that has been recorded as retired and the snapshots can be compared. -/
theorem converges_iff (hrt : RoundTrips rt) {result : List PreparedRule × List RuleAudit}
    {s₁ : Store C J} (hrun : Prog.run (prepareSafeRules rt false) t = (.ok result, s₁))
    (h : Interrupted rt t s) : Converges rt s₁.active s ↔ Resumable rt t s := by
  obtain ⟨⟨old, hload⟩, hturns⟩ := turns_of_run hrt hrun
  constructor
  · rintro ⟨k, result', s', hrun', hactive⟩
    by_contra hno
    -- what cannot be resumed stays so
    have hstay : Interrupted rt t (afterRuns rt k s) ∧ ¬ Resumable rt t (afterRuns rt k s) := by
      clear hrun' hactive
      induction k with
      | zero => exact ⟨h, hno⟩
      | succ k ih =>
        have hstep : afterRuns rt (k + 1) s
            = (Prog.run (prepareSafeRules rt false) (afterRuns rt k s)).2 :=
          Function.iterate_succ_apply' _ _ _
        obtain ⟨n, hn⟩ := Prog.exists_exec_eq_run (prepareSafeRules rt false) (afterRuns rt k s)
        rw [hstep]
        refine ⟨?_, (not_resumable_run hrt hload hturns ih.1 ih.2).1⟩
        rw [← hn]
        exact .stop n ih.1
    exact (not_resumable_run hrt hload hturns hstay.1 hstay.2).2 result' s' hrun' hactive
  · rintro ⟨hclean, hcmp⟩
    have hwp := wp_run
      (prepareSafeRules_wp hrt hload hturns (h.within hrt hload hturns hclean) hclean)
    rcases hrun' : Prog.run (prepareSafeRules rt false) s with ⟨e | result', s'⟩
    · rw [hrun'] at hwp
      exact absurd hcmp hwp.2.2
    · rw [hrun'] at hwp
      exact ⟨0, result', s', hrun', hwp.1⟩

end

namespace Example

/-- Runs over the regions, stopped in front of step `n`. -/
def runStoppedAt (n : Nat) : Store (Option (Table Empty)) Nat :=
  (Prog.exec (prepareSafeRules runtime false) n regions).state

theorem runtime_roundTrips : RoundTrips runtime := by
  intro table file h
  cases h
  rfl

theorem regions_returns : Prog.run (prepareSafeRules runtime false) regions
    = (.ok ([⟨"brandenburg-latest", ["berlin-latest"]⟩], []),
      (Prog.run (prepareSafeRules runtime false) regions).2) := rfl

theorem extractedAt_of_columns {table : Table Empty} (h : table.schema.columns = columns)
    {row : Row Empty} (hrow : row ∈ table.rows) : extractedAt row = .str "" := by
  have hnone : row "extracted_at" = none := by
    rw [← Option.not_isSome_iff_eq_none, table.columns_iff row hrow, h]
    decide
  rw [extractedAt, hnone]
  rfl

theorem columns_of_read {stem : String} {table : Table Empty}
    (h : readTable runtime ((runStoppedAt 12).tables .polygons stem) = .ok table) :
    table.schema.columns = columns := by
  by_cases hparent : stem = "brandenburg-latest"
  · subst hparent
    cases h
    rfl
  · by_cases hchild : stem = "berlin-latest"
    · subst hchild
      cases h
      rfl
    · have hnone : (runStoppedAt 12).tables .polygons stem = none := by
        have hother : (runStoppedAt 12).tables .polygons stem = regions.tables .polygons stem :=
          Function.update_of_ne hparent _ _
        rw [hother]
        exact (if_neg hparent).trans (if_neg hchild)
      rw [hnone] at h
      cases h

theorem mem_readChildren {tables : Tables (Option (Table Empty))} {subdir : Subdir}
    {children : List String} {rows : List (Row Empty)}
    (h : readChildren runtime tables subdir children = .ok rows) {row : Row Empty}
    (hrow : row ∈ rows) :
    ∃ stem table, readTable runtime (tables subdir stem) = .ok table ∧ row ∈ table.rows := by
  induction children generalizing rows with
  | nil =>
    cases h
    cases hrow
  | cons child children ih =>
    obtain ⟨table, htable, h⟩ := bind_eq_ok.mp h
    obtain ⟨rest, hrest, h⟩ := bind_eq_ok.mp h
    cases h
    rcases List.mem_append.mp hrow with hrow | hrow
    · exact ⟨child, table, htable, hrow⟩
    · exact ih hrest hrow

/-- Stopped after the first table was installed, the next run converges. -/
theorem runStoppedAt_twelve_converges :
    Converges runtime (Prog.run (prepareSafeRules runtime false) regions).2.active
      (runStoppedAt 12) := by
  refine (converges_iff runtime_roundTrips regions_returns (.stop 12 .start)).mpr ⟨?_, ?_⟩
  · intro rule _ child _ hmem
    cases hmem
  · intro rule _ audit _ table rows hread hchildren child hchild m hm _
    obtain ⟨stem, childTable, hread', hrow⟩ := mem_readChildren hchildren hchild
    rw [extractedAt_of_columns (columns_of_read hread) hm,
      extractedAt_of_columns (columns_of_read hread') hrow]
    exact ⟨_, rfl⟩

/-- Stopped after the retirement was recorded, every later run skips the rule, and the child's
tables stay active. -/
theorem runStoppedAt_fortythree_leftover : Interrupted runtime regions (runStoppedAt 43)
    ∧ Prog.run (prepareSafeRules runtime false) regions
      = (.ok ([⟨"brandenburg-latest", ["berlin-latest"]⟩], []),
        (Prog.run (prepareSafeRules runtime false) regions).2)
    ∧ ¬ Converges runtime (Prog.run (prepareSafeRules runtime false) regions).2.active
      (runStoppedAt 43) := by
  refine ⟨.stop 43 .start, rfl, ?_⟩
  rintro ⟨k, result, s', hrun, hactive⟩
  have hagain : Prog.run (prepareSafeRules runtime false) (runStoppedAt 43)
      = (.ok ([], []), runStoppedAt 43) := rfl
  have hsame : afterRuns runtime k (runStoppedAt 43) = runStoppedAt 43 := by
    refine Function.iterate_fixed ?_ k
    show (Prog.run (prepareSafeRules runtime false) (runStoppedAt 43)).2 = _
    rw [hagain]
  rw [hsame, hagain] at hrun
  cases hrun
  have htable := congrArg (fun a => (a.tables .polygons "berlin-latest").isSome) hactive
  have hleft : ((runStoppedAt 43).active.tables .polygons "berlin-latest").isSome = true := rfl
  have hgone : ((Prog.run (prepareSafeRules runtime false) regions).2.active.tables .polygons
      "berlin-latest").isSome = false := rfl
  rw [hleft, hgone] at htable
  cases htable

end Example

end OsmPolygonWikidata.Containment
