import OsmPolygonWikidata.WikidataRecovery.Transaction

/-! # When an interrupted repair transaction can be recovered

The journal's phase decides whether a recovery rolls back or forward, and each direction needs its
own files: the backups of the targets that existed, or the staged file of every target that does
not hold it yet. A clean-up removes these files before it removes the journal. After a commit that
is harmless, since the targets hold the staged contents. After a rollback it is not: the phase on
disk is still `prepared` or `committing`, and a process that dies inside the clean-up leaves a
journal that no recovery gets past.
-/

namespace OsmPolygonWikidata.WikidataRecovery

open Durable
open Prog (wp run_bind wp_attempt wp_bind wp_exec wp_get wp_imp wp_mono wp_pure wp_raise wp_ret wp_run
  wp_step)

section

variable {C H : Type} [DecidableEq H] {hash : C → H} {torn : C → C}

/-! ## Entries and files -/

/-- The entries of a transaction that replaces `rs` in `t`. -/
structure EntriesFor (hash : C → H) (t : Files C H) (rs : List (String × String))
    (entries : List (TransactionEntry H)) : Prop where
  pairs : (entries.map (fun e => (e.target, e.staged))).Perm rs
  existed : ∀ e ∈ entries, e.existed = (t.tables e.target).isSome
  original : ∀ e ∈ entries, e.originalHash = (t.tables e.target).map hash
  staged : ∀ e ∈ entries, ∃ c, t.staged e.staged = some c ∧ e.stagedHash = hash c
  targets : (entries.map TransactionEntry.target).Nodup

/-- Every target has its original or its staged content, and the backups and staged files that are
left have theirs. -/
structure FilesOk (t : Files C H) (entries : List (TransactionEntry H)) (s : Files C H) :
    Prop where
  tables : ∀ e ∈ entries, s.tables e.target = t.tables e.target
    ∨ s.tables e.target = t.staged e.staged
  backups : ∀ e ∈ entries, e.existed = true → ∀ c, s.backups e.backup = some c →
    t.tables e.target = some c
  staged : ∀ e ∈ entries, ∀ c, s.staged e.staged = some c → t.staged e.staged = some c

/-- All targets have their original content. -/
def AllOriginal (t : Files C H) (rs : List (String × String)) (s : Files C H) : Prop :=
  ∀ r ∈ rs, s.tables r.1 = t.tables r.1

/-- All targets have their staged content. -/
def AllStaged (t : Files C H) (rs : List (String × String)) (s : Files C H) : Prop :=
  ∀ r ∈ rs, s.tables r.1 = t.staged r.2

def Settled (t : Files C H) (rs : List (String × String)) (s : Files C H) : Prop :=
  AllOriginal t rs s ∨ AllStaged t rs s

/-- The same transaction directory. -/
structure SameDirectory (s s' : Files C H) : Prop where
  present : s'.present = s.present
  staged : s'.staged = s.staged
  backups : s'.backups = s.backups
  journal : s'.journal = s.journal
  others : s'.others = s.others

variable {t s s' : Files C H} {rs : List (String × String)} {entries : List (TransactionEntry H)}

omit [DecidableEq H] in
theorem SameDirectory.refl (s : Files C H) : SameDirectory s s := ⟨rfl, rfl, rfl, rfl, rfl⟩

omit [DecidableEq H] in
theorem SameDirectory.trans {s'' : Files C H} (h : SameDirectory s s') (h' : SameDirectory s' s'') :
    SameDirectory s s'' :=
  ⟨h'.present.trans h.present, h'.staged.trans h.staged, h'.backups.trans h.backups,
    h'.journal.trans h.journal, h'.others.trans h.others⟩

omit [DecidableEq H] in
theorem FilesOk.update (h : FilesOk t entries s) (hE : EntriesFor hash t rs entries)
    {e : TransactionEntry H} (he : e ∈ entries) (hdir : SameDirectory s s')
    (hother : ∀ p, p ≠ e.target → s'.tables p = s.tables p)
    (htarget : s'.tables e.target = t.tables e.target
      ∨ s'.tables e.target = t.staged e.staged) : FilesOk t entries s' where
  tables := by
    intro e' he'
    by_cases hp : e'.target = e.target
    · have heq : e' = e := List.inj_on_of_nodup_map hE.targets he' he hp
      rw [heq]
      exact htarget
    · rw [hother _ hp]
      exact h.tables e' he'
  backups := by rw [hdir.backups]; exact h.backups
  staged := by rw [hdir.staged]; exact h.staged

variable {e : TransactionEntry H}

theorem fileMatchesHash_iff (hinj : Function.Injective hash) (hE : EntriesFor hash t rs entries)
    (he : e ∈ entries) (file : Option C) :
    fileMatchesHash hash file e.stagedHash = true ↔ file = t.staged e.staged := by
  obtain ⟨c, hc, hsha⟩ := hE.staged e he
  rw [hc, hsha]
  cases file with
  | none => simp [fileMatchesHash]
  | some c' =>
    simp only [fileMatchesHash, decide_eq_true_eq, Option.some.injEq]
    exact hinj.eq_iff

/-! ## Rolling forward -/

/-- The staged file of the entry is gone, and the target does not hold it. -/
def Starved (t s : Files C H) (e : TransactionEntry H) : Prop :=
  s.staged e.staged = none ∧ s.tables e.target ≠ t.staged e.staged

theorem rollForwardEntry_wp (hinj : Function.Injective hash) (faults : Faults)
    (hE : EntriesFor hash t rs entries) (he : e ∈ entries) (h : FilesOk t entries s) :
    wp (rollForwardEntry hash faults e)
      (fun _ s' => (SameDirectory s s' ∧ FilesOk t entries s')
        ∧ s'.tables e.target = t.staged e.staged
        ∧ (∀ p, p ≠ e.target → s'.tables p = s.tables p) ∧ ¬ Starved t s e)
      (fun _ s' => (SameDirectory s s' ∧ FilesOk t entries s')
        ∧ (faults ≠ noFaults ∨ Starved t s e ∧ Starved t s' e))
      (fun s' => SameDirectory s s' ∧ FilesOk t entries s') s := by
  have hrefl := SameDirectory.refl s
  simp only [rollForwardEntry, wp_bind, wp_get]
  split
  · rename_i hmatch
    have heq := (fileMatchesHash_iff hinj hE he _).mp hmatch
    exact ⟨⟨hrefl, h⟩, heq, fun _ _ => rfl, fun hstarved => hstarved.2 heq⟩
  · rename_i hmatch
    have hne : s.tables e.target ≠ t.staged e.staged :=
      fun heq => hmatch ((fileMatchesHash_iff hinj hE he _).mpr heq)
    cases hst : s.staged e.staged with
    | none => exact ⟨⟨hrefl, h⟩, Or.inr ⟨⟨hst, hne⟩, hst, hne⟩⟩
    | some c =>
      have hc : t.staged e.staged = some c := h.staged e he c hst
      have hsha : hash c = e.stagedHash := by
        obtain ⟨c', hc', hsha⟩ := hE.staged e he
        rw [hc] at hc'
        cases hc'
        exact hsha.symm
      have htarget : (s.writeTable e.target c).tables e.target = t.staged e.staged := by
        rw [hc]
        exact Function.update_self _ _ _
      have hother : ∀ p, p ≠ e.target → (s.writeTable e.target c).tables p = s.tables p :=
        fun p hp => Function.update_of_ne hp _ _
      have hdir : SameDirectory s (s.writeTable e.target c) := ⟨rfl, rfl, rfl, rfl, rfl⟩
      have hok := h.update hE he hdir hother (Or.inr htarget)
      simp only [hsha, if_true, wp_bind, fallible]
      cases hf : faults (.copy e.target) with
      | none =>
        refine ⟨⟨hrefl, h⟩, ?_⟩
        simp only [wp_ret, wp_get]
        rw [if_pos ((fileMatchesHash_iff hinj hE he _).mpr htarget)]
        refine ⟨⟨hdir, hok⟩, htarget, hother, fun hstarved => ?_⟩
        rw [hstarved.1] at hst
        cases hst
      | some moment =>
        have hfaulty : faults ≠ noFaults := by
          rintro rfl
          cases hf
        cases moment with
        | before => exact ⟨⟨hrefl, h⟩, Or.inl hfaulty⟩
        | after => exact ⟨⟨hrefl, h⟩, ⟨hdir, hok⟩, Or.inl hfaulty⟩

/-- **Rolling forward** ends with the staged contents, unless a step raises or a staged file that
is needed is gone. -/
theorem rollForward_wp (hinj : Function.Injective hash) (faults : Faults)
    (hE : EntriesFor hash t rs entries) {es : List (TransactionEntry H)}
    (hes : ∀ e ∈ es, e ∈ entries) (hnodup : (es.map TransactionEntry.target).Nodup)
    (h : FilesOk t entries s) :
    wp (rollForward hash faults es)
      (fun _ s' => (SameDirectory s s' ∧ FilesOk t entries s')
        ∧ (∀ e ∈ es, s'.tables e.target = t.staged e.staged)
        ∧ (∀ p, p ∉ es.map TransactionEntry.target → s'.tables p = s.tables p)
        ∧ ∀ e ∈ es, ¬ Starved t s e)
      (fun _ s' => (SameDirectory s s' ∧ FilesOk t entries s')
        ∧ (faults ≠ noFaults ∨ ∃ e ∈ es, Starved t s e ∧ Starved t s' e))
      (fun s' => SameDirectory s s' ∧ FilesOk t entries s') s := by
  induction es generalizing s with
  | nil => exact ⟨⟨SameDirectory.refl s, h⟩, by simp, fun _ _ => rfl, by simp⟩
  | cons e es ih =>
    rw [List.map_cons, List.nodup_cons] at hnodup
    simp only [rollForward, wp_bind]
    refine wp_mono ?_ ?_ (fun _ hk => hk)
      (rollForwardEntry_wp hinj faults hE (hes e List.mem_cons_self) h)
    · rintro _ s₁ ⟨⟨hdir, hok⟩, htarget, hother, hfed⟩
      -- the entries after this one have other targets
      have hsame : ∀ x ∈ es, Starved t s₁ x ↔ Starved t s x := by
        intro x hx
        have hne : x.target ≠ e.target := by
          intro heq
          exact hnodup.1 (List.mem_map.mpr ⟨x, hx, heq⟩)
        unfold Starved
        rw [hdir.staged, hother _ hne]
      refine wp_mono ?_ ?_ (fun _ hk => ⟨hdir.trans hk.1, hk.2⟩)
        (ih (fun x hx => hes x (List.mem_cons_of_mem _ hx)) hnodup.2 hok)
      · rintro _ s₂ ⟨⟨hdir₂, hok₂⟩, hall, hother₂, hfed₂⟩
        refine ⟨⟨hdir.trans hdir₂, hok₂⟩, ?_, ?_, ?_⟩
        · intro x hx
          rcases List.mem_cons.mp hx with rfl | hx
          · rw [hother₂ _ hnodup.1]
            exact htarget
          · exact hall x hx
        · intro p hp
          rw [List.map_cons, List.mem_cons, not_or] at hp
          rw [hother₂ p hp.2, hother p hp.1]
        · intro x hx
          rcases List.mem_cons.mp hx with rfl | hx
          · exact hfed
          · exact fun hstarved => hfed₂ x hx ((hsame x hx).mpr hstarved)
      · rintro _ s₂ ⟨⟨hdir₂, hok₂⟩, hwhy⟩
        refine ⟨⟨hdir.trans hdir₂, hok₂⟩, hwhy.imp id ?_⟩
        rintro ⟨x, hx, hbefore, hstarved⟩
        exact ⟨x, List.mem_cons_of_mem _ hx, (hsame x hx).mp hbefore, hstarved⟩
    · rintro _ s₁ ⟨hnear, hwhy⟩
      exact ⟨hnear, hwhy.imp id (fun hstarved => ⟨e, List.mem_cons_self, hstarved⟩)⟩

/-! ## Rolling back -/

variable (hE : EntriesFor hash t rs entries)

include hE

theorem rollbackEntry_wp (he : e ∈ entries) (h : FilesOk t entries s) :
    wp (rollbackEntry hash e)
      (fun _ s' => (SameDirectory s s' ∧ FilesOk t entries s')
        ∧ s'.tables e.target = t.tables e.target
        ∧ (∀ p, p ≠ e.target → s'.tables p = s.tables p)
        ∧ (e.existed = true → (s.backups e.backup).isSome = true))
      (fun _ s' => (SameDirectory s s' ∧ FilesOk t entries s')
        ∧ e.existed = true ∧ s'.backups e.backup = none)
      (fun s' => SameDirectory s s' ∧ FilesOk t entries s') s := by
  have hrefl := SameDirectory.refl s
  simp only [rollbackEntry, wp_bind, wp_get]
  split
  · rename_i hexisted
    cases hb : s.backups e.backup with
    | none => exact ⟨⟨hrefl, h⟩, hexisted, hb⟩
    | some c =>
      have hc := h.backups e he hexisted c hb
      have htarget : (s.writeTable e.target c).tables e.target = t.tables e.target := by
        rw [hc]
        exact Function.update_self _ _ _
      have hother : ∀ p, p ≠ e.target → (s.writeTable e.target c).tables p = s.tables p :=
        fun p hp => Function.update_of_ne hp _ _
      have hdir : SameDirectory s (s.writeTable e.target c) := ⟨rfl, rfl, rfl, rfl, rfl⟩
      have hok := h.update hE he hdir hother (Or.inl htarget)
      simp only [wp_bind, wp_step, wp_get]
      refine ⟨⟨hrefl, h⟩, ?_⟩
      rw [if_pos (by rw [htarget]; exact (hE.original e he).symm)]
      exact ⟨⟨hdir, hok⟩, htarget, hother, fun _ => rfl⟩
  · rename_i hexisted
    have hnone : t.tables e.target = none := by
      rw [hE.existed e he] at hexisted
      simpa using hexisted
    have htarget : (s.unlinkTable e.target).tables e.target = t.tables e.target := by
      rw [hnone]
      exact Function.update_self _ _ _
    have hother : ∀ p, p ≠ e.target → (s.unlinkTable e.target).tables p = s.tables p :=
      fun p hp => Function.update_of_ne hp _ _
    have hdir : SameDirectory s (s.unlinkTable e.target) := ⟨rfl, rfl, rfl, rfl, rfl⟩
    split
    · exact ⟨⟨hrefl, h⟩, ⟨hdir, h.update hE he hdir hother (Or.inl htarget)⟩, htarget, hother,
        fun hyes => absurd hyes hexisted⟩
    · rename_i hthere
      refine ⟨⟨hrefl, h⟩, ?_, fun _ _ => rfl, fun hyes => absurd hyes hexisted⟩
      rw [hnone]
      simpa using hthere

/-- **Rolling back** ends with the original contents, unless a backup that is needed is gone. -/
theorem rollbackAll_wp {es : List (TransactionEntry H)}
    (hes : ∀ e ∈ es, e ∈ entries) (hnodup : (es.map TransactionEntry.target).Nodup)
    (h : FilesOk t entries s) :
    wp (rollbackAll hash es)
      (fun _ s' => (SameDirectory s s' ∧ FilesOk t entries s')
        ∧ (∀ e ∈ es, s'.tables e.target = t.tables e.target)
        ∧ (∀ p, p ∉ es.map TransactionEntry.target → s'.tables p = s.tables p)
        ∧ ∀ e ∈ es, e.existed = true → (s.backups e.backup).isSome = true)
      (fun _ s' => (SameDirectory s s' ∧ FilesOk t entries s')
        ∧ ∃ e ∈ es, e.existed = true ∧ s'.backups e.backup = none)
      (fun s' => SameDirectory s s' ∧ FilesOk t entries s') s := by
  induction es generalizing s with
  | nil => exact ⟨⟨SameDirectory.refl s, h⟩, by simp, fun _ _ => rfl, by simp⟩
  | cons e es ih =>
    rw [List.map_cons, List.nodup_cons] at hnodup
    simp only [rollbackAll, wp_bind]
    refine wp_mono ?_ ?_ (fun _ hk => hk) (rollbackEntry_wp hE (hes e List.mem_cons_self) h)
    · rintro _ s₁ ⟨⟨hdir, hok⟩, htarget, hother, hbacked⟩
      refine wp_mono ?_ ?_ (fun _ hk => ⟨hdir.trans hk.1, hk.2⟩)
        (ih (fun x hx => hes x (List.mem_cons_of_mem _ hx)) hnodup.2 hok)
      · rintro _ s₂ ⟨⟨hdir₂, hok₂⟩, hall, hother₂, hbacked₂⟩
        refine ⟨⟨hdir.trans hdir₂, hok₂⟩, ?_, ?_, ?_⟩
        · intro x hx
          rcases List.mem_cons.mp hx with rfl | hx
          · rw [hother₂ _ hnodup.1]
            exact htarget
          · exact hall x hx
        · intro p hp
          rw [List.map_cons, List.mem_cons, not_or] at hp
          rw [hother₂ p hp.2, hother p hp.1]
        · intro x hx
          rcases List.mem_cons.mp hx with rfl | hx
          · exact hbacked
          · rw [← hdir.backups]
            exact hbacked₂ x hx
      · rintro _ s₂ ⟨⟨hdir₂, hok₂⟩, x, hx, hgone⟩
        exact ⟨⟨hdir.trans hdir₂, hok₂⟩, x, List.mem_cons_of_mem _ hx, hgone⟩
    · rintro _ s₁ ⟨hnear, hgone⟩
      exact ⟨hnear, e, List.mem_cons_self, hgone⟩

theorem rollback_wp (h : FilesOk t entries s) : wp (rollback hash entries)
      (fun _ s' => (SameDirectory s s' ∧ FilesOk t entries s')
        ∧ (∀ e ∈ entries, s'.tables e.target = t.tables e.target)
        ∧ ∀ e ∈ entries, e.existed = true → (s.backups e.backup).isSome = true)
      (fun _ s' => (SameDirectory s s' ∧ FilesOk t entries s')
        ∧ ∃ e ∈ entries, e.existed = true ∧ s'.backups e.backup = none)
      (fun s' => SameDirectory s s' ∧ FilesOk t entries s') s := by
  have hnodup : (entries.reverse.map TransactionEntry.target).Nodup := by
    rw [List.map_reverse, List.nodup_reverse]
    exact hE.targets
  refine wp_mono ?_ ?_ (fun _ hk => hk)
    (rollbackAll_wp hE (fun e he => List.mem_reverse.mp he) hnodup h)
  · rintro _ s' ⟨hnear, hall, -, hbacked⟩
    exact ⟨hnear, fun e he => hall e (List.mem_reverse.mpr he),
      fun e he => hbacked e (List.mem_reverse.mpr he)⟩
  · rintro _ s' ⟨hnear, e, he, hgone⟩
    exact ⟨hnear, e, List.mem_reverse.mp he, hgone⟩

omit hE

/-! ## Cleaning up -/

omit [DecidableEq H] in
theorem FilesOk.of_fewer (h : FilesOk t entries s) (htables : s'.tables = s.tables)
    (hstaged : ∀ p, s'.staged p = s.staged p ∨ s'.staged p = none)
    (hbackups : ∀ i, s'.backups i = s.backups i ∨ s'.backups i = none) :
    FilesOk t entries s' where
  tables := by rw [htables]; exact h.tables
  backups := by
    intro e he hexisted c hc
    rcases hbackups e.backup with hb | hb
    · exact h.backups e he hexisted c (hb.symm.trans hc)
    · rw [hb] at hc
      cases hc
  staged := by
    intro e he c hc
    rcases hstaged e.staged with hs | hs
    · exact h.staged e he c (hs.symm.trans hc)
    · rw [hs] at hc
      cases hc

theorem update_none {A B : Type} [DecidableEq A] (f : A → Option B) (a b : A) :
    Function.update f a none b = f b ∨ Function.update f a none b = none := by
  by_cases hab : b = a
  · right
    rw [hab]
    exact Function.update_self _ _ _
  · exact Or.inl (Function.update_of_ne hab _ _)

omit [DecidableEq H] in
theorem unlinkEntries_wp (es : List (TransactionEntry H)) (h : FilesOk t entries s) :
    wp (unlinkEntries es)
      (fun _ s' => s'.tables = s.tables ∧ s'.journal = s.journal ∧ FilesOk t entries s')
      (fun _ _ => False)
      (fun s' => s'.tables = s.tables ∧ s'.journal = s.journal ∧ FilesOk t entries s') s := by
  induction es generalizing s with
  | nil => exact ⟨rfl, rfl, h⟩
  | cons e es ih =>
    have h₁ : FilesOk t entries (s.unlinkStaged e.staged) :=
      h.of_fewer rfl (fun p => update_none _ _ p) (fun _ => Or.inl rfl)
    have h₂ : FilesOk t entries ((s.unlinkStaged e.staged).unlinkBackup e.backup) :=
      h₁.of_fewer rfl (fun _ => Or.inl rfl) (fun i => update_none _ _ i)
    exact ⟨⟨rfl, rfl, h⟩, ⟨rfl, rfl, h₁⟩, ih h₂⟩

omit [DecidableEq H] in
/-- **A clean-up** leaves the targets alone. -/
theorem cleanup_wp (es : List (TransactionEntry H)) (h : FilesOk t entries s) : wp (cleanup es)
      (fun _ s' => s'.tables = s.tables ∧ s'.journal = none)
      (fun _ s' => s'.tables = s.tables ∧ s'.journal = none)
      (fun s' => s'.tables = s.tables
        ∧ (s'.journal = none ∨ s'.journal = s.journal ∧ FilesOk t entries s')) s := by
  simp only [cleanup, wp_bind, wp_step, wp_get]
  refine wp_mono ?_ (fun _ _ hf => hf.elim) (fun s' hk => ⟨hk.1, Or.inr hk.2⟩)
    (unlinkEntries_wp es h)
  rintro _ s₁ ⟨htables, hjournal, hok⟩
  refine ⟨⟨htables, Or.inr ⟨hjournal, hok⟩⟩, ?_⟩
  split
  · exact ⟨htables, rfl⟩
  · exact ⟨⟨htables, Or.inl rfl⟩, htables, rfl⟩

/-! ## Recovering -/

variable (hash) in
/-- What holds between any two steps: without a journal all targets have their original content or
all their staged content. -/
def Inv (t : Files C H) (rs : List (String × String)) (s : Files C H) : Prop :=
  match s.journal with
  | none => Settled t rs s
  | some journal => journal.contractVersion = transactionVersion
      ∧ EntriesFor hash t rs journal.entries ∧ FilesOk t journal.entries s

variable (hash) in
/-- The files that the phase of the journal calls for are there: the backups of the targets that
existed, or the staged file of each target that does not hold it. -/
def Recoverable (s : Files C H) : Prop :=
  match s.journal with
  | none => True
  | some journal =>
    match journal.phase with
    | .prepared => ∀ e ∈ journal.entries, e.existed = true → (s.backups e.backup).isSome = true
    | _ => ∀ e ∈ journal.entries, fileMatchesHash hash (s.tables e.target) e.stagedHash = true
          ∨ fileMatchesHash hash (s.staged e.staged) e.stagedHash = true

instance (s : Files C H) : Decidable (Recoverable hash s) := by
  unfold Recoverable
  split
  · exact instDecidableTrue
  · split
    · exact List.decidableBAll _ _
    · exact List.decidableBAll _ _

omit [DecidableEq H] in
theorem inv_of_journal {journal : Journal H} (hj : s.journal = some journal)
    (hver : journal.contractVersion = transactionVersion)
    (hE : EntriesFor hash t rs journal.entries) (hok : FilesOk t journal.entries s) :
    Inv hash t rs s := by
  rw [Inv, hj]
  exact ⟨hver, hE, hok⟩

omit [DecidableEq H] in
theorem inv_of_settled (hj : s.journal = none) (h : Settled t rs s) : Inv hash t rs s := by
  rw [Inv, hj]
  exact h

omit [DecidableEq H] in
theorem EntriesFor.allOriginal (hE : EntriesFor hash t rs entries)
    (h : ∀ e ∈ entries, s.tables e.target = t.tables e.target) : AllOriginal t rs s := by
  intro r hr
  obtain ⟨e, he, rfl⟩ := List.mem_map.mp (hE.pairs.mem_iff.mpr hr)
  exact h e he

omit [DecidableEq H] in
theorem EntriesFor.allStaged (hE : EntriesFor hash t rs entries)
    (h : ∀ e ∈ entries, s.tables e.target = t.staged e.staged) : AllStaged t rs s := by
  intro r hr
  obtain ⟨e, he, rfl⟩ := List.mem_map.mp (hE.pairs.mem_iff.mpr hr)
  exact h e he

omit [DecidableEq H] in
theorem Settled.congr (h : Settled t rs s) (htables : s'.tables = s.tables) : Settled t rs s' := by
  unfold Settled AllOriginal AllStaged at h ⊢
  rw [htables]
  exact h

omit [DecidableEq H] in
theorem cleanup_settled {journal : Journal H} (hj : s.journal = some journal)
    (hver : journal.contractVersion = transactionVersion)
    (hE : EntriesFor hash t rs journal.entries) (hok : FilesOk t journal.entries s)
    (h : Settled t rs s) :
    wp (cleanup journal.entries)
      (fun _ s' => s'.journal = none ∧ Settled t rs s')
      (fun _ s' => s'.journal = none ∧ Settled t rs s') (Inv hash t rs) s := by
  refine wp_mono ?_ ?_ ?_ (cleanup_wp journal.entries hok)
  · exact fun _ s' hq => ⟨hq.2, h.congr hq.1⟩
  · exact fun _ s' hq => ⟨hq.2, h.congr hq.1⟩
  · rintro s' ⟨htables, hnone | ⟨hsame, hok'⟩⟩
    · exact inv_of_settled hnone (h.congr htables)
    · exact inv_of_journal (hsame.trans hj) hver hE hok'

theorem not_starved_iff (hinj : Function.Injective hash) (hE : EntriesFor hash t rs entries)
    (hok : FilesOk t entries s) (he : e ∈ entries) :
    ¬ Starved t s e ↔ fileMatchesHash hash (s.tables e.target) e.stagedHash = true
      ∨ fileMatchesHash hash (s.staged e.staged) e.stagedHash = true := by
  rw [fileMatchesHash_iff hinj hE he, fileMatchesHash_iff hinj hE he]
  obtain ⟨c, hc, -⟩ := hE.staged e he
  constructor
  · intro hfed
    by_cases heq : s.tables e.target = t.staged e.staged
    · exact Or.inl heq
    · right
      cases hst : s.staged e.staged with
      | none => exact absurd ⟨hst, heq⟩ hfed
      | some c' => exact (hok.staged e he c' hst).symm
  · rintro (heq | heq) ⟨hgone, hne⟩
    · exact hne heq
    · rw [hgone, hc] at heq
      cases heq

/-- **A recovery** settles the targets and removes the journal when the files it needs are there,
and otherwise raises and leaves a state of the same kind. -/
theorem recover_wp (hinj : Function.Injective hash) (h : Inv hash t rs s) :
    wp (recoverInterruptedTransactions hash)
      (fun _ s' => s'.journal = none ∧ Settled t rs s' ∧ Recoverable hash s)
      (fun _ s' => (s'.journal = none ∧ Settled t rs s' ∧ Recoverable hash s)
        ∨ (Inv hash t rs s' ∧ ¬ Recoverable hash s' ∧ ¬ Recoverable hash s))
      (Inv hash t rs) s := by
  simp only [recoverInterruptedTransactions, wp_bind, wp_get]
  cases hj : s.journal with
  | none =>
    rw [Inv, hj] at h
    exact ⟨hj, h, by rw [Recoverable, hj]; trivial⟩
  | some journal =>
    rw [Inv, hj] at h
    obtain ⟨hver, hE, hok⟩ := h
    simp only [if_pos hver]
    -- what a failed recovery leaves has the same journal
    have hinv : ∀ s₁, SameDirectory s s₁ ∧ FilesOk t journal.entries s₁ → Inv hash t rs s₁ :=
      fun s₁ hn => inv_of_journal (hn.1.journal.trans hj) hver hE hn.2
    have hforward : journal.phase ≠ .prepared →
        wp (do
          rollForward hash noFaults journal.entries
          Prog.step (Files.writeJournal { journal with phase := .committed })
          cleanup journal.entries
          return some journal.stem)
        (fun _ s' => s'.journal = none ∧ Settled t rs s' ∧ Recoverable hash s)
        (fun _ s' => (s'.journal = none ∧ Settled t rs s' ∧ Recoverable hash s)
          ∨ (Inv hash t rs s' ∧ ¬ Recoverable hash s' ∧ ¬ Recoverable hash s))
        (Inv hash t rs) s := by
      intro hphase
      have hrec : ∀ s₁ : Files C H, s₁.journal = some journal → FilesOk t journal.entries s₁ →
          (Recoverable hash s₁ ↔ ∀ e ∈ journal.entries, ¬ Starved t s₁ e) := by
        intro s₁ hj₁ hok₁
        rw [Recoverable, hj₁]
        dsimp only
        split
        · rename_i heq
          exact absurd heq hphase
        · exact forall₂_congr (fun e he => (not_starved_iff hinj hE hok₁ he).symm)
      simp only [wp_bind, wp_step, wp_pure]
      refine wp_mono ?_ ?_ hinv (rollForward_wp hinj noFaults hE (fun _ he => he) hE.targets hok)
      · rintro _ s₁ ⟨⟨hdir, hok₁⟩, hall, -, hfed⟩
        have hR : Recoverable hash s := (hrec s hj hok).mpr hfed
        have hok₂ : FilesOk t journal.entries
            (s₁.writeJournal { journal with phase := .committed }) :=
          hok₁.of_fewer rfl (fun _ => Or.inl rfl) (fun _ => Or.inl rfl)
        have hj₂ : (s₁.writeJournal { journal with phase := .committed }).journal
            = some { journal with phase := .committed } := rfl
        have hclean := cleanup_settled hj₂ hver hE hok₂ (Or.inr (hE.allStaged hall))
        refine ⟨hinv s₁ ⟨hdir, hok₁⟩, wp_mono ?_ ?_ (fun _ hk => hk) hclean⟩
        · exact fun _ s' hq => ⟨hq.1, hq.2, hR⟩
        · exact fun _ s' hq => Or.inl ⟨hq.1, hq.2, hR⟩
      · rintro _ s₁ ⟨⟨hdir, hok₁⟩, hwhy⟩
        obtain ⟨e, he, hbefore, hstarved⟩ := hwhy.resolve_left (fun hne => hne rfl)
        refine Or.inr ⟨hinv s₁ ⟨hdir, hok₁⟩, ?_, ?_⟩
        · rw [hrec s₁ (hdir.journal.trans hj) hok₁]
          exact fun hall => hall e he hstarved
        · rw [hrec s hj hok]
          exact fun hall => hall e he hbefore
    cases hphase : journal.phase with
    | prepared =>
      have hrec : ∀ s₁ : Files C H, s₁.journal = some journal →
          (Recoverable hash s₁ ↔ ∀ e ∈ journal.entries, e.existed = true →
            (s₁.backups e.backup).isSome = true) := by
        intro s₁ hj₁
        rw [Recoverable, hj₁]
        dsimp only
        rw [hphase]
      simp only [wp_bind, wp_pure]
      refine wp_mono ?_ ?_ hinv (rollback_wp hE hok)
      · rintro _ s₁ ⟨⟨hdir, hok₁⟩, hall, hbacked⟩
        have hR : Recoverable hash s := (hrec s hj).mpr hbacked
        refine wp_mono ?_ ?_ (fun _ hk => hk) (cleanup_settled (hdir.journal.trans hj)
          hver hE hok₁ (Or.inl (hE.allOriginal hall)))
        · exact fun _ s' hq => ⟨hq.1, hq.2, hR⟩
        · exact fun _ s' hq => Or.inl ⟨hq.1, hq.2, hR⟩
      · rintro _ s₁ ⟨⟨hdir, hok₁⟩, e, he, hexisted, hgone⟩
        refine Or.inr ⟨hinv s₁ ⟨hdir, hok₁⟩, ?_, ?_⟩
        · rw [hrec s₁ (hdir.journal.trans hj)]
          intro hall
          have := hall e he hexisted
          rw [hgone] at this
          cases this
        · rw [hrec s hj, ← hdir.backups]
          intro hall
          have := hall e he hexisted
          rw [hgone] at this
          cases this
    | committing => exact hforward (by rw [hphase]; decide)
    | committed => exact hforward (by rw [hphase]; decide)

/-! ## Committing -/

/-- Everything but the directory's backups is as at the start. -/
structure Untouched (t s : Files C H) : Prop where
  tables : s.tables = t.tables
  staged : s.staged = t.staged
  journal : s.journal = t.journal

omit [DecidableEq H] in
/-- **Preparing** describes the replacements and backs up the targets that exist. -/
theorem prepareEntries_wp (rs : List (String × String)) (index : Nat) (h : Untouched t s) :
    wp (prepareEntries hash torn rs index)
      (fun entries s' => Untouched t s' ∧ entries.map (fun e => (e.target, e.staged)) = rs
        ∧ (∀ e ∈ entries, index ≤ e.backup ∧ e.existed = (t.tables e.target).isSome
          ∧ e.originalHash = (t.tables e.target).map hash
          ∧ (∃ c, t.staged e.staged = some c ∧ e.stagedHash = hash c)
          ∧ (e.existed = true → s'.backups e.backup = t.tables e.target))
        ∧ ∀ i < index, s'.backups i = s.backups i)
      (fun _ => Untouched t) (Untouched t) s := by
  induction rs generalizing index s with
  | nil => exact ⟨h, rfl, by simp, fun _ _ => rfl⟩
  | cons r rs ih =>
    simp only [prepareEntries, prepareEntry, wp_bind, wp_get]
    rw [h.staged, h.tables]
    cases hst : t.staged r.2 with
    | none => exact h
    | some c =>
      cases hor : t.tables r.1 with
      | none =>
        simp only [wp_pure]
        refine wp_imp ?_ (ih (index + 1) h)
        rintro entries s₁ ⟨h₁, hpairs, hall, hbelow⟩
        refine ⟨h₁, by rw [List.map_cons, hpairs], ?_, fun i hi => hbelow i (by omega)⟩
        intro e he
        rcases List.mem_cons.mp he with rfl | he
        · exact ⟨le_rfl, by rw [hor]; rfl, by rw [hor]; rfl, ⟨c, hst, rfl⟩, (fun h => by cases h)⟩
        · obtain ⟨hle, hrest⟩ := hall e he
          exact ⟨by omega, hrest⟩
      | some original =>
        simp only [wp_bind, wp_step, wp_pure]
        set s₁ := (s.writeBackup index (torn original)).writeBackup index original with hs₁
        have h₁ : Untouched t s₁ := ⟨h.tables, h.staged, h.journal⟩
        refine ⟨h, ⟨h.tables, h.staged, h.journal⟩, ?_⟩
        refine wp_imp ?_ (ih (index + 1) h₁)
        rintro entries s₂ ⟨h₂, hpairs, hall, hbelow⟩
        refine ⟨h₂, by rw [List.map_cons, hpairs], ?_, ?_⟩
        · intro e he
          rcases List.mem_cons.mp he with rfl | he
          · refine ⟨le_rfl, by rw [hor]; rfl, by rw [hor]; rfl, ⟨c, hst, rfl⟩, fun _ => ?_⟩
            rw [hbelow index (Nat.lt_succ_self _), hor]
            exact Function.update_self _ _ _
          · obtain ⟨hle, hrest⟩ := hall e he
            exact ⟨by omega, hrest⟩
        · intro i hi
          have hne : i ≠ index := by omega
          rw [hbelow i (by omega)]
          show Function.update (Function.update s.backups index _) index _ i = s.backups i
          rw [Function.update_of_ne hne, Function.update_of_ne hne]

variable {journal : Journal H}

/-- The journal of the transaction is there, in some phase. -/
def Live (t : Files C H) (journal : Journal H) (s : Files C H) : Prop :=
  (∃ phase, s.journal = some { journal with phase := phase }) ∧ FilesOk t journal.entries s

omit [DecidableEq H] in
theorem Live.inv (h : Live t journal s) (hver : journal.contractVersion = transactionVersion)
    (hE : EntriesFor hash t rs journal.entries) : Inv hash t rs s := by
  obtain ⟨⟨phase, hj⟩, hok⟩ := h
  exact inv_of_journal hj hver hE hok

omit [DecidableEq H] in
theorem Live.writeJournal (h : Live t journal s) (phase : Phase) :
    Live t journal (s.writeJournal { journal with phase := phase }) :=
  ⟨⟨phase, rfl⟩, h.2.of_fewer rfl (fun _ => Or.inl rfl) (fun _ => Or.inl rfl)⟩

omit [DecidableEq H] in
theorem fallible_live {faults : Faults} {point : FaultPoint} {f : Files C H → Files C H}
    {Q : Unit → Files C H → Prop} (h : Live t journal s) (hf : Live t journal (f s))
    (hQ : Q () (f s)) :
    wp (fallible faults point f) Q (fun _ => Live t journal) (Live t journal) s := by
  unfold fallible
  split
  · exact ⟨h, hQ⟩
  · exact h
  · exact ⟨h, hf⟩

variable (hinj : Function.Injective hash) (faults : Faults)

include hinj faults

theorem commitJournal_wp (hE : EntriesFor hash t rs journal.entries) (h : Live t journal s) :
    wp (commitJournal hash faults journal)
      (fun _ s' => Live t journal s' ∧ ∀ e ∈ journal.entries, s'.tables e.target = t.staged e.staged)
      (fun _ => Live t journal) (Live t journal) s := by
  simp only [commitJournal]
  split
  · exact h
  · simp only [wp_bind]
    have h₁ := h.writeJournal .committing
    have hnear : ∀ s', SameDirectory (s.writeJournal { journal with phase := .committing }) s'
        ∧ FilesOk t journal.entries s' → Live t journal s' := by
      rintro s' ⟨hdir, hok⟩
      exact ⟨⟨.committing, hdir.journal⟩, hok⟩
    refine fallible_live h h₁ (wp_mono ?_ (fun _ s' he => hnear s' he.1) hnear
      (rollForward_wp hinj faults hE (fun _ he => he) hE.targets h₁.2))
    rintro _ s₂ ⟨hn, hall, -, -⟩
    have h₂ := hnear s₂ hn
    exact fallible_live h₂ (h₂.writeJournal .committed) ⟨h₂.writeJournal .committed, hall⟩

theorem commitOrRollback_wp (hver : journal.contractVersion = transactionVersion)
    (hE : EntriesFor hash t rs journal.entries) (h : Live t journal s) :
    wp (commitOrRollback hash faults journal)
      (fun _ => Inv hash t rs) (fun _ => Inv hash t rs) (Inv hash t rs) s := by
  -- a clean-up of settled targets, whatever the phase on disk
  have hclean : ∀ s₁, Live t journal s₁ → Settled t rs s₁ →
      wp (cleanup journal.entries) (fun _ => Inv hash t rs) (fun _ => Inv hash t rs)
        (Inv hash t rs) s₁ := by
    rintro s₁ ⟨⟨phase, hj⟩, hok⟩ hsettled
    have hc := cleanup_settled hj hver hE hok hsettled
    exact wp_mono (fun _ _ hq => inv_of_settled hq.1 hq.2)
      (fun _ _ hq => inv_of_settled hq.1 hq.2) (fun _ hk => hk) hc
  simp only [commitOrRollback, wp_bind, wp_attempt]
  refine wp_mono ?_ ?_ (fun _ hk => hk.inv hver hE) (commitJournal_wp hinj faults hE h)
  · rintro _ s₁ ⟨h₁, hall⟩
    exact hclean s₁ h₁ (Or.inr (hE.allStaged hall))
  · rintro e s₁ h₁
    simp only [wp_raise]
    obtain ⟨⟨phase, hj⟩, hok⟩ := id h₁
    have hlive : ∀ s₂, SameDirectory s₁ s₂ ∧ FilesOk t journal.entries s₂ → Live t journal s₂ :=
      fun s₂ hn => ⟨⟨phase, hn.1.journal.trans hj⟩, hn.2⟩
    refine wp_mono ?_ (fun _ s₂ he => (hlive s₂ he.1).inv hver hE)
      (fun s₂ hk => (hlive s₂ hk).inv hver hE) (rollback_wp hE hok)
    rintro _ s₂ ⟨hn, hall, -⟩
    exact hclean s₂ (hlive s₂ hn) (Or.inl (hE.allOriginal hall))

/-- **A commit**, stopped anywhere. -/
theorem commitReplacements_wp (stem : String)
    (rs : List (String × String)) (ht : t.journal = none) :
    wp (commitReplacements hash torn faults stem rs)
      (fun _ => Inv hash t rs) (fun _ => Inv hash t rs) (Inv hash t rs) t := by
  have huntouched : ∀ s, Untouched t s → Inv hash t rs s := by
    intro s hs
    refine inv_of_settled (hs.journal.trans ht) (Or.inl ?_)
    intro r _
    rw [hs.tables]
  simp only [commitReplacements]
  split
  · exact huntouched t ⟨rfl, rfl, rfl⟩
  · split
    · rename_i hnodup
      simp only [wp_bind, wp_step, wp_get]
      refine ⟨huntouched t ⟨rfl, rfl, rfl⟩, ?_⟩
      split
      · exact huntouched _ ⟨rfl, rfl, rfl⟩
      · simp only [wp_bind, wp_step]
        have hperm : (orderedReplacements rs).Perm rs := List.perm_insertionSort _ _
        refine wp_mono ?_ (fun _ s' he => huntouched s' he) huntouched
          (prepareEntries_wp (orderedReplacements rs) 0 ⟨rfl, rfl, rfl⟩)
        rintro entries s₁ ⟨h₁, hpairs, hall, -⟩
        have htargets : (entries.map TransactionEntry.target).Nodup := by
          have hmap : entries.map TransactionEntry.target
              = (orderedReplacements rs).map Prod.fst := by
            rw [← hpairs, List.map_map]
            rfl
          rw [hmap]
          exact (hperm.map Prod.fst).nodup_iff.mpr hnodup
        have hE : EntriesFor hash t rs entries :=
          { pairs := by rw [hpairs]; exact hperm
            existed := fun e he => (hall e he).2.1
            original := fun e he => (hall e he).2.2.1
            staged := fun e he => (hall e he).2.2.2.1
            targets := htargets }
        have hlive : Live t ⟨transactionVersion, stem, .prepared, entries⟩
            (s₁.writeJournal ⟨transactionVersion, stem, .prepared, entries⟩) := by
          refine ⟨⟨.prepared, rfl⟩, ?_, ?_, ?_⟩
          · intro e _
            left
            show s₁.tables e.target = t.tables e.target
            rw [h₁.tables]
          · intro e he hexisted c hc
            rw [← (hall e he).2.2.2.2 hexisted]
            exact hc
          · intro e _ c hc
            rw [← h₁.staged]
            exact hc
        exact ⟨huntouched s₁ h₁, commitOrRollback_wp hinj faults rfl hE hlive⟩
    · exact huntouched t ⟨rfl, rfl, rfl⟩

omit hinj faults

/-! ## Kills and later calls -/

variable (hash torn) in
/-- What a commit of `rs` and recoveries after it leave, each stopped in front of any of its steps,
raising or returning. -/
inductive Stopped (faults : Faults) (stem : String) (rs : List (String × String))
    (t : Files C H) : Files C H → Prop where
  | commit (n : Nat) : Stopped faults stem rs t
      (Prog.exec (commitReplacements hash torn faults stem rs) n t).state
  | recover {s : Files C H} (n : Nat) (h : Stopped faults stem rs t s) : Stopped faults stem rs t
      (Prog.exec (recoverInterruptedTransactions hash) n s).state

theorem Stopped.inv (hinj : Function.Injective hash) {faults : Faults} {stem : String}
    (ht : t.journal = none) (h : Stopped hash torn faults stem rs t s) : Inv hash t rs s := by
  induction h with
  | commit n =>
    have hwp : wp (commitReplacements hash torn faults stem rs) (fun _ => Inv hash t rs)
        (fun _ => Inv hash t rs) (Inv hash t rs) t := commitReplacements_wp hinj faults stem rs ht
    have hmeets := wp_exec hwp n
    revert hmeets
    cases Prog.exec (commitReplacements hash torn faults stem rs) n t with
    | done _ s' => exact id
    | raised _ s' => exact id
    | killed s' => exact id
  | @recover s n _ ih =>
    have hmeets := wp_exec (recover_wp hinj ih) n
    revert hmeets
    cases Prog.exec (recoverInterruptedTransactions hash) n s with
    | done _ s' => exact fun hm => inv_of_settled hm.1 hm.2.1
    | raised _ s' =>
      rintro (hm | hm)
      · exact inv_of_settled hm.1 hm.2.1
      · exact hm.1
    | killed s' => exact id

variable (hash) in
/-- The files after `k` calls of a recovery. -/
def afterCalls (k : Nat) (s : Files C H) : Files C H :=
  (fun s => (Prog.run (recoverInterruptedTransactions hash) s).2)^[k] s

variable (hash) in
/-- Some later call of a recovery returns, leaves no journal, and leaves the targets all with their
original content or all with their staged content. -/
def Recovers (t : Files C H) (rs : List (String × String)) (s : Files C H) : Prop :=
  ∃ k r s', Prog.run (recoverInterruptedTransactions hash) (afterCalls hash k s) = (.ok r, s')
    ∧ s'.journal = none ∧ Settled t rs s'

theorem recovers_of_recoverable (hinj : Function.Injective hash) (h : Inv hash t rs s)
    (hR : Recoverable hash s) : Recovers hash t rs s := by
  have hwp := wp_run (recover_wp hinj h)
  rcases hrun : Prog.run (recoverInterruptedTransactions hash) s with ⟨_ | r, s'⟩
  · -- only the directory could not be removed, and there is no journal any more
    rw [hrun] at hwp
    rcases hwp with ⟨hj, hsettled, -⟩ | ⟨-, -, hno⟩
    · refine ⟨1, none, s', ?_, hj, hsettled⟩
      have hafter : afterCalls hash 1 s = s' := by
        show (Prog.run (recoverInterruptedTransactions hash) s).2 = s'
        rw [hrun]
      rw [hafter]
      simp [recoverInterruptedTransactions, run_bind, hj]
    · exact absurd hR hno
  · rw [hrun] at hwp
    exact ⟨0, r, s', hrun, hwp.1, hwp.2.1⟩

theorem afterCalls_unrecoverable (hinj : Function.Injective hash) (h : Inv hash t rs s)
    (hR : ¬ Recoverable hash s) (k : Nat) :
    Inv hash t rs (afterCalls hash k s) ∧ ¬ Recoverable hash (afterCalls hash k s) := by
  induction k with
  | zero => exact ⟨h, hR⟩
  | succ k ih =>
    have hstep : afterCalls hash (k + 1) s
        = (Prog.run (recoverInterruptedTransactions hash) (afterCalls hash k s)).2 :=
      Function.iterate_succ_apply' _ _ _
    have hwp := wp_run (recover_wp hinj ih.1)
    rw [hstep]
    rcases hrun : Prog.run (recoverInterruptedTransactions hash) (afterCalls hash k s)
      with ⟨_ | r, s'⟩
    · rw [hrun] at hwp
      rcases hwp with ⟨-, -, hyes⟩ | ⟨hinv, hno, -⟩
      · exact absurd hyes ih.2
      · exact ⟨hinv, hno⟩
    · rw [hrun] at hwp
      exact absurd hwp.2.2 ih.2

/-- **When a stopped transaction is recovered.** After a commit and any recoveries, each stopped
anywhere, some later recovery returns, removes the journal and settles the targets exactly when
the files that the phase on disk calls for are still there. -/
theorem recovers_iff (hinj : Function.Injective hash) {faults : Faults} {stem : String}
    (ht : t.journal = none) (h : Stopped hash torn faults stem rs t s) :
    Recovers hash t rs s ↔ Recoverable hash s := by
  have hinv := h.inv hinj ht
  refine ⟨?_, recovers_of_recoverable hinj hinv⟩
  rintro ⟨k, r, s', hrun, -, -⟩
  by_contra hR
  obtain ⟨hinv', hR'⟩ := afterCalls_unrecoverable hinj hinv hR k
  have hwp := wp_run (recover_wp hinj hinv')
  rw [hrun] at hwp
  exact hR' hwp.2.2

/-- **No table is torn or lost.** Wherever a commit and the recoveries after it stop, a target has
its original or its staged content, and when there is no journal all targets have the same of the
two. -/
theorem targets_never_torn (hinj : Function.Injective hash) {faults : Faults} {stem : String}
    (ht : t.journal = none) (h : Stopped hash torn faults stem rs t s) :
    (∀ r ∈ rs, s.tables r.1 = t.tables r.1 ∨ s.tables r.1 = t.staged r.2)
      ∧ (s.journal = none → Settled t rs s) := by
  have hinv := h.inv hinj ht
  unfold Inv at hinv
  split at hinv
  · refine ⟨fun r hr => ?_, fun _ => hinv⟩
    exact hinv.imp (fun hall => hall r hr) (fun hall => hall r hr)
  · rename_i journal hj
    obtain ⟨-, hE, hok⟩ := hinv
    refine ⟨fun r hr => ?_, fun hnone => absurd (hj.symm.trans hnone) (by simp)⟩
    obtain ⟨e, he, rfl⟩ := List.mem_map.mp (hE.pairs.mem_iff.mpr hr)
    exact hok.tables e he

end

namespace Example

/-- One table that exists, and its replacement. -/
def repaired : Files Nat Nat where
  tables := fun p => if p = "links" then some 1 else none
  present := true
  staged := fun p => if p = "links.staged" then some 2 else none
  backups := fun _ => none
  journal := none
  others := false

def replacements : List (String × String) := [("links", "links.staged")]

/-- The hook before the commit raises. -/
def hookRaises : Faults := fun point => if point = .beforeCommit then some .before else none

/-- The commit after a kill in front of its step `n`. -/
def killedAt (faults : Faults) (n : Nat) : Files Nat Nat :=
  (Prog.exec (commitReplacements id id faults "alpha-latest" replacements) n repaired).state

/-- The journal was just written. -/
theorem killedAt_four_recovers : Recovers id repaired replacements (killedAt noFaults 4) :=
  (recovers_iff Function.injective_id rfl (.commit 4)).mpr (by decide)

theorem killedAt_seven_not_torn : (killedAt hookRaises 7).tables "links" = some 1
    ∨ (killedAt hookRaises 7).tables "links" = some 2 :=
  (targets_never_torn Function.injective_id rfl (.commit 7)).1 ("links", "links.staged")
    List.mem_cons_self

/-- The rollback is done and the backup is deleted, and the journal still says `prepared`. -/
theorem killedAt_seven_stuck :
    Stopped id id hookRaises "alpha-latest" replacements repaired (killedAt hookRaises 7)
    ∧ (killedAt hookRaises 7).journal.isSome = true
    ∧ ¬ Recovers id repaired replacements (killedAt hookRaises 7) := by
  refine ⟨.commit 7, by decide, ?_⟩
  rintro ⟨k, r, s', hrun, -, -⟩
  -- the recovery raises at its first step and changes nothing
  have hraises : Prog.run (recoverInterruptedTransactions id) (killedAt hookRaises 7)
      = (.error (.backupUnavailable 0), killedAt hookRaises 7) := rfl
  have hsame : afterCalls id k (killedAt hookRaises 7) = killedAt hookRaises 7 := by
    refine Function.iterate_fixed ?_ k
    show (Prog.run (recoverInterruptedTransactions id) (killedAt hookRaises 7)).2 = _
    rw [hraises]
  rw [hsame, hraises] at hrun
  cases hrun

end Example

end OsmPolygonWikidata.WikidataRecovery
