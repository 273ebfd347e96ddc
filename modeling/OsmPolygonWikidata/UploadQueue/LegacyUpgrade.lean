import OsmPolygonWikidata.UploadQueue.Resuming

/-! # Upgrading legacy envelopes exactly once

An upgrade makes a snapshot directory, writes the new envelope and only then removes the legacy
one. Nothing on disk links the two envelopes, so an upgrade that is stopped before the removal is
done again, and the directory of one that is stopped before the envelope stays for ever. The jobs
are upgraded exactly once when no upgrade is left half done, which shows in the numbers: the
snapshot directories and the legacy envelopes left are together as many as there were legacy
envelopes.
-/

namespace OsmPolygonWikidata.UploadQueue

open Durable
open Prog (wp wp_and wp_attempt wp_bind wp_exec wp_get wp_imp wp_mono wp_pure wp_run)

section

variable {C H : Type} {stateDir : Path} {s s' : Machine C H}

/-! ## Snapshot directories -/

/-- The same snapshot directories exist. -/
def SameDirs (s s' : Machine C H) : Prop := ∀ d, d ∈ s'.disk.snapshots ↔ d ∈ s.disk.snapshots

theorem SameDirs.refl (s : Machine C H) : SameDirs s s := fun _ => Iff.rfl

theorem SameDirs.trans {s'' : Machine C H} (h : SameDirs s s') (h' : SameDirs s' s'') :
    SameDirs s s'' := fun d => (h' d).trans (h d)

theorem sameDirs_writeSnapshot {dir : Path} (hdir : dir ∈ s.disk.snapshots)
    (file : SnapshotFile C) : SameDirs s (Machine.writeSnapshot dir file s) := by
  intro d
  show d ∈ s.disk.snapshots.insert dir _ ↔ _
  rw [AList.mem_insert]
  refine ⟨?_, Or.inr⟩
  rintro (rfl | hd)
  · exact hdir
  · exact hd

section

variable {hash : C → H} {localFiles : Path → Option C}

theorem fallible_sameDirs {faults : Faults} {step : FsStep} {f : Machine C H → Machine C H}
    {Q : Unit → Machine C H → Prop} {s₁ : Machine C H} (h : SameDirs s s₁)
    (hf : SameDirs s₁ (f s₁)) (hQ : ∀ s', SameDirs s s' → Q () s') :
    wp (fallible (faults step) f) Q (fun _ => SameDirs s) (SameDirs s) s₁ :=
  fallible_wp h (hQ _ (h.trans hf)) (fun _ _ => h) (fun _ _ => h.trans hf)

variable {dir : Path} {name : String} {w : Written H}

theorem copySnapshot_sameDirs (faults : Faults) (index : Nat) (localPath : Path)
    (hdir : dir ∈ s.disk.snapshots) :
    wp (copySnapshot hash localFiles faults dir index localPath)
      (fun _ => SameDirs s) (fun _ => SameDirs s) (SameDirs s) s := by
  unfold copySnapshot
  cases localFiles localPath with
  | none => exact SameDirs.refl s
  | some content =>
    simp only [wp_bind, wp_pure]
    refine fallible_sameDirs (SameDirs.refl s) (SameDirs.refl _) (fun s₁ h1 => ?_)
    refine fallible_sameDirs h1 (sameDirs_writeSnapshot ((h1 dir).mpr hdir) _) (fun s₂ h2 => ?_)
    refine fallible_sameDirs h2 (sameDirs_writeSnapshot ((h2 dir).mpr hdir) _) (fun s₃ h3 => ?_)
    exact fallible_sameDirs h3 (SameDirs.refl _) (fun s₄ h4 => h4)

theorem upgradeLegacyOperation_sameDirs (faults : Faults) (index : Nat) (entry : Entry H)
    (hdir : dir ∈ s.disk.snapshots) :
    wp (upgradeLegacyOperation hash localFiles faults dir index entry)
      (fun _ => SameDirs s) (fun _ => SameDirs s) (SameDirs s) s := by
  unfold upgradeLegacyOperation
  split
  · exact SameDirs.refl s
  · exact SameDirs.refl s
  · split
    · split
      · exact SameDirs.refl s
      · rw [wp_bind]
        exact copySnapshot_sameDirs faults index _ hdir
    · split
      · exact SameDirs.refl s
      · split
        · exact SameDirs.refl s
        · exact SameDirs.refl s

theorem upgradeLegacyOperations_sameDirs (faults : Faults) (entries : List (Entry H)) (index : Nat)
    (hdir : dir ∈ s.disk.snapshots) :
    wp (upgradeLegacyOperations hash localFiles faults dir entries index)
      (fun _ => SameDirs s) (fun _ => SameDirs s) (SameDirs s) s := by
  induction entries generalizing index s with
  | nil => exact SameDirs.refl s
  | cons entry entries ih =>
    simp only [upgradeLegacyOperations, wp_bind]
    refine wp_imp ?_ (upgradeLegacyOperation_sameDirs faults index entry hdir)
    intro entry' s₁ h₁
    exact wp_mono (fun _ _ h => h₁.trans h) (fun _ _ h => h₁.trans h)
      (fun _ h => h₁.trans h) (ih (index + 1) ((h₁ dir).mpr hdir))

/-! ## The invariant of a stopped upgrade -/

/-- The legacy envelopes of a state directory, by name. -/
def legacyNames (disk : Disk C H) : List String :=
  disk.envelopes.keys.filter (fun name =>
    match disk.envelopes.lookup name with
    | some (some e) => isLegacyEnvelope e
    | _ => false)

theorem mem_legacyNames {disk : Disk C H} : name ∈ legacyNames disk
      ↔ ∃ e, disk.envelopes.lookup name = some (some e) ∧ isLegacyEnvelope e = true := by
  rw [legacyNames, List.mem_filter]
  constructor
  · rintro ⟨-, h⟩
    split at h
    · rename_i e he
      exact ⟨e, he, h⟩
    · cases h
  · rintro ⟨e, he, hleg⟩
    refine ⟨AList.lookup_isSome.mp (by rw [he]; rfl), ?_⟩
    rw [he]
    exact hleg

theorem nodup_legacyNames (disk : Disk C H) : (legacyNames disk).Nodup :=
  (disk.envelopes.nodupKeys).filter _

theorem not_isCurrent_of_isLegacy {e : Envelope H} (h : isLegacyEnvelope e = true) :
    ¬ IsCurrent (some e) := by
  rintro ⟨e', he', hver⟩
  cases he'
  rw [not_isLegacy_of_version hver] at h
  cases h

/-- The state directory while the legacy envelopes of `disk` are upgraded, whatever stopped so
far. -/
structure Upgrading (stateDir : Path) (disk : Disk C H) (s : Machine C H) : Prop where
  sound : Sound stateDir s
  kept : ∀ name ∈ legacyNames s.disk, s.disk.envelopes.lookup name = disk.envelopes.lookup name
  source : ∀ w ∈ s.written, ∃ name e, disk.envelopes.lookup name = some (some e)
    ∧ isLegacyEnvelope e = true ∧ w.origin = .upgraded name ∧ w.Upgrades stateDir e
  present : ∀ w ∈ s.written, s.disk.envelopes.lookup (stateName w.sequence) = some (some w.envelope)
  directory : ∀ w ∈ s.written, snapshotDirForSequence stateDir w.sequence ∈ s.disk.snapshots
  numbered : ∀ dir ∈ s.disk.snapshots, ∃ n, dir = snapshotDirForSequence stateDir n
    ∧ n < s.nextSequence ∧ n ≤ readHighwater true s.disk
  removed : ∀ name ∈ legacyNames disk, name ∉ legacyNames s.disk →
    ∃ w ∈ s.written, w.origin = .upgraded name

variable {disk : Disk C H} {sequence : Nat}

theorem legacyNames_congr {d d' : Disk C H} (h : d'.envelopes = d.envelopes) :
    legacyNames d' = legacyNames d := by
  unfold legacyNames
  rw [h]

theorem Upgrading.sameFiles (h : Upgrading stateDir disk s) (hs : Sound stateDir s')
    (hsame : SameFiles s s') : Upgrading stateDir disk s' where
  sound := hs
  kept := by rw [legacyNames_congr hsame.envelopes, hsame.envelopes]; exact h.kept
  source := by rw [hsame.written]; exact h.source
  present := by rw [hsame.written, hsame.envelopes]; exact h.present
  directory := by rw [hsame.written, hsame.snapshots]; exact h.directory
  numbered := by
    rw [hsame.snapshots]
    intro dir hdir
    obtain ⟨n, hn, hlt, hle⟩ := h.numbered dir hdir
    exact ⟨n, hn, hlt.trans_le hsame.next, hsame.mark n hlt hle⟩
  removed := by
    rw [hsame.written, legacyNames_congr hsame.envelopes]
    exact h.removed

theorem Upgrading.sameDirs (h : Upgrading stateDir disk s)
    (hs : SameButSnapshots s s') (hdirs : SameDirs s s') :
    Upgrading stateDir disk s' where
  sound := h.sound.frame hs
  kept := by rw [legacyNames_congr hs.envelopes, hs.envelopes]; exact h.kept
  source := by rw [hs.written]; exact h.source
  present := by rw [hs.written, hs.envelopes]; exact h.present
  directory := by
    rw [hs.written]
    exact fun w hw => (hdirs _).mpr (h.directory w hw)
  numbered := by
    intro dir hdir
    obtain ⟨n, hn, hlt, hle⟩ := h.numbered dir ((hdirs dir).mp hdir)
    refine ⟨n, hn, by rw [hs.next]; exact hlt, ?_⟩
    unfold readHighwater
    rw [hs.highwater]
    exact hle
  removed := by
    rw [hs.written, legacyNames_congr hs.envelopes]
    exact h.removed

theorem mem_makeSnapshotDir (dir d : Path) (s : Machine C H) :
    d ∈ (s.makeSnapshotDir dir).disk.snapshots ↔ d = dir ∨ d ∈ s.disk.snapshots := by
  unfold Machine.makeSnapshotDir Machine.onSnapshots
  dsimp only
  split
  · rename_i files hfiles
    refine ⟨Or.inr, ?_⟩
    rintro (rfl | hd)
    · exact AList.lookup_isSome.mp (by rw [hfiles]; rfl)
    · exact hd
  · rw [AList.mem_insert]

theorem Upgrading.makeSnapshotDir (h : Upgrading stateDir disk s)
    (ha : Allocated stateDir sequence s) :
    Upgrading stateDir disk (s.makeSnapshotDir (snapshotDirForSequence stateDir sequence)) :=
  { h with
    sound := h.sound.frame (sameButSnapshots_makeSnapshotDir _ s)
    directory := fun w hw => (mem_makeSnapshotDir _ _ s).mpr (Or.inr (h.directory w hw))
    numbered := by
      intro dir hdir
      rcases (mem_makeSnapshotDir _ _ s).mp hdir with rfl | hdir
      · exact ⟨sequence, rfl, ha.taken, ha.marked⟩
      · exact h.numbered dir hdir }

theorem lookup_writeEnvelope (w : Written H) (s : Machine C H) (name : String) :
    (s.writeEnvelope w).disk.envelopes.lookup name
      = if name = stateName w.sequence then some (some w.envelope)
        else s.disk.envelopes.lookup name := by
  show (s.disk.envelopes.insert _ _).lookup name = _
  split
  · rename_i hname
    rw [hname, AList.lookup_insert]
  · rename_i hname
    rw [AList.lookup_insert_ne hname]

theorem Allocated.lookup_eq_none (ha : Allocated stateDir sequence s) :
    s.disk.envelopes.lookup (stateName sequence) = none := by
  cases hl : s.disk.envelopes.lookup (stateName sequence) with
  | none => rfl
  | some file =>
    obtain ⟨e, rfl, hver⟩ := ha.free file hl
    obtain ⟨w, hw, hname, -⟩ := ha.sound.recorded _ e hl hver
    have := ha.fresh w hw
    rw [stateName_injective hname] at this
    exact absurd this (lt_irrefl _)

theorem Upgrading.writeEnvelope (h : Upgrading stateDir disk s) (ha : Allocated stateDir sequence s)
    (hseq : w.sequence = sequence) {e : Envelope H}
    (hlookup : disk.envelopes.lookup name = some (some e)) (hleg : isLegacyEnvelope e = true)
    (hof : w.UpgradeOf stateDir localFiles (name, e))
    (hdir : snapshotDirForSequence stateDir sequence ∈ s.disk.snapshots) :
    Upgrading stateDir disk (s.writeEnvelope w) := by
  subst hseq
  have hfree := ha.lookup_eq_none
  have hfaith : w.Faithful stateDir := hof.upgrades.faithful ha.pos hof.origin
  have hnames : ∀ n, n ∈ legacyNames (s.writeEnvelope w).disk ↔ n ∈ legacyNames s.disk := by
    intro n
    rw [mem_legacyNames, mem_legacyNames, lookup_writeEnvelope]
    split
    · rename_i hn
      subst hn
      rw [hfree]
      constructor
      · rintro ⟨e', he', hleg'⟩
        cases he'
        rw [not_isLegacy_of_version hfaith.version] at hleg'
        cases hleg'
      · rintro ⟨e', he', -⟩
        cases he'
    · exact Iff.rfl
  have hmem : ∀ {P : Written H → Prop}, (∀ v ∈ s.written, P v) → P w →
      ∀ v ∈ (s.writeEnvelope w).written, P v := by
    intro P hP hPw v hv
    rcases List.mem_append.mp hv with hv | hv
    · exact hP v hv
    · rw [List.mem_singleton.mp hv]
      exact hPw
  refine
    { sound := ha.writeEnvelope hfaith rfl
      kept := ?_
      source := hmem h.source ⟨name, e, hlookup, hleg, hof.origin, hof.upgrades⟩
      present := hmem ?_ (by rw [lookup_writeEnvelope, if_pos rfl])
      directory := hmem h.directory hdir
      numbered := h.numbered
      removed := ?_ }
  · intro n hn
    have hn' := (hnames n).mp hn
    rw [lookup_writeEnvelope, if_neg, h.kept n hn']
    rintro rfl
    obtain ⟨e', he', -⟩ := mem_legacyNames.mp hn'
    rw [hfree] at he'
    cases he'
  · intro v hv
    rw [lookup_writeEnvelope, if_neg, h.present v hv]
    intro heq
    have := ha.fresh v hv
    rw [stateName_injective heq] at this
    exact lt_irrefl _ this
  · intro n hn hgone
    obtain ⟨v, hv, ho⟩ := h.removed n hn (fun hmem => hgone ((hnames n).mpr hmem))
    exact ⟨v, List.mem_append_left _ hv, ho⟩

theorem Upgrading.unlinkEnvelope (h : Upgrading stateDir disk s) (hname : name ∈ legacyNames s.disk)
    (hup : ∃ w ∈ s.written, w.origin = .upgraded name) :
    Upgrading stateDir disk (s.unlinkEnvelope name) := by
  have hlookup : ∀ n, n ≠ name → (s.unlinkEnvelope name).disk.envelopes.lookup n
      = s.disk.envelopes.lookup n := fun n hn => AList.lookup_erase_ne hn
  have hnames : ∀ n, n ≠ name →
      (n ∈ legacyNames (s.unlinkEnvelope name).disk ↔ n ∈ legacyNames s.disk) := by
    intro n hn
    rw [mem_legacyNames, mem_legacyNames, hlookup n hn]
  have hself : name ∉ legacyNames (s.unlinkEnvelope name).disk := by
    intro hmem
    obtain ⟨e, he, -⟩ := mem_legacyNames.mp hmem
    have hnone : (s.unlinkEnvelope name).disk.envelopes.lookup name = none :=
      AList.lookup_erase _ _
    rw [hnone] at he
    cases he
  refine { h with sound := h.sound.unlinkEnvelope name, kept := ?_, present := ?_, removed := ?_ }
  · intro n hn
    have hne : n ≠ name := fun heq => hself (heq ▸ hn)
    rw [hlookup n hne]
    exact h.kept n ((hnames n hne).mp hn)
  · intro w hw
    obtain ⟨e, he, hleg⟩ := mem_legacyNames.mp hname
    have hne : name ≠ stateName w.sequence :=
      (h.sound.others name _ he (not_isCurrent_of_isLegacy hleg)).1 w hw
    rw [hlookup _ hne.symm]
    exact h.present w hw
  · intro n hn hgone
    by_cases hne : n = name
    · rw [hne]
      exact hup
    · exact h.removed n hn (fun hmem => hgone ((hnames n hne).mpr hmem))

theorem Upgrading.restart (digits : DecimalDigits) {readable : Bool}
    (h : Upgrading stateDir disk s) (hr : Recovers digits readable s.disk) :
    Upgrading stateDir disk (s.restart digits readable) := by
  have hw : (s.restart digits readable).written = s.written := if_pos hr
  refine ⟨h.sound.restart digits readable, h.kept, by rw [hw]; exact h.source,
    by rw [hw]; exact h.present, by rw [hw]; exact h.directory, ?_, by rw [hw]; exact h.removed⟩
  intro dir hdir
  obtain ⟨n, hn, -, hle⟩ := h.numbered dir hdir
  exact ⟨n, hn, hle.trans_lt hr.le_next, hle⟩

/-! ## Upgrading and resuming -/

/-- What an upgrade of `name` leaves alone. -/
structure Grows (stateDir : Path) (name : String) (s s' : Machine C H) : Prop where
  legacy : ∀ n ∈ legacyNames s.disk, n ≠ name →
    s'.disk.envelopes.lookup n = s.disk.envelopes.lookup n
  dirs : ∀ d ∈ s.disk.snapshots, d ∈ s'.disk.snapshots
  names : ∀ n ∈ legacyNames s'.disk, n ∈ legacyNames s.disk
  fresh : ∀ w ∈ s'.written, w ∈ s.written
    ∨ snapshotDirForSequence stateDir w.sequence ∉ s.disk.snapshots

/-- **One upgrade**, stopped anywhere. -/
theorem upgradeLegacyEnvelope_keeps (faults : Faults) {payload : Envelope H}
    (h : Upgrading stateDir disk s) (hpayload : s.disk.envelopes.lookup name = some (some payload))
    (hleg : isLegacyEnvelope payload = true) :
    wp (upgradeLegacyEnvelope stateDir hash localFiles faults name payload)
      (fun r s' => Upgrading stateDir disk s' ∧ Grows stateDir name s s'
        ∧ name ∉ legacyNames s'.disk ∧ ∀ d ∈ s'.disk.snapshots, d ∈ s.disk.snapshots ∨ d = r.2.2)
      (fun _ s' => Upgrading stateDir disk s' ∧ Grows stateDir name s s'
        ∧ (envelopeUpgradable localFiles payload = false → name ∈ legacyNames s'.disk))
      (Upgrading stateDir disk) s := by
  have hname : name ∈ legacyNames s.disk := mem_legacyNames.mpr ⟨payload, hpayload, hleg⟩
  have hdisk : disk.envelopes.lookup name = some (some payload) := by
    rw [← h.kept name hname]
    exact hpayload
  -- before the new envelope is written no envelope changes
  have hgrows : ∀ s' : Machine C H, s'.disk.envelopes = s.disk.envelopes →
      s'.written = s.written → (∀ d ∈ s.disk.snapshots, d ∈ s'.disk.snapshots) →
        Grows stateDir name s s' := by
    intro s' he hw hd
    refine ⟨fun n _ _ => by rw [he], hd, by rw [legacyNames_congr he]; exact fun _ hn => hn, ?_⟩
    rw [hw]
    exact fun w hw => Or.inl hw
  have hstays : ∀ s' : Machine C H, s'.disk.envelopes = s.disk.envelopes →
      envelopeUpgradable localFiles payload = false → name ∈ legacyNames s'.disk := by
    intro s' he _
    rw [legacyNames_congr he]
    exact hname
  simp only [upgradeLegacyEnvelope, wp_bind, wp_pure]
  refine wp_mono ?_ ?_ (fun s₁ h₁ => h.sameFiles h₁.1 h₁.2) (allocateSequence_wp faults h.sound)
  · rintro sequence s₁ ⟨ha₁, hsame, hnext⟩
    have h₁ := h.sameFiles ha₁.sound hsame
    have hg₁ : Grows stateDir name s s₁ :=
      hgrows s₁ hsame.envelopes hsame.written (by rw [hsame.snapshots]; exact fun _ h => h)
    set dir := snapshotDirForSequence stateDir sequence with hdir
    have hmake := sameButSnapshots_makeSnapshotDir dir s₁
    have h₂ := h₁.makeSnapshotDir ha₁
    have hdirs : ∀ d, d ∈ (s₁.makeSnapshotDir dir).disk.snapshots
        ↔ d = dir ∨ d ∈ s.disk.snapshots := by
      intro d
      rw [mem_makeSnapshotDir, hsame.snapshots]
    have hg₂ : Grows stateDir name s (s₁.makeSnapshotDir dir) :=
      hgrows _ (hmake.envelopes.trans hsame.envelopes) (hmake.written.trans hsame.written)
        (fun d hd => (hdirs d).mpr (Or.inr hd))
    refine fallible_wp h₁ ?_ (fun _ _ => ⟨h₁, hg₁, hstays _ hsame.envelopes⟩)
      (fun _ _ => ⟨h₂, hg₂, hstays _ (hmake.envelopes.trans hsame.envelopes)⟩)
    -- the directory is a new one
    have hfresh : dir ∉ s.disk.snapshots := by
      intro hin
      obtain ⟨n, hn, hlt, -⟩ := h.numbered dir hin
      have := snapshotDirForSequence_injective hn
      omega
    have hin : dir ∈ (s₁.makeSnapshotDir dir).disk.snapshots := (hdirs dir).mpr (Or.inl rfl)
    refine wp_mono ?_ ?_ (fun s₃ hs => h₂.sameDirs hs.1 hs.2)
      (wp_and (upgradeLegacyOperations_wp faults _ _ 0 (stateName sequence) _)
        (upgradeLegacyOperations_sameDirs faults _ 0 hin))
    · rintro entries s₃ ⟨⟨hs₃, hok, ops, hres, hdesc⟩, hd₃⟩
      have h₃ := h₂.sameDirs hs₃ hd₃
      have ha₃ := (ha₁.frame hmake).frame hs₃
      have he₃ : s₃.disk.envelopes = s.disk.envelopes :=
        hs₃.envelopes.trans (hmake.envelopes.trans hsame.envelopes)
      have hdirs₃ : ∀ d, d ∈ s₃.disk.snapshots ↔ d = dir ∨ d ∈ s.disk.snapshots :=
        fun d => (hd₃ d).trans (hdirs d)
      have hw₃ : s₃.written = s.written := hs₃.written.trans (hmake.written.trans hsame.written)
      have hg₃ : Grows stateDir name s s₃ :=
        hgrows s₃ he₃ hw₃ (fun d hd => (hdirs₃ d).mpr (Or.inr hd))
      set w : Written H := ⟨sequence, newEnvelope sequence (payload.message.getD "") entries,
        .upgraded name⟩ with hw
      have hof : w.UpgradeOf stateDir localFiles (name, payload) :=
        ⟨rfl, ⟨entries, ops, rfl, hres, hdesc⟩, hok⟩
      have h₄ := h₃.writeEnvelope ha₃ (w := w) rfl hdisk hleg hof ((hdirs₃ dir).mpr (Or.inl rfl))
      have hlookup₄ : ∀ n ∈ legacyNames s.disk,
          (s₃.writeEnvelope w).disk.envelopes.lookup n = s.disk.envelopes.lookup n := by
        intro n hn
        rw [lookup_writeEnvelope, he₃, if_neg]
        rintro rfl
        obtain ⟨e, he, -⟩ := mem_legacyNames.mp hn
        have hfree := ha₃.lookup_eq_none
        rw [he₃] at hfree
        rw [hfree] at he
        cases he
      have hnames₄ : ∀ n ∈ legacyNames (s₃.writeEnvelope w).disk, n ∈ legacyNames s.disk := by
        intro n hn
        obtain ⟨e, he, hleg'⟩ := mem_legacyNames.mp hn
        rw [lookup_writeEnvelope] at he
        split at he
        · cases he
          rw [not_isLegacy_of_version (hof.upgrades.faithful ha₃.pos rfl).version] at hleg'
          cases hleg'
        · rw [he₃] at he
          exact mem_legacyNames.mpr ⟨e, he, hleg'⟩
      have hfresh₄ : ∀ v ∈ (s₃.writeEnvelope w).written, v ∈ s.written
          ∨ snapshotDirForSequence stateDir v.sequence ∉ s.disk.snapshots := by
        intro v hv
        rcases List.mem_append.mp hv with hv | hv
        · exact hg₃.fresh v hv
        · rw [List.mem_singleton.mp hv]
          exact Or.inr hfresh
      have hg₄ : Grows stateDir name s (s₃.writeEnvelope w) :=
        ⟨fun n hn _ => hlookup₄ n hn, hg₃.dirs, hnames₄, hfresh₄⟩
      have hname₄ : name ∈ legacyNames (s₃.writeEnvelope w).disk :=
        mem_legacyNames.mpr ⟨payload, by rw [hlookup₄ name hname]; exact hpayload, hleg⟩
      have h₅ := h₄.unlinkEnvelope hname₄ ⟨w, by simp [Machine.writeEnvelope], rfl⟩
      have hg₅ : Grows stateDir name s ((s₃.writeEnvelope w).unlinkEnvelope name) := by
        refine ⟨fun n hn hne => ?_, hg₃.dirs, fun n hn => hnames₄ n ?_, hfresh₄⟩
        swap
        · obtain ⟨e, he, hleg'⟩ := mem_legacyNames.mp hn
          by_cases hne : n = name
          · rw [hne]
            exact hname₄
          · have herase : ((s₃.writeEnvelope w).unlinkEnvelope name).disk.envelopes.lookup n
                = (s₃.writeEnvelope w).disk.envelopes.lookup n := AList.lookup_erase_ne hne
            rw [herase] at he
            exact mem_legacyNames.mpr ⟨e, he, hleg'⟩
        have herase : ((s₃.writeEnvelope w).unlinkEnvelope name).disk.envelopes.lookup n
            = (s₃.writeEnvelope w).disk.envelopes.lookup n := AList.lookup_erase_ne hne
        rw [herase, hlookup₄ n hn]
      -- an envelope that gets here can be upgraded
      have hnot : ∀ s' : Machine C H, envelopeUpgradable localFiles payload = false →
          name ∈ legacyNames s'.disk := by
        intro s' hbad
        have hok' : envelopeUpgradable localFiles payload = true := hok
        rw [hok'] at hbad
        cases hbad
      refine fallible_wp h₃ ?_ (fun _ _ => ⟨h₃, hg₃, hnot _⟩) (fun _ _ => ⟨h₄, hg₄, hnot _⟩)
      refine fallible_wp h₄ ?_ (fun _ _ => ⟨h₄, hg₄, hnot _⟩) (fun _ _ => ⟨h₅, hg₅, hnot _⟩)
      refine ⟨h₅, hg₅, ?_, fun d hd => ((hdirs₃ d).mp hd).symm⟩
      intro hmem
      obtain ⟨e, he, -⟩ := mem_legacyNames.mp hmem
      have hnone : ((s₃.writeEnvelope w).unlinkEnvelope name).disk.envelopes.lookup name = none :=
        AList.lookup_erase _ _
      rw [hnone] at he
      cases he
    · rintro e s₃ ⟨⟨hs₃, -⟩, hd₃⟩
      have he₃ : s₃.disk.envelopes = s.disk.envelopes :=
        hs₃.envelopes.trans (hmake.envelopes.trans hsame.envelopes)
      refine ⟨h₂.sameDirs hs₃ hd₃, hgrows s₃ he₃ ?_ ?_, hstays s₃ he₃⟩
      · exact hs₃.written.trans (hmake.written.trans hsame.written)
      · exact fun d hd => (hd₃ d).mpr ((hdirs d).mpr (Or.inr hd))
  · rintro e s₁ ⟨-, h₁, hsame⟩
    refine ⟨h.sameFiles h₁ hsame, hgrows s₁ hsame.envelopes hsame.written ?_,
      hstays s₁ hsame.envelopes⟩
    rw [hsame.snapshots]
    exact fun _ hd => hd

/-- What the upgrades of `legacy` leave. Without failing steps every envelope that can be upgraded
is, and when all can, every new directory belongs to a new envelope. -/
structure UpgradesDone (stateDir : Path) (localFiles : Path → Option C) (faults : String → Faults)
    (legacy : List (String × Envelope H)) (s s' : Machine C H) : Prop where
  dirs : ∀ d ∈ s.disk.snapshots, d ∈ s'.disk.snapshots
  names : ∀ n ∈ legacyNames s'.disk, n ∈ legacyNames s.disk
  grown : s.written <+: s'.written
  fresh : ∀ w ∈ s'.written, w ∈ s.written
    ∨ snapshotDirForSequence stateDir w.sequence ∉ s.disk.snapshots
  left : ∀ n ∈ legacyNames s.disk,
    (∀ p ∈ legacy, p.1 = n → envelopeUpgradable localFiles p.2 = false) → n ∈ legacyNames s'.disk
  all : NoFaults faults → (∀ p ∈ legacy, envelopeUpgradable localFiles p.2 = true) →
    (∀ p ∈ legacy, p.1 ∉ legacyNames s'.disk)
    ∧ ∀ d ∈ s'.disk.snapshots, d ∈ s.disk.snapshots
      ∨ ∃ w ∈ s'.written, d = snapshotDirForSequence stateDir w.sequence

theorem upgradePendingLegacy_keeps (faults : String → Faults) (stuck : SnapshotFile C → Bool)
    (legacy : List (String × Envelope H)) (seen : List Nat) (failures : List ResumeFailure)
    (upgraded : List (Job H)) (h : Upgrading stateDir disk s)
    (hseen : ∀ n ∈ seen, ∃ w ∈ s.written, w.sequence = n)
    (hnodup : (legacy.map Prod.fst).Nodup)
    (hlegacy : ∀ p ∈ legacy, s.disk.envelopes.lookup p.1 = some (some p.2)
      ∧ isLegacyEnvelope p.2 = true) :
    wp (upgradePendingLegacy stateDir hash localFiles faults stuck legacy seen failures upgraded)
      (fun _ s' => Upgrading stateDir disk s' ∧ UpgradesDone stateDir localFiles faults legacy s s')
      (fun _ => Upgrading stateDir disk) (Upgrading stateDir disk) s := by
  induction legacy generalizing seen failures upgraded s with
  | nil =>
    refine ⟨h, fun _ hd => hd, fun _ hn => hn, List.prefix_rfl, fun _ hw => Or.inl hw,
      fun _ hn _ => hn, fun _ _ => ⟨by simp, ?_⟩⟩
    exact fun d hd => Or.inl hd
  | cons head legacy ih =>
    obtain ⟨name, payload⟩ := head
    rw [List.map_cons, List.nodup_cons] at hnodup
    obtain ⟨hpayload, hleg⟩ := hlegacy (name, payload) List.mem_cons_self
    -- the envelopes still to be upgraded are not touched
    have hrest : ∀ s₁, Grows stateDir name s s₁ → ∀ p ∈ legacy,
        s₁.disk.envelopes.lookup p.1 = some (some p.2) ∧ isLegacyEnvelope p.2 = true := by
      intro s₁ hg p hp
      obtain ⟨hp1, hp2⟩ := hlegacy p (List.mem_cons_of_mem _ hp)
      have hne : p.1 ≠ name := fun heq => hnodup.1 (List.mem_map.mpr ⟨p, hp, heq⟩)
      rw [hg.legacy p.1 (mem_legacyNames.mpr ⟨p.2, hp1, hp2⟩) hne]
      exact ⟨hp1, hp2⟩
    have hstay : ∀ s₁, Grows stateDir name s s₁ → ∀ n ∈ legacyNames s.disk, n ≠ name →
        n ∈ legacyNames s₁.disk := by
      intro s₁ hg n hn hne
      obtain ⟨e, he, hleg⟩ := mem_legacyNames.mp hn
      exact mem_legacyNames.mpr ⟨e, by rw [hg.legacy n hn hne]; exact he, hleg⟩
    have hfresh : ∀ s₁ s₂ : Machine C H, Grows stateDir name s s₁ →
        (∀ w ∈ s₂.written, w ∈ s₁.written
          ∨ snapshotDirForSequence stateDir w.sequence ∉ s₁.disk.snapshots) →
        ∀ w ∈ s₂.written, w ∈ s.written
          ∨ snapshotDirForSequence stateDir w.sequence ∉ s.disk.snapshots := by
      intro s₁ s₂ hg hf w hw
      rcases hf w hw with hw | hw
      · exact hg.fresh w hw
      · exact Or.inr (fun hin => hw (hg.dirs _ hin))
    simp only [upgradePendingLegacy, wp_bind, wp_attempt]
    refine wp_mono ?_ ?_ (fun _ hk => hk.1)
      (wp_and (upgradeLegacyEnvelope_keeps (faults name) h hpayload hleg)
        (upgradeLegacyEnvelope_wp (faults name) name payload h.sound))
    · rintro ⟨sequence, envelope, dir⟩ s₁ ⟨⟨h₁, hg, hgone, hdirs⟩, hsound₁, w, hw₁, hof, hr⟩
      obtain ⟨rfl, rfl, rfl⟩ : sequence = w.sequence ∧ envelope = w.envelope
          ∧ dir = snapshotDirForSequence stateDir w.sequence := by simpa using hr
      have hmem : w ∈ s₁.written := by rw [hw₁]; simp
      have hseen₁ : ∀ n ∈ seen ++ [w.sequence], ∃ v ∈ s₁.written, v.sequence = n := by
        intro n hn
        rcases List.mem_append.mp hn with hn | hn
        · obtain ⟨v, hv, hvn⟩ := hseen n hn
          exact ⟨v, by rw [hw₁]; exact List.mem_append_left _ hv, hvn⟩
        · exact ⟨w, hmem, (List.mem_singleton.mp hn).symm⟩
      have hnew : w.sequence ∉ seen := by
        intro hin
        obtain ⟨v, hv, hvw⟩ := hseen _ hin
        have hinc := hsound₁.increasing
        rw [hw₁, List.map_append, List.pairwise_append] at hinc
        have := hinc.2.2 v.sequence (List.mem_map_of_mem hv) w.sequence (by simp)
        omega
      rw [if_neg hnew]
      refine wp_imp ?_ (ih _ _ _ h₁ hseen₁ hnodup.2 (hrest s₁ hg))
      rintro r s₂ ⟨h₂, hd₂, hn₂, hpre₂, hf₂, hstay₂, hall⟩
      refine ⟨h₂, fun d hd => hd₂ d (hg.dirs d hd), fun n hn => hg.names n (hn₂ n hn), ?_,
        hfresh s₁ s₂ hg hf₂, ?_, ?_⟩
      · exact (List.prefix_append _ _).trans (by rw [← hw₁]; exact hpre₂)
      · intro n hn hbad
        refine hstay₂ n ?_ (fun p hp => hbad p (List.mem_cons_of_mem _ hp))
        refine hstay s₁ hg n hn ?_
        rintro rfl
        have hno := hbad (n, payload) List.mem_cons_self rfl
        have hyes : envelopeUpgradable localFiles payload = true := hof.upgradable
        rw [hyes] at hno
        cases hno
      · intro hno hok
        obtain ⟨hgone₂, hdirs₂⟩ := hall hno (fun p hp => hok p (List.mem_cons_of_mem _ hp))
        constructor
        · intro p hp
          rcases List.mem_cons.mp hp with rfl | hp
          · exact fun hin => hgone (hn₂ _ hin)
          · exact hgone₂ p hp
        · intro d hd
          rcases hdirs₂ d hd with hd | hd
          · rcases hdirs d hd with hd | rfl
            · exact Or.inl hd
            · exact Or.inr ⟨w, hpre₂.subset hmem, rfl⟩
          · exact Or.inr hd
    · rintro e s₁ ⟨⟨h₁, hg, hleft⟩, -, hpre₁, hrefused, -⟩
      split
      · have hseen₁ : ∀ n ∈ seen, ∃ v ∈ s₁.written, v.sequence = n := by
          intro n hn
          obtain ⟨v, hv, hvn⟩ := hseen n hn
          exact ⟨v, hpre₁.subset hv, hvn⟩
        refine wp_imp ?_ (ih _ _ _ h₁ hseen₁ hnodup.2 (hrest s₁ hg))
        rintro r s₂ ⟨h₂, hd₂, hn₂, hpre₂, hf₂, hstay₂, -⟩
        refine ⟨h₂, fun d hd => hd₂ d (hg.dirs d hd), fun n hn => hg.names n (hn₂ n hn),
          hpre₁.trans hpre₂, hfresh s₁ s₂ hg hf₂, ?_, ?_⟩
        · intro n hn hbad
          refine hstay₂ n ?_ (fun p hp => hbad p (List.mem_cons_of_mem _ hp))
          by_cases hne : n = name
          · rw [hne]
            exact hleft (hbad (name, payload) List.mem_cons_self hne.symm)
          · exact hstay s₁ hg n hn hne
        intro hno hok
        have hbad := (hrefused.cause.resolve_left (hno.not_fromFault name e)).1
        rw [hok (name, payload) List.mem_cons_self] at hbad
        cases hbad
      · exact h₁

theorem keys_legacyFiles (files : List (String × Option (Envelope H))) :
    ((legacyFiles files).map Prod.fst).Sublist (files.map Prod.fst) := by
  induction files with
  | nil => exact List.Sublist.slnil
  | cons f files ih =>
    obtain ⟨name, file⟩ := f
    cases file with
    | none => exact ih.cons name
    | some e =>
      by_cases hleg : isLegacyEnvelope e = true
      · have hcons : legacyFiles ((name, some e) :: files) = (name, e) :: legacyFiles files := by
          simp [legacyFiles, hleg]
        rw [hcons]
        exact ih.cons_cons name
      · have hcons : legacyFiles ((name, some e) :: files) = legacyFiles files := by
          simp [legacyFiles, hleg]
        rw [hcons]
        exact ih.cons name

theorem nodup_keys_legacyFiles (unreadable : String → Bool) (d : Disk C H) :
    ((legacyFiles (sortedFiles unreadable d)).map Prod.fst).Nodup :=
  (nodup_keys_sortedFiles unreadable d).sublist (keys_legacyFiles _)

variable (hash localFiles) in
/-- **A resume**, stopped anywhere. -/
theorem resumePending_keeps (unreadable : String → Bool) (faults : String → Faults)
    (stuck : SnapshotFile C → Bool) (h : Upgrading stateDir disk s) :
    wp (resumePending stateDir hash localFiles unreadable faults stuck)
      (fun _ s' => Upgrading stateDir disk s' ∧ UpgradesDone stateDir localFiles faults
        (legacyFiles (sortedFiles unreadable s.disk)) s s')
      (fun _ => Upgrading stateDir disk) (Upgrading stateDir disk) s := by
  simp only [resumePending, wp_bind, wp_get]
  have hspec := pendingEnvelopes_spec unreadable h.sound
  cases hpending : pendingEnvelopes unreadable s.disk with
  | error e => exact h
  | ok found =>
    rw [hpending] at hspec
    obtain ⟨cur, -, hseen, hlegacy, -, hmem⟩ := hspec
    simp only [wp_bind, hlegacy]
    refine wp_imp ?_ (upgradePendingLegacy_keeps faults stuck _ found.seen [] [] h ?_
        (nodup_keys_legacyFiles unreadable s.disk) ?_)
    · rintro ⟨upgraded, skipped⟩ s₁ ⟨h₁, hdone⟩
      dsimp only
      split
      · exact h₁
      · exact ⟨h₁, hdone⟩
    · intro n hn
      rw [hseen] at hn
      obtain ⟨w, hw, hwn⟩ := List.mem_map.mp hn
      exact ⟨w, ((hmem w).mp hw).1, hwn⟩
    · intro p hp
      obtain ⟨hp1, hp2⟩ := mem_legacyFiles.mp hp
      exact ⟨mem_sortedFiles hp1, hp2⟩

/-! ## Counting upgrades -/

/-- The legacy envelope a written envelope came from. -/
def Written.source (w : Written H) : String :=
  match w.origin with
  | .upgraded name => name
  | .submitted _ => ""

/-- The legacy envelopes that are gone. -/
def removedNames (disk : Disk C H) (s : Machine C H) : List String :=
  (legacyNames disk).filter (fun name => name ∉ legacyNames s.disk)

variable (h : Upgrading stateDir disk s)

include h

theorem Upgrading.legacyNames_subset (hname : name ∈ legacyNames s.disk) :
    name ∈ legacyNames disk := by
  obtain ⟨e, he, hleg⟩ := mem_legacyNames.mp hname
  rw [h.kept name hname] at he
  exact mem_legacyNames.mpr ⟨e, he, hleg⟩

theorem Upgrading.removedNames_perm :
    (removedNames disk s ++ legacyNames s.disk).Perm (legacyNames disk) := by
  have hthere : ((legacyNames disk).filter (fun name => name ∈ legacyNames s.disk)).Perm
      (legacyNames s.disk) := by
    refine (List.perm_ext_iff_of_nodup ((nodup_legacyNames disk).filter _)
      (nodup_legacyNames s.disk)).mpr ?_
    intro name
    rw [List.mem_filter, decide_eq_true_eq]
    exact ⟨And.right, fun hname => ⟨h.legacyNames_subset hname, hname⟩⟩
  have hsplit := List.filter_append_perm (fun name => decide (name ∈ legacyNames s.disk))
    (legacyNames disk)
  refine (List.perm_append_comm.trans (hthere.symm.append_right _)).trans ?_
  simpa [removedNames] using hsplit

theorem Upgrading.removedNames_subset : removedNames disk s ⊆ s.written.map Written.source := by
  intro name hname
  rw [removedNames, List.mem_filter, decide_eq_true_eq] at hname
  obtain ⟨w, hw, ho⟩ := h.removed name hname.1 hname.2
  refine List.mem_map.mpr ⟨w, hw, ?_⟩
  rw [Written.source, ho]

theorem Upgrading.nodup_dirs :
    (s.written.map (fun w => snapshotDirForSequence stateDir w.sequence)).Nodup := by
  have hinc := h.sound.nodup_sequences
  have hinj : Function.Injective (snapshotDirForSequence stateDir) :=
    snapshotDirForSequence_injective
  have := hinc.map hinj
  rwa [List.map_map] at this

theorem Upgrading.dirs_subset : s.written.map (fun w => snapshotDirForSequence stateDir w.sequence)
      ⊆ s.disk.snapshots.keys := by
  intro d hd
  obtain ⟨w, hw, rfl⟩ := List.mem_map.mp hd
  exact h.directory w hw

theorem Upgrading.counts : (removedNames disk s).length ≤ s.written.length
    ∧ s.written.length ≤ s.disk.snapshots.keys.length
    ∧ (removedNames disk s).length + (legacyNames s.disk).length = (legacyNames disk).length := by
  refine ⟨?_, ?_, ?_⟩
  · have := (List.Nodup.subperm ((nodup_legacyNames disk).filter _) h.removedNames_subset).length_le
    rwa [List.length_map] at this
  · have := (h.nodup_dirs.subperm h.dirs_subset).length_le
    rwa [List.length_map] at this
  · rw [← List.length_append]
    exact h.removedNames_perm.length_eq

omit h

theorem mem_legacyFiles_sortedFiles {d : Disk C H} {p : String × Envelope H} :
    p ∈ legacyFiles (sortedFiles (fun _ => false) d)
      ↔ d.envelopes.lookup p.1 = some (some p.2) ∧ isLegacyEnvelope p.2 = true := by
  rw [mem_legacyFiles]
  refine and_congr_left (fun _ => ⟨mem_sortedFiles, fun h => ?_⟩)
  refine List.mem_map.mpr ⟨p.1, ?_, by rw [h]; rfl⟩
  rw [(List.perm_insertionSort _ _).mem_iff]
  exact AList.lookup_isSome.mp (by rw [h]; rfl)

theorem keys_legacyFiles_perm (d : Disk C H) :
    ((legacyFiles (sortedFiles (fun _ => false) d)).map Prod.fst).Perm (legacyNames d) := by
  refine (List.perm_ext_iff_of_nodup (nodup_keys_legacyFiles _ d) (nodup_legacyNames d)).mpr ?_
  intro name
  rw [mem_legacyNames, List.mem_map]
  constructor
  · rintro ⟨p, hp, rfl⟩
    exact ⟨p.2, mem_legacyFiles_sortedFiles.mp hp⟩
  · rintro ⟨e, he⟩
    exact ⟨(name, e), mem_legacyFiles_sortedFiles.mpr he, rfl⟩

/-! ## What a later resume returns -/

variable (disk) in
/-- The upload carries out the legacy envelope of that name. -/
def StoredUpload.CarriesOut (name : String) (u : StoredUpload H) : Prop :=
  ∃ e, disk.envelopes.lookup name = some (some e) ∧ e.message = some u.message
    ∧ List.Forall₂ (fun op entry => PublicationOp.Describes entry op) u.ops (e.ops.getD [])

theorem Upgrading.carriesOut (h : Upgrading stateDir disk s) (hw : w ∈ s.written)
    {u : StoredUpload H} (hu : w.Restored stateDir u) : u.CarriesOut disk w.source := by
  obtain ⟨name, e, he, hleg, ho, entries, ops, henv, hres, hdesc⟩ := h.source w hw
  obtain ⟨message, entries', ops', henv', hres', rfl⟩ := hu
  rw [henv] at henv'
  obtain ⟨rfl, rfl⟩ : e.message.getD "" = message ∧ entries = entries' := by
    simpa [newEnvelope] using henv'
  rw [hres] at hres'
  cases hres'
  refine ⟨e, ?_, ?_, hdesc⟩
  · rw [Written.source, ho]
    exact he
  · have hsome : e.message.isSome = true := by
      simp only [isLegacyEnvelope, Bool.and_eq_true] at hleg
      exact hleg.1.2
    obtain ⟨message, hmessage⟩ := Option.isSome_iff_exists.mp hsome
    rw [hmessage]
    rfl

theorem Upgrading.carryOut (h : Upgrading stateDir disk s) {ws : List (Written H)}
    {us : List (StoredUpload H)} (hrs : List.Forall₂ (Written.Restored stateDir) ws us)
    (hws : ∀ w ∈ ws, w ∈ s.written) :
    List.Forall₂ (StoredUpload.CarriesOut disk) (ws.map Written.source) us := by
  induction hrs with
  | nil => exact List.Forall₂.nil
  | @cons w u ws us hu _ ih =>
    exact List.Forall₂.cons (h.carriesOut (hws w List.mem_cons_self) hu)
      (ih (fun v hv => hws v (List.mem_cons_of_mem _ hv)))

theorem source_of_upgradeOf {done : List (String × Envelope H)} {upg : List (Written H)}
    (h : List.Forall₂ (fun p w => Written.UpgradeOf stateDir localFiles p w) done upg) :
    upg.map Written.source = done.map Prod.fst := by
  induction h with
  | nil => rfl
  | cons hof _ ih => rw [List.map_cons, List.map_cons, ih, Written.source, hof.origin]

variable (hash localFiles) in
theorem Upgrading.resumed (h : Upgrading stateDir disk s) (stuck : SnapshotFile C → Bool) :
    ∃ r s', Prog.run (resumePending stateDir hash localFiles (fun _ => false) (fun _ _ => none)
        stuck) s = (.ok r, s')
      ∧ Upgrading stateDir disk s'
      ∧ UpgradesDone stateDir localFiles (fun _ _ => none)
        (legacyFiles (sortedFiles (fun _ => false) s.disk)) s s'
      ∧ ∃ ws upg, List.Forall₂ (Written.Restored stateDir) ws r.uploads ∧ ws.Perm s'.written
        ∧ s'.written = s.written ++ upg
        ∧ upg.map Written.source = ((legacyFiles (sortedFiles (fun _ => false) s.disk)).filter
          (fun p => envelopeUpgradable localFiles p.2)).map Prod.fst := by
  have hnone : NoFaults (fun _ _ => none) := fun _ _ => rfl
  have hint : ¬ Interrupts (fun _ _ => none) := by
    rintro ⟨name, step, moment, hstep⟩
    cases hstep
  obtain ⟨r, s', hrun⟩ : ∃ r s', Prog.run (resumePending stateDir hash localFiles
      (fun _ => false) (fun _ _ => none) stuck) s = (.ok r, s') :=
    resumePending_returns _ stuck h.sound hint
  have hwp := wp_run (wp_and
    (resumePending_wp hash localFiles (fun _ => false) (fun _ _ => none) stuck h.sound)
    (resumePending_keeps hash localFiles (fun _ => false) (fun _ _ => none) stuck h))
  rw [hrun] at hwp
  obtain ⟨⟨h', -, cur, upg, ws, done, hrs, rfl, hnodup, hupg, hdone, hall, hcur⟩, hkeep, hdone'⟩ := hwp
  obtain ⟨rfl, hwritten⟩ := hall hnone
  have hperm : cur.Perm s.written := by
    refine (List.perm_ext_iff_of_nodup (List.nodup_append.mp hnodup).1 ?_).mpr ?_
    · exact h.sound.nodup_written
    · intro w
      rw [hcur]
      exact ⟨And.left, fun hw => ⟨hw, h.present w hw⟩⟩
  refine ⟨r, s', hrun, hkeep, hdone', _, upg, hrs, ?_, hwritten, source_of_upgradeOf hdone⟩
  rw [hwritten]
  exact (List.perm_insertionSort _ _).trans (hperm.append_right upg)

theorem Written.Restored.paths {w : Written H} {u : StoredUpload H}
    (h : w.Restored stateDir u) : u.statePath = stateName w.sequence
      ∧ u.snapshotDir = some (snapshotDirForSequence stateDir w.sequence) := by
  obtain ⟨message, entries, ops, -, -, rfl⟩ := h
  exact ⟨rfl, rfl⟩

/-! ## Exactly once -/

variable (stateDir hash localFiles disk) in
/-- A resume that nothing stops returns each legacy job of `disk` exactly once, and leaves no
envelope and no snapshot directory that belongs to none of them. -/
def UpgradedOnce (s : Machine C H) : Prop :=
  ∀ stuck, ∃ r s', Prog.run (resumePending stateDir hash localFiles (fun _ => false)
      (fun _ _ => none) stuck) s = (.ok r, s')
    ∧ (∃ names, names.Perm (legacyNames disk)
      ∧ List.Forall₂ (StoredUpload.CarriesOut disk) names r.uploads)
    ∧ (∀ name ∈ s'.disk.envelopes, ∃ u ∈ r.uploads, u.statePath = name)
    ∧ ∀ dir ∈ s'.disk.snapshots, ∃ u ∈ r.uploads, u.snapshotDir = some dir

variable (localFiles) in
/-- All legacy envelopes that are left can be upgraded. -/
def AllUpgradable (d : Disk C H) : Prop :=
  ∀ name e, d.envelopes.lookup name = some (some e) → isLegacyEnvelope e = true →
    envelopeUpgradable localFiles e = true

/-- No upgrade was left between its snapshot directory and the removal of its legacy envelope:
the snapshot directories and the legacy envelopes left are as many as there were legacy
envelopes. -/
def NoneHalfDone (disk d : Disk C H) : Prop :=
  d.snapshots.keys.length + (legacyNames d).length = (legacyNames disk).length

instance (disk d : Disk C H) : Decidable (NoneHalfDone disk d) :=
  inferInstanceAs (Decidable (_ = _))

variable (h : Upgrading stateDir disk s)

include h

theorem Upgrading.ofNoneHalfDone (hn : NoneHalfDone disk s.disk) :
    (removedNames disk s).Perm (s.written.map Written.source)
    ∧ ∀ d ∈ s.disk.snapshots, ∃ w ∈ s.written, d = snapshotDirForSequence stateDir w.sequence := by
  obtain ⟨h1, h2, h3⟩ := h.counts
  have hn' : s.disk.snapshots.keys.length + (legacyNames s.disk).length
    = (legacyNames disk).length := hn
  constructor
  · refine (List.Nodup.subperm ((nodup_legacyNames disk).filter _)
      h.removedNames_subset).perm_of_length_le ?_
    rw [List.length_map]
    show s.written.length ≤ (removedNames disk s).length
    omega
  · intro d hd
    have hperm := (h.nodup_dirs.subperm h.dirs_subset).perm_of_length_le
      (by rw [List.length_map]; omega)
    obtain ⟨w, hw, rfl⟩ := List.mem_map.mp (hperm.mem_iff.mpr hd)
    exact ⟨w, hw, rfl⟩

theorem Upgrading.once_of_noneHalfDone
    (hall : AllUpgradable localFiles s.disk) (hn : NoneHalfDone disk s.disk) :
    UpgradedOnce stateDir hash localFiles disk s := by
  intro stuck
  obtain ⟨r, s', hrun, h', hdone, ws, upg, hrs, hws, hwritten, hsource⟩ :=
    h.resumed hash localFiles stuck
  obtain ⟨hperm, hdirs⟩ := h.ofNoneHalfDone hn
  have hup : ∀ p ∈ legacyFiles (sortedFiles (fun _ => false) s.disk),
      envelopeUpgradable localFiles p.2 = true := by
    intro p hp
    obtain ⟨hp1, hp2⟩ := mem_legacyFiles_sortedFiles.mp hp
    exact hall p.1 p.2 hp1 hp2
  obtain ⟨hgone, hnew⟩ := hdone.all (fun _ _ => rfl) hup
  have hreturned : ∀ w ∈ s'.written, ∃ u ∈ r.uploads, w.Restored stateDir u := by
    intro w hw
    obtain ⟨u, hu, hwu⟩ := exists_of_forall₂_right hrs.flip (hws.mem_iff.mpr hw)
    exact ⟨u, hu, hwu⟩
  refine ⟨r, s', hrun, ⟨ws.map Written.source, ?_, h'.carryOut hrs (fun w hw => hws.mem_iff.mp hw)⟩,
    ?_, ?_⟩
  · rw [List.filter_eq_self.mpr hup] at hsource
    have hnames : (s'.written.map Written.source).Perm
        (removedNames disk s ++ legacyNames s.disk) := by
      rw [hwritten, List.map_append, hsource]
      exact hperm.symm.append (keys_legacyFiles_perm s.disk)
    exact ((hws.map _).trans hnames).trans h.removedNames_perm
  · intro name hname
    obtain ⟨file, hfile⟩ := Option.isSome_iff_exists.mp (AList.lookup_isSome.mpr hname)
    by_cases hcur : IsCurrent file
    · obtain ⟨e, rfl, hver⟩ := hcur
      obtain ⟨w, hw, rfl, -⟩ := h'.sound.recorded name e hfile hver
      obtain ⟨u, hu, hwu⟩ := hreturned w hw
      exact ⟨u, hu, hwu.paths.1⟩
    · -- a legacy envelope that is left would have been upgraded
      obtain ⟨e, rfl, hleg⟩ := h'.sound.legacy name file hfile hcur
      have hthere : name ∈ legacyNames s'.disk := mem_legacyNames.mpr ⟨e, hfile, hleg⟩
      obtain ⟨e₀, he₀, hleg₀⟩ := mem_legacyNames.mp (hdone.names name hthere)
      exact absurd hthere (hgone (name, e₀) (mem_legacyFiles_sortedFiles.mpr ⟨he₀, hleg₀⟩))
  · intro dir hdir
    have hwhose : ∃ w ∈ s'.written, dir = snapshotDirForSequence stateDir w.sequence := by
      rcases hnew dir hdir with hold | hnew
      · obtain ⟨w, hw, rfl⟩ := hdirs dir hold
        exact ⟨w, hdone.grown.subset hw, rfl⟩
      · exact hnew
    obtain ⟨w, hw, rfl⟩ := hwhose
    obtain ⟨u, hu, hwu⟩ := hreturned w hw
    exact ⟨u, hu, hwu.paths.2⟩

theorem Upgrading.noneHalfDone_of_once (honce : UpgradedOnce stateDir hash localFiles disk s) :
    AllUpgradable localFiles s.disk ∧ NoneHalfDone disk s.disk := by
  obtain ⟨r, s', hrun, ⟨names, hnames, hcarry⟩, henvs, hdirs⟩ := honce (fun _ => false)
  obtain ⟨r', s'', hrun', h', hdone, ws, upg, hrs, hws, hwritten, hsource⟩ :=
    h.resumed hash localFiles (fun _ => false)
  rw [hrun] at hrun'
  cases hrun'
  have hwhose : ∀ u ∈ r.uploads, ∃ w ∈ s'.written, w.Restored stateDir u := by
    intro u hu
    obtain ⟨w, hw, hwu⟩ := exists_of_forall₂_right hrs hu
    exact ⟨w, hws.mem_iff.mp hw, hwu⟩
  have hall : AllUpgradable localFiles s.disk := by
    intro name e he hleg
    by_contra hbad
    -- the envelope is still there after the resume, and no job is its own
    have hthere : name ∈ legacyNames s'.disk := by
      refine hdone.left name (mem_legacyNames.mpr ⟨e, he, hleg⟩) ?_
      rintro ⟨name', e'⟩ hp rfl
      have he' := (mem_legacyFiles_sortedFiles.mp hp).1
      rw [he] at he'
      cases he'
      exact Bool.eq_false_iff.mpr hbad
    obtain ⟨e', he', hleg'⟩ := mem_legacyNames.mp hthere
    obtain ⟨u, hu, rfl⟩ := henvs name (AList.lookup_isSome.mp (by rw [he']; rfl))
    obtain ⟨w, hw, hwu⟩ := hwhose u hu
    rw [hwu.paths.1, h'.present w hw] at he'
    cases he'
    rw [not_isLegacy_of_version (h'.sound.faithful w hw).version] at hleg'
    cases hleg'
  refine ⟨hall, ?_⟩
  have hup : ∀ p ∈ legacyFiles (sortedFiles (fun _ => false) s.disk),
      envelopeUpgradable localFiles p.2 = true := by
    intro p hp
    obtain ⟨hp1, hp2⟩ := mem_legacyFiles_sortedFiles.mp hp
    exact hall p.1 p.2 hp1 hp2
  have hupg : upg.length = (legacyNames s.disk).length := by
    rw [List.filter_eq_self.mpr hup] at hsource
    have := congrArg List.length hsource
    rw [List.length_map, (keys_legacyFiles_perm s.disk).length_eq] at this
    exact this
  have hlength : s.written.length + upg.length = (legacyNames disk).length := by
    rw [← List.length_append, ← hwritten, ← hws.length_eq, hrs.length_eq, ← hcarry.length_eq,
      hnames.length_eq]
  -- every directory is that of an envelope written before
  have hsub : s.disk.snapshots.keys
      ⊆ s.written.map (fun w => snapshotDirForSequence stateDir w.sequence) := by
    intro d hd
    obtain ⟨u, hu, hdir⟩ := hdirs d (hdone.dirs d hd)
    obtain ⟨w, hw, hwu⟩ := hwhose u hu
    obtain rfl : snapshotDirForSequence stateDir w.sequence = d := by
      rw [hwu.paths.2] at hdir
      exact Option.some.inj hdir
    exact List.mem_map_of_mem ((hdone.fresh w hw).resolve_right (fun hno => hno hd))
  have hle := (List.Nodup.subperm s.disk.snapshots.nodupKeys hsub).length_le
  have hge := h.counts.2.1
  rw [List.length_map] at hle
  have hle' : s.disk.snapshots.keys.length ≤ s.written.length := hle
  unfold NoneHalfDone
  omega

omit h

end

variable (digits : DecimalDigits) (stateDir : Path) (hash : C → H)

/-- The states that resumes of the legacy envelopes of `disk` reach, each killed in front of any
of its steps, raising or returning. The starts read the high-water file or do not need it. -/
inductive Resumes (disk : Disk C H) : Machine C H → Prop where
  | start (readable : Bool) (hr : Recovers digits readable disk) :
      Resumes disk (Machine.restart digits readable ⟨disk, 1, []⟩)
  | resume {s : Machine C H} (localFiles : Path → Option C) (unreadable : String → Bool)
      (faults : String → Faults) (stuck : SnapshotFile C → Bool) (n : Nat) (readable : Bool)
      (h : Resumes disk s)
      (hr : Reopened (Recovers digits) readable (Prog.exec
        (resumePending stateDir hash localFiles unreadable faults stuck) n s)) :
      Resumes disk (nextMachine digits readable (Prog.exec
        (resumePending stateDir hash localFiles unreadable faults stuck) n s))
  | restart {s : Machine C H} (readable : Bool) (h : Resumes disk s)
      (hr : Recovers digits readable s.disk) : Resumes disk (s.restart digits readable)

variable {digits stateDir hash} {disk : Disk C H}

variable (hdisk : OnlyLegacy disk) (hdirs : disk.snapshots = ∅)

include hdisk hdirs

theorem OnlyLegacy.upgrading (readable : Bool) :
    Upgrading stateDir disk (Machine.restart digits readable ⟨disk, 1, []⟩) where
  sound := hdisk.sound readable
  kept := fun _ _ => rfl
  source := by simp [restart_written_nil]
  present := by simp [restart_written_nil]
  directory := by simp [restart_written_nil]
  numbered := by
    intro dir hdir
    have hdir' : dir ∈ disk.snapshots := hdir
    rw [hdirs] at hdir'
    exact absurd hdir' (AList.notMem_empty dir)
  removed := fun name hname hgone => absurd hname hgone

theorem Resumes.upgrading
    (h : Resumes digits stateDir hash disk s) : Upgrading stateDir disk s := by
  induction h with
  | start readable _ => exact hdisk.upgrading hdirs readable
  | @resume s localFiles unreadable faults stuck n readable _ hr ih =>
    have hmeets := wp_exec (resumePending_keeps hash localFiles unreadable faults stuck ih) n
    revert hmeets hr
    cases Prog.exec (resumePending stateDir hash localFiles unreadable faults stuck) n s with
    | done _ s' => exact fun _ => And.left
    | raised _ s' => exact fun _ => id
    | killed s' => exact fun hr h => h.restart digits hr
  | restart readable _ hr ih => exact ih.restart digits hr

/-- **When legacy envelopes are upgraded exactly once.** After any resumes, stopped anywhere, a
later resume returns each legacy job exactly once and leaves nothing that belongs to none of them,
exactly when the legacy envelopes left can be upgraded and no upgrade was left half done. -/
theorem upgradedOnce_iff (h : Resumes digits stateDir hash disk s) (localFiles : Path → Option C) :
    UpgradedOnce stateDir hash localFiles disk s
      ↔ AllUpgradable localFiles s.disk ∧ NoneHalfDone disk s.disk := by
  have hup := h.upgrading hdisk hdirs
  exact ⟨hup.noneHalfDone_of_once, fun hc => hup.once_of_noneHalfDone hc.1 hc.2⟩

omit hdisk hdirs

end

namespace Example

/-- The first resume, killed in front of step `n`, and a new process. -/
def killedAt (n : Nat) : Machine Nat Nat :=
  nextMachine asciiDigits true (Prog.exec (resumePending stateDir id (fun _ => none)
    (fun _ => false) (fun _ _ => none) (fun _ => false)) n
    (Machine.restart asciiDigits true ⟨disk, 1, []⟩))

theorem resumes_killedAt (n : Nat) : Resumes asciiDigits stateDir id disk (killedAt n) := by
  refine .resume _ _ _ _ n true (.start true (recovers _)) ?_
  cases Prog.exec (resumePending stateDir id (fun _ => none) (fun _ => false) (fun _ _ => none)
    (fun _ => false)) n (Machine.restart asciiDigits true ⟨disk, 1, []⟩) with
  | done _ _ => trivial
  | raised _ _ => trivial
  | killed s => exact recovers _

/-- Killed before the snapshot directory, the upgrade is done once. -/
theorem killedAt_two_upgradedOnce : UpgradedOnce stateDir id (fun _ => none) disk (killedAt 2) := by
  refine (upgradedOnce_iff onlyLegacy rfl (resumes_killedAt 2) (fun _ => none)).mpr ⟨?_, by decide⟩
  intro name e he _
  have he' : disk.envelopes.lookup name = some (some e) := he
  have hname : name ∈ disk.envelopes := AList.lookup_isSome.mp (by rw [he']; rfl)
  obtain rfl : name = "legacy-id.json" := List.mem_singleton.mp hname
  have hlookup : disk.envelopes.lookup "legacy-id.json" = some (some legacyEnvelope) := by decide
  rw [hlookup] at he'
  cases he'
  decide

/-- Killed between the new envelope and the removal of the legacy one, the job is returned twice. -/
theorem killedAt_four_twice : Resumes asciiDigits stateDir id disk (killedAt 4)
    ∧ ¬ UpgradedOnce stateDir id (fun _ => none) disk (killedAt 4) := by
  refine ⟨resumes_killedAt 4, ?_⟩
  intro honce
  obtain ⟨r, s', hrun, ⟨names, hperm, hcarry⟩, -⟩ := honce (fun _ => false)
  have htwo : (Prog.run (resumePending stateDir id (fun _ => none) (fun _ => false)
      (fun _ _ => none) (fun _ => false)) (killedAt 4)).1.toOption.map
        (fun r => r.uploads.length) = some 2 := by decide
  rw [hrun] at htwo
  have hlen : r.uploads.length = 2 := Option.some.inj htwo
  have hone : (legacyNames disk).length = 1 := by decide
  rw [← hcarry.length_eq, hperm.length_eq, hone] at hlen
  cases hlen

end Example

end OsmPolygonWikidata.UploadQueue
