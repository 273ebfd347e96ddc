import OsmPolygonWikidata.UploadQueue.Sequences

/-! # Resuming uploads

A resume reads every envelope, numbers the legacy ones and returns the jobs by number. All its
steps keep the invariant of the sequence numbers, so it never meets a number twice, and what it
returns of the submitted jobs comes in the order of their submission.
-/

namespace OsmPolygonWikidata.UploadQueue

open Durable
open Prog (wp wp_attempt wp_bind wp_exec wp_get wp_imp wp_mono wp_pure wp_returned wp_returns)

section

variable {C H : Type} {stateDir : Path} {s s' : Machine C H}

section

variable {hash : C → H} {localFiles : Path → Option C}

/-! ## Upgrading -/

/-- The operation an entry of an envelope describes. -/
def PublicationOp.Describes (e : Entry H) : PublicationOp → Prop
  | .add pathInRepo localPath _ =>
    e.action = some "add" ∧ e.pathInRepo = some pathInRepo ∧ e.localPath = some localPath
  | .delete pathInRepo =>
    e.action = some "delete" ∧ e.pathInRepo = some pathInRepo ∧ e.localPath = none

variable (localFiles) in
/-- The entry describes an operation, and the file it adds is there. -/
def entryUpgradable (e : Entry H) : Bool :=
  match e.action, e.pathInRepo, e.localPath with
  | some action, some _, some localPath => action = "add" && (localFiles localPath).isSome
  | some action, some _, none => action = "delete"
  | _, _, _ => false

variable (localFiles) in
/-- All operations of a legacy envelope can be upgraded. -/
def envelopeUpgradable (payload : Envelope H) : Bool :=
  (payload.ops.getD []).all (entryUpgradable localFiles)

theorem upgradeLegacyOperation_wp (faults : Faults) (dir : Path) (index : Nat) (entry : Entry H)
    (statePath : String) (s : Machine C H) :
    wp (upgradeLegacyOperation hash localFiles faults dir index entry)
      (fun entry' s' => SameButSnapshots s s' ∧ entryUpgradable localFiles entry = true
        ∧ ∃ op, resumeOperation entry' statePath dir = .ok (op, entry'.sha256) ∧ op.Describes entry)
      (fun e s' => SameButSnapshots s s' ∧ Refused faults (entryUpgradable localFiles entry) e)
      (SameButSnapshots s) s := by
  have hrefl := SameButSnapshots.refl s
  obtain ⟨action, pathInRepo, localPath, snapshotPath, sha256⟩ := entry
  cases action with
  | none => exact ⟨hrefl, rfl, Or.inr ⟨rfl, rfl⟩⟩
  | some action =>
    cases pathInRepo with
    | none => exact ⟨hrefl, rfl, Or.inr ⟨rfl, rfl⟩⟩
    | some pathInRepo =>
      simp only [upgradeLegacyOperation]
      by_cases hadd : action = "add"
      · subst hadd
        rw [if_pos rfl]
        cases localPath with
        | none => exact ⟨hrefl, rfl, Or.inr ⟨rfl, rfl⟩⟩
        | some localPath =>
          have hok : entryUpgradable localFiles
              (⟨some "add", some pathInRepo, some localPath, snapshotPath, sha256⟩ : Entry H)
                = (localFiles localPath).isSome := by simp [entryUpgradable]
          rw [hok]
          simp only [wp_bind]
          refine wp_imp ?_ (copySnapshot_wp faults dir index localPath s)
          rintro ⟨path, sha⟩ s' ⟨hs, hin, hfile⟩
          have hin' : isInside path dir = true := hin
          refine ⟨hs, hfile, .add pathInRepo localPath (some path), ?_, rfl, rfl, rfl⟩
          simp [resumeOperation, requiredString, validateResumeSnapshot, publicationOp, hin',
            bind, Except.bind, pure, Except.pure]
      · rw [if_neg hadd]
        cases localPath with
        | some localPath =>
          refine ⟨hrefl, rfl, Or.inr ⟨?_, rfl⟩⟩
          simp [entryUpgradable, hadd]
        | none =>
          rw [if_neg (by simp)]
          by_cases hdel : action = "delete"
          · subst hdel
            refine ⟨hrefl, by simp [entryUpgradable], .delete pathInRepo, rfl, rfl, rfl, rfl⟩
          · have hop : publicationOp action pathInRepo none none
                = .error (.invalidAction action) := by
              rw [publicationOp, if_neg hadd, if_neg hdel]
            rw [hop]
            refine ⟨hrefl, rfl, Or.inr ⟨?_, rfl⟩⟩
            simp [entryUpgradable, hdel]

theorem upgradeLegacyOperations_wp (faults : Faults) (dir : Path) (entries : List (Entry H))
    (index : Nat) (statePath : String) (s : Machine C H) :
    wp (upgradeLegacyOperations hash localFiles faults dir entries index)
      (fun entries' s' => SameButSnapshots s s' ∧ entries.all (entryUpgradable localFiles) = true
        ∧ ∃ ops, resumeOperations statePath dir entries' = .ok (ops, entries'.map Entry.sha256)
          ∧ List.Forall₂ (fun op entry => PublicationOp.Describes entry op) ops entries)
      (fun e s' => SameButSnapshots s s'
        ∧ Refused faults (entries.all (entryUpgradable localFiles)) e)
      (SameButSnapshots s) s := by
  induction entries generalizing index s with
  | nil => exact ⟨SameButSnapshots.refl s, rfl, [], rfl, .nil⟩
  | cons entry entries ih =>
    simp only [upgradeLegacyOperations, wp_bind]
    refine wp_mono ?_ ?_ (fun _ h => h)
      (upgradeLegacyOperation_wp faults dir index entry statePath s)
    · rintro entry' s₁ ⟨hs₁, hok, op, hop, hdesc⟩
      refine wp_mono ?_ ?_ (fun _ h => hs₁.trans h) (ih (index + 1) s₁)
      · rintro entries' s₂ ⟨hs₂, hoks, ops, hops, hdescs⟩
        refine ⟨hs₁.trans hs₂, by simp [hok, hoks], op :: ops, ?_, .cons hdesc hdescs⟩
        simp [resumeOperations, hop, hops, bind, Except.bind, pure, Except.pure]
      · rintro e s₂ ⟨hs₂, hnot, hcause⟩
        refine ⟨hs₁.trans hs₂, hnot, hcause.imp id ?_⟩
        rintro ⟨hbad, htol⟩
        exact ⟨by rw [List.all_cons, hbad, Bool.and_false], htol⟩
    · rintro e s₁ ⟨hs₁, hnot, hcause⟩
      refine ⟨hs₁, hnot, hcause.imp id ?_⟩
      rintro ⟨hbad, htol⟩
      exact ⟨by rw [List.all_cons, hbad, Bool.false_and], htol⟩

/-- The envelope `w` is the upgrade of the legacy envelope `payload`. -/
def Written.Upgrades (stateDir : Path) (payload : Envelope H) (w : Written H) : Prop :=
  ∃ entries ops, w.envelope = newEnvelope w.sequence (payload.message.getD "") entries
    ∧ resumeOperations (stateName w.sequence) (snapshotDirForSequence stateDir w.sequence) entries
      = .ok (ops, entries.map Entry.sha256)
    ∧ List.Forall₂ (fun op entry => PublicationOp.Describes entry op) ops (payload.ops.getD [])

variable {w : Written H}

variable {name : String} {e : Envelope H}

theorem Written.Upgrades.faithful {payload : Envelope H} (h : w.Upgrades stateDir payload)
    (hpos : 1 ≤ w.sequence) (ho : w.origin = .upgraded name) : w.Faithful stateDir := by
  obtain ⟨entries, ops, he, hres, -⟩ := h
  refine ⟨hpos, _, entries, ops, he, hres, ?_⟩
  intro upload hupload
  rw [ho] at hupload
  cases hupload

/-- The envelope `w` was written for the legacy envelope of that name, which can be upgraded. -/
structure Written.UpgradeOf (stateDir : Path) (localFiles : Path → Option C)
    (legacy : String × Envelope H) (w : Written H) : Prop where
  origin : w.origin = .upgraded legacy.1
  upgrades : w.Upgrades stateDir legacy.2
  upgradable : envelopeUpgradable localFiles legacy.2 = true

/-- The job of a written envelope. -/
def Written.job (stateDir : Path) (w : Written H) : Job H :=
  ⟨w.sequence, stateName w.sequence, w.envelope, snapshotDirForSequence stateDir w.sequence⟩

/-- **An upgrade** keeps the invariant, however it ends. -/
theorem upgradeLegacyEnvelope_wp (faults : Faults) (name : String) (payload : Envelope H)
    (h : Sound stateDir s) :
    wp (upgradeLegacyEnvelope stateDir hash localFiles faults name payload)
      (fun r s' => Sound stateDir s' ∧ ∃ w, s'.written = s.written ++ [w]
        ∧ w.UpgradeOf stateDir localFiles (name, payload)
        ∧ r = (w.sequence, w.envelope, snapshotDirForSequence stateDir w.sequence))
      (fun e s' => Sound stateDir s' ∧ s.written <+: s'.written
        ∧ Refused faults (envelopeUpgradable localFiles payload) e
        ∧ (FromFault faults e ∨ s'.written = s.written))
      (Sound stateDir) s := by
  have hfail : ∀ s' : Machine C H, ∀ failure, FromFault faults (.failed failure) →
      Refused faults (envelopeUpgradable localFiles payload) (.failed failure)
        ∧ (FromFault faults (.failed failure) ∨ s'.written = s.written) :=
    fun _ _ hfault => ⟨⟨rfl, Or.inl hfault⟩, Or.inl hfault⟩
  simp only [upgradeLegacyEnvelope, wp_bind, wp_pure]
  refine wp_mono ?_ ?_ (fun _ h => h.1) (allocateSequence_wp faults h)
  · rintro sequence s₁ ⟨h₁, hw₁, -⟩
    have hpre : s.written <+: s₁.written := by rw [hw₁.written]
    have hdir := sameButSnapshots_makeSnapshotDir (snapshotDirForSequence stateDir sequence) s₁
    refine fallible_wp h₁.sound ?_ (fun e he => ⟨h₁.sound, hpre, hfail _ e he⟩)
      (fun e he => ⟨h₁.sound.frame hdir, hpre, hfail _ e he⟩)
    refine wp_mono ?_ ?_ (fun _ hs => h₁.sound.frame (hdir.trans hs))
      (upgradeLegacyOperations_wp faults _ _ 0 (stateName sequence) _)
    · rintro entries s₂ ⟨hs₂, hok, ops, hres, hdesc⟩
      have h₂ := h₁.frame (hdir.trans hs₂)
      have hpre₂ : s.written <+: s₂.written := by
        rw [(hdir.trans hs₂).written]
        exact hpre
      set w : Written H := ⟨sequence, newEnvelope sequence (payload.message.getD "") entries,
        .upgraded name⟩
      have hup : w.Upgrades stateDir payload := ⟨entries, ops, rfl, hres, hdesc⟩
      have h₃ := h₂.writeEnvelope (hup.faithful h₁.pos rfl) rfl
      have hw₃ : (s₂.writeEnvelope w).written = s.written ++ [w] :=
        congrArg (· ++ [w]) ((hdir.trans hs₂).written.trans hw₁.written)
      have hpre₃ : s.written <+: (s₂.writeEnvelope w).written := by
        rw [hw₃]
        exact List.prefix_append _ _
      refine fallible_wp h₂.sound ?_ (fun e he => ⟨h₂.sound, hpre₂, hfail _ e he⟩)
        (fun e he => ⟨h₃, hpre₃, hfail _ e he⟩)
      refine fallible_wp h₃ ?_ (fun e he => ⟨h₃, hpre₃, hfail _ e he⟩)
        (fun e he => ⟨h₃.unlinkEnvelope name, hpre₃, hfail _ e he⟩)
      exact ⟨h₃.unlinkEnvelope name, w, hw₃, ⟨rfl, hup, hok⟩, rfl⟩
    · rintro e s₂ ⟨hs₂, hrefused⟩
      have hw₂ : s₂.written = s.written := (hdir.trans hs₂).written.trans hw₁.written
      exact ⟨h₁.sound.frame (hdir.trans hs₂), by rw [hw₂], hrefused, Or.inr hw₂⟩
  · rintro e s₁ ⟨hfault, h₁, hw₁⟩
    obtain ⟨step, failure, moment, hstep, rfl⟩ := id hfault
    exact ⟨h₁, by rw [hw₁.written], ⟨rfl, Or.inl hfault⟩, Or.inl hfault⟩

/-- No step of any upgrade fails. -/
def NoFaults (faults : String → Faults) : Prop := ∀ name step, faults name step = none

theorem NoFaults.not_fromFault {faults : String → Faults} (h : NoFaults faults) (name : String)
    (e : UploadError) : ¬ FromFault (faults name) e := by
  rintro ⟨step, failure, moment, hstep, -⟩
  rw [h name step] at hstep
  cases hstep

/-- Some step of some upgrade fails with an exception that a resume does not tolerate. -/
def Interrupts (faults : String → Faults) : Prop :=
  ∃ name step moment, faults name step = some (.interrupt, moment)

theorem Refused.interrupts {faults : String → Faults} {ok : Bool} {e : UploadError}
    (h : Refused (faults name) ok e) (htol : ¬ e.tolerated = true) : Interrupts faults := by
  rcases h.cause with ⟨step, failure, moment, hstep, rfl⟩ | ⟨-, ht⟩
  · cases failure with
    | osError => exact absurd rfl htol
    | interrupt => exact ⟨name, step, moment, hstep⟩
  · exact absurd ht htol

theorem upgradePendingLegacy_wp (faults : String → Faults) (stuck : SnapshotFile C → Bool)
    (legacy : List (String × Envelope H)) (seen : List Nat) (failures : List ResumeFailure)
    (upgraded : List (Job H)) (h : Sound stateDir s)
    (hseen : ∀ n ∈ seen, ∃ w ∈ s.written, w.sequence = n) :
    wp (upgradePendingLegacy stateDir hash localFiles faults stuck legacy seen failures upgraded)
      (fun r s' => Sound stateDir s' ∧ s.written <+: s'.written
        ∧ ∃ (ws : List (Written H)) (done : List (String × Envelope H)),
          ws.Sublist (s'.written.drop s.written.length)
          ∧ List.Forall₂ (fun p w => Written.UpgradeOf stateDir localFiles p w) done ws
          ∧ (NoFaults faults → done = legacy.filter (fun p => envelopeUpgradable localFiles p.2)
            ∧ s'.written = s.written ++ ws)
          ∧ r.1 = upgraded ++ ws.map (Written.job stateDir))
      (fun e s' => Sound stateDir s' ∧ e.isDuplicate = false ∧ Interrupts faults)
      (Sound stateDir) s := by
  induction legacy generalizing seen failures upgraded s with
  | nil =>
    refine ⟨h, List.prefix_rfl, [], [], List.nil_sublist _, .nil, ?_, by simp⟩
    exact fun _ => ⟨rfl, (List.append_nil _).symm⟩
  | cons head legacy ih =>
    obtain ⟨name, payload⟩ := head
    simp only [upgradePendingLegacy, wp_bind, wp_attempt]
    refine wp_mono ?_ ?_ (fun _ h => h) (upgradeLegacyEnvelope_wp (faults name) name payload h)
    · rintro ⟨sequence, envelope, dir⟩ s₁ ⟨h₁, w, hw₁, hof, hr⟩
      obtain ⟨rfl, rfl, rfl⟩ : sequence = w.sequence ∧ envelope = w.envelope
          ∧ dir = snapshotDirForSequence stateDir w.sequence := by simpa using hr
      -- the new number lies above all numbers written so far
      have hnew : w.sequence ∉ seen := by
        intro hmem
        obtain ⟨v, hv, hvw⟩ := hseen _ hmem
        have hinc := h₁.increasing
        rw [hw₁, List.map_append, List.pairwise_append] at hinc
        have := hinc.2.2 v.sequence (List.mem_map_of_mem hv) w.sequence (by simp)
        omega
      rw [if_neg hnew]
      have hseen₁ : ∀ n ∈ seen ++ [w.sequence], ∃ v ∈ s₁.written, v.sequence = n := by
        intro n hn
        rw [hw₁]
        rcases List.mem_append.mp hn with hn | hn
        · obtain ⟨v, hv, hvn⟩ := hseen n hn
          exact ⟨v, List.mem_append_left _ hv, hvn⟩
        · exact ⟨w, by simp, (List.mem_singleton.mp hn).symm⟩
      refine wp_imp ?_ (ih _ _ _ h₁ hseen₁)
      rintro r s₂ ⟨h₂, ⟨tail, htail⟩, ws, done, hws, hdone, hnone, hr⟩
      refine ⟨h₂, ⟨w :: tail, ?_⟩, w :: ws, (name, payload) :: done, ?_, .cons hof hdone, ?_, ?_⟩
      · rw [← htail, hw₁, List.append_assoc]
        rfl
      · rw [← htail, hw₁, List.drop_left' rfl] at hws
        rw [← htail, hw₁, List.append_assoc, List.drop_left' rfl]
        exact hws.cons_cons w
      · intro hno
        obtain ⟨hd, hw₂⟩ := hnone hno
        rw [hd, List.filter_cons_of_pos (by exact hof.upgradable), hw₂, hw₁, List.append_assoc]
        exact ⟨rfl, rfl⟩
      · rw [hr, List.map_cons, List.append_assoc]
        rfl
    · rintro e s₁ ⟨h₁, ⟨tail, htail⟩, hrefused, hcause⟩
      split
      · have hseen₁ : ∀ n ∈ seen, ∃ v ∈ s₁.written, v.sequence = n := by
          intro n hn
          obtain ⟨v, hv, hvn⟩ := hseen n hn
          exact ⟨v, by rw [← htail]; exact List.mem_append_left _ hv, hvn⟩
        refine wp_imp ?_ (ih _ _ _ h₁ hseen₁)
        rintro r s₂ ⟨h₂, ⟨tail₂, htail₂⟩, ws, done, hws, hdone, hnone, hr⟩
        refine ⟨h₂, ⟨tail ++ tail₂, ?_⟩, ws, done, ?_, hdone, ?_, hr⟩
        · rw [← htail₂, ← htail, List.append_assoc]
        · rw [← htail₂, List.drop_left' rfl] at hws
          rw [← htail₂, ← htail, List.append_assoc, List.drop_left' rfl]
          exact hws.trans (List.sublist_append_right tail tail₂)
        · intro hno
          have hnot := hno.not_fromFault name e
          obtain ⟨hd, hw₂⟩ := hnone hno
          have hbad := (hrefused.cause.resolve_left hnot).1
          rw [hd, List.filter_cons_of_neg (by simp [hbad]), hw₂, hcause.resolve_left hnot]
          exact ⟨rfl, rfl⟩
      · rename_i htol
        exact ⟨h₁, hrefused.notDuplicate, hrefused.interrupts htol⟩

/-! ## Resuming -/

theorem exists_of_forall₂_right {A B : Type} {R : A → B → Prop} {l : List A} {l' : List B}
    (h : List.Forall₂ R l l') {b : B} (hb : b ∈ l') : ∃ a ∈ l, R a b := by
  induction h with
  | nil => cases hb
  | cons hab _ ih =>
    rcases List.mem_cons.mp hb with rfl | hb
    · exact ⟨_, List.mem_cons_self, hab⟩
    · obtain ⟨a, ha, hR⟩ := ih hb
      exact ⟨a, List.mem_cons_of_mem _ ha, hR⟩

/-- What `_pending_envelopes` lists for a written envelope. -/
def Written.listed (w : Written H) : Nat × String × Envelope H :=
  (w.sequence, stateName w.sequence, w.envelope)

/-- The legacy envelopes among the files. -/
def legacyFiles (files : List (String × Option (Envelope H))) : List (String × Envelope H) :=
  files.filterMap (fun (name, file) =>
    file.bind (fun e => if isLegacyEnvelope e then some (name, e) else none))

theorem mem_legacyFiles {files : List (String × Option (Envelope H))} {p : String × Envelope H} :
    p ∈ legacyFiles files ↔ (p.1, some p.2) ∈ files ∧ isLegacyEnvelope p.2 = true := by
  rw [legacyFiles, List.mem_filterMap]
  constructor
  · rintro ⟨⟨name, file⟩, hmem, hp⟩
    cases file with
    | none => cases hp
    | some e =>
      dsimp only [Option.bind_some] at hp
      split at hp
      · rename_i hleg
        cases hp
        exact ⟨hmem, hleg⟩
      · cases hp
  · rintro ⟨hmem, hleg⟩
    exact ⟨(p.1, some p.2), hmem, by simp [hleg]⟩

theorem Written.Faithful.currentSequence (h : w.Faithful stateDir) (name : String) :
    UploadQueue.currentSequence w.envelope name = .ok w.sequence := by
  obtain ⟨message, entries, ops, he, -⟩ := h.restores
  have hpos : (1 : Int) ≤ (w.sequence : Int) := by exact_mod_cast h.positive
  rw [he]
  simp [UploadQueue.currentSequence, newEnvelope, hpos]

theorem Written.Faithful.version (h : w.Faithful stateDir) :
    w.envelope.contractVersion = some queueContractVersion := by
  obtain ⟨message, entries, ops, he, -⟩ := h.restores
  rw [he]
  rfl

theorem not_isLegacy_of_version (h : e.contractVersion = some queueContractVersion) :
    isLegacyEnvelope e = false := by
  rw [isLegacyEnvelope, h]
  rfl

/-- A file that a resume refuses: it cannot be read, or is of an unknown contract. -/
def RefusedFile (file : Option (Envelope H)) : Prop :=
  file = none ∨ ∃ e, file = some e ∧ isLegacyEnvelope e = false
    ∧ e.contractVersion ≠ some queueContractVersion

/-- What the classification of the files ends with, where the written envelopes `cur` and the legacy
ones `legacy` have been found before: every written envelope that is still there is found once, or a
file is refused. -/
def Classified (W cur : List (Written H)) (legacy : List (String × Envelope H))
    (files : List (String × Option (Envelope H))) :
    Except UploadError (PendingEnvelopes H) → Prop
  | .error e => e.isDuplicate = false ∧ ∃ f ∈ files, RefusedFile f.2
  | .ok found => ∃ new : List (Written H), found.current = (cur ++ new).map Written.listed
      ∧ found.seen = (cur ++ new).map Written.sequence
      ∧ found.legacy = legacy ++ legacyFiles files
      ∧ (new.map (fun w => stateName w.sequence)).Sublist (files.map Prod.fst)
      ∧ ∀ w, w ∈ new ↔ w ∈ W ∧ (stateName w.sequence, some w.envelope) ∈ files

section

variable {W cur : List (Written H)} {legacy : List (String × Envelope H)}
  {files : List (String × Option (Envelope H))} {result : Except UploadError (PendingEnvelopes H)}
  (hfaith : ∀ w ∈ W, w.Faithful stateDir)
include hfaith

theorem Classified.cons_legacy (hleg : isLegacyEnvelope e = true)
    (h : Classified W cur (legacy ++ [(name, e)]) files result) :
    Classified W cur legacy ((name, some e) :: files) result := by
  cases result with
  | error error =>
    obtain ⟨hduplicate, f, hf, hrefused⟩ := h
    exact ⟨hduplicate, f, List.mem_cons_of_mem _ hf, hrefused⟩
  | ok found =>
    obtain ⟨new, hcurrent, hseen, hlegacy, hsub, hnew⟩ := h
    refine ⟨new, hcurrent, hseen, ?_, hsub.cons _, fun w => ?_⟩
    · rw [hlegacy, List.append_assoc]
      simp [legacyFiles, hleg]
    · rw [hnew, List.mem_cons]
      refine ⟨fun h => ⟨h.1, Or.inr h.2⟩, ?_⟩
      rintro ⟨hw, heq | hmem⟩
      · have he : e = w.envelope := by simpa using (Prod.ext_iff.mp heq).2.symm
        rw [he, not_isLegacy_of_version (hfaith w hw).version] at hleg
        cases hleg
      · exact ⟨hw, hmem⟩

variable (hinj : ∀ w ∈ W, ∀ v ∈ W, w.sequence = v.sequence → w = v)
include hinj

theorem Classified.cons_current (hw : w ∈ W) (h : Classified W (cur ++ [w]) legacy files result) :
    Classified W cur legacy ((stateName w.sequence, some w.envelope) :: files) result := by
  cases result with
  | error error =>
    obtain ⟨hduplicate, f, hf, hrefused⟩ := h
    exact ⟨hduplicate, f, List.mem_cons_of_mem _ hf, hrefused⟩
  | ok found =>
    obtain ⟨new, hcurrent, hseen, hlegacy, hsub, hnew⟩ := h
    refine ⟨w :: new, ?_, ?_, ?_, hsub.cons_cons _, fun v => ?_⟩
    · rw [hcurrent, List.append_assoc]
      rfl
    · rw [hseen, List.append_assoc]
      rfl
    · rw [hlegacy]
      simp [legacyFiles, not_isLegacy_of_version (hfaith w hw).version]
    · rw [List.mem_cons, hnew, List.mem_cons]
      constructor
      · rintro (rfl | ⟨hv, hmem⟩)
        · exact ⟨hw, Or.inl rfl⟩
        · exact ⟨hv, Or.inr hmem⟩
      · rintro ⟨hv, heq | hmem⟩
        · exact Or.inl (hinj v hv w hw (stateName_injective (Prod.ext_iff.mp heq).1))
        · exact Or.inr ⟨hv, hmem⟩

/-- Classifying the files finds every written envelope that is still there, once, and never a
number twice. -/
theorem classifyAll_spec (cur : List (Written H)) (found : PendingEnvelopes H)
    (hnodup : (files.map Prod.fst).Nodup)
    (hfiles : ∀ name e, (name, some e) ∈ files → e.contractVersion = some queueContractVersion →
      ∃ w ∈ W, name = stateName w.sequence ∧ w.envelope = e)
    (hcur : found.current = cur.map Written.listed) (hseen : found.seen = cur.map Written.sequence)
    (hapart : ∀ w ∈ cur, w ∈ W ∧ stateName w.sequence ∉ files.map Prod.fst) :
    Classified W cur found.legacy files (classifyAll files found) := by
  induction files generalizing found cur with
  | nil =>
    exact ⟨[], by simpa using hcur, by simpa using hseen, by simp [legacyFiles], .slnil, by simp⟩
  | cons head files ih =>
    obtain ⟨name, file⟩ := head
    rw [List.map_cons, List.nodup_cons] at hnodup
    have hapart' : ∀ w ∈ cur, w ∈ W ∧ stateName w.sequence ∉ files.map Prod.fst := by
      intro w hw
      exact ⟨(hapart w hw).1, fun hmem => (hapart w hw).2 (List.mem_cons_of_mem _ hmem)⟩
    have hrest := fun cur found => ih cur found hnodup.2
      (fun name e he => hfiles name e (List.mem_cons_of_mem _ he))
    cases file with
    | none => exact ⟨rfl, _, List.mem_cons_self, Or.inl rfl⟩
    | some payload =>
      rw [classifyAll, classifyPendingEnvelope]
      by_cases hleg : isLegacyEnvelope payload = true
      · rw [if_pos hleg]
        exact (hrest cur { found with legacy := found.legacy ++ [(name, payload)] } hcur hseen
          hapart').cons_legacy hfaith hleg
      rw [if_neg hleg]
      by_cases hver : payload.contractVersion = some queueContractVersion
      · rw [if_pos hver]
        obtain ⟨w, hw, rfl, rfl⟩ := hfiles name payload List.mem_cons_self hver
        -- a number seen before would belong to the same record, whose name is not listed again
        have hnew : w.sequence ∉ found.seen := by
          rw [hseen]
          intro hmem
          obtain ⟨v, hv, hvw⟩ := List.mem_map.mp hmem
          have hlisted := (hapart v hv).2
          rw [hinj v (hapart v hv).1 w hw hvw] at hlisted
          exact hlisted List.mem_cons_self
        rw [(hfaith w hw).currentSequence]
        simp only [bind, Except.bind, if_neg hnew]
        refine (hrest (cur ++ [w]) _ ?_ ?_ ?_).cons_current hfaith hinj hw
        · simp [hcur, Written.listed]
        · simp [hseen]
        · intro v hv
          rcases List.mem_append.mp hv with hv | hv
          · exact hapart' v hv
          · rw [List.mem_singleton.mp hv]
            exact ⟨hw, hnodup.1⟩
      · rw [if_neg hver]
        exact ⟨rfl, _, List.mem_cons_self, Or.inr ⟨payload, rfl, by simpa using hleg, hver⟩⟩

end

/-- The upload a written envelope restores to. -/
def Written.Restored (stateDir : Path) (w : Written H) (u : StoredUpload H) : Prop :=
  ∃ message entries ops, w.envelope = newEnvelope w.sequence message entries
    ∧ resumeOperations (stateName w.sequence) (snapshotDirForSequence stateDir w.sequence) entries
      = .ok (ops, entries.map Entry.sha256)
    ∧ u = ⟨ops, message, stateName w.sequence, some (snapshotDirForSequence stateDir w.sequence),
        entries.map Entry.sha256⟩

theorem isInside_snapshotsRoot (stateDir : Path) (n : Nat) :
    isInside (snapshotDirForSequence stateDir n) (snapshotsRoot stateDir) = true :=
  List.isPrefixOf_iff_prefix.mpr (List.prefix_append _ _)

theorem restorePendingJob_written (h : w.Faithful stateDir) :
    ∃ u, restorePendingJob stateDir (w.job stateDir) = .ok (.ok u) ∧ w.Restored stateDir u := by
  obtain ⟨message, entries, ops, he, hres, -⟩ := h.restores
  refine ⟨⟨ops, message, stateName w.sequence, some (snapshotDirForSequence stateDir w.sequence),
    entries.map Entry.sha256⟩, ?_, message, entries, ops, he, hres, rfl⟩
  have hops : w.envelope.ops.getD [] = entries := by
    rw [he]
    rfl
  have hmessage : w.envelope.message = some message := by
    rw [he]
    rfl
  simp only [restorePendingJob, Written.job, isInside_snapshotsRoot, if_true, hops, hres, hmessage]

theorem restoreAll_written {ws : List (Written H)} (h : ∀ w ∈ ws, w.Faithful stateDir) :
    ∃ us, restoreAll stateDir (ws.map (Written.job stateDir)) = .ok (us, [])
      ∧ List.Forall₂ (Written.Restored stateDir) ws us := by
  induction ws with
  | nil => exact ⟨[], rfl, .nil⟩
  | cons w ws ih =>
    obtain ⟨u, hu, hr⟩ := restorePendingJob_written (h w List.mem_cons_self)
    obtain ⟨us, hus, hrs⟩ := ih (fun v hv => h v (List.mem_cons_of_mem _ hv))
    refine ⟨u :: us, ?_, .cons hr hrs⟩
    rw [List.map_cons, restoreAll, hu, hus]
    rfl

theorem Sound.nodup_sequences (h : Sound stateDir s) : (s.written.map Written.sequence).Nodup :=
  h.increasing.imp (fun hlt => hlt.ne)

theorem Sound.nodup_written (h : Sound stateDir s) : s.written.Nodup := h.nodup_sequences.of_map _

theorem Sound.eq_of_sequence_eq (h : Sound stateDir s) {w v : Written H} (hw : w ∈ s.written)
    (hv : v ∈ s.written) (heq : w.sequence = v.sequence) : w = v :=
  List.inj_on_of_nodup_map h.nodup_sequences hw hv heq

theorem Sound.lookup_written (h : Sound stateDir s) (hw : w ∈ s.written)
    (hthere : (s.disk.envelopes.lookup (stateName w.sequence)).isSome) :
    s.disk.envelopes.lookup (stateName w.sequence) = some (some w.envelope) := by
  obtain ⟨file, hfile⟩ := Option.isSome_iff_exists.mp hthere
  by_cases hcur : IsCurrent file
  · obtain ⟨e, rfl, hver⟩ := hcur
    obtain ⟨v, hv, hname, rfl⟩ := h.recorded _ e hfile hver
    rw [hfile, h.eq_of_sequence_eq hw hv (stateName_injective hname)]
  · exact absurd rfl ((h.others _ file hfile hcur).1 w hw)

theorem mem_sortedFiles {disk : Disk C H} {unreadable : String → Bool}
    (h : (name, some e) ∈ sortedFiles unreadable disk) :
    disk.envelopes.lookup name = some (some e) := by
  obtain ⟨name', hname', heq⟩ := List.mem_map.mp h
  obtain ⟨rfl, hfile⟩ := Prod.ext_iff.mp heq
  dsimp only at hfile
  split at hfile
  · cases hfile
  · cases hl : disk.envelopes.lookup name' with
    | none =>
      rw [hl] at hfile
      cases hfile
    | some file =>
      rw [hl] at hfile
      exact congrArg some hfile

theorem keys_sortedFiles (unreadable : String → Bool) (disk : Disk C H) :
    (sortedFiles unreadable disk).map Prod.fst = disk.envelopes.keys.insertionSort (· ≤ ·) := by
  rw [sortedFiles, List.map_map]
  exact List.map_id _

theorem nodup_keys_sortedFiles (unreadable : String → Bool) (disk : Disk C H) :
    ((sortedFiles unreadable disk).map Prod.fst).Nodup := by
  rw [keys_sortedFiles, (List.perm_insertionSort _ _).nodup_iff]
  exact disk.envelopes.nodupKeys

theorem pendingEnvelopes_spec (unreadable : String → Bool) (h : Sound stateDir s) :
    match pendingEnvelopes unreadable s.disk with
    | .error e => e.isDuplicate = false ∧ ∃ f ∈ sortedFiles unreadable s.disk, RefusedFile f.2
    | .ok found => ∃ cur : List (Written H), found.current = cur.map Written.listed
        ∧ found.seen = cur.map Written.sequence
        ∧ found.legacy = legacyFiles (sortedFiles unreadable s.disk)
        ∧ (cur.map (fun w => stateName w.sequence)).Nodup
        ∧ ∀ w, w ∈ cur ↔ w ∈ s.written
          ∧ (stateName w.sequence, some w.envelope) ∈ sortedFiles unreadable s.disk := by
  have hnodup := nodup_keys_sortedFiles unreadable s.disk
  have hspec := classifyAll_spec h.faithful
    (fun w hw v hv heq => h.eq_of_sequence_eq hw hv heq) [] ⟨[], [], []⟩ hnodup
    (fun name e he hver => h.recorded name e (mem_sortedFiles he) hver) rfl rfl (by simp)
  unfold pendingEnvelopes
  revert hspec
  cases classifyAll (sortedFiles unreadable s.disk) ⟨[], [], []⟩ with
  | error e => exact id
  | ok found =>
    rintro ⟨new, h1, h2, h3, h4, h5⟩
    exact ⟨new, h1, h2, h3, hnodup.sublist h4, h5⟩

theorem classifyAll_readable {files : List (String × Option (Envelope H))}
    {found found' : PendingEnvelopes H} (h : classifyAll files found = .ok found') (name : String) :
    (name, none) ∉ files := by
  induction files generalizing found with
  | nil => simp
  | cons head files ih =>
    obtain ⟨name', file⟩ := head
    cases file with
    | none => cases h
    | some payload =>
      rw [List.mem_cons, not_or]
      refine ⟨(fun heq => by cases (Prod.ext_iff.mp heq).2), ?_⟩
      simp only [classifyAll, bind, Except.bind] at h
      split at h
      · cases h
      · split at h
        · exact ih h
        · exact ih h

theorem mem_sortedFiles_iff {disk : Disk C H} {unreadable : String → Bool}
    (hread : ∀ name, (name, none) ∉ sortedFiles unreadable disk) :
    (name, some e) ∈ sortedFiles unreadable disk ↔ disk.envelopes.lookup name = some (some e) := by
  refine ⟨mem_sortedFiles, fun h => ?_⟩
  have hkey : name ∈ disk.envelopes.keys.insertionSort (· ≤ ·) := by
    rw [(List.perm_insertionSort _ _).mem_iff]
    exact AList.lookup_isSome.mp (by rw [h]; rfl)
  have hmem : (name, if unreadable name then none else (disk.envelopes.lookup name).getD none)
      ∈ sortedFiles unreadable disk := List.mem_map_of_mem hkey
  by_cases hu : unreadable name = true
  · rw [if_pos hu] at hmem
    exact absurd hmem (hread name)
  · rwa [if_neg hu, h] at hmem

theorem map_job_insertionSort (ws : List (Written H)) :
    (ws.map (Written.job stateDir)).insertionSort (fun a b => a.sequence ≤ b.sequence)
      = (ws.insertionSort (fun a b => a.sequence ≤ b.sequence)).map (Written.job stateDir) := by
  exact (List.map_insertionSort (fun a b : Written H => a.sequence ≤ b.sequence)
    (fun a b : Job H => a.sequence ≤ b.sequence) (Written.job stateDir) ws
    (fun a _ b _ => Iff.rfl)).symm

variable (hash localFiles) in
/-- **A resume** keeps the invariant and never meets a number twice. What it returns are the
written envelopes that were there and those it upgraded, by number. -/
theorem resumePending_wp (unreadable : String → Bool) (faults : String → Faults)
    (stuck : SnapshotFile C → Bool) (h : Sound stateDir s) :
    wp (resumePending stateDir hash localFiles unreadable faults stuck)
      (fun r s' => Sound stateDir s' ∧ s.written <+: s'.written
        ∧ ∃ (cur upg ws : List (Written H)) (done : List (String × Envelope H)),
          List.Forall₂ (Written.Restored stateDir) ws r.uploads
          ∧ ws = (cur ++ upg).insertionSort (fun a b => a.sequence ≤ b.sequence)
          ∧ (cur ++ upg).Nodup ∧ (∀ w ∈ upg, w ∈ s'.written ∧ w ∉ s.written)
          ∧ List.Forall₂ (fun p w => Written.UpgradeOf stateDir localFiles p w) done upg
          ∧ (NoFaults faults → done = (legacyFiles (sortedFiles unreadable s.disk)).filter
              (fun p => envelopeUpgradable localFiles p.2)
            ∧ s'.written = s.written ++ upg)
          ∧ ∀ w, w ∈ cur ↔ w ∈ s.written
            ∧ s.disk.envelopes.lookup (stateName w.sequence) = some (some w.envelope))
      (fun e s' => Sound stateDir s' ∧ e.isDuplicate = false
        ∧ (Interrupts faults ∨ ∃ f ∈ sortedFiles unreadable s.disk, RefusedFile f.2))
      (Sound stateDir) s := by
  simp only [resumePending, wp_bind, wp_get]
  have hspec := pendingEnvelopes_spec unreadable h
  cases hpending : pendingEnvelopes unreadable s.disk with
  | error e =>
    rw [hpending] at hspec
    exact ⟨h, hspec.1, Or.inr hspec.2⟩
  | ok found =>
    rw [hpending] at hspec
    obtain ⟨cur, hcur, hseen, hlegacy, hnodup, hmem⟩ := hspec
    have hread := classifyAll_readable hpending
    have hmem' : ∀ w, w ∈ cur ↔ w ∈ s.written
        ∧ s.disk.envelopes.lookup (stateName w.sequence) = some (some w.envelope) := by
      intro w
      rw [hmem, mem_sortedFiles_iff hread]
    simp only [wp_bind]
    refine wp_mono ?_ (fun _ _ h => ⟨h.1, h.2.1, Or.inl h.2.2⟩) (fun _ h => h)
      (upgradePendingLegacy_wp faults stuck found.legacy found.seen [] [] h ?_)
    · rintro ⟨upgraded, skipped⟩ s₁ ⟨h₁, hpre, upg, done, hsub, hdone, hnone, hr⟩
      have hr' : upgraded = upg.map (Written.job stateDir) := hr
      have hin : ∀ w ∈ cur ++ upg, w ∈ s₁.written := by
        intro w hw
        rcases List.mem_append.mp hw with hw | hw
        · exact hpre.subset ((hmem' w).mp hw).1
        · exact List.mem_of_mem_drop (hsub.subset hw)
      have hjobs : orderedPendingJobs stateDir found.current upgraded
          = ((cur ++ upg).insertionSort (fun a b => a.sequence ≤ b.sequence)).map
            (Written.job stateDir) := by
        rw [orderedPendingJobs, hcur, hr', List.map_map, ← map_job_insertionSort, List.map_append]
        rfl
      have hfaith : ∀ w ∈ (cur ++ upg).insertionSort (fun a b => a.sequence ≤ b.sequence),
          w.Faithful stateDir := fun w hw =>
        h₁.faithful w (hin w ((List.perm_insertionSort _ _).mem_iff.mp hw))
      obtain ⟨us, hus, hrs⟩ := restoreAll_written hfaith
      rw [hjobs, hus]
      have hwritten := h₁.nodup_written
      -- what was there before the upgrades is not among them
      have hnew : ∀ w ∈ upg, w ∉ s.written := by
        intro w hw hmem
        obtain ⟨tail, htail⟩ := id hpre
        rw [← htail, List.drop_left' rfl] at hsub
        rw [← htail, List.nodup_append] at hwritten
        exact hwritten.2.2 w hmem w (hsub.subset hw) rfl
      refine ⟨h₁, hpre, cur, upg, _, done, hrs, rfl, ?_, ?_, hdone, ?_, hmem'⟩
      · refine List.nodup_append.mpr ⟨hnodup.of_map _, ?_, ?_⟩
        · exact (hwritten.sublist (List.drop_sublist _ _)).sublist hsub
        · rintro w hw v hv rfl
          exact hnew w hv ((hmem' w).mp hw).1
      · exact fun w hw => ⟨hin w (List.mem_append_right _ hw), hnew w hw⟩
      · rw [← hlegacy]
        exact hnone
    · intro n hn
      rw [hseen] at hn
      obtain ⟨w, hw, hwn⟩ := List.mem_map.mp hn
      exact ⟨w, ((hmem' w).mp hw).1, hwn⟩

/-- What a job is, without the place of its snapshot directory: a submission without added files
has none, and a resume always names one. -/
def StoredUpload.job (u : StoredUpload H) :
    String × String × List PublicationOp × List (Option H) :=
  (u.statePath, u.message, u.ops, u.opShas)

/-- The job a written envelope was submitted as. -/
def Written.submission (w : Written H) : Option (StoredUpload H) :=
  match w.origin with
  | .submitted upload => some upload
  | .upgraded _ => none

/-- The jobs submitted so far, in the order of their submission. -/
def Machine.submissions (s : Machine C H) : List (StoredUpload H) :=
  s.written.filterMap Written.submission

/-- The submitted jobs whose envelopes are still there. -/
def Machine.surviving (s : Machine C H) : List (StoredUpload H) :=
  s.submissions.filter (fun u => (s.disk.envelopes.lookup u.statePath).isSome)

theorem Written.Faithful.submission (h : w.Faithful stateDir)
    {u upload : StoredUpload H} (hu : w.Restored stateDir u) (hup : w.submission = some upload) :
    u.job = upload.job ∧ upload.statePath = stateName w.sequence := by
  obtain ⟨message, entries, ops, he, hres, hsub⟩ := h.restores
  obtain ⟨message', entries', ops', he', hres', rfl⟩ := hu
  have horigin : w.origin = .submitted upload := by
    unfold Written.submission at hup
    split at hup
    · rename_i u ho
      rw [ho, Option.some.inj hup]
    · cases hup
  obtain ⟨h1, h2, h3, h4⟩ := hsub upload horigin
  rw [he] at he'
  obtain ⟨rfl, rfl⟩ : message = message' ∧ entries = entries' := by
    simpa [newEnvelope] using he'
  rw [hres] at hres'
  cases hres'
  refine ⟨?_, h3⟩
  rw [StoredUpload.job, StoredUpload.job, h1, h2, h3, h4]

theorem filter_uploads {ws : List (Written H)} {us : List (StoredUpload H)}
    (names : String → Bool) (hfaith : ∀ w ∈ ws, w.Faithful stateDir)
    (hrs : List.Forall₂ (Written.Restored stateDir) ws us)
    (hnames : ∀ w ∈ ws, names (stateName w.sequence) = w.submission.isSome) :
    (us.filter (fun u => names u.statePath)).map StoredUpload.job
      = (ws.filterMap Written.submission).map StoredUpload.job := by
  induction hrs with
  | nil => rfl
  | @cons w u ws us hu hrs ih =>
    have hih := ih (fun v hv => hfaith v (List.mem_cons_of_mem _ hv))
      (fun v hv => hnames v (List.mem_cons_of_mem _ hv))
    have hpath : u.statePath = stateName w.sequence := by
      obtain ⟨message, entries, ops, -, -, rfl⟩ := hu
      rfl
    have hname := hnames w List.mem_cons_self
    cases hsub : w.submission with
    | none =>
      rw [hsub] at hname
      rw [List.filter_cons_of_neg (by rw [hpath, hname]; simp),
        List.filterMap_cons_none hsub, hih]
    | some upload =>
      rw [hsub] at hname
      rw [List.filter_cons_of_pos (by rw [hpath, hname]; rfl),
        List.filterMap_cons_some hsub, List.map_cons, List.map_cons, hih,
        ((hfaith w List.mem_cons_self).submission hu hsub).1]

theorem Sound.statePath_submission (h : Sound stateDir s) (hw : w ∈ s.written)
    {u : StoredUpload H} (hu : w.submission = some u) : u.statePath = stateName w.sequence := by
  obtain ⟨u', -, hu'⟩ := restorePendingJob_written (h.faithful w hw)
  exact ((h.faithful w hw).submission hu' hu).2

theorem filterMap_submission (l : List (Written H)) : l.filterMap Written.submission
      = (l.filter (fun w => w.submission.isSome)).filterMap Written.submission := by
  induction l with
  | nil => rfl
  | cons w l ih =>
    cases hsub : w.submission with
    | none => rw [List.filterMap_cons_none hsub, List.filter_cons_of_neg (by simp [hsub]), ih]
    | some u =>
      rw [List.filterMap_cons_some hsub, List.filter_cons_of_pos (by simp [hsub]),
        List.filterMap_cons_some hsub, ih]

theorem Sound.surviving_eq (h : Sound stateDir s) :
    s.surviving = (s.written.filter (fun w => w.submission.isSome
      && (s.disk.envelopes.lookup (stateName w.sequence)).isSome)).filterMap Written.submission := by
  have hrec : ∀ w ∈ s.written, ∀ u, w.submission = some u → u.statePath = stateName w.sequence :=
    fun w hw u hu => h.statePath_submission hw hu
  unfold Machine.surviving Machine.submissions
  generalize s.written = W at hrec
  induction W with
  | nil => rfl
  | cons w W ih =>
    have hih := ih (fun v hv => hrec v (List.mem_cons_of_mem _ hv))
    cases hsub : w.submission with
    | none =>
      rw [List.filterMap_cons_none hsub, List.filter_cons_of_neg (by simp [hsub]), hih]
    | some u =>
      have hpath := hrec w List.mem_cons_self u hsub
      rw [List.filterMap_cons_some hsub]
      by_cases hthere : (s.disk.envelopes.lookup (stateName w.sequence)).isSome = true
      · rw [List.filter_cons_of_pos (by rw [hpath]; exact hthere),
          List.filter_cons_of_pos (by simp [hsub, hthere]),
          List.filterMap_cons_some hsub, hih]
      · rw [List.filter_cons_of_neg (by rw [hpath]; exact hthere),
          List.filter_cons_of_neg (by simp [hthere]), hih]

variable (hash localFiles) in
/-- Of the submitted jobs, a resume returns those whose envelopes are there, in the order of their
submission. -/
theorem resumePending_submitted (unreadable : String → Bool) (faults : String → Faults)
    (stuck : SnapshotFile C → Bool) (h : Sound stateDir s) :
    wp (resumePending stateDir hash localFiles unreadable faults stuck)
      (fun r _ => (r.uploads.filter (fun u => u.statePath ∈ s.submissions.map
          StoredUpload.statePath)).map StoredUpload.job = s.surviving.map StoredUpload.job)
      (fun _ _ => True) (fun _ => True) s := by
  refine wp_returned ?_ (resumePending_wp hash localFiles unreadable faults stuck h)
  rintro r s' ⟨h', hpre, cur, upg, ws, done, hrs, rfl, hnodup, hupg, hdone, -, hcur⟩
  set ws := (cur ++ upg).insertionSort (fun a b => a.sequence ≤ b.sequence) with hws
  have hperm : ws.Perm (cur ++ upg) := List.perm_insertionSort _ _
  have hin : ∀ w ∈ ws, w ∈ s'.written := by
    intro w hw
    rcases List.mem_append.mp (hperm.mem_iff.mp hw) with hw | hw
    · exact hpre.subset ((hcur w).mp hw).1
    · exact (hupg w hw).1
  have hfaith : ∀ w ∈ ws, w.Faithful stateDir := fun w hw => h'.faithful w (hin w hw)
  have hsubmitted : ∀ w ∈ ws, w.submission.isSome → w ∈ cur := by
    intro w hw hsub
    rcases List.mem_append.mp (hperm.mem_iff.mp hw) with hw | hw
    · exact hw
    · obtain ⟨p, -, hof⟩ := exists_of_forall₂_right hdone hw
      rw [Written.submission, hof.origin] at hsub
      cases hsub
  -- a returned path belongs to a submission exactly when its own record is one
  have hnames : ∀ w ∈ ws, decide (stateName w.sequence ∈ s.submissions.map StoredUpload.statePath)
      = w.submission.isSome := by
    intro w hw
    rw [Bool.eq_iff_iff, decide_eq_true_eq]
    constructor
    · intro hmem
      obtain ⟨u, hu, hpath⟩ := List.mem_map.mp hmem
      obtain ⟨v, hv, hvu⟩ := List.mem_filterMap.mp hu
      have hname := h.statePath_submission hv hvu
      have hwv : w = v := h'.eq_of_sequence_eq (hin w hw) (hpre.subset hv)
        (stateName_injective (hpath.symm.trans hname))
      rw [hwv, hvu]
      rfl
    · intro hsub
      obtain ⟨u, hu⟩ := Option.isSome_iff_exists.mp hsub
      have hwcur := (hcur w).mp (hsubmitted w hw hsub)
      rw [← h.statePath_submission hwcur.1 hu]
      exact List.mem_map_of_mem (List.mem_filterMap.mpr ⟨w, hwcur.1, hu⟩)
  refine (filter_uploads (fun name => decide (name ∈ s.submissions.map StoredUpload.statePath))
    hfaith hrs hnames).trans (congrArg _ ?_)
  -- both lists are the submitted records that are still there, by number
  have hlists : ws.filter (fun w => w.submission.isSome)
      = s.written.filter (fun w => w.submission.isSome
        && (s.disk.envelopes.lookup (stateName w.sequence)).isSome) := by
    have hsorted : (ws.filter (fun w => w.submission.isSome)).Pairwise
        (fun a b => a.sequence ≤ b.sequence) := (List.pairwise_insertionSort _ _).filter _
    have hsorted' : (s.written.filter (fun w => w.submission.isSome
        && (s.disk.envelopes.lookup (stateName w.sequence)).isSome)).Pairwise
          (fun a b => a.sequence ≤ b.sequence) :=
      ((List.pairwise_map.mp h.increasing).imp (fun hlt => hlt.le)).filter _
    refine List.Perm.eq_of_pairwise ?_ hsorted hsorted' ?_
    · intro a b ha hb hab hba
      exact h'.eq_of_sequence_eq (hin a (List.mem_of_mem_filter ha))
        (hpre.subset (List.mem_of_mem_filter hb)) (le_antisymm hab hba)
    · refine (List.perm_ext_iff_of_nodup ((hperm.nodup_iff.mpr hnodup).filter _)
        (h.nodup_written.filter _)).mpr ?_
      intro w
      rw [List.mem_filter, List.mem_filter, Bool.and_eq_true]
      constructor
      · rintro ⟨hmem, hsub⟩
        obtain ⟨h1, h2⟩ := (hcur w).mp (hsubmitted w hmem hsub)
        exact ⟨h1, hsub, by rw [h2]; rfl⟩
      · rintro ⟨hmem, hsub, hthere⟩
        refine ⟨hperm.mem_iff.mpr (List.mem_append_left _ ?_), hsub⟩
        exact (hcur w).mpr ⟨hmem, h.lookup_written hmem hthere⟩
  rw [filterMap_submission, hlists, h.surviving_eq]

theorem resumePending_returns (faults : String → Faults) (stuck : SnapshotFile C → Bool)
    (h : Sound stateDir s) (hf : ¬ Interrupts faults) :
    ∃ r s', Prog.run (resumePending stateDir hash localFiles (fun _ => false) faults stuck) s
      = (.ok r, s') := by
  have hfiles : ∀ f ∈ sortedFiles (fun _ => false) s.disk, ¬ RefusedFile f.2 := by
    intro f hf hrefused
    obtain ⟨name, hname, rfl⟩ := List.mem_map.mp hf
    have hkey : name ∈ s.disk.envelopes.keys := (List.perm_insertionSort _ _).mem_iff.mp hname
    obtain ⟨file, hfile⟩ := Option.isSome_iff_exists.mp (AList.lookup_isSome.mpr hkey)
    simp only [Bool.false_eq_true, if_false, hfile, Option.getD_some] at hrefused
    by_cases hcur : IsCurrent file
    · obtain ⟨e, rfl, hver⟩ := hcur
      rcases hrefused with hnone | ⟨e', he', -, hne⟩
      · cases hnone
      · cases he'
        exact hne hver
    · obtain ⟨e, rfl, hleg⟩ := h.legacy name file hfile hcur
      rcases hrefused with hnone | ⟨e', he', hnot, -⟩
      · cases hnone
      · cases he'
        rw [hleg] at hnot
        cases hnot
  have hwp : wp (resumePending stateDir hash localFiles (fun _ => false) faults stuck)
      (fun _ _ => True) (fun _ _ => False) (fun _ => True) s := by
    refine wp_mono (fun _ _ _ => trivial) ?_ (fun _ _ => trivial)
      (resumePending_wp hash localFiles (fun _ => false) faults stuck h)
    rintro e s' ⟨-, -, hint | ⟨f, hmem, hrefused⟩⟩
    · exact hf hint
    · exact hfiles f hmem hrefused
  obtain ⟨r, s', hrun, -⟩ := wp_returns hwp
  exact ⟨r, s', hrun⟩

end

/-! ## Runs -/

/-- A call of the store, with the local files it finds and the steps that fail. -/
inductive Call (C : Type) where
  | persist (localFiles : Path → Option C) (faults : Faults) (stuck : SnapshotFile C → Bool)
      (ops : List PublicationOp) (message : String)
  | delete (faults : Faults) (stuck : SnapshotFile C → Bool) (statePath : String)
      (snapshotDir : Option Path)
  | resume (localFiles : Path → Option C) (unreadable : String → Bool) (faults : String → Faults)
      (stuck : SnapshotFile C → Bool)

variable (digits : DecimalDigits) (stateDir : Path) (hash : C → H)

def Call.program : Call C → Action C H Unit
  | .persist localFiles faults stuck ops message => do
    let _ ← UploadQueue.persist stateDir hash localFiles faults stuck ops message
    return ()
  | .delete faults stuck statePath snapshotDir =>
    UploadQueue.delete stateDir faults stuck statePath snapshotDir
  | .resume localFiles unreadable faults stuck => do
    let _ ← resumePending stateDir hash localFiles unreadable faults stuck
    return ()

/-- What the next call finds: after a kill a new process opens the store. -/
def nextMachine {A : Type} (readable : Bool) :
    Outcome (Machine C H) UploadError A → Machine C H
  | .done _ s => s
  | .raised _ s => s
  | .killed s => s.restart digits readable

/-- If the call is killed, the next start is one of `opens`. -/
def Reopened {A : Type} (opens : Bool → Disk C H → Prop) (readable : Bool) :
    Outcome (Machine C H) UploadError A → Prop
  | .killed s => opens readable s.disk
  | _ => True

/-- The states that calls and restarts reach on a state directory that starts as `disk`. Each call
may be killed in front of any of its steps. `opens` says which starts occur. -/
inductive Reaches (opens : Bool → Disk C H → Prop) (disk : Disk C H) : Machine C H → Prop where
  | start (readable : Bool) (ho : opens readable disk) :
      Reaches opens disk (Machine.restart digits readable ⟨disk, 1, []⟩)
  | call {s : Machine C H} (c : Call C) (n : Nat) (readable : Bool) (h : Reaches opens disk s)
      (ho : Reopened opens readable (Prog.exec (c.program stateDir hash) n s)) :
      Reaches opens disk (nextMachine digits readable (Prog.exec (c.program stateDir hash) n s))
  | restart {s : Machine C H} (readable : Bool) (h : Reaches opens disk s)
      (ho : opens readable s.disk) : Reaches opens disk (s.restart digits readable)

variable {digits stateDir hash}

variable (hash) in
theorem Call.program_wp (c : Call C) (h : Sound stateDir s) :
    wp (c.program stateDir hash) (fun _ => Sound stateDir) (fun _ => Sound stateDir)
      (Sound stateDir) s := by
  cases c with
  | persist localFiles faults stuck ops message =>
    simp only [Call.program, wp_bind, wp_pure]
    exact wp_imp (fun _ _ h => h.1) (persist_wp hash localFiles faults stuck ops message h)
  | delete faults stuck statePath snapshotDir => exact delete_wp faults stuck statePath snapshotDir h
  | resume localFiles unreadable faults stuck =>
    simp only [Call.program, wp_bind, wp_pure]
    exact wp_mono (fun _ _ h => h.1) (fun _ _ h => h.1) (fun _ h => h)
      (resumePending_wp hash localFiles unreadable faults stuck h)

/-- A state directory that holds legacy envelopes only. -/
def OnlyLegacy (disk : Disk C H) : Prop :=
  ∀ name file, disk.envelopes.lookup name = some file →
    ∃ e, file = some e ∧ isLegacyEnvelope e = true

variable {disk : Disk C H}

theorem OnlyLegacy.not_isCurrent (h : OnlyLegacy disk) {name : String}
    {file : Option (Envelope H)} (hfile : disk.envelopes.lookup name = some file) :
    ¬ IsCurrent file := by
  rintro ⟨e, rfl, hver⟩
  obtain ⟨e', he', hleg⟩ := h name _ hfile
  cases he'
  rw [not_isLegacy_of_version hver] at hleg
  cases hleg

theorem OnlyLegacy.sound (h : OnlyLegacy disk) (readable : Bool) :
    Sound stateDir (Machine.restart digits readable ⟨disk, 1, []⟩) := by
  have hnone := restart_written_nil digits readable disk
  refine ⟨Nat.le_add_left 1 _, by simp [hnone], by simp [hnone], by simp [hnone], by simp [hnone],
    ?_, ?_, fun name file hfile _ => h name file hfile⟩
  · intro name e he hver
    exact absurd ⟨e, rfl, hver⟩ (h.not_isCurrent he)
  · intro name file hfile _
    refine ⟨by simp [hnone], ?_⟩
    rintro n hn rfl
    exact absurd (lt_next_of_lookup digits readable hfile) (Nat.not_lt.mpr hn)

theorem Reaches.sound {opens : Bool → Disk C H → Prop} (hdisk : OnlyLegacy disk)
    (h : Reaches digits stateDir hash opens disk s) : Sound stateDir s := by
  induction h with
  | start readable _ => exact hdisk.sound readable
  | @call s c n readable _ _ ih =>
    have hmeets := wp_exec (c.program_wp hash ih) n
    revert hmeets
    cases Prog.exec (c.program stateDir hash) n s with
    | done _ s' => exact id
    | raised _ s' => exact id
    | killed s' => exact fun h => h.restart digits readable
  | restart readable _ _ ih => exact ih.restart digits readable

end

namespace Example

def stateDir : Path := ["state"]

/-- A legacy envelope that deletes one path. -/
def legacyEnvelope : Envelope Nat :=
  ⟨none, none, some "legacy commit", some [⟨some "delete", some "old.parquet", none, none, none⟩]⟩

/-- A state directory with one legacy envelope. -/
def disk : Disk Nat Nat := ⟨none, AList.singleton "legacy-id.json" (some legacyEnvelope), ∅⟩

/-- A submission that deletes one path. -/
def submission : Call Nat :=
  .persist (fun _ => none) (fun _ => none) (fun _ => false) [.delete "a.parquet"] "retire"

/-- A submission, one killed between its number and its envelope, and one after the restart. -/
def afterKill : Machine Nat Nat :=
  let s₁ := Machine.restart asciiDigits true ⟨disk, 1, []⟩
  let s₂ := nextMachine asciiDigits true (Prog.exec (submission.program stateDir id) 9 s₁)
  let s₃ := nextMachine asciiDigits true (Prog.exec (submission.program stateDir id) 2 s₂)
  nextMachine asciiDigits true (Prog.exec (submission.program stateDir id) 9 s₃)

theorem onlyLegacy : OnlyLegacy disk := by
  intro name file hfile
  obtain rfl : name = "legacy-id.json" := by
    have hmem : name ∈ disk.envelopes := AList.lookup_isSome.mp (by rw [hfile]; rfl)
    exact List.mem_singleton.mp hmem
  have hlookup : disk.envelopes.lookup "legacy-id.json" = some (some legacyEnvelope) := by decide
  rw [hlookup] at hfile
  exact ⟨legacyEnvelope, (Option.some.inj hfile).symm, by decide⟩

/-- The starts of the run read the file. -/
theorem recovers (disk : Disk Nat Nat) : Recovers asciiDigits true disk := Or.inl rfl

theorem reaches_afterKill : Reaches asciiDigits stateDir id (Recovers asciiDigits) disk afterKill :=
  .call submission 9 true (.call submission 2 true (.call submission 9 true (.start true
    (recovers _)) trivial) (recovers _)) trivial

/-- The job of number 1 has been uploaded. -/
def deletion : Call Nat := .delete (fun _ => none) (fun _ => false) (stateName 1) none

/-- The name of the envelope that a submission writes. -/
def submitted (s : Machine Nat Nat) : Option String :=
  match Prog.exec (persist stateDir id (fun _ => none) (fun _ => none) (fun _ => false)
    [.delete "a.parquet"] "retire") 9 s with
  | .done upload _ => some upload.statePath
  | _ => none

def noEnvelopes : Disk Nat Nat := ⟨none, ∅, ∅⟩

def firstStart : Machine Nat Nat := Machine.restart asciiDigits true ⟨noEnvelopes, 1, []⟩

/-- Behind a submission, its deletion, and a restart that cannot read the high-water file. -/
def afterUnreadable : Machine Nat Nat :=
  let s₁ := nextMachine asciiDigits true (Prog.exec (submission.program stateDir id) 9 firstStart)
  let s₂ := nextMachine asciiDigits true (Prog.exec (deletion.program stateDir id) 9 s₁)
  s₂.restart asciiDigits false

end Example

end OsmPolygonWikidata.UploadQueue
