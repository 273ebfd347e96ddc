import OsmPolygonWikidata.UploadQueue.UploadState

/-! # Sequence numbers are never reused

A number is taken from the counter in memory and written to the high-water file before the
envelope of that number is written. So the high-water file never falls below an envelope, even
when its write fails (the counter has moved on, and no envelope follows), and a restart that reads
it continues above everything that was ever written. That is the invariant `Sound`, which every
step of every call keeps. A restart that cannot read it goes by the envelopes that are left
(`Recovers`).
-/

namespace OsmPolygonWikidata.UploadQueue

open Durable
open Prog (wp wp_attempt wp_bind wp_get wp_imp wp_mono wp_pure wp_step)

/-! ## Names -/

theorem DecimalDigits.int_append (digits : DecimalDigits) (cs ds : List Char) {n : Nat}
    (h : digits.int cs = some n) :
    digits.int (cs ++ ds)
      = ds.foldl (fun n c => n.bind (fun n => (digits.value c).map (10 * n + ·))) (some n) := by
  unfold DecimalDigits.int at h ⊢
  rw [List.foldl_append, h]

theorem DecimalDigits.int_toDigits (digits : DecimalDigits) (n : Nat) :
    digits.int (Nat.toDigits 10 n) = some n := by
  induction n using Nat.strongRecOn with
  | ind n ih =>
    by_cases hn : n < 10
    · rw [Nat.toDigits_of_lt_base hn]
      simp [DecimalDigits.int, digits.ascii n hn]
    · have hn' : 10 ≤ n := Nat.le_of_not_lt hn
      rw [Nat.toDigits_of_base_le (by omega) hn', digits.int_append _ _ (ih (n / 10) (by omega))]
      simp only [List.foldl_cons, List.foldl_nil, Option.bind_some,
        digits.ascii (n % 10) (by omega), Option.map_some]
      congr 1
      omega

theorem DecimalDigits.int_padded (digits : DecimalDigits) (width n : Nat) :
    digits.int (List.leftpad width '0' (Nat.toDigits 10 n)) = some n := by
  have hzeros : ∀ k, digits.int (List.replicate k '0') = some 0 := by
    intro k
    have hzero : digits.value '0' = some 0 := digits.ascii 0 (by omega)
    unfold DecimalDigits.int
    induction k with
    | zero => rfl
    | succ k ih => simpa [List.replicate_succ, hzero] using ih
  rw [List.leftpad, digits.int_append _ _ (hzeros _)]
  exact digits.int_toDigits n

theorem toList_stateName (n : Nat) :
    (stateName n).toList = List.leftpad 6 '0' (Nat.toDigits 10 n) ++ ".json".toList := by
  rw [stateName, padded, String.toList_append, String.toList_ofList]

theorem sequenceFile_stateName (digits : DecimalDigits) (n : Nat) :
    sequenceFile digits (stateName n) = some n := by
  have hlen : 6 ≤ (List.leftpad 6 '0' (Nat.toDigits 10 n)).length := by
    rw [List.length_leftpad]
    exact le_max_left _ _
  have hjson : ".json".toList.length = 5 := by decide
  unfold sequenceFile
  rw [toList_stateName, if_pos]
  · rw [List.length_append, hjson, Nat.add_sub_cancel, List.take_left' rfl]
    exact digits.int_padded 6 n
  · rw [Bool.and_eq_true, List.isSuffixOf_iff_suffix, decide_eq_true_eq, List.length_append, hjson]
    exact ⟨List.suffix_append _ _, by omega⟩

/-- ASCII digits alone are decimal digits. -/
def asciiDigits : DecimalDigits where
  value c := if '0' ≤ c ∧ c ≤ '9' then some (c.toNat - 48) else none
  ascii := by decide

theorem stateName_injective : Function.Injective stateName := by
  intro m n h
  have hm := sequenceFile_stateName asciiDigits m
  rw [h, sequenceFile_stateName] at hm
  exact (Option.some.inj hm).symm

theorem snapshotDirForSequence_injective {stateDir : Path} :
    Function.Injective (snapshotDirForSequence stateDir) := by
  intro m n h
  have hpad : padded 6 m = padded 6 n := List.singleton_inj.mp (List.append_cancel_left h)
  exact stateName_injective (congrArg (· ++ ".json") hpad)

variable {C H : Type}

/-! ## The invariant -/

/-- A file that holds an envelope of the current contract. -/
def IsCurrent (file : Option (Envelope H)) : Prop :=
  ∃ e, file = some e ∧ e.contractVersion = some queueContractVersion

/-- A written envelope carries its number and restores to the job it was written for. -/
structure Written.Faithful (stateDir : Path) (w : Written H) : Prop where
  positive : 1 ≤ w.sequence
  restores : ∃ message entries ops, w.envelope = newEnvelope w.sequence message entries
    ∧ resumeOperations (stateName w.sequence) (snapshotDirForSequence stateDir w.sequence) entries
      = .ok (ops, entries.map Entry.sha256)
    ∧ ∀ upload, w.origin = .submitted upload →
      upload.ops = ops ∧ upload.message = message ∧ upload.statePath = stateName w.sequence
        ∧ upload.opShas = entries.map Entry.sha256

/-- What holds of the state directory, the counter and the record between any two steps. -/
structure Sound (stateDir : Path) (s : Machine C H) : Prop where
  next_pos : 1 ≤ s.nextSequence
  faithful : ∀ w ∈ s.written, w.Faithful stateDir
  increasing : (s.written.map Written.sequence).Pairwise (· < ·)
  below : ∀ w ∈ s.written, w.sequence < s.nextSequence
  marked : ∀ w ∈ s.written, w.sequence ≤ readHighwater true s.disk
  recorded : ∀ name e, s.disk.envelopes.lookup name = some (some e) →
    e.contractVersion = some queueContractVersion →
      ∃ w ∈ s.written, name = stateName w.sequence ∧ w.envelope = e
  others : ∀ name file, s.disk.envelopes.lookup name = some file → ¬ IsCurrent file →
    (∀ w ∈ s.written, name ≠ stateName w.sequence) ∧ ∀ n, s.nextSequence ≤ n → name ≠ stateName n
  legacy : ∀ name file, s.disk.envelopes.lookup name = some file → ¬ IsCurrent file →
    ∃ e, file = some e ∧ isLegacyEnvelope e = true

/-- The number `sequence` has been taken and written to the high-water file. -/
structure Allocated (stateDir : Path) (sequence : Nat) (s : Machine C H) : Prop where
  sound : Sound stateDir s
  pos : 1 ≤ sequence
  taken : sequence < s.nextSequence
  fresh : ∀ w ∈ s.written, w.sequence < sequence
  marked : sequence ≤ readHighwater true s.disk
  free : ∀ file, s.disk.envelopes.lookup (stateName sequence) = some file → IsCurrent file

/-- A step that changes snapshot directories only. -/
structure SameButSnapshots (s s' : Machine C H) : Prop where
  highwater : s'.disk.highwater = s.disk.highwater
  envelopes : s'.disk.envelopes = s.disk.envelopes
  next : s'.nextSequence = s.nextSequence
  written : s'.written = s.written

theorem SameButSnapshots.refl (s : Machine C H) : SameButSnapshots s s := ⟨rfl, rfl, rfl, rfl⟩

theorem SameButSnapshots.trans {s s' s'' : Machine C H} (h : SameButSnapshots s s')
    (h' : SameButSnapshots s' s'') : SameButSnapshots s s'' :=
  ⟨h'.highwater.trans h.highwater, h'.envelopes.trans h.envelopes, h'.next.trans h.next,
    h'.written.trans h.written⟩

theorem sameButSnapshots_onSnapshots (f) (s : Machine C H) :
    SameButSnapshots s (s.onSnapshots f) := ⟨rfl, rfl, rfl, rfl⟩

theorem sameButSnapshots_makeSnapshotDir (dir : Path) (s : Machine C H) :
    SameButSnapshots s (s.makeSnapshotDir dir) := ⟨rfl, rfl, rfl, rfl⟩

variable {stateDir : Path} {s s' : Machine C H} {sequence : Nat}

theorem Sound.frame (h : Sound stateDir s) (hs : SameButSnapshots s s') : Sound stateDir s' where
  next_pos := by rw [hs.next]; exact h.next_pos
  faithful := by rw [hs.written]; exact h.faithful
  increasing := by rw [hs.written]; exact h.increasing
  below := by rw [hs.written, hs.next]; exact h.below
  marked := by
    rw [hs.written]
    unfold readHighwater
    rw [hs.highwater]
    exact h.marked
  recorded := by rw [hs.written, hs.envelopes]; exact h.recorded
  others := by rw [hs.written, hs.envelopes, hs.next]; exact h.others
  legacy := by rw [hs.envelopes]; exact h.legacy

theorem Allocated.frame (h : Allocated stateDir sequence s) (hs : SameButSnapshots s s') :
    Allocated stateDir sequence s' where
  sound := h.sound.frame hs
  pos := h.pos
  taken := by rw [hs.next]; exact h.taken
  fresh := by rw [hs.written]; exact h.fresh
  marked := by
    unfold readHighwater
    rw [hs.highwater]
    exact h.marked
  free := by rw [hs.envelopes]; exact h.free

theorem Sound.advance (h : Sound stateDir s) :
    Sound stateDir { s with nextSequence := s.nextSequence + 1 } where
  next_pos := Nat.le_add_left 1 _
  faithful := h.faithful
  increasing := h.increasing
  below := fun w hw => Nat.lt_succ_of_lt (h.below w hw)
  marked := h.marked
  recorded := h.recorded
  others := by
    intro name file hfile hother
    obtain ⟨h1, h2⟩ := h.others name file hfile hother
    exact ⟨h1, fun n hn => h2 n (Nat.le_of_succ_le hn)⟩
  legacy := h.legacy

theorem Sound.allocated (h : Sound stateDir s) : Allocated stateDir s.nextSequence
      (Machine.writeHighwater s.nextSequence { s with nextSequence := s.nextSequence + 1 }) where
  sound :=
    { h.advance with
      marked := by
        intro w hw
        exact (h.below w hw).le }
  pos := h.next_pos
  taken := Nat.lt_succ_self _
  fresh := h.below
  marked := by
    show s.nextSequence ≤ ((s.nextSequence : Int)).toNat
    exact le_of_eq (Int.toNat_natCast _).symm
  free := by
    intro file hfile
    by_contra hother
    exact (h.others _ file hfile hother).2 _ le_rfl rfl

theorem Sound.unlinkEnvelope (h : Sound stateDir s) (name : String) :
    Sound stateDir (s.unlinkEnvelope name) := by
  have hlookup : ∀ name' file, (s.disk.envelopes.erase name).lookup name' = some file →
      s.disk.envelopes.lookup name' = some file := by
    intro name' file hfile
    by_cases hn : name' = name
    · rw [hn, AList.lookup_erase] at hfile
      cases hfile
    · rwa [AList.lookup_erase_ne hn] at hfile
  exact
    { h with
      recorded := fun name' e he => h.recorded name' e (hlookup name' _ he)
      others := fun name' file hfile => h.others name' file (hlookup name' file hfile)
      legacy := fun name' file hfile => h.legacy name' file (hlookup name' file hfile) }

theorem Allocated.writeEnvelope (h : Allocated stateDir sequence s) {w : Written H}
    (hw : w.Faithful stateDir) (hseq : w.sequence = sequence) :
    Sound stateDir (s.writeEnvelope w) := by
  subst hseq
  have hlookup : ∀ name file,
      (s.disk.envelopes.insert (stateName w.sequence) (some w.envelope)).lookup name = some file →
      (name = stateName w.sequence ∧ file = some w.envelope)
        ∨ (name ≠ stateName w.sequence ∧ s.disk.envelopes.lookup name = some file) := by
    intro name file hfile
    by_cases hn : name = stateName w.sequence
    · rw [hn, AList.lookup_insert] at hfile
      exact Or.inl ⟨hn, (Option.some.inj hfile).symm⟩
    · rw [AList.lookup_insert_ne hn] at hfile
      exact Or.inr ⟨hn, hfile⟩
  have hmem : ∀ {P : Written H → Prop}, (∀ v ∈ s.written, P v) → P w →
      ∀ v ∈ s.written ++ [w], P v := by
    intro P hP hPw v hv
    rcases List.mem_append.mp hv with hv | hv
    · exact hP v hv
    · rw [List.mem_singleton.mp hv]
      exact hPw
  exact
    { next_pos := h.sound.next_pos
      faithful := hmem h.sound.faithful hw
      increasing := by
        show ((s.written ++ [w]).map Written.sequence).Pairwise (· < ·)
        rw [List.map_append, List.pairwise_append]
        refine ⟨h.sound.increasing, List.pairwise_singleton _ _, ?_⟩
        intro m hm n hn
        obtain ⟨v, hv, rfl⟩ := List.mem_map.mp hm
        rw [List.mem_singleton.mp hn]
        exact h.fresh v hv
      below := hmem h.sound.below h.taken
      marked := hmem h.sound.marked h.marked
      recorded := by
        intro name e he hcur
        rcases hlookup name _ he with ⟨rfl, hfile⟩ | ⟨-, hfile⟩
        · exact ⟨w, by simp [Machine.writeEnvelope], rfl, (Option.some.inj hfile).symm⟩
        · obtain ⟨v, hv, h1, h2⟩ := h.sound.recorded name e hfile hcur
          exact ⟨v, List.mem_append_left _ hv, h1, h2⟩
      others := by
        intro name file hfile hother
        rcases hlookup name file hfile with ⟨-, rfl⟩ | ⟨hne, hfile⟩
        · obtain ⟨message, entries, ops, he, -⟩ := hw.restores
          exact absurd ⟨w.envelope, rfl, by rw [he]; rfl⟩ hother
        · obtain ⟨h1, h2⟩ := h.sound.others name file hfile hother
          exact ⟨hmem h1 hne, h2⟩
      legacy := by
        intro name file hfile hother
        rcases hlookup name file hfile with ⟨-, rfl⟩ | ⟨-, hfile⟩
        · obtain ⟨message, entries, ops, he, -⟩ := hw.restores
          exact absurd ⟨w.envelope, rfl, by rw [he]; rfl⟩ hother
        · exact h.sound.legacy name file hfile hother }

theorem le_foldl_max {l : List Nat} {n : Nat} (m : Nat) (h : n ∈ l) : n ≤ l.foldl max m := by
  induction l generalizing m with
  | nil => cases h
  | cons a l ih =>
    rw [List.foldl_cons]
    rcases List.mem_cons.mp h with rfl | hl
    · have hmono : ∀ (l : List Nat) (k : Nat), k ≤ l.foldl max k := by
        intro l
        induction l with
        | nil => exact fun k => le_rfl
        | cons b l ih' => exact fun k => (le_max_left k b).trans (ih' (max k b))
      exact (le_max_right m n).trans (hmono l _)
    · exact ih _ hl

theorem le_scannedSequence (digits : DecimalDigits) {disk : Disk C H} {n : Nat}
    {file : Option (Envelope H)} (h : disk.envelopes.lookup (stateName n) = some file) :
    n ≤ scannedSequence digits disk := by
  apply le_foldl_max
  apply List.mem_map.mpr
  refine ⟨⟨stateName n, file⟩, AList.mem_lookup_iff.mp h, ?_⟩
  show sequenceFromStatePath digits (stateName n) file = n
  rw [sequenceFromStatePath, sequenceFile_stateName]

theorem Recovers.le_next {digits : DecimalDigits} {readable : Bool} {disk : Disk C H}
    (h : Recovers digits readable disk) :
    readHighwater true disk < nextSequenceFromStateDir digits readable disk := by
  unfold nextSequenceFromStateDir
  rcases h with rfl | hle <;> omega

theorem lt_next_of_lookup (digits : DecimalDigits) (readable : Bool) {disk : Disk C H} {n : Nat}
    {file : Option (Envelope H)} (h : disk.envelopes.lookup (stateName n) = some file) :
    n < nextSequenceFromStateDir digits readable disk := by
  have hle := le_scannedSequence digits h
  unfold nextSequenceFromStateDir
  omega

theorem restart_written_nil (digits : DecimalDigits) (readable : Bool) (disk : Disk C H) :
    (Machine.restart digits readable ⟨disk, 1, []⟩).written = [] := ite_self _

/-- What the record keeps at a start: the envelopes that are left, and no number that is given
again. -/
theorem Sound.record (digits : DecimalDigits) (readable : Bool) (h : Sound stateDir s) :
    (s.restart digits readable).written.Sublist s.written
    ∧ (∀ w ∈ s.written, (s.disk.envelopes.lookup (stateName w.sequence)).isSome = true →
      w ∈ (s.restart digits readable).written)
    ∧ ∀ w ∈ (s.restart digits readable).written,
      w.sequence < (s.restart digits readable).nextSequence := by
  unfold Machine.restart
  dsimp only
  split
  · rename_i hr
    exact ⟨List.Sublist.refl _, fun w hw _ => hw, fun w hw => (h.marked w hw).trans_lt hr.le_next⟩
  · refine ⟨List.filter_sublist, fun w hw hleft => List.mem_filter.mpr ⟨hw, hleft⟩, fun w hw => ?_⟩
    obtain ⟨file, hfile⟩ := Option.isSome_iff_exists.mp (List.mem_filter.mp hw).2
    exact lt_next_of_lookup digits readable hfile

theorem Sound.restart (digits : DecimalDigits) (readable : Bool) (h : Sound stateDir s) :
    Sound stateDir (s.restart digits readable) := by
  obtain ⟨hsub, hleft, hbelow⟩ := h.record digits readable
  exact
    { next_pos := Nat.le_add_left 1 _
      faithful := fun w hw => h.faithful w (hsub.subset hw)
      increasing := h.increasing.sublist (hsub.map _)
      below := hbelow
      marked := fun w hw => h.marked w (hsub.subset hw)
      recorded := by
        intro name e he hcurrent
        obtain ⟨w, hw, rfl, rfl⟩ := h.recorded name e he hcurrent
        exact ⟨w, hleft w hw (Option.isSome_iff_exists.mpr ⟨_, he⟩), rfl, rfl⟩
      others := by
        intro name file hfile hother
        refine ⟨fun w hw => (h.others name file hfile hother).1 w (hsub.subset hw), ?_⟩
        rintro n hn rfl
        exact absurd (lt_next_of_lookup digits readable hfile) (Nat.not_lt.mpr hn)
      legacy := h.legacy }

/-! ## Steps that change snapshots only -/

variable {hash : C → H} {localFiles : Path → Option C}

/-- The exception comes from a failing step. -/
def FromFault (faults : Faults) (e : UploadError) : Prop :=
  ∃ step failure moment, faults step = some (failure, moment) ∧ e = .failed failure

theorem fallible_wp {faults : Faults} {step : FsStep} {f : Machine C H → Machine C H}
    {Q : Unit → Machine C H → Prop} {E : UploadError → Machine C H → Prop}
    {K : Machine C H → Prop} (hK : K s) (hQ : Q () (f s))
    (hE : ∀ failure, FromFault faults (.failed failure) → E (.failed failure) s)
    (hE' : ∀ failure, FromFault faults (.failed failure) → E (.failed failure) (f s)) :
    wp (fallible (faults step) f) Q E K s := by
  rcases hfault : faults step with _ | ⟨failure, _ | _⟩
  · exact ⟨hK, hQ⟩
  · exact hE failure ⟨step, failure, _, hfault, rfl⟩
  · exact ⟨hK, hE' failure ⟨step, failure, _, hfault, rfl⟩⟩

theorem unlinkSnapshots_wp (stuck : SnapshotFile C → Bool) (dir : Path)
    (files : List (SnapshotFile C)) (s : Machine C H) :
    wp (unlinkSnapshots stuck dir files) (fun _ => SameButSnapshots s) (fun _ _ => False)
      (SameButSnapshots s) s := by
  induction files generalizing s with
  | nil => exact SameButSnapshots.refl s
  | cons file files ih =>
    unfold unlinkSnapshots
    split
    · exact ih s
    · have hstep : SameButSnapshots s (Machine.unlinkSnapshot dir file s) :=
        sameButSnapshots_onSnapshots _ s
      refine ⟨SameButSnapshots.refl s, ?_⟩
      exact wp_mono (fun _ _ h => hstep.trans h) (fun _ _ h => h) (fun _ h => hstep.trans h)
        (ih _)

theorem rmtree_wp (stuck : SnapshotFile C → Bool) (dir : Path) (s : Machine C H) :
    wp (rmtree stuck dir) (fun _ => SameButSnapshots s) (fun _ _ => False)
      (SameButSnapshots s) s := by
  simp only [rmtree, wp_bind, wp_get, wp_step]
  refine wp_imp ?_ (unlinkSnapshots_wp stuck dir _ s)
  intro _ s' h
  exact ⟨h, h.trans (sameButSnapshots_onSnapshots _ s')⟩

/-- The two errors of a number that is used twice. -/
def UploadError.isDuplicate : UploadError → Bool
  | .duplicateSequence _ _ => true
  | .legacyDuplicate _ => true
  | _ => false

/-- Why a snapshot was refused: a step failed, or, when `ok` is false, an error of the job. -/
structure Refused (faults : Faults) (ok : Bool) (e : UploadError) : Prop where
  notDuplicate : e.isDuplicate = false
  cause : FromFault faults e ∨ (ok = false ∧ e.tolerated = true)

theorem fallible_frame {faults : Faults} {step : FsStep} {ok : Bool}
    {f : Machine C H → Machine C H} {Q : Unit → Machine C H → Prop} {s₁ : Machine C H}
    (h : SameButSnapshots s s₁) (hf : SameButSnapshots s₁ (f s₁))
    (hQ : ∀ s', SameButSnapshots s s' → Q () s') :
    wp (fallible (faults step) f) Q
      (fun e s' => SameButSnapshots s s' ∧ Refused faults ok e) (SameButSnapshots s) s₁ := by
  exact fallible_wp h (hQ _ (h.trans hf)) (fun _ hfault => ⟨h, rfl, Or.inl hfault⟩)
    (fun _ hfault => ⟨h.trans hf, rfl, Or.inl hfault⟩)

theorem copySnapshot_wp (faults : Faults) (dir : Path) (index : Nat) (localPath : Path)
    (s : Machine C H) :
    wp (copySnapshot hash localFiles faults dir index localPath)
      (fun r s' => SameButSnapshots s s' ∧ isInside r.1 dir = true
        ∧ (localFiles localPath).isSome = true)
      (fun e s' => SameButSnapshots s s' ∧ Refused faults (localFiles localPath).isSome e)
      (SameButSnapshots s) s := by
  have hinside : isInside (dir ++ [padded 3 index, localPath.name]) dir = true :=
    List.isPrefixOf_iff_prefix.mpr (List.prefix_append _ _)
  have hwrite : ∀ (file : SnapshotFile C) (m : Machine C H),
      SameButSnapshots m (Machine.writeSnapshot dir file m) :=
    fun file m => sameButSnapshots_onSnapshots _ m
  unfold copySnapshot
  cases hfile : localFiles localPath with
  | none => exact ⟨SameButSnapshots.refl s, rfl, Or.inr ⟨rfl, rfl⟩⟩
  | some content =>
    simp only [wp_bind, wp_pure]
    refine fallible_frame (SameButSnapshots.refl s) (SameButSnapshots.refl _) (fun s₁ h1 => ?_)
    refine fallible_frame h1 (hwrite _ s₁) (fun s₂ h2 => ?_)
    refine fallible_frame h2 (hwrite _ s₂) (fun s₃ h3 => ?_)
    refine fallible_frame h3 (SameButSnapshots.refl _) (fun s₄ h4 => ?_)
    exact ⟨h4, hinside, rfl⟩

theorem snapshotOperation_wp (faults : Faults) (dir : Option Path) (index : Nat)
    (op : PublicationOp) (statePath : String) (snapshotDir : Path)
    (hdir : ∀ d, dir = some d → d = snapshotDir) (s : Machine C H) :
    wp (snapshotOperation hash localFiles faults dir index op)
      (fun r s' => SameButSnapshots s s'
        ∧ resumeOperation r.2 statePath snapshotDir = .ok (r.1, r.2.sha256))
      (fun _ => SameButSnapshots s) (SameButSnapshots s) s := by
  cases op with
  | delete pathInRepo => exact ⟨SameButSnapshots.refl s, rfl⟩
  | add pathInRepo localPath snapshotPath =>
    cases dir with
    | none => exact SameButSnapshots.refl s
    | some dir =>
      obtain rfl := hdir dir rfl
      simp only [snapshotOperation, wp_bind]
      refine wp_mono ?_ (fun _ _ h => h.1) (fun _ h => h)
        (copySnapshot_wp faults dir index localPath s)
      rintro ⟨path, sha⟩ s' ⟨hs, hin, -⟩
      refine ⟨hs, ?_⟩
      have hin' : isInside path dir = true := hin
      simp [resumeOperation, requiredString, validateResumeSnapshot, publicationOp, hin',
        bind, Except.bind, pure, Except.pure]

theorem snapshotAll_wp (faults : Faults) (dir : Option Path) (statePath : String)
    (snapshotDir : Path) (hdir : ∀ d, dir = some d → d = snapshotDir) (ops : List PublicationOp)
    (index : Nat) (s : Machine C H) :
    wp (snapshotAll hash localFiles faults dir ops index)
      (fun r s' => SameButSnapshots s s'
        ∧ resumeOperations statePath snapshotDir r.2 = .ok (r.1, r.2.map Entry.sha256))
      (fun _ => SameButSnapshots s) (SameButSnapshots s) s := by
  induction ops generalizing index s with
  | nil => exact ⟨SameButSnapshots.refl s, rfl⟩
  | cons op ops ih =>
    simp only [snapshotAll, wp_bind]
    refine wp_imp ?_ (snapshotOperation_wp faults dir index op statePath snapshotDir hdir s)
    rintro ⟨op', entry⟩ s₁ ⟨hs₁, hop⟩
    refine wp_mono ?_ (fun _ _ h => hs₁.trans h) (fun _ h => hs₁.trans h) (ih (index + 1) s₁)
    rintro ⟨ops', entries⟩ s₂ ⟨hs₂, hops⟩
    refine ⟨hs₁.trans hs₂, ?_⟩
    have hop' : resumeOperation entry statePath snapshotDir = .ok (op', entry.sha256) := hop
    have hops' : resumeOperations statePath snapshotDir entries
        = .ok (ops', entries.map Entry.sha256) := hops
    simp [resumeOperations, hop', hops', bind, Except.bind, pure, Except.pure]

theorem snapshotOperations_wp (faults : Faults) (ops : List PublicationOp) (sequence : Nat)
    (s : Machine C H) :
    wp (snapshotOperations stateDir hash localFiles faults ops sequence)
      (fun r s' => SameButSnapshots s s'
        ∧ resumeOperations (stateName sequence) (snapshotDirForSequence stateDir sequence) r.2.1
          = .ok (r.1, r.2.1.map Entry.sha256))
      (fun _ => SameButSnapshots s) (SameButSnapshots s) s := by
  unfold snapshotOperations
  split
  · simp only [wp_bind]
    refine fallible_wp (SameButSnapshots.refl s) ?_ (fun _ _ => SameButSnapshots.refl s)
      (fun _ _ => sameButSnapshots_makeSnapshotDir _ s)
    have h1 := sameButSnapshots_makeSnapshotDir (snapshotDirForSequence stateDir sequence) s
    refine wp_mono (fun _ _ h => ⟨h1.trans h.1, h.2⟩) (fun _ _ h => h1.trans h)
      (fun _ h => h1.trans h) (snapshotAll_wp faults _ _ _ ?_ ops 0 _)
    rintro d ⟨⟩
    rfl
  · simp only [wp_bind]
    refine wp_imp (fun _ _ h => h) (snapshotAll_wp faults none _ _ ?_ ops 0 s)
    rintro d ⟨⟩

/-! ## Allocating, submitting and deleting -/

/-- A step that changes at most the counter and the high-water file. -/
structure SameFiles (s s' : Machine C H) : Prop where
  envelopes : s'.disk.envelopes = s.disk.envelopes
  snapshots : s'.disk.snapshots = s.disk.snapshots
  written : s'.written = s.written
  next : s.nextSequence ≤ s'.nextSequence
  mark : ∀ n < s.nextSequence, n ≤ readHighwater true s.disk → n ≤ readHighwater true s'.disk

theorem allocateSequence_wp (faults : Faults) (h : Sound stateDir s) : wp (allocateSequence faults)
      (fun sequence s' => Allocated stateDir sequence s' ∧ SameFiles s s'
        ∧ s.nextSequence ≤ sequence)
      (fun e s' => FromFault faults e ∧ Sound stateDir s' ∧ SameFiles s s')
      (fun s' => Sound stateDir s' ∧ SameFiles s s') s := by
  simp only [allocateSequence, wp_bind, wp_get, wp_step, wp_pure]
  have hsame : SameFiles s { s with nextSequence := s.nextSequence + 1 } :=
    ⟨rfl, rfl, rfl, Nat.le_succ _, fun _ _ hn => hn⟩
  have hsame' : SameFiles s (Machine.writeHighwater s.nextSequence
      { s with nextSequence := s.nextSequence + 1 }) :=
    ⟨rfl, rfl, rfl, Nat.le_succ _, fun _ hn _ => hn.le⟩
  refine ⟨⟨h, rfl, rfl, rfl, le_rfl, fun _ _ hn => hn⟩,
    fallible_wp ⟨h.advance, hsame⟩ ⟨h.allocated, hsame', le_rfl⟩ ?_ ?_⟩
  · exact fun _ hfault => ⟨hfault, h.advance, hsame⟩
  · exact fun _ hfault => ⟨hfault, h.allocated.sound, hsame'⟩

theorem unlink_then_wp (faults : Faults) (statePath : String)
    {rest : Action C H Unit} (h : Sound stateDir s)
    (hrest : ∀ s' : Machine C H, Sound stateDir s' →
      wp rest (fun _ => Sound stateDir) (fun _ => Sound stateDir) (Sound stateDir) s') :
    wp (do fallible (faults .unlink) (Machine.unlinkEnvelope statePath); rest)
      (fun _ => Sound stateDir) (fun _ => Sound stateDir) (Sound stateDir) s := by
  rw [wp_bind]
  exact fallible_wp h (hrest _ (h.unlinkEnvelope statePath)) (fun _ _ => h)
    (fun _ _ => h.unlinkEnvelope statePath)

theorem rmtree_keeps (stuck : SnapshotFile C → Bool) (dir : Path) (h : Sound stateDir s) :
    wp (rmtree stuck dir) (fun _ => Sound stateDir) (fun _ => Sound stateDir) (Sound stateDir) s :=
  wp_mono (fun _ _ hs => h.frame hs) (fun _ _ hs => hs.elim) (fun _ hs => h.frame hs)
    (rmtree_wp stuck dir s)

theorem cleanupFailedSubmission_wp (faults : Faults) (stuck : SnapshotFile C → Bool)
    (statePath : String) (snapshotDir : Option Path) (h : Sound stateDir s) :
    wp (cleanupFailedSubmission stateDir faults stuck statePath snapshotDir)
      (fun _ => Sound stateDir) (fun _ => Sound stateDir) (Sound stateDir) s := by
  refine unlink_then_wp faults statePath h ?_
  intro s' h'
  cases snapshotDir with
  | none => exact h'
  | some dir =>
    dsimp only
    split
    · exact rmtree_keeps stuck dir h'
    · exact h'

theorem delete_wp (faults : Faults) (stuck : SnapshotFile C → Bool) (statePath : String)
    (snapshotDir : Option Path) (h : Sound stateDir s) :
    wp (delete stateDir faults stuck statePath snapshotDir)
      (fun _ => Sound stateDir) (fun _ => Sound stateDir) (Sound stateDir) s := by
  refine unlink_then_wp faults statePath h ?_
  intro s' h'
  cases snapshotDir with
  | none => exact h'
  | some dir =>
    dsimp only
    split
    · exact rmtree_keeps stuck dir h'
    · exact h'

variable (hash localFiles) in
/-- **A submission** keeps the invariant, however it ends; one that returns has recorded its
job last. -/
theorem persist_wp (faults : Faults) (stuck : SnapshotFile C → Bool) (ops : List PublicationOp)
    (message : String) (h : Sound stateDir s) :
    wp (persist stateDir hash localFiles faults stuck ops message)
      (fun upload s' => Sound stateDir s' ∧ ∃ w, s'.written = s.written ++ [w]
        ∧ w.origin = .submitted upload)
      (fun _ => Sound stateDir) (Sound stateDir) s := by
  simp only [persist, wp_bind]
  refine wp_mono ?_ (fun _ _ h => h.2.1) (fun _ h => h.1) (allocateSequence_wp faults h)
  rintro sequence s₁ ⟨h₁, hw₁, -⟩
  rw [wp_attempt]
  refine wp_mono ?_ ?_ (fun _ hs => h₁.sound.frame hs)
    (snapshotOperations_wp faults ops sequence s₁)
  · rintro ⟨ops', entries, snapshotDir⟩ s₂ ⟨hs₂, hres⟩
    have h₂ := h₁.frame hs₂
    have hres' : resumeOperations (stateName sequence) (snapshotDirForSequence stateDir sequence)
        entries = .ok (ops', entries.map Entry.sha256) := hres
    set stored : StoredUpload H :=
      ⟨ops', message, stateName sequence, snapshotDir, entries.map Entry.sha256⟩ with hstored
    have hw : (⟨sequence, newEnvelope sequence message entries, .submitted stored⟩ :
        Written H).Faithful stateDir := by
      refine ⟨h₁.pos, message, entries, ops', rfl, hres', ?_⟩
      rintro upload ⟨⟩
      exact ⟨rfl, rfl, rfl, rfl⟩
    have h₃ := h₂.writeEnvelope hw rfl
    simp only [wp_bind, wp_attempt]
    refine fallible_wp h₂.sound ?_ ?_ ?_
    · exact ⟨h₃, _, congrArg (· ++ _) (hs₂.written.trans hw₁.written), rfl⟩
    · exact fun _ _ => cleanupFailedSubmission_wp faults stuck _ snapshotDir h₂.sound
    · exact fun _ _ => cleanupFailedSubmission_wp faults stuck _ snapshotDir h₃
  · intro e s₂ hs₂
    simp only [wp_bind]
    exact cleanupFailedSubmission_wp faults stuck _ _ (h₁.sound.frame hs₂)

end OsmPolygonWikidata.UploadQueue
