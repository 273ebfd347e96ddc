import OsmPolygonWikidata.Extraction.Restart

/-! # Exceptions inside an extraction

When an exception ends the scan, its handler appends the pending rows once more. That is right
after a failure of the reader, and after a chunk that could not be written. But `append` writes the
chunk first and the metadata afterwards, and the pending rows are cleared only when it has returned.
If the metadata cannot be written, the handler writes the same rows again, as the next chunk
(`distinct_iff_not_flushedTwice`).

An exception in front of the scan, or behind it, leaves the directory as a kill does.
-/

namespace OsmPolygonWikidata.Extraction

open Durable
open Prog (wp wp_and wp_bind wp_exec wp_get wp_imp wp_mono wp_pure wp_returns wp_self wp_step)

/-! ## Writes that raise -/

/-- The write of a call of `append` that raises. -/
inductive WriteFailure where
  | chunk
  | metadata
  deriving DecidableEq

/-- A scan in which writes may raise: the calls of `append` are counted, and `raised` says that an
exception is on its way. -/
structure FailingScan (B : Type) extends Scan B where
  calls : Nat
  raised : Bool

section

variable {B Candidate : Type} (glob : GlobOrder) (candidateToV2Row : Candidate → Option (String × B))
variable (failures : Nat → Option WriteFailure)

/-- `append`. It returns the checkpoint as it leaves it, and whether it raises. -/
def appendFailing (failure : Option WriteFailure) (rows : List (Row B)) (checkpoint : Checkpoint) :
    Action B (Checkpoint × Bool) :=
  if rows = [] then
    return (checkpoint, false)
  else if failure = some .chunk then
    return (checkpoint, true)
  else do
    Prog.step (fun disk => { disk with chunks := disk.chunks.insert checkpoint.nextChunk rows })
    let metadata := { checkpoint.metadata with
      complete := false
      nextChunk := checkpoint.nextChunk + 1
      chunkCount := checkpoint.nextChunk + 1
      rowCount := checkpoint.metadata.rowCount + rows.length }
    if failure = some .metadata then
      return (⟨metadata, checkpoint.nextChunk + 1⟩, true)
    else do
      writeMetadata metadata
      return (⟨metadata, checkpoint.nextChunk + 1⟩, false)

/-- `checkpoint.append(pending_checkpoint)`. -/
def flushFailing (scan : FailingScan B) : Action B (FailingScan B) := do
  let (checkpoint, raised) ← appendFailing (failures scan.calls) scan.pending scan.checkpoint
  return { scan with checkpoint := checkpoint, calls := scan.calls + 1, raised := raised }

/-- `_append_extraction_row`, with `_checkpoint_if_due`. -/
def appendRowFailing (limit : Option Int) (checkpointEvery : Int) (extractedAt : String)
    (candidate : Candidate) (scan : FailingScan B) : Action B (FailingScan B) := do
  match acceptedRow candidateToV2Row limit extractedAt candidate scan.rows with
  | none => return scan
  | some row =>
    let scan := { scan with rows := scan.rows ++ [row], pending := scan.pending ++ [row] }
    if (scan.pending.length : Int) < max 1 checkpointEvery then
      return scan
    else do
      let scan ← flushFailing failures scan
      if scan.raised then
        return scan
      else
        return { scan with pending := [] }

/-- `_consume_candidates`, up to the first exception. -/
def consumeFailing (limit : Option Int) (checkpointEvery : Int) (extractedAt : String) :
    List Candidate → FailingScan B → Action B (FailingScan B)
  | [], scan => return scan
  | candidate :: candidates, scan => do
    let scan ← appendRowFailing candidateToV2Row failures limit checkpointEvery extractedAt
      candidate scan
    if scan.raised then
      return scan
    else
      consumeFailing limit checkpointEvery extractedAt candidates scan

/-- The start of `extract_v2_pbf`. -/
def openCheckpoint (limit : Option Int) : Action B (Checkpoint × List (Row B)) := do
  let checkpoint ← newCheckpoint glob limit
  loadRows glob limit checkpoint

/-- The candidates that the reader delivers before it raises. -/
def delivered (failsAfter : Option Nat) (candidates : List Candidate) : List Candidate :=
  match failsAfter with
  | none => candidates
  | some n => candidates.take n

/-- `extract_v2_pbf` with a checkpoint directory, where the reader raises after `failsAfter`
candidates and the writes of the calls of `append` raise as `failures` says. It returns nothing
when an exception has propagated. -/
def extractFailing (limit : Option Int) (checkpointEvery : Int) (extractedAt : String)
    (failsAfter : Option Nat) (candidates : List Candidate) :
    Action B (Option (List (Row B))) := do
  let (checkpoint, rows) ← openCheckpoint glob limit
  if checkpoint.metadata.complete then
    return some rows
  else do
    let scan ← consumeFailing candidateToV2Row failures limit checkpointEvery extractedAt
      (delivered failsAfter candidates) ⟨⟨checkpoint, rows, []⟩, 0, false⟩
    -- the pending rows are appended by the exception handler, or at the end
    let flushed ← flushFailing failures { scan with raised := false }
    if scan.raised ∨ failsAfter ≠ none ∨ flushed.raised then
      return none
    else do
      markComplete flushed.checkpoint
      return some flushed.rows

end

/-! ## Opening the checkpoint -/

section

variable {B : Type} {glob : GlobOrder} {K : Disk B → Prop}
variable (herase : ∀ disk i, K disk → K { disk with chunks := disk.chunks.erase i })
variable (hmetadata : ∀ disk m, K disk → K { disk with metadata := m })

include herase hmetadata

variable (glob) in
theorem resetFiles_wp (limit : Option Int) {disk : Disk B} (h : K disk) :
    wp (do clearFiles glob; writeMetadata (freshMetadata limit))
      (fun _ disk' => K disk' ∧ ∀ i, disk'.chunks.lookup i = none) (fun _ _ => False) K disk := by
  simp only [clearFiles, writeMetadata, wp_bind, wp_get, wp_step]
  refine wp_imp ?_ (removeAll_wp (fun i disk hdisk => herase disk i hdisk) h)
  rintro _ disk' ⟨hdisk', hK⟩
  rw [foldl_erase] at hdisk'
  subst hdisk'
  exact ⟨hK, hmetadata _ _ hK, lookup_erase_listed glob disk.chunks⟩

/-- Opening a checkpoint keeps what neither the removal of chunks nor the metadata can break. The
rows it gives are those of the chunks. -/
theorem openCheckpoint_wp (limit : Option Int) {disk : Disk B} (h : K disk) :
    wp (openCheckpoint glob limit)
      (fun loaded disk' => K disk' ∧
        if loaded.1.metadata.complete then loaded.2 = readRows disk' (sortedChunks disk')
        else ∃ pieces, Chunked disk' loaded.1 pieces ∧ loaded.2 = pieces.flatten)
      (fun _ _ => False) K disk := by
  have hload : ∀ checkpoint disk', K disk' →
      checkpoint.nextChunk = (disk'.chunks.keys.map (· + 1)).foldl max 0 →
      wp (loadRows glob limit checkpoint)
        (fun loaded disk' => K disk' ∧
          if loaded.1.metadata.complete then loaded.2 = readRows disk' (sortedChunks disk')
          else ∃ pieces, Chunked disk' loaded.1 pieces ∧ loaded.2 = pieces.flatten)
        (fun _ _ => False) K disk' := by
    intro checkpoint disk' hK hnext
    simp only [loadRows, wp_bind, wp_get]
    split
    · rename_i hvalid
      obtain ⟨hchunks, -⟩ := hvalid
      set n := (sortedChunks disk').length with hn
      by_cases hc : checkpoint.metadata.complete = true
      · simp only [hc, if_true, wp_pure]
        exact ⟨hK, trivial⟩
      · have hrun : checkpoint.metadata.complete = false := by simpa using hc
        simp only [hrun, Bool.false_eq_true, if_false, writeMetadata, wp_bind, wp_step, wp_pure]
        refine ⟨hK, hmetadata _ _ hK, contents disk'.chunks n, ⟨?_, lookup_eq_contents hchunks⟩, ?_⟩
        · rw [hnext, foldl_max_succ (mem_keys_of_sortedIndexes hchunks), length_contents]
        · rw [flatten_contents, ← hchunks]
    · have hreset := resetFiles_wp glob herase hmetadata limit hK
      simp only [wp_bind, writeMetadata, wp_step, wp_pure] at hreset ⊢
      refine wp_imp ?_ hreset
      rintro _ disk'' ⟨hk, hk', hl⟩
      refine ⟨hk, hk', ?_⟩
      rw [if_neg (by simp [freshMetadata])]
      exact ⟨[], ⟨rfl, fun i => by rw [hl i]; rfl⟩, rfl⟩
  unfold openCheckpoint newCheckpoint prepare
  simp only [wp_bind, wp_get, wp_pure]
  split
  · simp only [wp_pure]
    exact hload _ disk h rfl
  · have hreset := resetFiles_wp glob herase hmetadata limit h
    simp only [wp_bind] at hreset ⊢
    simp only [writeMetadata, wp_step, wp_pure] at hreset ⊢
    refine wp_imp ?_ hreset
    rintro _ disk' ⟨hk, hk', -⟩
    exact ⟨hk, hload _ _ hk' rfl⟩

end

/-! ## Distinct polygons -/

section

variable {B Candidate : Type}

def identities (rows : List (Row B)) : List String := rows.map Row.polygonId

/-- The chunks hold pairwise distinct polygons. -/
def Distinct (disk : Disk B) : Prop := (identities (readRows disk disk.chunks.keys)).Nodup

instance (disk : Disk B) : Decidable (Distinct disk) :=
  inferInstanceAs (Decidable (List.Nodup _))

variable {disk : Disk B}

theorem Distinct.setMetadata (h : Distinct disk) (m : Option Metadata) :
    Distinct { disk with metadata := m } := h

theorem Distinct.erase (h : Distinct disk) (i : Nat) :
    Distinct { disk with chunks := disk.chunks.erase i } := by
  have hkeys : (disk.chunks.erase i).keys = disk.chunks.keys.erase i := AList.keys_erase i disk.chunks
  have hread : readRows { disk with chunks := disk.chunks.erase i } (disk.chunks.erase i).keys
      = readRows disk (disk.chunks.keys.erase i) := by
    rw [hkeys]
    unfold readRows
    apply List.flatMap_congr
    intro j hj
    have hne : j ≠ i := by
      rintro rfl
      exact disk.chunks.nodupKeys.not_mem_erase hj
    rw [AList.lookup_erase_ne hne]
  unfold Distinct at h ⊢
  rw [hread]
  exact h.sublist ((List.erase_sublist.flatMap _).map _)

theorem Chunked.distinct_iff {checkpoint : Checkpoint} {pieces : List (List (Row B))}
    (h : Chunked disk checkpoint pieces) : Distinct disk ↔ (identities pieces.flatten).Nodup := by
  rw [← h.readRows]
  exact ((h.keys_perm.flatMap_right _).map _).nodup_iff

theorem nodup_of_opened {loaded : Checkpoint × List (Row B)} (h : Distinct disk)
    (hloaded : if loaded.1.metadata.complete then loaded.2 = readRows disk (sortedChunks disk)
      else ∃ pieces, Chunked disk loaded.1 pieces ∧ loaded.2 = pieces.flatten) :
    (identities loaded.2).Nodup := by
  split at hloaded
  · rw [hloaded]
    have hperm : (sortedChunks disk).Perm disk.chunks.keys := sortedIndexes_perm _ disk.chunks
    exact ((hperm.flatMap_right _).map _).nodup_iff.mpr h
  · obtain ⟨pieces, hchunked, hrows⟩ := hloaded
    rw [hrows]
    exact hchunked.distinct_iff.mp h

/-! ## The scan -/

/-- What is not in the chunks is pending. -/
def Saved (scan : FailingScan B) (disk : Disk B) : Prop :=
  ∃ pieces, Chunked disk scan.checkpoint pieces ∧ scan.rows = pieces.flatten ++ scan.pending

/-- What is pending is in the last chunk already. -/
def SavedPending (scan : FailingScan B) (disk : Disk B) : Prop :=
  scan.pending ≠ [] ∧ ∃ pieces, Chunked disk scan.checkpoint (pieces ++ [scan.pending])
    ∧ scan.rows = pieces.flatten ++ scan.pending

variable {scan : FailingScan B}

theorem Saved.distinct (h : Saved scan disk)
    (hnodup : (identities scan.rows).Nodup) : Distinct disk := by
  obtain ⟨pieces, hchunked, hrows⟩ := h
  rw [hchunked.distinct_iff]
  rw [hrows, identities, List.map_append] at hnodup
  exact (List.nodup_append.mp hnodup).1

theorem SavedPending.distinct (h : SavedPending scan disk)
    (hnodup : (identities scan.rows).Nodup) : Distinct disk := by
  obtain ⟨-, pieces, hchunked, hrows⟩ := h
  rw [hchunked.distinct_iff, List.flatten_append, List.flatten_singleton, ← hrows]
  exact hnodup

theorem flushFailing_wp {failures : Nat → Option WriteFailure} {K : Disk B → Prop}
    (hK : ∀ disk, Distinct disk → K disk)
    (h : Saved scan disk) (hnodup : (identities scan.rows).Nodup) :
    wp (flushFailing failures scan)
      (fun scan' disk' => scan'.rows = scan.rows ∧ scan'.pending = scan.pending
        ∧ scan'.calls = scan.calls + 1 ∧ Distinct disk'
        ∧ (scan'.raised = true → scan.pending ≠ []
          ∧ ((failures scan.calls = some .chunk ∧ Saved scan' disk')
            ∨ (failures scan.calls = some .metadata ∧ SavedPending scan' disk')))
        ∧ (scan'.raised = false → (scan.pending ≠ [] → failures scan.calls = none)
          ∧ ∃ pieces, Chunked disk' scan'.checkpoint pieces ∧ scan.rows = pieces.flatten))
      (fun _ _ => False) K disk := by
  have hdistinct := h.distinct hnodup
  obtain ⟨pieces, hchunked, hrows⟩ := h
  simp only [flushFailing, wp_bind, wp_pure, appendFailing]
  by_cases hpending : scan.pending = []
  · rw [if_pos hpending]
    simp only [wp_pure]
    refine ⟨trivial, trivial, trivial, hdistinct, (fun h => by cases h),
      fun _ => ⟨?_, pieces, ?_, ?_⟩⟩
    · intro hne
      exact absurd hpending hne
    · exact hchunked
    · rw [hrows, hpending, List.append_nil]
  · rw [if_neg hpending]
    by_cases hchunk : failures scan.calls = some .chunk
    · -- nothing has been written
      rw [if_pos hchunk]
      simp only [wp_pure]
      refine ⟨trivial, trivial, trivial, hdistinct, fun _ => ⟨hpending, Or.inl ⟨hchunk, ?_⟩⟩,
        fun h => by cases h⟩
      exact ⟨pieces, hchunked, hrows⟩
    · rw [if_neg hchunk]
      have hflatten : (pieces ++ [scan.pending]).flatten = scan.rows := by
        rw [List.flatten_append, List.flatten_singleton, hrows]
      have hinsert : ∀ m m', Distinct ⟨m, disk.chunks.insert scan.checkpoint.nextChunk scan.pending⟩
          ∧ Chunked ⟨m, disk.chunks.insert scan.checkpoint.nextChunk scan.pending⟩
            ⟨m', scan.checkpoint.nextChunk + 1⟩ (pieces ++ [scan.pending]) := by
        intro m m'
        have hchunked' := hchunked.insert scan.pending m m'
        refine ⟨hchunked'.distinct_iff.mpr ?_, hchunked'⟩
        rw [hflatten]
        exact hnodup
      simp only [wp_bind, wp_step]
      refine ⟨hK _ hdistinct, ?_⟩
      by_cases hmetadata : failures scan.calls = some .metadata
      · rw [if_pos hmetadata]
        simp only [wp_pure]
        refine ⟨trivial, trivial, trivial, (hinsert _ scan.checkpoint.metadata).1,
          fun _ => ⟨hpending, Or.inr ⟨hmetadata, hpending, pieces, (hinsert _ _).2, hrows⟩⟩,
          fun h => by cases h⟩
      · rw [if_neg hmetadata]
        have hnone : failures scan.calls = none := by
          cases hfailure : failures scan.calls with
          | none => rfl
          | some failure =>
            cases failure with
            | chunk => exact absurd hfailure hchunk
            | metadata => exact absurd hfailure hmetadata
        simp only [writeMetadata, wp_bind, wp_step, wp_pure]
        refine ⟨hK _ (hinsert _ scan.checkpoint.metadata).1, trivial, trivial, trivial,
          (hinsert _ scan.checkpoint.metadata).1, (fun h => by cases h),
          fun _ => ⟨fun _ => hnone, ?_⟩⟩
        exact ⟨_, (hinsert _ _).2, hflatten.symm⟩

theorem flushFailing_again_wp {failures : Nat → Option WriteFailure} {K : Disk B → Prop}
    (h : SavedPending scan disk)
    (hnodup : (identities scan.rows).Nodup)
    (hK : failures scan.calls ≠ some .chunk → ∀ disk, K disk) :
    wp (flushFailing failures scan)
      (fun _ disk' => Distinct disk' ↔ failures scan.calls = some .chunk)
      (fun _ _ => False) K disk := by
  have hdistinct := h.distinct hnodup
  obtain ⟨hpending, pieces, hchunked, hrows⟩ := h
  simp only [flushFailing, wp_bind, wp_pure, appendFailing]
  rw [if_neg hpending]
  by_cases hchunk : failures scan.calls = some .chunk
  · rw [if_pos hchunk]
    simp only [wp_pure]
    exact ⟨fun _ => hchunk, fun _ => hdistinct⟩
  · rw [if_neg hchunk]
    have htwice : ∀ m, ¬ Distinct ⟨m, disk.chunks.insert scan.checkpoint.nextChunk scan.pending⟩ := by
      intro m hnot
      rw [(hchunked.insert scan.pending m scan.checkpoint.metadata).distinct_iff, identities,
        List.flatten_append, List.map_append, List.nodup_append] at hnot
      obtain ⟨row, hrow⟩ := List.exists_mem_of_ne_nil _ hpending
      have hmem : row.polygonId ∈ scan.pending.map Row.polygonId := List.mem_map_of_mem hrow
      refine hnot.2.2 row.polygonId ?_ row.polygonId ?_ rfl
      · rw [List.flatten_append, List.map_append, List.flatten_singleton]
        exact List.mem_append_right _ hmem
      · rw [List.flatten_singleton]
        exact hmem
    simp only [wp_bind, wp_step]
    refine ⟨hK hchunk _, ?_⟩
    split
    · simp only [wp_pure]
      exact ⟨fun hd => absurd hd (htwice _), fun hd => absurd hd hchunk⟩
    · simp only [writeMetadata, wp_bind, wp_step, wp_pure]
      exact ⟨hK hchunk _, fun hd => absurd hd (htwice _), fun hd => absurd hd hchunk⟩

end

section

variable {B Candidate : Type} {candidateToV2Row : Candidate → Option (String × B)}
variable {failures : Nat → Option WriteFailure}

/-- The number of pending rows that are due. -/
def batchSize (checkpointEvery : Int) : Nat := (max 1 checkpointEvery).toNat

theorem batchSize_pos (checkpointEvery : Int) : 0 < batchSize checkpointEvery := by
  unfold batchSize
  omega

/-- The state of a scan that began with `restored` rows. Each call of `append` was due to a full
batch. The last call may have raised. -/
structure Scanned (failures : Nat → Option WriteFailure) (batch restored : Nat)
    (scan : FailingScan B) (disk : Disk B) : Prop where
  nodup : (identities scan.rows).Nodup
  running : scan.raised = false → Saved scan disk ∧ (∀ j < scan.calls, failures j = none)
    ∧ scan.pending.length < batch
    ∧ scan.calls * batch + scan.pending.length + restored = scan.rows.length
  raised : scan.raised = true → ∃ k, scan.calls = k + 1 ∧ (∀ j < k, failures j = none)
    ∧ (k + 1) * batch + restored = scan.rows.length
    ∧ ((failures k = some .chunk ∧ Saved scan disk)
      ∨ (failures k = some .metadata ∧ SavedPending scan disk))

variable {scan : FailingScan B}

theorem prefix_scanRows (limit : Option Int) (extractedAt : String) (stream : List Candidate)
    (rows : List (Row B)) :
    rows <+: scanRows candidateToV2Row limit extractedAt stream rows := by
  induction stream generalizing rows with
  | nil => exact List.prefix_rfl
  | cons candidate stream ih => exact (List.prefix_append _ _).trans (ih _)

theorem acceptedRow_new {limit : Option Int} {extractedAt : String} {candidate : Candidate}
    {rows : List (Row B)} {row : Row B}
    (h : acceptedRow candidateToV2Row limit extractedAt candidate rows = some row) :
    row.polygonId ∉ identities rows := by
  unfold acceptedRow at h
  split at h
  · cases h
  · split at h
    · cases h
    · split at h
      · cases h
      · rename_i hnew
        cases h
        exact hnew

theorem first_failure_unique {k k' : Nat} {failure failure' : WriteFailure}
    (h : ∀ j < k, failures j = none) (hk : failures k = some failure)
    (h' : ∀ j < k', failures j = none) (hk' : failures k' = some failure') : k = k' := by
  rcases Nat.lt_trichotomy k k' with hlt | heq | hgt
  · rw [h' k hlt] at hk
    cases hk
  · exact heq
  · rw [h k' hgt] at hk'
    cases hk'

/-- When a scan has ended, either the pending rows are in no chunk and are written once, or they
are in the last one and are written twice unless the next chunk raises. -/
theorem Scanned.flushedTwice_iff {batch restored : Nat} {disk : Disk B}
    {all : List (Row B)} (h : Scanned failures batch restored scan disk)
    (hpre : scan.rows <+: all) (hall : scan.raised = false → scan.rows = all) :
    (Saved scan disk ∧ ¬ ∃ k, (∀ j < k, failures j = none) ∧ failures k = some .metadata
        ∧ failures (k + 1) ≠ some .chunk ∧ (k + 1) * batch + restored ≤ all.length)
      ∨ (scan.raised = true ∧ SavedPending scan disk
        ∧ ((∃ k, (∀ j < k, failures j = none) ∧ failures k = some .metadata
          ∧ failures (k + 1) ≠ some .chunk ∧ (k + 1) * batch + restored ≤ all.length)
        ↔ failures scan.calls ≠ some .chunk)) := by
  cases hraised : scan.raised with
  | false =>
    obtain ⟨hsaved, hnone, hpending, hlength⟩ := h.running hraised
    refine Or.inl ⟨hsaved, ?_⟩
    rintro ⟨k, -, hk, -, hle⟩
    -- every full batch has been written without an exception
    have hlt : k < scan.calls := by
      by_contra hge
      have hmul : (scan.calls + 1) * batch ≤ (k + 1) * batch :=
        Nat.mul_le_mul_right batch (by omega)
      rw [Nat.succ_mul] at hmul
      rw [← hall hraised] at hle
      omega
    rw [hnone k hlt] at hk
    cases hk
  | true =>
    obtain ⟨k, hcalls, hnone, hlength, ⟨hk, hsaved⟩ | ⟨hk, hsaved⟩⟩ := h.raised hraised
    · refine Or.inl ⟨hsaved, ?_⟩
      rintro ⟨k', hnone', hk', -, -⟩
      have heq := first_failure_unique hnone hk hnone' hk'
      rw [heq, hk'] at hk
      cases hk
    · refine Or.inr ⟨rfl, hsaved, ?_, ?_⟩
      · rintro ⟨k', hnone', hk', hnext, -⟩
        rw [hcalls, first_failure_unique hnone hk hnone' hk']
        exact hnext
      · intro hnext
        rw [hcalls] at hnext
        refine ⟨k, hnone, hk, hnext, ?_⟩
        rw [hlength]
        exact hpre.length_le

variable {K : Disk B → Prop} (hK : ∀ disk, Distinct disk → K disk)

include hK

theorem appendRowFailing_wp {limit : Option Int} {checkpointEvery : Int} {extractedAt : String}
    {candidate : Candidate} {restored : Nat} {disk : Disk B}
    (h : Scanned failures (batchSize checkpointEvery) restored scan disk)
    (hrunning : scan.raised = false) :
    wp (appendRowFailing candidateToV2Row failures limit checkpointEvery extractedAt candidate scan)
      (fun scan' disk' => Scanned failures (batchSize checkpointEvery) restored scan' disk'
        ∧ scan'.rows = scan.rows
          ++ (acceptedRow candidateToV2Row limit extractedAt candidate scan.rows).toList)
      (fun _ _ => False) K disk := by
  obtain ⟨⟨pieces, hchunked, hrows⟩, hnone, hpending, hlength⟩ := h.running hrunning
  unfold appendRowFailing
  cases hacc : acceptedRow candidateToV2Row limit extractedAt candidate scan.rows with
  | none =>
    simp only [wp_pure, Option.toList_none, List.append_nil]
    exact ⟨h, trivial⟩
  | some row =>
    have hnodup : (identities (scan.rows ++ [row])).Nodup := by
      rw [identities, List.map_append, List.map_singleton, List.nodup_append]
      refine ⟨h.nodup, List.nodup_singleton _, ?_⟩
      intro id hid id' hid' heq
      rw [heq, List.mem_singleton.mp hid'] at hid
      exact acceptedRow_new hacc hid
    have hsaved : Saved { scan with
        rows := scan.rows ++ [row], pending := scan.pending ++ [row] } disk :=
      ⟨pieces, hchunked, by rw [hrows, List.append_assoc]⟩
    have hcount : (scan.rows ++ [row]).length = scan.rows.length + 1 := by simp
    have hcount' : (scan.pending ++ [row]).length = scan.pending.length + 1 := by simp
    dsimp only
    split
    · rename_i hdue
      simp only [wp_pure, Option.toList_some]
      refine ⟨⟨hnodup, fun _ => ⟨hsaved, hnone, ?_, ?_⟩, ?_⟩, trivial⟩
      · show (scan.pending ++ [row]).length < batchSize checkpointEvery
        unfold batchSize
        omega
      · show scan.calls * _ + (scan.pending ++ [row]).length + restored
          = (scan.rows ++ [row]).length
        omega
      · intro hraised
        rw [show scan.raised = true from hraised] at hrunning
        cases hrunning
    · -- the batch is full
      rename_i hdue
      have hfull : scan.pending.length + 1 = batchSize checkpointEvery := by
        unfold batchSize at hpending ⊢
        omega
      have hsize : (scan.calls + 1) * batchSize checkpointEvery + restored
          = (scan.rows ++ [row]).length := by
        rw [Nat.succ_mul]
        omega
      simp only [wp_bind]
      refine wp_imp ?_ (flushFailing_wp hK hsaved hnodup)
      rintro scan' disk' ⟨hrows', hpending', hcalls', -, hraised, hrunning'⟩
      cases hr : scan'.raised with
      | true =>
        rw [if_pos rfl]
        simp only [wp_pure, Option.toList_some]
        refine ⟨⟨by rw [hrows']; exact hnodup, ?_, ?_⟩, hrows'⟩
        · intro hnot
          rw [hr] at hnot
          cases hnot
        · intro _
          refine ⟨scan.calls, hcalls', hnone, ?_, (hraised hr).2⟩
          rw [hrows']
          exact hsize
      | false =>
        rw [if_neg (by simp)]
        simp only [wp_pure, Option.toList_some]
        obtain ⟨hnext, pieces', hchunked', hflat⟩ := hrunning' hr
        have hnow : failures scan.calls = none := hnext (by simp)
        refine ⟨⟨by rw [hrows']; exact hnodup, fun _ => ⟨?_, ?_, ?_, ?_⟩, ?_⟩, hrows'⟩
        · exact ⟨pieces', hchunked', by rw [hrows', List.append_nil]; exact hflat⟩
        · intro j hj
          rw [hcalls'] at hj
          rcases Nat.lt_succ_iff_lt_or_eq.mp hj with hj | rfl
          · exact hnone j hj
          · exact hnow
        · exact batchSize_pos checkpointEvery
        · rw [hrows', hcalls']
          exact hsize
        · intro hnot
          cases hnot

theorem consumeFailing_wp {limit : Option Int} {checkpointEvery : Int} {extractedAt : String}
    {stream : List Candidate} {restored : Nat} {disk : Disk B}
    (h : Scanned failures (batchSize checkpointEvery) restored scan disk)
    (hrunning : scan.raised = false) :
    wp (consumeFailing candidateToV2Row failures limit checkpointEvery extractedAt stream scan)
      (fun scan' disk' => Scanned failures (batchSize checkpointEvery) restored scan' disk'
        ∧ scan'.rows <+: scanRows candidateToV2Row limit extractedAt stream scan.rows
        ∧ (scan'.raised = false →
          scan'.rows = scanRows candidateToV2Row limit extractedAt stream scan.rows))
      (fun _ _ => False) K disk := by
  induction stream generalizing scan disk with
  | nil =>
    simp only [consumeFailing, wp_pure]
    exact ⟨h, List.prefix_rfl, fun _ => rfl⟩
  | cons candidate stream ih =>
    simp only [consumeFailing, wp_bind]
    refine wp_imp ?_ (appendRowFailing_wp hK h hrunning)
    rintro scan₁ disk₁ ⟨hscanned, hrows⟩
    rw [scanRows, ← hrows]
    cases hraised : scan₁.raised with
    | true =>
      rw [if_pos rfl]
      simp only [wp_pure]
      refine ⟨hscanned, prefix_scanRows limit extractedAt stream scan₁.rows, ?_⟩
      intro hnot
      rw [hraised] at hnot
      cases hnot
    | false =>
      rw [if_neg (by simp)]
      exact ih hscanned hraised

end

/-! ## One run -/

section

variable {B Candidate : Type} (glob : GlobOrder) (candidateToV2Row : Candidate → Option (String × B))
variable (failures : Nat → Option WriteFailure) (limit : Option Int) (checkpointEvery : Int)
variable (extractedAt : String) (failsAfter : Option Nat) (candidates : List Candidate)

/-- The first write that raises is the metadata of a full batch, and the chunk that the handler
writes next is not in the way. As many batches are full as the polygons that are new to the
checkpoint fill, up to where the reader raises. -/
def FlushedTwice (disk : Disk B) : Prop :=
  ∃ checkpoint rows disk', Prog.run (openCheckpoint glob limit) disk = (.ok (checkpoint, rows), disk')
    ∧ checkpoint.metadata.complete = false
    ∧ ∃ k, (∀ j < k, failures j = none) ∧ failures k = some .metadata
      ∧ failures (k + 1) ≠ some .chunk
      ∧ (k + 1) * batchSize checkpointEvery + rows.length
        ≤ (scanRows candidateToV2Row limit extractedAt (delivered failsAfter candidates) rows).length

variable {glob limit}

theorem flushedTwice_iff {disk disk' : Disk B} {checkpoint : Checkpoint} {rows : List (Row B)}
    (hrun : Prog.run (openCheckpoint glob limit) disk = (.ok (checkpoint, rows), disk')) :
    FlushedTwice glob candidateToV2Row failures limit checkpointEvery extractedAt failsAfter
        candidates disk
      ↔ checkpoint.metadata.complete = false
        ∧ ∃ k, (∀ j < k, failures j = none) ∧ failures k = some .metadata
          ∧ failures (k + 1) ≠ some .chunk
          ∧ (k + 1) * batchSize checkpointEvery + rows.length
            ≤ (scanRows candidateToV2Row limit extractedAt (delivered failsAfter candidates)
              rows).length := by
  constructor
  · rintro ⟨checkpoint', rows', disk'', hrun', h⟩
    cases hrun.symm.trans hrun'
    exact h
  · intro h
    exact ⟨checkpoint, rows, disk', hrun, h⟩

variable (glob limit)

/-- **One run** from a directory with distinct polygons. -/
theorem extractFailing_wp {disk : Disk B} (h : Distinct disk) :
    wp (extractFailing glob candidateToV2Row failures limit checkpointEvery extractedAt
        failsAfter candidates)
      (fun result disk' =>
        (Distinct disk' ↔ ¬ FlushedTwice glob candidateToV2Row failures limit checkpointEvery
          extractedAt failsAfter candidates disk)
        ∧ ∀ rows, result = some rows → (identities rows).Nodup)
      (fun _ _ => False)
      (fun disk' => ¬ FlushedTwice glob candidateToV2Row failures limit checkpointEvery extractedAt
        failsAfter candidates disk → Distinct disk') disk := by
  have hopen : wp (openCheckpoint glob limit) _ (fun _ _ => False) Distinct disk :=
    openCheckpoint_wp (fun _ i hd => hd.erase i) (fun _ m hd => hd.setMetadata m) limit h
  simp only [extractFailing, wp_bind]
  refine wp_mono ?_ (fun _ _ h => h.1) (fun _ h _ => h.1) (wp_and hopen (wp_self _ _))
  rintro ⟨checkpoint, rows⟩ disk₁ ⟨⟨hdistinct, hloaded⟩, hrun⟩
  have htwice := flushedTwice_iff candidateToV2Row failures checkpointEvery extractedAt failsAfter
    candidates hrun
  have hnodup := nodup_of_opened hdistinct hloaded
  dsimp only at hloaded hnodup ⊢
  by_cases hc : checkpoint.metadata.complete = true
  · rw [if_pos hc]
    simp only [wp_pure]
    refine ⟨⟨fun _ => ?_, fun _ => hdistinct⟩, ?_⟩
    · rw [htwice, hc]
      simp
    · rintro rows' hrows'
      cases hrows'
      exact hnodup
  · rw [if_neg hc] at hloaded ⊢
    obtain ⟨pieces, hchunked, hrows⟩ := hloaded
    have hc' : checkpoint.metadata.complete = false := by simpa using hc
    have hstart : Scanned failures (batchSize checkpointEvery) rows.length
        ⟨⟨checkpoint, rows, []⟩, 0, false⟩ disk₁ := by
      refine ⟨hnodup, fun _ => ⟨⟨pieces, hchunked, by simpa using hrows⟩, ?_, ?_, ?_⟩, ?_⟩
      · intro j hj
        cases hj
      · exact batchSize_pos checkpointEvery
      · simp
      · intro hnot
        cases hnot
    simp only [wp_bind]
    refine wp_imp ?_ (consumeFailing_wp (fun _ hd _ => hd) hstart rfl)
    rintro scan disk₂ ⟨hscanned, hpre, hfinal⟩
    have hpre' : scan.rows
        <+: scanRows candidateToV2Row limit extractedAt (delivered failsAfter candidates) rows :=
      hpre
    have hcases := hscanned.flushedTwice_iff hpre' hfinal
    rw [← htwice.trans (and_iff_right hc')] at hcases
    rcases hcases with ⟨hsaved, hnot⟩ | ⟨hraised, hsaved, htwice'⟩
    · -- the pending rows are in no chunk
      refine wp_imp ?_ (flushFailing_wp (fun _ hd _ => hd) hsaved hscanned.nodup)
      rintro flushed disk₃ ⟨hrows', -, -, hdistinct', -⟩
      split
      · simp only [wp_pure]
        refine ⟨⟨fun _ => hnot, fun _ => hdistinct'⟩, ?_⟩
        intro rows' hrows'
        cases hrows'
      · simp only [markComplete, writeMetadata, wp_bind, wp_get, wp_step, wp_pure]
        refine ⟨fun _ => hdistinct', ⟨fun _ => hnot, fun _ => hdistinct'.setMetadata _⟩, ?_⟩
        rintro rows' hrows''
        cases hrows''
        rw [hrows']
        exact hscanned.nodup
    · refine wp_imp ?_ (flushFailing_again_wp hsaved hscanned.nodup (fun hchunk disk' hnot => ?_))
      · rintro flushed disk₃ hdistinct'
        rw [if_pos (Or.inl hraised)]
        simp only [wp_pure]
        refine ⟨?_, ?_⟩
        · rw [hdistinct', htwice', not_not]
        · intro rows' hrows'
          cases hrows'
      · exact absurd (htwice'.mpr hchunk) hnot

end

/-! ## Any number of runs -/

section

variable {B Candidate : Type} (glob : GlobOrder) (candidateToV2Row : Candidate → Option (String × B))

/-- The directories that runs leave which do not flush twice: runs with any parameters, killed in
front of any file operation, ended by an exception, or finished. -/
inductive Undoubled : Disk B → Prop where
  | empty : Undoubled (Disk.empty B)
  | run {disk : Disk B} (failures : Nat → Option WriteFailure) (limit : Option Int)
      (checkpointEvery : Int) (extractedAt : String) (failsAfter : Option Nat)
      (candidates : List Candidate) (kill : Nat) (h : Undoubled disk)
      (honce : ¬ FlushedTwice glob candidateToV2Row failures limit checkpointEvery extractedAt
        failsAfter candidates disk) :
      Undoubled (Prog.exec (extractFailing glob candidateToV2Row failures limit checkpointEvery
        extractedAt failsAfter candidates) kill disk).state

variable {glob candidateToV2Row}

theorem Undoubled.distinct {disk : Disk B} (h : Undoubled glob candidateToV2Row disk) :
    Distinct disk := by
  induction h with
  | empty => exact List.nodup_nil
  | run failures limit checkpointEvery extractedAt failsAfter candidates kill _ honce ih =>
    have hwp := wp_exec (extractFailing_wp glob candidateToV2Row failures limit
      checkpointEvery extractedAt failsAfter candidates ih) kill
    revert hwp
    cases Prog.exec (extractFailing glob candidateToV2Row failures limit checkpointEvery
      extractedAt failsAfter candidates) kill _ with
    | done result disk' => exact fun hdone => hdone.1.mpr honce
    | raised e disk' => exact fun hraised => hraised.elim
    | killed disk' => exact fun hkilled => hkilled honce

/-- **When the chunks hold distinct polygons.** After any number of runs, a run in which writes and
the reader raise leaves distinct polygons if and only if it does not flush twice. If it does not, a
later run returns no polygon twice. -/
theorem distinct_iff_not_flushedTwice {disk : Disk B} (h : Undoubled glob candidateToV2Row disk)
    (failures : Nat → Option WriteFailure) (limit : Option Int) (checkpointEvery : Int)
    (extractedAt : String) (failsAfter : Option Nat) (candidates : List Candidate) :
    (Distinct (Prog.run (extractFailing glob candidateToV2Row failures limit checkpointEvery
        extractedAt failsAfter candidates) disk).2
      ↔ ¬ FlushedTwice glob candidateToV2Row failures limit checkpointEvery extractedAt failsAfter
        candidates disk)
    ∧ (¬ FlushedTwice glob candidateToV2Row failures limit checkpointEvery extractedAt failsAfter
        candidates disk →
      ∀ failures' limit' checkpointEvery' extractedAt' failsAfter' candidates' rows disk',
        Prog.run (extractFailing glob candidateToV2Row failures' limit' checkpointEvery' extractedAt'
            failsAfter' candidates')
          (Prog.run (extractFailing glob candidateToV2Row failures limit checkpointEvery extractedAt
            failsAfter candidates) disk).2 = (.ok (some rows), disk') →
        (identities rows).Nodup) := by
  obtain ⟨result, disk₁, hrun, hiff, -⟩ := wp_returns (extractFailing_wp glob candidateToV2Row
    failures limit checkpointEvery extractedAt failsAfter candidates h.distinct)
  rw [hrun]
  refine ⟨hiff, ?_⟩
  intro honce failures' limit' checkpointEvery' extractedAt' failsAfter' candidates' rows disk' hrun'
  obtain ⟨result', disk'', hrun'', -, hnodup⟩ := wp_returns (extractFailing_wp glob
    candidateToV2Row failures' limit' checkpointEvery' extractedAt' failsAfter' candidates'
    (hiff.mpr honce))
  cases hrun'.symm.trans hrun''
  exact hnodup rows rfl

end

namespace FailureExample

/-- The write of the given kind raises in the first call of `append`. -/
def firstCall (failure : WriteFailure) (call : Nat) : Option WriteFailure :=
  if call = 0 then some failure else none

/-- A run with the limit 2 over the polygons `a` and `b`, each of which is a batch. -/
def failedRun (failure : WriteFailure) : Option (List (Row Unit)) × Disk Unit :=
  let run := Prog.run (extractFailing Example.glob Example.row (firstCall failure) (some 2) 1
    "monday" none Example.candidates) (Disk.empty Unit)
  (run.1.toOption.join, run.2)

def resumedRows (failure : WriteFailure) : Option (List String) :=
  (Prog.run (extractFailing Example.glob Example.row (fun _ => none) (some 2) 1 "tuesday" none
    Example.candidates) (failedRun failure).2).1.toOption.join.map identities

/-- The chunk cannot be written, and is written by the handler. -/
theorem chunk_written_once : (failedRun .chunk).1 = none ∧ Distinct (failedRun .chunk).2
      ∧ resumedRows .chunk = some ["a", "b"] := by
  refine ⟨by decide, ?_, by decide⟩
  have honce : ¬ FlushedTwice Example.glob Example.row (firstCall .chunk) (some 2) 1 "monday" none
      Example.candidates (Disk.empty Unit) := by
    rintro ⟨-, -, -, -, -, k, -, hk, -⟩
    unfold firstCall at hk
    split at hk <;> cases hk
  have hempty : Undoubled Example.glob Example.row (Disk.empty Unit) := .empty
  exact (distinct_iff_not_flushedTwice hempty (firstCall .chunk) (some 2) 1 "monday" none
    Example.candidates).1.mpr honce

/-- **The metadata cannot be written.** The handler writes the chunk again, and the polygon `b` is
never extracted: its place is taken. -/
theorem chunk_written_twice : (failedRun .metadata).1 = none ∧ ¬ Distinct (failedRun .metadata).2
      ∧ resumedRows .metadata = some ["a", "a"] := by
  decide

end FailureExample

end OsmPolygonWikidata.Extraction
