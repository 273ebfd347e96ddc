import OsmPolygonWikidata.Extraction.Extractor

/-! # Restarted extractions

Which candidates a scan accepts depends on the identities and on the number of the rows it has,
not on their time stamps. The rows on disk are always a prefix of what a scan without a checkpoint
accepts, and a scan of the whole stream that starts with such a prefix ends with the same rows
(`scanContents_resume`).
-/

namespace OsmPolygonWikidata.Extraction

open Durable
open Prog (wp wp_bind wp_exec wp_get wp_imp wp_mono wp_pure wp_raise wp_returns wp_safe wp_step)

/-! ## Scans without time stamps -/

section

variable {B Candidate : Type} (candidateToV2Row : Candidate → Option (String × B))

/-- `acceptedRow` without the time stamp. -/
def acceptedContent (limit : Option Int) (candidate : Candidate) (contents : List (String × B)) :
    Option (String × B) :=
  if limitReached limit contents.length then none
  else match candidateToV2Row candidate with
  | none => none
  | some (polygonId, body) =>
    if polygonId ∈ contents.map Prod.fst then none else some (polygonId, body)

def scanContents (limit : Option Int) :
    List Candidate → List (String × B) → List (String × B)
  | [], contents => contents
  | candidate :: candidates, contents =>
    scanContents limit candidates
      (contents ++ (acceptedContent candidateToV2Row limit candidate contents).toList)

/-- What a scan of the whole stream accepts. -/
def allContents (limit : Option Int) (candidates : List Candidate) : List (String × B) :=
  scanContents candidateToV2Row limit candidates []

variable {candidateToV2Row}

theorem map_acceptedRow (limit : Option Int) (extractedAt : String) (candidate : Candidate)
    (rows : List (Row B)) :
    (acceptedRow candidateToV2Row limit extractedAt candidate rows).map Row.content
      = acceptedContent candidateToV2Row limit candidate (rows.map Row.content) := by
  have hids : (rows.map Row.content).map Prod.fst = rows.map Row.polygonId := by
    rw [List.map_map]
    rfl
  unfold acceptedRow acceptedContent
  rw [List.length_map, hids]
  split
  · rfl
  · cases candidateToV2Row candidate with
    | none => rfl
    | some r =>
      dsimp only
      split <;> rfl

theorem map_scanRows (limit : Option Int) (extractedAt : String) (candidates : List Candidate)
    (rows : List (Row B)) :
    (scanRows candidateToV2Row limit extractedAt candidates rows).map Row.content
      = scanContents candidateToV2Row limit candidates (rows.map Row.content) := by
  induction candidates generalizing rows with
  | nil => rfl
  | cons candidate candidates ih =>
    rw [scanRows, scanContents, ih, List.map_append, ← map_acceptedRow limit extractedAt]
    cases acceptedRow candidateToV2Row limit extractedAt candidate rows <;> rfl

theorem prefix_scanContents (limit : Option Int) (candidates : List Candidate)
    (contents : List (String × B)) :
    contents <+: scanContents candidateToV2Row limit candidates contents := by
  induction candidates generalizing contents with
  | nil => exact List.prefix_rfl
  | cons candidate candidates ih => exact (List.prefix_append _ _).trans (ih _)

theorem scanContents_append (limit : Option Int) (candidates candidates' : List Candidate)
    (contents : List (String × B)) :
    scanContents candidateToV2Row limit (candidates ++ candidates') contents
      = scanContents candidateToV2Row limit candidates'
        (scanContents candidateToV2Row limit candidates contents) := by
  induction candidates generalizing contents with
  | nil => rfl
  | cons candidate candidates ih => exact ih _

theorem acceptedContent_ahead {limit : Option Int} {candidate : Candidate}
    {contents ahead : List (String × B)} (hlt : contents.length < ahead.length)
    (hpre : contents ++ (acceptedContent candidateToV2Row limit candidate contents).toList
      <+: ahead) :
    acceptedContent candidateToV2Row limit candidate ahead = none := by
  have hsub : contents <+: ahead := (List.prefix_append _ _).trans hpre
  unfold acceptedContent at hpre ⊢
  by_cases hl : limitReached limit ahead.length = true
  · rw [if_pos hl]
  · have hl' : ¬ limitReached limit contents.length = true := by
      unfold limitReached at hl ⊢
      cases limit with
      | none => exact hl
      | some n =>
        simp only [decide_eq_true_eq] at hl ⊢
        omega
    rw [if_neg hl]
    rw [if_neg hl'] at hpre
    cases hc : candidateToV2Row candidate with
    | none => rfl
    | some r =>
      obtain ⟨polygonId, body⟩ := r
      simp only [hc] at hpre ⊢
      by_cases hin : polygonId ∈ contents.map Prod.fst
      · rw [if_pos]
        exact (hsub.map Prod.fst).subset hin
      · rw [if_neg hin] at hpre
        rw [if_pos]
        exact (hpre.map Prod.fst).subset (by simp)

/-- **Resuming a scan**: rescanning the whole stream with a prefix of its rows gives its rows. -/
theorem scanContents_resume {limit : Option Int} {candidates : List Candidate}
    {contents restored all : List (String × B)}
    (hall : scanContents candidateToV2Row limit candidates contents = all)
    (hpre : restored <+: all) :
    scanContents candidateToV2Row limit candidates
      (if contents.length < restored.length then restored else contents) = all := by
  induction candidates generalizing contents with
  | nil =>
    obtain rfl : contents = all := hall
    rw [if_neg (Nat.not_lt.mpr hpre.length_le)]
    rfl
  | cons candidate candidates ih =>
    have hih := ih hall
    rw [scanContents] at hall ⊢
    set next := contents ++ (acceptedContent candidateToV2Row limit candidate contents).toList
      with hnext
    have hnextall : next <+: all := hall ▸ prefix_scanContents limit candidates next
    by_cases hlt : contents.length < restored.length
    · -- the restored rows are ahead, and stay so until the scan has caught up
      have hlen : next.length ≤ restored.length := by
        rw [hnext, List.length_append]
        have : (acceptedContent candidateToV2Row limit candidate contents).toList.length ≤ 1 := by
          cases acceptedContent candidateToV2Row limit candidate contents <;> simp
        omega
      have hnextpre : next <+: restored := List.prefix_of_prefix_length_le hnextall hpre hlen
      have hnone := acceptedContent_ahead hlt hnextpre
      rw [if_pos hlt, hnone]
      have hsame : (if next.length < restored.length then restored else next) = restored := by
        split
        · rfl
        · rename_i hge
          exact hnextpre.eq_of_length (by omega)
      rw [hsame] at hih
      simpa using hih
    · have hge : ¬ next.length < restored.length := by
        have : contents.length ≤ next.length := by
          rw [hnext, List.length_append]
          omega
        omega
      rw [if_neg hlt]
      rw [if_neg hge] at hih
      exact hih

theorem scanContents_restored {limit : Option Int} {candidates : List Candidate}
    {restored : List (String × B)}
    (hpre : restored <+: allContents candidateToV2Row limit candidates) :
    scanContents candidateToV2Row limit candidates restored
      = allContents candidateToV2Row limit candidates := by
  have h := scanContents_resume rfl hpre
  cases restored with
  | nil => rfl
  | cons r restored =>
    rw [if_pos (by simp)] at h
    exact h

end

/-! ## What is on disk -/

section

variable {B Candidate : Type} (candidateToV2Row : Candidate → Option (String × B))
variable (candidates : List Candidate) (glob : GlobOrder)

/-- The chunks on disk are pieces of a prefix of the rows that belong to the metadata, and all of
these rows if the metadata says so. Pieces can be missing while they are being removed. -/
structure Stored (m : Metadata) (chunks : AList (fun _ : Nat => List (Row B)))
    (pieces : List (List (String × B))) : Prop where
  pre : pieces.flatten <+: allContents candidateToV2Row m.limit candidates
  chunk : ∀ i rows, chunks.lookup i = some rows → pieces[i]? = some (rows.map Row.content)
  complete : m.complete = true → m.chunkCount = pieces.length
    ∧ pieces.flatten = allContents candidateToV2Row m.limit candidates

/-- The invariant of the checkpoint directory. Without metadata the chunks are not used. -/
def DiskOk (disk : Disk B) : Prop :=
  ∀ m, disk.metadata = some m → ∃ pieces, Stored candidateToV2Row candidates m disk.chunks pieces

/-- The directory during a scan: all pieces are there, and the metadata counts them. -/
structure Held (limit : Option Int) (disk : Disk B) (checkpoint : Checkpoint)
    (pieces : List (List (Row B))) : Prop where
  metadata : disk.metadata = some checkpoint.metadata
  limit : checkpoint.metadata.limit = limit
  running : checkpoint.metadata.complete = false
  rowCount : checkpoint.metadata.rowCount = pieces.flatten.length
  nextChunk : checkpoint.nextChunk = pieces.length
  chunk : ∀ i, disk.chunks.lookup i = pieces[i]?

/-- The chunks of the directory are numbered without a gap, and the next number is known. -/
structure Chunked (disk : Disk B) (checkpoint : Checkpoint) (pieces : List (List (Row B))) :
    Prop where
  nextChunk : checkpoint.nextChunk = pieces.length
  chunk : ∀ i, disk.chunks.lookup i = pieces[i]?

/-- A finished checkpoint whose counts match its files. -/
def CountsMatch (disk : Disk B) : Prop :=
  ∃ m, disk.metadata = some m ∧ m.complete = true ∧ m.chunkCount = (sortedChunks disk).length
    ∧ m.rowCount = (readRows disk (sortedChunks disk)).length

variable {candidateToV2Row candidates glob}

variable {chunks : AList (fun _ : Nat => List (Row B))}

theorem Stored.erase {m : Metadata}
    {pieces : List (List (String × B))} (h : Stored candidateToV2Row candidates m chunks pieces)
    (i : Nat) : Stored candidateToV2Row candidates m (chunks.erase i) pieces := by
  refine ⟨h.pre, ?_, h.complete⟩
  intro j rows hj
  by_cases hij : j = i
  · subst hij
    rw [AList.lookup_erase] at hj
    cases hj
  · rw [AList.lookup_erase_ne hij] at hj
    exact h.chunk j rows hj

theorem diskOk_fresh (limit : Option Int) (hempty : ∀ i, chunks.lookup i = none) :
    DiskOk candidateToV2Row candidates ⟨some (freshMetadata limit), chunks⟩ := by
  rintro m hm
  cases hm
  refine ⟨[], List.nil_prefix, ?_, fun h => by cases h⟩
  intro i rows hi
  rw [hempty i] at hi
  cases hi

theorem held_fresh (limit : Option Int) (hempty : ∀ i, chunks.lookup i = none) :
    Held limit ⟨some (freshMetadata limit), chunks⟩ ⟨freshMetadata limit, 0⟩ [] :=
  ⟨rfl, rfl, rfl, rfl, rfl, fun i => by rw [hempty i]; rfl⟩

variable {disk : Disk B} {pieces : List (List (Row B))} {checkpoint : Checkpoint} {limit : Option Int}

theorem Held.diskOk (h : Held limit disk checkpoint pieces)
    (hpre : pieces.flatten.map Row.content <+: allContents candidateToV2Row limit candidates) :
    DiskOk candidateToV2Row candidates disk := by
  intro m hm
  obtain rfl : m = checkpoint.metadata := by
    rw [h.metadata] at hm
    exact (Option.some.inj hm).symm
  refine ⟨pieces.map (List.map Row.content), ?_, ?_, ?_⟩
  · rw [h.limit, ← List.map_flatten]
    exact hpre
  · intro i rows hi
    rw [h.chunk i] at hi
    rw [List.getElem?_map, hi]
    rfl
  · intro hc
    rw [h.running] at hc
    cases hc

/-! ## Removing files -/

theorem DiskOk.erase (h : DiskOk candidateToV2Row candidates disk) (i : Nat) :
    DiskOk candidateToV2Row candidates { disk with chunks := disk.chunks.erase i } := by
  intro m hm
  obtain ⟨pieces, hp⟩ := h m hm
  exact ⟨pieces, hp.erase i⟩

theorem foldl_erase (is : List Nat) (disk : Disk B) :
    is.foldl (fun disk i => { disk with chunks := disk.chunks.erase i }) disk
      = { disk with chunks := is.foldl (fun chunks i => chunks.erase i) disk.chunks } := by
  induction is generalizing disk with
  | nil => rfl
  | cons i is ih => exact ih _

theorem clearFiles_wp (h : DiskOk candidateToV2Row candidates disk) : wp (clearFiles glob)
      (fun _ disk' => disk'.metadata = disk.metadata ∧ ∀ i, disk'.chunks.lookup i = none)
      (fun _ _ => False) (DiskOk candidateToV2Row candidates) disk := by
  simp only [clearFiles, wp_bind, wp_get]
  refine wp_imp ?_ (removeAll_wp (fun i _ hdisk => hdisk.erase i) h)
  rintro _ disk' ⟨hdisk', -⟩
  rw [foldl_erase] at hdisk'
  subst hdisk'
  exact ⟨rfl, lookup_erase_listed glob disk.chunks⟩

variable (glob) in
theorem reset_wp (limit : Option Int) (h : DiskOk candidateToV2Row candidates disk) :
    wp (do clearFiles glob; writeMetadata (freshMetadata limit))
      (fun _ disk' => disk'.metadata = some (freshMetadata limit)
        ∧ ∀ i, disk'.chunks.lookup i = none)
      (fun _ _ => False) (DiskOk candidateToV2Row candidates) disk := by
  simp only [writeMetadata, wp_bind, wp_step]
  refine wp_imp ?_ (clearFiles_wp h)
  rintro _ disk' ⟨hm, hl⟩
  refine ⟨?_, trivial, hl⟩
  intro m hm'
  rw [hm] at hm'
  obtain ⟨pieces, hp⟩ := h m hm'
  refine ⟨pieces, hp.pre, ?_, hp.complete⟩
  intro i rows hi
  rw [hl i] at hi
  cases hi

/-! ## Opening the checkpoint -/

theorem newCheckpoint_wp (limit : Option Int) (h : DiskOk candidateToV2Row candidates disk) :
    wp (newCheckpoint glob limit)
      (fun checkpoint disk' => DiskOk candidateToV2Row candidates disk'
        ∧ disk'.metadata = some checkpoint.metadata ∧ checkpoint.metadata.limit = limit
        ∧ checkpoint.nextChunk = (disk'.chunks.keys.map (· + 1)).foldl max 0)
      (fun _ _ => False) (DiskOk candidateToV2Row candidates) disk := by
  unfold newCheckpoint prepare
  simp only [wp_bind, wp_get, wp_pure]
  by_cases hm : disk.metadata.map Metadata.limit = some limit
  · rw [if_pos hm]
    obtain ⟨m, hdm, hlim⟩ := Option.map_eq_some_iff.mp hm
    simp only [wp_pure]
    rw [hdm]
    exact ⟨h, rfl, hlim, trivial⟩
  · rw [if_neg hm]
    have hreset := reset_wp glob limit h
    simp only [wp_bind] at hreset ⊢
    simp only [writeMetadata, wp_step, wp_pure] at hreset ⊢
    refine wp_imp ?_ hreset
    rintro _ disk' ⟨hk, -, hl⟩
    exact ⟨hk, diskOk_fresh limit hl, trivial, rfl, trivial⟩

/-! ## Loading the rows -/

theorem foldl_max_le_iff {is : List Nat} {a k : Nat} :
    is.foldl max a ≤ k ↔ a ≤ k ∧ ∀ i ∈ is, i ≤ k := by
  induction is generalizing a with
  | nil => simp
  | cons i is ih =>
    rw [List.foldl_cons, ih, List.forall_mem_cons, max_le_iff, and_assoc]

theorem foldl_max_succ {is : List Nat} {n : Nat} (hmem : ∀ i, i ∈ is ↔ i < n) :
    (is.map (· + 1)).foldl max 0 = n := by
  apply le_antisymm
  · rw [foldl_max_le_iff]
    refine ⟨Nat.zero_le n, ?_⟩
    intro j hj
    obtain ⟨i, hi, rfl⟩ := List.mem_map.mp hj
    have := (hmem i).mp hi
    omega
  · have hall : 0 ≤ _ ∧ ∀ i ∈ is.map (· + 1), i ≤ (is.map (· + 1)).foldl max 0 :=
      foldl_max_le_iff.mp le_rfl
    cases n with
    | zero => exact Nat.zero_le _
    | succ k => exact hall.2 (k + 1) (List.mem_map.mpr ⟨k, (hmem k).mpr (Nat.lt_succ_self k), rfl⟩)

theorem flatten_contents (disk : Disk B) (n : Nat) :
    (contents disk.chunks n).flatten = readRows disk (List.range n) :=
  (List.flatMap_def ..).symm

theorem Stored.prefix_contents {m : Metadata} {n : Nat} {pieces : List (List (String × B))}
    (h : Stored candidateToV2Row candidates m disk.chunks pieces)
    (hchunks : sortedChunks disk = List.range n) :
    (contents disk.chunks n).map (List.map Row.content) <+: pieces := by
  have hlen : (contents disk.chunks n).length = n := length_contents _ _
  have hget : ∀ i (hi : i < n),
      pieces[i]? = ((contents disk.chunks n).map (List.map Row.content))[i]? := by
    intro i hi
    have hsome : (contents disk.chunks n)[i]? = some ((contents disk.chunks n).get ⟨i, by omega⟩) :=
      List.getElem?_eq_getElem (by omega)
    rw [List.getElem?_map, hsome]
    exact h.chunk i _ ((lookup_eq_contents hchunks i).trans hsome)
  rw [List.prefix_iff_eq_take]
  apply List.ext_getElem?
  intro i
  rw [List.length_map, hlen, List.getElem?_take]
  split
  · rename_i hi
    exact (hget i hi).symm
  · rename_i hi
    exact List.getElem?_eq_none (by simpa using hi)

/-- **Loading a checkpoint**: either it is finished and holds all rows, or the scan starts with
the chunks found, which are a prefix of them. -/
theorem loadRows_wp (h : DiskOk candidateToV2Row candidates disk)
    (hmeta : disk.metadata = some checkpoint.metadata)
    (hlimit : checkpoint.metadata.limit = limit)
    (hnext : checkpoint.nextChunk = (disk.chunks.keys.map (· + 1)).foldl max 0) :
    wp (loadRows glob limit checkpoint)
      (fun loaded disk' =>
        if loaded.1.metadata.complete then
          loaded.2.map Row.content = allContents candidateToV2Row limit candidates
            ∧ CountsMatch disk' ∧ DiskOk candidateToV2Row candidates disk'
        else
          loaded.2.map Row.content <+: allContents candidateToV2Row limit candidates
            ∧ ∃ pieces, Held limit disk' loaded.1 pieces ∧ loaded.2 = pieces.flatten)
      (fun _ _ => False) (DiskOk candidateToV2Row candidates) disk := by
  obtain ⟨stored, hstored⟩ := h _ hmeta
  simp only [loadRows, wp_bind, wp_get]
  split
  · rename_i hvalid
    obtain ⟨hchunks, hcounts⟩ := hvalid
    set n := (sortedChunks disk).length with hn
    have hrows : readRows disk (sortedChunks disk) = (contents disk.chunks n).flatten := by
      rw [flatten_contents, ← hchunks]
    have hpre := hstored.prefix_contents hchunks
    by_cases hc : checkpoint.metadata.complete = true
    · -- a finished checkpoint has as many chunks as there are pieces
      simp only [hc, if_true, wp_pure]
      obtain ⟨hcount, hall⟩ := hstored.complete hc
      obtain ⟨hcc, hrc⟩ := hcounts hc
      refine ⟨?_, ⟨_, hmeta, hc, hcc, hrc⟩, h⟩
      have heq : (contents disk.chunks n).map (List.map Row.content) = stored := by
        apply hpre.eq_of_length
        rw [List.length_map, ← hcount, hcc]
        simp
      rw [hrows, List.map_flatten, heq, hall, hlimit]
    · have hrun : checkpoint.metadata.complete = false := by simpa using hc
      simp only [hrun, Bool.false_eq_true, if_false, writeMetadata, wp_bind, wp_step, wp_pure]
      refine ⟨h, ?_, contents disk.chunks n, ?_, hrows⟩
      · rw [hrows, List.map_flatten]
        obtain ⟨more, hmore⟩ := hpre
        refine List.IsPrefix.trans ⟨more.flatten, ?_⟩ (hlimit ▸ hstored.pre)
        rw [← List.flatten_append, hmore]
      · refine ⟨rfl, hlimit, rfl, congrArg List.length hrows, ?_, lookup_eq_contents hchunks⟩
        rw [hnext, foldl_max_succ (mem_keys_of_sortedIndexes hchunks)]
        simp
  · have hreset := reset_wp glob limit h
    simp only [wp_bind, writeMetadata, wp_step, wp_pure] at hreset ⊢
    refine wp_imp ?_ hreset
    rintro _ disk' ⟨hk, -, hl⟩
    refine ⟨hk, ?_⟩
    rw [if_neg (by simp [freshMetadata])]
    exact ⟨List.nil_prefix, [], held_fresh limit hl, rfl⟩

/-! ## Appending a chunk and finishing -/

theorem Held.diskOk_chunk {rows : List (Row B)} (h : Held limit disk checkpoint pieces)
    (hpre : (pieces.flatten ++ rows).map Row.content
      <+: allContents candidateToV2Row limit candidates) :
    DiskOk candidateToV2Row candidates
      { disk with chunks := disk.chunks.insert checkpoint.nextChunk rows } := by
  intro m hm
  obtain rfl : m = checkpoint.metadata := by
    rw [h.metadata] at hm
    exact (Option.some.inj hm).symm
  refine ⟨(pieces ++ [rows]).map (List.map Row.content), ?_, ?_, ?_⟩
  · rw [h.limit, ← List.map_flatten]
    simpa using hpre
  · intro i rows' hi
    rw [List.getElem?_map]
    by_cases hin : i = pieces.length
    · subst hin
      rw [h.nextChunk, AList.lookup_insert] at hi
      cases hi
      rw [List.getElem?_concat_length]
      rfl
    · rw [AList.lookup_insert_ne (by rw [h.nextChunk]; exact hin), h.chunk i] at hi
      rw [List.getElem?_append_left (List.getElem?_eq_some_iff.mp hi).1, hi]
      rfl
  · intro hc
    rw [h.running] at hc
    cases hc

theorem Held.chunked (h : Held limit disk checkpoint pieces) : Chunked disk checkpoint pieces :=
  ⟨h.nextChunk, h.chunk⟩

theorem Chunked.insert
    (h : Chunked disk checkpoint pieces) (rows : List (Row B)) (m : Option Metadata)
    (m' : Metadata) :
    Chunked ⟨m, disk.chunks.insert checkpoint.nextChunk rows⟩ ⟨m', checkpoint.nextChunk + 1⟩
      (pieces ++ [rows]) := by
  refine ⟨by simp [h.nextChunk], ?_⟩
  intro i
  show (disk.chunks.insert checkpoint.nextChunk rows).lookup i = (pieces ++ [rows])[i]?
  by_cases hin : i = pieces.length
  · subst hin
    rw [h.nextChunk, AList.lookup_insert, List.getElem?_concat_length]
  · rw [AList.lookup_insert_ne (by rw [h.nextChunk]; exact hin), h.chunk i]
    rcases Nat.lt_or_ge i pieces.length with hlt | hge
    · rw [List.getElem?_append_left hlt]
    · rw [List.getElem?_eq_none hge, List.getElem?_eq_none (by simp; omega)]

theorem append_wp {rows : List (Row B)} (h : Held limit disk checkpoint pieces)
    (hpre : (pieces.flatten ++ rows).map Row.content
      <+: allContents candidateToV2Row limit candidates) :
    wp (append rows checkpoint)
      (fun checkpoint' disk' => ∃ pieces', Held limit disk' checkpoint' pieces'
        ∧ pieces'.flatten = pieces.flatten ++ rows)
      (fun _ _ => False) (DiskOk candidateToV2Row candidates) disk := by
  have hdisk : DiskOk candidateToV2Row candidates disk := by
    apply h.diskOk
    rw [List.map_append] at hpre
    exact (List.prefix_append _ _).trans hpre
  unfold append
  split
  · rename_i hrows
    simp only [wp_pure]
    exact ⟨pieces, h, by simp [hrows]⟩
  · simp only [writeMetadata, wp_bind, wp_step, wp_pure]
    refine ⟨hdisk, h.diskOk_chunk hpre, pieces ++ [rows], ?_, by simp⟩
    obtain ⟨hnext, hchunk⟩ := h.chunked.insert rows none checkpoint.metadata
    exact ⟨rfl, h.limit, rfl, by simp [h.rowCount], hnext, hchunk⟩

theorem Chunked.keys_perm (h : Chunked disk checkpoint pieces) :
    disk.chunks.keys.Perm (List.range pieces.length) := by
  apply (List.perm_ext_iff_of_nodup disk.chunks.nodupKeys List.nodup_range).mpr
  intro i
  rw [List.mem_range]
  show i ∈ disk.chunks ↔ i < pieces.length
  rw [← AList.lookup_isSome, h.chunk i, Option.isSome_iff_ne_none, ne_eq, List.getElem?_eq_none_iff]
  omega

theorem Chunked.readRows (h : Chunked disk checkpoint pieces) :
    readRows disk (List.range pieces.length) = pieces.flatten := by
  unfold Extraction.readRows
  have hget : ∀ i, (disk.chunks.lookup i).getD [] = pieces[i]?.getD [] :=
    fun i => by rw [h.chunk i]
  simp only [hget, List.flatMap_def]
  congr 1
  apply List.ext_getElem?
  intro i
  rw [List.getElem?_map]
  rcases Nat.lt_or_ge i pieces.length with hlt | hge
  · rw [List.getElem?_range hlt, List.getElem?_eq_getElem hlt]
    simp [List.getElem?_eq_getElem hlt]
  · rw [List.getElem?_eq_none (by simpa using hge), List.getElem?_eq_none hge]
    rfl

theorem markComplete_wp (h : Held limit disk checkpoint pieces)
    (hall : pieces.flatten.map Row.content = allContents candidateToV2Row limit candidates) :
    wp (markComplete checkpoint)
      (fun _ disk' => CountsMatch disk' ∧ DiskOk candidateToV2Row candidates disk')
      (fun _ _ => False) (DiskOk candidateToV2Row candidates) disk := by
  have hcount : disk.chunks.keys.length = pieces.length := by
    rw [h.chunked.keys_perm.length_eq, List.length_range]
  simp only [markComplete, writeMetadata, wp_bind, wp_get, wp_step]
  refine ⟨h.diskOk (hall ▸ List.prefix_rfl), ?_, ?_⟩
  · refine ⟨_, rfl, rfl, (sortedIndexes_perm _ disk.chunks).length_eq.symm, ?_⟩
    show checkpoint.metadata.rowCount = (Extraction.readRows disk (sortedChunks disk)).length
    have hperm : (sortedChunks disk).Perm (List.range pieces.length) :=
      (sortedIndexes_perm _ disk.chunks).trans h.chunked.keys_perm
    rw [h.rowCount, ← h.chunked.readRows]
    exact (hperm.flatMap_right _).length_eq.symm
  · intro m hm
    cases hm
    refine ⟨pieces.map (List.map Row.content), ?_, ?_, ?_⟩
    · rw [← List.map_flatten, hall]
      show _ <+: allContents candidateToV2Row checkpoint.metadata.limit candidates
      rw [h.limit]
    · intro i rows hi
      rw [List.getElem?_map, ← h.chunk i]
      exact congrArg (Option.map (List.map Row.content)) hi
    · intro _
      refine ⟨by simpa using hcount, ?_⟩
      rw [← List.map_flatten, hall]
      show _ = allContents candidateToV2Row checkpoint.metadata.limit candidates
      rw [h.limit]

/-! ## The scan -/

/-- The state of a scan: what is not on disk yet is pending. -/
def Scanning (limit : Option Int) (scan : Scan B) (disk : Disk B) : Prop :=
  ∃ pieces, Held limit disk scan.checkpoint pieces ∧ scan.rows = pieces.flatten ++ scan.pending

theorem appendExtractionRow_wp {checkpointEvery : Int} {extractedAt : String}
    {candidate : Candidate} {scan : Scan B} (h : Scanning limit scan disk)
    (hpre : scanContents candidateToV2Row limit [candidate] (scan.rows.map Row.content)
      <+: allContents candidateToV2Row limit candidates) :
    wp (appendExtractionRow candidateToV2Row limit checkpointEvery extractedAt candidate scan)
      (fun scan' disk' => Scanning limit scan' disk' ∧ scan'.rows.map Row.content
          = scanContents candidateToV2Row limit [candidate] (scan.rows.map Row.content))
      (fun _ _ => False) (DiskOk candidateToV2Row candidates) disk := by
  obtain ⟨pieces, hheld, hrows⟩ := h
  have hnext : scanContents candidateToV2Row limit [candidate] (scan.rows.map Row.content)
      = (scan.rows ++ (acceptedRow candidateToV2Row limit extractedAt candidate
        scan.rows).toList).map Row.content :=
    (map_scanRows limit extractedAt [candidate] scan.rows).symm
  rw [hnext] at hpre ⊢
  unfold appendExtractionRow
  cases hacc : acceptedRow candidateToV2Row limit extractedAt candidate scan.rows with
  | none =>
    simp only [wp_pure, Option.toList_none, List.append_nil]
    exact ⟨⟨pieces, hheld, hrows⟩, trivial⟩
  | some row =>
    simp only [hacc, Option.toList_some] at hpre ⊢
    split
    · simp only [wp_pure]
      exact ⟨⟨pieces, hheld, by simp [hrows]⟩, trivial⟩
    · -- the pending rows and the new one are due
      have hpend : (pieces.flatten ++ (scan.pending ++ [row])).map Row.content
          <+: allContents candidateToV2Row limit candidates := by
        rw [← List.append_assoc, ← hrows]
        exact hpre
      simp only [wp_bind, wp_pure]
      refine wp_imp ?_ (append_wp hheld hpend)
      rintro checkpoint' disk' ⟨pieces', hheld', hflat⟩
      refine ⟨⟨pieces', hheld', ?_⟩, trivial⟩
      simp [hflat, hrows]

theorem consumeCandidates_wp {checkpointEvery : Int} {extractedAt : String}
    {stream : List Candidate} {scan : Scan B} (h : Scanning limit scan disk)
    (hpre : scanContents candidateToV2Row limit stream (scan.rows.map Row.content)
      <+: allContents candidateToV2Row limit candidates) :
    wp (consumeCandidates candidateToV2Row limit checkpointEvery extractedAt stream scan)
      (fun scan' disk' => Scanning limit scan' disk' ∧ scan'.rows.map Row.content
          = scanContents candidateToV2Row limit stream (scan.rows.map Row.content))
      (fun _ _ => False) (DiskOk candidateToV2Row candidates) disk := by
  induction stream generalizing scan disk with
  | nil =>
    simp only [consumeCandidates, wp_pure]
    exact ⟨h, rfl⟩
  | cons candidate stream ih =>
    have hcut : scanContents candidateToV2Row limit (candidate :: stream)
          (scan.rows.map Row.content)
        = scanContents candidateToV2Row limit stream
          (scanContents candidateToV2Row limit [candidate] (scan.rows.map Row.content)) :=
      scanContents_append limit [candidate] stream _
    rw [hcut] at hpre ⊢
    simp only [consumeCandidates, wp_bind]
    refine wp_imp ?_ (appendExtractionRow_wp h ((prefix_scanContents limit stream _).trans hpre))
    rintro scan' disk' ⟨hscan, hstep⟩
    rw [← hstep] at hpre ⊢
    exact ih hscan hpre

theorem flush_wp {scan : Scan B} (h : Scanning limit scan disk)
    (hpre : scan.rows.map Row.content <+: allContents candidateToV2Row limit candidates) :
    wp (append scan.pending scan.checkpoint)
      (fun checkpoint' disk' => ∃ pieces, Held limit disk' checkpoint' pieces
        ∧ pieces.flatten = scan.rows)
      (fun _ _ => False) (DiskOk candidateToV2Row candidates) disk := by
  obtain ⟨pieces, hheld, hrows⟩ := h
  rw [hrows] at hpre ⊢
  exact append_wp hheld hpre

/-! ## One run -/

variable (candidateToV2Row candidates glob) in
/-- **One run** from a directory that satisfies the invariant: every kill and every failure of the
reader leave such a directory, and a run that returns has all rows. -/
theorem extractV2Pbf_wp (limit : Option Int) (checkpointEvery : Int) (extractedAt : String)
    (failsAfter : Option Nat) (h : DiskOk candidateToV2Row candidates disk) :
    wp (extractV2Pbf glob candidateToV2Row limit checkpointEvery extractedAt failsAfter candidates)
      (fun rows disk' => rows.map Row.content = allContents candidateToV2Row limit candidates
        ∧ CountsMatch disk' ∧ DiskOk candidateToV2Row candidates disk')
      (fun _ disk' => failsAfter ≠ none ∧ DiskOk candidateToV2Row candidates disk')
      (DiskOk candidateToV2Row candidates) disk := by
  simp only [extractV2Pbf, wp_bind]
  refine wp_safe ?_ (newCheckpoint_wp limit h)
  rintro checkpoint disk₁ ⟨hdisk₁, hmeta, hlimit, hnext⟩
  refine wp_safe ?_ (loadRows_wp hdisk₁ hmeta hlimit hnext)
  rintro ⟨checkpoint₂, rows⟩ disk₂ hloaded
  dsimp only at hloaded ⊢
  split at hloaded
  · rename_i hc
    rw [if_pos hc]
    exact hloaded
  · rename_i hc
    rw [if_neg hc]
    obtain ⟨hpre, pieces, hheld, hrows⟩ := hloaded
    have hscan : Scanning limit ⟨checkpoint₂, rows, []⟩ disk₂ :=
      ⟨pieces, hheld, by simpa using hrows⟩
    have hfull := scanContents_restored hpre
    cases failsAfter with
    | none =>
      simp only [wp_bind, wp_pure]
      refine wp_safe ?_ (consumeCandidates_wp hscan (by rw [hfull]))
      rintro scan disk₃ ⟨hscan', hall⟩
      rw [hfull] at hall
      refine wp_safe ?_ (flush_wp hscan' (by rw [hall]))
      rintro checkpoint₄ disk₄ ⟨pieces', hheld', hflat⟩
      refine wp_safe ?_ (markComplete_wp hheld' (by rw [hflat, hall]))
      rintro _ disk₅ hdone
      exact ⟨hall, hdone⟩
    | some n =>
      have htake : scanContents candidateToV2Row limit (candidates.take n)
          (rows.map Row.content) <+: allContents candidateToV2Row limit candidates := by
        rw [← hfull]
        conv => rhs; rw [← List.take_append_drop n candidates]
        rw [scanContents_append]
        exact prefix_scanContents limit _ _
      simp only [wp_bind, wp_raise]
      refine wp_safe ?_ (consumeCandidates_wp hscan htake)
      rintro scan disk₃ ⟨hscan', hpart⟩
      rw [← hpart] at htake
      refine wp_safe ?_ (flush_wp hscan' htake)
      rintro checkpoint₄ disk₄ ⟨pieces', hheld', hflat⟩
      exact ⟨by simp, hheld'.diskOk (by rw [hflat]; exact htake)⟩

end

/-! ## Any number of runs -/

section

variable {B Candidate : Type} (glob : GlobOrder) (candidateToV2Row : Candidate → Option (String × B))
variable (candidates : List Candidate)

/-- The directories that runs over the same PBF leave behind: runs with any limit, any
`checkpoint_every` and any time stamp, killed in front of any file operation, ended by the reader,
or finished. -/
inductive Reachable : Disk B → Prop where
  | empty : Reachable (Disk.empty B)
  | run {disk : Disk B} (limit : Option Int) (checkpointEvery : Int) (extractedAt : String)
      (failsAfter : Option Nat) (kill : Nat) (h : Reachable disk) :
      Reachable (Prog.exec (extractV2Pbf glob candidateToV2Row limit checkpointEvery extractedAt
        failsAfter candidates) kill disk).state

variable {glob candidateToV2Row candidates}

theorem Reachable.diskOk {disk : Disk B} (h : Reachable glob candidateToV2Row candidates disk) :
    DiskOk candidateToV2Row candidates disk := by
  induction h with
  | empty =>
    intro m hm
    cases hm
  | run limit checkpointEvery extractedAt failsAfter kill _ ih =>
    have hwp := wp_exec (extractV2Pbf_wp candidateToV2Row candidates glob limit
      checkpointEvery extractedAt failsAfter ih) kill
    revert hwp
    cases Prog.exec (extractV2Pbf glob candidateToV2Row limit checkpointEvery extractedAt
      failsAfter candidates) kill _ with
    | done rows disk' => exact fun hdone => hdone.2.2
    | raised e disk' => exact fun hraised => hraised.2
    | killed disk' => exact fun hkilled => hkilled

variable (limit : Option Int) (checkpointEvery : Int) (extractedAt extractedAt' : String)

/-- **Restarted extractions**: after any number of runs that were killed, a run that is not
interrupted returns the rows of an extraction without a checkpoint, apart from the time stamps, and
leaves a checkpoint whose counts match its files. -/
theorem extractV2Pbf_restart {disk : Disk B} (h : Reachable glob candidateToV2Row candidates disk) :
    ∃ rows disk', Prog.run (extractV2Pbf glob candidateToV2Row limit checkpointEvery extractedAt
        none candidates) disk = (.ok rows, disk')
      ∧ rows.map Row.content
        = (extractPlain candidateToV2Row limit extractedAt' candidates).map Row.content
      ∧ CountsMatch disk' := by
  have hrun := extractV2Pbf_wp candidateToV2Row candidates glob limit checkpointEvery extractedAt
    none h.diskOk
  obtain ⟨rows, disk', heq, hrows, hcounts, -⟩ := wp_returns
    (wp_mono (fun _ _ h => h) (fun _ _ h => h.1 rfl) (fun _ h => h) hrun)
  refine ⟨rows, disk', heq, ?_, hcounts⟩
  calc rows.map Row.content
      = allContents candidateToV2Row limit candidates := hrows
    _ = (extractPlain candidateToV2Row limit extractedAt' candidates).map Row.content :=
        (map_scanRows limit extractedAt' candidates []).symm

/-- **At every moment** the chunks of a checkpoint with metadata are pieces of a prefix of the rows
for its limit, and of all of them once it says that it is complete. -/
theorem checkpoint_holds_prefix {disk : Disk B} (h : Reachable glob candidateToV2Row candidates disk)
    {m : Metadata} (hm : disk.metadata = some m) :
    ∃ pieces : List (List (String × B)),
      pieces.flatten <+: allContents candidateToV2Row m.limit candidates
      ∧ (∀ i rows, disk.chunks.lookup i = some rows → pieces[i]? = some (rows.map Row.content))
      ∧ (m.complete = true → m.chunkCount = pieces.length
        ∧ pieces.flatten = allContents candidateToV2Row m.limit candidates) := by
  obtain ⟨pieces, hstored⟩ := h.diskOk m hm
  exact ⟨pieces, hstored.pre, hstored.chunk, hstored.complete⟩

end

namespace Example

/-- Files are listed in the order of their creation. -/
def glob : GlobOrder := ⟨id, fun _ => List.Perm.refl _⟩

/-- Two polygons, the first of which occurs twice. -/
def candidates : List String := ["a", "b", "a"]

def row (candidate : String) : Option (String × Unit) := some (candidate, ())

/-- A run killed between the first chunk and its metadata. -/
def killed : Disk Unit :=
  (Prog.exec (extractV2Pbf glob row none 1 "monday" none candidates) 3 (Disk.empty Unit)).state

theorem killed_holds_prefix : ∃ pieces : List (List (String × Unit)),
    pieces.flatten <+: [("a", ()), ("b", ())] ∧ pieces[0]? = some [("a", ())] := by
  have hkilled : Reachable glob row candidates killed := .run none 1 "monday" none 3 .empty
  obtain ⟨pieces, hpre, hchunk, -⟩ := checkpoint_holds_prefix hkilled (m := _) rfl
  exact ⟨pieces, hpre, hchunk 0 [⟨"a", "monday", ()⟩] rfl⟩

theorem resumed_after_chunk : killed.chunks.lookup 0 = some [⟨"a", "monday", ()⟩]
      ∧ killed.metadata.map Metadata.rowCount = some 0
      ∧ ∃ rows disk', Prog.run (extractV2Pbf glob row none 1 "tuesday" none candidates) killed
          = (.ok rows, disk')
        ∧ rows.map Row.content = [("a", ()), ("b", ())] ∧ CountsMatch disk' :=
  ⟨by decide, by decide,
    extractV2Pbf_restart none 1 "tuesday" "tuesday" (.run none 1 "monday" none 3 .empty)⟩

end Example

end OsmPolygonWikidata.Extraction
