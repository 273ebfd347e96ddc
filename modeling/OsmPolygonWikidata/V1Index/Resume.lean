import OsmPolygonWikidata.V1Index.Sync

/-! # Resumed synchronisation

What the tables say about one source path: a path in `file_state` has all its rows, a path in
`scan_progress` has the rows of the groups scanned so far, a path in neither has none, and no
path is in both (`PathOk`). Every transaction keeps this for every path, so it holds whenever a
run is killed, and the next run can rely on it.
-/

namespace OsmPolygonWikidata.V1Index

open Durable
open Prog (wp wp_bind wp_exec wp_get wp_imp wp_mono wp_pure wp_raise wp_returns wp_run wp_safe
  wp_step)

/-! ## The rows of one path -/

def rowsOf (documents : List Document) (path : String) : List Document :=
  documents.filter (fun d => d.sourcePath = path)

variable {documents : List Document} {path : String}

theorem mem_rowsOf {d : Document} :
    d ∈ rowsOf documents path ↔ d ∈ documents ∧ d.sourcePath = path := by
  simp [rowsOf]

theorem rowsOf_insert_other {d : Document}
    (h : d.sourcePath ≠ path) : rowsOf (insertOrIgnore documents d) path = rowsOf documents path := by
  unfold insertOrIgnore
  split
  · rfl
  · simp [rowsOf, h]

theorem rowsOf_insert_same {d : Document} (h : d.sourcePath = path) :
    rowsOf (insertOrIgnore documents d) path = insertOrIgnore (rowsOf documents path) d := by
  have hany : (rowsOf documents path).any
      (fun e => e.documentId = d.documentId && e.sourcePath = d.sourcePath)
        = documents.any (fun e => e.documentId = d.documentId && e.sourcePath = d.sourcePath) := by
    subst h
    unfold rowsOf
    rw [List.any_filter]
    congr 1
    funext e
    by_cases he : e.sourcePath = d.sourcePath <;> simp [he]
  unfold insertOrIgnore
  rw [hany]
  split
  · rfl
  · simp [rowsOf, h]

theorem rowsOf_foldl_other {rows : List Document}
    (h : ∀ d ∈ rows, d.sourcePath ≠ path) (documents : List Document) :
    rowsOf (rows.foldl insertOrIgnore documents) path = rowsOf documents path := by
  induction rows generalizing documents with
  | nil => rfl
  | cons d rows ih =>
    rw [List.foldl_cons, ih (fun e he => h e (by simp [he])), rowsOf_insert_other (h d (by simp))]

theorem rowsOf_foldl_same {rows : List Document}
    (h : ∀ d ∈ rows, d.sourcePath = path) (documents : List Document) :
    rowsOf (rows.foldl insertOrIgnore documents) path
      = rows.foldl insertOrIgnore (rowsOf documents path) := by
  induction rows generalizing documents with
  | nil => rfl
  | cons d rows ih =>
    rw [List.foldl_cons, List.foldl_cons, ih (fun e he => h e (by simp [he])),
      rowsOf_insert_same (h d (by simp))]

theorem rowsOf_filter_ne_same (documents : List Document) (path : String) :
    rowsOf (documents.filter (fun d => d.sourcePath ≠ path)) path = [] := by
  simp [rowsOf, List.filter_filter]

theorem rowsOf_filter_ne_other {path path' : String} (h : path' ≠ path) :
    rowsOf (documents.filter (fun d => d.sourcePath ≠ path)) path' = rowsOf documents path' := by
  unfold rowsOf
  rw [List.filter_filter]
  refine List.filter_congr fun d _ => ?_
  by_cases hd : d.sourcePath = path'
  · simp [hd, h]
  · simp [hd]

theorem perm_of_rowsOf {documents documents' : List Document}
    (h : ∀ path, rowsOf documents path = rowsOf documents' path) : documents.Perm documents' := by
  rw [List.perm_iff_count]
  intro d
  have hcount : ∀ l : List Document, l.count d = (rowsOf l d.sourcePath).count d := by
    intro l
    rw [rowsOf, List.count_filter (by simp)]
  rw [hcount documents, hcount documents', h]

section

variable {P : Type} (casefold : String → String) (contents : String → Fingerprint → Contents P)

/-! ## What the tables say about a path -/

/-- The rows of one row group, as they are inserted. -/
def groupDocuments (shard : Shard) (group : Nat) : List Document :=
  match scanIndexRowGroup shard.fingerprint.legacy (contents shard.path shard.fingerprint) group with
  | .ok indexed => indexed.map (document casefold shard)
  | .error _ => []

/-- The rows of the first `n` row groups of a shard. -/
def scanned (shard : Shard) : Nat → List Document
  | 0 => []
  | n + 1 => (groupDocuments casefold contents shard n).foldl insertOrIgnore (scanned shard n)

/-- The first `n` row groups can be read. -/
def Readable (shard : Shard) (n : Nat) : Prop :=
  ∀ g < n, ∃ indexed, scanIndexRowGroup shard.fingerprint.legacy
    (contents shard.path shard.fingerprint) g = .ok indexed

/-- The whole shard can be read. -/
def Sound (shard : Shard) : Prop :=
  (contents shard.path shard.fingerprint).valid = true
    ∧ Readable contents shard (totalRowGroups contents shard)

/-- The rows of a completely indexed shard. -/
def allRows (shard : Shard) : List Document :=
  scanned casefold contents shard (totalRowGroups contents shard)

/-- A shard whose first `n` row groups are in the table, under a matching checkpoint. -/
structure Working (shard : Shard) (n : Nat) (db : Database) : Prop where
  fileState : db.fileState.lookup shard.path = none
  progress : db.scanProgress.lookup shard.path
    = some ⟨shard.fingerprint, totalRowGroups contents shard, n⟩
  valid : (contents shard.path shard.fingerprint).valid = true
  le : n ≤ totalRowGroups contents shard
  readable : Readable contents shard n
  rows : rowsOf db.documents shard.path = scanned casefold contents shard n

/-- A completely indexed shard. -/
structure Indexed (shard : Shard) (db : Database) : Prop where
  fileState : db.fileState.lookup shard.path = some shard.fingerprint
  progress : db.scanProgress.lookup shard.path = none
  sound : Sound contents shard
  rows : rowsOf db.documents shard.path = allRows casefold contents shard

/-- A path the index knows nothing about. -/
structure Unknown (path : String) (db : Database) : Prop where
  fileState : db.fileState.lookup path = none
  progress : db.scanProgress.lookup path = none
  rows : rowsOf db.documents path = []

/-- The three things the tables can say about a path. -/
def PathOk (path : String) (db : Database) : Prop :=
  (∃ fingerprint, Indexed casefold contents ⟨path, fingerprint⟩ db)
    ∨ (∃ fingerprint n, Working casefold contents ⟨path, fingerprint⟩ n db) ∨ Unknown path db

/-- The invariant of the database. -/
structure Consistent (db : Database) : Prop where
  paths : ∀ path, PathOk casefold contents path db
  count : ∀ n, db.rowCount = some n → n = countDistinctDocuments db

/-- Two databases say the same about a path. -/
structure AgreeAt (path : String) (db db' : Database) : Prop where
  fileState : db'.fileState.lookup path = db.fileState.lookup path
  progress : db'.scanProgress.lookup path = db.scanProgress.lookup path
  rows : rowsOf db'.documents path = rowsOf db.documents path

variable {casefold contents}

theorem AgreeAt.refl (path : String) (db : Database) : AgreeAt path db db := ⟨rfl, rfl, rfl⟩

theorem AgreeAt.trans {path : String} {db db' db'' : Database} (h : AgreeAt path db db')
    (h' : AgreeAt path db' db'') : AgreeAt path db db'' :=
  ⟨h'.fileState.trans h.fileState, h'.progress.trans h.progress, h'.rows.trans h.rows⟩

variable {db db' : Database}

theorem PathOk.agree {path : String} (h : PathOk casefold contents path db)
    (ha : AgreeAt path db db') : PathOk casefold contents path db' := by
  rcases h with ⟨fp, h⟩ | ⟨fp, n, h⟩ | h
  · exact Or.inl ⟨fp, ha.fileState.trans h.fileState, ha.progress.trans h.progress, h.sound,
      ha.rows.trans h.rows⟩
  · exact Or.inr (Or.inl ⟨fp, n, ha.fileState.trans h.fileState, ha.progress.trans h.progress,
      h.valid, h.le, h.readable, ha.rows.trans h.rows⟩)
  · exact Or.inr (Or.inr ⟨ha.fileState.trans h.fileState, ha.progress.trans h.progress,
      ha.rows.trans h.rows⟩)

theorem Consistent.change {path : String}
    (h : Consistent casefold contents db) (hp : PathOk casefold contents path db')
    (hother : ∀ q, q ≠ path → AgreeAt q db db') (hcount : db'.rowCount = none) :
    Consistent casefold contents db' := by
  refine ⟨?_, ?_⟩
  · intro q
    by_cases hq : q = path
    · subst hq
      exact hp
    · exact (h.paths q).agree (hother q hq)
  · intro n hn
    rw [hcount] at hn
    cases hn

theorem consistent_empty : Consistent casefold contents Database.empty := by
  refine ⟨fun path => Or.inr (Or.inr ⟨rfl, rfl, rfl⟩), ?_⟩
  intro n hn
  cases hn

/-! ## The transactions -/

variable (casefold contents) in
theorem groupDocuments_path (shard : Shard) (group : Nat) :
    ∀ d ∈ groupDocuments casefold contents shard group, d.sourcePath = shard.path := by
  intro d hd
  unfold groupDocuments at hd
  split at hd
  · obtain ⟨row, -, rfl⟩ := List.mem_map.mp hd
    rfl
  · cases hd

variable {db : Database} {shard : Shard}

theorem Working.commit {n : Nat} {indexed : List IndexRow}
    (h : Working casefold contents shard n db) (hn : n < totalRowGroups contents shard)
    (hread : scanIndexRowGroup shard.fingerprint.legacy (contents shard.path shard.fingerprint) n
      = .ok indexed) :
    Working casefold contents shard (n + 1)
        (commitIndexedRowGroup casefold shard (totalRowGroups contents shard) n indexed db)
      ∧ ∀ q, q ≠ shard.path → AgreeAt q db
        (commitIndexedRowGroup casefold shard (totalRowGroups contents shard) n indexed db) := by
  have hgroup : groupDocuments casefold contents shard n = indexed.map (document casefold shard) := by
    simp only [groupDocuments, hread]
  have hpath := groupDocuments_path casefold contents shard n
  rw [hgroup] at hpath
  constructor
  · refine ⟨h.fileState, AList.lookup_insert _, h.valid, hn, ?_, ?_⟩
    · intro g hg
      rcases Nat.lt_succ_iff_lt_or_eq.mp hg with hg | rfl
      · exact h.readable g hg
      · exact ⟨indexed, hread⟩
    · rw [commitIndexedRowGroup, rowsOf_foldl_same hpath, h.rows, scanned, hgroup]
  · intro q hq
    refine ⟨rfl, AList.lookup_insert_ne hq, rowsOf_foldl_other ?_ _⟩
    intro d hd
    rw [hpath d hd]
    exact hq.symm

variable (casefold) in
theorem restartShard_spec (shard : Shard) (db : Database)
    (hvalid : (contents shard.path shard.fingerprint).valid = true) :
    Working casefold contents shard 0 (restartShard shard (totalRowGroups contents shard) db)
      ∧ ∀ q, q ≠ shard.path →
        AgreeAt q db (restartShard shard (totalRowGroups contents shard) db) := by
  constructor
  · exact ⟨AList.lookup_erase _ _, AList.lookup_insert _, hvalid, Nat.zero_le _,
      fun g hg => absurd hg (Nat.not_lt_zero g), rowsOf_filter_ne_same _ _⟩
  · intro q hq
    exact ⟨AList.lookup_erase_ne hq, AList.lookup_insert_ne hq, rowsOf_filter_ne_other hq⟩

theorem finalizeShard_spec
    (h : Working casefold contents shard (totalRowGroups contents shard) db) :
    Indexed casefold contents shard (finalizeShard shard db)
      ∧ ∀ q, q ≠ shard.path → AgreeAt q db (finalizeShard shard db) := by
  constructor
  · exact ⟨AList.lookup_insert _, AList.lookup_erase _ _, ⟨h.valid, h.readable⟩, h.rows⟩
  · intro q hq
    exact ⟨AList.lookup_insert_ne hq, AList.lookup_erase_ne hq, rfl⟩

theorem deletePath_spec (path : String) (db : Database) :
    Unknown path (deletePath path db) ∧ ∀ q, q ≠ path → AgreeAt q db (deletePath path db) := by
  constructor
  · exact ⟨AList.lookup_erase _ _, AList.lookup_erase _ _, rowsOf_filter_ne_same _ _⟩
  · intro q hq
    exact ⟨AList.lookup_erase_ne hq, AList.lookup_erase_ne hq, rowsOf_filter_ne_other hq⟩

theorem deleteStalePaths_spec (stale : List String) (db : Database) :
    (∀ path ∈ stale, Unknown path (deleteStalePaths stale db))
      ∧ ∀ q, q ∉ stale → AgreeAt q db (deleteStalePaths stale db) := by
  have hfold : (∀ path ∈ stale, Unknown path (stale.foldl (fun db path => deletePath path db) db))
      ∧ ∀ q, q ∉ stale → AgreeAt q db (stale.foldl (fun db path => deletePath path db) db) := by
    induction stale generalizing db with
    | nil => exact ⟨by simp, fun q _ => AgreeAt.refl q db⟩
    | cons path stale ih =>
      obtain ⟨ih1, ih2⟩ := ih (deletePath path db)
      obtain ⟨hd1, hd2⟩ := deletePath_spec path db
      rw [List.foldl_cons]
      constructor
      · intro q hq
        by_cases hin : q ∈ stale
        · exact ih1 q hin
        · have hqp : q = path := (List.mem_cons.mp hq).resolve_right hin
          subst hqp
          have ha := ih2 q hin
          exact ⟨ha.fileState.trans hd1.fileState, ha.progress.trans hd1.progress,
            ha.rows.trans hd1.rows⟩
      · intro q hq
        rw [List.mem_cons, not_or] at hq
        exact (hd2 q hq.1).trans (ih2 q hq.2)
  exact ⟨fun path hp => ⟨(hfold.1 path hp).fileState, (hfold.1 path hp).progress,
      (hfold.1 path hp).rows⟩,
    fun q hq => ⟨(hfold.2 q hq).fileState, (hfold.2 q hq).progress, (hfold.2 q hq).rows⟩⟩

/-! ## One shard -/

/-- A state of a run in which the row count is invalidated and only `path` has changed. -/
structure Changing (casefold : String → String) (contents : String → Fingerprint → Contents P)
    (path : String) (db₀ db : Database) : Prop where
  consistent : Consistent casefold contents db
  count : db.rowCount = none
  other : ∀ q, q ≠ path → AgreeAt q db₀ db

theorem Changing.step {path : String} {db₀ db db' : Database}
    (h : Changing casefold contents path db₀ db) (hp : PathOk casefold contents path db')
    (hother : ∀ q, q ≠ path → AgreeAt q db db') (hcount : db'.rowCount = none) :
    Changing casefold contents path db₀ db' :=
  ⟨h.consistent.change hp hother hcount, hcount, fun q hq => (h.other q hq).trans (hother q hq)⟩

theorem Working.pathOk {n : Nat}
    (h : Working casefold contents shard n db) : PathOk casefold contents shard.path db :=
  Or.inr (Or.inl ⟨shard.fingerprint, n, h⟩)

theorem scanRowGroups_wp (stop : StopPoint → Bool) (position : Nat)
    {remaining n : Nat} {db₀ db : Database} (h : Changing casefold contents shard.path db₀ db)
    (hw : Working casefold contents shard n db)
    (hn : n + remaining = totalRowGroups contents shard) :
    wp (scanRowGroups casefold contents stop shard (totalRowGroups contents shard) position
        remaining n)
      (fun completed db' => Changing casefold contents shard.path db₀ db'
        ∧ if completed then Working casefold contents shard (totalRowGroups contents shard) db'
          else ∃ x, stop x = true)
      (fun _ db' => Consistent casefold contents db' ∧ ¬ Sound contents shard)
      (Consistent casefold contents) db := by
  induction remaining generalizing n db with
  | zero =>
    simp only [scanRowGroups, wp_pure, if_true]
    rw [Nat.add_zero] at hn
    exact ⟨h, hn ▸ hw⟩
  | succ remaining ih =>
    have hlt : n < totalRowGroups contents shard := by omega
    simp only [scanRowGroups]
    cases hs : stop (.rowGroup position n) with
    | true =>
      simp only [if_true, wp_pure, Bool.false_eq_true, if_false]
      exact ⟨h, _, hs⟩
    | false =>
      simp only [Bool.false_eq_true, if_false, wp_bind, wp_step]
      cases hread : scanIndexRowGroup shard.fingerprint.legacy
          (contents shard.path shard.fingerprint) n with
      | error e =>
        refine ⟨h.consistent, ?_⟩
        rintro ⟨-, hall⟩
        obtain ⟨indexed, hok⟩ := hall n hlt
        rw [hread] at hok
        cases hok
      | ok indexed =>
        obtain ⟨hw', hother⟩ := hw.commit hlt hread
        have h' := h.step hw'.pathOk hother h.count
        simp only [ofExcept, wp_pure]
        exact ⟨h.consistent, ih h' hw' (by omega)⟩

theorem working_of_resumable (h : PathOk casefold contents shard.path db)
    (hfirst : resumableRowGroup (db.scanProgress.lookup shard.path) shard.fingerprint
      (totalRowGroups contents shard) ≠ 0) :
    Working casefold contents shard (resumableRowGroup (db.scanProgress.lookup shard.path)
      shard.fingerprint (totalRowGroups contents shard)) db := by
  rcases h with ⟨fp, h⟩ | ⟨fp, n, h⟩ | h
  · rw [h.progress] at hfirst
    exact absurd rfl hfirst
  · rw [h.progress] at hfirst ⊢
    unfold resumableRowGroup at hfirst ⊢
    dsimp only at hfirst ⊢
    split at hfirst
    · rename_i hmatch
      rw [if_pos hmatch]
      have hfp : fp = shard.fingerprint := hmatch.1
      subst hfp
      exact h
    · exact absurd rfl hfirst
  · rw [h.progress] at hfirst
    exact absurd rfl hfirst

variable {progress : AList (fun _ : String => Progress)}

theorem prepareShard_wp {db₀ db : Database} (h : Changing casefold contents shard.path db₀ db)
    (hprogress : progress.lookup shard.path = db.scanProgress.lookup shard.path) :
    wp (prepareShard contents shard progress)
      (fun first db' => Changing casefold contents shard.path db₀ db'
        ∧ Working casefold contents shard first db')
      (fun _ db' => Consistent casefold contents db' ∧ ¬ Sound contents shard)
      (Consistent casefold contents) db := by
  unfold prepareShard
  cases hvalid : (contents shard.path shard.fingerprint).valid with
  | false =>
    simp only [Bool.false_eq_true, if_false, wp_raise]
    refine ⟨h.consistent, ?_⟩
    rintro ⟨hv, -⟩
    rw [hvalid] at hv
    cases hv
  | true =>
    simp only [if_true, hprogress]
    by_cases h0 : resumableRowGroup (db.scanProgress.lookup shard.path) shard.fingerprint
        (totalRowGroups contents shard) = 0
    · obtain ⟨hw, hother⟩ := restartShard_spec casefold shard db hvalid
      simp only [h0, if_true, wp_bind, wp_step, wp_pure]
      exact ⟨h.consistent, h.step hw.pathOk hother h.count, hw⟩
    · rw [if_neg h0]
      exact ⟨h, working_of_resumable (h.consistent.paths shard.path) h0⟩

theorem syncShard_wp (stop : StopPoint → Bool) (position : Nat) {db₀ db : Database}
    (h : Changing casefold contents shard.path db₀ db)
    (hprogress : progress.lookup shard.path = db.scanProgress.lookup shard.path) :
    wp (syncShard casefold contents stop shard progress position)
      (fun completed db' => Changing casefold contents shard.path db₀ db'
        ∧ if completed then Indexed casefold contents shard db' else ∃ x, stop x = true)
      (fun _ db' => Consistent casefold contents db' ∧ ¬ Sound contents shard)
      (Consistent casefold contents) db := by
  unfold syncShard
  simp only [wp_bind]
  refine wp_imp ?_ (prepareShard_wp h hprogress)
  rintro first db1 ⟨h1, hw⟩
  have hle := hw.le
  refine wp_imp ?_ (scanRowGroups_wp stop position h1 hw (by omega))
  rintro completed db2 ⟨h2, hdone⟩
  cases completed with
  | false =>
    simp only [Bool.false_eq_true, if_false, wp_pure] at hdone ⊢
    exact ⟨h2, hdone⟩
  | true =>
    obtain ⟨hi, hother⟩ := finalizeShard_spec hdone
    simp only [if_true, wp_bind, wp_step, wp_pure]
    exact ⟨h2.consistent, h2.step (Or.inl ⟨shard.fingerprint, hi⟩) hother h2.count, hi⟩

/-! ## One file after the other -/

theorem syncFile_wp (stop : StopPoint → Bool) (position : Nat)
    {known : AList (fun _ : String => Fingerprint)}
    {invalidated : Bool} (h : Consistent casefold contents db)
    (hinv : invalidated = true → db.rowCount = none)
    (hknown : known.lookup shard.path = db.fileState.lookup shard.path)
    (hprogress : progress.lookup shard.path = db.scanProgress.lookup shard.path) :
    wp (syncFile casefold contents stop shard known progress position invalidated)
      (fun r db' => Consistent casefold contents db' ∧ (r.2 = true → db'.rowCount = none)
        ∧ (∀ q, q ≠ shard.path → AgreeAt q db db')
        ∧ if r.1 then Indexed casefold contents shard db' else ∃ x, stop x = true)
      (fun _ db' => Consistent casefold contents db' ∧ ¬ Sound contents shard)
      (Consistent casefold contents) db := by
  unfold syncFile
  cases hs : stop (.shard position) with
  | true =>
    simp only [if_true, wp_pure, Bool.false_eq_true, if_false]
    exact ⟨h, hinv, fun q _ => AgreeAt.refl q db, _, hs⟩
  | false =>
    simp only [Bool.false_eq_true, if_false]
    by_cases hk : known.lookup shard.path = some shard.fingerprint
    · rw [if_pos hk]
      rw [hknown] at hk
      -- a path in `file_state` has no checkpoint, so there is none to drop
      have hi : Indexed casefold contents shard db := by
        rcases h.paths shard.path with ⟨fp, hi⟩ | ⟨fp, n, hw⟩ | hu
        · have hfp : fp = shard.fingerprint := by
            have := hi.fileState
            rw [hk] at this
            exact (Option.some.inj this).symm
          subst hfp
          exact hi
        · have := hw.fileState
          rw [hk] at this
          cases this
        · have := hu.fileState
          rw [hk] at this
          cases this
      rw [hprogress, hi.progress]
      simp only [Option.isSome_none, Bool.false_eq_true, if_false, wp_pure, if_true]
      exact ⟨h, hinv, fun q _ => AgreeAt.refl q db, hi⟩
    · rw [if_neg hk]
      have hshard : ∀ db', db'.rowCount = none → (∀ q, AgreeAt q db db') →
          Consistent casefold contents db' → wp
            (syncShard casefold contents stop shard progress position)
            (fun completed db' => Consistent casefold contents db' ∧ (True → db'.rowCount = none)
              ∧ (∀ q, q ≠ shard.path → AgreeAt q db db')
              ∧ if completed then Indexed casefold contents shard db' else ∃ x, stop x = true)
            (fun _ db' => Consistent casefold contents db' ∧ ¬ Sound contents shard)
            (Consistent casefold contents) db' := by
        intro db' hnone hagree hcons
        refine wp_imp ?_ (syncShard_wp stop position ⟨hcons, hnone, fun q _ => hagree q⟩
            (hprogress.trans (hagree shard.path).progress.symm))
        rintro completed db2 ⟨h2, hdone⟩
        exact ⟨h2.consistent, fun _ => h2.count, h2.other, hdone⟩
      cases invalidated with
      | true =>
        simp only [not_true_eq_false, if_false, wp_bind, wp_pure]
        exact hshard db (hinv rfl) (fun q => AgreeAt.refl q db) h
      | false =>
        simp only [Bool.false_eq_true, not_false_eq_true, if_true, wp_bind, wp_step, wp_pure]
        refine ⟨h, hshard { db with rowCount := none } rfl (fun q => ⟨rfl, rfl, rfl⟩)
          ⟨fun q => ?_, ?_⟩⟩
        · exact (h.paths q).agree ⟨rfl, rfl, rfl⟩
        · intro n hn
          cases hn

theorem syncFiles_wp (stop : StopPoint → Bool) {known : AList (fun _ : String => Fingerprint)}
    {shards : List Shard} {position : Nat}
    {invalidated : Bool} (h : Consistent casefold contents db)
    (hinv : invalidated = true → db.rowCount = none)
    (hnodup : (shards.map Shard.path).Nodup)
    (hknown : ∀ s ∈ shards, known.lookup s.path = db.fileState.lookup s.path)
    (hprogress : ∀ s ∈ shards, progress.lookup s.path = db.scanProgress.lookup s.path) :
    wp (syncFiles casefold contents stop known progress shards position invalidated)
      (fun completed db' => Consistent casefold contents db'
        ∧ (∀ q, q ∉ shards.map Shard.path → AgreeAt q db db')
        ∧ if completed then ∀ s ∈ shards, Indexed casefold contents s db' else ∃ x, stop x = true)
      (fun _ db' => Consistent casefold contents db' ∧ ∃ s ∈ shards, ¬ Sound contents s)
      (Consistent casefold contents) db := by
  induction shards generalizing position invalidated db with
  | nil =>
    simp only [syncFiles, wp_pure, if_true]
    exact ⟨h, fun q _ => AgreeAt.refl q db, by simp⟩
  | cons s shards ih =>
    rw [List.map_cons, List.nodup_cons] at hnodup
    simp only [syncFiles, wp_bind]
    refine wp_mono ?_ (fun _ _ h => ⟨h.1, s, by simp, h.2⟩) (fun _ h => h)
      (syncFile_wp stop position h hinv (hknown s (by simp)) (hprogress s (by simp)))
    rintro ⟨completed, invalidated'⟩ db1 ⟨h1, hinv1, hother1, hdone1⟩
    have hne : ∀ s' ∈ shards, s'.path ≠ s.path := by
      intro s' hs' he
      exact hnodup.1 (List.mem_map.mpr ⟨s', hs', he⟩)
    have hframe : ∀ q, q ∉ (s :: shards).map Shard.path → q ≠ s.path ∧ q ∉ shards.map Shard.path := by
      intro q hq
      rw [List.map_cons, List.mem_cons, not_or] at hq
      exact hq
    cases completed with
    | false =>
      simp only [Bool.false_eq_true, if_false, wp_pure] at hdone1 ⊢
      exact ⟨h1, fun q hq => hother1 q (hframe q hq).1, hdone1⟩
    | true =>
      simp only [if_true] at hdone1 ⊢
      refine wp_mono ?_ ?_ (fun _ h => h) (ih h1 hinv1 hnodup.2 ?_ ?_)
      · rintro completed db2 ⟨h2, hother2, hdone2⟩
        refine ⟨h2, fun q hq => (hother1 q (hframe q hq).1).trans (hother2 q (hframe q hq).2), ?_⟩
        cases completed with
        | false => exact hdone2
        | true =>
          intro s' hs'
          rcases List.mem_cons.mp hs' with rfl | hs'
          · have ha := hother2 s'.path hnodup.1
            exact ⟨ha.fileState.trans hdone1.fileState, ha.progress.trans hdone1.progress,
              hdone1.sound, ha.rows.trans hdone1.rows⟩
          · exact hdone2 s' hs'
      · rintro _ db2 ⟨h2, s', hs', hbad⟩
        exact ⟨h2, s', by simp [hs'], hbad⟩
      · intro s' hs'
        rw [hknown s' (by simp [hs']), (hother1 _ (hne s' hs')).fileState]
      · intro s' hs'
        rw [hprogress s' (by simp [hs']), (hother1 _ (hne s' hs')).progress]

/-! ## A whole run -/

theorem finishSync_wp (h : Consistent casefold contents db) : wp finishSync
      (fun completed db' => completed = true ∧ Consistent casefold contents db'
        ∧ db'.rowCount = some (countDistinctDocuments db') ∧ ∀ q, AgreeAt q db db')
      (fun _ _ => False) (Consistent casefold contents) db := by
  unfold finishSync
  simp only [wp_bind, wp_get]
  cases hc : db.rowCount with
  | some n =>
    simp only [wp_pure]
    exact ⟨trivial, h, by rw [hc, h.count n hc], fun q => AgreeAt.refl q db⟩
  | none =>
    simp only [wp_bind, wp_step, wp_pure]
    refine ⟨h, trivial, ⟨fun q => (h.paths q).agree ⟨rfl, rfl, rfl⟩, ?_⟩, rfl,
      fun q => ⟨rfl, rfl, rfl⟩⟩
    intro n hn
    exact (Option.some.inj hn).symm

/-- What a run does to the paths that are not among its files: a completely indexed one is
removed, everything else stays. -/
structure Cleared (files : List Shard) (db db' : Database) : Prop where
  removed : ∀ q, q ∉ files.map Shard.path → (db.fileState.lookup q).isSome →
    rowsOf db'.documents q = []
  kept : ∀ q, q ∉ files.map Shard.path → db.fileState.lookup q = none → AgreeAt q db db'

/-- **A run of the synchronisation.** Whatever stops it leaves a consistent database; a run that
returns `True` has indexed all its files and counted the documents. -/
theorem sync_wp (stop : StopPoint → Bool) {files : List Shard}
    (h : Consistent casefold contents db) (hnodup : (files.map Shard.path).Nodup) :
    wp (sync casefold contents stop files)
      (fun completed db' => Consistent casefold contents db' ∧ if completed then
        (∀ s ∈ files, Indexed casefold contents s db') ∧ Cleared files db db'
          ∧ db'.rowCount = some (countDistinctDocuments db')
        else ∃ x, stop x = true)
      (fun _ db' => Consistent casefold contents db' ∧ ∃ s ∈ files, ¬ Sound contents s)
      (Consistent casefold contents) db := by
  unfold sync
  simp only [wp_bind, wp_get]
  set stale := db.fileState.keys.filter (fun path => path ∉ files.map Shard.path) with hstale
  have hmem : ∀ q, q ∈ stale ↔ (db.fileState.lookup q).isSome ∧ q ∉ files.map Shard.path := by
    intro q
    rw [hstale, List.mem_filter, AList.lookup_isSome, ← AList.mem_keys]
    simp
  -- the state after the stale paths are gone, with or without a transaction for it
  have hrest : ∀ db1, Consistent casefold contents db1 → (stale ≠ [] → db1.rowCount = none) →
      (∀ q ∈ stale, Unknown q db1) → (∀ q, q ∉ stale → AgreeAt q db db1) →
      wp (syncFiles casefold contents stop db.fileState db.scanProgress files 1
          (decide (stale ≠ [])))
        (fun completed db2 => wp (if completed = true then finishSync else pure false)
          (fun completed db' => Consistent casefold contents db' ∧ if completed then
            (∀ s ∈ files, Indexed casefold contents s db') ∧ Cleared files db db'
              ∧ db'.rowCount = some (countDistinctDocuments db')
            else ∃ x, stop x = true)
          (fun _ db' => Consistent casefold contents db' ∧ ∃ s ∈ files, ¬ Sound contents s)
          (Consistent casefold contents) db2)
        (fun _ db' => Consistent casefold contents db' ∧ ∃ s ∈ files, ¬ Sound contents s)
        (Consistent casefold contents) db1 := by
    intro db1 h1 hcount hgone hkeep
    have hfile : ∀ s ∈ files, s.path ∉ stale := by
      intro s hs hin
      exact ((hmem _).mp hin).2 (List.mem_map_of_mem hs)
    refine wp_imp ?_ (syncFiles_wp stop h1 (fun hd => hcount (of_decide_eq_true hd)) hnodup
      (fun s hs => (hkeep _ (hfile s hs)).fileState.symm)
      (fun s hs => (hkeep _ (hfile s hs)).progress.symm))
    rintro completed db2 ⟨h2, hother, hdone⟩
    cases completed with
    | false =>
      simp only [Bool.false_eq_true, if_false, wp_pure] at hdone ⊢
      exact ⟨h2, hdone⟩
    | true =>
      simp only [if_true] at hdone ⊢
      refine wp_safe ?_ (finishSync_wp h2)
      rintro _ db3 ⟨rfl, h3, hrow, hagree⟩
      refine ⟨h3, ?_⟩
      rw [if_pos rfl]
      refine ⟨?_, ⟨?_, ?_⟩, hrow⟩
      · intro s hs
        have hi := hdone s hs
        have ha := hagree s.path
        exact ⟨ha.fileState.trans hi.fileState, ha.progress.trans hi.progress, hi.sound,
          ha.rows.trans hi.rows⟩
      · intro q hq hsome
        rw [(hagree q).rows, (hother q hq).rows]
        exact (hgone q ((hmem q).mpr ⟨hsome, hq⟩)).rows
      · intro q hq hnone
        have hqs : q ∉ stale := by
          intro hin
          have := ((hmem q).mp hin).1
          rw [hnone] at this
          cases this
        exact ((hkeep q hqs).trans (hother q hq)).trans (hagree q)
  by_cases hs : stale = []
  · have hd : ¬ stale ≠ [] := fun hne => hne hs
    rw [if_neg hd]
    simp only [wp_bind]
    refine hrest db h (fun hne => absurd hs hne) ?_ (fun q _ => AgreeAt.refl q db)
    rw [hs]
    simp
  · rw [if_pos hs]
    simp only [wp_bind, wp_step]
    obtain ⟨hgone, hkeep⟩ := deleteStalePaths_spec stale db
    refine ⟨h, hrest _ ⟨?_, ?_⟩ (fun _ => rfl) hgone hkeep⟩
    · intro q
      by_cases hq : q ∈ stale
      · exact Or.inr (Or.inr (hgone q hq))
      · exact (h.paths q).agree (hkeep q hq)
    · intro n hn
      cases hn

/-! ## Histories -/

/-- The shards of a run. Their resolved paths are distinct. -/
structure ShardSet where
  files : List Shard
  nodup : (files.map Shard.path).Nodup

/-- The databases a history of runs can lead to: the shard set changes from run to run, and each
run is stopped, killed, fails or returns. That contents are a function of path and fingerprint
says that a shard whose contents change gets a new fingerprint. -/
inductive Reachable (casefold : String → String) (contents : String → Fingerprint → Contents P) :
    Database → Prop where
  | empty : Reachable casefold contents Database.empty
  | run {db : Database} (stop : StopPoint → Bool) (shards : ShardSet) (n : Nat)
      (h : Reachable casefold contents db) :
      Reachable casefold contents (Prog.exec (sync casefold contents stop shards.files) n db).state

theorem Reachable.consistent (h : Reachable casefold contents db) :
    Consistent casefold contents db := by
  induction h with
  | empty => exact consistent_empty
  | @run db stop shards n _ ih =>
    have hmeets := wp_exec (sync_wp stop ih shards.nodup) n
    cases hout : Prog.exec (sync casefold contents stop shards.files) n db with
    | done a s => rw [hout] at hmeets; exact hmeets.1
    | raised e s => rw [hout] at hmeets; exact hmeets.1
    | killed s => rw [hout] at hmeets; exact hmeets

theorem sync_returns {shards : ShardSet} (h : Consistent casefold contents db)
    (hsound : ∀ s ∈ shards.files, Sound contents s) :
    ∃ db', Prog.run (sync casefold contents (fun _ => false) shards.files) db = (.ok true, db')
      ∧ (∀ s ∈ shards.files, Indexed casefold contents s db') ∧ Cleared shards.files db db' := by
  obtain ⟨completed, db', hrun, -, hdone⟩ := wp_returns (wp_mono (fun _ _ h => h)
    (fun _ _ h => by
      obtain ⟨-, s, hs, hbad⟩ := h
      exact hbad (hsound s hs)) (fun _ h => h) (sync_wp (fun _ => false) h shards.nodup))
  cases completed with
  | false =>
    rw [if_neg (by simp)] at hdone
    obtain ⟨x, hx⟩ := hdone
    cases hx
  | true =>
    rw [if_pos rfl] at hdone
    exact ⟨db', hrun, hdone.1, hdone.2.1⟩

/-- A path that is not among the files has no rows after a run that returned `True`, unless the
run found rows of it without a `file_state` entry. -/
theorem rowsOf_cleared {files : List Shard} (hclear : Cleared files db db')
    (hcond : ∀ d ∈ db.documents, d.sourcePath ∈ files.map Shard.path
      ∨ (db.fileState.lookup d.sourcePath).isSome) {q : String} (hq : q ∉ files.map Shard.path) :
    rowsOf db'.documents q = [] := by
  cases hk : db.fileState.lookup q with
  | some fp => exact hclear.removed q hq (by rw [hk]; rfl)
  | none =>
    rw [(hclear.kept q hq hk).rows, List.eq_nil_iff_forall_not_mem]
    intro d hd
    obtain ⟨hd, hpath⟩ := mem_rowsOf.mp hd
    rcases hcond d hd with h | h
    · exact hq (hpath ▸ h)
    · rw [hpath, hk] at h
      cases h

/-- **Resumed synchronisation against a fresh scan.** After any history of runs, a run that
returns `True` has brought the index to what a run on an empty database produces, and counted its
documents, if and only if it started without rows of a shard that is not among its files and was
never completely indexed. -/
theorem sync_matches_fresh_iff (h : Reachable casefold contents db)
    (stop : StopPoint → Bool) (shards : ShardSet)
    (hrun : Prog.run (sync casefold contents stop shards.files) db = (.ok true, db')) :
    (∃ fresh, Prog.run (sync casefold contents (fun _ => false) shards.files) Database.empty
          = (.ok true, fresh)
        ∧ db'.documents.Perm fresh.documents
        ∧ db'.rowCount = some (countDistinctDocuments db'))
      ↔ ∀ d ∈ db.documents, d.sourcePath ∈ shards.files.map Shard.path
        ∨ (db.fileState.lookup d.sourcePath).isSome := by
  have hfinal := wp_run (sync_wp stop h.consistent shards.nodup)
  rw [hrun] at hfinal
  obtain ⟨-, hindexed, hclear, hcount⟩ := hfinal
  obtain ⟨fresh, hfresh, hfindexed, hfclear⟩ :=
    sync_returns consistent_empty (fun s hs => (hindexed s hs).sound)
  have hfrows : ∀ q, q ∉ shards.files.map Shard.path → rowsOf fresh.documents q = [] :=
    fun q hq => rowsOf_cleared hfclear (by simp [Database.empty]) hq
  constructor
  · rintro ⟨fresh', hfresh', hperm, -⟩ d hd
    obtain rfl : fresh' = fresh := by
      rw [hfresh] at hfresh'
      exact (Prod.mk.inj hfresh').2.symm
    by_contra hcon
    rw [not_or] at hcon
    obtain ⟨hout, hnone⟩ := hcon
    have hkept := hclear.kept _ hout (Option.not_isSome_iff_eq_none.mp hnone)
    have hd' : d ∈ rowsOf db'.documents d.sourcePath := by
      rw [hkept.rows]
      exact mem_rowsOf.mpr ⟨hd, rfl⟩
    have hdf : d ∈ rowsOf fresh'.documents d.sourcePath :=
      mem_rowsOf.mpr ⟨hperm.mem_iff.mp (mem_rowsOf.mp hd').1, rfl⟩
    rw [hfrows _ hout] at hdf
    cases hdf
  · intro hcond
    refine ⟨fresh, hfresh, perm_of_rowsOf ?_, hcount⟩
    intro q
    by_cases hq : q ∈ shards.files.map Shard.path
    · obtain ⟨s, hs, rfl⟩ := List.mem_map.mp hq
      rw [(hindexed s hs).rows, (hfindexed s hs).rows]
    · rw [rowsOf_cleared hclear hcond hq, hfrows q hq]

/-! ## Every moment of a history -/

/-- **No mixed rows.** Whenever the runs stop, the rows of a path are those of one version of its
shard: of the whole scan if the version is registered, of the first row groups of a scan under way,
or none. -/
theorem rows_of_one_version (h : Reachable casefold contents db) (path : String) :
    (∃ fingerprint, db.fileState.lookup path = some fingerprint
        ∧ rowsOf db.documents path = allRows casefold contents ⟨path, fingerprint⟩)
      ∨ (∃ fingerprint n, db.fileState.lookup path = none
        ∧ db.scanProgress.lookup path
          = some ⟨fingerprint, totalRowGroups contents ⟨path, fingerprint⟩, n⟩
        ∧ rowsOf db.documents path = scanned casefold contents ⟨path, fingerprint⟩ n)
      ∨ rowsOf db.documents path = [] := by
  rcases h.consistent.paths path with ⟨fingerprint, hindexed⟩ | ⟨fingerprint, n, hworking⟩ | hunknown
  · exact Or.inl ⟨fingerprint, hindexed.fileState, hindexed.rows⟩
  · exact Or.inr (Or.inl ⟨fingerprint, n, hworking.fileState, hworking.progress, hworking.rows⟩)
  · exact Or.inr (Or.inr hunknown.rows)

/-- **An undisturbed run finishes.** Whatever runs came before, one over readable shards that
nothing stops returns `True`, and each shard is registered with all its rows. -/
theorem undisturbed_sync_finishes (h : Reachable casefold contents db) {shards : ShardSet}
    (hsound : ∀ s ∈ shards.files, Sound contents s) :
    ∃ db', Prog.run (sync casefold contents (fun _ => false) shards.files) db = (.ok true, db')
      ∧ ∀ s ∈ shards.files, db'.fileState.lookup s.path = some s.fingerprint
        ∧ rowsOf db'.documents s.path = allRows casefold contents s := by
  obtain ⟨db', hrun, hindexed, -⟩ := sync_returns h.consistent hsound
  exact ⟨db', hrun, fun s hs => ⟨(hindexed s hs).fileState, (hindexed s hs).rows⟩⟩

end

/-! ## A shard removed in the middle of its scan -/

namespace Example

/-- Two row groups with one document each. -/
def contents (_ : String) (_ : Fingerprint) : Contents Unit :=
  ⟨true, [[⟨some "Q1:wikipedia:en:1:1", some "en", some "A", some 1, some 1, some "Q1", ()⟩],
    [⟨some "Q2:wikipedia:en:2:2", some "en", some "B", some 2, some 2, some "Q2", ()⟩]]⟩

def shards : ShardSet := ⟨[⟨"wikipedia/documents/a.parquet", ⟨1, 1, 1, 1, false⟩⟩], by decide⟩

def noShards : ShardSet := ⟨[], by decide⟩

/-- The first run is killed after it has committed the first row group. -/
def interrupted : Database :=
  (Prog.exec (sync id contents (fun _ => false) shards.files) 3 Database.empty).state

theorem interrupted_reachable : Reachable id contents interrupted := .run _ shards 3 .empty

/-- Resumed with the same shard, the index ends up like a fresh one. -/
theorem resumed_matches_fresh :
    (Prog.run (sync id contents (fun _ => false) shards.files) interrupted).1 = .ok true
      ∧ ∃ fresh, Prog.run (sync id contents (fun _ => false) shards.files) Database.empty
          = (.ok true, fresh)
        ∧ (Prog.run (sync id contents (fun _ => false) shards.files) interrupted).2.documents.Perm
          fresh.documents
        ∧ (Prog.run (sync id contents (fun _ => false) shards.files) interrupted).2.rowCount
          = some (countDistinctDocuments
            (Prog.run (sync id contents (fun _ => false) shards.files) interrupted).2) :=
  ⟨rfl, (sync_matches_fresh_iff interrupted_reachable (fun _ => false) shards rfl).mpr (by decide)⟩

theorem interrupted_one_version : ∃ fingerprint n,
    rowsOf interrupted.documents "wikipedia/documents/a.parquet"
      = scanned id contents ⟨"wikipedia/documents/a.parquet", fingerprint⟩ n := by
  rcases rows_of_one_version interrupted_reachable "wikipedia/documents/a.parquet" with
    ⟨_, h, _⟩ | ⟨fingerprint, n, _, _, h⟩ | h
  · cases h
  · exact ⟨fingerprint, n, h⟩
  · cases h

theorem interrupted_finishes : ∃ db', Prog.run (sync id contents (fun _ => false) shards.files)
    interrupted = (.ok true, db') ∧ db'.documents.length = 2 := by
  have hsound : ∀ s ∈ shards.files, Sound contents s := by
    intro s hs
    obtain rfl := List.mem_singleton.mp hs
    refine ⟨rfl, fun g hg => ?_⟩
    have hlt : g < 2 := hg
    interval_cases g <;> exact ⟨_, rfl⟩
  obtain ⟨db', hrun, -⟩ := undisturbed_sync_finishes interrupted_reachable hsound
  exact ⟨db', hrun, by cases hrun; rfl⟩

/-- When the shard is gone, a run returns `True` and leaves its rows in the index. -/
theorem removed_shard_stays : Reachable id contents interrupted
      ∧ Prog.run (sync id contents (fun _ => false) noShards.files) interrupted
        = (.ok true, (Prog.run (sync id contents (fun _ => false) noShards.files) interrupted).2)
      ∧ (Prog.run (sync id contents (fun _ => false) noShards.files) Database.empty).1 = .ok true
      ∧ ¬ (Prog.run (sync id contents (fun _ => false) noShards.files) interrupted).2.documents.Perm
        (Prog.run (sync id contents (fun _ => false) noShards.files) Database.empty).2.documents := by
  refine ⟨interrupted_reachable, rfl, rfl, ?_⟩
  intro hperm
  cases hperm.length_eq

end Example

end OsmPolygonWikidata.V1Index
