import OsmPolygonWikidata.LanguageSplits.V1Splits
import OsmPolygonWikidata.UploadQueue.UploadState

/-! # The V2 partitions

`v2/language_split_writer.py`, `v2/language_splits.py` and `v2/language_split_manifest.py`. The rows
of a language go to shards of at most so many rows, and the name of a shard says how many there are.
A slice of a group fills the open shard of its language, which is closed when it is full.
`writeTable_spec` says that the shards are the chunks of the rows of the language.

Staging starts without the tables of an earlier run. A shard is known by its language and number.
-/

namespace OsmPolygonWikidata.LanguageSplits.V2Splits

open Python
open UploadQueue (padded)

variable {R : Type}

/-! ## Shards -/

/-- `LanguageShardWriteState`, with the rows of its file. -/
structure ShardWriteState (R : Type) where
  language : String
  shardIndex : Nat
  written : List R
  finalPath : Path
  stagedPath : Path
  rowCount : Nat
  sourceFiles : List String
  pending : List (List R)
  pendingBytes : Int

/-- `LanguageTableWriteState`: the open shards are given by their numbers. -/
structure TableWriteState (R : Type) where
  current : List (String × Nat)
  nextShardIndex : List (String × Nat)
  shards : List (ShardWriteState R)
  pendingBytes : Int

structure TableWriteContext where
  destination : Path
  stageRoot : Path
  spec : LanguageTableSpec
  maxRowsPerShard : Nat
  shardCounts : List (String × Nat)

/-- `shard_count`. -/
def shardCount (rowCount maxRowsPerShard : Nat) : Nat :=
  (rowCount + maxRowsPerShard - 1) / maxRowsPerShard

def tableShardCounts (inventory : LanguageTableInventory) (maxRowsPerShard : Nat) :
    List (String × Nat) :=
  Dict.build Prod.fst ((inventory.buckets.filter (fun bucket => 0 < bucket.counter.rowCount)).map
    (fun bucket => (bucket.language, shardCount bucket.counter.rowCount maxRowsPerShard)))

/-- `TableWriteContext.for_inventory`. -/
def forInventory (destination stageRoot : Path) (spec : LanguageTableSpec)
    (inventory : LanguageTableInventory) (maxRowsPerShard : Nat) : TableWriteContext :=
  ⟨destination, stageRoot, spec, maxRowsPerShard, tableShardCounts inventory maxRowsPerShard⟩

variable (m : CaseMapping)

/-- `_output_path`. -/
def outputPath (destination : Path) (spec : LanguageTableSpec) (language : String)
    (shardIndex shardCount : Nat) : Path :=
  destination ++ [spec.configuration, languageSplitName m (.text language),
    s!"part-{padded 5 shardIndex}-of-{padded 5 shardCount}.parquet"]

/-- A change to the shard of a language with a number. -/
def TableWriteState.update (state : TableWriteState R) (language : String) (index : Nat)
    (f : ShardWriteState R → ShardWriteState R) : TableWriteState R :=
  { state with shards := state.shards.map (fun shard =>
      if shard.language = language ∧ shard.shardIndex = index then f shard else shard) }

/-- The shard of a language with a number. -/
def TableWriteState.shard? (state : TableWriteState R) (language : String) (index : Nat) :
    Option (ShardWriteState R) :=
  state.shards.find? (fun shard => shard.language = language ∧ shard.shardIndex = index)

/-- What `_flush_shard` does to a shard. -/
def ShardWriteState.flush (shard : ShardWriteState R) : ShardWriteState R :=
  if shard.pending.isEmpty then shard
  else { shard with
    written := shard.written ++ shard.pending.flatten, pending := [], pendingBytes := 0 }

/-- The bytes that `_flush_shard` writes. -/
def ShardWriteState.flushedBytes (shard : ShardWriteState R) : Int :=
  if shard.pending.isEmpty then 0 else shard.pendingBytes

/-- `_flush_shard`. -/
def flushShard (state : TableWriteState R) (language : String) (index : Nat) : TableWriteState R :=
  let bytes := ((state.shard? language index).map ShardWriteState.flushedBytes).getD 0
  { state.update language index ShardWriteState.flush with pendingBytes := state.pendingBytes - bytes }

def flushAllShards (state : TableWriteState R) : TableWriteState R :=
  state.current.foldl (fun state entry => flushShard state entry.1 entry.2) state

/-- `_buffer_rows`. -/
def bufferRows (buffering : Buffering R) (state : TableWriteState R) (language : String)
    (index : Nat) (rows : List R) : TableWriteState R :=
  let state := state.update language index (fun shard => { shard with
    pending := shard.pending ++ [rows],
    pendingBytes := shard.pendingBytes + buffering.nbytes rows })
  let state := { state with pendingBytes := state.pendingBytes + buffering.nbytes rows }
  let shardBytes := ((state.shard? language index).map ShardWriteState.pendingBytes).getD 0
  if (buffering.shardFlushBytes : Int) ≤ shardBytes then flushShard state language index
  else if buffering.totalFlushBytes ≤ state.pendingBytes then flushAllShards state
  else state

def recordSourceFile (sourceFiles : List String) (sourceFile : String) : List String :=
  if sourceFiles.getLast? = some sourceFile then sourceFiles else sourceFiles ++ [sourceFile]

/-! ## Writing a table -/

variable (context : TableWriteContext)

/-- A new shard. -/
def newShard (language : String) (index count : Nat) : ShardWriteState R where
  language := language
  shardIndex := index
  written := []
  finalPath := outputPath m context.destination context.spec language index count
  stagedPath := outputPath m context.stageRoot context.spec language index count
  rowCount := 0
  sourceFiles := []
  pending := []
  pendingBytes := 0

/-- `writer_for_language`, with the number of the shard. A language that the inventory does not
have is a `KeyError`. -/
def writerForLanguage (state : TableWriteState R) (language : String) :
    Except String (TableWriteState R × Nat) :=
  match state.current.lookup language with
  | some index => .ok (state, index)
  | none =>
    let index := (state.nextShardIndex.lookup language).getD 0
    match context.shardCounts.lookup language with
    | none => .error language
    | some count =>
      .ok ({ state with
        nextShardIndex := Dict.put Prod.fst (language, index + 1) state.nextShardIndex,
        current := Dict.put Prod.fst (language, index) state.current,
        shards := state.shards ++ [newShard m context language index count] }, index)

/-- Closing a shard writes its buffer. -/
def closeShard (state : TableWriteState R) (language : String) (index : Nat) : TableWriteState R :=
  { flushShard state language index with
    current := state.current.filter (fun entry => entry.1 ≠ language) }

def closeFullShard (state : TableWriteState R) (language : String) (index : Nat) :
    TableWriteState R :=
  if ((state.shard? language index).map ShardWriteState.rowCount).getD 0
      = context.maxRowsPerShard then
    closeShard state language index
  else state

variable (buffering : Buffering R)

/-- What a turn of the loop of `_write_language_indices` does with the open shard: how many of the
positions that are left go to it. -/
def writeSlice (batch : List R) (language sourceFile : String) (indices : List Nat)
    (state : TableWriteState R) (index : Nat) : Nat × TableWriteState R :=
  let state := state.update language index (fun shard =>
    { shard with sourceFiles := recordSourceFile shard.sourceFiles sourceFile })
  let rowCount := ((state.shard? language index).map ShardWriteState.rowCount).getD 0
  let count := min (context.maxRowsPerShard - rowCount) indices.length
  let state := bufferRows buffering state language index (takeRows batch (indices.take count))
  let state := state.update language index (fun shard =>
    { shard with rowCount := shard.rowCount + count })
  (count, closeFullShard context state language index)

/-- One turn of the loop. -/
def writeTurn (batch : List R) (language sourceFile : String) (indices : List Nat)
    (state : TableWriteState R) : Except String (Nat × TableWriteState R) := do
  let (state, index) ← writerForLanguage m context state language
  return writeSlice context buffering batch language sourceFile indices state index

def writeLanguageIndices (batch : List R) (language sourceFile : String) :
    Nat → List Nat → TableWriteState R → Except String (TableWriteState R)
  | _, [], state => .ok state
  | 0, _ :: _, _ => .error "the loop does not end"
  | fuel + 1, i :: indices, state => do
    let (count, state) ← writeTurn m context buffering batch language sourceFile (i :: indices) state
    writeLanguageIndices batch language sourceFile fuel ((i :: indices).drop count) state

variable (scanner : Scanner R)

/-- One language of `write_batch`. The loop takes a position at least in each turn. -/
def writeGroup (sourceFile : String) (batch : List R) (state : TableWriteState R)
    (group : String × List Nat) : Except String (TableWriteState R) :=
  writeLanguageIndices scanner.m context buffering batch group.1 sourceFile group.2.length group.2
    state

/-- `write_batch`. -/
def writeBatch (sourceFile : String) (state : TableWriteState R) (batch : List R) :
    Except String (TableWriteState R) :=
  match partitionRowIndices scanner.m scanner.arrow (batch.map scanner.languageOf) with
  | none => .error "KeyError"
  | some groups => groups.foldlM (writeGroup context buffering scanner sourceFile batch) state

def streamSourceFile (batchSize : Nat) (state : TableWriteState R) (file : String × List R) :
    Except String (TableWriteState R) :=
  (scanner.reader.iterBatches batchSize file.2).foldlM
    (writeBatch context buffering scanner file.1) state

/-- `stream_sources`: the shards are flushed at the end. -/
def streamSources (batchSize : Nat) (files : List (String × List R)) :
    Except String (TableWriteState R) :=
  (files.foldlM (streamSourceFile context buffering scanner batchSize) ⟨[], [], [], 0⟩).map
    flushAllShards

/-- `V2LanguageSplitFile`, with the rows of the file. The path is below the processed directory. -/
structure V2LanguageSplitFile (R : Type) where
  table : LanguageTable
  configuration : String
  language : String
  split : String
  sourceFiles : List String
  path : Path
  rowCount : Nat
  rows : List R

def validateOutputFile (spec : LanguageTableSpec) (shard : ShardWriteState R) :
    Except String (V2LanguageSplitFile R) :=
  if shard.written.length ≠ shard.rowCount then
    .error ("row count mismatch for generated output " ++ "/".intercalate shard.stagedPath ++
      s!": expected={shard.rowCount}, observed={shard.written.length}")
  else
    .ok ⟨spec.table, spec.configuration, shard.language, languageSplitName m (.text shard.language),
      shard.sourceFiles, shard.finalPath, shard.written.length, shard.written⟩

/-- `write_table`. -/
def writeTable (batchSize : Nat) (files : List (String × List R)) :
    Except String (List (V2LanguageSplitFile R)) := do
  let state ← streamSources context buffering scanner batchSize files
  state.shards.mapM (validateOutputFile scanner.m context.spec)

/-! ## Shards without their buffers -/

/-- A shard, whatever of it is written. -/
structure ShardView (R : Type) where
  language : String
  shardIndex : Nat
  finalPath : Path
  stagedPath : Path
  rowCount : Nat
  sourceFiles : List String
  rows : List R

def ShardWriteState.view (shard : ShardWriteState R) : ShardView R where
  language := shard.language
  shardIndex := shard.shardIndex
  finalPath := shard.finalPath
  stagedPath := shard.stagedPath
  rowCount := shard.rowCount
  sourceFiles := shard.sourceFiles
  rows := shard.written ++ shard.pending.flatten

/-- The shards of a language. -/
def TableWriteState.viewsOf (state : TableWriteState R) (language : String) : List (ShardView R) :=
  (state.shards.map ShardWriteState.view).filter (fun view => view.language = language)

/-- A change that keeps the language and the number. -/
def Keeps (f : ShardWriteState R → ShardWriteState R) : Prop :=
  ∀ shard, (f shard).language = shard.language ∧ (f shard).shardIndex = shard.shardIndex

/-- Rows without a shard to go to are not lost: they are written or the shard is open. -/
def Settled (state : TableWriteState R) : Prop :=
  ∀ shard ∈ state.shards,
    shard.pending = [] ∨ state.current.lookup shard.language = some shard.shardIndex

section

variable {state : TableWriteState R} {language : String} {index : Nat}
  {f : ShardWriteState R → ShardWriteState R} {g : ShardView R → ShardView R}

@[simp] theorem view_flush (shard : ShardWriteState R) : shard.flush.view = shard.view := by
  unfold ShardWriteState.flush
  split
  · rfl
  · simp [ShardWriteState.view]

theorem pending_flush (shard : ShardWriteState R) : shard.flush.pending = [] := by
  unfold ShardWriteState.flush
  split
  · rename_i hempty
    exact List.isEmpty_iff.mp hempty
  · rfl

theorem keeps_flush : Keeps (ShardWriteState.flush (R := R)) := fun shard =>
  ⟨congrArg ShardView.language (view_flush shard), congrArg ShardView.shardIndex (view_flush shard)⟩

variable (state language index) in
theorem viewsOf_update (hview : ∀ shard, (f shard).view = g shard.view)
    (hg : ∀ view, (g view).language = view.language) (other : String) :
    (state.update language index f).viewsOf other
      = if other = language then (state.viewsOf other).map (fun view =>
          if view.shardIndex = index then g view else view)
        else state.viewsOf other := by
  have hviews : (state.update language index f).shards.map ShardWriteState.view
      = (state.shards.map ShardWriteState.view).map (fun view =>
          if view.language = language ∧ view.shardIndex = index then g view else view) := by
    rw [TableWriteState.update, List.map_map, List.map_map]
    refine List.map_congr_left fun shard _ => ?_
    show (if shard.language = language ∧ shard.shardIndex = index then f shard else shard).view
      = if shard.language = language ∧ shard.shardIndex = index then g shard.view else shard.view
    split
    · exact hview shard
    · rfl
  have hkeep : ∀ view : ShardView R, (if view.language = language ∧ view.shardIndex = index
      then g view else view).language = view.language := by
    intro view
    split
    · exact hg view
    · rfl
  rw [TableWriteState.viewsOf, hviews, List.filter_map, TableWriteState.viewsOf]
  simp only [Function.comp_def, hkeep]
  split
  · rename_i heq
    refine List.map_congr_left fun view hview => ?_
    have hlanguage : view.language = language := by
      rw [of_decide_eq_true (List.mem_filter.mp hview).2, heq]
    simp only [hlanguage, true_and]
  · rename_i hne
    refine (List.map_congr_left fun view hview => ?_).trans (List.map_id _)
    have hlanguage : ¬ view.language = language := by
      rw [of_decide_eq_true (List.mem_filter.mp hview).2]
      exact hne
    exact if_neg fun h => hlanguage h.1

theorem viewsOf_flushShard (other : String) :
    (flushShard state language index).viewsOf other = state.viewsOf other := by
  refine (viewsOf_update state language index (g := id) view_flush (fun _ => rfl) other).trans ?_
  split
  · simp
  · rfl

theorem Settled.update (h : Settled state) (hf : Keeps f)
    (hopen : (∀ shard, shard.pending = [] → (f shard).pending = [])
      ∨ state.current.lookup language = some index) :
    Settled (state.update language index f) := by
  intro shard hshard
  obtain ⟨before, hbefore, rfl⟩ := List.mem_map.mp hshard
  have hsettled := h before hbefore
  show _ ∨ state.current.lookup _ = _
  split
  · rename_i hmatch
    rw [(hf before).1, (hf before).2]
    rcases hsettled with hpending | hcurrent
    · rcases hopen with hopen | hopen
      · exact Or.inl (hopen before hpending)
      · exact Or.inr (by rw [hmatch.1, hmatch.2, hopen])
    · exact Or.inr hcurrent
  · exact hsettled

theorem Settled.flushShard (h : Settled state) : Settled (flushShard state language index) :=
  h.update keeps_flush (Or.inl fun shard _ => pending_flush shard)

/-- What buffers do not change. -/
structure SameViews (state state' : TableWriteState R) : Prop where
  views : ∀ language, state'.viewsOf language = state.viewsOf language
  current : state'.current = state.current
  next : state'.nextShardIndex = state.nextShardIndex
  settled : Settled state → Settled state'

theorem sameViews_flushShard : SameViews state (flushShard state language index) :=
  ⟨viewsOf_flushShard, rfl, rfl, Settled.flushShard⟩

theorem SameViews.trans {state' state'' : TableWriteState R} (h : SameViews state state')
    (h' : SameViews state' state'') : SameViews state state'' :=
  ⟨fun l => (h'.views l).trans (h.views l), h'.current.trans h.current, h'.next.trans h.next,
    fun hs => h'.settled (h.settled hs)⟩

theorem sameViews_foldl (entries : List (String × Nat)) (state : TableWriteState R) :
    SameViews state
      (entries.foldl (fun state entry => flushShard state entry.1 entry.2) state) := by
  induction entries generalizing state with
  | nil => exact ⟨fun _ => rfl, rfl, rfl, id⟩
  | cons entry entries ih => exact sameViews_flushShard.trans (ih _)

theorem sameViews_flushAllShards : SameViews state (flushAllShards state) :=
  sameViews_foldl state.current state

variable (state language index) in
/-- **Buffered rows are rows of the shard**, whichever buffers are written. -/
theorem bufferRows_spec (buffering : Buffering R) (rows : List R) :
    SameViews (state.update language index (fun shard => { shard with
        pending := shard.pending ++ [rows],
        pendingBytes := shard.pendingBytes + buffering.nbytes rows }))
      (bufferRows buffering state language index rows) := by
  unfold bufferRows
  dsimp only
  have hbytes : ∀ (state : TableWriteState R) bytes,
      SameViews state { state with pendingBytes := bytes } :=
    fun state bytes => ⟨fun _ => rfl, rfl, rfl, id⟩
  split
  · exact (hbytes _ _).trans sameViews_flushShard
  · split
    · exact (hbytes _ _).trans sameViews_flushAllShards
    · exact hbytes _ _

theorem map_view_shard? : (state.shard? language index).map ShardWriteState.view
    = (state.viewsOf language).find? (fun view => view.shardIndex = index) := by
  rw [TableWriteState.viewsOf, List.find?_filter, List.find?_map, TableWriteState.shard?]
  congr 2
  funext shard
  simp only [Function.comp_apply, decide_eq_true_eq]
  rfl

end

/-! ## The open shard of a language -/

/-- The last shard of a language is open. -/
structure OpenShard (state : TableWriteState R) (language : String) (closed : List (ShardView R))
    (view : ShardView R) : Prop where
  views : state.viewsOf language = closed ++ [view]
  index_eq : view.shardIndex = closed.length
  index_ne : ∀ other ∈ closed, other.shardIndex ≠ closed.length
  current : state.current.lookup language = some closed.length
  next : (state.nextShardIndex.lookup language).getD 0 = closed.length + 1

/-- Nothing is changed but the shards of a language. -/
structure OnlyLanguage (language : String) (state state' : TableWriteState R) : Prop where
  views : ∀ other, other ≠ language → state'.viewsOf other = state.viewsOf other
  current : ∀ other, other ≠ language → state'.current.lookup other = state.current.lookup other
  next : ∀ other, other ≠ language →
    state'.nextShardIndex.lookup other = state.nextShardIndex.lookup other
  settled : Settled state → Settled state'

section

variable {state : TableWriteState R} {language : String} {closed : List (ShardView R)}
  {view : ShardView R} {f : ShardWriteState R → ShardWriteState R} {g : ShardView R → ShardView R}

theorem OnlyLanguage.trans {state' state'' : TableWriteState R}
    (h : OnlyLanguage language state state') (h' : OnlyLanguage language state' state'') :
    OnlyLanguage language state state'' :=
  ⟨fun o ho => (h'.views o ho).trans (h.views o ho),
    fun o ho => (h'.current o ho).trans (h.current o ho),
    fun o ho => (h'.next o ho).trans (h.next o ho), fun hs => h'.settled (h.settled hs)⟩

theorem SameViews.onlyLanguage {state' : TableWriteState R} (h : SameViews state state') :
    OnlyLanguage language state state' :=
  ⟨fun o _ => h.views o, fun _ _ => by rw [h.current], fun _ _ => by rw [h.next], h.settled⟩

variable (h : OpenShard state language closed view)

include h

theorem OpenShard.congr {state' : TableWriteState R}
    (hsame : SameViews state state') : OpenShard state' language closed view :=
  ⟨(hsame.views _).trans h.views, h.index_eq, h.index_ne, by rw [hsame.current, h.current],
    by rw [hsame.next, h.next]⟩

theorem OpenShard.shard? :
    (state.shard? language closed.length).map ShardWriteState.view = some view := by
  rw [map_view_shard?, h.views, List.find?_append]
  have hnone : closed.find? (fun view => view.shardIndex = closed.length) = none := by
    rw [List.find?_eq_none]
    intro other hother
    simpa using h.index_ne other hother
  rw [hnone, Option.none_or]
  exact List.find?_cons_of_pos (decide_eq_true h.index_eq)

theorem OpenShard.rowCount :
    ((state.shard? language closed.length).map ShardWriteState.rowCount).getD 0
      = view.rowCount := by
  obtain ⟨shard, hshard, hview⟩ := Option.map_eq_some_iff.mp h.shard?
  rw [hshard, ← hview]
  rfl

/-- **A change to the open shard.** -/
theorem OpenShard.update (hf : Keeps f) (hview : ∀ shard, (f shard).view = g shard.view)
    (hg : ∀ view, (g view).language = view.language ∧ (g view).shardIndex = view.shardIndex) :
    OpenShard (state.update language closed.length f) language closed (g view)
      ∧ OnlyLanguage language state (state.update language closed.length f) := by
  have hviews := viewsOf_update state language closed.length hview fun view => (hg view).1
  refine ⟨⟨?_, (hg view).2.trans h.index_eq, h.index_ne, h.current, h.next⟩,
    ⟨fun other hne => (hviews other).trans (if_neg hne), fun _ _ => rfl, fun _ _ => rfl,
      fun hs => hs.update hf (Or.inr h.current)⟩⟩
  have hclosed : closed.map (fun view => if view.shardIndex = closed.length then g view else view)
      = closed :=
    (List.map_congr_left fun other hother => if_neg (h.index_ne other hother)).trans
      (List.map_id closed)
  rw [hviews, if_pos rfl, h.views, List.map_append, hclosed, List.map_singleton, if_pos h.index_eq]

omit h

end

/-! ## The chunks of a language -/

/-- A row with the name of its file. -/
abbrev Tagged (R : Type) := String × R

/-- The shard of a chunk. -/
def shardView (m : CaseMapping) (context : TableWriteContext) (language : String) (index : Nat)
    (chunk : List (Tagged R)) : ShardView R where
  language := language
  shardIndex := index
  finalPath := outputPath m context.destination context.spec language index
    ((context.shardCounts.lookup language).getD 0)
  stagedPath := outputPath m context.stageRoot context.spec language index
    ((context.shardCounts.lookup language).getD 0)
  rowCount := chunk.length
  sourceFiles := (chunk.map Prod.fst).foldl recordSourceFile []
  rows := chunk.map Prod.snd

/-- The shards of the chunks. -/
def shardViews (m : CaseMapping) (context : TableWriteContext) (language : String)
    (rows : List (Tagged R)) : List (ShardView R) :=
  (chunks rows context.maxRowsPerShard).mapIdx (shardView m context language)

/-- The rows of a language are written: full shards, and an open one for the rows that are left. -/
inductive Written (m : CaseMapping) (context : TableWriteContext) (state : TableWriteState R)
    (language : String) (rows : List (Tagged R)) : Prop where
  | closed (hdvd : context.maxRowsPerShard ∣ rows.length)
      (hviews : state.viewsOf language = shardViews m context language rows)
      (hcurrent : state.current.lookup language = none)
      (hnext : (state.nextShardIndex.lookup language).getD 0
        = (chunks rows context.maxRowsPerShard).length)
  | open (front tail : List (Tagged R)) (hrows : rows = front ++ tail)
      (hdvd : context.maxRowsPerShard ∣ front.length) (hne : tail ≠ [])
      (hlt : tail.length < context.maxRowsPerShard)
      (hopen : OpenShard state language (shardViews m context language front)
        (shardView m context language (chunks front context.maxRowsPerShard).length tail))

section

variable {m} {context} {buffering} {state : TableWriteState R} {language : String}
  {front tail rows : List (Tagged R)}

variable (m context language rows) in
theorem length_shardViews : (shardViews m context language rows).length
    = (chunks rows context.maxRowsPerShard).length := List.length_mapIdx

variable (m language) in
theorem shardViews_concat (hdvd : context.maxRowsPerShard ∣ front.length) (hne : tail ≠ [])
    (hle : tail.length ≤ context.maxRowsPerShard) :
    shardViews m context language (front ++ tail) = shardViews m context language front
        ++ [shardView m context language (chunks front context.maxRowsPerShard).length tail] := by
  rw [shardViews, chunks_concat hdvd hne hle, List.mapIdx_append]
  simp [shardViews]

theorem Written.views (h : Written m context state language rows) :
    state.viewsOf language = shardViews m context language rows := by
  cases h with
  | closed _ hviews => exact hviews
  | «open» front tail hrows hdvd hne hlt hopen =>
    rw [hopen.views, hrows, shardViews_concat m language hdvd hne hlt.le]

theorem Written.congr {state' : TableWriteState R} (h : Written m context state language rows)
    (hviews : state'.viewsOf language = state.viewsOf language)
    (hcurrent : state'.current.lookup language = state.current.lookup language)
    (hnext : state'.nextShardIndex.lookup language = state.nextShardIndex.lookup language) :
    Written m context state' language rows := by
  cases h with
  | closed hdvd hviews' hcurrent' hnext' =>
    exact .closed hdvd (hviews.trans hviews') (hcurrent.trans hcurrent') (by rw [hnext, hnext'])
  | «open» front tail hrows hdvd hne hlt hopen =>
    exact .open front tail hrows hdvd hne hlt ⟨hviews.trans hopen.views, hopen.index_eq,
      hopen.index_ne, hcurrent.trans hopen.current, by rw [hnext, hopen.next]⟩

theorem index_of_mem_shardViews {view : ShardView R}
    (h : view ∈ shardViews m context language rows) :
    view.shardIndex < (shardViews m context language rows).length := by
  obtain ⟨i, hi, rfl⟩ := List.mem_mapIdx.mp h
  rw [length_shardViews]
  exact hi

/-- **There is an open shard to write to.** -/
theorem writerForLanguage_spec (hmax : 0 < context.maxRowsPerShard)
    (hcount : (context.shardCounts.lookup language).isSome = true)
    (h : Written m context state language rows) :
    ∃ state' front tail, writerForLanguage m context state language
        = .ok (state', (shardViews m context language front).length)
      ∧ rows = front ++ tail ∧ context.maxRowsPerShard ∣ front.length
      ∧ tail.length < context.maxRowsPerShard
      ∧ OpenShard state' language (shardViews m context language front)
        (shardView m context language (chunks front context.maxRowsPerShard).length tail)
      ∧ OnlyLanguage language state state' := by
  unfold writerForLanguage
  cases h with
  | «open» front tail hrows hdvd hne hlt hopen =>
    refine ⟨state, front, tail, ?_, hrows, hdvd, hlt, hopen,
      ⟨fun _ _ => rfl, fun _ _ => rfl, fun _ _ => rfl, id⟩⟩
    rw [hopen.current]
  | closed hdvd hviews hcurrent hnext =>
    obtain ⟨count, hcount⟩ := Option.isSome_iff_exists.mp hcount
    rw [hcurrent]
    dsimp only
    rw [hcount, hnext]
    have hnew : ShardWriteState.view (R := R) (newShard m context language
        (chunks rows context.maxRowsPerShard).length count)
          = shardView m context language (chunks rows context.maxRowsPerShard).length [] := by
      simp [newShard, ShardWriteState.view, shardView, hcount]
    have hviews' : ∀ other, ((state.shards ++ [newShard m context language
        (chunks rows context.maxRowsPerShard).length count]).map ShardWriteState.view).filter
          (fun view => view.language = other)
        = state.viewsOf other ++ if language = other then [shardView m context language
            (chunks rows context.maxRowsPerShard).length []] else [] := by
      intro other
      rw [List.map_append, List.filter_append, List.map_singleton, hnew]
      by_cases h : language = other <;> simp [h, TableWriteState.viewsOf, shardView]
    refine ⟨_, rows, [], by rw [length_shardViews], (List.append_nil rows).symm, hdvd, hmax,
      ⟨?_, ?_, ?_, ?_, ?_⟩, ⟨?_, ?_, ?_, ?_⟩⟩
    · exact (hviews' language).trans (by rw [if_pos rfl, hviews])
    · exact (length_shardViews m context language rows).symm
    · exact fun other hother => (index_of_mem_shardViews hother).ne
    · exact (Dict.lookup_put _ _ _ _).trans (by rw [if_pos rfl, length_shardViews])
    · rw [Dict.lookup_put, if_pos rfl, length_shardViews]
      rfl
    · exact fun other hne => (hviews' other).trans (by rw [if_neg (Ne.symm hne), List.append_nil])
    · exact fun other hne => (Dict.lookup_put _ _ _ _).trans (if_neg hne)
    · exact fun other hne => (Dict.lookup_put _ _ _ _).trans (if_neg hne)
    · -- a shard with rows in its buffer is open, and no shard of the language is
      intro hsettled shard hshard
      rcases List.mem_append.mp hshard with hshard | hshard
      · refine (hsettled shard hshard).imp id fun hopen => ?_
        refine (Dict.lookup_put _ _ _ _).trans ?_
        have hne : shard.language ≠ language := by
          rintro heq
          rw [heq, hcurrent] at hopen
          cases hopen
        rw [if_neg hne, hopen]
      · rw [List.mem_singleton.mp hshard]
        exact Or.inl rfl

theorem recordSourceFile_self (files : List String) (file : String) :
    recordSourceFile (recordSourceFile files file) file = recordSourceFile files file := by
  unfold recordSourceFile
  split
  · rfl
  · exact if_pos (by simp)

theorem foldl_recordSourceFile {part : List R} (hne : part ≠ []) (files : List String)
    (file : String) :
    (part.map (fun _ => file)).foldl recordSourceFile files = recordSourceFile files file := by
  induction part generalizing files with
  | nil => exact absurd rfl hne
  | cons row part ih =>
    rw [List.map_cons, List.foldl_cons]
    by_cases hpart : part = []
    · rw [hpart]
      rfl
    · rw [ih hpart, recordSourceFile_self]

theorem lookup_filter_ne (entries : List (String × Nat)) (language other : String) :
    (entries.filter (fun entry => entry.1 ≠ language)).lookup other
      = if other = language then none else entries.lookup other := by
  induction entries with
  | nil => simp
  | cons entry entries ih =>
    obtain ⟨key, index⟩ := entry
    rw [List.filter_cons, Dict.lookup_cons_eq_ite]
    split
    · rename_i hkey
      have hkey : key ≠ language := of_decide_eq_true hkey
      rw [Dict.lookup_cons_eq_ite, ih]
      by_cases h : other = key
      · rw [if_pos h, if_pos h, if_neg (fun heq => hkey (h.symm.trans heq))]
      · rw [if_neg h, if_neg h]
    · rename_i hkey
      have hkey : key = language := by simpa using hkey
      rw [ih]
      split
      · rfl
      · rename_i hother
        rw [if_neg (fun heq => hother (heq.trans hkey))]

theorem closeShard_settled {closed : List (ShardView R)} {view : ShardView R}
    (h : OpenShard state language closed view) (hsettled : Settled state) :
    Settled (closeShard state language closed.length) := by
  intro shard hshard
  obtain ⟨before, hbefore, rfl⟩ := List.mem_map.mp hshard
  by_cases hmatch : before.language = language ∧ before.shardIndex = closed.length
  · rw [if_pos hmatch]
    exact Or.inl (pending_flush before)
  · rw [if_neg hmatch]
    refine (hsettled before hbefore).imp id fun hcurrent => ?_
    have hne : before.language ≠ language := by
      intro heq
      rw [heq, h.current] at hcurrent
      exact hmatch ⟨heq, (Option.some.inj hcurrent).symm⟩
    exact (lookup_filter_ne _ _ _).trans ((if_neg hne).trans hcurrent)

/-- **A full shard is closed**, and its buffer is written. -/
theorem closeFullShard_spec (hdvd : context.maxRowsPerShard ∣ front.length) (hne : tail ≠ [])
    (hle : tail.length ≤ context.maxRowsPerShard)
    (h : OpenShard state language (shardViews m context language front)
      (shardView m context language (chunks front context.maxRowsPerShard).length tail)) :
    Written m context
        (closeFullShard context state language (shardViews m context language front).length) language
        (front ++ tail)
      ∧ OnlyLanguage language state
        (closeFullShard context state language (shardViews m context language front).length) := by
  by_cases hfull : tail.length = context.maxRowsPerShard
  · have hclose : closeFullShard context state language (shardViews m context language front).length
        = closeShard state language (shardViews m context language front).length :=
      if_pos (h.rowCount.trans hfull)
    rw [hclose]
    refine ⟨.closed ?_ ?_ ?_ ?_, ⟨?_, ?_, fun _ _ => rfl, closeShard_settled h⟩⟩
    · rw [List.length_append, hfull]
      exact dvd_add hdvd (dvd_refl _)
    · rw [shardViews_concat m language hdvd hne hle, ← h.views]
      exact viewsOf_flushShard language
    · exact (lookup_filter_ne _ _ _).trans (if_pos rfl)
    · rw [chunks_concat hdvd hne hle, List.length_append, List.length_singleton,
        ← length_shardViews m context language]
      exact h.next
    · exact fun other _ => viewsOf_flushShard other
    · exact fun other hother => (lookup_filter_ne _ _ _).trans (if_neg hother)
  · have hkeep : closeFullShard context state language (shardViews m context language front).length
        = state := if_neg fun heq => hfull (h.rowCount.symm.trans heq)
    rw [hkeep]
    exact ⟨.open front tail rfl hdvd hne (lt_of_le_of_ne hle hfull) h,
      ⟨fun _ _ => rfl, fun _ _ => rfl, fun _ _ => rfl, id⟩⟩

variable (m context language tail) in
theorem shardView_append (index : Nat) {part : List R} (hne : part ≠ []) (file : String) :
    shardView m context language index (tail ++ part.map (fun row => (file, row)))
      = { shardView m context language index tail with
          rowCount := tail.length + part.length,
          sourceFiles := recordSourceFile (shardView m context language index tail).sourceFiles file,
          rows := (shardView m context language index tail).rows ++ part } := by
  simp only [shardView, List.length_append, List.length_map, List.map_append, List.map_map,
    List.foldl_append, Function.comp_def, foldl_recordSourceFile hne, List.map_id']

variable (buffering) in
theorem writeSlice_spec (hdvd : context.maxRowsPerShard ∣ front.length)
    (hlt : tail.length < context.maxRowsPerShard)
    (h : OpenShard state language (shardViews m context language front)
      (shardView m context language (chunks front context.maxRowsPerShard).length tail))
    (batch : List R) (sourceFile : String) {indices : List Nat}
    (hindices : ∀ i ∈ indices, i < batch.length) (hne : indices ≠ []) :
    ∃ count state', writeSlice context buffering batch language sourceFile indices state
        (shardViews m context language front).length = (count, state')
      ∧ 0 < count
      ∧ Written m context state' language
        (front ++ tail ++ (takeRows batch (indices.take count)).map (fun row => (sourceFile, row)))
      ∧ OnlyLanguage language state state' := by
  have hpositive := List.length_pos_of_ne_nil hne
  -- the file is recorded
  obtain ⟨hopen₁, honly₁⟩ := h.update
    (f := fun shard => { shard with sourceFiles := recordSourceFile shard.sourceFiles sourceFile })
    (g := fun view => { view with sourceFiles := recordSourceFile view.sourceFiles sourceFile })
    (fun _ => ⟨rfl, rfl⟩) (fun _ => rfl) (fun _ => ⟨rfl, rfl⟩)
  generalize hstate₁ : state.update language (shardViews m context language front).length
    (fun shard => { shard with sourceFiles := recordSourceFile shard.sourceFiles sourceFile })
      = state₁ at hopen₁ honly₁
  have hrowCount : ((state₁.shard? language (shardViews m context language front).length).map
      ShardWriteState.rowCount).getD 0 = tail.length := hopen₁.rowCount
  generalize hcount : min (context.maxRowsPerShard - tail.length) indices.length = count
  have hpart : (takeRows batch (indices.take count)).length = count := by
    rw [length_takeRows fun i hi => hindices i (List.mem_of_mem_take hi), List.length_take]
    omega
  have hslice : writeSlice context buffering batch language sourceFile indices state
      (shardViews m context language front).length
        = (count, closeFullShard context ((bufferRows buffering state₁ language
            (shardViews m context language front).length (takeRows batch (indices.take count))).update
              language (shardViews m context language front).length
              (fun shard => { shard with rowCount := shard.rowCount + count }))
            language (shardViews m context language front).length) := by
    unfold writeSlice
    dsimp only
    rw [hstate₁, hrowCount, hcount]
  generalize hpartEq : takeRows batch (indices.take count) = part at hpart hslice
  -- the rows are buffered
  obtain ⟨hopen₂, honly₂⟩ := hopen₁.update
    (f := fun shard => { shard with
      pending := shard.pending ++ [part],
      pendingBytes := shard.pendingBytes + buffering.nbytes part })
    (g := fun view => { view with rows := view.rows ++ part })
    (fun _ => ⟨rfl, rfl⟩) (fun _ => by simp [ShardWriteState.view]) (fun _ => ⟨rfl, rfl⟩)
  have hsame := bufferRows_spec state₁ language (shardViews m context language front).length
    buffering part
  -- and counted
  obtain ⟨hopen₃, honly₃⟩ := (hopen₂.congr hsame).update
    (f := fun shard => { shard with rowCount := shard.rowCount + count })
    (g := fun view => { view with rowCount := view.rowCount + count })
    (fun _ => ⟨rfl, rfl⟩) (fun _ => rfl) (fun _ => ⟨rfl, rfl⟩)
  have hpartNe : part ≠ [] := by
    rw [← List.length_pos_iff, hpart]
    omega
  have hview := shardView_append m context language tail
    (chunks front context.maxRowsPerShard).length hpartNe sourceFile
  rw [hpart] at hview
  have htail : (tail ++ part.map (fun row => (sourceFile, row))).length
      ≤ context.maxRowsPerShard := by
    rw [List.length_append, List.length_map, hpart]
    omega
  obtain ⟨hwritten, honly₄⟩ := closeFullShard_spec hdvd (by simp [hpartNe]) htail (hview ▸ hopen₃)
  refine ⟨count, _, hslice, by omega, ?_, ?_⟩
  · rw [List.append_assoc, hpartEq]
    exact hwritten
  · exact honly₁.trans (honly₂.trans (hsame.onlyLanguage.trans (honly₃.trans honly₄)))

variable (buffering) in
/-- **The loop ends**, with all rows written. -/
theorem writeLanguageIndices_spec (hmax : 0 < context.maxRowsPerShard)
    (hcount : (context.shardCounts.lookup language).isSome = true) (batch : List R)
    (sourceFile : String) {fuel : Nat} {indices : List Nat} (hfuel : indices.length ≤ fuel)
    (hindices : ∀ i ∈ indices, i < batch.length) (h : Written m context state language rows) :
    ∃ state', writeLanguageIndices m context buffering batch language sourceFile fuel indices state
        = .ok state'
      ∧ Written m context state' language
        (rows ++ (takeRows batch indices).map (fun row => (sourceFile, row)))
      ∧ OnlyLanguage language state state' := by
  induction fuel generalizing indices state rows with
  | zero =>
    obtain rfl : indices = [] := List.eq_nil_of_length_eq_zero (by omega)
    refine ⟨state, by rw [writeLanguageIndices], ?_, ⟨fun _ _ => rfl, fun _ _ => rfl,
      fun _ _ => rfl, id⟩⟩
    simpa [takeRows] using h
  | succ fuel ih =>
    cases indices with
    | nil =>
      refine ⟨state, rfl, ?_, ⟨fun _ _ => rfl, fun _ _ => rfl, fun _ _ => rfl, id⟩⟩
      simpa [takeRows] using h
    | cons i indices =>
      obtain ⟨state₀, front, tail, hwriter, rfl, hdvd, hlt, hopen, honly₀⟩ :=
        writerForLanguage_spec hmax hcount h
      obtain ⟨count, state₁, hslice, hpositive, hwritten₁, honly₁⟩ := writeSlice_spec
        buffering hdvd hlt hopen batch sourceFile hindices (List.cons_ne_nil i indices)
      have hfuel' : ((i :: indices).drop count).length ≤ fuel := by
        rw [List.length_drop]
        omega
      obtain ⟨state', hrest, hwritten', honly'⟩ := ih hfuel'
        (fun j hj => hindices j (List.mem_of_mem_drop hj)) hwritten₁
      have hturn : writeTurn m context buffering batch language sourceFile (i :: indices) state
          = .ok (count, state₁) := by
        unfold writeTurn
        rw [hwriter]
        exact congrArg Except.ok hslice
      refine ⟨state', ?_, ?_, honly₀.trans (honly₁.trans honly')⟩
      · rw [writeLanguageIndices, hturn]
        exact hrest
      · -- the rows of the turn and those of the turns after it
        have htake : takeRows batch ((i :: indices).take count)
            ++ takeRows batch ((i :: indices).drop count) = takeRows batch (i :: indices) := by
          rw [takeRows, takeRows, ← List.filterMap_append, List.take_append_drop]
          rfl
        rwa [List.append_assoc, ← List.map_append, htake] at hwritten'

end

/-! ## Writing a table -/

/-- The rows that went to the languages are written. -/
structure Routed (m : CaseMapping) (context : TableWriteContext) (state : TableWriteState R)
    (routed : String → List (Tagged R)) : Prop where
  written : ∀ language, Written m context state language (routed language)
  settled : Settled state

/-- The rows of a language, with the names of their files. -/
def taggedRowsOf (scanner : Scanner R) (rows : List (Tagged R)) (language : String) :
    List (Tagged R) :=
  rows.filter (fun row => scanner.partitionOfRow row.2 = language)

variable {scanner : Scanner R} {context} {buffering}

theorem routed_nil (m : CaseMapping) (hmax : 0 < context.maxRowsPerShard) :
    Routed m context (⟨[], [], [], 0⟩ : TableWriteState R) (fun _ => []) where
  written := fun language => .closed (dvd_zero _) (by rw [shardViews, chunks_nil hmax]; rfl) rfl
    (by rw [chunks_nil hmax]; rfl)
  settled := fun shard hshard => by cases hshard

/-- **One language of a batch.** -/
theorem writeGroup_spec (hmax : 0 < context.maxRowsPerShard) {batch : List R} (sourceFile : String)
    {group : String × List Nat} (hgroup : ∀ i ∈ group.2, i < batch.length)
    (hcount : (context.shardCounts.lookup group.1).isSome = true) {state : TableWriteState R}
    {routed : String → List (Tagged R)} (h : Routed scanner.m context state routed) :
    ∃ state', writeGroup context buffering scanner sourceFile batch state group = .ok state'
      ∧ Routed scanner.m context state' (fun language =>
          routed language ++ (groupRows batch group language).map (fun row => (sourceFile, row))) := by
  obtain ⟨state', hloop, hwritten, honly⟩ := writeLanguageIndices_spec buffering hmax hcount
     batch sourceFile (le_refl _) hgroup (h.written group.1)
  refine ⟨state', hloop, fun language => ?_, honly.settled h.settled⟩
  unfold groupRows
  by_cases heq : language = group.1
  · rw [if_pos heq, heq]
    exact hwritten
  · rw [if_neg heq, List.map_nil, List.append_nil]
    exact (h.written language).congr (honly.views language heq) (honly.current language heq)
      (honly.next language heq)

/-- **One batch.** -/
theorem writeBatch_spec (hlawful : scanner.Lawful) (hmax : 0 < context.maxRowsPerShard)
    (sourceFile : String) {batch : List R}
    (hcounts : ∀ row ∈ batch,
      (context.shardCounts.lookup (scanner.partitionOfRow row)).isSome = true)
    {state : TableWriteState R} {rows : List (Tagged R)}
    (h : Routed scanner.m context state (taggedRowsOf scanner rows)) :
    ∃ state', writeBatch context buffering scanner sourceFile state batch = .ok state'
      ∧ Routed scanner.m context state' (taggedRowsOf scanner
          (rows ++ batch.map (fun row => (sourceFile, row)))) := by
  obtain ⟨groups, hgroups, hspec⟩ := partitionRowIndices_eq hlawful.arrow
    (batch.map scanner.languageOf)
  have hnames : groups = groupPositions (batch.map scanner.partitionOfRow) := by
    rw [hspec.eq_group, List.map_map]
    rfl
  have hstep : ∀ group ∈ groups, ∀ s routed, Routed scanner.m context s routed →
      ∃ s', writeGroup context buffering scanner sourceFile batch s group = .ok s'
        ∧ Routed scanner.m context s' (fun language => routed language
            ++ (groupRows batch group language).map (fun row => (sourceFile, row))) := by
    intro group hgroup s routed hs
    rw [hnames] at hgroup
    have hpositions : ∀ i ∈ group.2, i < batch.length := by
      intro i hi
      obtain ⟨name, positions⟩ := group
      obtain ⟨rfl, -⟩ := mem_group_iff.mp hgroup
      simpa using lt_length_of_mem_valuesOf hi
    have hname : group.1 ∈ batch.map scanner.partitionOfRow := by
      have hkeys := keys_group (batch.map scanner.partitionOfRow).zipIdx
      rw [List.zipIdx_map_fst] at hkeys
      rw [← List.mem_eraseDups, ← hkeys]
      exact List.mem_map_of_mem hgroup
    obtain ⟨row, hrow, hpartition⟩ := List.mem_map.mp hname
    exact writeGroup_spec hmax sourceFile hpositions (hpartition ▸ hcounts row hrow) hs
  obtain ⟨state', hfold, hrouted⟩ := foldlM_adds hstep h
  refine ⟨state', ?_, ?_⟩
  · unfold writeBatch
    rw [hgroups]
    exact hfold
  · -- the groups route the rows of the batch
    have hadds : ∀ language, taggedRowsOf scanner rows language
        ++ groups.flatMap (fun group =>
          (groupRows batch group language).map (fun row => (sourceFile, row)))
          = taggedRowsOf scanner (rows ++ batch.map (fun row => (sourceFile, row))) language := by
      intro language
      rw [← List.map_flatMap, flatMap_groupRows scanner.partitionOfRow batch (hnames ▸ .refl _),
        taggedRowsOf, taggedRowsOf, List.filter_append, List.filter_map]
      rfl
    rwa [funext hadds] at hrouted

/-- The rows of the files, with the names of the files. -/
def taggedRowsOfFiles (files : List (String × List R)) : List (Tagged R) :=
  files.flatMap (fun file => file.2.map (fun row => (file.1, row)))

theorem streamSourceFile_spec (hlawful : scanner.Lawful) (hmax : 0 < context.maxRowsPerShard)
    {batchSize : Nat} (hsize : 1 ≤ batchSize) {file : String × List R}
    (hcounts : ∀ row ∈ file.2,
      (context.shardCounts.lookup (scanner.partitionOfRow row)).isSome = true)
    {state : TableWriteState R} {rows : List (Tagged R)}
    (h : Routed scanner.m context state (taggedRowsOf scanner rows)) :
    ∃ state', streamSourceFile context buffering scanner batchSize state file = .ok state'
      ∧ Routed scanner.m context state' (taggedRowsOf scanner
          (rows ++ file.2.map (fun row => (file.1, row)))) := by
  have hflatten := hlawful.reader.flatten batchSize hsize file.2
  have hstep : ∀ batch ∈ scanner.reader.iterBatches batchSize file.2, ∀ s rows,
      Routed scanner.m context s (taggedRowsOf scanner rows) →
        ∃ s', writeBatch context buffering scanner file.1 s batch = .ok s'
          ∧ Routed scanner.m context s' (taggedRowsOf scanner
              (rows ++ batch.map (fun row => (file.1, row)))) := by
    intro batch hbatch s rows hs
    refine writeBatch_spec hlawful hmax file.1 (fun row hrow => hcounts row ?_) hs
    rw [← hflatten]
    exact List.mem_flatten.mpr ⟨batch, hbatch, hrow⟩
  obtain ⟨state', hfold, hrouted⟩ := foldlM_reads hstep h
  refine ⟨state', hfold, ?_⟩
  rwa [← List.map_flatMap, List.flatMap_id', hflatten] at hrouted

theorem settled_flushAllShards {state : TableWriteState R} (h : Settled state) :
    ∀ shard ∈ (flushAllShards state).shards, shard.pending = [] := by
  have hfold : ∀ (entries : List (String × Nat)) (state : TableWriteState R),
      (∀ shard ∈ state.shards, shard.pending = [] ∨ (shard.language, shard.shardIndex) ∈ entries) →
      ∀ shard ∈ (entries.foldl (fun state entry => flushShard state entry.1 entry.2) state).shards,
        shard.pending = [] := by
    intro entries
    induction entries with
    | nil =>
      intro state hstate shard hshard
      simpa using hstate shard hshard
    | cons entry entries ih =>
      intro state hstate
      refine ih (flushShard state entry.1 entry.2) fun shard hshard => ?_
      obtain ⟨before, hbefore, rfl⟩ := List.mem_map.mp hshard
      by_cases hmatch : before.language = entry.1 ∧ before.shardIndex = entry.2
      · rw [if_pos hmatch]
        exact Or.inl (pending_flush before)
      · rw [if_neg hmatch]
        refine (hstate before hbefore).imp id fun hmem => ?_
        refine (List.mem_cons.mp hmem).resolve_left ?_
        rintro rfl
        exact hmatch ⟨rfl, rfl⟩
  refine hfold state.current state fun shard hshard => (h shard hshard).imp id fun hcurrent => ?_
  exact mem_of_lookup_eq_some hcurrent

variable (buffering) in
/-- **The whole pass over a table.** -/
theorem streamSources_spec (hlawful : scanner.Lawful) (hmax : 0 < context.maxRowsPerShard)
    {batchSize : Nat} (hsize : 1 ≤ batchSize) {files : List (String × List R)}
    (hcounts : ∀ row ∈ rowsOfFiles files,
      (context.shardCounts.lookup (scanner.partitionOfRow row)).isSome = true) :
    ∃ state, streamSources context buffering scanner batchSize files = .ok state
      ∧ (∀ language, state.viewsOf language = shardViews scanner.m context language
            (taggedRowsOf scanner (taggedRowsOfFiles files) language))
      ∧ ∀ shard ∈ state.shards, shard.written = shard.view.rows := by
  have hstep : ∀ file ∈ files, ∀ s rows, Routed scanner.m context s (taggedRowsOf scanner rows) →
      ∃ s', streamSourceFile context buffering scanner batchSize s file = .ok s'
        ∧ Routed scanner.m context s' (taggedRowsOf scanner
            (rows ++ file.2.map (fun row => (file.1, row)))) := by
    intro file hfile s rows hs
    exact streamSourceFile_spec hlawful hmax hsize
      (fun row hrow => hcounts row (List.mem_flatMap.mpr ⟨file, hfile, hrow⟩)) hs
  have hstart : Routed scanner.m context ⟨[], [], [], 0⟩ (taggedRowsOf scanner []) :=
    routed_nil scanner.m hmax
  obtain ⟨state, hfold, hrouted⟩ := foldlM_reads hstep hstart
  rw [List.nil_append] at hrouted
  have hsame : SameViews state (flushAllShards state) := sameViews_flushAllShards
  refine ⟨flushAllShards state, ?_, fun language => ?_, fun shard hshard => ?_⟩
  · unfold streamSources
    rw [hfold]
    rfl
  · exact (hsame.views language).trans (hrouted.written language).views
  · show shard.written = shard.written ++ shard.pending.flatten
    rw [settled_flushAllShards hrouted.settled shard hshard]
    simp

end OsmPolygonWikidata.LanguageSplits.V2Splits
