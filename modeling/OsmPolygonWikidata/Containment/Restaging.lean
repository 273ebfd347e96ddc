import OsmPolygonWikidata.Containment.Idempotence

/-! # Auditing and staging a partly merged parent

An interrupted run leaves a parent some of whose tables are merged. Its audit is as safe as before,
and staging gives the files of the first run, provided that the snapshots can be compared.
-/

namespace OsmPolygonWikidata.Containment

open Python

variable {X C J : Type}

/-- Parquet files are read as they were written. -/
def RoundTrips (rt : Runtime X C J) : Prop :=
  ∀ table file, rt.encode table = .ok file → rt.decode file = .ok table

theorem mapM_eq_some_iff {A B : Type} {f : A → Option B} {xs : List A} {ys : List B} :
    xs.mapM f = some ys ↔ xs.map f = ys.map some := by
  induction xs generalizing ys with
  | nil => cases ys <;> simp
  | cons x xs ih =>
    rw [List.mapM_cons, List.map_cons]
    cases hx : f x with
    | none =>
      constructor
      · intro h
        cases h
      · intro h
        cases ys <;> simp at h
    | some y =>
      cases hxs : xs.mapM f with
      | none =>
        constructor
        · intro h
          cases h
        · intro h
          cases ys with
          | nil => simp at h
          | cons z zs =>
            rw [List.map_cons, List.cons.injEq] at h
            rw [ih.mpr h.2] at hxs
            cases hxs
      | some zs =>
        rw [ih.mp hxs]
        constructor
        · intro h
          cases h
          rfl
        · intro h
          rw [← List.map_cons] at h
          rw [← (List.map_injective_iff.mpr (Option.some_injective B)) h]
          rfl

/-! ## What a safe audit says -/

section

/-- The parent's table and the children's have one schema and distinct identities. -/
structure AuditedTable (rt : Runtime X C J) (tables : Tables C) (parent : String)
    (children : List String) (contract : TableContract) (table : Table X)
    (ids : List (List (Value X))) : Prop where
  read : readTable rt (tables contract.subdir parent) = .ok table
  identities : table.rows.mapM (identity contract.identityColumns) = some ids
  nodup : ids.Nodup
  children : ∀ child ∈ children, ∃ childTable childIds,
    readTable rt (tables contract.subdir child) = .ok childTable
    ∧ childTable.schema = table.schema
    ∧ childTable.rows.mapM (identity contract.identityColumns) = some childIds ∧ childIds.Nodup

def Audited (rt : Runtime X C J) (tables : Tables C) (parent : String) (children : List String) :
    Prop :=
  ∀ contract ∈ tableContracts, ∃ table ids, AuditedTable rt tables parent children contract table ids

variable [DecidableEq X] {rt : Runtime X C J} {tables : Tables C} {contract : TableContract}
  {parent child : String}

omit [DecidableEq X] in
theorem Audited.polygons {children : List String} (h : Audited rt tables parent children) :
    ∃ table ids, AuditedTable rt tables parent children ⟨.polygons, ["osm_type", "osm_id"]⟩
      table ids := h _ (by decide)

theorem identitySet_eq_ok {table : Table X} {ids : List (List (Value X))} {duplicates : Nat} :
    identitySet table contract = .ok (ids, duplicates)
      ↔ ∃ all, table.rows.mapM (identity contract.identityColumns) = some all ∧ ids = all.dedup
        ∧ duplicates = all.length - all.dedup.length := by
  unfold identitySet
  cases hall : table.rows.mapM (identity contract.identityColumns) with
  | none =>
    constructor
    · intro h
      cases h
    · rintro ⟨all, h, -⟩
      cases h
  | some all =>
    have hlength : table.rows.length = all.length := by
      have hmap := congrArg List.length (mapM_eq_some_iff.mp hall)
      simpa using hmap
    constructor
    · intro h
      cases h
      exact ⟨all, rfl, rfl, by rw [hlength]⟩
    · rintro ⟨all', h, rfl, rfl⟩
      cases h
      show Except.ok (all.dedup, table.rows.length - all.dedup.length) = _
      rw [hlength]

theorem duplicates_eq_zero {A : Type} [DecidableEq A] {xs : List A} :
    xs.length - xs.dedup.length = 0 ↔ xs.Nodup := by
  have hle := xs.dedup_sublist.length_le
  rw [Nat.sub_eq_zero_iff_le]
  constructor
  · intro h
    exact List.dedup_eq_self.mp (xs.dedup_sublist.eq_of_length (le_antisymm hle h))
  · intro h
    rw [List.dedup_eq_self.mpr h]

theorem duplicateBlockers_eq_nil {subdir : Subdir} {m n : Nat} :
    duplicateBlockers child subdir m n = [] ↔ m = 0 ∧ n = 0 := by
  unfold duplicateBlockers
  rw [List.append_eq_nil_iff]
  refine and_congr ?_ ?_
  · by_cases hm : m = 0
    · simp [hm]
    · simp [hm]
  · by_cases hn : n = 0
    · simp [hn]
    · simp [hn]

/-- Two tables that are readable, have one schema and distinct identities. -/
def Compatible (rt : Runtime X C J) (contract : TableContract) (parentFile childFile : Option C) :
    Prop :=
  ∃ table ids childTable childIds, readTable rt parentFile = .ok table
    ∧ table.rows.mapM (identity contract.identityColumns) = some ids ∧ ids.Nodup
    ∧ readTable rt childFile = .ok childTable ∧ childTable.schema = table.schema
    ∧ childTable.rows.mapM (identity contract.identityColumns) = some childIds ∧ childIds.Nodup

theorem comparePresent_safe {parentFile childFile : C} :
    (∃ audit, comparePresent rt contract child parentFile childFile = .ok (audit, []))
      ↔ Compatible rt contract (some parentFile) (some childFile) := by
  unfold comparePresent
  constructor
  · rintro ⟨audit, h⟩
    obtain ⟨table, htable, h⟩ := bind_eq_ok.mp h
    obtain ⟨childTable, hchild, h⟩ := bind_eq_ok.mp h
    split at h
    · cases h
    · rename_i hschema
      obtain ⟨⟨ids, duplicates⟩, hids, h⟩ := bind_eq_ok.mp h
      obtain ⟨⟨childIds, childDuplicates⟩, hchildIds, h⟩ := bind_eq_ok.mp h
      obtain ⟨all, hall, rfl, rfl⟩ := identitySet_eq_ok.mp hids
      obtain ⟨childAll, hchildAll, rfl, rfl⟩ := identitySet_eq_ok.mp hchildIds
      have hblockers := (Prod.mk.inj (Except.ok.inj h)).2
      obtain ⟨hzero, hzero'⟩ := duplicateBlockers_eq_nil.mp hblockers
      exact ⟨table, all, childTable, childAll, htable, hall, duplicates_eq_zero.mp hzero, hchild,
        (not_not.mp hschema).symm, hchildAll, duplicates_eq_zero.mp hzero'⟩
  · rintro ⟨table, all, childTable, childAll, htable, hall, hnodup, hchild, hschema, hchildAll,
      hchildNodup⟩
    refine ⟨⟨contract.subdir, childAll.dedup.length,
      (childAll.dedup.filter (fun i => i ∉ all.dedup)).length, 0, 0⟩, ?_⟩
    rw [htable]
    refine bind_eq_ok.mpr ⟨table, rfl, ?_⟩
    rw [hchild]
    refine bind_eq_ok.mpr ⟨childTable, rfl, ?_⟩
    rw [if_neg (not_not.mpr hschema.symm)]
    refine bind_eq_ok.mpr ⟨_, identitySet_eq_ok.mpr ⟨all, hall, rfl, rfl⟩, ?_⟩
    refine bind_eq_ok.mpr ⟨_, identitySet_eq_ok.mpr ⟨childAll, hchildAll, rfl, rfl⟩, ?_⟩
    show Except.ok (_, duplicateBlockers _ _ _ _) = _
    rw [duplicates_eq_zero.mpr hnodup, duplicates_eq_zero.mpr hchildNodup,
      duplicateBlockers_eq_nil.mpr ⟨rfl, rfl⟩]

/-- **A table of a child has no blocker** exactly when it is compatible with the parent's. -/
theorem auditContract_safe : (auditContract rt tables contract parent child).2 = []
      ↔ Compatible rt contract (tables contract.subdir parent) (tables contract.subdir child) := by
  unfold auditContract
  cases tables contract.subdir parent with
  | none =>
    constructor
    · intro h
      simp at h
    · rintro ⟨_, _, _, _, h, -⟩
      cases h
  | some parentFile =>
    cases tables contract.subdir child with
    | none =>
      constructor
      · intro h
        simp at h
      · rintro ⟨_, _, _, _, -, -, -, h, -⟩
        cases h
    | some childFile =>
      rw [← comparePresent_safe]
      show (auditPresentContract rt contract child parentFile childFile).2 = [] ↔ _
      unfold auditPresentContract
      cases comparePresent rt contract child parentFile childFile with
      | error e => simp
      | ok result =>
        constructor
        · intro h
          exact ⟨result.1, congrArg Except.ok (Prod.ext rfl h)⟩
        · rintro ⟨audit, h⟩
          cases h
          rfl

theorem sorted_perm (xs : List String) : (sorted xs).Perm xs := List.perm_insertionSort _ _

theorem mapM_validateStem {stems stems' : List String} (h : stems.mapM validateStem = .ok stems') :
    stems' = stems := by
  induction stems generalizing stems' with
  | nil =>
    cases h
    rfl
  | cons stem stems ih =>
    rw [List.mapM_cons] at h
    obtain ⟨stem', hstem, h⟩ := bind_eq_ok.mp h
    obtain ⟨rest, hrest, h⟩ := bind_eq_ok.mp h
    cases h
    have hsame : stem' = stem := by
      unfold validateStem at hstem
      split at hstem
      · cases hstem
        rfl
      · cases hstem
    rw [hsame, ih hrest]

theorem sorted_eq_nil {xs : List String} : sorted xs = [] ↔ xs = [] := by
  constructor
  · intro h
    exact List.nil_perm.mp (h ▸ sorted_perm xs)
  · rintro rfl
    rfl

omit [DecidableEq X] in
theorem audited_iff {children : List String} (hchildren : children ≠ []) :
    Audited rt tables parent children ↔ ∀ child ∈ children, ∀ contract ∈ tableContracts,
      Compatible rt contract (tables contract.subdir parent) (tables contract.subdir child) := by
  constructor
  · intro h child hchild contract hcontract
    obtain ⟨table, ids, haudited⟩ := h contract hcontract
    obtain ⟨childTable, childIds, hread, hschema, hids, hnodup⟩ := haudited.children child hchild
    exact ⟨table, ids, childTable, childIds, haudited.read, haudited.identities, haudited.nodup,
      hread, hschema, hids, hnodup⟩
  · intro h contract hcontract
    obtain ⟨first, hfirst⟩ := List.exists_mem_of_ne_nil _ hchildren
    obtain ⟨table, ids, -, -, hread, hids, hnodup, -⟩ := h first hfirst contract hcontract
    refine ⟨table, ids, hread, hids, hnodup, ?_⟩
    intro child hchild
    obtain ⟨table', -, childTable, childIds, hread', -, -, hread'', hschema, hids', hnodup'⟩ :=
      h child hchild contract hcontract
    rw [hread] at hread'
    cases hread'
    exact ⟨childTable, childIds, hread'', hschema, hids', hnodup'⟩

theorem auditRule_stems {rule : ContainmentRule} {audit : RuleAudit}
    (h : auditRule rt tables rule = .ok audit) :
    audit.parent = rule.parent ∧ audit.children.map ChildAudit.stem = sorted rule.children
      ∧ validateStem audit.parent = .ok audit.parent
      ∧ audit.blockers = sorted ((sorted rule.children).flatMap
        (fun child => (auditChild rt tables rule.parent child).2)) := by
  unfold auditRule at h
  obtain ⟨parent, hparent, h⟩ := bind_eq_ok.mp h
  obtain ⟨children, hsorted, h⟩ := bind_eq_ok.mp h
  cases h
  have hp : parent = rule.parent := by
    unfold validateStem at hparent
    split at hparent
    · cases hparent
      rfl
    · cases hparent
  have hc : children = sorted rule.children := mapM_validateStem hsorted
  subst hp hc
  refine ⟨rfl, ?_, hparent, ?_⟩
  · simp [auditChild, List.map_map, Function.comp_def]
  · show sorted (List.flatMap Prod.snd _) = _
    rw [List.flatMap_map]

/-- **What an audit says** about a rule with children. -/
theorem auditRule_spec {rule : ContainmentRule} {audit : RuleAudit}
    (h : auditRule rt tables rule = .ok audit) (hchildren : rule.children ≠ []) :
    audit.parent = rule.parent ∧ audit.children.map ChildAudit.stem = sorted rule.children
      ∧ (audit.safeToStage = true ↔ Audited rt tables rule.parent (sorted rule.children)) := by
  obtain ⟨hparent, hstems, -, hblockers⟩ := auditRule_stems h
  refine ⟨hparent, hstems, ?_⟩
  have hne : sorted rule.children ≠ [] := by
    intro hnil
    exact hchildren (List.nil_perm.mp (hnil ▸ sorted_perm rule.children))
  rw [audited_iff hne, RuleAudit.safeToStage, List.isEmpty_iff, hblockers, sorted_eq_nil]
  simp only [List.flatMap_eq_nil_iff, List.mem_map, forall_exists_index, and_imp,
    forall_apply_eq_imp_iff₂, auditChild, auditContract_safe]

end

/-! ## Staging again -/

variable {rt : Runtime X C J} {tables tables' : Tables C} {parent : String} {children : List String}
  {files : Subdir → C} {polygonRows : List (Row X)} {contract : TableContract} {subdir : Subdir}
  {table : Table X} {ids : List (List (Value X))}

theorem readChildren_congr (h : ∀ child ∈ children, tables' subdir child = tables subdir child) :
    readChildren rt tables' subdir children = readChildren rt tables subdir children := by
  induction children with
  | nil => rfl
  | cons child children ih =>
    rw [readChildren, readChildren, h child List.mem_cons_self,
      ih (fun c hc => h c (List.mem_cons_of_mem _ hc))]

theorem AuditedTable.readChildren (h : AuditedTable rt tables parent children contract table ids) :
    ∃ rows, readChildren rt tables contract.subdir children = .ok rows
      ∧ ∀ row ∈ rows, HasColumns table.schema.columns row := by
  have hall := h.children
  clear h
  induction children with
  | nil => exact ⟨[], rfl, by simp⟩
  | cons child children ih =>
    obtain ⟨childTable, -, hread, hschema, -, -⟩ := hall child List.mem_cons_self
    obtain ⟨rows, hrows, hcolumns⟩ := ih (fun c hc => hall c (List.mem_cons_of_mem _ hc))
    refine ⟨childTable.rows ++ rows, ?_, ?_⟩
    · rw [Containment.readChildren, hread, hrows]
      rfl
    · intro row hrow
      rcases List.mem_append.mp hrow with hrow | hrow
      · intro c
        rw [← hschema]
        exact childTable.columns_iff row hrow c
      · exact hcolumns row hrow

theorem polygonContract (hcontract : contract ∈ tableContracts)
    (hsubdir : contract.subdir = .polygons) :
    contract.identityColumns = ["osm_type", "osm_id"] := by
  have hall : ∀ contract ∈ tableContracts, contract.subdir = .polygons →
      contract.identityColumns = ["osm_type", "osm_id"] := by decide
  exact hall contract hcontract hsubdir

theorem AuditedTable.mergeInv (h : AuditedTable rt tables parent children contract table ids)
    (hcontract : contract ∈ tableContracts) (hsubdir : contract.subdir = .polygons) :
    MergeInv table.schema.columns table.rows [] := by
  have hids := h.identities
  rw [polygonContract hcontract hsubdir, mapM_eq_some_iff] at hids
  have hids' : table.rows.map polygonKey = ids.map some := hids
  refine ⟨?_, ?_, table.columns_iff, by simp⟩
  · intro row hrow
    have hmem : polygonKey row ∈ ids.map some := hids' ▸ List.mem_map_of_mem hrow
    obtain ⟨key, -, hkey⟩ := List.mem_map.mp hmem
    rw [← hkey]
    rfl
  · rw [hids']
    exact h.nodup.map (Option.some_injective _)

theorem MergeInv.identities {columns : List String} {rows done : List (Row X)}
    (h : MergeInv columns rows done) :
    ∃ ids, rows.mapM polygonKey = some ids ∧ ids.Nodup := by
  have hkeys : ∃ ids : List (List (Value X)), rows.map polygonKey = ids.map some := by
    have htotal := h.total
    clear h
    induction rows with
    | nil => exact ⟨[], rfl⟩
    | cons row rows ih =>
      obtain ⟨key, hkey⟩ := Option.isSome_iff_exists.mp (htotal row List.mem_cons_self)
      obtain ⟨ids, hids⟩ := ih (fun r hr => htotal r (List.mem_cons_of_mem _ hr))
      exact ⟨key :: ids, by rw [List.map_cons, List.map_cons, hkey, hids]⟩
  obtain ⟨ids, hids⟩ := hkeys
  refine ⟨ids, mapM_eq_some_iff.mpr hids, ?_⟩
  have hnodup := h.nodup
  rw [hids] at hnodup
  exact hnodup.of_map

variable [DecidableEq X]

/-- What staging computes: the merged polygons and the file of each table. -/
structure Staged (rt : Runtime X C J) (tables : Tables C) (parent : String)
    (children : List String) (polygonRows : List (Row X)) (files : Subdir → C) : Prop where
  polygons : mergePolygonRows rt tables parent children = .ok polygonRows
  files : ∀ contract ∈ tableContracts,
    stageContractArtifact rt tables parent children contract polygonRows
      = .ok (files contract.subdir)

/-- Some of the parent's tables have been replaced by the staged ones. -/
structure Mixed (tables tables' : Tables C) (parent : String) (children : List String)
    (files : Subdir → C) : Prop where
  parent : ∀ subdir, tables' subdir parent = tables subdir parent
    ∨ tables' subdir parent = some (files subdir)
  children : ∀ subdir, ∀ child ∈ children, tables' subdir child = tables subdir child

/-- Every polygon of a child can be compared with the parent's of the same identity. -/
def SnapshotsComparable (rt : Runtime X C J) (tables : Tables C) (parent : String)
    (children : List String) : Prop :=
  ∀ table rows, readTable rt (tables .polygons parent) = .ok table →
    readChildren rt tables .polygons children = .ok rows →
    ∀ child ∈ rows, ∀ m ∈ table.rows, polygonKey m = polygonKey child →
      Comparable (extractedAt child) (extractedAt m)

variable {childRows : List (Row X)}

theorem mergePolygonRows_eq (hread : readTable rt (tables .polygons parent) = .ok table)
    (hkeys : table.rows.mapM polygonKey = some ids)
    (hchildren : readChildren rt tables .polygons children = .ok childRows) :
    mergePolygonRows rt tables parent children
      = childRows.foldlM (mergeChildPolygonRow rt parent) table.rows := by
  unfold mergePolygonRows
  rw [hread]
  show (orKeyError (table.rows.mapM polygonKey)).bind _ = _
  rw [hkeys]
  show (readChildren rt tables .polygons children).bind _ = _
  rw [hchildren]
  rfl

theorem mergedContractRows_eq (hsubdir : contract.subdir ≠ .polygons)
    (hread : readTable rt (tables contract.subdir parent) = .ok table)
    (hids : table.rows.mapM (identity contract.identityColumns) = some ids)
    (hchildren : readChildren rt tables contract.subdir children = .ok childRows) :
    mergedContractRows rt tables parent children contract polygonRows
      = (childRows.foldlM (appendChildRow contract parent polygonRows) (table.rows, ids)).map
        (fun merged => (merged.1, table.schema)) := by
  unfold mergedContractRows
  rw [hread]
  show (if contract.subdir = .polygons then _ else _) = _
  rw [if_neg hsubdir, hids]
  show (readChildren rt tables contract.subdir children).bind _ = _
  rw [hchildren]
  rfl

theorem mergedContractRows_polygons (hsubdir : contract.subdir = .polygons)
    (hread : readTable rt (tables contract.subdir parent) = .ok table) :
    mergedContractRows rt tables parent children contract polygonRows
      = .ok (polygonRows, table.schema) := by
  unfold mergedContractRows
  rw [hread]
  show (if contract.subdir = .polygons then _ else _) = _
  rw [if_pos hsubdir]
  rfl

theorem Staged.mergeInv (h : Staged rt tables parent children polygonRows files)
    (hA : AuditedTable rt tables parent children contract table ids)
    (hcontract : contract ∈ tableContracts) (hsubdir : contract.subdir = .polygons) :
    ∃ childRows, readChildren rt tables .polygons children = .ok childRows
      ∧ (∀ child ∈ childRows, HasColumns table.schema.columns child)
      ∧ childRows.foldlM (mergeChildPolygonRow rt parent) table.rows = .ok polygonRows
      ∧ MergeInv table.schema.columns polygonRows childRows.reverse := by
  obtain ⟨childRows, hchildren, hcolumns⟩ := hA.readChildren
  have hstart := hA.mergeInv hcontract hsubdir
  obtain ⟨keys, hkeys, -⟩ := hstart.identities
  have hread := hA.read
  rw [hsubdir] at hread hchildren
  have hmerge := h.polygons
  rw [mergePolygonRows_eq hread hkeys hchildren] at hmerge
  have hrun := hstart.run hcolumns hmerge
  rw [List.append_nil] at hrun
  exact ⟨childRows, hchildren, hcolumns, hmerge, hrun⟩

theorem snapshotsComparable_of_merge (hA : Audited rt tables parent children)
    (h : mergePolygonRows rt tables parent children = .ok polygonRows) :
    SnapshotsComparable rt tables parent children := by
  intro table rows hread hchildren
  obtain ⟨table', ids, hA'⟩ := hA.polygons
  have hread' : readTable rt (tables .polygons parent) = .ok table' := hA'.read
  rw [hread] at hread'
  cases hread'
  obtain ⟨childRows, hchildren', hcolumns⟩ := hA'.readChildren
  have hchildren'' : readChildren rt tables .polygons children = .ok childRows := hchildren'
  rw [hchildren] at hchildren''
  cases hchildren''
  have hstart := hA'.mergeInv (by decide) rfl
  obtain ⟨keys, hkeys, -⟩ := hstart.identities
  rw [mergePolygonRows_eq hread hkeys hchildren] at h
  exact hstart.run_comparable hcolumns h

/-- **What is staged for a table** other than the polygons: the parent's rows with the children's
appended. -/
theorem Staged.appended (h : Staged rt tables parent children polygonRows files)
    (hA : AuditedTable rt tables parent children contract table ids)
    (hcontract : contract ∈ tableContracts) (hsubdir : contract.subdir ≠ .polygons) :
    ∃ childRows merged, readChildren rt tables contract.subdir children = .ok childRows
      ∧ childRows.foldlM (appendChildRow contract parent polygonRows) (table.rows, ids) = .ok merged
      ∧ AppendInv table.schema.columns contract.identityColumns merged childRows.reverse
      ∧ rt.encode (Table.fromPylist merged.1 table.schema) = .ok (files contract.subdir) := by
  have hfile := h.files contract hcontract
  unfold stageContractArtifact at hfile
  obtain ⟨⟨rows, schema⟩, hmerged, hencode⟩ := bind_eq_ok.mp hfile
  have hencode' := mapError_eq_ok.mp hencode
  obtain ⟨childRows, hchildren, hcolumns⟩ := hA.readChildren
  rw [mergedContractRows_eq hsubdir hA.read hA.identities hchildren] at hmerged
  cases hfold : childRows.foldlM (appendChildRow contract parent polygonRows) (table.rows, ids) with
  | error e =>
    rw [hfold] at hmerged
    cases hmerged
  | ok merged =>
    rw [hfold] at hmerged
    cases hmerged
    have hstart : AppendInv table.schema.columns contract.identityColumns (table.rows, ids) [] :=
      ⟨hA.identities, hA.nodup, table.columns_iff, by simp⟩
    have hinv := hstart.run hcontract hcolumns hfold
    rw [List.append_nil] at hinv
    exact ⟨childRows, merged, hchildren, hfold, hinv, hencode'⟩

theorem Staged.encoded (h : Staged rt tables parent children polygonRows files)
    (hread : readTable rt (tables contract.subdir parent) = .ok table)
    (hcontract : contract ∈ tableContracts) (hsubdir : contract.subdir = .polygons) :
    rt.encode (Table.fromPylist polygonRows table.schema) = .ok (files contract.subdir) := by
  have hfile := h.files contract hcontract
  unfold stageContractArtifact at hfile
  rw [mergedContractRows_polygons hsubdir hread] at hfile
  exact mapError_eq_ok.mp hfile

variable (hrt : RoundTrips rt) (h : Staged rt tables parent children polygonRows files)

include hrt h

/-- **The merged rows of a table**: what is read back from the staged file, and what staging gives
when the parent's table is the original or the merged one. -/
theorem Staged.merged (hA : AuditedTable rt tables parent children contract table ids)
    (hcontract : contract ∈ tableContracts) :
    ∃ rows ids', readTable rt (some (files contract.subdir))
        = .ok (Table.fromPylist rows table.schema)
      ∧ (Table.fromPylist rows table.schema).rows = rows
      ∧ rows.mapM (identity contract.identityColumns) = some ids' ∧ ids'.Nodup
      ∧ (contract.subdir = .polygons → rows = polygonRows)
      ∧ ∀ tables' table', (∀ child ∈ children,
          tables' contract.subdir child = tables contract.subdir child) →
        readTable rt (tables' contract.subdir parent) = .ok table' → table'.schema = table.schema →
        (table'.rows = table.rows ∨ table'.rows = rows) →
        stageContractArtifact rt tables' parent children contract polygonRows
          = .ok (files contract.subdir) := by
  -- staging, once the merged rows are the same
  have hagain : ∀ rows tables', rt.encode (Table.fromPylist rows table.schema)
        = .ok (files contract.subdir) →
      mergedContractRows rt tables' parent children contract polygonRows
        = .ok (rows, table.schema) →
      stageContractArtifact rt tables' parent children contract polygonRows
        = .ok (files contract.subdir) := by
    intro rows tables' hencode hmerged
    unfold stageContractArtifact
    rw [hmerged]
    exact mapError_eq_ok.mpr hencode
  by_cases hsubdir : contract.subdir = .polygons
  · have hencode := h.encoded hA.read hcontract hsubdir
    obtain ⟨childRows, -, -, -, hinv⟩ := h.mergeInv hA hcontract hsubdir
    obtain ⟨keys, hkeys, hnodup⟩ := hinv.identities
    refine ⟨polygonRows, keys, mapError_eq_ok.mpr (hrt _ _ hencode), fromPylist_rows hinv.columns,
      ?_, hnodup, fun _ => rfl, ?_⟩
    · rw [polygonContract hcontract hsubdir]
      exact hkeys
    · intro tables' table' _ hread hschema _
      refine hagain polygonRows tables' hencode ?_
      rw [mergedContractRows_polygons hsubdir hread, hschema]
  · obtain ⟨childRows, merged, hchildren, hfold, hinv, hencode⟩ := h.appended hA hcontract hsubdir
    refine ⟨merged.1, merged.2, mapError_eq_ok.mpr (hrt _ _ hencode), fromPylist_rows hinv.columns,
      hinv.identities, hinv.nodup, fun hpolygons => absurd hpolygons hsubdir, ?_⟩
    intro tables' table' hsame hread hschema hrows
    refine hagain merged.1 tables' hencode ?_
    rw [← readChildren_congr hsame] at hchildren
    rcases hrows with hrows | hrows
    · have hids : table'.rows.mapM (identity contract.identityColumns) = some ids := by
        rw [hrows]
        exact hA.identities
      rw [mergedContractRows_eq hsubdir hread hids hchildren, hrows, hfold, hschema]
      rfl
    · have hids : table'.rows.mapM (identity contract.identityColumns) = some merged.2 := by
        rw [hrows]
        exact hinv.identities
      have hfold' : childRows.foldlM (appendChildRow contract parent polygonRows)
          (merged.1, merged.2) = .ok merged := hinv.again (by simp)
      rw [mergedContractRows_eq hsubdir hread hids hchildren, hrows, hfold', hschema]
      rfl

variable (hA : Audited rt tables parent children) (hM : Mixed tables tables' parent children files)

include hA hM

theorem Staged.audited_again : Audited rt tables' parent children := by
  intro contract hcontract
  obtain ⟨table, ids, hA'⟩ := hA contract hcontract
  have hchildren : ∀ child ∈ children, ∃ childTable childIds,
      readTable rt (tables' contract.subdir child) = .ok childTable
      ∧ childTable.schema = table.schema
      ∧ childTable.rows.mapM (identity contract.identityColumns) = some childIds
      ∧ childIds.Nodup := by
    intro child hchild
    rw [hM.children contract.subdir child hchild]
    exact hA'.children child hchild
  obtain ⟨rows, ids', hback, hrows, hids, hnodup, -⟩ := h.merged hrt hA' hcontract
  rcases hM.parent contract.subdir with hsame | hstaged
  · exact ⟨table, ids, by rw [hsame]; exact hA'.read, hA'.identities, hA'.nodup, hchildren⟩
  · refine ⟨Table.fromPylist rows table.schema, ids', ?_, ?_, hnodup, hchildren⟩
    · rw [hstaged]
      exact hback
    · rw [hrows]
      exact hids

/-- **Staging a partly merged parent** gives the files of the first run, if the snapshots can be
compared, and raises otherwise. -/
theorem Staged.again :
    (SnapshotsComparable rt tables' parent children →
      Staged rt tables' parent children polygonRows files)
    ∧ (¬ SnapshotsComparable rt tables' parent children →
      mergePolygonRows rt tables' parent children = .error .typeError) := by
  -- every table can be staged again, once the polygons are merged
  have hfiles : ∀ contract ∈ tableContracts,
      stageContractArtifact rt tables' parent children contract polygonRows
        = .ok (files contract.subdir) := by
    intro contract hcontract
    obtain ⟨table, ids, hA'⟩ := hA contract hcontract
    obtain ⟨rows, ids', hback, hrows, -, -, -, hagain⟩ := h.merged hrt hA' hcontract
    rcases hM.parent contract.subdir with hsame | hstaged
    · exact hagain tables' table (hM.children contract.subdir) (by rw [hsame]; exact hA'.read) rfl
        (Or.inl rfl)
    · exact hagain tables' (Table.fromPylist rows table.schema) (hM.children contract.subdir)
        (by rw [hstaged]; exact hback) rfl (Or.inr hrows)
  obtain ⟨table, ids, hA'⟩ := hA.polygons
  obtain ⟨childRows, hchildren, hcolumns, hfold, hinv⟩ := h.mergeInv hA' (by decide) rfl
  have hread : readTable rt (tables .polygons parent) = .ok table := hA'.read
  rw [← readChildren_congr (hM.children .polygons)] at hchildren
  rcases hM.parent .polygons with hsame | hstaged
  · -- the polygons are the original ones
    rw [← hsame] at hread
    have hstart := hA'.mergeInv (by decide) rfl
    obtain ⟨keys, hkeys, -⟩ := hstart.identities
    have hmerge : mergePolygonRows rt tables' parent children = .ok polygonRows := by
      rw [mergePolygonRows_eq hread hkeys hchildren]
      exact hfold
    refine ⟨fun _ => ⟨hmerge, hfiles⟩, fun hnot => absurd ?_ hnot⟩
    exact snapshotsComparable_of_merge (h.audited_again hrt hA hM) hmerge
  · -- the polygons are the merged ones
    obtain ⟨rows, ids', hback, hrows, hids, -, hpolygons, -⟩ := h.merged hrt hA' (by decide)
    rw [hpolygons rfl] at hback hrows hids
    rw [← hstaged] at hback
    have hkeys : (Table.fromPylist polygonRows table.schema).rows.mapM polygonKey = some ids' := by
      rw [hrows]
      exact hids
    have hmerge := mergePolygonRows_eq hback hkeys hchildren
    rw [hrows] at hmerge
    -- the condition, over the rows that are read
    have hcondition : SnapshotsComparable rt tables' parent children
        ↔ ∀ child ∈ childRows, ∀ m ∈ polygonRows, polygonKey m = polygonKey child →
          Comparable (extractedAt child) (extractedAt m) := by
      constructor
      · intro hcmp
        have hall := hcmp _ _ hback hchildren
        rwa [hrows] at hall
      · intro hall table'' rows'' hread'' hchildren''
        rw [hback] at hread''
        rw [hchildren] at hchildren''
        cases hread''
        cases hchildren''
        rw [hrows]
        exact hall
    obtain ⟨hsame, hraise⟩ := hinv.again rt parent
      (fun child (hchild : child ∈ childRows) => List.mem_reverse.mpr hchild)
    rw [hcondition, hmerge]
    exact ⟨fun hall => ⟨hmerge.trans (hsame hall), hfiles⟩, hraise⟩

omit hA hM

omit hrt h

end OsmPolygonWikidata.Containment
