import OsmPolygonWikidata.Basic.Durable
import OsmPolygonWikidata.Basic.Dict
import OsmPolygonWikidata.Containment.Merging

/-! # Retiring contained regions

The effects of `pipeline/containment_migration.py`. A rule is prepared in this order: the merged
tables are staged in a cache; table by table the originals are copied to a quarantine and the
staged file is installed over the parent's; the two pipeline manifests and the retirement manifest
are rewritten; the children's tables are deleted. A replacement is one step. A copy to the
quarantine is two, since its target exists before it is complete.
-/

namespace OsmPolygonWikidata.Containment

open Durable

/-! ## Files -/

/-- The fields of a JSON object. Manifests are written with sorted keys. -/
abbrev Fields (J : Type) := String → Option J

/-- An entry of a manifest: an object, or something else. -/
inductive Entry (J : Type) where
  | object (fields : Fields J)
  | other

/-- A manifest: no file, a file that is no JSON object, or the entries of one. -/
inductive Manifest (J : Type) where
  | absent
  | malformed
  | entries (entries : String → Option (Entry J))

def Manifest.isAbsent {J : Type} : Manifest J → Bool
  | .absent => true
  | _ => false

/-- The augmentation manifest holds counts and hashes in its entries. -/
inductive Field (J : Type) where
  | counts (counts : List (String × Nat))
  | coreHashes (hashes : List (String × String))
  | value (j : J)

/-- `containment_retirements.json`: no file, a file of another contract, one without retirements,
or the retired children. -/
inductive Retirements where
  | absent
  | unsupported
  | malformed
  | retired (children : List (String × String × String))

/-- The copies in the quarantine. -/
inductive QuarantinePath where
  | parent (stem : String) (subdir : Subdir)
  | child (stem : String) (subdir : Subdir)
  deriving DecidableEq

/-- The files of a data directory that the migration reads and writes. -/
structure Store (C J : Type) where
  tables : Tables C
  cache : String → Subdir → Option C
  quarantine : QuarantinePath → Option C
  processedPbfs : Manifest J
  augmentation : Manifest (Field J)
  retirements : Retirements

abbrev Action (C J : Type) := Prog (Store C J) ContainmentError

variable {X C J : Type}

def Store.writeTable (subdir : Subdir) (stem : String) (file : Option C) (s : Store C J) :
    Store C J :=
  { s with tables := Function.update s.tables subdir (Function.update (s.tables subdir) stem file) }

def Store.writeCache (parent : String) (subdir : Subdir) (c : C) (s : Store C J) : Store C J :=
  let files := Function.update (s.cache parent) subdir (some c)
  { s with cache := Function.update s.cache parent files }

def Store.writeQuarantine (path : QuarantinePath) (c : C) (s : Store C J) : Store C J :=
  { s with quarantine := Function.update s.quarantine path (some c) }

/-- A pure computation that can raise. -/
def ofExcept {A : Type} : Except ContainmentError A → Action C J A
  | .ok a => return a
  | .error e => .raise e

theorem wp_ofExcept {A : Type} {s : Store C J} {x : Except ContainmentError A} {Q : A → Store C J → Prop}
    {E : ContainmentError → Store C J → Prop} {K : Store C J → Prop} (hok : ∀ a, x = .ok a → Q a s)
    (herror : ∀ e, x = .error e → E e s) : Prog.wp (ofExcept x) Q E K s := by
  cases x with
  | ok a => exact hok a rfl
  | error e => exact herror e rfl

/-! ## The retirement manifest -/

def loadRetirementPayload : Retirements → Except ContainmentError (List (String × String × String))
  | .absent => .ok []
  | .unsupported => .error .unsupportedContractVersion
  | .malformed => .error .malformedRetirements
  | .retired children => .ok children

def loadRetiredChildren (s : Store C J) : Except ContainmentError (List String) := do
  let retired ← loadRetirementPayload s.retirements
  return retired.map Prod.fst

/-- The entry of a retired child: its parent and its status. -/
def recordRetired (parent : String) (retired : List (String × String × String)) (child : String) :
    List (String × String × String) :=
  Dict.put Prod.fst (child, parent, "prepared") retired

theorem mem_foldl_recordRetired (parent : String) (children : List String)
    (retired : List (String × String × String)) (x : String) :
    x ∈ (children.foldl (recordRetired parent) retired).map Prod.fst
      ↔ x ∈ children ∨ x ∈ retired.map Prod.fst := by
  induction children generalizing retired with
  | nil => simp
  | cons child children ih =>
    rw [List.foldl_cons, ih, recordRetired, Dict.keys_put]
    split
    · rename_i hmem
      constructor
      · rintro (hx | hx)
        · exact Or.inl (List.mem_cons_of_mem _ hx)
        · exact Or.inr hx
      · rintro (hx | hx)
        · rcases List.mem_cons.mp hx with rfl | hx
          · exact Or.inr hmem
          · exact Or.inl hx
        · exact Or.inr hx
    · simp only [List.mem_append, List.mem_cons]
      tauto

def persistPreparedRule (parent : String) (children : List String) : Action C J Unit := do
  let s ← Prog.get
  let retired ← ofExcept (loadRetirementPayload s.retirements)
  Prog.step (fun s => { s with
    retirements := .retired (children.foldl (recordRetired parent) retired) })

/-! ## The pipeline manifests -/

/-- `dict.update` of an entry, if it is an object. -/
def Entry.update (updates : Fields J) : Entry J → Entry J
  | .object fields => .object (fun key => (updates key).or (fields key))
  | .other => .other

def Entry.isObject : Entry J → Bool
  | .object _ => true
  | .other => false

/-- The entries without those of the children, the parent's updated. -/
def updateEntries (removed : List String) (parent : String) (updates : Fields J)
    (entries : String → Option (Entry J)) : String → Option (Entry J) := fun key =>
  if key ∈ removed then none
  else if key = parent then (entries key).map (Entry.update updates)
  else entries key

/-- Whether the parent has an object for its entry once the children's are gone. -/
def hasParentObject (removed : List String) (parent : String)
    (entries : String → Option (Entry J)) : Bool :=
  parent ∉ removed && (entries parent).any Entry.isObject

/-- The entries that a manifest update writes. The updates are computed only for an object. -/
def rewriteEntries (removed : List String) (parent : String)
    (updates : Except ContainmentError (Fields J)) (entries : String → Option (Entry J)) :
    Except ContainmentError (String → Option (Entry J)) :=
  if hasParentObject removed parent entries then do
    let updates ← updates
    return updateEntries removed parent updates entries
  else .ok (updateEntries removed parent (fun _ => none) entries)

/-- A manifest after an update; nothing is done without a file. -/
def rewriteManifest (removed : List String) (parent : String)
    (updates : Except ContainmentError (Fields J)) :
    Manifest J → Except ContainmentError (Manifest J)
  | .absent => .ok .absent
  | .malformed => .error .malformedManifest
  | .entries entries => do
    let entries ← rewriteEntries removed parent updates entries
    return .entries entries

/-- The key of a region in `processed_pbfs.json`. -/
def pbfName (stem : String) : String := stem ++ ".osm.pbf"

variable [DecidableEq X] (rt : Runtime X C J)

def canonicalManifestStats (cache : Subdir → Option C) :
    Except ContainmentError (Fields J) := do
  let polygons ← readTable rt (cache .polygons)
  let documents ← readTable rt (cache .wikipediaDocuments)
  (rt.manifestStats polygons documents).mapError .arrow

/-- The manifest that `_update_processed_manifest` writes. -/
def nextProcessed (parent : String) (children : List String) (cache : Subdir → Option C) :
    Manifest J → Except ContainmentError (Manifest J) :=
  rewriteManifest (children.map pbfName) (pbfName parent) (canonicalManifestStats rt cache)

def updateProcessedManifest (parent : String) (children : List String) : Action C J Unit := do
  let s ← Prog.get
  if s.processedPbfs.isAbsent then return ()
  else do
    let manifest ← ofExcept (nextProcessed rt parent children (s.cache parent) s.processedPbfs)
    Prog.step (fun s => { s with processedPbfs := manifest })

def parquetRowCount (file : Option C) : Except ContainmentError Nat := do
  let table ← readTable rt file
  return table.rows.length

/-- `str(processed_dir / subdir / stem.parquet)`. -/
def livePath (subdir : Subdir) (stem : String) : String :=
  rt.dataRoot ++ "/processed/" ++ subdir.path ++ "/" ++ stem ++ ".parquet"

def sha256File (file : Option C) : Except ContainmentError String :=
  match file with
  | none => .error .fileNotFound
  | some c => .ok (rt.sha256File c)

/-- The two fields that `_update_augmentation_manifest` sets. -/
def augmentationFields (parent : String) (cache : Subdir → Option C) :
    Except ContainmentError (Fields (Field J)) := do
  let wikipediaDocuments ← parquetRowCount rt (cache .wikipediaDocuments)
  let wikipediaSections ← parquetRowCount rt (cache .wikipediaSections)
  let wikivoyageDocuments ← parquetRowCount rt (cache .wikivoyageDocuments)
  let wikivoyageSections ← parquetRowCount rt (cache .wikivoyageSections)
  let wikidataFacts ← parquetRowCount rt (cache .wikidataFacts)
  let polygons ← sha256File rt (cache .polygons)
  let documents ← sha256File rt (cache .wikipediaDocuments)
  let counts : Field J := .counts [("wikipedia_documents", wikipediaDocuments),
    ("wikipedia_sections", wikipediaSections), ("wikivoyage_documents", wikivoyageDocuments),
    ("wikivoyage_sections", wikivoyageSections), ("wikidata_facts", wikidataFacts)]
  let coreHashes : Field J := .coreHashes [(livePath rt .polygons parent, polygons),
    (livePath rt .wikipediaDocuments parent, documents)]
  return fun key =>
    if key = "counts" then some counts
    else if key = "core_hashes" then some coreHashes
    else none

/-- The manifest that `_update_augmentation_manifest` writes. -/
def nextAugmentation (parent : String) (children : List String) (cache : Subdir → Option C) :
    Manifest (Field J) → Except ContainmentError (Manifest (Field J)) :=
  rewriteManifest children parent (augmentationFields rt parent cache)

def updateAugmentationManifest (parent : String) (children : List String) : Action C J Unit := do
  let s ← Prog.get
  if s.augmentation.isAbsent then return ()
  else do
    let manifest ← ofExcept (nextAugmentation rt parent children (s.cache parent) s.augmentation)
    Prog.step (fun s => { s with augmentation := manifest })

/-! ## Staging, quarantine and installation -/

/-- The loop of `stage_rule`. -/
def stageContracts (parent : String) (children : List String) (polygonRows : List (Row X)) :
    List TableContract → Action C J Unit
  | [] => return ()
  | contract :: contracts => do
    let s ← Prog.get
    let file ← ofExcept (stageContractArtifact rt s.tables parent children contract polygonRows)
    Prog.step (Store.writeCache parent contract.subdir file)
    stageContracts parent children polygonRows contracts

def stageRule (audit : RuleAudit) : Action C J Unit :=
  if audit.safeToStage then do
    let parent ← ofExcept (validateStem audit.parent)
    let s ← Prog.get
    let children := audit.children.map ChildAudit.stem
    let polygonRows ← ofExcept (mergePolygonRows rt s.tables parent children)
    stageContracts rt parent children polygonRows tableContracts
  else .raise (.notSafeToStage audit.parent audit.blockers)

def copyOnce (subdir : Subdir) (stem : String) (target : QuarantinePath) : Action C J Unit := do
  let s ← Prog.get
  if (s.quarantine target).isSome then return ()
  else
    match s.tables subdir stem with
    | none => .raise .fileNotFound
    | some file => do
      Prog.step (Store.writeQuarantine target (rt.torn file))
      Prog.step (Store.writeQuarantine target file)

/-- The children's copies of one table. -/
def copyChildren (subdir : Subdir) : List String → Action C J Unit
  | [] => return ()
  | child :: children => do
    copyOnce rt subdir child (.child child subdir)
    copyChildren subdir children

def installFile (parent : String) (subdir : Subdir) : Action C J Unit := do
  let s ← Prog.get
  match s.cache parent subdir with
  | none => .raise .fileNotFound
  | some file => Prog.step (Store.writeTable subdir parent (some file))

def quarantineAndInstall (parent : String) (children : List String) :
    List TableContract → Action C J Unit
  | [] => return ()
  | contract :: contracts => do
    copyOnce rt contract.subdir parent (.parent parent contract.subdir)
    copyChildren rt contract.subdir children
    installFile parent contract.subdir
    quarantineAndInstall parent children contracts

/-- The tables of one child. -/
def removeTables (child : String) : List TableContract → Action C J Unit
  | [] => return ()
  | contract :: contracts => do
    Prog.step (Store.writeTable contract.subdir child none)
    removeTables child contracts

def removeActiveChildren : List String → Action C J Unit
  | [] => return ()
  | child :: children => do
    removeTables child tableContracts
    removeActiveChildren children

/-! ## Preparing rules -/

structure PreparedRule where
  parent : String
  children : List String

def prepareLocalRule (audit : RuleAudit) : Action C J PreparedRule := do
  let children := audit.children.map ChildAudit.stem
  let s ← Prog.get
  let retired ← ofExcept (loadRetiredChildren s)
  if children ⊆ retired then do
    removeActiveChildren children
    return ⟨audit.parent, children⟩
  else do
    stageRule rt audit
    quarantineAndInstall rt audit.parent children tableContracts
    updateProcessedManifest rt audit.parent children
    updateAugmentationManifest rt audit.parent children
    persistPreparedRule audit.parent children
    removeActiveChildren children
    return ⟨audit.parent, children⟩

def pendingRule (rule : ContainmentRule) (retired : List String) : Option ContainmentRule :=
  let pending := rule.children.filter (fun child => child ∉ retired)
  if pending = [] then none else some ⟨rule.parent, pending⟩

def hasRequiredFiles (tables : Tables C) (rule : ContainmentRule) : Bool :=
  tableContracts.all (fun contract =>
    (rule.parent :: rule.children).all (fun stem => (tables contract.subdir stem).isSome))

/-- One turn of the loop of `prepare_safe_rules`. -/
def prepareRule (dryRun : Bool) (retired : List String) (rule : ContainmentRule) :
    Action C J (List PreparedRule × List RuleAudit) := do
  match pendingRule rule retired with
  | none => return ([], [])
  | some pending => do
    let s ← Prog.get
    if hasRequiredFiles s.tables pending then do
      let audit ← ofExcept (auditRule rt s.tables pending)
      if audit.safeToStage then
        if dryRun then return ([], [])
        else do
          let prepared ← prepareLocalRule rt audit
          return ([prepared], [])
      else return ([], [audit])
    else return ([], [])

/-- The loop of `prepare_safe_rules`. -/
def prepareRules (dryRun : Bool) (retired : List String) :
    List ContainmentRule → Action C J (List PreparedRule × List RuleAudit)
  | [] => return ([], [])
  | rule :: rules => do
    let first ← prepareRule rt dryRun retired rule
    let rest ← prepareRules dryRun retired rules
    return (first.1 ++ rest.1, first.2 ++ rest.2)

def prepareSafeRules (dryRun : Bool) : Action C J (List PreparedRule × List RuleAudit) := do
  let s ← Prog.get
  let retired ← ofExcept (loadRetiredChildren s)
  prepareRules rt dryRun retired containmentRules

end OsmPolygonWikidata.Containment
