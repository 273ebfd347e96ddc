import OsmPolygonWikidata.Basic.Dict

/-! # When the augmentation of a region is current

`augmentation_is_current` of `augmentation/existing_results.py` decides from two manifests and the
tables of a region whether the region has to be augmented again. The augmentation manifest records
the hashes of the polygon table and of one document table, the legacy articles or the canonical
Wikipedia documents, under the paths of these files. `augmentationIsCurrent_iff` says what the check accepts.

The reading of Parquet files and the hash are parameters. So is where a path leads when symbolic
links are followed: the check wants the recorded paths to stay inside the processed directory.
-/

namespace OsmPolygonWikidata.Augmentation

open Python

/-! ## JSON -/

/-- A JSON value as `json.loads` returns it: an object has each key once. -/
inductive Json where
  | null
  | bool (value : Bool)
  | number (value : Rat)
  | string (text : String)
  | array (items : List Json)
  | object (fields : List (String × Json))

inductive CheckError where
  | notAnObject
  | invalidJson
  | noSuchFile
  | unreadable
  deriving DecidableEq

/-- `value.get(key)`. -/
def Json.get (value : Json) (key : String) : Except CheckError (Option Json) :=
  match value with
  | .object fields => .ok (fields.lookup key)
  | _ => .error .notAnObject

/-- `value == text`, where a missing field is `None`. -/
def isText (value : Option Json) (text : String) : Bool :=
  match value with
  | some (.string text') => text' = text
  | _ => false

/-- `value == n`. Booleans are numbers here. -/
def isCount (value : Option Json) (n : Nat) : Bool :=
  match value with
  | some (.number q) => q = n
  | some (.bool b) => b.toNat = n
  | _ => false

theorem isText_iff {value : Option Json} {text : String} :
    isText value text = true ↔ value = some (.string text) := by
  unfold isText
  split
  · simp
  · rename_i hother
    simpa using hother text

/-- Assigning a field. -/
def setField (key : String) (value : Json) (fields : List (String × Json)) : List (String × Json) :=
  Dict.put Prod.fst (key, value) fields

/-- `fields.pop(key, None)`. -/
def popField (key : String) (fields : List (String × Json)) : List (String × Json) :=
  fields.filter (fun field => field.1 ≠ key)

theorem lookup_setField_self (key : String) (value : Json) (fields : List (String × Json)) :
    (setField key value fields).lookup key = some value := by
  induction fields with
  | nil => simp [setField, Dict.put]
  | cons field fields ih =>
    unfold setField at ih ⊢
    rw [Dict.put]
    split
    · simp
    · rename_i hne
      have hbeq : (key == field.1) = false := by simpa using fun h => hne h.symm
      rw [List.lookup_cons, hbeq]
      exact ih

theorem lookup_setField_of_ne {key key' : String} (h : key' ≠ key) (value : Json)
    (fields : List (String × Json)) :
    (setField key value fields).lookup key' = fields.lookup key' := by
  have hbeq : (key' == key) = false := by simpa using h
  induction fields with
  | nil => simp [setField, Dict.put, h]
  | cons field fields ih =>
    obtain ⟨k, v⟩ := field
    unfold setField at ih ⊢
    rw [Dict.put]
    split
    · rename_i heq
      have hk : k = key := heq
      simp [List.lookup_cons, hk, hbeq]
    · simp [List.lookup_cons, ih]

theorem lookup_popField_of_ne {key key' : String} (h : key' ≠ key) (fields : List (String × Json)) :
    (popField key fields).lookup key' = fields.lookup key' := by
  have hbeq : (key' == key) = false := by simpa using h
  induction fields with
  | nil => rfl
  | cons field fields ih =>
    obtain ⟨k, v⟩ := field
    unfold popField at ih ⊢
    by_cases hk : k = key
    · rw [List.filter_cons_of_neg (by simp [hk]), ih, List.lookup_cons, hk, hbeq]
    · rw [List.filter_cons_of_pos (by simp [hk]), List.lookup_cons, List.lookup_cons, ih]

/-! ## The files of a region -/

/-- The tables of a region. -/
inductive Table where
  | polygons
  | articles
  | links
  | wikipediaDocuments
  | wikipediaSections
  | wikivoyageDocuments
  | wikivoyageSections
  | wikidataFacts
  deriving DecidableEq

/-- Where a table lies under the processed directory. -/
def Table.directory : Table → String
  | .polygons => "polygons"
  | .articles => "articles"
  | .links => "polygon_articles"
  | .wikipediaDocuments => "wikipedia/documents"
  | .wikipediaSections => "wikipedia/sections"
  | .wikivoyageDocuments => "wikivoyage/documents"
  | .wikivoyageSections => "wikivoyage/sections"
  | .wikidataFacts => "wikidata/facts"

def sidecarPaths : List Table :=
  [.wikipediaDocuments, .wikipediaSections, .wikivoyageDocuments, .wikivoyageSections,
    .wikidataFacts]

/-- A manifest on disk. -/
inductive ManifestFile where
  | absent
  | malformed
  | json (value : Json)

/-- `json.loads(path.read_text())`. -/
def ManifestFile.load : ManifestFile → Except CheckError Json
  | .absent => .error .noSuchFile
  | .malformed => .error .invalidJson
  | .json value => .ok value

def ManifestFile.isAbsent : ManifestFile → Bool
  | .absent => true
  | _ => false

/-- The tables of one region, and the two manifests, which have entries for all regions. -/
structure Region (C : Type) where
  tables : Table → Option C
  processedPbfs : ManifestFile
  augmentation : ManifestFile

/-- `is_sha256_hex` of a string. -/
def isSha256Hex (text : String) : Bool :=
  text.length = 64 && text.toList.all (fun c => ('0' ≤ c && c ≤ '9') || ('a' ≤ c && c ≤ 'f'))

/-- What the check takes from its surroundings: the region's name and where it lies, the hash and
the number of rows of a file, and which files are inside the processed directory once symbolic
links are followed. -/
structure Surroundings (C : Type) where
  processed : String
  stem : String
  sha256File : C → String
  sha256File_hex : ∀ c, isSha256Hex (sha256File c) = true
  numRows : C → Except CheckError Nat
  resolvesInside : Table → Bool

variable {C : Type} (env : Surroundings C)

/-- `str(path)`. -/
def Surroundings.path (t : Table) : String :=
  env.processed ++ "/" ++ t.directory ++ "/" ++ env.stem ++ ".parquet"

/-- The key of the region in `processed_pbfs.json`. -/
def Surroundings.pbfKey : String := env.stem ++ ".osm.pbf"

/-! ## The check -/

def contractVersion : String := "text-sidecars-v1"

def linkSchemaVersion : String := "polygon-document-links-v1"

def augmentationInputsExist (r : Region C) : Bool :=
  !r.augmentation.isAbsent && sidecarPaths.all (fun t => (r.tables t).isSome)

def linkArtifactFileIsCurrent (entry : List (String × Json)) (r : Region C) : Bool :=
  isText (entry.lookup "link_schema_version") linkSchemaVersion
    && (r.tables .links).any (fun c => isText (entry.lookup "link_artifact_sha256") (env.sha256File c))

/-- `_processed_link_manifest_is_current`. A missing or unreadable manifest, and one without an entry
for the region, are not current; an entry that is no object raises. -/
def processedLinkManifestIsCurrent (r : Region C) (links : C) : Except CheckError Bool :=
  match r.processedPbfs with
  | .json (.object entries) =>
    match entries.lookup env.pbfKey with
    | none => .ok false
    | some entry => do
      if isText (← entry.get "link_schema_version") linkSchemaVersion then
        return isCount (← entry.get "link_count") (← env.numRows links)
      else
        return false
  | _ => .ok false

def linkArtifactsAreCurrent (entry : List (String × Json)) (r : Region C) :
    Except CheckError Bool :=
  if (entry.lookup "link_schema_version").isNone && (entry.lookup "link_artifact_sha256").isNone then
    .ok true
  else if linkArtifactFileIsCurrent env entry r then
    match r.tables .links with
    | none => .ok false
    | some links => processedLinkManifestIsCurrent env r links
  else
    .ok false

/-- The tables whose hashes can be recorded. -/
def coreTables : List Table := [.polygons, .articles, .wikipediaDocuments]

/-- The table a recorded path names, when the path is allowed. -/
def coreTable (key : String) : Option Table :=
  coreTables.find? (fun t => env.path t = key)

def hasExpectedCoreHashKeys (hashes : List (String × Json)) : Bool :=
  let has := fun t => (hashes.lookup (env.path t)).isSome
  hashes.length = 2 && has .polygons && (has .articles).toNat + (has .wikipediaDocuments).toNat = 1

def isValidCoreHashEntry (entry : String × Json) : Bool :=
  match entry.2, coreTable env entry.1 with
  | .string text, some t => isSha256Hex text && env.resolvesInside t
  | _, _ => false

/-- `_hashes_match_files`, for one recorded path. -/
def hashMatchesFile (r : Region C) (entry : String × Json) : Bool :=
  match coreTable env entry.1 with
  | some t => (r.tables t).any (fun c => isText (some entry.2) (env.sha256File c))
  | none => false

def coreHashesAreCurrent (value : Option Json) (r : Region C) : Bool :=
  match value with
  | some (.object hashes) =>
    hasExpectedCoreHashKeys env hashes && hashes.all (isValidCoreHashEntry env)
      && hashes.all (hashMatchesFile env r)
  | _ => false

def augmentationIsCurrent (r : Region C) : Except CheckError Bool := do
  if !augmentationInputsExist r then return false
  let manifest ← r.augmentation.load
  let entry := (← manifest.get env.stem).getD (.object [])
  match entry with
  | .object fields =>
    if !isText (fields.lookup "contract_version") contractVersion then return false
    if !(← linkArtifactsAreCurrent env fields r) then return false
    return coreHashesAreCurrent env (fields.lookup "core_hashes") r
  | _ => throw .notAnObject

/-! ## What the check accepts -/

variable {env}

theorem path_inj {t t' : Table} (ht : t ∈ coreTables) (ht' : t' ∈ coreTables)
    (h : env.path t = env.path t') : t = t' := by
  have hlist := congrArg String.toList h
  simp only [Surroundings.path, String.toList_append, List.append_assoc,
    List.append_cancel_left_eq] at hlist
  revert hlist
  fin_cases ht <;> fin_cases ht' <;> simp [Table.directory]

theorem coreTable_eq_some_iff {key : String} {t : Table} :
    coreTable env key = some t ↔ t ∈ coreTables ∧ env.path t = key := by
  constructor
  · intro h
    exact ⟨List.mem_of_find?_eq_some h, by simpa using List.find?_some h⟩
  · rintro ⟨ht, rfl⟩
    cases hfind : coreTable env (env.path t) with
    | none =>
      have := List.find?_eq_none.mp hfind t ht
      simp at this
    | some t' =>
      have hpath : env.path t' = env.path t := by simpa using List.find?_some hfind
      rw [path_inj (List.mem_of_find?_eq_some hfind) ht hpath]

variable (env) in
/-- The recorded hashes are those of the polygon table and of the document table `t`. -/
structure Records (r : Region C) (hashes : List (String × Json)) (t : Table) : Prop where
  document : t = .articles ∨ t = .wikipediaDocuments
  inside : env.resolvesInside .polygons = true ∧ env.resolvesInside t = true
  entries : ∃ c d, r.tables .polygons = some c ∧ r.tables t = some d
    ∧ hashes.Perm [(env.path .polygons, .string (env.sha256File c)),
      (env.path t, .string (env.sha256File d))]

variable (env) in
/-- A recorded path and hash that agree with a file. -/
def Agrees (r : Region C) (entry : String × Json) (t : Table) : Prop :=
  t ∈ coreTables ∧ env.resolvesInside t = true
    ∧ ∃ c, r.tables t = some c ∧ entry = (env.path t, .string (env.sha256File c))

theorem exists_agrees_iff {r : Region C} {entry : String × Json} :
    (isValidCoreHashEntry env entry = true ∧ hashMatchesFile env r entry = true)
      ↔ ∃ t, Agrees env r entry t := by
  obtain ⟨key, value⟩ := entry
  constructor
  · rintro ⟨hvalid, hmatches⟩
    unfold hashMatchesFile at hmatches
    unfold isValidCoreHashEntry at hvalid
    cases htable : coreTable env key with
    | none => simp [htable] at hmatches
    | some t =>
      obtain ⟨ht, rfl⟩ := coreTable_eq_some_iff.mp htable
      simp only [htable, Option.any_eq_true, isText_iff, Option.some.injEq] at hmatches
      obtain ⟨c, hc, rfl⟩ := hmatches
      simp only [htable, Bool.and_eq_true] at hvalid
      exact ⟨t, ht, hvalid.2, c, hc, rfl⟩
  · rintro ⟨t, ht, hinside, c, hc, heq⟩
    obtain ⟨rfl, rfl⟩ := Prod.mk.inj heq
    have htable : coreTable env (env.path t) = some t := coreTable_eq_some_iff.mpr ⟨ht, rfl⟩
    constructor
    · simp [isValidCoreHashEntry, htable, env.sha256File_hex, hinside]
    · simp [hashMatchesFile, htable, hc, isText]

theorem hasExpectedCoreHashKeys_iff {hashes : List (String × Json)} :
    hasExpectedCoreHashKeys env hashes = true
      ↔ hashes.length = 2 ∧ env.path .polygons ∈ hashes.map Prod.fst
        ∧ ((env.path .articles ∈ hashes.map Prod.fst
              ∧ env.path .wikipediaDocuments ∉ hashes.map Prod.fst)
            ∨ (env.path .articles ∉ hashes.map Prod.fst
              ∧ env.path .wikipediaDocuments ∈ hashes.map Prod.fst)) := by
  have hisSome : ∀ key : String,
      (hashes.lookup key).isSome = decide (key ∈ hashes.map Prod.fst) := by
    intro key
    induction hashes with
    | nil => rfl
    | cons e hashes ih =>
      rw [List.lookup_cons, List.map_cons]
      by_cases hkey : key = e.1
      · simp [hkey]
      · rw [beq_false_of_ne hkey, ih]
        simp [hkey]
  simp only [hasExpectedCoreHashKeys, hisSome, Bool.and_eq_true, decide_eq_true_eq, and_assoc]
  by_cases ha : env.path .articles ∈ hashes.map Prod.fst <;>
    by_cases hd : env.path .wikipediaDocuments ∈ hashes.map Prod.fst <;>
    simp only [ha, hd, decide_true, decide_false, Bool.toNat_true, Bool.toNat_false] <;> simp

theorem coreHashesAreCurrent_iff {r : Region C} {value : Option Json} :
    coreHashesAreCurrent env value r = true
      ↔ ∃ hashes t, value = some (.object hashes) ∧ Records env r hashes t := by
  have hpa : env.path .polygons ≠ env.path .articles :=
    fun h => by cases path_inj (by decide) (by decide) h
  have hpd : env.path .polygons ≠ env.path .wikipediaDocuments :=
    fun h => by cases path_inj (by decide) (by decide) h
  have had : env.path .articles ≠ env.path .wikipediaDocuments :=
    fun h => by cases path_inj (by decide) (by decide) h
  constructor
  · intro h
    unfold coreHashesAreCurrent at h
    split at h
    swap
    · cases h
    rename_i hashes
    simp only [Bool.and_eq_true, List.all_eq_true] at h
    obtain ⟨⟨hkeys, hvalid⟩, hmatches⟩ := h
    have hagrees : ∀ e ∈ hashes, ∃ t, Agrees env r e t :=
      fun e he => exists_agrees_iff.mp ⟨hvalid e he, hmatches e he⟩
    obtain ⟨hlength, hpolygons, hone⟩ := hasExpectedCoreHashKeys_iff.mp hkeys
    obtain ⟨e, e', rfl⟩ := List.length_eq_two.mp hlength
    obtain ⟨t, ht, hinside, c, hc, rfl⟩ := hagrees e (by simp)
    obtain ⟨t', ht', hinside', c', hc', rfl⟩ := hagrees e' (by simp)
    -- of the nine pairs of tables four have the right keys
    rw [coreTables] at ht ht'
    fin_cases ht <;> fin_cases ht' <;>
      simp [hpa, hpd, had, hpa.symm, hpd.symm, had.symm] at hpolygons hone
    · exact ⟨_, .articles, rfl, Or.inl rfl, ⟨hinside, hinside'⟩, c, c', hc, hc', List.Perm.refl _⟩
    · exact ⟨_, .wikipediaDocuments, rfl, Or.inr rfl, ⟨hinside, hinside'⟩, c, c', hc, hc',
        List.Perm.refl _⟩
    · exact ⟨_, .articles, rfl, Or.inl rfl, ⟨hinside', hinside⟩, c', c, hc', hc,
        List.Perm.swap _ _ _⟩
    · exact ⟨_, .wikipediaDocuments, rfl, Or.inr rfl, ⟨hinside', hinside⟩, c', c, hc', hc,
        List.Perm.swap _ _ _⟩
  · rintro ⟨hashes, t, rfl, hdocument, ⟨hpolygons, ht⟩, c, d, hc, hd, hperm⟩
    have htcore : t ∈ coreTables := by rcases hdocument with rfl | rfl <;> decide
    have hagrees : ∀ e ∈ hashes, ∃ t, Agrees env r e t := by
      intro e he
      rcases List.mem_pair.mp (hperm.mem_iff.mp he) with rfl | rfl
      · exact ⟨.polygons, by decide, hpolygons, c, hc, rfl⟩
      · exact ⟨t, htcore, ht, d, hd, rfl⟩
    have hkeys : hasExpectedCoreHashKeys env hashes = true := by
      have hmap := fun key => (hperm.map Prod.fst).mem_iff (a := key)
      rw [hasExpectedCoreHashKeys_iff, hperm.length_eq, hmap, hmap, hmap]
      rcases hdocument with rfl | rfl <;> simp [had, hpa.symm, hpd.symm, had.symm]
    simp only [coreHashesAreCurrent, Bool.and_eq_true, List.all_eq_true]
    exact ⟨⟨hkeys, fun e he => (exists_agrees_iff.mpr (hagrees e he)).1⟩,
      fun e he => (exists_agrees_iff.mpr (hagrees e he)).2⟩

variable (env) in
/-- What the augmentation manifest says about a current region. -/
structure CurrentEntry (r : Region C) (entries fields hashes : List (String × Json)) (t : Table) :
    Prop where
  manifest : r.augmentation = .json (.object entries)
  entry : entries.lookup env.stem = some (.object fields)
  contract : fields.lookup "contract_version" = some (.string contractVersion)
  links : linkArtifactsAreCurrent env fields r = .ok true
  core : fields.lookup "core_hashes" = some (.object hashes)
  records : Records env r hashes t

/-- **What the check accepts.** -/
theorem augmentationIsCurrent_iff {r : Region C} : augmentationIsCurrent env r = .ok true
      ↔ (∀ t ∈ sidecarPaths, (r.tables t).isSome = true)
        ∧ ∃ entries fields hashes t, CurrentEntry env r entries fields hashes t := by
  constructor
  · intro h
    unfold augmentationIsCurrent at h
    split at h
    · cases h
    rename_i hinputs
    have hsidecars : ∀ t ∈ sidecarPaths, (r.tables t).isSome = true := by
      rw [Bool.not_eq_true, Bool.not_eq_false', augmentationInputsExist, Bool.and_eq_true,
        List.all_eq_true] at hinputs
      exact hinputs.2
    refine ⟨hsidecars, ?_⟩
    obtain ⟨manifest, hmanifest, h⟩ := bind_eq_ok.mp h
    obtain ⟨found, hfound, h⟩ := bind_eq_ok.mp h
    cases haug : r.augmentation with
    | absent => simp [haug, ManifestFile.load] at hmanifest
    | malformed => simp [haug, ManifestFile.load] at hmanifest
    | json value =>
      obtain rfl : value = manifest := by simpa [haug, ManifestFile.load] using hmanifest
      cases value with
      | object entries =>
        obtain rfl : entries.lookup env.stem = found := by simpa [Json.get] using hfound
        cases hentry : entries.lookup env.stem with
        | none =>
          rw [hentry] at h
          simp [isText] at h
          cases h
        | some entry =>
          rw [hentry] at h
          cases entry with
          | object fields =>
            simp only [Option.getD_some] at h
            split at h
            · cases h
            rename_i hcontract
            obtain ⟨current, hlinks, h⟩ := bind_eq_ok.mp h
            cases current with
            | false => cases h
            | true =>
              have hcore : coreHashesAreCurrent env (fields.lookup "core_hashes") r = true :=
                Except.ok.inj h
              obtain ⟨hashes, t, hhashes, hrecords⟩ := coreHashesAreCurrent_iff.mp hcore
              have hcontract' := isText_iff.mp (by simpa using hcontract)
              exact ⟨entries, fields, hashes, t, haug, hentry, hcontract', hlinks, hhashes,
                hrecords⟩
          | _ => cases h
      | _ => cases hfound
  · rintro ⟨hsidecars, entries, fields, hashes, t, h⟩
    have hinputs : augmentationInputsExist r = true := by
      simpa [augmentationInputsExist, h.manifest, ManifestFile.isAbsent] using hsidecars
    have hcore : coreHashesAreCurrent env (some (.object hashes)) r = true :=
      coreHashesAreCurrent_iff.mpr ⟨hashes, t, rfl, h.records⟩
    have hcontract : isText (fields.lookup "contract_version") contractVersion = true :=
      isText_iff.mpr h.contract
    simp [augmentationIsCurrent, hinputs, h.manifest, ManifestFile.load, Json.get, h.entry,
      hcontract, h.links, h.core, hcore, bind, Except.bind, pure, Except.pure]

end OsmPolygonWikidata.Augmentation
