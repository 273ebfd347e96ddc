import Mathlib.Tactic.Linarith

/-! # The JSON file cache

A key of the cache becomes a file name: separators are replaced, and a long name is cut and gets a
digest of the key. The entry in the file does not say which key it was stored under. `refinesMap_iff`
says for which keys and expiry times the cache is a map with expiry: the file names must be pairwise
different and accepted by the file system, and no entry may expire at time 0, which a read takes
for an entry without expiry.

Seconds are rational numbers, and a JSON value that is written is read back as it was.
-/

namespace OsmPolygonWikidata.Cache

/-! ## Files -/

/-- The `meta` block of a file. -/
structure Metadata (J : Type) where
  retrievedAt : String
  expiresAt : ℚ
  status : String
  requestUrl : String
  responseMetadata : List (String × J)
  contractVersion : String

/-- What a file holds. `unparsable` is no UTF-8 or no JSON, `misshapen` is JSON of another
shape. -/
inductive CacheFile (J : Type)
  | unparsable
  | misshapen
  | entry (metadata : Metadata J) (payload : J)

structure CacheEntry (J : Type) where
  key : String
  retrievedAt : String
  status : String
  requestUrl : String
  responseMetadata : List (String × J)
  parsedResult : J

/-- What the file system raises: `OSError` for a name that is too long, `ValueError` for a NUL. -/
inductive CacheError
  | nameTooLong
  | embeddedNull

/-- The files under the root of the cache. -/
abbrev Files (J : Type) := String → Option (CacheFile J)

structure JsonFileCache where
  defaultTtl : ℚ := 60 * 60 * 24 * 30
  contractVersion : String := "v1"
  /-- `hashlib.sha256(key.encode()).hexdigest()` -/
  sha256 : String → String

/-- The arguments of `set`, with what it reads from the clock. -/
structure SetArguments (J : Type) where
  payload : J
  requestUrl : String := ""
  responseMetadata : Option (List (String × J)) := none
  status : String := "ok"
  ttl : Option ℚ := none
  now : ℚ
  retrievedAt : String

/-- The longest file name in bytes. -/
def nameMax : Nat := 255

/-- A temporary sibling has two dots, eight random characters and `.tmp` more in its name. -/
def temporaryBytes (name : String) : Nat := name.utf8ByteSize + 14

def hasNull (name : String) : Bool := name.toList.contains (Char.ofNat 0)

/-- `text.replace(char, "__")`. -/
def replaceChar (char : Char) (text : List Char) : List Char :=
  text.flatMap (fun c => if c = char then ['_', '_'] else [c])

namespace JsonFileCache

variable {J : Type} (cache : JsonFileCache)

/-- The name of `_path_for`. -/
def fileName (key : String) : String :=
  let safe := String.ofList (replaceChar '\\' (replaceChar '/' key.toList))
  if 160 < safe.utf8ByteSize then
    String.ofList (safe.toList.take 80) ++ "__" ++ cache.sha256 key ++ ".json"
  else safe ++ ".json"

def freshEntry (key : String) (metadata : Metadata J) (payload : J) (now : ℚ) :
    Option (CacheEntry J) :=
  if metadata.contractVersion ≠ cache.contractVersion then none
  else if metadata.expiresAt ≠ 0 ∧ metadata.expiresAt < now then none
  else some ⟨key, metadata.retrievedAt, metadata.status, metadata.requestUrl,
    metadata.responseMetadata, payload⟩

/-- `get`. A corrupt file is removed. -/
def get (key : String) (now : ℚ) (files : Files J) :
    Files J × Except CacheError (Option (CacheEntry J)) :=
  let name := cache.fileName key
  if hasNull name then (files, .ok none)
  else if nameMax < name.utf8ByteSize then (files, .error .nameTooLong)
  else match files name with
    | none => (files, .ok none)
    | some .unparsable => (Function.update files name none, .ok none)
    | some .misshapen => (Function.update files name none, .ok none)
    | some (.entry metadata payload) => (files, .ok (cache.freshEntry key metadata payload now))

/-- When an entry expires that is set with these arguments. -/
def expiresAt (arguments : SetArguments J) : ℚ :=
  arguments.now + arguments.ttl.getD cache.defaultTtl

/-- The `meta` block that `set` writes. -/
def metadata (arguments : SetArguments J) : Metadata J where
  retrievedAt := arguments.retrievedAt
  expiresAt := cache.expiresAt arguments
  status := arguments.status
  requestUrl := arguments.requestUrl
  responseMetadata := arguments.responseMetadata.getD []
  contractVersion := cache.contractVersion

/-- The entry that `set` returns. -/
def entry (key : String) (arguments : SetArguments J) : CacheEntry J where
  key := key
  retrievedAt := arguments.retrievedAt
  status := arguments.status
  requestUrl := arguments.requestUrl
  responseMetadata := arguments.responseMetadata.getD []
  parsedResult := arguments.payload

/-- `set`: the temporary sibling is created first. -/
def set (key : String) (arguments : SetArguments J) (files : Files J) :
    Files J × Except CacheError (Option (CacheEntry J)) :=
  let name := cache.fileName key
  if hasNull name then (files, .error .embeddedNull)
  else if nameMax < temporaryBytes name then (files, .error .nameTooLong)
  else (Function.update files name (some (.entry (cache.metadata arguments) arguments.payload)),
    .ok (some (entry key arguments)))

def delete (key : String) (files : Files J) :
    Files J × Except CacheError (Option (CacheEntry J)) :=
  let name := cache.fileName key
  if hasNull name then (files, .error .embeddedNull)
  else if nameMax < name.utf8ByteSize then (files, .error .nameTooLong)
  else (Function.update files name none, .ok none)

end JsonFileCache

/-! ## Sequences of operations -/

inductive Operation (J : Type)
  | get (key : String) (now : ℚ)
  | set (key : String) (arguments : SetArguments J)
  | delete (key : String)

namespace Operation

variable {J : Type}

def key : Operation J → String
  | get key _ => key
  | set key _ => key
  | delete key => key

/-- The time an operation reads from the clock. -/
def time? : Operation J → Option ℚ
  | get _ now => some now
  | set _ arguments => some arguments.now
  | delete _ => none

def expiresAt? (cache : JsonFileCache) : Operation J → Option ℚ
  | set _ arguments => some (cache.expiresAt arguments)
  | _ => none

end Operation

variable {J : Type}

def JsonFileCache.step (cache : JsonFileCache) (files : Files J) :
    Operation J → Files J × Except CacheError (Option (CacheEntry J))
  | .get key now => cache.get key now files
  | .set key arguments => cache.set key arguments files
  | .delete key => cache.delete key files

/-- The results of a sequence of operations. -/
def JsonFileCache.run (cache : JsonFileCache) (files : Files J) :
    List (Operation J) → List (Except CacheError (Option (CacheEntry J)))
  | [] => []
  | operation :: operations =>
    (cache.step files operation).2 :: cache.run (cache.step files operation).1 operations

/-! ## The map with expiry -/

/-- A map: for each key the most recent entry that has not been deleted, and when it expires. -/
abbrev ExpiringMap (J : Type) := String → Option (SetArguments J)

def ExpiringMap.step (cache : JsonFileCache) (map : ExpiringMap J) :
    Operation J → ExpiringMap J × Except CacheError (Option (CacheEntry J))
  | .get key now =>
    (map, .ok ((map key).bind (fun arguments =>
      if cache.expiresAt arguments < now then none
      else some (JsonFileCache.entry key arguments))))
  | .set key arguments =>
    (Function.update map key (some arguments), .ok (some (JsonFileCache.entry key arguments)))
  | .delete key => (Function.update map key none, .ok none)

def ExpiringMap.run (cache : JsonFileCache) (map : ExpiringMap J) :
    List (Operation J) → List (Except CacheError (Option (CacheEntry J)))
  | [] => []
  | operation :: operations =>
    (map.step cache operation).2 :: ExpiringMap.run cache (map.step cache operation).1 operations

/-! ## The refinement -/

/-- The file system takes the file of the key and its temporary sibling. -/
def JsonFileCache.Storable (cache : JsonFileCache) (key : String) : Prop :=
  hasNull (cache.fileName key) = false ∧ temporaryBytes (cache.fileName key) ≤ nameMax

section

variable {cache : JsonFileCache} {K : Set String} {T : Set ℚ}

/-- The file of each key holds what the map has for it. -/
structure Represents (cache : JsonFileCache) (K : Set String) (T : Set ℚ) (files : Files J)
    (map : ExpiringMap J) : Prop where
  file : ∀ key ∈ K, files (cache.fileName key)
    = (map key).map (fun arguments => .entry (cache.metadata arguments) arguments.payload)
  expires : ∀ key ∈ K, ∀ arguments ∈ map key, cache.expiresAt arguments ∈ T

section

variable {key : String} {files : Files J} (h : cache.Storable key)
include h

theorem JsonFileCache.Storable.no_null : ¬ hasNull (cache.fileName key) = true := by
  rw [h.1]
  exact Bool.false_ne_true

theorem JsonFileCache.Storable.name_le : ¬ nameMax < (cache.fileName key).utf8ByteSize := by
  have htemporary := h.2
  unfold temporaryBytes at htemporary
  omega

theorem JsonFileCache.Storable.get_none (now : ℚ) (hfile : files (cache.fileName key) = none) :
    cache.get key now files = (files, .ok none) := by
  simp only [JsonFileCache.get, if_neg h.no_null, if_neg h.name_le, hfile]

theorem JsonFileCache.Storable.get_entry {metadata : Metadata J} {payload : J} (now : ℚ)
    (hfile : files (cache.fileName key) = some (.entry metadata payload)) :
    cache.get key now files = (files, .ok (cache.freshEntry key metadata payload now)) := by
  simp only [JsonFileCache.get, if_neg h.no_null, if_neg h.name_le, hfile]

theorem JsonFileCache.Storable.set (arguments : SetArguments J) : cache.set key arguments files
      = (Function.update files (cache.fileName key)
          (some (.entry (cache.metadata arguments) arguments.payload)),
        .ok (some (JsonFileCache.entry key arguments))) := by
  simp only [JsonFileCache.set, if_neg h.no_null, if_neg (not_lt.mpr h.2)]

theorem JsonFileCache.Storable.delete :
    cache.delete key files = (Function.update files (cache.fileName key) none, .ok none) := by
  simp only [JsonFileCache.delete, if_neg h.no_null, if_neg h.name_le]

end

theorem Represents.update {files : Files J} {map : ExpiringMap J}
    (h : Represents cache K T files map) (hinj : Set.InjOn cache.fileName K) {key : String}
    (hkey : key ∈ K) (value : Option (SetArguments J))
    (hexpires : ∀ arguments ∈ value, cache.expiresAt arguments ∈ T) :
    Represents cache K T (Function.update files (cache.fileName key)
      (value.map (fun arguments => .entry (cache.metadata arguments) arguments.payload)))
      (Function.update map key value) := by
  constructor
  · intro other hother
    by_cases heq : other = key
    · rw [heq, Function.update_self, Function.update_self]
    · have hname : cache.fileName other ≠ cache.fileName key :=
        fun hname => heq (hinj hother hkey hname)
      rw [Function.update_of_ne hname, Function.update_of_ne heq]
      exact h.file other hother
  · intro other hother arguments hmem
    by_cases heq : other = key
    · rw [heq, Function.update_self] at hmem
      exact hexpires arguments hmem
    · rw [Function.update_of_ne heq] at hmem
      exact h.expires other hother arguments hmem

theorem freshEntry_metadata {key : String} (arguments : SetArguments J) (now : ℚ)
    (hzero : cache.expiresAt arguments ≠ 0) :
    cache.freshEntry key (cache.metadata arguments) arguments.payload now
      = if cache.expiresAt arguments < now then none
        else some (JsonFileCache.entry key arguments) := by
  have hversion : ¬ (cache.metadata arguments).contractVersion ≠ cache.contractVersion :=
    fun h => h rfl
  rw [JsonFileCache.freshEntry, if_neg hversion]
  by_cases hnow : cache.expiresAt arguments < now
  · rw [if_pos hnow, if_pos ⟨hzero, hnow⟩]
  · rw [if_neg hnow, if_neg (fun h => hnow h.2)]
    rfl

/-- **One operation** has the result of the map and keeps the files in step with it. -/
theorem Represents.step {files : Files J} {map : ExpiringMap J}
    (h : Represents cache K T files map) (hstorable : ∀ key ∈ K, cache.Storable key)
    (hinj : Set.InjOn cache.fileName K) (hzero : 0 ∉ T) {operation : Operation J}
    (hkey : operation.key ∈ K) (hexpires : ∀ t ∈ operation.expiresAt? cache, t ∈ T) :
    (cache.step files operation).2 = (map.step cache operation).2
      ∧ Represents cache K T (cache.step files operation).1 (map.step cache operation).1 := by
  cases operation with
  | get key now =>
    have hkey : key ∈ K := hkey
    have hfile := h.file key hkey
    cases hmap : map key with
    | none =>
      rw [hmap] at hfile
      simp only [JsonFileCache.step, ExpiringMap.step, hmap, Option.bind_none]
      rw [(hstorable key hkey).get_none now hfile]
      exact ⟨rfl, h⟩
    | some arguments =>
      rw [hmap] at hfile
      have hne : cache.expiresAt arguments ≠ 0 :=
        fun heq => hzero (heq ▸ h.expires key hkey arguments hmap)
      simp only [JsonFileCache.step, ExpiringMap.step, hmap, Option.bind_some]
      rw [(hstorable key hkey).get_entry now hfile, freshEntry_metadata arguments now hne]
      exact ⟨rfl, h⟩
  | set key arguments =>
    have hkey : key ∈ K := hkey
    simp only [JsonFileCache.step, ExpiringMap.step]
    rw [(hstorable key hkey).set arguments]
    have hnext := h.update hinj hkey (some arguments) (fun other hother => by
      obtain rfl := Option.some.inj hother
      exact hexpires _ rfl)
    rw [Option.map_some] at hnext
    refine ⟨rfl, ?_⟩
    dsimp only
    exact hnext
  | delete key =>
    have hkey : key ∈ K := hkey
    simp only [JsonFileCache.step, ExpiringMap.step]
    rw [(hstorable key hkey).delete]
    have hnext := h.update hinj hkey none (fun _ hnone => by cases hnone)
    rw [Option.map_none] at hnext
    refine ⟨rfl, ?_⟩
    dsimp only
    exact hnext

theorem Represents.run {files : Files J} {map : ExpiringMap J}
    (h : Represents cache K T files map) (hstorable : ∀ key ∈ K, cache.Storable key)
    (hinj : Set.InjOn cache.fileName K) (hzero : 0 ∉ T) (operations : List (Operation J))
    (hkeys : ∀ operation ∈ operations, operation.key ∈ K)
    (hexpires : ∀ operation ∈ operations, ∀ t ∈ operation.expiresAt? cache, t ∈ T) :
    cache.run files operations = ExpiringMap.run cache map operations := by
  induction operations generalizing files map with
  | nil => rfl
  | cons operation operations ih =>
    obtain ⟨hresult, hnext⟩ := h.step hstorable hinj hzero
      (hkeys operation List.mem_cons_self) (hexpires operation List.mem_cons_self)
    have hrest := ih hnext (fun o ho => hkeys o (List.mem_cons_of_mem _ ho))
      (fun o ho => hexpires o (List.mem_cons_of_mem _ ho))
    rw [JsonFileCache.run, ExpiringMap.run, hresult, hrest]

/-- Every sequence of operations on an empty cache, with keys of `K`, entries that expire at times
of `T` and a clock that never goes back, has the results of a map with expiry. -/
def RefinesMap (J : Type) (cache : JsonFileCache) (K : Set String) (T : Set ℚ) : Prop :=
  ∀ operations : List (Operation J), (∀ operation ∈ operations, operation.key ∈ K) →
    (∀ operation ∈ operations, ∀ t ∈ operation.expiresAt? cache, t ∈ T) →
    (operations.filterMap Operation.time?).Pairwise (· ≤ ·) →
    cache.run (fun _ => none) operations = ExpiringMap.run cache (fun _ => none) operations

/-! ## Sequences that tell the cache from a map -/

/-- A `set` whose entry expires at a time, one second after it is made. -/
def setUntil (payload : J) (expiresAt : ℚ) : SetArguments J where
  payload := payload
  ttl := some 1
  now := expiresAt - 1
  retrievedAt := ""

@[simp] theorem expiresAt_setUntil (payload : J) (t : ℚ) :
    cache.expiresAt (setUntil payload t) = t := sub_add_cancel t 1

variable (payload : J) (h : RefinesMap J cache K T)

include payload h

theorem storable_of_refinesMap {t : ℚ} (ht : t ∈ T)
    {key : String} (hkey : key ∈ K) : cache.Storable key := by
  have hrun := h [.set key (setUntil payload t)] (by simpa [Operation.key] using hkey)
    (by simpa [Operation.expiresAt?] using ht) (by simp [Operation.time?])
  simp only [JsonFileCache.run, ExpiringMap.run, JsonFileCache.step, ExpiringMap.step,
    JsonFileCache.set, List.cons.injEq, and_true] at hrun
  split at hrun
  · cases hrun
  · split at hrun
    · cases hrun
    · rename_i hnull hlong
      exact ⟨by simpa using hnull, not_lt.mp hlong⟩

theorem injOn_of_refinesMap {t : ℚ} (ht : t ∈ T) : Set.InjOn cache.fileName K := by
  intro key hkey other hother hname
  by_contra hne
  have hrun := h [.set key (setUntil payload t), .get other t]
    (by simp [Operation.key, hkey, hother]) (by simpa [Operation.expiresAt?] using ht)
    (by simp [Operation.time?, setUntil])
  obtain ⟨files, hfiles⟩ : ∃ files : Files J, files = Function.update (fun _ => none)
      (cache.fileName key) (some (.entry (cache.metadata (setUntil payload t)) payload)) :=
    ⟨_, rfl⟩
  have hset : cache.set key (setUntil payload t) (fun _ => none) = (files, _) :=
    hfiles ▸ (storable_of_refinesMap payload h ht hkey).set (setUntil payload t)
  -- the file of the first key is read for the second one
  have hread : files (cache.fileName other)
      = some (.entry (cache.metadata (setUntil payload t)) payload) := by
    rw [hfiles, hname, Function.update_self]
  have hget := (storable_of_refinesMap payload h ht hother).get_entry t hread
  have hfresh : cache.freshEntry other (cache.metadata (setUntil payload t)) payload t
      = some (JsonFileCache.entry other (setUntil payload t)) := by
    simp [JsonFileCache.freshEntry, JsonFileCache.metadata, JsonFileCache.entry, setUntil,
      JsonFileCache.expiresAt]
  simp only [JsonFileCache.run, ExpiringMap.run, JsonFileCache.step, ExpiringMap.step, hset,
    hget, hfresh, Function.update_of_ne (Ne.symm hne), Option.bind_none,
    List.cons.injEq, Except.ok.injEq, reduceCtorEq, and_true, and_false] at hrun

theorem zero_notMem_of_refinesMap {key : String} (hkey : key ∈ K) : 0 ∉ T := by
  intro hzero
  have hstorable := storable_of_refinesMap payload h hzero hkey
  have hrun := h [.set key (setUntil payload 0), .get key 1] (by simpa [Operation.key] using hkey)
    (by simpa [Operation.expiresAt?] using hzero) (by simp [Operation.time?, setUntil])
  obtain ⟨files, hfiles⟩ : ∃ files : Files J, files = Function.update (fun _ => none)
      (cache.fileName key) (some (.entry (cache.metadata (setUntil payload 0)) payload)) :=
    ⟨_, rfl⟩
  have hset : cache.set key (setUntil payload 0) (fun _ => none) = (files, _) :=
    hfiles ▸ hstorable.set (setUntil payload 0)
  have hread : files (cache.fileName key)
      = some (.entry (cache.metadata (setUntil payload 0)) payload) := by
    rw [hfiles, Function.update_self]
  have hget := hstorable.get_entry 1 hread
  have hfresh : cache.freshEntry key (cache.metadata (setUntil payload 0)) payload 1
      = some (JsonFileCache.entry key (setUntil payload 0)) := by
    simp [JsonFileCache.freshEntry, JsonFileCache.metadata, JsonFileCache.entry, setUntil,
      JsonFileCache.expiresAt]
  have hexpired : cache.expiresAt (setUntil payload 0) < 1 := by simp
  simp only [JsonFileCache.run, ExpiringMap.run, JsonFileCache.step, ExpiringMap.step, hset,
    hget, hfresh, Function.update_self, Option.bind_some, if_pos hexpired,
    List.cons.injEq, Except.ok.injEq, reduceCtorEq, and_true, and_false] at hrun

omit payload h

theorem refinesMap_iff [Inhabited J] (hK : K.Nonempty) (hT : T.Nonempty) : RefinesMap J cache K T
      ↔ (∀ key ∈ K, cache.Storable key) ∧ Set.InjOn cache.fileName K ∧ 0 ∉ T := by
  obtain ⟨key, hkey⟩ := hK
  obtain ⟨t, ht⟩ := hT
  constructor
  · intro h
    exact ⟨fun _ hother => storable_of_refinesMap default h ht hother,
      injOn_of_refinesMap default h ht, zero_notMem_of_refinesMap default h hkey⟩
  · rintro ⟨hstorable, hinj, hzero⟩ operations hkeys hexpires _
    have hempty : Represents (J := J) cache K T (fun _ => none) (fun _ => none) :=
      ⟨fun _ _ => rfl, fun _ _ _ hnone => by cases hnone⟩
    exact hempty.run hstorable hinj hzero operations hkeys hexpires

end

namespace Example

/-- A cache whose digests are not needed: its keys are short. -/
def cache : JsonFileCache := { sha256 := fun _ => "" }

/-- An entry of one key is read under another one. -/
theorem separators_collide :
    ¬ ∀ (cache : JsonFileCache) (K : Set String) (T : Set ℚ), RefinesMap Nat cache K T := by
  intro h
  have hrun := h cache {"a/b", "a__b"} {2}
    [.set "a/b" ⟨7, "", none, "ok", some 1, 1, ""⟩, .get "a__b" 2]
    (by simp [Operation.key])
    (by
      intro operation hmem t ht
      simp only [List.mem_cons, List.not_mem_nil, or_false] at hmem
      rcases hmem with rfl | rfl
      · exact (Option.some.inj ht).symm.trans (by norm_num [JsonFileCache.expiresAt])
      · cases ht)
    (by simp [Operation.time?])
  have hget := congrArg (fun results => results.map
    (fun result => (result.toOption.bind id).map CacheEntry.parsedResult)) hrun
  revert hget
  decide +kernel

/-- A key of 162 bytes. -/
def longKey (last : Char) : String := String.ofList (List.replicate 161 'a' ++ [last])

/-- A cache with the digests of two long keys. -/
def digesting : JsonFileCache where
  sha256 := fun key =>
    if key = longKey 'b' then
      "b963d0af72e6c4847ac669f6dcd7fe837f45b0ad11fbb9ea6f600fa46cc6268f"
    else if key = longKey 'c' then
      "6259782d0546591f02d257b682d9b5b8b89ff85a945adc869c7e9a33d7db4cbb"
    else ""

def keys : List String := ["a/b", "a/c", longKey 'b', longKey 'c']

example : digesting.fileName (longKey 'b') = String.ofList (List.replicate 80 'a') ++ "__"
    ++ digesting.sha256 (longKey 'b') ++ ".json" := by
  decide +kernel

theorem refinesMap_distinct : RefinesMap Nat digesting (fun key => key ∈ keys) {2} := by
  refine (refinesMap_iff ⟨"a/b", List.mem_cons_self⟩ (Set.singleton_nonempty _)).mpr
    ⟨fun key hkey => ?_, fun key hkey other hother hname => ?_, by simp⟩
  · have hall : ∀ key ∈ keys, hasNull (digesting.fileName key) = false
        ∧ temporaryBytes (digesting.fileName key) ≤ nameMax := by
      decide +kernel
    exact hall key hkey
  · have hall : ∀ key ∈ keys, ∀ other ∈ keys,
        digesting.fileName key = digesting.fileName other → key = other := by
      decide +kernel
    exact hall key hkey other hother hname

end Example

end OsmPolygonWikidata.Cache
