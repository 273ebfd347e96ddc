import OsmPolygonWikidata.Basic.Batches
import OsmPolygonWikidata.Basic.Dict
import OsmPolygonWikidata.Basic.JsonValues
import OsmPolygonWikidata.Domain.WikidataQids

/-! # Reading entities from Wikidata

`AugmentationWikimediaClient.entities` of `augmentation/mediawiki.py`. The identifiers are sorted
and requested in groups of fifty; what is no QID is left out, as it comes from tags that users
write. The service is a parameter `fetch`. A reply is a map from the requested identifiers, where
an entity that was redirected has another `id` inside, or a list of entities; both become a
dictionary in which each entity has the identifier that it is found under.

`labels_of_entities` says which labels of an honest service can be found in what the client returns.
-/

namespace OsmPolygonWikidata.Augmentation

open Python

/-- What reading entities and making facts raises. -/
inductive FactError where
  | noAttribute
  | notIterable
  | notANumber
  | unavailable
  deriving DecidableEq

/-- The fields of a JSON object. -/
abbrev Fields := List (String × JsonValue)

/-- Entities under their identifiers. -/
abbrev Entities := List (String × Fields)

/-- The labels of an entity: a language and the label. -/
abbrev Labels := List (String × String)

/-! ## Reading JSON -/

/-- `value.get(key)`. -/
def getField (value : JsonValue) (key : String) : Except FactError (Option JsonValue) :=
  match value with
  | .object fields => .ok (fields.lookup key)
  | _ => .error .noAttribute

/-- `value or {}`. -/
def orEmpty : Option JsonValue → JsonValue
  | some value => if value.truth then value else .object []
  | none => .object []

/-- The fields of a value whose `get` or `items` is called. -/
def fieldsOf : JsonValue → Except FactError Fields
  | .object fields => .ok fields
  | _ => .error .noAttribute

/-- `for item in value`. -/
def iterate : JsonValue → Except FactError (List JsonValue)
  | .array items => .ok items
  | .object fields => .ok (fields.map (fun field => .string field.1))
  | .string text => .ok (text.toList.map (fun c => .string (String.ofList [c])))
  | _ => .error .notIterable

/-- `bool(fields.get(key))`. -/
def holdsField (fields : Fields) (key : String) : Bool :=
  ((fields.lookup key).map JsonValue.truth).getD false

/-! ## The client -/

section

variable (decimal : Char → Bool) (repr : JsonValue → String)

/-- One turn of the loop of `_normalize_entity_map`. -/
def normalizeMapEntry (entry : String × JsonValue) : Option (String × Fields) :=
  match entry.2 with
  | .object fields =>
    if holdsField fields "id" then
      some (entry.1, Dict.put Prod.fst ("id", .string entry.1) fields)
    else none
  | _ => none

/-- `str(entity.get("id", ""))`. -/
def idText (entity : Fields) : String :=
  ((entity.lookup "id").map (JsonValue.str repr)).getD ""

/-- One turn of the loop of `_normalize_entity_list`. -/
def normalizeListEntry (entity : JsonValue) : Option (String × Fields) :=
  match entity with
  | .object fields =>
    if holdsField fields "id" then
      some (idText repr fields, fields)
    else none
  | _ => none

def normalizeEntities : JsonValue → Entities
  | .object entries => Dict.build Prod.fst (entries.filterMap normalizeMapEntry)
  | .array items => Dict.build Prod.fst (items.filterMap (normalizeListEntry repr))
  | _ => []

variable (fetch : List String → String → Except FactError Fields)

def entityChunk (chunk : List String) (props : String) : Except FactError Entities := do
  let data ← fetch chunk props
  return normalizeEntities repr ((data.lookup "entities").getD (.array []))

/-- The identifiers that are requested. -/
def requestedIds (qids : List String) : List String :=
  ((qids.filter (fun qid => isValidQid decimal qid.toList)).eraseDups).insertionSort (· ≤ ·)

/-- `AugmentationWikimediaClient.entities`. -/
def entities (qids : List String) (props : String) : Except FactError Entities :=
  (chunks (requestedIds decimal qids) 50).foldlM (fun out chunk => do
    let found ← entityChunk repr fetch chunk props
    return Dict.update Prod.fst out found) []

def labelMap (entity : Fields) : Except FactError Labels := do
  let labels ← fieldsOf (orEmpty (entity.lookup "labels"))
  return labels.filterMap (fun label =>
    match label.2 with
    | .object fields =>
      if holdsField fields "value" then
        some (label.1, ((fields.lookup "value").map (JsonValue.str repr)).getD "")
      else none
    | _ => none)

def labelMaps (found : Entities) : Except FactError (List (String × Labels)) :=
  found.mapM (fun entry => do
    let labels ← labelMap repr entry.2
    return (entry.1, labels))

/-- `labels.get(id, {})`. -/
def labelsUnder (labels : List (String × Labels)) (id : String) : Labels :=
  (labels.lookup id).getD []

/-! ## An honest service -/

/-- A reply with an entity under each of the identifiers `ids`, and under no other: a map, or a
list of entities that name their identifiers. -/
structure Reply (ids : List String) (data : Fields) (entries : Entities) : Prop where
  shape : data.lookup "entities" = some (.object (entries.map (fun e => (e.1, .object e.2))))
    ∨ (data.lookup "entities" = some (.array (entries.map (fun e => .object e.2)))
      ∧ ∀ e ∈ entries, e.2.lookup "id" = some (.string e.1))
  identified : ∀ e ∈ entries, holdsField e.2 "id" = true
  covers : ∀ id, id ∈ entries.map Prod.fst ↔ id ∈ ids

/-- The service answers with the requested entities, and their labels are `labelsOf`. -/
structure Honest (labelsOf : String → Labels) : Prop where
  answers : ∀ ids props data, fetch ids props = .ok data → ∃ entries, Reply ids data entries
    ∧ (props = "labels" → ∀ e ∈ entries, labelMap repr e.2 = .ok (labelsOf e.1))

end

/-! ## What the client returns -/

variable {decimal : Char → Bool} {repr : JsonValue → String}
  {fetch : List String → String → Except FactError Fields} {labelsOf : String → Labels}
  {ids qids : List String} {props : String} {data : Fields} {entries found : Entities}

/-- An entity that can be found under its identifier, with its labels when these were asked for. -/
structure FiledEntity (repr : JsonValue → String) (labelsOf : String → Labels) (props : String)
    (entry : String × Fields) : Prop where
  identified : idText repr entry.2 = entry.1
  labelled : props = "labels" → labelMap repr entry.2 = .ok (labelsOf entry.1)

theorem idText_put (entity : Fields) (id : String) :
    idText repr (Dict.put Prod.fst ("id", .string id) entity) = id := by
  rw [idText, Dict.lookup_put, if_pos rfl]
  rfl

theorem labelMap_put (entity : Fields) (id : JsonValue) :
    labelMap repr (Dict.put Prod.fst ("id", id) entity) = labelMap repr entity := by
  rw [labelMap, Dict.lookup_put, if_neg (by decide)]
  rfl

theorem Reply.normalizeEntities_eq (h : Reply ids data entries) (repr : JsonValue → String) :
    ∃ filed : Entities,
      normalizeEntities repr ((data.lookup "entities").getD (.array [])) = Dict.build Prod.fst filed
      ∧ filed.map Prod.fst = entries.map Prod.fst
      ∧ ∀ entry ∈ filed, idText repr entry.2 = entry.1
        ∧ ∃ e ∈ entries, e.1 = entry.1 ∧ labelMap repr entry.2 = labelMap repr e.2 := by
  rcases h.shape with hshape | ⟨hshape, hnamed⟩
  · -- a map: the identifier inside is replaced
    refine ⟨entries.map (fun e => (e.1, Dict.put Prod.fst ("id", .string e.1) e.2)), ?_, ?_, ?_⟩
    · rw [hshape]
      show Dict.build Prod.fst ((entries.map _).filterMap normalizeMapEntry) = _
      rw [List.filterMap_map, List.filterMap_eq_map_iff_forall_eq_some.mpr]
      intro e he
      exact if_pos (h.identified e he)
    · rw [List.map_map]
      rfl
    · intro entry hentry
      obtain ⟨e, he, rfl⟩ := List.mem_map.mp hentry
      exact ⟨idText_put e.2 e.1, e, he, rfl, labelMap_put e.2 _⟩
  · -- a list: the entities name themselves
    have hid : ∀ e ∈ entries, idText repr e.2 = e.1 := by
      intro e he
      rw [idText, hnamed e he]
      rfl
    refine ⟨entries, ?_, rfl, fun entry hentry => ⟨hid entry hentry, entry, hentry, rfl, rfl⟩⟩
    rw [hshape]
    show Dict.build Prod.fst ((entries.map _).filterMap (normalizeListEntry repr)) = _
    rw [List.filterMap_map]
    have hentries : entries.filterMap
        (normalizeListEntry repr ∘ fun e : String × Fields => JsonValue.object e.2) = entries := by
      refine (List.filterMap_eq_map_iff_forall_eq_some.mpr fun e he => ?_).trans (List.map_id _)
      refine (if_pos (h.identified e he)).trans ?_
      rw [hid e he]
      rfl
    rw [hentries]

theorem entityChunk_spec (h : Honest repr fetch labelsOf)
    (hchunk : entityChunk repr fetch ids props = .ok found) :
    (∀ id, id ∈ found.map Prod.fst ↔ id ∈ ids)
      ∧ ∀ entry ∈ found, FiledEntity repr labelsOf props entry := by
  obtain ⟨data, hdata, hfound⟩ := bind_eq_ok.mp hchunk
  cases hfound
  obtain ⟨entries, hreply, hlabels⟩ := h.answers ids props data hdata
  obtain ⟨filed, heq, hkeys, hfiled⟩ := hreply.normalizeEntities_eq repr
  rw [heq]
  constructor
  · intro id
    rw [Dict.mem_keys_build, hkeys, hreply.covers]
  · intro entry hentry
    obtain ⟨hid, e, he, hkey, hmap⟩ := hfiled entry (Dict.mem_build_iff.mp hentry).mem
    refine ⟨hid, fun hprops => ?_⟩
    rw [hmap, hlabels hprops e he, hkey]

theorem foldlM_entityChunk_spec (h : Honest repr fetch labelsOf) (groups : List (List String))
    {out : Entities}
    (hloop : groups.foldlM (fun out chunk => do
      let found ← entityChunk repr fetch chunk props
      return Dict.update Prod.fst out found) out = .ok found) :
    (∀ id, id ∈ found.map Prod.fst ↔ id ∈ out.map Prod.fst ∨ id ∈ groups.flatten)
      ∧ ∀ entry ∈ found, entry ∈ out ∨ FiledEntity repr labelsOf props entry := by
  induction groups generalizing out with
  | nil =>
    cases hloop
    exact ⟨fun id => by simp, fun entry hentry => Or.inl hentry⟩
  | cons chunk groups ih =>
    rw [List.foldlM_cons] at hloop
    obtain ⟨next, hnext, hloop⟩ := bind_eq_ok.mp hloop
    obtain ⟨some, hsome, hnext⟩ := bind_eq_ok.mp hnext
    cases hnext
    obtain ⟨hkeys, hfiled⟩ := entityChunk_spec h hsome
    obtain ⟨hkeys', hfiled'⟩ := ih hloop
    constructor
    · intro id
      rw [hkeys', Dict.mem_keys_update, hkeys, List.flatten_cons, List.mem_append, or_assoc]
    · intro entry hentry
      rcases hfiled' entry hentry with hmem | hgood
      · rcases Dict.mem_of_mem_update hmem with hmem | hmem
        · exact Or.inl hmem
        · exact Or.inr (hfiled entry hmem)
      · exact Or.inr hgood

theorem mem_requestedIds {id : String} :
    id ∈ requestedIds decimal qids ↔ id ∈ qids ∧ isValidQid decimal id.toList = true := by
  rw [requestedIds, (List.perm_insertionSort _ _).mem_iff, List.mem_eraseDups, List.mem_filter]

/-- **What the client returns.** The valid identifiers, each with an entity that is filed
under it. -/
theorem entities_spec (h : Honest repr fetch labelsOf)
    (hfound : entities decimal repr fetch qids props = .ok found) :
    (∀ id, id ∈ found.map Prod.fst ↔ id ∈ qids ∧ isValidQid decimal id.toList = true)
      ∧ ∀ entry ∈ found, FiledEntity repr labelsOf props entry := by
  obtain ⟨hkeys, hfiled⟩ := foldlM_entityChunk_spec h _ hfound
  constructor
  · intro id
    rw [hkeys, flatten_chunks _ (by decide), mem_requestedIds]
    simp
  · intro entry hentry
    exact (hfiled entry hentry).resolve_left List.not_mem_nil

/-- **The labels that can be found.** Those of the identifiers that were asked for and are QIDs. -/
theorem labels_of_entities (h : Honest repr fetch labelsOf) {labels : List (String × Labels)}
    (hfound : entities decimal repr fetch qids "labels" = .ok found)
    (hlabels : labelMaps repr found = .ok labels) (id : String) :
    labelsUnder labels id
      = if id ∈ qids ∧ isValidQid decimal id.toList = true then labelsOf id else [] := by
  obtain ⟨hkeys, hfiled⟩ := entities_spec h hfound
  have hentry : ∀ entry ∈ labels, entry.1 ∈ found.map Prod.fst ∧ entry.2 = labelsOf entry.1 := by
    intro entry hmem
    obtain ⟨e, he, hok⟩ := exists_of_mem_mapM hlabels hmem
    rw [(hfiled e he).labelled rfl] at hok
    cases hok
    exact ⟨List.mem_map_of_mem he, rfl⟩
  have hcovered : ∀ k ∈ found.map Prod.fst, k ∈ labels.map Prod.fst := by
    intro k hk
    obtain ⟨e, he, rfl⟩ := List.mem_map.mp hk
    obtain ⟨entry, hmem, hok⟩ := exists_mem_of_mapM hlabels he
    rw [(hfiled e he).labelled rfl] at hok
    cases hok
    exact List.mem_map.mpr ⟨_, hmem, rfl⟩
  rw [labelsUnder]
  cases hlookup : labels.lookup id with
  | some under =>
    obtain ⟨hmem, heq⟩ := hentry _ (mem_of_lookup_eq_some hlookup)
    rw [if_pos ((hkeys id).mp hmem)]
    exact heq
  | none =>
    rw [if_neg]
    · rfl
    · intro hasked
      obtain ⟨entry, hmem, rfl⟩ := List.mem_map.mp (hcovered id ((hkeys id).mpr hasked))
      have hne := List.lookup_eq_none_iff.mp hlookup entry hmem
      simp at hne

end OsmPolygonWikidata.Augmentation
