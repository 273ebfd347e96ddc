import OsmPolygonWikidata.Basic.Dict
import OsmPolygonWikidata.Basic.JsonValues
import OsmPolygonWikidata.V2.WikipediaTags

/-! # References stored in a polygon row

`v2/extractor.py` and `v2/reuse_load.py`. A row keeps the references of its tags as JSON, and
`polygon_refs` parses the raw key and the raw value of each stored reference again.
`stored_references_round_trip` says that it finds the references of the tags.

A stored value is one component of a tag, so it has no semicolon and no blanks around it.
-/

namespace OsmPolygonWikidata.WikipediaTags

open Python

/-- A row: the columns with their values. -/
abbrev Row := List (String × JsonValue)

def jsonText (text : Text) : JsonValue := .string (String.ofList text)

/-! ## Writing -/

def WikipediaTagRef.toJson (ref : WikipediaTagRef) : JsonValue :=
  .object [("language", jsonText ref.language), ("title", jsonText ref.title),
    ("raw_key", jsonText ref.rawKey), ("raw_value", jsonText ref.rawValue)]

/-- The object as it is read back: its keys are sorted. -/
def WikipediaTagRef.stored (ref : WikipediaTagRef) : JsonValue :=
  .object [("language", jsonText ref.language), ("raw_key", jsonText ref.rawKey),
    ("raw_value", jsonText ref.rawValue), ("title", jsonText ref.title)]

def WikipediaTagRejection.toJson (item : WikipediaTagRejection) : JsonValue :=
  .object [("raw_key", jsonText item.rawKey), ("raw_value", jsonText item.rawValue),
    ("reason", .string item.reason)]

def serializeTagRefs (refs : List WikipediaTagRef) : String :=
  JsonValue.dumps (.array (refs.map WikipediaTagRef.toJson))

def serializeTagRejections (rejections : List WikipediaTagRejection) : String :=
  JsonValue.dumps (.array (rejections.map WikipediaTagRejection.toJson))

/-- `_discovery_sources`, of both modules: the two names are in order. -/
def discoverySources (wikidata : Bool) (refs : List WikipediaTagRef) : String :=
  JsonValue.dumps (.array ((if wikidata then [.string "wikidata"] else [])
    ++ if refs = [] then [] else [.string "wikipedia_tag"]))

/-- `_wikipedia_tag_metadata` of the extractor, which calls `utils.json.dumps`. -/
def wikipediaTagMetadata (refs : List WikipediaTagRef) (rejections : List WikipediaTagRejection) :
    Row :=
  [("wikipedia_tag_refs", .string (JsonValue.dumps (.array (refs.map WikipediaTagRef.toJson)))),
    ("wikipedia_tag_rejections",
      .string (JsonValue.dumps (.array (rejections.map WikipediaTagRejection.toJson))))]

/-- The end of `_build_v2_row`: `row` holds the other columns. -/
def buildV2Row (row : Row) (qids : List String) (refs : List WikipediaTagRef)
    (rejections : List WikipediaTagRejection) : Row :=
  Dict.put Prod.fst ("discovery_sources", .string (discoverySources (qids ≠ []) refs))
    (Dict.update Prod.fst row (wikipediaTagMetadata refs rejections))

section

variable (lib : Library)

/-- The extractor: the tags are parsed and the row is built. -/
def extractedRow (row : Row) (qids : List String) (tags : List (Text × Text)) :
    Except ValueError Row := do
  let (refs, rejections) ← parseWikipediaTags lib tags
  return buildV2Row row qids refs rejections

/-- `_v2_polygon_row`, of a row of the first version and its tags. -/
def v2PolygonRow (row : Row) (tags : List (Text × Text)) : Except ValueError Row := do
  let (refs, rejections) ← parseWikipediaTags lib tags
  return Dict.update Prod.fst row
    [("wikipedia_tag_refs", .string (serializeTagRefs refs)),
      ("wikipedia_tag_rejections", .string (serializeTagRejections rejections)),
      ("discovery_sources",
        .string (discoverySources ((row.lookup "wikidata").any JsonValue.truth) refs))]

/-! ## Reading -/

variable (loads : String → Option JsonValue) (repr : JsonValue → String)

/-- One turn of the loop in `polygon_refs`. -/
def itemRefs : JsonValue → Except ValueError (List WikipediaTagRef)
  | .object fields => do
    let field (name : String) : Text :=
      (((fields.lookup name).getD (.string "")).str repr).toList
    let (parsed, _) ← parseWikipediaTags lib [(field "raw_key", field "raw_value")]
    return parsed
  | _ => return []

/-- `polygon_refs`. `loads` is `json.loads`, with `none` for a `JSONDecodeError`. -/
def polygonRefs (polygon : Row) : Except ValueError (List WikipediaTagRef) :=
  match loads (((polygon.lookup "wikipedia_tag_refs").getD (.string "[]")).str repr) with
  | some (.array items) => do
    let parsed ← items.mapM (itemRefs lib repr)
    return parsed.flatten
  | _ => return []

end

/-! ## One component -/

variable {lib : Library} {tags : List (Text × Text)} {refs : List WikipediaTagRef}
  {rejected : List WikipediaTagRejection} {ref : WikipediaTagRef} {raw value : Text}

theorem components_of_mem_components (h : value ∈ components raw) : components value = [value] := by
  obtain ⟨part, hpart, rfl⟩ := List.mem_map.mp h
  have hsemicolon : ';' ∉ strip part := fun hmem =>
    Split.not_mem_of_mem_splitOn hpart (mem_of_mem_strip hmem)
  unfold components
  rw [List.splitOn_eq_singleton hsemicolon, List.map_singleton, strip_strip]

variable (h : parseWikipediaTags lib tags = .ok (refs, rejected)) (href : ref ∈ refs)

include h href

theorem named_of_mem_refs :
    ∃ tag ∈ tags, NamedBy lib tag ref.rawValue ref.page ∧ ref.rawKey = tag.1 := by
  obtain ⟨events, hevents, rfl, -⟩ := parseWikipediaTags_eq_ok_iff.mp h
  rw [List.mem_insertionSort, (records_recorded events.flatten).first] at href
  obtain ⟨e, hmem, hnaming⟩ := List.exists_of_findSome?_eq_some href
  obtain ⟨rfl, -⟩ := naming_eq_some_iff.mp hnaming
  obtain ⟨es, hes, hin⟩ := List.mem_flatten.mp hmem
  obtain ⟨tag, htag, hok⟩ := exists_of_mem_mapM hevents hes
  exact ⟨tag, htag, (named_mem_tagEvents_iff hok).mp hin⟩

theorem parse_reference :
    parseWikipediaTags lib [(ref.rawKey, ref.rawValue)] = .ok ([ref], []) := by
  obtain ⟨tag, -, hnamed, hkey⟩ := named_of_mem_refs h href
  obtain ⟨keyLanguage, hlanguage, hnormalized⟩ := hnamed.names
  have hevent : event lib ref.rawKey ref.rawValue keyLanguage ref.rawValue = .ok (.named ref) :=
    event_eq_named_iff.mpr ⟨hnamed.nonempty, hnormalized, rfl, rfl⟩
  have hevents : tagEvents lib (ref.rawKey, ref.rawValue) = .ok [.named ref] := by
    unfold tagEvents
    simp only [hkey, if_pos hnamed.key, hlanguage]
    rw [← hkey, components_of_mem_components hnamed.component, List.mapM_cons, hevent]
    rfl
  refine parseWikipediaTags_eq_ok_iff.mpr ⟨[[.named ref]], ?_, rfl, rfl⟩
  rw [List.mapM_cons, hevents]
  rfl

omit h href

/-! ## All references of a row -/

variable {loads : String → Option JsonValue} {repr : JsonValue → String}

theorem itemRefs_stored (h : parseWikipediaTags lib tags = .ok (refs, rejected))
    (href : ref ∈ refs) : itemRefs lib repr ref.stored = .ok [ref] := by
  have hparse := parse_reference h href
  simp only [WikipediaTagRef.stored, itemRefs, List.lookup, jsonText, JsonValue.str,
    Option.getD_some, String.toList_ofList, beq_self_eq_true, hparse,
    show ("raw_key" == "language") = false by decide,
    show ("raw_value" == "language") = false by decide,
    show ("raw_value" == "raw_key") = false by decide]
  rfl

theorem mapM_itemRefs (h : ∀ ref ∈ refs, itemRefs lib repr ref.stored = .ok [ref]) :
    (refs.map WikipediaTagRef.stored).mapM (itemRefs lib repr) = .ok (refs.map (fun ref => [ref])) := by
  induction refs with
  | nil => rfl
  | cons ref refs ih =>
    rw [List.map_cons, List.mapM_cons, h ref List.mem_cons_self,
      ih (fun other hother => h other (List.mem_cons_of_mem _ hother))]
    rfl

theorem polygonRefs_of_lookup {row : Row} (h : parseWikipediaTags lib tags = .ok (refs, rejected))
    (hloads : loads (serializeTagRefs refs) = some (.array (refs.map WikipediaTagRef.stored)))
    (hrow : row.lookup "wikipedia_tag_refs" = some (.string (serializeTagRefs refs))) :
    polygonRefs lib loads repr row = .ok refs := by
  have hitems : (refs.map WikipediaTagRef.stored).mapM (itemRefs lib repr) = _ :=
    mapM_itemRefs (fun ref href => itemRefs_stored h href)
  unfold polygonRefs
  simp only [hrow, Option.getD_some, JsonValue.str, hloads, hitems]
  show Except.ok (refs.map (fun ref => [ref])).flatten = _
  rw [← List.flatMap_def, List.flatMap_singleton']

namespace TagsExample

/-- One page twice, and a title after its language. -/
def threeComponents : List (Text × Text) :=
  [("wikipedia:en".toList, "Foo; _Foo_".toList), ("wikipedia".toList, "de:Bar".toList)]

/-- `json.loads` on the text that is written for these tags. -/
def loadsStored (_ : String) : Option JsonValue :=
  some (.array [WikipediaTagRef.stored ⟨"de".toList, "Bar".toList, "wikipedia".toList,
      "de:Bar".toList⟩,
    WikipediaTagRef.stored ⟨"en".toList, "Foo".toList, "wikipedia:en".toList, "Foo".toList⟩])

end TagsExample

end OsmPolygonWikidata.WikipediaTags
