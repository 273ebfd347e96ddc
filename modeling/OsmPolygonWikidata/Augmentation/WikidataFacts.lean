import Mathlib.Data.List.ReduceOption
import OsmPolygonWikidata.Augmentation.EntityClient

/-! # Wikidata facts

`augmentation/wikidata_facts.py` and `normalize_facts` of `augmentation/wikimedia.py`. The claims of
an entity about eight properties become facts, which carry the labels of the property and, when the
value is an entity, the labels of the value. The labels are requested for all of them at once, and
the client leaves out what is no QID: properties are never asked for.

`labelled_iff` says for which claims the facts carry the labels that the service has.
-/

namespace OsmPolygonWikidata.Augmentation

open Python

/-- `FACT_PROPERTIES`. -/
def factProperties : List String :=
  ["P17", "P31", "P131", "P279", "P361", "P571", "P1435", "P2044"]

/-- What the code takes from its surroundings: the decimal digits, how containers are shown,
`float`, SHA-256, and the time at which the facts of an entity are made. -/
structure FactLibrary (N : Type) where
  decimal : Char → Bool
  repr : JsonValue → String
  float : JsonValue → Except FactError N
  sha256 : String → String
  utcNowIso : Fields → String

structure WikidataFact (N : Type) where
  factId : String
  wikidata : String
  propertyId : String
  propertyLabelEn : String
  propertyLabels : String
  valueType : String
  valueEntityId : String
  valueLabelEn : String
  valueLabels : String
  valueText : String
  numericValue : Option N
  unitEntityId : String
  rank : String
  qualifiers : String
  references : String
  retrievedAt : String
  sourceApi : String
  deriving DecidableEq

/-- `FactValue`: the entity, the number, the unit and the text of a value. -/
structure FactValue (N : Type) where
  entityId : String
  numeric : Option N
  unit : String
  text : String

section

variable {N : Type} (lib : FactLibrary N)

/-! ## Which labels are needed -/

def factClaimEntityId (claim : JsonValue) : Except FactError (Option String) := do
  let mainsnak ← getField claim "mainsnak"
  let datavalue ← getField (orEmpty mainsnak) "datavalue"
  let value ← getField (orEmpty datavalue) "value"
  match value with
  | some (.object fields) =>
    if holdsField fields "id" then return some (idText lib.repr fields) else return none
  | _ => return none

def factClaimLabelIds (claims : JsonValue) : Except FactError (List String) := do
  let items ← iterate claims
  let ids ← items.mapM (factClaimEntityId lib)
  return ids.reduceOption

/-- `entity.get("claims") or {}`. -/
def claimsOf (entity : Fields) : Except FactError Fields :=
  fieldsOf (orEmpty (entity.lookup "claims"))

def factEntityLabelIds (entity : Fields) : Except FactError (List String) := do
  let claims ← claimsOf entity
  let ids ← (claims.filter (fun claim => claim.1 ∈ factProperties)).mapM
    (fun claim => factClaimLabelIds lib claim.2)
  return ids.flatten

def factLabelIds (entities : Entities) : Except FactError (List String) := do
  let ids ← entities.mapM (fun entry => factEntityLabelIds lib entry.2)
  return factProperties ++ ids.flatten

/-! ## The value of a claim -/

/-- `str(fields.get(key, default))`. -/
def textOr (default : String) (value : Option JsonValue) : String :=
  (value.map (JsonValue.str lib.repr)).getD default

/-- `value == text`. -/
def hasText (value : Option JsonValue) (text : String) : Bool :=
  match value with
  | some (.string text') => text' = text
  | _ => false

/-- `text.rsplit("/", 1)[-1]`. -/
def afterLastSlash (text : String) : String :=
  String.ofList (text.toList.reverse.takeWhile (· ≠ '/')).reverse

/-- `_quantity_fields`. -/
def quantityFields (datatype : String) (raw : Option JsonValue) :
    Except FactError (Option (FactValue N)) :=
  match raw with
  | some (.object fields) =>
    if datatype = "quantity" then do
      let amount ← lib.float ((fields.lookup "amount").getD (.number "0"))
      let unit := if holdsField fields "unit" then
        afterLastSlash (textOr lib "" (fields.lookup "unit")) else ""
      return some ⟨"", some amount, unit, textOr lib "" (fields.lookup "amount")⟩
    else return none
  | _ => return none

/-- `_entity_id`. -/
def entityId (raw : Option JsonValue) : String :=
  match raw with
  | some (.object fields) => idText lib.repr fields
  | _ => ""

/-- `_time_fields`. -/
def timeFields (raw : Option JsonValue) : Option String :=
  match raw with
  | some (.object fields) => (fields.lookup "time").map (JsonValue.str lib.repr)
  | _ => none

/-- `_primitive_fields`. A Boolean is an `int`. -/
def primitiveFields (raw : Option JsonValue) : Option (FactValue N) :=
  match raw with
  | some (.string text) => some ⟨"", none, "", text⟩
  | some (.number text) => some ⟨"", none, "", text⟩
  | some (.bool value) => some ⟨"", none, "", (JsonValue.bool value).str lib.repr⟩
  | _ => none

/-- `labels.get("en", fallback)`. -/
def english (labels : Labels) (fallback : String) : String := (labels.lookup "en").getD fallback

def factValueFields (snak : Fields) (labels : List (String × Labels)) :
    Except FactError (Option (FactValue N)) := do
  let raw ← getField (orEmpty (snak.lookup "datavalue")) "value"
  let quantity ← quantityFields lib (textOr lib "" (snak.lookup "datatype")) raw
  match quantity with
  | some value => return some value
  | none =>
    let id := entityId lib raw
    if id ≠ "" then
      return some ⟨id, none, "", english (labelsUnder labels id) id⟩
    else
      match timeFields lib raw with
      | some time => return some ⟨"", none, "", time⟩
      | none => return primitiveFields lib raw

/-! ## Facts -/

/-- `dumps(labels)`. -/
def dumpsLabels (labels : Labels) : String :=
  JsonValue.dumps (.object (labels.map (fun label => (label.1, .string label.2))))

/-- `claim.get("mainsnak", {})`, of which `get` is called. -/
def mainsnakOf (claim : JsonValue) : Except FactError Fields := do
  let snak ← getField claim "mainsnak"
  fieldsOf (snak.getD (.object []))

/-- `_normalize_claim`. -/
def normalizeClaim (qid propertyId : String) (claim : JsonValue)
    (labels : List (String × Labels)) (ordinal : Nat) (retrievedAt : String) :
    Except FactError (Option (WikidataFact N)) := do
  let snak ← mainsnakOf claim
  if hasText (snak.lookup "snaktype") "value" then
    let value ← factValueFields lib snak labels
    match value with
    | none => return none
    | some value =>
      let propertyLabels := labelsUnder labels propertyId
      let valueLabels := if value.entityId ≠ "" then labelsUnder labels value.entityId else []
      let distinct := if value.entityId ≠ "" then value.entityId else value.text
      let rank ← getField claim "rank"
      let qualifiers ← getField claim "qualifiers"
      let references ← getField claim "references"
      return some
        { factId := lib.sha256 ("\x1f".intercalate [qid, propertyId, distinct, toString ordinal])
          wikidata := qid
          propertyId := propertyId
          propertyLabelEn := english propertyLabels propertyId
          propertyLabels := dumpsLabels propertyLabels
          valueType := textOr lib "" (snak.lookup "datatype")
          valueEntityId := value.entityId
          valueLabelEn := english valueLabels value.entityId
          valueLabels := dumpsLabels valueLabels
          valueText := value.text
          numericValue := value.numeric
          unitEntityId := value.unit
          rank := textOr lib "normal" rank
          qualifiers := (qualifiers.getD (.object [])).dumps
          references := (references.getD (.array [])).dumps
          retrievedAt := retrievedAt
          sourceApi := "wikidata_action_api" }
  else return none

def normalizePropertyClaims (qid propertyId : String) (claims : JsonValue)
    (labels : List (String × Labels)) (retrievedAt : String) :
    Except FactError (List (WikidataFact N)) := do
  let items ← iterate claims
  let facts ← items.zipIdx.mapM (fun item =>
    normalizeClaim lib qid propertyId item.1 labels item.2 retrievedAt)
  return facts.reduceOption

/-- `normalize_facts`. -/
def normalizeFacts (entity : Fields) (labels : List (String × Labels)) :
    Except FactError (List (WikidataFact N)) := do
  let claims ← claimsOf entity
  let properties := ((claims.map Prod.fst).insertionSort (· ≤ ·)).filter (· ∈ factProperties)
  let facts ← properties.mapM (fun propertyId =>
    normalizePropertyClaims lib (idText lib.repr entity) propertyId
      ((claims.lookup propertyId).getD .null) labels (lib.utcNowIso entity))
  return facts.flatten

def factsForEntities (entities : Entities) (labels : List (String × Labels)) :
    Except FactError (List (WikidataFact N)) := do
  let facts ← entities.mapM (fun entry => normalizeFacts lib entry.2 labels)
  return facts.flatten

def buildWikidataFacts (fetch : List String → String → Except FactError Fields)
    (found : Entities) : Except FactError (List (WikidataFact N)) := do
  let labelIds ← factLabelIds lib found
  let labelled ← entities lib.decimal lib.repr fetch labelIds "labels"
  let labels ← labelMaps lib.repr labelled
  let facts ← factsForEntities lib found labels
  return facts.insertionSort (fun a b => a.factId ≤ b.factId)

/-! ## What a fact should say -/

/-- A fact carries the labels of its property and, if its value is an entity, of its value. -/
structure WikidataFact.Labelled (labelsOf : String → Labels) (fact : WikidataFact N) : Prop where
  property : fact.propertyLabelEn = english (labelsOf fact.propertyId) fact.propertyId
    ∧ fact.propertyLabels = dumpsLabels (labelsOf fact.propertyId)
  value : fact.valueEntityId ≠ "" →
    fact.valueLabelEn = english (labelsOf fact.valueEntityId) fact.valueEntityId
    ∧ fact.valueLabels = dumpsLabels (labelsOf fact.valueEntityId)
    ∧ fact.valueText = english (labelsOf fact.valueEntityId) fact.valueEntityId

/-- `claim` is the claim of an entity about a property that has this number. -/
def HasClaim (entity : Fields) (propertyId : String) (claim : JsonValue) (ordinal : Nat) : Prop :=
  ∃ claims value items, claimsOf entity = .ok claims ∧ claims.lookup propertyId = some value
    ∧ iterate value = .ok items ∧ items[ordinal]? = some claim

/-- A claim that becomes a fact, and the entity that is its value: what `_fact_value_fields` reads
without any labels. -/
def KeptClaim (claim : JsonValue) (id : String) : Prop :=
  ∃ snak value, mainsnakOf claim = .ok snak ∧ hasText (snak.lookup "snaktype") "value" = true
    ∧ factValueFields lib snak [] = .ok (some value) ∧ value.entityId = id

/-- Nothing is lost of a claim: the service has no labels for the property, and none for a value
that is no QID. -/
def NothingLost (labelsOf : String → Labels) (propertyId id : String) : Prop :=
  labelsOf propertyId = [] ∧ (id ≠ "" → isValidQid lib.decimal id.toList = false → labelsOf id = [])

end

/-! ## The value does not depend on the labels -/

section

variable {N : Type} {lib : FactLibrary N} {labels : List (String × Labels)}
  {claim : JsonValue} {snak entity : Fields} {value : FactValue N} {fact : WikidataFact N}
  {qid propertyId id retrievedAt : String} {ordinal : Nat}

theorem entityId_of_quantityFields {datatype : String} {raw : Option JsonValue}
    (h : quantityFields lib datatype raw = .ok (some value)) : value.entityId = "" := by
  unfold quantityFields at h
  split at h
  · split at h
    · obtain ⟨amount, -, h⟩ := bind_eq_ok.mp h
      cases h
      rfl
    · cases h
  · cases h

theorem entityId_of_primitiveFields {raw : Option JsonValue}
    (h : primitiveFields lib raw = some value) : value.entityId = "" := by
  unfold primitiveFields at h
  split at h <;> cases h <;> rfl

theorem factValueFields_relabel (h : factValueFields lib snak labels = .ok (some value))
    (labels' : List (String × Labels)) :
    ∃ text, factValueFields lib snak labels' = .ok (some { value with text := text }) := by
  obtain ⟨raw, hraw, h⟩ := bind_eq_ok.mp h
  obtain ⟨quantity, hquantity, h⟩ := bind_eq_ok.mp h
  simp only [factValueFields, hraw, bind_eq_ok, Except.ok.injEq, exists_eq_left', hquantity]
  cases quantity with
  | some q =>
    cases h
    exact ⟨value.text, rfl⟩
  | none =>
    dsimp only at h ⊢
    by_cases hid : entityId lib raw ≠ ""
    · rw [if_pos hid] at h ⊢
      cases h
      exact ⟨_, rfl⟩
    · rw [if_neg hid] at h ⊢
      exact ⟨value.text, h⟩

theorem text_of_factValueFields (h : factValueFields lib snak labels = .ok (some value))
    (hid : value.entityId ≠ "") :
    value.text = english (labelsUnder labels value.entityId) value.entityId := by
  obtain ⟨raw, -, h⟩ := bind_eq_ok.mp h
  obtain ⟨quantity, hquantity, h⟩ := bind_eq_ok.mp h
  cases quantity with
  | some q =>
    cases h
    exact absurd (entityId_of_quantityFields hquantity) hid
  | none =>
    dsimp only at h
    split at h
    · cases h
      rfl
    · -- times and primitive values name no entity
      split at h
      · cases h
        exact absurd rfl hid
      · exact absurd (entityId_of_primitiveFields (Except.ok.inj h)) hid

/-! ## From claims to facts -/

theorem normalizeClaim_spec
    (h : normalizeClaim lib qid propertyId claim labels ordinal retrievedAt = .ok (some fact)) :
    fact.wikidata = qid ∧ fact.propertyId = propertyId ∧ KeptClaim lib claim fact.valueEntityId
      ∧ fact.Labelled (labelsUnder labels) := by
  obtain ⟨snak, hsnak, h⟩ := bind_eq_ok.mp h
  by_cases htype : hasText (snak.lookup "snaktype") "value" = true
  · rw [if_pos htype] at h
    obtain ⟨found, hvalue, h⟩ := bind_eq_ok.mp h
    cases found with
    | none => cases h
    | some value =>
      obtain ⟨rank, -, h⟩ := bind_eq_ok.mp h
      obtain ⟨qualifiers, -, h⟩ := bind_eq_ok.mp h
      obtain ⟨references, -, h⟩ := bind_eq_ok.mp h
      cases h
      obtain ⟨text, hbare⟩ := factValueFields_relabel hvalue []
      refine ⟨rfl, rfl, ⟨snak, _, hsnak, htype, hbare, rfl⟩, ⟨rfl, rfl⟩, fun hid => ?_⟩
      have hid' : value.entityId ≠ "" := hid
      refine ⟨?_, ?_, text_of_factValueFields hvalue hid'⟩
      · show english (if value.entityId ≠ "" then _ else _) _ = _
        rw [if_pos hid']
      · show dumpsLabels (if value.entityId ≠ "" then _ else _) = _
        rw [if_pos hid']
  · rw [if_neg htype] at h
    cases h

theorem exists_fact_of_kept {result : Option (WikidataFact N)} (hkept : KeptClaim lib claim id)
    (h : normalizeClaim lib qid propertyId claim labels ordinal retrievedAt = .ok result) :
    ∃ fact, result = some fact ∧ fact.propertyId = propertyId ∧ fact.valueEntityId = id := by
  obtain ⟨snak, value, hsnak, htype, hvalue, hid⟩ := hkept
  obtain ⟨text, hvalue'⟩ := factValueFields_relabel hvalue labels
  obtain ⟨snak', hsnak', h⟩ := bind_eq_ok.mp h
  rw [hsnak] at hsnak'
  cases hsnak'
  rw [if_pos htype] at h
  obtain ⟨found, hfound, h⟩ := bind_eq_ok.mp h
  rw [hvalue'] at hfound
  cases hfound
  obtain ⟨rank, -, h⟩ := bind_eq_ok.mp h
  obtain ⟨qualifiers, -, h⟩ := bind_eq_ok.mp h
  obtain ⟨references, -, h⟩ := bind_eq_ok.mp h
  cases h
  exact ⟨_, rfl, rfl, hid⟩

theorem normalizePropertyClaims_spec {claims : JsonValue} {items : List JsonValue}
    {facts : List (WikidataFact N)} (hitems : iterate claims = .ok items)
    (h : normalizePropertyClaims lib qid propertyId claims labels retrievedAt = .ok facts) :
    (∀ fact ∈ facts, ∃ claim ordinal, items[ordinal]? = some claim
      ∧ normalizeClaim lib qid propertyId claim labels ordinal retrievedAt = .ok (some fact))
    ∧ ∀ claim ordinal, items[ordinal]? = some claim → ∃ result,
      normalizeClaim lib qid propertyId claim labels ordinal retrievedAt = .ok result
        ∧ ∀ fact, result = some fact → fact ∈ facts := by
  obtain ⟨items', hitems', h⟩ := bind_eq_ok.mp h
  rw [hitems] at hitems'
  cases hitems'
  obtain ⟨results, hresults, h⟩ := bind_eq_ok.mp h
  cases h
  constructor
  · intro fact hfact
    obtain ⟨item, hitem, hok⟩ := exists_of_mem_mapM hresults (List.reduceOption_mem_iff.mp hfact)
    exact ⟨item.1, item.2, List.mem_zipIdx_iff_getElem?.mp hitem, hok⟩
  · intro claim ordinal hclaim
    have hitem : (claim, ordinal) ∈ items.zipIdx := List.mem_zipIdx_iff_getElem?.mpr hclaim
    obtain ⟨result, hmem, hok⟩ := exists_mem_of_mapM hresults hitem
    refine ⟨result, hok, fun fact hresult => List.reduceOption_mem_iff.mpr ?_⟩
    rw [← hresult]
    exact hmem

theorem normalizeFacts_spec {facts : List (WikidataFact N)}
    (h : normalizeFacts lib entity labels = .ok facts) :
    (∀ fact ∈ facts, ∃ propertyId ∈ factProperties, ∃ claim ordinal,
      HasClaim entity propertyId claim ordinal
        ∧ normalizeClaim lib (idText lib.repr entity) propertyId claim labels ordinal
          (lib.utcNowIso entity) = .ok (some fact))
    ∧ ∀ propertyId ∈ factProperties, ∀ claim ordinal, HasClaim entity propertyId claim ordinal →
      ∃ result, normalizeClaim lib (idText lib.repr entity) propertyId claim labels ordinal
          (lib.utcNowIso entity) = .ok result
        ∧ ∀ fact, result = some fact → fact ∈ facts := by
  obtain ⟨claims, hclaims, h⟩ := bind_eq_ok.mp h
  obtain ⟨groups, hgroups, h⟩ := bind_eq_ok.mp h
  cases h
  have hproperty : ∀ propertyId, propertyId ∈ ((claims.map Prod.fst).insertionSort
      (· ≤ ·)).filter (· ∈ factProperties)
      ↔ propertyId ∈ claims.map Prod.fst ∧ propertyId ∈ factProperties := by
    intro propertyId
    rw [List.mem_filter, (List.perm_insertionSort _ _).mem_iff, decide_eq_true_iff]
  constructor
  · intro fact hfact
    obtain ⟨group, hgroup, hfact⟩ := List.mem_flatten.mp hfact
    obtain ⟨propertyId, hmem, hok⟩ := exists_of_mem_mapM hgroups hgroup
    obtain ⟨items, hitems, -⟩ := bind_eq_ok.mp hok
    obtain ⟨claim, ordinal, hclaim, hfact⟩ := (normalizePropertyClaims_spec hitems hok).1 fact hfact
    obtain ⟨hkey, hfacts⟩ := (hproperty propertyId).mp hmem
    cases hlookup : claims.lookup propertyId with
    | none =>
      -- the key is there
      obtain ⟨entry, hentry, rfl⟩ := List.mem_map.mp hkey
      have hne := List.lookup_eq_none_iff.mp hlookup entry hentry
      simp at hne
    | some value =>
      rw [hlookup] at hitems
      exact ⟨propertyId, hfacts, claim, ordinal,
        ⟨claims, value, items, hclaims, hlookup, hitems, hclaim⟩, hfact⟩
  · rintro propertyId hfacts claim ordinal ⟨claims', value, items, hclaims', hlookup, hitems, hclaim⟩
    rw [hclaims] at hclaims'
    cases hclaims'
    have hkey : propertyId ∈ claims.map Prod.fst :=
      List.mem_map.mpr ⟨_, mem_of_lookup_eq_some hlookup, rfl⟩
    obtain ⟨group, hgroup, hok⟩ := exists_mem_of_mapM hgroups
      ((hproperty propertyId).mpr ⟨hkey, hfacts⟩)
    rw [hlookup] at hok
    obtain ⟨result, hresult, hmem⟩ := (normalizePropertyClaims_spec hitems hok).2 claim ordinal hclaim
    exact ⟨result, hresult, fun fact hfact => List.mem_flatten.mpr ⟨group, hgroup, hmem fact hfact⟩⟩

/-! ## Which labels are asked for -/

theorem isValidQid_of_property {decimal : Char → Bool} (h : propertyId ∈ factProperties) :
    isValidQid decimal propertyId.toList = false := by
  simp only [factProperties, List.mem_cons, List.not_mem_nil, or_false] at h
  rcases h with rfl | rfl | rfl | rfl | rfl | rfl | rfl | rfl <;> rfl

theorem truth_of_isValidQid {decimal : Char → Bool} {repr : JsonValue → String}
    {value : JsonValue} (h : isValidQid decimal (value.str repr).toList = true) :
    value.truth = true := by
  by_contra hfalse
  have hstr := JsonValue.str_of_truth repr (Bool.not_eq_true _ ▸ hfalse)
  simp only [List.mem_cons, List.not_mem_nil, or_false] at hstr
  rcases hstr with hs | hs | hs | hs | hs | hs | hs | hs <;> rw [hs] at h <;> cases h

theorem orEmpty_object (fields : Fields) : orEmpty (some (.object fields)) = .object fields := by
  cases fields <;> rfl

theorem orEmpty_of_fieldsOf {found : Option JsonValue}
    (h : fieldsOf (found.getD (.object [])) = .ok snak) : orEmpty found = .object snak := by
  cases found with
  | none =>
    cases h
    rfl
  | some found =>
    have hobject : found = .object snak := by
      cases found with
      | object fields =>
        cases h
        rfl
      | _ => cases h
    rw [hobject, orEmpty_object]

theorem entityId_of_factValueFields (h : factValueFields lib snak labels = .ok (some value))
    (hid : value.entityId ≠ "") :
    ∃ raw, getField (orEmpty (snak.lookup "datavalue")) "value" = .ok raw
      ∧ entityId lib raw = value.entityId := by
  obtain ⟨raw, hraw, h⟩ := bind_eq_ok.mp h
  obtain ⟨quantity, hquantity, h⟩ := bind_eq_ok.mp h
  refine ⟨raw, hraw, ?_⟩
  cases quantity with
  | some q =>
    cases h
    exact absurd (entityId_of_quantityFields hquantity) hid
  | none =>
    dsimp only at h
    split at h
    · cases h
      rfl
    · split at h
      · cases h
        exact absurd rfl hid
      · exact absurd (entityId_of_primitiveFields (Except.ok.inj h)) hid

theorem factClaimEntityId_of_kept (hkept : KeptClaim lib claim id)
    (hqid : isValidQid lib.decimal id.toList = true) :
    factClaimEntityId lib claim = .ok (some id) := by
  obtain ⟨snak, value, hsnak, -, hvalue, rfl⟩ := hkept
  have hid : value.entityId ≠ "" := by
    intro hempty
    rw [hempty] at hqid
    cases hqid
  obtain ⟨raw, hraw, hentity⟩ := entityId_of_factValueFields hvalue hid
  obtain ⟨mainsnak, hmainsnak, hfields⟩ := bind_eq_ok.mp hsnak
  refine bind_eq_ok.mpr ⟨mainsnak, hmainsnak, ?_⟩
  rw [orEmpty_of_fieldsOf hfields]
  refine bind_eq_ok.mpr ⟨snak.lookup "datavalue", rfl, bind_eq_ok.mpr ⟨raw, hraw, ?_⟩⟩
  -- only an object names an entity
  unfold entityId at hentity
  split at hentity
  · rename_i fields
    show (if holdsField fields "id" = true then _ else _) = _
    rw [← hentity] at hqid ⊢
    rw [if_pos]
    · rfl
    · cases hlookup : fields.lookup "id" with
      | none =>
        rw [idText, hlookup] at hqid
        cases hqid
      | some stored =>
        rw [idText, hlookup] at hqid
        rw [holdsField, hlookup]
        exact truth_of_isValidQid hqid
  · exact absurd hentity.symm hid

/-- The identifiers that labels are asked for: those of all values that are QIDs, but also of the
properties. -/
theorem mem_factLabelIds {found : Entities} {ids : List String} {entry : String × Fields}
    (hids : factLabelIds lib found = .ok ids) (hentry : entry ∈ found)
    (hproperty : propertyId ∈ factProperties) (hclaim : HasClaim entry.2 propertyId claim ordinal)
    (hkept : KeptClaim lib claim id) (hqid : isValidQid lib.decimal id.toList = true) :
    id ∈ ids := by
  obtain ⟨groups, hgroups, h⟩ := bind_eq_ok.mp hids
  cases h
  obtain ⟨group, hgroup, hok⟩ := exists_mem_of_mapM hgroups hentry
  obtain ⟨claims, hclaims, hok⟩ := bind_eq_ok.mp hok
  obtain ⟨perProperty, hperProperty, hok⟩ := bind_eq_ok.mp hok
  cases hok
  obtain ⟨claims', value, items, hclaims', hlookup, hitems, hitem⟩ := hclaim
  rw [hclaims] at hclaims'
  cases hclaims'
  have hfiltered : (propertyId, value) ∈ claims.filter (fun claim => claim.1 ∈ factProperties) :=
    List.mem_filter.mpr ⟨mem_of_lookup_eq_some hlookup, decide_eq_true hproperty⟩
  obtain ⟨perClaim, hperClaim, hok⟩ := exists_mem_of_mapM hperProperty hfiltered
  obtain ⟨items', hitems', hok⟩ := bind_eq_ok.mp hok
  rw [hitems] at hitems'
  cases hitems'
  obtain ⟨found, hfound, hok⟩ := bind_eq_ok.mp hok
  cases hok
  obtain ⟨collected, hcollected, hok⟩ := exists_mem_of_mapM hfound (List.mem_of_getElem? hitem)
  rw [factClaimEntityId_of_kept hkept hqid] at hok
  cases hok
  refine List.mem_append_right _ (List.mem_flatten.mpr ⟨_, hgroup, ?_⟩)
  exact List.mem_flatten.mpr ⟨_, hperClaim, List.reduceOption_mem_iff.mpr hcollected⟩

/-! ## Which facts carry their labels -/

variable {fetch : List String → String → Except FactError Fields} {labelsOf : String → Labels}
  {found : Entities} {facts : List (WikidataFact N)}

variable (h : Honest lib.repr fetch labelsOf)
  (hbuild : buildWikidataFacts lib fetch found = .ok facts)

include h hbuild

theorem buildWikidataFacts_spec : ∃ ids labels, factLabelIds lib found = .ok ids
      ∧ (∀ id, labelsUnder labels id
        = if id ∈ ids ∧ isValidQid lib.decimal id.toList = true then labelsOf id else [])
      ∧ (∀ fact ∈ facts, ∃ entry ∈ found, ∃ propertyId ∈ factProperties, ∃ claim ordinal,
        HasClaim entry.2 propertyId claim ordinal
          ∧ normalizeClaim lib (idText lib.repr entry.2) propertyId claim labels ordinal
            (lib.utcNowIso entry.2) = .ok (some fact))
      ∧ ∀ entry ∈ found, ∀ propertyId ∈ factProperties, ∀ claim ordinal,
        HasClaim entry.2 propertyId claim ordinal → ∃ result,
          normalizeClaim lib (idText lib.repr entry.2) propertyId claim labels ordinal
            (lib.utcNowIso entry.2) = .ok result
          ∧ ∀ fact, result = some fact → fact ∈ facts := by
  obtain ⟨ids, hids, hbuild⟩ := bind_eq_ok.mp hbuild
  obtain ⟨labelled, hlabelled, hbuild⟩ := bind_eq_ok.mp hbuild
  obtain ⟨labels, hlabels, hbuild⟩ := bind_eq_ok.mp hbuild
  obtain ⟨unsorted, hunsorted, hbuild⟩ := bind_eq_ok.mp hbuild
  cases hbuild
  obtain ⟨groups, hgroups, hunsorted⟩ := bind_eq_ok.mp hunsorted
  cases hunsorted
  refine ⟨ids, labels, hids, labels_of_entities h hlabelled hlabels, fun fact hfact => ?_, ?_⟩
  · rw [(List.perm_insertionSort _ _).mem_iff] at hfact
    obtain ⟨group, hgroup, hfact⟩ := List.mem_flatten.mp hfact
    obtain ⟨entry, hentry, hok⟩ := exists_of_mem_mapM hgroups hgroup
    exact ⟨entry, hentry, (normalizeFacts_spec hok).1 fact hfact⟩
  · intro entry hentry propertyId hproperty claim ordinal hclaim
    obtain ⟨group, hgroup, hok⟩ := exists_mem_of_mapM hgroups hentry
    obtain ⟨result, hresult, hmem⟩ :=
      (normalizeFacts_spec hok).2 propertyId hproperty claim ordinal hclaim
    refine ⟨result, hresult, fun fact hfact => ?_⟩
    rw [(List.perm_insertionSort _ _).mem_iff]
    exact List.mem_flatten.mpr ⟨group, hgroup, hmem fact hfact⟩

theorem wikidata_mem_of_build {qids : List String} {props : String}
    (hfound : entities lib.decimal lib.repr fetch qids props = .ok found) (hfact : fact ∈ facts) :
    fact.wikidata ∈ qids := by
  obtain ⟨ids, labels, -, -, hfrom, -⟩ := buildWikidataFacts_spec h hbuild
  obtain ⟨entry, hentry, propertyId, -, claim, ordinal, -, hok⟩ := hfrom fact hfact
  obtain ⟨hkeys, hfiled⟩ := entities_spec h hfound
  rw [(normalizeClaim_spec hok).1, (hfiled entry hentry).identified]
  exact ((hkeys entry.1).mp (List.mem_map_of_mem hentry)).1

omit h hbuild

theorem dumpsLabels_eq_iff {labels : Labels} : dumpsLabels [] = dumpsLabels labels ↔ labels = [] := by
  rw [eq_comm]
  refine JsonValue.dumps_object_eq_empty_iff.trans ?_
  exact List.map_eq_nil_iff

/-- **When the facts carry the labels of the service.** Every claim that becomes a fact is about a
property that has no labels there, and its value, if it is an entity, is a QID or has no labels
either. The facts are about requested entities in any case. -/
theorem labelled_iff (h : Honest lib.repr fetch labelsOf)
    (hbuild : buildWikidataFacts lib fetch found = .ok facts) :
    ((∀ fact ∈ facts, fact.Labelled labelsOf)
      ∧ ∀ qids props, entities lib.decimal lib.repr fetch qids props = .ok found →
        ∀ fact ∈ facts, fact.wikidata ∈ qids)
    ↔ ∀ entry ∈ found, ∀ propertyId ∈ factProperties, ∀ claim ordinal id,
      HasClaim entry.2 propertyId claim ordinal → KeptClaim lib claim id →
        NothingLost lib labelsOf propertyId id := by
  obtain ⟨ids, labels, hids, hunder, hfrom, hinto⟩ := buildWikidataFacts_spec h hbuild
  constructor
  · rintro ⟨hlabelled, -⟩ entry hentry propertyId hproperty claim ordinal id hclaim hkept
    obtain ⟨result, hok, hmem⟩ := hinto entry hentry propertyId hproperty claim ordinal hclaim
    obtain ⟨fact, hresult, hpropertyId, hid⟩ := exists_fact_of_kept hkept hok
    have hfact := hlabelled fact (hmem fact hresult)
    rw [hresult] at hok
    have hmade := (normalizeClaim_spec hok).2.2.2
    constructor
    · -- the labels of the property were not at hand
      have hnone : labelsUnder labels fact.propertyId = [] := by
        rw [hunder, hpropertyId, isValidQid_of_property hproperty]
        simp
      have htext := hmade.property.2
      rw [hnone, hfact.property.2, hpropertyId] at htext
      exact dumpsLabels_eq_iff.mp htext.symm
    · intro hne hinvalid
      have hnone : labelsUnder labels fact.valueEntityId = [] := by
        rw [hunder, hid, hinvalid]
        simp
      have htext := (hmade.value (hid ▸ hne)).2.1
      rw [hnone, (hfact.value (hid ▸ hne)).2.1, hid] at htext
      exact dumpsLabels_eq_iff.mp htext.symm
  · intro hlost
    refine ⟨fun fact hfact => ?_, fun qids props hfound fact hfact =>
      wikidata_mem_of_build h hbuild hfound hfact⟩
    obtain ⟨entry, hentry, propertyId, hproperty, claim, ordinal, hclaim, hok⟩ := hfrom fact hfact
    obtain ⟨-, hpropertyId, hkept, hmade⟩ := normalizeClaim_spec hok
    obtain ⟨hnoLabels, hvalue⟩ := hlost entry hentry propertyId hproperty claim ordinal _ hclaim hkept
    have hsameProperty : labelsUnder labels fact.propertyId = labelsOf fact.propertyId := by
      rw [hunder, hpropertyId, isValidQid_of_property hproperty, hnoLabels]
      simp
    have hsameValue : fact.valueEntityId ≠ "" →
        labelsUnder labels fact.valueEntityId = labelsOf fact.valueEntityId := by
      intro hne
      rw [hunder]
      cases hqid : isValidQid lib.decimal fact.valueEntityId.toList with
      | true => rw [if_pos ⟨mem_factLabelIds hids hentry hproperty hclaim hkept hqid, rfl⟩]
      | false => rw [if_neg (fun h => Bool.false_ne_true h.2), hvalue hne hqid]
    refine ⟨?_, fun hne => ?_⟩
    · rw [← hsameProperty]
      exact hmade.property
    · rw [← hsameValue hne]
      exact hmade.value hne

end

/-! ## A country -/

namespace Example

/-- Surroundings in which nothing is hashed. -/
def library : FactLibrary String where
  decimal := Char.isDigit
  repr _ := ""
  float value := .ok (value.str (fun _ => ""))
  sha256 text := text
  utcNowIso _ := "2024-01-01T00:00:00Z"

/-- The entity of an identifier, as the service sends it. -/
def entityFields (labelsOf : String → Labels) (claims : String → Fields) (id : String) : Fields :=
  [("id", .string id),
   ("labels", .object ((labelsOf id).map (fun label =>
     (label.1, .object [("value", .string label.2)])))),
   ("claims", .object (claims id))]

/-- A service that knows the labels `labelsOf` and the claims `claims`. -/
def serve (labelsOf : String → Labels) (claims : String → Fields) (ids : List String)
    (_props : String) : Except FactError Fields :=
  if "" ∈ ids then .error .unavailable
  else .ok [("entities", .object ((ids.map (fun id => (id, entityFields labelsOf claims id))).map
    (fun e => (e.1, .object e.2))))]

theorem labelMap_entityFields {labelsOf : String → Labels} (claims : String → Fields)
    (hlabels : ∀ id, ∀ label ∈ labelsOf id, label.2 ≠ "") (repr : JsonValue → String)
    (id : String) : labelMap repr (entityFields labelsOf claims id) = .ok (labelsOf id) := by
  refine bind_eq_ok.mpr ⟨_, congrArg fieldsOf (orEmpty_object _), ?_⟩
  rw [List.filterMap_map]
  refine congrArg Except.ok ((List.filterMap_eq_map_iff_forall_eq_some.mpr ?_).trans
    (List.map_id _))
  intro label hlabel
  have htruth : holdsField [("value", JsonValue.string label.2)] "value" = true :=
    decide_eq_true (hlabels id label hlabel)
  exact if_pos htruth

theorem honest_serve {labelsOf : String → Labels} (claims : String → Fields)
    (hlabels : ∀ id, ∀ label ∈ labelsOf id, label.2 ≠ "") (repr : JsonValue → String) :
    Honest repr (serve labelsOf claims) labelsOf := by
  refine ⟨fun ids props data hdata => ?_⟩
  unfold serve at hdata
  split at hdata
  · cases hdata
  · rename_i hids
    cases hdata
    refine ⟨ids.map (fun id => (id, entityFields labelsOf claims id)), ⟨Or.inl rfl, ?_, ?_⟩, ?_⟩
    · intro e he
      obtain ⟨id, hid, rfl⟩ := List.mem_map.mp he
      have hne : id ≠ "" := fun h => hids (h ▸ hid)
      exact decide_eq_true hne
    · intro id
      rw [List.map_map]
      simp
    · intro _ e he
      obtain ⟨id, -, rfl⟩ := List.mem_map.mp he
      exact labelMap_entityFields claims hlabels repr id

/-- `Q1` is an instance of `Q6256`. -/
def claims (id : String) : Fields :=
  if id = "Q1" then
    [("P31", .array [.object
      [("rank", .string "normal"),
       ("mainsnak", .object
         [("snaktype", .string "value"), ("datatype", .string "wikibase-item"),
          ("datavalue", .object [("value", .object [("id", .string "Q6256")])])])]])]
  else []

/-- The labels of a service that has none for properties. -/
def valueLabels (id : String) : Labels :=
  if id = "Q6256" then [("en", "country"), ("ca", "país")] else []

/-- The labels of a service that has some for properties too. -/
def allLabels (id : String) : Labels :=
  if id = "P31" then [("en", "instance of"), ("fr", "nature")] else valueLabels id

theorem valueLabels_ne (id : String) : ∀ label ∈ valueLabels id, label.2 ≠ "" := by
  unfold valueLabels
  split <;> decide

theorem allLabels_ne (id : String) : ∀ label ∈ allLabels id, label.2 ≠ "" := by
  unfold allLabels
  split
  · decide
  · exact valueLabels_ne id

/-- What the client reads about `Q1`. -/
def country (labelsOf : String → Labels) : Entities :=
  [("Q1", entityFields labelsOf claims "Q1")]

/-- The fact of this claim when the labels of `P31` are not at hand. -/
def fact : WikidataFact String where
  factId := "\x1f".intercalate ["Q1", "P31", "Q6256", "0"]
  wikidata := "Q1"
  propertyId := "P31"
  propertyLabelEn := "P31"
  propertyLabels := "\x7b\x7d"
  valueType := "wikibase-item"
  valueEntityId := "Q6256"
  valueLabelEn := "country"
  valueLabels := "\x7b\"ca\":\"país\",\"en\":\"country\"\x7d"
  valueText := "country"
  numericValue := none
  unitEntityId := ""
  rank := "normal"
  qualifiers := "\x7b\x7d"
  references := "[]"
  retrievedAt := "2024-01-01T00:00:00Z"
  sourceApi := "wikidata_action_api"

theorem build_valueLabels :
    buildWikidataFacts library (serve valueLabels claims) (country valueLabels) = .ok [fact] := by
  decide +kernel

theorem entities_country :
    entities library.decimal library.repr (serve valueLabels claims) ["Q1"] "sitelinks|claims"
      = .ok (country valueLabels) := by
  rfl

/-- Without labels for properties nothing is lost. -/
theorem country_labelled : fact.Labelled valueLabels ∧ fact.wikidata ∈ ["Q1"] := by
  obtain ⟨hlabelled, hrequested⟩ := (labelled_iff (honest_serve claims valueLabels_ne library.repr)
    build_valueLabels).mpr (by
      intro entry _ propertyId hproperty claim ordinal id _ _
      constructor
      · have hnone : ∀ propertyId ∈ factProperties, valueLabels propertyId = [] := by decide
        exact hnone propertyId hproperty
      · intro _ hinvalid
        refine if_neg (fun hid => ?_)
        rw [hid] at hinvalid
        exact absurd hinvalid (by decide))
  exact ⟨hlabelled fact (by simp), hrequested ["Q1"] "sitelinks|claims" entities_country fact (by simp)⟩

/-- The service knows what `P31` is called, and the fact does not say it. -/
theorem property_unlabelled : Honest library.repr (serve allLabels claims) allLabels
      ∧ (allLabels "P31").lookup "en" = some "instance of"
      ∧ buildWikidataFacts library (serve allLabels claims) (country allLabels) = .ok [fact]
      ∧ ¬ fact.Labelled allLabels := by
  refine ⟨honest_serve claims allLabels_ne library.repr, by decide, by decide +kernel, fun h => ?_⟩
  have hlabel : fact.propertyLabelEn = english (allLabels "P31") "P31" := h.property.1
  exact absurd hlabel (by decide)

end Example

end OsmPolygonWikidata.Augmentation
