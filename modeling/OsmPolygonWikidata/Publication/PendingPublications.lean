import Mathlib.Data.Finset.Sort
import Mathlib.Data.String.Basic
import OsmPolygonWikidata.Basic.Interleaving

/-! # The pending-publications envelope

`pipeline/pending_publications.py`: one JSON file holds the stems that still have to be published
and the metadata-refresh marker. The main thread and the upload worker both update it. A write
happens under a lock, together with the read it merges with, so it is one atomic step; `add` and
`remove` have read the stems in an earlier step, without the lock.

The marker of the file follows a serial order of the marker calls in every interleaving. The
stems follow a serial order of the stem calls as long as every save finds the stems its call has
read (`SaveIsFresh`); without that an update can be lost.
-/

namespace OsmPolygonWikidata.PendingPublications

open Interleaving

/-! ## The file -/

def contractVersion : String := "pending-publications-v1"

/-- The payload of `metadata_refresh`. -/
structure Marker where
  stems : List String
  fingerprintHashes : List (String × String)
  deriving DecidableEq

/-- The `stems` field of a JSON object. A list entry that is no string is `none`. -/
inductive StemsField where
  | missing
  | notAList
  | list (values : List (Option String))
  deriving DecidableEq

structure Envelope where
  version : Option String
  stems : StemsField
  metadataRefresh : Option Marker
  deriving DecidableEq

/-- The manifest file. -/
inductive Manifest where
  | absent
  | malformed
  | object (envelope : Envelope)
  deriving DecidableEq

inductive PublicationError where
  | malformedManifest
  | invalidVersion (found : Option String)
  | missingStems
  | stemsNotAList
  | stemNotAString (index : Nat)
  | invalidStem (stem : String)
  | duplicateStems
  | markerEmpty
  | markerDuplicates
  | markerKeys
  | markerStem (stem : String)
  | markerHash (hash : String)

def isSafeStem (stem : String) : Bool :=
  stem ≠ "" && stem ≠ "." && stem ≠ ".." && !stem.toList.contains '/' && !stem.toList.contains '\\'

def isSha256Hex (value : String) : Bool :=
  value.length = 64 && value.toList.all (fun c => "0123456789abcdef".toList.contains c)

/-- `_load_envelope` of a file that exists. -/
def loadEnvelope : Manifest → Except PublicationError Envelope
  | .absent => .ok ⟨none, .missing, none⟩
  | .malformed => .error .malformedManifest
  | .object e =>
    if e.version = some contractVersion then .ok e else .error (.invalidVersion e.version)

/-- `_validate_pending_stem_values`, from index `i` on. -/
def validateStemValues : List (Option String) → Nat → Except PublicationError (List String)
  | [], _ => .ok []
  | none :: _, i => .error (.stemNotAString i)
  | some stem :: rest, i =>
    if isSafeStem stem then do
      let validated ← validateStemValues rest (i + 1)
      return stem :: validated
    else
      .error (.invalidStem stem)

def loadPendingPublications : Manifest → Except PublicationError (Finset String)
  | .absent => .ok ∅
  | m => do
    let e ← loadEnvelope m
    match e.stems with
    | .missing => .error .missingStems
    | .notAList => .error .stemsNotAList
    | .list values => do
      let stems ← validateStemValues values 0
      if stems.Nodup then return stems.toFinset else .error .duplicateStems

/-- `sorted(stems)` as the JSON list it is stored as. -/
def sortedField (stems : Finset String) : StemsField :=
  .list ((stems.sort (· ≤ ·)).map some)

/-- The locked section of `save_pending_publications`, after the stems have been validated. -/
def savePendingPublications (stems : Finset String) (m : Manifest) :
    Except PublicationError Manifest := do
  match (stems.sort (· ≤ ·)).find? (fun stem => !isSafeStem stem) with
  | some stem => .error (.invalidStem stem)
  | none =>
    let e ← loadEnvelope m
    return .object { e with version := some contractVersion, stems := sortedField stems }

/-! ## The marker -/

/-- `_validated_marker_inputs` and `_envelope_marker_payload`. -/
def markerPayload (stems : List String) (hashes : List (String × String)) :
    Except PublicationError Marker :=
  if stems = [] then .error .markerEmpty
  else if ¬ stems.Nodup then .error .markerDuplicates
  else if ¬ (hashes.map Prod.fst).toFinset = stems.toFinset then .error .markerKeys
  else match stems.find? (fun stem => !isSafeStem stem) with
  | some stem => .error (.markerStem stem)
  | none =>
    match (hashes.map Prod.snd).find? (fun hash => !isSha256Hex hash) with
    | some hash => .error (.markerHash hash)
    | none => .ok ⟨stems.insertionSort (· ≤ ·),
        hashes.insertionSort (fun a b => a.1 ≤ b.1)⟩

/-- The locked section of `set_metadata_refresh_marker`. -/
def setMetadataRefreshMarker (payload : Marker) (m : Manifest) :
    Except PublicationError Manifest := do
  let e ← loadEnvelope m
  if e.metadataRefresh = some payload ∧ m ≠ .absent then
    return m
  else
    return .object ⟨some (e.version.getD contractVersion),
      match e.stems with
      | .missing => .list []
      | stems => stems,
      some payload⟩

/-- The locked section of `clear_metadata_refresh_marker`. -/
def clearMetadataRefreshMarker (m : Manifest) : Except PublicationError Manifest := do
  let e ← loadEnvelope m
  match e.metadataRefresh with
  | none => return m
  | some _ => return .object { e with metadataRefresh := none }

/-! ## Calls and threads -/

/-- The two calls that update the stems. -/
inductive Update where
  | add (stems : Finset String)
  | remove (stems : Finset String)

def Update.stems : Update → Finset String
  | .add stems => stems
  | .remove stems => stems

/-- The stems to save, given the stems that were read. -/
def Update.result : Update → Finset String → Finset String
  | .add stems, current => current ∪ stems
  | .remove stems, current => current \ stems

inductive Call where
  | update (u : Update)
  | setMarker (stems : List String) (hashes : List (String × String))
  | clearMarker

/-- Where a thread stands: between two calls, after the read of an update, or after `clear` has
seen that the file exists. -/
inductive Local where
  | idle (calls : List Call)
  | loaded (u : Update) (current : Finset String) (calls : List Call)
  | seen (calls : List Call)

/-- The file after a locked section; a section that raises has written nothing. -/
def settle (m : Manifest) : Except PublicationError Manifest → Manifest
  | .ok m' => m'
  | .error _ => m

/-- One atomic step of a thread. A call takes effect in its last step. -/
def step : Code Local Manifest Call
  | .idle [], m => (.idle [], m, none)
  | .idle (.update u :: calls), m =>
    if u.stems = ∅ then (.idle calls, m, some (.update u))
    else match loadPendingPublications m with
      | .error _ => (.idle calls, m, some (.update u))
      | .ok current => (.loaded u current calls, m, none)
  | .loaded u current calls, m =>
    (.idle calls, settle m (savePendingPublications (u.result current) m), some (.update u))
  | .idle (.setMarker stems hashes :: calls), m =>
    (.idle calls,
      settle m (do let payload ← markerPayload stems hashes
                   setMetadataRefreshMarker payload m),
      some (.setMarker stems hashes))
  | .idle (.clearMarker :: calls), m =>
    if m = .absent then (.idle calls, m, some .clearMarker) else (.seen calls, m, none)
  | .seen calls, m => (.idle calls, settle m (clearMetadataRefreshMarker m), some .clearMarker)

/-- The calls a thread has still to finish. -/
def Local.todo : Local → List Call
  | .idle calls => calls
  | .loaded u _ calls => .update u :: calls
  | .seen calls => .clearMarker :: calls

/-- A call that runs alone: its one or two steps in a row. -/
def Call.alone (c : Call) (m : Manifest) : Manifest :=
  match step (.idle [c]) m with
  | (.idle _, m', _) => m'
  | (l, m', _) => (step l m').2.1

/-- The file after some calls, one after the other. -/
def serial (m : Manifest) (calls : List Call) : Manifest := calls.foldl (fun m c => c.alone m) m

def Call.isUpdate : Call → Bool
  | .update _ => true
  | _ => false

/-- The marker in the file. -/
def Manifest.marker : Manifest → Option Marker
  | .object e => e.metadataRefresh
  | _ => none

end OsmPolygonWikidata.PendingPublications
