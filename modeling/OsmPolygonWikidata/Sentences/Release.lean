import OsmPolygonWikidata.Sentences.Runner

/-! # The sentence release

`run_v2_sentence_split` of `v2/sentence_runner.py`: the sentence tables of the selected regions,
one after the other, and then the manifest, which names the segmenter and lists the regions. A run
merges its regions into the manifest of the earlier runs and refuses to do so if that manifest was
written with another segmenter.

The constants of the manifest that are never read (the supported languages and the policy for the
others) are left out.
-/

namespace OsmPolygonWikidata.Sentences

open Durable

/-! ## The manifest -/

def sentenceSplitContractVersion : String := "v2-sentence-splitting-v1"

/-- `manifests/sentence_splitting.json`. -/
structure Manifest where
  contractVersion : String
  segmenter : String
  modelId : String
  modelRevision : String
  segmenterVersion : String
  unsupportedLanguages : List String
  regions : List RegionSummary

/-- The sentence tables with their checkpoints, and the manifest. -/
structure Release (H : Type) where
  regions : Key → Region H
  manifest : Option Manifest

def Release.empty (H : Type) : Release H := ⟨fun _ => Region.empty H, none⟩

/-- The region of a key as a part of the release. -/
def regionPart {H : Type} (key : Key) : Part (Release H) (Region H) where
  view := fun release => release.regions key
  put := fun region release =>
    { release with regions := Function.update release.regions key region }
  view_put := fun region release => Function.update_self key region release.regions
  put_put := fun region region' release => by simp
  put_view := fun release => by simp

/-- `_manifest_payload`, with `_manifest_metadata`. -/
def manifestPayload (segmenter : Segmenter) (summaries : List RegionSummary) : Manifest :=
  { contractVersion := sentenceSplitContractVersion
    segmenter := satModelName
    modelId := segmenter.modelId
    modelRevision := segmenter.revision
    segmenterVersion := segmenter.version
    unsupportedLanguages := sortedSet (summaries.flatMap (fun s => s.unsupportedLanguages))
    regions := summaries }

def manifestUsesSegmenter (manifest : Manifest) (segmenter : Segmenter) : Bool :=
  manifest.contractVersion = sentenceSplitContractVersion && manifest.segmenter = satModelName
    && manifest.modelId = segmenter.modelId
    && manifest.modelRevision = segmenter.revision
    && manifest.segmenterVersion = segmenter.version

def loadManifestSummaries (segmenter : Segmenter) (manifest : Option Manifest) :
    Except SentenceError (List RegionSummary) :=
  match manifest with
  | none => .ok []
  | some m => if manifestUsesSegmenter m segmenter then .ok m.regions else .error .differentSegmenter

/-- The key under which a summary is merged. -/
def RegionSummary.mergeKey (s : RegionSummary) : String × String := (s.stem, s.project)

/-- The dictionary `merged` after all updates. -/
def mergedSummaries (summaries : List RegionSummary) : AList (fun _ : String × String =>
    RegionSummary) :=
  summaries.foldl (fun merged s => merged.insert s.mergeKey s) ∅

/-- `[merged[key] for key in sorted(merged)]`. -/
def orderedSummaries (merged : AList (fun _ : String × String => RegionSummary)) :
    List RegionSummary :=
  (merged.keys.insertionSort (fun a b => a.1 < b.1 ∨ a.1 = b.1 ∧ a.2 ≤ b.2)).filterMap
    (fun key => merged.lookup key)

/-! ## The run -/

/-- The V2 tree of a run: the regions its manifest names and the section tables. -/
structure V2Tree (F : Type) where
  finalized : List String
  source : Key → Option F

def isSafeStem (stem : String) : Bool :=
  stem ≠ "" && stem ≠ "." && stem ≠ ".." && '/' ∉ stem.toList && '\\' ∉ stem.toList

def selectedStems (finalized : List String) (stems : Option (List String)) :
    Except SentenceError (List String) :=
  let selected := sortedSet (stems.getD finalized)
  let missing := sortedSet (selected.filter (fun stem => stem ∉ finalized))
  if finalized = [] then .error .noFinalizedRegions
  else if missing ≠ [] then .error (.notFinalized missing)
  else if selected = [] then .error .noRegionSelected
  else match selected.find? (fun stem => !isSafeStem stem) with
    | some stem => .error (.unsafeStem stem)
    | none => .ok selected

variable {F H : Type} [DecidableEq H] (glob : GlobOrder) (files : SectionFiles F H)
variable (sha256 : String → String) (segmenter : Segmenter) (batchSize : Int) (v2 : V2Tree F)

/-- The sentence tables of a region: that of Wikivoyage only if it has sections. -/
def projectKeys (stem : String) : List Key :=
  ⟨stem, .wikipedia⟩ :: if (v2.source ⟨stem, .wikivoyage⟩).isSome then [⟨stem, .wikivoyage⟩] else []

/-- The loop of `run_v2_sentence_split` over the selected regions. -/
def runKeys : List Key → Prog (Release H) SentenceError (List RegionSummary)
  | [] => return []
  | key :: keys => do
    let summary ← Prog.focus (regionPart key)
      (runProject glob files sha256 segmenter key batchSize (v2.source key))
    let summaries ← runKeys keys
    return summary :: summaries

def writeManifest (summaries : List RegionSummary) : Prog (Release H) SentenceError Unit := do
  let release ← Prog.get
  match loadManifestSummaries segmenter release.manifest with
  | .error e => .raise e
  | .ok loaded =>
    Prog.step (fun release => { release with
      manifest := some (manifestPayload segmenter
        (orderedSummaries (mergedSummaries (loaded ++ summaries)))) })

def runV2SentenceSplit (stems : Option (List String)) :
    Prog (Release H) SentenceError (List RegionSummary) :=
  if batchSize < 1 then .raise .batchSizeNotPositive
  else if segmenter.modelId ≠ satModelId then .raise .unsupportedModel
  else match selectedStems v2.finalized stems with
    | .error e => .raise e
    | .ok selected => do
      let summaries ← runKeys glob files sha256 segmenter batchSize v2
        (selected.flatMap (projectKeys v2))
      writeManifest segmenter summaries
      return summaries

end OsmPolygonWikidata.Sentences
