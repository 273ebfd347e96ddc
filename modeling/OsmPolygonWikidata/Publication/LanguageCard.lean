import Mathlib.Data.List.Sort
import Mathlib.Data.List.Dedup
import Mathlib.Data.List.TakeWhile
import Mathlib.Data.String.Basic
import OsmPolygonWikidata.Basic.PyString

/-! # The language section of a dataset card

`hf/_publication/language_card.py`. The language publication owns a section of the card and a block
of `configs` entries in its front matter. Both are found by regular expressions that look at the
beginnings of lines, so a text is cut into lines that keep their newline.
-/

namespace OsmPolygonWikidata.Publication

open Python

inductive LanguageSplitVersion where
  | v1
  | v2

inductive CardError where
  | noFrontMatter
  | unterminatedFrontMatter
  | noConfigsField

/-! ## Lines -/

/-- The lines of a text, each with its newline. -/
def textLines : List Char → List (List Char)
  | [] => []
  | '\n' :: cs => ['\n'] :: textLines cs
  | c :: cs =>
    match textLines cs with
    | [] => [[c]]
    | line :: lines => (c :: line) :: lines

/-- The lines before the first one with a property, that line, and the lines after it. -/
def cutAt (p : List Char → Bool) : List (List Char) →
    Option (List (List Char) × List Char × List (List Char))
  | [] => none
  | line :: lines =>
    if p line then some ([], line, lines)
    else (cutAt p lines).map (fun (before, found, after) => (line :: before, found, after))

/-- `str.find`: the text before the first occurrence, and the text from there on. -/
def breakOn (pattern : List Char) : List Char → Option (List Char × List Char)
  | [] => if pattern.isEmpty then some ([], []) else none
  | c :: cs =>
    if pattern.isPrefixOf (c :: cs) then some ([], c :: cs)
    else (breakOn pattern cs).map (fun (before, rest) => (c :: before, rest))

/-- Lines with their newlines: `"\n".join(lines) + "\n"`. -/
def unlines (lines : List (List Char)) : List Char := lines.flatMap (· ++ ['\n'])

/-- `str.rstrip(characters)`. -/
def rstripWith (p : Char → Bool) (text : List Char) : List Char :=
  (text.reverse.dropWhile p).reverse

/-! ## Rendering -/

def languageCardHeading : String := "## Language partitions"

def languageConfigBegin : String := "  # BEGIN LANGUAGE SPLIT CONFIGS"

def languageConfigEnd : String := "  # END LANGUAGE SPLIT CONFIGS"

/-- The order of `language_sort_key`: `unknown` comes last. -/
def languageLe (a b : String) : Bool :=
  if b = "unknown" then true else if a = "unknown" then false else a ≤ b

/-- `sorted(set(languages), key=language_sort_key)`. -/
def sortLanguages (languages : List String) : List String :=
  languages.dedup.insertionSort (fun a b => languageLe a b)

def v2LanguageConfigName (configuration language : String) : String :=
  let suffix := language.map (fun c => if c = '-' then '_' else c)
  s!"{configuration}__lang_{suffix}"

/-- The lines of one configuration in `_render_language_front_matter_block`. -/
def configLines (version : LanguageSplitVersion) (configuration : String)
    (languages : List String) : List String :=
  match version with
  | .v1 => [s!"  - config_name: {configuration}", "    data_files:"]
      ++ (sortLanguages languages).flatMap (fun language =>
        [s!"      - split: lang-{language}",
          s!"        path: data/{configuration}/lang-{language}-00000-of-00001.parquet"])
  | .v2 => (sortLanguages languages).flatMap (fun language =>
    ["  - config_name: " ++ v2LanguageConfigName configuration language, "    data_files:",
      "      - split: train",
      s!"        path: language_splits/{configuration}/lang-{language}/part-*.parquet"])

def renderLanguageFrontMatterBlock (version : LanguageSplitVersion)
    (configurationLanguages : List (String × List String)) : List Char :=
  let sorted := configurationLanguages.insertionSort (fun a b => a.1 ≤ b.1)
  let lines := [languageConfigBegin]
    ++ sorted.flatMap (fun (configuration, languages) => configLines version configuration languages)
    ++ [languageConfigEnd]
  unlines (lines.map String.toList)

/-- The row of one configuration in `_render_language_card_section`. -/
def sectionRow (version : LanguageSplitVersion) (configuration : String) : String :=
  match version with
  | .v1 => s!"| `{configuration}` | `lang-<language>` and `lang-unknown` | "
      ++ s!"`data/{configuration}/lang-<language>-00000-of-00001.parquet` |"
  | .v2 => s!"| `{configuration}` | `{configuration}__lang_<language>` (split `train`) and "
      ++ s!"`{configuration}__lang_unknown` (split `train`) | "
      ++ s!"`language_splits/{configuration}/lang-<language>/part-*.parquet` |"

/-- The lines of the section after its heading. -/
def sectionLines (version : LanguageSplitVersion) (configurations languages : List String) :
    List String :=
  let contract := match version with
    | .v1 => "V1"
    | .v2 => "V2"
  let count := languages.length
  ["",
    s!"The {contract} language release is an additive, row-level partition of the published text "
      ++ "tables.",
    "Each source row is routed by its normalized `language` value; multilingual rows are not "
      ++ "collapsed to a polygon-level preferred language.",
    "Missing, blank, malformed, and legacy-unusable values are preserved in the explicit "
      ++ "`lang-unknown` partition.",
    "",
    s!"Validated languages: **{count}** (including `unknown`).",
    "",
    "| Configuration | Split names | Remote path |",
    "| --- | --- | --- |"]
  ++ (configurations.insertionSort (· ≤ ·)).map (sectionRow version)
  ++ ["",
    "The release manifest records the source fingerprint, schema, row counts, and SHA-256 hash "
      ++ "for every generated file."]

/-- `_render_language_card_section`. The last of the joined lines is empty. -/
def renderLanguageCardSection (version : LanguageSplitVersion)
    (configurations languages : List String) : List Char :=
  unlines ((languageCardHeading :: sectionLines version configurations languages).map String.toList)

/-! ## Merging -/

/-- The first block between the two markers, which the first expression of
`_merge_language_front_matter` finds: the text before it and the text after it. The second marker
need only begin its line. -/
def findMarked (frontMatter : List Char) : Option (List Char × List Char) := do
  let (before, _, lines) ← cutAt (fun line => line = languageConfigBegin.toList ++ ['\n'])
    (textLines frontMatter)
  let (_, line, after) ← cutAt (fun line => languageConfigEnd.toList.isPrefixOf line) lines
  let rest := line.drop languageConfigEnd.length
  let rest := if rest = ['\n'] then [] else rest
  return (before.flatten, rest ++ after.flatten)

/-- A match of `configs:\s*$` at the beginning of a text: white space is taken as far as a newline
or the end. -/
def configsEnd (text : List Char) : Option (List Char × List Char) :=
  if "configs:".toList.isPrefixOf text then
    let body := text.drop "configs:".length
    let space := body.takeWhile isSpace
    let after := body.dropWhile isSpace
    if after.isEmpty then some (text, [])
    else if '\n' ∈ space then
      let kept := (space.reverse.dropWhile (· ≠ '\n')).tail.reverse
      some ("configs:".toList ++ kept, body.drop kept.length)
    else none
  else none

/-- The first line of a front matter where `^configs:\s*$` matches: the text up to the end of the
match and the text after it. -/
def findConfigs : List (List Char) → Option (List Char × List Char)
  | [] => none
  | line :: lines =>
    match configsEnd (line ++ lines.flatten) with
    | some found => some found
    | none => (findConfigs lines).map (fun (before, after) => (line ++ before, after))

def mergeLanguageFrontMatter (existing : List Char) (version : LanguageSplitVersion)
    (configurationLanguages : List (String × List String)) : Except CardError (List Char) :=
  if ¬ "---\n".toList.isPrefixOf existing then .error .noFrontMatter
  else
    match breakOn "\n---".toList (existing.drop 4) with
    | none => .error .unterminatedFrontMatter
    | some (frontMatter, closing) =>
      let block := renderLanguageFrontMatterBlock version configurationLanguages
      match findMarked frontMatter with
      | some (before, after) => .ok ("---\n".toList ++ (before ++ block ++ after) ++ closing)
      | none =>
        match findConfigs (textLines frontMatter) with
        | none => .error .noConfigsField
        | some (before, after) =>
          .ok ("---\n".toList ++ (before ++ ['\n'] ++ rstripWith (· = '\n') block ++ after)
            ++ closing)

/-- The line begins a section of the card. -/
def beginsSection (line : List Char) : Bool := "## ".toList.isPrefixOf line

/-- The rest of `merge_language_card`: the section replaces the one that is there, stands before the
data sources, or at the end. -/
def mergeSection (existing section' : List Char) : List Char :=
  match cutAt (fun line => line = languageCardHeading.toList ++ ['\n']) (textLines existing) with
  | some (before, heading, lines) =>
    let matched := heading ++ (lines.takeWhile (fun line => !beginsSection line)).flatten
    let separator := matched.reverse.takeWhile (· = '\n')
    before.flatten ++ (rstripWith (· = '\n') section' ++ separator)
      ++ (lines.dropWhile (fun line => !beginsSection line)).flatten
  | none =>
    match cutAt (fun line => line = "## Data sources & licenses\n".toList)
        (textLines existing) with
    | some (before, marker, after) =>
      before.flatten ++ section' ++ ['\n'] ++ (marker ++ after.flatten)
    | none => rstripWith isSpace existing ++ ['\n', '\n'] ++ section'

def mergeLanguageCard (existing : String) (version : LanguageSplitVersion)
    (configurations languages : List String) (configurationLanguages : List (String × List String)) :
    Except CardError String := do
  let existing ← if configurationLanguages.isEmpty then pure existing.toList
    else mergeLanguageFrontMatter existing.toList version configurationLanguages
  return String.ofList (mergeSection existing
    (renderLanguageCardSection version configurations languages))

end OsmPolygonWikidata.Publication
