import Mathlib
import OsmPolygonWikidata.Basic.Loops
import OsmPolygonWikidata.Basic.Unquote
import OsmPolygonWikidata.Domain.WikidataQids

/-! # Wikipedia tags

`v2/wikipedia_tags.py`. A tag `wikipedia` or `wikipedia:LANGUAGE` holds pages, separated by
semicolons; a page is a title, a title after its language, or a URL.

Only the titles that are no URL are checked, and `urlparse` raises for some values
(`parseWikipediaTags_wellFormed_iff`).

A text is the list of its characters. `str.lower` and what `urlparse` refuses beyond unbalanced
brackets depend on tables of Unicode, so they are parameters.
-/

namespace OsmPolygonWikidata.WikipediaTags

open Python

abbrev Text := List Char

/-- `str.lower`, and the message of the `ValueError` for a network location with a bracketed host
that is no address or with a character that normalizes to a delimiter. -/
structure Library where
  lower : Text → Text
  lower_lower : ∀ cs, lower (lower cs) = lower cs
  netlocError : Text → Option String

structure ValueError where
  message : String
  deriving DecidableEq

structure WikipediaTagRef where
  language : Text
  title : Text
  rawKey : Text
  rawValue : Text
  deriving DecidableEq

structure WikipediaTagRejection where
  rawKey : Text
  rawValue : Text
  reason : String
  deriving DecidableEq

/-! ## Strings -/

/-- `str.replace` of one character by another. -/
def replaceChar (old new : Char) (cs : Text) : Text := cs.map (fun c => if c = old then new else c)

/-- `str.removeprefix`. -/
def removePrefix (start cs : Text) : Text := if start <+: cs then cs.drop start.length else cs

/-- `str.removesuffix`. -/
def removeSuffix (ending cs : Text) : Text :=
  if ending <:+ cs then cs.take (cs.length - ending.length) else cs

/-- `str.partition`: what stands before and after the first `sep`. -/
def partition (sep : Char) (cs : Text) : Text × Text :=
  (cs.takeWhile (fun c => c ≠ sep), (cs.dropWhile (fun c => c ≠ sep)).drop 1)

/-! ## Languages -/

/-- The letters that `[a-z]` matches with `re.IGNORECASE`: four of them are not ASCII. -/
def isLetter (c : Char) : Bool :=
  ('a' ≤ c && c ≤ 'z') || ('A' ≤ c && c ≤ 'Z') || c.toNat = 0x130 || c.toNat = 0x131
    || c.toNat = 0x17F || c.toNat = 0x212A

def isLetterOrDigit (c : Char) : Bool := isLetter c || ('0' ≤ c && c ≤ '9')

/-- A full match of `_LANGUAGE_RE`. -/
def isLanguage (cs : Text) : Bool :=
  match cs.splitOn '-' with
  | [] => false
  | first :: rest =>
    first.all isLetter && decide (2 ≤ first.length ∧ first.length ≤ 3)
      && rest.all (fun part =>
        part.all isLetterOrDigit && decide (2 ≤ part.length ∧ part.length ≤ 8))

section

variable (lib : Library)

/-- `_language`. -/
def language (value : Text) : Option Text :=
  let normalized := lib.lower (replaceChar '_' '-' (strip value))
  if isLanguage normalized then some normalized else none

/-! ## URLs -/

structure ParsedUrl where
  scheme : Text
  netloc : Text
  path : Text

def isSchemeChar (c : Char) : Bool :=
  ('a' ≤ c && c ≤ 'z') || ('A' ≤ c && c ≤ 'Z') || ('0' ≤ c && c ≤ '9') || c = '+' || c = '-'
    || c = '.'

/-- What `urlsplit` removes from a URL before it looks at it. -/
def cleanUrl (url : Text) : Text :=
  (url.dropWhile (fun c => c.toNat ≤ 0x20)).filter (fun c => c ∉ ['\t', '\r', '\n'])

/-- The scheme, and the rest. -/
def splitScheme (url : Text) : Text × Text :=
  let (start, rest) := partition ':' url
  match start with
  | [] => ([], url)
  | c :: _ =>
    if ':' ∈ url ∧ isLetter c ∧ isAscii c ∧ start.all isSchemeChar then
      (start.map Char.toLower, rest)
    else ([], url)

/-- The network location after `//`, and the rest. -/
def splitNetloc (url : Text) : Text × Text :=
  if "//".toList <+: url then
    ((url.drop 2).takeWhile (fun c => c ∉ ['/', '?', '#']),
      (url.drop 2).dropWhile (fun c => c ∉ ['/', '?', '#']))
  else ([], url)

/-- `urlparse`, of a text without semicolons: there are no parameters. -/
def urlparse (url : Text) : Except ValueError ParsedUrl :=
  let (scheme, rest) := splitScheme (cleanUrl url)
  let (netloc, rest) := splitNetloc rest
  if decide ('[' ∈ netloc) ≠ decide (']' ∈ netloc) then .error ⟨"Invalid IPv6 URL"⟩
  else
    match lib.netlocError netloc with
    | some message => .error ⟨message⟩
    | none =>
      .ok ⟨scheme, netloc, (rest.takeWhile (fun c => c ≠ '#')).takeWhile (fun c => c ≠ '?')⟩

/-- `ParsedUrl.hostname`. -/
def ParsedUrl.hostname (url : ParsedUrl) : Option Text :=
  let hostinfo := url.netloc.rtakeWhile (fun c => c ≠ '@')
  let host :=
    if '[' ∈ hostinfo then (partition ']' (partition '[' hostinfo).2).1
    else (partition ':' hostinfo).1
  if host = [] then none
  else some (lib.lower (host.takeWhile (fun c => c ≠ '%')) ++ host.dropWhile (fun c => c ≠ '%'))

/-- `_wikipedia_host`. -/
def wikipediaHost (host : Option Text) : Option Text :=
  match host with
  | none => none
  | some host =>
    let normalized := lib.lower host
    if ".wikipedia.org".toList <:+ normalized then some normalized else none

/-- `unquote(title).replace("_", " ").strip()`. -/
def decodeTitle (title : Text) : Text := strip (replaceChar '_' ' ' (unquote title))

/-- The language of a Wikipedia host. -/
def hostLanguage (host : Option Text) : Option Text := do
  let host ← wikipediaHost lib host
  language lib (removeSuffix ".m".toList (removeSuffix ".wikipedia.org".toList host))

/-- `_from_url`. -/
def fromUrl (value : Text) : Except ValueError (Option (Text × Text)) := do
  let parsed ← urlparse lib (strip value)
  if parsed.scheme = [] then return none
  match hostLanguage lib (parsed.hostname lib) with
  | none => return none
  | some language =>
    if "/wiki/".toList <+: parsed.path then
      return some (language, decodeTitle (removePrefix "/wiki/".toList parsed.path))
    else return none

/-! ## Values -/

/-- `_normalize_url_reference`: a reference, or the reason why there is none. -/
def normalizeUrlReference (keyLanguage : Option Text) (reference : Text × Text) :
    Except String (Text × Text) :=
  match keyLanguage with
  | none => .ok reference
  | some keyLanguage =>
    if keyLanguage ≠ reference.1 then .error "language disagrees with URL" else .ok reference

def titleReferenceParts (keyLanguage : Option Text) (value : Text) : Except String (Text × Text) :=
  match keyLanguage with
  | some keyLanguage => .ok (keyLanguage, value)
  | none =>
    let (languageText, title) := partition ':' value
    if ':' ∉ value then .error "missing language prefix"
    else
      match language lib languageText with
      | none => .error "invalid language code"
      | some language => .ok (language, title)

def normalizeTitleReference (keyLanguage : Option Text) (value : Text) :
    Except String (Text × Text) := do
  let (language, title) ← titleReferenceParts lib keyLanguage value
  let title := decodeTitle title
  if title = [] ∨ [':'] <+: title then .error "empty language or title"
  else .ok (language, title)

/-- `_normalize_value`. -/
def normalizeValue (keyLanguage : Option Text) (value : Text) :
    Except ValueError (Except String (Text × Text)) := do
  let value := strip value
  if value = [] then return .error "empty language or title"
  match ← fromUrl lib value with
  | some reference => return normalizeUrlReference keyLanguage reference
  | none => return normalizeTitleReference lib keyLanguage value

/-! ## Tags -/

/-- `_tag_language`. -/
def tagLanguage (key : Text) : Except String (Option Text) :=
  if key = "wikipedia".toList then .ok none
  else
    match language lib (removePrefix "wikipedia:".toList key) with
    | none => .error "invalid language code"
    | some language => .ok (some language)

/-- What the loops of `parse_wikipedia_tags` build up. -/
structure State where
  seen : List (Text × Text)
  refs : List WikipediaTagRef
  rejected : List WikipediaTagRejection

def State.reject (s : State) (rejection : WikipediaTagRejection) : State :=
  { s with rejected := s.rejected ++ [rejection] }

def appendTagValue (key raw : Text) (keyLanguage : Option Text) (s : State) (value : Text) :
    Except ValueError State :=
  if value = [] then .ok (s.reject ⟨key, raw, "empty value"⟩)
  else do
    match ← normalizeValue lib keyLanguage value with
    | .error reason => return s.reject ⟨key, value, reason⟩
    | .ok (language, title) =>
      if (language, title) ∈ s.seen then return s
      else return { s with
        seen := s.seen ++ [(language, title)]
        refs := s.refs ++ [⟨language, title, key, value⟩] }

/-- The parts of a raw value. -/
def components (raw : Text) : List Text := (raw.splitOn ';').map strip

def consumeTagValues (key raw : Text) (keyLanguage : Option Text) (s : State) :
    Except ValueError State :=
  (components raw).foldlM (appendTagValue lib key raw keyLanguage) s

/-- A key that holds Wikipedia pages. -/
def isWikipediaKey (key : Text) : Prop :=
  key = "wikipedia".toList ∨ "wikipedia:".toList <+: key

instance (key : Text) : Decidable (isWikipediaKey key) := inferInstanceAs (Decidable (_ ∨ _))

/-- One turn of the loop over the tags. -/
def consumeTag (s : State) (tag : Text × Text) : Except ValueError State :=
  if isWikipediaKey tag.1 then
    match tagLanguage lib tag.1 with
    | .error reason => .ok (s.reject ⟨tag.1, tag.2, reason⟩)
    | .ok keyLanguage => consumeTagValues lib tag.1 tag.2 keyLanguage s
  else .ok s

/-- The keys of the two sorts. -/
def WikipediaTagRef.sortKey (ref : WikipediaTagRef) : Text ×ₗ Text ×ₗ Text ×ₗ Text :=
  toLex (ref.language, toLex (ref.title, toLex (ref.rawKey, ref.rawValue)))

def WikipediaTagRejection.sortKey (rejection : WikipediaTagRejection) : Text ×ₗ Text ×ₗ String :=
  toLex (rejection.rawKey, toLex (rejection.rawValue, rejection.reason))

def parseWikipediaTags (tags : List (Text × Text)) :
    Except ValueError (List WikipediaTagRef × List WikipediaTagRejection) := do
  let s ← tags.foldlM (consumeTag lib) ⟨[], [], []⟩
  return (s.refs.insertionSort (fun a b => a.sortKey ≤ b.sortKey),
    s.rejected.insertionSort (fun a b => a.sortKey ≤ b.sortKey))

end

/-! ## What the string functions leave -/

section

variable {lib : Library} {cs : Text}

theorem strip_isInitial (cs : Text) : strip cs <+: cs.dropWhile isSpace :=
  List.rdropWhile_prefix isSpace _

theorem mem_of_mem_strip {c : Char} (h : c ∈ strip cs) : c ∈ cs :=
  (List.dropWhile_sublist isSpace).subset ((strip_isInitial cs).subset h)

theorem length_strip_le (cs : Text) : (strip cs).length ≤ cs.length :=
  ((strip_isInitial cs).length_le).trans (List.dropWhile_sublist isSpace).length_le

theorem dropWhile_strip (cs : Text) : (strip cs).dropWhile isSpace = strip cs := by
  rw [List.dropWhile_eq_self_iff]
  intro hpos hspace
  obtain ⟨rest, hrest⟩ := strip_isInitial cs
  have hdrop : (cs.dropWhile isSpace).dropWhile isSpace = cs.dropWhile isSpace :=
    List.dropWhile_idempotent _ _
  rw [← hrest] at hdrop
  cases hstrip : strip cs with
  | nil => simp [hstrip] at hpos
  | cons c tail =>
    simp only [hstrip, List.getElem_cons_zero] at hspace
    rw [hstrip, List.cons_append, List.dropWhile_cons, if_pos hspace] at hdrop
    have hle := (List.dropWhile_sublist isSpace (l := tail ++ rest)).length_le
    rw [hdrop, List.length_cons] at hle
    omega

theorem strip_strip (cs : Text) : strip (strip cs) = strip cs := by
  have h := dropWhile_strip cs
  unfold strip at h ⊢
  rw [h, List.rdropWhile_idempotent]

theorem not_mem_replaceChar {old new : Char} (h : old ≠ new) (cs : Text) :
    old ∉ replaceChar old new cs := by
  unfold replaceChar
  rw [List.mem_map]
  rintro ⟨c, -, hc⟩
  split_ifs at hc with hold
  · exact h hc.symm
  · exact hold hc

theorem not_mem_decodeTitle (title : Text) : '_' ∉ decodeTitle title :=
  fun h => not_mem_replaceChar (by decide) _ (mem_of_mem_strip h)

theorem strip_decodeTitle (title : Text) : strip (decodeTitle title) = decodeTitle title :=
  strip_strip _

theorem length_decodeTitle_le (title : Text) : (decodeTitle title).length ≤ title.length := by
  refine (length_strip_le _).trans ?_
  unfold replaceChar
  rw [List.length_map]
  exact length_unquote_le title

theorem isLanguage_of_language {value l : Text} (h : language lib value = some l) :
    isLanguage l = true ∧ lib.lower l = l := by
  simp only [language] at h
  split_ifs at h with hmatch
  rw [← Option.some.inj h]
  exact ⟨hmatch, lib.lower_lower _⟩

end

/-! ## What a value names -/

section

variable {lib : Library} {keyLanguage : Option Text} {value l t : Text}

/-- The language of a key is lower-case and matches the pattern. -/
def Proper (lib : Library) (keyLanguage : Option Text) : Prop :=
  ∀ l, keyLanguage = some l → isLanguage l = true ∧ lib.lower l = l

/-- A title that passes the check. -/
def Titled (t : Text) : Prop := t ≠ [] ∧ ¬ [':'] <+: t

theorem proper_of_tagLanguage {key : Text} (h : tagLanguage lib key = .ok keyLanguage) :
    Proper lib keyLanguage := by
  rintro l rfl
  unfold tagLanguage at h
  by_cases hkey : key = "wikipedia".toList
  · rw [if_pos hkey] at h
    cases h
  rw [if_neg hkey] at h
  cases hlanguage : language lib (removePrefix "wikipedia:".toList key) with
  | none =>
    rw [hlanguage] at h
    cases h
  | some l' =>
    rw [hlanguage] at h
    cases h
    exact isLanguage_of_language hlanguage

theorem fromUrl_eq_some (h : fromUrl lib value = .ok (some (l, t))) :
    isLanguage l = true ∧ lib.lower l = l
      ∧ ∃ parsed, urlparse lib (strip value) = .ok parsed ∧ parsed.scheme ≠ []
        ∧ "/wiki/".toList <+: parsed.path
        ∧ t = decodeTitle (removePrefix "/wiki/".toList parsed.path) := by
  unfold fromUrl at h
  obtain ⟨parsed, hparsed, h⟩ := bind_eq_ok.mp h
  by_cases hscheme : parsed.scheme = []
  · rw [if_pos hscheme] at h
    cases h
  rw [if_neg hscheme] at h
  cases hlanguage : hostLanguage lib (parsed.hostname lib) with
  | none =>
    rw [hlanguage] at h
    cases h
  | some l' =>
    rw [hlanguage] at h
    by_cases hpath : "/wiki/".toList <+: parsed.path
    · simp only [if_pos hpath] at h
      cases h
      obtain ⟨host, -, hhost⟩ := Option.bind_eq_some_iff.mp hlanguage
      obtain ⟨hmatch, hlower⟩ := isLanguage_of_language hhost
      exact ⟨hmatch, hlower, parsed, hparsed, hscheme, hpath, rfl⟩
    · simp only [if_neg hpath] at h
      cases h

theorem normalizeTitleReference_eq_ok
    (h : normalizeTitleReference lib keyLanguage value = .ok (l, t)) :
    Titled t ∧ ∃ title, titleReferenceParts lib keyLanguage value = .ok (l, title)
      ∧ t = decodeTitle title := by
  unfold normalizeTitleReference at h
  obtain ⟨⟨l', title⟩, hparts, h⟩ := bind_eq_ok.mp h
  simp only at h
  split_ifs at h with hempty
  simp only [Except.ok.injEq, Prod.mk.injEq] at h
  obtain ⟨rfl, rfl⟩ := h
  rw [not_or] at hempty
  exact ⟨hempty, title, hparts, rfl⟩

theorem titleReferenceParts_proper {title : Text} (hproper : Proper lib keyLanguage)
    (h : titleReferenceParts lib keyLanguage value = .ok (l, title)) :
    isLanguage l = true ∧ lib.lower l = l := by
  cases keyLanguage with
  | some l' =>
    simp only [titleReferenceParts, Except.ok.injEq, Prod.mk.injEq] at h
    exact h.1 ▸ hproper l' rfl
  | none =>
    simp only [titleReferenceParts] at h
    split_ifs at h
    cases hlanguage : language lib (partition ':' value).1 with
    | none => simp [hlanguage] at h
    | some l' =>
      simp only [hlanguage, Except.ok.injEq, Prod.mk.injEq] at h
      exact h.1 ▸ isLanguage_of_language hlanguage

theorem normalizeUrlReference_eq_ok_iff {reference : Text × Text} :
    normalizeUrlReference keyLanguage reference = .ok (l, t)
      ↔ reference = (l, t) ∧ (keyLanguage = none ∨ keyLanguage = some l) := by
  unfold normalizeUrlReference
  cases keyLanguage with
  | none => simp
  | some l' =>
    simp only [reduceCtorEq, Option.some.injEq, false_or]
    split_ifs with hne
    · constructor
      · intro h
        cases h
      · rintro ⟨rfl, rfl⟩
        exact absurd rfl hne
    · rw [ne_eq, not_not] at hne
      rw [Except.ok.injEq]
      constructor
      · rintro rfl
        exact ⟨rfl, hne⟩
      · exact fun h => h.1

theorem normalizeValue_eq_ok_iff (hstrip : strip value = value) (hvalue : value ≠ []) :
    normalizeValue lib keyLanguage value = .ok (.ok (l, t))
      ↔ (fromUrl lib value = .ok (some (l, t)) ∧ (keyLanguage = none ∨ keyLanguage = some l))
        ∨ (fromUrl lib value = .ok none
          ∧ normalizeTitleReference lib keyLanguage value = .ok (l, t)) := by
  unfold normalizeValue
  rw [hstrip, if_neg hvalue]
  cases hurl : fromUrl lib value with
  | error e =>
    constructor
    · intro h
      cases h
    · rintro (⟨h, -⟩ | ⟨h, -⟩) <;> cases h
  | ok reference =>
    cases reference with
    | none =>
      constructor
      · intro h
        exact Or.inr ⟨rfl, Except.ok.inj h⟩
      · rintro (⟨h, -⟩ | ⟨-, h⟩)
        · cases h
        · exact congrArg Except.ok h
    | some reference =>
      constructor
      · intro h
        obtain ⟨rfl, hkey⟩ := normalizeUrlReference_eq_ok_iff.mp (Except.ok.inj h)
        exact Or.inl ⟨rfl, hkey⟩
      · rintro (⟨h, hkey⟩ | ⟨h, -⟩)
        · rw [Option.some.inj (Except.ok.inj h)]
          exact congrArg Except.ok (normalizeUrlReference_eq_ok_iff.mpr ⟨rfl, hkey⟩)
        · cases h

/-- **What a value names**: a proper language, and a decoded title that is checked unless it comes
from a URL. -/
theorem normalizeValue_names (hproper : Proper lib keyLanguage) (hstrip : strip value = value)
    (hvalue : value ≠ []) (h : normalizeValue lib keyLanguage value = .ok (.ok (l, t))) :
    isLanguage l = true ∧ lib.lower l = l ∧ strip t = t ∧ '_' ∉ t
      ∧ (Titled t ∨ fromUrl lib value = .ok (some (l, t))) := by
  rcases (normalizeValue_eq_ok_iff hstrip hvalue).mp h with ⟨hurl, -⟩ | ⟨-, htitle⟩
  · obtain ⟨hmatch, hlower, parsed, -, -, -, rfl⟩ := fromUrl_eq_some hurl
    exact ⟨hmatch, hlower, strip_decodeTitle _, not_mem_decodeTitle _, Or.inr hurl⟩
  · obtain ⟨htitled, title, hparts, rfl⟩ := normalizeTitleReference_eq_ok htitle
    obtain ⟨hmatch, hlower⟩ := titleReferenceParts_proper hproper hparts
    exact ⟨hmatch, hlower, strip_decodeTitle _, not_mem_decodeTitle _, Or.inl htitled⟩

end

/-! ## The events of the loops

What a component says does not depend on what was seen before; only whether a page is new does. So
the loops compute the events of all components and record them one after the other.
-/

/-- The page that a reference is about. -/
def WikipediaTagRef.page (ref : WikipediaTagRef) : Text × Text := (ref.language, ref.title)

/-- A component names a page, or it is rejected. -/
inductive Event where
  | named (ref : WikipediaTagRef)
  | rejected (rejection : WikipediaTagRejection)

section

variable (lib : Library)

/-- What a component says. -/
def event (key raw : Text) (keyLanguage : Option Text) (value : Text) : Except ValueError Event :=
  if value = [] then .ok (.rejected ⟨key, raw, "empty value"⟩)
  else do
    match ← normalizeValue lib keyLanguage value with
    | .error reason => return .rejected ⟨key, value, reason⟩
    | .ok (language, title) => return .named ⟨language, title, key, value⟩

/-- What a tag says. -/
def tagEvents (tag : Text × Text) : Except ValueError (List Event) :=
  if isWikipediaKey tag.1 then
    match tagLanguage lib tag.1 with
    | .error reason => .ok [.rejected ⟨tag.1, tag.2, reason⟩]
    | .ok keyLanguage => (components tag.2).mapM (event lib tag.1 tag.2 keyLanguage)
  else .ok []

def State.record (s : State) : Event → State
  | .rejected rejection => s.reject rejection
  | .named ref =>
    if ref.page ∈ s.seen then s
    else { s with
      seen := s.seen ++ [ref.page]
      refs := s.refs ++ [ref] }

variable {lib}

theorem appendTagValue_eq (key raw : Text) (keyLanguage : Option Text) (s : State) (value : Text) :
    appendTagValue lib key raw keyLanguage s value
      = (event lib key raw keyLanguage value).map s.record := by
  unfold appendTagValue event
  by_cases hvalue : value = []
  · rw [if_pos hvalue, if_pos hvalue]
    rfl
  · rw [if_neg hvalue, if_neg hvalue]
    cases normalizeValue lib keyLanguage value with
    | error e => rfl
    | ok normalized =>
      cases normalized with
      | error reason => rfl
      | ok reference =>
        show (if _ then _ else _) = Except.ok (if _ then _ else _)
        exact (apply_ite Except.ok _ _ _).symm

theorem consumeTag_eq (s : State) (tag : Text × Text) :
    consumeTag lib s tag = (tagEvents lib tag).map (fun events => events.foldl State.record s) := by
  unfold consumeTag tagEvents
  by_cases hkey : isWikipediaKey tag.1
  · rw [if_pos hkey, if_pos hkey]
    cases tagLanguage lib tag.1 with
    | error reason => rfl
    | ok keyLanguage => exact foldlM_eq_mapM (appendTagValue_eq tag.1 tag.2 keyLanguage) _ s
  · rw [if_neg hkey, if_neg hkey]
    rfl

/-- The state that the events of a list of tags lead to. -/
def recorded (events : List Event) : State := events.foldl State.record ⟨[], [], []⟩

/-- **The loops record the events of all tags.** -/
theorem parseWikipediaTags_eq (tags : List (Text × Text)) :
    parseWikipediaTags lib tags = (tags.mapM (tagEvents lib)).map (fun events =>
      ((recorded events.flatten).refs.insertionSort (fun a b => a.sortKey ≤ b.sortKey),
        (recorded events.flatten).rejected.insertionSort (fun a b => a.sortKey ≤ b.sortKey))) := by
  unfold parseWikipediaTags
  rw [foldlM_eq_mapM consumeTag_eq]
  cases tags.mapM (tagEvents lib) with
  | error e => rfl
  | ok events =>
    have hrecorded : recorded events.flatten
        = events.foldl (fun s events => events.foldl State.record s) ⟨[], [], []⟩ :=
      List.foldl_flatten
    show Except.ok (_, _) = Except.ok (_, _)
    rw [hrecorded]

/-- The reference of an event, if it names the page. -/
def Event.naming (page : Text × Text) : Event → Option WikipediaTagRef
  | .named ref => if ref.page = page then some ref else none
  | .rejected _ => none

def Event.rejection : Event → Option WikipediaTagRejection
  | .named _ => none
  | .rejected rejection => some rejection

/-- What the state holds after some events: the first reference of each page, and all rejections. -/
structure Records (events : List Event) (s : State) : Prop where
  seen : s.seen = s.refs.map WikipediaTagRef.page
  nodup : (s.refs.map WikipediaTagRef.page).Nodup
  first : ∀ ref, ref ∈ s.refs ↔ events.findSome? (Event.naming ref.page) = some ref
  rejected : s.rejected = events.filterMap Event.rejection

variable {events : List Event} {s : State} {ref : WikipediaTagRef}

theorem naming_eq_some_iff {event : Event} {page : Text × Text} :
    event.naming page = some ref ↔ event = .named ref ∧ ref.page = page := by
  cases event with
  | named other =>
    simp only [Event.naming, Event.named.injEq]
    split_ifs with hsame
    · rw [Option.some.injEq]
      constructor
      · rintro rfl
        exact ⟨rfl, hsame⟩
      · exact fun h => h.1
    · constructor
      · intro h
        cases h
      · rintro ⟨rfl, h⟩
        exact absurd h hsame
  | rejected rejection => simp [Event.naming]

theorem exists_naming_iff (events : List Event) (page : Text × Text) :
    (∃ ref, events.findSome? (Event.naming page) = some ref ∧ ref.page = page)
      ↔ ∃ ref, .named ref ∈ events ∧ ref.page = page := by
  constructor
  · rintro ⟨ref, hfirst, hpage⟩
    obtain ⟨event, hevent, hnaming⟩ := List.exists_of_findSome?_eq_some hfirst
    rw [(naming_eq_some_iff.mp hnaming).1] at hevent
    exact ⟨ref, hevent, hpage⟩
  · rintro ⟨ref, hevent, hpage⟩
    have hsome : (events.findSome? (Event.naming page)).isSome = true := by
      rw [List.findSome?_isSome_iff]
      exact ⟨.named ref, hevent, by rw [naming_eq_some_iff.mpr ⟨rfl, hpage⟩]; rfl⟩
    obtain ⟨other, hother⟩ := Option.isSome_iff_exists.mp hsome
    obtain ⟨event, -, hnaming⟩ := List.exists_of_findSome?_eq_some hother
    exact ⟨other, hother, (naming_eq_some_iff.mp hnaming).2⟩

variable (h : Records events s)

include h

theorem Records.page_mem_iff (page : Text × Text) :
    page ∈ s.refs.map WikipediaTagRef.page ↔ ∃ ref, .named ref ∈ events ∧ ref.page = page := by
  rw [← exists_naming_iff, List.mem_map]
  refine exists_congr (fun ref => ?_)
  constructor
  · rintro ⟨href, rfl⟩
    exact ⟨(h.first ref).mp href, rfl⟩
  · rintro ⟨hfirst, rfl⟩
    exact ⟨(h.first ref).mpr hfirst, rfl⟩

theorem Records.mem_seen_iff (page : Text × Text) :
    page ∈ s.seen ↔ events.findSome? (Event.naming page) ≠ none := by
  rw [h.seen, h.page_mem_iff, ← exists_naming_iff]
  constructor
  · rintro ⟨ref, hfirst, -⟩ hnone
    rw [hfirst] at hnone
    cases hnone
  · intro hsome
    obtain ⟨ref, hfirst⟩ := Option.ne_none_iff_exists'.mp hsome
    obtain ⟨event, -, hnaming⟩ := List.exists_of_findSome?_eq_some hfirst
    exact ⟨ref, hfirst, (naming_eq_some_iff.mp hnaming).2⟩

theorem Records.reject (rejection : WikipediaTagRejection) :
    Records (events ++ [.rejected rejection]) (s.record (.rejected rejection)) := by
  refine ⟨h.seen, h.nodup, fun ref => ?_, ?_⟩
  · show ref ∈ s.refs ↔ _
    rw [List.findSome?_append, List.findSome?_singleton]
    simpa [Event.naming] using h.first ref
  · show s.rejected ++ [rejection] = _
    rw [h.rejected, List.filterMap_append]
    rfl

theorem Records.name (new : WikipediaTagRef) :
    Records (events ++ [.named new]) (s.record (.named new)) := by
  have hrejected : s.rejected = (events ++ [Event.named new]).filterMap Event.rejection := by
    rw [h.rejected, List.filterMap_append]
    simp [Event.rejection]
  have hfind : ∀ page, (events ++ [Event.named new]).findSome? (Event.naming page)
      = (events.findSome? (Event.naming page)).or (Event.naming page (.named new)) := by
    intro page
    rw [List.findSome?_append, List.findSome?_singleton]
  by_cases hseen : new.page ∈ s.seen
  · -- the page has a reference already
    have hrecord : s.record (.named new) = s := if_pos hseen
    rw [hrecord]
    refine ⟨h.seen, h.nodup, fun ref => ?_, hrejected⟩
    rw [hfind, h.first ref]
    cases hfirst : events.findSome? (Event.naming ref.page) with
    | some other => rfl
    | none =>
      rw [Option.none_or, naming_eq_some_iff, Event.named.injEq]
      constructor
      · intro hnone
        cases hnone
      · rintro ⟨rfl, -⟩
        exact absurd hfirst ((h.mem_seen_iff new.page).mp hseen)
  · -- the page is new
    have hrecord : s.record (.named new)
        = { s with seen := s.seen ++ [new.page], refs := s.refs ++ [new] } := if_neg hseen
    have hnone : events.findSome? (Event.naming new.page) = none := by
      by_contra hsome
      exact hseen ((h.mem_seen_iff new.page).mpr hsome)
    rw [hrecord]
    refine ⟨?_, ?_, fun ref => ?_, hrejected⟩
    · rw [List.map_append, h.seen]
      rfl
    · rw [List.map_append, List.map_singleton, ← List.concat_eq_append]
      exact h.nodup.concat (h.seen ▸ hseen)
    · rw [hfind, List.mem_append, List.mem_singleton, h.first ref]
      by_cases hpage : ref.page = new.page
      · rw [hpage, hnone, Option.none_or, naming_eq_some_iff, Event.named.injEq]
        constructor
        · rintro (hfirst | rfl)
          · cases hfirst
          · exact ⟨rfl, rfl⟩
        · exact fun h => Or.inr h.1.symm
      · have hother : Event.naming ref.page (.named new) = none :=
          if_neg (fun heq => hpage heq.symm)
        rw [hother, Option.or_none]
        constructor
        · rintro (hfirst | rfl)
          · exact hfirst
          · exact absurd rfl hpage
        · exact Or.inl

theorem Records.record (event : Event) : Records (events ++ [event]) (s.record event) := by
  cases event with
  | named ref => exact h.name ref
  | rejected rejection => exact h.reject rejection

omit h

theorem records_recorded (events : List Event) : Records events (recorded events) := by
  induction events using List.reverseRecOn with
  | nil => exact ⟨rfl, List.nodup_nil, by simp [recorded], rfl⟩
  | append_singleton events event ih =>
    unfold recorded at ih ⊢
    rw [List.foldl_append]
    exact ih.record event

end

/-! ## Well-formed references -/

section

variable {lib : Library} {tags : List (Text × Text)} {refs : List WikipediaTagRef}
  {rejected : List WikipediaTagRejection} {tag : Text × Text} {key raw value : Text}
  {keyLanguage : Option Text} {events : List (List Event)}

/-- The record of a component that names no page. -/
inductive RejectedAs (lib : Library) (tag : Text × Text) (value : Text) :
    WikipediaTagRejection → Prop where
  | tag {reason : String} :
      tagLanguage lib tag.1 = .error reason → RejectedAs lib tag value ⟨tag.1, tag.2, reason⟩
  | empty {keyLanguage : Option Text} : tagLanguage lib tag.1 = .ok keyLanguage → value = [] →
      RejectedAs lib tag value ⟨tag.1, tag.2, "empty value"⟩
  | value {keyLanguage : Option Text} {reason : String} :
      tagLanguage lib tag.1 = .ok keyLanguage → value ≠ [] →
      normalizeValue lib keyLanguage value = .ok (.error reason) →
      RejectedAs lib tag value ⟨tag.1, value, reason⟩

/-- A component has a reference for the page that it names, or its record is there. -/
def Answered (lib : Library) (refs : List WikipediaTagRef) (rejected : List WikipediaTagRejection)
    (tag : Text × Text) (value : Text) : Prop :=
  (∃ keyLanguage page, tagLanguage lib tag.1 = .ok keyLanguage
    ∧ normalizeValue lib keyLanguage value = .ok (.ok page)
    ∧ page ∈ refs.map WikipediaTagRef.page)
  ∨ ∃ rejection ∈ rejected, RejectedAs lib tag value rejection

structure WellFormed (lib : Library) (tags : List (Text × Text)) (refs : List WikipediaTagRef)
    (rejected : List WikipediaTagRejection) : Prop where
  language : ∀ ref ∈ refs, isLanguage ref.language = true ∧ lib.lower ref.language = ref.language
  title : ∀ ref ∈ refs, Titled ref.title
  trimmed : ∀ ref ∈ refs, strip ref.title = ref.title ∧ '_' ∉ ref.title
  distinct : (refs.map WikipediaTagRef.page).Nodup
  sorted : refs.Pairwise (fun a b => a.sortKey ≤ b.sortKey)
  answered : ∀ tag ∈ tags, isWikipediaKey tag.1 → ∀ value ∈ components tag.2,
    Answered lib refs rejected tag value

/-- `urlparse` does not refuse the component, and if it is a URL that the key accepts, its title
passes the check that other titles undergo. -/
def Usable (lib : Library) (keyLanguage : Option Text) (value : Text) : Prop :=
  ∃ reference, fromUrl lib value = .ok reference
    ∧ ∀ l t, reference = some (l, t) → (keyLanguage = none ∨ keyLanguage = some l) → Titled t

/-- `P` holds of the components that are looked at: they are not empty, and their key is valid. -/
def ForComponents (lib : Library) (tags : List (Text × Text))
    (P : Option Text → Text → Prop) : Prop :=
  ∀ tag ∈ tags, isWikipediaKey tag.1 → ∀ keyLanguage, tagLanguage lib tag.1 = .ok keyLanguage →
    ∀ value ∈ components tag.2, value ≠ [] → P keyLanguage value

theorem strip_of_mem_components (h : value ∈ components raw) : strip value = value := by
  obtain ⟨part, -, rfl⟩ := List.mem_map.mp h
  exact strip_strip part

theorem exists_normalizeValue_iff (hstrip : strip value = value) (hvalue : value ≠ []) :
    (∃ normalized, normalizeValue lib keyLanguage value = .ok normalized)
      ↔ ∃ reference, fromUrl lib value = .ok reference := by
  unfold normalizeValue
  rw [hstrip, if_neg hvalue]
  refine exists_bind_eq_ok_iff (fun reference => ?_)
  cases reference with
  | none => exact ⟨_, rfl⟩
  | some reference => exact ⟨_, rfl⟩

theorem exists_event_iff (hstrip : strip value = value) :
    (∃ e, event lib key raw keyLanguage value = .ok e)
      ↔ (value ≠ [] → ∃ reference, fromUrl lib value = .ok reference) := by
  unfold event
  by_cases hvalue : value = []
  · rw [if_pos hvalue]
    exact iff_of_true ⟨_, rfl⟩ (fun hne => absurd hvalue hne)
  · rw [if_neg hvalue, imp_iff_right hvalue]
    refine Iff.trans (exists_bind_eq_ok_iff (fun normalized => ?_))
      (exists_normalizeValue_iff hstrip hvalue)
    cases normalized with
    | error reason => exact ⟨_, rfl⟩
    | ok page => exact ⟨_, rfl⟩

theorem exists_tagEvents_iff : (∃ events, tagEvents lib tag = .ok events)
      ↔ (isWikipediaKey tag.1 → ∀ keyLanguage, tagLanguage lib tag.1 = .ok keyLanguage →
        ∀ value ∈ components tag.2, value ≠ [] →
          ∃ reference, fromUrl lib value = .ok reference) := by
  unfold tagEvents
  by_cases hkey : isWikipediaKey tag.1
  · rw [if_pos hkey, imp_iff_right hkey]
    cases tagLanguage lib tag.1 with
    | error reason => simp
    | ok keyLanguage =>
      constructor
      · rintro ⟨events, hevents⟩ _ hsame value hvalue
        obtain ⟨e, -, he⟩ := exists_mem_of_mapM hevents hvalue
        exact (exists_event_iff (strip_of_mem_components hvalue)).mp ⟨e, he⟩
      · intro h
        refine exists_mapM_eq_ok (fun value hvalue => ?_)
        exact (exists_event_iff (strip_of_mem_components hvalue)).mpr
          (h keyLanguage rfl value hvalue)
  · rw [if_neg hkey]
    exact iff_of_true ⟨[], rfl⟩ (fun h => absurd h hkey)

theorem returns_iff : (∃ result, parseWikipediaTags lib tags = .ok result)
      ↔ ForComponents lib tags (fun _ value => ∃ reference, fromUrl lib value = .ok reference) := by
  rw [parseWikipediaTags_eq]
  have hmap : (∃ events, tags.mapM (tagEvents lib) = .ok events)
      ↔ ∀ tag ∈ tags, ∃ events, tagEvents lib tag = .ok events := by
    constructor
    · rintro ⟨events, hevents⟩ tag htag
      obtain ⟨es, -, hes⟩ := exists_mem_of_mapM hevents htag
      exact ⟨es, hes⟩
    · exact exists_mapM_eq_ok
  unfold ForComponents
  rw [← forall₂_congr (fun tag _ => @exists_tagEvents_iff lib tag), ← hmap]
  exact exists_bind_eq_ok_iff (fun events => ⟨_, rfl⟩)

/-- A component of the tag names the page. -/
structure NamedBy (lib : Library) (tag : Text × Text) (value : Text) (page : Text × Text) :
    Prop where
  key : isWikipediaKey tag.1
  component : value ∈ components tag.2
  nonempty : value ≠ []
  names : ∃ keyLanguage, tagLanguage lib tag.1 = .ok keyLanguage
    ∧ normalizeValue lib keyLanguage value = .ok (.ok page)

theorem event_eq_named_iff {ref : WikipediaTagRef} :
    event lib key raw keyLanguage value = .ok (.named ref)
      ↔ value ≠ [] ∧ normalizeValue lib keyLanguage value = .ok (.ok ref.page)
        ∧ ref.rawKey = key ∧ ref.rawValue = value := by
  unfold event
  by_cases hvalue : value = []
  · rw [if_pos hvalue]
    constructor
    · intro h
      cases h
    · exact fun h => absurd hvalue h.1
  · rw [if_neg hvalue, bind_eq_ok]
    constructor
    · rintro ⟨normalized, hnormalized, h⟩
      cases normalized with
      | error reason => cases h
      | ok page =>
        cases h
        exact ⟨hvalue, hnormalized, rfl, rfl⟩
    · rintro ⟨-, hnormalized, rfl, rfl⟩
      exact ⟨_, hnormalized, rfl⟩

theorem named_mem_tagEvents_iff {events : List Event} {ref : WikipediaTagRef}
    (h : tagEvents lib tag = .ok events) :
    .named ref ∈ events ↔ NamedBy lib tag ref.rawValue ref.page ∧ ref.rawKey = tag.1 := by
  unfold tagEvents at h
  by_cases hkey : isWikipediaKey tag.1
  · rw [if_pos hkey] at h
    cases hlanguage : tagLanguage lib tag.1 with
    | error reason =>
      rw [hlanguage] at h
      cases h
      constructor
      · simp
      · rintro ⟨⟨-, -, -, keyLanguage, hok, -⟩, -⟩
        rw [hlanguage] at hok
        cases hok
    | ok keyLanguage =>
      simp only [hlanguage] at h
      constructor
      · intro hmem
        obtain ⟨value, hvalue, hevent⟩ := exists_of_mem_mapM h hmem
        obtain ⟨hne, hnormalized, hrawKey, rfl⟩ := event_eq_named_iff.mp hevent
        exact ⟨⟨hkey, hvalue, hne, keyLanguage, hlanguage, hnormalized⟩, hrawKey⟩
      · rintro ⟨⟨-, hvalue, hne, keyLanguage', hok, hnormalized⟩, hrawKey⟩
        rw [hlanguage] at hok
        cases hok
        obtain ⟨e, he, hevent⟩ := exists_mem_of_mapM h hvalue
        rw [event_eq_named_iff.mpr ⟨hne, hnormalized, hrawKey, rfl⟩] at hevent
        cases hevent
        exact he
  · rw [if_neg hkey] at h
    cases h
    constructor
    · simp
    · exact fun hnamed => absurd hnamed.1.key hkey

/-- **What the call returns**: the first reference of each page, sorted, and the sorted
rejections. -/
theorem parseWikipediaTags_eq_ok_iff : parseWikipediaTags lib tags = .ok (refs, rejected)
      ↔ ∃ events, tags.mapM (tagEvents lib) = .ok events
        ∧ (recorded events.flatten).refs.insertionSort (fun a b => a.sortKey ≤ b.sortKey) = refs
        ∧ (recorded events.flatten).rejected.insertionSort (fun a b => a.sortKey ≤ b.sortKey)
          = rejected := by
  rw [parseWikipediaTags_eq]
  cases tags.mapM (tagEvents lib) with
  | error e =>
    constructor
    · intro h
      cases h
    · rintro ⟨events, h, -⟩
      cases h
  | ok events =>
    show Except.ok _ = _ ↔ _
    simp only [Except.ok.injEq, Prod.mk.injEq]
    constructor
    · exact fun h => ⟨events, rfl, h⟩
    · rintro ⟨_, rfl, h⟩
      exact h

theorem page_mem_refs_iff (h : parseWikipediaTags lib tags = .ok (refs, rejected))
    (page : Text × Text) :
    page ∈ refs.map WikipediaTagRef.page ↔ ∃ tag ∈ tags, ∃ value, NamedBy lib tag value page := by
  obtain ⟨events, hevents, rfl, -⟩ := parseWikipediaTags_eq_ok_iff.mp h
  rw [((List.perm_insertionSort _ _).map _).mem_iff, (records_recorded events.flatten).page_mem_iff]
  constructor
  · rintro ⟨ref, hmem, rfl⟩
    obtain ⟨es, hes, hmem⟩ := List.mem_flatten.mp hmem
    obtain ⟨tag, htag, hok⟩ := exists_of_mem_mapM hevents hes
    exact ⟨tag, htag, _, ((named_mem_tagEvents_iff hok).mp hmem).1⟩
  · rintro ⟨tag, htag, value, hnamed⟩
    obtain ⟨es, hes, hok⟩ := exists_mem_of_mapM hevents htag
    refine ⟨⟨page.1, page.2, tag.1, value⟩, List.mem_flatten.mpr ⟨es, hes, ?_⟩, rfl⟩
    exact (named_mem_tagEvents_iff hok).mpr ⟨hnamed, rfl⟩

theorem NamedBy.strip_value {page : Text × Text} (h : NamedBy lib tag value page) :
    strip value = value :=
  strip_of_mem_components h.component

theorem NamedBy.proper {l t : Text} (h : NamedBy lib tag value (l, t)) :
    isLanguage l = true ∧ lib.lower l = l ∧ strip t = t ∧ '_' ∉ t
      ∧ (Titled t ∨ fromUrl lib value = .ok (some (l, t))) := by
  obtain ⟨keyLanguage, hlanguage, hnormalized⟩ := h.names
  exact normalizeValue_names (proper_of_tagLanguage hlanguage) h.strip_value h.nonempty hnormalized

theorem rejectedAs_of_event {rejection : WikipediaTagRejection}
    (hlanguage : tagLanguage lib tag.1 = .ok keyLanguage)
    (h : event lib tag.1 tag.2 keyLanguage value = .ok (.rejected rejection)) :
    RejectedAs lib tag value rejection := by
  unfold event at h
  by_cases hvalue : value = []
  · rw [if_pos hvalue] at h
    cases h
    exact .empty hlanguage hvalue
  · rw [if_neg hvalue, bind_eq_ok] at h
    obtain ⟨normalized, hnormalized, h⟩ := h
    cases normalized with
    | error reason =>
      cases h
      exact .value hlanguage hvalue hnormalized
    | ok page => cases h

theorem answered (h : parseWikipediaTags lib tags = .ok (refs, rejected)) (htag : tag ∈ tags)
    (hkey : isWikipediaKey tag.1) (hvalue : value ∈ components tag.2) :
    Answered lib refs rejected tag value := by
  obtain ⟨events, hevents, -, hrejected⟩ := parseWikipediaTags_eq_ok_iff.mp h
  obtain ⟨es, hes, hok⟩ := exists_mem_of_mapM hevents htag
  have hmem : ∀ rejection, Event.rejected rejection ∈ es → rejection ∈ rejected := by
    intro rejection hin
    rw [← hrejected, List.mem_insertionSort, (records_recorded events.flatten).rejected]
    exact List.mem_filterMap.mpr ⟨_, List.mem_flatten.mpr ⟨es, hes, hin⟩, rfl⟩
  have hok' := hok
  unfold tagEvents at hok
  rw [if_pos hkey] at hok
  cases hlanguage : tagLanguage lib tag.1 with
  | error reason =>
    -- the tag is rejected as a whole
    rw [hlanguage] at hok
    cases hok
    exact Or.inr ⟨_, hmem _ (List.mem_singleton_self _), .tag hlanguage⟩
  | ok keyLanguage =>
    simp only [hlanguage] at hok
    obtain ⟨e, he, hevent⟩ := exists_mem_of_mapM hok hvalue
    cases e with
    | rejected rejection =>
      exact Or.inr ⟨rejection, hmem rejection he, rejectedAs_of_event hlanguage hevent⟩
    | named ref =>
      obtain ⟨-, hnormalized, -, -⟩ := event_eq_named_iff.mp hevent
      refine Or.inl ⟨keyLanguage, ref.page, hlanguage, hnormalized, ?_⟩
      refine (page_mem_refs_iff h ref.page).mpr ⟨tag, htag, ref.rawValue, ?_⟩
      exact ((named_mem_tagEvents_iff hok').mp he).1

theorem distinct_sorted (h : parseWikipediaTags lib tags = .ok (refs, rejected)) :
    (refs.map WikipediaTagRef.page).Nodup ∧ refs.Pairwise (fun a b => a.sortKey ≤ b.sortKey) := by
  obtain ⟨events, -, rfl, -⟩ := parseWikipediaTags_eq_ok_iff.mp h
  constructor
  · rw [((List.perm_insertionSort _ _).map _).nodup_iff]
    exact (records_recorded events.flatten).nodup
  · exact List.pairwise_insertionSort _ _

/-- **Well-formed references.** The call returns well-formed references and answers every component
just when `urlparse` refuses no component, and the titles of the URLs pass the check that only other
titles undergo. -/
theorem parseWikipediaTags_wellFormed_iff (lib : Library) (tags : List (Text × Text)) :
    (∃ refs rejected, parseWikipediaTags lib tags = .ok (refs, rejected)
        ∧ WellFormed lib tags refs rejected)
      ↔ ForComponents lib tags (Usable lib) := by
  constructor
  · rintro ⟨refs, rejected, hparse, hwell⟩ tag htag hkey keyLanguage hlanguage value hvalue hne
    obtain ⟨reference, hreference⟩ :=
      returns_iff.mp ⟨_, hparse⟩ tag htag hkey keyLanguage hlanguage value hvalue hne
    refine ⟨reference, hreference, ?_⟩
    rintro l t rfl haccepts
    -- an accepted URL is among the references
    have hnormalized : normalizeValue lib keyLanguage value = .ok (.ok (l, t)) :=
      (normalizeValue_eq_ok_iff (strip_of_mem_components hvalue) hne).mpr
        (Or.inl ⟨hreference, haccepts⟩)
    have hpage : (l, t) ∈ refs.map WikipediaTagRef.page :=
      (page_mem_refs_iff hparse (l, t)).mpr
        ⟨tag, htag, value, hkey, hvalue, hne, keyLanguage, hlanguage, hnormalized⟩
    obtain ⟨ref, href, heq⟩ := List.mem_map.mp hpage
    have htitle := hwell.title ref href
    rwa [show ref.title = t from congrArg Prod.snd heq] at htitle
  · intro husable
    have hreturns : ∃ result, parseWikipediaTags lib tags = .ok result := by
      refine returns_iff.mpr (fun tag htag hkey keyLanguage hlanguage value hvalue hne => ?_)
      obtain ⟨reference, hreference, -⟩ :=
        husable tag htag hkey keyLanguage hlanguage value hvalue hne
      exact ⟨reference, hreference⟩
    obtain ⟨⟨refs, rejected⟩, hparse⟩ := hreturns
    have hsource : ∀ ref ∈ refs, ∃ tag ∈ tags, ∃ value,
        NamedBy lib tag value (ref.language, ref.title) :=
      fun ref href => (page_mem_refs_iff hparse ref.page).mp (List.mem_map_of_mem href)
    obtain ⟨hdistinct, hsorted⟩ := distinct_sorted hparse
    refine ⟨refs, rejected, hparse, ?_, ?_, ?_, hdistinct, hsorted, ?_⟩
    · intro ref href
      obtain ⟨tag, -, value, hnamed⟩ := hsource ref href
      exact ⟨hnamed.proper.1, hnamed.proper.2.1⟩
    · intro ref href
      obtain ⟨tag, htag, value, hnamed⟩ := hsource ref href
      rcases hnamed.proper.2.2.2.2 with htitled | hurl
      · exact htitled
      · obtain ⟨keyLanguage, hlanguage, hnormalized⟩ := hnamed.names
        obtain ⟨reference, hreference, htitle⟩ := husable tag htag hnamed.key keyLanguage hlanguage
          value hnamed.component hnamed.nonempty
        rw [hurl, Except.ok.injEq] at hreference
        refine htitle _ _ hreference.symm ?_
        rcases (normalizeValue_eq_ok_iff hnamed.strip_value hnamed.nonempty).mp hnormalized with
          ⟨-, haccepts⟩ | ⟨hnone, -⟩
        · exact haccepts
        · rw [hurl] at hnone
          cases hnone
    · intro ref href
      obtain ⟨tag, -, value, hnamed⟩ := hsource ref href
      exact ⟨hnamed.proper.2.2.1, hnamed.proper.2.2.2.1⟩
    · exact fun tag htag hkey value hvalue => answered hparse htag hkey hvalue

end

namespace TagsExample

/-- The library on ASCII texts. -/
def library : Library where
  lower cs := cs.map Char.toLower
  lower_lower cs := by simp [Function.comp_def]
  netlocError _ := none

/-- A URL without a title. -/
def bareUrl : List (Text × Text) :=
  [("wikipedia".toList, "https://en.wikipedia.org/wiki/".toList)]

/-- An address that is not closed. -/
def openAddress : List (Text × Text) := [("wikipedia:en".toList, "http://[".toList)]

/-- The title of the first is empty, and the second raises. -/
theorem notWellFormed :
    (¬ ∃ refs rejected, parseWikipediaTags library bareUrl = .ok (refs, rejected)
        ∧ WellFormed library bareUrl refs rejected)
      ∧ ¬ ∃ refs rejected, parseWikipediaTags library openAddress = .ok (refs, rejected)
        ∧ WellFormed library openAddress refs rejected := by
  constructor
  · rintro ⟨refs, rejected, hparse, hwell⟩
    have hbare : parseWikipediaTags library bareUrl = .ok ([⟨"en".toList, [], "wikipedia".toList,
        "https://en.wikipedia.org/wiki/".toList⟩], []) := by decide
    rw [hbare] at hparse
    cases hparse
    exact (hwell.title _ (List.mem_singleton_self _)).1 rfl
  · rintro ⟨refs, rejected, hparse, -⟩
    have hopen : parseWikipediaTags library openAddress = .error ⟨"Invalid IPv6 URL"⟩ := by decide
    rw [hopen] at hparse
    cases hparse

end TagsExample

end OsmPolygonWikidata.WikipediaTags
