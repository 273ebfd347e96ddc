import Mathlib.Data.List.Induction

/-! # The section parser

`augmentation/sections.py` and `BlockTextParser` of `enrichment/text_cleaning.py`. The parser takes
the tags and texts of a page one after the other. The text of a section is set when the next heading
opens; the next section is appended when that heading closes.

A heading that opens while another one is open, and the end of the page, set the text of the same
section once more: what it held is lost (`parse_lossless_iff`).
-/

namespace OsmPolygonWikidata.SectionParser

/-! ## The model -/

/-- What `HTMLParser` calls its handlers with. -/
inductive Event where
  | startTag (tag : String)
  | endTag (tag : String)
  | data (text : String)

def ignoredTags : List String := ["script", "style", "table", "sup"]

def blockStartTags : List String := ["p", "li", "br", "div"]

def blockEndTags : List String := ["p", "li", "div"]

def headingTags : List String := ["h2", "h3", "h4", "h5", "h6"]

/-- `int(tag[1])`. -/
def levelOf (tag : String) : Nat := (tag.toList.getD 1 '0').toNat - '0'.toNat

/-- What `_text_parts` holds: a text, or the blank of a block boundary. -/
inductive Part where
  | data (text : String)
  | boundary

def Part.value : Part → String
  | .data text => text
  | .boundary => " "

/-- A parsed section, with the parts that its text is cleaned from. -/
structure ParsedSection where
  heading : String
  anchor : String
  level : Nat
  raw : List Part

/-- The text of a section. -/
def ParsedSection.text (clean : String → String) (s : ParsedSection) : String :=
  clean (" ".intercalate (s.raw.map Part.value))

/-- `_SectionParser`. There is always a last section, `sections[-1]`. -/
structure Parser where
  ignoredDepth : Nat
  earlier : List ParsedSection
  last : ParsedSection
  headingLevel : Nat
  headingParts : List String
  textParts : List Part

def Parser.sections (p : Parser) : List ParsedSection := p.earlier ++ [p.last]

def Parser.ignoring (p : Parser) : Prop := 0 < p.ignoredDepth

instance (p : Parser) : Decidable p.ignoring := inferInstanceAs (Decidable (_ < _))

/-- `__init__`. -/
def Parser.init : Parser where
  ignoredDepth := 0
  earlier := []
  last := ⟨"", "", 0, []⟩
  headingLevel := 0
  headingParts := []
  textParts := []

section

variable (clean : String → String)

/-- `_flush`. -/
def Parser.flush (p : Parser) : Parser :=
  { p with
    last := { p.last with raw := p.textParts }
    textParts := [] }

def Parser.onBlockBoundary (p : Parser) : Parser :=
  { p with textParts := p.textParts ++ [.boundary] }

def Parser.onText (p : Parser) (data : String) : Parser :=
  if p.headingLevel ≠ 0 then { p with headingParts := p.headingParts ++ [data] }
  else { p with textParts := p.textParts ++ [.data data] }

/-- `BlockTextParser.handle_starttag`. -/
def Parser.blockStarttag (p : Parser) (tag : String) : Parser :=
  if tag ∈ ignoredTags then { p with ignoredDepth := p.ignoredDepth + 1 }
  else if tag ∈ blockStartTags ∧ ¬ p.ignoring then p.onBlockBoundary
  else p

/-- `BlockTextParser.handle_endtag`. -/
def Parser.blockEndtag (p : Parser) (tag : String) : Parser :=
  if tag ∈ ignoredTags then { p with ignoredDepth := p.ignoredDepth - 1 }
  else if tag ∈ blockEndTags ∧ ¬ p.ignoring then p.onBlockBoundary
  else p

def Parser.handleStarttag (p : Parser) (tag : String) : Parser :=
  let p := p.blockStarttag tag
  if tag ∈ headingTags then
    { p.flush with
      headingLevel := levelOf tag
      headingParts := [] }
  else p

def Parser.closeHeading (p : Parser) (tag : String) : Parser :=
  if p.headingLevel = 0 ∨ tag ≠ "h" ++ toString p.headingLevel then p
  else
    let heading := clean (" ".intercalate p.headingParts)
    { p with
      earlier := p.earlier ++ [p.last]
      last := ⟨heading, heading.replace " " "_", p.headingLevel, []⟩
      headingLevel := 0 }

def Parser.handleEndtag (p : Parser) (tag : String) : Parser :=
  (p.blockEndtag tag).closeHeading clean tag

def Parser.handleData (p : Parser) (data : String) : Parser :=
  if p.ignoring then p else p.onText data

def Parser.handle (p : Parser) : Event → Parser
  | .startTag tag => p.handleStarttag tag
  | .endTag tag => p.handleEndtag clean tag
  | .data text => p.handleData text

/-- The parser after the events, before `close`. -/
def feed (events : List Event) : Parser := events.foldl (Parser.handle clean) Parser.init

/-- The sections after `feed` and `close`. -/
def parse (events : List Event) : List ParsedSection := (feed clean events).flush.sections

end

/-! ## The text of a page -/

/-- The texts among the parts. -/
def texts (parts : List Part) : List String :=
  parts.filterMap (fun part =>
    match part with
    | .data text => some text
    | .boundary => none)

/-- What some events say: how many ignored elements are open, the level of the open heading, the
texts that were delivered outside of both, and those of them after the last closed heading. A
heading is open from its start tag to the end tag of its level; another heading takes its place. -/
structure Reading where
  depth : Nat
  heading : Nat
  delivered : List String
  since : List String

def Reading.next (r : Reading) : Event → Reading
  | .startTag tag =>
    { r with
      depth := if tag ∈ ignoredTags then r.depth + 1 else r.depth
      heading := if tag ∈ headingTags then levelOf tag else r.heading }
  | .endTag tag =>
    let r := { r with depth := if tag ∈ ignoredTags then r.depth - 1 else r.depth }
    if r.heading = 0 ∨ tag ≠ "h" ++ toString r.heading then r
    else
      { r with
        heading := 0
        since := [] }
  | .data text =>
    if r.depth = 0 ∧ r.heading = 0 then
      { r with
        delivered := r.delivered ++ [text]
        since := r.since ++ [text] }
    else r

def read (events : List Event) : Reading := events.foldl Reading.next ⟨0, 0, [], []⟩

def Event.OpensHeading : Event → Prop
  | .startTag tag => tag ∈ headingTags
  | _ => False

/-- When another heading opens, or the page ends, while a heading is open, no text has been
delivered since the last heading was closed. -/
def Unbroken (events : List Event) : Prop :=
  ∀ pre post, events = pre ++ post → (∀ e ∈ post.head?, e.OpensHeading) →
    (read pre).heading ≠ 0 → (read pre).since = []

/-- The sections hold the delivered texts in order, each of them once. -/
def Lossless (clean : String → String) (events : List Event) : Prop :=
  (parse clean events).flatMap (fun s => texts s.raw) = (read events).delivered

section

variable {clean : String → String} {events pre post : List Event} {event : Event} {p p' : Parser}
  {r : Reading} {tag : String}

theorem texts_append (xs ys : List Part) : texts (xs ++ ys) = texts xs ++ texts ys :=
  List.filterMap_append

/-! ## The state of the parser -/

/-- The texts that the parser holds, in the order of the sections. -/
def heldTexts (p : Parser) : List String :=
  p.earlier.flatMap (fun s => texts s.raw) ++ texts p.last.raw ++ texts p.textParts

/-- The two states differ in their depth and in blanks only. -/
structure SameTexts (p p' : Parser) : Prop where
  earlier : p'.earlier = p.earlier
  last : p'.last = p.last
  headingLevel : p'.headingLevel = p.headingLevel
  textParts : texts p'.textParts = texts p.textParts

theorem SameTexts.refl (p : Parser) : SameTexts p p := ⟨rfl, rfl, rfl, rfl⟩

theorem onBlockBoundary_same (p : Parser) : SameTexts p p.onBlockBoundary := by
  refine ⟨rfl, rfl, rfl, ?_⟩
  show texts (p.textParts ++ [.boundary]) = _
  rw [texts_append]
  exact List.append_nil _

theorem blockStarttag_same (p : Parser) (tag : String) : SameTexts p (p.blockStarttag tag) := by
  unfold Parser.blockStarttag
  split_ifs
  · exact ⟨rfl, rfl, rfl, rfl⟩
  · exact onBlockBoundary_same p
  · exact SameTexts.refl p

theorem blockEndtag_same (p : Parser) (tag : String) : SameTexts p (p.blockEndtag tag) := by
  unfold Parser.blockEndtag
  split_ifs
  · exact ⟨rfl, rfl, rfl, rfl⟩
  · exact onBlockBoundary_same p
  · exact SameTexts.refl p

theorem blockStarttag_depth (p : Parser) (tag : String) : (p.blockStarttag tag).ignoredDepth
    = if tag ∈ ignoredTags then p.ignoredDepth + 1 else p.ignoredDepth := by
  unfold Parser.blockStarttag
  split_ifs <;> rfl

theorem blockEndtag_depth (p : Parser) (tag : String) : (p.blockEndtag tag).ignoredDepth
    = if tag ∈ ignoredTags then p.ignoredDepth - 1 else p.ignoredDepth := by
  unfold Parser.blockEndtag
  split_ifs <;> rfl

/-- The parser agrees with the events on what is open. -/
structure Follows (r : Reading) (p : Parser) : Prop where
  depth : p.ignoredDepth = r.depth
  heading : p.headingLevel = r.heading

/-- Nothing is lost so far. While a heading is open, the last section has its text; before, its text
is among the parts. -/
structure Holds (r : Reading) (p : Parser) : Prop where
  stored : heldTexts p = r.delivered
  opened : r.heading ≠ 0 → texts p.last.raw = r.since ∧ texts p.textParts = []
  closed : r.heading = 0 → texts p.last.raw = [] ∧ texts p.textParts = r.since

/-- Some text is lost. -/
def Lost (r : Reading) (p : Parser) : Prop := (heldTexts p).length < r.delivered.length

theorem SameTexts.heldTexts_eq (h : SameTexts p p') : heldTexts p' = heldTexts p := by
  unfold heldTexts
  rw [h.earlier, h.last, h.textParts]

theorem SameTexts.holds (h : SameTexts p p') (hholds : Holds r p) : Holds r p' := by
  constructor
  · rw [h.heldTexts_eq, hholds.stored]
  · rw [h.last, h.textParts]
    exact hholds.opened
  · rw [h.last, h.textParts]
    exact hholds.closed

/-! ## One event -/

theorem handleStarttag_of_not_mem (htag : tag ∉ headingTags) :
    p.handleStarttag tag = p.blockStarttag tag :=
  if_neg htag

theorem handleStarttag_of_mem (htag : tag ∈ headingTags) : p.handleStarttag tag
    = { (p.blockStarttag tag).flush with
        headingLevel := levelOf tag
        headingParts := [] } :=
  if_pos htag

theorem levelOf_ne_zero (htag : tag ∈ headingTags) : levelOf tag ≠ 0 := by
  have hall : ∀ t ∈ headingTags, levelOf t ≠ 0 := by decide
  exact hall tag htag

theorem heldTexts_handleStarttag (htag : tag ∈ headingTags) : heldTexts (p.handleStarttag tag)
      = p.earlier.flatMap (fun s => texts s.raw) ++ texts p.textParts := by
  have hsame := blockStarttag_same p tag
  rw [handleStarttag_of_mem htag]
  show (p.blockStarttag tag).earlier.flatMap (fun s => texts s.raw)
    ++ texts (p.blockStarttag tag).textParts ++ texts [] = _
  rw [hsame.earlier, hsame.textParts]
  exact List.append_nil _

/-- No heading closes: none is open, or the tag is not its end tag. -/
def StaysOpen (r : Reading) (tag : String) : Prop :=
  r.heading = 0 ∨ tag ≠ "h" ++ toString r.heading

theorem next_endTag_open (h : StaysOpen r tag) : r.next (.endTag tag)
    = { r with depth := if tag ∈ ignoredTags then r.depth - 1 else r.depth } :=
  if_pos h

theorem next_endTag_close (h : ¬ StaysOpen r tag) : r.next (.endTag tag) = { r with
        depth := if tag ∈ ignoredTags then r.depth - 1 else r.depth
        heading := 0
        since := [] } :=
  if_neg h

variable (h : Follows r p)

include h

theorem Follows.blockEndtag (tag : String) :
    Follows { r with depth := if tag ∈ ignoredTags then r.depth - 1 else r.depth }
      (p.blockEndtag tag) := by
  refine ⟨?_, (blockEndtag_same p tag).headingLevel.trans h.heading⟩
  rw [blockEndtag_depth, h.depth]

theorem Follows.handleEndtag_open (hopen : StaysOpen r tag) :
    p.handleEndtag clean tag = p.blockEndtag tag := by
  have hheading : (p.blockEndtag tag).headingLevel = r.heading := (h.blockEndtag tag).heading
  refine if_pos ?_
  rwa [hheading]

theorem Follows.handleEndtag_close (hclose : ¬ StaysOpen r tag) :
    ∃ s, s.raw = [] ∧ p.handleEndtag clean tag
      = { p.blockEndtag tag with
          earlier := (p.blockEndtag tag).earlier ++ [(p.blockEndtag tag).last]
          last := s
          headingLevel := 0 } := by
  have hheading : (p.blockEndtag tag).headingLevel = r.heading := (h.blockEndtag tag).heading
  refine ⟨⟨_, _, _, []⟩, rfl, if_neg ?_⟩
  rwa [hheading]

theorem Follows.handleData_hidden (hhidden : ¬ (r.depth = 0 ∧ r.heading = 0))
    (text : String) : SameTexts p (p.handleData text)
      ∧ (p.handleData text).ignoredDepth = p.ignoredDepth := by
  unfold Parser.handleData Parser.onText
  by_cases hignoring : p.ignoring
  · rw [if_pos hignoring]
    exact ⟨SameTexts.refl p, rfl⟩
  · have hlevel : p.headingLevel ≠ 0 := by
      intro hzero
      have hdepth := h.depth
      have hheading := h.heading
      unfold Parser.ignoring at hignoring
      omega
    rw [if_neg hignoring, if_pos hlevel]
    exact ⟨⟨rfl, rfl, rfl, rfl⟩, rfl⟩

theorem Follows.handleData_delivered (hshown : r.depth = 0 ∧ r.heading = 0)
    (text : String) : p.handleData text = { p with textParts := p.textParts ++ [.data text] } := by
  have hignoring : ¬ p.ignoring := by
    have hdepth := h.depth
    unfold Parser.ignoring
    omega
  have hlevel : ¬ p.headingLevel ≠ 0 := by
    have hheading := h.heading
    omega
  unfold Parser.handleData Parser.onText
  rw [if_neg hignoring, if_neg hlevel]

theorem follows_next (event : Event) : Follows (r.next event) (p.handle clean event) := by
  cases event with
  | startTag tag =>
    show Follows { r with depth := _, heading := _ } (p.handleStarttag tag)
    by_cases htag : tag ∈ headingTags
    · rw [handleStarttag_of_mem htag, if_pos htag]
      refine ⟨?_, rfl⟩
      show (p.blockStarttag tag).ignoredDepth = _
      rw [blockStarttag_depth, h.depth]
    · rw [handleStarttag_of_not_mem htag, if_neg htag]
      refine ⟨?_, (blockStarttag_same p tag).headingLevel.trans h.heading⟩
      rw [blockStarttag_depth, h.depth]
  | endTag tag =>
    show Follows _ (p.handleEndtag clean tag)
    by_cases hopen : StaysOpen r tag
    · rw [h.handleEndtag_open hopen, next_endTag_open hopen]
      exact h.blockEndtag tag
    · obtain ⟨s, -, hclose⟩ := h.handleEndtag_close hopen
      rw [hclose, next_endTag_close hopen]
      exact ⟨(h.blockEndtag tag).depth, rfl⟩
  | data text =>
    show Follows (if _ then _ else _) (p.handleData text)
    by_cases hshown : r.depth = 0 ∧ r.heading = 0
    · rw [if_pos hshown, h.handleData_delivered hshown]
      exact ⟨h.depth, h.heading⟩
    · obtain ⟨hsame, hdepth⟩ := h.handleData_hidden hshown text
      rw [if_neg hshown]
      exact ⟨hdepth.trans h.depth, hsame.headingLevel.trans h.heading⟩

omit h

/-- The event replaces a text. -/
def Replaces (r : Reading) (event : Event) : Prop :=
  event.OpensHeading ∧ r.heading ≠ 0 ∧ r.since ≠ []

theorem Holds.next (h : Holds r p) (hfollows : Follows r p) (hkeeps : ¬ Replaces r event) :
    Holds (r.next event) (p.handle clean event) := by
  cases event with
  | startTag tag =>
    show Holds { r with depth := _, heading := _ } (p.handleStarttag tag)
    by_cases htag : tag ∈ headingTags
    · rw [if_pos htag]
      have hsame := blockStarttag_same p tag
      -- the texts of the last section are those since the last closed heading
      have hlast : texts p.last.raw ++ texts p.textParts = r.since ∧ texts p.last.raw = [] := by
        by_cases hheading : r.heading = 0
        · obtain ⟨hraw, hparts⟩ := h.closed hheading
          rw [hraw, hparts]
          exact ⟨List.nil_append _, rfl⟩
        · obtain ⟨hraw, hparts⟩ := h.opened hheading
          have hsince : r.since = [] := by
            by_contra hne
            exact hkeeps ⟨htag, hheading, hne⟩
          rw [hraw, hparts, hsince]
          exact ⟨rfl, rfl⟩
      have hparts : texts p.textParts = r.since := by
        rw [← hlast.1, hlast.2, List.nil_append]
      refine ⟨?_, fun _ => ⟨?_, ?_⟩, fun hzero => absurd hzero (levelOf_ne_zero htag)⟩
      · rw [heldTexts_handleStarttag htag]
        have hstored := h.stored
        unfold heldTexts at hstored
        rwa [hlast.2, List.append_nil] at hstored
      · rw [handleStarttag_of_mem htag]
        exact hsame.textParts.trans hparts
      · rw [handleStarttag_of_mem htag]
        rfl
    · rw [handleStarttag_of_not_mem htag, if_neg htag]
      have hheld := (blockStarttag_same p tag).holds h
      exact ⟨hheld.stored, hheld.opened, hheld.closed⟩
  | endTag tag =>
    show Holds _ (p.handleEndtag clean tag)
    have hheld := (blockEndtag_same p tag).holds h
    by_cases hopen : StaysOpen r tag
    · rw [hfollows.handleEndtag_open hopen, next_endTag_open hopen]
      exact ⟨hheld.stored, hheld.opened, hheld.closed⟩
    · obtain ⟨s, hs, hclose⟩ := hfollows.handleEndtag_close hopen
      rw [hclose, next_endTag_close hopen]
      have hheading : r.heading ≠ 0 := fun hzero => hopen (Or.inl hzero)
      obtain ⟨-, hparts⟩ := hheld.opened hheading
      refine ⟨?_, fun hne => absurd rfl hne, fun _ => ⟨?_, hparts⟩⟩
      · rw [← hheld.stored]
        simp [heldTexts, hs, texts]
      · show texts s.raw = []
        rw [hs]
        rfl
  | data text =>
    show Holds (if _ then _ else _) (p.handleData text)
    by_cases hshown : r.depth = 0 ∧ r.heading = 0
    · rw [if_pos hshown, hfollows.handleData_delivered hshown]
      obtain ⟨hraw, hparts⟩ := h.closed hshown.2
      have hadded : texts (p.textParts ++ [.data text]) = texts p.textParts ++ [text] :=
        texts_append _ _
      refine ⟨?_, fun hne => absurd hshown.2 hne, fun _ => ⟨hraw, ?_⟩⟩
      · show _ ++ texts p.last.raw ++ texts (p.textParts ++ [.data text]) = _
        rw [hadded, ← h.stored, ← List.append_assoc]
        rfl
      · show texts (p.textParts ++ [.data text]) = _
        rw [hadded, hparts]
    · rw [if_neg hshown]
      exact (hfollows.handleData_hidden hshown text).1.holds h

variable (clean) in
theorem Follows.length_heldTexts (hfollows : Follows r p) (event : Event) :
    (heldTexts (p.handle clean event)).length + r.delivered.length
      ≤ (heldTexts p).length + (r.next event).delivered.length := by
  cases event with
  | startTag tag =>
    show (heldTexts (p.handleStarttag tag)).length + _ ≤ _ + r.delivered.length
    by_cases htag : tag ∈ headingTags
    · rw [heldTexts_handleStarttag htag, heldTexts]
      simp only [List.length_append]
      omega
    · have hsame := congrArg List.length (blockStarttag_same p tag).heldTexts_eq
      rw [handleStarttag_of_not_mem htag]
      omega
  | endTag tag =>
    show (heldTexts (p.handleEndtag clean tag)).length + _ ≤ _
    by_cases hopen : StaysOpen r tag
    · have hsame := congrArg List.length (blockEndtag_same p tag).heldTexts_eq
      rw [hfollows.handleEndtag_open hopen, next_endTag_open hopen]
      dsimp only
      omega
    · obtain ⟨s, hs, hclose⟩ := hfollows.handleEndtag_close hopen
      rw [hclose, next_endTag_close hopen, ← (blockEndtag_same p tag).heldTexts_eq]
      simp [heldTexts, hs, texts]
  | data text =>
    show (heldTexts (p.handleData text)).length + _
      ≤ _ + (if r.depth = 0 ∧ r.heading = 0 then _ else r : Reading).delivered.length
    by_cases hshown : r.depth = 0 ∧ r.heading = 0
    · rw [if_pos hshown, hfollows.handleData_delivered hshown]
      simp only [heldTexts, texts_append, List.length_append]
      show _ + (_ + 1) + _ ≤ _ + (_ + 1)
      omega
    · have hsame := congrArg List.length (hfollows.handleData_hidden hshown text).1.heldTexts_eq
      rw [if_neg hshown]
      omega

theorem Holds.lost (h : Holds r p) (hreplaces : Replaces r event) :
    Lost (r.next event) (p.handle clean event) := by
  obtain ⟨hopens, hheading, hsince⟩ := hreplaces
  cases event with
  | startTag tag =>
    obtain ⟨hraw, hparts⟩ := h.opened hheading
    show (heldTexts (p.handleStarttag tag)).length < r.delivered.length
    rw [heldTexts_handleStarttag hopens, ← h.stored, heldTexts, hraw, hparts]
    have hpos := List.length_pos_iff.mpr hsince
    simp only [List.length_append]
    omega
  | endTag tag => exact absurd hopens id
  | data text => exact absurd hopens id

/-! ## All events -/

theorem feed_concat (events : List Event) (event : Event) :
    feed clean (events ++ [event]) = (feed clean events).handle clean event := by
  simp [feed]

theorem read_concat (events : List Event) (event : Event) :
    read (events ++ [event]) = (read events).next event := by
  simp [read]

variable (clean) in
theorem follows_feed (events : List Event) : Follows (read events) (feed clean events) := by
  induction events using List.reverseRecOn with
  | nil => exact ⟨rfl, rfl⟩
  | append_singleton events event ih =>
    rw [feed_concat, read_concat]
    exact follows_next ih event

/-- No event replaces a text. -/
def NoReplacement (events : List Event) : Prop :=
  ∀ pre event post, events = pre ++ event :: post → ¬ Replaces (read pre) event

theorem noReplacement_concat (events : List Event) (event : Event) :
    NoReplacement (events ++ [event]) ↔ NoReplacement events ∧ ¬ Replaces (read events) event := by
  constructor
  · intro h
    refine ⟨fun pre e post hsplit => h pre e (post ++ [event]) ?_, h events event [] rfl⟩
    rw [hsplit]
    simp
  · rintro ⟨h, hlast⟩ pre e post hsplit
    rcases List.eq_nil_or_concat post with rfl | ⟨post, e', rfl⟩
    · obtain ⟨rfl, he⟩ := List.append_inj' hsplit rfl
      rw [← List.singleton_inj.mp he]
      exact hlast
    · rw [List.concat_eq_append, ← List.cons_append, ← List.append_assoc] at hsplit
      exact h pre e post (List.append_inj' hsplit rfl).1

variable (clean) in
theorem holds_or_lost (events : List Event) :
    (NoReplacement events ∧ Holds (read events) (feed clean events))
      ∨ (¬ NoReplacement events ∧ Lost (read events) (feed clean events)) := by
  induction events using List.reverseRecOn with
  | nil =>
    refine Or.inl ⟨fun pre event post h => ?_, rfl, fun h => absurd rfl h, fun _ => ⟨rfl, rfl⟩⟩
    simp at h
  | append_singleton events event ih =>
    rw [feed_concat, read_concat, noReplacement_concat]
    have hfollows := follows_feed clean events
    rcases ih with ⟨hnone, hholds⟩ | ⟨hsome, hlost⟩
    · by_cases hreplaces : Replaces (read events) event
      · exact Or.inr ⟨fun h => h.2 hreplaces, hholds.lost hreplaces⟩
      · exact Or.inl ⟨⟨hnone, hreplaces⟩, hholds.next hfollows hreplaces⟩
    · refine Or.inr ⟨fun h => hsome h.1, ?_⟩
      have hlength := hfollows.length_heldTexts clean event
      unfold Lost at hlost ⊢
      omega

theorem unbroken_iff (events : List Event) : Unbroken events
      ↔ NoReplacement events ∧ ((read events).heading ≠ 0 → (read events).since = []) := by
  constructor
  · intro h
    refine ⟨fun pre event post hsplit hreplaces => ?_, h events [] (by simp) (by simp)⟩
    refine hreplaces.2.2 (h pre (event :: post) hsplit ?_ hreplaces.2.1)
    simpa using hreplaces.1
  · rintro ⟨hnone, hend⟩ pre post rfl hhead hheading
    cases post with
    | nil =>
      rw [List.append_nil] at hend
      exact hend hheading
    | cons event post =>
      by_contra hsince
      exact hnone pre event post rfl ⟨hhead event rfl, hheading, hsince⟩

theorem flatMap_parse (events : List Event) : (parse clean events).flatMap (fun s => texts s.raw)
      = (feed clean events).earlier.flatMap (fun s => texts s.raw)
        ++ texts (feed clean events).textParts := by
  show ((feed clean events).earlier ++ [_]).flatMap _ = _
  rw [List.flatMap_append, List.flatMap_singleton]
  rfl

/-- **No text is lost** just when no heading opens, and the page does not end, within an open heading
after text. -/
theorem parse_lossless_iff (clean : String → String) (events : List Event) :
    Lossless clean events ↔ Unbroken events := by
  rw [unbroken_iff, Lossless, flatMap_parse]
  rcases holds_or_lost clean events with ⟨hnone, hholds⟩ | ⟨hsome, hlost⟩
  · have hstored := hholds.stored
    unfold heldTexts at hstored
    rw [and_iff_right hnone, ← hstored]
    by_cases hheading : (read events).heading = 0
    · obtain ⟨hraw, -⟩ := hholds.closed hheading
      rw [hraw, List.append_nil]
      exact iff_of_true rfl (fun hne => absurd hheading hne)
    · obtain ⟨hraw, hparts⟩ := hholds.opened hheading
      rw [hraw, hparts, imp_iff_right hheading]
      simp
  · refine iff_of_false (fun heq => ?_) (fun h => hsome h.1)
    have hlength := congrArg List.length heq
    unfold Lost heldTexts at hlost
    simp only [List.length_append] at hlost hlength
    omega

end

namespace ParserExample

/-- `a<h2>b<h3>c</h3>d`. -/
def nestedHeadings : List Event :=
  [.data "a", .startTag "h2", .data "b", .startTag "h3", .data "c", .endTag "h3", .data "d"]

/-- The text before the headings is lost. -/
theorem lost_before_headings : ¬ Lossless id nestedHeadings := by
  unfold Lossless
  decide

end ParserExample

end OsmPolygonWikidata.SectionParser
