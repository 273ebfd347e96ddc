import OsmPolygonWikidata.V2.TagFixedPoints

/-! # Names of languages

`hf/language_inventory_models.py`. The language of a row is a free text; its partition is a name, or
`unknown`. `normalizeLanguage_projection` says which spellings have the same partition: a legacy
alias is only known with its underscores.

What `str.lower` and `str.upper` make of a character outside ASCII is a parameter, with what Unicode
says about the characters that the pattern of a language can match.
-/

namespace OsmPolygonWikidata.LanguageSplits

open Python
open WikipediaTags (isLanguage isLetter isLetterOrDigit replaceChar letters_of_isLanguage
  not_isSpace_of_isLanguage not_isSpace_of_isLetterOrDigit)

/-! ## Case mappings -/

/-- ASCII, and the three other characters that are or become letters of a language in lower case:
`ı`, `ſ` and the Kelvin sign. -/
def isKnown (c : Char) : Bool := c.toNat < 128 || c ∈ ['\u0131', '\u017f', '\u212a']

/-- The characters outside ASCII that are ASCII letters in upper case: `ı`, `ſ`, `ß` and the seven
Latin ligatures. -/
def asciiInUpperCase : List Char :=
  ['\u0131', '\u017f', '\u00df', '\ufb00', '\ufb01', '\ufb02', '\ufb03', '\ufb04', '\ufb05',
    '\ufb06']

/-- `str.lower` and `str.upper` of a character, and whether a capital sigma stands at the end of a
word. -/
structure CaseMapping where
  lower : Char → List Char
  upper : Char → List Char
  isFinalSigma : List Char → List Char → Bool
  lower_ascii : ∀ c, c.toNat < 128 → lower c = [c.toLower]
  upper_ascii : ∀ c, c.toNat < 128 → upper c = [c.toUpper]
  lower_kelvin : lower '\u212a' = ['k']
  upper_kelvin : upper '\u212a' = ['\u212a']
  lower_dotlessI : lower '\u0131' = ['\u0131']
  lower_longS : lower '\u017f' = ['\u017f']
  lower_foreign : ∀ c, isKnown c = false → ∃ d ∈ lower c, isKnown d = false ∧ d ≠ '\u0130'
  upper_foreign : ∀ c, isKnown c = false → c ∉ asciiInUpperCase → ∃ d ∈ upper c, isKnown d = false
  space : ∀ c, isSpace c = true → lower c = [c] ∧ upper c = [c]
  nonspace : ∀ c, isSpace c = false → ∀ d, d ∈ lower c ∨ d ∈ upper c → isSpace d = false

variable (m : CaseMapping)

/-- `str.lower` of a text, after the characters `before`. -/
def lowerAfter (before : List Char) : List Char → List Char
  | [] => []
  | c :: cs =>
    (if c = '\u03a3' then [if m.isFinalSigma before cs then '\u03c2' else '\u03c3']
      else m.lower c) ++ lowerAfter (before ++ [c]) cs

/-- `value.lower()`. -/
def lowerText (value : List Char) : List Char := lowerAfter m [] value

/-! ## Normalizing -/

inductive LanguageDisposition where
  | canonical
  | legacyAlias
  | missing
  | blank
  | malformed
  | legacyUnusable
  deriving DecidableEq

structure LanguageResolution where
  canonical : Option String
  partition : String
  disposition : LanguageDisposition

/-- A value of a language column: `None`, a text, or something else. -/
inductive RawLanguage where
  | missing
  | other
  | text (value : String)

/-- `UNKNOWN_LANGUAGE`. -/
def unknownLanguage : String := "unknown"

/-- `_LEGACY_ALIASES`. -/
def legacyAliases : List (String × String) := [("be_x_old", "be-tarask")]

/-- `_LEGACY_UNUSABLE_VALUES`. -/
def legacyUnusableValues : List String := ["abstract", "simple"]

/-- `_unknown`. -/
def unknown (disposition : LanguageDisposition) : LanguageResolution :=
  ⟨none, unknownLanguage, disposition⟩

/-- The rest of `_normalize_language_text`, for a value in lower case. -/
def resolveLowered (lowered : List Char) : LanguageResolution :=
  match legacyAliases.lookup (String.ofList lowered) with
  | some legacy => ⟨some legacy, legacy, .legacyAlias⟩
  | none =>
    let candidate := replaceChar '_' '-' lowered
    if String.ofList candidate ∈ legacyUnusableValues then unknown .legacyUnusable
    else if isLanguage candidate then
      ⟨some (String.ofList candidate), String.ofList candidate, .canonical⟩
    else unknown .malformed

def normalizeLanguageText (value : List Char) : LanguageResolution :=
  resolveLowered (lowerText m value)

/-- `normalize_language`. -/
def normalizeLanguage : RawLanguage → LanguageResolution
  | .missing => unknown .missing
  | .other => unknown .malformed
  | .text value =>
    let stripped := strip value.toList
    if stripped = [] then unknown .blank else normalizeLanguageText m stripped

def languageSplitName (value : RawLanguage) : String :=
  s!"lang-{(normalizeLanguage m value).partition}"

/-! ## Texts that the pattern can match -/

section

variable {m} {c : Char} {t : List Char}

theorem ascii_induction {P : Char → Prop} (h : ∀ n : Fin 128, P (Char.ofNat n)) (hc : c.toNat < 128) :
    P c := by
  have hofNat : Char.ofNat c.toNat = c := Char.ofNat_toNat c
  exact hofNat ▸ h ⟨c.toNat, hc⟩

theorem isKnown_iff : isKnown c = true ↔ c.toNat < 128 ∨ c = '\u0131' ∨ c = '\u017f' ∨ c = '\u212a' := by
  simp [isKnown]

/-- The lower case of a known character. -/
def lowerKnown (c : Char) : Char := if c = '\u212a' then 'k' else if c.toNat < 128 then c.toLower else c

theorem lower_of_isKnown (h : isKnown c = true) : m.lower c = [lowerKnown c] := by
  rcases isKnown_iff.mp h with hascii | rfl | rfl | rfl
  · have hne : c ≠ '\u212a' := by
      rintro rfl
      exact absurd hascii (by decide)
    rw [m.lower_ascii c hascii, lowerKnown, if_neg hne, if_pos hascii]
  · exact m.lower_dotlessI
  · exact m.lower_longS
  · exact m.lower_kelvin

theorem isKnown_lowerKnown (h : isKnown c = true) : isKnown (lowerKnown c) = true := by
  rcases isKnown_iff.mp h with hascii | rfl | rfl | rfl
  · exact ascii_induction (P := fun c => isKnown (lowerKnown c) = true) (by decide) hascii
  all_goals decide

theorem lowerKnown_lowerKnown (h : isKnown c = true) :
    lowerKnown (lowerKnown c) = lowerKnown c := by
  rcases isKnown_iff.mp h with hascii | rfl | rfl | rfl
  · exact ascii_induction (P := fun c => lowerKnown (lowerKnown c) = lowerKnown c) (by decide) hascii
  all_goals decide

theorem lowerAfter_of_known (before : List Char) (h : ∀ c ∈ t, isKnown c = true) :
    lowerAfter m before t = t.map lowerKnown := by
  induction t generalizing before with
  | nil => rfl
  | cons c t ih =>
    have hc := h c List.mem_cons_self
    have hsigma : c ≠ '\u03a3' := by
      rintro rfl
      exact absurd hc (by decide)
    rw [lowerAfter, if_neg hsigma, lower_of_isKnown hc,
      ih _ fun d hd => h d (List.mem_cons_of_mem _ hd)]
    rfl

theorem lowerText_of_known (h : ∀ c ∈ t, isKnown c = true) :
    lowerText m t = t.map lowerKnown := lowerAfter_of_known [] h

/-- A character that is in no language, in lower case or not. -/
def IsForeign (c : Char) : Prop := isKnown c = false ∧ c ≠ '\u0130'

theorem exists_foreign_lowerAfter (before : List Char) (hc : c ∈ t) (h : isKnown c = false) :
    ∃ d ∈ lowerAfter m before t, IsForeign d := by
  induction t generalizing before with
  | nil => cases hc
  | cons a t ih =>
    rw [lowerAfter]
    rcases List.mem_cons.mp hc with rfl | hc
    · by_cases hsigma : c = '\u03a3'
      · rw [if_pos hsigma]
        refine ⟨_, List.mem_append_left _ (List.mem_singleton_self _), ?_⟩
        split <;> exact ⟨by decide, by decide⟩
      · rw [if_neg hsigma]
        obtain ⟨d, hd, hforeign⟩ := m.lower_foreign c h
        exact ⟨d, List.mem_append_left _ hd, hforeign⟩
    · obtain ⟨d, hd, hforeign⟩ := ih _ hc
      exact ⟨d, List.mem_append_right _ hd, hforeign⟩

theorem not_isLetterOrDigit_of_isForeign (h : IsForeign c) : isLetterOrDigit c = false := by
  obtain ⟨hknown, hdotted⟩ := h
  by_contra hletter
  rw [Bool.not_eq_false] at hletter
  have hle : ∀ a b : Char, a ≤ b ↔ a.toNat ≤ b.toNat := fun a b => Iff.rfl
  have heq : ∀ a : Char, c.toNat = a.toNat → c = a := fun a h => Char.toNat_inj.mp h
  simp only [isKnown, Bool.or_eq_false_iff, decide_eq_false_iff_not, List.mem_cons,
    List.not_mem_nil, or_false, not_or, not_lt] at hknown
  simp only [isLetterOrDigit, isLetter, Bool.or_eq_true, Bool.and_eq_true, decide_eq_true_eq, hle]
    at hletter
  have hz : 'z'.toNat = 122 := rfl
  have hZ : 'Z'.toNat = 90 := rfl
  have h9 : '9'.toNat = 57 := rfl
  rw [hz, hZ, h9] at hletter
  rcases hletter with (((((⟨-, h⟩ | ⟨-, h⟩) | h) | h) | h) | h) | ⟨-, h⟩
  all_goals first
    | omega
    | exact hdotted (heq _ h)
    | exact hknown.2.1 (heq _ h)
    | exact hknown.2.2.1 (heq _ h)
    | exact hknown.2.2.2 (heq _ h)

/-! ## Values that are not known -/

/-- The characters of the legacy alias. -/
def aliasText : List Char := ['b', 'e', '_', 'x', '_', 'o', 'l', 'd']

theorem toList_alias : "be_x_old".toList = aliasText := by decide

theorem lookup_legacyAliases (lowered : List Char) : legacyAliases.lookup (String.ofList lowered)
      = if lowered = "be_x_old".toList then some "be-tarask" else none := by
  rw [legacyAliases, List.lookup_cons]
  by_cases h : lowered = "be_x_old".toList
  · rw [if_pos h, h]
    rfl
  · have hne : String.ofList lowered ≠ "be_x_old" := by
      intro heq
      exact h (by rw [← heq, String.toList_ofList])
    rw [if_neg h, beq_eq_false_iff_ne.mpr hne]
    rfl

theorem resolveLowered_of_foreign {lowered : List Char} (h : ∃ d ∈ lowered, IsForeign d) :
    (resolveLowered lowered).partition = unknownLanguage := by
  obtain ⟨d, hd, hforeign⟩ := h
  have hletter := not_isLetterOrDigit_of_isForeign hforeign
  have hascii : ∀ a : Char, isKnown a = true → d ≠ a := by
    rintro a ha rfl
    rw [hforeign.1] at ha
    cases ha
  have halias : lowered ≠ "be_x_old".toList := by
    rintro rfl
    rw [toList_alias] at hd
    exact hascii d (List.all_eq_true.mp (by decide : aliasText.all isKnown = true) d hd) rfl
  have hpattern : isLanguage (replaceChar '_' '-' lowered) = false := by
    by_contra hlanguage
    have hmem : d ∈ replaceChar '_' '-' lowered :=
      List.mem_map.mpr ⟨d, hd, if_neg (hascii '_' (by decide))⟩
    rcases (letters_of_isLanguage (Bool.not_eq_false _ ▸ hlanguage)).2 d hmem with hhyphen | hmatch
    · exact hascii '-' (by decide) hhyphen
    · rw [hletter] at hmatch
      cases hmatch
  unfold resolveLowered
  rw [lookup_legacyAliases, if_neg halias]
  simp only [hpattern]
  split <;> rfl

theorem normalizeLanguageText_of_unknown (hc : c ∈ t) (h : isKnown c = false) :
    (normalizeLanguageText m t).partition = unknownLanguage :=
  resolveLowered_of_foreign (exists_foreign_lowerAfter [] hc h)

theorem resolveLowered_congr {lowered lowered' : List Char}
    (h : replaceChar '_' '-' lowered = replaceChar '_' '-' lowered')
    (halias : lowered ≠ "be_x_old".toList) (halias' : lowered' ≠ "be_x_old".toList) :
    resolveLowered lowered = resolveLowered lowered' := by
  unfold resolveLowered
  rw [lookup_legacyAliases, lookup_legacyAliases, if_neg halias, if_neg halias', h]

end

/-! ## Respelling a text -/

section

variable {m} {R : Char → List Char → Prop} {s v t w : List Char}

/-- Every character is spelled in some way. -/
inductive Respelled (R : Char → List Char → Prop) : List Char → List Char → Prop
  | nil : Respelled R [] []
  | cons {c : Char} {chunk s v : List Char} (hc : R c chunk) (h : Respelled R s v) :
      Respelled R (c :: s) (chunk ++ v)

theorem Respelled.append (h : Respelled R s v) (h' : Respelled R t w) :
    Respelled R (s ++ t) (v ++ w) := by
  induction h with
  | nil => exact h'
  | cons hc _ ih =>
    rw [List.append_assoc]
    exact .cons hc ih

theorem Respelled.reverse (h : Respelled R s v) :
    Respelled (fun c chunk => R c chunk.reverse) s.reverse v.reverse := by
  induction h with
  | nil => exact .nil
  | @cons c chunk s v hc _ ih =>
    rw [List.reverse_cons, List.reverse_append]
    have hlast : Respelled (fun c chunk => R c chunk.reverse) [c] (chunk.reverse ++ []) :=
      .cons (by rwa [List.reverse_reverse]) .nil
    rw [List.append_nil] at hlast
    exact ih.append hlast

theorem Respelled.imp {R' : Char → List Char → Prop} (h : Respelled R s v)
    (himp : ∀ c ∈ s, ∀ chunk, R c chunk → R' c chunk) : Respelled R' s v := by
  induction h with
  | nil => exact .nil
  | cons hc _ ih =>
    exact .cons (himp _ List.mem_cons_self _ hc)
      (ih fun c hmem => himp c (List.mem_cons_of_mem _ hmem))

/-- White space is spelled as it is, and nothing else becomes white space. -/
def KeepsSpace (R : Char → List Char → Prop) : Prop :=
  ∀ c chunk, R c chunk → (isSpace c = true → chunk = [c])
    ∧ (isSpace c = false → chunk ≠ [] ∧ ∀ d ∈ chunk, isSpace d = false)

theorem KeepsSpace.reverse (h : KeepsSpace R) : KeepsSpace (fun c chunk => R c chunk.reverse) := by
  intro c chunk hc
  obtain ⟨hspace, hnonspace⟩ := h c chunk.reverse hc
  constructor
  · intro hc
    simpa using congrArg List.reverse (hspace hc)
  · intro hc
    simpa using hnonspace hc

variable (hR : KeepsSpace R) (h : Respelled R s v)

include hR h

theorem Respelled.dropWhile : Respelled R (s.dropWhile isSpace) (v.dropWhile isSpace) := by
  induction h with
  | nil => exact .nil
  | @cons c chunk s v hc h ih =>
    by_cases hspace : isSpace c = true
    · rw [(hR c chunk hc).1 hspace, List.dropWhile_cons_of_pos hspace]
      rw [List.singleton_append, List.dropWhile_cons_of_pos hspace]
      exact ih
    · obtain ⟨hne, hall⟩ := (hR c chunk hc).2 (Bool.not_eq_true _ ▸ hspace)
      obtain ⟨d, rest, rfl⟩ := List.exists_cons_of_ne_nil hne
      have hd : ¬ isSpace d = true := by
        rw [hall d List.mem_cons_self]
        exact Bool.false_ne_true
      rw [List.dropWhile_cons_of_neg hspace, List.cons_append, List.dropWhile_cons_of_neg hd]
      exact .cons hc h

theorem Respelled.strip : Respelled R (strip s) (strip v) := by
  have hback := ((h.dropWhile hR).reverse.dropWhile hR.reverse).reverse
  exact hback.imp fun c _ chunk hc => by rwa [List.reverse_reverse] at hc

theorem Respelled.nil_iff : s = [] ↔ v = [] := by
  cases h with
  | nil => simp
  | @cons c chunk s v hc h =>
    have hne : chunk ≠ [] := by
      by_cases hspace : isSpace c = true
      · rw [(hR c chunk hc).1 hspace]
        exact List.cons_ne_nil _ _
      · exact ((hR c chunk hc).2 (Bool.not_eq_true _ ▸ hspace)).1
    simp [hne]

omit hR h

theorem Respelled.exists_unknown
    (hR : ∀ c chunk, R c chunk → isKnown c = false → ∃ d ∈ chunk, isKnown d = false)
    (h : Respelled R s v) (hs : ∃ c ∈ s, isKnown c = false) : ∃ d ∈ v, isKnown d = false := by
  induction h with
  | nil => exact hs
  | @cons c chunk s v hc h ih =>
    obtain ⟨a, ha, hunknown⟩ := hs
    rcases List.mem_cons.mp ha with rfl | ha
    · obtain ⟨d, hd, hunknown⟩ := hR a chunk hc hunknown
      exact ⟨d, List.mem_append_left _ hd, hunknown⟩
    · obtain ⟨d, hd, hunknown⟩ := ih ⟨a, ha, hunknown⟩
      exact ⟨d, List.mem_append_right _ hd, hunknown⟩

theorem Respelled.known {f : Char → Char}
    (hR : ∀ c chunk, R c chunk → isKnown c = true → (∀ d ∈ chunk, isKnown d = true)
      ∧ chunk.map (fun d => f (lowerKnown d)) = [f (lowerKnown c)])
    (h : Respelled R s v) (hs : ∀ c ∈ s, isKnown c = true) :
    (∀ d ∈ v, isKnown d = true)
      ∧ v.map (fun d => f (lowerKnown d)) = s.map (fun c => f (lowerKnown c)) := by
  induction h with
  | nil => exact ⟨by simp, rfl⟩
  | @cons c chunk s v hc h ih =>
    obtain ⟨hchunk, hlower⟩ := hR c chunk hc (hs c List.mem_cons_self)
    obtain ⟨hv, hmap⟩ := ih fun d hd => hs d (List.mem_cons_of_mem _ hd)
    constructor
    · intro d hd
      exact (List.mem_append.mp hd).elim (hchunk d) (hv d)
    · rw [List.map_append, hlower, hmap]
      rfl

end

/-! ## Letter case and separators -/

section

variable {m} {s v : List Char} {c : Char} {chunk : List Char}

/-- A character in lower case, in upper case, or as it is. -/
def CaseOf (m : CaseMapping) (c : Char) (chunk : List Char) : Prop :=
  chunk = [c] ∨ chunk = m.lower c ∨ chunk = m.upper c

/-- An underscore for a hyphen or the other way round, or the character as it is. -/
def SeparatorOf (c : Char) (chunk : List Char) : Prop :=
  chunk = [c] ∨ (c = '_' ∧ chunk = ['-']) ∨ (c = '-' ∧ chunk = ['_'])

/-- The case of a character that is no ASCII letter in upper case unless it is one. -/
def PlainCaseOf (m : CaseMapping) (c : Char) (chunk : List Char) : Prop :=
  c ∉ asciiInUpperCase ∧ CaseOf m c chunk

theorem upper_of_isKnown (hplain : c ∉ asciiInUpperCase) (h : isKnown c = true) :
    ∃ d, m.upper c = [d] ∧ isKnown d = true ∧ lowerKnown d = lowerKnown c := by
  rcases isKnown_iff.mp h with hascii | rfl | rfl | rfl
  · refine ⟨c.toUpper, m.upper_ascii c hascii, ?_⟩
    exact ascii_induction
      (P := fun c => isKnown c.toUpper = true ∧ lowerKnown c.toUpper = lowerKnown c) (by decide)
      hascii
  · exact absurd (by decide) hplain
  · exact absurd (by decide) hplain
  · exact ⟨'\u212a', m.upper_kelvin, by decide, rfl⟩

theorem PlainCaseOf.unknown (h : PlainCaseOf m c chunk) (hc : isKnown c = false) :
    ∃ d ∈ chunk, isKnown d = false := by
  obtain ⟨hplain, rfl | rfl | rfl⟩ := h
  · exact ⟨c, List.mem_singleton_self c, hc⟩
  · obtain ⟨d, hd, hforeign⟩ := m.lower_foreign c hc
    exact ⟨d, hd, hforeign.1⟩
  · exact m.upper_foreign c hc hplain

theorem PlainCaseOf.known (h : PlainCaseOf m c chunk) (hc : isKnown c = true) :
    (∀ d ∈ chunk, isKnown d = true) ∧ chunk.map (fun d => id (lowerKnown d)) = [id (lowerKnown c)] := by
  obtain ⟨hplain, rfl | rfl | rfl⟩ := h
  · exact ⟨fun d hd => List.mem_singleton.mp hd ▸ hc, rfl⟩
  · rw [lower_of_isKnown hc]
    refine ⟨fun d hd => List.mem_singleton.mp hd ▸ isKnown_lowerKnown hc, ?_⟩
    exact congrArg (fun d => [d]) (lowerKnown_lowerKnown hc)
  · obtain ⟨d, hupper, hknown, hlower⟩ := upper_of_isKnown (m := m) hplain hc
    rw [hupper]
    refine ⟨fun a ha => List.mem_singleton.mp ha ▸ hknown, ?_⟩
    exact congrArg (fun d => [d]) hlower

theorem keepsSpace_plainCaseOf : KeepsSpace (PlainCaseOf m) := by
  intro c chunk h
  refine ⟨fun hspace => ?_, fun hspace => ⟨?_, ?_⟩⟩
  · obtain ⟨-, rfl | rfl | rfl⟩ := h
    · rfl
    · exact (m.space c hspace).1
    · exact (m.space c hspace).2
  · by_cases hc : isKnown c = true
    · intro hnil
      have hmap := (h.known hc).2
      rw [hnil] at hmap
      cases hmap
    · obtain ⟨d, hd, -⟩ := h.unknown (Bool.not_eq_true _ ▸ hc)
      exact List.ne_nil_of_mem hd
  · obtain ⟨-, rfl | rfl | rfl⟩ := h
    · exact fun d hd => List.mem_singleton.mp hd ▸ hspace
    · exact fun d hd => m.nonspace c hspace d (Or.inl hd)
    · exact fun d hd => m.nonspace c hspace d (Or.inr hd)

theorem keepsSpace_separatorOf : KeepsSpace SeparatorOf := by
  rintro c chunk (rfl | ⟨rfl, rfl⟩ | ⟨rfl, rfl⟩)
  · exact ⟨fun _ => rfl, fun hc => ⟨by simp, fun d hd => List.mem_singleton.mp hd ▸ hc⟩⟩
  · exact ⟨fun h => absurd h (by decide), fun _ => ⟨by simp, fun d hd =>
      List.mem_singleton.mp hd ▸ rfl⟩⟩
  · exact ⟨fun h => absurd h (by decide), fun _ => ⟨by simp, fun d hd =>
      List.mem_singleton.mp hd ▸ rfl⟩⟩

theorem SeparatorOf.unknown (h : SeparatorOf c chunk) (hc : isKnown c = false) :
    ∃ d ∈ chunk, isKnown d = false := by
  obtain rfl | ⟨rfl, rfl⟩ | ⟨rfl, rfl⟩ := h
  · exact ⟨c, List.mem_singleton_self c, hc⟩
  · exact absurd hc (by decide)
  · exact absurd hc (by decide)

theorem SeparatorOf.known {f : Char → Char} (hf : f '_' = f '-') (h : SeparatorOf c chunk)
    (hc : isKnown c = true) :
    (∀ d ∈ chunk, isKnown d = true) ∧ chunk.map (fun d => f (lowerKnown d)) = [f (lowerKnown c)] := by
  obtain rfl | ⟨rfl, rfl⟩ | ⟨rfl, rfl⟩ := h
  · exact ⟨fun d hd => List.mem_singleton.mp hd ▸ hc, rfl⟩
  · exact ⟨fun d hd => List.mem_singleton.mp hd ▸ rfl, congrArg (fun d => [d]) hf.symm⟩
  · exact ⟨fun d hd => List.mem_singleton.mp hd ▸ rfl, congrArg (fun d => [d]) hf⟩

/-- The partition of a text. -/
def partitionOf (m : CaseMapping) (value : List Char) : String :=
  (normalizeLanguage m (.text (String.ofList value))).partition

theorem partitionOf_eq (value : List Char) :
    partitionOf m value = if strip value = [] then unknownLanguage
      else (normalizeLanguageText m (strip value)).partition := by
  show (if strip (String.ofList value).toList = [] then unknown .blank
    else normalizeLanguageText m (strip (String.ofList value).toList)).partition = _
  rw [String.toList_ofList]
  split <;> rfl

theorem partitionOf_congr {R : Char → List Char → Prop} (hR : KeepsSpace R) (h : Respelled R s v)
    (hunknown : ∀ c chunk, R c chunk → isKnown c = false → ∃ d ∈ chunk, isKnown d = false)
    (hknown : (∀ c ∈ strip s, isKnown c = true) →
      (normalizeLanguageText m (strip v)).partition = (normalizeLanguageText m (strip s)).partition) :
    partitionOf m v = partitionOf m s := by
  have hstrip := h.strip hR
  rw [partitionOf_eq, partitionOf_eq]
  by_cases hnil : strip s = []
  · rw [if_pos hnil, if_pos ((hstrip.nil_iff hR).mp hnil)]
  · rw [if_neg hnil, if_neg fun hv => hnil ((hstrip.nil_iff hR).mpr hv)]
    by_cases hall : ∀ c ∈ strip s, isKnown c = true
    · exact hknown hall
    · have hexists : ∃ c ∈ strip s, isKnown c = false := by simpa using hall
      obtain ⟨d, hd, hforeign⟩ := hstrip.exists_unknown hunknown hexists
      obtain ⟨c, hc, hforeign'⟩ := hexists
      rw [normalizeLanguageText_of_unknown hd hforeign,
        normalizeLanguageText_of_unknown hc hforeign']

/-- **Letter case does not matter.** -/
theorem partitionOf_case (hplain : ∀ c ∈ s, c ∉ asciiInUpperCase) (h : Respelled (CaseOf m) s v) :
    partitionOf m v = partitionOf m s := by
  have hrespelled : Respelled (PlainCaseOf m) s v :=
    h.imp fun c hc chunk hcase => ⟨hplain c hc, hcase⟩
  refine partitionOf_congr keepsSpace_plainCaseOf hrespelled (fun c chunk h => h.unknown) fun hs => ?_
  obtain ⟨hv, hmap⟩ := (hrespelled.strip keepsSpace_plainCaseOf).known (f := id)
    (fun c chunk h => h.known) hs
  simp only [id] at hmap
  rw [normalizeLanguageText, normalizeLanguageText, lowerText_of_known hs, lowerText_of_known hv]
  exact congrArg (fun lowered => (resolveLowered lowered).partition) hmap

/-- The text is the alias, with any separators and in any case. -/
def SpellsAlias (m : CaseMapping) (value : List Char) : Prop :=
  replaceChar '-' '_' (lowerText m (strip value)) = "be_x_old".toList

/-- **Separators do not matter**, except in the alias. -/
theorem partitionOf_separators (halias : ¬ SpellsAlias m s) (h : Respelled SeparatorOf s v) :
    partitionOf m v = partitionOf m s := by
  refine partitionOf_congr keepsSpace_separatorOf h (fun c chunk h => h.unknown) fun hs => ?_
  have hstrip := h.strip keepsSpace_separatorOf
  obtain ⟨hv, hhyphens⟩ := hstrip.known (f := fun c => if c = '_' then '-' else c)
    (fun c chunk h => h.known (f := fun c => if c = '_' then '-' else c) rfl) hs
  obtain ⟨-, hunderscores⟩ := hstrip.known (f := fun c => if c = '-' then '_' else c)
    (fun c chunk h => h.known (f := fun c => if c = '-' then '_' else c) rfl) hs
  have hcompose : ∀ (old new : Char) (t : List Char), replaceChar old new (t.map lowerKnown)
      = t.map (fun d => if lowerKnown d = old then new else lowerKnown d) := by
    intro old new t
    rw [replaceChar, List.map_map]
    rfl
  rw [← hcompose, ← hcompose] at hhyphens hunderscores
  rw [SpellsAlias, lowerText_of_known hs] at halias
  rw [normalizeLanguageText, normalizeLanguageText, lowerText_of_known hs, lowerText_of_known hv]
  refine congrArg LanguageResolution.partition (resolveLowered_congr hhyphens ?_ ?_)
  · intro heq
    refine halias (hunderscores.symm.trans ?_)
    rw [heq]
    decide +kernel
  · intro heq
    refine halias ?_
    rw [heq]
    decide +kernel

theorem partitionOf_alias (h : SpellsAlias m s) : partitionOf m s
      = if lowerText m (strip s) = "be_x_old".toList then "be-tarask" else unknownLanguage := by
  have hne : strip s ≠ [] := by
    intro hnil
    rw [SpellsAlias, hnil, toList_alias] at h
    cases h
  have hcandidate : replaceChar '_' '-' (lowerText m (strip s))
      = ['b', 'e', '-', 'x', '-', 'o', 'l', 'd'] := by
    have hreplace : ∀ t : List Char,
        replaceChar '_' '-' (replaceChar '-' '_' t) = replaceChar '_' '-' t := by
      intro t
      simp only [replaceChar, List.map_map]
      refine List.map_congr_left fun c _ => ?_
      show (if (if c = '-' then '_' else c) = '_' then '-' else if c = '-' then '_' else c) = _
      by_cases hc : c = '-'
      · rw [if_pos hc, if_pos rfl, hc]
        rfl
      · rw [if_neg hc]
    rw [← hreplace, h, toList_alias]
    rfl
  have hpattern : isLanguage ['b', 'e', '-', 'x', '-', 'o', 'l', 'd'] = false := by decide
  rw [partitionOf_eq, if_neg hne, normalizeLanguageText]
  unfold resolveLowered
  rw [lookup_legacyAliases]
  split
  · rename_i legacy hlegacy
    split at hlegacy
    · rename_i heq
      cases hlegacy
      rw [if_pos heq]
    · cases hlegacy
  · rename_i hlegacy
    split at hlegacy
    · cases hlegacy
    · rename_i hneq
      simp only [hcandidate, hpattern, if_neg hneq]
      split <;> rfl

/-! ## White space -/

theorem strip_append {before after : List Char} (hbefore : ∀ c ∈ before, isSpace c = true)
    (hafter : ∀ c ∈ after, isSpace c = true) : strip (before ++ s ++ after) = strip s := by
  have hback : ∀ t : List Char, (t ++ after).rdropWhile isSpace = t.rdropWhile isSpace := by
    intro t
    rw [List.rdropWhile, List.reverse_append,
      List.dropWhile_append_of_pos fun c hc => hafter c (List.mem_reverse.mp hc)]
    rfl
  rw [List.append_assoc, strip, List.dropWhile_append_of_pos hbefore, List.dropWhile_append]
  split
  · rename_i hempty
    have hall : after.dropWhile isSpace = [] := List.dropWhile_eq_nil_iff.mpr hafter
    rw [hall, strip, List.isEmpty_iff.mp hempty]
  · exact hback _

/-- **White space around a text does not matter.** -/
theorem partitionOf_space {before after : List Char} (hbefore : ∀ c ∈ before, isSpace c = true)
    (hafter : ∀ c ∈ after, isSpace c = true) :
    partitionOf m (before ++ s ++ after) = partitionOf m s := by
  rw [partitionOf_eq, partitionOf_eq, strip_append hbefore hafter]

/-! ## Partitions -/

theorem partitionOf_cases (m : CaseMapping) (s : List Char) :
    partitionOf m s = unknownLanguage ∨ partitionOf m s = "be-tarask"
      ∨ ((∀ c ∈ strip s, isKnown c = true)
        ∧ partitionOf m s = String.ofList (replaceChar '_' '-' ((strip s).map lowerKnown))
        ∧ isLanguage (replaceChar '_' '-' ((strip s).map lowerKnown)) = true
        ∧ partitionOf m s ∉ legacyUnusableValues) := by
  rw [partitionOf_eq]
  by_cases hnil : strip s = []
  · exact Or.inl (if_pos hnil)
  rw [if_neg hnil]
  by_cases hall : ∀ c ∈ strip s, isKnown c = true
  · rw [normalizeLanguageText, lowerText_of_known hall]
    unfold resolveLowered
    rw [lookup_legacyAliases]
    split
    · rename_i legacy hlegacy
      split at hlegacy
      · cases hlegacy
        exact Or.inr (Or.inl rfl)
      · cases hlegacy
    · dsimp only
      split
      · exact Or.inl rfl
      · rename_i husable
        split
        · rename_i hpattern
          exact Or.inr (Or.inr ⟨hall, rfl, hpattern, husable⟩)
        · exact Or.inl rfl
  · have hexists : ∃ c ∈ strip s, isKnown c = false := by simpa using hall
    obtain ⟨c, hc, hforeign⟩ := hexists
    exact Or.inl (normalizeLanguageText_of_unknown hc hforeign)

theorem replaceChar_of_notMem {t : List Char} (h : '_' ∉ t) : replaceChar '_' '-' t = t := by
  have hkeep : ∀ c ∈ t, (if c = '_' then '-' else c) = id c := fun c hc =>
    if_neg fun (heq : c = '_') => h (heq ▸ hc)
  rw [replaceChar, List.map_congr_left hkeep, List.map_id]

theorem partitionOf_name {name : List Char} (hknown : ∀ c ∈ name, isKnown c = true)
    (hlower : name.map lowerKnown = name) (hunderscore : '_' ∉ name) (hname : isLanguage name = true)
    (husable : String.ofList name ∉ legacyUnusableValues) :
    partitionOf m name = String.ofList name := by
  have hstrip : strip name = name :=
    strip_eq_self_of_forall fun c hc => not_isSpace_of_isLanguage hname hc
  have hne : name ≠ [] := (letters_of_isLanguage hname).1
  have halias : name ≠ "be_x_old".toList := by
    rintro rfl
    exact hunderscore (by decide)
  rw [partitionOf_eq, hstrip, if_neg hne, normalizeLanguageText, lowerText_of_known hknown, hlower]
  unfold resolveLowered
  rw [lookup_legacyAliases, if_neg halias]
  simp only [replaceChar_of_notMem hunderscore, husable, hname, if_true, if_false]

theorem partitionOf_unknown : partitionOf m unknownLanguage.toList = unknownLanguage := by
  have htext : unknownLanguage.toList = ['u', 'n', 'k', 'n', 'o', 'w', 'n'] := by decide
  have hknown : ∀ c ∈ ['u', 'n', 'k', 'n', 'o', 'w', 'n'], isKnown c = true :=
    List.all_eq_true.mp (by decide)
  have hspace : ∀ c ∈ ['u', 'n', 'k', 'n', 'o', 'w', 'n'], isSpace c = false := by
    simp [isSpace]
  rw [htext, partitionOf_eq, strip_eq_self_of_forall hspace, if_neg (List.cons_ne_nil _ _),
    normalizeLanguageText, lowerText_of_known hknown]
  decide +kernel

/-- The character of a candidate. -/
def candidateChar (c : Char) : Char := if lowerKnown c = '_' then '-' else lowerKnown c

theorem candidateChar_spec (h : isKnown c = true) :
    isKnown (candidateChar c) = true ∧ lowerKnown (candidateChar c) = candidateChar c
      ∧ candidateChar c ≠ '_' := by
  unfold candidateChar
  split
  · exact ⟨rfl, rfl, by decide⟩
  · rename_i hne
    exact ⟨isKnown_lowerKnown h, lowerKnown_lowerKnown h, hne⟩

theorem candidate_eq (t : List Char) :
    replaceChar '_' '-' (t.map lowerKnown) = t.map candidateChar := by
  rw [replaceChar, List.map_map]
  rfl

/-- **A partition is its own partition.** -/
theorem partitionOf_partitionOf (s : List Char) :
    partitionOf m (partitionOf m s).toList = partitionOf m s := by
  rcases partitionOf_cases m s with h | h | ⟨hknown, hname, hpattern, husable⟩
  · rw [h]
    exact partitionOf_unknown
  · have htext : "be-tarask".toList = ['b', 'e', '-', 't', 'a', 'r', 'a', 's', 'k'] := by decide
    rw [h, htext]
    refine (partitionOf_name (List.all_eq_true.mp (by decide)) (by decide) (by decide) (by decide)
      (by decide)).trans ?_
    decide
  · rw [candidate_eq] at hname hpattern
    rw [hname] at husable ⊢
    rw [String.toList_ofList]
    refine partitionOf_name ?_ ?_ ?_ hpattern husable
    · intro c hc
      obtain ⟨a, ha, rfl⟩ := List.mem_map.mp hc
      exact (candidateChar_spec (hknown a ha)).1
    · rw [List.map_map]
      exact List.map_congr_left fun a ha => (candidateChar_spec (hknown a ha)).2.1
    · intro hmem
      obtain ⟨a, ha, heq⟩ := List.mem_map.mp hmem
      exact (candidateChar_spec (hknown a ha)).2.2 heq

/-- Lower-case ASCII letters, digits and hyphens. -/
def isAsciiName (name : String) : Bool :=
  name.toList.all (fun c => c = '-' || ('a' ≤ c && c ≤ 'z') || ('0' ≤ c && c ≤ '9'))

/-- **A partition is `unknown` or an ASCII name.** -/
theorem partitionOf_ascii (hplain : ∀ c ∈ s, c ≠ '\u0131' ∧ c ≠ '\u017f') :
    partitionOf m s = unknownLanguage ∨ isAsciiName (partitionOf m s) = true := by
  rcases partitionOf_cases m s with h | h | ⟨hknown, hname, hpattern, -⟩
  · exact Or.inl h
  · rw [h]
    exact Or.inr (by decide)
  · refine Or.inr ?_
    rw [candidate_eq] at hname hpattern
    rw [isAsciiName, hname, String.toList_ofList, List.all_eq_true]
    intro d hd
    have hletter := (letters_of_isLanguage hpattern).2 d hd
    obtain ⟨c, hc, rfl⟩ := List.mem_map.mp hd
    have hascii : ∀ c : Char, c.toNat < 128 →
        candidateChar c = '-' ∨ isLetterOrDigit (candidateChar c) = true →
          (candidateChar c = '-' || ('a' ≤ candidateChar c && candidateChar c ≤ 'z')
            || ('0' ≤ candidateChar c && candidateChar c ≤ '9')) = true := by
      intro c hc
      exact ascii_induction (P := fun c => candidateChar c = '-'
        ∨ isLetterOrDigit (candidateChar c) = true →
          (candidateChar c = '-' || ('a' ≤ candidateChar c && candidateChar c ≤ 'z')
            || ('0' ≤ candidateChar c && candidateChar c ≤ '9')) = true) (by decide) hc
    have hnotSpecial := hplain c ((strip_sublist s).subset hc)
    rcases isKnown_iff.mp (hknown c hc) with h | rfl | rfl | rfl
    · exact hascii c h hletter
    · exact absurd rfl hnotSpecial.1
    · exact absurd rfl hnotSpecial.2
    · decide

/-- **Normalizing a language is a projection** that does not depend on the spelling. White space
never matters. Letter case does not matter, unless a letter outside ASCII is one in upper case;
separators do not, unless they are those of the legacy alias. -/
theorem normalizeLanguage_projection (m : CaseMapping) (s : List Char) :
    (∀ before after, (∀ c ∈ before, isSpace c = true) → (∀ c ∈ after, isSpace c = true) →
      partitionOf m (before ++ s ++ after) = partitionOf m s)
    ∧ ((∀ c ∈ s, c ∉ asciiInUpperCase) →
      ∀ v, Respelled (CaseOf m) s v → partitionOf m v = partitionOf m s)
    ∧ (¬ SpellsAlias m s → ∀ v, Respelled SeparatorOf s v → partitionOf m v = partitionOf m s)
    ∧ (SpellsAlias m s → partitionOf m s
      = if lowerText m (strip s) = "be_x_old".toList then "be-tarask" else unknownLanguage)
    ∧ ((∀ c ∈ s, c ≠ '\u0131' ∧ c ≠ '\u017f') →
      partitionOf m s = unknownLanguage ∨ isAsciiName (partitionOf m s) = true)
    ∧ partitionOf m (partitionOf m s).toList = partitionOf m s
    ∧ languageSplitName m (.text (partitionOf m s))
      = languageSplitName m (.text (String.ofList s)) := by
  refine ⟨fun before after => partitionOf_space, fun hplain v => partitionOf_case hplain,
    fun halias v => partitionOf_separators halias, partitionOf_alias, partitionOf_ascii,
    partitionOf_partitionOf s, ?_⟩
  have hsame := partitionOf_partitionOf (m := m) s
  unfold partitionOf at hsame ⊢
  rw [String.ofList_toList] at hsame
  unfold languageSplitName
  rw [hsame]

end

namespace Example

/-- The upper case of the characters outside ASCII that have one in ASCII. -/
def asciiUppers : List (Char × List Char) :=
  [('\u0131', ['I']), ('\u017f', ['S']), ('\u00df', ['S', 'S']), ('\ufb00', ['F', 'F']),
    ('\ufb01', ['F', 'I']), ('\ufb02', ['F', 'L']), ('\ufb03', ['F', 'F', 'I']),
    ('\ufb04', ['F', 'F', 'L']), ('\ufb05', ['S', 'T']), ('\ufb06', ['S', 'T'])]

def lower (c : Char) : List Char :=
  if c.toNat < 128 then [c.toLower]
  else if c = '\u212a' then ['k']
  else if c = '\u0130' then ['i', '\u0307']
  else [c]

def upper (c : Char) : List Char :=
  if c.toNat < 128 then [c.toUpper] else (asciiUppers.lookup c).getD [c]

theorem lower_of_ne {c : Char} (hascii : ¬ c.toNat < 128) (hkelvin : c ≠ '\u212a')
    (hdotted : c ≠ '\u0130') : lower c = [c] := by
  rw [lower, if_neg hascii, if_neg hkelvin, if_neg hdotted]

theorem upper_of_notMem {c : Char} (hascii : ¬ c.toNat < 128) (h : c ∉ asciiInUpperCase) :
    upper c = [c] := by
  have hlookup : asciiUppers.lookup c = none := by
    refine List.lookup_eq_none_iff.mpr fun entry hentry => ?_
    have hne : c ≠ entry.1 := fun heq =>
      h (heq ▸ List.mem_map_of_mem (f := Prod.fst) hentry)
    simpa using hne
  rw [upper, if_neg hascii, hlookup]
  rfl

/-- The characters of Western Europe, and no case elsewhere. -/
def mapping : CaseMapping where
  lower := lower
  upper := upper
  isFinalSigma := fun _ after => after.isEmpty
  lower_ascii := fun c h => if_pos h
  upper_ascii := fun c h => if_pos h
  lower_kelvin := by decide
  upper_kelvin := by decide
  lower_dotlessI := by decide
  lower_longS := by decide
  lower_foreign := by
    intro c hc
    have hne : ∀ d, isKnown d = true → c ≠ d := by
      rintro d hd rfl
      rw [hc] at hd
      cases hd
    by_cases hdotted : c = '\u0130'
    · subst hdotted
      exact ⟨'\u0307', by decide, by decide, by decide⟩
    · rw [lower_of_ne (fun h => by simp [isKnown, h] at hc) (hne _ (by decide)) hdotted]
      exact ⟨c, List.mem_singleton_self c, hc, hdotted⟩
  upper_foreign := by
    intro c hc hspecial
    rw [upper_of_notMem (fun h => by simp [isKnown, h] at hc) hspecial]
    exact ⟨c, List.mem_singleton_self c, hc⟩
  space := by
    intro c hspace
    by_cases hascii : c.toNat < 128
    · rw [lower, upper, if_pos hascii, if_pos hascii]
      have hsame := ascii_induction (P := fun c => isSpace c = true → c.toLower = c ∧ c.toUpper = c)
        (by decide) hascii hspace
      rw [hsame.1, hsame.2]
      exact ⟨rfl, rfl⟩
    · have hne : ∀ d, isSpace d = false → c ≠ d := by
        rintro d hd rfl
        rw [hspace] at hd
        cases hd
      refine ⟨lower_of_ne hascii (hne _ (by decide)) (hne _ (by decide)), upper_of_notMem hascii ?_⟩
      intro hmem
      have hnot := List.all_eq_true.mp
        (by decide : asciiInUpperCase.all (fun d => !isSpace d) = true) c hmem
      rw [hspace] at hnot
      cases hnot
  nonspace := by
    intro c hspace d hd
    by_cases hascii : c.toNat < 128
    · rw [lower, upper, if_pos hascii, if_pos hascii, List.mem_singleton, List.mem_singleton] at hd
      have hboth := ascii_induction (P := fun c => isSpace c = false →
        isSpace c.toLower = false ∧ isSpace c.toUpper = false) (by decide +kernel) hascii hspace
      rcases hd with rfl | rfl
      · exact hboth.1
      · exact hboth.2
    · rcases hd with hd | hd
      · by_cases hkelvin : c = '\u212a'
        · subst hkelvin
          rw [List.mem_singleton.mp hd]
          decide
        by_cases hdotted : c = '\u0130'
        · subst hdotted
          have hall : (lower '\u0130').all (fun d => !isSpace d) = true := by decide
          simpa using List.all_eq_true.mp hall d hd
        rw [lower_of_ne hascii hkelvin hdotted] at hd
        exact List.mem_singleton.mp hd ▸ hspace
      · rw [upper, if_neg hascii] at hd
        cases hlookup : asciiUppers.lookup c with
        | none =>
          rw [hlookup] at hd
          exact List.mem_singleton.mp hd ▸ hspace
        | some letters =>
          rw [hlookup] at hd
          have hall : asciiUppers.all (fun entry => entry.2.all (fun d => !isSpace d)) = true := by
            decide
          have hentry := List.all_eq_true.mp hall (c, letters) (mem_of_lookup_eq_some hlookup)
          simpa using List.all_eq_true.mp hentry d hd

theorem respelled_self {R : Char → List Char → Prop} (hR : ∀ c, R c [c]) (s : List Char) :
    Respelled R s s := by
  induction s with
  | nil => exact .nil
  | cons c s ih => exact .cons (hR c) ih

/-- `EN_us`, `en_us` and `EN-us` are one partition. -/
theorem english_projection :
    partitionOf mapping (" EN_us".toList ++ ['\n']) = partitionOf mapping "EN_us".toList
      ∧ partitionOf mapping ['e', 'n', '_', 'u', 's'] = partitionOf mapping "EN_us".toList
      ∧ partitionOf mapping ['E', 'N', '-', 'u', 's'] = partitionOf mapping "EN_us".toList
      ∧ partitionOf mapping "be_X_old".toList = "be-tarask" := by
  have htext : "EN_us".toList = ['E', 'N', '_', 'u', 's'] := by decide
  obtain ⟨hspace, hcase, hseparator, -⟩ := normalizeLanguage_projection mapping "EN_us".toList
  obtain ⟨-, -, -, halias, -⟩ := normalizeLanguage_projection mapping "be_X_old".toList
  refine ⟨hspace [' '] ['\n'] (by simp [isSpace]) (by simp [isSpace]), ?_, ?_, ?_⟩
  · refine hcase (by rw [htext]; simp [asciiInUpperCase]) _ ?_
    have hE : CaseOf mapping 'E' ['e'] := Or.inr (Or.inl (by decide))
    have hN : CaseOf mapping 'N' ['n'] := Or.inr (Or.inl (by decide))
    have hself : ∀ c, CaseOf mapping c [c] := fun c => Or.inl rfl
    rw [htext]
    exact .cons hE (.cons hN (respelled_self hself ['_', 'u', 's']))
  · refine hseparator ?_ _ ?_
    · rw [SpellsAlias, htext]
      decide +kernel
    · have hhyphen : SeparatorOf '_' ['-'] := Or.inr (Or.inl ⟨rfl, rfl⟩)
      have hself : ∀ c, SeparatorOf c [c] := fun c => Or.inl rfl
      rw [htext]
      exact .cons (hself 'E') (.cons (hself 'N') (.cons hhyphen (respelled_self hself ['u', 's'])))
  · refine (halias ?_).trans (if_pos ?_)
    · unfold SpellsAlias
      decide +kernel
    · decide +kernel

/-- The alias is not known with hyphens, and `ß` is no letter of a language although `SS` are. -/
theorem spellings_differ : Respelled SeparatorOf "be_x_old".toList "be-x-old".toList
      ∧ partitionOf mapping "be_x_old".toList = "be-tarask"
      ∧ partitionOf mapping "be-x-old".toList = "unknown"
      ∧ Respelled (CaseOf mapping) ['\u00df'] ['S', 'S']
      ∧ partitionOf mapping ['\u00df'] = "unknown"
      ∧ partitionOf mapping ['S', 'S'] = "ss" := by
  refine ⟨?_, by decide +kernel, by decide +kernel, ?_, by decide +kernel, by decide +kernel⟩
  · have hhyphens : "be-x-old".toList = ['b', 'e', '-', 'x', '-', 'o', 'l', 'd'] := by decide
    have hself : ∀ c, SeparatorOf c [c] := fun c => Or.inl rfl
    have hhyphen : SeparatorOf '_' ['-'] := Or.inr (Or.inl ⟨rfl, rfl⟩)
    rw [toList_alias, hhyphens]
    exact .cons (hself 'b') (.cons (hself 'e') (.cons hhyphen (.cons (hself 'x') (.cons hhyphen
      (respelled_self hself ['o', 'l', 'd'])))))
  · have hsharp : CaseOf mapping '\u00df' ['S', 'S'] := Or.inr (Or.inr (by decide))
    exact .cons hsharp .nil

end Example

end OsmPolygonWikidata.LanguageSplits
