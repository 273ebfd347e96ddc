import OsmPolygonWikidata.V2.TagOrder

/-! # References that are parsed again

A reference `LANGUAGE:TITLE` is written like a tag value, so parsing it again decodes its title once
more. `reference_fixed_iff` says which references come back: a title in which a second pass finds
a separator, an escape or a URL is changed, since every such pass makes a title shorter.
-/

namespace OsmPolygonWikidata.WikipediaTags

open Python

variable {lib : Library} {tags : List (Text × Text)} {refs : List WikipediaTagRef}
  {rejected : List WikipediaTagRejection} {ref : WikipediaTagRef} {cs xs ys value l t : Text}

/-! ## The text after the first colon -/

def afterColon (cs : Text) : Text := (partition ':' cs).2

theorem afterColon_append (hxs : ':' ∉ xs) (ys : Text) : afterColon (xs ++ ys) = afterColon ys := by
  have hkeep : ∀ c ∈ xs, decide (c ≠ ':') = true := by
    intro c hc
    rw [decide_eq_true_eq]
    rintro rfl
    exact hxs hc
  unfold afterColon partition
  rw [List.dropWhile_append_of_pos hkeep]

theorem afterColon_colon (cs : Text) : afterColon (':' :: cs) = cs := rfl

variable {c : Char}

theorem afterColon_cons (hc : c ≠ ':') (cs : Text) : afterColon (c :: cs) = afterColon cs := by
  have hnot : ':' ∉ [c] := by simpa using hc.symm
  exact afterColon_append hnot cs

theorem length_afterColon_le (cs : Text) : (afterColon cs).length ≤ cs.length := by
  unfold afterColon partition
  rw [List.length_drop]
  have h := (List.dropWhile_sublist (fun c => decide (c ≠ ':')) (l := cs)).length_le
  omega

theorem length_afterColon_mono (h : xs <+: ys) :
    (afterColon xs).length ≤ (afterColon ys).length := by
  induction xs generalizing ys with
  | nil => exact Nat.zero_le _
  | cons c xs ih =>
    obtain ⟨rest, rfl⟩ := h
    rw [List.cons_append]
    by_cases hc : c = ':'
    · rw [hc, afterColon_colon, afterColon_colon, List.length_append]
      omega
    · rw [afterColon_cons hc, afterColon_cons hc]
      exact ih (List.prefix_append xs rest)

theorem afterColon_dropWhile {p : Char → Bool} (hp : p ':' = false) (cs : Text) :
    afterColon (cs.dropWhile p) = afterColon cs := by
  have hdropped : ':' ∉ cs.takeWhile p := by
    intro hmem
    rw [List.mem_takeWhile_imp hmem] at hp
    cases hp
  rw [← afterColon_append hdropped, List.takeWhile_append_dropWhile]

theorem length_afterColon_filter {p : Char → Bool} (hp : p ':' = true) (cs : Text) :
    (afterColon (cs.filter p)).length ≤ (afterColon cs).length := by
  induction cs with
  | nil => exact Nat.le_refl _
  | cons c cs ih =>
    by_cases hc : c = ':'
    · rw [hc, List.filter_cons_of_pos hp, afterColon_colon, afterColon_colon]
      exact List.length_filter_le p cs
    · rw [afterColon_cons hc]
      cases hkeep : p c with
      | true => rwa [List.filter_cons_of_pos hkeep, afterColon_cons hc]
      | false => rwa [List.filter_cons_of_neg (by rw [hkeep]; decide)]

theorem length_afterColon_strip (cs : Text) :
    (afterColon (strip cs)).length ≤ (afterColon cs).length := by
  refine (length_afterColon_mono (strip_isInitial cs)).trans ?_
  rw [afterColon_dropWhile (by decide)]

theorem length_afterColon_cleanUrl (cs : Text) :
    (afterColon (cleanUrl cs)).length ≤ (afterColon cs).length := by
  refine (length_afterColon_filter (by decide) _).trans ?_
  rw [afterColon_dropWhile (by decide)]

/-! ## Titles are shorter than what follows the colon -/

theorem splitScheme_of_ne_nil (h : (splitScheme cs).1 ≠ []) : (splitScheme cs).2 = afterColon cs := by
  unfold splitScheme at h ⊢
  cases hparts : partition ':' cs with
  | mk start rest =>
    simp only [hparts] at h ⊢
    cases start with
    | nil => exact absurd rfl h
    | cons c start =>
      simp only at h ⊢
      split_ifs at h ⊢ with hscheme
      · unfold afterColon
        rw [hparts]
      · exact absurd rfl h

theorem length_splitNetloc_le (url : Text) : (splitNetloc url).2.length ≤ url.length := by
  unfold splitNetloc
  split_ifs
  · refine (List.dropWhile_sublist _).length_le.trans ?_
    rw [List.length_drop]
    omega
  · exact Nat.le_refl _

theorem length_path_le {parsed : ParsedUrl} (h : urlparse lib cs = .ok parsed)
    (hscheme : parsed.scheme ≠ []) : parsed.path.length ≤ (afterColon cs).length := by
  unfold urlparse at h
  simp only at h
  split_ifs at h with hbrackets
  cases herror : lib.netlocError (splitNetloc (splitScheme (cleanUrl cs)).2).1 with
  | some message =>
    rw [herror] at h
    cases h
  | none =>
    simp only [herror, Except.ok.injEq] at h
    subst h
    simp only at hscheme ⊢
    calc _ ≤ (splitNetloc (splitScheme (cleanUrl cs)).2).2.length :=
          (List.takeWhile_sublist _).length_le.trans (List.takeWhile_sublist _).length_le
      _ ≤ (splitScheme (cleanUrl cs)).2.length := length_splitNetloc_le _
      _ = (afterColon (cleanUrl cs)).length := by rw [splitScheme_of_ne_nil hscheme]
      _ ≤ (afterColon cs).length := length_afterColon_cleanUrl cs

theorem length_lt_of_fromUrl (h : fromUrl lib value = .ok (some (l, t))) :
    t.length < (afterColon value).length := by
  obtain ⟨-, -, parsed, hparsed, hscheme, hwiki, rfl⟩ := fromUrl_eq_some h
  have hpath := length_path_le hparsed hscheme
  have hstrip := length_afterColon_strip value
  have htitle := length_decodeTitle_le (removePrefix "/wiki/".toList parsed.path)
  have hleading : (removePrefix "/wiki/".toList parsed.path).length = parsed.path.length - 6 := by
    unfold removePrefix
    rw [if_pos hwiki, List.length_drop]
    rfl
  have hlong : 6 ≤ parsed.path.length := hwiki.length_le
  omega

theorem titleReferenceParts_none {title : Text}
    (h : titleReferenceParts lib none value = .ok (l, title)) : title = afterColon value := by
  simp only [titleReferenceParts] at h
  split_ifs at h
  cases hlanguage : language lib (partition ':' value).1 with
  | none => simp [hlanguage] at h
  | some l' =>
    simp only [hlanguage, Except.ok.injEq, Prod.mk.injEq] at h
    exact h.2.symm

/-- What a value without a key names is not longer than the text after its colon, and if it is as
long, the value is no URL. -/
theorem length_le_of_normalizeValue (hstrip : strip value = value) (hvalue : value ≠ [])
    (h : normalizeValue lib none value = .ok (.ok (l, t))) :
    t.length < (afterColon value).length
      ∨ fromUrl lib value = .ok none ∧ Titled t ∧ t = decodeTitle (afterColon value) := by
  rcases (normalizeValue_eq_ok_iff hstrip hvalue).mp h with ⟨hurl, -⟩ | ⟨hurl, htitle⟩
  · exact Or.inl (length_lt_of_fromUrl hurl)
  · obtain ⟨htitled, title, hparts, rfl⟩ := normalizeTitleReference_eq_ok htitle
    rw [titleReferenceParts_none hparts] at htitled ⊢
    exact Or.inr ⟨hurl, htitled, rfl⟩

/-! ## Languages and titles that stay as they are -/

theorem replaceChar_of_not_mem {old new : Char} (h : old ∉ cs) : replaceChar old new cs = cs := by
  unfold replaceChar
  refine List.map_congr_left (g := id) (fun c hc => ?_) |>.trans (List.map_id cs)
  rw [if_neg]
  · rfl
  · rintro rfl
    exact h hc

theorem unquote_eq_of_length (h : cs.length ≤ (decodeTitle cs).length) : unquote cs = cs := by
  refine (unquote_eq_or_shorter cs).resolve_right (fun hshorter => ?_)
  have hstrip := length_strip_le (replaceChar '_' ' ' (unquote cs))
  unfold decodeTitle at h
  unfold replaceChar at h hstrip
  rw [List.length_map] at hstrip
  omega

theorem decodeTitle_eq_self (hunquote : unquote t = t) (hunderscore : '_' ∉ t)
    (hstrip : strip t = t) : decodeTitle t = t := by
  unfold decodeTitle
  rw [hunquote, replaceChar_of_not_mem hunderscore, hstrip]

theorem isLetterOrDigit_of_isLetter (h : isLetter c = true) : isLetterOrDigit c = true := by
  unfold isLetterOrDigit
  rw [h, Bool.true_or]

theorem letters_of_isLanguage (h : isLanguage l = true) :
    l ≠ [] ∧ ∀ c ∈ l, c = '-' ∨ isLetterOrDigit c = true := by
  unfold isLanguage at h
  cases hparts : l.splitOn '-' with
  | nil => exact absurd hparts (List.splitOn_ne_nil '-' l)
  | cons first rest =>
    simp only [hparts, Bool.and_eq_true, List.all_eq_true, decide_eq_true_eq] at h
    obtain ⟨⟨hfirst, hlength⟩, hrest⟩ := h
    constructor
    · rintro rfl
      rw [List.splitOn_nil, List.cons.injEq] at hparts
      rw [← hparts.1] at hlength
      exact absurd hlength.1 (by decide)
    · intro c hc
      refine (Split.eq_or_mem_splitOn (a := '-') hc).imp_right ?_
      rintro ⟨part, hpart, hmem⟩
      rw [hparts, List.mem_cons] at hpart
      rcases hpart with rfl | hpart
      · exact isLetterOrDigit_of_isLetter (hfirst c hmem)
      · exact (hrest part hpart).1 c hmem

theorem not_isSpace_of_isLetterOrDigit (h : isLetterOrDigit c = true) : isSpace c = false := by
  have hle : ∀ a b : Char, a ≤ b ↔ a.toNat ≤ b.toNat := fun a b => Iff.rfl
  simp only [isLetterOrDigit, isLetter, Bool.or_eq_true, Bool.and_eq_true, decide_eq_true_eq, hle]
    at h
  simp only [isSpace, Bool.or_eq_false_iff, Bool.and_eq_false_iff, decide_eq_false_iff_not]
  have ha : 'a'.toNat = 97 := rfl
  have hz : 'z'.toNat = 122 := rfl
  have hA : 'A'.toNat = 65 := rfl
  have hZ : 'Z'.toNat = 90 := rfl
  have h0 : '0'.toNat = 48 := rfl
  have h9 : '9'.toNat = 57 := rfl
  rw [ha, hz, hA, hZ, h0, h9] at h
  omega

theorem not_isSpace_of_isLanguage (h : isLanguage l = true) (hc : c ∈ l) : isSpace c = false := by
  rcases (letters_of_isLanguage h).2 c hc with rfl | hletter
  · decide
  · exact not_isSpace_of_isLetterOrDigit hletter

theorem not_mem_of_isLanguage (h : isLanguage l = true) (hhyphen : c ≠ '-')
    (hc : isLetterOrDigit c = false) : c ∉ l := by
  intro hmem
  rcases (letters_of_isLanguage h).2 c hmem with hyphen | hletter
  · exact hhyphen hyphen
  · rw [hletter] at hc
    cases hc

theorem strip_reference (hlanguage : isLanguage l = true) (htitle : strip t = t) :
    strip (l ++ ':' :: t) = l ++ ':' :: t := by
  have hlast : t.rdropWhile isSpace = t := by
    have hdrop := dropWhile_strip t
    rw [htitle] at hdrop
    unfold strip at htitle
    rwa [hdrop] at htitle
  cases hl : l with
  | nil => exact absurd hl (letters_of_isLanguage hlanguage).1
  | cons c rest =>
    have hc : isSpace c = false :=
      not_isSpace_of_isLanguage hlanguage (hl ▸ List.mem_cons_self)
    unfold strip
    rw [List.cons_append, List.dropWhile_cons, if_neg (by rw [hc]; decide),
      List.rdropWhile_eq_self_iff]
    intro hne
    rw [List.getLast_cons (by simp), List.getLast_append_of_right_ne_nil _ _ (by simp)]
    cases t with
    | nil => decide
    | cons d title =>
      rw [List.getLast_cons (by simp)]
      exact List.rdropWhile_eq_self_iff.mp hlast (by simp)

theorem language_eq_self (hlanguage : isLanguage l = true) (hlower : lib.lower l = l) :
    language lib l = some l := by
  have hstrip : strip l = l :=
    strip_eq_self_of_forall (fun c hc => not_isSpace_of_isLanguage hlanguage hc)
  have hreplace : replaceChar '_' '-' l = l :=
    replaceChar_of_not_mem (not_mem_of_isLanguage hlanguage (by decide) (by decide))
  simp only [language, hstrip, hreplace, hlower, hlanguage, if_true]

/-! ## References that come back -/

/-- The reference as a value of the tag `wikipedia`. -/
def referenceTag (l t : Text) : Text × Text := ("wikipedia".toList, l ++ ':' :: t)

/-- Parsing the tag gives exactly one reference, with the same language and title. -/
def Fixed (lib : Library) (l t : Text) : Prop :=
  ∃ ref rejected, parseWikipediaTags lib [referenceTag l t] = .ok ([ref], rejected)
    ∧ ref.language = l ∧ ref.title = t

/-- A second pass finds nothing to decode in the title. -/
structure Plain (lib : Library) (l t : Text) : Prop where
  titled : Titled t
  semicolon : ';' ∉ t
  escape : unquote t = t
  url : fromUrl lib (l ++ ':' :: t) = .ok none

theorem length_component_lt (hsemicolon : ';' ∉ l) (hcolon : ':' ∉ l) (ht : ';' ∈ t)
    (hvalue : value ∈ components (l ++ ':' :: t)) : (afterColon value).length < t.length := by
  obtain ⟨first, rest, rfl, hfirst⟩ := List.eq_append_cons_of_mem ht
  obtain ⟨part, hpart, rfl⟩ := List.mem_map.mp hvalue
  have hnot : ';' ∉ l ++ ':' :: first := by
    rw [List.mem_append, List.mem_cons]
    rintro (hmem | hmem | hmem)
    · exact hsemicolon hmem
    · exact absurd hmem (by decide)
    · exact hfirst hmem
  have hshape : l ++ ':' :: (first ++ ';' :: rest) = (l ++ ':' :: first) ++ ';' :: rest := by simp
  rw [hshape, List.splitOn_append_cons_self_of_not_mem hnot, List.mem_cons] at hpart
  refine (length_afterColon_strip part).trans_lt ?_
  rw [List.length_append, List.length_cons]
  rcases hpart with rfl | hpart
  · rw [afterColon_append hcolon, afterColon_colon]
    omega
  · have hlen := (Split.sublist_of_mem_splitOn hpart).length_le
    have hafter := length_afterColon_le part
    omega

theorem components_reference (hsemicolon : ';' ∉ l) (ht : ';' ∉ t)
    (hstrip : strip (l ++ ':' :: t) = l ++ ':' :: t) :
    components (l ++ ':' :: t) = [l ++ ':' :: t] := by
  unfold components
  rw [List.splitOn_eq_singleton, List.map_singleton, hstrip]
  rw [List.mem_append, List.mem_cons]
  rintro (hmem | hmem | hmem)
  · exact hsemicolon hmem
  · exact absurd hmem (by decide)
  · exact ht hmem

theorem plain_of_named (hlanguage : isLanguage l = true) (hstrip : strip t = t)
    (h : NamedBy lib (referenceTag l t) value (l, t)) : Plain lib l t := by
  have hcolon : ':' ∉ l := not_mem_of_isLanguage hlanguage (by decide) (by decide)
  have hnosemi : ';' ∉ l := not_mem_of_isLanguage hlanguage (by decide) (by decide)
  have hnormalized : normalizeValue lib none value = .ok (.ok (l, t)) := by
    obtain ⟨keyLanguage, hkey, hnormalized⟩ := h.names
    cases hkey
    exact hnormalized
  have hbound := length_le_of_normalizeValue h.strip_value h.nonempty hnormalized
  have ht : ';' ∉ t := by
    intro hmem
    have hshort := length_component_lt hnosemi hcolon hmem h.component
    rcases hbound with hlt | ⟨-, -, heq⟩
    · omega
    · have hle := length_decodeTitle_le (afterColon value)
      rw [← heq] at hle
      omega
  -- so the only component is the reference itself
  have hvalue : value = l ++ ':' :: t := by
    have hmem : value ∈ components (l ++ ':' :: t) := h.component
    rw [components_reference hnosemi ht (strip_reference hlanguage hstrip)] at hmem
    exact List.mem_singleton.mp hmem
  have hafter : afterColon value = t := by rw [hvalue, afterColon_append hcolon, afterColon_colon]
  rw [hafter] at hbound
  rcases hbound with hlt | ⟨hurl, htitled, heq⟩
  · exact absurd hlt (Nat.lt_irrefl _)
  · exact ⟨htitled, ht, unquote_eq_of_length (heq ▸ Nat.le_refl _), hvalue ▸ hurl⟩

theorem Plain.normalizeValue_eq (h : Plain lib l t) (hlanguage : isLanguage l = true)
    (hlower : lib.lower l = l) (hstrip : strip t = t) (hunderscore : '_' ∉ t) :
    normalizeValue lib none (l ++ ':' :: t) = .ok (.ok (l, t)) := by
  have hcolon : ':' ∉ l := not_mem_of_isLanguage hlanguage (by decide) (by decide)
  refine (normalizeValue_eq_ok_iff (strip_reference hlanguage hstrip) (by simp)).mpr
    (Or.inr ⟨h.url, ?_⟩)
  have hparts : titleReferenceParts lib none (l ++ ':' :: t) = .ok (l, t) := by
    have hbefore : (partition ':' (l ++ ':' :: t)).1 = l := by
      unfold partition
      rw [List.takeWhile_append_of_pos]
      · simp
      · intro c hc
        rw [decide_eq_true_eq]
        rintro rfl
        exact hcolon hc
    have hrest : (partition ':' (l ++ ':' :: t)).2 = t := by
      show afterColon _ = t
      rw [afterColon_append hcolon, afterColon_colon]
    have hmem : ':' ∈ l ++ ':' :: t := List.mem_append_right l List.mem_cons_self
    simp only [titleReferenceParts, hbefore, hrest, language_eq_self hlanguage hlower]
    exact if_neg (fun hnot => hnot hmem)
  have hdecode := decodeTitle_eq_self h.escape hunderscore hstrip
  unfold normalizeTitleReference
  rw [hparts]
  show (if decodeTitle t = [] ∨ [':'] <+: decodeTitle t then _ else _) = _
  rw [hdecode, if_neg (not_or.mpr h.titled)]

theorem Plain.fixed (h : Plain lib l t) (hlanguage : isLanguage l = true)
    (hlower : lib.lower l = l) (hstrip : strip t = t) (hunderscore : '_' ∉ t) :
    Fixed lib l t := by
  have hnosemi : ';' ∉ l := not_mem_of_isLanguage hlanguage (by decide) (by decide)
  let named : WikipediaTagRef := ⟨l, t, "wikipedia".toList, l ++ ':' :: t⟩
  have hevent : event lib "wikipedia".toList (l ++ ':' :: t) none (l ++ ':' :: t)
      = .ok (.named named) :=
    event_eq_named_iff.mpr
      ⟨by simp, h.normalizeValue_eq hlanguage hlower hstrip hunderscore, rfl, rfl⟩
  have htag : tagEvents lib (referenceTag l t) = .ok [.named named] := by
    show (components (l ++ ':' :: t)).mapM (event lib "wikipedia".toList (l ++ ':' :: t) none) = _
    rw [components_reference hnosemi h.semicolon (strip_reference hlanguage hstrip),
      List.mapM_cons, hevent]
    rfl
  refine ⟨named, [], parseWikipediaTags_eq_ok_iff.mpr ⟨[[.named named]], ?_, rfl, rfl⟩, rfl, rfl⟩
  rw [List.mapM_cons, htag]
  rfl

/-- **Fixed points.** A reference that the parser returns comes back from its own text just when a
second pass finds nothing to decode in it. -/
theorem reference_fixed_iff (h : parseWikipediaTags lib tags = .ok (refs, rejected))
    (href : ref ∈ refs) :
    Fixed lib ref.language ref.title ↔ Plain lib ref.language ref.title := by
  obtain ⟨tag, -, source, hsource⟩ :=
    (page_mem_refs_iff h ref.page).mp (List.mem_map_of_mem href)
  obtain ⟨hlanguage, hlower, hstrip, hunderscore, -⟩ := hsource.proper
  constructor
  · rintro ⟨again, rejected', hparse, hl, ht⟩
    have hmem : (ref.language, ref.title) ∈ [again].map WikipediaTagRef.page := by
      rw [← hl, ← ht]
      exact List.mem_singleton_self _
    obtain ⟨tag', htag', value, hnamed⟩ := (page_mem_refs_iff hparse _).mp hmem
    rw [List.mem_singleton.mp htag'] at hnamed
    exact plain_of_named hlanguage hstrip hnamed
  · exact fun hplain => hplain.fixed hlanguage hlower hstrip hunderscore

namespace TagsExample

/-- A title with an escape of an escape. -/
def escapedTwice : List (Text × Text) := [("wikipedia".toList, "en:100%2525".toList)]

/-- The title `100%25` becomes `100%`. -/
theorem notFixed : ¬ ∀ refs rejected,
    parseWikipediaTags library escapedTwice = .ok (refs, rejected) →
      ∀ ref ∈ refs, Fixed library ref.language ref.title := by
  intro hfixed
  have hparse : parseWikipediaTags library escapedTwice = .ok ([⟨"en".toList, "100%25".toList,
      "wikipedia".toList, "en:100%2525".toList⟩], []) := by decide
  obtain ⟨again, rejected, hagain, -, htitle⟩ := hfixed _ _ hparse _ (List.mem_singleton_self _)
  have hdecoded : parseWikipediaTags library [referenceTag "en".toList "100%25".toList]
      = .ok ([⟨"en".toList, "100%".toList, "wikipedia".toList, "en:100%25".toList⟩], []) := by
    decide
  rw [hdecoded, Except.ok.injEq, Prod.mk.injEq, List.cons.injEq] at hagain
  rw [← hagain.1.1] at htitle
  exact absurd htitle (by decide)

/-- The title `Foo` comes back. -/
theorem fixed_foo : Fixed library "en".toList "Foo".toList := by
  have hparse : parseWikipediaTags library [("wikipedia:en".toList, "_Foo_".toList)]
      = .ok ([⟨"en".toList, "Foo".toList, "wikipedia:en".toList, "_Foo_".toList⟩], []) := by decide
  refine (reference_fixed_iff hparse (List.mem_singleton_self _)).mpr ?_
  exact ⟨by unfold Titled; decide, by decide, by decide, by decide⟩

end TagsExample

end OsmPolygonWikidata.WikipediaTags
