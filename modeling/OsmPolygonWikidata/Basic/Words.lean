import OsmPolygonWikidata.Basic.PyString

/-! # Words and case folding

`str.split` takes a text apart into words, and `" ".join` puts words together again. Full case
folding maps each character to one or more characters. It keeps white space and makes none, so it
commutes with both.
-/

namespace Python

/-- A word: a run of characters that are no white space. -/
def IsWord (word : List Char) : Prop := word ≠ [] ∧ ∀ c ∈ word, isSpace c = false

/-- `" ".join(words)`. -/
def joinWords (words : List (List Char)) : List Char := List.intercalate [' '] words

/-- `str.casefold`, given the folding of each character. -/
def casefold (fold : Char → List Char) (text : String) : String :=
  String.ofList (text.toList.flatMap fold)

/-- What case folding does to white space: a space stays as it is, and no other character becomes
one or vanishes. -/
structure CaseFolding (fold : Char → List Char) : Prop where
  space : ∀ c, isSpace c = true → fold c = [c]
  nonempty : ∀ c, fold c ≠ []
  word : ∀ c, isSpace c = false → ∀ c' ∈ fold c, isSpace c' = false

/-! ## Splitting -/

theorem splitWords_append {run : List Char} (hrun : ∀ c ∈ run, isSpace c = false)
    (cs word : List Char) : splitWords (run ++ cs) word = splitWords cs (run.reverse ++ word) := by
  induction run generalizing word with
  | nil => rfl
  | cons c run ih =>
    have hc : isSpace c = false := hrun c List.mem_cons_self
    have ih' := ih (fun d hd => hrun d (List.mem_cons_of_mem c hd)) (c :: word)
    rw [List.cons_append, splitWords, if_neg (by simp [hc]), ih', List.reverse_cons,
      List.append_assoc]
    rfl

theorem isWord_of_mem_splitWords {cs word : List Char} (hword : ∀ c ∈ word, isSpace c = false)
    {w : List Char} (hw : w ∈ splitWords cs word) : IsWord w := by
  have hreverse : word ≠ [] → IsWord word.reverse := fun hne =>
    ⟨by simpa using hne, fun c hc => hword c (List.mem_reverse.mp hc)⟩
  induction cs generalizing word with
  | nil =>
    rw [splitWords] at hw
    split at hw
    · cases hw
    · rename_i hne
      rw [List.mem_singleton.mp hw]
      exact hreverse hne
  | cons c cs ih =>
    rw [splitWords] at hw
    split at hw
    · split at hw
      · exact ih (by simp) hw (by simp)
      · rename_i hne
        rcases List.mem_cons.mp hw with rfl | hw
        · exact hreverse hne
        · exact ih (by simp) hw (by simp)
    · rename_i hc
      have hword' : ∀ d ∈ c :: word, isSpace d = false := by
        intro d hd
        rcases List.mem_cons.mp hd with rfl | hd
        · simpa using hc
        · exact hword d hd
      exact ih hword' hw (fun _ =>
        ⟨by simp, fun d hd => hword' d (List.mem_reverse.mp hd)⟩)

theorem splitWords_joinWords {words : List (List Char)} (hwords : ∀ w ∈ words, IsWord w) :
    splitWords (joinWords words) [] = words := by
  induction words with
  | nil => rfl
  | cons w words ih =>
    obtain ⟨hne, hspace⟩ := hwords w List.mem_cons_self
    have ih' := ih (fun v hv => hwords v (List.mem_cons_of_mem w hv))
    cases words with
    | nil =>
      have hjoin : joinWords [w] = w ++ [] := by simp [joinWords]
      rw [hjoin, splitWords_append hspace, List.append_nil, splitWords, if_neg (by simpa using hne),
        List.reverse_reverse]
    | cons v words =>
      have hjoin : joinWords (w :: v :: words) = w ++ ' ' :: joinWords (v :: words) := by
        simp [joinWords, List.intercalate_cons_cons]
      have hspace' : isSpace ' ' = true := by decide
      rw [hjoin, splitWords_append hspace, List.append_nil, splitWords, if_pos hspace',
        if_neg (by simpa using hne), List.reverse_reverse, ih']

/-! ## Folding -/

variable {fold : Char → List Char} (hfold : CaseFolding fold)

include hfold

theorem flatMap_fold_eq_nil_iff {cs : List Char} : cs.flatMap fold = [] ↔ cs = [] := by
  constructor
  · intro h
    cases cs with
    | nil => rfl
    | cons c cs =>
      rw [List.flatMap_cons, List.append_eq_nil_iff] at h
      exact absurd h.1 (hfold.nonempty c)
  · rintro rfl
    rfl

theorem splitWords_flatMap (cs word : List Char) :
    splitWords (cs.flatMap fold) (word.reverse.flatMap fold).reverse
      = (splitWords cs word).map (fun w => w.flatMap fold) := by
  have hnil : (word.reverse.flatMap fold).reverse = [] ↔ word = [] := by
    rw [List.reverse_eq_nil_iff, flatMap_fold_eq_nil_iff hfold, List.reverse_eq_nil_iff]
  induction cs generalizing word with
  | nil =>
    rw [List.flatMap_nil, splitWords, splitWords]
    by_cases hword : word = []
    · rw [if_pos hword, if_pos (hnil.mpr hword)]
      rfl
    · rw [if_neg hword, if_neg (fun h => hword (hnil.mp h)), List.reverse_reverse]
      rfl
  | cons c cs ih =>
    have hrest := ih [] (by simp)
    rw [List.flatMap_cons, splitWords]
    cases hc : isSpace c with
    | true =>
      rw [hfold.space c hc, List.cons_append, List.nil_append, splitWords, hc, if_pos rfl,
        if_pos rfl]
      by_cases hword : word = []
      · rw [if_pos hword, if_pos (hnil.mpr hword)]
        exact hrest
      · rw [if_neg hword, if_neg (fun h => hword (hnil.mp h)), List.reverse_reverse,
          List.map_cons]
        exact congrArg _ hrest
    | false =>
      have hword : (fold c).reverse ++ (word.reverse.flatMap fold).reverse
          = ((c :: word).reverse.flatMap fold).reverse := by
        simp
      rw [splitWords_append (hfold.word c hc), hword, if_neg (by simp)]
      refine ih (c :: word) ?_
      rw [List.reverse_eq_nil_iff, flatMap_fold_eq_nil_iff hfold, List.reverse_eq_nil_iff]

theorem flatMap_joinWords (words : List (List Char)) :
    (joinWords words).flatMap fold = joinWords (words.map (fun w => w.flatMap fold)) := by
  induction words with
  | nil => rfl
  | cons w words ih =>
    cases words with
    | nil => simp [joinWords]
    | cons v words =>
      have hjoin : ∀ (a b : List Char) (rest : List (List Char)),
          joinWords (a :: b :: rest) = a ++ ' ' :: joinWords (b :: rest) := by
        intro a b rest
        simp [joinWords, List.intercalate_cons_cons]
      rw [hjoin, List.flatMap_append, List.flatMap_cons, hfold.space ' ' (by decide), ih,
        List.map_cons, List.map_cons, List.map_cons, hjoin]
      rfl

/-- **A folded text that reads like joined words** is the folding of its own words, joined. -/
theorem flatMap_eq_of_joined {cs : List Char} {words : List (List Char)}
    (hwords : ∀ w ∈ words, IsWord w) (h : cs.flatMap fold = (joinWords words).flatMap fold) :
    (joinWords (splitWords cs [])).flatMap fold = cs.flatMap fold := by
  have hfolded : ∀ w ∈ words.map (fun w => w.flatMap fold), IsWord w := by
    intro w hw
    obtain ⟨v, hv, rfl⟩ := List.mem_map.mp hw
    refine ⟨fun hnil => (hwords v hv).1 ((flatMap_fold_eq_nil_iff hfold).mp hnil), ?_⟩
    intro c' hc'
    obtain ⟨c, hc, hc'⟩ := List.mem_flatMap.mp hc'
    exact hfold.word c ((hwords v hv).2 c hc) c' hc'
  have hsplit : (splitWords cs []).map (fun w => w.flatMap fold)
      = words.map (fun w => w.flatMap fold) := by
    calc (splitWords cs []).map (fun w => w.flatMap fold)
        = splitWords (cs.flatMap fold) [] := (splitWords_flatMap hfold cs []).symm
      _ = splitWords (joinWords (words.map (fun w => w.flatMap fold))) [] := by
          rw [h, flatMap_joinWords hfold]
      _ = words.map (fun w => w.flatMap fold) := splitWords_joinWords hfolded
  rw [flatMap_joinWords hfold, hsplit, h, flatMap_joinWords hfold]

theorem length_flatMap_joinWords_cons (w : List Char) (words : List (List Char)) :
    ((joinWords (w :: words)).flatMap fold).length
      ≤ (w.flatMap fold).length + (((joinWords words).flatMap fold).length + 1) := by
  cases words with
  | nil => simp [joinWords]
  | cons v words =>
    have hjoin : joinWords (w :: v :: words) = w ++ ' ' :: joinWords (v :: words) := by
      simp [joinWords, List.intercalate_cons_cons]
    rw [hjoin, List.flatMap_append, List.flatMap_cons, hfold.space ' ' (by decide),
      List.length_append, List.length_append, List.length_singleton]
    omega

theorem length_flatMap_joinWords (cs word : List Char) :
    ((joinWords (splitWords cs word)).flatMap fold).length
      ≤ ((word.reverse ++ cs).flatMap fold).length := by
  induction cs generalizing word with
  | nil =>
    rw [splitWords]
    split
    · simp [joinWords]
    · simp [joinWords]
  | cons c cs ih =>
    have hrest := ih []
    rw [List.reverse_nil, List.nil_append] at hrest
    rw [splitWords]
    cases hc : isSpace c with
    | true =>
      have hlength : ((word.reverse ++ c :: cs).flatMap fold).length
          = (word.reverse.flatMap fold).length + ((cs.flatMap fold).length + 1) := by
        rw [List.flatMap_append, List.flatMap_cons, hfold.space c hc, List.length_append,
          List.length_append, List.length_singleton]
        omega
      rw [if_pos rfl, hlength]
      split
      · omega
      · have hcons := length_flatMap_joinWords_cons hfold word.reverse (splitWords cs [])
        omega
    | false =>
      have hmove : word.reverse ++ c :: cs = (c :: word).reverse ++ cs := by simp
      rw [if_neg (by simp), hmove]
      exact ih (c :: word)

theorem eq_joinWords_of_flatMap_eq {cs word : List Char}
    (h : (word.reverse ++ cs).flatMap fold = (joinWords (splitWords cs word)).flatMap fold) :
    word.reverse ++ cs = joinWords (splitWords cs word) := by
  induction cs generalizing word with
  | nil =>
    rw [splitWords]
    split
    · rename_i hword
      rw [hword]
      rfl
    · simp [joinWords]
  | cons c cs ih =>
    have hlength := length_flatMap_joinWords hfold cs []
    rw [List.reverse_nil, List.nil_append] at hlength
    cases hc : isSpace c with
    | false =>
      have hmove : word.reverse ++ c :: cs = (c :: word).reverse ++ cs := by simp
      rw [splitWords, hc, if_neg (by simp), hmove] at h ⊢
      exact ih h
    | true =>
      rw [splitWords, hc, if_pos rfl] at h ⊢
      rw [List.flatMap_append, List.flatMap_cons, hfold.space c hc] at h
      split at h
      · -- white space in front is lost
        have hcount := congrArg List.length h
        rw [List.length_append, List.length_append, List.length_singleton] at hcount
        omega
      · rename_i hword
        rw [if_neg hword]
        cases hwords : splitWords cs [] with
        | nil =>
          -- and so is white space at the end
          rw [hwords] at h
          have hcount := congrArg List.length h
          have hjoin : joinWords [word.reverse] = word.reverse := by simp [joinWords]
          rw [hjoin, List.length_append, List.length_append, List.length_singleton] at hcount
          omega
        | cons v words =>
          have hjoin : joinWords (word.reverse :: v :: words)
              = word.reverse ++ ' ' :: joinWords (v :: words) := by
            simp [joinWords, List.intercalate_cons_cons]
          rw [hwords, hjoin, List.flatMap_append, List.flatMap_cons,
            hfold.space ' ' (by decide)] at h
          obtain ⟨hspace, hrest⟩ := List.cons.inj (List.append_cancel_left h)
          have hrest' : ([].reverse ++ cs).flatMap fold
              = (joinWords (splitWords cs [])).flatMap fold := by
            rw [hwords]
            exact hrest
          have hcs := ih hrest'
          rw [hwords] at hcs
          rw [hjoin, hspace, ← hcs]
          rfl

end Python
