import OsmPolygonWikidata.Basic.Loops

/-! # Columnar counters of the dataset statistics

The accumulators of `hf/_dataset_stats/aggregation.py`. A column with a type that Arrow can count is
counted by kernels, and a language list is decoded once for all files, through a cache that stops
growing. The counters are those of the plain functions on all rows (`accumulateTables_eq`).
-/

namespace OsmPolygonWikidata.ColumnCounters

/-- A value of `to_pylist`. `other` has the types that no kernel counts. -/
inductive Value (O : Type) where
  | none
  | bool (b : Bool)
  | int (n : Int)
  | str (s : String)
  | bytes (bs : List UInt8)
  | other (o : O)
  deriving DecidableEq

/-- The type of a column. `string` and `binary` are also the large ones. -/
inductive DataType where
  | boolean
  | integer
  | string
  | binary
  | other
  deriving DecidableEq

def DataType.isSerializedString (dataType : DataType) : Bool :=
  dataType = .string ∨ dataType = .binary

def DataType.Holds {O : Type} : DataType → Value O → Prop
  | .other, _ => True
  | _, .none => True
  | .boolean, .bool _ => True
  | .integer, .int _ => True
  | .string, .str _ => True
  | .binary, .bytes _ => True
  | _, _ => False

/-- A chunked array. -/
structure Column (O : Type) where
  dataType : DataType
  chunks : List (List (Value O))
  typed : ∀ value ∈ chunks.flatten, dataType.Holds value

def Column.toPylist {O : Type} (column : Column O) : List (Value O) := column.chunks.flatten

/-- What `json.loads` answers: a list, another value, or an exception. -/
inductive Loaded (J : Type) where
  | list (values : List J)
  | notList
  | valueError
  | raised

/-- What Python's built-ins do with values. `none` is an exception. -/
structure Builtins (O J : Type) where
  truthy : O → Bool
  str : O → String
  strBytes : List UInt8 → String
  strBytes_injective : Function.Injective strBytes
  atLeast : O → Int → Option Bool
  int : O → Option Int
  intStr : String → Option Int
  intBytes : List UInt8 → Option Int
  loads : Value O → Loaded J
  strJson : J → String

section

variable {O J : Type} (p : Builtins O J)

def truthy : Value O → Bool
  | .none => false
  | .bool b => b
  | .int n => n ≠ 0
  | .str s => s ≠ ""
  | .bytes bs => bs ≠ []
  | .other o => p.truthy o

def str : Value O → String
  | .none => "None"
  | .bool b => if b then "True" else "False"
  | .int n => toString n
  | .str s => s
  | .bytes bs => p.strBytes bs
  | .other o => p.str o

/-- `value >= minimum`. -/
def atLeast (minimum : Int) : Value O → Option Bool
  | .bool b => some (minimum ≤ b.toInt)
  | .int n => some (minimum ≤ n)
  | .other o => p.atLeast o minimum
  | _ => Option.none

/-- `int(value)`. -/
def toInt : Value O → Option Int
  | .none => Option.none
  | .bool b => some b.toInt
  | .int n => some n
  | .str s => p.intStr s
  | .bytes bs => p.intBytes bs
  | .other o => p.int o

end

/-! ## Sums that can raise -/

section

variable {A M : Type} [AddCommMonoid M]

/-- `total += f(x)` for all elements. -/
def sumM (f : A → Option M) : List A → Option M
  | [] => some 0
  | x :: xs => (f x).bind (fun m => (sumM f xs).map (m + ·))

theorem sumM_append (f : A → Option M) (xs ys : List A) :
    sumM f (xs ++ ys) = (sumM f xs).bind (fun m => (sumM f ys).map (m + ·)) := by
  induction xs with
  | nil => simp [sumM]
  | cons x xs ih =>
    rw [List.cons_append, sumM, sumM, ih]
    cases f x with
    | none => rfl
    | some m => cases sumM f xs <;> simp [Function.comp_def, add_assoc]

theorem sumM_eq_some {f : A → Option M} {g : A → M} {xs : List A}
    (h : ∀ x ∈ xs, f x = some (g x)) : sumM f xs = some (xs.map g).sum := by
  induction xs with
  | nil => rfl
  | cons x xs ih =>
    rw [sumM, h x List.mem_cons_self, ih (fun y hy => h y (List.mem_cons_of_mem x hy))]
    rfl

theorem sumM_eq_none {f : A → Option M} {xs : List A} {x : A} (hx : x ∈ xs) (h : f x = none) :
    sumM f xs = none := by
  induction xs with
  | nil => cases hx
  | cons y xs ih =>
    rw [sumM]
    rcases List.mem_cons.mp hx with rfl | hx
    · rw [h]
      rfl
    · rw [ih hx]
      cases f y <;> rfl

/-- The distinct values with their frequencies have the sum of all values. -/
theorem sumM_frequencies [DecidableEq A] (f : A → Option M) {xs : List A} {pairs : List (A × Nat)}
    (hnodup : (pairs.map Prod.fst).Nodup)
    (hpairs : ∀ x n, (x, n) ∈ pairs ↔ x ∈ xs ∧ n = xs.count x) :
    sumM (fun pair => (f pair.1).map (pair.2 • ·)) pairs = sumM f xs := by
  by_cases hall : ∀ x ∈ xs, (f x).isSome
  · have hf : ∀ x ∈ xs, f x = some ((f x).getD 0) := by
      intro x hx
      obtain ⟨m, hm⟩ := Option.isSome_iff_exists.mp (hall x hx)
      rw [hm]
      rfl
    have hpair : ∀ pair ∈ pairs, (f pair.1).map (pair.2 • ·)
        = some (xs.count pair.1 • (f pair.1).getD 0) := by
      intro pair hpair
      obtain ⟨hx, hn⟩ := (hpairs pair.1 pair.2).mp hpair
      rw [hf pair.1 hx, hn]
      rfl
    have hset : (pairs.map Prod.fst).toFinset = xs.toFinset := by
      ext x
      simp only [List.mem_toFinset, List.mem_map, Prod.exists, exists_and_right, exists_eq_right]
      exact ⟨fun ⟨n, h⟩ => ((hpairs x n).mp h).1, fun h => ⟨xs.count x, (hpairs x _).mpr ⟨h, rfl⟩⟩⟩
    rw [sumM_eq_some hf, sumM_eq_some hpair, Finset.sum_list_map_count xs, ← hset,
      List.sum_toFinset _ hnodup, List.map_map]
    rfl
  · push Not at hall
    obtain ⟨x, hx, hnone⟩ := hall
    have hnone : f x = none := by simpa using hnone
    rw [sumM_eq_none hx hnone]
    exact sumM_eq_none ((hpairs x (xs.count x)).mpr ⟨hx, rfl⟩) (by rw [hnone]; rfl)

end

/-! ## The plain functions -/

section

variable {O J : Type} [DecidableEq O] (p : Builtins O J)

def updateUniqueValues (values : List (Value O)) (target : Finset String) : Finset String :=
  values.foldl (fun target value =>
    if truthy p value then insert (str p value) target else target) target

/-- `_count_truthy`. -/
def countTruthy (values : List (Value O)) : Int := values.countP (truthy p)

/-- `_count_non_english`, with a strict `zip`. -/
def countNonEnglish (wikipedia english : List (Value O)) : Option Int :=
  if wikipedia.length ≠ english.length then none
  else some ((wikipedia.zip english).countP
    (fun (hasWiki, hasEnglish) => truthy p hasWiki && !truthy p hasEnglish))

def countLanguageBuckets (values : List (Value O)) : Option (Int × Int × Int) :=
  sumM (fun value =>
    if value = .none then some 0
    else do
      let two ← atLeast p 2 value
      let five ← atLeast p 5 value
      let ten ← atLeast p 10 value
      some (two.toInt, five.toInt, ten.toInt)) values

def decodedLanguageList (value : Value O) : Option (List J) :=
  match p.loads value with
  | .list values => some values
  | .notList => some []
  | .valueError => some []
  | .raised => none

def parseLanguageList (value : Value O) : Option (List J) :=
  if truthy p value = false ∨ value = .str "[]" then some []
  else
    match value with
    | .str _ => decodedLanguageList p value
    | .bytes _ => decodedLanguageList p value
    | _ => some []

/-- The languages of a value. -/
def languagesOf (value : Value O) : Option (List String) :=
  (parseLanguageList p value).map (fun languages => languages.map p.strJson)

def countPolygonLanguages (values : List (Value O)) : Option (Multiset String) :=
  sumM (fun value => (languagesOf p value).map Multiset.ofList) values

def countPythonValueStrings (values : List (Value O)) : Multiset String :=
  (values.filter (truthy p)).map (str p)

/-- `_sum_numeric`. -/
def sumNumeric (values : List (Value O)) : Option Int :=
  sumM (fun value => if value = .none then some 0 else toInt p value) values

end

/-! ## The kernels -/

section

variable {O J : Type}

/-- The number that a value adds to a sum. -/
def Value.number : Value O → Option Int
  | .bool b => some b.toInt
  | .int n => some n
  | _ => Option.none

def total (values : List (Value O)) : Int := (values.filterMap Value.number).sum

/-- The range of Arrow's sums. -/
def InRange (n : Int) : Prop := -2 ^ 63 ≤ n ∧ n < 2 ^ 63

/-- The kernels whose order or range is Arrow's own. -/
structure Kernels (O : Type) [DecidableEq O] where
  unique : List (Value O) → List (Value O)
  mem_unique_iff : ∀ values value, value ∈ unique values ↔ value ∈ values
  valueCounts : List (Value O) → List (Value O × Nat)
  valueCounts_nodup : ∀ values, ((valueCounts values).map Prod.fst).Nodup
  mem_valueCounts_iff : ∀ values value n,
    (value, n) ∈ valueCounts values ↔ value ∈ values ∧ n = values.count value
  sum : List (Value O) → Option Int
  sum_eq : ∀ values, InRange (total values) →
    sum values = if values.filterMap Value.number = [] then none else some (total values)

/-- `fill_null`. -/
def fillNull [DecidableEq O] (values : List (Value O)) (fill : Value O) : List (Value O) :=
  values.map (fun value => if value = .none then fill else value)

def invert (values : List (Value O)) : List (Value O) :=
  values.map (fun
    | .bool b => .bool (!b)
    | _ => .none)

def andValue : Value O → Value O → Value O
  | .bool b, .bool b' => .bool (b && b')
  | _, _ => .none

/-- `and`, which propagates nulls, of two columns of one table. -/
def andKernel (left right : List (Value O)) : List (Value O) := List.zipWith andValue left right

/-- `greater_equal`. -/
def greaterEqual (values : List (Value O)) (minimum : Int) : List (Value O) :=
  values.map (fun
    | .int n => .bool (minimum ≤ n)
    | _ => .none)

/-- `_scalar_int`. -/
def scalarInt (value : Option Int) : Int := value.getD 0

end

/-! ## The column counters -/

section

variable {O J : Type} [DecidableEq O] (p : Builtins O J) (k : Kernels O)

def uniqueColumnValues (values : Column O) : List (Value O) :=
  if values.dataType.isSerializedString then k.unique values.toPylist else values.toPylist

def countTruthyColumn (values : Column O) : Int :=
  if values.dataType = .boolean then scalarInt (k.sum values.toPylist)
  else countTruthy p values.toPylist

def countNonEnglishColumns (wikipedia english : Column O) : Option Int :=
  if wikipedia.dataType = .boolean ∧ english.dataType = .boolean then
    some (scalarInt (k.sum
      (andKernel wikipedia.toPylist (invert (fillNull english.toPylist (.bool false))))))
  else countNonEnglish p wikipedia.toPylist english.toPylist

def countAtLeast (values : Column O) (minimum : Int) : Int :=
  scalarInt (k.sum (greaterEqual values.toPylist minimum))

def countLanguageBucketColumn (values : Column O) : Option (Int × Int × Int) :=
  if values.dataType = .integer then
    some (countAtLeast k values 2, countAtLeast k values 5, countAtLeast k values 10)
  else countLanguageBuckets p values.toPylist

abbrev LanguageCache (O : Type) := List (Value O × List String)

/-- `_LANGUAGE_CACHE_MAX_ENTRIES`. -/
def languageCacheMaxEntries : Nat := 100000

def serializedLanguageValue : Value O → Option (Value O)
  | .str s => if s = "" ∨ s = "[]" then none else some (.str s)
  | .bytes bs => if bs = [] then none else some (.bytes bs)
  | _ => none

/-- `_decode_languages`. -/
def decodeLanguages (value : Value O) (cache : LanguageCache O) :
    Option (List String × LanguageCache O) := do
  let decoded ← decodedLanguageList p value
  let languages := decoded.map p.strJson
  some (languages,
    if cache.length < languageCacheMaxEntries then cache ++ [(value, languages)] else cache)

/-- `_cached_languages`. -/
def cachedLanguages (value : Value O) (cache : LanguageCache O) :
    Option (List String × LanguageCache O) :=
  match serializedLanguageValue value with
  | none => some ([], cache)
  | some serialized =>
    match cache.lookup serialized with
    | some cached => some (cached, cache)
    | none => decodeLanguages p serialized cache

/-- One turn of the loop of `_count_polygon_language_column`. -/
def countLanguages (state : Multiset String × LanguageCache O) (pair : Value O × Nat) :
    Option (Multiset String × LanguageCache O) :=
  (cachedLanguages p pair.1 state.2).map (fun (languages, cache) =>
    (state.1 + pair.2 • Multiset.ofList languages, cache))

def countPolygonLanguageColumn (values : Column O) (cache : LanguageCache O) :
    Option (Multiset String × LanguageCache O) :=
  if values.dataType.isSerializedString then
    (k.valueCounts values.toPylist).foldlM (countLanguages p) (0, cache)
  else (countPolygonLanguages p values.toPylist).map (·, cache)

/-- `Counter` of a dictionary display, where the last value of a key stands. -/
def counterOfPairs (pairs : List (String × Nat)) : Multiset String :=
  pairs.foldl (fun counts pair =>
    counts.filter (· ≠ pair.1) + Multiset.replicate pair.2 pair.1) 0

def countValueStrings (values : Column O) : Multiset String :=
  if values.dataType.isSerializedString then
    counterOfPairs (((k.valueCounts values.toPylist).filter (fun pair => truthy p pair.1)).map
      (fun pair => (str p pair.1, pair.2)))
  else countPythonValueStrings p values.toPylist

def sumNumericColumn (values : Column O) : Option Int :=
  if values.dataType = .integer then some (scalarInt (k.sum values.toPylist))
  else sumNumeric p values.toPylist

end

/-! ## Tables -/

/-- A table, with its columns by name. -/
structure Table (O : Type) where
  numRows : Nat
  column : String → Column O
  aligned : ∀ name, (column name).toPylist.length = numRows

/-- The rows of tables that follow each other, column by column. -/
def rowsOf {O : Type} (tables : List (Table O)) (name : String) : List (Value O) :=
  tables.flatMap (fun table => (table.column name).toPylist)

/-- The counters of `_StatsAccumulator` that the tables fill. -/
structure Counters where
  polygonCount : Int
  uniqueWikidata : Finset String
  polygonsWithWikipedia : Int
  polygonsWithText : Int
  polygonsWithEnglish : Int
  polygonsWithNoEnglishOtherLang : Int
  polygonsWithLanguages : Int × Int × Int
  distinctRegions : Finset String
  polygonsPerLanguage : Multiset String
  articleCount : Int
  totalWords : Int
  totalTokensEstimate : Int
  articlesPerLanguage : Multiset String

/-- `_StatsAccumulator`. -/
structure StatsAccumulator (O : Type) where
  counters : Counters
  languageLists : LanguageCache O

def Counters.zero : Counters := ⟨0, ∅, 0, 0, 0, 0, 0, ∅, 0, 0, 0, 0, 0⟩

/-- The counters of rows that follow each other. -/
def Counters.add (a b : Counters) : Counters where
  polygonCount := a.polygonCount + b.polygonCount
  uniqueWikidata := a.uniqueWikidata ∪ b.uniqueWikidata
  polygonsWithWikipedia := a.polygonsWithWikipedia + b.polygonsWithWikipedia
  polygonsWithText := a.polygonsWithText + b.polygonsWithText
  polygonsWithEnglish := a.polygonsWithEnglish + b.polygonsWithEnglish
  polygonsWithNoEnglishOtherLang :=
    a.polygonsWithNoEnglishOtherLang + b.polygonsWithNoEnglishOtherLang
  polygonsWithLanguages := a.polygonsWithLanguages + b.polygonsWithLanguages
  distinctRegions := a.distinctRegions ∪ b.distinctRegions
  polygonsPerLanguage := a.polygonsPerLanguage + b.polygonsPerLanguage
  articleCount := a.articleCount + b.articleCount
  totalWords := a.totalWords + b.totalWords
  totalTokensEstimate := a.totalTokensEstimate + b.totalTokensEstimate
  articlesPerLanguage := a.articlesPerLanguage + b.articlesPerLanguage

section

variable {O J : Type} [DecidableEq O] (p : Builtins O J) (k : Kernels O)

def accumulatePolygonTable (stats : StatsAccumulator O) (table : Table O) :
    Option (StatsAccumulator O) := do
  let c := stats.counters
  let hasWikipedia := table.column "has_wikipedia"
  let hasEnglish := table.column "has_english_wikipedia"
  let nonEnglish ← countNonEnglishColumns p k hasWikipedia hasEnglish
  let buckets ← countLanguageBucketColumn p k (table.column "wikipedia_language_count")
  let (languages, cache) ← countPolygonLanguageColumn p k (table.column "wikipedia_languages")
    stats.languageLists
  some ⟨{ c with
    polygonCount := c.polygonCount + table.numRows
    uniqueWikidata :=
      updateUniqueValues p (uniqueColumnValues k (table.column "wikidata")) c.uniqueWikidata
    distinctRegions :=
      updateUniqueValues p (uniqueColumnValues k (table.column "region")) c.distinctRegions
    polygonsWithWikipedia := c.polygonsWithWikipedia + countTruthyColumn p k hasWikipedia
    polygonsWithText :=
      c.polygonsWithText + countTruthyColumn p k (table.column "text_available")
    polygonsWithEnglish := c.polygonsWithEnglish + countTruthyColumn p k hasEnglish
    polygonsWithNoEnglishOtherLang := c.polygonsWithNoEnglishOtherLang + nonEnglish
    polygonsWithLanguages := c.polygonsWithLanguages + buckets
    polygonsPerLanguage := c.polygonsPerLanguage + languages }, cache⟩

def accumulateArticleTable (stats : StatsAccumulator O) (table : Table O) :
    Option (StatsAccumulator O) := do
  let c := stats.counters
  let words ← sumNumericColumn p k (table.column "article_length_words")
  let tokens ← sumNumericColumn p k (table.column "article_length_tokens_estimate")
  some { stats with counters := { c with
    articleCount := c.articleCount + table.numRows
    articlesPerLanguage :=
      c.articlesPerLanguage + countValueStrings p k (table.column "language")
    totalWords := c.totalWords + words
    totalTokensEstimate := c.totalTokensEstimate + tokens } }

/-- The polygon tables and then the article tables, each file a table. -/
def accumulateTables (polygons articles : List (Table O)) : Option (StatsAccumulator O) := do
  let stats ← polygons.foldlM (accumulatePolygonTable p k) ⟨Counters.zero, []⟩
  articles.foldlM (accumulateArticleTable p k) stats

/-! ## The counters of all rows -/

def countPolygonRows (rows : String → List (Value O)) : Option Counters := do
  let nonEnglish ← countNonEnglish p (rows "has_wikipedia") (rows "has_english_wikipedia")
  let buckets ← countLanguageBuckets p (rows "wikipedia_language_count")
  let languages ← countPolygonLanguages p (rows "wikipedia_languages")
  some { Counters.zero with
    polygonCount := (rows "wikidata").length
    uniqueWikidata := updateUniqueValues p (rows "wikidata") ∅
    distinctRegions := updateUniqueValues p (rows "region") ∅
    polygonsWithWikipedia := countTruthy p (rows "has_wikipedia")
    polygonsWithText := countTruthy p (rows "text_available")
    polygonsWithEnglish := countTruthy p (rows "has_english_wikipedia")
    polygonsWithNoEnglishOtherLang := nonEnglish
    polygonsWithLanguages := buckets
    polygonsPerLanguage := languages }

def countArticleRows (rows : String → List (Value O)) : Option Counters := do
  let words ← sumNumeric p (rows "article_length_words")
  let tokens ← sumNumeric p (rows "article_length_tokens_estimate")
  some { Counters.zero with
    articleCount := (rows "language").length
    articlesPerLanguage := countPythonValueStrings p (rows "language")
    totalWords := words
    totalTokensEstimate := tokens }

end

/-! ## The kernels count what the plain functions count -/

section

variable {O J : Type} [DecidableEq O] {p : Builtins O J} {k : Kernels O} {column : Column O}
  {values : List (Value O)} {cache : LanguageCache O}

omit [DecidableEq O] in
theorem mem_updateUniqueValues_iff {target : Finset String} {s : String} :
    s ∈ updateUniqueValues p values target
      ↔ s ∈ target ∨ ∃ value ∈ values, truthy p value ∧ str p value = s := by
  induction values generalizing target with
  | nil => simp [updateUniqueValues]
  | cons value values ih =>
    show s ∈ updateUniqueValues p values
      (if truthy p value then insert (str p value) target else target) ↔ _
    rw [ih]
    split
    next h =>
      simp only [Finset.mem_insert, List.mem_cons, exists_eq_or_imp, h, true_and]
      rw [eq_comm (a := s), or_assoc, or_left_comm]
    next h => simp [h]

omit [DecidableEq O] in
theorem updateUniqueValues_eq (values : List (Value O)) (target : Finset String) :
    updateUniqueValues p values target = target ∪ updateUniqueValues p values ∅ := by
  ext s
  simp [mem_updateUniqueValues_iff]

omit [DecidableEq O] in
theorem updateUniqueValues_append (values values' : List (Value O)) :
    updateUniqueValues p (values ++ values') ∅
      = updateUniqueValues p values ∅ ∪ updateUniqueValues p values' ∅ := by
  rw [← updateUniqueValues_eq]
  exact List.foldl_append

theorem updateUniqueValues_column (target : Finset String) :
    updateUniqueValues p (uniqueColumnValues k column) target
      = target ∪ updateUniqueValues p column.toPylist ∅ := by
  rw [← updateUniqueValues_eq]
  ext s
  unfold uniqueColumnValues
  split
  · simp only [mem_updateUniqueValues_iff, k.mem_unique_iff]
  · rfl

theorem scalarInt_sum (h : InRange (total values)) : scalarInt (k.sum values) = total values := by
  rw [k.sum_eq values h]
  split
  next hnil => simp [scalarInt, total, hnil]
  next => rfl

theorem scalarInt_sum_boolean (h : ∀ value ∈ values, DataType.boolean.Holds value)
    (hlength : (values.length : Int) < 2 ^ 63) :
    scalarInt (k.sum values) = values.countP (truthy p) := by
  have htotal : total values = values.countP (truthy p) := by
    clear hlength
    induction values with
    | nil => rfl
    | cons value values ih =>
      have ih := ih (fun v hv => h v (List.mem_cons_of_mem value hv))
      have hvalue := h value List.mem_cons_self
      cases value with
      | none => simpa [total, List.filterMap_cons, Value.number, truthy] using ih
      | bool b =>
        rw [List.countP_cons]
        cases b <;> simp [total, Value.number, truthy] at ih ⊢ <;> omega
      | _ => exact hvalue.elim
  have hcount : values.countP (truthy p) ≤ values.length := List.countP_le_length
  rw [scalarInt_sum, htotal]
  rw [htotal, InRange]
  omega

theorem countTruthyColumn_eq (hlength : (column.toPylist.length : Int) < 2 ^ 63) :
    countTruthyColumn p k column = countTruthy p column.toPylist := by
  unfold countTruthyColumn
  split
  next h => exact scalarInt_sum_boolean (fun v hv => h ▸ column.typed v hv) hlength
  next => rfl

theorem countNonEnglishColumns_eq {wikipedia english : Column O}
    (haligned : wikipedia.toPylist.length = english.toPylist.length)
    (hlength : (wikipedia.toPylist.length : Int) < 2 ^ 63) :
    countNonEnglishColumns p k wikipedia english
      = countNonEnglish p wikipedia.toPylist english.toPylist := by
  unfold countNonEnglishColumns
  split
  next h =>
    -- a null is no English article
    have hinvert : invert (fillNull english.toPylist (.bool false))
        = english.toPylist.map (fun v => .bool (!truthy p v)) := by
      rw [invert, fillNull, List.map_map]
      apply List.map_congr_left
      intro v hv
      have hv := h.2 ▸ english.typed v hv
      cases v with
      | none => rfl
      | bool b => rfl
      | _ => exact hv.elim
    have hactive : andKernel wikipedia.toPylist
          (english.toPylist.map (fun v => .bool (!truthy p v)))
        = (wikipedia.toPylist.zip english.toPylist).map
          (fun pair => andValue pair.1 (.bool (!truthy p pair.2))) := by
      rw [andKernel, List.zipWith_map_right, ← List.map_uncurry_zip_eq_zipWith]
      rfl
    rw [countNonEnglish, if_neg (not_not.mpr haligned), hinvert, hactive,
      scalarInt_sum_boolean (p := p), List.countP_map]
    · congr 2
      apply List.countP_congr
      intro pair hpair
      have hw := h.1 ▸ wikipedia.typed pair.1 (List.of_mem_zip hpair).1
      rcases pair with ⟨w, e⟩
      cases w with
      | none => simp [andValue, truthy]
      | bool b => simp [andValue, truthy]
      | _ => exact hw.elim
    · intro value hvalue
      obtain ⟨⟨w, e⟩, -, rfl⟩ := List.mem_map.mp hvalue
      cases w <;> trivial
    · simp only [List.length_map, List.length_zip]
      omega
  next => rfl

/-- The integer is large enough. -/
def reaches (minimum : Int) : Value O → Bool
  | .int n => minimum ≤ n
  | _ => false

theorem countAtLeast_eq (p : Builtins O J) (h : column.dataType = .integer)
    (hlength : (column.toPylist.length : Int) < 2 ^ 63) (minimum : Int) :
    countAtLeast k column minimum = column.toPylist.countP (reaches minimum) := by
  unfold countAtLeast
  rw [scalarInt_sum_boolean (p := p), greaterEqual, List.countP_map]
  · congr 1
    apply List.countP_congr
    intro value hvalue
    have hvalue := h ▸ column.typed value hvalue
    cases value with
    | none => simp [reaches, truthy]
    | int n => simp [reaches, truthy]
    | _ => exact hvalue.elim
  · intro value hvalue
    obtain ⟨value, -, rfl⟩ := List.mem_map.mp hvalue
    cases value <;> trivial
  · rwa [greaterEqual, List.length_map]

theorem countLanguageBuckets_integer (h : ∀ value ∈ values, DataType.integer.Holds value) :
    countLanguageBuckets p values = some ((values.countP (reaches 2) : Int),
      (values.countP (reaches 5) : Int), (values.countP (reaches 10) : Int)) := by
  induction values with
  | nil => rfl
  | cons value values ih =>
    have ih := ih (fun v hv => h v (List.mem_cons_of_mem value hv))
    have hvalue := h value List.mem_cons_self
    unfold countLanguageBuckets at ih ⊢
    rw [sumM, ih]
    cases value with
    | none => simp [reaches]
    | int n =>
      simp only [List.countP_cons, reaches, atLeast, decide_eq_true_eq]
      by_cases h2 : (2 : Int) ≤ n <;> by_cases h5 : (5 : Int) ≤ n <;>
        by_cases h10 : (10 : Int) ≤ n <;> simp [h2, h5, h10, add_comm]
    | _ => exact hvalue.elim

theorem countLanguageBucketColumn_eq (hlength : (column.toPylist.length : Int) < 2 ^ 63) :
    countLanguageBucketColumn p k column = countLanguageBuckets p column.toPylist := by
  unfold countLanguageBucketColumn
  split
  next h =>
    rw [countLanguageBuckets_integer (fun value hvalue => h ▸ column.typed value hvalue)]
    simp only [countAtLeast_eq p h hlength]
  next => rfl

theorem sumNumeric_integer (h : ∀ value ∈ values, DataType.integer.Holds value) :
    sumNumeric p values = some (total values) := by
  induction values with
  | nil => rfl
  | cons value values ih =>
    have ih := ih (fun v hv => h v (List.mem_cons_of_mem value hv))
    have hvalue := h value List.mem_cons_self
    unfold sumNumeric at ih ⊢
    rw [sumM, ih]
    cases value with
    | none => simp [total, List.filterMap_cons, Value.number]
    | int n => simp [total, Value.number, toInt]
    | _ => exact hvalue.elim

theorem sumNumericColumn_eq (hrange : column.dataType = .integer → InRange (total column.toPylist)) :
    sumNumericColumn p k column = sumNumeric p column.toPylist := by
  unfold sumNumericColumn
  split
  next h =>
    rw [scalarInt_sum (hrange h),
      sumNumeric_integer (fun value hvalue => h ▸ column.typed value hvalue)]
  next => rfl

/-! ## Frequencies -/

/-- What a value counts, as often as it occurs. -/
theorem sum_valueCounts (f : Value O → Option (Multiset String)) (values : List (Value O)) :
    sumM (fun pair => (f pair.1).map (pair.2 • ·)) (k.valueCounts values) = sumM f values :=
  sumM_frequencies f (k.valueCounts_nodup values) (k.mem_valueCounts_iff values)

theorem counterOfPairs_eq {pairs : List (String × Nat)} (h : (pairs.map Prod.fst).Nodup) :
    counterOfPairs pairs = (pairs.map (fun pair => Multiset.replicate pair.2 pair.1)).sum := by
  suffices hstart : ∀ start : Multiset String, (∀ pair ∈ pairs, pair.1 ∉ start) →
      pairs.foldl (fun counts pair =>
        counts.filter (· ≠ pair.1) + Multiset.replicate pair.2 pair.1) start
      = start + (pairs.map (fun pair => Multiset.replicate pair.2 pair.1)).sum by
    simpa [counterOfPairs] using hstart 0 (by simp)
  induction pairs with
  | nil => simp
  | cons pair pairs ih =>
    intro start hnew
    rw [List.map_cons, List.nodup_cons] at h
    have hkeep : start.filter (· ≠ pair.1) = start :=
      Multiset.filter_eq_self.mpr (fun s hs heq => hnew pair List.mem_cons_self (heq ▸ hs))
    rw [List.foldl_cons, hkeep, ih h.2, List.map_cons, List.sum_cons, add_assoc]
    -- the keys are distinct
    intro later hlater hmem
    rcases Multiset.mem_add.mp hmem with hmem | hmem
    · exact hnew later (List.mem_cons_of_mem pair hlater) hmem
    · rw [← Multiset.eq_of_mem_replicate hmem] at h
      exact h.1 (List.mem_map_of_mem hlater)

/-- The string of a value that counts. -/
def valueString (p : Builtins O J) (value : Value O) : Multiset String :=
  if truthy p value then {str p value} else 0

omit [DecidableEq O] in
theorem countPythonValueStrings_eq (values : List (Value O)) :
    countPythonValueStrings p values = (values.map (valueString p)).sum := by
  induction values with
  | nil => rfl
  | cons value values ih =>
    rw [List.map_cons, List.sum_cons, ← ih, countPythonValueStrings, List.filter_cons, valueString]
    split
    · rfl
    · exact (zero_add _).symm

omit [DecidableEq O] in
/-- A serialized column has strings, or it has bytes. -/
theorem serialized_cases (h : column.dataType.isSerializedString) :
    (∀ value ∈ column.toPylist, truthy p value → ∃ s, value = .str s)
      ∨ ∀ value ∈ column.toPylist, truthy p value → ∃ bs, value = .bytes bs := by
  rcases of_decide_eq_true h with hdata | hdata
  · refine .inl (fun value hvalue htruthy => ?_)
    have hvalue := hdata ▸ column.typed value hvalue
    cases value with
    | str s => exact ⟨s, rfl⟩
    | none => cases htruthy
    | _ => exact hvalue.elim
  · refine .inr (fun value hvalue htruthy => ?_)
    have hvalue := hdata ▸ column.typed value hvalue
    cases value with
    | bytes bs => exact ⟨bs, rfl⟩
    | none => cases htruthy
    | _ => exact hvalue.elim

omit [DecidableEq O] in
/-- Values that count have texts of their own. -/
theorem str_injective (h : column.dataType.isSerializedString) {value value' : Value O}
    (hvalue : value ∈ column.toPylist) (hvalue' : value' ∈ column.toPylist)
    (htruthy : truthy p value) (htruthy' : truthy p value') (heq : str p value = str p value') :
    value = value' := by
  rcases serialized_cases (p := p) h with hall | hall
  · obtain ⟨s, rfl⟩ := hall value hvalue htruthy
    obtain ⟨s', rfl⟩ := hall value' hvalue' htruthy'
    exact congrArg Value.str heq
  · obtain ⟨bs, rfl⟩ := hall value hvalue htruthy
    obtain ⟨bs', rfl⟩ := hall value' hvalue' htruthy'
    exact congrArg Value.bytes (p.strBytes_injective heq)

theorem countValueStrings_eq : countValueStrings p k column
    = countPythonValueStrings p column.toPylist := by
  unfold countValueStrings
  split
  next h =>
    have hnodup : ((((k.valueCounts column.toPylist).filter (fun pair => truthy p pair.1)).map
        (fun pair => (str p pair.1, pair.2))).map Prod.fst).Nodup := by
      rw [List.map_map]
      refine List.Nodup.map_on ?_ (((k.valueCounts_nodup column.toPylist).of_map).filter _)
      rintro ⟨value, n⟩ hpair ⟨value', n'⟩ hpair' heq
      obtain ⟨hpair, htruthy⟩ := List.mem_filter.mp hpair
      obtain ⟨hpair', htruthy'⟩ := List.mem_filter.mp hpair'
      obtain ⟨hvalue, hn⟩ := (k.mem_valueCounts_iff _ _ _).mp hpair
      obtain ⟨hvalue', hn'⟩ := (k.mem_valueCounts_iff _ _ _).mp hpair'
      have hsame : value = value' := str_injective h hvalue hvalue' htruthy htruthy' heq
      rw [hn, hn', hsame]
    have hpairs : ∀ pairs : List (Value O × Nat),
        (((pairs.filter (fun pair => truthy p pair.1)).map
          (fun pair => (str p pair.1, pair.2))).map
            (fun pair => Multiset.replicate pair.2 pair.1)).sum
        = (pairs.map (fun pair => pair.2 • valueString p pair.1)).sum := by
      intro pairs
      induction pairs with
      | nil => rfl
      | cons pair pairs ih =>
        rw [List.map_cons, List.sum_cons, ← ih, List.filter_cons, valueString]
        split
        · rw [Multiset.nsmul_singleton]
          rfl
        · rw [smul_zero, zero_add]
    have hsum := sum_valueCounts (k := k) (fun value => some (valueString p value)) column.toPylist
    simp only [Option.map_some] at hsum
    rw [sumM_eq_some (fun _ _ => rfl), sumM_eq_some (fun _ _ => rfl)] at hsum
    rw [counterOfPairs_eq hnodup, hpairs, countPythonValueStrings_eq]
    exact Option.some.inj hsum
  next => rfl

/-! ## The language cache -/

variable (p) in
/-- The cache has the languages of its values. -/
structure SoundCache (cache : LanguageCache O) : Prop where
  entries : ∀ entry ∈ cache, languagesOf p entry.1 = some entry.2
  bounded : cache.length ≤ languageCacheMaxEntries

variable (p) in
/-- What is computed with the cache. -/
def Fills {A : Type} (result : A × LanguageCache O) (a : A) : Prop :=
  result.1 = a ∧ SoundCache p result.2

theorem serializedLanguageValue_cases (value : Value O) :
    (serializedLanguageValue value = none ∧ languagesOf p value = some [])
      ∨ (serializedLanguageValue value = some value ∧ languagesOf p value
        = (decodedLanguageList p value).map (fun languages => languages.map p.strJson)) := by
  cases value with
  | str s =>
    by_cases hempty : s = "" ∨ s = "[]"
    · rcases hempty with rfl | rfl <;>
        simp [serializedLanguageValue, languagesOf, parseLanguageList, truthy]
    · rw [not_or] at hempty
      simp [serializedLanguageValue, languagesOf, parseLanguageList, truthy, hempty]
  | bytes bs =>
    by_cases hempty : bs = []
    · simp [serializedLanguageValue, languagesOf, parseLanguageList, truthy, hempty]
    · simp [serializedLanguageValue, languagesOf, parseLanguageList, truthy, hempty]
  | _ => simp [serializedLanguageValue, languagesOf, parseLanguageList]

theorem cachedLanguages_fills (h : SoundCache p cache) (value : Value O) :
    Option.Rel (Fills p) (cachedLanguages p value cache) (languagesOf p value) := by
  unfold cachedLanguages
  rcases serializedLanguageValue_cases (p := p) value with ⟨hserialized, hplain⟩ | ⟨hserialized, hplain⟩
  · rw [hserialized, hplain]
    exact .some ⟨rfl, h⟩
  · rw [hserialized]
    cases hlookup : cache.lookup value with
    | some cached =>
      rw [h.entries (value, cached) (Python.mem_of_lookup_eq_some hlookup)]
      simp only [hlookup]
      exact .some ⟨rfl, h⟩
    | none =>
      simp only [hlookup, decodeLanguages]
      rw [hplain]
      cases hdecoded : decodedLanguageList p value with
      | none => exact .none
      | some decoded =>
        rw [hdecoded] at hplain
        refine .some ⟨rfl, ?_⟩
        show SoundCache p (if _ then _ else _)
        split
        · refine ⟨fun entry hentry => ?_, ?_⟩
          · rcases List.mem_append.mp hentry with hentry | hentry
            · exact h.entries entry hentry
            · rw [List.mem_singleton.mp hentry]
              exact hplain
          · rw [List.length_append]
            assumption
        · exact h

theorem rel_bind {A B C D : Type} {R : A → B → Prop} {S : C → D → Prop} {x : Option A} {y : Option B}
    {f : A → Option C} {g : B → Option D} (h : Option.Rel R x y)
    (hf : ∀ a b, R a b → Option.Rel S (f a) (g b)) : Option.Rel S (x.bind f) (y.bind g) := by
  cases h with
  | none => exact .none
  | some h => exact hf _ _ h

theorem foldlM_countLanguages (pairs : List (Value O × Nat)) (h : SoundCache p cache)
    (start : Multiset String) :
    Option.Rel (Fills p) (pairs.foldlM (countLanguages p) (start, cache))
      ((sumM (fun pair => ((languagesOf p pair.1).map Multiset.ofList).map (pair.2 • ·))
        pairs).map (start + ·)) := by
  induction pairs generalizing start cache with
  | nil => exact .some ⟨(add_zero start).symm, h⟩
  | cons pair pairs ih =>
    rw [List.foldlM_cons, sumM, countLanguages, Option.map_map, Option.bind_map, Option.map_bind]
    show Option.Rel _ (Option.bind _ _) _
    rw [Option.bind_map]
    refine rel_bind (cachedLanguages_fills h pair.1) (fun found languages hfills => ?_)
    obtain ⟨rfl, hcache⟩ := hfills
    simpa [Function.comp_def, add_assoc] using ih hcache (start + pair.2 • Multiset.ofList found.1)

theorem countPolygonLanguageColumn_fills (h : SoundCache p cache) :
    Option.Rel (Fills p) (countPolygonLanguageColumn p k column cache)
      (countPolygonLanguages p column.toPylist) := by
  unfold countPolygonLanguageColumn
  split
  · have hpairs := foldlM_countLanguages (k.valueCounts column.toPylist) h 0
    rw [sum_valueCounts (fun value => (languagesOf p value).map Multiset.ofList)] at hpairs
    simpa [countPolygonLanguages] using hpairs
  · cases countPolygonLanguages p column.toPylist with
    | none => exact .none
    | some counts => exact .some ⟨rfl, h⟩

/-! ## The rows of several tables -/

theorem Counters.add_add (a b : Counters) : (a.add b).add = a.add ∘ b.add := by
  funext c
  simp only [Counters.add, add_assoc, Finset.union_assoc, Function.comp_apply]

omit [DecidableEq O] in
theorem countNonEnglish_append {wikipedia english : List (Value O)}
    (h : wikipedia.length = english.length) (wikipedia' english' : List (Value O)) :
    countNonEnglish p (wikipedia ++ wikipedia') (english ++ english')
      = (countNonEnglish p wikipedia english).bind
        (fun n => (countNonEnglish p wikipedia' english').map (n + ·)) := by
  unfold countNonEnglish
  by_cases h' : wikipedia'.length = english'.length
  · simp [h, h', List.zip_append h]
  · simp [h, h']

theorem countPolygonRows_append {a : String → List (Value O)}
    (h : (a "has_wikipedia").length = (a "has_english_wikipedia").length)
    (b : String → List (Value O)) :
    countPolygonRows p (fun name => a name ++ b name)
      = (countPolygonRows p a).bind (fun c => (countPolygonRows p b).map c.add) := by
  have hbuckets : ∀ values values' : List (Value O), countLanguageBuckets p (values ++ values')
      = (countLanguageBuckets p values).bind
        (fun n => (countLanguageBuckets p values').map (n + ·)) :=
    fun _ _ => sumM_append _ _ _
  have hlanguages : ∀ values values' : List (Value O), countPolygonLanguages p (values ++ values')
      = (countPolygonLanguages p values).bind
        (fun n => (countPolygonLanguages p values').map (n + ·)) :=
    fun _ _ => sumM_append _ _ _
  simp only [countPolygonRows, countNonEnglish_append h, hbuckets, hlanguages,
    updateUniqueValues_append, countTruthy, List.countP_append, List.length_append, Nat.cast_add]
  -- the order of the exceptions does not matter
  rcases countNonEnglish p (a "has_wikipedia") _ with _ | _ <;>
    rcases countNonEnglish p (b "has_wikipedia") _ with _ | _ <;>
    rcases countLanguageBuckets p (a _) with _ | _ <;>
    rcases countLanguageBuckets p (b _) with _ | _ <;>
    rcases countPolygonLanguages p (a _) with _ | _ <;>
    rcases countPolygonLanguages p (b _) with _ | _ <;> rfl

theorem countArticleRows_append (a b : String → List (Value O)) :
    countArticleRows p (fun name => a name ++ b name)
      = (countArticleRows p a).bind (fun c => (countArticleRows p b).map c.add) := by
  have hsum : ∀ values values' : List (Value O), sumNumeric p (values ++ values')
      = (sumNumeric p values).bind (fun n => (sumNumeric p values').map (n + ·)) :=
    fun _ _ => sumM_append _ _ _
  have hstrings : ∀ values values' : List (Value O), countPythonValueStrings p (values ++ values')
      = countPythonValueStrings p values + countPythonValueStrings p values' := by
    simp [countPythonValueStrings]
  simp only [countArticleRows, hsum, hstrings, List.length_append, Nat.cast_add]
  rcases sumNumeric p (a "article_length_words") with _ | _ <;>
    rcases sumNumeric p (b "article_length_words") with _ | _ <;>
    rcases sumNumeric p (a _) with _ | _ <;> rcases sumNumeric p (b _) with _ | _ <;> rfl

/-! ## Equality -/

variable (p) in
/-- The counters, with a sound cache. -/
def Counts (stats : StatsAccumulator O) (c : Counters) : Prop :=
  stats.counters = c ∧ SoundCache p stats.languageLists

/-- The sums over the table are in range: they are numbers of rows. -/
def Table.CountsInRange (table : Table O) : Prop := (table.numRows : Int) < 2 ^ 63

variable {stats : StatsAccumulator O}

theorem accumulatePolygonTable_counts {table : Table O} (h : SoundCache p stats.languageLists)
    (hrange : table.CountsInRange) :
    Option.Rel (Counts p) (accumulatePolygonTable p k stats table)
      ((countPolygonRows p (fun name => (table.column name).toPylist)).map stats.counters.add) := by
  have hlength : ∀ name, ((table.column name).toPylist.length : Int) < 2 ^ 63 :=
    fun name => (table.aligned name).symm ▸ hrange
  have haligned := (table.aligned "has_wikipedia").trans
    (table.aligned "has_english_wikipedia").symm
  have hlanguages : Option.Rel (Fills p)
      (countPolygonLanguageColumn p k (table.column "wikipedia_languages") stats.languageLists)
      (countPolygonLanguages p (table.column "wikipedia_languages").toPylist) :=
    countPolygonLanguageColumn_fills h
  simp only [accumulatePolygonTable, countPolygonRows,
    countNonEnglishColumns_eq haligned (hlength _), countLanguageBucketColumn_eq (hlength _),
    countTruthyColumn_eq (hlength _), updateUniqueValues_column, table.aligned "wikidata"]
  rcases countNonEnglish p (table.column "has_wikipedia").toPylist _ with _ | nonEnglish
  · exact .none
  rcases countLanguageBuckets p (table.column _).toPylist with _ | buckets
  · exact .none
  simp only [Option.bind_eq_bind, Option.bind_some, Option.map_bind]
  refine rel_bind hlanguages (fun found languages hfills => ?_)
  obtain ⟨rfl, hcache⟩ := hfills
  exact .some ⟨by simp [Counters.add, Counters.zero], hcache⟩

/-- The integer sums over the table are in range. -/
def Table.SumsInRange (table : Table O) : Prop :=
  ∀ name ∈ ["article_length_words", "article_length_tokens_estimate"],
    (table.column name).dataType = .integer → InRange (total (table.column name).toPylist)

theorem accumulateArticleTable_counts {table : Table O} (h : SoundCache p stats.languageLists)
    (hrange : table.SumsInRange) :
    Option.Rel (Counts p) (accumulateArticleTable p k stats table)
      ((countArticleRows p (fun name => (table.column name).toPylist)).map stats.counters.add) := by
  simp only [accumulateArticleTable, countArticleRows,
    sumNumericColumn_eq (hrange "article_length_words" (by simp)),
    sumNumericColumn_eq (hrange "article_length_tokens_estimate" (by simp)),
    countValueStrings_eq, table.aligned "language"]
  rcases sumNumeric p (table.column "article_length_words").toPylist with _ | words
  · exact .none
  rcases sumNumeric p (table.column _).toPylist with _ | tokens
  · exact .none
  exact .some ⟨by simp [Counters.add, Counters.zero], h⟩

/-- Tables that each add the counters of their rows add the counters of all rows. -/
theorem foldlM_counts {step : StatsAccumulator O → Table O → Option (StatsAccumulator O)}
    {count : (String → List (Value O)) → Option Counters}
    (hnil : count (rowsOf []) = some Counters.zero)
    (hcons : ∀ (table : Table O) (tables : List (Table O)), count (rowsOf (table :: tables))
      = (count (fun name => (table.column name).toPylist)).bind
        (fun c => (count (rowsOf tables)).map c.add)) {tables : List (Table O)}
    (hstep : ∀ table ∈ tables, ∀ stats, SoundCache p stats.languageLists →
      Option.Rel (Counts p) (step stats table)
        ((count (fun name => (table.column name).toPylist)).map stats.counters.add))
    (h : SoundCache p stats.languageLists) :
    Option.Rel (Counts p) (tables.foldlM step stats)
      ((count (rowsOf tables)).map stats.counters.add) := by
  induction tables generalizing stats with
  | nil =>
    rw [hnil]
    exact .some ⟨by simp [Counters.add, Counters.zero], h⟩
  | cons table tables ih =>
    have hmap : ((count (fun name => (table.column name).toPylist)).bind
          (fun c => (count (rowsOf tables)).map c.add)).map stats.counters.add
        = ((count (fun name => (table.column name).toPylist)).map stats.counters.add).bind
          (fun c => (count (rowsOf tables)).map c.add) := by
      rw [Option.map_bind, Option.bind_map]
      simp only [Function.comp_def, Option.map_map, Counters.add_add]
    rw [List.foldlM_cons, hcons, hmap]
    refine rel_bind (hstep table List.mem_cons_self stats h) (fun stats' c hcounts => ?_)
    rw [← hcounts.1]
    exact ih (fun later hlater => hstep later (List.mem_cons_of_mem table hlater)) hcounts.2

theorem map_counters {fast : Option (StatsAccumulator O)} {plain : Option Counters}
    (h : Option.Rel (Counts p) fast plain) : fast.map StatsAccumulator.counters = plain := by
  cases h with
  | none => rfl
  | some h => exact congrArg some h.1

/-- The columnar counters are those of all rows. -/
theorem accumulateTables_eq (p : Builtins O J) (k : Kernels O) {polygons articles : List (Table O)}
    (hpolygons : ∀ table ∈ polygons, table.CountsInRange)
    (harticles : ∀ table ∈ articles, table.SumsInRange) :
    (accumulateTables p k polygons articles).map StatsAccumulator.counters
      = (countPolygonRows p (rowsOf polygons)).bind
        (fun c => (countArticleRows p (rowsOf articles)).map c.add) := by
  have hpolygonCounts : Option.Rel (Counts p)
      (polygons.foldlM (accumulatePolygonTable p k) ⟨Counters.zero, []⟩)
      ((countPolygonRows p (rowsOf polygons)).map Counters.zero.add) := by
    refine foldlM_counts rfl ?_ ?_ ⟨by simp, by simp⟩
    · intro table tables
      have haligned := (table.aligned "has_wikipedia").trans
        (table.aligned "has_english_wikipedia").symm
      exact countPolygonRows_append haligned (rowsOf tables)
    · intro table htable stats h
      exact accumulatePolygonTable_counts h (hpolygons table htable)
  have harticleCounts : ∀ stats : StatsAccumulator O, SoundCache p stats.languageLists →
      Option.Rel (Counts p) (articles.foldlM (accumulateArticleTable p k) stats)
        ((countArticleRows p (rowsOf articles)).map stats.counters.add) := by
    intro stats h
    refine foldlM_counts rfl ?_ ?_ h
    · exact fun table tables => countArticleRows_append _ (rowsOf tables)
    · intro table htable stats h
      exact accumulateArticleTable_counts h (harticles table htable)
  have hzero : Counters.zero.add = id := by
    funext c
    simp [Counters.add, Counters.zero]
  rw [hzero, Option.map_id] at hpolygonCounts
  exact map_counters (rel_bind hpolygonCounts (fun stats c h => h.1 ▸ harticleCounts stats h.2))

end

/-! ## An example -/

namespace Example

def builtins : Builtins Empty String where
  truthy := nofun
  str := nofun
  strBytes bs := String.ofList (bs.map (fun b => Char.ofNat b.toNat))
  strBytes_injective := by
    intro bs bs' h
    have hchars := String.ofList_injective h
    refine List.map_injective_iff.mpr (fun b b' hb => ?_) hchars
    have hvalid : ∀ b : UInt8, b.toNat.isValidChar := fun b => .inl (b.toNat_lt.trans (by decide))
    have hnat := congrArg Char.toNat hb
    rw [Char.ofNat, Char.ofNat, dif_pos (hvalid b), dif_pos (hvalid b')] at hnat
    exact UInt8.toNat_inj.mp hnat
  atLeast := nofun
  int := nofun
  intStr _ := none
  intBytes _ := none
  loads value := if value = .str "[\"en\"]" then .list ["en"] else .valueError
  strJson := id

def kernels : Kernels Empty where
  unique values := values.dedup
  mem_unique_iff _ _ := List.mem_dedup
  valueCounts values := values.dedup.map (fun value => (value, values.count value))
  valueCounts_nodup values := by simpa [Function.comp_def] using values.nodup_dedup
  mem_valueCounts_iff values value n := by
    simp only [List.mem_map, List.mem_dedup, Prod.mk.injEq]
    constructor
    · rintro ⟨value, h, rfl, rfl⟩
      exact ⟨h, rfl⟩
    · rintro ⟨h, hn⟩
      exact ⟨value, h, rfl, hn.symm⟩
  sum values := if values.filterMap Value.number = [] then none else some (total values)
  sum_eq _ _ := rfl

/-- A table with two rows in two chunks: numbers, and the same list of languages twice. -/
def table : Table Empty where
  numRows := 2
  column name :=
    if name = "article_length_words" ∨ name = "wikipedia_language_count" then
      ⟨.integer, [[.int 7], [.none]], by simp [DataType.Holds]⟩
    else ⟨.string, [[.str "[\"en\"]"], [.str "[\"en\"]"]], by simp [DataType.Holds]⟩
  aligned name := by
    split <;> rfl

/-- The same table as two files. -/
theorem twoFiles_counters :
    (accumulateTables builtins kernels [table, table] [table]).map StatsAccumulator.counters
      = (countPolygonRows builtins (rowsOf [table, table])).bind
        (fun c => (countArticleRows builtins (rowsOf [table])).map c.add) := by
  refine accumulateTables_eq builtins kernels (by simp [Table.CountsInRange, table]) ?_
  simp [Table.SumsInRange, table, total, Column.toPylist, List.filterMap_cons, Value.number,
    InRange]

end Example

end OsmPolygonWikidata.ColumnCounters
