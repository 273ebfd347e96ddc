import Mathlib.Data.String.Basic
import Mathlib.Tactic

/-! # JSON values in Python

What `json.loads` returns: its truth, its `str`, and the text that `json.dumps` writes with sorted
keys and no blanks. A number is given by the text that `str` makes of it, so that `1` and `1.0` are
different values.
-/

namespace Python

/-- A JSON value. An object has each key once. -/
inductive JsonValue where
  | null
  | bool (value : Bool)
  | number (text : String)
  | string (text : String)
  | array (items : List JsonValue)
  | object (fields : List (String × JsonValue))

namespace JsonValue

/-- `bool(value)`. -/
def truth : JsonValue → Bool
  | null => false
  | bool value => value
  | number text => text ∉ ["0", "0.0", "-0.0"]
  | string text => text ≠ ""
  | array items => items ≠ []
  | object fields => fields ≠ []

/-- `str(value)`. How an array or an object with members is shown is a parameter. -/
def str (repr : JsonValue → String) : JsonValue → String
  | null => "None"
  | bool value => if value then "True" else "False"
  | number text => text
  | string text => text
  | array [] => "[]"
  | object [] => "\x7b\x7d"
  | value => repr value

theorem str_of_truth (repr : JsonValue → String) {value : JsonValue} (h : value.truth = false) :
    value.str repr ∈ ["None", "False", "0", "0.0", "-0.0", "", "[]", "\x7b\x7d"] := by
  match value with
  | null => simp [str]
  | bool true => cases h
  | bool false => simp [str]
  | number text =>
    have hzero : text = "0" ∨ text = "0.0" ∨ text = "-0.0" := by
      simpa [truth, or_iff_not_imp_left] using h
    rcases hzero with rfl | rfl | rfl <;> simp [str]
  | string text =>
    have hempty : text = "" := by simpa [truth] using h
    simp [str, hempty]
  | array [] => simp [str]
  | array (item :: items) => simp [truth] at h
  | object [] => simp [str]
  | object (field :: fields) => simp [truth] at h

/-! ## What `json.dumps` writes -/

/-- A character inside a JSON string, with `ensure_ascii=False`. -/
def escape (c : Char) : String :=
  if c = '"' then "\\\""
  else if c = '\\' then "\\\\"
  else if c = '\n' then "\\n"
  else if c = '\r' then "\\r"
  else if c = '\t' then "\\t"
  else if c.toNat = 8 then "\\b"
  else if c.toNat = 12 then "\\f"
  else if c.toNat < 32 then
    "\\u00" ++ String.ofList [Nat.digitChar (c.toNat / 16), Nat.digitChar (c.toNat % 16)]
  else String.ofList [c]

def quote (text : String) : String := "\"" ++ String.join (text.toList.map escape) ++ "\""

/-- A member of an object: the key and what is written of its value. -/
def member (field : String × String) : String := quote field.1 ++ ":" ++ field.2

mutual

/-- `json.dumps(value, ensure_ascii=False, sort_keys=True, separators=(",", ":"))`. -/
def dumps : JsonValue → String
  | null => "null"
  | bool value => if value then "true" else "false"
  | number text =>
    if text = "nan" then "NaN"
    else if text = "inf" then "Infinity"
    else if text = "-inf" then "-Infinity"
    else text
  | string text => quote text
  | array items => "[" ++ ",".intercalate (dumpsItems items) ++ "]"
  | object fields =>
    "\x7b" ++ ",".intercalate (((dumpsFields fields).insertionSort
      (fun a b => a.1 ≤ b.1)).map member) ++ "\x7d"

def dumpsItems : List JsonValue → List String
  | [] => []
  | item :: items => dumps item :: dumpsItems items

def dumpsFields : List (String × JsonValue) → List (String × String)
  | [] => []
  | (key, value) :: fields => (key, dumps value) :: dumpsFields fields

end

theorem length_dumpsFields (fields : List (String × JsonValue)) :
    (dumpsFields fields).length = fields.length := by
  induction fields with
  | nil => rfl
  | cons field fields ih =>
    obtain ⟨key, value⟩ := field
    show (dumpsFields fields).length + 1 = fields.length + 1
    rw [ih]

theorem head_eq_empty_of_intercalate {separator text : String} {texts : List String}
    (h : separator.intercalate (text :: texts) = "") : text = "" := by
  cases texts with
  | nil => rwa [String.intercalate_singleton] at h
  | cons next texts =>
    rw [String.intercalate_cons_cons, String.append_eq_empty_iff] at h
    exact (String.append_eq_empty_iff.mp h.1).1

theorem dumps_object_eq_empty_iff {fields : List (String × JsonValue)} :
    dumps (object fields) = dumps (object []) ↔ fields = [] := by
  refine ⟨fun h => ?_, fun h => by rw [h]⟩
  have hlength := (List.perm_insertionSort (fun a b : String × String => a.1 ≤ b.1)
    (dumpsFields fields)).length_eq
  rw [length_dumpsFields] at hlength
  cases hsorted : (dumpsFields fields).insertionSort (fun a b => a.1 ≤ b.1) with
  | nil =>
    rw [hsorted] at hlength
    exact List.length_eq_zero_iff.mp hlength.symm
  | cons field sorted =>
    unfold dumps at h
    rw [String.append_left_inj, String.append_right_inj, hsorted, List.map_cons] at h
    have hmember : member field = "" := head_eq_empty_of_intercalate h
    -- the key has its quotation marks
    simp [member, quote] at hmember

end JsonValue

end Python
