import Mathlib.Data.List.Basic

/-! # Python strings and exceptions

The string functions of Python that the modelled code uses, on Lean's strings of code points, and
how a computation that may raise is taken apart.
-/

namespace Python

/-- `str(value)` of a nullable column. -/
def pyStr : Option String → String
  | none => "None"
  | some s => s

/-- The characters `str.split` takes for white space. -/
def isSpace (c : Char) : Bool :=
  (9 ≤ c.toNat && c.toNat ≤ 13) || (28 ≤ c.toNat && c.toNat ≤ 32) || c.toNat = 0x85
    || c.toNat = 0xA0 || c.toNat = 0x1680 || (0x2000 ≤ c.toNat && c.toNat ≤ 0x200A)
    || c.toNat = 0x2028 || c.toNat = 0x2029 || c.toNat = 0x202F || c.toNat = 0x205F
    || c.toNat = 0x3000

/-- `str.split()`: the maximal runs of characters that are no white space. `word` is the run in
progress, reversed. -/
def splitWords : List Char → List Char → List (List Char)
  | [], word => if word = [] then [] else [word.reverse]
  | c :: cs, word =>
    if isSpace c then
      if word = [] then splitWords cs [] else word.reverse :: splitWords cs []
    else splitWords cs (c :: word)

variable {E F A B : Type}

theorem bind_eq_ok {x : Except E A} {f : A → Except E B} {b : B} :
    x >>= f = .ok b ↔ ∃ a, x = .ok a ∧ f a = .ok b := by
  cases x with
  | error e =>
    constructor
    · intro h
      cases h
    · rintro ⟨a, h, -⟩
      cases h
  | ok a =>
    constructor
    · intro h
      exact ⟨a, rfl, h⟩
    · rintro ⟨a', h, hf⟩
      cases h
      exact hf

theorem bind_eq_error {x : Except E A} {f : A → Except E B} {e : E} :
    x >>= f = .error e ↔ x = .error e ∨ ∃ a, x = .ok a ∧ f a = .error e := by
  cases x with
  | error e' =>
    constructor
    · intro h
      cases h
      exact Or.inl rfl
    · rintro (h | ⟨a, h, -⟩) <;> cases h
      rfl
  | ok a =>
    constructor
    · intro h
      exact Or.inr ⟨a, rfl, h⟩
    · rintro (h | ⟨a', h, hf⟩) <;> cases h
      exact hf

theorem exists_bind_eq_ok_iff {x : Except E A} {f : A → Except E B} (h : ∀ a, ∃ b, f a = .ok b) :
    (∃ b, x >>= f = .ok b) ↔ ∃ a, x = .ok a := by
  constructor
  · rintro ⟨b, hb⟩
    obtain ⟨a, ha, -⟩ := bind_eq_ok.mp hb
    exact ⟨a, ha⟩
  · rintro ⟨a, ha⟩
    obtain ⟨b, hb⟩ := h a
    exact ⟨b, bind_eq_ok.mpr ⟨a, ha, hb⟩⟩

theorem mapError_eq_error {x : Except E A} {f : E → F} {e : F} :
    x.mapError f = .error e ↔ ∃ e', x = .error e' ∧ f e' = e := by
  cases x with
  | error e' =>
    constructor
    · intro h
      cases h
      exact ⟨e', rfl, rfl⟩
    · rintro ⟨e'', h, rfl⟩
      cases h
      rfl
  | ok a =>
    constructor
    · intro h
      cases h
    · rintro ⟨e'', h, -⟩
      cases h

theorem mapError_eq_ok {x : Except E A} {f : E → F} {a : A} : x.mapError f = .ok a ↔ x = .ok a := by
  cases x with
  | error e =>
    constructor
    · intro h
      cases h
    · intro h
      cases h
  | ok a' =>
    constructor
    · intro h
      cases h
      rfl
    · intro h
      cases h
      rfl

end Python
