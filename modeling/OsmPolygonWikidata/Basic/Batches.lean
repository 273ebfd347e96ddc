import Mathlib.Tactic

/-! # Batches of work

Cutting a list into chunks loses nothing and keeps the order, and taking the chunks of several
lists in turn takes each of them.
-/

namespace Python

variable {A K : Type}

/-! ## Chunks -/

/-- The slices `items[start : start + size]`, for `start` in `range(0, len(items), size)`. -/
def chunks (items : List A) (size : Nat) : List (List A) :=
  (List.range ((items.length + size - 1) / size)).map
    (fun index => (items.drop (index * size)).take size)

theorem flatten_take_drop (items : List A) (size n : Nat) :
    ((List.range n).map (fun index => (items.drop (index * size)).take size)).flatten
      = items.take (n * size) := by
  induction n with
  | zero => simp
  | succ n ih =>
    rw [List.range_succ, List.map_append, List.flatten_append, ih, Nat.succ_mul, List.take_add]
    simp

theorem flatten_chunks (items : List A) {size : Nat} (hsize : 1 ≤ size) :
    (chunks items size).flatten = items := by
  rw [chunks, flatten_take_drop, List.take_of_length_le]
  -- the last chunk reaches the end
  have hlast : items.length + size - 1 < ((items.length + size - 1) / size + 1) * size := by
    rw [mul_comm]
    exact Nat.lt_mul_div_succ _ hsize
  rw [Nat.succ_mul] at hlast
  omega

/-! ## Taking turns -/

/-- The first elements of all groups, then the second ones, and so on. -/
def roundRobin (groups : List (K × List A)) : List (K × A) :=
  (List.range ((groups.map (fun group => group.2.length)).foldl max 0)).flatMap
    (fun index => groups.filterMap (fun group => (group.2[index]?).map (fun a => (group.1, a))))

theorem start_le_foldl_max (lengths : List Nat) (start : Nat) :
    start ≤ lengths.foldl max start := by
  induction lengths generalizing start with
  | nil => exact le_rfl
  | cons m lengths ih => exact (le_max_left start m).trans (ih (max start m))

theorem le_foldl_max {lengths : List Nat} {n : Nat} (h : n ∈ lengths) (start : Nat) :
    n ≤ lengths.foldl max start := by
  induction lengths generalizing start with
  | nil => cases h
  | cons m lengths ih =>
    rcases List.mem_cons.mp h with rfl | h
    · calc n ≤ max start n := le_max_right start n
        _ ≤ lengths.foldl max (max start n) := start_le_foldl_max lengths (max start n)
    · exact ih h (max start m)

theorem mem_roundRobin_iff {groups : List (K × List A)} {key : K} {a : A} :
    (key, a) ∈ roundRobin groups ↔ ∃ as, (key, as) ∈ groups ∧ a ∈ as := by
  simp only [roundRobin, List.mem_flatMap, List.mem_range, List.mem_filterMap]
  constructor
  · rintro ⟨index, -, ⟨key', as⟩, hgroup, hturn⟩
    obtain ⟨a', hget, heq⟩ := Option.map_eq_some_iff.mp hturn
    cases heq
    exact ⟨as, hgroup, List.mem_of_getElem? hget⟩
  · rintro ⟨as, hgroup, ha⟩
    obtain ⟨index, hindex, hget⟩ := List.getElem_of_mem ha
    have hlength : as.length ∈ groups.map (fun group => group.2.length) :=
      List.mem_map.mpr ⟨(key, as), hgroup, rfl⟩
    refine ⟨index, ?_, (key, as), hgroup, ?_⟩
    · calc index < as.length := hindex
        _ ≤ (groups.map (fun group => group.2.length)).foldl max 0 := le_foldl_max hlength 0
    · rw [List.getElem?_eq_getElem hindex, hget]
      rfl

end Python
