import Mathlib.Data.List.AList
import Mathlib.Data.String.Basic
import OsmPolygonWikidata.Basic.Durable

/-! # Directories of numbered files

Checkpoints store their pieces in files `<stem>00000000.parquet`, `<stem>00000001.parquet` and so
on. A directory of such files is a finite map from numbers to contents. Listing it gives the
files in no particular order; sorting the listing sorts the *names*.

Removing the files of a directory is a loop of single removals, each of which may be the last one
before a kill (`removeAll_wp`).
-/

namespace Durable

/-- The order in which the operating system lists files. -/
structure GlobOrder where
  order : List Nat → List Nat
  perm : ∀ l, (order l).Perm l

/-- `f"{stem}{index:08d}.parquet"`. -/
def numberedName (stem : String) (index : Nat) : String :=
  stem ++ String.ofList (List.leftpad 8 '0' (toString index).toList) ++ ".parquet"

section

variable {A : Type} (stem : String)

/-- The numbers of the files in the order of their names. -/
def sortedIndexes (files : AList (fun _ : Nat => A)) : List Nat :=
  files.keys.insertionSort (fun i j => numberedName stem i ≤ numberedName stem j)

theorem sortedIndexes_perm (files : AList (fun _ : Nat => A)) :
    (sortedIndexes stem files).Perm files.keys :=
  List.perm_insertionSort _ _

variable {stem} {files : AList (fun _ : Nat => A)} {n : Nat}

theorem mem_keys_of_sortedIndexes (h : sortedIndexes stem files = List.range n) (i : Nat) :
    i ∈ files.keys ↔ i < n := by
  rw [← (sortedIndexes_perm stem files).mem_iff, h, List.mem_range]

/-- The contents of the first `n` files. -/
def contents (files : AList (fun _ : Nat => List A)) (n : Nat) : List (List A) :=
  (List.range n).map (fun i => (files.lookup i).getD [])

@[simp] theorem length_contents (files : AList (fun _ : Nat => List A)) (n : Nat) :
    (contents files n).length = n := by
  simp [contents]

theorem getElem?_contents (files : AList (fun _ : Nat => List A)) {n i : Nat} (hi : i < n) :
    (contents files n)[i]? = some ((files.lookup i).getD []) := by
  rw [contents, List.getElem?_map, List.getElem?_range hi]
  rfl

theorem contents_succ (files : AList (fun _ : Nat => List A)) (n : Nat) :
    contents files (n + 1) = contents files n ++ [(files.lookup n).getD []] := by
  simp [contents, List.range_succ]

theorem contents_congr {files files' : AList (fun _ : Nat => List A)} {n : Nat}
    (h : ∀ i < n, files.lookup i = files'.lookup i) : contents files n = contents files' n := by
  unfold contents
  apply List.map_congr_left
  intro i hi
  rw [h i (List.mem_range.mp hi)]

theorem lookup_eq_contents {files : AList (fun _ : Nat => List A)}
    (h : sortedIndexes stem files = List.range n) (i : Nat) :
    files.lookup i = (contents files n)[i]? := by
  by_cases hi : i < n
  · have hmem : i ∈ files := (mem_keys_of_sortedIndexes h i).mpr hi
    obtain ⟨rows, hrows⟩ := Option.isSome_iff_exists.mp (AList.lookup_isSome.mpr hmem)
    rw [getElem?_contents files hi, hrows]
    rfl
  · have hnone : files.lookup i = none :=
      AList.lookup_eq_none.mpr (fun hmem => hi ((mem_keys_of_sortedIndexes h i).mp hmem))
    rw [hnone, List.getElem?_eq_none (by simpa using hi)]

end

/-! ## The order of the names -/

theorem append_lt_append {l₁ l₂ r₁ r₂ : List Char} (hlen : l₁.length = l₂.length)
    (h : l₁ < l₂) : l₁ ++ r₁ < l₂ ++ r₂ := by
  induction l₁ generalizing l₂ with
  | nil =>
    obtain rfl := List.length_eq_zero_iff.mp hlen.symm
    exact absurd h (List.lt_irrefl [])
  | cons a l₁ ih =>
    obtain _ | ⟨b, l₂⟩ := l₂
    · exact absurd h (List.not_lt_nil _)
    · rw [List.cons_append, List.cons_append, List.cons_lt_cons_iff]
      rcases List.cons_lt_cons_iff.mp h with hab | ⟨hab, hl⟩
      · exact Or.inl hab
      · exact Or.inr ⟨hab, ih (Nat.succ.inj hlen) hl⟩

theorem leftpad_toDigits (w i : Nat) : List.leftpad (w + 2) '0' (Nat.toDigits 10 i)
      = List.leftpad (w + 1) '0' (Nat.toDigits 10 (i / 10)) ++ [(i % 10).digitChar] := by
  unfold List.leftpad
  by_cases hi : 10 ≤ i
  · rw [Nat.toDigits_of_base_le (by omega) hi, ← List.append_assoc]
    congr 2
    simp
  · rw [Nat.toDigits_of_lt_base (by omega), Nat.div_eq_of_lt (by omega), Nat.toDigits_zero,
      Nat.mod_eq_of_lt (by omega)]
    congr 1
    simp [List.replicate_succ']

theorem length_leftpad_toDigits {w i : Nat} (hi : i < 10 ^ (w + 1)) :
    (List.leftpad (w + 1) '0' (Nat.toDigits 10 i)).length = w + 1 := by
  rw [List.length_leftpad]
  exact max_eq_left ((Nat.length_toDigits_le_iff (by omega) (by omega)).mpr hi)

theorem leftpad_toDigits_lt {w i j : Nat} (hij : i < j) (hj : j < 10 ^ (w + 1)) :
    List.leftpad (w + 1) '0' (Nat.toDigits 10 i) < List.leftpad (w + 1) '0' (Nat.toDigits 10 j) := by
  have hdigit : ∀ j < 10, ∀ i < j, [i.digitChar] < [j.digitChar] := by decide
  induction w generalizing i j with
  | zero =>
    rw [Nat.toDigits_of_lt_base (by omega), Nat.toDigits_of_lt_base (by omega)]
    exact hdigit j (by omega) i hij
  | succ w ih =>
    have hj' : j / 10 < 10 ^ (w + 1) := by
      rw [Nat.div_lt_iff_lt_mul (by omega)]
      exact hj
    rw [leftpad_toDigits, leftpad_toDigits]
    rcases Nat.lt_or_ge (i / 10) (j / 10) with hlt | hge
    · apply append_lt_append _ (ih hlt hj')
      rw [length_leftpad_toDigits (by omega), length_leftpad_toDigits hj']
    · have heq : i / 10 = j / 10 := by omega
      rw [heq]
      apply List.append_left_lt
      exact hdigit _ (by omega) _ (by omega)

theorem numberedName_lt (stem : String) {i j : Nat} (hij : i < j) (hj : j < 10 ^ 8) :
    numberedName stem i < numberedName stem j := by
  have hdigits : ∀ k : Nat, (toString k).toList = Nat.toDigits 10 k := fun k => Nat.toList_repr
  rw [String.lt_iff_toList_lt]
  unfold numberedName
  simp only [String.toList_append, String.toList_ofList, hdigits]
  apply append_lt_append
  · rw [List.length_append, List.length_append, length_leftpad_toDigits (hij.trans hj),
      length_leftpad_toDigits hj]
  · exact List.append_left_lt (leftpad_toDigits_lt hij hj)

theorem sortedIndexes_eq_range {A : Type} (stem : String) {files : AList (fun _ : Nat => A)}
    {n : Nat} (h : files.keys.Perm (List.range n)) (hn : n ≤ 10 ^ 8) :
    sortedIndexes stem files = List.range n := by
  have htotal : Std.Total (fun i j => numberedName stem i ≤ numberedName stem j) :=
    ⟨fun i j => le_total _ _⟩
  have htrans : IsTrans Nat (fun i j => numberedName stem i ≤ numberedName stem j) :=
    ⟨fun i j k => le_trans⟩
  have hperm := (sortedIndexes_perm stem files).trans h
  have hrange : (List.range n).Pairwise (fun i j => numberedName stem i ≤ numberedName stem j) := by
    apply List.pairwise_lt_range.imp_of_mem
    intro i j _ hj hij
    exact (numberedName_lt stem hij ((List.mem_range.mp hj).trans_le hn)).le
  refine hperm.eq_of_pairwise ?_ (List.pairwise_insertionSort _ _) hrange
  intro i j hi hj hij hji
  have hin := (List.mem_range.mp (hperm.subset hi)).trans_le hn
  have hjn := (List.mem_range.mp hj).trans_le hn
  rcases Nat.lt_trichotomy i j with hlt | heq | hgt
  · exact absurd hji (not_le.mpr (numberedName_lt stem hlt hjn))
  · exact heq
  · exact absurd hij (not_le.mpr (numberedName_lt stem hgt hin))

/-! ## Removing files -/

variable {σ ε A : Type}

/-- `for path in glob: path.unlink()`. -/
def removeAll (erase : Nat → σ → σ) : List Nat → Prog σ ε Unit
  | [] => return ()
  | i :: rest => do
    Prog.step (erase i)
    removeAll erase rest

theorem removeAll_wp {erase : Nat → σ → σ} {K : σ → Prop} (hstep : ∀ i s, K s → K (erase i s))
    {is : List Nat} {s : σ} (h : K s) :
    Prog.wp (removeAll erase is : Prog σ ε Unit)
      (fun _ s' => s' = is.foldl (fun s i => erase i s) s ∧ K s') (fun _ _ => False) K s := by
  induction is generalizing s with
  | nil =>
    simp only [removeAll, Prog.wp_pure]
    exact ⟨rfl, h⟩
  | cons i is ih =>
    simp only [removeAll, Prog.wp_bind, Prog.wp_step]
    exact ⟨h, ih (hstep i s h)⟩

theorem lookup_foldl_erase (is : List Nat) (files : AList (fun _ : Nat => A)) (j : Nat) :
    (is.foldl (fun files i => files.erase i) files).lookup j
      = if j ∈ is then none else files.lookup j := by
  induction is generalizing files with
  | nil => simp
  | cons i is ih =>
    rw [List.foldl_cons, ih]
    by_cases hij : j = i
    · subst hij
      simp [AList.lookup_erase]
    · simp [hij, AList.lookup_erase_ne hij]

theorem lookup_erase_listed (glob : GlobOrder) (files : AList (fun _ : Nat => A)) (j : Nat) :
    ((glob.order files.keys).foldl (fun files i => files.erase i) files).lookup j = none := by
  rw [lookup_foldl_erase]
  split
  · rfl
  · rename_i hj
    rw [(glob.perm _).mem_iff] at hj
    exact AList.lookup_eq_none.mpr hj

end Durable
