import Mathlib.Data.List.DropRight
import Mathlib.Tactic

/-! # Outlines

Positions with levels, some of them shown. The ancestors of a position in the outline are the earlier
positions of smaller level with no position of that level or smaller in between. An outline that is
built from the shown positions only may see an ancestor that a hidden position has closed.
-/

namespace Outline

variable {level : ℕ → ℕ} {shown : ℕ → Prop} {i j k n : ℕ}

/-- `j` is an ancestor of `i`. -/
def Ancestor (level : ℕ → ℕ) (j i : ℕ) : Prop :=
  j < i ∧ level j < level i ∧ ∀ k < i, j < k → level j < level k

/-- `j` is an ancestor of `i` among the shown positions. -/
def ShownAncestor (level : ℕ → ℕ) (shown : ℕ → Prop) (j i : ℕ) : Prop :=
  j < i ∧ level j < level i ∧ shown j ∧ ∀ k < i, j < k → shown k → level j < level k

instance : Decidable (Ancestor level j i) :=
  inferInstanceAs (Decidable (_ ∧ _ ∧ ∀ k < i, j < k → level j < level k))

instance [DecidablePred shown] : Decidable (ShownAncestor level shown j i) :=
  inferInstanceAs (Decidable (_ ∧ _ ∧ _ ∧ ∀ k < i, j < k → shown k → level j < level k))

theorem Ancestor.trans (h : Ancestor level j k) (h' : Ancestor level k i) : Ancestor level j i := by
  obtain ⟨hjk, hlevel, hbetween⟩ := h
  obtain ⟨hki, hlevel', hbetween'⟩ := h'
  refine ⟨hjk.trans hki, hlevel.trans hlevel', fun m hm hjm => ?_⟩
  rcases Nat.lt_trichotomy m k with hmk | rfl | hkm
  · exact hbetween m hmk hjm
  · exact hlevel
  · exact hlevel.trans (hbetween' m hm hkm)

theorem Ancestor.shownAncestor (h : Ancestor level j i) (hj : shown j) :
    ShownAncestor level shown j i :=
  ⟨h.1, h.2.1, hj, fun k hk hjk _ => h.2.2 k hk hjk⟩

theorem ShownAncestor.of_lt (h : ShownAncestor level shown j i)
    (hk : ShownAncestor level shown k i) (hjk : j < k) : ShownAncestor level shown j k :=
  ⟨hjk, h.2.2.2 k hk.1 hjk hk.2.2.1, h.2.2.1,
    fun m hm hjm hshown => h.2.2.2 m (hm.trans hk.1) hjm hshown⟩

theorem ancestor_of_nearest
    (h : ∀ i < n, shown i → ∀ p, ShownAncestor level shown p i →
      (∀ q, ShownAncestor level shown q i → q ≤ p) → Ancestor level p i)
    (hi : i < n) (hshown : shown i) (hj : ShownAncestor level shown j i) : Ancestor level j i := by
  classical
  induction i using Nat.strong_induction_on generalizing j with
  | _ i ih =>
    -- the nearest ancestor is the last one
    obtain ⟨p, hp, hlast⟩ : ∃ p, ShownAncestor level shown p i
        ∧ ∀ q, ShownAncestor level shown q i → q ≤ p := by
      have hfound := Nat.findGreatest_spec (P := fun q => ShownAncestor level shown q i)
        hj.1.le hj
      exact ⟨_, hfound, fun q hq => Nat.le_findGreatest hq.1.le hq⟩
    have hparent := h i hi hshown p hp hlast
    rcases Nat.lt_or_eq_of_le (hlast j hj) with hlt | rfl
    · exact (ih p hp.1 (hp.1.trans hi) hp.2.2.1 (hj.of_lt hp hlt)).trans hparent
    · exact hparent

/-! ## The stack of open positions -/

/-- The shown positions before `n` that no later one has closed. -/
def openAt (level : ℕ → ℕ) (shown : ℕ → Prop) [DecidablePred shown] (n : ℕ) : List ℕ :=
  (List.range n).filter (fun j => shown j ∧ ∀ k < n, j < k → shown k → level j < level k)

section

variable [DecidablePred shown]

theorem mem_openAt : j ∈ openAt level shown n
    ↔ j < n ∧ shown j ∧ ∀ k < n, j < k → shown k → level j < level k := by
  simp [openAt]

theorem openAt_succ_of_not (hn : ¬ shown n) : openAt level shown (n + 1) = openAt level shown n := by
  unfold openAt
  rw [List.range_succ, List.filter_append, List.filter_singleton]
  have hlast : decide (shown n ∧ ∀ k < n + 1, n < k → shown k → level n < level k) = false := by
    simp [hn]
  rw [hlast, cond_false, List.append_nil]
  refine List.filter_congr (fun j hj => decide_eq_decide.mpr (and_congr_right (fun _ => ?_)))
  constructor
  · exact fun h k hk hjk => h k (by omega) hjk
  · intro h k hk hjk hshown
    have hne : k ≠ n := fun heq => hn (heq ▸ hshown)
    exact h k (by omega) hjk hshown

theorem openAt_succ (hn : shown n) : openAt level shown (n + 1)
    = (openAt level shown n).filter (fun j => level j < level n) ++ [n] := by
  unfold openAt
  rw [List.range_succ, List.filter_append, List.filter_singleton, List.filter_filter]
  have hlast : decide (shown n ∧ ∀ k < n + 1, n < k → shown k → level n < level k) = true := by
    rw [decide_eq_true_eq]
    exact ⟨hn, fun k hk hnk => by omega⟩
  rw [hlast, cond_true]
  congr 1
  refine List.filter_congr (fun j hj => ?_)
  rw [List.mem_range] at hj
  rw [← Bool.decide_and, decide_eq_decide]
  constructor
  · rintro ⟨hshown, h⟩
    exact ⟨h n (by omega) hj hn, hshown, fun k hk hjk => h k (by omega) hjk⟩
  · rintro ⟨hlevel, hshown, h⟩
    refine ⟨hshown, fun k hk hjk hk' => ?_⟩
    rcases Nat.lt_or_eq_of_le (Nat.le_of_lt_succ hk) with hlt | rfl
    · exact h k hlt hjk hk'
    · exact hlevel

theorem pairwise_openAt (n : ℕ) :
    (openAt level shown n).Pairwise (fun j k => level j < level k) := by
  have hsorted : (openAt level shown n).Pairwise (fun j k => j < k) :=
    List.pairwise_lt_range.filter _
  refine hsorted.imp_of_mem (fun hj hk hlt => ?_)
  obtain ⟨hkn, hshown, -⟩ := mem_openAt.mp hk
  exact (mem_openAt.mp hj).2.2 _ hkn hlt hshown

theorem openAt_filter (n : ℕ) : (openAt level shown n).filter (fun j => level j < level n)
    = (List.range n).filter (fun j => ShownAncestor level shown j n) := by
  unfold openAt
  rw [List.filter_filter]
  refine List.filter_congr (fun j hj => ?_)
  rw [List.mem_range] at hj
  rw [← Bool.decide_and, decide_eq_decide]
  constructor
  · exact fun h => ⟨hj, h⟩
  · exact fun h => h.2

end

theorem rdropWhile_eq_filter {A : Type} {f : A → ℕ} {xs : List A} (l : ℕ)
    (h : xs.Pairwise (fun a b => f a < f b)) :
    xs.rdropWhile (fun a => l ≤ f a) = xs.filter (fun a => f a < l) := by
  induction xs using List.reverseRecOn with
  | nil => rfl
  | append_singleton xs x ih =>
    obtain ⟨hxs, -, hlast⟩ := List.pairwise_append.mp h
    rw [List.rdropWhile_concat, List.filter_append, List.filter_singleton]
    by_cases hle : l ≤ f x
    · rw [if_pos (by simpa using hle), ih hxs]
      have hnot : decide (f x < l) = false := by simpa using hle
      rw [hnot, cond_false, List.append_nil]
    · rw [if_neg (by simpa using hle)]
      have hlt : f x < l := Nat.lt_of_not_le hle
      have hall : xs.filter (fun a => f a < l) = xs := by
        rw [List.filter_eq_self]
        intro a ha
        have := hlast a ha x (List.mem_singleton_self x)
        rw [decide_eq_true_eq]
        omega
      rw [hall, decide_eq_true hlt, cond_true]

theorem getLast?_filter_range {P : ℕ → Prop} [DecidablePred P] {p : ℕ} :
    ((List.range n).filter (fun j => P j)).getLast? = some p
      ↔ p < n ∧ P p ∧ ∀ q < n, P q → q ≤ p := by
  induction n with
  | zero => simp
  | succ n ih =>
    rw [List.range_succ, List.filter_append, List.filter_singleton]
    by_cases hn : P n
    · rw [decide_eq_true hn, cond_true, List.getLast?_concat, Option.some.injEq]
      constructor
      · rintro rfl
        exact ⟨by omega, hn, fun q hq _ => by omega⟩
      · rintro ⟨hp, -, hlast⟩
        have := hlast n (by omega) hn
        omega
    · rw [decide_eq_false hn, cond_false, List.append_nil, ih]
      have hne : ∀ q, P q → q ≠ n := fun q hq heq => hn (heq ▸ hq)
      constructor
      · rintro ⟨hp, hP, hlast⟩
        refine ⟨by omega, hP, fun q hq hPq => hlast q ?_ hPq⟩
        have := hne q hPq
        omega
      · rintro ⟨hp, hP, hlast⟩
        have := hne p hP
        exact ⟨by omega, hP, fun q hq hPq => hlast q (by omega) hPq⟩

end Outline
