import Mathlib.Tactic

/-! # Parts of a text

What `List.splitOn` says about the parts of a list, and when two texts differ because of how they
begin or end.
-/

namespace Split

variable {A : Type} [DecidableEq A] {a : A} {xs part : List A}

theorem splitOn_cons_self (xs : List A) : (a :: xs).splitOn a = [] :: xs.splitOn a := by
  rw [List.splitOn_cons_eq_if_modifyHead, if_pos (beq_self_eq_true a)]

theorem exists_splitOn_cons {x : A} (hx : x ≠ a) (xs : List A) :
    ∃ first rest, xs.splitOn a = first :: rest ∧ (x :: xs).splitOn a = (x :: first) :: rest := by
  cases hparts : xs.splitOn a with
  | nil => exact absurd hparts (List.splitOn_ne_nil a xs)
  | cons first rest =>
    refine ⟨first, rest, rfl, ?_⟩
    rw [List.splitOn_cons_eq_if_modifyHead, if_neg (fun heq => hx (beq_iff_eq.mp heq)), hparts,
      List.modifyHead_cons]

theorem not_mem_of_mem_splitOn (h : part ∈ xs.splitOn a) : a ∉ part := by
  induction xs generalizing part with
  | nil =>
    have hpart : part = [] := by simpa using h
    rw [hpart]
    exact List.not_mem_nil
  | cons x xs ih =>
    by_cases hx : x = a
    · rw [hx, splitOn_cons_self, List.mem_cons] at h
      rcases h with rfl | h
      · exact List.not_mem_nil
      · exact ih h
    · obtain ⟨first, rest, hparts, hcons⟩ := exists_splitOn_cons hx xs
      rw [hcons, List.mem_cons] at h
      rcases h with rfl | h
      · rw [List.mem_cons, not_or]
        exact ⟨fun heq => hx heq.symm, ih (hparts ▸ List.mem_cons_self)⟩
      · exact ih (hparts ▸ List.mem_cons_of_mem first h)

theorem sublist_of_mem_splitOn (h : part ∈ xs.splitOn a) : part.Sublist xs := by
  induction xs generalizing part with
  | nil =>
    have hpart : part = [] := by simpa using h
    rw [hpart]
  | cons x xs ih =>
    by_cases hx : x = a
    · rw [hx, splitOn_cons_self, List.mem_cons] at h
      rcases h with rfl | h
      · exact List.nil_sublist _
      · exact (ih h).cons x
    · obtain ⟨first, rest, hparts, hcons⟩ := exists_splitOn_cons hx xs
      rw [hcons, List.mem_cons] at h
      rcases h with rfl | h
      · exact (ih (hparts ▸ List.mem_cons_self)).cons_cons x
      · exact (ih (hparts ▸ List.mem_cons_of_mem first h)).cons x

theorem eq_or_mem_splitOn {b : A} (h : b ∈ xs) : b = a ∨ ∃ part ∈ xs.splitOn a, b ∈ part := by
  induction xs with
  | nil => exact absurd h List.not_mem_nil
  | cons x xs ih =>
    by_cases hx : x = a
    · rw [hx, splitOn_cons_self]
      rcases List.mem_cons.mp h with hb | hmem
      · exact Or.inl (hb.trans hx)
      · refine (ih hmem).imp_right ?_
        rintro ⟨part, hpart, hb⟩
        exact ⟨part, List.mem_cons_of_mem [] hpart, hb⟩
    · obtain ⟨first, rest, hparts, hcons⟩ := exists_splitOn_cons hx xs
      rw [hcons]
      rcases List.mem_cons.mp h with rfl | hmem
      · exact Or.inr ⟨_, List.mem_cons_self, List.mem_cons_self⟩
      · refine (ih hmem).imp_right ?_
        rw [hparts]
        rintro ⟨part, hpart, hb⟩
        rcases List.mem_cons.mp hpart with rfl | hpart
        · exact ⟨_, List.mem_cons_self, List.mem_cons_of_mem x hb⟩
        · exact ⟨part, List.mem_cons_of_mem _ hpart, hb⟩

theorem append_ne_append {start a b s t : String} (n : Nat) (h : a.toList.take n ≠ b.toList.take n)
    (ha : n ≤ a.toList.length) (hb : n ≤ b.toList.length) : start ++ a ++ s ≠ start ++ b ++ t := by
  intro heq
  have hlist := congrArg String.toList heq
  simp only [String.toList_append, List.append_assoc] at hlist
  have htake := congrArg (List.take n) (List.append_cancel_left hlist)
  rw [List.take_append_of_le_length ha, List.take_append_of_le_length hb] at htake
  exact h htake

theorem ne_of_suffix {a b s t : String} (ha : s.toList <:+ a.toList) (hb : t.toList <:+ b.toList)
    (hst : ¬ s.toList <:+ t.toList) (hts : ¬ t.toList <:+ s.toList) : a ≠ b := by
  rintro rfl
  rcases Nat.le_total s.toList.length t.toList.length with hle | hle
  · exact hst (List.suffix_of_suffix_length_le ha hb hle)
  · exact hts (List.suffix_of_suffix_length_le hb ha hle)

end Split
