import Mathlib.Data.List.Chain

/-! # Packing a sequence into groups

One item after the other goes into the current group, until the group has no room for the next one.
The groups are the sequence, none is empty, every group had room for each of its items, and none had
room for the first item of the group after it.
-/

namespace Python

variable {A : Type} (full : List A → A → Bool)

/-- The groups of the items, when `current` is the group that is open. -/
def pack (current : List A) : List A → List (List A)
  | [] => if current.isEmpty then [] else [current]
  | a :: as =>
    if !current.isEmpty && full current a then current :: pack [a] as
    else pack (current ++ [a]) as

/-- A group had room for each of its items after the first one. -/
def HadRoom (group : List A) : Prop :=
  ∀ before a after, group = before ++ a :: after → before ≠ [] → full before a = false

variable {full}

theorem hadRoom_nil : HadRoom full [] := by
  intro before a after h
  simp at h

theorem hadRoom_singleton (a : A) : HadRoom full [a] := by
  intro before b after h hne
  have hlength := congrArg List.length h
  have hpos := List.length_pos_of_ne_nil hne
  simp only [List.length_append, List.length_cons, List.length_nil] at hlength
  omega

theorem HadRoom.concat {group : List A} (h : HadRoom full group) {a : A}
    (ha : group ≠ [] → full group a = false) : HadRoom full (group ++ [a]) := by
  intro before b after heq hne
  rcases List.eq_nil_or_concat after with rfl | ⟨after', c, rfl⟩
  · -- the last item is the one that was added
    obtain ⟨rfl, hlast⟩ := List.append_inj' heq rfl
    cases hlast
    exact ha hne
  · have hconcat : group ++ [a] = (before ++ b :: after') ++ [c] := by simpa using heq
    exact h before b after' (List.append_inj' hconcat rfl).1 hne

variable (full) in
/-- **The groups are the sequence.** -/
theorem flatten_pack (current as : List A) : (pack full current as).flatten = current ++ as := by
  induction as generalizing current with
  | nil =>
    unfold pack
    split
    · simp_all
    · simp
  | cons a as ih =>
    unfold pack
    split
    · rw [List.flatten_cons, ih]
      rfl
    · rw [ih, List.append_assoc]
      rfl

theorem ne_nil_of_mem_pack {current as : List A} : ∀ group ∈ pack full current as, group ≠ [] := by
  induction as generalizing current with
  | nil =>
    intro group hgroup
    unfold pack at hgroup
    split at hgroup
    · cases hgroup
    · rename_i hne
      rw [List.mem_singleton.mp hgroup]
      simpa using hne
  | cons a as ih =>
    intro group hgroup
    unfold pack at hgroup
    split at hgroup
    · rename_i hfull
      rcases List.mem_cons.mp hgroup with rfl | hgroup
      · rw [Bool.and_eq_true] at hfull
        simpa using hfull.1
      · exact ih group hgroup
    · exact ih group hgroup

/-- **Every group had room for its items.** -/
theorem hadRoom_of_mem_pack {current as : List A} (h : HadRoom full current) :
    ∀ group ∈ pack full current as, HadRoom full group := by
  induction as generalizing current with
  | nil =>
    intro group hgroup
    unfold pack at hgroup
    split at hgroup
    · cases hgroup
    · exact List.mem_singleton.mp hgroup ▸ h
  | cons a as ih =>
    intro group hgroup
    unfold pack at hgroup
    split at hgroup
    · rcases List.mem_cons.mp hgroup with rfl | hgroup
      · exact h
      · exact ih (hadRoom_singleton a) group hgroup
    · rename_i hroom
      refine ih (h.concat fun hne => ?_) group hgroup
      simpa [hne] using hroom

variable (full) in
theorem head_pack (as : List A) {current : List A} (h : current ≠ []) :
    ∃ rest groups, pack full current as = (current ++ rest) :: groups := by
  induction as generalizing current with
  | nil =>
    refine ⟨[], [], ?_⟩
    rw [pack, if_neg (by simpa using h), List.append_nil]
  | cons a as ih =>
    unfold pack
    split
    · exact ⟨[], pack full [a] as, by rw [List.append_nil]⟩
    · obtain ⟨rest, groups, hpack⟩ := @ih (current ++ [a]) (by simp)
      exact ⟨a :: rest, groups, by rw [hpack, List.append_assoc]; rfl⟩

variable (full) in
/-- **No group had room for the next item.** -/
theorem isChain_pack (current as : List A) :
    (pack full current as).IsChain (fun group next => ∀ a ∈ next.head?, full group a = true) := by
  induction as generalizing current with
  | nil =>
    unfold pack
    split
    · exact .nil
    · exact .singleton _
  | cons a as ih =>
    unfold pack
    split
    · rename_i hfull
      rw [Bool.and_eq_true] at hfull
      have hnext := ih [a]
      obtain ⟨rest, groups, hpack⟩ := head_pack full as (List.cons_ne_nil a [])
      rw [hpack] at hnext ⊢
      refine .cons_cons (fun b hb => ?_) hnext
      have hhead : a = b := by simpa using hb
      exact hhead ▸ hfull.2
    · exact ih (current ++ [a])

end Python
