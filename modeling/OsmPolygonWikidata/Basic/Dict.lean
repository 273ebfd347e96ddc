import OsmPolygonWikidata.Basic.KeyedRows

/-! # Insertion-ordered dictionaries

A Python dictionary whose keys are computed from its values is the list of its values. Assigning a
key that exists replaces the value in place, and a new key goes to the end. A dictionary filled by
a sequence of assignments holds, for each key, the *last* value assigned (`mem_build_iff`). One
filled by `setdefault` holds the *first* value of each key.
-/

namespace Dict

open Python (Functional)

variable {A K : Type} (key : A → K)

/-! ## The last value of a key -/

/-- `x` is assigned, and its key is not assigned again later. -/
def Last (xs : List A) (x : A) : Prop :=
  ∃ before after, xs = before ++ x :: after ∧ ∀ y ∈ after, key y ≠ key x

variable {key}

variable {xs : List A}

theorem last_concat {y x : A} :
    Last key (xs ++ [y]) x ↔ x = y ∨ (Last key xs x ∧ key x ≠ key y) := by
  constructor
  · rintro ⟨before, after, heq, hafter⟩
    rcases List.eq_nil_or_concat after with rfl | ⟨after', z, rfl⟩
    · have hlast := List.append_inj_right' heq rfl
      exact Or.inl (List.cons.inj hlast).1.symm
    · have heq' : xs ++ [y] = (before ++ x :: after') ++ [z] := by simpa using heq
      obtain ⟨rfl, hz⟩ := List.append_inj' heq' rfl
      obtain rfl := (List.cons.inj hz).1
      refine Or.inr ⟨⟨before, after', rfl, fun w hw => hafter w (by simp [hw])⟩, ?_⟩
      exact fun h => hafter y (by simp) h.symm
  · rintro (rfl | ⟨⟨before, after, rfl, hafter⟩, hne⟩)
    · exact ⟨xs, [], rfl, by simp⟩
    · refine ⟨before, after ++ [y], by simp, ?_⟩
      intro z hz
      rcases List.mem_append.mp hz with hz | hz
      · exact hafter z hz
      · rw [List.mem_singleton.mp hz]
        exact fun h => hne h.symm

variable {x : A}

theorem Last.mem (h : Last key xs x) : x ∈ xs := by
  obtain ⟨before, after, rfl, -⟩ := h
  simp

theorem Last.append_left {ys : List A} (h : Last key ys x) (xs : List A) :
    Last key (xs ++ ys) x := by
  obtain ⟨before, after, rfl, hafter⟩ := h
  exact ⟨xs ++ before, after, by simp, hafter⟩

variable {xs ys : List A}

theorem Last.append_right (h : Last key xs x)
    (hys : ∀ y ∈ ys, key y ≠ key x) : Last key (xs ++ ys) x := by
  obtain ⟨before, after, rfl, hafter⟩ := h
  refine ⟨before, after ++ ys, by simp, fun y hy => ?_⟩
  rcases List.mem_append.mp hy with hy | hy
  · exact hafter y hy
  · exact hys y hy

theorem last_iff_mem (hunique : ∀ y ∈ xs, key y = key x → y = x) : Last key xs x ↔ x ∈ xs := by
  refine ⟨Last.mem, fun hx => ?_⟩
  induction xs using List.reverseRecOn with
  | nil => cases hx
  | append_singleton xs y ih =>
    rw [last_concat]
    by_cases hxy : x = y
    · exact Or.inl hxy
    · have hmem : x ∈ xs := by simpa [hxy] using hx
      refine Or.inr ⟨ih (fun a ha => hunique a (by simp [ha])) hmem, ?_⟩
      exact fun h => hxy (hunique y (by simp) h.symm).symm

/-! ## Assignments -/

variable [DecidableEq K] (key)

/-- `d[key(x)] = x`. -/
def put (x : A) : List A → List A
  | [] => [x]
  | y :: ys => if key y = key x then x :: ys else y :: put x ys

/-- The dictionary after a sequence of assignments. -/
def build (xs : List A) : List A := xs.foldl (fun d x => put key x d) []

variable {key}

theorem build_concat (xs : List A) (x : A) : build key (xs ++ [x]) = put key x (build key xs) := by
  simp [build]

theorem filter_put (p : K → Bool) (x : A) (d : List A) : (put key x d).filter (fun y => p (key y))
      = if p (key x) then put key x (d.filter (fun y => p (key y)))
        else d.filter (fun y => p (key y)) := by
  induction d with
  | nil => cases hx : p (key x) <;> simp [put, hx]
  | cons y ys ih =>
    rw [put]
    by_cases hyx : key y = key x
    · rw [if_pos hyx]
      cases hx : p (key x)
      · simp [hx, hyx]
      · simp [hx, hyx, put]
    · rw [if_neg hyx, List.filter_cons, ih]
      cases hy : p (key y) <;> cases hx : p (key x) <;> simp [hy, put, hyx]

theorem filter_build (p : K → Bool) (xs : List A) :
    (build key xs).filter (fun y => p (key y)) = build key (xs.filter (fun y => p (key y))) := by
  induction xs using List.reverseRecOn with
  | nil => rfl
  | append_singleton xs x ih =>
    rw [build_concat, filter_put, ih, List.filter_append]
    cases hx : p (key x)
    · simp [hx]
    · simp [hx, build_concat]

theorem map_put {B : Type} (key' : B → K) (f : A → B) (hf : ∀ x, key' (f x) = key x) (x : A)
    (d : List A) : (put key x d).map f = put key' (f x) (d.map f) := by
  induction d with
  | nil => rfl
  | cons y ys ih =>
    rw [put, List.map_cons, put, hf, hf]
    split
    · rfl
    · rw [List.map_cons, ih]

variable {d : List A}

theorem mem_put_iff {x z : A} (hd : (d.map key).Nodup) :
    z ∈ put key x d ↔ z = x ∨ (z ∈ d ∧ key z ≠ key x) := by
  induction d with
  | nil => simp [put]
  | cons y ys ih =>
    obtain ⟨hy, hys⟩ := List.nodup_cons.mp hd
    rw [put]
    split
    · rename_i hyx
      rw [List.mem_cons, List.mem_cons]
      constructor
      · rintro (rfl | hz)
        · exact Or.inl rfl
        · refine Or.inr ⟨Or.inr hz, fun hzx => hy ?_⟩
          rw [hyx, ← hzx]
          exact List.mem_map_of_mem hz
      · rintro (rfl | ⟨rfl | hz, hne⟩)
        · exact Or.inl rfl
        · exact absurd hyx hne
        · exact Or.inr hz
    · rename_i hyx
      rw [List.mem_cons, ih hys, List.mem_cons]
      constructor
      · rintro (rfl | rfl | ⟨hz, hne⟩)
        · exact Or.inr ⟨Or.inl rfl, hyx⟩
        · exact Or.inl rfl
        · exact Or.inr ⟨Or.inr hz, hne⟩
      · rintro (rfl | ⟨rfl | hz, hne⟩)
        · exact Or.inr (Or.inl rfl)
        · exact Or.inl rfl
        · exact Or.inr (Or.inr ⟨hz, hne⟩)

theorem lookup_cons_eq_ite {V : Type} (k k' : K) (v : V) (d : List (K × V)) :
    ((k, v) :: d).lookup k' = if k' = k then some v else d.lookup k' := by
  rw [List.lookup_cons]
  by_cases hk : k' = k
  · simp [hk]
  · have hbeq : (k' == k) = false := by simpa using hk
    simp [hk, hbeq]

theorem lookup_put {V : Type} (k k' : K) (v : V) (d : List (K × V)) :
    (put Prod.fst (k, v) d).lookup k' = if k' = k then some v else d.lookup k' := by
  induction d with
  | nil =>
    rw [put, lookup_cons_eq_ite]
  | cons entry d ih =>
    obtain ⟨k₀, v₀⟩ := entry
    rw [put]
    by_cases hk₀ : k₀ = k
    · -- the entry is replaced in place
      rw [if_pos hk₀, lookup_cons_eq_ite, lookup_cons_eq_ite, hk₀]
      split <;> rfl
    · rw [if_neg hk₀, lookup_cons_eq_ite, lookup_cons_eq_ite, ih]
      by_cases hk' : k' = k₀
      · rw [if_pos hk', if_neg (fun h => hk₀ (hk' ▸ h)), if_pos hk']
      · rw [if_neg hk', if_neg hk']

theorem mem_of_mem_put {x z : A} (h : z ∈ put key x d) : z = x ∨ z ∈ d := by
  induction d with
  | nil => exact Or.inl (List.mem_singleton.mp h)
  | cons y ys ih =>
    rw [put] at h
    split at h
    · rcases List.mem_cons.mp h with rfl | h
      · exact Or.inl rfl
      · exact Or.inr (List.mem_cons_of_mem _ h)
    · rcases List.mem_cons.mp h with rfl | h
      · exact Or.inr List.mem_cons_self
      · rcases ih h with rfl | h
        · exact Or.inl rfl
        · exact Or.inr (List.mem_cons_of_mem _ h)

theorem keys_put (x : A) (d : List A) : (put key x d).map key
      = if key x ∈ d.map key then d.map key else d.map key ++ [key x] := by
  induction d with
  | nil => simp [put]
  | cons y ys ih =>
    rw [put]
    by_cases hyx : key y = key x
    · rw [if_pos hyx, if_pos (by simp [hyx]), List.map_cons, List.map_cons, hyx]
    · rw [if_neg hyx, List.map_cons, ih, List.map_cons]
      by_cases hmem : key x ∈ ys.map key
      · rw [if_pos hmem, if_pos (List.mem_cons_of_mem _ hmem)]
      · rw [if_neg hmem, if_neg]
        · rfl
        · rw [List.mem_cons, not_or]
          exact ⟨fun h => hyx h.symm, hmem⟩

theorem mem_keys_put {k : K} : k ∈ (put key x d).map key ↔ k = key x ∨ k ∈ d.map key := by
  rw [keys_put]
  split
  · rename_i hmem
    constructor
    · exact Or.inr
    · rintro (rfl | h)
      · exact hmem
      · exact h
  · rw [List.mem_append, List.mem_singleton, or_comm]

theorem mem_keys_build {k : K} : k ∈ (build key xs).map key ↔ k ∈ xs.map key := by
  induction xs using List.reverseRecOn with
  | nil => rfl
  | append_singleton xs x ih =>
    rw [build_concat, mem_keys_put, ih, List.map_append, List.mem_append, List.map_singleton,
      List.mem_singleton, or_comm]

theorem nodup_keys_build (xs : List A) : ((build key xs).map key).Nodup := by
  induction xs using List.reverseRecOn with
  | nil => exact List.nodup_nil
  | append_singleton xs x ih =>
    rw [build_concat, keys_put]
    split
    · exact ih
    · rename_i hmem
      rw [← List.concat_eq_append]
      exact ih.concat hmem

variable (key) in
/-- `d.update(d')`. -/
def update (d d' : List A) : List A := d'.foldl (fun d x => put key x d) d

theorem mem_keys_update {d d' : List A} {k : K} :
    k ∈ (update key d d').map key ↔ k ∈ d.map key ∨ k ∈ d'.map key := by
  induction d' generalizing d with
  | nil => simp [update]
  | cons x d' ih =>
    show k ∈ (update key (put key x d) d').map key ↔ _
    rw [ih, mem_keys_put, List.map_cons, List.mem_cons]
    tauto

theorem mem_of_mem_update {d d' : List A} {z : A} (h : z ∈ update key d d') : z ∈ d ∨ z ∈ d' := by
  induction d' generalizing d with
  | nil => exact Or.inl h
  | cons x d' ih =>
    rcases ih (show z ∈ update key (put key x d) d' from h) with hz | hz
    · rcases mem_of_mem_put hz with rfl | hz
      · exact Or.inr List.mem_cons_self
      · exact Or.inl hz
    · exact Or.inr (List.mem_cons_of_mem _ hz)

/-- **A dictionary holds the last value of each key.** -/
theorem mem_build_iff : x ∈ build key xs ↔ Last key xs x := by
  induction xs using List.reverseRecOn with
  | nil =>
    constructor
    · intro h
      cases h
    · rintro ⟨before, after, h, -⟩
      simp at h
  | append_singleton xs y ih =>
    rw [build_concat, mem_put_iff (nodup_keys_build xs), last_concat, ih]

theorem Last.eq_of_key_eq {x y : A} (hx : Last key xs x) (hy : Last key xs y)
    (hkey : key x = key y) : x = y :=
  List.inj_on_of_nodup_map (nodup_keys_build xs) (mem_build_iff.mpr hx) (mem_build_iff.mpr hy) hkey

/-! ## Values that agree -/

omit [DecidableEq K] in
theorem functional_mono (h : Functional key ys) (hsub : xs ⊆ ys) : Functional key xs :=
  fun x hx y hy => h x (hsub hx) y (hsub hy)

omit [DecidableEq K] in
theorem functional_of_nodup (h : (xs.map key).Nodup) : Functional key xs :=
  fun _ hx _ hy => List.inj_on_of_nodup_map h hx hy

theorem put_of_notMem (h : key x ∉ d.map key) : put key x d = d ++ [x] := by
  induction d with
  | nil => rfl
  | cons y ys ih =>
    rw [List.map_cons, List.mem_cons, not_or] at h
    rw [put, if_neg (fun heq => h.1 heq.symm), ih h.2, List.cons_append]

theorem put_of_functional (hx : x ∈ d) (h : Functional key d) : put key x d = d := by
  induction d with
  | nil => cases hx
  | cons y ys ih =>
    rw [put]
    split
    · rename_i heq
      rw [h y List.mem_cons_self x hx heq]
    · rename_i hne
      rcases List.mem_cons.mp hx with rfl | hx
      · exact absurd rfl hne
      · rw [ih hx (functional_mono h (List.subset_cons_self y ys))]

theorem build_append (hxs : (xs.map key).Nodup) (hys : (ys.map key).Nodup)
    (h : Functional key (xs ++ ys)) :
    build key (xs ++ ys) = xs ++ ys.filter (fun y => key y ∉ xs.map key) := by
  induction ys using List.reverseRecOn with
  | nil =>
    rw [List.append_nil, List.filter_nil, List.append_nil]
    induction xs using List.reverseRecOn with
    | nil => rfl
    | append_singleton xs x ih =>
      rw [List.map_append, List.nodup_append] at hxs
      rw [build_concat, ih hxs.1 (functional_mono h (by simp)), put_of_notMem]
      exact fun hmem => hxs.2.2 _ hmem _ (by simp) rfl
  | append_singleton ys y ih =>
    rw [List.map_append, List.nodup_append] at hys
    have hsub : xs ++ ys ⊆ xs ++ (ys ++ [y]) := by
      rw [← List.append_assoc]
      exact List.subset_append_left _ _
    rw [← List.append_assoc, build_concat, ih hys.1 (functional_mono h hsub), List.filter_append]
    by_cases hy : key y ∈ xs.map key
    · -- the same value under the same key
      obtain ⟨x, hx, hkey⟩ := List.mem_map.mp hy
      have heq : x = y := h x (List.mem_append_left _ hx) y (by simp) hkey
      have hin : y ∈ xs ++ ys.filter (fun y => key y ∉ xs.map key) :=
        List.mem_append_left _ (heq ▸ hx)
      have hfunctional : Functional key (xs ++ ys.filter (fun y => key y ∉ xs.map key)) := by
        refine functional_mono h fun z hz => ?_
        rcases List.mem_append.mp hz with hz | hz
        · exact List.mem_append_left _ hz
        · exact List.mem_append_right _ (List.mem_append_left _ (List.mem_of_mem_filter hz))
      rw [put_of_functional hin hfunctional, List.filter_singleton,
        decide_eq_false (not_not.mpr hy), cond_false, List.append_nil]
    · have hnew : key y ∉ (xs ++ ys.filter (fun y => key y ∉ xs.map key)).map key := by
        rw [List.map_append, List.mem_append, not_or]
        refine ⟨hy, fun hmem => ?_⟩
        obtain ⟨z, hz, hkey⟩ := List.mem_map.mp hmem
        exact hys.2.2 _ (List.mem_map_of_mem (List.mem_of_mem_filter hz)) _ (by simp) hkey
      rw [put_of_notMem hnew, List.filter_singleton, decide_eq_true hy, cond_true,
        List.append_assoc]

theorem build_of_nodup (h : (xs.map key).Nodup) : build key xs = xs := by
  have hfunctional : Functional key (xs ++ []) := by
    rw [List.append_nil]
    exact functional_of_nodup h
  have hnil : (([] : List A).map key).Nodup := List.nodup_nil
  have hbuild := build_append h hnil hfunctional
  simpa using hbuild

/-! ## The first value of a key -/

omit [DecidableEq K]

variable (key) in
/-- `x` is given, and its key is not given before. -/
def First (xs : List A) (x : A) : Prop :=
  ∃ before after, xs = before ++ x :: after ∧ ∀ y ∈ before, key y ≠ key x

theorem first_iff_last_reverse : First key xs x ↔ Last key xs.reverse x := by
  constructor
  · rintro ⟨before, after, rfl, hbefore⟩
    refine ⟨after.reverse, before.reverse, by simp, ?_⟩
    intro y hy
    exact hbefore y (List.mem_reverse.mp hy)
  · rintro ⟨before, after, heq, hafter⟩
    refine ⟨after.reverse, before.reverse, ?_, ?_⟩
    · rw [← List.reverse_reverse xs, heq]
      simp
    · intro y hy
      exact hafter y (List.mem_reverse.mp hy)

theorem First.mem (h : First key xs x) : x ∈ xs := by
  obtain ⟨before, after, rfl, -⟩ := h
  simp

theorem First.eq_of_key_eq {x y : A} (hx : First key xs x) (hy : First key xs y)
    (hkey : key x = key y) : x = y := by
  classical
  exact (first_iff_last_reverse.mp hx).eq_of_key_eq (first_iff_last_reverse.mp hy) hkey

theorem first_concat {y x : A} :
    First key (xs ++ [y]) x ↔ First key xs x ∨ (x = y ∧ key y ∉ xs.map key) := by
  constructor
  · rintro ⟨before, after, heq, hbefore⟩
    rcases List.eq_nil_or_concat after with rfl | ⟨after', z, rfl⟩
    · obtain ⟨rfl, hlast⟩ := List.append_inj' heq rfl
      obtain rfl := (List.cons.inj hlast).1
      refine Or.inr ⟨rfl, fun hmem => ?_⟩
      obtain ⟨z, hz, hzx⟩ := List.mem_map.mp hmem
      exact hbefore z hz hzx
    · have heq' : xs ++ [y] = (before ++ x :: after') ++ [z] := by simpa using heq
      obtain ⟨rfl, -⟩ := List.append_inj' heq' rfl
      exact Or.inl ⟨before, after', rfl, hbefore⟩
  · rintro (⟨before, after, rfl, hbefore⟩ | ⟨rfl, hnew⟩)
    · exact ⟨before, after ++ [y], by simp, hbefore⟩
    · exact ⟨xs, [], rfl, fun z hz h => hnew (h ▸ List.mem_map_of_mem hz)⟩

theorem first_append (h : First key (xs ++ ys) x) : First key xs x ∨ First key ys x := by
  obtain ⟨before, after, heq, hbefore⟩ := h
  rcases List.append_eq_append_iff.mp heq with ⟨zs, rfl, hys⟩ | ⟨zs, rfl, hys⟩
  · exact Or.inr ⟨zs, after, hys, fun y hy => hbefore y (List.mem_append_right _ hy)⟩
  · cases zs with
    | nil =>
      rw [List.nil_append] at hys
      exact Or.inr ⟨[], after, hys.symm, by simp⟩
    | cons z zs =>
      rw [List.cons_append] at hys
      rw [(List.cons.inj hys).1] at hbefore ⊢
      exact Or.inl ⟨before, zs, rfl, hbefore⟩

theorem first_flatMap {S : Type} {f : S → List A} {l : List S}
    (h : First key (l.flatMap f) x) : ∃ s ∈ l, First key (f s) x := by
  induction l with
  | nil => exact absurd h.mem (by simp)
  | cons s l ih =>
    rw [List.flatMap_cons] at h
    rcases first_append h with hs | hl
    · exact ⟨s, List.mem_cons_self, hs⟩
    · obtain ⟨t, ht, hfirst⟩ := ih hl
      exact ⟨t, List.mem_cons_of_mem s ht, hfirst⟩

theorem exists_first (hx : x ∈ xs) : ∃ y, First key xs y ∧ key y = key x := by
  induction xs using List.reverseRecOn generalizing x with
  | nil => cases hx
  | append_singleton xs y ih =>
    by_cases hold : key x ∈ xs.map key
    · obtain ⟨z, hz, hzx⟩ := List.mem_map.mp hold
      obtain ⟨w, hw, hwz⟩ := ih hz
      exact ⟨w, first_concat.mpr (Or.inl hw), hwz.trans hzx⟩
    · have hxy : x = y := by
        rcases List.mem_append.mp hx with hmem | hlast
        · exact absurd (List.mem_map_of_mem hmem) hold
        · exact List.mem_singleton.mp hlast
      rw [hxy] at hold
      exact ⟨y, first_concat.mpr (Or.inr ⟨rfl, hold⟩), by rw [hxy]⟩

end Dict
