import Mathlib.Tactic
import OsmPolygonWikidata.Basic.PyString

/-! # Loops over rows

A Python loop over the rows of a table mostly does one of three things: it raises at the first row
that is not in order, it collects rows under a key, or it looks a key up in a dictionary whose keys
are distinct. The rules below say what such a loop returns as a function of the rows.
-/

namespace Python

variable {E A B K V : Type}

/-! ## Loops that raise -/

variable {xs : List A}

theorem forM_eq_ok_iff {f : A → Except E Unit} : xs.forM f = .ok () ↔ ∀ x ∈ xs, f x = .ok () := by
  induction xs with
  | nil => exact ⟨fun _ x hx => absurd hx List.not_mem_nil, fun _ => rfl⟩
  | cons x xs ih =>
    rw [List.forall_mem_cons, show (x :: xs).forM f = (f x >>= fun _ => xs.forM f) from rfl,
      bind_eq_ok]
    constructor
    · rintro ⟨⟨⟩, hx, hxs⟩
      exact ⟨hx, ih.mp hxs⟩
    · rintro ⟨hx, hxs⟩
      exact ⟨(), hx, ih.mpr hxs⟩

variable {S : Type} {step : S → A → Except E S} {x : Except E A}

/-- **A loop that raises or goes on.** When the state is a function of the rows read so far, the
loop ends exactly when every row is good after the rows before it. -/
theorem foldlM_eq_ok_iff (state : List A → S) (Good : List A → A → Prop)
    (hgood : ∀ pre x, Good pre x → step (state pre) x = .ok (state (pre ++ [x])))
    (hok : ∀ pre x s, step (state pre) x = .ok s → Good pre x) (xs : List A) (s : S) :
    xs.foldlM step (state []) = .ok s
      ↔ (∀ pre x post, xs = pre ++ x :: post → Good pre x) ∧ s = state xs := by
  induction xs using List.reverseRecOn generalizing s with
  | nil =>
    constructor
    · intro h
      cases h
      exact ⟨fun pre x post hnil => by simp at hnil, rfl⟩
    · rintro ⟨-, rfl⟩
      rfl
  | append_singleton xs y ih =>
    rw [List.foldlM_append, bind_eq_ok]
    constructor
    · rintro ⟨s', hs', hlast⟩
      obtain ⟨hall, rfl⟩ := (ih s').mp hs'
      rw [List.foldlM_cons, bind_eq_ok] at hlast
      obtain ⟨s'', hy, hret⟩ := hlast
      cases hret
      have hgy : Good xs y := hok xs y _ hy
      rw [hgood xs y hgy] at hy
      cases hy
      refine ⟨fun pre x post heq => ?_, rfl⟩
      rcases List.eq_nil_or_concat post with rfl | ⟨post, z, rfl⟩
      · obtain ⟨rfl, hxy⟩ := List.append_inj' heq rfl
        cases hxy
        exact hgy
      · have heq' : xs ++ [y] = (pre ++ x :: post) ++ [z] := by simpa using heq
        exact hall pre x post (List.append_inj' heq' rfl).1
    · rintro ⟨hall, rfl⟩
      refine ⟨state xs, (ih _).mpr ⟨fun pre x post heq => ?_, rfl⟩, ?_⟩
      · exact hall pre x (post ++ [y]) (by rw [heq]; simp)
      · rw [List.foldlM_cons, hgood xs y (hall xs y [] rfl)]
        rfl

theorem nodup_map_iff_prefix {A K : Type} (key : A → K) (xs : List A) :
    (xs.map key).Nodup ↔ ∀ pre x post, xs = pre ++ x :: post → key x ∉ pre.map key := by
  constructor
  · rintro h pre x post rfl hmem
    rw [List.map_append, List.nodup_append] at h
    exact h.2.2 _ hmem _ List.mem_cons_self rfl
  · intro h
    induction xs using List.reverseRecOn with
    | nil => exact List.nodup_nil
    | append_singleton xs y ih =>
      rw [List.map_append, List.nodup_append]
      refine ⟨ih (fun pre x post heq => h pre x (post ++ [y]) (by rw [heq]; simp)),
        List.nodup_singleton _, ?_⟩
      intro a ha b hb
      rw [List.map_singleton, List.mem_singleton] at hb
      rw [hb]
      exact fun hab => h xs y [] rfl (hab ▸ ha)

theorem foldlM_unique_eq_ok_iff (state : List A → S) (Good : A → Prop) (key : A → K)
    (hgood : ∀ pre x, Good x → key x ∉ pre.map key → step (state pre) x = .ok (state (pre ++ [x])))
    (hok : ∀ pre x s, step (state pre) x = .ok s → Good x ∧ key x ∉ pre.map key) (xs : List A)
    (s : S) :
    xs.foldlM step (state []) = .ok s ↔ (∀ x ∈ xs, Good x) ∧ (xs.map key).Nodup ∧ s = state xs := by
  rw [foldlM_eq_ok_iff state (fun pre x => Good x ∧ key x ∉ pre.map key)
    (fun pre x h => hgood pre x h.1 h.2) hok, nodup_map_iff_prefix]
  constructor
  · rintro ⟨hall, rfl⟩
    refine ⟨fun x hx => ?_, fun pre x post heq => (hall pre x post heq).2, rfl⟩
    obtain ⟨pre, post, heq⟩ := List.append_of_mem hx
    exact (hall pre x post heq).1
  · rintro ⟨hall, hnodup, rfl⟩
    refine ⟨fun pre x post heq => ⟨hall x ?_, hnodup pre x post heq⟩, rfl⟩
    rw [heq]
    exact List.mem_append_right pre List.mem_cons_self

theorem map_eq_ok {f : A → B} {y : B} : x.map f = .ok y ↔ ∃ a, x = .ok a ∧ f a = y := by
  cases x with
  | error e => simp [Except.map]
  | ok a => simp [Except.map]

variable {f : A → Except E B}

variable {ys : List B}

theorem mapM_eq_ok_iff : xs.mapM f = .ok ys ↔ List.Forall₂ (fun x y => f x = .ok y) xs ys := by
  induction xs generalizing ys with
  | nil =>
    constructor
    · intro h
      cases h
      exact .nil
    · intro h
      cases h
      rfl
  | cons x xs ih =>
    rw [List.mapM_cons, bind_eq_ok, List.forall₂_cons_left_iff]
    constructor
    · rintro ⟨y, hy, h⟩
      obtain ⟨ys', hys, hret⟩ := bind_eq_ok.mp h
      cases hret
      exact ⟨y, ys', hy, ih.mp hys, rfl⟩
    · rintro ⟨y, ys', hy, hys, rfl⟩
      refine ⟨y, hy, bind_eq_ok.mpr ⟨ys', ih.mpr hys, rfl⟩⟩

theorem mapM_eq_ok_map {g : A → B}
    (h : ∀ x ∈ xs, f x = .ok (g x)) : xs.mapM f = .ok (xs.map g) := by
  rw [mapM_eq_ok_iff, List.forall₂_map_right_iff]
  exact List.forall₂_same.mpr h

theorem exists_of_mapM_eq_error {e : E} (h : xs.mapM f = .error e) : ∃ x ∈ xs, f x = .error e := by
  induction xs with
  | nil => cases h
  | cons x xs ih =>
    rw [List.mapM_cons] at h
    cases hx : f x with
    | error e' =>
      rw [hx] at h
      cases h
      exact ⟨x, List.mem_cons_self, hx⟩
    | ok y =>
      rw [hx] at h
      cases hxs : xs.mapM f with
      | error e' =>
        have heq : e' = e := by
          simpa [hxs, bind, Except.bind] using h
        obtain ⟨x', hx', hf⟩ := ih (by rw [hxs, heq])
        exact ⟨x', List.mem_cons_of_mem x hx', hf⟩
      | ok ys =>
        exact absurd h (by simp [hxs, bind, Except.bind, pure, Except.pure])

theorem exists_mapM_eq_ok (h : ∀ x ∈ xs, ∃ y, f x = .ok y) : ∃ ys, xs.mapM f = .ok ys := by
  cases hxs : xs.mapM f with
  | ok ys => exact ⟨ys, rfl⟩
  | error e =>
    obtain ⟨x, hx, he⟩ := exists_of_mapM_eq_error hxs
    obtain ⟨y, hy⟩ := h x hx
    rw [hy] at he
    cases he

variable {R : A → B → Prop}

theorem exists_mapM_forall₂ (h : ∀ x ∈ xs, ∃ y, f x = .ok y ∧ R x y) :
    ∃ ys, xs.mapM f = .ok ys ∧ List.Forall₂ R xs ys := by
  induction xs with
  | nil => exact ⟨[], rfl, .nil⟩
  | cons x xs ih =>
    obtain ⟨y, hy, hr⟩ := h x List.mem_cons_self
    obtain ⟨ys, hys, hrs⟩ := ih (fun z hz => h z (List.mem_cons_of_mem x hz))
    refine ⟨y :: ys, ?_, .cons hr hrs⟩
    rw [List.mapM_cons]
    exact bind_eq_ok.mpr ⟨y, hy, bind_eq_ok.mpr ⟨ys, hys, rfl⟩⟩

theorem forall₂_zip_comp {C : Type} {S : A × B → C → Prop}
    {zs : List C} (h : List.Forall₂ R xs ys) (h' : List.Forall₂ S (xs.zip ys) zs) :
    List.Forall₂ (fun x z => ∃ y, R x y ∧ S (x, y) z) xs zs := by
  induction h generalizing zs with
  | nil =>
    cases h'
    exact .nil
  | cons hr _ ih =>
    cases h' with
    | cons hs h' => exact .cons ⟨_, hr, hs⟩ (ih h')

theorem forall₂_exists_mem (h : List.Forall₂ R xs ys) {x : A} (hx : x ∈ xs) : ∃ y ∈ ys, R x y := by
  induction h with
  | nil => cases hx
  | @cons x' y xs ys hr _ ih =>
    rcases List.mem_cons.mp hx with rfl | hx
    · exact ⟨y, List.mem_cons_self, hr⟩
    · obtain ⟨y', hy', hr'⟩ := ih hx
      exact ⟨y', List.mem_cons_of_mem y hy', hr'⟩

theorem forall₂_exists (h : List.Forall₂ R xs ys) {x : A} (hx : x ∈ xs) : ∃ y, R x y := by
  obtain ⟨y, -, hr⟩ := forall₂_exists_mem h hx
  exact ⟨y, hr⟩

theorem filterMap_eq_of_forall₂ {f : A → Option B}
    (h : List.Forall₂ (fun x y => f x = some y) xs ys) : xs.filterMap f = ys := by
  induction h with
  | nil => rfl
  | cons hy _ ih => rw [List.filterMap_cons_some hy, ih]

theorem mapM_congr_left {f g : A → Except E B} (h : ∀ x ∈ xs, f x = g x) :
    xs.mapM f = xs.mapM g := by
  induction xs with
  | nil => rfl
  | cons x xs ih =>
    rw [List.mapM_cons, List.mapM_cons, h x List.mem_cons_self,
      ih (fun y hy => h y (List.mem_cons_of_mem x hy))]

theorem exists_of_mem_mapM (h : xs.mapM f = .ok ys) {y : B} (hy : y ∈ ys) : ∃ x ∈ xs, f x = .ok y :=
  forall₂_exists_mem (mapM_eq_ok_iff.mp h).flip hy

theorem exists_mem_of_mapM (h : xs.mapM f = .ok ys) {x : A} (hx : x ∈ xs) : ∃ y ∈ ys, f x = .ok y :=
  forall₂_exists_mem (mapM_eq_ok_iff.mp h) hx

/-! ## The exception of a loop -/

/-- What is raised. -/
def errorOf : Except E A → Option E
  | .error e => some e
  | .ok _ => none

theorem errorOf_eq_some_iff {e : E} : errorOf x = some e ↔ x = .error e := by
  cases x <;> simp [errorOf]

theorem errorOf_eq_none_iff : errorOf x = none ↔ x.isOk = true := by
  cases x <;> simp [errorOf, Except.isOk, Except.toBool]

theorem errorOf_map (f : A → B) (x : Except E A) : errorOf (x.map f) = errorOf x := by
  cases x <;> rfl

theorem errorOf_bind (hf : ∀ a, errorOf (f a) = none) (x : Except E A) :
    errorOf (x >>= f) = errorOf x := by
  cases x with
  | error e => rfl
  | ok a => exact hf a

theorem errorOf_mapM (f : A → Except E B) (xs : List A) :
    errorOf (xs.mapM f) = xs.findSome? (fun x => errorOf (f x)) := by
  induction xs with
  | nil => rfl
  | cons x xs ih =>
    rw [List.mapM_cons, List.findSome?_cons, ← ih]
    cases f x with
    | error e => rfl
    | ok y => cases xs.mapM f <;> rfl

theorem findSome?_filter_eq (g : A → Option B) (q : A → Bool) (xs : List A) :
    (xs.filter q).findSome? g = xs.findSome? (fun x => if q x then g x else none) := by
  induction xs with
  | nil => rfl
  | cons x xs ih =>
    rw [List.filter_cons, List.findSome?_cons, ← ih]
    cases q x <;> rfl

theorem findSome?_flatMap_eq (g : B → Option V) (f : A → List B) (xs : List A) :
    (xs.flatMap f).findSome? g = xs.findSome? (fun x => (f x).findSome? g) := by
  induction xs with
  | nil => rfl
  | cons x xs ih =>
    rw [List.flatMap_cons, List.findSome?_append, List.findSome?_cons, ← ih]
    cases (f x).findSome? g <;> rfl

theorem findSome?_eq_find?_bind (g : A → Option B) (xs : List A) :
    xs.findSome? g = (xs.find? (fun x => (g x).isSome)).bind g := by
  induction xs with
  | nil => rfl
  | cons x xs ih =>
    rw [List.findSome?_cons, List.find?_cons, ih]
    cases hx : g x with
    | none => rfl
    | some y => exact hx.symm

theorem findSome?_congr_on {f g : A → Option B} (h : ∀ x ∈ xs, f x = g x) :
    xs.findSome? f = xs.findSome? g := by
  induction xs with
  | nil => rfl
  | cons x xs ih =>
    rw [List.findSome?_cons, List.findSome?_cons, h x List.mem_cons_self,
      ih (fun y hy => h y (List.mem_cons_of_mem x hy))]

theorem findSome?_zip {g : A × B → Option V} {f : A → Option V}
    (h : List.Forall₂ R xs ys) (hg : ∀ x ∈ xs, ∀ y, R x y → g (x, y) = f x) :
    (xs.zip ys).findSome? g = xs.findSome? f := by
  induction h with
  | nil => rfl
  | @cons x y xs ys hr _ ih =>
    rw [List.zip_cons_cons, List.findSome?_cons, List.findSome?_cons,
      hg x List.mem_cons_self y hr, ih (fun z hz => hg z (List.mem_cons_of_mem x hz))]

/-! ## Grouping -/

section

variable [DecidableEq K]

/-- `d.setdefault(k, []).append(v)`. -/
def appendUnder (k : K) (v : V) : List (K × List V) → List (K × List V)
  | [] => [(k, [v])]
  | (k', vs) :: d => if k' = k then (k', vs ++ [v]) :: d else (k', vs) :: appendUnder k v d

/-- The dictionary of a sequence of such appends. -/
def group (pairs : List (K × V)) : List (K × List V) :=
  pairs.foldl (fun d p => appendUnder p.1 p.2 d) []

/-- What was appended under a key. -/
def valuesOf (pairs : List (K × V)) (k : K) : List V :=
  (pairs.filter (fun p => p.1 = k)).map Prod.snd

theorem group_concat (pairs : List (K × V)) (p : K × V) :
    group (pairs ++ [p]) = appendUnder p.1 p.2 (group pairs) := by
  simp [group]

theorem keys_appendUnder (k : K) (v : V) (d : List (K × List V)) : (appendUnder k v d).map Prod.fst
      = if k ∈ d.map Prod.fst then d.map Prod.fst else d.map Prod.fst ++ [k] := by
  induction d with
  | nil => simp [appendUnder]
  | cons p d ih =>
    obtain ⟨k', vs⟩ := p
    by_cases hk : k' = k
    · simp [appendUnder, hk]
    · have hk' : k ≠ k' := fun h => hk h.symm
      simp only [appendUnder, hk, if_false, List.map_cons, ih, List.mem_cons, hk', false_or]
      split <;> rfl

theorem nodup_keys_group (pairs : List (K × V)) : ((group pairs).map Prod.fst).Nodup := by
  induction pairs using List.reverseRecOn with
  | nil => exact List.nodup_nil
  | append_singleton pairs p ih =>
    rw [group_concat, keys_appendUnder]
    split
    · exact ih
    · rename_i hnew
      rw [List.nodup_append]
      refine ⟨ih, List.nodup_singleton _, ?_⟩
      intro a ha b hb
      rw [List.mem_singleton] at hb
      rw [hb]
      exact fun hab => hnew (hab ▸ ha)

theorem mem_appendUnder_iff {k k' : K} {v : V} {vs : List V} {d : List (K × List V)}
    (hd : (d.map Prod.fst).Nodup) :
    (k', vs) ∈ appendUnder k v d
      ↔ if k' = k then (∃ old, (k, old) ∈ d ∧ vs = old ++ [v]) ∨ (k ∉ d.map Prod.fst ∧ vs = [v])
        else (k', vs) ∈ d := by
  induction d with
  | nil => by_cases hk : k' = k <;> simp [appendUnder, hk]
  | cons p d ih =>
    obtain ⟨k₀, vs₀⟩ := p
    rw [List.map_cons, List.nodup_cons] at hd
    have ih := ih hd.2
    by_cases h₀ : k₀ = k
    · subst h₀
      rw [appendUnder, if_pos rfl]
      have hnone : ∀ old, (k₀, old) ∉ d := fun old h => hd.1 (List.mem_map.mpr ⟨_, h, rfl⟩)
      by_cases hk : k' = k₀
      · subst hk
        simp [hnone]
      · simp [hk]
    · rw [appendUnder, if_neg h₀, List.mem_cons, ih]
      have h₀' : k ≠ k₀ := fun h => h₀ h.symm
      by_cases hk : k' = k
      · subst hk
        simp [h₀']
      · simp [hk]

/-- **A grouped dictionary holds, under each key it has, all the values of that key in order.** -/
theorem mem_group_iff {pairs : List (K × V)} {k : K} {vs : List V} :
    (k, vs) ∈ group pairs ↔ vs = valuesOf pairs k ∧ vs ≠ [] := by
  induction pairs using List.reverseRecOn generalizing k vs with
  | nil => simp [group, valuesOf]
  | append_singleton pairs p ih =>
    obtain ⟨k₀, v⟩ := p
    rw [group_concat, mem_appendUnder_iff (nodup_keys_group pairs)]
    have hkeys : k₀ ∈ (group pairs).map Prod.fst ↔ valuesOf pairs k₀ ≠ [] := by
      constructor
      · intro h
        obtain ⟨⟨k', old⟩, hmem, rfl⟩ := List.mem_map.mp h
        obtain ⟨rfl, hne⟩ := ih.mp hmem
        exact hne
      · intro h
        exact List.mem_map.mpr ⟨_, ih.mpr ⟨rfl, h⟩, rfl⟩
    by_cases hk : k = k₀
    · subst hk
      have hvalues : valuesOf (pairs ++ [(k, v)]) k = valuesOf pairs k ++ [v] := by
        simp [valuesOf]
      rw [if_pos rfl, hvalues, hkeys, not_not]
      constructor
      · rintro (⟨old, hmem, rfl⟩ | ⟨hnil, rfl⟩)
        · obtain ⟨rfl, -⟩ := ih.mp hmem
          exact ⟨rfl, by simp⟩
        · exact ⟨by rw [hnil]; rfl, by simp⟩
      · rintro ⟨rfl, -⟩
        by_cases hnil : valuesOf pairs k = []
        · exact Or.inr ⟨hnil, by rw [hnil]; rfl⟩
        · exact Or.inl ⟨_, ih.mpr ⟨rfl, hnil⟩, rfl⟩
    · have hk' : k₀ ≠ k := fun h => hk h.symm
      have hvalues : valuesOf (pairs ++ [(k₀, v)]) k = valuesOf pairs k := by
        simp [valuesOf, hk']
      rw [if_neg hk, ih, hvalues]

end

/-! ## Loops in loops -/

theorem foldlM_flatMap {step : S → B → Except E S} {f : A → List B} (xs : List A) (s : S) :
    (xs.flatMap f).foldlM step s = xs.foldlM (fun s x => (f x).foldlM step s) s := by
  induction xs generalizing s with
  | nil => rfl
  | cons x xs ih =>
    rw [List.flatMap_cons, List.foldlM_append, List.foldlM_cons]
    exact congrArg _ (funext fun s' => ih s')

theorem foldlM_map_state {T : Type} {step' : T → A → Except E T} {f : S → T}
    (h : ∀ s x, (step s x).map f = step' (f s) x) (xs : List A) (s : S) :
    (xs.foldlM step s).map f = xs.foldlM step' (f s) := by
  induction xs generalizing s with
  | nil => rfl
  | cons x xs ih =>
    rw [List.foldlM_cons, List.foldlM_cons, ← h s x]
    cases step s x with
    | error e => rfl
    | ok s' => exact ih s'

theorem foldlM_eq_mapM {S : Type} {step : S → A → Except E S}
    {g : S → B → S} (h : ∀ s x, step s x = (f x).map (g s)) (xs : List A) (s : S) :
    xs.foldlM step s = (xs.mapM f).map (fun ys => ys.foldl g s) := by
  induction xs generalizing s with
  | nil => rfl
  | cons x xs ih =>
    rw [List.foldlM_cons, List.mapM_cons, h s x]
    cases f x with
    | error e => rfl
    | ok y =>
      show xs.foldlM step (g s y) = _
      rw [ih (g s y)]
      cases xs.mapM f <;> rfl

/-! ## Looking a key up -/

theorem mem_of_lookup_eq_some [BEq K] [LawfulBEq K] {d : List (K × V)} {k : K} {v : V}
    (h : d.lookup k = some v) : (k, v) ∈ d := by
  obtain ⟨pre, post, rfl, -⟩ := List.lookup_eq_some_iff.mp h
  exact List.mem_append_right pre List.mem_cons_self

theorem lookup_eq_some_iff_mem [BEq K] [LawfulBEq K] {d : List (K × V)} {k : K} {v : V}
    (hd : (d.map Prod.fst).Nodup) : d.lookup k = some v ↔ (k, v) ∈ d := by
  induction d with
  | nil => simp
  | cons p d ih =>
    obtain ⟨k', v'⟩ := p
    rw [List.map_cons, List.nodup_cons] at hd
    rw [List.lookup_cons]
    by_cases hk : k = k'
    · subst hk
      have hnone : (k, v) ∉ d := fun h => hd.1 (List.mem_map.mpr ⟨_, h, rfl⟩)
      simp only [beq_self_eq_true, List.mem_cons, Prod.mk.injEq, true_and, hnone, or_false,
        Option.some.injEq]
      exact eq_comm
    · have hne : (k == k') = false := by simpa using hk
      rw [hne]
      simp [hk, ih hd.2]

/-! ## Loops that only add -/

theorem foldl_establishes {f : S → A → S} {Grows : S → S → Prop} {P : A → S → Prop}
    (hrefl : ∀ s, Grows s s) (htrans : ∀ {s s' s''}, Grows s s' → Grows s' s'' → Grows s s'')
    (hstep : ∀ s x, Grows s (f s x)) (hdone : ∀ s x, P x (f s x))
    (hmono : ∀ {x s s'}, Grows s s' → P x s → P x s') (xs : List A) (s : S) :
    Grows s (xs.foldl f s) ∧ ∀ x ∈ xs, P x (xs.foldl f s) := by
  induction xs generalizing s with
  | nil => exact ⟨hrefl s, by simp⟩
  | cons x xs ih =>
    obtain ⟨hgrows, hall⟩ := ih (f s x)
    refine ⟨htrans (hstep s x) hgrows, fun y hy => ?_⟩
    rcases List.mem_cons.mp hy with rfl | hy
    · exact hmono hgrows (hdone s y)
    · exact hall y hy

end Python
