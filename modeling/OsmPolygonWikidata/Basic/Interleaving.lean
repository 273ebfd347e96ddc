import Mathlib.Data.List.Basic
import Mathlib.Data.List.Count

/-! # Interleavings of atomic steps

Threads share a state and take atomic steps one after the other, in an order that a *schedule*
fixes. A thread is its local state; `code` says what one step does to the local and the shared
state, and which operation, if any, takes effect in it. The operations that take effect along a
run, in order, are its *effects*: a serial order of the operations, provided that every step
changes a view of the shared state exactly as its effect does (`run_view`). The effects of one
thread come in the order of its program (`effects_thread`).
-/

namespace Interleaving

variable {ι L σ α β : Type} [DecidableEq ι]

/-- One atomic step: the new local state, the new shared state, the operation taking effect. -/
abbrev Code (L σ α : Type) := L → σ → L × σ × Option α

structure Config (ι L σ : Type) where
  threads : ι → L
  shared : σ

namespace Config

variable (code : Code L σ α)

/-- Thread `t` takes a step. -/
def step (t : ι) (c : Config ι L σ) : Config ι L σ where
  threads := Function.update c.threads t (code (c.threads t) c.shared).1
  shared := (code (c.threads t) c.shared).2.1

/-- The operation that takes effect when thread `t` takes a step, as a list. -/
def effect (t : ι) (c : Config ι L σ) : List (ι × α) :=
  ((code (c.threads t) c.shared).2.2.map (fun a => (t, a))).toList

def run : List ι → Config ι L σ → Config ι L σ
  | [], c => c
  | t :: schedule, c => run schedule (c.step code t)

/-- The operations that take effect along a run, in order. -/
def effects : List ι → Config ι L σ → List (ι × α)
  | [], _ => []
  | t :: schedule, c => c.effect code t ++ effects schedule (c.step code t)

/-- `P t c` holds whenever thread `t` takes a step from `c` along the run. -/
def Along (P : ι → Config ι L σ → Prop) : List ι → Config ι L σ → Prop
  | [], _ => True
  | t :: schedule, c => P t c ∧ Along P schedule (c.step code t)

instance decidableAlong (P : ι → Config ι L σ → Prop) [∀ t c, Decidable (P t c)] :
    (schedule : List ι) → (c : Config ι L σ) → Decidable (c.Along code P schedule)
  | [], _ => inferInstanceAs (Decidable True)
  | t :: schedule, c => @instDecidableAnd _ _ (inferInstanceAs (Decidable (P t c)))
      (decidableAlong P schedule (c.step code t))

variable {code}

theorem along_true (schedule : List ι) (c : Config ι L σ) :
    c.Along code (fun _ _ => True) schedule := by
  induction schedule generalizing c with
  | nil => trivial
  | cons t schedule ih => exact ⟨trivial, ih _⟩

omit [DecidableEq ι] in
theorem foldl_effect (apply : β → α → β) (b : β) (t : ι) (c : Config ι L σ) :
    (c.effect code t).foldl (fun b e => apply b e.2) b
      = (code (c.threads t) c.shared).2.2.toList.foldl apply b := by
  unfold effect
  cases (code (c.threads t) c.shared).2.2 with
  | none => rfl
  | some a => rfl

/-- A view of the shared state that each step changes as its effect does is changed by a run as
its effects do, one after the other. -/
theorem run_view {I : Config ι L σ → Prop} {P : ι → Config ι L σ → Prop} (view : σ → β)
    (apply : β → α → β) (hstep : ∀ t c, I c → I (c.step code t))
    (hview : ∀ t c, I c → P t c → view (c.step code t).shared
      = (code (c.threads t) c.shared).2.2.toList.foldl apply (view c.shared))
    (schedule : List ι) {c : Config ι L σ} (hc : I c) (hP : c.Along code P schedule) :
    view (c.run code schedule).shared
      = (c.effects code schedule).foldl (fun b e => apply b e.2) (view c.shared) := by
  induction schedule generalizing c with
  | nil => rfl
  | cons t schedule ih =>
    rw [effects, List.foldl_append, foldl_effect, ← hview t c hc hP.1]
    exact ih (hstep t c hc) hP.2

/-- An invariant kept by the steps that satisfy `P`, and a property of the effects that holds when
they occur and is not lost later. -/
theorem run_effects {I : Config ι L σ → Prop} {P : ι → Config ι L σ → Prop}
    {R : α → Config ι L σ → Prop} (hstep : ∀ t c, I c → P t c → I (c.step code t))
    (hemit : ∀ t c a, I c → P t c → (code (c.threads t) c.shared).2.2 = some a →
      R a (c.step code t))
    (hkeep : ∀ t c a, I c → P t c → R a c → R a (c.step code t))
    (schedule : List ι) {c : Config ι L σ} (hc : I c) (hP : c.Along code P schedule) :
    ∀ e ∈ c.effects code schedule, R e.2 (c.run code schedule) := by
  -- what already holds of an effect is kept by the rest of the run
  have hlast : ∀ (schedule : List ι) (c : Config ι L σ), I c → c.Along code P schedule →
      ∀ a, R a c → R a (c.run code schedule) := by
    intro schedule
    induction schedule with
    | nil => exact fun c _ _ a h => h
    | cons t schedule ih =>
      exact fun c hc hP a h => ih _ (hstep t c hc hP.1) hP.2 a (hkeep t c a hc hP.1 h)
  induction schedule generalizing c with
  | nil => simp [effects]
  | cons t schedule ih =>
    intro e he
    rw [effects, List.mem_append] at he
    rcases he with he | he
    · unfold effect at he
      cases hcode : (code (c.threads t) c.shared).2.2 with
      | none => rw [hcode] at he; simp at he
      | some a =>
        rw [hcode] at he
        obtain rfl : e = (t, a) := by simpa using he
        exact hlast schedule _ (hstep t c hc hP.1) hP.2 a (hemit t c a hc hP.1 hcode)
    · exact ih (hstep t c hc hP.1) hP.2 e he

theorem run_thread {p : L → Prop} (hstep : ∀ l s, p l → p (code l s).1) (schedule : List ι)
    (c : Config ι L σ) {t : ι} (h : p (c.threads t)) : p ((c.run code schedule).threads t) := by
  induction schedule generalizing c with
  | nil => exact h
  | cons u schedule ih =>
    refine ih (c.step code u) ?_
    rw [step]
    by_cases hut : u = t
    · subst hut
      simp only [Function.update_self]
      exact hstep _ _ h
    · simp only [Function.update_of_ne (Ne.symm hut)]
      exact h

theorem run_work (work : L → Nat) (hwork : ∀ l s, work (code l s).1 ≤ work l - 1)
    (schedule : List ι) (c : Config ι L σ) (t : ι) :
    work ((c.run code schedule).threads t) ≤ work (c.threads t) - schedule.count t := by
  induction schedule generalizing c with
  | nil => exact Nat.le_refl _
  | cons u schedule ih =>
    have h := ih (c.step code u)
    rw [show c.run code (u :: schedule) = (c.step code u).run code schedule from rfl]
    by_cases hut : u = t
    · subst hut
      have hstep : work ((c.step code u).threads u) ≤ work (c.threads u) - 1 := by
        rw [step]
        simp only [Function.update_self]
        exact hwork _ _
      rw [List.count_cons_self]
      omega
    · have hstep : (c.step code u).threads t = c.threads t := by
        rw [step]
        simp only [Function.update_of_ne (Ne.symm hut)]
      rw [hstep] at h
      rwa [List.count_cons_of_ne hut]

/-- The operations of one thread take effect in the order of its program: `todo` lists the
operations a local state has still to perform. -/
theorem effects_thread (todo : L → List α)
    (htodo : ∀ l s, todo l = (code l s).2.2.toList ++ todo (code l s).1)
    (schedule : List ι) (c : Config ι L σ) (t : ι) :
    ((c.effects code schedule).filter (fun e => e.1 = t)).map Prod.snd
      ++ todo ((c.run code schedule).threads t) = todo (c.threads t) := by
  induction schedule generalizing c with
  | nil => rfl
  | cons u schedule ih =>
    rw [effects, List.filter_append, List.map_append, List.append_assoc]
    have hrest := ih (c.step code u)
    rw [show (c.run code (u :: schedule)) = (c.step code u).run code schedule from rfl, hrest]
    by_cases hut : u = t
    · subst hut
      have heff : ((c.effect code u).filter (fun e => e.1 = u)).map Prod.snd
          = (code (c.threads u) c.shared).2.2.toList := by
        unfold effect
        cases (code (c.threads u) c.shared).2.2 with
        | none => rfl
        | some a => simp
      rw [heff, step]
      simp only [Function.update_self]
      exact (htodo _ _).symm
    · have heff : ((c.effect code u).filter (fun e => e.1 = t)).map Prod.snd = [] := by
        unfold effect
        cases (code (c.threads u) c.shared).2.2 with
        | none => rfl
        | some a => simp [hut]
      rw [heff, List.nil_append, step]
      simp only [Function.update_of_ne (Ne.symm hut)]

end Config

end Interleaving
