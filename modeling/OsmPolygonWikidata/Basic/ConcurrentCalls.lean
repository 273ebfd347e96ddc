import Mathlib.Algebra.BigOperators.Group.List.Basic
import Mathlib.Tactic.Abel

/-! # Calls that share a state and a clock

A system of concurrent calls is a shared state together with the local states of the calls that
are under way. One atomic action changes the shared state and the call that makes it, at a time
that the clock shows; the clock never goes back, any number of calls may be made, and any call may
act next.

Two rules speak about every reachable configuration:

* `Inductive.of_reach`: an invariant of the shared state, one of each call that the actions of the
  other calls do not break, and a relation between any two calls;
* `Reach.conserved`: a quantity of the shared state plus the weights of all calls is constant.
-/

namespace Concurrency

universe u v w

/-- The code that the calls run. `act time shared call` is the next atomic action of a call, if it
can act at that time. -/
structure Program (T : Type u) (S : Type v) (L : Type w) where
  init : S
  begins : L → Bool
  act : T → S → L → Option (S × L)

structure Config (T : Type u) (S : Type v) (L : Type w) where
  now : T
  shared : S
  calls : List L
  deriving DecidableEq

variable {T : Type u} [LE T] {S : Type v} {L : Type w}

/-- One step of the system. `ok` restricts the actions: `ok config time call` says that in
`config` the call may act at that time. -/
inductive Step (P : Program T S L) (ok : Config T S L → T → L → Prop) :
    Config T S L → Config T S L → Prop
  | enter {now time : T} {shared : S} {calls : List L} {call : L} :
      now ≤ time → P.begins call → Step P ok ⟨now, shared, calls⟩ ⟨time, shared, call :: calls⟩
  | act {now time : T} {shared shared' : S} {before after : List L} {call call' : L} :
      now ≤ time → ok ⟨now, shared, before ++ call :: after⟩ time call →
      P.act time shared call = some (shared', call') →
      Step P ok ⟨now, shared, before ++ call :: after⟩ ⟨time, shared', before ++ call' :: after⟩

/-- The configurations of all runs whose actions satisfy `ok`. -/
inductive Reach (P : Program T S L) (ok : Config T S L → T → L → Prop) : Config T S L → Prop
  | start (now : T) : Reach P ok ⟨now, P.init, []⟩
  | step {config config' : Config T S L} :
      Reach P ok config → Step P ok config config' → Reach P ok config'

/-- No restriction on the actions. -/
def anyAction : Config T S L → T → L → Prop := fun _ _ _ => True

instance (config : Config T S L) (time : T) (call : L) :
    Decidable (anyAction config time call) := isTrue trivial

/-! ## The invariant rule -/

/-- `I` of the shared state, `J` of each call and `R` of any two calls hold at the start, stay true
while time passes, and are kept by every action, of the call itself (`own`) and of the others
(`frame`). -/
structure Inductive (P : Program T S L) (ok : Config T S L → T → L → Prop) (I : T → S → Prop)
    (J : T → S → L → Prop) (R : L → L → Prop) : Prop where
  init : ∀ now, I now P.init
  symm : ∀ {call other}, R call other → R other call
  later : ∀ {now time shared}, now ≤ time → I now shared → I time shared
  laterCall : ∀ {now time shared call}, now ≤ time → J now shared call → J time shared call
  enters : ∀ {now shared call}, P.begins call → I now shared → J now shared call
  entersApart : ∀ {now shared call other}, P.begins call → J now shared other → R call other
  own : ∀ {config time call shared' call'}, ok config time call → call ∈ config.calls →
    I time config.shared → J time config.shared call →
    P.act time config.shared call = some (shared', call') → I time shared' ∧ J time shared' call'
  frame : ∀ {config time call shared' call' other}, ok config time call → other ∈ config.calls →
    I time config.shared → J time config.shared call → J time config.shared other →
    R call other → P.act time config.shared call = some (shared', call') → J time shared' other
  apart : ∀ {config time call shared' call' other}, ok config time call → I time config.shared →
    J time config.shared call → J time config.shared other → R call other →
    P.act time config.shared call = some (shared', call') → R call' other

/-- What the rule proves of a configuration. -/
structure Holds (I : T → S → Prop) (J : T → S → L → Prop) (R : L → L → Prop)
    (config : Config T S L) : Prop where
  shared : I config.now config.shared
  each : ∀ call ∈ config.calls, J config.now config.shared call
  pairs : config.calls.Pairwise R

theorem pairwise_middle {R : L → L → Prop} (symm : ∀ {a b}, R a b → R b a) {before after : List L}
    {call : L} :
    (before ++ call :: after).Pairwise R ↔
      (∀ other ∈ before ++ after, R call other) ∧ (before ++ after).Pairwise R := by
  rw [List.perm_middle.pairwise_iff symm, List.pairwise_cons]

section

variable {P : Program T S L} {ok : Config T S L → T → L → Prop} {I : T → S → Prop}
  {J : T → S → L → Prop} {R : L → L → Prop}

theorem Inductive.step (hind : Inductive P ok I J R) {config config' : Config T S L}
    (hstep : Step P ok config config') (h : Holds I J R config) : Holds I J R config' := by
  cases hstep with
  | @enter now time shared calls call htime hbegins =>
    have hshared : I time shared := hind.later htime h.shared
    have heach : ∀ other ∈ calls, J time shared other := fun other hother =>
      hind.laterCall htime (h.each other hother)
    refine ⟨hshared, List.forall_mem_cons.mpr ⟨hind.enters hbegins hshared, heach⟩, ?_⟩
    exact List.pairwise_cons.mpr
      ⟨fun other hother => hind.entersApart hbegins (heach other hother), h.pairs⟩
  | @act now time shared shared' before after call call' htime hok hact =>
    have hmem : call ∈ before ++ call :: after := by simp
    have hshared : I time shared := hind.later htime h.shared
    have heach : ∀ other ∈ before ++ call :: after, J time shared other := fun other hother =>
      hind.laterCall htime (h.each other hother)
    have hpairs := (pairwise_middle hind.symm).mp h.pairs
    have hsub : ∀ other ∈ before ++ after, other ∈ before ++ call :: after := by
      intro other hother
      rcases List.mem_append.mp hother with hin | hin <;> simp [hin]
    have hown := hind.own hok hmem hshared (heach call hmem) hact
    have hothers : ∀ other ∈ before ++ after, J time shared' other := fun other hother =>
      hind.frame hok (hsub other hother) hshared (heach call hmem)
        (heach other (hsub other hother)) (hpairs.1 other hother) hact
    refine ⟨hown.1, ?_, (pairwise_middle hind.symm).mpr ⟨fun other hother => ?_, hpairs.2⟩⟩
    · -- the acting call by its own action, the others by the frame condition
      intro other hother
      rcases List.mem_append.mp hother with hin | hin
      · exact hothers other (List.mem_append_left _ hin)
      · rcases List.mem_cons.mp hin with rfl | hin
        · exact hown.2
        · exact hothers other (List.mem_append_right _ hin)
    · exact hind.apart hok hshared (heach call hmem) (heach other (hsub other hother))
        (hpairs.1 other hother) hact

theorem Inductive.of_reach (hind : Inductive P ok I J R) {config : Config T S L}
    (hreach : Reach P ok config) : Holds I J R config := by
  induction hreach with
  | start now => exact ⟨hind.init now, by simp, List.Pairwise.nil⟩
  | step _ hstep ih => exact hind.step hstep ih

end

/-! ## The conservation rule -/

variable {ok : Config T S L → T → L → Prop} {P : Program T S L} {config config' : Config T S L}

theorem Step.conserved {M : Type} [AddCommMonoid M] (f : S → M) (weight : L → M)
    (hbegins : ∀ call, P.begins call → weight call = 0)
    (hact : ∀ {time shared call shared' call'}, P.act time shared call = some (shared', call') →
        f shared' + weight call' = f shared + weight call)
    (hstep : Step P ok config config') :
    f config'.shared + (config'.calls.map weight).sum
      = f config.shared + (config.calls.map weight).sum := by
  cases hstep with
  | enter _ hcall => simp [hbegins _ hcall]
  | @act now time shared shared' before after call call' _ _ hcall =>
    have hone := hact hcall
    show f shared' + ((before ++ call' :: after).map weight).sum
      = f shared + ((before ++ call :: after).map weight).sum
    calc f shared' + ((before ++ call' :: after).map weight).sum
        = (f shared' + weight call') + ((before.map weight).sum + (after.map weight).sum) := by
          simp only [List.map_append, List.map_cons, List.sum_append, List.sum_cons]
          abel
      _ = (f shared + weight call)
            + ((before.map weight).sum + (after.map weight).sum) := by rw [hone]
      _ = f shared + ((before ++ call :: after).map weight).sum := by
          simp only [List.map_append, List.map_cons, List.sum_append, List.sum_cons]
          abel

theorem Reach.conserved {M : Type} [AddCommMonoid M] (f : S → M) (weight : L → M)
    (hbegins : ∀ call, P.begins call → weight call = 0)
    (hact : ∀ {time shared call shared' call'}, P.act time shared call = some (shared', call') →
        f shared' + weight call' = f shared + weight call)
    {config : Config T S L} (hreach : Reach P ok config) :
    f config.shared + (config.calls.map weight).sum = f P.init := by
  induction hreach with
  | start now => simp
  | step _ hstep ih => rw [Step.conserved f weight hbegins hact hstep, ih]

/-! ## Runs that can be computed -/

/-- A call is made, or the call at a position acts. -/
inductive Event (T : Type u) (L : Type w)
  | enter (time : T) (call : L)
  | act (time : T) (index : Nat)

variable [DecidableLE T]

def Program.next (P : Program T S L) (ok : Config T S L → T → L → Prop)
    [∀ config time call, Decidable (ok config time call)] (config : Config T S L) :
    Event T L → Option (Config T S L)
  | .enter time call =>
    if config.now ≤ time ∧ P.begins call then some ⟨time, config.shared, call :: config.calls⟩
    else none
  | .act time index =>
    if config.now ≤ time then
      config.calls[index]?.bind fun call =>
        if ok config time call then
          (P.act time config.shared call).map fun result =>
            ⟨time, result.1, config.calls.set index result.2⟩
        else none
    else none

/-- The configuration after a list of events, from the start at a given time. -/
def Program.execute (P : Program T S L) (ok : Config T S L → T → L → Prop)
    [∀ config time call, Decidable (ok config time call)] (now : T)
    (events : List (Event T L)) : Option (Config T S L) :=
  events.foldlM (P.next ok) ⟨now, P.init, []⟩

theorem Step.of_next [∀ config time call, Decidable (ok config time call)]
    {event : Event T L} (h : P.next ok config event = some config') : Step P ok config config' := by
  cases event with
  | enter time call =>
    simp only [Program.next, Option.ite_none_right_eq_some, Option.some.injEq] at h
    obtain ⟨⟨htime, hbegins⟩, rfl⟩ := h
    exact Step.enter htime hbegins
  | act time index =>
    simp only [Program.next, Option.ite_none_right_eq_some, Option.bind_eq_some_iff,
      Option.map_eq_some_iff] at h
    obtain ⟨htime, call, hcall, hok, ⟨shared', call'⟩, hact, rfl⟩ := h
    obtain ⟨hlt, hget⟩ := List.getElem?_eq_some_iff.mp hcall
    -- the list split at the position of the acting call
    have hsplit : config.calls
        = config.calls.take index ++ call :: config.calls.drop (index + 1) := by
      rw [← hget, List.cons_getElem_drop_succ, List.take_append_drop]
    have hset : config.calls.set index call'
        = config.calls.take index ++ call' :: config.calls.drop (index + 1) :=
      List.set_eq_take_append_cons_drop.trans (if_pos hlt)
    obtain ⟨now, shared, calls⟩ := config
    simp only at hsplit hset htime hok hact ⊢
    rw [hset]
    have hstep : Step P ok ⟨now, shared, calls.take index ++ call :: calls.drop (index + 1)⟩
        ⟨time, shared', calls.take index ++ call' :: calls.drop (index + 1)⟩ :=
      Step.act htime (hsplit ▸ hok) hact
    rwa [← hsplit] at hstep

theorem Reach.of_foldlM
    [∀ config time call, Decidable (ok config time call)] (events : List (Event T L))
    (hreach : Reach P ok config)
    (h : events.foldlM (P.next ok) config = some config') : Reach P ok config' := by
  induction events generalizing config with
  | nil =>
    obtain rfl : config = config' := by simpa using h
    exact hreach
  | cons event events ih =>
    obtain ⟨middle, hnext, hrest⟩ := Option.bind_eq_some_iff.mp h
    exact ih (hreach.step (Step.of_next hnext)) hrest

theorem Reach.of_execute
    [∀ config time call, Decidable (ok config time call)] {now : T} {events : List (Event T L)}
    {config : Config T S L} (h : P.execute ok now events = some config) : Reach P ok config :=
  Reach.of_foldlM events (Reach.start now) h

end Concurrency
