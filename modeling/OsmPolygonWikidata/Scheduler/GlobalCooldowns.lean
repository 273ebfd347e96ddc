import OsmPolygonWikidata.Scheduler.AdaptiveRate

/-! # Global cooldowns and reserved starts

`run` takes the global cooldown into account when it reserves its start, and not again after it has
slept. A cooldown that is registered in between is honoured only by the calls whose start is
reserved after it. `honoured_of_reach` says so for every run in which no cooldown is registered
past the earliest start of a call that holds a reservation.
-/

namespace Scheduler

open Concurrency

/-- The end of the cooldown that a call is about to register. -/
def registers? (clock : ℚ) : Call → Option ℚ
  | .deferring delay => some (clock + max 0 delay)
  | .reportingThrottled delay => some (clock + max 0 delay)
  | .escalating delay _ => some (clock + max 0 delay)
  | _ => none

/-- The earliest start of a call that has reserved one and has not started. -/
def earliestStart? (clock : ℚ) : Call → Option ℚ
  | .reserved readyAt => some (max clock readyAt)
  | .waiting _ wakesAt => some (max clock wakesAt)
  | _ => none

/-- An action registers no cooldown past the earliest start of a call that holds a reservation. -/
def NotPastReservations (config : Config ℚ GlobalState Call) (clock : ℚ) (call : Call) : Prop :=
  ∀ u ∈ registers? clock call, ∀ other ∈ config.calls, ∀ start ∈ earliestStart? clock other,
    u ≤ start

instance (config : Config ℚ GlobalState Call) (clock : ℚ) (call : Call) :
    Decidable (NotPastReservations config clock call) := by
  unfold NotPastReservations
  infer_instance

/-- No operation has started inside a cooldown that had been registered before. -/
def Honoured (calls : List Call) : Prop :=
  ∀ startedAt seen, Call.running startedAt seen ∈ calls → ∀ u ∈ seen, u ≤ startedAt

namespace AdaptiveRequestScheduler

variable {scheduler : AdaptiveRequestScheduler} {clock : ℚ} {state state' : GlobalState}
  {call call' other : Call}

theorem cooldown_of_act (hact : scheduler.act clock state call = some (state', call')) :
    (registers? clock call = none ∧ state'.registered = state.registered
        ∧ state'.rate.cooldownUntil = state.rate.cooldownUntil)
    ∨ ∃ u, registers? clock call = some u ∧ state'.registered = u :: state.registered
        ∧ state'.rate.cooldownUntil = max state.rate.cooldownUntil u ∧ call' = .done := by
  cases call <;> simp only [AdaptiveRequestScheduler.act, reduceCtorEq, Option.some.injEq,
    Prod.mk.injEq, Option.ite_none_right_eq_some, Option.ite_none_left_eq_some] at hact
  case reserved readyAt =>
    split at hact <;>
    · simp only [Option.some.injEq, Prod.mk.injEq] at hact
      obtain ⟨rfl, rfl⟩ := hact
      exact Or.inl ⟨rfl, rfl, rfl⟩
  case reportingSuccess =>
    obtain ⟨rfl, rfl⟩ := hact
    unfold reportSuccess
    split_ifs <;> exact Or.inl ⟨rfl, rfl, rfl⟩
  case recordingHost host delay now =>
    obtain ⟨rfl, rfl⟩ := hact
    rcases recordSystemicHostEvent_cases scheduler state clock now host with ⟨_, heq⟩ | heq <;>
    · rw [heq]
      exact Or.inl ⟨rfl, rfl, rfl⟩
  case deferring delay => obtain ⟨rfl, rfl⟩ := hact; exact Or.inr ⟨_, rfl, rfl, rfl, rfl⟩
  case reportingThrottled delay => obtain ⟨rfl, rfl⟩ := hact; exact Or.inr ⟨_, rfl, rfl, rfl, rfl⟩
  case escalating delay stamp => obtain ⟨rfl, rfl⟩ := hact; exact Or.inr ⟨_, rfl, rfl, rfl, rfl⟩
  case entering => obtain ⟨_, rfl, rfl⟩ := hact; exact Or.inl ⟨rfl, rfl, rfl⟩
  case waiting readyAt wakesAt => obtain ⟨_, rfl, rfl⟩ := hact; exact Or.inl ⟨rfl, rfl, rfl⟩
  all_goals obtain ⟨rfl, rfl⟩ := hact; exact Or.inl ⟨rfl, rfl, rfl⟩

/-! ## The invariant -/

/-- The cooldown covers every cooldown that was registered. -/
def Cooled (state : GlobalState) : Prop := ∀ u ∈ state.registered, u ≤ state.rate.cooldownUntil

/-- The cooldowns of a call are over at its start, and before it at its earliest start. -/
def StartSound (clock : ℚ) (state : GlobalState) (call : Call) : Prop :=
  (∀ start ∈ earliestStart? clock call, ∀ u ∈ state.registered, u ≤ start)
    ∧ ∀ startedAt seen, call = .running startedAt seen → ∀ u ∈ seen, u ≤ startedAt

theorem Cooled.act (h : Cooled state)
    (hact : scheduler.act clock state call = some (state', call')) : Cooled state' := by
  rcases cooldown_of_act hact with ⟨_, hregistered, hcooldown⟩ | ⟨u, _, hregistered, hcooldown, _⟩
  · intro v hv
    rw [hcooldown]
    exact h v (hregistered ▸ hv)
  · intro v hv
    rw [hcooldown]
    rcases List.mem_cons.mp (hregistered ▸ hv) with rfl | hv
    · exact le_max_right _ _
    · exact (h v hv).trans (le_max_left _ _)

theorem StartSound.later {now : ℚ} (hle : now ≤ clock) (h : StartSound now state call) :
    StartSound clock state call := by
  refine ⟨fun start hstart u hu => ?_, h.2⟩
  cases call <;> simp only [earliestStart?, Option.mem_def, reduceCtorEq, Option.some.injEq]
    at hstart
  case reserved readyAt =>
    rw [← hstart]
    exact (h.1 _ rfl u hu).trans (max_le_max_right readyAt hle)
  case waiting readyAt wakesAt =>
    rw [← hstart]
    exact (h.1 _ rfl u hu).trans (max_le_max_right wakesAt hle)

theorem startSound_of_none (hstart : earliestStart? clock call = none)
    (hrunning : ∀ startedAt seen, call ≠ .running startedAt seen) : StartSound clock state call :=
  ⟨fun start h => absurd (hstart.symm.trans h) (by simp),
    fun startedAt seen h => absurd h (hrunning startedAt seen)⟩

theorem StartSound.act (hstate : Cooled state) (h : StartSound clock state call)
    (hact : scheduler.act clock state call = some (state', call')) :
    StartSound clock state' call' := by
  cases call <;> simp only [AdaptiveRequestScheduler.act, reduceCtorEq, Option.some.injEq,
    Prod.mk.injEq, Option.ite_none_right_eq_some, Option.ite_none_left_eq_some] at hact
  case admitted =>
    -- the reservation covers the cooldown of this moment
    obtain ⟨rfl, rfl⟩ := hact
    refine ⟨fun start hstart u hu => ?_, fun _ _ h => by cases h⟩
    rw [← Option.some.inj hstart]
    exact (hstate u hu).trans ((le_max_right _ _).trans (le_max_right _ _))
  case reserved readyAt =>
    split at hact
    · rename_i hwait
      simp only [Option.some.injEq, Prod.mk.injEq] at hact
      obtain ⟨rfl, rfl⟩ := hact
      refine ⟨fun start hstart u hu => ?_, fun _ _ h => by cases h⟩
      have hearliest := h.1 _ rfl u hu
      rw [← Option.some.inj hstart, add_sub_cancel]
      exact hearliest
    · rename_i hwait
      simp only [Option.some.injEq, Prod.mk.injEq] at hact
      obtain ⟨rfl, rfl⟩ := hact
      refine ⟨fun start hstart u hu => ?_, fun _ _ h => by cases h⟩
      have hearliest := h.1 _ rfl u hu
      rw [max_eq_left (by linarith)] at hearliest
      exact (Option.some.inj hstart) ▸ hearliest.trans (le_max_left _ _)
  case waiting readyAt wakesAt =>
    -- the start: it is the earliest start of this moment
    obtain ⟨hwake, rfl, rfl⟩ := hact
    refine ⟨fun start hstart => absurd hstart (by simp [earliestStart?]),
      fun startedAt seen heq u hu => ?_⟩
    cases heq
    have hearliest := h.1 _ rfl u hu
    rwa [max_eq_left (not_lt.mp hwake)] at hearliest
  case recordingHost host delay now =>
    obtain ⟨rfl, rfl⟩ := hact
    split_ifs <;> exact startSound_of_none rfl (by simp)
  case entering => obtain ⟨_, rfl, rfl⟩ := hact; exact startSound_of_none rfl (by simp)
  all_goals obtain ⟨rfl, rfl⟩ := hact; exact startSound_of_none rfl (by simp)

theorem StartSound.act_other {config : Config ℚ GlobalState Call}
    (hok : NotPastReservations config clock call) (hmem : other ∈ config.calls)
    (h : StartSound clock state other)
    (hact : scheduler.act clock state call = some (state', call')) :
    StartSound clock state' other := by
  refine ⟨fun start hstart v hv => ?_, h.2⟩
  rcases cooldown_of_act hact with ⟨_, hregistered, _⟩ | ⟨u, hregisters, hregistered, _, _⟩
  · exact h.1 start hstart v (hregistered ▸ hv)
  · rcases List.mem_cons.mp (hregistered ▸ hv) with rfl | hv
    · exact hok v hregisters other hmem start hstart
    · exact h.1 start hstart v hv

theorem inductive_cooldowns :
    Inductive scheduler.program NotPastReservations (fun _ => Cooled) StartSound
      (fun _ _ => True) where
  init := by intro _ u hu; cases hu
  symm := fun _ => trivial
  later := fun _ h => h
  laterCall := fun hle h => h.later hle
  enters := by
    intro _ _ call hbegins _
    cases call <;> first
      | exact absurd hbegins Bool.false_ne_true
      | exact startSound_of_none rfl (by simp)
  entersApart := fun _ _ => trivial
  own := fun _ _ hstate hcall hact => ⟨hstate.act hact, hcall.act hstate hact⟩
  frame := fun hok hmem _ _ hother _ hact => hother.act_other hok hmem hact
  apart := fun _ _ _ _ _ _ => trivial

theorem honoured_of_reach {config : Config ℚ GlobalState Call}
    (h : Reach scheduler.program NotPastReservations config) : Honoured config.calls :=
  fun startedAt seen hmem => (inductive_cooldowns.of_reach h).each _ hmem |>.2 startedAt seen rfl

/-! ## Runs that go on to a start -/

theorem steps_of_waiting (scheduler : AdaptiveRequestScheduler) (state : GlobalState)
    (now readyAt wakesAt : ℚ) (left right : List Call) :
    ∃ final, Relation.ReflTransGen (Step scheduler.program anyAction)
      ⟨now, state, left ++ .waiting readyAt wakesAt :: right⟩
      ⟨max now wakesAt, final, left ++ .running (max now wakesAt) state.registered :: right⟩ := by
  have hact : scheduler.act (max now wakesAt) state (.waiting readyAt wakesAt)
      = some ({ state with rate.inFlight := state.rate.inFlight + 1 },
          .running (max now wakesAt) state.registered) :=
    if_neg (not_lt.mpr (le_max_right _ _))
  exact ⟨_, Relation.ReflTransGen.single (Step.act (le_max_left _ _) trivial hact)⟩

/-- A call that holds a reservation can start at its earliest start, whatever is registered. -/
theorem steps_to_earliestStart (scheduler : AdaptiveRequestScheduler) (state : GlobalState)
    {now start : ℚ} (left right : List Call) (hstart : earliestStart? now other = some start) :
    ∃ final, Relation.ReflTransGen (Step scheduler.program anyAction)
      ⟨now, state, left ++ other :: right⟩
      ⟨start, final, left ++ .running start state.registered :: right⟩ := by
  cases other <;> simp only [earliestStart?, reduceCtorEq, Option.some.injEq] at hstart
  case waiting readyAt wakesAt =>
    rw [← hstart]
    exact steps_of_waiting scheduler state now readyAt wakesAt left right
  case reserved readyAt =>
    by_cases hwait : 0 < readyAt - now
    · have hact : scheduler.act now state (.reserved readyAt)
          = some (state, .waiting readyAt (now + (readyAt - now))) := if_pos hwait
      obtain ⟨final, hsteps⟩ :=
        steps_of_waiting scheduler state now readyAt (now + (readyAt - now)) left right
      rw [add_sub_cancel, hstart] at hsteps
      rw [add_sub_cancel] at hact
      exact ⟨final, hsteps.head (Step.act le_rfl trivial hact)⟩
    · -- the reserved start is over already: the call does not sleep
      have hact : scheduler.act now state (.reserved readyAt)
          = some (state, .waiting readyAt now) := if_neg hwait
      have hnow : now = start := by
        rw [← hstart, max_eq_left (by linarith)]
      obtain ⟨final, hsteps⟩ := steps_of_waiting scheduler state now readyAt now left right
      rw [max_self] at hsteps
      exact ⟨final, hnow ▸ hsteps.head (Step.act le_rfl trivial hact)⟩

/-- **The condition is exact**: from a state in which a cooldown is about to be registered past the
reservation of another call, the run can go on so that this call starts inside the cooldown. -/
theorem exists_start_inside_cooldown {now u start : ℚ} {before after : List Call}
    (hclock : now ≤ clock) (hact : scheduler.act clock state call = some (state', call'))
    (hregisters : registers? clock call = some u) (hother : other ∈ before ++ after)
    (hstart : earliestStart? clock other = some start) (hlate : start < u) :
    ∃ left right final startedAt seen, before ++ call' :: after = left ++ other :: right
      ∧ Relation.ReflTransGen (Step scheduler.program anyAction)
          ⟨now, state, before ++ call :: after⟩
          ⟨startedAt, final, left ++ .running startedAt seen :: right⟩
      ∧ u ∈ seen ∧ startedAt < u := by
  have hregistered : u ∈ state'.registered := by
    rcases cooldown_of_act hact with ⟨hnone, _, _⟩ | ⟨v, hv, hregistered, _, _⟩
    · rw [hnone] at hregisters
      cases hregisters
    · obtain rfl : v = u := Option.some.inj (hv.symm.trans hregisters)
      rw [hregistered]
      exact List.mem_cons_self
  have hmem : other ∈ before ++ call' :: after := by
    rcases List.mem_append.mp hother with hin | hin <;> simp [hin]
  obtain ⟨left, right, hsplit⟩ := List.append_of_mem hmem
  obtain ⟨final, hsteps⟩ := steps_to_earliestStart scheduler state' left right hstart
  rw [← hsplit] at hsteps
  exact ⟨left, right, final, start, state'.registered, hsplit,
    hsteps.head (Step.act hclock trivial hact), hregistered, hlate⟩

/-! ## A cooldown that is missed -/

/-- The second of two requests sleeps until a third of a second when a cooldown of ten seconds is
registered at 0. -/
def missedExample : List (Event ℚ Call) :=
  [.enter 0 .entering, .act 0 0, .act 0 0, .enter 0 .entering, .act 0 0, .act 0 0, .act 0 0,
    .enter 0 (.deferring 10), .act 0 0, .act (1 / 3) 1]

def missedConfig : Config ℚ GlobalState Call where
  now := 1 / 3
  shared := ⟨⟨180, 0, 2 / 3, 10, 1, none⟩, ⟨[], []⟩, 1, [10], []⟩
  calls := [.done, .running (1 / 3) [10], .reserved 0]

theorem execute_missedExample :
    defaultScheduler.program.execute anyAction 0 missedExample = some missedConfig := by
  decide +kernel

theorem exists_missed_cooldown :
    ¬ ∀ (arguments : SchedulerArguments) (scheduler : AdaptiveRequestScheduler),
      init arguments = .ok scheduler → ∀ config : Config ℚ GlobalState Call,
        Reach scheduler.program anyAction config → Honoured config.calls := by
  intro h
  have hhonoured := h {} defaultScheduler (by decide +kernel) missedConfig
    (Reach.of_execute execute_missedExample)
  have hle := hhonoured (1 / 3) [10] (by simp [missedConfig]) 10 (by simp)
  norm_num at hle

/-- The state in which the cooldown is about to be registered. -/
def reservedState : GlobalState := ⟨⟨180, 0, 2 / 3, 0, 0, none⟩, ⟨[], []⟩, 1, [], []⟩

/-- The configuration in which the second request sleeps and the cooldown is about to be
registered. -/
def deferringConfig : Config ℚ GlobalState Call :=
  ⟨0, reservedState, [] ++ .deferring 10 :: [.waiting (1 / 3) (1 / 3), .reserved 0]⟩

theorem missed_start_exists : Reach defaultScheduler.program anyAction deferringConfig
    ∧ ∃ left right final startedAt seen,
      [Call.done, .waiting (1 / 3) (1 / 3), .reserved 0]
        = left ++ .waiting (1 / 3) (1 / 3) :: right
      ∧ Relation.ReflTransGen (Step defaultScheduler.program anyAction) deferringConfig
          ⟨startedAt, final, left ++ .running startedAt seen :: right⟩
      ∧ 10 ∈ seen ∧ startedAt < 10 := by
  have hexecute : defaultScheduler.program.execute anyAction 0 (missedExample.take 8)
      = some deferringConfig := by
    decide +kernel
  have hregisters : registers? 0 (.deferring 10) = some 10 := by decide +kernel
  have hstart : earliestStart? 0 (.waiting (1 / 3) (1 / 3)) = some (1 / 3) := by decide +kernel
  exact ⟨Reach.of_execute hexecute, @exists_start_inside_cooldown defaultScheduler 0 reservedState
    _ _ _ _ 0 10 (1 / 3) [] [.waiting (1 / 3) (1 / 3), .reserved 0] le_rfl rfl hregisters
    List.mem_cons_self hstart (by norm_num)⟩

/-- The cooldown is registered before the requests reserve their starts. -/
def honouredExample : List (Event ℚ Call) :=
  [.enter 0 (.deferring 10), .act 0 0, .enter 0 .entering, .act 0 0, .act 0 0, .act 0 0, .act 10 0]

def honouredConfig : Config ℚ GlobalState Call where
  now := 10
  shared := ⟨⟨180, 0, 10 + 1 / 3, 10, 1, none⟩, ⟨[], []⟩, 2, [10], []⟩
  calls := [.running 10 [10], .done]

theorem execute_honouredExample :
    defaultScheduler.program.execute NotPastReservations 0 honouredExample
      = some honouredConfig := by
  decide +kernel

theorem honoured_of_reach_example : Honoured honouredConfig.calls :=
  honoured_of_reach (Reach.of_execute execute_honouredExample)

end AdaptiveRequestScheduler

end Scheduler
