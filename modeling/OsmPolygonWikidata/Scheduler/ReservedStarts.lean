import OsmPolygonWikidata.Scheduler.AdaptiveRate

/-! # The spacing of reserved starts

`run` reserves its start under the lock: at the next free time, and not inside a cooldown. The next
free time then moves on by the interval of the current rate, and nothing else moves it.
`reserved_starts_spaced` says what that gives for any two reservations of a run, whatever the rate
does in between.
-/

namespace Scheduler

open Concurrency

namespace AdaptiveRequestScheduler

variable {scheduler : AdaptiveRequestScheduler} {clock : ℚ} {state state' : GlobalState}
  {call call' : Call} {config config' : Config ℚ GlobalState Call}

/-- An admitted call reserves its start. -/
inductive Reserves : Config ℚ GlobalState Call → Config ℚ GlobalState Call → ℚ → Prop
  | intro {now time : ℚ} {shared : GlobalState} {before after : List Call} (htime : now ≤ time) :
      Reserves ⟨now, shared, before ++ .admitted :: after⟩
        ⟨time, (reserve time shared).1, before ++ .reserved (reserve time shared).2 :: after⟩
        (reserve time shared).2

theorem nextRequestAt_le_reserve (clock : ℚ) (state : GlobalState) :
    state.rate.nextRequestAt ≤ (reserve clock state).2 :=
  (le_max_right clock _).trans (le_max_left _ _)

theorem Reserves.step {readyAt : ℚ} (h : Reserves config config' readyAt) :
    Step scheduler.program anyAction config config' := by
  cases h with
  | intro htime => exact Step.act htime trivial rfl

theorem nextRequestAt_le_of_act (hscheduler : scheduler.Accepted)
    (hlimits : scheduler.WithinLimits state)
    (hact : scheduler.act clock state call = some (state', call')) :
    state.rate.nextRequestAt ≤ state'.rate.nextRequestAt := by
  cases call <;> simp only [AdaptiveRequestScheduler.act, reduceCtorEq, Option.some.injEq,
    Prod.mk.injEq, Option.ite_none_right_eq_some, Option.ite_none_left_eq_some] at hact
  case admitted =>
    have hrate : 0 < state.rate.currentRequestsPerMinute :=
      hscheduler.minimum_pos.trans_le hlimits.minimum_le
    have hinterval : 0 < 60 / state.rate.currentRequestsPerMinute := by positivity
    have hready := nextRequestAt_le_reserve clock state
    rw [← hact.1]
    show state.rate.nextRequestAt
      ≤ (reserve clock state).2 + 60 / state.rate.currentRequestsPerMinute
    linarith
  case reserved readyAt =>
    split at hact <;>
    · simp only [Option.some.injEq, Prod.mk.injEq] at hact
      rw [← hact.1]
  case reportingSuccess =>
    rw [← hact.1]
    unfold reportSuccess
    split_ifs <;> exact le_rfl
  case recordingHost host delay now =>
    rw [← hact.1]
    rcases recordSystemicHostEvent_cases scheduler state clock now host with ⟨_, heq⟩ | heq <;>
      rw [heq]
  case entering => obtain ⟨_, rfl, _⟩ := hact; exact le_rfl
  case waiting readyAt wakesAt => obtain ⟨_, rfl, _⟩ := hact; exact le_rfl
  all_goals obtain ⟨rfl, _⟩ := hact; exact le_rfl

/-- The next free time never goes back: one step. -/
theorem nextRequestAt_le_of_step (hscheduler : scheduler.Accepted)
    (hreach : Reach scheduler.program anyAction config)
    (hstep : Step scheduler.program anyAction config config') :
    config.shared.rate.nextRequestAt ≤ config'.shared.rate.nextRequestAt := by
  have hlimits := ((inductive_program hscheduler).of_reach hreach).shared.limits
  cases hstep with
  | enter _ _ => exact le_rfl
  | act _ _ hact => exact nextRequestAt_le_of_act hscheduler hlimits hact

/-- The next free time never goes back: a whole run. -/
theorem nextRequestAt_le_of_run (hscheduler : scheduler.Accepted)
    (hreach : Reach scheduler.program anyAction config)
    (hrun : Relation.ReflTransGen (Step scheduler.program anyAction) config config') :
    config.shared.rate.nextRequestAt ≤ config'.shared.rate.nextRequestAt := by
  suffices h : Reach scheduler.program anyAction config'
      ∧ config.shared.rate.nextRequestAt ≤ config'.shared.rate.nextRequestAt from h.2
  induction hrun with
  | refl => exact ⟨hreach, le_rfl⟩
  | tail _ hstep ih =>
    have hle := nextRequestAt_le_of_step hscheduler ih.1 hstep
    exact ⟨ih.1.step hstep, ih.2.trans hle⟩

/-- **Reserved starts are spaced by the rate.** A start reserved later in a run lies at least the
interval of the rate at the earlier reservation behind it. -/
theorem reserved_starts_spaced {arguments : SchedulerArguments}
    (h : init arguments = .ok scheduler) {first second third fourth : Config ℚ GlobalState Call}
    {readyAt readyAt' : ℚ} (hreach : Reach scheduler.program anyAction first)
    (hfirst : Reserves first second readyAt)
    (hrun : Relation.ReflTransGen (Step scheduler.program anyAction) second third)
    (hsecond : Reserves third fourth readyAt') :
    readyAt + 60 / first.shared.rate.currentRequestsPerMinute ≤ readyAt' := by
  have hbetween := nextRequestAt_le_of_run (accepted_of_init h) (hreach.step hfirst.step) hrun
  cases hfirst
  cases hsecond
  exact hbetween.trans (nextRequestAt_le_reserve _ _)

/-- Two requests are admitted at time 0. -/
def twoAdmitted : GlobalState := { defaultScheduler.initialState with permits := 1 }

theorem two_starts_spaced :
    (reserve 0 twoAdmitted).2 + 60 / 180 ≤ (reserve 0 (reserve 0 twoAdmitted).1).2 := by
  have hreach : Reach defaultScheduler.program anyAction
      ⟨0, twoAdmitted, [.admitted, .admitted]⟩ := by
    refine Reach.of_foldlM [.enter 0 .entering, .act 0 0, .enter 0 .entering, .act 0 0]
      (Reach.start 0) ?_
    decide +kernel
  exact reserved_starts_spaced init_default hreach (@Reserves.intro 0 0 _ [] _ le_rfl)
    Relation.ReflTransGen.refl (@Reserves.intro 0 0 _ [.reserved _] [] le_rfl)

end AdaptiveRequestScheduler

end Scheduler
