import Mathlib.Tactic.Linarith
import OsmPolygonWikidata.Basic.ConcurrentCalls

/-! # Pacing of one host

`pace_host` reserves the next free slot of a host under the lock of the host, sleeps until it, and
looks at the cooldown of the host once more: a cooldown that was registered meanwhile sends the
call back to reserve another slot. `report_host_throttled` registers a cooldown, at a time that it
has read before it takes the lock.

The state and the calls are those of one host. Seconds are rational numbers. The main result is
`paced_of_reach`, for any number of calls in any interleaving.
-/

namespace Scheduler

open Concurrency

/-! ## The state of the host and the calls -/

/-- `_HostState`. `registered` is history: the ends of all cooldowns that have been registered. -/
structure HostState where
  cooldownUntil : ℚ
  nextRequestAt : ℚ
  registered : List ℚ
  deriving DecidableEq

/-- The last reservation of a call: its `min_interval_s` and its `ready_at`. -/
structure Reservation where
  minInterval : ℚ
  readyAt : ℚ
  deriving DecidableEq

/-- Where a call is. `seen` is history: the cooldowns that had been registered when the call looked
at the host for the last time. -/
inductive HostCall
  | entering (minInterval : ℚ)
  | reserved (slot : Reservation) (seen : List ℚ)
  | sleeping (slot : Reservation) (wakesAt : ℚ)
  | returned (slot : Reservation) (time : ℚ) (seen : List ℚ)
  | throttled (delay : ℚ)
  | registering (cooldownUntil : ℚ)
  | reported
  deriving DecidableEq

namespace HostState

def fresh : HostState := ⟨0, 0, []⟩

/-- The first locked section of the loop of `pace_host`. -/
def reserve (state : HostState) (now minInterval : ℚ) : HostState × Reservation :=
  let readyAt := max (max now state.cooldownUntil) state.nextRequestAt
  ({ state with nextRequestAt := readyAt + max 0 minInterval }, ⟨minInterval, readyAt⟩)

/-- The locked section of `report_host_throttled`. -/
def register (state : HostState) (cooldownUntil : ℚ) : HostState :=
  { state with
    cooldownUntil := max state.cooldownUntil cooldownUntil
    registered := cooldownUntil :: state.registered }

end HostState

/-- The next action of a call at a time. A call that sleeps may be woken at any time from `wakesAt`
on. -/
def hostAction (now : ℚ) (state : HostState) : HostCall → Option (HostState × HostCall)
  | .entering minInterval =>
    let taken := state.reserve now minInterval
    some (taken.1, .reserved taken.2 state.registered)
  | .reserved slot seen =>
    let wait := slot.readyAt - now
    if wait ≤ 0 then some (state, .returned slot now seen)
    else some (state, .sleeping slot (now + wait))
  | .sleeping slot wakesAt =>
    if now < wakesAt then none
    else if now < state.cooldownUntil then some (state, .entering slot.minInterval)
    else some (state, .returned slot now state.registered)
  | .throttled delay => some (state, .registering (now + max 0 delay))
  | .registering cooldownUntil => some (state.register cooldownUntil, .reported)
  | .returned _ _ _ => none
  | .reported => none

/-- Any number of calls of `pace_host` and `report_host_throttled` for the host. -/
def hostProgram : Program ℚ HostState HostCall where
  init := .fresh
  begins
    | .entering _ => true
    | .throttled _ => true
    | _ => false
  act := hostAction

/-! ## Spacing -/

/-- One of the two reservations is over before the other one's slot. -/
def Reservation.Apart (a b : Reservation) : Prop :=
  a.readyAt + max 0 a.minInterval ≤ b.readyAt ∨ b.readyAt + max 0 b.minInterval ≤ a.readyAt

theorem Reservation.Apart.symm {a b : Reservation} (h : a.Apart b) : b.Apart a := Or.symm h

namespace HostCall

/-- The reservation a call holds. -/
def slot? : HostCall → Option Reservation
  | reserved slot _ => some slot
  | sleeping slot _ => some slot
  | returned slot _ _ => some slot
  | _ => none

/-- No two calls hold reservations that come too close. -/
def Apart (call other : HostCall) : Prop :=
  ∀ a ∈ call.slot?, ∀ b ∈ other.slot?, a.Apart b

/-- What a call knows of the host: its reservation is inside what the host has given away, and
what it has seen is over when it returns. -/
def Sound (state : HostState) : HostCall → Prop
  | reserved slot seen =>
    slot.readyAt + max 0 slot.minInterval ≤ state.nextRequestAt ∧ ∀ u ∈ seen, u ≤ slot.readyAt
  | sleeping slot wakesAt =>
    slot.readyAt + max 0 slot.minInterval ≤ state.nextRequestAt ∧ slot.readyAt ≤ wakesAt
  | returned slot time seen =>
    slot.readyAt + max 0 slot.minInterval ≤ state.nextRequestAt ∧ slot.readyAt ≤ time
      ∧ ∀ u ∈ seen, u ≤ time
  | _ => True

theorem Sound.slot_le {state : HostState} {call : HostCall} (h : call.Sound state)
    {slot : Reservation} (hslot : slot ∈ call.slot?) :
    slot.readyAt + max 0 slot.minInterval ≤ state.nextRequestAt := by
  cases call <;> simp only [slot?, Option.mem_def, reduceCtorEq, Option.some.injEq] at hslot <;>
    exact hslot ▸ h.1

theorem Sound.mono {state state' : HostState} {call : HostCall} (h : call.Sound state)
    (hnext : state.nextRequestAt ≤ state'.nextRequestAt) : call.Sound state' := by
  cases call with
  | reserved slot seen => exact ⟨h.1.trans hnext, h.2⟩
  | sleeping slot wakesAt => exact ⟨h.1.trans hnext, h.2⟩
  | returned slot time seen => exact ⟨h.1.trans hnext, h.2⟩
  | entering minInterval => trivial
  | throttled delay => trivial
  | registering cooldownUntil => trivial
  | reported => trivial

end HostCall

/-- The cooldown of the host covers every cooldown that was registered. -/
def HostState.Sound (state : HostState) : Prop :=
  ∀ u ∈ state.registered, u ≤ state.cooldownUntil

namespace HostState

variable {state : HostState}

theorem le_readyAt (now minInterval : ℚ) :
    state.nextRequestAt ≤ (state.reserve now minInterval).2.readyAt := le_max_right _ _

theorem cooldownUntil_le_readyAt (now minInterval : ℚ) :
    state.cooldownUntil ≤ (state.reserve now minInterval).2.readyAt :=
  (le_max_right _ _).trans (le_max_left _ _)

theorem nextRequestAt_le_reserve (now minInterval : ℚ) :
    state.nextRequestAt ≤ (state.reserve now minInterval).1.nextRequestAt := by
  have hmax := le_max_left 0 minInterval
  have hready : state.nextRequestAt ≤ (state.reserve now minInterval).2.readyAt :=
    le_readyAt now minInterval
  show state.nextRequestAt ≤ (state.reserve now minInterval).2.readyAt + max 0 minInterval
  linarith

theorem Sound.register (h : state.Sound) (cooldownUntil : ℚ) :
    (state.register cooldownUntil).Sound := by
  intro u hu
  rcases List.mem_cons.mp hu with rfl | hu
  · exact le_max_right _ _
  · exact (h u hu).trans (le_max_left _ _)

end HostState

/-! ## One action -/

section

variable {now : ℚ} {state state' : HostState} {call call' other : HostCall}

theorem nextRequestAt_le_of_act (h : hostAction now state call = some (state', call')) :
    state.nextRequestAt ≤ state'.nextRequestAt := by
  cases call <;> simp only [hostAction, reduceCtorEq, Option.some.injEq, Prod.mk.injEq] at h
  case entering minInterval =>
    rw [← h.1]
    exact HostState.nextRequestAt_le_reserve now minInterval
  case reserved slot seen => split at h <;> simp_all
  case sleeping slot wakesAt => repeat' split at h <;> simp_all
  case throttled delay => rw [← h.1]
  case registering cooldownUntil => rw [← h.1]; exact le_rfl

theorem sound_of_act (hstate : state.Sound) (hcall : call.Sound state)
    (h : hostAction now state call = some (state', call')) :
    state'.Sound ∧ call'.Sound state' := by
  cases call with
  | entering minInterval =>
    simp only [hostAction, Option.some.injEq, Prod.mk.injEq] at h
    obtain ⟨rfl, rfl⟩ := h
    refine ⟨hstate, le_rfl, fun u hu => ?_⟩
    exact (hstate u hu).trans (HostState.cooldownUntil_le_readyAt now minInterval)
  | reserved slot seen =>
    simp only [hostAction] at h
    split at h
    · -- the slot has come: what was seen at the reservation is over
      rename_i hwait
      simp only [Option.some.injEq, Prod.mk.injEq] at h
      obtain ⟨rfl, rfl⟩ := h
      have hslot : slot.readyAt ≤ now := by linarith
      exact ⟨hstate, hcall.1, hslot, fun u hu => (hcall.2 u hu).trans hslot⟩
    · simp only [Option.some.injEq, Prod.mk.injEq] at h
      obtain ⟨rfl, rfl⟩ := h
      exact ⟨hstate, hcall.1, by linarith⟩
  | sleeping slot wakesAt =>
    simp only [hostAction] at h
    split at h
    · cases h
    · rename_i hawake
      split at h
      · -- sent back: the reservation is given up
        simp only [Option.some.injEq, Prod.mk.injEq] at h
        obtain ⟨rfl, rfl⟩ := h
        exact ⟨hstate, trivial⟩
      · rename_i hover
        simp only [Option.some.injEq, Prod.mk.injEq] at h
        obtain ⟨rfl, rfl⟩ := h
        exact ⟨hstate, hcall.1, hcall.2.trans (not_lt.mp hawake),
          fun u hu => (hstate u hu).trans (not_lt.mp hover)⟩
  | throttled delay =>
    simp only [hostAction, Option.some.injEq, Prod.mk.injEq] at h
    obtain ⟨rfl, rfl⟩ := h
    exact ⟨hstate, trivial⟩
  | registering cooldownUntil =>
    simp only [hostAction, Option.some.injEq, Prod.mk.injEq] at h
    obtain ⟨rfl, rfl⟩ := h
    exact ⟨hstate.register cooldownUntil, trivial⟩
  | returned slot time seen => cases h
  | reported => cases h

/-- A new reservation starts where all that has been given away ends; the other actions keep the
reservation or give it up. -/
theorem apart_of_act (hother : other.Sound state) (hapart : call.Apart other)
    (h : hostAction now state call = some (state', call')) : call'.Apart other := by
  intro a ha b hb
  cases call with
  | entering minInterval =>
    simp only [hostAction, Option.some.injEq, Prod.mk.injEq] at h
    obtain ⟨rfl, rfl⟩ := h
    obtain rfl : (state.reserve now minInterval).2 = a := Option.some.inj ha
    exact Or.inr ((hother.slot_le hb).trans (HostState.le_readyAt now minInterval))
  | reserved slot seen =>
    simp only [hostAction] at h
    split at h <;>
    · simp only [Option.some.injEq, Prod.mk.injEq] at h
      obtain ⟨rfl, rfl⟩ := h
      exact hapart a ha b hb
  | sleeping slot wakesAt =>
    simp only [hostAction] at h
    split at h
    · cases h
    · split at h <;> simp only [Option.some.injEq, Prod.mk.injEq] at h <;> obtain ⟨rfl, rfl⟩ := h
      · cases ha
      · exact hapart a ha b hb
  | throttled delay =>
    simp only [hostAction, Option.some.injEq, Prod.mk.injEq] at h
    obtain ⟨rfl, rfl⟩ := h
    cases ha
  | registering cooldownUntil =>
    simp only [hostAction, Option.some.injEq, Prod.mk.injEq] at h
    obtain ⟨rfl, rfl⟩ := h
    cases ha
  | returned slot time seen => cases h
  | reported => cases h

end

/-! ## Whole runs -/

theorem inductive_hostProgram : Inductive hostProgram anyAction (fun _ => HostState.Sound)
      (fun _ state call => call.Sound state) HostCall.Apart where
  init := by intro _ u hu; cases hu
  later := fun _ h => h
  laterCall := fun _ h => h
  symm := fun h a ha b hb => (h b hb a ha).symm
  enters := by
    intro _ state call hbegins _
    cases call <;> trivial
  entersApart := by
    intro _ state call other hbegins _ a ha
    cases call <;> first | exact absurd hbegins Bool.false_ne_true | cases ha
  own := fun _ _ hstate hcall hact => sound_of_act hstate hcall hact
  frame := fun _ _ _ _ hother _ hact => hother.mono (nextRequestAt_le_of_act hact)
  apart := fun _ _ _ hother hapart hact => apart_of_act hother hapart hact

/-- What the callers rely on: the returned calls are spaced, and none has returned before its slot
or while a cooldown that it could see was running. -/
structure Paced (calls : List HostCall) : Prop where
  spaced : calls.Pairwise fun call other =>
    ∀ a s seen b t seen', call = .returned a s seen → other = .returned b t seen' → a.Apart b
  due : ∀ slot time seen, HostCall.returned slot time seen ∈ calls → slot.readyAt ≤ time
  cooled : ∀ slot time seen, HostCall.returned slot time seen ∈ calls → ∀ u ∈ seen, u ≤ time

theorem paced_of_reach {config : Config ℚ HostState HostCall}
    (h : Reach hostProgram anyAction config) : Paced config.calls := by
  have hholds := inductive_hostProgram.of_reach h
  refine ⟨hholds.pairs.imp ?_, ?_, ?_⟩
  · intro call other hapart a s seen b t seen' hcall hother
    exact hapart a (by rw [hcall]; rfl) b (by rw [hother]; rfl)
  · intro slot time seen hmem
    exact (hholds.each _ hmem).2.1
  · intro slot time seen hmem
    exact (hholds.each _ hmem).2.2

/-- Two calls with an interval of 2 seconds, and a cooldown of 5 seconds that is registered while
the second one sleeps: it is sent back and returns at 5. -/
def pacedExample : List (Event ℚ HostCall) :=
  [.enter 0 (.entering 2), .act 0 0, .act 0 0, .enter 0 (.entering 2), .act 0 0, .act 0 0,
    .enter 0 (.throttled 5), .act 0 0, .act 1 0, .act 2 1, .act 2 1, .act 2 1, .act 5 1]

def pacedConfig : Config ℚ HostState HostCall where
  now := 5
  shared := ⟨5, 7, [5]⟩
  calls := [.reported, .returned ⟨2, 5⟩ 5 [5], .returned ⟨2, 0⟩ 0 []]

theorem execute_pacedExample : hostProgram.execute anyAction 0 pacedExample = some pacedConfig := by
  decide +kernel

theorem paced_of_reach_example : Paced pacedConfig.calls :=
  paced_of_reach (Reach.of_execute execute_pacedExample)

end Scheduler
