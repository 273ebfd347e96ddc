import OsmPolygonWikidata.Basic.ConcurrentCalls
import OsmPolygonWikidata.Basic.Dict

/-! # The adaptive request scheduler

The global budget of the scheduler: permits of a semaphore, a request rate that grows with
successes and is halved by throttles, reserved start times, and a cooldown. A throttle of one host
reduces the global rate only when enough hosts were throttled inside a window, and at most once in
a window. It reads the clock before it takes the lock, decides in one locked section, and reduces
the rate in a second one.

Seconds and rates are rational numbers. The main result is `rateInvariant_of_reach`, for every
accepted configuration and any number of calls in any interleaving.
-/

namespace Scheduler

open Concurrency

/-! ## The configuration -/

/-- `_RateLimits`. -/
structure RateLimits where
  maxInFlight : ℤ
  maxRequestsPerMinute : ℚ
  minimumRequestsPerMinute : ℚ
  successesPerIncrease : ℤ
  hostThrottleWindow : ℚ
  hostThrottleThreshold : ℤ
  deriving DecidableEq

/-- `_SystemicConfig`. -/
structure SystemicConfig where
  proportionalMode : Bool
  activeHostWindow : ℚ
  minimumSystemicHosts : ℤ
  systemicHostFraction : ℚ
  deriving DecidableEq

structure HostHealthPolicy where
  hostThrottleWindow : ℚ := 10
  hostThrottleThreshold : ℤ := 3
  activeHostWindow : Option ℚ := none
  minimumSystemicHosts : Option ℤ := none
  systemicHostFraction : Option ℚ := none

/-- The arguments of the constructor. -/
structure SchedulerArguments where
  maxInFlight : ℤ := 3
  requestsPerMinute : ℚ := 180
  maxRequestsPerMinute : Option ℚ := none
  minimumRequestsPerMinute : ℚ := 60
  successesPerIncrease : ℤ := 100
  hostHealth : Option HostHealthPolicy := none

/-- `raise ValueError(message)` unless the check holds. -/
def require (check : Bool) (message : String) : Except String Unit :=
  if check then .ok () else .error message

def requirePositive (value : ℚ) (message : String) : Except String Unit :=
  require (0 < value) message

def requireAtLeast (value lower : ℤ) (message : String) : Except String Unit :=
  require (lower ≤ value) message

def requireBetween (value lower upper : ℤ) (message : String) : Except String Unit :=
  require (lower ≤ value ∧ value ≤ upper) message

def requireFraction (value : ℚ) (message : String) : Except String Unit :=
  require (0 < value ∧ value ≤ 1) message

def minimumMessage : String :=
  "minimum_requests_per_minute must be positive and no greater than the initial rate"

/-- `_validate_scheduler_values`: the rate ceiling. -/
def validateSchedulerValues (arguments : SchedulerArguments) (health : HostHealthPolicy) :
    Except String ℚ := do
  requireBetween arguments.maxInFlight 1 16 "max_in_flight must be between 1 and 16"
  requirePositive arguments.requestsPerMinute "requests_per_minute must be positive"
  let maximum := arguments.maxRequestsPerMinute.getD arguments.requestsPerMinute
  require (arguments.requestsPerMinute ≤ maximum)
    "max_requests_per_minute must not be below the initial rate"
  requirePositive arguments.minimumRequestsPerMinute minimumMessage
  require (arguments.minimumRequestsPerMinute ≤ arguments.requestsPerMinute) minimumMessage
  requirePositive arguments.successesPerIncrease "successes_per_increase must be positive"
  requirePositive health.hostThrottleWindow "host_throttle_window_s must be positive"
  requireAtLeast health.hostThrottleThreshold 1 "host_throttle_threshold must be at least 1"
  return maximum

def systemicActiveHostWindow : ℚ := 60
def systemicMinimumHosts : ℤ := 5
def systemicHostFraction : ℚ := 1 / 10

def resolveSystemicConfig (health : HostHealthPolicy) : Except String SystemicConfig := do
  let proportional := health.activeHostWindow.isSome || health.minimumSystemicHosts.isSome
    || health.systemicHostFraction.isSome
  let activeWindow := health.activeHostWindow.getD systemicActiveHostWindow
  let minimumHosts := health.minimumSystemicHosts.getD systemicMinimumHosts
  let hostFraction := health.systemicHostFraction.getD systemicHostFraction
  requirePositive activeWindow "active_host_window_s must be positive"
  requireAtLeast minimumHosts 1 "minimum_systemic_hosts must be at least 1"
  requireFraction hostFraction "systemic_host_fraction must be between 0 (exclusive) and 1"
  return ⟨proportional, activeWindow, minimumHosts, hostFraction⟩

/-- The settings of a scheduler and the rate it starts with. -/
structure AdaptiveRequestScheduler where
  limits : RateLimits
  systemic : SystemicConfig
  requestsPerMinute : ℚ
  deriving DecidableEq

/-- `AdaptiveRequestScheduler.__init__`. -/
def AdaptiveRequestScheduler.init (arguments : SchedulerArguments) :
    Except String AdaptiveRequestScheduler := do
  let health := arguments.hostHealth.getD {}
  let maximum ← validateSchedulerValues arguments health
  let systemic ← resolveSystemicConfig health
  return ⟨⟨arguments.maxInFlight, maximum, arguments.minimumRequestsPerMinute,
    arguments.successesPerIncrease, health.hostThrottleWindow, health.hostThrottleThreshold⟩,
    systemic, arguments.requestsPerMinute⟩

theorem require_eq_ok {check : Bool} {message : String} {value : Unit} :
    require check message = .ok value ↔ check = true := by
  cases check <;> simp [require]

/-- What the constructor has checked of the settings that the rate depends on. -/
structure AdaptiveRequestScheduler.Accepted (scheduler : AdaptiveRequestScheduler) : Prop where
  permits_pos : 1 ≤ scheduler.limits.maxInFlight
  minimum_pos : 0 < scheduler.limits.minimumRequestsPerMinute
  minimum_le : scheduler.limits.minimumRequestsPerMinute ≤ scheduler.requestsPerMinute
  le_maximum : scheduler.requestsPerMinute ≤ scheduler.limits.maxRequestsPerMinute
  successes_pos : 0 < scheduler.limits.successesPerIncrease
  window_pos : 0 < scheduler.limits.hostThrottleWindow

theorem validateSchedulerValues_eq_ok {arguments : SchedulerArguments} {health : HostHealthPolicy}
    {maximum : ℚ} (h : validateSchedulerValues arguments health = .ok maximum) :
    1 ≤ arguments.maxInFlight ∧ 0 < arguments.minimumRequestsPerMinute
      ∧ arguments.minimumRequestsPerMinute ≤ arguments.requestsPerMinute
      ∧ arguments.requestsPerMinute ≤ maximum ∧ 0 < arguments.successesPerIncrease
      ∧ 0 < health.hostThrottleWindow := by
  simp only [validateSchedulerValues, requireBetween, requirePositive, requireAtLeast,
    Python.bind_eq_ok, require_eq_ok, decide_eq_true_eq] at h
  obtain ⟨_, hpermits, _, _, _, hmaximum, _, hminimum, _, hle, _, hsuccesses, _, hwindow, _, _,
    heq⟩ := h
  obtain rfl := Except.ok.inj heq
  exact ⟨hpermits.1, hminimum, hle, hmaximum, by exact_mod_cast hsuccesses, hwindow⟩

theorem accepted_of_init {arguments : SchedulerArguments} {scheduler : AdaptiveRequestScheduler}
    (h : AdaptiveRequestScheduler.init arguments = .ok scheduler) : scheduler.Accepted := by
  simp only [AdaptiveRequestScheduler.init, Python.bind_eq_ok] at h
  obtain ⟨maximum, hvalues, systemic, _, heq⟩ := h
  obtain rfl := Except.ok.inj heq
  obtain ⟨hpermits, hminimum, hle, hmaximum, hsuccesses, hwindow⟩ :=
    validateSchedulerValues_eq_ok hvalues
  exact ⟨hpermits, hminimum, hle, hmaximum, hsuccesses, hwindow⟩

/-! ## The state and the calls -/

/-- `_GlobalRateState`. `lastSystemicReductionAt = none` is minus infinity. -/
structure GlobalRateState where
  currentRequestsPerMinute : ℚ
  successfulRequests : ℤ
  nextRequestAt : ℚ
  cooldownUntil : ℚ
  inFlight : ℤ
  lastSystemicReductionAt : Option ℚ
  deriving DecidableEq

/-- `_ThrottleHistory`, hosts with their last times. -/
structure ThrottleHistory where
  systemicHostEvents : List (String × ℚ)
  activeHostTimestamps : List (String × ℚ)
  deriving DecidableEq

/-- What the lock and the semaphore guard. Two fields are history: the ends of all global cooldowns
that have been registered, and the timestamps of the reductions that throttles of hosts caused. -/
structure GlobalState where
  rate : GlobalRateState
  history : ThrottleHistory
  permits : ℤ
  registered : List ℚ
  reductions : List ℚ
  deriving DecidableEq

/-- Where a call is. `run`: `entering` to `released`; a `running` call carries its start time and,
as history, the cooldowns that had been registered then. -/
inductive Call
  | entering
  | admitted
  | reserved (readyAt : ℚ)
  | waiting (readyAt wakesAt : ℚ)
  | running (startedAt : ℚ) (seen : List ℚ)
  | finished
  | released
  | deferring (delay : ℚ)
  | reportingSuccess
  | reportingThrottled (delay : ℚ)
  | reportingHost (host : String) (delay : ℚ)
  | recordingHost (host : String) (delay now : ℚ)
  | escalating (delay stamp : ℚ)
  | pacing (host : String)
  | done
  deriving DecidableEq

/-- The permits a call holds. -/
def Call.permits : Call → ℤ
  | admitted => 1
  | reserved _ => 1
  | waiting _ _ => 1
  | running _ _ => 1
  | finished => 1
  | _ => 0

/-- The operations a call runs. -/
def Call.operations : Call → ℤ
  | running _ _ => 1
  | _ => 0

theorem Call.operations_nonneg (call : Call) : 0 ≤ call.operations := by
  cases call <;> simp [operations]

theorem Call.operations_le_permits (call : Call) : call.operations ≤ call.permits := by
  cases call <;> simp [operations, permits]

namespace AdaptiveRequestScheduler

variable (scheduler : AdaptiveRequestScheduler)

def initialState : GlobalState where
  rate := ⟨scheduler.requestsPerMinute, 0, 0, 0, 0, none⟩
  history := ⟨[], []⟩
  permits := scheduler.limits.maxInFlight
  registered := []
  reductions := []

/-! ## The locked sections -/

/-- `defer`, and the first statement of `_apply_global_throttle_locked`. -/
def registerCooldown (clock delay : ℚ) (state : GlobalState) : GlobalState :=
  { state with
    rate.cooldownUntil := max state.rate.cooldownUntil (clock + max 0 delay)
    registered := (clock + max 0 delay) :: state.registered }

def reportSuccess (state : GlobalState) : GlobalState :=
  if scheduler.limits.maxRequestsPerMinute ≤ state.rate.currentRequestsPerMinute then
    { state with rate.successfulRequests := 0 }
  else if state.rate.successfulRequests + 1 < scheduler.limits.successesPerIncrease then
    { state with rate.successfulRequests := state.rate.successfulRequests + 1 }
  else
    { state with
      rate.successfulRequests := 0
      rate.currentRequestsPerMinute := min scheduler.limits.maxRequestsPerMinute
        (state.rate.currentRequestsPerMinute * (5 / 4)) }

def applyGlobalThrottleLocked (clock delay : ℚ) (state : GlobalState) : GlobalState :=
  let cooled := registerCooldown clock delay state
  { cooled with
    rate.currentRequestsPerMinute := max scheduler.limits.minimumRequestsPerMinute
      (state.rate.currentRequestsPerMinute / 2)
    rate.successfulRequests := 0 }

/-- `_active_host_count`: the hosts seen inside the window, the others are forgotten. -/
def activeHosts (clock : ℚ) (history : ThrottleHistory) : List (String × ℚ) :=
  history.activeHostTimestamps.filter
    (fun entry => clock - scheduler.systemic.activeHostWindow < entry.2)

/-- `_systemic_threshold`, for the number of active hosts. -/
def systemicThreshold (active : ℤ) : ℤ :=
  if !scheduler.systemic.proportionalMode then scheduler.limits.hostThrottleThreshold
  else if active = 0 then scheduler.limits.hostThrottleThreshold
  else min active (max scheduler.systemic.minimumSystemicHosts
    ⌈(active : ℚ) * scheduler.systemic.systemicHostFraction⌉)

/-- The part of `_record_systemic_host_event` that records: the events inside the window and this
one. The active hosts are counted only in proportional mode. -/
def recordHostEvent (clock now : ℚ) (host : String) (history : ThrottleHistory) :
    ThrottleHistory where
  systemicHostEvents := Dict.put Prod.fst (host, now) (history.systemicHostEvents.filter
    (fun entry => now - scheduler.limits.hostThrottleWindow < entry.2))
  activeHostTimestamps :=
    if scheduler.systemic.proportionalMode then scheduler.activeHosts clock history
    else history.activeHostTimestamps

/-- No systemic reduction lies inside the window before `now`. -/
def reductionDue (now : ℚ) (state : GlobalState) : Bool :=
  match state.rate.lastSystemicReductionAt with
  | none => true
  | some last => scheduler.limits.hostThrottleWindow < now - last

/-- `_record_systemic_host_event`: the new state and whether the call escalates. -/
def recordSystemicHostEvent (clock now : ℚ) (host : String) (state : GlobalState) :
    GlobalState × Bool :=
  let history := scheduler.recordHostEvent clock now host state.history
  let systemic := decide (scheduler.systemicThreshold history.activeHostTimestamps.length
      ≤ history.systemicHostEvents.length) && scheduler.reductionDue now state
  if systemic then
    ({ state with history := history, rate.lastSystemicReductionAt := some now }, true)
  else ({ state with history := history }, false)

/-- The reservation of `run`. -/
def reserve (clock : ℚ) (state : GlobalState) : GlobalState × ℚ :=
  let readyAt := max (max clock state.rate.nextRequestAt) state.rate.cooldownUntil
  ({ state with rate.nextRequestAt := readyAt + 60 / state.rate.currentRequestsPerMinute }, readyAt)

/-- The next action of a call at a time. The sleep of `run` ends when it was asked to; the call
takes the lock at that time or later. -/
def act (clock : ℚ) (state : GlobalState) : Call → Option (GlobalState × Call)
  | .entering =>
    if 0 < state.permits then some ({ state with permits := state.permits - 1 }, .admitted)
    else none
  | .admitted => some ((reserve clock state).1, .reserved (reserve clock state).2)
  | .reserved readyAt =>
    let wait := readyAt - clock
    if 0 < wait then some (state, .waiting readyAt (clock + wait))
    else some (state, .waiting readyAt clock)
  | .waiting _ wakesAt =>
    if clock < wakesAt then none
    else some ({ state with rate.inFlight := state.rate.inFlight + 1 },
      .running clock state.registered)
  | .running _ _ => some ({ state with rate.inFlight := state.rate.inFlight - 1 }, .finished)
  | .finished => some ({ state with permits := state.permits + 1 }, .released)
  | .deferring delay => some (registerCooldown clock delay state, .done)
  | .reportingSuccess => some (scheduler.reportSuccess state, .done)
  | .reportingThrottled delay => some (scheduler.applyGlobalThrottleLocked clock delay state, .done)
  | .reportingHost host delay => some (state, .recordingHost host delay clock)
  | .recordingHost host delay now =>
    let recorded := scheduler.recordSystemicHostEvent clock now host state
    some (recorded.1, if recorded.2 then .escalating delay now else .done)
  | .escalating delay stamp =>
    let reduced := scheduler.applyGlobalThrottleLocked clock delay state
    some ({ reduced with reductions := stamp :: reduced.reductions }, .done)
  | .pacing host =>
    let active := Dict.put Prod.fst (host, clock) state.history.activeHostTimestamps
    some ({ state with history.activeHostTimestamps := active }, .done)
  | .released => none
  | .done => none

/-- Any number of calls of `run`, `defer`, `report_success`, `report_throttled`,
`report_host_throttled` and `pace_host`. Of `pace_host` and `report_host_throttled` only what they
do to the global state. -/
def program : Program ℚ GlobalState Call where
  init := scheduler.initialState
  begins
    | .entering => true
    | .deferring _ => true
    | .reportingSuccess => true
    | .reportingThrottled _ => true
    | .reportingHost _ _ => true
    | .pacing _ => true
    | _ => false
  act := scheduler.act

/-! ## Rate and counters -/

/-- What holds of the rate and the counters at any time. -/
structure WithinLimits (state : GlobalState) : Prop where
  minimum_le : scheduler.limits.minimumRequestsPerMinute ≤ state.rate.currentRequestsPerMinute
  le_maximum : state.rate.currentRequestsPerMinute ≤ scheduler.limits.maxRequestsPerMinute
  successful_nonneg : 0 ≤ state.rate.successfulRequests
  successful_lt : state.rate.successfulRequests < scheduler.limits.successesPerIncrease
  permits_nonneg : 0 ≤ state.permits

variable {scheduler} {clock : ℚ} {state state' : GlobalState} {call call' other : Call}

/-- An event is recorded in any case; only a call that escalates moves the timestamp of the last
reduction, and only when a reduction is due. -/
theorem recordSystemicHostEvent_cases (scheduler : AdaptiveRequestScheduler) (state : GlobalState)
    (clock now : ℚ) (host : String) :
    (scheduler.reductionDue now state = true
      ∧ scheduler.recordSystemicHostEvent clock now host state
        = ({ state with
              history := scheduler.recordHostEvent clock now host state.history
              rate.lastSystemicReductionAt := some now }, true))
    ∨ scheduler.recordSystemicHostEvent clock now host state
        = ({ state with history := scheduler.recordHostEvent clock now host state.history }, false)
    := by
  unfold recordSystemicHostEvent
  dsimp only
  split
  · rename_i hsystemic
    exact Or.inl ⟨(Bool.and_eq_true_iff.mp hsystemic).2, rfl⟩
  · exact Or.inr rfl

theorem WithinLimits.of_rate_eq (h : scheduler.WithinLimits state)
    (hrate : state'.rate.currentRequestsPerMinute = state.rate.currentRequestsPerMinute)
    (hsuccessful : state'.rate.successfulRequests = state.rate.successfulRequests)
    (hpermits : 0 ≤ state'.permits) : scheduler.WithinLimits state' :=
  ⟨hrate ▸ h.minimum_le, hrate ▸ h.le_maximum, hsuccessful ▸ h.successful_nonneg,
    hsuccessful ▸ h.successful_lt, hpermits⟩

theorem Accepted.initialState (h : scheduler.Accepted) :
    scheduler.WithinLimits scheduler.initialState :=
  ⟨h.minimum_le, h.le_maximum, le_rfl, h.successes_pos, by
    have hpermits := h.permits_pos
    show 0 ≤ scheduler.limits.maxInFlight
    omega⟩

theorem WithinLimits.reportSuccess (hscheduler : scheduler.Accepted)
    (h : scheduler.WithinLimits state) : scheduler.WithinLimits (scheduler.reportSuccess state) := by
  have hsuccesses := hscheduler.successes_pos
  have hnonneg := h.successful_nonneg
  unfold AdaptiveRequestScheduler.reportSuccess
  split
  · exact ⟨h.minimum_le, h.le_maximum, le_rfl, hsuccesses, h.permits_nonneg⟩
  · rename_i hbelow
    split
    · rename_i hfew
      exact ⟨h.minimum_le, h.le_maximum, by simp only; omega, hfew, h.permits_nonneg⟩
    · -- the window of successes is full: the rate grows, up to the ceiling
      have hrate : 0 < state.rate.currentRequestsPerMinute :=
        hscheduler.minimum_pos.trans_le h.minimum_le
      refine ⟨le_min ?_ ?_, min_le_left _ _, le_rfl, hsuccesses, h.permits_nonneg⟩
      · exact hscheduler.minimum_le.trans hscheduler.le_maximum
      · have hminimum := h.minimum_le
        linarith

theorem WithinLimits.applyGlobalThrottleLocked (hscheduler : scheduler.Accepted)
    (h : scheduler.WithinLimits state) (clock delay : ℚ) :
    scheduler.WithinLimits (scheduler.applyGlobalThrottleLocked clock delay state) := by
  have hrate : 0 < state.rate.currentRequestsPerMinute :=
    hscheduler.minimum_pos.trans_le h.minimum_le
  refine ⟨le_max_left _ _, max_le ?_ ?_, le_rfl, hscheduler.successes_pos, h.permits_nonneg⟩
  · exact hscheduler.minimum_le.trans hscheduler.le_maximum
  · have hmaximum := h.le_maximum
    linarith

theorem WithinLimits.recordSystemicHostEvent (h : scheduler.WithinLimits state) (clock now : ℚ)
    (host : String) :
    scheduler.WithinLimits (scheduler.recordSystemicHostEvent clock now host state).1 := by
  rcases recordSystemicHostEvent_cases scheduler state clock now host with ⟨_, heq⟩ | heq <;>
    exact heq ▸ h.of_rate_eq rfl rfl h.permits_nonneg

theorem WithinLimits.act (hscheduler : scheduler.Accepted) (h : scheduler.WithinLimits state)
    (hact : scheduler.act clock state call = some (state', call')) :
    scheduler.WithinLimits state' := by
  cases call <;> simp only [AdaptiveRequestScheduler.act, reduceCtorEq, Option.some.injEq,
    Prod.mk.injEq, Option.ite_none_right_eq_some, Option.ite_none_left_eq_some] at hact
  case entering =>
    obtain ⟨hpermit, rfl, _⟩ := hact
    exact h.of_rate_eq rfl rfl (by simp only; omega)
  case admitted => exact hact.1 ▸ h.of_rate_eq rfl rfl h.permits_nonneg
  case reserved readyAt => split at hact <;> simp only [Option.some.injEq, Prod.mk.injEq] at hact <;>
      exact hact.1 ▸ h
  case waiting readyAt wakesAt => exact hact.2.1 ▸ h.of_rate_eq rfl rfl h.permits_nonneg
  case running startedAt seen => exact hact.1 ▸ h.of_rate_eq rfl rfl h.permits_nonneg
  case finished =>
    have hpermits := h.permits_nonneg
    exact hact.1 ▸ h.of_rate_eq rfl rfl (by simp only; omega)
  case deferring delay => exact hact.1 ▸ h.of_rate_eq rfl rfl h.permits_nonneg
  case reportingSuccess => exact hact.1 ▸ h.reportSuccess hscheduler
  case reportingThrottled delay => exact hact.1 ▸ h.applyGlobalThrottleLocked hscheduler clock delay
  case reportingHost host delay => exact hact.1 ▸ h
  case recordingHost host delay now => exact hact.1 ▸ h.recordSystemicHostEvent clock now host
  case escalating delay stamp =>
    have happlied := h.applyGlobalThrottleLocked hscheduler clock delay
    exact hact.1 ▸ happlied.of_rate_eq rfl rfl happlied.permits_nonneg
  case pacing host => exact hact.1 ▸ h.of_rate_eq rfl rfl h.permits_nonneg

/-! ## Requests in flight -/

theorem begins_permits (h : scheduler.program.begins call = true) :
    call.permits = 0 ∧ call.operations = 0 := by
  cases call <;> simp_all [program, Call.permits, Call.operations]

theorem counters_of_act (hact : scheduler.act clock state call = some (state', call')) :
    state'.permits + call'.permits = state.permits + call.permits
      ∧ state'.rate.inFlight - call'.operations = state.rate.inFlight - call.operations := by
  cases call <;> simp only [AdaptiveRequestScheduler.act, reduceCtorEq, Option.some.injEq,
    Prod.mk.injEq, Option.ite_none_right_eq_some, Option.ite_none_left_eq_some] at hact
  case entering => obtain ⟨_, rfl, rfl⟩ := hact; simp [Call.permits, Call.operations]
  case admitted =>
    obtain ⟨rfl, rfl⟩ := hact
    simp [Call.permits, Call.operations, reserve]
  case reserved readyAt =>
    split at hact <;>
    · simp only [Option.some.injEq, Prod.mk.injEq] at hact
      obtain ⟨rfl, rfl⟩ := hact
      simp [Call.permits, Call.operations]
  case waiting readyAt wakesAt =>
    obtain ⟨_, rfl, rfl⟩ := hact
    simp [Call.permits, Call.operations]
  case running startedAt seen => obtain ⟨rfl, rfl⟩ := hact; simp [Call.permits, Call.operations]
  case finished => obtain ⟨rfl, rfl⟩ := hact; simp [Call.permits, Call.operations]
  case deferring delay =>
    obtain ⟨rfl, rfl⟩ := hact
    simp [Call.permits, Call.operations, registerCooldown]
  case reportingSuccess =>
    obtain ⟨rfl, rfl⟩ := hact
    unfold reportSuccess
    split_ifs <;> simp [Call.permits, Call.operations]
  case reportingThrottled delay =>
    obtain ⟨rfl, rfl⟩ := hact
    simp [Call.permits, Call.operations, applyGlobalThrottleLocked, registerCooldown]
  case reportingHost host delay => obtain ⟨rfl, rfl⟩ := hact; simp [Call.permits, Call.operations]
  case recordingHost host delay now =>
    obtain ⟨rfl, rfl⟩ := hact
    rcases recordSystemicHostEvent_cases scheduler state clock now host with ⟨_, heq⟩ | heq <;>
      simp [heq, Call.permits, Call.operations]
  case escalating delay stamp =>
    obtain ⟨rfl, rfl⟩ := hact
    simp [Call.permits, Call.operations, applyGlobalThrottleLocked, registerCooldown]
  case pacing host => obtain ⟨rfl, rfl⟩ := hact; simp [Call.permits, Call.operations]

theorem permits_of_reach {config : Config ℚ GlobalState Call}
    (h : Reach scheduler.program anyAction config) :
    config.shared.permits + (config.calls.map Call.permits).sum = scheduler.limits.maxInFlight :=
  h.conserved GlobalState.permits Call.permits (fun _ hbegins => (begins_permits hbegins).1)
    (fun hact => (counters_of_act hact).1)

theorem inFlight_of_reach {config : Config ℚ GlobalState Call}
    (h : Reach scheduler.program anyAction config) :
    config.shared.rate.inFlight = (config.calls.map Call.operations).sum := by
  have hconserved := h.conserved (fun state => -state.rate.inFlight) Call.operations
    (fun _ hbegins => (begins_permits hbegins).2) (fun hact => by
      have hcounters := (counters_of_act hact).2
      omega)
  have hinit : scheduler.program.init.rate.inFlight = 0 := rfl
  simp only [hinit] at hconserved
  omega

/-! ## One reduction in a window -/

/-- More than the window lies between two timestamps. -/
def FarApart (scheduler : AdaptiveRequestScheduler) (a b : ℚ) : Prop :=
  scheduler.limits.hostThrottleWindow < |a - b|

theorem FarApart.symm {a b : ℚ} (h : scheduler.FarApart a b) : scheduler.FarApart b a := by
  unfold FarApart at h ⊢
  rwa [abs_sub_comm]

/-- The timestamp is not behind the last systemic reduction. -/
def Stamped (state : GlobalState) (stamp : ℚ) : Prop :=
  ∃ last ∈ state.rate.lastSystemicReductionAt, stamp ≤ last

theorem Stamped.farApart {stamp now : ℚ} (h : Stamped state stamp)
    (hdue : scheduler.reductionDue now state = true) : scheduler.FarApart now stamp := by
  obtain ⟨last, hlast, hle⟩ := h
  rw [reductionDue, Option.mem_def.mp hlast] at hdue
  have hwindow : scheduler.limits.hostThrottleWindow < now - last := of_decide_eq_true hdue
  show scheduler.limits.hostThrottleWindow < |now - stamp|
  calc scheduler.limits.hostThrottleWindow < now - last := hwindow
    _ ≤ now - stamp := by linarith
    _ ≤ |now - stamp| := le_abs_self _

/-- The timestamp of a reduction that a call has decided and not yet made. -/
def stamp? : Call → Option ℚ
  | .escalating _ stamp => some stamp
  | _ => none

theorem stamp?_of_begins (h : scheduler.program.begins call = true) : stamp? call = none := by
  cases call <;> simp_all [program, stamp?]

theorem stamps_of_act (hact : scheduler.act clock state call = some (state', call')) :
    (state'.reductions = state.reductions ∧ stamp? call' = none
      ∧ state'.rate.lastSystemicReductionAt = state.rate.lastSystemicReductionAt)
    ∨ (∃ now, scheduler.reductionDue now state = true ∧ state'.reductions = state.reductions
      ∧ stamp? call' = some now ∧ state'.rate.lastSystemicReductionAt = some now)
    ∨ ∃ stamp, stamp? call = some stamp ∧ state'.reductions = stamp :: state.reductions
      ∧ stamp? call' = none
      ∧ state'.rate.lastSystemicReductionAt = state.rate.lastSystemicReductionAt := by
  cases call <;> simp only [AdaptiveRequestScheduler.act, reduceCtorEq, Option.some.injEq,
    Prod.mk.injEq, Option.ite_none_right_eq_some, Option.ite_none_left_eq_some] at hact
  case reserved readyAt =>
    split at hact <;>
    · simp only [Option.some.injEq, Prod.mk.injEq] at hact
      obtain ⟨rfl, rfl⟩ := hact
      exact Or.inl ⟨rfl, rfl, rfl⟩
  case reportingSuccess =>
    obtain ⟨rfl, rfl⟩ := hact
    unfold reportSuccess
    split_ifs <;> exact Or.inl ⟨rfl, rfl, rfl⟩
  case recordingHost host delay now =>
    obtain ⟨rfl, rfl⟩ := hact
    rcases recordSystemicHostEvent_cases scheduler state clock now host with ⟨hdue, heq⟩ | heq
    · rw [heq]
      exact Or.inr (Or.inl ⟨now, hdue, rfl, rfl, rfl⟩)
    · rw [heq]
      exact Or.inl ⟨rfl, rfl, rfl⟩
  case escalating delay stamp =>
    obtain ⟨rfl, rfl⟩ := hact
    exact Or.inr (Or.inr ⟨stamp, rfl, rfl, rfl, rfl⟩)
  case entering => obtain ⟨_, rfl, rfl⟩ := hact; exact Or.inl ⟨rfl, rfl, rfl⟩
  case waiting readyAt wakesAt => obtain ⟨_, rfl, rfl⟩ := hact; exact Or.inl ⟨rfl, rfl, rfl⟩
  all_goals obtain ⟨rfl, rfl⟩ := hact; exact Or.inl ⟨rfl, rfl, rfl⟩

/-- What holds of the shared state: the limits, and the timestamps of the reductions made. -/
structure StateSound (scheduler : AdaptiveRequestScheduler) (state : GlobalState) : Prop where
  limits : scheduler.WithinLimits state
  apart : state.reductions.Pairwise scheduler.FarApart
  stamped : ∀ stamp ∈ state.reductions, Stamped state stamp

/-- A reduction that is still to be made counts like those that have been made. -/
def CallSound (scheduler : AdaptiveRequestScheduler) (state : GlobalState) (call : Call) : Prop :=
  ∀ stamp ∈ stamp? call, Stamped state stamp
    ∧ ∀ made ∈ state.reductions, scheduler.FarApart stamp made

/-- No two calls are about to reduce for timestamps inside one window. -/
def CallsApart (scheduler : AdaptiveRequestScheduler) (call other : Call) : Prop :=
  ∀ a ∈ stamp? call, ∀ b ∈ stamp? other, scheduler.FarApart a b

theorem Stamped.act {stamp : ℚ} (hwindow : 0 < scheduler.limits.hostThrottleWindow)
    (h : Stamped state stamp) (hact : scheduler.act clock state call = some (state', call')) :
    Stamped state' stamp := by
  obtain ⟨last, hlast, hle⟩ := h
  rcases stamps_of_act hact with ⟨_, _, heq⟩ | ⟨now, hdue, _, _, heq⟩ | ⟨_, _, _, _, heq⟩
  · exact ⟨last, heq ▸ hlast, hle⟩
  · rw [reductionDue, Option.mem_def.mp hlast] at hdue
    have hafter : scheduler.limits.hostThrottleWindow < now - last := of_decide_eq_true hdue
    exact ⟨now, heq, by linarith⟩
  · exact ⟨last, heq ▸ hlast, hle⟩

section

variable (hscheduler : scheduler.Accepted)
include hscheduler

theorem StateSound.act (hstate : scheduler.StateSound state) (hcall : scheduler.CallSound state call)
    (hact : scheduler.act clock state call = some (state', call')) :
    scheduler.StateSound state' ∧ scheduler.CallSound state' call' := by
  have hkeep : ∀ stamp, Stamped state stamp → Stamped state' stamp :=
    fun stamp h => h.act hscheduler.window_pos hact
  have hlimits := hstate.limits.act hscheduler hact
  rcases stamps_of_act hact with ⟨hmade, hnone, _⟩ | ⟨now, hdue, hmade, hsome, hlast⟩
    | ⟨stamp, hstamp, hmade, hnone, _⟩
  · refine ⟨⟨hlimits, hmade ▸ hstate.apart, fun stamp hmem => ?_⟩, fun stamp hmem => ?_⟩
    · exact hkeep stamp (hstate.stamped stamp (hmade ▸ hmem))
    · rw [hnone] at hmem
      cases hmem
  · -- the decision: its timestamp lies a window after all earlier ones
    refine ⟨⟨hlimits, hmade ▸ hstate.apart, fun stamp hmem => ?_⟩, fun stamp hmem => ?_⟩
    · exact hkeep stamp (hstate.stamped stamp (hmade ▸ hmem))
    · obtain rfl : now = stamp := Option.some.inj (hsome ▸ hmem)
      refine ⟨⟨now, hlast, le_rfl⟩, fun made hin => ?_⟩
      exact (hstate.stamped made (hmade ▸ hin)).farApart hdue
  · -- the reduction decided before is made
    obtain ⟨hstamped, hfar⟩ := hcall stamp hstamp
    refine ⟨⟨hlimits, ?_, ?_⟩, fun other hmem => ?_⟩
    · rw [hmade]
      exact List.pairwise_cons.mpr ⟨hfar, hstate.apart⟩
    · rw [hmade]
      intro made hmem
      rcases List.mem_cons.mp hmem with rfl | hmem
      · exact hkeep made hstamped
      · exact hkeep made (hstate.stamped made hmem)
    · rw [hnone] at hmem
      cases hmem

theorem CallSound.act_other (hother : scheduler.CallSound state other)
    (hapart : scheduler.CallsApart call other)
    (hact : scheduler.act clock state call = some (state', call')) :
    scheduler.CallSound state' other := by
  intro stamp hmem
  obtain ⟨hstamped, hfar⟩ := hother stamp hmem
  refine ⟨hstamped.act hscheduler.window_pos hact, ?_⟩
  rcases stamps_of_act hact with ⟨hmade, _, _⟩ | ⟨_, _, hmade, _, _⟩ | ⟨made, hcall, hmade, _, _⟩
  · exact hmade ▸ hfar
  · exact hmade ▸ hfar
  · rw [hmade]
    exact List.forall_mem_cons.mpr ⟨(hapart made hcall stamp hmem).symm, hfar⟩

omit hscheduler in
theorem CallsApart.act (hother : scheduler.CallSound state other)
    (hact : scheduler.act clock state call = some (state', call')) :
    scheduler.CallsApart call' other := by
  intro a ha b hb
  rcases stamps_of_act hact with ⟨_, hnone, _⟩ | ⟨now, hdue, _, hsome, _⟩ | ⟨_, _, _, hnone, _⟩
  · rw [hnone] at ha
    cases ha
  · obtain rfl : now = a := Option.some.inj (hsome ▸ ha)
    exact (hother b hb).1.farApart hdue
  · rw [hnone] at ha
    cases ha

theorem inductive_program : Inductive scheduler.program anyAction (fun _ => scheduler.StateSound)
      (fun _ => scheduler.CallSound) scheduler.CallsApart where
  init := fun _ => ⟨hscheduler.initialState, List.Pairwise.nil, fun _ hmem => absurd hmem
    (by simp [program, initialState])⟩
  symm := fun h a ha b hb => (h b hb a ha).symm
  later := fun _ h => h
  laterCall := fun _ h => h
  enters := by
    intro _ _ call hbegins _ stamp hmem
    rw [stamp?_of_begins hbegins] at hmem
    cases hmem
  entersApart := by
    intro _ _ call _ hbegins _ a ha
    rw [stamp?_of_begins hbegins] at ha
    cases ha
  own := fun _ _ hstate hcall hact => hstate.act hscheduler hcall hact
  frame := fun _ _ _ _ hother hapart hact => hother.act_other hscheduler hapart hact
  apart := fun _ _ _ hother _ hact => CallsApart.act hother hact

end

/-- The rate, the successes and the requests in flight are within their bounds, and the timestamps
of any two reductions that throttles of hosts caused are more than a window apart. -/
structure RateInvariant (scheduler : AdaptiveRequestScheduler) (state : GlobalState) : Prop where
  minimum_le : scheduler.limits.minimumRequestsPerMinute ≤ state.rate.currentRequestsPerMinute
  le_maximum : state.rate.currentRequestsPerMinute ≤ scheduler.limits.maxRequestsPerMinute
  successful_nonneg : 0 ≤ state.rate.successfulRequests
  successful_lt : state.rate.successfulRequests < scheduler.limits.successesPerIncrease
  inFlight_nonneg : 0 ≤ state.rate.inFlight
  inFlight_le : state.rate.inFlight ≤ scheduler.limits.maxInFlight
  reductions : state.reductions.Pairwise (fun a b => scheduler.limits.hostThrottleWindow < |a - b|)

theorem rateInvariant_of_reach {arguments : SchedulerArguments}
    {scheduler : AdaptiveRequestScheduler} (h : init arguments = .ok scheduler)
    {config : Config ℚ GlobalState Call} (hreach : Reach scheduler.program anyAction config) :
    scheduler.RateInvariant config.shared := by
  have hholds := (inductive_program (accepted_of_init h)).of_reach hreach
  have hlimits := hholds.shared.limits
  have hpermits := permits_of_reach hreach
  have hinFlight := inFlight_of_reach hreach
  have hnonneg : 0 ≤ (config.calls.map Call.operations).sum := by
    refine List.sum_nonneg fun n hn => ?_
    obtain ⟨call, _, rfl⟩ := List.mem_map.mp hn
    exact call.operations_nonneg
  have hle : (config.calls.map Call.operations).sum ≤ (config.calls.map Call.permits).sum :=
    List.sum_le_sum fun call _ => call.operations_le_permits
  have hleft := hlimits.permits_nonneg
  exact ⟨hlimits.minimum_le, hlimits.le_maximum, hlimits.successful_nonneg, hlimits.successful_lt,
    by omega, by omega, hholds.shared.apart⟩

/-- The scheduler with the default arguments. -/
def defaultScheduler : AdaptiveRequestScheduler :=
  ⟨⟨3, 180, 60, 100, 10, 3⟩, ⟨false, 60, 5, 1 / 10⟩, 180⟩

/-- Three hosts are throttled within a second, and a request is started. -/
def throttledExample : List (Event ℚ Call) :=
  [.enter 0 (.reportingHost "a" 5), .act 0 0, .act 0 0, .enter 0 (.reportingHost "b" 5), .act 0 0,
    .act 0 0, .enter 1 (.reportingHost "c" 5), .act 1 0, .act 1 0, .act 1 0, .enter 1 .entering,
    .act 1 0, .act 1 0, .act 1 0, .act 6 0]

def throttledConfig : Config ℚ GlobalState Call where
  now := 6
  shared := ⟨⟨90, 0, 6 + 2 / 3, 6, 1, some 1⟩, ⟨[("a", 0), ("b", 0), ("c", 1)], []⟩, 2, [6], [1]⟩
  calls := [.running 6 [6], .done, .done, .done]

theorem execute_throttledExample :
    defaultScheduler.program.execute anyAction 0 throttledExample = some throttledConfig := by
  decide +kernel

theorem init_default : init {} = .ok defaultScheduler := by decide +kernel

theorem rateInvariant_of_reach_example : defaultScheduler.RateInvariant throttledConfig.shared :=
  rateInvariant_of_reach init_default (Reach.of_execute execute_throttledExample)

end AdaptiveRequestScheduler

end Scheduler
