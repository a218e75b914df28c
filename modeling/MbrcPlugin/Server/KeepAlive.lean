import MbrcPlugin.Settings.Config
import MbrcPlugin.Updates.Check

/-!
# What the tuning settings become

The ticker of a connection, the deadlines an idle socket is measured against, and how long the
updater waits between two checks: each is built from a number of the settings file that `validate`
does not look at.  `Usable` says that none of them panics and that a V6 client that pings once an
interval is kept; `usable_iff` for which numbers it holds.  Times are in nanoseconds.
-/

namespace Mbrc.Server.KeepAlive

open Settings Updates

/-! ## The keepalive tick -/

def secs (n : Nat) : Nat := n * 10 ^ 9

/-- A product of `u64`s; nothing where it overflows. -/
def mulU64 (a b : Nat) : Option Nat := if a * b < 2 ^ 64 then some (a * b) else none

def v6MissedPingsBeforeReap : Nat := 3

/-- `tokio::time::interval`, which panics on a period of zero. -/
def pingTicker (interval : Nat) : Option Nat := if interval = 0 then none else some interval

/-- The deadlines an idle socket is measured against. -/
structure IdleTimeouts where
  unhandshaked : Nat
  auxiliary : Nat
  v6Silence : Nat
  deriving DecidableEq

def IdleTimeouts.ofConfig (c : Config) : Option IdleTimeouts := do
  let silence ← mulU64 c.tuning.pingIntervalSecs v6MissedPingsBeforeReap
  return {
    unhandshaked := secs c.tuning.unhandshakedTimeoutSecs
    auxiliary := secs c.tuning.auxIdleTimeoutSecs
    v6Silence := secs silence }

theorem IdleTimeouts.ofConfig_eq_some {c : Config} {timeouts : IdleTimeouts}
    (h : ofConfig c = some timeouts) :
    c.tuning.pingIntervalSecs * v6MissedPingsBeforeReap < 2 ^ 64 ∧
      timeouts.v6Silence = 3 * secs c.tuning.pingIntervalSecs := by
  unfold ofConfig mulU64 at h
  split at h
  case isTrue hproduct =>
    obtain rfl := Option.some.inj h
    refine ⟨hproduct, ?_⟩
    have hthree : v6MissedPingsBeforeReap = 3 := rfl
    simp only [secs, hthree]
    omega
  case isFalse => cases h

/-- What the tick reads of the connection's protocol. -/
structure Spoken where
  handshaked : Bool
  pingsItself : Bool
  isMain : Bool
  takesServerPing : Bool
  deriving DecidableEq

structure Age where
  idle : Nat
  «open» : Nat
  deriving DecidableEq

/-- Why a connection was closed by the tick, as the log says it. -/
inductive Reason where
  | neverHandshaked | silent | abandoned | writerGone
  deriving DecidableEq

inductive Tick where
  | waiting (pinged : Bool)
  | retire (reason : Reason)
  deriving DecidableEq

/-- The idle policy, then the ping; `sends` says whether the writer still takes it. -/
def onPingTick (proto : Spoken) (registered : Bool) (age : Age) (timeouts : IdleTimeouts)
    (sends : Bool) : Tick :=
  if !proto.handshaked && timeouts.unhandshaked ≤ age.open then .retire .neverHandshaked
  else if proto.pingsItself && timeouts.v6Silence ≤ age.idle then .retire .silent
  else
    let subscribes := registered && proto.isMain
    let abandoned := registered && !subscribes && 0 < timeouts.auxiliary &&
      timeouts.auxiliary ≤ age.idle
    if abandoned then .retire .abandoned
    else if subscribes && proto.takesServerPing then
      if sends then .waiting true else .retire .writerGone
    else .waiting false

/-- What was heard within the deadline is not silent. -/
theorem onPingTick_ne_silent (proto : Spoken) (registered : Bool) {age : Age}
    {timeouts : IdleTimeouts} (sends : Bool) (h : age.idle < timeouts.v6Silence) :
    onPingTick proto registered age timeouts sends ≠ .retire .silent := by
  have hdeadline : decide (timeouts.v6Silence ≤ age.idle) = false := decide_eq_false (by omega)
  unfold onPingTick
  rw [hdeadline, Bool.and_false]
  dsimp only
  split
  · simp
  · rw [if_neg Bool.false_ne_true]
    split
    · simp
    · split
      · split <;> simp
      · simp

/-! ## One connection over time -/

/-- Bytes that came in, or a tick, and when. -/
inductive Event where
  | read (now : Nat)
  | tick (now : Nat) (proto : Spoken) (registered sends : Bool)
  deriving DecidableEq

def Event.now : Event → Nat
  | read now => now
  | tick now .. => now

structure Socket where
  lastInbound : Nat
  retired : Option Reason := none
  deriving DecidableEq

/-- The loop of a connection, as far as its age goes. -/
def Socket.step (timeouts : IdleTimeouts) (openedAt : Nat) (s : Socket) (event : Event) : Socket :=
  match s.retired, event with
  | some _, _ => s
  | none, .read now => { s with lastInbound := now }
  | none, .tick now proto registered sends =>
    let age : Age := { idle := now - s.lastInbound, «open» := now - openedAt }
    match onPingTick proto registered age timeouts sends with
    | .waiting _ => s
    | .retire reason => { s with retired := some reason }

def Socket.run (timeouts : IdleTimeouts) (openedAt : Nat) (events : List Event) : Socket :=
  events.foldl (Socket.step timeouts openedAt) { lastInbound := openedAt }

/-- The events in the order of their times, none before the connection opened. -/
def InOrder (openedAt : Nat) (events : List Event) : Prop :=
  events.Pairwise (fun e f => e.now ≤ f.now) ∧ ∀ e ∈ events, openedAt ≤ e.now

/-- The client pings once an interval: every interval since the connection opened that is over when
a tick comes has a ping in it. -/
def Paced (interval openedAt : Nat) (events : List Event) : Prop :=
  ∀ now proto registered sends, .tick now proto registered sends ∈ events →
    ∀ k, openedAt + (k + 1) * interval ≤ now →
      ∃ ping, .read ping ∈ events ∧ openedAt + k * interval ≤ ping ∧
        ping < openedAt + (k + 1) * interval

/-! ## The wait between two checks -/

/-- `as i64` of a `u64`. -/
def asI64 (n : Nat) : Int := if n < 2 ^ 63 then n else n - 2 ^ 64

/-- `Duration::hours`; nothing where the seconds overflow. -/
def durationHours (hours : Int) : Option Int :=
  if -2 ^ 63 ≤ hours * 3600 ∧ hours * 3600 < 2 ^ 63 then some (hours * UpdateState.hour) else none

/-- `UpdateState::wait`, from the setting as it is stored. -/
def waitHours (s : UpdateState) (intervalHours : Nat) : Option Int := do
  let interval ← durationHours (asI64 intervalHours)
  if s.consecutiveFailures = 0 then return interval
  let doublings := min (s.consecutiveFailures - 1) UpdateState.maxRetryDoublings
  let backoff := UpdateState.firstRetryMinutes * 2 ^ doublings * UpdateState.minute
  return min backoff interval

/-- `UpdateState::is_due`. -/
def isDueAfter {V : Type} (L : Library V) (s : UpdateState) (now : Int) (intervalHours : Nat) :
    Option Bool :=
  match s.lastCheck.bind L.readTime with
  | none => some true
  | some last =>
    if now < last then some true else (waitHours s intervalHours).map fun wait => wait ≤ now - last

/-- Where nothing overflows, the wait is the one of the check. -/
theorem waitHours_eq (s : UpdateState) (intervalHours : Nat) : waitHours s intervalHours =
    (durationHours (asI64 intervalHours)).map fun _ => s.wait (asI64 intervalHours) := by
  unfold waitHours durationHours UpdateState.wait
  split
  · by_cases h : s.consecutiveFailures = 0 <;> simp [h]
  · rfl

theorem isDueAfter_eq {V : Type} (L : Library V) (s : UpdateState) (now : Int)
    {intervalHours : Nat} (h : (durationHours (asI64 intervalHours)).isSome) :
    isDueAfter L s now intervalHours = some (s.isDue L now (asI64 intervalHours)) := by
  obtain ⟨interval, hinterval⟩ := Option.isSome_iff_exists.mp h
  unfold isDueAfter UpdateState.isDue
  cases s.lastCheck.bind L.readTime with
  | none => rfl
  | some last =>
    rw [waitHours_eq, hinterval]
    by_cases hlast : now < last <;> simp [hlast]

/-- A wait is never negative when the interval is not. -/
theorem wait_nonneg (s : UpdateState) {intervalHours : Int} (h : 0 ≤ intervalHours) :
    0 ≤ s.wait intervalHours := by
  have hinterval : 0 ≤ intervalHours * UpdateState.hour := by
    rw [show UpdateState.hour = 3600000000000 from rfl]
    omega
  unfold UpdateState.wait
  dsimp only
  split
  · exact hinterval
  · refine le_min ?_ hinterval
    have hpow : (0 : Int) < 2 ^ min (s.consecutiveFailures - 1) UpdateState.maxRetryDoublings :=
      Int.pow_pos (by omega)
    generalize (2 : Int) ^ min (s.consecutiveFailures - 1) UpdateState.maxRetryDoublings = p at hpow
    have hfirst : UpdateState.firstRetryMinutes = 15 := rfl
    have hminute : UpdateState.minute = 60000000000 := rfl
    rw [hfirst, hminute]
    omega

/-! ## What can be used -/

/-- The fields are numbers of their type. -/
structure FitsU64 (c : Config) : Prop where
  ping : c.tuning.pingIntervalSecs < 2 ^ 64
  hours : c.tuning.updateCheckIntervalHours < 2 ^ 64

/-- What the server derives from the settings can be used. -/
structure Usable (c : Config) : Prop where
  ticker : (pingTicker (secs c.tuning.pingIntervalSecs)).isSome
  timeouts : (IdleTimeouts.ofConfig c).isSome
  wait : ∀ s : UpdateState, ∃ wait,
    waitHours s c.tuning.updateCheckIntervalHours = some wait ∧ 0 ≤ wait
  due : ∀ (V : Type) (L : Library V) (s : UpdateState) (now : Int),
    (isDueAfter L s now c.tuning.updateCheckIntervalHours).isSome
  kept : ∀ timeouts, IdleTimeouts.ofConfig c = some timeouts → ∀ openedAt events,
    InOrder openedAt events → Paced (secs c.tuning.pingIntervalSecs) openedAt events →
      (Socket.run timeouts openedAt events).retired ≠ some .silent

/-! ## A client that pings is kept -/

/-- What holds of the socket after some of the events. -/
structure Heard (openedAt : Nat) (past : List Event) (s : Socket) : Prop where
  notSilent : s.retired ≠ some .silent
  since : s.retired = none → openedAt ≤ s.lastInbound
  reads : s.retired = none → ∀ ping, .read ping ∈ past → ping ≤ s.lastInbound

/-- The client is heard less than two intervals before a tick. -/
theorem idle_lt {interval openedAt now lastInbound : Nat} {past : List Event}
    (hopened : openedAt ≤ now) (hsince : openedAt ≤ lastInbound)
    (hreads : ∀ ping, .read ping ∈ past → ping ≤ lastInbound)
    (hpaced : ∀ k, openedAt + (k + 1) * interval ≤ now →
      ∃ ping, .read ping ∈ past ∧ openedAt + k * interval ≤ ping ∧
        ping < openedAt + (k + 1) * interval) :
    now - lastInbound < 2 * interval := by
  by_cases hfirst : now - openedAt < interval
  · omega
  · -- the last interval that is over when the tick comes
    have hle := Nat.div_mul_le_self (now - openedAt) interval
    rcases Nat.eq_zero_or_pos interval with rfl | hpos
    · obtain ⟨ping, -, hlow, hhigh⟩ := hpaced 0 (by omega)
      omega
    · have hlt := Nat.lt_div_mul_add (a := now - openedAt) hpos
      obtain ⟨k, hk⟩ : ∃ k, (now - openedAt) / interval = k + 1 := by
        have hone := Nat.div_pos (Nat.le_of_not_lt hfirst) hpos
        exact ⟨(now - openedAt) / interval - 1, by omega⟩
      rw [hk] at hle hlt
      obtain ⟨ping, hping, hlow, hhigh⟩ := hpaced k (by omega)
      have hheard := hreads ping hping
      rw [Nat.add_mul] at hle hlt
      omega

theorem heard_step {c : Config} {timeouts : IdleTimeouts}
    (htimeouts : IdleTimeouts.ofConfig c = some timeouts) {openedAt : Nat} {past rest : List Event}
    {event : Event} (horder : InOrder openedAt (past ++ event :: rest))
    (hpaced : Paced (secs c.tuning.pingIntervalSecs) openedAt (past ++ event :: rest)) {s : Socket}
    (h : Heard openedAt past s) :
    Heard openedAt (past ++ [event]) (s.step timeouts openedAt event) := by
  obtain ⟨hsorted, hopened⟩ := horder
  obtain ⟨-, hafter, hbefore⟩ := List.pairwise_append.mp hsorted
  cases hretired : s.retired with
  | some reason =>
    have hstep : s.step timeouts openedAt event = s := by simp only [Socket.step, hretired]
    rw [hstep]
    refine ⟨h.notSilent, ?_, ?_⟩ <;>
    · intro hnone
      rw [hretired] at hnone
      cases hnone
  | none =>
    have hsince := h.since hretired
    have hreads := h.reads hretired
    have hnow : openedAt ≤ event.now := hopened event (by simp)
    cases event with
    | read now =>
      have hstep : s.step timeouts openedAt (.read now) = { s with lastInbound := now } := by
        simp only [Socket.step, hretired]
      rw [hstep]
      refine ⟨by simp [hretired], fun _ => hnow, fun _ ping hping => ?_⟩
      rcases List.mem_append.mp hping with hping | hping
      · exact hbefore _ hping _ List.mem_cons_self
      · obtain rfl := Event.read.inj (List.mem_singleton.mp hping)
        exact le_refl _
    | tick now proto registered sends =>
      have hidle : now - s.lastInbound < 2 * secs c.tuning.pingIntervalSecs := by
        refine idle_lt hnow hsince hreads fun k hk => ?_
        obtain ⟨ping, hping, hlow, hhigh⟩ := hpaced now proto registered sends (by simp) k hk
        refine ⟨ping, ?_, hlow, hhigh⟩
        rcases List.mem_append.mp hping with hping | hping
        · exact hping
        · -- what comes after the tick is not before it
          rcases List.mem_cons.mp hping with heq | hping
          · cases heq
          · have : now ≤ ping := (List.pairwise_cons.mp hafter).1 _ hping
            omega
      have hsilence := (IdleTimeouts.ofConfig_eq_some htimeouts).2
      have hreason : onPingTick proto registered
          { idle := now - s.lastInbound, «open» := now - openedAt } timeouts sends ≠
            .retire .silent :=
        onPingTick_ne_silent proto registered sends
          (show now - s.lastInbound < timeouts.v6Silence by omega)
      have hmore : ∀ ping, .read ping ∈ past ++ [Event.tick now proto registered sends] →
          ping ≤ s.lastInbound := by
        intro ping hping
        rcases List.mem_append.mp hping with hping | hping
        · exact hreads ping hping
        · cases List.mem_singleton.mp hping
      simp only [Socket.step, hretired]
      split
      · exact ⟨h.notSilent, fun _ => hsince, fun _ => hmore⟩
      · rename_i reason hout
        refine ⟨fun hsilent => ?_, fun hnone => ?_, fun hnone => ?_⟩
        · obtain rfl := Option.some.inj hsilent
          exact hreason hout
        · cases hnone
        · cases hnone

/-- **A client that pings once an interval is never closed as silent.** -/
theorem run_not_silent {c : Config} {timeouts : IdleTimeouts}
    (htimeouts : IdleTimeouts.ofConfig c = some timeouts) {openedAt : Nat} {events : List Event}
    (horder : InOrder openedAt events)
    (hpaced : Paced (secs c.tuning.pingIntervalSecs) openedAt events) :
    (Socket.run timeouts openedAt events).retired ≠ some .silent := by
  have hall : ∀ past rest, past ++ rest = events →
      Heard openedAt past (Socket.run timeouts openedAt past) := by
    intro past
    induction past using List.reverseRecOn with
    | nil =>
      intro rest _
      exact ⟨by simp [Socket.run], fun _ => le_refl _, by simp⟩
    | append_singleton past event ih =>
      intro rest heq
      rw [List.append_assoc, List.singleton_append] at heq
      subst heq
      have hpast := ih _ rfl
      rw [Socket.run, List.foldl_append, List.foldl_cons, List.foldl_nil]
      exact heard_step htimeouts horder hpaced hpast
  exact (hall events [] (List.append_nil _)).notSilent

/-! ## For which settings -/

theorem durationHours_eq_some {hours interval : Int} : durationHours hours = some interval ↔
    (-2 ^ 63 ≤ hours * 3600 ∧ hours * 3600 < 2 ^ 63) ∧ hours * UpdateState.hour = interval := by
  unfold durationHours
  by_cases h : -2 ^ 63 ≤ hours * 3600 ∧ hours * 3600 < 2 ^ 63
  · rw [if_pos h, Option.some.injEq]
    exact (and_iff_right h).symm
  · rw [if_neg h]
    exact iff_of_false (by simp) fun hrange => h hrange.1

theorem durationHours_nonneg_iff {hours : Nat} (h : hours < 2 ^ 64) :
    (∃ interval, durationHours (asI64 hours) = some interval ∧ 0 ≤ interval) ↔
      hours * 3600 < 2 ^ 63 := by
  have hhour : UpdateState.hour = 3600000000000 := rfl
  simp only [durationHours_eq_some, hhour]
  unfold asI64
  constructor
  · rintro ⟨interval, ⟨hrange, rfl⟩, hnonneg⟩
    by_cases hsmall : hours < 2 ^ 63
    · rw [if_pos hsmall] at hrange
      omega
    · rw [if_neg hsmall] at hnonneg
      omega
  · intro hlt
    have hsmall : hours < 2 ^ 63 := by omega
    rw [if_pos hsmall]
    exact ⟨_, ⟨by omega, rfl⟩, by omega⟩

/-- **Which settings can be used.** -/
theorem usable_iff (c : Config) (hc : FitsU64 c) : Usable c ↔ 1 ≤ c.tuning.pingIntervalSecs ∧
    c.tuning.pingIntervalSecs * v6MissedPingsBeforeReap < 2 ^ 64 ∧
      c.tuning.updateCheckIntervalHours * 3600 < 2 ^ 63 := by
  have hdue := durationHours_nonneg_iff hc.hours
  constructor
  · intro h
    refine ⟨?_, ?_, hdue.mp ?_⟩
    · have hticker := h.ticker
      unfold pingTicker secs at hticker
      split at hticker
      · cases hticker
      · omega
    · obtain ⟨timeouts, htimeouts⟩ := Option.isSome_iff_exists.mp h.timeouts
      exact (IdleTimeouts.ofConfig_eq_some htimeouts).1
    · -- a state without failures waits out the interval itself
      obtain ⟨wait, hwait, hnonneg⟩ := h.wait {}
      rw [waitHours_eq] at hwait
      obtain ⟨interval, hinterval, rfl⟩ := Option.map_eq_some_iff.mp hwait
      refine ⟨interval, hinterval, ?_⟩
      rw [← (durationHours_eq_some.mp hinterval).2]
      exact hnonneg
  · rintro ⟨hping, hproduct, hhours⟩
    obtain ⟨interval, hinterval, hnonneg⟩ := hdue.mpr hhours
    have hsmall : asI64 c.tuning.updateCheckIntervalHours =
        c.tuning.updateCheckIntervalHours := by
      unfold asI64
      rw [if_pos (by omega)]
    refine ⟨?_, ?_, fun s => ?_, fun V L s now => ?_, fun timeouts ht openedAt events ho hp =>
      run_not_silent ht ho hp⟩
    · unfold pingTicker secs
      rw [if_neg (by omega)]
      rfl
    · unfold IdleTimeouts.ofConfig mulU64
      rw [if_pos hproduct]
      rfl
    · refine ⟨s.wait (asI64 c.tuning.updateCheckIntervalHours), ?_, ?_⟩
      · rw [waitHours_eq, hinterval]
        rfl
      · rw [hsmall]
        exact wait_nonneg s (by omega)
    · rw [isDueAfter_eq L s now (by rw [hinterval]; rfl)]
      rfl

/-- The settings that a fresh file has can be used. -/
theorem usable_iff_default : FitsU64 {} ∧ Usable {} :=
  ⟨⟨by decide, by decide⟩, (usable_iff {} ⟨by decide, by decide⟩).mpr (by decide)⟩

/-- A ping interval of zero is accepted, and no connection gets its ticker. -/
theorem zero_interval_is_accepted : ∃ c : Config, c.validate = true ∧ ¬ Usable c := by
  refine ⟨{ tuning := { pingIntervalSecs := 0 } }, by decide, fun h => ?_⟩
  exact absurd h.ticker (by decide)

end Mbrc.Server.KeepAlive
