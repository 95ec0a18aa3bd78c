import Draind.Agent.IdleTimer

namespace Draind.Agent

-- Time passes, or one of the two sources is handled at the time it is.
inductive ClockMove where
  | wait (now : Nat)
  | event (source : Source)

-- The calls of on_dim and on_sleep among the effects.
def IdleEffect.isReport : IdleEffect → Bool
  | .dim | .sleep => true
  | .active | .settime _ => false

-- calls are those since the last input, with their times. The code keeps no such
-- record.
structure Timeline where
  timed : Timed
  calls : List (Nat × IdleEffect)

namespace Timeline

def start (dimMs sleepMs : Int32) (now : Nat) : Timeline :=
  ⟨.start dimMs sleepMs now, []⟩

-- No time passes the one the timer is set to.
def Waits (s : Timeline) (now : Nat) : Prop :=
  s.timed.clock ≤ now ∧ ∀ expiry ∈ s.timed.timer, now ≤ expiry

-- The expiration is delivered exactly when the timer is set to expire. Where an input
-- of the same batch comes before it, its event is handled all the same.
def Delivers (s : Timeline) : Source → Prop
  | .timer => s.timed.timer = some s.timed.clock ∨ s.timed.clock = s.timed.lastInput
  | .input => True

instance (s : Timeline) (now : Nat) : Decidable (s.Waits now) :=
  inferInstanceAs (Decidable (_ ∧ _))

instance (s : Timeline) : (source : Source) → Decidable (s.Delivers source)
  | .timer => inferInstanceAs (Decidable (_ ∨ _))
  | .input => inferInstanceAs (Decidable True)

def reports (s : Timeline) (source : Source) : List (Nat × IdleEffect) :=
  ((s.timed.monitor.handle (Timed.toEvent (s.timed.clock, source))).2.filter IdleEffect.isReport).map
    (s.timed.clock, ·)

-- An input begins a new interval. A move that is not possible in a state leaves it alone.
def step (s : Timeline) : ClockMove → Timeline
  | .wait now => if s.Waits now then { s with timed := { s.timed with clock := now } } else s
  | .event source =>
      if s.Delivers source then
        ⟨s.timed.handle s.timed.clock source, match source with
          | .timer => s.calls ++ s.reports source
          | .input => s.reports source⟩
      else s

-- What has been called since the last input is what the thresholds say. An interval
-- that ends as a threshold is reached may or may not have its call.
structure Punctual (dimMs sleepMs : Int32) (s : Timeline) : Prop where
  once : s.calls.Nodup
  dim : ∀ time, (time, .dim) ∈ s.calls → dimMs < sleepMs ∧ time = s.timed.lastInput + nanos dimMs
  sleep : ∀ time, (time, .sleep) ∈ s.calls → time = s.timed.lastInput + nanos sleepMs
  dimmed : dimMs < sleepMs → s.timed.lastInput + nanos dimMs < s.timed.clock →
    (s.timed.lastInput + nanos dimMs, .dim) ∈ s.calls
  slept : s.timed.lastInput + nanos sleepMs < s.timed.clock →
    (s.timed.lastInput + nanos sleepMs, .sleep) ∈ s.calls

-- With the smaller sleepMs, no interval without input lasts longer than it.
def Short (dimMs sleepMs : Int32) (s : Timeline) : ClockMove → Prop
  | .wait now => sleepMs < dimMs → s.Waits now → now ≤ s.timed.lastInput + nanos sleepMs
  | .event _ => True

section Thresholds

variable {dimMs sleepMs : Int32}

-- What the timer is set for, and what has been called by then.
inductive Phase (dimMs sleepMs : Int32) (s : Timeline) : Prop where
  | waiting (hdimmed : s.timed.monitor.dimmed = false) (hsleeping : s.timed.monitor.sleeping = false)
      (htimer : s.timed.timer = some (s.timed.lastInput + nanos dimMs)) (hcalls : s.calls = [])
      (hclock : s.timed.clock ≤ s.timed.lastInput + nanos dimMs)
  | dimmed (hlt : dimMs.toInt < sleepMs.toInt) (hsleeping : s.timed.monitor.sleeping = false)
      (htimer : s.timed.timer = some (s.timed.lastInput + nanos sleepMs))
      (hcalls : s.calls = [(s.timed.lastInput + nanos dimMs, .dim)])
      (hlow : s.timed.lastInput + nanos dimMs ≤ s.timed.clock)
      (hclock : s.timed.clock ≤ s.timed.lastInput + nanos sleepMs)
  | slept (hle : dimMs.toInt ≤ sleepMs.toInt) (htimer : s.timed.timer = none)
      (hcalls : s.calls = (if dimMs.toInt < sleepMs.toInt then
        [(s.timed.lastInput + nanos dimMs, .dim)] else []) ++ [(s.timed.lastInput + nanos sleepMs, .sleep)])
      (hclock : s.timed.lastInput + nanos sleepMs ≤ s.timed.clock)

structure Tracks (dimMs sleepMs : Int32) (s : Timeline) : Prop where
  dims : s.timed.monitor.dimMs = dimMs
  sleeps : s.timed.monitor.sleepMs = sleepMs
  last : s.timed.monitor.lastEventMs = monoMs s.timed.lastInput
  past : s.timed.lastInput ≤ s.timed.clock
  short : sleepMs.toInt < dimMs.toInt → s.timed.clock ≤ s.timed.lastInput + nanos sleepMs
  phase : Phase dimMs sleepMs s

theorem nanos_lt_iff {first second : Int32} (h : 0 < second.toInt) :
    nanos first < nanos second ↔ first.toInt < second.toInt := by
  unfold nanos
  omega

theorem nanos_eq {first second : Int32} (h : first.toInt = second.toInt) : nanos first = nanos second := by
  rw [nanos, nanos, h]

theorem Tracks.punctual {s : Timeline} (hd : 0 < dimMs.toInt) (h : Tracks dimMs sleepMs s) : Punctual dimMs sleepMs s := by
  cases h.phase with
  | waiting hdimmed hsleeping htimer hcalls hclock =>
      refine ⟨by simp [hcalls], by simp [hcalls], by simp [hcalls], fun _ hlt => by omega, fun hlt => ?_⟩
      have hsmaller := (nanos_lt_iff hd).mp (show nanos sleepMs < nanos dimMs by omega)
      exact absurd (h.short hsmaller) (by omega)
  | dimmed hlt hsleeping htimer hcalls hlow hclock =>
      exact ⟨by simp [hcalls], by simp [hcalls, Int32.lt_iff_toInt_lt, hlt], by simp [hcalls],
        by simp [hcalls], fun hlate => by omega⟩
  | slept hle htimer hcalls hclock =>
      by_cases hlt : dimMs.toInt < sleepMs.toInt
      · simp only [hlt, if_true] at hcalls
        exact ⟨by simp [hcalls], by simp [hcalls, Int32.lt_iff_toInt_lt, hlt], by simp [hcalls],
          by simp [hcalls], by simp [hcalls]⟩
      · simp only [hlt, if_false] at hcalls
        exact ⟨by simp [hcalls], by simp [hcalls], by simp [hcalls],
          fun h => absurd (Int32.lt_iff_toInt_lt.mp h) hlt, by simp [hcalls]⟩

-- An input sets the timer for dimMs, whichever threshold is the smaller.
theorem input_tracks {s : Timeline} (hd : 0 < dimMs.toInt) (h : Tracks dimMs sleepMs s) :
    Tracks dimMs sleepMs (s.step (.event .input)) := by
  have hon : 0 < s.timed.monitor.dimMs := h.dims ▸ Int32.lt_iff_toInt_lt.mpr hd
  rcases InputIdleMonitor.resetIdleTimer_cases { s.timed.monitor with lastEventMs := monoMs s.timed.clock }
    with ⟨hoff, -, -⟩ | ⟨-, he⟩
  · exact absurd hon (Int32.not_lt.mpr hoff)
  have hfirst : InputIdleMonitor.firstMs { s.timed.monitor with lastEventMs := monoMs s.timed.clock } =
      dimMs := by
    rw [InputIdleMonitor.firstMs, if_pos hon, h.dims]
  rw [hfirst] at he
  have hreports : s.reports .input = [] := by
    simp only [reports, Timed.toEvent, InputIdleMonitor.handle, he]
    split <;> rfl
  simp only [step, Delivers, if_true, hreports, Timed.handle_input, he]
  exact ⟨h.dims, h.sleeps, rfl, Nat.le_refl _, fun _ => Nat.le_add_right _ _,
    .waiting rfl rfl rfl rfl (Nat.le_add_right _ _)⟩

theorem elapsed_at {s : Timeline} (h : Tracks dimMs sleepMs s) (ms : Int32) (hms : 0 ≤ ms.toInt)
    (hc : s.timed.clock = s.timed.lastInput + nanos ms) :
    (monoMs s.timed.clock - s.timed.monitor.lastEventMs).toUInt32.toInt32.toInt = ms.toInt := by
  have hmillis := millis_nanos s.timed.lastInput ms
  rw [← hc] at hmillis
  have hhi := ms.toInt_lt
  rw [h.last, elapsed_exact h.past (by omega), hmillis]
  omega

theorem step_timer {s : Timeline} (h : s.Delivers .timer) {m : InputIdleMonitor} {out : List IdleEffect}
    (he : s.timed.monitor.onTimeout (monoMs s.timed.clock) = (m, out)) :
    s.step (.event .timer) =
      ⟨{ s.timed with
          monitor := m
          timer := out.foldl (Timed.settime s.timed.clock) (s.timed.timer.filter (s.timed.clock < ·)) },
        s.calls ++ (out.filter IdleEffect.isReport).map (s.timed.clock, ·)⟩ := by
  simp only [step, if_pos h, reports, Timed.toEvent, Timed.handle, Timed.after, InputIdleMonitor.handle, he]

-- The dim threshold is reached: dim is called, or sleep where both are the same.
theorem waiting_tracks {s : Timeline} (hd : 0 < dimMs.toInt) (hs : 0 < sleepMs.toInt)
    (h : Tracks dimMs sleepMs s) (hdimmed : s.timed.monitor.dimmed = false)
    (hsleeping : s.timed.monitor.sleeping = false)
    (htimer : s.timed.timer = some (s.timed.lastInput + nanos dimMs)) (hcalls : s.calls = [])
    (hdue : s.timed.timer = some s.timed.clock) :
    Tracks dimMs sleepMs (s.step (.event .timer)) := by
  have hclock : s.timed.clock = s.timed.lastInput + nanos dimMs := by
    rw [htimer] at hdue
    exact (Option.some.inj hdue).symm
  have hle : dimMs.toInt ≤ sleepMs.toInt := by
    by_contra hlt
    have hshort := h.short (by omega)
    have hless : nanos sleepMs < nanos dimMs := (nanos_lt_iff hd).mpr (by omega)
    omega
  rcases s.timed.monitor.onTimeout_cases _ _ (elapsed_at h _ (Int.le_of_lt hd) hclock)
      (Int.le_of_lt hd) with
    ⟨⟨-, -, hreached⟩, he⟩ | ⟨hnot, -, out, hout, he⟩ | ⟨-, hnotDim, -⟩
  · rw [h.sleeps] at hreached
    have hsame : nanos dimMs = nanos sleepMs := nanos_eq (by omega)
    rw [step_timer (.inl hdue) he]
    refine ⟨h.dims, h.sleeps, h.last, h.past, h.short, .slept hle ?_ ?_ ?_⟩
    · simp [hdue, Timed.settime]
    · simp [hcalls, IdleEffect.isReport, hclock, hsame, Int.not_lt.mpr hreached]
    · exact (hclock.trans (by rw [hsame])).ge
  · have hlt : dimMs.toInt < sleepMs.toInt := by
      by_contra hge
      exact hnot ⟨hsleeping, by rw [h.sleeps]; exact hs, by rw [h.sleeps]; omega⟩
    rw [InputIdleMonitor.remaining, if_pos ⟨by rw [h.sleeps]; exact hs, hsleeping⟩, h.sleeps] at hout
    obtain ⟨ms, rfl, hms⟩ := hout
    have hnext : s.timed.clock + nanos ms = s.timed.lastInput + nanos sleepMs := by
      simp only [hclock, nanos, hms]
      omega
    rw [step_timer (.inl hdue) he]
    refine ⟨h.dims, h.sleeps, h.last, h.past, h.short, .dimmed hlt hsleeping ?_ ?_ hclock.ge ?_⟩
    · simp [Timed.settime, hnext]
    · rw [hcalls, hclock]
      rfl
    · exact (Nat.le_add_right _ _).trans hnext.le
  · exact absurd ⟨hdimmed, by rw [h.dims]; exact hd, Int.le_of_eq (congrArg Int32.toInt h.dims)⟩ hnotDim

-- The sleep threshold is reached, for which the timer was set as dim was called.
theorem dimmed_tracks {s : Timeline} (hs : 0 < sleepMs.toInt) (h : Tracks dimMs sleepMs s)
    (hlt : dimMs.toInt < sleepMs.toInt) (hsleeping : s.timed.monitor.sleeping = false)
    (htimer : s.timed.timer = some (s.timed.lastInput + nanos sleepMs))
    (hcalls : s.calls = [(s.timed.lastInput + nanos dimMs, .dim)])
    (hdue : s.timed.timer = some s.timed.clock) :
    Tracks dimMs sleepMs (s.step (.event .timer)) := by
  have hclock : s.timed.clock = s.timed.lastInput + nanos sleepMs := by
    rw [htimer] at hdue
    exact (Option.some.inj hdue).symm
  have hreached : s.timed.monitor.SleepDue sleepMs.toInt :=
    ⟨hsleeping, by rw [h.sleeps]; exact hs, Int.le_of_eq (congrArg Int32.toInt h.sleeps)⟩
  rcases s.timed.monitor.onTimeout_cases _ _ (elapsed_at h _ (Int.le_of_lt hs) hclock)
      (Int.le_of_lt hs) with
    ⟨-, he⟩ | ⟨hnot, -⟩ | ⟨hnot, -⟩
  · rw [step_timer (.inl hdue) he]
    refine ⟨h.dims, h.sleeps, h.last, h.past, h.short, .slept (Int.le_of_lt hlt) ?_ ?_ hclock.ge⟩
    · simp [hdue, Timed.settime]
    · simp [hcalls, hlt, IdleEffect.isReport, hclock]
  · exact absurd hreached hnot
  · exact absurd hreached hnot

-- An expiration that the input has overtaken finds no time elapsed.
theorem stale_tracks {s : Timeline} (hd : 0 < dimMs.toInt) (hs : 0 < sleepMs.toInt)
    (h : Tracks dimMs sleepMs s) (hstale : s.timed.clock = s.timed.lastInput) :
    Tracks dimMs sleepMs (s.step (.event .timer)) := by
  have hnone := s.timed.monitor.onTimeout_cases _ _ (elapsed_at h 0 (Int.le_refl _) hstale)
    (Int.le_refl _)
  have hpos : 0 < nanos dimMs ∧ 0 < nanos sleepMs := by
    unfold nanos
    omega
  rcases hnone with ⟨⟨-, hlow, hhigh⟩, -⟩ | ⟨-, ⟨-, hlow, hhigh⟩, -⟩ | ⟨-, -, he⟩
  · exact absurd (Int.lt_of_lt_of_le hlow hhigh) (by decide)
  · exact absurd (Int.lt_of_lt_of_le hlow hhigh) (by decide)
  rw [step_timer (.inr hstale) he]
  refine ⟨h.dims, h.sleeps, h.last, h.past, h.short, ?_⟩
  cases h.phase with
  | waiting hdimmed hsleeping htimer hcalls hclock =>
      refine .waiting hdimmed hsleeping ?_ (by simp [hcalls]) hclock
      simp [htimer, hstale, hpos.1]
  | dimmed hlt hsleeping htimer hcalls hlow hclock => omega
  | slept hle htimer hcalls hclock => omega

theorem timer_tracks {s : Timeline} (hd : 0 < dimMs.toInt) (hs : 0 < sleepMs.toInt)
    (h : Tracks dimMs sleepMs s) : Tracks dimMs sleepMs (s.step (.event .timer)) := by
  by_cases hdel : s.Delivers .timer
  · rcases hdel with hdue | hstale
    · cases h.phase with
      | waiting hdimmed hsleeping htimer hcalls hclock =>
          exact waiting_tracks hd hs h hdimmed hsleeping htimer hcalls hdue
      | dimmed hlt hsleeping htimer hcalls hlow hclock =>
          exact dimmed_tracks hs h hlt hsleeping htimer hcalls hdue
      | slept hle htimer hcalls hclock =>
          rw [htimer] at hdue
          cases hdue
    · exact stale_tracks hd hs h hstale
  · rw [step, if_neg hdel]
    exact h

theorem wait_tracks {s : Timeline} {now : Nat} (h : Tracks dimMs sleepMs s)
    (hshort : Short dimMs sleepMs s (.wait now)) : Tracks dimMs sleepMs (s.step (.wait now)) := by
  by_cases hw : s.Waits now
  · rw [step, if_pos hw]
    obtain ⟨hlater, hexpiry⟩ := hw
    refine ⟨h.dims, h.sleeps, h.last, h.past.trans hlater, fun hlt => ?_, ?_⟩
    · exact hshort (Int32.lt_iff_toInt_lt.mpr hlt) ⟨hlater, hexpiry⟩
    cases h.phase with
    | waiting hdimmed hsleeping htimer hcalls hclock =>
        exact .waiting hdimmed hsleeping htimer hcalls (hexpiry _ htimer)
    | dimmed hlt hsleeping htimer hcalls hlow hclock =>
        exact .dimmed hlt hsleeping htimer hcalls (hlow.trans hlater) (hexpiry _ htimer)
    | slept hle htimer hcalls hclock => exact .slept hle htimer hcalls (hclock.trans hlater)
  · rw [step, if_neg hw]
    exact h

-- While the smaller sleepMs passes unnoticed nothing has been called.
theorem short_of_punctual {s : Timeline} {now : Nat} (h : Tracks dimMs sleepMs s)
    (hp : Punctual dimMs sleepMs (s.step (.wait now))) : Short dimMs sleepMs s (.wait now) := by
  intro hlt hw
  have hless := Int32.lt_iff_toInt_lt.mp hlt
  rw [step, if_pos hw] at hp
  by_contra hlong
  have hcall := hp.slept (Nat.not_le.mp hlong)
  cases h.phase with
  | waiting hdimmed hsleeping htimer hcalls hclock =>
      change _ ∈ s.calls at hcall
      rw [hcalls] at hcall
      cases hcall
  | dimmed hdim hsleeping htimer hcalls hlow hclock => omega
  | slept hle htimer hcalls hclock => omega

theorem step_tracks (hd : 0 < dimMs.toInt) (hs : 0 < sleepMs.toInt) (s : Timeline) (move : ClockMove)
    (h : Tracks dimMs sleepMs s) (hshort : Short dimMs sleepMs s move) :
    Tracks dimMs sleepMs (s.step move) := by
  cases move with
  | wait now => exact wait_tracks h hshort
  | event source =>
      cases source with
      | timer => exact timer_tracks hd hs h
      | input => exact input_tracks hd h

theorem start_tracks (hd : 0 < dimMs) (now : Nat) : Tracks dimMs sleepMs (start dimMs sleepMs now) := by
  have hstart : start dimMs sleepMs now =
      ⟨⟨⟨dimMs, sleepMs, false, false, monoMs now⟩, some (now + nanos dimMs), now, now⟩, []⟩ := by
    simp [start, Timed.start, InputIdleMonitor.init, InputIdleMonitor.resetIdleTimer,
      InputIdleMonitor.firstMs, hd, Int32.not_le.mpr hd, Timed.settime]
  rw [hstart]
  exact ⟨rfl, rfl, rfl, Nat.le_refl _, fun _ => Nat.le_add_right _ _,
    .waiting rfl rfl rfl rfl (Nat.le_add_right _ _)⟩

-- In every run the calls come when the thresholds are reached, exactly when dimMs is
-- not the larger threshold or no interval without input outlasts sleepMs.
theorem punctual_throughout_iff (dimMs sleepMs : Int32) (hd : 0 < dimMs) (hs : 0 < sleepMs) (now : Nat)
    (moves : List ClockMove) :
    Run.Throughout step (Punctual dimMs sleepMs) (start dimMs sleepMs now) moves ↔
      Run.Meets step (Short dimMs sleepMs) (start dimMs sleepMs now) moves := by
  have hdim := Int32.lt_iff_toInt_lt.mp hd
  have hsleep := Int32.lt_iff_toInt_lt.mp hs
  refine Run.throughout_iff_meets_of_invariant step (Tracks dimMs sleepMs) (step_tracks hdim hsleep)
    (fun s h => h.punctual hdim) (fun s move h hp => ?_) moves (start_tracks hd now)
  cases move with
  | wait now => exact short_of_punctual h hp
  | event source => trivial

-- Sleep after five minutes and dim after ten.
theorem punctual_sleepFirst :
    ¬Run.Throughout step (Punctual 600000 300000) (start 600000 300000 0)
      [.wait 600000000000, .event .timer] := by
  intro h
  have hsleep := h.2.2.sleep 600000000000 (by decide)
  exact absurd hsleep (by decide)

-- Dim is reported, the input comes with the expiration for sleep and before it, and
-- in the interval after it both are reported.
def overtaken : List ClockMove :=
  [.wait 300000000000, .event .timer, .wait 600000000000, .event .input, .event .timer,
    .wait 900000000000, .event .timer, .wait 1200000000000, .event .timer]

theorem punctual_overtaken :
    Run.Throughout step (Punctual 300000 600000) (start 300000 600000 0) overtaken ↔
      Run.Meets step (Short 300000 600000) (start 300000 600000 0) overtaken :=
  punctual_throughout_iff 300000 600000 (by decide) (by decide) 0 overtaken

end Thresholds

end Timeline

end Draind.Agent
