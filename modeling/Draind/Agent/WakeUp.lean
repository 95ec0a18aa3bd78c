import Draind.Agent.IdleTimer

namespace Draind.Agent

inductive TimedMove where
  | poll (events : List (Nat × Source))
  | setTimeouts (now : Nat) (dimMs sleepMs : Int32)

-- The timeouts that were given last, to init or to set_timeouts: dim_ms and sleep_ms.
def giveTimeouts (last : Int32 × Int32) : TimedMove → Int32 × Int32
  | .poll _ => last
  | .setTimeouts _ dimMs sleepMs => (dimMs, sleepMs)

def given (dimMs sleepMs : Int32) (moves : List TimedMove) : Int32 × Int32 :=
  moves.foldl giveTimeouts (dimMs, sleepMs)

-- What the monitor has still to report: sleep where it is enabled, and else dim.
def InputIdleMonitor.Outstanding (m : InputIdleMonitor) (timeouts : Int32 × Int32) : Prop :=
  (0 < timeouts.2 ∧ m.sleeping = false) ∨ (timeouts.2 ≤ 0 ∧ 0 < timeouts.1 ∧ m.dimmed = false)

def InputIdleMonitor.timeouts (m : InputIdleMonitor) : Int32 × Int32 :=
  (m.dimMs, m.sleepMs)

namespace Timed

def step (s : Timed) : TimedMove → Timed
  | .poll events => s.poll events
  | .setTimeouts now dimMs sleepMs => s.setTimeouts now dimMs sleepMs

-- The clock does not go back, and where on_timeout reads it less than 2^31 ms have
-- passed since the last input.
def EventInTime (s : Timed) (e : Nat × Source) : Prop :=
  s.clock ≤ e.1 ∧ (e.2 = .timer → millis e.1 - millis s.lastInput < 2147483648)

def InTime (s : Timed) : TimedMove → Prop
  | .poll events => Run.Meets (fun s e => s.handle e.1 e.2) EventInTime s events
  | .setTimeouts now _ _ => s.clock ≤ now

def Armed (s : Timed) : Prop :=
  ∃ expiry ∈ s.timer, s.clock < expiry

def Pending (s : Timed) : Prop :=
  ∃ expiry ∈ s.timer, expiry ≤ s.clock

def Wakes (s : Timed) (timeouts : Int32 × Int32) : Prop :=
  s.monitor.Outstanding timeouts → s.Armed ∨ s.Pending

-- After every part of the moves it wakes up for the timeouts given last by then.
def AlwaysWakes (dimMs sleepMs : Int32) (now : Nat) (moves : List TimedMove) : Prop :=
  ∀ before, before <+: moves →
    (Run.exec step (start dimMs sleepMs now) before).Wakes (given dimMs sleepMs before)

section WakeUp

-- The threshold that the timer is set for.
def nextMs (m : InputIdleMonitor) : Int :=
  if 0 < m.dimMs.toInt ∧ m.dimmed = false then m.dimMs.toInt else m.sleepMs.toInt

-- With something to report, the timer expires when the threshold is reached or
-- later. set_timeouts starts it after the last input.
structure Timely (s : Timed) : Prop where
  last : s.monitor.lastEventMs = monoMs s.lastInput
  past : s.lastInput ≤ s.clock
  due : s.monitor.Outstanding s.monitor.timeouts → ∃ expiry ∈ s.timer,
    (millis s.lastInput : Int) + nextMs s.monitor ≤ millis expiry

theorem Timely.wakes {s : Timed} (h : s.Timely) : s.Wakes s.monitor.timeouts := by
  intro ho
  obtain ⟨expiry, he, -⟩ := h.due ho
  rcases Nat.lt_or_ge s.clock expiry with hlt | hle
  · exact .inl ⟨expiry, he, hlt⟩
  · exact .inr ⟨expiry, he, hle⟩

theorem outstanding_iff (m : InputIdleMonitor) :
    m.Outstanding m.timeouts ↔ (0 < m.sleepMs.toInt ∧ m.sleeping = false) ∨
      (m.sleepMs.toInt ≤ 0 ∧ 0 < m.dimMs.toInt ∧ m.dimmed = false) := by
  rw [InputIdleMonitor.Outstanding, Int32.lt_iff_toInt_lt, Int32.le_iff_toInt_le, Int32.lt_iff_toInt_lt]
  rfl

theorem not_outstanding_of_off {m : InputIdleMonitor} (hd : m.dimMs ≤ 0) (hs : m.sleepMs ≤ 0) :
    ¬m.Outstanding m.timeouts := by
  rintro (⟨hsleep, -⟩ | ⟨-, hdim, -⟩)
  · exact absurd hsleep (Int32.not_lt.mpr hs)
  · exact absurd hdim (Int32.not_lt.mpr hd)

theorem nextMs_reset (m : InputIdleMonitor) (h : 0 < m.firstMs) :
    nextMs { m with dimmed := false, sleeping := false } = m.firstMs.toInt := by
  unfold nextMs InputIdleMonitor.firstMs
  by_cases hd : 0 < m.dimMs
  · rw [if_pos hd, if_pos ⟨Int32.lt_iff_toInt_lt.mp hd, rfl⟩]
  · have hs : 0 < m.sleepMs := (m.firstMs_pos.mp h).resolve_left hd
    rw [if_neg hd, if_pos hs, if_neg fun hdim => hd (Int32.lt_iff_toInt_lt.mpr hdim.1)]

-- reset_idle_timer sets the timer for the first threshold, counted from now.
theorem reset_timely {s : Timed} {now : Nat} {m : InputIdleMonitor} (hlast : m.lastEventMs = monoMs s.lastInput)
    (hpast : s.lastInput ≤ now) : (s.after now m.resetIdleTimer).Timely := by
  rcases m.resetIdleTimer_cases with ⟨hd, hs, he⟩ | ⟨hpos, he⟩
  · rw [he]
    exact ⟨hlast, hpast, fun ho => absurd ho (not_outstanding_of_off hd hs)⟩
  · rw [he]
    refine ⟨hlast, hpast, fun _ => ⟨now + nanos m.firstMs, rfl, ?_⟩⟩
    have hfirst := Int32.lt_iff_toInt_lt.mp hpos
    have hmono := millis_mono hpast
    show (millis s.lastInput : Int) + nextMs { m with dimmed := false, sleeping := false } ≤ _
    rw [nextMs_reset m hpos, millis_nanos]
    change 0 < m.firstMs.toInt at hfirst
    omega

theorem start_timely (dimMs sleepMs : Int32) (now : Nat) : (start dimMs sleepMs now).Timely :=
  reset_timely (s := ⟨⟨dimMs, sleepMs, false, false, monoMs now⟩, none, now, now⟩) rfl (Nat.le_refl now)

theorem setTimeouts_timely {s : Timed} {now : Nat} (dimMs sleepMs : Int32) (h : s.Timely)
    (hn : s.clock ≤ now) : (s.setTimeouts now dimMs sleepMs).Timely :=
  reset_timely h.last (h.past.trans hn)

theorem input_timely {s : Timed} {now : Nat} : (s.handle now .input).Timely := by
  rw [handle_input]
  exact reset_timely (s := { s with lastInput := now })
    (m := { s.monitor with lastEventMs := monoMs now }) rfl (Nat.le_refl now)

-- Whatever on_timeout reports, it has set the timer where something is left. Where it
-- reports nothing, the threshold is not reached, and the timer has not expired.
theorem timer_timely {s : Timed} {now : Nat} (h : s.Timely) (hn : s.clock ≤ now)
    (hb : millis now - millis s.lastInput < 2147483648) : (s.handle now .timer).Timely := by
  have hpast := h.past.trans hn
  have hmono := millis_mono hpast
  have helapsed := elapsed_exact hpast hb
  rw [← h.last] at helapsed
  have hcases := s.monitor.onTimeout_cases (monoMs now) _ helapsed (Int.natCast_nonneg _)
  refine ⟨?_, hpast, fun ho => ?_⟩
  · rcases hcases with ⟨-, he⟩ | ⟨-, -, out, -, he⟩ | ⟨-, -, he⟩
    all_goals
      simp only [handle, after, InputIdleMonitor.handle, he]
      exact h.last
  rw [outstanding_iff] at ho
  rcases hcases with ⟨⟨-, hsleep, -⟩, he⟩ | ⟨hnot, -, out, hout, he⟩ | ⟨hnot, hnotDim, he⟩
  · simp only [handle, after, InputIdleMonitor.handle, he] at ho
    simp only [Bool.true_eq_false, and_false, false_or] at ho
    omega
  · simp only [handle, after, InputIdleMonitor.handle, he, Bool.true_eq_false, and_false, or_false] at ho ⊢
    rw [InputIdleMonitor.remaining, if_pos ho] at hout
    obtain ⟨ms, rfl, hms⟩ := hout
    refine ⟨now + nanos ms, rfl, ?_⟩
    have hlt : ((millis now - millis s.lastInput : Nat) : Int) < s.monitor.sleepMs.toInt := by
      by_contra hle
      exact hnot ⟨ho.2, ho.1, by omega⟩
    rw [millis_nanos]
    simp only [nextMs, Bool.true_eq_false, and_false, if_false]
    omega
  · simp only [handle, after, InputIdleMonitor.handle, he] at ho ⊢
    obtain ⟨expiry, hexpiry, hle⟩ := h.due ((outstanding_iff _).mpr ho)
    refine ⟨expiry, ?_, hle⟩
    have hlater : now < expiry := by
      by_contra hnow
      have hreached := millis_mono (Nat.not_lt.mp hnow)
      unfold nextMs at hle
      split at hle
      · rename_i hdim
        exact hnotDim ⟨hdim.2, hdim.1, by omega⟩
      · rename_i hdim
        have hsleep : 0 < s.monitor.sleepMs.toInt ∧ s.monitor.sleeping = false :=
          ho.resolve_right fun h => hdim h.2
        exact hnot ⟨hsleep.2, hsleep.1, by omega⟩
    simpa [hlater] using hexpiry

theorem handle_timely (s : Timed) (e : Nat × Source) (h : s.Timely) (ht : s.EventInTime e) :
    (s.handle e.1 e.2).Timely := by
  obtain ⟨now, source⟩ := e
  cases source with
  | timer => exact timer_timely h ht.1 (ht.2 rfl)
  | input => exact input_timely

theorem step_timely (s : Timed) (move : TimedMove) (h : s.Timely) (ht : s.InTime move) :
    (s.step move).Timely := by
  cases move with
  | poll events => exact Run.invariant _ Timely handle_timely h ht
  | setTimeouts now dimMs sleepMs => exact setTimeouts_timely dimMs sleepMs h ht

theorem resetIdleTimer_timeouts (m : InputIdleMonitor) : m.resetIdleTimer.1.timeouts = m.timeouts := by
  rcases m.resetIdleTimer_cases with ⟨-, -, he⟩ | ⟨-, he⟩
  · rw [he]
  · rw [he]
    rfl

theorem handle_timeouts (s : Timed) (e : Nat × Source) : (s.handle e.1 e.2).monitor.timeouts = s.monitor.timeouts := by
  obtain ⟨now, source⟩ := e
  cases source with
  | timer =>
      simp only [handle, after, InputIdleMonitor.handle, InputIdleMonitor.onTimeout]
      split_ifs <;> rfl
  | input =>
      rw [handle_input]
      exact resetIdleTimer_timeouts _

-- The monitor counts to the timeouts it was given last.
theorem run_timeouts (moves : List TimedMove) (s : Timed) :
    (Run.exec step s moves).monitor.timeouts = moves.foldl giveTimeouts s.monitor.timeouts := by
  induction moves generalizing s with
  | nil => rfl
  | cons move rest ih =>
      rw [Run.exec_cons, ih, List.foldl_cons]
      congr 1
      cases move with
      | poll events =>
          exact Run.invariant_always _ (fun s' => s'.monitor.timeouts = s.monitor.timeouts)
            (fun s' e h => (handle_timeouts s' e).trans h) events rfl
      | setTimeouts now dimMs sleepMs => exact resetIdleTimer_timeouts _

-- In every state of every run of the monitor, while there is something to report by the
-- timeouts given last, its timer is armed or its expiration waits to be read.
theorem wakes_throughout (dimMs sleepMs : Int32) (now : Nat) (moves : List TimedMove)
    (h : Run.Meets step InTime (start dimMs sleepMs now) moves) : AlwaysWakes dimMs sleepMs now moves := by
  intro before hb
  have hthroughout := Run.throughout_of_meets step Timely step_timely (fun _ h => h.wakes)
    (start_timely dimMs sleepMs now) h
  have hwakes := (Run.throughout_iff_prefix step _ _ moves).mp hthroughout before hb
  have hstart : (start dimMs sleepMs now).monitor.timeouts = (dimMs, sleepMs) := resetIdleTimer_timeouts _
  rwa [run_timeouts, hstart] at hwakes

-- An input comes as the timer expires, and both are in one batch; then a config
-- without sleep.
def staleExpiry : List TimedMove :=
  [.poll [(300000000000, .timer)], .poll [(600000000000, .input), (600000000000, .timer)],
    .setTimeouts 600500000000 60000 0, .poll [(660500000000, .timer)]]

theorem wakes_staleExpiry : AlwaysWakes 300000 600000 0 staleExpiry :=
  wakes_throughout 300000 600000 0 staleExpiry
    ⟨⟨⟨by decide, fun _ => by decide⟩, trivial⟩,
      ⟨⟨by decide, fun _ => by decide⟩, ⟨by decide, fun _ => by decide⟩, trivial⟩,
      (show 600000000000 ≤ 600500000000 by decide), ⟨⟨by decide, fun _ => by decide⟩, trivial⟩, trivial⟩

end WakeUp

end Timed

end Draind.Agent
