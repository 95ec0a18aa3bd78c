import Draind.Agent.InputIdleMonitor

namespace Draind.Agent

-- Times are in nanoseconds. mono_ms keeps the whole milliseconds.
def millis (time : Nat) : Nat :=
  time / 1000000

def monoMs (time : Nat) : UInt64 :=
  .ofNat (millis time)

-- An it_value of so many milliseconds. The code sets none that is not positive.
def nanos (ms : Int32) : Nat :=
  1000000 * ms.toInt.toNat

inductive Source where
  | timer
  | input
  deriving DecidableEq

-- The monitor and its timerfd. timer is when the time that was set last expires,
-- none once that expiration has been read. clock is the time of the last event, and
-- lastInput that of the last input, of which the code keeps the milliseconds only.
structure Timed where
  monitor : InputIdleMonitor
  timer : Option Nat
  clock : Nat
  lastInput : Nat

namespace Timed

-- timerfd_settime counts from now and forgets what it was set to before.
def settime (now : Nat) (timer : Option Nat) : IdleEffect → Option Nat
  | .settime ms => some (now + nanos ms)
  | .dim | .sleep | .active => timer

def after (s : Timed) (now : Nat) (r : InputIdleMonitor × List IdleEffect) : Timed :=
  { s with monitor := r.1, timer := r.2.foldl (settime now) s.timer, clock := now }

def start (dimMs sleepMs : Int32) (now : Nat) : Timed :=
  let (m, out) := InputIdleMonitor.init dimMs sleepMs (monoMs now)
  ⟨m, out.foldl (settime now) none, now, now⟩

-- The read of the timerfd takes an expiration off. Where an input of the same
-- batch has set the timer again there is none, and on_timeout is called all the same.
def handle (s : Timed) (now : Nat) : Source → Timed
  | .timer =>
      { s with timer := s.timer.filter (now < ·) }.after now (s.monitor.handle (.timer (monoMs now)))
  | .input => { s.after now (s.monitor.handle (.input (monoMs now))) with lastInput := now }

-- One batch of epoll_wait, each event with the time at which it is handled.
def poll (s : Timed) (events : List (Nat × Source)) : Timed :=
  events.foldl (fun s e => s.handle e.1 e.2) s

def setTimeouts (s : Timed) (now : Nat) (dimMs sleepMs : Int32) : Timed :=
  s.after now (s.monitor.setTimeouts dimMs sleepMs)

-- on_active does not touch the timer.
theorem handle_input (s : Timed) (now : Nat) :
    s.handle now .input =
      { s.after now (InputIdleMonitor.resetIdleTimer { s.monitor with lastEventMs := monoMs now }) with
        lastInput := now } := by
  have hout (timer : Option Nat) (out : List IdleEffect) (idle : Bool) :
      (out ++ if idle then [IdleEffect.active] else []).foldl (settime now) timer =
        out.foldl (settime now) timer := by
    rw [List.foldl_append]
    cases idle <;> rfl
  simp only [handle, after, InputIdleMonitor.handle, hout]

def toEvent : Nat × Source → IdleEvent
  | (now, .timer) => .timer (monoMs now)
  | (now, .input) => .input (monoMs now)

-- The monitor is that of poll itself.
theorem poll_monitor (events : List (Nat × Source)) (s : Timed) :
    (s.poll events).monitor = (InputIdleMonitor.poll (events.map toEvent) s.monitor).1 := by
  induction events generalizing s with
  | nil => rfl
  | cons e rest ih =>
      obtain ⟨now, source⟩ := e
      cases source <;> exact ih _

end Timed

namespace InputIdleMonitor

section Branches

theorem resetIdleTimer_cases (m : InputIdleMonitor) :
    (m.dimMs ≤ 0 ∧ m.sleepMs ≤ 0 ∧ m.resetIdleTimer = (m, [])) ∨
      (0 < m.firstMs ∧
        m.resetIdleTimer = ({ m with dimmed := false, sleeping := false }, [.settime m.firstMs])) := by
  have hpos := firstMs_pos m
  unfold resetIdleTimer
  split
  · rename_i h
    rw [← Int32.not_lt, hpos, not_or, Int32.not_lt, Int32.not_lt] at h
    exact .inl ⟨h.1, h.2, rfl⟩
  · rename_i h
    rw [Int32.not_le] at h
    exact .inr ⟨h, rfl⟩

-- The conditions under which on_timeout reports sleep, and else dim.
def SleepDue (m : InputIdleMonitor) (elapsed : Int) : Prop :=
  m.sleeping = false ∧ 0 < m.sleepMs.toInt ∧ m.sleepMs.toInt ≤ elapsed

def DimDue (m : InputIdleMonitor) (elapsed : Int) : Prop :=
  m.dimmed = false ∧ 0 < m.dimMs.toInt ∧ m.dimMs.toInt ≤ elapsed

-- The time set after dim is what is left until sleep.
def remaining (m : InputIdleMonitor) (elapsed : Int) (out : List IdleEffect) : Prop :=
  if 0 < m.sleepMs.toInt ∧ m.sleeping = false then
    ∃ ms : Int32, out = [.settime ms] ∧ ms.toInt = m.sleepMs.toInt - elapsed
  else out = []

-- remain_ms, where sleep is not due yet: there is no need of the one it is raised to.
theorem remaining_exact (m : InputIdleMonitor) (elapsed : Int32) (h0 : 0 ≤ elapsed.toInt)
    (hs : ¬m.SleepDue elapsed.toInt) :
    m.remaining elapsed.toInt (if 0 < m.sleepMs ∧ ¬m.sleeping then
      [.settime (if m.sleepMs - elapsed < 1 then 1 else m.sleepMs - elapsed)] else []) := by
  unfold remaining
  by_cases hon : 0 < m.sleepMs.toInt ∧ m.sleeping = false
  · have hlt : elapsed.toInt < m.sleepMs.toInt := by
      by_contra hle
      exact hs ⟨hon.2, hon.1, by omega⟩
    have hsub : (m.sleepMs - elapsed).toInt = m.sleepMs.toInt - elapsed.toInt := by
      have hhi := m.sleepMs.toInt_lt
      rw [Int32.toInt_sub]
      exact Int.bmod_eq_of_le (by omega) (by omega)
    have hone : ¬m.sleepMs - elapsed < 1 := by
      rw [Int32.lt_iff_toInt_lt, hsub, show (1 : Int32).toInt = 1 from rfl]
      omega
    have hcode : 0 < m.sleepMs ∧ ¬m.sleeping :=
      ⟨Int32.lt_iff_toInt_lt.mpr hon.1, by simp [hon.2]⟩
    rw [if_pos hon, if_pos hcode, if_neg hone]
    exact ⟨_, rfl, hsub⟩
  · have hcode : ¬(0 < m.sleepMs ∧ ¬m.sleeping) := fun h =>
      hon ⟨Int32.lt_iff_toInt_lt.mp h.1, by simpa using h.2⟩
    rw [if_neg hon, if_neg hcode]

theorem onTimeout_cases (m : InputIdleMonitor) (now : UInt64) (elapsed : Int)
    (he : (now - m.lastEventMs).toUInt32.toInt32.toInt = elapsed) (h0 : 0 ≤ elapsed) :
    (m.SleepDue elapsed ∧ m.onTimeout now = ({ m with sleeping := true }, [.sleep])) ∨
      (¬m.SleepDue elapsed ∧ m.DimDue elapsed ∧ ∃ out, m.remaining elapsed out ∧
        m.onTimeout now = ({ m with dimmed := true }, .dim :: out)) ∨
      (¬m.SleepDue elapsed ∧ ¬m.DimDue elapsed ∧ m.onTimeout now = (m, [])) := by
  subst he
  have hsleep : (¬m.sleeping ∧ 0 < m.sleepMs ∧ m.sleepMs ≤ (now - m.lastEventMs).toUInt32.toInt32) ↔
      m.SleepDue (now - m.lastEventMs).toUInt32.toInt32.toInt := by
    rw [SleepDue, Int32.lt_iff_toInt_lt, Int32.le_iff_toInt_le, Bool.not_eq_true]
    rfl
  have hdim : (¬m.dimmed ∧ 0 < m.dimMs ∧ m.dimMs ≤ (now - m.lastEventMs).toUInt32.toInt32) ↔
      m.DimDue (now - m.lastEventMs).toUInt32.toInt32.toInt := by
    rw [DimDue, Int32.lt_iff_toInt_lt, Int32.le_iff_toInt_le, Bool.not_eq_true]
    rfl
  unfold onTimeout
  dsimp only
  split
  · rename_i h
    exact .inl ⟨hsleep.mp h, rfl⟩
  rename_i hs
  have hs := fun h => hs (hsleep.mpr h)
  split
  · rename_i h
    exact .inr (.inl ⟨hs, hdim.mp h, _, remaining_exact m _ h0 hs, rfl⟩)
  · rename_i hd
    exact .inr (.inr ⟨hs, fun h => hd (hdim.mpr h), rfl⟩)

end Branches

end InputIdleMonitor

section Clock

theorem millis_nanos (now : Nat) (ms : Int32) : millis (now + nanos ms) = millis now + ms.toInt.toNat := by
  unfold millis nanos
  omega

theorem millis_mono {first second : Nat} (h : first ≤ second) : millis first ≤ millis second :=
  Nat.div_le_div_right h

-- The cast of elapsed to int is exact for 24 days. That the clock wraps does no harm.
theorem elapsed_exact {first second : Nat} (h : first ≤ second)
    (hb : millis second - millis first < 2147483648) :
    (monoMs second - monoMs first).toUInt32.toInt32.toInt = (millis second - millis first : Nat) := by
  have hm := millis_mono h
  have hsub : monoMs second - monoMs first = .ofNat (millis second - millis first) :=
    (UInt64.ofNat_sub hm).symm
  have hlow : (monoMs second - monoMs first).toUInt32.toInt32.toBitVec.toNat =
      millis second - millis first := by
    rw [UInt32.toBitVec_toInt32, hsub]
    change (UInt64.ofNat (millis second - millis first)).toUInt32.toNat = millis second - millis first
    rw [UInt64.toNat_toUInt32, UInt64.toNat_ofNat']
    omega
  change (monoMs second - monoMs first).toUInt32.toInt32.toBitVec.toInt = _
  rw [BitVec.toInt_eq_toNat_of_lt (by omega), hlow]

end Clock

end Draind.Agent
