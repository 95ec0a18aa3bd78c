import Draind.Lib.Run

namespace Draind.Agent

-- timerfd_settime with this many milliseconds, and the callbacks. The agent has set
-- all three when the monitor is polled first.
inductive IdleEffect where
  | settime (ms : Int32)
  | dim
  | sleep
  | active
  deriving DecidableEq

-- The monitor after a successful init, without its descriptors.
structure InputIdleMonitor where
  dimMs : Int32
  sleepMs : Int32
  dimmed : Bool
  sleeping : Bool
  lastEventMs : UInt64
  deriving DecidableEq

-- What epoll_wait reports, the timer or an input device, and the clock when it is
-- handled.
inductive IdleEvent where
  | timer (now : UInt64)
  | input (now : UInt64)

namespace InputIdleMonitor

-- first_ms of reset_idle_timer.
def firstMs (m : InputIdleMonitor) : Int32 :=
  if 0 < m.dimMs then m.dimMs else if 0 < m.sleepMs then m.sleepMs else 0

theorem firstMs_pos (m : InputIdleMonitor) : 0 < m.firstMs ↔ 0 < m.dimMs ∨ 0 < m.sleepMs := by
  unfold firstMs
  split
  · rename_i h
    simp [h]
  split
  · rename_i h
    simp [h]
  · rename_i hd hs
    simp [hd, hs]

def resetIdleTimer (m : InputIdleMonitor) : InputIdleMonitor × List IdleEffect :=
  if m.firstMs ≤ 0 then (m, [])
  else ({ m with dimmed := false, sleeping := false }, [.settime m.firstMs])

def init (dimMs sleepMs : Int32) (now : UInt64) : InputIdleMonitor × List IdleEffect :=
  resetIdleTimer ⟨dimMs, sleepMs, false, false, now⟩

def setTimeouts (dimMs sleepMs : Int32) (m : InputIdleMonitor) : InputIdleMonitor × List IdleEffect :=
  resetIdleTimer { m with dimMs := dimMs, sleepMs := sleepMs }

def onTimeout (now : UInt64) (m : InputIdleMonitor) : InputIdleMonitor × List IdleEffect :=
  -- (int)elapsed keeps the low 32 bits.
  let elapsed := (now - m.lastEventMs).toUInt32.toInt32
  if ¬m.sleeping ∧ 0 < m.sleepMs ∧ m.sleepMs ≤ elapsed then ({ m with sleeping := true }, [.sleep])
  else if ¬m.dimmed ∧ 0 < m.dimMs ∧ m.dimMs ≤ elapsed then
    let remainMs := m.sleepMs - elapsed
    let remainMs := if remainMs < 1 then 1 else remainMs
    ({ m with dimmed := true }, .dim :: if 0 < m.sleepMs ∧ ¬m.sleeping then [.settime remainMs] else [])
  else (m, [])

-- The two branches of poll.
def handle (m : InputIdleMonitor) : IdleEvent → InputIdleMonitor × List IdleEffect
  | .timer now => m.onTimeout now
  | .input now =>
      let wasIdle := m.dimmed || m.sleeping
      let (m, out) := resetIdleTimer { m with lastEventMs := now }
      (m, out ++ if wasIdle then [.active] else [])

def poll : List IdleEvent → InputIdleMonitor → InputIdleMonitor × List IdleEffect
  | [], m => (m, [])
  | e :: rest, m =>
      let (m, first) := m.handle e
      let (m, out) := poll rest m
      (m, first ++ out)

end InputIdleMonitor

end Draind.Agent
