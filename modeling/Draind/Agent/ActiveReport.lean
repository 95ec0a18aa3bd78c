import Draind.Agent.InputIdleMonitor

namespace Draind.Agent

inductive IdleMove where
  | event (e : IdleEvent)
  | setTimeouts (dimMs sleepMs : Int32)

def InputIdleMonitor.act (m : InputIdleMonitor) : IdleMove → InputIdleMonitor × List IdleEffect
  | .event e => m.handle e
  | .setTimeouts dimMs sleepMs => m.setTimeouts dimMs sleepMs

def owedStep (owed : Bool) : IdleEffect → Bool
  | .dim | .sleep => true
  | .active => false
  | .settime _ => owed

-- The monitor, and whether on_dim or on_sleep has been called since on_active was.
-- The code keeps no such record.
structure Watched where
  monitor : InputIdleMonitor
  owed : Bool

namespace Watched

def start (dimMs sleepMs : Int32) (now : UInt64) : Watched :=
  ⟨(InputIdleMonitor.init dimMs sleepMs now).1, false⟩

def step (s : Watched) (move : IdleMove) : Watched :=
  ⟨(s.monitor.act move).1, (s.monitor.act move).2.foldl owedStep s.owed⟩

-- The return of the user is reported once where it is owed, and else not at all.
structure ReportsReturn (s : Watched) : Prop where
  reported : s.owed = true → ∀ now, (s.monitor.handle (.input now)).2.count .active = 1
  unprompted : s.owed = false → ∀ move, .active ∉ (s.monitor.act move).2

-- While a report is owed, no timeouts come that set the timer again, and no input
-- comes with both timeouts off.
def KeepsDebt (s : Watched) : IdleMove → Prop
  | .event (.timer _) => True
  | .event (.input _) => s.owed = true → 0 < s.monitor.dimMs ∨ 0 < s.monitor.sleepMs
  | .setTimeouts dimMs sleepMs => s.owed = true → dimMs ≤ 0 ∧ sleepMs ≤ 0

section Report

-- The flags that the monitor keeps of what it owes.
def flagged (m : InputIdleMonitor) : Bool :=
  m.dimmed || m.sleeping

-- With a timeout the timer is set and the flags are reset. Without one, neither.
theorem resetIdleTimer_spec (m : InputIdleMonitor) :
    (∀ e ∈ m.resetIdleTimer.2, ∃ ms, e = .settime ms) ∧
      (flagged m.resetIdleTimer.1 = true ↔ flagged m = true ∧ m.dimMs ≤ 0 ∧ m.sleepMs ≤ 0) := by
  have hpos := m.firstMs_pos
  unfold InputIdleMonitor.resetIdleTimer
  split
  · rename_i h
    rw [← Int32.not_lt, hpos, not_or, Int32.not_lt, Int32.not_lt] at h
    simp [h]
  · rename_i h
    rw [← Int32.not_lt, not_not, hpos] at h
    have hon : ¬(m.dimMs ≤ 0 ∧ m.sleepMs ≤ 0) := by
      rw [← Int32.not_lt, ← Int32.not_lt, ← not_or, not_not]
      exact h
    simp [flagged, hon]

theorem input_spec (m : InputIdleMonitor) (now : UInt64) :
    (∃ out, (∀ e ∈ out, ∃ ms, e = .settime ms) ∧
      (m.handle (.input now)).2 = out ++ if flagged m then [.active] else []) ∧
      (flagged (m.handle (.input now)).1 = true ↔ flagged m = true ∧ m.dimMs ≤ 0 ∧ m.sleepMs ≤ 0) := by
  obtain ⟨hout, hf⟩ := resetIdleTimer_spec { m with lastEventMs := now }
  exact ⟨⟨_, hout, rfl⟩, hf⟩

theorem onTimeout_spec (m : InputIdleMonitor) (now : UInt64) :
    m.onTimeout now = (m, []) ∨
      flagged (m.onTimeout now).1 = true ∧
        ∃ e out, (e = .dim ∨ e = .sleep) ∧ (m.onTimeout now).2 = e :: out ∧
          ∀ e ∈ out, ∃ ms, e = .settime ms := by
  unfold InputIdleMonitor.onTimeout
  dsimp only
  split
  · exact .inr ⟨by simp [flagged], .sleep, [], .inr rfl, rfl, by simp⟩
  split
  · refine .inr ⟨by simp [flagged], .dim, _, .inl rfl, rfl, ?_⟩
    split <;> simp
  · exact .inl rfl

theorem owed_settimes {out : List IdleEffect} (h : ∀ e ∈ out, ∃ ms, e = .settime ms) (owed : Bool) :
    out.foldl owedStep owed = owed := by
  induction out with
  | nil => rfl
  | cons e rest ih =>
      obtain ⟨ms, rfl⟩ := h e (by simp)
      exact ih fun e he => h e (by simp [he])

theorem active_notMem_settimes {out : List IdleEffect} (h : ∀ e ∈ out, ∃ ms, e = .settime ms) :
    .active ∉ out := by
  intro hm
  obtain ⟨ms, hms⟩ := h _ hm
  cases hms

-- The flags are right exactly when the return is reported as it should be.
theorem reportsReturn_iff (s : Watched) : s.ReportsReturn ↔ (s.owed = true ↔ flagged s.monitor = true) := by
  have hinput := fun now => (input_spec s.monitor now).1
  constructor
  · rintro ⟨hreported, hunprompted⟩
    constructor
    · intro ho
      obtain ⟨out, hout, he⟩ := hinput 0
      by_contra hf
      have hcount := hreported ho 0
      rw [he, if_neg hf, List.append_nil, List.count_eq_zero_of_not_mem (active_notMem_settimes hout)] at hcount
      cases hcount
    · intro hf
      by_contra ho
      obtain ⟨out, -, he⟩ := hinput 0
      refine hunprompted (by simpa using ho) (.event (.input 0)) ?_
      rw [InputIdleMonitor.act, he, if_pos hf]
      simp
  · intro h
    refine ⟨fun ho now => ?_, fun ho move => ?_⟩
    · obtain ⟨out, hout, he⟩ := hinput now
      rw [he, if_pos (h.mp ho), List.count_append,
        List.count_eq_zero_of_not_mem (active_notMem_settimes hout)]
      rfl
    · have hf : ¬flagged s.monitor = true := fun hf => by
        rw [h.mpr hf] at ho
        cases ho
      cases move with
      | setTimeouts dimMs sleepMs => exact active_notMem_settimes (resetIdleTimer_spec _).1
      | event e =>
          cases e with
          | input now =>
              obtain ⟨out, hout, he⟩ := hinput now
              rw [InputIdleMonitor.act, he, if_neg hf, List.append_nil]
              exact active_notMem_settimes hout
          | timer now =>
              rcases onTimeout_spec s.monitor now with he | ⟨-, e, out, hd, he, hout⟩
              · simp [InputIdleMonitor.act, InputIdleMonitor.handle, he]
              · rw [InputIdleMonitor.act, InputIdleMonitor.handle, he]
                have hout := active_notMem_settimes hout
                rcases hd with rfl | rfl <;> simp [hout]

theorem step_reports_iff (s : Watched) (move : IdleMove) (h : s.ReportsReturn) :
    (s.step move).ReportsReturn ↔ s.KeepsDebt move := by
  have hflags := (reportsReturn_iff s).mp h
  rw [reportsReturn_iff]
  cases move with
  | setTimeouts dimMs sleepMs =>
      obtain ⟨hout, hf⟩ := resetIdleTimer_spec { s.monitor with dimMs := dimMs, sleepMs := sleepMs }
      simp only [step, InputIdleMonitor.act, InputIdleMonitor.setTimeouts, owed_settimes hout, hf, KeepsDebt]
      rw [hflags]
      exact iff_self_and
  | event e =>
      cases e with
      | input now =>
          obtain ⟨⟨out, hout, he⟩, hf⟩ := input_spec s.monitor now
          -- Whatever was owed is reported.
          have howed : (s.step (.event (.input now))).owed = false := by
            simp only [step, InputIdleMonitor.act, he, List.foldl_append, owed_settimes hout]
            split
            · rfl
            · rename_i hn
              rw [← hflags] at hn
              simpa using hn
          have hflag : flagged (s.step (.event (.input now))).monitor = true ↔
              flagged s.monitor = true ∧ s.monitor.dimMs ≤ 0 ∧ s.monitor.sleepMs ≤ 0 := hf
          rw [howed, hflag, KeepsDebt, hflags, ← Int32.not_lt, ← Int32.not_lt, ← not_or]
          simp only [Bool.false_eq_true, false_iff, not_and, not_not]
      | timer now =>
          simp only [step, InputIdleMonitor.act, InputIdleMonitor.handle, KeepsDebt, iff_true]
          rcases onTimeout_spec s.monitor now with he | ⟨hf, e, out, hd, he, hout⟩
          · rw [he]
            exact hflags
          · rw [he, hf, List.foldl_cons, owed_settimes hout]
            rcases hd with rfl | rfl <;> simp [owedStep]

-- Over a run the return of the user is always reported exactly when nothing comes
-- between the report of his absence and the next input that resets the flags, and
-- no input comes that cannot reset them.
theorem reportsReturn_throughout_iff (dimMs sleepMs : Int32) (now : UInt64) (moves : List IdleMove) :
    Run.Throughout step ReportsReturn (start dimMs sleepMs now) moves ↔
      Run.Meets step KeepsDebt (start dimMs sleepMs now) moves := by
  refine Run.throughout_iff_meets step (fun s move h => step_reports_iff s move h) moves ?_
  rw [reportsReturn_iff, start, InputIdleMonitor.init, (resetIdleTimer_spec _).2]
  simp [flagged]

-- The screen is dimmed after five minutes, and a config with other timeouts comes.
def configWhileIdle : List IdleMove :=
  [.event (.timer 300000), .setTimeouts 60000 120000]

theorem reportsReturn_configWhileIdle :
    ¬Run.Throughout step ReportsReturn (start 300000 600000 0) configWhileIdle :=
  fun h => absurd (h.2.2.reported rfl 310000) (by decide)

-- All of poll at once is a run.
theorem poll_run (events : List IdleEvent) (s : Watched) :
    ⟨(InputIdleMonitor.poll events s.monitor).1,
      (InputIdleMonitor.poll events s.monitor).2.foldl owedStep s.owed⟩ =
      Run.exec step s (events.map .event) := by
  induction events generalizing s with
  | nil => rfl
  | cons e rest ih =>
      rw [List.map_cons, Run.exec_cons, ← ih]
      simp [InputIdleMonitor.poll, step, InputIdleMonitor.act]

end Report

end Watched

end Draind.Agent
