import Draind.Daemon.IdleReport

namespace Draind.Daemon

open Json Proto

-- A timeout of 0 disables the action.
def DimEnabled (w : World) : Prop :=
  ∃ p, w.activeProfile = some p ∧ 0 < p.dimTimeout

def SleepEnabled (w : World) : Prop :=
  ∃ p, w.activeProfile = some p ∧ 0 < p.sleepTimeout

-- What handling a line appends dims only where dimming is enabled, and suspends
-- only where sleeping is.
def LineEnabled (env : Env) (fd : Fd) (line : Bytes) (w : World) : Prop :=
  ∀ out, (perform env (.line fd line) w).world.trace = w.trace ++ out →
    (.dim ∈ out → DimEnabled w) ∧ ∀ action, .suspend action ∈ out → SleepEnabled w

def ActsEnabled (env : Env) (s : State) : Move → Prop
  | .call =>
      match s.pending with
      | .line fd line :: _ => s.world.exited = false → LineEnabled env fd line s.world
      | _ => True
  | _ => True

-- No idle_dim that would dim the screen is handled while dimming is disabled.
def NoStaleIdleDim (s : State) : Move → Prop
  | .call =>
      match s.pending with
      | .line fd line :: _ =>
          s.world.exited = false → TakesIdleDim s.world (.line fd line) → s.world.dimmed = false →
            DimEnabled s.world
      | _ => True
  | _ => True

section Lines

variable (env : Env)

theorem not_idleAction_of_grows {trace trace' : List Io}
    (h : Trace.Grows (fun e => ¬e.IsIdleAction) trace trace') (out : List Io)
    (ho : trace' = trace ++ out) : .dim ∉ out ∧ ∀ action, .suspend action ∉ out := by
  have hn := h.all ho
  exact ⟨fun hm => hn _ hm trivial, fun action hm => hn _ hm trivial⟩

theorem LineEnabled.of_grows {fd : Fd} {line : Bytes} {w : World}
    (h : Trace.Grows (fun e => ¬e.IsIdleAction) w.trace (perform env (.line fd line) w).world.trace) :
    LineEnabled env fd line w := by
  intro out ho
  obtain ⟨hdim, hsuspend⟩ := not_idleAction_of_grows h out ho
  exact ⟨fun hm => absurd hm hdim, fun action hm => absurd hm (hsuspend action)⟩

-- on_idle_sleep looks at the timeout before it suspends.
theorem onIdleSleep_enabled (fd : Fd) (w : World) :
    onIdleSleep env fd w = w.emit (.report fd .idleSleep) ∨ SleepEnabled w := by
  unfold onIdleSleep
  dsimp only
  split
  · exact .inl rfl
  split
  · exact .inl rfl
  split
  · exact .inl rfl
  rename_i p hp
  split
  · exact .inl rfl
  · rename_i ht
    exact .inr ⟨p, hp, by simpa using ht⟩

-- PowerManager::dim is entered before anything can go wrong in it.
theorem dim_enters (p : Profile) (w : World) :
    ∃ out, (dim env p w).world.trace = w.trace ++ .dim :: out := by
  unfold dim
  dsimp only
  split
  · exact ⟨[], rfl⟩
  · obtain ⟨out, ho, -⟩ := (setBrightnessPercent_keeps env p.dimBrightnessPercent
      { w.emit .dim with userBrightness := _ }).grows
    exact ⟨out, by rw [ho]; simp⟩

theorem onIdleDim_enters (fd : Fd) (w : World) (ha : isActiveAgent fd w = true)
    (hi : hasAnyInhibit w = false) (hd : w.dimmed = false) (hp : w.activeProfile ≠ none) :
    ∃ out, (onIdleDim env fd w).world.trace = w.trace ++ out ∧ .dim ∈ out := by
  obtain ⟨p, hp⟩ := Option.ne_none_iff_exists'.mp hp
  obtain ⟨out, ho⟩ := dim_enters env p (w.emit (.report fd .idleDim))
  refine ⟨.report fd .idleDim :: .dim :: out, ?_, by simp⟩
  rw [onIdleDim_eq env fd w p ha hi hd hp]
  cases hdim : dim env p (w.emit (.report fd .idleDim)) with
  | error t =>
      rw [hdim] at ho
      show t.world.trace = _
      simpa using ho
  | ok w' =>
      rw [hdim] at ho
      show w'.trace = _
      simpa using ho

theorem lineEnabled_idleDim_iff (fd : Fd) (line : Bytes) (msg : Value) (w : World)
    (hd : decode line = .ok msg) (ht : msgType msg = T_IDLE_DIM)
    (hon : onMessage env fd msg (w.emit (.line fd line)) = onIdleDim env fd (w.emit (.line fd line))) :
    LineEnabled env fd line w ↔
      (TakesIdleDim w (.line fd line) → w.dimmed = false → DimEnabled w) := by
  have ha := isActiveAgent_congr fd (World.emit_agents w (.line fd line)) (World.emit_session w _)
  have hi := hasAnyInhibit_congr (World.emit_agents w (.line fd line))
  have hperform : perform env (.line fd line) w = onIdleDim env fd (w.emit (.line fd line)) := by
    simp only [perform, onLine, hd, hon]
  constructor
  · rintro h ⟨-, hactive, hinhibit, hprofile⟩ hdim
    obtain ⟨out, ho, hm⟩ := onIdleDim_enters env fd (w.emit (.line fd line)) (ha ▸ hactive)
      (hi ▸ hinhibit) hdim hprofile
    refine (h (.line fd line :: out) ?_).1 (by simp [hm])
    rw [hperform, ho]
    simp
  · intro h
    by_cases htakes : TakesIdleDim w (.line fd line) ∧ w.dimmed = false
    · -- Dimming is enabled, and on_idle_dim never suspends.
      have hg : Trace.Grows (fun e => ∀ action, e ≠ .suspend action) w.trace
          (perform env (.line fd line) w).world.trace := by
        rw [hperform]
        refine .trans ⟨[.line fd line, .report fd .idleDim], by simp, by simp⟩
          ((onIdleDim_tables env fd (w.emit (.line fd line))).grows.mono ?_)
        rintro e he action rfl
        exact he
      exact fun out ho => ⟨fun _ => h htakes.1 htakes.2, fun action hm => absurd rfl (hg.all ho _ hm action)⟩
    · refine .of_grows env ?_
      rw [hperform, onIdleDim_blocked env fd _ fun hactive hinhibit hdim => ?_]
      · exact ⟨[.line fd line, .report fd .idleDim], by simp, by simp [Io.IsIdleAction]⟩
      · by_contra hprofile
        exact htakes ⟨⟨⟨msg, hd, ht⟩, ha ▸ hactive, hi ▸ hinhibit, hprofile⟩, hdim⟩

-- on_idle_sleep looks at its own setting, and never dims.
theorem lineEnabled_idleSleep (fd : Fd) (line : Bytes) (w : World)
    (hperform : perform env (.line fd line) w = .ok (onIdleSleep env fd (w.emit (.line fd line)))) :
    LineEnabled env fd line w := by
  rcases onIdleSleep_enabled env fd (w.emit (.line fd line)) with hs | hs
  · refine .of_grows env ?_
    rw [hperform, hs]
    exact ⟨[.line fd line, .report fd .idleSleep], by simp, by simp [Io.IsIdleAction]⟩
  · intro out ho
    refine ⟨fun hm => ?_, fun _ _ => hs⟩
    have hg := (onIdleSleep_emits env fd (w.emit (.line fd line))).keeps.grows
    have hnone : Trace.Grows (fun e => e ≠ .dim) w.trace
        (onIdleSleep env fd (w.emit (.line fd line))).trace := by
      refine .trans ⟨[.line fd line, .report fd .idleSleep], by simp, by simp⟩ (hg.mono ?_)
      rintro e he rfl
      exact he
    rw [hperform] at ho
    exact absurd rfl (hnone.all ho _ hm)

theorem lineEnabled_iff (fd : Fd) (line : Bytes) (w : World) :
    LineEnabled env fd line w ↔
      (TakesIdleDim w (.line fd line) → w.dimmed = false → DimEnabled w) := by
  have hline : Trace.Grows (fun e => ¬e.IsIdleAction) w.trace (w.emit (.line fd line)).trace :=
    .single _ id
  cases hd : decode line with
  | error e =>
      refine iff_of_true (.of_grows env ?_) ?_
      · simp only [perform, onLine, hd, Result.world_ok]
        exact hline.trans (.single _ (e := Io.close fd) id)
      · rintro ⟨⟨msg, hd', -⟩, -⟩
        cases hd.symm.trans hd'
  | ok msg =>
      have hperform : perform env (.line fd line) w = onMessage env fd msg (w.emit (.line fd line)) := by
        simp only [perform, onLine, hd]
      -- A message of another type is no idle_dim.
      have hother : msgType msg ≠ T_IDLE_DIM →
          (TakesIdleDim w (.line fd line) → w.dimmed = false → DimEnabled w) := by
        rintro ht ⟨⟨msg', hd', ht'⟩, -⟩
        cases hd.symm.trans hd'
        exact absurd ht' ht
      rcases onMessage_cases fd msg (w.emit (.line fd line)) with
        ⟨hq, hn⟩ | ⟨-, ht, hon⟩ | ⟨-, ht, hon⟩ | ⟨-, ht, hon⟩
      · refine iff_of_true (.of_grows env ?_) ?_
        · rw [hperform]
          exact hline.trans ((hq env).grows.mono Io.IsRoutine.not_isIdleAction)
        · intro htakes
          exact hother (hn (isActiveAgent_mem htakes.2.1)).1 htakes
      · exact lineEnabled_idleDim_iff env fd line msg w hd ht (hon env)
      · refine iff_of_true ?_ (hother (ht ▸ by decide))
        exact lineEnabled_idleSleep env fd line w (hperform.trans (hon env))
      · refine iff_of_true (.of_grows env ?_) (hother (ht ▸ by decide))
        rw [hperform, hon]
        exact hline.trans ((grows_emit _ (.report fd .active) id).trans
          ((onActive_tables env fd (w.emit (.line fd line))).grows.mono Io.IsUndim.not_isIdleAction))

-- Over a run a disabled action is never taken exactly when no idle_dim that would
-- dim the screen comes while dimming is disabled.
theorem actsEnabled_iff (s : State) (moves : List Move) :
    Run.Meets (step env) (ActsEnabled env) s moves ↔
      Run.Meets (step env) NoStaleIdleDim s moves := by
  refine Run.meets_congr (step env) (fun s move => ?_) s moves
  obtain ⟨w, pending⟩ := s
  cases move with
  | signal | ready | outside => exact Iff.rfl
  | call =>
      cases pending with
      | nil => exact Iff.rfl
      | cons c rest =>
          cases c with
          | hangUp | button => exact Iff.rfl
          | line fd line => exact imp_congr_right fun _ => lineEnabled_iff env fd line w

end Lines

-- The second profile never dims.
def dimOffConfig : Bytes :=
  bytes "\x7b\"profiles\":[\x7b\"name\":\"a\"\x7d,\x7b\"name\":\"off\",\"dim_timeout\":0\x7d]\x7d"

-- It is selected while the report that the first has led to is on its way.
def dimOffThenIdleDim : List Move :=
  [accept 7, readable 7 (encodeHello (bytes "1") 1000 ++ [10]), .call,
    accept 8, readable 8 (encodeCtl (bytes "set_profile") (bytes "off") ++ [10]), .call,
    readable 7 (encodeIdleDim ++ [10])]

theorem actsEnabled_stale :
    ∃ w, setup .plain [] (some dimOffConfig) ⟨none, [], []⟩ (bytes "1") = .ok w ∧
      ¬Run.Meets (step .plain) (ActsEnabled .plain) ⟨w, []⟩ (dimOffThenIdleDim ++ [.call]) := by
  refine ⟨_, rfl, fun h => ?_⟩
  obtain ⟨-, hlast, -⟩ := (Run.meets_append _ _ _ dimOffThenIdleDim [.call]).mp h
  obtain ⟨hdim, -⟩ := hlast rfl [.line 7 encodeIdleDim, .report 7 .idleDim, .dim] rfl
  obtain ⟨p, hp, ht⟩ := hdim (by decide)
  cases hp
  exact absurd ht (by decide)

end Draind.Daemon
