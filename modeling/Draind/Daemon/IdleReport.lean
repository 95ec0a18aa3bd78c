import Draind.Daemon.DimReason

namespace Draind.Daemon

open Json Proto

-- The latest of idle_dim and active handled from the connection last accepted on fd.
def dimReportStep (h : Fd → Option Report) : Io → Fd → Option Report
  | .accepted fd => Function.update h fd none
  | .report _ .idleSleep => h
  | .report fd r => Function.update h fd (some r)
  | _ => h

def lastDimReport (trace : List Io) : Fd → Option Report :=
  trace.foldl dimReportStep fun _ => none

-- Nobody inhibits, there is a dim timeout, and an agent of the active session has
-- reported idle_dim last: then the screen is dimmed.
def IdleReportKept (w : World) : Prop :=
  (∃ p, w.activeProfile = some p ∧ 0 < p.dimTimeout) → hasAnyInhibit w = false →
    (∃ fd, Registered w fd ∧ lastDimReport w.trace fd = some .idleDim) → w.dimmed = true

-- The call handles an idle_dim of an agent of the active session while nobody
-- inhibits and a profile is active.
def TakesIdleDim (w : World) : Call → Prop
  | .line fd line =>
      (∃ msg, decode line = .ok msg ∧ msgType msg = T_IDLE_DIM) ∧ isActiveAgent fd w = true ∧
        hasAnyInhibit w = false ∧ w.activeProfile ≠ none
  | _ => False

-- No active report of an agent of the active session is handled.
def NoActiveReport (s : State) : Move → Prop
  | .call =>
      match s.pending with
      | .line fd line :: _ =>
          ∀ msg, decode line = .ok msg → msgType msg = T_ACTIVE → isActiveAgent fd s.world = false
      | _ => True
  | _ => True

section Dimmed

variable (env : Env)

theorem isActiveAgent_mem {fd : Fd} {w : World} (h : isActiveAgent fd w = true) : fd ∈ w.agents := by
  unfold isActiveAgent at h
  split at h
  · cases h
  · rename_i agent hl
    exact AList.lookup_isSome.mp (by simp [hl])

theorem onActive_inactive (fd : Fd) (w : World) (h : isActiveAgent fd w = false) :
    onActive env fd w = .ok (w.emit (.report fd .active)) := by
  have ha := isActiveAgent_congr fd (World.emit_agents w (.report fd .active)) (World.emit_session w _)
  simp [onActive, ha, h]

theorem onActive_blocked (fd : Fd) (w : World)
    (h : isActiveAgent fd w = true → w.dimmed = false ∨ w.activeProfile = none) :
    onActive env fd w = .ok (w.emit (.report fd .active)) := by
  have ha := isActiveAgent_congr fd (World.emit_agents w (.report fd .active)) (World.emit_session w _)
  by_cases hactive : isActiveAgent fd w = true
  · rcases h hactive with hd | hp
    · simp [onActive, ha, hactive, hd]
    · exact onActive_noProfile env fd w hactive hp
  · exact onActive_inactive env fd w (by simpa using hactive)

-- Only an active report takes the flag back.
theorem onMessage_dimmed (fd : Fd) (msg : Value) (w : World) (h : w.dimmed = true)
    (hn : msgType msg = T_ACTIVE → isActiveAgent fd w = false) :
    (onMessage env fd msg w).world.dimmed = true := by
  rcases onMessage_cases fd msg w with ⟨hq, -⟩ | ⟨-, -, hon⟩ | ⟨-, -, hon⟩ | ⟨-, ht, hon⟩
  · rw [(hq env).dimmed, h]
  · rw [hon]
    obtain ⟨w', hk, hw | hw⟩ := onIdleDim_frame env fd w
    · rw [hw, hk.dimmed]
      exact h
    · rw [hw]
  · rw [hon, Result.world_ok, (onIdleSleep_emits env fd w).keeps.dimmed]
    exact h
  · rw [hon, onActive_inactive env fd w (hn ht)]
    exact h

theorem step_dimmed (s : State) (move : Move) (h : s.world.dimmed = true) (hn : NoActiveReport s move) :
    (step env s move).world.dimmed = true := by
  have hstep := step_stepped env s move
  generalize step env s move = s' at hstep ⊢
  cases hstep with
  | idle => exact h
  | signal m _ _ => rw [(handleSeatProperties_seated m s.world).dimmed, h]
  | accept => exact h
  | feed => exact h
  | input => exact h
  | outside => exact h
  | call c rest hp _ =>
      rw [Result.settle_dimmed]
      cases c with
      | hangUp fd => exact h
      | button e => rw [perform, Result.world_ok, (onEvent_emits env e s.world).keeps.dimmed, World.emit_dimmed, h]
      | line fd line =>
          cases hd : decode line with
          | error e =>
              simp only [perform, onLine, hd]
              exact h
          | ok msg =>
              simp only [NoActiveReport, hp] at hn
              simp only [perform, onLine, hd]
              refine onMessage_dimmed env fd msg _ h fun ht => ?_
              rw [isActiveAgent_congr fd (World.emit_agents s.world _) (World.emit_session s.world _)]
              exact hn msg hd ht

-- An idle_dim that nothing suppresses leaves the screen dimmed, or the process
-- has ended on the way.
theorem perform_takesIdleDim (c : Call) (w : World) (h : TakesIdleDim w c) :
    (perform env c w).settle.exited = true ∨ (perform env c w).settle.dimmed = true := by
  cases c with
  | hangUp => exact absurd h id
  | button => exact absurd h id
  | line fd line =>
      obtain ⟨⟨msg, hd, ht⟩, ha, hi, hp⟩ := h
      have hperform : perform env (.line fd line) w = onIdleDim env fd (w.emit (.line fd line)) := by
        simp only [perform, onLine, hd]
        exact onMessage_idleDim env ht (isActiveAgent_mem ha)
      rw [hperform]
      rcases onIdleDim_cases env fd (w.emit (.line fd line)) with ⟨-, w', -, hok⟩ | ⟨hdims, hok⟩
      · exact .inr (by rw [hok]; rfl)
      cases hres : onIdleDim env fd (w.emit (.line fd line)) with
      | error t => exact .inl rfl
      | ok w' =>
          cases hdim : w.dimmed with
          | true =>
              rw [Result.settle_ok, hok w' hres]
              exact .inr hdim
          | false =>
              -- Every guard lets it pass, so PowerManager::dim has returned.
              obtain ⟨p, hp⟩ := Option.ne_none_iff_exists'.mp hp
              have ha₀ : isActiveAgent fd (w.emit (.line fd line)) = true := by
                rw [isActiveAgent_congr fd (World.emit_agents w _) (World.emit_session w _), ha]
              have hi₀ : hasAnyInhibit (w.emit (.line fd line)) = false := by
                rw [hasAnyInhibit_congr (World.emit_agents w _), hi]
              rw [onIdleDim_eq env fd _ p ha₀ hi₀ hdim hp] at hres
              obtain ⟨w₁, hw₁, -⟩ := (bind_ok_iff _ _ _).mp hres
              exact absurd ⟨ha₀, hi₀, hdim, p, w₁, hp, hw₁⟩ hdims

-- While the daemon runs, the screen is dimmed in every state in which the latest
-- of the idle_dim and active reports from agents of the session then active is an
-- idle_dim that came while nobody inhibited and a profile was active.
theorem dimmed_of_takesIdleDim (w : World) (before after : List Move) (c : Call)
    (rest : List Call) (hp : (run env w before).pending = c :: rest)
    (hc : TakesIdleDim (run env w before).world c)
    (ha : Run.Meets (step env) NoActiveReport (run env w (before ++ [.call])) after)
    (hr : (run env w (before ++ .call :: after)).world.exited = false) :
    (run env w (before ++ .call :: after)).world.dimmed = true := by
  have hsplit : run env w (before ++ .call :: after) =
      Run.exec (step env) (run env w (before ++ [.call])) after := by
    simp [run]
  have hcall : run env w (before ++ [.call]) = step env (run env w before) .call := by
    simp [run]
  rw [hsplit] at hr ⊢
  have hlive : (run env w (before ++ [.call])).world.exited = false := by
    by_contra hex
    have hex : (run env w (before ++ [.call])).world.exited = true := by simpa using hex
    rw [exec_exited env _ after hex, hex] at hr
    cases hr
  refine Run.invariant (step env) (fun s => s.world.dimmed = true) (step_dimmed env) ?_ ha
  rw [hcall] at hlive ⊢
  generalize run env w before = s at hp hc hlive ⊢
  cases he : s.world.exited with
  | true =>
      rw [step_exited env s .call he, he] at hlive
      cases hlive
  | false =>
      have hstep : (step env s .call).world = (perform env c s.world).settle := by
        simp [step, hp, he]
      rw [hstep] at hlive ⊢
      exact (perform_takesIdleDim env c s.world hc).resolve_left (by simp [hlive])

end Dimmed

-- An agent of session "1" inhibits, reports idle_dim and lifts the inhibit.
def inhibitedIdleDim : List Move :=
  [accept 7, readable 7 (encodeHello (bytes "1") 1000 ++ [10] ++ encodeInhibit (bytes "r") ++ [10] ++
    encodeIdleDim ++ [10] ++ encodeUninhibit (bytes "r") ++ [10]), .call, .call, .call, .call]

def seat (sessionId : Bytes) : Move :=
  .signal ⟨bytes "org.freedesktop.login1.Seat", [(bytes "ActiveSession", .session sessionId [])]⟩

-- An agent of session "1" reports idle_dim, and while session "2" is active its
-- agent reports active.
def otherSessionActive : List Move :=
  helloThenIdle ++ [.call, seat (bytes "2"), accept 8,
    readable 8 (encodeHello (bytes "2") 1001 ++ [10] ++ encodeActive ++ [10]), .call, .call,
    seat (bytes "1")]

-- An agent reports idle_dim while the config names a profile that is not there.
def missingProfile : List Move :=
  let reload := bytes "\x7b\"type\":\"ctl\",\"cmd\":\"reload_config\"\x7d\n"
  let file := bytes "\x7b\"active_profile\":\"c\",\"profiles\":[\x7b\"name\":\"a\"\x7d]\x7d"
  [.outside (some file) ⟨none, [], []⟩, accept 7,
    readable 7 (encodeHello (bytes "1") 1000 ++ [10] ++ reload ++ encodeIdleDim ++ [10]), .call, .call,
    .call, .outside (some sampleConfig) ⟨none, [], []⟩, readable 7 reload, .call]

-- The report is lost where it meets an inhibit, where it is another session's
-- and where no profile is active.
theorem idleReport_lost :
    ∃ w, sampleStart = .ok w ∧ ∀ moves ∈ [inhibitedIdleDim, otherSessionActive, missingProfile],
      ¬IdleReportKept (run .plain w moves).world := by
  refine ⟨_, rfl, ?_⟩
  simp only [List.forall_mem_cons, List.not_mem_nil, false_imp_iff, implies_true, and_true]
  refine ⟨fun h => ?_, fun h => ?_, fun h => ?_⟩
  · exact absurd (h ⟨_, rfl, by decide⟩ (by decide) ⟨7, ⟨by decide, by decide, _, _, rfl, [], _, rfl,
      by decide, rfl, by decide⟩, by decide⟩) (by decide)
  · exact absurd (h ⟨_, rfl, by decide⟩ (by decide) ⟨7, ⟨by decide, by decide, _, _, rfl, [], _, rfl,
      by decide, rfl, by decide⟩, by decide⟩) (by decide)
  · exact absurd (h ⟨_, rfl, by decide⟩ (by decide) ⟨7, ⟨by decide, by decide, _, _, rfl, [], _, rfl,
      by decide, rfl, by decide⟩, by decide⟩) (by decide)

theorem dimmed_of_takesIdleDim_sample :
    ∃ w, sampleStart = .ok w ∧
      (run .plain w (helloThenIdle ++ [.call, accept 8])).world.dimmed = true :=
  ⟨_, rfl, dimmed_of_takesIdleDim .plain _ helloThenIdle [accept 8]
    (.line 7 encodeIdleDim) [] rfl ⟨⟨_, rfl, by decide⟩, by decide, by decide, Option.some_ne_none _⟩
    ⟨trivial, trivial⟩ rfl⟩

end Draind.Daemon
