import Draind.Daemon.IdleActions

namespace Draind.Daemon

open Json Proto

def sleepCommands : List Bytes :=
  [bytes "systemctl suspend", bytes "systemctl hibernate", bytes "systemctl hybrid-sleep"]

-- An entry of do_suspend, or a command that puts the machine to sleep.
def Io.Sleeps : Io → Prop
  | .suspend _ => True
  | .system cmd => cmd ∈ sleepCommands
  | _ => False

-- What a call records before it acts.
def Io.IsInput : Io → Prop
  | .line .. | .report .. | .button _ => True
  | _ => False

-- No connection is marked as an agent's.
def Unmarked (w : World) : Prop :=
  ∀ fd c, w.conns.lookup fd = some c → c.isAgent = false

theorem Io.IsRoutine.not_sleeps (e : Io) (h : e.IsRoutine) : ¬e.Sleeps := by
  cases e <;> first | exact id | exact absurd h id

theorem Io.IsDim.not_sleeps (e : Io) (h : e.IsDim) : ¬e.Sleeps := by
  cases e <;> first | exact id | exact absurd h id

theorem Io.IsUndim.not_sleeps (e : Io) (h : e.IsUndim) : ¬e.Sleeps := by
  cases e <;> first | exact id | exact absurd h id

theorem hwCommand_cases (action cmd : Bytes) (h : hwCommand action = some cmd) :
    (action = bytes "suspend" ∨ action = bytes "hibernate" ∨ action = bytes "hybrid-sleep") ∨
      cmd = bytes "systemctl poweroff" := by
  unfold hwCommand at h
  split_ifs at h with h0 h1 h2 h3 h4
  · exact .inl (.inl h1)
  · exact .inl (.inr (.inl h2))
  · exact .inl (.inr (.inr h3))
  · exact .inr (Option.some.inj h).symm

theorem runHwAction_awake (action : Bytes) (w : World)
    (h : ¬(action = bytes "suspend" ∨ action = bytes "hibernate" ∨ action = bytes "hybrid-sleep")) :
    Trace.Grows (fun e => ¬e.Sleeps) w.trace (runHwAction action w).trace := by
  unfold runHwAction
  split
  · exact .refl _
  · rename_i cmd hc
    obtain rfl := (hwCommand_cases action cmd hc).resolve_left h
    exact .single _ (show ¬bytes "systemctl poweroff" ∈ sleepCommands by decide)

section Flags

variable (env : Env)

theorem Unmarked.insert {w : World} {fd : Fd} {c : Connection} (h : Unmarked w)
    (hc : c.isAgent = false) : Unmarked { w with conns := w.conns.insert fd c } := by
  intro other c' hl
  by_cases ho : other = fd
  · subst ho
    rw [AList.lookup_insert] at hl
    cases hl
    exact hc
  · rw [AList.lookup_insert_ne ho] at hl
    exact h other c' hl

theorem step_unmarked (s : State) (move : Move) (h : Unmarked s.world) :
    Unmarked (step env s move).world := by
  have hstep := step_stepped env s move
  generalize step env s move = s' at hstep ⊢
  cases hstep with
  | idle => exact h
  | signal m _ _ =>
      intro fd c hl
      rw [(handleSeatProperties_seated m s.world).conns] at hl
      exact h fd c hl
  | accept r fd _ _ hf =>
      unfold acceptClient
      rw [if_neg hf.1]
      exact h.insert rfl
  | feed r c _ _ hc => exact h.insert (h r.fd c hc)
  | input => exact h
  | outside => exact h
  | call c rest _ _ =>
      intro fd conn hl
      exact h fd conn (perform_conns env c s.world hl).1

theorem run_unmarked (w : World) (h : Started env w) (moves : List Move) :
    Unmarked (run env w moves).world := by
  refine Run.invariant_always (step env) (fun s => Unmarked s.world)
    (step_unmarked env) moves ?_
  intro fd c hl
  rw [(started_spec env w h).1] at hl
  cases hl

theorem broadcast_unmarked (msg : Bytes) (conns : List (Σ _ : Fd, Connection)) (pending : Finset Fd)
    (w : World) (h : ∀ c ∈ conns, c.2.isAgent = false) :
    broadcast env msg conns pending w = (pending, w) := by
  induction conns with
  | nil => rfl
  | cons c rest ih =>
      rw [broadcast, h c (by simp), if_neg Bool.false_ne_true]
      exact ih fun c' hc' => h c' (by simp [hc'])

theorem waitAcks_empty (rounds : List (List (Fd × Recv))) (w : World) :
    waitAcks rounds ∅ w = w := by
  cases rounds <;> simp [waitAcks]

-- With no connection marked the broadcast writes to nobody and waits for nobody.
theorem broadcastAndWaitAcks_unmarked (msg : Bytes) (w : World) (h : Unmarked w) :
    broadcastAndWaitAcks env msg w = w := by
  have hb : broadcast env msg (env.connOrder w.trace w.conns.entries) ∅ w = (∅, w) := by
    refine broadcast_unmarked env msg _ ∅ w fun c hc => h c.1 c.2 ?_
    exact AList.mem_lookup_iff.mpr ((env.connOrder_perm _ _).mem_iff.mp hc)
  rw [broadcastAndWaitAcks, hb]
  exact waitAcks_empty _ w

theorem doSuspend_unmarked (action : Bytes) (w : World) (h : Unmarked w) :
    doSuspend env action w = runHwAction action (sendLockToActiveAgent env (w.emit (.suspend action))) := by
  unfold doSuspend
  dsimp only
  rw [broadcastAndWaitAcks_unmarked]
  intro fd c hl
  rw [(sendLockToActiveAgent_emits env _).keeps.conns] at hl
  exact h fd c hl

end Flags

section Calls

-- The only message that reaches do_suspend is idle_sleep, and whether it does
-- depends on the daemon's state alone.
theorem onIdleSleep_sleeps (fd : Fd) (w : World) :
    (∀ env, onIdleSleep env fd w = w.extend [.report fd .idleSleep]) ∨
      ∀ env, onIdleSleep env fd w = doSuspend env (bytes "suspend") (w.extend [.report fd .idleSleep]) := by
  unfold onIdleSleep
  dsimp only
  split
  · exact .inl fun _ => rfl
  split
  · exact .inl fun _ => rfl
  split
  · exact .inl fun _ => rfl
  split
  · exact .inl fun _ => rfl
  · exact .inr fun _ => rfl

theorem onMessage_sleeps (fd : Fd) (msg : Value) (w : World) :
    (∀ env, Trace.Grows (fun e => ¬e.Sleeps) w.trace (onMessage env fd msg w).world.trace) ∨
      ∀ env, onMessage env fd msg w =
        .ok (doSuspend env (bytes "suspend") (w.extend [.report fd .idleSleep])) := by
  rcases onMessage_cases fd msg w with ⟨hq, -⟩ | ⟨-, -, hon⟩ | ⟨-, -, hon⟩ | ⟨-, -, hon⟩
  · exact .inl fun env => (hq env).grows.mono Io.IsRoutine.not_sleeps
  · refine .inl fun env => ?_
    rw [hon]
    exact (grows_emit w (.report fd .idleDim) id).trans
      ((onIdleDim_tables env fd w).grows.mono Io.IsDim.not_sleeps)
  · rcases onIdleSleep_sleeps fd w with h | h
    · refine .inl fun env => ?_
      rw [hon, h env]
      exact .single _ id
    · exact .inr fun env => (hon env).trans (congrArg _ (h env))
  · refine .inl fun env => ?_
    rw [hon]
    exact (grows_emit w (.report fd .active) id).trans
      ((onActive_tables env fd w).grows.mono Io.IsUndim.not_sleeps)

-- Either a call puts nothing to sleep, or it ends in do_suspend with one of the
-- three sleep actions, after recording its input.
theorem perform_sleeps (c : Call) (w : World) :
    (∀ env, Trace.Grows (fun e => ¬e.Sleeps) w.trace (perform env c w).world.trace) ∨
      ∃ action inputs,
        (action = bytes "suspend" ∨ action = bytes "hibernate" ∨ action = bytes "hybrid-sleep") ∧
        (∀ e ∈ inputs, e.IsInput) ∧
        ∀ env, perform env c w = .ok (doSuspend env action (w.extend inputs)) := by
  cases c with
  | hangUp fd =>
      exact .inl fun env => (Trace.Grows.single _ (e := .hungUp fd) id).trans
        (.single _ (e := Io.close fd) id)
  | line fd line =>
      have hline : Trace.Grows (fun e => ¬e.Sleeps) w.trace (w.emit (.line fd line)).trace :=
        .single _ id
      cases hd : decode line with
      | error e =>
          refine .inl fun env => ?_
          simp only [perform, onLine, hd, Result.world_ok]
          exact hline.trans (.single _ (e := Io.close fd) id)
      | ok msg =>
          simp only [perform, onLine, hd]
          rcases onMessage_sleeps fd msg (w.emit (.line fd line)) with h | h
          · exact .inl fun env => hline.trans (h env)
          · refine .inr ⟨bytes "suspend", [.line fd line, .report fd .idleSleep], .inl rfl, ?_, ?_⟩
            · simp [Io.IsInput]
            · intro env
              rw [h env]
              simp [World.extend, World.emit]
  | button e =>
      have hbutton : Trace.Grows (fun e => ¬e.Sleeps) w.trace (w.emit (.button e)).trace :=
        .single _ id
      simp only [perform, onEvent, Result.world_ok]
      split
      · exact .inl fun _ => hbutton
      · split_ifs with h0 h1
        · exact .inl fun _ => hbutton
        · exact .inr ⟨_, [.button e], h1, by simp [Io.IsInput], fun env => rfl⟩
        · exact .inl fun _ => hbutton.trans (runHwAction_awake _ _ h1)

end Calls

section PreSleep

variable (env : Env)

-- Made in this state, the call enters do_suspend with this action.
def Suspends (c : Call) (w : World) (before : List Io) (action : Bytes) (after : List Io) : Prop :=
  (perform env c w).world.trace = w.trace ++ (before ++ .suspend action :: after)

def Io.isSystem : Io → Bool
  | .system _ => true
  | _ => false

-- Between the entry and the command pre_sleep is written to every open agent.
def PreSleepSent (w : World) (after : List Io) : Prop :=
  ∀ fd ∈ w.agents, fd ∈ w.conns → .sent fd encodePreSleep true ∈ after.takeWhile fun e => !e.isSystem

theorem suspends_cases (c : Call) (w : World) (before : List Io) (action : Bytes) (after : List Io)
    (h : Suspends env c w before action after) :
    ∃ action' inputs,
      (action' = bytes "suspend" ∨ action' = bytes "hibernate" ∨ action' = bytes "hybrid-sleep") ∧
      (∀ e ∈ inputs, e.IsInput) ∧
      ∀ env, perform env c w = .ok (doSuspend env action' (w.extend inputs)) := by
  rcases perform_sleeps c w with hg | hs
  · exact absurd trivial ((hg env).all h (.suspend action) (by simp))
  · exact hs

-- do_suspend writes no pre_sleep to anyone while no connection is marked.
theorem doSuspend_noPreSleep (action : Bytes) (w : World) (h : Unmarked w) :
    Trace.Grows (fun e => ∀ fd, e ≠ .sent fd encodePreSleep true) w.trace
      (doSuspend env action w).trace := by
  have hlock : encodeLock ≠ encodePreSleep := by decide
  have hsend : Trace.Grows (fun e => ∀ fd, e ≠ .sent fd encodePreSleep true)
      (w.emit (.suspend action)).trace (sendLockToActiveAgent env (w.emit (.suspend action))).trace := by
    rcases sendLockToActiveAgent_cases env (w.emit (.suspend action)) with hs | ⟨fd, hs⟩
    · rw [hs]
      exact .refl _
    · rw [hs]
      exact .single _ (by simp [hlock])
  rw [doSuspend_unmarked env action w h]
  refine (grows_emit w (.suspend action) (by simp)).trans (hsend.trans ?_)
  unfold runHwAction
  split
  · exact .refl _
  · exact .single _ (by simp)

-- Every agent is told before the machine sleeps exactly when there is no agent.
theorem preSleep_iff (w : World) (h : Started env w) (moves : List Move) (c : Call)
    (before : List Io) (action : Bytes) (after : List Io)
    (hs : Suspends env c (run env w moves).world before action after) :
    PreSleepSent (run env w moves).world after ↔
      ∀ fd ∈ (run env w moves).world.agents, fd ∉ (run env w moves).world.conns := by
  have hu := run_unmarked env w h moves
  generalize (run env w moves).world = s at hs hu ⊢
  constructor
  · intro hsent fd ha hc
    obtain ⟨action', inputs, -, hin, hperform⟩ := suspends_cases env c s before action after hs
    have hinputs : Trace.Grows (fun e => ∀ fd, e ≠ .sent fd encodePreSleep true) s.trace
        (s.extend inputs).trace := by
      refine ⟨inputs, rfl, fun e he fd heq => ?_⟩
      rw [heq] at he
      exact hin _ he
    obtain ⟨out, ho, hnone⟩ := hinputs.trans (doSuspend_noPreSleep env action' (s.extend inputs) hu)
    have hperform := hperform env
    rw [Suspends, hperform, Result.world_ok, ho, List.append_cancel_left_eq] at hs
    have hmem := List.takeWhile_subset _ (hsent fd ha hc)
    exact hnone _ (hs ▸ List.mem_append_right before (List.mem_cons_of_mem _ hmem)) fd rfl
  · exact fun hn fd ha hc => absurd hc (hn fd ha)

end PreSleep

-- An agent of session "1" says hello, and the lid is closed.
def helloThenLid : List Move :=
  [accept 7, readable 7 (encodeHello (bytes "1") 1000 ++ [10]), .call,
    .ready ⟨6, none, [], [⟨EV_SW, SW_LID, 1⟩]⟩]

theorem preSleep_missing :
    ∃ w, sampleStart = .ok w ∧
      ∃ before action after, (run .plain w helloThenLid).pending = [.button .lidClose] ∧
        Suspends .plain (.button .lidClose) (run .plain w helloThenLid).world before action after ∧
        ¬PreSleepSent (run .plain w helloThenLid).world after :=
  ⟨_, rfl, [.button .lidClose], bytes "suspend", [.sent 7 encodeLock true,
    .system (bytes "systemctl suspend")], rfl, rfl, fun h =>
      absurd (h 7 (by decide) (by decide)) (by decide)⟩

theorem preSleep_sample :
    ∃ w, sampleStart = .ok w ∧
      (PreSleepSent (run .plain w helloThenLid).world
          [.sent 7 encodeLock true, .system (bytes "systemctl suspend")] ↔
        ∀ fd ∈ (run .plain w helloThenLid).world.agents,
          fd ∉ (run .plain w helloThenLid).world.conns) :=
  ⟨_, rfl, preSleep_iff .plain _ (sample_started rfl) helloThenLid (.button .lidClose)
    [.button .lidClose] (bytes "suspend") _ rfl⟩

end Draind.Daemon
