import Draind.Daemon.Loop
import Draind.Lib.Except
import Draind.Lib.Trace

namespace Draind.Daemon

open Json Proto

-- What the daemon does to others, as opposed to what it hears and what it does
-- to its connections. Routine effects neither dim, undim nor suspend.
def Io.IsTalk : Io → Prop
  | .sent .. | .swallowed .. => True
  | _ => False

def Io.IsRoutine : Io → Prop
  | .apply | .brightness .. | .policy .. | .saved .. => True
  | e => e.IsTalk

def Io.IsDim : Io → Prop
  | .dim => True
  | e => e.IsRoutine

def Io.IsUndim : Io → Prop
  | .undim => True
  | e => e.IsRoutine

def Io.IsSleep : Io → Prop
  | .suspend .. | .system .. => True
  | e => e.IsTalk

-- What do_suspend does, and the messages it sends.
def Io.IsSuspending : Io → Prop
  | .suspend _ | .system _ | .swallowed .. => True
  | .sent _ msg _ => msg = encodeLock ∨ msg = encodePreSleep
  | _ => False

def Io.IsEffect (e : Io) : Prop :=
  e.IsDim ∨ e.IsUndim ∨ e.IsSleep

theorem Io.IsTalk.isRoutine (e : Io) (h : e.IsTalk) : e.IsRoutine := by
  cases e <;> first | exact h | exact trivial

theorem Io.IsTalk.isSleep (e : Io) (h : e.IsTalk) : e.IsSleep := by
  cases e <;> first | exact h | exact trivial

theorem Io.IsSuspending.isSleep (e : Io) (h : e.IsSuspending) : e.IsSleep := by
  cases e <;> first | exact trivial | exact h

theorem Io.IsRoutine.isDim (e : Io) (h : e.IsRoutine) : e.IsDim := by
  cases e <;> first | exact h | exact trivial

theorem Io.IsRoutine.isUndim (e : Io) (h : e.IsRoutine) : e.IsUndim := by
  cases e <;> first | exact h | exact trivial

-- The tables, the session and the dim flag are as before. The trace has grown by
-- events of one kind.
structure Keeps (kind : Io → Prop) (w w' : World) : Prop where
  conns : w'.conns = w.conns
  agents : w'.agents = w.agents
  session : w'.activeSessionId = w.activeSessionId
  dimmed : w'.dimmed = w.dimmed
  exited : w'.exited = w.exited
  grows : Trace.Grows kind w.trace w'.trace

variable {kind : Io → Prop}

theorem Keeps.refl (w : World) : Keeps kind w w :=
  ⟨rfl, rfl, rfl, rfl, rfl, .refl _⟩

theorem Keeps.trans {w w' w'' : World} (h : Keeps kind w w') (h' : Keeps kind w' w'') :
    Keeps kind w w'' :=
  ⟨h'.conns.trans h.conns, h'.agents.trans h.agents, h'.session.trans h.session,
    h'.dimmed.trans h.dimmed, h'.exited.trans h.exited, h.grows.trans h'.grows⟩

theorem Keeps.mono {kind' : Io → Prop} {w w' : World} (h : Keeps kind w w')
    (himp : ∀ e, kind e → kind' e) : Keeps kind' w w' :=
  ⟨h.conns, h.agents, h.session, h.dimmed, h.exited, h.grows.mono himp⟩

-- As Keeps, but the dim flag may change.
structure KeepsTables (kind : Io → Prop) (w w' : World) : Prop where
  conns : w'.conns = w.conns
  agents : w'.agents = w.agents
  session : w'.activeSessionId = w.activeSessionId
  exited : w'.exited = w.exited
  grows : Trace.Grows kind w.trace w'.trace

theorem KeepsTables.mono {kind' : Io → Prop} {w w' : World} (h : KeepsTables kind w w')
    (himp : ∀ e, kind e → kind' e) : KeepsTables kind' w w' :=
  ⟨h.conns, h.agents, h.session, h.exited, h.grows.mono himp⟩

theorem Keeps.tables {w w' : World} (h : Keeps kind w w') : KeepsTables kind w w' :=
  ⟨h.conns, h.agents, h.session, h.exited, h.grows⟩

theorem Keeps.isDim {w w' : World} (h : Keeps Io.IsRoutine w w') : Keeps Io.IsDim w w' :=
  h.mono Io.IsRoutine.isDim

theorem Keeps.isUndim {w w' : World} (h : Keeps Io.IsRoutine w w') : Keeps Io.IsUndim w w' :=
  h.mono Io.IsRoutine.isUndim

theorem Keeps.isEffect {w w' : World} (h : Keeps Io.IsRoutine w w') : Keeps Io.IsEffect w w' :=
  h.mono fun e he => .inl (Io.IsRoutine.isDim e he)

theorem grows_emit (w : World) (e : Io) (he : kind e) : Trace.Grows kind w.trace (w.emit e).trace :=
  .single _ he

theorem Keeps.emit (w : World) {e : Io} (he : kind e) : Keeps kind w (w.emit e) :=
  ⟨rfl, rfl, rfl, rfl, rfl, .single _ he⟩

theorem Keeps.config (w : World) (config : ConfigManager) : Keeps kind w { w with config := config } :=
  ⟨rfl, rfl, rfl, rfl, rfl, .refl _⟩

@[simp] theorem Result.world_ok (w : World) : Result.world (.ok w) = w := rfl

@[simp] theorem Result.world_error (t : Thrown) : Result.world (.error t) = t.world := rfl

-- Nothing but the trace is different.
def Emits (kind : Io → Prop) (w w' : World) : Prop :=
  ∃ out, w' = w.extend out ∧ ∀ e ∈ out, kind e

theorem Emits.refl (w : World) : Emits kind w w :=
  ⟨[], by simp [World.extend], by simp⟩

theorem Emits.emit (w : World) (e : Io) (he : kind e) : Emits kind w (w.emit e) :=
  ⟨[e], rfl, by simpa using he⟩

theorem Emits.trans {w w' w'' : World} (h : Emits kind w w') (h' : Emits kind w' w'') :
    Emits kind w w'' := by
  obtain ⟨out, rfl, hk⟩ := h
  obtain ⟨out', rfl, hk'⟩ := h'
  refine ⟨out ++ out', by simp [World.extend], ?_⟩
  rw [List.forall_mem_append]
  exact ⟨hk, hk'⟩

theorem Emits.mono {kind' : Io → Prop} {w w' : World} (h : Emits kind w w')
    (himp : ∀ e, kind e → kind' e) : Emits kind' w w' := by
  obtain ⟨out, he, hk⟩ := h
  exact ⟨out, he, fun e hm => himp e (hk e hm)⟩

theorem Emits.keeps {w w' : World} (h : Emits kind w w') : Keeps kind w w' := by
  obtain ⟨out, rfl, hk⟩ := h
  exact ⟨rfl, rfl, rfl, rfl, rfl, out, rfl, hk⟩

theorem Emits.routine {w w' : World} (h : Emits Io.IsTalk w w') : Keeps Io.IsRoutine w w' :=
  (h.mono Io.IsTalk.isRoutine).keeps

-- The second part of a call runs only after the first has returned.
theorem Keeps.bind {w : World} {x : Result} {f : World → Result} (hx : Keeps kind w x.world)
    (hf : ∀ w', Keeps kind w' (f w').world) : Keeps kind w (Result.world (x >>= f)) := by
  cases x with
  | error t => exact hx
  | ok w' => exact hx.trans (hf w')

section Effects

variable (env : Env)

theorem writeLine_emits (fd : Fd) (msg : Bytes) (w : World) : Emits Io.IsTalk w (writeLine env fd msg w).2 :=
  .emit w _ trivial

theorem send_emits (fd : Fd) (msg : Bytes) (w : World) : Emits Io.IsTalk w (send env fd msg w) :=
  writeLine_emits env fd msg w

theorem broadcast_emits (msg : Bytes) (hm : ∀ fd ok, kind (.sent fd msg ok))
    (conns : List (Σ _ : Fd, Connection)) (pending : Finset Fd) (w : World) :
    Emits kind w (broadcast env msg conns pending w).2 := by
  induction conns generalizing pending w with
  | nil => exact .refl w
  | cons c rest ih =>
      unfold broadcast
      split
      · exact (Emits.emit w _ (hm c.1 _)).trans (ih _ _)
      · exact ih _ _

theorem receiveAcks_emits (hs : ∀ fd chunk, kind (.swallowed fd chunk)) (round : List (Fd × Recv))
    (pending : Finset Fd) (w : World) : Emits kind w (receiveAcks round pending w).2 := by
  induction round generalizing pending w with
  | nil => exact .refl w
  | cons entry rest ih =>
      obtain ⟨fd, r⟩ := entry
      unfold receiveAcks
      split
      · cases r with
        | failed => exact ih _ _
        | data chunk => exact (Emits.emit w _ (hs fd chunk)).trans (ih _ _)
      · exact ih _ _

theorem waitAcks_emits (hs : ∀ fd chunk, kind (.swallowed fd chunk))
    (rounds : List (List (Fd × Recv))) (pending : Finset Fd) (w : World) :
    Emits kind w (waitAcks rounds pending w) := by
  induction rounds generalizing pending w with
  | nil => exact .refl w
  | cons round rest ih =>
      unfold waitAcks
      split
      · exact .refl w
      · exact (receiveAcks_emits hs round pending w).trans (ih _ _)

theorem broadcastAndWaitAcks_emits (msg : Bytes) (hm : ∀ fd ok, kind (.sent fd msg ok))
    (hs : ∀ fd chunk, kind (.swallowed fd chunk)) (w : World) :
    Emits kind w (broadcastAndWaitAcks env msg w) :=
  (broadcast_emits env msg hm _ _ w).trans (waitAcks_emits hs _ _ _)

theorem setBrightnessPercent_keeps (pct : Int32) (w : World) :
    Keeps Io.IsRoutine w (setBrightnessPercent env pct w).world := by
  unfold setBrightnessPercent
  cases w.sysfs.backlight with
  | none => exact .refl w
  | some b =>
      dsimp only
      split
      · exact .refl w
      · split
        · exact .refl w
        · exact ⟨rfl, rfl, rfl, rfl, rfl, .single _ trivial⟩

def Io.IsPolicy : Io → Prop
  | .policy .. => True
  | _ => False

theorem Io.IsPolicy.isRoutine (e : Io) (h : e.IsPolicy) : e.IsRoutine := by
  cases e <;> first | exact trivial | exact absurd h id

theorem writePolicies_emits (read : CpuPolicy → Bytes) (store : CpuPolicy → Bytes → CpuPolicy)
    (value : Bytes) (policies : List CpuPolicy) (w : World) :
    Emits Io.IsPolicy w (writePolicies env read store value policies w).2 := by
  induction policies generalizing w with
  | nil => exact .refl w
  | cons p rest ih =>
      unfold writePolicies
      split
      · exact ih w
      · exact (Emits.emit w (.policy p.dir value (env.sysfsWritable w.trace (.policy p.dir))) trivial).trans (ih _)

theorem setCpuFile_keeps (read : CpuPolicy → Bytes) (store : CpuPolicy → Bytes → CpuPolicy)
    (value : Bytes) (w : World) : Keeps Io.IsRoutine w (setCpuFile env read store value w) := by
  unfold setCpuFile
  split
  · exact .refl w
  · have h := ((writePolicies_emits env read store value w.sysfs.policies w).mono
      Io.IsPolicy.isRoutine).keeps
    exact ⟨h.conns, h.agents, h.session, h.dimmed, h.exited, h.grows⟩

theorem apply_keeps (p : Profile) (w : World) : Keeps Io.IsRoutine w (apply env p w).world :=
  (Keeps.emit w (e := .apply) trivial).trans ((setCpuFile_keeps env _ _ _ _).trans
    ((setCpuFile_keeps env _ _ _ _).trans (setBrightnessPercent_keeps env _ _)))

theorem dim_keeps (p : Profile) (w : World) : Keeps Io.IsDim w (dim env p w).world := by
  have hm : Keeps Io.IsDim w (w.emit .dim) := .emit w trivial
  unfold dim
  dsimp only
  split
  · exact hm
  · refine hm.trans (.trans ?_ (setBrightnessPercent_keeps env _ _).isDim)
    exact ⟨rfl, rfl, rfl, rfl, rfl, .refl _⟩

theorem undim_keeps (p : Profile) (w : World) : Keeps Io.IsUndim w (undim env p w).world := by
  have hm : Keeps Io.IsUndim w (w.emit .undim) := .emit w trivial
  refine hm.trans (.bind (setBrightnessPercent_keeps env _ _).isUndim fun w' => ?_)
  exact ⟨rfl, rfl, rfl, rfl, rfl, .refl _⟩

theorem sendConfig_emits (fd : Fd) (w : World) : Emits Io.IsTalk w (sendConfig env fd w) :=
  send_emits env fd _ w

theorem broadcastConfig_emits (w : World) : Emits Io.IsTalk w (broadcastConfig env w) := by
  unfold broadcastConfig
  generalize env.agentOrder w.trace w.agents.entries = agents
  induction agents generalizing w with
  | nil => exact .refl w
  | cons a rest ih => exact (sendConfig_emits env a.1 w).trans (ih _)

theorem sendLockToActiveAgent_cases (w : World) :
    sendLockToActiveAgent env w = w ∨
      ∃ fd, sendLockToActiveAgent env w = send env fd encodeLock w := by
  unfold sendLockToActiveAgent
  dsimp only
  split
  · exact .inr ⟨_, rfl⟩
  · split
    · exact .inr ⟨_, rfl⟩
    · exact .inl rfl

theorem sendLockToActiveAgent_emits (w : World) : Emits Io.IsTalk w (sendLockToActiveAgent env w) := by
  rcases sendLockToActiveAgent_cases env w with h | ⟨fd, h⟩
  · rw [h]
    exact .refl w
  · rw [h]
    exact send_emits env fd _ w

theorem runHwAction_emits (action : Bytes) (w : World) :
    Emits Io.IsSuspending w (runHwAction action w) := by
  unfold runHwAction
  split
  · exact .refl w
  · exact .emit w _ trivial

theorem doSuspend_emits (action : Bytes) (w : World) :
    Emits Io.IsSuspending w (doSuspend env action w) := by
  have hlock : Emits Io.IsSuspending (w.emit (.suspend action))
      (sendLockToActiveAgent env (w.emit (.suspend action))) := by
    rcases sendLockToActiveAgent_cases env (w.emit (.suspend action)) with h | ⟨fd, h⟩
    · rw [h]
      exact .refl _
    · rw [h]
      exact .emit _ _ (.inl rfl)
  exact (Emits.emit w (.suspend action) trivial).trans (hlock.trans
    ((broadcastAndWaitAcks_emits env _ (fun _ _ => .inr rfl) (fun _ _ => trivial) _).trans
      (runHwAction_emits action _)))

theorem onChange_keeps (w : World) : Keeps Io.IsRoutine w (onChange env w).world := by
  unfold onChange
  split
  · exact (broadcastConfig_emits env w).routine
  · exact .bind (apply_keeps env _ w) fun w' => (broadcastConfig_emits env w').routine

theorem reloadConfig_keeps (w : World) : Keeps Io.IsRoutine w (reloadConfig env w).world := by
  unfold reloadConfig
  split
  · exact .refl w
  · exact (Keeps.config w _).trans (onChange_keeps env _)

theorem persistActive_keeps (w : World) : Keeps Io.IsRoutine w (persistActive env w) := by
  unfold persistActive
  split
  · exact .refl w
  · split
    · exact .refl w
    · exact ⟨rfl, rfl, rfl, rfl, rfl, .single _ trivial⟩

theorem reply_emits (fd : Fd) (entries : List (Bytes × Value)) (w : World) :
    Emits Io.IsTalk w (reply env fd entries w) :=
  send_emits env fd _ w

theorem setActive_cases (name : Bytes) (w : World) :
    (w.config.select name = none ∧ setActive env name w = .ok (false, w)) ∨
    ∃ config, w.config.select name = some config ∧
      setActive env name w =
        (onChange env (persistActive env { w with config := config })).map fun w => (true, w) := by
  unfold setActive
  cases w.config.select name with
  | none => exact .inl ⟨rfl, rfl⟩
  | some config => exact .inr ⟨config, rfl, rfl⟩

-- A command leaves the tables, the session and the dim flag alone.
theorem onCtl_keeps (fd : Fd) (msg : Value) (w : World) : Keeps Io.IsRoutine w (onCtl env fd msg w).world := by
  unfold onCtl
  dsimp only
  split_ifs
  · exact (reply_emits env fd _ w).routine
  · rcases setActive_cases env (msg.str (bytes "profile") []) w with ⟨-, he⟩ | ⟨config, -, he⟩
    · rw [he]
      exact (reply_emits env fd _ w).routine
    · rw [he]
      have h := ((Keeps.config w config).trans (persistActive_keeps env _)).trans (onChange_keeps env _)
      cases hr : onChange env (persistActive env { w with config := config }) with
      | error t =>
          rw [hr] at h
          exact h
      | ok w' =>
          rw [hr] at h
          exact h.trans (reply_emits env fd _ w').routine
  · exact (reply_emits env fd _ w).routine
  · exact ((sendLockToActiveAgent_emits env w).trans (reply_emits env fd _ _)).routine
  · exact (reply_emits env fd _ w).routine
  · have h := reloadConfig_keeps env w
    cases hr : reloadConfig env w with
    | error t =>
        rw [hr] at h
        exact h.trans (reply_emits env fd _ _).routine
    | ok w' =>
        rw [hr] at h
        exact h.trans (reply_emits env fd _ _).routine
  · exact (reply_emits env fd _ w).routine
  · exact (reply_emits env fd _ w).routine

theorem onEvent_suspending (e : HwEvent) (w : World) :
    Emits Io.IsSuspending (w.emit (.button e)) (onEvent env e w) := by
  unfold onEvent
  dsimp only
  split
  · exact .refl _
  · split_ifs
    · exact .refl _
    · exact doSuspend_emits env _ _
    · exact runHwAction_emits _ _

theorem onEvent_emits (e : HwEvent) (w : World) :
    Emits Io.IsSleep (w.emit (.button e)) (onEvent env e w) :=
  (onEvent_suspending env e w).mono Io.IsSuspending.isSleep

theorem onIdleSleep_suspending (fd : Fd) (w : World) :
    Emits Io.IsSuspending (w.emit (.report fd .idleSleep)) (onIdleSleep env fd w) := by
  unfold onIdleSleep
  dsimp only
  split
  · exact .refl _
  · split
    · exact .refl _
    · split
      · exact .refl _
      · split
        · exact .refl _
        · exact doSuspend_emits env _ _

theorem onIdleSleep_emits (fd : Fd) (w : World) :
    Emits Io.IsSleep (w.emit (.report fd .idleSleep)) (onIdleSleep env fd w) :=
  (onIdleSleep_suspending env fd w).mono Io.IsSuspending.isSleep

-- Nothing but the table and the files may differ, and all effects are routine.
structure Quiet (w w' : World) : Prop where
  conns : w'.conns = w.conns
  session : w'.activeSessionId = w.activeSessionId
  dimmed : w'.dimmed = w.dimmed
  exited : w'.exited = w.exited
  grows : Trace.Grows Io.IsRoutine w.trace w'.trace

theorem Keeps.quiet {w w' : World} (h : Keeps Io.IsRoutine w w') : Quiet w w' :=
  ⟨h.conns, h.session, h.dimmed, h.exited, h.grows⟩

theorem Quiet.of_insert {w w' : World} {fd : Fd} {agent : AgentState}
    (h : Keeps Io.IsRoutine { w with agents := w.agents.insert fd agent } w') : Quiet w w' :=
  ⟨h.conns, h.session, h.dimmed, h.exited, h.grows⟩

theorem updateInhibits_quiet (update : Bytes → List Bytes → List Bytes) (fd : Fd) (msg : Value)
    (w : World) : Quiet w (updateInhibits env update fd msg w) := by
  unfold updateInhibits
  split
  · exact (Keeps.refl w).quiet
  · exact .of_insert (send_emits env fd _ _).routine

theorem onCtl_setProfile (fd : Fd) (msg : Value) (w : World)
    (h : msg.str (bytes "cmd") [] = bytes "set_profile") :
    ∃ entries : Bool → List (Bytes × Value), onCtl env fd msg w =
      setActive env (msg.str (bytes "profile") []) w >>= fun r => .ok (reply env fd (entries r.1) r.2) := by
  have hne : bytes "set_profile" ≠ bytes "status" := by decide
  refine ⟨fun found => ok found :: if found then [] else
    [(bytes "error", .string (bytes "profile not found: " ++ msg.str (bytes "profile") []))], ?_⟩
  simp only [onCtl, h, if_neg hne, if_true]

theorem onCtl_reloadConfig (fd : Fd) (msg : Value) (w : World)
    (h : msg.str (bytes "cmd") [] = bytes "reload_config") :
    ∃ entries, onCtl env fd msg w = .ok (reply env fd entries (reloadConfig env w).world) := by
  have hne : bytes "reload_config" ≠ bytes "status" ∧ bytes "reload_config" ≠ bytes "set_profile" ∧
      bytes "reload_config" ≠ bytes "list_profiles" ∧ bytes "reload_config" ≠ bytes "lock" ∧
      bytes "reload_config" ≠ bytes "list_inhibitors" := by decide
  simp only [onCtl, h, hne, if_false, if_true]
  cases reloadConfig env w with
  | ok w' => exact ⟨_, rfl⟩
  | error t => exact ⟨_, rfl⟩

theorem onMessage_ctl {fd : Fd} {msg : Value} {w : World} (ht : msgType msg = T_CTL) :
    onMessage env fd msg w = onCtl env fd msg w := by
  have hne : T_CTL ≠ T_HELLO := by decide
  simp [onMessage, ht, hne]

theorem onMessage_idleDim {fd : Fd} {msg : Value} {w : World} (ht : msgType msg = T_IDLE_DIM)
    (ha : fd ∈ w.agents) : onMessage env fd msg w = onIdleDim env fd w := by
  have hne : T_IDLE_DIM ≠ T_HELLO ∧ T_IDLE_DIM ≠ T_CTL := by decide
  simp [onMessage, ht, hne, ha]

theorem onMessage_idleSleep {fd : Fd} {msg : Value} {w : World} (ht : msgType msg = T_IDLE_SLEEP)
    (ha : fd ∈ w.agents) : onMessage env fd msg w = .ok (onIdleSleep env fd w) := by
  have hne : T_IDLE_SLEEP ≠ T_HELLO ∧ T_IDLE_SLEEP ≠ T_CTL ∧ T_IDLE_SLEEP ≠ T_IDLE_DIM := by decide
  simp [onMessage, ht, hne, ha]

theorem onMessage_active {fd : Fd} {msg : Value} {w : World} (ht : msgType msg = T_ACTIVE)
    (ha : fd ∈ w.agents) : onMessage env fd msg w = onActive env fd w := by
  have hne : T_ACTIVE ≠ T_HELLO ∧ T_ACTIVE ≠ T_CTL ∧ T_ACTIVE ≠ T_IDLE_DIM ∧
      T_ACTIVE ≠ T_IDLE_SLEEP := by decide
  simp [onMessage, ht, hne, ha]

-- Only the three reports, from a connection that is in the table, do more than
-- write to the table and answer.
theorem onMessage_cases (fd : Fd) (msg : Value) (w : World) :
    (∀ env, Quiet w (onMessage env fd msg w).world) ∧
        (fd ∈ w.agents → msgType msg ≠ T_IDLE_DIM ∧ msgType msg ≠ T_IDLE_SLEEP ∧
          msgType msg ≠ T_ACTIVE) ∨
      fd ∈ w.agents ∧ msgType msg = T_IDLE_DIM ∧
        (∀ env, onMessage env fd msg w = onIdleDim env fd w) ∨
      fd ∈ w.agents ∧ msgType msg = T_IDLE_SLEEP ∧
        (∀ env, onMessage env fd msg w = .ok (onIdleSleep env fd w)) ∨
      fd ∈ w.agents ∧ msgType msg = T_ACTIVE ∧
        (∀ env, onMessage env fd msg w = onActive env fd w) := by
  by_cases ha : fd ∈ w.agents
  · by_cases hd : msgType msg = T_IDLE_DIM
    · exact .inr (.inl ⟨ha, hd, fun env => onMessage_idleDim env hd ha⟩)
    by_cases hs : msgType msg = T_IDLE_SLEEP
    · exact .inr (.inr (.inl ⟨ha, hs, fun env => onMessage_idleSleep env hs ha⟩))
    by_cases hact : msgType msg = T_ACTIVE
    · exact .inr (.inr (.inr ⟨ha, hact, fun env => onMessage_active env hact ha⟩))
    refine .inl ⟨fun env => ?_, fun _ => ⟨hd, hs, hact⟩⟩
    simp only [onMessage, ha, hd, hs, hact, if_false, not_true]
    split_ifs
    · exact .of_insert (sendConfig_emits env fd _).routine
    · exact (onCtl_keeps env fd msg w).quiet
    · exact updateInhibits_quiet env _ fd msg w
    · exact updateInhibits_quiet env _ fd msg w
    · exact (Keeps.refl w).quiet
  · refine .inl ⟨fun env => ?_, fun h => absurd h ha⟩
    simp only [onMessage, ha, if_true, not_false_iff]
    split_ifs
    · exact .of_insert (sendConfig_emits env fd _).routine
    · exact (onCtl_keeps env fd msg w).quiet
    · exact (Keeps.refl w).quiet

end Effects

end Draind.Daemon
