import Draind.Daemon.Suspend

namespace Draind.Daemon

open Json Proto

-- An open connection whose latest hello named the session that is active now.
def Registered (w : World) (fd : Fd) : Prop :=
  fd ∈ w.conns ∧ w.activeSessionId ≠ [] ∧
    ∃ messages since, received w.trace fd = some messages ∧
      LatestHello messages w.activeSessionId since

-- The entry of a connection that is open and has said hello is its own.
def Covered (w : World) : Prop :=
  ∀ fd messages agent, received w.trace fd = some messages →
    registration messages = some agent → w.agents.lookup fd = some agent

-- Each sleep command the call runs comes after a lock that was written to an open
-- agent of the active session, if there is one.
def LockedFirst (env : Env) (c : Call) (w : World) : Prop :=
  ∀ before cmd after,
    (perform env c w).world.trace = w.trace ++ (before ++ .system cmd :: after) →
    cmd ∈ sleepCommands → (∃ fd, Registered w fd) →
    ∃ fd, Registered w fd ∧ .sent fd encodeLock true ∈ before

-- Where the call enters do_suspend while there is an open agent of the active
-- session, every entry that names this session is such an agent and takes the lock.
def EntriesTakeLock (env : Env) (c : Call) (w : World) : Prop :=
  ∀ before action after, Suspends env c w before action after → (∃ fd, Registered w fd) →
    ∀ a ∈ w.agents.entries, w.isActive a.2.sessionId →
      Registered w a.1 ∧ env.writable (w.trace ++ before ++ [.suspend action]) a.1 encodeLock = true

-- The machine as it is, but for the order in which the agents are iterated.
def Env.withOrder (env : Env)
    (order : List Io → List (Σ _ : Fd, AgentState) → List (Σ _ : Fd, AgentState))
    (hperm : ∀ trace entries, (order trace entries).Perm entries) : Env :=
  { env with agentOrder := order, agentOrder_perm := hperm }

section Cover

variable (env : Env)

theorem Covered.update {w w' : World} {fd : Fd} {messages : Option (List Value)} (h : Covered w)
    (hr : received w'.trace = Function.update (received w.trace) fd messages)
    (hfd : ∀ agent, messages.bind registration = some agent → w'.agents.lookup fd = some agent)
    (ha : ∀ other, other ≠ fd → w'.agents.lookup other = w.agents.lookup other) : Covered w' := by
  intro other messages' agent hm hreg
  rw [hr] at hm
  by_cases ho : other = fd
  · subst ho
    rw [Function.update_self] at hm
    exact hfd agent (by rw [hm]; exact hreg)
  · rw [Function.update_of_ne ho] at hm
    rw [ha other ho]
    exact h other messages' agent hm hreg

-- A message that makes an entry where there was none makes the same one anywhere.
theorem hear_of_none (agent : Option AgentState) (msg : Value) {entry : AgentState}
    (h : hear none msg = some entry) : hear agent msg = some entry := by
  by_cases ht : msgType msg = T_HELLO
  · rw [hear_hello _ _ ht] at h ⊢
    exact h
  · rw [hear_none _ ht] at h
    cases h

-- The table's entry for the sender is what its messages so far make of it.
theorem line_covered (fd : Fd) (line : Bytes) (w : World) (h : Covered w) :
    Covered (perform env (.line fd line) w).settle := by
  cases hd : decode line with
  | error e =>
      rw [perform_malformed env fd line e _ hd]
      refine h.update (received_malformed fd line e _ hd) (fun agent hreg => ?_) fun _ _ => rfl
      cases hreg
  | ok msg =>
      have hh := perform_message env fd line msg w hd
      refine h.update (received_message env fd line msg _ hd) (fun agent hreg => ?_)
        fun other hne => ?_
      · rw [Result.settle_agents, hh.lookup, if_pos rfl]
        obtain ⟨messages, hm, hreg⟩ := Option.bind_eq_some_iff.mp hreg
        obtain ⟨old, hold, rfl⟩ := Option.map_eq_some_iff.mp hm
        rw [registration_append] at hreg
        cases hr : registration old with
        | none =>
            rw [hr] at hreg
            exact hear_of_none _ msg hreg
        | some entry =>
            rw [World.emit_agents, h fd old entry hold hr, ← hr]
            exact hreg
      · rw [Result.settle_agents, hh.lookup, if_neg hne]
        rfl

theorem step_covered (s : State) (move : Move) (h : Covered s.world) :
    Covered (step env s move).world := by
  have hstep := step_stepped env s move
  generalize step env s move = s' at hstep ⊢
  cases hstep with
  | idle => exact h
  | signal m _ _ =>
      have hs := handleSeatProperties_seated m s.world
      intro fd messages agent hm hreg
      rw [hs.received] at hm
      rw [hs.agents]
      exact h fd messages agent hm hreg
  | accept r fd _ _ hf =>
      refine h.update (received_accept fd s.world) (fun agent hreg => ?_) fun other _ => rfl
      simp [registration] at hreg
  | feed r c _ _ hc => exact h
  | input => exact h
  | outside => exact h
  | call c rest _ _ =>
      cases c with
      | hangUp fd =>
          refine h.update (received_hangUp fd _) (fun agent hreg => ?_) fun other hne => ?_
          · cases hreg
          · simp [perform, closeClient, onDisconnect, World.emit, hne]
      | button e =>
          intro fd messages agent hm hreg
          simp only [perform, Result.settle_ok] at hm ⊢
          rw [received_button] at hm
          rw [(onEvent_emits env e s.world).keeps.agents]
          exact h fd messages agent hm hreg
      | line fd line => exact line_covered env fd line _ h

theorem run_covered (w : World) (h : Started env w) (moves : List Move) :
    Covered (run env w moves).world := by
  refine Run.invariant_always (step env) (fun s => Covered s.world)
    (step_covered env) moves fun fd messages agent hm => ?_
  rw [started_received env w h] at hm
  cases hm

-- An open agent of the active session has an entry that the code takes for one.
theorem Registered.entry {w : World} {fd : Fd} (h : Registered w fd) (hc : Covered w) :
    ∃ agent, w.agents.lookup fd = some agent ∧ w.isActive agent.sessionId = true := by
  obtain ⟨-, hne, messages, since, hm, hlatest⟩ := h
  cases hr : registration messages with
  | none =>
      obtain ⟨before, hello, rfl, ht, -⟩ := hlatest
      exact absurd ht ((registration_eq_none_iff _).mp hr hello (by simp))
  | some agent =>
      obtain ⟨since', hlatest', -⟩ := registration_spec messages agent hr
      have hs := (latestHello_unique hlatest hlatest').1
      exact ⟨agent, hc fd messages agent hm hr, by simp [World.isActive, ← hs, hne]⟩

end Cover

section Lock

variable (env : Env)

theorem hwCommand_sleep (action : Bytes)
    (h : action = bytes "suspend" ∨ action = bytes "hibernate" ∨ action = bytes "hybrid-sleep") :
    ∃ cmd ∈ sleepCommands, hwCommand action = some cmd := by
  rcases h with rfl | rfl | rfl
  · exact ⟨bytes "systemctl suspend", by decide, by decide⟩
  · exact ⟨bytes "systemctl hibernate", by decide, by decide⟩
  · exact ⟨bytes "systemctl hybrid-sleep", by decide, by decide⟩

-- What do_suspend records when a is the first agent of the active session.
theorem doSuspend_locks (action cmd : Bytes) (w : World) (hu : Unmarked w)
    (hcmd : hwCommand action = some cmd) (a : Σ _ : Fd, AgentState)
    (hf : (env.agentOrder (w.trace ++ [.suspend action]) w.agents.entries).find?
      (fun a => w.isActive a.2.sessionId) = some a) :
    (doSuspend env action w).trace = w.trace ++ ([.suspend action, .sent a.1 encodeLock
      (decide (a.1 ∈ w.conns) && env.writable (w.trace ++ [.suspend action]) a.1 encodeLock)] ++
        [.system cmd]) := by
  have hl : sendLockToActiveAgent env (w.emit (.suspend action)) =
      send env a.1 encodeLock (w.emit (.suspend action)) := by
    have hf' : (env.agentOrder (w.emit (.suspend action)).trace
        (w.emit (.suspend action)).agents.entries).find?
        (fun a => (w.emit (.suspend action)).isActive a.2.sessionId) = some a := hf
    unfold sendLockToActiveAgent
    dsimp only
    rw [hf']
  rw [doSuspend_unmarked env action w hu, hl]
  simp [runHwAction, hcmd, send, writeLine, World.emit]
  rfl

theorem Io.IsRoutine.ne_suspend (e : Io) (h : e.IsRoutine) (action : Bytes) : e ≠ .suspend action := by
  rintro rfl
  exact h

-- do_suspend is entered once in a call of it.
theorem doSuspend_suspends (action : Bytes) (w : World) :
    ∃ after, (doSuspend env action w).trace = w.trace ++ .suspend action :: after ∧
      ∀ e ∈ after, ∀ action', e ≠ .suspend action' := by
  have hr : ∀ w : World, Trace.Grows (fun e => ∀ action', e ≠ .suspend action') w.trace
      (runHwAction action w).trace := by
    intro w
    unfold runHwAction
    split
    · exact .refl _
    · exact .single _ (by simp)
  have htalk := (sendLockToActiveAgent_emits env (w.emit (.suspend action))).trans
    (broadcastAndWaitAcks_emits env encodePreSleep (fun _ _ => trivial) (fun _ _ => trivial) _)
  obtain ⟨out, ho, hn⟩ := (htalk.routine.grows.mono Io.IsRoutine.ne_suspend).trans (hr _)
  exact ⟨out, by rw [doSuspend, ho]; simp, hn⟩

-- The way into do_suspend is the one recorded.
theorem Suspends.inputs {c : Call} {w : World} {before : List Io} {action : Bytes} {after : List Io}
    (h : Suspends env c w before action after) {action' : Bytes} {inputs : List Io}
    (hin : ∀ e ∈ inputs, e.IsInput)
    (hp : perform env c w = .ok (doSuspend env action' (w.extend inputs))) :
    before = inputs ∧ action = action' := by
  obtain ⟨after', ha, hn⟩ := doSuspend_suspends env action' (w.extend inputs)
  have he : inputs ++ .suspend action' :: after' = before ++ .suspend action :: after := by
    have ht : (perform env c w).world.trace = w.trace ++ (inputs ++ .suspend action' :: after') := by
      rw [hp, Result.world_ok, ha]
      simp [World.extend]
    exact List.append_cancel_left (ht.symm.trans h)
  obtain ⟨hb, hs, -⟩ := Trace.split_unique (p := fun e => ∃ a, e = .suspend a) he ⟨action, rfl⟩
    (by
      rintro e hm ⟨a, heq⟩
      simpa [heq, Io.IsInput] using hin e hm)
    (by
      rintro e hm ⟨a, heq⟩
      exact hn e hm a heq)
  cases hs
  exact ⟨hb.symm, rfl⟩

-- The order in which a comes first.
def firstOrder (a : Σ _ : Fd, AgentState) (_ : List Io) (entries : List (Σ _ : Fd, AgentState)) :
    List (Σ _ : Fd, AgentState) :=
  if a ∈ entries then a :: entries.erase a else entries

theorem firstOrder_perm (a : Σ _ : Fd, AgentState) (trace : List Io)
    (entries : List (Σ _ : Fd, AgentState)) : (firstOrder a trace entries).Perm entries := by
  unfold firstOrder
  split
  · rename_i h
    exact (List.perm_cons_erase h).symm
  · exact .refl _

-- A lock precedes every sleep command, whatever the order of the agents, exactly
-- when no entry that names the active session is left over or fails to take it.
theorem lockedFirst_iff (w : World) (h : Started env w) (moves : List Move) (c : Call) :
    (∀ order hperm, LockedFirst (env.withOrder order hperm) c (run env w moves).world) ↔
      EntriesTakeLock env c (run env w moves).world := by
  have hu := run_unmarked env w h moves
  have hc := run_covered env w h moves
  generalize (run env w moves).world = s at hu hc ⊢
  constructor
  · intro hall before action after hs hreg a ha hactive
    obtain ⟨action', inputs, hsleep, hin, hp⟩ := suspends_cases env c s before action after hs
    obtain ⟨rfl, rfl⟩ := hs.inputs env hin (hp env)
    obtain ⟨cmd, hcmd, hw⟩ := hwCommand_sleep action hsleep
    -- The order that asks for this entry first.
    have hlocks := doSuspend_locks (env.withOrder (firstOrder a) (firstOrder_perm a)) action cmd
      (s.extend before) hu hw a (by simp [Env.withOrder, firstOrder, World.extend, ha]; exact .inl hactive)
    obtain ⟨fd, hfd, hsent⟩ := hall (firstOrder a) (firstOrder_perm a)
      (before ++ [.suspend action, .sent a.1 encodeLock (decide (a.1 ∈ s.conns) &&
        env.writable (s.trace ++ before ++ [.suspend action]) a.1 encodeLock)]) cmd []
      (by rw [hp, Result.world_ok, hlocks]; simp [World.extend, Env.withOrder]; rfl) hcmd hreg
    have hno : .sent fd encodeLock true ∉ before := fun hm => hin _ hm
    obtain ⟨rfl, hok⟩ : fd = a.1 ∧ (a.1 ∈ s.conns ∧
        env.writable (s.trace ++ before ++ [.suspend action]) a.1 encodeLock = true) := by
      simpa [hno] using hsent
    exact ⟨hfd, hok.2⟩
  · intro hcond order hperm before cmd after ht hcmd hreg
    rcases perform_sleeps c s with hg | ⟨action, inputs, hsleep, hin, hp⟩
    · exact absurd hcmd ((hg (env.withOrder order hperm)).all ht (.system cmd) (by simp))
    · obtain ⟨after', ha, -⟩ := doSuspend_suspends env action (s.extend inputs)
      have hs : Suspends env c s inputs action after' := by
        rw [Suspends, hp, Result.world_ok, ha]
        simp [World.extend]
      obtain ⟨fd, hfd⟩ := hreg
      obtain ⟨agent, hl, hactive⟩ := hfd.entry hc
      -- Some agent of the active session comes first, and the condition is about it.
      obtain ⟨a, hfind⟩ : ∃ a, (order (s.trace ++ inputs ++ [.suspend action]) s.agents.entries).find?
          (fun a => s.isActive a.2.sessionId) = some a := by
        refine Option.isSome_iff_exists.mp (List.find?_isSome.mpr ⟨⟨fd, agent⟩, ?_, hactive⟩)
        exact (hperm _ _).mem_iff.mpr (AList.mem_lookup_iff.mp hl)
      obtain ⟨hra, hwa⟩ := hcond inputs action after' hs ⟨fd, hfd⟩ a
        ((hperm _ _).mem_iff.mp (List.mem_of_find?_eq_some hfind))
        (by simpa using List.find?_some hfind)
      obtain ⟨cmd', -, hw⟩ := hwCommand_sleep action hsleep
      have hlocks := doSuspend_locks (env.withOrder order hperm) action cmd' (s.extend inputs) hu hw a
        hfind
      have he : inputs ++ [.suspend action, .sent a.1 encodeLock true] ++ .system cmd' :: [] =
          before ++ .system cmd :: after := by
        rw [hp, Result.world_ok, hlocks] at ht
        refine List.append_cancel_left (Eq.trans ?_ ht)
        have hsent : (decide (a.1 ∈ (s.extend inputs).conns) && (env.withOrder order hperm).writable
            ((s.extend inputs).trace ++ [.suspend action]) a.1 encodeLock) = true :=
          Bool.and_eq_true_iff.mpr ⟨decide_eq_true hra.1, hwa⟩
        rw [hsent]
        simp [World.extend]
      obtain ⟨rfl, -, -⟩ := Trace.split_unique (p := fun e => ∃ cmd, e = .system cmd) he ⟨cmd, rfl⟩
        (by
          rintro e hm ⟨_, heq⟩
          rcases List.mem_append.mp hm with hm | hm
          · exact hin _ (heq ▸ hm)
          · simp [heq] at hm) (by simp)
      exact ⟨a.1, hra, by simp⟩

end Lock

-- Two agents of session "1". The later one sends a line that is not JSON, and
-- the lid is closed.
def leftoverThenLid : List Move :=
  [accept 8, readable 8 (encodeHello (bytes "1") 1000 ++ [10]), .call,
    accept 7, readable 7 (encodeHello (bytes "1") 1000 ++ bytes "\nx\n"), .call, .call,
    .ready ⟨6, none, [], [⟨EV_SW, SW_LID, 1⟩]⟩]

theorem lockedFirst_leftover :
    ∃ w, sampleStart = .ok w ∧ (run .plain w leftoverThenLid).pending = [.button .lidClose] ∧
      ¬LockedFirst .plain (.button .lidClose) (run .plain w leftoverThenLid).world := by
  refine ⟨_, rfl, rfl, fun h => ?_⟩
  obtain ⟨fd, -, hsent⟩ := h [.button .lidClose, .suspend (bytes "suspend"), .sent 7 encodeLock false]
    (bytes "systemctl suspend") [] rfl (by decide)
    ⟨8, by decide, by decide, [_], [], rfl, [], _, rfl, rfl, rfl, by simp⟩
  simp at hsent

theorem lockedFirst_sample :
    ∃ w, sampleStart = .ok w ∧
      ((∀ order hperm, LockedFirst (Env.plain.withOrder order hperm) (.button .lidClose)
          (run .plain w leftoverThenLid).world) ↔
        EntriesTakeLock .plain (.button .lidClose) (run .plain w leftoverThenLid).world) :=
  ⟨_, rfl, lockedFirst_iff .plain _ (sample_started rfl) leftoverThenLid (.button .lidClose)⟩

end Draind.Daemon
