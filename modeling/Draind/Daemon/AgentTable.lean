import Draind.Daemon.Steps

namespace Draind.Daemon

open Json Proto

-- The keys of agents are the open connections that have said hello. Each entry
-- holds what the latest hello and the inhibits and uninhibits since it say.
def AgentTable (w : World) : Prop :=
  (∀ fd, fd ∈ w.agents ↔ fd ∈ w.conns ∧
    ∃ messages, received w.trace fd = some messages ∧ ∃ msg ∈ messages, msgType msg = T_HELLO) ∧
  ∀ fd agent, w.agents.lookup fd = some agent →
    ∃ messages since, received w.trace fd = some messages ∧
      LatestHello messages agent.sessionId since ∧
      ∀ reason, reason ∈ agent.inhibits ↔ Held since reason

-- The connections open in the table are those open in the trace.
def Opened (w : World) : Prop :=
  ∀ fd, fd ∈ w.conns ↔ received w.trace fd ≠ none

-- Every entry belongs to the connection that is open on its descriptor.
def Exact (w : World) : Prop :=
  ∀ fd, w.agents.lookup fd = (received w.trace fd).bind registration

-- No registered connection sends a line that does not decode, and no hello is
-- handled for a connection that such a line has closed.
def NoLeftover (s : State) : Move → Prop
  | .call =>
      match s.pending with
      | .line fd line :: _ =>
          s.world.exited = false →
            match decode line with
            | .error _ => fd ∉ s.world.agents
            | .ok msg => msgType msg = T_HELLO → fd ∈ s.world.conns
      | _ => True
  | _ => True

section Calls

variable (env : Env)

theorem perform_malformed (fd : Fd) (line : Bytes) (e : Exn) (w : World)
    (hd : decode line = .error e) :
    (perform env (.line fd line) w).settle = closeClient fd (w.emit (.line fd line)) := by
  simp [perform, onLine, hd]

theorem received_accept (fd : Fd) (w : World) :
    received (acceptClient fd w).trace = Function.update (received w.trace) fd (some []) := by
  simp [acceptClient, World.emit, receivedStep]

theorem received_malformed (fd : Fd) (line : Bytes) (e : Exn) (w : World)
    (hd : decode line = .error e) :
    received (closeClient fd (w.emit (.line fd line))).trace =
      Function.update (received w.trace) fd none := by
  simp only [closeClient, World.emit, received_append, receivedStep, hd]

theorem perform_message (fd : Fd) (line : Bytes) (msg : Value) (w : World)
    (hd : decode line = .ok msg) :
    Heard fd msg (w.emit (.line fd line)) (perform env (.line fd line) w).world := by
  have h := onMessage_heard env fd msg (w.emit (.line fd line))
  simpa [perform, onLine, hd] using h

theorem received_message (fd : Fd) (line : Bytes) (msg : Value) (w : World)
    (hd : decode line = .ok msg) :
    received (perform env (.line fd line) w).settle.trace =
      Function.update (received w.trace) fd ((received w.trace fd).map (· ++ [msg])) := by
  rw [Result.settle_trace, received_of_grows (perform_message env fd line msg w hd).grows]
  simp [World.emit, receivedStep, hd]

theorem received_hangUp (fd : Fd) (w : World) :
    received (closeClient fd (onDisconnect fd w)).trace = Function.update (received w.trace) fd none := by
  simp only [closeClient, onDisconnect, World.emit, received_append, receivedStep]

theorem received_button (e : HwEvent) (w : World) :
    received (onEvent env e w).trace = received w.trace := by
  rw [received_of_grows ((onEvent_emits env e w).keeps.grows.mono fun _ he => .inl (.inr (.inr he)))]
  simp [World.emit, receivedStep]

-- A call leaves the other connections, and what they have received, alone.
theorem perform_other (c : Call) (fd : Fd) (w : World) (hh : c ≠ .hangUp fd)
    (hl : ∀ line, c ≠ .line fd line) :
    received (perform env c w).settle.trace fd = received w.trace fd ∧
      (perform env c w).settle.conns.lookup fd = w.conns.lookup fd := by
  cases c with
  | button e =>
      simp only [perform, Result.settle_ok]
      exact ⟨by rw [received_button], by rw [(onEvent_emits env e w).keeps.conns, World.emit_conns]⟩
  | hangUp other =>
      have hne : fd ≠ other := fun he => hh (he ▸ rfl)
      exact ⟨(congrFun (received_hangUp other w) fd).trans (Function.update_of_ne hne _ _),
        AList.lookup_erase_ne hne⟩
  | line other line =>
      have hne : fd ≠ other := fun he => hl line (he ▸ rfl)
      cases hd : decode line with
      | error e =>
          rw [perform_malformed env other line e w hd]
          exact ⟨by rw [received_malformed other line e w hd, Function.update_of_ne hne],
            AList.lookup_erase_ne hne⟩
      | ok msg =>
          refine ⟨by rw [received_message env other line msg w hd, Function.update_of_ne hne], ?_⟩
          rw [Result.settle_conns, (perform_message env other line msg w hd).conns, World.emit_conns]

-- A call opens no connection and touches no buffer. It may close one.
theorem perform_conns (c : Call) (w : World) {fd : Fd} {conn : Connection}
    (h : (perform env c w).settle.conns.lookup fd = some conn) :
    w.conns.lookup fd = some conn ∧ c ≠ .hangUp fd := by
  cases c with
  | button e =>
      simp only [perform, Result.settle_ok] at h
      rw [(onEvent_emits env e w).keeps.conns] at h
      exact ⟨h, by simp⟩
  | hangUp other =>
      by_cases ho : fd = other
      · subst ho
        simp [perform, closeClient, onDisconnect] at h
      · exact ⟨by simpa [perform, closeClient, onDisconnect, ho] using h, by simp [Ne.symm ho]⟩
  | line other line =>
      refine ⟨?_, by simp⟩
      cases hd : decode line with
      | error e =>
          rw [perform_malformed env other line e w hd] at h
          by_cases ho : fd = other
          · subst ho
            simp [closeClient] at h
          · simpa [closeClient, ho] using h
      | ok msg =>
          rw [Result.settle_conns, (perform_message env other line msg w hd).conns] at h
          exact h

end Calls

section Tables

variable (env : Env)

theorem Opened.update {w w' : World} {fd : Fd} {messages : Option (List Value)} (h : Opened w)
    (hr : received w'.trace = Function.update (received w.trace) fd messages)
    (hfd : fd ∈ w'.conns ↔ messages ≠ none)
    (hc : ∀ other, other ≠ fd → (other ∈ w'.conns ↔ other ∈ w.conns)) : Opened w' := by
  intro other
  rw [hr]
  by_cases ho : other = fd
  · subst ho
    simpa using hfd
  · simpa [ho, hc other ho] using h other

theorem step_opened (s : State) (move : Move) (h : Opened s.world) :
    Opened (step env s move).world := by
  have hstep := step_stepped env s move
  generalize step env s move = s' at hstep ⊢
  cases hstep with
  | idle => exact h
  | signal m _ _ =>
      have hs := handleSeatProperties_seated m s.world
      intro fd
      rw [hs.conns, hs.received]
      exact h fd
  | accept r fd _ _ hf =>
      refine h.update (received_accept fd s.world) ?_ ?_
      · simp [acceptClient, World.emit, hf.1]
      · intro other ho
        simp [acceptClient, World.emit, hf.1, ho]
  | feed r c _ _ hc =>
      intro fd
      have hm : r.fd ∈ s.world.conns := AList.lookup_isSome.mp (by simp [hc])
      rw [← h fd, AList.mem_insert]
      exact ⟨fun ho => ho.elim (fun he => he ▸ hm) id, .inr⟩
  | input => exact h
  | outside => exact h
  | call c rest _ _ =>
      cases c with
      | line fd line =>
          cases hd : decode line with
          | error e =>
              rw [perform_malformed env fd line e _ hd]
              refine h.update (received_malformed fd line e _ hd) ?_ fun other ho => ?_
              · simp [closeClient, World.emit, AList.mem_erase]
              · simp [closeClient, World.emit, AList.mem_erase, ho]
          | ok msg =>
              have hh := perform_message env fd line msg s.world hd
              refine h.update (received_message env fd line msg _ hd) ?_ fun other ho => ?_
              · rw [Result.settle_conns, hh.conns]
                simpa using h fd
              · rw [Result.settle_conns, hh.conns]
                rfl
      | hangUp fd =>
          refine h.update (received_hangUp fd _) ?_ fun other ho => ?_
          · simp [perform, closeClient, World.emit, AList.mem_erase]
          · simp [perform, closeClient, onDisconnect, World.emit, AList.mem_erase, ho]
      | button e =>
          intro fd
          simp only [perform, Result.settle_ok]
          rw [received_button, (onEvent_emits env e s.world).keeps.conns]
          exact h fd

theorem Exact.update {w w' : World} {fd : Fd} {messages : Option (List Value)} (h : Exact w)
    (hr : received w'.trace = Function.update (received w.trace) fd messages)
    (hfd : w'.agents.lookup fd = messages.bind registration)
    (ha : ∀ other, other ≠ fd → w'.agents.lookup other = w.agents.lookup other) : Exact w' := by
  intro other
  rw [hr]
  by_cases ho : other = fd
  · subst ho
    simpa using hfd
  · simpa [ho, ha other ho] using h other

-- The entry of fd after a message, from what has been received.
theorem hear_received (agent : Option AgentState) (messages : Option (List Value)) (msg : Value)
    (ha : agent = messages.bind registration) (hm : msgType msg = T_HELLO → messages ≠ none) :
    hear agent msg = (messages.map (· ++ [msg])).bind registration := by
  subst ha
  cases messages with
  | some messages => simp
  | none => exact hear_none msg fun h => hm h rfl

theorem step_exact (s : State) (move : Move) (ho : Opened s.world) (h : Exact s.world)
    (hm : NoLeftover s move) : Exact (step env s move).world := by
  have hstep := step_stepped env s move
  generalize step env s move = s' at hstep ⊢
  cases hstep with
  | idle => exact h
  | signal m _ _ =>
      have hs := handleSeatProperties_seated m s.world
      intro fd
      rw [hs.agents, hs.received]
      exact h fd
  | accept r fd _ _ hf =>
      refine h.update (received_accept fd s.world) ?_ fun other _ => rfl
      have hn : received s.world.trace fd = none := not_not.mp (mt (ho fd).mpr hf.1)
      simpa [acceptClient, World.emit, registration, hn] using h fd
  | feed r c _ _ hc => exact h
  | input => exact h
  | outside => exact h
  | call c rest hp he =>
      cases c with
      | line fd line =>
          have hm' := hm
          simp only [NoLeftover, hp, he, true_implies] at hm'
          cases hd : decode line with
          | error e =>
              rw [hd] at hm'
              rw [perform_malformed env fd line e _ hd]
              exact h.update (received_malformed fd line e _ hd) (AList.lookup_eq_none.mpr hm')
                fun other _ => rfl
          | ok msg =>
              rw [hd] at hm'
              have hh := perform_message env fd line msg s.world hd
              refine h.update (received_message env fd line msg _ hd) ?_ fun other hne => ?_
              · rw [Result.settle_agents, hh.lookup, if_pos rfl]
                exact hear_received _ _ msg (h fd) fun ht => (ho fd).mp (hm' ht)
              · rw [Result.settle_agents, hh.lookup, if_neg hne]
                rfl
      | hangUp fd =>
          refine h.update (received_hangUp fd _) ?_ fun other hne => ?_
          · simp [perform, closeClient, onDisconnect, World.emit]
          · simp [perform, closeClient, onDisconnect, World.emit, hne]
      | button e =>
          intro fd
          simp only [perform, Result.settle_ok]
          rw [received_button, (onEvent_emits env e s.world).keeps.agents]
          exact h fd

theorem agentTable_of_exact (w : World) (ho : Opened w) (h : Exact w) : AgentTable w := by
  refine ⟨fun fd => ?_, fun fd agent ha => ?_⟩
  · rw [ho fd, ← AList.lookup_isSome, h fd]
    cases received w.trace fd with
    | none => simp
    | some messages =>
        have hr := not_congr (registration_eq_none_iff messages)
        simpa [← Option.isSome_iff_ne_none] using hr
  · rw [h fd] at ha
    obtain ⟨messages, hr, ha⟩ := Option.bind_eq_some_iff.mp ha
    obtain ⟨since, hl, hi⟩ := registration_spec messages agent ha
    exact ⟨messages, since, hr, hl, hi⟩

-- A move that breaks the condition leaves an entry without a connection.
theorem noLeftover_of_agentTable (s : State) (move : Move) (ho : Opened s.world)
    (h : AgentTable (step env s move).world) : NoLeftover s move := by
  cases move with
  | signal => trivial
  | ready => trivial
  | outside => trivial
  | call =>
      obtain ⟨w, pending⟩ := s
      cases pending with
      | nil => trivial
      | cons c rest =>
          cases c with
          | hangUp => trivial
          | button => trivial
          | line fd line =>
              intro he
              replace he : w.exited = false := he
              have hstep : (step env ⟨w, .line fd line :: rest⟩ .call).world =
                  (perform env (.line fd line) w).settle := by
                simp [step, he]
              rw [hstep] at h
              cases hd : decode line with
              | error e =>
                  rw [perform_malformed env fd line e w hd] at h
                  intro ha
                  have hc := ((h.1 fd).mp ha).1
                  simp [closeClient, World.emit, AList.mem_erase] at hc
              | ok msg =>
                  intro ht
                  have hh := perform_message env fd line msg w hd
                  have ha : fd ∈ (perform env (.line fd line) w).settle.agents := by
                    rw [Result.settle_agents, ← AList.lookup_isSome, hh.lookup, if_pos rfl,
                      hear_hello _ _ ht]
                    rfl
                  have hc := ((h.1 fd).mp ha).1
                  rwa [Result.settle_conns, hh.conns] at hc

theorem started_opened (w : World) (h : Started env w) : Opened w := by
  intro fd
  rw [started_received env w h, (started_spec env w h).1]
  simp

theorem started_exact (w : World) (h : Started env w) : Exact w := by
  intro fd
  rw [started_received env w h, (started_spec env w h).2.1]
  rfl

-- The table is right in every state of a run exactly when no move of the run
-- leaves an entry over from a connection that a malformed line has closed.
theorem agentTable_throughout_iff (w : World) (h : Started env w) (moves : List Move) :
    Run.Throughout (step env) (fun s => AgentTable s.world) ⟨w, []⟩ moves ↔
      Run.Meets (step env) NoLeftover ⟨w, []⟩ moves :=
  Run.throughout_iff_meets_of_invariant (step env)
    (fun s => Opened s.world ∧ Exact s.world)
    (fun s move hs hm => ⟨step_opened env s move hs.1, step_exact env s move hs.1 hs.2 hm⟩)
    (fun s hs => agentTable_of_exact s.world hs.1 hs.2)
    (fun s move hs ht => noLeftover_of_agentTable env s move hs.1 ht)
    moves ⟨started_opened env w h, started_exact env w h⟩

end Tables

-- An agent of session "1" says hello, then sends a line that is not JSON.
def malformedAfterHello : List Move :=
  [accept 7, readable 7 (encodeHello (bytes "1") 1000 ++ bytes "\nx\n"), .call, .call]

theorem agentTable_leftover :
    ∃ w, sampleStart = .ok w ∧ ¬AgentTable (run .plain w malformedAfterHello).world :=
  ⟨_, rfl, fun h => absurd ((h.1 7).mp (by decide)).1 (by decide)⟩

theorem agentTable_sample :
    ∃ w, sampleStart = .ok w ∧
      (Run.Throughout (step .plain) (fun s => AgentTable s.world) ⟨w, []⟩ malformedAfterHello ↔
        Run.Meets (step .plain) NoLeftover ⟨w, []⟩ malformedAfterHello) :=
  ⟨_, rfl, agentTable_throughout_iff .plain _ (sample_started rfl) _⟩

end Draind.Daemon
