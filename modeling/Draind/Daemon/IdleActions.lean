import Draind.Daemon.AgentTable

namespace Draind.Daemon

open Json Proto

-- The line about to be handled decodes.
def Decodes (s : State) : Move → Prop
  | .call =>
      match s.pending with
      | .line _ line :: _ => ∃ msg, decode line = .ok msg
      | _ => True
  | _ => True

-- A pending line belongs to an open connection, and all that is pending with it
-- are lines of this connection.
def Queued (s : State) : Prop :=
  ∀ fd line, .line fd line ∈ s.pending →
    fd ∈ s.world.conns ∧ ∀ c ∈ s.pending, ∃ other, c = .line fd other

-- What may be said of fd when the screen is dimmed, or the machine put to sleep,
-- because of a message from it.
structure IdleSafe (fd : Fd) (w : World) : Prop where
  isOpen : fd ∈ w.conns
  active : w.activeSessionId ≠ []
  session : ∃ messages since, received w.trace fd = some messages ∧
    LatestHello messages w.activeSessionId since
  uninhibited : ∀ other ∈ w.conns, ∀ messages sessionId since,
    received w.trace other = some messages → LatestHello messages sessionId since →
      ∀ reason, ¬Held since reason

def Io.IsIdleAction : Io → Prop
  | .dim | .suspend _ => True
  | _ => False

theorem Io.IsRoutine.not_isIdleAction (e : Io) (h : e.IsRoutine) : ¬e.IsIdleAction := by
  cases e <;> first | exact id | exact absurd h id

theorem Io.IsUndim.not_isIdleAction (e : Io) (h : e.IsUndim) : ¬e.IsIdleAction := by
  cases e <;> first | exact id | exact absurd h id

theorem feed_lines_of_false (buf : Sock.LineBuffer) (reads : List Sock.ReadResult)
    (h : (buf.feed reads).1 = false) : (buf.feed reads).2.2 = [] := by
  unfold Sock.LineBuffer.feed at h ⊢
  dsimp only at h ⊢
  split at h
  · cases h
  · rename_i hn
    rw [if_neg hn]

section Runs

variable (env : Env)

theorem step_queued (s : State) (move : Move) (h : Queued s) (hd : Decodes s move) :
    Queued (step env s move) := by
  have hstep := step_stepped env s move
  generalize step env s move = s' at hstep ⊢
  cases hstep with
  | idle => exact h
  | signal => exact fun fd line hl => absurd hl List.not_mem_nil
  | accept => exact fun fd line hl => absurd hl List.not_mem_nil
  | outside => exact h
  | input r _ _ =>
      intro fd line hl
      obtain ⟨e, -, he⟩ := List.mem_map.mp hl
      cases he
  | feed r c _ _ hc =>
      have hm : r.fd ∈ s.world.conns := AList.lookup_isSome.mp (by simp [hc])
      intro fd line hl
      cases hf : (c.buf.feed r.reads).1 with
      | false =>
          have hn := feed_lines_of_false c.buf r.reads hf
          simp [hf, hn] at hl
      | true =>
          simp only [hf, if_true, List.append_nil, List.mem_map] at hl ⊢
          obtain ⟨_, -, he⟩ := hl
          cases he
          refine ⟨by simp, ?_⟩
          rintro _ ⟨other, -, rfl⟩
          exact ⟨other, rfl⟩
  | call c rest hp _ =>
      intro fd line hl
      obtain ⟨hopen, hall⟩ := h fd line (by simp [hp, hl])
      refine ⟨?_, fun c' hc' => hall c' (by simp [hp, hc'])⟩
      -- The call just made was for a line of the same connection.
      obtain ⟨other, rfl⟩ := hall c (by simp [hp])
      simp only [Decodes, hp] at hd
      obtain ⟨msg, hd⟩ := hd
      rw [Result.settle_conns, (perform_message env fd other msg s.world hd).conns]
      exact hopen

-- Where every line decodes nothing is left over in the table.
theorem noLeftover_of_decodes (s : State) (move : Move) (h : Queued s) (hd : Decodes s move) :
    NoLeftover s move := by
  cases move with
  | signal => trivial
  | ready => trivial
  | outside => trivial
  | call =>
      obtain ⟨w, pending⟩ := s
      cases pending with
      | nil => trivial
      | cons c rest =>
          cases c with
          | hangUp => trivial
          | button => trivial
          | line fd line =>
              obtain ⟨msg, hd⟩ : ∃ msg, decode line = .ok msg := hd
              intro _
              rw [hd]
              exact fun _ => (h fd line (by simp)).1

theorem run_queued (w : World) (h : Started env w) (moves : List Move)
    (hm : Run.Meets (step env) Decodes ⟨w, []⟩ moves) :
    Opened (run env w moves).world ∧ Exact (run env w moves).world ∧ Queued (run env w moves) := by
  refine Run.invariant (step env)
    (fun s => Opened s.world ∧ Exact s.world ∧ Queued s) ?_ ?_ hm
  · rintro s move ⟨ho, he, hq⟩ hd
    exact ⟨step_opened env s move ho,
      step_exact env s move ho he (noLeftover_of_decodes s move hq hd), step_queued env s move hq hd⟩
  · exact ⟨started_opened env w h, started_exact env w h,
      fun fd line hl => absurd hl List.not_mem_nil⟩

end Runs

section Actions

variable (env : Env)

-- Either nothing was dimmed or suspended, or the two guards held.
def Guarded (fd : Fd) (w w' : World) : Prop :=
  Trace.Grows (fun e => ¬e.IsIdleAction) w.trace w'.trace ∨
    (isActiveAgent fd w' = true ∧ hasAnyInhibit w' = false)

theorem isActiveAgent_congr (fd : Fd) {w w' : World} (ha : w'.agents = w.agents)
    (hs : w'.activeSessionId = w.activeSessionId) : isActiveAgent fd w' = isActiveAgent fd w := by
  simp only [isActiveAgent, World.isActive, ha, hs]

theorem hasAnyInhibit_congr {w w' : World} (ha : w'.agents = w.agents) :
    hasAnyInhibit w' = hasAnyInhibit w := by
  simp only [hasAnyInhibit, ha]

theorem Guarded.of_report {fd : Fd} {w w' : World} (r : Report)
    (h : w' = w.emit (.report fd r)) : Guarded fd w w' := by
  subst h
  exact .inl (.single _ id)

theorem onIdleDim_guarded (fd : Fd) (w : World) : Guarded fd w (onIdleDim env fd w).world := by
  have hk := onIdleDim_tables env fd w
  by_cases ha : isActiveAgent fd (w.emit (.report fd .idleDim)) = true
  · cases hi : hasAnyInhibit (w.emit (.report fd .idleDim)) with
    | true => exact .of_report .idleDim (by simp [onIdleDim, ha, hi])
    | false =>
        exact .inr ⟨by rw [isActiveAgent_congr fd hk.agents hk.session, ha],
          by rw [hasAnyInhibit_congr hk.agents, hi]⟩
  · exact .of_report .idleDim (by simp [onIdleDim, ha])

theorem onIdleSleep_guarded (fd : Fd) (w : World) : Guarded fd w (onIdleSleep env fd w) := by
  have hk := (onIdleSleep_emits env fd w).keeps
  by_cases ha : isActiveAgent fd (w.emit (.report fd .idleSleep)) = true
  · cases hi : hasAnyInhibit (w.emit (.report fd .idleSleep)) with
    | true => exact .of_report .idleSleep (by simp [onIdleSleep, ha, hi])
    | false =>
        exact .inr ⟨by rw [isActiveAgent_congr fd hk.agents hk.session, ha],
          by rw [hasAnyInhibit_congr hk.agents, hi]⟩
  · exact .of_report .idleSleep (by simp [onIdleSleep, ha])

theorem onActive_guarded (fd : Fd) (w : World) : Guarded fd w (onActive env fd w).world := by
  exact .inl ((grows_emit w (.report fd .active) id).trans
    ((onActive_tables env fd w).grows.mono Io.IsUndim.not_isIdleAction))

theorem onMessage_guarded (fd : Fd) (msg : Value) (w : World) :
    Guarded fd w (onMessage env fd msg w).world := by
  rcases onMessage_cases fd msg w with ⟨hq, -⟩ | ⟨-, -, hon⟩ | ⟨-, -, hon⟩ | ⟨-, -, hon⟩
  · exact .inl ((hq env).grows.mono Io.IsRoutine.not_isIdleAction)
  · rw [hon]
    exact onIdleDim_guarded env fd w
  · rw [hon]
    exact onIdleSleep_guarded env fd w
  · rw [hon]
    exact onActive_guarded env fd w

-- The guards of the idle handlers, read off a table that is right.
theorem idleSafe_of_agentTable (fd : Fd) (w : World) (h : AgentTable w)
    (ha : isActiveAgent fd w = true) (hi : hasAnyInhibit w = false) : IdleSafe fd w := by
  unfold isActiveAgent at ha
  cases hl : w.agents.lookup fd with
  | none => simp [hl] at ha
  | some agent =>
      obtain ⟨hne, hs⟩ : agent.sessionId ≠ [] ∧ agent.sessionId = w.activeSessionId := by
        simpa [hl, World.isActive] using ha
      obtain ⟨messages, since, hr, hlatest, -⟩ := h.2 fd agent hl
      refine ⟨((h.1 fd).mp (AList.lookup_isSome.mp (by simp [hl]))).1, hs ▸ hne,
        ⟨messages, since, hr, hs ▸ hlatest⟩, ?_⟩
      intro other hopen messages' sessionId since' hr' hlatest' reason hheld
      have hmem : other ∈ w.agents := by
        obtain ⟨before, hello, he, ht, -⟩ := hlatest'
        exact (h.1 other).mpr ⟨hopen, messages', hr', hello, by simp [he], ht⟩
      obtain ⟨entry, hentry⟩ := Option.isSome_iff_exists.mp (AList.lookup_isSome.mpr hmem)
      obtain ⟨messages'', since'', hr'', hlatest'', hheld''⟩ := h.2 other entry hentry
      cases hr'.symm.trans hr''
      have hin : reason ∈ entry.inhibits :=
        (hheld'' reason).mpr ((latestHello_unique hlatest' hlatest'').2 ▸ hheld)
      have hany : hasAnyInhibit w = true :=
        List.any_eq_true.mpr ⟨⟨other, entry⟩, (AList.mem_lookup_iff).mp hentry,
          decide_eq_true (List.ne_nil_of_mem hin)⟩
      rw [hi] at hany
      cases hany

-- Whatever the clients send, a message makes the daemon dim or suspend only when
-- its sender is an open agent of the active session and nobody inhibits it.
theorem idleAction_safe (w : World) (h : Started env w) (moves : List Move)
    (hm : Run.Meets (step env) Decodes ⟨w, []⟩ (moves ++ [.call])) (fd : Fd) (line : Bytes)
    (rest : List Call) (hp : (run env w moves).pending = .line fd line :: rest) (out : List Io)
    (ho : (run env w (moves ++ [.call])).world.trace = (run env w moves).world.trace ++ out)
    (ha : ∃ e ∈ out, e.IsIdleAction) : IdleSafe fd (run env w (moves ++ [.call])).world := by
  obtain ⟨hopened, hexact, -⟩ := run_queued env w h _ hm
  have htable := agentTable_of_exact _ hopened hexact
  obtain ⟨-, hd, -⟩ := (Run.meets_append (step env) Decodes _ moves [.call]).mp hm
  simp only [run, Run.exec_append, Run.exec_cons, Run.exec_nil] at ho hp htable ⊢
  generalize Run.exec (step env) ⟨w, []⟩ moves = s at ho hp hd htable ⊢
  obtain ⟨msg, hd⟩ : ∃ msg, decode line = .ok msg := by simpa only [Decodes, hp] using hd
  cases he : s.world.exited with
  | true =>
      -- The process has ended and makes no calls.
      simp [step, hp, he] at ho
      simp [ho] at ha
  | false =>
      have hstep : (step env s .call).world = (perform env (.line fd line) s.world).settle := by
        simp [step, hp, he]
      rw [hstep] at ho htable ⊢
      have hg : Guarded fd (s.world.emit (.line fd line)) (perform env (.line fd line) s.world).world := by
        simpa [perform, onLine, hd] using onMessage_guarded env fd msg (s.world.emit (.line fd line))
      rcases hg with hg | ⟨hactive, hinhibit⟩
      · have hnone := (Trace.Grows.single s.world.trace (e := .line fd line) id).trans hg
        rw [Result.settle_trace] at ho
        obtain ⟨e, he, hact⟩ := ha
        exact absurd hact (hnone.all ho e he)
      · refine idleSafe_of_agentTable fd _ htable ?_ ?_
        · rw [isActiveAgent_congr fd (Result.settle_agents _) (Result.settle_session _), hactive]
        · rw [hasAnyInhibit_congr (Result.settle_agents _), hinhibit]

end Actions

-- An agent of session "1" says hello and reports idle_dim.
def helloThenIdle : List Move :=
  [accept 7, readable 7 (encodeHello (bytes "1") 1000 ++ [10] ++ encodeIdleDim ++ [10]), .call]

theorem idleAction_safe_sample :
    ∃ w, sampleStart = .ok w ∧ IdleSafe 7 (run .plain w (helloThenIdle ++ [.call])).world :=
  ⟨_, rfl, idleAction_safe .plain _ (sample_started rfl) helloThenIdle
    ⟨trivial, trivial, ⟨_, rfl⟩, ⟨_, rfl⟩, trivial⟩ 7 encodeIdleDim [] rfl
    [.line 7 encodeIdleDim, .report 7 .idleDim, .dim, .brightness 20 true] rfl
    ⟨.dim, by decide, trivial⟩⟩

end Draind.Daemon
