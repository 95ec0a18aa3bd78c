import Draind.Daemon.Frame

namespace Draind.Daemon

open Json Proto

-- What one event does to the messages received on each connection. A message
-- counts for the connection that is open on the descriptor, if one is.
def receivedStep (h : Fd → Option (List Value)) : Io → Fd → Option (List Value)
  | .accepted fd => Function.update h fd (some [])
  | .line fd line =>
      match decode line with
      | .ok msg => Function.update h fd ((h fd).map (· ++ [msg]))
      | .error _ => h
  | .close fd => Function.update h fd none
  | _ => h

-- The messages received on the connection open on fd, since it was accepted.
def received (trace : List Io) : Fd → Option (List Value) :=
  trace.foldl receivedStep fun _ => none

-- The latest hello among the messages gives this session, and these came after it.
def LatestHello (messages : List Value) (sessionId : Bytes) (since : List Value) : Prop :=
  ∃ before hello, messages = before ++ hello :: since ∧ msgType hello = T_HELLO ∧
    hello.str (bytes "session_id") [] = sessionId ∧ ∀ msg ∈ since, msgType msg ≠ T_HELLO

-- The reason was given in an inhibit that no uninhibit with this reason follows.
def Held (messages : List Value) (reason : Bytes) : Prop :=
  ∃ before inhibit after, messages = before ++ inhibit :: after ∧ msgType inhibit = T_INHIBIT ∧
    inhibit.str (bytes "reason") [] = reason ∧
    ∀ msg ∈ after, ¬(msgType msg = T_UNINHIBIT ∧ msg.str (bytes "reason") [] = reason)

-- What the handlers make of one message of a connection.
def introduce (msg : Value) : AgentState where
  sessionId := msg.str (bytes "session_id") []
  uid := (msg.num (bytes "uid") 0).toUInt64.toUInt32
  inhibits := []

def hear (agent : Option AgentState) (msg : Value) : Option AgentState :=
  let reason := msg.str (bytes "reason") []
  if msgType msg = T_HELLO then some (introduce msg)
  else if msgType msg = T_INHIBIT then
    agent.map fun a => { a with inhibits := SortedSet.insert reason a.inhibits }
  else if msgType msg = T_UNINHIBIT then
    agent.map fun a => { a with inhibits := SortedSet.erase reason a.inhibits }
  else agent

def registration (messages : List Value) : Option AgentState :=
  messages.foldl hear none

@[simp]
theorem received_append (trace : List Io) (e : Io) :
    received (trace ++ [e]) = receivedStep (received trace) e := by
  simp [received]

@[simp]
theorem registration_append (messages : List Value) (msg : Value) :
    registration (messages ++ [msg]) = hear (registration messages) msg := by
  simp [registration]

theorem hear_hello (agent : Option AgentState) (msg : Value) (h : msgType msg = T_HELLO) :
    hear agent msg = some (introduce msg) := by
  simp [hear, h]

theorem hear_none (msg : Value) (h : msgType msg ≠ T_HELLO) : hear none msg = none := by
  unfold hear
  simp [h]

theorem hear_inhibit (agent : Option AgentState) (msg : Value) (h : msgType msg = T_INHIBIT) :
    hear agent msg = agent.map fun a =>
      { a with inhibits := SortedSet.insert (msg.str (bytes "reason") []) a.inhibits } := by
  have hh : T_INHIBIT ≠ T_HELLO := by decide
  simp [hear, h, hh]

theorem hear_uninhibit (agent : Option AgentState) (msg : Value) (h : msgType msg = T_UNINHIBIT) :
    hear agent msg = agent.map fun a =>
      { a with inhibits := SortedSet.erase (msg.str (bytes "reason") []) a.inhibits } := by
  have hh : T_UNINHIBIT ≠ T_HELLO := by decide
  have hi : T_UNINHIBIT ≠ T_INHIBIT := by decide
  simp [hear, h, hh, hi]

theorem hear_other (agent : Option AgentState) (msg : Value) (hh : msgType msg ≠ T_HELLO)
    (hi : msgType msg ≠ T_INHIBIT) (hu : msgType msg ≠ T_UNINHIBIT) : hear agent msg = agent := by
  simp [hear, hh, hi, hu]

theorem held_append (messages : List Value) (msg : Value) (reason : Bytes) :
    Held (messages ++ [msg]) reason ↔
      (msgType msg = T_INHIBIT ∧ msg.str (bytes "reason") [] = reason) ∨
      (Held messages reason ∧ ¬(msgType msg = T_UNINHIBIT ∧ msg.str (bytes "reason") [] = reason)) := by
  constructor
  · rintro ⟨before, inhibit, after, he, ht, hr, ha⟩
    cases after using List.reverseRecOn with
    | nil =>
        obtain ⟨rfl, hm⟩ := List.append_inj' he rfl
        cases hm
        exact .inl ⟨ht, hr⟩
    | append_singleton after last =>
        rw [← List.cons_append, ← List.append_assoc] at he
        obtain ⟨rfl, hm⟩ := List.append_inj' he rfl
        cases hm
        exact .inr ⟨⟨before, inhibit, after, rfl, ht, hr, fun m hm => ha m (by simp [hm])⟩,
          ha msg (by simp)⟩
  · rintro (⟨ht, hr⟩ | ⟨⟨before, inhibit, after, rfl, ht, hr, ha⟩, hn⟩)
    · exact ⟨messages, msg, [], rfl, ht, hr, by simp⟩
    · refine ⟨before, inhibit, after ++ [msg], by simp, ht, hr, ?_⟩
      intro m hm
      rcases List.mem_append.mp hm with hm | hm
      · exact ha m hm
      · rw [List.mem_singleton.mp hm]
        exact hn

theorem latestHello_append (messages : List Value) (msg : Value) (sessionId : Bytes)
    (since : List Value) (h : LatestHello messages sessionId since) (hm : msgType msg ≠ T_HELLO) :
    LatestHello (messages ++ [msg]) sessionId (since ++ [msg]) := by
  obtain ⟨before, hello, rfl, ht, hs, hall⟩ := h
  refine ⟨before, hello, by simp, ht, hs, ?_⟩
  intro m hmem
  rcases List.mem_append.mp hmem with hmem | hmem
  · exact hall m hmem
  · rw [List.mem_singleton.mp hmem]
    exact hm

theorem latestHello_unique {messages since since' : List Value} {sessionId sessionId' : Bytes}
    (h : LatestHello messages sessionId since) (h' : LatestHello messages sessionId' since') :
    sessionId = sessionId' ∧ since = since' := by
  obtain ⟨before, hello, he, ht, rfl, hall⟩ := h
  obtain ⟨before', hello', he', ht', rfl, hall'⟩ := h'
  obtain ⟨-, rfl, rfl⟩ := Trace.split_last_unique (p := fun msg => msgType msg = T_HELLO)
    (he.symm.trans he') ht ht' hall hall'
  exact ⟨rfl, rfl⟩

theorem registration_eq_none_iff (messages : List Value) :
    registration messages = none ↔ ∀ msg ∈ messages, msgType msg ≠ T_HELLO := by
  induction messages using List.reverseRecOn with
  | nil => simp [registration]
  | append_singleton messages msg ih =>
      rw [registration_append]
      by_cases hh : msgType msg = T_HELLO
      · simp [hear_hello _ _ hh, hh]
      · have hn : hear (registration messages) msg = none ↔ registration messages = none := by
          by_cases hi : msgType msg = T_INHIBIT
          · simp [hear_inhibit _ _ hi]
          by_cases hu : msgType msg = T_UNINHIBIT
          · simp [hear_uninhibit _ _ hu]
          rw [hear_other _ _ hh hi hu]
        rw [hn, ih]
        simp only [List.forall_mem_append, List.forall_mem_singleton]
        exact ⟨fun h => ⟨h, hh⟩, And.left⟩

-- The entry the handlers build is the one the messages describe.
theorem registration_spec (messages : List Value) (agent : AgentState)
    (h : registration messages = some agent) :
    ∃ since, LatestHello messages agent.sessionId since ∧
      ∀ reason, reason ∈ agent.inhibits ↔ Held since reason := by
  induction messages using List.reverseRecOn generalizing agent with
  | nil => cases h
  | append_singleton messages msg ih =>
      rw [registration_append] at h
      by_cases hh : msgType msg = T_HELLO
      · rw [hear_hello _ _ hh] at h
        cases h
        refine ⟨[], ⟨messages, msg, rfl, hh, rfl, by simp⟩, fun reason => ?_⟩
        simp [introduce, Held]
      by_cases hi : msgType msg = T_INHIBIT
      · rw [hear_inhibit _ _ hi] at h
        obtain ⟨old, hold, rfl⟩ := Option.map_eq_some_iff.mp h
        obtain ⟨since, hl, hr⟩ := ih old hold
        refine ⟨since ++ [msg], latestHello_append _ _ _ _ hl hh, fun reason => ?_⟩
        have hiu : T_INHIBIT ≠ T_UNINHIBIT := by decide
        simp [held_append, hi, hiu, hr, eq_comm]
      by_cases hu : msgType msg = T_UNINHIBIT
      · rw [hear_uninhibit _ _ hu] at h
        obtain ⟨old, hold, rfl⟩ := Option.map_eq_some_iff.mp h
        obtain ⟨since, hl, hr⟩ := ih old hold
        refine ⟨since ++ [msg], latestHello_append _ _ _ _ hl hh, fun reason => ?_⟩
        have hui : T_UNINHIBIT ≠ T_INHIBIT := by decide
        rw [held_append, hu, SortedSet.mem_erase, hr]
        simp [hui, eq_comm]
      rw [hear_other _ _ hh hi hu] at h
      obtain ⟨since, hl, hr⟩ := ih agent h
      refine ⟨since ++ [msg], latestHello_append _ _ _ _ hl hh, fun reason => ?_⟩
      simp [held_append, hi, hu, hr]

def Io.IsReport : Io → Prop
  | .report .. => True
  | _ => False

-- What handling a decoded message of fd may change.
structure Heard (fd : Fd) (msg : Value) (w w' : World) : Prop where
  conns : w'.conns = w.conns
  lookup : ∀ other, w'.agents.lookup other =
    if other = fd then hear (w.agents.lookup fd) msg else w.agents.lookup other
  session : w'.activeSessionId = w.activeSessionId
  exited : w'.exited = w.exited
  grows : Trace.Grows (fun e => e.IsEffect ∨ e.IsReport) w.trace w'.trace

theorem received_of_grows {trace trace' : List Io}
    (h : Trace.Grows (fun e => e.IsEffect ∨ e.IsReport) trace trace') :
    received trace' = received trace := by
  refine h.foldl_eq receivedStep (fun h e he => ?_) _
  cases e <;> first | rfl | simp [Io.IsEffect, Io.IsDim, Io.IsUndim, Io.IsSleep, Io.IsRoutine, Io.IsTalk, Io.IsReport] at he

-- A message that is neither hello, inhibit nor uninhibit leaves the table alone.
theorem Heard.of_other {fd : Fd} {msg : Value} {w w' : World} (hh : msgType msg ≠ T_HELLO)
    (hi : msgType msg ≠ T_INHIBIT) (hu : msgType msg ≠ T_UNINHIBIT) (hc : w'.conns = w.conns)
    (ha : w'.agents = w.agents) (hs : w'.activeSessionId = w.activeSessionId)
    (he : w'.exited = w.exited)
    (hg : Trace.Grows (fun e => e.IsEffect ∨ e.IsReport) w.trace w'.trace) : Heard fd msg w w' := by
  refine ⟨hc, fun other => ?_, hs, he, hg⟩
  rw [ha, hear_other _ _ hh hi hu]
  split
  · rename_i h
    rw [h]
  · rfl

-- A message that sets the entry of fd and then has effects only.
theorem Heard.of_insert {fd : Fd} {msg : Value} {w w' : World} (agent : AgentState)
    (ha : hear (w.agents.lookup fd) msg = some agent)
    (hk : Keeps Io.IsEffect { w with agents := w.agents.insert fd agent } w') : Heard fd msg w w' := by
  refine ⟨hk.conns, fun other => ?_, hk.session, hk.exited, hk.grows.mono fun e he => .inl he⟩
  rw [hk.agents, ha]
  by_cases h : other = fd
  · subst h
    simp
  · simp [h]

section Messages

variable (env : Env)

theorem onIdleDim_frame (fd : Fd) (w : World) :
    ∃ w', Keeps Io.IsDim (w.emit (.report fd .idleDim)) w' ∧
      ((onIdleDim env fd w).world = w' ∨ (onIdleDim env fd w).world = { w' with dimmed := true }) := by
  unfold onIdleDim
  dsimp only
  split
  · exact ⟨_, .refl _, .inl rfl⟩
  split
  · exact ⟨_, .refl _, .inl rfl⟩
  split
  · exact ⟨_, .refl _, .inl rfl⟩
  split
  · exact ⟨_, .refl _, .inl rfl⟩
  · rename_i p _
    have h := dim_keeps env p (w.emit (.report fd .idleDim))
    cases hd : dim env p (w.emit (.report fd .idleDim)) with
    | error t =>
        rw [hd] at h
        exact ⟨_, h, .inl rfl⟩
    | ok w' =>
        rw [hd] at h
        exact ⟨_, h, .inr rfl⟩

theorem onActive_frame (fd : Fd) (w : World) :
    ∃ w', Keeps Io.IsUndim (w.emit (.report fd .active)) w' ∧
      ((onActive env fd w).world = w' ∨ (onActive env fd w).world = { w' with dimmed := false }) := by
  unfold onActive
  dsimp only
  split
  · exact ⟨_, .refl _, .inl rfl⟩
  split
  · exact ⟨_, .refl _, .inl rfl⟩
  split
  · exact ⟨_, .refl _, .inl rfl⟩
  · rename_i p _
    have h := undim_keeps env p (w.emit (.report fd .active))
    cases hd : undim env p (w.emit (.report fd .active)) with
    | error t =>
        rw [hd] at h
        exact ⟨_, h, .inl rfl⟩
    | ok w' =>
        rw [hd] at h
        exact ⟨_, h, .inr rfl⟩

theorem onIdleDim_tables (fd : Fd) (w : World) :
    KeepsTables Io.IsDim (w.emit (.report fd .idleDim)) (onIdleDim env fd w).world := by
  obtain ⟨w', hk, hw | hw⟩ := onIdleDim_frame env fd w
  · rw [hw]
    exact hk.tables
  · rw [hw]
    exact ⟨hk.conns, hk.agents, hk.session, hk.exited, hk.grows⟩

theorem onActive_tables (fd : Fd) (w : World) :
    KeepsTables Io.IsUndim (w.emit (.report fd .active)) (onActive env fd w).world := by
  obtain ⟨w', hk, hw | hw⟩ := onActive_frame env fd w
  · rw [hw]
    exact hk.tables
  · rw [hw]
    exact ⟨hk.conns, hk.agents, hk.session, hk.exited, hk.grows⟩

theorem Heard.of_keeps {fd : Fd} {msg : Value} {w w' : World} (hh : msgType msg ≠ T_HELLO)
    (hi : msgType msg ≠ T_INHIBIT) (hu : msgType msg ≠ T_UNINHIBIT) (hk : Keeps Io.IsEffect w w') :
    Heard fd msg w w' :=
  .of_other hh hi hu hk.conns hk.agents hk.session hk.exited (hk.grows.mono fun _ he => .inl he)

theorem Heard.of_report {fd : Fd} {msg : Value} {w w' : World} (r : Report)
    (hh : msgType msg ≠ T_HELLO) (hi : msgType msg ≠ T_INHIBIT) (hu : msgType msg ≠ T_UNINHIBIT)
    (hk : KeepsTables Io.IsEffect (w.emit (.report fd r)) w') : Heard fd msg w w' :=
  .of_other hh hi hu hk.conns hk.agents hk.session hk.exited
    ((Trace.Grows.single _ (e := .report fd r) (.inr trivial)).trans
      (hk.grows.mono fun _ he => .inl he))

theorem onHello_heard (fd : Fd) (msg : Value) (w : World) (h : msgType msg = T_HELLO) :
    Heard fd msg w (onHello env fd msg w) :=
  .of_insert _ (hear_hello _ _ h) (sendConfig_emits env fd _).routine.isEffect

theorem updateInhibits_heard (update : Bytes → List Bytes → List Bytes) (fd : Fd) (msg : Value)
    (w : World) (ha : fd ∈ w.agents)
    (h : ∀ agent, hear agent msg = agent.map fun a =>
      { a with inhibits := update (msg.str (bytes "reason") []) a.inhibits }) :
    Heard fd msg w (updateInhibits env update fd msg w) := by
  obtain ⟨agent, hl⟩ := AList.lookup_isSome.mpr ha |> Option.isSome_iff_exists.mp
  simp only [updateInhibits, hl]
  exact .of_insert _ (by rw [h, hl]; rfl) (send_emits env fd _ _).routine.isEffect

-- Handling a message changes the table for its own connection only, and there as
-- hear says.
theorem onMessage_heard (fd : Fd) (msg : Value) (w : World) :
    Heard fd msg w (onMessage env fd msg w).world := by
  unfold onMessage
  dsimp only
  split
  · rename_i h
    exact onHello_heard env fd msg w h
  rename_i hh
  split
  · rename_i h
    exact .of_keeps hh (h ▸ by decide) (h ▸ by decide) (onCtl_keeps env fd msg w).isEffect
  split
  · rename_i ha
    have hl : w.agents.lookup fd = none := AList.lookup_eq_none.mpr ha
    refine ⟨rfl, fun other => ?_, rfl, rfl, .refl _⟩
    rw [Result.world_ok, hl, hear_none _ hh]
    split
    · rename_i h
      rw [h, hl]
    · rfl
  rename_i ha
  have ha : fd ∈ w.agents := not_not.mp ha
  split
  · rename_i h
    exact .of_report .idleDim hh (h ▸ by decide) (h ▸ by decide)
      ((onIdleDim_tables env fd w).mono fun _ he => .inl he)
  split
  · rename_i h
    exact .of_report .idleSleep hh (h ▸ by decide) (h ▸ by decide)
      ((onIdleSleep_emits env fd w).keeps.tables.mono fun _ he => .inr (.inr he))
  split
  · rename_i h
    exact .of_report .active hh (h ▸ by decide) (h ▸ by decide)
      ((onActive_tables env fd w).mono fun _ he => .inr (.inl he))
  split
  · rename_i h
    exact updateInhibits_heard env _ fd msg w ha fun agent => hear_inhibit agent msg h
  split
  · rename_i h
    exact updateInhibits_heard env _ fd msg w ha fun agent => hear_uninhibit agent msg h
  · rename_i hi hu
    exact .of_keeps hh hi hu (.refl w)

end Messages

end Draind.Daemon
