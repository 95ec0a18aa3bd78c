import Draind.Daemon.Lock

namespace Draind.Daemon

open Json Proto

-- The latest report handled from the connection that was last accepted on fd.
def reportStep (h : Fd → Option Report) : Io → Fd → Option Report
  | .accepted fd => Function.update h fd none
  | .report fd r => Function.update h fd (some r)
  | _ => h

def lastReport (trace : List Io) : Fd → Option Report :=
  trace.foldl reportStep fun _ => none

-- The session of the latest hello on the connection that is open on fd.
def announced (trace : List Io) (fd : Fd) : Option Bytes :=
  ((received trace fd).bind registration).map AgentState.sessionId

-- The latest report is idle_dim or idle_sleep.
def ReportsIdle (trace : List Io) (fd : Fd) : Prop :=
  ∃ r, lastReport trace fd = some r ∧ r ≠ .active

-- An open agent of the active session that was idle when it was last heard of.
def IdleWitness (w : World) (fd : Fd) : Prop :=
  Registered w fd ∧ ReportsIdle w.trace fd

-- While the daemon runs and the screen is dimmed, some agent is the reason.
def DimJustified (w : World) : Prop :=
  w.exited = false → w.dimmed = true → ∃ fd, IdleWitness w fd

-- An idle_dim from fd dims the screen: it passes every guard, and the backlight
-- files can be read as numbers.
def Dims (env : Env) (fd : Fd) (w : World) : Prop :=
  isActiveAgent fd w = true ∧ hasAnyInhibit w = false ∧ w.dimmed = false ∧
    ∃ p w', w.activeProfile = some p ∧ dim env p (w.emit (.report fd .idleDim)) = .ok w'

-- Another connection is a reason as well.
def OtherWitness (fd : Fd) (w : World) : Prop :=
  ∃ other, other ≠ fd ∧ IdleWitness w other

-- The message does not take the last reason away and does not dim without one.
def MessageKeepsReason (env : Env) (fd : Fd) (msg : Value) (w : World) : Prop :=
  if msgType msg = T_HELLO then
    w.dimmed = true → OtherWitness fd w ∨
      (fd ∈ w.conns ∧ w.isActive (msg.str (bytes "session_id") []) = true ∧ ReportsIdle w.trace fd)
  else if fd ∈ w.agents ∧ msgType msg = T_ACTIVE then
    w.dimmed = true → isActiveAgent fd w = true → w.activeProfile = none → OtherWitness fd w
  else if fd ∈ w.agents ∧ msgType msg = T_IDLE_DIM then
    Dims env fd w → OtherWitness fd w ∨ Registered w fd
  else True

def CallKeepsReason (env : Env) (w : World) : Call → Prop
  | .line fd line =>
      match decode line with
      | .error _ => w.dimmed = true → OtherWitness fd w
      | .ok msg => MessageKeepsReason env fd msg (w.emit (.line fd line))
  | .hangUp fd => w.dimmed = true → OtherWitness fd w
  | .button _ => True

def KeepsReason (env : Env) (s : State) : Move → Prop
  | .signal m =>
      s.pending = [] → s.world.exited = false → s.world.dimmed = true →
        ∃ fd, IdleWitness (handleSeatProperties m s.world) fd
  | .call => s.world.exited = false → ∀ c ∈ s.pending.head?, CallKeepsReason env s.world c
  | _ => True

@[simp]
theorem lastReport_append (trace : List Io) (e : Io) :
    lastReport (trace ++ [e]) = reportStep (lastReport trace) e := by
  simp [lastReport]

section Views

theorem lastReport_of_grows {trace trace' : List Io} (h : Trace.Grows Io.IsEffect trace trace') :
    lastReport trace' = lastReport trace := by
  refine h.foldl_eq reportStep (fun h e he => ?_) _
  cases e <;> first
    | rfl
    | simp [Io.IsEffect, Io.IsDim, Io.IsUndim, Io.IsSleep, Io.IsRoutine, Io.IsTalk] at he

theorem hear_session (agent : Option AgentState) (msg : Value) (h : msgType msg ≠ T_HELLO) :
    (hear agent msg).map AgentState.sessionId = agent.map AgentState.sessionId := by
  by_cases hi : msgType msg = T_INHIBIT
  · rw [hear_inhibit _ _ hi]
    cases agent <;> rfl
  by_cases hu : msgType msg = T_UNINHIBIT
  · rw [hear_uninhibit _ _ hu]
    cases agent <;> rfl
  rw [hear_other _ _ h hi hu]

-- What is announced on fd after a message there.
theorem announced_message (trace : List Io) (fd : Fd) (line : Bytes) (msg : Value)
    (hd : decode line = .ok msg) (other : Fd) :
    announced (trace ++ [.line fd line]) other =
      if other = fd ∧ msgType msg = T_HELLO then
        (received trace fd).map fun _ => msg.str (bytes "session_id") []
      else announced trace other := by
  unfold announced
  simp only [received_append, receivedStep, hd]
  by_cases ho : other = fd
  · subst ho
    rw [Function.update_self]
    by_cases hh : msgType msg = T_HELLO
    · cases received trace other with
      | none => simp
      | some messages => simp [hh, hear_hello, introduce]
    · cases received trace other with
      | none => simp [hh]
      | some messages => simp [hh, hear_session]
  · rw [Function.update_of_ne ho]
    simp [ho]

theorem announced_congr {trace trace' : List Io} (h : received trace' = received trace) :
    announced trace' = announced trace := by
  funext fd
  rw [announced, announced, h]

theorem registered_iff {w : World} (ho : Opened w) (fd : Fd) :
    Registered w fd ↔ w.activeSessionId ≠ [] ∧ announced w.trace fd = some w.activeSessionId := by
  constructor
  · rintro ⟨-, hne, messages, since, hm, hlatest⟩
    refine ⟨hne, ?_⟩
    cases hr : registration messages with
    | none =>
        obtain ⟨before, hello, rfl, ht, -⟩ := hlatest
        exact absurd ht ((registration_eq_none_iff _).mp hr hello (by simp))
    | some agent =>
        obtain ⟨since', hlatest', -⟩ := registration_spec messages agent hr
        simp [announced, hm, hr, (latestHello_unique hlatest hlatest').1]
  · rintro ⟨hne, ha⟩
    obtain ⟨agent, hb, hs⟩ := Option.map_eq_some_iff.mp ha
    obtain ⟨messages, hm, hr⟩ := Option.bind_eq_some_iff.mp hb
    obtain ⟨since, hlatest, -⟩ := registration_spec messages agent hr
    exact ⟨(ho fd).mpr (by simp [hm]), hne, messages, since, hm, hs ▸ hlatest⟩

theorem Opened.congr {w w' : World} (ho : Opened w) (hc : w'.conns = w.conns)
    (hr : received w'.trace = received w.trace) : Opened w' := by
  intro fd
  rw [hc, hr]
  exact ho fd

theorem idleWitness_congr {w w' : World} (ho : Opened w) (ho' : Opened w') {fd : Fd}
    (hs : w'.activeSessionId = w.activeSessionId)
    (ha : announced w'.trace fd = announced w.trace fd)
    (hl : lastReport w'.trace fd = lastReport w.trace fd) : IdleWitness w' fd ↔ IdleWitness w fd := by
  rw [IdleWitness, IdleWitness, registered_iff ho, registered_iff ho', hs, ha, ReportsIdle,
    ReportsIdle, hl]

theorem opened_line {w : World} (ho : Opened w) (fd : Fd) (line : Bytes) (msg : Value)
    (hd : decode line = .ok msg) : Opened (w.emit (.line fd line)) := by
  have hr : received (w.emit (.line fd line)).trace =
      Function.update (received w.trace) fd ((received w.trace fd).map (· ++ [msg])) := by
    simp [World.emit, receivedStep, hd]
  exact ho.update hr (by simpa using ho fd) fun _ _ => .rfl

-- A message that is not hello changes nobody's session.
theorem idleWitness_line {w : World} (ho : Opened w) {fd : Fd} {line : Bytes} {msg : Value}
    (hd : decode line = .ok msg) {other : Fd} (h : other = fd → msgType msg ≠ T_HELLO) :
    IdleWitness (w.emit (.line fd line)) other ↔ IdleWitness w other := by
  refine idleWitness_congr ho (opened_line ho fd line msg hd) rfl ?_ ?_
  · rw [World.emit_trace, announced_message _ fd line msg hd, if_neg fun hn => h hn.1 hn.2]
  · rw [World.emit_trace, lastReport_append]
    rfl

-- The witnesses after a report, where the rest of the call has effects only.
theorem idleWitness_report {w w' : World} (ho : Opened w) {fd : Fd} {r : Report}
    (hc : w'.conns = w.conns) (hs : w'.activeSessionId = w.activeSessionId)
    (hg : Trace.Grows Io.IsEffect (w.emit (.report fd r)).trace w'.trace) (other : Fd) :
    IdleWitness w' other ↔
      if other = fd then Registered w fd ∧ r ≠ .active else IdleWitness w other := by
  have hr : received w'.trace = received w.trace := by
    rw [received_of_grows (hg.mono fun _ he => .inl he), World.emit_trace, received_append]
    rfl
  have hl : lastReport w'.trace = Function.update (lastReport w.trace) fd (some r) := by
    rw [lastReport_of_grows hg, World.emit_trace, lastReport_append]
    rfl
  have ho' := ho.congr hc hr
  split
  · rename_i he
    subst he
    rw [IdleWitness, registered_iff ho', registered_iff ho, hs, announced_congr hr, ReportsIdle, hl,
      Function.update_self]
    simp
  · rename_i hne
    refine idleWitness_congr ho ho' hs (congrFun (announced_congr hr) other) ?_
    rw [hl, Function.update_of_ne hne]

theorem idleWitness_close {w w' : World} (ho : Opened w) (ho' : Opened w') {fd : Fd}
    (hs : w'.activeSessionId = w.activeSessionId)
    (hr : received w'.trace = Function.update (received w.trace) fd none)
    (hl : lastReport w'.trace = lastReport w.trace) (other : Fd) :
    IdleWitness w' other ↔ other ≠ fd ∧ IdleWitness w other := by
  by_cases he : other = fd
  · subst he
    simp [IdleWitness, registered_iff ho', announced, hr]
  · rw [idleWitness_congr ho ho' hs (by rw [announced, announced, hr, Function.update_of_ne he])
      (congrFun hl other)]
    simp [he]

end Views

section Handlers

variable (env : Env)

theorem justified_settle (r : Result) :
    DimJustified r.settle ↔ ∀ w, r = .ok w → DimJustified w := by
  cases r with
  | error t => simp [DimJustified, Result.settle]
  | ok w => simp

-- What is left of the handler when every guard lets the report pass.
theorem onIdleDim_eq (fd : Fd) (w : World) (p : Profile) (ha : isActiveAgent fd w = true)
    (hi : hasAnyInhibit w = false) (hd : w.dimmed = false) (hp : w.activeProfile = some p) :
    onIdleDim env fd w =
      dim env p (w.emit (.report fd .idleDim)) >>= fun w => .ok { w with dimmed := true } := by
  have ha' := isActiveAgent_congr fd (World.emit_agents w (.report fd .idleDim)) (World.emit_session w _)
  have hi' := hasAnyInhibit_congr (World.emit_agents w (.report fd .idleDim))
  have hp' : (w.emit (.report fd .idleDim)).activeProfile = some p := hp
  simp [onIdleDim, ha', ha, hi', hi, hd, hp']

theorem onIdleDim_blocked (fd : Fd) (w : World)
    (h : isActiveAgent fd w = true → hasAnyInhibit w = false → w.dimmed = false →
      w.activeProfile = none) : onIdleDim env fd w = .ok (w.emit (.report fd .idleDim)) := by
  have ha := isActiveAgent_congr fd (World.emit_agents w (.report fd .idleDim)) (World.emit_session w _)
  have hi := hasAnyInhibit_congr (World.emit_agents w (.report fd .idleDim))
  have hp : (w.emit (.report fd .idleDim)).activeProfile = w.activeProfile := rfl
  by_cases hactive : isActiveAgent fd w = true
  swap
  · simp [onIdleDim, ha, hactive]
  cases hinhibit : hasAnyInhibit w with
  | true => simp [onIdleDim, ha, hi, hactive, hinhibit]
  | false =>
      cases hdim : w.dimmed with
      | true => simp [onIdleDim, ha, hi, hactive, hinhibit, hdim]
      | false => simp [onIdleDim, ha, hi, hactive, hinhibit, hdim, hp, h hactive hinhibit hdim]

theorem onIdleDim_cases (fd : Fd) (w : World) :
    (Dims env fd w ∧ ∃ w', Keeps Io.IsDim (w.emit (.report fd .idleDim)) w' ∧
      onIdleDim env fd w = .ok { w' with dimmed := true }) ∨
    (¬Dims env fd w ∧ ∀ w', onIdleDim env fd w = .ok w' → w' = w.emit (.report fd .idleDim)) := by
  by_cases hd : Dims env fd w
  · obtain ⟨ha, hi, hdim, p, w', hp, hok⟩ := hd
    have hk := dim_keeps env p (w.emit (.report fd .idleDim))
    rw [hok] at hk
    refine .inl ⟨⟨ha, hi, hdim, p, w', hp, hok⟩, w', hk, ?_⟩
    rw [onIdleDim_eq env fd w p ha hi hdim hp, hok]
    rfl
  · refine .inr ⟨hd, fun w' h => ?_⟩
    rw [onIdleDim_blocked env fd w fun ha hi hdim => ?_] at h
    · exact (Except.ok.inj h).symm
    · cases hp : w.activeProfile with
      | none => rfl
      | some p =>
          rw [onIdleDim_eq env fd w p ha hi hdim hp] at h
          obtain ⟨w₁, hok, -⟩ := (bind_ok_iff _ _ _).mp h
          exact absurd ⟨ha, hi, hdim, p, w₁, hp, hok⟩ hd

-- An active report that leaves the screen dimmed does nothing at all.
theorem onActive_cases (fd : Fd) (w w' : World) (h : onActive env fd w = .ok w') :
    w'.dimmed = false ∨
      (w' = w.emit (.report fd .active) ∧ (isActiveAgent fd w = true → w.activeProfile = none)) := by
  unfold onActive at h
  dsimp only at h
  rw [isActiveAgent_congr fd (World.emit_agents w _) (World.emit_session w _)] at h
  split at h
  · rename_i ha
    cases h
    exact .inr ⟨rfl, fun ht => absurd ht ha⟩
  split at h
  · rename_i hd
    cases h
    exact .inl (by simpa using hd)
  split at h
  · rename_i hp
    cases h
    exact .inr ⟨rfl, fun _ => hp⟩
  · rename_i p _
    obtain ⟨w₁, -, h⟩ := (bind_ok_iff _ _ _).mp h
    cases h
    exact .inl rfl

theorem onActive_noProfile (fd : Fd) (w : World) (ha : isActiveAgent fd w = true)
    (hp : w.activeProfile = none) : onActive env fd w = .ok (w.emit (.report fd .active)) := by
  have ha' := isActiveAgent_congr fd (World.emit_agents w (.report fd .active)) (World.emit_session w _)
  have hp' : (w.emit (.report fd .active)).activeProfile = none := hp
  simp [onActive, ha', ha, hp']

theorem Quiet.idleWitness_iff {w w' : World} (hq : Quiet w w') (ho : Opened w) (other : Fd) :
    IdleWitness w' other ↔ IdleWitness w other := by
  have hg := hq.grows.mono fun e he => (.inl (Io.IsRoutine.isDim e he) : e.IsEffect)
  have hr : received w'.trace = received w.trace := received_of_grows (hg.mono fun _ he => .inl he)
  exact idleWitness_congr ho (ho.congr hq.conns hr) hq.session (congrFun (announced_congr hr) other)
    (congrFun (lastReport_of_grows hg) other)

theorem exists_witness_iff (w : World) (fd : Fd) :
    (∃ other, IdleWitness w other) ↔ OtherWitness fd w ∨ IdleWitness w fd := by
  constructor
  · rintro ⟨other, h⟩
    by_cases he : other = fd
    · exact .inr (he ▸ h)
    · exact .inl ⟨other, he, h⟩
  · rintro (⟨other, -, h⟩ | h)
    · exact ⟨other, h⟩
    · exact ⟨fd, h⟩

-- While no hello changes them, the witnesses are open agents in the table.
theorem IdleWitness.isActiveAgent {w : World} (hc : Covered w) {fd : Fd} (h : IdleWitness w fd) :
    isActiveAgent fd w = true := by
  obtain ⟨agent, hl, ha⟩ := h.1.entry hc
  simp [Daemon.isActiveAgent, hl, ha]

theorem hello_witness {w : World} (ho : Opened w) {fd : Fd} {line : Bytes} {msg : Value}
    (hd : decode line = .ok msg) (hh : msgType msg = T_HELLO) :
    IdleWitness (w.emit (.line fd line)) fd ↔ fd ∈ w.conns ∧
      w.isActive (msg.str (bytes "session_id") []) = true ∧
      ReportsIdle (w.emit (.line fd line)).trace fd := by
  rw [IdleWitness, registered_iff (opened_line ho fd line msg hd), World.emit_trace,
    announced_message _ fd line msg hd, if_pos ⟨rfl, hh⟩, ho fd]
  cases received w.trace fd with
  | none => simp
  | some messages =>
      simp only [World.emit_session, Option.map_some, Option.some.injEq, World.isActive,
        Bool.and_eq_true, decide_eq_true_eq, ne_eq, reduceCtorEq, not_false_eq_true, true_and]
      refine and_congr_left fun _ => and_congr_left fun he => ?_
      rw [he]

theorem Quiet.justified_iff {w w' : World} (hq : Quiet w w') (ho : Opened w)
    (he : w.exited = false) (fd : Fd) :
    DimJustified w' ↔ (w.dimmed = true → OtherWitness fd w ∨ IdleWitness w fd) := by
  rw [DimJustified, hq.exited, hq.dimmed, exists_congr (hq.idleWitness_iff ho), exists_witness_iff w fd]
  simp [he]

-- After a report from fd, whatever it made of the dim flag.
theorem report_justified_iff {w w' : World} {r : Report} (ho : Opened w) {fd : Fd}
    (hc : w'.conns = w.conns) (hs : w'.activeSessionId = w.activeSessionId) (he : w'.exited = false)
    (hg : Trace.Grows Io.IsEffect (w.emit (.report fd r)).trace w'.trace) :
    DimJustified w' ↔ (w'.dimmed = true → OtherWitness fd w ∨ (Registered w fd ∧ r ≠ .active)) := by
  have hwit := idleWitness_report ho hc hs hg
  have hother : OtherWitness fd w' ↔ OtherWitness fd w :=
    exists_congr fun other => and_congr_right fun hne => by rw [hwit, if_neg hne]
  have hself : IdleWitness w' fd ↔ Registered w fd ∧ r ≠ .active := by rw [hwit, if_pos rfl]
  rw [DimJustified, he, exists_witness_iff w' fd, hother, hself]
  simp

theorem report_justified_of_refl {w : World} {r : Report} (ho : Opened w) (he : w.exited = false)
    {fd : Fd} : DimJustified (w.emit (.report fd r)) ↔
      (w.dimmed = true → OtherWitness fd w ∨ (Registered w fd ∧ r ≠ .active)) :=
  report_justified_iff ho (World.emit_conns w _) (World.emit_session w _) he (.refl _)

-- Each report by itself. w has read the line already; `hb` is what held before it.
theorem idleDim_reason_iff {w : World} (ho : Opened w) (he : w.exited = false) {fd : Fd}
    (hb : w.dimmed = true → OtherWitness fd w ∨ IdleWitness w fd) :
    (∀ w', onIdleDim env fd w = .ok w' → DimJustified w') ↔
      (Dims env fd w → OtherWitness fd w ∨ Registered w fd) := by
  rcases onIdleDim_cases env fd w with ⟨hdims, w', hk, hok⟩ | ⟨hdims, hok⟩
  · rw [hok]
    have hg : Trace.Grows Io.IsEffect _ w'.trace := hk.grows.mono fun _ he => .inl he
    have hj : DimJustified { w' with dimmed := true } ↔ _ :=
      report_justified_iff ho hk.conns hk.session (hk.exited.trans he) hg
    simpa [hdims] using hj
  · refine iff_of_true (fun w' hw => ?_) fun hd => absurd hd hdims
    rw [hok w' hw]
    refine (report_justified_of_refl ho he).mpr fun hdim => ?_
    exact (hb hdim).imp_right fun hw => ⟨hw.1, by decide⟩

theorem idleSleep_justified {w : World} (ho : Opened w) (he : w.exited = false) {fd : Fd}
    (hb : w.dimmed = true → OtherWitness fd w ∨ IdleWitness w fd) :
    DimJustified (onIdleSleep env fd w) := by
  have hk := (onIdleSleep_emits env fd w).keeps.mono fun e he => (.inr (.inr he) : e.IsEffect)
  refine (report_justified_iff ho hk.conns hk.session (hk.exited.trans he) hk.grows).mpr fun hdim => ?_
  exact (hb (hk.dimmed.symm.trans hdim)).imp_right fun hw => ⟨hw.1, by decide⟩

theorem active_reason_iff {w : World} (ho : Opened w) (he : w.exited = false) {fd : Fd}
    (hb : w.dimmed = true → OtherWitness fd w ∨ IdleWitness w fd)
    (ha : IdleWitness w fd → isActiveAgent fd w = true) :
    (∀ w', onActive env fd w = .ok w' → DimJustified w') ↔
      (w.dimmed = true → isActiveAgent fd w = true → w.activeProfile = none → OtherWitness fd w) := by
  have hj : DimJustified (w.emit (.report fd .active)) ↔ (w.dimmed = true → OtherWitness fd w) := by
    simpa using report_justified_of_refl (r := .active) ho he
  constructor
  · intro hall hdim hactive hp
    exact hj.mp (hall _ (onActive_noProfile env fd _ hactive hp)) hdim
  · intro hcond w' hw
    rcases onActive_cases env fd _ w' hw with hdim | ⟨rfl, hp⟩
    · exact fun _ ht => absurd ht (by simp [hdim])
    · refine hj.mpr fun hdim => ?_
      by_cases hactive : isActiveAgent fd w = true
      · exact hcond hdim hactive (hp hactive)
      · exact (hb hdim).resolve_right fun hw => hactive (ha hw)

theorem message_reason_iff {w : World} (ho : Opened w) (hc : Covered w) (h : DimJustified w)
    (he : w.exited = false) (fd : Fd) (line : Bytes) (msg : Value) (hd : decode line = .ok msg) :
    DimJustified (perform env (.line fd line) w).settle ↔
      MessageKeepsReason env fd msg (w.emit (.line fd line)) := by
  have hperform : perform env (.line fd line) w = onMessage env fd msg (w.emit (.line fd line)) := by
    simp [perform, onLine, hd]
  have ho₀ := opened_line ho fd line msg hd
  -- What the state before gives for a message that is not hello.
  have hbefore : msgType msg ≠ T_HELLO → w.dimmed = true →
      OtherWitness fd (w.emit (.line fd line)) ∨ IdleWitness (w.emit (.line fd line)) fd := by
    intro hh hdim
    obtain ⟨other, hw⟩ := h he hdim
    exact (exists_witness_iff _ fd).mp ⟨other, (idleWitness_line ho hd fun _ => hh).mpr hw⟩
  rw [justified_settle, hperform]
  rcases onMessage_cases fd msg (w.emit (.line fd line)) with
    ⟨hq, hn⟩ | ⟨hm, ht, hon⟩ | ⟨hm, ht, hon⟩ | ⟨hm, ht, hon⟩
  · replace hq := hq env
    by_cases hh : msgType msg = T_HELLO
    · have hon : onMessage env fd msg (w.emit (.line fd line)) =
          .ok (onHello env fd msg (w.emit (.line fd line))) := by
        simp [onMessage, hh]
      rw [hon] at hq ⊢
      have hj := hq.justified_iff ho₀ he fd
      rw [hello_witness ho hd hh] at hj
      simpa [MessageKeepsReason, hh] using hj
    · have hcond : MessageKeepsReason env fd msg (w.emit (.line fd line)) := by
        simp only [MessageKeepsReason, hh, if_false]
        rw [if_neg fun hr => (hn hr.1).2.2 hr.2, if_neg fun hr => (hn hr.1).1 hr.2]
        trivial
      refine iff_of_true (fun w' hw => ?_) hcond
      rw [hw] at hq
      exact (hq.justified_iff ho₀ he fd).mpr (hbefore hh)
  · have hh : msgType msg ≠ T_HELLO := ht ▸ by decide
    have hne : T_IDLE_DIM ≠ T_HELLO ∧ T_IDLE_DIM ≠ T_ACTIVE := by decide
    rw [hon env, MessageKeepsReason, ht, if_neg hne.1, if_neg fun hn => hne.2 hn.2, if_pos ⟨hm, rfl⟩]
    exact idleDim_reason_iff env ho₀ he (hbefore hh)
  · have hh : msgType msg ≠ T_HELLO := ht ▸ by decide
    have hne : T_IDLE_SLEEP ≠ T_HELLO ∧ T_IDLE_SLEEP ≠ T_ACTIVE ∧ T_IDLE_SLEEP ≠ T_IDLE_DIM := by decide
    rw [hon env, MessageKeepsReason, ht, if_neg hne.1, if_neg fun hn => hne.2.1 hn.2,
      if_neg fun hn => hne.2.2 hn.2]
    refine iff_of_true (fun w' hw => ?_) trivial
    cases hw
    exact idleSleep_justified env ho₀ he (hbefore hh)
  · have hh : msgType msg ≠ T_HELLO := ht ▸ by decide
    have hne : T_ACTIVE ≠ T_HELLO := by decide
    rw [hon env, MessageKeepsReason, ht, if_neg hne, if_pos ⟨hm, rfl⟩]
    refine active_reason_iff env ho₀ he (hbefore hh) fun hw => ?_
    exact ((idleWitness_line ho hd fun _ => hh).mp hw).isActiveAgent hc

theorem close_reason_iff {w w' : World} (ho : Opened w) (ho' : Opened w') (he : w.exited = false)
    {fd : Fd} (hs : w'.activeSessionId = w.activeSessionId) (hd : w'.dimmed = w.dimmed)
    (he' : w'.exited = w.exited)
    (hr : received w'.trace = Function.update (received w.trace) fd none)
    (hl : lastReport w'.trace = lastReport w.trace) :
    DimJustified w' ↔ (w.dimmed = true → OtherWitness fd w) := by
  rw [DimJustified, he', hd, exists_congr (idleWitness_close ho ho' hs hr hl)]
  simp [he, OtherWitness]

theorem call_reason_iff {w : World} (ho : Opened w) (hc : Covered w) (h : DimJustified w)
    (he : w.exited = false) (c : Call) (ho' : Opened (perform env c w).settle) :
    DimJustified (perform env c w).settle ↔ CallKeepsReason env w c := by
  cases c with
  | hangUp fd =>
      refine close_reason_iff ho ho' he rfl rfl rfl (received_hangUp fd w) ?_
      simp only [perform, Result.settle_ok, closeClient, onDisconnect, World.emit, lastReport_append, reportStep]
  | button e =>
      have hk := (onEvent_emits env e w).keeps
      have hg := hk.grows.mono fun e he => (.inr (.inr he) : e.IsEffect)
      have hr : received (onEvent env e w).trace = received w.trace := received_button env e w
      have hl : lastReport (onEvent env e w).trace = lastReport w.trace := by
        rw [lastReport_of_grows hg, World.emit_trace, lastReport_append]
        rfl
      refine iff_of_true (fun _ hdim => ?_) trivial
      obtain ⟨fd, hw⟩ := h he (hk.dimmed.symm.trans hdim)
      exact ⟨fd, (idleWitness_congr ho ho' hk.session (congrFun (announced_congr hr) fd)
        (congrFun hl fd)).mpr hw⟩
  | line fd line =>
      cases hd : decode line with
      | ok msg =>
          simp only [CallKeepsReason, hd]
          exact message_reason_iff env ho hc h he fd line msg hd
      | error e =>
          simp only [CallKeepsReason, hd]
          rw [perform_malformed env fd line e w hd] at ho' ⊢
          refine close_reason_iff ho ho' he rfl rfl rfl (received_malformed fd line e w hd) ?_
          simp only [closeClient, World.emit, lastReport_append, reportStep]

-- Moves that no condition is put on.
theorem ready_justified (s : State) (r : Ready) (ho : Opened s.world) (h : DimJustified s.world) :
    DimJustified (step env s (.ready r)).world := by
  have ho' := step_opened env s (.ready r) ho
  have hstep := step_stepped env s (.ready r)
  generalize step env s (.ready r) = s' at hstep ho' ⊢
  cases hstep with
  | idle => exact h
  | input => exact h
  | accept _ fd _ _ hf =>
      intro he hd
      obtain ⟨other, hw⟩ := h he hd
      have hne : other ≠ fd := fun heq => hf.1 (heq ▸ hw.1.1)
      have hr := received_accept fd s.world
      refine ⟨other, (idleWitness_congr ho ho' rfl ?_ ?_).mpr hw⟩
      · rw [announced, announced, hr, Function.update_of_ne hne]
      · simp [acceptClient, World.emit, reportStep, hne]
  | feed _ c _ _ _ =>
      intro he hd
      obtain ⟨other, hw⟩ := h he hd
      exact ⟨other, (idleWitness_congr ho ho' rfl rfl rfl).mpr hw⟩

theorem step_reason_iff (s : State) (move : Move) (ho : Opened s.world) (hc : Covered s.world)
    (h : DimJustified s.world) : DimJustified (step env s move).world ↔ KeepsReason env s move := by
  have ho' := step_opened env s move ho
  cases move with
  | ready r => exact iff_of_true (ready_justified env s r ho h) trivial
  | outside file sysfs =>
      refine iff_of_true ?_ trivial
      unfold step at ho' ⊢
      dsimp only at ho' ⊢
      split
      · exact h
      · rename_i hex
        rw [if_neg hex] at ho'
        intro he hd
        obtain ⟨other, hw⟩ := h he hd
        exact ⟨other, (idleWitness_congr ho ho' rfl rfl rfl).mpr hw⟩
  | signal m =>
      unfold step
      dsimp only
      split
      · rename_i hblocked
        refine iff_of_true h fun hp he => ?_
        simp [hp, he] at hblocked
      · rename_i hfree
        obtain ⟨he, hp⟩ : s.world.exited = false ∧ s.pending = [] := by simpa using hfree
        have hs := handleSeatProperties_seated m s.world
        simp only [DimJustified, KeepsReason, hs.exited, hs.dimmed, he, hp, true_implies]
  | call =>
      obtain ⟨w, pending⟩ := s
      cases pending with
      | nil => exact iff_of_true h fun _ c hm => by simp at hm
      | cons c rest =>
          cases he : w.exited with
          | true =>
              have hstep : step env ⟨w, c :: rest⟩ .call = ⟨w, c :: rest⟩ := by simp [step, he]
              rw [hstep]
              exact iff_of_true h fun hf => by simp [he] at hf
          | false =>
              have hstep : step env ⟨w, c :: rest⟩ .call = ⟨(perform env c w).settle, rest⟩ := by
                simp [step, he]
              rw [hstep] at ho' ⊢
              rw [call_reason_iff env ho hc h he c ho']
              simp [KeepsReason, he]

-- The dim flag has its reason in every state of a run exactly when no move takes
-- the last reason away from a dimmed screen or dims it without one.
theorem dimJustified_throughout_iff (w : World) (h : Started env w) (moves : List Move) :
    Run.Throughout (step env) (fun s => DimJustified s.world) ⟨w, []⟩ moves ↔
      Run.Meets (step env) (KeepsReason env) ⟨w, []⟩ moves := by
  refine Run.throughout_iff_meets_of_invariant (step env)
    (fun s => Opened s.world ∧ Covered s.world ∧ DimJustified s.world) ?_ (fun s hs => hs.2.2) ?_ moves ?_
  · rintro s move ⟨ho, hc, hj⟩ hm
    exact ⟨step_opened env s move ho, step_covered env s move hc,
      (step_reason_iff env s move ho hc hj).mpr hm⟩
  · rintro s move ⟨ho, hc, hj⟩ hp
    exact (step_reason_iff env s move ho hc hj).mp hp
  · refine ⟨started_opened env w h, run_covered env w h [], fun _ hd => ?_⟩
    rw [(started_spec env w h).2.2.1] at hd
    cases hd

end Handlers

-- An agent of session "1" reports idle_dim, and its connection ends.
def dimThenHangUp : List Move :=
  helloThenIdle ++ [.call, .ready ⟨7, none, [.eof], []⟩, .call]

theorem dimJustified_hangUp :
    ∃ w, sampleStart = .ok w ∧ ¬DimJustified (run .plain w dimThenHangUp).world := by
  refine ⟨_, rfl, fun h => ?_⟩
  obtain ⟨fd, ⟨hopen, -⟩, -⟩ := h (by decide) (by decide)
  exact of_decide_eq_false rfl (AList.mem_keys.mp hopen)

theorem dimJustified_sample :
    ∃ w, sampleStart = .ok w ∧
      (Run.Throughout (step .plain) (fun s => DimJustified s.world) ⟨w, []⟩ dimThenHangUp ↔
        Run.Meets (step .plain) (KeepsReason .plain) ⟨w, []⟩ dimThenHangUp) :=
  ⟨_, rfl, dimJustified_throughout_iff .plain _ (sample_started rfl) _⟩

end Draind.Daemon
