import Draind.Daemon.ActiveProfile
import Draind.Daemon.DimReason
import Draind.Daemon.IdleReport
import Draind.Daemon.Malformed
import Draind.Daemon.Policy
import Draind.Daemon.PushedConfig

namespace Draind.Daemon

open Json Proto
open Policy (Decision Plan)
open Simulation (outputs)

-- What do_suspend and run_hw_action do to the machine.
inductive Act where
  | suspend (action : Bytes)
  | command (cmd : Bytes)

abbrev Input := Policy.Input Fd Bytes Bytes HwEvent Act

def commandOf (action : Bytes) : List Act :=
  (hwCommand action).toList.map .command

def pressed (action : Bytes) : List Act :=
  if action = [] ∨ action = bytes "none" then []
  else if action = bytes "suspend" ∨ action = bytes "hibernate" ∨ action = bytes "hybrid-sleep" then
    .suspend action :: commandOf action
  else commandOf action

-- What a profile has done.
def planOf (p : Profile) : Plan HwEvent Act where
  sleep := if p.sleepTimeout ≤ 0 then [] else .suspend (bytes "suspend") :: commandOf (bytes "suspend")
  press
    | .lidClose => pressed p.lidCloseAction
    | .lidOpen => pressed []
    | .powerButton => pressed p.powerButtonAction
    | .sleepButton => pressed p.sleepButtonAction

-- An empty id is no session.
def sessionOf (id : Bytes) : Option Bytes :=
  if id = [] then none else some id

def clientOf (a : AgentState) : Policy.Client Bytes Bytes :=
  ⟨sessionOf a.sessionId, {reason | reason ∈ a.inhibits}⟩

-- The daemon, as what it is for.
def policyOf (w : World) : Policy.State Fd Bytes Bytes HwEvent Act where
  plan := w.activeProfile.map planOf
  seat := sessionOf w.activeSessionId
  clients fd := (w.agents.lookup fd).map clientOf
  dimmed := w.dimmed

-- The configuration after a command.
def commanded (msg : Value) (w : World) : ConfigManager :=
  let cmd := msg.str (bytes "cmd") []
  if cmd = bytes "set_profile" then w.config.apply (.setActive (msg.str (bytes "profile") []))
  else if cmd = bytes "reload_config" then w.config.apply (.reload w.file)
  else w.config

-- What a message says, whoever sent it.
def said (fd : Fd) (msg : Value) (w : World) : List Input :=
  let type := msgType msg
  if type = T_HELLO then [.hello fd (sessionOf (msg.str (bytes "session_id") []))]
  else if type = T_CTL then [.plan ((commanded msg w).activeProfile.map planOf)]
  else if type = T_IDLE_DIM then [.idle fd]
  else if type = T_IDLE_SLEEP then [.asleep fd]
  else if type = T_ACTIVE then [.back fd]
  else if type = T_INHIBIT then [.inhibit fd (msg.str (bytes "reason") [])]
  else if type = T_UNINHIBIT then [.uninhibit fd (msg.str (bytes "reason") [])]
  else []

def seated : List (Bytes × Variant) → List Input
  | [] => []
  | (key, value) :: rest =>
      if key = bytes "ActiveSession" then
        match value with
        | .session id _ => .seat (sessionOf id) :: seated rest
        | .other => []
      else seated rest

def called (w : World) : Call → List Input
  | .line fd line =>
      match decode line with
      | .ok msg => said fd msg w
      | .error _ => []
  | .hangUp fd => [.left fd]
  | .button e => [.press e]

-- What a move tells the daemon, where it is possible.
def inputs (s : State) (move : Move) : List Input :=
  if s.world.exited then []
  else
    match move, s.pending with
    | .signal m, [] => if m.interface = bytes "org.freedesktop.login1.Seat" then seated m.changed else []
    | .call, c :: _ => called s.world c
    | _, _ => []

def Io.decision : Io → Option (Decision Act)
  | .dim => some .dim
  | .undim => some .undim
  | .suspend action => some (.act (.suspend action))
  | .system cmd => some (.act (.command cmd))
  | _ => none

-- What the daemon has decided, in order.
def decisions (trace : List Io) : List (Decision Act) :=
  trace.filterMap Io.decision

-- A call has done what the inputs call for, up to the exception if there is one.
structure Decides (ins : List Input) (w : World) (r : Result) : Prop where
  next : ∀ w', r = .ok w' → policyOf w' = Run.exec Policy.State.next (policyOf w) ins
  shows : decisions r.world.trace =
    decisions w.trace ++ outputs Policy.State.next Policy.State.decisions (policyOf w) ins

section Reading

@[simp]
theorem decisions_append (first second : List Io) :
    decisions (first ++ second) = decisions first ++ decisions second :=
  List.filterMap_append

@[simp]
theorem decisions_nil : decisions [] = [] := rfl

@[simp]
theorem decisions_cons (e : Io) (rest : List Io) : decisions (e :: rest) = e.decision.toList ++ decisions rest := by
  unfold decisions
  cases h : e.decision <;> simp [h]

theorem decisions_of_grows {kind : Io → Prop} {trace trace' : List Io} (h : Trace.Grows kind trace trace')
    (hk : ∀ e, kind e → e.decision = none) : decisions trace' = decisions trace := by
  obtain ⟨out, rfl, hout⟩ := h
  have hnone : decisions out = [] := List.filterMap_eq_nil_iff.mpr fun e he => hk e (hout e he)
  rw [decisions_append, hnone, List.append_nil]

theorem Io.IsRoutine.decision (e : Io) (h : e.IsRoutine) : e.decision = none := by
  cases e <;> first | rfl | exact absurd h id

theorem attends_iff (fd : Fd) (w : World) : (policyOf w).Attends fd ↔ isActiveAgent fd w = true := by
  have hsession : ∀ id, sessionOf id ≠ none ∧ sessionOf id = sessionOf w.activeSessionId ↔
      w.isActive id = true := by
    intro id
    simp only [sessionOf, World.isActive, Bool.and_eq_true, decide_eq_true_eq]
    by_cases hid : id = [] <;> by_cases hseat : w.activeSessionId = [] <;> simp [hid, hseat, Ne.symm]
  unfold Policy.State.Attends isActiveAgent
  cases hl : w.agents.lookup fd with
  | none => simp [policyOf, hl]
  | some a => simp [policyOf, hl, clientOf, hsession]

theorem inhibited_iff (w : World) : (policyOf w).Inhibited ↔ hasAnyInhibit w = true := by
  unfold Policy.State.Inhibited hasAnyInhibit
  simp only [List.any_eq_true, decide_eq_true_eq]
  constructor
  · rintro ⟨fd, client, hl, reason, hr⟩
    obtain ⟨a, ha, rfl⟩ := Option.map_eq_some_iff.mp hl
    exact ⟨⟨fd, a⟩, AList.mem_lookup_iff.mp ha, List.ne_nil_of_mem hr⟩
  · rintro ⟨⟨fd, a⟩, ha, hne⟩
    obtain ⟨reason, hr⟩ := List.exists_mem_of_ne_nil _ hne
    have hl : w.agents.lookup fd = some a := AList.mem_lookup_iff.mpr ha
    exact ⟨fd, clientOf a, congrArg (Option.map clientOf) hl, reason, hr⟩

theorem policyOf_congr {w w' : World} (hc : w'.config = w.config) (ha : w'.agents = w.agents)
    (hs : w'.activeSessionId = w.activeSessionId) (hd : w'.dimmed = w.dimmed) : policyOf w' = policyOf w := by
  simp only [policyOf, World.activeProfile, hc, ha, hs, hd]

theorem policyOf_insert (w : World) (fd : Fd) (a : AgentState) :
    policyOf { w with agents := w.agents.insert fd a } =
      { policyOf w with clients := Function.update (policyOf w).clients fd (some (clientOf a)) } := by
  simp only [policyOf, World.activeProfile, Policy.State.mk.injEq, true_and, and_true]
  funext other
  by_cases ho : other = fd
  · subst ho
    simp
  · simp [ho]

theorem policyOf_erase (w : World) (fd : Fd) :
    policyOf { w with agents := w.agents.erase fd } =
      { policyOf w with clients := Function.update (policyOf w).clients fd none } := by
  simp only [policyOf, World.activeProfile, Policy.State.mk.injEq, true_and, and_true]
  funext other
  by_cases ho : other = fd
  · subst ho
    simp
  · simp [ho]

end Reading

section Handlers

variable (env : Env)

-- What changes nothing but the tables as said, and decides nothing.
theorem Decides.quiet {ins : List Input} {w w' : World}
    (hp : policyOf w' = Run.exec Policy.State.next (policyOf w) ins)
    (ho : outputs Policy.State.next Policy.State.decisions (policyOf w) ins = [])
    (hd : decisions w'.trace = decisions w.trace) : Decides ins w (.ok w') := by
  refine ⟨fun _ h => by cases h; exact hp, ?_⟩
  rw [Result.world_ok, hd, ho, List.append_nil]

theorem policyOf_emits {kind : Io → Prop} {w w' : World} (h : Emits kind w w') : policyOf w' = policyOf w := by
  obtain ⟨out, rfl, -⟩ := h
  rfl

theorem decisions_talk {w w' : World} (h : Emits Io.IsTalk w w') : decisions w'.trace = decisions w.trace :=
  decisions_of_grows h.routine.grows Io.IsRoutine.decision

theorem onHello_decides (fd : Fd) (msg : Value) (w : World) :
    Decides [.hello fd (sessionOf (msg.str (bytes "session_id") []))] w (.ok (onHello env fd msg w)) := by
  have ht := sendConfig_emits env fd { w with agents := w.agents.insert fd (introduce msg) }
  have hd := decisions_talk ht
  refine .quiet ?_ rfl hd
  have hp : policyOf (onHello env fd msg w) =
      policyOf { w with agents := w.agents.insert fd (introduce msg) } := policyOf_emits ht
  rw [hp, policyOf_insert]
  simp [Policy.State.next, clientOf, introduce]

-- The reasons of the sender change, if it has an entry.
theorem updateInhibits_decides (update : Bytes → List Bytes → List Bytes) (f : Set Bytes → Set Bytes)
    (fd : Fd) (msg : Value) (w : World) (input : Input)
    (hu : ∀ reasons : List Bytes, {reason | reason ∈ update (msg.str (bytes "reason") []) reasons} =
      f {reason | reason ∈ reasons})
    (hn : (policyOf w).next input = (policyOf w).revise f fd) (ho : (policyOf w).decisions input = []) :
    Decides [input] w (.ok (updateInhibits env update fd msg w)) := by
  have hout : outputs Policy.State.next Policy.State.decisions (policyOf w) [input] = [] := by
    rw [Simulation.outputs_single, ho]
  unfold updateInhibits
  cases hl : w.agents.lookup fd with
  | none =>
      refine .quiet ?_ hout rfl
      have hnone : (policyOf w).clients fd = none := by simp [policyOf, hl]
      rw [Run.exec_cons, Run.exec_nil, hn, Policy.State.revise, hnone, Option.map_none, ← hnone,
        Function.update_eq_self]
  | some a =>
      dsimp only
      generalize hw : ({ w with agents := w.agents.insert fd _ } : World) = w'
      have ht := send_emits env fd encodeAck w'
      refine .quiet ?_ hout ((decisions_talk ht).trans (by rw [← hw]))
      have hsome : (policyOf w).clients fd = some (clientOf a) := by simp [policyOf, hl]
      rw [policyOf_emits ht, ← hw, policyOf_insert, Run.exec_cons, Run.exec_nil, hn, Policy.State.revise, hsome]
      simp [clientOf, hu]

theorem dim_decisions (p : Profile) (w : World) :
    decisions (dim env p w).world.trace = decisions w.trace ++ [.dim] := by
  have hm : decisions (w.emit .dim).trace = decisions w.trace ++ [.dim] := by simp [Io.decision]
  unfold dim
  dsimp only
  split
  · exact hm
  · rw [← hm]
    exact decisions_of_grows (setBrightnessPercent_keeps env _ _).grows Io.IsRoutine.decision

theorem undim_decisions (p : Profile) (w : World) :
    decisions (undim env p w).world.trace = decisions w.trace ++ [.undim] := by
  have hm : decisions (w.emit .undim).trace = decisions w.trace ++ [.undim] := by simp [Io.decision]
  rw [← hm]
  have hk : Keeps Io.IsRoutine (w.emit .undim) (undim env p w).world :=
    .bind (setBrightnessPercent_keeps env _ _) fun w' => ⟨rfl, rfl, rfl, rfl, rfl, .refl _⟩
  exact decisions_of_grows hk.grows Io.IsRoutine.decision

-- A report that is let through.
theorem Decides.of_bind {ins : List Input} {w : World} {x : Result} {f : World → World}
    (hx : decisions x.world.trace = decisions w.trace ++
      outputs Policy.State.next Policy.State.decisions (policyOf w) ins)
    (hf : ∀ w', (f w').trace = w'.trace)
    (hp : ∀ w', x = .ok w' → policyOf (f w') = Run.exec Policy.State.next (policyOf w) ins) :
    Decides ins w (x >>= fun w' => .ok (f w')) := by
  cases x with
  | error t =>
      refine ⟨fun w' h => ?_, hx⟩
      cases h
  | ok w' =>
      refine ⟨fun w'' h => ?_, ?_⟩
      · cases h
        exact hp w' rfl
      · rw [← hx]
        exact congrArg decisions (hf w')

theorem decisions_report (w : World) (fd : Fd) (r : Report) :
    decisions (w.emit (.report fd r)).trace = decisions w.trace := by
  simp [Io.decision]

-- A report that changes nothing.
theorem Decides.ignored {input : Input} {w : World} {fd : Fd} {r : Report}
    (ho : (policyOf w).decisions input = []) (hn : (policyOf w).next input = policyOf w) :
    Decides [input] w (.ok (w.emit (.report fd r))) := by
  refine .quiet ?_ ?_ (decisions_report w fd r)
  · rw [Run.exec_cons, Run.exec_nil, hn]
    rfl
  · rw [Simulation.outputs_single, ho]

theorem onIdleDim_decides (fd : Fd) (w : World) : Decides [.idle fd] w (onIdleDim env fd w) := by
  by_cases h : isActiveAgent fd w = true ∧ hasAnyInhibit w = false ∧ w.dimmed = false ∧
      w.activeProfile ≠ none
  · obtain ⟨ha, hi, hd, hp⟩ := h
    have hout : (policyOf w).decisions (.idle fd) = [.dim] :=
      if_pos ⟨(attends_iff fd w).mpr ha, by simp [inhibited_iff, hi], hd, by simpa [policyOf] using hp⟩
    obtain ⟨p, hp⟩ := Option.ne_none_iff_exists'.mp hp
    have hk := dim_keeps env p (w.emit (.report fd .idleDim))
    have hl := dim_leaves env p (w.emit (.report fd .idleDim))
    rw [onIdleDim_eq env fd w p ha hi hd hp]
    refine .of_bind (f := fun w' => { w' with dimmed := true }) ?_ (fun _ => rfl) fun w' hw' => ?_
    · rw [dim_decisions, decisions_report, Simulation.outputs_single, hout]
    · rw [hw', Result.world_ok] at hk hl
      have hsame : policyOf w' = policyOf w := policyOf_congr hl.config hk.agents hk.session hk.dimmed
      have hset : policyOf { w' with dimmed := true } = { policyOf w' with dimmed := true } := rfl
      rw [hset, hsame]
      simp [Policy.State.next, hout]
  · have hout : (policyOf w).decisions (.idle fd) = [] := by
      refine if_neg fun hguard => h ⟨(attends_iff fd w).mp hguard.1, ?_, hguard.2.2.1, ?_⟩
      · simpa [inhibited_iff] using hguard.2.1
      · simpa [policyOf] using hguard.2.2.2
    rw [onIdleDim_blocked env fd w fun ha hi hd => by_contra fun hp => h ⟨ha, hi, hd, hp⟩]
    exact .ignored hout (by simp [Policy.State.next, hout])

theorem onActive_decides (fd : Fd) (w : World) : Decides [.back fd] w (onActive env fd w) := by
  have hactive := isActiveAgent_congr fd (World.emit_agents w (.report fd .active)) (World.emit_session w _)
  have hprofile : (w.emit (.report fd .active)).activeProfile = w.activeProfile := rfl
  by_cases h : isActiveAgent fd w = true ∧ w.dimmed = true ∧ w.activeProfile ≠ none
  · obtain ⟨ha, hd, hp⟩ := h
    have hout : (policyOf w).decisions (.back fd) = [.undim] :=
      if_pos ⟨(attends_iff fd w).mpr ha, hd, by simpa [policyOf] using hp⟩
    obtain ⟨p, hp⟩ := Option.ne_none_iff_exists'.mp hp
    have hk := undim_keeps env p (w.emit (.report fd .active))
    have hl := undim_leaves env p (w.emit (.report fd .active))
    have heq : onActive env fd w =
        undim env p (w.emit (.report fd .active)) >>= fun w => .ok { w with dimmed := false } := by
      simp [onActive, hactive, ha, hd, hprofile, hp]
    rw [heq]
    refine .of_bind (f := fun w' => { w' with dimmed := false }) ?_ (fun _ => rfl) fun w' hw' => ?_
    · rw [undim_decisions, decisions_report, Simulation.outputs_single, hout]
    · rw [hw', Result.world_ok] at hk hl
      have hsame : policyOf w' = policyOf w := policyOf_congr hl.config hk.agents hk.session hk.dimmed
      have hset : policyOf { w' with dimmed := false } = { policyOf w' with dimmed := false } := rfl
      rw [hset, hsame]
      simp [Policy.State.next, hout]
  · have hout : (policyOf w).decisions (.back fd) = [] :=
      if_neg fun hguard => h ⟨(attends_iff fd w).mp hguard.1, hguard.2.1, by simpa [policyOf] using hguard.2.2⟩
    have heq : onActive env fd w = .ok (w.emit (.report fd .active)) := by
      by_cases ha : isActiveAgent fd w = true
      · by_cases hd : w.dimmed = true
        · have hp : w.activeProfile = none := by_contra fun hp => h ⟨ha, hd, hp⟩
          simp [onActive, hactive, ha, hd, hprofile, hp]
        · simp [onActive, hactive, ha, hd]
      · simp [onActive, hactive, ha]
    rw [heq]
    exact .ignored hout (by simp [Policy.State.next, hout])

theorem runHwAction_decisions (action : Bytes) (w : World) :
    decisions (runHwAction action w).trace = decisions w.trace ++ (commandOf action).map .act := by
  unfold runHwAction commandOf
  cases hwCommand action with
  | none => simp
  | some cmd => simp [Io.decision]

-- The lock and pre_sleep are messages, and decide nothing.
theorem doSuspend_decisions (action : Bytes) (w : World) :
    decisions (doSuspend env action w).trace =
      decisions w.trace ++ (.suspend action :: commandOf action).map .act := by
  have hm : decisions (w.emit (.suspend action)).trace = decisions w.trace ++ [.act (.suspend action)] := by
    simp [Io.decision]
  have hlock := decisions_talk (sendLockToActiveAgent_emits env (w.emit (.suspend action)))
  have hwait := decisions_talk (broadcastAndWaitAcks_emits env encodePreSleep (fun _ _ => trivial)
    (fun _ _ => trivial) (sendLockToActiveAgent env (w.emit (.suspend action))))
  rw [doSuspend, runHwAction_decisions, hwait, hlock, hm]
  simp

theorem onIdleSleep_decides (fd : Fd) (w : World) : Decides [.asleep fd] w (.ok (onIdleSleep env fd w)) := by
  have hsame : policyOf (onIdleSleep env fd w) = policyOf w :=
    (policyOf_emits (onIdleSleep_emits env fd w)).trans rfl
  have hactive := isActiveAgent_congr fd (World.emit_agents w (.report fd .idleSleep)) (World.emit_session w _)
  have hinhibit := hasAnyInhibit_congr (World.emit_agents w (.report fd .idleSleep))
  have hprofile : (w.emit (.report fd .idleSleep)).activeProfile = w.activeProfile := rfl
  refine ⟨fun w' h => by (cases h; exact hsame), ?_⟩
  rw [Result.world_ok, Simulation.outputs_single]
  by_cases h : isActiveAgent fd w = true ∧ hasAnyInhibit w = false
  · obtain ⟨ha, hi⟩ := h
    have hout : (policyOf w).decisions (.asleep fd) = ((policyOf w).plan.toList.flatMap Plan.sleep).map .act :=
      if_pos ⟨(attends_iff fd w).mpr ha, by simp [inhibited_iff, hi]⟩
    rw [hout]
    cases hp : w.activeProfile with
    | none => simp [onIdleSleep, hactive, ha, hinhibit, hi, hprofile, hp, policyOf, Io.decision]
    | some p =>
        by_cases hoff : p.sleepTimeout ≤ 0
        · simp [onIdleSleep, hactive, ha, hinhibit, hi, hprofile, hp, policyOf, planOf, hoff,
            Io.decision]
        · have heq : onIdleSleep env fd w = doSuspend env (bytes "suspend") (w.emit (.report fd .idleSleep)) := by
            simp [onIdleSleep, hactive, ha, hinhibit, hi, hprofile, hp, hoff]
          rw [heq, doSuspend_decisions, decisions_report]
          simp [policyOf, hp, planOf, hoff]
  · have hout : (policyOf w).decisions (.asleep fd) = [] :=
      if_neg fun hguard => h ⟨(attends_iff fd w).mp hguard.1, by simpa [inhibited_iff] using hguard.2⟩
    have heq : onIdleSleep env fd w = w.emit (.report fd .idleSleep) := by
      by_cases ha : isActiveAgent fd w = true
      · have hi : hasAnyInhibit w = true := by
          by_contra hi
          exact h ⟨ha, by simpa using hi⟩
        simp [onIdleSleep, hactive, ha, hinhibit, hi]
      · simp [onIdleSleep, hactive, ha]
    rw [heq, hout, decisions_report, List.append_nil]

theorem onEvent_decides (e : HwEvent) (w : World) : Decides [.press e] w (.ok (onEvent env e w)) := by
  have hsame : policyOf (onEvent env e w) = policyOf w :=
    (policyOf_emits (onEvent_emits env e w)).trans rfl
  have hprofile : (w.emit (.button e)).activeProfile = w.activeProfile := rfl
  have hbutton : decisions (w.emit (.button e)).trace = decisions w.trace := by simp [Io.decision]
  refine ⟨fun w' h => by (cases h; exact hsame), ?_⟩
  rw [Result.world_ok, Simulation.outputs_single]
  cases hp : w.activeProfile with
  | none => simp [onEvent, hprofile, hp, Policy.State.decisions, policyOf, Io.decision]
  | some p =>
      have hout : (policyOf w).decisions (.press e) = ((planOf p).press e).map .act := by
        simp [Policy.State.decisions, policyOf, hp]
      have hpressed : ∀ action w', w' = w.emit (.button e) →
          decisions (if action = [] ∨ action = bytes "none" then w'
            else if action = bytes "suspend" ∨ action = bytes "hibernate" ∨ action = bytes "hybrid-sleep" then
              doSuspend env action w'
            else runHwAction action w').trace = decisions w.trace ++ (pressed action).map .act := by
        rintro action w' rfl
        unfold pressed
        split_ifs
        · simp [Io.decision]
        · rw [doSuspend_decisions, hbutton]
        · rw [runHwAction_decisions, hbutton]
      rw [hout]
      unfold onEvent
      dsimp only
      rw [hprofile, hp]
      cases e <;> exact hpressed _ _ rfl

-- With the exception as with the reply.
theorem setActive_config (name : Bytes) (w : World) :
    (∀ r, setActive env name w = .ok r → r.2.config = w.config.apply (.setActive name)) ∧
      ∀ t, setActive env name w = .error t → t.world.config = w.config.apply (.setActive name) := by
  rcases setActive_cases env name w with ⟨hs, he⟩ | ⟨config, hs, he⟩
  · have hsame : w.config.apply (.setActive name) = w.config := by simp [ConfigManager.apply, hs]
    rw [he, hsame]
    refine ⟨fun r h => ?_, fun t h => ?_⟩
    · cases h
      rfl
    · cases h
  · have hset : w.config.apply (.setActive name) = config := by simp [ConfigManager.apply, hs]
    have hc := onChange_config env (persistActive env { w with config := config })
    rw [(persistActive_leaves env _).config] at hc
    rw [he, hset]
    cases hr : onChange env (persistActive env { w with config := config }) with
    | error t =>
        rw [hr] at hc
        refine ⟨fun r h => ?_, fun t' h => ?_⟩
        · cases h
        · cases h
          exact hc
    | ok w' =>
        rw [hr] at hc
        refine ⟨fun r h => ?_, fun t h => ?_⟩
        · cases h
          exact hc
        · cases h

theorem reloadConfig_config (w : World) : (reloadConfig env w).world.config = w.config.apply (.reload w.file) := by
  unfold reloadConfig
  rw [ConfigManager.apply]
  cases hr : w.config.reload w.file with
  | error e => rfl
  | ok config => exact onChange_config env { w with config := config }

theorem onCtl_config (fd : Fd) (msg : Value) (w : World) :
    (onCtl env fd msg w).world.config = commanded msg w := by
  unfold commanded
  dsimp only
  by_cases hset : msg.str (bytes "cmd") [] = bytes "set_profile"
  · obtain ⟨entries, he⟩ := onCtl_setProfile env fd msg w hset
    have hconfig := setActive_config env (msg.str (bytes "profile") []) w
    rw [he, if_pos hset]
    cases hr : setActive env (msg.str (bytes "profile") []) w with
    | error t => exact hconfig.2 t hr
    | ok r => exact hconfig.1 r hr
  rw [if_neg hset]
  by_cases hreload : msg.str (bytes "cmd") [] = bytes "reload_config"
  · obtain ⟨entries, he⟩ := onCtl_reloadConfig env fd msg w hreload
    rw [he, if_pos hreload]
    exact reloadConfig_config env w
  rw [if_neg hreload]
  by_cases hlock : msg.str (bytes "cmd") [] = bytes "lock"
  · obtain ⟨out, he, -⟩ := sendLockToActiveAgent_emits env w
    rw [onCtl_lock env fd msg w hlock, he]
    rfl
  · obtain ⟨entries, he⟩ := onCtl_other env fd msg w hset hlock hreload
    rw [he]
    rfl

theorem onCtl_decides (fd : Fd) (msg : Value) (w : World) :
    Decides [.plan ((commanded msg w).activeProfile.map planOf)] w (onCtl env fd msg w) := by
  have hk := onCtl_keeps env fd msg w
  refine ⟨fun w' h => ?_, ?_⟩
  · have hc := onCtl_config env fd msg w
    rw [h, Result.world_ok] at hk hc
    rw [Run.exec_cons, Run.exec_nil]
    simp only [policyOf, Policy.State.next, World.activeProfile, hc, hk.agents, hk.session, hk.dimmed]
  · rw [Simulation.outputs_single, decisions_of_grows hk.grows Io.IsRoutine.decision]
    exact (List.append_nil _).symm

theorem onInhibit_decides (fd : Fd) (msg : Value) (w : World) :
    Decides [.inhibit fd (msg.str (bytes "reason") [])] w (.ok (onInhibit env fd msg w)) := by
  refine updateInhibits_decides env _ (insert (msg.str (bytes "reason") [])) fd msg w _ (fun reasons => ?_) rfl rfl
  ext reason
  simp [SortedSet.mem_insert]

theorem onUninhibit_decides (fd : Fd) (msg : Value) (w : World) :
    Decides [.uninhibit fd (msg.str (bytes "reason") [])] w (.ok (onUninhibit env fd msg w)) := by
  refine updateInhibits_decides env _ (· \ {msg.str (bytes "reason") []}) fd msg w _ (fun reasons => ?_) rfl rfl
  ext reason
  simp [SortedSet.mem_erase]

-- A report from a client that has not said hello.
theorem stranger_decides {fd : Fd} {w : World} (h : fd ∉ w.agents) {input : Input}
    (hi : input = .idle fd ∨ input = .asleep fd ∨ input = .back fd) : Decides [input] w (.ok w) := by
  have hnot : ¬(policyOf w).Attends fd := by
    rw [attends_iff]
    exact fun ha => h (isActiveAgent_mem ha)
  rcases hi with rfl | rfl | rfl
  · have hout : (policyOf w).decisions (.idle fd) = [] := if_neg fun hg => hnot hg.1
    exact .quiet (by simp [Policy.State.next, hout]) (by rw [Simulation.outputs_single, hout]) rfl
  · have hout : (policyOf w).decisions (.asleep fd) = [] := if_neg fun hg => hnot hg.1
    exact .quiet rfl (by rw [Simulation.outputs_single, hout]) rfl
  · have hout : (policyOf w).decisions (.back fd) = [] := if_neg fun hg => hnot hg.1
    exact .quiet (by simp [Policy.State.next, hout]) (by rw [Simulation.outputs_single, hout]) rfl

theorem onMessage_decides (fd : Fd) (msg : Value) (w : World) :
    Decides (said fd msg w) w (onMessage env fd msg w) := by
  have hstranger : fd ∉ w.agents → msgType msg ≠ T_HELLO → msgType msg ≠ T_CTL →
      onMessage env fd msg w = .ok w := by
    intro ha hh hc
    simp [onMessage, hh, hc, ha]
  have hgone : fd ∉ w.agents → ∀ update, updateInhibits env update fd msg w = w := by
    intro ha update
    simp [updateInhibits, AList.lookup_eq_none.mpr ha]
  unfold said
  dsimp only
  split_ifs with hh hc hd hs ha hi hu
  · simp only [onMessage, hh, if_true]
    exact onHello_decides env fd msg w
  · rw [onMessage_ctl env hc]
    exact onCtl_decides env fd msg w
  · by_cases hr : fd ∈ w.agents
    · rw [onMessage_idleDim env hd hr]
      exact onIdleDim_decides env fd w
    · rw [hstranger hr hh hc]
      exact stranger_decides hr (.inl rfl)
  · by_cases hr : fd ∈ w.agents
    · rw [onMessage_idleSleep env hs hr]
      exact onIdleSleep_decides env fd w
    · rw [hstranger hr hh hc]
      exact stranger_decides hr (.inr (.inl rfl))
  · by_cases hr : fd ∈ w.agents
    · rw [onMessage_active env ha hr]
      exact onActive_decides env fd w
    · rw [hstranger hr hh hc]
      exact stranger_decides hr (.inr (.inr rfl))
  · have hon := onInhibit_decides env fd msg w
    by_cases hr : fd ∈ w.agents
    · simp only [onMessage, hi, hr, if_true, if_false, not_true]
      exact hon
    · rw [hstranger hr hh hc]
      rwa [onInhibit, hgone hr] at hon
  · have hon := onUninhibit_decides env fd msg w
    by_cases hr : fd ∈ w.agents
    · simp only [onMessage, hu, hr, if_true, if_false, not_true]
      exact hon
    · rw [hstranger hr hh hc]
      rwa [onUninhibit, hgone hr] at hon
  · have hnone : onMessage env fd msg w = .ok w := by
      by_cases hr : fd ∈ w.agents
      · simp [onMessage, hh, hc, hd, hs, ha, hi, hu, hr]
      · exact hstranger hr hh hc
    rw [hnone]
    exact .quiet rfl rfl rfl

end Handlers

section Runs

variable (env : Env)

theorem perform_decides (c : Call) (w : World) : Decides (called w c) w (perform env c w) := by
  cases c with
  | button e => exact onEvent_decides env e w
  | hangUp fd =>
      refine .quiet ?_ rfl (by simp [closeClient, onDisconnect, Io.decision])
      exact policyOf_erase w fd
  | line fd line =>
      have hline : policyOf (w.emit (.line fd line)) = policyOf w := rfl
      have hdecisions : decisions (w.emit (.line fd line)).trace = decisions w.trace := by simp [Io.decision]
      simp only [called, perform, onLine]
      cases hd : decode line with
      | error e => exact .quiet rfl rfl (by simp [closeClient, Io.decision])
      | ok msg =>
          obtain ⟨hnext, hshows⟩ := onMessage_decides env fd msg (w.emit (.line fd line))
          rw [hline] at hnext hshows
          rw [hdecisions] at hshows
          exact ⟨hnext, hshows⟩

theorem scanChanged_decides (changed : List (Bytes × Variant)) (w : World) :
    Decides (seated changed) w (.ok (scanChanged changed w)) := by
  induction changed generalizing w with
  | nil => exact .quiet rfl rfl rfl
  | cons entry rest ih =>
      obtain ⟨key, value⟩ := entry
      unfold scanChanged seated
      split
      · cases value with
        | other => exact .quiet rfl rfl rfl
        | session id path =>
            have hseat : decisions ({ w with activeSessionId := id }.emit (.seat id)).trace =
                decisions w.trace := by simp [Io.decision]
            have hpolicy : policyOf ({ w with activeSessionId := id }.emit (.seat id)) =
                (policyOf w).next (.seat (sessionOf id)) := rfl
            obtain ⟨hnext, hshows⟩ := ih ({ w with activeSessionId := id }.emit (.seat id))
            rw [hpolicy] at hnext hshows
            rw [hseat] at hshows
            exact ⟨hnext, hshows⟩
      · exact ih w

-- Where an exception has ended the daemon, the policy goes no further.
def Refines (s : State) (p : Policy.State Fd Bytes Bytes HwEvent Act) : Prop :=
  s.world.exited = true ∨ policyOf s.world = p

theorem Decides.refines {ins : List Input} {w : World} {r : Result} (h : Decides ins w r) (pending : List Call) :
    Refines ⟨r.settle, pending⟩ (Run.exec Policy.State.next (policyOf w) ins) := by
  cases r with
  | error t => exact .inl rfl
  | ok w' => exact .inr (h.next w' rfl)

-- A move from a daemon that runs.
theorem step_decides (s : State) (move : Move) (he : s.world.exited = false) :
    Refines (step env s move) (Run.exec Policy.State.next (policyOf s.world) (inputs s move)) ∧
      decisions (step env s move).world.trace = decisions s.world.trace ++
        outputs Policy.State.next Policy.State.decisions (policyOf s.world) (inputs s move) := by
  have hsame : ∀ s' : State, policyOf s'.world = policyOf s.world →
      decisions s'.world.trace = decisions s.world.trace → inputs s move = [] →
      Refines s' (Run.exec Policy.State.next (policyOf s.world) (inputs s move)) ∧
        decisions s'.world.trace = decisions s.world.trace ++
          outputs Policy.State.next Policy.State.decisions (policyOf s.world) (inputs s move) := by
    intro s' hp hd hi
    rw [hi]
    exact ⟨.inr hp, by simp [hd]⟩
  obtain ⟨w, pending⟩ := s
  replace he : w.exited = false := he
  cases move with
  | signal m =>
      cases pending with
      | cons c rest => exact hsame _ (by simp [step]) (by simp [step]) (by simp [inputs, he])
      | nil =>
          have hstep : step env ⟨w, []⟩ (.signal m) = ⟨handleSeatProperties m w, []⟩ := by simp [step, he]
          rw [hstep]
          by_cases hseat : m.interface = bytes "org.freedesktop.login1.Seat"
          · have hd := scanChanged_decides m.changed w
            have hinputs : inputs ⟨w, []⟩ (.signal m) = seated m.changed := by simp [inputs, he, hseat]
            have hhandle : handleSeatProperties m w = scanChanged m.changed w := by
              simp [handleSeatProperties, hseat]
            rw [hinputs, hhandle]
            exact ⟨hd.refines [], hd.shows⟩
          · exact hsame _ (by simp [handleSeatProperties, hseat]) (by simp [handleSeatProperties, hseat])
              (by simp [inputs, he, hseat])
  | ready r =>
      have hinputs : inputs ⟨w, pending⟩ (.ready r) = [] := by simp [inputs, he]
      have hstep := step_stepped env ⟨w, pending⟩ (.ready r)
      generalize step env ⟨w, pending⟩ (.ready r) = s' at hstep ⊢
      cases hstep with
      | idle => exact hsame _ rfl rfl hinputs
      | accept r fd => exact hsame _ rfl (by simp [acceptClient, Io.decision]) hinputs
      | feed => exact hsame _ rfl rfl hinputs
      | input => exact hsame _ rfl rfl hinputs
  | outside file sysfs => exact hsame _ (by simp [step, he]; rfl) (by simp [step, he]) (by simp [inputs, he])
  | call =>
      cases pending with
      | nil => exact hsame _ rfl rfl (by simp [inputs, he])
      | cons c rest =>
          have hd := perform_decides env c w
          have hstep : step env ⟨w, c :: rest⟩ .call = ⟨(perform env c w).settle, rest⟩ := by simp [step, he]
          have hinputs : inputs ⟨w, c :: rest⟩ .call = called w c := by simp [inputs, he]
          rw [hstep, hinputs, Result.settle_trace]
          exact ⟨hd.refines rest, hd.shows⟩

theorem step_refines :
    Simulation.Simulates (step env) Policy.State.next Policy.State.decisions inputs
      (fun s => decisions s.world.trace) Refines := by
  refine ⟨fun s p move hr => ?_, fun s p move hr => ?_⟩
  · cases he : s.world.exited with
    | true =>
        rw [step_exited env s move he]
        exact .inl he
    | false =>
        obtain rfl : policyOf s.world = p := by simpa [Refines, he] using hr
        exact (step_decides env s move he).1
  · cases he : s.world.exited with
    | true =>
        rw [step_exited env s move he]
        simp [inputs, he]
    | false =>
        obtain rfl : policyOf s.world = p := by simpa [Refines, he] using hr
        exact (step_decides env s move he).2

theorem started_decisions (w : World) (h : Started env w) : decisions w.trace = [] :=
  decisions_of_grows (started_spec env w h).2.2.2.2 Io.IsRoutine.decision

-- A run of the daemon is a run of the policy on what the daemon is told. What it has
-- decided is what the policy decides, whatever the kernel, sysfs and the config file
-- do, and as long as no exception ends it the two are in the same state.
theorem policy_refined (w : World) (h : Started env w) (moves : List Move) :
    decisions (run env w moves).world.trace =
        outputs Policy.State.next Policy.State.decisions (policyOf w)
          (Simulation.inputsOf (step env) inputs ⟨w, []⟩ moves) ∧
      ((run env w moves).world.exited = false →
        policyOf (run env w moves).world =
          Run.exec Policy.State.next (policyOf w) (Simulation.inputsOf (step env) inputs ⟨w, []⟩ moves)) := by
  obtain ⟨hrel, hseen⟩ := (step_refines env).run (s := ⟨w, []⟩) (t := policyOf w) (.inr rfl) moves
  rw [started_decisions env w h] at hseen
  refine ⟨hseen, fun he => ?_⟩
  rcases hrel with hx | hp
  · rw [he] at hx
    cases hx
  · exact hp

-- The daemon calls dim and undim in turn, beginning with dim: never one of them twice
-- without the other in between.
theorem dims_alternate (w : World) (h : Started env w) (moves : List Move) :
    Policy.Alternating false (decisions (run env w moves).world.trace) := by
  obtain ⟨-, hseen⟩ := (step_refines env).run (s := ⟨w, []⟩) (t := policyOf w) (.inr rfl) moves
  rw [started_decisions env w h, List.nil_append] at hseen
  have halternating := Policy.alternating_outputs (Simulation.inputsOf (step env) inputs ⟨w, []⟩ moves)
    (policyOf w)
  rw [← hseen] at halternating
  have hd : (policyOf w).dimmed = false := (started_spec env w h).2.2.1
  rwa [hd] at halternating

-- A connection that never says hello has no say in what the daemon does to the screen
-- and the machine, whatever it sends but commands: the decisions are those without it.
theorem strangers_ignored (w : World) (h : Started env w) (moves : List Move) (fd : Fd)
    (hno : ∀ session, .hello fd session ∉ Simulation.inputsOf (step env) inputs ⟨w, []⟩ moves) :
    decisions (run env w moves).world.trace =
      outputs Policy.State.next Policy.State.decisions (policyOf w)
        ((Simulation.inputsOf (step env) inputs ⟨w, []⟩ moves).filter fun i => decide (i.sender ≠ some fd)) := by
  obtain ⟨-, hseen⟩ := (step_refines env).run (s := ⟨w, []⟩) (t := policyOf w) (.inr rfl) moves
  have hnone : (policyOf w).clients fd = none := by
    have ha : w.agents = ∅ := (started_spec env w h).2.1
    simp [policyOf, ha]
  rw [started_decisions env w h, List.nil_append, Policy.outputs_without_stranger fd _ _ hnone hno] at hseen
  exact hseen

end Runs

-- An agent of session "1" says hello, reports idle_dim and is back.
def idleThenActive : List Move :=
  [accept 7, readable 7 (encodeHello (bytes "1") 1000 ++ [10] ++ encodeIdleDim ++ [10] ++ encodeActive ++ [10]),
    .call, .call, .call]

theorem policy_refined_idleThenActive :
    ∃ w, sampleStart = .ok w ∧
      decisions (run .plain w idleThenActive).world.trace =
          outputs Policy.State.next Policy.State.decisions (policyOf w)
            (Simulation.inputsOf (step .plain) inputs ⟨w, []⟩ idleThenActive) ∧
        ((run .plain w idleThenActive).world.exited = false →
          policyOf (run .plain w idleThenActive).world =
            Run.exec Policy.State.next (policyOf w)
              (Simulation.inputsOf (step .plain) inputs ⟨w, []⟩ idleThenActive)) :=
  ⟨_, rfl, policy_refined .plain _ (sample_started rfl) idleThenActive⟩

-- A stranger inhibits, and is not heeded.
def inhibitByStranger : List Move :=
  [accept 8, readable 8 (encodeInhibit (bytes "x") ++ [10]), .call] ++ idleThenActive

theorem strangers_ignored_inhibit :
    ∃ w, sampleStart = .ok w ∧ decisions (run .plain w inhibitByStranger).world.trace = [.dim, .undim] ∧
      decisions (run .plain w inhibitByStranger).world.trace =
        outputs Policy.State.next Policy.State.decisions (policyOf w)
          ((Simulation.inputsOf (step .plain) inputs ⟨w, []⟩ inhibitByStranger).filter
            fun i => decide (i.sender ≠ some 8)) := by
  refine ⟨_, rfl, rfl, strangers_ignored .plain _ (sample_started rfl) inhibitByStranger 8 fun session hm => ?_⟩
  have hm : (.hello 8 session : Input) ∈
      [.inhibit 8 (bytes "x"), .hello 7 (some (bytes "1")), .idle 7, .back 7] := hm
  simp at hm

theorem dims_alternate_idleThenActive :
    ∃ w, sampleStart = .ok w ∧ decisions (run .plain w idleThenActive).world.trace = [.dim, .undim] ∧
      Policy.Alternating false (decisions (run .plain w idleThenActive).world.trace) :=
  ⟨_, rfl, rfl, dims_alternate .plain _ (sample_started rfl) idleThenActive⟩

end Draind.Daemon
