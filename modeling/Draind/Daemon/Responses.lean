import Draind.Daemon.LockRouting
import Draind.Daemon.PushedConfig
import Draind.Daemon.Suspend
import Draind.Shared.Delivery

namespace Draind.Daemon

open Json Proto

-- The two messages that answer another.
inductive Answer where
  | ack
  | reply
  deriving DecidableEq

def answerOf (msg : Bytes) : Option Answer :=
  match decode msg with
  | .error _ => none
  | .ok v =>
      if msgType v = T_ACK then some .ack
      else if msgType v = T_CTL_REPLY then some .reply
      else none

def Io.answerOn (fd : Fd) : Io → Option Answer
  | .sent other msg _ => if other = fd then answerOf msg else none
  | _ => none

-- The answers written to a descriptor, whether or not the writes went through.
def answers (fd : Fd) (trace : List Io) : List Answer :=
  trace.filterMap (Io.answerOn fd)

-- The answers a message calls for, from a client that has registered or has not.
def due (registered : Bool) (msg : Value) : List Answer :=
  if msgType msg = T_CTL then [.reply]
  else if registered ∧ (msgType msg = T_INHIBIT ∨ msgType msg = T_UNINHIBIT) then [.ack]
  else []

-- What is known of a descriptor from its messages alone: whether it has said hello
-- since it last hung up, and all the answers its messages call for.
structure Ledger where
  registered : Bool
  owed : List Answer

def Ledger.hear (l : Ledger) (msg : Value) : Ledger where
  registered := l.registered || msgType msg = T_HELLO
  owed := l.owed ++ due l.registered msg

def ledgerStep (h : Fd → Ledger) : Io → Fd → Ledger
  | .line fd line =>
      match decode line with
      | .ok msg => Function.update h fd ((h fd).hear msg)
      | .error _ => h
  | .hungUp fd => Function.update h fd { h fd with registered := false }
  | _ => h

def ledger (trace : List Io) : Fd → Ledger :=
  trace.foldl ledgerStep fun _ => ⟨false, []⟩

-- on_ctl without its last step: what the reply holds, and the daemon before it is sent.
def carryOut (env : Env) (msg : Value) (w : World) : Except Thrown (List (Bytes × Value) × World) :=
  let cmd := msg.str (bytes "cmd") []
  if cmd = bytes "status" then
    let bat := Battery.read w.sysfs.supplies
    .ok ([ok true, (bytes "active_profile", .string w.config.active),
      (bytes "dimmed", .bool w.dimmed), (bytes "active_session", .string w.activeSessionId),
      (bytes "battery_status", .string (Battery.statusString bat.status)),
      (bytes "battery_percent", .int bat.percent.toInt64)], w)
  else if cmd = bytes "set_profile" then
    let name := msg.str (bytes "profile") []
    (setActive env name w).map fun r =>
      (ok r.1 :: if r.1 then [] else
        [(bytes "error", .string (bytes "profile not found: " ++ name))], r.2)
  else if cmd = bytes "list_profiles" then
    .ok ([ok true, (bytes "profiles", .array (w.config.config.profiles.map fun p => .string p.name))], w)
  else if cmd = bytes "lock" then
    .ok ([ok true], sendLockToActiveAgent env w)
  else if cmd = bytes "list_inhibitors" then
    .ok ([ok true,
      (bytes "inhibitors", .array (inhibitors (env.agentOrder w.trace w.agents.entries)))], w)
  else if cmd = bytes "reload_config" then
    match reloadConfig env w with
    | .ok w => .ok ([ok true], w)
    | .error t => .ok ([ok false, (bytes "error", .string t.exn.what)], t.world)
  else if cmd = bytes "battery" then
    .ok (batteryFields (Battery.read w.sysfs.supplies), w)
  else
    .ok ([ok false, (bytes "error", .string (bytes "unknown command: " ++ cmd))], w)

-- Nothing is unanswered and nothing is answered twice. The exception that ends the
-- daemon can cost the last command its reply.
def Answered (w : World) : Prop :=
  ∀ fd, answers fd w.trace = (ledger w.trace fd).owed ∨
    w.exited = true ∧ answers fd w.trace ++ [.reply] = (ledger w.trace fd).owed

-- What is sent is a message of the protocol, and only a registered client is sent
-- anything but the reply to a command.
def Addressed (before : List Io) (e : Io) (_ : List Io) : Prop :=
  ∀ fd msg ok, e = .sent fd msg ok →
    Encoded msg ∧ ((ledger before fd).registered = true ∨ answerOf msg = some .reply)

-- A config or a lock, which answer nothing.
def Unasked (msg : Bytes) : Prop :=
  msg = encodeLock ∨ ∃ dimTimeout sleepTimeout, msg = encodeConfig dimTimeout sleepTimeout

-- Something written to registered clients that answers nothing, or nothing written.
def Io.IsAside (agents : Agents) : Io → Prop
  | .sent fd msg _ => fd ∈ agents ∧ Unasked msg
  | .line .. | .hungUp _ => False
  | _ => True

def Io.Fits (agents : Agents) : Io → Prop
  | .sent fd msg _ => Encoded msg ∧ (fd ∈ agents ∨ answerOf msg = some .reply)
  | .line .. | .hungUp _ => False
  | _ => True

-- What a call has written, with the answers it gives to fd.
structure Served (fd : Fd) (given : List Answer) (w w' : World) : Prop where
  fits : Trace.Grows (Io.Fits w'.agents) w.trace w'.trace
  answers : ∀ other, answers other w'.trace =
    answers other w.trace ++ if other = fd then given else []

-- An exception comes before the reply to a command, or where there is none to give.
def Serves (fd : Fd) (given : List Answer) (w : World) : Result → Prop
  | .ok w' => Served fd given w w'
  | .error t => Served fd [] w t.world ∧ (given = [] ∨ given = [.reply])

section Kinds

theorem answerOf_ack : answerOf encodeAck = some .ack := by
  obtain ⟨msg, hr, ht⟩ := readable_plain T_ACK
  have hd : decode encodeAck = .ok msg := hr.decoded
  simp [answerOf, hd, ht]

theorem answerOf_reply (fields : Value) (h : Plain fields) :
    answerOf (encodeCtlReply fields) = some .reply := by
  obtain ⟨msg, hd, ht⟩ := decode_ctlReply fields h
  have hne : T_CTL_REPLY ≠ T_ACK := by decide
  simp [answerOf, hd, ht, hne]

theorem answerOf_config (dimTimeout sleepTimeout : Int32) :
    answerOf (encodeConfig dimTimeout sleepTimeout) = none := by
  obtain ⟨msg, hd, ht, -⟩ := decode_config dimTimeout sleepTimeout
  have hne : T_CONFIG ≠ T_ACK ∧ T_CONFIG ≠ T_CTL_REPLY := by decide
  simp [answerOf, hd, ht, hne]

theorem answerOf_lock : answerOf encodeLock = none := by
  obtain ⟨msg, hr, ht⟩ := readable_plain T_LOCK
  have hd : decode encodeLock = .ok msg := hr.decoded
  have hne : T_LOCK ≠ T_ACK ∧ T_LOCK ≠ T_CTL_REPLY := by decide
  simp [answerOf, hd, ht, hne]

theorem Unasked.answerOf {msg : Bytes} (h : Unasked msg) : answerOf msg = none := by
  rcases h with rfl | ⟨dimTimeout, sleepTimeout, rfl⟩
  · exact answerOf_lock
  · exact answerOf_config _ _

theorem Unasked.encoded {msg : Bytes} (h : Unasked msg) : Encoded msg := by
  rcases h with rfl | ⟨dimTimeout, sleepTimeout, rfl⟩
  · exact .lock
  · exact .config _ _

theorem Io.IsAside.fits (agents : Agents) (e : Io) (h : e.IsAside agents) : e.Fits agents := by
  cases e with
  | sent fd msg ok => exact ⟨h.2.encoded, .inl h.1⟩
  | _ => exact h

theorem Io.IsAside.answerOn {agents : Agents} {e : Io} (h : e.IsAside agents) (fd : Fd) :
    e.answerOn fd = none := by
  cases e with
  | sent other msg ok =>
      by_cases ho : other = fd
      · simpa [Io.answerOn, ho] using h.2.answerOf
      · simp [Io.answerOn, ho]
  | _ => rfl

theorem Io.IsPolicy.isAside (agents : Agents) (e : Io) (h : e.IsPolicy) : e.IsAside agents := by
  cases e <;> first | exact trivial | exact absurd h id

@[simp]
theorem ledger_append (trace : List Io) (e : Io) :
    ledger (trace ++ [e]) = ledgerStep (ledger trace) e := by
  simp [ledger]

theorem ledger_of_fits {agents : Agents} {trace trace' : List Io}
    (h : Trace.Grows (Io.Fits agents) trace trace') : ledger trace' = ledger trace := by
  refine h.foldl_eq ledgerStep (fun h e he => ?_) _
  cases e <;> first | rfl | exact absurd he id

theorem answers_of_asides {agents : Agents} {trace trace' : List Io}
    (h : Trace.Grows (Io.IsAside agents) trace trace') (fd : Fd) : answers fd trace' = answers fd trace := by
  obtain ⟨out, rfl, hk⟩ := h
  have hnone : out.filterMap (Io.answerOn fd) = [] :=
    List.filterMap_eq_nil_iff.mpr fun e he => (hk e he).answerOn fd
  simp [answers, hnone]

theorem Served.of_asides {w w' : World} (fd : Fd)
    (h : Trace.Grows (Io.IsAside w'.agents) w.trace w'.trace) : Served fd [] w w' :=
  ⟨h.mono (Io.IsAside.fits _), fun other => by simp [answers_of_asides h other]⟩

-- The answer comes last.
theorem Served.send {env : Env} {w w' : World} {fd : Fd} {msg : Bytes} {a : Answer}
    (h : Trace.Grows (Io.IsAside w'.agents) w.trace w'.trace) (hm : answerOf msg = some a)
    (he : Encoded msg) (ha : fd ∈ w'.agents ∨ a = .reply) :
    Served fd [a] w (Daemon.send env fd msg w') := by
  refine ⟨(h.mono (Io.IsAside.fits _)).trans (.single _ ⟨he, ?_⟩), fun other => ?_⟩
  · exact ha.imp id fun (he : a = .reply) => by rw [hm, he]
  · have hsent : (Daemon.send env fd msg w').trace = w'.trace ++ [.sent fd msg _] := rfl
    rw [hsent, ← answers_of_asides h other]
    by_cases ho : other = fd
    · simp [Daemon.answers, Io.answerOn, ho, hm]
    · simp [Daemon.answers, Io.answerOn, ho, Ne.symm ho]

-- Along a run that has kept the ledger's agents, what fits is addressed rightly.
theorem Each.of_fits {agents : Agents} {trace trace' : List Io} (h : Trace.Each Addressed trace)
    (hg : Trace.Grows (Io.Fits agents) trace trace')
    (ha : ∀ fd ∈ agents, (ledger trace fd).registered = true) : Trace.Each Addressed trace' := by
  obtain ⟨out, rfl, hk⟩ := hg
  refine h.append (fun _ _ _ hp => hp) ?_
  rintro before _ after rfl fd msg ok rfl
  have hbefore : Trace.Grows (Io.Fits agents) trace (trace ++ before) :=
    ⟨before, rfl, fun e he => hk e (by simp [he])⟩
  rw [ledger_of_fits hbefore]
  obtain ⟨he, haddressed⟩ := hk (.sent fd msg ok) (by simp)
  exact ⟨he, haddressed.imp (ha fd) id⟩

end Kinds

section Effects

variable (env : Env)

-- The second part of a call runs only after the first has returned.
theorem grows_bind {kind : Io → Prop} {w : World} {x : Result} {f : World → Result}
    (hx : Trace.Grows kind w.trace x.world.trace)
    (hf : ∀ w', x = .ok w' → Trace.Grows kind w'.trace (f w').world.trace) :
    Trace.Grows kind w.trace (Result.world (x >>= f)).trace := by
  cases x with
  | error t => exact hx
  | ok w' => exact hx.trans (hf w' rfl)

theorem setBrightnessPercent_asides (agents : Agents) (pct : Int32) (w : World) :
    Trace.Grows (Io.IsAside agents) w.trace (setBrightnessPercent env pct w).world.trace := by
  unfold setBrightnessPercent
  cases w.sysfs.backlight with
  | none => exact .refl _
  | some b =>
      dsimp only
      split
      · exact .refl _
      · split
        · exact .refl _
        · exact .single _ trivial

theorem setCpuFile_asides (agents : Agents) (read : CpuPolicy → Bytes)
    (store : CpuPolicy → Bytes → CpuPolicy) (value : Bytes) (w : World) :
    Trace.Grows (Io.IsAside agents) w.trace (setCpuFile env read store value w).trace := by
  unfold setCpuFile
  split
  · exact .refl _
  · exact (writePolicies_emits env read store value w.sysfs.policies w).keeps.grows.mono
      (Io.IsPolicy.isAside agents)

theorem apply_asides (agents : Agents) (p : Profile) (w : World) :
    Trace.Grows (Io.IsAside agents) w.trace (apply env p w).world.trace :=
  (Trace.Grows.single _ (e := .apply) trivial).trans ((setCpuFile_asides env agents _ _ _ _).trans
    ((setCpuFile_asides env agents _ _ _ _).trans (setBrightnessPercent_asides env agents _ _)))

theorem dim_asides (agents : Agents) (p : Profile) (w : World) :
    Trace.Grows (Io.IsAside agents) w.trace (dim env p w).world.trace := by
  have hm : Trace.Grows (Io.IsAside agents) w.trace (w.emit .dim).trace := .single _ trivial
  unfold dim
  dsimp only
  split
  · exact hm
  · exact hm.trans (setBrightnessPercent_asides env agents _ _)

theorem undim_asides (agents : Agents) (p : Profile) (w : World) :
    Trace.Grows (Io.IsAside agents) w.trace (undim env p w).world.trace := by
  have hm : Trace.Grows (Io.IsAside agents) w.trace (w.emit .undim).trace := .single _ trivial
  exact hm.trans (grows_bind (setBrightnessPercent_asides env agents _ _) fun _ _ => .refl _)

theorem sendConfig_asides {agents : Agents} {fd : Fd} (h : fd ∈ agents) (w : World) :
    Trace.Grows (Io.IsAside agents) w.trace (sendConfig env fd w).trace :=
  .single _ ⟨h, .inr ⟨_, _, rfl⟩⟩

-- The loop of broadcast_config, by induction on the agents still to come.
theorem sendConfigs_asides {table : Agents} (agents : List (Σ _ : Fd, AgentState))
    (h : ∀ a ∈ agents, a.1 ∈ table) (w : World) :
    Trace.Grows (Io.IsAside table) w.trace (agents.foldl (fun w a => sendConfig env a.1 w) w).trace := by
  induction agents generalizing w with
  | nil => exact .refl _
  | cons a rest ih =>
      exact (sendConfig_asides env (h a (by simp)) w).trans (ih (fun b hb => h b (by simp [hb])) _)

theorem mem_of_entry {agents : Agents} {a : Σ _ : Fd, AgentState} (h : a ∈ agents.entries) :
    a.1 ∈ agents :=
  AList.mem_keys.mpr (List.mem_map_of_mem h)

theorem broadcastConfig_asides (w : World) :
    Trace.Grows (Io.IsAside w.agents) w.trace (broadcastConfig env w).trace :=
  sendConfigs_asides env _ (fun _ ha => mem_of_entry ((env.agentOrder_perm _ _).mem_iff.mp ha)) w

theorem sendLockToActiveAgent_asides (w : World) :
    Trace.Grows (Io.IsAside w.agents) w.trace (sendLockToActiveAgent env w).trace := by
  rcases sendLockToActiveAgent_routes env w with ⟨a, ha, -, hs⟩ | ⟨-, ⟨a, ha, hs⟩ | ⟨-, hs⟩⟩
  · rw [hs]
    exact .single _ ⟨mem_of_entry ha, .inl rfl⟩
  · rw [hs]
    exact .single _ ⟨mem_of_entry (by simp [ha]), .inl rfl⟩
  · rw [hs]
    exact .refl _

theorem runHwAction_asides (agents : Agents) (action : Bytes) (w : World) :
    Trace.Grows (Io.IsAside agents) w.trace (runHwAction action w).trace := by
  unfold runHwAction
  split
  · exact .refl _
  · exact .single _ trivial

-- No connection is marked, so that pre_sleep goes to nobody.
theorem doSuspend_asides (action : Bytes) (w : World) (h : Unmarked w) :
    Trace.Grows (Io.IsAside w.agents) w.trace (doSuspend env action w).trace := by
  have hm : Trace.Grows (Io.IsAside w.agents) w.trace (w.emit (.suspend action)).trace := .single _ trivial
  have hlock : Trace.Grows (Io.IsAside w.agents) (w.emit (.suspend action)).trace
      (sendLockToActiveAgent env (w.emit (.suspend action))).trace :=
    sendLockToActiveAgent_asides env (w.emit (.suspend action))
  rw [doSuspend_unmarked env action w h]
  exact hm.trans (hlock.trans (runHwAction_asides _ _ _))

theorem onChange_asides (w : World) :
    Trace.Grows (Io.IsAside w.agents) w.trace (onChange env w).world.trace := by
  unfold onChange
  split
  · exact broadcastConfig_asides env w
  · rename_i p _
    refine grows_bind (apply_asides env w.agents p w) fun w' hw' => ?_
    have hk := apply_keeps env p w
    rw [hw', Result.world_ok] at hk
    exact hk.agents ▸ broadcastConfig_asides env w'

theorem persistActive_asides (agents : Agents) (w : World) :
    Trace.Grows (Io.IsAside agents) w.trace (persistActive env w).trace := by
  unfold persistActive
  split
  · exact .refl _
  · split
    · exact .refl _
    · exact .single _ trivial

end Effects

section Messages

variable (env : Env)

theorem onCtl_eq (fd : Fd) (msg : Value) (w : World) :
    onCtl env fd msg w = (carryOut env msg w).map fun r => reply env fd r.1 r.2 := by
  unfold onCtl carryOut
  dsimp only
  split_ifs
  · rfl
  · cases setActive env (msg.str (bytes "profile") []) w <;> rfl
  · rfl
  · rfl
  · rfl
  · cases reloadConfig env w <;> rfl
  · rfl
  · rfl

theorem setActive_asides (name : Bytes) (w : World) :
    match setActive env name w with
    | .ok r => Keeps Io.IsRoutine w r.2 ∧ Trace.Grows (Io.IsAside w.agents) w.trace r.2.trace
    | .error t => Trace.Grows (Io.IsAside w.agents) w.trace t.world.trace := by
  rcases setActive_cases env name w with ⟨-, he⟩ | ⟨config, -, he⟩
  · rw [he]
    exact ⟨.refl w, .refl _⟩
  · have hp := persistActive_asides env w.agents { w with config := config }
    have hk := (Keeps.config w config).trans (persistActive_keeps env { w with config := config })
    have hc := onChange_asides env (persistActive env { w with config := config })
    have hck := onChange_keeps env (persistActive env { w with config := config })
    rw [hk.agents] at hc
    rw [he]
    cases hr : onChange env (persistActive env { w with config := config }) with
    | error t =>
        rw [hr] at hc
        exact hp.trans hc
    | ok w' =>
        rw [hr] at hc hck
        exact ⟨hk.trans hck, hp.trans hc⟩

theorem reloadConfig_asides (w : World) :
    Trace.Grows (Io.IsAside w.agents) w.trace (reloadConfig env w).world.trace := by
  unfold reloadConfig
  split
  · exact .refl _
  · rename_i config _
    exact onChange_asides env { w with config := config }

-- Until the reply, a command only speaks to agents and answers nobody.
theorem carryOut_asides (msg : Value) (w : World) :
    match carryOut env msg w with
    | .ok r => (∀ e ∈ r.1, Plain e.2) ∧ r.2.agents = w.agents ∧
        Trace.Grows (Io.IsAside w.agents) w.trace r.2.trace
    | .error t => Trace.Grows (Io.IsAside w.agents) w.trace t.world.trace := by
  unfold carryOut
  dsimp only
  split_ifs
  · exact ⟨by simp [ok, Plain], rfl, .refl _⟩
  · have h := setActive_asides env (msg.str (bytes "profile") []) w
    cases hr : setActive env (msg.str (bytes "profile") []) w with
    | error t =>
        rw [hr] at h
        exact h
    | ok r =>
        rw [hr] at h
        refine ⟨?_, h.1.agents, h.2⟩
        cases r.1 <;> simp [ok, Plain]
  · exact ⟨by simp [ok, Plain, plainElements_iff], rfl, .refl _⟩
  · exact ⟨by simp [ok, Plain], (sendLockToActiveAgent_emits env w).keeps.agents,
      sendLockToActiveAgent_asides env w⟩
  · exact ⟨by simp [ok, Plain, inhibitors_plain], rfl, .refl _⟩
  · have hk := reloadConfig_keeps env w
    have ha := reloadConfig_asides env w
    cases hr : reloadConfig env w with
    | error t =>
        rw [hr] at hk ha
        exact ⟨by simp [ok, Plain], hk.agents, ha⟩
    | ok w' =>
        rw [hr] at hk ha
        exact ⟨by simp [ok, Plain], hk.agents, ha⟩
  · exact ⟨batteryFields_plain _, rfl, .refl _⟩
  · exact ⟨by simp [ok, Plain], rfl, .refl _⟩

theorem updateInhibits_served (update : Bytes → List Bytes → List Bytes) (fd : Fd) (msg : Value)
    (w : World) (h : fd ∈ w.agents) :
    Served fd [.ack] w (updateInhibits env update fd msg w) := by
  obtain ⟨agent, hl⟩ := Option.isSome_iff_exists.mp (AList.lookup_isSome.mpr h)
  simp only [updateInhibits, hl]
  exact .send (w := w) (.refl _) answerOf_ack .ack (.inl ((AList.mem_insert _).mpr (.inl rfl)))

theorem onIdleDim_asides (agents : Agents) (fd : Fd) (w : World) :
    Trace.Grows (Io.IsAside agents) w.trace (onIdleDim env fd w).world.trace := by
  have hreport : Trace.Grows (Io.IsAside agents) w.trace (w.emit (.report fd .idleDim)).trace :=
    .single _ trivial
  unfold onIdleDim
  dsimp only
  split
  · exact hreport
  split
  · exact hreport
  split
  · exact hreport
  split
  · exact hreport
  · exact hreport.trans (grows_bind (dim_asides env agents _ _) fun _ _ => .refl _)

theorem onActive_asides (agents : Agents) (fd : Fd) (w : World) :
    Trace.Grows (Io.IsAside agents) w.trace (onActive env fd w).world.trace := by
  have hreport : Trace.Grows (Io.IsAside agents) w.trace (w.emit (.report fd .active)).trace :=
    .single _ trivial
  unfold onActive
  dsimp only
  split
  · exact hreport
  split
  · exact hreport
  split
  · exact hreport
  · exact hreport.trans (grows_bind (undim_asides env agents _ _) fun _ _ => .refl _)

theorem onIdleSleep_asides (fd : Fd) (w : World) (h : Unmarked w) :
    Trace.Grows (Io.IsAside w.agents) w.trace (onIdleSleep env fd w).trace := by
  have hreport : Trace.Grows (Io.IsAside w.agents) w.trace (w.emit (.report fd .idleSleep)).trace :=
    .single _ trivial
  unfold onIdleSleep
  dsimp only
  split
  · exact hreport
  split
  · exact hreport
  split
  · exact hreport
  split
  · exact hreport
  · exact hreport.trans (doSuspend_asides env _ (w.emit (.report fd .idleSleep)) h)

theorem onEvent_asides (e : HwEvent) (w : World) (h : Unmarked w) :
    Trace.Grows (Io.IsAside w.agents) w.trace (onEvent env e w).trace := by
  have hm : Trace.Grows (Io.IsAside w.agents) w.trace (w.emit (.button e)).trace := .single _ trivial
  unfold onEvent
  dsimp only
  split
  · exact hm
  · split_ifs
    · exact hm
    · exact hm.trans (doSuspend_asides env _ (w.emit (.button e)) h)
    · exact hm.trans (runHwAction_asides _ _ _)

theorem due_ctl (registered : Bool) {msg : Value} (h : msgType msg = T_CTL) :
    due registered msg = [.reply] :=
  if_pos h

theorem due_reason {msg : Value} (h : msgType msg = T_INHIBIT ∨ msgType msg = T_UNINHIBIT) :
    due true msg = [.ack] := by
  have hne : msgType msg ≠ T_CTL := by
    rcases h with h | h <;> rw [h] <;> decide
  simp [due, hne, h]

theorem due_nothing (registered : Bool) {msg : Value} (hc : msgType msg ≠ T_CTL)
    (hi : msgType msg ≠ T_INHIBIT) (hu : msgType msg ≠ T_UNINHIBIT) : due registered msg = [] := by
  simp [due, hc, hi, hu]

-- A report is answered by nothing, and may end the daemon.
theorem served_report {fd : Fd} {w : World} {x : Result} {given : List Answer} (hg : given = [])
    (hx : Trace.Grows (Io.IsAside x.world.agents) w.trace x.world.trace) : Serves fd given w x := by
  subst hg
  cases x with
  | ok w' => exact .of_asides fd hx
  | error t => exact ⟨.of_asides fd hx, .inl rfl⟩

-- A message is answered as it is due, unless an exception ends the daemon before.
theorem onMessage_serves (fd : Fd) (msg : Value) (w : World) (h : Unmarked w) :
    Serves fd (due (decide (fd ∈ w.agents)) msg) w (onMessage env fd msg w) := by
  by_cases hh : msgType msg = T_HELLO
  · have hd : due (decide (fd ∈ w.agents)) msg = [] := by
      apply due_nothing
      all_goals
        rw [hh]
        decide
    simp only [onMessage, hh, if_true, hd]
    refine .of_asides fd ?_
    rw [onHello, (sendConfig_emits env fd _).keeps.agents]
    exact sendConfig_asides env ((AList.mem_insert _).mpr (.inl rfl)) _
  by_cases hc : msgType msg = T_CTL
  · have hs := carryOut_asides env msg w
    have hk := onCtl_keeps env fd msg w
    rw [onMessage_ctl env hc, due_ctl _ hc]
    rw [onCtl_eq] at hk ⊢
    cases hr : carryOut env msg w with
    | error t =>
        rw [hr] at hs hk
        exact ⟨.of_asides fd (hk.agents ▸ hs), .inr rfl⟩
    | ok r =>
        rw [hr] at hs
        obtain ⟨hplain, ha, hg⟩ := hs
        exact .send (ha ▸ hg) (answerOf_reply _ (plain_fields _ hplain)) (.ctlReply _ (plain_fields _ hplain))
          (.inr rfl)
  by_cases ha : fd ∈ w.agents
  · simp only [onMessage, hh, hc, ha, if_false, decide_true, not_true]
    by_cases hr : msgType msg = T_INHIBIT ∨ msgType msg = T_UNINHIBIT
    · have hrep : msgType msg ≠ T_IDLE_DIM ∧ msgType msg ≠ T_IDLE_SLEEP ∧ msgType msg ≠ T_ACTIVE := by
        rcases hr with hr | hr <;> rw [hr] <;> decide
      simp only [hrep, if_false, due_reason hr]
      rcases hr with hr | hr
      · simp only [hr, if_true]
        exact updateInhibits_served env _ fd msg w ha
      · have hne : T_UNINHIBIT ≠ T_INHIBIT := by decide
        simp only [hr, hne, if_true, if_false]
        exact updateInhibits_served env _ fd msg w ha
    · obtain ⟨hi, hu⟩ := not_or.mp hr
      have hd := due_nothing true hc hi hu
      refine served_report hd ?_
      split_ifs
      · exact onIdleDim_asides env _ fd w
      · have hk := (onIdleSleep_emits env fd w).keeps
        rw [Result.world_ok, hk.agents]
        exact onIdleSleep_asides env fd w h
      · exact onActive_asides env _ fd w
      · exact .refl _
  · have hd : due (decide (fd ∈ w.agents)) msg = [] := by simp [due, hc, ha]
    rw [hd]
    simp only [onMessage, hh, hc, ha, if_false, if_true, not_false_iff]
    exact .of_asides fd (.refl _)

end Messages

-- The books are right: they agree with the table, and nothing is due.
structure Accounted (w : World) : Prop where
  unmarked : Unmarked w
  registered : ∀ fd, (ledger w.trace fd).registered = decide (fd ∈ w.agents)
  answered : Answered w
  addressed : Trace.Each Addressed w.trace

section Runs

variable (env : Env)

theorem Answered.eq {w : World} (h : Answered w) (he : w.exited = false) (fd : Fd) :
    answers fd w.trace = (ledger w.trace fd).owed := by
  rcases h fd with h | ⟨hx, -⟩
  · exact h
  · rw [he] at hx
    cases hx

theorem Each.addressed_single {trace : List Io} (h : Trace.Each Addressed trace) {e : Io}
    (he : ∀ fd msg ok, e ≠ .sent fd msg ok) : Trace.Each Addressed (trace ++ [e]) := by
  refine h.append (fun _ _ _ hp => hp) ?_
  rintro before e' after heq fd msg ok rfl
  have hmem : Io.sent fd msg ok ∈ [e] := by simp [heq]
  exact absurd (List.mem_singleton.mp hmem).symm (he fd msg ok)

theorem Accounted.asides {w w' : World} (h : Accounted w) (hu : Unmarked w')
    (ha : w'.agents = w.agents) (he : w'.exited = w.exited)
    (hg : Trace.Grows (Io.IsAside w.agents) w.trace w'.trace) : Accounted w' := by
  have hl := ledger_of_fits (hg.mono (Io.IsAside.fits _))
  refine ⟨hu, fun fd => ?_, fun fd => ?_, ?_⟩
  · rw [hl, ha]
    exact h.registered fd
  · rw [hl, answers_of_asides hg, he]
    exact h.answered fd
  · exact Each.of_fits h.addressed (hg.mono (Io.IsAside.fits _)) fun fd hfd => by
      simpa using (h.registered fd).trans (decide_eq_true hfd)

theorem hear_isSome (agent : Option AgentState) (msg : Value) :
    (hear agent msg).isSome = (agent.isSome || decide (msgType msg = T_HELLO)) := by
  unfold hear
  by_cases hh : msgType msg = T_HELLO
  · simp [hh]
  · dsimp only
    split_ifs <;> simp [hh]

-- The table and the ledger hear the same.
theorem registered_line {w w' : World} {fd : Fd} {line : Bytes} {msg : Value} (h : Accounted w)
    (hd : decode line = .ok msg) (hh : Heard fd msg (w.emit (.line fd line)) w') (other : Fd) :
    (ledger (w.emit (.line fd line)).trace other).registered = decide (other ∈ w'.agents) := by
  have hmem : decide (other ∈ w'.agents) = (w'.agents.lookup other).isSome := by
    rw [Bool.eq_iff_iff, decide_eq_true_iff, AList.lookup_isSome]
  have hold : decide (fd ∈ w.agents) = (w.agents.lookup fd).isSome := by
    rw [Bool.eq_iff_iff, decide_eq_true_iff, AList.lookup_isSome]
  rw [hmem, hh.lookup, World.emit_trace, ledger_append]
  simp only [ledgerStep, hd]
  by_cases ho : other = fd
  · subst ho
    rw [Function.update_self, if_pos rfl, hear_isSome, World.emit_agents, ← hold]
    simp [Ledger.hear, h.registered]
  · rw [Function.update_of_ne ho, if_neg ho, World.emit_agents, h.registered, Bool.eq_iff_iff,
      decide_eq_true_iff, AList.lookup_isSome]

theorem Heard.unmarked {w w' : World} {fd : Fd} {msg : Value} (h : Heard fd msg w w')
    (hu : Unmarked w) : Unmarked w' := by
  intro other c hl
  rw [h.conns] at hl
  exact hu other c hl

theorem line_accounted (fd : Fd) (line : Bytes) (msg : Value) (w : World) (h : Accounted w)
    (he : w.exited = false) (hd : decode line = .ok msg) :
    Accounted (perform env (.line fd line) w).settle := by
  have hheard := perform_message env fd line msg w hd
  have hserves := onMessage_serves env fd msg (w.emit (.line fd line)) h.unmarked
  have hreg := registered_line h hd hheard
  have hbefore : ∀ other, answers other (w.emit (.line fd line)).trace = (ledger w.trace other).owed := by
    intro other
    rw [← h.answered.eq he other]
    simp [answers, Io.answerOn]
  have howed : ∀ other, (ledger (w.emit (.line fd line)).trace other).owed =
      (ledger w.trace other).owed ++ if other = fd then due (decide (fd ∈ w.agents)) msg else [] := by
    intro other
    rw [World.emit_trace, ledger_append]
    simp only [ledgerStep, hd]
    by_cases ho : other = fd
    · subst ho
      simp [Ledger.hear, h.registered]
    · simp [ho]
  have hperform : perform env (.line fd line) w = onMessage env fd msg (w.emit (.line fd line)) := by
    simp [perform, onLine, hd]
  rw [hperform] at hheard hreg ⊢
  cases hr : onMessage env fd msg (w.emit (.line fd line)) with
  | ok w' =>
      rw [hr] at hheard hreg hserves
      have hs : Served fd (due (decide (fd ∈ w.agents)) msg) (w.emit (.line fd line)) w' := hserves
      have hl := ledger_of_fits hs.fits
      refine ⟨hheard.unmarked h.unmarked, fun other => ?_, fun other => .inl ?_, ?_⟩
      · rw [Result.settle_ok, hl]
        exact hreg other
      · rw [Result.settle_ok, hl, hs.answers, hbefore, howed]
      · exact Each.of_fits (Each.addressed_single h.addressed (by simp)) hs.fits fun other hother =>
          (hreg other).trans (decide_eq_true hother)
  | error t =>
      rw [hr] at hheard hreg hserves
      obtain ⟨hs, hgiven⟩ :
          Served fd [] (w.emit (.line fd line)) t.world ∧ (due (decide (fd ∈ w.agents)) msg = [] ∨
            due (decide (fd ∈ w.agents)) msg = [.reply]) := hserves
      have hl := ledger_of_fits hs.fits
      refine ⟨hheard.unmarked h.unmarked, fun other => ?_, fun other => ?_, ?_⟩
      · rw [Result.settle_agents, Result.settle_trace, Result.world_error, hl]
        exact hreg other
      · rw [Result.settle_trace, Result.world_error, hl, hs.answers, hbefore, howed]
        by_cases ho : other = fd
        · rcases hgiven with hg | hg
          · exact .inl (by simp [hg])
          · exact .inr ⟨rfl, by simp [ho, hg]⟩
        · exact .inl (by simp [ho])
      · rw [Result.settle_trace]
        exact Each.of_fits (Each.addressed_single h.addressed (by simp)) hs.fits fun other hother =>
          (hreg other).trans (decide_eq_true hother)

theorem Unmarked.erase {w : World} (h : Unmarked w) (fd : Fd) :
    Unmarked { w with conns := w.conns.erase fd } := by
  intro other c hl
  by_cases ho : other = fd
  · subst ho
    rw [AList.lookup_erase] at hl
    cases hl
  · rw [AList.lookup_erase_ne ho] at hl
    exact h other c hl

theorem malformed_accounted (fd : Fd) (line : Bytes) (e : Exn) (w : World) (h : Accounted w)
    (hd : decode line = .error e) : Accounted (closeClient fd (w.emit (.line fd line))) := by
  have hl : ledger (closeClient fd (w.emit (.line fd line))).trace = ledger w.trace := by
    rw [closeClient, World.emit_trace, World.emit_trace, ledger_append, ledger_append]
    simp only [ledgerStep, hd]
  have ha : ∀ other, answers other (closeClient fd (w.emit (.line fd line))).trace =
      answers other w.trace := by
    intro other
    simp [closeClient, answers, Io.answerOn]
  refine ⟨h.unmarked.erase fd, fun other => ?_, fun other => ?_, ?_⟩
  · rw [hl]
    exact h.registered other
  · rw [hl, ha]
    exact h.answered other
  · exact Each.addressed_single (Each.addressed_single h.addressed (by simp)) (by simp)

-- on_disconnect drops the entry, and the ledger notes it.
theorem hangUp_accounted (fd : Fd) (w : World) (h : Accounted w) :
    Accounted (closeClient fd (onDisconnect fd w)) := by
  have hl : ledger (closeClient fd (onDisconnect fd w)).trace =
      Function.update (ledger w.trace) fd { ledger w.trace fd with registered := false } := by
    rw [closeClient, onDisconnect, World.emit_trace, World.emit_trace, ledger_append, ledger_append]
    rfl
  refine ⟨h.unmarked.erase fd, fun other => ?_, fun other => ?_, ?_⟩
  · have hmem : other ∈ (closeClient fd (onDisconnect fd w)).agents ↔ other ≠ fd ∧ other ∈ w.agents :=
      AList.mem_erase
    rw [hl, Bool.eq_iff_iff, decide_eq_true_iff, hmem]
    by_cases ho : other = fd
    · simp [ho]
    · simp [ho, h.registered]
  · have ha : answers other (closeClient fd (onDisconnect fd w)).trace = answers other w.trace := by
      simp [closeClient, onDisconnect, answers, Io.answerOn]
    rw [hl, ha]
    by_cases ho : other = fd
    · subst ho
      rw [Function.update_self]
      exact h.answered other
    · rw [Function.update_of_ne ho]
      exact h.answered other
  · exact Each.addressed_single (Each.addressed_single h.addressed (by simp)) (by simp)

theorem button_accounted (e : HwEvent) (w : World) (h : Accounted w) : Accounted (onEvent env e w) := by
  have hk := (onEvent_emits env e w).keeps
  refine h.asides (fun fd c hl => h.unmarked fd c ?_) hk.agents hk.exited (onEvent_asides env e w h.unmarked)
  rwa [hk.conns] at hl

theorem step_accounted (s : State) (move : Move) (h : Accounted s.world) :
    Accounted (step env s move).world := by
  have hu := step_unmarked env s move h.unmarked
  have hstep := step_stepped env s move
  generalize step env s move = s' at hstep hu ⊢
  cases hstep with
  | idle => exact h
  | input => exact h
  | outside => exact h.asides hu rfl rfl (.refl _)
  | feed => exact h.asides hu rfl rfl (.refl _)
  | signal m _ _ =>
      have hs := handleSeatProperties_seated m s.world
      exact h.asides hu hs.agents hs.exited (hs.grows.mono fun e ⟨_, he⟩ => he ▸ trivial)
  | accept r fd _ _ _ => exact h.asides hu rfl rfl (.single _ (e := Io.accepted fd) trivial)
  | call c rest _ he =>
      cases c with
      | button e => exact button_accounted env e s.world h
      | hangUp fd => exact hangUp_accounted fd s.world h
      | line fd line =>
          cases hd : decode line with
          | error e =>
              rw [perform_malformed env fd line e s.world hd]
              exact malformed_accounted fd line e s.world h hd
          | ok msg => exact line_accounted env fd line msg s.world h he hd

theorem started_asides (w : World) (h : Started env w) : Trace.Grows (Io.IsAside w.agents) [] w.trace := by
  obtain ⟨path, file, sysfs, sessionId, h⟩ := h
  obtain ⟨config, -, h⟩ := (bind_ok_iff _ _ _).mp h
  dsimp only at h
  split at h
  · cases h
    exact .refl _
  · rename_i p _
    generalize hw₀ : (World.mk _ _ _ _ _ _ _ _ _ _) = w₀ at h
    have ha := apply_asides env w.agents p w₀
    cases hr : apply env p w₀ with
    | error t =>
        rw [hr] at h
        cases h
    | ok w' =>
        rw [hr] at h ha
        cases h
        subst hw₀
        exact ha

theorem started_accounted (w : World) (h : Started env w) : Accounted w := by
  obtain ⟨hc, ha, -, he, -⟩ := started_spec env w h
  have hnew : Accounted { w with trace := [] } := by
    refine ⟨fun fd c hl => ?_, fun fd => ?_, fun fd => .inl rfl, Trace.each_nil _⟩
    · have hnone : w.conns.lookup fd = some c := hl
      rw [hc] at hnone
      cases hnone
    · have hnone : fd ∉ w.agents := ha ▸ AList.notMem_empty fd
      exact (decide_eq_false hnone).symm
  exact hnew.asides hnew.unmarked rfl rfl (started_asides env w h)

theorem run_accounted (w : World) (h : Started env w) (moves : List Move) :
    Accounted (run env w moves).world :=
  Run.invariant_always (step env) (fun s => Accounted s.world) (step_accounted env) moves
    (started_accounted env w h)

-- Whatever the clients send, and in whatever order the daemon comes to handle it,
-- each connection has been written one reply for each command handled from it and
-- one ack for each inhibit and uninhibit of a registered client, in this order.
theorem answered_run (w : World) (h : Started env w) (moves : List Move) :
    Answered (run env w moves).world :=
  (run_accounted env w h moves).answered

-- A config, a lock, an ack or a pre_sleep goes to registered clients only, and nothing
-- that is no message goes to any.
theorem addressed_run (w : World) (h : Started env w) (moves : List Move) :
    Trace.Each Addressed (run env w moves).world.trace :=
  (run_accounted env w h moves).addressed

end Runs

-- A client asks for the status, says hello, inhibits and asks again, in one feed.
def mixedRequests : List Move :=
  [accept 7, readable 7 (encodeCtl (bytes "status") [] ++ [10] ++ encodeHello (bytes "1") 1000 ++ [10] ++
      encodeInhibit (bytes "x") ++ [10] ++ encodeCtl (bytes "lock") [] ++ [10]),
    .call, .call, .call, .call]

theorem answered_mixed :
    ∃ w, sampleStart = .ok w ∧ Answered (run .plain w mixedRequests).world :=
  ⟨_, rfl, answered_run .plain _ (sample_started rfl) mixedRequests⟩

theorem addressed_mixed :
    ∃ w, sampleStart = .ok w ∧ Trace.Each Addressed (run .plain w mixedRequests).world.trace :=
  ⟨_, rfl, addressed_run .plain _ (sample_started rfl) mixedRequests⟩

end Draind.Daemon
