import Draind.Daemon.IdleActions
import Draind.Shared.Message

namespace Draind.Daemon

open Json Proto

-- The message in a line, if it is a config message.
def configOf (line : Bytes) : Option Value :=
  match decode line with
  | .error _ => none
  | .ok msg => if msgType msg = T_CONFIG then some msg else none

def configStep (h : Fd → Option Value) : Io → Fd → Option Value
  | .accepted fd => Function.update h fd none
  | .sent fd msg true => Function.update h fd ((configOf msg).or (h fd))
  | _ => h

-- The last config message sent on the connection of fd, since it was accepted.
def lastConfig (trace : List Io) : Fd → Option Value :=
  trace.foldl configStep fun _ => none

-- fd was last told the timeouts of the profile that is active now, or zeros.
def Told (w : World) (fd : Fd) : Prop :=
  ∃ msg, lastConfig w.trace fd = some msg ∧
    msg.num (bytes "dim_timeout") 0 = ((w.activeProfile.map Profile.dimTimeout).getD 0).toInt64 ∧
    msg.num (bytes "sleep_timeout") 0 = ((w.activeProfile.map Profile.sleepTimeout).getD 0).toInt64

-- A hello has come on the connection that is open on fd.
def SaidHello (w : World) (fd : Fd) : Prop :=
  ∃ messages, received w.trace fd = some messages ∧ ∃ msg ∈ messages, msgType msg = T_HELLO

-- Whoever is registered, by the table or by what has come, has been told.
def TimeoutsFollow (w : World) : Prop :=
  ∀ fd, fd ∈ w.agents ∨ SaidHello w fd → Told w fd

-- max_brightness, where there is one, is an int.
def MaxReads (s : Sysfs) : Prop :=
  ∀ b, s.backlight = some b →
    readFile b.maxBrightness = [] ∨ ∃ n, stoi (readFile b.maxBrightness) = .ok n

-- The line about to be handled decodes, and whoever changes sysfs leaves an int there.
def Orderly (s : State) (move : Move) : Prop :=
  Decodes s move ∧
    match move with
    | .outside _ sysfs => MaxReads sysfs
    | _ => True

-- What neither opens a connection nor tells anybody a config.
def Io.IsOther : Io → Prop
  | .accepted _ => False
  | .sent _ msg _ => configOf msg = none
  | _ => True

-- What holds between two handled messages.
structure Following (w : World) : Prop where
  maxReads : MaxReads w.sysfs
  opened : ∀ fd ∈ w.agents, fd ∈ w.conns
  follow : ∀ fd ∈ w.agents, Told w fd

-- What has been told stays right.
structure Leaves (w w' : World) : Prop where
  config : w'.config = w.config
  maxReads : MaxReads w.sysfs → MaxReads w'.sysfs
  grows : Trace.Grows Io.IsOther w.trace w'.trace

section Told

@[simp]
theorem lastConfig_append (trace : List Io) (e : Io) :
    lastConfig (trace ++ [e]) = configStep (lastConfig trace) e := by
  simp [lastConfig]

theorem lastConfig_of_grows {trace trace' : List Io} (h : Trace.Grows Io.IsOther trace trace') :
    lastConfig trace' = lastConfig trace := by
  refine h.foldl_eq configStep (fun h e he => ?_) _
  cases e with
  | accepted fd => exact absurd he id
  | sent fd line ok =>
      have hc : configOf line = none := he
      cases ok with
      | false => rfl
      | true => simp [configStep, hc]
  | _ => rfl

theorem Leaves.refl (w : World) : Leaves w w :=
  ⟨rfl, id, .refl _⟩

theorem Leaves.trans {w w' w'' : World} (h : Leaves w w') (h' : Leaves w' w'') : Leaves w w'' :=
  ⟨h'.config.trans h.config, fun hm => h'.maxReads (h.maxReads hm), h.grows.trans h'.grows⟩

theorem Leaves.emit (w : World) {e : Io} (he : e.IsOther) : Leaves w (w.emit e) :=
  ⟨rfl, id, .single _ he⟩

theorem Leaves.told {w w' : World} (h : Leaves w w') {fd : Fd} (ht : Told w fd) : Told w' fd := by
  obtain ⟨msg, hl, hd, hs⟩ := ht
  have hp : w'.activeProfile = w.activeProfile := congrArg ConfigManager.activeProfile h.config
  exact ⟨msg, by rw [lastConfig_of_grows h.grows, hl], by rw [hp, hd], by rw [hp, hs]⟩

theorem Leaves.following {w w' : World} (h : Leaves w w') (hc : w'.conns = w.conns)
    (ha : w'.agents = w.agents) (hf : Following w) : Following w' where
  maxReads := h.maxReads hf.maxReads
  opened fd hfd := hc ▸ hf.opened fd (ha ▸ hfd)
  follow fd hfd := h.told (hf.follow fd (ha ▸ hfd))

theorem Leaves.of_emits {kind : Io → Prop} {w w' : World} (h : Emits kind w w')
    (himp : ∀ e, kind e → e.IsOther) : Leaves w w' := by
  obtain ⟨out, rfl, hk⟩ := h
  exact ⟨rfl, id, out, rfl, fun e he => himp e (hk e he)⟩

-- The second part of a call runs only after the first has returned.
theorem Leaves.bind {w : World} {x : Result} {f : World → Result} (hx : Leaves w x.world)
    (hf : ∀ w', Leaves w' (f w').world) : Leaves w (Result.world (x >>= f)) := by
  cases x with
  | error t => exact hx
  | ok w' => exact hx.trans (hf w')

theorem configOf_config (dimTimeout sleepTimeout : Int32) :
    ∃ msg, configOf (encodeConfig dimTimeout sleepTimeout) = some msg ∧
      msg.num (bytes "dim_timeout") 0 = dimTimeout.toInt64 ∧
      msg.num (bytes "sleep_timeout") 0 = sleepTimeout.toInt64 := by
  obtain ⟨msg, hd, ht, hdim, hsleep⟩ := decode_config dimTimeout sleepTimeout
  exact ⟨msg, by simp [configOf, hd, ht], hdim, hsleep⟩

theorem configOf_reply (fields : Value) (h : Plain fields) : configOf (encodeCtlReply fields) = none := by
  obtain ⟨msg, hd, ht⟩ := decode_ctlReply fields h
  have hne : T_CTL_REPLY ≠ T_CONFIG := by decide
  simp [configOf, hd, ht, hne]

theorem configOf_plain (type : Bytes) (h : type ≠ T_CONFIG) : configOf (dump (plain type)) = none := by
  obtain ⟨msg, hr, ht⟩ := readable_plain type
  simp [configOf, hr.decoded, ht, h]

end Told

section Sending

variable (env : Env) (hw : ∀ trace fd msg, env.writable trace fd msg = true)

theorem send_leaves (fd : Fd) (line : Bytes) (w : World) (h : configOf line = none) :
    Leaves w (send env fd line w) :=
  .emit w h

-- What send_config does to what is known of the connections.
theorem lastConfig_sendConfig (fd : Fd) (w : World) :
    ∃ msg, msg.num (bytes "dim_timeout") 0 = ((w.activeProfile.map Profile.dimTimeout).getD 0).toInt64 ∧
      msg.num (bytes "sleep_timeout") 0 = ((w.activeProfile.map Profile.sleepTimeout).getD 0).toInt64 ∧
      lastConfig (sendConfig env fd w).trace =
        if decide (fd ∈ w.conns) && env.writable w.trace fd (encodeConfig
            ((w.activeProfile.map Profile.dimTimeout).getD 0) ((w.activeProfile.map Profile.sleepTimeout).getD 0))
        then Function.update (lastConfig w.trace) fd (some msg) else lastConfig w.trace := by
  obtain ⟨msg, hc, hdim, hsleep⟩ := configOf_config ((w.activeProfile.map Profile.dimTimeout).getD 0)
    ((w.activeProfile.map Profile.sleepTimeout).getD 0)
  refine ⟨msg, hdim, hsleep, ?_⟩
  unfold sendConfig send writeLine
  dsimp only
  rw [World.emit_trace, lastConfig_append]
  generalize (decide (fd ∈ w.conns) && env.writable w.trace fd _) = ok
  cases ok with
  | false => rfl
  | true => simp [configStep, hc]

theorem sendConfig_keeps_told (fd other : Fd) (w : World) (h : Told w other) :
    Told (sendConfig env fd w) other := by
  obtain ⟨msg, hdim, hsleep, hl⟩ := lastConfig_sendConfig env fd w
  obtain ⟨msg', hl', hdim', hsleep'⟩ := h
  by_cases ho : other = fd
  · subst ho
    split at hl
    · exact ⟨msg, by rw [hl, Function.update_self], hdim, hsleep⟩
    · exact ⟨msg', by rw [hl, hl'], hdim', hsleep'⟩
  · refine ⟨msg', ?_, hdim', hsleep'⟩
    rw [hl]
    split
    · rw [Function.update_of_ne ho, hl']
    · exact hl'

include hw

theorem sendConfig_told (fd : Fd) (w : World) (h : fd ∈ w.conns) : Told (sendConfig env fd w) fd := by
  obtain ⟨msg, hdim, hsleep, hl⟩ := lastConfig_sendConfig env fd w
  rw [hw, decide_eq_true h, Bool.and_self, if_pos rfl] at hl
  exact ⟨msg, by rw [hl, Function.update_self], hdim, hsleep⟩

-- The loop of broadcast_config, by induction on the agents still to come.
theorem sendConfigs_told (agents : List (Σ _ : Fd, AgentState)) (w : World)
    (hopen : ∀ a ∈ agents, a.1 ∈ w.conns) (fd : Fd) (h : (∃ a ∈ agents, a.1 = fd) ∨ Told w fd) :
    Told (agents.foldl (fun w a => sendConfig env a.1 w) w) fd := by
  induction agents generalizing w with
  | nil => exact h.resolve_left (by simp)
  | cons a rest ih =>
      refine ih (sendConfig env a.1 w) (fun b hb => hopen b (by simp [hb])) ?_
      rcases h with ⟨b, hb, rfl⟩ | ht
      · rcases List.mem_cons.mp hb with rfl | hb
        · exact .inr (sendConfig_told env hw b.1 w (hopen b (by simp)))
        · exact .inl ⟨b, hb, rfl⟩
      · exact .inr (sendConfig_keeps_told env a.1 fd w ht)

theorem broadcastConfig_follow (w : World) (hopen : ∀ fd ∈ w.agents, fd ∈ w.conns) :
    ∀ fd ∈ (broadcastConfig env w).agents, Told (broadcastConfig env w) fd := by
  intro fd hfd
  rw [(broadcastConfig_emits env w).keeps.agents] at hfd
  have hperm := env.agentOrder_perm w.trace w.agents.entries
  refine sendConfigs_told env hw _ w (fun a ha => ?_) fd (.inl ?_)
  · exact hopen a.1 (AList.mem_keys.mpr (List.mem_map_of_mem (hperm.mem_iff.mp ha)))
  · obtain ⟨a, ha, rfl⟩ := List.mem_map.mp (AList.mem_keys.mp hfd)
    exact ⟨a, hperm.mem_iff.mpr ha, rfl⟩

end Sending

section Effects

variable (env : Env)

theorem Io.IsPolicy.isOther (e : Io) (h : e.IsPolicy) : e.IsOther := by
  cases e <;> first | exact trivial | exact absurd h id

theorem Io.IsSuspending.isOther (e : Io) (h : e.IsSuspending) : e.IsOther := by
  cases e with
  | sent fd msg ok =>
      rcases h with rfl | rfl
      · exact configOf_plain T_LOCK (by decide)
      · exact configOf_plain T_PRE_SLEEP (by decide)
  | _ => first | exact trivial | exact absurd h id

theorem MaxReads.setBrightness {s : Sysfs} (h : MaxReads s) (target : Int32) :
    MaxReads (s.setBrightness target) := by
  intro b hb
  obtain ⟨b', hb', rfl⟩ := Option.map_eq_some_iff.mp hb
  exact h b' hb'

theorem setBrightnessPercent_leaves (pct : Int32) (w : World) :
    Leaves w (setBrightnessPercent env pct w).world := by
  unfold setBrightnessPercent
  cases w.sysfs.backlight with
  | none => exact .refl w
  | some b =>
      dsimp only
      split
      · exact .refl w
      · split
        · exact .refl w
        · refine ⟨rfl, fun hm => ?_, .single _ trivial⟩
          rw [Result.world_ok, World.emit_sysfs]
          split
          · exact hm.setBrightness _
          · exact hm

theorem setBrightnessPercent_ok (pct : Int32) (w : World) (h : MaxReads w.sysfs) :
    ∃ w', setBrightnessPercent env pct w = .ok w' := by
  unfold setBrightnessPercent
  cases hb : w.sysfs.backlight with
  | none => exact ⟨_, rfl⟩
  | some b =>
      dsimp only
      rcases h b hb with he | ⟨n, hn⟩
      · exact ⟨_, if_pos he⟩
      · rw [hn]
        split
        · exact ⟨_, rfl⟩
        · exact ⟨_, rfl⟩

theorem setCpuFile_leaves (read : CpuPolicy → Bytes) (store : CpuPolicy → Bytes → CpuPolicy)
    (value : Bytes) (w : World) : Leaves w (setCpuFile env read store value w) := by
  unfold setCpuFile
  split
  · exact .refl w
  · have h : Leaves w _ := .of_emits (writePolicies_emits env read store value w.sysfs.policies w)
      Io.IsPolicy.isOther
    exact ⟨h.config, h.maxReads, h.grows⟩

-- What apply does before it sets the brightness.
theorem applyFiles_leaves (p : Profile) (w : World) :
    Leaves w (setCpuEpp env p.cpuEpp (setCpuGovernor env p.cpuGovernor (w.emit .apply))) :=
  (Leaves.emit w (e := .apply) trivial).trans
    ((setCpuFile_leaves env _ _ _ _).trans (setCpuFile_leaves env _ _ _ _))

theorem apply_leaves (p : Profile) (w : World) : Leaves w (apply env p w).world :=
  (applyFiles_leaves env p w).trans (setBrightnessPercent_leaves env _ _)

theorem apply_ok (p : Profile) (w : World) (h : MaxReads w.sysfs) :
    ∃ w', apply env p w = .ok w' :=
  setBrightnessPercent_ok env _ _ ((applyFiles_leaves env p w).maxReads h)

theorem dim_leaves (p : Profile) (w : World) : Leaves w (dim env p w).world := by
  have hm : Leaves w (w.emit .dim) := .emit w trivial
  unfold dim
  dsimp only
  split
  · exact hm
  · refine hm.trans (.trans ?_ (setBrightnessPercent_leaves env _ _))
    exact ⟨rfl, id, .refl _⟩

theorem undim_leaves (p : Profile) (w : World) : Leaves w (undim env p w).world := by
  have hm : Leaves w (w.emit .undim) := .emit w trivial
  exact hm.trans (.bind (setBrightnessPercent_leaves env _ _) fun w' => ⟨rfl, id, .refl _⟩)

end Effects

section Messages

variable (env : Env)

theorem plain_fields (entries : List (Bytes × Value)) (h : ∀ e ∈ entries, Plain e.2) :
    Plain (fields entries) := by
  have hfold : ∀ v, Plain v → Plain (entries.foldl (fun r e => r.set e.1 e.2) v) := by
    induction entries with
    | nil => exact fun v hv => hv
    | cons e rest ih =>
        exact fun v hv => ih (fun e he => h e (by simp [he])) _ (plain_set v e.1 e.2 hv (h e (by simp)))
  exact hfold .null trivial

theorem reply_following {w : World} (h : Following w) (fd : Fd) (entries : List (Bytes × Value))
    (he : ∀ e ∈ entries, Plain e.2) : Following (reply env fd entries w) :=
  (send_leaves env fd _ w (configOf_reply _ (plain_fields entries he))).following rfl rfl h

theorem batteryFields_plain (bat : Battery.BatteryInfo) : ∀ e ∈ batteryFields bat, Plain e.2 := by
  intro e he
  unfold batteryFields ok at he
  split at he
  · simp only [List.mem_append, List.mem_cons, List.mem_map, List.not_mem_nil, or_false] at he
    rcases he with (rfl | rfl | rfl) | (rfl | ⟨t, -, rfl⟩) | ⟨t, -, rfl⟩ <;> trivial
  · simp only [List.append_nil, List.mem_cons, List.not_mem_nil, or_false] at he
    rcases he with rfl | rfl | rfl <;> trivial

theorem inhibitors_plain (agents : List (Σ _ : Fd, AgentState)) : PlainElements (inhibitors agents) := by
  rw [plainElements_iff]
  intro e he
  obtain ⟨a, -, he⟩ := List.mem_flatMap.mp he
  obtain ⟨reason, -, rfl⟩ := List.mem_map.mp he
  trivial

variable (hw : ∀ trace fd msg, env.writable trace fd msg = true)

theorem sendLockToActiveAgent_leaves (w : World) : Leaves w (sendLockToActiveAgent env w) := by
  rcases sendLockToActiveAgent_cases env w with h | ⟨fd, h⟩
  · rw [h]
    exact .refl w
  · rw [h]
    exact send_leaves env fd _ w (configOf_plain T_LOCK (by decide))

theorem persistActive_leaves (w : World) : Leaves w (persistActive env w) := by
  unfold persistActive
  split
  · exact .refl w
  · split
    · exact .refl w
    · exact ⟨rfl, id, .single _ trivial⟩

include hw

-- The callback tells every agent, whatever it was told before.
theorem onChange_following (w : World) (hm : MaxReads w.sysfs) (hopen : ∀ fd ∈ w.agents, fd ∈ w.conns) :
    ∃ w', onChange env w = .ok w' ∧ Following w' := by
  have hbroadcast : ∀ w' : World, MaxReads w'.sysfs → (∀ fd ∈ w'.agents, fd ∈ w'.conns) →
      Following (broadcastConfig env w') := by
    intro w' hm' hopen'
    obtain ⟨out, he, -⟩ := broadcastConfig_emits env w'
    have hf := broadcastConfig_follow env hw w' hopen'
    rw [he] at hf ⊢
    exact ⟨hm', hopen', hf⟩
  unfold onChange
  cases w.activeProfile with
  | none => exact ⟨_, rfl, hbroadcast w hm hopen⟩
  | some p =>
      have hl := apply_leaves env p w
      have hk := apply_keeps env p w
      obtain ⟨w', hw'⟩ := apply_ok env p w hm
      rw [hw', Result.world_ok] at hl hk
      simp only [hw', bind, Except.bind]
      exact ⟨_, rfl, hbroadcast w' (hl.maxReads hm) fun fd hfd => hk.conns ▸ hopen fd (hk.agents ▸ hfd)⟩

theorem onCtl_following {w : World} (h : Following w) (fd : Fd) (msg : Value) :
    Following (onCtl env fd msg w).world := by
  unfold onCtl
  dsimp only
  split_ifs
  · exact reply_following env h fd _ (by simp [ok, Plain])
  · rcases setActive_cases env (msg.str (bytes "profile") []) w with ⟨-, he⟩ | ⟨config, -, he⟩
    · rw [he]
      exact reply_following env h fd _ (by simp [ok, Plain])
    · rw [he]
      have hl := persistActive_leaves env { w with config := config }
      have hk := persistActive_keeps env { w with config := config }
      have hopen : ∀ fd ∈ (persistActive env { w with config := config }).agents,
          fd ∈ (persistActive env { w with config := config }).conns := by
        rw [hk.conns, hk.agents]
        exact h.opened
      obtain ⟨w', hw', hf⟩ := onChange_following env hw _ (hl.maxReads h.maxReads) hopen
      rw [hw']
      exact reply_following env hf fd _ (by simp [ok, Plain])
  · refine reply_following env h fd _ ?_
    simp [ok, Plain, plainElements_iff]
  · have hk := (sendLockToActiveAgent_emits env w).keeps
    exact reply_following env ((sendLockToActiveAgent_leaves env w).following hk.conns hk.agents h) fd _
      (by simp [ok, Plain])
  · exact reply_following env h fd _ (by simp [ok, Plain, inhibitors_plain])
  · unfold reloadConfig
    cases w.config.reload w.file with
    | error e => exact reply_following env h fd _ (by simp [ok, Plain])
    | ok config =>
        obtain ⟨w', hw', hf⟩ := onChange_following env hw { w with config := config } h.maxReads h.opened
        dsimp only
        rw [hw']
        exact reply_following env hf fd _ (by simp [ok, Plain])
  · exact reply_following env h fd _ (batteryFields_plain _)
  · exact reply_following env h fd _ (by simp [ok, Plain])

-- Telling fd is enough where all the others know.
theorem sendConfig_following (fd : Fd) (w : World) (hm : MaxReads w.sysfs)
    (hopen : ∀ other ∈ w.agents, other ∈ w.conns) (hfd : fd ∈ w.conns)
    (ht : ∀ other ∈ w.agents, other ≠ fd → Told w other) : Following (sendConfig env fd w) := by
  have hfollow : ∀ other ∈ w.agents, Told (sendConfig env fd w) other := by
    intro other hother
    by_cases ho : other = fd
    · exact ho ▸ sendConfig_told env hw fd w hfd
    · exact sendConfig_keeps_told env fd other w (ht other hother ho)
  obtain ⟨out, he, -⟩ := sendConfig_emits env fd w
  rw [he] at hfollow ⊢
  exact ⟨hm, hopen, hfollow⟩

theorem onHello_following {w : World} (h : Following w) (fd : Fd) (hfd : fd ∈ w.conns) (msg : Value) :
    Following (onHello env fd msg w) := by
  refine sendConfig_following env hw fd _ h.maxReads (fun other hother => ?_) hfd fun other hother ho => ?_
  · rcases (AList.mem_insert _).mp hother with rfl | hother
    · exact hfd
    · exact h.opened other hother
  · exact h.follow other ((AList.mem_insert _).mp hother |>.resolve_left ho)

omit hw in
theorem onIdleDim_leaves (fd : Fd) (w : World) : Leaves w (onIdleDim env fd w).world := by
  have hreport : Leaves w (w.emit (.report fd .idleDim)) := .emit w trivial
  unfold onIdleDim
  dsimp only
  split
  · exact hreport
  split
  · exact hreport
  split
  · exact hreport
  split
  · exact hreport
  · exact hreport.trans (.bind (dim_leaves env _ _) fun w' => ⟨rfl, id, .refl _⟩)

omit hw in
theorem onActive_leaves (fd : Fd) (w : World) : Leaves w (onActive env fd w).world := by
  have hreport : Leaves w (w.emit (.report fd .active)) := .emit w trivial
  unfold onActive
  dsimp only
  split
  · exact hreport
  split
  · exact hreport
  split
  · exact hreport
  · exact hreport.trans (.bind (undim_leaves env _ _) fun w' => ⟨rfl, id, .refl _⟩)

omit hw in
theorem onIdleSleep_leaves (fd : Fd) (w : World) : Leaves w (onIdleSleep env fd w) :=
  (Leaves.emit w (e := .report fd .idleSleep) trivial).trans
    (.of_emits (onIdleSleep_suspending env fd w) Io.IsSuspending.isOther)

omit hw in
theorem updateInhibits_following {w : World} (h : Following w)
    (update : Bytes → List Bytes → List Bytes) (fd : Fd) (msg : Value) :
    Following (updateInhibits env update fd msg w) := by
  unfold updateInhibits
  split
  · exact h
  · rename_i agent hl
    -- The entry of fd is replaced, so the table has the same keys.
    have hkeys : ∀ other ∈ w.agents.insert fd
        { agent with inhibits := update (msg.str (bytes "reason") []) agent.inhibits }, other ∈ w.agents := by
      intro other hother
      rcases (AList.mem_insert _).mp hother with rfl | hother
      · exact AList.lookup_isSome.mp (by simp [hl])
      · exact hother
    refine (send_leaves env fd _ _ (configOf_plain T_ACK (by decide))).following rfl rfl
      ⟨h.maxReads, fun other hother => h.opened other (hkeys other hother),
        fun other hother => h.follow other (hkeys other hother)⟩

-- One message from an open connection.
theorem onMessage_following {w : World} (h : Following w) (fd : Fd) (hfd : fd ∈ w.conns) (msg : Value) :
    Following (onMessage env fd msg w).world := by
  unfold onMessage
  dsimp only
  split
  · exact onHello_following env hw h fd hfd msg
  split
  · exact onCtl_following env hw h fd msg
  split
  · exact h
  split
  · have hk := onIdleDim_tables env fd w
    exact (onIdleDim_leaves env fd w).following hk.conns hk.agents h
  split
  · have hk := (onIdleSleep_emits env fd w).keeps
    exact (onIdleSleep_leaves env fd w).following hk.conns hk.agents h
  split
  · have hk := onActive_tables env fd w
    exact (onActive_leaves env fd w).following hk.conns hk.agents h
  split
  · exact updateInhibits_following env h _ fd msg
  split
  · exact updateInhibits_following env h _ fd msg
  · exact h

end Messages

section Runs

variable (env : Env) (hw : ∀ trace fd msg, env.writable trace fd msg = true)

theorem Following.settle {r : Result} (h : Following r.world) : Following r.settle := by
  cases r with
  | ok w => exact h
  | error t => exact ⟨h.maxReads, h.opened, h.follow⟩

-- A connection goes and takes its entry along.
theorem hangUp_following {w : World} (h : Following w) (fd : Fd) :
    Following (closeClient fd (onDisconnect fd w)) := by
  have hl : Leaves w (closeClient fd (onDisconnect fd w)) :=
    ⟨rfl, id, (Trace.Grows.single w.trace (e := .hungUp fd) trivial).trans
      (.single _ (e := Io.close fd) trivial)⟩
  refine ⟨h.maxReads, fun other hother => ?_, fun other hother => ?_⟩
  · obtain ⟨hne, hmem⟩ := (AList.mem_erase).mp hother
    exact (AList.mem_erase).mpr ⟨hne, h.opened other hmem⟩
  · exact hl.told (h.follow other (AList.mem_erase.mp hother).2)

include hw

theorem perform_following {w : World} (h : Following w) (c : Call)
    (hc : ∀ fd line, c = .line fd line → fd ∈ w.conns ∧ ∃ msg, decode line = .ok msg) :
    Following (perform env c w).settle := by
  refine .settle ?_
  cases c with
  | hangUp fd => exact hangUp_following h fd
  | button e =>
      have hk := (onEvent_emits env e w).keeps
      have hl : Leaves w (onEvent env e w) := (Leaves.emit w (e := .button e) trivial).trans
        (.of_emits (onEvent_suspending env e w) Io.IsSuspending.isOther)
      exact hl.following hk.conns hk.agents h
  | line fd line =>
      obtain ⟨hfd, msg, hd⟩ := hc fd line rfl
      have hline : Following (w.emit (.line fd line)) :=
        (Leaves.emit w (e := .line fd line) trivial).following rfl rfl h
      simp only [perform, onLine, hd]
      exact onMessage_following env hw hline fd hfd msg

theorem step_following (s : State) (move : Move) (h : Following s.world) (hq : Queued s)
    (hm : Orderly s move) : Following (step env s move).world := by
  have hstep := step_stepped env s move
  generalize step env s move = s' at hstep ⊢
  cases hstep with
  | idle => exact h
  | input => exact h
  | outside file sysfs _ => exact ⟨hm.2, h.opened, h.follow⟩
  | signal m _ _ =>
      have hs := handleSeatProperties_seated m s.world
      have hl : Leaves s.world (handleSeatProperties m s.world) :=
        ⟨hs.config, fun hm => hs.sysfs ▸ hm, hs.grows.mono fun _ ⟨_, he⟩ => he ▸ trivial⟩
      exact hl.following hs.conns hs.agents h
  | feed r c _ _ hc =>
      refine ⟨h.maxReads, fun fd hfd => ?_, h.follow⟩
      exact (AList.mem_insert _).mpr (.inr (h.opened fd hfd))
  | accept r fd _ _ hf =>
      unfold acceptClient
      rw [if_neg hf.1]
      refine ⟨h.maxReads, fun other hother => ?_, fun other hother => ?_⟩
      · exact (AList.mem_insert _).mpr (.inr (h.opened other hother))
      · -- The new connection has the descriptor of no agent.
        have hne : other ≠ fd := fun he => hf.1 (he ▸ h.opened other hother)
        obtain ⟨msg, hl, htold⟩ := h.follow other hother
        refine ⟨msg, ?_, htold⟩
        rw [World.emit_trace, lastConfig_append, configStep, Function.update_of_ne hne]
        exact hl
  | call c rest hp _ =>
      refine perform_following env hw h c fun fd line hc => ?_
      have hd := hm.1
      simp only [Decodes, hp, hc] at hd
      exact ⟨(hq fd line (by simp [hp, hc])).1, hd⟩

omit hw in
theorem started_following (w : World) (h : Started env w) (hmax : MaxReads w.sysfs) :
    Following w := by
  obtain ⟨-, ha, -⟩ := started_spec env w h
  have hnone : ∀ fd, fd ∉ w.agents := fun fd => ha ▸ AList.notMem_empty fd
  exact ⟨hmax, fun fd hfd => absurd hfd (hnone fd), fun fd hfd => absurd hfd (hnone fd)⟩

-- In every state of a run whose lines decode, with writes to open connections that
-- succeed, every agent was last told the timeouts of the profile active then.
theorem timeoutsFollow_throughout (w : World) (h : Started env w) (hmax : MaxReads w.sysfs)
    (moves : List Move) (hm : Run.Meets (step env) Orderly ⟨w, []⟩ moves) :
    Run.Throughout (step env) (fun s => TimeoutsFollow s.world) ⟨w, []⟩ moves := by
  refine Run.throughout_of_meets (step env)
    (fun s => Following s.world ∧ Queued s ∧ Opened s.world ∧ Exact s.world) ?_ ?_
    ⟨started_following env w h hmax, fun fd line hl => absurd hl List.not_mem_nil,
      started_opened env w h, started_exact env w h⟩ hm
  · rintro s move ⟨hf, hq, ho, he⟩ horderly
    exact ⟨step_following env hw s move hf hq horderly, step_queued env s move hq horderly.1,
      step_opened env s move ho, step_exact env s move ho he (noLeftover_of_decodes s move hq horderly.1)⟩
  · rintro s ⟨hf, -, ho, he⟩ fd hagent
    rcases hagent with hfd | ⟨messages, hr, hhello⟩
    · exact hf.follow fd hfd
    · have hopen : fd ∈ s.world.conns := (ho fd).mpr (by simp [hr])
      exact hf.follow fd (((agentTable_of_exact s.world ho he).1 fd).mpr ⟨hopen, messages, hr, hhello⟩)

end Runs

-- The agent says hello, another profile is selected, and the agent says hello again.
def helloThenProfile : List Move :=
  [accept 7, readable 7 (encodeHello (bytes "1") 1000 ++ [10]), .call,
    readable 7 (encodeCtl (bytes "set_profile") (bytes "b") ++ [10] ++
      encodeHello (bytes "1") 1000 ++ [10]), .call, .call]

theorem timeoutsFollow_sample :
    ∃ w, sampleStart = .ok w ∧
      Run.Throughout (step .plain) (fun s => TimeoutsFollow s.world) ⟨w, []⟩ helloThenProfile := by
  refine ⟨_, rfl, timeoutsFollow_throughout .plain (fun _ _ _ => rfl) _ (sample_started rfl) ?_
    helloThenProfile ⟨⟨trivial, trivial⟩, ⟨trivial, trivial⟩, ⟨⟨_, rfl⟩, trivial⟩,
      ⟨trivial, trivial⟩, ⟨⟨_, rfl⟩, trivial⟩, ⟨⟨_, rfl⟩, trivial⟩, trivial⟩⟩
  intro b hb
  cases hb
  exact .inr ⟨100, by decide⟩

end Draind.Daemon
