import Draind.Daemon.DisabledActions
import Draind.Daemon.PushedConfig

namespace Draind.Daemon

open Json Proto

-- What nobody notices while these connections are open: no write to the backlight,
-- no suspending, no message and no close. A descriptor that is not open takes none.
def Io.IsUnseen (conns : Conns) : Io → Prop
  | .sent fd _ _ => fd ∉ conns
  | .brightness .. | .suspend _ | .system _ | .close _ => False
  | _ => True

abbrev Unseen (w w' : World) : Prop :=
  Trace.Grows (Io.IsUnseen w.conns) w.trace w'.trace

-- State and outputs are as if nothing had been done since w.
structure SameOutcome (w w' : World) : Prop where
  conns : w'.conns = w.conns
  agents : ∀ fd, w'.agents.lookup fd = w.agents.lookup fd
  config : w'.config = w.config
  dimmed : w'.dimmed = w.dimmed
  unseen : Unseen w w'

-- The descriptor is closed once on the way from w to w'.
def ClosedOnce (fd : Fd) (w w' : World) : Prop :=
  ∃ out, w'.trace = w.trace ++ out ∧ out.count (.close fd) = 1

def Unwritable (s : Sysfs) : Prop :=
  ∀ b, s.backlight = some b → readFile b.maxBrightness = []

def Unreadable (s : Sysfs) : Prop :=
  ∃ b e, s.backlight = some b ∧ readFile b.maxBrightness ≠ [] ∧ stoi (readFile b.maxBrightness) = .error e

-- There is no brightness to set, and no agent is there to be told anything.
def NobodyTold (w : World) : Prop :=
  (w.activeProfile ≠ none → Unwritable w.sysfs) ∧ ∀ fd ∈ w.agents, fd ∉ w.conns

-- The agent send_lock_to_active_agent picks.
def lockTarget (env : Env) (w : World) : Option Fd :=
  let agents := env.agentOrder w.trace w.agents.entries
  match agents.find? fun a => w.isActive a.2.sessionId with
  | some a => some a.1
  | none =>
      match agents with
      | [a] => some a.1
      | _ => none

-- A command that does nothing but answer: it selects or loads what is active already
-- with nobody to be told, or with an exception before anybody is, or it locks nobody.
def InertCtl (env : Env) (msg : Value) (w : World) : Prop :=
  let cmd := msg.str (bytes "cmd") []
  if cmd = bytes "set_profile" then
    ∀ config, w.config.select (msg.str (bytes "profile") []) = some config →
      config = w.config ∧ NobodyTold w
  else if cmd = bytes "lock" then ∀ fd ∈ lockTarget env w, fd ∉ w.conns
  else if cmd = bytes "reload_config" then
    ∀ config, w.config.reload w.file = .ok config →
      config = w.config ∧ (NobodyTold w ∨ w.activeProfile ≠ none ∧ Unreadable w.sysfs)
  else True

-- A message of a closed connection that does nothing.
structure Inert (env : Env) (fd : Fd) (msg : Value) (w : World) : Prop where
  heard : hear (w.agents.lookup fd) msg = w.agents.lookup fd
  ctl : msgType msg = T_CTL → InertCtl env msg w
  idleDim : msgType msg = T_IDLE_DIM → isActiveAgent fd w = true →
    hasAnyInhibit w = true ∨ w.dimmed = true ∨ w.activeProfile = none
  idleSleep : msgType msg = T_IDLE_SLEEP → isActiveAgent fd w = true →
    hasAnyInhibit w = true ∨ ¬SleepEnabled w
  active : msgType msg = T_ACTIVE → isActiveAgent fd w = true →
    w.dimmed = false ∨ w.activeProfile = none

def InertLine (env : Env) (fd : Fd) (line : Bytes) (w : World) : Prop :=
  line ≠ [] → ∃ msg, decode line = .ok msg ∧ Inert env fd msg (w.emit (.line fd line))

-- The loop of handle_client, line by line. An exception ends it.
def lineStep (env : Env) (fd : Fd) (r : Result) (line : Bytes) : Result :=
  r >>= fun w => if line = [] then .ok w else onLine env fd line w

def HandlesInert (env : Env) (fd : Fd) (r : Result) (line : Bytes) : Prop :=
  ∀ w, r = .ok w → InertLine env fd line w

-- The state in which the lines of a feed are handled.
def fed (fd : Fd) (c : Connection) (reads : List Sock.ReadResult) (w : World) : World :=
  { w with conns := w.conns.insert fd { c with buf := (c.buf.feed reads).2.1 } }

-- What was begun in w returns with the outcome of w₁, and has closed fd once.
def Ended (fd : Fd) (w w₁ : World) (r : Result) : Prop :=
  ∃ w₂, r = .ok w₂ ∧ SameOutcome w₁ w₂ ∧ ClosedOnce fd w w₂

section Outcome

theorem SameOutcome.refl (w : World) : SameOutcome w w :=
  ⟨rfl, fun _ => rfl, rfl, rfl, .refl _⟩

theorem SameOutcome.trans {w w' w'' : World} (h : SameOutcome w w') (h' : SameOutcome w' w'') :
    SameOutcome w w'' :=
  ⟨h'.conns.trans h.conns, fun fd => (h'.agents fd).trans (h.agents fd), h'.config.trans h.config,
    h'.dimmed.trans h.dimmed, h.unseen.trans (h.conns ▸ h'.unseen)⟩

theorem SameOutcome.emit (w : World) {e : Io} (he : e.IsUnseen w.conns) : SameOutcome w (w.emit e) :=
  ⟨rfl, fun _ => rfl, rfl, rfl, .single _ he⟩

theorem SameOutcome.of_emits {w w' : World} (h : Emits (Io.IsUnseen w.conns) w w') : SameOutcome w w' := by
  obtain ⟨out, rfl, hk⟩ := h
  exact ⟨rfl, fun _ => rfl, rfl, rfl, out, rfl, hk⟩

theorem SameOutcome.before {w w' w'' : World} (h : SameOutcome w w') (hu : Unseen w' w'') : Unseen w w'' := by
  rw [Unseen, h.conns] at hu
  exact h.unseen.trans hu

theorem SameOutcome.behind {kind : Io → Prop} {w w' w'' : World} (h : SameOutcome w w')
    (hu : Unseen w w'') (hg : Trace.Grows kind w'.trace w''.trace) : Unseen w' w'' := by
  rw [Unseen, h.conns]
  exact (hu.split h.unseen hg).2

-- Two states with the outcome of a third, one behind the other.
theorem SameOutcome.between {kind : Io → Prop} {w w' w'' : World} (h : SameOutcome w w')
    (h' : SameOutcome w w'') (hg : Trace.Grows kind w'.trace w''.trace) : SameOutcome w' w'' :=
  ⟨h'.conns.trans h.conns.symm, fun fd => (h'.agents fd).trans (h.agents fd).symm,
    h'.config.trans h.config.symm, h'.dimmed.trans h.dimmed.symm, h.behind h'.unseen hg⟩

-- What a message may change, and does not.
theorem SameOutcome.of_heard {fd : Fd} {msg : Value} {w w' : World} (h : Heard fd msg w w')
    (hh : hear (w.agents.lookup fd) msg = w.agents.lookup fd) (hc : w'.config = w.config)
    (hd : w'.dimmed = w.dimmed) (hu : Unseen w w') : SameOutcome w w' := by
  refine ⟨h.conns, fun other => ?_, hc, hd, hu⟩
  rw [h.lookup, hh]
  split
  · rename_i ho
    rw [ho]
  · rfl

end Outcome

section Telling

variable (env : Env)

-- Exactly the agents are sent to.
theorem broadcastConfig_sends (w : World) :
    ∃ out, broadcastConfig env w = w.extend out ∧
      (∀ e ∈ out, ∃ fd ∈ w.agents, ∃ line ok, e = .sent fd line ok) ∧
      ∀ fd ∈ w.agents, ∃ line ok, .sent fd line ok ∈ out := by
  have hloop : ∀ (agents : List (Σ _ : Fd, AgentState)) (w : World),
      ∃ out, agents.foldl (fun w a => sendConfig env a.1 w) w = w.extend out ∧
        (∀ e ∈ out, ∃ a ∈ agents, ∃ line ok, e = .sent a.1 line ok) ∧
        ∀ a ∈ agents, ∃ line ok, .sent a.1 line ok ∈ out := by
    intro agents
    induction agents with
    | nil => exact fun w => ⟨[], by simp [World.extend], by simp, by simp⟩
    | cons a rest ih =>
        intro w
        obtain ⟨line, ok, hsent⟩ : ∃ line ok, sendConfig env a.1 w = w.extend [.sent a.1 line ok] :=
          ⟨_, _, rfl⟩
        obtain ⟨out, ho, hfrom, hto⟩ := ih (sendConfig env a.1 w)
        refine ⟨.sent a.1 line ok :: out, ?_, ?_, ?_⟩
        · rw [List.foldl_cons, ho, hsent]
          simp [World.extend]
        · rw [List.forall_mem_cons]
          refine ⟨⟨a, by simp, line, ok, rfl⟩, fun e he => ?_⟩
          obtain ⟨b, hb, h⟩ := hfrom e he
          exact ⟨b, by simp [hb], h⟩
        · rw [List.forall_mem_cons]
          refine ⟨⟨line, ok, List.mem_cons_self⟩, fun b hb => ?_⟩
          obtain ⟨line, ok, h⟩ := hto b hb
          exact ⟨line, ok, List.mem_cons_of_mem _ h⟩
  have hperm := env.agentOrder_perm w.trace w.agents.entries
  obtain ⟨out, ho, hfrom, hto⟩ := hloop (env.agentOrder w.trace w.agents.entries) w
  refine ⟨out, ho, fun e he => ?_, fun fd hfd => ?_⟩
  · obtain ⟨a, ha, h⟩ := hfrom e he
    exact ⟨a.1, AList.mem_keys.mpr (List.mem_map_of_mem (hperm.mem_iff.mp ha)), h⟩
  · obtain ⟨a, ha, rfl⟩ := List.mem_map.mp (AList.mem_keys.mp hfd)
    exact hto a (hperm.mem_iff.mpr ha)

theorem broadcastConfig_same (w : World) (h : ∀ fd ∈ w.agents, fd ∉ w.conns) :
    SameOutcome w (broadcastConfig env w) := by
  obtain ⟨out, ho, hfrom, -⟩ := broadcastConfig_sends env w
  refine .of_emits ⟨out, ho, fun e he => ?_⟩
  obtain ⟨fd, hfd, line, ok, rfl⟩ := hfrom e he
  exact h fd hfd

theorem closed_of_broadcastConfig (w : World) (hu : Unseen w (broadcastConfig env w)) :
    ∀ fd ∈ w.agents, fd ∉ w.conns := by
  intro fd hfd
  obtain ⟨out, ho, -, hto⟩ := broadcastConfig_sends env w
  obtain ⟨line, ok, hmem⟩ := hto fd hfd
  exact hu.all (congrArg World.trace ho) _ hmem

theorem setBrightnessPercent_unwritable (pct : Int32) (w : World) (h : Unwritable w.sysfs) :
    setBrightnessPercent env pct w = .ok w := by
  unfold setBrightnessPercent
  cases hb : w.sysfs.backlight with
  | none => rfl
  | some b => exact if_pos (h b hb)

theorem unwritable_of_setBrightnessPercent {pct : Int32} {w w' : World}
    (hok : setBrightnessPercent env pct w = .ok w') (hu : Unseen w w') : Unwritable w.sysfs := by
  intro b hb
  unfold setBrightnessPercent at hok
  simp only [hb] at hok
  by_contra he
  rw [if_neg he] at hok
  split at hok
  · cases hok
  · cases hok
    exact hu.all (World.emit_trace _ _) _ (List.mem_singleton_self _)

theorem setBrightnessPercent_unreadable (pct : Int32) (w : World) (h : Unreadable w.sysfs) :
    ∃ e, setBrightnessPercent env pct w = .error ⟨e, w⟩ := by
  obtain ⟨b, e, hb, hne, he⟩ := h
  exact ⟨e, by simp [setBrightnessPercent, hb, hne, he]⟩

theorem unreadable_of_setBrightnessPercent {pct : Int32} {w : World} {t : Thrown}
    (h : setBrightnessPercent env pct w = .error t) : Unreadable w.sysfs := by
  unfold setBrightnessPercent at h
  cases hb : w.sysfs.backlight with
  | none =>
      rw [hb] at h
      cases h
  | some b =>
      simp only [hb] at h
      split at h
      · cases h
      · rename_i hne
        split at h
        · rename_i e he
          exact ⟨b, e, hb, hne, he⟩
        · cases h

theorem setCpuFile_same (read : CpuPolicy → Bytes) (store : CpuPolicy → Bytes → CpuPolicy)
    (value : Bytes) (w : World) : SameOutcome w (setCpuFile env read store value w) := by
  have himp : ∀ e, Io.IsPolicy e → e.IsUnseen w.conns := by
    intro e he
    cases e <;> first | exact trivial | exact absurd he id
  unfold setCpuFile
  split
  · exact .refl w
  · have h := SameOutcome.of_emits ((writePolicies_emits env read store value w.sysfs.policies w).mono himp)
    exact ⟨h.conns, h.agents, h.config, h.dimmed, h.unseen⟩

theorem setCpuFile_backlight (read : CpuPolicy → Bytes) (store : CpuPolicy → Bytes → CpuPolicy)
    (value : Bytes) (w : World) :
    (setCpuFile env read store value w).sysfs.backlight = w.sysfs.backlight := by
  unfold setCpuFile
  split
  · rfl
  · obtain ⟨out, he, -⟩ := writePolicies_emits env read store value w.sysfs.policies w
    exact congrArg (fun w => w.sysfs.backlight) he

-- Before it sets the brightness apply does nothing that is noticed.
theorem applyFiles_same (p : Profile) (w : World) :
    ∃ w', SameOutcome w w' ∧ (Unwritable w'.sysfs ↔ Unwritable w.sysfs) ∧
      (Unreadable w'.sysfs ↔ Unreadable w.sysfs) ∧
      apply env p w = setBrightnessPercent env p.brightnessPercent w' := by
  refine ⟨_, (SameOutcome.emit w (e := .apply) trivial).trans
    ((setCpuFile_same env _ _ _ _).trans (setCpuFile_same env _ _ _ _)), ?_, ?_, rfl⟩
  · rw [Unwritable, setCpuFile_backlight, setCpuFile_backlight]
    exact Iff.rfl
  · rw [Unreadable, setCpuFile_backlight, setCpuFile_backlight]
    exact Iff.rfl

theorem apply_same (p : Profile) (w : World) (h : Unwritable w.sysfs) :
    ∃ w', apply env p w = .ok w' ∧ SameOutcome w w' := by
  obtain ⟨w₁, hs, hb, -, he⟩ := applyFiles_same env p w
  exact ⟨w₁, he.trans (setBrightnessPercent_unwritable env _ w₁ (hb.mpr h)), hs⟩

theorem unwritable_of_apply {p : Profile} {w w' : World} (hok : apply env p w = .ok w')
    (hu : Unseen w w') : Unwritable w.sysfs := by
  obtain ⟨w₁, hs, hb, -, he⟩ := applyFiles_same env p w
  have hg := (setBrightnessPercent_keeps env p.brightnessPercent w₁).grows
  rw [he] at hok
  rw [hok] at hg
  exact hb.mp (unwritable_of_setBrightnessPercent env hok (hs.behind hu hg))

theorem onChange_same (w : World) (h : NobodyTold w) :
    ∃ w', onChange env w = .ok w' ∧ SameOutcome w w' := by
  unfold onChange
  cases hp : w.activeProfile with
  | none => exact ⟨_, rfl, broadcastConfig_same env w h.2⟩
  | some p =>
      obtain ⟨w₁, hok, hs⟩ := apply_same env p w (h.1 (by simp [hp]))
      have hk := apply_keeps env p w
      rw [hok] at hk
      simp only [hok, bind, Except.bind]
      refine ⟨_, rfl, hs.trans (broadcastConfig_same env w₁ fun fd hfd => ?_)⟩
      rw [hs.conns]
      exact h.2 fd (hk.agents ▸ hfd)

theorem nobodyTold_of_onChange {w w' : World} (hok : onChange env w = .ok w') (hu : Unseen w w') :
    NobodyTold w := by
  unfold onChange at hok
  cases hp : w.activeProfile with
  | none =>
      rw [hp] at hok
      cases hok
      exact ⟨fun hn => absurd hp hn, closed_of_broadcastConfig env w hu⟩
  | some p =>
      rw [hp] at hok
      obtain ⟨w₁, hok₁, hok⟩ := (bind_ok_iff _ _ _).mp hok
      cases hok
      have hk := apply_keeps env p w
      rw [hok₁] at hk
      obtain ⟨hu₁, hu₂⟩ := hu.split hk.grows (broadcastConfig_emits env w₁).keeps.grows
      refine ⟨fun _ => unwritable_of_apply env hok₁ hu₁, fun fd hfd => ?_⟩
      have hc : w₁.conns = w.conns := hk.conns
      rw [← hc] at hu₂ ⊢
      exact closed_of_broadcastConfig env w₁ hu₂ fd (hk.agents ▸ hfd)

-- An exception leaves the callback before anybody is told.
theorem onChange_unreadable (w : World) (hp : w.activeProfile ≠ none) (hu : Unreadable w.sysfs) :
    ∃ t, onChange env w = .error t ∧ SameOutcome w t.world := by
  obtain ⟨p, hp⟩ := Option.ne_none_iff_exists'.mp hp
  obtain ⟨w₁, hs, -, hr, he⟩ := applyFiles_same env p w
  obtain ⟨e, hset⟩ := setBrightnessPercent_unreadable env p.brightnessPercent w₁ (hr.mpr hu)
  exact ⟨⟨e, w₁⟩, by simp [onChange, hp, he, hset, bind, Except.bind], hs⟩

theorem unreadable_of_onChange {w : World} {t : Thrown} (h : onChange env w = .error t) :
    w.activeProfile ≠ none ∧ Unreadable w.sysfs := by
  unfold onChange at h
  cases hp : w.activeProfile with
  | none =>
      rw [hp] at h
      cases h
  | some p =>
      obtain ⟨w₁, hs, -, hr, he⟩ := applyFiles_same env p w
      refine ⟨Option.some_ne_none p, hr.mp ?_⟩
      rw [hp] at h
      dsimp only at h
      rw [he] at h
      cases hset : setBrightnessPercent env p.brightnessPercent w₁ with
      | ok w₂ =>
          rw [hset] at h
          cases h
      | error t => exact unreadable_of_setBrightnessPercent env hset

-- The callback does not touch the manager.
theorem onChange_config (w : World) : (onChange env w).world.config = w.config := by
  have hb : ∀ w, (broadcastConfig env w).config = w.config := by
    intro w
    obtain ⟨out, he, -⟩ := broadcastConfig_emits env w
    rw [he]
    rfl
  unfold onChange
  cases hp : w.activeProfile with
  | none => exact hb w
  | some p =>
      have hl := apply_leaves env p w
      cases ha : apply env p w with
      | error t =>
          rw [ha] at hl
          simp only [ha, bind, Except.bind]
          exact hl.config
      | ok w₁ =>
          rw [ha] at hl
          simp only [ha, bind, Except.bind]
          exact (hb w₁).trans hl.config

end Telling

section Ctl

variable (env : Env)

theorem sendLockToActiveAgent_target (w : World) :
    sendLockToActiveAgent env w =
      match lockTarget env w with
      | some fd => send env fd encodeLock w
      | none => w := by
  unfold sendLockToActiveAgent lockTarget
  generalize env.agentOrder w.trace w.agents.entries = agents
  dsimp only
  cases agents.find? fun a => w.isActive a.2.sessionId with
  | some a => rfl
  | none =>
      cases agents with
      | nil => rfl
      | cons a rest =>
          cases rest with
          | nil => rfl
          | cons b rest => rfl

theorem onCtl_lock (fd : Fd) (msg : Value) (w : World) (h : msg.str (bytes "cmd") [] = bytes "lock") :
    onCtl env fd msg w = .ok (reply env fd [ok true] (sendLockToActiveAgent env w)) := by
  have hne : bytes "lock" ≠ bytes "status" ∧ bytes "lock" ≠ bytes "set_profile" ∧
      bytes "lock" ≠ bytes "list_profiles" := by decide
  simp only [onCtl, h, hne, if_false, if_true]

theorem onCtl_other (fd : Fd) (msg : Value) (w : World)
    (hp : msg.str (bytes "cmd") [] ≠ bytes "set_profile") (hl : msg.str (bytes "cmd") [] ≠ bytes "lock")
    (hr : msg.str (bytes "cmd") [] ≠ bytes "reload_config") :
    ∃ entries, onCtl env fd msg w = .ok (reply env fd entries w) := by
  simp only [onCtl, hp, hl, hr, if_false]
  split_ifs
  · exact ⟨_, rfl⟩
  · exact ⟨_, rfl⟩
  · exact ⟨_, rfl⟩
  · exact ⟨_, rfl⟩
  · exact ⟨_, rfl⟩

theorem reply_same (fd : Fd) (entries : List (Bytes × Value)) (w : World) (h : fd ∉ w.conns) :
    SameOutcome w (reply env fd entries w) :=
  .emit w h

theorem persistActive_eq (w : World) :
    ∃ file out, persistActive env w = { w with file := file, trace := w.trace ++ out } ∧
      ∀ e ∈ out, ∃ text, e = .saved text := by
  unfold persistActive
  split
  · exact ⟨w.file, [], by simp, by simp⟩
  · split
    · exact ⟨w.file, [], by simp, by simp⟩
    · exact ⟨_, [.saved _], rfl, by simp⟩

theorem persistActive_same (w : World) : SameOutcome w (persistActive env w) := by
  obtain ⟨file, out, he, hsaved⟩ := persistActive_eq env w
  rw [he]
  refine ⟨rfl, fun _ => rfl, rfl, rfl, out, rfl, fun e hmem => ?_⟩
  obtain ⟨text, rfl⟩ := hsaved e hmem
  exact trivial

theorem nobodyTold_persistActive (w : World) : NobodyTold (persistActive env w) ↔ NobodyTold w := by
  obtain ⟨file, out, he, -⟩ := persistActive_eq env w
  rw [he]
  exact Iff.rfl

-- set_profile with a name that is listed selects, saves and calls back.
theorem setProfile_same_iff {fd : Fd} {msg : Value} {w : World} (hfd : fd ∉ w.conns)
    (hcmd : msg.str (bytes "cmd") [] = bytes "set_profile") :
    (∃ w', onCtl env fd msg w = .ok w' ∧ SameOutcome w w') ↔
      ∀ config, w.config.select (msg.str (bytes "profile") []) = some config →
        config = w.config ∧ NobodyTold w := by
  obtain ⟨entries, he⟩ := onCtl_setProfile env fd msg w hcmd
  rcases setActive_cases env (msg.str (bytes "profile") []) w with ⟨hnone, hset⟩ | ⟨config, hsel, hset⟩
  · rw [he, hset, hnone]
    exact iff_of_true ⟨_, rfl, reply_same env fd _ w hfd⟩ (by simp)
  rw [he, hset, hsel]
  simp only [Option.some.injEq, forall_eq']
  have hpersist := persistActive_same env { w with config := config }
  constructor
  · rintro ⟨w', hok, hs⟩
    obtain ⟨r, hmap, hok⟩ := (bind_ok_iff _ _ _).mp hok
    obtain ⟨w₂, hon, rfl⟩ := (map_ok_iff _ _ _).mp hmap
    cases hok
    have hconfig := onChange_config env (persistActive env { w with config := config })
    have hk := onChange_keeps env (persistActive env { w with config := config })
    rw [hon] at hconfig hk
    obtain rfl : config = w.config := (hpersist.config.symm.trans hconfig.symm).trans hs.config
    have hg := (persistActive_keeps env { w with config := w.config }).grows.trans hk.grows
    obtain ⟨hu, -⟩ := hs.unseen.split hg (reply_emits env fd _ w₂).keeps.grows
    have htold := nobodyTold_of_onChange env hon (hpersist.behind hu hk.grows)
    exact ⟨rfl, (nobodyTold_persistActive env w).mp htold⟩
  · rintro ⟨rfl, htold⟩
    obtain ⟨w', hok, hs⟩ := onChange_same env (persistActive env w)
      ((nobodyTold_persistActive env w).mpr htold)
    refine ⟨reply env fd (entries true) w', by simp only [hok]; rfl, (hpersist.trans hs).trans ?_⟩
    exact reply_same env fd _ w' ((hpersist.trans hs).conns ▸ hfd)

theorem lock_same_iff {fd : Fd} {msg : Value} {w : World} (hfd : fd ∉ w.conns)
    (hcmd : msg.str (bytes "cmd") [] = bytes "lock") :
    (∃ w', onCtl env fd msg w = .ok w' ∧ SameOutcome w w') ↔
      ∀ target ∈ lockTarget env w, target ∉ w.conns := by
  rw [onCtl_lock env fd msg w hcmd, sendLockToActiveAgent_target]
  cases ht : lockTarget env w with
  | none => exact iff_of_true ⟨_, rfl, reply_same env fd _ w hfd⟩ (by simp)
  | some target =>
      simp only [Option.mem_some, forall_eq']
      constructor
      · rintro ⟨w', hok, hs⟩
        cases hok
        have hg := (send_emits env target encodeLock w).keeps.grows
        obtain ⟨hu, -⟩ := hs.unseen.split hg (reply_emits env fd _ _).keeps.grows
        exact hu.all (World.emit_trace w _) _ (List.mem_singleton_self _)
      · intro htarget
        have hsent : SameOutcome w (send env target encodeLock w) := .emit w htarget
        exact ⟨_, rfl, hsent.trans (reply_same env fd _ _ hfd)⟩

theorem reloadConfig_same_iff (w : World) :
    SameOutcome w (reloadConfig env w).world ↔
      ∀ config, w.config.reload w.file = .ok config →
        config = w.config ∧ (NobodyTold w ∨ w.activeProfile ≠ none ∧ Unreadable w.sysfs) := by
  unfold reloadConfig
  cases w.config.reload w.file with
  | error e => exact iff_of_true (.refl w) (by simp)
  | ok config =>
      simp only [Except.ok.injEq, forall_eq']
      constructor
      · intro hs
        have hconfig := onChange_config env { w with config := config }
        obtain rfl : config = w.config := hconfig.symm.trans hs.config
        refine ⟨rfl, ?_⟩
        cases hon : onChange env { w with config := w.config } with
        | error t => exact .inr (unreadable_of_onChange env hon)
        | ok w₂ =>
            rw [hon] at hs
            exact .inl (nobodyTold_of_onChange env hon hs.unseen)
      · rintro ⟨rfl, htold | ⟨hp, hu⟩⟩
        · obtain ⟨w', hok, hs⟩ := onChange_same env w htold
          rw [hok]
          exact hs
        · obtain ⟨t, herr, hs⟩ := onChange_unreadable env w hp hu
          rw [herr]
          exact hs

-- The reply of reload_config goes to a connection that is closed.
theorem reload_same_iff {fd : Fd} {msg : Value} {w : World} (hfd : fd ∉ w.conns)
    (hcmd : msg.str (bytes "cmd") [] = bytes "reload_config") :
    (∃ w', onCtl env fd msg w = .ok w' ∧ SameOutcome w w') ↔
      SameOutcome w (reloadConfig env w).world := by
  obtain ⟨entries, he⟩ := onCtl_reloadConfig env fd msg w hcmd
  have hk := reloadConfig_keeps env w
  have hreply : SameOutcome (reloadConfig env w).world (reply env fd entries (reloadConfig env w).world) :=
    reply_same env fd _ _ (hk.conns ▸ hfd)
  rw [he]
  constructor
  · rintro ⟨w', hok, hs⟩
    cases hok
    have hg := (reply_emits env fd entries (reloadConfig env w).world).keeps.grows
    exact ⟨hk.conns, fun other => by rw [hk.agents], hreply.config.symm.trans hs.config, hk.dimmed,
      (hs.unseen.split hk.grows hg).1⟩
  · exact fun hs => ⟨_, rfl, hs.trans hreply⟩

theorem onCtl_same_iff {fd : Fd} {msg : Value} {w : World} (hfd : fd ∉ w.conns) :
    (∃ w', onCtl env fd msg w = .ok w' ∧ SameOutcome w w') ↔ InertCtl env msg w := by
  unfold InertCtl
  dsimp only
  split
  · rename_i hcmd
    exact setProfile_same_iff env hfd hcmd
  split
  · rename_i hcmd
    exact lock_same_iff env hfd hcmd
  split
  · rename_i hcmd
    exact (reload_same_iff env hfd hcmd).trans (reloadConfig_same_iff env w)
  · rename_i hp hl hr
    obtain ⟨entries, he⟩ := onCtl_other env fd msg w hp hl hr
    exact iff_of_true ⟨_, he, reply_same env fd _ w hfd⟩ trivial

end Ctl

section Messages

variable (env : Env)

theorem onIdleSleep_blocked (fd : Fd) (w : World)
    (h : isActiveAgent fd w = true → hasAnyInhibit w = true ∨ ¬SleepEnabled w) :
    onIdleSleep env fd w = w.emit (.report fd .idleSleep) := by
  rcases onIdleSleep_enabled env fd w with hs | hs
  · exact hs
  have ha := isActiveAgent_congr fd (World.emit_agents w (.report fd .idleSleep)) (World.emit_session w _)
  have hi := hasAnyInhibit_congr (World.emit_agents w (.report fd .idleSleep))
  by_cases hactive : isActiveAgent fd w = true
  · have hinhibit := (h hactive).resolve_right (not_not.mpr hs)
    simp [onIdleSleep, ha, hi, hactive, hinhibit]
  · simp [onIdleSleep, ha, hactive]

theorem onIdleSleep_eq (fd : Fd) (w : World) (ha : isActiveAgent fd w = true)
    (hi : hasAnyInhibit w = false) (hs : SleepEnabled w) :
    onIdleSleep env fd w = doSuspend env (bytes "suspend") (w.emit (.report fd .idleSleep)) := by
  obtain ⟨p, hp, ht⟩ := hs
  have ha' := isActiveAgent_congr fd (World.emit_agents w (.report fd .idleSleep)) (World.emit_session w _)
  have hi' := hasAnyInhibit_congr (World.emit_agents w (.report fd .idleSleep))
  have hp' : (w.emit (.report fd .idleSleep)).activeProfile = some p := hp
  have ht' : ¬p.sleepTimeout ≤ 0 := Int32.not_le.mpr ht
  simp [onIdleSleep, ha', ha, hi', hi, hp', ht']

theorem updateInhibits_same {update : Bytes → List Bytes → List Bytes} {fd : Fd} {msg : Value} {w : World}
    (hfd : fd ∉ w.conns) (hh : hear (w.agents.lookup fd) msg = w.agents.lookup fd)
    (h : Heard fd msg w (updateInhibits env update fd msg w)) :
    SameOutcome w (updateInhibits env update fd msg w) := by
  cases hl : w.agents.lookup fd with
  | none =>
      simp only [updateInhibits, hl]
      exact .refl w
  | some agent =>
      simp only [updateInhibits, hl] at h ⊢
      exact .of_heard h hh rfl rfl (.single _ hfd)

theorem onMessage_same {fd : Fd} {msg : Value} {w : World} (hfd : fd ∉ w.conns)
    (h : Inert env fd msg w) : ∃ w', onMessage env fd msg w = .ok w' ∧ SameOutcome w w' := by
  unfold onMessage
  dsimp only
  split
  · rename_i ht
    exact ⟨_, rfl, .of_heard (onHello_heard env fd msg w ht) h.heard rfl rfl (.single _ hfd)⟩
  split
  · rename_i ht
    exact (onCtl_same_iff env hfd).mpr (h.ctl ht)
  split
  · exact ⟨w, rfl, .refl w⟩
  rename_i ha
  have ha : fd ∈ w.agents := not_not.mp ha
  split
  · rename_i ht
    refine ⟨_, onIdleDim_blocked env fd w fun hactive hi hd => ?_, .emit w trivial⟩
    rcases h.idleDim ht hactive with hi' | hd' | hp
    · rw [hi] at hi'
      cases hi'
    · rw [hd] at hd'
      cases hd'
    · exact hp
  split
  · rename_i ht
    exact ⟨_, congrArg _ (onIdleSleep_blocked env fd w (h.idleSleep ht)), .emit w trivial⟩
  split
  · rename_i ht
    exact ⟨_, onActive_blocked env fd w (h.active ht), .emit w trivial⟩
  split
  · rename_i ht
    exact ⟨_, rfl, updateInhibits_same env hfd h.heard
      (updateInhibits_heard env _ fd msg w ha fun agent => hear_inhibit agent msg ht)⟩
  split
  · rename_i ht
    exact ⟨_, rfl, updateInhibits_same env hfd h.heard
      (updateInhibits_heard env _ fd msg w ha fun agent => hear_uninhibit agent msg ht)⟩
  · exact ⟨w, rfl, .refl w⟩

theorem inert_of_onMessage {fd : Fd} {msg : Value} {w w' : World} (hfd : fd ∉ w.conns)
    (hok : onMessage env fd msg w = .ok w') (hs : SameOutcome w w') : Inert env fd msg w where
  heard := by
    have hl := (onMessage_heard env fd msg w).lookup fd
    rw [hok, if_pos rfl] at hl
    exact hl.symm.trans (hs.agents fd)
  ctl ht := by
    rw [onMessage_ctl env ht] at hok
    exact (onCtl_same_iff env hfd).mp ⟨w', hok, hs⟩
  idleDim ht ha := by
    by_contra hn
    simp only [not_or, Bool.not_eq_true] at hn
    obtain ⟨hi, hd, hp⟩ := hn
    obtain ⟨p, hp⟩ := Option.ne_none_iff_exists'.mp hp
    rw [onMessage_idleDim env ht (isActiveAgent_mem ha), onIdleDim_eq env fd w p ha hi hd hp] at hok
    obtain ⟨w₁, -, hok⟩ := (bind_ok_iff _ _ _).mp hok
    cases hok
    rw [← hs.dimmed] at hd
    cases hd
  idleSleep ht ha := by
    by_contra hn
    simp only [not_or, not_not, Bool.not_eq_true] at hn
    obtain ⟨hi, hsleep⟩ := hn
    rw [onMessage_idleSleep env ht (isActiveAgent_mem ha), onIdleSleep_eq env fd w ha hi hsleep] at hok
    cases hok
    obtain ⟨after, htrace, -⟩ := doSuspend_suspends env (bytes "suspend") (w.emit (.report fd .idleSleep))
    rw [World.emit_trace, List.append_assoc] at htrace
    exact hs.unseen.all htrace (.suspend (bytes "suspend")) (by simp)
  active ht ha := by
    rw [onMessage_active env ht (isActiveAgent_mem ha)] at hok
    rcases onActive_cases env fd w w' hok with hd | ⟨-, hp⟩
    · exact .inl (hs.dimmed ▸ hd)
    · exact .inr (hp ha)

end Messages

section Lines

variable (env : Env)

theorem onLine_message (fd : Fd) (line : Bytes) (msg : Value) (w : World) (hd : decode line = .ok msg) :
    onLine env fd line w = onMessage env fd msg (w.emit (.line fd line)) := by
  simp only [onLine, hd]

theorem onLine_malformed (fd : Fd) (line : Bytes) (e : Exn) (w : World) (hd : decode line = .error e) :
    onLine env fd line w = .ok (closeClient fd (w.emit (.line fd line))) := by
  simp only [onLine, hd]

-- A line that decodes closes nothing.
theorem onLine_message_grows {fd : Fd} {line : Bytes} {msg : Value} {w w' : World}
    (hd : decode line = .ok msg) (hok : onLine env fd line w = .ok w') :
    Trace.Grows (fun e => e ≠ .close fd) w.trace w'.trace := by
  have hh := perform_message env fd line msg w hd
  rw [perform, hok] at hh
  refine (Trace.Grows.single w.trace (e := .line fd line) (by simp)).trans (hh.grows.mono ?_)
  rintro e he rfl
  rcases he with ((he | he | he) | he) <;> exact he

theorem onLine_grows {fd : Fd} {line : Bytes} {w w' : World} (hok : onLine env fd line w = .ok w') :
    Trace.Grows (fun _ => True) w.trace w'.trace := by
  cases hd : decode line with
  | error e =>
      rw [onLine_malformed env fd line e w hd] at hok
      cases hok
      exact ⟨[.line fd line, .close fd], by simp [closeClient], by simp⟩
  | ok msg => exact (onLine_message_grows env hd hok).mono fun _ _ => trivial

theorem onLine_same_iff {fd : Fd} {line : Bytes} {w : World} (hfd : fd ∉ w.conns) (hne : line ≠ []) :
    (∃ w', onLine env fd line w = .ok w' ∧ SameOutcome w w') ↔ InertLine env fd line w := by
  have hline : SameOutcome w (w.emit (.line fd line)) := .emit w trivial
  have hfd' : fd ∉ (w.emit (.line fd line)).conns := hfd
  cases hd : decode line with
  | error e =>
      refine iff_of_false ?_ fun h => ?_
      · rintro ⟨w', hok, hs⟩
        rw [onLine_malformed env fd line e w hd] at hok
        cases hok
        have ho : (closeClient fd (w.emit (.line fd line))).trace =
            w.trace ++ [.line fd line, .close fd] := by simp [closeClient]
        exact hs.unseen.all ho (.close fd) (by simp)
      · obtain ⟨msg, hd', -⟩ := h hne
        cases hd.symm.trans hd'
  | ok msg =>
      rw [onLine_message env fd line msg w hd]
      constructor
      · rintro ⟨w', hok, hs⟩ -
        have hh := onMessage_heard env fd msg (w.emit (.line fd line))
        rw [hok] at hh
        exact ⟨msg, hd, inert_of_onMessage env hfd' hok (hline.between hs hh.grows)⟩
      · intro h
        obtain ⟨msg', hd', hinert⟩ := h hne
        cases hd.symm.trans hd'
        obtain ⟨w', hok, hs⟩ := onMessage_same env hfd' hinert
        exact ⟨w', hok, hline.trans hs⟩

-- The outcome of w₁ is kept by exactly the lines that are inert.
theorem lineStep_same_iff {fd : Fd} {w₁ : World} (hfd : fd ∉ w₁.conns) (r : Result) (line : Bytes)
    (h : ∃ w, r = .ok w ∧ SameOutcome w₁ w) :
    (∃ w', lineStep env fd r line = .ok w' ∧ SameOutcome w₁ w') ↔ HandlesInert env fd r line := by
  obtain ⟨w, rfl, hs⟩ := h
  have hfd' : fd ∉ w.conns := hs.conns ▸ hfd
  have hall : HandlesInert env fd (.ok w) line ↔ InertLine env fd line w := by simp [HandlesInert]
  rw [hall]
  by_cases hne : line = []
  · exact iff_of_true ⟨w, if_pos hne, hs⟩ fun h => absurd hne h
  have hstep : lineStep env fd (.ok w) line = onLine env fd line w := if_neg hne
  rw [hstep, ← onLine_same_iff env hfd' hne]
  constructor
  · rintro ⟨w', hok, hs'⟩
    exact ⟨w', hok, hs.between hs' (onLine_grows env hok)⟩
  · rintro ⟨w', hok, hs'⟩
    exact ⟨w', hok, hs.trans hs'⟩

theorem exec_lineStep_error (fd : Fd) (t : Thrown) (lines : List Bytes) :
    Run.exec (lineStep env fd) (.error t) lines = .error t := by
  induction lines with
  | nil => rfl
  | cons line rest ih => exact ih

theorem deliver_exec (fd : Fd) (lines : List Bytes) (w : World) :
    deliver env fd lines w = Run.exec (lineStep env fd) (.ok w) lines := by
  induction lines generalizing w with
  | nil => rfl
  | cons line rest ih =>
      rw [Run.exec_cons]
      by_cases hne : line = []
      · have hstep : lineStep env fd (.ok w) line = .ok w := if_pos hne
        rw [hstep, ← ih, deliver, if_pos hne]
      · have hstep : lineStep env fd (.ok w) line = onLine env fd line w := if_neg hne
        rw [hstep, deliver, if_neg hne]
        cases onLine env fd line w with
        | error t => exact (exec_lineStep_error env fd t rest).symm
        | ok w' => exact ih w'

theorem deliver_append (fd : Fd) (first second : List Bytes) (w w' : World)
    (h : deliver env fd first w = .ok w') : deliver env fd (first ++ second) w = deliver env fd second w' := by
  rw [deliver_exec] at h
  rw [deliver_exec, deliver_exec, Run.exec_append, h]

-- However many lines are handled after the connection has been closed.
theorem deliver_same_iff (fd : Fd) (w₁ : World) (hfd : fd ∉ w₁.conns) (after : List Bytes) :
    (∀ lines, lines <+: after → ∃ w₂, deliver env fd lines w₁ = .ok w₂ ∧ SameOutcome w₁ w₂) ↔
      Run.Meets (lineStep env fd) (HandlesInert env fd) (.ok w₁) after := by
  rw [← Run.throughout_iff_meets (lineStep env fd) (lineStep_same_iff env hfd) after ⟨w₁, rfl, .refl w₁⟩,
    Run.throughout_iff_prefix]
  simp only [deliver_exec]

theorem deliver_messages_grows (fd : Fd) (lines : List Bytes) (w w' : World)
    (hdecode : ∀ line ∈ lines, line ≠ [] → ∃ msg, decode line = .ok msg)
    (hok : deliver env fd lines w = .ok w') : Trace.Grows (fun e => e ≠ .close fd) w.trace w'.trace := by
  induction lines generalizing w with
  | nil =>
      cases hok
      exact .refl _
  | cons line rest ih =>
      have hrest := fun other hother => hdecode other (List.mem_cons_of_mem _ hother)
      by_cases hne : line = []
      · rw [deliver, if_pos hne] at hok
        exact ih w hrest hok
      · rw [deliver, if_neg hne] at hok
        obtain ⟨w₁, hok₁, hok⟩ := (bind_ok_iff _ _ _).mp hok
        obtain ⟨msg, hd⟩ := hdecode line (by simp) hne
        exact (onLine_message_grows env hd hok₁).trans (ih w₁ hrest hok)

-- What there is when the first malformed line has been handled.
theorem deliver_malformed (fd : Fd) (before : List Bytes) (bad : Bytes) (w w₁ : World)
    (hdecode : ∀ line ∈ before, line ≠ [] → ∃ msg, decode line = .ok msg) (hne : bad ≠ [])
    (e : Exn) (hd : decode bad = .error e) (hok : deliver env fd (before ++ [bad]) w = .ok w₁) :
    fd ∉ w₁.conns ∧ ClosedOnce fd w w₁ := by
  cases hb : deliver env fd before w with
  | error t =>
      rw [deliver_exec] at hb
      rw [deliver_exec, Run.exec_append, hb] at hok
      cases hok
  | ok w₀ =>
      rw [deliver_append env fd before [bad] w w₀ hb, deliver, if_neg hne,
        onLine_malformed env fd bad e w₀ hd] at hok
      cases hok
      obtain ⟨out, ho, hn⟩ := deliver_messages_grows env fd before w w₀ hdecode hb
      refine ⟨by simp [closeClient], out ++ [.line fd bad, .close fd], ?_, ?_⟩
      · simp [closeClient, ho]
      · have hzero : out.count (.close fd) = 0 := List.count_eq_zero.mpr fun hm => hn _ hm rfl
        simp [hzero]

-- What others do not notice does not close it again.
theorem ClosedOnce.same {fd : Fd} {w w₁ w₂ : World} (h : ClosedOnce fd w w₁) (hs : SameOutcome w₁ w₂) :
    ClosedOnce fd w w₂ := by
  obtain ⟨out, ho, hc⟩ := h
  obtain ⟨out', ho', hu⟩ := hs.unseen
  refine ⟨out ++ out', by rw [ho', ho, List.append_assoc], ?_⟩
  have hzero : out'.count (.close fd) = 0 := List.count_eq_zero.mpr fun hm => hu _ hm
  rw [List.count_append, hc, hzero]

theorem handleClient_lines {fd : Fd} {w : World} {c : Connection} (hc : w.conns.lookup fd = some c)
    (reads : List Sock.ReadResult) (h : (c.buf.feed reads).2.2 ≠ []) :
    handleClient env fd reads w = deliver env fd (c.buf.feed reads).2.2 (fed fd c reads w) := by
  have hok : (c.buf.feed reads).1 = true := by
    by_contra hf
    exact h (feed_lines_of_false c.buf reads (by simpa using hf))
  unfold handleClient
  simp only [hc, hok, if_true]
  change (deliver env fd (c.buf.feed reads).2.2 (fed fd c reads w) >>= fun w => .ok w) = _
  cases deliver env fd (c.buf.feed reads).2.2 (fed fd c reads w) with
  | error t => rfl
  | ok w' => rfl

-- Of the lines of one feed the first malformed one is bad, and w₁ is the state when
-- it has been handled. handle_client, and likewise every delivery that ends with one
-- of the lines behind, leaves things as they are in w₁ and closes the descriptor
-- once, exactly when each line behind is inert in the state in which it is handled.
theorem ended_iff (fd : Fd) (w w₁ : World) (c : Connection) (reads : List Sock.ReadResult)
    (before after : List Bytes) (bad : Bytes) (e : Exn) (hc : w.conns.lookup fd = some c)
    (hl : (c.buf.feed reads).2.2 = before ++ bad :: after)
    (hdecode : ∀ line ∈ before, line ≠ [] → ∃ msg, decode line = .ok msg) (hne : bad ≠ [])
    (hd : decode bad = .error e)
    (hok : deliver env fd (before ++ [bad]) (fed fd c reads w) = .ok w₁) :
    (Ended fd w w₁ (handleClient env fd reads w) ∧
      ∀ lines, lines <+: after →
        Ended fd w w₁ (deliver env fd (before ++ bad :: lines) (fed fd c reads w))) ↔
      Run.Meets (lineStep env fd) (HandlesInert env fd) (.ok w₁) after := by
  obtain ⟨hfd, hclosed⟩ := deliver_malformed env fd before bad (fed fd c reads w) w₁ hdecode hne e hd hok
  have hrest : ∀ lines, Ended fd w w₁ (deliver env fd (before ++ bad :: lines) (fed fd c reads w)) ↔
      ∃ w₂, deliver env fd lines w₁ = .ok w₂ ∧ SameOutcome w₁ w₂ := by
    intro lines
    rw [List.append_cons, deliver_append env fd (before ++ [bad]) lines _ w₁ hok]
    constructor
    · rintro ⟨w₂, hok₂, hs, -⟩
      exact ⟨w₂, hok₂, hs⟩
    · rintro ⟨w₂, hok₂, hs⟩
      exact ⟨w₂, hok₂, hs, ClosedOnce.same hclosed hs⟩
  have hhandle : handleClient env fd reads w =
      deliver env fd (before ++ bad :: after) (fed fd c reads w) := by
    rw [handleClient_lines env hc reads (by simp [hl]), hl]
  rw [← deliver_same_iff env fd w₁ hfd after, hhandle]
  simp only [hrest]
  exact ⟨And.right, fun h => ⟨h after List.prefix_rfl, h⟩⟩

end Lines

-- A malformed line, and what stands behind it in the same feed.
def malformedThen (line : Bytes) : List Sock.ReadResult :=
  [.data (bytes "x\n" ++ line ++ [10])]

-- The closed connection selects another profile, and a second malformed line
-- closes its descriptor again.
theorem notEnded_laterLine :
    ∃ w, sampleStart = .ok w ∧
      ∀ line ∈ [encodeCtl (bytes "set_profile") (bytes "b"), bytes "y"],
        ∃ c w₁ after, (run .plain w [accept 7]).world.conns.lookup 7 = some c ∧
          (c.buf.feed (malformedThen line)).2.2 = [] ++ bytes "x" :: after ∧
          deliver .plain 7 [bytes "x"] (fed 7 c (malformedThen line) (run .plain w [accept 7]).world) = .ok w₁ ∧
          ¬Ended 7 (run .plain w [accept 7]).world w₁
            (handleClient .plain 7 (malformedThen line) (run .plain w [accept 7]).world) := by
  refine ⟨_, rfl, ?_⟩
  simp only [List.forall_mem_cons, List.not_mem_nil, false_imp_iff, implies_true, and_true]
  refine ⟨⟨_, _, _, rfl, rfl, rfl, ?_⟩, ⟨_, _, _, rfl, rfl, rfl, ?_⟩⟩
  · rintro ⟨w₂, hok, hs, -⟩
    cases hok
    exact absurd (congrArg ConfigManager.active hs.config) (by decide)
  · rintro ⟨w₂, hok, -, out, ho, hc⟩
    cases hok
    obtain rfl : out = [.line 7 (bytes "x"), .close 7, .line 7 (bytes "y"), .close 7] :=
      List.append_cancel_left (ho.symm.trans rfl)
    exact absurd hc (by decide)

-- Behind it stands a command that only asks.
theorem ended_iff_sample :
    ∃ w, sampleStart = .ok w ∧
      ∃ c w₁, (run .plain w [accept 7]).world.conns.lookup 7 = some c ∧
        deliver .plain 7 [bytes "x"] (fed 7 c (malformedThen (encodeCtl (bytes "status") []))
          (run .plain w [accept 7]).world) = .ok w₁ ∧
        Ended 7 (run .plain w [accept 7]).world w₁
          (handleClient .plain 7 (malformedThen (encodeCtl (bytes "status") []))
            (run .plain w [accept 7]).world) := by
  refine ⟨_, rfl, _, _, rfl, rfl, ?_⟩
  refine ((ended_iff .plain 7 _ _ _ _ [] [encodeCtl (bytes "status") []] (bytes "x") _ rfl rfl
    (by simp) (by decide) rfl rfl).mpr ⟨?_, trivial⟩).1
  rintro w hw -
  cases hw
  refine ⟨_, rfl, rfl, fun _ => ?_, fun ht => ?_, fun ht => ?_, fun ht => ?_⟩
  · exact trivial
  · exact absurd ht (by decide)
  · exact absurd ht (by decide)
  · exact absurd ht (by decide)

end Draind.Daemon
