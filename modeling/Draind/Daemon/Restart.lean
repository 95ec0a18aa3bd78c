import Draind.Daemon.Persist
import Draind.Daemon.Malformed
import Draind.Daemon.Untouched

namespace Draind.Daemon

open Json Proto
open ConfigManager (renamed Persists)

-- A daemon that is started with what this one leaves behind has its profiles, and
-- the one selected here.
def Resumes (w : World) : Prop :=
  ∃ m, ConfigManager.create w.config.path w.file = .ok m ∧
    m.config.profiles = w.config.config.profiles ∧ m.active = w.config.active

-- persist_active puts the name into the file, or there is no need to. It returns
-- silently where the file cannot be opened.
def Saves (env : Env) (name : Bytes) (w : World) : Prop :=
  (env.saved w.trace = none ∧ name = w.config.active) ∨
    ∃ n text root, env.saved w.trace = some n ∧ w.file = some text ∧ parse text = .ok root ∧
      (dumpPretty 2 (renamed root name)).length - 1 ≤ n ∧ Persists root name

def MessageKeepsFile (env : Env) (msg : Value) (w : World) : Prop :=
  msgType msg = T_CTL → msg.str (bytes "cmd") [] = bytes "set_profile" →
    w.config.select (msg.str (bytes "profile") []) ≠ none → Saves env (msg.str (bytes "profile") []) w

def CallKeepsFile (env : Env) (w : World) : Call → Prop
  | .line fd line =>
      match decode line with
      | .ok msg => MessageKeepsFile env msg (w.emit (.line fd line))
      | .error _ => True
  | _ => True

-- What the others write is for the same profiles and the same one selected.
def KeepsFile (env : Env) (s : State) : Move → Prop
  | .outside file _ => s.world.exited = false → Resumes { s.world with file := file }
  | .call => s.world.exited = false → ∀ c ∈ s.pending.head?, CallKeepsFile env s.world c
  | _ => True

section Saving

variable (env : Env)

theorem SparesConfig.resumes_iff {w w' : World} (h : SparesConfig w w') : Resumes w' ↔ Resumes w := by
  simp only [Resumes, h.file, h.config]

-- The beginning that is long enough reads as the whole.
theorem parse_take_renamed (root : Value) (name : Bytes) (n : Nat) (h : Ordered root)
    (hn : (dumpPretty 2 (renamed root name)).length - 1 ≤ n) :
    parse ((dumpPretty 2 (renamed root name)).take n) = reprint (renamed root name) := by
  obtain ⟨hshort, hwhole⟩ := parse_dumpPretty 2 _ (ConfigManager.ordered_renamed root name h)
  by_cases hall : (dumpPretty 2 (renamed root name)).length ≤ n
  · rw [List.take_of_length_le hall, hwhole]
  · -- All but the newline at its end.
    have hlen : n = (dumpPrettyAt 2 0 (renamed root name)).length := by
      simp only [dumpPretty, List.length_append, List.length_singleton] at hn hall
      omega
    rw [dumpPretty, hlen, List.take_left, hshort]

-- With the profiles the name is there too.
theorem loadConfig_saved_iff (path text name : Bytes) (c : Config) (root : Value) (n : Nat)
    (h : loadConfig path (some text) = .ok c) (hroot : parse text = .ok root) (hne : name ≠ []) :
    (∃ c', loadConfig path (some ((dumpPretty 2 (renamed root name)).take n)) = .ok c' ∧
        c'.profiles = c.profiles ∧ c'.activeProfile = name) ↔
      (dumpPretty 2 (renamed root name)).length - 1 ≤ n ∧ Persists root name := by
  rw [← ConfigManager.loadConfig_take_iff path text name c root n h hroot]
  constructor
  · rintro ⟨c', hc', hprofiles, -⟩
    exact ⟨c', hc', hprofiles⟩
  · rintro ⟨c', hc', hprofiles⟩
    have hlong := (ConfigManager.loadConfig_take_iff path text name c root n h hroot).mp ⟨c', hc', hprofiles⟩
    have hread := parse_take_renamed root name n (parse_ordered text root hroot) hlong.1
    exact ⟨c', hc', hprofiles,
      (ConfigManager.loadConfig_reprint path text _ name c root h hroot hread).2 c' hne hc'⟩

theorem resumes_iff (w : World) :
    Resumes w ↔ ∃ c, loadConfig w.config.path w.file = .ok c ∧ c.profiles = w.config.config.profiles ∧
      c.activeProfile = w.config.active := by
  unfold Resumes ConfigManager.create
  constructor
  · rintro ⟨m, hm, hprofiles, hactive⟩
    obtain ⟨c, hc, rfl⟩ := (ConfigManager.reload_ok_iff _ _ m).mp hm
    exact ⟨c, hc, hprofiles, hactive⟩
  · rintro ⟨c, hc, hprofiles, hactive⟩
    exact ⟨_, (ConfigManager.reload_ok_iff _ _ _).mpr ⟨c, hc, rfl⟩, hprofiles, hactive⟩

-- The name is never empty, for a profile has it.
theorem persistActive_resumes_iff (name : Bytes) (w : World) (config : ConfigManager) (h : Resumes w)
    (hs : w.config.select name = some config) :
    Resumes (persistActive env { w with config := config }) ↔ Saves env name w := by
  obtain ⟨rfl, p, hp, hname⟩ := ConfigManager.select_ok _ config name hs
  obtain ⟨c, hc, hprofiles, hactive⟩ := (resumes_iff w).mp h
  obtain ⟨text, root, hfile, hroot, hps, -⟩ := ConfigManager.loadConfig_ok w.config.path w.file c hc
  have hne : name ≠ [] := by
    rw [← hprofiles] at hp
    exact hname ▸ ConfigManager.profiles_named _ _ hps p hp
  rw [hfile] at hc
  have htext : ({ w.config with active := name } : ConfigManager).persistText w.file =
      some (dumpPretty 2 (renamed root name)) := by
    rw [hfile, ConfigManager.persistText_renamed _ text root hroot]
  rw [resumes_iff]
  unfold persistActive Saves
  dsimp only
  rw [htext]
  cases hsaved : env.saved w.trace with
  | none =>
      dsimp only
      rw [hfile, hc]
      simp [hprofiles, hactive, eq_comm]
  | some n =>
      have hiff := loadConfig_saved_iff w.config.path text name c root n hc hroot hne
      rw [hprofiles] at hiff
      simp [World.emit, hiff, hfile, hroot]

theorem setActive_resumes_iff (name : Bytes) (w : World) (h : Resumes w) :
    (∀ r, setActive env name w = .ok r →
        (Resumes r.2 ↔ (w.config.select name ≠ none → Saves env name w))) ∧
      ∀ t, setActive env name w = .error t →
        (Resumes t.world ↔ (w.config.select name ≠ none → Saves env name w)) := by
  rcases setActive_cases env name w with ⟨hs, he⟩ | ⟨config, hs, he⟩
  · rw [he, hs]
    refine ⟨fun r hr => ?_, fun t ht => ?_⟩
    · cases hr
      exact iff_of_true h fun hne => absurd rfl hne
    · cases ht
  · have hsaved := persistActive_resumes_iff env name w config h hs
    have hsame := (onChange_spares env (persistActive env { w with config := config })).resumes_iff
    rw [he]
    simp only [hs, ne_eq, reduceCtorEq, not_false_eq_true, true_implies, ← hsaved]
    cases hr : onChange env (persistActive env { w with config := config }) with
    | error t =>
        rw [hr] at hsame
        refine ⟨fun r hr => ?_, fun t' ht => ?_⟩
        · cases hr
        · cases ht
          exact hsame
    | ok w' =>
        rw [hr] at hsame
        refine ⟨fun r hr => ?_, fun t ht => ?_⟩
        · cases hr
          exact hsame
        · cases ht

-- What is read now is what a daemon started now reads.
theorem reloadConfig_resumes (w : World) (h : Resumes w) : Resumes (reloadConfig env w).world := by
  unfold reloadConfig
  cases hr : w.config.reload w.file with
  | error e => exact h
  | ok m =>
      refine (onChange_spares env { w with config := m }).resumes_iff.mpr ?_
      obtain ⟨c, hc, rfl⟩ := (ConfigManager.reload_ok_iff _ _ m).mp hr
      rw [resumes_iff]
      exact ⟨c, hc, rfl, rfl⟩

theorem onCtl_resumes_iff (fd : Fd) (msg : Value) (w : World) (h : Resumes w) :
    Resumes (onCtl env fd msg w).world ↔
      (msg.str (bytes "cmd") [] = bytes "set_profile" →
        w.config.select (msg.str (bytes "profile") []) ≠ none → Saves env (msg.str (bytes "profile") []) w) := by
  have hreply : ∀ entries w', Resumes (reply env fd entries w') ↔ Resumes w' :=
    fun entries w' => (reply_emits env fd entries w').spares.resumes_iff
  by_cases hset : msg.str (bytes "cmd") [] = bytes "set_profile"
  · obtain ⟨entries, he⟩ := onCtl_setProfile env fd msg w hset
    have hactive := setActive_resumes_iff env (msg.str (bytes "profile") []) w h
    rw [he]
    simp only [hset, true_implies]
    cases hr : setActive env (msg.str (bytes "profile") []) w with
    | error t => exact hactive.2 t hr
    | ok r => exact (hreply _ r.2).trans (hactive.1 r hr)
  refine iff_of_true ?_ fun hf => absurd hf hset
  by_cases hreload : msg.str (bytes "cmd") [] = bytes "reload_config"
  · obtain ⟨entries, he⟩ := onCtl_reloadConfig env fd msg w hreload
    rw [he]
    exact (hreply _ _).mpr (reloadConfig_resumes env w h)
  by_cases hlock : msg.str (bytes "cmd") [] = bytes "lock"
  · rw [onCtl_lock env fd msg w hlock]
    exact (hreply _ _).mpr ((sendLockToActiveAgent_emits env w).spares.resumes_iff.mpr h)
  · obtain ⟨entries, he⟩ := onCtl_other env fd msg w hset hlock hreload
    rw [he]
    exact (hreply _ w).mpr h

theorem onMessage_resumes_iff (fd : Fd) (msg : Value) (w : World) (h : Resumes w) :
    Resumes (onMessage env fd msg w).world ↔ MessageKeepsFile env msg w := by
  unfold MessageKeepsFile
  by_cases hc : msgType msg = T_CTL
  · rw [onMessage_ctl env hc, onCtl_resumes_iff env fd msg w h]
    simp only [hc, true_implies]
  · exact iff_of_true ((onMessage_spares env fd msg w hc).resumes_iff.mpr h) fun hf => absurd hf hc

theorem perform_resumes_iff (c : Call) (w : World) (h : Resumes w) :
    Resumes (perform env c w).world ↔ CallKeepsFile env w c := by
  cases c with
  | hangUp fd => exact iff_of_true h trivial
  | button e =>
      refine iff_of_true ((Spares.emit w (.button e)).trans ?_ |>.resumes_iff.mpr h) trivial
      exact (onEvent_emits env e w).spares
  | line fd line =>
      simp only [perform, onLine, CallKeepsFile]
      cases hd : decode line with
      | error e => exact iff_of_true h trivial
      | ok msg => exact onMessage_resumes_iff env fd msg _ h

end Saving

section Runs

variable (env : Env)

theorem step_resumes_iff (s : State) (move : Move) (h : Resumes s.world) :
    Resumes (step env s move).world ↔ KeepsFile env s move := by
  obtain ⟨w, pending⟩ := s
  replace h : Resumes w := h
  cases he : w.exited with
  | true =>
      rw [step_exited env ⟨w, pending⟩ move he]
      refine iff_of_true h ?_
      cases move <;> simp [KeepsFile, he]
  | false =>
      cases move with
      | signal m =>
          refine iff_of_true ?_ trivial
          unfold step
          dsimp only
          split
          · exact h
          · exact (handleSeatProperties_spares m w).resumes_iff.mpr h
      | ready r =>
          have hstep := step_stepped env ⟨w, pending⟩ (.ready r)
          generalize step env ⟨w, pending⟩ (.ready r) = s' at hstep ⊢
          refine iff_of_true ?_ trivial
          cases hstep <;> exact h
      | outside file sysfs =>
          have hstep : step env ⟨w, pending⟩ (.outside file sysfs) =
              ⟨{ w with file := file, sysfs := sysfs }, pending⟩ := by simp [step, he]
          rw [hstep]
          simp [KeepsFile, he, Resumes]
      | call =>
          cases pending with
          | nil => exact iff_of_true h fun _ c hc => by simp at hc
          | cons c rest =>
              have hstep : step env ⟨w, c :: rest⟩ .call = ⟨(perform env c w).settle, rest⟩ := by simp [step, he]
              rw [hstep]
              refine (Result.settle_spares (perform env c w)).resumes_iff.trans ?_
              rw [perform_resumes_iff env c w h]
              simp [KeepsFile, he]

theorem setup_config {path : Bytes} {file : Option Bytes} {sysfs : Sysfs} {sessionId : Bytes} {w : World}
    (h : setup env path file sysfs sessionId = .ok w) :
    ∃ c, loadConfig path file = .ok c ∧ w.config = ⟨path, c, c.activeProfile⟩ ∧ w.file = file := by
  obtain ⟨w₀, hcreate, hfile, hset⟩ := setup_cases env h
  obtain ⟨c, hc, hconfig⟩ := (ConfigManager.reload_ok_iff _ _ w₀.config).mp hcreate
  rcases hset with ⟨-, rfl⟩ | ⟨p, -, happly⟩
  · exact ⟨c, hc, hconfig, hfile⟩
  · have hspares := apply_spares env p w₀
    rw [happly, Result.world_ok] at hspares
    exact ⟨c, hc, hspares.config.trans hconfig, hspares.file.trans hfile⟩

theorem started_resumes (w : World) (h : Started env w) : Resumes w := by
  obtain ⟨path, file, sysfs, sessionId, hs⟩ := h
  obtain ⟨c, hc, hconfig, rfl⟩ := setup_config env hs
  rw [resumes_iff, hconfig]
  exact ⟨c, hc, rfl, rfl⟩

-- The daemon that comes up, on whatever machine and seat, has the same profile to apply.
theorem Resumes.activeProfile {w w' : World} (h : Resumes w) {sysfs : Sysfs} {sessionId : Bytes}
    (hs : setup env w.config.path w.file sysfs sessionId = .ok w') : w'.activeProfile = w.activeProfile := by
  obtain ⟨c, hc, hprofiles, hactive⟩ := (resumes_iff w).mp h
  obtain ⟨c', hc', hconfig, -⟩ := setup_config env hs
  obtain rfl : c = c' := by simpa using hc.symm.trans hc'
  simp only [World.activeProfile, ConfigManager.activeProfile, Config.find, hconfig, hprofiles, hactive]

-- From any start, a daemon started again at any time would find what this one has
-- exactly when each set_profile got its name into the file and the others left the
-- meaning of the file alone.
theorem resumes_throughout_iff (w : World) (h : Started env w) (moves : List Move) :
    Run.Throughout (step env) (fun s => Resumes s.world) ⟨w, []⟩ moves ↔
      Run.Meets (step env) (KeepsFile env) ⟨w, []⟩ moves :=
  Run.throughout_iff_meets (step env) (step_resumes_iff env) moves (started_resumes env w h)

end Runs

-- A client selects the other profile.
def selectOther : List Move :=
  [accept 9, readable 9 (encodeCtl (bytes "set_profile") (bytes "b") ++ [10]), .call]

theorem resumes_selectOther :
    ∃ w, sampleStart = .ok w ∧ (run .plain w selectOther).world.config.active = bytes "b" ∧
      (Run.Throughout (step .plain) (fun s => Resumes s.world) ⟨w, []⟩ selectOther ↔
        Run.Meets (step .plain) (KeepsFile .plain) ⟨w, []⟩ selectOther) :=
  ⟨_, rfl, rfl, resumes_throughout_iff .plain _ (sample_started rfl) selectOther⟩

end Draind.Daemon
