import Draind.Daemon.Malformed
import Draind.Daemon.Untouched
import Mathlib.Data.List.DropRight

namespace Draind.Daemon

open Json Proto

-- The files of a policy read as the profile says. An empty word says nothing.
structure Obeys (p : Profile) (policy : CpuPolicy) : Prop where
  governor : p.cpuGovernor ≠ [] → readFile policy.scalingGovernor = readFile p.cpuGovernor
  epp : p.cpuEpp ≠ [] → readFile policy.energyPerformancePreference = readFile p.cpuEpp

def Governed (w : World) : Prop :=
  ∀ p, w.activeProfile = some p → ∀ policy ∈ w.sysfs.policies, Obeys p policy

-- A file did not take what was written to it.
def Io.isRefusal : Io → Bool
  | .policy _ _ ok => !ok
  | _ => false

def Refused (trace : List Io) : Prop :=
  trace.any Io.isRefusal = true

-- Nobody else writes these files.
def LeavesPolicies (s : State) : Move → Prop
  | .outside _ sysfs => sysfs.policies = s.world.sysfs.policies
  | _ => True

section Writing

variable (env : Env) (read other : CpuPolicy → Bytes) (store : CpuPolicy → Bytes → CpuPolicy)

theorem readFile_readFile (text : Bytes) : readFile (readFile text) = readFile text := by
  simp only [readFile, List.reverse_reverse, List.dropWhile_idempotent]

theorem Refused.mono {trace trace' : List Io} (h : Refused trace) (hg : trace <+: trace') : Refused trace' := by
  obtain ⟨e, hm, he⟩ := List.any_eq_true.mp h
  exact List.any_eq_true.mpr ⟨e, hg.subset hm, he⟩

-- The check that saves a write is one for the word itself.
theorem writePolicies_read (value : Bytes) (hstore : ∀ p, read (store p value) = value)
    (policies : List CpuPolicy) (w : World) :
    Refused (writePolicies env read store value policies w).2.trace ∨
      ∀ p ∈ (writePolicies env read store value policies w).1, readFile (read p) = readFile value := by
  induction policies generalizing w with
  | nil => exact .inr (by simp [writePolicies])
  | cons p rest ih =>
      unfold writePolicies
      by_cases hsame : readFile (read p) = value
      · rw [if_pos hsame]
        refine (ih w).imp id fun hrest => List.forall_mem_cons.mpr ⟨?_, hrest⟩
        rw [← hsame, readFile_readFile]
      rw [if_neg hsame]
      dsimp only
      cases hok : env.sysfsWritable w.trace (.policy p.dir) with
      | false =>
          have hg := (writePolicies_emits env read store value rest
            (w.emit (.policy p.dir value false))).spares.grows
          exact .inl (Refused.mono (List.any_eq_true.mpr ⟨.policy p.dir value false, by simp, rfl⟩) hg)
      | true =>
          refine (ih _).imp id fun hrest => List.forall_mem_cons.mpr ⟨?_, hrest⟩
          rw [if_pos rfl, hstore]

theorem writePolicies_other (value : Bytes) (hother : ∀ p, other (store p value) = other p)
    (policies : List CpuPolicy) (w : World) :
    (writePolicies env read store value policies w).1.map other = policies.map other := by
  induction policies generalizing w with
  | nil => rfl
  | cons p rest ih =>
      unfold writePolicies
      by_cases hsame : readFile (read p) = value
      · rw [if_pos hsame]
        simp [ih]
      · rw [if_neg hsame]
        simp only [List.map_cons, ih]
        split
        · rw [hother]
        · rfl

theorem setCpuFile_read (value : Bytes) (hstore : ∀ p, read (store p value) = value) (w : World)
    (hne : value ≠ []) :
    Refused (setCpuFile env read store value w).trace ∨
      ∀ p ∈ (setCpuFile env read store value w).sysfs.policies, readFile (read p) = readFile value := by
  unfold setCpuFile
  rw [if_neg hne]
  exact writePolicies_read env read store value hstore w.sysfs.policies w

theorem setCpuFile_other (value : Bytes) (hother : ∀ p, other (store p value) = other p) (w : World) :
    (setCpuFile env read store value w).sysfs.policies.map other = w.sysfs.policies.map other := by
  unfold setCpuFile
  split
  · rfl
  · exact writePolicies_other env read other store value hother w.sysfs.policies w

-- The second of the two loops leaves the work of the first alone.
theorem apply_obeys (p : Profile) (w : World) :
    Refused (apply env p w).world.trace ∨ ∀ policy ∈ (apply env p w).world.sysfs.policies, Obeys p policy := by
  have hgovernor := setCpuFile_read env CpuPolicy.scalingGovernor
    (fun p v => { p with scalingGovernor := v }) p.cpuGovernor (fun _ => rfl) (w.emit .apply)
  generalize hw₁ : setCpuGovernor env p.cpuGovernor (w.emit .apply) = w₁
  change setCpuFile env _ _ _ (w.emit .apply) = w₁ at hw₁
  have hepp := setCpuFile_read env CpuPolicy.energyPerformancePreference
    (fun p v => { p with energyPerformancePreference := v }) p.cpuEpp (fun _ => rfl) w₁
  have hkept := setCpuFile_other env CpuPolicy.energyPerformancePreference CpuPolicy.scalingGovernor
    (fun p v => { p with energyPerformancePreference := v }) p.cpuEpp (fun _ => rfl) w₁
  have hgrows := (setCpuFile_spares env CpuPolicy.energyPerformancePreference
    (fun p v => { p with energyPerformancePreference := v }) p.cpuEpp w₁).grows
  generalize hw₂ : setCpuEpp env p.cpuEpp w₁ = w₂
  change setCpuFile env _ _ _ w₁ = w₂ at hw₂
  rw [hw₁] at hgovernor
  rw [hw₂] at hepp hkept hgrows
  have hlast := setBrightnessPercent_spares env p.brightnessPercent w₂
  have happly : apply env p w = setBrightnessPercent env p.brightnessPercent w₂ := by
    rw [← hw₂, ← hw₁]
    rfl
  rw [happly, hlast.policies]
  by_cases hr : Refused (setBrightnessPercent env p.brightnessPercent w₂).world.trace
  · exact .inl hr
  refine .inr fun policy hm => ⟨fun hne => ?_, fun hne => ?_⟩
  · have hall := (hgovernor hne).resolve_left fun hf => hr ((hf.mono hgrows).mono hlast.grows)
    obtain ⟨policy₁, hm₁, he⟩ := List.mem_map.mp (hkept ▸ List.mem_map_of_mem (f := CpuPolicy.scalingGovernor) hm)
    rw [← he, hall policy₁ hm₁]
  · exact (hepp hne).resolve_left (fun hf => hr (hf.mono hlast.grows)) policy hm

end Writing

-- Unless a write has failed.
def InHand (w : World) : Prop :=
  Refused w.trace ∨ Governed w

section Runs

variable (env : Env)

theorem Spares.inHand {w w' : World} (h : Spares w w') (hi : InHand w) : InHand w' := by
  refine hi.imp (fun hr => hr.mono h.grows) fun hg => ?_
  intro p hp
  rw [h.policies]
  exact hg p (by rw [← hp, World.activeProfile, World.activeProfile, h.config])

theorem apply_inHand {p : Profile} {w : World} (hp : w.activeProfile = some p) :
    InHand (apply env p w).world := by
  have hconfig := (apply_spares env p w).config
  refine (apply_obeys env p w).imp id fun hall p' hp' => ?_
  rw [World.activeProfile, hconfig, ← World.activeProfile, hp] at hp'
  cases hp'
  exact hall

theorem onChange_inHand (w : World) : InHand (onChange env w).world := by
  cases hp : w.activeProfile with
  | none =>
      refine .inr fun p hp' => ?_
      rw [World.activeProfile, onChange_config, ← World.activeProfile, hp] at hp'
      cases hp'
  | some p =>
      have happlied := apply_inHand env hp
      unfold onChange
      rw [hp]
      dsimp only
      cases hr : apply env p w with
      | error t =>
          rw [hr] at happlied
          exact happlied
      | ok w' =>
          rw [hr] at happlied
          exact (broadcastConfig_emits env w').spares.inHand happlied

theorem onCtl_inHand (fd : Fd) (msg : Value) (w : World) (h : InHand w) : InHand (onCtl env fd msg w).world := by
  have hreply : ∀ entries w', InHand w' → InHand (reply env fd entries w') :=
    fun entries w' => (reply_emits env fd entries w').spares.inHand
  by_cases hset : msg.str (bytes "cmd") [] = bytes "set_profile"
  · obtain ⟨entries, he⟩ := onCtl_setProfile env fd msg w hset
    rw [he]
    rcases setActive_cases env (msg.str (bytes "profile") []) w with ⟨-, hs⟩ | ⟨config, -, hs⟩
    · rw [hs]
      exact hreply _ w h
    · have hchange := onChange_inHand env (persistActive env { w with config := config })
      rw [hs]
      cases hr : onChange env (persistActive env { w with config := config }) with
      | error t =>
          rw [hr] at hchange
          exact hchange
      | ok w' =>
          rw [hr] at hchange
          exact hreply _ w' hchange
  by_cases hreload : msg.str (bytes "cmd") [] = bytes "reload_config"
  · obtain ⟨entries, he⟩ := onCtl_reloadConfig env fd msg w hreload
    rw [he]
    refine hreply _ _ ?_
    unfold reloadConfig
    cases w.config.reload w.file with
    | error e => exact h
    | ok config => exact onChange_inHand env { w with config := config }
  by_cases hlock : msg.str (bytes "cmd") [] = bytes "lock"
  · rw [onCtl_lock env fd msg w hlock]
    exact hreply _ _ ((sendLockToActiveAgent_emits env w).spares.inHand h)
  · obtain ⟨entries, he⟩ := onCtl_other env fd msg w hset hlock hreload
    rw [he]
    exact hreply _ w h

theorem perform_inHand (c : Call) (w : World) (h : InHand w) : InHand (perform env c w).world := by
  cases c with
  | hangUp fd => exact ((onDisconnect_spares fd w).trans (closeClient_spares fd _)).inHand h
  | button e => exact (onEvent_emits env e w).spares.inHand ((Spares.emit w (.button e)).inHand h)
  | line fd line =>
      have hline : InHand (w.emit (.line fd line)) := (Spares.emit w _).inHand h
      simp only [perform, onLine]
      cases hd : decode line with
      | error e => exact (closeClient_spares fd _).inHand hline
      | ok msg =>
          dsimp only
          by_cases hc : msgType msg = T_CTL
          · rw [onMessage_ctl env hc]
            exact onCtl_inHand env fd msg _ hline
          · exact (onMessage_spares env fd msg _ hc).inHand hline

theorem step_inHand (s : State) (move : Move) (h : InHand s.world) (hl : LeavesPolicies s move) :
    InHand (step env s move).world := by
  have hstep := step_stepped env s move
  generalize step env s move = s' at hstep ⊢
  cases hstep with
  | idle => exact h
  | signal m => exact (handleSeatProperties_spares m s.world).inHand h
  | accept r fd => exact (acceptClient_spares fd s.world).inHand h
  | feed => exact Spares.inHand (.of_eq rfl rfl rfl rfl) h
  | input => exact h
  | call c rest => exact (Result.settle_spares (perform env c s.world)).inHand (perform_inHand env c s.world h)
  | outside file sysfs =>
      refine h.imp id fun hg p hp => ?_
      exact hl ▸ hg p hp

theorem started_inHand (w : World) (h : Started env w) : InHand w := by
  obtain ⟨path, file, sysfs, sessionId, h⟩ := h
  obtain ⟨w₀, -, -, ⟨hp, rfl⟩ | ⟨p, hp, happly⟩⟩ := setup_cases env h
  · refine .inr fun p hp' => ?_
    rw [hp] at hp'
    cases hp'
  · have hchange := apply_inHand env hp
    rwa [happly] at hchange

-- In every state that is reached, the governor and the preference of every policy are
-- those of the active profile, whatever was selected or reloaded before, unless a write
-- to one of the files has failed.
theorem policies_governed (w : World) (h : Started env w) (moves : List Move)
    (hl : Run.Meets (step env) LeavesPolicies ⟨w, []⟩ moves)
    (hr : ¬Refused (run env w moves).world.trace) : Governed (run env w moves).world :=
  (Run.invariant (step env) (fun s => InHand s.world) (fun s move => step_inHand env s move)
    (started_inHand env w h) hl).resolve_left hr

end Runs

def governors : Bytes :=
  bytes ("\x7b\"profiles\":[\x7b\"name\":\"a\",\"cpu_governor\":\"performance\"\x7d," ++
    "\x7b\"name\":\"b\",\"cpu_governor\":\"powersave\"\x7d]\x7d")

def twoPolicies : Sysfs :=
  ⟨none, [⟨bytes "policy0", bytes "schedutil\n", []⟩, ⟨bytes "policy1", bytes "powersave\n", []⟩], []⟩

-- Both policies go to performance at the start, and to powersave here.
def selectPowersave : List Move :=
  [accept 9, readable 9 (encodeCtl (bytes "set_profile") (bytes "b") ++ [10]), .call]

theorem policies_governed_powersave :
    ∃ w, setup .plain [] (some governors) twoPolicies (bytes "1") = .ok w ∧
      w.sysfs.policies.map CpuPolicy.scalingGovernor = [bytes "performance", bytes "performance"] ∧
      Governed (run .plain w selectPowersave).world := by
  refine ⟨_, rfl, rfl, ?_⟩
  apply policies_governed .plain _ ⟨[], some governors, twoPolicies, bytes "1", rfl⟩ selectPowersave
  · exact ⟨trivial, trivial, trivial, trivial⟩
  · exact Bool.false_ne_true

end Draind.Daemon
