import Draind.Daemon.ConfigManager
import Draind.Lib.Except
import Draind.Lib.Run

namespace Draind.Daemon.ConfigManager

open Json

-- m_active names a listed profile, and active_profile() finds it.
def ActiveExists (m : ConfigManager) : Prop :=
  (∃ p ∈ m.config.profiles, p.name = m.active) ∧ m.activeProfile ≠ none

-- The text gives no active profile, or one that it also lists.
def NamesListed (file : Option Bytes) : Prop :=
  ∀ text root, file = some text → parse text = .ok root →
    root.str (bytes "active_profile") [] = [] ∨
      ∃ pv ∈ (root.get (bytes "profiles")).getArray,
        pv.str (bytes "name") [] = root.str (bytes "active_profile") []

inductive Op where
  | reload (file : Option Bytes)
  | setActive (name : Bytes)

-- A reload that throws and a name that is not found change nothing.
def apply (m : ConfigManager) : Op → ConfigManager
  | .reload file => (m.reload file).toOption.getD m
  | .setActive name => (m.select name).getD m

-- A file is loaded only if it lists its active profile. A file load_config
-- rejects is free of the condition.
def LoadsListed (m : ConfigManager) : Op → Prop
  | .reload file => (∃ c, loadConfig m.path file = .ok c) → NamesListed file
  | .setActive _ => True

theorem activeExists_iff (m : ConfigManager) :
    ActiveExists m ↔ ∃ p ∈ m.config.profiles, p.name = m.active := by
  constructor
  · exact And.left
  · rintro ⟨p, hp, hn⟩
    refine ⟨⟨p, hp, hn⟩, fun h => ?_⟩
    simpa [hn] using List.find?_eq_none.mp h p hp

theorem loadProfile_name (pv : Value) (p : Profile) (h : loadProfile pv = .ok p) :
    p.name = pv.str (bytes "name") [] ∧ p.name ≠ [] := by
  simp only [loadProfile] at h
  split at h
  · cases h
  · rename_i hn
    cases h
    exact ⟨rfl, hn⟩

-- The profiles an accepted text yields carry the names written in it.
theorem profiles_name_iff (pvs : List Value) (profiles : List Profile)
    (h : List.Forall₂ (fun pv p => loadProfile pv = .ok p) pvs profiles) (name : Bytes) :
    (∃ p ∈ profiles, p.name = name) ↔ ∃ pv ∈ pvs, pv.str (bytes "name") [] = name := by
  induction h with
  | nil => simp
  | cons hp _ ih => simp [ih, (loadProfile_name _ _ hp).1]

theorem loadConfig_ok (path : Bytes) (file : Option Bytes) (c : Config)
    (h : loadConfig path file = .ok c) :
    ∃ text root, file = some text ∧ parse text = .ok root ∧
      List.Forall₂ (fun pv p => loadProfile pv = .ok p)
        (root.get (bytes "profiles")).getArray c.profiles ∧
      ∃ first rest, c.profiles = first :: rest ∧
        c.activeProfile = if root.str (bytes "active_profile") [] = [] then first.name
          else root.str (bytes "active_profile") [] := by
  unfold loadConfig at h
  cases file with
  | none => cases h
  | some text =>
      obtain ⟨root, hr, h⟩ := (bind_ok_iff _ _ _).mp h
      obtain ⟨profiles, hp, h⟩ := (bind_ok_iff _ _ _).mp h
      cases profiles with
      | nil => cases h
      | cons first rest =>
          cases h
          exact ⟨text, root, rfl, hr, mapM_ok _ _ _ hp, first, rest, rfl, rfl⟩

-- A configuration that load_config accepts though it lists no profile "b".
def unlisted : Option Bytes :=
  some (bytes "\x7b\"active_profile\":\"b\",\"profiles\":[\x7b\"name\":\"a\"\x7d]\x7d")

-- Of what load_config accepts, exactly the files that list their active profile
-- give a configuration whose active profile exists.
theorem loadConfig_active_iff (path : Bytes) (file : Option Bytes) (c : Config)
    (h : loadConfig path file = .ok c) :
    (∃ p ∈ c.profiles, p.name = c.activeProfile) ↔ NamesListed file := by
  obtain ⟨text, root, rfl, hr, hps, first, rest, hc, ha⟩ := loadConfig_ok path file c h
  have hlisted := profiles_name_iff _ _ hps
  have hnamed : NamesListed (some text) ↔ root.str (bytes "active_profile") [] = [] ∨
      ∃ pv ∈ (root.get (bytes "profiles")).getArray,
        pv.str (bytes "name") [] = root.str (bytes "active_profile") [] := by
    constructor
    · intro h
      exact h text root rfl hr
    · rintro h _ _ ⟨rfl⟩ hr'
      cases hr.symm.trans hr'
      exact h
  rw [hnamed, ha]
  by_cases he : root.str (bytes "active_profile") [] = []
  · simp only [he, ite_true, true_or, iff_true]
    exact ⟨first, by simp [hc], rfl⟩
  · simp only [he, ite_false, false_or]
    exact hlisted _

theorem reload_ok_iff (m : ConfigManager) (file : Option Bytes) (m' : ConfigManager) :
    m.reload file = .ok m' ↔
      ∃ c, loadConfig m.path file = .ok c ∧ m' = { m with config := c, active := c.activeProfile } := by
  unfold reload
  rw [bind_ok_iff]
  simp [eq_comm]

theorem reload_activeExists_iff (m m' : ConfigManager) (file : Option Bytes)
    (h : m.reload file = .ok m') : ActiveExists m' ↔ NamesListed file := by
  obtain ⟨c, hc, rfl⟩ := (reload_ok_iff m file m').mp h
  rw [activeExists_iff, ← loadConfig_active_iff m.path file c hc]

theorem select_some (m m' : ConfigManager) (name : Bytes) (h : m.select name = some m') :
    ActiveExists m' := by
  unfold select at h
  split at h
  · cases h
  · rename_i hf
    cases h
    obtain ⟨p, hp⟩ := Option.ne_none_iff_exists'.mp (mt Option.isNone_iff_eq_none.mpr hf)
    have hname : p.name = name := by simpa using List.find?_some hp
    exact (activeExists_iff _).mpr ⟨p, List.mem_of_find?_eq_some hp, hname⟩

theorem select_activeProfile (m m' : ConfigManager) (name : Bytes) (h : m.select name = some m') :
    m'.activeProfile ≠ none := by
  unfold select at h
  split at h
  · cases h
  · rename_i hf
    cases h
    exact mt Option.isNone_iff_eq_none.mpr hf

-- One operation, from a state in which the active profile exists.
theorem apply_activeExists_iff (m : ConfigManager) (op : Op) (hm : ActiveExists m) :
    ActiveExists (m.apply op) ↔ LoadsListed m op := by
  cases op with
  | setActive name =>
      simp only [apply, LoadsListed, iff_true]
      cases h : m.select name with
      | none => exact hm
      | some m' => exact select_some m m' name h
  | reload file =>
      simp only [apply, LoadsListed]
      cases h : m.reload file with
      | error e =>
          have hno : ¬∃ c, loadConfig m.path file = .ok c := by
            rintro ⟨c, hc⟩
            have hok := (reload_ok_iff m file _).mpr ⟨c, hc, rfl⟩
            rw [h] at hok
            cases hok
          exact iff_of_true hm fun hc => absurd hc hno
      | ok m' =>
          obtain ⟨c, hc, -⟩ := (reload_ok_iff m file m').mp h
          have hex : ∃ c, loadConfig m.path file = .ok c := ⟨c, hc⟩
          simp only [Except.toOption, Option.getD_some, hex, true_implies]
          exact reload_activeExists_iff m m' file h

-- The active profile exists in every state exactly when the file the manager is
-- constructed from and every file it reloads list the active profile they name.
theorem activeExists_throughout_iff (path : Bytes) (file : Option Bytes) (m : ConfigManager)
    (hm : create path file = .ok m) (ops : List Op) :
    Run.Throughout apply ActiveExists m ops ↔ NamesListed file ∧ Run.Meets apply LoadsListed m ops := by
  have hstart := reload_activeExists_iff _ m file hm
  constructor
  · intro h
    have hfirst : ActiveExists m := by
      cases ops with
      | nil => exact h
      | cons _ _ => exact h.1
    exact ⟨hstart.mp hfirst, (Run.throughout_iff_meets apply apply_activeExists_iff ops hfirst).mp h⟩
  · rintro ⟨hf, hops⟩
    exact (Run.throughout_iff_meets apply apply_activeExists_iff ops (hstart.mpr hf)).mpr hops

def listed : Option Bytes :=
  some (bytes "\x7b\"profiles\":[\x7b\"name\":\"a\"\x7d]\x7d")

theorem activeExists_listed :
    ∃ m, create [] listed = .ok m ∧
      (Run.Throughout apply ActiveExists m [.reload unlisted] ↔
        NamesListed listed ∧ Run.Meets apply LoadsListed m [.reload unlisted]) :=
  ⟨_, rfl, activeExists_throughout_iff [] listed _ rfl _⟩

theorem activeExists_unlisted : ∃ m, create [] unlisted = .ok m ∧ ¬ActiveExists m :=
  ⟨_, rfl, fun h => absurd ((activeExists_iff _).mp h) (by decide)⟩

end Draind.Daemon.ConfigManager
