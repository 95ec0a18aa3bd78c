import Draind.Daemon.ActiveProfile
import Draind.Daemon.Steps
import Draind.Json.Precision
import Draind.Json.Prefix

namespace Draind

open Json

-- The fields of a profile that are numbers.
def numberKeys : List Bytes :=
  [bytes "brightness_percent", bytes "dim_brightness_percent", bytes "dim_timeout", bytes "sleep_timeout"]

namespace Daemon

namespace ConfigManager

-- The root persist_active prints.
def renamed (root : Value) (name : Bytes) : Value :=
  root.set (bytes "active_profile") (.string name)

-- Every double can be read again, and the ones that stand for an int of a profile
-- give that int.
def Persists (root : Value) (name : Bytes) : Prop :=
  (∀ d ∈ doubles (renamed root name), ∃ v, reprintDouble d = .ok v) ∧
    ∀ pv ∈ (root.get (bytes "profiles")).getArray, ∀ key ∈ numberKeys, Kept pv key

-- Six significant digits make the same int of the number.
def SixDigits (pv : Value) (key : Bytes) : Prop :=
  ∀ d n, pv.get key = .double d → d.Holds n → roundSignificant 6 n % 2 ^ 32 = n % 2 ^ 32

section Rewriting

theorem get_renamed (root : Value) (name : Bytes) :
    (renamed root name).get (bytes "profiles") = root.get (bytes "profiles") := by
  rw [renamed, Value.get_set, if_neg (by decide)]

theorem str_renamed (root : Value) (name : Bytes) :
    (renamed root name).str (bytes "active_profile") [] = name :=
  Value.str_set root _ name []

-- One profile, printed and read again.
theorem loadProfile_reprint (pv pv' : Value) (hr : reprint pv = .ok pv') (p : Profile)
    (h : loadProfile pv = .ok p) :
    ∃ p', loadProfile pv' = .ok p' ∧ (p' = p ↔ ∀ key ∈ numberKeys, Kept pv key) := by
  have hstr := reprint_str pv pv' hr
  have hkept := kept_iff pv pv' hr
  simp only [loadProfile, hstr] at h ⊢
  split at h
  · cases h
  · rename_i hname
    cases h
    refine ⟨_, if_neg hname, ?_⟩
    simp [numberKeys, hkept]

-- All of them. mapM stops at none of the names.
theorem loadProfiles_reprint (pvs pvs' : List Value)
    (hr : List.Forall₂ (fun pv pv' => reprint pv = .ok pv') pvs pvs') (profiles : List Profile)
    (h : List.Forall₂ (fun pv p => loadProfile pv = .ok p) pvs profiles) :
    ∃ profiles', pvs'.mapM loadProfile = .ok profiles' ∧ profiles'.length = profiles.length ∧
      (profiles' = profiles ↔ ∀ pv ∈ pvs, ∀ key ∈ numberKeys, Kept pv key) := by
  induction hr generalizing profiles with
  | nil =>
      cases h
      exact ⟨[], rfl, rfl, by simp⟩
  | cons hfirst _ ih =>
      cases h with
      | cons hp hrest =>
          obtain ⟨p', hp', hsame⟩ := loadProfile_reprint _ _ hfirst _ hp
          obtain ⟨rest', hrest', hlen, hrests⟩ := ih _ hrest
          refine ⟨p' :: rest', ?_, congrArg (· + 1) hlen, ?_⟩
          · rw [List.mapM_cons, hp', hrest']
            rfl
          · rw [List.cons.injEq, hsame, hrests, List.forall_mem_cons]

-- What load_config makes of a text that reads as the renamed root, printed.
theorem loadConfig_reprint (path text new name : Bytes) (c : Config) (root : Value)
    (h : loadConfig path (some text) = .ok c) (hroot : parse text = .ok root)
    (hnew : parse new = reprint (renamed root name)) :
    ((∃ c', loadConfig path (some new) = .ok c' ∧ c'.profiles = c.profiles) ↔ Persists root name) ∧
      ∀ c', name ≠ [] → loadConfig path (some new) = .ok c' → c'.activeProfile = name := by
  obtain ⟨_, _, ⟨rfl⟩, hr, hps, first, rest, hc, -⟩ := loadConfig_ok path (some text) c h
  cases hroot.symm.trans hr
  unfold Persists
  rw [← reprint_ok_iff]
  cases hp : reprint (renamed root name) with
  | error e =>
      have hload : loadConfig path (some new) = .error e := by
        rw [loadConfig, hnew, hp]
        rfl
      rw [hload]
      simp
  | ok root' =>
      have hget := (reprint_get _ _ hp (bytes "profiles")).2
      rw [get_renamed] at hget
      obtain ⟨profiles', hmap, hlen, hsame⟩ := loadProfiles_reprint _ _ (reprint_getArray _ _ hget) _ hps
      have hstr := reprint_str _ _ hp (bytes "active_profile") []
      rw [str_renamed] at hstr
      obtain ⟨first', rest', rfl⟩ : ∃ first' rest', profiles' = first' :: rest' := by
        cases profiles' with
        | nil => simp [hc] at hlen
        | cons first' rest' => exact ⟨first', rest', rfl⟩
      have hload : loadConfig path (some new) =
          .ok ⟨if name = [] then first'.name else name, first' :: rest'⟩ := by
        rw [loadConfig, hnew, hp]
        show (root'.get (bytes "profiles")).getArray.mapM loadProfile >>= _ = _
        rw [hmap, hstr]
        rfl
      rw [hload]
      constructor
      · simp [← hsame]
      · intro c' hname hc'
        cases hc'
        exact if_neg hname

theorem renamed_object (root : Value) (name : Bytes) : ∃ members, renamed root name = .object members :=
  ⟨_, rfl⟩

-- persist_active as it looks from the file: nothing, or a beginning of the printed root.
theorem persistText_renamed (m : ConfigManager) (text : Bytes) (root : Value) (h : parse text = .ok root) :
    m.persistText (some text) = some (dumpPretty 2 (renamed root m.active)) := by
  simp only [persistText, h, renamed]

theorem ordered_renamed (root : Value) (name : Bytes) (h : Ordered root) : Ordered (renamed root name) :=
  ordered_set root _ _ h trivial

-- What load_config makes of a beginning of the printed root.
theorem loadConfig_take_iff (path text name : Bytes) (c : Config) (root : Value) (n : Nat)
    (h : loadConfig path (some text) = .ok c) (hroot : parse text = .ok root) :
    (∃ c', loadConfig path (some ((dumpPretty 2 (renamed root name)).take n)) = .ok c' ∧
        c'.profiles = c.profiles) ↔
      (dumpPretty 2 (renamed root name)).length - 1 ≤ n ∧ Persists root name := by
  have hordered := ordered_renamed root name (parse_ordered text root hroot)
  obtain ⟨hshort, hwhole⟩ := parse_dumpPretty 2 (renamed root name) hordered
  have hlen : (dumpPretty 2 (renamed root name)).length =
      (dumpPrettyAt 2 0 (renamed root name)).length + 1 := by simp [dumpPretty]
  rw [hlen, Nat.add_sub_cancel]
  by_cases hn : (dumpPrettyAt 2 0 (renamed root name)).length ≤ n
  · have hparse : parse ((dumpPretty 2 (renamed root name)).take n) = reprint (renamed root name) := by
      by_cases hall : (dumpPretty 2 (renamed root name)).length ≤ n
      · rw [List.take_of_length_le hall, hwhole]
      · obtain rfl : n = (dumpPrettyAt 2 0 (renamed root name)).length := by omega
        rw [dumpPretty, List.take_left, hshort]
    rw [(loadConfig_reprint path text _ name c root h hroot hparse).1]
    simp [hn]
  · obtain ⟨members, hmembers⟩ := renamed_object root name
    refine iff_of_false ?_ fun hc => hn hc.1
    rintro ⟨c', hc', -⟩
    obtain ⟨_, v, ⟨rfl⟩, hv, -⟩ := loadConfig_ok path _ c' hc'
    rw [hmembers] at hordered hn hv
    rw [dumpPretty, List.take_append_of_le_length (by omega)] at hv
    exact parse_take 2 members hordered n (by omega) v hv

end Rewriting

section Integers

theorem holds_unique {d : Double} {n n' : Nat} (h : d.Holds n) (h' : d.Holds n') : n = n' :=
  Nat.eq_of_mul_eq_mul_right (scaleDown_pos 2 (-d.exp) d.mant 1 (by decide) (by decide)) (h.symm.trans h')

theorem int32_signed_eq_iff (neg : Bool) (a b : Nat) :
    Int32.ofInt (if neg then -(a : Int) else a) = Int32.ofInt (if neg then -(b : Int) else b) ↔
      a % 2 ^ 32 = b % 2 ^ 32 := by
  rw [Int32.ofInt_eq_iff_bmod_eq_toInt, Int32.toInt_ofInt]
  simp only [Int32.size, Int.bmod_def]
  cases neg <;> simp <;> omega

-- A field that holds an integer is kept when its six leading digits are enough.
theorem kept_iff_sixDigits (pv : Value) (key : Bytes)
    (h : ∀ d, pv.get key = .double d → ∃ n, n < 2 ^ 53 ∧ d.Holds n) :
    Kept pv key ↔ SixDigits pv key := by
  have hdouble : ∀ d n, n < 2 ^ 53 → d.Holds n →
      ((∃ w, reprintDouble d = .ok w ∧ (w.getInt 0).toInt32 = d.toInt64.toInt32) ↔
        roundSignificant 6 n % 2 ^ 32 = n % 2 ^ 32) := by
    intro d n hn hholds
    obtain ⟨w, hw, hint⟩ := reprintDouble_integer hholds hn
    rw [← int32_signed_eq_iff d.neg, hholds.toInt64 (by omega), Int64.toInt32_ofInt]
    constructor
    · rintro ⟨w', hw', heq⟩
      cases hw.symm.trans hw'
      rwa [hint, Int64.toInt32_ofInt] at heq
    · intro heq
      exact ⟨w, hw, by rw [hint, Int64.toInt32_ofInt, heq]⟩
  constructor
  · intro hk d n hd hholds
    obtain ⟨n', hn', hholds'⟩ := h d hd
    obtain rfl := holds_unique hholds hholds'
    exact (hdouble d n hn' hholds).mp (hk d hd)
  · intro hs d hd
    obtain ⟨n, hn, hholds⟩ := h d hd
    exact (hdouble d n hn hholds).mpr (hs d n hd hholds)

-- With doubles that hold integers the six digits are the whole condition.
theorem persists_iff_sixDigits (root : Value) (name : Bytes)
    (h : ∀ d ∈ doubles root, ∃ n, n < 2 ^ 53 ∧ d.Holds n) :
    Persists root name ↔
      ∀ pv ∈ (root.get (bytes "profiles")).getArray, ∀ key ∈ numberKeys, SixDigits pv key := by
  have hread : ∀ d ∈ doubles (renamed root name), ∃ v, reprintDouble d = .ok v := by
    intro d hd
    rcases mem_doubles_set _ _ _ d hd with hd | hd
    · cases hd
    · obtain ⟨n, hn, hholds⟩ := h d hd
      obtain ⟨v, hv, -⟩ := reprintDouble_integer hholds hn
      exact ⟨v, hv⟩
  have hfield : ∀ pv ∈ (root.get (bytes "profiles")).getArray, ∀ key,
      Kept pv key ↔ SixDigits pv key := by
    intro pv hpv key
    refine kept_iff_sixDigits pv key fun d hd => h d ?_
    refine mem_doubles_get root _ d (mem_doubles_getArray _ pv hpv d (mem_doubles_get pv key d ?_))
    rw [hd]
    exact List.mem_singleton_self d
  constructor
  · intro hp pv hpv key hkey
    exact (hfield pv hpv key).mp (hp.2 pv hpv key hkey)
  · intro hs
    exact ⟨hread, fun pv hpv key hkey => (hfield pv hpv key).mpr (hs pv hpv key hkey)⟩

end Integers

section Names

-- load_config lets no profile in that has no name.
def Named (m : ConfigManager) : Prop :=
  ∀ p ∈ m.config.profiles, p.name ≠ []

theorem profiles_named (pvs : List Value) (profiles : List Profile)
    (h : List.Forall₂ (fun pv p => loadProfile pv = .ok p) pvs profiles) : ∀ p ∈ profiles, p.name ≠ [] := by
  induction h with
  | nil => simp
  | cons hp _ ih => exact List.forall_mem_cons.mpr ⟨(loadProfile_name _ _ hp).2, ih⟩

theorem reload_named (m m' : ConfigManager) (file : Option Bytes) (h : m.reload file = .ok m') :
    Named m' := by
  obtain ⟨c, hc, rfl⟩ := (reload_ok_iff m file m').mp h
  obtain ⟨_, _, -, -, hps, -⟩ := loadConfig_ok m.path file c hc
  exact profiles_named _ _ hps

theorem select_ok (m m' : ConfigManager) (name : Bytes) (h : m.select name = some m') :
    m' = { m with active := name } ∧ ∃ p ∈ m.config.profiles, p.name = name := by
  obtain ⟨⟨p, hp, hname⟩, -⟩ := select_some m m' name h
  unfold select at h
  split at h
  · cases h
  · cases h
    exact ⟨rfl, p, hp, hname⟩

theorem apply_named (m : ConfigManager) (op : Op) (h : Named m) : Named (m.apply op) := by
  cases op with
  | reload file =>
      simp only [apply]
      cases hr : m.reload file with
      | error e => exact h
      | ok m' => exact reload_named m m' file hr
  | setActive name =>
      simp only [apply]
      cases hs : m.select name with
      | none => exact h
      | some m' =>
          obtain ⟨rfl, -⟩ := select_ok m m' name hs
          exact h

end Names

-- set_active with the file at hand, from any state of the manager: the rewritten
-- text has the profiles of the old one and the new name exactly when rounding to
-- six digits changes no int of a profile.
theorem rewritten_iff (path : Bytes) (file : Option Bytes) (start : ConfigManager)
    (hstart : create path file = .ok start) (ops : List Op) (name : Bytes) (m : ConfigManager)
    (hm : (Run.exec apply start ops).select name = some m) (text : Bytes) (c : Config) (root : Value)
    (hload : loadConfig path (some text) = .ok c) (hroot : parse text = .ok root)
    (hintegers : ∀ d ∈ doubles root, ∃ n, n < 2 ^ 53 ∧ d.Holds n) :
    (∃ new, m.persistText (some text) = some new ∧
        loadConfig path (some new) = .ok { activeProfile := name, profiles := c.profiles }) ↔
      ∀ pv ∈ (root.get (bytes "profiles")).getArray, ∀ key ∈ numberKeys, SixDigits pv key := by
  have hnamed := Run.invariant_always apply Named apply_named ops (reload_named _ start file hstart)
  obtain ⟨rfl, p, hp, hname⟩ := select_ok _ m name hm
  have hne : name ≠ [] := hname ▸ hnamed p hp
  have hordered := ordered_renamed root name (parse_ordered text root hroot)
  obtain ⟨hprofiles, hactive⟩ := loadConfig_reprint path text (dumpPretty 2 (renamed root name)) name c root
    hload hroot (parse_dumpPretty 2 _ hordered).2
  rw [← persists_iff_sixDigits root name hintegers, ← hprofiles, persistText_renamed _ text root hroot]
  constructor
  · rintro ⟨new, ⟨rfl⟩, hnew⟩
    exact ⟨_, hnew, rfl⟩
  · rintro ⟨c', hc', hsame⟩
    refine ⟨_, rfl, ?_⟩
    rw [hc']
    obtain rfl := hactive c' hne hc'
    rw [← hsame]

def longTimeout : Bytes :=
  bytes "\x7b\"profiles\":[\x7b\"name\":\"a\",\"dim_timeout\":1234567.0\x7d]\x7d"

theorem longTimeout_integers (root : Value) (h : parse longTimeout = .ok root) :
    ∀ d ∈ doubles root, ∃ n, n < 2 ^ 53 ∧ d.Holds n := by
  cases h
  intro d hd
  obtain rfl : d = ⟨false, 5302424889720832, -32⟩ := List.mem_singleton.mp hd
  exact ⟨1234567, by decide, rfl⟩

theorem rewritten_iff_longTimeout :
    ∃ start m c root, create [] (some longTimeout) = .ok start ∧
      (Run.exec apply start []).select (bytes "a") = some m ∧
      loadConfig [] (some longTimeout) = .ok c ∧ parse longTimeout = .ok root ∧
      ((∃ new, m.persistText (some longTimeout) = some new ∧
          loadConfig [] (some new) = .ok { activeProfile := bytes "a", profiles := c.profiles }) ↔
        ∀ pv ∈ (root.get (bytes "profiles")).getArray, ∀ key ∈ numberKeys, SixDigits pv key) := by
  refine ⟨_, _, _, _, rfl, rfl, rfl, rfl, ?_⟩
  exact rewritten_iff [] (some longTimeout) _ rfl [] (bytes "a") _ rfl longTimeout _ _ rfl rfl
    (longTimeout_integers _ rfl)

-- The timeout of 1234567 seconds comes back as 1234570.
theorem rewritten_longTimeout :
    ∃ start m c root, create [] (some longTimeout) = .ok start ∧
      (Run.exec apply start []).select (bytes "a") = some m ∧
      loadConfig [] (some longTimeout) = .ok c ∧ parse longTimeout = .ok root ∧
      (∀ d ∈ doubles root, ∃ n, n < 2 ^ 53 ∧ d.Holds n) ∧
      ¬∃ new, m.persistText (some longTimeout) = some new ∧
        loadConfig [] (some new) = .ok { activeProfile := bytes "a", profiles := c.profiles } := by
  refine ⟨_, _, _, _, rfl, rfl, rfl, rfl, longTimeout_integers _ rfl, ?_⟩
  rintro ⟨_, ⟨rfl⟩, h⟩
  have hprofiles := congrArg (fun r => (r.toOption.map Config.profiles)) h
  revert hprofiles
  decide

end ConfigManager

open ConfigManager

-- set_active writes the file in place: its profiles are still there exactly when the
-- file was not opened, or the text got into it up to the final newline and every
-- number in it outlives the printing.
theorem persisted_iff (env : Env) (w : World) (path text name : Bytes) (c : Config) (root : Value)
    (config : ConfigManager) (hfile : w.file = some text) (hload : loadConfig path (some text) = .ok c)
    (hroot : parse text = .ok root) (hselect : w.config.select name = some config) :
    (∃ c', loadConfig path (persistActive env { w with config := config }).file = .ok c' ∧
        c'.profiles = c.profiles) ↔
      env.saved w.trace = none ∨
        ∃ n, env.saved w.trace = some n ∧ (dumpPretty 2 (renamed root name)).length - 1 ≤ n ∧
          Persists root name := by
  obtain ⟨rfl, -⟩ := select_ok _ config name hselect
  have htext : ({ w.config with active := name } : ConfigManager).persistText w.file =
      some (dumpPretty 2 (renamed root name)) := by
    rw [hfile, persistText_renamed _ text root hroot]
  unfold persistActive
  dsimp only
  rw [htext]
  dsimp only
  cases hsaved : env.saved w.trace with
  | none => simp [hfile, hload]
  | some n =>
      have htake := loadConfig_take_iff path text name c root n hload hroot
      constructor
      · intro h
        exact .inr ⟨n, rfl, htake.mp h⟩
      · rintro (h | ⟨_, ⟨rfl⟩, h⟩)
        · cases h
        · exact htake.mpr h

-- The disk is full: the file is opened and truncated, and nothing is written.
def Env.diskFull : Env :=
  { Env.plain with saved := fun _ => some 0 }

theorem persisted_iff_sample :
    ∃ w config c root, sampleStart = .ok w ∧ w.config.select (bytes "b") = some config ∧
      loadConfig [] (some sampleConfig) = .ok c ∧ parse sampleConfig = .ok root ∧
      ((∃ c', loadConfig [] (persistActive .plain { w with config := config }).file = .ok c' ∧
          c'.profiles = c.profiles) ↔
        Env.plain.saved w.trace = none ∨
          ∃ n, Env.plain.saved w.trace = some n ∧
            (dumpPretty 2 (renamed root (bytes "b"))).length - 1 ≤ n ∧ Persists root (bytes "b")) :=
  ⟨_, _, _, _, rfl, rfl, rfl, rfl, persisted_iff .plain _ [] sampleConfig _ _ _ _ rfl rfl rfl rfl⟩

theorem persisted_diskFull :
    ∃ w config c, sampleStart = .ok w ∧ w.config.select (bytes "b") = some config ∧
      loadConfig [] w.file = .ok c ∧
      ¬∃ c', loadConfig [] (persistActive .diskFull { w with config := config }).file = .ok c' ∧
        c'.profiles = c.profiles := by
  refine ⟨_, _, _, rfl, rfl, rfl, ?_⟩
  rintro ⟨c', h, -⟩
  cases h

end Daemon

end Draind
