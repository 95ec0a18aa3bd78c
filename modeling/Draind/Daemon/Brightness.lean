import Draind.Daemon.Backlight
import Draind.Lib.Run
import Draind.Lib.Scaling

namespace Draind.Daemon

open Json

-- dim and undim with the same profile, several times.
def cycles (env : Env) (p : Profile) : Nat → World → Result
  | 0, w => .ok w
  | n + 1, w => do
      let w ← dim env p w
      let w ← undim env p w
      cycles env p n w

-- The calls of PowerManager, and the others that set the brightness.
inductive PowerCall where
  | apply (p : Profile)
  | dim (p : Profile)
  | undim (p : Profile)
  | outside (cur : Int32)

namespace PowerCall

def run (env : Env) (w : World) : PowerCall → Result
  | .apply p => Daemon.apply env p w
  | .dim p => Daemon.dim env p w
  | .undim p => Daemon.undim env p w
  | .outside cur => .ok { w with sysfs := w.sysfs.setBrightness cur }

def step (env : Env) (w : World) (c : PowerCall) : World :=
  (c.run env w).world

-- What is passed to set_brightness_percent.
def percent (w : World) : PowerCall → Option Int32
  | .apply p => some p.brightnessPercent
  | .dim p => some p.dimBrightnessPercent
  | .undim p => some (if 0 ≤ w.userBrightness then w.userBrightness else p.brightnessPercent)
  | .outside _ => none

-- The profiles are the config's, and the kernel keeps to its range.
def Uses (config : Config) (maxVal : Int32) : PowerCall → Prop
  | .apply p | .dim p | .undim p => p ∈ config.profiles
  | .outside cur => 0 ≤ cur ∧ cur ≤ maxVal

end PowerCall

-- The product max_val * pct is an int, and what is written is a brightness.
structure ValidCall (env : Env) (maxVal : Int32) (w : World) (c : PowerCall) : Prop where
  product : ∀ pct, c.percent w = some pct →
    -2147483648 ≤ maxVal.toInt * pct.toInt ∧ maxVal.toInt * pct.toInt ≤ 2147483647
  written : ∀ out, (c.step env w).trace = w.trace ++ out → ∀ target ok, .brightness target ok ∈ out →
    0 ≤ target ∧ target ≤ maxVal

-- Negative percentages may be those that round to nothing.
structure Fits (maxVal pct : Int32) : Prop where
  lower : -100 < maxVal.toInt * pct.toInt
  upper : maxVal.toInt * pct.toInt < 100 * (maxVal.toInt + 1)
  small : maxVal.toInt * pct.toInt ≤ 2147483647

section Arithmetic

open Scaling

theorem Level.pos {s : Sysfs} {maxVal cur : Int32} (h : Level s maxVal cur) : 0 < maxVal.toInt := by
  obtain ⟨b, -, -, -, hpos, -, -⟩ := h
  exact Int32.lt_iff_toInt_lt.mp hpos

theorem brightnessTarget_tdiv {maxVal pct : Int32} (hlo : -2147483648 ≤ maxVal.toInt * pct.toInt)
    (hhi : maxVal.toInt * pct.toInt ≤ 2147483647) :
    (brightnessTarget maxVal pct).toInt = (maxVal.toInt * pct.toInt).tdiv 100 := by
  have hproduct : (maxVal * pct).toInt = maxVal.toInt * pct.toInt := by
    rw [Int32.toInt_mul]
    exact Int.bmod_eq_of_le (by omega) (by omega)
  rw [brightnessTarget, Int32.toInt_div_of_ne_right _ _ (by decide), hproduct]
  rfl

theorem brightnessTarget_level {maxVal pct : Int32} (h0 : 0 ≤ maxVal.toInt * pct.toInt)
    (hhi : maxVal.toInt * pct.toInt ≤ 2147483647) :
    (brightnessTarget maxVal pct).toInt = level 100 maxVal.toInt pct.toInt := by
  rw [brightnessTarget_tdiv (by omega) hhi, Int.tdiv_eq_ediv_of_nonneg h0]
  rfl

theorem percent_share {maxVal cur : Int32} (h0 : 0 ≤ cur.toInt) (hpos : 0 < maxVal.toInt)
    (hhi : cur.toInt * 100 ≤ 2147483647) :
    (cur * 100 / maxVal).toInt = share 100 maxVal.toInt cur.toInt := by
  have hproduct : (cur * 100).toInt = cur.toInt * 100 := by
    rw [Int32.toInt_mul, show (100 : Int32).toInt = 100 from rfl]
    exact Int.bmod_eq_of_le (by omega) (by omega)
  have hne : maxVal ≠ -1 := by
    rintro rfl
    exact absurd hpos (by decide)
  rw [Int32.toInt_div_of_ne_right _ _ hne, hproduct, Int.tdiv_eq_ediv_of_nonneg (by omega)]
  rfl

theorem fits_iff {maxVal pct : Int32} (hpos : 0 < maxVal.toInt) :
    Fits maxVal pct ↔
      (-2147483648 ≤ maxVal.toInt * pct.toInt ∧ maxVal.toInt * pct.toInt ≤ 2147483647) ∧
        0 ≤ (brightnessTarget maxVal pct).toInt ∧
          (brightnessTarget maxVal pct).toInt ≤ maxVal.toInt := by
  constructor
  · rintro ⟨hlo, hup, hhi⟩
    rw [brightnessTarget_tdiv (by omega) hhi]
    rcases Int.le_total 0 (maxVal.toInt * pct.toInt) with h0 | h0
    · rw [Int.tdiv_eq_ediv_of_nonneg h0]
      omega
    · rw [← Int.neg_neg (maxVal.toInt * pct.toInt), Int.neg_tdiv, Int.tdiv_eq_ediv_of_nonneg (by omega)]
      omega
  · rintro ⟨⟨hlo, hhi⟩, h0, hup⟩
    rw [brightnessTarget_tdiv hlo hhi] at h0 hup
    rcases Int.le_total 0 (maxVal.toInt * pct.toInt) with h | h
    · rw [Int.tdiv_eq_ediv_of_nonneg h] at hup
      exact ⟨by omega, by omega, hhi⟩
    · rw [← Int.neg_neg (maxVal.toInt * pct.toInt), Int.neg_tdiv,
        Int.tdiv_eq_ediv_of_nonneg (by omega)] at h0
      exact ⟨by omega, by omega, hhi⟩

-- A percentage that was read leads to no higher level than it was read from, also
-- where the product with 100 has wrapped.
theorem fits_read {maxVal cur : Int32} (hpos : 0 < maxVal.toInt) (h0 : 0 ≤ cur.toInt)
    (hcur : cur.toInt ≤ maxVal.toInt) (hread : 0 ≤ (cur * 100 / maxVal).toInt) :
    Fits maxVal (cur * 100 / maxVal) := by
  have hhi := (cur * 100).toInt_lt
  have hwrap : (cur * 100).toInt ≤ cur.toInt * 100 := by
    rw [Int32.toInt_mul, show (100 : Int32).toInt = 100 from rfl, Int.bmod_def]
    split <;> omega
  have hne : maxVal ≠ -1 := by
    rintro rfl
    exact absurd hpos (by decide)
  rw [Int32.toInt_div_of_ne_right _ _ hne] at hread
  have hback : maxVal.toInt * (cur * 100 / maxVal).toInt ≤ max (cur * 100).toInt 0 := by
    rw [Int32.toInt_div_of_ne_right _ _ hne]
    rcases Int.le_total 0 (cur * 100).toInt with h | h
    · rw [Int.tdiv_eq_ediv_of_nonneg h]
      exact (Int.mul_ediv_self_le hpos.ne').trans (le_max_left _ _)
    · have hzero : (cur * 100).toInt.tdiv maxVal.toInt = 0 := by
        refine le_antisymm ?_ hread
        rw [← Int.neg_neg (cur * 100).toInt, Int.neg_tdiv]
        exact Int.neg_nonpos_of_nonneg (Int.tdiv_nonneg (by omega) hpos.le)
      rw [hzero, Int.mul_zero]
      exact le_max_right _ _
  have hlo : 0 ≤ maxVal.toInt * (cur * 100 / maxVal).toInt := by
    rw [Int32.toInt_div_of_ne_right _ _ hne]
    exact Int.mul_nonneg hpos.le hread
  exact ⟨by omega, by omega, by omega⟩

end Arithmetic

section Cycles

open Scaling

variable (env : Env)

-- One cycle settles the level.
theorem cycle_level (hw : ∀ trace, env.sysfsWritable trace .brightness = true) {w : World}
    {maxVal cur : Int32} (hl : Level w.sysfs maxVal cur) (h0 : 0 ≤ cur.toInt)
    (hcur : cur.toInt ≤ maxVal.toInt) (hmax : maxVal.toInt * 100 ≤ 2147483647) (p : Profile) :
    ∃ w₁ w₂ cur', dim env p w = .ok w₁ ∧ undim env p w₁ = .ok w₂ ∧ Level w₂.sysfs maxVal cur' ∧
      cur'.toInt = settle 100 maxVal.toInt cur.toInt := by
  have hpos := hl.pos
  have hpct := percent_share h0 hpos (by omega)
  have hread : 0 ≤ (cur * 100 / maxVal).toInt := by
    rw [hpct]
    exact share_nonneg (by decide) hpos h0
  have hparts : (cur * 100 / maxVal).toInt ≤ 100 := by
    rw [hpct]
    exact share_le_scale (by decide) hpos hcur
  have hnonneg : ¬cur * 100 / maxVal < 0 := Int32.not_lt.mpr (Int32.le_iff_toInt_le.mpr hread)
  have hcached : remembered maxVal cur p = cur * 100 / maxVal := if_neg hnonneg
  have hlo := Int.mul_nonneg hpos.le hread
  have hhi := (mul_le_mul_of_nonneg_left hparts hpos.le).trans hmax
  obtain ⟨w₁, hdim, ⟨low, hl₁⟩, huser⟩ : ∃ w₁, dim env p w = .ok w₁ ∧
      (∃ low, Level w₁.sysfs maxVal low) ∧ w₁.userBrightness = remembered maxVal cur p :=
    ⟨_, dim_level env hw hl p, ⟨_, hl.setBrightness _⟩, rfl⟩
  have hundim := undim_level env hw hl₁ p huser
  rw [hcached] at hundim
  refine ⟨w₁, _, _, hdim, hundim, hl₁.setBrightness _, ?_⟩
  rw [brightnessTarget_level hlo hhi, hpct]
  rfl

theorem cycles_level (hw : ∀ trace, env.sysfsWritable trace .brightness = true) (p : Profile) (n : Nat)
    {w : World} {maxVal cur : Int32} (hl : Level w.sysfs maxVal cur) (h0 : 0 ≤ cur.toInt)
    (hcur : cur.toInt ≤ maxVal.toInt) (hmax : maxVal.toInt * 100 ≤ 2147483647) :
    ∃ w' cur', cycles env p n w = .ok w' ∧ Level w'.sysfs maxVal cur' ∧
      cur'.toInt = (settle 100 maxVal.toInt)^[n] cur.toInt := by
  induction n generalizing w cur with
  | zero => exact ⟨w, cur, rfl, hl, rfl⟩
  | succ n ih =>
      have hpos := hl.pos
      obtain ⟨w₁, w₂, low, hdim, hundim, hl₂, hlow⟩ := cycle_level env hw hl h0 hcur hmax p
      have hlow0 : 0 ≤ low.toInt := by
        rw [hlow]
        exact level_nonneg (by decide) hpos (share_nonneg (by decide) hpos h0)
      have hlowle : low.toInt ≤ cur.toInt := by
        rw [hlow]
        exact settle_le (by decide) hpos _
      obtain ⟨w', cur', hrun, hl', hcur'⟩ := ih hl₂ hlow0 (hlowle.trans hcur)
      refine ⟨w', cur', ?_, hl', ?_⟩
      · simp only [cycles, hdim, hundim, bind, Except.bind]
        exact hrun
      · rw [hcur', hlow]
        rfl

-- The level comes back exactly when it is a whole number of percents.
theorem cycles_restore_iff (hw : ∀ trace, env.sysfsWritable trace .brightness = true) (p : Profile)
    (n : Nat) (w : World) (maxVal cur : Int32) (hl : Level w.sysfs maxVal cur) (h0 : 0 ≤ cur.toInt)
    (hcur : cur.toInt ≤ maxVal.toInt) (hmax : maxVal.toInt * 100 ≤ 2147483647) :
    (∃ w', cycles env p n w = .ok w' ∧ Level w'.sysfs maxVal cur) ↔
      n = 0 ∨ maxVal.toInt ∣ 100 * cur.toInt := by
  have hpos := hl.pos
  obtain ⟨w', cur', hrun, hl', hcur'⟩ := cycles_level env hw p n hl h0 hcur hmax
  rw [← iterate_settle_eq_iff (by decide) hpos, ← hcur', Int32.toInt_inj]
  constructor
  · rintro ⟨w'', hrun', hl''⟩
    cases hrun.symm.trans hrun'
    exact (hl'.unique hl'').2
  · intro he
    exact ⟨w', hrun, he ▸ hl'⟩

end Cycles

section Calls

open Scaling

variable (env : Env)

theorem setBrightnessPercent_tries {w : World} {maxVal cur : Int32} (hl : Level w.sysfs maxVal cur)
    (pct : Int32) :
    ∃ s cur', setBrightnessPercent env pct w = .ok ({ w with sysfs := s }.emit
        (.brightness (brightnessTarget maxVal pct) (env.sysfsWritable w.trace .brightness))) ∧
      Level s maxVal cur' ∧
      cur' = if env.sysfsWritable w.trace .brightness then brightnessTarget maxVal pct else cur := by
  obtain ⟨b, hb, hne, hmax, -⟩ := id hl
  cases ho : env.sysfsWritable w.trace .brightness with
  | true =>
      refine ⟨w.sysfs.setBrightness (brightnessTarget maxVal pct), _, ?_, hl.setBrightness _, rfl⟩
      simp [setBrightnessPercent, hb, hne, hmax, ho]
  | false =>
      refine ⟨w.sysfs, cur, ?_, hl, by simp⟩
      simp [setBrightnessPercent, hb, hne, hmax, ho]

theorem dim_tries {w : World} {maxVal cur : Int32} (hl : Level w.sysfs maxVal cur) (p : Profile) :
    ∃ s cur', dim env p w = .ok { w with
        userBrightness := if cur * 100 / maxVal < 0 then p.brightnessPercent else cur * 100 / maxVal
        sysfs := s
        trace := w.trace ++ [.dim, .brightness (brightnessTarget maxVal p.dimBrightnessPercent)
          (env.sysfsWritable (w.trace ++ [.dim]) .brightness)] } ∧
      Level s maxVal cur' ∧
      cur' = if env.sysfsWritable (w.trace ++ [.dim]) .brightness then
        brightnessTarget maxVal p.dimBrightnessPercent else cur := by
  have hl' : Level (w.emit .dim).sysfs maxVal cur := hl
  obtain ⟨s, cur', hset, hs, hcur'⟩ := setBrightnessPercent_tries env
    (w := { w.emit .dim with
      userBrightness := if cur * 100 / maxVal < 0 then p.brightnessPercent else cur * 100 / maxVal })
    hl' p.dimBrightnessPercent
  refine ⟨s, cur', ?_, hs, hcur'⟩
  unfold dim
  dsimp only
  rw [getBrightnessPercent_level hl']
  dsimp only
  rw [hset]
  simp [World.emit]

theorem undim_tries {w : World} {maxVal cur : Int32} (hl : Level w.sysfs maxVal cur) (p : Profile) :
    let restore := if 0 ≤ w.userBrightness then w.userBrightness else p.brightnessPercent
    ∃ s cur', undim env p w = .ok { w with
        userBrightness := -1
        sysfs := s
        trace := w.trace ++ [.undim, .brightness (brightnessTarget maxVal restore)
          (env.sysfsWritable (w.trace ++ [.undim]) .brightness)] } ∧
      Level s maxVal cur' ∧
      cur' = if env.sysfsWritable (w.trace ++ [.undim]) .brightness then
        brightnessTarget maxVal restore else cur := by
  intro restore
  obtain ⟨s, cur', hset, hs, hcur'⟩ := setBrightnessPercent_tries env (w := w.emit .undim) hl restore
  refine ⟨s, cur', ?_, hs, hcur'⟩
  change (do
    let w ← setBrightnessPercent env restore (w.emit .undim)
    .ok { w with userBrightness := -1 }) = _
  rw [hset]
  simp [World.emit, bind, Except.bind]

-- Dimming does not brighten exactly when nothing is written or the level is not
-- below the profile's.
theorem dim_notBrighter_iff (w : World) (maxVal cur : Int32) (hl : Level w.sysfs maxVal cur)
    (hmax : maxVal.toInt * 100 ≤ 2147483647) (p : Profile) (h0 : 0 ≤ p.dimBrightnessPercent.toInt)
    (h100 : p.dimBrightnessPercent.toInt ≤ 100) :
    (∃ w' cur', dim env p w = .ok w' ∧ Level w'.sysfs maxVal cur' ∧ cur' ≤ cur) ↔
      env.sysfsWritable (w.trace ++ [.dim]) .brightness = false ∨
        maxVal.toInt * p.dimBrightnessPercent.toInt < 100 * (cur.toInt + 1) := by
  have hpos := hl.pos
  obtain ⟨s, cur', hdim, hs, hcur'⟩ := dim_tries env hl p
  have htarget := brightnessTarget_level (Int.mul_nonneg hpos.le h0)
    ((mul_le_mul_of_nonneg_left h100 hpos.le).trans hmax)
  have hle : cur' ≤ cur ↔ env.sysfsWritable (w.trace ++ [.dim]) .brightness = false ∨
      maxVal.toInt * p.dimBrightnessPercent.toInt < 100 * (cur.toInt + 1) := by
    rw [hcur', ← level_le_iff (by decide), ← htarget, ← Int32.le_iff_toInt_le]
    split <;> simp_all
  rw [← hle]
  constructor
  · rintro ⟨w', cur'', hdim', hl', hbelow⟩
    cases hdim.symm.trans hdim'
    rwa [(hs.unique hl').2]
  · intro hbelow
    exact ⟨_, cur', hdim, hs, hbelow⟩

def Io.target : Io → Option Int32
  | .brightness target _ => some target
  | _ => none

theorem targets_steady {out : List Io} (h : ∀ e ∈ out, e.IsSteady) : out.filterMap Io.target = [] := by
  rw [List.filterMap_eq_nil_iff]
  intro e he
  cases e with
  | brightness target ok => exact absurd (h _ he) id
  | _ => rfl

-- Whatever is called, what is written is the target of the percentage.
theorem run_spec {w : World} {maxVal cur : Int32} (hl : Level w.sysfs maxVal cur) (c : PowerCall) :
    ∃ w' out cur', c.run env w = .ok w' ∧ w'.trace = w.trace ++ out ∧
      out.filterMap Io.target = (c.percent w).toList.map (brightnessTarget maxVal) ∧
      Level w'.sysfs maxVal cur' ∧
      (cur' = cur ∨ (∃ pct, c.percent w = some pct ∧ cur' = brightnessTarget maxVal pct) ∨
        c = .outside cur') ∧
      (w'.userBrightness = w.userBrightness ∨ w'.userBrightness = -1 ∨
        ∃ p, c = .dim p ∧ w'.userBrightness =
          if cur * 100 / maxVal < 0 then p.brightnessPercent else cur * 100 / maxVal) := by
  have hkept : ∀ (ok : Bool) (cur' target : Int32), cur' = (if ok then target else cur) →
      cur' = target ∨ cur' = cur := by
    rintro (_ | _) cur' target rfl <;> simp
  cases c with
  | apply p =>
      have hs := applyFiles_steady env p w
      obtain ⟨b, hb, hrest⟩ := hl
      simp only [PowerCall.run, apply]
      generalize setCpuEpp env p.cpuEpp (setCpuGovernor env p.cpuGovernor (w.emit .apply)) = w₁ at hs ⊢
      obtain ⟨out, ho, hk⟩ := hs.grows
      obtain ⟨s, cur', hset, hl', hcur'⟩ := setBrightnessPercent_tries env
        (w := w₁) ⟨b, hs.backlight.trans hb, hrest⟩ p.brightnessPercent
      refine ⟨_, .apply :: out ++ [.brightness (brightnessTarget maxVal p.brightnessPercent)
        (env.sysfsWritable w₁.trace .brightness)], cur', hset, ?_, ?_, hl', ?_, .inl hs.power⟩
      · simp [ho]
      · simp [List.filterMap_cons, Io.target, targets_steady hk, PowerCall.percent]
      · rcases hkept _ _ _ hcur' with h | h
        · exact .inr (.inl ⟨_, rfl, h⟩)
        · exact .inl h
  | dim p =>
      obtain ⟨s, cur', hdim, hl', hcur'⟩ := dim_tries env hl p
      refine ⟨_, _, cur', hdim, rfl, by simp [List.filterMap_cons, Io.target, PowerCall.percent],
        hl', ?_,
        .inr (.inr ⟨p, rfl, rfl⟩)⟩
      rcases hkept _ _ _ hcur' with h | h
      · exact .inr (.inl ⟨_, rfl, h⟩)
      · exact .inl h
  | undim p =>
      obtain ⟨s, cur', hundim, hl', hcur'⟩ := undim_tries env hl p
      refine ⟨_, _, cur', hundim, rfl, by simp [List.filterMap_cons, Io.target, PowerCall.percent],
        hl', ?_, .inr (.inl rfl)⟩
      rcases hkept _ _ _ hcur' with h | h
      · exact .inr (.inl ⟨_, rfl, h⟩)
      · exact .inl h
  | outside target =>
      exact ⟨_, [], target, rfl, by simp, rfl, hl.setBrightness target, .inr (.inr rfl), .inl rfl⟩

-- The level is a brightness, and what is remembered of it fits.
structure Sound (maxVal : Int32) (w : World) : Prop where
  level : ∃ cur, Level w.sysfs maxVal cur ∧ 0 ≤ cur.toInt ∧ cur.toInt ≤ maxVal.toInt
  cached : 0 ≤ w.userBrightness → Fits maxVal w.userBrightness

theorem percent_fits {config : Config} {maxVal : Int32} {w : World} (hs : Sound maxVal w)
    (hp : ∀ p ∈ config.profiles, Fits maxVal p.brightnessPercent ∧ Fits maxVal p.dimBrightnessPercent)
    {c : PowerCall} (hc : c.Uses config maxVal) : ∀ pct, c.percent w = some pct → Fits maxVal pct := by
  intro pct he
  cases c with
  | apply p =>
      cases he
      exact (hp p hc).1
  | dim p =>
      cases he
      exact (hp p hc).2
  | undim p =>
      cases he
      split
      · rename_i h
        exact hs.cached h
      · exact (hp p hc).1
  | outside cur => cases he

theorem call_sound {config : Config} {maxVal : Int32} {w : World} (hs : Sound maxVal w)
    (hp : ∀ p ∈ config.profiles, Fits maxVal p.brightnessPercent ∧ Fits maxVal p.dimBrightnessPercent)
    {c : PowerCall} (hc : c.Uses config maxVal) :
    ValidCall env maxVal w c ∧ Sound maxVal (c.step env w) := by
  have hfits := percent_fits hs hp hc
  obtain ⟨cur, hl, h0, hcur⟩ := hs.level
  have hpos := hl.pos
  have hvalid := fun pct he => (fits_iff hpos).mp (hfits pct he)
  obtain ⟨w', out, cur', hrun, htrace, htargets, hl', hlevel, huser⟩ := run_spec env hl c
  have hstep : c.step env w = w' := by
    simp only [PowerCall.step, hrun, Result.world]
  rw [hstep]
  refine ⟨⟨fun pct he => (hvalid pct he).1, fun out' ho target ok hm => ?_⟩, ⟨cur', hl', ?_⟩, fun hu => ?_⟩
  · rw [hstep, htrace] at ho
    obtain rfl := List.append_cancel_left ho
    have hmem : target ∈ out.filterMap Io.target := List.mem_filterMap.mpr ⟨_, hm, rfl⟩
    rw [htargets, List.mem_map] at hmem
    obtain ⟨pct, he, rfl⟩ := hmem
    have hin := (hvalid pct (by simpa using he)).2
    exact ⟨Int32.le_iff_toInt_le.mpr hin.1, Int32.le_iff_toInt_le.mpr hin.2⟩
  · rcases hlevel with rfl | ⟨pct, he, rfl⟩ | rfl
    · exact ⟨h0, hcur⟩
    · exact (hvalid pct he).2
    · exact ⟨Int32.le_iff_toInt_le.mp hc.1, Int32.le_iff_toInt_le.mp hc.2⟩
  · rcases huser with h | h | ⟨p, rfl, h⟩
    · rw [h] at hu ⊢
      exact hs.cached hu
    · rw [h] at hu
      exact absurd hu (by decide)
    · rw [h] at hu ⊢
      split
      · exact (hp p hc).1
      · rename_i hread
        rw [if_neg hread] at hu
        exact fits_read hpos h0 hcur (Int32.le_iff_toInt_le.mp hu)

theorem fits_of_valid {maxVal cur : Int32} {w : World} (hl : Level w.sysfs maxVal cur) {c : PowerCall}
    (h : ValidCall env maxVal w c) {pct : Int32} (he : c.percent w = some pct) : Fits maxVal pct := by
  obtain ⟨w', out, cur', hrun, htrace, htargets, -⟩ := run_spec env hl c
  have hmem : brightnessTarget maxVal pct ∈ out.filterMap Io.target := by
    rw [htargets, he]
    simp
  obtain ⟨e, hm, ht⟩ := List.mem_filterMap.mp hmem
  cases e with
  | brightness target ok =>
      cases ht
      have hstep : (c.step env w).trace = w.trace ++ out := by
        simp only [PowerCall.step, hrun, Result.world, htrace]
      have hin := h.written out hstep _ ok hm
      exact (fits_iff hl.pos).mpr
        ⟨h.product pct he, Int32.le_iff_toInt_le.mp hin.1, Int32.le_iff_toInt_le.mp hin.2⟩
  | _ => cases ht

-- Every sequence of calls writes brightnesses only exactly when all percentages of
-- the config fit.
theorem validCalls_iff (config : Config) (w : World) (maxVal cur : Int32) (hl : Level w.sysfs maxVal cur)
    (h0 : 0 ≤ cur.toInt) (hcur : cur.toInt ≤ maxVal.toInt) (hu : w.userBrightness = -1) :
    (∀ calls : List PowerCall, (∀ c ∈ calls, c.Uses config maxVal) →
      Run.Meets (fun w c => c.step env w) (ValidCall env maxVal) w calls) ↔
      ∀ p ∈ config.profiles, Fits maxVal p.brightnessPercent ∧ Fits maxVal p.dimBrightnessPercent := by
  constructor
  · intro h p hp
    have happly := h [.apply p] (by simpa [PowerCall.Uses] using hp)
    have hdim := h [.dim p] (by simpa [PowerCall.Uses] using hp)
    exact ⟨fits_of_valid env hl happly.1 rfl, fits_of_valid env hl hdim.1 rfl⟩
  · intro hp calls hcalls
    have hs : Sound maxVal w := ⟨⟨cur, hl, h0, hcur⟩, fun h => by
      rw [hu] at h
      exact absurd h (by decide)⟩
    clear hl hu
    induction calls generalizing w with
    | nil => trivial
    | cons c rest ih =>
        obtain ⟨hvalid, hnext⟩ := call_sound env hs hp (hcalls c (by simp))
        exact ⟨hvalid, ih _ (fun c hc => hcalls c (by simp [hc])) hnext⟩

end Calls

-- A daemon at rest, on a machine with only this backlight.
def lit (maxVal cur : Int32) : World :=
  ⟨⟨[], ⟨[], []⟩, []⟩, -1, [], ∅, ∅, false, none, ⟨some ⟨decimal maxVal.toInt, decimal cur.toInt⟩, [], []⟩,
    [], false⟩

theorem lit_level (maxVal cur : Int32) (h : 0 < maxVal) : Level (lit maxVal cur).sysfs maxVal cur := by
  refine ⟨_, rfl, ?_, ?_, h, ?_, ?_⟩
  all_goals rw [readFile_decimal]
  · exact decimal_ne_nil _
  · exact stoi_decimal maxVal
  · exact decimal_ne_nil _
  · exact stoi_decimal cur

-- Half of 937 is 53 percent, and that is 496.
theorem cycles_half :
    ∃ c p, loadConfig [] (some sampleConfig) = .ok c ∧ p ∈ c.profiles ∧
      ¬∃ w', cycles .plain p 1 (lit 937 500) = .ok w' ∧ Level w'.sysfs 937 500 := by
  refine ⟨_, _, rfl, .head _, ?_⟩
  rintro ⟨w', hrun, hl⟩
  cases hrun
  exact absurd (hl.unique (lit_level 937 496 (by decide))).2 (by decide)

theorem cycles_restore_tenth :
    ∃ c p, loadConfig [] (some sampleConfig) = .ok c ∧ p ∈ c.profiles ∧
      ((∃ w', cycles .plain p 3 (lit 1000 500) = .ok w' ∧ Level w'.sysfs 1000 500) ↔
        3 = 0 ∨ (1000 : Int32).toInt ∣ 100 * (500 : Int32).toInt) :=
  ⟨_, _, rfl, .head _, cycles_restore_iff .plain (fun _ => rfl) _ 3 _ 1000 500
    (lit_level 1000 500 (by decide)) (by decide) (by decide) (by decide)⟩

-- The user has the screen at 10 of 100, and it is dimmed to 20.
theorem dim_brighter :
    ∃ c p, loadConfig [] (some sampleConfig) = .ok c ∧ p ∈ c.profiles ∧
      (0 ≤ p.brightnessPercent ∧ p.brightnessPercent ≤ 100) ∧
      (0 ≤ p.dimBrightnessPercent ∧ p.dimBrightnessPercent ≤ 100) ∧
      ¬∃ w' cur', dim .plain p (lit 100 10) = .ok w' ∧ Level w'.sysfs 100 cur' ∧ cur' ≤ 10 := by
  refine ⟨_, _, rfl, .head _, by decide, by decide, ?_⟩
  rintro ⟨w', cur', hrun, hl, hle⟩
  cases hrun
  rw [(hl.unique (lit_level 100 20 (by decide))).2] at hle
  exact absurd hle (by decide)

theorem dim_notBrighter_tenth :
    ∃ c p, loadConfig [] (some sampleConfig) = .ok c ∧ p ∈ c.profiles ∧
      ((∃ w' cur', dim .plain p (lit 100 10) = .ok w' ∧ Level w'.sysfs 100 cur' ∧ cur' ≤ 10) ↔
        Env.plain.sysfsWritable [.dim] .brightness = false ∨
          (100 : Int32).toInt * p.dimBrightnessPercent.toInt < 100 * ((10 : Int32).toInt + 1)) :=
  ⟨_, _, rfl, .head _, dim_notBrighter_iff .plain _ 100 10 (lit_level 100 10 (by decide)) (by decide) _
    (by decide) (by decide)⟩

-- Twice the brightness there is.
def brighterConfig : Bytes :=
  bytes "\x7b\"profiles\":[\x7b\"name\":\"a\",\"brightness_percent\":200\x7d]\x7d"

theorem validCalls_brighter :
    ∃ c p, loadConfig [] (some brighterConfig) = .ok c ∧ p ∈ c.profiles ∧
      ¬ValidCall .plain 100 (lit 100 50) (.apply p) := by
  refine ⟨_, _, rfl, .head _, fun h => ?_⟩
  have hout := h.written [.apply, .brightness 200 true] rfl 200 true (by simp)
  exact absurd hout.2 (by decide)

theorem validCalls_sample :
    ∃ c, loadConfig [] (some sampleConfig) = .ok c ∧
      ((∀ calls : List PowerCall, (∀ call ∈ calls, call.Uses c 100) →
        Run.Meets (fun w call => call.step .plain w) (ValidCall .plain 100) (lit 100 50) calls) ↔
        ∀ p ∈ c.profiles, Fits 100 p.brightnessPercent ∧ Fits 100 p.dimBrightnessPercent) :=
  ⟨_, rfl, validCalls_iff .plain _ _ 100 50 (lit_level 100 50 (by decide)) (by decide) (by decide) rfl⟩

end Draind.Daemon
