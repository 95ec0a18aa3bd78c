import Draind.Daemon.ActiveProfile
import Draind.Daemon.IdleReport
import Draind.Shared.Decimal

namespace Draind.Daemon

open Json Proto

inductive Writer where
  | apply
  | dim
  | undim
  deriving DecidableEq

-- The operation entered last, the one that wrote the brightness last, and the
-- level that was set last by other means than dim.
structure Written where
  entered : Option Writer
  last : Option Writer
  setting : Int32

def writtenStep (s : Written) : Io → Written
  | .apply => { s with entered := some .apply }
  | .dim => { s with entered := some .dim }
  | .undim => { s with entered := some .undim }
  | .brightness target true =>
      { s with last := s.entered, setting := if s.entered = some .dim then s.setting else target }
  | _ => s

-- start is the level before the first write.
def written (start : Int32) (trace : List Io) : Written :=
  trace.foldl writtenStep ⟨none, none, start⟩

-- An undim at once writes the latest level that was not set by dim.
def Restores (start : Int32) (before : List Io) (e : Io) (after : List Io) : Prop :=
  e = .undim → ∃ rest, after = .brightness (written start before).setting true :: rest

-- The flag says whether dim wrote last, and every undim restores the setting.
def DimFlagAgrees (start : Int32) (w : World) : Prop :=
  (w.dimmed = true ↔ (written start w.trace).last = some .dim) ∧ Trace.Each (Restores start) w.trace

-- The backlight's files can be read: its maximum is positive, and this is its level.
def Level (s : Sysfs) (maxVal cur : Int32) : Prop :=
  ∃ b, s.backlight = some b ∧ readFile b.maxBrightness ≠ [] ∧
    stoi (readFile b.maxBrightness) = .ok maxVal ∧ 0 < maxVal ∧
    readFile b.brightness ≠ [] ∧ stoi (readFile b.brightness) = .ok cur

-- Nobody else writes the backlight.
def LeavesBacklight (s : State) : Move → Prop
  | .outside _ sysfs => sysfs.backlight = s.world.sysfs.backlight
  | _ => True

-- The command is a set_profile with a name that is listed, or a reload_config of
-- a file whose active profile is.
def CommandApplies (msg : Value) (w : World) : Prop :=
  msg.str (bytes "cmd") [] = bytes "set_profile" ∧
      w.config.select (msg.str (bytes "profile") []) ≠ none ∨
    msg.str (bytes "cmd") [] = bytes "reload_config" ∧
      ∃ config, w.config.reload w.file = .ok config ∧ config.activeProfile ≠ none

def AppliesProfile (w : World) : Call → Prop
  | .line _ line => ∃ msg, decode line = .ok msg ∧ msgType msg = T_CTL ∧ CommandApplies msg w
  | _ => False

-- The call handles an active report of an agent of the active session.
def TakesActive (w : World) : Call → Prop
  | .line fd line =>
      (∃ msg, decode line = .ok msg ∧ msgType msg = T_ACTIVE) ∧ isActiveAgent fd w = true
  | _ => False

-- What dim remembers of a level: its percentage, or the profile's where that is negative.
def remembered (maxVal level : Int32) (p : Profile) : Int32 :=
  if level * 100 / maxVal < 0 then p.brightnessPercent else level * 100 / maxVal

-- The percentage leads back to the level it is of.
def Reproducible (s : Sysfs) (level : Int32) (p : Profile) : Prop :=
  ∀ maxVal cur, Level s maxVal cur → brightnessTarget maxVal (remembered maxVal level p) = level

-- No profile is applied to a dimmed screen, and it is undimmed only where the level set
-- last before the dim is one that its percentage reproduces.
def CallKeepsSetting (start : Int32) (w : World) (c : Call) : Prop :=
  w.dimmed = true → ¬AppliesProfile w c ∧
    (TakesActive w c → ∀ p, w.activeProfile = some p → Reproducible w.sysfs (written start w.trace).setting p)

def KeepsSetting (start : Int32) (s : State) : Move → Prop
  | .call => s.world.exited = false → ∀ c ∈ s.pending.head?, CallKeepsSetting start s.world c
  | _ => True

section Levels

theorem readFile_decimal (n : Int) : readFile (decimal n) = decimal n := by
  obtain ⟨init, c, h, hc⟩ := decimal_eq_concat n
  obtain ⟨-, -, -, hnl, hblank⟩ := isDigit_cases c hc
  simp [readFile, h, hnl, hblank]

theorem Level.setBrightness {s : Sysfs} {maxVal cur : Int32} (h : Level s maxVal cur) (target : Int32) :
    Level (s.setBrightness target) maxVal target := by
  obtain ⟨b, hb, hne, hmax, hpos, -, -⟩ := h
  refine ⟨{ b with brightness := decimal target.toInt }, by simp [Sysfs.setBrightness, hb], hne, hmax,
    hpos, ?_, ?_⟩
  · rw [readFile_decimal]
    exact decimal_ne_nil _
  · rw [readFile_decimal]
    exact stoi_decimal target

theorem Level.unique {s : Sysfs} {maxVal maxVal' cur cur' : Int32} (h : Level s maxVal cur)
    (h' : Level s maxVal' cur') : maxVal = maxVal' ∧ cur = cur' := by
  obtain ⟨b, hb, -, hmax, -, -, hcur⟩ := h
  obtain ⟨b', hb', -, hmax', -, -, hcur'⟩ := h'
  cases hb.symm.trans hb'
  cases hmax.symm.trans hmax'
  cases hcur.symm.trans hcur'
  exact ⟨rfl, rfl⟩

theorem getBrightnessPercent_level {s : Sysfs} {maxVal cur : Int32} (h : Level s maxVal cur) :
    getBrightnessPercent s = .ok (cur * 100 / maxVal) := by
  obtain ⟨b, hb, hne, hmax, hpos, hne', hcur⟩ := h
  have hnot : ¬maxVal ≤ 0 := Int32.not_le.mpr hpos
  simp only [getBrightnessPercent, hb, hne, hne', hmax, or_self, if_false]
  show (if maxVal ≤ 0 then _ else _) = _
  rw [if_neg hnot, hcur]
  rfl

variable (env : Env)

theorem setBrightnessPercent_level {w : World} {maxVal cur : Int32} (h : Level w.sysfs maxVal cur)
    (hw : ∀ trace, env.sysfsWritable trace .brightness = true) (pct : Int32) :
    setBrightnessPercent env pct w =
      .ok ({ w with sysfs := w.sysfs.setBrightness (brightnessTarget maxVal pct) }.emit
        (.brightness (brightnessTarget maxVal pct) true)) := by
  obtain ⟨b, hb, hne, hmax, -, -, -⟩ := h
  simp [setBrightnessPercent, hb, hne, hmax, hw]

end Levels

def Io.IsSteady : Io → Prop
  | .apply | .dim | .undim | .brightness .. => False
  | _ => True

-- The backlight, what is known of it, the dim flag and the profiles are as before.
structure Steady (w w' : World) : Prop where
  dimmed : w'.dimmed = w.dimmed
  power : w'.userBrightness = w.userBrightness
  backlight : w'.sysfs.backlight = w.sysfs.backlight
  config : w'.config = w.config
  grows : Trace.Grows Io.IsSteady w.trace w'.trace

theorem Steady.refl (w : World) : Steady w w :=
  ⟨rfl, rfl, rfl, rfl, .refl _⟩

theorem Steady.trans {w w' w'' : World} (h : Steady w w') (h' : Steady w' w'') : Steady w w'' :=
  ⟨h'.dimmed.trans h.dimmed, h'.power.trans h.power, h'.backlight.trans h.backlight,
    h'.config.trans h.config, h.grows.trans h'.grows⟩

theorem Emits.steady {kind : Io → Prop} {w w' : World} (h : Emits kind w w')
    (himp : ∀ e, kind e → e.IsSteady) : Steady w w' := by
  obtain ⟨out, rfl, hk⟩ := h
  exact ⟨rfl, rfl, rfl, rfl, out, rfl, fun e he => himp e (hk e he)⟩

theorem Io.IsTalk.isSteady (e : Io) (h : e.IsTalk) : e.IsSteady := by
  cases e <;> first | exact trivial | exact h

theorem Io.IsSleep.isSteady (e : Io) (h : e.IsSleep) : e.IsSteady := by
  cases e <;> first | exact trivial | exact h

theorem Io.IsPolicy.isSteady (e : Io) (h : e.IsPolicy) : e.IsSteady := by
  cases e <;> first | exact trivial | exact h

-- What holds between the calls: the level, the ghost and the remembered percentage
-- fit together.
structure Settled (maxVal start : Int32) (w : World) : Prop where
  level : ∃ cur, Level w.sysfs maxVal cur ∧
    (w.dimmed = false → cur = (written start w.trace).setting)
  agrees : DimFlagAgrees start w
  cached : w.dimmed = true → ∃ p, w.userBrightness = remembered maxVal (written start w.trace).setting p ∧
    ∀ q, w.activeProfile = some q → q = p

theorem written_append (start : Int32) (trace out : List Io) :
    written start (trace ++ out) = out.foldl writtenStep (written start trace) := by
  simp [written]

theorem written_of_grows (start : Int32) {trace trace' : List Io}
    (h : Trace.Grows Io.IsSteady trace trace') : written start trace' = written start trace := by
  refine h.foldl_eq writtenStep (fun s e he => ?_) _
  cases e <;> first | rfl | exact absurd he id

theorem restores_append (start : Int32) {trace out : List Io} (h : Trace.Each (Restores start) trace)
    (hnew : ∀ before e after, out = before ++ e :: after → Restores start (trace ++ before) e after) :
    Trace.Each (Restores start) (trace ++ out) := by
  refine h.append (fun before e after hr he => ?_) hnew
  obtain ⟨rest, rfl⟩ := hr he
  exact ⟨rest ++ out, rfl⟩

theorem restores_of_noUndim (start : Int32) {trace out : List Io}
    (h : Trace.Each (Restores start) trace) (hno : .undim ∉ out) :
    Trace.Each (Restores start) (trace ++ out) := by
  refine restores_append start h fun before e after he hu => ?_
  subst hu
  exact absurd (by simp [he]) hno

theorem Settled.steady {maxVal start : Int32} {w w' : World} (h : Settled maxVal start w)
    (hs : Steady w w') : Settled maxVal start w' := by
  have hw := written_of_grows start hs.grows
  obtain ⟨out, ho, hk⟩ := hs.grows
  have heach : Trace.Each (Restores start) w'.trace := by
    rw [ho]
    exact restores_of_noUndim start h.agrees.2 fun hu => hk _ hu
  refine ⟨?_, ⟨?_, heach⟩, ?_⟩
  · obtain ⟨cur, ⟨b, hb, hrest⟩, hcur⟩ := h.level
    exact ⟨cur, ⟨b, hs.backlight.trans hb, hrest⟩, by rw [hs.dimmed, hw]; exact hcur⟩
  · rw [hs.dimmed, hw]
    exact h.agrees.1
  · rw [hs.dimmed, hs.power, hw, World.activeProfile, hs.config]
    exact h.cached

-- The profiles may change while the screen is not dimmed, or when none is active then.
theorem Settled.reconfigured {maxVal start : Int32} {w : World} (h : Settled maxVal start w)
    (config : ConfigManager) (hc : w.dimmed = true → config.activeProfile = none) :
    Settled maxVal start { w with config := config } := by
  refine ⟨h.level, h.agrees, fun hd => ?_⟩
  obtain ⟨p, hp, -⟩ := h.cached hd
  refine ⟨p, hp, fun q hq => ?_⟩
  cases (hc hd).symm.trans hq

section Operations

variable (env : Env) (hw : ∀ trace, env.sysfsWritable trace .brightness = true)

theorem setCpuFile_steady (read : CpuPolicy → Bytes) (store : CpuPolicy → Bytes → CpuPolicy)
    (value : Bytes) (w : World) : Steady w (setCpuFile env read store value w) := by
  unfold setCpuFile
  split
  · exact .refl w
  · have h := (writePolicies_emits env read store value w.sysfs.policies w).steady Io.IsPolicy.isSteady
    exact ⟨h.dimmed, h.power, h.backlight, h.config, h.grows⟩

-- What apply does before it sets the brightness.
theorem applyFiles_steady (p : Profile) (w : World) :
    Steady (w.emit .apply) (setCpuEpp env p.cpuEpp (setCpuGovernor env p.cpuGovernor (w.emit .apply))) :=
  (setCpuFile_steady env _ _ _ _).trans (setCpuFile_steady env _ _ _ _)

theorem written_applied (start : Int32) {trace trace' : List Io}
    (h : Trace.Grows Io.IsSteady (trace ++ [.apply]) trace') (target : Int32) :
    written start (trace' ++ [.brightness target true]) = ⟨some .apply, some .apply, target⟩ := by
  rw [written_append, written_of_grows start h, written_append]
  rfl

theorem restores_applied (start : Int32) {trace trace' : List Io}
    (hr : Trace.Each (Restores start) trace)
    (h : Trace.Grows Io.IsSteady (trace ++ [.apply]) trace') (target : Int32) :
    Trace.Each (Restores start) (trace' ++ [.brightness target true]) := by
  obtain ⟨out, rfl, hk⟩ := h
  rw [List.append_assoc, List.append_assoc]
  refine restores_of_noUndim start hr fun hu => ?_
  simp only [List.mem_append, List.mem_singleton, reduceCtorEq, or_false, false_or] at hu
  exact hk _ hu

include hw

theorem apply_level (start : Int32) {maxVal cur : Int32} {w : World} (hl : Level w.sysfs maxVal cur) (p : Profile) :
    ∃ w', apply env p w = .ok w' ∧ w'.dimmed = w.dimmed ∧
      Level w'.sysfs maxVal (brightnessTarget maxVal p.brightnessPercent) ∧
      written start w'.trace = ⟨some .apply, some .apply, brightnessTarget maxVal p.brightnessPercent⟩ ∧
      (Trace.Each (Restores start) w.trace → Trace.Each (Restores start) w'.trace) := by
  have hs := applyFiles_steady env p w
  unfold apply
  generalize setCpuEpp env p.cpuEpp (setCpuGovernor env p.cpuGovernor (w.emit .apply)) = w₁ at hs ⊢
  obtain ⟨b, hb, hrest⟩ := hl
  have hl₁ : Level w₁.sysfs maxVal cur := ⟨b, hs.backlight.trans hb, hrest⟩
  exact ⟨_, setBrightnessPercent_level env hl₁ hw p.brightnessPercent, hs.dimmed, hl₁.setBrightness _,
    written_applied start hs.grows _, fun heach => restores_applied start heach hs.grows _⟩

theorem apply_settled {maxVal start : Int32} {w : World} (h : Settled maxVal start w)
    (hd : w.dimmed = false) (p : Profile) :
    ∃ w', apply env p w = .ok w' ∧ Settled maxVal start w' ∧ w'.dimmed = false := by
  obtain ⟨cur, hl, -⟩ := h.level
  obtain ⟨w', hok, hdimmed, hl', hwritten, heach⟩ := apply_level env hw start hl p
  have hd' : w'.dimmed = false := hdimmed.trans hd
  refine ⟨w', hok, ⟨⟨_, hl', fun _ => ?_⟩, ⟨?_, heach h.agrees.2⟩, fun hdim => ?_⟩, hd'⟩
  · rw [hwritten]
  · rw [hwritten]
    simp [hd']
  · exact absurd hdim (by simp [hd'])

theorem dim_level {w : World} {maxVal cur : Int32} (hl : Level w.sysfs maxVal cur) (p : Profile) :
    dim env p w = .ok { w with
      userBrightness := remembered maxVal cur p
      sysfs := w.sysfs.setBrightness (brightnessTarget maxVal p.dimBrightnessPercent)
      trace := w.trace ++ [.dim, .brightness (brightnessTarget maxVal p.dimBrightnessPercent) true] } := by
  have hl' : Level (w.emit .dim).sysfs maxVal cur := hl
  unfold dim
  dsimp only
  rw [getBrightnessPercent_level hl']
  dsimp only
  rw [setBrightnessPercent_level env (by exact hl') hw]
  simp [World.emit, remembered]

theorem dim_settled {maxVal start : Int32} {w w' : World} (h : Settled maxVal start w)
    (hd : w.dimmed = false) (p : Profile) (hp : w.activeProfile = some p) (hok : dim env p w = .ok w') :
    Settled maxVal start { w' with dimmed := true } := by
  obtain ⟨cur, hl, hcur⟩ := h.level
  rw [dim_level env hw hl p] at hok
  cases hok
  have hwritten : ∀ target, written start (w.trace ++ [.dim, .brightness target true]) =
      ⟨some .dim, some .dim, (written start w.trace).setting⟩ := by
    intro target
    rw [written_append]
    rfl
  refine ⟨⟨_, hl.setBrightness _, fun hf => by cases hf⟩, ⟨?_, ?_⟩, fun _ => ?_⟩
  · simp only [hwritten]
  · exact restores_of_noUndim start h.agrees.2 (by simp)
  · rw [hwritten]
    refine ⟨p, by rw [hcur hd], fun q hq => ?_⟩
    cases hp.symm.trans hq
    rfl

-- Of a percentage that was remembered with this profile, undim writes the target.
theorem undim_level {w : World} {maxVal cur level : Int32} (hl : Level w.sysfs maxVal cur) (p : Profile)
    (hu : w.userBrightness = remembered maxVal level p) :
    undim env p w = .ok { w with
      userBrightness := -1
      sysfs := w.sysfs.setBrightness (brightnessTarget maxVal (remembered maxVal level p))
      trace := w.trace ++ [.undim, .brightness (brightnessTarget maxVal (remembered maxVal level p)) true] } := by
  have hl' : Level (w.emit .undim).sysfs maxVal cur := hl
  have hrestore : (if 0 ≤ w.userBrightness then w.userBrightness else p.brightnessPercent) =
      remembered maxVal level p := by
    rw [hu]
    split
    · rfl
    · rename_i hneg
      unfold remembered at hneg ⊢
      split at hneg
      · rename_i hlow
        exact (if_pos hlow).symm
      · rename_i hpos
        exact absurd (Int32.not_lt.mp hpos) hneg
  change (do
    let w ← setBrightnessPercent env (if 0 ≤ w.userBrightness then w.userBrightness else p.brightnessPercent)
      (w.emit .undim)
    .ok { w with userBrightness := -1 }) = _
  rw [hrestore, setBrightnessPercent_level env hl' hw]
  simp [World.emit, bind, Except.bind]

-- A dimmed screen is undimmed with the profile it was dimmed with.
theorem Settled.undims {maxVal start : Int32} {w : World} (h : Settled maxVal start w) (hd : w.dimmed = true)
    (p : Profile) (hp : w.activeProfile = some p) :
    let target := brightnessTarget maxVal (remembered maxVal (written start w.trace).setting p)
    undim env p w = .ok { w with
      userBrightness := -1
      sysfs := w.sysfs.setBrightness target
      trace := w.trace ++ [.undim, .brightness target true] } := by
  obtain ⟨cur, hl, -⟩ := h.level
  obtain ⟨q, huser, hq⟩ := h.cached hd
  obtain rfl := hq p hp
  exact undim_level env hw hl p huser

theorem undim_settled {maxVal start : Int32} {w w' : World} (h : Settled maxVal start w)
    (hd : w.dimmed = true) (p : Profile) (hp : w.activeProfile = some p)
    (hr : Reproducible w.sysfs (written start w.trace).setting p) (hok : undim env p w = .ok w') :
    Settled maxVal start { w' with dimmed := false } := by
  obtain ⟨cur, hl, -⟩ := h.level
  rw [h.undims env hw hd p hp, hr maxVal cur hl] at hok
  cases hok
  have hwritten : written start (w.trace ++ [.undim, .brightness (written start w.trace).setting true]) =
      ⟨some .undim, some .undim, (written start w.trace).setting⟩ := by
    rw [written_append]
    rfl
  refine ⟨⟨_, hl.setBrightness _, fun _ => ?_⟩, ⟨?_, ?_⟩, fun hf => by cases hf⟩
  · rw [hwritten]
  · simp [hwritten]
  · refine restores_append start h.agrees.2 fun before e after he hu => ?_
    subst hu
    -- The undim stands first, and the write follows it.
    cases before with
    | nil =>
        obtain ⟨-, rfl⟩ := List.cons.inj he
        exact ⟨[], by rw [List.append_nil]⟩
    | cons x before =>
        obtain ⟨-, he⟩ := List.cons.inj he
        cases before <;> simp at he

-- An undim that restores the setting comes from a level that can be reproduced.
theorem undim_restores {maxVal start : Int32} {w w' : World} (h : Settled maxVal start w)
    (hd : w.dimmed = true) (p : Profile) (hp : w.activeProfile = some p) (hok : undim env p w = .ok w')
    (heach : Trace.Each (Restores start) w'.trace) :
    Reproducible w.sysfs (written start w.trace).setting p := by
  obtain ⟨cur, hl, -⟩ := h.level
  rw [h.undims env hw hd p hp] at hok
  cases hok
  obtain ⟨rest, hrest⟩ := heach w.trace .undim _ rfl rfl
  intro maxVal' cur' hl'
  obtain ⟨rfl, -⟩ := hl.unique hl'
  exact (Io.brightness.inj (List.cons.inj hrest).1).1

theorem onChange_settled {maxVal start : Int32} {w : World} (h : Settled maxVal start w)
    (hc : w.dimmed = true → w.activeProfile = none) :
    ∃ w', onChange env w = .ok w' ∧ Settled maxVal start w' := by
  unfold onChange
  cases hp : w.activeProfile with
  | none => exact ⟨_, rfl, h.steady ((broadcastConfig_emits env w).steady Io.IsTalk.isSteady)⟩
  | some p =>
      have hd : w.dimmed = false := by
        by_contra hd
        rw [hc (by simpa using hd)] at hp
        cases hp
      obtain ⟨w', hw', hs, -⟩ := apply_settled env hw h hd p
      simp only [hw', bind, Except.bind]
      exact ⟨_, rfl, hs.steady ((broadcastConfig_emits env w').steady Io.IsTalk.isSteady)⟩

-- Once a profile is applied, apply has written last.
theorem onChange_applied (start : Int32) {maxVal cur : Int32} {w : World} (hl : Level w.sysfs maxVal cur)
    (hp : w.activeProfile ≠ none) :
    ∃ w', onChange env w = .ok w' ∧ w'.dimmed = w.dimmed ∧ (written start w'.trace).last = some .apply := by
  obtain ⟨p, hp⟩ := Option.ne_none_iff_exists'.mp hp
  obtain ⟨w', hok, hdimmed, -, hwritten, -⟩ := apply_level env hw start hl p
  have hs := (broadcastConfig_emits env w').steady Io.IsTalk.isSteady
  refine ⟨broadcastConfig env w', ?_, hs.dimmed.trans hdimmed, ?_⟩
  · simp only [onChange, hp, hok, bind, Except.bind]
  · rw [written_of_grows start hs.grows, hwritten]

omit hw in
theorem persistActive_steady (w : World) : Steady w (persistActive env w) := by
  unfold persistActive
  split
  · exact .refl w
  · split
    · exact .refl w
    · exact ⟨rfl, rfl, rfl, rfl, .single _ trivial⟩

omit hw in
theorem reply_settled {maxVal start : Int32} {w : World} (h : Settled maxVal start w) (fd : Fd)
    (entries : List (Bytes × Value)) : Settled maxVal start (reply env fd entries w) :=
  h.steady ((reply_emits env fd entries w).steady Io.IsTalk.isSteady)

theorem onCtl_settled {maxVal start : Int32} {w : World} (h : Settled maxVal start w) (fd : Fd)
    (msg : Value) (hc : w.dimmed = true → ¬CommandApplies msg w) :
    Settled maxVal start (onCtl env fd msg w).world := by
  unfold onCtl
  dsimp only
  split_ifs with h1 h2 h3 h4 h5 h6 h7
  · exact reply_settled env h fd _
  · rcases setActive_cases env (msg.str (bytes "profile") []) w with ⟨-, he⟩ | ⟨config, hsel, he⟩
    · rw [he]
      exact reply_settled env h fd _
    · rw [he]
      have hd : w.dimmed = true → config.activeProfile = none :=
        fun hd => absurd (.inl ⟨h2, by simp [hsel]⟩) (hc hd)
      have hpersist := persistActive_steady env { w with config := config }
      have hnone : (persistActive env { w with config := config }).dimmed = true →
          (persistActive env { w with config := config }).activeProfile = none := by
        rw [hpersist.dimmed, World.activeProfile, hpersist.config]
        exact hd
      obtain ⟨w', hw', hs⟩ := onChange_settled env hw ((h.reconfigured config hd).steady hpersist) hnone
      rw [hw']
      exact reply_settled env hs fd _
  · exact reply_settled env h fd _
  · exact reply_settled env (h.steady ((sendLockToActiveAgent_emits env w).steady Io.IsTalk.isSteady)) fd _
  · exact reply_settled env h fd _
  · unfold reloadConfig
    cases hr : w.config.reload w.file with
    | error e => exact reply_settled env h fd _
    | ok config =>
        have hnone : w.dimmed = true → config.activeProfile = none := by
          intro hd
          by_contra hp
          exact hc hd (.inr ⟨h6, config, hr, hp⟩)
        obtain ⟨w', hw', hs⟩ := onChange_settled env hw (h.reconfigured config hnone) hnone
        dsimp only
        rw [hw']
        exact reply_settled env hs fd _
  · exact reply_settled env h fd _
  · exact reply_settled env h fd _

theorem onCtl_applied (start : Int32) {maxVal cur : Int32} {w : World} (hl : Level w.sysfs maxVal cur) (fd : Fd)
    (msg : Value) (hc : CommandApplies msg w) :
    (onCtl env fd msg w).world.dimmed = w.dimmed ∧
      (written start (onCtl env fd msg w).world.trace).last = some .apply := by
  have hreply : ∀ w' entries, w'.dimmed = w.dimmed → (written start w'.trace).last = some .apply →
      (reply env fd entries w').dimmed = w.dimmed ∧
        (written start (reply env fd entries w').trace).last = some .apply := by
    intro w' entries hd hlast
    have hs := (reply_emits env fd entries w').steady Io.IsTalk.isSteady
    exact ⟨hs.dimmed.trans hd, by rw [written_of_grows start hs.grows, hlast]⟩
  rcases hc with ⟨hcmd, hselect⟩ | ⟨hcmd, config, hreload, hp⟩
  · obtain ⟨entries, he⟩ := onCtl_setProfile env fd msg w hcmd
    rcases setActive_cases env (msg.str (bytes "profile") []) w with ⟨hnone, -⟩ | ⟨config, hsome, hset⟩
    · exact absurd hnone hselect
    have hs := persistActive_steady env { w with config := config }
    obtain ⟨b, hb, hrest⟩ := hl
    have hl' : Level (persistActive env { w with config := config }).sysfs maxVal cur :=
      ⟨b, hs.backlight.trans hb, hrest⟩
    have hp : (persistActive env { w with config := config }).activeProfile ≠ none := by
      rw [World.activeProfile, hs.config]
      exact ConfigManager.select_activeProfile _ _ _ hsome
    obtain ⟨w', hok, hdimmed, hlast⟩ := onChange_applied env hw start hl' hp
    rw [he, hset, hok]
    exact hreply w' _ (hdimmed.trans hs.dimmed) hlast
  · obtain ⟨entries, he⟩ := onCtl_reloadConfig env fd msg w hcmd
    have hl' : Level ({ w with config := config } : World).sysfs maxVal cur := hl
    obtain ⟨w', hok, hdimmed, hlast⟩ := onChange_applied env hw start hl' hp
    rw [he, reloadConfig, hreload]
    dsimp only
    rw [hok]
    exact hreply w' entries hdimmed hlast

end Operations

section Calls

variable (env : Env) (hw : ∀ trace, env.sysfsWritable trace .brightness = true)

theorem steady_emit (w : World) (e : Io) (he : e.IsSteady) : Steady w (w.emit e) :=
  ⟨rfl, rfl, rfl, rfl, .single _ he⟩

theorem steady_agents (w : World) (agents : Agents) : Steady w { w with agents := agents } :=
  ⟨rfl, rfl, rfl, rfl, .refl _⟩

theorem updateInhibits_steady (update : Bytes → List Bytes → List Bytes) (fd : Fd) (msg : Value)
    (w : World) : Steady w (updateInhibits env update fd msg w) := by
  unfold updateInhibits
  split
  · exact .refl w
  · exact (steady_agents w _).trans ((send_emits env fd _ _).steady Io.IsTalk.isSteady)

theorem onHello_steady (fd : Fd) (msg : Value) (w : World) : Steady w (onHello env fd msg w) :=
  (steady_agents w _).trans ((sendConfig_emits env fd _).steady Io.IsTalk.isSteady)

include hw

theorem onIdleDim_settled {maxVal start : Int32} {w : World} (h : Settled maxVal start w) (fd : Fd) :
    Settled maxVal start (onIdleDim env fd w).world := by
  have hreport := h.steady (steady_emit w (.report fd .idleDim) trivial)
  by_cases hall : isActiveAgent fd w = true ∧ hasAnyInhibit w = false ∧ w.dimmed = false ∧
      ∃ p, w.activeProfile = some p
  · obtain ⟨ha, hi, hd, p, hp⟩ := hall
    obtain ⟨cur, hl, -⟩ := hreport.level
    rw [onIdleDim_eq env fd w p ha hi hd hp, dim_level env hw hl p]
    exact dim_settled env hw hreport hd p hp (dim_level env hw hl p)
  · rw [onIdleDim_blocked env fd w fun ha hi hd => ?_]
    · exact hreport
    · by_contra hp
      exact hall ⟨ha, hi, hd, Option.ne_none_iff_exists'.mp hp⟩

-- The three guards passed, the report undims.
omit hw in
theorem onActive_eq (fd : Fd) (w : World) (p : Profile) (ha : isActiveAgent fd w = true)
    (hd : w.dimmed = true) (hp : w.activeProfile = some p) :
    onActive env fd w =
      undim env p (w.emit (.report fd .active)) >>= fun w => .ok { w with dimmed := false } := by
  have ha' := isActiveAgent_congr fd (World.emit_agents w (.report fd .active)) (World.emit_session w _)
  have hp' : (w.emit (.report fd .active)).activeProfile = some p := hp
  simp [onActive, ha', ha, hd, hp']

theorem onActive_settled {maxVal start : Int32} {w : World} (h : Settled maxVal start w) (fd : Fd)
    (hr : isActiveAgent fd w = true → w.dimmed = true → ∀ p, w.activeProfile = some p →
      Reproducible w.sysfs (written start w.trace).setting p) :
    Settled maxVal start (onActive env fd w).world := by
  have hsteady := steady_emit w (.report fd .active) trivial
  have hreport := h.steady hsteady
  by_cases hall : isActiveAgent fd w = true ∧ w.dimmed = true ∧ ∃ p, w.activeProfile = some p
  · obtain ⟨ha, hd, p, hp⟩ := hall
    have hsame : Reproducible (w.emit (.report fd .active)).sysfs
        (written start (w.emit (.report fd .active)).trace).setting p := by
      rw [written_of_grows start hsteady.grows]
      exact hr ha hd p hp
    have hok := hreport.undims env hw hd p hp
    rw [onActive_eq env fd w p ha hd hp, hok]
    exact undim_settled env hw hreport hd p hp hsame hok
  · rw [onActive_blocked env fd w fun ha => ?_]
    · exact hreport
    · by_contra hguards
      rw [not_or, Bool.not_eq_false] at hguards
      exact hall ⟨ha, hguards.1, Option.ne_none_iff_exists'.mp hguards.2⟩

-- One message, where the condition is read off the state before it.
theorem onMessage_settled {maxVal start : Int32} {w : World} (h : Settled maxVal start w) (fd : Fd)
    (msg : Value)
    (hc : w.dimmed = true → msgType msg = T_CTL → ¬CommandApplies msg w)
    (hr : msgType msg = T_ACTIVE → isActiveAgent fd w = true → w.dimmed = true →
      ∀ p, w.activeProfile = some p → Reproducible w.sysfs (written start w.trace).setting p) :
    Settled maxVal start (onMessage env fd msg w).world := by
  unfold onMessage
  dsimp only
  split
  · exact h.steady (onHello_steady env fd msg w)
  split
  · rename_i ht
    exact onCtl_settled env hw h fd msg fun hd => hc hd ht
  split
  · exact h
  split
  · exact onIdleDim_settled env hw h fd
  split
  · exact (h.steady (steady_emit w (.report fd .idleSleep) trivial)).steady
      ((onIdleSleep_emits env fd w).steady Io.IsSleep.isSteady)
  split
  · rename_i ht
    exact onActive_settled env hw h fd (hr ht)
  split
  · exact h.steady (updateInhibits_steady env _ fd msg w)
  split
  · exact h.steady (updateInhibits_steady env _ fd msg w)
  · exact h

omit hw in
theorem settled_settle {maxVal start : Int32} {r : Result} (h : Settled maxVal start r.world) :
    Settled maxVal start r.settle := by
  cases r with
  | ok w => exact h
  | error t => exact ⟨h.level, h.agrees, h.cached⟩

theorem perform_settled {maxVal start : Int32} {w : World} (h : Settled maxVal start w) (c : Call)
    (hk : CallKeepsSetting start w c) : Settled maxVal start (perform env c w).settle := by
  refine settled_settle ?_
  cases c with
  | hangUp fd =>
      have hclosed : Steady w (closeClient fd (onDisconnect fd w)) :=
        ⟨rfl, rfl, rfl, rfl, (Trace.Grows.single w.trace (e := .hungUp fd) trivial).trans
          (.single _ (e := Io.close fd) trivial)⟩
      exact h.steady hclosed
  | button e =>
      exact (h.steady (steady_emit w (.button e) trivial)).steady
        ((onEvent_emits env e w).steady Io.IsSleep.isSteady)
  | line fd line =>
      have hline := h.steady (steady_emit w (.line fd line) trivial)
      cases hd : decode line with
      | error e =>
          have hclosed : Steady (w.emit (.line fd line)) (closeClient fd (w.emit (.line fd line))) :=
            ⟨rfl, rfl, rfl, rfl, .single _ trivial⟩
          simp only [perform, onLine, hd]
          exact hline.steady hclosed
      | ok msg =>
          simp only [perform, onLine, hd]
          refine onMessage_settled env hw hline fd msg (fun hdim ht happ => ?_)
            fun ht ha hdim p hp => ?_
          · exact (hk hdim).1 ⟨msg, hd, ht, happ⟩
          · rw [written_of_grows start (steady_emit w (.line fd line) trivial).grows]
            rw [isActiveAgent_congr fd (World.emit_agents w _) (World.emit_session w _)] at ha
            exact (hk hdim).2 ⟨⟨msg, hd, ht⟩, ha⟩ p hp

theorem step_settled {maxVal start : Int32} (s : State) (move : Move)
    (h : Settled maxVal start s.world) (hl : LeavesBacklight s move) (hk : KeepsSetting start s move) :
    Settled maxVal start (step env s move).world := by
  have hstep := step_stepped env s move
  generalize step env s move = s' at hstep ⊢
  cases hstep with
  | idle => exact h
  | signal m _ _ =>
      have hs := handleSeatProperties_seated m s.world
      have hsysfs : (handleSeatProperties m s.world).sysfs.backlight = s.world.sysfs.backlight := by
        rw [hs.sysfs]
      exact h.steady ⟨hs.dimmed, hs.power, hsysfs, hs.config, hs.grows.mono fun _ ⟨_, he⟩ => he ▸ trivial⟩
  | accept r fd _ _ hf => exact h.steady ⟨rfl, rfl, rfl, rfl, .single _ trivial⟩
  | feed r c _ _ _ => exact h.steady ⟨rfl, rfl, rfl, rfl, .refl _⟩
  | input => exact h
  | outside file sysfs _ => exact h.steady ⟨rfl, rfl, hl, rfl, .refl _⟩
  | call c rest hp he => exact perform_settled env hw h c (hk he c (by simp [hp]))

omit hw in
theorem agrees_settle (start : Int32) (r : Result) : DimFlagAgrees start r.settle ↔ DimFlagAgrees start r.world := by
  cases r <;> exact Iff.rfl

-- A profile that is applied to a dimmed screen is seen at once.
theorem unapplied_of_agrees {maxVal start : Int32} {w : World} (h : Settled maxVal start w) (hd : w.dimmed = true)
    (c : Call) (hb : DimFlagAgrees start (perform env c w).world) : ¬AppliesProfile w c := by
  cases c with
  | hangUp fd => exact id
  | button e => exact id
  | line fd line =>
      rintro ⟨msg, hdecode, ht, hcommand⟩
      have hline := h.steady (steady_emit w (.line fd line) trivial)
      obtain ⟨cur, hl, -⟩ := hline.level
      obtain ⟨hdimmed, hlast⟩ := onCtl_applied env hw start hl fd msg hcommand
      have hperform : perform env (.line fd line) w = onCtl env fd msg (w.emit (.line fd line)) := by
        simp only [perform, onLine, hdecode, onMessage_ctl env ht]
      rw [hperform] at hb
      have hdim := hb.1.mp (hdimmed.trans hd)
      rw [hlast] at hdim
      cases hdim

-- So is an undim from a level that cannot be reproduced.
theorem reproducible_of_agrees {maxVal start : Int32} {w : World} (h : Settled maxVal start w)
    (hd : w.dimmed = true) (c : Call) (hb : DimFlagAgrees start (perform env c w).world) (ha : TakesActive w c)
    (p : Profile) (hp : w.activeProfile = some p) : Reproducible w.sysfs (written start w.trace).setting p := by
  cases c with
  | hangUp fd => exact absurd ha id
  | button e => exact absurd ha id
  | line fd line =>
      obtain ⟨⟨msg, hdecode, ht⟩, ha⟩ := ha
      have ha' : isActiveAgent fd (w.emit (.line fd line)) = true := by
        rwa [isActiveAgent_congr fd (World.emit_agents w _) (World.emit_session w _)]
      have hline := steady_emit w (.line fd line) trivial
      have hreport := steady_emit (w.emit (.line fd line)) (.report fd .active) trivial
      have hsettled := h.steady (hline.trans hreport)
      have hok := hsettled.undims env hw hd p hp
      have hperform : perform env (.line fd line) w = onActive env fd (w.emit (.line fd line)) := by
        simp only [perform, onLine, hdecode, onMessage_active env ht (isActiveAgent_mem ha')]
      rw [hperform, onActive_eq env fd _ p ha' hd hp, hok] at hb
      have hrestores := undim_restores env hw hsettled hd p hp hok hb.2
      rwa [written_of_grows start (hline.trans hreport).grows] at hrestores

theorem keepsSetting_of_agrees {maxVal start : Int32} (s : State) (move : Move)
    (h : Settled maxVal start s.world) (hb : DimFlagAgrees start (step env s move).world) :
    KeepsSetting start s move := by
  cases move with
  | call =>
      intro hexited c hc hd
      obtain ⟨rest, hp⟩ : ∃ rest, s.pending = c :: rest := List.head?_eq_some_iff.mp hc
      have hstep : step env s .call = ⟨(perform env c s.world).settle, rest⟩ := by
        simp [step, hp, hexited]
      rw [hstep, agrees_settle] at hb
      exact ⟨unapplied_of_agrees env hw h hd c hb, reproducible_of_agrees env hw h hd c hb⟩
  | _ => trivial

-- What a write that has succeeded leaves, read backwards.
theorem setBrightnessPercent_eq {w w' : World} {maxVal cur pct : Int32}
    (h : setBrightnessPercent env pct w = .ok w') (hl : Level w'.sysfs maxVal cur) :
    w'.trace = w.trace ++ [.brightness cur true] := by
  obtain ⟨b', hb', hne, hmax, -, -, hcur⟩ := hl
  unfold setBrightnessPercent at h
  split at h
  · rename_i hb
    cases h
    cases hb.symm.trans hb'
  · rename_i b hb
    dsimp only at h
    split at h
    · rename_i hempty
      cases h
      cases hb.symm.trans hb'
      exact absurd hempty hne
    · cases hs : stoi (readFile b.maxBrightness) with
      | error e =>
          rw [hs] at h
          cases h
      | ok m =>
          rw [hs, hw] at h
          cases h
          obtain rfl : { b with brightness := decimal (brightnessTarget m pct).toInt } = b' := by
            simpa [Sysfs.setBrightness, hb] using hb'
          rw [readFile_decimal, stoi_decimal] at hcur
          cases hcur
          simp

theorem started_settled {maxVal cur : Int32} (w : World) (h : Started env w)
    (hl : Level w.sysfs maxVal cur) : Settled maxVal cur w := by
  have hd : w.dimmed = false := (started_spec env w h).2.2.1
  obtain ⟨path, file, sysfs, sessionId, h⟩ := h
  obtain ⟨config, -, h⟩ := (bind_ok_iff _ _ _).mp h
  dsimp only at h
  split at h
  · cases h
    refine ⟨⟨cur, hl, fun _ => rfl⟩, ⟨?_, Trace.each_nil _⟩, fun hdim => absurd hdim (by simp)⟩
    simp [written]
  · rename_i p _
    generalize hw₀ : (World.mk _ _ _ _ _ _ _ _ _ _) = w₀ at h
    have htrace : w₀.trace = [] := by rw [← hw₀]
    cases ha : apply env p w₀ with
    | error t =>
        rw [ha] at h
        cases h
    | ok w' =>
        rw [ha] at h
        cases h
        have hs := applyFiles_steady env p w₀
        have ht := setBrightnessPercent_eq env hw ha hl
        have hg := hs.grows
        rw [World.emit_trace, htrace] at hg
        have hwritten := written_applied cur hg cur
        rw [← ht] at hwritten
        have heach := restores_applied cur (Trace.each_nil _) hg cur
        rw [← ht] at heach
        refine ⟨⟨cur, hl, fun _ => by rw [hwritten]⟩, ⟨?_, heach⟩, fun hdim => ?_⟩
        · simp [hwritten, hd]
        · rw [hd] at hdim
          cases hdim

-- With the backlight readable and its writes succeeding, and nobody else writing
-- it: the flag agrees with the last write, and every undim restores what was set
-- last, in every state of a run exactly when no profile is applied to a dimmed
-- screen and it is undimmed only from levels that can be reproduced.
theorem dimFlagAgrees_throughout_iff (w : World) (h : Started env w) (maxVal cur : Int32)
    (hl : Level w.sysfs maxVal cur) (moves : List Move)
    (ho : Run.Meets (step env) LeavesBacklight ⟨w, []⟩ moves) :
    Run.Throughout (step env) (fun s => DimFlagAgrees cur s.world) ⟨w, []⟩ moves ↔
      Run.Meets (step env) (KeepsSetting cur) ⟨w, []⟩ moves :=
  Run.throughout_iff_meets_under (step env) (fun s => Settled maxVal cur s.world)
    (fun s move hs hl hk => step_settled env hw s move hs hl hk) (fun _ hs => hs.agrees)
    (fun s move hs _ hb => keepsSetting_of_agrees env hw s move hs hb) (started_settled env hw w h hl) ho

end Calls

-- The screen is dimmed, a profile is selected, and the user becomes active again.
def profileWhileDimmed : List Move :=
  helloThenIdle ++ [.call, readable 7 (bytes
    "\x7b\"type\":\"ctl\",\"cmd\":\"set_profile\",\"profile\":\"b\"\x7d\n"), .call]

theorem dimFlagAgrees_profileWhileDimmed :
    ∃ w, sampleStart = .ok w ∧ Level w.sysfs 100 100 ∧
      ¬DimFlagAgrees 100 (run .plain w profileWhileDimmed).world :=
  ⟨_, rfl, ⟨_, rfl, by decide, rfl, by decide, by decide, rfl⟩,
    fun h => absurd (h.1.mp (by decide)) (by decide)⟩

theorem reproducible_full (s : Sysfs) (cur : Int32) (h : Level s 100 cur) (p : Profile) : Reproducible s 100 p := by
  intro maxVal cur' hl
  obtain ⟨rfl, -⟩ := hl.unique h
  have hpct : ¬(100 : Int32) * 100 / 100 < 0 := by decide
  rw [remembered, if_neg hpct]
  decide

-- The same without the profile in between.
def dimAndUndim : List Move :=
  helloThenIdle ++ [.call, readable 7 (encodeActive ++ [10]), .call]

theorem dimFlagAgrees_sample :
    ∃ w, sampleStart = .ok w ∧
      Run.Throughout (step .plain) (fun s => DimFlagAgrees 100 s.world) ⟨w, []⟩ dimAndUndim := by
  refine ⟨_, rfl, (dimFlagAgrees_throughout_iff .plain (fun _ => rfl) _ (sample_started rfl) 100 100
    ⟨_, rfl, by decide, rfl, by decide, by decide, rfl⟩ dimAndUndim
    ⟨trivial, trivial, trivial, trivial, trivial, trivial, trivial⟩).mpr
    ⟨trivial, trivial, fun _ _ _ hd => absurd hd (by decide), fun _ _ _ hd => absurd hd (by decide), trivial,
      fun _ c hc _ => ⟨fun ha => ?_, fun _ p _ => ?_⟩, trivial⟩⟩
  · cases hc
    obtain ⟨msg, hd, ht, -⟩ := ha
    cases hd
    exact absurd ht (by decide)
  · exact reproducible_full _ 20 ⟨_, rfl, by decide, rfl, by decide, by decide, rfl⟩ p

end Draind.Daemon
