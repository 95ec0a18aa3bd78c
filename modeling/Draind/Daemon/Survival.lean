import Draind.Daemon.Backlight

namespace Draind.Daemon

open Json Proto

-- The backlight's files, where they are not empty, hold ints.
def Readable (s : Sysfs) : Prop :=
  ∀ b, s.backlight = some b →
    (readFile b.maxBrightness = [] ∨ ∃ n, stoi (readFile b.maxBrightness) = .ok n) ∧
      (readFile b.brightness = [] ∨ ∃ n, stoi (readFile b.brightness) = .ok n)

-- Whoever changes sysfs leaves it readable. The config file may become anything.
def LeavesReadable (_ : State) : Move → Prop
  | .outside _ sysfs => Readable sysfs
  | _ => True

structure Alive (w : World) : Prop where
  running : w.exited = false
  readable : Readable w.sysfs

-- No exception escapes, and the daemon is alive.
def Returns (r : Result) : Prop :=
  ∃ w, r = .ok w ∧ Alive w

section Survival

theorem Returns.ok {w : World} (h : Alive w) : Returns (.ok w) :=
  ⟨w, rfl, h⟩

theorem Returns.bind {r : Result} {f : World → Result} (h : Returns r)
    (hf : ∀ w, Alive w → Returns (f w)) : Returns (r >>= f) := by
  obtain ⟨w, rfl, hw⟩ := h
  exact hf w hw

theorem Emits.alive {kind : Io → Prop} {w w' : World} (h : Emits kind w w') (hw : Alive w) : Alive w' := by
  obtain ⟨out, rfl, -⟩ := h
  exact ⟨hw.running, hw.readable⟩

-- Readability depends on the backlight only.
theorem Alive.of_backlight {w w' : World} (h : Alive w) (he : w'.exited = w.exited)
    (hb : w'.sysfs.backlight = w.sysfs.backlight) : Alive w' :=
  ⟨he.trans h.running, fun b hm => h.readable b (hb ▸ hm)⟩

-- What the daemon writes it can read again.
theorem Readable.setBrightness {s : Sysfs} (h : Readable s) (target : Int32) :
    Readable (s.setBrightness target) := by
  intro b hb
  obtain ⟨b, hs, rfl⟩ := Option.map_eq_some_iff.mp hb
  refine ⟨(h b hs).1, .inr ⟨target, ?_⟩⟩
  rw [readFile_decimal, stoi_decimal]

theorem getBrightnessPercent_returns {s : Sysfs} (h : Readable s) :
    ∃ pct, getBrightnessPercent s = .ok pct := by
  unfold getBrightnessPercent
  cases hb : s.backlight with
  | none => exact ⟨_, rfl⟩
  | some b =>
      obtain ⟨hmax, hcur⟩ := h b hb
      dsimp only
      split
      · exact ⟨_, rfl⟩
      · rename_i hne
        obtain ⟨maxVal, hmax⟩ := hmax.resolve_left fun he => hne (.inr he)
        obtain ⟨cur, hcur⟩ := hcur.resolve_left fun he => hne (.inl he)
        simp only [hmax, hcur, bind, Except.bind]
        split <;> exact ⟨_, rfl⟩

variable (env : Env)

theorem setBrightnessPercent_returns (pct : Int32) {w : World} (h : Alive w) :
    Returns (setBrightnessPercent env pct w) := by
  unfold setBrightnessPercent
  cases hb : w.sysfs.backlight with
  | none => exact .ok h
  | some b =>
      dsimp only
      split
      · exact .ok h
      · rename_i hne
        obtain ⟨maxVal, hmax⟩ := (h.readable b hb).1.resolve_left hne
        rw [hmax]
        refine .ok ⟨h.running, ?_⟩
        rw [World.emit_sysfs]
        split
        · exact h.readable.setBrightness _
        · exact h.readable

theorem setCpuFile_alive (read : CpuPolicy → Bytes) (store : CpuPolicy → Bytes → CpuPolicy)
    (value : Bytes) {w : World} (h : Alive w) : Alive (setCpuFile env read store value w) :=
  h.of_backlight (setCpuFile_keeps env read store value w).exited
    (setCpuFile_steady env read store value w).backlight

theorem apply_returns (p : Profile) {w : World} (h : Alive w) : Returns (apply env p w) := by
  have happly : Alive (w.emit .apply) := ⟨h.running, h.readable⟩
  exact setBrightnessPercent_returns env _ (setCpuFile_alive env _ _ _ (setCpuFile_alive env _ _ _ happly))

theorem dim_returns (p : Profile) {w : World} (h : Alive w) : Returns (dim env p w) := by
  obtain ⟨pct, hpct⟩ := getBrightnessPercent_returns h.readable
  unfold dim
  dsimp only
  rw [World.emit_sysfs, hpct]
  exact setBrightnessPercent_returns env _ ⟨h.running, h.readable⟩

theorem undim_returns (p : Profile) {w : World} (h : Alive w) : Returns (undim env p w) := by
  have hundim : Alive (w.emit .undim) := ⟨h.running, h.readable⟩
  unfold undim
  exact (setBrightnessPercent_returns env _ hundim).bind fun _ h' => .ok ⟨h'.running, h'.readable⟩

theorem onChange_returns {w : World} (h : Alive w) : Returns (onChange env w) := by
  unfold onChange
  split
  · exact .ok ((broadcastConfig_emits env w).alive h)
  · exact (apply_returns env _ h).bind fun w' h' => .ok ((broadcastConfig_emits env w').alive h')

theorem persistActive_alive {w : World} (h : Alive w) : Alive (persistActive env w) := by
  unfold persistActive
  split
  · exact h
  · split
    · exact h
    · exact ⟨h.running, h.readable⟩

theorem reply_returns (fd : Fd) (entries : List (Bytes × Value)) {w : World} (h : Alive w) :
    Returns (.ok (reply env fd entries w)) :=
  .ok ((reply_emits env fd entries w).alive h)

-- The file is read by set_profile and by reload_config. What the parser throws at
-- one is caught in persist_active, at the other in on_ctl.
theorem onCtl_returns (fd : Fd) (msg : Value) {w : World} (h : Alive w) : Returns (onCtl env fd msg w) := by
  unfold onCtl
  dsimp only
  split_ifs
  · exact reply_returns env fd _ h
  · rcases setActive_cases env (msg.str (bytes "profile") []) w with ⟨-, he⟩ | ⟨config, -, he⟩
    · rw [he]
      exact reply_returns env fd _ h
    · obtain ⟨w', hw', h'⟩ := onChange_returns env
        (persistActive_alive env (w := { w with config := config }) ⟨h.running, h.readable⟩)
      rw [he, hw']
      exact reply_returns env fd _ h'
  · exact reply_returns env fd _ h
  · exact reply_returns env fd _ ((sendLockToActiveAgent_emits env w).alive h)
  · exact reply_returns env fd _ h
  · unfold reloadConfig
    cases w.config.reload w.file with
    | error e => exact reply_returns env fd _ h
    | ok config =>
        obtain ⟨w', hw', h'⟩ := onChange_returns env (w := { w with config := config })
          ⟨h.running, h.readable⟩
        dsimp only
        rw [hw']
        exact reply_returns env fd _ h'
  · exact reply_returns env fd _ h
  · exact reply_returns env fd _ h

theorem onIdleDim_returns (fd : Fd) {w : World} (h : Alive w) : Returns (onIdleDim env fd w) := by
  have hreport : Alive (w.emit (.report fd .idleDim)) := ⟨h.running, h.readable⟩
  unfold onIdleDim
  dsimp only
  split
  · exact .ok hreport
  split
  · exact .ok hreport
  split
  · exact .ok hreport
  · split
    · exact .ok hreport
    · exact (dim_returns env _ hreport).bind fun _ h' => .ok ⟨h'.running, h'.readable⟩

theorem onActive_returns (fd : Fd) {w : World} (h : Alive w) : Returns (onActive env fd w) := by
  have hreport : Alive (w.emit (.report fd .active)) := ⟨h.running, h.readable⟩
  unfold onActive
  dsimp only
  split
  · exact .ok hreport
  split
  · exact .ok hreport
  · split
    · exact .ok hreport
    · exact (undim_returns env _ hreport).bind fun _ h' => .ok ⟨h'.running, h'.readable⟩

theorem updateInhibits_alive (update : Bytes → List Bytes → List Bytes) (fd : Fd) (msg : Value)
    {w : World} (h : Alive w) : Alive (updateInhibits env update fd msg w) := by
  unfold updateInhibits
  split
  · exact h
  · exact (send_emits env fd _ _).alive ⟨h.running, h.readable⟩

theorem onMessage_returns (fd : Fd) (msg : Value) {w : World} (h : Alive w) :
    Returns (onMessage env fd msg w) := by
  unfold onMessage
  dsimp only
  split
  · exact .ok ((sendConfig_emits env fd _).alive ⟨h.running, h.readable⟩)
  split
  · exact onCtl_returns env fd msg h
  split
  · exact .ok h
  split
  · exact onIdleDim_returns env fd h
  split
  · exact .ok ((onIdleSleep_emits env fd w).alive ⟨h.running, h.readable⟩)
  split
  · exact onActive_returns env fd h
  split
  · exact .ok (updateInhibits_alive env _ fd msg h)
  split
  · exact .ok (updateInhibits_alive env _ fd msg h)
  · exact .ok h

theorem closeClient_alive (fd : Fd) {w : World} (h : Alive w) : Alive (closeClient fd w) :=
  ⟨h.running, h.readable⟩

theorem onLine_returns (fd : Fd) (line : Bytes) {w : World} (h : Alive w) :
    Returns (onLine env fd line w) := by
  unfold onLine
  dsimp only
  split
  · exact .ok (closeClient_alive fd ⟨h.running, h.readable⟩)
  · exact onMessage_returns env fd _ ⟨h.running, h.readable⟩

theorem perform_returns (c : Call) {w : World} (h : Alive w) : Returns (perform env c w) := by
  cases c with
  | line fd line => exact onLine_returns env fd line h
  | hangUp fd => exact .ok (closeClient_alive fd ⟨h.running, h.readable⟩)
  | button e => exact .ok ((onEvent_emits env e w).alive ⟨h.running, h.readable⟩)

theorem step_alive (s : State) (move : Move) (h : Alive s.world) (hm : LeavesReadable s move) :
    Alive (step env s move).world := by
  have hstep := step_stepped env s move
  generalize step env s move = s' at hstep ⊢
  cases hstep with
  | idle => exact h
  | signal m =>
      have hs := handleSeatProperties_seated m s.world
      exact h.of_backlight hs.exited (by rw [hs.sysfs])
  | accept r fd => exact ⟨h.running, h.readable⟩
  | feed r c => exact ⟨h.running, h.readable⟩
  | input r => exact h
  | call c rest =>
      obtain ⟨w', hw', h'⟩ := perform_returns env c h
      rw [hw']
      exact h'
  | outside file sysfs => exact ⟨h.running, hm⟩

-- In no state of a run does an exception escape from on_line, whatever the line and
-- whatever the config file holds.
theorem onLine_survives (w : World) (h : Started env w) (hr : Readable w.sysfs) (moves : List Move)
    (hm : Run.Meets (step env) LeavesReadable ⟨w, []⟩ moves) :
    (run env w moves).world.exited = false ∧
      ∀ fd line file, ∃ w', onLine env fd line { (run env w moves).world with file := file } = .ok w' := by
  have hstart : Alive w := ⟨(started_spec env w h).2.2.2.1, hr⟩
  have halive : Alive (run env w moves).world :=
    Run.invariant (step env) (fun s => Alive s.world) (step_alive env) hstart hm
  refine ⟨halive.running, fun fd line file => ?_⟩
  obtain ⟨w', hw', -⟩ := onLine_returns env fd line
    (w := { (run env w moves).world with file := file }) ⟨halive.running, halive.readable⟩
  exact ⟨w', hw'⟩

end Survival

-- A command to reload the config, from a connection that has not said hello, and
-- no config file.
theorem onLine_survives_sample :
    ∃ w, sampleStart = .ok w ∧
      ((run .plain w [accept 7, .outside none w.sysfs]).world.exited = false ∧
        ∀ fd line file, ∃ w', onLine .plain fd line
          { (run .plain w [accept 7, .outside none w.sysfs]).world with file := file } = .ok w') := by
  have hreadable : ∀ w, sampleStart = .ok w → Readable w.sysfs := by
    intro w hw b hb
    cases hw
    cases hb
    exact ⟨.inr ⟨100, rfl⟩, .inr ⟨100, rfl⟩⟩
  exact ⟨_, rfl, onLine_survives .plain _ (sample_started rfl) (hreadable _ rfl) _
    ⟨trivial, hreadable _ rfl, trivial⟩⟩

end Draind.Daemon
