import Draind.Daemon.AgentTable

namespace Draind.Daemon

open Json Proto

-- Neither the config file nor the manager is touched.
structure SparesConfig (w w' : World) : Prop where
  file : w'.file = w.file
  config : w'.config = w.config
  grows : w.trace <+: w'.trace

-- Nor are the files of the cpufreq policies.
structure Spares (w w' : World) : Prop extends SparesConfig w w' where
  policies : w'.sysfs.policies = w.sysfs.policies

section Sparing

variable (env : Env)

theorem SparesConfig.trans {w w' w'' : World} (h : SparesConfig w w') (h' : SparesConfig w' w'') :
    SparesConfig w w'' :=
  ⟨h'.file.trans h.file, h'.config.trans h.config, h.grows.trans h'.grows⟩

theorem SparesConfig.bind {w : World} {x : Result} {f : World → Result} (hx : SparesConfig w x.world)
    (hf : ∀ w', SparesConfig w' (f w').world) : SparesConfig w (Result.world (x >>= f)) := by
  cases x with
  | error t => exact hx
  | ok w' => exact hx.trans (hf w')

theorem Spares.refl (w : World) : Spares w w :=
  ⟨⟨rfl, rfl, List.prefix_refl _⟩, rfl⟩

theorem Spares.trans {w w' w'' : World} (h : Spares w w') (h' : Spares w' w'') : Spares w w'' :=
  ⟨h.toSparesConfig.trans h'.toSparesConfig, h'.policies.trans h.policies⟩

theorem Spares.bind {w : World} {x : Result} {f : World → Result} (hx : Spares w x.world)
    (hf : ∀ w', Spares w' (f w').world) : Spares w (Result.world (x >>= f)) := by
  cases x with
  | error t => exact hx
  | ok w' => exact hx.trans (hf w')

theorem Emits.spares {kind : Io → Prop} {w w' : World} (h : Emits kind w w') : Spares w w' := by
  obtain ⟨out, rfl, -⟩ := h
  exact ⟨⟨rfl, rfl, out, rfl⟩, rfl⟩

theorem Spares.emit (w : World) (e : Io) : Spares w (w.emit e) :=
  ⟨⟨rfl, rfl, [e], rfl⟩, rfl⟩

-- What a change of the other fields amounts to.
theorem Spares.of_eq {w w' : World} (hf : w'.file = w.file) (hc : w'.config = w.config)
    (ht : w'.trace = w.trace) (hp : w'.sysfs.policies = w.sysfs.policies) : Spares w w' :=
  ⟨⟨hf, hc, ht ▸ List.prefix_refl _⟩, hp⟩

theorem setBrightnessPercent_spares (pct : Int32) (w : World) :
    Spares w (setBrightnessPercent env pct w).world := by
  unfold setBrightnessPercent
  cases w.sysfs.backlight with
  | none => exact .refl w
  | some b =>
      dsimp only
      split
      · exact .refl w
      · split
        · exact .refl w
        · refine ⟨⟨rfl, rfl, _, rfl⟩, ?_⟩
          rw [Result.world_ok, World.emit_sysfs]
          split
          · rfl
          · rfl

theorem setCpuFile_spares (read : CpuPolicy → Bytes) (store : CpuPolicy → Bytes → CpuPolicy)
    (value : Bytes) (w : World) : SparesConfig w (setCpuFile env read store value w) := by
  unfold setCpuFile
  split
  · exact (Spares.refl w).toSparesConfig
  · have h := (writePolicies_emits env read store value w.sysfs.policies w).spares
    exact ⟨h.file, h.config, h.grows⟩

theorem apply_spares (p : Profile) (w : World) : SparesConfig w (apply env p w).world :=
  (Spares.emit w .apply).toSparesConfig.trans ((setCpuFile_spares env _ _ _ _).trans
    ((setCpuFile_spares env _ _ _ _).trans (setBrightnessPercent_spares env _ _).toSparesConfig))

-- The profile of the start is applied before anybody is let in.
theorem setup_cases {path : Bytes} {file : Option Bytes} {sysfs : Sysfs} {sessionId : Bytes} {w : World}
    (h : setup env path file sysfs sessionId = .ok w) :
    ∃ w₀, ConfigManager.create path file = .ok w₀.config ∧ w₀.file = file ∧
      (w₀.activeProfile = none ∧ w = w₀ ∨ ∃ p, w₀.activeProfile = some p ∧ apply env p w₀ = .ok w) := by
  obtain ⟨config, hconfig, h⟩ := (bind_ok_iff _ _ _).mp h
  dsimp only at h
  generalize hw₀ : (World.mk config _ _ _ _ _ _ _ _ _) = w₀ at h
  refine ⟨w₀, by rw [hconfig, ← hw₀], by rw [← hw₀], ?_⟩
  cases hp : w₀.activeProfile with
  | none =>
      rw [hp] at h
      cases h
      exact .inl ⟨rfl, rfl⟩
  | some p =>
      rw [hp] at h
      dsimp only at h
      refine .inr ⟨p, rfl, ?_⟩
      cases ha : apply env p w₀ with
      | error t =>
          rw [ha] at h
          cases h
      | ok w' =>
          rw [ha] at h
          cases h
          rfl

theorem dim_spares (p : Profile) (w : World) : Spares w (dim env p w).world := by
  unfold dim
  dsimp only
  split
  · exact .emit w .dim
  · refine .trans ?_ (setBrightnessPercent_spares env _ _)
    exact (Spares.emit w .dim).trans (.of_eq rfl rfl rfl rfl)

theorem undim_spares (p : Profile) (w : World) : Spares w (undim env p w).world :=
  (Spares.emit w .undim).trans (.bind (setBrightnessPercent_spares env _ _) fun _ => .of_eq rfl rfl rfl rfl)

theorem onIdleDim_spares (fd : Fd) (w : World) : Spares w (onIdleDim env fd w).world := by
  have hreport : Spares w (w.emit (.report fd .idleDim)) := .emit w _
  unfold onIdleDim
  dsimp only
  split
  · exact hreport
  split
  · exact hreport
  split
  · exact hreport
  split
  · exact hreport
  · exact hreport.trans (.bind (dim_spares env _ _) fun _ => .of_eq rfl rfl rfl rfl)

theorem onActive_spares (fd : Fd) (w : World) : Spares w (onActive env fd w).world := by
  have hreport : Spares w (w.emit (.report fd .active)) := .emit w _
  unfold onActive
  dsimp only
  split
  · exact hreport
  split
  · exact hreport
  split
  · exact hreport
  · exact hreport.trans (.bind (undim_spares env _ _) fun _ => .of_eq rfl rfl rfl rfl)

theorem onHello_spares (fd : Fd) (msg : Value) (w : World) : Spares w (onHello env fd msg w) := by
  refine .trans ?_ (sendConfig_emits env fd { w with agents := w.agents.insert fd (introduce msg) }).spares
  exact .of_eq rfl rfl rfl rfl

theorem updateInhibits_spares (update : Bytes → List Bytes → List Bytes) (fd : Fd) (msg : Value)
    (w : World) : Spares w (updateInhibits env update fd msg w) := by
  unfold updateInhibits
  split
  · exact .refl w
  · refine .trans ?_ (send_emits env fd encodeAck _).spares
    exact .of_eq rfl rfl rfl rfl

theorem onChange_spares (w : World) : SparesConfig w (onChange env w).world := by
  unfold onChange
  split
  · exact (broadcastConfig_emits env w).spares.toSparesConfig
  · exact .bind (apply_spares env _ w) fun w' => (broadcastConfig_emits env w').spares.toSparesConfig

theorem onMessage_spares (fd : Fd) (msg : Value) (w : World) (h : msgType msg ≠ T_CTL) :
    Spares w (onMessage env fd msg w).world := by
  unfold onMessage
  dsimp only
  rw [if_neg h]
  split_ifs
  · exact onHello_spares env fd msg w
  · exact onIdleDim_spares env fd w
  · exact (Spares.emit w (.report fd .idleSleep)).trans (onIdleSleep_emits env fd w).spares
  · exact onActive_spares env fd w
  · exact updateInhibits_spares env _ fd msg w
  · exact updateInhibits_spares env _ fd msg w
  · exact .refl w
  · exact .refl w

theorem closeClient_spares (fd : Fd) (w : World) : Spares w (closeClient fd w) :=
  ⟨⟨rfl, rfl, _, rfl⟩, rfl⟩

theorem onDisconnect_spares (fd : Fd) (w : World) : Spares w (onDisconnect fd w) :=
  ⟨⟨rfl, rfl, _, rfl⟩, rfl⟩

theorem acceptClient_spares (fd : Fd) (w : World) : Spares w (acceptClient fd w) :=
  ⟨⟨rfl, rfl, _, rfl⟩, rfl⟩

theorem scanChanged_spares (changed : List (Bytes × Variant)) (w : World) :
    Spares w (scanChanged changed w) := by
  induction changed generalizing w with
  | nil => exact .refl w
  | cons entry rest ih =>
      obtain ⟨key, value⟩ := entry
      unfold scanChanged
      split
      · cases value with
        | other => exact .refl w
        | session id path =>
            refine .trans ?_ (ih ({ w with activeSessionId := id }.emit (.seat id)))
            exact ⟨⟨rfl, rfl, _, rfl⟩, rfl⟩
      · exact ih w

theorem handleSeatProperties_spares (m : SeatSignal) (w : World) : Spares w (handleSeatProperties m w) := by
  unfold handleSeatProperties
  split
  · exact .refl w
  · exact scanChanged_spares m.changed w

theorem Result.settle_spares (r : Result) : Spares r.world r.settle := by
  cases r with
  | ok w => exact .refl w
  | error t => exact .of_eq rfl rfl rfl rfl

end Sparing

end Draind.Daemon
