import Draind.Daemon.ActiveProfile
import Draind.Daemon.Steps
import Draind.Shared.Message

namespace Draind.Agent

open Json Proto

inductive Method where
  | init
  | setTimeouts
  deriving DecidableEq

-- A call of IIdleMonitor::init or set_timeouts.
structure MonitorCall where
  method : Method
  dimMs : Int32
  sleepMs : Int32
  deriving DecidableEq

-- What on_daemon_line does. Of run_lock_cmd and run_before_sleep_cmd only the entry.
inductive Effect where
  | monitor (call : MonitorCall)
  | lockCmd
  | beforeSleepCmd
  | send (msg : Bytes)
  deriving DecidableEq

-- What init of the backends returns. Without HAVE_WAYLAND there is only one.
structure Backends where
  wayland : Option Bool
  input : Bool

-- Whether there is an idle monitor afterwards, and the calls made.
def setupIdleMonitor (b : Backends) (dimMs sleepMs : Int32) : Bool × List Effect :=
  let init := Effect.monitor ⟨.init, dimMs, sleepMs⟩
  match b.wayland with
  | some true => (true, [init])
  | some false => (b.input, [init, init])
  | none => (b.input, [init])

-- The products wrap. The source leaves their overflow undefined.
def onDaemonLine (b : Backends) (idle : Bool) (line : Bytes) : Bool × List Effect :=
  match decode line with
  | .error _ => (idle, [])
  | .ok msg =>
      let type := msgType msg
      if type = T_CONFIG then
        let dim := (msg.num (bytes "dim_timeout") 0).toInt32 * 1000
        let sleep := (msg.num (bytes "sleep_timeout") 0).toInt32 * 1000
        if idle then (true, [.monitor ⟨.setTimeouts, dim, sleep⟩]) else setupIdleMonitor b dim sleep
      else if type = T_LOCK then (idle, [.lockCmd])
      else if type = T_PRE_SLEEP then (idle, [.beforeSleepCmd, .send encodeAck])
      else (idle, [])

-- The seconds of the file, as load_config keeps them and as the idle monitor gets
-- them in milliseconds.
structure Survives (seconds : Int64) (loaded ms : Int32) : Prop where
  positive : 0 < seconds.toInt → ms.toInt = 1000 * seconds.toInt
  disabled : seconds.toInt ≤ 0 → ms.toInt ≤ 0
  untruncated : loaded.toInt = seconds.toInt
  unwrapped : ms.toInt = 1000 * loaded.toInt

section Timeouts

theorem survives_iff (seconds : Int64) :
    Survives seconds seconds.toInt32 (seconds.toInt32 * 1000) ↔
      -2147483 ≤ seconds.toInt ∧ seconds.toInt ≤ 2147483 := by
  have hlo := (seconds.toInt32 * 1000).le_toInt
  have hhi := (seconds.toInt32 * 1000).toInt_lt
  constructor
  · rintro ⟨-, -, hcast, hproduct⟩
    omega
  · rintro ⟨hmin, hmax⟩
    have hcast : seconds.toInt32.toInt = seconds.toInt := by
      rw [Int64.toInt_toInt32]
      exact Int.bmod_eq_of_le (by omega) (by omega)
    have hproduct : (seconds.toInt32 * 1000).toInt = 1000 * seconds.toInt32.toInt := by
      rw [Int32.toInt_mul, hcast, show (1000 : Int32).toInt = 1000 from rfl,
        Int.bmod_eq_of_le (by omega) (by omega)]
      omega
    exact ⟨fun _ => by omega, fun _ => by omega, hcast, hproduct⟩

theorem num_of_get {v : Value} {key : Bytes} {n : Int64} (h : v.get key = .int n) (default : Int64) :
    v.num key default = n := by
  unfold Value.num Value.has
  cases hl : v.getObject.lookup key with
  | none => simp [Value.get, hl] at h
  | some field =>
      rw [h]
      rfl

theorem loadProfile_timeouts {pv : Value} {p : Profile} (h : loadProfile pv = .ok p) :
    p.dimTimeout = (pv.num (bytes "dim_timeout") 300).toInt32 ∧
      p.sleepTimeout = (pv.num (bytes "sleep_timeout") 600).toInt32 := by
  simp only [loadProfile] at h
  split at h
  · cases h
  · cases h
    exact ⟨rfl, rfl⟩

theorem setupIdleMonitor_calls (b : Backends) (dimMs sleepMs : Int32) :
    (∃ call, .monitor call ∈ (setupIdleMonitor b dimMs sleepMs).2) ∧
      ∀ call, .monitor call ∈ (setupIdleMonitor b dimMs sleepMs).2 →
        call.dimMs = dimMs ∧ call.sleepMs = sleepMs := by
  unfold setupIdleMonitor
  dsimp only
  split
  all_goals
    refine ⟨⟨⟨.init, dimMs, sleepMs⟩, by simp⟩, fun call hc => ?_⟩
    obtain rfl : call = ⟨.init, dimMs, sleepMs⟩ := by simpa using hc
    exact ⟨rfl, rfl⟩

theorem onDaemonLine_config (b : Backends) (idle : Bool) (dimTimeout sleepTimeout : Int32) :
    (∃ call, .monitor call ∈ (onDaemonLine b idle (encodeConfig dimTimeout sleepTimeout)).2) ∧
      ∀ call, .monitor call ∈ (onDaemonLine b idle (encodeConfig dimTimeout sleepTimeout)).2 →
        call.dimMs = dimTimeout * 1000 ∧ call.sleepMs = sleepTimeout * 1000 := by
  obtain ⟨msg, hd, ht, hdim, hsleep⟩ := decode_config dimTimeout sleepTimeout
  simp only [onDaemonLine, hd, ht, hdim, hsleep, if_true, Int32.toInt32_toInt64]
  cases idle with
  | false => exact setupIdleMonitor_calls b _ _
  | true =>
      refine ⟨⟨_, List.mem_singleton.mpr rfl⟩, fun call hc => ?_⟩
      obtain rfl : call = ⟨.setTimeouts, dimTimeout * 1000, sleepTimeout * 1000⟩ := by simpa using hc
      exact ⟨rfl, rfl⟩

theorem sendConfig_trace (env : Daemon.Env) (fd : Daemon.Fd) (w : Daemon.World) (p : Profile)
    (hp : w.activeProfile = some p) :
    ∃ ok, (Daemon.sendConfig env fd w).trace =
      w.trace ++ [.sent fd (encodeConfig p.dimTimeout p.sleepTimeout) ok] := by
  simp [Daemon.sendConfig, Daemon.send, Daemon.writeLine, hp]

-- The timeouts written for a profile reach the idle monitor as they are exactly
-- when the milliseconds fit an int.
theorem timeouts_survive_iff (path text : Bytes) (c : Config)
    (hc : loadConfig path (some text) = .ok c) (root : Value) (hr : parse text = .ok root)
    (pv : Value) (p : Profile) (hp : (pv, p) ∈ (root.get (bytes "profiles")).getArray.zip c.profiles)
    (dim sleep : Int64) (hdim : pv.get (bytes "dim_timeout") = .int dim)
    (hsleep : pv.get (bytes "sleep_timeout") = .int sleep) (env : Daemon.Env) (fd : Daemon.Fd)
    (w : Daemon.World) (hw : w.activeProfile = some p) (b : Backends) (idle : Bool) :
    (∃ line ok, (Daemon.sendConfig env fd w).trace = w.trace ++ [.sent fd line ok] ∧
      ∀ call, .monitor call ∈ (onDaemonLine b idle line).2 →
        Survives dim p.dimTimeout call.dimMs ∧ Survives sleep p.sleepTimeout call.sleepMs) ↔
      (-2147483 ≤ dim.toInt ∧ dim.toInt ≤ 2147483) ∧
        (-2147483 ≤ sleep.toInt ∧ sleep.toInt ≤ 2147483) := by
  obtain ⟨text', root', ht, hr', hload, -⟩ := Daemon.ConfigManager.loadConfig_ok path (some text) c hc
  cases ht
  cases hr.symm.trans hr'
  obtain ⟨hpd, hps⟩ := loadProfile_timeouts (List.forall₂_zip hload hp)
  rw [num_of_get hdim] at hpd
  rw [num_of_get hsleep] at hps
  obtain ⟨sent, htrace⟩ := sendConfig_trace env fd w p hw
  obtain ⟨⟨call, hcall⟩, hcalls⟩ := onDaemonLine_config b idle p.dimTimeout p.sleepTimeout
  rw [← survives_iff dim, ← survives_iff sleep]
  constructor
  · rintro ⟨line, ok, ho, hall⟩
    obtain ⟨rfl, -⟩ : encodeConfig p.dimTimeout p.sleepTimeout = line ∧ sent = ok := by
      simpa using htrace.symm.trans ho
    have hboth := hall call hcall
    rw [(hcalls call hcall).1, (hcalls call hcall).2, hpd, hps] at hboth
    exact hboth
  · rintro ⟨hd, hs⟩
    refine ⟨_, sent, htrace, fun call hm => ?_⟩
    rw [(hcalls call hm).1, (hcalls call hm).2, hpd, hps]
    exact ⟨hd, hs⟩

end Timeouts

-- Seven weeks before the machine sleeps.
def weeksConfig : Bytes :=
  bytes "\x7b\"profiles\":[\x7b\"name\":\"a\",\"dim_timeout\":300,\"sleep_timeout\":4294968\x7d]\x7d"

-- They become 704 milliseconds.
theorem timeouts_weeks :
    ∃ w root pv p, Daemon.setup .plain [] (some weeksConfig) ⟨none, [], []⟩ [] = .ok w ∧
      w.activeProfile = some p ∧ parse weeksConfig = .ok root ∧
      (pv, p) ∈ (root.get (bytes "profiles")).getArray.zip w.config.config.profiles ∧
      pv.get (bytes "dim_timeout") = .int 300 ∧ pv.get (bytes "sleep_timeout") = .int 4294968 ∧
      ¬∃ line ok, (Daemon.sendConfig .plain 7 w).trace = w.trace ++ [.sent 7 line ok] ∧
        ∀ call, .monitor call ∈ (onDaemonLine ⟨none, true⟩ true line).2 →
          Survives 300 p.dimTimeout call.dimMs ∧ Survives 4294968 p.sleepTimeout call.sleepMs := by
  refine ⟨_, _, _, _, rfl, rfl, rfl, .head _, rfl, rfl, ?_⟩
  rintro ⟨line, ok, ho, hall⟩
  have hsent : [Daemon.Io.sent 7 (encodeConfig 300 4294968) false] = [.sent 7 line ok] :=
    List.append_cancel_left ho
  obtain ⟨rfl, -⟩ : encodeConfig 300 4294968 = line ∧ false = ok := by simpa using hsent
  have hsleep := (hall ⟨.setTimeouts, 300000, 704⟩ (by decide)).2.positive (by decide)
  exact absurd hsleep (by decide)

theorem timeouts_survive_weeks :
    ∃ w p, Daemon.setup .plain [] (some weeksConfig) ⟨none, [], []⟩ [] = .ok w ∧
      w.activeProfile = some p ∧
      ((∃ line ok, (Daemon.sendConfig .plain 7 w).trace = w.trace ++ [.sent 7 line ok] ∧
        ∀ call, .monitor call ∈ (onDaemonLine ⟨none, true⟩ true line).2 →
          Survives 300 p.dimTimeout call.dimMs ∧ Survives 4294968 p.sleepTimeout call.sleepMs) ↔
        (-2147483 ≤ (300 : Int64).toInt ∧ (300 : Int64).toInt ≤ 2147483) ∧
          (-2147483 ≤ (4294968 : Int64).toInt ∧ (4294968 : Int64).toInt ≤ 2147483)) :=
  ⟨_, _, rfl, rfl, timeouts_survive_iff [] weeksConfig _ rfl _ rfl _ _ (.head _) 300 4294968 rfl rfl
    .plain 7 _ rfl ⟨none, true⟩ true⟩

end Draind.Agent
