import Draind.Daemon.ConfigManager
import Draind.Shared.Battery
import Draind.Shared.Protocol
import Draind.Shared.Socket
import Mathlib.Data.List.AList
import Mathlib.Data.Finset.Erase
import Mathlib.Data.Finset.Insert

namespace Draind.Daemon

abbrev Fd := Nat

structure Connection where
  fd : Fd
  buf : Sock.LineBuffer
  isAgent : Bool
  isCtl : Bool
  deriving DecidableEq

-- inhibits is a std::set.
structure AgentState where
  sessionId : Bytes
  uid : UInt32
  inhibits : List Bytes
  deriving DecidableEq

abbrev Conns := AList fun _ : Fd => Connection
abbrev Agents := AList fun _ : Fd => AgentState

inductive HwEvent where
  | lidClose
  | lidOpen
  | powerButton
  | sleepButton
  deriving DecidableEq

-- Files as read(2) would return them, empty where they cannot be opened.
structure Backlight where
  maxBrightness : Bytes
  brightness : Bytes
  deriving DecidableEq

structure CpuPolicy where
  dir : Bytes
  scalingGovernor : Bytes
  energyPerformancePreference : Bytes
  deriving DecidableEq

-- The first entry of /sys/class/backlight, the cpufreq policies and BAT0 to BAT9.
structure Sysfs where
  backlight : Option Backlight
  policies : List CpuPolicy
  supplies : List (Option Battery.Supply)
  deriving DecidableEq

inductive Report where
  | idleDim
  | idleSleep
  | active
  deriving DecidableEq

-- What passes between the daemon and the rest of the machine, and which of the
-- functions the claims speak of were entered. The code keeps no such record.
inductive Io where
  | accepted (fd : Fd)
  | line (fd : Fd) (line : Bytes)
  | hungUp (fd : Fd)
  | seat (sessionId : Bytes)
  | button (e : HwEvent)
  | report (fd : Fd) (r : Report)
  | sent (fd : Fd) (msg : Bytes) (ok : Bool)
  | swallowed (fd : Fd) (data : Bytes)
  | close (fd : Fd)
  | apply
  | dim
  | undim
  | brightness (target : Int32) (ok : Bool)
  | policy (dir : Bytes) (value : Bytes) (ok : Bool)
  | saved (text : Bytes)
  | suspend (action : Bytes)
  | system (cmd : Bytes)
  deriving DecidableEq

-- The sysfs files the daemon writes: the backlight's, or one of a policy.
inductive SysfsFile where
  | brightness
  | policy (dir : Bytes)

-- recv in the wait for acks: data, or n <= 0.
inductive Recv where
  | data (chunk : Bytes)
  | failed

-- What the kernel and the library decide, as a function of everything that has
-- happened. A run is for one such choice, and theorems are for all of them.
structure Env where
  listenFd : Fd
  hwFd : Fd
  busFd : Fd
  -- Whether write_line on an open descriptor writes the whole line.
  writable : List Io → Fd → Bytes → Bool
  sysfsWritable : List Io → SysfsFile → Bool
  -- How much of the text reaches the config file, none when it does not open.
  saved : List Io → Option Nat
  -- The order in which the unordered maps are iterated.
  agentOrder : List Io → List (Σ _ : Fd, AgentState) → List (Σ _ : Fd, AgentState)
  agentOrder_perm : ∀ trace entries, (agentOrder trace entries).Perm entries
  connOrder : List Io → List (Σ _ : Fd, Connection) → List (Σ _ : Fd, Connection)
  connOrder_perm : ∀ trace entries, (connOrder trace entries).Perm entries
  -- The rounds of poll before the deadline, each with what recv returns.
  rounds : List Io → List (List (Fd × Recv))

-- Daemon and its Impl, then the files it reads and writes. userBrightness is
-- PowerManager's, activeSessionId SessionTracker's and conns Server's. exited
-- is set when an exception has reached Daemon::run.
structure World where
  config : ConfigManager
  userBrightness : Int32
  activeSessionId : Bytes
  conns : Conns
  agents : Agents
  dimmed : Bool
  file : Option Bytes
  sysfs : Sysfs
  trace : List Io
  exited : Bool

-- An exception on its way up, with the state it leaves behind.
structure Thrown where
  exn : Exn
  world : World

abbrev Result := Except Thrown World

-- The state in which a call ends, by return or by an exception.
def Result.world : Result → World
  | .ok w => w
  | .error t => t.world

-- Daemon::run catches every exception and ends the process.
def Result.settle : Result → World
  | .ok w => w
  | .error t => { t.world with exited := true }

def World.emit (w : World) (e : Io) : World :=
  { w with trace := w.trace ++ [e] }

@[simp] theorem World.emit_trace (w : World) (e : Io) : (w.emit e).trace = w.trace ++ [e] := rfl
@[simp] theorem World.emit_conns (w : World) (e : Io) : (w.emit e).conns = w.conns := rfl
@[simp] theorem World.emit_agents (w : World) (e : Io) : (w.emit e).agents = w.agents := rfl
@[simp] theorem World.emit_session (w : World) (e : Io) :
    (w.emit e).activeSessionId = w.activeSessionId := rfl
@[simp] theorem World.emit_dimmed (w : World) (e : Io) : (w.emit e).dimmed = w.dimmed := rfl
@[simp] theorem World.emit_exited (w : World) (e : Io) : (w.emit e).exited = w.exited := rfl
@[simp] theorem World.emit_config (w : World) (e : Io) : (w.emit e).config = w.config := rfl
@[simp] theorem World.emit_sysfs (w : World) (e : Io) : (w.emit e).sysfs = w.sysfs := rfl
@[simp] theorem World.emit_power (w : World) (e : Io) :
    (w.emit e).userBrightness = w.userBrightness := rfl

-- Several events, in this order.
def World.extend (w : World) (out : List Io) : World :=
  { w with trace := w.trace ++ out }

def World.activeProfile (w : World) : Option Profile :=
  w.config.activeProfile

-- SessionTracker::is_active
def World.isActive (w : World) (sessionId : Bytes) : Bool :=
  sessionId ≠ [] && sessionId = w.activeSessionId

@[simp] theorem World.emit_isActive (w : World) (e : Io) (sessionId : Bytes) :
    (w.emit e).isActive sessionId = w.isActive sessionId := rfl

end Draind.Daemon
