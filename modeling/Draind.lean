import Draind.Lib.Run
import Draind.Lib.Trace
import Draind.Json.RoundTrip
import Draind.Shared.Delivery
import Draind.Daemon.AgentTable
import Draind.Daemon.Backlight
import Draind.Daemon.ActiveProfile
import Draind.Daemon.LockRouting
import Draind.Daemon.DisabledActions
import Draind.Daemon.Iteration
import Draind.Daemon.EndOfStream
import Draind.Daemon.Persist
import Draind.Daemon.PushedConfig
import Draind.Daemon.Malformed
import Draind.Agent.ExactPlaying
import Draind.Agent.Timeouts
import Draind.Media.Inhibit
import Draind.Agent.ActiveReport
import Draind.Agent.Loop
import Draind.Daemon.Brightness
import Draind.Daemon.Survival
import Draind.Json.Printers
import Draind.Daemon.JsonLines
import Draind.Shared.Estimates
import Draind.Agent.WakeUp
import Draind.Agent.Thresholds
import Draind.Json.Pointer
import Draind.Daemon.Acks
import Draind.Ctl.Session
import Draind.Agent.WaylandIdleMonitor
import Draind.Agent.Orders
import Draind.Daemon.Refinement
import Draind.Daemon.Restart
import Draind.Daemon.CpuPolicies
import Draind.Media.Reports
