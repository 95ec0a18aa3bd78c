import Draind.Daemon.PowerManager
import Draind.Daemon.Server

namespace Draind.Daemon

open Json Proto

def isActiveAgent (fd : Fd) (w : World) : Bool :=
  match w.agents.lookup fd with
  | none => false
  | some agent => w.isActive agent.sessionId

def hasAnyInhibit (w : World) : Bool :=
  w.agents.entries.any fun a => a.2.inhibits ≠ []

def sendConfig (env : Env) (fd : Fd) (w : World) : World :=
  let p := w.activeProfile
  let dim := (p.map Profile.dimTimeout).getD 0
  let sleep := (p.map Profile.sleepTimeout).getD 0
  send env fd (encodeConfig dim sleep) w

def broadcastConfig (env : Env) (w : World) : World :=
  (env.agentOrder w.trace w.agents.entries).foldl (fun w a => sendConfig env a.1 w) w

-- The first agent of the active session, else the only agent there is.
def sendLockToActiveAgent (env : Env) (w : World) : World :=
  let agents := env.agentOrder w.trace w.agents.entries
  match agents.find? fun a => w.isActive a.2.sessionId with
  | some a => send env a.1 encodeLock w
  | none =>
      match agents with
      | [a] => send env a.1 encodeLock w
      | _ => w

-- The command an action string stands for, none where run_hw_action runs nothing.
def hwCommand (action : Bytes) : Option Bytes :=
  if action = [] ∨ action = bytes "none" ∨ action = bytes "ignore" then none
  else if action = bytes "suspend" then some (bytes "systemctl suspend")
  else if action = bytes "hibernate" then some (bytes "systemctl hibernate")
  else if action = bytes "hybrid-sleep" then some (bytes "systemctl hybrid-sleep")
  else if action = bytes "poweroff" then some (bytes "systemctl poweroff")
  else none

def runHwAction (action : Bytes) (w : World) : World :=
  match hwCommand action with
  | none => w
  | some cmd => w.emit (.system cmd)

def doSuspend (env : Env) (action : Bytes) (w : World) : World :=
  let w := w.emit (.suspend action)
  let w := sendLockToActiveAgent env w
  let w := broadcastAndWaitAcks env encodePreSleep w
  runHwAction action w

-- The callback given to ConfigManager::on_change.
def onChange (env : Env) (w : World) : Result :=
  match w.activeProfile with
  | none => .ok (broadcastConfig env w)
  | some p => do
      let w ← apply env p w
      .ok (broadcastConfig env w)

def reloadConfig (env : Env) (w : World) : Result :=
  match w.config.reload w.file with
  | .error e => .error ⟨e, w⟩
  | .ok config => onChange env { w with config := config }

def persistActive (env : Env) (w : World) : World :=
  match w.config.persistText w.file with
  | none => w
  | some text =>
      match env.saved w.trace with
      | none => w
      | some n => { w with file := some (text.take n) }.emit (.saved (text.take n))

-- ConfigManager::set_active. The result says whether the name was found.
def setActive (env : Env) (name : Bytes) (w : World) : Except Thrown (Bool × World) :=
  match w.config.select name with
  | none => .ok (false, w)
  | some config => do
      let w ← onChange env (persistActive env { w with config := config })
      .ok (true, w)

def onHello (env : Env) (fd : Fd) (msg : Value) (w : World) : World :=
  let s : AgentState :=
    { sessionId := msg.str (bytes "session_id") []
      uid := (msg.num (bytes "uid") 0).toUInt64.toUInt32
      inhibits := [] }
  sendConfig env fd { w with agents := w.agents.insert fd s }

def onIdleDim (env : Env) (fd : Fd) (w : World) : Result :=
  let w := w.emit (.report fd .idleDim)
  if ¬isActiveAgent fd w then .ok w
  else if hasAnyInhibit w then .ok w
  else if w.dimmed then .ok w
  else
    match w.activeProfile with
    | none => .ok w
    | some p => do
        let w ← dim env p w
        .ok { w with dimmed := true }

def onIdleSleep (env : Env) (fd : Fd) (w : World) : World :=
  let w := w.emit (.report fd .idleSleep)
  if ¬isActiveAgent fd w then w
  else if hasAnyInhibit w then w
  else
    match w.activeProfile with
    | none => w
    | some p => if p.sleepTimeout ≤ 0 then w else doSuspend env (bytes "suspend") w

def onActive (env : Env) (fd : Fd) (w : World) : Result :=
  let w := w.emit (.report fd .active)
  if ¬isActiveAgent fd w then .ok w
  else if ¬w.dimmed then .ok w
  else
    match w.activeProfile with
    | none => .ok w
    | some p => do
        let w ← undim env p w
        .ok { w with dimmed := false }

-- on_inhibit and on_uninhibit differ in what they do to the set of reasons.
def updateInhibits (env : Env) (update : Bytes → List Bytes → List Bytes) (fd : Fd) (msg : Value)
    (w : World) : World :=
  match w.agents.lookup fd with
  | none => w
  | some agent =>
      let agent := { agent with inhibits := update (msg.str (bytes "reason") []) agent.inhibits }
      send env fd encodeAck { w with agents := w.agents.insert fd agent }

def onInhibit (env : Env) (fd : Fd) (msg : Value) (w : World) : World :=
  updateInhibits env SortedSet.insert fd msg w

def onUninhibit (env : Env) (fd : Fd) (msg : Value) (w : World) : World :=
  updateInhibits env SortedSet.erase fd msg w

-- A json::Value built field by field, in this order.
def fields (entries : List (Bytes × Value)) : Value :=
  entries.foldl (fun r e => r.set e.1 e.2) .null

def ok (value : Bool) : Bytes × Value :=
  (bytes "ok", .bool value)

def reply (env : Env) (fd : Fd) (entries : List (Bytes × Value)) (w : World) : World :=
  send env fd (encodeCtlReply (fields entries)) w

def batteryFields (bat : Battery.BatteryInfo) : List (Bytes × Value) :=
  [ok true, (bytes "present", .bool bat.present),
    (bytes "status", .string (Battery.statusString bat.status))] ++
  if bat.present then
    [(bytes "percent", .int bat.percent.toInt64)] ++
    (bat.timeToEmptyMin.toList.map fun t => (bytes "time_to_empty_min", .int t.toInt64)) ++
    (bat.timeToFullMin.toList.map fun t => (bytes "time_to_full_min", .int t.toInt64))
  else []

def inhibitors (agents : List (Σ _ : Fd, AgentState)) : List Value :=
  agents.flatMap fun a => a.2.inhibits.map fun reason =>
    .string (if a.2.sessionId = [] then reason else a.2.sessionId ++ bytes ": " ++ reason)

def onCtl (env : Env) (fd : Fd) (msg : Value) (w : World) : Result :=
  let cmd := msg.str (bytes "cmd") []
  if cmd = bytes "status" then
    let bat := Battery.read w.sysfs.supplies
    .ok (reply env fd
      [ok true, (bytes "active_profile", .string w.config.active),
        (bytes "dimmed", .bool w.dimmed), (bytes "active_session", .string w.activeSessionId),
        (bytes "battery_status", .string (Battery.statusString bat.status)),
        (bytes "battery_percent", .int bat.percent.toInt64)] w)
  else if cmd = bytes "set_profile" then do
    let name := msg.str (bytes "profile") []
    let (found, w) ← setActive env name w
    .ok (reply env fd
      (ok found :: if found then [] else
        [(bytes "error", .string (bytes "profile not found: " ++ name))]) w)
  else if cmd = bytes "list_profiles" then
    .ok (reply env fd
      [ok true, (bytes "profiles", .array (w.config.config.profiles.map fun p => .string p.name))] w)
  else if cmd = bytes "lock" then
    .ok (reply env fd [ok true] (sendLockToActiveAgent env w))
  else if cmd = bytes "list_inhibitors" then
    .ok (reply env fd
      [ok true, (bytes "inhibitors", .array (inhibitors (env.agentOrder w.trace w.agents.entries)))] w)
  else if cmd = bytes "reload_config" then
    match reloadConfig env w with
    | .ok w => .ok (reply env fd [ok true] w)
    | .error t => .ok (reply env fd [ok false, (bytes "error", .string t.exn.what)] t.world)
  else if cmd = bytes "battery" then
    .ok (reply env fd (batteryFields (Battery.read w.sysfs.supplies)) w)
  else
    .ok (reply env fd
      [ok false, (bytes "error", .string (bytes "unknown command: " ++ cmd))] w)

-- The dispatch of on_line, once the line is decoded.
def onMessage (env : Env) (fd : Fd) (msg : Value) (w : World) : Result :=
  let type := msgType msg
  if type = T_HELLO then .ok (onHello env fd msg w)
  else if type = T_CTL then onCtl env fd msg w
  else if fd ∉ w.agents then .ok w
  else if type = T_IDLE_DIM then onIdleDim env fd w
  else if type = T_IDLE_SLEEP then .ok (onIdleSleep env fd w)
  else if type = T_ACTIVE then onActive env fd w
  else if type = T_INHIBIT then .ok (onInhibit env fd msg w)
  else if type = T_UNINHIBIT then .ok (onUninhibit env fd msg w)
  else .ok w

-- A line that does not decode closes the client. agents keeps its entry.
def onLine (env : Env) (fd : Fd) (line : Bytes) (w : World) : Result :=
  let w := w.emit (.line fd line)
  match decode line with
  | .error _ => .ok (closeClient fd w)
  | .ok msg => onMessage env fd msg w

def onDisconnect (fd : Fd) (w : World) : World :=
  { w with agents := w.agents.erase fd }.emit (.hungUp fd)

-- The callback given to HwEventMonitor::on_event.
def onEvent (env : Env) (e : HwEvent) (w : World) : World :=
  let w := w.emit (.button e)
  match w.activeProfile with
  | none => w
  | some p =>
      let action := match e with
        | .lidClose => p.lidCloseAction
        | .lidOpen => []
        | .powerButton => p.powerButtonAction
        | .sleepButton => p.sleepButtonAction
      if action = [] ∨ action = bytes "none" then w
      else if action = bytes "suspend" ∨ action = bytes "hibernate" ∨
          action = bytes "hybrid-sleep" then doSuspend env action w
      else runHwAction action w

end Draind.Daemon
