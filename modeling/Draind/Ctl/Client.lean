import Draind.Json.RoundTrip
import Draind.Shared.Protocol
import Draind.Shared.Socket

namespace Draind.Ctl

open Json Proto

-- What a call of main leaves behind: its result, and the text on stdout and on stderr.
structure Outcome where
  code : Nat
  out : Bytes
  err : Bytes
  deriving DecidableEq

-- The commands that main accepts.
inductive Command where
  | status
  | battery
  | listProfiles
  | setProfile (profile : Bytes)
  | reloadConfig
  | listInhibitors
  | lock
  deriving DecidableEq

def request : Command → Bytes
  | .status => encodeCtl (bytes "status") []
  | .battery => encodeCtl (bytes "battery") []
  | .listProfiles => encodeCtl (bytes "list_profiles") []
  | .setProfile profile => encodeCtl (bytes "set_profile") profile
  | .reloadConfig => encodeCtl (bytes "reload_config") []
  | .listInhibitors => encodeCtl (bytes "list_inhibitors") []
  | .lock => encodeCtl (bytes "lock") []

def hoursMinutes (minutes : Int32) : Bytes :=
  decimal (minutes / 60).toInt ++ bytes "h " ++ decimal (minutes % 60).toInt ++ bytes "m\n"

-- What goes to stdout when the daemon has answered ok.
def printed (cmd : Command) (resp : Value) : Bytes :=
  match cmd with
  | .status =>
      let batPct := (resp.num (bytes "battery_percent") (-1)).toInt32
      bytes "profile:        " ++ resp.str (bytes "active_profile") [] ++ [10] ++
        bytes "dimmed:         " ++
          (if resp.flag (bytes "dimmed") false then bytes "yes" else bytes "no") ++ [10] ++
        bytes "active_session: " ++ resp.str (bytes "active_session") [] ++ [10] ++
        bytes "battery:        " ++ resp.str (bytes "battery_status") [] ++
          (if 0 ≤ batPct then bytes " (" ++ decimal batPct.toInt ++ bytes "%)" else []) ++ [10]
  | .battery =>
      let present := resp.flag (bytes "present") false
      let tte := (resp.num (bytes "time_to_empty_min") (-1)).toInt32
      let ttf := (resp.num (bytes "time_to_full_min") (-1)).toInt32
      bytes "status:  " ++ resp.str (bytes "status") [] ++ [10] ++
        if present then
          bytes "percent: " ++ decimal (resp.num (bytes "percent") (-1)).toInt32.toInt ++ bytes "%\n" ++
            (if 0 ≤ tte then bytes "time_to_empty: " ++ hoursMinutes tte else []) ++
            (if 0 ≤ ttf then bytes "time_to_full:  " ++ hoursMinutes ttf else [])
        else []
  | .listInhibitors =>
      match (resp.get (bytes "inhibitors")).getArray with
      | [] => bytes "none\n"
      | inhibitors => inhibitors.flatMap fun v => v.getString ++ [10]
  | .listProfiles => (resp.get (bytes "profiles")).getArray.flatMap fun p => p.getString ++ [10]
  | .setProfile _ | .reloadConfig | .lock => bytes "ok\n"

-- main from the answer on.
def report (cmd : Command) (line : Bytes) : Outcome :=
  if line = [] then ⟨3, [], bytes "no response from daemon\n"⟩
  else
    match parse line with
    | .error _ => ⟨3, [], bytes "malformed response: " ++ line ++ [10]⟩
    | .ok resp =>
        if resp.flag (bytes "ok") false then ⟨0, printed cmd resp, []⟩
        else
          ⟨4, [], bytes "error: " ++ resp.str (bytes "error") (bytes "unknown error") ++ [10]⟩

end Draind.Ctl
