import Draind.Json.Parser

namespace Draind

open Json

structure Profile where
  name : Bytes
  cpuGovernor : Bytes
  cpuEpp : Bytes
  brightnessPercent : Int32
  dimBrightnessPercent : Int32
  dimTimeout : Int32
  sleepTimeout : Int32
  lidCloseAction : Bytes
  powerButtonAction : Bytes
  sleepButtonAction : Bytes
  deriving DecidableEq

structure Config where
  activeProfile : Bytes
  profiles : List Profile
  deriving DecidableEq

def Config.find (config : Config) (name : Bytes) : Option Profile :=
  config.profiles.find? fun p => p.name = name

-- The int fields are cut from 64 bits to 32.
def loadProfile (pv : Value) : Except Exn Profile :=
  let p : Profile :=
    { name := pv.str (bytes "name") []
      cpuGovernor := pv.str (bytes "cpu_governor") []
      cpuEpp := pv.str (bytes "cpu_epp") []
      brightnessPercent := (pv.num (bytes "brightness_percent") 100).toInt32
      dimBrightnessPercent := (pv.num (bytes "dim_brightness_percent") 20).toInt32
      dimTimeout := (pv.num (bytes "dim_timeout") 300).toInt32
      sleepTimeout := (pv.num (bytes "sleep_timeout") 600).toInt32
      lidCloseAction := pv.str (bytes "lid_close_action") (bytes "suspend")
      powerButtonAction := pv.str (bytes "power_button_action") (bytes "poweroff")
      sleepButtonAction := pv.str (bytes "sleep_button_action") (bytes "suspend") }
  if p.name = [] then .error (.runtimeError (bytes "profile missing 'name'")) else .ok p

-- The file is its text, or none when it cannot be opened.
def loadConfig (path : Bytes) (file : Option Bytes) : Except Exn Config :=
  match file with
  | none => .error (.runtimeError (bytes "cannot open config: " ++ path))
  | some text => do
      let root ← parse text
      let profiles ← (root.get (bytes "profiles")).getArray.mapM loadProfile
      match profiles with
      | [] => .error (.runtimeError (bytes "config has no profiles"))
      | first :: _ =>
          let active := root.str (bytes "active_profile") []
          .ok { activeProfile := if active = [] then first.name else active, profiles := profiles }

end Draind
