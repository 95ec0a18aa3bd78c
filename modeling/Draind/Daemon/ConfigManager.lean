import Draind.Shared.Config
import Draind.Json.Dump

namespace Draind.Daemon

open Json

structure ConfigManager where
  path : Bytes
  config : Config
  active : Bytes

namespace ConfigManager

def activeProfile (m : ConfigManager) : Option Profile :=
  m.config.find m.active

-- reload up to the change callback. When load_config throws nothing has changed.
def reload (m : ConfigManager) (file : Option Bytes) : Except Exn ConfigManager := do
  let c ← loadConfig m.path file
  .ok { m with config := c, active := c.activeProfile }

def create (path : Bytes) (file : Option Bytes) : Except Exn ConfigManager :=
  reload { path := path, config := { activeProfile := [], profiles := [] }, active := [] } file

-- The first lines of set_active: the lookup and the assignment.
def select (m : ConfigManager) (name : Bytes) : Option ConfigManager :=
  if (m.config.find name).isNone then none else some { m with active := name }

-- The text persist_active writes, none when it returns before the open.
def persistText (m : ConfigManager) (file : Option Bytes) : Option Bytes :=
  match file with
  | none => none
  | some text =>
      match parse text with
      | .error _ => none
      | .ok root => some (dumpPretty 2 (root.set (bytes "active_profile") (.string m.active)))

end ConfigManager

end Draind.Daemon
