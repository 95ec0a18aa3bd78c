import Draind.Ctl.Client
import Draind.Daemon.Responses
import Draind.Json.Prefix
import Draind.Shared.Delivery

namespace Draind.Ctl

open Json Proto
open Daemon (AgentState Fd World carryOut fields inhibitors)

section Reports

section Fields

variable (v : Value) (key other : Bytes) (field : Value)

theorem has_set : (v.set key field).has other = (decide (other = key) || v.has other) := by
  unfold Value.has
  rw [Value.set, Value.getObject, SortedMap.lookup_insert]
  by_cases h : other = key <;> simp [h]

-- An assignment is seen under its own key.
theorem str_set (default : Bytes) : (v.set key field).str other default =
    if other = key then field.getString else v.str other default := by
  by_cases h : other = key <;> simp [Value.str, has_set, Value.get_set, h]

end Fields

section Commands

variable (env : Daemon.Env) (msg : Value) (w : World)

end Commands

end Reports

end Draind.Ctl
