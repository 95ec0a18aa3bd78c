import Draind.Daemon.DimReason

namespace Draind.Daemon

open Json Proto

def reportsStep (h : Fd → List Report) : Io → Fd → List Report
  | .accepted fd => Function.update h fd []
  | .report fd r => Function.update h fd (h fd ++ [r])
  | _ => h

-- The reports handled from the connection that was last accepted on fd.
def reportsOn (trace : List Io) : Fd → List Report :=
  trace.foldl reportsStep fun _ => []

def reportOf (msg : Value) : Option Report :=
  if msgType msg = T_IDLE_DIM then some .idleDim
  else if msgType msg = T_IDLE_SLEEP then some .idleSleep
  else if msgType msg = T_ACTIVE then some .active
  else none

section Reports

variable (env : Env)

@[simp]
theorem reportsOn_append (trace : List Io) (e : Io) :
    reportsOn (trace ++ [e]) = reportsStep (reportsOn trace) e := by
  simp [reportsOn]

end Reports

end Draind.Daemon
