import Draind.Shared.Bytes

namespace Draind.Battery

inductive Status where
  | unknown
  | discharging
  | charging
  | full
  | notCharging
  | absent
  deriving DecidableEq

structure BatteryInfo where
  present : Bool
  name : Bytes
  percent : Int32
  status : Status
  timeToEmptyMin : Option Int32
  timeToFullMin : Option Int32
  deriving DecidableEq

def parseStatus (s : Bytes) : Status :=
  if s = bytes "Discharging" then .discharging
  else if s = bytes "Charging" then .charging
  else if s = bytes "Full" then .full
  else if s = bytes "Not charging" then .notCharging
  else .unknown

def statusString : Status → Bytes
  | .discharging => bytes "discharging"
  | .charging => bytes "charging"
  | .full => bytes "full"
  | .notCharging => bytes "not_charging"
  | .absent => bytes "absent"
  | .unknown => bytes "unknown"

-- The files of one BAT* directory, none where a file cannot be opened.
structure Supply where
  capacity : Option Bytes
  status : Option Bytes
  energyNow : Option Bytes
  energyFull : Option Bytes
  powerNow : Option Bytes
  chargeNow : Option Bytes
  chargeFull : Option Bytes
  currentNow : Option Bytes
  deriving DecidableEq

-- f >> out: without digits out becomes 0, and out of range the nearest limit,
-- both with the stream failed. A file that does not open leaves out alone, and so
-- does one with nothing but blanks.
def readInt (file : Option Bytes) (out : Int64) : Bool × Int64 :=
  match file with
  | none => (false, out)
  | some text =>
      if text.dropWhile isSpace = [] then (false, out)
      else
        match scanInteger text with
        | none => (false, 0)
        | some n =>
            if n < -2 ^ 63 then (false, Int64.minValue)
            else if 2 ^ 63 ≤ n then (false, Int64.maxValue)
            else (true, Int64.ofInt n)

def readStr (file : Option Bytes) : Option Bytes :=
  match file with
  | none => none
  | some text =>
      let line := text.takeWhile (· ≠ 10)
      if line = [] then none else some line

-- The readings of remaining, total and rate and whether they are usable.
structure Readings where
  remaining : Int64
  total : Int64
  rate : Int64
  ok : Bool

-- One && chain: a file is read only when those before it were readable.
def readChain (now full rate : Option Bytes) (r : Readings) : Readings :=
  let (ok, remaining) := readInt now r.remaining
  if ¬ok then { r with remaining := remaining, ok := false }
  else
    let (ok, total) := readInt full r.total
    if ¬ok then { r with remaining := remaining, total := total, ok := false }
    else
      let (ok, rate) := readInt rate r.rate
      ⟨remaining, total, rate, ok && 0 < rate⟩

def readSupply (name : Bytes) (s : Supply) : BatteryInfo :=
  let (hasCapacity, v) := readInt s.capacity 0
  let status := match readStr s.status with
    | some st => parseStatus st
    | none => .absent
  let energy := readChain s.energyNow s.energyFull s.powerNow ⟨0, 0, 0, false⟩
  let r := if energy.ok then energy else readChain s.chargeNow s.chargeFull s.currentNow energy
  let empties := r.ok && status = .discharging && 0 < r.remaining
  let fills := r.ok && status = .charging && r.remaining < r.total
  { present := true
    name := name
    percent := if hasCapacity then v.toInt32 else -1
    status := status
    timeToEmptyMin := if empties then some (r.remaining * 60 / r.rate).toInt32 else none
    timeToFullMin := if fills then some ((r.total - r.remaining) * 60 / r.rate).toInt32 else none }

def readFrom (i : Nat) : List (Option Supply) → BatteryInfo
  | [] => ⟨false, [], -1, .absent, none, none⟩
  | some s :: _ => readSupply (bytes "BAT" ++ decimal i) s
  | none :: rest => readFrom (i + 1) rest

-- BAT0 to BAT9 in order; none where a directory has no file named present.
def read (supplies : List (Option Supply)) : BatteryInfo :=
  readFrom 0 (supplies.take 10)

end Draind.Battery
