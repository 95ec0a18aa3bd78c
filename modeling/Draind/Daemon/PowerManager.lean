import Draind.Daemon.World

namespace Draind.Daemon

-- read_file drops trailing newlines and blanks.
def readFile (text : Bytes) : Bytes :=
  (text.reverse.dropWhile fun c => c = 10 || c = 32).reverse

-- The int product wraps. The source leaves its overflow undefined.
def brightnessTarget (maxVal pct : Int32) : Int32 :=
  maxVal * pct / 100

def Sysfs.setBrightness (s : Sysfs) (target : Int32) : Sysfs :=
  { s with backlight := s.backlight.map fun b => { b with brightness := decimal target.toInt } }

def setBrightnessPercent (env : Env) (pct : Int32) (w : World) : Result :=
  match w.sysfs.backlight with
  | none => .ok w
  | some b =>
      let maxS := readFile b.maxBrightness
      if maxS = [] then .ok w
      else
        match stoi maxS with
        | .error e => .error ⟨e, w⟩
        | .ok maxVal =>
            let target := brightnessTarget maxVal pct
            let ok := env.sysfsWritable w.trace .brightness
            .ok ({ w with sysfs := if ok then w.sysfs.setBrightness target else w.sysfs }.emit
              (.brightness target ok))

-- Reads sysfs. -1 on failure.
def getBrightnessPercent (s : Sysfs) : Except Exn Int32 :=
  match s.backlight with
  | none => .ok (-1)
  | some b =>
      let curS := readFile b.brightness
      let maxS := readFile b.maxBrightness
      if curS = [] ∨ maxS = [] then .ok (-1)
      else do
        let maxVal ← stoi maxS
        if maxVal ≤ 0 then .ok (-1)
        else
          let cur ← stoi curS
          .ok (cur * 100 / maxVal)

-- The loop that set_cpu_governor and set_cpu_epp share, over one file of each policy.
def writePolicies (env : Env) (read : CpuPolicy → Bytes) (store : CpuPolicy → Bytes → CpuPolicy)
    (value : Bytes) : List CpuPolicy → World → List CpuPolicy × World
  | [], w => ([], w)
  | p :: rest, w =>
      if readFile (read p) = value then
        let (rest, w) := writePolicies env read store value rest w
        (p :: rest, w)
      else
        let ok := env.sysfsWritable w.trace (.policy p.dir)
        let (rest, w) := writePolicies env read store value rest (w.emit (.policy p.dir value ok))
        ((if ok then store p value else p) :: rest, w)

def setCpuFile (env : Env) (read : CpuPolicy → Bytes) (store : CpuPolicy → Bytes → CpuPolicy)
    (value : Bytes) (w : World) : World :=
  if value = [] then w
  else
    let (policies, w) := writePolicies env read store value w.sysfs.policies w
    { w with sysfs := { w.sysfs with policies := policies } }

def setCpuGovernor (env : Env) (gov : Bytes) (w : World) : World :=
  setCpuFile env CpuPolicy.scalingGovernor (fun p v => { p with scalingGovernor := v }) gov w

def setCpuEpp (env : Env) (epp : Bytes) (w : World) : World :=
  setCpuFile env CpuPolicy.energyPerformancePreference
    (fun p v => { p with energyPerformancePreference := v }) epp w

def apply (env : Env) (p : Profile) (w : World) : Result :=
  setBrightnessPercent env p.brightnessPercent
    (setCpuEpp env p.cpuEpp (setCpuGovernor env p.cpuGovernor (w.emit .apply)))

def dim (env : Env) (p : Profile) (w : World) : Result :=
  let w := w.emit .dim
  match getBrightnessPercent w.sysfs with
  | .error e => .error ⟨e, w⟩
  | .ok pct =>
      let user := if pct < 0 then p.brightnessPercent else pct
      setBrightnessPercent env p.dimBrightnessPercent { w with userBrightness := user }

def undim (env : Env) (p : Profile) (w : World) : Result := do
  let w := w.emit .undim
  let restore := if 0 ≤ w.userBrightness then w.userBrightness else p.brightnessPercent
  let w ← setBrightnessPercent env restore w
  .ok { w with userBrightness := -1 }

end Draind.Daemon
