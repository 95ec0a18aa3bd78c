import Draind.Daemon.Handlers
import Draind.Lib.Run

namespace Draind.Daemon

-- The value of a property in a PropertiesChanged signal: a session with its
-- object path, or anything else.
inductive Variant where
  | session (id path : Bytes)
  | other

structure SeatSignal where
  interface : Bytes
  changed : List (Bytes × Variant)

-- The scan of the changed properties. A value of another type stops it.
def scanChanged : List (Bytes × Variant) → World → World
  | [], w => w
  | (key, value) :: rest, w =>
      if key = bytes "ActiveSession" then
        match value with
        | .session id _ => scanChanged rest ({ w with activeSessionId := id }.emit (.seat id))
        | .other => w
      else scanChanged rest w

def handleSeatProperties (m : SeatSignal) (w : World) : World :=
  if m.interface ≠ bytes "org.freedesktop.login1.Seat" then w else scanChanged m.changed w

-- struct input_event, without its time.
structure InputEvent where
  type : UInt16
  code : UInt16
  value : Int32

def EV_KEY : UInt16 := 1
def EV_SW : UInt16 := 5
def SW_LID : UInt16 := 0
def KEY_POWER : UInt16 := 116
def KEY_SLEEP : UInt16 := 142

-- The callback HwEventMonitor::poll makes for one input event, if any.
def hwEvent (ev : InputEvent) : Option HwEvent :=
  if ev.type = EV_SW ∧ ev.code = SW_LID then
    some (if ev.value ≠ 0 then .lidClose else .lidOpen)
  else if ev.type = EV_KEY ∧ ev.value = 1 then
    if ev.code = KEY_POWER then some .powerButton
    else if ev.code = KEY_SLEEP then some .sleepButton
    else none
  else none

-- HwEventMonitor::poll
def pollHw (env : Env) (events : List InputEvent) (w : World) : World :=
  (events.filterMap hwEvent).foldl (fun w e => onEvent env e w) w

-- The loop over the lines in Server::handle_client.
def deliver (env : Env) (fd : Fd) : List Bytes → World → Result
  | [], w => .ok w
  | line :: rest, w =>
      if line = [] then deliver env fd rest w
      else do
        let w ← onLine env fd line w
        deliver env fd rest w

def handleClient (env : Env) (fd : Fd) (reads : List Sock.ReadResult) (w : World) : Result :=
  match w.conns.lookup fd with
  | none => .ok w
  | some c => do
      let (ok, buf, lines) := c.buf.feed reads
      let w := { w with conns := w.conns.insert fd { c with buf := buf } }
      let w ← deliver env fd lines w
      .ok (if ok then w else closeClient fd (onDisconnect fd w))

-- One descriptor epoll_wait reports, with what the kernel has for it.
structure Ready where
  fd : Fd
  accepted : Option Fd
  reads : List Sock.ReadResult
  inputs : List InputEvent

def dispatch (env : Env) (r : Ready) (w : World) : Result :=
  if r.fd = env.listenFd then
    .ok (match r.accepted with
      | some fd => acceptClient fd w
      | none => w)
  else if r.fd ∈ w.conns then handleClient env r.fd r.reads w
  else if r.fd = env.hwFd then .ok (pollHw env r.inputs w)
  else .ok w

def dispatchAll (env : Env) : List Ready → World → Result
  | [], w => .ok w
  | r :: rest, w => do
      let w ← dispatch env r w
      dispatchAll env rest w

-- One iteration of Daemon::loop.
def iterate (env : Env) (signals : List SeatSignal) (events : List Ready) (w : World) : Result :=
  dispatchAll env events (signals.foldl (fun w m => handleSeatProperties m w) w)

-- Daemon::setup, up to the loop. sessionId is what logind answers at the start.
def setup (env : Env) (path : Bytes) (file : Option Bytes) (sysfs : Sysfs) (sessionId : Bytes) :
    Except Exn World := do
  let config ← ConfigManager.create path file
  let w : World :=
    { config := config, userBrightness := -1, activeSessionId := sessionId, conns := ∅, agents := ∅
      dimmed := false, file := file, sysfs := sysfs, trace := [], exited := false }
  match w.activeProfile with
  | none => .ok w
  | some p => (apply env p w).mapError Thrown.exn

-- The calls that Server and HwEventMonitor make into the daemon.
inductive Call where
  | line (fd : Fd) (line : Bytes)
  | hangUp (fd : Fd)
  | button (e : HwEvent)

def perform (env : Env) : Call → World → Result
  | .line fd line, w => onLine env fd line w
  | .hangUp fd, w => .ok (closeClient fd (onDisconnect fd w))
  | .button e, w => .ok (onEvent env e w)

-- The loop call by call: pending are the calls still to be made for the
-- descriptor at hand, so that the states between two messages of one feed are
-- states of the run as well.
structure State where
  world : World
  pending : List Call

-- outside stands for other processes, which may change the files at any time.
inductive Move where
  | signal (m : SeatSignal)
  | ready (r : Ready)
  | call
  | outside (file : Option Bytes) (sysfs : Sysfs)

-- The calls a reported descriptor leads to, and the state when they begin.
def begin (env : Env) (r : Ready) (w : World) : State :=
  if r.fd = env.listenFd then
    ⟨match r.accepted with
      | some fd => acceptClient fd w
      | none => w, []⟩
  else
    match w.conns.lookup r.fd with
    | some c =>
        let (ok, buf, lines) := c.buf.feed r.reads
        ⟨{ w with conns := w.conns.insert r.fd { c with buf := buf } },
          (lines.filter (· ≠ [])).map (.line r.fd) ++ if ok then [] else [.hangUp r.fd]⟩
    | none =>
        if r.fd = env.hwFd then ⟨w, (r.inputs.filterMap hwEvent).map .button⟩ else ⟨w, []⟩

-- The kernel hands out only descriptors that are not open.
def fresh (env : Env) (w : World) (fd : Fd) : Prop :=
  fd ∉ w.conns ∧ fd ≠ env.listenFd ∧ fd ≠ env.hwFd ∧ fd ≠ env.busFd

instance (env : Env) (w : World) (fd : Fd) : Decidable (fresh env w fd) :=
  inferInstanceAs (Decidable (_ ∧ _ ∧ _ ∧ _))

-- A move that is not possible in a state leaves it alone.
def step (env : Env) (s : State) : Move → State
  | .signal m =>
      if s.world.exited ∨ s.pending ≠ [] then s else ⟨handleSeatProperties m s.world, []⟩
  | .ready r =>
      if s.world.exited ∨ s.pending ≠ [] then s
      else if r.fd = env.listenFd ∧ ∃ fd ∈ r.accepted, ¬fresh env s.world fd then s
      else begin env r s.world
  | .call =>
      match s.pending with
      | [] => s
      | c :: rest =>
          if s.world.exited then s else ⟨(perform env c s.world).settle, rest⟩
  | .outside file sysfs =>
      if s.world.exited then s
      else ⟨{ s.world with file := file, sysfs := sysfs }, s.pending⟩

abbrev run (env : Env) (w : World) (moves : List Move) : State :=
  Run.exec (step env) ⟨w, []⟩ moves

end Draind.Daemon
