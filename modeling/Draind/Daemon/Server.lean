import Draind.Daemon.World

namespace Draind.Daemon

-- accept4 has returned fd.
def acceptClient (fd : Fd) (w : World) : World :=
  { w with
    -- emplace leaves an existing entry alone.
    conns := if fd ∈ w.conns then w.conns else w.conns.insert fd ⟨fd, ⟨[]⟩, false, false⟩ }.emit
    (.accepted fd)

-- sock::write_line. A descriptor that is not open gives EBADF.
def writeLine (env : Env) (fd : Fd) (msg : Bytes) (w : World) : Bool × World :=
  let ok := decide (fd ∈ w.conns) && env.writable w.trace fd msg
  (ok, w.emit (.sent fd msg ok))

def send (env : Env) (fd : Fd) (msg : Bytes) (w : World) : World :=
  (writeLine env fd msg w).2

def closeClient (fd : Fd) (w : World) : World :=
  { w with conns := w.conns.erase fd }.emit (.close fd)

-- The first loop of broadcast_and_wait_acks, over the connections in the order given.
def broadcast (env : Env) (msg : Bytes) :
    List (Σ _ : Fd, Connection) → Finset Fd → World → Finset Fd × World
  | [], pending, w => (pending, w)
  | c :: rest, pending, w =>
      if c.2.isAgent then
        let (ok, w) := writeLine env c.1 msg w
        broadcast env msg rest (if ok then insert c.1 pending else pending) w
      else broadcast env msg rest pending w

-- One round of poll: what recv takes off the socket reaches no line buffer.
def receiveAcks : List (Fd × Recv) → Finset Fd → World → Finset Fd × World
  | [], pending, w => (pending, w)
  | (fd, r) :: rest, pending, w =>
      if fd ∈ pending then
        match r with
        | .failed => receiveAcks rest (pending.erase fd) w
        | .data chunk =>
            let pending := if bytes "\"ack\"" <:+: chunk then pending.erase fd else pending
            receiveAcks rest pending (w.emit (.swallowed fd chunk))
      else receiveAcks rest pending w

-- The list ends where the deadline passes.
def waitAcks : List (List (Fd × Recv)) → Finset Fd → World → World
  | [], _, w => w
  | round :: rest, pending, w =>
      if pending = ∅ then w
      else
        let (pending, w) := receiveAcks round pending w
        waitAcks rest pending w

def broadcastAndWaitAcks (env : Env) (msg : Bytes) (w : World) : World :=
  let (pending, w) := broadcast env msg (env.connOrder w.trace w.conns.entries) ∅ w
  waitAcks (env.rounds w.trace) pending w

end Draind.Daemon
