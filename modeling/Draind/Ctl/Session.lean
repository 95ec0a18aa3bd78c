import Draind.Ctl.Report
import Draind.Daemon.EndOfStream

namespace Draind.Ctl

open Json Proto
open Daemon (Call Connection Env Fd Io World carryOut fields pendingLines)
open Sock (ReadResult taken)

-- One call of the client, with the daemon it is connected to.
structure Session where
  daemon : Daemon.State
  -- The daemon still has the connection.
  alive : Bool
  -- What the client has written and the daemon has not read yet.
  outgoing : Bytes
  -- All that the daemon has written to the client.
  incoming : Bytes

inductive Move where
  | daemon (m : Daemon.Move)
  | deliver (reads : List ReadResult)

def readsFrom (fd : Fd) : Daemon.Move → Bool
  | .ready r => r.fd = fd
  | _ => false

-- What goes out to a descriptor in the second part of a trace. room says how much
-- of a line does that write_line could not write.
def written (room : List Io → Nat) (fd : Fd) : List Io → List Io → Bytes
  | _, [] => []
  | before, e :: rest =>
      (match e with
        | .sent other msg ok =>
            if other ≠ fd then [] else if ok then msg ++ [10] else (msg ++ [10]).take (room before)
        | _ => []) ++ written room fd (before ++ [e]) rest

section Session

variable (env : Env) (room : List Io → Nat) (fd : Fd)

-- The daemon goes on. The connection lasts as long as the daemon and its entry.
def advance (s : Session) (d : Daemon.State) : Session :=
  { s with
    daemon := d
    alive := s.alive && !d.world.exited && decide (fd ∈ d.world.conns)
    incoming := s.incoming ++
      if s.alive then written room fd s.daemon.world.trace
        (d.world.trace.drop s.daemon.world.trace.length)
      else [] }

-- The daemon reads from the client what the client has written, and nothing else.
def step (s : Session) : Move → Session
  | .daemon m =>
      if s.alive && readsFrom fd m then s else advance room fd s (Daemon.step env s.daemon m)
  | .deliver reads =>
      if s.alive && s.daemon.pending.isEmpty && (taken reads).isPrefixOf s.outgoing then
        { advance room fd s (Daemon.step env s.daemon (.ready ⟨fd, none, reads, []⟩)) with
          outgoing := s.outgoing.drop (taken reads).length }
      else s

-- The daemon has accepted the connection, and the client has written to it.
def opened (d : Daemon.State) (request : Bytes) (results : List Sock.WriteResult) : Session :=
  { daemon := Daemon.step env d (.ready ⟨env.listenFd, some fd, [], []⟩)
    alive := true
    outgoing := (Sock.writeLine request results).2
    incoming := [] }

-- In this run the daemon is handed the request when it is as the world says.
def Asked (line : Bytes) (s : Session) (moves : List Move) (w : World) : Prop :=
  ∃ before rest, before ++ [.daemon .call] <+: moves ∧
    (Run.exec (step env room fd) s before).daemon.pending = .line fd line :: rest ∧
    w = (Run.exec (step env room fd) s before).daemon.world.emit (.line fd line)

end Session

section Written

variable (room : List Io → Nat) (fd : Fd)

theorem written_append (before first second : List Io) :
    written room fd before (first ++ second) =
      written room fd before first ++ written room fd (before ++ first) second := by
  induction first generalizing before with
  | nil => simp [written]
  | cons e rest ih => simp [written, ih]

end Written

section Daemon

variable (env : Env) (fd : Fd)

end Daemon

-- The client has been written a beginning of the reply to its request, as the daemon
-- carried it out in a world it was asked in.
def Told (env : Env) (msg : Value) (asked : World → Prop) (incoming : Bytes) : Prop :=
  ∃ w r, asked w ∧ carryOut env msg w = .ok r ∧ incoming <+: encodeCtlReply (fields r.1) ++ [10]

-- How far an open connection has come. Where its end has been read, nothing that is
-- left of it will be handled.
inductive Stage (fd : Fd) (line : Bytes) (told : Prop) (s : Session) (c : Connection) : Prop
  | waiting (hp : pendingLines s.daemon.pending fd = []) (hb : 10 ∉ c.buf.buf)
      (ho : c.buf.buf ++ s.outgoing <+: line ++ [10]) (hi : s.incoming = [])
  | queued (hp : pendingLines s.daemon.pending fd = [line]) (hb : c.buf.buf = [])
      (ho : s.outgoing = []) (hi : s.incoming = [])
  | answered (hp : pendingLines s.daemon.pending fd = []) (hb : c.buf.buf = [])
      (ho : s.outgoing = []) (ht : told)
  | ending (hp : pendingLines s.daemon.pending fd = []) (hh : .hangUp fd ∈ s.daemon.pending)

structure Standing (env : Env) (fd : Fd) (line : Bytes) (msg : Value) (asked : World → Prop)
    (s : Session) : Prop where
  unmarked : Daemon.Unmarked s.daemon.world
  told : s.incoming = [] ∨ Told env msg asked s.incoming
  conn : s.alive = true → s.daemon.world.exited = false ∧ fd ∉ s.daemon.world.agents ∧
    ∃ c, s.daemon.world.conns.lookup fd = some c ∧ Stage fd line (Told env msg asked s.incoming) s c

section Steps

variable (env : Env) (room : List Io → Nat) (fd : Fd)

theorem Told.mono {msg : Value} {asked asked' : World → Prop} (h : ∀ w, asked w → asked' w)
    {incoming : Bytes} (ht : Told env msg asked incoming) : Told env msg asked' incoming := by
  obtain ⟨w, r, ha, hr, hi⟩ := ht
  exact ⟨w, r, h w ha, hr, hi⟩

theorem Stage.mono {line : Bytes} {told told' : Prop} {s : Session} {c : Connection} (h : told → told')
    (hs : Stage fd line told s c) : Stage fd line told' s c := by
  cases hs with
  | waiting hp hb ho hi => exact .waiting hp hb ho hi
  | queued hp hb ho hi => exact .queued hp hb ho hi
  | answered hp hb ho ht => exact .answered hp hb ho (h ht)
  | ending hp hh => exact .ending hp hh

theorem Standing.mono {line : Bytes} {msg : Value} {asked asked' : World → Prop}
    (h : ∀ w, asked w → asked' w) {s : Session} (hs : Standing env fd line msg asked s) :
    Standing env fd line msg asked' s where
  unmarked := hs.unmarked
  told := hs.told.imp id (Told.mono env h)
  conn ha := by
    obtain ⟨he, hf, c, hc, hst⟩ := hs.conn ha
    exact ⟨he, hf, c, hc, hst.mono fd (Told.mono env h)⟩

end Steps

section Runs

variable (env : Env) (room : List Io → Nat) (fd : Fd)

theorem Asked.append {line : Bytes} {s : Session} {moves : List Move} {w : World} (move : Move)
    (h : Asked env room fd line s moves w) : Asked env room fd line s (moves ++ [move]) w := by
  obtain ⟨before, rest, hb, hp, hw⟩ := h
  exact ⟨before, rest, hb.trans (List.prefix_append _ _), hp, hw⟩

end Runs

end Draind.Ctl
