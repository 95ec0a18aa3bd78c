import Draind.Agent.Edges
import Draind.Shared.Protocol

namespace Draind.Agent

open Proto

structure AgentOptions where
  sessionId : Bytes
  uid : UInt32

-- A connection to the daemon. fd is what accept4 has given the daemon for it, wire
-- what is written and not read yet, and room how many bytes of its n-th line the
-- kernel takes. sent has the lines of write_line with its results; the code keeps
-- no such record.
structure Link where
  fd : Option Nat
  wire : Bytes
  alive : Bool
  room : Nat → Nat
  sent : List (Bytes × Bool)

-- How far Agent::run has come. The loop returns after it has connected again.
inductive Phase where
  | starting
  | looping
  | returning
  deriving DecidableEq

-- The line buffer and the idle monitor are left out: nothing the agent reads from
-- the daemon reaches the MPRIS monitor.
structure Impl where
  mpris : MprisMonitor
  -- on_inhibit and on_uninhibit are set.
  installed : Bool
  phase : Phase
  link : Link

-- What the idle monitor reports, and the answer to pre_sleep.
inductive Remark where
  | idleDim
  | idleSleep
  | active
  | ack

-- sock::write_line. Where write fails the rest of the line is not written; on a
-- connection the daemon has closed, nothing is.
def Link.writeLine (l : Link) (msg : Bytes) : Link :=
  let line := msg ++ [10]
  let n := l.room l.sent.length
  { l with
    wire := if l.alive then l.wire ++ line.take n else l.wire
    sent := l.sent ++ [(msg, l.alive && decide (line.length ≤ n))] }

def connectToDaemon (opts : AgentOptions) (room : Nat → Nat) : Link :=
  Link.writeLine ⟨none, [], true, room, []⟩ (encodeHello opts.sessionId opts.uid)

def edgeLine : Edge → Bytes
  | .inhibit => encodeInhibit inhibitReason
  | .uninhibit => encodeUninhibit inhibitReason

def remarkLine : Remark → Bytes
  | .idleDim => encodeIdleDim
  | .idleSleep => encodeIdleSleep
  | .active => encodeActive
  | .ack => encodeAck

namespace Impl

-- Agent::run, up to the call of MprisMonitor::init.
def start (opts : AgentOptions) (room : Nat → Nat) : Impl :=
  ⟨.empty, false, .starting, connectToDaemon opts room⟩

-- init succeeds, and the callbacks are set.
def initMpris (query owner : Bytes → Option Bytes) (names : List Bytes) (a : Impl) : Impl :=
  { a with
    mpris := scanExistingPlayers query owner names a.mpris
    installed := true
    phase := .looping }

def initFailed (a : Impl) : Impl :=
  { a with phase := .looping }

def send (msg : Bytes) (a : Impl) : Impl :=
  { a with link := a.link.writeLine msg }

-- MprisMonitor::poll, for one message.
def pollMpris (query : Bytes → Option Bytes) (signal : Signal) (a : Impl) : Impl :=
  let (mpris, edges) := handleSignal query a.mpris signal
  { a with
    mpris := mpris
    link := if a.installed then (edges.map edgeLine).foldl Link.writeLine a.link else a.link }

def onDaemonDisconnect (opts : AgentOptions) (room : Nat → Nat) (a : Impl) : Impl :=
  { a with phase := .returning, link := connectToDaemon opts room }

end Impl

end Draind.Agent
