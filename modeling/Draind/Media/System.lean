import Draind.Agent.Agent
import Draind.Daemon.Lock
import Draind.Shared.Lines

namespace Draind.Media

open Daemon (Fd)
open Agent (Impl AgentOptions Link Remark Signal)
open Sock (ReadResult)

-- One agent, while its process runs, and the daemon, with the machine it runs on.
structure System where
  env : Daemon.Env
  daemon : Daemon.State
  agent : Option Impl

-- accept, deliver and what the daemon does otherwise; a new daemon in the place
-- of the old; the agent's process, from its start to its end. lost is the end of
-- file that the agent reads on its connection.
inductive Move where
  | daemon (m : Daemon.Move)
  | accept (fd : Fd)
  | deliver (reads : List ReadResult)
  | restart (env : Daemon.Env) (path : Bytes) (file : Option Bytes) (sysfs : Daemon.Sysfs)
      (sessionId : Bytes)
  | start (room : Nat → Nat)
  | init (query owner : Bytes → Option Bytes) (names : List Bytes)
  | initFailed
  | bus (query : Bytes → Option Bytes) (signal : Signal)
  | say (r : Remark)
  | lost (room : Nat → Nat)
  | quit

-- The descriptor a move of the daemon reads from.
def feeds : Daemon.Move → Option Fd
  | .ready r => some r.fd
  | _ => none

-- A connection does not outlive the daemon's process, nor its descriptor.
def refresh (w : Daemon.World) (l : Link) : Link :=
  { l with alive := l.alive && !w.exited && l.fd.all fun fd => decide (fd ∈ w.conns) }

def cut (l : Link) : Link :=
  { l with alive := false }

namespace System

-- The daemon's descriptor of the agent's connection.
def linked (s : System) : Option Fd :=
  s.agent.bind fun a => if a.link.alive then a.link.fd else none

def waiting (s : System) : Prop :=
  s.daemon.world.exited = false ∧ s.daemon.pending = []

instance (s : System) : Decidable s.waiting :=
  match h : s.daemon.pending with
  | [] => decidable_of_iff (s.daemon.world.exited = false) (by simp [waiting, h])
  | _ :: _ => .isFalse (by simp [waiting, h])

def during (phase : Agent.Phase) (f : Impl → Impl) (s : System) : System :=
  match s.agent with
  | some a => if a.phase = phase then { s with agent := some (f a) } else s
  | none => s

-- A move that is not possible in a state leaves it alone.
def step (opts : AgentOptions) (s : System) : Move → System
  | .daemon m =>
      if ∃ fd ∈ s.linked, feeds m = some fd then s
      else
        let d := Daemon.step s.env s.daemon m
        { s with daemon := d, agent := s.agent.map fun a => { a with link := refresh d.world a.link } }
  | .accept fd =>
      match s.agent with
      | none => s
      | some a =>
          if s.waiting ∧ a.link.alive ∧ a.link.fd = none ∧ Daemon.fresh s.env s.daemon.world fd then
            { s with
              daemon := Daemon.step s.env s.daemon (.ready ⟨s.env.listenFd, some fd, [], []⟩)
              agent := some { a with link := { a.link with fd := some fd } } }
          else s
  | .deliver reads =>
      match s.agent, s.linked with
      | some a, some fd =>
          if s.waiting ∧ Sock.taken reads <+: a.link.wire then
            { s with
              daemon := Daemon.step s.env s.daemon (.ready ⟨fd, none, reads, []⟩)
              agent := some { a with
                link := { a.link with
                  wire := a.link.wire.drop (Sock.taken reads).length
                  -- The daemon closes a connection it cannot read.
                  alive := (Sock.readAll [] reads).1 } } }
          else s
      | _, _ => s
  | .restart env path file sysfs sessionId =>
      match Daemon.setup env path file sysfs sessionId with
      | .error _ => s
      | .ok w => ⟨env, ⟨w, []⟩, s.agent.map fun a => { a with link := cut a.link }⟩
  | .start room =>
      if s.agent.isNone ∧ s.daemon.world.exited = false then
        { s with agent := some (.start opts room) }
      else s
  | .init query owner names => s.during .starting (Impl.initMpris query owner names)
  | .initFailed => s.during .starting Impl.initFailed
  | .bus query signal => s.during .looping (Impl.pollMpris query signal)
  | .say r => s.during .looping (Impl.send (Agent.remarkLine r))
  | .lost room =>
      if s.daemon.world.exited then s else s.during .looping (Impl.onDaemonDisconnect opts room)
  | .quit => { s with agent := none }

end System

end Draind.Media
