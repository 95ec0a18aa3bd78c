import Draind.Agent.Agent
import Draind.Agent.Timeouts
import Draind.Lib.Run
import Draind.Shared.Lines

namespace Draind.Agent

open Daemon (Fd)
open Sock (LineBuffer ReadResult splitLines taken)

-- The agent from its first connection on. daemonFd is none, the source's -1, while
-- connect_to_daemon tries again. arrived is what has been read on the connection
-- there is, and handled what of it on_daemon_line has been called with; the code
-- keeps no such record.
structure Process where
  impl : Impl
  daemonFd : Option Fd
  daemonBuf : LineBuffer
  idle : Option Fd
  arrived : Bytes
  handled : List Bytes

-- One event of epoll_wait: what feed reads on the daemon's descriptor, and the idle
-- monitor that its config sets up, or what the idle monitor reports on its own.
structure LoopEvent where
  fd : Fd
  reads : List ReadResult
  backends : Backends
  idleFd : Fd
  remarks : List Remark

-- connect is a round of the loop in connect_to_daemon, wake one of Agent::loop.
inductive LoopMove where
  | init (query owner : Bytes → Option Bytes) (names : List Bytes)
  | initFailed
  | wake (signals : List ((Bytes → Option Bytes) × Signal)) (events : List LoopEvent)
  | connect (fd : Option Fd) (room : Nat → Nat)

-- The commands run in processes of their own, and the idle monitor calls nothing
-- back from init and set_timeouts. As everywhere here, SIGPIPE is taken to be ignored
-- by the process, so that a write to a peer that is gone only fails.
def perform (a : Impl) : Effect → Impl
  | .send msg => a.send msg
  | .monitor _ | .lockCmd | .beforeSleepCmd => a

namespace Process

def start (opts : AgentOptions) (room : Nat → Nat) (fd : Fd) : Process :=
  ⟨.start opts room, some fd, ⟨[]⟩, none, [], []⟩

def handleLine (e : LoopEvent) (s : Process) (line : Bytes) : Process :=
  let (idle, effects) := onDaemonLine e.backends s.idle.isSome line
  { s with
    impl := effects.foldl perform s.impl
    idle := if idle then some (s.idle.getD e.idleFd) else none
    handled := s.handled ++ [line] }

-- on_daemon_disconnect, up to the call of connect_to_daemon.
def lose (s : Process) : Process :=
  { s with daemonFd := none, daemonBuf := ⟨[]⟩, arrived := [], handled := [] }

def handleEvent (s : Process) (e : LoopEvent) : Process :=
  if s.daemonFd = some e.fd then
    let (ok, buffer, lines) := s.daemonBuf.feed e.reads
    if ok then
      (lines.filter (· ≠ [])).foldl (handleLine e)
        { s with daemonBuf := buffer, arrived := s.arrived ++ taken e.reads }
    else s.lose
  else if s.idle = some e.fd then
    { s with impl := (e.remarks.map fun r => .send (remarkLine r)).foldl perform s.impl }
  else s

-- After a disconnect the loop looks at no other event.
def handleEvents (s : Process) : List LoopEvent → Process
  | [] => s
  | e :: rest =>
      let s := s.handleEvent e
      if s.daemonFd = none then s else s.handleEvents rest

-- A move that is not possible in a state leaves it alone. s_quit is never set.
def step (opts : AgentOptions) (s : Process) : LoopMove → Process
  | .init query owner names =>
      if s.impl.phase = .starting then { s with impl := s.impl.initMpris query owner names } else s
  | .initFailed => if s.impl.phase = .starting then { s with impl := s.impl.initFailed } else s
  | .wake signals events =>
      if s.impl.phase = .looping ∧ s.daemonFd ≠ none then
        handleEvents { s with impl := signals.foldl (fun a m => a.pollMpris m.1 m.2) s.impl } events
      else s
  | .connect fd room =>
      match s.daemonFd, fd with
      | none, some fd => { s with impl := s.impl.onDaemonDisconnect opts room, daemonFd := some fd }
      | _, _ => s

-- The loop has not returned, and of what the daemon has sent on the connection
-- there is every line has been given to on_daemon_line.
structure Outlives (s : Process) : Prop where
  running : s.impl.phase ≠ .returning
  passed : s.handled = (splitLines s.arrived).1.filter (· ≠ [])

-- A daemon that is gone does not come back.
def StaysGone (s : Process) : LoopMove → Prop
  | .connect (some _) _ => s.daemonFd ≠ none
  | _ => True

section Outlives

-- What was read and not passed on yet waits in the buffer.
structure Reading (s : Process) : Prop where
  passed : s.handled = (splitLines s.arrived).1.filter (· ≠ [])
  buffered : s.daemonBuf.buf = (splitLines s.arrived).2

theorem perform_phase (effects : List Effect) (a : Impl) : (effects.foldl perform a).phase = a.phase := by
  induction effects generalizing a with
  | nil => rfl
  | cons e rest ih => cases e <;> exact ih _

theorem pollMpris_phase (signals : List ((Bytes → Option Bytes) × Signal)) (a : Impl) :
    (signals.foldl (fun a m => a.pollMpris m.1 m.2) a).phase = a.phase := by
  induction signals generalizing a with
  | nil => rfl
  | cons m rest ih => exact ih _

-- A line changes what the monitors and the daemon are told, and is recorded.
theorem handleLines_spec (e : LoopEvent) (lines : List Bytes) (s : Process) :
    (lines.foldl (handleLine e) s).impl.phase = s.impl.phase ∧
      (lines.foldl (handleLine e) s).daemonBuf = s.daemonBuf ∧
      (lines.foldl (handleLine e) s).arrived = s.arrived ∧
      (lines.foldl (handleLine e) s).handled = s.handled ++ lines := by
  induction lines generalizing s with
  | nil => simp
  | cons line rest ih =>
      obtain ⟨hphase, hbuf, harrived, hhandled⟩ := ih (handleLine e s line)
      refine ⟨hphase.trans (perform_phase _ _), hbuf, harrived, ?_⟩
      rw [List.foldl_cons, hhandled]
      simp [handleLine]

theorem readAll_fed {buffer : LineBuffer} {reads : List ReadResult} (h : (buffer.feed reads).1 = true) :
    (Sock.readAll [] reads).1 = true := by
  by_contra hok
  simp [LineBuffer.feed, Sock.readAll_eq buffer.buf, hok] at h

theorem handleEvent_reading (s : Process) (e : LoopEvent) (h : s.Reading) :
    (s.handleEvent e).Reading ∧ (s.handleEvent e).impl.phase = s.impl.phase := by
  unfold handleEvent
  split
  · dsimp only
    split
    · rename_i hok
      have hfeed := LineBuffer.feed_ok s.daemonBuf e.reads (readAll_fed hok)
      obtain ⟨hphase, hbuf, harrived, hhandled⟩ := handleLines_spec e
        ((s.daemonBuf.feed e.reads).2.2.filter (· ≠ []))
        { s with daemonBuf := (s.daemonBuf.feed e.reads).2.1, arrived := s.arrived ++ taken e.reads }
      -- The buffer and the reads together are cut as the whole stream would be.
      have hcut := Sock.splitLines_append s.arrived (taken e.reads)
      rw [← h.buffered] at hcut
      refine ⟨⟨?_, ?_⟩, hphase⟩
      · rw [hhandled, harrived, hcut, hfeed, h.passed, List.filter_append]
      · rw [hbuf, harrived, hcut, hfeed]
    · exact ⟨⟨rfl, rfl⟩, rfl⟩
  split
  · exact ⟨⟨h.passed, h.buffered⟩, perform_phase _ _⟩
  · exact ⟨h, rfl⟩

theorem handleEvents_reading (events : List LoopEvent) (s : Process) (h : s.Reading) :
    (s.handleEvents events).Reading ∧ (s.handleEvents events).impl.phase = s.impl.phase := by
  induction events generalizing s with
  | nil => exact ⟨h, rfl⟩
  | cons e rest ih =>
      obtain ⟨hs, hphase⟩ := handleEvent_reading s e h
      simp only [handleEvents]
      split
      · exact ⟨hs, hphase⟩
      · exact ⟨(ih _ hs).1, (ih _ hs).2.trans hphase⟩

theorem step_reading (opts : AgentOptions) (s : Process) (move : LoopMove)
    (h : s.Reading ∧ s.impl.phase ≠ .returning) (hm : s.StaysGone move) :
    (step opts s move).Reading ∧ (step opts s move).impl.phase ≠ .returning := by
  obtain ⟨hr, hp⟩ := h
  cases move with
  | init query owner names =>
      simp only [step]
      split
      · exact ⟨⟨hr.passed, hr.buffered⟩, by simp [Impl.initMpris]⟩
      · exact ⟨hr, hp⟩
  | initFailed =>
      simp only [step]
      split
      · exact ⟨⟨hr.passed, hr.buffered⟩, by simp [Impl.initFailed]⟩
      · exact ⟨hr, hp⟩
  | wake signals events =>
      simp only [step]
      split
      · obtain ⟨hnext, hphase⟩ := handleEvents_reading events
          { s with impl := signals.foldl (fun a m => a.pollMpris m.1 m.2) s.impl } ⟨hr.passed, hr.buffered⟩
        rw [hphase, pollMpris_phase]
        exact ⟨hnext, hp⟩
      · exact ⟨hr, hp⟩
  | connect fd room =>
      simp only [step]
      split
      · rename_i hfd
        exact absurd hfd hm
      · exact ⟨hr, hp⟩

-- The loop returns with the first connection made again.
theorem staysGone_of_outlives (opts : AgentOptions) (s : Process) (move : LoopMove)
    (h : (step opts s move).Outlives) : s.StaysGone move := by
  cases move with
  | init query owner names => trivial
  | initFailed => trivial
  | wake signals events => trivial
  | connect fd room =>
      cases fd with
      | none => trivial
      | some fd =>
          intro hgone
          refine h.running ?_
          simp [step, hgone, Impl.onDaemonDisconnect]

-- Over a run of the agent it outlives the daemon exactly when no daemon comes in
-- the place of one that is gone.
theorem outlives_throughout_iff (opts : AgentOptions) (room : Nat → Nat) (fd : Fd) (moves : List LoopMove) :
    Run.Throughout (step opts) Outlives (start opts room fd) moves ↔
      Run.Meets (step opts) StaysGone (start opts room fd) moves :=
  Run.throughout_iff_meets_of_invariant (step opts) (fun s => s.Reading ∧ s.impl.phase ≠ .returning)
    (step_reading opts) (fun _ h => ⟨h.2, h.1.passed⟩) (fun s move _ h => staysGone_of_outlives opts s move h)
    moves ⟨⟨rfl, rfl⟩, by simp [start, Impl.start]⟩

-- The daemon is restarted: end of file on its connection, and a new one that takes
-- the descriptor's number.
def restarted : List LoopMove :=
  [.initFailed, .wake [] [⟨5, [.eof], ⟨none, true⟩, 6, []⟩], .connect (some 5) fun _ => 4096]

theorem outlives_restarted :
    ¬Run.Throughout (step ⟨bytes "2", 1000⟩) Outlives (start ⟨bytes "2", 1000⟩ (fun _ => 4096) 5)
      restarted :=
  fun h => h.2.2.2.running rfl

end Outlives

end Process

end Draind.Agent
