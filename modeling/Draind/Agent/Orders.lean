import Draind.Agent.Loop
import Draind.Agent.Timeouts
import Draind.Daemon.Responses

namespace Draind.Agent

open Daemon (Env Fd Io World configOf)
open Framing Json Proto
open Sock (splitLines)

-- What on_daemon_line has done for the lines of one event, one after the other.
def lineEffects (e : LoopEvent) : Process → List Bytes → List Effect
  | _, [] => []
  | s, line :: rest =>
      (onDaemonLine e.backends s.idle.isSome line).2 ++ lineEffects e (s.handleLine e line) rest

def eventEffects (s : Process) (e : LoopEvent) : List Effect :=
  if s.daemonFd = some e.fd then
    let (ok, buffer, lines) := s.daemonBuf.feed e.reads
    if ok then
      lineEffects e { s with daemonBuf := buffer, arrived := s.arrived ++ Sock.taken e.reads }
        (lines.filter (· ≠ []))
    else []
  else []

def eventsEffects : Process → List LoopEvent → List Effect
  | _, [] => []
  | s, e :: rest =>
      eventEffects s e ++
        if (s.handleEvent e).daemonFd = none then [] else eventsEffects (s.handleEvent e) rest

def moveEffects (s : Process) : LoopMove → List Effect
  | .wake signals events =>
      if s.impl.phase = .looping ∧ s.daemonFd ≠ none then
        eventsEffects { s with impl := signals.foldl (fun a m => a.pollMpris m.1 m.2) s.impl } events
      else []
  | _ => []

-- The agent, with what on_daemon_line has done so far.
structure Worker where
  process : Process
  effects : List Effect

namespace Worker

def start (opts : AgentOptions) (room : Nat → Nat) (fd : Fd) : Worker :=
  ⟨.start opts room fd, []⟩

def step (opts : AgentOptions) (a : Worker) (move : LoopMove) : Worker :=
  ⟨Process.step opts a.process move, a.effects ++ moveEffects a.process move⟩

end Worker

def Effect.isOrder : Effect → Bool
  | .monitor _ => false
  | _ => true

-- What a line has the agent run and answer.
def ordersOf (line : Bytes) : List Effect :=
  match decode line with
  | .error _ => []
  | .ok msg =>
      if msgType msg = T_LOCK then [.lockCmd]
      else if msgType msg = T_PRE_SLEEP then [.beforeSleepCmd, .send encodeAck]
      else []

-- The milliseconds in a config message.
def timeoutsOf (msg : Value) : Int32 × Int32 :=
  ((msg.num (bytes "dim_timeout") 0).toInt32 * 1000, (msg.num (bytes "sleep_timeout") 0).toInt32 * 1000)

def timeoutsStep (t : Option (Int32 × Int32)) : Effect → Option (Int32 × Int32)
  | .monitor call => some (call.dimMs, call.sleepMs)
  | _ => t

-- The timeouts that an idle monitor was last given.
def lastTimeouts (effects : List Effect) : Option (Int32 × Int32) :=
  effects.foldl timeoutsStep none

-- The last config message among the lines.
def configIn (lines : List Bytes) : Option Value :=
  lines.foldl (fun c line => (configOf line).or c) none

def Backends.comeUp (b : Backends) : Prop :=
  b.wayland = some true ∨ b.input = true

-- Whichever idle monitor is set up in this move, one comes up.
def ComesUp : LoopMove → Prop
  | .wake _ events => ∀ e ∈ events, e.backends.comeUp
  | _ => True

def linesStep (h : Fd → List Bytes) : Io → Fd → List Bytes
  | .accepted fd => Function.update h fd []
  | .sent fd line true => Function.update h fd (h fd ++ [line])
  | _ => h

-- The lines written on the connection of fd, since it was accepted.
def linesOn (trace : List Io) : Fd → List Bytes :=
  trace.foldl linesStep fun _ => []

-- What has been done is what the lines said.
structure Done (up : Prop) (idle : Bool) (handled : List Bytes) (effects : List Effect) : Prop where
  orders : effects.filter Effect.isOrder = handled.flatMap ordersOf
  timeouts : lastTimeouts effects = (configIn handled).map timeoutsOf
  present : up → (configIn handled).isSome → idle = true

section Lines

theorem setupIdleMonitor_up {b : Backends} (h : b.comeUp) (dimMs sleepMs : Int32) :
    (setupIdleMonitor b dimMs sleepMs).1 = true := by
  unfold setupIdleMonitor
  rcases h with h | h
  · simp [h]
  · dsimp only
    split
    · rfl
    · exact h
    · exact h

theorem setupIdleMonitor_timeouts (b : Backends) (dimMs sleepMs : Int32) (t : Option (Int32 × Int32)) :
    (setupIdleMonitor b dimMs sleepMs).2.filter Effect.isOrder = [] ∧
      (setupIdleMonitor b dimMs sleepMs).2.foldl timeoutsStep t = some (dimMs, sleepMs) := by
  unfold setupIdleMonitor
  dsimp only
  split <;> exact ⟨rfl, rfl⟩

theorem configIn_concat (lines : List Bytes) (line : Bytes) :
    configIn (lines ++ [line]) = (configOf line).or (configIn lines) := by
  simp [configIn]

theorem orders_timeouts {out : List Effect} (h : ∀ e ∈ out, e.isOrder = true) (t : Option (Int32 × Int32)) :
    out.foldl timeoutsStep t = t := by
  induction out with
  | nil => rfl
  | cons e rest ih =>
      have hstep : timeoutsStep t e = t := by
        cases e with
        | monitor call => exact absurd (h (.monitor call) (by simp)) (by simp [Effect.isOrder])
        | _ => rfl
      rw [List.foldl_cons, hstep]
      exact ih fun e he => h e (by simp [he])

-- A line that is no config leaves the idle monitor alone.
theorem Done.order {up : Prop} {idle : Bool} {handled : List Bytes} {effects : List Effect}
    (h : Done up idle handled effects) {line : Bytes} (hc : configOf line = none)
    (ho : ∀ e ∈ ordersOf line, e.isOrder = true) :
    Done up idle (handled ++ [line]) (effects ++ ordersOf line) := by
  refine ⟨?_, ?_, ?_⟩
  · rw [List.filter_append, List.filter_eq_self.mpr ho, h.orders]
    simp
  · rw [configIn_concat, hc, Option.none_or, ← h.timeouts, lastTimeouts, List.foldl_append,
      orders_timeouts ho]
    rfl
  · rw [configIn_concat, hc, Option.none_or]
    exact h.present

theorem Done.config {up : Prop} {idle idle' : Bool} {handled : List Bytes} {effects out : List Effect}
    (h : Done up idle handled effects) {line : Bytes} {msg : Value} (hc : configOf line = some msg)
    (hl : ordersOf line = []) (ho : out.filter Effect.isOrder = [])
    (ht : ∀ t, out.foldl timeoutsStep t = some (timeoutsOf msg)) (hi : up → idle' = true) :
    Done up idle' (handled ++ [line]) (effects ++ out) := by
  refine ⟨?_, ?_, fun hup _ => hi hup⟩
  · rw [List.filter_append, h.orders, ho]
    simp [hl]
  · rw [configIn_concat, hc, lastTimeouts, List.foldl_append, ht]
    rfl

-- One line, whatever it is.
theorem Done.line {up : Prop} {b : Backends} (hup : up → b.comeUp) {idle : Bool} {handled : List Bytes}
    {effects : List Effect} (h : Done up idle handled effects) (line : Bytes) :
    Done up (onDaemonLine b idle line).1 (handled ++ [line]) (effects ++ (onDaemonLine b idle line).2) := by
  cases hd : decode line with
  | error e =>
      have hnone : ordersOf line = [] := by simp [ordersOf, hd]
      have hsame : Done up idle (handled ++ [line]) (effects ++ ordersOf line) :=
        h.order (by simp [configOf, hd]) (by simp [hnone])
      simpa [onDaemonLine, hd, hnone] using hsame
  | ok msg =>
      by_cases hconfig : msgType msg = T_CONFIG
      · have hc : configOf line = some msg := by simp [configOf, hd, hconfig]
        have hne : T_CONFIG ≠ T_LOCK ∧ T_CONFIG ≠ T_PRE_SLEEP := by decide
        have hl : ordersOf line = [] := by simp [ordersOf, hd, hconfig, hne]
        simp only [onDaemonLine, hd, hconfig, if_true]
        cases idle with
        | true => exact h.config hc hl rfl (fun _ => rfl) fun _ => rfl
        | false =>
            have hs := setupIdleMonitor_timeouts b (timeoutsOf msg).1 (timeoutsOf msg).2
            exact h.config hc hl (hs none).1 (fun t => (hs t).2) fun hu => setupIdleMonitor_up (hup hu) _ _
      · have hc : configOf line = none := by simp [configOf, hd, hconfig]
        have heffects : onDaemonLine b idle line = (idle, ordersOf line) := by
          simp only [onDaemonLine, ordersOf, hd, hconfig, if_false]
          split_ifs <;> rfl
        rw [heffects]
        refine h.order hc fun e he => ?_
        simp only [ordersOf, hd] at he
        split_ifs at he
        · obtain rfl := List.mem_singleton.mp he
          rfl
        · simp only [List.mem_cons, List.not_mem_nil, or_false] at he
          rcases he with rfl | rfl <;> rfl
        · cases he

end Lines

-- The agent does what the lines of its connection say, as long as that stands. One
-- that is lost leaves nothing of what came on it.
def Worker.Obeys (up : Prop) (a : Worker) (lost : Prop) : Prop :=
  a.process.daemonFd ≠ none ∧ Done up a.process.idle.isSome a.process.handled a.effects ∨
    a.process.arrived = [] ∧ lost

structure Worker.Obedient (up : Prop) (a : Worker) : Prop where
  reading : a.process.Reading
  obeys : a.Obeys up (a.process.daemonFd = none ∨ a.process.impl.phase = .returning)

section Events

variable {up : Prop}

theorem handleLine_idle (e : LoopEvent) (s : Process) (line : Bytes) :
    (s.handleLine e line).idle.isSome = (onDaemonLine e.backends s.idle.isSome line).1 := by
  simp only [Process.handleLine]
  split <;> simp_all

-- The lines of one event, by induction on them.
theorem Done.lines {e : LoopEvent} (hup : up → e.backends.comeUp) (lines : List Bytes) {s : Process}
    {effects : List Effect} (h : Done up s.idle.isSome s.handled effects) :
    Done up (lines.foldl (Process.handleLine e) s).idle.isSome (lines.foldl (Process.handleLine e) s).handled
      (effects ++ lineEffects e s lines) := by
  induction lines generalizing s effects with
  | nil => simpa [lineEffects] using h
  | cons line rest ih =>
      have hline := h.line hup line
      rw [← handleLine_idle] at hline
      have hrest := ih (s := s.handleLine e line) hline
      rwa [List.append_assoc] at hrest

theorem lines_daemonFd (e : LoopEvent) (lines : List Bytes) (s : Process) :
    (lines.foldl (Process.handleLine e) s).daemonFd = s.daemonFd := by
  induction lines generalizing s with
  | nil => rfl
  | cons line rest ih => exact (ih _).trans rfl

theorem event_obeys {e : LoopEvent} (hup : up → e.backends.comeUp) {s : Process} {effects : List Effect}
    (hfd : s.daemonFd ≠ none) (hd : Done up s.idle.isSome s.handled effects) :
    Worker.Obeys up ⟨s.handleEvent e, effects ++ eventEffects s e⟩ ((s.handleEvent e).daemonFd = none) := by
  unfold Worker.Obeys eventEffects Process.handleEvent
  dsimp only
  split
  · split
    · left
      refine ⟨?_, Done.lines hup _ hd⟩
      rw [lines_daemonFd]
      exact hfd
    · exact .inr ⟨rfl, rfl⟩
  · rw [List.append_nil]
    split <;> exact .inl ⟨hfd, hd⟩

-- The loop over the events stops where the connection is lost.
theorem events_obeys {events : List LoopEvent} (hup : up → ∀ e ∈ events, e.backends.comeUp) {s : Process}
    {effects : List Effect} (hfd : s.daemonFd ≠ none) (hd : Done up s.idle.isSome s.handled effects) :
    Worker.Obeys up ⟨s.handleEvents events, effects ++ eventsEffects s events⟩
      ((s.handleEvents events).daemonFd = none) := by
  induction events generalizing s effects with
  | nil =>
      rw [eventsEffects, List.append_nil]
      exact .inl ⟨hfd, hd⟩
  | cons e rest ih =>
      have he := event_obeys (fun hu => hup hu e (by simp)) hfd hd
      simp only [Process.handleEvents, eventsEffects]
      by_cases hgone : (s.handleEvent e).daemonFd = none
      · rw [if_pos hgone, if_pos hgone, List.append_nil]
        exact he
      · rw [if_neg hgone, if_neg hgone, ← List.append_assoc]
        rcases he with ⟨-, hdone⟩ | ⟨-, hlost⟩
        · exact ih (fun hu e he => hup hu e (by simp [he])) hgone hdone
        · exact absurd hlost hgone

theorem step_obedient (opts : AgentOptions) (a : Worker) (move : LoopMove) (h : a.Obedient up)
    (hm : up → ComesUp move) : (a.step opts move).Obedient up := by
  obtain ⟨hr, hd⟩ := h
  cases move with
  | init query owner names =>
      simp only [Worker.step, Process.step, moveEffects, List.append_nil]
      split
      · rename_i hstart
        refine ⟨⟨hr.passed, hr.buffered⟩, hd.imp id (.imp id (.imp id fun hphase => ?_))⟩
        rw [hstart] at hphase
        cases hphase
      · exact ⟨hr, hd⟩
  | initFailed =>
      simp only [Worker.step, Process.step, moveEffects, List.append_nil]
      split
      · rename_i hstart
        refine ⟨⟨hr.passed, hr.buffered⟩, hd.imp id (.imp id (.imp id fun hphase => ?_))⟩
        rw [hstart] at hphase
        cases hphase
      · exact ⟨hr, hd⟩
  | wake signals events =>
      simp only [Worker.step, Process.step, moveEffects]
      split
      · rename_i hloop
        have hdone := (hd.resolve_right fun h => h.2.elim hloop.2 fun hphase => by
          rw [hloop.1] at hphase
          cases hphase).2
        generalize hs : ({ a.process with
          impl := signals.foldl (fun a m => a.pollMpris m.1 m.2) a.process.impl } : Process) = s
        have hsr : s.Reading := hs ▸ ⟨hr.passed, hr.buffered⟩
        have hevents := events_obeys (s := s) hm (hs ▸ hloop.2) (by subst hs; exact hdone)
        exact ⟨(Process.handleEvents_reading events s hsr).1, hevents.imp id (.imp id .inl)⟩
      · rw [List.append_nil]
        exact ⟨hr, hd⟩
  | connect fd room =>
      simp only [Worker.step, Process.step, moveEffects, List.append_nil]
      split
      · rename_i hnone
        have hlost := hd.resolve_left fun h => h.1 hnone
        exact ⟨⟨hr.passed, hr.buffered⟩, .inr ⟨hlost.1, .inr rfl⟩⟩
      · exact ⟨hr, hd⟩

theorem run_obedient (opts : AgentOptions) {moves : List LoopMove} (hup : up → ∀ move ∈ moves, ComesUp move)
    {a : Worker} (h : a.Obedient up) : (Run.exec (Worker.step opts) a moves).Obedient up := by
  induction moves generalizing a with
  | nil => exact h
  | cons move rest ih =>
      have hstep := step_obedient opts a move h fun hu => hup hu move (by simp)
      exact ih (fun hu m hm => hup hu m (by simp [hm])) hstep

theorem start_obedient (opts : AgentOptions) (room : Nat → Nat) (fd : Fd) :
    (Worker.start opts room fd).Obedient up :=
  ⟨⟨rfl, rfl⟩, .inl ⟨by simp [Worker.start, Process.start], rfl, rfl, fun _ h => by cases h⟩⟩

end Events

section Stream

@[simp]
theorem linesOn_append (trace : List Io) (e : Io) : linesOn (trace ++ [e]) = linesStep (linesOn trace) e := by
  simp [linesOn]

theorem mem_linesOn {trace : List Io} {fd : Fd} {line : Bytes} (h : line ∈ linesOn trace fd) :
    .sent fd line true ∈ trace := by
  induction trace using List.reverseRecOn with
  | nil => cases h
  | append_singleton trace e ih =>
      rw [linesOn_append] at h
      have hold : line ∈ linesOn trace fd → .sent fd line true ∈ trace ++ [e] := fun h => by simp [ih h]
      cases e with
      | accepted other =>
          by_cases ho : fd = other
          · simp [linesStep, ho] at h
          · exact hold (by simpa [linesStep, ho] using h)
      | sent other msg ok =>
          by_cases ho : fd = other ∧ ok = true
          · obtain ⟨rfl, rfl⟩ := ho
            simp only [linesStep, Function.update_self, List.mem_append, List.mem_singleton] at h
            rcases h with h | rfl
            · exact hold h
            · simp
          · cases ok with
            | false => exact hold h
            | true =>
                have hne : fd ≠ other := by simpa using ho
                exact hold (by simpa [linesStep, hne] using h)
      | _ => exact hold h

-- The last config of a connection is the last of its lines that is one.
theorem lastConfig_eq (trace : List Io) (fd : Fd) :
    Daemon.lastConfig trace fd = configIn (linesOn trace fd) := by
  induction trace using List.reverseRecOn with
  | nil => rfl
  | append_singleton trace e ih =>
      rw [Daemon.lastConfig_append, linesOn_append]
      cases e with
      | accepted other =>
          by_cases ho : fd = other
          · simp [linesStep, Daemon.configStep, ho, configIn]
          · simpa [linesStep, Daemon.configStep, ho] using ih
      | sent other msg ok =>
          cases ok with
          | false => exact ih
          | true =>
              by_cases ho : fd = other
              · subst ho
                simp [linesStep, Daemon.configStep, configIn_concat, ih]
              · simpa [linesStep, Daemon.configStep, ho] using ih
      | _ => exact ih

-- The lines are messages.
theorem linesOn_whole {trace : List Io} (h : Trace.Each Daemon.Addressed trace) (fd : Fd) :
    ∀ line ∈ linesOn trace fd, 10 ∉ line ∧ line ≠ [] := by
  intro line hl
  obtain ⟨before, after, heq⟩ := List.append_of_mem (mem_linesOn hl)
  obtain ⟨v, hv, rfl⟩ := (h before _ after heq fd line true rfl).1.exists_plain
  exact ⟨(readable_dump v hv).whole, (readable_dump v hv).nonempty⟩

-- Whatever part of the lines has come, the agent was handed the whole ones in it.
theorem handled_eq {lines : List Bytes} (h : ∀ line ∈ lines, 10 ∉ line ∧ line ≠ []) {s : Process}
    (hr : s.Reading) (ha : s.arrived <+: frame 10 lines) : s.handled <+: lines := by
  obtain ⟨rest, hrest⟩ := ha
  obtain ⟨first, second, left, rfl, hcome, hleft, -⟩ := frame_split 10 (fun line hl => (h line hl).1) _ _ hrest
  have hsplit := Sock.splitLines_frame first left (fun line hl => (h line (by simp [hl])).1) hleft
  have hall : first.filter (· ≠ []) = first :=
    List.filter_eq_self.mpr fun line hl => by simpa using (h line (by simp [hl])).2
  rw [hr.passed, hcome, hsplit, hall]
  exact List.prefix_append _ _

end Stream

section Runs

variable (env : Env) (opts : AgentOptions) (room : Nat → Nat) (daemonFd : Fd)

-- The agent's end of a connection, with any part of what the daemon has written on it.
-- Of the lines that have come whole, each is obeyed once and in its turn, as long as the
-- connection stands.
theorem orders_run (w : World) (h : Daemon.Started env w) (moves : List Daemon.Move) (fd : Fd)
    (agentMoves : List LoopMove) (a : Worker)
    (ha : a = Run.exec (Worker.step opts) (.start opts room daemonFd) agentMoves)
    (hcome : a.process.arrived <+: frame 10 (linesOn (Daemon.run env w moves).world.trace fd)) :
    a.process.handled <+: linesOn (Daemon.run env w moves).world.trace fd ∧
      (a.process.daemonFd ≠ none ∧ a.process.impl.phase ≠ .returning →
        a.effects.filter Effect.isOrder = a.process.handled.flatMap ordersOf) := by
  have hobedient : (Run.exec (Worker.step opts) (.start opts room daemonFd) agentMoves).Obedient False :=
    run_obedient opts (fun hf => hf.elim) (start_obedient opts room daemonFd)
  rw [← ha] at hobedient
  have hwhole := linesOn_whole (Daemon.run_accounted env w h moves).addressed fd
  refine ⟨handled_eq hwhole hobedient.reading hcome, fun hstands => ?_⟩
  rcases hobedient.obeys with ⟨-, hdone⟩ | ⟨-, hlost | hphase⟩
  · exact hdone.orders
  · exact absurd hlost hstands.1
  · exact absurd hphase hstands.2

-- Once all of it has come, the idle monitor of a registered agent counts to the timeouts
-- of the profile that is active in the daemon, whatever was selected and reloaded before.
theorem timeouts_run (hw : ∀ trace fd msg, env.writable trace fd msg = true) (w : World)
    (h : Daemon.Started env w) (hmax : Daemon.MaxReads w.sysfs) (moves : List Daemon.Move)
    (hm : Run.Meets (Daemon.step env) Daemon.Orderly ⟨w, []⟩ moves) (fd : Fd)
    (hfd : fd ∈ (Daemon.run env w moves).world.agents) (agentMoves : List LoopMove) (a : Worker)
    (ha : a = Run.exec (Worker.step opts) (.start opts room daemonFd) agentMoves)
    (hcome : a.process.arrived = frame 10 (linesOn (Daemon.run env w moves).world.trace fd)) :
    lastTimeouts a.effects =
        some ((((Daemon.run env w moves).world.activeProfile.map Profile.dimTimeout).getD 0) * 1000,
          (((Daemon.run env w moves).world.activeProfile.map Profile.sleepTimeout).getD 0) * 1000) ∧
      ((∀ move ∈ agentMoves, ComesUp move) → a.process.idle.isSome) := by
  have hobedient := run_obedient opts (fun hup : ∀ move ∈ agentMoves, ComesUp move => hup)
    (start_obedient opts room daemonFd)
  rw [← ha] at hobedient
  obtain ⟨hfollowing, -⟩ := Run.invariant (Daemon.step env)
    (fun s => Daemon.Following s.world ∧ Daemon.Queued s)
    (fun s move hs ho => ⟨Daemon.step_following env hw s move hs.1 hs.2 ho,
      Daemon.step_queued env s move hs.2 ho.1⟩)
    ⟨Daemon.started_following env w h hmax, fun fd line hl => by cases hl⟩ hm
  obtain ⟨msg, hlast, hdim, hsleep⟩ := hfollowing.follow fd hfd
  rw [lastConfig_eq] at hlast
  have hwhole := linesOn_whole (Daemon.run_accounted env w h moves).addressed fd
  have hhandled : a.process.handled = linesOn (Daemon.run env w moves).world.trace fd := by
    have hsplit := Sock.splitLines_frame (linesOn (Daemon.run env w moves).world.trace fd) []
      (fun line hl => (hwhole line hl).1) List.not_mem_nil
    rw [List.append_nil] at hsplit
    rw [hobedient.reading.passed, hcome, hsplit]
    exact List.filter_eq_self.mpr fun line hl => by simpa using (hwhole line hl).2
  rcases hobedient.obeys with ⟨-, hdone⟩ | ⟨hnothing, -⟩
  · rw [hhandled] at hdone
    refine ⟨?_, fun hup => hdone.present hup (by rw [hlast]; rfl)⟩
    rw [hdone.timeouts, hlast]
    simp [timeoutsOf, hdim, hsleep]
  · -- The daemon has written a config, at least.
    rw [hcome] at hnothing
    cases hlines : linesOn (Daemon.run env w moves).world.trace fd with
    | nil => rw [hlines] at hlast; cases hlast
    | cons line rest => rw [hlines] at hnothing; simp at hnothing

end Runs

-- An agent says hello and asks to be locked, as the control program would.
def helloThenLock : List Daemon.Move :=
  [Daemon.accept 7, Daemon.readable 7 (encodeHello (bytes "1") 1000 ++ [10] ++
    encodeCtl (bytes "lock") [] ++ [10]), .call, .call]

-- What comes is cut in the middle of a line.
def readInPieces (stream : Bytes) : List LoopMove :=
  [.initFailed, .wake [] [⟨5, [.data (stream.take 60)], ⟨none, true⟩, 6, []⟩],
    .wake [] [⟨5, [.data (stream.drop 60), .again], ⟨none, true⟩, 6, []⟩]]

def lockStream : Bytes :=
  frame 10 [encodeConfig 300 600, encodeLock]

theorem orders_lock :
    ∃ w, Daemon.sampleStart = .ok w ∧
      ((Run.exec (Worker.step ⟨bytes "1", 1000⟩) (.start ⟨bytes "1", 1000⟩ (fun _ => 4096) 5)
          (readInPieces lockStream)).process.handled <+: linesOn (Daemon.run .plain w helloThenLock).world.trace 7 ∧
        (Run.exec (Worker.step ⟨bytes "1", 1000⟩) (.start ⟨bytes "1", 1000⟩ (fun _ => 4096) 5)
          (readInPieces lockStream)).effects.filter Effect.isOrder =
          (Run.exec (Worker.step ⟨bytes "1", 1000⟩) (.start ⟨bytes "1", 1000⟩ (fun _ => 4096) 5)
            (readInPieces lockStream)).process.handled.flatMap ordersOf) :=
  ⟨_, rfl, (orders_run .plain ⟨bytes "1", 1000⟩ (fun _ => 4096) 5 _ (Daemon.sample_started rfl) helloThenLock 7
    (readInPieces lockStream) _ rfl (by decide)).imp_right fun h => h (by decide)⟩

-- The second profile is selected while the agent is connected.
def twoTimeouts : Bytes :=
  bytes "\x7b\"profiles\":[\x7b\"name\":\"a\"\x7d,\x7b\"name\":\"b\",\"dim_timeout\":60,\"sleep_timeout\":0\x7d]\x7d"

def selectStart : Except Exn World :=
  Daemon.setup .plain [] (some twoTimeouts) ⟨none, [], []⟩ (bytes "1")

theorem select_started {w : World} (h : selectStart = .ok w) : Daemon.Started .plain w :=
  ⟨_, _, _, _, h⟩

def helloThenSelect : List Daemon.Move :=
  [Daemon.accept 7, Daemon.readable 7 (encodeHello (bytes "1") 1000 ++ [10]), .call,
    Daemon.readable 7 (encodeCtl (bytes "set_profile") (bytes "b") ++ [10]), .call]

def selectStream : Bytes :=
  frame 10 [encodeConfig 300 600, encodeConfig 60 0, encodeCtlReply (Daemon.fields [Daemon.ok true])]

theorem timeouts_select :
    ∃ w, selectStart = .ok w ∧
      (lastTimeouts (Run.exec (Worker.step ⟨bytes "1", 1000⟩) (.start ⟨bytes "1", 1000⟩ (fun _ => 4096) 5)
          (readInPieces selectStream)).effects =
        some ((((Daemon.run .plain w helloThenSelect).world.activeProfile.map Profile.dimTimeout).getD 0) * 1000,
          (((Daemon.run .plain w helloThenSelect).world.activeProfile.map Profile.sleepTimeout).getD 0) * 1000) ∧
      ((∀ move ∈ readInPieces selectStream, ComesUp move) →
        (Run.exec (Worker.step ⟨bytes "1", 1000⟩) (.start ⟨bytes "1", 1000⟩ (fun _ => 4096) 5)
          (readInPieces selectStream)).process.idle.isSome)) := by
  refine ⟨_, rfl, timeouts_run .plain ⟨bytes "1", 1000⟩ (fun _ => 4096) 5 (fun _ _ _ => rfl) _
    (select_started rfl) ?_ helloThenSelect ⟨⟨trivial, trivial⟩, ⟨trivial, trivial⟩, ⟨⟨_, rfl⟩, trivial⟩,
      ⟨trivial, trivial⟩, ⟨⟨_, rfl⟩, trivial⟩, trivial⟩ 7 (by decide) (readInPieces selectStream) _ rfl (by decide)⟩
  intro b hb
  cases hb

end Draind.Agent
