import Draind.Daemon.History

namespace Draind.Daemon

open Json Proto

@[simp] theorem Result.settle_conns (r : Result) : r.settle.conns = r.world.conns := by
  cases r <;> rfl

@[simp] theorem Result.settle_agents (r : Result) : r.settle.agents = r.world.agents := by
  cases r <;> rfl

@[simp] theorem Result.settle_trace (r : Result) : r.settle.trace = r.world.trace := by
  cases r <;> rfl

@[simp] theorem Result.settle_session (r : Result) :
    r.settle.activeSessionId = r.world.activeSessionId := by
  cases r <;> rfl

@[simp] theorem Result.settle_dimmed (r : Result) : r.settle.dimmed = r.world.dimmed := by
  cases r <;> rfl

@[simp] theorem Result.settle_ok (w : World) : Result.settle (.ok w) = w := rfl

-- The states setup can leave, whatever the config file, sysfs and logind hold.
def Started (env : Env) (w : World) : Prop :=
  ∃ path file sysfs sessionId, setup env path file sysfs sessionId = .ok w

-- A machine on which every write succeeds and the maps are iterated newest first.
def Env.plain : Env where
  listenFd := 5
  hwFd := 6
  busFd := 4
  writable _ _ _ := true
  sysfsWritable _ _ := true
  saved _ := some (2 ^ 20)
  agentOrder _ entries := entries
  agentOrder_perm _ _ := .refl _
  connOrder _ entries := entries
  connOrder_perm _ _ := .refl _
  rounds _ := []

def sampleConfig : Bytes :=
  bytes "\x7b\"profiles\":[\x7b\"name\":\"a\"\x7d,\x7b\"name\":\"b\",\"brightness_percent\":50\x7d]\x7d"

-- The daemon started on this configuration, with session "1" active and the
-- backlight at 80 of 100.
def sampleStart : Except Exn World :=
  setup .plain [] (some sampleConfig) ⟨some ⟨bytes "100\n", bytes "80\n"⟩, [], []⟩ (bytes "1")

-- A connection is accepted, and a descriptor becomes readable with this data.
def accept (fd : Fd) : Move :=
  .ready ⟨5, some fd, [], []⟩

def readable (fd : Fd) (data : Bytes) : Move :=
  .ready ⟨fd, none, [.data data], []⟩

theorem sample_started {w : World} (h : sampleStart = .ok w) : Started .plain w :=
  ⟨_, _, _, _, h⟩

-- All a move can do.
inductive Stepped (env : Env) (s : State) : Move → State → Prop
  | idle (move : Move) : Stepped env s move s
  | signal (m : SeatSignal) (hp : s.pending = []) (he : s.world.exited = false) :
      Stepped env s (.signal m) ⟨handleSeatProperties m s.world, []⟩
  | accept (r : Ready) (fd : Fd) (hp : s.pending = []) (he : s.world.exited = false)
      (hf : fresh env s.world fd) : Stepped env s (.ready r) ⟨acceptClient fd s.world, []⟩
  | feed (r : Ready) (c : Connection) (hp : s.pending = []) (he : s.world.exited = false)
      (hc : s.world.conns.lookup r.fd = some c) :
      Stepped env s (.ready r)
        ⟨{ s.world with conns := s.world.conns.insert r.fd { c with buf := (c.buf.feed r.reads).2.1 } },
          ((c.buf.feed r.reads).2.2.filter (· ≠ [])).map (.line r.fd) ++
            if (c.buf.feed r.reads).1 then [] else [.hangUp r.fd]⟩
  | input (r : Ready) (hp : s.pending = []) (he : s.world.exited = false) :
      Stepped env s (.ready r) ⟨s.world, (r.inputs.filterMap hwEvent).map .button⟩
  | call (c : Call) (rest : List Call) (hp : s.pending = c :: rest) (he : s.world.exited = false) :
      Stepped env s .call ⟨(perform env c s.world).settle, rest⟩
  | outside (file : Option Bytes) (sysfs : Sysfs) (he : s.world.exited = false) :
      Stepped env s (.outside file sysfs)
        ⟨{ s.world with file := file, sysfs := sysfs }, s.pending⟩

theorem step_stepped (env : Env) (s : State) (move : Move) : Stepped env s move (step env s move) := by
  obtain ⟨w, pending⟩ := s
  cases move with
  | signal m =>
      unfold step
      dsimp only
      split
      · exact .idle _
      · rename_i h
        obtain ⟨he, rfl⟩ : w.exited = false ∧ pending = [] := by simpa using h
        exact .signal m rfl he
  | call =>
      unfold step
      dsimp only
      split
      · exact .idle _
      · split
        · exact .idle _
        · rename_i h
          exact .call _ _ rfl (by simpa using h)
  | outside file sysfs =>
      unfold step
      dsimp only
      split
      · exact .idle _
      · rename_i h
        exact .outside file sysfs (by simpa using h)
  | ready r =>
      unfold step
      dsimp only
      split
      · exact .idle _
      rename_i h
      obtain ⟨he, rfl⟩ : w.exited = false ∧ pending = [] := by simpa using h
      split
      · exact .idle _
      rename_i hfresh
      unfold begin
      split
      · rename_i hl
        cases ha : r.accepted with
        | none => exact .idle _
        | some fd =>
            have hf : fresh env w fd := by
              by_contra hn
              exact hfresh ⟨hl, fd, by simp [ha], hn⟩
            exact .accept r fd rfl he hf
      split
      · rename_i c hc
        exact .feed r c rfl he hc
      · split
        · exact .input r rfl he
        · exact .idle _

-- An exception has ended the process.
theorem step_exited (env : Env) (s : State) (move : Move) (h : s.world.exited = true) : step env s move = s := by
  obtain ⟨w, pending⟩ := s
  replace h : w.exited = true := h
  cases move with
  | call => cases pending <;> simp [step, h]
  | signal | ready | outside => simp [step, h]

theorem exec_exited (env : Env) (s : State) (moves : List Move) (h : s.world.exited = true) :
    Run.exec (step env) s moves = s := by
  induction moves with
  | nil => rfl
  | cons move rest ih => rw [Run.exec_cons, step_exited env s move h, ih]

-- A signal moves the session and is recorded. It does nothing else.
structure Seated (w w' : World) : Prop where
  conns : w'.conns = w.conns
  agents : w'.agents = w.agents
  dimmed : w'.dimmed = w.dimmed
  exited : w'.exited = w.exited
  config : w'.config = w.config
  power : w'.userBrightness = w.userBrightness
  sysfs : w'.sysfs = w.sysfs
  grows : Trace.Grows (fun e => ∃ sessionId, e = .seat sessionId) w.trace w'.trace

theorem scanChanged_seated (changed : List (Bytes × Variant)) (w : World) :
    Seated w (scanChanged changed w) := by
  induction changed generalizing w with
  | nil => exact ⟨rfl, rfl, rfl, rfl, rfl, rfl, rfl, .refl _⟩
  | cons entry rest ih =>
      obtain ⟨key, value⟩ := entry
      unfold scanChanged
      split
      · cases value with
        | other => exact ⟨rfl, rfl, rfl, rfl, rfl, rfl, rfl, .refl _⟩
        | session id path =>
            have h := ih ({ w with activeSessionId := id }.emit (.seat id))
            exact ⟨h.conns, h.agents, h.dimmed, h.exited, h.config, h.power, h.sysfs,
              (Trace.Grows.single _ ⟨id, rfl⟩).trans h.grows⟩
      · exact ih w

theorem handleSeatProperties_seated (m : SeatSignal) (w : World) :
    Seated w (handleSeatProperties m w) := by
  unfold handleSeatProperties
  split
  · exact ⟨rfl, rfl, rfl, rfl, rfl, rfl, rfl, .refl _⟩
  · exact scanChanged_seated m.changed w

theorem Seated.received {w w' : World} (h : Seated w w') : received w'.trace = received w.trace := by
  refine h.grows.foldl_eq receivedStep ?_ _
  rintro h _ ⟨sessionId, rfl⟩
  rfl

-- What setup leaves behind: no connections, no agents, the screen not dimmed.
theorem started_spec (env : Env) (w : World) (h : Started env w) :
    w.conns = ∅ ∧ w.agents = ∅ ∧ w.dimmed = false ∧ w.exited = false ∧
      Trace.Grows Io.IsRoutine [] w.trace := by
  obtain ⟨path, file, sysfs, sessionId, h⟩ := h
  obtain ⟨config, -, h⟩ := (bind_ok_iff _ _ _).mp h
  dsimp only at h
  split at h
  · cases h
    exact ⟨rfl, rfl, rfl, rfl, .refl _⟩
  · rename_i p _
    generalize hw₀ : (World.mk _ _ _ _ _ _ _ _ _ _) = w₀ at h
    have hk := apply_keeps env p w₀
    cases ha : apply env p w₀ with
    | error t =>
        rw [ha] at h
        cases h
    | ok w' =>
        rw [ha] at h hk
        cases h
        subst hw₀
        exact ⟨hk.conns, hk.agents, hk.dimmed, hk.exited, hk.grows⟩

theorem started_received (env : Env) (w : World) (h : Started env w) :
    received w.trace = fun _ => none :=
  received_of_grows ((started_spec env w h).2.2.2.2.mono fun e he => .inl (.inl (Io.IsRoutine.isDim e he)))

end Draind.Daemon
