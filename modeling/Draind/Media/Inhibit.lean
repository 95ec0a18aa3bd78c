import Draind.Media.Channel

namespace Draind.Media

open Agent (Impl AgentOptions Edge Link Remark Settled Alternates edgeLine inhibitReason remarkLine)
open Daemon (Fd)
open Framing Proto

-- Each uninhibit has an earlier inhibit of its own.
def Matched (lines : List Bytes) : Prop :=
  ∀ before, before <+: lines →
    before.count (edgeLine .uninhibit) ≤ before.count (edgeLine .inhibit)

def Inhibited (w : Daemon.World) (fd : Fd) : Prop :=
  ∃ entry, w.agents.lookup fd = some entry ∧ inhibitReason ∈ entry.inhibits

instance (w : Daemon.World) (fd : Fd) : Decidable (Inhibited w fd) :=
  match h : w.agents.lookup fd with
  | none => .isFalse (by simp [Inhibited, h])
  | some entry => decidable_of_iff (inhibitReason ∈ entry.inhibits) (by simp [Inhibited, h])

-- The daemon has read and handled everything that the agent has written.
def Quiet (s : System) (a : Impl) (fd : Fd) : Prop :=
  a.link.wire = [] ∧ ∀ line, .line fd line ∉ s.daemon.pending

-- The daemon holds the inhibit while a player plays, and the connection has
-- carried no uninhibit too many.
def Agrees (s : System) : Prop :=
  ∀ a, s.agent = some a →
    Matched (a.link.sent.map Prod.fst) ∧
    ∀ fd ∈ s.linked, a.phase ≠ .starting → Quiet s a fd →
      (Inhibited s.daemon.world fd ↔ a.mpris.playing ≠ ∅)

-- The kernel takes the next line whole, if there still is a connection.
def Takes (l : Link) (msg : Bytes) : Prop :=
  l.alive = true → msg.length + 1 ≤ l.room l.sent.length

def TakesAll : Link → List Bytes → Prop
  | _, [] => True
  | l, msg :: rest => Takes l msg ∧ TakesAll (l.writeLine msg) rest

-- No player plays when the agent starts or loses its connection, nothing starts to
-- play where init has failed, and no line is written in part, nor is hello, inhibit
-- or uninhibit left out.
def NoEdgeLost (opts : AgentOptions) (s : System) : Move → Prop
  | .start room =>
      s.agent = none → s.daemon.world.exited = false →
        Takes ⟨none, [], true, room, []⟩ (encodeHello opts.sessionId opts.uid)
  | .init query owner names =>
      ∀ a, s.agent = some a → a.phase = .starting →
        (Agent.scanExistingPlayers query owner names a.mpris).playing = ∅
  | .bus query signal =>
      ∀ a, s.agent = some a → a.phase = .looping →
        if a.installed then TakesAll a.link ((Agent.handleSignal query a.mpris signal).2.map edgeLine)
        else (Agent.handleSignal query a.mpris signal).2 = []
  | .say r =>
      ∀ a, s.agent = some a → a.phase = .looping →
        Takes a.link (remarkLine r) ∨ a.link.room a.link.sent.length = 0
  | .lost room =>
      s.daemon.world.exited = false → ∀ a, s.agent = some a → a.phase = .looping →
        a.mpris.playing = ∅ ∧ Takes ⟨none, [], true, room, []⟩ (encodeHello opts.sessionId opts.uid)
  | _ => True

-- The lines that were written whole.
def whole (l : Link) : List Bytes :=
  (l.sent.filter Prod.snd).map Prod.fst

-- A daemon that has handled the lines has the agent for inhibiting, or not.
def Told (lines : List Bytes) (inhibiting : Bool) : Prop :=
  ∃ messages entry, List.Forall₂ Readable lines messages ∧
    Daemon.registration messages = some entry ∧ (inhibitReason ∈ entry.inhibits ↔ inhibiting = true)

def Counted (lines : List Bytes) (inhibiting : Bool) : Prop :=
  Matched lines ∧
    lines.count (edgeLine .inhibit) = lines.count (edgeLine .uninhibit) + inhibiting.toNat

-- What a connection of the agent has carried to the daemon or will.
structure Sound (env : Daemon.Env) (d : Daemon.State) (l : Link) (inhibiting : Bool) : Prop where
  counted : Counted (l.sent.map Prod.fst) inhibiting
  told : l.alive = true → Told (whole l) inhibiting
  bound : l.alive = true → ∀ fd ∈ l.fd, fd ≠ env.listenFd ∧ Carried d fd l.wire (whole l)
  unbound : l.alive = true → l.fd = none → l.wire = frame 10 (whole l)

structure Synced (env : Daemon.Env) (d : Daemon.State) (a : Impl) : Prop where
  settled : Settled a.mpris
  empty : a.phase = .starting → a.mpris = .empty
  sound : Sound env d a.link a.mpris.inhibiting

def Sync (s : System) : Prop :=
  Daemon.Covered s.daemon.world ∧ ∀ a, s.agent = some a → Synced s.env s.daemon a

section Lines

-- What the agent writes, and what each line does to the entry of the connection.
theorem readable_edge (e : Edge) :
    ∃ msg, Readable (edgeLine e) msg ∧ msg.str (bytes "reason") [] = inhibitReason ∧
      msgType msg = match e with | .inhibit => T_INHIBIT | .uninhibit => T_UNINHIBIT := by
  cases e with
  | inhibit =>
      obtain ⟨msg, hmsg, ht, hr⟩ := readable_inhibit inhibitReason
      exact ⟨msg, hmsg, hr, ht⟩
  | uninhibit =>
      obtain ⟨msg, hmsg, ht, hr⟩ := readable_uninhibit inhibitReason
      exact ⟨msg, hmsg, hr, ht⟩

theorem readable_remark (r : Remark) :
    ∃ msg, Readable (remarkLine r) msg ∧
      msgType msg ∉ [T_HELLO, T_INHIBIT, T_UNINHIBIT] := by
  have hplain : ∀ type, type ∉ [T_HELLO, T_INHIBIT, T_UNINHIBIT] →
      ∃ msg, Readable (Json.dump (plain type)) msg ∧ msgType msg ∉ [T_HELLO, T_INHIBIT, T_UNINHIBIT] := by
    intro type ht
    obtain ⟨msg, hmsg, rfl⟩ := readable_plain type
    exact ⟨msg, hmsg, ht⟩
  cases r with
  | idleDim => exact hplain T_IDLE_DIM (by decide)
  | idleSleep => exact hplain T_IDLE_SLEEP (by decide)
  | active => exact hplain T_ACTIVE (by decide)
  | ack => exact hplain T_ACK (by decide)

theorem Told.append {lines : List Bytes} {before after : Bool} {line : Bytes} {msg : Json.Value}
    (h : Told lines before) (hmsg : Readable line msg)
    (hhear : ∀ entry, (inhibitReason ∈ entry.inhibits ↔ before = true) →
      ∃ entry', Daemon.hear (some entry) msg = some entry' ∧
        (inhibitReason ∈ entry'.inhibits ↔ after = true)) : Told (lines ++ [line]) after := by
  obtain ⟨messages, entry, hf, hr, hi⟩ := h
  obtain ⟨entry', hh, hi'⟩ := hhear entry hi
  exact ⟨messages ++ [msg], entry', List.rel_append hf (.cons hmsg .nil), by simp [hr, hh], hi'⟩

theorem Told.readable {lines : List Bytes} {inhibiting : Bool} (h : Told lines inhibiting) :
    ∀ line ∈ lines, ∃ msg, Readable line msg := by
  obtain ⟨messages, -, hf, -⟩ := h
  induction hf with
  | nil => simp
  | cons hmsg _ ih =>
      rintro line (_ | ⟨_, hl⟩)
      · exact ⟨_, hmsg⟩
      · exact ih line hl

theorem Told.edge {lines : List Bytes} {before : Bool} (e : Edge) (h : Told lines before) :
    Told (lines ++ [edgeLine e]) (match e with | .inhibit => true | .uninhibit => false) := by
  obtain ⟨msg, hmsg, hr, ht⟩ := readable_edge e
  refine h.append hmsg fun entry _ => ?_
  cases e with
  | inhibit => exact ⟨_, Daemon.hear_inhibit (some entry) msg ht, by simp [hr]⟩
  | uninhibit => exact ⟨_, Daemon.hear_uninhibit (some entry) msg ht, by simp [hr]⟩

theorem Told.remark {lines : List Bytes} {inhibiting : Bool} (r : Remark) (h : Told lines inhibiting) :
    Told (lines ++ [remarkLine r]) inhibiting := by
  obtain ⟨msg, hmsg, ht⟩ := readable_remark r
  simp only [List.mem_cons, List.not_mem_nil, or_false, not_or] at ht
  exact h.append hmsg fun entry hi => ⟨entry, Daemon.hear_other _ msg ht.1 ht.2.1 ht.2.2, hi⟩

theorem told_hello (opts : AgentOptions) : Told [encodeHello opts.sessionId opts.uid] false := by
  obtain ⟨msg, hmsg, ht⟩ := readable_hello opts.sessionId opts.uid
  refine ⟨[msg], Daemon.introduce msg, .cons hmsg .nil, Daemon.hear_hello none msg ht, ?_⟩
  simp [Daemon.introduce]

theorem Counted.append {lines : List Bytes} {before after : Bool} {line : Bytes}
    (h : Counted lines before)
    (hc : before.toNat + (if line = edgeLine .inhibit then 1 else 0) =
      after.toNat + if line = edgeLine .uninhibit then 1 else 0) : Counted (lines ++ [line]) after := by
  obtain ⟨hm, hn⟩ := h
  have hcount : (lines ++ [line]).count (edgeLine .inhibit) =
      (lines ++ [line]).count (edgeLine .uninhibit) + after.toNat := by
    simp only [List.count_append, List.count_singleton, beq_iff_eq, hn]
    omega
  refine ⟨fun start hs => ?_, hcount⟩
  rcases List.prefix_concat_iff.mp hs with rfl | hs
  · omega
  · exact hm start hs

theorem counted_singleton {line : Bytes} (hi : line ≠ edgeLine .inhibit) (hu : line ≠ edgeLine .uninhibit) :
    Counted [line] false := by
  have h : Counted [] false := ⟨fun start hs => by simp [List.prefix_nil.mp hs], rfl⟩
  have ha : Counted ([] ++ [line]) false := h.append (by simp [hi, hu])
  exact ha

theorem ne_edgeLine {line : Bytes} {msg : Json.Value} (h : Readable line msg)
    (hi : msgType msg ≠ T_INHIBIT) (hu : msgType msg ≠ T_UNINHIBIT) (e : Edge) : line ≠ edgeLine e := by
  obtain ⟨msg', hmsg', -, ht⟩ := readable_edge e
  cases e with
  | inhibit => exact h.ne hmsg' (ht ▸ hi)
  | uninhibit => exact h.ne hmsg' (ht ▸ hu)

theorem counted_hello (opts : AgentOptions) :
    Counted [encodeHello opts.sessionId opts.uid] false := by
  obtain ⟨msg, hmsg, ht⟩ := readable_hello opts.sessionId opts.uid
  have hne := ne_edgeLine hmsg (ht ▸ by decide) (ht ▸ by decide)
  exact counted_singleton (hne .inhibit) (hne .uninhibit)

theorem Counted.remark {lines : List Bytes} {inhibiting : Bool} (r : Remark)
    (h : Counted lines inhibiting) : Counted (lines ++ [remarkLine r]) inhibiting := by
  obtain ⟨msg, hmsg, ht⟩ := readable_remark r
  simp only [List.mem_cons, List.not_mem_nil, or_false, not_or] at ht
  have hne := ne_edgeLine hmsg ht.2.1 ht.2.2
  exact h.append (by simp [hne .inhibit, hne .uninhibit])

theorem edgeLine_ne : edgeLine .inhibit ≠ edgeLine .uninhibit := by
  decide

theorem Counted.inhibit {lines : List Bytes} (h : Counted lines false) :
    Counted (lines ++ [edgeLine .inhibit]) true :=
  h.append (by simp [edgeLine_ne])

theorem Counted.uninhibit {lines : List Bytes} (h : Counted lines true) :
    Counted (lines ++ [edgeLine .uninhibit]) false :=
  h.append (by simp [edgeLine_ne.symm])

end Lines

section Links

variable {env : Daemon.Env} {d : Daemon.State} {l : Link} {before after : Bool}

@[simp] theorem writeLine_alive (msg : Bytes) : (l.writeLine msg).alive = l.alive := rfl

@[simp] theorem writeLine_fd (msg : Bytes) : (l.writeLine msg).fd = l.fd := rfl

@[simp] theorem writeLine_lines (msg : Bytes) :
    (l.writeLine msg).sent.map Prod.fst = l.sent.map Prod.fst ++ [msg] := by
  simp [Link.writeLine]

-- A line that is taken whole goes over the connection.
theorem writeLine_taken {msg : Bytes} (ha : l.alive = true) (ht : Takes l msg) :
    (l.writeLine msg).wire = l.wire ++ (msg ++ [10]) ∧ whole (l.writeLine msg) = whole l ++ [msg] := by
  have hlen : (msg ++ [10]).length ≤ l.room l.sent.length := by simpa using ht ha
  constructor
  · simp only [Link.writeLine, ha, if_true, List.take_of_length_le hlen]
  · simp only [whole, Link.writeLine, ha, Bool.true_and, hlen, decide_true]
    simp

theorem writeLine_none (msg : Bytes) (ha : l.alive = true) (hr : l.room l.sent.length = 0) :
    (l.writeLine msg).wire = l.wire ∧ whole (l.writeLine msg) = whole l := by
  constructor
  · simp [Link.writeLine, ha, hr]
  · simp [whole, Link.writeLine, hr]

theorem Sound.write {msg : Bytes} (h : Sound env d l before) (ht : Takes l msg)
    (hc : Counted (l.sent.map Prod.fst) before → Counted (l.sent.map Prod.fst ++ [msg]) after)
    (htold : Told (whole l) before → Told (whole l ++ [msg]) after) :
    Sound env d (l.writeLine msg) after := by
  have hw := fun ha => writeLine_taken (l := l) ha ht
  refine ⟨?_, fun ha => ?_, fun ha fd hfd => ?_, fun ha hfd => ?_⟩
  · rw [writeLine_lines]
    exact hc h.counted
  · rw [(hw ha).2]
    exact htold (h.told ha)
  · rw [(hw ha).1, (hw ha).2]
    obtain ⟨hl, hcarried⟩ := h.bound ha fd hfd
    exact ⟨hl, hcarried.write msg⟩
  · rw [(hw ha).1, (hw ha).2, h.unbound ha hfd]
    simp

theorem Sound.skip {msg : Bytes} (h : Sound env d l before) (hr : l.room l.sent.length = 0)
    (hc : Counted (l.sent.map Prod.fst) before → Counted (l.sent.map Prod.fst ++ [msg]) before) :
    Sound env d (l.writeLine msg) before := by
  have hw := fun ha => writeLine_none (l := l) msg ha hr
  refine ⟨?_, fun ha => ?_, fun ha fd hfd => ?_, fun ha hfd => ?_⟩
  · rw [writeLine_lines]
    exact hc h.counted
  · rw [(hw ha).2]
    exact h.told ha
  · rw [(hw ha).1, (hw ha).2]
    exact h.bound ha fd hfd
  · rw [(hw ha).1, (hw ha).2]
    exact h.unbound ha hfd

theorem Sound.edges {edges : List Edge} (he : Alternates before edges after)
    (h : Sound env d l before) (ht : TakesAll l (edges.map edgeLine)) :
    Sound env d ((edges.map edgeLine).foldl Link.writeLine l) after := by
  induction he generalizing l with
  | nil => exact h
  | inhibit _ ih => exact ih (h.write ht.1 Counted.inhibit (Told.edge .inhibit)) ht.2
  | uninhibit _ ih => exact ih (h.write ht.1 Counted.uninhibit (Told.edge .uninhibit)) ht.2

theorem Sound.remark (r : Remark) (h : Sound env d l before)
    (ht : Takes l (remarkLine r) ∨ l.room l.sent.length = 0) :
    Sound env d (l.writeLine (remarkLine r)) before := by
  rcases ht with ht | hr
  · exact h.write ht (Counted.remark r) (Told.remark r)
  · exact h.skip hr (Counted.remark r)

theorem connectToDaemon_sound (opts : AgentOptions) (room : Nat → Nat)
    (ht : Takes ⟨none, [], true, room, []⟩ (encodeHello opts.sessionId opts.uid)) :
    Sound env d (Agent.connectToDaemon opts room) false := by
  obtain ⟨hwire, hwhole⟩ := writeLine_taken (l := ⟨none, [], true, room, []⟩) rfl ht
  refine ⟨?_, fun _ => ?_, fun _ fd hfd => ?_, fun _ _ => ?_⟩
  · exact counted_hello opts
  · exact hwhole ▸ told_hello opts
  · cases hfd
  · refine hwire.trans ?_
    rw [Agent.connectToDaemon, hwhole]
    simp [whole]

end Links

section Steps

variable (opts : AgentOptions) {s : System}

theorem Sync.during (h : Sync s) (phase : Agent.Phase) (f : Impl → Impl)
    (hf : ∀ a, s.agent = some a → a.phase = phase → Synced s.env s.daemon a →
      Synced s.env s.daemon (f a)) : Sync (s.during phase f) := by
  unfold System.during
  split
  · rename_i a ha
    split
    · rename_i hp
      refine ⟨h.1, fun a' ha' => ?_⟩
      cases ha'
      exact hf a ha hp (h.2 a ha)
    · exact h
  · exact h

-- A step of the daemon that reads nothing from the agent's connection.
theorem daemon_sync (h : Sync s) (m : Daemon.Move) : Sync (s.step opts (.daemon m)) := by
  simp only [System.step]
  split
  · exact h
  · rename_i hm
    refine ⟨Daemon.step_covered s.env s.daemon m h.1, fun a ha => ?_⟩
    obtain ⟨old, hold, rfl⟩ := Option.map_eq_some_iff.mp ha
    have hs := h.2 old hold
    have halive : ∀ w, (refresh w old.link).alive = true → old.link.alive = true := by
      intro w hw
      simp only [refresh, Bool.and_eq_true] at hw
      exact hw.1.1
    refine ⟨hs.settled, hs.empty, hs.sound.counted, fun hw => hs.sound.told (halive _ hw),
      fun hw fd hfd => ?_, fun hw => hs.sound.unbound (halive _ hw)⟩
    have hl := halive _ hw
    obtain ⟨hlisten, hcarried⟩ := hs.sound.bound hl fd hfd
    refine ⟨hlisten, step_carried s.env s.daemon m fd _ _ (hs.sound.told hl).readable ?_ hcarried⟩
    intro hfeeds
    refine hm ⟨fd, ?_, hfeeds⟩
    have ho : old.link.fd = some fd := hfd
    simp [System.linked, hold, hl, ho]

theorem accept_sync (h : Sync s) (fd : Fd) : Sync (s.step opts (.accept fd)) := by
  simp only [System.step]
  split
  · exact h
  rename_i a ha
  split
  · rename_i hc
    obtain ⟨⟨he, hp⟩, halive, hnone, hfresh⟩ := hc
    have hs := h.2 a ha
    refine ⟨Daemon.step_covered s.env s.daemon _ h.1, fun a' ha' => ?_⟩
    cases ha'
    refine ⟨hs.settled, hs.empty, hs.sound.counted, hs.sound.told, fun hl other ho => ?_, fun _ hn => ?_⟩
    · cases ho
      exact ⟨hfresh.2.1, accept_carried s.env hp he hfresh (hs.sound.unbound hl hnone)⟩
    · cases hn
  · exact h

theorem deliver_sync (h : Sync s) (reads : List Sock.ReadResult) :
    Sync (s.step opts (.deliver reads)) := by
  simp only [System.step]
  split
  · rename_i a fd ha hfd
    split
    · rename_i hc
      obtain ⟨⟨he, hp⟩, hw⟩ := hc
      have hs := h.2 a ha
      obtain ⟨halive, hfd⟩ : a.link.alive = true ∧ a.link.fd = some fd := by
        simpa [System.linked, ha] using hfd
      refine ⟨Daemon.step_covered s.env s.daemon _ h.1, fun a' ha' => ?_⟩
      cases ha'
      obtain ⟨hlisten, hcarried⟩ := hs.sound.bound halive fd hfd
      refine ⟨hs.settled, hs.empty, hs.sound.counted, fun _ => hs.sound.told halive,
        fun hok other ho => ?_, fun _ hn => ?_⟩
      · cases hfd.symm.trans ho
        exact ⟨hlisten, deliver_carried s.env reads _ (hs.sound.told halive).readable hp he hlisten hok
          (List.prefix_iff_eq_append.mp hw) hcarried⟩
      · cases hfd.symm.trans hn
    · exact h
  · exact h

theorem restart_sync (h : Sync s) (env : Daemon.Env) (path : Bytes) (file : Option Bytes)
    (sysfs : Daemon.Sysfs) (sessionId : Bytes) :
    Sync (s.step opts (.restart env path file sysfs sessionId)) := by
  simp only [System.step]
  split
  · exact h
  · rename_i w hw
    refine ⟨Daemon.run_covered env w ⟨path, file, sysfs, sessionId, hw⟩ [], fun a ha => ?_⟩
    obtain ⟨old, hold, rfl⟩ := Option.map_eq_some_iff.mp ha
    have hs := h.2 old hold
    exact ⟨hs.settled, hs.empty, hs.sound.counted, nofun, nofun, nofun⟩

theorem start_sync (h : Sync s) (room : Nat → Nat) (hm : NoEdgeLost opts s (.start room)) :
    Sync (s.step opts (.start room)) := by
  simp only [System.step]
  split
  · rename_i hc
    refine ⟨h.1, fun a ha => ?_⟩
    cases ha
    have ht := hm (Option.isNone_iff_eq_none.mp hc.1) hc.2
    exact ⟨by simp [Settled, Impl.start, Agent.MprisMonitor.empty], fun _ => rfl,
      connectToDaemon_sound opts room ht⟩
  · exact h

theorem not_inhibiting {m : Agent.MprisMonitor} (h : Settled m) (hp : m.playing = ∅) :
    m.inhibiting = false := by
  simpa [Settled, hp] using h

theorem init_synced {env : Daemon.Env} {d : Daemon.State} {a : Impl} (h : Synced env d a)
    (hstart : a.phase = .starting) (query owner : Bytes → Option Bytes) (names : List Bytes)
    (hp : (Agent.scanExistingPlayers query owner names a.mpris).playing = ∅) :
    Synced env d (a.initMpris query owner names) := by
  have hset := Agent.scanExistingPlayers_settled query owner names a.mpris h.settled
  refine ⟨hset, nofun, ?_⟩
  have hnow : (a.initMpris query owner names).mpris.inhibiting = false := not_inhibiting hset hp
  have hbefore : a.mpris.inhibiting = false := by rw [h.empty hstart]; rfl
  rw [hnow, ← hbefore]
  exact h.sound

theorem bus_synced {env : Daemon.Env} {d : Daemon.State} {a : Impl} (h : Synced env d a)
    (hloop : a.phase = .looping) (query : Bytes → Option Bytes) (signal : Agent.Signal)
    (hm : if a.installed then TakesAll a.link ((Agent.handleSignal query a.mpris signal).2.map edgeLine)
      else (Agent.handleSignal query a.mpris signal).2 = []) :
    Synced env d (a.pollMpris query signal) := by
  have ht := Agent.handleSignal_turns query a.mpris signal h.settled
  refine ⟨ht.settled, fun hs => ?_, ?_⟩
  · cases hloop.symm.trans hs
  · simp only [Impl.pollMpris]
    split at hm
    · rename_i hi
      rw [if_pos hi]
      exact h.sound.edges ht.alternates hm
    · rename_i hi
      rw [if_neg hi]
      have hsame := ht.alternates
      rw [hm] at hsame
      exact hsame.eq_of_nil ▸ h.sound

-- Every move that loses no edge keeps the two sides in step.
theorem step_sync (s : System) (move : Move) (h : Sync s) (hm : NoEdgeLost opts s move) :
    Sync (s.step opts move) := by
  cases move with
  | daemon m => exact daemon_sync opts h m
  | accept fd => exact accept_sync opts h fd
  | deliver reads => exact deliver_sync opts h reads
  | restart env path file sysfs sessionId => exact restart_sync opts h env path file sysfs sessionId
  | start room => exact start_sync opts h room hm
  | init query owner names =>
      exact h.during .starting _ fun a ha hp hs => init_synced hs hp query owner names (hm a ha hp)
  | initFailed =>
      exact h.during .starting _ fun a _ _ hs => ⟨hs.settled, nofun, hs.sound⟩
  | bus query signal =>
      exact h.during .looping _ fun a ha hp hs => bus_synced hs hp query signal (hm a ha hp)
  | say r =>
      exact h.during .looping _ fun a ha hp hs => ⟨hs.settled, hs.empty, hs.sound.remark r (hm a ha hp)⟩
  | lost room =>
      simp only [System.step]
      split
      · exact h
      · rename_i he
        refine h.during .looping _ fun a ha hp hs => ⟨hs.settled, nofun, ?_⟩
        obtain ⟨hplay, ht⟩ := hm (Bool.eq_false_of_not_eq_true he) a ha hp
        have hi : (a.onDaemonDisconnect opts room).mpris.inhibiting = false :=
          not_inhibiting hs.settled hplay
        rw [hi]
        exact connectToDaemon_sound opts room ht
  | quit => exact ⟨h.1, nofun⟩

theorem agrees_of_sync (h : Sync s) : Agrees s := by
  intro a ha
  have hs := h.2 a ha
  refine ⟨hs.sound.counted.1, fun fd hfd _ hq => ?_⟩
  obtain ⟨halive, hfd⟩ : a.link.alive = true ∧ a.link.fd = some fd := by
    simpa [System.linked, ha] using hfd
  obtain ⟨messages, entry, hf, hr, hi⟩ := hs.sound.told halive
  have hcarried := (hs.sound.bound halive fd hfd).2
  rw [hq.1] at hcarried
  obtain ⟨messages', hm', hf'⟩ := hcarried.received hq.2
  cases readables_unique hf hf'
  have hl := h.1 fd messages entry hm' hr
  have hsettled : a.mpris.inhibiting = true ↔ a.mpris.playing ≠ ∅ := hs.settled
  rw [← hsettled, ← hi]
  constructor
  · rintro ⟨entry', hl', hreason⟩
    cases hl.symm.trans hl'
    exact hreason
  · intro hreason
    exact ⟨entry, hl, hreason⟩

end Steps

-- In every run of an agent and the daemon in which no edge is lost, the daemon
-- holds the inhibit whenever all is handled exactly while a player plays, and every
-- connection carries its uninhibits behind their inhibits.
theorem agrees_throughout (opts : AgentOptions) (env : Daemon.Env) (w : Daemon.World)
    (h : Daemon.Started env w) (moves : List Move)
    (hm : Run.Meets (System.step opts) (NoEdgeLost opts) ⟨env, ⟨w, []⟩, none⟩ moves) :
    Run.Throughout (System.step opts) Agrees ⟨env, ⟨w, []⟩, none⟩ moves :=
  Run.throughout_of_meets (System.step opts) Sync (step_sync opts) (fun _ => agrees_of_sync)
    ⟨Daemon.run_covered env w h [], nofun⟩ hm

def sampleOptions : AgentOptions :=
  ⟨bytes "1", 1000⟩

def player : Bytes :=
  bytes "org.mpris.MediaPlayer2.a"

-- The daemon accepts the agent's connection, reads a line from it and handles it.
def greet (fd : Fd) : List Move :=
  let hello := encodeHello sampleOptions.sessionId sampleOptions.uid ++ [10]
  [.accept fd, .deliver [.data hello, .again], .daemon .call]

-- The agent starts while the player has this status, on a socket with room.
def startUp (status : Bytes) : List Move :=
  [.start fun _ => 4096, .init (fun _ => some status) (fun _ => some (bytes ":1.1")) [player]] ++ greet 7

def statusChange (status : Bytes) : Move :=
  .bus (fun _ => none) (.propertiesChanged (bytes ":1.1") Agent.playerInterface
    [(bytes "PlaybackStatus", .string status)])

-- The daemon reads the line and handles it.
def written (line : Bytes) : List Move :=
  [.deliver [.data (line ++ [10]), .again], .daemon .call]

-- A player starts to play after the agent has started.
def playLater : List Move :=
  startUp (bytes "Paused") ++ statusChange (bytes "Playing") :: written (edgeLine .inhibit)

-- The daemon is restarted, and the agent connects to the new one.
def comeBack : List Move :=
  [.restart .plain [] (some Daemon.sampleConfig) ⟨none, [], []⟩ (bytes "1"), .lost fun _ => 4096] ++ greet 7

def runOf (w : Daemon.World) (moves : List Move) : System :=
  Run.exec (System.step sampleOptions) ⟨.plain, ⟨w, []⟩, none⟩ moves

theorem agrees_sample :
    ∃ w, Daemon.sampleStart = .ok w ∧
      Run.Throughout (System.step sampleOptions) Agrees ⟨.plain, ⟨w, []⟩, none⟩ playLater := by
  refine ⟨_, rfl, agrees_throughout sampleOptions .plain _ (Daemon.sample_started rfl) playLater ?_⟩
  refine ⟨fun _ _ _ => by decide, fun a ha _ => ?_, trivial, trivial, trivial, fun a ha _ => ?_, trivial,
    trivial, trivial⟩
  · cases ha
    decide
  · cases ha
    exact ⟨fun _ => by decide, trivial⟩

-- The inhibit of a player that plays at the start is lost; so the uninhibit that
-- follows has none before it; and the inhibit is not repeated on a new connection.
theorem agrees_missed :
    ∃ w, Daemon.sampleStart = .ok w ∧
      ¬Agrees (runOf w (startUp (bytes "Playing"))) ∧
      ¬Agrees (runOf w (startUp (bytes "Playing") ++ [statusChange (bytes "Paused")])) ∧
      ¬Agrees (runOf w (playLater ++ comeBack)) := by
  refine ⟨_, rfl, fun h => ?_, fun h => ?_, fun h => ?_⟩
  · have hi := ((h _ rfl).2 7 rfl (by decide) ⟨rfl, fun _ => List.not_mem_nil⟩).mpr (by decide)
    exact absurd hi (by decide)
  · exact absurd ((h _ rfl).1 _ (List.prefix_refl _)) (by decide)
  · have hi := ((h _ rfl).2 7 rfl (by decide) ⟨rfl, fun _ => List.not_mem_nil⟩).mpr (by decide)
    exact absurd hi (by decide)

end Draind.Media
