import Draind.Daemon.AgentTable
import Draind.Shared.Lines

namespace Draind.Daemon

open Json Proto Sock

-- The lines passed to on_line for a descriptor since it was accepted.
def handledStep (h : Fd → List Bytes) : Io → Fd → List Bytes
  | .accepted fd => Function.update h fd []
  | .line fd line => Function.update h fd (h fd ++ [line])
  | _ => h

def handled (trace : List Io) : Fd → List Bytes :=
  trace.foldl handledStep fun _ => []

-- The non-empty lines of a stream that end in a newline.
def completeLines (stream : Bytes) : List Bytes :=
  (splitLines stream).1.filter (· ≠ [])

-- What a move reads from fd. Nothing is read while calls are pending.
def readsOf (env : Env) (s : State) (fd : Fd) : Move → List ReadResult
  | .ready r =>
      if r.fd = fd ∧ r.fd ≠ env.listenFd ∧ s.world.exited = false ∧ s.pending = [] then r.reads else []
  | _ => []

-- A run together with all that it has read from each connection since it was
-- accepted. The code keeps no such record.
structure Tapped where
  state : State
  stream : Fd → Bytes

def tap (env : Env) (t : Tapped) (move : Move) : Tapped where
  state := step env t.state move
  stream fd :=
    if fd ∈ t.state.world.conns then t.stream fd ++ taken (readsOf env t.state fd move) else []

-- No line the client has sent is malformed.
def WellSent (stream : Bytes) : Prop :=
  ∀ line ∈ completeLines stream, ∃ msg, decode line = .ok msg

-- Where on_disconnect is about to be called, every line of the stream has been
-- passed to on_line.
def LinesHandled (t : Tapped) : Prop :=
  ∀ fd, .hangUp fd ∈ t.state.pending → WellSent (t.stream fd) →
    handled t.state.world.trace fd = completeLines (t.stream fd)

-- Reads that end in end of file or an error complete no line.
def EndsBare (env : Env) (t : Tapped) (move : Move) : Prop :=
  ∀ fd c, t.state.world.conns.lookup fd = some c →
    (readAll [] (readsOf env t.state fd move)).1 = false →
    WellSent (t.stream fd ++ taken (readsOf env t.state fd move)) →
    completeLines (c.buf.buf ++ taken (readsOf env t.state fd move)) = []

def pendingLines (pending : List Call) (fd : Fd) : List Bytes :=
  pending.filterMap fun
    | .line other line => if other = fd then some line else none
    | _ => none

-- What an open connection has sent is what was handled, what is pending and what
-- its buffer holds. A hang-up is pending alone.
structure TapInv (env : Env) (t : Tapped) : Prop where
  listen : env.listenFd ∉ t.state.world.conns
  alone : ∀ fd, .hangUp fd ∈ t.state.pending →
    t.state.pending = [.hangUp fd] ∧ fd ∈ t.state.world.conns
  buffer : ∀ fd c, t.state.world.conns.lookup fd = some c → .hangUp fd ∉ t.state.pending →
    c.buf.buf = (splitLines (t.stream fd)).2
  lines : ∀ fd c, t.state.world.conns.lookup fd = some c → .hangUp fd ∉ t.state.pending →
    handled t.state.world.trace fd ++ pendingLines t.state.pending fd = completeLines (t.stream fd)

section Lines

@[simp]
theorem handled_append (trace : List Io) (e : Io) :
    handled (trace ++ [e]) = handledStep (handled trace) e := by
  simp [handled]

theorem handled_of_grows {trace trace' : List Io}
    (h : Trace.Grows (fun e => e.IsEffect ∨ e.IsReport) trace trace') : handled trace' = handled trace := by
  refine h.foldl_eq handledStep (fun h e he => ?_) _
  cases e <;> first | rfl | simp [Io.IsEffect, Io.IsDim, Io.IsUndim, Io.IsSleep, Io.IsRoutine, Io.IsTalk, Io.IsReport] at he

theorem completeLines_append (first second : Bytes) :
    completeLines (first ++ second) =
      completeLines first ++ completeLines ((splitLines first).2 ++ second) := by
  simp [completeLines, splitLines_append first second]

theorem pendingLines_map (lines : List Bytes) (fd other : Fd) :
    pendingLines (lines.map (.line fd)) other = if fd = other then lines else [] := by
  unfold pendingLines
  split
  · rename_i h
    induction lines with
    | nil => rfl
    | cons line rest ih => simp [h] at ih ⊢
  · rename_i h
    simp [h]

end Lines

section Calls

variable (env : Env)

theorem handled_line (fd : Fd) (line : Bytes) (w : World) :
    handled (perform env (.line fd line) w).settle.trace =
      Function.update (handled w.trace) fd (handled w.trace fd ++ [line]) := by
  cases hd : decode line with
  | error e =>
      rw [perform_malformed env fd line e w hd]
      show handled (w.trace ++ [.line fd line] ++ [.close fd]) = _
      rw [handled_append, handled_append]
      rfl
  | ok msg =>
      rw [Result.settle_trace, handled_of_grows (perform_message env fd line msg w hd).grows]
      simp [handledStep]

theorem handled_button (e : HwEvent) (w : World) : handled (onEvent env e w).trace = handled w.trace := by
  rw [handled_of_grows ((onEvent_emits env e w).keeps.grows.mono fun _ he => .inl (.inr (.inr he)))]
  simp [handledStep]

theorem Seated.handled_eq {w w' : World} (h : Seated w w') : handled w'.trace = handled w.trace := by
  refine h.grows.foldl_eq handledStep ?_ _
  rintro h _ ⟨sessionId, rfl⟩
  rfl

end Calls

section Streams

variable (env : Env)

-- What a move that reads nothing leaves of a connection that is open behind it.
structure SameStream (t : Tapped) (s' : State) (fd : Fd) (c : Connection) : Prop where
  conn : t.state.world.conns.lookup fd = some c
  hangUp : .hangUp fd ∈ t.state.pending → .hangUp fd ∈ s'.pending
  lines : handled s'.world.trace fd ++ pendingLines s'.pending fd =
    handled t.state.world.trace fd ++ pendingLines t.state.pending fd

structure NewStream (t : Tapped) (s' : State) (fd : Fd) (c : Connection) : Prop where
  closed : fd ∉ t.state.world.conns
  buffer : c.buf.buf = []
  lines : handled s'.world.trace fd ++ pendingLines s'.pending fd = []

structure Carries (t : Tapped) (s' : State) : Prop where
  listen : env.listenFd ∉ s'.world.conns
  conns : ∀ fd c, s'.world.conns.lookup fd = some c → SameStream t s' fd c ∨ NewStream t s' fd c
  alone : ∀ fd, .hangUp fd ∈ s'.pending → s'.pending = [.hangUp fd] ∧ fd ∈ s'.world.conns
  hangUp : ∀ fd, .hangUp fd ∈ s'.pending → .hangUp fd ∈ t.state.pending ∧
    handled s'.world.trace fd = handled t.state.world.trace fd

theorem tapInv_of_carries {t : Tapped} {move : Move} (h : TapInv env t) (hl : LinesHandled t)
    (hreads : ∀ fd ∈ t.state.world.conns, readsOf env t.state fd move = [])
    (hc : Carries env t (step env t.state move)) :
    TapInv env (tap env t move) ∧ LinesHandled (tap env t move) := by
  have hopen : ∀ fd ∈ t.state.world.conns, (tap env t move).stream fd = t.stream fd := by
    intro fd hfd
    simp [tap, hfd, hreads fd hfd, taken, readAll]
  have hclosed : ∀ fd ∉ t.state.world.conns, (tap env t move).stream fd = [] := by
    intro fd hfd
    simp [tap, hfd]
  refine ⟨⟨hc.listen, hc.alone, fun fd c hl hn => ?_, fun fd c hl hn => ?_⟩, fun fd hp hw => ?_⟩
  · rcases hc.conns fd c hl with hs | hs
    · rw [hopen fd (AList.lookup_isSome.mp (by simp [hs.conn]))]
      exact h.buffer fd c hs.conn fun hp => hn (hs.hangUp hp)
    · rw [hclosed fd hs.closed, hs.buffer]
      rfl
  · rcases hc.conns fd c hl with hs | hs
    · rw [hopen fd (AList.lookup_isSome.mp (by simp [hs.conn]))]
      exact hs.lines.trans (h.lines fd c hs.conn fun hp => hn (hs.hangUp hp))
    · rw [hclosed fd hs.closed]
      exact hs.lines
  · obtain ⟨hp, hh⟩ := hc.hangUp fd hp
    rw [hopen fd (h.alone fd hp).2] at hw ⊢
    exact hh.trans (hl fd hp hw)

-- The move reads from a connection.
def Reads (s : State) (r : Ready) : Prop :=
  r.fd ∈ s.world.conns ∧ r.fd ≠ env.listenFd ∧ s.world.exited = false ∧ s.pending = []

theorem step_reads (s : State) (r : Ready) (c : Connection) (hr : Reads env s r)
    (hc : s.world.conns.lookup r.fd = some c) :
    step env s (.ready r) =
      ⟨{ s.world with conns := s.world.conns.insert r.fd { c with buf := (c.buf.feed r.reads).2.1 } },
        ((c.buf.feed r.reads).2.2.filter (· ≠ [])).map (.line r.fd) ++
          if (c.buf.feed r.reads).1 then [] else [.hangUp r.fd]⟩ := by
  obtain ⟨-, hl, he, hp⟩ := hr
  simp [step, begin, hl, he, hp, hc]

theorem readsOf_of_not_reads {s : State} {move : Move} (h : ∀ r, move = .ready r → ¬Reads env s r) :
    ∀ fd ∈ s.world.conns, readsOf env s fd move = [] := by
  intro fd hfd
  cases move with
  | signal | call | outside => rfl
  | ready r =>
      refine if_neg ?_
      rintro ⟨rfl, hl, he, hp⟩
      exact h r rfl ⟨hfd, hl, he, hp⟩

-- Nothing that concerns the connections is different.
theorem Carries.of_same {t : Tapped} {s' : State} (h : TapInv env t)
    (hc : s'.world.conns = t.state.world.conns) (hp : s'.pending = t.state.pending)
    (hh : handled s'.world.trace = handled t.state.world.trace) : Carries env t s' := by
  refine ⟨hc ▸ h.listen, fun fd c hl => .inl ⟨hc ▸ hl, fun hm => hp ▸ hm, by rw [hh, hp]⟩, ?_, ?_⟩
  · rw [hp, hc]
    exact h.alone
  · rw [hp, hh]
    exact fun fd hm => ⟨hm, rfl⟩

-- A call is taken off the list, and no connection is opened.
theorem Carries.of_call {t : Tapped} {s' : State} (h : TapInv env t) (c : Call)
    (hp : t.state.pending = c :: s'.pending)
    (hconns : ∀ fd conn, s'.world.conns.lookup fd = some conn →
      t.state.world.conns.lookup fd = some conn ∧ c ≠ .hangUp fd)
    (hh : ∀ fd, handled s'.world.trace fd =
      handled t.state.world.trace fd ++ pendingLines [c] fd) : Carries env t s' := by
  have hnone : ∀ fd, .hangUp fd ∉ s'.pending := by
    intro fd hm
    have ha := (h.alone fd (by simp [hp, hm])).1
    rw [hp, List.cons.injEq] at ha
    simp [ha.2] at hm
  refine ⟨fun hl => ?_, fun fd conn hl => .inl ⟨(hconns fd conn hl).1, fun hm => ?_, ?_⟩,
    fun fd hm => absurd hm (hnone fd), fun fd hm => absurd hm (hnone fd)⟩
  · obtain ⟨conn, hl⟩ := Option.isSome_iff_exists.mp (AList.lookup_isSome.mpr hl)
    exact h.listen (AList.lookup_isSome.mp (by simp [(hconns _ conn hl).1]))
  · rw [hp] at hm
    rcases List.mem_cons.mp hm with he | hm
    · exact absurd he.symm (hconns fd conn hl).2
    · exact hm
  · rw [hh, hp, List.append_assoc]
    simp only [pendingLines, ← List.filterMap_append, List.singleton_append]

theorem Carries.of_perform {t : Tapped} {c : Call} {rest : List Call} (h : TapInv env t)
    (hp : t.state.pending = c :: rest) :
    Carries env t ⟨(perform env c t.state.world).settle, rest⟩ := by
  refine .of_call env h c hp (fun other conn hl => perform_conns env c t.state.world hl) fun other => ?_
  cases c with
  | line fd line =>
      rw [handled_line]
      by_cases ho : other = fd
      · subst ho
        simp [pendingLines]
      · simp [pendingLines, ho, Ne.symm ho]
  | hangUp fd =>
      show handled (t.state.world.trace ++ [.hungUp fd] ++ [.close fd]) other = _
      rw [handled_append, handled_append]
      simp [handledStep, pendingLines]
  | button e =>
      simp only [perform, Result.settle_ok]
      rw [handled_button]
      simp [pendingLines]

-- A connection accepted on an empty call list has had no line handled.
theorem Carries.of_accept {t : Tapped} {fd : Fd} (h : TapInv env t) (hp : t.state.pending = [])
    (hf : fresh env t.state.world fd) : Carries env t ⟨acceptClient fd t.state.world, []⟩ := by
  obtain ⟨hnew, hlisten, -⟩ := hf
  refine ⟨?_, fun other c hl => ?_, by simp, by simp⟩
  · simp [acceptClient, World.emit, hnew, h.listen, Ne.symm hlisten]
  · by_cases ho : other = fd
    · subst ho
      obtain rfl : c = ⟨other, ⟨[]⟩, false, false⟩ := by
        simpa [acceptClient, World.emit, hnew, eq_comm] using hl
      exact .inr ⟨hnew, rfl, by simp [acceptClient, handledStep, pendingLines]⟩
    · refine .inl ⟨by simpa [acceptClient, World.emit, hnew, ho] using hl, by simp [hp], ?_⟩
      simp [acceptClient, handledStep, ho, hp]

theorem Carries.of_quiet {t : Tapped} {move : Move} (h : TapInv env t)
    (hn : ∀ r, move = .ready r → ¬Reads env t.state r) : Carries env t (step env t.state move) := by
  have hstep := step_stepped env t.state move
  generalize step env t.state move = s' at hstep ⊢
  cases hstep with
  | idle => exact .of_same env h rfl rfl rfl
  | signal m hp _ =>
      have hs := handleSeatProperties_seated m t.state.world
      exact .of_same env h hs.conns hp.symm hs.handled_eq
  | outside => exact .of_same env h rfl rfl rfl
  | input r hp _ =>
      have hbutton : ∀ fd, .hangUp fd ∉ (r.inputs.filterMap hwEvent).map Call.button := by simp
      have hlines : ∀ fd, pendingLines ((r.inputs.filterMap hwEvent).map .button) fd = [] := by
        intro fd
        simp [pendingLines]
      refine ⟨h.listen, fun fd c hl => .inl ⟨hl, fun hm => ?_, ?_⟩, fun fd hm => absurd hm (hbutton fd),
        fun fd hm => absurd hm (hbutton fd)⟩
      · simp [hp] at hm
      · rw [hlines, hp]
        rfl
  | feed r c hp he hc =>
      have hm : r.fd ∈ t.state.world.conns := AList.lookup_isSome.mp (by simp [hc])
      exact absurd ⟨hm, fun hl => h.listen (hl ▸ hm), he, hp⟩ (hn r rfl)
  | accept r fd hp _ hf => exact .of_accept env h hp hf
  | call c rest hp _ => exact .of_perform env h hp

theorem readsOf_reads {s : State} {r : Ready} (hr : Reads env s r) (fd : Fd) :
    readsOf env s fd (.ready r) = if fd = r.fd then r.reads else [] := by
  obtain ⟨-, hl, he, hp⟩ := hr
  by_cases h : fd = r.fd
  · simp [readsOf, h, hl, he, hp]
  · simp [readsOf, h, Ne.symm h]

theorem tap_stream_reads {t : Tapped} {r : Ready} (hr : Reads env t.state r) (fd : Fd) :
    (tap env t (.ready r)).stream fd =
      if fd = r.fd then t.stream fd ++ taken r.reads
      else if fd ∈ t.state.world.conns then t.stream fd else [] := by
  have hm := hr.1
  simp only [tap, readsOf_reads env hr]
  by_cases h : fd = r.fd
  · simp [h, hm]
  · simp [h, taken, readAll]

-- The invariant holds behind reads for every connection but the one they are from.
theorem other_reads {t : Tapped} {r : Ready} (h : TapInv env t) (hr : Reads env t.state r) {fd : Fd}
    (ho : fd ≠ r.fd) {c : Connection} (hc : t.state.world.conns.lookup fd = some c) :
    c.buf.buf = (splitLines ((tap env t (.ready r)).stream fd)).2 ∧
      handled t.state.world.trace fd = completeLines ((tap env t (.ready r)).stream fd) := by
  have hm : fd ∈ t.state.world.conns := AList.lookup_isSome.mp (by simp [hc])
  have hnone : .hangUp fd ∉ t.state.pending := by simp [hr.2.2.2]
  have hlines := h.lines fd c hc hnone
  rw [tap_stream_reads env hr, if_neg ho, if_pos hm]
  refine ⟨h.buffer fd c hc hnone, ?_⟩
  simpa [hr.2.2.2, pendingLines] using hlines

theorem stream_reads {t : Tapped} {r : Ready} (h : TapInv env t) (hr : Reads env t.state r)
    {c : Connection} (hc : t.state.world.conns.lookup r.fd = some c) :
    (splitLines (c.buf.buf ++ taken r.reads)).2 = (splitLines (t.stream r.fd ++ taken r.reads)).2 ∧
      handled t.state.world.trace r.fd ++ completeLines (c.buf.buf ++ taken r.reads) =
        completeLines (t.stream r.fd ++ taken r.reads) := by
  have hnone : .hangUp r.fd ∉ t.state.pending := by simp [hr.2.2.2]
  have hb := h.buffer r.fd c hc hnone
  have hlines := h.lines r.fd c hc hnone
  rw [hr.2.2.2] at hlines
  rw [completeLines_append (t.stream r.fd), ← hb, ← hlines, splitLines_append (t.stream r.fd), ← hb]
  simp [pendingLines]

theorem tapInv_reads_ok {t : Tapped} {r : Ready} (h : TapInv env t) (hr : Reads env t.state r)
    (hok : (readAll [] r.reads).1 = true) :
    TapInv env (tap env t (.ready r)) ∧ LinesHandled (tap env t (.ready r)) := by
  obtain ⟨c, hc⟩ := Option.isSome_iff_exists.mp (AList.lookup_isSome.mpr hr.1)
  obtain ⟨hsplit, hall⟩ := stream_reads env h hr hc
  have hs := step_reads env t.state r c hr hc
  rw [LineBuffer.feed_ok c.buf r.reads hok] at hs
  simp only [if_true, List.append_nil] at hs
  have hnone : ∀ fd, .hangUp fd ∉ (tap env t (.ready r)).state.pending := by
    intro fd
    simp [tap, hs]
  refine ⟨⟨?_, fun fd hm => absurd hm (hnone fd), fun fd c' hc' _ => ?_, fun fd c' hc' _ => ?_⟩,
    fun fd hm => absurd hm (hnone fd)⟩
  · simp [tap, hs, h.listen, Ne.symm hr.2.1]
  · by_cases ho : fd = r.fd
    · subst ho
      obtain rfl : { c with buf := ⟨(splitLines (c.buf.buf ++ taken r.reads)).2⟩ } = c' := by
        simpa [tap, hs] using hc'
      rw [tap_stream_reads env hr, if_pos rfl]
      exact hsplit
    · exact (other_reads env h hr ho (by simpa [tap, hs, ho] using hc')).1
  · by_cases ho : fd = r.fd
    · subst ho
      rw [tap_stream_reads env hr, if_pos rfl, ← hall]
      simp [tap, hs, pendingLines_map, completeLines]
    · rw [← (other_reads env h hr ho (by simpa [tap, hs, ho] using hc')).2]
      simp [tap, hs, pendingLines_map, Ne.symm ho]

theorem tapInv_reads_end {t : Tapped} {r : Ready} (h : TapInv env t) (hr : Reads env t.state r)
    (hno : (readAll [] r.reads).1 = false) :
    TapInv env (tap env t (.ready r)) ∧
      (LinesHandled (tap env t (.ready r)) ↔ EndsBare env t (.ready r)) := by
  obtain ⟨c, hc⟩ := Option.isSome_iff_exists.mp (AList.lookup_isSome.mpr hr.1)
  obtain ⟨-, hall⟩ := stream_reads env h hr hc
  have hs := step_reads env t.state r c hr hc
  have hfeed : (c.buf.feed r.reads).1 = false ∧ (c.buf.feed r.reads).2.2 = [] := by
    simp [LineBuffer.feed, readAll_eq c.buf.buf, hno]
  simp only [hfeed, List.filter_nil, List.map_nil, List.nil_append, Bool.false_eq_true, if_false] at hs
  have hpending : (tap env t (.ready r)).state.pending = [.hangUp r.fd] := by simp [tap, hs]
  have htrace : (tap env t (.ready r)).state.world.trace = t.state.world.trace := by simp [tap, hs]
  refine ⟨⟨?_, fun fd hm => ?_, fun fd c' hc' hn => ?_, fun fd c' hc' hn => ?_⟩, ?_⟩
  · simp [tap, hs, h.listen, Ne.symm hr.2.1]
  · obtain rfl : fd = r.fd := by simpa [hpending] using hm
    exact ⟨hpending, by simp [tap, hs]⟩
  · have ho : fd ≠ r.fd := by
      rintro rfl
      exact hn (by simp [hpending])
    exact (other_reads env h hr ho (by simpa [tap, hs, ho] using hc')).1
  · have ho : fd ≠ r.fd := by
      rintro rfl
      exact hn (by simp [hpending])
    rw [← (other_reads env h hr ho (by simpa [tap, hs, ho] using hc')).2, hpending, htrace]
    simp [pendingLines]
  · constructor
    · intro hl fd c' hc' hflag hw
      have hfd : fd = r.fd := by
        by_contra ho
        simp [readsOf_reads env hr, ho, readAll] at hflag
      subst hfd
      obtain rfl := Option.some.inj (hc.symm.trans hc')
      have hstream := tap_stream_reads env hr r.fd
      have hreads := readsOf_reads env hr r.fd
      rw [if_pos rfl] at hstream hreads
      have hl := hl r.fd (by simp [hpending]) (by rw [hstream]; rw [hreads] at hw; exact hw)
      rw [htrace, hstream, ← hall] at hl
      rw [hreads]
      simpa using hl
    · intro hbare fd hm hw
      obtain rfl : fd = r.fd := by simpa [hpending] using hm
      have hstream := tap_stream_reads env hr r.fd
      have hreads := readsOf_reads env hr r.fd
      rw [if_pos rfl] at hstream hreads
      have hb := hbare r.fd c hc (by rw [hreads, hno]) (by rw [hreads]; rw [hstream] at hw; exact hw)
      rw [hreads] at hb
      rw [htrace, hstream, ← hall, hb, List.append_nil]

theorem endsBare_of_flag {t : Tapped} {move : Move}
    (h : ∀ fd ∈ t.state.world.conns, (readAll [] (readsOf env t.state fd move)).1 = true) :
    EndsBare env t move := by
  intro fd c hc hflag
  rw [h fd (AList.lookup_isSome.mp (by simp [hc]))] at hflag
  cases hflag

-- One move keeps the invariant, and the lines are handled behind it exactly when
-- it does not end a stream in the middle of a delivery.
theorem tap_lines_iff (t : Tapped) (move : Move) (h : TapInv env t) (hl : LinesHandled t) :
    TapInv env (tap env t move) ∧ (LinesHandled (tap env t move) ↔ EndsBare env t move) := by
  by_cases hreads : ∃ r, move = .ready r ∧ Reads env t.state r
  · obtain ⟨r, rfl, hr⟩ := hreads
    cases hok : (readAll [] r.reads).1 with
    | true =>
        obtain ⟨hinv, hlines⟩ := tapInv_reads_ok env h hr hok
        refine ⟨hinv, iff_of_true hlines (endsBare_of_flag env fun fd _ => ?_)⟩
        rw [readsOf_reads env hr]
        split
        · exact hok
        · rfl
    | false => exact tapInv_reads_end env h hr hok
  · have hn : ∀ r, move = .ready r → ¬Reads env t.state r := fun r hm hr => hreads ⟨r, hm, hr⟩
    have hnone := readsOf_of_not_reads env hn
    obtain ⟨hinv, hlines⟩ := tapInv_of_carries env h hl hnone (.of_quiet env h hn)
    exact ⟨hinv, iff_of_true hlines (endsBare_of_flag env fun fd hm => by rw [hnone fd hm]; rfl)⟩

-- Every complete line of a client is handled before on_disconnect, in every state
-- of a run, exactly when no line comes in the reads that see the stream end.
theorem linesHandled_throughout_iff (w : World) (h : Started env w) (moves : List Move) :
    Run.Throughout (tap env) LinesHandled ⟨⟨w, []⟩, fun _ => []⟩ moves ↔
      Run.Meets (tap env) (EndsBare env) ⟨⟨w, []⟩, fun _ => []⟩ moves := by
  have hconns := (started_spec env w h).1
  refine Run.throughout_iff_meets_of_invariant (tap env)
    (fun t => TapInv env t ∧ LinesHandled t)
    (fun t move ht hc => ?_) (fun t ht => ht.2) (fun t move ht hl => ?_) moves ?_
  · obtain ⟨hinv, hiff⟩ := tap_lines_iff env t move ht.1 ht.2
    exact ⟨hinv, hiff.mpr hc⟩
  · exact (tap_lines_iff env t move ht.1 ht.2).2.mp hl
  · refine ⟨⟨by simp [hconns], by simp, fun fd c hc => ?_, fun fd c hc => ?_⟩, fun fd hm => by simp at hm⟩
    · simp [hconns] at hc
    · simp [hconns] at hc

end Streams

-- A client says hello and closes, and one call of feed sees both.
def helloThenClose : List Move :=
  [accept 7, .ready ⟨7, none, [.data (encodeHello (bytes "1") 1000 ++ [10]), .eof], []⟩]

theorem linesHandled_helloThenClose :
    ∃ w, sampleStart = .ok w ∧
      ¬Run.Throughout (tap .plain) LinesHandled ⟨⟨w, []⟩, fun _ => []⟩ helloThenClose := by
  refine ⟨_, rfl, fun h => ?_⟩
  have hlost := h.2.2 7 (List.mem_singleton.mpr rfl) fun line hl => ?_
  · exact absurd hlost (by decide)
  · obtain rfl : line = encodeHello (bytes "1") 1000 := List.mem_singleton.mp hl
    exact ⟨_, rfl⟩

theorem linesHandled_sample :
    ∃ w, sampleStart = .ok w ∧
      (Run.Throughout (tap .plain) LinesHandled ⟨⟨w, []⟩, fun _ => []⟩ helloThenClose ↔
        Run.Meets (tap .plain) (EndsBare .plain) ⟨⟨w, []⟩, fun _ => []⟩ helloThenClose) :=
  ⟨_, rfl, linesHandled_throughout_iff .plain _ (sample_started rfl) helloThenClose⟩

end Draind.Daemon
