import Draind.Media.System
import Draind.Shared.Message

namespace Draind.Media

open Daemon (Fd Call)
open Framing Proto

-- The lines of a descriptor among the calls still to be made.
def linesOf (fd : Fd) (pending : List Call) : List Bytes :=
  pending.filterMap fun
    | .line other line => if other = fd then some line else none
    | _ => none

-- The connection is open and has carried the lines in order and without loss: some
-- are handled, some wait for their calls, and the bytes that are on their way make
-- up the others.
def Carried (d : Daemon.State) (fd : Fd) (wire : Bytes) (lines : List Bytes) : Prop :=
  ∃ handled messages queued c,
    lines = handled ++ linesOf fd d.pending ++ queued ∧
    Daemon.received d.world.trace fd = some messages ∧ List.Forall₂ Readable handled messages ∧
    .hangUp fd ∉ d.pending ∧
    d.world.conns.lookup fd = some c ∧ c.buf.buf ++ wire = frame 10 queued ∧ 10 ∉ c.buf.buf

section Calls

variable (fd : Fd)

@[simp] theorem linesOf_nil : linesOf fd [] = [] := rfl

@[simp] theorem linesOf_line (line : Bytes) (rest : List Call) :
    linesOf fd (.line fd line :: rest) = line :: linesOf fd rest := by
  simp [linesOf]

theorem linesOf_cons_of_ne {c : Call} (h : ∀ line, c ≠ .line fd line) (rest : List Call) :
    linesOf fd (c :: rest) = linesOf fd rest := by
  cases c with
  | line other line =>
      have hne : other ≠ fd := fun he => h line (he ▸ rfl)
      simp [linesOf, hne]
  | hangUp other => rfl
  | button e => rfl

theorem linesOf_eq_nil {pending : List Call} (h : ∀ line, .line fd line ∉ pending) :
    linesOf fd pending = [] := by
  induction pending with
  | nil => rfl
  | cons c rest ih =>
      rw [linesOf_cons_of_ne fd fun line he => h line (he ▸ List.mem_cons_self)]
      exact ih fun line hl => h line (List.mem_cons_of_mem c hl)

theorem linesOf_map (lines : List Bytes) : linesOf fd (lines.map (.line fd)) = lines := by
  induction lines with
  | nil => rfl
  | cons line rest ih => rw [List.map_cons, linesOf_line, ih]

end Calls

theorem Carried.keep {d d' : Daemon.State} {fd : Fd} {wire : Bytes} {lines : List Bytes}
    (h : Carried d fd wire lines)
    (hr : Daemon.received d'.world.trace fd = Daemon.received d.world.trace fd)
    (hc : d'.world.conns.lookup fd = d.world.conns.lookup fd)
    (hl : linesOf fd d'.pending = linesOf fd d.pending) (hh : .hangUp fd ∉ d'.pending) :
    Carried d' fd wire lines := by
  obtain ⟨handled, messages, queued, c, he, hm, hf, -, hconn, hbuf, hleft⟩ := h
  exact ⟨handled, messages, queued, c, hl ▸ he, hr ▸ hm, hf, hh, hc ▸ hconn, hbuf, hleft⟩

theorem Carried.mem_conns {d : Daemon.State} {fd : Fd} {wire : Bytes} {lines : List Bytes}
    (h : Carried d fd wire lines) : fd ∈ d.world.conns := by
  obtain ⟨_, _, _, c, _, _, _, _, hconn, _⟩ := h
  exact AList.lookup_isSome.mp (by simp [hconn])

section Steps

variable (env : Daemon.Env)

-- The daemon handles the lines of the connection in turn. Whatever else it does
-- concerns other connections.
theorem step_carried (d : Daemon.State) (m : Daemon.Move) (fd : Fd) (wire : Bytes) (lines : List Bytes)
    (hread : ∀ line ∈ lines, ∃ msg, Readable line msg) (hm : feeds m ≠ some fd)
    (h : Carried d fd wire lines) : Carried (Daemon.step env d m) fd wire lines := by
  have hstep := Daemon.step_stepped env d m
  generalize Daemon.step env d m = d' at hstep ⊢
  cases hstep with
  | idle => exact h
  | signal m hp _ =>
      have hs := Daemon.handleSeatProperties_seated m d.world
      refine h.keep ?_ ?_ (by rw [hp]) (by simp)
      · rw [hs.received]
      · rw [hs.conns]
  | accept r other hp _ hf =>
      have hne : fd ≠ other := fun he => hf.1 (he ▸ h.mem_conns)
      refine h.keep ?_ ?_ (by rw [hp]) (by simp)
      · rw [Daemon.received_accept, Function.update_of_ne hne]
      · simp [Daemon.acceptClient, Daemon.World.emit, hf.1, hne]
  | feed r c hp _ hc =>
      have hne : r.fd ≠ fd := fun he => hm (congrArg some he)
      refine h.keep rfl (AList.lookup_insert_ne hne.symm) ?_ ?_
      · rw [hp, linesOf_nil]
        refine linesOf_eq_nil fd fun line hl => ?_
        split at hl <;> simp [hne] at hl
      · intro hl
        split at hl <;> simp [hne.symm] at hl
  | input r hp _ =>
      refine h.keep rfl rfl ?_ (by simp)
      rw [hp, linesOf_nil]
      exact linesOf_eq_nil fd fun line hl => by simp at hl
  | outside => exact h
  | call c rest hp _ =>
      have hh : .hangUp fd ∉ c :: rest := by
        obtain ⟨_, _, _, _, _, _, _, hh, _⟩ := h
        exact hp ▸ hh
      have hrest : .hangUp fd ∉ rest := fun hl => hh (List.mem_cons_of_mem c hl)
      by_cases hc : ∃ line, c = .line fd line
      · obtain ⟨line, rfl⟩ := hc
        obtain ⟨handled, messages, queued, conn, he, hr, hf, -, hconn, hbuf, hleft⟩ := h
        rw [hp, linesOf_line] at he
        obtain ⟨msg, hmsg⟩ := hread line (by simp [he])
        refine ⟨handled ++ [line], messages ++ [msg], queued, conn, by simp [he], ?_,
          List.rel_append hf (.cons hmsg .nil), hrest, ?_, hbuf, hleft⟩
        · rw [Daemon.received_message env fd line msg d.world hmsg.decoded]
          simp [hr]
        · rw [Daemon.Result.settle_conns,
            (Daemon.perform_message env fd line msg d.world hmsg.decoded).conns]
          exact hconn
      · have hl : ∀ line, c ≠ .line fd line := fun line he => hc ⟨line, he⟩
        obtain ⟨hr, hconn⟩ := Daemon.perform_other env c fd d.world (fun he => hh (he ▸ List.mem_cons_self)) hl
        exact h.keep hr hconn (by rw [hp, linesOf_cons_of_ne fd hl]) hrest

variable {d : Daemon.State} {fd : Fd} {wire : Bytes} {lines : List Bytes}

theorem accept_carried (hp : d.pending = []) (he : d.world.exited = false)
    (hf : Daemon.fresh env d.world fd) (h : wire = frame 10 lines) :
    Carried (Daemon.step env d (.ready ⟨env.listenFd, some fd, [], []⟩)) fd wire lines := by
  have hstep : Daemon.step env d (.ready ⟨env.listenFd, some fd, [], []⟩) =
      ⟨Daemon.acceptClient fd d.world, []⟩ := by
    simp [Daemon.step, Daemon.begin, hp, he, hf]
  rw [hstep]
  refine ⟨[], [], lines, ⟨fd, ⟨[]⟩, false, false⟩, rfl, ?_, .nil, by simp, ?_, h, by simp⟩
  · simp [Daemon.received_accept]
  · simp [Daemon.acceptClient, Daemon.World.emit, hf.1]

-- Reads that take the next bytes off the connection.
theorem deliver_carried (reads : List Sock.ReadResult) (rest : Bytes)
    (hread : ∀ line ∈ lines, ∃ msg, Readable line msg) (hp : d.pending = [])
    (he : d.world.exited = false) (hl : fd ≠ env.listenFd) (hok : (Sock.readAll [] reads).1 = true)
    (hw : Sock.taken reads ++ rest = wire) (h : Carried d fd wire lines) :
    Carried (Daemon.step env d (.ready ⟨fd, none, reads, []⟩)) fd rest lines := by
  obtain ⟨handled, messages, queued, c, hlines, hm, hf, -, hconn, hbuf, hleft⟩ := h
  rw [hp, linesOf_nil, List.append_nil] at hlines
  have hwhole : ∀ line ∈ queued, 10 ∉ line := by
    intro line hline
    obtain ⟨msg, hmsg⟩ := hread line (by simp [hlines, hline])
    exact hmsg.whole
  obtain ⟨first, second, left, rfl, hfeed, hleft', hrest⟩ :=
    c.buf.feed_frame reads queued rest hwhole hok (by rw [List.append_assoc, hw, hbuf])
  have hfirst : first.filter (· ≠ []) = first := by
    refine List.filter_eq_self.mpr fun line hline => ?_
    obtain ⟨msg, hmsg⟩ := hread line (by simp [hlines, hline])
    simpa using hmsg.nonempty
  have hstep : Daemon.step env d (.ready ⟨fd, none, reads, []⟩) =
      ⟨{ d.world with conns := d.world.conns.insert fd { c with buf := ⟨left⟩ } }, first.map (.line fd)⟩ := by
    simp only [Daemon.step, Daemon.begin, hp, he, hl, hconn, hfeed, hfirst]
    simp
  rw [hstep]
  refine ⟨handled, messages, second, { c with buf := ⟨left⟩ }, ?_, hm, hf, by simp, ?_, hrest, hleft'⟩
  · rw [linesOf_map, hlines, List.append_assoc]
  · simp

theorem Carried.write (h : Carried d fd wire lines) (line : Bytes) :
    Carried d fd (wire ++ (line ++ [10])) (lines ++ [line]) := by
  obtain ⟨handled, messages, queued, c, hlines, hm, hf, hh, hconn, hbuf, hleft⟩ := h
  refine ⟨handled, messages, queued ++ [line], c, by simp [hlines], hm, hf, hh, hconn, ?_, hleft⟩
  rw [frame_append, ← List.append_assoc, hbuf]
  simp

-- With nothing on its way, every line has been handled.
theorem Carried.received (h : Carried d fd [] lines) (hp : ∀ line, .line fd line ∉ d.pending) :
    ∃ messages, Daemon.received d.world.trace fd = some messages ∧
      List.Forall₂ Readable lines messages := by
  obtain ⟨handled, messages, queued, c, hlines, hm, hf, -, -, hbuf, hleft⟩ := h
  rw [List.append_nil] at hbuf
  have hq : queued = [] := eq_nil_of_notMem_frame 10 (hbuf ▸ hleft)
  rw [linesOf_eq_nil fd hp, hq, List.append_nil, List.append_nil] at hlines
  exact ⟨messages, hm, hlines ▸ hf⟩

end Steps

end Draind.Media
