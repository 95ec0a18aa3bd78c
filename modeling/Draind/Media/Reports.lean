import Draind.Daemon.Reports
import Draind.Media.Inhibit

namespace Draind.Media

open Agent (Impl AgentOptions Link edgeLine remarkLine)
open Daemon (Call Env Fd Report reportOf reportsOn)
open Framing Json Proto

-- The kernel takes the next line whole, or nothing of it.
def TakesWhole (l : Link) (msg : Bytes) : Prop :=
  Takes l msg ∨ l.room l.sent.length = 0

def TakesAllWhole : Link → List Bytes → Prop
  | _, [] => True
  | l, msg :: rest => TakesWhole l msg ∧ TakesAllWhole (l.writeLine msg) rest

-- The lines can be read, and the first of them is a hello.
def Greets (lines : List Bytes) : Prop :=
  ∃ hello rest, List.Forall₂ Readable lines (hello :: rest) ∧ msgType hello = T_HELLO

-- The reports handled are those among the messages received.
def Noted (d : Daemon.State) (fd : Fd) : Prop :=
  ∀ messages, Daemon.received d.world.trace fd = some messages →
    reportsOn d.world.trace fd = messages.filterMap reportOf

structure Conveys (env : Env) (d : Daemon.State) (l : Link) : Prop where
  greets : l.alive = true → Greets (whole l)
  bound : l.alive = true → ∀ fd ∈ l.fd, fd ≠ env.listenFd ∧ Carried d fd l.wire (whole l) ∧ Noted d fd
  unbound : l.alive = true → l.fd = none → l.wire = frame 10 (whole l)

def InStep (s : System) : Prop :=
  Daemon.Covered s.daemon.world ∧ ∀ a, s.agent = some a → Conveys s.env s.daemon a.link

section Lines

theorem readable_of_readables {lines : List Bytes} {messages : List Value}
    (h : List.Forall₂ Readable lines messages) : ∀ line ∈ lines, ∃ msg, Readable line msg := by
  induction h with
  | nil => simp
  | cons hmsg _ ih => exact List.forall_mem_cons.mpr ⟨⟨_, hmsg⟩, ih⟩

theorem Greets.readable {lines : List Bytes} (h : Greets lines) : ∀ line ∈ lines, ∃ msg, Readable line msg := by
  obtain ⟨_, _, hf, -⟩ := h
  exact readable_of_readables hf

theorem Greets.append {lines : List Bytes} {line : Bytes} (h : Greets lines) (hr : ∃ msg, Readable line msg) :
    Greets (lines ++ [line]) := by
  obtain ⟨hello, rest, hf, ht⟩ := h
  obtain ⟨msg, hmsg⟩ := hr
  exact ⟨hello, rest ++ [msg], List.rel_append hf (.cons hmsg .nil), ht⟩

end Lines

section Handling

variable (env : Env) {d : Daemon.State} {fd : Fd} {wire : Bytes} {lines : List Bytes}

theorem Noted.keep {d' : Daemon.State} (h : Noted d fd)
    (hm : Daemon.received d'.world.trace fd = Daemon.received d.world.trace fd)
    (hr : reportsOn d'.world.trace fd = reportsOn d.world.trace fd) : Noted d' fd := by
  intro messages hmessages
  rw [hr]
  exact h messages (hm ▸ hmessages)

end Handling

section Links

variable {env : Env} {d : Daemon.State} {l : Link}

theorem Conveys.write {msg : Bytes} (h : Conveys env d l) (hr : ∃ m, Readable msg m) (ht : TakesWhole l msg) :
    Conveys env d (l.writeLine msg) := by
  rcases ht with ht | hroom
  · have hw := fun ha => writeLine_taken (l := l) ha ht
    refine ⟨fun ha => ?_, fun ha fd hfd => ?_, fun ha hfd => ?_⟩
    · rw [(hw ha).2]
      exact (h.greets ha).append hr
    · obtain ⟨hlisten, hc, hn⟩ := h.bound ha fd hfd
      rw [(hw ha).1, (hw ha).2]
      exact ⟨hlisten, hc.write msg, hn⟩
    · rw [(hw ha).1, (hw ha).2, h.unbound ha hfd]
      simp
  · have hw := fun ha => writeLine_none (l := l) msg ha hroom
    refine ⟨fun ha => ?_, fun ha fd hfd => ?_, fun ha hfd => ?_⟩
    · rw [(hw ha).2]
      exact h.greets ha
    · rw [(hw ha).1, (hw ha).2]
      exact h.bound ha fd hfd
    · rw [(hw ha).1, (hw ha).2]
      exact h.unbound ha hfd

theorem Conveys.edges (edges : List Agent.Edge) (h : Conveys env d l)
    (ht : TakesAllWhole l (edges.map edgeLine)) : Conveys env d ((edges.map edgeLine).foldl Link.writeLine l) := by
  induction edges generalizing l with
  | nil => exact h
  | cons e rest ih =>
      obtain ⟨msg, hmsg, -⟩ := readable_edge e
      exact ih (h.write ⟨msg, hmsg⟩ ht.1) ht.2

end Links

section Steps

variable (opts : AgentOptions) {s : System}

theorem InStep.during (h : InStep s) (phase : Agent.Phase) (f : Impl → Impl)
    (hf : ∀ a, s.agent = some a → a.phase = phase → Conveys s.env s.daemon a.link →
      Conveys s.env s.daemon (f a).link) : InStep (s.during phase f) := by
  unfold System.during
  split
  · rename_i a ha
    split
    · rename_i hp
      refine ⟨h.1, fun a' ha' => ?_⟩
      cases ha'
      exact hf a ha hp (h.2 a ha)
    · exact h
  · exact h

end Steps

end Draind.Media
