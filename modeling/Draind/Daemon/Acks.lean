import Draind.Daemon.EndOfStream
import Draind.Daemon.Suspend

namespace Draind.Daemon

open Json Proto Sock

-- broadcast_and_wait_acks in its wait. sent is all that a connection has carried since
-- the wait began or that was unread by then, received what recv has taken of it, and
-- failed where recv has failed. The code keeps no such record.
structure Wait where
  pending : Finset Fd
  world : World
  sent : Fd → Bytes
  received : Fd → Bytes
  failed : Finset Fd

inductive WaitMove where
  | write (fd : Fd) (data : Bytes)
  | recv (fd : Fd) (n : Nat)
  | fail (fd : Fd)

def Wait.start (w : World) (agents : Finset Fd) (unread : Fd → Bytes) : Wait :=
  ⟨agents, w, unread, fun _ => [], ∅⟩

-- The n bytes that come next.
def Wait.chunk (s : Wait) (fd : Fd) (n : Nat) : Bytes :=
  ((s.sent fd).drop (s.received fd).length).take n

-- recv has room for 255 bytes and takes what is there.
def Wait.Readable (s : Wait) (fd : Fd) (n : Nat) : Prop :=
  fd ∈ s.pending ∧ 0 < n ∧ n ≤ 255 ∧ (s.received fd).length + n ≤ (s.sent fd).length

instance (s : Wait) (fd : Fd) (n : Nat) : Decidable (s.Readable fd n) :=
  inferInstanceAs (Decidable (_ ∧ _ ∧ _ ∧ _))

-- What the move lets recv return, if the code calls it at all.
def Wait.reception (s : Wait) : WaitMove → Option (Fd × Recv)
  | .write .. => none
  | .recv fd n => if s.Readable fd n then some (fd, .data (s.chunk fd n)) else none
  | .fail fd => if fd ∈ s.pending then some (fd, .failed) else none

-- The code's own step for what recv returns.
def Wait.receive (s : Wait) (reception : Option (Fd × Recv)) : Wait :=
  let (pending, world) := receiveAcks reception.toList s.pending s.world
  { s with pending := pending, world := world }

def Wait.step (s : Wait) (move : WaitMove) : Wait :=
  let s' := s.receive (s.reception move)
  match move with
  | .write fd data => { s' with sent := Function.update s.sent fd (s.sent fd ++ data) }
  | .recv fd n =>
      if s.Readable fd n then
        { s' with received := Function.update s.received fd (s.received fd ++ s.chunk fd n) }
      else s'
  | .fail fd => if fd ∈ s.pending then { s' with failed := insert fd s.failed } else s'

-- What the line buffer holds of a line that is not complete.
def held (w : World) (fd : Fd) : Bytes :=
  match w.conns.lookup fd with
  | some c => c.buf.buf
  | none => []

def Wait.sentLines (s : Wait) (fd : Fd) : List Bytes :=
  completeLines (held s.world fd ++ s.sent fd)

def Wait.receivedLines (s : Wait) (fd : Fd) : List Bytes :=
  completeLines (held s.world fd ++ s.received fd)

-- A message of type ack, as on_line would read it.
def isAck (line : Bytes) : Bool :=
  match decode line with
  | .ok msg => msgType msg = T_ACK
  | .error _ => false

-- Whatever handle_client reads next from the connection, it passes the line on.
def Delivers (w : World) (fd : Fd) (line : Bytes) : Prop :=
  ∃ c, w.conns.lookup fd = some c ∧
    ∀ reads, (readAll [] reads).1 = true → line ∈ (c.buf.feed reads).2.2

-- Acks are matched to agents, and nothing else is swallowed.
structure Matched (agents : Finset Fd) (s : Wait) : Prop where
  left : ∀ fd ∈ agents, fd ∉ s.pending → fd ∈ s.failed ∨ ∃ line ∈ s.sentLines fd, isAck line = true
  acked : ∀ fd ∈ agents, (∃ line ∈ s.receivedLines fd, isAck line = true) → fd ∉ s.pending
  others : ∀ fd ∈ agents, ∀ line ∈ s.receivedLines fd, isAck line = false → Delivers s.world fd line

-- The chunk completes acks alone, and it has the word in quotes where it completes one
-- and nowhere without one.
structure AckChunk (s : Wait) (fd : Fd) (chunk : Bytes) : Prop where
  alone : ∀ line ∈ completeLines (held s.world fd ++ s.received fd ++ chunk), isAck line = true
  quoted : completeLines (held s.world fd ++ s.received fd ++ chunk) ≠ [] → bytes "\"ack\"" <:+: chunk
  sent : bytes "\"ack\"" <:+: chunk → ∃ line ∈ s.sentLines fd, isAck line = true

def TakesAcks (s : Wait) : WaitMove → Prop
  | .recv fd n => s.Readable fd n → AckChunk s fd (s.chunk fd n)
  | _ => True

-- Each connection is open, and nothing complete is left in its buffer.
def Unfinished (w : World) (agents : Finset Fd) : Prop :=
  ∀ fd ∈ agents, ∃ c, w.conns.lookup fd = some c ∧ 10 ∉ c.buf.buf

section Buffers

variable (env : Env)

-- A complete line stays in a buffer only where the connection is about to be closed.
def Buffered (s : State) : Prop :=
  ∀ fd c, s.world.conns.lookup fd = some c → 10 ∉ c.buf.buf ∨ s.pending = [.hangUp fd]

theorem feed_buffered (buffer : LineBuffer) (reads : List ReadResult) :
    (buffer.feed reads).1 = true → 10 ∉ (buffer.feed reads).2.1.buf := by
  cases hok : (readAll [] reads).1 with
  | false => simp [LineBuffer.feed, readAll_eq buffer.buf, hok]
  | true =>
      rw [LineBuffer.feed_ok buffer reads hok]
      exact fun _ => splitLines_left_notMem _

theorem call_buffered {s : State} {c : Call} {rest : List Call} (h : Buffered s) (hp : s.pending = c :: rest) :
    Buffered ⟨(perform env c s.world).settle, rest⟩ := by
  intro other conn hl
  obtain ⟨hopen, hne⟩ := perform_conns env c s.world hl
  refine .inl ((h other conn hopen).resolve_right fun hhang => ?_)
  rw [hp] at hhang
  exact hne (List.cons.inj hhang).1

theorem step_buffered (s : State) (move : Move) (h : Buffered s) : Buffered (step env s move) := by
  have hquiet : s.pending = [] → ∀ fd c, s.world.conns.lookup fd = some c → 10 ∉ c.buf.buf := by
    intro hp fd c hl
    exact (h fd c hl).resolve_right (by simp [hp])
  have hstep := step_stepped env s move
  generalize step env s move = s' at hstep ⊢
  cases hstep with
  | idle => exact h
  | outside => exact h
  | signal m hp _ =>
      intro fd c hl
      rw [(handleSeatProperties_seated m s.world).conns] at hl
      exact .inl (hquiet hp fd c hl)
  | input r hp _ => exact fun fd c hl => .inl (hquiet hp fd c hl)
  | call c rest hp _ => exact call_buffered env h hp
  | accept r fd hp _ hf =>
      intro other c hl
      unfold acceptClient at hl
      rw [if_neg hf.1, World.emit_conns] at hl
      by_cases ho : other = fd
      · subst ho
        rw [AList.lookup_insert] at hl
        cases hl
        exact .inl List.not_mem_nil
      · rw [AList.lookup_insert_ne ho] at hl
        exact .inl (hquiet hp other c hl)
  | feed r c hp _ hc =>
      intro other c' hl
      by_cases ho : other = r.fd
      · subst ho
        rw [AList.lookup_insert] at hl
        cases hl
        cases hok : (c.buf.feed r.reads).1 with
        | true => exact .inl (feed_buffered c.buf r.reads hok)
        | false => exact .inr (by simp [feed_lines_of_false c.buf r.reads hok])
      · rw [AList.lookup_insert_ne ho] at hl
        exact .inl (hquiet hp other c' hl)

-- pending starts as open connections.
theorem broadcast_open (msg : Bytes) (conns : List (Σ _ : Fd, Connection)) (pending : Finset Fd) (w : World) :
    ∀ fd ∈ (broadcast env msg conns pending w).1, fd ∈ pending ∨ fd ∈ conns.map Sigma.fst := by
  induction conns generalizing pending w with
  | nil => exact fun fd hfd => .inl hfd
  | cons c rest ih =>
      intro fd hfd
      rw [List.map_cons, List.mem_cons]
      unfold broadcast at hfd
      split at hfd
      · rcases ih _ _ fd hfd with hmem | hmem
        · split at hmem
          · exact (Finset.mem_insert.mp hmem).symm.imp_right .inl
          · exact .inl hmem
        · exact .inr (.inr hmem)
      · exact (ih _ _ fd hfd).imp_right .inr

-- The agents pre_sleep is written to, and the world behind that.
def told (msg : Bytes) (w : World) : Finset Fd × World :=
  broadcast env msg (env.connOrder w.trace w.conns.entries) ∅ w

-- A call that enters do_suspend finds the connections as they are in the state it is
-- made in. The wait begins with nothing complete in a buffer.
theorem run_unfinished (w : World) (h : Started env w) (moves : List Move)
    (hcall : ∀ fd, (run env w moves).pending ≠ [.hangUp fd]) (msg : Bytes) (w' : World)
    (hw : w'.conns = (run env w moves).world.conns) :
    Unfinished (told env msg w').2 (told env msg w').1 := by
  have hbuffered : Buffered (run env w moves) := by
    refine Run.invariant_always (step env) Buffered (step_buffered env) moves ?_
    intro fd c hl
    rw [(started_spec env w h).1] at hl
    cases hl
  have htold : Emits (fun _ => True) w' (told env msg w').2 :=
    broadcast_emits env msg (fun _ _ => trivial) _ _ w'
  have hconns := htold.keeps.conns
  intro fd hfd
  obtain ⟨c, hc, rfl⟩ := List.mem_map.mp
    ((broadcast_open env msg _ _ w' fd hfd).resolve_left (Finset.notMem_empty fd))
  have hlookup := AList.mem_lookup_iff.mpr ((env.connOrder_perm _ _).mem_iff.mp hc)
  refine ⟨c.2, hconns ▸ hlookup, (hbuffered c.1 c.2 (hw ▸ hlookup)).resolve_right (hcall c.1)⟩

end Buffers

section Rounds

-- A list of receptions is the rounds it is cut into, whatever the cut.
theorem receiveAcks_append (first second : List (Fd × Recv)) (pending : Finset Fd) (w : World) :
    receiveAcks (first ++ second) pending w =
      receiveAcks second (receiveAcks first pending w).1 (receiveAcks first pending w).2 := by
  induction first generalizing pending w with
  | nil => rfl
  | cons r rest ih =>
      obtain ⟨fd, r⟩ := r
      by_cases hp : fd ∈ pending
      · cases r with
        | failed =>
            simp only [List.cons_append, receiveAcks, hp, if_true]
            exact ih _ _
        | data chunk =>
            simp only [List.cons_append, receiveAcks, hp, if_true]
            exact ih _ _
      · simp only [List.cons_append, receiveAcks, hp, if_false]
        exact ih _ _

theorem receiveAcks_empty (round : List (Fd × Recv)) (w : World) : receiveAcks round ∅ w = (∅, w) := by
  induction round with
  | nil => rfl
  | cons r rest ih => simpa [receiveAcks] using ih

theorem waitAcks_flatten (rounds : List (List (Fd × Recv))) (pending : Finset Fd) (w : World) :
    waitAcks rounds pending w = (receiveAcks rounds.flatten pending w).2 := by
  induction rounds generalizing pending w with
  | nil => rfl
  | cons round rest ih =>
      rw [waitAcks, List.flatten_cons]
      by_cases hp : pending = ∅
      · rw [if_pos hp, hp, receiveAcks_empty]
      · rw [if_neg hp, receiveAcks_append]
        exact ih _ _

end Rounds

namespace Wait

-- What recv returns in the course of a run.
def receptions : Wait → List WaitMove → List (Fd × Recv)
  | _, [] => []
  | s, move :: rest => (s.reception move).toList ++ receptions (s.step move) rest

section Moves

variable (s : Wait)

theorem receive_data {fd : Fd} (hp : fd ∈ s.pending) (chunk : Bytes) :
    s.receive (some (fd, .data chunk)) =
      { s with
        pending := if bytes "\"ack\"" <:+: chunk then s.pending.erase fd else s.pending
        world := s.world.emit (.swallowed fd chunk) } := by
  simp [receive, receiveAcks, hp]

theorem receive_failed {fd : Fd} (hp : fd ∈ s.pending) :
    s.receive (some (fd, .failed)) = { s with pending := s.pending.erase fd } := by
  simp [receive, receiveAcks, hp]

theorem step_recv {fd : Fd} {n : Nat} (h : s.Readable fd n) :
    s.step (.recv fd n) =
      { s with
        pending := if bytes "\"ack\"" <:+: s.chunk fd n then s.pending.erase fd else s.pending
        world := s.world.emit (.swallowed fd (s.chunk fd n))
        received := Function.update s.received fd (s.received fd ++ s.chunk fd n) } := by
  simp only [step, reception, if_pos h, s.receive_data h.1]

theorem step_recv_unreadable {fd : Fd} {n : Nat} (h : ¬s.Readable fd n) : s.step (.recv fd n) = s := by
  simp only [step, reception, if_neg h]
  rfl

theorem step_fail {fd : Fd} (h : fd ∈ s.pending) :
    s.step (.fail fd) = { s with pending := s.pending.erase fd, failed := insert fd s.failed } := by
  simp only [step, reception, if_pos h, s.receive_failed h]

theorem step_fail_left {fd : Fd} (h : fd ∉ s.pending) : s.step (.fail fd) = s := by
  simp only [step, reception, if_neg h]
  rfl

theorem step_write (fd : Fd) (data : Bytes) :
    s.step (.write fd data) = { s with sent := Function.update s.sent fd (s.sent fd ++ data) } := rfl

-- Nothing is received that was not sent.
theorem step_prefix (move : WaitMove) (h : ∀ fd, s.received fd <+: s.sent fd) :
    ∀ fd, (s.step move).received fd <+: (s.step move).sent fd := by
  intro other
  cases move with
  | write fd data =>
      rw [step_write]
      by_cases ho : other = fd
      · subst ho
        simpa using (h other).trans (List.prefix_append _ _)
      · simpa [ho] using h other
  | recv fd n =>
      by_cases hr : s.Readable fd n
      · rw [s.step_recv hr]
        by_cases ho : other = fd
        · subst ho
          obtain ⟨rest, hrest⟩ := h other
          have hchunk : s.chunk other n = rest.take n := by rw [chunk, ← hrest, List.drop_left]
          simpa [hchunk, ← hrest] using List.take_prefix n rest
        · simpa [ho] using h other
      · rw [s.step_recv_unreadable hr]
        exact h other
  | fail fd =>
      by_cases hp : fd ∈ s.pending
      · rw [s.step_fail hp]
        exact h other
      · rw [s.step_fail_left hp]
        exact h other

theorem exec_prefix (w : World) (agents : Finset Fd) (unread : Fd → Bytes) (moves : List WaitMove) :
    ∀ fd, (Run.exec step (start w agents unread) moves).received fd <+:
      (Run.exec step (start w agents unread) moves).sent fd :=
  Run.invariant_always step (fun s => ∀ fd, s.received fd <+: s.sent fd) step_prefix moves
    fun _ => List.nil_prefix

theorem step_receives (move : WaitMove) :
    (s.step move).pending = (receiveAcks (s.reception move).toList s.pending s.world).1 ∧
      (s.step move).world = (receiveAcks (s.reception move).toList s.pending s.world).2 := by
  cases move with
  | write fd data => exact ⟨rfl, rfl⟩
  | recv fd n =>
      unfold step
      dsimp only
      split <;> exact ⟨rfl, rfl⟩
  | fail fd =>
      unfold step
      dsimp only
      split <;> exact ⟨rfl, rfl⟩

-- A run is the code's loop on what recv returns in it.
theorem exec_receives (moves : List WaitMove) :
    receiveAcks (s.receptions moves) s.pending s.world =
      ((Run.exec step s moves).pending, (Run.exec step s moves).world) := by
  induction moves generalizing s with
  | nil => rfl
  | cons move rest ih =>
      obtain ⟨hpending, hworld⟩ := s.step_receives move
      rw [receptions, receiveAcks_append, ← hpending, ← hworld]
      exact ih (s.step move)

theorem exec_waitAcks (moves : List WaitMove) (rounds : List (List (Fd × Recv)))
    (h : rounds.flatten = s.receptions moves) :
    waitAcks rounds s.pending s.world = (Run.exec step s moves).world := by
  rw [waitAcks_flatten, h, exec_receives]

-- The function as a whole, for what recv returns in a run.
theorem broadcastAndWaitAcks_run (env : Env) (msg : Bytes) (w : World) (unread : Fd → Bytes)
    (moves : List WaitMove)
    (h : (env.rounds (told env msg w).2.trace).flatten =
      (start (told env msg w).2 (told env msg w).1 unread).receptions moves) :
    broadcastAndWaitAcks env msg w =
      (Run.exec step (start (told env msg w).2 (told env msg w).1 unread) moves).world :=
  exec_waitAcks _ moves _ h

end Moves

section Matching

variable {agents : Finset Fd} {s : Wait}

-- What the moves leave alone.
structure Tracked (agents : Finset Fd) (s : Wait) : Prop where
  unfinished : Unfinished s.world agents
  pending : s.pending ⊆ agents
  waiting : ∀ fd ∈ s.pending, fd ∉ s.failed

theorem completeLines_held {w : World} (h : Unfinished w agents) {fd : Fd} (hfd : fd ∈ agents) :
    completeLines (held w fd) = [] := by
  obtain ⟨c, hc, hleft⟩ := h fd hfd
  simp [held, hc, completeLines, splitLines_left _ hleft]

-- The buffer of the connection has no line to deliver.
theorem not_delivers {w : World} (h : Unfinished w agents) {fd : Fd} (hfd : fd ∈ agents) (line : Bytes) :
    ¬Delivers w fd line := by
  rintro ⟨c', hc', hline⟩
  obtain ⟨c, hc, hleft⟩ := h fd hfd
  obtain rfl := Option.some.inj (hc.symm.trans hc')
  have hnone := hline [] rfl
  simp [LineBuffer.feed, readAll, splitLines_left _ hleft] at hnone

theorem mem_completeLines_append {line first : Bytes} (h : line ∈ completeLines first) (second : Bytes) :
    line ∈ completeLines (first ++ second) := by
  rw [completeLines_append]
  exact List.mem_append_left _ h

theorem start_tracked {w : World} (h : Unfinished w agents) (unread : Fd → Bytes) :
    Tracked agents (start w agents unread) :=
  ⟨h, Finset.Subset.refl _, fun fd _ => Finset.notMem_empty fd⟩

theorem start_matched {w : World} (h : Unfinished w agents) (unread : Fd → Bytes) :
    Matched agents (start w agents unread) := by
  have hnone : ∀ fd ∈ agents, (start w agents unread).receivedLines fd = [] := by
    intro fd hfd
    have hheld := completeLines_held h hfd
    simpa [receivedLines, start] using hheld
  refine ⟨fun fd hfd hleft => absurd hfd hleft, fun fd hfd hack => ?_, fun fd hfd line hline => ?_⟩
  · obtain ⟨line, hline, -⟩ := hack
    rw [hnone fd hfd] at hline
    exact absurd hline List.not_mem_nil
  · rw [hnone fd hfd] at hline
    exact absurd hline List.not_mem_nil

theorem write_matched (hm : Matched agents s) (fd : Fd) (data : Bytes) :
    Matched agents (s.step (.write fd data)) := by
  refine ⟨fun other hother hleft => ?_, hm.acked, hm.others⟩
  refine (hm.left other hother hleft).imp_right fun ⟨line, hline, hack⟩ => ⟨line, ?_, hack⟩
  rw [step_write]
  by_cases ho : other = fd
  · subst ho
    simpa [sentLines, ← List.append_assoc] using mem_completeLines_append hline data
  · simpa [sentLines, ho] using hline

theorem fail_matched (hm : Matched agents s) {fd : Fd} (hp : fd ∈ s.pending) :
    Matched agents (s.step (.fail fd)) := by
  rw [s.step_fail hp]
  refine ⟨fun other hother hleft => ?_, fun other hother hack => ?_, hm.others⟩
  · by_cases ho : other = fd
    · exact .inl (by simp [ho])
    · have hleft' : other ∉ s.pending := by simpa [ho] using hleft
      exact (hm.left other hother hleft').imp_left Finset.mem_insert_of_mem
  · have hleft := hm.acked other hother hack
    exact fun hmem => hleft (Finset.mem_of_mem_erase hmem)

theorem receivedLines_recv {fd : Fd} {n : Nat} (h : s.Readable fd n) (other : Fd) :
    (s.step (.recv fd n)).receivedLines other =
      if other = fd then completeLines (held s.world fd ++ s.received fd ++ s.chunk fd n)
      else s.receivedLines other := by
  rw [s.step_recv h]
  by_cases ho : other = fd
  · subst ho
    simp [receivedLines, held]
  · simp [receivedLines, held, ho]

theorem mem_pending_recv {fd : Fd} {n : Nat} (h : s.Readable fd n) (other : Fd) :
    other ∈ (s.step (.recv fd n)).pending ↔
      other ∈ s.pending ∧ (other = fd → ¬bytes "\"ack\"" <:+: s.chunk fd n) := by
  rw [s.step_recv h]
  dsimp only
  split
  · rename_i hack
    simp [hack, and_comm]
  · rename_i hack
    simp [hack]

theorem sentLines_recv {fd : Fd} {n : Nat} (h : s.Readable fd n) (other : Fd) :
    (s.step (.recv fd n)).sentLines other = s.sentLines other := by
  rw [s.step_recv h]
  rfl

theorem failed_recv {fd : Fd} {n : Nat} (h : s.Readable fd n) : (s.step (.recv fd n)).failed = s.failed := by
  rw [s.step_recv h]

theorem delivers_recv {fd : Fd} {n : Nat} (h : s.Readable fd n) (other : Fd) (line : Bytes) :
    Delivers (s.step (.recv fd n)).world other line ↔ Delivers s.world other line := by
  rw [s.step_recv h]
  exact Iff.rfl

-- What recv takes is neither misjudged nor swallowed only if it is as the code expects.
theorem ackChunk_of_matched (ht : Tracked agents s) {fd : Fd} {n : Nat} (h : s.Readable fd n)
    (hm : Matched agents (s.step (.recv fd n))) : AckChunk s fd (s.chunk fd n) := by
  have hfd := ht.pending h.1
  have hlines := receivedLines_recv h fd
  rw [if_pos rfl] at hlines
  have hpending := mem_pending_recv h fd
  have halone : ∀ line ∈ completeLines (held s.world fd ++ s.received fd ++ s.chunk fd n), isAck line = true := by
    intro line hline
    by_contra hack
    have hdelivers := hm.others fd hfd line (by rwa [hlines]) (by simpa using hack)
    exact not_delivers ht.unfinished hfd line ((delivers_recv h fd line).mp hdelivers)
  refine ⟨halone, fun hne => ?_, fun hquoted => ?_⟩
  · obtain ⟨line, hline⟩ := List.exists_mem_of_ne_nil _ hne
    have hleft := hm.acked fd hfd ⟨line, by rwa [hlines], halone line hline⟩
    by_contra hquoted
    exact hleft (hpending.mpr ⟨h.1, fun _ => hquoted⟩)
  · have hleft : fd ∉ (s.step (.recv fd n)).pending := fun hmem => (hpending.mp hmem).2 rfl hquoted
    have hwhy := hm.left fd hfd hleft
    rw [failed_recv h, sentLines_recv h] at hwhy
    exact hwhy.resolve_left (ht.waiting fd h.1)

-- The other connections are as before.
theorem matched_of_ackChunk (hm : Matched agents s) {fd : Fd} {n : Nat} (h : s.Readable fd n)
    (hc : AckChunk s fd (s.chunk fd n)) : Matched agents (s.step (.recv fd n)) := by
  refine ⟨fun other hother hleft => ?_, fun other hother hack => ?_, fun other hother line hline hack => ?_⟩
  · rw [failed_recv h, sentLines_recv h]
    rw [mem_pending_recv h, not_and] at hleft
    by_cases hmem : other ∈ s.pending
    · obtain ⟨rfl, hquoted⟩ : other = fd ∧ bytes "\"ack\"" <:+: s.chunk fd n := by
        simpa using hleft hmem
      exact .inr (hc.sent hquoted)
    · exact hm.left other hother hmem
  · rw [mem_pending_recv h, not_and]
    rw [receivedLines_recv h] at hack
    by_cases ho : other = fd
    · rw [if_pos ho] at hack
      obtain ⟨line, hline, -⟩ := hack
      exact fun _ hno => hno ho (hc.quoted (List.ne_nil_of_mem hline))
    · rw [if_neg ho] at hack
      exact fun hmem => absurd hmem (hm.acked other hother hack)
  · rw [delivers_recv h]
    rw [receivedLines_recv h] at hline
    by_cases ho : other = fd
    · rw [if_pos ho] at hline
      simp [hc.alone line hline] at hack
    · rw [if_neg ho] at hline
      exact hm.others other hother line hline hack

theorem step_tracked (ht : Tracked agents s) (move : WaitMove) : Tracked agents (s.step move) := by
  cases move with
  | write fd data => exact ⟨ht.unfinished, ht.pending, ht.waiting⟩
  | recv fd n =>
      by_cases h : s.Readable fd n
      · have hpending := mem_pending_recv h
        refine ⟨?_, fun other hmem => ht.pending ((hpending other).mp hmem).1, fun other hmem => ?_⟩
        · rw [s.step_recv h]
          exact ht.unfinished
        · have hwaiting := ht.waiting other ((hpending other).mp hmem).1
          rwa [s.step_recv h]
      · rwa [s.step_recv_unreadable h]
  | fail fd =>
      by_cases h : fd ∈ s.pending
      · rw [s.step_fail h]
        refine ⟨ht.unfinished, fun other hmem => ht.pending (Finset.mem_of_mem_erase hmem), fun other hmem => ?_⟩
        have hwaiting := ht.waiting other (Finset.mem_of_mem_erase hmem)
        simp [Finset.ne_of_mem_erase hmem, hwaiting]
      · rwa [s.step_fail_left h]

theorem step_matched_iff (ht : Tracked agents s) (hm : Matched agents s) (move : WaitMove) :
    Matched agents (s.step move) ↔ TakesAcks s move := by
  cases move with
  | write fd data => exact iff_of_true (write_matched hm fd data) trivial
  | recv fd n =>
      by_cases h : s.Readable fd n
      · exact ⟨fun hm' _ => ackChunk_of_matched ht h hm', fun hc => matched_of_ackChunk hm h (hc h)⟩
      · rw [s.step_recv_unreadable h]
        exact iff_of_true hm fun hr => absurd hr h
  | fail fd =>
      by_cases h : fd ∈ s.pending
      · exact iff_of_true (fail_matched hm h) trivial
      · rw [s.step_fail_left h]
        exact iff_of_true hm trivial

-- In every state of the wait the acks are matched and nothing else is swallowed
-- exactly when all that recv takes is acks, each in one piece.
theorem matched_throughout_iff (w : World) (agents : Finset Fd) (h : Unfinished w agents)
    (unread : Fd → Bytes) (moves : List WaitMove) :
    Run.Throughout step (Matched agents) (start w agents unread) moves ↔
      Run.Meets step TakesAcks (start w agents unread) moves := by
  refine Run.throughout_iff_meets_of_invariant step (fun s => Tracked agents s ∧ Matched agents s)
    (fun s move hs hc => ?_) (fun s hs => hs.2) (fun s move hs hm => ?_) moves ?_
  · exact ⟨step_tracked hs.1 move, (step_matched_iff hs.1 hs.2 move).mpr hc⟩
  · exact (step_matched_iff hs.1 hs.2 move).mp hm
  · exact ⟨start_tracked h unread, start_matched h unread⟩

-- The ack of agent 7, and behind it an inhibit. recv takes both.
def ackThenInhibit : List WaitMove :=
  [.write 7 (encodeAck ++ [10] ++ encodeInhibit (bytes "mpris") ++ [10]), .recv 7 51]

theorem matched_ackThenInhibit :
    ∃ w, sampleStart = .ok w ∧
      ¬Run.Throughout step (Matched {7}) (start (run .plain w [accept 7]).world {7} fun _ => [])
        ackThenInhibit := by
  refine ⟨_, rfl, fun h => ?_⟩
  obtain ⟨c, hc, hline⟩ := h.2.2.others 7 (by decide) (encodeInhibit (bytes "mpris")) (by decide) (by decide)
  cases hc
  exact absurd (hline [] rfl) (by decide)

-- Agent 7 acks in two writes and recv takes them together. Agent 8 hangs up.
def ackAndHangUp : List WaitMove :=
  [.write 7 (encodeAck.take 4), .fail 8, .write 7 (encodeAck.drop 4 ++ [10]), .recv 7 15]

theorem matched_ackAndHangUp :
    ∃ w, sampleStart = .ok w ∧
      (Run.Throughout step (Matched {7, 8}) (start (run .plain w [accept 7, accept 8]).world {7, 8} fun _ => [])
          ackAndHangUp ↔
        Run.Meets step TakesAcks (start (run .plain w [accept 7, accept 8]).world {7, 8} fun _ => [])
          ackAndHangUp) := by
  refine ⟨_, rfl, matched_throughout_iff _ {7, 8} (fun fd hfd => ?_) _ ackAndHangUp⟩
  rcases Finset.mem_insert.mp hfd with rfl | hfd
  · exact ⟨_, rfl, by decide⟩
  · obtain rfl := Finset.mem_singleton.mp hfd
    exact ⟨_, rfl, by decide⟩

end Matching

end Wait

end Draind.Daemon
