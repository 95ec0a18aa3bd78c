import Draind.Shared.Lines
import Draind.Shared.Message

namespace Draind.Proto

open Framing Json Sock

-- The messages the program writes.
inductive Encoded : Bytes → Prop
  | hello (sessionId : Bytes) (uid : UInt32) : Encoded (encodeHello sessionId uid)
  | idleDim : Encoded encodeIdleDim
  | idleSleep : Encoded encodeIdleSleep
  | active : Encoded encodeActive
  | inhibit (reason : Bytes) : Encoded (encodeInhibit reason)
  | uninhibit (reason : Bytes) : Encoded (encodeUninhibit reason)
  | config (dimTimeout sleepTimeout : Int32) : Encoded (encodeConfig dimTimeout sleepTimeout)
  | ack : Encoded encodeAck
  | lock : Encoded encodeLock
  | preSleep : Encoded encodePreSleep
  | ctl (cmd profile : Bytes) : Encoded (encodeCtl cmd profile)
  | ctlReply (fields : Value) (h : Plain fields) : Encoded (encodeCtlReply fields)

section Channel

theorem plain_ctl (cmd : Bytes) : Plain ((plain T_CTL).set (bytes "cmd") (.string cmd)) :=
  plain_set _ _ (.string cmd) (plain_plain T_CTL) trivial

theorem Encoded.exists_plain {msg : Bytes} (h : Encoded msg) : ∃ v, Plain v ∧ msg = dump v := by
  cases h with
  | hello sessionId uid =>
      exact ⟨_, plain_set _ _ (.int _) (plain_set _ _ (.string _) (plain_plain _) trivial) trivial, rfl⟩
  | inhibit reason => exact ⟨_, plain_set _ _ (.string _) (plain_plain _) trivial, rfl⟩
  | uninhibit reason => exact ⟨_, plain_set _ _ (.string _) (plain_plain _) trivial, rfl⟩
  | config dimTimeout sleepTimeout =>
      exact ⟨_, plain_set _ _ (.int _) (plain_set _ _ (.int _) (plain_plain _) trivial) trivial, rfl⟩
  | idleDim | idleSleep | active | ack | lock | preSleep => exact ⟨_, plain_plain _, rfl⟩
  | ctlReply fields h => exact ⟨_, plain_set fields _ (.string _) h trivial, rfl⟩
  | ctl cmd profile =>
      refine ⟨_, ?_, rfl⟩
      split
      · exact plain_ctl cmd
      · exact plain_set _ _ (.string profile) (plain_ctl cmd) trivial

-- However the bytes of the messages are cut into reads and calls of feed, the
-- receiver sees these messages and nothing is left over.
theorem feedAll_dump (messages : List Value) (h : ∀ v ∈ messages, Plain v)
    (calls : List (List ReadResult)) (hok : ∀ reads ∈ calls, (readAll [] reads).1 = true)
    (hstream : calls.flatMap taken = frame 10 (messages.map dump)) :
    LineBuffer.feedAll ⟨[]⟩ calls = (true, ⟨[]⟩, messages.map dump) := by
  have hlines : ∀ line ∈ messages.map dump, 10 ∉ line := by
    intro line hl
    obtain ⟨v, hv, rfl⟩ := List.mem_map.mp hl
    exact dump_notMem_newline v (h v hv)
  have hsplit := splitLines_frame (messages.map dump) [] hlines List.not_mem_nil
  rw [List.append_nil] at hsplit
  simpa [hstream, hsplit] using LineBuffer.feedAll_ok ⟨[]⟩ calls List.not_mem_nil hok

theorem mapM_decode_dump (messages : List Value) (h : ∀ v ∈ messages, Plain v) :
    (messages.map dump).mapM decode = .ok messages := by
  induction messages with
  | nil => rfl
  | cons v rest ih =>
      have hv : decode (dump v) = .ok v := parse_dump v (h v (by simp))
      rw [List.map_cons, List.mapM_cons, hv, ih fun v hv => h v (by simp [hv])]
      rfl

-- The channel is faithful, whatever program messages or other values without a
-- double it carries.
theorem channel_faithful :
    (∀ msg, Encoded msg → ∃ v, Plain v ∧ msg = dump v) ∧
      ∀ (messages : List Value) (calls : List (List ReadResult)), (∀ v ∈ messages, Plain v) →
        (∀ reads ∈ calls, (readAll [] reads).1 = true) →
        calls.flatMap taken = frame 10 (messages.map dump) →
          LineBuffer.feedAll ⟨[]⟩ calls = (true, ⟨[]⟩, messages.map dump) ∧
            (messages.map dump).mapM decode = .ok messages := by
  refine ⟨fun msg h => h.exists_plain, fun messages calls h hok hstream => ⟨?_, ?_⟩⟩
  · exact feedAll_dump messages h calls hok hstream
  · exact mapM_decode_dump messages h

-- An inhibit whose reason holds a newline, cut inside the escape.
def cutInhibit : List (List ReadResult) :=
  [[.data (bytes "\x7b\"reason\":\"a\\"), .interrupted],
    [.data (bytes "nb\",\"type\":\"inhibit\"\x7d"), .again], [.data (bytes "\n")]]

theorem channel_faithful_cutInhibit :
    LineBuffer.feedAll ⟨[]⟩ cutInhibit = (true, ⟨[]⟩, [encodeInhibit (bytes "a\nb")]) ∧
      ([encodeInhibit (bytes "a\nb")]).mapM decode =
        .ok [(plain T_INHIBIT).set (bytes "reason") (.string (bytes "a\nb"))] :=
  channel_faithful.2 [(plain T_INHIBIT).set (bytes "reason") (.string (bytes "a\nb"))] cutInhibit
    (by simpa using plain_set _ _ (.string _) (plain_plain _) trivial) (by decide) (by decide)

end Channel

end Draind.Proto

namespace Draind.Sock

open Framing

-- One call of write_line, with what its calls of write return.
structure Write where
  msg : Bytes
  results : List WriteResult

def Write.ok (w : Write) : Bool :=
  (writeLine w.msg w.results).1

def Write.out (w : Write) : Bytes :=
  (writeLine w.msg w.results).2

-- The call fails with a part of its line on the wire.
def Write.Cut (w : Write) : Prop :=
  w.ok = false ∧ w.out ≠ []

-- The messages whose write_line returned true.
def delivered (writes : List Write) : List Bytes :=
  (writes.filter Write.ok).map Write.msg

section Writes

-- A call that returns true has written everything, and one that returns false not
-- even the last byte.
theorem writeAll_out (rem : Bytes) (results : List WriteResult) :
    ((writeAll rem results).1 = true → (writeAll rem results).2 = rem) ∧
      ((writeAll rem results).1 = false →
        ∃ missing, missing ≠ [] ∧ rem = (writeAll rem results).2 ++ missing) := by
  induction results generalizing rem with
  | nil =>
      simp only [writeAll, decide_eq_true_eq, decide_eq_false_iff_not]
      exact ⟨Eq.symm, fun h => ⟨rem, h, rfl⟩⟩
  | cons r rest ih =>
      unfold writeAll
      split
      · rename_i h
        exact ⟨fun _ => h.symm, fun hf => by cases hf⟩
      · rename_i hne
        cases r with
        | interrupted => exact ih rem
        | failed => exact ⟨fun hf => by (cases hf), fun _ => ⟨rem, hne, rfl⟩⟩
        | wrote n =>
            obtain ⟨hall, hpart⟩ := ih (rem.drop n)
            constructor
            · intro hok
              simp only [hall hok, List.take_append_drop]
            · intro hno
              obtain ⟨missing, hm, he⟩ := hpart hno
              refine ⟨missing, hm, ?_⟩
              rw [List.append_assoc, ← he, List.take_append_drop]

theorem Write.out_of_ok (w : Write) (h : w.ok = true) : w.out = w.msg ++ [10] :=
  (writeAll_out _ _).1 h

theorem Write.out_of_not_ok (w : Write) (h : w.ok = false) (hm : 10 ∉ w.msg) : 10 ∉ w.out := by
  obtain ⟨missing, hne, he⟩ := (writeAll_out _ _).2 h
  cases missing using List.reverseRecOn with
  | nil => exact absurd rfl hne
  | append_singleton missing last =>
      rw [← List.append_assoc] at he
      obtain ⟨hmsg, -⟩ := List.append_inj' he rfl
      exact fun hn => hm (hmsg ▸ List.mem_append_left missing hn)

-- With something unfinished before them, the lines are the messages delivered
-- exactly when there are none.
theorem splitLines_writes_iff (writes : List Write) (hm : ∀ w ∈ writes, 10 ∉ w.msg) (left : Bytes)
    (hl : 10 ∉ left) :
    (splitLines (left ++ writes.flatMap Write.out)).1 = delivered writes ↔
      (left ≠ [] → ∀ w ∈ writes, w.ok = false) ∧
        writes.Pairwise fun first second => first.Cut → second.ok = false := by
  induction writes generalizing left with
  | nil => simp [delivered, splitLines_left left hl]
  | cons w rest ih =>
      have hrest := ih fun w hw => hm w (by simp [hw])
      have hw : 10 ∉ w.msg := hm w (by simp)
      cases hok : w.ok with
      | true =>
          have hline : 10 ∉ left ++ w.msg := by simp [hl, hw]
          have hsplit := splitLines_line (left ++ w.msg) (rest.flatMap Write.out) hline
          have hdelivered : delivered (w :: rest) = w.msg :: delivered rest := by simp [delivered, hok]
          have hcut : ¬w.Cut := fun h => by simp [Write.Cut, hok] at h
          have hstream : left ++ (w :: rest).flatMap Write.out =
              left ++ w.msg ++ 10 :: rest.flatMap Write.out := by
            simp [w.out_of_ok hok]
          have ih := hrest [] List.not_mem_nil
          rw [List.nil_append] at ih
          rw [hstream, hsplit, hdelivered, List.cons.injEq, ih, List.pairwise_cons]
          simp [hok, hcut]
      | false =>
          have hout := w.out_of_not_ok hok hw
          have hdelivered : delivered (w :: rest) = delivered rest := by simp [delivered, hok]
          have ih := hrest (left ++ w.out) (by simp [hl, hout])
          rw [List.flatMap_cons, ← List.append_assoc, hdelivered, ih, List.pairwise_cons]
          simp only [Write.Cut, hok, true_and, List.forall_mem_cons]
          by_cases hleft : left = [] <;> by_cases ho : w.out = [] <;> simp [hleft, ho]

-- The peer sees the messages for which write_line returned true exactly when no
-- call that fails in the middle of its line is followed by one that succeeds.
theorem lines_delivered_iff (writes : List Write) (hm : ∀ w ∈ writes, 10 ∉ w.msg)
    (calls : List (List ReadResult)) (hok : ∀ reads ∈ calls, (readAll [] reads).1 = true)
    (hstream : calls.flatMap taken = writes.flatMap Write.out) :
    (LineBuffer.feedAll ⟨[]⟩ calls).2.2 = delivered writes ↔
      writes.Pairwise fun first second => first.Cut → second.ok = false := by
  have hfeed := LineBuffer.feedAll_ok ⟨[]⟩ calls List.not_mem_nil hok
  have hsplit := splitLines_writes_iff writes hm [] List.not_mem_nil
  rw [hfeed, hstream]
  simpa using hsplit

end Writes

-- The peer's buffer is full after four bytes of a lock, and empty for the ack.
def cutLock : List Write :=
  [⟨Proto.encodeLock, [.wrote 4, .failed]⟩, ⟨Proto.encodeAck, [.wrote 15]⟩]

theorem lines_cutLock :
    ∃ calls : List (List ReadResult), (∀ reads ∈ calls, (readAll [] reads).1 = true) ∧
      calls.flatMap taken = cutLock.flatMap Write.out ∧
      (LineBuffer.feedAll ⟨[]⟩ calls).2.2 ≠ delivered cutLock :=
  ⟨[[.data (cutLock.flatMap Write.out)]], by decide, by decide, by decide⟩

-- A lock that goes out in two parts, with an interruption between them.
def shortLock : List Write :=
  [⟨Proto.encodeLock, [.wrote 4, .interrupted, .wrote 12]⟩, ⟨Proto.encodeAck, [.wrote 15]⟩]

theorem lines_delivered_shortLock :
    (LineBuffer.feedAll ⟨[]⟩ [[.data (shortLock.flatMap Write.out)]]).2.2 = delivered shortLock ↔
      shortLock.Pairwise fun first second => first.Cut → second.ok = false :=
  lines_delivered_iff shortLock (by decide) _ (by decide) (by decide)

end Draind.Sock
