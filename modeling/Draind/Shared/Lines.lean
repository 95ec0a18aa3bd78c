import Draind.Lib.Framing
import Draind.Shared.Socket

namespace Draind.Sock

open Framing

-- What the read loop takes off the socket.
def taken (reads : List ReadResult) : Bytes :=
  (readAll [] reads).2

theorem readAll_append (buf : Bytes) (reads : List ReadResult) (start : Bytes) :
    readAll (buf ++ start) reads = ((readAll start reads).1, buf ++ (readAll start reads).2) := by
  induction reads generalizing start with
  | nil => rfl
  | cons r rest ih =>
      cases r with
      | data chunk => simpa [readAll] using ih (start ++ chunk)
      | interrupted => exact ih start
      | again => rfl
      | failed => rfl
      | eof => rfl

theorem readAll_eq (buf : Bytes) (reads : List ReadResult) :
    readAll buf reads = ((readAll [] reads).1, buf ++ taken reads) := by
  have h := readAll_append buf reads []
  rwa [List.append_nil] at h

theorem splitLines_left (left : Bytes) (h : 10 ∉ left) : splitLines left = ([], left) := by
  induction left with
  | nil => rfl
  | cons c left ih =>
      obtain ⟨hc, hl⟩ := not_or.mp (mt List.mem_cons.mpr h)
      simp [splitLines, ih hl, Ne.symm hc]

theorem splitLines_line (line rest : Bytes) (h : 10 ∉ line) :
    splitLines (line ++ 10 :: rest) = (line :: (splitLines rest).1, (splitLines rest).2) := by
  induction line with
  | nil => rfl
  | cons c line ih =>
      obtain ⟨hc, hl⟩ := not_or.mp (mt List.mem_cons.mpr h)
      simp [splitLines, ih hl, Ne.symm hc]

theorem splitLines_frame (lines : List Bytes) (left : Bytes) (h : ∀ line ∈ lines, 10 ∉ line)
    (hl : 10 ∉ left) : splitLines (frame 10 lines ++ left) = (lines, left) := by
  induction lines with
  | nil => simpa using splitLines_left left hl
  | cons line lines ih =>
      have hrest := ih fun line hm => h line (by simp [hm])
      simp [splitLines_line line _ (h line (by simp)), hrest]

theorem splitLines_left_notMem (text : Bytes) : 10 ∉ (splitLines text).2 := by
  induction text with
  | nil => simp [splitLines]
  | cons c text ih =>
      simp only [splitLines]
      split
      · exact ih
      · rename_i hc
        split
        · exact List.not_mem_cons_of_ne_of_not_mem (Ne.symm hc) ih
        · exact ih

-- What is left of the first part is the beginning of the next line.
theorem splitLines_append (first second : Bytes) :
    splitLines (first ++ second) =
      ((splitLines first).1 ++ (splitLines ((splitLines first).2 ++ second)).1,
        (splitLines ((splitLines first).2 ++ second)).2) := by
  induction first with
  | nil => simp [splitLines]
  | cons c first ih =>
      simp only [List.cons_append, splitLines, ih]
      split
      · simp
      · rename_i hc
        cases hl : (splitLines first).1 with
        | nil => simp [splitLines, hc]
        | cons line lines => simp

theorem LineBuffer.feed_ok (buffer : LineBuffer) (reads : List ReadResult)
    (h : (readAll [] reads).1 = true) :
    buffer.feed reads = (true, ⟨(splitLines (buffer.buf ++ taken reads)).2⟩,
      (splitLines (buffer.buf ++ taken reads)).1) := by
  simp [LineBuffer.feed, readAll_eq buffer.buf, h]

-- However the stream is cut into reads and calls, the lines are those of the whole.
theorem LineBuffer.feedAll_ok (buffer : LineBuffer) (calls : List (List ReadResult))
    (hb : 10 ∉ buffer.buf) (h : ∀ reads ∈ calls, (readAll [] reads).1 = true) :
    buffer.feedAll calls = (true, ⟨(splitLines (buffer.buf ++ calls.flatMap taken)).2⟩,
      (splitLines (buffer.buf ++ calls.flatMap taken)).1) := by
  induction calls generalizing buffer with
  | nil => simp [feedAll, splitLines_left _ hb]
  | cons reads rest ih =>
      have hrest := ih ⟨(splitLines (buffer.buf ++ taken reads)).2⟩ (splitLines_left_notMem _)
        fun reads hr => h reads (by simp [hr])
      simp only [feedAll, feed_ok buffer reads (h reads (by simp)), if_true, hrest]
      rw [List.flatMap_cons, ← List.append_assoc, splitLines_append (buffer.buf ++ taken reads)]

-- Reads that take a part of the stream cut the lines out of it that are complete.
theorem LineBuffer.feed_frame (buffer : LineBuffer) (reads : List ReadResult) (queued : List Bytes)
    (rest : Bytes) (hq : ∀ line ∈ queued, 10 ∉ line) (hok : (readAll [] reads).1 = true)
    (h : buffer.buf ++ taken reads ++ rest = frame 10 queued) :
    ∃ first second left, queued = first ++ second ∧ buffer.feed reads = (true, ⟨left⟩, first) ∧
      10 ∉ left ∧ left ++ rest = frame 10 second := by
  obtain ⟨first, second, left, rfl, hcome, hleft, hrest⟩ := frame_split 10 hq _ rest h
  refine ⟨first, second, left, rfl, ?_, hleft, hrest⟩
  have hsplit := splitLines_frame first left (fun line hm => hq line (by simp [hm])) hleft
  simp [LineBuffer.feed, readAll_eq buffer.buf, hok, hcome, hsplit]

end Draind.Sock
