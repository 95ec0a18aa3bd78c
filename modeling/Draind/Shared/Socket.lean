import Draind.Shared.Bytes

namespace Draind.Sock

-- What one read(2) on the descriptor returns.
inductive ReadResult where
  | data (chunk : Bytes)
  | again
  | interrupted
  | failed
  | eof

-- The read loop of feed. It stops at the first result that is neither data nor
-- an interruption; a list that ends reads as "nothing more now".
def readAll (buf : Bytes) : List ReadResult → Bool × Bytes
  | [] => (true, buf)
  | .data chunk :: rest => readAll (buf ++ chunk) rest
  | .again :: _ => (true, buf)
  | .interrupted :: rest => readAll buf rest
  | .failed :: _ => (false, buf)
  | .eof :: _ => (false, buf)

-- What one write(2) on the descriptor returns. Of the bytes offered to it, it may
-- take fewer.
inductive WriteResult where
  | wrote (n : Nat)
  | interrupted
  | failed

-- The write loop of write_line: the result, and what has gone out by then. A list
-- that ends reads as EAGAIN.
def writeAll (rem : Bytes) : List WriteResult → Bool × Bytes
  | [] => (rem = [], [])
  | r :: rest =>
      if rem = [] then (true, [])
      else
        match r with
        | .wrote n =>
            let (ok, out) := writeAll (rem.drop n) rest
            (ok, rem.take n ++ out)
        | .interrupted => writeAll rem rest
        | .failed => (false, [])

def writeLine (msg : Bytes) (results : List WriteResult) : Bool × Bytes :=
  writeAll (msg ++ [10]) results

-- The complete lines of the buffer and what is left behind the last newline.
def splitLines : Bytes → List Bytes × Bytes
  | [] => ([], [])
  | c :: rest =>
      let (lines, left) := splitLines rest
      if c = 10 then ([] :: lines, left)
      else
        match lines with
        | [] => ([], c :: left)
        | line :: lines => ((c :: line) :: lines, left)

structure LineBuffer where
  buf : Bytes
  deriving DecidableEq

-- The result, the buffer afterwards, and the lines found. On end of file or an
-- error no line is cut from what was read.
def LineBuffer.feed (buffer : LineBuffer) (reads : List ReadResult) :
    Bool × LineBuffer × List Bytes :=
  let (ok, buf) := readAll buffer.buf reads
  if ok then
    let (lines, left) := splitLines buf
    (true, ⟨left⟩, lines)
  else (false, ⟨buf⟩, [])

-- A caller that feeds the same buffer until it is told to stop.
def LineBuffer.feedAll (buffer : LineBuffer) : List (List ReadResult) → Bool × LineBuffer × List Bytes
  | [] => (true, buffer, [])
  | reads :: rest =>
      let (ok, buffer, lines) := buffer.feed reads
      if ok then
        let (ok, buffer, more) := feedAll buffer rest
        (ok, buffer, lines ++ more)
      else (false, buffer, lines)

end Draind.Sock
