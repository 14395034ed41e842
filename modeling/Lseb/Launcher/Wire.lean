import Lseb.Launcher.KeyVals

/-!
# The connection to the process manager

`PMIU_readline` takes one line out of a buffer that it fills by reads of any
size; `PMIU_writeline` sends a line by one write. What the reads and the writes
of the connection give is an input. Its messages about errors are left out.
-/

namespace Lseb

open Foundation

/-- What a call of `read` gives; a read of data has at least one character. -/
inductive FdRead where
  | data (first : Char) (rest : List Char)
  | interrupted
  | eof
  | failed
  deriving DecidableEq, Repr

/-- What a call of `write` gives, if it does not take the whole line. -/
inductive FdWrite where
  | part (n : ℕ)
  | interrupted
  | failed
  deriving DecidableEq, Repr

/-- The characters from `nextChar` on, what the coming calls give, and what was written. -/
structure Wire where
  buffered : CString
  reads : List FdRead
  writes : List FdWrite
  written : List CString
  deriving DecidableEq, Repr

abbrev WireM := EStateM Error Wire

inductive Fetched where
  | char (ch : Char)
  | eof
  | failed
  deriving DecidableEq, Repr

namespace Pmiu

/-- Read again after an interruption. A read of nothing so far does not return. -/
def nextRead : List FdRead → Option FdRead × List FdRead
  | [] => (none, [])
  | .interrupted :: reads => nextRead reads
  | read :: reads => (some read, reads)

/-- The next character, of the buffer or of a new read. -/
def fetch : WireM Fetched := do
  let wire ← get
  match wire.buffered with
  | ch :: buffered =>
    set { wire with buffered := buffered }
    return .char ch
  | [] =>
    let (read, reads) := nextRead wire.reads
    match read with
    | some (.data first rest) =>
      set { wire with
        buffered := rest
        reads := reads }
      return .char first
    | some .failed =>
      set { wire with reads := reads }
      return .failed
    | some _ =>
      set { wire with reads := reads }
      return .eof
    | none => throw (.fault "read")

/-- The loop of `PMIU_readline` with room for so many characters; `none` is its -1. -/
def readlineLoop : ℕ → CString → WireM (Option CString)
  | 0, line => return some line
  | room + 1, line => do
    match ← fetch with
    | .char ch =>
      if ch = '\n' then return some (line ++ [ch]) else readlineLoop room (line ++ [ch])
    | .eof => return some line
    | .failed => return if line = [] then none else some line

/-- `PMIU_readline`: the characters read, at most `maxlen - 1`. -/
def readline (maxlen : ℕ) : WireM (Option CString) := readlineLoop (maxlen - 1) []

/-- `write`, again after an interruption: the code to return, and what was written. -/
def writeLoop (buf : CString) : List FdWrite → ℤ × List CString × List FdWrite
  | [] => (0, [buf], [])
  | .interrupted :: writes => writeLoop buf writes
  | .part n :: writes => (0, [buf.take n], writes)
  | .failed :: writes => (-1, [], writes)

/-- `PMIU_writeline`: a line that is too long or does not end is not sent. -/
def writeline (buf : CString) : WireM ℤ := do
  if maxLine < buf.length then return 0
  else if buf.getLast? ≠ some '\n' then return 0
  else
    let wire ← get
    let (rc, written, writes) := writeLoop buf wire.writes
    set { wire with
      writes := writes
      written := wire.written ++ written }
    return rc

/-- Successive lines. -/
def readlines (maxlen : ℕ) : ℕ → WireM (List (Option CString))
  | 0 => return []
  | count + 1 => do
    let line ← readline maxlen
    let lines ← readlines maxlen count
    return line :: lines

end Pmiu

namespace Wire

/-- The characters that a connection without end or error still gives. -/
inductive Gives : List FdRead → CString → Prop where
  | nil : Gives [] []
  | data {first : Char} {rest text : CString} {reads : List FdRead} (later : Gives reads text) :
      Gives (.data first rest :: reads) (first :: rest ++ text)
  | interrupted {text : CString} {reads : List FdRead} (later : Gives reads text) :
      Gives (.interrupted :: reads) text

/-- The characters to be read, whatever their division into reads. -/
def Carries (wire : Wire) (text : CString) : Prop :=
  ∃ later, Gives wire.reads later ∧ text = wire.buffered ++ later

/-- A line that the buffers of the client have room for. -/
structure Line (line : CString) : Prop where
  ended : ∃ body, line = body ++ ['\n'] ∧ '\n' ∉ body
  short : line.length < Pmiu.maxLine

end Wire

end Lseb
