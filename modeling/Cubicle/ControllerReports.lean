import Cubicle.ControllerState
import Cubicle.OutputPages

/-!
# What the controller reports

The JSON results of `controller.read`, `controller.snapshot` and `controller.events_after`.
-/

namespace Cubicle.Controller
open ByteText CStrings JsonEncoding RpcEnvelope OutputPages

inductive Stream
  | stdout | stderr
deriving DecidableEq, Repr

/-- `stream_file_name`: the log a stream name stands for. -/
def streamOf (name : Bytes) : Option Stream :=
  if name = ascii "stdout" ∨ name = ascii "out" then some .stdout
  else if name = ascii "tty" then some .stdout
  else if name = ascii "stderr" ∨ name = ascii "err" then some .stderr
  else none

def Process.log (p : Process) : Stream → Log
  | .stdout => p.stdout
  | .stderr => p.stderr

def readStreamJson (p : Process) (s : Shared) (stream : Bytes) (offset maximumLength : ℕ) :
    Shared × Except Int32 Bytes :=
  if 8192 < maximumLength then (s, .error EMSGSIZE)
  else match streamOf stream with
    | none => (s, .error EINVAL)
    | some which =>
      let log := (p.log which).bytes
      if log.length < offset then (s, .error EINVAL)
      else match openLog s with
        | (some errno, s) => (s, .error errno)
        | (none, s) =>
          match readLog s with
          | (some errno, s) => (s, .error errno)
          | (none, s) => (s, .ok (pageJson offset (pageOf log offset maximumLength) log.length))

/-- `append_json_text`: the escaped text has to fit a buffer of its own. -/
def appendJsonText (size : ℕ) (used text : Bytes) : Option Bytes := do
  let escaped ← jsonEscape 512 text
  appendRaw size used (0x22 :: escaped ++ [0x22])

def appendSnapshotJsonCell (size : ℕ) (used : Bytes) (cell : Cell) : Option Bytes := do
  let used ← appendRaw size used (ascii "\x7b\"t\":")
  let used ← appendJsonText size used cell.text
  let used ← appendRaw size used (ascii ",\"sgr\":")
  let used ← appendJsonText size used cell.sgr
  appendRaw size used (ascii "\x7d")

/-- The cells after the first, each with a comma before it. -/
def appendCells (size : ℕ) (used : Bytes) : List Cell → Option Bytes
  | [] => some used
  | cell :: cells => do
    let used ← appendRaw size used (ascii ",")
    let used ← appendSnapshotJsonCell size used cell
    appendCells size used cells

/-- The cells of the screen in row order; nothing when one of them cannot be described. -/
def Terminal.snapshotCells (t : Terminal) : Option (List Cell) :=
  (List.range (t.rows * t.cols)).mapM fun i => t.cell (i / t.cols) (i % t.cols)

def snapshotHeader (t : Terminal) (offset : ℕ) : Bytes :=
  ascii "\x7b\"rows\":" ++ dec t.rows ++ ascii ",\"columns\":" ++ dec t.cols ++
    ascii ",\"cursor_row\":" ++ dec t.cursorRow ++ ascii ",\"cursor_column\":" ++
    dec t.cursorCol ++ ascii ",\"cursor_visible\":" ++ boolText t.cursorVisible ++
    ascii ",\"application_cursor\":" ++ boolText t.applicationCursor ++ ascii ",\"offset\":" ++
    dec offset ++ ascii ",\"cells\":["

def snapshotJson (t : Terminal) (offset size : ℕ) : Option Bytes := do
  let cells ← t.snapshotCells
  let used ← appendRaw size [] (snapshotHeader t offset)
  let used ← match cells with
    | [] => some used
    | cell :: cells => do
      let used ← appendSnapshotJsonCell size used cell
      appendCells size used cells
  appendRaw size used (ascii "]\x7d")

/-- The lines of the event log with a sequence number above `after`, with their numbers. -/
def eventsAfter (file : Bytes) (after : ℤ) : List (ℤ × Bytes) :=
  (fgetsLines 1024 file).filterMap fun line =>
    if ascii "seq=" <+: line then
      match scanLongLong (line.drop 4) with
      | some (sequence, _) => if sequence ≤ after then none else some (sequence, line)
      | none => none
    else none

def eventJson (sequence : ℤ) (escaped : Bytes) : Bytes :=
  ascii "\x7b\"sequence\":" ++ decInt sequence ++ ascii ",\"payload\":\"" ++ escaped ++ ascii "\"\x7d"

/-- The loop that prints the selected lines into a buffer: at most `limit` of them, and not
those whose escaped form is too long. -/
def printEvents (size limit : ℕ) : List (ℤ × Bytes) → Bytes → ℕ → Option (Bytes × ℕ)
  | [], used, count => some (used, count)
  | (sequence, line) :: rest, used, count =>
    if limit ≤ count then some (used, count)
    else match jsonEscape 2048 (cutNewline line) with
      | none => printEvents size limit rest used count
      | some escaped => do
        let comma := if count = 0 then [] else ascii ","
        let used ← appendRaw size used (comma ++ eventJson sequence escaped)
        printEvents size limit rest used (count + 1)

/-- The signed value of a number passed through a cast to `long long`. -/
def asLongLong (n : ℕ) : ℤ := Int.bmod n (2 ^ 64)

/-- The result of `controller.events_after`; nothing when it does not fit its buffer. -/
def eventsAfterJson (file : Bytes) (after limit : ℕ) : Option Bytes := do
  let (used, count) ← printEvents 8192 limit (eventsAfter file (asLongLong after))
    (ascii "\x7b\"events\":[") 0
  appendRaw 8192 used (ascii "],\"count\":" ++ dec count ++ ascii "\x7d")

end Cubicle.Controller
