import Cubicle.CStrings
import Cubicle.PartialWrites
import Cubicle.RpcEnvelope

/-!
# State of the controller

The controller owns one child process. It keeps the child's output in two logs, its own
events in a third, and serves up to 32 control clients over a socket. Everything outside the
program (what system calls answer, what the terminal library puts on the screen) is part of
the state as the list of answers still to come; an exhausted list answers with success.
-/

namespace Cubicle.Controller
open ByteText CStrings PartialWrites JsonEncoding RpcEnvelope

abbrev maxControlClients : ℕ := 32
def lineRequestMax : ℕ := 256
def requestMax : ℕ := 8192
def responseMax : ℕ := 4 * 1024 * 1024
def maxSignalNumber : ℕ := 128
def idleTimeoutMs : ℕ := 120000

def EIO : Int32 := 5
def EBADF : Int32 := 9
def EAGAIN : Int32 := 11
def EINVAL : Int32 := 22
def ENOSPC : Int32 := 28
def ENAMETOOLONG : Int32 := 36
def EMSGSIZE : Int32 := 90

inductive ClientKind
  | empty | reading | responding | attachedStdout | attachedStderr | attachingStdin
  | attachedStdin
deriving DecidableEq, Repr

/-- A slot of the client table. The descriptor is open unless the slot is empty; `request` and
`response` are the used parts of the two buffers. -/
structure ControlClient where
  kind : ClientKind
  request : Bytes
  framedRequest : Bool
  framedLength : ℕ
  response : Bytes
  responseOffset : ℕ
  closeAfterResponse : Bool
  lastActivityMs : ℕ

def ControlClient.init : ControlClient :=
  ⟨.empty, [], false, 0, [], 0, false, 0⟩

structure DebugFlags where
  input : Bool
  library : Bool
  terminal : Bool

/-- `events.log`, the sequence number of the next event, and the answers to come to writes. -/
structure Journal where
  nextSequence : ℕ
  file : Bytes
  debug : DebugFlags
  answers : List Answer

/-- An output log; file offsets are signed 64-bit numbers. -/
structure Log where
  bytes : Bytes
  fits : bytes.length < 2 ^ 63

/-- The child's standard input: whether the controller still holds it open, what was written
to it, and the answers to come. -/
structure StdinPipe where
  isOpen : Bool
  delivered : Bytes
  answers : List Answer

/-- A screen cell as the snapshot has it. -/
structure Cell where
  text : Bytes
  sgr : Bytes

/-- What the terminal library shows. A cell without a value is one whose attributes do not
fit. -/
structure Screen where
  cursorRow : ℕ
  cursorCol : ℕ
  cursorVisible : Bool
  applicationCursor : Bool
  cell : ℕ → ℕ → Option Cell
  cursor_lt : cursorRow < 2 ^ 32 ∧ cursorCol < 2 ^ 32

structure Terminal extends Screen where
  rows : ℕ
  cols : ℕ
  size_le : 0 < rows ∧ rows ≤ 1000 ∧ 0 < cols ∧ cols ≤ 1000

structure TerminalSize where
  rows : ℕ
  columns : ℕ
  known : Bool
deriving DecidableEq

/-- Answers to come from the rest of the system: `none` is success, otherwise the `errno`; a
screen is what the terminal shows after the next resize. -/
structure System where
  opens : List (Option Int32)
  reads : List (Option Int32)
  ioctls : List (Option Int32)
  kills : List (Option Int32)
  screens : List Screen
  now : ℕ

/-- What the handlers see of the child and its logs, and never change. -/
structure Process where
  stdout : Log
  stderr : Log
  pid : Int32
  completed : Bool
  result : Int32
  resizable : Bool
  stderrResizable : Bool
  metadata : Option Bytes

/-- What the handlers may change: the rest of `controller_state_t`, the child's input, the
terminal, and what was done to the child. -/
structure Shared where
  journal : Journal
  stdin : StdinPipe
  attachmentActive : Bool
  windowSizes : List (ℕ × ℕ)
  size : Option TerminalSize
  terminal : Option Terminal
  signals : List ℤ
  system : System

/-- A process that was just started on pipes. -/
def Process.started (pid : Int32) : Process where
  stdout := ⟨[], by decide⟩
  stderr := ⟨[], by decide⟩
  pid := pid
  completed := false
  result := 0
  resizable := false
  stderrResizable := false
  metadata := none

/-- The state in which the event loop begins when nothing is debugged. -/
def Shared.started : Shared where
  journal := ⟨1, [], ⟨false, false, false⟩, []⟩
  stdin := ⟨true, [], []⟩
  attachmentActive := false
  windowSizes := []
  size := none
  terminal := none
  signals := []
  system := ⟨[], [], [], [], [], 0⟩

/-- The next answer of a list, and the answers after it. -/
def nextAnswer : List (Option Int32) → Option Int32 × List (Option Int32)
  | [] => (none, [])
  | a :: rest => (a, rest)

/-- `open` or `fopen` of a log for reading. -/
def openLog (s : Shared) : Option Int32 × Shared :=
  let (a, rest) := nextAnswer s.system.opens
  (a, { s with system := { s.system with opens := rest } })

/-- Positioning in an opened log and reading a range of it to its end. -/
def readLog (s : Shared) : Option Int32 × Shared :=
  let (a, rest) := nextAnswer s.system.reads
  (a, { s with system := { s.system with reads := rest } })

/-- One `write` of an event line: interruptions are retried, a short write is an error. -/
def writeEventLine : List Answer → Bytes → Bytes × Option Int32 × List Answer
  | [], line => (line, none, [])
  | .wrote n :: rest, line => (line.take (n + 1), if line.length ≤ n + 1 then none else some EIO, rest)
  | .interrupted :: rest, line => writeEventLine rest line
  | .refused errno :: rest, _ => ([], some errno, rest)

/-- `append_event`: the sequence number is used up even when the line cannot be written. -/
def appendEvent (j : Journal) (event : Bytes) : Journal × Option Int32 :=
  let line := ascii "seq=" ++ dec j.nextSequence ++ ascii " " ++ event ++ ascii "\n"
  let j := { j with nextSequence := j.nextSequence + 1 }
  if 1024 ≤ line.length then (j, some ENAMETOOLONG)
  else
    let (written, error, answers) := writeEventLine j.answers line
    ({ j with file := j.file ++ written, answers := answers }, error)

def appendDebugEvent (j : Journal) (enabled : Bool) (event : Bytes) : Journal × Option Int32 :=
  if enabled then appendEvent j event else (j, none)

/-- An event whose failure the caller ignores. -/
def Shared.event (s : Shared) (event : Bytes) : Shared :=
  { s with journal := (appendEvent s.journal event).1 }

def Shared.tryEvent (s : Shared) (event : Bytes) : Shared × Option Int32 :=
  let (j, error) := appendEvent s.journal event
  ({ s with journal := j }, error)

def Shared.tryTerminalDebug (s : Shared) (event : Bytes) : Shared × Option Int32 :=
  let (j, error) := appendDebugEvent s.journal s.journal.debug.terminal event
  ({ s with journal := j }, error)

/-- `append_controller_library_debug`; an event text that does not fit 256 bytes is dropped. -/
def Shared.libraryDebug (s : Shared) (eventName method : Bytes) (requestBytes : ℕ) (result : ℤ)
    (responseBytes : ℕ) : Shared :=
  let name := if method = [] then ascii "(unknown)" else method
  let event := ascii "type=debug category=library event=" ++ eventName ++ ascii " method=" ++
    name ++ ascii " request_bytes=" ++ dec requestBytes ++ ascii " result=" ++ decInt result ++
    ascii " response_bytes=" ++ dec responseBytes
  if 256 ≤ event.length then s
  else { s with journal := (appendDebugEvent s.journal s.journal.debug.library event).1 }

def printableEscape (b : UInt8) : Option UInt8 :=
  if b.toNat = 0x0a then some 0x6e
  else if b.toNat = 0x0d then some 0x72
  else if b.toNat = 0x09 then some 0x74
  else if b.toNat = 0x08 then some 0x62
  else if b.toNat = 0x1b then some 0x65
  else none

def hexByte (b : UInt8) : Bytes := [hexDigit (b.toNat / 16), hexDigit (b.toNat % 16)]

def inputEscape (b : UInt8) : Bytes :=
  match printableEscape b with
  | some e => [0x5c, e]
  | none =>
    if 0x20 ≤ b.toNat ∧ b.toNat ≤ 0x7e ∧ b.toNat ≠ 0x5c then [b]
    else 0x5c :: 0x78 :: hexByte b

/-- `append_input_event`: at most 64 bytes of input are shown, so the buffers always hold
them. -/
def Shared.inputEvent (s : Shared) (source data : Bytes) : Shared :=
  if s.journal.debug.input then
    let shown := data.take 64
    let event := ascii "type=input length=" ++ dec data.length ++ ascii " source=" ++ source ++
      ascii " data_hex=" ++ shown.flatMap hexByte ++ ascii " data_escaped=" ++
      shown.flatMap inputEscape ++
      (if 64 < data.length then ascii " truncated=true" else [])
    if 1024 ≤ event.length then s else s.event event
  else s.event (ascii "type=input length=" ++ dec data.length)

/-- The flag is false when the buffer would pass its limit. -/
def enqueueResponse (c : ControlClient) (data : Bytes) : ControlClient × Bool :=
  if responseMax < data.length ∨ responseMax - data.length < c.response.length then (c, false)
  else ({ c with response := c.response ++ data }, true)

def enqueueErrorResponse (c : ControlClient) (message : Bytes) : ControlClient × Bool :=
  let response := ascii "error " ++ message ++ ascii "\n"
  if 256 ≤ response.length then (c, false)
  else enqueueResponse { c with kind := .responding, closeAfterResponse := true } response

def bigEndian32 (n : ℕ) : Bytes :=
  [UInt8.ofNat (n / 2 ^ 24), UInt8.ofNat (n / 2 ^ 16), UInt8.ofNat (n / 2 ^ 8), UInt8.ofNat n]

def enqueueApiFrame (c : ControlClient) (json : Bytes) : ControlClient × Bool :=
  if 2 ^ 32 ≤ json.length ∨ responseMax - 4 < json.length then (c, false)
  else
    let c := { c with kind := .responding, closeAfterResponse := false }
    let (c, ok) := enqueueResponse c (bigEndian32 json.length)
    if ok then enqueueResponse c json else (c, false)

def enqueueApiError (c : ControlClient) (requestId : Bytes) (code : ErrorCode)
    (message : Bytes) (retryable : Bool) (systemErrno : Int32) : ControlClient × Bool :=
  match rpcError 2048 requestId code message retryable systemErrno with
  | none => (c, false)
  | some response => enqueueApiFrame c response

def enqueueApiSuccess (c : ControlClient) (requestId result : Bytes) : ControlClient × Bool :=
  match rpcSuccess ((cstr requestId).length + (cstr result).length + 128) requestId result with
  | none => (c, false)
  | some response => enqueueApiFrame c response

/-- `close_control_client`: an attached client's end is an event. -/
def closeControlClient (c : ControlClient) (s : Shared) : ControlClient × Shared :=
  let s := match c.kind with
    | .attachedStdout => s.event (ascii "type=client_detached stream=stdout")
    | .attachedStderr => s.event (ascii "type=client_detached stream=stderr")
    | .attachedStdin => s.event (ascii "type=client_detached stream=stdin")
    | _ => s
  (.init, s)

end Cubicle.Controller
