import Cubicle.ControllerFragments

/-!
# Framed requests to the controller

`dispatch_api_request`: one handler for each method, each of which changes the shared state and
answers with a result or an error. Whether the answer can be put into the client's response
buffer is decided afterwards, and a refused answer is what the event loop does not survive.
-/

namespace Cubicle.Controller
open ByteText Utf8Sequences PartialWrites JsonText JsonEncoding RpcEnvelope

variable (p : Process)

def channelStdin : ℕ := 1
def channelStdout : ℕ := 2
def channelStderr : ℕ := 4
def channelTty : ℕ := 8
def allChannels : ℕ := 15

def SIGTERM : ℤ := 15

inductive Reply
  | success (result : Bytes)
  | failure (code : ErrorCode) (message : Bytes) (retryable : Bool) (systemErrno : Int32)

def Reply.empty : Reply := .success (ascii "\x7b\x7d")

def Reply.processCompleted : Reply := .failure .invalidState (ascii "process completed") false 0

def offsetsText : Bytes :=
  ascii "\"stdout_offset\":" ++ dec p.stdout.bytes.length ++ ascii ",\"stderr_offset\":" ++
    dec p.stderr.bytes.length ++ ascii ",\"tty_offset\":" ++ dec p.stdout.bytes.length ++
    ascii "\x7d"

/-- The result of `controller.status`; it always fits its 512 bytes. -/
def statusText : Bytes :=
  let ids := ascii "\"pid\":" ++ decInt p.pid.toInt ++ ascii ",\"pgid\":" ++ decInt p.pid.toInt
  if p.completed then
    ascii "\x7b\"state\":\"completed\"," ++ ids ++ ascii ",\"result\":" ++ decInt p.result.toInt ++
      ascii "," ++ offsetsText p
  else ascii "\x7b\"state\":\"running\"," ++ ids ++ ascii "," ++ offsetsText p

def controllerStatus (s : Shared) : Shared × Reply := (s, .success (statusText p))

def controllerRead (s : Shared) (params : Members) : Shared × Reply :=
  match getRequiredString params (ascii "stream") 32, getU64 params (ascii "offset"),
      getU64 params (ascii "maximum_length") with
  | some stream, some offset, some maximumLength =>
    match readStreamJson p s stream offset maximumLength with
    | (s, .ok page) => (s, .success page)
    | (s, .error errno) => (s, .failure .invalidArgument (ascii "read failed") false errno)
  | _, _, _ => (s, .failure .invalidArgument (ascii "invalid read request") false 0)

def controllerSnapshot (s : Shared) : Shared × Reply :=
  match s.terminal with
  | none => (s, .failure .invalidState (ascii "terminal snapshot is unavailable") false 0)
  | some terminal =>
    match snapshotJson terminal p.stdout.bytes.length responseMax with
    | none => (s, .failure .resourceLimit (ascii "snapshot failed") false ENOSPC)
    | some snapshot => (s, .success snapshot)

/-- `write_best_effort` to the child's standard input. -/
def writeStdin (s : Shared) (data : Bytes) : Shared × Option Int32 :=
  if s.stdin.isOpen then
    let outcome := writeLoop s.stdin.answers data
    ({ s with stdin := { s.stdin with
        delivered := s.stdin.delivered ++ outcome.accepted, answers := outcome.answers } },
      outcome.error)
  else (s, some EBADF)

/-- The handler writes the C string of the data. -/
def controllerWrite (s : Shared) (params : Members) : Shared × Reply :=
  if p.completed then (s, .processCompleted)
  else match s.stdin.isOpen, getRequiredString params (ascii "data") 4096 with
    | true, some data =>
      match writeStdin s data with
      | (s, some errno) => (s, .failure .io (ascii "write failed") true errno)
      | (s, none) => (s.inputEvent (ascii "api") data, .empty)
    | _, _ => (s, .failure .invalidArgument (ascii "invalid write request") false 0)

def controllerCloseInput (s : Shared) : Shared × Reply :=
  if s.terminal.isSome then
    (s, .failure .invalidState (ascii "input close is unsupported for terminal processes") false 0)
  else if s.stdin.isOpen then
    let s := { s with stdin := { s.stdin with isOpen := false } }
    (s.event (ascii "type=input_closed source=api"), .empty)
  else (s, .empty)

/-- One `TIOCSWINSZ` request. -/
def setWindowSize (s : Shared) (rows columns : ℕ) : Shared × Option Int32 :=
  let (answer, rest) := nextAnswer s.system.ioctls
  let s := { s with system := { s.system with ioctls := rest } }
  match answer with
  | some errno => (s, some errno)
  | none => ({ s with windowSizes := s.windowSizes ++ [(rows, columns)] }, none)

/-- Both terminals of the child get the size; the second only if there is one. -/
def setWindowSizes (s : Shared) (rows columns : ℕ) : Shared × Option Int32 :=
  match setWindowSize s rows columns with
  | (s, some errno) => (s, some errno)
  | (s, none) => if p.stderrResizable then setWindowSize s rows columns else (s, none)

/-- `cubicle_terminal_model_resize`, where there is a terminal model. -/
def resizeTerminalModel (s : Shared) (rows columns : ℕ) : Shared × Option Int32 :=
  match s.terminal with
  | none => (s, none)
  | some terminal =>
    if h : 0 < rows ∧ rows ≤ 1000 ∧ 0 < columns ∧ columns ≤ 1000 then
      let screen := s.system.screens.headD terminal.toScreen
      ({ s with
          terminal := some { screen with rows := rows, cols := columns, size_le := h },
          system := { s.system with screens := s.system.screens.tail } }, none)
    else (s, some EINVAL)

/-- The two event lines that report a resize; the first failure is the result. -/
def reportResize (s : Shared) (event debugEvent : Bytes) : Shared × Option Int32 :=
  match s.tryEvent event with
  | (s, some errno) => (s, some errno)
  | (s, none) => s.tryTerminalDebug debugEvent

def sizeText (rows columns : ℕ) : Bytes :=
  ascii " rows=" ++ dec rows ++ ascii " columns=" ++ dec columns

def sizeUnchanged (s : Shared) (rows columns : ℕ) : Bool :=
  s.size.any fun size => size.known && size.rows == rows && size.columns == columns

def applyResize (s : Shared) (rows columns : ℕ) : Shared × Option Int32 :=
  if sizeUnchanged s rows columns then
    reportResize s
      (ascii "type=terminal_resize_skipped" ++ sizeText rows columns ++ ascii " reason=unchanged")
      (ascii "type=debug category=terminal event=api_resize action=skipped" ++
        sizeText rows columns ++ ascii " reason=unchanged")
  else match setWindowSizes p s rows columns with
    | (s, some errno) => (s, some errno)
    | (s, none) =>
      match resizeTerminalModel s rows columns with
      | (s, some errno) => (s, some errno)
      | (s, none) =>
        let s := { s with size := s.size.map fun _ => ⟨rows, columns, true⟩ }
        reportResize s (ascii "type=terminal_resized" ++ sizeText rows columns)
          (ascii "type=debug category=terminal event=api_resize action=applied" ++
            sizeText rows columns)

/-- A row or column count the request may carry. -/
def validDimension (n : ℕ) : Bool := 0 < n && n ≤ 65535

def controllerResize (s : Shared) (params : Members) : Shared × Reply :=
  if p.completed then (s, .processCompleted)
  else match p.resizable, getU64 params (ascii "rows"), getU64 params (ascii "columns") with
    | true, some rows, some columns =>
      if validDimension rows && validDimension columns then
        match applyResize p s rows columns with
        | (s, some errno) => (s, .failure .io (ascii "resize failed") true errno)
        | (s, none) => (s, .empty)
      else (s, .failure .invalidArgument (ascii "invalid resize request") false 0)
    | _, _, _ => (s, .failure .invalidArgument (ascii "invalid resize request") false 0)

def hasChannel (channels channel : ℕ) : Bool := channels &&& channel != 0

/-- `channels & ~channel`. -/
def withoutChannel (channels channel : ℕ) : ℕ := channels - (channels &&& channel)

/-- The token, channels and mode of an attach request, when they pass the first check. -/
def attachRequest (params : Members) : Option (ℕ × Bytes) := do
  let token ← getRequiredString params (ascii "token") 512
  let channels ← getU64 params (ascii "channels")
  let mode ← getRequiredString params (ascii "mode") 32
  if token.take 6 = ascii "local:" ∧ channels ≠ 0 ∧ channels &&& allChannels = channels ∧
      (mode = ascii "observer" ∨ mode = ascii "interactive") then return (channels, mode)
  else none

/-- Observers get no input, and nobody gets it once it is gone. -/
def acceptedChannels (s : Shared) (channels : ℕ) (mode : Bytes) : ℕ :=
  if mode = ascii "observer" ∨ p.completed = true ∨ s.stdin.isOpen = false then
    withoutChannel channels channelStdin
  else channels

theorem acceptedChannels_le (p : Process) (s : Shared) (channels : ℕ) (mode : Bytes) :
    acceptedChannels p s channels mode ≤ channels := by
  unfold acceptedChannels
  split
  · exact Nat.sub_le _ _
  · exact le_rfl

/-- The events of an attachment, one for each accepted channel. -/
def attachEvents (s : Shared) (channels : ℕ) : Shared :=
  let report (s : Shared) (channel : ℕ) (event : Bytes) :=
    if hasChannel channels channel then s.event event else s
  let s := report s channelStdout (ascii "type=client_attached stream=stdout")
  let s := report s channelStderr (ascii "type=client_attached stream=stderr")
  let s := report s channelStdin (ascii "type=client_attached stream=stdin")
  report s channelTty (ascii "type=client_attached stream=tty")

/-- An attachment that reads and writes makes the terminal attachment active. -/
def activateAttachment (s : Shared) (channels : ℕ) (mode : Bytes) : Shared × Option Int32 :=
  if hasChannel channels channelStdin &&
      (hasChannel channels channelTty || hasChannel channels channelStdout) then
    let s := { s with attachmentActive := true }
    let s := s.event (ascii "type=attachment_active active=true")
    s.tryTerminalDebug
      (ascii "type=debug category=terminal event=attachment_active active=true channels=" ++
        dec channels ++ ascii " mode=" ++ mode)
  else (s, none)

/-- The result of `controller.attach`; it always fits its 512 bytes. -/
def attachText (channels : ℕ) : Bytes :=
  ascii "\x7b\"accepted_channels\":" ++ dec channels ++ ascii "," ++ offsetsText p

def controllerAttach (s : Shared) (params : Members) : Shared × Reply :=
  match attachRequest params with
  | none => (s, .failure .permissionDenied (ascii "invalid attachment token") false 0)
  | some (channels, mode) =>
    let channels := acceptedChannels p s channels mode
    if channels = 0 then
      (s, .failure .permissionDenied (ascii "no attachment channels accepted") false 0)
    else match activateAttachment (attachEvents s channels) channels mode with
      | (s, some errno) => (s, .failure .io (ascii "attachment event failed") true errno)
      | (s, none) => (s, .success (attachText p channels))

def controllerDetach (s : Shared) : Shared × Reply :=
  let s := { s with attachmentActive := false }
  let s := s.event (ascii "type=attachment_active active=false reason=detach")
  let s := (s.tryTerminalDebug
    (ascii "type=debug category=terminal event=attachment_active active=false reason=detach")).1
  (s, .empty)

/-- `kill` on the child's process group. -/
def killGroup (s : Shared) (signal : ℤ) : Shared × Option Int32 :=
  let (answer, rest) := nextAnswer s.system.kills
  let s := { s with system := { s.system with kills := rest } }
  match answer with
  | some errno => (s, some errno)
  | none => ({ s with signals := s.signals ++ [signal] }, none)

def controllerSignal (s : Shared) (params : Members) : Shared × Reply :=
  let invalid : Reply := .failure .invalidArgument (ascii "invalid signal request") false 0
  match p.completed, getU64 params (ascii "signal_number") with
  | false, some number =>
    if number = 0 ∨ maxSignalNumber ≤ number then (s, invalid)
    else match killGroup s number with
      | (s, some errno) => (s, .failure .io (ascii "signal failed") true errno)
      | (s, none) => (s, .empty)
  | _, _ => (s, invalid)

def controllerTerminate (s : Shared) : Shared × Reply :=
  if p.completed then (s, .processCompleted)
  else match killGroup s SIGTERM with
    | (s, some errno) => (s, .failure .io (ascii "terminate failed") true errno)
    | (s, none) => (s, .empty)

/-- A log that cannot be opened has no events. -/
def controllerEventsAfter (s : Shared) (params : Members) : Shared × Reply :=
  match getU64 params (ascii "after_sequence"), getU64 params (ascii "limit") with
  | some after, some limit =>
    if 1024 < limit then
      (s, .failure .invalidArgument (ascii "invalid events request") false 0)
    else
      let (opened, s) := openLog s
      let file := if opened.isNone then s.journal.file else []
      match eventsAfterJson file after limit with
      | none => (s, .failure .resourceLimit (ascii "events response too large") false 0)
      | some events => (s, .success events)
  | _, _ => (s, .failure .invalidArgument (ascii "invalid events request") false 0)

inductive ApiMethod
  | status | read | snapshot | write | closeInput | resize | attach | detach | signal
  | terminate | eventsAfter
deriving DecidableEq, Repr

/-- The comparisons of the dispatcher, in its order. -/
def ApiMethod.ofName (name : Bytes) : Option ApiMethod :=
  if name = ascii "controller.status" then some .status
  else if name = ascii "controller.read" ∨ name = ascii "controller.read_output" then some .read
  else if name = ascii "controller.snapshot" then some .snapshot
  else if name = ascii "controller.write" then some .write
  else if name = ascii "controller.close_input" then some .closeInput
  else if name = ascii "controller.resize" then some .resize
  else if name = ascii "controller.attach" then some .attach
  else if name = ascii "controller.detach" then some .detach
  else if name = ascii "controller.signal" then some .signal
  else if name = ascii "controller.terminate" then some .terminate
  else if name = ascii "controller.events_after" then some .eventsAfter
  else none

def ApiMethod.handle (s : Shared) (params : Members) : ApiMethod → Shared × Reply
  | .status => controllerStatus p s
  | .read => controllerRead p s params
  | .snapshot => controllerSnapshot p s
  | .write => controllerWrite p s params
  | .closeInput => controllerCloseInput s
  | .resize => controllerResize p s params
  | .attach => controllerAttach p s params
  | .detach => controllerDetach s
  | .signal => controllerSignal p s params
  | .terminate => controllerTerminate p s
  | .eventsAfter => controllerEventsAfter s params

def handleMethod (s : Shared) (envelope : RequestEnvelope) : Shared × Reply :=
  match ApiMethod.ofName envelope.method with
  | some method => method.handle p s envelope.params
  | none => (s, .failure .unsupported (ascii "method is not implemented") false 0)

def enqueueReply (c : ControlClient) (requestId : Bytes) : Reply → ControlClient × Bool
  | .success result => enqueueApiSuccess c requestId result
  | .failure code message retryable errno =>
    enqueueApiError c requestId code message retryable errno

/-- `dispatch_api_request`; the flag is false on the error return. -/
def dispatchApiRequest (c : ControlClient) (s : Shared) : ControlClient × Shared × Bool :=
  match decodeRequest c.request with
  | none =>
    let s := s.libraryDebug (ascii "api_response") (ascii "(invalid)") c.request.length (-1)
      c.response.length
    let (c, ok) := enqueueApiError c [] .protocol (ascii "invalid request envelope") false 0
    (c, s, ok)
  | some envelope =>
    let (s, reply) := handleMethod p s envelope
    let (c, ok) := enqueueReply c envelope.requestId reply
    let s := s.libraryDebug (ascii "api_response") envelope.method c.request.length
      (if ok then 0 else -1) c.response.length
    (c, s, ok)

end Cubicle.Controller
