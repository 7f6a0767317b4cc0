import Cubicle.ControllerApi

/-!
# Line requests to the controller

`dispatch_control_request`: the text commands. A handler whose answer does not fit the response
buffer closes the client; unlike for framed requests, nothing ends the event loop.
-/

namespace Cubicle.Controller
open ByteText CStrings

variable (p : Process)

/-- The client, the state, and whether the answer was put into the response buffer. -/
structure Handled where
  client : ControlClient
  shared : Shared
  ok : Bool

def handled (answer : ControlClient × Bool) (s : Shared) : Handled := ⟨answer.1, s, answer.2⟩

def lineError (c : ControlClient) (s : Shared) (message : String) : Handled :=
  handled (enqueueErrorResponse c (ascii message)) s

def respond (c : ControlClient) (s : Shared) (response : Bytes) : Handled :=
  handled (enqueueResponse { c with kind := .responding } response) s

/-- A header and a body; the client is switched to responding only when both fit. -/
def respondBody (c : ControlClient) (s : Shared) (header body : Bytes) : Handled :=
  match enqueueResponse c header with
  | (c, false) => ⟨c, s, false⟩
  | (c, true) =>
    match enqueueResponse c body with
    | (c, false) => ⟨c, s, false⟩
    | (c, true) => ⟨{ c with kind := .responding }, s, true⟩

/-- A header and a body that is read from a file; a failed read loses the answer. -/
def respondFile (c : ControlClient) (s : Shared) (header body : Bytes) : Handled :=
  match readLog s with
  | (some _, s) => ⟨(enqueueResponse c header).1, s, false⟩
  | (none, s) => respondBody c s header body

/-- The answer to `status`; it always fits its 256 bytes. -/
def statusLine : Bytes :=
  let ids := ascii " pid=" ++ decInt p.pid.toInt ++ ascii " pgid=" ++ decInt p.pid.toInt
  let offsets := ascii " stdout_offset=" ++ dec p.stdout.bytes.length ++
    ascii " stderr_offset=" ++ dec p.stderr.bytes.length ++ ascii "\n"
  if p.completed then
    ascii "ok state=completed" ++ ids ++ ascii " result=" ++ decInt p.result.toInt ++ offsets
  else ascii "ok state=running" ++ ids ++ offsets

/-- `write_file_response` for the metadata file. -/
def writeFileResponse (c : ControlClient) (s : Shared) : Handled :=
  match openLog s, p.metadata with
  | (none, s), some file =>
    if 65536 < file.length then lineError c s "read_too_large"
    else respondFile c s (ascii "ok length=" ++ dec file.length ++ ascii "\n") file
  | (_, s), _ => lineError c s "open_failed"

/-- The lines that fit the payload buffer, and their number. -/
def collectEvents (limit : ℕ) : List (ℤ × Bytes) → Bytes → ℕ → Bytes × ℕ
  | [], used, count => (used, count)
  | (_, line) :: rest, used, count =>
    if limit ≤ count ∨ 65536 < used.length + line.length then (used, count)
    else collectEvents limit rest (used ++ line) (count + 1)

def writeEventsAfterResponse (c : ControlClient) (s : Shared) (after limit : ℤ) : Handled :=
  if after < 0 ∨ limit < 0 ∨ 1024 < limit then lineError c s "invalid_event_range"
  else match openLog s with
    | (some _, s) => lineError c s "open_failed"
    | (none, s) =>
      let (payload, count) := collectEvents limit.toNat (eventsAfter s.journal.file after) [] 0
      respondBody c s
        (ascii "ok count=" ++ dec count ++ ascii " length=" ++ dec payload.length ++ ascii "\n")
        payload

def readStreamRange (c : ControlClient) (s : Shared) (stream : Bytes) (start requested : ℤ) :
    Handled :=
  if start < 0 ∨ requested < 0 ∨ 65536 < requested then lineError c s "invalid_range"
  else match streamOf stream with
    | none => lineError c s "unknown_stream"
    | some which =>
      let log := (p.log which).bytes
      if log.length < start.toNat then lineError c s "range_past_end"
      else match openLog s with
        | (some _, s) => lineError c s "open_failed"
        | (none, s) =>
          let body := (log.drop start.toNat).take requested.toNat
          respondFile c s (ascii "ok length=" ++ dec body.length ++ ascii "\n") body

def attachStdin (c : ControlClient) (s : Shared) : Handled :=
  if p.completed then lineError c s "process_completed"
  else if s.stdin.isOpen then
    handled (enqueueResponse { c with kind := .attachingStdin }
      (ascii "ok attached stream=stdin\n")) s
  else lineError c s "stdin_closed"

/-- The sizes of the window are 16-bit numbers, those of the terminal model are not. -/
def resizeLine (c : ControlClient) (s : Shared) (rows columns : ℕ) : Handled :=
  let row16 := rows % 2 ^ 16
  let column16 := columns % 2 ^ 16
  if rows = 0 ∨ columns = 0 then lineError c s "bad_resize"
  else if sizeUnchanged s row16 column16 then respond c s (ascii "ok\n")
  else match setWindowSizes p s row16 column16 with
    | (s, some _) => lineError c s "resize_failed"
    | (s, none) =>
      match resizeTerminalModel s rows columns with
      | (s, some _) => lineError c s "resize_failed"
      | (s, none) =>
        let s := { s with size := s.size.map fun _ => ⟨row16, column16, true⟩ }
        respond c (s.event (ascii "type=terminal_resized" ++ sizeText rows columns)) (ascii "ok\n")

/-- `send_attach_catchup`; the right side is an error that was answered instead. -/
def sendAttachCatchup (c : ControlClient) (s : Shared) (stream : Bytes) (which : Stream)
    (start : ℤ) : Handled ⊕ Handled :=
  let log := (p.log which).bytes
  if start < 0 ∨ (log.length : ℤ) < start then .inr (lineError c s "invalid_attach_start")
  else
    let catchup := log.drop start.toNat
    if 65536 < catchup.length then .inr (lineError c s "read_too_large")
    else
      let header := ascii "ok attached stream=" ++ stream ++ ascii " start=" ++ decInt start ++
        ascii " length=" ++ dec catchup.length ++ ascii "\n"
      match enqueueResponse c header with
      | (c, false) => .inl ⟨c, s, false⟩
      | (c, true) =>
        match openLog s with
        | (some _, s) => .inl ⟨c, s, false⟩
        | (none, s) =>
          match readLog s with
          | (some _, s) => .inl ⟨c, s, false⟩
          | (none, s) => .inl (handled (enqueueResponse c catchup) s)

def attachedKind : Stream → ClientKind
  | .stdout => .attachedStdout
  | .stderr => .attachedStderr

def attachedEvent : Stream → Bytes
  | .stdout => ascii "type=client_attached stream=stdout"
  | .stderr => ascii "type=client_attached stream=stderr"

def attachStream (c : ControlClient) (s : Shared) (stream : Bytes) (start : ℤ) : Handled :=
  match streamOf stream with
  | none => lineError c s "unknown_stream"
  | some which =>
    match sendAttachCatchup p c s stream which start with
    | .inr answer => answer
    | .inl ⟨c, s, false⟩ => ⟨c, s, false⟩
    | .inl ⟨c, s, true⟩ =>
      ⟨{ c with kind := attachedKind which }, s.event (attachedEvent which), true⟩

/-- A signal to the child's process group, reported in the event log when it was delivered. -/
def deliverSignal (c : ControlClient) (s : Shared) (signal : ℤ) : Handled :=
  match killGroup s signal with
  | (s, some _) => lineError c s "signal_failed"
  | (s, none) =>
    respond c (s.event (ascii "type=signal_delivered signal=" ++ decInt signal)) (ascii "ok\n")

inductive LineCommand
  | status
  | metadata
  | eventsAfter (arguments : Option (ℤ × ℤ))
  | read (arguments : Option (Bytes × ℤ × ℤ))
  | attachStdin
  | resize (arguments : Option (ℕ × ℕ))
  | attach (arguments : Option (Bytes × ℤ))
  | terminate
  | signal (number : Option ℤ)
  | unknown
deriving DecidableEq, Repr

def scanTwoLongLongs (s : Bytes) : Option (ℤ × ℤ) := do
  let (a, rest) ← scanLongLong s
  let (b, _) ← scanLongLong rest
  return (a, b)

def scanWordLongLong (s : Bytes) : Option (Bytes × ℤ) := do
  let (word, rest) ← scanWord 15 s
  let (a, _) ← scanLongLong rest
  return (word, a)

def scanWordTwoLongLongs (s : Bytes) : Option (Bytes × ℤ × ℤ) := do
  let (word, rest) ← scanWord 15 s
  let (a, b) ← scanTwoLongLongs rest
  return (word, a, b)

def scanTwoUnsigned (s : Bytes) : Option (ℕ × ℕ) := do
  let (a, rest) ← scanUnsigned s
  let (b, _) ← scanUnsigned rest
  return (a, b)

/-- The comparisons of the dispatcher, in its order: `attach stdin` comes before `attach`. -/
def LineCommand.ofLine (line : Bytes) : LineCommand :=
  if line = ascii "status" then .status
  else if line = ascii "metadata" then .metadata
  else if ascii "events after " <+: line then .eventsAfter (scanTwoLongLongs (line.drop 13))
  else if ascii "read " <+: line then .read (scanWordTwoLongLongs (line.drop 5))
  else if line = ascii "attach stdin" ∨ line = ascii "attach in" then .attachStdin
  else if ascii "resize " <+: line then .resize (scanTwoUnsigned (line.drop 7))
  else if ascii "attach " <+: line then .attach (scanWordLongLong (line.drop 7))
  else if line = ascii "terminate" then .terminate
  else if ascii "signal " <+: line then .signal ((scanInt (line.drop 7)).map Prod.fst)
  else .unknown

def LineCommand.handle (c : ControlClient) (s : Shared) : LineCommand → Handled
  | .status => respond c s (statusLine p)
  | .metadata => writeFileResponse p c s
  | .eventsAfter (some (after, limit)) => writeEventsAfterResponse c s after limit
  | .eventsAfter none => lineError c s "bad_events_command"
  | .read (some (stream, start, length)) => readStreamRange p c s stream start length
  | .read none => lineError c s "bad_read_command"
  | .attachStdin => Controller.attachStdin p c s
  | .resize arguments =>
    if p.completed then lineError c s "process_completed"
    else if p.resizable then
      match arguments with
      | some (rows, columns) => resizeLine p c s rows columns
      | none => lineError c s "bad_resize"
    else lineError c s "resize_unsupported"
  | .attach arguments =>
    if p.completed then lineError c s "process_completed"
    else match arguments with
      | some (stream, start) => attachStream p c s stream start
      | none => lineError c s "bad_attach_command"
  | .terminate =>
    if p.completed then lineError c s "process_completed" else deliverSignal c s SIGTERM
  | .signal number =>
    if p.completed then lineError c s "process_completed"
    else match number with
      | some n =>
        if n ≤ 0 ∨ (maxSignalNumber : ℤ) ≤ n then lineError c s "bad_signal"
        else deliverSignal c s n
      | none => lineError c s "bad_signal"
  | .unknown => lineError c s "unknown_command"

/-- `control_request_name`: the first word, of at most 31 bytes. -/
def controlRequestName (line : Bytes) : Bytes :=
  let name := (line.takeWhile (· ≠ 0x20)).take 31
  if name = [] then ascii "(empty)" else name

/-- `dispatch_control_request`: a request whose answer was lost closes the client. -/
def dispatchControlRequest (c : ControlClient) (s : Shared) : ControlClient × Shared :=
  let line := cstr c.request
  let answer := (LineCommand.ofLine line).handle p c s
  let s := answer.shared.libraryDebug (ascii "control_response") (controlRequestName line)
    answer.client.request.length (if answer.ok then 0 else -1) answer.client.response.length
  if answer.ok then (answer.client, s) else closeControlClient answer.client s

/-- The request of a line: a trailing carriage return is not part of it. -/
def lineRequest (c : ControlClient) : Bytes :=
  if c.request.getLast? = some 0x0d then c.request.dropLast else c.request

def finishControlRequest (c : ControlClient) (s : Shared) : ControlClient × Shared :=
  dispatchControlRequest p { c with request := lineRequest c } s

end Cubicle.Controller
