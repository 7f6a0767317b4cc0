import Cubicle.ControllerLines

/-!
# Reading requests and flushing responses

The state machine of one control client: bytes are collected until a line or a frame is
complete, the request is dispatched, its response is flushed, and a framed client goes back to
reading. A client attached to standard input has its bytes forwarded instead.
-/

namespace Cubicle.Controller
open ByteText PartialWrites RpcEnvelope

variable (p : Process)

/-- What a `read` on a client's socket returns. -/
inductive Incoming
  | data (b : UInt8) (t : Bytes)
  | interrupted
  | failed
  | closed

/-- One byte of a request either leaves the client reading or ends the call. -/
inductive Progress
  | more (c : ControlClient)
  | stop (c : ControlClient) (s : Shared) (ok : Bool)

/-- A request that cannot be accepted is answered; an answer that does not fit closes the
client. -/
def reject (answer : ControlClient × Bool) (s : Shared) : Progress :=
  if answer.2 then .stop answer.1 s true
  else
    let closed := closeControlClient answer.1 s
    .stop closed.1 closed.2 true

def rejectFrame (c : ControlClient) (s : Shared) (message : String) : Progress :=
  reject (enqueueApiError c [] .resourceLimit (ascii message) false 0) s

def rejectLine (c : ControlClient) (s : Shared) (message : String) : Progress :=
  reject (enqueueErrorResponse c (ascii message)) s

/-- The value of bytes in network order. -/
def bigEndianValue (bytes : Bytes) : ℕ := bytes.foldl (fun v b => v * 256 + b.toNat) 0

/-- `finish_api_request`: the frame's payload becomes the request. -/
def finishApiRequest (c : ControlClient) (s : Shared) : Progress :=
  let (c, s, ok) := dispatchApiRequest p
    { c with request := (c.request.drop 4).take c.framedLength } s
  .stop c s ok

def readFramedByte (c : ControlClient) (s : Shared) (b : UInt8) : Progress :=
  if requestMax ≤ c.request.length + 1 then rejectFrame c s "request too large"
  else
    let request := c.request ++ [b]
    let length := if request.length = 4 then bigEndianValue request else c.framedLength
    let c := { c with request := request, framedLength := length }
    if request.length = 4 ∧ (length = 0 ∨ requestMax - 4 ≤ length) then
      rejectFrame c s "invalid frame length"
    else if 0 < length ∧ request.length = 4 + length then finishApiRequest p c s
    else .more c

def readLineByte (c : ControlClient) (s : Shared) (b : UInt8) : Progress :=
  if b = 0x0a then
    let (c, s) := finishControlRequest p c s
    .stop c s true
  else if b = 0 then rejectLine c s "bad_request"
  else if lineRequestMax ≤ c.request.length + 1 then rejectLine c s "request_too_long"
  else .more { c with request := c.request ++ [b] }

/-- A NUL as the first byte makes the client a framed one for good. -/
def readByte (c : ControlClient) (s : Shared) (b : UInt8) : Progress :=
  if c.framedRequest ∨ (c.request = [] ∧ b = 0) then
    readFramedByte p { c with framedRequest := true } s b
  else readLineByte p c s b

/-- The loop over the bytes of one `read`; it returns in the middle when a request ends. -/
def readBytes (c : ControlClient) (s : Shared) : Bytes → Progress
  | [] => .more c
  | b :: t =>
    match readByte p c s b with
    | .more c => readBytes c s t
    | .stop c s ok => .stop c s ok

/-- The end of the stream completes a line and drops an unfinished frame. -/
def readEnd (c : ControlClient) (s : Shared) : ControlClient × Shared :=
  if c.framedRequest ∨ c.request = [] then closeControlClient c s else finishControlRequest p c s

structure ReadOutcome where
  client : ControlClient
  shared : Shared
  ok : Bool
  rest : List Incoming

/-- `read_control_client_request`; once the answers are used up, `read` would block. -/
def readControlClientRequest (c : ControlClient) (s : Shared) : List Incoming → ReadOutcome
  | [] => ⟨c, s, true, []⟩
  | .interrupted :: rest => readControlClientRequest c s rest
  | .failed :: rest =>
    let (c, s) := closeControlClient c s
    ⟨c, s, true, rest⟩
  | .closed :: rest =>
    let (c, s) := readEnd p c s
    ⟨c, s, true, rest⟩
  | .data b t :: rest =>
    match readBytes p { c with lastActivityMs := s.system.now } s (b :: t) with
    | .more c => readControlClientRequest c s rest
    | .stop c s ok => ⟨c, s, ok, rest⟩

/-- The part of the response that is not yet sent. -/
def ControlClient.pending (c : ControlClient) : Bytes := c.response.drop c.responseOffset

structure FlushOutcome where
  client : ControlClient
  shared : Shared
  sent : Bytes

/-- What becomes of a client whose response is sent. -/
def flushed (c : ControlClient) (s : Shared) : ControlClient × Shared :=
  let c := { c with response := [], responseOffset := 0 }
  match c.kind with
  | .responding =>
    if c.framedRequest ∧ c.closeAfterResponse = false then
      ({ c with kind := .reading, request := [], framedLength := 0,
                lastActivityMs := s.system.now }, s)
    else closeControlClient c s
  | .attachingStdin =>
    ({ c with kind := .attachedStdin }, s.event (ascii "type=client_attached stream=stdin"))
  | _ => (c, s)

/-- `flush_control_client_response`, given the answers of the socket. -/
def flushControlClientResponse (c : ControlClient) (s : Shared) (answers : List Answer) :
    FlushOutcome :=
  let outcome := writeLoop answers c.pending
  let sentSoFar := { c with responseOffset := c.responseOffset + outcome.accepted.length }
  match outcome.error with
  | some errno =>
    if errno = EAGAIN then ⟨sentSoFar, s, outcome.accepted⟩
    else
      let (c, s) := closeControlClient sentSoFar s
      ⟨c, s, outcome.accepted⟩
  | none =>
    let (c, s) := flushed sentSoFar s
    ⟨c, s, outcome.accepted⟩

def forwardAttachedStdin (c : ControlClient) (s : Shared) :
    List Incoming → ControlClient × Shared × List Incoming
  | [] => (c, s, [])
  | .interrupted :: rest => forwardAttachedStdin c s rest
  | .failed :: rest | .closed :: rest =>
    let (c, s) := closeControlClient c s
    (c, s, rest)
  | .data b t :: rest =>
    match writeStdin s (b :: t) with
    | (s, some _) =>
      let (c, s) := closeControlClient c s
      (c, s, rest)
    | (s, none) => forwardAttachedStdin c (s.inputEvent (ascii "socket") (b :: t)) rest

def ControlClient.accepted (now : ℕ) : ControlClient :=
  { ControlClient.init with kind := .reading, lastActivityMs := now }

def ClientKind.isAttached : ClientKind → Bool
  | .attachedStdout | .attachedStderr | .attachedStdin => true
  | _ => false

/-- The clients that `reap_idle_control_clients` closes. -/
def ControlClient.isIdle (c : ControlClient) (now : ℕ) : Bool :=
  now ≠ 0 ∧ c.kind ≠ .empty ∧ c.kind.isAttached = false ∧ c.lastActivityMs ≠ 0 ∧
    idleTimeoutMs < now - c.lastActivityMs

/-- `broadcast_attached_output` for one client. -/
def broadcastTo (c : ControlClient) (s : Shared) (stream : Stream) (data : Bytes) :
    ControlClient × Shared :=
  if c.kind = attachedKind stream then
    match enqueueResponse c data with
    | (c, true) => (c, s)
    | (c, false) => closeControlClient c s
  else (c, s)

end Cubicle.Controller
