import Cubicle.ControllerInvariants
import Mathlib.Data.List.FinRange

/-!
# The event loop

The steps the event loop can take, in any order: what it does with the child's output, with its
clients and with the passage of time. The bytes sent on each connection are kept beside the
state. A read that returns its error ends the loop.
-/

namespace Cubicle.Controller
open ByteText PartialWrites CStrings JsonEncoding

/-- The controller and the connections of its clients. Clients that read are between requests or
in the middle of one. -/
structure World where
  process : Process
  shared : Shared
  clients : Fin maxControlClients → ControlClient
  sent : Fin maxControlClients → Bytes
  running : Bool
  wf : ∀ i, (clients i).kind = .reading → Reading (clients i)

namespace World

def start (process : Process) (shared : Shared) : World where
  process := process
  shared := shared
  clients := fun _ => .init
  sent := fun _ => []
  running := true
  wf := by simp [ControlClient.init]

def setClient (w : World) (i : Fin maxControlClients) (c : ControlClient) (s : Shared)
    (sent : Bytes) (h : c.kind = .reading → Reading c) : World :=
  { w with
    shared := s
    clients := Function.update w.clients i c
    sent := Function.update w.sent i sent
    wf := by
      intro j hj
      by_cases hji : j = i
      · subst hji
        simpa using h (by simpa using hj)
      · simpa [Function.update_of_ne hji] using w.wf j (by simpa [Function.update_of_ne hji] using hj) }

/-- The loop returns and the process exits with all its connections. -/
def stop (w : World) (s : Shared) : World :=
  { w with
    shared := s
    clients := fun _ => .init
    running := false
    wf := by simp [ControlClient.init] }

def freeSlot (w : World) : Option (Fin maxControlClients) :=
  (List.finRange maxControlClients).find? fun i => (w.clients i).kind = .empty

/-- `accept_control_clients` for one connection; without a free slot it is turned away. -/
def accept (w : World) : World :=
  match w.freeSlot with
  | none => w
  | some i => w.setClient i (.accepted w.shared.system.now) w.shared []
      fun _ => reading_accepted _

/-- Apply an operation to every client in turn. What becomes of a client does not depend on the
events of the others. -/
def mapClients (w : World) (f : ControlClient → Shared → ControlClient × Shared)
    (h : ∀ c s, (c.kind = .reading → Reading c) → (f c s).1.kind = .reading →
      Reading (f c s).1) : World :=
  { w with
    shared := (List.finRange maxControlClients).foldl (fun s i => (f (w.clients i) s).2) w.shared
    clients := fun i => (f (w.clients i) w.shared).1
    wf := fun i => h _ _ (w.wf i) }

variable {c : ControlClient} {s : Shared}

theorem wf_init (h : c = .init) : c.kind = .reading → Reading c := by
  intro hk
  simp [h, ControlClient.init] at hk

/-- `reap_idle_control_clients`. -/
def reapIdle (w : World) : World :=
  w.mapClients
    (fun c s => if c.isIdle w.shared.system.now then closeControlClient c s else (c, s))
    (by
      intro c s hc hk
      split_ifs at hk ⊢
      · exact wf_init rfl hk
      · exact hc hk)

theorem broadcastTo_wf {stream : Stream} {data : Bytes} (hc : c.kind = .reading → Reading c)
    (hk : (broadcastTo c s stream data).1.kind = .reading) :
    Reading (broadcastTo c s stream data).1 := by
  unfold broadcastTo at hk ⊢
  split_ifs at hk ⊢ with hkind
  · exfalso
    have hne : c.kind ≠ .reading := by rw [hkind]; cases stream <;> simp [attachedKind]
    split at hk
    · rename_i c' heq
      have hsame := enqueueResponse_kind c data
      rw [heq] at hsame
      exact hne (hsame.symm.trans hk)
    · simp [closeControlClient, ControlClient.init] at hk
  · exact hc hk

/-- `broadcast_attached_output`. -/
def broadcast (w : World) (stream : Stream) (data : Bytes) : World :=
  w.mapClients (fun c s => broadcastTo c s stream data) fun _ _ => broadcastTo_wf

theorem read_wf {p : Process} (hc : Reading c) (s : Shared) (incoming : List Incoming)
    (hok : (readControlClientRequest p c s incoming).ok = true) :
    (readControlClientRequest p c s incoming).client.kind = .reading →
      Reading (readControlClientRequest p c s incoming).client := by
  have hcase := readControlClientRequest_case (p := p) hc s incoming
  rw [hok] at hcase
  exact hcase.reading

/-- `read_control_client_request` for a client that is polled for input. -/
def read (w : World) (i : Fin maxControlClients) (incoming : List Incoming) : World :=
  if hkind : (w.clients i).kind = .reading then
    let r := readControlClientRequest w.process (w.clients i) w.shared incoming
    if hok : r.ok = true then
      w.setClient i r.client r.shared (w.sent i)
        (read_wf (w.wf i hkind) w.shared incoming hok)
    else w.stop r.shared
  else w

theorem flushed_wf (hne : c.kind ≠ .reading) (hk : (flushed c s).1.kind = .reading) :
    Reading (flushed c s).1 := by
  unfold flushed at hk ⊢
  dsimp only at hk ⊢
  split at hk
  · split_ifs at hk ⊢ with hframed
    · exact ⟨rfl, rfl, rfl, fun _ => .inl ⟨by simp, rfl⟩, fun hf => by simp [hframed.1] at hf⟩
    · exact wf_init rfl hk
  · simp at hk
  · exact absurd hk hne

theorem flush_wf (hc : c.kind = .reading → Reading c) (hp : c.pending ≠ []) (s : Shared)
    (answers : List Answer) (hk : (flushControlClientResponse c s answers).client.kind = .reading) :
    Reading (flushControlClientResponse c s answers).client := by
  have hne : c.kind ≠ .reading := fun h => hp (hc h).pending_eq
  unfold flushControlClientResponse at hk ⊢
  dsimp only at hk ⊢
  split at hk
  · split_ifs at hk ⊢
    · exact absurd hk hne
    · exact wf_init rfl hk
  · exact flushed_wf hne hk

/-- `flush_control_client_response` for a client with something to send. -/
def flush (w : World) (i : Fin maxControlClients) (answers : List Answer) : World :=
  if hp : (w.clients i).pending ≠ [] then
    let r := flushControlClientResponse (w.clients i) w.shared answers
    w.setClient i r.client r.shared (w.sent i ++ r.sent) (flush_wf (w.wf i) hp w.shared answers)
  else w

theorem forwardAttachedStdin_client (c : ControlClient) (s : Shared) (incoming : List Incoming) :
    (forwardAttachedStdin c s incoming).1 = c ∨ (forwardAttachedStdin c s incoming).1 = .init := by
  induction incoming generalizing s with
  | nil => exact .inl rfl
  | cons answer rest ih =>
    cases answer with
    | data b t =>
      simp only [forwardAttachedStdin]
      split
      · exact .inr rfl
      · exact ih _
    | interrupted => exact ih s
    | failed => exact .inr rfl
    | closed => exact .inr rfl

/-- `forward_attached_stdin` for a client attached to standard input. -/
def forward (w : World) (i : Fin maxControlClients) (incoming : List Incoming) : World :=
  if hkind : (w.clients i).kind = .attachedStdin then
    let r := forwardAttachedStdin (w.clients i) w.shared incoming
    w.setClient i r.1 r.2.1 (w.sent i) (by
      rcases forwardAttachedStdin_client (w.clients i) w.shared incoming with h | h
      · intro hk
        rw [show r.1 = w.clients i from h, hkind] at hk
        simp at hk
      · exact wf_init h)
  else w

/-- A connection that hung up is closed once nothing is left to send. -/
def hangup (w : World) (i : Fin maxControlClients) : World :=
  if (w.clients i).pending = [] then
    let r := closeControlClient (w.clients i) w.shared
    w.setClient i r.1 r.2 (w.sent i) (wf_init rfl)
  else w

end World

def Process.setLog (p : Process) (stream : Stream) (log : Log) : Process :=
  match stream with
  | .stdout => { p with stdout := log }
  | .stderr => { p with stderr := log }

def streamName : Stream → Bytes
  | .stdout => ascii "stdout"
  | .stderr => ascii "stderr"

/-- `write_terminal_response_n`: an answer of the terminal goes to the child's input; when the
child does not read, it is dropped. -/
def writeTerminalResponse (s : Shared) (name response : Bytes) : Shared × Option Int32 :=
  let written := writeStdin s response
  if written.2 ≠ none ∧ written.2 ≠ some EAGAIN then written
  else
    let reported := written.1.tryEvent
      (ascii "type=terminal_response query=" ++ name ++ ascii " length=" ++ dec response.length)
    if reported.2 ≠ none then reported
    else reported.1.tryTerminalDebug
      (ascii "type=debug category=terminal event=query query=" ++ name ++
        ascii " action=answered response_length=" ++ dec response.length ++
        ascii " attachment_active=" ++ boolText s.attachmentActive)

/-- The responses in turn, up to the first failure. -/
def writeTerminalResponses (s : Shared) : List (Bytes × Bytes) → Shared × Option Int32
  | [] => (s, none)
  | (name, response) :: rest =>
    match writeTerminalResponse s name response with
    | (s, some errno) => (s, some errno)
    | (s, none) => writeTerminalResponses s rest

/-- What the terminal library makes of some output: the responses it generates, and those to
the queries it does not know. -/
structure TerminalReaction where
  responses : List (Bytes × Bytes)
  queries : List (Bytes × Bytes)

/-- Output on the stream of the terminal, where there is one. -/
def feedTerminal (s : Shared) (stream : Stream) (start length : ℕ) (reaction : TerminalReaction) :
    Shared × Option Int32 :=
  match s.terminal, stream with
  | some terminal, .stdout =>
    let screen := s.system.screens.headD terminal.toScreen
    let s := { s with
      terminal := some { terminal with toScreen := screen }
      system := { s.system with screens := s.system.screens.tail } }
    match writeTerminalResponses s reaction.responses with
    | (s, some errno) => (s, some errno)
    | (s, none) =>
      match s.tryTerminalDebug
          (ascii "type=debug category=terminal event=model_feed stream=stdout start=" ++ dec start ++
            ascii " length=" ++ dec length ++ ascii " offset=" ++ dec (start + length)) with
      | (s, some errno) => (s, some errno)
      | (s, none) => writeTerminalResponses s reaction.queries
  | _, _ => (s, none)

def outputEvent (stream : Stream) (start length : ℕ) : Bytes :=
  ascii "type=output stream=" ++ streamName stream ++ ascii " start=" ++ dec start ++
    ascii " length=" ++ dec length

/-- Output is logged, shown to the terminal and reported. -/
def recordOutput (s : Shared) (stream : Stream) (start length : ℕ) (reaction : TerminalReaction) :
    Shared × Option Int32 :=
  match feedTerminal s stream start length reaction with
  | (s, some errno) => (s, some errno)
  | (s, none) => s.tryEvent (outputEvent stream start length)

namespace World

/-- A read from one of the child's pipes: the log grows before the attached clients get it. -/
def output (w : World) (stream : Stream) (data : Bytes) (reaction : TerminalReaction) : World :=
  let log := (w.process.log stream).bytes
  if hfits : (log ++ data).length < 2 ^ 63 then
    let w := { w with process := w.process.setLog stream ⟨log ++ data, hfits⟩ }
    let recorded := recordOutput w.shared stream log.length data.length reaction
    if recorded.2 = none then ({ w with shared := recorded.1 }).broadcast stream data
    else w.stop recorded.1
  else w.stop w.shared

/-- The child has exited: all clients are closed, and the loop that only answers questions
begins. -/
def complete (w : World) (result : Int32) : World :=
  let closed := w.mapClients closeControlClient fun _ _ _ hk => wf_init rfl hk
  { closed with
    process := { w.process with
      completed := true, result := result, resizable := false, stderrResizable := false }
    shared := { closed.shared with
      stdin := { closed.shared.stdin with isOpen := false }, size := none } }

end World

/-- The steps of the two event loops. -/
inductive Action
  | accept
  | reapIdle
  | read (i : Fin maxControlClients) (incoming : List Incoming)
  | flush (i : Fin maxControlClients) (answers : List Answer)
  | forward (i : Fin maxControlClients) (incoming : List Incoming)
  | hangup (i : Fin maxControlClients)
  | output (stream : Stream) (data : Bytes) (reaction : TerminalReaction)
  | complete (result : Int32)
  /-- Anything that changes only what the handlers share: local input, a resized terminal, time,
  other answers of the system. -/
  | surroundings (shared : Shared)
  /-- An error of the loop's own calls. -/
  | abort

namespace World

def step (w : World) (a : Action) : World :=
  if w.running then
    match a with
    | .accept => w.accept
    | .reapIdle => w.reapIdle
    | .read i incoming => w.read i incoming
    | .flush i answers => w.flush i answers
    | .forward i incoming => w.forward i incoming
    | .hangup i => w.hangup i
    | .output stream data reaction => w.output stream data reaction
    | .complete result => w.complete result
    | .surroundings shared => { w with shared := shared }
    | .abort => w.stop w.shared
  else w

def run (w : World) (actions : List Action) : World := actions.foldl step w

end World
end Cubicle.Controller
