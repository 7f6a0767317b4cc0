import Cubicle.ControllerLoop

/-!
# One connection and its reads

The bytes of a connection reach the controller in reads of any size. A read is taken only when the
client is polled for input, so all that was to be sent to it has been sent before. What a
connection can observe is which requests were dispatched, what was sent back, and what reached the
child's standard input. It depends on how the bytes were split only through reads that go on after
the end of a request: the rest of such a read is lost.
-/

namespace Cubicle.Controller
open ByteText PartialWrites CStrings List

variable {p : Process}

/-- The bytes of a request so far complete it or get it rejected with their last byte. -/
def Ended (framed : Bool) (bytes : Bytes) : Prop :=
  if framed = true ∨ bytes.head? = some 0 then
    bytes.length = 4 ∧ (frameLength bytes = 0 ∨ requestMax - 4 ≤ frameLength bytes) ∨
      4 ≤ bytes.length ∧ 0 < frameLength bytes ∧ bytes.length = 4 + frameLength bytes
  else bytes.getLast? = some 0x0a ∨ bytes.getLast? = some 0 ∨ lineRequestMax ≤ bytes.length

instance (framed : Bool) (bytes : Bytes) : Decidable (Ended framed bytes) :=
  inferInstanceAs (Decidable (ite _ _ _))

variable {c : ControlClient} {b : UInt8}

theorem head_zero_iff (h : Reading c) (b : UInt8) :
    (c.framedRequest = true ∨ (c.request ++ [b]).head? = some 0) ↔
      (c.framedRequest = true ∨ (c.request = [] ∧ b = 0)) := by
  cases hf : c.framedRequest with
  | true => simp
  | false =>
    obtain ⟨-, -, hzero, -⟩ := h.line hf
    cases hr : c.request with
    | nil => simp
    | cons x t =>
      have hx : x ≠ 0 := fun hx => hzero (by simp [hr, hx])
      simp [hx]

theorem readByte_more (h : Reading c) (s : Shared)
    (hopen : ¬ Ended c.framedRequest (c.request ++ [b])) :
    ∃ c', readByte p c s b = .more c' ∧ Extends c c' b ∧
      (c'.framedRequest = true ↔ c.framedRequest = true ∨ (c.request = [] ∧ b = 0)) ∧
      c'.lastActivityMs = c.lastActivityMs := by
  have hcase := readByte_case (p := p) h s b
  unfold readByte at hcase ⊢
  by_cases hf : c.framedRequest = true ∨ (c.request = [] ∧ b = 0)
  · rw [Ended, if_pos ((head_zero_iff h b).mpr hf)] at hopen
    rw [if_pos hf] at hcase ⊢
    have hf' : c.framedRequest = true ∨ c.request = [] := hf.imp_right And.left
    have hlen := withByte_length (b := b) h hf'
    have hreq : (withByte c b).request = c.request ++ [b] := rfl
    rw [not_or] at hopen
    have hvalid : ¬ ((withByte c b).request.length = 4 ∧
        ((withByte c b).framedLength = 0 ∨ requestMax - 4 ≤ (withByte c b).framedLength)) := by
      rintro ⟨h4, hbad⟩
      rw [hlen, if_pos h4.ge] at hbad
      exact hopen.1 ⟨h4, hbad⟩
    have hmissing : ¬ (0 < (withByte c b).framedLength ∧
        (withByte c b).request.length = 4 + (withByte c b).framedLength) := by
      rintro ⟨hpos, hdone⟩
      have h4 : 4 ≤ (withByte c b).request.length := by omega
      rw [hlen, if_pos h4] at hpos hdone
      exact hopen.2 ⟨h4, hpos, hdone⟩
    rw [readFramedByte_eq h s b hf', if_neg hvalid, if_neg hmissing] at hcase ⊢
    cases hcase with
    | more grown => exact ⟨_, rfl, grown, iff_of_true rfl hf, rfl⟩
  · rw [Ended, if_neg fun hhead => hf ((head_zero_iff h b).mp hhead)] at hopen
    rw [if_neg hf] at hcase ⊢
    simp only [getLast?_append, getLast?_singleton, Option.some_or, Option.some.injEq,
      not_or, length_append, length_singleton] at hopen
    unfold readLineByte at hcase ⊢
    rw [if_neg hopen.1, if_neg hopen.2.1, if_neg hopen.2.2] at hcase ⊢
    cases hcase with
    | more grown => exact ⟨_, rfl, grown, iff_of_false (fun h => hf (.inl h)) hf, rfl⟩

inductive Request
  | line (text : Bytes)
  | frame (payload : Bytes)
deriving DecidableEq

def requestAt (c : ControlClient) (b : UInt8) : Option Request :=
  if c.framedRequest = true ∨ (c.request = [] ∧ b = 0) then (frameOf (c.request ++ [b])).map .frame
  else if b = 0x0a then some (.line c.request)
  else none

/-- The requests dispatched for the bytes of one read. -/
def requestsIn (p : Process) (c : ControlClient) (s : Shared) : Bytes → List Request
  | [] => []
  | b :: t =>
    match readByte p c s b with
    | .more c => requestsIn p c s t
    | .stop _ _ _ => (requestAt c b).toList

namespace World

/-- Everything that is to be sent to client `i` is sent. -/
def settle (w : World) (i : Fin maxControlClients) : World := w.step (.flush i [])

/-- The requests that a read from client `i` dispatches. -/
def requests (w : World) (i : Fin maxControlClients) : Incoming → List Request
  | .data b t => requestsIn w.process { w.clients i with lastActivityMs := w.shared.system.now }
      w.shared (b :: t)
  | .closed =>
    if (w.clients i).framedRequest = true ∨ (w.clients i).request = [] then []
    else [.line (w.clients i).request]
  | .interrupted | .failed => []

variable {w : World}

theorem settle_of_pending {i : Fin maxControlClients} (h : (w.clients i).pending = []) :
    w.settle i = w := by
  unfold settle step flush
  simp [h]

theorem settle_of_stopped (i : Fin maxControlClients) (h : w.running = false) : w.settle i = w := by
  unfold settle step
  simp [h]

theorem flushed_pending (c : ControlClient) (s : Shared) : (flushed c s).1.pending = [] := by
  unfold flushed
  dsimp only
  split
  · split_ifs
    · rfl
    · rfl
  · rfl
  · rfl

theorem settle_pending (i : Fin maxControlClients) (h : w.running = true) :
    ((w.settle i).clients i).pending = [] := by
  by_cases hp : (w.clients i).pending = []
  · rw [settle_of_pending hp, hp]
  · unfold settle step flush
    rw [if_pos h]
    dsimp only
    rw [dif_pos hp]
    simp [setClient, flushControlClientResponse, flushed_pending]

theorem settle_settle (w : World) (i : Fin maxControlClients) :
    (w.settle i).settle i = w.settle i := by
  cases h : w.running with
  | true => exact settle_of_pending (settle_pending i h)
  | false => rw [settle_of_stopped i h, settle_of_stopped i h]

theorem settle_running (w : World) (i : Fin maxControlClients) :
    (w.settle i).running = w.running := by
  unfold settle step flush
  split_ifs with hrun
  · dsimp only
    split_ifs <;> rfl
  · rfl

end World

/-- A connection: the controller, and the requests dispatched from it so far. -/
structure Session where
  world : World
  requests : List Request

namespace Session

/-- What one `read` of client `i` brings is taken up according to what the client is doing once
its responses are sent. A client that is polled only for output leaves it in the socket. -/
def receive (σ : Session) (i : Fin maxControlClients) (incoming : Incoming) : Session :=
  let w := σ.world.settle i
  if w.running = true ∧ (w.clients i).kind = .reading then
    ⟨w.step (.read i [incoming]), σ.requests ++ w.requests i incoming⟩
  else ⟨w.step (.forward i [incoming]), σ.requests⟩

def receiveAll (σ : Session) (i : Fin maxControlClients) (reads : List (UInt8 × Bytes)) :
    Session :=
  reads.foldl (fun σ r => σ.receive i (.data r.1 r.2)) σ

theorem receiveAll_append (σ : Session) (i : Fin maxControlClients)
    (reads more : List (UInt8 × Bytes)) :
    σ.receiveAll i (reads ++ more) = (σ.receiveAll i reads).receiveAll i more :=
  foldl_append

def bytesOf (reads : List (UInt8 × Bytes)) : Bytes := reads.flatMap fun r => r.1 :: r.2

/-- Every byte in a read of its own. -/
def singles (bytes : Bytes) : List (UInt8 × Bytes) := bytes.map fun b => (b, [])

theorem receiveAll_cons (σ : Session) (i : Fin maxControlClients) (r : UInt8 × Bytes)
    (reads : List (UInt8 × Bytes)) :
    σ.receiveAll i (r :: reads) = (σ.receive i (.data r.1 r.2)).receiveAll i reads := rfl

theorem singles_cons (b : UInt8) (t : Bytes) : singles (b :: t) = (b, []) :: singles t := rfl

end Session

/-- Reading a byte that does not end the request and then the rest is one read. -/
theorem readControlClientRequest_cons {c c' : ControlClient} {s : Shared} {b d : UInt8} {t : Bytes}
    (hmore : readByte p { c with lastActivityMs := s.system.now } s b = .more c')
    (hactivity : c'.lastActivityMs = s.system.now) :
    readControlClientRequest p c s [.data b []] = ⟨c', s, true, []⟩ ∧
      readControlClientRequest p c s [.data b (d :: t)] =
        readControlClientRequest p c' s [.data d t] := by
  have htouch : { c' with lastActivityMs := s.system.now } = c' := by rw [← hactivity]
  constructor
  · simp only [readControlClientRequest, readBytes, hmore]
  · simp only [readControlClientRequest, htouch]
    rw [readBytes, hmore]

namespace World

theorem setClient_setClient (w : World) (i : Fin maxControlClients) {c' : ControlClient}
    (s s' : Shared) (sent sent' : Bytes) (h : c.kind = .reading → Reading c)
    (h' : c'.kind = .reading → Reading c') :
    (w.setClient i c s sent h).setClient i c' s' sent' h' = w.setClient i c' s' sent' h' := by
  simp [setClient]

variable {w : World} {i : Fin maxControlClients} {incoming : List Incoming} {r : ReadOutcome}

theorem step_read_ok (hrun : w.running = true) (hkind : (w.clients i).kind = .reading)
    (hr : readControlClientRequest w.process (w.clients i) w.shared incoming = r)
    (hok : r.ok = true) (h : r.client.kind = .reading → Reading r.client) :
    w.step (.read i incoming) = w.setClient i r.client r.shared (w.sent i) h := by
  subst hr
  rw [step, if_pos hrun, read, dif_pos hkind]
  exact dif_pos hok

theorem step_read_failed (hrun : w.running = true) (hkind : (w.clients i).kind = .reading)
    (hr : readControlClientRequest w.process (w.clients i) w.shared incoming = r)
    (hok : r.ok ≠ true) : w.step (.read i incoming) = w.stop r.shared := by
  subst hr
  rw [step, if_pos hrun, read, dif_pos hkind]
  exact dif_neg hok

/-- Client `i` has taken up a byte that does not end its request, and goes on with the next. -/
structure Took (w : World) (i : Fin maxControlClients) (b : UInt8) (w' : World) : Prop where
  step_eq : w.step (.read i [.data b []]) = w'
  requests_eq : w.requests i (.data b []) = []
  running : w'.running = true
  kind : (w'.clients i).kind = .reading
  request : (w'.clients i).request = (w.clients i).request ++ [b]
  framed : (w'.clients i).framedRequest = true ↔
    (w.clients i).framedRequest = true ∨ ((w.clients i).request = [] ∧ b = 0)
  step_rest : ∀ b' t, w.step (.read i [.data b (b' :: t)]) = w'.step (.read i [.data b' t])
  requests_rest : ∀ b' t, w.requests i (.data b (b' :: t)) = w'.requests i (.data b' t)

theorem took_of_open (hrun : w.running = true) (hkind : (w.clients i).kind = .reading)
    (hopen : ¬ Ended (w.clients i).framedRequest ((w.clients i).request ++ [b])) :
    ∃ w', w.Took i b w' := by
  have hreading := w.wf i hkind
  obtain ⟨c', hmore, grown, hframed, hactivity⟩ :=
    readByte_more (p := w.process) (hreading.touch w.shared.system.now) w.shared (b := b) hopen
  have hkind' : c'.kind = .reading := grown.reading.kind
  change c'.lastActivityMs = w.shared.system.now at hactivity
  have hclient : (w.setClient i c' w.shared (w.sent i) fun _ => grown.reading).clients i = c' := by
    simp [setClient]
  have hread : ∀ b' t, w.step (.read i [.data b (b' :: t)]) =
      (w.setClient i c' w.shared (w.sent i) fun _ => grown.reading).step (.read i [.data b' t]) := by
    intro b' t
    have hall := (readControlClientRequest_cons (d := b') (t := t) hmore hactivity).2
    have hwf := read_wf (p := w.process) grown.reading w.shared [.data b' t]
    by_cases hok : (readControlClientRequest w.process c' w.shared [.data b' t]).ok = true
    · rw [step_read_ok hrun hkind hall hok (hwf hok),
        step_read_ok (by exact hrun) (by rw [hclient, hkind']) (by rw [hclient]; rfl) hok (hwf hok),
        setClient_setClient]
      simp [setClient]
    · rw [step_read_failed hrun hkind hall hok,
        step_read_failed (by exact hrun) (by rw [hclient, hkind']) (by rw [hclient]; rfl) hok]
      simp [setClient, stop]
  refine ⟨w.setClient i c' w.shared (w.sent i) fun _ => grown.reading, ?_, ?_, hrun, ?_, ?_, ?_,
    hread, ?_⟩
  · have hone := (readControlClientRequest_cons (d := 0) (t := []) hmore hactivity).1
    rw [step, if_pos hrun, read, dif_pos hkind]
    simp only [hone, dite_true]
  · simp [requests, requestsIn, hmore]
  · simpa [setClient] using hkind'
  · simpa [setClient] using grown.request
  · simpa [setClient] using hframed
  · intro b' t
    have htouch : { c' with lastActivityMs := w.shared.system.now } = c' := by
      rw [← hactivity]
    simp [requests, requestsIn, hmore, setClient, htouch]

end World

/-- Whether a request has ended depends on its bytes and on whether the client was framed before
them. -/
theorem ended_append {framed framed' : Bool} {r : Bytes}
    (h : framed' = true ↔ framed = true ∨ (r = [] ∧ b = 0)) (before : Bytes) :
    Ended framed' (r ++ [b] ++ before) ↔ Ended framed (r ++ b :: before) := by
  have happ : r ++ [b] ++ before = r ++ b :: before := by simp
  have hcond : (framed' = true ∨ (r ++ b :: before).head? = some 0) ↔
      (framed = true ∨ (r ++ b :: before).head? = some 0) := by
    rw [h]
    cases r with
    | nil => simp
    | cons x r => simp
  rw [happ, Ended, Ended]
  by_cases hc : framed = true ∨ (r ++ b :: before).head? = some 0
  · rw [if_pos hc, if_pos (hcond.mpr hc)]
  · rw [if_neg hc, if_neg fun h => hc (hcond.mp h)]

namespace World

end World

namespace Session

/-- The client's state when a read is taken. -/
def clientAt (σ : Session) (i : Fin maxControlClients) : ControlClient :=
  (σ.world.settle i).clients i

/-- A read whose bytes do not go on after the end of a request might as well bring each of them
on its own. -/
theorem receive_eq_singles {σ : Session} {i : Fin maxControlClients} {t : Bytes}
    (hrun : (σ.world.settle i).running = true) (hkind : (σ.clientAt i).kind = .reading)
    (hopen : ∀ n < t.length, ¬ Ended (σ.clientAt i).framedRequest ((σ.clientAt i).request ++
      b :: t.take n)) :
    σ.receive i (.data b t) = σ.receiveAll i (singles (b :: t)) := by
  induction t generalizing σ b with
  | nil => rfl
  | cons b' t ih =>
    obtain ⟨w', took⟩ := World.took_of_open hrun hkind
      (by simpa [clientAt] using hopen 0 (by simp))
    have hsettle : w'.settle i = w' :=
      World.settle_of_pending (w'.wf i took.kind).pending_eq
    have hfirst : σ.receive i (.data b []) = ⟨w', σ.requests⟩ := by
      unfold receive
      dsimp only
      rw [if_pos ⟨hrun, hkind⟩, took.step_eq, took.requests_eq, append_nil]
    have hwhole : σ.receive i (.data b (b' :: t)) =
        (Session.mk w' σ.requests).receive i (.data b' t) := by
      unfold receive
      dsimp only
      rw [if_pos ⟨hrun, hkind⟩, hsettle, if_pos ⟨took.running, took.kind⟩, took.step_rest,
        took.requests_rest]
    rw [hwhole]
    have hclient : (Session.mk w' σ.requests).clientAt i = w'.clients i := by
      rw [clientAt, hsettle]
    have hrest := ih (σ := ⟨w', σ.requests⟩) (b := b') (by rw [hsettle]; exact took.running)
      (by rw [hclient]; exact took.kind) (by
        intro n hn
        rw [hclient, took.request, ended_append took.framed]
        simpa [clientAt] using hopen (n + 1) (by simpa using hn))
    rw [hrest, singles_cons b, receiveAll_cons, hfirst]

end Session

@[simp] theorem event_stdin (s : Shared) (event : Bytes) : (s.event event).stdin = s.stdin := rfl

@[simp] theorem inputEvent_stdin (s : Shared) (source data : Bytes) :
    (s.inputEvent source data).stdin = s.stdin := by
  unfold Shared.inputEvent
  simp only [apply_ite Shared.stdin, event_stdin, ite_self]

theorem closeControlClient_eq (c : ControlClient) (s : Shared) :
    (closeControlClient c s).1 = .init ∧ (closeControlClient c s).2.stdin = s.stdin := by
  unfold closeControlClient
  cases c.kind <;> exact ⟨rfl, rfl⟩

/-- One read of input goes to the child as a whole, or closes the client when the child's input
is closed. -/
theorem forwardAttachedStdin_data {s : Shared} (haccepting : Accepting s.stdin.answers)
    (c : ControlClient) (b : UInt8) (t : Bytes) :
    (forwardAttachedStdin c s [.data b t]).1 = (if s.stdin.isOpen then c else .init) ∧
    (forwardAttachedStdin c s [.data b t]).2.1.stdin.isOpen = s.stdin.isOpen ∧
    (forwardAttachedStdin c s [.data b t]).2.1.stdin.delivered =
      s.stdin.delivered ++ (if s.stdin.isOpen then b :: t else []) ∧
    Accepting (forwardAttachedStdin c s [.data b t]).2.1.stdin.answers := by
  obtain ⟨herror, haccepted, hanswers⟩ := writeLoop_accepting haccepting (b :: t)
  unfold forwardAttachedStdin writeStdin
  cases hopen : s.stdin.isOpen with
  | true =>
    simp only [if_true, herror, haccepted, forwardAttachedStdin]
    simp [hopen, hanswers]
  | false =>
    have hclose := closeControlClient_eq c s
    simp [hclose, hopen, haccepting]

namespace Session

/-- The client hands its input to the child, or is gone; everything was sent, and the child's input
takes what it is given. -/
structure Forwarder (σ : Session) (i : Fin maxControlClients) : Prop where
  pending : (σ.world.clients i).pending = []
  kind : (σ.world.clients i).kind = .attachedStdin ∨ (σ.world.clients i).kind = .empty
  accepting : Accepting σ.world.shared.stdin.answers

/-- Whether forwarded bytes reach the child. -/
def Live (σ : Session) (i : Fin maxControlClients) : Prop :=
  σ.world.running = true ∧ (σ.world.clients i).kind = .attachedStdin

instance (σ : Session) (i : Fin maxControlClients) : Decidable (σ.Live i) :=
  inferInstanceAs (Decidable (_ ∧ _))

/-- What some bytes from a forwarding client make of its connection. -/
structure Forwarded (σ : Session) (i : Fin maxControlClients) (bytes : Bytes) (σ' : Session) :
    Prop where
  requests : σ'.requests = σ.requests
  running : σ'.world.running = σ.world.running
  sent : σ'.world.sent i = σ.world.sent i
  isOpen : σ'.world.shared.stdin.isOpen = σ.world.shared.stdin.isOpen
  client : σ'.world.clients i =
    if σ.Live i ∧ σ.world.shared.stdin.isOpen = false then .init else σ.world.clients i
  delivered : σ'.world.shared.stdin.delivered = σ.world.shared.stdin.delivered ++
    if σ.Live i ∧ σ.world.shared.stdin.isOpen = true then bytes else []
  accepting : Accepting σ'.world.shared.stdin.answers

variable {σ σ' τ : Session} {i : Fin maxControlClients} {w : World}

theorem Forwarder.receive_eq (h : σ.Forwarder i) (incoming : Incoming) :
    σ.receive i incoming = ⟨σ.world.step (.forward i [incoming]), σ.requests⟩ := by
  have hkind : (σ.world.clients i).kind ≠ .reading := by
    rcases h.kind with hk | hk <;> simp [hk]
  unfold receive
  dsimp only
  rw [World.settle_of_pending h.pending, if_neg fun hr => hkind hr.2]

theorem step_forward_live (hrun : w.running = true) (hkind : (w.clients i).kind = .attachedStdin)
    (incoming : List Incoming) :
    (w.step (.forward i incoming)).running = true ∧
    (w.step (.forward i incoming)).sent i = w.sent i ∧
    (w.step (.forward i incoming)).clients i =
      (forwardAttachedStdin (w.clients i) w.shared incoming).1 ∧
    (w.step (.forward i incoming)).shared =
      (forwardAttachedStdin (w.clients i) w.shared incoming).2.1 := by
  rw [World.step, if_pos hrun, World.forward, dif_pos hkind]
  simp [World.setClient, hrun]

theorem step_forward_dead (h : ¬ (w.running = true ∧ (w.clients i).kind = .attachedStdin))
    (incoming : List Incoming) : w.step (.forward i incoming) = w := by
  rw [World.step]
  split_ifs with hrun
  · rw [World.forward, dif_neg fun hkind => h ⟨hrun, hkind⟩]
  · rfl

theorem Forwarder.forwarded_receive (h : σ.Forwarder i) (b : UInt8) (t : Bytes) :
    σ.Forwarded i (b :: t) (σ.receive i (.data b t)) := by
  rw [h.receive_eq]
  by_cases hlive : σ.Live i
  · obtain ⟨hrun, hsent, hclient, hshared⟩ := step_forward_live hlive.1 hlive.2 [.data b t]
    obtain ⟨hc, hopen, hdelivered, haccepting⟩ :=
      forwardAttachedStdin_data h.accepting (σ.world.clients i) b t
    refine ⟨rfl, hrun.trans hlive.1.symm, hsent, ?_, ?_, ?_, ?_⟩
    · rw [hshared, hopen]
    · rw [hclient, hc]
      cases σ.world.shared.stdin.isOpen <;> simp [hlive]
    · rw [hshared, hdelivered]
      simp [hlive]
    · rw [hshared]
      exact haccepting
  · rw [step_forward_dead hlive]
    exact ⟨rfl, rfl, rfl, rfl, by simp [hlive], by simp [hlive], h.accepting⟩

variable {bytes : Bytes}

theorem Forwarded.forwarder (h : σ.Forwarded i bytes σ') (hσ : σ.Forwarder i) : σ'.Forwarder i := by
  have hclient := h.client
  split_ifs at hclient
  · exact ⟨by rw [hclient]; rfl, .inr (by rw [hclient]; rfl), h.accepting⟩
  · exact ⟨by rw [hclient, hσ.pending], by rw [hclient]; exact hσ.kind, h.accepting⟩

theorem Forwarded.live_iff (h : σ.Forwarded i bytes σ') :
    σ'.Live i ↔ σ.Live i ∧ σ.world.shared.stdin.isOpen = true := by
  unfold Live
  rw [h.running, h.client]
  cases σ.world.shared.stdin.isOpen with
  | true => simp
  | false =>
    by_cases hlive : σ.Live i
    · simp [hlive, ControlClient.init]
    · rw [if_neg fun hc => hlive hc.1]
      simpa [Live] using hlive

theorem Forwarded.trans {σ'' : Session} {u v : Bytes} (h : σ.Forwarded i u σ')
    (h' : σ'.Forwarded i v σ'') : σ.Forwarded i (u ++ v) σ'' := by
  refine ⟨h'.requests.trans h.requests, h'.running.trans h.running, h'.sent.trans h.sent,
    h'.isOpen.trans h.isOpen, ?_, ?_, h'.accepting⟩
  · have hopen : ¬ (σ'.Live i ∧ σ'.world.shared.stdin.isOpen = false) := by
      rintro ⟨hlive, hclosed⟩
      rw [h.isOpen, (h.live_iff.mp hlive).2] at hclosed
      simp at hclosed
    rw [h'.client, if_neg hopen, h.client]
  · rw [h'.delivered, h.delivered, append_assoc]
    by_cases hlive : σ.Live i ∧ σ.world.shared.stdin.isOpen = true
    · have hlive' := h.live_iff.mpr hlive
      rw [if_pos hlive, if_pos ⟨hlive', by rw [h.isOpen, hlive.2]⟩, if_pos hlive]
    · rw [if_neg hlive, if_neg fun hc => hlive (h.live_iff.mp hc.1), if_neg hlive, append_nil]

theorem Forwarder.forwarded_singles (h : σ.Forwarder i) (b : UInt8) (t : Bytes) :
    σ.Forwarded i (b :: t) (σ.receiveAll i (singles (b :: t))) := by
  induction t generalizing σ b with
  | nil => exact h.forwarded_receive b []
  | cons b' t ih =>
    have hfirst := h.forwarded_receive b []
    exact hfirst.trans (ih (hfirst.forwarder h) b')

/-- Two connections that have gone through the same bytes: they are the same, or both forward
their input and have delivered the same. -/
inductive Twin (i : Fin maxControlClients) (σ τ : Session) : Prop
  | same (h : σ = τ) : Twin i σ τ
  | forwarding (forwarder : σ.Forwarder i) (forwarder' : τ.Forwarder i)
      (requests : σ.requests = τ.requests) (running : σ.world.running = τ.world.running)
      (client : σ.world.clients i = τ.world.clients i) (sent : σ.world.sent i = τ.world.sent i)
      (isOpen : σ.world.shared.stdin.isOpen = τ.world.shared.stdin.isOpen)
      (delivered : σ.world.shared.stdin.delivered = τ.world.shared.stdin.delivered) : Twin i σ τ

theorem twin_of_forwarded {τ' : Session} (hσ : σ.Forwarder i) (hτ : τ.Forwarder i)
    (htwin : Twin i σ τ) (h : σ.Forwarded i bytes σ') (h' : τ.Forwarded i bytes τ') :
    Twin i σ' τ' := by
  have hsame : σ.requests = τ.requests ∧ σ.world.running = τ.world.running ∧
      σ.world.clients i = τ.world.clients i ∧ σ.world.sent i = τ.world.sent i ∧
      σ.world.shared.stdin.isOpen = τ.world.shared.stdin.isOpen ∧
      σ.world.shared.stdin.delivered = τ.world.shared.stdin.delivered := by
    cases htwin with
    | same heq => simp [heq]
    | forwarding _ _ requests running client sent isOpen delivered =>
      exact ⟨requests, running, client, sent, isOpen, delivered⟩
  obtain ⟨hrequests, hrunning, hclient, hsent, hopen, hdelivered⟩ := hsame
  have hlive : σ.Live i ↔ τ.Live i := by rw [Live, Live, hrunning, hclient]
  refine .forwarding (h.forwarder hσ) (h'.forwarder hτ) ?_ ?_ ?_ ?_ ?_ ?_
  · rw [h.requests, h'.requests, hrequests]
  · rw [h.running, h'.running, hrunning]
  · rw [h.client, h'.client, hclient, hopen]
    simp only [hlive]
  · rw [h.sent, h'.sent, hsent]
  · rw [h.isOpen, h'.isOpen, hopen]
  · rw [h.delivered, h'.delivered, hdelivered, hopen]
    simp only [hlive]

/-- A read that does not go on after the end of a request, or that is forwarded to an input that
takes everything. -/
structure AlignedAt (σ : Session) (i : Fin maxControlClients) (b : UInt8) (t : Bytes) : Prop where
  request : (σ.clientAt i).kind = .reading → ∀ n < t.length,
    ¬ Ended (σ.clientAt i).framedRequest ((σ.clientAt i).request ++ b :: t.take n)
  input : (σ.clientAt i).kind = .attachedStdin →
    Accepting (σ.world.settle i).shared.stdin.answers

def Aligned (i : Fin maxControlClients) : Session → List (UInt8 × Bytes) → Prop
  | _, [] => True
  | σ, r :: reads => σ.AlignedAt i r.1 r.2 ∧ Aligned i (σ.receive i (.data r.1 r.2)) reads

/-- The connection with all its responses sent. -/
def settled (σ : Session) (i : Fin maxControlClients) : Session := ⟨σ.world.settle i, σ.requests⟩

theorem receive_settled (σ : Session) (i : Fin maxControlClients) (incoming : Incoming) :
    (σ.settled i).receive i incoming = σ.receive i incoming := by
  unfold receive settled
  dsimp only
  rw [World.settle_settle]

theorem receiveAll_settled (σ : Session) (i : Fin maxControlClients) (r : UInt8 × Bytes)
    (reads : List (UInt8 × Bytes)) :
    (σ.settled i).receiveAll i (r :: reads) = σ.receiveAll i (r :: reads) := by
  rw [receiveAll_cons, receive_settled, receiveAll_cons]

theorem receive_unread
    (hreading : ¬ ((σ.world.settle i).running = true ∧ (σ.clientAt i).kind = .reading))
    (hforward : ¬ (σ.settled i).Live i) (incoming : Incoming) :
    σ.receive i incoming = σ.settled i := by
  have hidle : (σ.world.settle i).step (.forward i [incoming]) = σ.world.settle i :=
    step_forward_dead hforward [incoming]
  unfold receive
  dsimp only
  rw [if_neg (by exact hreading), hidle]
  rfl

theorem receiveAll_unread
    (hreading : ¬ ((σ.world.settle i).running = true ∧ (σ.clientAt i).kind = .reading))
    (hforward : ¬ (σ.settled i).Live i) (r : UInt8 × Bytes) (reads : List (UInt8 × Bytes)) :
    σ.receiveAll i (r :: reads) = σ.settled i := by
  induction reads using List.reverseRecOn with
  | nil => exact receive_unread hreading hforward _
  | append_singleton reads r' ih =>
    rw [← cons_append, receiveAll_append, ih, receiveAll_cons, receive_settled]
    exact receive_unread hreading hforward _

theorem AlignedAt.twin {t : Bytes} (h : σ.AlignedAt i b t) :
    Twin i (σ.receive i (.data b t)) (σ.receiveAll i (singles (b :: t))) := by
  by_cases hreading : (σ.world.settle i).running = true ∧ (σ.clientAt i).kind = .reading
  · exact .same (receive_eq_singles hreading.1 hreading.2 (h.request hreading.2))
  by_cases hlive : (σ.settled i).Live i
  · have hrun : σ.world.running = true := by rw [← World.settle_running σ.world i]; exact hlive.1
    have hforwarder : (σ.settled i).Forwarder i :=
      ⟨World.settle_pending i hrun, .inl hlive.2, h.input hlive.2⟩
    rw [← receive_settled, singles_cons, ← receiveAll_settled, ← singles_cons]
    exact twin_of_forwarded hforwarder hforwarder (.same rfl) (hforwarder.forwarded_receive b t)
      (hforwarder.forwarded_singles b t)
  · rw [receive_unread hreading hlive, singles_cons, receiveAll_unread hreading hlive]
    exact .same rfl

/-- Aligned reads are as good as single bytes. -/
theorem Twin.receiveAll (htwin : Twin i σ τ) {reads : List (UInt8 × Bytes)} (h :
    Aligned i σ reads) :
    Twin i (σ.receiveAll i reads) (τ.receiveAll i (singles (bytesOf reads))) := by
  induction reads generalizing σ τ with
  | nil => exact htwin
  | cons r reads ih =>
    have hsplit : singles (bytesOf (r :: reads)) =
        singles (r.1 :: r.2) ++ singles (bytesOf reads) := by
      simp [singles, bytesOf]
    rw [receiveAll_cons, hsplit, receiveAll_append]
    refine ih ?_ h.2
    cases htwin with
    | same heq => rw [← heq]; exact h.1.twin
    | forwarding hσ hτ requests running client sent isOpen delivered =>
      exact twin_of_forwarded hσ hτ
        (.forwarding hσ hτ requests running client sent isOpen delivered)
        (hσ.forwarded_receive r.1 r.2) (hτ.forwarded_singles r.1 r.2)

theorem Twin.closed (htwin : Twin i σ τ) : Twin i (σ.receive i .closed) (τ.receive i .closed) := by
  cases htwin with
  | same heq => exact .same (by rw [heq])
  | forwarding hσ hτ requests running client sent isOpen delivered =>
    rw [hσ.receive_eq, hτ.receive_eq]
    by_cases hlive : σ.Live i
    · have hlive' : τ.Live i := by rwa [Live, ← running, ← client]
      obtain ⟨hrun, hsent, hclient, hshared⟩ := step_forward_live hlive.1 hlive.2 [.closed]
      obtain ⟨hrun', hsent', hclient', hshared'⟩ := step_forward_live hlive'.1 hlive'.2 [.closed]
      have hclose := closeControlClient_eq (σ.world.clients i) σ.world.shared
      have hclose' := closeControlClient_eq (τ.world.clients i) τ.world.shared
      simp only [forwardAttachedStdin] at hclient hshared hclient' hshared'
      rw [hclose.1] at hclient
      rw [hclose'.1] at hclient'
      refine .forwarding ⟨?_, ?_, ?_⟩ ⟨?_, ?_, ?_⟩ requests (hrun.trans hrun'.symm)
        (hclient.trans hclient'.symm) ?_ ?_ ?_
      · rw [hclient]; rfl
      · rw [hclient]; exact .inr rfl
      · rw [hshared, hclose.2]; exact hσ.accepting
      · rw [hclient']; rfl
      · rw [hclient']; exact .inr rfl
      · rw [hshared', hclose'.2]; exact hτ.accepting
      · rw [hsent, hsent', sent]
      · rw [hshared, hshared', hclose.2, hclose'.2, isOpen]
      · rw [hshared, hshared', hclose.2, hclose'.2, delivered]
    · have hlive' : ¬ τ.Live i := by rwa [Live, ← running, ← client]
      rw [step_forward_dead hlive, step_forward_dead hlive']
      exact .forwarding ⟨hσ.pending, hσ.kind, hσ.accepting⟩ ⟨hτ.pending, hτ.kind, hτ.accepting⟩
        requests running client sent isOpen delivered

/-- The end of the stream, where there is one. -/
def finish (σ : Session) (i : Fin maxControlClients) (ends : Bool) : Session :=
  if ends then σ.receive i .closed else σ

/-- The requests dispatched, the responses sent and the bytes that reached the child. -/
def observed (σ : Session) (i : Fin maxControlClients) : List Request × Bytes × Bytes :=
  (σ.requests, (σ.world.settle i).sent i, (σ.world.settle i).shared.stdin.delivered)

theorem Twin.observed_eq (htwin : Twin i σ τ) : σ.observed i = τ.observed i := by
  cases htwin with
  | same heq => rw [heq]
  | forwarding hσ hτ requests running client sent isOpen delivered =>
    unfold observed
    rw [World.settle_of_pending hσ.pending, World.settle_of_pending hτ.pending, requests, sent,
      delivered]

/-- How a stream is split into reads makes no difference as long as no read goes on after the end
of a request and the child's input takes what is forwarded. -/
theorem observed_eq_of_aligned (σ : Session) (i : Fin maxControlClients)
    {reads reads' : List (UInt8 × Bytes)} (hbytes : bytesOf reads = bytesOf reads')
    (h : Aligned i σ reads) (h' : Aligned i σ reads') (ends : Bool) :
    ((σ.receiveAll i reads).finish i ends).observed i =
      ((σ.receiveAll i reads').finish i ends).observed i := by
  have hfinish : ∀ {τ υ : Session}, Twin i τ υ → (τ.finish i ends).observed i =
      (υ.finish i ends).observed i := by
    intro τ υ htwin
    unfold finish
    split_ifs
    · exact htwin.closed.observed_eq
    · exact htwin.observed_eq
  have hfirst := hfinish (Twin.receiveAll (.same rfl) h)
  have hsecond := hfinish (Twin.receiveAll (.same rfl) h')
  rw [hfirst, hsecond, hbytes]

def opened : Session := ⟨(World.start (.started 1) .started).step .accept, []⟩

def readOf (text : String) : UInt8 × Bytes := ((ascii text).headD 0, (ascii text).tail)

theorem opened_attach_aligned :
    ((opened.receiveAll 0 [readOf "attach stdin\n", readOf "hi"]).finish 0 true).observed 0 =
      ((opened.receiveAll 0 [readOf "att", readOf "ach stdin\n", readOf "h", readOf "i"]).finish
        0 true).observed 0 := by
  apply observed_eq_of_aligned opened 0
  · decide
  · exact ⟨⟨by decide, by decide +kernel⟩, ⟨by decide +kernel, by decide +kernel⟩, trivial⟩
  · exact ⟨⟨by decide, by decide +kernel⟩, ⟨by decide +kernel, by decide +kernel⟩,
      ⟨by decide, by decide +kernel⟩, ⟨by decide +kernel, by decide +kernel⟩, trivial⟩

/-- What follows the attach line in the same read never reaches the child. -/
theorem opened_attach_loses_input :
    bytesOf [readOf "attach stdin\nhi"] = bytesOf [readOf "attach stdin\n", readOf "hi"] ∧
      ((opened.receiveAll 0 [readOf "attach stdin\nhi"]).finish 0 false).observed 0 ≠
        ((opened.receiveAll 0 [readOf "attach stdin\n", readOf "hi"]).finish 0 false).observed 0 := by
  decide +kernel

end Session
end Cubicle.Controller
