import Cubicle.ControllerAnswers

/-!
# What a client can do to the controller

Reading from one client touches the other clients in no case, and the shared state only through
the request that was received. Whether the event loop goes on is another matter: it ends when the
answer to an accepted request is refused.
-/

namespace Cubicle.Controller
open ByteText RpcEnvelope

/-- The shared state after what was received on a connection: no request, a frame that is no
request, a framed request or a line. -/
inductive RequestEffect (p : Process) (s : Shared) (bytes : Bytes) : Shared → Prop
  | none : RequestEffect p s bytes s
  | malformed {payload : Bytes} (frame : frameOf bytes = some payload)
      (invalid : decodeRequest payload = none) :
      RequestEffect p s bytes
        (s.libraryDebug (ascii "api_response") (ascii "(invalid)") payload.length (-1) 0)
  | framed {payload : Bytes} {envelope : RequestEnvelope} (frame : frameOf bytes = some payload)
      (request : decodeRequest payload = some envelope) (length : ℕ) (result : ℤ)
      (responseLength : ℕ) :
      RequestEffect p s bytes ((handleMethod p s envelope).1.libraryDebug (ascii "api_response")
        envelope.method length result responseLength)
  | line {d : ControlClient} (reading : Reading d) (request : d.request <+: bytes) :
      RequestEffect p s bytes (finishControlRequest p d s).2

variable {p : Process} {s s' : Shared} {c c' : ControlClient} {ok : Bool}

variable {bytes : Bytes}

theorem dispatchApiRequest_effect {d : ControlClient} (frame : frameOf bytes = some d.request)
    (hd : d.response = []) : RequestEffect p s bytes (dispatchApiRequest p d s).2.1 := by
  unfold dispatchApiRequest
  split
  · rename_i hnone
    dsimp only
    rw [hd]
    exact .malformed frame hnone
  · rename_i envelope hsome
    exact .framed frame hsome _ _ _

theorem ReadCase.effect (h : ReadCase p s c bytes c' s' ok) : RequestEffect p s bytes s' := by
  cases h with
  | waiting reading unframed noFrame => exact .none
  | @frame payload d r complete request response dispatched =>
    rw [dispatched]
    exact dispatchApiRequest_effect (by rw [complete, request]) response
  | line reading request unframed dispatched noFrame =>
    rw [dispatched]
    exact .line reading request
  | gone gone noFrame => exact .none

theorem ReadCase.ok_iff (h : ReadCase p s c bytes c' s' ok) :
    ok = true ↔ ∀ payload, frameOf bytes = some payload → Survivable p s payload := by
  cases h with
  | waiting reading unframed noFrame => simp [noFrame]
  | @frame payload d r complete request response dispatched =>
    rw [dispatched, dispatchApiRequest_ok_iff response, request, complete]
    simp
  | line reading request unframed dispatched noFrame => simp [noFrame]
  | gone gone noFrame => simp [noFrame]

namespace World

/-- What client `i` has received of its current request when these answers arrive. -/
def requestBytes (w : World) (i : Fin maxControlClients) (incoming : List Incoming) : Bytes :=
  (w.clients i).request ++ received incoming

/-- Reading from client `i` leaves the loop running and has no effect but on that client's
connection and through the request it sent. -/
def Contained (w : World) (i : Fin maxControlClients) (incoming : List Incoming) : Prop :=
  (w.step (.read i incoming)).running = w.running ∧
  (∀ j, j ≠ i → (w.step (.read i incoming)).clients j = w.clients j ∧
    (w.step (.read i incoming)).sent j = w.sent j) ∧
  (w.step (.read i incoming)).process = w.process ∧
  RequestEffect w.process w.shared (w.requestBytes i incoming) (w.step (.read i incoming)).shared

/-- Handling what a client sends is contained exactly when the frame it completes, if any, is not
an accepted request whose answer cannot be delivered. -/
theorem read_contained_iff (w : World) (i : Fin maxControlClients) (incoming : List Incoming) :
    w.Contained i incoming ↔
      (w.running = true → (w.clients i).kind = .reading →
        ∀ payload, frameOf (w.requestBytes i incoming) = some payload →
          Survivable w.process w.shared payload) := by
  unfold Contained
  by_cases hrun : w.running = true
  swap
  · have hsame : w.step (.read i incoming) = w := by rw [step, if_neg hrun]
    rw [hsame]
    exact iff_of_true ⟨rfl, fun _ _ => ⟨rfl, rfl⟩, rfl, .none⟩ fun h => absurd h hrun
  have hstep : w.step (.read i incoming) = w.read i incoming := by rw [step, if_pos hrun]
  rw [hstep, read]
  by_cases hkind : (w.clients i).kind = .reading
  swap
  · rw [dif_neg hkind]
    exact iff_of_true ⟨rfl, fun _ _ => ⟨rfl, rfl⟩, rfl, .none⟩ fun _ h => absurd h hkind
  rw [dif_pos hkind]
  dsimp only
  have hcase := readControlClientRequest_case (p := w.process) (w.wf i hkind) w.shared incoming
  have hiff := hcase.ok_iff
  by_cases hok : (readControlClientRequest w.process (w.clients i) w.shared incoming).ok = true
  · rw [dif_pos hok]
    refine iff_of_true ⟨rfl, fun j hj => ?_, rfl, hcase.effect⟩ fun _ _ => hiff.mp hok
    simp [setClient, Function.update_of_ne hj]
  · rw [dif_neg hok]
    refine iff_of_false (fun h => ?_) fun h => hok (hiff.mpr (h hrun hkind))
    exact absurd (h.1.trans hrun) (by simp [stop])

/-- A status request whose id is eighteen control characters, in a frame that arrives in two
reads. -/
def controlIdText : Bytes :=
  ascii "\x7b\"protocol_major\":0,\"protocol_minor\":1,\"request_id\":\"" ++
    (List.replicate 18 (ascii "\\u0001")).flatten ++
    ascii "\",\"method\":\"controller.status\",\"params\":\x7b\x7d\x7d"

def controlIdFrame : List Incoming :=
  [.data 0 ([0, 0, 0xcc] ++ controlIdText.take 124),
    .data (controlIdText.getD 124 0) (controlIdText.drop 125)]

/-- The escaped id has grown by ninety bytes, its answer is refused, and the loop ends. -/
theorem controlIdFrame_ends_loop :
    ¬ ((start (.started 1) .started).step .accept).Contained 0 controlIdFrame := by
  rintro ⟨hrunning, -⟩
  have hbefore : ((start (.started 1) .started).step .accept).running = true := by decide
  have hafter : (((start (.started 1) .started).step .accept).step
      (.read 0 controlIdFrame)).running = false := by decide +kernel
  rw [hbefore, hafter] at hrunning
  simp at hrunning

end World
end Cubicle.Controller
