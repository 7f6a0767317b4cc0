import Cubicle.ControllerAnswers
import Cubicle.ControllerSessions
import Cubicle.RpcMessages

/-!
# One request and its answer

A client sends a request in a frame on a connection to the controller and reads one frame back.
The controller takes it with its reader and its dispatcher. What the client makes of the answer
is a single code.
-/

namespace Cubicle.Client
open ByteText Utf8Sequences PartialWrites JsonText JsonSpelling JsonExtents JsonEncoding List
open RpcEnvelope Controller

/-- The code of a decoded response: its error's, or success when the result is an object. -/
def responseCode (requestId response : Bytes) : ErrorCode :=
  match decodeResponse response requestId with
  | none => .protocol
  | some (.error object) =>
    match decodeErrorValue object with
    | none => .protocol
    | some error => error.code
  | some (.result (.obj _)) => .ok
  | some (.result _) => .protocol

/-- A controller, and the connection on which the next request reaches it. -/
structure Peer where
  process : Process
  shared : Shared
  client : ControlClient
  reading : Reading client
  between : client.request = []

namespace Peer

def serve (peer : Peer) (request : Bytes) : ReadOutcome :=
  readControlClientRequest peer.process peer.client peer.shared
    [.data (UInt8.ofNat (request.length / 2 ^ 24))
      ((bigEndian32 request.length).tail ++ request)]

/-- The payload of the answer; nothing when the controller did not survive the request. -/
def response (peer : Peer) (request : Bytes) : Option Bytes :=
  if (peer.serve request).ok then some ((peer.serve request).client.response.drop 4) else none

/-- The code a client gets for a request; `silent` is the one for no answer. -/
def code (peer : Peer) (silent : ErrorCode) (requestId request : Bytes) : ErrorCode :=
  match peer.response request with
  | none => silent
  | some answer => responseCode requestId answer

/-- What the controller writes to its child's standard input on account of a request. -/
def writes (peer : Peer) (request : Bytes) : Bytes :=
  (peer.serve request).shared.stdin.delivered.drop peer.shared.stdin.delivered.length

end Peer

theorem bigEndianValue_bigEndian32 {n : ℕ} (h : n < 2 ^ 32) :
    bigEndianValue (bigEndian32 n) = n := by
  rw [bigEndian32, bigEndianValue_four]
  simp only [UInt8.toNat_ofNat']
  omega

theorem frameOf_frame (request : Bytes) (h : request.length < 2 ^ 32) :
    frameOf (bigEndian32 request.length ++ request) =
      if 0 < request.length ∧ request.length < requestMax - 4 then some request else none := by
  have hfour : (bigEndian32 request.length).length = 4 := rfl
  have hlength : frameLength (bigEndian32 request.length ++ request) = request.length := by
    rw [frameLength, take_append_of_le_length (by simp [hfour]), ← hfour, take_length,
      bigEndianValue_bigEndian32 h]
  unfold frameOf
  rw [hlength, length_append, hfour]
  by_cases hfits : 0 < request.length ∧ request.length < requestMax - 4
  · rw [if_pos ⟨by omega, hfits.1, hfits.2, by omega⟩, if_pos hfits, ← hfour, drop_left,
      take_length]
  · rw [if_neg fun hc => hfits ⟨hc.2.1, hc.2.2.1⟩, if_neg hfits]

variable {p : Process} {c d : ControlClient} {s id : Bytes}

/-- A first NUL byte makes the connection a framed one. -/
theorem readBytes_first (hc : c.request = []) (s : Shared) (t : Bytes) :
    readBytes p c s (0 :: t) = readBytes p { c with framedRequest := true } s (0 :: t) := by
  simp [readBytes, readByte, hc]

theorem readControlClientRequest_first (hc : c.request = []) (s : Shared) (t : Bytes) :
    readControlClientRequest p c s [.data 0 t] =
      readControlClientRequest p { c with framedRequest := true } s [.data 0 t] := by
  simp only [readControlClientRequest]
  rw [readBytes_first (by exact hc)]

theorem reading_framed (h : Reading c) (hc : c.request = []) :
    Reading { c with framedRequest := true } := by
  have hzero : c.framedLength = 0 := by
    cases hf : c.framedRequest with
    | true =>
      rcases h.framed hf with ⟨-, hz⟩ | hopen
      · exact hz
      · have := hopen.header
        simp [hc] at this
    | false => exact (h.line hf).1
  exact ⟨h.kind, h.response, h.offset, fun _ => .inl ⟨by simp [hc], hzero⟩, by simp⟩

namespace Peer

/-- A request is dispatched when its length is admissible; otherwise nothing is done. -/
theorem serve_case (peer : Peer) {request : Bytes} (h : request.length < 2 ^ 24) :
    (∃ d : ControlClient, 0 < request.length ∧ request.length < requestMax - 4 ∧
      d.request = request ∧ d.response = [] ∧
      (peer.serve request).client = (dispatchApiRequest peer.process d peer.shared).1 ∧
      (peer.serve request).shared = (dispatchApiRequest peer.process d peer.shared).2.1 ∧
      (peer.serve request).ok = (dispatchApiRequest peer.process d peer.shared).2.2) ∨
    (¬ (0 < request.length ∧ request.length < requestMax - 4) ∧
      (peer.serve request).shared = peer.shared) := by
  have hzero : UInt8.ofNat (request.length / 2 ^ 24) = 0 := by
    rw [Nat.div_eq_of_lt h]
    rfl
  have hhead : bigEndian32 request.length = 0 :: (bigEndian32 request.length).tail := by
    rw [bigEndian32, hzero]
    rfl
  have hserve : peer.serve request = readControlClientRequest peer.process
      { peer.client with framedRequest := true } peer.shared
      [.data 0 ((bigEndian32 request.length).tail ++ request)] := by
    rw [serve, hzero, readControlClientRequest_first peer.between]
  have hcase := readControlClientRequest_case (p := peer.process)
    (reading_framed peer.reading peer.between) peer.shared
    [.data 0 ((bigEndian32 request.length).tail ++ request)]
  have hbytes : peer.client.request ++
      received [.data 0 ((bigEndian32 request.length).tail ++ request)] =
      bigEndian32 request.length ++ request := by
    rw [peer.between, nil_append, received, received, append_nil, ← cons_append,
      ← hhead]
  rw [← hserve] at hcase
  dsimp only at hcase
  rw [hbytes] at hcase
  have hframe := frameOf_frame request (by omega)
  generalize peer.serve request = outcome at hcase ⊢
  by_cases hfits : 0 < request.length ∧ request.length < requestMax - 4
  · rw [if_pos hfits] at hframe
    left
    obtain ⟨client, shared, ok, rest⟩ := outcome
    cases hcase with
    | waiting reading unframed noFrame => simp [hframe] at noFrame
    | @frame payload d r complete hrequest hresponse dispatched =>
      obtain rfl : request = payload := Option.some.inj (hframe.symm.trans complete)
      exact ⟨d, hfits.1, hfits.2, hrequest, hresponse, by rw [dispatched], by rw [dispatched],
        by rw [dispatched]⟩
    | line reading hrequest unframed dispatched noFrame => simp at unframed
    | gone gone noFrame => simp [hframe] at noFrame
  · rw [if_neg hfits] at hframe
    right
    obtain ⟨client, shared, ok, rest⟩ := outcome
    cases hcase with
    | waiting reading unframed noFrame => exact ⟨hfits, rfl⟩
    | @frame payload d r complete hrequest hresponse dispatched => simp [hframe] at complete
    | line reading hrequest unframed dispatched noFrame => simp at unframed
    | gone gone noFrame => exact ⟨hfits, rfl⟩

end Peer
theorem enqueueApiFrame_eq (hc : c.response = []) {json : Bytes} (h :
    json.length ≤ responseMax - 4) :
    enqueueApiFrame c json = ({ c with
      kind := .responding, closeAfterResponse := false,
      response := bigEndian32 json.length ++ json }, true) := by
  have hmax : responseMax = 4194304 := rfl
  unfold enqueueApiFrame
  rw [if_neg (by omega)]
  dsimp only
  rw [enqueueResponse_ok (by simp [hc, bigEndian32, hmax])]
  dsimp only
  rw [if_pos rfl, enqueueResponse_ok (by simp [hc, bigEndian32]; omega)]
  simp [hc]

theorem text_of_plain (h : ∀ b ∈ s, Plain b) : Text s :=
  text_ascii fun b hb => (h b hb).2.1

theorem escapedByte_plain {b : UInt8} (h : Plain b) : escapedByte b = [b] := by
  obtain ⟨hlow, -, hquote, hslash⟩ := h
  have hshort : shortEscape b = none := by
    unfold shortEscape
    repeat rw [if_neg (by omega)]
  rw [escapedByte, hshort]
  dsimp only
  rw [if_neg (by omega)]

theorem escapeText_plain (h : ∀ b ∈ s, Plain b) : escapeText s = s := by
  induction s with
  | nil => rfl
  | cons b t ih =>
    rw [escapeText, flatMap_cons, escapedByte_plain (h b (by simp)), ← escapeText,
      ih fun x hx => h x (by simp [hx])]
    rfl

theorem responseCode_empty (hd : d.response = []) (hid : ∀ b ∈ cstr id, Plain b)
    (hlen : (cstr id).length < 64) :
    (enqueueReply d id .empty).2 = true ∧
      responseCode (cstr id) ((enqueueReply d id .empty).1.response.drop 4) = .ok := by
  have hempty : cstr (ascii "\x7b\x7d") = ascii "\x7b\x7d" := by decide
  have hlength := successText_length id (ascii "\x7b\x7d")
  rw [escapeText_plain hid, hempty, show (ascii "\x7b\x7d").length = 2 from rfl] at hlength
  have hprinted : rpcSuccess ((cstr id).length + (cstr (ascii "\x7b\x7d")).length + 128) id
      (ascii "\x7b\x7d") = some (successText id (ascii "\x7b\x7d")) := by
    rw [rpcSuccess_eq id _ (by omega), escapeText_plain hid, hempty, if_pos]
    exact ⟨fragmentValid_empty, by omega, by rw [hlength]; omega⟩
  have hframe : enqueueReply d id .empty =
      enqueueApiFrame d (successText id (ascii "\x7b\x7d")) := by
    rw [Reply.empty, enqueueReply, enqueueApiSuccess, hprinted]
  rw [hframe, enqueueApiFrame_eq hd (by unfold responseMax; omega)]
  refine ⟨rfl, ?_⟩
  have hdecode : decodeResponse (successText id (ascii "\x7b\x7d")) (cstr id) =
      some (.result (.obj [])) :=
    decodeResponse_successText (text_of_plain hid) hlen (padded_of_spells (spells_obj [])) (by decide)
      (by unfold maxDocumentBytes; omega)
  dsimp only
  rw [show (bigEndian32 (successText id (ascii "\x7b\x7d")).length ++
    successText id (ascii "\x7b\x7d")).drop 4 = successText id (ascii "\x7b\x7d") from rfl,
    responseCode, hdecode]

theorem responseCode_failure (hd : d.response = []) {message : Bytes} (hid : ∀ b ∈ cstr id, Plain b)
    (hlen : (cstr id).length < 64) (code : ErrorCode) (hmessage : Text (cstr message))
    (hmessageLength : message.length ≤ 64) (retryable : Bool) (errno : Int32) :
    (enqueueReply d id (.failure code message retryable errno)).2 = true ∧
      responseCode (cstr id)
        ((enqueueReply d id (.failure code message retryable errno)).1.response.drop 4) = code := by
  obtain ⟨htext, htextLength⟩ := rpcError_some id code retryable errno (by omega)
    hmessageLength
  have hcstr := cstr_length_le message
  generalize hprinted : errorText id code (escapeText (cstr message)) retryable errno = text
    at htext htextLength
  have hframe : enqueueReply d id (.failure code message retryable errno) =
      enqueueApiFrame d text := by
    rw [enqueueReply, enqueueApiError, htext]
  rw [hframe, enqueueApiFrame_eq hd (by unfold responseMax; omega)]
  refine ⟨rfl, ?_⟩
  dsimp only
  rw [show (bigEndian32 text.length ++ text).drop 4 = text from rfl, responseCode, ← hprinted,
    decodeResponse_errorText (spellsString_plain hid) hlen hmessage (by omega), if_pos rfl]
  dsimp only
  rw [decodeErrorValue_errorMembers (by omega)]

/-- A framed client takes up the bytes of the length but for the last. -/
theorem readBytes_header (h : Reading c) (hf : c.framedRequest = true) (hc : c.request = [])
    (s : Shared) (x y z : UInt8) (t : Bytes) :
    ∃ d, readBytes p c s (x :: y :: z :: t) = readBytes p d s t ∧ Reading d ∧
      d.request = [x, y, z] ∧ d.framedRequest = true := by
  have hopen : ∀ bytes : Bytes, bytes.length < 4 → ¬ Ended true bytes := by
    intro bytes hshort hended
    rw [Ended, if_pos (.inl rfl)] at hended
    omega
  obtain ⟨c1, h1, g1, f1, -⟩ := readByte_more (p := p) h s (b := x)
    (by rw [hf, hc]; exact hopen _ (by simp))
  have hf1 : c1.framedRequest = true := f1.mpr (.inl hf)
  obtain ⟨c2, h2, g2, f2, -⟩ := readByte_more (p := p) g1.reading s (b := y)
    (by rw [hf1, g1.request, hc]; exact hopen _ (by simp))
  have hf2 : c2.framedRequest = true := f2.mpr (.inl hf1)
  obtain ⟨c3, h3, g3, f3, -⟩ := readByte_more (p := p) g2.reading s (b := z)
    (by rw [hf2, g2.request, g1.request, hc]; exact hopen _ (by simp))
  refine ⟨c3, ?_, g3.reading, ?_, f3.mpr (.inl hf2)⟩
  · simp only [readBytes, h1, h2, h3]
  · rw [g3.request, g2.request, g1.request, hc]
    rfl

/-- The last byte of an inadmissible length gets the frame rejected. -/
theorem readByte_badLength (h : Reading c) (hf : c.framedRequest = true) {x y z w : UInt8}
    (hc : c.request = [x, y, z]) (s : Shared)
    (hbad : frameLength [x, y, z, w] = 0 ∨ requestMax - 4 ≤ frameLength [x, y, z, w]) :
    ∃ d : ControlClient, d.response = [] ∧ readByte p c s w = .stop
      (enqueueApiError d [] .resourceLimit (ascii "invalid frame length") false 0).1 s true := by
  have hrequest : (withByte c w).request = [x, y, z, w] := by simp [withByte, hc]
  have hlength := withByte_length (b := w) h (.inl hf)
  rw [hrequest, if_pos (by simp)] at hlength
  have hresponse : (withByte c w).response = [] := h.response
  have hok : (enqueueApiError (withByte c w) [] .resourceLimit (ascii "invalid frame length")
      false 0).2 = true :=
    enqueueApiError_ok hresponse .resourceLimit false 0 (by decide) (by decide)
  refine ⟨withByte c w, hresponse, ?_⟩
  rw [readByte, if_pos (.inl hf), readFramedByte_eq h s w (.inl hf), hrequest, hlength,
    if_pos ⟨rfl, hbad⟩, rejectFrame, reject, if_pos hok]

variable {request value : Bytes}

theorem Peer.serve_rejected (peer : Peer) (h : request.length < 2 ^ 24)
    (hbad : ¬ (0 < request.length ∧ request.length < requestMax - 4)) :
    ∃ d : ControlClient, d.response = [] ∧ (peer.serve request).ok = true ∧
      (peer.serve request).client =
        (enqueueApiError d [] .resourceLimit (ascii "invalid frame length") false 0).1 := by
  have hzero : UInt8.ofNat (request.length / 2 ^ 24) = 0 := by
    rw [Nat.div_eq_of_lt h]
    rfl
  have hreading := (reading_framed peer.reading peer.between).touch peer.shared.system.now
  obtain ⟨d, hheader, hd, hrequest, hframed⟩ := readBytes_header (p := peer.process) hreading rfl
    peer.between peer.shared 0 (UInt8.ofNat (request.length / 2 ^ 16))
    (UInt8.ofNat (request.length / 2 ^ 8)) (UInt8.ofNat request.length :: request)
  have hlength : frameLength [0, UInt8.ofNat (request.length / 2 ^ 16),
      UInt8.ofNat (request.length / 2 ^ 8), UInt8.ofNat request.length] = request.length := by
    have hvalue := bigEndianValue_bigEndian32 (n := request.length) (by omega)
    rw [bigEndian32, hzero] at hvalue
    exact hvalue
  obtain ⟨e, he, hstop⟩ := readByte_badLength (p := peer.process) hd hframed hrequest peer.shared
    (by rw [hlength]; omega)
  have hserve : peer.serve request = ⟨(enqueueApiError e [] .resourceLimit
      (ascii "invalid frame length") false 0).1, peer.shared, true, []⟩ := by
    rw [serve, hzero, readControlClientRequest_first peer.between]
    simp only [readControlClientRequest, bigEndian32, tail_cons, cons_append,
      nil_append]
    rw [hheader, readBytes, hstop]
  exact ⟨e, he, by rw [hserve], by rw [hserve]⟩

theorem Peer.responseCode_rejected (peer : Peer) (h : request.length < 2 ^ 24)
    (hbad : ¬ (0 < request.length ∧ request.length < requestMax - 4)) {answer : Bytes}
    (hid : id ≠ []) (hanswer : peer.response request = some answer) :
    responseCode id answer = .protocol := by
  obtain ⟨d, hd, hok, hclient⟩ := peer.serve_rejected h hbad
  obtain ⟨htext, htextLength⟩ := rpcError_some [] .resourceLimit false 0
    (by decide) (show (ascii "invalid frame length").length ≤ 64 by decide)
  generalize hprinted : errorText [] .resourceLimit
    (escapeText (cstr (ascii "invalid frame length"))) false 0 = text at htext htextLength
  rw [response, if_pos hok, hclient, enqueueApiError, htext] at hanswer
  dsimp only at hanswer
  rw [enqueueApiFrame_eq hd (by unfold responseMax; omega)] at hanswer
  obtain rfl : text = answer := Option.some.inj hanswer
  rw [responseCode, ← hprinted, decodeResponse_errorText
    (show SpellsString (cstr []) (cstr []) from .nil) (by simp) (by decide) (by decide),
    if_neg (by rw [cstr_nil]; exact Ne.symm hid)]

def dataMembers (value : Bytes) : Members := [(ascii "data", .str value)]

/-- The text is a request to write the value. -/
structure IsWrite (id value request : Bytes) : Prop where
  plain : ∀ b ∈ cstr id, Plain b
  nonempty : cstr id ≠ []
  short : (cstr id).length < 64
  small : request.length < 2 ^ 24
  decoded : ∃ session, decodeRequest request =
    some ⟨cstr id, session, ascii "controller.write", dataMembers value⟩

/-- The controller takes up the request and has an input to write the value to. -/
def Peer.CanWrite (peer : Peer) (value request : Bytes) : Prop :=
  (0 < request.length ∧ request.length < requestMax - 4) ∧ peer.process.completed = false ∧
    peer.shared.stdin.isOpen = true ∧ value.length < 4096

instance (peer : Peer) (value request : Bytes) : Decidable (peer.CanWrite value request) :=
  inferInstanceAs (Decidable (_ ∧ _))

@[simp] theorem libraryDebug_stdin (s : Shared) (eventName method : Bytes) (requestBytes : ℕ)
    (result : ℤ) (responseBytes : ℕ) :
    (s.libraryDebug eventName method requestBytes result responseBytes).stdin = s.stdin := by
  unfold Shared.libraryDebug
  dsimp only
  split_ifs <;> rfl

/-- What the handler writes, and what it answers. -/
theorem controllerWrite_eq (p : Process) (s : Shared) (value : Bytes) :
    if p.completed = false ∧ s.stdin.isOpen = true ∧ value.length < 4096 then
      (controllerWrite p s (dataMembers value)).1.stdin.delivered =
          s.stdin.delivered ++ (writeLoop s.stdin.answers (cstr value)).accepted ∧
        (controllerWrite p s (dataMembers value)).2 =
          (match (writeLoop s.stdin.answers (cstr value)).error with
          | none => .empty
          | some errno => .failure .io (ascii "write failed") true errno)
    else
      (controllerWrite p s (dataMembers value)).1 = s ∧
        ((controllerWrite p s (dataMembers value)).2 = .processCompleted ∨
          (controllerWrite p s (dataMembers value)).2 =
            .failure .invalidArgument (ascii "invalid write request") false 0) := by
  have hget : getRequiredString (dataMembers value) (ascii "data") 4096 =
      if value.length < 4096 then some (cstr value) else none := by
    simp [getRequiredString, objectGet, dataMembers, ascii]
  unfold controllerWrite
  rw [hget]
  cases hdone : p.completed with
  | true => simp
  | false =>
    cases hopen : s.stdin.isOpen with
    | false => simp
    | true =>
      by_cases hlen : value.length < 4096
      · rw [if_pos hlen, if_pos ⟨rfl, rfl, hlen⟩]
        simp only [writeStdin, hopen, if_true, Bool.false_eq_true, if_false]
        cases herror : (writeLoop s.stdin.answers (cstr value)).error <;> simp
      · rw [if_neg hlen, if_neg fun hc => hlen hc.2.2]
        simp

theorem handleMethod_write (p : Process) (s : Shared) (id session value : Bytes) :
    handleMethod p s ⟨id, session, ascii "controller.write", dataMembers value⟩ =
      controllerWrite p s (dataMembers value) := by
  have hname : ApiMethod.ofName (ascii "controller.write") = some .write := by decide
  unfold handleMethod
  dsimp only
  rw [hname]
  rfl

/-- Requests to write are dispatched to the handler, whose reply is what the client gets. -/
theorem Peer.serve_write (peer : Peer) (h : IsWrite id value request)
    (hfits : 0 < request.length ∧ request.length < requestMax - 4) :
    (peer.serve request).shared.stdin =
      (controllerWrite peer.process peer.shared (dataMembers value)).1.stdin ∧
    ∃ d : ControlClient, d.response = [] ∧
      (peer.serve request).client = (enqueueReply d (cstr id)
        (controllerWrite peer.process peer.shared (dataMembers value)).2).1 ∧
      (peer.serve request).ok = (enqueueReply d (cstr id)
        (controllerWrite peer.process peer.shared (dataMembers value)).2).2 := by
  obtain ⟨session, hdecoded⟩ := h.decoded
  obtain ⟨d, -, -, hrequest, hresponse, hclient, hshared, hok⟩ | ⟨hno, -⟩ :=
    peer.serve_case h.small
  · rw [← hrequest] at hdecoded
    have hdispatch : dispatchApiRequest peer.process d peer.shared =
        ((enqueueReply d (cstr id) (controllerWrite peer.process peer.shared
            (dataMembers value)).2).1,
          (controllerWrite peer.process peer.shared (dataMembers value)).1.libraryDebug
            (ascii "api_response") (ascii "controller.write")
            (enqueueReply d (cstr id) (controllerWrite peer.process peer.shared
              (dataMembers value)).2).1.request.length
            (if (enqueueReply d (cstr id) (controllerWrite peer.process peer.shared
              (dataMembers value)).2).2 then 0 else -1)
            (enqueueReply d (cstr id) (controllerWrite peer.process peer.shared
              (dataMembers value)).2).1.response.length,
          (enqueueReply d (cstr id) (controllerWrite peer.process peer.shared
            (dataMembers value)).2).2) := by
      unfold dispatchApiRequest
      rw [hdecoded]
      dsimp only
      rw [handleMethod_write]
    rw [hdispatch] at hclient hshared hok
    refine ⟨?_, d, hresponse, hclient, hok⟩
    rw [hshared]
    exact libraryDebug_stdin _ _ _ _ _ _
  · exact absurd hfits hno

theorem Peer.writes_eq (peer : Peer) (h : IsWrite id value request) :
    peer.writes request = if peer.CanWrite value request then
      (writeLoop peer.shared.stdin.answers (cstr value)).accepted else [] := by
  unfold writes
  by_cases hfits : 0 < request.length ∧ request.length < requestMax - 4
  · have hspec := controllerWrite_eq peer.process peer.shared value
    rw [(peer.serve_write h hfits).1]
    by_cases hcan : peer.process.completed = false ∧ peer.shared.stdin.isOpen = true ∧
        value.length < 4096
    · rw [if_pos hcan] at hspec
      rw [hspec.1, drop_left, if_pos ⟨hfits, hcan⟩]
    · rw [if_neg hcan] at hspec
      rw [hspec.1, drop_length, if_neg fun hc => hcan hc.2]
  · obtain ⟨d, hpos, hlt, -⟩ | ⟨-, hshared⟩ := peer.serve_case h.small
    · exact absurd ⟨hpos, hlt⟩ hfits
    · rw [hshared, drop_length, if_neg fun hc => hfits hc.1]

/-- A request to write that is taken up gets an answer, and its code says what became of it. -/
theorem Peer.exists_write_answer (peer : Peer) (h : IsWrite id value request)
    (hfits : 0 < request.length ∧ request.length < requestMax - 4) :
    ∃ answer, peer.response request = some answer ∧
      (peer.CanWrite value request ∧
          (writeLoop peer.shared.stdin.answers (cstr value)).error = none ∧
          responseCode (cstr id) answer = .ok ∨
        (writeLoop peer.shared.stdin.answers (cstr value)).error ≠ none ∧
          responseCode (cstr id) answer = .io ∨
        ¬ peer.CanWrite value request ∧ (responseCode (cstr id) answer = .invalidState ∨
          responseCode (cstr id) answer = .invalidArgument)) := by
  obtain ⟨d, hd, hclient, hok⟩ := (peer.serve_write h hfits).2
  have hspec := controllerWrite_eq peer.process peer.shared value
  have hplain : ∀ b ∈ cstr (cstr id), Plain b := by rw [cstr_cstr]; exact h.plain
  have hshort : (cstr (cstr id)).length < 64 := by rw [cstr_cstr]; exact h.short
  have hempty := responseCode_empty hd hplain hshort
  have hfailure := fun code message (hmessage : Text (cstr message)) hlen retryable errno =>
    responseCode_failure hd hplain hshort code hmessage hlen retryable errno
  rw [cstr_cstr] at hempty
  simp only [cstr_cstr] at hfailure
  unfold response
  rw [hclient, hok]
  by_cases hcan : peer.process.completed = false ∧ peer.shared.stdin.isOpen = true ∧
      value.length < 4096
  · rw [if_pos hcan] at hspec
    rw [hspec.2]
    cases herror : (writeLoop peer.shared.stdin.answers (cstr value)).error with
    | none => exact ⟨_, if_pos hempty.1, .inl ⟨⟨hfits, hcan⟩, rfl, hempty.2⟩⟩
    | some errno =>
      have hio := hfailure .io (ascii "write failed") (by decide) (by decide) true errno
      exact ⟨_, if_pos hio.1, .inr (.inl ⟨by simp, hio.2⟩)⟩
  · rw [if_neg hcan] at hspec
    have hno : ¬ peer.CanWrite value request := fun hc => hcan hc.2
    obtain hreply | hreply := hspec.2
    · have hstate := hfailure .invalidState (ascii "process completed") (by decide)
        (by decide) false 0
      rw [hreply, Reply.processCompleted]
      exact ⟨_, if_pos hstate.1, .inr (.inr ⟨hno, .inl hstate.2⟩)⟩
    · have hargument := hfailure .invalidArgument (ascii "invalid write request")
        (by decide) (by decide) false 0
      rw [hreply]
      exact ⟨_, if_pos hargument.1, .inr (.inr ⟨hno, .inr hargument.2⟩)⟩

/-- The client is told of success exactly when everything was written. -/
theorem Peer.code_ok_iff (peer : Peer) {silent : ErrorCode} (hsilent : silent ≠ .ok)
    (h : IsWrite id value request) :
    peer.code silent (cstr id) request = .ok ↔
      peer.CanWrite value request ∧
        (writeLoop peer.shared.stdin.answers (cstr value)).error = none := by
  unfold code
  by_cases hfits : 0 < request.length ∧ request.length < requestMax - 4
  swap
  · refine iff_of_false ?_ fun hc => hfits hc.1.1
    cases hresponse : peer.response request with
    | none => exact hsilent
    | some answer =>
      dsimp only
      rw [peer.responseCode_rejected h.small hfits h.nonempty hresponse]
      simp
  obtain ⟨answer, hanswer, hcode⟩ := peer.exists_write_answer h hfits
  rw [hanswer]
  dsimp only
  rcases hcode with ⟨hcan, hnone, hcode⟩ | ⟨herror, hcode⟩ | ⟨hno, hcode | hcode⟩
  · exact iff_of_true hcode ⟨hcan, hnone⟩
  · exact iff_of_false (by simp [hcode]) fun hc => herror hc.2
  · exact iff_of_false (by simp [hcode]) fun hc => hno hc.1
  · exact iff_of_false (by simp [hcode]) fun hc => hno hc.1

end Cubicle.Client
