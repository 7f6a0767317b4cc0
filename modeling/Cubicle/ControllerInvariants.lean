import Cubicle.ControllerReader

/-!
# What a reading client looks like

A client that reads has nothing to send and a request buffer that holds an incomplete request.
One byte keeps it so or ends the call, and it ends the call with a dispatched frame exactly when
the bytes received so far begin with a complete frame.
-/

namespace Cubicle.Controller
open ByteText PartialWrites CStrings RpcEnvelope List

variable {p : Process}

/-- The payload length that the first four bytes announce. -/
def frameLength (bytes : Bytes) : ℕ := bigEndianValue (bytes.take 4)

/-- The payload of the frame that the bytes of a request begin with. -/
def frameOf (bytes : Bytes) : Option Bytes :=
  if 4 ≤ bytes.length ∧ 0 < frameLength bytes ∧ frameLength bytes < requestMax - 4 ∧
      4 + frameLength bytes ≤ bytes.length then
    some ((bytes.drop 4).take (frameLength bytes))
  else none

/-- The header of a frame whose payload is still incomplete. -/
structure FrameOpen (c : ControlClient) : Prop where
  header : 4 ≤ c.request.length
  length : c.framedLength = frameLength c.request
  positive : 0 < c.framedLength
  bounded : c.framedLength < requestMax - 4
  incomplete : c.request.length < 4 + c.framedLength

/-- A client between two requests or in the middle of one. -/
structure Reading (c : ControlClient) : Prop where
  kind : c.kind = .reading
  response : c.response = []
  offset : c.responseOffset = 0
  framed : c.framedRequest = true →
    (c.request.length < 4 ∧ c.framedLength = 0) ∨ FrameOpen c
  line : c.framedRequest = false →
    c.framedLength = 0 ∧ c.request.length < lineRequestMax ∧ 0 ∉ c.request ∧ 0x0a ∉ c.request

theorem reading_accepted (now : ℕ) : Reading (ControlClient.accepted now) :=
  ⟨rfl, rfl, rfl, by simp [ControlClient.accepted, ControlClient.init],
    by simp [ControlClient.accepted, ControlClient.init, lineRequestMax]⟩

variable {c c' d : ControlClient} {b : UInt8} {s s' : Shared} {ok : Bool} {stream : Bytes}
  {h : Handled}

theorem Reading.touch (h : Reading c) (now : ℕ) : Reading { c with lastActivityMs := now } :=
  ⟨h.kind, h.response, h.offset, fun hf => (h.framed hf).imp_right fun h =>
    ⟨h.header, h.length, h.positive, h.bounded, h.incomplete⟩, h.line⟩

theorem Reading.pending_eq (h : Reading c) : c.pending = [] := by
  simp [ControlClient.pending, h.response]

theorem bigEndianValue_four (a b c d : UInt8) :
    bigEndianValue [a, b, c, d] =
      ((a.toNat * 256 + b.toNat) * 256 + c.toNat) * 256 + d.toNat := by
  simp [bigEndianValue]

theorem frameOf_eq_none_of_head {t : Bytes} (hb : b ≠ 0) : frameOf (b :: t) = none := by
  have hpos : 0 < b.toNat := Nat.pos_of_ne_zero fun h => hb (eq_of_toNat_eq h)
  unfold frameOf
  rw [if_neg]
  rintro ⟨hlen, -, hlt, -⟩
  rcases t with _ | ⟨x, _ | ⟨y, _ | ⟨z, u⟩⟩⟩
  · simp at hlen
  · simp at hlen
  · simp at hlen
  · simp only [frameLength, take_succ_cons, take_zero, bigEndianValue_four,
      requestMax] at hlt
    omega

variable {bytes line : Bytes} {which : Stream} {start : ℤ}

theorem frameOf_short (h : bytes.length < 4) : frameOf bytes = none := by
  unfold frameOf
  rw [if_neg]
  omega

/-- What was received before the frame is complete does not decide it. -/
theorem frameOf_append {payload : Bytes} (h : frameOf bytes = some payload) (rest : Bytes) :
    frameOf (bytes ++ rest) = some payload := by
  unfold frameOf at h ⊢
  split_ifs at h with hc
  obtain ⟨h4, hpos, hlt, hle⟩ := hc
  have hlength : frameLength (bytes ++ rest) = frameLength bytes := by
    rw [frameLength, take_append_of_le_length h4, frameLength]
  rw [hlength, if_pos ⟨by simp; omega, hpos, hlt, by simp; omega⟩,
    drop_append_of_le_length h4, take_append_of_le_length (by simp; omega)]
  exact h

theorem Reading.frameOf_request (h : Reading c) : frameOf c.request = none := by
  cases hf : c.framedRequest with
  | true =>
    rcases h.framed hf with ⟨hshort, -⟩ | hopen
    · exact frameOf_short hshort
    · have hl := hopen.length
      have hi := hopen.incomplete
      unfold frameOf
      rw [if_neg]
      rintro ⟨-, -, -, hle⟩
      omega
  | false =>
    obtain ⟨-, -, h0, -⟩ := h.line hf
    cases hr : c.request with
    | nil => exact frameOf_short (by simp)
    | cons b t =>
      refine frameOf_eq_none_of_head fun hb => h0 ?_
      simp [hr, hb]

/-- The client after one more byte of an incomplete request. -/
structure Extends (c c' : ControlClient) (b : UInt8) : Prop where
  reading : Reading c'
  request : c'.request = c.request ++ [b]
  unframed : c'.framedRequest = false → c.framedRequest = false

theorem extends_line (h : Reading c) (hf : c.framedRequest = false) (hnl : b ≠ 0x0a) (h0 : b ≠ 0)
    (hlen : c.request.length + 1 < lineRequestMax) :
    Extends c { c with request := c.request ++ [b] } b := by
  obtain ⟨hl, -, hz, hn⟩ := h.line hf
  refine ⟨⟨h.kind, h.response, h.offset, fun hf' => ?_, fun _ => ⟨hl, by simpa using hlen, ?_, ?_⟩⟩,
    rfl, id⟩
  · simp only [hf, Bool.false_eq_true] at hf'
  · simp [hz, Ne.symm h0]
  · simp [hn, Ne.symm hnl]

/-- The client with one more byte of a frame in its buffer. -/
def withByte (c : ControlClient) (b : UInt8) : ControlClient :=
  { c with
    framedRequest := true
    request := c.request ++ [b]
    framedLength :=
      if (c.request ++ [b]).length = 4 then bigEndianValue (c.request ++ [b])
      else c.framedLength }

theorem reading_framed_length (h : Reading c) (hf : c.framedRequest = true ∨ c.request = []) :
    c.request.length + 1 < requestMax := by
  rcases hf with hf | hf
  · rcases h.framed hf with ⟨hshort, -⟩ | hopen
    · unfold requestMax; omega
    · have h1 := hopen.bounded
      have h2 := hopen.incomplete
      unfold requestMax at h1 ⊢
      omega
  · rw [hf]; decide

theorem readFramedByte_eq (h : Reading c) (s : Shared) (b : UInt8)
    (hf : c.framedRequest = true ∨ c.request = []) :
    readFramedByte p { c with framedRequest := true } s b =
      if (withByte c b).request.length = 4 ∧
          ((withByte c b).framedLength = 0 ∨ requestMax - 4 ≤ (withByte c b).framedLength) then
        rejectFrame (withByte c b) s "invalid frame length"
      else if 0 < (withByte c b).framedLength ∧
          (withByte c b).request.length = 4 + (withByte c b).framedLength then
        finishApiRequest p (withByte c b) s
      else .more (withByte c b) := by
  have hlen := reading_framed_length h hf
  rw [readFramedByte, if_neg (by simpa using hlen)]
  rfl

/-- In the middle of a frame the remembered length is the announced one. -/
theorem withByte_length (h : Reading c) (hf : c.framedRequest = true ∨ c.request = []) :
    (withByte c b).framedLength =
      if 4 ≤ (withByte c b).request.length then frameLength (withByte c b).request else 0 := by
  have hzero : c.request.length < 4 → c.framedLength = 0 := by
    intro hlt
    cases hb : c.framedRequest with
    | true =>
      rcases h.framed hb with ⟨-, hz⟩ | hopen
      · exact hz
      · have := hopen.header; omega
    | false => exact (h.line hb).1
  simp only [withByte, length_append, length_singleton]
  by_cases h3 : c.request.length + 1 = 4
  · rw [if_pos h3, if_pos (by omega), frameLength, take_of_length_le (by simp; omega)]
  · rw [if_neg h3]
    by_cases h4 : 4 ≤ c.request.length + 1
    · rw [if_pos h4]
      have hopen : FrameOpen c := by
        rcases hf with hf | hf
        · exact (h.framed hf).resolve_left (by omega)
        · rw [hf] at h3 h4; simp at h3 h4
      rw [hopen.length, frameLength, frameLength, take_append_of_le_length (by omega)]
    · rw [if_neg h4]
      exact hzero (by omega)

@[simp] theorem enqueueResponse_kind (c : ControlClient) (data : Bytes) :
    (enqueueResponse c data).1.kind = c.kind := by
  unfold enqueueResponse
  split_ifs <;> rfl

/-- An enqueued answer makes the client responding; a refused one may leave it as it was. -/
def Answered (c : ControlClient) (answer : ControlClient × Bool) : Prop :=
  answer.1.kind = .responding ∨ (answer.2 = false ∧ answer.1.kind = c.kind)

theorem enqueueErrorResponse_answered (c : ControlClient) (message : Bytes) :
    Answered c (enqueueErrorResponse c message) := by
  unfold enqueueErrorResponse
  dsimp only
  split_ifs
  · exact .inr ⟨rfl, rfl⟩
  · exact .inl (by simp)

theorem enqueueApiFrame_answered (c : ControlClient) (json : Bytes) :
    Answered c (enqueueApiFrame c json) := by
  unfold enqueueApiFrame
  dsimp only
  split_ifs
  · exact .inr ⟨rfl, rfl⟩
  · exact .inl (by simp)
  · exact .inl (by simp)

theorem enqueueApiError_answered (c : ControlClient) (id : Bytes) (code : ErrorCode)
    (message : Bytes) (retryable : Bool) (errno : Int32) :
    Answered c (enqueueApiError c id code message retryable errno) := by
  unfold enqueueApiError
  split
  · exact .inr ⟨rfl, rfl⟩
  · exact enqueueApiFrame_answered c _

theorem enqueueApiSuccess_answered (c : ControlClient) (id result : Bytes) :
    Answered c (enqueueApiSuccess c id result) := by
  unfold enqueueApiSuccess
  split
  · exact .inr ⟨rfl, rfl⟩
  · exact enqueueApiFrame_answered c _

theorem closeControlClient_unattached (s : Shared) (h : c.kind.isAttached = false) :
    closeControlClient c s = (.init, s) := by
  unfold closeControlClient
  cases hk : c.kind <;> simp [hk, ClientKind.isAttached] at h ⊢

theorem reject_eq (h : c.kind = .reading) {answer : ControlClient × Bool} (ha : Answered c answer)
    (s : Shared) :
    ∃ c', reject answer s = .stop c' s true ∧ (c'.kind = .responding ∨ c' = .init) := by
  unfold reject
  rcases ha with hk | ⟨hok, hk⟩
  · split_ifs
    · exact ⟨answer.1, rfl, .inl hk⟩
    · rw [closeControlClient_unattached s (by rw [hk]; rfl)]
      exact ⟨.init, rfl, .inr rfl⟩
  · rw [if_neg (by simp [hok]), closeControlClient_unattached s (by rw [hk, h]; rfl)]
    exact ⟨.init, rfl, .inr rfl⟩

/-- The four ways in which a byte is handled: the request grows, a frame or a line is complete and
dispatched, or the request is rejected. -/
inductive ByteCase (p : Process) (s : Shared) (c : ControlClient) (b : UInt8) : Progress → Prop
  | more {c' : ControlClient} (grown : Extends c c' b) : ByteCase p s c b (.more c')
  | frame {payload : Bytes} (complete : frameOf (c.request ++ [b]) = some payload)
      {r : ControlClient × Shared × Bool}
      (dispatched : r = dispatchApiRequest p { withByte c b with request := payload } s) :
      ByteCase p s c b (.stop r.1 r.2.1 r.2.2)
  | line (unframed : c.framedRequest = false) (newline : b = 0x0a)
      {r : ControlClient × Shared} (dispatched : r = finishControlRequest p c s)
      (noFrame : ∀ rest, frameOf (c.request ++ b :: rest) = none) :
      ByteCase p s c b (.stop r.1 r.2 true)
  | rejected {c' : ControlClient} (gone : c'.kind = .responding ∨ c' = .init)
      (noFrame : ∀ rest, frameOf (c.request ++ b :: rest) = none) :
      ByteCase p s c b (.stop c' s true)

theorem frameOf_line (h : Reading c) (hf : c.framedRequest = false) (hb : c.request ≠ [] ∨ b ≠ 0)
    (rest : Bytes) : frameOf (c.request ++ b :: rest) = none := by
  obtain ⟨-, -, hz, -⟩ := h.line hf
  cases hr : c.request with
  | nil => exact frameOf_eq_none_of_head (hb.resolve_left fun h => h hr)
  | cons x t =>
    refine frameOf_eq_none_of_head fun hx => hz ?_
    simp [hr, hx]

theorem readLineByte_case (h : Reading c) (hf : c.framedRequest = false) (s : Shared)
    (hb : c.request ≠ [] ∨ b ≠ 0) : ByteCase p s c b (readLineByte p c s b) := by
  have hnone := frameOf_line h hf hb
  unfold readLineByte
  split_ifs with h1 h2 h3
  · exact .line hf h1 rfl hnone
  · obtain ⟨c', heq, hk⟩ := reject_eq h.kind (enqueueErrorResponse_answered c (ascii "bad_request")) s
    rw [rejectLine, heq]
    exact .rejected hk hnone
  · obtain ⟨c', heq, hk⟩ :=
      reject_eq h.kind (enqueueErrorResponse_answered c (ascii "request_too_long")) s
    rw [rejectLine, heq]
    exact .rejected hk hnone
  · exact .more (extends_line h hf h1 h2 (by omega))

/-- In the middle of a frame the next byte leaves its length alone. -/
theorem frameOpen_of_length (h : Reading c)
    (hf : c.framedRequest = true ∨ (c.request = [] ∧ b = 0)) (h4 : 4 ≤ c.request.length) :
    FrameOpen c ∧ (withByte c b).framedLength = c.framedLength := by
  constructor
  · rcases hf with hf | ⟨hf, -⟩
    · exact (h.framed hf).resolve_left (by omega)
    · simp [hf] at h4
  · simp only [withByte]
    rw [if_neg (by simp; omega)]

theorem extends_framed (h : Reading c) (hf : c.framedRequest = true ∨ (c.request = [] ∧ b = 0))
    (hvalid : ¬ ((withByte c b).request.length = 4 ∧ ((withByte c b).framedLength = 0 ∨
      requestMax - 4 ≤ (withByte c b).framedLength)))
    (hopen : ¬ (0 < (withByte c b).framedLength ∧ (withByte c b).request.length =
      4 + (withByte c b).framedLength)) :
    Extends c (withByte c b) b := by
  have hlen := withByte_length (b := b) h (hf.imp_right And.left)
  refine ⟨⟨h.kind, h.response, h.offset, fun _ => ?_, fun hf' => ?_⟩, rfl, fun hf' => ?_⟩
  · by_cases h4 : 4 ≤ (withByte c b).request.length
    · right
      rw [if_pos h4] at hlen
      have hreq : (withByte c b).request.length = c.request.length + 1 := by simp [withByte]
      by_cases h5 : (withByte c b).request.length = 4
      · exact ⟨h4, hlen, by omega, by omega, by omega⟩
      · obtain ⟨hbefore, hsame⟩ := frameOpen_of_length h hf (by omega)
        have h1 := hbefore.positive
        have h2 := hbefore.bounded
        have h3 := hbefore.incomplete
        exact ⟨h4, hlen, by omega, by omega, by omega⟩
    · rw [if_neg h4] at hlen
      exact .inl ⟨by omega, hlen⟩
  · simp [withByte] at hf'
  · simp [withByte] at hf'

theorem frameOf_badLength (h4 : (withByte c b).request.length = 4)
    (hbad : (withByte c b).framedLength = 0 ∨ requestMax - 4 ≤ (withByte c b).framedLength)
    (hlen : (withByte c b).framedLength = frameLength (withByte c b).request) (rest : Bytes) :
    frameOf (c.request ++ b :: rest) = none := by
  have happ : c.request ++ b :: rest = (withByte c b).request ++ rest := by simp [withByte]
  have hfl : frameLength ((withByte c b).request ++ rest) = frameLength (withByte c b).request := by
    rw [frameLength, take_append_of_le_length (by omega), frameLength]
  rw [happ, frameOf, if_neg]
  rintro ⟨-, hpos, hlt, -⟩
  omega

theorem frameOf_complete (h : Reading c) (hf : c.framedRequest = true ∨ (c.request = [] ∧ b = 0))
    (hpos : 0 < (withByte c b).framedLength)
    (hdone : (withByte c b).request.length = 4 + (withByte c b).framedLength) :
    frameOf (c.request ++ [b]) =
      some (((withByte c b).request.drop 4).take (withByte c b).framedLength) := by
  have hlen := withByte_length (b := b) h (hf.imp_right And.left)
  rw [if_pos (by omega)] at hlen
  have hreq : (withByte c b).request.length = c.request.length + 1 := by simp [withByte]
  obtain ⟨hbefore, hsame⟩ := frameOpen_of_length h hf (by omega)
  have hbound := hbefore.bounded
  have heq : c.request ++ [b] = (withByte c b).request := rfl
  rw [heq, frameOf, ← hlen, if_pos ⟨by omega, hpos, by omega, by omega⟩]

theorem finishApiRequest_eq (c : ControlClient) (s : Shared) :
    ∃ r, r = dispatchApiRequest p { c with request := (c.request.drop 4).take c.framedLength } s ∧
      finishApiRequest p c s = .stop r.1 r.2.1 r.2.2 :=
  ⟨_, rfl, rfl⟩

/-- Every byte is handled in one of the four ways. -/
theorem readByte_case (h : Reading c) (s : Shared) (b : UInt8) :
    ByteCase p s c b (readByte p c s b) := by
  unfold readByte
  split_ifs with hf
  · have hf' : c.framedRequest = true ∨ c.request = [] := hf.imp_right And.left
    rw [readFramedByte_eq h s b hf']
    split_ifs with h1 h2
    · have hlen := withByte_length (b := b) h hf'
      rw [if_pos (by omega)] at hlen
      obtain ⟨c', heq, hk⟩ := reject_eq (c := withByte c b) h.kind
        (enqueueApiError_answered _ [] .resourceLimit (ascii "invalid frame length") false 0) s
      rw [rejectFrame, heq]
      exact .rejected hk (frameOf_badLength h1.1 h1.2 hlen)
    · obtain ⟨r, hr, hstop⟩ := finishApiRequest_eq (p := p) (withByte c b) s
      rw [hstop]
      exact .frame (frameOf_complete h hf h2.1 h2.2) hr
    · exact .more (extends_framed h hf h1 h2)
  · rw [not_or, Bool.not_eq_true, not_and_or] at hf
    exact readLineByte_case h hf.1 s hf.2

/-- The data among the answers, up to the end of the connection. -/
def received : List Incoming → Bytes
  | [] => []
  | .data b t :: rest => b :: t ++ received rest
  | .interrupted :: rest => received rest
  | .failed :: _ => []
  | .closed :: _ => []

/-- A read that goes on has consumed everything and is still in the middle of a request. -/
theorem readBytes_more (h : Reading c) (hmore : readBytes p c s bytes = .more c') :
    Reading c' ∧ c'.request = c.request ++ bytes ∧
      (c'.framedRequest = false → c.framedRequest = false) := by
  induction bytes generalizing c with
  | nil =>
    obtain rfl : c = c' := by simpa [readBytes] using hmore
    exact ⟨h, by simp, id⟩
  | cons b t ih =>
    have hcase := readByte_case (p := p) h s b
    rw [readBytes] at hmore
    cases hstep : readByte p c s b with
    | more d =>
      rw [hstep] at hmore hcase
      cases hcase with
      | more grown =>
        obtain ⟨hr, heq, hf⟩ := ih grown.reading hmore
        exact ⟨hr, by rw [heq, grown.request]; simp, fun h => grown.unframed (hf h)⟩
    | stop d s' ok =>
      rw [hstep] at hmore
      simp at hmore

/-- A read that ends in the middle of the bytes ended with one of the dispatches or rejections. -/
theorem readBytes_stop (h : Reading c) (hstop : readBytes p c s bytes = .stop c' s' ok) :
    ∃ before b after d, bytes = before ++ b :: after ∧ Reading d ∧
      d.request = c.request ++ before ∧ (d.framedRequest = false → c.framedRequest = false) ∧
      ByteCase p s d b (.stop c' s' ok) := by
  induction bytes generalizing c with
  | nil => simp [readBytes] at hstop
  | cons b t ih =>
    have hcase := readByte_case (p := p) h s b
    rw [readBytes] at hstop
    cases hstep : readByte p c s b with
    | more d =>
      rw [hstep] at hstop hcase
      cases hcase with
      | more grown =>
        obtain ⟨before, x, after, e, heq, he, hreq, hf, hlast⟩ := ih grown.reading hstop
        exact ⟨b :: before, x, after, e, by simp [heq], he,
          by rw [hreq, grown.request]; simp, fun h => grown.unframed (hf h), hlast⟩
    | stop d s'' ok' =>
      rw [hstep] at hstop hcase
      obtain ⟨rfl, rfl, rfl⟩ : d = c' ∧ s'' = s' ∧ ok' = ok := by simpa using hstop
      exact ⟨[], b, t, c, rfl, h, by simp, id, hcase⟩

/-- The ways in which a call of the reader ends, with the bytes of the request in question. -/
inductive ReadCase (p : Process) (s : Shared) (c : ControlClient) (bytes : Bytes) :
    ControlClient → Shared → Bool → Prop
  | waiting {c' : ControlClient} (reading : Reading c')
      (unframed : c'.framedRequest = false → c.framedRequest = false)
      (noFrame : frameOf bytes = none) : ReadCase p s c bytes c' s true
  | frame {payload : Bytes} {d : ControlClient} {r : ControlClient × Shared × Bool}
      (complete : frameOf bytes = some payload) (request : d.request = payload)
      (response : d.response = []) (dispatched : r = dispatchApiRequest p d s) :
      ReadCase p s c bytes r.1 r.2.1 r.2.2
  | line {d : ControlClient} {r : ControlClient × Shared} (reading : Reading d)
      (request : d.request <+: bytes) (unframed : c.framedRequest = false)
      (dispatched : r = finishControlRequest p d s) (noFrame : frameOf bytes = none) :
      ReadCase p s c bytes r.1 r.2 true
  | gone {c' : ControlClient} (gone : c'.kind = .responding ∨ c' = .init)
      (noFrame : frameOf bytes = none) : ReadCase p s c bytes c' s true

theorem ByteCase.readCase (h : ByteCase p s d b (.stop c' s' ok)) (hd : Reading d)
    (hf : d.framedRequest = false → c.framedRequest = false) (rest : Bytes) :
    ReadCase p s c (d.request ++ b :: rest) c' s' ok := by
  cases h with
  | @frame payload complete r dispatched =>
    have hframe : frameOf (d.request ++ b :: rest) = some payload := by
      simpa using frameOf_append complete rest
    exact .frame (d := { withByte d b with request := payload }) hframe rfl hd.response dispatched
  | line unframed newline dispatched noFrame =>
    exact .line hd (prefix_append _ _) (hf unframed) dispatched (noFrame rest)
  | rejected gone noFrame => exact .gone gone (noFrame rest)

theorem ReadCase.mono (h : ReadCase p s d bytes c' s' ok)
    (hf : d.framedRequest = false → c.framedRequest = false) : ReadCase p s c bytes c' s' ok := by
  cases h with
  | waiting reading unframed noFrame => exact .waiting reading (fun h => hf (unframed h)) noFrame
  | frame complete request response dispatched => exact .frame complete request response dispatched
  | line reading request unframed dispatched noFrame =>
    exact .line reading request (hf unframed) dispatched noFrame
  | gone gone noFrame => exact .gone gone noFrame

theorem readEnd_case (h : Reading c) (s : Shared) :
    ReadCase p s c c.request (readEnd p c s).1 (readEnd p c s).2 true := by
  unfold readEnd
  split_ifs with hf
  · rw [closeControlClient_unattached s (by rw [h.kind]; rfl)]
    exact .gone (.inr rfl) h.frameOf_request
  · rw [not_or, Bool.not_eq_true] at hf
    exact .line h prefix_rfl hf.1 rfl h.frameOf_request

/-- What one call of the reader can do. -/
theorem readControlClientRequest_case (h : Reading c) (s : Shared) (incoming : List Incoming) :
    ReadCase p s c (c.request ++ received incoming)
      (readControlClientRequest p c s incoming).client
      (readControlClientRequest p c s incoming).shared
      (readControlClientRequest p c s incoming).ok := by
  induction incoming generalizing c with
  | nil => exact .waiting h id (by simpa [received] using h.frameOf_request)
  | cons answer rest ih =>
    cases answer with
    | data b t =>
      simp only [readControlClientRequest, received]
      cases hread : readBytes p { c with lastActivityMs := s.system.now } s (b :: t) with
      | more d =>
        obtain ⟨hd, hreq, hf⟩ := readBytes_more (h.touch _) hread
        have hrest := (ih hd).mono (c := c) hf
        rw [hreq] at hrest
        simpa using hrest
      | stop d s' ok =>
        obtain ⟨before, x, after, e, hbytes, he, hreq, hf, hcase⟩ := readBytes_stop (h.touch _) hread
        have hall := hcase.readCase (c := c) he hf (after ++ received rest)
        rw [hreq] at hall
        have happ : c.request ++ (b :: t ++ received rest) =
            c.request ++ before ++ x :: (after ++ received rest) := by
          rw [hbytes]; simp
        rw [happ]
        exact hall
    | interrupted => exact ih h
    | failed =>
      simp only [readControlClientRequest, received, append_nil]
      rw [closeControlClient_unattached s (by rw [h.kind]; rfl)]
      exact .gone (.inr rfl) h.frameOf_request
    | closed =>
      simp only [readControlClientRequest, received, append_nil]
      exact readEnd_case h s

/-- When the answer fits, the client is responding. -/
def Responds (h : Handled) : Prop := h.ok = true → h.client.kind = .responding

theorem responds_lineError (c : ControlClient) (s : Shared) (message : String) :
    Responds (lineError c s message) := by
  intro hok
  rcases enqueueErrorResponse_answered c (ascii message) with hk | ⟨hno, -⟩
  · exact hk
  · have hyes : (enqueueErrorResponse c (ascii message)).2 = true := hok
    simp [hno] at hyes

theorem responds_respond (c : ControlClient) (s : Shared) (response : Bytes) :
    Responds (respond c s response) := fun _ => by simp [respond, handled]

theorem responds_respondBody (c : ControlClient) (s : Shared) (header body : Bytes) :
    Responds (respondBody c s header body) := by
  unfold respondBody
  split
  · simp [Responds]
  · split <;> simp [Responds]

theorem responds_respondFile (c : ControlClient) (s : Shared) (header body : Bytes) :
    Responds (respondFile c s header body) := by
  unfold respondFile
  split
  · simp [Responds]
  · exact responds_respondBody _ _ _ _

theorem responds_writeFileResponse (c : ControlClient) (s : Shared) :
    Responds (writeFileResponse p c s) := by
  unfold writeFileResponse
  split
  · split_ifs
    · exact responds_lineError _ _ _
    · exact responds_respondFile _ _ _ _
  · exact responds_lineError _ _ _

theorem responds_writeEventsAfterResponse (c : ControlClient) (s : Shared) (after limit : ℤ) :
    Responds (writeEventsAfterResponse c s after limit) := by
  unfold writeEventsAfterResponse
  split_ifs
  · exact responds_lineError _ _ _
  · split
    · exact responds_lineError _ _ _
    · exact responds_respondBody _ _ _ _

theorem responds_readStreamRange (c : ControlClient) (s : Shared) (stream : Bytes)
    (start requested : ℤ) : Responds (readStreamRange p c s stream start requested) := by
  unfold readStreamRange
  split_ifs
  · exact responds_lineError _ _ _
  · split
    · exact responds_lineError _ _ _
    · dsimp only
      split_ifs
      · exact responds_lineError _ _ _
      · split
        · exact responds_lineError _ _ _
        · exact responds_respondFile _ _ _ _

theorem responds_resizeLine (c : ControlClient) (s : Shared) (rows columns : ℕ) :
    Responds (resizeLine p c s rows columns) := by
  unfold resizeLine
  dsimp only
  split_ifs
  · exact responds_lineError _ _ _
  · exact responds_respond _ _ _
  · split
    · exact responds_lineError _ _ _
    · split
      · exact responds_lineError _ _ _
      · exact responds_respond _ _ _

theorem responds_deliverSignal (c : ControlClient) (s : Shared) (signal : ℤ) :
    Responds (deliverSignal c s signal) := by
  unfold deliverSignal
  split
  · exact responds_lineError _ _ _
  · exact responds_respond _ _ _

def attachHeader (stream : Bytes) (start : ℤ) (length : ℕ) : Bytes :=
  ascii "ok attached stream=" ++ stream ++ ascii " start=" ++ decInt start ++
    ascii " length=" ++ dec length ++ ascii "\n"

/-- The client is attached to a stream and has the header and the log from `start` on to send. -/
structure AttachedBy (p : Process) (c : ControlClient) (word : Bytes) (start : ℤ) (which : Stream)
    (c' : ControlClient) : Prop where
  stream : streamOf word = some which
  start_nonneg : 0 ≤ start
  start_le : start.toNat ≤ (p.log which).bytes.length
  client : c' = { c with
    kind := attachedKind which
    response := c.response ++ attachHeader word start ((p.log which).bytes.length - start.toNat) ++
      (p.log which).bytes.drop start.toNat }

theorem enqueueResponse_true {data : Bytes} (h : enqueueResponse c data = (c', true)) :
    c' = { c with response := c.response ++ data } := by
  unfold enqueueResponse at h
  split_ifs at h
  · simp at h
  · exact (Prod.mk.inj h).1.symm

theorem sendAttachCatchup_inr (heq : sendAttachCatchup p c s stream which start = .inr h) :
    Responds h := by
  unfold sendAttachCatchup at heq
  dsimp only at heq
  split_ifs at heq
  · obtain rfl := Sum.inr.inj heq
    exact responds_lineError _ _ _
  · obtain rfl := Sum.inr.inj heq
    exact responds_lineError _ _ _
  · split at heq
    · simp at heq
    · split at heq
      · simp at heq
      · split at heq <;> simp at heq

theorem sendAttachCatchup_inl
    (heq : sendAttachCatchup p c s stream which start = .inl ⟨c', s', true⟩) :
    0 ≤ start ∧ start.toNat ≤ (p.log which).bytes.length ∧
      c' = { c with response := c.response ++
        attachHeader stream start ((p.log which).bytes.length - start.toNat) ++
        (p.log which).bytes.drop start.toNat } := by
  unfold sendAttachCatchup at heq
  dsimp only at heq
  split_ifs at heq with hrange hsize
  refine ⟨by omega, by omega, ?_⟩
  split at heq
  · simp at heq
  · rename_i c1 hheader
    split at heq
    · simp at heq
    · split at heq
      · simp at heq
      · simp only [handled, Sum.inl.injEq, Handled.mk.injEq] at heq
        obtain ⟨hc, -, hok⟩ := heq
        have hbody := enqueueResponse_true (Prod.ext hc hok)
        rw [hbody, enqueueResponse_true hheader]
        simp [attachHeader]

theorem attachStream_cases (hok : (attachStream p c s stream start).ok = true) :
    (attachStream p c s stream start).client.kind = .responding ∨
      ∃ which, AttachedBy p c stream start which (attachStream p c s stream start).client := by
  unfold attachStream at hok ⊢
  split
  · rename_i hnone
    rw [hnone] at hok
    exact .inl (responds_lineError _ _ _ hok)
  · rename_i which hsome
    rw [hsome] at hok
    dsimp only at hok ⊢
    split
    · rename_i h heq
      rw [heq] at hok
      exact .inl (sendAttachCatchup_inr heq hok)
    · rename_i heq
      rw [heq] at hok
      simp at hok
    · rename_i c1 s1 heq
      obtain ⟨h0, hle, hc⟩ := sendAttachCatchup_inl heq
      exact .inr ⟨which, hsome, h0, hle, by rw [hc]⟩

/-- What a client can be after a line request whose answer fits. -/
inductive LineOutcome (p : Process) (c : ControlClient) (line : Bytes) : ControlClient → Prop
  | responding {c' : ControlClient} (kind : c'.kind = .responding) : LineOutcome p c line c'
  | attaching {c' : ControlClient} (kind : c'.kind = .attachingStdin) : LineOutcome p c line c'
  | attached {c' : ControlClient} {word : Bytes} {start : ℤ} {which : Stream}
      (command : LineCommand.ofLine line = .attach (some (word, start)))
      (attached : AttachedBy p c word start which c') : LineOutcome p c line c'

theorem Responds.outcome (hr : Responds h) (hok : h.ok = true) (c : ControlClient) (line : Bytes) :
    LineOutcome p c line h.client := .responding (hr hok)

theorem attachStdin_outcome (hok : (attachStdin p c s).ok = true) :
    LineOutcome p c line (attachStdin p c s).client := by
  unfold attachStdin at hok ⊢
  split_ifs at hok ⊢ with h1 h2
  · exact (responds_lineError _ _ _).outcome hok c line
  · exact .attaching (by simp [handled])
  · exact (responds_lineError _ _ _).outcome hok c line

theorem lineCommand_outcome (hok : ((LineCommand.ofLine line).handle p c s).ok = true) :
    LineOutcome p c line ((LineCommand.ofLine line).handle p c s).client := by
  have herr : ∀ message : String, (lineError c s message).ok = true →
      LineOutcome p c line (lineError c s message).client := fun message h =>
    (responds_lineError c s message).outcome h c line
  cases hcmd : LineCommand.ofLine line with
  | status => exact (responds_respond _ _ _).outcome (by rwa [hcmd] at hok) c line
  | metadata => exact (responds_writeFileResponse _ _).outcome (by rwa [hcmd] at hok) c line
  | eventsAfter arguments =>
    rw [hcmd] at hok
    cases arguments with
    | none => exact herr _ hok
    | some a => exact (responds_writeEventsAfterResponse _ _ _ _).outcome hok c line
  | read arguments =>
    rw [hcmd] at hok
    cases arguments with
    | none => exact herr _ hok
    | some a => exact (responds_readStreamRange _ _ _ _ _).outcome hok c line
  | attachStdin => exact attachStdin_outcome (by rwa [hcmd] at hok)
  | resize arguments =>
    rw [hcmd] at hok
    simp only [LineCommand.handle] at hok ⊢
    split_ifs at hok ⊢
    · exact herr _ hok
    · cases arguments with
      | none => exact herr _ hok
      | some a => exact (responds_resizeLine _ _ _ _).outcome hok c line
    · exact herr _ hok
  | attach arguments =>
    rw [hcmd] at hok
    simp only [LineCommand.handle] at hok ⊢
    split_ifs at hok ⊢
    · exact herr _ hok
    · cases arguments with
      | none => exact herr _ hok
      | some a =>
        rcases attachStream_cases hok with hk | ⟨which, hattached⟩
        · exact .responding hk
        · exact .attached hcmd hattached
  | terminate =>
    rw [hcmd] at hok
    simp only [LineCommand.handle] at hok ⊢
    split_ifs at hok ⊢
    · exact herr _ hok
    · exact (responds_deliverSignal _ _ _).outcome hok c line
  | signal number =>
    rw [hcmd] at hok
    simp only [LineCommand.handle] at hok ⊢
    split_ifs at hok ⊢
    · exact herr _ hok
    · cases number with
      | none => exact herr _ hok
      | some n =>
        dsimp only at hok ⊢
        split_ifs at hok ⊢
        · exact herr _ hok
        · exact (responds_deliverSignal _ _ _).outcome hok c line
  | unknown => exact herr _ (by rwa [hcmd] at hok)

/-- A dispatched line leaves the client closed, responding or attached. -/
theorem dispatchControlRequest_outcome (c : ControlClient) (s : Shared) :
    (dispatchControlRequest p c s).1 = .init ∨
      LineOutcome p c (cstr c.request) (dispatchControlRequest p c s).1 := by
  unfold dispatchControlRequest
  dsimp only
  split_ifs with hok
  · exact .inr (lineCommand_outcome hok)
  · exact .inl rfl

theorem LineOutcome.kind_ne_reading (h : LineOutcome p c line c') : c'.kind ≠ .reading := by
  cases h with
  | responding kind => simp [kind]
  | attaching kind => simp [kind]
  | @attached word start which command hattached =>
    rw [hattached.client]
    cases which <;> simp [attachedKind]

theorem finishControlRequest_kind (c : ControlClient) (s : Shared) :
    (finishControlRequest p c s).1.kind ≠ .reading := by
  rcases dispatchControlRequest_outcome (p := p) { c with request := lineRequest c } s with
    hinit | hout
  · rw [finishControlRequest, hinit]; simp [ControlClient.init]
  · exact hout.kind_ne_reading

/-- A dispatched frame leaves the client responding, unless its answer was refused. -/
theorem dispatchApiRequest_kind {r : ControlClient × Shared × Bool}
    (h : r = dispatchApiRequest p c s) : r.1.kind = .responding ∨ r.2.2 = false := by
  have hanswered : ∃ answer, Answered c answer ∧ r.1 = answer.1 ∧ r.2.2 = answer.2 := by
    unfold dispatchApiRequest at h
    split at h
    · exact ⟨_, enqueueApiError_answered c _ _ _ _ _, by rw [h], by rw [h]⟩
    · rename_i envelope _
      subst h
      cases hreply : (handleMethod p s envelope).2 with
      | success result =>
        exact ⟨_, enqueueApiSuccess_answered c envelope.requestId result, by simp [hreply, enqueueReply],
          by simp [hreply, enqueueReply]⟩
      | failure code message retryable errno =>
        exact ⟨_, enqueueApiError_answered c envelope.requestId code message retryable errno,
          by simp [hreply, enqueueReply], by simp [hreply, enqueueReply]⟩
  obtain ⟨answer, ha, h1, h2⟩ := hanswered
  rw [h1, h2]
  exact ha.imp_right And.left

/-- A call of the reader that leaves the client reading leaves it well formed. -/
theorem ReadCase.reading (h : ReadCase p s c bytes c' s' true) (hk : c'.kind = .reading) :
    Reading c' := by
  generalize htrue : true = ok at h
  cases h with
  | waiting reading unframed noFrame => exact reading
  | frame complete request response dispatched =>
    rcases dispatchApiRequest_kind dispatched with hr | hno
    · simp [hr] at hk
    · simp [hno] at htrue
  | line reading request unframed dispatched noFrame =>
    rw [dispatched] at hk
    exact absurd hk (finishControlRequest_kind _ _)
  | gone gone noFrame =>
    rcases gone with hr | rfl
    · simp [hr] at hk
    · simp [ControlClient.init] at hk

end Cubicle.Controller
