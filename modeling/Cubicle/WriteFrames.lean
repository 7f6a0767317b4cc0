import Cubicle.AttachmentWrites
import Cubicle.RpcRoundTrips

/-!
# The frames of writes

An attachment sends its input in chunks, each one a request of its own. A chunk is escaped into
JSON, so its request may be up to six times as long as the chunk, while the controller takes
requests of less than 8188 bytes only. A longer frame is answered without the id of the request,
and what follows it is read as another frame.
-/

namespace Cubicle.Client
open ByteText JsonText JsonSpelling JsonEncoding RpcEnvelope RpcRoundTrips Controller

variable {size : ℕ} {id : Bytes}

variable {used value : Bytes}

theorem appendJsonString_ok (hvalue : (escapeText (cstr value)).length < 1024)
    (h : used.length + (escapeText (cstr value)).length + 2 < size) :
    appendJsonString size used value =
      some (used ++ 0x22 :: escapeText (cstr value) ++ [0x22]) := by
  rw [appendJsonString_eq used value (by omega), if_neg (by omega)]

/-- A request is printed when its parts fit their buffers and the whole fits. -/
theorem rpcRequest_ok {requestId sessionId method paramsJson : Bytes}
    (hparams : fragmentValid paramsJson = true) (hid : (escapeText (cstr requestId)).length < 1024)
    (hsession : (escapeText (cstr sessionId)).length < 1024)
    (hmethod : (escapeText (cstr method)).length < 1024)
    (hsize : (requestText requestId sessionId method paramsJson).length < size) :
    rpcRequest size requestId sessionId method paramsJson =
      some (requestText requestId sessionId method paramsJson) := by
  rw [requestText_length] at hsize
  unfold rpcRequest
  rw [if_pos hparams]
  simp only [Option.bind_eq_bind]
  rw [appendRaw_of_lt (by simp [ascii]; omega), Option.bind_some,
    appendJsonString_ok hid (by simp [ascii]; omega), Option.bind_some,
    appendRaw_of_lt (by simp [ascii]; omega), Option.bind_some,
    appendJsonString_ok hsession (by simp [ascii]; omega), Option.bind_some,
    appendRaw_of_lt (by simp [ascii]; omega), Option.bind_some,
    appendJsonString_ok hmethod (by simp [ascii]; omega), Option.bind_some,
    appendRaw_of_lt (by simp [ascii]; omega), Option.bind_some,
    appendRaw_of_lt (by simp [ascii]; omega), Option.bind_some,
    appendRaw_of_lt (by simp [ascii]; omega)]
  simp [requestText, ascii]

theorem writeParams_length (chunk : Bytes) :
    (writeParams chunk).length = (stringBody chunk).length + 11 := by
  simp [writeParams, appendStringN, ascii]

/-- The request of a chunk: a fixed text, the digits of its number and the escaped chunk. -/
theorem exists_writeRequest (number : ℕ) {chunk : Bytes} (h : chunk.length ≤ 4095) :
    ∃ request, directRequest number (ascii "controller.write") (writeParams chunk) = some request ∧
      request.length = (stringBody chunk).length + (dec (number % 2 ^ 64)).length + 137 := by
  have hid : (escapeText (cstr (requestIdOf number))).length =
      (dec (number % 2 ^ 64)).length + 4 := by
    rw [cstr_eq_self (zero_notMem_of_plain (plain_requestIdOf number)),
      escapeText_plain (plain_requestIdOf number), requestIdOf, List.length_append,
      show (ascii "req-").length = 4 from rfl, Nat.add_comm]
  have hidLength := requestIdOf_length_lt number
  have hsession : (escapeText (cstr (ascii "local-session"))).length = 13 := by decide
  have hmethod : (escapeText (cstr (ascii "controller.write"))).length = 16 := by decide
  have hdigits := dec_length_le_u64 (n := number % 2 ^ 64) (Nat.mod_lt _ (by decide))
  have hparams : cstr (writeParams chunk) = writeParams chunk :=
    cstr_eq_self (zero_notMem_spelled (spells_writeParams chunk))
  have hvalid : fragmentValid (writeParams chunk) = true := by
    rw [fragmentValid, parse_writeParams h]
    rfl
  have hlength := requestText_length (requestIdOf number) (ascii "local-session")
    (ascii "controller.write") (writeParams chunk)
  rw [hid, hsession, hmethod, hparams, writeParams_length] at hlength
  have hnumber : (requestIdOf number).length = 4 + (dec (number % 2 ^ 64)).length := by
    rw [requestIdOf, List.length_append]
    rfl
  refine ⟨_, ?_, by rw [hlength]; omega⟩
  unfold directRequest
  rw [if_pos hvalid]
  refine rpcRequest_ok hvalid (by omega) (by omega) (by omega) ?_
  rw [hlength, hparams, writeParams_length, hnumber,
    show (ascii "controller.write").length = 16 from rfl]
  omega

theorem decodeResponse_ne_none {answer : Bytes} (h : responseCode id answer ≠ .protocol) :
    decodeResponse answer id ≠ none := by
  intro hnone
  exact h (by rw [responseCode, hnone])

/-- The answer to a request to write that is taken up is an answer to that request. -/
theorem Peer.answers_write (peer : Peer) {request : Bytes} (h : IsWrite id value request)
    (hfits : 0 < request.length ∧ request.length < requestMax - 4) :
    ∃ answer, peer.response request = some answer ∧ decodeResponse answer (cstr id) ≠ none := by
  obtain ⟨answer, hanswer, hcode⟩ := peer.exists_write_answer h hfits
  refine ⟨answer, hanswer, decodeResponse_ne_none ?_⟩
  rcases hcode with ⟨-, -, hcode⟩ | ⟨-, hcode⟩ | ⟨-, hcode | hcode⟩
  · simp [hcode]
  · simp [hcode]
  · simp [hcode]
  · simp [hcode]

/-- The request of a chunk is within the limit of the controller and answered with its id exactly
when the escaped chunk leaves room for the rest of the request. -/
theorem write_chunk_answered_iff (peer : Peer) (number : ℕ) {chunk : Bytes}
    (hlen : chunk.length ≤ 4095) :
    (∃ request answer,
        directRequest number (ascii "controller.write") (writeParams chunk) = some request ∧
        request.length < requestMax - 4 ∧ peer.response request = some answer ∧
        decodeResponse answer (requestIdOf number) ≠ none) ↔
      (stringBody chunk).length + (dec (number % 2 ^ 64)).length < 8051 := by
  obtain ⟨request, hrequest, hlength⟩ := exists_writeRequest number hlen
  have hmax : requestMax = 8192 := rfl
  constructor
  · rintro ⟨request', answer, hsame, hfits, -⟩
    obtain rfl := Option.some.inj (hrequest.symm.trans hsame)
    omega
  · intro hfits
    have hwrite := isWrite_directRequest hlen hrequest
    have hid : cstr (requestIdOf number) = requestIdOf number :=
      cstr_eq_self (zero_notMem_of_plain (plain_requestIdOf number))
    obtain ⟨answer, hanswer, hdecode⟩ := peer.answers_write hwrite (by omega)
    rw [hid] at hdecode
    exact ⟨request, answer, hrequest, by omega, hanswer, hdecode⟩

theorem write_of_two_bytes_answered :
    ∃ request answer,
      directRequest 1 (ascii "controller.write") (writeParams (ascii "hi")) = some request ∧
      request.length < requestMax - 4 ∧ (Peer.started []).response request = some answer ∧
      decodeResponse answer (requestIdOf 1) ≠ none :=
  (write_chunk_answered_iff (.started []) 1 (by decide)).mpr (by decide +kernel)

/-- A chunk of control characters: its request is refused, and the answer has no id. -/
theorem control_chunk_rejected :
    ∃ request answer,
      directRequest 1 (ascii "controller.write") (writeParams (List.replicate 1400 0x01)) =
        some request ∧
      requestMax - 4 ≤ request.length ∧ (Peer.started []).response request = some answer ∧
      responseCode (requestIdOf 1) answer = .protocol := by
  have hchunk : (List.replicate 1400 (0x01 : UInt8)).length ≤ 4095 := by
    rw [List.length_replicate]
    omega
  obtain ⟨request, hrequest, hlength⟩ := exists_writeRequest 1 hchunk
  have hbody : (stringBody (List.replicate 1400 0x01)).length = 8400 := by decide +kernel
  have hdigits := dec_length_le_u64 (n := 1 % 2 ^ 64) (by decide)
  have hmax : requestMax = 8192 := rfl
  have hbad : ¬ (0 < request.length ∧ request.length < requestMax - 4) := by omega
  obtain ⟨d, hd, hok, -⟩ :=
    (Peer.started []).serve_rejected (show request.length < 2 ^ 24 by omega) hbad
  have hanswer : (Peer.started []).response request =
      some (((Peer.started []).serve request).client.response.drop 4) := if_pos hok
  refine ⟨request, _, hrequest, by omega, hanswer, ?_⟩
  exact (Peer.started []).responseCode_rejected (by omega) hbad (by decide) hanswer

end Cubicle.Client
