import Cubicle.RpcEnvelope
import Cubicle.JsonExtents

/-!
# Messages arrive as they were sent

A request that was printed is decoded to the fields it was printed from, and so are the two kinds
of responses, as long as ids, names and messages are UTF-8 without NUL and the parts fit.
-/

namespace Cubicle.RpcEnvelope
open ByteText Utf8Sequences JsonText JsonSpelling JsonExtents JsonEncoding List

variable {object : Members} {size : ℕ}
  {requestId sessionId method paramsJson resultJson message : Bytes} {params result : Json}

/-- Known names other than the one for extensions are allowed with any value. -/
theorem topLevelFieldsAllowed_of_keys {allowed : List Bytes}
    (h : (object.map Prod.fst).all (fun key =>
      allowed.contains (cstr key) && cstr key != ascii "extensions") = true) :
    topLevelFieldsAllowed allowed object = true := by
  simp only [topLevelFieldsAllowed, all_map, all_eq_true, Function.comp_apply,
    Bool.and_eq_true, Bool.or_eq_true] at h ⊢
  exact fun m hm => ⟨(h m hm).1, .inl (h m hm).2⟩

theorem getString_of_get {field s : Bytes} (h : objectGet object field = some (.str (cstr s)))
    (hlen : (cstr s).length < size) : getString object field size = some (cstr s) := by
  unfold getString
  rw [h]
  dsimp only
  rw [cstr_cstr, if_pos hlen]

/-- The text of a request, without the limits of its buffers. -/
def requestText (requestId sessionId method paramsJson : Bytes) : Bytes :=
  ascii "\x7b\"protocol_major\":0,\"protocol_minor\":1,\"request_id\":\"" ++
    escapeText (cstr requestId) ++ ascii "\",\"session_id\":\"" ++ escapeText (cstr sessionId) ++
    ascii "\",\"method\":\"" ++ escapeText (cstr method) ++ ascii "\",\"params\":" ++
    cstr paramsJson ++ ascii "\x7d"

theorem appendJsonString_some {used value r : Bytes} (h : appendJsonString size used value = some r)
    (hu : used.length < size) :
    used ++ 0x22 :: escapeText (cstr value) ++ [0x22] = r ∧ r.length < size := by
  rw [appendJsonString_eq used value hu] at h
  split_ifs at h with hfit
  obtain rfl := Option.some.inj h
  refine ⟨rfl, ?_⟩
  simp only [length_append, length_cons, length_nil]
  omega

/-- A request that is printed is the text of its parts, and fits. -/
theorem rpcRequest_some {text : Bytes}
    (h : rpcRequest size requestId sessionId method paramsJson = some text) :
    text = requestText requestId sessionId method paramsJson ∧ text.length < size := by
  unfold rpcRequest at h
  split_ifs at h
  simp only [Option.bind_eq_bind, Option.bind_eq_some_iff] at h
  obtain ⟨_, h1, _, h2, _, h3, _, h4, _, h5, _, h6, _, h7, _, h8, h9⟩ := h
  obtain ⟨rfl, l1⟩ := appendRaw_some h1
  obtain ⟨rfl, l2⟩ := appendJsonString_some h2 l1
  obtain ⟨rfl, l3⟩ := appendRaw_some h3
  obtain ⟨rfl, l4⟩ := appendJsonString_some h4 l3
  obtain ⟨rfl, l5⟩ := appendRaw_some h5
  obtain ⟨rfl, l6⟩ := appendJsonString_some h6 l5
  obtain ⟨rfl, l7⟩ := appendRaw_some h7
  obtain ⟨rfl, l8⟩ := appendRaw_some h8
  obtain ⟨rfl, l9⟩ := appendRaw_some h9
  refine ⟨?_, l9⟩
  simp [requestText, ascii]

def requestMembers (requestId sessionId method : Bytes) (params : Json) : Members :=
  [(ascii "protocol_major", .uint 0), (ascii "protocol_minor", .uint 1),
    (ascii "request_id", .str requestId), (ascii "session_id", .str sessionId),
    (ascii "method", .str method), (ascii "params", params)]

theorem spells_requestText (hid : Text (cstr requestId)) (hsession : Text (cstr sessionId))
    (hmethod : Text (cstr method)) (hparams : SpellsPadded (cstr paramsJson) params) :
    Spells (requestText requestId sessionId method paramsJson)
      (.obj (requestMembers (cstr requestId) (cstr sessionId) (cstr method) params)) := by
  have hspell := spells_obj_padded
    [.tight "protocol_major" (by decide) (spells_uint (n := 0) (by decide)),
      .tight "protocol_minor" (by decide) (spells_uint (n := 1) (by decide)),
      .tight "request_id" (by decide) (spells_str (spells_escapeText hid)),
      .tight "session_id" (by decide) (spells_str (spells_escapeText hsession)),
      .tight "method" (by decide) (spells_str (spells_escapeText hmethod)),
      .plain "params" (by decide) hparams]
  convert hspell using 1
  · simp [requestText, objectText, joinComma, memberText, PaddedField.text,
      PaddedField.tight, PaddedField.plain, ascii, show dec 0 = [48] by decide, show dec 1 = [49] by decide]
  · rfl

theorem parse_requestText (hid : Text (cstr requestId)) (hsession : Text (cstr sessionId))
    (hmethod : Text (cstr method)) (hparams : SpellsPadded (cstr paramsJson) params)
    (hvalid : validateValue 2 params = true)
    (hlen : (requestText requestId sessionId method paramsJson).length ≤ maxDocumentBytes)
    (hidLength : (cstr requestId).length < 64) (hsessionLength : (cstr sessionId).length < 64)
    (hmethodLength : (cstr method).length < 128) :
    parse (requestText requestId sessionId method paramsJson) =
      some (.obj (requestMembers (cstr requestId) (cstr sessionId) (cstr method) params)) := by
  rw [parse_spelled (spells_requestText hid hsession hmethod hparams) hlen, if_pos]
  have hkeys : validKeys ((requestMembers (cstr requestId) (cstr sessionId) (cstr method)
      params).map Prod.fst) = true := by
    simp only [requestMembers, map_cons, map_nil]
    decide
  have h1 : (cstr requestId).length ≤ maxStringBytes := by unfold maxStringBytes; omega
  have h2 : (cstr sessionId).length ≤ maxStringBytes := by unfold maxStringBytes; omega
  have h3 : (cstr method).length ≤ maxStringBytes := by unfold maxStringBytes; omega
  rw [validateValue, validateMembers_eq, hkeys]
  simp [validateValue, requestMembers, maxDepth, maxObjectMembers, h1, h2, h3, hvalid]

/-- A printed request is decoded to the parts it was printed from. -/
theorem decodeRequest_requestText {params : Members} (hid : Text (cstr requestId))
    (hsession : Text (cstr sessionId)) (hmethod : Text (cstr method))
    (hparams : SpellsPadded (cstr paramsJson) (.obj params))
    (hvalid : validateValue 2 (.obj params) = true)
    (hlen : (requestText requestId sessionId method paramsJson).length ≤ maxDocumentBytes)
    (hidLength : (cstr requestId).length < 64) (hidNe : cstr requestId ≠ [])
    (hsessionLength : (cstr sessionId).length < 64) (hmethodLength : (cstr method).length < 128)
    (hmethodNe : cstr method ≠ []) :
    decodeRequest (requestText requestId sessionId method paramsJson) =
      some ⟨cstr requestId, cstr sessionId, cstr method, params⟩ := by
  unfold decodeRequest
  rw [parse_requestText hid hsession hmethod hparams hvalid hlen hidLength hsessionLength
    hmethodLength]
  generalize hroot : requestMembers (cstr requestId) (cstr sessionId) (cstr method)
    (.obj params) = root
  have hfields : topLevelFieldsAllowed requestFields root = true := by
    apply topLevelFieldsAllowed_of_keys
    rw [← hroot]
    simp only [requestMembers, map_cons, map_nil]
    decide
  have hmajor : getRequiredU32 root (ascii "protocol_major") = some 0 := by
    simp [← hroot, getRequiredU32, getU64, objectGet, requestMembers, ascii]
  have hminor : getRequiredU32 root (ascii "protocol_minor") = some 1 := by
    simp [← hroot, getRequiredU32, getU64, objectGet, requestMembers, ascii]
  have hgetId : getString root (ascii "request_id") 64 = some (cstr requestId) :=
    getString_of_get (by simp [← hroot, objectGet, requestMembers, ascii]) hidLength
  have hgetMethod : getString root (ascii "method") 128 = some (cstr method) :=
    getString_of_get (by simp [← hroot, objectGet, requestMembers, ascii]) hmethodLength
  have hgetSession : getString root (ascii "session_id") 64 = some (cstr sessionId) :=
    getString_of_get (by simp [← hroot, objectGet, requestMembers, ascii]) hsessionLength
  have hgetParams : getObject root (ascii "params") = some params := by
    simp [← hroot, getObject, objectGet, requestMembers, ascii]
  dsimp only
  rw [if_pos hfields, hmajor, hminor, hgetId, hgetMethod, hgetSession, hgetParams]
  simp only [Option.bind_eq_bind, Option.bind_some, Option.getD_some]
  rw [if_neg (by simp [hidNe, hmethodNe]; omega)]
  rfl

def successMembers (requestId : Bytes) (result : Json) : Members :=
  [(ascii "request_id", .str requestId), (ascii "success", .bool true), (ascii "result", result)]

theorem spells_successText (hid : Text (cstr requestId))
    (hresult : SpellsPadded (cstr resultJson) result) :
    Spells (successText requestId resultJson) (.obj (successMembers (cstr requestId) result)) := by
  have hspell := spells_obj_padded
    [.tight "request_id" (by decide) (spells_str (spells_escapeText hid)),
      .tight "success" (by decide) (spells_bool true),
      .plain "result" (by decide) hresult]
  convert hspell using 1
  · simp [successText, objectText, joinComma, memberText, PaddedField.text,
      PaddedField.tight, PaddedField.plain, ascii]
  · rfl

theorem parse_successText (hid : Text (cstr requestId)) (hidLength : (cstr requestId).length < 64)
    (hresult : SpellsPadded (cstr resultJson) result) (hvalid : validateValue 2 result = true)
    (hlen : (successText requestId resultJson).length ≤ maxDocumentBytes) :
    parse (successText requestId resultJson) =
      some (.obj (successMembers (cstr requestId) result)) := by
  rw [parse_spelled (spells_successText hid hresult) hlen, if_pos]
  have hkeys : validKeys ((successMembers (cstr requestId) result).map Prod.fst) = true := by
    simp only [successMembers, map_cons, map_nil]
    decide
  have hshort : (cstr requestId).length ≤ maxStringBytes := by unfold maxStringBytes; omega
  rw [validateValue, validateMembers_eq, hkeys]
  simp [validateValue, successMembers, maxDepth, maxObjectMembers, hshort, hvalid]

/-- A printed result is decoded to itself under the id it was printed with. -/
theorem decodeResponse_successText (hid : Text (cstr requestId))
    (hidLength : (cstr requestId).length < 64) (hresult : SpellsPadded (cstr resultJson) result)
    (hvalid : validateValue 2 result = true)
    (hlen : (successText requestId resultJson).length ≤ maxDocumentBytes) :
    decodeResponse (successText requestId resultJson) (cstr requestId) =
      some (.result result) := by
  unfold decodeResponse
  rw [parse_successText hid hidLength hresult hvalid hlen]
  generalize hroot : successMembers (cstr requestId) result = root
  have hfields : topLevelFieldsAllowed responseFields root = true := by
    apply topLevelFieldsAllowed_of_keys
    rw [← hroot]
    simp only [successMembers, map_cons, map_nil]
    decide
  have hgetId : getString root (ascii "request_id") 64 = some (cstr requestId) :=
    getString_of_get (by simp [← hroot, objectGet, successMembers, ascii]) hidLength
  have hsuccess : getBool root (ascii "success") = some true := by
    simp [← hroot, getBool, objectGet, successMembers, ascii]
  have hgetResult : objectGet root (ascii "result") = some result := by
    simp [← hroot, objectGet, successMembers, ascii]
  have hnoError : getObject root (ascii "error") = none := by
    simp [← hroot, getObject, objectGet, successMembers, ascii]
  dsimp only
  rw [if_pos hfields, hgetId, hsuccess, hgetResult, hnoError]
  simp

def errorMembers (code : ErrorCode) (message : Bytes) (retryable : Bool) (systemErrno : Int32) :
    Members :=
  [(ascii "code", .str code.name), (ascii "message", .str message),
    (ascii "retryable", .bool retryable), (ascii "system_errno", intJson systemErrno.toInt)]

def failureMembers (requestId : Bytes) (error : Members) : Members :=
  [(ascii "request_id", .str requestId), (ascii "success", .bool false), (ascii "error", .obj error)]

theorem plain_name (code : ErrorCode) :
    code.name.all (fun b => decide (Plain b)) = true := by
  cases code <;> decide

theorem spells_errorText (hid : SpellsString (cstr requestId) (cstr requestId))
    (hmessage : Text (cstr message)) (code : ErrorCode) (retryable : Bool) (systemErrno : Int32) :
    Spells (errorText requestId code (escapeText (cstr message)) retryable systemErrno)
      (.obj (failureMembers (cstr requestId)
        (errorMembers code (cstr message) retryable systemErrno))) := by
  have hname : ∀ b ∈ code.name, Plain b := by simpa using plain_name code
  have herror := spells_obj
    [.plain "code" (by decide) (spells_str (spellsString_plain hname)),
      .plain "message" (by decide) (spells_str (spells_escapeText hmessage)),
      .plain "retryable" (by decide) (spells_bool retryable),
      .plain "system_errno" (by decide) (spells_int32 systemErrno)]
  have hspell := spells_obj
    [.plain "request_id" (by decide) (spells_str hid),
      .plain "success" (by decide) (spells_bool false),
      .plain "error" (by decide) herror]
  convert hspell using 1
  · simp [errorText, objectText, joinComma, memberText, Field.text, Field.plain, ascii]
  · rfl

theorem errorCodeFromName_name (code : ErrorCode) : errorCodeFromName code.name = code := by
  cases code <;> decide

theorem cstr_name (code : ErrorCode) : cstr code.name = code.name := by
  cases code <;> decide

/-- The answer with an error keeps to the limits of the parser. -/
theorem validate_failureMembers (hid : requestId.length < 64) (hmessage : message.length < 256)
    (code : ErrorCode) (retryable : Bool) (systemErrno : Int32) :
    validateValue 1 (.obj (failureMembers requestId
      (errorMembers code message retryable systemErrno))) = true := by
  have hcode := errorCode_name_length_le code
  have hkeys : validKeys ((failureMembers requestId
      (errorMembers code message retryable systemErrno)).map Prod.fst) = true := by
    simp only [failureMembers, map_cons, map_nil]
    decide
  have herrorKeys : validKeys ((errorMembers code message retryable systemErrno).map
      Prod.fst) = true := by
    simp only [errorMembers, map_cons, map_nil]
    decide
  have h1 : requestId.length ≤ maxStringBytes := by unfold maxStringBytes; omega
  have h2 : message.length ≤ maxStringBytes := by unfold maxStringBytes; omega
  have h3 : code.name.length ≤ maxStringBytes := by unfold maxStringBytes; omega
  have herror : validateValue 2 (.obj (errorMembers code message retryable systemErrno)) = true := by
    rw [validateValue, validateMembers_eq, herrorKeys]
    simp [validateValue, errorMembers, intJson_valid, maxDepth, maxObjectMembers, h2, h3]
  rw [validateValue, validateMembers_eq, hkeys, failureMembers]
  simp only [all_cons, all_nil, herror]
  simp [validateValue, maxDepth, maxObjectMembers, h1]

theorem errorText_length_le (hid : (cstr requestId).length < 64)
    (hmessage : (cstr message).length < 256) (code : ErrorCode) (retryable : Bool)
    (systemErrno : Int32) :
    (errorText requestId code (escapeText (cstr message)) retryable systemErrno).length ≤
      maxDocumentBytes := by
  have hescape := escapeText_length_le (cstr message)
  have hcode := errorCode_name_length_le code
  have hbool : (ascii (if retryable then "true" else "false")).length ≤ 5 :=
    boolText_length_le retryable
  have herrno := decInt_int32_length_le systemErrno
  simp only [errorText, length_append, maxDocumentBytes]
  simp only [ascii, length_map] at hbool ⊢
  simp
  omega

/-- A printed error is decoded under the id it was printed with, and under no other. -/
theorem decodeResponse_errorText (hid : SpellsString (cstr requestId) (cstr requestId))
    (hidLength : (cstr requestId).length < 64) (hmessage : Text (cstr message))
    (hmessageLength : (cstr message).length < 256) (code : ErrorCode) (retryable : Bool)
    (systemErrno : Int32) (expected : Bytes) :
    decodeResponse (errorText requestId code (escapeText (cstr message)) retryable systemErrno)
      expected = if cstr requestId = expected then
        some (.error (errorMembers code (cstr message) retryable systemErrno)) else none := by
  unfold decodeResponse
  rw [parse_spelled (spells_errorText hid hmessage code retryable systemErrno)
    (errorText_length_le hidLength hmessageLength code retryable systemErrno),
    if_pos (validate_failureMembers hidLength hmessageLength code retryable systemErrno)]
  generalize herror : errorMembers code (cstr message) retryable systemErrno = error
  generalize hroot : failureMembers (cstr requestId) error = root
  have hfields : topLevelFieldsAllowed responseFields root = true := by
    apply topLevelFieldsAllowed_of_keys
    rw [← hroot]
    simp only [failureMembers, map_cons, map_nil]
    decide
  have hgetId : getString root (ascii "request_id") 64 = some (cstr requestId) :=
    getString_of_get (by simp [← hroot, objectGet, failureMembers, ascii]) hidLength
  have hsuccess : getBool root (ascii "success") = some false := by
    simp [← hroot, getBool, objectGet, failureMembers, ascii]
  have hnoResult : objectGet root (ascii "result") = none := by
    simp [← hroot, objectGet, failureMembers, ascii]
  have hgetError : getObject root (ascii "error") = some error := by
    simp [← hroot, getObject, objectGet, failureMembers, ascii]
  dsimp only
  rw [if_pos hfields, hgetId, hsuccess, hnoResult, hgetError]
  simp [ite_not]

/-- All four fields of an error are read back. -/
theorem decodeErrorValue_errorMembers (hmessage : (cstr message).length < 256) (code : ErrorCode)
    (retryable : Bool) (systemErrno : Int32) :
    decodeErrorValue (errorMembers code (cstr message) retryable systemErrno) =
      some ⟨code, cstr message, retryable, systemErrno.toInt⟩ := by
  have hlow := systemErrno.le_toInt
  have hhigh := systemErrno.toInt_lt
  have hcodeLength := errorCode_name_length_le code
  generalize herror : errorMembers code (cstr message) retryable systemErrno = error
  have hcode : getString error (ascii "code") 64 = some code.name := by
    rw [← cstr_name code]
    refine getString_of_get ?_ (by rw [cstr_name]; omega)
    simp [← herror, objectGet, errorMembers, ascii, cstr_name]
  have hgetMessage : getString error (ascii "message") 256 = some (cstr message) :=
    getString_of_get (by simp [← herror, objectGet, errorMembers, ascii]) hmessage
  have hretryable : getBool error (ascii "retryable") = some retryable := by
    simp [← herror, getBool, objectGet, errorMembers, ascii]
  have herrno : getI64 error (ascii "system_errno") = some systemErrno.toInt := by
    have hget : objectGet error (ascii "system_errno") = some (intJson systemErrno.toInt) := by
      simp [← herror, objectGet, errorMembers, ascii]
    unfold getI64
    rw [hget]
    generalize systemErrno.toInt = z at hlow hhigh ⊢
    cases z with
    | ofNat n =>
      simp only [intJson]
      rw [if_pos (by simp at hhigh; omega)]
      rfl
    | negSucc n => rfl
  unfold decodeErrorValue
  rw [hcode, hgetMessage, hretryable, herrno]
  simp only [Option.bind_eq_bind, Option.bind_some, errorCodeFromName_name]
  rw [if_neg (by omega)]
  rfl

end Cubicle.RpcEnvelope
