import Cubicle.JsonEncoding

/-!
# RPC envelopes

The JSON layer with its limits, the getters, and the request and response envelopes that the
client, the manager and the controller exchange.
-/

namespace Cubicle.RpcEnvelope
open ByteText Utf8Sequences JsonText JsonSpelling JsonEncoding List

inductive ErrorCode
  | ok | invalidArgument | notFound | alreadyExists | ambiguousName | permissionDenied
  | authenticationFailed | sessionExpired | unsupported | invalidState | conflict | timeout
  | managerUnavailable | controllerUnavailable | protocol | io | resourceLimit | internal
deriving DecidableEq, Repr

def ErrorCode.name : ErrorCode → Bytes
  | .ok => ascii "ok"
  | .invalidArgument => ascii "invalid_argument"
  | .notFound => ascii "not_found"
  | .alreadyExists => ascii "already_exists"
  | .ambiguousName => ascii "ambiguous_name"
  | .permissionDenied => ascii "permission_denied"
  | .authenticationFailed => ascii "authentication_failed"
  | .sessionExpired => ascii "session_expired"
  | .unsupported => ascii "unsupported"
  | .invalidState => ascii "invalid_state"
  | .conflict => ascii "conflict"
  | .timeout => ascii "timeout"
  | .managerUnavailable => ascii "manager_unavailable"
  | .controllerUnavailable => ascii "controller_unavailable"
  | .protocol => ascii "protocol"
  | .io => ascii "io"
  | .resourceLimit => ascii "resource_limit"
  | .internal => ascii "internal"

/-- The codes in the order of the enumeration. -/
def ErrorCode.all : List ErrorCode :=
  [.ok, .invalidArgument, .notFound, .alreadyExists, .ambiguousName, .permissionDenied,
    .authenticationFailed, .sessionExpired, .unsupported, .invalidState, .conflict, .timeout,
    .managerUnavailable, .controllerUnavailable, .protocol, .io, .resourceLimit, .internal]

/-- Unknown names are protocol errors. -/
def errorCodeFromName (name : Bytes) : ErrorCode :=
  (ErrorCode.all.find? fun code => code.name = name).getD .protocol

def maxDocumentBytes : ℕ := 16 * 1024 * 1024
def maxDepth : ℕ := 32
def maxObjectMembers : ℕ := 256
def maxArrayElements : ℕ := 65536
def maxStringBytes : ℕ := 1024 * 1024

mutual
/-- `validate_json_value`: depth, sizes, and no key twice in one object. -/
def validateValue (depth : ℕ) : Json → Bool
  | .str s => depth ≤ maxDepth && s.length ≤ maxStringBytes
  | .arr items =>
    depth ≤ maxDepth && items.length ≤ maxArrayElements && validateItems (depth + 1) items
  | .obj members =>
    depth ≤ maxDepth && members.length ≤ maxObjectMembers && validateMembers (depth + 1) members
  | _ => depth ≤ maxDepth

def validateItems (depth : ℕ) : List Json → Bool
  | [] => true
  | v :: vs => validateValue depth v && validateItems depth vs

def validateMembers (depth : ℕ) : List (Bytes × Json) → Bool
  | [] => true
  | (key, v) :: ms =>
    key.length ≤ maxStringBytes && !(ms.any fun m => m.1 = key) && validateValue depth v &&
      validateMembers depth ms
end

/-- Keys that are short enough and pairwise different. -/
def validKeys : List Bytes → Bool
  | [] => true
  | key :: keys => key.length ≤ maxStringBytes && !(keys.any fun k => k = key) && validKeys keys

/-- `cubicle_json_parse` on a C string. -/
def parse (json : Bytes) : Option Json :=
  if maxDocumentBytes < (cstr json).length then none
  else match readDocument (cstr json) with
    | none => none
    | some v => if validateValue 1 v then some v else none

def fragmentValid (json : Bytes) : Bool := (parse json).isSome

abbrev Members := List (Bytes × Json)

/-- The first member with the given key. -/
def objectGet (object : Members) (field : Bytes) : Option Json :=
  (object.find? fun m => m.1 = field).map Prod.snd

/-- `cubicle_json_get_string`: the C string of the value, when it fits a buffer of `size`. -/
def getString (object : Members) (field : Bytes) (size : ℕ) : Option Bytes :=
  match objectGet object field with
  | some (.str s) => if (cstr s).length < size then some (cstr s) else none
  | _ => none

def getU64 (object : Members) (field : Bytes) : Option ℕ :=
  match objectGet object field with
  | some (.uint n) => some n
  | _ => none

/-- The bits of an unsigned value are taken as a signed one. -/
def getI64 (object : Members) (field : Bytes) : Option ℤ :=
  match objectGet object field with
  | some (.uint n) => some (if n < 2 ^ 63 then n else n - 2 ^ 64)
  | some (.sint z) => some z
  | _ => none

def getBool (object : Members) (field : Bytes) : Option Bool :=
  match objectGet object field with
  | some (.bool b) => some b
  | _ => none

def getObject (object : Members) (field : Bytes) : Option Members :=
  match objectGet object field with
  | some (.obj ms) => some ms
  | _ => none

/-- `cubicle_json_get_required_string`: the whole value must fit; a reader of the buffer then
sees its C string. -/
def getRequiredString (object : Members) (field : Bytes) (size : ℕ) : Option Bytes :=
  match objectGet object field with
  | some (.str s) => if s.length < size then some (cstr s) else none
  | _ => none

/-- An absent field is no error; null, another type or a value that does not fit is one. -/
def getOptionalString (object : Members) (field : Bytes) (size : ℕ) : Option (Option Bytes) :=
  match objectGet object field with
  | none => some none
  | some (.str s) => if s.length < size then some (some (cstr s)) else none
  | some _ => none

def getOptionalU64 (object : Members) (field : Bytes) : Option (Option ℕ) :=
  match objectGet object field with
  | none => some none
  | some (.uint n) => some (some n)
  | some _ => none

def getOptionalBool (object : Members) (field : Bytes) : Option (Option Bool) :=
  match objectGet object field with
  | none => some none
  | some (.bool b) => some (some b)
  | some _ => none

def getRequiredArray (object : Members) (field : Bytes) : Option (List Json) :=
  match objectGet object field with
  | some (.arr items) => some items
  | _ => none

def Json.isObj : Json → Bool
  | .obj _ => true
  | _ => false

def topLevelFieldsAllowed (allowed : List Bytes) (object : Members) : Bool :=
  object.all fun m => allowed.contains (cstr m.1) &&
    (cstr m.1 != ascii "extensions" || Json.isObj m.2)

def getRequiredU32 (object : Members) (field : Bytes) : Option ℕ :=
  match getU64 object field with
  | some n => if n < 2 ^ 32 then some n else none
  | none => none

structure RequestEnvelope where
  requestId : Bytes
  sessionId : Bytes
  method : Bytes
  params : Members

def requestFields : List Bytes :=
  [ascii "protocol_major", ascii "protocol_minor", ascii "request_id", ascii "session_id",
    ascii "method", ascii "params", ascii "extensions"]

def decodeRequest (json : Bytes) : Option RequestEnvelope :=
  match parse json with
  | some (.obj root) =>
    if topLevelFieldsAllowed requestFields root then do
      let major ← getRequiredU32 root (ascii "protocol_major")
      let minor ← getRequiredU32 root (ascii "protocol_minor")
      let requestId ← getString root (ascii "request_id") 64
      let method ← getString root (ascii "method") 128
      let sessionId := (getString root (ascii "session_id") 64).getD []
      if major ≠ 0 ∨ 1 < minor ∨ requestId = [] ∨ method = [] ∨ 128 < method.length then none
      else do
        let params ← getObject root (ascii "params")
        return { requestId, sessionId, method, params }
    else none
  | _ => none

inductive ResponseBody
  | result (v : Json)
  | error (object : Members)

def responseFields : List Bytes :=
  [ascii "request_id", ascii "success", ascii "result", ascii "error", ascii "extensions"]

def decodeResponse (json expectedRequestId : Bytes) : Option ResponseBody :=
  match parse json with
  | some (.obj root) =>
    if topLevelFieldsAllowed responseFields root then do
      let requestId ← getString root (ascii "request_id") 64
      let success ← getBool root (ascii "success")
      if requestId ≠ expectedRequestId then none
      else
        match success, objectGet root (ascii "result"), getObject root (ascii "error") with
        | true, some v, none => some (.result v)
        | false, none, some e => some (.error e)
        | _, _, _ => none
    else none
  | _ => none

structure RpcError where
  code : ErrorCode
  message : Bytes
  retryable : Bool
  systemErrno : ℤ

def decodeErrorValue (object : Members) : Option RpcError := do
  let codeName ← getString object (ascii "code") 64
  let message ← getString object (ascii "message") 256
  let retryable ← getBool object (ascii "retryable")
  let systemErrno ← getI64 object (ascii "system_errno")
  if systemErrno < -2 ^ 31 ∨ 2 ^ 31 - 1 < systemErrno then none
  else return { code := errorCodeFromName codeName, message, retryable, systemErrno }

/-- `append_json_string`: the escaped text has to fit a buffer of its own. -/
def appendJsonString (size : ℕ) (used value : Bytes) : Option Bytes := do
  let escaped ← jsonEscape 1024 value
  appendAll size used [[0x22], escaped, [0x22]]

def rpcRequest (size : ℕ) (requestId sessionId method paramsJson : Bytes) : Option Bytes :=
  if fragmentValid paramsJson then do
    let used ← appendRaw size []
      (ascii "\x7b\"protocol_major\":0,\"protocol_minor\":1,\"request_id\":")
    let used ← appendJsonString size used requestId
    let used ← appendRaw size used (ascii ",\"session_id\":")
    let used ← appendJsonString size used sessionId
    let used ← appendRaw size used (ascii ",\"method\":")
    let used ← appendJsonString size used method
    let used ← appendRaw size used (ascii ",\"params\":")
    let used ← appendRaw size used (cstr paramsJson)
    appendRaw size used (ascii "\x7d")
  else none

def rpcSuccess (size : ℕ) (requestId resultJson : Bytes) : Option Bytes :=
  if fragmentValid resultJson then do
    let used ← appendRaw size [] (ascii "\x7b\"request_id\":")
    let used ← appendJsonString size used requestId
    let used ← appendRaw size used (ascii ",\"success\":true,\"result\":")
    let used ← appendRaw size used (cstr resultJson)
    appendRaw size used (ascii "\x7d")
  else none

/-- The text of an error envelope: the request id is printed as it is. -/
def errorText (requestId : Bytes) (code : ErrorCode) (escaped : Bytes) (retryable : Bool)
    (systemErrno : Int32) : Bytes :=
  ascii "\x7b\"request_id\":\"" ++ cstr requestId ++
    ascii "\",\"success\":false,\"error\":\x7b\"code\":\"" ++ code.name ++
    ascii "\",\"message\":\"" ++ escaped ++ ascii "\",\"retryable\":" ++
    ascii (if retryable then "true" else "false") ++ ascii ",\"system_errno\":" ++
    decInt systemErrno.toInt ++ ascii "\x7d\x7d"

/-- Only the message is escaped. -/
def rpcError (size : ℕ) (requestId : Bytes) (code : ErrorCode) (message : Bytes)
    (retryable : Bool) (systemErrno : Int32) : Option Bytes := do
  let escaped ← jsonEscape 512 message
  let text := errorText requestId code escaped retryable systemErrno
  if size ≤ text.length then none else some text

theorem validateMembers_eq (depth : ℕ) (ms : Members) :
    validateMembers depth ms =
      (validKeys (ms.map Prod.fst) && ms.all fun m => validateValue depth m.2) := by
  induction ms with
  | nil => rfl
  | cons m ms ih =>
    rw [validateMembers, ih, map_cons, validKeys, all_cons, any_map]
    simp only [Function.comp_def]
    cases validateValue depth m.2 <;> simp [Bool.and_assoc]

theorem intJson_valid (depth : ℕ) (z : ℤ) :
    validateValue depth (intJson z) = decide (depth ≤ maxDepth) := by
  cases z <;> simp [intJson, validateValue]

theorem errorCode_name_length_le (code : ErrorCode) : code.name.length ≤ 22 := by
  cases code <;> decide

theorem decInt_int32_length_le (z : Int32) : (decInt z.toInt).length ≤ 11 := by
  have hlow := z.le_toInt
  have hhigh := z.toInt_lt
  exact decInt_length_le (by decide) (by omega)

variable {t json : Bytes} {v : Json} {size : ℕ}

theorem zero_notMem_spelled (h : Spells t v) : 0 ∉ t :=
  (JsonUtf8.text_of_readDocument (readDocument_spelled h)).2

theorem parse_spelled (h : Spells t v) (hlen : t.length ≤ maxDocumentBytes) :
    parse t = if validateValue 1 v then some v else none := by
  rw [parse, cstr_eq_self (zero_notMem_spelled h), if_neg (by omega), readDocument_spelled h]

theorem text_of_parse (h : parse t = some v) : Text (cstr t) := by
  unfold parse at h
  split_ifs at h
  split at h
  · simp at h
  · rename_i w hw
    exact (JsonUtf8.text_of_readDocument hw).1

theorem appendJsonString_eq (used value : Bytes) (hu : used.length < size) :
    appendJsonString size used value =
      if 1024 ≤ (escapeText (cstr value)).length ∨
          size ≤ used.length + (escapeText (cstr value)).length + 2 then none
      else some (used ++ 0x22 :: escapeText (cstr value) ++ [0x22]) := by
  unfold appendJsonString
  rw [jsonEscape_eq (by decide)]
  by_cases h : 1024 ≤ (escapeText (cstr value)).length
  · rw [if_pos h, if_pos (.inl h)]
    rfl
  · rw [if_neg h]
    simp only [Option.bind_eq_bind, Option.bind_some]
    rw [appendAll_eq used _ hu]
    simp only [flatten_cons, flatten_nil, length_append, length_cons,
      length_nil, append_nil]
    by_cases h2 : size ≤ used.length + (escapeText (cstr value)).length + 2
    · rw [if_pos (by omega), if_pos (.inr h2)]
    · rw [if_neg (by omega), if_neg (by omega)]
      simp

def successText (requestId resultJson : Bytes) : Bytes :=
  ascii "\x7b\"request_id\":\"" ++ escapeText (cstr requestId) ++
    ascii "\",\"success\":true,\"result\":" ++ cstr resultJson ++ ascii "\x7d"

theorem successText_length (requestId resultJson : Bytes) :
    (successText requestId resultJson).length =
      (escapeText (cstr requestId)).length + (cstr resultJson).length + 42 := by
  simp [successText, ascii]
  omega

/-- A success envelope is printed when the result is a valid fragment and everything fits. -/
theorem rpcSuccess_eq (requestId resultJson : Bytes) (hsize : 42 < size) :
    rpcSuccess size requestId resultJson =
      if fragmentValid resultJson = true ∧ (escapeText (cstr requestId)).length < 1024 ∧
          (successText requestId resultJson).length < size then
        some (successText requestId resultJson)
      else none := by
  by_cases hfrag : fragmentValid resultJson = true
  swap
  · rw [rpcSuccess, if_neg hfrag, if_neg fun h => hfrag h.1]
  have hl1 : (ascii "\x7b\"request_id\":").length = 14 := by decide
  have hlen := successText_length requestId resultJson
  -- the object's first piece always fits; the rest is one string and three raw pieces
  have hchain : rpcSuccess size requestId resultJson =
      (appendJsonString size (ascii "\x7b\"request_id\":") requestId).bind fun used =>
        appendAll size used
          [ascii ",\"success\":true,\"result\":", cstr resultJson, ascii "\x7d"] := by
    rw [rpcSuccess, if_pos hfrag, appendRaw, length_nil, hl1, if_neg (by omega)]
    simp [appendAll]
  rw [hchain, appendJsonString_eq _ _ (by omega), hl1]
  by_cases hesc : 1024 ≤ (escapeText (cstr requestId)).length ∨
      size ≤ 14 + (escapeText (cstr requestId)).length + 2
  · rw [if_pos hesc, if_neg (by omega)]
    rfl
  rw [if_neg hesc, Option.bind_some, appendAll_eq _ _ (by
    simp only [length_append, length_cons, length_nil, hl1]; omega)]
  have htotal : (ascii "\x7b\"request_id\":" ++ 0x22 :: escapeText (cstr requestId) ++ [0x22]) ++
      [ascii ",\"success\":true,\"result\":", cstr resultJson, ascii "\x7d"].flatten =
      successText requestId resultJson := by
    simp [successText, ascii]
  rw [← length_append, htotal]
  by_cases hfit : (successText requestId resultJson).length < size
  · rw [if_neg (by omega), if_pos ⟨hfrag, by omega, hfit⟩]
  · rw [if_pos (by omega), if_neg fun h => hfit h.2.2]

theorem getString_length {object : Members} {field s : Bytes}
    (h : getString object field size = some s) : s.length < size := by
  unfold getString at h
  split at h
  · split_ifs at h with hlen
    rw [← Option.some.inj h]
    exact hlen
  · cases h

/-- A decoded request comes from the fields of a parsed object. -/
theorem decodeRequest_fields {envelope : RequestEnvelope} (h : decodeRequest json = some envelope) :
    ∃ root, parse json = some (.obj root) ∧
      getString root (ascii "request_id") 64 = some envelope.requestId ∧
      getString root (ascii "method") 128 = some envelope.method ∧
      (getString root (ascii "session_id") 64).getD [] = envelope.sessionId ∧
      envelope.requestId ≠ [] ∧ envelope.method ≠ [] := by
  unfold decodeRequest at h
  split at h
  · rename_i root hparse
    split_ifs at h
    simp only [Option.bind_eq_bind, Option.bind_eq_some_iff] at h
    obtain ⟨major, -, minor, -, requestId, hid, method, hmethod, hrest⟩ := h
    split_ifs at hrest with hbad
    simp only [Option.bind_eq_some_iff] at hrest
    obtain ⟨params, -, heq⟩ := hrest
    obtain rfl := Option.some.inj heq
    exact ⟨root, hparse, hid, hmethod, rfl, fun hnil => hbad (.inr (.inr (.inl hnil))),
      fun hnil => hbad (.inr (.inr (.inr (.inl hnil))))⟩
  · cases h

theorem decodeResponse_fields {expected : Bytes} {body : ResponseBody}
    (h : decodeResponse json expected = some body) :
    ∃ root, parse json = some (.obj root) ∧
      getString root (ascii "request_id") 64 = some expected := by
  unfold decodeResponse at h
  split at h
  · rename_i root hparse
    split_ifs at h
    simp only [Option.bind_eq_bind, Option.bind_eq_some_iff] at h
    obtain ⟨requestId, hid, success, -, hrest⟩ := h
    split_ifs at hrest with hne
    exact ⟨root, hparse, by rw [hid, not_not.mp hne]⟩
  · cases h

end Cubicle.RpcEnvelope
