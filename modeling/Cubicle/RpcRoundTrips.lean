import Cubicle.RpcMessages
import Cubicle.JsonLimits
import Cubicle.JsonStrings

/-!
# Which messages survive the wire

The printers of requests and responses accept more than the decoders do: longer ids, names that are
not UTF-8, and values one level deeper than fit into an envelope. For every message a printer
produces, this module says exactly when its decoder gives back what was printed.
-/

namespace Cubicle.RpcRoundTrips
open List
open ByteText Utf8Sequences JsonText JsonSpelling JsonExtents JsonEncoding JsonLimits RpcEnvelope

variable {d e size close fuel : ℕ} {v u : Json}
  {json s rest requestId sessionId method paramsJson resultJson w : Bytes} {negative : Bool}
  {root : Members}

theorem nodeAt_succ (h : NodeAt d v e u) : NodeAt (d + 1) v (e + 1) u := by
  induction h with
  | root d v => exact .root (d + 1) v
  | item hv _ ih => exact .item hv ih
  | member hv _ ih => exact .member hv ih

theorem nodeAt_of_succ (h : NodeAt (d + 1) v e u) : ∃ e', e = e' + 1 ∧ NodeAt d v e' u := by
  generalize hd : d + 1 = d' at h
  induction h generalizing d with
  | root d' v => exact ⟨d, hd.symm, .root d v⟩
  | item hv _ ih =>
    obtain ⟨e', rfl, h'⟩ := ih (congrArg (· + 1) hd)
    exact ⟨e', rfl, .item hv h'⟩
  | member hv _ ih =>
    obtain ⟨e', rfl, h'⟩ := ih (congrArg (· + 1) hd)
    exact ⟨e', rfl, .member hv h'⟩

/-- Inside an envelope a document may be one level less deep. -/
def Shallow (v : Json) : Prop := ∀ e u, NodeAt 1 v e u → e < maxDepth

theorem validateValue_two_iff (h : Within 1 v) : validateValue 2 v = true ↔ Shallow v := by
  rw [validateValue_iff]
  constructor
  · intro h2 e u hnode
    exact (h2 (e + 1) u (nodeAt_succ hnode)).1
  · intro hshallow e u hnode
    obtain ⟨e', rfl, hnode'⟩ := nodeAt_of_succ hnode
    exact ⟨hshallow e' u hnode', (h e' u hnode').2⟩

theorem parse_fits (h : parse json = some v) :
    (cstr json).length ≤ maxDocumentBytes ∧ validateValue 1 v = true := by
  have hparse := (parse_eq_some_iff json v).mp h
  exact ⟨hparse.1, (validateValue_iff v 1).mpr hparse.2.2⟩

theorem cstr_requestText (requestId sessionId method paramsJson : Bytes) :
    cstr (requestText requestId sessionId method paramsJson) =
      requestText requestId sessionId method paramsJson := by
  apply cstr_eq_self
  simp only [requestText, mem_append, not_or, zero_notMem_escapeText, zero_notMem_cstr,
    not_false_eq_true, and_true]
  decide

theorem cstr_successText (requestId resultJson : Bytes) :
    cstr (successText requestId resultJson) = successText requestId resultJson := by
  apply cstr_eq_self
  simp only [successText, mem_append, not_or, zero_notMem_escapeText, zero_notMem_cstr,
    not_false_eq_true, and_true]
  decide

/-- A string between quotes in a text is a text. -/
theorem text_quoted {front : Bytes} (hfront : Text front) (h : Text (front ++ (s ++
    0x22 :: rest))) :
    Text s ∧ Text rest :=
  text_split_ascii (by decide) (text_of_append h hfront)

theorem text_of_requestText (h : Text (requestText requestId sessionId method paramsJson)) :
    Text (cstr requestId) ∧ Text (cstr sessionId) ∧ Text (cstr method) := by
  have hsplit : requestText requestId sessionId method paramsJson =
      ascii "\x7b\"protocol_major\":0,\"protocol_minor\":1,\"request_id\":\"" ++
        (escapeText (cstr requestId) ++ 0x22 :: (ascii ",\"session_id\":\"" ++
          (escapeText (cstr sessionId) ++ 0x22 :: (ascii ",\"method\":\"" ++
            (escapeText (cstr method) ++ 0x22 :: (ascii ",\"params\":" ++
              (cstr paramsJson ++ ascii "\x7d"))))))) := by
    simp [requestText, ascii]
  rw [hsplit] at h
  obtain ⟨hid, h⟩ := text_quoted (text_ascii (by simp [ascii])) h
  obtain ⟨hsession, h⟩ := text_quoted (text_ascii (by simp [ascii])) h
  obtain ⟨hmethod, -⟩ := text_quoted (text_ascii (by simp [ascii])) h
  rw [text_escapeText_iff] at hid hsession hmethod
  exact ⟨hid, hsession, hmethod⟩

theorem text_of_successText (h : Text (successText requestId resultJson)) :
    Text (cstr requestId) := by
  have hsplit : successText requestId resultJson =
      ascii "\x7b\"request_id\":\"" ++ (escapeText (cstr requestId) ++
        0x22 :: (ascii ",\"success\":true,\"result\":" ++ (cstr resultJson ++ ascii "\x7d"))) := by
    simp [successText, ascii]
  rw [hsplit] at h
  exact (text_escapeText_iff _).mp (text_quoted (text_ascii (by simp [ascii])) h).1

/-- What a request has to be for its decoder: UTF-8, within the decoder's buffers and the depth and
size of a document. -/
structure RequestFits (requestId sessionId method paramsJson : Bytes) (params : Members) :
    Prop where
  text_id : Text (cstr requestId)
  text_session : Text (cstr sessionId)
  text_method : Text (cstr method)
  id_length : 0 < (cstr requestId).length ∧ (cstr requestId).length < 64
  session_length : (cstr sessionId).length < 64
  method_length : 0 < (cstr method).length ∧ (cstr method).length < 128
  shallow : Shallow (.obj params)
  short : (escapeText (cstr requestId)).length + (escapeText (cstr sessionId)).length +
    (escapeText (cstr method)).length + (cstr paramsJson).length + 93 ≤ maxDocumentBytes

theorem requestText_length (requestId sessionId method paramsJson : Bytes) :
    (requestText requestId sessionId method paramsJson).length =
      (escapeText (cstr requestId)).length + (escapeText (cstr sessionId)).length +
        (escapeText (cstr method)).length + (cstr paramsJson).length + 93 := by
  simp [requestText, ascii]
  omega

theorem decodeRequest_requestText_iff {params : Members}
    (hparams : parse paramsJson = some (.obj params)) :
    decodeRequest (requestText requestId sessionId method paramsJson) =
        some ⟨cstr requestId, cstr sessionId, cstr method, params⟩ ↔
      RequestFits requestId sessionId method paramsJson params := by
  obtain ⟨-, hread, hwithin⟩ := (parse_eq_some_iff _ _).mp hparams
  have hpadded := spellsPadded_of_readDocument hread
  have hlength := requestText_length requestId sessionId method paramsJson
  constructor
  · intro h
    obtain ⟨root, hparse, hid, hmethod, hsession, hidNe, hmethodNe⟩ := decodeRequest_fields h
    dsimp only at hid hmethod hsession hidNe hmethodNe
    have htext := text_of_parse hparse
    have hfits := (parse_fits hparse).1
    rw [cstr_requestText] at htext hfits
    obtain ⟨textId, textSession, textMethod⟩ := text_of_requestText htext
    -- The text is now known to spell the object of its fields, so that object was parsed.
    rw [parse_spelled (spells_requestText textId textSession textMethod hpadded) hfits] at hparse
    split_ifs at hparse with hvalid
    obtain rfl := Json.obj.inj (Option.some.inj hparse)
    have hdeep : validateValue 2 (.obj params) = true := by
      rw [validateValue, validateMembers_eq] at hvalid
      simp only [requestMembers, all_cons, Bool.and_eq_true] at hvalid
      exact hvalid.2.2.2.2.2.2.2.1
    have hsessionLength : (cstr sessionId).length < 64 := by
      -- A session id that does not fit would have been decoded as no session.
      cases hget : getString (requestMembers (cstr requestId) (cstr sessionId) (cstr method)
          (.obj params)) (ascii "session_id") 64 with
      | none =>
        rw [hget, Option.getD_none] at hsession
        rw [← hsession]
        decide
      | some session =>
        rw [hget, Option.getD_some] at hsession
        exact hsession ▸ getString_length hget
    exact ⟨textId, textSession, textMethod, ⟨length_pos_iff.mpr hidNe, getString_length hid⟩,
      hsessionLength, ⟨length_pos_iff.mpr hmethodNe, getString_length hmethod⟩,
      (validateValue_two_iff hwithin).mp hdeep, by omega⟩
  · intro h
    exact decodeRequest_requestText h.text_id h.text_session h.text_method hpadded
      ((validateValue_two_iff hwithin).mpr h.shallow) (by have := h.short; omega) h.id_length.2
      (length_pos_iff.mp h.id_length.1) h.session_length h.method_length.2
      (length_pos_iff.mp h.method_length.1)

/-- What the parts of a success have to be for its decoder. -/
structure SuccessFits (requestId resultJson : Bytes) (result : Json) : Prop where
  text_id : Text (cstr requestId)
  id_length : (cstr requestId).length < 64
  shallow : Shallow result
  short : (escapeText (cstr requestId)).length + (cstr resultJson).length + 42 ≤ maxDocumentBytes

theorem decodeResponse_successText_iff {result : Json} (hresult : parse resultJson = some result) :
    decodeResponse (successText requestId resultJson) (cstr requestId) = some (.result result) ↔
      SuccessFits requestId resultJson result := by
  obtain ⟨-, hread, hwithin⟩ := (parse_eq_some_iff _ _).mp hresult
  have hpadded := spellsPadded_of_readDocument hread
  have hlength := successText_length requestId resultJson
  constructor
  · intro h
    obtain ⟨root, hparse, hid⟩ := decodeResponse_fields h
    have htext := text_of_parse hparse
    have hfits := (parse_fits hparse).1
    rw [cstr_successText] at htext hfits
    have textId := text_of_successText htext
    rw [parse_spelled (spells_successText textId hpadded) hfits] at hparse
    split_ifs at hparse with hvalid
    have hdeep : validateValue 2 result = true := by
      rw [validateValue, validateMembers_eq] at hvalid
      simp only [successMembers, all_cons, Bool.and_eq_true] at hvalid
      exact hvalid.2.2.2.2.1
    exact ⟨textId, getString_length hid, (validateValue_two_iff hwithin).mp hdeep, by omega⟩
  · intro h
    exact decodeResponse_successText h.text_id h.id_length hpadded
      ((validateValue_two_iff hwithin).mpr h.shallow) (by have := h.short; omega)

theorem rpcSuccess_some {text : Bytes} (h : rpcSuccess size requestId resultJson = some text) :
    text = successText requestId resultJson := by
  unfold rpcSuccess at h
  split_ifs at h
  simp only [Option.bind_eq_bind, Option.bind_eq_some_iff] at h
  obtain ⟨_, h1, _, h2, _, h3, _, h4, h5⟩ := h
  obtain ⟨rfl, l1⟩ := appendRaw_some h1
  obtain ⟨rfl, l2⟩ := appendJsonString_some h2 l1
  obtain ⟨rfl, l3⟩ := appendRaw_some h3
  obtain ⟨rfl, l4⟩ := appendRaw_some h4
  obtain ⟨rfl, l5⟩ := appendRaw_some h5
  simp [successText, ascii]

/-- A printed request is decoded to what it was printed from exactly when it fits the decoder, and
so is a printed success. -/
theorem messages_round_trip_iff (size : ℕ)
    (requestId sessionId method paramsJson resultJson request response : Bytes) (params : Members)
    (result : Json) :
    (rpcRequest size requestId sessionId method paramsJson = some request →
      parse paramsJson = some (.obj params) →
      (decodeRequest request = some ⟨cstr requestId, cstr sessionId, cstr method, params⟩ ↔
        RequestFits requestId sessionId method paramsJson params)) ∧
    (rpcSuccess size requestId resultJson = some response →
      parse resultJson = some result →
      (decodeResponse response (cstr requestId) = some (.result result) ↔
        SuccessFits requestId resultJson result)) := by
  constructor
  · intro h hparams
    obtain ⟨rfl, -⟩ := rpcRequest_some h
    exact decodeRequest_requestText_iff hparams
  · intro h hresult
    obtain rfl := rpcSuccess_some h
    exact decodeResponse_successText_iff hresult

theorem shallow_empty : Shallow (.obj []) := by
  intro e u hnode
  cases hnode with
  | root => decide
  | member hv _ => cases hv

theorem parse_empty : parse (ascii "\x7b\x7d") = some (.obj []) := by
  rfl

/-- A small request and its answer. -/
theorem small_messages_round_trip :
    decodeRequest (requestText (ascii "r") (ascii "s") (ascii "m") (ascii "\x7b\x7d")) =
        some ⟨cstr (ascii "r"), cstr (ascii "s"), cstr (ascii "m"), []⟩ ∧
      decodeResponse (successText (ascii "r") (ascii "\x7b\x7d")) (cstr (ascii "r")) =
        some (.result (.obj [])) := by
  have hr : Text (cstr (ascii "r")) := text_ascii (by simp [ascii, cstr])
  have hs : Text (cstr (ascii "s")) := text_ascii (by simp [ascii, cstr])
  have hm : Text (cstr (ascii "m")) := text_ascii (by simp [ascii, cstr])
  obtain ⟨hrequest, hsuccess⟩ := messages_round_trip_iff 512 (ascii "r") (ascii "s") (ascii "m")
    (ascii "\x7b\x7d") (ascii "\x7b\x7d")
    (requestText (ascii "r") (ascii "s") (ascii "m") (ascii "\x7b\x7d"))
    (successText (ascii "r") (ascii "\x7b\x7d")) [] (.obj [])
  constructor
  · refine (hrequest (by rfl) parse_empty).mpr ?_
    exact ⟨hr, hs, hm, by decide, by decide, by decide, shallow_empty, by decide⟩
  · refine (hsuccess (by rfl) parse_empty).mpr ?_
    exact ⟨hr, by decide, shallow_empty, by decide⟩

/-- A session id of 64 bytes is printed, and decoded as no session. -/
theorem long_session_id_is_lost :
    rpcRequest 512 (ascii "r") (List.replicate 64 0x61) (ascii "m") (ascii "\x7b\x7d") =
        some (requestText (ascii "r") (List.replicate 64 0x61) (ascii "m") (ascii "\x7b\x7d")) ∧
      (decodeRequest (requestText (ascii "r") (List.replicate 64 0x61) (ascii "m")
        (ascii "\x7b\x7d"))).map RequestEnvelope.sessionId = some [] := by
  constructor <;> decide +kernel

theorem text_of_objectGet {field : Bytes} (h : readDocument s = some (.obj root))
    (hget : objectGet root field = some (.str w)) : Text w := by
  obtain ⟨m, hfind, hm⟩ := Option.map_eq_some_iff.mp hget
  exact JsonStrings.text_of_hasString h (.obj (mem_of_find?_eq_some hfind) (hm ▸ .str))

-- The id of the request is printed into an error as it is, without escapes.
/-- A document that starts with the field for an id has it as its first member. -/
theorem readDocument_first_member
    (h : readDocument (ascii "\x7b\"request_id\":\"" ++ w) = some (.obj root)) :
    ∃ d rest ms, readString w = some (d, rest) ∧
      root = (ascii "request_id", .str d) :: ms := by
  have htext : ascii "\x7b\"request_id\":\"" ++ w =
      0x7b :: 0x22 :: (ascii "request_id" ++ 0x22 :: 0x3a :: 0x22 :: w) := by simp [ascii]
  have hplain : (ascii "request_id").all (fun b => decide (Plain b)) = true := by decide
  have hkey := readString_spelled
    (spellsString_plain (s := ascii "request_id") (by simpa using hplain)) (0x3a :: 0x22 :: w)
  rw [htext] at h
  unfold readDocument at h
  rw [skipSpace_cons (by decide), length_cons, readValue, if_pos (by decide), readSequence,
    skipSpace_cons (by decide)] at h
  dsimp only at h
  rw [if_neg (by decide), length_cons, readItems, skipSpace_cons (by decide), readMember,
    if_pos (by decide), hkey] at h
  dsimp only at h
  rw [skipSpace_cons (by decide)] at h
  dsimp only at h
  rw [if_pos (by decide), skipSpace_cons (by decide), readValue, if_neg (by decide),
    if_neg (by decide), if_pos (by decide)] at h
  cases hvalue : readString w with
  | none => simp [hvalue] at h
  | some p =>
    obtain ⟨d, rest⟩ := p
    refine ⟨d, rest, root.tail, rfl, ?_⟩
    rw [hvalue] at h
    simp only [Option.map_some] at h
    split at h
    · cases h
    · rename_i v r hread
      split_ifs at h
      obtain rfl := Option.some.inj h
      obtain ⟨⟨ms, r'⟩, hitems, heq⟩ := Option.map_eq_some_iff.mp hread
      obtain ⟨rfl, -⟩ : ms = root ∧ _ := by simpa using heq
      split at hitems
      · cases hitems
      · split_ifs at hitems
        · obtain ⟨rfl, -⟩ : _ = ms ∧ _ := by simpa using hitems
          rfl
        · obtain ⟨q, -, heq'⟩ := Option.map_eq_some_iff.mp hitems
          obtain ⟨rfl, -⟩ : _ = ms ∧ _ := by simpa using heq'
          rfl

theorem rpcError_text {message text : Bytes} {code : ErrorCode} {retryable : Bool}
    {systemErrno : Int32}
    (h : rpcError size requestId code message retryable systemErrno = some text) :
    text = errorText requestId code (escapeText (cstr message)) retryable systemErrno := by
  unfold rpcError at h
  rw [jsonEscape_eq (by decide)] at h
  split_ifs at h with hlong
  · cases h
  · simp only [Option.bind_eq_bind, Option.bind_some] at h
    split_ifs at h
    exact (Option.some.inj h).symm

theorem text_cstr (h : Text s) : Text (cstr s) := by
  by_cases hzero : 0 ∈ s
  · obtain ⟨u, v, rfl, hu⟩ := eq_append_cons_of_mem hzero
    have hkeep : ∀ b ∈ u, decide (b ≠ 0) = true := fun b hb => by
      rw [decide_eq_true_eq]
      rintro rfl
      exact hu hb
    have hcut : cstr (u ++ 0 :: v) = u := by
      rw [cstr, takeWhile_append_of_pos hkeep]
      simp
    rw [hcut]
    exact (text_split_ascii (by decide) h).1
  · rwa [cstr_eq_self hzero]

/-- The id of an accepted request is UTF-8 without NUL, of 1 to 63 bytes. -/
theorem decodeRequest_id {envelope : RequestEnvelope} (h : decodeRequest json = some envelope) :
    Text envelope.requestId ∧ 0 ∉ envelope.requestId ∧ envelope.requestId.length < 64 := by
  obtain ⟨root, hparse, hid, -⟩ := decodeRequest_fields h
  have hlength := getString_length hid
  unfold getString at hid
  split at hid
  · rename_i s hget
    split_ifs at hid
    rw [← Option.some.inj hid] at hlength ⊢
    have htext := text_of_objectGet ((parse_eq_some_iff _ _).mp hparse).2.1 hget
    exact ⟨text_cstr htext, zero_notMem_cstr s, hlength⟩
  · cases hid

/-- A text without special bytes is escaped to itself. -/
theorem escapeText_unescaped (h : ∀ b ∈ s, Unescaped b) : escapeText s = s := by
  induction s with
  | nil => rfl
  | cons b t ih =>
    obtain ⟨hcontrol, hquote, hslash⟩ := h b (by simp)
    have hb : escapedByte b = [b] := by
      have hshort : shortEscape b = none := by
        unfold shortEscape
        split_ifs <;> first | omega | rfl
      rw [escapedByte, hshort]
      exact if_neg (by omega)
    rw [escapeText, flatMap_cons, hb, ← escapeText, ih fun c hc => h c (by simp [hc])]
    rfl

theorem errorText_split (requestId : Bytes) (code : ErrorCode) (escaped : Bytes)
    (retryable : Bool) (systemErrno : Int32) :
    errorText requestId code escaped retryable systemErrno =
      ascii "\x7b\"request_id\":\"" ++ (cstr requestId ++ 0x22 :: 0x2c :: 0x22 ::
        (ascii "success\":false,\"error\":\x7b\"code\":\"" ++ (code.name ++ 0x22 ::
          (ascii ",\"message\":\"" ++ (escaped ++ 0x22 :: (ascii ",\"retryable\":" ++
            (ascii (if retryable then "true" else "false") ++ (ascii ",\"system_errno\":" ++
              (decInt systemErrno.toInt ++ ascii "\x7d\x7d"))))))))) := by
  simp [errorText, ascii]

theorem zero_notMem_errorText (requestId message : Bytes) (code : ErrorCode) (retryable : Bool)
    (systemErrno : Int32) :
    0 ∉ errorText requestId code (escapeText (cstr message)) retryable systemErrno := by
  have hname : 0 ∉ code.name := cstr_name code ▸ zero_notMem_cstr code.name
  have hbool : 0 ∉ ascii (if retryable then "true" else "false") := by cases retryable <;> decide
  have hint := zero_notMem_spelled (spells_int32 systemErrno)
  simp only [errorText, mem_append, not_or, zero_notMem_cstr, zero_notMem_escapeText, hname,
    hbool, hint, not_false_eq_true, and_true]
  decide

theorem decodeErrorValue_message {object : Members} {error : RpcError}
    (h : decodeErrorValue object = some error) : error.message.length < 256 := by
  unfold decodeErrorValue at h
  simp only [Option.bind_eq_bind, Option.bind_eq_some_iff] at h
  obtain ⟨codeName, -, message, hmessage, retryable, -, errno, -, hrest⟩ := h
  split_ifs at hrest
  obtain rfl := Option.some.inj hrest
  exact getString_length hmessage

/-- A printed error is decoded to what it was printed from exactly when the id needs no escapes and
the message is UTF-8 and fits its buffer. -/
theorem decode_errorText_iff (textId : Text requestId) (hzero : 0 ∉ requestId)
    (hlength : requestId.length < 64) (code : ErrorCode) (message : Bytes) (retryable : Bool)
    (systemErrno : Int32) :
    (∃ error, decodeResponse (errorText requestId code (escapeText (cstr message)) retryable
        systemErrno) requestId = some (.error error) ∧
        decodeErrorValue error = some ⟨code, cstr message, retryable, systemErrno.toInt⟩) ↔
      (∀ b ∈ requestId, Unescaped b) ∧ Text (cstr message) ∧ (cstr message).length < 256 := by
  have hcstr := cstr_eq_self hzero
  constructor
  · rintro ⟨error, hresponse, herror⟩
    obtain ⟨root, hparse, hid⟩ := decodeResponse_fields hresponse
    have htext := text_of_parse hparse
    have hread := ((parse_eq_some_iff _ _).mp hparse).2.1
    rw [cstr_eq_self (zero_notMem_errorText _ _ _ _ _), errorText_split, hcstr] at htext hread
    refine ⟨?_, ?_, ?_⟩
    · obtain ⟨d, rest, ms, hstring, rfl⟩ := readDocument_first_member hread
      refine unescaped_of_readString hstring ?_
      have hget : objectGet ((ascii "request_id", .str d) :: ms) (ascii "request_id") =
          some (.str d) := by simp [objectGet]
      unfold getString at hid
      rw [hget] at hid
      dsimp only at hid
      split_ifs at hid
      exact Option.some.inj hid
    · -- The message stands between quotes, after UTF-8 only.
      obtain ⟨-, hrest⟩ := text_quoted (text_ascii (by simp [ascii])) htext
      obtain ⟨-, hrest⟩ := text_quoted
        (show Text (0x2c :: 0x22 :: ascii "success\":false,\"error\":\x7b\"code\":\"") from
          text_ascii (by simp [ascii])) hrest
      exact (text_escapeText_iff _).mp (text_quoted (text_ascii (by simp [ascii])) hrest).1
    · exact decodeErrorValue_message herror
  · rintro ⟨hplain, htext, hshort⟩
    have hspells : SpellsString (cstr requestId) (cstr requestId) := by
      rw [hcstr]
      nth_rewrite 1 [← escapeText_unescaped hplain]
      exact spells_escapeText textId
    refine ⟨_, ?_, decodeErrorValue_errorMembers hshort code retryable systemErrno⟩
    rw [decodeResponse_errorText hspells (by rwa [hcstr]) htext hshort, if_pos hcstr]

/-- For every accepted id, an error that is printed is decoded to what it was printed from exactly
when the id needs no escapes and the message is UTF-8 of less than 256 bytes. -/
theorem error_round_trip_iff {json text message : Bytes} {envelope : RequestEnvelope} {size : ℕ}
    {code : ErrorCode} {retryable : Bool} {systemErrno : Int32}
    (hrequest : decodeRequest json = some envelope)
    (hprinted : rpcError size envelope.requestId code message retryable systemErrno = some text) :
    (∃ error, decodeResponse text envelope.requestId = some (.error error) ∧
        decodeErrorValue error = some ⟨code, cstr message, retryable, systemErrno.toInt⟩) ↔
      (∀ b ∈ envelope.requestId, Unescaped b) ∧ Text (cstr message) ∧
        (cstr message).length < 256 := by
  obtain ⟨textId, hzero, hlength⟩ := decodeRequest_id hrequest
  obtain rfl := rpcError_text hprinted
  exact decode_errorText_iff textId hzero hlength code message retryable systemErrno

theorem decode_idRequest (id : Bytes) (hascii : ∀ b ∈ cstr id, b.toNat < 0x80)
    (hid : cstr id ≠ []) (hlength : (cstr id).length < 64) :
    decodeRequest (requestText id [] (ascii "m") (ascii "\x7b\x7d")) =
      some ⟨cstr id, [], ascii "m", []⟩ := by
  have hescape := escapeText_length_le (cstr id)
  have hm : Text (cstr (ascii "m")) := text_ascii (by simp [ascii, cstr])
  refine (decodeRequest_requestText_iff parse_empty).mpr ⟨text_ascii hascii, .nil, hm,
    ⟨length_pos_iff.mpr hid, hlength⟩, by decide, by decide, shallow_empty, ?_⟩
  have hshort : (escapeText (cstr [])).length + (escapeText (cstr (ascii "m"))).length +
      (cstr (ascii "\x7b\x7d")).length = 3 := by decide
  unfold maxDocumentBytes
  omega

/-- The id `r` needs no escapes. -/
theorem plain_id_error_round_trip :
    ∃ error, decodeResponse (errorText (ascii "r") .invalidArgument (escapeText (ascii "no")) false 0)
        (ascii "r") = some (.error error) ∧
      decodeErrorValue error = some ⟨.invalidArgument, cstr (ascii "no"), false, 0⟩ := by
  have hrequest := decode_idRequest (ascii "r") (by simp [ascii, cstr]) (by decide) (by decide)
  have hprinted : rpcError 512 (cstr (ascii "r")) .invalidArgument (ascii "no") false 0 =
      some (errorText (ascii "r") .invalidArgument (escapeText (ascii "no")) false 0) := by
    decide +kernel
  have hid : cstr (ascii "r") = ascii "r" := by decide
  have hplain : (ascii "r").all (fun b => decide (Unescaped b)) = true := by decide
  rw [← hid]
  refine (error_round_trip_iff hrequest (hid ▸ hprinted)).mpr
    ⟨by rw [hid]; simpa using hplain, text_ascii (by simp [ascii, cstr]), by decide⟩

/-- An id that is one quote is accepted, and the error printed for it is not decoded. -/
theorem quote_id_error_is_refused :
    ∃ json envelope text, decodeRequest json = some envelope ∧
      rpcError 512 envelope.requestId .invalidArgument (ascii "no") false 0 = some text ∧
      ¬ ∃ error, decodeResponse text envelope.requestId = some (.error error) ∧
        decodeErrorValue error = some ⟨.invalidArgument, cstr (ascii "no"), false, 0⟩ := by
  have hquote : cstr (ascii "\"") = ascii "\"" := by decide
  refine ⟨_, _, errorText (ascii "\"") .invalidArgument (escapeText (cstr (ascii "no"))) false 0,
    decode_idRequest (ascii "\"") (by simp [ascii, cstr]) (by decide) (by decide),
    by decide +kernel, ?_⟩
  intro h
  rw [hquote] at h
  have hplain := ((decode_errorText_iff (text_ascii (by simp [ascii])) (by decide) (by decide)
    .invalidArgument (ascii "no") false 0).mp h).1
  exact absurd rfl (hplain 0x22 (by decide)).2.1

end Cubicle.RpcRoundTrips
