import Cubicle.ClientExchanges

/-!
# Writing through an attachment

`cubicle_attachment_write` sends one chunk of the caller's buffer as a `controller.write` request,
and `attachment_rpc` sends it again when the answer is a transport error: directly to the controller
up to three times, through the manager up to twice. What happens to each of these tries is up to the
environment: the request may not reach a controller, the answer may be lost, and the controller may
be able to write only a part.
-/

namespace Cubicle.Client
open List
open ByteText Utf8Sequences PartialWrites JsonText JsonSpelling JsonEncoding RpcEnvelope Controller

abbrev Failure := {code : ErrorCode // code ≠ .ok}

inductive Delivery
  | unreached (failure : Failure)
  /-- A controller handles it; its answer may be lost. -/
  | handled (peer : Peer) (lost : Option Failure)

/-- A request and the controller that handled it. -/
structure Exchange where
  peer : Peer
  request : Bytes

def Exchange.writes (e : Exchange) : Bytes := e.peer.writes e.request

/-- The code the client gets and the exchange that took place. A request the manager cannot pass
on has a code of its own. -/
def Delivery.outcome (silent : ErrorCode) (requestId : Bytes) (request : Except ErrorCode Bytes) :
    Delivery → ErrorCode × Option Exchange
  | .unreached failure => (failure, none)
  | .handled peer lost =>
    match request with
    | .error code => (code, none)
    | .ok request =>
      (match lost with
      | some failure => failure
      | none => peer.code silent requestId request, some ⟨peer, request⟩)

/-- What the client keeps between calls. An open connection to the controller counts the requests
made on it. -/
structure Attachment where
  relay : Bool
  persistentUnsupported : Bool
  channels : ℕ
  connection : Option ℕ

/-- A call in progress: the results to come of the calls that write nothing (connections,
attachments and grants), the fate of the requests to come, and the exchanges so far. -/
structure Call where
  attachment : Attachment
  calls : List (Option Failure)
  deliveries : List Delivery
  exchanges : List Exchange

namespace Call

def setConnection (σ : Call) (connection : Option ℕ) : Call :=
  { σ with attachment := { σ.attachment with connection := connection } }

def nextCall (σ : Call) : ErrorCode × Call :=
  match σ.calls with
  | [] => (.ok, σ)
  | none :: rest => (.ok, { σ with calls := rest })
  | some failure :: rest => (failure, { σ with calls := rest })

/-- Send a request; without any more deliveries the connection is broken. -/
def send (σ : Call) (silent : ErrorCode) (requestId : Bytes) (request : Except ErrorCode Bytes) :
    ErrorCode × Call :=
  match σ.deliveries with
  | [] => (.io, σ)
  | delivery :: rest =>
    let (code, exchange) := delivery.outcome silent requestId request
    (code, { σ with deliveries := rest, exchanges := σ.exchanges ++ exchange.toList })

end Call

def requestIdOf (number : ℕ) : Bytes := ascii "req-" ++ dec (number % 2 ^ 64)

/-- The request `rpc_call` builds. -/
def directRequest (number : ℕ) (method params : Bytes) : Option Bytes :=
  if fragmentValid params then
    rpcRequest ((cstr params).length + method.length + (requestIdOf number).length + 256)
      (requestIdOf number) (ascii "local-session") method params
  else none

def relayId : Bytes := ascii "relay-1"

def apiMaxFrame : ℕ := 65536

/-- The request the manager makes of the parameters it is to pass on. -/
def relayRequest (copyValue : Json → Option Bytes) (method : Bytes) (params : Json) :
    Except ErrorCode Bytes :=
  match copyValue params with
  | none => .error .resourceLimit
  | some text =>
    match rpcRequest apiMaxFrame relayId (ascii "manager-relay") method text with
    | none => .error .controllerUnavailable
    | some request => .ok request

def isTransportError : ErrorCode → Bool
  | .io | .managerUnavailable | .controllerUnavailable | .timeout => true
  | _ => false

/-- The methods that `attachment_rpc` may send again. -/
def canRetry (method : Bytes) : Bool :=
  [ascii "controller.read", ascii "controller.write", ascii "controller.status",
    ascii "controller.snapshot", ascii "controller.resize", ascii "controller.detach"].contains method

namespace Call

/-- A request on a connection on which `number` requests were made before. -/
def directRpc (σ : Call) (number : ℕ) (method params : Bytes) : ErrorCode × Call :=
  match directRequest (number + 1) method params with
  | none => (.internal, σ)
  | some request => σ.send .io (requestIdOf (number + 1)) (.ok request)

/-- `ensure_controller_client` for a direct attachment: an idle connection is closed, and a new one
is attached. -/
def ensureControllerClient (σ : Call) (idle : Bool) : ErrorCode × Call :=
  let σ := if idle then σ.setConnection none else σ
  if σ.attachment.connection.isSome then (.ok, σ)
  else
    let (code, σ) := σ.nextCall
    if code ≠ .ok then (code, σ)
    else
      let (code, σ) := σ.nextCall
      if code ≠ .ok then (code, σ) else (.ok, σ.setConnection (some 1))

/-- A request on the attachment's own connection. -/
def persistentRpc (σ : Call) (method params : Bytes) : ErrorCode × Call :=
  let number := σ.attachment.connection.getD 0
  (σ.setConnection (some (number + 1))).directRpc number method params

/-- A request on a connection made for it. -/
def oneShotRpc (σ : Call) (method params : Bytes) : ErrorCode × Call :=
  let (code, σ) := σ.nextCall
  if code ≠ .ok then (code, σ) else σ.directRpc 0 method params

/-- `attachment_refresh_relay_grant`: ask for a new grant, if need be over a new connection, and
attach with it. -/
def refreshRelayGrant (σ : Call) : ErrorCode × Call :=
  let (code, σ) := σ.nextCall
  let (code, σ) :=
    if code ≠ .ok ∧ isTransportError code = true then
      let (reconnected, σ) := σ.nextCall
      if reconnected = .ok then σ.nextCall else (code, σ)
    else (code, σ)
  if code ≠ .ok then (code, σ) else σ.nextCall

/-- A request through the manager, which reads the parameters and writes them anew. -/
def relayRpc (σ : Call) (copyValue : Json → Option Bytes) (method params : Bytes) :
    ErrorCode × Call :=
  match parse params with
  | none => (.internal, σ)
  | some value => σ.send .controllerUnavailable relayId (relayRequest copyValue method value)

/-- The second try of a direct request, over a new connection. -/
def reconnectRpc (σ : Call) (code : ErrorCode) (method params : Bytes) : ErrorCode × Call :=
  if canRetry method = true ∧ isTransportError code = true then
    let (ensured, σ) := (σ.setConnection none).ensureControllerClient false
    if ensured = .ok then σ.persistentRpc method params else (code, σ)
  else (code, σ)

/-- From now on every request has a connection of its own. -/
def giveUpPersistent (σ : Call) : Call :=
  { σ with attachment :=
    { σ.attachment with connection := none, persistentUnsupported := true } }

def fallBackRpc (σ : Call) (code : ErrorCode) (method params : Bytes) : ErrorCode × Call :=
  if canRetry method = true ∧ isTransportError code = true then
    σ.giveUpPersistent.oneShotRpc method params
  else (code, σ)

def attachmentRpc (σ : Call) (copyValue : Json → Option Bytes) (idle : Bool)
    (method params : Bytes) : ErrorCode × Call :=
  if σ.attachment.relay then
    let (code, σ) := σ.relayRpc copyValue method params
    if code ≠ .ok ∧ canRetry method = true ∧ isTransportError code = true then
      let (refreshed, σ) := σ.refreshRelayGrant
      if refreshed = .ok then σ.relayRpc copyValue method params else (code, σ)
    else (code, σ)
  else if σ.attachment.persistentUnsupported then σ.oneShotRpc method params
  else
    let (code, σ) := σ.ensureControllerClient idle
    if code ≠ .ok then (code, σ)
    else
      let (code, σ) := σ.persistentRpc method params
      let (code, σ) := σ.reconnectRpc code method params
      σ.fallBackRpc code method params

end Call

/-- The part of the buffer that one call sends. -/
def chunkOf (buffer : Bytes) : Bytes := buffer.take 4095

def writeParams (chunk : Bytes) : Bytes :=
  ascii "\x7b\"data\":" ++ appendStringN chunk ++ ascii "\x7d"

/-- The count that is returned, or nothing for `-1`, and the call that was made. -/
def attachmentWrite (σ : Call) (copyValue : Json → Option Bytes) (idle : Bool) (buffer : Bytes) :
    Option ℕ × Call :=
  if σ.attachment.channels &&& channelStdin = 0 then (none, σ)
  else if buffer = [] then (some 0, σ)
  else
    let (code, σ) := σ.attachmentRpc copyValue idle (ascii "controller.write")
      (writeParams (chunkOf buffer))
    (if code = .ok then some (chunkOf buffer).length else none, σ)

theorem plain_requestIdOf (number : ℕ) : ∀ b ∈ requestIdOf number, Plain b := by
  intro b hb
  rcases mem_append.mp hb with hb | hb
  · have hall : (ascii "req-").all (fun b => decide (Plain b)) = true := by decide
    simpa using all_eq_true.mp hall b hb
  · obtain ⟨hlow, hhigh⟩ := between_of_mem_dec _ b hb
    exact ⟨by omega, by omega, by omega, by omega⟩

theorem requestIdOf_length_lt (number : ℕ) : (requestIdOf number).length < 64 := by
  have hdec := dec_length_le_u64 (n := number % 2 ^ 64) (Nat.mod_lt _ (by decide))
  rw [requestIdOf, length_append, show (ascii "req-").length = 4 from rfl]
  omega

theorem zero_notMem_of_plain {s : Bytes} (h : ∀ b ∈ s, Plain b) : 0 ∉ s :=
  fun hzero => absurd (h 0 hzero) (by decide)

theorem spells_writeParams (chunk : Bytes) :
    Spells (writeParams chunk) (.obj (dataMembers (transcode chunk))) := by
  have hspell := spells_obj [.plain "data" (by decide +kernel) (spells_appendStringN chunk)]
  convert hspell using 1
  · simp [writeParams, objectText, joinComma, memberText, Field.text, Field.plain, ascii]
  · rfl

variable {chunk : Bytes}

theorem writeParams_length_le (h : chunk.length ≤ 4095) : (writeParams chunk).length ≤ 24600 := by
  have hstring := appendStringN_length_le chunk
  simp [writeParams, ascii]
  omega

variable {value : Bytes}

theorem validate_dataMembers (h : value.length ≤ 8190) (depth : ℕ) (hdepth : depth ≤ 2) :
    validateValue depth (.obj (dataMembers value)) = true := by
  have hkeys : validKeys ((dataMembers value).map Prod.fst) = true := by
    simp only [dataMembers, map_cons, map_nil]
    decide
  have hvalue : value.length ≤ maxStringBytes := by unfold maxStringBytes; omega
  have hdeep : depth ≤ 32 ∧ depth + 1 ≤ 32 := by omega
  rw [validateValue, validateMembers_eq, hkeys]
  simp [validateValue, dataMembers, maxDepth, maxObjectMembers, hvalue, hdeep]

theorem transcode_chunk_length_le (h : chunk.length ≤ 4095) : (transcode chunk).length ≤ 8190 := by
  have htranscode := transcode_length_le chunk
  omega

theorem parse_writeParams (h : chunk.length ≤ 4095) :
    parse (writeParams chunk) = some (.obj (dataMembers (transcode chunk))) := by
  have hlen := writeParams_length_le h
  rw [parse_spelled (spells_writeParams chunk) (by unfold maxDocumentBytes; omega),
    if_pos (validate_dataMembers (transcode_chunk_length_le h) 1 (by decide))]

variable {id : Bytes}

variable {request : Bytes}

/-- A request printed with the value among its parameters is a request to write it. -/
theorem isWrite_of_rpcRequest {size : ℕ} {session params : Bytes} (hplain : ∀ b ∈ id, Plain b)
    (hid : id ≠ []) (hidLength : id.length < 64)
    (hsession : session.all (fun b => decide (Plain b)) = true)
    (hsessionLength : session.length < 64) (hparams : Spells params (.obj (dataMembers value)))
    (hvalue : value.length ≤ 8190) (hsize : size ≤ 2 ^ 17)
    (h : rpcRequest size id session (ascii "controller.write") params = some request) :
    IsWrite id value request := by
  have hsession' : ∀ b ∈ session, Plain b := by simpa using hsession
  have hcstrId := cstr_eq_self (zero_notMem_of_plain hplain)
  have hcstrSession := cstr_eq_self (zero_notMem_of_plain hsession')
  have hcstrParams := cstr_eq_self (zero_notMem_spelled hparams)
  obtain ⟨rfl, hlength⟩ := rpcRequest_some h
  refine ⟨by rw [hcstrId]; exact hplain, by rw [hcstrId]; exact hid, by rw [hcstrId]; exact hidLength,
    by omega, session, ?_⟩
  have hdecode : decodeRequest (requestText id session (ascii "controller.write") params) =
      some ⟨cstr id, cstr session, cstr (ascii "controller.write"), dataMembers value⟩ :=
    decodeRequest_requestText (by rw [hcstrId]; exact text_of_plain hplain)
      (by rw [hcstrSession]; exact text_of_plain hsession') (by decide +kernel)
      (by rw [hcstrParams]; exact JsonExtents.padded_of_spells hparams)
      (validate_dataMembers hvalue 2 le_rfl)
      (by unfold maxDocumentBytes; omega) (by rw [hcstrId]; exact hidLength)
      (by rw [hcstrId]; exact hid) (by rw [hcstrSession]; exact hsessionLength) (by decide)
      (by decide)
  rw [hdecode, hcstrSession]
  rfl

theorem isWrite_directRequest {number : ℕ} (hlen : chunk.length ≤ 4095)
    (h : directRequest number (ascii "controller.write") (writeParams chunk) = some request) :
    IsWrite (requestIdOf number) (transcode chunk) request := by
  have hidLength := requestIdOf_length_lt number
  have hparamsLength := writeParams_length_le hlen
  have hcstr := cstr_length_le (writeParams chunk)
  have hmethod : (ascii "controller.write").length = 16 := by decide
  unfold directRequest at h
  split_ifs at h
  exact isWrite_of_rpcRequest (plain_requestIdOf number) (by simp [requestIdOf, ascii]) hidLength
    (by decide +kernel) (by decide) (spells_writeParams chunk) (transcode_chunk_length_le hlen)
    (by rw [hmethod]; omega) h

theorem isWrite_relayRequest {copyValue : Json → Option Bytes}
    (hcopy : ∀ v t, copyValue v = some t → Spells t v) (hvalue : value.length ≤ 8190)
    (h : relayRequest copyValue (ascii "controller.write") (.obj (dataMembers value)) =
      .ok request) :
    IsWrite relayId value request := by
  unfold relayRequest at h
  split at h
  · simp at h
  · rename_i text htext
    split at h
    · simp at h
    · rename_i request' hrequest
      obtain rfl : request' = request := Except.ok.inj h
      have hplain : relayId.all (fun b => decide (Plain b)) = true := by decide +kernel
      exact isWrite_of_rpcRequest (by simpa using hplain) (by decide) (by decide)
        (by decide +kernel) (by decide) (hcopy _ _ htext) hvalue (by decide) hrequest

/-- The exchange is a request to write the value, and was answered or not. -/
def Exchange.Writes (value : Bytes) (e : Exchange) : Prop := ∃ id, IsWrite id value e.request

/-- The controller wrote the value to the end. -/
def Exchange.Complete (value : Bytes) (e : Exchange) : Prop :=
  e.peer.CanWrite value e.request ∧
    (writeLoop e.peer.shared.stdin.answers (cstr value)).error = none

/-- A part of the call has made some exchanges, and ended with a code; it ends with success only
when the last of them was complete. -/
structure Tries (value : Bytes) (σ : Call) (result : ErrorCode × Call) (tries : List Exchange) :
    Prop where
  exchanges : result.2.exchanges = σ.exchanges ++ tries
  writes : ∀ e ∈ tries, e.Writes value
  complete : result.1 = .ok → ∃ before e, tries = before ++ [e] ∧ e.Complete value

namespace Tries

variable {value : Bytes} {σ : Call}

variable {tries : List Exchange} {σ' : Call}

variable {first : ErrorCode × Call}

theorem append {second : ErrorCode × Call} {more : List Exchange} (h : Tries value σ first tries)
    (h' : Tries value first.2 second more) : Tries value σ second (tries ++ more) := by
  refine ⟨by rw [h'.exchanges, h.exchanges, append_assoc], ?_, ?_⟩
  · intro e he
    exact (mem_append.mp he).elim (h.writes e) (h'.writes e)
  · intro hok
    obtain ⟨before, e, rfl, he⟩ := h'.complete hok
    exact ⟨tries ++ before, e, by rw [append_assoc], he⟩

theorem of_exchanges {result : ErrorCode × Call} (heq : σ'.exchanges = σ.exchanges)
    (h : Tries value σ' result tries) : Tries value σ result tries :=
  ⟨by rw [h.exchanges, heq], h.writes, h.complete⟩

theorem then_exchanges (h : Tries value σ first tries) (heq : σ'.exchanges = first.2.exchanges) :
    Tries value σ (first.1, σ') tries :=
  ⟨by rw [heq, h.exchanges], h.writes, h.complete⟩

theorem failed {code : ErrorCode} (hcode : code ≠ .ok) (heq : σ'.exchanges = σ.exchanges) :
    Tries value σ (code, σ') [] :=
  ⟨by simp [heq], by simp, fun h => absurd h hcode⟩

end Tries

namespace Call

@[simp] theorem setConnection_exchanges (σ : Call) (connection : Option ℕ) :
    (σ.setConnection connection).exchanges = σ.exchanges := rfl

@[simp] theorem nextCall_exchanges (σ : Call) : σ.nextCall.2.exchanges = σ.exchanges := by
  unfold nextCall
  split <;> rfl

@[simp] theorem ensureControllerClient_exchanges (σ : Call) (idle : Bool) :
    (σ.ensureControllerClient idle).2.exchanges = σ.exchanges := by
  unfold ensureControllerClient
  dsimp only
  split_ifs <;> simp

@[simp] theorem refreshRelayGrant_exchanges (σ : Call) :
    σ.refreshRelayGrant.2.exchanges = σ.exchanges := by
  unfold refreshRelayGrant
  dsimp only
  split_ifs <;> simp

variable {value : Bytes}

theorem send_tries (σ : Call) {silent : ErrorCode} (hsilent : silent ≠ .ok) (hid : cstr id = id)
    {request : Except ErrorCode Bytes} (hwrite : ∀ r, request = .ok r → IsWrite id value r)
    (hcode : ∀ code, request = .error code → code ≠ .ok) :
    ∃ tries, Tries value σ (σ.send silent id request) tries := by
  unfold send
  cases σ.deliveries with
  | nil => exact ⟨[], .failed (by simp) rfl⟩
  | cons delivery rest =>
    cases delivery with
    | unreached failure => exact ⟨[], .failed failure.2 (by simp)⟩
    | handled peer lost =>
      cases request with
      | error code => exact ⟨[], .failed (hcode code rfl) (by simp)⟩
      | ok request =>
        have his := hwrite request rfl
        refine ⟨[⟨peer, request⟩], by simp [Delivery.outcome], ?_, ?_⟩
        · intro e he
          obtain rfl := mem_singleton.mp he
          exact ⟨id, his⟩
        · intro hok
          refine ⟨[], ⟨peer, request⟩, rfl, ?_⟩
          cases lost with
          | some failure => exact absurd hok failure.2
          | none =>
            have hiff := peer.code_ok_iff hsilent his
            rw [hid] at hiff
            exact hiff.mp hok

variable {chunk : Bytes} (hchunk : chunk.length ≤ 4095)

include hchunk in
theorem directRpc_tries (σ : Call) (number : ℕ) :
    ∃ tries, Tries (transcode chunk) σ
      (σ.directRpc number (ascii "controller.write") (writeParams chunk)) tries := by
  unfold directRpc
  cases hrequest : directRequest (number + 1) (ascii "controller.write") (writeParams chunk) with
  | none => exact ⟨[], .failed (by simp) rfl⟩
  | some request =>
    refine send_tries σ (by simp) (cstr_eq_self (zero_notMem_of_plain (plain_requestIdOf _))) ?_ ?_
    · intro r hr
      obtain rfl := Except.ok.inj hr
      exact isWrite_directRequest hchunk hrequest
    · intro code hcode
      simp at hcode

include hchunk in
theorem persistentRpc_tries (σ : Call) :
    ∃ tries, Tries (transcode chunk) σ
      (σ.persistentRpc (ascii "controller.write") (writeParams chunk)) tries := by
  obtain ⟨tries, h⟩ := directRpc_tries hchunk
    (σ.setConnection (some (σ.attachment.connection.getD 0 + 1))) (σ.attachment.connection.getD 0)
  exact ⟨tries, .of_exchanges (setConnection_exchanges _ _) h⟩

include hchunk in
theorem oneShotRpc_tries (σ : Call) :
    ∃ tries, Tries (transcode chunk) σ
      (σ.oneShotRpc (ascii "controller.write") (writeParams chunk)) tries := by
  unfold oneShotRpc
  dsimp only
  split_ifs with hcode
  · exact ⟨[], .failed hcode (by simp)⟩
  · obtain ⟨tries, h⟩ := directRpc_tries hchunk σ.nextCall.2 0
    exact ⟨tries, h.of_exchanges (by simp)⟩

variable {σ : Call} {tries : List Exchange}

include hchunk in
theorem reconnectRpc_tries {first : ErrorCode × Call}
    (hfirst : Tries (transcode chunk) σ first tries) :
    ∃ tries, Tries (transcode chunk) σ
      (first.2.reconnectRpc first.1 (ascii "controller.write") (writeParams chunk)) tries := by
  unfold reconnectRpc
  dsimp only
  split_ifs
  · obtain ⟨more, hsecond⟩ := persistentRpc_tries hchunk
      ((first.2.setConnection none).ensureControllerClient false).2
    exact ⟨tries ++ more, hfirst.append (.of_exchanges (by simp) hsecond)⟩
  · exact ⟨tries, hfirst.then_exchanges (by simp)⟩
  · exact ⟨tries, hfirst⟩

include hchunk in
theorem fallBackRpc_tries {second : ErrorCode × Call}
    (hsecond : Tries (transcode chunk) σ second tries) :
    ∃ tries, Tries (transcode chunk) σ
      (second.2.fallBackRpc second.1 (ascii "controller.write") (writeParams chunk)) tries := by
  unfold fallBackRpc
  split_ifs
  · obtain ⟨more, hthird⟩ := oneShotRpc_tries hchunk second.2.giveUpPersistent
    exact ⟨tries ++ more, hsecond.append (.of_exchanges (by rfl) hthird)⟩
  · exact ⟨tries, hsecond⟩

variable {copyValue : Json → Option Bytes} (hcopy : ∀ v t, copyValue v = some t → Spells t v)

include hchunk hcopy in
theorem relayRpc_tries (σ : Call) :
    ∃ tries, Tries (transcode chunk) σ
      (σ.relayRpc copyValue (ascii "controller.write") (writeParams chunk)) tries := by
  unfold relayRpc
  rw [parse_writeParams hchunk]
  refine send_tries σ (by simp) (by decide) ?_ ?_
  · intro r hr
    exact isWrite_relayRequest hcopy (transcode_chunk_length_le hchunk) hr
  · intro code hcode
    unfold relayRequest at hcode
    split at hcode
    · obtain rfl := Except.error.inj hcode
      simp
    · split at hcode
      · obtain rfl := Except.error.inj hcode
        simp
      · simp at hcode

include hchunk hcopy in
/-- Whatever happens, the call makes a number of exchanges, and succeeds only when the last of them
is complete. -/
theorem attachmentRpc_tries (σ : Call) (idle : Bool) :
    ∃ tries, Tries (transcode chunk) σ
      (σ.attachmentRpc copyValue idle (ascii "controller.write") (writeParams chunk)) tries := by
  unfold attachmentRpc
  split_ifs with hrelay hpersistent
  · obtain ⟨tries, hfirst⟩ := relayRpc_tries hchunk hcopy σ
    generalize σ.relayRpc copyValue (ascii "controller.write") (writeParams chunk) = first
      at hfirst ⊢
    dsimp only
    split_ifs with hretry hrefreshed
    · obtain ⟨more, hsecond⟩ := relayRpc_tries hchunk hcopy first.2.refreshRelayGrant.2
      exact ⟨tries ++ more, hfirst.append (.of_exchanges (by simp) hsecond)⟩
    · exact ⟨tries, hfirst.then_exchanges (by simp)⟩
    · exact ⟨tries, hfirst⟩
  · exact oneShotRpc_tries hchunk σ
  · have hensured := σ.ensureControllerClient_exchanges idle
    generalize σ.ensureControllerClient idle = ensured at hensured ⊢
    dsimp only
    by_cases hcode : ensured.1 ≠ .ok
    · rw [if_pos hcode]
      exact ⟨[], .failed hcode hensured⟩
    rw [if_neg hcode]
    obtain ⟨tries, hfirst⟩ := persistentRpc_tries hchunk ensured.2
    replace hfirst := hfirst.of_exchanges hensured
    generalize ensured.2.persistentRpc (ascii "controller.write") (writeParams chunk) = first
      at hfirst ⊢
    obtain ⟨tries, hsecond⟩ := reconnectRpc_tries hchunk hfirst
    generalize first.2.reconnectRpc first.1 (ascii "controller.write") (writeParams chunk) = second
      at hsecond ⊢
    exact fallBackRpc_tries hchunk hsecond

/-- Everything the call made controllers write. -/
def written (σ : Call) : Bytes := σ.exchanges.flatMap Exchange.writes

/-- How often the byte at a position of the value was written. -/
def timesWritten (σ : Call) (position : ℕ) : ℕ :=
  σ.exchanges.countP fun e => position < e.writes.length

end Call

namespace Exchange

/-- The controller is in no state to take a byte of the value: there is none before the first NUL,
the request is too long, the process is gone, its input is closed or refuses the first write. -/
def Idle (value : Bytes) (e : Exchange) : Prop :=
  cstr value = [] ∨ ¬ e.peer.CanWrite value e.request ∨
    refusesFirst e.peer.shared.stdin.answers = true

instance (value : Bytes) (e : Exchange) : Decidable (e.Idle value) :=
  inferInstanceAs (Decidable (_ ∨ _))

variable {value : Bytes} {e : Exchange}

theorem Writes.eq (h : e.Writes value) :
    e.writes = if e.peer.CanWrite value e.request then
      (writeLoop e.peer.shared.stdin.answers (cstr value)).accepted else [] := by
  obtain ⟨id, his⟩ := h
  exact e.peer.writes_eq his

theorem Writes.isPrefix (h : e.Writes value) : e.writes <+: cstr value := by
  rw [h.eq]
  split_ifs
  · exact (writeLoop_accepted _ _).1
  · exact List.nil_prefix

theorem Writes.eq_nil_iff (h : e.Writes value) : e.writes = [] ↔ e.Idle value := by
  rw [h.eq, Idle]
  split_ifs with hcan
  · rw [writeLoop_accepted_nil_iff]
    simp [hcan]
  · simp [hcan]

theorem Writes.of_complete (h : e.Writes value) (hcomplete : e.Complete value) :
    e.writes = cstr value := by
  rw [h.eq, if_pos hcomplete.1]
  exact (writeLoop_accepted _ _).2 hcomplete.2

end Exchange

theorem countP_le_one_iff {α : Type} (p : α → Bool) (l : List α) :
    l.countP p ≤ 1 ↔ l.Pairwise fun a b => p a = false ∨ p b = false := by
  induction l with
  | nil => simp
  | cons a l ih =>
    rw [pairwise_cons, ← ih, countP_cons]
    cases ha : p a with
    | false => simp
    | true =>
      have hzero : (∀ b ∈ l, p b = false) ↔ l.countP p = 0 := by
        rw [countP_eq_zero]
        simp
      simp only [Bool.true_eq_false, false_or, hzero, if_true]
      omega

theorem flatMap_writes_eq_nil_iff {tries : List Exchange} (h : ∀ e ∈ tries, e.Writes value) :
    tries.flatMap Exchange.writes = [] ↔ ∀ e ∈ tries, e.Idle value := by
  rw [flatMap_eq_nil_iff]
  exact forall₂_congr fun e he => (h e he).eq_nil_iff

/-- When the last of the tries was complete, they wrote the chunk exactly when it stands for itself
and the earlier ones wrote nothing. -/
theorem flatMap_writes_eq_iff {before : List Exchange} {e : Exchange}
    (hwrites : ∀ e' ∈ before ++ [e], e'.Writes (transcode chunk))
    (hcomplete : e.Complete (transcode chunk)) :
    (before ++ [e]).flatMap Exchange.writes = chunk ↔
      (Text chunk ∧ 0 ∉ chunk) ∧ ∀ e' ∈ before, e'.Idle (transcode chunk) := by
  have hbefore : ∀ e' ∈ before, e'.Writes (transcode chunk) := fun e' he' =>
    hwrites e' (mem_append_left _ he')
  have hlast : e.writes = cstr (transcode chunk) := (hwrites e (by simp)).of_complete hcomplete
  rw [← flatMap_writes_eq_nil_iff hbefore, flatMap_append, flatMap_singleton, hlast]
  constructor
  · intro h
    -- nothing that is written contains a NUL, and encoding makes nothing shorter
    have hzero : 0 ∉ chunk := by
      rw [← h]
      intro hmem
      rcases mem_append.mp hmem with hmem | hmem
      · obtain ⟨e', he', hin⟩ := mem_flatMap.mp hmem
        exact zero_notMem_cstr _ ((hbefore e' he').isPrefix.subset hin)
      · exact zero_notMem_cstr _ hmem
    obtain ⟨hlength, hnonzero⟩ : chunk.length ≤ (transcode chunk).length ∧ 0 ∉ transcode chunk :=
      transcodeFrom_nonzero le_rfl hzero
    rw [cstr_eq_self hnonzero] at h
    have hsum := congrArg List.length h
    rw [length_append] at hsum
    have hnil : before.flatMap Exchange.writes = [] := eq_nil_of_length_eq_zero (by omega)
    rw [hnil] at h
    exact ⟨⟨(transcode_eq_self_iff chunk).mp h, hzero⟩, hnil⟩
  · rintro ⟨⟨htext, hzero⟩, hnil⟩
    rw [hnil, (transcode_eq_self_iff chunk).mpr htext, cstr_eq_self hzero, nil_append]

theorem chunkOf_length_le (buffer : Bytes) : (chunkOf buffer).length ≤ 4095 := by
  rw [chunkOf, length_take]
  exact Nat.min_le_left _ _

theorem take_chunkOf_length (buffer : Bytes) :
    buffer.take (chunkOf buffer).length = chunkOf buffer := by
  rw [chunkOf, length_take, ← take_eq_take_min]

/-- A call before anything was sent. -/
def Call.start (attachment : Attachment) (calls : List (Option Failure))
    (deliveries : List Delivery) : Call :=
  ⟨attachment, calls, deliveries, []⟩

section Results

variable {copyValue : Json → Option Bytes} (hcopy : ∀ v t, copyValue v = some t → Spells t v)

include hcopy in
/-- All that a call does, and what it means that a count is returned. -/
theorem attachmentWrite_tries {σ : Call} (hnew : σ.exchanges = []) (idle : Bool) (buffer : Bytes) :
    (∀ e ∈ (attachmentWrite σ copyValue idle buffer).2.exchanges,
        e.Writes (transcode (chunkOf buffer))) ∧
      ∀ n, (attachmentWrite σ copyValue idle buffer).1 = some n → n = (chunkOf buffer).length ∧
        (buffer = [] ∧ (attachmentWrite σ copyValue idle buffer).2.exchanges = [] ∨
          ∃ before e, (attachmentWrite σ copyValue idle buffer).2.exchanges = before ++ [e] ∧
            e.Complete (transcode (chunkOf buffer))) := by
  unfold attachmentWrite
  split_ifs with hchannel hempty
  · exact ⟨by simp [hnew], by simp⟩
  · refine ⟨by simp [hnew], ?_⟩
    intro n hn
    obtain rfl := Option.some.inj hn
    exact ⟨by simp [hempty, chunkOf], .inl ⟨hempty, hnew⟩⟩
  · obtain ⟨tries, htries⟩ := σ.attachmentRpc_tries (chunkOf_length_le buffer) hcopy idle
    generalize σ.attachmentRpc copyValue idle (ascii "controller.write")
      (writeParams (chunkOf buffer)) = rpc at htries ⊢
    have hexchanges : rpc.2.exchanges = tries := by rw [htries.exchanges, hnew, nil_append]
    dsimp only
    rw [hexchanges]
    refine ⟨htries.writes, ?_⟩
    intro n hn
    split_ifs at hn with hok
    exact ⟨(Option.some.inj hn).symm, .inr (htries.complete hok)⟩

variable (attachment : Attachment) (calls : List (Option Failure)) (deliveries : List Delivery)
  (idle : Bool) (buffer : Bytes)

include hcopy in
/-- A returned count is true to the first bytes of the buffer exactly when these are UTF-8 without
NUL and no earlier try of the same call found a controller that took some of them. -/
theorem attachmentWrite_exact_iff {n : ℕ}
    (hreturned :
      (attachmentWrite (.start attachment calls deliveries) copyValue idle buffer).1 = some n) :
    (attachmentWrite (.start attachment calls deliveries) copyValue idle buffer).2.written =
        buffer.take n ↔
      (Text (buffer.take n) ∧ 0 ∉ buffer.take n) ∧
        ∀ e ∈ (attachmentWrite (.start attachment calls deliveries) copyValue idle
          buffer).2.exchanges.dropLast, e.Idle (transcode (buffer.take n)) := by
  obtain ⟨hwrites, hcount⟩ := attachmentWrite_tries hcopy
    (show (Call.start attachment calls deliveries).exchanges = [] from rfl) idle buffer
  obtain ⟨rfl, ⟨hempty, hnone⟩ | ⟨before, e, hexchanges, hcomplete⟩⟩ := hcount n hreturned
  · rw [Call.written, hnone, hempty]
    simp [chunkOf, Text.nil]
  · rw [hexchanges] at hwrites
    rw [take_chunkOf_length, Call.written, hexchanges, dropLast_concat]
    exact flatMap_writes_eq_iff hwrites hcomplete

include hcopy in
/-- Every byte is written at most once exactly when no two tries of the call found a controller
that took some of them. -/
theorem attachmentWrite_once_iff :
    (∀ position, (attachmentWrite (.start attachment calls deliveries) copyValue idle
        buffer).2.timesWritten position ≤ 1) ↔
      (attachmentWrite (.start attachment calls deliveries) copyValue idle
        buffer).2.exchanges.Pairwise fun e e' =>
          e.Idle (transcode (chunkOf buffer)) ∨ e'.Idle (transcode (chunkOf buffer)) := by
  have hwrites := (attachmentWrite_tries hcopy
    (show (Call.start attachment calls deliveries).exchanges = [] from rfl) idle buffer).1
  generalize (attachmentWrite (.start attachment calls deliveries) copyValue idle buffer).2 = σ
    at hwrites ⊢
  have hidle : ∀ e ∈ σ.exchanges, decide (0 < e.writes.length) = false ↔
      e.Idle (transcode (chunkOf buffer)) := by
    intro e he
    rw [← (hwrites e he).eq_nil_iff, decide_eq_false_iff_not, length_pos_iff, not_not]
  -- the first byte is the one that is written most often
  have hfirst : (∀ position, σ.timesWritten position ≤ 1) ↔ σ.timesWritten 0 ≤ 1 := by
    refine ⟨fun h => h 0, fun h position => le_trans ?_ h⟩
    apply countP_mono_left
    intro e _ he
    simp only [decide_eq_true_eq] at he ⊢
    omega
  rw [hfirst, Call.timesWritten, countP_le_one_iff]
  refine List.Pairwise.iff_of_mem ?_
  intro e e' he he'
  rw [hidle e he, hidle e' he']

end Results

/-- A controller that has just accepted a connection, and the answers its writes will get. -/
def Peer.started (answers : List Answer) : Peer where
  process := .started 1
  shared := { Shared.started with stdin := ⟨true, [], answers⟩ }
  client := .accepted 0
  reading := reading_accepted 0
  between := rfl

def Call.direct (deliveries : List Delivery) : Call :=
  .start ⟨false, false, channelStdin, none⟩ [] deliveries

theorem direct_write_exact :
    (attachmentWrite (.direct [.unreached ⟨.io, by decide⟩, .handled (.started []) none])
      (fun _ => none) false (ascii "hi")).2.written = ascii "hi" := by
  refine (attachmentWrite_exact_iff (fun _ _ h => by simp at h) _ _ _ _ _ (n := 2) ?_).mpr ?_
  · decide +kernel
  · decide +kernel

/-- Success is reported for three bytes, and one was written. -/
theorem direct_write_stops_at_nul :
    (attachmentWrite (.direct [.handled (.started []) none]) (fun _ => none) false
        [0x61, 0x00, 0x62]).1 = some 3 ∧
      (attachmentWrite (.direct [.handled (.started []) none]) (fun _ => none) false
        [0x61, 0x00, 0x62]).2.written = [0x61] := by
  decide +kernel

theorem direct_write_once :
    (attachmentWrite
        (.direct [.handled (.started [.refused 11]) none, .handled (.started []) none])
        (fun _ => none) false (ascii "hi")).2.timesWritten 0 ≤ 1 ∧
      (attachmentWrite
        (.direct [.handled (.started [.refused 11]) none, .handled (.started []) none])
        (fun _ => none) false (ascii "hi")).2.timesWritten 1 ≤ 1 := by
  have honce : ∀ position, (attachmentWrite
      (.direct [.handled (.started [.refused 11]) none, .handled (.started []) none])
      (fun _ => none) false (ascii "hi")).2.timesWritten position ≤ 1 := by
    refine (attachmentWrite_once_iff (fun _ _ h => by simp at h) _ _ _ _ _).mpr ?_
    decide +kernel
  exact ⟨honce 0, honce 1⟩

/-- The first controller takes one byte and then cannot write, and the second one takes both. -/
theorem direct_write_repeats :
    (attachmentWrite
      (.direct [.handled (.started [.wrote 0, .refused 11]) none, .handled (.started []) none])
      (fun _ => none) false (ascii "hi")).2.timesWritten 0 = 2 := by
  decide +kernel

end Cubicle.Client
