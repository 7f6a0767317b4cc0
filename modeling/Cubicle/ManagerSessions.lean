import Cubicle.AuthEncodings
import Cubicle.ManagerRequests
import Cubicle.RemoteManagers

/-!
# Authentication of connections

A connection is authenticated by a signature over a challenge of the manager, which creates a
session, or by resuming a session that another connection created. The manager stores at most 128
sessions, for all connections. The history of a run records the draws of each challenge and each
session that is created; what authenticates a connection is always one of them. Nothing in a request
to resume is new to the manager, so a request that was accepted is accepted again while its session
lasts.
-/

namespace Cubicle.Manager
open ByteText CStrings JsonText JsonEncoding RpcEnvelope List
open Remotes (hexDecode)

def protocolMajor : UInt32 := 0
def protocolMinor : UInt32 := 1

/-- `CUBICLE_API_CAPABILITIES | CUBICLE_PROTOCOL_CAP_AUTH_ED25519`. -/
def sessionCapabilities : UInt64 := 0x10303

/-- What `cubicle_auth_encode_transcript` appends for a connection's challenge. -/
def Transcript.pieces (host : Host) (t : Transcript) : List Bytes :=
  [Auth.transcriptDomain, Auth.u32 protocolMajor, Auth.u32 protocolMinor, host.publicKey,
    t.clientPublicKey, t.clientNonce, t.managerNonce, t.connectionId] ++
    Auth.u64 sessionCapabilities ++ Auth.u64 (UInt64.ofNat t.managerGeneration) ++
    Auth.u64 (UInt64.ofNat t.peerUid) ++ Auth.u64 (UInt64.ofNat t.peerGid) ++
    Auth.string t.workspaceRef

def Transcript.encoded (host : Host) (t : Transcript) : Option Bytes :=
  (t.pieces host).foldlM (Auth.appendBytes 512) []

/-- The peer a connection counts as having. -/
def Connection.countedUid (c : Connection) : ℕ := if c.hasPeerCredentials then c.peerUid else 0
def Connection.countedGid (c : Connection) : ℕ := if c.hasPeerCredentials then c.peerGid else 0

/-- The fields of a resume request, decoded as far as its checks go. -/
structure ResumeRequest where
  sessionId : Bytes
  clientNonceHex : Bytes
  connectionIdHex : Bytes
  authenticatorHex : Bytes
deriving DecidableEq

/-- What `cubicle_auth_encode_resume` appends; the server nonce is left zero. -/
def resumePieces (host : Host) (peerUid peerGid : ℕ) (sessionId clientNonce connectionId : Bytes) :
    List Bytes :=
  [Auth.resumeDomain] ++ Auth.string (host.crypto.keyId host.publicKey) ++
    Auth.string sessionId ++ [clientNonce, List.replicate 32 0, connectionId] ++
    Auth.u64 (UInt64.ofNat host.startedAtMs) ++ Auth.u64 (UInt64.ofNat peerUid) ++
    Auth.u64 (UInt64.ofNat peerGid)

def resumeEncoded (host : Host) (peerUid peerGid : ℕ)
    (sessionId clientNonce connectionId : Bytes) : Option Bytes :=
  (resumePieces host peerUid peerGid sessionId clientNonce connectionId).foldlM
    (Auth.appendBytes 512) []

/-- `manager_session_record_t`. -/
structure SessionRecord where
  session : SessionInfo
  resumeSecret : Bytes
  peerUid : ℕ
  peerGid : ℕ
  managerGeneration : ℕ
  clientPublicKeyHex : Bytes
deriving DecidableEq

/-- `CUBICLE_MANAGER_MAX_SESSIONS`. -/
def maxSessions : ℕ := 128

/-- The slots for sessions; an inactive one is empty. -/
structure Store where
  slots : List (Option SessionRecord)
  length_eq : slots.length = maxSessions

namespace Store

def empty : Store := ⟨List.replicate maxSessions none, length_replicate⟩

def hasId (sessionId : Bytes) (slot : Option SessionRecord) : Bool :=
  slot.any fun r => r.session.sessionId = sessionId

/-- `find_session_unlocked`. -/
def find (s : Store) (sessionId : Bytes) : Option SessionRecord :=
  if sessionId = [] then none else (s.slots.find? (hasId sessionId)).join

def createdAt (s : Store) (i : ℕ) : ℕ :=
  ((s.slots.getD i none).map fun r => r.session.authenticatedAtMs).getD 0

/-- The first slot with the oldest session. -/
def oldest (s : Store) : ℕ :=
  (List.range maxSessions).foldl
    (fun best i => if s.createdAt i < s.createdAt best then i else best) 0

/-- The slot a session is saved in: its own, else a free one, else that of the oldest session. -/
def place (s : Store) (sessionId : Bytes) : ℕ :=
  ((if sessionId = [] then none else s.slots.findIdx? (hasId sessionId)).or
    (s.slots.findIdx? (·.isNone))).getD s.oldest

/-- `save_session_unlocked`. -/
def save (s : Store) (record : SessionRecord) : Store :=
  ⟨s.slots.set (s.place record.session.sessionId) (some record),
    by rw [length_set, s.length_eq]⟩

variable {s : Store} {r : SessionRecord}

theorem mem_of_find {sessionId : Bytes} (h : s.find sessionId = some r) :
    some r ∈ s.slots ∧ r.session.sessionId = sessionId := by
  unfold find at h
  split_ifs at h
  rw [Option.join_eq_some_iff] at h
  have hid := find?_some h
  exact ⟨mem_of_find?_eq_some h, by simpa [hasId] using hid⟩

theorem mem_save {record : SessionRecord} (h : some r ∈ (s.save record).slots) :
    r = record ∨ some r ∈ s.slots := by
  rcases mem_or_eq_of_mem_set h with hold | hnew
  · exact .inr hold
  · exact .inl (Option.some.inj hnew)

end Store

section Requests
variable (host : Host) (env : Surroundings)

/-- The checks of `auth.challenge`, and the transcript they lead to. -/
def challengeOf (c : Connection) (params : Members) : Except Refusal Transcript := do
  require (c.hasPeerCredentials || c.isTls)
    (.refusal .unsupported "authenticated bootstrap requires Unix peer credentials")
  let invalid := Refusal.refusal .invalidArgument "invalid auth challenge request"
  let keyHex ← orRefuse (getRequiredString params (ascii "client_public_key") 65) invalid
  let nonceHex ← orRefuse (getRequiredString params (ascii "client_nonce") 65) invalid
  let workspace ← orRefuse (getOptionalString params (ascii "workspace") 256) invalid
  let material := Refusal.refusal .invalidArgument "invalid auth challenge material"
  let key ← orRefuse (hexDecode 32 keyHex) material
  let nonce ← orRefuse (hexDecode 32 nonceHex) material
  return ⟨key, nonce, env.nonce, env.connectionId, host.startedAtMs, c.countedUid, c.countedGid,
    cstr (workspace.getD [])⟩

def challengeText (t : Transcript) : Bytes :=
  ascii "\x7b\"manager_id\":\"" ++ host.crypto.keyId host.publicKey ++
    ascii "\",\"manager_public_key\":\"" ++ hexEncode host.publicKey ++
    ascii "\",\"manager_nonce\":\"" ++ hexEncode t.managerNonce ++
    ascii "\",\"connection_id\":\"" ++ hexEncode t.connectionId ++
    ascii "\",\"protocol_major\":" ++ dec protocolMajor.toNat ++
    ascii ",\"protocol_minor\":" ++ dec protocolMinor.toNat ++
    ascii ",\"capabilities\":" ++ dec sessionCapabilities.toNat ++
    ascii ",\"manager_generation\":" ++ dec t.managerGeneration ++
    ascii ",\"peer_uid\":" ++ dec t.peerUid ++ ascii ",\"peer_gid\":" ++ dec t.peerGid ++
    ascii "\x7d"

/-- `auth.challenge`. -/
def authChallenge (c : Connection) (params : Members) : Connection × Reply :=
  match challengeOf host env c params with
  | .error refusal => (c, refusal.reply)
  | .ok t => ({ c with pendingAuth := some t }, .success (challengeText host t))

/-- `session_info_json`; the secret is shown when the session is created. -/
def sessionInfoText (session : SessionInfo) (secret : Option Bytes) : Bytes :=
  ascii "\x7b\"session_id\":\"" ++ session.sessionId ++
    ascii "\",\"manager_id\":\"" ++ host.crypto.keyId host.publicKey ++
    ascii "\",\"client_key_id\":\"" ++ session.clientKeyId ++
    ascii "\",\"protocol_major\":" ++ dec protocolMajor.toNat ++
    ascii ",\"protocol_minor\":" ++ dec protocolMinor.toNat ++
    ascii ",\"negotiated_capabilities\":" ++ dec sessionCapabilities.toNat ++
    ascii ",\"authenticated_at_ms\":" ++ dec session.authenticatedAtMs ++
    ascii ",\"expires_at_ms\":" ++ dec session.expiresAtMs ++
    ascii ",\"manager_public_key\":\"" ++ hexEncode host.publicKey ++ ascii "\"" ++
    (match secret with
      | none => []
      | some secret => ascii ",\"resume_secret\":\"" ++ hexEncode secret ++ ascii "\"") ++
    ascii "\x7d"

/-- The challenge and the signature that `auth.authenticate` goes by. -/
def signatureOf (c : Connection) (params : Members) : Except Refusal (Transcript × Bytes) := do
  let t ← orRefuse c.pendingAuth (.refusal .invalidState "auth challenge is required")
  let signatureHex ← orRefuse (getRequiredString params (ascii "signature") 129)
    (.refusal .invalidArgument "missing auth signature")
  return (t, signatureHex)

/-- The signature decodes and verifies under the key of the challenge. -/
def verified (t : Transcript) (signatureHex : Bytes) : Bool :=
  match hexDecode 64 signatureHex, t.encoded host with
  | some signature, some message => host.crypto.verify t.clientPublicKey message signature
  | _, _ => false

/-- `create_authenticated_session`; a session lasts twelve hours. -/
def createSession (c : Connection) (t : Transcript) : Connection :=
  { c with
    authenticated := true
    session := ⟨env.id.text, host.crypto.keyId t.clientPublicKey, env.now,
      (env.now + 12 * 60 * 60 * 1000) % 2 ^ 64⟩
    resumeSecret := env.resumeSecret
    clientPublicKeyHex := hexEncode t.clientPublicKey }

/-- What `save_session_unlocked` keeps of a connection. -/
def recordOf (c : Connection) : SessionRecord :=
  ⟨c.session, c.resumeSecret, c.peerUid, c.peerGid, host.startedAtMs, c.clientPublicKeyHex⟩

/-- `auth.authenticate`: a signature that does not verify also ends the challenge. -/
def authAuthenticate (store : Store) (c : Connection) (params : Members) :
    Store × Connection × Reply :=
  match signatureOf c params with
  | .error refusal => (store, c, refusal.reply)
  | .ok (t, signatureHex) =>
    if verified host t signatureHex then
      let c := { createSession host env c t with pendingAuth := none }
      (store.save (recordOf host c), c,
        .success (sessionInfoText host c.session (some c.resumeSecret)))
    else
      (store, { c with pendingAuth := none },
        .refusal .permissionDenied "invalid auth signature")

/-- The fields of an `auth.resume` request. -/
def resumeRequestOf (params : Members) : Option ResumeRequest := do
  let sessionId ← getRequiredString params (ascii "session_id") 33
  let clientNonceHex ← getRequiredString params (ascii "client_nonce") 65
  let connectionIdHex ← getRequiredString params (ascii "connection_id") 33
  let authenticatorHex ← getRequiredString params (ascii "authenticator") 65
  return ⟨cstr sessionId, clientNonceHex, connectionIdHex, authenticatorHex⟩

/-- A stored session that a connection may resume now. -/
def SessionRecord.resumableBy (r : SessionRecord) (c : Connection) : Bool :=
  r.managerGeneration = host.startedAtMs && r.peerUid = c.countedUid && r.peerGid = c.countedGid &&
    !(0 < r.session.expiresAtMs && r.session.expiresAtMs < env.now)

/-- The authenticator is the code of the request under the secret of the session. -/
def authenticates (peerUid peerGid : ℕ) (q : ResumeRequest) (clientNonce connectionId : Bytes)
    (r : SessionRecord) : Bool :=
  match resumeEncoded host peerUid peerGid q.sessionId clientNonce connectionId,
      hexDecode 32 q.authenticatorHex with
  | some message, some received => host.crypto.hmac r.resumeSecret message = received
  | _, _ => false

/-- The checks of `auth.resume`, and the session they lead to. -/
def resumed (store : Store) (c : Connection) (params : Members) : Except Refusal SessionRecord := do
  require (c.hasPeerCredentials || c.isTls)
    (.refusal .unsupported "session resume requires Unix peer credentials")
  let q ← orRefuse (resumeRequestOf params)
    (.refusal .invalidArgument "invalid session resume request")
  let expired := Refusal.refusal .sessionExpired "session cannot be resumed"
  let record ← orRefuse (store.find q.sessionId) expired
  require (record.resumableBy host env c) expired
  let material := Refusal.refusal .invalidArgument "invalid session resume material"
  let clientNonce ← orRefuse (hexDecode 32 q.clientNonceHex) material
  let connectionId ← orRefuse (hexDecode 16 q.connectionIdHex) material
  require (authenticates host c.countedUid c.countedGid q clientNonce connectionId record)
    (.refusal .authenticationFailed "invalid session resume authenticator")
  return record

/-- `auth.resume`: the session is copied to the connection and stays in the store. -/
def authResume (store : Store) (c : Connection) (params : Members) : Connection × Reply :=
  match resumed host env store c params with
  | .error refusal => (c, refusal.reply)
  | .ok record =>
    ({ c with
        authenticated := true
        session := record.session
        resumeSecret := record.resumeSecret
        clientPublicKeyHex := record.clientPublicKeyHex },
      .success ((sessionInfoText host record.session none).dropLast ++
        ascii ",\"server_nonce\":\"" ++ hexEncode env.nonce ++ ascii "\"\x7d"))

end Requests

/-- The sessions and the connections of a manager. -/
structure Sessions where
  store : Store
  connections : ℕ → Connection

inductive AuthMethod
  | challenge
  | authenticate
  | resume
  | other
deriving DecidableEq

/-- A new connection, or a request on one. -/
inductive AuthEvent
  | accept (i : ℕ) (hasPeerCredentials isTls : Bool) (peerUid peerGid : ℕ)
  | request (i : ℕ) (env : Surroundings) (method : AuthMethod) (params : Members)

def AuthEvent.connection : AuthEvent → ℕ
  | .accept i _ _ _ _ => i
  | .request i _ _ _ => i

/-- What a run leaves in its history. -/
inductive AuthEntry
  | opened (i : ℕ)
  | challenged (i : ℕ) (managerNonce connectionId : Bytes)
  | authenticated (i : ℕ) (record : SessionRecord)
  | resumed (i : ℕ) (request : ResumeRequest) (record : SessionRecord)
deriving DecidableEq

/-- After the entry the connection's challenge is another one, or none. -/
def AuthEntry.endsChallenge (i : ℕ) : AuthEntry → Prop
  | .opened j => j = i
  | .challenged j _ _ => j = i
  | .authenticated j _ => j = i
  | .resumed _ _ _ => False

namespace Sessions

def start : Sessions := ⟨.empty, fun _ => .opened false false 0 0⟩

def setConnection (s : Sessions) (i : ℕ) (c : Connection) : Sessions :=
  { s with connections := Function.update s.connections i c }

variable (host : Host)

def step (s : Sessions) : AuthEvent → Sessions
  | .accept i hasPeerCredentials isTls peerUid peerGid =>
    s.setConnection i (.opened hasPeerCredentials isTls peerUid peerGid)
  | .request i env .challenge params =>
    s.setConnection i (authChallenge host env (s.connections i) params).1
  | .request i env .authenticate params =>
    let (store, c, _) := authAuthenticate host env s.store (s.connections i) params
    { s.setConnection i c with store := store }
  | .request i env .resume params =>
    s.setConnection i (authResume host env s.store (s.connections i) params).1
  -- No other request changes who a connection is authenticated as.
  | .request _ _ .other _ => s

/-- What an event adds to the history. -/
def note (s : Sessions) : AuthEvent → List AuthEntry
  | .accept i _ _ _ _ => [.opened i]
  | .request i env .challenge params =>
    match challengeOf host env (s.connections i) params with
    | .ok _ => [.challenged i env.nonce env.connectionId]
    | .error _ => []
  | .request i env .authenticate params =>
    match signatureOf (s.connections i) params with
    | .ok (t, signatureHex) =>
      if verified host t signatureHex then
        [.authenticated i (recordOf host (createSession host env (s.connections i) t))]
      else []
    | .error _ => []
  | .request i env .resume params =>
    match resumeRequestOf params, resumed host env s.store (s.connections i) params with
    | some q, .ok record => [.resumed i q record]
    | _, _ => []
  | .request _ _ .other _ => []

/-- The states of a manager, with the history of its run, latest first. -/
inductive Reached : Sessions → List AuthEntry → Prop
  | start : Reached start []
  | step {s : Sessions} {history : List AuthEntry} (h : Reached s history) (e : AuthEvent) :
      Reached (s.step host e) (s.note host e ++ history)

/-- A challenge is the latest of its connection, and nothing was authenticated with it. -/
def Latest (i : ℕ) (managerNonce connectionId : Bytes) (history : List AuthEntry) : Prop :=
  ∃ later earlier, history = later ++ .challenged i managerNonce connectionId :: earlier ∧
    ∀ entry ∈ later, ¬ entry.endsChallenge i

variable {i : ℕ} {connectionId signatureHex : Bytes} {e : AuthEvent} {s : Sessions}
  {env : Surroundings} {c : Connection} {params : Members} {t : Transcript} {r : SessionRecord}

variable {history : List AuthEntry}

theorem Latest.append {managerNonce : Bytes} {more : List AuthEntry}
    (h : Latest i managerNonce connectionId history)
    (hmore : ∀ entry ∈ more, ¬ entry.endsChallenge i) :
    Latest i managerNonce connectionId (more ++ history) := by
  obtain ⟨later, earlier, rfl, hlater⟩ := h
  refine ⟨more ++ later, earlier, (append_assoc _ _ _).symm, fun entry hentry => ?_⟩
  exact (mem_append.mp hentry).elim (hmore entry) (hlater entry)

/-- Each challenge that is open is the latest of its connection, and each stored session was
created on some connection. -/
structure Recorded (s : Sessions) (history : List AuthEntry) : Prop where
  pending : ∀ i t, (s.connections i).pendingAuth = some t →
    Latest i t.managerNonce t.connectionId history
  stored : ∀ r, some r ∈ s.store.slots → ∃ j, .authenticated j r ∈ history

theorem Recorded.start : Recorded .start [] := by
  refine ⟨fun i t h => ?_, fun r h => ?_⟩
  · cases h
  · have := eq_of_mem_replicate h
    cases this

@[simp] theorem setConnection_same (s : Sessions) (i : ℕ) (c : Connection) :
    (s.setConnection i c).connections i = c := Function.update_self _ _ _

theorem setConnection_other (s : Sessions) {j : ℕ} (c : Connection) (h : j ≠ i) :
    (s.setConnection i c).connections j = s.connections j := Function.update_of_ne h _ _

/-- A step changes only the connection it is about. -/
theorem step_other (s : Sessions) (h : i ≠ e.connection) :
    (s.step host e).connections i = s.connections i := by
  cases e with
  | accept j _ _ _ _ => exact setConnection_other s _ h
  | request j env method params =>
    cases method with
    | challenge => exact setConnection_other s _ h
    | authenticate => exact setConnection_other s _ h
    | resume => exact setConnection_other s _ h
    | other => rfl

/-- Entries about one connection do not end the challenge of another. -/
theorem note_other {entry : AuthEntry} (h : i ≠ e.connection) (hentry : entry ∈ s.note host e) :
    ¬ entry.endsChallenge i := by
  intro hends
  cases e with
  | accept j _ _ _ _ =>
    rw [mem_singleton.mp hentry] at hends
    exact h hends.symm
  | request j env method params =>
    cases method with
    | challenge =>
      simp only [note] at hentry
      split at hentry
      · rw [mem_singleton.mp hentry] at hends
        exact h hends.symm
      · cases hentry
    | authenticate =>
      simp only [note] at hentry
      split at hentry
      · split at hentry
        · rw [mem_singleton.mp hentry] at hends
          exact h hends.symm
        · cases hentry
      · cases hentry
    | resume =>
      simp only [note] at hentry
      split at hentry
      · rw [mem_singleton.mp hentry] at hends
        exact hends
      · cases hentry
    | other => cases hentry

/-- A challenge holds the draws of its request. -/
theorem challengeOf_draws (h : challengeOf host env c params = .ok t) :
    t.managerNonce = env.nonce ∧ t.connectionId = env.connectionId := by
  simp only [challengeOf, bind_eq_ok, orRefuse_eq_ok, require_eq_ok, pure_eq_ok] at h
  obtain ⟨_, _, _, _, _, _, _, _, _, _, _, _, rfl⟩ := h
  exact ⟨rfl, rfl⟩

/-- The challenge that is open after an event on a connection. -/
theorem Recorded.step_pending (h : Recorded s history)
    (ht : ((s.step host e).connections e.connection).pendingAuth = some t) :
    Latest e.connection t.managerNonce t.connectionId (s.note host e ++ history) := by
  cases e with
  | accept i _ _ _ _ =>
    simp [Sessions.step, AuthEvent.connection, Connection.opened] at ht
  | request i env method params =>
    simp only [AuthEvent.connection] at ht ⊢
    cases method with
    | challenge =>
      simp only [Sessions.step, setConnection_same, authChallenge] at ht
      simp only [note]
      cases hchallenge : challengeOf host env (s.connections i) params with
      | error refusal =>
        rw [hchallenge] at ht
        exact h.pending i t ht
      | ok t' =>
        rw [hchallenge] at ht
        obtain rfl : t' = t := Option.some.inj ht
        obtain ⟨hnonce, hid⟩ := challengeOf_draws host hchallenge
        rw [hnonce, hid]
        exact ⟨[], history, rfl, by simp⟩
    | authenticate =>
      simp only [Sessions.step, authAuthenticate] at ht
      simp only [note]
      cases hsignature : signatureOf (s.connections i) params with
      | error refusal =>
        rw [hsignature] at ht
        simp only [setConnection_same] at ht
        exact h.pending i t ht
      | ok pair =>
        rw [hsignature] at ht
        dsimp only at ht
        split at ht <;> simp at ht
    | resume =>
      simp only [Sessions.step, setConnection_same, authResume] at ht
      refine (h.pending i t (by split at ht <;> exact ht)).append fun entry hentry => ?_
      simp only [note] at hentry
      split at hentry
      · rw [mem_singleton.mp hentry]
        exact id
      · cases hentry
    | other => exact h.pending i t ht

/-- Only an accepted authentication adds to the store. -/
theorem mem_slots_step {s : Sessions} {e : AuthEvent} {r : SessionRecord}
    (hr : some r ∈ (s.step host e).store.slots) :
    some r ∈ s.store.slots ∨ ∃ i env params t signatureHex,
      e = .request i env .authenticate params ∧
      signatureOf (s.connections i) params = .ok (t, signatureHex) ∧
      verified host t signatureHex = true ∧
      r = recordOf host { createSession host env (s.connections i) t with pendingAuth := none } := by
  cases e with
  | accept i _ _ _ _ => exact .inl hr
  | request i env method params =>
    cases method with
    | challenge => exact .inl hr
    | resume => exact .inl hr
    | other => exact .inl hr
    | authenticate =>
      simp only [Sessions.step, authAuthenticate] at hr
      cases hsignature : signatureOf (s.connections i) params with
      | error refusal =>
        rw [hsignature] at hr
        exact .inl hr
      | ok pair =>
        rw [hsignature] at hr
        dsimp only at hr
        split at hr
        · rename_i hverified
          rcases Store.mem_save hr with hnew | hmem
          · exact .inr ⟨i, env, params, pair.1, pair.2, rfl, hsignature, hverified, hnew⟩
          · exact .inl hmem
        · exact .inl hr

theorem Recorded.step {s : Sessions} {history : List AuthEntry} (h : Recorded s history)
    (e : AuthEvent) : Recorded (s.step host e) (s.note host e ++ history) := by
  refine ⟨fun i t ht => ?_, fun r hr => ?_⟩
  · by_cases hi : i = e.connection
    · subst hi
      exact h.step_pending host ht
    · rw [step_other host s hi] at ht
      exact (h.pending i t ht).append fun entry hentry => note_other host hi hentry
  · rcases mem_slots_step host hr with hmem |
      ⟨i, env, params, t, signatureHex, rfl, hsignature, hverified, hnew⟩
    · exact (h.stored r hmem).imp fun _ hj => mem_append_right _ hj
    · refine ⟨i, mem_append_left _ ?_⟩
      simp only [note, hsignature, hverified, if_true, hnew]
      exact mem_singleton_self _

theorem Reached.recorded (h : Reached host s history) : Recorded s history := by
  induction h with
  | start => exact .start
  | step _ e ih => exact ih.step host e

/-- The session a connection is authenticated by. -/
def identity (c : Connection) : Option (SessionInfo × Bytes × Bytes) :=
  if c.authenticated then some (c.session, c.resumeSecret, c.clientPublicKeyHex) else none

/-- A connection is authenticated as a client key: requests are authorised by the id of the key. -/
structure AuthenticatedAs (c : Connection) (key : Bytes) : Prop where
  authenticated : c.authenticated = true
  publicKey : c.clientPublicKeyHex = hexEncode key
  keyId : c.session.clientKeyId = host.crypto.keyId key

/-- A stored session was created for a client key. -/
structure CreatedFor (r : SessionRecord) (key : Bytes) : Prop where
  publicKey : r.clientPublicKeyHex = hexEncode key
  keyId : r.session.clientKeyId = host.crypto.keyId key

/-- Every stored session was created for some key. -/
theorem Reached.createdFor (h : Reached host s history) {r : SessionRecord}
    (hr : some r ∈ s.store.slots) : ∃ key, CreatedFor host r key := by
  induction h with
  | start => simp [Sessions.start, Store.empty] at hr
  | step _ e ih =>
    rcases mem_slots_step host hr with hmem | ⟨i, env, params, t, signatureHex, -, -, -, rfl⟩
    · exact ih hmem
    · exact ⟨t.clientPublicKey, rfl, rfl⟩

/-- The request has a signature that verifies under the key, over the transcript with the draws of
the connection's latest challenge, with which nothing was authenticated yet. -/
def ByChallenge (history : List AuthEntry) (e : AuthEvent) (i : ℕ) (key : Bytes) : Prop :=
  ∃ env params signatureHex signature message, ∃ t : Transcript,
    e = .request i env .authenticate params ∧
    getRequiredString params (ascii "signature") 129 = some signatureHex ∧
    hexDecode 64 signatureHex = some signature ∧ t.clientPublicKey = key ∧
    t.encoded host = some message ∧ host.crypto.verify key message signature = true ∧
    Latest i t.managerNonce t.connectionId history

/-- The authenticator of the request is its code under the secret of a stored session that was
created for the key, for the same peer and by this manager, and has not expired. -/
def ByResume (s : Sessions) (history : List AuthEntry) (e : AuthEvent) (i : ℕ) (key : Bytes) :
    Prop :=
  ∃ env params q clientNonce connectionId message j, ∃ r : SessionRecord,
    e = .request i env .resume params ∧ resumeRequestOf params = some q ∧
    s.store.find q.sessionId = some r ∧ .authenticated j r ∈ history ∧
    CreatedFor host r key ∧ r.managerGeneration = host.startedAtMs ∧
    r.peerUid = (s.connections i).countedUid ∧ r.peerGid = (s.connections i).countedGid ∧
    (r.session.expiresAtMs = 0 ∨ env.now ≤ r.session.expiresAtMs) ∧
    hexDecode 32 q.clientNonceHex = some clientNonce ∧
    hexDecode 16 q.connectionIdHex = some connectionId ∧
    resumeEncoded host (s.connections i).countedUid (s.connections i).countedGid q.sessionId
      clientNonce connectionId = some message ∧
    hexDecode 32 q.authenticatorHex = some (host.crypto.hmac r.resumeSecret message)

theorem hexDigit_injective : ∀ m < 16, ∀ n < 16, hexDigit m = hexDigit n → m = n := by decide

theorem hexEncode_injective {a b : Bytes} (h : hexEncode a = hexEncode b) : a = b := by
  induction a generalizing b with
  | nil =>
    have hlength := congrArg List.length h
    rw [hexEncode_length, hexEncode_length] at hlength
    exact (length_eq_zero_iff.mp (by simp only [length_nil] at hlength; omega)).symm
  | cons x a ih =>
    cases b with
    | nil =>
      have hlength := congrArg List.length h
      rw [hexEncode_length, hexEncode_length] at hlength
      simp at hlength
    | cons y b =>
      simp only [hexEncode, flatMap_cons, cons_append, nil_append,
        List.cons.injEq] at h
      obtain ⟨hhigh, hlow, hrest⟩ := h
      have hx := toNat_lt x
      have hy := toNat_lt y
      have hhigh := hexDigit_injective _ (by omega) _ (by omega) hhigh
      have hlow := hexDigit_injective _ (by omega) _ (by omega) hlow
      rw [eq_of_toNat_eq (by omega : x.toNat = y.toNat), ih hrest]

theorem signatureOf_eq_ok (h : signatureOf c params = .ok (t, signatureHex)) :
    c.pendingAuth = some t ∧
      getRequiredString params (ascii "signature") 129 = some signatureHex := by
  simp only [signatureOf, bind_eq_ok, orRefuse_eq_ok, pure_eq_ok, Prod.mk.injEq] at h
  obtain ⟨t', ht, signatureHex', hsignature, rfl, rfl⟩ := h
  exact ⟨ht, hsignature⟩

theorem exists_of_verified (h : verified host t signatureHex = true) :
    ∃ signature message, hexDecode 64 signatureHex = some signature ∧
      t.encoded host = some message ∧
      host.crypto.verify t.clientPublicKey message signature = true := by
  unfold verified at h
  split at h
  · rename_i signature message hsignature hmessage
    exact ⟨signature, message, hsignature, hmessage, h⟩
  · simp at h

theorem exists_of_authenticates {peerUid peerGid : ℕ} {q : ResumeRequest} {clientNonce : Bytes}
    (h : authenticates host peerUid peerGid q clientNonce connectionId r = true) :
    ∃ message,
      resumeEncoded host peerUid peerGid q.sessionId clientNonce connectionId = some message ∧
      hexDecode 32 q.authenticatorHex = some (host.crypto.hmac r.resumeSecret message) := by
  unfold authenticates at h
  split at h
  · rename_i message received hmessage hreceived
    exact ⟨message, hmessage, by rw [hreceived, of_decide_eq_true h]⟩
  · simp at h

/-- An authentication that is accepted goes by the latest challenge of its connection. -/
theorem byChallenge_of_verified (hrecorded : Recorded s history)
    (hsignature : signatureOf (s.connections i) params = .ok (t, signatureHex))
    (hverified : verified host t signatureHex = true) :
    ByChallenge host history (.request i env .authenticate params) i t.clientPublicKey := by
  obtain ⟨hpending, hhex⟩ := signatureOf_eq_ok hsignature
  obtain ⟨signature, message, hdecoded, hmessage, hverify⟩ := exists_of_verified host hverified
  exact ⟨env, params, signatureHex, signature, message, t, rfl, hhex, hdecoded, rfl, hmessage,
    hverify, hrecorded.pending i t hpending⟩

/-- A resumption that is accepted goes by a stored session. -/
theorem byResume_of_resumed (hrecorded : Recorded s history) {key : Bytes}
    (hresumed : resumed host env s.store (s.connections i) params = .ok r)
    (hkey : CreatedFor host r key) :
    ByResume host s history (.request i env .resume params) i key := by
  simp only [resumed, bind_eq_ok, orRefuse_eq_ok, require_eq_ok, pure_eq_ok] at hresumed
  obtain ⟨_, _, q, hq, record, hfind, _, hresumable, clientNonce, hnonce, connectionId, hid, _,
    hauthenticates, rfl⟩ := hresumed
  obtain ⟨j, hj⟩ := hrecorded.stored record (Store.mem_of_find hfind).1
  obtain ⟨message, hmessage, hreceived⟩ := exists_of_authenticates host hauthenticates
  simp only [SessionRecord.resumableBy, Bool.and_eq_true, decide_eq_true_eq, Bool.not_eq_true',
    Bool.and_eq_false_iff, decide_eq_false_iff_not] at hresumable
  obtain ⟨⟨⟨hgeneration, huid⟩, hgid⟩, hexpires⟩ := hresumable
  exact ⟨env, params, q, clientNonce, connectionId, message, j, record, rfl, hq, hfind, hj, hkey,
    hgeneration, huid, hgid, by omega, hnonce, hid, hmessage, hreceived⟩

theorem mem_slots_of_resumed (h : resumed host env s.store c params = .ok r) :
    some r ∈ s.store.slots := by
  simp only [resumed, bind_eq_ok, orRefuse_eq_ok, require_eq_ok, pure_eq_ok] at h
  obtain ⟨_, _, q, _, record, hfind, _, _, _, _, _, _, _, _, rfl⟩ := h
  exact (Store.mem_of_find hfind).1

theorem AuthenticatedAs.key_eq {key key' : Bytes} (h : AuthenticatedAs host c key)
    (h' : AuthenticatedAs host c key') : key = key' :=
  hexEncode_injective (h.publicKey.symm.trans h'.publicKey)

/-- In every run, a connection that comes to be authenticated is so as the client key whose
signature over its latest challenge was verified, or for which a session was created in the run that
it resumes; and both the key and its id are those of that key. -/
theorem authenticated_only_by {s : Sessions} {history : List AuthEntry}
    (h : Reached host s history) (e : AuthEvent) (i : ℕ)
    (hauthenticated : ((s.step host e).connections i).authenticated = true)
    (hnew : identity ((s.step host e).connections i) ≠ identity (s.connections i)) :
    (∃ key, AuthenticatedAs host ((s.step host e).connections i) key) ∧
      ∀ key, AuthenticatedAs host ((s.step host e).connections i) key →
        ByChallenge host history e i key ∨ ByResume host s history e i key := by
  suffices hkey : ∃ key, AuthenticatedAs host ((s.step host e).connections i) key ∧
      (ByChallenge host history e i key ∨ ByResume host s history e i key) by
    obtain ⟨key, hkey, hby⟩ := hkey
    exact ⟨⟨key, hkey⟩, fun _ hkey' => hkey.key_eq host hkey' ▸ hby⟩
  have hrecorded := h.recorded host
  have hi : i = e.connection := by
    by_contra hi
    rw [step_other host s hi] at hnew
    exact hnew rfl
  cases e with
  | accept j _ _ _ _ =>
    subst hi
    simp [Sessions.step, Connection.opened] at hauthenticated
  | request j env method params =>
    obtain rfl : i = j := hi
    cases method with
    | challenge =>
      refine absurd ?_ hnew
      simp only [Sessions.step, setConnection_same, authChallenge]
      split <;> rfl
    | authenticate =>
      simp only [Sessions.step, authAuthenticate] at hnew ⊢
      cases hsignature : signatureOf (s.connections i) params with
      | error refusal =>
        rw [hsignature] at hnew
        simp at hnew
      | ok pair =>
        obtain ⟨t, signatureHex⟩ := pair
        rw [hsignature] at hnew
        cases hverified : verified host t signatureHex with
        | false =>
          simp [hverified, identity] at hnew
        | true =>
          simp only [hverified, if_true, setConnection_same]
          exact ⟨t.clientPublicKey, ⟨rfl, rfl, rfl⟩,
            .inl (byChallenge_of_verified host hrecorded hsignature hverified)⟩
    | resume =>
      simp only [Sessions.step, setConnection_same, authResume] at hnew ⊢
      cases hresumed : resumed host env s.store (s.connections i) params with
      | error refusal =>
        rw [hresumed] at hnew
        exact absurd rfl hnew
      | ok r =>
        obtain ⟨key, hkey⟩ := h.createdFor host (mem_slots_of_resumed host hresumed)
        exact ⟨key, ⟨rfl, hkey.publicKey, hkey.keyId⟩,
          .inr (byResume_of_resumed host hrecorded hresumed hkey)⟩
    | other => exact absurd rfl hnew

/-- Zero bytes, in hexadecimal digits. -/
def zeros (n : ℕ) : Json := .str (List.replicate (2 * n) 0x30)

/-- A connection is opened, asks for a challenge and signs it. -/
def sampleChallenge : AuthEvent :=
  .request 0 .calm .challenge
    [(ascii "client_public_key", zeros 32), (ascii "client_nonce", zeros 32)]

def sampleSignature : AuthEvent := .request 0 .calm .authenticate [(ascii "signature", zeros 64)]

def sampleChallenged : Sessions :=
  (start.step .sample (.accept 0 true false 1000 1000)).step .sample sampleChallenge

theorem sample_authenticated :
    ∃ history, Reached .sample sampleChallenged history ∧
      ((∃ key, AuthenticatedAs .sample
          ((sampleChallenged.step .sample sampleSignature).connections 0) key) ∧
        ∀ key, AuthenticatedAs .sample
            ((sampleChallenged.step .sample sampleSignature).connections 0) key →
          ByChallenge .sample history sampleSignature 0 key ∨
            ByResume .sample sampleChallenged history sampleSignature 0 key) := by
  have hreached : Reached .sample sampleChallenged _ :=
    .step (.step .start (.accept 0 true false 1000 1000)) sampleChallenge
  refine ⟨_, hreached, authenticated_only_by .sample hreached sampleSignature 0 ?_ ?_⟩
  · decide +kernel
  · decide +kernel

end Sessions

/-- The id that is drawn for a session is a new one. -/
def AuthEvent.Fresh (history : List AuthEntry) : AuthEvent → Prop
  | .request _ env .authenticate _ =>
    ∀ j r, .authenticated j r ∈ history → r.session.sessionId ≠ env.id.text
  | _ => True

namespace Sessions
variable (host : Host)

/-- The states of a manager whose draws are fresh. -/
inductive FreshRun : Sessions → List AuthEntry → Prop
  | start : FreshRun start []
  | step {s : Sessions} {history : List AuthEntry} (h : FreshRun s history) {e : AuthEvent}
      (hfresh : e.Fresh history) : FreshRun (s.step host e) (s.note host e ++ history)

variable {s : Sessions} {e : AuthEvent} {j : ℕ} {r : SessionRecord} {q : ResumeRequest}
  {env : Surroundings} {c : Connection}

variable {history : List AuthEntry}

theorem FreshRun.reached (h : FreshRun host s history) : Reached host s history := by
  induction h with
  | start => exact .start
  | step _ _ ih => exact .step ih _

/-- What an entry says of the event it was made for. -/
def Notes (s : Sessions) (e : AuthEvent) : AuthEntry → Prop
  | .authenticated j r =>
    ∃ env params, e = .request j env .authenticate params ∧ r.session.sessionId = env.id.text
  | .resumed j q r =>
    ∃ env params, e = .request j env .resume params ∧ resumeRequestOf params = some q ∧
      Manager.resumed host env s.store (s.connections j) params = .ok r
  | _ => True

/-- An event is noted by one entry at most. -/
theorem note_cases (s : Sessions) (e : AuthEvent) :
    s.note host e = [] ∨ ∃ entry, s.note host e = [entry] ∧ Notes host s e entry := by
  unfold note
  split
  · exact .inr ⟨_, rfl, trivial⟩
  · split
    · exact .inr ⟨_, rfl, trivial⟩
    · exact .inl rfl
  · split
    · split_ifs
      · exact .inr ⟨_, rfl, _, _, rfl, rfl⟩
      · exact .inl rfl
    · exact .inl rfl
  · split
    · rename_i hq hr
      exact .inr ⟨_, rfl, _, _, rfl, hq, hr⟩
    · exact .inl rfl
  · exact .inl rfl

theorem mem_note {entry : AuthEntry} (h : entry ∈ s.note host e) :
    s.note host e = [entry] ∧ Notes host s e entry := by
  rcases note_cases host s e with hnil | ⟨noted, hone, hnotes⟩
  · rw [hnil] at h
    cases h
  · rw [hone] at h
    obtain rfl := mem_singleton.mp h
    exact ⟨hone, hnotes⟩

/-- Sessions that were created with one id are one session. -/
theorem FreshRun.record_unique (h : FreshRun host s history) {j' : ℕ} {r' : SessionRecord}
    (hr : .authenticated j r ∈ history) (hr' : .authenticated j' r' ∈ history)
    (hid : r.session.sessionId = r'.session.sessionId) : r = r' := by
  induction h with
  | start => cases hr
  | @step s history _ e hfresh ih =>
    have hnew : ∀ {j r}, .authenticated j r ∈ s.note host e →
        ∀ j' r', .authenticated j' r' ∈ history → r'.session.sessionId ≠ r.session.sessionId := by
      intro j r hnote
      obtain ⟨-, env, params, rfl, hid⟩ := mem_note host hnote
      exact hid ▸ hfresh
    rcases mem_append.mp hr with hnote | hold <;>
      rcases mem_append.mp hr' with hnote' | hold'
    · have hone := (mem_note host hnote).1
      rw [hone] at hnote'
      cases mem_singleton.mp hnote'
      rfl
    · exact absurd hid.symm (hnew hnote _ _ hold')
    · exact absurd hid (hnew hnote' _ _ hold)
    · exact ih hold hold'

/-- What `auth.resume` checks of a request and a session, the connection and the time apart. -/
def Authentic (q : ResumeRequest) (r : SessionRecord) : Prop :=
  r.session.sessionId = q.sessionId ∧
    ∃ clientNonce connectionId, hexDecode 32 q.clientNonceHex = some clientNonce ∧
      hexDecode 16 q.connectionIdHex = some connectionId ∧
      authenticates host r.peerUid r.peerGid q clientNonce connectionId r = true

theorem peer_of_resumableBy (h : r.resumableBy host env c = true) :
    r.peerUid = c.countedUid ∧ r.peerGid = c.countedGid := by
  simp only [SessionRecord.resumableBy, Bool.and_eq_true, decide_eq_true_eq] at h
  exact ⟨h.1.1.2, h.1.2⟩

theorem resumed_eq_ok_iff {store : Store} {params : Members} (hq : resumeRequestOf params =
    some q) :
    Manager.resumed host env store c params = .ok r ↔
      (c.hasPeerCredentials || c.isTls) = true ∧ store.find q.sessionId = some r ∧
        r.resumableBy host env c = true ∧ Authentic host q r := by
  simp only [Manager.resumed, bind_eq_ok, orRefuse_eq_ok, require_eq_ok, pure_eq_ok, hq,
    Option.some.injEq]
  constructor
  · rintro ⟨_, hpeer, _, rfl, record, hfind, _, hresumable, clientNonce, hnonce, connectionId, hid,
      _, hauthenticates, rfl⟩
    obtain ⟨huid, hgid⟩ := peer_of_resumableBy host hresumable
    rw [← huid, ← hgid] at hauthenticates
    exact ⟨hpeer, hfind, hresumable, (Store.mem_of_find hfind).2, clientNonce, connectionId, hnonce,
      hid, hauthenticates⟩
  · rintro ⟨hpeer, hfind, hresumable, -, clientNonce, connectionId, hnonce, hid, hauthenticates⟩
    obtain ⟨huid, hgid⟩ := peer_of_resumableBy host hresumable
    rw [huid, hgid] at hauthenticates
    exact ⟨(), hpeer, q, rfl, r, hfind, (), hresumable, clientNonce, hnonce, connectionId, hid, (),
      hauthenticates, rfl⟩

/-- An accepted request is authentic for a session that was created in the run. -/
theorem Reached.authentic_of_resumed (h : Reached host s history)
    (hresumed : .resumed j q r ∈ history) :
    Authentic host q r ∧ ∃ i, .authenticated i r ∈ history := by
  induction h with
  | start => cases hresumed
  | @step s history hrun e ih =>
    rcases mem_append.mp hresumed with hnote | hold
    · obtain ⟨-, env, params, -, hq, hok⟩ := mem_note host hnote
      obtain ⟨-, hfind, -, hauthentic⟩ := (resumed_eq_ok_iff host hq).mp hok
      obtain ⟨i, hi⟩ := (hrun.recorded host).stored r (Store.mem_of_find hfind).1
      exact ⟨hauthentic, i, mem_append_right _ hi⟩
    · obtain ⟨hauthentic, i, hi⟩ := ih hold
      exact ⟨hauthentic, i, mem_append_right _ hi⟩

/-- A request that was accepted once is refused exactly when the connection has no peer, or the
session is no longer stored, or it cannot be resumed by this peer at this time. -/
theorem resume_refused_again_iff {s : Sessions} {history : List AuthEntry}
    (hrun : FreshRun host s history) {j : ℕ} {q : ResumeRequest} {r : SessionRecord}
    (haccepted : .resumed j q r ∈ history) (i : ℕ) (env : Surroundings) {params : Members}
    (hq : resumeRequestOf params = some q) :
    (∀ r', Manager.resumed host env s.store (s.connections i) params ≠ .ok r') ↔
      ((s.connections i).hasPeerCredentials || (s.connections i).isTls) = false ∨
        s.store.find q.sessionId ≠ some r ∨ r.resumableBy host env (s.connections i) = false := by
  have hreached := hrun.reached host
  obtain ⟨hauthentic, j', hj'⟩ := hreached.authentic_of_resumed host haccepted
  -- the session that is found by the id is the one it was accepted with
  have hsame : ∀ r', s.store.find q.sessionId = some r' → r' = r := by
    intro r' hfind
    obtain ⟨hmem, hid⟩ := Store.mem_of_find hfind
    obtain ⟨k, hk⟩ := (hreached.recorded host).stored r' hmem
    exact hrun.record_unique host hk hj' (hid.trans hauthentic.1.symm)
  rw [← not_iff_not]
  simp only [not_forall, not_not, not_or, Bool.not_eq_false]
  constructor
  · rintro ⟨r', hok⟩
    obtain ⟨hpeer, hfind, hresumable, -⟩ := (resumed_eq_ok_iff host hq).mp hok
    obtain rfl := hsame r' hfind
    exact ⟨hpeer, hfind, hresumable⟩
  · rintro ⟨hpeer, hfind, hresumable⟩
    exact ⟨r, (resumed_eq_ok_iff host hq).mpr ⟨hpeer, hfind, hresumable, hauthentic⟩⟩

def sampleResume (i : ℕ) : AuthEvent :=
  .request i .calm .resume
    [(ascii "session_id", zeros 16), (ascii "client_nonce", zeros 32),
      (ascii "connection_id", zeros 16), (ascii "authenticator", zeros 32)]

def sampleRequest : ResumeRequest :=
  ⟨List.replicate 32 0x30, List.replicate 64 0x30, List.replicate 32 0x30, List.replicate 64 0x30⟩

/-- The session that the sample connection creates. -/
def sampleRecord : SessionRecord :=
  ⟨⟨List.replicate 32 0x30, List.replicate 32 0x30, 1, 43200001⟩, List.replicate 32 0, 1000, 1000,
    1, List.replicate 64 0x30⟩

/-- The session was resumed once, and another connection is open. -/
def sampleResumed (peerUid : ℕ) : Sessions :=
  (((sampleChallenged.step .sample sampleSignature).step .sample
    (.accept 1 true false 1000 1000)).step .sample (sampleResume 1)).step .sample
    (.accept 2 true false peerUid 1000)

def sampleHistory : List AuthEntry :=
  [.opened 2, .resumed 1 sampleRequest sampleRecord, .opened 1, .authenticated 0 sampleRecord,
    .challenged 0 (List.replicate 32 0) (List.replicate 16 0), .opened 0]

theorem sampleResumed_run (peerUid : ℕ) :
    FreshRun .sample (sampleResumed peerUid) sampleHistory := by
  have hopened : FreshRun .sample (start.step .sample (.accept 0 true false 1000 1000))
      [.opened 0] := .step .start trivial
  have hchallenged : FreshRun .sample sampleChallenged
      [.challenged 0 (List.replicate 32 0) (List.replicate 16 0), .opened 0] := by
    have hnote : (start.step .sample (.accept 0 true false 1000 1000)).note .sample
        sampleChallenge = [.challenged 0 (List.replicate 32 0) (List.replicate 16 0)] := by
      decide +kernel
    have hstep := hopened.step (e := sampleChallenge) trivial
    rwa [hnote] at hstep
  have hsigned : FreshRun .sample (sampleChallenged.step .sample sampleSignature)
      (.authenticated 0 sampleRecord ::
        [.challenged 0 (List.replicate 32 0) (List.replicate 16 0), .opened 0]) := by
    have hnote : sampleChallenged.note .sample sampleSignature =
        [.authenticated 0 sampleRecord] := by
      decide +kernel
    have hfresh : sampleSignature.Fresh
        [.challenged 0 (List.replicate 32 0) (List.replicate 16 0), .opened 0] := by
      intro j r hmem
      simp at hmem
    have hstep := hchallenged.step hfresh
    rwa [hnote] at hstep
  have haccepted := hsigned.step (e := .accept 1 true false 1000 1000) trivial
  have hresumed := haccepted.step (e := sampleResume 1) trivial
  have hnote : ((sampleChallenged.step .sample sampleSignature).step .sample
      (.accept 1 true false 1000 1000)).note .sample (sampleResume 1) =
      [.resumed 1 sampleRequest sampleRecord] := by
    decide +kernel
  rw [hnote] at hresumed
  exact hresumed.step (e := .accept 2 true false peerUid 1000) trivial

/-- The request is refused on a connection of another user. -/
theorem sample_resume_refused :
    ¬ ∃ r', Manager.resumed .sample .calm (sampleResumed 1001).store
      ((sampleResumed 1001).connections 2)
      [(ascii "session_id", zeros 16), (ascii "client_nonce", zeros 32),
        (ascii "connection_id", zeros 16), (ascii "authenticator", zeros 32)] = .ok r' :=
  not_exists.mpr <| (resume_refused_again_iff .sample (sampleResumed_run 1001)
    (show .resumed 1 sampleRequest sampleRecord ∈ sampleHistory by decide +kernel) 2 .calm
    (by decide +kernel)).mpr (.inr (.inr (by decide +kernel)))

/-- On a connection of the same user it is accepted again. -/
theorem sample_resume_accepted_twice :
    ∃ s history, FreshRun .sample s history ∧ .resumed 1 sampleRequest sampleRecord ∈ history ∧
      .resumed 2 sampleRequest sampleRecord ∈ history := by
  refine ⟨_, _, (sampleResumed_run 1000).step (e := sampleResume 2) trivial, ?_, ?_⟩
  · exact mem_append_right _ (by decide +kernel)
  · exact mem_append_left _ (by decide +kernel)

end Sessions

end Cubicle.Manager
