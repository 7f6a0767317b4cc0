import Cubicle.CStrings
import Cubicle.RecordFiles
import Cubicle.RpcEnvelope

/-!
# Connections to recorded remotes

`cube remote add` records a manager under a name, with its endpoint and its public key. Later the
name is looked up and a connection is opened to the endpoint: with a session kept from an earlier
connection, by answering a challenge, or by the bootstrap of local sessions. What matters here is
what the client has given away at each point, and which key the server has shown by then.
-/

namespace Cubicle.Remotes
open ByteText CStrings RecordFiles JsonText RpcEnvelope

structure RemoteRecord where
  name : Bytes
  uri : Bytes
  managerId : Bytes
  managerPublicKey : Bytes
  addedAtMs : ℕ

def isNameByte (b : UInt8) : Bool :=
  (0x41 ≤ b.toNat && b.toNat ≤ 0x5a) || (0x61 ≤ b.toNat && b.toNat ≤ 0x7a) || isCDigit b ||
    b = 0x5f || b = 0x2d || b = 0x2e

def remoteNameValid (name : Bytes) : Bool :=
  !name.isEmpty && name.length < 256 && name.all isNameByte

def remoteFieldValid (value : Bytes) : Bool := 0x09 ∉ value && 0x0a ∉ value && 0x0d ∉ value

/-- `cube_remote_parse_line`: what follows a fifth tab is not looked at. -/
def cubeRemoteParseLine (line : Bytes) : Option RemoteRecord :=
  if 1024 ≤ line.length then none
  else
    match (cutNewline line).splitOn 0x09 with
    | name :: uri :: managerId :: managerPublicKey :: added :: _ =>
      if remoteNameValid name && remoteFieldValid uri && remoteFieldValid managerId &&
          remoteFieldValid managerPublicKey then
        some ⟨name, clip 512 uri, clip 33 managerId, clip 256 managerPublicKey, strtoull added⟩
      else none
    | _ => none

/-- `cube_remote_load`: a registry that does not exist is empty. -/
def cubeRemoteLoad (registry : Option Bytes) : Option (List RemoteRecord) :=
  match registry with
  | none => some []
  | some text => (fgetsLines 1024 text).mapM cubeRemoteParseLine

def cubeRemoteFind (records : List RemoteRecord) (name : Bytes) : Option RemoteRecord :=
  records.find? (·.name = name)

/-- `cube_remote_uri_for_name`: of the record only the endpoint is used. -/
def cubeRemoteUriForName (registry : Option Bytes) (name : Bytes) : Option Bytes := do
  let records ← cubeRemoteLoad registry
  let record ← cubeRemoteFind records name
  return record.uri

/-- The name and the endpoint of a line, as desk reads it. -/
def deskRemoteLine (line : Bytes) : Option (Bytes × Bytes) :=
  match (cutNewline line).splitOn 0x09 with
  | name :: uri :: _ => some (name, uri)
  | _ => none

def deskRemoteUriForName (registry : Option Bytes) (name : Bytes) : Option Bytes := do
  let text ← registry
  let found ← ((fgetsLines 4096 text).filterMap deskRemoteLine).find? (·.1 = name)
  if found.2.length < 512 then return found.2 else none

inductive Program
  | cube | desk

def Program.uriForName : Program → Option Bytes → Bytes → Option Bytes
  | .cube => cubeRemoteUriForName
  | .desk => deskRemoteUriForName

/-- An answer that is no result has the code of its error; a result that cannot be read is a
protocol error. -/
inductive Answer
  | failed (code : ErrorCode)
  | result (members : Members)

/-- The answers of a server to the requests of one opening. -/
structure Server where
  resume : Answer
  challenge : Answer
  authenticate : Answer
  bootstrap : Answer

def hexValue (b : UInt8) : Option ℕ :=
  if isCDigit b then some (b.toNat - 0x30)
  else if 0x61 ≤ b.toNat ∧ b.toNat ≤ 0x66 then some (b.toNat - 0x61 + 10)
  else if 0x41 ≤ b.toNat ∧ b.toNat ≤ 0x46 then some (b.toNat - 0x41 + 10)
  else none

def hexPairs : Bytes → Option Bytes
  | [] => some []
  | [_] => none
  | high :: low :: rest => do
    let h ← hexValue high
    let l ← hexValue low
    let bytes ← hexPairs rest
    return UInt8.ofNat (h * 16 + l) :: bytes

def hexDecode (size : ℕ) (text : Bytes) : Option Bytes :=
  if text.length = size * 2 then hexPairs text else none

/-- The public key an answer shows. -/
def shownKey (result : Members) : Option Bytes :=
  (getString result (ascii "manager_public_key") 256).bind (hexDecode 32)

/-- `parse_session_result`, down to the id of the session. -/
def parseSessionResult (result : Members) : Option Bytes := do
  let sessionId ← getString result (ascii "session_id") 33
  let _ ← getString result (ascii "manager_id") 33
  let _ ← getString result (ascii "client_key_id") 33
  let _ ← getU64 result (ascii "protocol_major")
  return sessionId

/-- A challenge that can be signed. -/
def challengeValid (result : Members) : Bool :=
  ((getString result (ascii "manager_public_key") 65).bind (hexDecode 32)).isSome &&
    ((getString result (ascii "manager_nonce") 65).bind (hexDecode 32)).isSome &&
    ((getString result (ascii "connection_id") 33).bind (hexDecode 16)).isSome &&
    (getU64 result (ascii "protocol_major")).isSome

/-- A session kept from an earlier connection, if it has not expired. -/
structure CachedSession where
  sessionId : Bytes
  clientKeyId : Bytes

/-- What the client has: its key, if there is one, whether it can be used to sign, and what is in
the cache for the endpoint. -/
structure Client where
  keyId : Option Bytes
  canSign : Bool
  cached : Bytes → Option CachedSession

/-- What passes between the client and the server. -/
inductive Event
  | sentResume (sessionId : Bytes)
  | sentChallenge
  | sentSignature
  | sentBootstrap
  | sentRequest
  | answered (key : Option Bytes)
deriving DecidableEq

/-- The cached session for an endpoint that belongs to the client's key. -/
def Client.usable (client : Client) (uri keyId : Bytes) : Option CachedSession :=
  (client.cached uri).filter (·.clientKeyId = keyId)

section Opening
variable (client : Client) (server : Server)

def bootstrapLocalSession : List Event × Bool :=
  match server.bootstrap with
  | .failed _ => ([.sentBootstrap], false)
  | .result result => ([.sentBootstrap, .answered (shownKey result)],
      (parseSessionResult result).isSome)

def resumeUnixSession (uri keyId : Bytes) : List Event × Bool :=
  match client.usable uri keyId with
  | none => ([], false)
  | some cached =>
    match server.resume with
    | .failed _ => ([.sentResume cached.sessionId], false)
    | .result result => ([.sentResume cached.sessionId, .answered (shownKey result)],
        parseSessionResult result = some cached.sessionId)

/-- Errors after which an old manager is assumed. -/
def IsOld (code : ErrorCode) : Prop := code = .unsupported ∨ code = .protocol

instance (code : ErrorCode) : Decidable (IsOld code) := by
  unfold IsOld
  infer_instance

def answerChallenge : List Event × Bool :=
  match server.challenge with
  | .failed code =>
    if IsOld code then
      (.sentChallenge :: (bootstrapLocalSession server).1, (bootstrapLocalSession server).2)
    else ([.sentChallenge], false)
  | .result result =>
    let events := [.sentChallenge, .answered (shownKey result)]
    if challengeValid result && client.canSign then
      match server.authenticate with
      | .failed _ => (events ++ [.sentSignature], false)
      | .result session => (events ++ [.sentSignature, .answered (shownKey session)],
          (parseSessionResult session).isSome)
    else (events, false)

def plainTcp (uri : Bytes) : Bool := (ascii "tcp://").isPrefixOf uri

def authenticateUnixSession (uri : Bytes) : List Event × Bool :=
  if plainTcp uri then bootstrapLocalSession server
  else
    match client.keyId with
    | none => ([], false)
    | some keyId =>
      let resumed := resumeUnixSession client server uri keyId
      if resumed.2 then resumed
      else
        let answered := answerChallenge client server
        (resumed.1 ++ answered.1, answered.2)

/-- `cubicle_client_connect`, and the first request of a connection that is open. -/
def clientConnect (uri : Bytes) : List Event :=
  let opened := authenticateUnixSession client server uri
  opened.1 ++ if opened.2 then [.sentRequest] else []

def connectRemote (program : Program) (registry : Option Bytes) (name : Bytes) : List Event :=
  match program.uriForName registry name with
  | none => []
  | some uri => clientConnect client server uri

end Opening

/-- What is for the recorded manager only. -/
def Event.Released : Event → Prop
  | .sentResume _ => True
  | .sentSignature => True
  | .sentRequest => True
  | _ => False

/-- Everything that is for the manager with a key is sent after the server has shown that key. -/
def PinnedFrom (key : Bytes) : Prop → List Event → Prop
  | _, [] => True
  | shown, e :: rest =>
    (e.Released → shown) ∧ PinnedFrom key (shown ∨ e = .answered (some key)) rest

def Pinned (key : Bytes) (events : List Event) : Prop := PinnedFrom key False events

theorem pinnedFrom_true (key : Bytes) (events : List Event) : PinnedFrom key True events := by
  induction events with
  | nil => trivial
  | cons e rest ih =>
    refine ⟨fun _ => trivial, ?_⟩
    rw [true_or]
    exact ih

def Server.BootstrapShows (server : Server) (key : Bytes) : Prop :=
  ∀ result, server.bootstrap = .result result → (parseSessionResult result).isSome = true →
    shownKey result = some key

/-- A challenge the client can sign shows the key, and so does a bootstrap that replaces one. -/
structure Server.ChallengeShows (server : Server) (client : Client) (key : Bytes) : Prop where
  signed : ∀ result, server.challenge = .result result → challengeValid result = true →
    client.canSign = true → shownKey result = some key
  replaced : ∀ code, server.challenge = .failed code → IsOld code → server.BootstrapShows key

/-- No session is kept for the endpoint, and the server shows the key whenever the client would go
on. -/
def Shows (client : Client) (server : Server) (key uri : Bytes) : Prop :=
  if plainTcp uri then server.BootstrapShows key
  else ∀ keyId, client.keyId = some keyId →
    client.usable uri keyId = none ∧ server.ChallengeShows client key

theorem pinned_bootstrap (server : Server) (key : Bytes) (first : List Event)
    (hfirst : first = [] ∨ first = [.sentChallenge]) :
    Pinned key (first ++ (bootstrapLocalSession server).1 ++
        if (bootstrapLocalSession server).2 then [.sentRequest] else []) ↔
      server.BootstrapShows key := by
  unfold bootstrapLocalSession Server.BootstrapShows
  cases server.bootstrap with
  | failed code =>
    rcases hfirst with rfl | rfl
    · simp [Pinned, PinnedFrom, Event.Released]
    · simp [Pinned, PinnedFrom, Event.Released]
  | result result =>
    cases hsession : parseSessionResult result with
    | none =>
      rcases hfirst with rfl | rfl
      · simp [Pinned, PinnedFrom, Event.Released, hsession]
      · simp [Pinned, PinnedFrom, Event.Released, hsession]
    | some session =>
      rcases hfirst with rfl | rfl
      · simp [Pinned, PinnedFrom, Event.Released, hsession]
      · simp [Pinned, PinnedFrom, Event.Released, hsession]

theorem pinned_challenge (client : Client) (server : Server) (key : Bytes) :
    Pinned key ((answerChallenge client server).1 ++
        if (answerChallenge client server).2 then [.sentRequest] else []) ↔
      server.ChallengeShows client key := by
  cases hchallenge : server.challenge with
  | failed code =>
    have hiff : server.ChallengeShows client key ↔ (IsOld code → server.BootstrapShows key) := by
      constructor
      · exact fun h => h.replaced code hchallenge
      · refine fun h => ⟨fun result hresult => ?_, fun code' hcode => ?_⟩
        · simp [hchallenge] at hresult
        · obtain rfl : code = code' := by simpa [hchallenge] using hcode
          exact h
    rw [hiff]
    unfold answerChallenge
    simp only [hchallenge]
    by_cases hold : IsOld code
    · simp only [hold, if_true, true_implies]
      exact pinned_bootstrap server key [.sentChallenge] (.inr rfl)
    · simp [hold, Pinned, PinnedFrom, Event.Released]
  | result result =>
    have hiff : server.ChallengeShows client key ↔
        (challengeValid result = true → client.canSign = true → shownKey result = some key) := by
      constructor
      · exact fun h => h.signed result hchallenge
      · refine fun h => ⟨fun result' hresult => ?_, fun code hcode => ?_⟩
        · obtain rfl : result = result' := by simpa [hchallenge] using hresult
          exact h
        · simp [hchallenge] at hcode
    rw [hiff]
    unfold answerChallenge
    simp only [hchallenge]
    cases challengeValid result with
    | false => simp [Pinned, PinnedFrom, Event.Released]
    | true =>
      cases client.canSign with
      | false => simp [Pinned, PinnedFrom, Event.Released]
      | true =>
        simp only [Bool.and_self, if_true, true_implies]
        by_cases hkey : shownKey result = some key
        · simp only [hkey, iff_true]
          cases server.authenticate with
          | failed code => simp [Pinned, PinnedFrom, Event.Released]
          | result session => simp [Pinned, PinnedFrom, Event.Released, pinnedFrom_true]
        · cases server.authenticate with
          | failed code => simp [Pinned, PinnedFrom, Event.Released, hkey]
          | result session => simp [Pinned, PinnedFrom, Event.Released, hkey]

/-- What a connection through the name of a remote gives away goes to the recorded key exactly when
the server at the endpoint shows that key of itself: no session is kept for the endpoint, and
the challenge to be signed, or the bootstrap that is taken for it, names the key. -/
theorem connection_pinned_iff (program : Program) (registry : Option Bytes) (name key : Bytes)
    (client : Client) (server : Server) :
    Pinned key (connectRemote client server program registry name) ↔
      ∀ uri, program.uriForName registry name = some uri → Shows client server key uri := by
  unfold connectRemote
  cases program.uriForName registry name with
  | none => simp [Pinned, PinnedFrom]
  | some uri =>
    simp only [Option.some.injEq, forall_eq', clientConnect, authenticateUnixSession, Shows]
    by_cases htcp : plainTcp uri = true
    · simp only [htcp, if_true]
      exact pinned_bootstrap server key [] (.inl rfl)
    · rw [Bool.not_eq_true] at htcp
      simp only [htcp, Bool.false_eq_true, if_false]
      cases client.keyId with
      | none => simp [Pinned, PinnedFrom]
      | some keyId =>
        simp only [Option.some.injEq, forall_eq']
        cases hcached : client.usable uri keyId with
        | none =>
          simp only [resumeUnixSession, hcached, Bool.false_eq_true, if_false, List.nil_append,
            true_and]
          exact pinned_challenge client server key
        | some cached =>
          simp only [resumeUnixSession, hcached, reduceCtorEq, false_and, iff_false]
          cases server.resume with
          | failed code => simp [Pinned, PinnedFrom, Event.Released]
          | result result =>
            dsimp only
            split_ifs <;> simp [Pinned, PinnedFrom, Event.Released]

/-- A registry with one remote, whose key is all zeros. -/
def zeroRegistry : Bytes :=
  ascii "a\ttls://h:1\tm\t" ++ List.replicate 64 0x30 ++ ascii "\t1\n"

/-- A server that shows a key of its own and accepts any signature. -/
def otherServer : Server where
  resume := .failed .sessionExpired
  challenge := .result
    [(ascii "manager_public_key", .str (List.replicate 64 0x31)),
      (ascii "manager_nonce", .str (List.replicate 64 0x30)),
      (ascii "connection_id", .str (List.replicate 32 0x30)),
      (ascii "protocol_major", .uint 1)]
  authenticate := .result
    [(ascii "session_id", .str (ascii "s")), (ascii "manager_id", .str (ascii "m")),
      (ascii "client_key_id", .str (ascii "c")), (ascii "protocol_major", .uint 1)]
  bootstrap := .failed .unsupported

def newClient : Client := ⟨some (ascii "c"), true, fun _ => none⟩

/-- The remote is recorded with one key and the client signs for a server with another. -/
theorem signed_for_another_key :
    ((cubeRemoteLoad (some zeroRegistry)).bind fun records =>
        (cubeRemoteFind records (ascii "a")).bind fun record =>
          hexDecode 32 record.managerPublicKey) = some (List.replicate 32 0) ∧
      connectRemote newClient otherServer .cube (some zeroRegistry) (ascii "a") =
        [.sentChallenge, .answered (some (List.replicate 32 0x11)), .sentSignature,
          .answered none, .sentRequest] ∧
      ¬ Pinned (List.replicate 32 0)
        (connectRemote newClient otherServer .cube (some zeroRegistry) (ascii "a")) := by
  have hevents : connectRemote newClient otherServer .cube (some zeroRegistry) (ascii "a") =
      [.sentChallenge, .answered (some (List.replicate 32 0x11)), .sentSignature,
        .answered none, .sentRequest] := by
    decide +kernel
  refine ⟨by decide +kernel, hevents, ?_⟩
  rw [hevents]
  simp [Pinned, PinnedFrom, Event.Released]

end Cubicle.Remotes
