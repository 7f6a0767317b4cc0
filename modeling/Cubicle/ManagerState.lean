import Cubicle.ControllerState
import Cubicle.ManagerRecords

/-!
# The state of the manager

The registry files, a client's connection, and what the world answers while one request is
handled: the clock, the file system, random draws and the controllers. The authorisation checks
are here as well, since every handler makes them.
-/

namespace Cubicle.Manager
open ByteText CStrings RecordFiles JsonEncoding RpcEnvelope List

def capWorkspaceRead : ℕ := 2 ^ 0
def capWorkspaceRename : ℕ := 2 ^ 1
def capWorkspaceStop : ℕ := 2 ^ 2
def capWorkspaceDelete : ℕ := 2 ^ 3
def capWorkspaceManageKeys : ℕ := 2 ^ 4
def capWorkspaceManageMacros : ℕ := 2 ^ 5
def capProcessStart : ℕ := 2 ^ 8
def capProcessRead : ℕ := 2 ^ 9
def capProcessObserve : ℕ := 2 ^ 10
def capProcessInput : ℕ := 2 ^ 11
def capProcessSignal : ℕ := 2 ^ 12
def capProcessRemove : ℕ := 2 ^ 13
def capEventsRead : ℕ := 2 ^ 16

def roleOwnerCapabilities : ℕ :=
  capWorkspaceRead ||| capWorkspaceRename ||| capWorkspaceStop ||| capWorkspaceDelete |||
    capWorkspaceManageKeys ||| capWorkspaceManageMacros ||| capProcessStart ||| capProcessRead |||
    capProcessObserve ||| capProcessInput ||| capProcessSignal ||| capProcessRemove |||
    capEventsRead

def hexEncode (bytes : Bytes) : Bytes :=
  bytes.flatMap fun b => [hexDigit (b.toNat / 16), hexDigit (b.toNat % 16)]

structure Crypto where
  sha256 : Bytes → Bytes
  sha256_length : ∀ message, (sha256 message).length = 32
  verify : (publicKey message signature : Bytes) → Bool
  hmac : (secret message : Bytes) → Bytes

/-- `cubicle_auth_key_fingerprint`: the digest of a key in hexadecimal digits. -/
def Crypto.fingerprint (crypto : Crypto) (publicKey : Bytes) : Bytes :=
  hexEncode (crypto.sha256 publicKey)

/-- The first half of the fingerprint. -/
def Crypto.keyId (crypto : Crypto) (publicKey : Bytes) : Bytes :=
  (crypto.fingerprint publicKey).take 32

theorem hexEncode_length (bytes : Bytes) : (hexEncode bytes).length = 2 * bytes.length := by
  induction bytes with
  | nil => rfl
  | cons b t ih =>
    have hcons : hexEncode (b :: t) =
        [hexDigit (b.toNat / 16), hexDigit (b.toNat % 16)] ++ hexEncode t := rfl
    rw [hcons, length_append, ih]
    simp only [length_cons, length_nil]
    omega

theorem hexDigit_clean : ∀ n < 16, isSeparator (hexDigit n) = false ∧ hexDigit n ≠ 0 := by decide

theorem clean_hexEncode (bytes : Bytes) : Clean (hexEncode bytes) := by
  intro b hb
  obtain ⟨c, -, hc⟩ := mem_flatMap.mp hb
  have hlt := toNat_lt c
  simp only [mem_cons, not_mem_nil, or_false] at hc
  rcases hc with rfl | rfl
  · exact hexDigit_clean _ (by omega)
  · exact hexDigit_clean _ (by omega)

theorem Crypto.fingerprint_length (crypto : Crypto) (publicKey : Bytes) :
    (crypto.fingerprint publicKey).length = 64 := by
  rw [fingerprint, hexEncode_length, crypto.sha256_length]

theorem Crypto.keyId_length (crypto : Crypto) (publicKey : Bytes) :
    (crypto.keyId publicKey).length = 32 := by
  rw [keyId, length_take, crypto.fingerprint_length]
  rfl

theorem Crypto.clean_keyId (crypto : Crypto) (publicKey : Bytes) :
    Clean (crypto.keyId publicKey) :=
  fun b hb => clean_hexEncode _ b (mem_of_mem_take hb)

/-- Sixteen random bytes, used as hexadecimal text. -/
structure RandomId where
  bytes : Bytes
  length_eq : bytes.length = 16

/-- `cubicle_generate_hex_id`. -/
def RandomId.text (id : RandomId) : Bytes := hexEncode id.bytes

theorem RandomId.text_length (id : RandomId) : id.text.length = 32 := by
  rw [text, hexEncode_length, id.length_eq]

theorem RandomId.clean_text (id : RandomId) : Clean id.text := clean_hexEncode id.bytes

theorem RandomId.text_ne_nil (id : RandomId) : id.text ≠ [] := by
  intro h
  have := id.text_length
  simp [h] at this

/-- The files in the state directory; a missing file is an empty one. -/
structure Registry where
  workspaces : Bytes
  processes : Bytes
  workspaceKeys : Bytes
  managerKeys : Bytes
  workspaceMacros : Bytes
  cursors : Bytes
  workspaceEvents : Bytes

def Registry.empty : Registry := ⟨[], [], [], [], [], [], []⟩

/-- What does not change while one manager runs. -/
structure Host where
  crypto : Crypto
  euid : ℕ
  managerId : Bytes
  publicKey : Bytes
  startedAtMs : ℕ

/-- `cubicle_auth_transcript_t`, without the fields that are the same in all of them. -/
structure Transcript where
  clientPublicKey : Bytes
  clientNonce : Bytes
  managerNonce : Bytes
  connectionId : Bytes
  managerGeneration : ℕ
  peerUid : ℕ
  peerGid : ℕ
  workspaceRef : Bytes
deriving DecidableEq

structure SessionInfo where
  sessionId : Bytes
  clientKeyId : Bytes
  authenticatedAtMs : ℕ
  expiresAtMs : ℕ
deriving DecidableEq

structure Connection where
  hasPeerCredentials : Bool
  isTls : Bool
  peerUid : ℕ
  peerGid : ℕ
  pendingAuth : Option Transcript
  authenticated : Bool
  session : SessionInfo
  resumeSecret : Bytes
  clientPublicKeyHex : Bytes
deriving DecidableEq

/-- A new connection: everything but the peer is zero. -/
def Connection.opened (hasPeerCredentials isTls : Bool) (peerUid peerGid : ℕ) : Connection where
  hasPeerCredentials := hasPeerCredentials
  isTls := isTls
  peerUid := peerUid
  peerGid := peerGid
  pendingAuth := none
  authenticated := false
  session := ⟨[], [], 0, 0⟩
  resumeSecret := []
  clientPublicKeyHex := []

inductive Reply
  | success (result : Bytes)
  | failure (code : ErrorCode) (message : Bytes) (retryable : Bool) (systemErrno : Int32)
  | disconnect
deriving DecidableEq

def Reply.empty : Reply := .success (ascii "\x7b\x7d")

/-- Errors about the request or the state carry no error number. -/
def Reply.refusal (code : ErrorCode) (message : String) : Reply :=
  .failure code (ascii message) false 0

def Reply.ioFailure (message : String) (errno : Int32) : Reply :=
  .failure .io (ascii message) true errno

def Reply.isSuccess : Reply → Bool
  | .success _ => true
  | _ => false

structure FieldText (size : ℕ) where
  text : Bytes
  clean : Clean text
  length_lt : text.length < size

/-- How far the start of a controller got. -/
inductive Launching
  | pathTooLong
  | pathsFailed (errno : Int32)
  | historyFailed (errno : Int32)
  | failed (errno : Int32)
  | ready (exited : Bool) (controllerId : Except Int32 (FieldText 33))
      (controlSocket : FieldText 4096)

/-- An append that fails, with the bytes of the line that are in the file all the same. -/
structure AppendFailure where
  errno : Int32
  written : ℕ

/-- What the world answers while one request is handled. Functions of a number answer the calls
of one kind in their order; no error number is success. -/
structure Surroundings where
  now : ℕ
  now_pos : 0 < now
  now_lt : now < 2 ^ 64
  lock : Option Int32
  append : ℕ → Option AppendFailure
  rewrite : ℕ → Option Int32
  removeTree : ℕ → Option Int32
  id : RandomId
  idFailure : Option Int32
  nonce : Bytes
  connectionId : Bytes
  resumeSecret : Bytes
  realpath : Bytes → Option Bytes
  workingDirectory : Option Bytes
  status : ℕ → ProcessRecord → Option (FieldText 32)
  hasExit : ℕ → Bytes → Bool
  terminate : ProcessRecord → Option Int32
  signal : ProcessRecord → ℤ → Option Int32
  launch : Launching
  outputSize : Bytes → Bytes → Except Int32 ℕ

/-- No append stops part-way: one that fails leaves nothing in the file. -/
def Surroundings.AppendsWhole (env : Surroundings) : Prop :=
  ∀ n, ∀ failure ∈ env.append n, failure.written = 0

/-- `append_line`: the file afterwards, and the error. -/
def appendLine (file line : Bytes) : Option AppendFailure → Bytes × Option Int32
  | none => (file ++ line, none)
  | some failure => (file ++ line.take failure.written, some failure.errno)

/-- A line that has to fit the buffer it is printed to, and is then appended. -/
def appendBounded (size : ℕ) (tooLong : Int32) (file line : Bytes)
    (outcome : Option AppendFailure) : Bytes × Option Int32 :=
  if size ≤ line.length then (file, some tooLong) else appendLine file line outcome

/-- A world in which everything succeeds at once. -/
def Surroundings.calm : Surroundings where
  now := 1
  now_pos := by decide
  now_lt := by decide
  lock := none
  append _ := none
  rewrite _ := none
  removeTree _ := none
  id := ⟨List.replicate 16 0, rfl⟩
  idFailure := none
  nonce := List.replicate 32 0
  connectionId := List.replicate 16 0
  resumeSecret := List.replicate 32 0
  realpath path := some path
  workingDirectory := some (ascii "/")
  status _ _ := none
  hasExit _ _ := true
  terminate _ := none
  signal _ _ := none
  launch := .pathTooLong
  outputSize _ _ := .ok 0

theorem Surroundings.calm_appendsWhole : calm.AppendsWhole := fun _ _ h => by simp [calm] at h

/-- A manager that runs as user 1000, with a constant for each cryptographic function. -/
def Host.sample : Host where
  crypto :=
    { sha256 := fun _ => List.replicate 32 0
      sha256_length := fun _ => rfl
      verify := fun _ _ _ => true
      hmac := fun _ _ => List.replicate 32 0 }
  euid := 1000
  managerId := ascii "m"
  publicKey := List.replicate 32 0
  startedAtMs := 1

/-- A connection of the user the sample manager runs as. -/
def Connection.owner : Connection := .opened true false 1000 1000

/-- `find_workspace`: the first record with the id or the name. -/
def findWorkspace (reg : Registry) (nameOrId : Bytes) : Option WorkspaceRecord :=
  (workspaceFormat.records reg.workspaces).find? fun r => r.id = nameOrId || r.name = nameOrId

/-- The local owner: the user the manager runs as. -/
def isManagerOwner (host : Host) (c : Connection) : Bool :=
  c.hasPeerCredentials && c.peerUid = host.euid

/-- The first record in force for a key, in one scope or in any. -/
def recordInForce (records : List KeyRecord) (scope : Option Bytes) (key : Bytes) :
    Option KeyRecord :=
  records.find? fun r =>
    (scope = none || scope = some r.workspaceId) && r.keyId = key && r.revokedAtMs = 0

/-- `connection_has_key_capability` on one of the key files. -/
def hasKeyCapability (file : Bytes) (scope : Option Bytes) (c : Connection) (required : ℕ) : Bool :=
  c.authenticated && c.session.clientKeyId ≠ [] &&
    match recordInForce (keyFormat.records file) scope c.session.clientKeyId with
    | some r => r.capabilities &&& required = required
    | none => false

def hasManagerKeyCapability (host : Host) (reg : Registry) (c : Connection) (required : ℕ) :
    Bool :=
  isManagerOwner host c || hasKeyCapability reg.managerKeys none c required

def hasWorkspaceCapability (host : Host) (reg : Registry) (c : Connection) (workspaceId : Bytes)
    (required : ℕ) : Bool :=
  isManagerOwner host c || hasKeyCapability reg.managerKeys none c required ||
    hasKeyCapability reg.workspaceKeys (some workspaceId) c required

theorem findWorkspace_valid {reg : Registry} {ref : Bytes} {r : WorkspaceRecord}
    (h : findWorkspace reg ref = some r) : r.Valid :=
  valid_of_mem_workspaces (mem_of_find?_eq_some h)

section Appends
variable {size n : ℕ} {tooLong errno : Int32} {file line file' : Bytes}

theorem appendBounded_ok {outcome : Option AppendFailure}
    (h : appendBounded size tooLong file line outcome = (file', none)) :
    line.length < size ∧ file' = file ++ line := by
  unfold appendBounded at h
  split_ifs at h with hlong
  · simp at h
  · cases outcome with
    | none => exact ⟨by omega, (congrArg Prod.fst h).symm⟩
    | some failure => simp [appendLine] at h

theorem appendBounded_fst (outcome : Option AppendFailure) :
    (appendBounded size tooLong file line outcome).1 =
      file ++ (appendBounded size tooLong [] line outcome).1 := by
  unfold appendBounded
  split_ifs
  · simp
  · cases outcome <;> simp [appendLine]

theorem Surroundings.AppendsWhole.file_eq {env : Surroundings} (h : env.AppendsWhole)
    (hfailed : appendBounded size tooLong file line (env.append n) = (file', some errno)) :
    file' = file := by
  unfold appendBounded at hfailed
  split_ifs at hfailed with hlong
  · exact (congrArg Prod.fst hfailed).symm
  · cases happend : env.append n with
    | none => simp [happend, appendLine] at hfailed
    | some failure =>
      rw [happend, appendLine, h n failure happend, take_zero, append_nil] at hfailed
      exact (congrArg Prod.fst hfailed).symm

end Appends

variable {params : Members} {field : Bytes} {size : ℕ}

theorem getRequiredString_bounds {s : Bytes} (h : getRequiredString params field size = some s) :
    s.length < size ∧ 0 ∉ s := by
  unfold getRequiredString at h
  split at h
  · rename_i t _
    split_ifs at h with hlt
    obtain rfl := Option.some.inj h
    exact ⟨(cstr_length_le t).trans_lt hlt, zero_notMem_cstr t⟩
  · simp at h

theorem getOptionalString_bounds {s : Option Bytes} (hsize : 0 < size)
    (h : getOptionalString params field size = some s) :
    (s.getD []).length < size ∧ 0 ∉ s.getD [] := by
  unfold getOptionalString at h
  split at h
  · obtain rfl := Option.some.inj h
    exact ⟨hsize, by simp⟩
  · rename_i t _
    split_ifs at h with hlt
    obtain rfl := Option.some.inj h
    exact ⟨(cstr_length_le t).trans_lt hlt, zero_notMem_cstr t⟩
  · simp at h

end Cubicle.Manager
