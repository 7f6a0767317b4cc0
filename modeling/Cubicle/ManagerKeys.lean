import Cubicle.ManagerState

/-!
# Keys

The requests that add, list, change and revoke keys, for the manager as a whole and for one
workspace. A key record is one line of a text file, and nothing keeps a tab or a newline out of
the label and the public key.
-/

namespace Cubicle.Manager
open ByteText CStrings RecordFiles JsonText JsonEncoding RpcEnvelope List
open Controller (ENOSPC)

/-- `strtoul` in base sixteen on two characters, read to their end and not above 255: leading
space and a sign are accepted. -/
def hexPairValue (first second : UInt8) : Option ℕ :=
  let t := [first, second].dropWhile isCSpace
  let negative := t.head? = some 0x2d
  let digits := if t.head? = some 0x2d ∨ t.head? = some 0x2b then t.drop 1 else t
  match digits.mapM hexValue with
  | none => none
  | some [] => none
  | some values =>
    let value := values.foldl (fun v d => v * 16 + d) 0
    if negative ∧ value ≠ 0 then none else some value

/-- The bytes a text of hexadecimal pairs stands for. -/
def hexPairs : Bytes → Option Bytes
  | [] => some []
  | [_] => none
  | first :: second :: rest => do
    let value ← hexPairValue first second
    let values ← hexPairs rest
    return UInt8.ofNat value :: values

/-- `build_workspace_key_record_from_public_hex`. -/
def buildKeyRecord (crypto : Crypto) (scope publicKeyHex label : Bytes)
    (capabilities createdAtMs : ℕ) : Option KeyRecord :=
  if publicKeyHex = [] ∨ publicKeyHex.length % 2 ≠ 0 ∨ 512 ≤ publicKeyHex.length then none
  else match hexPairs publicKeyHex with
    | none => none
    | some publicKey => some
        { workspaceId := clip 33 scope
          keyId := crypto.keyId publicKey
          fingerprint := crypto.fingerprint publicKey
          label := clip 128 label
          capabilities := capabilities
          createdAtMs := createdAtMs
          revokedAtMs := 0
          publicKeyHex := clip 512 publicKeyHex }

/-- `append_key_record`: the line has to fit the buffer it is printed to. -/
def appendKeyRecord (file : Bytes) (record : KeyRecord) (outcome : Option AppendFailure) :
    Bytes × Option Int32 :=
  appendBounded 1024 ENOSPC file (lineOf record.fields) outcome

def keyInfoText (r : KeyRecord) (fingerprint label : Bytes) : Bytes :=
  ascii "\x7b\"key_id\":\"" ++ r.keyId ++ ascii "\",\"fingerprint\":\"" ++ fingerprint ++
    ascii "\",\"label\":\"" ++ label ++ ascii "\",\"capabilities\":" ++ dec r.capabilities ++
    ascii ",\"created_at_ms\":" ++ dec r.createdAtMs ++ ascii ",\"revoked_at_ms\":" ++
    dec r.revokedAtMs

def workspaceKeyInfoJson (r : KeyRecord) (size : ℕ) : Option Bytes := do
  let fingerprint ← jsonEscape 512 r.fingerprint
  let label ← jsonEscape 256 r.label
  let text := keyInfoText r fingerprint label ++ ascii "\x7d"
  if size ≤ text.length then none else some text

/-- `key_record_info_json`, with the id and name of the workspace or without. -/
def keyRecordInfoJson (r : KeyRecord) (scope level : Bytes) (workspace : Option (Bytes × Bytes))
    (size : ℕ) : Option Bytes := do
  let base ← workspaceKeyInfoJson r 1024
  let scope ← jsonEscape 64 scope
  let level ← jsonEscape 512 level
  let workspaceId ← jsonEscape 66 (workspace.elim [] Prod.fst)
  let workspaceName ← jsonEscape 512 (workspace.elim [] Prod.snd)
  let head := base.dropLast ++ ascii ",\"scope\":\"" ++ scope ++ ascii "\",\"level\":\"" ++ level
  let text :=
    if workspace.isSome then
      head ++ ascii "\",\"workspace_id\":\"" ++ workspaceId ++ ascii "\",\"workspace_name\":\"" ++
        workspaceName ++ ascii "\"\x7d"
    else head ++ ascii "\"\x7d"
  if size ≤ text.length then none else some text

/-- The end of both add requests, under the lock: build the record, append it, print it. -/
def persistKey (host : Host) (env : Surroundings) (file scope publicKeyHex label : Bytes)
    (capabilities : ℕ) (info : KeyRecord → Option Bytes) : Bytes × Reply :=
  match buildKeyRecord host.crypto scope publicKeyHex label (capabilities % 2 ^ 64) env.now with
  | none => (file, .refusal .invalidArgument "invalid public key")
  | some record =>
    match appendKeyRecord file record (env.append 0) with
    | (file, some errno) => (file, .ioFailure "failed to persist key" errno)
    | (file, none) =>
      match info record with
      | none => (file, .failure .internal (ascii "failed to encode key") false ENOSPC)
      | some result => (file, .success result)

def managerScope : Bytes := ascii "manager"

section Requests
variable (host : Host) (env : Surroundings) (reg : Registry) (c : Connection) (params : Members)

def managerKeyAdd : Registry × Reply :=
  match getRequiredString params (ascii "public_key") 512,
      getOptionalString params (ascii "label") 128, getU64 params (ascii "capabilities") with
  | some publicKeyHex, some label, some capabilities =>
    if hasManagerKeyCapability host reg c capWorkspaceManageKeys then
      match env.lock with
      | some errno => (reg, .ioFailure "failed to lock manager state" errno)
      | none =>
        let (file, reply) := persistKey host env reg.managerKeys managerScope publicKeyHex
          (label.getD []) capabilities
          fun r => keyRecordInfoJson r (ascii "manager") (ascii "global") none 1024
        ({ reg with managerKeys := file }, reply)
    else (reg, .refusal .permissionDenied "manager key management requires owner access")
  | _, _, _ => (reg, .refusal .invalidArgument "invalid key add request")

def workspaceKeyAdd : Registry × Reply :=
  match getRequiredString params (ascii "workspace_id") 128,
      getRequiredString params (ascii "public_key") 512,
      getOptionalString params (ascii "label") 128, getU64 params (ascii "capabilities") with
  | some workspaceRef, some publicKeyHex, some label, some capabilities =>
    match env.lock with
    | some errno => (reg, .ioFailure "failed to lock manager state" errno)
    | none =>
      match findWorkspace reg workspaceRef with
      | none => (reg, .refusal .notFound "workspace not found")
      | some workspace =>
        if hasWorkspaceCapability host reg c workspace.id capWorkspaceManageKeys then
          let (file, reply) := persistKey host env reg.workspaceKeys workspace.id publicKeyHex
            (label.getD []) capabilities fun r => workspaceKeyInfoJson r 1024
          ({ reg with workspaceKeys := file }, reply)
        else (reg, .refusal .permissionDenied "workspace key management requires owner access")
  | _, _, _, _ => (reg, .refusal .invalidArgument "invalid key add request")

/-- One record changed wherever a scope has a key. -/
def changeKey (scope key : Bytes) (change : KeyRecord → KeyRecord) (r : KeyRecord) : KeyRecord :=
  if r.workspaceId = scope ∧ r.keyId = key then change r else r

/-- `update_key_capabilities` and `update_key_revocation`: the file is written anew, also when
the key is not in it. -/
def rewriteKeys (file scope key : Bytes) (change : KeyRecord → KeyRecord)
    (outcome : Option Int32) (message : String) : Bytes × Reply :=
  match outcome with
  | some errno => (file, .ioFailure message errno)
  | none =>
    (keyFormat.rewrite (fun r => some (changeKey scope key change r)) file,
      if (keyFormat.records file).any fun r => r.workspaceId = scope ∧ r.keyId = key then .empty
      else .refusal .notFound "key not found")

def setCapabilities (capabilities : ℕ) (r : KeyRecord) : KeyRecord :=
  { r with capabilities := capabilities % 2 ^ 64 }

def setRevoked (now : ℕ) (r : KeyRecord) : KeyRecord := { r with revokedAtMs := now }

def managerKeyChange (change : Option (KeyRecord → KeyRecord)) (invalid denied failed : String) :
    Registry × Reply :=
  match getRequiredString params (ascii "key_id") 128, change with
  | some key, some change =>
    if hasManagerKeyCapability host reg c capWorkspaceManageKeys then
      match env.lock with
      | some errno => (reg, .ioFailure "failed to lock manager state" errno)
      | none =>
        let (file, reply) :=
          rewriteKeys reg.managerKeys managerScope key change (env.rewrite 0) failed
        ({ reg with managerKeys := file }, reply)
    else (reg, .refusal .permissionDenied denied)
  | _, _ => (reg, .refusal .invalidArgument invalid)

def workspaceKeyChange (change : Option (KeyRecord → KeyRecord)) (invalid denied failed : String) :
    Registry × Reply :=
  match getRequiredString params (ascii "workspace_id") 128,
      getRequiredString params (ascii "key_id") 128, change with
  | some workspaceRef, some key, some change =>
    match findWorkspace reg workspaceRef with
    | none => (reg, .refusal .notFound "workspace not found")
    | some workspace =>
      if hasWorkspaceCapability host reg c workspace.id capWorkspaceManageKeys then
        match env.lock with
        | some errno => (reg, .ioFailure "failed to lock manager state" errno)
        | none =>
          let (file, reply) :=
            rewriteKeys reg.workspaceKeys workspace.id key change (env.rewrite 0) failed
          ({ reg with workspaceKeys := file }, reply)
      else (reg, .refusal .permissionDenied denied)
  | _, _, _ => (reg, .refusal .invalidArgument invalid)

def managerKeyUpdate : Registry × Reply :=
  managerKeyChange host env reg c params
    ((getU64 params (ascii "capabilities")).map setCapabilities) "invalid key update request"
    "manager key update requires owner access" "failed to update key"

def managerKeyRevoke : Registry × Reply :=
  managerKeyChange host env reg c params (some (setRevoked env.now)) "invalid key revoke request"
    "manager key revoke requires owner access" "failed to revoke key"

def workspaceKeyUpdate : Registry × Reply :=
  workspaceKeyChange host env reg c params
    ((getU64 params (ascii "capabilities")).map setCapabilities) "invalid key update request"
    "workspace key update requires owner access" "failed to update key"

def workspaceKeyRevoke : Registry × Reply :=
  workspaceKeyChange host env reg c params (some (setRevoked env.now))
    "invalid key revoke request" "workspace key revoke requires owner access"
    "failed to revoke key"

/-- A record as it is built: only the label and the public key may hold separators. -/
structure KeyRecord.Built (r : KeyRecord) : Prop where
  workspaceId_clean : Clean r.workspaceId
  workspaceId_ne_nil : r.workspaceId ≠ []
  workspaceId_length : r.workspaceId.length < 33
  keyId_clean : Clean r.keyId
  keyId_length : r.keyId.length = 32
  fingerprint_clean : Clean r.fingerprint
  fingerprint_length : r.fingerprint.length = 64
  label_nonzero : 0 ∉ r.label
  label_length : r.label.length < 128
  capabilities_lt : r.capabilities < 2 ^ 64
  createdAtMs_lt : r.createdAtMs < 2 ^ 64
  revokedAtMs_eq : r.revokedAtMs = 0
  publicKeyHex_nonzero : 0 ∉ r.publicKeyHex
  publicKeyHex_length : r.publicKeyHex.length < 512

theorem clean_iff {s : Bytes} (h : 0 ∉ s) : Clean s ↔ ∀ b ∈ s, isSeparator b = false :=
  ⟨fun hs b hb => (hs b hb).1, fun hs b hb => ⟨hs b hb, fun h0 => h (h0 ▸ hb)⟩⟩

end Requests

variable {r : KeyRecord} {reg : Registry} {params : Members}

theorem buildKeyRecord_built {crypto : Crypto} {scope publicKeyHex label : Bytes}
    {capabilities now : ℕ} (hscope : Clean scope) (hne : scope ≠ []) (hlabel : 0 ∉ label)
    (hpk : 0 ∉ publicKeyHex) (hcap : capabilities < 2 ^ 64) (hnow : now < 2 ^ 64)
    (h : buildKeyRecord crypto scope publicKeyHex label capabilities now = some r) :
    r.Built ∧ r.workspaceId = clip 33 scope ∧ r.label = clip 128 label ∧
      r.capabilities = capabilities ∧ r.publicKeyHex = publicKeyHex ∧
      ∃ publicKey, hexPairs publicKeyHex = some publicKey ∧ r.keyId = crypto.keyId publicKey := by
  unfold buildKeyRecord at h
  split_ifs at h with hbad
  split at h
  · simp at h
  · rename_i publicKey hpairs
    obtain rfl := (Option.some.inj h).symm
    have hlength : publicKeyHex.length < 512 := by
      by_contra hlong
      exact hbad (.inr (.inr (by omega)))
    have hclip : clip 512 publicKeyHex = publicKeyHex := clip_eq_self hlength
    refine ⟨⟨hscope.clip 33, clip_ne_nil (by decide) hne, clip_length_lt (by decide) _,
      crypto.clean_keyId _, crypto.keyId_length _, clean_hexEncode _,
      crypto.fingerprint_length _, fun h0 => hlabel (mem_of_mem_take h0),
      clip_length_lt (by decide) _, hcap, hnow, rfl, ?_, ?_⟩, rfl, rfl, rfl, hclip, publicKey,
      hpairs, rfl⟩
    · simpa only [hclip] using hpk
    · simpa only [hclip] using hlength

/-- The part of a public key that is read as further lines: what follows its first newline. -/
def publicKeyTail (publicKeyHex : Bytes) : Bytes :=
  match publicKeyHex.dropWhile (· ≠ 0x0a) with
  | [] => []
  | _ :: rest => rest ++ [0x0a]

theorem publicKeyTail_spec (publicKeyHex : Bytes) :
    publicKeyHex ++ [0x0a] =
      publicKeyHex.takeWhile (· ≠ 0x0a) ++ [0x0a] ++ publicKeyTail publicKeyHex := by
  have hsplit := takeWhile_append_dropWhile (p := (· ≠ (0x0a : UInt8))) (l := publicKeyHex)
  unfold publicKeyTail
  cases hdrop : publicKeyHex.dropWhile (· ≠ 0x0a) with
  | nil =>
    rw [hdrop, append_nil] at hsplit
    rw [hsplit, append_nil]
  | cons b t =>
    have hb : b = 0x0a := by
      have hhead := head?_dropWhile_not (p := (· ≠ (0x0a : UInt8))) publicKeyHex
      rw [hdrop] at hhead
      simpa using hhead
    rw [hdrop, hb] at hsplit
    nth_rewrite 1 [← hsplit]
    simp

theorem KeyRecord.Built.valid_withKey {r : KeyRecord} (h : r.Built) (hlabel : Clean r.label)
    {publicKeyHex : Bytes} (hpk : Clean publicKeyHex) (hlength : publicKeyHex.length < 512) :
    KeyRecord.Valid { r with publicKeyHex := publicKeyHex } where
  clean := by
    simp only [KeyRecord.fields, KeyRecord.head, cons_append, nil_append,
      forall_mem_cons, not_mem_nil, false_imp_iff, implies_true, and_true]
    exact ⟨h.workspaceId_clean, h.keyId_clean, h.fingerprint_clean, hlabel, clean_dec _,
      clean_dec _, clean_dec _, hpk⟩
  workspaceId_ne_nil := h.workspaceId_ne_nil
  keyId_ne_nil := ne_nil_of_length_eq_add_one h.keyId_length
  workspaceId_length := h.workspaceId_length
  keyId_length := h.keyId_length.trans_lt (by decide)
  fingerprint_length := h.fingerprint_length.trans_lt (by decide)
  label_length := h.label_length
  capabilities_lt := h.capabilities_lt
  createdAtMs_lt := h.createdAtMs_lt
  revokedAtMs_lt := h.revokedAtMs_eq.trans_lt (by decide)
  publicKeyHex_length := hlength

/-- With a clean label, the first line of a printed record is a record with its scope, key, label
and capabilities, and the rest is read from the public key. -/
theorem KeyRecord.Built.records_line (h : r.Built) (hlabel : Clean r.label)
    (hfits : (lineOf r.fields).length < 1024) :
    ∃ publicKey, keyFormat.records (lineOf r.fields) =
      { r with publicKeyHex := publicKey } :: keyFormat.records (publicKeyTail r.publicKeyHex) := by
  set upTo := r.publicKeyHex.takeWhile (· ≠ 0x0a) with hupTo
  have hupToLength : upTo.length < 512 :=
    (List.takeWhile_prefix _).length_le.trans_lt h.publicKeyHex_length
  have hvalid := h.valid_withKey hlabel clean_nil (by decide)
  have hhead : ∀ f ∈ r.head, Clean f := hvalid.clean_head
  have hline : lineOf r.fields =
      (r.headText ++ (upTo ++ [0x0a])) ++ publicKeyTail r.publicKeyHex := by
    rw [r.line_eq, publicKeyTail_spec, append_assoc, append_assoc, append_assoc]
  have hfirst : (r.headText ++ (upTo ++ [0x0a])).length < 1024 := by
    rw [hline, length_append] at hfits
    omega
  have hisLine : IsLine (r.headText ++ (upTo ++ [0x0a])) := by
    obtain ⟨body, hbody, h10, h0⟩ := isLine_lineOf hvalid.clean
    have hheadText : r.headText = body := by
      have hheadLine := KeyRecord.line_eq { r with publicKeyHex := [] }
      rw [hbody, nil_append] at hheadLine
      exact (append_cancel_right hheadLine).symm
    refine ⟨r.headText ++ upTo, by rw [append_assoc], ?_, ?_⟩
    · rw [mem_append, not_or, hheadText]
      refine ⟨h10, fun hmem => ?_⟩
      simpa using mem_takeWhile_imp hmem
    · rw [mem_append, not_or, hheadText]
      exact ⟨h0, fun hmem => h.publicKeyHex_nonzero ((List.takeWhile_prefix _).subset hmem)⟩
  obtain ⟨rest, hrest⟩ := fieldsOf_eq_cons (upTo ++ [0x0a])
  refine ⟨(upTo ++ [0x0a]).takeWhile fun b => !isSeparator b, ?_⟩
  have hpublicKey : ((upTo ++ [0x0a]).takeWhile fun b => !isSeparator b).length < 512 := by
    rw [takeWhile_append]
    split_ifs
    · simpa [isSeparator] using hupToLength
    · exact (List.takeWhile_prefix _).length_le.trans_lt hupToLength
  have hfields : fieldsOf (r.headText ++ (upTo ++ [0x0a])) =
      r.head ++ ((upTo ++ [0x0a]).takeWhile fun b => !isSeparator b) :: rest := by
    rw [KeyRecord.headText, fieldsOf_flatMap_append hhead, hrest]
  have hone := Format.records_line (F := keyFormat) (by decide) hisLine
    (by
      change parseKeyRecord ((r.headText ++ (upTo ++ [0x0a])).take 1023) = _
      rw [take_of_length_le (by omega)]
      exact hvalid.parse_fields hfirst hpublicKey hfields)
    (by
      change ∀ p, p <:+: (r.headText ++ (upTo ++ [0x0a])).drop 1023 → _
      rw [drop_of_length_le (by omega)]
      intro p hp
      rw [infix_nil.mp hp]
      rfl)
  rw [hline, Format.records_append (by decide) hisLine.terminated, hone]
  rfl

inductive KeyFile
  | manager
  | workspace
deriving DecidableEq

def KeyFile.of (reg : Registry) : KeyFile → Bytes
  | .manager => reg.managerKeys
  | .workspace => reg.workspaceKeys

def KeyFile.other : KeyFile → KeyFile
  | .manager => .workspace
  | .workspace => .manager

/-- `manager.key.add` and `workspace.key.add`. -/
def keyAdd (host : Host) (env : Surroundings) (reg : Registry) (c : Connection)
    (params : Members) : KeyFile → Registry × Reply
  | .manager => managerKeyAdd host env reg c params
  | .workspace => workspaceKeyAdd host env reg c params

/-- What an add request asks for. -/
structure KeyAddition where
  scope : Bytes
  publicKeyHex : Bytes
  label : Bytes
  capabilities : ℕ
deriving DecidableEq

/-- The scope a request names: the manager, or the id of a workspace. -/
def requestedScope (reg : Registry) (params : Members) : KeyFile → Option Bytes
  | .manager => some managerScope
  | .workspace => do
    let ref ← getRequiredString params (ascii "workspace_id") 128
    let workspace ← findWorkspace reg ref
    return workspace.id

def requestedKey (reg : Registry) (params : Members) (which : KeyFile) : Option KeyAddition := do
  let scope ← requestedScope reg params which
  let publicKeyHex ← getRequiredString params (ascii "public_key") 512
  let label ← getOptionalString params (ascii "label") 128
  let capabilities ← getU64 params (ascii "capabilities")
  return { scope, publicKeyHex, label := label.getD [], capabilities := capabilities % 2 ^ 64 }

/-- The records of a file are those it had and one more, with the scope, label and capabilities
that were asked for; the record in force for every other scope and key is the same as before. -/
def AddsOnly (before after : List KeyRecord) (q : KeyAddition) : Prop :=
  ∃ r, after = before ++ [r] ∧ r.workspaceId = q.scope ∧ r.label = q.label ∧
    r.capabilities = q.capabilities ∧
    ∀ scope key, key ≠ r.keyId ∨ scope ≠ none ∧ scope ≠ some r.workspaceId →
      recordInForce after scope key = recordInForce before scope key

theorem clean_managerScope : Clean managerScope := by decide +kernel

theorem requestedScope_bounds {which : KeyFile} {scope : Bytes}
    (h : requestedScope reg params which = some scope) :
    Clean scope ∧ scope ≠ [] ∧ scope.length < 33 := by
  cases which with
  | manager =>
    obtain rfl := (Option.some.inj h).symm
    exact ⟨clean_managerScope, by decide, by decide⟩
  | workspace =>
    obtain ⟨ref, -, h⟩ := Option.bind_eq_some_iff.mp h
    obtain ⟨workspace, hfind, h⟩ := Option.bind_eq_some_iff.mp h
    obtain rfl := Option.some.inj h
    have hvalid := findWorkspace_valid hfind
    exact ⟨hvalid.clean _ (by simp [WorkspaceRecord.fields]), hvalid.id_ne_nil, hvalid.id_length⟩

/-- A key is persisted by appending the printed record that was built; otherwise the request
fails, and the file stays unless an append stops part-way. -/
theorem persistKey_cases (host : Host) (env : Surroundings)
    (file scope publicKeyHex label : Bytes) (capabilities : ℕ)
    (info : KeyRecord → Option Bytes) :
    ((env.AppendsWhole →
        (persistKey host env file scope publicKeyHex label capabilities info).1 = file) ∧
      (persistKey host env file scope publicKeyHex label capabilities info).2.isSuccess = false) ∨
    ∃ r, buildKeyRecord host.crypto scope publicKeyHex label (capabilities % 2 ^ 64) env.now =
        some r ∧ (lineOf r.fields).length < 1024 ∧
      (persistKey host env file scope publicKeyHex label capabilities info).1 =
        file ++ lineOf r.fields := by
  unfold persistKey
  generalize buildKeyRecord host.crypto scope publicKeyHex label (capabilities % 2 ^ 64)
    env.now = built
  cases built with
  | none => exact .inl ⟨fun _ => rfl, rfl⟩
  | some r =>
    dsimp only
    rcases happend : appendKeyRecord file r (env.append 0) with ⟨file', _ | errno⟩
    · obtain ⟨hfits, rfl⟩ := appendBounded_ok happend
      refine .inr ⟨r, rfl, hfits, ?_⟩
      cases info r <;> rfl
    · exact .inl ⟨fun hwhole => hwhole.file_eq happend, rfl⟩

/-- An add appends one printed record to its file; otherwise it fails, and both files stay unless
an append stops part-way. -/
theorem keyAdd_cases (host : Host) (env : Surroundings) (reg : Registry) (c : Connection)
    (params : Members) (which : KeyFile) :
    ((env.AppendsWhole →
        ∀ file : KeyFile, file.of (keyAdd host env reg c params which).1 = file.of reg) ∧
      (keyAdd host env reg c params which).2.isSuccess = false) ∨
    ∃ q r, requestedKey reg params which = some q ∧
      buildKeyRecord host.crypto q.scope q.publicKeyHex q.label q.capabilities env.now = some r ∧
      (lineOf r.fields).length < 1024 ∧
      which.of (keyAdd host env reg c params which).1 = which.of reg ++ lineOf r.fields ∧
      which.other.of (keyAdd host env reg c params which).1 = which.other.of reg := by
  cases which with
  | manager =>
    unfold keyAdd managerKeyAdd
    dsimp only
    split
    · rename_i publicKeyHex label capabilities hpk hlabel hcap
      split_ifs
      · split
        · exact .inl ⟨fun _ _ => rfl, rfl⟩
        · rcases persistKey_cases host env reg.managerKeys managerScope publicKeyHex
            (label.getD []) capabilities
            (fun r => keyRecordInfoJson r (ascii "manager") (ascii "global") none 1024) with
            ⟨hfile, hreply⟩ | ⟨r, hbuild, hfits, hfile⟩
          · refine .inl ⟨fun hwhole file => ?_, hreply⟩
            cases file
            · exact hfile hwhole
            · rfl
          · refine .inr ⟨⟨managerScope, publicKeyHex, label.getD [], capabilities % 2 ^ 64⟩, r, ?_,
              hbuild, hfits, hfile, rfl⟩
            simp [requestedKey, requestedScope, hpk, hlabel, hcap]
      · exact .inl ⟨fun _ _ => rfl, rfl⟩
    · exact .inl ⟨fun _ _ => rfl, rfl⟩
  | workspace =>
    unfold keyAdd workspaceKeyAdd
    dsimp only
    split
    · rename_i ref publicKeyHex label capabilities href hpk hlabel hcap
      split
      · exact .inl ⟨fun _ _ => rfl, rfl⟩
      · split
        · exact .inl ⟨fun _ _ => rfl, rfl⟩
        · rename_i workspace hfind
          split_ifs
          · rcases persistKey_cases host env reg.workspaceKeys workspace.id publicKeyHex
              (label.getD []) capabilities (fun r => workspaceKeyInfoJson r 1024) with
              ⟨hfile, hreply⟩ | ⟨r, hbuild, hfits, hfile⟩
            · refine .inl ⟨fun hwhole file => ?_, hreply⟩
              cases file
              · rfl
              · exact hfile hwhole
            · refine .inr ⟨⟨workspace.id, publicKeyHex, label.getD [], capabilities % 2 ^ 64⟩, r,
                ?_, hbuild, hfits, hfile, rfl⟩
              simp [requestedKey, requestedScope, href, hfind, hpk, hlabel, hcap]
          · exact .inl ⟨fun _ _ => rfl, rfl⟩
    · exact .inl ⟨fun _ _ => rfl, rfl⟩

theorem rewriteKeys_cases (file scope key : Bytes) (change : KeyRecord → KeyRecord)
    (outcome : Option Int32) (message : String) :
    ((rewriteKeys file scope key change outcome message).1 = file ∧
      (rewriteKeys file scope key change outcome message).2.isSuccess = false) ∨
    (rewriteKeys file scope key change outcome message).1 =
      keyFormat.rewrite (fun r => some (changeKey scope key change r)) file := by
  cases outcome with
  | some errno => exact .inl ⟨rfl, rfl⟩
  | none => exact .inr rfl

/-- What becomes of a request to change a key: it fails and both files stay, or the records of the
key are changed in its file. -/
def KeyChanged (reg : Registry) (params : Members) (which : KeyFile)
    (change : Option (KeyRecord → KeyRecord)) (after : Registry × Reply) : Prop :=
  ((∀ file : KeyFile, file.of after.1 = file.of reg) ∧ after.2.isSuccess = false) ∨
    ∃ scope key f, requestedScope reg params which = some scope ∧
      getRequiredString params (ascii "key_id") 128 = some key ∧ change = some f ∧
      which.of after.1 =
        keyFormat.rewrite (fun r => some (changeKey scope key f r)) (which.of reg) ∧
      which.other.of after.1 = which.other.of reg

section KeyChanges
variable {host : Host} {env : Surroundings} {c : Connection}
  {change : Option (KeyRecord → KeyRecord)} {invalid denied failed : String}

theorem keyChanged_manager : KeyChanged reg params .manager change
    (managerKeyChange host env reg c params change invalid denied failed) := by
  unfold managerKeyChange
  split
  · rename_i key f hkey
    split_ifs
    · split
      · exact .inl ⟨fun _ => rfl, rfl⟩
      · rcases rewriteKeys_cases reg.managerKeys managerScope key f (env.rewrite 0) failed with
          ⟨hfile, hreply⟩ | hfile
        · refine .inl ⟨fun file => ?_, hreply⟩
          cases file
          · exact hfile
          · rfl
        · exact .inr ⟨managerScope, key, f, rfl, hkey, rfl, hfile, rfl⟩
    · exact .inl ⟨fun _ => rfl, rfl⟩
  · exact .inl ⟨fun _ => rfl, rfl⟩

theorem keyChanged_workspace : KeyChanged reg params .workspace change
    (workspaceKeyChange host env reg c params change invalid denied failed) := by
  unfold workspaceKeyChange
  split
  · rename_i ref key f href hkey
    split
    · exact .inl ⟨fun _ => rfl, rfl⟩
    · rename_i workspace hfind
      split_ifs
      · split
        · exact .inl ⟨fun _ => rfl, rfl⟩
        · rcases rewriteKeys_cases reg.workspaceKeys workspace.id key f (env.rewrite 0) failed with
            ⟨hfile, hreply⟩ | hfile
          · refine .inl ⟨fun file => ?_, hreply⟩
            cases file
            · rfl
            · exact hfile
          · refine .inr ⟨workspace.id, key, f, ?_, hkey, rfl, hfile, rfl⟩
            simp [requestedScope, href, hfind]
      · exact .inl ⟨fun _ => rfl, rfl⟩
  · exact .inl ⟨fun _ => rfl, rfl⟩

end KeyChanges

theorem requestedKey_bounds {which : KeyFile} {q : KeyAddition}
    (h : requestedKey reg params which = some q) :
    (Clean q.scope ∧ q.scope ≠ [] ∧ q.scope.length < 33) ∧ 0 ∉ q.publicKeyHex ∧
      (q.label.length < 128 ∧ 0 ∉ q.label) ∧ q.capabilities < 2 ^ 64 := by
  obtain ⟨scope, hscope, h⟩ := Option.bind_eq_some_iff.mp h
  obtain ⟨publicKeyHex, hpk, h⟩ := Option.bind_eq_some_iff.mp h
  obtain ⟨label, hlabel, h⟩ := Option.bind_eq_some_iff.mp h
  obtain ⟨capabilities, -, h⟩ := Option.bind_eq_some_iff.mp h
  obtain rfl := (Option.some.inj h).symm
  exact ⟨requestedScope_bounds hscope, (getRequiredString_bounds hpk).2,
    getOptionalString_bounds (by decide) hlabel, Nat.mod_lt _ (by decide)⟩

/-- A record behind the others does not change what is in force for other scopes and keys. -/
theorem recordInForce_append_singleton {records : List KeyRecord} {scope : Option Bytes}
    {key : Bytes} (h : key ≠ r.keyId ∨ scope ≠ none ∧ scope ≠ some r.workspaceId) :
    recordInForce (records ++ [r]) scope key = recordInForce records scope key := by
  have hr : ((decide (scope = none) || decide (scope = some r.workspaceId)) &&
      decide (r.keyId = key) && decide (r.revokedAtMs = 0)) = false := by
    rcases h with h | ⟨hnone, hsome⟩
    · simp [Ne.symm h]
    · simp [hnone, hsome]
  rw [recordInForce, find?_append, find?_singleton, if_neg (by simp [hr]),
    Option.or_none]
  rfl

/-- An accepted add adds just the record that was asked for exactly when the label has no tab or
newline and nothing behind a newline in the public key is read as a record. -/
theorem keyAdd_addsOnly_iff (host : Host) (env : Surroundings) (reg : Registry) (c : Connection)
    (params : Members) (which : KeyFile) {q : KeyAddition}
    (hq : requestedKey reg params which = some q) (hfile : Terminated (which.of reg))
    (haccepted : (keyAdd host env reg c params which).2.isSuccess = true) :
    (AddsOnly (keyFormat.records (which.of reg))
        (keyFormat.records (which.of (keyAdd host env reg c params which).1)) q ∧
      which.other.of (keyAdd host env reg c params which).1 = which.other.of reg) ↔
    (∀ b ∈ q.label, isSeparator b = false) ∧
      keyFormat.records (publicKeyTail q.publicKeyHex) = [] := by
  obtain ⟨q', r, hq', hbuild, hfits, hafter, hother⟩ :=
    (keyAdd_cases host env reg c params which).resolve_left fun hfailed => by
      simp [hfailed.2] at haccepted
  obtain rfl : q' = q := Option.some.inj (hq'.symm.trans hq)
  obtain ⟨⟨hscope, hscopeNe, hscopeLength⟩, hpk, ⟨hlabelLength, hlabel⟩, hcap⟩ :=
    requestedKey_bounds hq
  obtain ⟨hbuilt, hrscope, hrlabel, hrcap, hrpk, -⟩ :=
    buildKeyRecord_built hscope hscopeNe hlabel hpk hcap env.now_lt hbuild
  rw [clip_eq_self hscopeLength] at hrscope
  rw [clip_eq_self hlabelLength] at hrlabel
  have hrecords : keyFormat.records (which.of (keyAdd host env reg c params which).1) =
      keyFormat.records (which.of reg) ++ keyFormat.records (lineOf r.fields) := by
    rw [hafter, Format.records_append (by decide) hfile]
  constructor
  · rintro ⟨⟨s, hs, -, hslabel, -⟩, -⟩
    rw [hrecords] at hs
    have hline : keyFormat.records (lineOf r.fields) = [s] := append_cancel_left hs
    -- whatever is read from the file has a clean label
    have hclean : Clean q'.label := by
      have hvalid : s.Valid := valid_of_mem_keys (by rw [hline]; exact mem_singleton_self s)
      rw [← hslabel]
      exact hvalid.clean_head _ (by simp [KeyRecord.head])
    obtain ⟨publicKey, hread⟩ := hbuilt.records_line (hrlabel ▸ hclean) hfits
    rw [hline, hrpk] at hread
    refine ⟨(clean_iff hlabel).mp hclean, ?_⟩
    simpa using (List.cons.inj hread).2.symm
  · rintro ⟨hclean, htail⟩
    obtain ⟨publicKey, hread⟩ :=
      hbuilt.records_line (hrlabel ▸ (clean_iff hlabel).mpr hclean) hfits
    rw [hrpk, htail] at hread
    rw [hread] at hrecords
    refine ⟨⟨_, hrecords, hrscope, hrlabel, hrcap, fun scope key hne => ?_⟩, hother⟩
    rw [hrecords]
    exact recordInForce_append_singleton hne

def laptopParams (label : String) : Members :=
  [(ascii "public_key", .str (ascii "00")), (ascii "label", .str (ascii label)),
    (ascii "capabilities", .uint 16)]

/-- An add with a plain label. -/
theorem keyAdd_laptop :
    AddsOnly []
      (keyFormat.records
        (keyAdd .sample .calm .empty .owner (laptopParams "laptop") .manager).1.managerKeys)
      ⟨managerScope, ascii "00", ascii "laptop", 16⟩ :=
  ((keyAdd_addsOnly_iff .sample .calm .empty .owner (laptopParams "laptop") .manager
    (q := ⟨managerScope, ascii "00", ascii "laptop", 16⟩) (by decide) (.inl rfl)
    (by decide +kernel)).mpr ⟨by decide +kernel, by decide +kernel⟩).1

/-- A label with a newline and tabs adds a record for another key. -/
theorem keyAdd_forged_label :
    (keyAdd .sample .calm .empty .owner
      (laptopParams "a\nmanager\tk\tf\tl\t16\t1\t0\tp") .manager).2.isSuccess = true ∧
    (keyFormat.records (keyAdd .sample .calm .empty .owner
      (laptopParams "a\nmanager\tk\tf\tl\t16\t1\t0\tp") .manager).1.managerKeys).map
        (fun r => (r.workspaceId, r.keyId, r.label, r.capabilities)) =
      [(managerScope, ascii "k", ascii "l", 16)] ∧
    ¬ AddsOnly []
      (keyFormat.records (keyAdd .sample .calm .empty .owner
        (laptopParams "a\nmanager\tk\tf\tl\t16\t1\t0\tp") .manager).1.managerKeys)
      ⟨managerScope, ascii "00", ascii "a\nmanager\tk\tf\tl\t16\t1\t0\tp", 16⟩ := by
  have hread : (keyFormat.records (keyAdd .sample .calm .empty .owner
      (laptopParams "a\nmanager\tk\tf\tl\t16\t1\t0\tp") .manager).1.managerKeys).map
        (fun r => (r.workspaceId, r.keyId, r.label, r.capabilities)) =
      [(managerScope, ascii "k", ascii "l", 16)] := by decide +kernel
  refine ⟨by decide +kernel, hread, ?_⟩
  rintro ⟨r, hr, -, hlabel, -⟩
  rw [hr, nil_append, map_singleton, hlabel] at hread
  have hbad : ascii "a\nmanager\tk\tf\tl\t16\t1\t0\tp" = ascii "l" := by
    simpa using (congrArg (fun t => t.2.2.1) (List.cons.inj hread).1)
  exact absurd hbad (by decide)

end Cubicle.Manager
