import Cubicle.GrantTables
import Cubicle.ManagerKeys

/-!
# Grants over histories of key requests

The two key files hold a table of grants. Every add, update and revoke request with clean texts
performs its operation on that table or leaves the table alone, so what holds of the table over
any history holds of the files.
-/

namespace Cubicle.Manager
open ByteText RecordFiles RpcEnvelope GrantTables List

/-- Where a grant counts: everywhere, or in one workspace. -/
inductive Scope
  | manager
  | workspace (id : Bytes)
deriving DecidableEq

def Scope.which : Scope → KeyFile
  | .manager => .manager
  | .workspace _ => .workspace

/-- What the records of a scope have as their workspace id. -/
def Scope.text : Scope → Bytes
  | .manager => managerScope
  | .workspace id => id

/-- What the authorisation check compares: nothing for the manager's own file. -/
def Scope.lookup : Scope → Option Bytes
  | .manager => none
  | .workspace id => some id

/-- A connection is granted rights by the records of one scope. -/
def grantedThrough (reg : Registry) (s : Scope) (c : Connection) (required : ℕ) : Bool :=
  hasKeyCapability (s.which.of reg) s.lookup c required

def matchesKey (lookup : Option Bytes) (key : Bytes) (r : KeyRecord) : Bool :=
  (lookup = none || lookup = some r.workspaceId) && r.keyId = key

def entryOf (r : KeyRecord) : Entry ℕ := ⟨r.capabilities, r.revokedAtMs ≠ 0⟩

def entries (file : Bytes) (lookup : Option Bytes) (key : Bytes) : List (Entry ℕ) :=
  ((keyFormat.records file).filter (matchesKey lookup key)).map entryOf

def Registry.table (reg : Registry) : Table Scope Bytes ℕ :=
  fun s key => entries (s.which.of reg) s.lookup key

theorem granted_entries (file : Bytes) (lookup : Option Bytes) (key : Bytes) :
    granted (entries file lookup key) =
      (recordInForce (keyFormat.records file) lookup key).map KeyRecord.capabilities := by
  have hsame : (fun r : KeyRecord => decide (matchesKey lookup key r = true ∧
      (!(entryOf r).revoked) = true)) = fun r : KeyRecord =>
      (lookup = none || lookup = some r.workspaceId) && r.keyId = key && r.revokedAtMs = 0 := by
    funext r
    simp [matchesKey, entryOf]
  rw [granted, entries, recordInForce, find?_map, find?_filter, Option.map_map]
  simp only [Function.comp_def] at hsame ⊢
  rw [hsame]
  rfl

/-- The authorisation check reads the table. -/
theorem grantedThrough_eq (reg : Registry) (s : Scope) (c : Connection) (required : ℕ) :
    grantedThrough reg s c required = (c.authenticated && c.session.clientKeyId ≠ [] &&
      match granted (reg.table s c.session.clientKeyId) with
      | some capabilities => capabilities &&& required = required
      | none => false) := by
  rw [grantedThrough, hasKeyCapability, Registry.table, granted_entries]
  cases recordInForce (keyFormat.records (s.which.of reg)) s.lookup c.session.clientKeyId <;> rfl

theorem entryOf_kept (r : KeyRecord) : entryOf r.kept = entryOf r := rfl

theorem matchesKey_kept (lookup : Option Bytes) (key : Bytes) (r : KeyRecord) :
    matchesKey lookup key r.kept = matchesKey lookup key r := rfl

variable {file key file' key' : Bytes} {r : KeyRecord} {s s' : Scope} {reg reg' : Registry}
  {params : Members} {q : KeyAddition} {c : Connection}

theorem entries_append (hfile : Terminated file) (hr : r.Valid) (lookup : Option Bytes)
    (key : Bytes) :
    entries (file ++ lineOf r.fields) lookup key =
      entries file lookup key ++ if matchesKey lookup key r then [entryOf r] else [] := by
  have hrecords : keyFormat.records (file ++ lineOf r.fields) =
      keyFormat.records file ++ [r.kept] := keyFormat_reads.records_append_print hfile hr
  rw [entries, hrecords, filter_append, map_append]
  by_cases hmatch : matchesKey lookup key r = true
  · rw [if_pos hmatch, filter_cons_of_pos (by rwa [matchesKey_kept])]
    rfl
  · rw [if_neg hmatch, filter_cons_of_neg (by rwa [matchesKey_kept])]
    rfl

/-- A change of rights or of the revocation. -/
structure Changes (change : KeyRecord → KeyRecord) (entry : Entry ℕ → Entry ℕ) : Prop where
  valid : ∀ r, r.Valid → (change r).Valid
  workspaceId : ∀ r, (change r).workspaceId = r.workspaceId
  keyId : ∀ r, (change r).keyId = r.keyId
  entryOf : ∀ r, entryOf (change r) = entry (entryOf r)

theorem changes_setCapabilities (capabilities : ℕ) :
    Changes (setCapabilities capabilities)
      fun e => { e with rights := capabilities % 2 ^ 64 } where
  valid r h := by
    refine ⟨?_, h.workspaceId_ne_nil, h.keyId_ne_nil, h.workspaceId_length, h.keyId_length,
      h.fingerprint_length, h.label_length, Nat.mod_lt _ (by decide), h.createdAtMs_lt,
      h.revokedAtMs_lt, h.publicKeyHex_length⟩
    have hclean := h.clean
    simp only [KeyRecord.fields, KeyRecord.head, setCapabilities, cons_append,
      nil_append, forall_mem_cons] at hclean ⊢
    obtain ⟨hws, hkey, hfp, hlabel, -, hrest⟩ := hclean
    exact ⟨hws, hkey, hfp, hlabel, clean_dec _, hrest⟩
  workspaceId _ := rfl
  keyId _ := rfl
  entryOf _ := rfl

theorem changes_setRevoked {now : ℕ} (hpos : 0 < now) (hlt : now < 2 ^ 64) :
    Changes (setRevoked now) fun e => { e with revoked := true } where
  valid r h := by
    refine ⟨?_, h.workspaceId_ne_nil, h.keyId_ne_nil, h.workspaceId_length, h.keyId_length,
      h.fingerprint_length, h.label_length, h.capabilities_lt, h.createdAtMs_lt, hlt,
      h.publicKeyHex_length⟩
    have hclean := h.clean
    simp only [KeyRecord.fields, KeyRecord.head, setRevoked, cons_append,
      nil_append, forall_mem_cons] at hclean ⊢
    obtain ⟨hws, hkey, hfp, hlabel, hcap, hcreated, -, hrest⟩ := hclean
    exact ⟨hws, hkey, hfp, hlabel, hcap, hcreated, clean_dec _, hrest⟩
  workspaceId _ := rfl
  keyId _ := rfl
  entryOf r := by simp [Manager.entryOf, setRevoked, hpos.ne']

variable {change : KeyRecord → KeyRecord} {entry : Entry ℕ → Entry ℕ}

theorem Changes.changeKey_valid (h : Changes change entry) (scope key : Bytes) (hr : r.Valid) :
    (changeKey scope key change r).Valid := by
  unfold changeKey
  split_ifs
  · exact h.valid r hr
  · exact hr

theorem Changes.valid_rewritten (h : Changes change entry) (scope key file : Bytes) :
    ∀ s ∈ (keyFormat.records file).filterMap fun r => some (changeKey scope key change r),
      s.Valid := by
  intro s hs
  obtain ⟨r, hr, heq⟩ := mem_filterMap.mp hs
  obtain rfl := Option.some.inj heq
  exact h.changeKey_valid scope key (valid_of_mem_keys hr)

theorem Changes.records_rewrite (h : Changes change entry) (scope key file : Bytes) :
    keyFormat.records (keyFormat.rewrite (fun r => some (changeKey scope key change r)) file) =
      (keyFormat.records file).map fun r => (changeKey scope key change r).kept := by
  rw [keyFormat_reads.records_rewrite (h.valid_rewritten scope key file),
    filterMap_eq_map', map_map]
  rfl

theorem Changes.matchesKey_changeKey (h : Changes change entry) (scope key : Bytes)
    (lookup : Option Bytes) (k : Bytes) (r : KeyRecord) :
    matchesKey lookup k (changeKey scope key change r).kept = matchesKey lookup k r := by
  rw [matchesKey_kept, changeKey]
  split_ifs
  · rw [matchesKey, matchesKey, h.workspaceId, h.keyId]
  · rfl

variable {op : Operation ℕ}

/-- The entries of one scope and key after a rewrite, when the rewrite changes all or none of the
records that are looked at for them. -/
theorem Changes.entries_rewrite (h : Changes change entry) {scope : Bytes} {lookup : Option Bytes}
    {k : Bytes} {p : Prop} [Decidable p]
    (hp : ∀ r ∈ keyFormat.records file, matchesKey lookup k r = true → (r.workspaceId = scope ∧
      r.keyId = key ↔ p)) :
    entries (keyFormat.rewrite (fun r => some (changeKey scope key change r)) file) lookup k =
      (entries file lookup k).map fun e => if p then entry e else e := by
  rw [entries, h.records_rewrite, filter_map, map_map, entries, map_map]
  have hfilter : (matchesKey lookup k ∘ fun r => (changeKey scope key change r).kept) =
      matchesKey lookup k := by
    funext r
    exact h.matchesKey_changeKey scope key lookup k r
  rw [hfilter]
  apply map_congr_left
  intro r hr
  obtain ⟨hmem, hmatch⟩ := mem_filter.mp hr
  simp only [Function.comp_apply, entryOf_kept, changeKey]
  by_cases hcase : r.workspaceId = scope ∧ r.keyId = key
  · rw [if_pos hcase, if_pos ((hp r hmem hmatch).mp hcase), h.entryOf]
  · rw [if_neg hcase, if_neg fun hc => hcase ((hp r hmem hmatch).mpr hc)]

inductive KeyMethod
  | add
  | update
  | revoke
deriving DecidableEq

/-- A key request with everything it depends on but the key files. -/
structure KeyCall where
  which : KeyFile
  method : KeyMethod
  params : Members
  connection : Connection
  env : Surroundings
  workspaces : Bytes

namespace KeyCall
variable (host : Host) (call : KeyCall)

/-- The registry at the time of the request. -/
def seen (reg : Registry) : Registry := { reg with workspaces := call.workspaces }

def handle (reg : Registry) : Registry × Reply :=
  match call.method, call.which with
  | .add, which => keyAdd host call.env (call.seen reg) call.connection call.params which
  | .update, .manager =>
    managerKeyUpdate host call.env (call.seen reg) call.connection call.params
  | .update, .workspace =>
    workspaceKeyUpdate host call.env (call.seen reg) call.connection call.params
  | .revoke, .manager =>
    managerKeyRevoke host call.env (call.seen reg) call.connection call.params
  | .revoke, .workspace =>
    workspaceKeyRevoke host call.env (call.seen reg) call.connection call.params

def scope : Option Scope :=
  match call.which with
  | .manager => some .manager
  | .workspace => (requestedScope (call.seen .empty) call.params .workspace).map .workspace

/-- What the request asks for: the scope, the key and the operation. -/
def operation : Option (Scope × Bytes × Operation ℕ) := do
  let scope ← call.scope
  match call.method with
  | .add =>
    let publicKeyHex ← getRequiredString call.params (ascii "public_key") 512
    let publicKey ← hexPairs publicKeyHex
    let capabilities ← getU64 call.params (ascii "capabilities")
    return (scope, host.crypto.keyId publicKey, .add (capabilities % 2 ^ 64))
  | .update =>
    let key ← getRequiredString call.params (ascii "key_id") 128
    let capabilities ← getU64 call.params (ascii "capabilities")
    return (scope, key, .update (capabilities % 2 ^ 64))
  | .revoke =>
    let key ← getRequiredString call.params (ascii "key_id") 128
    return (scope, key, .revoke)

/-- The label and the key of an add request have no tab and no newline, and it is not appended
part of the way only. -/
structure Tame : Prop where
  texts : ∀ q ∈ requestedKey (call.seen .empty) call.params call.which,
    ∀ b ∈ q.label ++ q.publicKeyHex, isSeparator b = false
  appends : call.env.AppendsWhole

end KeyCall

/-- The files end with a newline, and the manager's own file has no other scope. -/
structure KeyFilesOk (reg : Registry) : Prop where
  terminated : ∀ which : KeyFile, Terminated (which.of reg)
  managerScope : ∀ r ∈ keyFormat.records reg.managerKeys, r.workspaceId = managerScope

/-- How one operation changes the file of its scope. -/
inductive Writes (s : Scope) (key file : Bytes) : Operation ℕ → Bytes → Prop
  | add {r : KeyRecord} (valid : r.Valid) (scope : r.workspaceId = s.text) (id : r.keyId = key)
      (inForce : r.revokedAtMs = 0) : Writes s key file (.add r.capabilities) (file ++ lineOf r.fields)
  | update (capabilities : ℕ) :
      Writes s key file (.update (capabilities % 2 ^ 64))
        (keyFormat.rewrite (fun r => some (changeKey s.text key (setCapabilities capabilities) r)) file)
  | revoke {now : ℕ} (pos : 0 < now) (lt : now < 2 ^ 64) :
      Writes s key file .revoke
        (keyFormat.rewrite (fun r => some (changeKey s.text key (setRevoked now) r)) file)

theorem Writes.of_eq {file'' : Bytes} (h : Writes s key file op file') (heq : file'' = file') :
    Writes s key file op file'' :=
  heq ▸ h

/-- The looked-at records of a scope are the ones with its text, and of no other. -/
theorem matchesKey_scope (hok : KeyFilesOk reg) (hwhich : s'.which = s.which) :
    ∀ r ∈ keyFormat.records (s.which.of reg), matchesKey s'.lookup key' r = true →
      (r.workspaceId = s.text ∧ r.keyId = key ↔ s' = s ∧ key' = key) := by
  intro r hr hmatch
  simp only [matchesKey, Bool.and_eq_true, Bool.or_eq_true, decide_eq_true_eq] at hmatch
  obtain ⟨hlookup, rfl⟩ := hmatch
  cases s with
  | manager =>
    cases s' with
    | manager => simp [Scope.text, hok.managerScope r hr]
    | workspace id => simp [Scope.which] at hwhich
  | workspace id =>
    cases s' with
    | manager => simp [Scope.which] at hwhich
    | workspace id' =>
      simp only [Scope.lookup, reduceCtorEq, Option.some.injEq, false_or] at hlookup
      simp [Scope.text, hlookup]

theorem KeyFile.eq_or_eq_other (a b : KeyFile) : a = b ∨ a = b.other := by
  cases a <;> cases b <;> simp [other]

theorem KeyFile.other_ne (a : KeyFile) : a.other ≠ a := by
  cases a <;> simp [other]

/-- A file that is rewritten for one key holds the table with the operation performed. -/
theorem Changes.table_rewrite (h : Changes change entry) (hok : KeyFilesOk reg)
    (hwhich : s'.which = s.which) (hop : ∀ es, op.apply es = es.map entry) :
    entries (keyFormat.rewrite (fun r => some (changeKey s.text key change r)) (s.which.of reg))
        s'.lookup key' =
      if s' = s ∧ key' = key then op.apply (entries (s.which.of reg) s'.lookup key')
      else entries (s.which.of reg) s'.lookup key' := by
  rw [h.entries_rewrite (matchesKey_scope hok hwhich)]
  split_ifs with hcase
  · rw [hop]
  · simp

theorem Changes.managerScope_rewrite (h : Changes change entry) {scope : Bytes}
    (hscope : ∀ r ∈ keyFormat.records file, r.workspaceId = managerScope) :
    ∀ r ∈ keyFormat.records
        (keyFormat.rewrite (fun r => some (changeKey scope key change r)) file),
      r.workspaceId = managerScope := by
  rw [h.records_rewrite]
  intro d hd
  obtain ⟨r, hr, rfl⟩ := mem_map.mp hd
  change (changeKey scope key change r).workspaceId = _
  unfold changeKey
  split_ifs
  · rw [h.workspaceId, hscope r hr]
  · exact hscope r hr

/-- What a write leaves in its file, seen through any scope that reads this file. -/
theorem Writes.entries (hok : KeyFilesOk reg) (h : Writes s key (s.which.of reg) op file)
    (hwhich : s'.which = s.which) :
    entries file s'.lookup key' =
      if s' = s ∧ key' = key then op.apply (entries (s.which.of reg) s'.lookup key')
      else entries (s.which.of reg) s'.lookup key' := by
  cases h with
  | @add r valid scope id inForce =>
    have hmatch : matchesKey s'.lookup key' r = true ↔ s' = s ∧ key' = key := by
      rw [matchesKey, id, scope]
      cases s with
      | manager =>
        cases s' with
        | manager => simp [Scope.lookup, eq_comm]
        | workspace _ => simp [Scope.which] at hwhich
      | workspace _ =>
        cases s' with
        | manager => simp [Scope.which] at hwhich
        | workspace _ =>
          simp only [Scope.lookup, Scope.text, reduceCtorEq, decide_false, Bool.false_or,
            Bool.and_eq_true, decide_eq_true_eq, Option.some.injEq, Scope.workspace.injEq]
          exact and_congr_right fun _ => eq_comm
    have hentry : entryOf r = ⟨r.capabilities, false⟩ := by simp [entryOf, inForce]
    rw [entries_append (hok.terminated _) valid, hentry]
    by_cases hcase : s' = s ∧ key' = key
    · rw [if_pos hcase, if_pos (hmatch.mpr hcase)]
      rfl
    · rw [if_neg hcase, if_neg fun hc => hcase (hmatch.mp hc), append_nil]
  | update capabilities =>
    exact (changes_setCapabilities capabilities).table_rewrite hok hwhich fun _ => rfl
  | revoke pos lt => exact (changes_setRevoked pos lt).table_rewrite hok hwhich fun _ => rfl

theorem Writes.terminated (h : Writes s key file op file') (hfile : Terminated file) :
    Terminated file' := by
  cases h with
  | add => exact terminated_append hfile (terminated_lineOf _)
  | update capabilities =>
    exact keyFormat_reads.terminated_rewrite
      ((changes_setCapabilities capabilities).valid_rewritten _ _ _)
  | revoke pos lt =>
    exact keyFormat_reads.terminated_rewrite ((changes_setRevoked pos lt).valid_rewritten _ _ _)

theorem Writes.managerScope (h : Writes .manager key file op file') (hfile : Terminated file)
    (hscope : ∀ r ∈ keyFormat.records file, r.workspaceId = managerScope) :
    ∀ r ∈ keyFormat.records file', r.workspaceId = Manager.managerScope := by
  cases h with
  | @add r valid scope id inForce =>
    have hrecords : keyFormat.records (file ++ lineOf r.fields) =
        keyFormat.records file ++ [r.kept] := keyFormat_reads.records_append_print hfile valid
    intro d hd
    rw [hrecords] at hd
    rcases mem_append.mp hd with hd | hd
    · exact hscope d hd
    · obtain rfl := mem_singleton.mp hd
      exact scope
  | update capabilities => exact (changes_setCapabilities capabilities).managerScope_rewrite hscope
  | revoke pos lt => exact (changes_setRevoked pos lt).managerScope_rewrite hscope

/-- A write to the file of a scope performs its operation on the table. -/
theorem Writes.perform (hok : KeyFilesOk reg)
    (h : Writes s key (s.which.of reg) op (s.which.of reg'))
    (hother : s.which.other.of reg' = s.which.other.of reg) :
    reg'.table = reg.table.perform s key op ∧ KeyFilesOk reg' := by
  constructor
  · funext s' key'
    rcases s'.which.eq_or_eq_other s.which with hwhich | hwhich
    · rw [Registry.table, hwhich, h.entries hok hwhich, Table.perform, Registry.table, hwhich]
    · have hne : s' ≠ s := by
        rintro rfl
        exact s'.which.other_ne hwhich.symm
      rw [Registry.table, hwhich, hother, Table.perform_other _ _ fun hc => hne hc.1,
        Registry.table, hwhich]
  · refine ⟨fun which => ?_, ?_⟩
    · rcases which.eq_or_eq_other s.which with rfl | rfl
      · exact h.terminated (hok.terminated _)
      · rw [hother]
        exact hok.terminated _
    · cases s with
      | manager => exact h.managerScope (hok.terminated .manager) hok.managerScope
      | workspace id =>
        change reg'.managerKeys = reg.managerKeys at hother
        rw [hother]
        exact hok.managerScope

variable {host : Host}

theorem writes_add {env : Surroundings} (file : Bytes) (hscope : q.scope = s.text)
    (hq : requestedKey reg params s.which = some q)
    (htame : ∀ b ∈ q.label ++ q.publicKeyHex, isSeparator b = false)
    (hbuild : buildKeyRecord host.crypto q.scope q.publicKeyHex q.label q.capabilities env.now =
      some r) :
    ∃ publicKey, hexPairs q.publicKeyHex = some publicKey ∧
      Writes s (host.crypto.keyId publicKey) file (.add q.capabilities)
        (file ++ lineOf r.fields) := by
  obtain ⟨⟨hclean, hne, hlength⟩, hpk, ⟨hlabelLength, hlabel⟩, hcap⟩ := requestedKey_bounds hq
  obtain ⟨hbuilt, hrscope, hrlabel, hrcap, hrpk, publicKey, hpairs, hkey⟩ :=
    buildKeyRecord_built hclean hne hlabel hpk hcap env.now_lt hbuild
  rw [clip_eq_self hlength, hscope] at hrscope
  rw [clip_eq_self hlabelLength] at hrlabel
  have hlabelClean : Clean r.label := by
    rw [hrlabel]
    exact (clean_iff hlabel).mpr fun b hb => htame b (mem_append_left _ hb)
  have hkeyClean : Clean r.publicKeyHex := by
    rw [hrpk]
    exact (clean_iff hpk).mpr fun b hb => htame b (mem_append_right _ hb)
  refine ⟨publicKey, hpairs, ?_⟩
  rw [← hrcap]
  exact .add (hbuilt.valid_withKey hlabelClean hkeyClean hbuilt.publicKeyHex_length) hrscope hkey hbuilt.revokedAtMs_eq

theorem requestedKey_parts {which : KeyFile} (h : requestedKey reg params which = some q) :
    requestedScope reg params which = some q.scope ∧
      getRequiredString params (ascii "public_key") 512 = some q.publicKeyHex ∧
      ∃ capabilities, getU64 params (ascii "capabilities") = some capabilities ∧
        q.capabilities = capabilities % 2 ^ 64 := by
  simp only [requestedKey, Option.bind_eq_bind, Option.bind_eq_some_iff] at h
  obtain ⟨scope, hscope, publicKeyHex, hpk, label, -, capabilities, hcap, hq⟩ := h
  obtain rfl := Option.some.inj hq
  exact ⟨hscope, hpk, capabilities, hcap, rfl⟩

theorem KeyCall.exists_scope (call : KeyCall) {scope : Bytes}
    (h : requestedScope (call.seen reg) call.params call.which = some scope) :
    ∃ s : Scope, call.scope = some s ∧ s.which = call.which ∧ scope = s.text := by
  obtain ⟨which, method, params, connection, env, workspaces⟩ := call
  cases which with
  | manager => exact ⟨.manager, rfl, rfl, Option.some.inj h.symm⟩
  | workspace =>
    exact ⟨.workspace scope, congrArg (Option.map Scope.workspace) h, rfl, rfl⟩

/-- A request whose texts are clean performs what it asks for; otherwise it fails and the files
stay. -/
theorem KeyCall.handle_cases (host : Host) (call : KeyCall) (htame : call.Tame) (reg : Registry) :
    ((∀ file : KeyFile, file.of (call.handle host reg).1 = file.of reg) ∧
      (call.handle host reg).2.isSuccess = false) ∨
    ∃ s key op, call.operation host = some (s, key, op) ∧
      Writes s key (s.which.of reg) op (s.which.of (call.handle host reg).1) ∧
      s.which.other.of (call.handle host reg).1 = s.which.other.of reg := by
  have hscoped := @KeyCall.exists_scope reg call
  obtain ⟨which, method, params, connection, env, workspaces⟩ := call
  cases method with
  | add =>
    rcases keyAdd_cases host env { reg with workspaces := workspaces } connection params which with
      ⟨hsame, hfailed⟩ | ⟨q, r, hq, hbuild, -, hfile, hother⟩
    · exact .inl ⟨hsame htame.appends, hfailed⟩
    · obtain ⟨hscope, hpk, hcap⟩ := requestedKey_parts hq
      obtain ⟨s, hs, rfl, htext⟩ := hscoped hscope
      obtain ⟨publicKey, hpairs, hwrites⟩ :=
        writes_add (s.which.of reg) htext hq (htame.texts q hq) hbuild
      obtain ⟨capabilities, hcap, hmod⟩ := hcap
      refine .inr ⟨s, host.crypto.keyId publicKey, .add q.capabilities, ?_, ?_, hother⟩
      · simp [KeyCall.operation, hs, hpk, hpairs, hcap, hmod]
      · exact hwrites.of_eq hfile
  | update =>
    have hchanged : KeyChanged { reg with workspaces := workspaces } params which
        ((getU64 params (ascii "capabilities")).map setCapabilities)
        (KeyCall.handle host ⟨which, .update, params, connection, env, workspaces⟩ reg) := by
      cases which
      · exact keyChanged_manager
      · exact keyChanged_workspace
    obtain hfailed | ⟨scope, key, f, hscope, hkey, hf, hfile, hother⟩ := hchanged
    · exact .inl hfailed
    · obtain ⟨s, hs, rfl, rfl⟩ := hscoped hscope
      obtain ⟨capabilities, hcap, rfl⟩ := Option.map_eq_some_iff.mp hf
      refine .inr ⟨s, key, .update (capabilities % 2 ^ 64), ?_, ?_, hother⟩
      · simp [KeyCall.operation, hs, hkey, hcap]
      · exact (Writes.update capabilities).of_eq hfile
  | revoke =>
    have hchanged : KeyChanged { reg with workspaces := workspaces } params which
        (some (setRevoked env.now))
        (KeyCall.handle host ⟨which, .revoke, params, connection, env, workspaces⟩ reg) := by
      cases which
      · exact keyChanged_manager
      · exact keyChanged_workspace
    obtain hfailed | ⟨scope, key, f, hscope, hkey, hf, hfile, hother⟩ := hchanged
    · exact .inl hfailed
    · obtain ⟨s, hs, rfl, rfl⟩ := hscoped hscope
      obtain rfl := Option.some.inj hf
      refine .inr ⟨s, key, .revoke, ?_, ?_, hother⟩
      · simp [KeyCall.operation, hs, hkey]
      · exact (Writes.revoke env.now_pos env.now_lt).of_eq hfile

/-- A request performs its operation on the table or leaves the table alone. -/
theorem KeyCall.handle_table (host : Host) (call : KeyCall) (htame : call.Tame)
    (hok : KeyFilesOk reg) :
    KeyFilesOk (call.handle host reg).1 ∧
    ((call.handle host reg).1.table = reg.table ∧ (call.handle host reg).2.isSuccess = false ∨
      ∃ s key op, call.operation host = some (s, key, op) ∧
        (call.handle host reg).1.table = reg.table.perform s key op) := by
  rcases call.handle_cases host htame reg with ⟨hsame, hfailed⟩ | ⟨s, key, op, hop, hwrites, hother⟩
  · refine ⟨⟨fun which => ?_, ?_⟩, .inl ⟨?_, hfailed⟩⟩
    · rw [hsame]
      exact hok.terminated which
    · have hmanager : (call.handle host reg).1.managerKeys = reg.managerKeys := hsame .manager
      rw [hmanager]
      exact hok.managerScope
    · funext s key
      rw [Registry.table, hsame, Registry.table]
  · obtain ⟨htable, hok'⟩ := hwrites.perform hok hother
    exact ⟨hok', .inr ⟨s, key, op, hop, htable⟩⟩

/-- The registry after a history of key requests. -/
def afterCalls (host : Host) (reg : Registry) (calls : List KeyCall) : Registry :=
  calls.foldl (fun reg call => (call.handle host reg).1) reg

variable {calls : List KeyCall}

theorem afterCalls_ok (host : Host) (hok : KeyFilesOk reg) (htame : ∀ call ∈ calls, call.Tame) :
    KeyFilesOk (afterCalls host reg calls) := by
  induction calls generalizing reg with
  | nil => exact hok
  | cons call calls ih =>
    rw [forall_mem_cons] at htame
    exact ih (call.handle_table host htame.1 hok).1 htame.2

/-- What is revoked stays revoked through every history that does not add it. -/
theorem allRevoked_afterCalls (host : Host) (hok : KeyFilesOk reg)
    (htame : ∀ call ∈ calls, call.Tame)
    (hnoAdd : ∀ call ∈ calls, ∀ rights, call.operation host ≠ some (s, key, .add rights))
    (h : AllRevoked (reg.table s key)) : AllRevoked ((afterCalls host reg calls).table s key) := by
  induction calls generalizing reg with
  | nil => exact h
  | cons call calls ih =>
    rw [forall_mem_cons] at htame hnoAdd
    obtain ⟨hok', hcase⟩ := call.handle_table host htame.1 hok
    refine ih hok' htame.2 hnoAdd.2 ?_
    rcases hcase with ⟨htable, -⟩ | ⟨s', key', op, hop, htable⟩
    · rwa [htable]
    · rw [htable]
      apply Table.allRevoked_perform h
      rintro ⟨rfl, rfl⟩
      cases op with
      | add rights => exact absurd hop (hnoAdd.1 rights)
      | update => rfl
      | revoke => rfl

theorem grantedThrough_of_allRevoked (h : AllRevoked (reg.table s c.session.clientKeyId))
    (required : ℕ) : grantedThrough reg s c required = false := by
  rw [grantedThrough_eq, (granted_eq_none_iff _).mpr h, Bool.and_false]

theorem grantedThrough_congr
    (h : reg'.table s c.session.clientKeyId = reg.table s c.session.clientKeyId) (required : ℕ) :
    grantedThrough reg' s c required = grantedThrough reg s c required := by
  rw [grantedThrough_eq, grantedThrough_eq, h]

def addLaptop : KeyCall := ⟨.manager, .add, laptopParams "laptop", .owner, .calm, []⟩

def revokeLaptop : KeyCall :=
  ⟨.manager, .revoke, [(ascii "key_id", .str (Host.sample.crypto.keyId [0]))], .owner, .calm, []⟩

def Connection.laptop : Connection :=
  { Connection.opened true false 1001 1001 with
    authenticated := true
    session := ⟨[], Host.sample.crypto.keyId [0], 0, 0⟩ }

/-- A manager whose digests tell keys apart. -/
def Host.telling : Host :=
  { Host.sample with
    crypto := { Host.sample.crypto with
      sha256 := fun message => (message ++ replicate 32 0).take 32
      sha256_length := fun message => by simp } }

def kitchen : Bytes := replicate 32 0x6b
def garden : Bytes := replicate 32 0x67

/-- A request about a key in one of two workspaces. -/
def homeCall (method : KeyMethod) (workspace : Bytes) (params : Members)
    (append : ℕ → Option AppendFailure) : KeyCall :=
  ⟨.workspace, method, (ascii "workspace_id", .str workspace) :: params, .owner,
    { Surroundings.calm with append }, lineOf [kitchen, ascii "k", ascii "/"] ++
      lineOf [garden, ascii "g", ascii "/"]⟩

def addAtHome (workspace : Bytes) (key : String) (append : ℕ → Option AppendFailure) : KeyCall :=
  homeCall .add workspace
    [(ascii "public_key", .str (ascii key)), (ascii "capabilities", .uint 16)] append

def revokeInKitchen : KeyCall :=
  homeCall .revoke kitchen [(ascii "key_id", .str (Host.telling.crypto.keyId [0]))] fun _ => none

/-- The key `00` is revoked in the kitchen; adding another key there fails after the workspace id
is written, and adding `00` in the garden completes the line. -/
def tornHistory : List KeyCall :=
  [addAtHome kitchen "01" fun _ => some ⟨5, 32⟩, addAtHome garden "00" fun _ => none]

/-- The capabilities the authorisation check compares with, for one key in one scope. -/
def rightsInForce (reg : Registry) (s : Scope) (key : Bytes) : Option ℕ :=
  (recordInForce (keyFormat.records (s.which.of reg)) s.lookup key).map KeyRecord.capabilities

theorem rightsInForce_eq (reg : Registry) (s : Scope) (key : Bytes) :
    rightsInForce reg s key = granted (reg.table s key) :=
  (granted_entries _ _ _).symm

namespace KeyCall
variable (host : Host) (call : KeyCall)

/-- A request counts when it is answered with success or leaves a trace in a key file. -/
def Counts (reg : Registry) : Prop :=
  (call.handle host reg).2.isSuccess = true ∨
    (call.handle host reg).1.managerKeys ≠ reg.managerKeys ∨
    (call.handle host reg).1.workspaceKeys ≠ reg.workspaceKeys

instance (reg : Registry) : Decidable (call.Counts host reg) :=
  inferInstanceAs (Decidable (_ ∨ _))

/-- What a request does to one key in one scope. -/
def performed (reg : Registry) (s : Scope) (key : Bytes) : Option (Operation ℕ) :=
  (call.operation host).bind fun o =>
    if (o.1 = s ∧ o.2.1 = key) ∧ call.Counts host reg then some o.2.2 else none

/-- If the request adds the key, it asks for the capabilities that are in force already. -/
def AddsAlike (reg : Registry) (s : Scope) (key : Bytes) : Prop :=
  ∀ rights, call.operation host = some (s, key, .add rights) →
    ∀ inForce ∈ rightsInForce reg s key, inForce = rights

variable {host call}

theorem performed_eq_some_iff :
    call.performed host reg s key = some op ↔
      call.operation host = some (s, key, op) ∧ call.Counts host reg := by
  simp only [performed, Option.bind_eq_some_iff, Option.ite_none_right_eq_some]
  constructor
  · rintro ⟨⟨s', key', op'⟩, hop, ⟨⟨rfl, rfl⟩, hcounts⟩, heq⟩
    obtain rfl := Option.some.inj heq
    exact ⟨hop, hcounts⟩
  · rintro ⟨hop, hcounts⟩
    exact ⟨_, hop, ⟨⟨rfl, rfl⟩, hcounts⟩, rfl⟩

theorem performed_of_not_counts (h : ¬ call.Counts host reg) (s : Scope) (key : Bytes) :
    call.performed host reg s key = none := by
  rw [Option.eq_none_iff_forall_ne_some]
  intro op hop
  exact h (performed_eq_some_iff.mp hop).2

theorem table_of_not_counts (h : ¬ call.Counts host reg) :
    (call.handle host reg).1.table = reg.table := by
  simp only [Counts, not_or, not_not] at h
  have hsame : ∀ which : KeyFile, which.of (call.handle host reg).1 = which.of reg := by
    intro which
    cases which with
    | manager => exact h.2.1
    | workspace => exact h.2.2
  funext s key
  rw [Registry.table, hsame, Registry.table]

theorem table_handle (htame : call.Tame) (hok : KeyFilesOk reg) (s : Scope) (key : Bytes) :
    (call.handle host reg).1.table s key =
      (call.performed host reg s key).elim (reg.table s key) fun op =>
        op.apply (reg.table s key) := by
  by_cases hcounts : call.Counts host reg
  · rcases call.handle_cases host htame reg with
      ⟨hsame, hfailed⟩ | ⟨s', key', op, hop, hwrites, hother⟩
    · rcases hcounts with hsuccess | hmanager | hworkspace
      · simp [hfailed] at hsuccess
      · exact absurd (hsame .manager) hmanager
      · exact absurd (hsame .workspace) hworkspace
    · rw [(hwrites.perform hok hother).1]
      by_cases heq : s = s' ∧ key = key'
      · obtain ⟨rfl, rfl⟩ := heq
        rw [Table.perform_self, performed_eq_some_iff.mpr ⟨hop, hcounts⟩]
        rfl
      · have hnone : call.performed host reg s key = none := by
          rw [Option.eq_none_iff_forall_ne_some]
          intro op' hop'
          rw [performed_eq_some_iff, hop] at hop'
          simp only [Option.some.injEq, Prod.mk.injEq] at hop'
          exact heq ⟨hop'.1.1.symm, hop'.1.2.1.symm⟩
        rw [Table.perform_other _ _ heq, hnone]
        rfl
  · rw [table_of_not_counts hcounts, performed_of_not_counts hcounts]
    rfl

end KeyCall

/-- What a history of requests does to one key in one scope. -/
def operationsOn (host : Host) (s : Scope) (key : Bytes) :
    Registry → List KeyCall → List (Operation ℕ)
  | _, [] => []
  | reg, call :: calls =>
    (call.performed host reg s key).toList ++
      operationsOn host s key (call.handle host reg).1 calls

/-- One request leaves what it asks for in force, if it adds nothing different from before. -/
theorem KeyCall.rightsInForce_handle {call : KeyCall} (htame : call.Tame) (hok : KeyFilesOk reg)
    (halike : call.AddsAlike host reg s key) :
    rightsInForce (call.handle host reg).1 s key =
      (call.performed host reg s key).toList.foldl Operation.asked (rightsInForce reg s key) := by
  rw [rightsInForce_eq, rightsInForce_eq, call.table_handle htame hok]
  cases hop : call.performed host reg s key with
  | none => rfl
  | some op =>
    apply (granted_apply_eq_asked_iff (reg.table s key) op).mpr
    cases op with
    | add rights =>
      have hasked := halike rights (performed_eq_some_iff.mp hop).1
      rwa [rightsInForce_eq] at hasked
    | update rights => trivial
    | revoke => trivial

theorem rightsInForce_afterCalls (hok : KeyFilesOk reg) (htame : ∀ call ∈ calls, call.Tame)
    (halike : ∀ before call after, calls = before ++ call :: after →
      call.AddsAlike host (afterCalls host reg before) s key) :
    rightsInForce (afterCalls host reg calls) s key =
      (operationsOn host s key reg calls).foldl Operation.asked (rightsInForce reg s key) := by
  induction calls generalizing reg with
  | nil => rfl
  | cons call calls ih =>
    rw [forall_mem_cons] at htame
    have hfirst := call.rightsInForce_handle htame.1 hok (halike [] call calls rfl)
    have hrest := ih (call.handle_table host htame.1 hok).1 htame.2 fun before d after heq =>
      halike (call :: before) d after (by rw [heq, cons_append])
    rw [operationsOn, foldl_append, ← hfirst]
    exact hrest

/-- The key of the laptop added once more, without any capability. -/
def addLaptopAgain : KeyCall :=
  ⟨.manager, .add, [(ascii "public_key", .str (ascii "00")), (ascii "capabilities", .uint 0)],
    .owner, .calm, []⟩

theorem table_afterCalls (host : Host) {reg : Registry} (hok : KeyFilesOk reg)
    {calls : List KeyCall} (htame : ∀ call ∈ calls, call.Tame) (s : Scope) (key : Bytes) :
    (afterCalls host reg calls).table s key =
      (operationsOn host s key reg calls).foldl (fun entries op => op.apply entries)
        (reg.table s key) := by
  induction calls generalizing reg with
  | nil => rfl
  | cons call calls ih =>
    rw [forall_mem_cons] at htame
    rw [operationsOn, foldl_append]
    refine (ih (call.handle_table host htame.1 hok).1 htame.2).trans ?_
    rw [call.table_handle htame.1 hok]
    cases call.performed host reg s key <;> rfl

end Cubicle.Manager
