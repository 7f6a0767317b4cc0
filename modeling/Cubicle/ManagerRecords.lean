import Cubicle.RecordFiles
import Cubicle.RpcEnvelope

/-!
# The records of the manager

The three kinds of lines the manager keeps its registry in: workspaces, processes and keys. A
line is read back with everything that fits the buffers it is read through; what identifies a
record always does.
-/

namespace Cubicle.Manager
open ByteText CStrings RecordFiles List

structure WorkspaceRecord where
  id : Bytes
  name : Bytes
  directory : Bytes
deriving DecidableEq

/-- `cubicle_parse_workspace_record`: the directory may be missing. -/
def parseWorkspaceRecord (line : Bytes) : Option WorkspaceRecord :=
  match tokensOf line with
  | id :: name :: rest =>
    some { id := clip 33 id, name := clip 128 name, directory := clip 4096 (rest.headD []) }
  | _ => none

def WorkspaceRecord.fields (r : WorkspaceRecord) : List Bytes := [r.id, r.name, r.directory]

/-- The file `workspaces.tsv`, read through 512 bytes. -/
def workspaceFormat : Format WorkspaceRecord where
  size := 512
  parse := parseWorkspaceRecord
  print r := lineOf r.fields

structure WorkspaceRecord.Valid (r : WorkspaceRecord) : Prop where
  clean : ∀ f ∈ r.fields, Clean f
  id_ne_nil : r.id ≠ []
  name_ne_nil : r.name ≠ []
  id_length : r.id.length < 33
  name_length : r.name.length < 128
  directory_length : r.directory.length < 4096

/-- What is read back: the directory up to the end of the buffer. -/
def WorkspaceRecord.kept (r : WorkspaceRecord) : WorkspaceRecord :=
  { r with directory := r.directory.take (509 - r.id.length - r.name.length) }

@[simp] theorem WorkspaceRecord.kept_id (r : WorkspaceRecord) : r.kept.id = r.id := rfl

@[simp] theorem WorkspaceRecord.kept_name (r : WorkspaceRecord) : r.kept.name = r.name := rfl

theorem WorkspaceRecord.line_length (r : WorkspaceRecord) :
    (lineOf r.fields).length = r.id.length + r.name.length + r.directory.length + 3 := by
  rw [lineOf_length _ (by simp [fields])]
  simp [fields]
  omega

theorem WorkspaceRecord.kept_eq {r : WorkspaceRecord} (h : (lineOf r.fields).length < 512) :
    r.kept = r := by
  rw [line_length] at h
  rw [kept, take_of_length_le (by omega)]

variable {line : Bytes}

theorem WorkspaceRecord.Valid.parse_tokens {r : WorkspaceRecord} (h : r.Valid)
    (hline : tokensOf line = r.fields.filter (· ≠ [])) : parseWorkspaceRecord line = some r := by
  have hid := clip_eq_self h.id_length
  have hname := clip_eq_self h.name_length
  have hdirectory := clip_eq_self h.directory_length
  rw [parseWorkspaceRecord, hline]
  obtain ⟨id, name, directory⟩ := r
  by_cases hdir : directory = []
  · simp [fields, h.id_ne_nil, h.name_ne_nil, hdir, hid, hname]
  · simp [fields, h.id_ne_nil, h.name_ne_nil, hdir, hid, hname, hdirectory]

theorem WorkspaceRecord.Valid.kept {r : WorkspaceRecord} (h : r.Valid) : r.kept.Valid := by
  refine ⟨?_, h.id_ne_nil, h.name_ne_nil, h.id_length, h.name_length, ?_⟩
  · intro f hf
    have hdirectory := h.clean r.directory (by simp [fields])
    simp only [fields, WorkspaceRecord.kept, mem_cons, not_mem_nil, or_false] at hf
    rcases hf with rfl | rfl | rfl
    · exact h.clean r.id (by simp [fields])
    · exact h.clean r.name (by simp [fields])
    · exact fun b hb => hdirectory b (mem_of_mem_take hb)
  · have := h.directory_length
    simp only [WorkspaceRecord.kept, length_take]
    omega

/-- Only the directory of a workspace can be cut. -/
theorem workspaceFormat_reads :
    workspaceFormat.Reads WorkspaceRecord.Valid WorkspaceRecord.kept where
  one_lt_size := by decide
  terminated_print r _ := terminated_lineOf r.fields
  records_print := by
    intro r h
    have hid := h.id_length
    have hname := h.name_length
    have hcid := h.clean r.id (by simp [WorkspaceRecord.fields])
    have hcname := h.clean r.name (by simp [WorkspaceRecord.fields])
    have hcdir := h.clean r.directory (by simp [WorkspaceRecord.fields])
    have hline : lineOf r.fields =
        (r.id ++ 0x09 :: (r.name ++ [0x09])) ++ (r.directory ++ [0x0a]) := by
      simp [WorkspaceRecord.fields, lineOf]
    have hlength : (r.id ++ 0x09 :: (r.name ++ [0x09])).length =
        r.id.length + r.name.length + 2 := by
      simp
      omega
    have hpieces : ∀ p, p <:+: r.directory ++ [0x0a] → parseWorkspaceRecord p = none := by
      intro p hp
      obtain ⟨g, hg, hpg⟩ := isInfix_clean_newline hcdir hp
      have hone : (tokensOf p).length ≤ 1 := by
        rcases hpg with rfl | rfl
        · exact tokensOf_clean_length hg
        · exact tokensOf_clean_newline_length hg
      unfold parseWorkspaceRecord
      split
      · simp_all
      · rfl
    refine Format.records_line (F := workspaceFormat) (by decide) (isLine_lineOf h.clean) ?_ ?_
    · apply h.kept.parse_tokens
      obtain ⟨rest, hrest, hempty⟩ :=
        fieldsOf_take_newline hcdir (509 - r.id.length - r.name.length)
      have hfilter : rest.filter (· ≠ []) = [] := by
        rw [filter_eq_nil_iff]
        intro f hf
        simp [hempty f hf]
      change tokensOf ((lineOf r.fields).take 511) = _
      rw [hline, take_append, take_of_length_le (by omega), hlength,
        show 511 - (r.id.length + r.name.length + 2) = 509 - r.id.length - r.name.length by omega,
        append_assoc, cons_append, append_assoc, singleton_append, tokensOf,
        fieldsOf_append_separator hcid rfl, fieldsOf_append_separator hcname rfl, hrest]
      simp only [filter_cons, hfilter, WorkspaceRecord.fields, WorkspaceRecord.kept,
        filter_nil]
    · intro p hp
      refine hpieces p (hp.trans ?_)
      change (lineOf r.fields).drop 511 <:+: _
      rw [hline, drop_append, drop_of_length_le (by omega), nil_append]
      exact (List.drop_suffix _ _).isInfix

theorem parseWorkspaceRecord_valid (hline : 0 ∉ line) {r : WorkspaceRecord}
    (h : parseWorkspaceRecord line = some r) : r.Valid := by
  unfold parseWorkspaceRecord at h
  split at h
  · rename_i id name rest htokens
    obtain rfl := (Option.some.inj h).symm
    have hmem : ∀ t ∈ id :: name :: rest, Clean t ∧ t ≠ [] := by
      intro t ht
      rw [← htokens, tokensOf, mem_filter] at ht
      exact ⟨clean_fieldsOf hline t ht.1, by simpa using ht.2⟩
    have hid := hmem id (by simp)
    have hname := hmem name (by simp)
    have hdirectory : Clean (rest.headD []) := by
      cases rest with
      | nil => exact clean_nil
      | cons d _ => exact (hmem d (by simp)).1
    refine ⟨?_, ?_, ?_, clip_length_lt (by decide) _, clip_length_lt (by decide) _,
      clip_length_lt (by decide) _⟩
    · simp only [WorkspaceRecord.fields, forall_mem_cons, not_mem_nil, false_imp_iff,
        implies_true, and_true]
      exact ⟨hid.1.clip 33, hname.1.clip 128, hdirectory.clip 4096⟩
    · exact clip_ne_nil (by decide) hid.2
    · exact clip_ne_nil (by decide) hname.2
  · simp at h

variable {file : Bytes}

theorem valid_of_mem_workspaces {r : WorkspaceRecord} (h : r ∈ workspaceFormat.records file) :
    r.Valid := by
  obtain ⟨line, hline, hparse⟩ := Format.exists_parse_of_mem_records h
  exact parseWorkspaceRecord_valid hline hparse

structure KeyRecord where
  workspaceId : Bytes
  keyId : Bytes
  fingerprint : Bytes
  label : Bytes
  capabilities : ℕ
  createdAtMs : ℕ
  revokedAtMs : ℕ
  publicKeyHex : Bytes
deriving DecidableEq

/-- `parse_workspace_key_record`: eight fields, of which the scope and the key id are not empty. -/
def parseKeyRecord (line : Bytes) : Option KeyRecord :=
  if 1024 ≤ line.length then none
  else match fieldsOf line with
    | workspaceId :: keyId :: fingerprint :: label :: capabilities :: createdAt :: revokedAt ::
        publicKey :: _ =>
      if clip 33 workspaceId = [] ∨ clip 33 keyId = [] then none
      else some
        { workspaceId := clip 33 workspaceId
          keyId := clip 33 keyId
          fingerprint := clip 256 fingerprint
          label := clip 128 label
          capabilities := strtoull capabilities
          createdAtMs := strtoull createdAt
          revokedAtMs := strtoull revokedAt
          publicKeyHex := clip 512 publicKey }
    | _ => none

/-- The fields before the public key. -/
def KeyRecord.head (r : KeyRecord) : List Bytes :=
  [r.workspaceId, r.keyId, r.fingerprint, r.label, dec r.capabilities, dec r.createdAtMs,
    dec r.revokedAtMs]

def KeyRecord.fields (r : KeyRecord) : List Bytes := r.head ++ [r.publicKeyHex]

/-- The files `workspace-keys.tsv` and `manager-keys.tsv`, read through 1024 bytes. -/
def keyFormat : Format KeyRecord where
  size := 1024
  parse := parseKeyRecord
  print r := lineOf r.fields

structure KeyRecord.Valid (r : KeyRecord) : Prop where
  clean : ∀ f ∈ r.fields, Clean f
  workspaceId_ne_nil : r.workspaceId ≠ []
  keyId_ne_nil : r.keyId ≠ []
  workspaceId_length : r.workspaceId.length < 33
  keyId_length : r.keyId.length < 33
  fingerprint_length : r.fingerprint.length < 256
  label_length : r.label.length < 128
  capabilities_lt : r.capabilities < 2 ^ 64
  createdAtMs_lt : r.createdAtMs < 2 ^ 64
  revokedAtMs_lt : r.revokedAtMs < 2 ^ 64
  publicKeyHex_length : r.publicKeyHex.length < 512

def KeyRecord.headText (r : KeyRecord) : Bytes := r.head.flatMap (· ++ [0x09])

/-- What is read back: the public key up to the end of the buffer. -/
def KeyRecord.kept (r : KeyRecord) : KeyRecord :=
  { r with publicKeyHex := r.publicKeyHex.take (1023 - r.headText.length) }

theorem KeyRecord.line_eq (r : KeyRecord) :
    lineOf r.fields = r.headText ++ (r.publicKeyHex ++ [0x0a]) := by
  rw [fields, lineOf_append_singleton, append_assoc]
  rfl

theorem KeyRecord.Valid.headText_length {r : KeyRecord} (h : r.Valid) :
    r.headText.length ≤ 513 := by
  have hws := h.workspaceId_length
  have hkey := h.keyId_length
  have hfp := h.fingerprint_length
  have hlabel := h.label_length
  have hcap := dec_length_le_u64 h.capabilities_lt
  have hcreated := dec_length_le_u64 h.createdAtMs_lt
  have hrevoked := dec_length_le_u64 h.revokedAtMs_lt
  simp [headText, head]
  omega

theorem KeyRecord.Valid.clean_head {r : KeyRecord} (h : r.Valid) : ∀ f ∈ r.head, Clean f :=
  fun f hf => h.clean f (mem_append_left _ hf)

theorem KeyRecord.Valid.clean_publicKeyHex {r : KeyRecord} (h : r.Valid) : Clean r.publicKeyHex :=
  h.clean _ (by simp [fields])

theorem KeyRecord.Valid.parse_fields {r : KeyRecord} (h : r.Valid) {publicKey : Bytes}
    {rest : List Bytes} (hlength : line.length < 1024) (hpublicKey : publicKey.length < 512)
    (hline : fieldsOf line = r.head ++ publicKey :: rest) :
    parseKeyRecord line = some { r with publicKeyHex := publicKey } := by
  have hws := clip_eq_self h.workspaceId_length
  have hkey := clip_eq_self h.keyId_length
  have hfp := clip_eq_self h.fingerprint_length
  have hlabel := clip_eq_self h.label_length
  have hpk := clip_eq_self hpublicKey
  have hcap := strtoull_dec h.capabilities_lt
  have hcreated := strtoull_dec h.createdAtMs_lt
  have hrevoked := strtoull_dec h.revokedAtMs_lt
  have hne : ¬ (r.workspaceId = [] ∨ r.keyId = []) := by
    simp [h.workspaceId_ne_nil, h.keyId_ne_nil]
  rw [parseKeyRecord, if_neg (by omega), hline]
  simp only [head, cons_append, nil_append]
  rw [hws, hkey, hfp, hlabel, hpk, hcap, hcreated, hrevoked, if_neg hne]

theorem parseKeyRecord_none (h : (fieldsOf line).length < 8) : parseKeyRecord line = none := by
  unfold parseKeyRecord
  split_ifs
  · rfl
  · split
    · rename_i hfields
      simp only [hfields, length_cons] at h
      omega
    · rfl

/-- Only the public key of a record can be cut. -/
theorem keyFormat_reads : keyFormat.Reads KeyRecord.Valid KeyRecord.kept where
  one_lt_size := by decide
  terminated_print r _ := terminated_lineOf r.fields
  records_print := by
    intro r h
    have hhead := h.headText_length
    have hpk := h.clean_publicKeyHex
    have hpkLength := h.publicKeyHex_length
    refine Format.records_line (F := keyFormat) (by decide) (isLine_lineOf h.clean) ?_ ?_
    · change parseKeyRecord ((lineOf r.fields).take 1023) = _
      obtain ⟨rest, hrest, -⟩ := fieldsOf_take_newline hpk (1023 - r.headText.length)
      have hfields : fieldsOf ((lineOf r.fields).take 1023) =
          r.head ++ r.publicKeyHex.take (1023 - r.headText.length) :: rest := by
        rw [r.line_eq, take_append, take_of_length_le (by omega), KeyRecord.headText,
          fieldsOf_flatMap_append h.clean_head, ← KeyRecord.headText, hrest]
      refine h.parse_fields ?_ ?_ hfields
      · rw [length_take]
        omega
      · rw [length_take]
        omega
    · intro p hp
      change p <:+: (lineOf r.fields).drop 1023 at hp
      rw [r.line_eq, drop_append, drop_of_length_le (by omega), nil_append] at hp
      obtain ⟨g, hg, hpg⟩ :=
        isInfix_clean_newline hpk (hp.trans (List.drop_suffix _ _).isInfix)
      apply parseKeyRecord_none
      rcases hpg with rfl | rfl
      · rw [fieldsOf_clean hg]
        simp
      · rw [fieldsOf_append_separator hg rfl]
        simp [fieldsOf]

theorem parseKeyRecord_valid (hline : 0 ∉ line) {r : KeyRecord} (h : parseKeyRecord line = some r) :
    r.Valid := by
  unfold parseKeyRecord at h
  split_ifs at h
  split at h
  · rename_i workspaceId keyId fingerprint label capabilities createdAt revokedAt publicKey rest
      hfields
    have hclean : ∀ f ∈ workspaceId :: keyId :: fingerprint :: label :: capabilities ::
        createdAt :: revokedAt :: publicKey :: rest, Clean f := by
      rw [← hfields]
      exact clean_fieldsOf hline
    simp only [forall_mem_cons] at hclean
    obtain ⟨hws, hkey, hfp, hlabel, -, -, -, hpk, -⟩ := hclean
    split_ifs at h with hempty
    obtain ⟨hwsne, hkeyne⟩ := not_or.mp hempty
    obtain rfl := (Option.some.inj h).symm
    refine ⟨?_, hwsne, hkeyne, clip_length_lt (by decide) _, clip_length_lt (by decide) _,
      clip_length_lt (by decide) _, clip_length_lt (by decide) _, strtoull_lt _, strtoull_lt _,
      strtoull_lt _, clip_length_lt (by decide) _⟩
    simp only [KeyRecord.fields, KeyRecord.head, cons_append, nil_append,
      forall_mem_cons, not_mem_nil, false_imp_iff, implies_true, and_true]
    exact ⟨hws.clip 33, hkey.clip 33, hfp.clip 256, hlabel.clip 128, clean_dec _, clean_dec _,
      clean_dec _, hpk.clip 512⟩
  · simp at h

theorem valid_of_mem_keys {r : KeyRecord} (h : r ∈ keyFormat.records file) : r.Valid := by
  obtain ⟨line, hline, hparse⟩ := Format.exists_parse_of_mem_records h
  exact parseKeyRecord_valid hline hparse

structure ProcessRecord where
  processId : Bytes
  workspaceId : Bytes
  friendlyName : Bytes
  mode : Bytes
  state : Bytes
  controllerId : Bytes
  controlSocket : Bytes
  cwd : Bytes
  saved : Bool
  argvJson : Bytes
  restart : Bool
  stdinPolicy : Bytes
  workspaceName : Bytes
  workspaceDirectory : Bytes
deriving DecidableEq

def flagText (b : Bool) : Bytes := ascii (if b then "1" else "0")

/-- `cubicle_parse_process_record`: seven fields at least; later ones have defaults. -/
def parseProcessRecord (line : Bytes) : Option ProcessRecord :=
  match fieldsOf line with
  | processId :: workspaceId :: friendlyName :: mode :: state :: controllerId :: controlSocket ::
      rest =>
    some
      { processId := clip 33 processId
        workspaceId := clip 33 workspaceId
        friendlyName := clip 128 friendlyName
        mode := clip 32 mode
        state := clip 32 state
        controllerId := clip 33 controllerId
        controlSocket := clip 4096 controlSocket
        cwd := clip 4096 (rest.getD 0 [])
        saved := rest[1]? = some (ascii "1")
        argvJson := clip 16384 (rest.getD 2 [])
        restart := rest[3]? = some (ascii "1")
        stdinPolicy := clip 32 (rest.getD 4 (ascii "open"))
        workspaceName := clip 128 (rest.getD 5 [])
        workspaceDirectory := clip 4096 (rest.getD 6 []) }
  | _ => none

/-- The fields before the arguments. -/
def ProcessRecord.head (r : ProcessRecord) : List Bytes :=
  [r.processId, r.workspaceId, r.friendlyName, r.mode, r.state, r.controllerId, r.controlSocket,
    r.cwd, flagText r.saved]

/-- The arguments and the fields behind them. -/
def ProcessRecord.tail (r : ProcessRecord) : List Bytes :=
  [r.argvJson, flagText r.restart, r.stdinPolicy, r.workspaceName, r.workspaceDirectory]

def ProcessRecord.fields (r : ProcessRecord) : List Bytes := r.head ++ r.tail

/-- The file `processes.tsv`, read through a buffer of a path, the arguments and 1024 bytes. -/
def processFormat : Format ProcessRecord where
  size := 21504
  parse := parseProcessRecord
  print r := lineOf r.fields

structure ProcessRecord.Valid (r : ProcessRecord) : Prop where
  clean : ∀ f ∈ r.fields, Clean f
  processId_length : r.processId.length < 33
  workspaceId_length : r.workspaceId.length < 33
  friendlyName_length : r.friendlyName.length < 128
  mode_length : r.mode.length < 32
  state_length : r.state.length < 32
  controllerId_length : r.controllerId.length < 33
  controlSocket_length : r.controlSocket.length < 4096
  cwd_length : r.cwd.length < 4096
  argvJson_length : r.argvJson.length < 16384
  stdinPolicy_length : r.stdinPolicy.length < 32
  workspaceName_length : r.workspaceName.length < 128
  workspaceDirectory_length : r.workspaceDirectory.length < 4096

/-- What is read back: a line may lose its end, from the arguments on. -/
def ProcessRecord.kept (r : ProcessRecord) : ProcessRecord :=
  (parseProcessRecord ((lineOf r.fields).take 21503)).getD r

theorem clean_flagText (b : Bool) : Clean (flagText b) := by
  cases b <;> decide +kernel

theorem flagText_eq_one (b : Bool) : decide (flagText b = ascii "1") = b := by
  cases b <;> decide

theorem parseProcessRecord_none (h : (fieldsOf line).length < 7) :
    parseProcessRecord line = none := by
  unfold parseProcessRecord
  split
  · rename_i hfields
    simp only [hfields, length_cons] at h
    omega
  · rfl

variable {r : ProcessRecord}

theorem ProcessRecord.Valid.parse_line (h : r.Valid) :
    parseProcessRecord (lineOf r.fields) = some r := by
  have hfields : fieldsOf (lineOf r.fields) = r.fields ++ [[]] :=
    fieldsOf_lineOf (by simp [fields, head]) h.clean
  rw [parseProcessRecord, hfields]
  simp only [fields, head, tail, cons_append, nil_append, getD_cons_zero,
    getD_cons_succ, getElem?_cons_zero, getElem?_cons_succ, Option.some.injEq,
    flagText_eq_one, clip_eq_self h.processId_length, clip_eq_self h.workspaceId_length,
    clip_eq_self h.friendlyName_length, clip_eq_self h.mode_length, clip_eq_self h.state_length,
    clip_eq_self h.controllerId_length, clip_eq_self h.controlSocket_length,
    clip_eq_self h.cwd_length, clip_eq_self h.argvJson_length, clip_eq_self h.stdinPolicy_length,
    clip_eq_self h.workspaceName_length, clip_eq_self h.workspaceDirectory_length]

theorem ProcessRecord.Valid.clean_head (h : r.Valid) : ∀ f ∈ r.head, Clean f :=
  fun f hf => h.clean f (mem_append_left _ hf)

theorem ProcessRecord.line_eq (r : ProcessRecord) :
    lineOf r.fields = r.head.flatMap (· ++ [0x09]) ++ lineOf r.tail := by
  simp [fields, head, tail, lineOf]

theorem ProcessRecord.Valid.head_length (h : r.Valid) :
    (r.head.flatMap (· ++ [0x09])).length ≤ 8485 := by
  have hprocess := h.processId_length
  have hworkspace := h.workspaceId_length
  have hname := h.friendlyName_length
  have hmode := h.mode_length
  have hstate := h.state_length
  have hcontroller := h.controllerId_length
  have hsocket := h.controlSocket_length
  have hcwd := h.cwd_length
  have hsaved : (flagText r.saved).length = 1 := by
    cases r.saved <;> rfl
  simp [head, hsaved]
  omega

theorem ProcessRecord.Valid.countP_tail (h : r.Valid) : (lineOf r.tail).countP isSeparator = 5 := by
  have hclean : ∀ f ∈ r.tail, Clean f := fun f hf => h.clean f (mem_append_right _ hf)
  have hfields := fieldsOf_lineOf (by simp [tail]) hclean
  have hlength := fieldsOf_length (lineOf r.tail)
  rw [hfields] at hlength
  simp only [tail, length_append, length_cons, length_nil] at hlength
  exact (Nat.succ.inj hlength).symm

/-- The fields that are read back in any case. -/
theorem ProcessRecord.Valid.parse_cut (h : r.Valid) :
    parseProcessRecord ((lineOf r.fields).take 21503) = some r.kept ∧
      r.kept.processId = r.processId ∧ r.kept.workspaceId = r.workspaceId ∧
      r.kept.friendlyName = r.friendlyName ∧ r.kept.state = r.state := by
  have hhead := h.head_length
  have hfields : fieldsOf ((lineOf r.fields).take 21503) = r.head ++ fieldsOf
      ((lineOf r.tail).take (21503 - (r.head.flatMap (· ++ [0x09])).length)) := by
    rw [r.line_eq, take_append, take_of_length_le (by omega),
      fieldsOf_flatMap_append h.clean_head]
  rw [ProcessRecord.kept, parseProcessRecord, hfields]
  simp only [head, cons_append, nil_append, Option.getD_some, true_and]
  exact ⟨clip_eq_self h.processId_length, clip_eq_self h.workspaceId_length,
    clip_eq_self h.friendlyName_length, clip_eq_self h.state_length⟩

theorem ProcessRecord.Valid.kept_eq (h : r.Valid) (hfits : (lineOf r.fields).length < 21504) :
    r.kept = r := by
  rw [ProcessRecord.kept, take_of_length_le (by omega), h.parse_line]
  rfl

/-- The end of a line that is lost is never taken for a record. -/
theorem processFormat_reads : processFormat.Reads ProcessRecord.Valid ProcessRecord.kept where
  one_lt_size := by decide
  terminated_print r _ := terminated_lineOf r.fields
  records_print := by
    intro r h
    have hhead := h.head_length
    refine Format.records_line (F := processFormat) (by decide) (isLine_lineOf h.clean)
      h.parse_cut.1 fun p hp => ?_
    change p <:+: (lineOf r.fields).drop 21503 at hp
    rw [r.line_eq, drop_append, drop_of_length_le (by omega), nil_append] at hp
    apply parseProcessRecord_none
    have hsub : p <:+: lineOf r.tail := hp.trans (List.drop_suffix _ _).isInfix
    have hcount : p.countP isSeparator ≤ 5 := by
      rw [← h.countP_tail]
      exact hsub.sublist.countP_le
    rw [fieldsOf_length]
    omega

theorem parseProcessRecord_valid (hline : 0 ∉ line) (h : parseProcessRecord line = some r) :
    r.Valid := by
  unfold parseProcessRecord at h
  split at h
  · rename_i processId workspaceId friendlyName mode state controllerId controlSocket rest hfields
    have hclean : ∀ f ∈ processId :: workspaceId :: friendlyName :: mode :: state ::
        controllerId :: controlSocket :: rest, Clean f := by
      rw [← hfields]
      exact clean_fieldsOf hline
    simp only [forall_mem_cons] at hclean
    obtain ⟨hprocess, hworkspace, hname, hmode, hstate, hcontroller, hsocket, hrest⟩ := hclean
    have hgetD : ∀ (i : ℕ) (d : Bytes), Clean d → Clean (rest.getD i d) := by
      intro i d hd
      rw [getD_eq_getElem?_getD]
      cases hi : rest[i]? with
      | none => exact hd
      | some f => exact hrest f (mem_of_getElem? hi)
    obtain rfl := (Option.some.inj h).symm
    refine ⟨?_, clip_length_lt (by decide) _, clip_length_lt (by decide) _,
      clip_length_lt (by decide) _, clip_length_lt (by decide) _, clip_length_lt (by decide) _,
      clip_length_lt (by decide) _, clip_length_lt (by decide) _, clip_length_lt (by decide) _,
      clip_length_lt (by decide) _, clip_length_lt (by decide) _, clip_length_lt (by decide) _,
      clip_length_lt (by decide) _⟩
    simp only [ProcessRecord.fields, ProcessRecord.head, ProcessRecord.tail, cons_append,
      nil_append, forall_mem_cons, not_mem_nil, false_imp_iff, implies_true,
      and_true]
    exact ⟨hprocess.clip 33, hworkspace.clip 33, hname.clip 128, hmode.clip 32, hstate.clip 32,
      hcontroller.clip 33, hsocket.clip 4096, (hgetD 0 [] clean_nil).clip 4096, clean_flagText _,
      (hgetD 2 [] clean_nil).clip 16384, clean_flagText _, (hgetD 4 _ (by decide +kernel)).clip 32,
      (hgetD 5 [] clean_nil).clip 128, (hgetD 6 [] clean_nil).clip 4096⟩
  · simp at h

theorem valid_of_mem_processes {file : Bytes} {r : ProcessRecord}
    (h : r ∈ processFormat.records file) : r.Valid := by
  obtain ⟨line, hline, hparse⟩ := Format.exists_parse_of_mem_records h
  exact parseProcessRecord_valid hline hparse

/-- `validate_field`: not empty, no tab and no newline. -/
def validateField (value : Bytes) : Bool := value ≠ [] && !value.any isSeparator

theorem validateField_iff (value : Bytes) :
    validateField value = true ↔ value ≠ [] ∧ ∀ b ∈ value, isSeparator b = false := by
  simp [validateField]

theorem clean_of_validateField {s : Bytes} (h : validateField s = true) (hzero : 0 ∉ s) :
    Clean s := fun b hb =>
  ⟨((validateField_iff s).mp h).2 b hb, fun hb0 => hzero (hb0 ▸ hb)⟩

end Cubicle.Manager
