import Cubicle.RemoteManagers

/-!
# The registry of remotes

`cube remote add` asks a manager who it is and writes the answer into the registry, one line for a
remote; `cube remote remove` takes a line out. Both read the whole registry and write it anew. The
result says that it reads back as the map of the remotes as long as no manager answers with a
separator and no line is too long to be read.
-/

namespace Cubicle.Remotes
open ByteText CStrings RecordFiles List

structure Identity where
  managerId : Bytes
  managerPublicKey : Bytes

/-- The client keeps the strings of a session that are C strings and fit its buffers. -/
def Identity.kept (identity : Identity) : Bool :=
  0 ∉ identity.managerId && 0 ∉ identity.managerPublicKey && identity.managerId.length < 33 &&
    identity.managerPublicKey.length < 256

namespace RemoteRecord

def fields (r : RemoteRecord) : List Bytes :=
  [r.name, r.uri, r.managerId, r.managerPublicKey, dec r.addedAtMs]

def entry (r : RemoteRecord) : Bytes × Bytes × Bytes := (r.uri, r.managerId, r.managerPublicKey)

end RemoteRecord

/-- `cube_remote_save`: what is written. -/
def cubeRemoteSave (records : List RemoteRecord) : Bytes :=
  records.flatMap fun r => lineOf r.fields

/-- The records with one more, in the place of the one of its name if there is one. -/
def putRecord (record : RemoteRecord) : List RemoteRecord → List RemoteRecord
  | [] => [record]
  | r :: rs => if r.name = record.name then record :: rs else r :: putRecord record rs

/-- The arguments of a command, with the manager's answer and the time of an addition. -/
inductive Command
  | add (name uri : Bytes) (identity : Identity) (seconds : ℕ)
  | remove (name : Bytes)

def addedRecord (name uri : Bytes) (identity : Identity) (seconds : ℕ) : RemoteRecord :=
  ⟨name, clip 512 uri, clip 33 identity.managerId, clip 256 identity.managerPublicKey,
    seconds * 1000 % 2 ^ 64⟩

/-- `command_remote_add` and `command_remote_remove`, down to the registry they write: an endpoint
is connected to only if it is a C string of less than 512 bytes. -/
def Command.perform (registry : Option Bytes) : Command → Option Bytes
  | .add name uri identity seconds =>
    if remoteNameValid name ∧ ascii "tls://" <+: uri ∧ remoteFieldValid uri ∧ 0 ∉ uri ∧
        uri.length < 512 ∧ identity.kept ∧ identity.managerPublicKey ≠ [] then
      (cubeRemoteLoad registry).map fun records =>
        cubeRemoteSave (putRecord (addedRecord name uri identity seconds) records)
    else none
  | .remove name =>
    (cubeRemoteLoad registry).bind fun records =>
      if (cubeRemoteFind records name).isSome then
        some (cubeRemoteSave (records.eraseP (·.name = name)))
      else none

/-- A registry after commands that all succeeded, if they did. -/
def perform (registry : Option Bytes) : List Command → Option (Option Bytes)
  | [] => some registry
  | c :: cs => (c.perform registry).bind fun text => perform (some text) cs

/-- The remotes as the commands ask for them. -/
def expected (remotes : Bytes → Option (Bytes × Bytes × Bytes)) :
    List Command → Bytes → Option (Bytes × Bytes × Bytes)
  | [] => remotes
  | .add name uri identity _ :: cs =>
    expected (Function.update remotes name
      (some (uri, identity.managerId, identity.managerPublicKey))) cs
  | .remove name :: cs => expected (Function.update remotes name none) cs

/-- The manager answers without separators, and the line can be read again. -/
def Command.Plain : Command → Prop
  | .add name uri identity seconds =>
    remoteFieldValid identity.managerId ∧ remoteFieldValid identity.managerPublicKey ∧
      (lineOf (addedRecord name uri identity seconds).fields).length < 1024
  | .remove _ => True

/-- A record whose line reads back as it. -/
structure RemoteRecord.Printable (r : RemoteRecord) : Prop where
  name : remoteNameValid r.name = true
  fields_valid : ∀ f ∈ [r.uri, r.managerId, r.managerPublicKey], remoteFieldValid f = true ∧ 0 ∉ f
  lengths : r.uri.length < 512 ∧ r.managerId.length < 33 ∧ r.managerPublicKey.length < 256
  added : r.addedAtMs < 2 ^ 64
  line : (lineOf r.fields).length < 1024

theorem clean_of_field {f : Bytes} (h : remoteFieldValid f = true ∧ 0 ∉ f) : Clean f := by
  obtain ⟨hvalid, hzero⟩ := h
  simp only [remoteFieldValid, Bool.and_eq_true, decide_eq_true_eq] at hvalid
  intro b hb
  refine ⟨?_, fun h => hzero (h ▸ hb)⟩
  simp only [isSeparator, Bool.or_eq_false_iff, decide_eq_false_iff_not]
  exact ⟨fun h => hvalid.1.1 (h ▸ hb), fun h => hvalid.1.2 (h ▸ hb)⟩

theorem clean_of_name {name : Bytes} (h : remoteNameValid name = true) : Clean name := by
  simp only [remoteNameValid, Bool.and_eq_true, all_eq_true] at h
  have hnot : ∀ b, isNameByte b = true → isSeparator b = false ∧ b ≠ 0 := by decide +kernel
  exact fun b hb => hnot b (h.2 b hb)

theorem RemoteRecord.Printable.clean {r : RemoteRecord} (h : r.Printable) :
    ∀ f ∈ r.fields, Clean f := by
  intro f hf
  simp only [RemoteRecord.fields, mem_cons, not_mem_nil, or_false] at hf
  rcases hf with rfl | rfl | rfl | rfl | rfl
  · exact clean_of_name h.name
  · exact clean_of_field (h.fields_valid _ (by simp))
  · exact clean_of_field (h.fields_valid _ (by simp))
  · exact clean_of_field (h.fields_valid _ (by simp))
  · exact clean_dec _

theorem tab_notMem {f : Bytes} (h : Clean f) : 0x09 ∉ f := by
  intro hb
  have hsep := (h 0x09 hb).1
  simp [isSeparator] at hsep

theorem parse_line {r : RemoteRecord} (h : r.Printable) :
    cubeRemoteParseLine (lineOf r.fields) = some r := by
  have hclean := h.clean
  simp only [RemoteRecord.fields, forall_mem_cons] at hclean
  obtain ⟨hname, huri, hid, hkey, hadded, -⟩ := hclean
  have hsplit : (cutNewline (lineOf r.fields)).splitOn 0x09 = r.fields := by
    obtain ⟨body, hbody, hnewline, -⟩ := isLine_lineOf h.clean
    have hjoin : body = r.name ++ 0x09 :: (r.uri ++ 0x09 :: (r.managerId ++ 0x09 ::
        (r.managerPublicKey ++ 0x09 :: dec r.addedAtMs))) := by
      refine append_cancel_right (hbody.symm.trans ?_)
      simp [RemoteRecord.fields, lineOf]
    rw [hbody, cutNewline_append hnewline, hjoin,
      splitOn_append_cons_self_of_not_mem (tab_notMem hname),
      splitOn_append_cons_self_of_not_mem (tab_notMem huri),
      splitOn_append_cons_self_of_not_mem (tab_notMem hid),
      splitOn_append_cons_self_of_not_mem (tab_notMem hkey),
      splitOn_eq_singleton (tab_notMem hadded)]
    rfl
  have hvalid := h.fields_valid
  simp only [forall_mem_cons] at hvalid
  unfold cubeRemoteParseLine
  rw [if_neg (Nat.not_le.mpr h.line), hsplit]
  simp only [RemoteRecord.fields, h.name, hvalid, Bool.and_self, if_true]
  rw [clip_eq_self h.lengths.1, clip_eq_self h.lengths.2.1, clip_eq_self h.lengths.2.2,
    strtoull_dec h.added]

theorem load_save {records : List RemoteRecord} (h : ∀ r ∈ records, r.Printable) :
    cubeRemoteLoad (some (cubeRemoteSave records)) = some records := by
  unfold cubeRemoteLoad
  induction records with
  | nil => rfl
  | cons r rs ih =>
    obtain ⟨hr, hrs⟩ := forall_mem_cons.mp h
    have hlines : fgetsLines 1024 (cubeRemoteSave (r :: rs)) =
        lineOf r.fields :: fgetsLines 1024 (cubeRemoteSave rs) := by
      rw [cubeRemoteSave, flatMap_cons, fgetsLines_append (by decide) (terminated_lineOf _),
        (isLine_lineOf hr.clean).fgetsLines_short hr.line]
      rfl
    have hrest := ih hrs
    dsimp only at hrest ⊢
    rw [hlines, mapM_cons, parse_line hr, hrest]
    rfl

section Records
variable {record : RemoteRecord} {records : List RemoteRecord} {name : Bytes}

theorem mem_putRecord {r : RemoteRecord} (h : r ∈ putRecord record records) :
    r = record ∨ r ∈ records := by
  induction records with
  | nil => exact .inl (mem_singleton.mp h)
  | cons s rs ih =>
    rw [putRecord] at h
    split_ifs at h with hname
    · exact (mem_cons.mp h).imp_right (mem_cons_of_mem s)
    · rcases mem_cons.mp h with rfl | h
      · exact .inr mem_cons_self
      · exact (ih h).imp_right (mem_cons_of_mem s)

theorem find_putRecord : cubeRemoteFind (putRecord record records) name =
    if name = record.name then some record else cubeRemoteFind records name := by
  unfold cubeRemoteFind
  induction records with
  | nil => simp [putRecord, eq_comm]
  | cons s rs ih =>
    rw [putRecord]
    split_ifs with hs hname
    · simp [hname]
    · have hother : s.name ≠ name := fun h => hname (h ▸ hs)
      simp [hother, Ne.symm hname]
    · simp_all
    · by_cases hfound : s.name = name
      · simp [hfound]
      · simp_all

def Distinct (records : List RemoteRecord) : Prop :=
  records.Pairwise fun r s => r.name ≠ s.name

theorem Distinct.putRecord (h : Distinct records) : Distinct (putRecord record records) := by
  induction records with
  | nil => exact pairwise_singleton _ _
  | cons s rs ih =>
    obtain ⟨hs, hrs⟩ := pairwise_cons.mp h
    rw [Remotes.putRecord]
    split_ifs with hname
    · exact pairwise_cons.mpr ⟨fun r hr => hname ▸ hs r hr, hrs⟩
    · refine pairwise_cons.mpr ⟨fun r hr => ?_, ih hrs⟩
      rcases mem_putRecord hr with rfl | hr
      · exact hname
      · exact hs r hr

theorem find_erase (h : Distinct records) {other : Bytes} :
    cubeRemoteFind (records.eraseP (·.name = name)) other =
      if other = name then none else cubeRemoteFind records other := by
  unfold cubeRemoteFind
  induction records with
  | nil => simp
  | cons s rs ih =>
    obtain ⟨hs, hrs⟩ := pairwise_cons.mp h
    by_cases hname : s.name = name
    · rw [eraseP_cons_of_pos (by simpa using hname)]
      split_ifs with hother
      · rw [find?_eq_none]
        intro r hr
        simpa [hother, ← hname] using (hs r hr).symm
      · have hne : s.name ≠ other := fun h => hother (h ▸ hname)
        simp [hne]
    · rw [eraseP_cons_of_neg (by simpa using hname)]
      by_cases hother : s.name = other
      · have hne : other ≠ name := hother ▸ hname
        simp [hother, hne]
      · simp [hother, ih hrs]

end Records

/-- The registry holds the remotes. -/
def Keeps (registry : Option Bytes) (remotes : Bytes → Option (Bytes × Bytes × Bytes)) : Prop :=
  ∃ records, cubeRemoteLoad registry = some records ∧ (∀ r ∈ records, r.Printable) ∧
    Distinct records ∧ ∀ name, (cubeRemoteFind records name).map RemoteRecord.entry = remotes name

variable {registry : Option Bytes} {remotes : Bytes → Option (Bytes × Bytes × Bytes)}

theorem Keeps.add (h : Keeps registry remotes) {name uri : Bytes} {identity : Identity}
    {seconds : ℕ} (hplain : (Command.add name uri identity seconds).Plain) {text : Bytes}
    (hperform : (Command.add name uri identity seconds).perform registry = some text) :
    Keeps (some text) (Function.update remotes name
      (some (uri, identity.managerId, identity.managerPublicKey))) := by
  obtain ⟨records, hload, hprintable, hdistinct, hfind⟩ := h
  obtain ⟨hid, hkey, hline⟩ := hplain
  rw [Command.perform] at hperform
  split_ifs at hperform with haccepted
  obtain ⟨hname, -, huri, hzero, hlength, hkept, -⟩ := haccepted
  simp only [Identity.kept, Bool.and_eq_true, decide_eq_true_eq] at hkept
  obtain ⟨⟨⟨hidzero, hkeyzero⟩, hidlength⟩, hkeylength⟩ := hkept
  rw [hload, Option.map_some, Option.some.injEq] at hperform
  have hentry : (addedRecord name uri identity seconds).entry =
      (uri, identity.managerId, identity.managerPublicKey) := by
    simp [addedRecord, RemoteRecord.entry, clip_eq_self hlength,
      clip_eq_self hidlength, clip_eq_self hkeylength]
  have hrecord : (addedRecord name uri identity seconds).Printable := by
    simp only [RemoteRecord.entry, Prod.mk.injEq] at hentry
    obtain ⟨h1, h2, h3⟩ := hentry
    refine ⟨hname, ?_, ?_, Nat.mod_lt _ (by decide), hline⟩
    · rw [h1, h2, h3]
      simp [huri, hzero, hid, hkey, hidzero, hkeyzero]
    · rw [h1, h2, h3]
      exact ⟨hlength, hidlength, hkeylength⟩
  have hall : ∀ r ∈ putRecord (addedRecord name uri identity seconds) records, r.Printable := by
    intro r hr
    rcases mem_putRecord hr with rfl | hr
    · exact hrecord
    · exact hprintable r hr
  refine ⟨_, hperform ▸ load_save hall, hall, hdistinct.putRecord, fun other => ?_⟩
  have hsame : (addedRecord name uri identity seconds).name = name := rfl
  rw [find_putRecord, hsame, Function.update_apply]
  split_ifs with hother
  · rw [Option.map_some, hentry]
  · exact hfind other

theorem Keeps.remove (h : Keeps registry remotes) {name text : Bytes}
    (hperform : (Command.remove name).perform registry = some text) :
    Keeps (some text) (Function.update remotes name none) := by
  obtain ⟨records, hload, hprintable, hdistinct, hfind⟩ := h
  rw [Command.perform, hload, Option.bind_some] at hperform
  split_ifs at hperform
  rw [Option.some.injEq] at hperform
  have hsub : (records.eraseP (·.name = name)).Sublist records := eraseP_sublist
  have hall := fun r hr => hprintable r (hsub.subset hr)
  refine ⟨_, hperform ▸ load_save hall, hall, hdistinct.sublist hsub, fun other => ?_⟩
  rw [find_erase hdistinct, Function.update_apply]
  split_ifs with hother
  · rfl
  · exact hfind other

theorem Keeps.perform {commands : List Command} (h : Keeps registry remotes)
    (hplain : ∀ c ∈ commands, c.Plain) {after : Option Bytes}
    (hperform : Remotes.perform registry commands = some after) :
    Keeps after (expected remotes commands) := by
  induction commands generalizing registry remotes with
  | nil => exact Option.some.inj hperform ▸ h
  | cons c cs ih =>
    obtain ⟨hc, hcs⟩ := forall_mem_cons.mp hplain
    obtain ⟨text, htext, hrest⟩ := Option.bind_eq_some_iff.mp hperform
    cases c with
    | add name uri identity seconds => exact ih (h.add hc htext) hcs hrest
    | remove name => exact ih (h.remove htext) hcs hrest

/-- However remotes are added and removed, if every addition is plain then the registry reads back
as the remotes that are left, each with the endpoint and identity of its last addition. -/
theorem registry_reads_back {commands : List Command} (hplain : ∀ c ∈ commands, c.Plain)
    {after : Option Bytes} (hperform : perform none commands = some after) :
    ∃ records, cubeRemoteLoad after = some records ∧ ∀ name,
      (cubeRemoteFind records name).map RemoteRecord.entry =
        expected (fun _ => none) commands name := by
  have hstart : Keeps none fun _ => none := ⟨[], rfl, by simp, .nil, fun _ => rfl⟩
  obtain ⟨records, hload, -, -, hfind⟩ := hstart.perform hplain hperform
  exact ⟨records, hload, hfind⟩

def addRemote (name key : String) : Command :=
  .add (ascii name) (ascii "tls://h:1") ⟨ascii "0a1b", ascii key⟩ 1

/-- Two managers are added, and one of them is removed. -/
theorem added_remote_reads_back :
    ∃ records, cubeRemoteLoad (some (ascii "prod\ttls://h:1\t0a1b\tbeef\t1000\n")) = some records ∧
      (cubeRemoteFind records (ascii "prod")).map RemoteRecord.entry =
        some (ascii "tls://h:1", ascii "0a1b", ascii "beef") ∧
      (cubeRemoteFind records (ascii "dev")).map RemoteRecord.entry = none := by
  have hplain : ∀ c ∈ [addRemote "dev" "cafe", addRemote "prod" "beef", .remove (ascii "dev")],
      c.Plain := by
    simp only [forall_mem_cons]
    exact ⟨⟨by decide, by decide, by decide⟩, ⟨by decide, by decide, by decide⟩, trivial, nofun⟩
  obtain ⟨records, hload, hfind⟩ := registry_reads_back hplain
    (show perform none _ = some (some (ascii "prod\ttls://h:1\t0a1b\tbeef\t1000\n")) by
      decide +kernel)
  exact ⟨records, hload, hfind (ascii "prod"), hfind (ascii "dev")⟩

/-- A manager whose key has a line end in it makes the registry unreadable. -/
theorem line_end_in_key_unreadable :
    ∃ after, perform none [addRemote "prod" "beef", addRemote "dev" "be\nef"] = some after ∧
      (cubeRemoteLoad after).isNone = true :=
  ⟨_, rfl, by decide +kernel⟩

end Cubicle.Remotes
