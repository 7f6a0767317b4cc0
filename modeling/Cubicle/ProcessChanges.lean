import Cubicle.ControllerFragments
import Cubicle.JsonLimits
import Cubicle.JsonStrings
import Cubicle.ManagerRemovals
import Cubicle.ManagerRestarts
import Cubicle.ProcessStarts
import Cubicle.RpcRoundTrips

/-!
# Process records over their lifetime

A record is appended when its process starts, and every later change rewrites the whole file. The
longest line a start can write leaves room for every later name and state, so nothing of it is ever
cut. The arguments are stored as JSON and read back when the process is started again.
-/

namespace Cubicle.Manager
open List
open ByteText CStrings RecordFiles Utf8Sequences JsonText JsonSpelling JsonEncoding JsonStrings
open RpcEnvelope JsonLimits RpcRoundTrips

/-- The bytes of a line that no change touches, and the longest name and state. -/
def ProcessRecord.longestLine (p : ProcessRecord) : ℕ :=
  p.processId.length + p.workspaceId.length + p.mode.length + p.controllerId.length +
    p.controlSocket.length + p.cwd.length + p.argvJson.length + p.stdinPolicy.length +
    p.workspaceName.length + p.workspaceDirectory.length + (127 + 31 + 1 + 1 + 14)

/-- A record that is read back whole, whatever name and state it gets. -/
structure ProcessRecord.Storable (p : ProcessRecord) : Prop where
  valid : p.Valid
  room : p.longestLine < 21504

theorem flagText_length (b : Bool) : (flagText b).length = 1 := by
  cases b <;> rfl

variable {p : ProcessRecord} {ps : List ProcessRecord} {file : Bytes} {plan : StartPlan}

theorem ProcessRecord.Storable.fits (h : p.Storable) : (lineOf p.fields).length < 21504 := by
  have hname := h.valid.friendlyName_length
  have hstate := h.valid.state_length
  have hroom := h.room
  rw [lineOf_length _ (by simp [fields, head])]
  simp only [longestLine] at hroom
  simp [fields, head, tail, flagText_length]
  omega

theorem appendProcess_storable (file : Bytes) (h : p.Storable) :
    appendProcess file p none = (file ++ lineOf p.fields, none) := by
  have hfits := h.fits
  exact if_neg (by omega)

theorem processFormat_reads_storable : processFormat.Reads ProcessRecord.Storable id where
  one_lt_size := by decide
  terminated_print r _ := terminated_lineOf r.fields
  records_print r h := by
    rw [processFormat_reads.records_print r h.valid, h.valid.kept_eq h.fits]
    rfl

/-- The texts an update gives can be stored. -/
structure ProcessUpdate.Writable (u : ProcessUpdate) : Prop where
  state : ∀ state, u.state = some state → Clean state
  friendlyName : ∀ name, u.friendlyName = some name → Clean name

theorem ProcessRecord.Storable.apply (h : p.Storable) {u : ProcessUpdate} (hu : u.Writable) :
    (u.apply p).Storable :=
  ⟨u.apply_valid h.valid hu.state hu.friendlyName, h.room⟩

theorem storable_filterMap_changeProcess (h : ∀ p ∈ ps, p.Storable) (processId : Bytes)
    {update : Option ProcessUpdate} (hu : ∀ u ∈ update, u.Writable) :
    ∀ q ∈ ps.filterMap (changeProcess processId update), q.Storable := by
  intro q hq
  obtain ⟨p, hp, hchange⟩ := mem_filterMap.mp hq
  unfold changeProcess at hchange
  split_ifs at hchange
  · obtain ⟨u, hmem, rfl⟩ := Option.map_eq_some_iff.mp hchange
    exact (h p hp).apply (hu u hmem)
  · obtain rfl := Option.some.inj hchange
    exact h p hp

/-- What is done to the file of processes: a record is appended, or one is changed or removed. -/
inductive RegistryStep
  | start (p : ProcessRecord)
  | change (processId : Bytes) (update : Option ProcessUpdate)

namespace RegistryStep

def processId : RegistryStep → Bytes
  | start p => p.processId
  | change processId _ => processId

def write (file : Bytes) : RegistryStep → Bytes
  | start p => file ++ lineOf p.fields
  | change processId update => processFormat.rewrite (changeProcess processId update) file

/-- The same on the list of records. -/
def apply (ps : List ProcessRecord) : RegistryStep → List ProcessRecord
  | start p => ps ++ [p]
  | change processId update => ps.filterMap (changeProcess processId update)

def Writable : RegistryStep → Prop
  | start p => p.Storable
  | change _ update => ∀ u ∈ update, u.Writable

end RegistryStep

variable {steps : List RegistryStep}

theorem holds_write (h : processFormat.Holds ProcessRecord.Storable file ps) {s : RegistryStep}
    (hs : s.Writable) : processFormat.Holds ProcessRecord.Storable (s.write file) (s.apply ps) := by
  cases s with
  | start p => exact h.append hs
  | change processId update =>
    exact h.rewrite processFormat_reads_storable
      (storable_filterMap_changeProcess h.2 processId hs)

/-- The file of a history holds the records of the history. -/
theorem holds_foldl_write (hsteps : ∀ s ∈ steps, s.Writable)
    (h : processFormat.Holds ProcessRecord.Storable file ps) :
    processFormat.Holds ProcessRecord.Storable (steps.foldl RegistryStep.write file)
      (steps.foldl RegistryStep.apply ps) := by
  induction steps generalizing file ps with
  | nil => exact h
  | cons s steps ih =>
    rw [forall_mem_cons] at hsteps
    exact ih hsteps.2 (holds_write h hsteps.1)

def recordsOf (processId : Bytes) (ps : List ProcessRecord) : List ProcessRecord :=
  ps.filter (·.processId = processId)

def stepsOf (processId : Bytes) (steps : List RegistryStep) : List RegistryStep :=
  steps.filter (·.processId = processId)

theorem changeProcess_processId {processId : Bytes} {update : Option ProcessUpdate}
    {q : ProcessRecord} (h : changeProcess processId update p = some q) :
    q.processId = p.processId ∧ q.argvJson = p.argvJson := by
  unfold changeProcess at h
  split_ifs at h
  · obtain ⟨u, -, rfl⟩ := Option.map_eq_some_iff.mp h
    exact ⟨rfl, rfl⟩
  · obtain rfl := Option.some.inj h
    exact ⟨rfl, rfl⟩

theorem filter_filterMap_changeProcess (processId id : Bytes) (update : Option ProcessUpdate)
    (ps : List ProcessRecord) :
    recordsOf id (ps.filterMap (changeProcess processId update)) =
      (recordsOf id ps).filterMap (changeProcess processId update) := by
  induction ps with
  | nil => rfl
  | cons p ps ih =>
    simp only [recordsOf] at ih ⊢
    cases hp : changeProcess processId update p with
    | none => by_cases hid : p.processId = id <;> simp [hp, hid, ih]
    | some q =>
      have hq := (changeProcess_processId hp).1
      by_cases hid : p.processId = id <;> simp [hp, hq, hid, ih]

theorem recordsOf_apply (id : Bytes) (s : RegistryStep) (ps : List ProcessRecord) :
    recordsOf id (s.apply ps) =
      if s.processId = id then s.apply (recordsOf id ps) else recordsOf id ps := by
  cases s with
  | start p =>
    by_cases hid : p.processId = id <;>
      simp [RegistryStep.apply, RegistryStep.processId, recordsOf, hid]
  | change processId update =>
    have happly : ∀ qs, RegistryStep.apply qs (.change processId update) =
        qs.filterMap (changeProcess processId update) := fun _ => rfl
    rw [happly, happly, filter_filterMap_changeProcess]
    by_cases hid : (RegistryStep.change processId update).processId = id
    · rw [if_pos hid]
    · rw [if_neg hid]
      have hsame : ∀ p ∈ recordsOf id ps, changeProcess processId update p = some p := by
        intro p hp
        have hpid : p.processId = id := by simpa using of_mem_filter hp
        rw [changeProcess, if_neg (hpid ▸ Ne.symm hid)]
      rw [filterMap_congr hsame, filterMap_some]

/-- What a history makes of one process depends on the steps of that process only. -/
theorem recordsOf_foldl_apply (id : Bytes) (steps : List RegistryStep) (ps : List ProcessRecord) :
    recordsOf id (steps.foldl RegistryStep.apply ps) =
      (stepsOf id steps).foldl RegistryStep.apply (recordsOf id ps) := by
  induction steps generalizing ps with
  | nil => rfl
  | cons s steps ih =>
    rw [foldl_cons, ih, recordsOf_apply]
    by_cases hid : s.processId = id <;> simp [stepsOf, hid]

theorem foldl_changes_nil {id : Bytes} (hown : ∀ s ∈ steps, ∃ update, s = .change id update) :
    steps.foldl RegistryStep.apply [] = [] := by
  induction steps with
  | nil => rfl
  | cons s steps ih =>
    rw [forall_mem_cons] at hown
    obtain ⟨⟨update, rfl⟩, hown⟩ := hown
    exact ih hown

/-- Changes of one process leave it with its arguments, or remove it. -/
theorem foldl_own_changes (hown : ∀ s ∈ steps, ∃ update, s = .change p.processId update) :
    (RegistryStep.change p.processId none ∈ steps ∧ steps.foldl RegistryStep.apply [p] = []) ∨
    RegistryStep.change p.processId none ∉ steps ∧
      ∃ q, steps.foldl RegistryStep.apply [p] = [q] ∧ q.argvJson = p.argvJson := by
  induction steps generalizing p with
  | nil => exact .inr ⟨by simp, p, rfl, rfl⟩
  | cons s steps ih =>
    rw [forall_mem_cons] at hown
    obtain ⟨⟨update, rfl⟩, hown⟩ := hown
    cases update with
    | none =>
      refine .inl ⟨mem_cons_self, ?_⟩
      have hgone : RegistryStep.apply [p] (.change p.processId none) = [] := by
        simp [RegistryStep.apply, changeProcess]
      rw [foldl_cons, hgone]
      exact foldl_changes_nil hown
    | some u =>
      have hone : RegistryStep.apply [p] (.change p.processId (some u)) = [u.apply p] := by
        simp [RegistryStep.apply, changeProcess]
      rw [foldl_cons, hone]
      rcases ih (p := u.apply p) hown with ⟨hmem, heq⟩ | ⟨hmem, q, heq, hargv⟩
      · exact .inl ⟨mem_cons_of_mem _ hmem, heq⟩
      · refine .inr ⟨?_, q, heq, hargv⟩
        intro h
        rcases mem_cons.mp h with h | h
        · simp at h
        · exact hmem h

/-- An argument that can be stored: a C string of UTF-8 that fits its buffer. -/
structure Argument (a : Bytes) : Prop where
  text : Text a
  zero_notMem : 0 ∉ a
  length_lt : a.length < 4096

theorem mapM_argvItem {argv : List Bytes} (h : ∀ a ∈ argv, Argument a) :
    (argv.map Json.str).mapM argvItem = if ∀ a ∈ argv, a ≠ [] then some argv else none := by
  induction argv with
  | nil => rfl
  | cons a argv ih =>
    rw [forall_mem_cons] at h
    have hlength := h.1.length_lt
    rw [map_cons, mapM_cons, ih h.2, argvItem, cstr_eq_self h.1.zero_notMem]
    by_cases ha : a = []
    · simp [ha]
    · have hne : ¬ (a.length = 0 ∨ 4096 ≤ a.length) := by
        simp [ha, hlength]
      rw [if_neg hne]
      by_cases hall : ∀ b ∈ argv, b ≠ []
      · have hcons : ∀ b ∈ a :: argv, b ≠ [] := forall_mem_cons.mpr ⟨ha, hall⟩
        rw [if_pos hall, if_pos hcons]
        rfl
      · have hcons : ¬ ∀ b ∈ a :: argv, b ≠ [] := fun hc => hall (forall_mem_cons.mp hc).2
        rw [if_neg hall, if_neg hcons]
        rfl

theorem spells_buildArgvJson {argv : List Bytes} {text : Bytes}
    (h : buildArgvJson argv = some text) (hargv : ∀ a ∈ argv, Argument a) :
    Spells text (.arr (argv.map Json.str)) ∧ text.length < 16384 := by
  dsimp only [buildArgvJson] at h
  split_ifs at h with hlength
  obtain rfl := Option.some.inj h
  refine ⟨?_, by omega⟩
  have hspells := spells_arr (argv.map fun a => (argumentText a, Json.str a)) fun p hp => by
    obtain ⟨a, ha, rfl⟩ := mem_map.mp hp
    exact spells_str (spells_escapeText (hargv a ha).text)
  simpa [Function.comp_def] using hspells

/-- The stored arguments are read back unless one of them is empty. -/
theorem argvCopyFromJson_buildArgvJson {argv : List Bytes} {text : Bytes}
    (h : buildArgvJson argv = some text) (hargv : ∀ a ∈ argv, Argument a)
    (hlength : argv.length ≠ 0 ∧ argv.length ≤ 4096) :
    argvCopyFromJson text = if ∀ a ∈ argv, a ≠ [] then some argv else none := by
  obtain ⟨hspells, htext⟩ := spells_buildArgvJson h hargv
  have hvalid : validateValue 1 (.arr (argv.map Json.str)) = true := by
    have hitems : validateItems 2 (argv.map Json.str) = true := by
      rw [validateItems_iff]
      intro v hv
      obtain ⟨a, ha, rfl⟩ := mem_map.mp hv
      have hshort : a.length ≤ maxStringBytes := (hargv a ha).length_lt.le.trans (by decide)
      simp [validateValue, maxDepth, hshort]
    have hfew : argv.length ≤ maxArrayElements := hlength.2.trans (by decide)
    simp [validateValue, hitems, maxDepth, hfew]
  have hne : text ≠ [] := by
    rintro rfl
    obtain ⟨c, u, hc, -⟩ := hspells.start
    simp at hc
  rw [argvCopyFromJson, if_neg hne, parse_spelled hspells (by simp [maxDocumentBytes]; omega),
    if_pos hvalid]
  dsimp only
  rw [length_map, if_neg (by omega), mapM_argvItem hargv]

variable {host : Host} {env : Surroundings} {reg : Registry} {c : Connection} {params : Members}

theorem startChecks_argv (h : startChecks host env reg c params = .ok plan) :
    plan.request.items.mapM argvItem = some plan.argv := by
  simp only [startChecks, bind_eq_ok, orRefuse_eq_ok, lockState_eq_ok, namedWorkspace_eq_ok,
    require_eq_ok, pure_eq_ok] at h
  obtain ⟨q, -, argv, hargv, -, -, workspace, -, -, -, cwd, -, -, -, -, -, rfl⟩ := h
  exact hargv

/-- The items of a request are members of its parameters. -/
theorem startFields_items {q : StartRequest} (h : startFields params = some q) :
    (ascii "argv", Json.arr q.items) ∈ params := by
  simp only [startFields, Option.bind_eq_bind, Option.bind_eq_some_iff] at h
  obtain ⟨_, -, _, -, _, -, _, -, _, -, _, -, items, hitems, friendlyName, -, hq⟩ := h
  obtain rfl := Option.some.inj hq
  unfold getRequiredArray at hitems
  split at hitems
  · rename_i items' hget
    obtain rfl := Option.some.inj hitems
    obtain ⟨m, hm, hvalue⟩ := Option.map_eq_some_iff.mp hget
    have hkey : m.1 = ascii "argv" := by simpa using find?_some hm
    rw [← hkey, ← hvalue]
    exact mem_of_find?_eq_some hm
  · simp at hitems

theorem startChecks_arguments (h : startChecks host env reg c params = .ok plan)
    (htext : ∀ d, HasString d (.obj params) → Text d) :
    (∀ a ∈ plan.argv, Argument a) ∧ plan.argv.length ≠ 0 ∧ plan.argv.length ≤ 4096 := by
  have hsound := (startChecks_sound h).1
  have hmap := (Controller.mapM_some_iff _ _ _).mp (startChecks_argv h)
  have hlength : plan.argv.length = plan.request.items.length := by
    simpa using (congrArg List.length hmap).symm
  have hvalid := hsound.valid
  simp only [StartRequest.isValid, Bool.and_eq_true, decide_eq_true_eq] at hvalid
  refine ⟨fun a ha => ?_, ?_⟩
  · have hmem : some a ∈ plan.request.items.map argvItem := by
      rw [hmap]
      exact mem_map_of_mem ha
    obtain ⟨v, hv, hitem⟩ := mem_map.mp hmem
    unfold argvItem at hitem
    split at hitem
    · rename_i s
      split_ifs at hitem with hbounds
      obtain rfl := Option.some.inj hitem
      have hs : Text s := htext s (.obj (startFields_items hsound.fields) (.arr hv .str))
      have hle := cstr_length_le s
      exact ⟨text_cstr hs, zero_notMem_cstr s, by omega⟩
    · simp at hitem
  · rw [hlength]
    simpa using hvalid.1.1.1.1.1

/-- A start that is accepted and writes its record. The path of a control socket fits the address
of a socket. -/
structure Persists (host : Host) (env : Surroundings) (reg : Registry) (c : Connection)
    (params : Members) (plan : StartPlan) (p : ProcessRecord) : Prop where
  checks : startChecks host env reg c params = .ok plan
  record : ∃ exited controllerId controlSocket argvJson,
    env.launch = .ready exited (.ok controllerId) controlSocket ∧
    controlSocket.text.length < 108 ∧ buildArgvJson plan.argv = some argvJson ∧
    p = plan.record env.id exited controllerId controlSocket argvJson
  append : env.append 0 = none

/-- A workspace that was read leaves room for the rest of a process record. -/
theorem findWorkspace_length {ref : Bytes} {w : WorkspaceRecord}
    (h : findWorkspace reg ref = some w) :
    w.id.length + w.name.length + w.directory.length ≤ 509 := by
  have hkept := congrArg (List.length ∘ WorkspaceRecord.directory)
    (kept_of_mem_workspaces (mem_of_find?_eq_some h))
  have hvalid := findWorkspace_valid h
  have hid := hvalid.id_length
  have hname := hvalid.name_length
  simp only [Function.comp_apply, WorkspaceRecord.kept, length_take] at hkept
  omega

theorem text_of_parse {text d : Bytes} {v : Json} (h : parse text = some v)
    (hd : HasString d v) : Text d := by
  unfold parse at h
  split_ifs at h
  split at h
  · simp at h
  · rename_i w hread
    split_ifs at h
    obtain rfl := Option.some.inj h
    exact text_of_hasString hread hd

section Started
variable {host : Host} {env : Surroundings} {reg : Registry} {c : Connection} {params : Members}
  {plan : StartPlan} {p : ProcessRecord}

theorem Persists.storable (h : Persists host env reg c params plan p) : p.Storable := by
  obtain ⟨exited, controllerId, controlSocket, argvJson, -, hsocket, hargv, rfl⟩ := h.record
  obtain ⟨hclean, hlength⟩ := buildArgvJson_bounds hargv
  have hsound := (startChecks_sound h.checks).1
  have hvalid := hsound.record_valid env.id exited controllerId controlSocket hclean hlength
  refine ⟨hvalid, ?_⟩
  have hworkspace := findWorkspace_length hsound.workspace
  have hid := env.id.text_length
  have hmode := hvalid.mode_length
  have hcontroller := controllerId.length_lt
  have hcwd := hsound.cwd_length
  have hpolicy := hvalid.stdinPolicy_length
  simp only [StartPlan.record] at hmode hpolicy
  simp only [ProcessRecord.longestLine, StartPlan.record]
  omega

theorem Persists.processes (h : Persists host env reg c params plan p) :
    (processStart host env reg c params).reg.processes =
      RegistryStep.write reg.processes (.start p) := by
  obtain ⟨exited, controllerId, controlSocket, argvJson, hlaunch, -, hargv, hp⟩ := h.record
  rw [processStart, h.checks]
  change (launchProcess host env reg plan).reg.processes = _
  rw [launchProcess, hlaunch]
  dsimp only
  rw [hargv]
  dsimp only
  rw [← hp, h.append, appendProcess_storable reg.processes h.storable]
  rfl

/-- The arguments are read back unless one of them is empty. -/
theorem Persists.argv (h : Persists host env reg c params plan p)
    (htext : ∀ d, HasString d (.obj params) → Text d) :
    argvCopyFromJson p.argvJson =
      if ∀ a ∈ plan.argv, a ≠ [] then some plan.argv else none := by
  obtain ⟨exited, controllerId, controlSocket, argvJson, -, -, hargv, rfl⟩ := h.record
  obtain ⟨harguments, hlength⟩ := startChecks_arguments h.checks htext
  exact argvCopyFromJson_buildArgvJson hargv harguments hlength

/-- What is read of a process: its record with its own changes, and its arguments. -/
structure ReadsBack (past later : List RegistryStep) (p : ProcessRecord) (argv : List Bytes)
    (file : Bytes) : Prop where
  records : processFormat.records file =
    (past ++ .start p :: later).foldl RegistryStep.apply []
  own : recordsOf p.processId (processFormat.records file) =
    (stepsOf p.processId later).foldl RegistryStep.apply [p]
  arguments : ∀ q ∈ recordsOf p.processId (processFormat.records file),
    argvCopyFromJson q.argvJson = some argv

theorem stepsOf_eq_changes {id : Bytes} (h : ∀ q, .start q ∈ steps → q.processId ≠ id) :
    ∀ s ∈ stepsOf id steps, ∃ update, s = .change id update := by
  intro s hs
  obtain ⟨hmem, hid⟩ := mem_filter.mp hs
  rw [decide_eq_true_eq] at hid
  cases s with
  | start q => exact absurd hid (h q hmem)
  | change processId update => exact ⟨update, congrArg (RegistryStep.change · update) hid⟩

/-- A process that was not there before has the record of its start with its own changes. -/
theorem recordsOf_started {past : List RegistryStep}
    (hfresh : ∀ q, .start q ∈ past → q.processId ≠ p.processId) (later : List RegistryStep) :
    recordsOf p.processId ((past ++ .start p :: later).foldl RegistryStep.apply []) =
      (stepsOf p.processId later).foldl RegistryStep.apply [p] := by
  have hnone : recordsOf p.processId (past.foldl RegistryStep.apply []) = [] := by
    rw [recordsOf_foldl_apply]
    exact foldl_changes_nil (stepsOf_eq_changes hfresh)
  have hstart : recordsOf p.processId
      (RegistryStep.apply (past.foldl RegistryStep.apply []) (.start p)) = [p] := by
    rw [recordsOf_apply, hnone]
    exact if_pos rfl
  rw [foldl_append, foldl_cons, recordsOf_foldl_apply, hstart]

/-- Whatever else is done to the registry, a process that was started reads as its record with its
own changes, and its arguments are read back exactly when none of them is empty or the process was
removed. -/
theorem process_reads_back_iff {text : Bytes} {members : Members}
    (hparse : parse text = some (.obj members)) (hparams : (ascii "params", .obj params) ∈ members)
    (h : Persists host env reg c params plan p) {past later : List RegistryStep}
    (hpast : ∀ s ∈ past, s.Writable) (hreg : reg.processes = past.foldl RegistryStep.write [])
    (hlater : ∀ s ∈ later, s.Writable)
    (hfresh : ∀ q, .start q ∈ past ++ later → q.processId ≠ p.processId) :
    ReadsBack past later p plan.argv
      (later.foldl RegistryStep.write (processStart host env reg c params).reg.processes) ↔
    (.change p.processId none ∉ later → ∀ a ∈ plan.argv, a ≠ []) := by
  have htext : ∀ d, HasString d (.obj params) → Text d := fun d hd =>
    text_of_parse hparse (.obj hparams hd)
  have hfreshPast : ∀ q, .start q ∈ past → q.processId ≠ p.processId :=
    fun q hq => hfresh q (mem_append_left _ hq)
  have hfreshLater : ∀ q, .start q ∈ later → q.processId ≠ p.processId :=
    fun q hq => hfresh q (mem_append_right _ hq)
  have hfile : later.foldl RegistryStep.write (processStart host env reg c params).reg.processes =
      (past ++ .start p :: later).foldl RegistryStep.write [] := by
    rw [h.processes, hreg, foldl_append, foldl_cons]
  have hwritable : ∀ s ∈ past ++ .start p :: later, s.Writable := by
    intro s hs
    rcases mem_append.mp hs with hs | hs
    · exact hpast s hs
    · rcases mem_cons.mp hs with rfl | hs
      · exact h.storable
      · exact hlater s hs
  have hrecords := (holds_foldl_write hwritable Format.holds_nil).records_eq
    processFormat_reads_storable
  rw [← hfile] at hrecords
  have hown := recordsOf_started hfreshPast later
  rw [← hrecords] at hown
  have hmem : .change p.processId none ∈ stepsOf p.processId later ↔
      .change p.processId none ∈ later := by
    simp [stepsOf, RegistryStep.processId]
  have hdecode := h.argv htext
  rcases foldl_own_changes (stepsOf_eq_changes hfreshLater) with
    ⟨hremoved, hnone⟩ | ⟨hremoved, q, hone, hargv⟩
  · rw [hmem] at hremoved
    refine ⟨fun _ hnot => absurd hremoved hnot, fun _ => ⟨hrecords, hown, ?_⟩⟩
    rw [hown, hnone]
    simp
  · rw [hmem] at hremoved
    constructor
    · rintro ⟨-, -, harguments⟩ -
      rw [hown, hone, forall_mem_singleton, hargv, hdecode] at harguments
      by_contra hempty
      rw [if_neg hempty] at harguments
      simp at harguments
    · intro hnonempty
      refine ⟨hrecords, hown, ?_⟩
      rw [hown, hone, forall_mem_singleton, hargv, hdecode, if_pos (hnonempty hremoved)]

end Started

/-- The shell of the sample start gets another name. -/
def renameShell : List RegistryStep :=
  [.change (RandomId.repeated 0).text (some { friendlyName := some (ascii "b") })]

/-- There is a request for the shell. -/
theorem exists_shellRequest : ∃ text, parse text =
    some (.obj [(ascii "params", .obj (startParams (ascii "a") [ascii "sh"]))]) := by
  have hplain : ∀ s ∈ [ascii "w", ascii "a", ascii "stream", ascii "sh"], ∀ b ∈ s, Plain b := by
    decide +kernel
  simp only [forall_mem_cons] at hplain
  obtain ⟨hw, ha, hstream, hsh, -⟩ := hplain
  have hspells := spells_obj [Field.plain "params" (by decide) (spells_obj
    [Field.plain "workspace_id" (by decide) (spells_str (spellsString_plain hw)),
      Field.plain "friendly_name" (by decide) (spells_str (spellsString_plain ha)),
      Field.plain "mode" (by decide) (spells_str (spellsString_plain hstream)),
      Field.plain "argv" (by decide) (spells_arr [(_, _)]
        (forall_mem_singleton.mpr (spells_str (spellsString_plain hsh))))])]
  refine ⟨_, (parse_spelled hspells ?_).trans (if_pos ?_)⟩
  · simp [objectText, joinComma, memberText, arrayText, Field.text, Field.plain, ascii,
      maxDocumentBytes]
  · change validateValue 1 (.obj [(ascii "params", .obj (startParams (ascii "a") [ascii "sh"]))]) =
      true
    decide +kernel

/-- A shell that was renamed. -/
theorem shell_reads_back : ∃ p : ProcessRecord, ReadsBack [] renameShell p [ascii "sh"]
    (renameShell.foldl RegistryStep.write
      (startReady (ascii "a") [ascii "sh"]).reg.processes) := by
  obtain ⟨text, hparse⟩ := exists_shellRequest
  have hargv : ((startChecks .sample (.starting (.repeated 0)) .onlyWorkspace .owner
      (startParams (ascii "a") [ascii "sh"])).toOption.map StartPlan.argv) =
      some [ascii "sh"] := by
    decide +kernel
  have hjson : buildArgvJson [ascii "sh"] = some (ascii "[\"sh\"]") := by
    decide +kernel
  obtain ⟨plan, hplan, heq⟩ := Option.map_eq_some_iff.mp hargv
  have hchecks : startChecks .sample (.starting (.repeated 0)) .onlyWorkspace .owner
      (startParams (ascii "a") [ascii "sh"]) = .ok plan := by
    revert hplan
    cases startChecks .sample (.starting (.repeated 0)) .onlyWorkspace .owner
      (startParams (ascii "a") [ascii "sh"]) <;> simp [Except.toOption]
  have hpersists : Persists .sample (.starting (.repeated 0)) .onlyWorkspace .owner
      (startParams (ascii "a") [ascii "sh"]) plan
      (plan.record (.repeated 0) false sampleController sampleSocket (ascii "[\"sh\"]")) :=
    ⟨hchecks, ⟨false, sampleController, sampleSocket, ascii "[\"sh\"]", rfl, by decide,
      heq ▸ hjson, rfl⟩, rfl⟩
  have hrename : ∀ s ∈ renameShell, s.Writable := by
    rw [renameShell, forall_mem_singleton]
    intro u hu
    obtain rfl := Option.some.inj hu
    exact ⟨by simp, fun name hname => Option.some.inj hname ▸ by decide +kernel⟩
  refine ⟨_, heq ▸ (process_reads_back_iff hparse mem_cons_self hpersists (by simp) rfl
    hrename (by simp [renameShell])).mpr fun _ => ?_⟩
  rw [heq]
  decide

/-- An argument that starts with NUL is accepted and passed on as an empty one, and the stored
arguments cannot be read any more. -/
theorem empty_argument_not_read_back :
    (startReady (ascii "a") [ascii "sh", [0]]).reply.isSuccess = true ∧
    ((startChecks .sample (.starting (.repeated 0)) .onlyWorkspace .owner
      (startParams (ascii "a") [ascii "sh", [0]])).toOption.map StartPlan.argv) =
      some [ascii "sh", []] ∧
    (processFormat.records (startReady (ascii "a") [ascii "sh", [0]]).reg.processes).map
      (fun p => argvCopyFromJson p.argvJson) = [none] := by
  decide +kernel

end Cubicle.Manager
